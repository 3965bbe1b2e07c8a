import TappsBrain.Parked
import TappsBrain.RelationFrame

namespace TappsBrain
open Lib
set_option autoImplicit true
set_option relaxedAutoImplicit false

/-- An invariant that reads the relations only. -/
structure Aside (I : Store → Prop) : Prop where
  bookkeeping : Bookkeeping I
  entries : ∀ s t, I s → I { s with entries := t }
  rows : ∀ s t, I s → I { s with rows := t }

theorem SameRelations.aside (s : Store) : Aside (SameRelations s) where
  bookkeeping := SameRelations.bookkeeping s
  entries := fun _ _ h => h
  rows := fun _ _ h => h

namespace Aside
variable {w : World} {I : Store → Prop} (hI : Aside I)
include hI

theorem setEntry (e : MemoryEntry) : Keeps I (setEntry e) :=
  keeps_setEntry (fun s hs => hI.entries s _ hs)

theorem popEntry (key : String) : Keeps I (popEntry key) :=
  keeps_popEntry (fun s hs => hI.entries s _ hs)

theorem saveRow (e : MemoryEntry) : Keeps I (saveRow w e) :=
  keeps_saveRow hI.bookkeeping (fun s hs => hI.rows s _ hs)

theorem deleteRow (key : String) : Keeps I (deleteRow w key) :=
  keeps_deleteRow hI.bookkeeping (fun s hs => hI.rows s _ hs)

theorem utcNow : Keeps I (utcNow w) := keeps_utcNow hI.bookkeeping

theorem loadAll (limit : Option Nat) : Keeps I (loadAll w limit) :=
  (keeps_loadAll (φ := fun _ => True) hI.bookkeeping (fun _ _ _ _ _ _ => trivial)).forget

theorem ensureEntryCached (key : String) : Keeps I (ensureEntryCached w key) := by
  apply (Keeps.ask (f := fun s : Store => s.entries.get? key)).bind
  intro r _
  cases r with
  | some e => exact Keeps.pure trivial
  | none =>
    have hload : Keeps I (loadOne w key) (fun r => ∀ e, r = some e → True ∧ e.key = key) :=
      keeps_loadOne hI.bookkeeping (fun _ _ _ _ _ _ => trivial)
    apply hload.forget.bind
    intro r _
    cases r with
    | none => exact Keeps.pure trivial
    | some e => exact (hI.setEntry e).bind (fun _ _ => Keeps.pure trivial)

theorem restoreIfSame (updated previous : MemoryEntry) : Keeps I (restoreIfSame updated previous) := by
  apply (Keeps.ask (f := fun s : Store => s.entries.get? updated.key)).bind
  intro current _
  split
  · exact hI.setEntry previous
  · exact Keeps.pure trivial

theorem persistOrRestore (updated previous : MemoryEntry) :
    Keeps I (persistOrRestore w updated previous) :=
  (hI.saveRow updated).rollback (hI.restoreIfSame updated previous)

theorem dropIfConcurrentlyRemoved (key : String) : Keeps I (dropIfConcurrentlyRemoved w key) := by
  apply (Keeps.ask (f := fun s : Store => s.entries.get? key)).bind
  intro current _
  split
  · exact (hI.deleteRow key).swallow
  · exact Keeps.pure trivial

theorem rewriteEntry (before after : MemoryEntry) : Keeps I (rewriteEntry w before after) := by
  apply (hI.setEntry after).bind
  intro _ _
  apply (hI.persistOrRestore after before).bind
  exact fun _ _ => hI.dropIfConcurrentlyRemoved after.key

theorem promoteWhenDue (updated : MemoryEntry) : Keeps I (promoteWhenDue w updated) := by
  apply hI.utcNow.bind
  intro checkedAt _
  cases checkPromotion w.toConfig updated checkedAt with
  | none => exact Keeps.pure trivial
  | some target =>
    apply hI.utcNow.bind
    intro now _
    apply (hI.rewriteEntry updated (promoted w.toConfig target now updated)).bind
    intro _ _
    exact (keeps_appendAudit hI.bookkeeping).bind (fun _ _ => Keeps.pure trivial)

theorem reinforce (key : String) (boost : ℚ) : Keeps I (reinforce w key boost) := by
  apply (hI.ensureEntryCached key).bind
  intro r _
  cases r with
  | none => exact Keeps.raise
  | some e =>
    apply hI.utcNow.bind
    intro now _
    apply (hI.rewriteEntry e (reinforced w.toConfig boost now e)).bind
    intro _ _
    unfold maybePromoteAfterReinforce
    split
    · exact Keeps.pure trivial
    · exact (hI.promoteWhenDue _).handle (fun _ => Keeps.pure trivial)

theorem mergeDurableEntries (allowOverCap : Bool) : Keeps I (mergeDurableEntries w allowOverCap) := by
  apply (Keeps.ask (f := fun s : Store => s.entries.size)).bind
  intro size _
  split
  · exact Keeps.pure trivial
  · apply (hI.loadAll _).bind
    intro durable _
    exact Keeps.modify (fun s hs => hI.entries s _ hs)

theorem planFor (key value tier : String) : Keeps I (planFor w key value tier) := by
  apply (hI.mergeDurableEntries false).bind
  intro _ _
  apply (Keeps.ask (f := fun s : Store => s.entries.values)).bind
  intro entries _
  apply hI.utcNow.bind
  intro now _
  exact Keeps.ofExcept (fun _ _ => trivial)

theorem invalidateOne (current invalidated : MemoryEntry) :
    Keeps I (invalidateOne w current invalidated) := by
  apply (hI.setEntry invalidated).bind
  intro _ _
  apply Keeps.handle
  · apply (hI.saveRow invalidated).bind
    intro _ _
    exact (hI.dropIfConcurrentlyRemoved _).bind (fun _ _ => Keeps.pure trivial)
  · intro _
    exact (hI.restoreIfSame invalidated current).bind (fun _ _ => Keeps.pure trivial)

theorem invalidateAll (now : Stamp) (plan : List (String × String)) :
    Keeps I (invalidateAll w now plan) := by
  induction plan with
  | nil => exact Keeps.pure trivial
  | cons p rest ih =>
    apply (Keeps.ask (f := fun s : Store => s.entries.get? p.1)).bind
    intro r _
    cases r with
    | none => exact ih
    | some current =>
      dsimp only
      split
      · exact ih
      · apply (hI.invalidateOne current (invalidatedBy now p.2 current)).bind
        intro persisted _
        exact invalidateRest_keeps ih p.1 persisted

theorem handleConflicts (key value tier : String) (conflictCheck : Bool) :
    Keeps I (handleConflicts w key value tier conflictCheck) := by
  unfold TappsBrain.handleConflicts
  split
  · exact Keeps.pure trivial
  · apply (hI.planFor key value tier).bind
    intro r _
    cases r with
    | none => exact Keeps.pure trivial
    | some plan =>
      apply (hI.invalidateAll plan.now plan.invalidations).bind
      intro r _
      cases r with
      | none => exact Keeps.pure trivial
      | some keys =>
        apply (Keeps.forEach keys (fun _ _ => keeps_appendAudit hI.bookkeeping)).bind
        exact fun _ _ => Keeps.pure trivial

theorem handleDedup (key value : String) (dedup : Bool) : Keeps I (handleDedup w key value dedup) := by
  unfold TappsBrain.handleDedup
  split
  · exact Keeps.pure trivial
  · apply (hI.ensureEntryCached key).bind
    intro r _
    cases r with
    | none => exact Keeps.pure trivial
    | some e =>
      dsimp only
      split
      · exact Keeps.pure trivial
      · apply Keeps.handle
        · exact (hI.reinforce key 0).bind (fun _ _ => Keeps.pure trivial)
        · intro err
          cases err with
          | keyError => exact Keeps.pure trivial
          | _ => exact Keeps.raise

theorem prepareUnder (a : SaveArgs) (value agentScope : String)
    (mgExplicit : Option (Option String)) (updateKey : Option String) :
    Keeps I (prepareUnder w a value agentScope mgExplicit updateKey) := by
  unfold TappsBrain.prepareUnder
  have hboth : Keeps I (dedupAndConflicts w (updateKey.getD a.key) value
      (normalizeSaveTier w.toConfig a.tier) a.dedup a.conflictCheck) := by
    unfold dedupAndConflicts
    split
    · exact Keeps.pure trivial
    · apply (hI.handleDedup _ value a.dedup).bind
      intro r _
      cases r with
      | some short => exact Keeps.pure trivial
      | none => exact (hI.handleConflicts _ value _ _).bind (fun _ _ => Keeps.pure trivial)
  apply hboth.bind
  intro r _
  cases r with
  | error short => exact Keeps.pure trivial
  | ok conflicts => exact Keeps.pure trivial

theorem checkSave (a : SaveArgs) : Keeps I (checkSave w a) :=
  (keeps_checkSave hI.bookkeeping a).forget

theorem persistEntryOrRollback (entry : MemoryEntry) (existing : Option MemoryEntry) :
    Keeps I (persistEntryOrRollback w entry existing) := by
  apply Keeps.bind ((hI.saveRow entry).rollback _) (fun _ _ => hI.dropIfConcurrentlyRemoved entry.key)
  cases existing with
  | none => exact hI.popEntry entry.key
  | some e => exact hI.setEntry e

theorem buildEntry (a : SaveArgs) (mgExplicit : Option (Option String)) :
    Keeps I (buildEntry w a mgExplicit) := by
  apply (hI.ensureEntryCached a.key).bind
  intro existing _
  apply (Keeps.ofExcept (Q := fun _ => True) (fun _ _ => trivial)).bind
  intro tierVal _
  apply hI.utcNow.bind
  intro now _
  apply (Keeps.ofExcept (Q := fun _ => True) (fun _ _ => trivial)).bind
  exact fun _ _ => Keeps.pure trivial

end Aside
end TappsBrain
