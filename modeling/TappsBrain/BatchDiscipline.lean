import TappsBrain.Batch
import TappsBrain.MergeDiscipline

namespace TappsBrain
open Lib
set_option autoImplicit true
set_option relaxedAutoImplicit false
-- Unfolding `Keeps` would run the program it speaks of.
attribute [local irreducible] Keeps

namespace Discipline
variable {w : World} (d : Discipline w)

/-- What a pending entry of a batch gives back when the batch fails. -/
def Pends (p : PendingEntry) : Prop := d.writes p.1 ∧ ∀ b, p.2 = some b → d.writes b

theorem rollBack {pending : List PendingEntry} (h : ∀ p ∈ pending, d.Pends p) :
    Keeps d.inv (rollBack pending) := by
  apply Keeps.forEach
  intro p hp
  obtain ⟨hnew, hold⟩ := h p hp
  exact d.restoreSlot p.1.key p.2 hold (fun _ => d.frees_of_writes p.1 hnew)

theorem saveRows {entries : List MemoryEntry} (h : ∀ e ∈ entries, d.writes e) :
    Keeps d.inv (saveRows w entries) := by
  apply (keeps_backendCall d.bookkeeping).bind
  intro _ _
  split
  · apply Keeps.modify
    intro s hs
    induction entries generalizing s with
    | nil => exact hs
    | cons e rest ih =>
      rename_i hcolumns
      rw [List.all_cons, Bool.and_eq_true] at hcolumns
      apply ih (fun e' he' => h e' (List.mem_cons_of_mem e he')) hcolumns.2
      exact d.store s e hs (h e List.mem_cons_self)
  · exact Keeps.raise

theorem persistManyOrRollback {pending : List PendingEntry} (h : ∀ p ∈ pending, d.Pends p) :
    Keeps d.inv (persistManyOrRollback w pending) := by
  have hrows : Keeps d.inv (TappsBrain.saveRows w (pending.map Prod.fst)) := by
    apply d.saveRows
    intro e he
    obtain ⟨p, hp, rfl⟩ := List.mem_map.1 he
    exact (h p hp).1
  exact hrows.rollback (d.rollBack h)

section Batch
variable (hall : ∀ e, d.sees e → d.writes e)
include hall

theorem buildBatchEntry {a : SaveArgs} {prep : SavePrep}
    (hb : d.AllowsBuild (preparedArgs a prep)) :
    Keeps d.inv (buildBatchEntry w a prep) (fun r => ∀ p, r = .ok p → d.Pends p) := by
  have hbuilt := d.buildAndAssignEntry hall prep.mgExplicit hb
  unfold TappsBrain.buildBatchEntry
  apply Keeps.handle
  · apply hbuilt.bind
    intro built hbuilt
    apply Keeps.pure
    intro p hp
    cases hp
    exact ⟨hbuilt.1, fun b hb => (hbuilt.2.2 b hb).1⟩
  · intro e
    split
    · exact Keeps.pure (fun p hp => nomatch hp)
    · exact Keeps.pure (fun p hp => nomatch hp)
    · exact Keeps.raise

theorem prepareBatchEntry {a : SaveArgs} (hp : ∀ key, d.AllowsPrepare key)
    (hb : ∀ p, d.Prepared a p → d.AllowsBuild (preparedArgs a p)) :
    Keeps d.inv (prepareBatchEntry w a) (fun r => ∀ p, r = .ok p → d.Pends p) := by
  have hsettled := d.prepareSave a hall hp
  have hprep := Keeps.and hsettled (prepareSave_redirects w a)
  unfold TappsBrain.prepareBatchEntry
  split
  · exact Keeps.pure (fun p hp => nomatch hp)
  · apply hprep.bind
    intro r hr
    cases r with
    | error short => exact Keeps.pure (fun p hp => nomatch hp)
    | ok prep =>
      have hprepared : d.Prepared a prep := ⟨fun t ht => hr.1.1 prep t rfl ht, hr.2 prep rfl⟩
      exact d.buildBatchEntry hall (hb prep hprepared)

theorem prepareBatch {pending : List PendingEntry} {items : List SaveArgs}
    (hpending : ∀ p ∈ pending, d.Pends p) (hp : ∀ key, d.AllowsPrepare key)
    (hb : ∀ a ∈ items, ∀ p, d.Prepared a p → d.AllowsBuild (preparedArgs a p)) :
    Keeps d.inv (prepareBatch w pending items)
      (fun built => ∀ p ∈ pendingOf built, d.Pends p) := by
  induction items generalizing pending with
  | nil => exact Keeps.pure (fun p hp => nomatch hp)
  | cons a rest ih =>
    have hrest : ∀ a' ∈ rest, ∀ p, d.Prepared a' p → d.AllowsBuild (preparedArgs a' p) :=
      fun a' ha' => hb a' (List.mem_cons_of_mem a ha')
    apply ((d.prepareBatchEntry hall hp (hb a List.mem_cons_self)).rollback
      (d.rollBack hpending)).bind
    intro built hbuilt
    have hmore : ∀ p ∈ pendingWith pending built, d.Pends p := by
      intro p hp
      cases built with
      | error short => exact hpending p hp
      | ok q =>
        obtain hp | hp := List.mem_append.1 hp
        · exact hpending p hp
        · rw [List.mem_singleton.1 hp]
          exact hbuilt q rfl
    apply (ih hmore hrest).bind
    intro others hothers
    apply Keeps.pure
    intro p hp
    cases built with
    | error short => exact hothers p hp
    | ok q =>
      obtain rfl | hp := List.mem_cons.1 hp
      · exact hbuilt p rfl
      · exact hothers p hp

/-- A batch keeps what its rows, their merges and the roll back of either keep. -/
theorem saveMany {items : List SaveArgs} (hp : ∀ key, d.AllowsPrepare key)
    (hb : ∀ a ∈ items, ∀ p, d.Prepared a p → d.AllowsBuild (preparedArgs a p))
    (hm : ∀ entry others plan, w.planMerge entry others = some plan → d.AllowsMergedRow plan) :
    Keeps d.inv (saveMany w items) := by
  have hnone : ∀ p ∈ ([] : List PendingEntry), d.Pends p := fun p hp => nomatch hp
  have hstore : Keeps d.inv (storeBatch w items)
      (fun built => ∀ p ∈ pendingOf built, d.Pends p) := by
    apply (d.prepareBatch hall hnone hp hb).bind
    intro built hbuilt
    split
    · exact Keeps.pure hbuilt
    · exact (d.persistManyOrRollback hbuilt).bind (fun _ _ => Keeps.pure hbuilt)
  apply hstore.bind
  intro built hbuilt
  have hdrop : Keeps d.inv (Prog.forEach (fun p : PendingEntry =>
      TappsBrain.dropIfConcurrentlyRemoved w p.1.key) (pendingOf built)) :=
    Keeps.forEach _ (fun p hp =>
      d.dropIfConcurrentlyRemoved (d.frees_of_writes p.1 (hbuilt p hp).1))
  apply hdrop.bind
  intro _ _
  have hfinish : Keeps d.inv (Prog.forEach (finishRow w) (items.zip built)) := by
    apply Keeps.forEach
    intro row _
    unfold finishRow
    split
    · exact Keeps.pure trivial
    · exact d.postprocessSavedEntry _ _ (fun _ => d.maybeConsolidate hall _ (hm _))
  exact hfinish.bind (fun _ _ => Keeps.pure trivial)

end Batch
end Discipline
end TappsBrain
