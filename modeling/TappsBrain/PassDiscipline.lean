import TappsBrain.SaveDiscipline

namespace TappsBrain
open Lib
set_option autoImplicit true
set_option relaxedAutoImplicit false

namespace Discipline
variable {w : World} (d : Discipline w)

section Relations

theorem getRelations (key : String) : Keeps d.inv (getRelations w key) := by
  apply Keeps.bind Keeps.ask
  intro r _
  cases r with
  | some b => exact Keeps.pure trivial
  | none =>
    apply (d.loadRelationRows key).bind
    intro loaded _
    exact (d.setBucket key loaded).bind (fun _ _ => Keeps.pure trivial)

theorem saveRelations (key : String) (rels : List RelationEntry) :
    Keeps d.inv (saveRelations w key rels) := by
  apply (d.saveRelationRows key rels).bind
  intro _ _
  exact (d.loadRelationRows key).bind (fun loaded _ => d.setBucket key loaded)

theorem transferRelations (oldKey newKey : String) :
    Keeps d.inv (transferRelations w oldKey newKey) := by
  apply (d.getRelations oldKey).bind
  intro oldRelations _
  split
  · exact Keeps.pure trivial
  · apply (d.saveRelationRows newKey _).bind
    intro _ _
    apply (d.loadRelationRows newKey).bind
    intro loaded _
    apply (d.setBucket newKey loaded).bind
    intro _ _
    exact (d.deleteRelationRows oldKey).swallow.bind (fun _ _ => d.popBucket oldKey)

end Relations
section Supersede

theorem finishSupersede {now : Stamp} {oldKey : String} {e : MemoryEntry} (he : d.writes e)
    (hopened : d.writes (opened now e)) : Keeps d.inv (finishSupersede w now oldKey e) := by
  apply (d.appendAudit oldKey _).bind
  intro _ _
  apply (d.setEntry hopened).bind
  intro _ _
  apply (d.persistOrRestore hopened he).bind
  intro _ _
  apply (d.dropIfConcurrentlyRemoved (d.frees_of_writes e he)).bind
  intro _ _
  exact (d.transferRelations oldKey e.key).bind (fun _ _ => Keeps.pure trivial)

end Supersede
section Passes

theorem archiveEntry (e : MemoryEntry) : Keeps d.inv (archiveEntry w e) :=
  keeps_archiveEntry d.bookkeeping

theorem durableView {body : StoreM α} {Q : α → Prop} (hfree : ∀ key, d.frees key)
    (hbody : Keeps d.inv body Q) : Keeps d.inv (durableView w body) Q := by
  apply Keeps.bind Keeps.ask
  intro preExisting _
  apply (d.mergeDurableEntries true).bind
  intro _ _
  exact hbody.ensure (Keeps.modify (fun s hs => d.filter s _ hs hfree))

theorem updateTags {key : String} (add remove : List String)
    (h : ∀ e tags now, d.sees e → e.key = key → d.reads now →
      d.writes e ∧ d.writes { e with tags := tags, updatedAt := now }) :
    Keeps d.inv (updateTags w key add remove) := by
  apply (d.ensureEntryCached key).bind
  intro r hr
  cases r with
  | none => exact Keeps.pure trivial
  | some e =>
    obtain ⟨hsees, hkey⟩ := hr e rfl
    dsimp only
    split
    · exact Keeps.pure trivial
    · apply d.utcNow.bind
      intro now hnow
      obtain ⟨hb, ha⟩ := h e _ now hsees hkey hnow
      exact (d.rewriteEntry hb ha).bind (fun _ _ => Keeps.pure trivial)

theorem gcDemoteEntry (scanned : MemoryEntry) (target : String)
    (h : ∀ e now, d.sees e → d.reads now →
      d.writes e ∧ d.writes (demotedRow w.toConfig target now e)) :
    Keeps d.inv (gcDemoteEntry w scanned target) := by
  apply Keeps.handle _ (fun _ => Keeps.pure trivial)
  apply (d.getEntry scanned.key).bind
  intro r hr
  cases r with
  | none => exact Keeps.pure trivial
  | some current =>
    dsimp only
    split
    · exact Keeps.pure trivial
    · apply d.utcNow.bind
      intro now hnow
      obtain ⟨hb, ha⟩ := h current now (hr current rfl).1 hnow
      apply (d.rewriteEntry hb ha).bind
      intro _ _
      exact (d.appendAudit scanned.key _).bind (fun _ _ => Keeps.pure trivial)

theorem staysForArchive (at_ : Stamp) (scanned : MemoryEntry)
    (h : ∀ target, checkDemotion w.toConfig scanned at_ = some target → ∀ e now, d.sees e →
      d.reads now → d.writes e ∧ d.writes (demotedRow w.toConfig target now e)) :
    Keeps d.inv (staysForArchive w at_ scanned) := by
  rw [TappsBrain.staysForArchive]
  split
  · split
    · exact Keeps.pure trivial
    · next target htarget =>
      apply (d.gcDemoteEntry scanned target (h target htarget)).bind
      intro _ _
      exact Keeps.pure trivial
  · exact Keeps.pure trivial

theorem gcArchiveOne (scanned : MemoryEntry) : Keeps d.inv (gcArchiveOne w scanned) := by
  apply (d.getEntry scanned.key).bind
  intro r _
  cases r with
  | none => exact Keeps.pure trivial
  | some current =>
    dsimp only
    split
    · exact Keeps.pure trivial
    · exact d.archiveEntry current

theorem deleteEach (keys : List String) (h : ∀ e, d.sees e → d.writes e) :
    Keeps d.inv (deleteEach w keys) := by
  apply Keeps.forEach
  intro key _
  exact (d.delete (fun e he _ => h e he)).bind (fun _ _ => Keeps.pure trivial)

theorem gc (dryRun : Bool) (hfree : ∀ key, d.frees key) (hall : ∀ e, d.sees e → d.writes e)
    (h : ∀ scanned at_ target, checkDemotion w.toConfig scanned at_ = some target →
      ∀ e now, d.sees e → d.reads now →
        d.writes e ∧ d.writes (demotedRow w.toConfig target now e)) :
    Keeps d.inv (gc w dryRun) := by
  apply d.durableView hfree
  apply d.snapshot.bind
  intro entries _
  apply d.utcNow.bind
  intro now _
  split
  · exact Keeps.pure trivial
  · apply (Keeps.filterEach _ (fun e _ => d.staysForArchive now e (h e now))).bind
    intro toArchive _
    apply (Keeps.filterEach _ (fun e _ => d.gcArchiveOne e)).bind
    intro archived _
    exact (d.deleteEach _ hall).bind (fun _ _ => Keeps.pure trivial)

theorem refreshArchiveOne (key : String) : Keeps d.inv (refreshArchiveOne w key) := by
  apply (d.getEntry key).bind
  intro r _
  cases r with
  | none => exact Keeps.pure trivial
  | some current => exact d.archiveEntry current

theorem refreshDecay (dryRun : Bool) (hfree : ∀ key, d.frees key)
    (hall : ∀ e, d.sees e → d.writes e)
    (h : ∀ e now detail, d.sees e → d.reads now →
      d.writes (closeWith "age" .stale now none detail e)) :
    Keeps d.inv (refreshDecay w dryRun) := by
  apply d.durableView hfree
  apply d.utcNow.bind
  intro now _
  apply d.snapshot.bind
  intro entries _
  dsimp only
  split
  · exact Keeps.pure trivial
  · have harchive : Keeps d.inv (archiveAndDelete w (refreshKeys w.toConfig now .archive entries)) := by
      apply (Keeps.filterEach _ (fun key _ => d.refreshArchiveOne key)).bind
      intro archived _
      exact (d.deleteEach archived hall).bind (fun _ _ => Keeps.pure trivial)
    apply harchive.bind
    intro archived _
    have hclose : Keeps d.inv
        (Prog.forEach (refreshCloseOne w) (refreshKeys w.toConfig now .close entries)) := by
      apply Keeps.forEach
      intro key _
      have hone : Keeps d.inv
          (TappsBrain.closeValidity w key "age" none (some "decayed below stale_threshold")) := by
        apply (d.closeValidity _).forget
        intro status hs e now' hsees _ hnow
        cases hs
        exact ⟨hall e hsees, h e now' _ hsees hnow⟩
      exact hone.bind (fun _ _ => Keeps.pure trivial)
    exact hclose.bind (fun _ _ => Keeps.pure trivial)

end Passes
end Discipline
end TappsBrain
