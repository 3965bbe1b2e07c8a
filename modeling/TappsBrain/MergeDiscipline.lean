import TappsBrain.PassDiscipline

namespace TappsBrain
open Lib
set_option autoImplicit true
set_option relaxedAutoImplicit false

namespace Discipline
variable {w : World} (d : Discipline w)

/-- What a merge may write besides the merged row: its promotion columns, the closed sources, and
the reopened sources of a merge that failed. -/
structure AllowsMerge (plan : MergePlan) : Prop where
  promoted : ∀ f, d.Allows plan.consolidated.key (promotionPatch f).apply
  closed : ∀ snap ∈ plan.sources, snap.key ≠ plan.consolidated.key →
    d.Allows snap.key (fun now => closeWith "consolidation" .contradicted now
      (some plan.consolidated.key) (some (consolidatedInto plan.consolidated.key)))
  reopened : ∀ key, d.Allows key (reopenPatch none).apply

section Merge
variable (hall : ∀ e, d.sees e → d.writes e)

theorem closeSource {plan : MergePlan} (h : d.AllowsMerge plan) {snap : MemoryEntry}
    (hsnap : snap ∈ plan.sources) : Keeps d.inv (closeSource w plan.consolidated.key snap) := by
  rw [TappsBrain.closeSource]
  split
  · exact Keeps.pure trivial
  · next hne =>
    apply (d.ensureEntryCached snap.key).forget.bind
    intro r _
    cases r with
    | none => exact Keeps.raise
    | some current =>
      dsimp only
      split
      · exact Keeps.raise
      · have hclose : Keeps d.inv (TappsBrain.closeValidity w snap.key "consolidation"
            (some plan.consolidated.key) (some (consolidatedInto plan.consolidated.key))) := by
          apply Keeps.forget (d.closeValidity _)
          intro status hstatus
          cases hstatus
          exact h.closed snap hsnap hne
        apply hclose.bind
        intro r _
        cases r with
        | none => exact Keeps.raise
        | some _ => exact Keeps.pure trivial

theorem stripKeyFromRelations (key : String) : Keeps d.inv (stripKeyFromRelations w key) := by
  apply (d.loadRelationRows key).bind
  intro rows _
  apply (d.deleteRelationRows key).bind
  intro _ _
  exact Keeps.forEach _ (fun r _ => d.saveRelationRows _ _)

theorem appendConsolidationAudit (plan : MergePlan) :
    Keeps d.inv (appendConsolidationAudit w plan) := by
  apply (d.appendAudit _ _).bind
  intro _ _
  apply Keeps.forEach
  intro sk _
  split
  · exact Keeps.pure trivial
  · exact d.appendAudit _ _

/-- The merged row takes over the relations of its sources, then the sources are closed. -/
theorem linkSources {plan : MergePlan} (h : d.AllowsMerge plan) :
    Keeps d.inv (linkSources w plan) := by
  have hclose : Keeps d.inv (do
      Prog.forEach (TappsBrain.closeSource w plan.consolidated.key) plan.sources
      TappsBrain.appendConsolidationAudit w plan) := by
    apply (Keeps.forEach _ (fun snap hsnap => d.closeSource h hsnap)).bind
    exact fun _ _ => d.appendConsolidationAudit plan
  have hrelate : Keeps d.inv (do
      let lists ← Prog.mapEach (TappsBrain.getRelations w) (plan.sources.map (·.key))
      let merged := mergeEntryRelations w.unicode lists plan.consolidated.key
      if merged = [] then pure () else TappsBrain.saveRelations w plan.consolidated.key merged
      Prog.forEach (TappsBrain.closeSource w plan.consolidated.key) plan.sources
      TappsBrain.appendConsolidationAudit w plan) := by
    apply (Keeps.mapEach _ (fun key _ => d.getRelations key)).bind
    intro lists _
    dsimp only
    split
    · exact hclose
    · exact (d.saveRelations _ _).bind (fun _ _ => hclose)
  rw [TappsBrain.linkSources]
  obtain ⟨resolved, fields, lost⟩ := resolveConsolidatedPromotionState plan.sources
  have hloss : Keeps d.inv (do
      if lost then
        TappsBrain.appendAudit w plan.consolidated.key
          (.promotionStatePartialLoss (plan.sources.map (·.key)) resolved)
      else pure ()
      let lists ← Prog.mapEach (TappsBrain.getRelations w) (plan.sources.map (·.key))
      let merged := mergeEntryRelations w.unicode lists plan.consolidated.key
      if merged = [] then pure () else TappsBrain.saveRelations w plan.consolidated.key merged
      Prog.forEach (TappsBrain.closeSource w plan.consolidated.key) plan.sources
      TappsBrain.appendConsolidationAudit w plan) := by
    dsimp only
    split
    · exact (d.appendAudit _ _).bind (fun _ _ => hrelate)
    · exact hrelate
  cases fields with
  | none => exact hloss
  | some f => exact (d.updateFields (h.promoted f)).forget.bind (fun _ _ => hloss)

include hall

theorem rollbackMerge {plan : MergePlan} (h : d.AllowsMerge plan) (sourceKeys : List String) :
    Keeps d.inv (rollbackMerge w plan.consolidated.key sourceKeys) := by
  have hreopen : Keeps d.inv (Prog.forEach (fun key =>
      if key = plan.consolidated.key then pure ()
      else Prog.swallow (do
        let _ ← TappsBrain.updateFields w key (reopenPatch none)
        pure ())) sourceKeys) := by
    apply Keeps.forEach
    intro key _
    split
    · exact Keeps.pure trivial
    · apply Keeps.swallow
      exact (d.updateFields (h.reopened key)).forget.bind (fun _ _ => Keeps.pure trivial)
  apply Keeps.swallow
  apply hreopen.bind
  intro _ _
  apply (d.stripKeyFromRelations _).bind
  intro _ _
  exact (d.delete (fun e he _ => hall e he)).bind (fun _ _ => Keeps.pure trivial)

/-- A merge may write its row, whatever the preparation settles. -/
structure AllowsMergedRow (plan : MergePlan) : Prop where
  merge : d.AllowsMerge plan
  prepare : ∀ key, d.AllowsPrepare key
  build : ∀ p, d.Prepared plan.consolidated.saveArgs p →
    d.AllowsBuild (preparedArgs (inferredArgs w.toConfig plan.consolidated.saveArgs) p)

theorem persistConsolidatedEntry {plan : MergePlan} (h : d.AllowsMergedRow plan) :
    Keeps d.inv (persistConsolidatedEntry w plan) := by
  simp only [TappsBrain.persistConsolidatedEntry]
  split
  · exact Keeps.raise
  · have hsave : Keeps d.inv (TappsBrain.saveWith w (fun _ => pure ()) plan.consolidated.saveArgs) :=
      (d.saveWith hall h.prepare h.build (fun _ _ _ => Keeps.pure trivial)).forget
    apply hsave.bind
    intro r _
    cases r with
    | dict short => exact Keeps.raise
    | entry e =>
      dsimp only
      split
      · exact Keeps.raise
      · exact (d.linkSources h.merge).rollback (d.rollbackMerge hall h.merge _)

theorem maybeConsolidate (entry : MemoryEntry)
    (h : ∀ others plan, w.planMerge entry others = some plan → d.AllowsMergedRow plan) :
    Keeps d.inv (maybeConsolidate w entry) := by
  have hmark : ∀ b, Keeps d.inv
      (Prog.modify (fun s : Store => { s with consolidationInProgress := b }) : StoreM Unit) :=
    fun b => Keeps.modify (fun s hs => d.bookkeeping.inProgress s b hs)
  have hcheck : Keeps d.inv (checkConsolidationOnSave w entry) := by
    apply (d.mergeDurableEntries false).bind
    intro _ _
    apply d.snapshot.forget.bind
    intro entries _
    cases hplan : w.planMerge entry (entries.filter (fun e => e.key ≠ entry.key)) with
    | none => exact Keeps.pure trivial
    | some plan => exact d.persistConsolidatedEntry hall (h _ plan hplan)
  apply (hmark true).bind
  intro _ _
  apply hcheck.swallow.bind
  exact fun _ _ => hmark false

/-- A save with the merge it may trigger. -/
theorem save {a : SaveArgs} (hp : ∀ key, d.AllowsPrepare key)
    (hb : ∀ p, d.Prepared a p → d.AllowsBuild (preparedArgs (inferredArgs w.toConfig a) p))
    (hm : ∀ entry others plan, w.planMerge entry others = some plan → d.AllowsMergedRow plan) :
    Keeps d.inv (save w a) (fun r => ∀ e, r = .entry e → d.writes e) :=
  d.saveWith hall hp hb (fun e _ _ => d.maybeConsolidate hall e (hm e))

end Merge

section Scan
variable (hall : ∀ e, d.sees e → d.writes e)
include hall

theorem runPeriodicConsolidationScan {group : List MemoryEntry → List MergePlan}
    (h : ∀ entries, ∀ plan ∈ group entries, d.AllowsMergedRow plan) :
    Keeps d.inv (runPeriodicConsolidationScan w group) := by
  apply (d.mergeDurableEntries false).bind
  intro _ _
  apply d.snapshot.forget.bind
  intro entries _
  exact Keeps.forEach _ (fun plan hplan => (d.persistConsolidatedEntry hall (h _ plan hplan)).swallow)

end Scan

section Supersede
variable (hall : ∀ e, d.sees e → d.writes e)

theorem reopenOld {old : MemoryEntry} (h : d.writes old) : Keeps d.inv (reopenOld w old) := by
  apply (d.setEntry h).bind
  exact fun _ _ => (d.saveRow h).swallow

include hall

/-- The second half of `supersede` keeps what its inner save keeps. -/
theorem writeSuperseding {now : Stamp} {old : MemoryEntry} {a : SaveArgs} (hold : d.writes old)
    (hopened : ∀ e, d.writes e → d.writes (opened now e)) (hp : ∀ key, d.AllowsPrepare key)
    (hb : ∀ p, d.Prepared a p → d.AllowsBuild (preparedArgs (inferredArgs w.toConfig a) p))
    (hm : ∀ entry others plan, w.planMerge entry others = some plan → d.AllowsMergedRow plan) :
    Keeps d.inv (writeSuperseding w now old a) := by
  apply ((d.save hall hp hb hm).rollback (d.reopenOld hold)).bind
  intro r hr
  cases r with
  | dict short => exact (d.reopenOld hold).bind (fun _ _ => Keeps.raise)
  | entry e =>
    dsimp only
    split
    · exact (d.reopenOld hold).bind (fun _ _ => Keeps.raise)
    · have he := hr e rfl
      exact d.finishSupersede he (hopened e he)

omit hall in
theorem closeOld {oldKey : String} {kw : SaveKwargs}
    (h : ∀ e now newKey, d.sees e → e.key = oldKey → d.reads now →
      d.writes e ∧ d.writes (supersededRow now newKey e)) :
    Keeps d.inv (closeOld w oldKey kw) (fun c => d.writes c.old) := by
  apply d.utcNow.bind
  intro now hnow
  apply (d.ensureEntryCached oldKey).bind
  intro r hr
  cases r with
  | none => exact Keeps.raise
  | some old =>
    dsimp only
    split
    · exact Keeps.raise
    · obtain ⟨hsees, hkey⟩ := hr old rfl
      apply d.snapshot.forget.bind
      intro entries _
      obtain ⟨hb, ha⟩ := h old now (supersedingKey oldKey kw entries) hsees hkey hnow
      exact (d.rewriteEntry hb ha).bind (fun _ _ => Keeps.pure hb)

theorem supersede {oldKey newValue : String} {kw : SaveKwargs}
    (hclose : ∀ e now newKey, d.sees e → e.key = oldKey → d.reads now →
      d.writes e ∧ d.writes (supersededRow now newKey e))
    (hopened : ∀ now e, d.writes e → d.writes (opened now e)) (hp : ∀ key, d.AllowsPrepare key)
    (hb : ∀ old newKey p, d.Prepared (supersedeArgs old newKey newValue kw) p → d.AllowsBuild
      (preparedArgs (inferredArgs w.toConfig (supersedeArgs old newKey newValue kw)) p))
    (hm : ∀ entry others plan, w.planMerge entry others = some plan → d.AllowsMergedRow plan) :
    Keeps d.inv (supersede w oldKey newValue kw) := by
  apply (d.closeOld hclose).bind
  intro c hold
  exact d.writeSuperseding hall hold (hopened c.now) hp (hb c.old c.newKey) hm

end Supersede

section Undo
variable (hall : ∀ e, d.sees e → d.writes e)

theorem missingSource (keys : List String) : Keeps d.inv (missingSource w keys) := by
  induction keys with
  | nil => exact Keeps.pure trivial
  | cons key rest ih =>
    apply (d.ensureEntryCached key).forget.bind
    intro r _
    cases r with
    | none => exact Keeps.pure trivial
    | some _ => exact ih

/-- The checked sources come as they are seen, and as they may be reopened. -/
theorem collectSources (consolidatedKey : String) (keys : List String)
    (h : ∀ key updatedAt, d.Allows key (reopenPatch updatedAt).apply) :
    Keeps d.inv (collectSources w consolidatedKey keys)
      (fun r => ∀ pairs, r = .ok pairs → ∀ p ∈ pairs, d.writes p.1 ∧ d.writes p.2) := by
  induction keys with
  | nil =>
    apply Keeps.pure
    intro pairs hpairs p hp
    cases hpairs
    cases hp
  | cons key rest ih =>
    apply (d.getEntry key).bind
    intro r hr
    cases r with
    | none => exact Keeps.pure (fun pairs hpairs => nomatch hpairs)
    | some e =>
      dsimp only
      split
      · exact Keeps.pure (fun pairs hpairs => nomatch hpairs)
      · obtain ⟨hsees, hkey⟩ := hr e rfl
        apply d.utcNow.bind
        intro now hnow
        apply ih.bind
        intro r hrest
        cases r with
        | error why => exact Keeps.pure (fun pairs hpairs => nomatch hpairs)
        | ok pairs =>
          apply Keeps.pure
          intro pairs' hpairs p hp
          cases hpairs
          rcases List.mem_cons.1 hp with rfl | hp
          · exact h key (some now) e now hsees hkey hnow
          · exact hrest pairs rfl p hp

include hall

theorem undoConsolidationMerge (consolidatedKey : String)
    (h : ∀ key updatedAt, d.Allows key (reopenPatch updatedAt).apply)
    (hfree : ∀ key, d.frees key) : Keeps d.inv (undoConsolidationMerge w consolidatedKey) := by
  have hassign : ∀ entries : List MemoryEntry, (∀ e ∈ entries, d.writes e) →
      Keeps d.inv (Prog.forEach TappsBrain.setEntry entries) :=
    fun entries he => Keeps.forEach entries (fun e hmem => d.setEntry (he e hmem))
  have hstore : ∀ entries : List MemoryEntry, (∀ e ∈ entries, d.writes e) →
      Keeps d.inv (Prog.forEach (TappsBrain.saveRow w) entries) :=
    fun entries he => Keeps.forEach entries (fun e hmem => d.saveRow (he e hmem))
  have hpersist : ∀ restored : List MemoryEntry, (∀ e ∈ restored, d.writes e) →
      Keeps d.inv (persistUndo w consolidatedKey restored) := by
    intro restored he
    apply (hstore restored he).bind
    intro _ _
    apply Keeps.bind Keeps.ask
    intro present _
    apply (d.deleteRow (hfree consolidatedKey)).bind
    intro _ _
    split
    · exact (d.stripKeyFromRelations consolidatedKey).swallow
    · exact Keeps.raise
  have hback : ∀ (consolidated : MemoryEntry) (sources : List MemoryEntry), d.writes consolidated →
      (∀ e ∈ sources, d.writes e) → Keeps d.inv (rollbackUndo w consolidated sources) := by
    intro consolidated sources hc hs
    apply (d.setEntry hc).bind
    intro _ _
    apply (hassign sources hs).bind
    exact fun _ _ => (hstore sources hs).swallow
  apply Keeps.bind Keeps.ask
  intro found _
  cases found with
  | none => exact Keeps.pure trivial
  | some found =>
    obtain ⟨sourceKeys, trigger, threshold⟩ := found
    dsimp only
    split
    · exact Keeps.pure trivial
    · apply (d.ensureEntryCached consolidatedKey).bind
      intro r hr
      cases r with
      | none => exact Keeps.pure trivial
      | some consolidated =>
        have hc := hall consolidated (hr consolidated rfl).1
        apply (d.missingSource sourceKeys).bind
        intro missing _
        cases missing with
        | some key => exact Keeps.pure trivial
        | none =>
          apply (d.collectSources consolidatedKey sourceKeys h).bind
          intro r hr
          cases r with
          | error why => exact Keeps.pure trivial
          | ok pairs =>
            have hpairs := hr pairs rfl
            have hbefore : ∀ e ∈ pairs.map (·.1), d.writes e := by
              intro e he
              obtain ⟨p, hp, rfl⟩ := List.mem_map.1 he
              exact (hpairs p hp).1
            have hafter : ∀ e ∈ pairs.map (·.2), d.writes e := by
              intro e he
              obtain ⟨p, hp, rfl⟩ := List.mem_map.1 he
              exact (hpairs p hp).2
            apply (d.popEntry (hfree consolidatedKey)).bind
            intro _ _
            apply (hassign _ hafter).bind
            intro _ _
            apply ((hpersist _ hafter).rollback (hback consolidated _ hc hbefore)).bind
            intro _ _
            apply (d.popBucket consolidatedKey).bind
            intro _ _
            have hreload : Keeps d.inv (Prog.forEach (fun key => do
                let loaded ← TappsBrain.loadRelationRows w key
                TappsBrain.setBucket key loaded) sourceKeys) :=
              Keeps.forEach _ (fun key _ =>
                (d.loadRelationRows key).bind (fun loaded _ => d.setBucket key loaded))
            apply hreload.bind
            intro _ _
            exact (d.appendAudit consolidatedKey _).bind (fun _ _ => Keeps.pure trivial)

end Undo
end Discipline
end TappsBrain
