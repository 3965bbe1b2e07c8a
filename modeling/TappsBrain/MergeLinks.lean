import TappsBrain.Mirror
import TappsBrain.Merging

namespace TappsBrain
open Lib
set_option autoImplicit true
set_option relaxedAutoImplicit false

/-- The backend has refused a call. -/
def Refused (w : World) (s : Store) : Prop := ∃ n < s.calls, w.refuses n = true

theorem Answers.unrefused {w : World} (hw : Answers w) {s : Store} (h : Refused w s) : False := by
  obtain ⟨n, _, hn⟩ := h
  rw [hw n] at hn
  cases hn

/-- `I` survives the program, which raises only where the backend refuses a call. -/
def KeepsOrRefused (w : World) (I : Store → Prop) (p : StoreM α) : Prop :=
  Triple I p (fun _ => I) (fun _ t => I t ∧ Refused w t)

section Calls
variable {w : World} {I : Store → Prop}

theorem KeepsOrRefused.bind {p : StoreM α} {f : α → StoreM β} (hp : KeepsOrRefused w I p)
    (hf : ∀ a, KeepsOrRefused w I (f a)) : KeepsOrRefused w I (p >>= f) :=
  Triple.bind hp hf

theorem KeepsOrRefused.pure {a : α} : KeepsOrRefused w I (Pure.pure a) := Triple.pure (fun _ hs => hs)

theorem backendCall_refused (hI : Bookkeeping I) : KeepsOrRefused w I (backendCall w) := by
  intro s hs
  have hcalled : I s.called := hI.calls s hs
  rw [backendCall_run]
  cases h : w.refuses s.calls with
  | true => exact ⟨hcalled, s.calls, Nat.lt_succ_self _, h⟩
  | false => exact hcalled

theorem appendAudit_keeps (hI : Bookkeeping I) (key : String) (event : AuditEvent) :
    KeepsOrRefused w I (appendAudit w key event) := by
  have hbody : KeepsOrRefused w I (do
      backendCall w
      Prog.modify (fun s : Store => { s with audit := s.audit ++ [⟨key, event⟩] })) :=
    (backendCall_refused hI).bind (fun _ => Triple.modify (fun s hs => hI.audit s _ hs))
  exact Triple.handle hbody (fun _ => Triple.pure (fun _ hs => hs.1))

variable (hI : Bookkeeping I) (hrel : IgnoresRelations I)
include hI

theorem loadRelationRows_refused (key : String) : KeepsOrRefused w I (loadRelationRows w key) :=
  (backendCall_refused hI).bind (fun _ => Triple.read (fun _ hs => hs))

include hrel

theorem saveRelations_refused (key : String) (rels : List RelationEntry) :
    KeepsOrRefused w I (saveRelations w key rels) := by
  have hsave : KeepsOrRefused w I (saveRelationRows w key rels) := by
    rw [saveRelationRows]
    split
    · exact .pure
    · exact (backendCall_refused hI).bind (fun _ => Triple.modify (fun s hs => hrel.durable s _ hs))
  apply hsave.bind
  intro _
  apply (loadRelationRows_refused hI key).bind
  intro loaded
  exact Triple.modify (fun s hs => hrel.cached s _ hs)

theorem getRelations_refused (key : String) : KeepsOrRefused w I (getRelations w key) := by
  have hread : KeepsOrRefused w I
      (Prog.read (fun s : Store => s.relations.get? key) : StoreM (Option Bucket)) :=
    Triple.read (fun _ hs => hs)
  apply hread.bind
  intro bucket
  cases bucket with
  | some b => exact .pure
  | none =>
    apply (loadRelationRows_refused hI key).bind
    intro loaded
    have hset : KeepsOrRefused w I (setBucket key loaded) :=
      Triple.modify (fun s hs => hrel.cached s _ hs)
    exact hset.bind (fun _ => .pure)

end Calls

/-- The row that stands for a merged entry. -/
structure MergedRow (e x : MemoryEntry) : Prop where
  key : x.key = e.key
  value : x.value = e.value
  scope : x.scope = e.scope
  memoryGroup : x.memoryGroup = e.memoryGroup
  columns : columnsAccept x = true

theorem MergedRow.trans {e x y : MemoryEntry} (h : MergedRow e x) (h' : MergedRow x y) :
    MergedRow e y :=
  ⟨h'.key.trans h.key, h'.value.trans h.value, h'.scope.trans h.scope,
    h'.memoryGroup.trans h.memoryGroup, h'.columns⟩

theorem mergedRow_upserted {x : MemoryEntry} (hx : columnsAccept x = true)
    (rows : Table MemoryEntry.key) : MergedRow x (upserted rows x) := by
  rw [upserted]
  split <;> exact ⟨rfl, rfl, rfl, rfl, hx⟩

/-- The merged row is cached and stored, and every other source is cached with the value that was
merged. -/
structure Linking (e : MemoryEntry) (sources : List MemoryEntry) (s : Store) : Prop where
  merged : ∃ x, s.entries.get? e.key = some x ∧ MergedRow e x
  stored : ∃ row, s.rows.get? e.key = some row ∧ MergedRow e row
  sources : ∀ snap ∈ sources, snap.key ≠ e.key →
    ∃ y, s.entries.get? snap.key = some y ∧ y.value = snap.value ∧ columnsAccept y = true

/-- A write that leaves what the merge rests on. -/
structure Mild (patch : FieldPatch) (y : MemoryEntry) : Prop where
  value : ∀ now, (patch.apply now y).value = y.value
  scope : ∀ now, (patch.apply now y).scope = y.scope
  memoryGroup : ∀ now, (patch.apply now y).memoryGroup = y.memoryGroup
  columns : ∀ now, columnsAccept (patch.apply now y) = true

section Linked
variable {w : World} {s : Store} {e : MemoryEntry} {sources : List MemoryEntry}

theorem Linking.bookkeeping : Bookkeeping (Linking e sources) :=
  ⟨fun _ h => ⟨h.1, h.2, h.3⟩, fun _ h => ⟨h.1, h.2, h.3⟩, fun _ h => ⟨h.1, h.2, h.3⟩,
    fun _ _ h => ⟨h.1, h.2, h.3⟩, fun _ _ h => ⟨h.1, h.2, h.3⟩, fun _ _ h => ⟨h.1, h.2, h.3⟩⟩

theorem Linking.ignoresRelations : IgnoresRelations (Linking e sources) :=
  ⟨fun _ _ h => ⟨h.1, h.2, h.3⟩, fun _ _ h => ⟨h.1, h.2, h.3⟩⟩

theorem MergedRow.patched {patch : FieldPatch} {x : MemoryEntry} (h : MergedRow e x)
    (hp : Mild patch x) (now : Stamp) : MergedRow e (patch.apply now x) where
  key := by rw [FieldPatch.apply_key, h.key]
  value := by rw [hp.value, h.value]
  scope := by rw [hp.scope, h.scope]
  memoryGroup := by rw [hp.memoryGroup, h.memoryGroup]
  columns := hp.columns now

/-- A mild write of a cached entry keeps the merge, taken or refused. -/
theorem Linking.updateFields {patch : FieldPatch} {y : MemoryEntry} {key : String} :
    Triple
      (fun s => Linking e sources s ∧ s.entries.get? key = some y ∧ Mild patch y)
      (TappsBrain.updateFields w key patch)
      (fun r t => r.isSome = true ∧ Linking e sources t)
      (fun _ t => Linking e sources t ∧ Refused w t) := by
  rintro s ⟨h, hy, hp⟩
  rw [updateFields_run w patch hy, accepts, hp.columns, Bool.and_true]
  cases hrefused : w.refuses s.ticked.calls with
  | true => exact ⟨⟨h.1, h.2, h.3⟩, s.calls, Nat.lt_succ_self _, hrefused⟩
  | false =>
    rw [Bool.not_false, if_pos rfl]
    have hykey : (patch.apply (w.clock s.ticks) y).key = key := by
      rw [FieldPatch.apply_key, Table.key_of_get? hy]
    refine ⟨rfl, ?_, ?_, ?_⟩
    · obtain ⟨x, hx, hmerged⟩ := h.merged
      by_cases hk : key = e.key
      · have hxy : x = y := Option.some.inj (hx.symm.trans (hk ▸ hy))
        subst hxy
        refine ⟨patch.apply (w.clock s.ticks) x, ?_, hmerged.patched hp _⟩
        rw [← hk, ← hykey]
        exact Table.get?_set_self _ _
      · refine ⟨x, ?_, hmerged⟩
        exact (Table.get?_set_ne _ (hykey ▸ hk)).trans hx
    · by_cases hk : key = e.key
      · obtain ⟨x, hx, hmerged⟩ := h.merged
        have hxy : x = y := Option.some.inj (hx.symm.trans (hk ▸ hy))
        subst hxy
        have hpatched := hmerged.patched hp (w.clock s.ticks)
        refine ⟨upserted s.rows (patch.apply (w.clock s.ticks) x), ?_,
          hpatched.trans (mergedRow_upserted hpatched.columns s.rows)⟩
        rw [← hk, ← hykey]
        exact storeRow_get?_self _ _
      · obtain ⟨row, hrow, hmerged⟩ := h.stored
        refine ⟨row, ?_, hmerged⟩
        exact (storeRow_get?_ne (hykey ▸ hk) _).trans hrow
    · intro snap hsnap hne
      obtain ⟨z, hz, hvalue, hcolumns⟩ := h.sources snap hsnap hne
      by_cases hk : key = snap.key
      · have hzy : z = y := Option.some.inj (hz.symm.trans (hk ▸ hy))
        subst hzy
        refine ⟨patch.apply (w.clock s.ticks) z, ?_, ?_, hp.columns _⟩
        · rw [← hk, ← hykey]
          exact Table.get?_set_self _ _
        · rw [hp.value, hvalue]
      · refine ⟨z, ?_, hvalue, hcolumns⟩
        exact (Table.get?_set_ne _ (hykey ▸ hk)).trans hz

theorem mild_closePatch {y : MemoryEntry} (hy : columnsAccept y = true) (now : Stamp)
    (succ detail : Option String) : Mild (closePatch "consolidation" .contradicted now succ detail) y
    where
  value := fun _ => rfl
  scope := fun _ => rfl
  memoryGroup := fun _ => rfl
  columns := fun later => by
    rw [closePatch_apply]
    exact columnsAccept_closeWith hy _ _ _ _ _

/-- A merged source is closed in favour of the merged row. -/
theorem Linking.closeSource {snap : MemoryEntry} (hsnap : snap ∈ sources) :
    KeepsOrRefused w (Linking e sources) (TappsBrain.closeSource w e.key snap) := by
  intro s h
  by_cases hne : snap.key = e.key
  · rw [TappsBrain.closeSource, if_pos hne]
    exact h
  obtain ⟨y, hy, hvalue, hcolumns⟩ := h.sources snap hsnap hne
  have hclose : Triple (fun t => Linking e sources t ∧ t.entries.get? snap.key = some y)
      (closeValidity w snap.key "consolidation" (some e.key) (some (consolidatedInto e.key)))
      (fun r t => r.isSome = true ∧ Linking e sources t)
      (fun _ t => Linking e sources t ∧ Refused w t) := by
    have hnow : Triple (fun t => Linking e sources t ∧ t.entries.get? snap.key = some y) (utcNow w)
        (fun _ t => Linking e sources t ∧ t.entries.get? snap.key = some y)
        (fun _ t => Linking e sources t ∧ Refused w t) :=
      fun t ht => ⟨Linking.bookkeeping.ticks t ht.1, ht.2⟩
    apply hnow.bind
    intro now
    have hstatus : closeValidityStatus "consolidation" = some .contradicted := rfl
    rw [hstatus]
    dsimp only
    apply Triple.bind (Linking.updateFields.mono
      (fun t ht => ⟨ht.1, ht.2, mild_closePatch hcolumns now _ _⟩) (fun _ _ => id) (fun _ _ => id))
    intro r
    apply Triple.assume
    intro hsome
    obtain ⟨updated, rfl⟩ := Option.isSome_iff_exists.1 hsome
    apply Triple.bind (appendAudit_keeps Linking.bookkeeping _ _)
    intro _
    exact Triple.pure (fun _ ht => ⟨rfl, ht⟩)
  have hread : ensureEntryCached w snap.key s = (.ok (some y), s) := by
    rw [ensureEntryCached_run, hy]
  rw [TappsBrain.closeSource, if_neg hne, Prog.bind_run_ok hread]
  dsimp only
  rw [if_neg (not_not.2 hvalue)]
  apply hclose.bind _ s ⟨h, hy⟩
  intro r
  apply Triple.assume
  intro hsome
  obtain ⟨updated, rfl⟩ := Option.isSome_iff_exists.1 hsome
  exact Triple.pure (fun _ ht => ht)

/-- The promotion columns a merge writes are complete. -/
theorem resolveConsolidatedPromotionState_complete {status : LearningStatus}
    {f : Promotion → Promotion} {lost : Bool}
    (hsources : ∀ e ∈ sources, columnsAccept e = true)
    (h : resolveConsolidatedPromotionState sources = (status, some f, lost)) {x : MemoryEntry}
    (hx : columnsAccept x = true) : columnsAccept { x with promotion := f x.promotion } = true := by
  rw [resolveConsolidatedPromotionState] at h
  dsimp only at h
  split at h
  · next winner hwinner =>
    cases h
    have hmem := List.mem_filter.1 (mem_latestBy hwinner)
    have hcolumns := hsources winner hmem.1
    have happroved : winner.promotion.learningStatus = .approved := of_decide_eq_true hmem.2
    rw [columnsAccept, Bool.and_eq_true] at hx hcolumns ⊢
    refine ⟨hx.1, ?_⟩
    simpa [happroved] using hcolumns.2
  · split at h
    · cases h
      rw [columnsAccept, Bool.and_eq_true] at hx ⊢
      exact ⟨hx.1, rfl⟩
    · cases h

/-- Once the merged row is saved its sources are linked to it, unless the backend refuses a call. -/
theorem linkSources_links {plan : MergePlan} (hplan : plan.consolidated.key = e.key)
    (hsources : ∀ e ∈ plan.sources, columnsAccept e = true) :
    KeepsOrRefused w (Linking e plan.sources) (linkSources w plan) := by
  have hbook : Bookkeeping (Linking e plan.sources) := Linking.bookkeeping
  have hrel : IgnoresRelations (Linking e plan.sources) := Linking.ignoresRelations
  have hclose : KeepsOrRefused w (Linking e plan.sources) (do
      Prog.forEach (TappsBrain.closeSource w plan.consolidated.key) plan.sources
      TappsBrain.appendConsolidationAudit w plan) := by
    rw [hplan]
    apply KeepsOrRefused.bind (Triple.forEach (fun snap hsnap => Linking.closeSource hsnap))
    intro _
    apply (appendAudit_keeps hbook _ _).bind
    intro _
    apply Triple.forEach
    intro sk _
    split
    · exact KeepsOrRefused.pure
    · exact appendAudit_keeps hbook _ _
  have hrelate : KeepsOrRefused w (Linking e plan.sources) (do
      let lists ← Prog.mapEach (TappsBrain.getRelations w) (plan.sources.map (·.key))
      let merged := mergeEntryRelations w.unicode lists plan.consolidated.key
      if merged = [] then pure () else TappsBrain.saveRelations w plan.consolidated.key merged
      Prog.forEach (TappsBrain.closeSource w plan.consolidated.key) plan.sources
      TappsBrain.appendConsolidationAudit w plan) := by
    apply KeepsOrRefused.bind (Triple.mapEach (fun key _ => getRelations_refused hbook hrel key))
    intro lists
    dsimp only
    split
    · exact hclose
    · exact (saveRelations_refused hbook hrel _ _).bind (fun _ => hclose)
  rw [linkSources]
  generalize hstate : resolveConsolidatedPromotionState plan.sources = state
  obtain ⟨resolved, fields, lost⟩ := state
  have hloss : KeepsOrRefused w (Linking e plan.sources) (do
      if lost then
        TappsBrain.appendAudit w plan.consolidated.key
          (.promotionStatePartialLoss (plan.sources.map (·.key)) resolved)
      else pure ()
      let lists ← Prog.mapEach (TappsBrain.getRelations w) (plan.sources.map (·.key))
      let merged := mergeEntryRelations w.unicode lists plan.consolidated.key
      if merged = [] then pure () else TappsBrain.saveRelations w plan.consolidated.key merged
      Prog.forEach (TappsBrain.closeSource w plan.consolidated.key) plan.sources
      TappsBrain.appendConsolidationAudit w plan) := by
    split
    · exact (appendAudit_keeps hbook _ _).bind (fun _ => hrelate)
    · exact hrelate
  cases fields with
  | none => exact hloss
  | some f =>
    intro s h
    obtain ⟨x, hx, hmerged⟩ := h.merged
    have hmild : Mild (promotionPatch f) x := by
      refine ⟨fun _ => rfl, fun _ => rfl, fun _ => rfl, fun now => ?_⟩
      exact resolveConsolidatedPromotionState_complete hsources hstate hmerged.columns
    have hx' : s.entries.get? plan.consolidated.key = some x := by rw [hplan, hx]
    have hpromoted : Triple (fun t => Linking e plan.sources t ∧
        t.entries.get? plan.consolidated.key = some x ∧ Mild (promotionPatch f) x)
        (TappsBrain.updateFields w plan.consolidated.key (promotionPatch f))
        (fun _ => Linking e plan.sources) (fun _ t => Linking e plan.sources t ∧ Refused w t) :=
      Linking.updateFields.mono (fun _ => id) (fun _ _ ht => ht.2) (fun _ _ => id)
    exact (hpromoted.bind (fun _ => hloss)) s ⟨h, hx', hmild⟩

end Linked

end TappsBrain
