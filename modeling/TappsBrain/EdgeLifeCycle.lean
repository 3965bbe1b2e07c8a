import TappsBrain.EdgeConfidence

namespace TappsBrain
open Lib
set_option autoImplicit true
set_option relaxedAutoImplicit false

/-- The triple of an edge in its brain. -/
def EdgeRow.triple (e : EdgeRow) : String × Nat × String × Nat :=
  (e.brainId, e.subject, e.predicate, e.object)

/-- What the life-cycle columns of a graph say in every state. -/
structure InOrder (g : Graph) : Prop where
  pointer : ∀ e ∈ g.edges.values, e.supersededBy.isSome = true ↔ e.status = .superseded
  another : ∀ e ∈ g.edges.values, ∀ i, e.supersededBy = some i →
    i ≠ e.id ∧ g.edges.contains i = true
  contradicted : ∀ e ∈ g.edges.values, e.contradicted = true → e.status ≠ .active
  single : ∀ e ∈ g.edges.values, ∀ f ∈ g.edges.values, e.status = .active → f.status = .active →
    e.triple = f.triple → e = f

/-- No edge of `g` is active again in `h`, and its supersession stands. -/
def Onward (g h : Graph) : Prop :=
  ∀ e ∈ g.edges.values, ∃ f, h.edges.get? e.id = some f ∧
    (e.status ≠ .active → f.status ≠ .active) ∧
    (e.status = .superseded → f.status = .superseded ∧ f.supersededBy = e.supersededBy)

theorem Onward.refl (g : Graph) : Onward g g := by
  intro e he
  exact ⟨e, Table.get?_of_mem he, id, fun hs => ⟨hs, rfl⟩⟩

/-- `InOrder` with what keeps it: ids are drawn once and no edge is invalidated. -/
structure Living (g₀ g : Graph) : Prop extends InOrder g where
  onward : Onward g₀ g
  valid : ∀ e ∈ g.edges.values, e.invalidAt = none
  fresh : ∀ e ∈ g.edges.values, e.id < g.nextId

section Living
variable {g₀ g h : Graph}

theorem Living.of_rows (hl : Living g₀ g) (he : h.edges = g.edges) (hn : g.nextId ≤ h.nextId) :
    Living g₀ h where
  pointer := by
    rw [he]
    exact hl.pointer
  another := by
    rw [he]
    exact hl.another
  contradicted := by
    rw [he]
    exact hl.contradicted
  single := by
    rw [he]
    exact hl.single
  onward := by
    intro e hm
    rw [he]
    exact hl.onward e hm
  valid := by
    rw [he]
    exact hl.valid
  fresh := by
    rw [he]
    intro e hm
    exact (hl.fresh e hm).trans_le hn

theorem Living.opened (hl : Living g₀ g) : Living g₀ g.opened := hl.of_rows rfl (Nat.le_refl _)

theorem Living.drawn (hl : Living g₀ g) : Living g₀ g.drawn := hl.of_rows rfl (Nat.le_succ _)

/-- What a new version of an edge may change of its life cycle. -/
structure Advances (e f : EdgeRow) : Prop where
  id : f.id = e.id
  triple : f.triple = e.triple
  valid : f.invalidAt = e.invalidAt
  active : f.status = .active → e.status = .active
  superseded : e.status = .superseded → f.status = .superseded ∧ f.supersededBy = e.supersededBy
  contradicted : f.contradicted = true → f.status = .active → e.contradicted = true

/-- One edge is rewritten, and its pointer is in order. -/
theorem Living.setEdge {e f : EdgeRow} (hl : Living g₀ g) (he : e ∈ g.edges.values)
    (ha : Advances e f) (hp : f.supersededBy.isSome = true ↔ f.status = .superseded)
    (hother : ∀ i, f.supersededBy = some i → i ≠ f.id ∧ g.edges.contains i = true) :
    Living g₀ { g with edges := g.edges.set f } where
  pointer := by
    intro x hx
    rcases Table.mem_set hx with rfl | hx
    · exact hp
    · exact hl.pointer x hx
  another := by
    intro x hx i hi
    rcases Table.mem_set hx with rfl | hx
    · exact (hother i hi).imp_right Table.contains_set
    · exact (hl.another x hx i hi).imp_right Table.contains_set
  contradicted := by
    intro x hx hc
    rcases Table.mem_set hx with rfl | hx
    · intro hact
      exact hl.contradicted e he (ha.contradicted hc hact) (ha.active hact)
    · exact hl.contradicted x hx hc
  single := by
    have hsame : ∀ y ∈ g.edges.values, y.status = .active → f.status = .active →
        y.triple = f.triple → y = e := by
      intro y hy hact hf ht
      exact hl.single y hy e he hact (ha.active hf) (ht.trans ha.triple)
    intro x hx y hy hxa hya ht
    have hxv := Table.get?_of_mem hx
    have hyv := Table.get?_of_mem hy
    rcases Table.mem_set hx with rfl | hxo <;> rcases Table.mem_set hy with rfl | hyo
    · rfl
    · rw [hsame y hyo hya hxa ht.symm, ← ha.id, Table.get?_set_self] at hyv
      rw [hsame y hyo hya hxa ht.symm]
      exact Option.some.inj hyv
    · rw [hsame x hxo hxa hya ht, ← ha.id, Table.get?_set_self] at hxv
      rw [hsame x hxo hxa hya ht]
      exact (Option.some.inj hxv).symm
    · exact hl.single x hxo y hyo hxa hya ht
  onward := by
    intro x hx
    obtain ⟨y, hy, hact, hsup⟩ := hl.onward x hx
    by_cases hid : f.id = x.id
    · have hye : y = e := by
        rw [← hid, ha.id, Table.get?_of_mem he] at hy
        exact (Option.some.inj hy).symm
      subst hye
      refine ⟨f, ?_, ?_, ?_⟩
      · rw [← hid]
        exact Table.get?_set_self _ _
      · intro hx hf
        exact hact hx (ha.active hf)
      · intro hx
        obtain ⟨hs, hb⟩ := hsup hx
        exact ⟨(ha.superseded hs).1, (ha.superseded hs).2.trans hb⟩
    · exact ⟨y, (Table.get?_set_ne _ hid).trans hy, hact, hsup⟩
  valid := by
    intro x hx
    rcases Table.mem_set hx with rfl | hx
    · exact ha.valid.trans (hl.valid e he)
    · exact hl.valid x hx
  fresh := by
    intro x hx
    rcases Table.mem_set hx with rfl | hx
    · rw [ha.id]
      exact hl.fresh e he
    · exact hl.fresh x hx

/-- A new version of an edge under the same status and pointer. -/
structure Touches (e f : EdgeRow) : Prop where
  id : f.id = e.id
  triple : f.triple = e.triple
  valid : f.invalidAt = e.invalidAt
  status : f.status = e.status
  pointer : f.supersededBy = e.supersededBy
  contradicted : f.contradicted = e.contradicted

theorem Touches.advances {e f : EdgeRow} (h : Touches e f) : Advances e f where
  id := h.id
  triple := h.triple
  valid := h.valid
  active := fun ha => h.status.symm.trans ha
  superseded := fun hs => ⟨h.status.trans hs, h.pointer⟩
  contradicted := fun hc _ => h.contradicted.symm.trans hc

theorem Living.touch {e f : EdgeRow} (hl : Living g₀ g) (he : e ∈ g.edges.values)
    (ht : Touches e f) : Living g₀ { g with edges := g.edges.set f } := by
  apply hl.setEdge he ht.advances
  · rw [ht.pointer, ht.status]
    exact hl.pointer e he
  · intro i hi
    rw [ht.pointer] at hi
    rw [ht.id]
    exact hl.another e he i hi

theorem EdgeRow.isTriple_iff {e : EdgeRow} {brain : String} {s o : Nat} {predicate : String} :
    e.isTriple brain s predicate o = true ↔ e.triple = (brain, s, predicate, o) ∧ e.live = true := by
  simp only [EdgeRow.isTriple, EdgeRow.triple, Bool.and_eq_true, decide_eq_true_eq, Prod.mk.injEq,
    and_assoc]

/-- An active edge that nobody has asserted before. -/
theorem Living.insert {row : EdgeRow} (hl : Living g₀ g) (hid : row.id = g.nextId)
    (hact : row.status = .active) (hv : row.invalidAt = none) (hp : row.supersededBy = none)
    (hc : row.contradicted = false)
    (hnone : ∀ e ∈ g.edges.values, e.status = .active → e.triple ≠ row.triple) :
    Living g₀ { g.drawn with edges := g.edges.set row } where
  pointer := by
    intro x hx
    rcases Table.mem_set hx with rfl | hx
    · simp only [hp, hact, Option.isSome_none, Bool.false_eq_true, reduceCtorEq]
    · exact hl.pointer x hx
  another := by
    intro x hx i hi
    rcases Table.mem_set hx with rfl | hx
    · rw [hp] at hi
      cases hi
    · exact (hl.another x hx i hi).imp_right Table.contains_set
  contradicted := by
    intro x hx hcon
    rcases Table.mem_set hx with rfl | hx
    · rw [hc] at hcon
      cases hcon
    · exact hl.contradicted x hx hcon
  single := by
    intro x hx y hy hxa hya ht
    rcases Table.mem_set hx with rfl | hxo <;> rcases Table.mem_set hy with rfl | hyo
    · rfl
    · exact absurd ht.symm (hnone y hyo hya)
    · exact absurd ht (hnone x hxo hxa)
    · exact hl.single x hxo y hyo hxa hya ht
  onward := by
    intro x hx
    obtain ⟨y, hy, hact, hsup⟩ := hl.onward x hx
    have hlt := hl.fresh y (Table.mem_of_get? hy)
    have hne : row.id ≠ x.id := by
      have hid' := Table.key_of_get? hy
      omega
    exact ⟨y, (Table.get?_set_ne _ hne).trans hy, hact, hsup⟩
  valid := by
    intro x hx
    rcases Table.mem_set hx with rfl | hx
    · exact hv
    · exact hl.valid x hx
  fresh := by
    intro x hx
    rcases Table.mem_set hx with rfl | hx
    · rw [hid]
      exact Nat.lt_succ_self _
    · exact Nat.lt_succ_of_lt (hl.fresh x hx)

theorem Living.no_active_triple (hl : Living g₀ g) {brain : String} {s o : Nat} {predicate : String}
    (hn : activeEdge g brain s predicate o = none) :
    ∀ e ∈ g.edges.values, e.status = .active → e.triple ≠ (brain, s, predicate, o) := by
  intro e he hact ht
  have hno := List.find?_eq_none.1 hn e he
  apply hno
  rw [EdgeRow.isTriple_iff, EdgeRow.live, hact, hl.valid e he]
  exact ⟨ht, rfl⟩

theorem Living.edgeWritten {w : GraphWorld} {brain : String} {now : Stamp} {a : EdgeArgs} {c : ℚ}
    {id : Nat} (hl : Living g₀ g) (hw : EdgeWritten w brain now a c g id h) :
    Living g₀ h ∧ h.edges.contains id = true := by
  cases hw with
  | debounced _ _ he => exact ⟨hl, Table.contains_of_mem (activeEdge_triple he).1⟩
  | reinforced _ _ he =>
    have hm := (activeEdge_triple he).1
    constructor
    · exact hl.touch hm ⟨rfl, rfl, rfl, rfl, rfl, rfl⟩
    · exact Table.contains_set (Table.contains_of_mem hm)
  | inserted _ _ hn =>
    constructor
    · exact hl.insert rfl rfl rfl rfl rfl (hl.no_active_triple hn)
    · exact Table.contains_set_self _ _

/-- An update of one edge that leaves its life cycle alone. -/
theorem Living.update {brain : String} {id : IdText} {due : EdgeRow → Bool} {f : EdgeRow → EdgeRow}
    {r : Option EdgeRow} (hl : Living g₀ g) (hr : updateEdge brain id due f g = (.ok r, h))
    (ht : ∀ e, Touches e (f e)) : Living g₀ h := by
  obtain ⟨-, rfl⟩ | ⟨e, -, he, -, -, -, rfl⟩ := updateEdge_ok hr
  · exact hl
  · exact hl.touch (Table.mem_of_get? he) (ht e)

/-- A connection block whose statements keep the life cycle when they return. -/
theorem keeps_block {w : GraphWorld} {body : Stamp → Tx α}
    (hb : ∀ now, Returns (Living g₀) (body now) (fun _ => Living g₀)) :
    Keeps (Living g₀) (transaction w body) := by
  intro g hl
  obtain ⟨e, he⟩ | ⟨a, h, -, hr, ht⟩ := transaction_cases w body g
  · rw [he]
    exact hl.opened
  · rw [ht]
    exact ⟨(hb _).ok hl.opened hr, trivial⟩

theorem returns_update {brain : String} {id : IdText} {due : EdgeRow → Bool} {f : EdgeRow → EdgeRow}
    (ht : ∀ e, Touches e (f e)) :
    Returns (Living g₀) (updateEdge brain id due f) (fun _ => Living g₀) := by
  intro g hl
  rcases hr : updateEdge brain id due f g with ⟨e | r, h⟩
  · trivial
  · exact hl.update hr ht

theorem touches_reinforced (now : Stamp) (newS newD : ℚ) (e : EdgeRow) :
    Touches e (e.reinforced now newS newD) :=
  ⟨rfl, rfl, rfl, rfl, rfl, rfl⟩

/-- The pointer of an edge that is not superseded is empty. -/
theorem Living.no_pointer {e : EdgeRow} (hl : Living g₀ g) (he : e ∈ g.edges.values)
    (hs : e.status ≠ .superseded) : e.supersededBy = none := by
  cases hp : e.supersededBy with
  | none => rfl
  | some i =>
    apply absurd _ hs
    rw [← hl.pointer e he, hp]
    rfl

/-- An edge that is not superseded leaves recall. -/
theorem Living.retire {e f : EdgeRow} (hl : Living g₀ g) (he : e ∈ g.edges.values)
    (hs : e.status ≠ .superseded) (hid : f.id = e.id) (ht : f.triple = e.triple)
    (hv : f.invalidAt = e.invalidAt) (hf : f.status = .stale)
    (hp : f.supersededBy = e.supersededBy) : Living g₀ { g with edges := g.edges.set f } := by
  have hnone : f.supersededBy = none := hp.trans (hl.no_pointer he hs)
  apply hl.setEdge he
  · constructor
    · exact hid
    · exact ht
    · exact hv
    · intro ha
      rw [hf] at ha
      cases ha
    · intro he
      exact absurd he hs
    · intro _ ha
      rw [hf] at ha
      cases ha
  · rw [hnone, hf]
    simp only [Option.isSome_none, Bool.false_eq_true, reduceCtorEq]
  · intro i hi
    rw [hnone] at hi
    cases hi

theorem returns_markEdgeStaleRow {brain : String} {now : Stamp} {id : IdText}
    {reason : Option String} :
    Returns (Living g₀) (markEdgeStaleRow brain now id reason) (fun _ => Living g₀) := by
  intro g hl
  rcases hr : markEdgeStaleRow brain now id reason g with ⟨e | r, h⟩
  · trivial
  · obtain ⟨-, rfl⟩ | ⟨e, -, he, -, hd, -, rfl⟩ := updateEdge_ok hr
    · exact hl
    · have hs : e.status ≠ .superseded := by
        rw [of_decide_eq_true hd]
        exact EdgeStatus.noConfusion
      exact hl.retire (Table.mem_of_get? he) hs rfl rfl rfl rfl rfl

theorem returns_readEdge {id : IdText} :
    Returns (Living g₀) (GraphStore.getEdgeForReinforce id) (fun _ => Living g₀) := by
  cases id with
  | malformed text => exact Returns.raise
  | uuid i => exact Triple.read (fun _ hl => hl)

theorem returns_computeFsrs {w : GraphWorld} {s d : ℚ} {layer : Option String} {t : Option Stamp}
    {u : Stamp} {useful : Bool} :
    Returns (Living g₀) (computeFsrs w s d layer t u useful) (fun _ => Living g₀) := by
  intro g hl
  rcases hr : computeFsrs w s d layer t u useful g with ⟨e | r, h⟩
  · trivial
  · rw [computeFsrs_state hr]
    exact hl

theorem keeps_reinforceEdge {w : GraphWorld} {k : GraphConfig} {id : IdText} (useful : Bool) :
    Keeps (Living g₀) (GraphStore.reinforceEdge w k id useful) := by
  apply keeps_block
  intro now
  apply returns_readEdge.bind
  intro found
  cases found with
  | none => exact Triple.pure (fun _ hl => hl)
  | some row =>
    apply returns_computeFsrs.bind
    intro fsrs
    apply (returns_update (touches_reinforced now fsrs.1 fsrs.2)).bind
    intro r
    exact Triple.pure (fun _ hl => hl)

theorem keeps_applyEdgeFeedback {w : GraphWorld} {k : GraphConfig} {id : IdText}
    {feedbackType : String} {delta : ℚ} :
    Keeps (Living g₀) (GraphStore.applyEdgeFeedback w k id feedbackType delta) := by
  unfold GraphStore.applyEdgeFeedback
  split
  · have hvote : Keeps (Living g₀) (transaction w (fun now => applyEdgeHelpfulRow k.brainId now id)) :=
      keeps_block (fun now => returns_update (fun e => ⟨rfl, rfl, rfl, rfl, rfl, rfl⟩))
    apply hvote.bind
    intro r _
    cases r with
    | none => exact Keeps.pure trivial
    | some row => exact (keeps_reinforceEdge true).bind (fun _ _ => Keeps.pure trivial)
  · split
    · have hvote : Keeps (Living g₀)
          (transaction w (fun now => applyEdgeMisleadingRow k.brainId now delta id)) :=
        keeps_block (fun now => returns_update (fun e => ⟨rfl, rfl, rfl, rfl, rfl, rfl⟩))
      apply hvote.bind
      intro r _
      cases r with
      | none => exact Keeps.pure trivial
      | some row => exact Keeps.pure trivial
    · exact Keeps.pure trivial

theorem Living.enterEntity (hl : Living g₀ g) (w : GraphWorld) (brain : String) (now : Stamp)
    (a : EntityArgs) : Living g₀ (upsertEntityRow w brain now a g).2 := by
  by_cases hno : (w.unstorable a.entityType || w.unstorable a.canonicalName) = true
  · rw [upsertEntityRow, if_pos hno]
    exact hl
  · rw [upsertEntityRow_run hno]
    cases g.entities.values.find? (sameEntity w brain a) with
    | some old => exact hl.drawn.of_rows rfl (Nat.le_refl _)
    | none => exact hl.drawn.of_rows rfl (Nat.le_refl _)

theorem returns_upsertEntityRow {w : GraphWorld} {brain : String} {now : Stamp} {a : EntityArgs} :
    Returns (Living g₀) (upsertEntityRow w brain now a) (fun _ => Living g₀) := by
  intro g hl
  have hend := hl.enterEntity w brain now a
  rcases hr : upsertEntityRow w brain now a g with ⟨e | id, h⟩
  · trivial
  · rw [hr] at hend
    exact hend

theorem returns_attachEvidenceRow {w : GraphWorld} {brain : String} {a : EvidenceArgs} :
    Returns (Living g₀) (attachEvidenceRow w brain a) (fun _ => Living g₀) := by
  intro g hl
  rcases hr : attachEvidenceRow w brain a g with ⟨e | id, h⟩
  · trivial
  · obtain ⟨ev, -, rfl, -⟩ := attachEvidenceRow_ok hr
    exact hl.of_rows rfl (Nat.le_succ _)

theorem returns_savepoint {p : Tx α} (hp : Returns (Living g₀) p (fun _ => Living g₀)) :
    Returns (Living g₀) (savepoint p) (fun _ => Living g₀) := by
  intro g hl
  have hend := hp g hl
  unfold savepoint
  rcases hr : p g with ⟨e | a, h⟩
  · exact hl
  · rw [hr] at hend
    exact hend

theorem returns_writeEdge {w : GraphWorld} {k : RecorderConfig} {now : Stamp} {a : EdgeArgs} :
    Returns (Living g₀) (Recorder.writeEdge w k now a) (fun _ => Living g₀) := by
  intro g hl
  rcases hr : Recorder.writeEdge w k now a g with ⟨e | id, h⟩
  · trivial
  · exact (hl.edgeWritten (Recorder.writeEdge_writes hr)).1

theorem returns_writeEvent {w : GraphWorld} {k : RecorderConfig} {now : Stamp}
    {event : ExperienceEvent} :
    Returns (Living g₀) (Recorder.writeEvent w k now event) (fun _ => Living g₀) := by
  have hentities : Returns (Living g₀) (Recorder.upsertEntities w k now event.entities)
      (fun _ => Living g₀) :=
    Returns.mapEach event.entities (fun _ _ => returns_savepoint returns_upsertEntityRow)
  apply hentities.bind
  intro ids
  have hedges : Returns (Living g₀)
      (Recorder.upsertEdges w k now (buildEntityLookup event.entities ids) event.edges)
      (fun _ => Living g₀) := by
    apply Returns.mapEach
    intro spec _
    unfold Recorder.upsertEdge
    split
    · exact returns_writeEdge.bind (fun _ => Triple.pure (fun _ hl => hl))
    · exact Triple.pure (fun _ hl => hl)
  apply hedges.bind
  intro edgeIds
  have hevidence : Returns (Living g₀) (Prog.mapEach (Recorder.attachEvidence w k) event.evidence)
      (fun _ => Living g₀) :=
    Returns.mapEach event.evidence (fun _ _ => returns_attachEvidenceRow)
  apply hevidence.bind
  intro evidenceIds
  exact Triple.pure (fun _ hl => hl)

theorem EdgeWritten.ticks {w : GraphWorld} {brain : String} {now : Stamp} {a : EdgeArgs} {c : ℚ}
    {id : Nat} (hw : EdgeWritten w brain now a c g id h) : h.ticks = g.ticks := by
  cases hw <;> rfl

/-- What `upsert_edge` leaves: nothing but another tick, or one edge written. -/
theorem upsertEdge_cases (w : GraphWorld) (k : GraphConfig) (a : EdgeArgs) (g : Graph) :
    (∃ e, GraphStore.upsertEdge w k a g = (.error e, g) ∨
      GraphStore.upsertEdge w k a g = (.error e, g.opened)) ∨
    ∃ id h, (k.evidenceRequired && a.evidenceId.isNone) = false ∧ w.refuses g.ticks = false ∧
      GraphStore.upsertEdge w k a g = (.ok id, h) ∧
      EdgeWritten w k.brainId (w.clock g.ticks) a (edgeConfidence a) g.opened id h := by
  unfold GraphStore.upsertEdge
  cases hv : (k.evidenceRequired && a.evidenceId.isNone) with
  | true => exact .inl ⟨_, .inl rfl⟩
  | false =>
    rw [if_neg Bool.false_ne_true]
    obtain ⟨e, he⟩ | ⟨id, h, hw, hr, ht⟩ :=
      transaction_cases w (GraphStore.upsertEdgeBlock w k a) g
    · exact .inl ⟨e, .inr he⟩
    · exact .inr ⟨id, h, rfl, hw, ht, GraphStore.upsertEdgeBlock_writes hr⟩

/-- The id names an edge of the brain that is superseded. -/
def namesSuperseded (g : Graph) (brain : String) : IdText → Bool
  | .malformed _ => false
  | .uuid i => (g.edges.get? i).any (fun e => e.brainId = brain && e.status = .superseded)

/-- The replacement that `upsert_edge` answers is the old edge: it says the triple already, or the
caller has guessed the id that is drawn next. -/
def replacesItself (g : Graph) (brain : String) (old : IdText) (a : EdgeArgs) : Bool :=
  match old, a.subject, a.object with
  | .uuid i, .uuid s, .uuid o =>
    match activeEdge g brain s a.predicate o with
    | some e => e.id = i
    | none => g.nextId = i
  | _, _, _ => false

theorem Living.contradictEdge {w : GraphWorld} {k : GraphConfig} {id : IdText} {reason : String}
    (hl : Living g₀ g) (hn : (w.refuses g.ticks || !namesSuperseded g k.brainId id) = true) :
    Living g₀ (GraphStore.contradictEdge w k id reason g).2 := by
  unfold GraphStore.contradictEdge
  obtain ⟨e, he⟩ | ⟨b, h, hw, hr, ht⟩ := transaction_cases w (fun now => do
      let updated ← contradictEdgeRow k.brainId now id reason
      pure updated.isSome) g
  · rw [he]
    exact hl.opened
  · rw [ht]
    obtain ⟨r, g₁, hu, hr⟩ := Prog.bind_ok hr
    cases hr
    obtain ⟨-, rfl⟩ | ⟨e, rfl, he, hb, -, -, rfl⟩ := updateEdge_ok hu
    · exact hl.opened
    · have hs : e.status ≠ .superseded := by
        intro hs
        rw [hw, Bool.false_or, namesSuperseded, show g.edges.get? e.id = some e from he] at hn
        simp only [Option.any_some, hb, hs, decide_true, Bool.and_self, Bool.not_true,
          Bool.false_eq_true] at hn
      exact hl.opened.retire (Table.mem_of_get? he) hs rfl rfl rfl rfl rfl

/-- The pointer of a retired edge names its replacement. -/
theorem Living.supersede {brain : String} {now : Stamp} {old : IdText} {new : Nat}
    {r : Option EdgeRow} (hl : Living g₀ g) (hnew : g.edges.contains new = true)
    (hne : old ≠ .uuid new) (hr : supersedeEdgeRow brain now new old g = (.ok r, h)) :
    Living g₀ h := by
  obtain ⟨-, rfl⟩ | ⟨e, rfl, he, -, hd, -, rfl⟩ := updateEdge_ok hr
  · exact hl
  · have hact : e.status = .active := of_decide_eq_true hd
    apply hl.setEdge (Table.mem_of_get? he)
    · constructor
      · rfl
      · rfl
      · rfl
      · exact fun hs => nomatch hs
      · intro hs
        rw [hact] at hs
        cases hs
      · exact fun _ hs => nomatch hs
    · exact ⟨fun _ => rfl, fun _ => rfl⟩
    · intro i hi
      cases hi
      refine ⟨?_, hnew⟩
      intro hid
      exact hne (congrArg IdText.uuid hid.symm)

theorem EdgeWritten.ne_old {w : GraphWorld} {brain : String} {now : Stamp} {a : EdgeArgs} {c : ℚ}
    {id : Nat} {old : IdText} (hw : EdgeWritten w brain now a c g id h)
    (hn : replacesItself g brain old a = false) : old ≠ .uuid id := by
  rintro rfl
  cases hw with
  | debounced hs ho he => simp only [replacesItself, hs, ho, he, decide_true, Bool.true_eq_false] at hn
  | reinforced hs ho he => simp only [replacesItself, hs, ho, he, decide_true, Bool.true_eq_false] at hn
  | inserted hs ho he => simp only [replacesItself, hs, ho, he, decide_true, Bool.true_eq_false] at hn

theorem Living.upsertEdge {w : GraphWorld} {k : GraphConfig} {a : EdgeArgs} (hl : Living g₀ g) :
    Living g₀ (GraphStore.upsertEdge w k a g).2 := by
  obtain ⟨e, he | he⟩ | ⟨id, h, -, -, hr, hw⟩ := upsertEdge_cases w k a g
  · rw [he]
    exact hl
  · rw [he]
    exact hl.opened
  · rw [hr]
    exact (hl.opened.edgeWritten hw).1

/-- The second transaction of `supersede_edge` is not reached, or its pointer names another edge. -/
def supersedesAnother (w : GraphWorld) (k : GraphConfig) (old : IdText) (a : EdgeArgs) (g : Graph) :
    Bool :=
  k.evidenceRequired && a.evidenceId.isNone || w.refuses g.ticks || w.refuses (g.ticks + 1) ||
    !replacesItself g k.brainId old a

theorem Living.supersedeEdge {w : GraphWorld} {k : GraphConfig} {old : IdText} {a : EdgeArgs}
    (hl : Living g₀ g) (hn : supersedesAnother w k old a g = true) :
    Living g₀ (GraphStore.supersedeEdge w k old a g).2 := by
  have hnew := hl.upsertEdge (w := w) (k := k) (a := replacement a)
  rw [GraphStore.supersedeEdge, Prog.bind_run]
  obtain ⟨e, he | he⟩ | ⟨new, h, hv, hopen, hr, hw⟩ := upsertEdge_cases w k (replacement a) g
  · rw [he] at hnew ⊢
    exact hnew
  · rw [he] at hnew ⊢
    exact hnew
  · rw [hr] at hnew ⊢
    have hticks : h.ticks = g.ticks + 1 := hw.ticks
    have hp : Living g₀ (transaction w (fun now => supersedeEdgeRow k.brainId now new old) h).2 := by
      obtain ⟨e, he⟩ | ⟨r, h', hw', hr', ht⟩ :=
        transaction_cases w (fun now => supersedeEdgeRow k.brainId now new old) h
      · rw [he]
        exact hnew.opened
      · rw [ht]
        have hself : replacesItself g k.brainId old a = false := by
          rw [hticks] at hw'
          have hv : (k.evidenceRequired && a.evidenceId.isNone) = false := hv
          simpa only [supersedesAnother, hv, hopen, hw', Bool.false_or, Bool.not_eq_true'] using hn
        have hother : old ≠ .uuid new := hw.ne_old hself
        exact hnew.opened.supersede (hl.opened.edgeWritten hw).2 hother hr'
    dsimp only
    rw [Prog.bind_run]
    rcases hq : transaction w (fun now => supersedeEdgeRow k.brainId now new old) h with ⟨e | r, h'⟩
    · rw [hq] at hp
      exact hp
    · rw [hq] at hp
      exact hp

end Living

/-- A call on the graph alone. -/
def EdgeCall.onGraph (w : GraphWorld) (c : EdgeCall) (g : Graph) : Graph :=
  (c.step w { graph := g }).graph

/-- The call contradicts no superseded edge and supersedes no edge by itself. -/
def EdgeCall.orderly (w : GraphWorld) : EdgeCall → Graph → Bool
  | .contradictEdge k id _, g => w.refuses g.ticks || !namesSuperseded g k.brainId id
  | .supersedeEdge k old a, g => supersedesAnother w k old a g
  | _, _ => true

theorem EdgeCall.onGraph_living {w : GraphWorld} {g₀ : Graph} (c : EdgeCall) (g : Graph)
    (hl : Living g₀ g) (hal : c.orderly w g = true) : Living g₀ (c.onGraph w g) := by
  cases c with
  | upsertEntity k a =>
    have hkeeps : Keeps (Living g₀) (GraphStore.upsertEntity w k a) :=
      keeps_block (fun _ => returns_upsertEntityRow)
    exact hkeeps.final hl
  | upsertEdge k a => exact hl.upsertEdge
  | attachEvidence k a =>
    have hkeeps : Keeps (Living g₀) (GraphStore.attachEvidence w k a) := by
      unfold GraphStore.attachEvidence
      split
      · exact Keeps.raise
      · exact keeps_block (fun _ => returns_attachEvidenceRow)
    exact hkeeps.final hl
  | reinforceEdge k id useful => exact (keeps_reinforceEdge useful).final hl
  | applyEdgeFeedback k id type delta => exact keeps_applyEdgeFeedback.final hl
  | supersedeEdge k old a => exact hl.supersedeEdge hal
  | contradictEdge k id reason => exact hl.contradictEdge hal
  | markEdgeStale k id reason =>
    have hkeeps : Keeps (Living g₀) (GraphStore.markEdgeStale w k id reason) := by
      apply keeps_block
      intro now
      exact returns_markEdgeStaleRow.bind (fun _ => Triple.pure (fun _ hl => hl))
    exact hkeeps.final hl
  | record k event =>
    have hkeeps : Keeps (Living g₀) (Recorder.record w k event) :=
      keeps_block (fun _ => returns_writeEvent)
    exact hkeeps.final hl
  | recordMany k events =>
    have hkeeps : Keeps (Living g₀) (Recorder.recordMany w k events) := by
      unfold Recorder.recordMany
      split
      · exact Keeps.pure trivial
      · exact keeps_block (fun _ => Returns.mapEach events (fun _ _ => returns_writeEvent))
    exact hkeeps.final hl

theorem Living.start {g : Graph} (hedges : g.edges = Table.empty) : Living g g := by
  have hnone : ∀ e ∈ g.edges.values, False := by
    intro e he
    rw [hedges] at he
    cases he
  exact ⟨⟨fun e he => (hnone e he).elim, fun e he => (hnone e he).elim,
    fun e he => (hnone e he).elim, fun e he => (hnone e he).elim⟩, Onward.refl g,
    fun e he => (hnone e he).elim, fun e he => (hnone e he).elim⟩

/-- From a graph without edges, in every run that contradicts no superseded edge and supersedes no
edge by itself, the columns stay in order and no edge comes back between any two of its states. -/
theorem edges_follow_life_cycle {w : GraphWorld} {before after : List EdgeCall} {g : Graph}
    (hedges : g.edges = Table.empty)
    (hal : Allowed (EdgeCall.onGraph w) (EdgeCall.orderly w) (before ++ after) g) :
    InOrder (runSteps (EdgeCall.onGraph w) after (runSteps (EdgeCall.onGraph w) before g)) ∧
      Onward (runSteps (EdgeCall.onGraph w) before g)
        (runSteps (EdgeCall.onGraph w) after (runSteps (EdgeCall.onGraph w) before g)) := by
  have hstart : Living g g := Living.start hedges
  have hmid : Living g (runSteps (EdgeCall.onGraph w) before g) :=
    hal.append_left.keeps EdgeCall.onGraph_living hstart
  have hagain : Living (runSteps (EdgeCall.onGraph w) before g)
      (runSteps (EdgeCall.onGraph w) before g) :=
    ⟨hmid.toInOrder, Onward.refl _, hmid.valid, hmid.fresh⟩
  have hend := hal.append_right.keeps (EdgeCall.onGraph_living (w := w)) hagain
  exact ⟨hend.toInOrder, hend.onward⟩

/-- A store whose callers bring evidence. -/
def citedStore : GraphConfig := { brainId := "brain" }

def usesArgs (object : Nat) : EdgeArgs :=
  { subject := .uuid 0, predicate := "uses", object := .uuid object, evidenceId := some "e" }

/-- A person and two tools, and the edge from the person to the first of them. -/
def firstTool : List EdgeCall :=
  [.upsertEntity citedStore { entityType := "person", canonicalName := "ada" },
    .upsertEntity citedStore { entityType := "tool", canonicalName := "loom" },
    .upsertEntity citedStore { entityType := "tool", canonicalName := "lathe" },
    .upsertEdge citedStore (usesArgs 1)]

def secondTool : List EdgeCall := [.supersedeEdge citedStore (.uuid 3) (usesArgs 2)]

theorem superseded_edge_in_order :
    InOrder (runSteps (EdgeCall.onGraph .calm) (secondTool ++
      [.contradictEdge citedStore (.uuid 4) "sold"])
        (runSteps (EdgeCall.onGraph .calm) firstTool {})) ∧
      Onward (runSteps (EdgeCall.onGraph .calm) firstTool {})
        (runSteps (EdgeCall.onGraph .calm) (secondTool ++
          [.contradictEdge citedStore (.uuid 4) "sold"])
          (runSteps (EdgeCall.onGraph .calm) firstTool {})) :=
  edges_follow_life_cycle rfl (by decide +kernel)

/-- Contradicting a superseded edge, and superseding an edge by its own triple. -/
theorem edges_leave_life_cycle :
    (¬ InOrder (runSteps (EdgeCall.onGraph .calm)
        (firstTool ++ secondTool ++ [.contradictEdge citedStore (.uuid 3) "sold"]) {}) ∧
      ¬ Onward (runSteps (EdgeCall.onGraph .calm) (firstTool ++ secondTool) {})
        (runSteps (EdgeCall.onGraph .calm)
          (firstTool ++ secondTool ++ [.contradictEdge citedStore (.uuid 3) "sold"]) {})) ∧
      ¬ InOrder (runSteps (EdgeCall.onGraph .calm)
        (firstTool ++ [.supersedeEdge citedStore (.uuid 3) (usesArgs 1)]) {}) := by
  refine ⟨⟨?_, ?_⟩, ?_⟩
  · intro h
    have hpointer := h.pointer
    revert hpointer
    decide +kernel
  · intro h
    have hstays : ∃ e ∈ (runSteps (EdgeCall.onGraph .calm) (firstTool ++ secondTool) {}).edges.values,
        e.id = 3 ∧ e.status = .superseded := by
      decide +kernel
    obtain ⟨e, he, hid, hs⟩ := hstays
    obtain ⟨f, hf, -, hsup⟩ := h e he
    have hstale : (runSteps (EdgeCall.onGraph .calm) (firstTool ++ secondTool ++
        [.contradictEdge citedStore (.uuid 3) "sold"]) {}).edges.values.all
          (fun f => f.id ≠ 3 || f.status = .stale) = true := by
      decide +kernel
    have hfstale := List.all_eq_true.1 hstale f (Table.mem_of_get? hf)
    rw [Table.key_of_get? hf, hid, (hsup hs).1] at hfstale
    revert hfstale
    decide
  · intro h
    have hself : ∃ e ∈ (runSteps (EdgeCall.onGraph .calm)
        (firstTool ++ [.supersedeEdge citedStore (.uuid 3) (usesArgs 1)]) {}).edges.values,
        e.supersededBy = some e.id := by
      decide +kernel
    obtain ⟨e, he, hp⟩ := hself
    exact (h.another e he e.id hp).1 rfl

end TappsBrain
