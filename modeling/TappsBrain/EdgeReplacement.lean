import TappsBrain.EdgeCardinality
import TappsBrain.EdgeLifeCycle

namespace TappsBrain
open Lib
set_option autoImplicit true
set_option relaxedAutoImplicit false

/-- The same rows, whatever has been drawn or asked meanwhile. -/
structure SameRows (g h : Graph) : Prop where
  entities : h.entities = g.entities
  edges : h.edges = g.edges
  evidence : h.evidence = g.evidence
  predicates : h.predicates = g.predicates

theorem SameRows.refl (g : Graph) : SameRows g g := ⟨rfl, rfl, rfl, rfl⟩

theorem SameRows.opened (g : Graph) : SameRows g g.opened := ⟨rfl, rfl, rfl, rfl⟩

/-- `_compute_fsrs` knows the layer, or does not have to. -/
def fsrsAnswers (u : Unicode) (stability : ℚ) (layer : Option String) : Bool :=
  !(stability = 0 && (MemoryTier.ofText (decayTier u layer)).isNone)

/-- `upsert_edge` gets through its checks. -/
def upsertAnswers (w : GraphWorld) (k : GraphConfig) (a : EdgeArgs) (g : Graph) : Bool :=
  !(k.evidenceRequired && a.evidenceId.isNone) && !w.refuses g.ticks &&
  match a.subject, a.object with
  | .uuid s, .uuid o =>
    match activeEdge g k.brainId s a.predicate o with
    | some x => fsrsAnswers w.unicode x.stability a.layer
    | none =>
      (cardinalityRefusal w.unicode k.strictPredicates g ⟨k.brainId, s, a.predicate⟩).isNone &&
        (hasEntity w g s && hasEntity w g o)
  | _, _ => false

section Answers
variable {w : GraphWorld} {k : GraphConfig} {now : Stamp} {a : EdgeArgs} {g : Graph}

theorem reinforceEdgeRow_answers (brain : String) (now : Stamp) (i : Nat) (newS newD : ℚ)
    (g : Graph) : ∃ r h, reinforceEdgeRow brain now (.uuid i) newS newD g = (.ok r, h) := by
  rw [reinforceEdgeRow, updateEdge_run]
  split
  · exact ⟨_, _, rfl⟩
  · split
    · exact ⟨_, _, rfl⟩
    · exact ⟨_, _, rfl⟩

theorem computeFsrs_run (s d : ℚ) (layer : Option String) (t : Option Stamp) (u : Stamp)
    (useful : Bool) (g : Graph) :
    (∃ r, fsrsAnswers w.unicode s layer = true ∧ computeFsrs w s d layer t u useful g = (.ok r, g)) ∨
      ∃ e, fsrsAnswers w.unicode s layer = false ∧
        computeFsrs w s d layer t u useful g = (.error e, g) := by
  unfold computeFsrs fsrsAnswers
  cases hknown : (s = 0 && (MemoryTier.ofText (decayTier w.unicode layer)).isNone) with
  | true => exact .inr ⟨_, rfl, by rw [if_pos rfl]; rfl⟩
  | false => exact .inl ⟨_, rfl, by rw [if_neg Bool.false_ne_true]; rfl⟩

theorem reinforceExisting_answers (layer : Option String) (x : EdgeRow) (g : Graph) :
    (∃ u h, GraphStore.reinforceExisting w k now layer x g = (.ok u, h)) ↔
      fsrsAnswers w.unicode x.stability layer = true := by
  unfold GraphStore.reinforceExisting
  rw [Prog.bind_run]
  obtain ⟨r, hyes, hr⟩ | ⟨e, hno, hr⟩ := computeFsrs_run x.stability x.difficulty layer
    x.lastReinforced x.updatedAt true g (w := w)
  · rw [hr, hyes]
    obtain ⟨row, h, hrow⟩ := reinforceEdgeRow_answers k.brainId now x.id r.1 r.2 g
    dsimp only
    rw [Prog.bind_run_ok hrow]
    exact ⟨fun _ => rfl, fun _ => ⟨_, _, rfl⟩⟩
  · rw [hr, hno]
    constructor
    · rintro ⟨u, h, hu⟩
      cases hu
    · intro h
      cases h

theorem upsertEdgeBlock_answers (hs : a.subject = .uuid s) (ho : a.object = .uuid o) :
    (∃ id h, GraphStore.upsertEdgeBlock w k a now g = (.ok id, h)) ↔
      (match activeEdge g k.brainId s a.predicate o with
      | some x => fsrsAnswers w.unicode x.stability a.layer
      | none =>
        (cardinalityRefusal w.unicode k.strictPredicates g ⟨k.brainId, s, a.predicate⟩).isNone &&
          (hasEntity w g s && hasEntity w g o)) = true := by
  cases hx : activeEdge g k.brainId s a.predicate o with
  | some x =>
    rw [GraphStore.upsertEdgeBlock, hs, ho, Prog.bind_run, getActiveEdge_run, hx]
    dsimp only
    have hfsrs := @reinforceExisting_answers w k now a.layer x g
    rw [← hfsrs, Prog.bind_run]
    rcases hr : GraphStore.reinforceExisting w k now a.layer x g with ⟨e | u, h⟩
    · constructor
      · rintro ⟨id, h', hid⟩
        cases hid
      · rintro ⟨u, h', hu⟩
        cases hu
    · exact ⟨fun _ => ⟨u, h, rfl⟩, fun _ => ⟨x.id, h, rfl⟩⟩
  | none =>
    rw [GraphStore.upsertEdgeBlock_fresh now hs ho hx]
    dsimp only
    cases hc : cardinalityRefusal w.unicode k.strictPredicates g ⟨k.brainId, s, a.predicate⟩ with
    | some msg =>
      constructor
      · rintro ⟨id, h, hid⟩
        cases hid
      · intro h
        cases h
    | none =>
      dsimp only
      rw [insertEdge_run hs ho, hx]
      cases hk : (hasEntity w g s && hasEntity w g o) with
      | true => exact ⟨fun _ => rfl, fun _ => ⟨_, _, rfl⟩⟩
      | false =>
        constructor
        · rintro ⟨id, h, hid⟩
          cases hid
        · intro h
          cases h

/-- `upsert_edge` returns exactly when it gets through its checks. -/
theorem upsertEdge_answers :
    (∃ id h, GraphStore.upsertEdge w k a g = (.ok id, h)) ↔ upsertAnswers w k a g = true := by
  unfold GraphStore.upsertEdge upsertAnswers
  cases hv : (k.evidenceRequired && a.evidenceId.isNone) with
  | true =>
    constructor
    · rintro ⟨id, h, hid⟩
      cases hid
    · intro h
      cases h
  | false =>
    rw [if_neg Bool.false_ne_true]
    cases hw : w.refuses g.ticks with
    | true =>
      constructor
      · rintro ⟨id, h, hid⟩
        rw [transaction, hw, if_pos rfl] at hid
        cases hid
      · intro h
        cases h
    | false =>
      have hblock : (∃ id h, transaction w (GraphStore.upsertEdgeBlock w k a) g = (.ok id, h)) ↔
          ∃ id h, GraphStore.upsertEdgeBlock w k a (w.clock g.ticks) g.opened = (.ok id, h) := by
        rw [transaction, hw, if_neg Bool.false_ne_true]
        rcases GraphStore.upsertEdgeBlock w k a (w.clock g.ticks) g.opened with ⟨e | id, h⟩
        · constructor
          · rintro ⟨id, h', hid⟩
            cases hid
          · rintro ⟨id, h', hid⟩
            cases hid
        · exact Iff.rfl
      rw [hblock, Bool.and_self, Bool.not_false, Bool.true_and]
      by_cases hids : ∃ s o, a.subject = .uuid s ∧ a.object = .uuid o
      · obtain ⟨s, o, hs, ho⟩ := hids
        rw [upsertEdgeBlock_answers hs ho, hs, ho]
        rfl
      · obtain ⟨text, ht⟩ := getActiveEdge_malformed k.brainId a.predicate g.opened
          (fun s o hso => hids ⟨s, o, hso⟩)
        rw [GraphStore.upsertEdgeBlock, Prog.bind_run_error ht]
        constructor
        · rintro ⟨id, h, hid⟩
          cases hid
        · intro h
          split at h
          · next s o hs ho => exact absurd ⟨s, o, hs, ho⟩ hids
          · cases h

end Answers

/-- An edge of this triple is active under the id. -/
def Carries (g : Graph) (id : Nat) (triple : String × Nat × String × Nat) : Prop :=
  ∃ x, g.edges.get? id = some x ∧ x.status = .active ∧ x.triple = triple

def WithinBound (g : Graph) (σ : Slot) : Prop :=
  ∀ n, declaredBound g σ = some n → (slotObjects g σ).card ≤ n

/-- The old edge is superseded by another edge, which is active and says the new triple. -/
structure Replaced (g : Graph) (old new : Nat) (triple : String × Nat × String × Nat) : Prop where
  retired : ∃ x, g.edges.get? old = some x ∧ x.status = .superseded ∧ x.supersededBy = some new
  another : new ≠ old
  carried : Carries g new triple

/-- The caller moves a functional edge to an object it does not have yet. -/
def MovesBounded (g : Graph) (brain : String) (e : EdgeRow) (a : EdgeArgs) : Prop :=
  ∃ o, a.subject = .uuid e.subject ∧ a.object = .uuid o ∧ a.predicate = e.predicate ∧
    declaredBound g ⟨brain, e.subject, e.predicate⟩ = some 1 ∧
    activeEdge g brain e.subject e.predicate o = none

/-- What a caller who supersedes an active edge may rely on. -/
structure Replaces (w : GraphWorld) (k : GraphConfig) (g : Graph) (e : EdgeRow) (a : EdgeArgs) :
    Prop where
  returned : ∀ new h, GraphStore.supersedeEdge w k (.uuid e.id) a g = (.ok new, h) →
    ∃ s o, a.subject = .uuid s ∧ a.object = .uuid o ∧
      Replaced h e.id new (k.brainId, s, a.predicate, o) ∧ WithinBound h ⟨k.brainId, s, a.predicate⟩
  raised : ∀ err h, GraphStore.supersedeEdge w k (.uuid e.id) a g = (.error err, h) → SameRows g h
  moves : MovesBounded g k.brainId e a →
    ∃ new h, GraphStore.supersedeEdge w k (.uuid e.id) a g = (.ok new, h)

/-- The slot is within its bound without the edge. -/
def RoomWithout (g : Graph) (e : EdgeRow) (σ : Slot) : Prop :=
  ∀ n, declaredBound g σ = some n → (objectsIn (g.edges.pop e.id) σ).card ≤ n

/-- The second connection is there for what the first one has written, and a reused edge is
another one, in a slot that is not over its bound. -/
def FollowsThrough (w : GraphWorld) (k : GraphConfig) (g : Graph) (e : EdgeRow) (a : EdgeArgs) :
    Prop :=
  ∀ s o, a.subject = .uuid s → a.object = .uuid o →
    match activeEdge g k.brainId s a.predicate o with
    | none => w.refuses (g.ticks + 1) = false
    | some x =>
      if w.refuses (g.ticks + 1) then x.reinforceDue (w.clock g.ticks) = false
      else x.id ≠ e.id ∧ RoomWithout g e ⟨k.brainId, s, a.predicate⟩

/-- The old edge as `SUPERSEDE_EDGE_SQL` leaves it. -/
def EdgeRow.supersededInto (now : Stamp) (new : Nat) (e : EdgeRow) : EdgeRow :=
  { e with status := .superseded, supersededBy := some new, updatedAt := now }

section Replaces
variable {w : GraphWorld} {k : GraphConfig} {a : EdgeArgs} {g h : Graph} {e : EdgeRow} {new : Nat}
  {now : Stamp} {c : ℚ}

/-- The edge that is written or reused is active and says the triple. -/
theorem EdgeWritten.carries {brain : String} (hw : EdgeWritten w brain now a c g new h) :
    ∃ s o, a.subject = .uuid s ∧ a.object = .uuid o ∧ Carries h new (brain, s, a.predicate, o) := by
  cases hw with
  | debounced hs ho he =>
    obtain ⟨hm, ht⟩ := activeEdge_triple he
    exact ⟨_, _, hs, ho, _, Table.get?_of_mem hm, EdgeRow.isTriple_active ht,
      (EdgeRow.isTriple_iff.1 ht).1⟩
  | reinforced hs ho he =>
    obtain ⟨hm, ht⟩ := activeEdge_triple he
    exact ⟨_, _, hs, ho, _, Table.get?_set_self _ _, EdgeRow.isTriple_active ht,
      (EdgeRow.isTriple_iff.1 ht).1⟩
  | inserted hs ho => exact ⟨_, _, hs, ho, _, Table.get?_set_self _ _, rfl, rfl⟩

/-- Writing one edge leaves the others, and a reused one where it was. -/
theorem EdgeWritten.stays {brain : String} (hw : EdgeWritten w brain now a c g new h)
    (he : g.edges.get? e.id = some e) (hfresh : e.id < g.nextId) :
    ∃ f, h.edges.get? e.id = some f ∧ Touches e f := by
  cases hw with
  | debounced => exact ⟨e, he, rfl, rfl, rfl, rfl, rfl, rfl⟩
  | @reinforced _ _ x newS newD _ _ hx =>
    by_cases hid : x.id = e.id
    · have hxe : x = e := Table.eq_of_key (activeEdge_triple hx).1 (Table.mem_of_get? he) hid
      subst hxe
      exact ⟨_, Table.get?_set_self _ _, touches_reinforced now newS newD x⟩
    · have hne : (x.reinforced now newS newD).id ≠ e.id := hid
      have hkept : (g.edges.set (x.reinforced now newS newD)).get? e.id = some e :=
        (Table.get?_set_ne g.edges hne).trans he
      exact ⟨e, hkept, rfl, rfl, rfl, rfl, rfl, rfl⟩
  | @inserted s o =>
    have hid : (newEdge brain now g.nextId s o a c).id ≠ e.id := Nat.ne_of_gt hfresh
    have hkept : (g.edges.set (newEdge brain now g.nextId s o a c)).get? e.id = some e :=
      (Table.get?_set_ne g.edges hid).trans he
    exact ⟨e, hkept, rfl, rfl, rfl, rfl, rfl, rfl⟩

theorem EdgeWritten.predicates {brain : String} (hw : EdgeWritten w brain now a c g new h) :
    h.predicates = g.predicates := by
  cases hw <;> rfl

theorem Touches.inSlot {f : EdgeRow} (ht : Touches e f) (σ : Slot) : f.inSlot σ = e.inSlot σ := by
  have htriple := ht.triple
  simp only [EdgeRow.triple, Prod.mk.injEq] at htriple
  obtain ⟨hb, hs, hp, -⟩ := htriple
  simp only [EdgeRow.inSlot, EdgeRow.live, hb, hs, hp, ht.status, ht.valid]

theorem Touches.object {f : EdgeRow} (ht : Touches e f) : f.object = e.object :=
  congrArg (fun t => t.2.2.2) ht.triple

/-- `supersede_edge` once its replacement is there. -/
theorem supersedeEdge_run (hr : GraphStore.upsertEdge w k (replacement a) g = (.ok new, h))
    (hw : EdgeWritten w k.brainId (w.clock g.ticks) (replacement a)
      (edgeConfidence (replacement a)) g.opened new h)
    (he : g.edges.get? e.id = some e) (hb : e.brainId = k.brainId) (hlive : e.live = true)
    (hfresh : e.id < g.nextId) :
    (w.refuses (g.ticks + 1) = true ∧
      GraphStore.supersedeEdge w k (.uuid e.id) a g = (.error .connection, h.opened)) ∨
    ∃ f, w.refuses (g.ticks + 1) = false ∧ h.edges.get? e.id = some f ∧ Touches e f ∧
      GraphStore.supersedeEdge w k (.uuid e.id) a g = (.ok new, { h.opened with
        edges := h.edges.set (f.supersededInto (w.clock (g.ticks + 1)) new) }) := by
  have hticks : h.ticks = g.ticks + 1 := hw.ticks
  obtain ⟨f, hf, ht⟩ := hw.stays (g := g.opened) he hfresh
  rw [GraphStore.supersedeEdge, Prog.bind_run_ok hr, Prog.bind_run, transaction, hticks]
  cases hopen : w.refuses (g.ticks + 1) with
  | true => exact .inl ⟨rfl, rfl⟩
  | false =>
    refine .inr ⟨f, rfl, hf, ht, ?_⟩
    have hbf : f.brainId = k.brainId := (congrArg (fun t => t.1) ht.triple).trans hb
    have hactive : f.status = .active := by
      rw [ht.status]
      rw [EdgeRow.live, Bool.and_eq_true, decide_eq_true_eq] at hlive
      exact hlive.1
    have hdue : (decide (f.brainId = k.brainId) && decide (f.status = .active)) = true := by
      simp only [hbf, hactive, decide_true, Bool.and_self]
    rw [if_neg Bool.false_ne_true, supersedeEdgeRow, updateEdge_run,
      show h.opened.edges.get? e.id = some f from hf]
    dsimp only
    rw [if_pos hdue]
    rfl

/-- Objects are counted by the live rows of the slot. -/
theorem objectsIn_subset {t u : Table EdgeRow.id} {σ : Slot}
    (hsub : ∀ x ∈ t.values, x.inSlot σ = true → ∃ y ∈ u.values, y.inSlot σ = true ∧
      y.object = x.object) : objectsIn t σ ⊆ objectsIn u σ := by
  intro o ho
  obtain ⟨x, hx, hin, hobj⟩ := mem_objectsIn.1 ho
  obtain ⟨y, hy, hyin, hyobj⟩ := hsub x hx hin
  exact mem_objectsIn.2 ⟨y, hy, hyin, hyobj.trans hobj⟩

theorem EdgeRow.supersededInto_inSlot (now : Stamp) (new : Nat) (f : EdgeRow) (σ : Slot) :
    (f.supersededInto now new).inSlot σ = false := by
  simp only [EdgeRow.inSlot, EdgeRow.live, EdgeRow.supersededInto, reduceCtorEq, decide_false,
    Bool.false_and, Bool.and_false]

/-- A row that is written outside the slot leaves it as it is without the row. -/
theorem objectsIn_set_outside {t : Table EdgeRow.id} {f : EdgeRow} {σ : Slot}
    (hf : f.inSlot σ = false) : objectsIn (t.set f) σ = objectsIn (t.pop f.id) σ := by
  apply Finset.Subset.antisymm
  · apply objectsIn_subset
    intro x hx hin
    have hne : x.id ≠ f.id := by
      intro hid
      have hxf : x = f := Table.eq_of_key hx (Table.mem_set_self t f) hid
      rw [hxf, hf] at hin
      cases hin
    rcases Table.mem_set hx with rfl | hx
    · exact absurd rfl hne
    · exact ⟨x, Table.mem_pop_of_ne hx hne, hin, rfl⟩
  · apply objectsIn_subset
    intro x hx hin
    exact ⟨x, Table.mem_set_of_ne (Table.mem_pop hx) (Table.ne_of_mem_pop hx), hin, rfl⟩

/-- A row that is touched counts as before. -/
theorem objectsIn_touched {t : Table EdgeRow.id} {x y : EdgeRow} (hx : x ∈ t.values)
    (ht : Touches x y) (i : Nat) (σ : Slot) :
    objectsIn ((t.set y).pop i) σ = objectsIn (t.pop i) σ := by
  apply Finset.Subset.antisymm
  · apply objectsIn_subset
    intro z hz hin
    have hne := Table.ne_of_mem_pop hz
    rcases Table.mem_set (Table.mem_pop hz) with rfl | hz
    · have hnex : x.id ≠ i := by
        rw [← ht.id]
        exact hne
      exact ⟨x, Table.mem_pop_of_ne hx hnex, (ht.inSlot σ).symm.trans hin, ht.object.symm⟩
    · exact ⟨z, Table.mem_pop_of_ne hz hne, hin, rfl⟩
  · apply objectsIn_subset
    intro z hz hin
    have hne := Table.ne_of_mem_pop hz
    by_cases hid : z.id = x.id
    · have hzx : z = x := Table.eq_of_key (Table.mem_pop hz) hx hid
      subst hzx
      have hney : y.id ≠ i := by
        rw [ht.id]
        exact hne
      exact ⟨y, Table.mem_pop_of_ne (Table.mem_set_self t y) hney, (ht.inSlot σ).trans hin, ht.object⟩
    · have hzy : z.id ≠ y.id := by
        rw [ht.id]
        exact hid
      exact ⟨z, Table.mem_pop_of_ne (Table.mem_set_of_ne (Table.mem_pop hz) hzy) hne, hin, rfl⟩

/-- A new edge in a slot with room, next to one that is retired. -/
theorem card_inserted {brain : String} {s o : Nat} {σ : Slot} {n : Nat} (later : Stamp)
    (hroom : (slotObjects g σ).card < n) :
    (objectsIn ((g.edges.set (newEdge brain now new s o a c)).set (e.supersededInto later new))
      σ).card ≤ n := by
  have hsub : objectsIn ((g.edges.set (newEdge brain now new s o a c)).set
      (e.supersededInto later new)) σ ⊆ slotObjects g σ ∪ {o} := by
    apply (objectsIn_set_subset _ _ σ).trans
    rw [EdgeRow.supersededInto_inSlot, if_neg Bool.false_ne_true, Finset.union_empty]
    apply (objectsIn_set_subset _ _ σ).trans
    apply Finset.union_subset_union_right
    split
    · exact Finset.Subset.refl _
    · exact Finset.empty_subset _
  apply (Finset.card_le_card hsub).trans
  apply (Finset.card_union_le _ _).trans
  rw [Finset.card_singleton]
  exact hroom

/-- A slot that holds the old edge has no room for a second object under a bound of one. -/
theorem bound_one_refuses (he : e ∈ g.edges.values) (hlive : e.live = true)
    (hb : e.brainId = k.brainId) (hm : MovesBounded g k.brainId e a) :
    upsertAnswers w k (replacement a) g = false := by
  obtain ⟨o, hs, ho, hp, hone, hn⟩ := hm
  have hheld : e.object ∈ slotObjects g ⟨k.brainId, e.subject, e.predicate⟩ := by
    rw [slotObjects_eq, mem_objectsIn]
    refine ⟨e, he, ?_, rfl⟩
    rw [EdgeRow.inSlot_iff, EdgeRow.slot, hb]
    exact ⟨rfl, hlive⟩
  have hfull : (cardinalityRefusal w.unicode k.strictPredicates g
      ⟨k.brainId, e.subject, e.predicate⟩).isNone = false := by
    rw [Bool.eq_false_iff]
    intro hnone
    have hlt := cardinalityRefusal_none (Option.isNone_iff_eq_none.1 hnone) hone
    rw [Nat.lt_one_iff, Finset.card_eq_zero] at hlt
    rw [hlt] at hheld
    cases hheld
  have hs' : (replacement a).subject = .uuid e.subject := hs
  have ho' : (replacement a).object = .uuid o := ho
  have hp' : (replacement a).predicate = e.predicate := hp
  rw [upsertAnswers, hs', ho']
  simp only [hp', hn, hfull, Bool.false_and, Bool.and_false]

theorem replaces_of_error {err : GraphError}
    (hrun : GraphStore.supersedeEdge w k (.uuid e.id) a g = (.error err, h)) :
    Replaces w k g e a ↔ SameRows g h ∧ ¬ MovesBounded g k.brainId e a := by
  constructor
  · intro hrep
    refine ⟨hrep.raised err h hrun, ?_⟩
    intro hm
    obtain ⟨new, h', hok⟩ := hrep.moves hm
    rw [hrun] at hok
    cases hok
  · rintro ⟨hsame, hn⟩
    constructor
    · intro new h' hok
      rw [hrun] at hok
      cases hok
    · intro err' h' herr
      rw [hrun] at herr
      cases herr
      exact hsame
    · exact fun hm => absurd hm hn

theorem replaces_of_ok (hrun : GraphStore.supersedeEdge w k (.uuid e.id) a g = (.ok new, h)) :
    Replaces w k g e a ↔ ∃ s o, a.subject = .uuid s ∧ a.object = .uuid o ∧
      Replaced h e.id new (k.brainId, s, a.predicate, o) ∧
      WithinBound h ⟨k.brainId, s, a.predicate⟩ := by
  constructor
  · intro hrep
    exact hrep.returned new h hrun
  · intro hrep
    constructor
    · intro new' h' hok
      rw [hrun] at hok
      cases hok
      exact hrep
    · intro err h' herr
      rw [hrun] at herr
      cases herr
    · exact fun _ => ⟨new, h, hrun⟩

theorem followsThrough_iff {s o : Nat} (hs : a.subject = .uuid s) (ho : a.object = .uuid o) :
    FollowsThrough w k g e a ↔
      match activeEdge g k.brainId s a.predicate o with
      | none => w.refuses (g.ticks + 1) = false
      | some x =>
        if w.refuses (g.ticks + 1) then x.reinforceDue (w.clock g.ticks) = false
        else x.id ≠ e.id ∧ RoomWithout g e ⟨k.brainId, s, a.predicate⟩ := by
  constructor
  · intro hf
    exact hf s o hs ho
  · intro hf s' o' hs' ho'
    cases hs.symm.trans hs'
    cases ho.symm.trans ho'
    exact hf

theorem set_ne_of_fresh {t : Table EdgeRow.id} {row : EdgeRow} (hn : t.get? row.id = none) :
    t.set row ≠ t := by
  intro heq
  have hself := Table.get?_set_self t row
  rw [heq, hn] at hself
  cases hself

theorem set_reinforced_ne {x : EdgeRow} {newS newD : ℚ} (hx : x ∈ g.edges.values) :
    g.edges.set (x.reinforced now newS newD) ≠ g.edges := by
  intro heq
  have hself := Table.get?_set_self g.edges (x.reinforced now newS newD)
  rw [heq, show (x.reinforced now newS newD).id = x.id from rfl, Table.get?_of_mem hx] at hself
  have hcount := congrArg EdgeRow.reinforceCount (Option.some.inj hself)
  exact absurd hcount (Nat.ne_of_lt (Nat.lt_succ_self _))

/-- Without a second connection the graph is as before when nothing was written. -/
theorem refused_iff
    (hw : EdgeWritten w k.brainId (w.clock g.ticks) (replacement a) c g.opened new h)
    (hfresh : ∀ x ∈ g.edges.values, x.id < g.nextId) (hrefused : w.refuses (g.ticks + 1) = true) :
    SameRows g h.opened ↔ FollowsThrough w k g e a := by
  cases hw with
  | @debounced s o x hs ho hx hd =>
    have hx : activeEdge g k.brainId s a.predicate o = some x := hx
    have hs : a.subject = .uuid s := hs
    have ho : a.object = .uuid o := ho
    rw [followsThrough_iff hs ho, hx]
    simp only [hrefused, if_true]
    exact ⟨fun _ => hd, fun _ => ⟨rfl, rfl, rfl, rfl⟩⟩
  | @reinforced s o x newS newD hs ho hx hd =>
    have hx : activeEdge g k.brainId s a.predicate o = some x := hx
    have hs : a.subject = .uuid s := hs
    have ho : a.object = .uuid o := ho
    rw [followsThrough_iff hs ho, hx]
    simp only [hrefused, if_true, hd, Bool.true_eq_false, iff_false]
    intro hsame
    exact set_reinforced_ne (activeEdge_triple hx).1 hsame.edges
  | @inserted s o hs ho hn =>
    have hn : activeEdge g k.brainId s a.predicate o = none := hn
    have hs : a.subject = .uuid s := hs
    have ho : a.object = .uuid o := ho
    rw [followsThrough_iff hs ho, hn]
    simp only [hrefused, Bool.true_eq_false, iff_false]
    intro hsame
    refine set_ne_of_fresh ?_ hsame.edges
    cases hrow : g.edges.get? g.nextId with
    | none => exact hrow
    | some x =>
      have hlt := hfresh x (Table.mem_of_get? hrow)
      rw [Table.key_of_get? hrow] at hlt
      exact absurd hlt (Nat.lt_irrefl _)

theorem declaredBound_eq {g h : Graph} (hp : h.predicates = g.predicates) (σ : Slot) :
    declaredBound h σ = declaredBound g σ := by
  unfold declaredBound
  rw [hp]

theorem withinBound_iff {t : Table EdgeRow.id} {σ : Slot} (hp : h.predicates = g.predicates)
    (hobj : objectsIn h.edges σ = objectsIn t σ) :
    WithinBound h σ ↔ ∀ n, declaredBound g σ = some n → (objectsIn t σ).card ≤ n := by
  rw [WithinBound, declaredBound_eq hp, slotObjects_eq, hobj]

/-- The pointer is set on an edge whose replacement is another one. -/
theorem replaced_iff {f : EdgeRow} {later : Stamp} {triple : String × Nat × String × Nat}
    (hid : f.id = e.id) (hc : Carries h new triple) (hu : g.edges = h.edges.set (f.supersededInto later new)) :
    Replaced g e.id new triple ↔ new ≠ e.id := by
  constructor
  · exact fun hr => hr.another
  · intro hne
    have hkey : (f.supersededInto later new).id = e.id := hid
    constructor
    · refine ⟨f.supersededInto later new, ?_, rfl, rfl⟩
      rw [hu, ← hkey]
      exact Table.get?_set_self _ _
    · exact hne
    · obtain ⟨x, hx, hact, ht⟩ := hc
      have hother : (f.supersededInto later new).id ≠ new := by
        rw [hkey]
        exact hne.symm
      refine ⟨x, ?_, hact, ht⟩
      rw [hu, Table.get?_set_ne _ hother]
      exact hx

/-- With a second connection the call returns, and everything is in order when the replacement is
another edge in a slot with room. -/
theorem returned_iff {f : EdgeRow} {later : Stamp}
    (hw : EdgeWritten w k.brainId (w.clock g.ticks) (replacement a) c g.opened new h)
    (hroom : ∀ s o, a.subject = .uuid s → a.object = .uuid o →
      activeEdge g k.brainId s a.predicate o = none →
      ∀ n, declaredBound g ⟨k.brainId, s, a.predicate⟩ = some n →
        (slotObjects g ⟨k.brainId, s, a.predicate⟩).card < n)
    (hfresh : e.id < g.nextId) (hopen : w.refuses (g.ticks + 1) = false)
    (hf : h.edges.get? e.id = some f) :
    (∃ s o, a.subject = .uuid s ∧ a.object = .uuid o ∧
      Replaced { h.opened with edges := h.edges.set (f.supersededInto later new) } e.id new
        (k.brainId, s, a.predicate, o) ∧
      WithinBound { h.opened with edges := h.edges.set (f.supersededInto later new) }
        ⟨k.brainId, s, a.predicate⟩) ↔ FollowsThrough w k g e a := by
  have hid : f.id = e.id := Table.key_of_get? hf
  obtain ⟨s, o, hs, ho, hc⟩ := hw.carries
  have hs : a.subject = .uuid s := hs
  have ho : a.object = .uuid o := ho
  have hthis : (∃ s o, a.subject = .uuid s ∧ a.object = .uuid o ∧
      Replaced { h.opened with edges := h.edges.set (f.supersededInto later new) } e.id new
        (k.brainId, s, a.predicate, o) ∧
      WithinBound { h.opened with edges := h.edges.set (f.supersededInto later new) }
        ⟨k.brainId, s, a.predicate⟩) ↔
      new ≠ e.id ∧ ∀ n, declaredBound g ⟨k.brainId, s, a.predicate⟩ = some n →
        (objectsIn (h.edges.set (f.supersededInto later new)) ⟨k.brainId, s, a.predicate⟩).card
          ≤ n := by
    have hrep := replaced_iff (g := { h.opened with
      edges := h.edges.set (f.supersededInto later new) }) hid hc rfl
    have hbound := withinBound_iff (g := g) (h := { h.opened with
      edges := h.edges.set (f.supersededInto later new) }) (σ := ⟨k.brainId, s, a.predicate⟩)
      hw.predicates rfl
    constructor
    · rintro ⟨s', o', hs', ho', hr, hb⟩
      cases hs.symm.trans hs'
      exact ⟨hr.another, hbound.1 hb⟩
    · rintro ⟨hne, hb⟩
      exact ⟨s, o, hs, ho, hrep.2 hne, hbound.2 hb⟩
  rw [hthis, followsThrough_iff hs ho]
  have hretired : (f.supersededInto later new).id = e.id := hid
  cases hw with
  | @debounced s' o' x hs' ho' hx hd =>
    cases hs.symm.trans hs'
    cases ho.symm.trans ho'
    have hx : activeEdge g k.brainId s a.predicate o = some x := hx
    rw [hx, objectsIn_set_outside (EdgeRow.supersededInto_inSlot _ _ _ _), hretired]
    simp only [hopen, Bool.false_eq_true, if_false]
    exact Iff.rfl
  | @reinforced s' o' x newS newD hs' ho' hx hd =>
    cases hs.symm.trans hs'
    cases ho.symm.trans ho'
    have hx : activeEdge g k.brainId s a.predicate o = some x := hx
    have htouched := objectsIn_touched (activeEdge_triple hx).1
      (touches_reinforced (w.clock g.ticks) newS newD x) e.id ⟨k.brainId, s, a.predicate⟩
    rw [hx, objectsIn_set_outside (EdgeRow.supersededInto_inSlot _ _ _ _), hretired]
    simp only [Graph.opened_edges, htouched, hopen, Bool.false_eq_true, if_false]
    exact Iff.rfl
  | @inserted s' o' hs' ho' hn =>
    cases hs.symm.trans hs'
    cases ho.symm.trans ho'
    have hn : activeEdge g k.brainId s a.predicate o = none := hn
    rw [hn]
    simp only [hopen, iff_true]
    refine ⟨Nat.ne_of_gt hfresh, ?_⟩
    intro n hb
    exact card_inserted later (hroom s o hs ho hn n hb)

/-- Superseding an active edge replaces it exactly when the call moves no functional edge, and what
it gets to write is followed by the pointer, to another edge in a slot that is not over its bound. -/
theorem supersede_edge_replaces_iff (he : g.edges.get? e.id = some e) (hlive : e.live = true)
    (hb : e.brainId = k.brainId) (hfresh : ∀ x ∈ g.edges.values, x.id < g.nextId) :
    Replaces w k g e a ↔ ¬ MovesBounded g k.brainId e a ∧
      (upsertAnswers w k (replacement a) g = true → FollowsThrough w k g e a) := by
  have hmem := Table.mem_of_get? he
  cases hans : upsertAnswers w k (replacement a) g with
  | false =>
    have hfails : ∃ err h, GraphStore.supersedeEdge w k (.uuid e.id) a g = (.error err, h) ∧
        SameRows g h := by
      obtain ⟨err, hr | hr⟩ | ⟨new, h, -, -, hr, -⟩ := upsertEdge_cases w k (replacement a) g
      · exact ⟨err, g, Prog.bind_run_error hr, SameRows.refl g⟩
      · exact ⟨err, g.opened, Prog.bind_run_error hr, SameRows.opened g⟩
      · rw [upsertEdge_answers.1 ⟨new, h, hr⟩] at hans
        cases hans
    obtain ⟨err, h, hrun, hsame⟩ := hfails
    rw [replaces_of_error hrun]
    exact ⟨fun hr => ⟨hr.2, fun hc => nomatch hc⟩, fun hr => ⟨hsame, hr.1⟩⟩
  | true =>
    have hnot : ¬ MovesBounded g k.brainId e a := by
      intro hm
      rw [bound_one_refuses hmem hlive hb hm] at hans
      cases hans
    obtain ⟨new, h, hr⟩ := upsertEdge_answers.2 hans
    have hw : EdgeWritten w k.brainId (w.clock g.ticks) (replacement a)
        (edgeConfidence (replacement a)) g.opened new h := by
      obtain ⟨err, hr' | hr'⟩ | ⟨new', h', -, -, hr', hw⟩ := upsertEdge_cases w k (replacement a) g
      · rw [hr] at hr'
        cases hr'
      · rw [hr] at hr'
        cases hr'
      · rw [hr] at hr'
        cases hr'
        exact hw
    obtain ⟨hrefused, hrun⟩ | ⟨f, hopen, hf, -, hrun⟩ :=
      supersedeEdge_run hr hw he hb hlive (hfresh e hmem)
    · rw [replaces_of_error hrun, refused_iff hw hfresh hrefused]
      exact ⟨fun hr => ⟨hr.2, fun _ => hr.1⟩, fun hr => ⟨hr.2 rfl, hr.1⟩⟩
    · have hroom : ∀ s o, a.subject = .uuid s → a.object = .uuid o →
          activeEdge g k.brainId s a.predicate o = none →
          ∀ n, declaredBound g ⟨k.brainId, s, a.predicate⟩ = some n →
            (slotObjects g ⟨k.brainId, s, a.predicate⟩).card < n := by
        intro s o hs ho hn n hbound
        have hs' : (replacement a).subject = .uuid s := hs
        have ho' : (replacement a).object = .uuid o := ho
        have hn' : activeEdge g k.brainId s (replacement a).predicate o = none := hn
        rw [upsertAnswers, hs', ho'] at hans
        simp only [hn', Bool.and_eq_true, Option.isNone_iff_eq_none] at hans
        exact cardinalityRefusal_none hans.2.1 hbound
      rw [replaces_of_ok hrun, returned_iff hw hroom (hfresh e hmem) hopen hf]
      exact ⟨fun hr => ⟨hnot, fun _ => hr⟩, fun hr => hr.2 rfl⟩

end Replaces

/-- A person who owns the first of two cars, of which a person may own one. -/
def ownedGarage : Graph := (GraphStore.upsertEdge .calm citedStore (ownsArgs 1) garage).2

/-- The edge from the person to the first car. -/
def ownedCar : EdgeRow := newEdge "brain" 3000000 3 0 1 (ownsArgs 1) (6 / 10)

theorem ownedCar_stored : ownedGarage.edges.get? ownedCar.id = some ownedCar := by decide +kernel

def drivesArgs : EdgeArgs := { ownsArgs 1 with predicate := "drives" }

theorem unbounded_edge_replaced : Replaces .calm citedStore ownedGarage ownedCar drivesArgs := by
  apply (supersede_edge_replaces_iff ownedCar_stored (by decide) rfl (by decide +kernel)).2
  constructor
  · rintro ⟨o, -, -, hp, -⟩
    revert hp
    decide
  · intro _ s o hs ho
    cases hs
    cases ho
    have hnone : activeEdge ownedGarage "brain" 0 "drives" 1 = none := by decide +kernel
    rw [show activeEdge ownedGarage citedStore.brainId 0 drivesArgs.predicate 1 = none from hnone]
    rfl

/-- Moving the functional edge to the second car, and superseding it by what it says. -/
theorem functional_edge_not_replaced :
    ¬ Replaces .calm citedStore ownedGarage ownedCar (ownsArgs 2) ∧
      ¬ Replaces .calm citedStore ownedGarage ownedCar (ownsArgs 1) := by
  constructor
  · intro h
    have hmoves : MovesBounded ownedGarage "brain" ownedCar (ownsArgs 2) :=
      ⟨2, rfl, rfl, rfl, by decide +kernel, by decide +kernel⟩
    obtain ⟨new, g, hok⟩ := h.moves hmoves
    have hraises : (GraphStore.supersedeEdge .calm citedStore (.uuid 3) (ownsArgs 2)
        ownedGarage).1.isOk = false := by
      decide +kernel
    rw [show GraphStore.supersedeEdge .calm citedStore (.uuid 3) (ownsArgs 2) ownedGarage =
      (.ok new, g) from hok] at hraises
    cases hraises
  · intro h
    have hself : (GraphStore.supersedeEdge .calm citedStore (.uuid 3) (ownsArgs 1)
        ownedGarage).1 = .ok 3 := by
      decide +kernel
    obtain ⟨s, o, -, -, hrep, -⟩ := h.returned 3 _ (Prod.ext hself rfl)
    exact hrep.another rfl

end TappsBrain
