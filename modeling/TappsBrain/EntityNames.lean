import TappsBrain.Recorder

namespace TappsBrain
open Lib
set_option autoImplicit true
set_option relaxedAutoImplicit false

/-- The row `ON CONFLICT DO UPDATE` leaves of an entity. -/
def EntityRow.enriched (now : Stamp) (a : EntityArgs) (old : EntityRow) : EntityRow :=
  { old with
    aliases := a.aliases
    metadata := a.metadata
    confidence := max old.confidence a.confidence
    sourceAgent := a.sourceAgent
    updatedAt := now }

/-- The active entity of a type and a name. -/
def entityNamed (w : GraphWorld) (brain : String) (a : EntityArgs) (g : Graph) : Option EntityRow :=
  g.entities.values.find? (sameEntity w brain a)

section Names
variable {w : GraphWorld} {brain : String} {now : Stamp} {a b : EntityArgs} {g h : Graph} {id : Nat}

/-- What an upsert of an entity leaves, when it returns. -/
inductive EntityWritten (w : GraphWorld) (brain : String) (now : Stamp) (a : EntityArgs) (g : Graph) :
    Nat → Graph → Prop
  | enriched {old : EntityRow} (hold : entityNamed w brain a g = some old) :
      EntityWritten w brain now a g old.id
        { g.drawn with entities := g.entities.set (old.enriched now a) }
  | created (hnone : entityNamed w brain a g = none) :
      EntityWritten w brain now a g g.nextId
        { g.drawn with entities := g.entities.set (newEntity brain now g.nextId a) }

theorem upsertEntityRow_ok (hr : upsertEntityRow w brain now a g = (.ok id, h)) :
    EntityWritten w brain now a g id h := by
  by_cases hno : (w.unstorable a.entityType || w.unstorable a.canonicalName) = true
  · rw [upsertEntityRow, if_pos hno] at hr
    cases hr
  · rw [upsertEntityRow_run hno] at hr
    cases hn : entityNamed w brain a g with
    | some old =>
      rw [show g.entities.values.find? (sameEntity w brain a) = some old from hn] at hr
      cases hr
      exact .enriched hn
    | none =>
      rw [show g.entities.values.find? (sameEntity w brain a) = none from hn] at hr
      cases hr
      exact .created hn

/-- A search that does not tell a new value from the one it replaces finds the same key. -/
theorem find?_put_key {l : List EntityRow} {v : EntityRow} {p : EntityRow → Bool}
    (hp : ∀ x ∈ l, x.id = v.id → p x = p v) :
    (∃ x y, l.find? p = some x ∧ (Table.put EntityRow.id v l).find? p = some y ∧ y.id = x.id) ∨
      (l.find? p = none ∧ ((Table.put EntityRow.id v l).find? p = none ∨
        p v = true ∧ (∀ x ∈ l, x.id ≠ v.id) ∧ (Table.put EntityRow.id v l).find? p = some v)) := by
  induction l with
  | nil =>
    refine .inr ⟨rfl, ?_⟩
    cases hv : p v with
    | true => exact .inr ⟨rfl, fun x hx => (nomatch hx), by rw [Table.put, List.find?_cons_of_pos hv]⟩
    | false =>
      refine .inl ?_
      rw [Table.put, List.find?_cons_of_neg (by rw [hv]; exact Bool.false_ne_true)]
      rfl
  | cons x rest ih =>
    have hrest := ih (fun z hz => hp z (List.mem_cons_of_mem x hz))
    by_cases hid : x.id = v.id
    · have hpx : p x = p v := hp x List.mem_cons_self hid
      rw [Table.put, if_pos hid]
      cases hv : p v with
      | true =>
        rw [hv] at hpx
        exact .inl ⟨x, v, List.find?_cons_of_pos hpx, List.find?_cons_of_pos hv, hid.symm⟩
      | false =>
        rw [hv] at hpx
        rw [List.find?_cons, List.find?_cons, hpx, hv]
        cases hf : rest.find? p with
        | some y => exact .inl ⟨y, y, rfl, rfl, rfl⟩
        | none => exact .inr ⟨rfl, .inl rfl⟩
    · rw [Table.put, if_neg hid]
      cases hx : p x with
      | true => exact .inl ⟨x, x, List.find?_cons_of_pos hx, List.find?_cons_of_pos hx, rfl⟩
      | false =>
        rw [List.find?_cons, List.find?_cons, hx]
        rcases hrest with hsome | ⟨hnone, hnone' | ⟨hv, hall, hsome⟩⟩
        · exact .inl hsome
        · exact .inr ⟨hnone, .inl hnone'⟩
        · refine .inr ⟨hnone, .inr ⟨hv, ?_, hsome⟩⟩
          intro z hz
          rcases List.mem_cons.1 hz with rfl | hz
          · exact hid
          · exact hall z hz

/-- The id stands for the name: that of its entity, or one drawn since where there is none. -/
def StandsFor (w : GraphWorld) (brain : String) (g : Graph) (a : EntityArgs) (id : Nat) : Prop :=
  (∃ x, entityNamed w brain a g = some x ∧ id = x.id) ∨
    entityNamed w brain a g = none ∧ g.nextId ≤ id

theorem EntityWritten.standsFor (hw : EntityWritten w brain now a g id h) :
    StandsFor w brain g a id := by
  cases hw with
  | enriched hold => exact .inl ⟨_, hold, rfl⟩
  | created hnone => exact .inr ⟨hnone, Nat.le_refl _⟩

theorem EntityWritten.known (hw : EntityWritten w brain now a g id h) :
    h.entities.contains id = true := by
  cases hw with
  | @enriched old _ => exact Table.contains_set_self g.entities (old.enriched now a)
  | created => exact Table.contains_set_self g.entities (newEntity brain now g.nextId a)

theorem EntityWritten.keeps_known (hw : EntityWritten w brain now a g id h) {i : Nat}
    (hi : g.entities.contains i = true) : h.entities.contains i = true := by
  cases hw <;> exact Table.contains_set hi

theorem EntityWritten.edges (hw : EntityWritten w brain now a g id h) : h.edges = g.edges := by
  cases hw <;> rfl

theorem EntityWritten.predicates (hw : EntityWritten w brain now a g id h) :
    h.predicates = g.predicates := by
  cases hw <;> rfl

theorem EntityWritten.nextId (hw : EntityWritten w brain now a g id h) : h.nextId = g.nextId + 1 := by
  cases hw <;> rfl

/-- Another name stands for the same after the upsert of an entity. -/
theorem EntityWritten.standsFor_before {i : Nat} (hw : EntityWritten w brain now a g id h)
    (hfresh : ∀ x ∈ g.entities.values, x.id < g.nextId) (hi : StandsFor w brain h b i) :
    StandsFor w brain g b i := by
  have hfrom : ∀ v : EntityRow, h.entities = g.entities.set v →
      (∀ x ∈ g.entities.values, x.id = v.id → sameEntity w brain b x = sameEntity w brain b v) →
      ((∀ x ∈ g.entities.values, x.id ≠ v.id) → v.id = g.nextId) → StandsFor w brain g b i := by
    intro v hv hp hnew
    have hfind : entityNamed w brain b h =
        (Table.put EntityRow.id v g.entities.values).find? (sameEntity w brain b) := by
      rw [entityNamed, hv]
      rfl
    obtain ⟨x, y, hx, hy, hid⟩ | ⟨hnone, hnone' | ⟨-, hall, hsome⟩⟩ := find?_put_key hp
    · obtain ⟨z, hz, rfl⟩ | ⟨hz, -⟩ := hi
      · rw [hfind, hy] at hz
        cases hz
        exact .inl ⟨x, hx, hid⟩
      · rw [hfind, hy] at hz
        cases hz
    · obtain ⟨z, hz, -⟩ | ⟨-, hle⟩ := hi
      · rw [hfind, hnone'] at hz
        cases hz
      · refine .inr ⟨hnone, ?_⟩
        rw [hw.nextId] at hle
        exact Nat.le_of_succ_le hle
    · obtain ⟨z, hz, rfl⟩ | ⟨hz, -⟩ := hi
      · rw [hfind, hsome] at hz
        cases hz
        exact .inr ⟨hnone, (hnew hall).symm.le⟩
      · rw [hfind, hsome] at hz
        cases hz
  cases hw with
  | @enriched old hold =>
    have hm := List.mem_of_find?_eq_some hold
    apply hfrom (old.enriched now a) rfl
    · intro x hx hid
      rw [Table.eq_of_key hx hm hid]
      rfl
    · intro hall
      exact absurd rfl (hall old hm)
  | created =>
    apply hfrom (newEntity brain now g.nextId a) rfl
    · intro x hx hid
      exact absurd hid (Nat.ne_of_lt (hfresh x hx))
    · exact fun _ => rfl

end Names
end TappsBrain
