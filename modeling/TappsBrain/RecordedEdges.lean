import TappsBrain.EdgeReplacement
import TappsBrain.EntityNames

namespace TappsBrain
open Lib
set_option autoImplicit true
set_option relaxedAutoImplicit false

/-- What an endpoint of an edge gives: an id, an entity by its type and name, or a bare name. -/
inductive EndpointName where
  | id (id : IdText)
  | typed (entityType canonicalName : String)
  | bare (name : String)
  | nothing
deriving DecidableEq

def Endpoint.named (p : Endpoint) : EndpointName :=
  if idGiven p.entityId then (p.entityId.map .id).getD .nothing
  else match p.ref with
    | some ref =>
      if (refToLookup ref).2 = "" then .nothing
      else if (refToLookup ref).1 = "" then .bare (refToLookup ref).2
      else .typed (refToLookup ref).1 (refToLookup ref).2
    | none =>
      match p.key with
      | some name => if name = "" then .nothing else .bare name
      | none => .nothing

/-- The id of an edge that a warning names. -/
def RecordWarning.edgeIndex : RecordWarning → Option Nat
  | .unresolvedSubject index => some index
  | .unresolvedObject index => some index
  | .entityUpsertFailed _ => none

section Meaning
variable (entities : List EntitySpec) (ids : List (Option Nat))

/-- An upsert of the event returned the id for the entity of that type and name. -/
def Upserted (entityType name : String) (id : Nat) : Prop :=
  ∃ spec, (spec, some id) ∈ entities.zip ids ∧ spec.entityType = entityType ∧
    spec.canonicalName = name

/-- Every entity of the event that has the name has one type, and it was upserted. -/
def SoleEntity (name : String) (id : Nat) : Prop :=
  ∃ entityType, Upserted entities ids entityType name id ∧
    ∀ spec ∈ entities, spec.canonicalName = name → spec.entityType = entityType

/-- The id an endpoint is meant to have. -/
def Meant : EndpointName → IdText → Prop
  | .id t, u => u = t
  | .typed entityType name, u => ∃ id, Upserted entities ids entityType name id ∧ u = .uuid id
  | .bare name, u => ∃ id, SoleEntity entities ids name id ∧ u = .uuid id
  | .nothing, _ => False

def Resolvable (n : EndpointName) : Prop := ∃ u, Meant entities ids n u

/-- A bare name that entities of several types have, of which just one was upserted. -/
def Survivor : EndpointName → Prop
  | .bare name => (∃ entityType id, Upserted entities ids entityType name id ∧
      ∀ t i, Upserted entities ids t name i → t = entityType) ∧
      ∃ spec ∈ entities, ∃ spec' ∈ entities, spec.canonicalName = name ∧
        spec'.canonicalName = name ∧ spec.entityType ≠ spec'.entityType
  | _ => False

/-- An edge that takes a surviving entity for the one it names, its other end being resolved. -/
def LinksSurvivor (spec : EdgeSpec) : Prop :=
  Survivor entities ids spec.subject.named ∧
      (Resolvable entities ids spec.object.named ∨ Survivor entities ids spec.object.named) ∨
    Resolvable entities ids spec.subject.named ∧ Survivor entities ids spec.object.named

end Meaning

/-- What `_upsert_edges` is to make of the edges of an event: the ids it returns, its warnings and
the graph it leaves. -/
structure EdgesAsMeant (w : GraphWorld) (brain : String) (event : ExperienceEvent)
    (ids edgeIds : List (Option Nat)) (warnings : List RecordWarning) (g : Graph) : Prop where
  alignedEntities : ids.length = event.entities.length ∧
    ∀ spec id, (spec, some id) ∈ event.entities.zip ids → ∃ row ∈ g.entities.values, row.id = id ∧
      row.entityType = spec.entityType ∧ w.dbLower row.canonicalName = w.dbLower spec.canonicalName
  alignedEdges : edgeIds.length = event.edges.length
  written : ∀ (i : Nat) (spec : EdgeSpec) (id : Nat), event.edges[i]? = some spec →
    edgeIds[i]? = some (some id) →
    ∃ s o, Meant event.entities ids spec.subject.named (.uuid s) ∧
      Meant event.entities ids spec.object.named (.uuid o) ∧
      Carries g id (brain, s, spec.predicate, o)
  skipped : ∀ (i : Nat) (spec : EdgeSpec), event.edges[i]? = some spec →
    ¬ (Resolvable event.entities ids spec.subject.named ∧
      Resolvable event.entities ids spec.object.named) →
    edgeIds[i]? = some none ∧ warnings.countP (fun r => r.edgeIndex = some i) = 1
  resolved : ∀ (i : Nat) (spec : EdgeSpec), event.edges[i]? = some spec →
    Resolvable event.entities ids spec.subject.named →
    Resolvable event.entities ids spec.object.named →
    (∃ id, edgeIds[i]? = some (some id)) ∧ warnings.countP (fun r => r.edgeIndex = some i) = 0

section Upserts
variable {w : GraphWorld} {brain : String} {now : Stamp} {a b : EntityArgs} {g h : Graph} {id : Nat}
  {x : EntityRow}

theorem sameEntity_newEntity (w : GraphWorld) (brain : String) (now : Stamp) (a : EntityArgs)
    (id : Nat) : sameEntity w brain a (newEntity brain now id a) = true := by
  unfold sameEntity newEntity
  simp only [decide_true, Bool.and_self]

/-- An upserted entity is what its type and name find. -/
theorem EntityWritten.named (hw : EntityWritten w brain now a g id h)
    (hfresh : ∀ x ∈ g.entities.values, x.id < g.nextId) :
    ∃ x, entityNamed w brain a h = some x ∧ x.id = id := by
  cases hw with
  | @enriched old hold =>
    have hm := List.mem_of_find?_eq_some hold
    have hagree : ∀ x ∈ g.entities.values, x.id = (old.enriched now a).id →
        sameEntity w brain a x = sameEntity w brain a (old.enriched now a) := by
      intro x hx hid
      rw [Table.eq_of_key hx hm hid]
      rfl
    rcases find?_put_key hagree with ⟨x, y, hx, hy, hid⟩ | ⟨hnone, -⟩
    · rw [show g.entities.values.find? (sameEntity w brain a) = some old from hold] at hx
      cases hx
      exact ⟨y, hy, hid⟩
    · rw [show g.entities.values.find? (sameEntity w brain a) = some old from hold] at hnone
      cases hnone
  | created hnone =>
    have hagree : ∀ x ∈ g.entities.values, x.id = (newEntity brain now g.nextId a).id →
        sameEntity w brain a x = sameEntity w brain a (newEntity brain now g.nextId a) :=
      fun x hx hid => absurd hid (Nat.ne_of_lt (hfresh x hx))
    rcases find?_put_key hagree with ⟨x, y, hx, -, -⟩ | ⟨-, hnone' | ⟨-, -, hsome⟩⟩
    · rw [show g.entities.values.find? (sameEntity w brain a) = none from hnone] at hx
      cases hx
    · have hin := Table.mem_set_self g.entities (newEntity brain now g.nextId a)
      have hno := List.find?_eq_none.mp hnone' _ hin
      exact absurd (sameEntity_newEntity w brain now a g.nextId) hno
    · exact ⟨_, hsome, rfl⟩

/-- What a type and a name find stays the same entity when another one is upserted. -/
theorem EntityWritten.keeps_named (hw : EntityWritten w brain now a g id h)
    (hfresh : ∀ x ∈ g.entities.values, x.id < g.nextId) (hx : entityNamed w brain b g = some x) :
    ∃ y, entityNamed w brain b h = some y ∧ y.id = x.id := by
  have hfrom : ∀ v : EntityRow, h.entities = g.entities.set v →
      (∀ z ∈ g.entities.values, z.id = v.id → sameEntity w brain b z = sameEntity w brain b v) →
      ∃ y, entityNamed w brain b h = some y ∧ y.id = x.id := by
    intro v hv hagree
    rcases find?_put_key hagree with ⟨z, y, hz, hy, hid⟩ | ⟨hnone, -⟩
    · rw [show g.entities.values.find? (sameEntity w brain b) = some x from hx] at hz
      cases hz
      refine ⟨y, ?_, hid⟩
      rw [entityNamed, hv]
      exact hy
    · rw [show g.entities.values.find? (sameEntity w brain b) = some x from hx] at hnone
      cases hnone
  cases hw with
  | @enriched old hold =>
    apply hfrom (old.enriched now a) rfl
    intro z hz hid
    rw [Table.eq_of_key hz (List.mem_of_find?_eq_some hold) hid]
    rfl
  | created =>
    apply hfrom (newEntity brain now g.nextId a) rfl
    intro z hz hid
    exact absurd hid (Nat.ne_of_lt (hfresh z hz))

theorem EntityWritten.drawn (hw : EntityWritten w brain now a g id h)
    (hfresh : ∀ x ∈ g.entities.values, x.id < g.nextId) :
    ∀ x ∈ h.entities.values, x.id < h.nextId := by
  rw [hw.nextId]
  intro x hx
  have hfrom : ∀ v : EntityRow, h.entities = g.entities.set v → v.id < g.nextId + 1 →
      x.id < g.nextId + 1 := by
    intro v hv hlt
    rw [hv] at hx
    rcases Table.mem_set hx with rfl | hx
    · exact hlt
    · exact Nat.lt_succ_of_lt (hfresh x hx)
  cases hw with
  | @enriched old hold =>
    have hold' := hfresh old (List.mem_of_find?_eq_some hold)
    exact hfrom (old.enriched now a) rfl (Nat.lt_succ_of_lt hold')
  | created => exact hfrom _ rfl (Nat.lt_succ_self g.nextId)

/-- The upserts of the entities of an event: each writes its row, or fails and leaves nothing. -/
inductive UpsertRun (w : GraphWorld) (k : RecorderConfig) (now : Stamp) :
    List EntitySpec → Graph → List (Option Nat) → Graph → Prop
  | nil {g : Graph} : UpsertRun w k now [] g [] g
  | failed {spec : EntitySpec} {rest : List EntitySpec} {g h : Graph} {ids : List (Option Nat)}
      (hrest : UpsertRun w k now rest g ids h) :
      UpsertRun w k now (spec :: rest) g (none :: ids) h
  | written {spec : EntitySpec} {rest : List EntitySpec} {g u h : Graph} {ids : List (Option Nat)}
      {id : Nat} (hw : EntityWritten w k.brainId now (Recorder.entityArgs k spec) g id u)
      (hrest : UpsertRun w k now rest u ids h) :
      UpsertRun w k now (spec :: rest) g (some id :: ids) h

variable {k : RecorderConfig} {entities : List EntitySpec} {ids : List (Option Nat)}

theorem upsertEntities_run (hr : Recorder.upsertEntities w k now entities g = (.ok ids, h)) :
    UpsertRun w k now entities g ids h := by
  induction entities generalizing g ids with
  | nil =>
    cases hr
    exact .nil
  | cons spec rest ih =>
    obtain ⟨first, u, hfirst, hrest⟩ := Prog.bind_ok hr
    obtain ⟨others, v, hothers, hend⟩ := Prog.bind_ok hrest
    cases hend
    rcases hrow : upsertEntityRow w k.brainId now (Recorder.entityArgs k spec) g with ⟨e | id, t⟩
    · simp only [savepoint, hrow] at hfirst
      cases hfirst
      exact .failed (ih hothers)
    · simp only [savepoint, hrow] at hfirst
      cases hfirst
      exact .written (upsertEntityRow_ok hrow) (ih hothers)

theorem UpsertRun.length (hr : UpsertRun w k now entities g ids h) :
    ids.length = entities.length := by
  induction hr with
  | nil => rfl
  | failed _ ih => exact congrArg Nat.succ ih
  | written _ _ ih => exact congrArg Nat.succ ih

theorem UpsertRun.edges (hr : UpsertRun w k now entities g ids h) :
    h.edges = g.edges ∧ g.nextId ≤ h.nextId := by
  induction hr with
  | nil => exact ⟨rfl, Nat.le_refl _⟩
  | failed _ ih => exact ih
  | written hw _ ih =>
    have hnext := hw.nextId
    exact ⟨ih.1.trans hw.edges, by omega⟩

theorem UpsertRun.keeps_named (hr : UpsertRun w k now entities g ids h)
    (hfresh : ∀ x ∈ g.entities.values, x.id < g.nextId) (hx : entityNamed w k.brainId b g = some x) :
    ∃ y, entityNamed w k.brainId b h = some y ∧ y.id = x.id := by
  induction hr generalizing x with
  | nil => exact ⟨x, hx, rfl⟩
  | failed _ ih => exact ih hfresh hx
  | written hw _ ih =>
    obtain ⟨y, hy, hid⟩ := hw.keeps_named hfresh hx
    obtain ⟨z, hz, hid'⟩ := ih (hw.drawn hfresh) hy
    exact ⟨z, hz, hid'.trans hid⟩

/-- Each id is, at the end, that of the entity its own type and name find. -/
theorem UpsertRun.named (hr : UpsertRun w k now entities g ids h)
    (hfresh : ∀ x ∈ g.entities.values, x.id < g.nextId) {spec : EntitySpec} {id : Nat}
    (hmem : (spec, some id) ∈ entities.zip ids) :
    ∃ x, entityNamed w k.brainId (Recorder.entityArgs k spec) h = some x ∧ x.id = id := by
  induction hr with
  | nil => exact absurd hmem List.not_mem_nil
  | failed _ ih =>
    rcases List.mem_cons.mp hmem with heq | hmem
    · cases heq
    · exact ih hfresh hmem
  | written hw hrest ih =>
    rcases List.mem_cons.mp hmem with heq | hmem
    · cases heq
      obtain ⟨x, hx, hid⟩ := hw.named hfresh
      obtain ⟨y, hy, hid'⟩ := hrest.keeps_named (hw.drawn hfresh) hx
      exact ⟨y, hy, hid'.trans hid⟩
    · exact ih (hw.drawn hfresh) hmem

theorem entityNamed_row (hx : entityNamed w brain a g = some x) : x ∈ g.entities.values ∧
    x.entityType = a.entityType ∧ w.dbLower x.canonicalName = w.dbLower a.canonicalName := by
  have hsame := List.find?_some hx
  simp only [sameEntity, Bool.and_eq_true, decide_eq_true_eq] at hsame
  exact ⟨List.mem_of_find?_eq_some hx, hsame.1.2, hsame.2⟩

variable {t t' name : String} {i j : Nat}

/-- A type and a name have one id in the event. -/
theorem UpsertRun.single (hr : UpsertRun w k now entities g ids h)
    (hfresh : ∀ x ∈ g.entities.values, x.id < g.nextId) (hi : Upserted entities ids t name i)
    (hj : Upserted entities ids t name j) : i = j := by
  obtain ⟨spec, hspec, rfl, rfl⟩ := hi
  obtain ⟨spec', hspec', htype, hname⟩ := hj
  obtain ⟨x, hx, rfl⟩ := hr.named hfresh hspec
  obtain ⟨y, hy, rfl⟩ := hr.named hfresh hspec'
  have hsame : sameEntity w k.brainId (Recorder.entityArgs k spec') =
      sameEntity w k.brainId (Recorder.entityArgs k spec) := by
    funext e
    have htype' : (Recorder.entityArgs k spec').entityType = (Recorder.entityArgs k spec).entityType :=
      htype
    have hname' : (Recorder.entityArgs k spec').canonicalName =
        (Recorder.entityArgs k spec).canonicalName := hname
    rw [sameEntity, sameEntity, htype', hname']
  rw [entityNamed, hsame] at hy
  rw [entityNamed, hy] at hx
  rw [Option.some.inj hx]

/-- An id has one type in the event. -/
theorem UpsertRun.type_eq (hr : UpsertRun w k now entities g ids h)
    (hfresh : ∀ x ∈ g.entities.values, x.id < g.nextId) {name' : String}
    (hi : Upserted entities ids t name i) (hj : Upserted entities ids t' name' i) : t = t' := by
  obtain ⟨spec, hspec, rfl, rfl⟩ := hi
  obtain ⟨spec', hspec', rfl, rfl⟩ := hj
  obtain ⟨x, hx, hxi⟩ := hr.named hfresh hspec
  obtain ⟨y, hy, hyi⟩ := hr.named hfresh hspec'
  obtain ⟨hxrow, hxtype, -⟩ := entityNamed_row hx
  obtain ⟨hyrow, hytype, -⟩ := entityNamed_row hy
  have hrow : x = y := Table.eq_of_key hxrow hyrow (hxi.trans hyi.symm)
  rw [hrow] at hxtype
  exact hxtype.symm.trans hytype

end Upserts
section Lookup

/-- The pair of an entity and its id gives a type and a name an id. -/
def Given (pairs : List (EntitySpec × Option Nat)) (entityType name : String) (id : Nat) : Prop :=
  ∃ spec, (spec, some id) ∈ pairs ∧ spec.entityType = entityType ∧ spec.canonicalName = name

/-- What the maps of `_build_entity_lookup` hold once some pairs have been gone through. -/
structure LookupOf (pairs : List (EntitySpec × Option Nat)) (l : EntityLookup) : Prop where
  typed : ∀ t name id, l.typed.lookup (t, name) = some id → Given pairs t name id
  found : ∀ t name id, Given pairs t name id → (l.typed.lookup (t, name)).isSome = true
  byName : ∀ name id, l.byName.lookup name = some id ↔
    (∃ t, Given pairs t name id) ∧ ∀ t i, Given pairs t name i → i = id
  ambiguous : ∀ name, name ∈ l.ambiguous ↔
    ∃ t i t' i', Given pairs t name i ∧ Given pairs t' name i' ∧ i ≠ i'

variable {pairs : List (EntitySpec × Option Nat)} {l : EntityLookup} {spec : EntitySpec}
  {t name : String} {id i : Nat}

theorem given_append_none : Given (pairs ++ [(spec, none)]) t name i ↔ Given pairs t name i := by
  constructor
  · rintro ⟨s, hs, ht, hn⟩
    rcases List.mem_append.mp hs with hs | hs
    · exact ⟨s, hs, ht, hn⟩
    · cases List.mem_singleton.mp hs
  · rintro ⟨s, hs, ht, hn⟩
    exact ⟨s, List.mem_append_left _ hs, ht, hn⟩

theorem given_append_some : Given (pairs ++ [(spec, some id)]) t name i ↔
    Given pairs t name i ∨ spec.entityType = t ∧ spec.canonicalName = name ∧ id = i := by
  constructor
  · rintro ⟨s, hs, ht, hn⟩
    rcases List.mem_append.mp hs with hs | hs
    · exact .inl ⟨s, hs, ht, hn⟩
    · cases List.mem_singleton.mp hs
      exact .inr ⟨ht, hn, rfl⟩
  · rintro (⟨s, hs, ht, hn⟩ | ⟨ht, hn, rfl⟩)
    · exact ⟨s, List.mem_append_left _ hs, ht, hn⟩
    · exact ⟨spec, List.mem_append_right _ (List.mem_singleton_self _), ht, hn⟩

theorem lookup_filter_ne (names : List (String × Nat)) (name n : String) :
    (names.filter (fun p => p.1 ≠ name)).lookup n = if n = name then none else names.lookup n := by
  induction names with
  | nil => simp
  | cons p rest ih =>
    obtain ⟨m, v⟩ := p
    by_cases hm : m = name
    · rw [List.filter_cons_of_neg (by simpa using hm), ih, List.lookup_cons]
      by_cases hn : n = name
      · rw [if_pos hn, if_pos hn]
      · have hne : (n == m) = false := by
          rw [hm]
          exact beq_false_of_ne hn
        rw [if_neg hn, if_neg hn, hne]
    · rw [List.filter_cons_of_pos (by simpa using hm), List.lookup_cons, ih, List.lookup_cons]
      by_cases hn : n = name
      · have hne : (n == m) = false := by
          rw [hn]
          exact beq_false_of_ne (Ne.symm hm)
        rw [if_pos hn, if_pos hn, hne]
      · rw [if_neg hn, if_neg hn]

theorem LookupOf.congr {pairs' : List (EntitySpec × Option Nat)} (hl : LookupOf pairs l)
    (hg : ∀ t name i, Given pairs' t name i ↔ Given pairs t name i) : LookupOf pairs' l := by
  constructor
  · intro t name id h
    exact (hg t name id).mpr (hl.typed t name id h)
  · intro t name id h
    exact hl.found t name id ((hg t name id).mp h)
  · intro name id
    simp only [hg]
    exact hl.byName name id
  · intro name
    simp only [hg]
    exact hl.ambiguous name

/-- A name that is not ambiguous has at most one id, and `by_name` has that one. -/
theorem LookupOf.not_ambiguous (hl : LookupOf pairs l) (hname : name ∉ l.ambiguous)
    (h : Given pairs t name i) : l.byName.lookup name = some i := by
  apply (hl.byName name i).mpr
  refine ⟨⟨t, h⟩, ?_⟩
  intro t' i' h'
  by_contra hne
  exact hname ((hl.ambiguous name).mpr ⟨t', i', t, i, h', h, hne⟩)

/-- The fields of the maps about the other names do not change with a new pair. -/
theorem given_append_other {n : String} (hn : n ≠ spec.canonicalName) :
    Given (pairs ++ [(spec, some id)]) t n i ↔ Given pairs t n i := by
  rw [given_append_some]
  constructor
  · rintro (h | ⟨-, hname, -⟩)
    · exact h
    · exact absurd hname.symm hn
  · exact .inl

/-- The same for `typed`, whatever becomes of the names. -/
theorem LookupOf.typed_add (hl : LookupOf pairs l) (spec : EntitySpec) (id : Nat) :
    (∀ t name i, (((spec.entityType, spec.canonicalName), id) :: l.typed).lookup (t, name) = some i →
      Given (pairs ++ [(spec, some id)]) t name i) ∧
    ∀ t name i, Given (pairs ++ [(spec, some id)]) t name i →
      ((((spec.entityType, spec.canonicalName), id) :: l.typed).lookup (t, name)).isSome = true := by
  constructor
  · intro t name i h
    rw [List.lookup_cons] at h
    by_cases heq : (t, name) = (spec.entityType, spec.canonicalName)
    · rw [beq_iff_eq.mpr heq] at h
      obtain ⟨rfl, rfl⟩ := Prod.mk.inj heq
      exact given_append_some.mpr (.inr ⟨rfl, rfl, Option.some.inj h⟩)
    · rw [beq_false_of_ne heq] at h
      exact given_append_some.mpr (.inl (hl.typed t name i h))
  · intro t name i h
    rw [List.lookup_cons]
    by_cases heq : (t, name) = (spec.entityType, spec.canonicalName)
    · rw [beq_iff_eq.mpr heq]
      rfl
    · rw [beq_false_of_ne heq]
      rcases given_append_some.mp h with h | ⟨rfl, rfl, -⟩
      · exact hl.found t name i h
      · exact absurd rfl heq

/-- The maps after a new pair, from what they hold of its name. -/
theorem LookupOf.add_some (hl : LookupOf pairs l) {l' : EntityLookup}
    (htyped : l'.typed = ((spec.entityType, spec.canonicalName), id) :: l.typed)
    (hother : ∀ n, n ≠ spec.canonicalName → l'.byName.lookup n = l.byName.lookup n ∧
      (n ∈ l'.ambiguous ↔ n ∈ l.ambiguous))
    (hname : ∀ i, l'.byName.lookup spec.canonicalName = some i ↔
      i = id ∧ ∀ t j, Given pairs t spec.canonicalName j → j = id)
    (hambiguous : spec.canonicalName ∈ l'.ambiguous ↔
      spec.canonicalName ∈ l.ambiguous ∨ ∃ t j, Given pairs t spec.canonicalName j ∧ j ≠ id) :
    LookupOf (pairs ++ [(spec, some id)]) l' := by
  have hnew : Given (pairs ++ [(spec, some id)]) spec.entityType spec.canonicalName id :=
    given_append_some.mpr (.inr ⟨rfl, rfl, rfl⟩)
  constructor
  · rw [htyped]
    exact (hl.typed_add spec id).1
  · rw [htyped]
    exact (hl.typed_add spec id).2
  · intro n i
    by_cases hn : n = spec.canonicalName
    · subst hn
      rw [hname]
      constructor
      · rintro ⟨rfl, hall⟩
        refine ⟨⟨_, hnew⟩, ?_⟩
        intro t j hj
        rcases given_append_some.mp hj with hj | ⟨-, -, rfl⟩
        · exact hall t j hj
        · rfl
      · rintro ⟨-, hall⟩
        have hid := hall _ _ hnew
        refine ⟨hid.symm, ?_⟩
        intro t j hj
        exact (hall t j (given_append_some.mpr (.inl hj))).trans hid.symm
    · rw [(hother n hn).1, hl.byName]
      simp only [given_append_other hn]
  · intro n
    by_cases hn : n = spec.canonicalName
    · subst hn
      rw [hambiguous, hl.ambiguous]
      constructor
      · rintro (⟨t, i, t', i', hi, hi', hne⟩ | ⟨t, j, hj, hne⟩)
        · exact ⟨t, i, t', i', given_append_some.mpr (.inl hi), given_append_some.mpr (.inl hi'), hne⟩
        · exact ⟨t, j, _, id, given_append_some.mpr (.inl hj), hnew, hne⟩
      · rintro ⟨t, i, t', i', hi, hi', hne⟩
        rcases given_append_some.mp hi with hi | ⟨-, -, rfl⟩
        · rcases given_append_some.mp hi' with hi' | ⟨-, -, rfl⟩
          · exact .inl ⟨t, i, t', i', hi, hi', hne⟩
          · exact .inr ⟨t, i, hi, hne⟩
        · rcases given_append_some.mp hi' with hi' | ⟨-, -, rfl⟩
          · exact .inr ⟨t', i', hi', hne.symm⟩
          · exact absurd rfl hne
    · rw [(hother n hn).2, hl.ambiguous]
      simp only [given_append_other hn]

theorem LookupOf.add (hl : LookupOf pairs l) (p : EntitySpec × Option Nat) :
    LookupOf (pairs ++ [p]) (l.add p.1 p.2) := by
  obtain ⟨spec, answer⟩ := p
  cases answer with
  | none => exact hl.congr (fun _ _ _ => given_append_none)
  | some id =>
    rw [EntityLookup.add]
    by_cases hamb : spec.canonicalName ∈ l.ambiguous
    · rw [if_pos (List.contains_iff_mem.mpr hamb)]
      apply hl.add_some
      · rfl
      · exact fun _ _ => ⟨rfl, Iff.rfl⟩
      · intro i
        obtain ⟨t, j, t', j', hj, hj', hne⟩ := (hl.ambiguous _).mp hamb
        constructor
        · intro hi
          have hall := ((hl.byName _ i).mp hi).2
          exact absurd ((hall t j hj).trans (hall t' j' hj').symm) hne
        · rintro ⟨-, hall⟩
          exact absurd ((hall t j hj).trans (hall t' j' hj').symm) hne
      · exact ⟨.inl, fun _ => hamb⟩
    · rw [if_neg (fun h => hamb (List.contains_iff_mem.mp h))]
      cases hprior : l.byName.lookup spec.canonicalName with
      | none =>
        have hno : ∀ t j, ¬ Given pairs t spec.canonicalName j := by
          intro t j hj
          rw [hl.not_ambiguous hamb hj] at hprior
          cases hprior
        apply hl.add_some
        · rfl
        · intro n hn
          refine ⟨?_, Iff.rfl⟩
          rw [List.lookup_cons, beq_false_of_ne hn]
        · intro i
          rw [List.lookup_cons, beq_iff_eq.mpr rfl]
          constructor
          · intro hi
            exact ⟨(Option.some.inj hi).symm, fun t j hj => absurd hj (hno t j)⟩
          · rintro ⟨rfl, -⟩
            rfl
        · exact ⟨.inl, fun h => h.elim (fun h => h) (fun ⟨t, j, hj, _⟩ => absurd hj (hno t j))⟩
      | some prior =>
        obtain ⟨⟨t, ht⟩, hall⟩ := (hl.byName _ prior).mp hprior
        by_cases hid : prior = id
        · subst hid
          simp only [ne_eq, not_true_eq_false, if_false]
          apply hl.add_some
          · rfl
          · exact fun _ _ => ⟨rfl, Iff.rfl⟩
          · intro i
            rw [hprior]
            exact ⟨fun hi => ⟨(Option.some.inj hi).symm, hall⟩, fun hi => congrArg some hi.1.symm⟩
          · exact ⟨.inl, fun h => h.elim (fun h => h) (fun ⟨t, j, hj, hne⟩ => absurd (hall t j hj) hne)⟩
        · simp only [ne_eq, hid, not_false_eq_true, if_true]
          apply hl.add_some
          · rfl
          · intro n hn
            refine ⟨?_, ?_⟩
            · have hkept := lookup_filter_ne l.byName spec.canonicalName n
              rw [if_neg hn] at hkept
              exact hkept
            · rw [List.mem_cons]
              exact ⟨fun h => h.resolve_left hn, .inr⟩
          · intro i
            have hgone := lookup_filter_ne l.byName spec.canonicalName spec.canonicalName
            rw [if_pos rfl] at hgone
            constructor
            · intro hi
              rw [show (l.byName.filter (fun p => p.1 ≠ spec.canonicalName)).lookup
                spec.canonicalName = some i from hi] at hgone
              cases hgone
            · rintro ⟨-, hsame⟩
              exact absurd (hsame t prior ht) hid
          · exact ⟨fun _ => .inr ⟨t, prior, ht, hid⟩, fun _ => List.mem_cons_self⟩

theorem lookupOf_foldl (rest : List (EntitySpec × Option Nat)) (hl : LookupOf pairs l) :
    LookupOf (pairs ++ rest) (rest.foldl (fun l p => l.add p.1 p.2) l) := by
  induction rest generalizing pairs l with
  | nil =>
    rw [List.append_nil]
    exact hl
  | cons p rest ih =>
    have hrest := ih (hl.add p)
    rw [List.append_assoc] at hrest
    exact hrest

theorem lookupOf_build (entities : List EntitySpec) (ids : List (Option Nat)) :
    LookupOf (entities.zip ids) (buildEntityLookup entities ids) := by
  have hempty : LookupOf [] {} := by
    have hnone : ∀ t name id, ¬ Given [] t name id := by
      rintro t name id ⟨s, hs, -⟩
      exact List.not_mem_nil hs
    constructor
    · intro t name id h
      cases h
    · intro t name id h
      exact absurd h (hnone t name id)
    · intro name id
      constructor
      · intro h
        cases h
      · rintro ⟨⟨t, h⟩, -⟩
        exact absurd h (hnone t name id)
    · intro name
      constructor
      · intro h
        exact absurd h List.not_mem_nil
      · rintro ⟨t, i, -, -, h, -⟩
        exact absurd h (hnone t name i)
  exact lookupOf_foldl (entities.zip ids) hempty

end Lookup
section Resolution
variable {w : GraphWorld} {k : RecorderConfig} {now : Stamp} {g h : Graph}
  {entities : List EntitySpec} {ids : List (Option Nat)} {n : EndpointName} {u : IdText}

/-- What the maps answer for the name of an endpoint. -/
def EntityLookup.answer (l : EntityLookup) : EndpointName → Option IdText
  | .id t => some t
  | .typed entityType name => (l.typed.lookup (entityType, name)).map .uuid
  | .bare name => (l.byName.lookup name).map .uuid
  | .nothing => none

theorem resolveEdgeEndpoint_eq (l : EntityLookup) (p : Endpoint) :
    resolveEdgeEndpoint l p = l.answer p.named := by
  unfold resolveEdgeEndpoint Endpoint.named
  by_cases hid : idGiven p.entityId = true
  · rw [if_pos hid, if_pos hid]
    cases hp : p.entityId with
    | none =>
      rw [hp] at hid
      cases hid
    | some t => rfl
  · rw [if_neg hid, if_neg hid]
    cases p.ref with
    | some ref =>
      by_cases hname : (refToLookup ref).2 = ""
      · simp [hname, EntityLookup.answer]
      · by_cases htype : (refToLookup ref).1 = ""
        · simp [hname, htype, EntityLookup.answer]
        · simp [hname, htype, EntityLookup.answer]
    | none =>
      cases p.key with
      | none => rfl
      | some name =>
        by_cases hname : name = ""
        · simp [hname, EntityLookup.answer]
        · simp [hname, EntityLookup.answer]

theorem answer_of_meant (hr : UpsertRun w k now entities g ids h)
    (hfresh : ∀ x ∈ g.entities.values, x.id < g.nextId) (hm : Meant entities ids n u) :
    (buildEntityLookup entities ids).answer n = some u := by
  have hl := lookupOf_build entities ids
  cases n with
  | id t => exact congrArg some hm.symm
  | nothing => exact hm.elim
  | typed t name =>
    obtain ⟨id, hid, rfl⟩ := hm
    obtain ⟨j, hj⟩ := Option.isSome_iff_exists.mp (hl.found t name id hid)
    rw [EntityLookup.answer, hj, hr.single hfresh (hl.typed t name j hj) hid]
    rfl
  | bare name =>
    obtain ⟨id, ⟨t, hid, hsole⟩, rfl⟩ := hm
    have hlookup : (buildEntityLookup entities ids).byName.lookup name = some id := by
      apply (hl.byName name id).mpr
      refine ⟨⟨t, hid⟩, ?_⟩
      rintro t' i ⟨spec, hspec, rfl, hname⟩
      have htype := hsole spec (List.of_mem_zip hspec).1 hname
      exact hr.single hfresh ⟨spec, hspec, htype, hname⟩ hid
    rw [EntityLookup.answer, hlookup]
    rfl

/-- An answer is the one meant, or the name has a survivor. -/
theorem meant_or_survivor (hr : UpsertRun w k now entities g ids h)
    (hfresh : ∀ x ∈ g.entities.values, x.id < g.nextId)
    (ha : (buildEntityLookup entities ids).answer n = some u) :
    Meant entities ids n u ∨ Survivor entities ids n := by
  have hl := lookupOf_build entities ids
  cases n with
  | id t => exact .inl (Option.some.inj ha).symm
  | nothing => cases ha
  | typed t name =>
    obtain ⟨id, hid, rfl⟩ := Option.map_eq_some_iff.mp ha
    exact .inl ⟨id, hl.typed t name id hid, rfl⟩
  | bare name =>
    obtain ⟨id, hid, rfl⟩ := Option.map_eq_some_iff.mp ha
    obtain ⟨⟨t, spec, hspec, rfl, hname⟩, hall⟩ := (hl.byName name id).mp hid
    by_cases hsole : ∀ s ∈ entities, s.canonicalName = name → s.entityType = spec.entityType
    · exact .inl ⟨id, ⟨_, ⟨spec, hspec, rfl, hname⟩, hsole⟩, rfl⟩
    · right
      refine ⟨⟨_, id, ⟨spec, hspec, rfl, hname⟩, ?_⟩, ?_⟩
      · intro t i hi
        have hid' := hall t i hi
        subst hid'
        exact hr.type_eq hfresh hi ⟨spec, hspec, rfl, hname⟩
      · push Not at hsole
        obtain ⟨s, hs, hsname, hstype⟩ := hsole
        exact ⟨s, hs, spec, (List.of_mem_zip hspec).1, hsname, hname, hstype⟩

/-- A survivor is taken for the entity of its name, which is none. -/
theorem Survivor.answered (hs : Survivor entities ids n) (hr : UpsertRun w k now entities g ids h)
    (hfresh : ∀ x ∈ g.entities.values, x.id < g.nextId) :
    (∃ u, (buildEntityLookup entities ids).answer n = some u) ∧ ¬ Resolvable entities ids n := by
  cases n with
  | id t => exact hs.elim
  | nothing => exact hs.elim
  | typed t name => exact hs.elim
  | bare name =>
    obtain ⟨⟨t, id, hid, htypes⟩, s, hs, s', hs', hname, hname', hne⟩ := hs
    constructor
    · refine ⟨.uuid id, ?_⟩
      have hlookup : (buildEntityLookup entities ids).byName.lookup name = some id := by
        apply ((lookupOf_build entities ids).byName name id).mpr
        refine ⟨⟨t, hid⟩, ?_⟩
        intro t' i hi
        have htype := htypes t' i hi
        subst htype
        exact hr.single hfresh hi hid
      rw [EntityLookup.answer, hlookup]
      rfl
    · rintro ⟨u, id', ⟨t', -, hsole⟩, -⟩
      exact hne ((hsole s hs hname).trans (hsole s' hs' hname').symm)

end Resolution
section Edges
variable {w : GraphWorld} {k : RecorderConfig} {now : Stamp} {g h : Graph} {l : EntityLookup}
  {a : EdgeArgs} {c : ℚ} {id : Nat} {edges : List EdgeSpec} {edgeIds : List (Option Nat)}
  {triple : String × Nat × String × Nat}

theorem EdgeWritten.edges_drawn {brain : String} (hw : EdgeWritten w brain now a c g id h)
    (hfresh : ∀ e ∈ g.edges.values, e.id < g.nextId) : ∀ e ∈ h.edges.values, e.id < h.nextId := by
  cases hw with
  | debounced => exact hfresh
  | @reinforced s o e newS newD hs ho he =>
    intro x hx
    rcases Table.mem_set hx with rfl | hx
    · exact hfresh e (activeEdge_triple he).1
    · exact hfresh x hx
  | @inserted s o =>
    intro x hx
    rcases Table.mem_set hx with rfl | hx
    · exact Nat.lt_succ_self g.nextId
    · exact Nat.lt_succ_of_lt (hfresh x hx)

theorem EdgeWritten.entities {brain : String} (hw : EdgeWritten w brain now a c g id h) :
    h.entities = g.entities := by
  cases hw <;> rfl

/-- An active edge of a triple stays one under its id. -/
theorem EdgeWritten.keeps_carried {brain : String} (hw : EdgeWritten w brain now a c g id h)
    (hfresh : ∀ e ∈ g.edges.values, e.id < g.nextId) {i : Nat} (hi : Carries g i triple) :
    Carries h i triple := by
  obtain ⟨x, hx, hactive, htriple⟩ := hi
  have hid := Table.key_of_get? hx
  subst hid
  obtain ⟨f, hf, ht⟩ := hw.stays hx (hfresh x (Table.mem_of_get? hx))
  exact ⟨f, hf, ht.status.trans hactive, ht.triple.trans htriple⟩

/-- What one turn of the loop comes to. -/
theorem recordEdge_cases {spec : EdgeSpec} {answer : Option Nat}
    (hr : Recorder.upsertEdge w k now l spec g = (.ok answer, h)) :
    (l.answer spec.subject.named = none ∨ l.answer spec.object.named = none) ∧ answer = none ∧ h = g ∨
    ∃ s o id, l.answer spec.subject.named = some s ∧ l.answer spec.object.named = some o ∧
      answer = some id ∧ EdgeWritten w k.brainId now (Recorder.edgeArgs k spec s o)
        (Recorder.edgeArgs k spec s o).confidence g id h := by
  rw [Recorder.upsertEdge, resolveEdgeEndpoint_eq, resolveEdgeEndpoint_eq] at hr
  cases hs : l.answer spec.subject.named with
  | none =>
    rw [hs] at hr
    cases hr
    exact .inl ⟨.inl rfl, rfl, rfl⟩
  | some s =>
    cases ho : l.answer spec.object.named with
    | none =>
      rw [hs, ho] at hr
      cases hr
      exact .inl ⟨.inr rfl, rfl, rfl⟩
    | some o =>
      rw [hs, ho] at hr
      obtain ⟨id, u, hwrite, hend⟩ := Prog.bind_ok hr
      cases hend
      exact .inr ⟨s, o, id, rfl, rfl, rfl, Recorder.writeEdge_writes hwrite⟩

/-- The edges of the loop keep what was there before it. -/
theorem upsertEdges_keeps (hr : Recorder.upsertEdges w k now l edges g = (.ok edgeIds, h))
    (hfresh : ∀ e ∈ g.edges.values, e.id < g.nextId) :
    h.entities = g.entities ∧ ∀ i triple, Carries g i triple → Carries h i triple := by
  induction edges generalizing g edgeIds with
  | nil =>
    cases hr
    exact ⟨rfl, fun _ _ hi => hi⟩
  | cons spec rest ih =>
    obtain ⟨answer, others, u, hfirst, hrest⟩ := Prog.mapEach_ok hr
    rcases recordEdge_cases hfirst with ⟨-, -, rfl⟩ | ⟨s, o, id, -, -, -, hw⟩
    · exact ih hrest hfresh
    · obtain ⟨hentities, hcarries⟩ := ih hrest (hw.edges_drawn hfresh)
      refine ⟨hentities.trans hw.entities, ?_⟩
      intro i triple hi
      exact hcarries i triple (hw.keeps_carried hfresh hi)

/-- What the loop answers for an edge, by its index. -/
def EdgeAnswered (k : RecorderConfig) (l : EntityLookup) (spec : EdgeSpec) (g : Graph)
    (answer : Option (Option Nat)) : Prop :=
  (l.answer spec.subject.named = none ∨ l.answer spec.object.named = none) ∧ answer = some none ∨
    ∃ s o id, l.answer spec.subject.named = some (.uuid s) ∧
      l.answer spec.object.named = some (.uuid o) ∧ answer = some (some id) ∧
      Carries g id (k.brainId, s, spec.predicate, o)

theorem upsertEdges_answers (hr : Recorder.upsertEdges w k now l edges g = (.ok edgeIds, h))
    (hfresh : ∀ e ∈ g.edges.values, e.id < g.nextId) : edgeIds.length = edges.length ∧
    ∀ (i : Nat) spec, edges[i]? = some spec → EdgeAnswered k l spec h edgeIds[i]? := by
  induction edges generalizing g edgeIds with
  | nil =>
    cases hr
    exact ⟨rfl, fun i spec hi => by cases hi⟩
  | cons spec rest ih =>
    obtain ⟨answer, others, u, hfirst, hrest⟩ := Prog.mapEach_ok hr
    have hids : edgeIds = answer :: others := by
      have hrun : Recorder.upsertEdges w k now l (spec :: rest) g = (.ok (answer :: others), h) := by
        rw [Recorder.upsertEdges, Prog.mapEach, Prog.bind_run_ok hfirst, Prog.bind_run_ok hrest]
        rfl
      rw [hr] at hrun
      exact Except.ok.inj (Prod.mk.inj hrun).1
    subst hids
    have hhead : EdgeAnswered k l spec h (some answer) ∧
        (∀ e ∈ u.edges.values, e.id < u.nextId) := by
      rcases recordEdge_cases hfirst with ⟨hnone, rfl, rfl⟩ | ⟨s, o, id, hs, ho, rfl, hw⟩
      · exact ⟨.inl ⟨hnone, rfl⟩, hfresh⟩
      · have hdrawn := hw.edges_drawn hfresh
        obtain ⟨i, j, hi, hj, hcarries⟩ := hw.carries
        have hi' : s = .uuid i := hi
        have hj' : o = .uuid j := hj
        subst hi' hj'
        refine ⟨.inr ⟨i, j, id, hs, ho, rfl, ?_⟩, hdrawn⟩
        exact (upsertEdges_keeps hrest hdrawn).2 _ _ hcarries
    obtain ⟨hlength, htail⟩ := ih hrest hhead.2
    refine ⟨congrArg Nat.succ hlength, ?_⟩
    intro i spec' hi
    cases i with
    | zero =>
      rw [List.getElem?_cons_zero] at hi
      cases hi
      exact hhead.1
    | succ i =>
      rw [List.getElem?_cons_succ] at hi
      exact htail i spec' hi

theorem edgeWarning_index (l : EntityLookup) (p : EdgeSpec × Nat) (i : Nat) :
    ((if (resolveEdgeEndpoint l p.1.subject).isNone then some (RecordWarning.unresolvedSubject p.2)
      else if (resolveEdgeEndpoint l p.1.object).isNone then some (.unresolvedObject p.2)
      else none).map (fun r => decide (r.edgeIndex = some i))).getD false =
    decide (p.2 = i ∧ (l.answer p.1.subject.named = none ∨ l.answer p.1.object.named = none)) := by
  rw [resolveEdgeEndpoint_eq, resolveEdgeEndpoint_eq]
  cases l.answer p.1.subject.named with
  | none => simp [RecordWarning.edgeIndex]
  | some s =>
    cases l.answer p.1.object.named with
    | none => simp [RecordWarning.edgeIndex]
    | some o => simp

/-- An index stands once in a numbered list. -/
theorem countP_zipIdx {α : Type} (bad : α → Prop) [DecidablePred bad] {l : List α} {i n : Nat} {x : α}
    (hi : l[i]? = some x) :
    (l.zipIdx n).countP (fun p => p.2 = n + i ∧ bad p.1) = if bad x then 1 else 0 := by
  induction l generalizing i n with
  | nil => cases hi
  | cons y rest ih =>
    rw [List.zipIdx_cons, List.countP_cons]
    cases i with
    | zero =>
      rw [List.getElem?_cons_zero] at hi
      cases hi
      have hrest : (rest.zipIdx (n + 1)).countP (fun p => p.2 = n + 0 ∧ bad p.1) = 0 := by
        apply List.countP_eq_zero.mpr
        intro p hp
        have hle := (List.mem_zipIdx hp).1
        simp only [decide_eq_true_eq, not_and]
        omega
      rw [hrest]
      simp
    | succ i =>
      rw [List.getElem?_cons_succ] at hi
      have hrest := ih (n := n + 1) hi
      have hindex : n + (i + 1) = n + 1 + i := by omega
      rw [hindex, hrest]
      have hhead : ¬ n = n + 1 + i := by omega
      simp [hhead]

/-- The loop gives each edge that it cannot resolve one warning, and the others none. -/
theorem countP_edgeWarnings {i : Nat} {spec : EdgeSpec} (hi : edges[i]? = some spec) :
    (Recorder.edgeWarnings l edges).countP (fun r => r.edgeIndex = some i) =
      if l.answer spec.subject.named = none ∨ l.answer spec.object.named = none then 1 else 0 := by
  rw [Recorder.edgeWarnings, List.countP_filterMap]
  have hcount := countP_zipIdx (n := 0) (fun s : EdgeSpec =>
    l.answer s.subject.named = none ∨ l.answer s.object.named = none) hi
  rw [Nat.zero_add] at hcount
  rw [← hcount]
  congr 1
  funext p
  exact edgeWarning_index l p i

end Edges
section Exact
variable {w : GraphWorld} {k : RecorderConfig} {now : Stamp} {g h h' : Graph}
  {event : ExperienceEvent} {ids edgeIds : List (Option Nat)} {n : EndpointName}

theorem answer_none_iff (hr : UpsertRun w k now event.entities g ids h)
    (hfresh : ∀ x ∈ g.entities.values, x.id < g.nextId) :
    (buildEntityLookup event.entities ids).answer n = none ↔
      ¬ Resolvable event.entities ids n ∧ ¬ Survivor event.entities ids n := by
  constructor
  · intro hnone
    constructor
    · rintro ⟨u, hu⟩
      rw [answer_of_meant hr hfresh hu] at hnone
      cases hnone
    · intro hs
      obtain ⟨⟨u, hu⟩, -⟩ := hs.answered hr hfresh
      rw [hu] at hnone
      cases hnone
  · rintro ⟨hno, hns⟩
    by_contra hsome
    obtain ⟨u, hu⟩ := Option.ne_none_iff_exists'.mp hsome
    rcases meant_or_survivor hr hfresh hu with hm | hs
    · exact hno ⟨u, hm⟩
    · exact hns hs

/-- The edges of an event connect what they name, unless one takes for the entity of a bare name
the only one of its entities whose upsert did not fail. -/
theorem upsertEdges_asMeant_iff (hfresh : ∀ x ∈ g.entities.values, x.id < g.nextId)
    (hedges : ∀ e ∈ g.edges.values, e.id < g.nextId)
    (hr : UpsertRun w k now event.entities g ids h)
    (hwrite : Recorder.upsertEdges w k now (buildEntityLookup event.entities ids) event.edges h =
      (.ok edgeIds, h')) :
    EdgesAsMeant w k.brainId event ids edgeIds
        (Recorder.edgeWarnings (buildEntityLookup event.entities ids) event.edges) h' ↔
      ∀ spec ∈ event.edges, ¬ LinksSurvivor event.entities ids spec := by
  have hdrawn : ∀ e ∈ h.edges.values, e.id < h.nextId := by
    intro e he
    rw [hr.edges.1] at he
    exact (hedges e he).trans_le hr.edges.2
  obtain ⟨hlength, hanswers⟩ := upsertEdges_answers hwrite hdrawn
  constructor
  · intro hmeant spec hspec hlinks
    obtain ⟨i, hi⟩ := List.mem_iff_getElem?.mp hspec
    have hsome : ∀ n, Resolvable event.entities ids n ∨ Survivor event.entities ids n →
        (buildEntityLookup event.entities ids).answer n ≠ none := by
      intro n hn hnone
      obtain ⟨hno, hns⟩ := (answer_none_iff hr hfresh).mp hnone
      exact hn.elim hno hns
    have hboth : (Resolvable event.entities ids spec.subject.named ∨
        Survivor event.entities ids spec.subject.named) ∧
        (Resolvable event.entities ids spec.object.named ∨
          Survivor event.entities ids spec.object.named) := by
      rcases hlinks with ⟨hs, ho⟩ | ⟨hs, ho⟩
      · exact ⟨.inr hs, ho⟩
      · exact ⟨.inl hs, .inr ho⟩
    rcases hanswers i spec hi with ⟨hnone, -⟩ | ⟨s, o, id, -, -, hid, -⟩
    · exact hnone.elim (hsome _ hboth.1) (hsome _ hboth.2)
    · obtain ⟨s', o', hs', ho', -⟩ := hmeant.written i spec id hi hid
      rcases hlinks with ⟨hs, -⟩ | ⟨-, ho⟩
      · exact (hs.answered hr hfresh).2 ⟨_, hs'⟩
      · exact (ho.answered hr hfresh).2 ⟨_, ho'⟩
  · intro hnever
    constructor
    · refine ⟨hr.length, ?_⟩
      intro spec id hmem
      obtain ⟨x, hx, hid⟩ := hr.named hfresh hmem
      obtain ⟨hrow, htype, hname⟩ := entityNamed_row hx
      rw [← (upsertEdges_keeps hwrite hdrawn).1] at hrow
      exact ⟨x, hrow, hid, htype, hname⟩
    · exact hlength
    · intro i spec id hi hid
      have hclean := hnever spec (List.mem_of_getElem? hi)
      rcases hanswers i spec hi with ⟨-, hskip⟩ | ⟨s, o, id', hs, ho, hid', hcarries⟩
      · rw [hid] at hskip
        cases hskip
      · rw [hid] at hid'
        cases hid'
        refine ⟨s, o, ?_, ?_, hcarries⟩
        · rcases meant_or_survivor hr hfresh hs with hm | hsurvivor
          · exact hm
          · have hobject : Resolvable event.entities ids spec.object.named ∨
                Survivor event.entities ids spec.object.named :=
              (meant_or_survivor hr hfresh ho).imp_left (fun hm => ⟨_, hm⟩)
            exact absurd (.inl ⟨hsurvivor, hobject⟩) hclean
        · rcases meant_or_survivor hr hfresh ho with hm | hsurvivor
          · exact hm
          · rcases meant_or_survivor hr hfresh hs with hm | hsubject
            · exact absurd (.inr ⟨⟨_, hm⟩, hsurvivor⟩) hclean
            · exact absurd (.inl ⟨hsubject, .inr hsurvivor⟩) hclean
    · intro i spec hi hunresolved
      have hclean := hnever spec (List.mem_of_getElem? hi)
      have hnone : (buildEntityLookup event.entities ids).answer spec.subject.named = none ∨
          (buildEntityLookup event.entities ids).answer spec.object.named = none := by
        rw [answer_none_iff hr hfresh, answer_none_iff hr hfresh]
        unfold LinksSurvivor at hclean
        tauto
      constructor
      · rcases hanswers i spec hi with ⟨-, hskip⟩ | ⟨s, o, id, hs, ho, -, -⟩
        · exact hskip
        · rw [hs, ho] at hnone
          rcases hnone with hnone | hnone
          · cases hnone
          · cases hnone
      · rw [countP_edgeWarnings hi, if_pos hnone]
    · rintro i spec hi ⟨s, hs⟩ ⟨o, ho⟩
      have hs' := answer_of_meant hr hfresh hs
      have ho' := answer_of_meant hr hfresh ho
      constructor
      · rcases hanswers i spec hi with ⟨hnone, -⟩ | ⟨s, o, id, -, -, hid, -⟩
        · rw [hs', ho'] at hnone
          rcases hnone with hnone | hnone
          · cases hnone
          · cases hnone
        · exact ⟨id, hid⟩
      · rw [countP_edgeWarnings hi, hs', ho']
        simp

end Exact
section Survivors

/-- A database that cannot store a NUL character. -/
def nulWorld : GraphWorld :=
  { GraphWorld.calm with unstorable := fun s => s.toList.contains (Char.ofNat 0) }

def entityOf (entityType canonicalName : String) : EntitySpec :=
  { entityType := entityType, canonicalName := canonicalName }

def webUsesApi : EdgeSpec where
  subject := { key := some "web" }
  object := { key := some "api" }
  predicate := "uses"

def plainEvent : ExperienceEvent where
  entities := [entityOf "service" "web", entityOf "module" "api"]
  edges := [webUsesApi]

/-- An event with two entities named `api`, one of a type that cannot be stored. -/
def twoApis : ExperienceEvent where
  entities := [entityOf "service" "web", entityOf "mod\x00ule" "api", entityOf "service" "api"]
  edges := [webUsesApi]

def afterEntities (event : ExperienceEvent) : Graph :=
  (Recorder.upsertEntities nulWorld { brainId := "main" } 0 event.entities {}).2

def afterEdges (event : ExperienceEvent) (ids : List (Option Nat)) : Graph :=
  (Recorder.upsertEdges nulWorld { brainId := "main" } 0 (buildEntityLookup event.entities ids)
    event.edges (afterEntities event)).2

theorem upsertEdges_asMeant_iff_plainEvent :
    EdgesAsMeant nulWorld "main" plainEvent [some 0, some 1] [some 2]
        (Recorder.edgeWarnings (buildEntityLookup plainEvent.entities [some 0, some 1])
          plainEvent.edges) (afterEdges plainEvent [some 0, some 1]) ↔
      ∀ spec ∈ plainEvent.edges, ¬ LinksSurvivor plainEvent.entities [some 0, some 1] spec := by
  have hentities : Recorder.upsertEntities nulWorld { brainId := "main" } 0 plainEvent.entities {} =
      (.ok [some 0, some 1], afterEntities plainEvent) :=
    Prod.ext (by decide +kernel) rfl
  exact upsertEdges_asMeant_iff (fun _ hx => absurd hx List.not_mem_nil)
    (fun _ he => absurd he List.not_mem_nil) (upsertEntities_run hentities)
    (Prod.ext (by decide +kernel) rfl)

/-- The edge goes to the `api` whose upsert did not fail. -/
theorem upsertEdges_links_survivor :
    ∃ ids h edgeIds h',
      Recorder.upsertEntities nulWorld { brainId := "main" } 0 twoApis.entities {} = (.ok ids, h) ∧
      Recorder.upsertEdges nulWorld { brainId := "main" } 0
        (buildEntityLookup twoApis.entities ids) twoApis.edges h = (.ok edgeIds, h') ∧
      ¬ EdgesAsMeant nulWorld "main" twoApis ids edgeIds
        (Recorder.edgeWarnings (buildEntityLookup twoApis.entities ids) twoApis.edges) h' := by
  refine ⟨[some 0, none, some 1], afterEntities twoApis, [some 2],
    afterEdges twoApis [some 0, none, some 1], Prod.ext (by decide +kernel) rfl,
    Prod.ext (by decide +kernel) rfl, ?_⟩
  intro hmeant
  obtain ⟨s, o, -, ho, -⟩ := hmeant.written 0 webUsesApi 2 rfl rfl
  obtain ⟨id, ⟨t, -, hsole⟩, -⟩ := ho
  have hfirst := hsole (entityOf "mod\x00ule" "api") (by simp [twoApis]) rfl
  have hsecond := hsole (entityOf "service" "api") (by simp [twoApis]) rfl
  have hne : "mod\x00ule" ≠ "service" := by decide
  exact hne (hfirst.trans hsecond.symm)

end Survivors
end TappsBrain
