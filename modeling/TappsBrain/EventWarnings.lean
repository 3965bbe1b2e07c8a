import TappsBrain.EventItems
import TappsBrain.Lib.Staged
import TappsBrain.RecordedEdges

namespace TappsBrain
open Lib
set_option autoImplicit true
set_option relaxedAutoImplicit false

/-- No id of the graph's tables is drawn again. -/
structure Graph.Drawn (g : Graph) : Prop where
  entities : ∀ x ∈ g.entities.values, x.id < g.nextId
  edges : ∀ x ∈ g.edges.values, x.id < g.nextId
  evidence : ∀ x ∈ g.evidence.values, x.id < g.nextId

/-- What is written stays written: entities under their ids, active edges and evidence. -/
structure Grows (w : GraphWorld) (brain : String) (g h : Graph) : Prop where
  named : ∀ a x, entityNamed w brain a g = some x → ∃ y, entityNamed w brain a h = some y ∧ y.id = x.id
  carried : ∀ id triple, Carries g id triple → Carries h id triple
  evidence : ∀ v ∈ g.evidence.values, v ∈ h.evidence.values
  drawn : h.Drawn

/-- The lists of an event as the caller gives them. -/
structure GivenLists where
  entities : List PyJson
  edges : List PyJson
  evidence : List PyJson

def EventCall.given (r : ItemReader) (call : EventCall) : GivenLists where
  entities := r.givenList call.entities call.entitiesJson
  edges := r.givenList call.edges call.edgesJson
  evidence := r.givenList call.evidence call.evidenceJson

/-- The lists of an event dict. -/
def givenIn (r : ItemReader) (ev : PyJson) : GivenLists where
  entities := r.givenList ((ev.get? "entities").getD .null) ""
  edges := r.givenList ((ev.get? "edges").getD .null) ""
  evidence := r.givenList ((ev.get? "evidence").getD .null) ""

/-- The items that are valid, in their order. -/
def GivenLists.event (r : ItemReader) (x : GivenLists) : ExperienceEvent where
  entities := x.entities.filterMap r.entitySpec
  edges := x.edges.filterMap r.edgeSpec
  evidence := x.evidence.filterMap r.evidenceSpec

section Resolution
variable (w : GraphWorld) (entities : List EntitySpec)

/-- The database refuses the upsert of the entity. -/
def EntitySpec.Refused (spec : EntitySpec) : Prop :=
  (w.unstorable spec.entityType || w.unstorable spec.canonicalName) = true

/-- An entity of the event has the type and the name, and the database can store it. -/
def Storable (entityType name : String) : Prop :=
  ∃ spec ∈ entities, ¬ spec.Refused w ∧ spec.entityType = entityType ∧ spec.canonicalName = name

/-- The stored entities of the event that have the name are of this type. -/
def StorableAs (name entityType : String) : Prop :=
  Storable w entities entityType name ∧ ∀ t, Storable w entities t name → t = entityType

/-- What an endpoint gives leads to one entity. -/
def EndpointName.Resolves : EndpointName → Prop
  | .id _ => True
  | .typed entityType name => Storable w entities entityType name
  | .bare name => ∃ entityType, StorableAs w entities name entityType
  | .nothing => False

/-- An edge with an end that leads to no entity, or to several. -/
def EdgeSpec.Unresolved (spec : EdgeSpec) : Prop :=
  ¬ (spec.subject.named.Resolves w entities ∧ spec.object.named.Resolves w entities)

/-- The id is the given one, or that of the entity in the graph the endpoint names. -/
def EndpointName.Denotes (brain : String) (h : Graph) : EndpointName → Nat → Prop
  | .id u, i => u = .uuid i
  | .typed entityType name, i => Storable w entities entityType name ∧
      ∃ x, entityNamed w brain { entityType := entityType, canonicalName := name } h = some x ∧ x.id = i
  | .bare name, i => ∃ entityType, StorableAs w entities name entityType ∧
      ∃ x, entityNamed w brain { entityType := entityType, canonicalName := name } h = some x ∧ x.id = i
  | .nothing, _ => False

end Resolution

/-- How many warnings name the place of a list. -/
def EventAnswer.reports (answer : EventAnswer) (kind : ItemKind) (index : Nat) : Nat :=
  answer.warnings.countP (fun v => v.kind = kind ∧ v.index = index)

/-- What a recorded event leaves: each of its entities that can be stored, each of its edges that can
be resolved and all of its evidence, under the ids of the result. -/
structure EventWritten (w : GraphWorld) (k : RecorderConfig) (event : ExperienceEvent)
    (result : ExperienceResult) (h : Graph) : Prop where
  entities : ∀ (q : Nat) spec, event.entities[q]? = some spec → ¬ spec.Refused w →
    ∃ row, result.entityIds[q]? = some (some row.id) ∧
      entityNamed w k.brainId (Recorder.entityArgs k spec) h = some row
  edges : ∀ (q : Nat) spec, event.edges[q]? = some spec → ¬ spec.Unresolved w event.entities →
    ∃ id s o, result.edgeIds[q]? = some (some id) ∧
      spec.subject.named.Denotes w event.entities k.brainId h s ∧
      spec.object.named.Denotes w event.entities k.brainId h o ∧
      Carries h id (k.brainId, s, spec.predicate, o)
  evidence : ∀ (q : Nat) spec, event.evidence[q]? = some spec →
    ∃ id edge entity, result.evidenceIds[q]? = some id ∧
      spec.args.edgeId = Option.map .uuid edge ∧ spec.args.entityId = Option.map .uuid entity ∧
      newEvidence k.brainId id edge entity { spec.args with sourceAgent := k.agentId } ∈
        h.evidence.values

/-- What the answer to an event is to be: the items that can be written are in the graph, and each
of the others has one warning at its place. -/
structure EventReported (w : GraphWorld) (k : RecorderConfig) (r : ItemReader) (x : GivenLists)
    (answer : EventAnswer) (h : Graph) : Prop where
  written : EventWritten w k (x.event r) answer.result h
  entities : ∀ (i : Nat) item, x.entities[i]? = some item →
    Dropped r.entitySpec (EntitySpec.Refused w) item → answer.reports .entity i = 1
  edges : ∀ (i : Nat) item, x.edges[i]? = some item →
    Dropped r.edgeSpec (EdgeSpec.Unresolved w (x.event r).entities) item → answer.reports .edge i = 1
  evidence : ∀ (i : Nat) item, x.evidence[i]? = some item →
    Dropped r.evidenceSpec (fun _ => False) item → answer.reports .evidence i = 1

/-- Every item is an object, and an entity whose upsert fails or an edge that is not resolved stands
behind no item of its list that fails validation. -/
structure InPlace (w : GraphWorld) (r : ItemReader) (x : GivenLists) : Prop where
  entities : WellStaged isObject r.entitySpec (EntitySpec.Refused w) x.entities
  edges : WellStaged isObject r.edgeSpec (EdgeSpec.Unresolved w (x.event r).entities) x.edges
  evidence : WellStaged isObject r.evidenceSpec (fun _ => False) x.evidence

section Growth
variable {w : GraphWorld} {k : RecorderConfig} {brain : String} {now : Stamp} {g h u : Graph}
  {id : Nat}

theorem Grows.refl (hg : g.Drawn) : Grows w brain g g :=
  ⟨fun _ x hx => ⟨x, hx, rfl⟩, fun _ _ hc => hc, fun _ hv => hv, hg⟩

theorem Grows.trans (hgh : Grows w brain g h) (hhu : Grows w brain h u) : Grows w brain g u where
  named := by
    intro a x hx
    obtain ⟨y, hy, hyx⟩ := hgh.named a x hx
    obtain ⟨z, hz, hzy⟩ := hhu.named a y hy
    exact ⟨z, hz, hzy.trans hyx⟩
  carried := fun id triple hc => hhu.carried id triple (hgh.carried id triple hc)
  evidence := fun v hv => hhu.evidence v (hgh.evidence v hv)
  drawn := hhu.drawn

/-- `Grows`, wherever no id of the graph is drawn again. -/
def Growth (w : GraphWorld) (brain : String) (g h : Graph) : Prop := g.Drawn → Grows w brain g h

theorem Growth.refl (g : Graph) : Growth w brain g g := fun hg => Grows.refl hg

theorem Growth.trans (g h u : Graph) (hgh : Growth w brain g h) (hhu : Growth w brain h u) :
    Growth w brain g u := fun hg => (hgh hg).trans (hhu (hgh hg).drawn)

theorem EntityWritten.growth {a : EntityArgs} (hw : EntityWritten w brain now a g id h) :
    Growth w brain g h := by
  intro hg
  have hnext := hw.nextId
  have hevidence : h.evidence = g.evidence := by
    cases hw with
    | enriched => rfl
    | created => rfl
  constructor
  · exact fun b x hx => hw.keeps_named hg.entities hx
  · intro i triple hc
    rw [Carries, hw.edges]
    exact hc
  · intro v hv
    rw [hevidence]
    exact hv
  · constructor
    · exact hw.drawn hg.entities
    · intro x hx
      rw [hw.edges] at hx
      have hlt := hg.edges x hx
      omega
    · intro x hx
      rw [hevidence] at hx
      have hlt := hg.evidence x hx
      omega

theorem EdgeWritten.nextId_le {a : EdgeArgs} {c : ℚ} (hw : EdgeWritten w brain now a c g id h) :
    g.nextId ≤ h.nextId := by
  cases hw with
  | debounced => exact Nat.le_refl _
  | reinforced => exact Nat.le_refl _
  | inserted => exact Nat.le_succ _

theorem EdgeWritten.growth {a : EdgeArgs} {c : ℚ} (hw : EdgeWritten w brain now a c g id h) :
    Growth w brain g h := by
  intro hg
  have hnext := hw.nextId_le
  constructor
  · intro b x hx
    refine ⟨x, ?_, rfl⟩
    rw [entityNamed, hw.entities]
    exact hx
  · exact fun i triple hc => hw.keeps_carried hg.edges hc
  · intro v hv
    rw [hw.evidence]
    exact hv
  · constructor
    · intro x hx
      rw [hw.entities] at hx
      exact (hg.entities x hx).trans_le hnext
    · exact hw.edges_drawn hg.edges
    · intro x hx
      rw [hw.evidence] at hx
      exact (hg.evidence x hx).trans_le hnext

theorem growth_attachEvidence {spec : EvidenceSpec}
    (hr : Recorder.attachEvidence w k spec g = (.ok id, h)) : Growth w brain g h := by
  intro hg
  obtain ⟨edge, entity, -, -, -, rfl⟩ := attachEvidenceRow_new hr
  constructor
  · exact fun b x hx => ⟨x, hx, rfl⟩
  · exact fun i triple hc => hc
  · intro v hv
    exact Table.mem_set_of_ne hv (Nat.ne_of_lt (hg.evidence v hv))
  · constructor
    · exact fun x hx => Nat.lt_succ_of_lt (hg.entities x hx)
    · exact fun x hx => Nat.lt_succ_of_lt (hg.edges x hx)
    · intro x hx
      rcases Table.mem_set hx with rfl | hx
      · exact Nat.lt_succ_self g.nextId
      · exact Nat.lt_succ_of_lt (hg.evidence x hx)

/-- One turn of the loop of `_upsert_entities`. -/
theorem upsertEntity_cases {spec : EntitySpec} {answer : Option Nat}
    (hr : savepoint (upsertEntityRow w k.brainId now (Recorder.entityArgs k spec)) g =
      (.ok answer, h)) :
    (spec.Refused w ∧ answer = none ∧ h = g) ∨ ¬ spec.Refused w ∧ ∃ id, answer = some id ∧
      EntityWritten w k.brainId now (Recorder.entityArgs k spec) g id h := by
  rcases hrow : upsertEntityRow w k.brainId now (Recorder.entityArgs k spec) g with ⟨e | id, t⟩
  · left
    simp only [savepoint, hrow] at hr
    cases hr
    refine ⟨?_, rfl, rfl⟩
    by_contra hno
    have hargs : ¬ (w.unstorable (Recorder.entityArgs k spec).entityType ||
        w.unstorable (Recorder.entityArgs k spec).canonicalName) = true := hno
    rw [upsertEntityRow_run hargs] at hrow
    cases hfind : g.entities.values.find?
        (sameEntity w k.brainId (Recorder.entityArgs k spec)) with
    | some old =>
      rw [hfind] at hrow
      cases hrow
    | none =>
      rw [hfind] at hrow
      cases hrow
  · right
    simp only [savepoint, hrow] at hr
    cases hr
    refine ⟨?_, id, rfl, upsertEntityRow_ok hrow⟩
    intro hrefused
    have hargs : (w.unstorable (Recorder.entityArgs k spec).entityType ||
        w.unstorable (Recorder.entityArgs k spec).canonicalName) = true := hrefused
    rw [upsertEntityRow, if_pos hargs] at hrow
    cases hrow

theorem growth_upsertEntity {spec : EntitySpec} {answer : Option Nat}
    (hr : savepoint (upsertEntityRow w k.brainId now (Recorder.entityArgs k spec)) g =
      (.ok answer, h)) : Growth w k.brainId g h := by
  rcases upsertEntity_cases hr with ⟨-, -, rfl⟩ | ⟨-, i, -, hw⟩
  · exact Growth.refl h
  · exact hw.growth

theorem growth_upsertEdge {l : EntityLookup} {spec : EdgeSpec} {answer : Option Nat}
    (hr : Recorder.upsertEdge w k now l spec g = (.ok answer, h)) : Growth w k.brainId g h := by
  rcases recordEdge_cases hr with ⟨-, -, rfl⟩ | ⟨s, o, i, -, -, -, hw⟩
  · exact Growth.refl h
  · exact hw.growth

end Growth
section Endpoints
variable {w : GraphWorld} {k : RecorderConfig} {now : Stamp} {g h : Graph}
  {entities : List EntitySpec} {ids : List (Option Nat)} {n : EndpointName} {t name : String} {i : Nat}

/-- What the loop of `_upsert_entities` answers for an entity, by its index. -/
theorem upsertEntities_at (hr : Recorder.upsertEntities w k now entities g = (.ok ids, h)) :
    Growth w k.brainId g h ∧ ids.length = entities.length ∧
      ∀ (q : Nat) spec, entities[q]? = some spec → spec.Refused w ∧ ids[q]? = some none ∨
        ¬ spec.Refused w ∧ ∃ id u v, ids[q]? = some (some id) ∧ Growth w k.brainId g u ∧
          EntityWritten w k.brainId now (Recorder.entityArgs k spec) u id v ∧ Growth w k.brainId v h := by
  obtain ⟨hgrowth, hlength, hturns⟩ := Prog.mapEach_turn (R := Growth w k.brainId) Growth.refl
    Growth.trans (fun spec g b u hb => growth_upsertEntity hb) hr
  refine ⟨hgrowth, hlength, ?_⟩
  intro q spec hq
  obtain ⟨answer, u, v, hanswer, hu, hrun, hv⟩ := hturns q spec hq
  rcases upsertEntity_cases hrun with ⟨hrefused, rfl, -⟩ | ⟨hkept, id, rfl, hw⟩
  · exact .inl ⟨hrefused, hanswer⟩
  · exact .inr ⟨hkept, id, u, v, hanswer, hu, hw, hv⟩

/-- Some upsert returned an id for a type and a name just if the database can store them. -/
theorem exists_given_iff (hr : Recorder.upsertEntities w k now entities g = (.ok ids, h)) :
    (∃ id, Given (entities.zip ids) t name id) ↔ Storable w entities t name := by
  obtain ⟨-, -, hat⟩ := upsertEntities_at hr
  constructor
  · rintro ⟨id, spec, hmem, ht, hname⟩
    obtain ⟨q, hq⟩ := List.mem_iff_getElem?.mp hmem
    obtain ⟨hspec, hid⟩ := List.getElem?_zip_eq_some.mp hq
    rcases hat q spec hspec with ⟨-, hnone⟩ | ⟨hkept, -⟩
    · rw [hid] at hnone
      cases hnone
    · exact ⟨spec, List.mem_of_getElem? hspec, hkept, ht, hname⟩
  · rintro ⟨spec, hmem, hkept, ht, hname⟩
    obtain ⟨q, hq⟩ := List.mem_iff_getElem?.mp hmem
    rcases hat q spec hq with ⟨hrefused, -⟩ | ⟨-, id, -, -, hid, -⟩
    · exact absurd hrefused hkept
    · exact ⟨id, spec, List.mem_of_getElem? (List.getElem?_zip_eq_some.mpr ⟨hq, hid⟩), ht, hname⟩

theorem storableAs_of_byName (hr : Recorder.upsertEntities w k now entities g = (.ok ids, h))
    (hg : g.Drawn) (hi : (buildEntityLookup entities ids).byName.lookup name = some i) :
    ∃ t, StorableAs w entities name t ∧ Given (entities.zip ids) t name i := by
  obtain ⟨⟨t, ht⟩, hall⟩ := ((lookupOf_build entities ids).byName name i).mp hi
  refine ⟨t, ⟨(exists_given_iff hr).mp ⟨i, ht⟩, ?_⟩, ht⟩
  intro t' ht'
  obtain ⟨j, hj⟩ := (exists_given_iff hr).mpr ht'
  have hji := hall t' j hj
  subst hji
  exact (upsertEntities_run hr).type_eq hg.entities hj ht

theorem byName_of_storableAs (hr : Recorder.upsertEntities w k now entities g = (.ok ids, h))
    (hg : g.Drawn) (ht : StorableAs w entities name t) :
    ∃ i, (buildEntityLookup entities ids).byName.lookup name = some i := by
  obtain ⟨i, hi⟩ := (exists_given_iff hr).mpr ht.1
  refine ⟨i, ((lookupOf_build entities ids).byName name i).mpr ⟨⟨t, hi⟩, ?_⟩⟩
  intro t' j hj
  have htype := ht.2 t' ((exists_given_iff hr).mp ⟨j, hj⟩)
  subst htype
  exact (upsertEntities_run hr).single hg.entities hj hi

/-- The maps of the event answer for the endpoints that lead to one entity. -/
theorem answer_isSome_iff (hr : Recorder.upsertEntities w k now entities g = (.ok ids, h))
    (hg : g.Drawn) :
    (∃ u, (buildEntityLookup entities ids).answer n = some u) ↔ n.Resolves w entities := by
  have hl := lookupOf_build entities ids
  cases n with
  | id u => exact ⟨fun _ => trivial, fun _ => ⟨u, rfl⟩⟩
  | nothing =>
    constructor
    · rintro ⟨u, hu⟩
      cases hu
    · intro hn
      exact hn.elim
  | typed t name =>
    constructor
    · rintro ⟨u, hu⟩
      obtain ⟨i, hi, -⟩ := Option.map_eq_some_iff.mp hu
      exact (exists_given_iff hr).mp ⟨i, hl.typed t name i hi⟩
    · intro hn
      obtain ⟨i, hi⟩ := (exists_given_iff hr).mpr hn
      obtain ⟨j, hj⟩ := Option.isSome_iff_exists.mp (hl.found t name i hi)
      exact ⟨.uuid j, Option.map_eq_some_iff.mpr ⟨j, hj, rfl⟩⟩
  | bare name =>
    constructor
    · rintro ⟨u, hu⟩
      obtain ⟨i, hi, -⟩ := Option.map_eq_some_iff.mp hu
      obtain ⟨t, ht, -⟩ := storableAs_of_byName hr hg hi
      exact ⟨t, ht⟩
    · rintro ⟨t, ht⟩
      obtain ⟨i, hi⟩ := byName_of_storableAs hr hg ht
      exact ⟨.uuid i, Option.map_eq_some_iff.mpr ⟨i, hi, rfl⟩⟩

theorem named_of_given (hr : Recorder.upsertEntities w k now entities g = (.ok ids, h))
    (hg : g.Drawn) (hi : Given (entities.zip ids) t name i) :
    ∃ x, entityNamed w k.brainId { entityType := t, canonicalName := name } h = some x ∧ x.id = i := by
  obtain ⟨spec, hmem, rfl, rfl⟩ := hi
  exact (upsertEntities_run hr).named hg.entities hmem

theorem denotes_of_answer (hr : Recorder.upsertEntities w k now entities g = (.ok ids, h))
    (hg : g.Drawn) (ha : (buildEntityLookup entities ids).answer n = some (.uuid i)) :
    n.Denotes w entities k.brainId h i := by
  have hl := lookupOf_build entities ids
  cases n with
  | id u => exact Option.some.inj ha
  | nothing => cases ha
  | typed t name =>
    obtain ⟨j, hj, hji⟩ := Option.map_eq_some_iff.mp ha
    cases hji
    have hgiven := hl.typed t name i hj
    exact ⟨(exists_given_iff hr).mp ⟨i, hgiven⟩, named_of_given hr hg hgiven⟩
  | bare name =>
    obtain ⟨j, hj, hji⟩ := Option.map_eq_some_iff.mp ha
    cases hji
    obtain ⟨t, ht, hgiven⟩ := storableAs_of_byName hr hg hj
    exact ⟨t, ht, named_of_given hr hg hgiven⟩

theorem EndpointName.Denotes.grows (hn : n.Denotes w entities k.brainId g i)
    (hgh : Grows w k.brainId g h) : n.Denotes w entities k.brainId h i := by
  have hrow : ∀ a, (∃ x, entityNamed w k.brainId a g = some x ∧ x.id = i) →
      ∃ x, entityNamed w k.brainId a h = some x ∧ x.id = i := by
    rintro a ⟨x, hx, rfl⟩
    exact hgh.named a x hx
  cases n with
  | id u => exact hn
  | nothing => exact hn
  | typed t name => exact ⟨hn.1, hrow _ hn.2⟩
  | bare name =>
    obtain ⟨t, ht, hx⟩ := hn
    exact ⟨t, ht, hrow _ hx⟩

end Endpoints
section Event
variable {w : GraphWorld} {k : RecorderConfig} {now : Stamp} {g h : Graph} {event : ExperienceEvent}
  {result : ExperienceResult}

theorem writeEvent_ok (hr : Recorder.writeEvent w k now event g = (.ok result, h)) :
    ∃ g₁ g₂, Recorder.upsertEntities w k now event.entities g = (.ok result.entityIds, g₁) ∧
      Recorder.upsertEdges w k now (buildEntityLookup event.entities result.entityIds) event.edges g₁ =
        (.ok result.edgeIds, g₂) ∧
      Prog.mapEach (Recorder.attachEvidence w k) event.evidence g₂ = (.ok result.evidenceIds, h) ∧
      result.warnings =
        Recorder.edgeWarnings (buildEntityLookup event.entities result.entityIds) event.edges ++
          Recorder.entityWarnings result.entityIds := by
  obtain ⟨entityIds, g₁, hentities, hr⟩ := Prog.bind_ok hr
  obtain ⟨edgeIds, g₂, hedges, hr⟩ := Prog.bind_ok hr
  obtain ⟨evidenceIds, g₃, hevidence, hr⟩ := Prog.bind_ok hr
  cases hr
  exact ⟨g₁, g₂, hentities, hedges, hevidence, rfl⟩

theorem upsertEdges_growth {l : EntityLookup} {edges : List EdgeSpec} {ids : List (Option Nat)}
    (hr : Recorder.upsertEdges w k now l edges g = (.ok ids, h)) : Growth w k.brainId g h :=
  (Prog.mapEach_turn Growth.refl Growth.trans (fun _ _ _ _ hb => growth_upsertEdge hb) hr).1

theorem attachEvidence_growth {evidence : List EvidenceSpec} {ids : List Nat}
    (hr : Prog.mapEach (Recorder.attachEvidence w k) evidence g = (.ok ids, h)) :
    Growth w k.brainId g h :=
  (Prog.mapEach_turn Growth.refl Growth.trans (fun _ _ _ _ hb => growth_attachEvidence hb) hr).1

theorem writeEvent_growth (hr : Recorder.writeEvent w k now event g = (.ok result, h)) :
    Growth w k.brainId g h := by
  obtain ⟨g₁, g₂, hentities, hedges, hevidence, -⟩ := writeEvent_ok hr
  have hfirst := (upsertEntities_at hentities).1
  exact hfirst.trans _ _ _ ((upsertEdges_growth hedges).trans _ _ _ (attachEvidence_growth hevidence))

theorem EventWritten.grows (hw : EventWritten w k event result g) (hgh : Grows w k.brainId g h) :
    EventWritten w k event result h where
  entities := by
    intro q spec hq hkept
    obtain ⟨row, hid, hrow⟩ := hw.entities q spec hq hkept
    obtain ⟨row', hrow', hrowid⟩ := hgh.named _ row hrow
    rw [← hrowid] at hid
    exact ⟨row', hid, hrow'⟩
  edges := by
    intro q spec hq hresolved
    obtain ⟨id, s, o, hid, hs, ho, hcarries⟩ := hw.edges q spec hq hresolved
    exact ⟨id, s, o, hid, hs.grows hgh, ho.grows hgh, hgh.carried id _ hcarries⟩
  evidence := by
    intro q spec hq
    obtain ⟨id, edge, entity, hid, hedge, hentity, hrow⟩ := hw.evidence q spec hq
    exact ⟨id, edge, entity, hid, hedge, hentity, hgh.evidence _ hrow⟩

/-- An event whose statements return has everything written that can be. -/
theorem writeEvent_written (hg : g.Drawn)
    (hr : Recorder.writeEvent w k now event g = (.ok result, h)) :
    EventWritten w k event result h := by
  obtain ⟨g₁, g₂, hentities, hedges, hevidence, -⟩ := writeEvent_ok hr
  obtain ⟨hgrowth₁, -, hat⟩ := upsertEntities_at hentities
  have hg₁ := hgrowth₁ hg
  have hg₂ := upsertEdges_growth hedges hg₁.drawn
  have hg₃ := attachEvidence_growth hevidence hg₂.drawn
  constructor
  · intro q spec hq hkept
    rcases hat q spec hq with ⟨hrefused, -⟩ | ⟨-, id, u, v, hid, hu, hw, hv⟩
    · exact absurd hrefused hkept
    · obtain ⟨x, hx, rfl⟩ := hw.named (hu hg).drawn.entities
      have hvh := (hv (hw.growth (hu hg).drawn).drawn).trans (hg₂.trans hg₃)
      obtain ⟨y, hy, hyx⟩ := hvh.named _ x hx
      rw [← hyx] at hid
      exact ⟨y, hid, hy⟩
  · intro q spec hq hresolved
    have hends := not_not.mp hresolved
    rw [← answer_isSome_iff hentities hg, ← answer_isSome_iff hentities hg] at hends
    obtain ⟨⟨us, hus⟩, uo, huo⟩ := hends
    rcases (upsertEdges_answers hedges hg₁.drawn.edges).2 q spec hq with
      ⟨hnone, -⟩ | ⟨s, o, id, hs, ho, hid, hcarries⟩
    · rw [hus, huo] at hnone
      rcases hnone with hnone | hnone
      · cases hnone
      · cases hnone
    · have hlater := hg₂.trans hg₃
      exact ⟨id, s, o, hid, (denotes_of_answer hentities hg hs).grows hlater,
        (denotes_of_answer hentities hg ho).grows hlater, hg₃.carried id _ hcarries⟩
  · intro q spec hq
    obtain ⟨-, -, hturns⟩ := Prog.mapEach_turn (R := Growth w k.brainId) Growth.refl Growth.trans
      (fun _ _ _ _ hb => growth_attachEvidence hb) hevidence
    obtain ⟨id, u, v, hid, hu, hrun, hv⟩ := hturns q spec hq
    have hgv : Grows w k.brainId u v := growth_attachEvidence hrun (hu hg₂.drawn).drawn
    obtain ⟨edge, entity, hedge, hentity, rfl, rfl⟩ := attachEvidenceRow_new hrun
    have hrow := Table.mem_set_self u.evidence (newEvidence k.brainId u.nextId edge entity
      { spec.args with sourceAgent := k.agentId })
    exact ⟨u.nextId, edge, entity, hid, hedge, hentity, (hv hgv.drawn).evidence _ hrow⟩

end Event
section Warnings
variable {w : GraphWorld} {k : RecorderConfig} {now : Stamp} {g h : Graph} {r : ItemReader}
  {x : GivenLists} {result : ExperienceResult} {i : Nat}

theorem entitySpec_isObject (r : ItemReader) (item : PyJson) (h : isObject item = false) :
    r.entitySpec item = none := by
  simp [ItemReader.entitySpec, ItemReader.shorthandType, ItemReader.shorthandName, get?_of_not_object h,
    truthy]

theorem edgeSpec_isObject (r : ItemReader) (item : PyJson) (h : isObject item = false) :
    r.edgeSpec item = none := by
  simp [ItemReader.edgeSpec, ItemReader.endpoint, ItemReader.optionalText, ItemReader.optionalRef,
    ItemReader.requiredText, get?_of_not_object h]

theorem evidenceSpec_isObject (r : ItemReader) (item : PyJson) (h : isObject item = false) :
    r.evidenceSpec item = none := by
  simp [ItemReader.evidenceSpec, ItemReader.evidenceArgs, ItemReader.optionalText, ItemReader.textOr,
    ItemReader.metadata, ItemReader.confidence, ItemReader.utilityScore, get?_of_not_object h]

/-- The items that are no objects would not be valid either. -/
theorem filterMap_objects {spec : PyJson → Option α} (items : List PyJson)
    (hspec : ∀ item, isObject item = false → spec item = none) :
    (items.filter isObject).filterMap spec = items.filterMap spec := by
  rw [List.filterMap_filter]
  apply List.filterMap_congr
  intro item _
  cases h : isObject item with
  | true => rfl
  | false => exact (hspec item h).symm

/-- The coercions of an event's lists. -/
def GivenLists.coerced (r : ItemReader) (x : GivenLists) : ExperienceEvent × List EventWarning :=
  coerceEvent r (x.entities.filter isObject) (x.edges.filter isObject) (x.evidence.filter isObject)

theorem coerced_event (r : ItemReader) (x : GivenLists) : (x.coerced r).1 = x.event r := by
  simp only [GivenLists.coerced, coerceEvent, coerceSpecs, GivenLists.event,
    filterMap_objects _ (entitySpec_isObject r), filterMap_objects _ (edgeSpec_isObject r),
    filterMap_objects _ (evidenceSpec_isObject r)]

theorem coerceSpecs_warnings (spec : PyJson → Option α) (kind : ItemKind) (items : List PyJson) :
    (coerceSpecs spec kind items).2 =
      (badIndices (fun item => (spec item).isNone) items).map (EventWarning.invalid kind) := by
  rw [coerceSpecs, badIndices, List.map_filterMap]
  apply List.filterMap_congr
  intro p _
  split
  · rfl
  · rfl

/-- The warnings of one kind name a place as often as their numbers do. -/
theorem countP_place {warnings : List EventWarning} {kind : ItemKind}
    (hkind : ∀ v ∈ warnings, v.kind = kind) (kind' : ItemKind) (i : Nat) :
    warnings.countP (fun v => v.kind = kind' ∧ v.index = i) =
      if kind = kind' then (warnings.map EventWarning.index).count i else 0 := by
  split
  · next heq =>
    subst heq
    rw [List.count, List.countP_map]
    apply List.countP_congr
    intro v hv
    simp [hkind v hv]
  · next hne =>
    apply List.countP_eq_zero.mpr
    intro v hv
    simp [hkind v hv, hne]

theorem countP_invalid (spec : PyJson → Option α) (kind kind' : ItemKind) (items : List PyJson)
    (i : Nat) :
    (coerceSpecs spec kind items).2.countP (fun v => v.kind = kind' ∧ v.index = i) =
      if kind = kind' then (if items[i]?.any (fun item => (spec item).isNone) then 1 else 0) else 0 := by
  have hkind : ∀ v ∈ (coerceSpecs spec kind items).2, v.kind = kind := by
    rw [coerceSpecs_warnings]
    intro v hv
    obtain ⟨n, -, rfl⟩ := List.mem_map.mp hv
    rfl
  rw [countP_place hkind, coerceSpecs_warnings, List.map_map, ← count_badIndices]
  congr 2
  exact List.map_id _

/-- An edge the loop of `_upsert_edges` passes over. -/
def EntityLookup.misses (l : EntityLookup) (spec : EdgeSpec) : Bool :=
  (resolveEdgeEndpoint l spec.subject).isNone || (resolveEdgeEndpoint l spec.object).isNone

theorem edgeWarnings_kind (l : EntityLookup) (edges : List EdgeSpec) :
    ∀ v ∈ Recorder.edgeWarnings l edges, v.kind = .edge := by
  intro v hv
  obtain ⟨p, -, hp⟩ := List.mem_filterMap.mp hv
  split at hp
  · cases hp
    rfl
  · split at hp
    · cases hp
      rfl
    · cases hp

theorem edgeWarnings_index (l : EntityLookup) (edges : List EdgeSpec) :
    (Recorder.edgeWarnings l edges).map RecordWarning.index = badIndices l.misses edges := by
  rw [Recorder.edgeWarnings, badIndices, List.map_filterMap]
  apply List.filterMap_congr
  intro p _
  rw [EntityLookup.misses]
  cases (resolveEdgeEndpoint l p.1.subject).isNone with
  | true => rfl
  | false =>
    cases (resolveEdgeEndpoint l p.1.object).isNone with
    | true => rfl
    | false => rfl

theorem entityWarnings_eq (ids : List (Option Nat)) :
    Recorder.entityWarnings ids = (badIndices Option.isNone ids).map .entityUpsertFailed := by
  rw [Recorder.entityWarnings, badIndices, List.map_filterMap]
  apply List.filterMap_congr
  intro p _
  split
  · rfl
  · rfl

theorem countP_unresolved (l : EntityLookup) (edges : List EdgeSpec) (kind : ItemKind) (i : Nat) :
    ((Recorder.edgeWarnings l edges).map EventWarning.recorder).countP
        (fun v => v.kind = kind ∧ v.index = i) =
      if .edge = kind then (if edges[i]?.any l.misses then 1 else 0) else 0 := by
  have hkind : ∀ v ∈ (Recorder.edgeWarnings l edges).map EventWarning.recorder, v.kind = .edge := by
    intro v hv
    obtain ⟨u, hu, rfl⟩ := List.mem_map.mp hv
    exact edgeWarnings_kind l edges u hu
  rw [countP_place hkind, List.map_map, ← count_badIndices, ← edgeWarnings_index]
  rfl

theorem countP_failed (ids : List (Option Nat)) (kind : ItemKind) (i : Nat) :
    ((Recorder.entityWarnings ids).map EventWarning.recorder).countP
        (fun v => v.kind = kind ∧ v.index = i) =
      if .entity = kind then (if ids[i]?.any Option.isNone then 1 else 0) else 0 := by
  have hkind : ∀ v ∈ (Recorder.entityWarnings ids).map EventWarning.recorder, v.kind = .entity := by
    rw [entityWarnings_eq]
    intro v hv
    obtain ⟨u, hu, rfl⟩ := List.mem_map.mp hv
    obtain ⟨n, -, rfl⟩ := List.mem_map.mp hu
    rfl
  rw [countP_place hkind, entityWarnings_eq, List.map_map, List.map_map, ← count_badIndices]
  congr 2
  exact List.map_id _

theorem any_isNone_iff (spec : PyJson → Option α) (items : List PyJson) (i : Nat) :
    items[i]?.any (fun item => (spec item).isNone) = true ↔
      ∃ item, items[i]? = some item ∧ spec item = none := by
  rw [Option.any_eq_true]
  simp only [Option.isNone_iff_eq_none]

theorem add_eq_one_iff (p q : Bool) :
    (if p then 1 else 0) + (if q then 1 else 0) = 1 ↔ (p = true ↔ ¬ q = true) := by
  cases p with
  | true => cases q <;> simp
  | false => cases q <;> simp

theorem misses_iff {entities : List EntitySpec} {ids : List (Option Nat)} (spec : EdgeSpec)
    (hr : Recorder.upsertEntities w k now entities g = (.ok ids, h)) (hg : g.Drawn) :
    (buildEntityLookup entities ids).misses spec = true ↔ spec.Unresolved w entities := by
  have hnone : ∀ n : EndpointName, (buildEntityLookup entities ids).answer n = none ↔
      ¬ n.Resolves w entities := by
    intro n
    rw [← answer_isSome_iff hr hg, ← Option.ne_none_iff_exists', not_not]
  rw [EntityLookup.misses, Bool.or_eq_true, Option.isNone_iff_eq_none, Option.isNone_iff_eq_none,
    resolveEdgeEndpoint_eq, resolveEdgeEndpoint_eq, hnone, hnone, EdgeSpec.Unresolved, not_and_or]

theorem failed_iff {entities : List EntitySpec} {ids : List (Option Nat)}
    (hr : Recorder.upsertEntities w k now entities g = (.ok ids, h)) (i : Nat) :
    ids[i]?.any Option.isNone = true ↔ ∃ spec, entities[i]? = some spec ∧ spec.Refused w := by
  obtain ⟨-, hlength, hat⟩ := upsertEntities_at hr
  rw [Option.any_eq_true]
  constructor
  · rintro ⟨answer, hanswer, hnone⟩
    have hlt := (List.getElem?_eq_some_iff.mp hanswer).1
    rw [hlength] at hlt
    have hspec := List.getElem?_eq_getElem hlt
    rcases hat i _ hspec with ⟨hrefused, -⟩ | ⟨-, id, -, -, hid, -⟩
    · exact ⟨_, hspec, hrefused⟩
    · rw [hanswer] at hid
      cases hid
      cases hnone
  · rintro ⟨spec, hspec, hrefused⟩
    rcases hat i spec hspec with ⟨-, hnone⟩ | ⟨hkept, -⟩
    · exact ⟨none, hnone, rfl⟩
    · exact absurd hrefused hkept

/-- How often the warnings of an event name a place, by what each stage finds there. -/
theorem reports_eq {l : EntityLookup} {edges : List EdgeSpec} {ids : List (Option Nat)}
    (hwarnings : result.warnings = Recorder.edgeWarnings l edges ++ Recorder.entityWarnings ids)
    (kind : ItemKind) (i : Nat) :
    (mergeWarnings (x.coerced r).2 result).reports kind i =
      (if .entity = kind then
        (if (x.entities.filter isObject)[i]?.any (fun item => (r.entitySpec item).isNone) then 1 else 0)
        else 0) +
      (if .edge = kind then
        (if (x.edges.filter isObject)[i]?.any (fun item => (r.edgeSpec item).isNone) then 1 else 0)
        else 0) +
      (if .evidence = kind then
        (if (x.evidence.filter isObject)[i]?.any (fun item => (r.evidenceSpec item).isNone) then 1 else 0)
        else 0) +
      ((if .edge = kind then (if edges[i]?.any l.misses then 1 else 0) else 0) +
        (if .entity = kind then (if ids[i]?.any Option.isNone then 1 else 0) else 0)) := by
  rw [EventAnswer.reports, mergeWarnings, hwarnings]
  simp only [GivenLists.coerced, coerceEvent, List.countP_append, List.map_append, countP_invalid,
    countP_unresolved, countP_failed]

/-- The answer to an event whose statements return reports what it dropped if and only if the items
of the event are in place. -/
theorem eventReported_iff {h' : Graph} (hg : g.Drawn)
    (hr : Recorder.writeEvent w k now (x.event r) g = (.ok result, h))
    (hgrows : Grows w k.brainId h h') :
    EventReported w k r x (mergeWarnings (x.coerced r).2 result) h' ↔ InPlace w r x := by
  have hwritten := (writeEvent_written hg hr).grows hgrows
  obtain ⟨g₁, g₂, hentities, -, -, hwarnings⟩ := writeEvent_ok hr
  have hentity : ∀ i, (mergeWarnings (x.coerced r).2 result).reports .entity i = 1 ↔
      (InvalidAt isObject r.entitySpec x.entities i ↔
        ¬ LateAt r.entitySpec (EntitySpec.Refused w) x.entities i) := by
    intro i
    rw [reports_eq hwarnings]
    simp only [reduceCtorEq, if_false, if_true, Nat.add_zero, Nat.zero_add]
    rw [add_eq_one_iff, any_isNone_iff, failed_iff hentities]
    rfl
  have hedge : ∀ i, (mergeWarnings (x.coerced r).2 result).reports .edge i = 1 ↔
      (InvalidAt isObject r.edgeSpec x.edges i ↔
        ¬ LateAt r.edgeSpec (EdgeSpec.Unresolved w (x.event r).entities) x.edges i) := by
    intro i
    rw [reports_eq hwarnings]
    simp only [reduceCtorEq, if_false, if_true, Nat.add_zero, Nat.zero_add]
    rw [add_eq_one_iff, any_isNone_iff, Option.any_eq_true]
    simp only [misses_iff _ hentities hg]
    rfl
  have hevidence : ∀ i, (mergeWarnings (x.coerced r).2 result).reports .evidence i = 1 ↔
      (InvalidAt isObject r.evidenceSpec x.evidence i ↔
        ¬ LateAt r.evidenceSpec (fun _ => False) x.evidence i) := by
    intro i
    have hlate : ¬ LateAt r.evidenceSpec (fun _ => False) x.evidence i := by
      rintro ⟨-, -, hfalse⟩
      exact hfalse
    rw [reports_eq hwarnings, iff_true_right hlate]
    simp only [reduceCtorEq, if_false, if_true, Nat.add_zero, Nat.zero_add]
    rw [InvalidAt, ← any_isNone_iff]
    split
    · next hany => simp [hany]
    · next hany => simp [hany]
  constructor
  · intro hreported
    constructor
    · apply (counted_iff_wellStaged (entitySpec_isObject r)).mp
      exact fun i item hi hd => (hentity i).mp (hreported.entities i item hi hd)
    · apply (counted_iff_wellStaged (edgeSpec_isObject r)).mp
      exact fun i item hi hd => (hedge i).mp (hreported.edges i item hi hd)
    · apply (counted_iff_wellStaged (evidenceSpec_isObject r)).mp
      exact fun i item hi hd => (hevidence i).mp (hreported.evidence i item hi hd)
  · intro hplace
    constructor
    · exact hwritten
    · have hcounted := (counted_iff_wellStaged (entitySpec_isObject r)).mpr hplace.entities
      exact fun i item hi hd => (hentity i).mpr (hcounted i item hi hd)
    · have hcounted := (counted_iff_wellStaged (edgeSpec_isObject r)).mpr hplace.edges
      exact fun i item hi hd => (hedge i).mpr (hcounted i item hi hd)
    · have hcounted := (counted_iff_wellStaged (evidenceSpec_isObject r)).mpr hplace.evidence
      exact fun i item hi hd => (hevidence i).mpr (hcounted i item hi hd)

end Warnings
end TappsBrain
