import TappsBrain.Graph
import TappsBrain.Lib.PathSearch
import Mathlib.Data.List.Sort

namespace TappsBrain.Explain
open Lib
set_option autoImplicit true
set_option relaxedAutoImplicit false

/-- The two ways an edge is met from one of its ends. -/
inductive Direction where
  | out | into
deriving DecidableEq, Repr

def Direction.text : Direction → String
  | .out => "out"
  | .into => "in"

/-- One row of `GET_BOTH_NEIGHBORS_SQL`: an edge joined with the entity at its other end. -/
structure NeighborRow where
  edge : EdgeRow
  neighbor : EntityRow
  direction : Direction
deriving DecidableEq

/-- The database that answers for one brain: the `::uuid` cast and the text of an id, the order
in which it lists rows of equal confidence, and the text of what it raises. -/
structure KgDatabase where
  graph : Graph
  brainId : String
  cast : String → Option Nat
  text : Nat → String
  cast_text : ∀ i, cast (text i) = some i
  text_ne : ∀ i, text i ≠ ""
  arrange : List NeighborRow → List NeighborRow
  arrange_perm : ∀ l, (arrange l).Perm l
  arrange_sorted : ∀ l, (arrange l).Pairwise (fun a b => b.edge.confidence ≤ a.edge.confidence)
  refused : String → Option String
  invalidText : String → String

section Query
variable (db : KgDatabase)

def activeEdge (e : EdgeRow) : Bool := e.brainId = db.brainId && e.status = .active

/-- `UNION ALL` of the outgoing and the incoming arm, before it is ordered and limited. -/
def bothNeighborRows (id : Nat) (predicate : Option String) : List NeighborRow :=
  let edges := db.graph.edges.values.filter (fun e =>
    activeEdge db e && predicate.all (fun p => e.predicate = p))
  (edges.filter (fun e => e.subject = id)).filterMap (fun e =>
    (db.graph.entities.get? e.object).map (fun ent => ⟨e, ent, .out⟩)) ++
  (edges.filter (fun e => e.object = id)).filterMap (fun e =>
    (db.graph.entities.get? e.subject).map (fun ent => ⟨e, ent, .into⟩))

/-- `get_neighbors(entity_id, direction="both", ...)`. -/
def getNeighborsBoth (entityId : String) (predicate : Option String) (limit : Nat) :
    Except String (List NeighborRow) :=
  match db.refused entityId, db.cast entityId with
  | some msg, _ => .error msg
  | none, none => .error (db.invalidText entityId)
  | none, some id => .ok ((db.arrange (bothNeighborRows db id predicate)).take limit)

end Query

/-- One step of a path as the answer shows it. -/
structure PathStep where
  edgeId : String
  predicate : String
  direction : String
  entityId : String
  entityType : String
  canonicalName : String
deriving DecidableEq, Repr

/-- The answer of `explain_connection`; the subject stands at the head of a path. -/
structure Explanation where
  found : Bool
  hops : Option Nat
  path : Option (String × List PathStep)
  ends : Option (String × String)
deriving DecidableEq, Repr

/-- `explain_max_hops_ceiling()` and `explain_branching_factor()`. -/
structure ExplainLimits where
  maxHopsCeiling : Nat := 3
  branchingFactor : Nat := 50
  ceiling_pos : 1 ≤ maxHopsCeiling := by decide
  branching_pos : 1 ≤ branchingFactor := by decide

section Explain
variable (db : KgDatabase)

def neighborId (row : NeighborRow) : String := db.text row.neighbor.id

def stepOf (row : NeighborRow) : PathStep where
  edgeId := db.text row.edge.id
  predicate := row.edge.predicate
  direction := row.direction.text
  entityId := neighborId db row
  entityType := row.neighbor.entityType
  canonicalName := row.neighbor.canonicalName

/-- The rows that the loop over the neighbours does not pass over for want of an id. -/
def usableRows (fanout : Nat) (entityId : String) : Except String (List NeighborRow) :=
  (getNeighborsBoth db entityId none fanout).map (fun rows =>
    rows.filter (fun row => neighborId db row ≠ ""))

/-- The answer that a search comes to. -/
def answerOf (subjectId objectId : String) :
    Option (List NeighborRow) → Explanation
  | some trail =>
    { found := true, hops := some trail.length
      path := some (subjectId, trail.map (stepOf db)), ends := some (subjectId, objectId) }
  | none => { found := false, hops := none, path := none, ends := some (subjectId, objectId) }

/-- `explain_connection`; an error is the message of `kg_unavailable`. -/
def explainConnection (limits : ExplainLimits) (subjectId objectId : String) (maxHops : ℤ)
    (branchingFactor : Option ℤ) : Except String Explanation :=
  let hops := max 1 (min maxHops limits.maxHopsCeiling)
  let fanout := max 1 (min (branchingFactor.getD limits.branchingFactor) 500)
  if subjectId = objectId then
    .ok { found := true, hops := some 0, path := some (subjectId, []), ends := none }
  else
    (PathSearch.searchFrom (usableRows db fanout.toNat) (neighborId db) objectId subjectId
      hops.toNat).map (answerOf db subjectId objectId)

end Explain
section Spec
variable (db : KgDatabase)

/-- An active edge of the brain between two entities, met from the first of them. -/
structure Joins (e : EdgeRow) (direction : Direction) (a b : Nat) : Prop where
  stored : e ∈ db.graph.edges.values
  active : activeEdge db e = true
  ends : (direction = .out ∧ e.subject = a ∧ e.object = b) ∨
    (direction = .into ∧ e.object = a ∧ e.subject = b)
  known : (db.graph.entities.get? b).isSome = true

def Linked (a b : Nat) : Prop := ∃ e direction, Joins db e direction a b

/-- The active edges at an entity, an edge counted once for each of its ends there. -/
def degree (a : Nat) : Nat :=
  db.graph.edges.values.countP (fun e => activeEdge db e && e.subject = a) +
    db.graph.edges.values.countP (fun e => activeEdge db e && e.object = a)

def DegreeBounded (a : Nat) (maxHops fanout : ℤ) : Prop :=
  ∀ (d : Nat) v, (d : ℤ) < maxHops → AtDistance (Linked db) a d v → (degree db v : ℤ) ≤ fanout

/-- The steps lead from `a` to `b`, each over an active edge in the stated direction. -/
def WalkSteps : Nat → List PathStep → Nat → Prop
  | a, [], b => a = b
  | a, s :: rest, b => ∃ e direction c, Joins db e direction a c ∧ s.edgeId = db.text e.id ∧
      s.direction = direction.text ∧ s.entityId = db.text c ∧ WalkSteps c rest b

/-- What `explain_connection` is for, between two entities `a` and `b`. -/
structure Explains (subjectId : String) (a b : Nat) (maxHops fanout : ℤ)
    (answer : Except String Explanation) : Prop where
  walk : ∀ x, answer = .ok x → x.found = true →
    ∃ steps, x.path = some (subjectId, steps) ∧ x.hops = some steps.length ∧ WalkSteps db a steps b
  exact : DegreeBounded db a maxHops fanout →
    ∃ x, answer = .ok x ∧
      (x.found = true ↔ ∃ d : Nat, (d : ℤ) ≤ maxHops ∧ AtDistance (Linked db) a d b) ∧
      ∀ d, x.hops = some d → AtDistance (Linked db) a d b

end Spec
section Rows
variable {db : KgDatabase} {a b i n : Nat} {x y entityId : String} {fanout : Nat}
  {row : NeighborRow} {l : List NeighborRow}

theorem text_inj (h : db.text a = db.text b) : a = b := by
  have ha := db.cast_text a
  rw [h, db.cast_text] at ha
  exact (Option.some.inj ha).symm

theorem mem_bothNeighborRows :
    row ∈ bothNeighborRows db i none ↔ Joins db row.edge row.direction i row.neighbor.id ∧
      db.graph.entities.get? row.neighbor.id = some row.neighbor := by
  simp only [bothNeighborRows, Option.all_none, Bool.and_true, List.mem_append,
    List.mem_filterMap, List.mem_filter, Option.map_eq_some_iff, decide_eq_true_eq]
  constructor
  · rintro (⟨e, ⟨⟨he, hactive⟩, hi⟩, ent, hent, rfl⟩ | ⟨e, ⟨⟨he, hactive⟩, hi⟩, ent, hent, rfl⟩)
    · have hkey := Table.key_of_get? hent
      refine ⟨⟨he, hactive, .inl ⟨rfl, hi, hkey.symm⟩, ?_⟩, ?_⟩
      · rw [hkey, hent]
        rfl
      · rw [hkey, hent]
    · have hkey := Table.key_of_get? hent
      refine ⟨⟨he, hactive, .inr ⟨rfl, hi, hkey.symm⟩, ?_⟩, ?_⟩
      · rw [hkey, hent]
        rfl
      · rw [hkey, hent]
  · obtain ⟨e, ent, direction⟩ := row
    rintro ⟨⟨he, hactive, hends, -⟩, hent⟩
    rcases hends with ⟨rfl, hi, hj⟩ | ⟨rfl, hi, hj⟩
    · exact .inl ⟨e, ⟨⟨he, hactive⟩, hi⟩, ent, hj ▸ hent, rfl⟩
    · exact .inr ⟨e, ⟨⟨he, hactive⟩, hi⟩, ent, hj ▸ hent, rfl⟩

/-- An arm of the union has at most a row for each edge that its conditions let through. -/
theorem arm_length_le (f : EdgeRow → Option NeighborRow) (p q : EdgeRow → Bool)
    (edges : List EdgeRow) :
    (((edges.filter p).filter q).filterMap f).length ≤ edges.countP (fun e => p e && q e) := by
  have hlength := List.length_filterMap_le f ((edges.filter p).filter q)
  rw [List.filter_filter] at hlength ⊢
  rw [List.countP_eq_length_filter]
  simp only [Bool.and_comm (p _)]
  exact hlength

theorem bothNeighborRows_length_le (db : KgDatabase) (i : Nat) :
    (bothNeighborRows db i none).length ≤ degree db i := by
  unfold bothNeighborRows degree
  simp only [Option.all_none, Bool.and_true, List.length_append]
  apply Nat.add_le_add
  · exact arm_length_le _ (activeEdge db) (fun e => e.subject = i) _
  · exact arm_length_le _ (activeEdge db) (fun e => e.object = i) _

/-- The rows a point answers with come from the joined table of its entity. -/
theorem usableRows_eq_ok (h : usableRows db fanout entityId = .ok l) :
    ∃ i, db.cast entityId = some i ∧
      l = (db.arrange (bothNeighborRows db i none)).take fanout := by
  unfold usableRows getNeighborsBoth at h
  cases hrefused : db.refused entityId with
  | some msg =>
    rw [hrefused] at h
    cases h
  | none =>
    rw [hrefused] at h
    cases hcast : db.cast entityId with
    | none =>
      rw [hcast] at h
      cases h
    | some i =>
      rw [hcast] at h
      refine ⟨i, rfl, ?_⟩
      rw [← Except.ok.inj h]
      apply List.filter_eq_self.mpr
      intro row _
      exact decide_eq_true (db.text_ne _)

theorem usableRows_ok (hup : ∀ s, db.cast s ≠ none → db.refused s = none)
    (hcast : db.cast entityId = some i) :
    usableRows db fanout entityId =
      .ok ((db.arrange (bothNeighborRows db i none)).take fanout) := by
  have hok : ∃ l, usableRows db fanout entityId = .ok l := by
    unfold usableRows getNeighborsBoth
    rw [hup entityId (by rw [hcast]; exact Option.some_ne_none i), hcast]
    exact ⟨_, rfl⟩
  obtain ⟨l, hl⟩ := hok
  obtain ⟨j, hj, rfl⟩ := usableRows_eq_ok hl
  rw [hcast] at hj
  rw [hl, Option.some.inj hj]

theorem joins_of_mem_rows (h : usableRows db fanout entityId = .ok l) (hrow : row ∈ l) :
    ∃ i, db.cast entityId = some i ∧ Joins db row.edge row.direction i row.neighbor.id := by
  obtain ⟨i, hi, rfl⟩ := usableRows_eq_ok h
  have hmem := (db.arrange_perm _).mem_iff.mp (List.mem_of_mem_take hrow)
  exact ⟨i, hi, (mem_bothNeighborRows.mp hmem).1⟩

/-- Within the degree bound the limit cuts nothing off. -/
theorem leads_of_linked (hup : ∀ s, db.cast s ≠ none → db.refused s = none)
    (hcast : db.cast x = some a) (hdegree : degree db a ≤ fanout) (h : Linked db a b) :
    PathSearch.Leads (usableRows db fanout) (neighborId db) x (db.text b) := by
  obtain ⟨e, direction, hjoins⟩ := h
  obtain ⟨ent, hent⟩ := Option.isSome_iff_exists.mp hjoins.known
  have hkey := Table.key_of_get? hent
  have hmem : (⟨e, ent, direction⟩ : NeighborRow) ∈ bothNeighborRows db a none := by
    apply mem_bothNeighborRows.mpr
    rw [hkey]
    exact ⟨hjoins, hent⟩
  have hlength : (db.arrange (bothNeighborRows db a none)).length ≤ fanout := by
    rw [(db.arrange_perm _).length_eq]
    exact (bothNeighborRows_length_le db a).trans hdegree
  rw [PathSearch.Leads, PathSearch.nextPoints, usableRows_ok hup hcast,
    List.take_of_length_le hlength]
  apply List.mem_map.mpr
  refine ⟨⟨e, ent, direction⟩, (db.arrange_perm _).mem_iff.mpr hmem, ?_⟩
  rw [neighborId, hkey]

theorem linked_of_leads (h : PathSearch.Leads (usableRows db fanout) (neighborId db) x y) :
    ∃ a b, db.cast x = some a ∧ y = db.text b ∧ Linked db a b := by
  rw [PathSearch.Leads, PathSearch.nextPoints] at h
  split at h
  · next l hl =>
    obtain ⟨row, hrow, rfl⟩ := List.mem_map.mp h
    obtain ⟨i, hi, hjoins⟩ := joins_of_mem_rows hl hrow
    exact ⟨i, row.neighbor.id, hi, rfl, row.edge, row.direction, hjoins⟩
  · exact absurd h List.not_mem_nil

end Rows
section Distances
variable {db : KgDatabase} {a b n d : Nat} {subjectId objectId y : String} {fanout : Nat} {hops : ℤ}
  {trail : List NeighborRow}

/-- Steps between texts of ids are steps between entities. -/
theorem linked_steps (ha : db.cast subjectId = some a)
    (h : StepsIn (PathSearch.Leads (usableRows db fanout) (neighborId db)) subjectId n y) :
    n = 0 ∧ y = subjectId ∨ ∃ c, y = db.text c ∧ StepsIn (Linked db) a n c := by
  induction h with
  | refl => exact .inl ⟨rfl, rfl⟩
  | tail _ hstep ih =>
    obtain ⟨v, c, hv, rfl, hlinked⟩ := linked_of_leads hstep
    right
    refine ⟨c, rfl, ?_⟩
    rcases ih with ⟨rfl, rfl⟩ | ⟨u, rfl, hu⟩
    · rw [ha] at hv
      rw [← Option.some.inj hv] at hlinked
      exact .tail .refl hlinked
    · rw [db.cast_text] at hv
      rw [← Option.some.inj hv] at hlinked
      exact .tail hu hlinked

/-- Where no list is cut, steps between entities are steps between the texts of their ids. -/
theorem leads_steps (hup : ∀ s, db.cast s ≠ none → db.refused s = none)
    (ha : db.cast subjectId = some a)
    (hdegree : ∀ (d : Nat) v, (d : ℤ) < hops → AtDistance (Linked db) a d v → degree db v ≤ fanout)
    (hn : (n : ℤ) ≤ hops) (h : StepsIn (Linked db) a n b) :
    ∃ y, StepsIn (PathSearch.Leads (usableRows db fanout) (neighborId db)) subjectId n y ∧
      db.cast y = some b ∧ (n ≠ 0 → y = db.text b) := by
  induction h with
  | refl => exact ⟨subjectId, .refl, ha, fun hne => absurd rfl hne⟩
  | @tail m v c hsteps hlinked ih =>
    obtain ⟨y, hy, hcast, -⟩ := ih (by omega)
    obtain ⟨d, hd, hdist⟩ := hsteps.exists_atDistance
    have hroom := hdegree d v (by omega) hdist
    exact ⟨db.text c, .tail hy (leads_of_linked hup hcast hroom hlinked), db.cast_text c,
      fun _ => rfl⟩

/-- Distances to another entity are the same on both sides, as far as no list is cut. -/
theorem leads_distance_iff (hup : ∀ s, db.cast s ≠ none → db.refused s = none)
    (ha : db.cast subjectId = some a) (hne : b ≠ a)
    (hdegree : ∀ (d : Nat) v, (d : ℤ) < hops → AtDistance (Linked db) a d v → degree db v ≤ fanout)
    (hd : (d : ℤ) ≤ hops) :
    AtDistance (PathSearch.Leads (usableRows db fanout) (neighborId db)) subjectId d (db.text b) ↔
      AtDistance (Linked db) a d b := by
  have hdown : ∀ m, StepsIn (PathSearch.Leads (usableRows db fanout) (neighborId db)) subjectId m
      (db.text b) → StepsIn (Linked db) a m b := by
    intro m hm
    rcases linked_steps ha hm with ⟨-, heq⟩ | ⟨c, heq, hc⟩
    · rw [← heq, db.cast_text] at ha
      exact absurd (Option.some.inj ha) hne
    · rw [text_inj heq]
      exact hc
  have hup' : ∀ m : Nat, (m : ℤ) ≤ hops → StepsIn (Linked db) a m b →
      StepsIn (PathSearch.Leads (usableRows db fanout) (neighborId db)) subjectId m (db.text b) := by
    intro m hm hsteps
    obtain ⟨y, hy, -, htext⟩ := leads_steps hup ha hdegree hm hsteps
    have hpos : m ≠ 0 := by
      rintro rfl
      cases hsteps
      exact hne rfl
    rw [← htext hpos]
    exact hy
  constructor
  · rintro ⟨hsteps, hleast⟩
    refine ⟨hdown d hsteps, ?_⟩
    intro m hm
    by_contra hlt
    exact hlt (hleast m (hup' m (by omega) hm))
  · rintro ⟨hsteps, hleast⟩
    exact ⟨hup' d hd hsteps, fun m hm => hleast m (hdown m hm)⟩

theorem walkSteps_append {a b c : Nat} {s : PathStep} {steps : List PathStep} {e : EdgeRow}
    {direction : Direction} (h : WalkSteps db a steps b) (hjoins : Joins db e direction b c)
    (hedge : s.edgeId = db.text e.id) (hdirection : s.direction = direction.text)
    (hentity : s.entityId = db.text c) : WalkSteps db a (steps ++ [s]) c := by
  induction steps generalizing a with
  | nil =>
    rw [WalkSteps] at h
    exact ⟨e, direction, c, h ▸ hjoins, hedge, hdirection, hentity, rfl⟩
  | cons first rest ih =>
    obtain ⟨e', direction', v, hj, he, hd, hv, hrest⟩ := h
    exact ⟨e', direction', v, hj, he, hd, hv, ih hrest⟩

/-- A trail of rows is a walk over the edges of the graph. -/
theorem trail_walk (ha : db.cast subjectId = some a)
    (h : PathSearch.Trail (usableRows db fanout) (neighborId db) subjectId trail y) :
    ∃ c, db.cast y = some c ∧ WalkSteps db a (trail.map (stepOf db)) c := by
  induction h with
  | nil => exact ⟨a, ha, rfl⟩
  | @snoc trail l x row _ hrows hrow ih =>
    obtain ⟨c, hc, hwalk⟩ := ih
    obtain ⟨i, hi, hjoins⟩ := joins_of_mem_rows hrows hrow
    rw [hc] at hi
    rw [← Option.some.inj hi] at hjoins
    refine ⟨row.neighbor.id, db.cast_text _, ?_⟩
    rw [List.map_append]
    exact walkSteps_append hwalk hjoins rfl rfl rfl

end Distances
section Exact
variable {db : KgDatabase} {limits : ExplainLimits} {a b : Nat} {subjectId objectId : String}
  {maxHops fanout : ℤ} {branchingFactor : Option ℤ} {trail : List NeighborRow}

/-- Between entities that the database answers for, the answer is that of one search. -/
theorem explainConnection_eq (hup : ∀ s, db.cast s ≠ none → db.refused s = none)
    (ha : db.cast subjectId = some a) (hne : objectId ≠ subjectId)
    (hhops : 1 ≤ maxHops ∧ maxHops ≤ limits.maxHopsCeiling)
    (hfanout : branchingFactor.getD limits.branchingFactor = fanout) (hone : 1 ≤ fanout)
    (hmost : fanout ≤ 500) :
    ∃ result, explainConnection db limits subjectId objectId maxHops branchingFactor =
        .ok (answerOf db subjectId objectId result) ∧
      PathSearch.Answers (usableRows db fanout.toNat) (neighborId db) subjectId objectId
        maxHops.toNat result := by
  have hread : ∀ n y, StepsIn (PathSearch.Leads (usableRows db fanout.toNat) (neighborId db))
      subjectId n y → ∃ l, usableRows db fanout.toNat y = .ok l := by
    intro n y hy
    rcases linked_steps ha hy with ⟨-, rfl⟩ | ⟨c, rfl, -⟩
    · exact ⟨_, usableRows_ok hup ha⟩
    · exact ⟨_, usableRows_ok hup (db.cast_text c)⟩
  obtain ⟨result, hresult⟩ := PathSearch.searchFrom_ok hne hread maxHops.toNat
  refine ⟨result, ?_, PathSearch.searchFrom_exact hne _ hresult⟩
  have hclamped : max 1 (min maxHops limits.maxHopsCeiling) = maxHops := by omega
  have hclamped' : max 1 (min fanout 500) = fanout := by omega
  unfold explainConnection
  dsimp only
  rw [hfanout, hclamped, hclamped', if_neg hne.symm, hresult]
  cases result <;> rfl

/-- A trail that ends at the object ends at the text of its id. -/
theorem object_eq_of_trail (ha : db.cast subjectId = some a) (hb : db.cast objectId = some b)
    (hne : objectId ≠ subjectId) {rowLimit : Nat}
    (h : PathSearch.Trail (usableRows db rowLimit) (neighborId db) subjectId trail objectId) :
    objectId = db.text b := by
  rcases linked_steps ha h.steps with ⟨-, heq⟩ | ⟨c, hc, -⟩
  · exact absurd heq hne
  · rw [hc, db.cast_text] at hb
    rw [hc, Option.some.inj hb]

/-- Within the degree bound `explain_connection` finds exactly the connections to an object that is
given by the text of its id; every path it returns is a walk. -/
theorem explainConnection_explains_iff (hup : ∀ s, db.cast s ≠ none → db.refused s = none)
    (ha : db.cast subjectId = some a) (hb : db.cast objectId = some b) (hab : a ≠ b)
    (hhops : 1 ≤ maxHops ∧ maxHops ≤ limits.maxHopsCeiling)
    (hfanout : branchingFactor.getD limits.branchingFactor = fanout) (hone : 1 ≤ fanout)
    (hmost : fanout ≤ 500) :
    Explains db subjectId a b maxHops fanout
      (explainConnection db limits subjectId objectId maxHops branchingFactor) ↔
    (DegreeBounded db a maxHops fanout → objectId = db.text b ∨
      ¬ ∃ d : Nat, (d : ℤ) ≤ maxHops ∧ AtDistance (Linked db) a d b) := by
  have hne : objectId ≠ subjectId := by
    rintro rfl
    exact hab (Option.some.inj (ha.symm.trans hb))
  obtain ⟨result, hrun, hanswers⟩ := explainConnection_eq hup ha hne hhops hfanout hone hmost
  rw [hrun]
  have hdistance : DegreeBounded db a maxHops fanout → ∀ d : Nat, (d : ℤ) ≤ maxHops →
      (AtDistance (PathSearch.Leads (usableRows db fanout.toNat) (neighborId db)) subjectId d
        (db.text b) ↔ AtDistance (Linked db) a d b) := by
    intro hdegree d hd
    apply leads_distance_iff hup ha hab.symm _ hd
    intro m v hm hv
    have hroom := hdegree m v hm hv
    omega
  cases result with
  | some trail =>
    obtain ⟨htrail, hlength, hdist⟩ := hanswers
    have hobject := object_eq_of_trail ha hb hne htrail
    have hshort : (trail.length : ℤ) ≤ maxHops := by omega
    apply iff_of_true _ (fun _ => .inl hobject)
    constructor
    · intro x hx _
      cases hx
      obtain ⟨c, hc, hwalk⟩ := trail_walk ha htrail
      rw [hb] at hc
      rw [← Option.some.inj hc] at hwalk
      exact ⟨_, rfl, by rw [List.length_map]; rfl, hwalk⟩
    · intro hdegree
      rw [hobject] at hdist
      have hlinked := (hdistance hdegree _ hshort).mp hdist
      refine ⟨_, rfl, iff_of_true rfl ⟨_, hshort, hlinked⟩, ?_⟩
      intro d hd
      rw [← Option.some.inj hd]
      exact hlinked
  | none =>
    have hfound : (answerOf db subjectId objectId none).found = false := rfl
    constructor
    · intro h hdegree
      obtain ⟨x, hx, hexact, -⟩ := h.exact hdegree
      cases hx
      right
      intro hnear
      exact Bool.false_ne_true (hexact.mpr hnear)
    · intro hcondition
      constructor
      · intro x hx htrue
        cases hx
        exact absurd htrue (Bool.false_ne_true)
      · intro hdegree
        refine ⟨_, rfl, iff_of_false (fun h => Bool.false_ne_true h) ?_, fun d hd => nomatch hd⟩
        rintro ⟨d, hd, hlinked⟩
        rcases hcondition hdegree with hobject | hfar
        · have hdist := (hdistance hdegree d hd).mpr hlinked
          rw [← hobject] at hdist
          exact hanswers d (by omega) hdist
        · exact hfar ⟨d, hd, hlinked⟩

end Exact
section Spelling

def moreConfident (a b : NeighborRow) : Prop := b.edge.confidence ≤ a.edge.confidence

instance : DecidableRel moreConfident := fun _ _ => inferInstanceAs (Decidable (_ ≤ _))

instance : Std.Total moreConfident := ⟨fun a b => le_total b.edge.confidence a.edge.confidence⟩

instance : IsTrans NeighborRow moreConfident := ⟨fun _ _ _ hab hbc => le_trans hbc hab⟩

/-- The ids of an api and a database, as PostgreSQL shows them. -/
def apiId : String := "3f2504e0-4f89-11d3-9a0c-0305e82c330a"

def databaseId : String := "3f2504e0-4f89-11d3-9a0c-0305e82c330b"

/-- The id of the database in capital letters. -/
def DATABASE_ID : String := "3F2504E0-4F89-11D3-9A0C-0305E82C330B"

def idText : Nat → String
  | 0 => apiId
  | 1 => databaseId
  | n + 2 => String.ofList (List.replicate (n + 1) 'f')

def idCast (s : String) : Option Nat :=
  if s = apiId then some 0
  else if s = databaseId ∨ s = DATABASE_ID then some 1
  else if s ≠ "" ∧ s.toList.all (· = 'f') then some (s.length + 1)
  else none

theorem idCast_idText (i : Nat) : idCast (idText i) = some i := by
  match i with
  | 0 => decide +kernel
  | 1 => decide +kernel
  | n + 2 =>
    have hall : ∀ s : String, s.toList.all (· = 'f') = false → idText (n + 2) ≠ s := by
      rintro s hs rfl
      simp [idText] at hs
    have hfirst := hall apiId (by decide +kernel)
    have hsecond := hall databaseId (by decide +kernel)
    have hthird := hall DATABASE_ID (by decide +kernel)
    have hne : idText (n + 2) ≠ "" := by
      intro h
      have hlength := congrArg String.length h
      simp [idText] at hlength
    rw [idCast, if_neg hfirst, if_neg (fun h => h.elim hsecond hthird), if_pos ⟨hne, by simp [idText]⟩]
    simp [idText]

theorem idText_ne (i : Nat) : idText i ≠ "" := by
  intro h
  have hcast := idCast_idText i
  rw [h] at hcast
  have hnone : idCast "" = none := by decide +kernel
  rw [hnone] at hcast
  cases hcast

def componentRow (id : Nat) (name : String) : EntityRow where
  id := id
  brainId := "main"
  entityType := "component"
  canonicalName := name
  aliases := []
  metadata := []
  confidence := 1
  source := "agent"
  sourceAgent := "unknown"
  createdAt := 0
  updatedAt := 0

/-- An api that uses a database. -/
def twoComponents : KgDatabase where
  graph := {
    entities := (Table.empty.set (componentRow 0 "api")).set (componentRow 1 "database")
    edges := Table.empty.set
      { id := 2, brainId := "main", subject := 0, predicate := "uses", object := 1
        createdAt := 0, updatedAt := 0 } }
  brainId := "main"
  cast := idCast
  text := idText
  cast_text := idCast_idText
  text_ne := idText_ne
  arrange := List.insertionSort moreConfident
  arrange_perm := List.perm_insertionSort moreConfident
  arrange_sorted := List.pairwise_insertionSort moreConfident
  refused := fun _ => none
  invalidText := fun s => s

theorem explainConnection_explains_iff_components :
    Explains twoComponents apiId 0 1 2 50
      (explainConnection twoComponents {} apiId databaseId 2 none) ↔
    (DegreeBounded twoComponents 0 2 50 → databaseId = twoComponents.text 1 ∨
      ¬ ∃ d : Nat, (d : ℤ) ≤ 2 ∧ AtDistance (Linked twoComponents) 0 d 1) :=
  explainConnection_explains_iff (fun _ _ => rfl) (idCast_idText 0) (idCast_idText 1) (by decide)
    (by decide) (by decide) (by decide) (by decide)

theorem twoComponents_linked : Linked twoComponents 0 1 := by
  refine ⟨{ id := 2, brainId := "main", subject := 0, predicate := "uses", object := 1
            createdAt := 0, updatedAt := 0 }, .out, ?_, ?_, ?_, ?_⟩
  · decide +kernel
  · decide +kernel
  · exact .inl ⟨rfl, rfl, rfl⟩
  · decide +kernel

/-- The same question with the id of the database in capital letters finds nothing. -/
theorem explainConnection_misses_capitals :
    twoComponents.cast DATABASE_ID = some 1 ∧
      ¬ Explains twoComponents apiId 0 1 1 50
        (explainConnection twoComponents {} apiId DATABASE_ID 1 none) := by
  refine ⟨by decide +kernel, ?_⟩
  intro h
  have hdegree : DegreeBounded twoComponents 0 1 50 := by
    intro d v hd hv
    have hzero : d = 0 := by omega
    rw [hzero, atDistance_zero] at hv
    rw [hv]
    decide +kernel
  obtain ⟨x, hx, hexact, -⟩ := h.exact hdegree
  have hrun : (explainConnection twoComponents {} apiId DATABASE_ID 1 none).toOption.map
      (·.found) = some false := by
    decide +kernel
  rw [hx] at hrun
  have hfound : x.found = false := Option.some.inj hrun
  obtain ⟨d, hd, hdist⟩ := (StepsIn.tail .refl twoComponents_linked).exists_atDistance
  have htrue := hexact.mpr ⟨d, by omega, hdist⟩
  rw [hfound] at htrue
  exact Bool.false_ne_true htrue

end Spelling
end TappsBrain.Explain
