import TappsBrain.ExplainConnection
import TappsBrain.Lib.Query
import Mathlib.Data.List.Sort

namespace TappsBrain.Neighborhood
open Lib
open TappsBrain.Explain (Direction)
set_option autoImplicit true
set_option relaxedAutoImplicit false

/-- One row: an edge joined with the entity at its other end. -/
structure HopRow where
  edge : EdgeRow
  neighbor : EntityRow
  hop : Nat
  direction : Option Direction := none
deriving DecidableEq

/-- A row as it is returned, with its `LEFT JOIN` of the evidence counts. -/
structure NeighborhoodRow extends HopRow where
  evidenceCount : Nat
deriving DecidableEq

/-- `ORDER BY edge_confidence DESC`. -/
def moreConfident (a b : HopRow) : Prop := b.edge.confidence ≤ a.edge.confidence

/-- `ORDER BY edge_id, hop, edge_confidence DESC`. -/
def edgeOrder (a b : HopRow) : Prop :=
  a.edge.id < b.edge.id ∨ a.edge.id = b.edge.id ∧
    (a.hop < b.hop ∨ a.hop = b.hop ∧ moreConfident a b)

/-- The database of one brain: the `::uuid` cast, and how it puts rows in order. -/
structure NeighborDatabase where
  graph : Graph
  brainId : String
  cast : String → Option Nat
  invalidText : String → String
  byConfidence : List HopRow → List HopRow
  byConfidence_perm : ∀ l, (byConfidence l).Perm l
  byConfidence_sorted : ∀ l, (byConfidence l).Pairwise moreConfident
  byEdge : List HopRow → List HopRow
  byEdge_perm : ∀ l, (byEdge l).Perm l
  byEdge_sorted : ∀ l, (byEdge l).Pairwise edgeOrder

/-- `predicate_filter` and `include_historical`. -/
structure EdgeFilter where
  predicate : Option String := none
  includeHistorical : Bool := false
deriving DecidableEq

section Queries
variable (db : NeighborDatabase) (f : EdgeFilter) (ids : List Nat)

/-- The `WHERE` conditions that all the arms share. -/
def admits (e : EdgeRow) : Bool :=
  e.brainId = db.brainId && (e.status = .active || f.includeHistorical) &&
    (!e.contradicted || f.includeHistorical) && f.predicate.all (fun p => e.predicate = p)

def admitted : List EdgeRow := db.graph.edges.values.filter (admits db f)

/-- `JOIN kg_entities ent ON ent.id = ...`. -/
def joined (e : EdgeRow) (far hop : Nat) (direction : Option Direction) : Option HopRow :=
  (db.graph.entities.get? far).map (fun ent => ⟨e, ent, hop, direction⟩)

def outgoing (direction : Option Direction) : List HopRow :=
  ((admitted db f).filter (fun e => e.subject ∈ ids)).filterMap (fun e =>
    joined db e e.object 1 direction)

def incoming (direction : Option Direction) : List HopRow :=
  ((admitted db f).filter (fun e => e.object ∈ ids)).filterMap (fun e =>
    joined db e e.subject 1 direction)

/-- `GET_MULTI_NEIGHBORS_1HOP_SQL` before its `ORDER BY`. -/
def oneHopRows : List HopRow :=
  outgoing db f ids (some .out) ++ incoming db f ids (some .into)

/-- The recursive arm over one row. -/
def expand (n : HopRow) : List HopRow :=
  ((admitted db f).filter (fun e =>
    e.subject = n.neighbor.id || e.object = n.neighbor.id)).filterMap (fun e =>
      joined db e (if e.subject = n.neighbor.id then e.object else e.subject) (n.hop + 1) none)

def expandArm (maxHops : Nat) (w : List HopRow) : List HopRow :=
  (w.filter (fun n => n.hop < maxHops)).flatMap (expand db f)

def baseRows : List HopRow := outgoing db f ids none ++ incoming db f ids none

/-- The common table of `GET_MULTI_NEIGHBORS_2HOP_SQL`. -/
def neighbourhood (maxHops : Nat) : List HopRow :=
  Query.recursive (expandArm db f maxHops) maxHops (baseRows db f ids)

def withEvidence (row : HopRow) : NeighborhoodRow where
  toHopRow := row
  evidenceCount := db.graph.evidence.values.countP (fun ev => ev.edgeId = some row.edge.id)

/-- `%s::uuid[]`. -/
def castAll : List String → Except String (List Nat)
  | [] => .ok []
  | s :: rest =>
    match db.cast s, castAll rest with
    | none, _ => .error (db.invalidText s)
    | some _, .error msg => .error msg
    | some id, .ok ids => .ok (id :: ids)

/-- `get_neighbors_multi`. -/
def getNeighborsMulti (entityIds : List String) (hops : ℤ) (limit : Nat) :
    Except String (List NeighborhoodRow) :=
  if entityIds = [] then .ok []
  else
    let hops := max 1 (min hops 2)
    (castAll db entityIds).map (fun ids =>
      if hops = 1 then
        ((db.byConfidence (oneHopRows db f ids)).take limit).map (withEvidence db)
      else
        ((Query.distinctOn (fun row => row.edge.id)
          (db.byEdge (neighbourhood db f ids hops.toNat))).take limit).map (withEvidence db))

end Queries
section Spec
variable (db : NeighborDatabase) (f : EdgeFilter) (ids : List Nat)

/-- An admitted edge leads from one entity to another, whichever of them is its subject. -/
structure Meets (e : EdgeRow) (a b : Nat) : Prop where
  stored : e ∈ db.graph.edges.values
  admitted : admits db f e = true
  ends : e.subject = a ∧ e.object = b ∨ e.object = a ∧ e.subject = b
  known : (db.graph.entities.get? b).isSome = true

def Step (a b : Nat) : Prop := ∃ e, Meets db f e a b

/-- The edge is the `h`-th step of some walk from a focal entity. -/
def MetAt (h : Nat) (e : EdgeRow) : Prop :=
  ∃ a ∈ ids, ∃ n v b, h = n + 1 ∧ StepsIn (Step db f) a n v ∧ Meets db f e v b

structure LeastHop (h : Nat) (e : EdgeRow) : Prop where
  met : MetAt db f ids h e
  least : ∀ m, MetAt db f ids m e → h ≤ m

/-- The edge lies within two undirected steps of a focal entity. -/
def Near (e : EdgeRow) : Prop := ∃ h ≤ 2, MetAt db f ids h e

open Classical in
noncomputable def nearEdges : List EdgeRow :=
  db.graph.edges.values.filter (fun e => Near db f ids e)

/-- How many edges within two steps come before this one by their ids. -/
noncomputable def earlier (e : EdgeRow) : Nat :=
  (nearEdges db f ids).countP (fun x => x.id < e.id)

/-- `a` at hop `h` is to be kept before `b` at hop `k`. -/
def Precedes (h k : Nat) (a b : EdgeRow) : Prop := h < k ∨ h = k ∧ b.confidence < a.confidence

/-- Two-hop neighbourhoods as they are meant. -/
structure NeighborhoodExact (entityIds : List String) (limit : Nat) (rows : List NeighborhoodRow) :
    Prop where
  once : (rows.map (fun row => row.edge.id)).Nodup
  labelled : ∀ row ∈ rows, row.hop ≤ 2 ∧ LeastHop db f ids row.hop row.edge
  complete : (nearEdges db f ids).length ≤ limit → ∀ e, Near db f ids e → ∃ row ∈ rows, row.edge = e
  full : limit ≤ (nearEdges db f ids).length → rows.length = limit
  oneHop : ∀ limit' one, getNeighborsMulti db f entityIds 1 limit' = .ok one → one.length < limit' →
    ∀ row ∈ rows, (row.hop = 1 ↔ ∃ x ∈ one, x.edge = row.edge)
  nearestFirst : limit < (nearEdges db f ids).length → ∀ e h, h ≤ 2 → LeastHop db f ids h e →
    (∀ row ∈ rows, row.edge ≠ e) → ∀ row ∈ rows, ¬ Precedes h row.hop e row.edge

/-- Of the edges within two steps, those that the order of the ids puts beyond the limit are no
nearer and, where equally near, no more confident than those it puts within. -/
def KeepsNearest (limit : Nat) : Prop :=
  ∀ e x h k, h ≤ 2 → k ≤ 2 → LeastHop db f ids h e → LeastHop db f ids k x →
    limit ≤ earlier db f ids e → earlier db f ids x < limit → ¬ Precedes h k e x

end Spec
section Rows
variable {db : NeighborDatabase} {f : EdgeFilter} {ids : List Nat} {row n : HopRow} {e : EdgeRow}
  {maxHops h k : Nat} {direction : Option Direction}

theorem mem_admitted : e ∈ admitted db f ↔ e ∈ db.graph.edges.values ∧ admits db f e = true := by
  rw [admitted, List.mem_filter]

theorem joined_eq_some {far hop : Nat} : joined db e far hop direction = some row ↔
    row.edge = e ∧ row.neighbor.id = far ∧ row.hop = hop ∧ row.direction = direction ∧
      db.graph.entities.get? row.neighbor.id = some row.neighbor := by
  rw [joined, Option.map_eq_some_iff]
  constructor
  · rintro ⟨ent, hent, rfl⟩
    have hkey := Table.key_of_get? hent
    refine ⟨rfl, hkey, rfl, rfl, ?_⟩
    rw [hkey, hent]
  · obtain ⟨edge, ent, _, _⟩ := row
    rintro ⟨rfl, rfl, rfl, rfl, hent⟩
    exact ⟨ent, hent, rfl⟩

theorem mem_outgoing : row ∈ outgoing db f ids direction ↔
    row.edge ∈ admitted db f ∧ row.edge.subject ∈ ids ∧ row.neighbor.id = row.edge.object ∧
      row.hop = 1 ∧ row.direction = direction ∧
      db.graph.entities.get? row.neighbor.id = some row.neighbor := by
  simp only [outgoing, List.mem_filterMap, List.mem_filter, decide_eq_true_eq, joined_eq_some]
  constructor
  · rintro ⟨e, ⟨hadmitted, hsubject⟩, rfl, hfar⟩
    exact ⟨hadmitted, hsubject, hfar⟩
  · rintro ⟨hadmitted, hsubject, hfar⟩
    exact ⟨row.edge, ⟨hadmitted, hsubject⟩, rfl, hfar⟩

theorem mem_incoming : row ∈ incoming db f ids direction ↔
    row.edge ∈ admitted db f ∧ row.edge.object ∈ ids ∧ row.neighbor.id = row.edge.subject ∧
      row.hop = 1 ∧ row.direction = direction ∧
      db.graph.entities.get? row.neighbor.id = some row.neighbor := by
  simp only [incoming, List.mem_filterMap, List.mem_filter, decide_eq_true_eq, joined_eq_some]
  constructor
  · rintro ⟨e, ⟨hadmitted, hobject⟩, rfl, hfar⟩
    exact ⟨hadmitted, hobject, hfar⟩
  · rintro ⟨hadmitted, hobject, hfar⟩
    exact ⟨row.edge, ⟨hadmitted, hobject⟩, rfl, hfar⟩

theorem meets_iff : Meets db f e h k ↔ e ∈ admitted db f ∧
    (e.subject = h ∧ e.object = k ∨ e.object = h ∧ e.subject = k) ∧
      (db.graph.entities.get? k).isSome = true := by
  rw [mem_admitted]
  constructor
  · intro hm
    exact ⟨⟨hm.stored, hm.admitted⟩, hm.ends, hm.known⟩
  · rintro ⟨⟨hstored, hadmitted⟩, hends, hknown⟩
    exact ⟨hstored, hadmitted, hends, hknown⟩

/-- The two arms of the base find the edges that leave a focal entity, either way round. -/
theorem exists_outgoing_or_incoming (d d' : Option Direction) :
    (∃ row ∈ outgoing db f ids d ++ incoming db f ids d', row.edge = e) ↔
      ∃ a ∈ ids, ∃ b, Meets db f e a b := by
  constructor
  · rintro ⟨row, hrow, rfl⟩
    rcases List.mem_append.mp hrow with hrow | hrow
    · obtain ⟨hadmitted, hsubject, hfar, -, -, hent⟩ := mem_outgoing.mp hrow
      exact ⟨_, hsubject, row.neighbor.id,
        meets_iff.mpr ⟨hadmitted, .inl ⟨rfl, hfar.symm⟩, Option.isSome_iff_exists.mpr ⟨_, hent⟩⟩⟩
    · obtain ⟨hadmitted, hobject, hfar, -, -, hent⟩ := mem_incoming.mp hrow
      exact ⟨_, hobject, row.neighbor.id,
        meets_iff.mpr ⟨hadmitted, .inr ⟨rfl, hfar.symm⟩, Option.isSome_iff_exists.mpr ⟨_, hent⟩⟩⟩
  · rintro ⟨a, ha, b, hmeets⟩
    obtain ⟨hadmitted, hends, hknown⟩ := meets_iff.mp hmeets
    obtain ⟨ent, hent⟩ := Option.isSome_iff_exists.mp hknown
    have hkey := Table.key_of_get? hent
    rcases hends with ⟨rfl, rfl⟩ | ⟨rfl, rfl⟩
    · refine ⟨⟨e, ent, 1, d⟩, List.mem_append_left _ (mem_outgoing.mpr ?_), rfl⟩
      exact ⟨hadmitted, ha, hkey, rfl, rfl, by rw [hkey, hent]⟩
    · refine ⟨⟨e, ent, 1, d'⟩, List.mem_append_right _ (mem_incoming.mpr ?_), rfl⟩
      exact ⟨hadmitted, ha, hkey, rfl, rfl, by rw [hkey, hent]⟩

theorem mem_baseRows : row ∈ baseRows db f ids ↔ row.hop = 1 ∧ row.direction = none ∧
    db.graph.entities.get? row.neighbor.id = some row.neighbor ∧
      ∃ a ∈ ids, Meets db f row.edge a row.neighbor.id := by
  rw [baseRows, List.mem_append, mem_outgoing, mem_incoming]
  constructor
  · rintro (⟨hadmitted, hend, hfar, hhop, hdir, hent⟩ | ⟨hadmitted, hend, hfar, hhop, hdir, hent⟩)
    · exact ⟨hhop, hdir, hent, _, hend,
        meets_iff.mpr ⟨hadmitted, .inl ⟨rfl, hfar.symm⟩, Option.isSome_iff_exists.mpr ⟨_, hent⟩⟩⟩
    · exact ⟨hhop, hdir, hent, _, hend,
        meets_iff.mpr ⟨hadmitted, .inr ⟨rfl, hfar.symm⟩, Option.isSome_iff_exists.mpr ⟨_, hent⟩⟩⟩
  · rintro ⟨hhop, hdir, hent, a, ha, hmeets⟩
    obtain ⟨hadmitted, hends, -⟩ := meets_iff.mp hmeets
    rcases hends with ⟨rfl, hfar⟩ | ⟨rfl, hfar⟩
    · exact .inl ⟨hadmitted, ha, hfar.symm, hhop, hdir, hent⟩
    · exact .inr ⟨hadmitted, ha, hfar.symm, hhop, hdir, hent⟩

/-- The recursive arm goes over every edge at the neighbour, back ones and loops included. -/
theorem mem_expand : row ∈ expand db f n ↔ row.hop = n.hop + 1 ∧ row.direction = none ∧
    db.graph.entities.get? row.neighbor.id = some row.neighbor ∧
      Meets db f row.edge n.neighbor.id row.neighbor.id := by
  simp only [expand, List.mem_filterMap, List.mem_filter, Bool.or_eq_true, decide_eq_true_eq,
    joined_eq_some, meets_iff]
  constructor
  · rintro ⟨e, ⟨hadmitted, hend⟩, rfl, hfar, hhop, hdir, hent⟩
    refine ⟨hhop, hdir, hent, hadmitted, ?_, Option.isSome_iff_exists.mpr ⟨_, hent⟩⟩
    by_cases hsubject : row.edge.subject = n.neighbor.id
    · rw [if_pos hsubject] at hfar
      exact .inl ⟨hsubject, hfar.symm⟩
    · rw [if_neg hsubject] at hfar
      exact .inr ⟨hend.resolve_left hsubject, hfar.symm⟩
  · rintro ⟨hhop, hdir, hent, hadmitted, hends, -⟩
    refine ⟨row.edge, ⟨hadmitted, hends.imp And.left And.left⟩, rfl, ?_, hhop, hdir, hent⟩
    rcases hends with ⟨hsubject, hobject⟩ | ⟨hobject, hsubject⟩
    · rw [if_pos hsubject, hobject]
    · by_cases hloop : row.edge.subject = n.neighbor.id
      · rw [if_pos hloop, hobject, ← hloop, hsubject]
      · rw [if_neg hloop, hsubject]

theorem mem_expandArm {w : List HopRow} :
    row ∈ expandArm db f maxHops w ↔ ∃ n ∈ w, n.hop < maxHops ∧ row ∈ expand db f n := by
  simp only [expandArm, List.mem_flatMap, List.mem_filter, decide_eq_true_eq, and_assoc]

/-- What the working table holds after `k` rounds. -/
theorem mem_working (hk : k < maxHops) :
    row ∈ Query.working (expandArm db f maxHops) (baseRows db f ids) k ↔
      row.hop = k + 1 ∧ row.direction = none ∧
        db.graph.entities.get? row.neighbor.id = some row.neighbor ∧
        ∃ a ∈ ids, ∃ v, StepsIn (Step db f) a k v ∧ Meets db f row.edge v row.neighbor.id := by
  induction k generalizing row with
  | zero =>
    rw [Query.working, mem_baseRows]
    constructor
    · rintro ⟨hhop, hdir, hent, a, ha, hmeets⟩
      exact ⟨hhop, hdir, hent, a, ha, a, .refl, hmeets⟩
    · rintro ⟨hhop, hdir, hent, a, ha, v, hsteps, hmeets⟩
      cases hsteps
      exact ⟨hhop, hdir, hent, a, ha, hmeets⟩
  | succ k ih =>
    rw [Query.working, mem_expandArm]
    constructor
    · rintro ⟨n, hn, -, hrow⟩
      obtain ⟨hnhop, -, -, a, ha, v, hsteps, hn⟩ := (ih (Nat.lt_of_succ_lt hk)).mp hn
      obtain ⟨hhop, hdir, hent, hmeets⟩ := mem_expand.mp hrow
      rw [hnhop] at hhop
      exact ⟨hhop, hdir, hent, a, ha, n.neighbor.id, .tail hsteps ⟨n.edge, hn⟩, hmeets⟩
    · rintro ⟨hhop, hdir, hent, a, ha, v, hsteps, hmeets⟩
      cases hsteps with
      | @tail _ u _ hsteps hstep =>
        obtain ⟨e, he⟩ := hstep
        obtain ⟨ent, hknown⟩ := Option.isSome_iff_exists.mp he.known
        have hkey := Table.key_of_get? hknown
        subst hkey
        refine ⟨⟨e, ent, k + 1, none⟩, ?_, hk, mem_expand.mpr ⟨hhop, hdir, hent, hmeets⟩⟩
        exact (ih (Nat.lt_of_succ_lt hk)).mpr ⟨rfl, rfl, hknown, a, ha, u, hsteps, he⟩

/-- The recursion has run dry after as many rounds as there are hops. -/
theorem neighbourhood_stops (hpos : 0 < maxHops) (m : Nat) :
    Query.recursive (expandArm db f maxHops) (maxHops + m) (baseRows db f ids) =
      neighbourhood db f ids maxHops := by
  apply Query.recursive_stops rfl
  obtain ⟨k, rfl⟩ := Nat.exists_eq_succ_of_ne_zero hpos.ne'
  rw [Query.working]
  apply List.eq_nil_iff_forall_not_mem.mpr
  intro row hrow
  obtain ⟨n, hn, hhop, -⟩ := mem_expandArm.mp hrow
  obtain ⟨hlast, -⟩ := (mem_working (Nat.lt_succ_self k)).mp hn
  omega

/-- The common table holds an edge with each of the hops at which it is met. -/
theorem exists_neighbourhood : (∃ row ∈ neighbourhood db f ids maxHops, row.edge = e ∧ row.hop = h) ↔
    h ≤ maxHops ∧ MetAt db f ids h e := by
  constructor
  · rintro ⟨row, hrow, rfl, rfl⟩
    obtain ⟨k, hk, hrow⟩ := Query.mem_recursive.mp hrow
    obtain ⟨hhop, -, -, a, ha, v, hsteps, hmeets⟩ := (mem_working hk).mp hrow
    refine ⟨by omega, a, ha, k, v, row.neighbor.id, hhop, hsteps, hmeets⟩
  · rintro ⟨hle, a, ha, k, v, b, rfl, hsteps, hmeets⟩
    obtain ⟨ent, hent⟩ := Option.isSome_iff_exists.mp hmeets.known
    have hkey := Table.key_of_get? hent
    subst hkey
    refine ⟨⟨e, ent, k + 1, none⟩, Query.mem_recursive.mpr ⟨k, hle, ?_⟩, rfl, rfl⟩
    exact (mem_working hle).mpr ⟨rfl, rfl, hent, a, ha, v, hsteps, hmeets⟩


end Rows
section Answers
variable {db : NeighborDatabase} {f : EdgeFilter} {ids : List Nat} {row x y : HopRow} {e : EdgeRow}
  {entityIds : List String} {h k limit : Nat}

/-- The rows of the two-hop query before its `LIMIT`. -/
def distinctRows (db : NeighborDatabase) (f : EdgeFilter) (ids : List Nat) : List HopRow :=
  Query.distinctOn (fun row => row.edge.id) (db.byEdge (neighbourhood db f ids 2))

theorem distinctRows_sub (h : row ∈ distinctRows db f ids) : row ∈ neighbourhood db f ids 2 :=
  (db.byEdge_perm _).mem_iff.mp ((Query.distinctOn_sublist _ _).subset h)

theorem MetAt.stored (h : MetAt db f ids k e) : e ∈ db.graph.edges.values := by
  obtain ⟨_, _, _, _, _, _, _, hmeets⟩ := h
  exact hmeets.stored

theorem MetAt.pos (h : MetAt db f ids k e) : 1 ≤ k := by
  obtain ⟨_, _, n, _, _, rfl, _, _⟩ := h
  exact Nat.succ_pos n

theorem edgeOrder_id_le (h : edgeOrder x y) : x.edge.id ≤ y.edge.id := by
  rcases h with hlt | ⟨heq, -⟩
  · exact hlt.le
  · exact heq.le

theorem edgeOrder_hop_le (h : edgeOrder x y) (hid : x.edge.id = y.edge.id) : x.hop ≤ y.hop := by
  rcases h with hlt | ⟨-, hlt | ⟨heq, -⟩⟩
  · omega
  · exact hlt.le
  · exact heq.le

theorem distinctRows_ascending (db : NeighborDatabase) (f : EdgeFilter) (ids : List Nat) :
    (distinctRows db f ids).Pairwise (fun a b => a.edge.id < b.edge.id) := by
  have hsorted := (db.byEdge_sorted (neighbourhood db f ids 2)).sublist
    (Query.distinctOn_sublist (fun row => row.edge.id) _)
  have hnodup := Query.distinctOn_nodup (fun row : HopRow => row.edge.id)
    (db.byEdge (neighbourhood db f ids 2))
  rw [List.Nodup, List.pairwise_map] at hnodup
  apply (hsorted.and hnodup).imp
  rintro a b ⟨horder, hne⟩
  exact lt_of_le_of_ne (edgeOrder_id_le horder) hne

/-- `DISTINCT ON` keeps, of the rows of an edge, one with its least hop. -/
theorem leastHop_of_mem (hrow : row ∈ distinctRows db f ids) :
    row.hop ≤ 2 ∧ LeastHop db f ids row.hop row.edge := by
  obtain ⟨hle, hmet⟩ := exists_neighbourhood.mp ⟨row, distinctRows_sub hrow, rfl, rfl⟩
  refine ⟨hle, hmet, ?_⟩
  intro m hm
  by_contra hlt
  obtain ⟨y, hy, hedge, rfl⟩ :=
    exists_neighbourhood.mpr ⟨show m ≤ 2 by omega, hm⟩
  obtain ⟨z, hz, hkey, hbefore⟩ := Query.exists_distinctOn (fun row : HopRow => row.edge.id)
    (db.byEdge_sorted _) ((db.byEdge_perm _).mem_iff.mpr hy)
  have hzrow : z = row := by
    apply List.inj_on_of_nodup_map (Query.distinctOn_nodup (fun row : HopRow => row.edge.id) _) hz hrow
    rw [hkey, hedge]
  subst hzrow
  rcases hbefore with rfl | hbefore
  · exact hlt (Nat.le_refl _)
  · exact hlt (edgeOrder_hop_le hbefore hkey)

theorem exists_distinctRows (he : Near db f ids e) : ∃ row ∈ distinctRows db f ids, row.edge = e := by
  obtain ⟨h, hle, hmet⟩ := he
  obtain ⟨y, hy, rfl, -⟩ := exists_neighbourhood.mpr ⟨hle, hmet⟩
  obtain ⟨z, hz, hkey, -⟩ := Query.exists_distinctOn (fun row : HopRow => row.edge.id)
    (db.byEdge_sorted _) ((db.byEdge_perm _).mem_iff.mpr hy)
  refine ⟨z, hz, Table.eq_of_key ?_ hmet.stored hkey⟩
  exact (leastHop_of_mem hz).2.met.stored

theorem mem_nearEdges : e ∈ nearEdges db f ids ↔ Near db f ids e := by
  simp only [nearEdges, List.mem_filter, decide_eq_true_eq]
  constructor
  · exact And.right
  · intro he
    have hstored : e ∈ db.graph.edges.values := by
      obtain ⟨_, _, hmet⟩ := he
      exact hmet.stored
    exact ⟨hstored, he⟩

/-- The edges of the query are those within two steps, each once. -/
theorem distinctRows_perm (db : NeighborDatabase) (f : EdgeFilter) (ids : List Nat) :
    ((distinctRows db f ids).map (·.edge)).Perm (nearEdges db f ids) := by
  have hnodup : ((distinctRows db f ids).map (·.edge)).Nodup := by
    have hids := Query.distinctOn_nodup (fun row : HopRow => row.edge.id)
      (db.byEdge (neighbourhood db f ids 2))
    apply List.Nodup.of_map EdgeRow.id
    rw [List.map_map]
    exact hids
  have hstored : (nearEdges db f ids).Nodup :=
    List.Nodup.sublist List.filter_sublist (List.Nodup.of_map _ db.graph.edges.nodup)
  apply (List.perm_ext_iff_of_nodup hnodup hstored).mpr
  intro e
  rw [mem_nearEdges, List.mem_map]
  constructor
  · rintro ⟨row, hrow, rfl⟩
    obtain ⟨hle, hleast⟩ := leastHop_of_mem hrow
    exact ⟨row.hop, hle, hleast.met⟩
  · exact exists_distinctRows

theorem distinctRows_length (db : NeighborDatabase) (f : EdgeFilter) (ids : List Nat) :
    (distinctRows db f ids).length = (nearEdges db f ids).length := by
  rw [← (distinctRows_perm db f ids).length_eq, List.length_map]

theorem countP_distinctRows (db : NeighborDatabase) (f : EdgeFilter) (ids : List Nat) (e : EdgeRow) :
    (distinctRows db f ids).countP (fun row => row.edge.id < e.id) = earlier db f ids e := by
  rw [earlier, ← (distinctRows_perm db f ids).countP_eq, List.countP_map]
  rfl

/-- What the limit keeps is decided by the ids alone. -/
theorem mem_take_distinctRows : row ∈ (distinctRows db f ids).take limit ↔
    row ∈ distinctRows db f ids ∧ earlier db f ids row.edge < limit := by
  rw [← countP_distinctRows]
  exact Query.mem_take_iff (distinctRows_ascending db f ids) limit

end Answers
section Exact
variable {db : NeighborDatabase} {f : EdgeFilter} {ids : List Nat} {e : EdgeRow}
  {entityIds : List String} {limit : Nat}

theorem not_metAt_nil {h : Nat} : ¬ MetAt db f [] h e := by
  rintro ⟨a, ha, -⟩
  exact List.not_mem_nil ha

theorem distinctRows_nil (db : NeighborDatabase) (f : EdgeFilter) : distinctRows db f [] = [] := by
  apply List.eq_nil_iff_forall_not_mem.mpr
  intro row hrow
  exact not_metAt_nil (leastHop_of_mem hrow).2.met

theorem oneHopRows_nil (db : NeighborDatabase) (f : EdgeFilter) : oneHopRows db f [] = [] := by
  apply List.eq_nil_iff_forall_not_mem.mpr
  intro row hrow
  obtain ⟨a, ha, -⟩ := (exists_outgoing_or_incoming (some .out) (some .into)).mp ⟨row, hrow, rfl⟩
  exact List.not_mem_nil ha

theorem getNeighborsMulti_two (hcast : castAll db entityIds = .ok ids) :
    getNeighborsMulti db f entityIds 2 limit =
      .ok (((distinctRows db f ids).take limit).map (withEvidence db)) := by
  rw [getNeighborsMulti]
  by_cases hnil : entityIds = []
  · subst hnil
    cases hcast
    rw [if_pos rfl, distinctRows_nil, List.take_nil, List.map_nil]
  · rw [if_neg hnil, hcast]
    rfl

theorem getNeighborsMulti_one (hcast : castAll db entityIds = .ok ids) :
    getNeighborsMulti db f entityIds 1 limit =
      .ok (((db.byConfidence (oneHopRows db f ids)).take limit).map (withEvidence db)) := by
  rw [getNeighborsMulti]
  by_cases hnil : entityIds = []
  · subst hnil
    cases hcast
    have hempty := db.byConfidence_perm (oneHopRows db f [])
    rw [oneHopRows_nil] at hempty ⊢
    rw [if_pos rfl, hempty.eq_nil, List.take_nil, List.map_nil]
  · rw [if_neg hnil, hcast]
    rfl

/-- An answer of the one-hop query that its limit did not cut has all the edges at hop 1. -/
theorem oneHop_iff {limit' : Nat} {one : List NeighborhoodRow}
    (hcast : castAll db entityIds = .ok ids)
    (hone : getNeighborsMulti db f entityIds 1 limit' = .ok one) (huncut : one.length < limit') :
    (∃ x ∈ one, x.edge = e) ↔ MetAt db f ids 1 e := by
  rw [getNeighborsMulti_one hcast] at hone
  cases hone
  have hall : (db.byConfidence (oneHopRows db f ids)).take limit' =
      db.byConfidence (oneHopRows db f ids) := by
    apply List.take_of_length_le
    rw [List.length_map, List.length_take] at huncut
    omega
  have hmet : MetAt db f ids 1 e ↔ ∃ a ∈ ids, ∃ b, Meets db f e a b := by
    constructor
    · rintro ⟨a, ha, n, v, b, hn, hsteps, hmeets⟩
      obtain rfl : n = 0 := by omega
      cases hsteps
      exact ⟨a, ha, b, hmeets⟩
    · rintro ⟨a, ha, b, hmeets⟩
      exact ⟨a, ha, 0, a, b, rfl, .refl, hmeets⟩
  rw [hall, hmet, ← exists_outgoing_or_incoming (some .out) (some .into)]
  constructor
  · rintro ⟨x, hx, rfl⟩
    obtain ⟨row, hrow, rfl⟩ := List.mem_map.mp hx
    exact ⟨row, (db.byConfidence_perm _).mem_iff.mp hrow, rfl⟩
  · rintro ⟨row, hrow, rfl⟩
    exact ⟨withEvidence db row, List.mem_map_of_mem ((db.byConfidence_perm _).mem_iff.mpr hrow), rfl⟩

/-- An edge within two steps comes back if fewer than the limit come before it. -/
theorem returned_iff (he : Near db f ids e) :
    (∃ row ∈ ((distinctRows db f ids).take limit).map (withEvidence db), row.edge = e) ↔
      earlier db f ids e < limit := by
  constructor
  · rintro ⟨x, hx, rfl⟩
    obtain ⟨row, hrow, rfl⟩ := List.mem_map.mp hx
    exact (mem_take_distinctRows.mp hrow).2
  · intro hlt
    obtain ⟨row, hrow, rfl⟩ := exists_distinctRows he
    exact ⟨withEvidence db row, List.mem_map_of_mem (mem_take_distinctRows.mpr ⟨hrow, hlt⟩), rfl⟩

theorem earlier_lt (he : Near db f ids e) : earlier db f ids e < (nearEdges db f ids).length := by
  apply List.countP_lt_length_iff.mpr
  exact ⟨e, mem_nearEdges.mpr he, by simp⟩

end Exact
section FarFirst

instance : DecidableRel moreConfident := fun a b =>
  inferInstanceAs (Decidable (b.edge.confidence ≤ a.edge.confidence))

instance : Std.Total moreConfident := ⟨fun a b => le_total b.edge.confidence a.edge.confidence⟩

instance : IsTrans HopRow moreConfident := ⟨fun _ _ _ hab hbc => le_trans hbc hab⟩

instance : DecidableRel edgeOrder := fun a b =>
  inferInstanceAs (Decidable (a.edge.id < b.edge.id ∨ a.edge.id = b.edge.id ∧
    (a.hop < b.hop ∨ a.hop = b.hop ∧ moreConfident a b)))

theorem edgeOrder_total (a b : HopRow) : edgeOrder a b ∨ edgeOrder b a := by
  rcases Nat.lt_trichotomy a.edge.id b.edge.id with hid | hid | hid
  · exact .inl (.inl hid)
  · rcases Nat.lt_trichotomy a.hop b.hop with hhop | hhop | hhop
    · exact .inl (.inr ⟨hid, .inl hhop⟩)
    · rcases le_total b.edge.confidence a.edge.confidence with hconf | hconf
      · exact .inl (.inr ⟨hid, .inr ⟨hhop, hconf⟩⟩)
      · exact .inr (.inr ⟨hid.symm, .inr ⟨hhop.symm, hconf⟩⟩)
    · exact .inr (.inr ⟨hid.symm, .inl hhop⟩)
  · exact .inr (.inl hid)

theorem edgeOrder_trans {a b c : HopRow} (hab : edgeOrder a b) (hbc : edgeOrder b c) :
    edgeOrder a c := by
  rcases hab with hab | ⟨hid, hab⟩
  · exact .inl (hab.trans_le (edgeOrder_id_le hbc))
  · rcases hbc with hbc | ⟨hid', hbc⟩
    · exact .inl (hid ▸ hbc)
    · refine .inr ⟨hid.trans hid', ?_⟩
      rcases hab with hab | ⟨hhop, hab⟩
      · rcases hbc with hbc | ⟨hhop', -⟩
        · exact .inl (hab.trans hbc)
        · exact .inl (hhop' ▸ hab)
      · rcases hbc with hbc | ⟨hhop', hbc⟩
        · exact .inl (hhop ▸ hbc)
        · exact .inr ⟨hhop.trans hhop', le_trans hbc hab⟩

instance : Std.Total edgeOrder := ⟨edgeOrder_total⟩

instance : IsTrans HopRow edgeOrder := ⟨fun _ _ _ => edgeOrder_trans⟩

def service (id : Nat) (name : String) : EntityRow where
  id := id
  brainId := "main"
  entityType := "service"
  canonicalName := name
  aliases := []
  metadata := []
  confidence := 1
  source := "agent"
  sourceAgent := "unknown"
  createdAt := 0
  updatedAt := 0

def uses (id subject object : Nat) : EdgeRow where
  id := id
  brainId := "main"
  subject := subject
  predicate := "uses"
  object := object
  createdAt := 0
  updatedAt := 0

/-- A web service that uses an api, which uses a database; the far edge has the lesser id. -/
def serviceChain : NeighborDatabase where
  graph := {
    entities := ((Table.empty.set (service 0 "web")).set (service 1 "api")).set (service 2 "database")
    edges := (Table.empty.set (uses 4 0 1)).set (uses 3 1 2) }
  brainId := "main"
  cast := fun s => if s = "web" then some 0 else none
  invalidText := fun s => s
  byConfidence := List.insertionSort moreConfident
  byConfidence_perm := List.perm_insertionSort moreConfident
  byConfidence_sorted := List.pairwise_insertionSort moreConfident
  byEdge := List.insertionSort edgeOrder
  byEdge_perm := List.perm_insertionSort edgeOrder
  byEdge_sorted := List.pairwise_insertionSort edgeOrder

theorem serviceChain_near : Meets serviceChain {} (uses 4 0 1) 0 1 := by
  constructor
  · decide +kernel
  · decide +kernel
  · exact .inl ⟨rfl, rfl⟩
  · decide +kernel

theorem serviceChain_far : Meets serviceChain {} (uses 3 1 2) 1 2 := by
  constructor
  · decide +kernel
  · decide +kernel
  · exact .inl ⟨rfl, rfl⟩
  · decide +kernel

end FarFirst
end TappsBrain.Neighborhood
