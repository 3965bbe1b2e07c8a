import Mathlib.Data.List.Sort
import Mathlib.Algebra.Order.Ring.Rat
import TappsBrain.AsyncGraphStore
import TappsBrain.EntityNames
import TappsBrain.KgCheck

namespace TappsBrain
open Lib
set_option autoImplicit true
set_option relaxedAutoImplicit false

inductive ResolveReason where
  | explicitId | notFound | exactMatch | aliasMatch | ambiguousAlias
deriving DecidableEq, Repr

def ResolveReason.text : ResolveReason → String
  | .explicitId => "explicit_id"
  | .notFound => "not_found"
  | .exactMatch => "exact_match"
  | .aliasMatch => "alias_match"
  | .ambiguousAlias => "ambiguous_alias"

structure Resolution where
  entityId : Option Nat
  confidence : ℚ
  reason : ResolveReason
deriving DecidableEq

/-- `ORDER BY confidence DESC`. -/
def byConfidence (l : List EntityRow) : List EntityRow :=
  l.insertionSort (fun x y => y.confidence ≤ x.confidence)

/-- `RESOLVE_ENTITY_EXACT_SQL`. -/
def resolveEntityExact (w : GraphWorld) (brain type name : String) (g : Graph) : List EntityRow :=
  (byConfidence (g.entities.values.filter (fun x => x.brainId = brain && x.entityType = type &&
    w.dbLower x.canonicalName = w.dbLower name))).take 1

/-- `RESOLVE_ENTITY_BY_ALIAS_SQL`. -/
def resolveEntityByAlias (w : GraphWorld) (brain type name : String) (g : Graph) : List EntityRow :=
  (byConfidence (g.entities.values.filter (fun x => x.brainId = brain && x.entityType = type &&
    x.aliases.contains (w.dbLower name)))).take 2

/-- One row of `BATCH_RESOLVE_EXACT_SQL` or `BATCH_RESOLVE_ALIAS_SQL`. -/
structure MatchedNorm where
  norm : String
  entityId : Nat
  confidence : ℚ
deriving DecidableEq

/-- `BATCH_RESOLVE_EXACT_SQL`. -/
def batchResolveExact (w : GraphWorld) (brain : String) (norms : List String) (g : Graph) :
    List MatchedNorm :=
  (byConfidence (g.entities.values.filter (fun x => x.brainId = brain &&
    norms.contains (w.dbLower x.canonicalName)))).map
      (fun x => ⟨w.dbLower x.canonicalName, x.id, x.confidence⟩)

/-- The elements of a row's `aliases` that `BATCH_RESOLVE_ALIAS_SQL` keeps. -/
def matchedAliases (w : GraphWorld) (norms : List String) (x : EntityRow) : List MatchedNorm :=
  (x.aliases.filter (fun b => norms.contains (w.dbLower b))).map
    (fun b => ⟨w.dbLower b, x.id, x.confidence⟩)

/-- `BATCH_RESOLVE_ALIAS_SQL`. -/
def batchResolveAlias (w : GraphWorld) (brain : String) (norms : List String) (g : Graph) :
    List MatchedNorm :=
  (byConfidence (g.entities.values.filter (fun x => x.brainId = brain))).flatMap
    (matchedAliases w norms)

/-- An item of the dictionary `batch_resolve_entities` returns. -/
structure BatchResolution where
  norm : String
  entityId : Nat
  confidence : ℚ
  reason : ResolveReason
deriving DecidableEq

abbrev BatchResult := Table BatchResolution.norm

/-- `if norm not in result: result[norm] = ...`. -/
def BatchResult.setDefault (result : BatchResult) (r : BatchResolution) : BatchResult :=
  if result.contains r.norm then result else result.set r

/-- An item of `alias_hits`. -/
structure AliasHits where
  norm : String
  first : MatchedNorm
  more : List MatchedNorm

/-- `alias_hits.setdefault(norm, []).append(...)`. -/
def addHit : List AliasHits → MatchedNorm → List AliasHits
  | [], r => [⟨r.norm, r, []⟩]
  | hits :: rest, r =>
    if hits.norm = r.norm then { hits with more := hits.more ++ [r] } :: rest
    else hits :: addHit rest r

def AliasHits.best (hits : AliasHits) : BatchResolution where
  norm := hits.norm
  entityId := hits.first.entityId
  confidence := hits.first.confidence
  reason := if hits.more = [] then .aliasMatch else .ambiguousAlias

/-- The answer of the lookup by id. -/
def explicitId : Option EntityRow → Resolution
  | some x => ⟨some x.id, x.confidence, .explicitId⟩
  | none => ⟨none, 0, .notFound⟩

/-- The answer of the alias lookup. -/
def aliasAnswer : List EntityRow → Resolution
  | [] => ⟨none, 0, .notFound⟩
  | [x] => ⟨some x.id, x.confidence, .aliasMatch⟩
  | x :: _ :: _ => ⟨some x.id, x.confidence, .ambiguousAlias⟩

def MatchedNorm.exact (r : MatchedNorm) : BatchResolution :=
  ⟨r.norm, r.entityId, r.confidence, .exactMatch⟩

/-- The result after pass 1. -/
def exactResults (rows : List MatchedNorm) : BatchResult :=
  (rows.map MatchedNorm.exact).foldl BatchResult.setDefault Table.empty

/-- `[n for n in norms if n not in result]`. -/
def unresolvedOf (norms : List String) (result : BatchResult) : List String :=
  norms.filter (fun n => !result.contains n)

/-- The result after pass 2. -/
def aliasResults (rows : List MatchedNorm) (result : BatchResult) : BatchResult :=
  ((rows.foldl addHit []).map AliasHits.best).foldl BatchResult.setDefault result

namespace GraphStore

/-- `PostgresKnowledgeGraphStore.resolve_entity`; `uuidOf` is the id a name is read as when
`uuid.UUID` takes it. -/
def resolveEntity (w : GraphWorld) (k : GraphConfig) (uuidOf : String → Option IdText)
    (type name : String) : Tx Resolution :=
  match uuidOf name with
  | some t =>
    transaction w (fun _ => do
      let id ← castUuid t
      let row ← Prog.read (fun g : Graph => g.entities.get? id)
      pure (explicitId row))
  | none =>
    transaction w (fun _ => do
      let exactRows ← Prog.read (resolveEntityExact w k.brainId type name)
      match exactRows with
      | x :: _ => pure ⟨some x.id, x.confidence, .exactMatch⟩
      | [] => do
        let aliasRows ← Prog.read (resolveEntityByAlias w k.brainId type name)
        pure (aliasAnswer aliasRows))

/-- `PostgresKnowledgeGraphStore.batch_resolve_entities`. -/
def batchResolveEntities (w : GraphWorld) (k : GraphConfig) (candidates : List String) :
    Tx BatchResult :=
  if candidates = [] then pure Table.empty
  else
    let norms := candidates.map w.unicode.lower
    transaction w (fun _ => do
      let exactRows ← Prog.read (batchResolveExact w k.brainId norms)
      let result := exactResults exactRows
      if unresolvedOf norms result = [] then pure result
      else do
        let rows ← Prog.read (batchResolveAlias w k.brainId (unresolvedOf norms result))
        pure (aliasResults rows result))

end GraphStore

/-- No member has a higher confidence. -/
def Highest (l : List EntityRow) (y : EntityRow) : Prop :=
  y ∈ l ∧ ∀ z ∈ l, z.confidence ≤ y.confidence

def ofType (type? : Option String) (x : EntityRow) : Bool := type?.all (x.entityType = ·)

/-- The entities with the name, in any letter case. -/
def exacts (w : GraphWorld) (brain : String) (type? : Option String) (name : String) (g : Graph) :
    List EntityRow :=
  g.entities.values.filter (fun x => x.brainId = brain && ofType type? x &&
    w.unicode.lower x.canonicalName = w.unicode.lower name)

/-- The entities that carry the alias, in any letter case. -/
def carriers (w : GraphWorld) (brain : String) (type? : Option String) (name : String) (g : Graph) :
    List EntityRow :=
  g.entities.values.filter (fun x => x.brainId = brain && ofType type? x &&
    x.aliases.any (fun b => w.unicode.lower b = w.unicode.lower name))

/-- Those of them that store the alias lower-cased. -/
def storedCarriers (w : GraphWorld) (brain type name : String) (g : Graph) : List EntityRow :=
  (carriers w brain (some type) name g).filter (fun x => x.aliases.contains (w.unicode.lower name))

/-- The entity a name should resolve to. -/
def Wanted (w : GraphWorld) (brain : String) (type? : Option String) (name : String) (g : Graph)
    (y : EntityRow) : Prop :=
  Highest (exacts w brain type? name g) y ∨
    exacts w brain type? name g = [] ∧ Highest (carriers w brain type? name g) y

section Rows
variable {w : GraphWorld} {brain type name : String} {g : Graph} {x y : EntityRow}
  {l rest : List EntityRow}

theorem byConfidence_sorted (l : List EntityRow) :
    (byConfidence l).Pairwise (fun x y => y.confidence ≤ x.confidence) := by
  have htotal : Std.Total (fun x y : EntityRow => y.confidence ≤ x.confidence) :=
    ⟨fun x y => le_total y.confidence x.confidence⟩
  have htrans : IsTrans EntityRow (fun x y => y.confidence ≤ x.confidence) :=
    ⟨fun _ _ _ hxy hyz => hyz.trans hxy⟩
  exact List.pairwise_insertionSort _ l

theorem mem_byConfidence : x ∈ byConfidence l ↔ x ∈ l :=
  List.mem_insertionSort _

theorem byConfidence_highest (h : byConfidence l = x :: rest) : Highest l x := by
  have hs := byConfidence_sorted l
  have hx : x ∈ byConfidence l := by
    rw [h]
    exact List.mem_cons_self
  refine ⟨mem_byConfidence.1 hx, ?_⟩
  intro z hz
  have hz' := mem_byConfidence.2 hz
  rw [h] at hs hz'
  rcases List.mem_cons.1 hz' with rfl | hz'
  · exact le_refl _
  · exact (List.pairwise_cons.1 hs).1 z hz'

theorem byConfidence_nil : byConfidence l = [] ↔ l = [] := by
  constructor
  · intro h
    apply List.eq_nil_iff_forall_not_mem.2
    intro x hx
    have hx' := mem_byConfidence.2 hx
    rw [h] at hx'
    cases hx'
  · rintro rfl
    rfl

/-- The rows whose stored aliases contain the lower-cased name. -/
theorem resolveEntityByAlias_rows (hl : ∀ s, w.dbLower s = w.unicode.lower s) :
    g.entities.values.filter (fun x => x.brainId = brain && x.entityType = type &&
      x.aliases.contains (w.dbLower name)) =
    storedCarriers w brain type name g := by
  rw [storedCarriers, carriers, List.filter_filter]
  apply List.filter_congr
  intro x _
  rw [hl]
  cases hc : x.aliases.contains (w.unicode.lower name) with
  | false => rw [Bool.and_false, Bool.false_and]
  | true =>
    have hany : x.aliases.any (fun b => w.unicode.lower b = w.unicode.lower name) = true := by
      apply List.any_eq_true.2
      refine ⟨w.unicode.lower name, List.contains_iff_mem.1 hc, ?_⟩
      exact decide_eq_true (w.unicode.lower_lower name)
    rw [hany, Bool.and_true, Bool.and_true, Bool.true_and]
    rfl

theorem resolveEntityExact_eq (hl : ∀ s, w.dbLower s = w.unicode.lower s) :
    resolveEntityExact w brain type name g =
      (byConfidence (exacts w brain (some type) name g)).take 1 := by
  unfold resolveEntityExact exacts
  simp only [hl]
  rfl

theorem transaction_open (hopen : w.refuses g.ticks = false) (body : Stamp → Tx α) :
    (transaction w body g).1 = (body (w.clock g.ticks) g.opened).1 := by
  unfold transaction
  rw [hopen, if_neg Bool.false_ne_true]
  rcases body (w.clock g.ticks) g.opened with ⟨e | a, h⟩
  · rfl
  · rfl

theorem Highest.ne_nil (h : Highest l y) : l ≠ [] := List.ne_nil_of_mem h.1

theorem exists_byConfidence (h : l ≠ []) : ∃ y rest, byConfidence l = y :: rest ∧ Highest l y := by
  cases hb : byConfidence l with
  | nil => exact absurd (byConfidence_nil.1 hb) h
  | cons y rest => exact ⟨y, rest, rfl, byConfidence_highest hb⟩

end Rows

/-- The alias is stored lower-cased with an entity of the highest confidence. -/
def StoredHighest (w : GraphWorld) (brain type name : String) (g : Graph) : Prop :=
  ∃ y, Highest (carriers w brain (some type) name g) y ∧ w.unicode.lower name ∈ y.aliases

/-- What the lookup by name takes. -/
def FoundByName (w : GraphWorld) (brain type name : String) (g : Graph) : Prop :=
  exacts w brain (some type) name g ≠ [] ∨ StoredHighest w brain type name g

/-- What the lookup of an id takes. -/
def FoundById (w : GraphWorld) (brain type name : String) (g : Graph) (t : IdText) : Prop :=
  ∃ i y, t = .uuid i ∧ g.entities.get? i = some y ∧ Wanted w brain (some type) name g y

/-- The answer names an entity that was wanted. -/
def Names (w : GraphWorld) (brain : String) (type? : Option String) (name : String) (g : Graph)
    (id? : Option Nat) : Prop :=
  ∃ y ∈ g.entities.values, id? = some y.id ∧ Wanted w brain type? name g y

section Resolve
variable {w : GraphWorld} {k : GraphConfig} {uuidOf : String → Option IdText}
  {type name : String} {g : Graph} {y : EntityRow} {r : Resolution}

theorem mem_of_exacts {type? : Option String} (h : y ∈ exacts w k.brainId type? name g) :
    y ∈ g.entities.values := (List.mem_filter.1 h).1

theorem mem_of_carriers {type? : Option String} (h : y ∈ carriers w k.brainId type? name g) :
    y ∈ g.entities.values := (List.mem_filter.1 h).1

theorem Wanted.mem {type? : Option String} (h : Wanted w k.brainId type? name g y) :
    y ∈ g.entities.values := by
  rcases h with h | ⟨-, h⟩
  · exact mem_of_exacts h.1
  · exact mem_of_carriers h.1

/-- The lookup by id, on a connection that opens. -/
theorem resolveEntity_by_id {t : IdText} (ht : uuidOf name = some t)
    (hopen : w.refuses g.ticks = false) :
    (∃ r, (GraphStore.resolveEntity w k uuidOf type name g).1 = .ok r ∧
      Names w k.brainId (some type) name g r.entityId) ↔ FoundById w k.brainId type name g t := by
  rw [GraphStore.resolveEntity, ht]
  dsimp only
  rw [transaction_open hopen]
  cases t with
  | malformed text =>
    constructor
    · rintro ⟨r, hr, -⟩
      cases hr
    · rintro ⟨i, y, hi, -⟩
      cases hi
  | uuid i =>
    change (∃ r, Except.ok (explicitId (g.entities.get? i)) = Except.ok r ∧ _) ↔ _
    constructor
    · rintro ⟨r, hr, y, hy, hid, hw⟩
      cases hr
      cases hg : g.entities.get? i with
      | none =>
        rw [hg] at hid
        cases hid
      | some x =>
        rw [hg] at hid
        have hxy : x = y :=
          Table.eq_of_key (Table.mem_of_get? hg) hy (Option.some.inj hid)
        rw [hxy] at hg
        exact ⟨i, y, rfl, hg, hw⟩
    · rintro ⟨j, y, hj, hg, hw⟩
      cases hj
      rw [hg]
      exact ⟨_, rfl, y, Table.mem_of_get? hg, rfl, hw⟩

/-- What the lookup by name answers, on a connection that opens. -/
theorem resolveEntity_answer (hl : ∀ s, w.dbLower s = w.unicode.lower s) (hn : uuidOf name = none)
    (hopen : w.refuses g.ticks = false) :
    (GraphStore.resolveEntity w k uuidOf type name g).1 =
      .ok (match (byConfidence (exacts w k.brainId (some type) name g)).take 1 with
        | x :: _ => ⟨some x.id, x.confidence, .exactMatch⟩
        | [] => aliasAnswer ((byConfidence (storedCarriers w k.brainId type name g)).take 2)) := by
  rw [GraphStore.resolveEntity, hn]
  dsimp only
  rw [transaction_open hopen, Prog.bind_run, Prog.read_run]
  dsimp only
  rw [show resolveEntityExact w k.brainId type name g.opened =
    resolveEntityExact w k.brainId type name g from rfl, resolveEntityExact_eq hl,
    ← resolveEntityByAlias_rows hl]
  cases (byConfidence (exacts w k.brainId (some type) name g)).take 1 with
  | nil => rfl
  | cons x rest => rfl

theorem aliasAnswer_first (rest : List EntityRow) :
    (aliasAnswer ((y :: rest).take 2)).entityId = some y.id := by
  cases rest with
  | nil => rfl
  | cons z rest => rfl

/-- The lookup by name, on a connection that opens. -/
theorem resolveEntity_by_name (hl : ∀ s, w.dbLower s = w.unicode.lower s) (hn : uuidOf name = none)
    (hopen : w.refuses g.ticks = false) :
    (∃ r, (GraphStore.resolveEntity w k uuidOf type name g).1 = .ok r ∧
      Names w k.brainId (some type) name g r.entityId) ↔ FoundByName w k.brainId type name g := by
  rw [resolveEntity_answer hl hn hopen]
  by_cases hexact : exacts w k.brainId (some type) name g = []
  · rw [hexact]
    change (∃ r, Except.ok (aliasAnswer _) = Except.ok r ∧ _) ↔ _
    constructor
    · rintro ⟨r, hr, y, hy, hid, hw⟩
      cases hr
      refine .inr ?_
      rcases hw with hw | ⟨-, hw⟩
      · exact absurd hexact hw.ne_nil
      · have hsome : storedCarriers w k.brainId type name g ≠ [] := by
          intro hnone
          rw [hnone] at hid
          cases hid
        obtain ⟨x, rest, hs, hx⟩ := exists_byConfidence hsome
        rw [hs, aliasAnswer_first] at hid
        obtain ⟨hxc, hxs⟩ := List.mem_filter.1 hx.1
        have hxy : x = y := Table.eq_of_key (mem_of_carriers hxc) hy (Option.some.inj hid)
        rw [← hxy] at hw
        exact ⟨x, hw, List.contains_iff_mem.1 hxs⟩
    · rintro (hno | ⟨y, hy, hstored⟩)
      · exact absurd hexact hno
      · have hys : y ∈ storedCarriers w k.brainId type name g := List.mem_filter.2 ⟨hy.1, List.contains_iff_mem.2 hstored⟩
        obtain ⟨x, rest, hs, hx⟩ := exists_byConfidence (List.ne_nil_of_mem hys)
        have hxc : x ∈ carriers w k.brainId (some type) name g := (List.mem_filter.1 hx.1).1
        refine ⟨_, rfl, x, mem_of_carriers hxc, ?_, .inr ⟨hexact, hxc, ?_⟩⟩
        · rw [hs, aliasAnswer_first]
        · intro z hz
          exact (hy.2 z hz).trans (hx.2 y hys)
  · obtain ⟨y, rest, hs, hy⟩ := exists_byConfidence hexact
    rw [hs]
    constructor
    · rintro -
      exact .inl hexact
    · rintro -
      exact ⟨_, rfl, y, mem_of_exacts hy.1, rfl, .inl hy⟩

end Resolve

section Batch
variable {w : GraphWorld} {k : GraphConfig} {name n : String} {g : Graph} {t : BatchResult}
  {r : BatchResolution} {l : List BatchResolution} {hit : MatchedNorm} {more rows : List MatchedNorm}

theorem foldl_setDefault_known (hc : t.contains n = true) (hn : ∀ r ∈ l, r.norm = n) :
    l.foldl BatchResult.setDefault t = t := by
  induction l with
  | nil => rfl
  | cons r rest ih =>
    have hr : t.setDefault r = t := by
      rw [BatchResult.setDefault, hn r List.mem_cons_self, hc, if_pos rfl]
    rw [List.foldl_cons, hr]
    exact ih (fun r' hr' => hn r' (List.mem_cons_of_mem r hr'))

/-- Of several answers for one name the first is kept. -/
theorem foldl_setDefault_first (hn : ∀ r' ∈ l, r'.norm = r.norm) :
    (r :: l).foldl BatchResult.setDefault Table.empty = Table.empty.set r := by
  rw [List.foldl_cons]
  exact foldl_setDefault_known (Table.contains_set_self Table.empty r) hn

theorem foldl_addHit_known (hn : ∀ r ∈ rows, r.norm = n) :
    rows.foldl addHit [⟨n, hit, more⟩] = [⟨n, hit, more ++ rows⟩] := by
  induction rows generalizing more with
  | nil => rw [List.append_nil, List.foldl_nil]
  | cons r rest ih =>
    have hr : addHit [⟨n, hit, more⟩] r = [⟨n, hit, more ++ [r]⟩] := by
      rw [addHit, if_pos (hn r List.mem_cons_self).symm]
    rw [List.foldl_cons, hr, ih (fun r' hr' => hn r' (List.mem_cons_of_mem r hr')),
      List.append_assoc, List.singleton_append]

/-- The hits of one name are one group. -/
theorem foldl_addHit_first (hn : ∀ r ∈ rows, r.norm = hit.norm) :
    (hit :: rows).foldl addHit [] = [⟨hit.norm, hit, rows⟩] := by
  rw [List.foldl_cons, addHit, foldl_addHit_known hn, List.nil_append]

theorem batchResolveExact_one (hl : ∀ s, w.dbLower s = w.unicode.lower s) :
    batchResolveExact w k.brainId [w.unicode.lower name] g =
      (byConfidence (exacts w k.brainId none name g)).map
        (fun x => ⟨w.unicode.lower name, x.id, x.confidence⟩) := by
  unfold batchResolveExact
  simp only [hl]
  have hsame : g.entities.values.filter (fun x => x.brainId = k.brainId &&
      [w.unicode.lower name].contains (w.unicode.lower x.canonicalName)) =
      exacts w k.brainId none name g := by
    apply List.filter_congr
    intro x _
    rw [ofType, Option.all_none, Bool.and_true]
    congr 1
    rw [List.contains_cons, List.contains_nil, Bool.or_false]
    rfl
  rw [hsame]
  apply List.map_congr_left
  intro x hx
  have hx' := (List.mem_filter.1 (mem_byConfidence.1 hx)).2
  rw [Bool.and_eq_true, decide_eq_true_eq] at hx'
  rw [hx'.2]

/-- The aliases of a row that are the name in another letter case. -/
def sameAliases (w : GraphWorld) (name : String) (x : EntityRow) : List String :=
  x.aliases.filter (fun b => w.unicode.lower b = w.unicode.lower name)

def aliasHit (w : GraphWorld) (name : String) (x : EntityRow) : MatchedNorm :=
  ⟨w.unicode.lower name, x.id, x.confidence⟩

theorem matchedAliases_one (hl : ∀ s, w.dbLower s = w.unicode.lower s) (x : EntityRow) :
    matchedAliases w [w.unicode.lower name] x =
      (sameAliases w name x).map (fun _ => aliasHit w name x) := by
  have hsame : x.aliases.filter (fun b => [w.unicode.lower name].contains (w.unicode.lower b)) =
      sameAliases w name x := by
    apply List.filter_congr
    intro b _
    rw [List.contains_cons, List.contains_nil, Bool.or_false]
    rfl
  unfold matchedAliases
  simp only [hl]
  rw [hsame]
  apply List.map_congr_left
  intro b hb
  have hb' := (List.mem_filter.1 hb).2
  rw [decide_eq_true_eq] at hb'
  rw [hb', aliasHit]

theorem mem_carriers {x : EntityRow} :
    x ∈ carriers w k.brainId none name g ↔
      x ∈ g.entities.values ∧ x.brainId = k.brainId ∧ sameAliases w name x ≠ [] := by
  have hany : (x.aliases.any fun b => w.unicode.lower b = w.unicode.lower name) = true ↔
      sameAliases w name x ≠ [] := by
    rw [Ne, sameAliases, List.filter_eq_nil_iff, List.any_eq_true]
    constructor
    · rintro ⟨b, hb, hsame⟩ hno
      exact hno b hb hsame
    · intro hno
      by_contra hnone
      apply hno
      intro b hb hsame
      exact hnone ⟨b, hb, hsame⟩
  rw [carriers, List.mem_filter, Bool.and_eq_true, Bool.and_eq_true, decide_eq_true_eq, hany]
  constructor
  · rintro ⟨hx, ⟨hb, -⟩, hs⟩
    exact ⟨hx, hb, hs⟩
  · rintro ⟨hx, hb, hs⟩
    exact ⟨hx, ⟨hb, rfl⟩, hs⟩

theorem flatMap_carriers {f : EntityRow → List MatchedNorm}
    (hf : ∀ x, sameAliases w name x = [] → f x = []) (l : List EntityRow) :
    (l.filter (fun x => x.brainId = k.brainId)).flatMap f =
      (l.filter (fun x => x.brainId = k.brainId && ofType none x &&
        x.aliases.any (fun b => w.unicode.lower b = w.unicode.lower name))).flatMap f := by
  induction l with
  | nil => rfl
  | cons x rest ih =>
    rw [List.filter_cons, List.filter_cons]
    by_cases hb : x.brainId = k.brainId
    · cases ha : x.aliases.any (fun b => w.unicode.lower b = w.unicode.lower name) with
      | true =>
        rw [hb, decide_eq_true rfl, show ofType none x = true from rfl, Bool.and_self, Bool.and_self,
          if_pos rfl, if_pos rfl, List.flatMap_cons, List.flatMap_cons, ih]
      | false =>
        have hnone : f x = [] := by
          apply hf
          apply List.filter_eq_nil_iff.2
          intro b hb' hsame
          exact Bool.false_ne_true (ha.symm.trans (List.any_eq_true.2 ⟨b, hb', hsame⟩))
        rw [hb, decide_eq_true rfl, if_pos rfl, Bool.and_false, if_neg Bool.false_ne_true,
          List.flatMap_cons, hnone, List.nil_append, ih]
    · rw [decide_eq_false hb, if_neg Bool.false_ne_true, Bool.false_and, Bool.false_and,
        if_neg Bool.false_ne_true, ih]

/-- The hits of a name, without their order. -/
theorem batchResolveAlias_perm (hl : ∀ s, w.dbLower s = w.unicode.lower s) :
    (batchResolveAlias w k.brainId [w.unicode.lower name] g).Perm
      ((carriers w k.brainId none name g).flatMap
        (matchedAliases w [w.unicode.lower name])) := by
  have hnone : ∀ x, sameAliases w name x = [] → matchedAliases w [w.unicode.lower name] x = [] := by
    intro x hx
    rw [matchedAliases_one hl, hx, List.map_nil]
  rw [carriers, ← flatMap_carriers hnone]
  exact (List.perm_insertionSort _ _).flatMap_right _

theorem mem_batchResolveAlias (hl : ∀ s, w.dbLower s = w.unicode.lower s) :
    hit ∈ batchResolveAlias w k.brainId [w.unicode.lower name] g ↔
      ∃ x ∈ carriers w k.brainId none name g, hit = aliasHit w name x := by
  rw [(batchResolveAlias_perm hl).mem_iff, List.mem_flatMap]
  constructor
  · rintro ⟨x, hx, hh⟩
    rw [matchedAliases_one hl] at hh
    obtain ⟨_, _, rfl⟩ := List.mem_map.1 hh
    exact ⟨x, hx, rfl⟩
  · rintro ⟨x, hx, rfl⟩
    refine ⟨x, hx, ?_⟩
    rw [matchedAliases_one hl]
    obtain ⟨b, hb⟩ := List.exists_mem_of_ne_nil _ (mem_carriers.1 hx).2.2
    exact List.mem_map.2 ⟨b, hb, rfl⟩

theorem batchResolveAlias_sorted (hl : ∀ s, w.dbLower s = w.unicode.lower s) :
    (batchResolveAlias w k.brainId [w.unicode.lower name] g).Pairwise
      (fun a b => b.confidence ≤ a.confidence) := by
  apply List.pairwise_flatMap.2
  constructor
  · intro x _
    rw [matchedAliases_one hl]
    apply List.pairwise_map.2
    exact List.pairwise_of_forall (fun _ _ => le_refl _)
  · apply (byConfidence_sorted _).imp
    intro x y hxy a ha b hb
    rw [matchedAliases_one hl] at ha hb
    obtain ⟨_, _, rfl⟩ := List.mem_map.1 ha
    obtain ⟨_, _, rfl⟩ := List.mem_map.1 hb
    exact hxy

/-- The first hit is of an entity of the highest confidence. -/
theorem batchResolveAlias_first (hl : ∀ s, w.dbLower s = w.unicode.lower s)
    (hh : batchResolveAlias w k.brainId [w.unicode.lower name] g = hit :: more) :
    ∃ y, Highest (carriers w k.brainId none name g) y ∧ hit = aliasHit w name y := by
  have hsorted : (batchResolveAlias w k.brainId [w.unicode.lower name] g).Pairwise
      (fun a b => b.confidence ≤ a.confidence) := batchResolveAlias_sorted hl
  have hmem : ∀ h, h ∈ batchResolveAlias w k.brainId [w.unicode.lower name] g ↔
      ∃ x ∈ carriers w k.brainId none name g, h = aliasHit w name x :=
    fun _ => mem_batchResolveAlias hl
  rw [hh] at hsorted hmem
  obtain ⟨y, hy, rfl⟩ := (hmem hit).1 List.mem_cons_self
  refine ⟨y, ⟨hy, ?_⟩, rfl⟩
  intro z hz
  rcases List.mem_cons.1 ((hmem _).2 ⟨z, hz, rfl⟩) with heq | hin
  · exact (congrArg MatchedNorm.confidence heq).le
  · exact (List.pairwise_cons.1 hsorted).1 _ hin

/-- One entity carries the name alone, and under two spellings. -/
def SpelledTwice (w : GraphWorld) (brain name : String) (g : Graph) : Prop :=
  ∃ x, carriers w brain none name g = [x] ∧ 1 < (sameAliases w name x).length

/-- Two different entities carry the name. -/
def Contested (w : GraphWorld) (brain name : String) (g : Graph) : Prop :=
  ∃ x ∈ carriers w brain none name g, ∃ y ∈ carriers w brain none name g, x.id ≠ y.id

/-- A second hit is of a second entity unless the only one is spelled twice. -/
theorem contested_iff (hl : ∀ s, w.dbLower s = w.unicode.lower s)
    (hh : batchResolveAlias w k.brainId [w.unicode.lower name] g = hit :: more) :
    (more ≠ [] → Contested w k.brainId name g) ↔ ¬ SpelledTwice w k.brainId name g := by
  have hperm : (batchResolveAlias w k.brainId [w.unicode.lower name] g).Perm
      ((carriers w k.brainId none name g).flatMap (matchedAliases w [w.unicode.lower name])) :=
    batchResolveAlias_perm hl
  have hlen := hperm.length_eq
  rw [hh] at hlen
  constructor
  · rintro h ⟨x, hx, htwice⟩
    rw [hx, List.flatMap_singleton, matchedAliases_one hl, List.length_map, List.length_cons] at hlen
    have hmore : more ≠ [] := by
      rintro rfl
      rw [List.length_nil] at hlen
      omega
    obtain ⟨y, hy, z, hz, hne⟩ := h hmore
    rw [hx, List.mem_singleton] at hy hz
    rw [hy, hz] at hne
    exact hne rfl
  · intro h hmore
    cases hc : carriers w k.brainId none name g with
    | nil =>
      obtain ⟨y, hy, -⟩ := batchResolveAlias_first hl hh
      rw [hc] at hy
      cases hy.1
    | cons x rest =>
      cases rest with
      | nil =>
        apply absurd _ h
        refine ⟨x, hc, ?_⟩
        rw [hc, List.flatMap_singleton, matchedAliases_one hl, List.length_map, List.length_cons]
          at hlen
        have := List.length_pos_iff.2 hmore
        omega
      | cons y rest =>
        have hnodup : ((carriers w k.brainId none name g).map EntityRow.id).Nodup :=
          g.entities.nodup.sublist (List.filter_sublist.map EntityRow.id)
        rw [hc, List.map_cons, List.map_cons, List.nodup_cons] at hnodup
        have hx : x ∈ carriers w k.brainId none name g := by
          rw [hc]
          exact List.mem_cons_self
        have hy : y ∈ carriers w k.brainId none name g := by
          rw [hc]
          exact List.mem_cons_of_mem x List.mem_cons_self
        refine ⟨x, hx, y, hy, ?_⟩
        intro heq
        exact hnodup.1 (heq ▸ List.mem_cons_self)

/-- The batch lookup of one name answers with an entity that was wanted, and calls the alias
ambiguous only when it is. -/
def BatchResolves (w : GraphWorld) (k : GraphConfig) (name : String) (g : Graph) : Prop :=
  ∃ t b, (GraphStore.batchResolveEntities w k [name] g).1 = .ok t ∧
    t.get? (w.unicode.lower name) = some b ∧ Names w k.brainId none name g (some b.entityId) ∧
      (b.reason = .ambiguousAlias → Contested w k.brainId name g)

theorem batchResolveEntities_exact (hl : ∀ s, w.dbLower s = w.unicode.lower s)
    (hopen : w.refuses g.ticks = false) (hexact : exacts w k.brainId none name g ≠ []) :
    ∃ y, Highest (exacts w k.brainId none name g) y ∧
      (GraphStore.batchResolveEntities w k [name] g).1 =
        .ok (Table.empty.set ⟨w.unicode.lower name, y.id, y.confidence, .exactMatch⟩) := by
  obtain ⟨y, rest, hs, hy⟩ := exists_byConfidence hexact
  have hrows : exactResults (batchResolveExact w k.brainId [w.unicode.lower name] g) =
      Table.empty.set ⟨w.unicode.lower name, y.id, y.confidence, .exactMatch⟩ := by
    rw [batchResolveExact_one hl, hs, exactResults, List.map_map, List.map_cons,
      foldl_setDefault_first]
    · rfl
    · intro r hr
      obtain ⟨x, -, rfl⟩ := List.mem_map.1 hr
      rfl
  have hnone : unresolvedOf [w.unicode.lower name]
      (exactResults (batchResolveExact w k.brainId [w.unicode.lower name] g)) = [] := by
    apply List.filter_eq_nil_iff.2
    intro n hn
    rw [List.mem_singleton.1 hn, hrows]
    have hc : (Table.empty.set ⟨w.unicode.lower name, y.id, y.confidence, .exactMatch⟩ :
        BatchResult).contains (w.unicode.lower name) = true :=
      Table.contains_set_self (Table.empty : BatchResult) _
    rw [hc]
    exact Bool.false_ne_true
  refine ⟨y, hy, ?_⟩
  rw [GraphStore.batchResolveEntities, if_neg (List.cons_ne_nil _ _)]
  dsimp only
  rw [transaction_open hopen, Prog.bind_run, Prog.read_run]
  dsimp only
  rw [show batchResolveExact w k.brainId ([name].map w.unicode.lower) g.opened =
    batchResolveExact w k.brainId [w.unicode.lower name] g from rfl,
    show [name].map w.unicode.lower = [w.unicode.lower name] from rfl, if_pos hnone, hrows]
  rfl

theorem batchResolveEntities_alias (hl : ∀ s, w.dbLower s = w.unicode.lower s)
    (hopen : w.refuses g.ticks = false) (hexact : exacts w k.brainId none name g = [])
    (hh : batchResolveAlias w k.brainId [w.unicode.lower name] g = hit :: more) :
    (GraphStore.batchResolveEntities w k [name] g).1 =
      .ok (Table.empty.set (AliasHits.best ⟨w.unicode.lower name, hit, more⟩)) := by
  have hrows : batchResolveExact w k.brainId [w.unicode.lower name] g = [] := by
    rw [batchResolveExact_one hl, hexact]
    rfl
  have hnorm : ∀ h ∈ hit :: more, h.norm = w.unicode.lower name := by
    intro h hin
    rw [← hh] at hin
    obtain ⟨x, -, rfl⟩ := (mem_batchResolveAlias hl).1 hin
    rfl
  have hfirst : hit.norm = w.unicode.lower name := hnorm hit List.mem_cons_self
  have hgroup : (hit :: more).foldl addHit [] = [⟨w.unicode.lower name, hit, more⟩] := by
    rw [foldl_addHit_first, hfirst]
    intro r hr
    rw [hnorm r (List.mem_cons_of_mem hit hr), hfirst]
  rw [GraphStore.batchResolveEntities, if_neg (List.cons_ne_nil _ _)]
  dsimp only
  rw [transaction_open hopen, Prog.bind_run, Prog.read_run]
  dsimp only
  rw [show batchResolveExact w k.brainId ([name].map w.unicode.lower) g.opened =
    batchResolveExact w k.brainId [w.unicode.lower name] g from rfl, hrows,
    show [name].map w.unicode.lower = [w.unicode.lower name] from rfl,
    if_neg (show unresolvedOf [w.unicode.lower name] (exactResults []) ≠ [] from
      List.cons_ne_nil _ _)]
  change Except.ok (aliasResults (batchResolveAlias w k.brainId [w.unicode.lower name] g)
    Table.empty) = _
  rw [hh, aliasResults, hgroup, List.map_singleton, foldl_setDefault_first]
  intro r hr
  cases hr

/-- The batch lookup of a carried name, on a connection that opens. -/
theorem batch_resolves_iff (hl : ∀ s, w.dbLower s = w.unicode.lower s)
    (hopen : w.refuses g.ticks = false) (hc : carriers w k.brainId none name g ≠ []) :
    BatchResolves w k name g ↔
      exacts w k.brainId none name g ≠ [] ∨ ¬ SpelledTwice w k.brainId name g := by
  by_cases hexact : exacts w k.brainId none name g = []
  · obtain ⟨x, hx⟩ := List.exists_mem_of_ne_nil _ hc
    have hin : aliasHit w name x ∈ batchResolveAlias w k.brainId [w.unicode.lower name] g :=
      (mem_batchResolveAlias hl).2 ⟨x, hx, rfl⟩
    cases hh : batchResolveAlias w k.brainId [w.unicode.lower name] g with
    | nil =>
      rw [hh] at hin
      cases hin
    | cons hit more =>
      obtain ⟨y, hy, rfl⟩ := batchResolveAlias_first hl hh
      have hanswer := batchResolveEntities_alias hl hopen hexact hh
      have hget : (Table.empty.set (AliasHits.best ⟨w.unicode.lower name, aliasHit w name y,
          more⟩)).get? (w.unicode.lower name) =
          some (AliasHits.best ⟨w.unicode.lower name, aliasHit w name y, more⟩) :=
        Table.get?_set_self (Table.empty : BatchResult) _
      have hreason : (AliasHits.best ⟨w.unicode.lower name, aliasHit w name y, more⟩).reason =
          .ambiguousAlias ↔ more ≠ [] := by
        unfold AliasHits.best
        dsimp only
        split
        · next h => exact ⟨fun hr => (nomatch hr), fun hne => absurd h hne⟩
        · next h => exact ⟨fun _ => h, fun _ => rfl⟩
      rw [BatchResolves, hanswer, or_iff_right (not_not_intro hexact), ← contested_iff hl hh]
      constructor
      · rintro ⟨t, b, ht, hb, -, hamb⟩ hmore
        cases ht
        rw [hget] at hb
        cases hb
        exact hamb (hreason.2 hmore)
      · intro hamb
        exact ⟨_, _, rfl, hget, ⟨y, mem_of_carriers hy.1, rfl, .inr ⟨hexact, hy⟩⟩,
          fun hr => hamb (hreason.1 hr)⟩
  · obtain ⟨y, hy, hanswer⟩ := batchResolveEntities_exact hl hopen hexact
    constructor
    · rintro -
      exact .inl hexact
    · rintro -
      exact ⟨_, _, hanswer, Table.get?_set_self _ _, ⟨y, mem_of_exacts hy.1, rfl, .inl hy⟩,
        fun hr => (nomatch hr)⟩

end Batch

/-- The ways an entity is written: `upsert_entity`, sync or async, and the recorder. -/
inductive WritePath where
  | upsert | record
deriving DecidableEq, Repr

/-- The aliases a write path stores. -/
def WritePath.stored (u : Unicode) : WritePath → List String → List String
  | .upsert, aliases => aliases.map u.lower
  | .record, aliases => aliases

/-- The row of an entity written with the arguments and not written again since. -/
structure Registered (w : GraphWorld) (brain : String) (path : WritePath) (a : EntityArgs)
    (g : Graph) (x : EntityRow) : Prop where
  row : x ∈ g.entities.values
  named : sameEntity w brain a x = true
  aliases : x.aliases = path.stored w.unicode a.aliases

section Registration
variable {w : GraphWorld} {k : GraphConfig} {path : WritePath} {brain : String} {now : Stamp}
  {a b : EntityArgs} {g h : Graph} {x : EntityRow} {id : Nat}

/-- The write of an entity registers it. -/
theorem EntityWritten.registered (hw : EntityWritten w brain now a g id h) :
    ∃ x ∈ h.entities.values, x.id = id ∧ sameEntity w brain a x = true ∧ x.aliases = a.aliases := by
  cases hw with
  | @enriched old hold =>
    refine ⟨old.enriched now a, Table.mem_set_self _ _, rfl, ?_, rfl⟩
    have hold' : sameEntity w brain a old = true := by
      simpa only using List.find?_some hold
    exact hold'
  | created hnone =>
    refine ⟨newEntity brain now g.nextId a, Table.mem_set_self _ _, rfl, ?_, rfl⟩
    unfold sameEntity newEntity
    simp only [decide_true, Bool.and_self]

theorem upsertEntity_registers (hr : GraphStore.upsertEntity w k a g = (.ok id, h)) :
    ∃ x, x.id = id ∧ Registered w k.brainId .upsert a h x := by
  obtain ⟨now, hw⟩ := upsertEntity_written hr
  obtain ⟨x, hx, hid, hnamed, haliases⟩ := hw.registered
  exact ⟨x, hid, hx, hnamed, haliases⟩

theorem asyncUpsertEntity_registers {k : AsyncGraphConfig}
    (hr : AsyncGraphStore.upsertEntity w k a g = (.ok id, h)) :
    ∃ x, x.id = id ∧ Registered w k.brainId .upsert a h x :=
  upsertEntity_registers (k := { brainId := k.brainId }) hr

theorem recordedEntity_registers {k : RecorderConfig} {spec : EntitySpec}
    (hr : upsertEntityRow w k.brainId now (Recorder.entityArgs k spec) g = (.ok id, h)) :
    ∃ x, x.id = id ∧ Registered w k.brainId .record (Recorder.entityArgs k spec) h x := by
  obtain ⟨x, hx, hid, hnamed, haliases⟩ := (upsertEntityRow_ok hr).registered
  exact ⟨x, hid, hx, hnamed, haliases⟩

/-- The write of another entity leaves a registered one as it is. -/
theorem Registered.keeps (hx : Registered w brain path a g x)
    (hw : EntityWritten w brain now b g id h) (hother : sameEntity w brain b x = false)
    (hfresh : ∀ y ∈ g.entities.values, y.id < g.nextId) : Registered w brain path a h x := by
  refine ⟨?_, hx.named, hx.aliases⟩
  cases hw with
  | @enriched old hold =>
    apply Table.mem_set_of_ne hx.row
    intro hid
    have hxo : x = old := Table.eq_of_key hx.row (List.mem_of_find?_eq_some hold) hid
    have hsame : sameEntity w brain b old = true := by
      simpa only using List.find?_some hold
    rw [hxo, hsame] at hother
    cases hother
  | created =>
    apply Table.mem_set_of_ne hx.row
    exact Nat.ne_of_lt (hfresh x hx.row)

theorem EntityWritten.fresh (hw : EntityWritten w brain now b g id h)
    (hfresh : ∀ y ∈ g.entities.values, y.id < g.nextId) :
    ∀ y ∈ h.entities.values, y.id < h.nextId := by
  rw [hw.nextId]
  intro y hy
  cases hw with
  | @enriched old hold =>
    rcases Table.mem_set hy with rfl | hy
    · exact Nat.lt_succ_of_lt (hfresh old (List.mem_of_find?_eq_some hold))
    · exact Nat.lt_succ_of_lt (hfresh y hy)
  | created =>
    rcases Table.mem_set hy with rfl | hy
    · exact Nat.lt_succ_self g.nextId
    · exact Nat.lt_succ_of_lt (hfresh y hy)

end Registration

/-- Any number of writes of entities other than the row's. -/
inductive WrittenElsewhere (w : GraphWorld) (brain : String) (x : EntityRow) : Graph → Graph → Prop
  | refl {g : Graph} : WrittenElsewhere w brain x g g
  | head {now : Stamp} {b : EntityArgs} {id : Nat} {g h i : Graph}
      (hw : EntityWritten w brain now b g id h) (hother : sameEntity w brain b x = false)
      (hrest : WrittenElsewhere w brain x h i) : WrittenElsewhere w brain x g i

section Registration
variable {w : GraphWorld} {k : GraphConfig} {path : WritePath} {brain : String} {a : EntityArgs}
  {g h : Graph} {x : EntityRow}

theorem Registered.since (hx : Registered w brain path a g x) (hr : WrittenElsewhere w brain x g h)
    (hfresh : ∀ y ∈ g.entities.values, y.id < g.nextId) : Registered w brain path a h x := by
  induction hr with
  | refl => exact hx
  | head hw hother _ ih => exact ih (hx.keeps hw hother hfresh) (hw.fresh hfresh)

/-- A registered entity carries each of its aliases, in any letter case. -/
theorem Registered.carries (hx : Registered w brain path a g x) {label name : String}
    (ha : label ∈ a.aliases) (hname : w.unicode.lower name = w.unicode.lower label)
    {type? : Option String} (ht : type?.all (a.entityType = ·) = true) :
    x ∈ carriers w brain type? name g := by
  have hnamed := hx.named
  unfold sameEntity at hnamed
  rw [Bool.and_eq_true, Bool.and_eq_true, decide_eq_true_eq, decide_eq_true_eq] at hnamed
  obtain ⟨⟨hb, htype⟩, -⟩ := hnamed
  apply List.mem_filter.2
  refine ⟨hx.row, ?_⟩
  rw [Bool.and_eq_true, Bool.and_eq_true]
  refine ⟨⟨decide_eq_true hb, ?_⟩, ?_⟩
  · rw [ofType, htype]
    exact ht
  · rw [hx.aliases]
    apply List.any_eq_true.2
    cases path with
    | upsert =>
      refine ⟨w.unicode.lower label, List.mem_map_of_mem ha, ?_⟩
      rw [decide_eq_true_eq, w.unicode.lower_lower, hname]
    | record => exact ⟨label, ha, decide_eq_true hname.symm⟩

/-- The name resolves, alone and in a batch. -/
def Resolves (w : GraphWorld) (k : GraphConfig) (uuidOf : String → Option IdText)
    (type name : String) (g : Graph) : Prop :=
  (∃ r, (GraphStore.resolveEntity w k uuidOf type name g).1 = .ok r ∧
    Names w k.brainId (some type) name g r.entityId) ∧ BatchResolves w k name g

/-- What the lookup of one name takes. -/
def Found (w : GraphWorld) (brain : String) (uuidOf : String → Option IdText) (type name : String)
    (g : Graph) : Prop :=
  match uuidOf name with
  | some t => FoundById w brain type name g t
  | none => FoundByName w brain type name g

/-- A registered alias resolves in every letter case exactly when the connection opens, the name is
found as its text or as an id, and it is not one that a single entity spells twice. -/
theorem registered_alias_resolves_iff {uuidOf : String → Option IdText} {label name : String}
    (hl : ∀ s, w.dbLower s = w.unicode.lower s) (hx : Registered w k.brainId path a g x)
    (ha : label ∈ a.aliases) (hname : w.unicode.lower name = w.unicode.lower label) :
    Resolves w k uuidOf a.entityType name g ↔
      w.refuses g.ticks = false ∧ Found w k.brainId uuidOf a.entityType name g ∧
        (exacts w k.brainId none name g ≠ [] ∨ ¬ SpelledTwice w k.brainId name g) := by
  have hc : carriers w k.brainId none name g ≠ [] :=
    List.ne_nil_of_mem (hx.carries ha hname rfl)
  cases hopen : w.refuses g.ticks with
  | true =>
    constructor
    · rintro ⟨-, t, b, ht, -⟩
      have hlost : (GraphStore.batchResolveEntities w k [name] g).1 = .error .connection := by
        rw [GraphStore.batchResolveEntities, if_neg (List.cons_ne_nil _ _)]
        dsimp only
        rw [transaction, hopen, if_pos rfl]
      rw [hlost] at ht
      cases ht
    · rintro ⟨h, -⟩
      cases h
  | false =>
    have hfound : (∃ r, (GraphStore.resolveEntity w k uuidOf a.entityType name g).1 = .ok r ∧
        Names w k.brainId (some a.entityType) name g r.entityId) ↔
        Found w k.brainId uuidOf a.entityType name g := by
      unfold Found
      cases hu : uuidOf name with
      | some t => exact resolveEntity_by_id hu hopen
      | none => exact resolveEntity_by_name hl hu hopen
    rw [Resolves, hfound, batch_resolves_iff hl hopen hc]
    exact ⟨fun h => ⟨rfl, h⟩, fun h => h.2⟩

end Registration

/-- A database that knows one capital name. -/
def capitalWorld : GraphWorld :=
  { GraphWorld.calm with
    unicode := { Unicode.lowercase with
      lower := fun s => if s = "PG" then "pg" else s
      lower_lower := by
        intro s
        by_cases h : s = "PG"
        · rw [if_pos h]
          rfl
        · rw [if_neg h, if_neg h] }
    dbLower := fun s => if s = "PG" then "pg" else s }

def postgresArgs (aliases : List String) : EntityArgs where
  entityType := "database"
  canonicalName := "postgres"
  aliases := aliases

/-- The graph after the upsert of the entity. -/
def upsertedPostgres (aliases : List String) : Graph :=
  (GraphStore.upsertEntity capitalWorld citedStore (postgresArgs aliases) {}).2

/-- The graph after the entity came with an event. -/
def recordedPostgres (aliases : List String) : Graph :=
  (upsertEntityRow capitalWorld citedStore.brainId 0 (postgresArgs aliases) {}).2

def postgresRow (aliases : List String) : EntityRow :=
  newEntity citedStore.brainId 0 0 (postgresArgs aliases)

theorem upserted_alias_resolves :
    Resolves capitalWorld citedStore (fun _ => none) "database" "PG" (upsertedPostgres ["PG"]) := by
  have hx : Registered capitalWorld citedStore.brainId .upsert (postgresArgs ["PG"])
      (upsertedPostgres ["PG"]) (postgresRow ["pg"]) :=
    ⟨by decide +kernel, by decide +kernel, by decide +kernel⟩
  apply (registered_alias_resolves_iff (fun _ => rfl) hx List.mem_cons_self rfl).2
  refine ⟨rfl, .inr ⟨postgresRow ["pg"], ?_, by decide +kernel⟩, .inr ?_⟩
  · unfold Highest
    decide +kernel
  · rintro ⟨x, hx, htwice⟩
    have hone : carriers capitalWorld citedStore.brainId none "PG" (upsertedPostgres ["PG"]) =
        [postgresRow ["pg"]] := by decide +kernel
    rw [show carriers capitalWorld citedStore.brainId none "PG" (upsertedPostgres ["PG"]) = _ from
      hone] at hx
    cases hx
    revert htwice
    decide +kernel

/-- A recorded alias with a capital is not found, and one given in two spellings is ambiguous. -/
theorem registered_alias_unresolved :
    (Registered capitalWorld citedStore.brainId .record (postgresArgs ["PG"])
        (recordedPostgres ["PG"]) (postgresRow ["PG"]) ∧
      ¬ Resolves capitalWorld citedStore (fun _ => none) "database" "PG" (recordedPostgres ["PG"])) ∧
    Registered capitalWorld citedStore.brainId .upsert (postgresArgs ["pg", "PG"])
        (upsertedPostgres ["pg", "PG"]) (postgresRow ["pg", "pg"]) ∧
      ¬ Resolves capitalWorld citedStore (fun _ => none) "database" "pg"
        (upsertedPostgres ["pg", "PG"]) := by
  refine ⟨⟨⟨by decide +kernel, by decide +kernel, by decide +kernel⟩, ?_⟩,
    ⟨by decide +kernel, by decide +kernel, by decide +kernel⟩, ?_⟩
  · rintro ⟨⟨r, hr, y, -, hid, -⟩, -⟩
    have hlost : (GraphStore.resolveEntity capitalWorld citedStore (fun _ => none) "database" "PG"
        (recordedPostgres ["PG"])).1 = .ok ⟨none, 0, .notFound⟩ := by decide +kernel
    rw [hlost] at hr
    cases hr
    cases hid
  · rintro ⟨-, t, b, ht, hb, -, hamb⟩
    have hanswer : (GraphStore.batchResolveEntities capitalWorld citedStore ["pg"]
        (upsertedPostgres ["pg", "PG"])).1 =
        .ok (Table.empty.set ⟨"pg", 0, 6 / 10, .ambiguousAlias⟩) := by decide +kernel
    rw [hanswer] at ht
    cases ht
    cases hb
    have hno : ¬ Contested capitalWorld citedStore.brainId "pg" (upsertedPostgres ["pg", "PG"]) := by
      unfold Contested
      decide +kernel
    exact hno (hamb rfl)

end TappsBrain
