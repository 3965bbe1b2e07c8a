import Mathlib.Data.List.Sort
import TappsBrain.EdgeReplacement
import TappsBrain.EntityNames

namespace TappsBrain
open Lib
set_option autoImplicit true
set_option relaxedAutoImplicit false

/-- The `CHECK_*` codes. -/
inductive CheckReason where
  | unregistered | unbounded | noSubject | alreadyAsserted | withinLimit | exceeded
deriving DecidableEq, Repr

def CheckReason.text : CheckReason → String
  | .unregistered => "predicate_not_registered"
  | .unbounded => "predicate_unbounded"
  | .noSubject => "subject_not_found"
  | .alreadyAsserted => "edge_already_asserted"
  | .withinLimit => "within_cardinality"
  | .exceeded => "cardinality_exceeded"

/-- The arguments of `kg_check`. -/
structure CheckArgs where
  subjectKey : String
  predicate : String
  objectKey : String := ""
  subjectType : String := ""
  objectType : String := ""
deriving DecidableEq, Repr

inductive CheckOutcome where
  | invalid (message : String)
  | allow (reason : CheckReason) (count : Nat) (maxCount : Option Nat)
  | deny (reason : CheckReason) (count maxCount : Nat) (detail : String)
deriving DecidableEq, Repr

def CheckOutcome.allows : CheckOutcome → Bool
  | .allow _ _ _ => true
  | _ => false

def CheckOutcome.denies : CheckOutcome → Bool
  | .deny _ _ _ _ => true
  | _ => false

/-- `FIND_ENTITIES_BY_NAME_SQL`, in the order of `ORDER BY entity_type`. -/
def entitiesByName (w : GraphWorld) (brain name : String) (g : Graph) : List EntityRow :=
  (g.entities.values.filter (fun x =>
    x.brainId = brain && w.dbLower x.canonicalName = w.dbLower name)).insertionSort
      (fun x y => x.entityType ≤ y.entityType)

namespace GraphStore

/-- `PostgresKnowledgeGraphStore.find_entities_by_name`. -/
def findEntitiesByName (w : GraphWorld) (k : GraphConfig) (name : String) : Tx (List EntityRow) :=
  transaction w (fun _ => Prog.read (entitiesByName w k.brainId name))

/-- `PostgresKnowledgeGraphStore.get_predicate`. -/
def getPredicate (w : GraphWorld) (k : GraphConfig) (predicate : String) : Tx (Option PredicateRow) :=
  transaction w (fun _ => Prog.read (fun g => g.predicates.get? (k.brainId, predicate)))

/-- `PostgresKnowledgeGraphStore.count_active_objects`. -/
def countActiveObjects (w : GraphWorld) (k : GraphConfig) (subject : Nat) (predicate : String) :
    Tx Nat :=
  transaction w (fun _ => Prog.read (fun g => (slotObjects g ⟨k.brainId, subject, predicate⟩).card))

/-- `PostgresKnowledgeGraphStore.active_edge_exists`. -/
def activeEdgeExists (w : GraphWorld) (k : GraphConfig) (subject : Nat) (predicate : String)
    (object : Nat) : Tx Bool :=
  transaction w (fun _ => Prog.read (fun g => (activeEdge g k.brainId subject predicate object).isSome))

end GraphStore

/-- What `_resolve_check_subject` makes of the entities of a name. -/
def resolveMatches (u : Unicode) (subjectKey subjectType : String) (found : List EntityRow) :
    Except String (Option Nat) :=
  let candidates :=
    if subjectType ≠ "" then found.filter (fun x => x.entityType = subjectType) else found
  match candidates with
  | [] => .ok none
  | [x] => .ok (some x.id)
  | _ :: _ :: _ =>
    let types := String.intercalate ", " ((candidates.map (·.entityType)).insertionSort (· ≤ ·))
    .error (s!"subject_key {u.repr subjectKey} matches {candidates.length} entity types " ++
      s!"({types}); pass subject_type to disambiguate")

/-- `_resolve_check_subject`. -/
def resolveCheckSubject (w : GraphWorld) (k : GraphConfig) (subjectKey subjectType : String) :
    Tx (Except String (Option Nat)) := do
  let found ← GraphStore.findEntitiesByName w k subjectKey
  pure (resolveMatches w.unicode subjectKey subjectType found)

/-- `_check_inputs`. -/
def checkInputs (subjectKey predicate : String) : Option String :=
  if isBlank subjectKey then some "subject_key is required"
  else if isBlank predicate then some "predicate is required"
  else none

/-- Whether the edge to the object that was found is there already. -/
def foundAsserted (w : GraphWorld) (k : GraphConfig) (subject : Nat) (predicate : String) :
    Except String (Option Nat) → Tx (Except String Bool)
  | .error message => pure (.error message)
  | .ok none => pure (.ok false)
  | .ok (some object) => do
    let asserted ← GraphStore.activeEdgeExists w k subject predicate object
    pure (.ok asserted)

/-- Whether the edge to the object of the check is there already. -/
def objectAsserted (w : GraphWorld) (k : GraphConfig) (subject : Nat) (predicate : String)
    (objectKey objectType : String) : Tx (Except String Bool) :=
  if isBlank objectKey then pure (.ok false)
  else do
    let object ← resolveCheckSubject w k (strip objectKey) (strip objectType)
    foundAsserted w k subject predicate object

/-- The last decision of `_cardinality_verdict`. -/
def countVerdict (u : Unicode) (subjectKey predicate : String) (count maxCount : Nat) :
    Except String Bool → CheckOutcome
  | .error message => .invalid message
  | .ok true => .allow .alreadyAsserted count (some maxCount)
  | .ok false =>
    if maxCount ≤ count then
      .deny .exceeded count maxCount
        (s!"{u.repr subjectKey} already holds {count} object(s) for " ++
          s!"{u.repr predicate}, which is the declared maximum")
    else .allow .withinLimit count (some maxCount)

/-- `_cardinality_verdict`. -/
def cardinalityVerdict (w : GraphWorld) (k : GraphConfig) (c : CheckArgs) (subject : Nat)
    (predicate : String) (maxCount : Nat) : Tx CheckOutcome := do
  let count ← GraphStore.countActiveObjects w k subject predicate
  let asserted ← objectAsserted w k subject predicate c.objectKey c.objectType
  pure (countVerdict w.unicode c.subjectKey predicate count maxCount asserted)

/-- `kg_check` once the subject of a bounded predicate is looked up. -/
def checkSubject (w : GraphWorld) (k : GraphConfig) (c : CheckArgs) (maxCount : Nat) :
    Except String (Option Nat) → Tx CheckOutcome
  | .error message => pure (.invalid message)
  | .ok none => pure (.allow .noSubject 0 (some maxCount))
  | .ok (some subject) => cardinalityVerdict w k c subject (strip c.predicate) maxCount

/-- `kg_check` once the declaration is read. -/
def checkDeclared (w : GraphWorld) (k : GraphConfig) (c : CheckArgs) :
    Option PredicateRow → Tx CheckOutcome
  | none => pure (.allow .unregistered 0 none)
  | some declaration =>
    match declaration.maxCount with
    | none => pure (.allow .unbounded 0 none)
    | some m => do
      let subject ← resolveCheckSubject w k (strip c.subjectKey) (strip c.subjectType)
      checkSubject w k c m.1 subject

/-- `kg_check`. -/
def kgCheck (w : GraphWorld) (k : GraphConfig) (c : CheckArgs) : Tx CheckOutcome :=
  match checkInputs c.subjectKey c.predicate with
  | some message => pure (.invalid message)
  | none => do
    let declaration ← GraphStore.getPredicate w k (strip c.predicate)
    checkDeclared w k c declaration

/-- The same graph at another tick. -/
def Graph.atTick (g : Graph) (n : Nat) : Graph := { g with ticks := n }

/-- Whenever the program returns, it has read `f` off the rows and changed nothing. -/
def Reads (p : Tx α) (f : Graph → α) : Prop :=
  ∀ g a h, p g = (.ok a, h) → (∃ n, h = g.atTick n) ∧ a = f g

theorem Reads.pure (a : α) : Reads (Pure.pure a) (fun _ => a) := by
  intro g b h hr
  cases hr
  exact ⟨⟨g.ticks, rfl⟩, rfl⟩

theorem Reads.bind {p : Tx α} {f : Graph → α} {q : α → Tx β} {f' : α → Graph → β} (hp : Reads p f)
    (hq : ∀ a, Reads (q a) (f' a)) (hf : ∀ a g n, f' a (g.atTick n) = f' a g) :
    Reads (p >>= q) (fun g => f' (f g) g) := by
  intro g b h hr
  obtain ⟨a, g₁, hr₁, hr₂⟩ := Prog.bind_ok hr
  obtain ⟨⟨n, rfl⟩, rfl⟩ := hp g a g₁ hr₁
  obtain ⟨⟨m, rfl⟩, rfl⟩ := hq _ _ b h hr₂
  exact ⟨⟨m, rfl⟩, hf _ g n⟩

theorem Reads.block {w : GraphWorld} {f : Graph → α} (hf : ∀ g n, f (g.atTick n) = f g) :
    Reads (transaction w (fun _ => Prog.read f)) f := by
  intro g a h hr
  obtain ⟨e, he⟩ | ⟨b, h', -, hb, ht⟩ := transaction_cases w (fun _ => Prog.read f) g
  · rw [he] at hr
    cases hr
  · rw [ht] at hr
    cases hr
    cases hb
    exact ⟨⟨g.ticks + 1, rfl⟩, hf g (g.ticks + 1)⟩

section Verdict
variable {w : GraphWorld} {k : GraphConfig} {c : CheckArgs}

/-- What `_resolve_check_subject` reads. -/
def resolvedSubject (w : GraphWorld) (k : GraphConfig) (key type : String) (g : Graph) :
    Except String (Option Nat) :=
  resolveMatches w.unicode key type (entitiesByName w k.brainId key g)

theorem reads_resolveCheckSubject (key type : String) :
    Reads (resolveCheckSubject w k key type) (resolvedSubject w k key type) :=
  Reads.bind (Reads.block (fun _ _ => rfl)) (fun _ => Reads.pure _) (fun _ _ _ => rfl)

/-- What the check of the object that was found reads. -/
def foundIn (k : GraphConfig) (subject : Nat) (predicate : String) (g : Graph) :
    Except String (Option Nat) → Except String Bool
  | .error message => .error message
  | .ok none => .ok false
  | .ok (some object) => .ok (activeEdge g k.brainId subject predicate object).isSome

theorem reads_foundAsserted (subject : Nat) (predicate : String) (r : Except String (Option Nat)) :
    Reads (foundAsserted w k subject predicate r) (fun g => foundIn k subject predicate g r) := by
  rcases r with message | _ | object
  · exact Reads.pure _
  · exact Reads.pure _
  · exact Reads.bind (Reads.block (fun _ _ => rfl)) (fun _ => Reads.pure _) (fun _ _ _ => rfl)

theorem foundIn_atTick (subject : Nat) (predicate : String) (g : Graph) (n : Nat) :
    foundIn k subject predicate (g.atTick n) = foundIn k subject predicate g := by
  funext r
  rcases r with message | _ | object <;> rfl

/-- What the check of the object reads. -/
def assertedIn (w : GraphWorld) (k : GraphConfig) (subject : Nat) (predicate objectKey
    objectType : String) (g : Graph) : Except String Bool :=
  if isBlank objectKey then .ok false
  else foundIn k subject predicate g (resolvedSubject w k (strip objectKey) (strip objectType) g)

theorem reads_objectAsserted (subject : Nat) (predicate objectKey objectType : String) :
    Reads (objectAsserted w k subject predicate objectKey objectType)
      (assertedIn w k subject predicate objectKey objectType) := by
  unfold objectAsserted assertedIn
  split
  · exact Reads.pure _
  · apply (reads_resolveCheckSubject (strip objectKey) (strip objectType)).bind
      (reads_foundAsserted subject predicate)
    intro r g n
    rw [foundIn_atTick]

/-- What `_cardinality_verdict` reads. -/
def slotVerdict (w : GraphWorld) (k : GraphConfig) (c : CheckArgs) (subject maxCount : Nat)
    (g : Graph) : CheckOutcome :=
  countVerdict w.unicode c.subjectKey (strip c.predicate)
    (slotObjects g ⟨k.brainId, subject, strip c.predicate⟩).card maxCount
    (assertedIn w k subject (strip c.predicate) c.objectKey c.objectType g)

theorem slotVerdict_atTick (subject maxCount : Nat) (g : Graph) (n : Nat) :
    slotVerdict w k c subject maxCount (g.atTick n) = slotVerdict w k c subject maxCount g := by
  unfold slotVerdict assertedIn
  rw [foundIn_atTick]
  rfl

theorem reads_cardinalityVerdict (subject maxCount : Nat) :
    Reads (cardinalityVerdict w k c subject (strip c.predicate) maxCount)
      (slotVerdict w k c subject maxCount) := by
  have hcount : Reads (GraphStore.countActiveObjects w k subject (strip c.predicate))
      (fun g => (slotObjects g ⟨k.brainId, subject, strip c.predicate⟩).card) :=
    Reads.block (fun _ _ => rfl)
  have hanswer : ∀ count, Reads (do
      let asserted ← objectAsserted w k subject (strip c.predicate) c.objectKey c.objectType
      Pure.pure (countVerdict w.unicode c.subjectKey (strip c.predicate) count maxCount asserted))
      (fun g => countVerdict w.unicode c.subjectKey (strip c.predicate) count maxCount
        (assertedIn w k subject (strip c.predicate) c.objectKey c.objectType g)) := by
    intro count
    exact (reads_objectAsserted subject (strip c.predicate) c.objectKey c.objectType).bind
      (fun _ => Reads.pure _) (fun _ _ _ => rfl)
  apply hcount.bind hanswer
  intro count g n
  unfold assertedIn
  rw [foundIn_atTick]
  rfl

/-- What `kg_check` reads once the subject of a bounded predicate is looked up. -/
def subjectVerdict (w : GraphWorld) (k : GraphConfig) (c : CheckArgs) (maxCount : Nat) (g : Graph) :
    Except String (Option Nat) → CheckOutcome
  | .error message => .invalid message
  | .ok none => .allow .noSubject 0 (some maxCount)
  | .ok (some subject) => slotVerdict w k c subject maxCount g

theorem reads_checkSubject (maxCount : Nat) (r : Except String (Option Nat)) :
    Reads (checkSubject w k c maxCount r) (fun g => subjectVerdict w k c maxCount g r) := by
  rcases r with message | _ | subject
  · exact Reads.pure _
  · exact Reads.pure _
  · exact reads_cardinalityVerdict subject maxCount

theorem subjectVerdict_atTick (maxCount : Nat) (g : Graph) (n : Nat) :
    subjectVerdict w k c maxCount (g.atTick n) = subjectVerdict w k c maxCount g := by
  funext r
  rcases r with message | _ | subject
  · rfl
  · rfl
  · exact slotVerdict_atTick subject maxCount g n

/-- What `kg_check` reads once the declaration is read. -/
def declaredVerdict (w : GraphWorld) (k : GraphConfig) (c : CheckArgs) (g : Graph) :
    Option PredicateRow → CheckOutcome
  | none => .allow .unregistered 0 none
  | some declaration =>
    match declaration.maxCount with
    | none => .allow .unbounded 0 none
    | some m => subjectVerdict w k c m.1 g
        (resolvedSubject w k (strip c.subjectKey) (strip c.subjectType) g)

theorem reads_checkDeclared (p : Option PredicateRow) :
    Reads (checkDeclared w k c p) (fun g => declaredVerdict w k c g p) := by
  cases p with
  | none => exact Reads.pure _
  | some declaration =>
    rw [checkDeclared]
    simp only [declaredVerdict]
    cases declaration.maxCount with
    | none => exact Reads.pure _
    | some m =>
      apply (reads_resolveCheckSubject (strip c.subjectKey) (strip c.subjectType)).bind
        (reads_checkSubject m.1)
      intro r g n
      rw [subjectVerdict_atTick]

theorem declaredVerdict_atTick (g : Graph) (n : Nat) :
    declaredVerdict w k c (g.atTick n) = declaredVerdict w k c g := by
  funext p
  cases p with
  | none => rfl
  | some declaration =>
    simp only [declaredVerdict]
    cases declaration.maxCount with
    | none => rfl
    | some m =>
      dsimp only
      rw [subjectVerdict_atTick]
      rfl

/-- The answer of `kg_check` off the rows of a graph. -/
def checkVerdict (w : GraphWorld) (k : GraphConfig) (c : CheckArgs) (g : Graph) : CheckOutcome :=
  match checkInputs c.subjectKey c.predicate with
  | some message => .invalid message
  | none => declaredVerdict w k c g (g.predicates.get? (k.brainId, strip c.predicate))

/-- `kg_check` reads its answer off the rows and writes nothing. -/
theorem reads_kgCheck : Reads (kgCheck w k c) (checkVerdict w k c) := by
  unfold kgCheck checkVerdict
  cases checkInputs c.subjectKey c.predicate with
  | some message => exact Reads.pure _
  | none =>
    have hdeclaration : Reads (GraphStore.getPredicate w k (strip c.predicate))
        (fun g => g.predicates.get? (k.brainId, strip c.predicate)) :=
      Reads.block (fun _ _ => rfl)
    apply hdeclaration.bind reads_checkDeclared
    intro p g n
    rw [declaredVerdict_atTick]

/-- The slot of the names is bounded and full, and does not hold the edge. -/
def LedgerFull (w : GraphWorld) (k : GraphConfig) (g : Graph) (s o : EntityArgs)
    (predicate : String) : Prop :=
  ∃ n x, declaredBound g ⟨k.brainId, x.id, predicate⟩ = some n ∧
    entityNamed w k.brainId s g = some x ∧ n ≤ (slotObjects g ⟨k.brainId, x.id, predicate⟩).card ∧
    ∀ y, entityNamed w k.brainId o g = some y →
      activeEdge g k.brainId x.id predicate y.id = none

/-- Strict mode refuses the predicate, and the edge is not there already. -/
def StrictGap (w : GraphWorld) (k : GraphConfig) (g : Graph) (s o : EntityArgs)
    (predicate : String) : Prop :=
  k.strictPredicates = true ∧ g.predicates.get? (k.brainId, predicate) = none ∧
    ∀ x y, entityNamed w k.brainId s g = some x → entityNamed w k.brainId o g = some y →
      activeEdge g k.brainId x.id predicate y.id = none

theorem sameEntity_iff {brain : String} {a : EntityArgs} {x : EntityRow} :
    sameEntity w brain a x = true ↔ (x.brainId = brain ∧
      w.dbLower x.canonicalName = w.dbLower a.canonicalName) ∧ x.entityType = a.entityType := by
  simp only [sameEntity, Bool.and_eq_true, decide_eq_true_eq]
  tauto

/-- A name with a type is looked up as the write finds it. -/
theorem resolved_named {key type : String} {g : Graph} {r : Option Nat} (ht : type ≠ "")
    (hr : resolvedSubject w k key type g = .ok r) :
    r = (entityNamed w k.brainId { entityType := type, canonicalName := key } g).map (·.id) := by
  have hmem : ∀ x, x ∈ (entitiesByName w k.brainId key g).filter (fun x => x.entityType = type) ↔
      x ∈ g.entities.values ∧
        sameEntity w k.brainId { entityType := type, canonicalName := key } x = true := by
    intro x
    rw [sameEntity_iff]
    simp only [entitiesByName, List.mem_filter, List.mem_insertionSort, Bool.and_eq_true,
      decide_eq_true_eq, and_assoc]
  rw [resolvedSubject, resolveMatches, if_pos ht] at hr
  dsimp only at hr
  generalize (entitiesByName w k.brainId key g).filter (fun x => x.entityType = type) = found
    at hr hmem
  rcases found with _ | ⟨x, _ | ⟨x', rest⟩⟩
  · cases hr
    have hnone : entityNamed w k.brainId { entityType := type, canonicalName := key } g = none := by
      rw [entityNamed, List.find?_eq_none]
      intro x hx hsame
      cases (hmem x).2 ⟨hx, hsame⟩
    rw [hnone]
    rfl
  · cases hr
    obtain ⟨hx, hsame⟩ := (hmem x).1 List.mem_cons_self
    cases hy : entityNamed w k.brainId { entityType := type, canonicalName := key } g with
    | none => exact absurd hsame (List.find?_eq_none.1 hy x hx)
    | some y =>
      have hfound := (hmem y).2 ⟨List.mem_of_find?_eq_some hy, List.find?_some hy⟩
      rw [List.mem_singleton.1 hfound]
      rfl
  · cases hr

theorem declaredBound_of_get? {g : Graph} {σ : Slot} {p : PredicateRow}
    (hp : g.predicates.get? (σ.brainId, σ.predicate) = some p) :
    declaredBound g σ = p.maxCount.map (fun m => m.1) := by
  unfold declaredBound
  rw [hp]

theorem countVerdict_denies {u : Unicode} {key predicate : String} {count maxCount : Nat} {b : Bool} :
    (countVerdict u key predicate count maxCount (.ok b)).denies = true ↔
      b = false ∧ maxCount ≤ count := by
  cases b with
  | true => exact ⟨fun h => (nomatch h), fun h => nomatch h.1⟩
  | false =>
    simp only [countVerdict]
    split
    · next hle => exact ⟨fun _ => ⟨trivial, hle⟩, fun _ => rfl⟩
    · next hlt => exact ⟨fun h => (nomatch h), fun h => absurd h.2 hlt⟩

/-- The check of the object of a decision: the edge of the two names is there, or it is not. -/
theorem assertedIn_ok {subject : Nat} {predicate : String} {g : Graph}
    (hot : strip c.objectType ≠ "") (hobj : isBlank c.objectKey = false)
    (hok : ∀ message, assertedIn w k subject predicate c.objectKey c.objectType g ≠ .error message) :
    ∃ b, assertedIn w k subject predicate c.objectKey c.objectType g = .ok b ∧
      (b = false ↔ ∀ y, entityNamed w k.brainId
        { entityType := strip c.objectType, canonicalName := strip c.objectKey } g = some y →
          activeEdge g k.brainId subject predicate y.id = none) := by
  rw [assertedIn, if_neg (by rw [hobj]; exact Bool.false_ne_true)] at hok ⊢
  cases hs : resolvedSubject w k (strip c.objectKey) (strip c.objectType) g with
  | error message =>
    rw [hs] at hok
    exact absurd rfl (hok message)
  | ok r =>
    have hnamed := resolved_named hot hs
    cases hy : entityNamed w k.brainId
        { entityType := strip c.objectType, canonicalName := strip c.objectKey } g with
    | none =>
      rw [hy] at hnamed
      subst hnamed
      exact ⟨false, rfl, fun _ y hy' => (nomatch hy'), fun _ => rfl⟩
    | some y =>
      rw [hy] at hnamed
      subst hnamed
      refine ⟨(activeEdge g k.brainId subject predicate y.id).isSome, rfl, ?_⟩
      rw [Option.isSome_eq_false_iff, Option.isNone_iff_eq_none]
      constructor
      · intro hn z hz
        cases hz
        exact hn
      · exact fun h => h y rfl

/-- The denials of `kg_check` are the full slots of the stripped names. -/
theorem denies_iff {g : Graph} (hinputs : checkInputs c.subjectKey c.predicate = none)
    (hst : strip c.subjectType ≠ "") (hot : strip c.objectType ≠ "")
    (hobj : isBlank c.objectKey = false)
    (hdecides : ∀ message, checkVerdict w k c g ≠ .invalid message) :
    (checkVerdict w k c g).denies = true ↔
      LedgerFull w k g
        { entityType := strip c.subjectType, canonicalName := strip c.subjectKey }
        { entityType := strip c.objectType, canonicalName := strip c.objectKey }
        (strip c.predicate) := by
  unfold checkVerdict at hdecides ⊢
  rw [hinputs] at hdecides ⊢
  dsimp only at hdecides ⊢
  cases hp : g.predicates.get? (k.brainId, strip c.predicate) with
  | none =>
    constructor
    · intro h
      cases h
    · rintro ⟨n, x, hn, -⟩
      rw [declaredBound, hp] at hn
      cases hn
  | some p =>
    have hbound : ∀ σ : Slot, σ.brainId = k.brainId → σ.predicate = strip c.predicate →
        declaredBound g σ = p.maxCount.map (fun m => m.1) := by
      intro σ hb hpred
      apply declaredBound_of_get?
      rw [hb, hpred, hp]
    rw [hp] at hdecides
    simp only [declaredVerdict] at hdecides ⊢
    cases hm : p.maxCount with
    | none =>
      constructor
      · intro h
        cases h
      · rintro ⟨n, x, hn, -⟩
        rw [hbound ⟨k.brainId, x.id, strip c.predicate⟩ rfl rfl, hm] at hn
        cases hn
    | some m =>
      rw [hm] at hdecides
      dsimp only at hdecides ⊢
      cases hs : resolvedSubject w k (strip c.subjectKey) (strip c.subjectType) g with
      | error message =>
        rw [hs] at hdecides
        exact absurd rfl (hdecides message)
      | ok r =>
        rw [hs] at hdecides
        have hnamed := resolved_named hst hs
        cases hx : entityNamed w k.brainId
            { entityType := strip c.subjectType, canonicalName := strip c.subjectKey } g with
        | none =>
          rw [hx] at hnamed
          subst hnamed
          constructor
          · intro h
            cases h
          · rintro ⟨n, x, -, hx', -⟩
            rw [hx] at hx'
            cases hx'
        | some x =>
          rw [hx] at hnamed
          subst hnamed
          have hok : ∀ message, assertedIn w k x.id (strip c.predicate) c.objectKey c.objectType g ≠
              .error message := by
            intro message herr
            apply hdecides message
            simp only [Option.map_some, subjectVerdict, slotVerdict, herr, countVerdict]
          obtain ⟨b, hb, hasserted⟩ := assertedIn_ok hot hobj hok
          rw [Option.map_some, subjectVerdict, slotVerdict, hb, countVerdict_denies, hasserted]
          have hone := hbound ⟨k.brainId, x.id, strip c.predicate⟩ rfl rfl
          rw [hm] at hone
          constructor
          · rintro ⟨hno, hle⟩
            exact ⟨m.1, x, hone, hx, hle, hno⟩
          · rintro ⟨n, x', hn, hx', hle, hno⟩
            rw [hx] at hx'
            cases hx'
            rw [hone] at hn
            cases hn
            exact ⟨hno, hle⟩

end Verdict

section Agreement
variable {w : GraphWorld} {k : GraphConfig} {c : CheckArgs} {s o : EntityArgs} {a : EdgeArgs}
  {g g₁ g₂ g₃ : Graph} {i j : Nat} {r : CheckOutcome}

theorem upsertEntity_written {a : EntityArgs} {id : Nat} {h : Graph}
    (hr : GraphStore.upsertEntity w k a g = (.ok id, h)) :
    ∃ now, EntityWritten w k.brainId now { a with aliases := a.aliases.map w.unicode.lower }
      g.opened id h := by
  obtain ⟨e, he⟩ | ⟨id', h', -, hrow, ht⟩ := transaction_cases w (fun now =>
    upsertEntityRow w k.brainId now { a with aliases := a.aliases.map w.unicode.lower }) g
  · rw [GraphStore.upsertEntity, he] at hr
    cases hr
  · rw [GraphStore.upsertEntity, ht] at hr
    cases hr
    exact ⟨_, upsertEntityRow_ok hrow⟩

theorem activeEdge_congr {g h : Graph} (he : h.edges = g.edges) : activeEdge h = activeEdge g := by
  unfold activeEdge
  rw [he]

theorem cardinalityRefusal_congr {g h : Graph} (u : Unicode) (strict : Bool) (he : h.edges = g.edges)
    (hp : h.predicates = g.predicates) : cardinalityRefusal u strict h = cardinalityRefusal u strict g := by
  funext σ
  rw [cardinalityRefusal, cardinalityRefusal, hp, slotObjects_eq, slotObjects_eq, he]

/-- `_assert_cardinality_allows` refuses what strict mode or the declared bound refuses. -/
theorem cardinalityRefusal_iff {u : Unicode} {strict : Bool} {σ : Slot} :
    (∃ msg, cardinalityRefusal u strict g σ = some msg) ↔
      (strict = true ∧ g.predicates.get? (σ.brainId, σ.predicate) = none) ∨
        ∃ n, declaredBound g σ = some n ∧ n ≤ (slotObjects g σ).card := by
  unfold cardinalityRefusal declaredBound
  cases hp : g.predicates.get? (σ.brainId, σ.predicate) with
  | none => cases strict <;> simp
  | some p =>
    cases hm : p.maxCount with
    | none => simp [hm]
    | some m => simp [hm]

/-- Every edge joins entities that have been drawn. -/
def EndsDrawn (g : Graph) : Prop :=
  ∀ e ∈ g.edges.values, e.subject < g.nextId ∧ e.object < g.nextId

theorem slotObjects_fresh (hends : EndsDrawn g) {brain predicate : String} (hi : g.nextId ≤ i) :
    slotObjects g ⟨brain, i, predicate⟩ = ∅ := by
  rw [slotObjects_eq, Finset.eq_empty_iff_forall_notMem]
  intro x hx
  obtain ⟨e, he, hin, -⟩ := mem_objectsIn.1 hx
  have hslot := (EdgeRow.inSlot_iff.1 hin).1
  have hsub : e.subject = i := congrArg Slot.subject hslot
  have := (hends e he).1
  omega

theorem activeEdge_fresh (hends : EndsDrawn g) {brain predicate : String}
    (hij : g.nextId ≤ i ∨ g.nextId ≤ j) : activeEdge g brain i predicate j = none := by
  cases he : activeEdge g brain i predicate j with
  | none => rfl
  | some e =>
    obtain ⟨hm, ht⟩ := activeEdge_triple he
    have htriple := (EdgeRow.isTriple_iff.1 ht).1
    simp only [EdgeRow.triple, Prod.mk.injEq] at htriple
    have := hends e hm
    omega

/-- The edge of the two names is there exactly when it is there under their ids. -/
theorem named_edge_none (hends : EndsDrawn g) {predicate : String}
    (hi : StandsFor w k.brainId g s i) (hj : StandsFor w k.brainId g o j) :
    activeEdge g k.brainId i predicate j = none ↔
      ∀ x y, entityNamed w k.brainId s g = some x → entityNamed w k.brainId o g = some y →
        activeEdge g k.brainId x.id predicate y.id = none := by
  rcases hi with ⟨x, hx, rfl⟩ | ⟨hx, hi⟩
  · rcases hj with ⟨y, hy, rfl⟩ | ⟨hy, hj⟩
    · constructor
      · intro h x' y' hx' hy'
        rw [hx] at hx'
        rw [hy] at hy'
        cases hx'
        cases hy'
        exact h
      · exact fun h => h x y hx hy
    · constructor
      · intro _ x' y' _ hy'
        rw [hy] at hy'
        cases hy'
      · exact fun _ => activeEdge_fresh hends (.inr hj)
  · constructor
    · intro _ x' y' hx'
      rw [hx] at hx'
      cases hx'
    · exact fun _ => activeEdge_fresh hends (.inl hi)

/-- What the write refuses, in the words of the ledger. -/
theorem refused_by_ledger (hends : EndsDrawn g) {predicate : String}
    (hi : StandsFor w k.brainId g s i) (hj : StandsFor w k.brainId g o j) :
    (activeEdge g k.brainId i predicate j = none ∧
      ∃ msg, cardinalityRefusal w.unicode k.strictPredicates g ⟨k.brainId, i, predicate⟩ = some msg) ↔
      LedgerFull w k g s o predicate ∨ StrictGap w k g s o predicate := by
  rw [named_edge_none hends hi hj, cardinalityRefusal_iff]
  constructor
  · rintro ⟨hno, ⟨hstrict, hp⟩ | ⟨n, hn, hle⟩⟩
    · exact .inr ⟨hstrict, hp, hno⟩
    · rcases hi with ⟨x, hx, rfl⟩ | ⟨-, hi⟩
      · exact .inl ⟨n, x, hn, hx, hle, fun y hy => hno x y hx hy⟩
      · rw [slotObjects_fresh hends hi, Finset.card_empty] at hle
        unfold declaredBound at hn
        split at hn
        · cases hn
        · next p hp =>
          obtain ⟨m, -, rfl⟩ := Option.map_eq_some_iff.1 hn
          have := m.2
          omega
  · rintro (⟨n, x, hn, hx, hle, hno⟩ | ⟨hstrict, hp, hno⟩)
    · rcases hi with ⟨x', hx', rfl⟩ | ⟨hx', -⟩
      · rw [hx] at hx'
        cases hx'
        refine ⟨?_, .inr ⟨n, hn, hle⟩⟩
        intro x' y hx' hy
        rw [hx] at hx'
        cases hx'
        exact hno y hy
      · rw [hx] at hx'
        cases hx'
    · exact ⟨hno, .inl ⟨hstrict, hp⟩⟩

/-- The write of an edge between known ends under evidence: a conflict, or a success. -/
theorem upsertEdge_result (hs : a.subject = .uuid i) (ho : a.object = .uuid j)
    (hev : a.evidenceId.isSome = true) (hlayer : fsrsAnswers w.unicode 0 a.layer = true)
    (hknown : (hasEntity w g i && hasEntity w g j) = true) (hopen : w.refuses g.ticks = false) :
    ((∃ id, (GraphStore.upsertEdge w k a g).1 = .ok id) ↔
      ¬ ∃ msg, (GraphStore.upsertEdge w k a g).1 = .error (.conflict msg)) ∧
    ((∃ msg, (GraphStore.upsertEdge w k a g).1 = .error (.conflict msg)) ↔
      activeEdge g k.brainId i a.predicate j = none ∧
        ∃ msg, cardinalityRefusal w.unicode k.strictPredicates g ⟨k.brainId, i, a.predicate⟩ =
          some msg) := by
  have hgiven : (k.evidenceRequired && a.evidenceId.isNone) = false := by
    obtain ⟨e, he⟩ := Option.isSome_iff_exists.1 hev
    rw [he, Option.isNone_some, Bool.and_false]
  have hlayer' : ∀ stability, fsrsAnswers w.unicode stability a.layer = true := by
    intro stability
    simp only [fsrsAnswers, decide_true, Bool.true_and, Bool.not_eq_true'] at hlayer ⊢
    rw [hlayer, Bool.and_false]
  have hok : (∃ id, (GraphStore.upsertEdge w k a g).1 = .ok id) ↔ upsertAnswers w k a g = true := by
    rw [← upsertEdge_answers]
    constructor
    · rintro ⟨id, hid⟩
      exact ⟨id, (GraphStore.upsertEdge w k a g).2, Prod.ext hid rfl⟩
    · rintro ⟨id, h, hid⟩
      exact ⟨id, congrArg Prod.fst hid⟩
  have hanswers : upsertAnswers w k a g = true ↔ ¬ (activeEdge g k.brainId i a.predicate j = none ∧
      ∃ msg, cardinalityRefusal w.unicode k.strictPredicates g ⟨k.brainId, i, a.predicate⟩ =
        some msg) := by
    rw [upsertAnswers, hgiven, hopen, hs, ho]
    dsimp only
    cases hx : activeEdge g k.brainId i a.predicate j with
    | some x => simp [hlayer']
    | none =>
      cases hr : cardinalityRefusal w.unicode k.strictPredicates g ⟨k.brainId, i, a.predicate⟩ with
      | none => simp [hknown]
      | some msg => simp
  have hconflict : (∃ msg, (GraphStore.upsertEdge w k a g).1 = .error (.conflict msg)) ↔
      activeEdge g k.brainId i a.predicate j = none ∧
        ∃ msg, cardinalityRefusal w.unicode k.strictPredicates g ⟨k.brainId, i, a.predicate⟩ =
          some msg := by
    constructor
    · rintro ⟨msg, hmsg⟩
      by_contra hno
      obtain ⟨id, hid⟩ := hok.2 (hanswers.2 hno)
      rw [hmsg] at hid
      cases hid
    · rintro ⟨hnone, msg, hmsg⟩
      refine ⟨msg, ?_⟩
      have hrefuse : cardinalityRefusal w.unicode k.strictPredicates g.opened
          ⟨k.brainId, i, a.predicate⟩ = some msg := hmsg
      have hblock := GraphStore.upsertEdgeBlock_fresh (w := w) (k := k) (g := g.opened)
        (w.clock g.ticks) hs ho hnone
      rw [hrefuse] at hblock
      rw [GraphStore.upsertEdge, hgiven, if_neg Bool.false_ne_true, transaction, hopen,
        if_neg Bool.false_ne_true, hblock]
  rw [hok, hanswers, hconflict]
  exact ⟨Iff.rfl, Iff.rfl⟩

/-- The texts of the check are what the write is given. -/
def Unpadded (c : CheckArgs) : Prop :=
  strip c.subjectKey = c.subjectKey ∧ strip c.subjectType = c.subjectType ∧
    strip c.predicate = c.predicate ∧ strip c.objectKey = c.objectKey ∧
      strip c.objectType = c.objectType

instance : Decidable (Unpadded c) := inferInstanceAs (Decidable (_ ∧ _))

def CheckArgs.subject (c : CheckArgs) : EntityArgs :=
  { entityType := c.subjectType, canonicalName := c.subjectKey }

def CheckArgs.object (c : CheckArgs) : EntityArgs :=
  { entityType := c.objectType, canonicalName := c.objectKey }

/-- The check as it looks its texts up. -/
def CheckArgs.stripped (c : CheckArgs) : CheckArgs :=
  ⟨strip c.subjectKey, strip c.predicate, strip c.objectKey, strip c.subjectType, strip c.objectType⟩

theorem Unpadded.stripped (h : Unpadded c) : c.stripped = c := by
  obtain ⟨h₁, h₂, h₃, h₄, h₅⟩ := h
  rw [CheckArgs.stripped, h₁, h₂, h₃, h₄, h₅]

/-- The slot of the texts is full as the ledger has it. -/
def CheckArgs.full (w : GraphWorld) (k : GraphConfig) (g : Graph) (c : CheckArgs) : Prop :=
  LedgerFull w k g c.subject c.object c.predicate

def CheckArgs.gap (w : GraphWorld) (k : GraphConfig) (g : Graph) (c : CheckArgs) : Prop :=
  StrictGap w k g c.subject c.object c.predicate

theorem CheckArgs.full_not_gap (h : c.full w k g) : ¬ c.gap w k g := by
  obtain ⟨n, x, hn, -⟩ := h
  rintro ⟨-, hp, -⟩
  unfold declaredBound at hn
  rw [show g.predicates.get? (k.brainId, c.predicate) = none from hp] at hn
  cases hn

/-- The verdict is that of the write. -/
def Concurs (r : CheckOutcome) (written : Except GraphError Nat) : Prop :=
  (r.allows = true ↔ ∃ id, written = .ok id) ∧ (r.denies = true ↔ ∃ msg, written = .error (.conflict msg))

theorem CheckOutcome.allows_iff (hr : ∀ message, r ≠ .invalid message) :
    r.allows = true ↔ ¬ r.denies = true := by
  cases r with
  | invalid message => exact absurd rfl (hr message)
  | allow => exact ⟨fun _ => Bool.noConfusion, fun _ => rfl⟩
  | deny => exact ⟨fun h => (nomatch h), fun h => absurd rfl h⟩

/-- The verdict of `kg_check` on typed names is that of the write exactly when the write finds its
connection and either the texts carry no white space around them and strict mode does not refuse an
undeclared predicate, or the ledger says the same of the texts with and without it. -/
theorem kg_check_agrees_iff (hc : kgCheck w k c g = (.ok r, g₁)) (hr : ∀ message, r ≠ .invalid message)
    (hst : strip c.subjectType ≠ "") (hot : strip c.objectType ≠ "") (hobj : isBlank c.objectKey = false)
    (hss : s.entityType = c.subjectType ∧ s.canonicalName = c.subjectKey)
    (hoo : o.entityType = c.objectType ∧ o.canonicalName = c.objectKey)
    (hs : GraphStore.upsertEntity w k s g₁ = (.ok i, g₂))
    (ho : GraphStore.upsertEntity w k o g₂ = (.ok j, g₃))
    (has : a.subject = .uuid i) (hap : a.predicate = c.predicate) (hao : a.object = .uuid j)
    (hev : a.evidenceId.isSome = true) (hlayer : fsrsAnswers w.unicode 0 a.layer = true)
    (hends : EndsDrawn g) (hdrawn : ∀ x ∈ g.entities.values, x.id < g.nextId) :
    Concurs r (GraphStore.upsertEdge w k a g₃).1 ↔
      w.refuses g₃.ticks = false ∧ (Unpadded c → ¬ c.gap w k g) ∧
        (¬ Unpadded c → (c.stripped.full w k g ↔ c.full w k g ∨ c.gap w k g)) := by
  obtain ⟨⟨n, rfl⟩, rfl⟩ := reads_kgCheck g r g₁ hc
  obtain ⟨now, hws⟩ := upsertEntity_written hs
  obtain ⟨now', hwo⟩ := upsertEntity_written ho
  have hi : StandsFor w k.brainId g c.subject i := by
    have hsame : entityNamed w k.brainId { s with aliases := s.aliases.map w.unicode.lower } =
        entityNamed w k.brainId c.subject := by
      unfold entityNamed sameEntity
      rw [hss.1, hss.2]
      rfl
    have hstands := hws.standsFor
    unfold StandsFor at hstands
    rw [hsame] at hstands
    exact hstands
  have hj : StandsFor w k.brainId g c.object j := by
    have hsame : entityNamed w k.brainId { o with aliases := o.aliases.map w.unicode.lower } =
        entityNamed w k.brainId c.object := by
      unfold entityNamed sameEntity
      rw [hoo.1, hoo.2]
      rfl
    have hstands : StandsFor w k.brainId g₂ c.object j := by
      have hstands := hwo.standsFor
      unfold StandsFor at hstands
      rw [hsame] at hstands
      exact hstands
    exact hws.standsFor_before (g := (g.atTick n).opened) hdrawn hstands
  have hedges : g₃.edges = g.edges := hwo.edges.trans hws.edges
  have hpredicates : g₃.predicates = g.predicates := hwo.predicates.trans hws.predicates
  have hknown : (hasEntity w g₃ i && hasEntity w g₃ j) = true := by
    rw [hasEntity, hasEntity, hwo.keeps_known hws.known, hwo.known, Bool.true_or, Bool.true_or,
      Bool.and_self]
  have hinputs : checkInputs c.subjectKey c.predicate = none := by
    cases hin : checkInputs c.subjectKey c.predicate with
    | none => rfl
    | some message =>
      apply absurd _ (hr message)
      rw [checkVerdict, hin]
  have hdenies := denies_iff hinputs hst hot hobj hr
  cases hw : w.refuses g₃.ticks with
  | true =>
    have hlost : (GraphStore.upsertEdge w k a g₃).1 = .error .connection := by
      have hgiven : (k.evidenceRequired && a.evidenceId.isNone) = false := by
        obtain ⟨e, he⟩ := Option.isSome_iff_exists.1 hev
        rw [he, Option.isNone_some, Bool.and_false]
      rw [GraphStore.upsertEdge, hgiven, if_neg Bool.false_ne_true, transaction, hw, if_pos rfl]
    constructor
    · rintro ⟨hallows, hdenies'⟩
      rw [hlost] at hallows hdenies'
      have hno : ¬ (checkVerdict w k c g).denies = true := by
        intro h
        obtain ⟨msg, hmsg⟩ := hdenies'.1 h
        cases hmsg
      obtain ⟨id, hid⟩ := hallows.1 ((CheckOutcome.allows_iff hr).2 hno)
      cases hid
    · rintro ⟨h, -⟩
      cases h
  | false =>
    obtain ⟨hsucceeds, hconflict⟩ := upsertEdge_result has hao hev hlayer hknown hw
    rw [activeEdge_congr hedges, cardinalityRefusal_congr _ _ hedges hpredicates, hap,
      refused_by_ledger hends hi hj] at hconflict
    have hboth : Concurs (checkVerdict w k c g) (GraphStore.upsertEdge w k a g₃).1 ↔
        (c.stripped.full w k g ↔ c.full w k g ∨ c.gap w k g) := by
      rw [Concurs, hsucceeds, CheckOutcome.allows_iff hr, hdenies, hconflict, not_iff_not]
      exact and_self_iff
    rw [hboth]
    constructor
    · intro hsame
      refine ⟨rfl, ?_, fun _ => hsame⟩
      intro hu hgap
      rw [hu.stripped] at hsame
      exact CheckArgs.full_not_gap (hsame.2 (.inr hgap)) hgap
    · rintro ⟨-, hplain, hpadded⟩
      by_cases hu : Unpadded c
      · rw [hu.stripped]
        exact ⟨.inl, fun h => h.resolve_right (hplain hu)⟩
      · exact hpadded hu

end Agreement
/-- A person with a car, of which a person may own one. -/
def carCheck : CheckArgs where
  subjectKey := "ada"
  predicate := "owns"
  objectKey := "two"
  subjectType := "person"
  objectType := "car"

def adaArgs : EntityArgs := { entityType := "person", canonicalName := "ada" }

def twoArgs : EntityArgs := { entityType := "car", canonicalName := "two" }

/-- The graph after a check and the upserts of its two entities. -/
def afterCheck (k : GraphConfig) (c : CheckArgs) : Graph :=
  let g₁ := (kgCheck .calm k c ownedGarage).2
  let g₂ := (GraphStore.upsertEntity .calm k adaArgs g₁).2
  (GraphStore.upsertEntity .calm k twoArgs g₂).2

theorem full_slot_denied :
    Concurs (checkVerdict .calm citedStore carCheck ownedGarage)
      (GraphStore.upsertEdge .calm citedStore (ownsArgs 2) (afterCheck citedStore carCheck)).1 := by
  have hcheck : (kgCheck .calm citedStore carCheck ownedGarage).1 =
      .ok (checkVerdict .calm citedStore carCheck ownedGarage) := by
    decide +kernel
  have hdeny : (checkVerdict .calm citedStore carCheck ownedGarage).denies = true := by
    decide +kernel
  have hdecides : ∀ message, checkVerdict .calm citedStore carCheck ownedGarage ≠
      .invalid message := by
    intro message h
    rw [h] at hdeny
    cases hdeny
  have hada : (GraphStore.upsertEntity .calm citedStore adaArgs
      (kgCheck .calm citedStore carCheck ownedGarage).2).1 = .ok 0 := by
    decide +kernel
  have htwo : (GraphStore.upsertEntity .calm citedStore twoArgs
      (GraphStore.upsertEntity .calm citedStore adaArgs
        (kgCheck .calm citedStore carCheck ownedGarage).2).2).1 = .ok 2 := by
    decide +kernel
  apply (kg_check_agrees_iff (Prod.ext hcheck rfl) hdecides (by decide +kernel) (by decide +kernel)
    (by decide) ⟨rfl, rfl⟩ ⟨rfl, rfl⟩ (Prod.ext hada rfl) (Prod.ext htwo rfl) rfl rfl rfl rfl
    (by decide +kernel) (by unfold EndsDrawn; decide +kernel) (by decide +kernel)).2
  refine ⟨rfl, ?_, ?_⟩
  · rintro - ⟨hstrict, -⟩
    cases hstrict
  · intro h
    exact absurd (by decide +kernel) h

/-- Strict mode, and a predicate with a blank in front of its name. -/
theorem check_disagrees :
    ((kgCheck .calm { citedStore with strictPredicates := true }
        { carCheck with predicate := "drives" } ownedGarage).1 = .ok (.allow .unregistered 0 none) ∧
      ¬ Concurs (.allow .unregistered 0 none)
        (GraphStore.upsertEdge .calm { citedStore with strictPredicates := true }
          { ownsArgs 2 with predicate := "drives" }
          (afterCheck { citedStore with strictPredicates := true }
            { carCheck with predicate := "drives" })).1) ∧
    ∃ r, (kgCheck .calm citedStore { carCheck with predicate := " owns" } ownedGarage).1 = .ok r ∧
      r.denies = true ∧
      ¬ Concurs r (GraphStore.upsertEdge .calm citedStore { ownsArgs 2 with predicate := " owns" }
        (afterCheck citedStore { carCheck with predicate := " owns" })).1 := by
  constructor
  · constructor
    · decide +kernel
    · intro h
      obtain ⟨id, hid⟩ := h.1.1 rfl
      have hraises : (GraphStore.upsertEdge .calm { citedStore with strictPredicates := true }
          { ownsArgs 2 with predicate := "drives" }
          (afterCheck { citedStore with strictPredicates := true }
            { carCheck with predicate := "drives" })).1.isOk = false := by
        decide +kernel
      rw [hid] at hraises
      cases hraises
  · refine ⟨checkVerdict .calm citedStore { carCheck with predicate := " owns" } ownedGarage, ?_, ?_, ?_⟩
    · decide +kernel
    · decide +kernel
    · intro h
      obtain ⟨msg, hmsg⟩ := h.2.1 (by decide +kernel)
      have hwrites : (GraphStore.upsertEdge .calm citedStore { ownsArgs 2 with predicate := " owns" }
          (afterCheck citedStore { carCheck with predicate := " owns" })).1.isOk = true := by
        decide +kernel
      rw [hmsg] at hwrites
      cases hwrites

end TappsBrain
