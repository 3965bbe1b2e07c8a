import Mathlib.Data.Finset.Card
import Mathlib.Data.Finset.Dedup
import TappsBrain.Lib.Table
import TappsBrain.Lib.Prog
import TappsBrain.Config

namespace TappsBrain
open Lib
set_option autoImplicit true
set_option relaxedAutoImplicit false

/-- What a caller binds to a `%s::uuid` parameter. -/
inductive IdText where
  | uuid (id : Nat)
  | malformed (text : String)
deriving DecidableEq, Repr

/-- A `jsonb` object, each field with the text `->>` shows of it. -/
abbrev JsonObject := List (String × String)

def JsonObject.field (o : JsonObject) (name : String) : Option String := o.lookup name

/-- `jsonb_set(o, '{name}', text, true)`. -/
def JsonObject.setField (name text : String) : JsonObject → JsonObject
  | [] => [(name, text)]
  | f :: rest => if f.1 = name then (name, text) :: rest else f :: JsonObject.setField name text rest

structure EntityRow where
  id : Nat
  brainId : String
  entityType : String
  canonicalName : String
  aliases : List String
  metadata : JsonObject
  confidence : ℚ
  source : String
  sourceAgent : String
  createdAt : Stamp
  updatedAt : Stamp
deriving DecidableEq, Repr

inductive EdgeStatus where
  | active | stale | superseded | archived
deriving DecidableEq, Repr

structure EdgeRow where
  id : Nat
  brainId : String
  subject : Nat
  predicate : String
  object : Nat
  edgeClass : Option String := none
  layer : Option String := none
  profileName : Option String := none
  metadata : JsonObject := []
  confidence : ℚ := 6 / 10
  confidenceFloor : ℚ := 0
  source : String := "agent"
  sourceAgent : String := "unknown"
  createdByAgent : String := "unknown"
  status : EdgeStatus := .active
  staleReason : Option String := none
  staleDate : Option Stamp := none
  createdAt : Stamp
  updatedAt : Stamp
  accessCount : Nat := 0
  usefulAccessCount : Nat := 0
  stability : ℚ := 0
  difficulty : ℚ := 0
  invalidAt : Option Stamp := none
  supersededBy : Option Nat := none
  lastReinforced : Option Stamp := none
  reinforceCount : Nat := 0
  contradicted : Bool := false
  contradictionReason : Option String := none
  positiveFeedbackCount : ℚ := 0
  negativeFeedbackCount : ℚ := 0
deriving DecidableEq, Repr

structure EvidenceRow where
  id : Nat
  brainId : String
  edgeId : Option Nat
  entityId : Option Nat
  sourceType : String
  sourceId : Option String
  sourceKey : Option String
  sourceUri : Option String
  sourceHash : Option String
  sourceSpan : Option String
  quote : Option String
  metadata : JsonObject
  sourceAgent : String
  confidence : ℚ
  utilityScore : ℚ
deriving DecidableEq, Repr

/-- One declaration of `kg_predicates`; a bound is at least 1 by the table's check. -/
structure PredicateRow where
  brainId : String
  predicate : String
  maxCount : Option { m : Nat // 1 ≤ m }
deriving DecidableEq

def PredicateRow.name (p : PredicateRow) : String × String := (p.brainId, p.predicate)

/-- The knowledge graph of one tenant. -/
structure Graph where
  entities : Table EntityRow.id := Table.empty
  edges : Table EdgeRow.id := Table.empty
  evidence : Table EvidenceRow.id := Table.empty
  predicates : Table PredicateRow.name := Table.empty
  /-- What `gen_random_uuid()` answers next. -/
  nextId : Nat := 0
  ticks : Nat := 0
deriving DecidableEq

inductive GraphError where
  | valueError (msg : String)
  | conflict (msg : String)
  | invalidText (text : String)
  | foreignKeyViolation
  | uniqueViolation
  | dataError
  | connection
deriving DecidableEq, Repr

/-- The class of an exception, without its text. -/
inductive ErrorClass where
  | valueError | conflictError | invalidTextRepresentation | foreignKeyViolation | uniqueViolation
  | dataError | operationalError
deriving DecidableEq, Repr

def GraphError.cls : GraphError → ErrorClass
  | .valueError _ => .valueError
  | .conflict _ => .conflictError
  | .invalidText _ => .invalidTextRepresentation
  | .foreignKeyViolation => .foreignKeyViolation
  | .uniqueViolation => .uniqueViolation
  | .dataError => .dataError
  | .connection => .operationalError

/-- What the graph's environment answers: the clock and the connections, by the number of the
transaction, the rows of other tenants, and the numeric part of `update_stability`. -/
structure GraphWorld where
  unicode : Unicode
  /-- `lower()` of the database. -/
  dbLower : String → String
  clock : Nat → Stamp
  refuses : Nat → Bool
  /-- Referential integrity is checked against the rows of every tenant. -/
  foreignEntity : Nat → Bool
  foreignEdge : Nat → Bool
  /-- A name the database can neither store nor index. -/
  unstorable : String → Bool
  updateStability : ℚ → ℚ → String → Option Stamp → Stamp → Bool → Nat → ℚ × ℚ

abbrev Tx := Prog Graph GraphError

def Graph.opened (g : Graph) : Graph := { g with ticks := g.ticks + 1 }

@[simp] theorem Graph.opened_edges (g : Graph) : g.opened.edges = g.edges := rfl

@[simp] theorem Graph.opened_evidence (g : Graph) : g.opened.evidence = g.evidence := rfl

@[simp] theorem Graph.opened_predicates (g : Graph) : g.opened.predicates = g.predicates := rfl

/-- A connection block: everything or nothing, at one reading of `now()`. -/
def transaction (w : GraphWorld) (body : Stamp → Tx α) : Tx α := fun g =>
  if w.refuses g.ticks then (.error .connection, g.opened)
  else match body (w.clock g.ticks) g.opened with
    | (.ok a, h) => (.ok a, h)
    | (.error e, _) => (.error e, g.opened)

/-- A connection block fails without a trace, or leaves what its body leaves. -/
theorem transaction_cases (w : GraphWorld) (body : Stamp → Tx α) (g : Graph) :
    (∃ e, transaction w body g = (.error e, g.opened)) ∨
      ∃ a h, w.refuses g.ticks = false ∧ body (w.clock g.ticks) g.opened = (.ok a, h) ∧
        transaction w body g = (.ok a, h) := by
  unfold transaction
  cases hw : w.refuses g.ticks with
  | true => exact .inl ⟨.connection, if_pos rfl⟩
  | false =>
    rw [if_neg Bool.false_ne_true]
    rcases hb : body (w.clock g.ticks) g.opened with ⟨e | a, h⟩
    · exact .inl ⟨e, rfl⟩
    · exact .inr ⟨a, h, rfl, rfl, rfl⟩

/-- `%s::uuid`. -/
def castUuid : IdText → Tx Nat
  | .uuid id => pure id
  | .malformed text => Prog.raise (.invalidText text)

/-- The rows the partial index `uix_kg_edges_active_triple` covers. -/
def EdgeRow.live (e : EdgeRow) : Bool := e.status = .active && e.invalidAt.isNone

def EdgeRow.isTriple (brain : String) (subject : Nat) (predicate : String) (object : Nat)
    (e : EdgeRow) : Bool :=
  e.brainId = brain && e.subject = subject && e.predicate = predicate && e.object = object && e.live

def activeEdge (g : Graph) (brain : String) (subject : Nat) (predicate : String) (object : Nat) :
    Option EdgeRow :=
  g.edges.values.find? (EdgeRow.isTriple brain subject predicate object)

/-- `GET_ACTIVE_EDGE_SQL`. -/
def getActiveEdge (brain : String) (subject : IdText) (predicate : String) (object : IdText) :
    Tx (Option EdgeRow) := do
  let s ← castUuid subject
  let o ← castUuid object
  Prog.read (fun g => activeEdge g brain s predicate o)

@[simp] theorem getActiveEdge_run {brain : String} {s o : Nat} {predicate : String} (g : Graph) :
    getActiveEdge brain (.uuid s) predicate (.uuid o) g =
      (.ok (activeEdge g brain s predicate o), g) := rfl

theorem getActiveEdge_malformed (brain predicate : String) {subject object : IdText} (g : Graph)
    (h : ∀ s o, ¬ (subject = .uuid s ∧ object = .uuid o)) :
    ∃ text, getActiveEdge brain subject predicate object g = (.error (.invalidText text), g) := by
  cases subject with
  | malformed text => exact ⟨text, rfl⟩
  | uuid s =>
    cases object with
    | malformed text => exact ⟨text, rfl⟩
    | uuid o => exact absurd ⟨rfl, rfl⟩ (h s o)

def Graph.drawn (g : Graph) : Graph := { g with nextId := g.nextId + 1 }

/-- `gen_random_uuid()`. -/
def freshId : Tx Nat := fun g => (.ok g.nextId, g.drawn)

@[simp] theorem freshId_run (g : Graph) : freshId g = (.ok g.nextId, g.drawn) := rfl

def hasEntity (w : GraphWorld) (g : Graph) (id : Nat) : Bool :=
  g.entities.contains id || w.foreignEntity id

def hasEdge (w : GraphWorld) (g : Graph) (id : Nat) : Bool :=
  g.edges.contains id || w.foreignEdge id

/-- What a caller of `upsert_edge` writes of an edge. -/
structure EdgeArgs where
  subject : IdText
  predicate : String
  object : IdText
  evidenceId : Option String := none
  edgeClass : Option String := none
  layer : Option String := none
  profileName : Option String := none
  confidence : ℚ := 6 / 10
  source : String := "agent"
  sourceAgent : String := "unknown"
  metadata : JsonObject := []
deriving DecidableEq

/-- The row `INSERT_EDGE_SQL` writes: what it does not name takes the column default. -/
def newEdge (brain : String) (now : Stamp) (id subject object : Nat) (a : EdgeArgs)
    (confidence : ℚ) : EdgeRow where
  id := id
  brainId := brain
  subject := subject
  predicate := a.predicate
  object := object
  edgeClass := a.edgeClass
  layer := a.layer
  profileName := a.profileName
  metadata := a.metadata
  confidence := confidence
  source := a.source
  sourceAgent := a.sourceAgent
  createdByAgent := a.sourceAgent
  createdAt := now
  updatedAt := now

/-- `INSERT_EDGE_SQL`. -/
def insertEdge (w : GraphWorld) (brain : String) (now : Stamp) (a : EdgeArgs) (confidence : ℚ) :
    Tx Nat := do
  let s ← castUuid a.subject
  let o ← castUuid a.object
  let id ← freshId
  let clash ← Prog.read (fun g => (activeEdge g brain s a.predicate o).isSome)
  if clash then Prog.raise .uniqueViolation
  else do
    let known ← Prog.read (fun g => hasEntity w g s && hasEntity w g o)
    if known then do
      Prog.modify (fun g => { g with edges := g.edges.set (newEdge brain now id s o a confidence) })
      pure id
    else Prog.raise .foreignKeyViolation

theorem insertEdge_run {w : GraphWorld} {brain : String} {now : Stamp} {a : EdgeArgs} {c : ℚ}
    {s o : Nat} {g : Graph} (hs : a.subject = .uuid s) (ho : a.object = .uuid o) :
    insertEdge w brain now a c g =
      if (activeEdge g brain s a.predicate o).isSome then (.error .uniqueViolation, g.drawn)
      else if hasEntity w g s && hasEntity w g o then
        (.ok g.nextId, { g.drawn with edges := g.edges.set (newEdge brain now g.nextId s o a c) })
      else (.error .foreignKeyViolation, g.drawn) := by
  rw [insertEdge, hs, ho]
  change (if (activeEdge g brain s a.predicate o).isSome then
      (Prog.raise .uniqueViolation : Tx Nat) else _) g.drawn = _
  split
  · rfl
  · change (if hasEntity w g s && hasEntity w g o then _ else
      (Prog.raise .foreignKeyViolation : Tx Nat)) g.drawn = _
    split <;> rfl

theorem insertEdge_malformed (w : GraphWorld) (brain : String) (now : Stamp) {a : EdgeArgs} (c : ℚ)
    (g : Graph) (h : ∀ s o, ¬ (a.subject = .uuid s ∧ a.object = .uuid o)) :
    ∃ text, insertEdge w brain now a c g = (.error (.invalidText text), g) := by
  obtain ⟨subject, predicate, object⟩ := a
  cases subject with
  | malformed text => exact ⟨text, rfl⟩
  | uuid s =>
    cases object with
    | malformed text => exact ⟨text, rfl⟩
    | uuid o => exact absurd ⟨rfl, rfl⟩ (h s o)

/-- `UPDATE kg_edges SET ... WHERE id = %s::uuid AND brain_id = %s AND ... RETURNING`. -/
def updateEdge (brain : String) (id : IdText) (due : EdgeRow → Bool) (f : EdgeRow → EdgeRow) :
    Tx (Option EdgeRow) := do
  let i ← castUuid id
  match ← Prog.read (fun g : Graph => g.edges.get? i) with
  | none => pure none
  | some e =>
    if e.brainId = brain && due e then do
      Prog.modify (fun g => { g with edges := g.edges.set (f e) })
      pure (some (f e))
    else pure none

theorem updateEdge_run {brain : String} {i : Nat} {due : EdgeRow → Bool} {f : EdgeRow → EdgeRow}
    (g : Graph) :
    updateEdge brain (.uuid i) due f g =
      match g.edges.get? i with
      | none => (.ok none, g)
      | some e =>
        if e.brainId = brain && due e then
          (.ok (some (f e)), { g with edges := g.edges.set (f e) })
        else (.ok none, g) := by
  rw [updateEdge]
  change (match g.edges.get? i with
    | none => Pure.pure none
    | some e => _ : Tx (Option EdgeRow)) g = _
  cases g.edges.get? i with
  | none => rfl
  | some e =>
    dsimp only
    split <;> rfl

/-- What an update of one edge leaves, when it returns. -/
theorem updateEdge_ok {brain : String} {id : IdText} {due : EdgeRow → Bool} {f : EdgeRow → EdgeRow}
    {g h : Graph} {r : Option EdgeRow} (hr : updateEdge brain id due f g = (.ok r, h)) :
    r = none ∧ h = g ∨ ∃ e, id = .uuid e.id ∧ g.edges.get? e.id = some e ∧ e.brainId = brain ∧
      due e = true ∧ r = some (f e) ∧ h = { g with edges := g.edges.set (f e) } := by
  cases id with
  | malformed text => cases hr
  | uuid i =>
    rw [updateEdge_run] at hr
    cases he : g.edges.get? i with
    | none =>
      rw [he] at hr
      cases hr
      exact .inl ⟨rfl, rfl⟩
    | some e =>
      rw [he] at hr
      dsimp only at hr
      split at hr
      · next hd =>
        cases hr
        rw [Bool.and_eq_true, decide_eq_true_eq] at hd
        cases Table.key_of_get? he
        exact .inr ⟨e, rfl, he, hd.1, hd.2, rfl, rfl⟩
      · cases hr
        exact .inl ⟨rfl, rfl⟩

/-- Sixty seconds in the unit of `Stamp`. -/
def REINFORCE_DEBOUNCE : Nat := 60000000

/-- `last_reinforced IS NULL OR last_reinforced < now() - INTERVAL '60 seconds'`. -/
def EdgeRow.reinforceDue (now : Stamp) (e : EdgeRow) : Bool :=
  match e.lastReinforced with
  | none => true
  | some t => t + REINFORCE_DEBOUNCE < now

def EdgeRow.reinforced (now : Stamp) (s d : ℚ) (e : EdgeRow) : EdgeRow :=
  { e with
    lastReinforced := some now
    reinforceCount := e.reinforceCount + 1
    stability := s
    difficulty := d
    confidence := min (e.confidence * (105 / 100)) 1
    updatedAt := now }

/-- `REINFORCE_EDGE_SQL`. -/
def reinforceEdgeRow (brain : String) (now : Stamp) (id : IdText) (s d : ℚ) : Tx (Option EdgeRow) :=
  updateEdge brain id (EdgeRow.reinforceDue now) (EdgeRow.reinforced now s d)

/-- `MARK_EDGE_STALE_SQL`. -/
def markEdgeStaleRow (brain : String) (now : Stamp) (id : IdText) (reason : Option String) :
    Tx (Option EdgeRow) :=
  updateEdge brain id (fun e => e.status = .active) (fun e => { e with
    status := .stale
    staleReason := reason
    staleDate := some now
    updatedAt := now })

/-- `SUPERSEDE_EDGE_SQL`. -/
def supersedeEdgeRow (brain : String) (now : Stamp) (new : Nat) (old : IdText) :
    Tx (Option EdgeRow) :=
  updateEdge brain old (fun e => e.status = .active) (fun e => { e with
    status := .superseded
    supersededBy := some new
    updatedAt := now })

/-- `CONTRADICT_EDGE_SQL`, which does not ask for an active edge. -/
def contradictEdgeRow (brain : String) (now : Stamp) (id : IdText) (reason : String) :
    Tx (Option EdgeRow) :=
  updateEdge brain id (fun _ => true) (fun e => { e with
    contradicted := true
    contradictionReason := some reason
    status := .stale
    updatedAt := now })

/-- `APPLY_EDGE_HELPFUL_SQL`. -/
def applyEdgeHelpfulRow (brain : String) (now : Stamp) (id : IdText) : Tx (Option EdgeRow) :=
  updateEdge brain id (fun _ => true) (fun e => { e with
    usefulAccessCount := e.usefulAccessCount + 1
    positiveFeedbackCount := e.positiveFeedbackCount + 1
    accessCount := e.accessCount + 1
    updatedAt := now })

def EdgeRow.misled (now : Stamp) (delta : ℚ) (e : EdgeRow) : EdgeRow :=
  { e with
    negativeFeedbackCount := e.negativeFeedbackCount + 1
    accessCount := e.accessCount + 1
    confidence := max (e.confidence - delta) e.confidenceFloor
    metadata :=
      if 3 * e.positiveFeedbackCount < e.negativeFeedbackCount + 1 then
        e.metadata.setField "review_flagged" "true"
      else e.metadata
    updatedAt := now }

/-- `APPLY_EDGE_MISLEADING_SQL`. -/
def applyEdgeMisleadingRow (brain : String) (now : Stamp) (delta : ℚ) (id : IdText) :
    Tx (Option EdgeRow) :=
  updateEdge brain id (fun _ => true) (EdgeRow.misled now delta)

structure EntityArgs where
  entityType : String
  canonicalName : String
  aliases : List String := []
  metadata : JsonObject := []
  confidence : ℚ := 6 / 10
  source : String := "agent"
  sourceAgent : String := "unknown"
deriving DecidableEq

/-- The row the unique key of `kg_entities` finds. -/
def sameEntity (w : GraphWorld) (brain : String) (a : EntityArgs) (e : EntityRow) : Bool :=
  e.brainId = brain && e.entityType = a.entityType &&
    w.dbLower e.canonicalName = w.dbLower a.canonicalName

def newEntity (brain : String) (now : Stamp) (id : Nat) (a : EntityArgs) : EntityRow where
  id := id
  brainId := brain
  entityType := a.entityType
  canonicalName := a.canonicalName
  aliases := a.aliases
  metadata := a.metadata
  confidence := a.confidence
  source := a.source
  sourceAgent := a.sourceAgent
  createdAt := now
  updatedAt := now

/-- `UPSERT_ENTITY_SQL`. -/
def upsertEntityRow (w : GraphWorld) (brain : String) (now : Stamp) (a : EntityArgs) : Tx Nat := do
  if w.unstorable a.entityType || w.unstorable a.canonicalName then Prog.raise .dataError
  else do
    let id ← freshId
    match ← Prog.read (fun g : Graph => g.entities.values.find? (sameEntity w brain a)) with
    | some old => do
      Prog.modify (fun g => { g with entities := g.entities.set { old with
        aliases := a.aliases
        metadata := a.metadata
        confidence := max old.confidence a.confidence
        sourceAgent := a.sourceAgent
        updatedAt := now } })
      pure old.id
    | none => do
      Prog.modify (fun g => { g with entities := g.entities.set (newEntity brain now id a) })
      pure id

/-- The statement updates the row of its name, or inserts one. -/
theorem upsertEntityRow_run {w : GraphWorld} {a : EntityArgs}
    (hno : ¬ (w.unstorable a.entityType || w.unstorable a.canonicalName) = true) (brain : String)
    (now : Stamp) (g : Graph) :
    upsertEntityRow w brain now a g =
      match g.entities.values.find? (sameEntity w brain a) with
      | some old =>
        (.ok old.id, { g.drawn with entities := g.entities.set { old with
          aliases := a.aliases
          metadata := a.metadata
          confidence := max old.confidence a.confidence
          sourceAgent := a.sourceAgent
          updatedAt := now } })
      | none =>
        (.ok g.nextId, { g.drawn with entities := g.entities.set (newEntity brain now g.nextId a) }) := by
  rw [upsertEntityRow, if_neg hno, Prog.bind_run_ok (freshId_run g)]
  have hread : Prog.read (fun g : Graph => g.entities.values.find? (sameEntity w brain a)) g.drawn =
      ((.ok (g.entities.values.find? (sameEntity w brain a)), g.drawn) : Except GraphError _ × Graph) :=
    rfl
  rw [Prog.bind_run_ok hread]
  cases g.entities.values.find? (sameEntity w brain a) with
  | some old => rfl
  | none => rfl

structure EvidenceArgs where
  edgeId : Option IdText := none
  entityId : Option IdText := none
  sourceType : String := "agent"
  sourceId : Option String := none
  sourceKey : Option String := none
  sourceUri : Option String := none
  sourceHash : Option String := none
  sourceSpan : Option String := none
  quote : Option String := none
  metadata : JsonObject := []
  sourceAgent : String := "unknown"
  confidence : ℚ := 1
  utilityScore : Option ℚ := none
deriving DecidableEq

def castOptional : Option IdText → Tx (Option Nat)
  | none => pure none
  | some t => do
    let id ← castUuid t
    pure (some id)

def newEvidence (brain : String) (id : Nat) (edgeId entityId : Option Nat) (a : EvidenceArgs) :
    EvidenceRow where
  id := id
  brainId := brain
  edgeId := edgeId
  entityId := entityId
  sourceType := a.sourceType
  sourceId := a.sourceId
  sourceKey := a.sourceKey
  sourceUri := a.sourceUri
  sourceHash := a.sourceHash
  sourceSpan := a.sourceSpan
  quote := a.quote
  metadata := a.metadata
  sourceAgent := a.sourceAgent
  confidence := a.confidence
  utilityScore := a.utilityScore.getD 0

/-- `ATTACH_EVIDENCE_SQL`; the callers have checked the exclusive attachment. -/
def attachEvidenceRow (w : GraphWorld) (brain : String) (a : EvidenceArgs) : Tx Nat := do
  let edge ← castOptional a.edgeId
  let entity ← castOptional a.entityId
  let id ← freshId
  let known ← Prog.read (fun g => edge.all (hasEdge w g) && entity.all (hasEntity w g))
  if known then do
    Prog.modify (fun g => { g with evidence := g.evidence.set (newEvidence brain id edge entity a) })
    pure id
  else Prog.raise .foreignKeyViolation

/-- One subject and predicate of one brain. -/
structure Slot where
  brainId : String
  subject : Nat
  predicate : String
deriving DecidableEq, Repr

def EdgeRow.inSlot (σ : Slot) (e : EdgeRow) : Bool :=
  e.brainId = σ.brainId && e.subject = σ.subject && e.predicate = σ.predicate && e.live

/-- The distinct objects the slot holds. -/
def slotObjects (g : Graph) (σ : Slot) : Finset Nat :=
  ((g.edges.values.filter (EdgeRow.inSlot σ)).map (·.object)).toFinset

/-- `_EdgeDecayAdapter.tier`. -/
def decayTier (u : Unicode) (layer : Option String) : String :=
  let named := match layer with
    | none => "pattern"
    | some "" => "pattern"
    | some l => l
  let l := u.lower (strip named)
  if l = "domain" then "architectural" else l

/-- `_compute_fsrs`; the half-life is looked up only where no stability is set. -/
def computeFsrs (w : GraphWorld) (stability difficulty : ℚ) (layer : Option String)
    (lastReinforced : Option Stamp) (updatedAt : Stamp) (wasUseful : Bool) : Tx (ℚ × ℚ) := do
  let tier := decayTier w.unicode layer
  if stability = 0 && (MemoryTier.ofText tier).isNone then
    Prog.raise (.valueError
      s!"Unknown tier {w.unicode.repr tier} — not in profile layers or MemoryTier enum")
  else Prog.read (fun g =>
    w.updateStability stability difficulty tier lastReinforced updatedAt wasUseful g.ticks)

theorem computeFsrs_state {w : GraphWorld} {s d : ℚ} {layer : Option String} {t : Option Stamp}
    {u : Stamp} {useful : Bool} {g h : Graph} {r : Except GraphError (ℚ × ℚ)}
    (hr : computeFsrs w s d layer t u useful g = (r, h)) : h = g := by
  unfold computeFsrs at hr
  split at hr <;> cases hr <;> rfl

/-- A connection that never fails, a clock that counts seconds and no other tenants. -/
def GraphWorld.calm : GraphWorld where
  unicode := .lowercase
  dbLower := id
  clock := fun n => 1000000 * n
  refuses := fun _ => false
  foreignEntity := fun _ => false
  foreignEdge := fun _ => false
  unstorable := fun _ => false
  updateStability := fun s d _ _ _ _ _ => (max s 1, d)

end TappsBrain
