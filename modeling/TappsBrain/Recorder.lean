import TappsBrain.GraphStore

namespace TappsBrain
open Lib
set_option autoImplicit true
set_option relaxedAutoImplicit false

/-- A confidence pydantic has checked with `ge=0.0, le=1.0`. -/
abbrev UnitInterval : Type := { c : ℚ // 0 ≤ c ∧ c ≤ 1 }

structure EntitySpec where
  entityType : String
  canonicalName : String
  aliases : List String := []
  metadata : JsonObject := []
  confidence : UnitInterval := ⟨6 / 10, by decide +kernel⟩
  source : String := "agent"

/-- One end of an edge: a uuid, the name of an entity of the event, or a typed reference. -/
structure Endpoint where
  entityId : Option IdText := none
  key : Option String := none
  ref : Option JsonObject := none

/-- Python's truth of an optional id text. -/
def idGiven : Option IdText → Bool
  | none => false
  | some (.uuid _) => true
  | some (.malformed text) => text ≠ ""

/-- One half of `_require_endpoints`. -/
def Endpoint.given (p : Endpoint) : Bool :=
  idGiven p.entityId || !isEmpty p.key || (p.ref.getD []) ≠ []

structure EdgeSpec where
  subject : Endpoint
  object : Endpoint
  predicate : String
  edgeClass : Option String := none
  layer : Option String := none
  profileName : Option String := none
  confidence : UnitInterval := ⟨6 / 10, by decide +kernel⟩
  source : String := "agent"
  metadata : JsonObject := []
  accepted : (subject.given && object.given && !isBlank predicate) = true := by decide

/-- An `EvidenceSpec` supports exactly one row. -/
structure EvidenceSpec where
  args : EvidenceArgs
  exclusive : args.edgeId.isNone ≠ args.entityId.isNone := by decide

/-- The graph part of an `ExperienceEvent`. -/
structure ExperienceEvent where
  entities : List EntitySpec := []
  edges : List EdgeSpec := []
  evidence : List EvidenceSpec := []

structure RecorderConfig where
  brainId : String
  agentId : String := "unknown"
deriving DecidableEq

/-- The maps of `_build_entity_lookup`, newest first. -/
structure EntityLookup where
  typed : List ((String × String) × Nat) := []
  byName : List (String × Nat) := []
  ambiguous : List String := []
deriving DecidableEq

def EntityLookup.add (l : EntityLookup) (spec : EntitySpec) : Option Nat → EntityLookup
  | none => l
  | some id =>
    let name := spec.canonicalName
    let l := { l with typed := ((spec.entityType, name), id) :: l.typed }
    if l.ambiguous.contains name then l
    else match l.byName.lookup name with
      | none => { l with byName := (name, id) :: l.byName }
      | some prior =>
        if prior ≠ id then
          { l with ambiguous := name :: l.ambiguous, byName := l.byName.filter (fun p => p.1 ≠ name) }
        else l

/-- `_build_entity_lookup`. -/
def buildEntityLookup (entities : List EntitySpec) (ids : List (Option Nat)) : EntityLookup :=
  (entities.zip ids).foldl (fun l p => l.add p.1 p.2) {}

/-- `str(ref.get(a) or ref.get(b) or ... or "").strip()`. -/
def refField (ref : JsonObject) (names : List String) : String :=
  strip ((names.filterMap ref.field).find? (fun t => t ≠ "") |>.getD "")

/-- `_ref_to_lookup`. -/
def refToLookup (ref : JsonObject) : String × String :=
  (refField ref ["entity_type", "type"], refField ref ["canonical_name", "id", "key"])

/-- `_resolve_edge_endpoint`; an empty text is an absent id. -/
def resolveEdgeEndpoint (l : EntityLookup) (p : Endpoint) : Option IdText :=
  if idGiven p.entityId then p.entityId
  else match p.ref with
    | some ref =>
      let (entityType, canonicalName) := refToLookup ref
      if entityType ≠ "" && canonicalName ≠ "" then
        (l.typed.lookup (entityType, canonicalName)).map .uuid
      else if canonicalName ≠ "" then (l.byName.lookup canonicalName).map .uuid
      else none
    | none =>
      match p.key with
      | some name => if name ≠ "" then (l.byName.lookup name).map .uuid else none
      | none => none

inductive RecordWarning where
  | unresolvedSubject (index : Nat)
  | unresolvedObject (index : Nat)
  | entityUpsertFailed (index : Nat)
deriving DecidableEq, Repr

structure ExperienceResult where
  entityIds : List (Option Nat) := []
  edgeIds : List (Option Nat) := []
  evidenceIds : List Nat := []
  warnings : List RecordWarning := []
deriving DecidableEq, Repr

/-- `SAVEPOINT ...; try p except: ROLLBACK TO SAVEPOINT`. -/
def savepoint (p : Tx α) : Tx (Option α) := fun g =>
  match p g with
  | (.ok a, h) => (.ok (some a), h)
  | (.error _, _) => (.ok none, g)

namespace Recorder

def entityArgs (k : RecorderConfig) (spec : EntitySpec) : EntityArgs where
  entityType := spec.entityType
  canonicalName := spec.canonicalName
  aliases := spec.aliases
  metadata := spec.metadata
  confidence := spec.confidence.1
  source := spec.source
  sourceAgent := k.agentId

/-- `_upsert_entities`. -/
def upsertEntities (w : GraphWorld) (k : RecorderConfig) (now : Stamp) (entities : List EntitySpec) :
    Tx (List (Option Nat)) :=
  Prog.mapEach (fun spec => savepoint (upsertEntityRow w k.brainId now (entityArgs k spec))) entities

def edgeArgs (k : RecorderConfig) (spec : EdgeSpec) (subject object : IdText) : EdgeArgs where
  subject := subject
  predicate := spec.predicate
  object := object
  edgeClass := spec.edgeClass
  layer := spec.layer
  profileName := spec.profileName
  confidence := spec.confidence.1
  source := spec.source
  sourceAgent := k.agentId
  metadata := spec.metadata

/-- `_reinforce_existing_edge`. -/
def reinforceExistingEdge (w : GraphWorld) (k : RecorderConfig) (now : Stamp)
    (layer : Option String) (existing : EdgeRow) : Tx Unit := do
  let (newS, newD) ← computeFsrs w existing.stability existing.difficulty layer
    existing.lastReinforced existing.updatedAt true
  let _ ← reinforceEdgeRow k.brainId now (.uuid existing.id) newS newD
  pure ()

/-- The statements `_upsert_edges` makes for an edge whose endpoints are resolved. -/
def writeEdge (w : GraphWorld) (k : RecorderConfig) (now : Stamp) (a : EdgeArgs) : Tx Nat := do
  match ← getActiveEdge k.brainId a.subject a.predicate a.object with
  | some existing => do
    reinforceExistingEdge w k now a.layer existing
    pure existing.id
  | none => insertEdge w k.brainId now a a.confidence

theorem reinforceExistingEdge_eq (w : GraphWorld) (k : RecorderConfig) (now : Stamp)
    (layer : Option String) (e : EdgeRow) :
    reinforceExistingEdge w k now layer e =
      GraphStore.reinforceExisting w { brainId := k.brainId } now layer e := rfl

theorem writeEdge_writes {w : GraphWorld} {k : RecorderConfig} {now : Stamp} {a : EdgeArgs}
    {g h : Graph} {id : Nat} (hr : writeEdge w k now a g = (.ok id, h)) :
    EdgeWritten w k.brainId now a a.confidence g id h := by
  by_cases hids : ∃ s o, a.subject = .uuid s ∧ a.object = .uuid o
  · obtain ⟨s, o, hs, ho⟩ := hids
    rw [writeEdge, hs, ho, Prog.bind_run, getActiveEdge_run] at hr
    cases he : activeEdge g k.brainId s a.predicate o with
    | some e =>
      rw [he] at hr
      dsimp only at hr
      rw [Prog.bind_run, reinforceExistingEdge_eq] at hr
      split at hr
      · next hre =>
        cases hr
        obtain ⟨newS, newD, r, hrow⟩ := GraphStore.reinforceExisting_ok hre
        exact EdgeWritten.of_existing hs ho he hrow
      · cases hr
    | none =>
      rw [he] at hr
      dsimp only at hr
      rw [insertEdge_run hs ho, he] at hr
      split at hr
      · cases hr
      · split at hr
        · next hk =>
          cases hr
          exact .inserted hs ho he hk
        · cases hr
  · obtain ⟨text, ht⟩ := getActiveEdge_malformed k.brainId a.predicate g (fun s o hso => hids ⟨s, o, hso⟩)
    rw [writeEdge, Prog.bind_run_error ht] at hr
    cases hr

/-- One turn of the loop of `_upsert_edges`. -/
def upsertEdge (w : GraphWorld) (k : RecorderConfig) (now : Stamp) (l : EntityLookup)
    (spec : EdgeSpec) : Tx (Option Nat) :=
  match resolveEdgeEndpoint l spec.subject, resolveEdgeEndpoint l spec.object with
  | some subject, some object => do
    let id ← writeEdge w k now (edgeArgs k spec subject object)
    pure (some id)
  | _, _ => pure none

/-- `_upsert_edges`. -/
def upsertEdges (w : GraphWorld) (k : RecorderConfig) (now : Stamp) (l : EntityLookup)
    (edges : List EdgeSpec) : Tx (List (Option Nat)) :=
  Prog.mapEach (upsertEdge w k now l) edges

/-- The warnings of `_upsert_edges`. -/
def edgeWarnings (l : EntityLookup) (edges : List EdgeSpec) : List RecordWarning :=
  edges.zipIdx.filterMap (fun p =>
    if (resolveEdgeEndpoint l p.1.subject).isNone then some (.unresolvedSubject p.2)
    else if (resolveEdgeEndpoint l p.1.object).isNone then some (.unresolvedObject p.2)
    else none)

/-- The warnings of `_upsert_entities`. -/
def entityWarnings (ids : List (Option Nat)) : List RecordWarning :=
  ids.zipIdx.filterMap (fun p => if p.1.isNone then some (.entityUpsertFailed p.2) else none)

def attachEvidence (w : GraphWorld) (k : RecorderConfig) (spec : EvidenceSpec) : Tx Nat :=
  attachEvidenceRow w k.brainId { spec.args with sourceAgent := k.agentId }

/-- The graph statements of one event, in their order. -/
def writeEvent (w : GraphWorld) (k : RecorderConfig) (now : Stamp) (event : ExperienceEvent) :
    Tx ExperienceResult := do
  let entityIds ← upsertEntities w k now event.entities
  let l := buildEntityLookup event.entities entityIds
  let edgeIds ← upsertEdges w k now l event.edges
  let evidenceIds ← Prog.mapEach (attachEvidence w k) event.evidence
  pure {
    entityIds := entityIds
    edgeIds := edgeIds
    evidenceIds := evidenceIds
    warnings := edgeWarnings l event.edges ++ entityWarnings entityIds }

/-- `ExperienceEventRecorder.record`. -/
def record (w : GraphWorld) (k : RecorderConfig) (event : ExperienceEvent) : Tx ExperienceResult :=
  transaction w (fun now => writeEvent w k now event)

/-- `ExperienceEventRecorder.record_many`. -/
def recordMany (w : GraphWorld) (k : RecorderConfig) (events : List ExperienceEvent) :
    Tx (List ExperienceResult) :=
  if events.isEmpty then pure []
  else transaction w (fun now => Prog.mapEach (writeEvent w k now) events)

end Recorder
end TappsBrain
