import TappsBrain.Interchange
import TappsBrain.Recorder

namespace TappsBrain
open Lib
set_option autoImplicit true
set_option relaxedAutoImplicit false

/-- What the reading of an item takes from pydantic, Python and the database. -/
structure ItemReader where
  /-- pydantic's lax conversion of a value to a float. -/
  laxFloat : PyJson → Option ℚ
  /-- `str` of a value that is no text. -/
  pyStr : PyJson → String
  /-- What `->>` shows of a value of a `jsonb` object. -/
  column : PyJson → String
  /-- The uuid the database reads in a text. -/
  uuidOf : String → Option Nat
  /-- `json.loads`. -/
  loads : String → Option PyJson

def isObject : PyJson → Bool
  | .obj _ => true
  | _ => false

theorem get?_of_not_object {item : PyJson} (h : isObject item = false) (name : String) :
    item.get? name = none := by
  cases item with
  | obj members => cases h
  | null => rfl
  | bool b => rfl
  | num n => rfl
  | str s => rfl
  | arr items => rfl

namespace ItemReader
variable (r : ItemReader)

def strOf : PyJson → String
  | .str s => s
  | j => r.pyStr j

/-- A `str | None` with the default `None`. -/
def optionalText (item : PyJson) (name : String) : Option (Option String) :=
  match item.get? name with
  | none => some none
  | some .null => some none
  | some (.str s) => some (some s)
  | some _ => none

/-- A `str` with a default. -/
def textOr (item : PyJson) (name fallback : String) : Option String :=
  match item.get? name with
  | none => some fallback
  | some (.str s) => some s
  | some _ => none

/-- A `str` that has to be there. -/
def requiredText (item : PyJson) (name : String) : Option String :=
  match item.get? name with
  | some (.str s) => some s
  | _ => none

/-- A dict with the text of each of its values. -/
def dictOf (render : PyJson → String) : PyJson → Option JsonObject
  | .obj members => some (members.foldl (fun o m => o.setField m.1 (render m.2)) [])
  | _ => none

/-- A `dict[str, Any]` with `default_factory=dict`. -/
def metadata (item : PyJson) : Option JsonObject :=
  match item.get? "metadata" with
  | none => some []
  | some j => dictOf r.column j

/-- A `dict[str, Any] | None`; only the truth and the text of its values are asked for. -/
def optionalRef (item : PyJson) (name : String) : Option (Option JsonObject) :=
  match item.get? name with
  | none => some none
  | some .null => some none
  | some j => (dictOf (fun v => if truthy v then r.strOf v else "") j).map some

/-- A `list[str]` with `default_factory=list`. -/
def aliases (item : PyJson) : Option (List String) :=
  match item.get? "aliases" with
  | none => some []
  | some (.arr items) => items.mapM (fun j => match j with | .str s => some s | _ => none)
  | some _ => none

def unitInterval (j : PyJson) : Option UnitInterval := do
  let c ← r.laxFloat j
  if h : 0 ≤ c ∧ c ≤ 1 then some ⟨c, h⟩ else none

/-- A `float` with a default, `ge=0.0, le=1.0`. -/
def confidence (item : PyJson) (fallback : UnitInterval) : Option UnitInterval :=
  match item.get? "confidence" with
  | none => some fallback
  | some j => r.unitInterval j

/-- A `float | None`, `ge=0.0, le=1.0`. -/
def utilityScore (item : PyJson) : Option (Option ℚ) :=
  match item.get? "utility_score" with
  | none => some none
  | some .null => some none
  | some j => (r.unitInterval j).map (fun c => some c.1)

/-- The empty text is no uuid. -/
def idText (text : String) : IdText :=
  match r.uuidOf text with
  | some id => if text = "" then .malformed text else .uuid id
  | none => .malformed text

/-- `_accept_key_shorthand` for `canonical_name`. -/
def shorthandName (item : PyJson) : Option PyJson :=
  if truthy ((item.get? "canonical_name").getD .null) then item.get? "canonical_name"
  else if truthy ((item.get? "id").getD .null) then (item.get? "id").map (fun j => .str (r.strOf j))
  else if truthy ((item.get? "key").getD .null) then (item.get? "key").map (fun j => .str (r.strOf j))
  else item.get? "canonical_name"

/-- `_accept_key_shorthand` for `entity_type`. -/
def shorthandType (item : PyJson) : PyJson :=
  let given := (item.get? "entity_type").getD .null
  if truthy given then given
  else
    let short := (item.get? "type").getD .null
    if truthy short && r.strOf short ≠ "" then .str (r.strOf short) else .str "concept"

theorem default_confidence_unit : (0 : ℚ) ≤ 6 / 10 ∧ (6 / 10 : ℚ) ≤ 1 := by decide +kernel

/-- `EntitySpec(**item)`. -/
def entitySpec (item : PyJson) : Option EntitySpec := do
  let entityType ← match r.shorthandType item with
    | .str s => some s
    | _ => none
  let canonicalName ← match r.shorthandName item with
    | some (.str s) => some s
    | _ => none
  let aliases ← aliases item
  let metadata ← r.metadata item
  let confidence ← r.confidence item ⟨6 / 10, default_confidence_unit⟩
  let source ← textOr item "source" "agent"
  some {
    entityType := entityType
    canonicalName := canonicalName
    aliases := aliases
    metadata := metadata
    confidence := confidence
    source := source }

/-- The fields of one end of an edge. -/
def endpoint (item : PyJson) (idField keyField refField : String) : Option Endpoint := do
  let entityId ← optionalText item idField
  let key ← optionalText item keyField
  let ref ← r.optionalRef item refField
  some { entityId := entityId.map r.idText, key := key, ref := ref }

/-- `EdgeSpec(**item)`, with `_require_endpoints`. -/
def edgeSpec (item : PyJson) : Option EdgeSpec := do
  let subject ← r.endpoint item "subject_entity_id" "subject_key" "subject_ref"
  let object ← r.endpoint item "object_entity_id" "object_key" "object_ref"
  let predicate ← requiredText item "predicate"
  let edgeClass ← optionalText item "edge_class"
  let layer ← optionalText item "layer"
  let profileName ← optionalText item "profile_name"
  let confidence ← r.confidence item ⟨6 / 10, default_confidence_unit⟩
  let source ← textOr item "source" "agent"
  let metadata ← r.metadata item
  if h : (subject.given && object.given && !isBlank predicate) = true then
    some {
      subject := subject
      object := object
      predicate := predicate
      edgeClass := edgeClass
      layer := layer
      profileName := profileName
      confidence := confidence
      source := source
      metadata := metadata
      accepted := h }
  else none

/-- The fields of an `EvidenceSpec`; the agent is the recorder's. -/
def evidenceArgs (item : PyJson) : Option EvidenceArgs := do
  let edgeId ← optionalText item "edge_id"
  let entityId ← optionalText item "entity_id"
  let sourceType ← textOr item "source_type" "agent"
  let sourceId ← optionalText item "source_id"
  let sourceKey ← optionalText item "source_key"
  let sourceUri ← optionalText item "source_uri"
  let sourceHash ← optionalText item "source_hash"
  let sourceSpan ← optionalText item "source_span"
  let quote ← optionalText item "quote"
  let metadata ← r.metadata item
  let confidence ← r.confidence item ⟨1, by decide +kernel⟩
  let utilityScore ← r.utilityScore item
  some {
    edgeId := edgeId.map r.idText
    entityId := entityId.map r.idText
    sourceType := sourceType
    sourceId := sourceId
    sourceKey := sourceKey
    sourceUri := sourceUri
    sourceHash := sourceHash
    sourceSpan := sourceSpan
    quote := quote
    metadata := metadata
    confidence := confidence.1
    utilityScore := utilityScore }

/-- `EvidenceSpec(**item)`, with `_require_exactly_one_attachment`. -/
def evidenceSpec (item : PyJson) : Option EvidenceSpec := do
  let args ← r.evidenceArgs item
  if h : args.edgeId.isNone ≠ args.entityId.isNone then some { args := args, exclusive := h } else none

end ItemReader

/-- What a caller gives as the lists of an event. -/
structure ItemLists where
  entities : PyJson := .null
  edges : PyJson := .null
  evidence : PyJson := .null

/-- The lists among the arguments of `record_event`, with the deprecated texts. -/
structure EventCall extends ItemLists where
  entitiesJson : String := ""
  edgesJson : String := ""
  evidenceJson : String := ""

inductive ItemKind where
  | entity | edge | evidence
deriving DecidableEq, Repr

def RecordWarning.kind : RecordWarning → ItemKind
  | .unresolvedSubject _ => .edge
  | .unresolvedObject _ => .edge
  | .entityUpsertFailed _ => .entity

def RecordWarning.index : RecordWarning → Nat
  | .unresolvedSubject index => index
  | .unresolvedObject index => index
  | .entityUpsertFailed index => index

/-- A warning of `_validation_warning` or of the recorder. -/
inductive EventWarning where
  | invalid (kind : ItemKind) (index : Nat)
  | recorder (warning : RecordWarning)
deriving DecidableEq, Repr

def EventWarning.kind : EventWarning → ItemKind
  | .invalid kind _ => kind
  | .recorder warning => warning.kind

def EventWarning.index : EventWarning → Nat
  | .invalid _ index => index
  | .recorder warning => warning.index

/-- The result of one event, with the merged `warnings`. -/
structure EventAnswer where
  result : ExperienceResult
  warnings : List EventWarning
deriving DecidableEq

structure Envelope where
  error : String
  detail : String
deriving DecidableEq, Repr

inductive EventError where
  | graph (e : GraphError)
  | attributeError
deriving DecidableEq, Repr

/-- The list a caller gives: the native one, or else the one in the deprecated text. -/
def ItemReader.givenList (r : ItemReader) (native : PyJson) (legacy : String) : List PyJson :=
  match native with
  | .arr items => items
  | _ =>
    if strip legacy ≠ "" ∧ strip legacy ≠ "[]" then
      match r.loads legacy with
      | some (.arr parsed) => parsed
      | _ => []
    else []

/-- `_items`. -/
def ItemReader.items (r : ItemReader) (native : PyJson) (legacy : String) : List PyJson :=
  (r.givenList native legacy).filter isObject

/-- `_coerce_specs`. -/
def coerceSpecs (spec : PyJson → Option α) (kind : ItemKind) (items : List PyJson) :
    List α × List EventWarning :=
  (items.filterMap spec, items.zipIdx.filterMap (fun p =>
    if (spec p.1).isNone then some (.invalid kind p.2) else none))

/-- The event of an `ExperienceEvent`, and the warnings of its coercions. -/
def coerceEvent (r : ItemReader) (entities edges evidence : List PyJson) :
    ExperienceEvent × List EventWarning :=
  let (entitySpecs, entityWarnings) := coerceSpecs r.entitySpec .entity entities
  let (edgeSpecs, edgeWarnings) := coerceSpecs r.edgeSpec .edge edges
  let (evidenceSpecs, evidenceWarnings) := coerceSpecs r.evidenceSpec .evidence evidence
  ({ entities := entitySpecs, edges := edgeSpecs, evidence := evidenceSpecs },
    entityWarnings ++ edgeWarnings ++ evidenceWarnings)

def mergeWarnings (warnings : List EventWarning) (result : ExperienceResult) : EventAnswer where
  result := result
  warnings := warnings ++ result.warnings.map .recorder

/-- The items of an event dict. -/
def coerceDict (r : ItemReader) (ev : PyJson) : ExperienceEvent × List EventWarning :=
  coerceEvent r (r.items ((ev.get? "entities").getD .null) "")
    (r.items ((ev.get? "edges").getD .null) "") (r.items ((ev.get? "evidence").getD .null) "")

def fromTx (p : Tx α) : Prog Graph EventError α := fun g =>
  match p g with
  | (.ok a, h) => (.ok a, h)
  | (.error e, h) => (.error (.graph e), h)

/-- The checks of an event dict: an envelope, an exception or nothing. -/
def checkEvent (index : Nat) (ev : PyJson) : Except EventError (Option Envelope) :=
  if !isObject ev then .ok (some ⟨"bad_request", s!"events[{index}] must be a JSON object."⟩)
  else
    let required : Envelope := ⟨"bad_request", s!"events[{index}].event_type is required."⟩
    match (ev.get? "event_type").getD .null with
    | .str s => .ok (if isBlank s then some required else none)
    | j => if truthy j then .error .attributeError else .ok (some required)

/-- The loop of `record_events_batch` over its events before it writes. -/
def checkEvents : Nat → List PyJson → Except EventError (Option Envelope)
  | _, [] => .ok none
  | index, ev :: rest => do
    match ← checkEvent index ev with
    | some e => pure (some e)
    | none => checkEvents (index + 1) rest

inductive BatchAnswer where
  | rejected (e : Envelope)
  | results (answers : List EventAnswer)

inductive FailReason where
  | badRequest (e : Envelope)
  | raised (e : GraphError)
deriving DecidableEq

inductive EventEntry where
  | succeeded (index : Nat) (answer : EventAnswer)
  | failed (index : Nat) (reason : FailReason)
deriving DecidableEq

inductive PerEventAnswer where
  | rejected (e : Envelope)
  | entries (succeeded : List (Nat × EventAnswer)) (failed : List (Nat × FailReason))

def EventEntry.success : EventEntry → Option (Nat × EventAnswer)
  | .succeeded index answer => some (index, answer)
  | .failed _ _ => none

def EventEntry.failure : EventEntry → Option (Nat × FailReason)
  | .succeeded _ _ => none
  | .failed index reason => some (index, reason)

/-- `_validate_events_batch_input`. -/
def validateEventsBatchInput (events : PyJson) (maxEvents : Nat) : Except Envelope (List PyJson) :=
  match events with
  | .arr [] => .error ⟨"bad_request", "events must contain at least one event."⟩
  | .arr evs =>
    if maxEvents < evs.length then
      .error ⟨"too_many_events",
        s!"batch contains {evs.length} events; server caps each call at {maxEvents}."⟩
    else .ok evs
  | _ => .error ⟨"bad_request", "events must be a JSON array."⟩

namespace KgService
variable (w : GraphWorld) (k : RecorderConfig) (r : ItemReader)

/-- `record_event`. -/
def recordEvent (call : EventCall) : Tx EventAnswer := do
  let (event, warnings) := coerceEvent r (r.items call.entities call.entitiesJson)
    (r.items call.edges call.edgesJson) (r.items call.evidence call.evidenceJson)
  let result ← Recorder.record w k event
  pure (mergeWarnings warnings result)

/-- `record_events_batch`. -/
def recordEventsBatch (events : PyJson) : Prog Graph EventError BatchAnswer :=
  match events with
  | .arr [] => pure (.rejected ⟨"bad_request", "events must contain at least one event."⟩)
  | .arr evs => do
    match ← Prog.ofExcept (checkEvents 0 evs) with
    | some e => pure (.rejected e)
    | none => do
      let coerced := evs.map (coerceDict r)
      let results ← fromTx (Recorder.recordMany w k (coerced.map (·.1)))
      pure (.results (List.zipWith mergeWarnings (coerced.map (·.2)) results))
  | _ => pure (.rejected ⟨"bad_request", "events must be a JSON array."⟩)

/-- `_event_record_kwargs`, as far as the lists go. -/
def eventRecordKwargs (ev : PyJson) : EventCall where
  entities := getOr ev "entities" (.arr [])
  edges := getOr ev "edges" (.arr [])
  evidence := getOr ev "evidence" (.arr [])

/-- `_process_one_event`. -/
def processOneEvent (index : Nat) (ev : PyJson) : Prog Graph EventError EventEntry := do
  match ← Prog.ofExcept (checkEvent index ev) with
  | some e => pure (.failed index (.badRequest e))
  | none => fun g =>
    match recordEvent w k r (eventRecordKwargs ev) g with
    | (.ok answer, h) => (.ok (.succeeded index answer), h)
    | (.error e, h) => (.ok (.failed index (.raised e)), h)

/-- `record_events_batch_per_event_tx`. -/
def recordEventsBatchPerEventTx (events : PyJson) (maxEvents : Nat) :
    Prog Graph EventError PerEventAnswer :=
  match validateEventsBatchInput events maxEvents with
  | .error e => pure (.rejected e)
  | .ok evs => do
    let entries ← Prog.mapEach (fun p => processOneEvent w k r p.2 p.1) evs.zipIdx
    pure (.entries (entries.filterMap EventEntry.success) (entries.filterMap EventEntry.failure))

end KgService
end TappsBrain
