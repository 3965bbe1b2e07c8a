import Mathlib
import TappsBrain.Lib.PyNumber
import TappsBrain.Mutate
import TappsBrain.Safety

namespace TappsBrain
open Lib
set_option autoImplicit true
set_option relaxedAutoImplicit false

/-- A JSON value with the numbers of Python. -/
abbrev PyJson := Json PyNumber

/-- What the readers and writers take from Python, pydantic and the environment. -/
structure Interchange where
  unicode : Unicode
  floats : FloatText
  /-- `isoformat` and `fromisoformat`. -/
  writeIso : Stamp → String
  parseIso : String → Option Stamp
  parseIso_writeIso : ∀ t, parseIso (writeIso t) = some t
  parseIso_empty : parseIso "" = none
  /-- pydantic's lax conversions of a value that is not of the type of its field. -/
  laxFloat : PyJson → Option ℚ
  laxInt : PyJson → Option Int
  laxBool : PyJson → Option Bool
  /-- `str` of a value that is no text. -/
  pyStr : PyJson → String
  /-- `uuid.uuid5(uuid.NAMESPACE_URL, ...)` and `uuid.uuid4().hex[:12]`. -/
  uuid5 : String → String
  uuid4Hex : String
  /-- `int` of a text. -/
  parseInt : String → Option Int
  /-- The stripped `TAPPS_BRAIN_MAX_IMPORT_ENTRIES`. -/
  maxImportEnv : String
  decodeError : String → String
  version : String
  now : Stamp

/-- Python's truth of a value. -/
def truthy : PyJson → Bool
  | .null => false
  | .bool b => b
  | .num n => n.truthy
  | .str s => s ≠ ""
  | .arr items => !items.isEmpty
  | .obj members => !members.isEmpty

/-- `d.get(name) or fallback`. -/
def getOr (d : PyJson) (name : String) (fallback : PyJson) : PyJson :=
  match d.get? name with
  | some j => if truthy j then j else fallback
  | none => fallback

/-- `d.get(name, fallback)`. -/
def getWith (d : PyJson) (name : String) (fallback : PyJson) : PyJson :=
  (d.get? name).getD fallback

/-- `str` of a value. -/
def Interchange.strOf (x : Interchange) : PyJson → String
  | .str s => s
  | j => x.pyStr j

def LearningStatus.text : LearningStatus → String
  | .candidate => "candidate"
  | .approved => "approved"
  | .demoted => "demoted"

def PromotionSignal.text : PromotionSignal → String
  | .eval => "eval"
  | .human => "human"

def TemporalSensitivity.text : TemporalSensitivity → String
  | .high => "high"
  | .medium => "medium"
  | .low => "low"

def MemoryClass.text : MemoryClass → String
  | .incident => "incident"
  | .guidance => "guidance"
  | .decision => "decision"
  | .convention => "convention"

def MemoryStatus.text : MemoryStatus → String
  | .active => "active"
  | .stale => "stale"
  | .superseded => "superseded"
  | .archived => "archived"
  | .contradicted => "contradicted"

section Dump

def optJson (f : α → PyJson) : Option α → PyJson
  | none => .null
  | some a => f a

def natJson (n : Nat) : PyJson := .num (.int n)

def textsJson (l : List String) : PyJson := .arr (l.map .str)

def isoText (x : Interchange) : IsoText → String
  | .at t => x.writeIso t
  | .malformed text => text

/-- `valid_from` and `valid_until` are empty texts where they are not set. -/
def aliasText (x : Interchange) : Option IsoText → String
  | none => ""
  | some t => isoText x t

/-- `MemoryEntry.model_dump(mode="json")`. -/
def modelDump (x : Interchange) (e : MemoryEntry) : List (String × PyJson) :=
  [("key", .str e.key),
    ("value", .str e.value),
    ("tier", .str e.tier.text),
    ("confidence", .num (.float e.confidence)),
    ("source", .str e.source.text),
    ("source_agent", .str e.sourceAgent),
    ("scope", .str e.scope.text),
    ("tags", textsJson e.tags),
    ("created_at", .str (x.writeIso e.createdAt)),
    ("updated_at", .str (x.writeIso e.updatedAt)),
    ("last_accessed", .str (x.writeIso e.lastAccessed)),
    ("access_count", natJson e.accessCount),
    ("branch", optJson .str e.branch),
    ("mission_id", optJson .str e.missionId),
    ("run_id", optJson .str e.runId),
    ("last_reinforced", optJson (fun t => .str (x.writeIso t)) e.lastReinforced),
    ("reinforce_count", natJson e.reinforceCount),
    ("contradicted", .bool e.contradicted),
    ("contradiction_reason", optJson .str e.contradictionReason),
    ("seeded_from", optJson .str e.seededFrom),
    ("agent_scope", .str e.agentScope),
    ("memory_group", optJson .str e.memoryGroup),
    ("valid_at", optJson (fun t => .str (isoText x t)) e.validAt),
    ("invalid_at", optJson (fun t => .str (isoText x t)) e.invalidAt),
    ("superseded_by", optJson .str e.supersededBy),
    ("valid_from", .str (aliasText x e.validFrom)),
    ("valid_until", .str (aliasText x e.validUntil)),
    ("integrity_hash", optJson .str e.integrityHash),
    ("integrity_hash_v", natJson e.integrityHashV),
    ("source_session_id", .str e.provenance.sourceSessionId),
    ("source_channel", .str e.provenance.sourceChannel),
    ("source_message_id", .str e.provenance.sourceMessageId),
    ("triggered_by", .str e.provenance.triggeredBy),
    ("stability", .num (.float e.stability)),
    ("difficulty", .num (.float e.difficulty)),
    ("useful_access_count", natJson e.usefulAccessCount),
    ("total_access_count", natJson e.totalAccessCount),
    ("positive_feedback_count", .num (.float e.positiveFeedbackCount)),
    ("negative_feedback_count", .num (.float e.negativeFeedbackCount)),
    ("temporal_sensitivity", optJson (fun t => .str (TemporalSensitivity.text t)) e.temporalSensitivity),
    ("failed_approaches", textsJson e.failedApproaches),
    ("status", .str e.status.text),
    ("stale_reason", optJson .str e.staleReason),
    ("stale_date", optJson (fun t => .str (isoText x t)) e.staleDate),
    ("learning_status", .str e.promotion.learningStatus.text),
    ("promoted_by", optJson .str e.promotion.promotedBy),
    ("promoted_at", optJson (fun t => .str (x.writeIso t)) e.promotion.promotedAt),
    ("promotion_signal", optJson (fun t => .str (PromotionSignal.text t)) e.promotion.promotionSignal),
    ("demotion_reason", optJson .str e.promotion.demotionReason),
    ("memory_class", optJson (fun t => .str (MemoryClass.text t)) e.memoryClass)]

end Dump

section Fields

def readStr : PyJson → Except String String
  | .str s => .ok s
  | _ => .error "Input should be a valid string"

def readFloat (x : Interchange) : PyJson → Except String ℚ
  | .num (.float q) => .ok q
  | j =>
    match x.laxFloat j with
    | some q => .ok q
    | none => .error "Input should be a valid number"

def readInt (x : Interchange) : PyJson → Except String Int
  | .num (.int n) => .ok n
  | j =>
    match x.laxInt j with
    | some n => .ok n
    | none => .error "Input should be a valid integer"

/-- A counter, bounded from below as `ge=0` bounds it. -/
def readCount (x : Interchange) (j : PyJson) : Except String Nat :=
  match readInt x j with
  | .error msg => .error msg
  | .ok n => if n < 0 then .error "Input should be greater than or equal to 0" else .ok n.toNat

def readBool (x : Interchange) : PyJson → Except String Bool
  | .bool b => .ok b
  | j =>
    match x.laxBool j with
    | some b => .ok b
    | none => .error "Input should be a valid boolean"

def readTexts : PyJson → Except String (List String)
  | .arr items => items.mapM readStr
  | _ => .error "Input should be a valid list"

def readOptional (read : PyJson → Except String α) : PyJson → Except String (Option α)
  | .null => .ok none
  | j => (read j).map some

def readChoice (msg : String) (ofText : String → Option α) : PyJson → Except String α
  | .str s =>
    match ofText s with
    | some a => .ok a
    | none => .error msg
  | _ => .error msg

/-- A timestamp of the entry; the model keeps the moment, so text that is none is refused. -/
def readStamp (x : Interchange) : PyJson → Except String Stamp
  | .str s =>
    match x.parseIso s with
    | some t => .ok t
    | none => .error s!"Invalid isoformat string: {s}"
  | _ => .error "Input should be a valid string"

def isoOf (x : Interchange) (s : String) : IsoText :=
  match x.parseIso s with
  | some t => .at t
  | none => .malformed s

def readIso (x : Interchange) (j : PyJson) : Except String IsoText := (readStr j).map (isoOf x)

def readAlias (x : Interchange) (j : PyJson) : Except String (Option IsoText) :=
  (readStr j).map (fun s => if s = "" then none else some (isoOf x s))

def textIn (values : List α) (text : α → String) (s : String) : Option α :=
  values.find? (fun a => text a = s)

def required (d : PyJson) (name : String) (read : PyJson → Except String α) : Except String α :=
  match d.get? name with
  | some j => read j
  | none => .error "Field required"

def defaulted (d : PyJson) (name : String) (a : α) (read : PyJson → Except String α) :
    Except String α :=
  match d.get? name with
  | some j => read j
  | none => .ok a

end Fields

/-- The fields of `MemoryEntry(**d)` before its validators run; of several failures the first. -/
def entryOfDict (x : Interchange) (d : PyJson) : Except String MemoryEntry := do
  let key ← required d "key" readStr
  let value ← required d "value" readStr
  let tier ← defaulted d "tier" "pattern" readStr
  let confidence ← defaulted d "confidence" (-1) (readFloat x)
  let source ← defaulted d "source" .agent (readChoice
    "Input should be 'human', 'agent', 'inferred' or 'system'" (MemorySource.ofText x.unicode))
  let sourceAgent ← defaulted d "source_agent" "unknown" readStr
  let scope ← defaulted d "scope" .project (readChoice
    "Input should be 'project', 'branch', 'mission', 'ephemeral', 'session' or 'shared'"
    MemoryScope.ofText)
  let tags ← defaulted d "tags" [] readTexts
  let createdAt ← defaulted d "created_at" x.now (readStamp x)
  let updatedAt ← defaulted d "updated_at" x.now (readStamp x)
  let lastAccessed ← defaulted d "last_accessed" x.now (readStamp x)
  let accessCount ← defaulted d "access_count" 0 (readCount x)
  let branch ← defaulted d "branch" none (readOptional readStr)
  let missionId ← defaulted d "mission_id" none (readOptional readStr)
  let runId ← defaulted d "run_id" none (readOptional readStr)
  let lastReinforced ← defaulted d "last_reinforced" none (readOptional (readStamp x))
  let reinforceCount ← defaulted d "reinforce_count" 0 (readCount x)
  let contradicted ← defaulted d "contradicted" false (readBool x)
  let contradictionReason ← defaulted d "contradiction_reason" none (readOptional readStr)
  let seededFrom ← defaulted d "seeded_from" none (readOptional readStr)
  let agentScope ← defaulted d "agent_scope" "private" readStr
  let memoryGroup ← defaulted d "memory_group" none (readOptional readStr)
  let validAt ← defaulted d "valid_at" none (readOptional (readIso x))
  let invalidAt ← defaulted d "invalid_at" none (readOptional (readIso x))
  let supersededBy ← defaulted d "superseded_by" none (readOptional readStr)
  let validFrom ← defaulted d "valid_from" none (readAlias x)
  let validUntil ← defaulted d "valid_until" none (readAlias x)
  let integrityHash ← defaulted d "integrity_hash" none (readOptional readStr)
  let integrityHashV ← defaulted d "integrity_hash_v" 1 (readCount x)
  let sourceSessionId ← defaulted d "source_session_id" "" readStr
  let sourceChannel ← defaulted d "source_channel" "" readStr
  let sourceMessageId ← defaulted d "source_message_id" "" readStr
  let triggeredBy ← defaulted d "triggered_by" "" readStr
  let stability ← defaulted d "stability" 0 (readFloat x)
  let difficulty ← defaulted d "difficulty" 0 (readFloat x)
  let usefulAccessCount ← defaulted d "useful_access_count" 0 (readCount x)
  let totalAccessCount ← defaulted d "total_access_count" 0 (readCount x)
  let positiveFeedbackCount ← defaulted d "positive_feedback_count" 0 (readFloat x)
  let negativeFeedbackCount ← defaulted d "negative_feedback_count" 0 (readFloat x)
  let temporalSensitivity ← defaulted d "temporal_sensitivity" none (readOptional (readChoice
    "temporal_sensitivity must be 'high', 'medium', 'low', or None"
    (textIn [.high, .medium, .low] TemporalSensitivity.text)))
  let failedApproaches ← defaulted d "failed_approaches" [] readTexts
  let status ← defaulted d "status" .active (readChoice
    "Input should be 'active', 'stale', 'superseded', 'archived' or 'contradicted'"
    MemoryStatus.ofText)
  let staleReason ← defaulted d "stale_reason" none (readOptional readStr)
  let staleDate ← defaulted d "stale_date" none (readOptional (readIso x))
  let learningStatus ← defaulted d "learning_status" .candidate (readChoice
    "Input should be 'candidate', 'approved' or 'demoted'"
    (textIn [.candidate, .approved, .demoted] LearningStatus.text))
  let promotedBy ← defaulted d "promoted_by" none (readOptional readStr)
  let promotedAt ← defaulted d "promoted_at" none (readOptional (readStamp x))
  let promotionSignal ← defaulted d "promotion_signal" none (readOptional (readChoice
    "Input should be 'eval' or 'human'" promotionSignalOfText))
  let demotionReason ← defaulted d "demotion_reason" none (readOptional readStr)
  let memoryClass ← defaulted d "memory_class" none (readOptional (readChoice
    "Input should be 'incident', 'guidance', 'decision' or 'convention'"
    (textIn [.incident, .guidance, .decision, .convention] MemoryClass.text)))
  .ok { key, value, tier := .layer tier, confidence, source, sourceAgent, scope, tags, createdAt,
        updatedAt, lastAccessed, accessCount, branch, missionId, runId, lastReinforced,
        reinforceCount, contradicted, contradictionReason, seededFrom, agentScope, memoryGroup,
        validAt, invalidAt, supersededBy, validFrom, validUntil, integrityHash, integrityHashV,
        provenance := { sourceSessionId, sourceChannel, sourceMessageId, triggeredBy }
        stability, difficulty, usefulAccessCount, totalAccessCount, positiveFeedbackCount,
        negativeFeedbackCount, temporalSensitivity, failedApproaches, status, staleReason, staleDate,
        promotion := { learningStatus, promotedBy, promotedAt, promotionSignal, demotionReason }
        memoryClass }

/-- `MemoryEntry(**d)`. -/
def memoryEntry (x : Interchange) (d : PyJson) : Except String MemoryEntry :=
  match entryOfDict x d with
  | .ok e => e.validate x.unicode
  | .error msg => .error msg

section Jsonl

def NATIVE_FORMAT : String := "tapps-memory"
def NATIVE_FORMAT_VERSION : String := "1.0"
def DEFAULT_MAX_IMPORT_ENTRIES : Nat := 500

/-- `resolve_max_import_entries`. -/
def resolveMaxImportEntries (x : Interchange) (maxEntries : Option Int) : Except String Nat :=
  match maxEntries with
  | some n => if n < 1 then .error s!"max_entries must be >= 1, got {n}" else .ok n.toNat
  | none =>
    if x.maxImportEnv = "" then .ok DEFAULT_MAX_IMPORT_ENTRIES
    else
      match x.parseInt x.maxImportEnv with
      | none => .error (s!"TAPPS_BRAIN_MAX_IMPORT_ENTRIES must be an integer, got " ++
          x.unicode.repr x.maxImportEnv)
      | some n =>
        if n < 1 then .error s!"TAPPS_BRAIN_MAX_IMPORT_ENTRIES must be >= 1, got {n}"
        else .ok n.toNat

/-- `enforce_import_limit`. -/
def enforceImportLimit (count limit : Nat) : Except String Unit :=
  if limit < count then
    .error (s!"Import exceeds max entries ({count} > {limit}). " ++
      s!"Raise the limit via max_entries= or TAPPS_BRAIN_MAX_IMPORT_ENTRIES.")
  else .ok ()

def jsonlMeta (x : Interchange) (sourceProject exportedAt : String) (count : Nat) : PyJson :=
  .obj [("format", .str NATIVE_FORMAT),
    ("format_version", .str NATIVE_FORMAT_VERSION),
    ("encoding", .str "jsonl"),
    ("exported_at", .str exportedAt),
    ("source_project", .str sourceProject),
    ("entry_count", natJson count),
    ("tapps_version", .str x.version)]

def dumpsPy (x : Interchange) (j : PyJson) : String := Json.dumps (PyNumber.numerals x.floats) j

def loadsPy (x : Interchange) (s : String) : Option PyJson := Json.loads (PyNumber.numerals x.floats) s

/-- `exported_at or datetime.now(tz=UTC).isoformat()`. -/
def exportStamp (x : Interchange) : Option String → String
  | some t => if t = "" then x.writeIso x.now else t
  | none => x.writeIso x.now

/-- `build_jsonl_export`. -/
def buildJsonlExport (x : Interchange) (sourceProject : String) (exportedAt : Option String)
    (entries : List MemoryEntry) : String :=
  let stamp := exportStamp x exportedAt
  "\n".intercalate (dumpsPy x (jsonlMeta x sourceProject stamp entries.length) ::
    entries.map (fun e => dumpsPy x (.obj (modelDump x e)))) ++ "\n"

/-- An envelope line of the export. -/
def isEnvelope (obj : PyJson) : Bool :=
  (match obj.get? "encoding" with
    | some (.str s) => s = "jsonl"
    | _ => false) ||
  ((match obj.get? "format" with
    | some (.str s) => s = NATIVE_FORMAT
    | _ => false) && (obj.get? "key").isNone && (obj.get? "memories").isNone)

def isDict : PyJson → Bool
  | .obj _ => true
  | _ => false

/-- The memories a parsed line holds. -/
def lineMemories (obj : PyJson) : List PyJson :=
  if !isDict obj then []
  else if isEnvelope obj then []
  else if (obj.get? "key").isSome && (obj.get? "value").isSome then [obj]
  else
    match obj.get? "memories" with
    | some (.arr items) => items.filter isDict
    | _ => []

/-- The loop of `parse_jsonl_payload`, from line `n` on. -/
def parseLines (x : Interchange) : Nat → List String → Except String (List PyJson)
  | _, [] => .ok []
  | n, line :: rest =>
    if strip line = "" then parseLines x (n + 1) rest
    else
      match loadsPy x (strip line) with
      | none => .error s!"Invalid JSON on line {n}: {x.decodeError (strip line)}"
      | some obj => (parseLines x (n + 1) rest).map (lineMemories obj ++ ·)

/-- `parse_jsonl_payload`: its `memories`. -/
def parseJsonlPayload (x : Interchange) (text : String) (maxEntries : Option Int) :
    Except String (List PyJson) := do
  let limit ← resolveMaxImportEntries x maxEntries
  let memories ← parseLines x 1 (splitlines text)
  enforceImportLimit memories.length limit
  .ok memories

end Jsonl

section Mif

/-- `_TIER_TO_MIF_TYPE`. -/
def tierToMifType (tier : String) : String :=
  (([("architectural", "semantic"), ("pattern", "semantic"), ("procedural", "procedural"),
    ("context", "episodic"), ("ephemeral", "episodic"), ("session", "episodic")] :
    List (String × String)).lookup tier).getD "semantic"

/-- `_MIF_TYPE_TO_TIER`. -/
def mifTypeToTier (memoryType : String) : String :=
  (([("semantic", "pattern"), ("procedural", "procedural"), ("episodic", "context"),
    ("working", "context")] : List (String × String)).lookup memoryType).getD "pattern"

/-- `entry_to_mif_unit`. -/
def entryToMifUnit (x : Interchange) (e : MemoryEntry) : PyJson :=
  .obj [("@context", .str "https://mif-spec.dev/schema/context.jsonld"),
    ("@type", .str "Memory"),
    ("@id", .str s!"urn:mif:{x.uuid5 e.key}"),
    ("memoryType", .str (tierToMifType e.tier.text)),
    ("content", .str e.value),
    ("created", .str (x.writeIso e.createdAt)),
    ("modified", .str (x.writeIso e.updatedAt)),
    ("tags", textsJson e.tags),
    ("extensions", .obj [("tapps", .obj [("key", .str e.key),
      ("tier", .str e.tier.text),
      ("scope", .str e.scope.text),
      ("confidence", .num (.float e.confidence)),
      ("agent_scope", .str e.agentScope),
      ("memory_group", optJson .str e.memoryGroup),
      ("source", .str e.source.text),
      ("source_agent", .str e.sourceAgent)])])]

/-- `build_mif_document`: its `memories`. -/
def buildMifDocument (x : Interchange) (entries : List MemoryEntry) : List PyJson :=
  entries.map (entryToMifUnit x)

/-- The `extensions.tapps` block of a unit. -/
def tappsBlock (unit : PyJson) : PyJson :=
  match getOr unit "extensions" (getOr unit "vendor" (.obj [])) with
  | .obj members =>
    match getOr (.obj members) "tapps" (getOr (.obj members) "vendor.tapps" (.obj [])) with
    | .obj tapps => .obj tapps
    | _ => .obj []
  | _ => .obj []

/-- The key of a unit: its own, or one derived from its identifier. -/
def mifKey (x : Interchange) (unit tapps : PyJson) : String :=
  let derived :=
    let rawId := x.strOf (getOr unit "@id" (getOr unit "id" (.str "")))
    let bare := if rawId.toList.take 8 = "urn:mif:".toList then rawId.toList.drop 8 else rawId.toList
    let cut := String.ofList (bare.take 128)
    if cut = "" then s!"mif-{x.uuid4Hex}" else cut
  match tapps.get? "key" with
  | some (.str key) => if isBlank key then derived else key
  | _ => derived

/-- `mif_unit_to_memory_dict`. -/
def mifUnitToMemoryDict (x : Interchange) (unit : PyJson) : Option PyJson :=
  match unit.get? "content" with
  | some (.str content) =>
    if isBlank content then none
    else
      let tapps := tappsBlock unit
      let memoryType := x.strOf (getOr unit "memoryType" (getOr unit "type" (.str "semantic")))
      let created := getOr unit "created" (getOr unit "created_at" (.str (x.writeIso x.now)))
      some (.obj [("key", .str (mifKey x unit tapps)),
        ("value", .str content),
        ("tier", getOr tapps "tier" (.str (mifTypeToTier memoryType))),
        ("confidence", getWith tapps "confidence" (.num (.float (-1)))),
        ("source", getWith tapps "source" (.str "system")),
        ("source_agent", getWith tapps "source_agent" (.str "mif-import")),
        ("scope", getWith tapps "scope" (.str "project")),
        ("tags", match unit.get? "tags" with
          | some (.arr items) => .arr items
          | _ => .arr []),
        ("created_at", created),
        ("updated_at", getOr unit "modified" created),
        ("agent_scope", getWith tapps "agent_scope" (.str "private")),
        ("memory_group", getWith tapps "memory_group" .null)])
  | _ => none

end Mif

end TappsBrain
