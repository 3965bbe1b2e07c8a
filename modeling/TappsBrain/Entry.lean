import Mathlib.Data.Rat.Defs
import Mathlib.Algebra.Order.Ring.Rat
import TappsBrain.Text

namespace TappsBrain
set_option autoImplicit true
set_option relaxedAutoImplicit false

/-- A moment of UTC, in microseconds. -/
abbrev Stamp := Nat

/-- A timestamp a caller may have written: the moment it parses to, or text that does not parse. -/
inductive IsoText where
  | at (t : Stamp)
  | malformed (text : String)
deriving DecidableEq, Repr

/-- `_parse_iso`. -/
def parseIso : IsoText → Except String Stamp
  | .at t => .ok t
  | .malformed text => .error s!"Invalid isoformat string: {text}"

def IsoText.wellFormed : IsoText → Bool
  | .at _ => true
  | .malformed _ => false

inductive MemoryTier where
  | architectural | pattern | procedural | context | ephemeral | session
deriving DecidableEq, Repr

def MemoryTier.text : MemoryTier → String
  | .architectural => "architectural"
  | .pattern => "pattern"
  | .procedural => "procedural"
  | .context => "context"
  | .ephemeral => "ephemeral"
  | .session => "session"

def MemoryTier.ofText (s : String) : Option MemoryTier :=
  if s = "architectural" then some .architectural
  else if s = "pattern" then some .pattern
  else if s = "procedural" then some .procedural
  else if s = "context" then some .context
  else if s = "ephemeral" then some .ephemeral
  else if s = "session" then some .session
  else none

/-- `MemoryTier | str`: a built-in tier or the name of a profile layer. -/
inductive Tier where
  | std (t : MemoryTier)
  | layer (name : String)
deriving DecidableEq, Repr

/-- `tier_str`. -/
def Tier.text : Tier → String
  | .std t => t.text
  | .layer name => name

inductive MemorySource where
  | human | agent | inferred | system
deriving DecidableEq, Repr

def MemorySource.text : MemorySource → String
  | .human => "human"
  | .agent => "agent"
  | .inferred => "inferred"
  | .system => "system"

/-- `MemorySource(value)`, with the alias of `_missing_`. -/
def MemorySource.ofText (u : Unicode) (s : String) : Option MemorySource :=
  if s = "human" then some .human
  else if s = "agent" then some .agent
  else if s = "inferred" then some .inferred
  else if s = "system" then some .system
  else if u.lower (strip s) = "user" then some .human
  else none

inductive MemoryScope where
  | project | branch | mission | ephemeral | session | shared
deriving DecidableEq, Repr

def MemoryScope.ofText (s : String) : Option MemoryScope :=
  if s = "project" then some .project
  else if s = "branch" then some .branch
  else if s = "mission" then some .mission
  else if s = "ephemeral" then some .ephemeral
  else if s = "session" then some .session
  else if s = "shared" then some .shared
  else none

def MemoryScope.text : MemoryScope → String
  | .project => "project"
  | .branch => "branch"
  | .mission => "mission"
  | .ephemeral => "ephemeral"
  | .session => "session"
  | .shared => "shared"

inductive MemoryStatus where
  | active | stale | superseded | archived | contradicted
deriving DecidableEq, Repr

def MemoryStatus.ofText (s : String) : Option MemoryStatus :=
  if s = "active" then some .active
  else if s = "stale" then some .stale
  else if s = "superseded" then some .superseded
  else if s = "archived" then some .archived
  else if s = "contradicted" then some .contradicted
  else none

inductive LearningStatus where
  | candidate | approved | demoted
deriving DecidableEq, Repr

inductive PromotionSignal where
  | eval | human
deriving DecidableEq, Repr

inductive TemporalSensitivity where
  | high | medium | low
deriving DecidableEq, Repr

inductive MemoryClass where
  | incident | guidance | decision | convention
deriving DecidableEq, Repr

/-- Where a memory came from. -/
structure Provenance where
  sourceSessionId : String := ""
  sourceChannel : String := ""
  sourceMessageId : String := ""
  triggeredBy : String := ""
deriving DecidableEq, Repr

/-- The trust columns `_resolve_promotion_fields` writes together. -/
structure Promotion where
  learningStatus : LearningStatus := .candidate
  promotedBy : Option String := none
  promotedAt : Option Stamp := none
  promotionSignal : Option PromotionSignal := none
  demotionReason : Option String := none
deriving DecidableEq, Repr

structure MemoryEntry where
  key : String
  value : String
  tier : Tier := .std .pattern
  confidence : ℚ := -1
  source : MemorySource := .agent
  sourceAgent : String := "unknown"
  scope : MemoryScope := .project
  tags : List String := []
  createdAt : Stamp
  updatedAt : Stamp
  lastAccessed : Stamp
  accessCount : Nat := 0
  branch : Option String := none
  missionId : Option String := none
  runId : Option String := none
  lastReinforced : Option Stamp := none
  reinforceCount : Nat := 0
  contradicted : Bool := false
  contradictionReason : Option String := none
  seededFrom : Option String := none
  agentScope : String := "private"
  memoryGroup : Option String := none
  validAt : Option IsoText := none
  invalidAt : Option IsoText := none
  supersededBy : Option String := none
  validFrom : Option IsoText := none
  validUntil : Option IsoText := none
  integrityHash : Option String := none
  integrityHashV : Nat := 1
  provenance : Provenance := {}
  stability : ℚ := 0
  difficulty : ℚ := 0
  usefulAccessCount : Nat := 0
  totalAccessCount : Nat := 0
  positiveFeedbackCount : ℚ := 0
  negativeFeedbackCount : ℚ := 0
  temporalSensitivity : Option TemporalSensitivity := none
  failedApproaches : List String := []
  status : MemoryStatus := .active
  staleReason : Option String := none
  staleDate : Option IsoText := none
  promotion : Promotion := {}
  memoryClass : Option MemoryClass := none
deriving DecidableEq, Repr

def MAX_VALUE_LENGTH : Nat := 4096
def MAX_TAGS : Nat := 10
def MAX_TAG_LENGTH : Nat := 64
def MAX_FAILED_APPROACHES : Nat := 5

/-- `_SOURCE_CONFIDENCE_DEFAULTS`. -/
def sourceConfidenceDefault : MemorySource → ℚ
  | .human => 95 / 100
  | .agent => 60 / 100
  | .inferred => 40 / 100
  | .system => 90 / 100

/-- `_normalize_tier` on a tier that is not blank. -/
def canonicalTier (u : Unicode) : Tier → Tier
  | .std t => .std t
  | .layer v =>
    match MemoryTier.ofText v with
    | some t => .std t
    | none =>
      match MemoryTier.ofText (u.lower (strip v)) with
      | some t => .std t
      | none => .layer v

def tierError : Tier → Option String
  | .std _ => none
  | .layer v => if isBlank v then some "tier must not be empty or whitespace-only" else none

/-- `_validate_tags` on one tag. -/
def tagError (u : Unicode) (tag : String) : Option String :=
  if isBlank tag then some "Tags must not be empty or whitespace-only."
  else if tag.length > MAX_TAG_LENGTH then
    some s!"Tag exceeds max length ({tag.length} > {MAX_TAG_LENGTH}): {u.repr tag}"
  else none

def tagsError (u : Unicode) (tags : List String) : Option String :=
  if tags.length > MAX_TAGS then some s!"Too many tags ({tags.length} > {MAX_TAGS})."
  else tags.findSome? (tagError u)

/-- `_validate_key`. -/
def keyError (u : Unicode) (key : String) : Option String :=
  if keySlug key then none
  else some (s!"Key must be a lowercase slug (letters, digits, dots, hyphens, underscores), " ++
    s!"1-{MAX_KEY_LENGTH} chars, starting with alphanumeric. Got: {u.repr key}")

/-- `_validate_value`. -/
def valueError (value : String) : Option String :=
  if value.length > MAX_VALUE_LENGTH then
    some s!"Value exceeds max length ({value.length} > {MAX_VALUE_LENGTH})."
  else if isBlank value then some "Value must not be empty or whitespace-only."
  else none

def rangeError (c : ℚ) : Option String :=
  if c < -1 then some "Input should be greater than or equal to -1"
  else if 1 < c then some "Input should be less than or equal to 1"
  else none

def negativeError (c : ℚ) : Option String :=
  if c < 0 then some "Input should be greater than or equal to 0" else none

def failedApproachesError (l : List String) : Option String :=
  if l.length > MAX_FAILED_APPROACHES then
    some s!"List should have at most {MAX_FAILED_APPROACHES} items after validation"
  else none

def errorOf : Except String α → Option String
  | .ok _ => none
  | .error msg => some msg

/-- What an optional group normalises to; an absent one stays absent. -/
def normalizeGroupField : Option String → Except String (Option String)
  | none => .ok none
  | some g => normalizeMemoryGroup g

/-- A `ValueError` of a validator as pydantic reports it. -/
def reported : Option String → Option String
  | none => none
  | some msg => some ("Value error, " ++ msg)

@[simp] theorem reported_eq_none {err : Option String} : reported err = none ↔ err = none := by
  cases err <;> simp only [reported, reduceCtorEq]

/-- The field validators of the model, in field order. -/
def fieldErrors (u : Unicode) (e : MemoryEntry) : List (Option String) :=
  [reported (keyError u e.key), reported (valueError e.value), reported (tierError e.tier),
    rangeError e.confidence, reported (tagsError u e.tags),
    reported (errorOf (normalizeAgentScope u e.agentScope)),
    reported (errorOf (normalizeGroupField e.memoryGroup)), negativeError e.stability,
    negativeError e.difficulty, negativeError e.positiveFeedbackCount,
    negativeError e.negativeFeedbackCount, failedApproachesError e.failedApproaches]

def confidenceError (c : ℚ) : Option String :=
  if c < 0 ∧ c ≠ -1 then
    some "confidence must be in [0.0, 1.0], or -1.0 to use the source default."
  else none

/-- Python's `not text` on an optional text. -/
def isEmpty : Option String → Bool
  | none => true
  | some s => s = ""

def scopeError (e : MemoryEntry) : Option String :=
  if e.scope = .branch && isEmpty e.branch then
    some "Branch name is required when scope is 'branch'."
  else if e.scope = .mission && isEmpty e.missionId then
    some "mission_id is required when scope is 'mission'."
  else none

/-- `_parse_iso(closing) <= _parse_iso(opening)` where both bounds are set. -/
def windowClosed : Option IsoText → Option IsoText → Except String Bool
  | some opening, some closing =>
    match parseIso closing, parseIso opening with
    | .error msg, _ => .error msg
    | _, .error msg => .error msg
    | .ok c, .ok o => .ok (c ≤ o)
  | _, _ => .ok false

def validityError (e : MemoryEntry) : Option String :=
  match windowClosed e.validAt e.invalidAt with
  | .error msg => some msg
  | .ok closed => if closed then some "invalid_at must be after valid_at." else none

def malformedError (u : Unicode) (field : String) : Option IsoText → Option String
  | some (.malformed t) => some s!"{field} is not a valid ISO-8601 timestamp: {u.repr t}"
  | _ => none

def aliasError (u : Unicode) (e : MemoryEntry) : Option String :=
  (malformedError u "valid_from" e.validFrom).or <|
    (malformedError u "valid_until" e.validUntil).or <|
      match windowClosed e.validFrom e.validUntil with
      | .ok true => some "valid_until must be after valid_from."
      | _ => none

/-- `_apply_defaults_and_validate`, which runs once every field has passed. -/
def modelErrors (u : Unicode) (e : MemoryEntry) : List (Option String) :=
  [reported (confidenceError e.confidence), reported (scopeError e), reported (validityError e),
    reported (aliasError u e)]

/-- The message of the first failure of the model validator. -/
def rejection (u : Unicode) (e : MemoryEntry) : Option String :=
  (fieldErrors u e ++ modelErrors u e).findSome? id

def MemoryEntry.normalised (u : Unicode) (e : MemoryEntry) : MemoryEntry :=
  { e with
    tier := canonicalTier u e.tier
    agentScope := (normalizeAgentScope u e.agentScope).toOption.getD e.agentScope
    memoryGroup := (normalizeGroupField e.memoryGroup).toOption.getD e.memoryGroup
    confidence := if e.confidence < 0 then sourceConfidenceDefault e.source else e.confidence }

/-- `MemoryEntry(...)`: the entry with its fields normalised, or the first validation error. -/
def MemoryEntry.validate (u : Unicode) (e : MemoryEntry) : Except String MemoryEntry :=
  match rejection u e with
  | some msg => .error msg
  | none => .ok (e.normalised u)

/-- The row passes the model validator, so that reading it back succeeds. -/
def Valid (u : Unicode) (e : MemoryEntry) : Prop := rejection u e = none

instance (u : Unicode) (e : MemoryEntry) : Decidable (Valid u e) :=
  inferInstanceAs (Decidable (rejection u e = none))

theorem validate_ok {u : Unicode} {e e' : MemoryEntry} (h : e.validate u = .ok e') :
    Valid u e ∧ e' = e.normalised u := by
  unfold MemoryEntry.validate at h
  unfold Valid
  cases hr : rejection u e with
  | some msg => rw [hr] at h; cases h
  | none => rw [hr] at h; cases h; exact ⟨rfl, rfl⟩

theorem validate_of_valid {u : Unicode} {e : MemoryEntry} (h : Valid u e) :
    e.validate u = .ok (e.normalised u) := by
  unfold MemoryEntry.validate
  rw [show rejection u e = none from h]

/-- Validity is a conjunction, one part for each rule of the model. -/
theorem valid_iff (u : Unicode) (e : MemoryEntry) :
    Valid u e ↔ ∀ err ∈ fieldErrors u e ++ modelErrors u e, err = none := by
  simp only [Valid, rejection, List.findSome?_eq_none_iff, id_eq]

end TappsBrain
