import Mathlib.Data.Rat.Defs
import TappsBrain.Entry

namespace TappsBrain
set_option autoImplicit true
set_option relaxedAutoImplicit false

structure LimitsConfig where
  maxKeyLength : Nat := 128
  maxValueLength : Nat := 4096
  maxTags : Nat := 10

inductive Aggressiveness where
  | low | medium | high
deriving DecidableEq

structure ConflictCheckConfig where
  aggressiveness : Aggressiveness := .medium
  similarityThreshold : Option ℚ := none
  perTier : List (String × ℚ) := []

/-- `effective_similarity_threshold`. -/
def ConflictCheckConfig.effectiveSimilarityThreshold (c : ConflictCheckConfig) (tier : String) : ℚ :=
  match c.perTier.lookup tier with
  | some cutoff => cutoff
  | none =>
    match c.similarityThreshold with
    | some cutoff => cutoff
    | none =>
      match c.aggressiveness with
      | .low => 75 / 100
      | .medium => 60 / 100
      | .high => 45 / 100

structure LayerDefinition where
  name : String
  promotionTo : Option String := none
  demotionTo : Option String := none
  adaptiveStability : Bool := false

structure MemoryProfile where
  layers : List LayerDefinition
  limits : LimitsConfig := {}
  conflictCheck : ConflictCheckConfig := {}
  sourceConfidence : List (String × ℚ) := []

def MemoryProfile.layerNames (p : MemoryProfile) : List String := p.layers.map (·.name)

/-- `get_layer`. -/
def MemoryProfile.getLayer (p : MemoryProfile) (name : String) : Option LayerDefinition :=
  p.layers.find? (fun l => l.name = name)

structure WriteRules where
  enforced : Bool := false
  blockSensitiveKeywords : List String := []
  minValueLength : Nat := 0
  maxValueLength : Nat := 4096

/-- What `check_content_safety` says of a text. -/
structure ContentSafety where
  safe : Bool
  sanitisedContent : Option String := none

inductive WriteDecision where
  | add | update | delete | noop
deriving DecidableEq, Repr

structure WriteResult where
  decision : WriteDecision
  targetKey : Option String := none
  reasoning : String := ""

/-- The policy consulted before a write; no policy at all behaves as the deterministic one. -/
inductive WritePolicy where
  | deterministic
  | judged (decide : String → String → List MemoryEntry → WriteResult)

structure ConsolidationConfig where
  enabled : Bool := true
  exemptTiers : List String := ["architectural"]

/-- A confidence ceiling, bounded as `DecayConfig` bounds it. -/
def Ceiling : Type := { c : ℚ // 0 ≤ c ∧ c ≤ 1 }

/-- A relation triple as `extract_relations` returns it. -/
structure RelationEntry where
  subject : String
  predicate : String
  objectEntity : String
  sourceEntryKeys : List String := []
  confidence : ℚ := 8 / 10
deriving DecidableEq, Repr

inductive DecayAction where
  | close | archive
deriving DecidableEq, Repr

/-- The row `consolidate` computes from a group. -/
structure ConsolidatedEntry where
  key : String
  value : String
  tier : String
  source : MemorySource
  sourceAgent : String
  scope : String
  tags : List String
  confidence : ℚ
  memoryGroup : Option String

/-- A merge as it is handed to `_persist_consolidated_entry`. -/
structure MergePlan where
  consolidated : ConsolidatedEntry
  sources : List MemoryEntry
  trigger : String := "save"
  threshold : ℚ := 7 / 10
  /-- `_content_preservation_ratio` is at or over the floor. -/
  keepsContent : Bool := true

/-- What a store is built with. The functions are the lexical and numeric parts of the program
whose results no property here depends on. -/
structure Config where
  unicode : Unicode
  profile : Option MemoryProfile := none
  agentId : Option String := none
  groups : List String := []
  writeRules : Option WriteRules := none
  maxEntries : Nat := 5000
  maxEntriesPerGroup : Option Nat := none
  writePolicy : WritePolicy := .deterministic
  consolidation : ConsolidationConfig := {}
  checkContentSafety : String → ContentSafety
  inferTemporalSensitivity : String → Option TemporalSensitivity
  textSimilarity : String → String → String → String → ℚ
  scoreText : ℚ → String
  extractRelations : String → String → List RelationEntry
  computeIntegrityHash : String → String → String → String → String
  ceiling : MemorySource → Ceiling
  /-- `update_stability` before its result is clamped. -/
  rawStability : MemoryEntry → Bool → Stamp → ℚ
  /-- The thresholds of `check_promotion` are met. -/
  promotionDue : MemoryEntry → Stamp → Bool
  /-- The thresholds of `check_demotion` are met. -/
  demotionDue : MemoryEntry → Stamp → Bool
  /-- The reasons of `_archive_reasons` for a row past its lifecycle gates. -/
  decayReasons : MemoryEntry → Stamp → List String
  /-- The verdict of `identify_decay_refresh` on a live row. -/
  decayVerdict : MemoryEntry → Stamp → Option DecayAction
  /-- The groups the similarity search merges, for a saved entry and the entries of the store. -/
  planMerge : MemoryEntry → List MemoryEntry → Option MergePlan

/-- A configuration together with what its environment will answer: the clock, and which backend
calls raise. Both are indexed by how often they have been asked. -/
structure World extends Config where
  clock : Nat → Stamp
  refuses : Nat → Bool
  rateAllowed : Nat → Bool

/-- The Unicode tables on lower-case text, which they leave as it is. -/
def Unicode.lowercase : Unicode where
  lower := id
  lower_lower := fun _ => rfl
  nfkc := id
  repr := fun s => s!"'{s}'"

theorem human_ceiling : (0 : ℚ) ≤ 95 / 100 ∧ (95 / 100 : ℚ) ≤ 1 := by decide +kernel

theorem agent_ceiling : (0 : ℚ) ≤ 85 / 100 ∧ (85 / 100 : ℚ) ≤ 1 := by decide +kernel

theorem inferred_ceiling : (0 : ℚ) ≤ 70 / 100 ∧ (70 / 100 : ℚ) ≤ 1 := by decide +kernel

/-- The default ceilings of `DecayConfig`. -/
def defaultCeiling : MemorySource → Ceiling
  | .human => ⟨95 / 100, human_ceiling⟩
  | .agent => ⟨85 / 100, agent_ceiling⟩
  | .inferred => ⟨70 / 100, inferred_ceiling⟩
  | .system => ⟨95 / 100, human_ceiling⟩

/-- A store without a profile, on text that is safe and resembles no other text. -/
def Config.plain : Config where
  unicode := .lowercase
  checkContentSafety := fun _ => { safe := true }
  inferTemporalSensitivity := fun _ => none
  textSimilarity := fun _ _ _ _ => 0
  scoreText := fun _ => "0.0"
  extractRelations := fun _ _ => []
  computeIntegrityHash := fun key _ _ _ => key
  ceiling := defaultCeiling
  rawStability := fun _ _ _ => 1
  promotionDue := fun _ _ => false
  demotionDue := fun _ _ => false
  decayReasons := fun _ _ => []
  decayVerdict := fun _ _ => none
  planMerge := fun _ _ => none

/-- A configuration in an environment that never fails and whose clock counts its readings. -/
def Config.calm (c : Config) : World where
  toConfig := c
  clock := fun n => 1000 + n
  refuses := fun _ => false
  rateAllowed := fun _ => true

/-- The arguments of `save`. -/
structure SaveArgs where
  key : String
  value : String
  tier : String := "pattern"
  source : String := "agent"
  sourceAgent : String := "unknown"
  scope : String := "project"
  tags : Option (List String) := none
  branch : Option String := none
  missionId : Option String := none
  runId : Option String := none
  confidence : ℚ := -1
  agentScope : String := "private"
  provenance : Provenance := {}
  /-- `none` is `MEMORY_GROUP_UNSET`. -/
  memoryGroup : Option (Option String) := none
  temporalSensitivity : Option TemporalSensitivity := none
  failedApproaches : Option (List String) := none
  status : Option String := none
  staleReason : Option String := none
  staleDate : Option IsoText := none
  supersededBy : Option String := none
  validAt : Option IsoText := none
  skipConsolidation : Bool := false
  dedup : Bool := true
  conflictCheck : Bool := true
deriving DecidableEq, Repr

end TappsBrain
