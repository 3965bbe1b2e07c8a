import Mathlib.Data.List.Sort
import TappsBrain.Injection

namespace TappsBrain
set_option autoImplicit true
set_option relaxedAutoImplicit false

structure RecallConfig where
  engagementLevel : String := "high"
  maxTokens : Int := 3000
  minScore : ℚ := 3 / 10
  minConfidence : ℚ := 1 / 10
  scopeFilter : Option MemoryScope := none
  tierFilter : Option MemoryTier := none
  branch : Option String := none
  memoryGroup : Option String := none
  dedupeWindow : List String := []
  useGraphBoost : Bool := false
  graphBoostFactor : ℚ := 15 / 100
  since : Option String := none
  untilAt : Option String := none
  timeField : String := "created_at"

/-- A row of the shared store as its search returns it. -/
structure HiveMemory where
  key : String
  value : String
  tier : String := "pattern"
  confidence : ℚ := 6 / 10
  hiveNamespace : String := "universal"

/-- What a recall reads of the Hive; `none` is a call that raises. -/
structure HiveReader where
  getAgentGroups : String → String → Option (List String)
  search : String → List String → ℚ → Nat → Option (List HiveMemory)

/-- `RecallOrchestrator` over one store. -/
structure RecallOrchestrator where
  store : RecallStore
  hiveStore : Option HiveReader := none
  /-- The weight in force: the constructor's, else the store's, else the default. -/
  hiveRecallWeight : ℚ := 8 / 10
  hiveAgentProfile : String := "repo-brain"
  hiveAgentId : String := "unknown"
  projectId : String := ""
  /-- `round(x, 4)`. -/
  round4 : ℚ → ℚ

structure RecallResult where
  memorySection : List SectionLine
  memories : List RecalledMemory
  tokenCount : Int
  truncated : Bool
  memoryCount : Nat
  hiveMemoryCount : Nat
  emptyReason : Option String
  qualityWarning : Option String

/-- `sort(key=score, reverse=True)`, which keeps the order of equal scores. -/
def byScore (memories : List RecalledMemory) : List RecalledMemory :=
  memories.mergeSort (fun a b => b.score ≤ a.score)

/-- The shortest hop at which a key of the result set is reached from another one. -/
def connectedHop (s : RecallStore) (memories : List RecalledMemory) (key : String) : Option Nat :=
  let hops := memories.flatMap fun m =>
    if m.key = "" then []
    else ((s.findRelated m.key).getD []).filterMap
      (fun related => if related.1 = key then some related.2 else none)
  hops.min?

/-- `_apply_graph_boost`. -/
def applyGraphBoost (s : RecallStore) (boostFactor : ℚ) (memories : List RecalledMemory) :
    List RecalledMemory :=
  if memories.all (fun m => (connectedHop s memories m.key).isNone) then memories
  else
    byScore <| memories.map fun m =>
      match connectedHop s memories m.key with
      | none => m
      | some hop => { m with score := min (m.score + boostFactor / hop) 1, graphBoosted := true }

/-- The namespaces a recall searches. -/
def recallNamespaces (o : RecallOrchestrator) (hive : HiveReader) : List String :=
  let groups := (hive.getAgentGroups o.hiveAgentId o.projectId).getD []
  groups.foldl (fun seen g => if g ∈ seen then seen else seen ++ [g])
    ["universal", o.hiveAgentProfile]

/-- The weighted row of one Hive hit, unless a local result has its key or its score is under the
floor. -/
def hiveHit (o : RecallOrchestrator) (cfg : RecallConfig) (localKeys : List String)
    (row : HiveMemory) : Option RecalledMemory :=
  let score := o.round4 (row.confidence * o.hiveRecallWeight)
  if row.key ∈ localKeys ∨ score < cfg.minScore then none
  else
    some
      { key := row.key
        confidence := score
        tier := row.tier
        score := score
        source := "hive"
        hiveNamespace := row.hiveNamespace
        value := row.value
        stored := row.value }

/-- `_search_hive`: the hits to merge, and whether the search failed. -/
def searchHive (o : RecallOrchestrator) (cfg : RecallConfig) (message : String)
    (localMemories : List RecalledMemory) : List RecalledMemory × Bool :=
  match o.hiveStore with
  | none => ([], false)
  | some hive =>
    match hive.search message (recallNamespaces o hive) cfg.minConfidence 20 with
    | none => ([], true)
    | some rows => (rows.filterMap (hiveHit o cfg (localMemories.map RecalledMemory.key)), false)

/-- `_merge_hive_results`. -/
def mergeHiveResults (localMemories hive : List RecalledMemory) : List RecalledMemory :=
  byScore (localMemories ++ hive)

def originMarker (m : RecalledMemory) : String :=
  if m.source = "hive" then s!" [hive:{m.hiveNamespace}]" else ""

/-- The line `_format_memory_line` prints. -/
def memoryLine (m : RecalledMemory) : SectionLine where
  key := m.key
  confidence := m.confidence
  tier := m.tier
  origin := originMarker m
  shown := if m.value = "" then m.key else m.value
  stored := if m.value = "" then none else some m.stored

def lineCost (s : RecallStore) (m : RecalledMemory) : Int :=
  estimateTokens ((memoryLine m).text s)

/-- `_truncate_to_budget`. -/
def truncateToBudget (s : RecallStore) (maxTokens : Int) (memories : List RecalledMemory) :
    List RecalledMemory × Bool :=
  let kept := takeWithin (lineCost s) maxTokens (estimateTokens SECTION_HEADER) false memories
  (kept, kept.length < memories.length)

/-- `_rebuild_section`. -/
def rebuildSection (memories : List RecalledMemory) : List SectionLine := memories.map memoryLine

/-- `_needs_post_filter`. -/
def needsPostFilter (cfg : RecallConfig) : Bool :=
  cfg.scopeFilter.isSome || cfg.tierFilter.isSome || !isEmpty cfg.branch || cfg.dedupeWindow ≠ []

/-- `_passes_entry_filters`. -/
def passesEntryFilters (entry : MemoryEntry) (cfg : RecallConfig) : Bool :=
  (cfg.scopeFilter.all (fun scope => entry.scope = scope)) &&
    (cfg.tierFilter.all (fun tier => entry.tier = .std tier)) &&
    !(!isEmpty cfg.branch && entry.scope = .branch && entry.branch ≠ cfg.branch)

/-- `_peek_entry`, for a key that is not empty. -/
def peekEntry (s : RecallStore) (key : String) : Option MemoryEntry :=
  if key = "" then none else s.entry key

/-- The body of the loop of `_apply_post_filters`: the memory is kept. -/
def keptByFilters (s : RecallStore) (cfg : RecallConfig) (m : RecalledMemory) : Bool :=
  if m.key ∈ cfg.dedupeWindow then false
  else if cfg.scopeFilter.isSome || cfg.tierFilter.isSome || !isEmpty cfg.branch then
    match peekEntry s m.key with
    | none => m.source ≠ "hive" || cfg.tierFilter.all (fun tier => m.tier = tier.text)
    | some entry => passesEntryFilters entry cfg
  else true

/-- The line `_build_filtered_section` prints: the value of the store entry, where there is one. -/
def filteredLine (s : RecallStore) (m : RecalledMemory) : SectionLine :=
  match peekEntry s m.key with
  | some entry => { memoryLine m with shown := entry.value, stored := some entry.value }
  | none => memoryLine m

/-- `_build_filtered_section`. -/
def buildFilteredSection (s : RecallStore) (filtered : List RecalledMemory) : List SectionLine :=
  filtered.map (filteredLine s)

/-- `_apply_post_filters`. -/
def applyPostFilters (s : RecallStore) (cfg : RecallConfig) (memories : List RecalledMemory) :
    List RecalledMemory × List SectionLine :=
  let filtered := memories.filter (keptByFilters s cfg)
  (filtered, buildFilteredSection s filtered)

/-- The arguments `recall` derives from its configuration for the injection. -/
def RecallConfig.injectionArgs (cfg : RecallConfig) : InjectionArgs where
  engagementLevel := cfg.engagementLevel
  memoryGroup := cfg.memoryGroup
  since := cfg.since
  untilAt := cfg.untilAt
  timeField := cfg.timeField

def injected (o : RecallOrchestrator) (cfg : RecallConfig) (message : String) : InjectionResult :=
  injectMemories o.store message cfg.injectionArgs
    { injectionMaxTokens := cfg.maxTokens, minScore := some cfg.minScore }

/-- The local memories of a recall, boosted where the configuration asks for it. -/
def localMemories (o : RecallOrchestrator) (cfg : RecallConfig) (message : String) :
    List RecalledMemory :=
  let memories := (injected o cfg message).memories
  if cfg.useGraphBoost ∧ memories ≠ [] then applyGraphBoost o.store cfg.graphBoostFactor memories
  else memories

/-- The Hive step of a recall, which a low engagement level switches off. -/
def hiveMemories (o : RecallOrchestrator) (cfg : RecallConfig) (message : String) :
    List RecalledMemory × Bool :=
  if cfg.engagementLevel = "low" then ([], false)
  else searchHive o cfg message (localMemories o cfg message)

/-- The local memories with what the Hive adds to them. -/
def mergedMemories (o : RecallOrchestrator) (cfg : RecallConfig) (message : String) :
    List RecalledMemory :=
  let hive := (hiveMemories o cfg message).1
  if hive = [] then localMemories o cfg message
  else mergeHiveResults (localMemories o cfg message) hive

/-- `_search_hive` contributed to the result. -/
def hiveMerged (o : RecallOrchestrator) (cfg : RecallConfig) (message : String) : Bool :=
  (hiveMemories o cfg message).1 ≠ []

/-- The memories after the filters, with the section as it stands then. -/
def filteredMemories (o : RecallOrchestrator) (cfg : RecallConfig) (message : String) :
    List RecalledMemory × List SectionLine :=
  let merged := mergedMemories o cfg message
  if merged ≠ [] ∧ needsPostFilter cfg then applyPostFilters o.store cfg merged
  else (merged, (injected o cfg message).memorySection)

/-- The budget step of a recall: memories, section, and whether memories were cut off. -/
def budgetedMemories (o : RecallOrchestrator) (cfg : RecallConfig) (message : String) :
    List RecalledMemory × List SectionLine × Bool :=
  let filtered := filteredMemories o cfg message
  if hiveMerged o cfg message ∧ filtered.1 ≠ [] then
    let kept := truncateToBudget o.store cfg.maxTokens filtered.1
    (kept.1, rebuildSection kept.1, kept.2)
  else (filtered.1, filtered.2, false)

def recallTokens (o : RecallOrchestrator) (memories : List RecalledMemory)
    (lines : List SectionLine) (injectedTokens : Int) : Int :=
  if memories = [] then 0
  else if lines ≠ [] then estimateTokens (sectionText o.store lines)
  else injectedTokens

/-- `"; ".join(warnings) if warnings else None`. -/
def joinWarnings (warnings : List (Option String)) : Option String :=
  let given := warnings.filterMap (fun w => if isEmpty w then none else w)
  if given = [] then none else some ("; ".intercalate given)

/-- `recall`. -/
def RecallOrchestrator.recall (o : RecallOrchestrator) (message : String) (cfg : RecallConfig) : RecallResult :=
  let result := injected o cfg message
  let merged := mergedMemories o cfg message
  let (memories, memorySection, hiveTruncated) := budgetedMemories o cfg message
  let hiveWarning :=
    if (hiveMemories o cfg message).2 then some "hive_search_unavailable" else none
  { memorySection := memorySection
    memories := memories
    tokenCount := recallTokens o memories memorySection result.injectedTokens
    truncated := result.truncated || hiveTruncated
    memoryCount := memories.length
    hiveMemoryCount := memories.countP (fun m => m.source = "hive")
    emptyReason :=
      if memories = [] ∧ merged ≠ [] ∧ needsPostFilter cfg then some RECALL_EMPTY_POST_FILTER
      else result.emptyReason
    qualityWarning := joinWarnings [result.qualityWarning, hiveWarning] }

end TappsBrain
