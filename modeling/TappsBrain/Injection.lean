import Mathlib
import TappsBrain.Lifecycle
import TappsBrain.Safety

namespace TappsBrain
set_option autoImplicit true
set_option relaxedAutoImplicit false

/-- A ranked hit of `MemoryRetriever.search`. -/
structure ScoredMemory where
  entry : MemoryEntry
  score : ℚ
  effectiveConfidence : ℚ
  stale : Bool := false

/-- The arguments `inject_memories` hands to the retriever. -/
structure SearchQuery where
  question : String
  limit : Nat
  minConfidence : ℚ
  memoryGroup : Option String := none
  since : Option String := none
  untilAt : Option String := none
  timeField : String := "created_at"

/-- The budget attributes a scoring configuration may carry. -/
structure BudgetOverrides where
  memories : Option ℚ := none
  entities : Option ℚ := none
  edges : Option ℚ := none
  evidence : Option ℚ := none

/-- What a recall reads of the store: its ranked retrieval, its entries and its profile. -/
structure RecallStore where
  search : SearchQuery → Except String (List ScoredMemory)
  /-- `_visible_entry_count`. -/
  visible : Option String → Nat
  /-- `find_related(key, max_hops=2)`; an unknown key raises. -/
  findRelated : String → Option (List (String × Nat))
  /-- The entry a read-only lookup finds. -/
  entry : String → Option MemoryEntry
  safety : SafetyRules
  rulesetVersion : Option String := none
  scoring : Option BudgetOverrides := none
  /-- A confidence as `:.2f` prints it. -/
  twoDecimals : ℚ → String

/-- A result dictionary. `stored` is the value as its holder has it; the code does not keep it and
no decision below reads it. -/
structure RecalledMemory where
  key : String
  value : String
  confidence : ℚ
  tier : String := "pattern"
  score : ℚ := 0
  source : String := "local"
  hiveNamespace : String := ""
  stale : Bool := false
  graphBoosted : Bool := false
  lastAccessed : Option Stamp := none
  stored : String

/-- One line of the section: what it shows of a memory and, beside it, the value of that memory as
its holder has it (none where the line falls back on the key). -/
structure SectionLine where
  key : String
  confidence : ℚ
  tier : String
  origin : String := ""
  shown : String
  stored : Option String
deriving DecidableEq

def SectionLine.text (s : RecallStore) (l : SectionLine) : String :=
  s!"- **{l.key}** (confidence: {s.twoDecimals l.confidence}, tier: {l.tier}{l.origin}): {l.shown}"

def SECTION_HEADER : String := "### Project Memory"

def sectionText (s : RecallStore) : List SectionLine → String
  | [] => ""
  | lines => "\n".intercalate (SECTION_HEADER :: lines.map (SectionLine.text s))

/-- `estimate_tokens`. -/
def estimateTokens (text : String) : Nat := max 1 (text.length / 4)

def MAX_INJECT_HIGH : Nat := 5
def MAX_INJECT_MEDIUM : Nat := 3
def MIN_SCORE : ℚ := 2 / 10
def MIN_CONFIDENCE_MEDIUM : ℚ := 5 / 10
def MIN_CONFIDENCE_HIGH : ℚ := 2 / 10

structure InjectionConfig where
  injectionMaxTokens : Int := 2000
  minScore : Option ℚ := none
  countTokens : Option (String → Int) := none

/-- `_entry_token_cost`. -/
def entryTokenCost (text : String) : Option (String → Int) → Int
  | none => estimateTokens text
  | some count => max 1 (count text)

def DEFAULT_BUDGET_MEMORIES : ℚ := 60 / 100
def DEFAULT_BUDGET_ENTITIES : ℚ := 15 / 100
def DEFAULT_BUDGET_EDGES : ℚ := 15 / 100
def DEFAULT_BUDGET_EVIDENCE : ℚ := 10 / 100

/-- The memory and evidence parts of `_budget_fractions`, which the memory budget adds up. -/
def memoryFraction (scoring : Option BudgetOverrides) : ℚ :=
  let o := scoring.getD {}
  let mem := o.memories.getD DEFAULT_BUDGET_MEMORIES
  let ent := o.entities.getD DEFAULT_BUDGET_ENTITIES
  let edge := o.edges.getD DEFAULT_BUDGET_EDGES
  let evid := o.evidence.getD DEFAULT_BUDGET_EVIDENCE
  let total := mem + ent + edge + evid
  if total ≤ 0 then DEFAULT_BUDGET_MEMORIES + DEFAULT_BUDGET_EVIDENCE
  else mem / total + evid / total

/-- `max(1, int(max_tokens * (frac_mem + frac_ev)))`. -/
def memoryBudget (s : RecallStore) (maxTokens : Int) : Int :=
  max 1 ⌊maxTokens * memoryFraction s.scoring⌋

def RECALL_EMPTY_ENGAGEMENT_LOW : String := "engagement_low"
def RECALL_EMPTY_SEARCH_FAILED : String := "search_failed"
def RECALL_EMPTY_STORE_EMPTY : String := "store_empty"
def RECALL_EMPTY_GROUP_EMPTY : String := "group_empty"
def RECALL_EMPTY_NO_RANKED_MATCHES : String := "no_ranked_matches"
def RECALL_EMPTY_BELOW_SCORE_THRESHOLD : String := "below_score_threshold"
def RECALL_EMPTY_RAG_BLOCKED : String := "rag_safety_blocked"
def RECALL_EMPTY_POST_FILTER : String := "post_filter_excluded"

structure InjectionTelemetry where
  droppedBelowMinScore : Nat := 0
  droppedBySafety : Nat := 0
  omittedByTokenBudget : Nat := 0
deriving DecidableEq

structure InjectionResult where
  memorySection : List SectionLine := []
  memories : List RecalledMemory := []
  truncated : Bool := false
  injectedTokens : Int := 0
  telemetry : InjectionTelemetry := {}
  emptyReason : Option String := none
  retrieverHits : Nat := 0
  visibleEntries : Nat := 0
  qualityWarning : Option String := none

/-- A hit that passed the filter, its entry carrying the text that may be shown. `stored` keeps the
value the store has. -/
structure SafeMemory extends ScoredMemory where
  stored : String

/-- The filter on one hit: dropped, kept as it is, or kept with the sanitised value. -/
def safeItem (s : RecallStore) (scored : ScoredMemory) : Option SafeMemory :=
  let safety := checkContentSafety s.safety s.rulesetVersion scored.entry.value
  if safety.safe then
    some
      { scored with
        entry :=
          { scored.entry with value := safety.sanitisedContent.getD scored.entry.value }
        stored := scored.entry.value }
  else none

def SafeMemory.line (m : SafeMemory) : SectionLine where
  key := m.entry.key
  confidence := m.effectiveConfidence
  tier := m.entry.tier.text
  shown := m.entry.value
  stored := some m.stored

def SafeMemory.summary (m : SafeMemory) : RecalledMemory where
  key := m.entry.key
  value := m.entry.value
  confidence := m.effectiveConfidence
  tier := m.entry.tier.text
  score := m.score
  stale := m.stale
  lastAccessed := some m.entry.lastAccessed
  stored := m.stored

/-- The budget loops: items are taken in order while their costs fit, and the first one always. -/
def takeWithin (cost : α → Int) (budget : Int) : Int → Bool → List α → List α
  | _, _, [] => []
  | used, started, item :: rest =>
    if started ∧ budget < used + cost item then []
    else item :: takeWithin cost budget (used + cost item) true rest

def maxInject (engagement : String) : Nat :=
  if engagement = "medium" then MAX_INJECT_MEDIUM else MAX_INJECT_HIGH

def minConfidence (engagement : String) : ℚ :=
  if engagement = "medium" then MIN_CONFIDENCE_MEDIUM else MIN_CONFIDENCE_HIGH

/-- The arguments of `inject_memories` beside the question, the store and the configuration. -/
structure InjectionArgs where
  engagementLevel : String := "high"
  memoryGroup : Option String := none
  since : Option String := none
  untilAt : Option String := none
  timeField : String := "created_at"

def nothingRanked (s : RecallStore) (group : Option String) (hits : Nat) : String :=
  if hits = 0 then
    if s.visible group = 0 then
      if isEmpty group then RECALL_EMPTY_STORE_EMPTY else RECALL_EMPTY_GROUP_EMPTY
    else RECALL_EMPTY_NO_RANKED_MATCHES
  else RECALL_EMPTY_BELOW_SCORE_THRESHOLD

/-- `inject_memories`, without its graph part. -/
def injectMemories (s : RecallStore) (question : String) (a : InjectionArgs)
    (config : InjectionConfig) : InjectionResult :=
  let visible := s.visible a.memoryGroup
  if a.engagementLevel = "low" then
    { emptyReason := some RECALL_EMPTY_ENGAGEMENT_LOW, visibleEntries := visible }
  else
    match s.search
        { question := question
          limit := maxInject a.engagementLevel
          minConfidence := minConfidence a.engagementLevel
          memoryGroup := a.memoryGroup
          since := a.since
          untilAt := a.untilAt
          timeField := a.timeField } with
    | .error exc =>
      { emptyReason := some RECALL_EMPTY_SEARCH_FAILED
        visibleEntries := visible
        qualityWarning := some s!"memory search failed: {exc}" }
    | .ok hits =>
      let results := hits.filter (fun m => config.minScore.getD MIN_SCORE ≤ m.score)
      let belowMinScore := hits.length - results.length
      let safeResults := results.filterMap (safeItem s)
      let bySafety := results.length - safeResults.length
      if results = [] then
        { emptyReason := some (nothingRanked s a.memoryGroup hits.length)
          retrieverHits := hits.length
          visibleEntries := visible
          telemetry := { droppedBelowMinScore := belowMinScore } }
      else if safeResults = [] then
        { emptyReason := some RECALL_EMPTY_RAG_BLOCKED
          retrieverHits := hits.length
          visibleEntries := visible
          telemetry := { droppedBelowMinScore := belowMinScore, droppedBySafety := bySafety } }
      else
        let cost (m : SafeMemory) := entryTokenCost (m.line.text s) config.countTokens
        let candidates := safeResults.take (maxInject a.engagementLevel)
        let budgeted :=
          takeWithin cost (memoryBudget s config.injectionMaxTokens) 0 false candidates
        { memorySection := budgeted.map SafeMemory.line
          memories := budgeted.map SafeMemory.summary
          truncated := decide (budgeted.length < candidates.length)
          injectedTokens := (budgeted.map cost).sum
          telemetry :=
            { droppedBelowMinScore := belowMinScore
              droppedBySafety := bySafety
              omittedByTokenBudget := candidates.length - budgeted.length }
          retrieverHits := hits.length
          visibleEntries := visible }

/-- Where costs are not negative, an item is taken exactly when it leads an unstarted list, or fits
together with everything before it. -/
theorem mem_takeWithin {cost : α → Int} (hcost : ∀ x, 0 ≤ cost x) {budget : Int} {m : α}
    (used : Int) (started : Bool) (l : List α) :
    m ∈ takeWithin cost budget used started l ↔
      ∃ ahead behind, l = ahead ++ m :: behind ∧
        (started = false ∧ ahead = [] ∨ used + (ahead.map cost).sum + cost m ≤ budget) := by
  induction l generalizing used started with
  | nil =>
    simp only [takeWithin, List.not_mem_nil, List.nil_eq_append_iff, reduceCtorEq, and_false,
      false_and, exists_const]
  | cons item rest ih =>
    have hnonneg (l : List α) : 0 ≤ (l.map cost).sum := by
      induction l with
      | nil => exact le_refl _
      | cons x l ihl => have := hcost x; simp only [List.map_cons, List.sum_cons]; omega
    by_cases hstop : started = true ∧ budget < used + cost item
    · simp only [takeWithin, hstop, and_self, ↓reduceIte, List.not_mem_nil, Bool.true_eq_false,
        false_and, false_or, false_iff, not_exists, not_and]
      intro ahead behind hl
      cases ahead with
      | nil =>
        obtain ⟨rfl, -⟩ := List.cons.inj hl
        simp only [List.map_nil, List.sum_nil]
        omega
      | cons x ahead =>
        obtain ⟨rfl, -⟩ := List.cons.inj hl
        have h1 := hnonneg ahead
        have h2 := hcost m
        simp only [List.map_cons, List.sum_cons]
        omega
    · simp only [takeWithin, hstop, ↓reduceIte, List.mem_cons, ih, Bool.true_eq_false, false_and,
        false_or]
      constructor
      · intro h
        obtain rfl | ⟨ahead, behind, hrest, hfit⟩ := h
        · exists [], rest
          cases started with
          | false => exact ⟨rfl, .inl ⟨rfl, rfl⟩⟩
          | true =>
            apply And.intro rfl
            right
            simp only [true_and, not_lt] at hstop
            simpa only [List.map_nil, List.sum_nil, add_zero] using hstop
        · exists item :: ahead, behind
          apply And.intro (by rw [hrest]; rfl)
          right
          simp only [List.map_cons, List.sum_cons]
          omega
      · intro h
        obtain ⟨ahead, behind, hl, hfit⟩ := h
        cases ahead with
        | nil => exact .inl (List.cons.inj hl).1.symm
        | cons x ahead =>
          obtain ⟨rfl, hrest⟩ := List.cons.inj hl
          right
          exists ahead, behind
          apply And.intro hrest
          simp only [reduceCtorEq, and_false, false_or, List.map_cons, List.sum_cons] at hfit
          omega

end TappsBrain
