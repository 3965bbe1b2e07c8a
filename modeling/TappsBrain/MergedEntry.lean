import TappsBrain.ConsolidatedKeys
import TappsBrain.MergeIsolation

namespace TappsBrain
open Lib
set_option autoImplicit true
set_option relaxedAutoImplicit false

/-- What the fields of a merged entry rest on besides the sources. -/
structure MergeTexts where
  digest : KeyDigest
  /-- `_extract_sentences`. -/
  sentences : String → List String
  /-- `calculate_decayed_confidence` at the time of the merge. -/
  decayed : MemoryEntry → ℚ

def MAX_CONSOLIDATED_VALUE_LENGTH : Nat := 4096

def newestFirst (entries : List MemoryEntry) : List MemoryEntry :=
  entries.insertionSort (fun a b => b.updatedAt ≤ a.updatedAt)

/-- The loop of `merge_values` over the older entries, with the sentences seen so far. -/
def mergedParts (sentences : String → List String) : List String → List MemoryEntry → List String
  | _, [] => []
  | seen, e :: rest =>
    let unique := (sentences e.value).filter (fun s => !seen.contains s)
    if unique = [] then mergedParts sentences seen rest
    else
      let emitted := unique.take 2
      (s!"[From {e.key}]: " ++ " ".intercalate emitted) ::
        mergedParts sentences (seen ++ emitted) rest

def truncated (merged : String) : String :=
  if MAX_CONSOLIDATED_VALUE_LENGTH < merged.length then
    String.ofList (merged.toList.take (MAX_CONSOLIDATED_VALUE_LENGTH - 3)) ++ "..."
  else merged

/-- `merge_values`. -/
def mergeValues (sentences : String → List String) (entries : List MemoryEntry) : String :=
  match newestFirst entries with
  | [] => ""
  | [e] => e.value
  | newest :: rest =>
    truncated (" ".intercalate
      (newest.value :: mergedParts sentences (sentences newest.value) rest))

/-- The sums of the weights, a half to the power of the position, and of what they weigh. -/
def weightedSums (decayed : MemoryEntry → ℚ) : ℚ → List MemoryEntry → ℚ × ℚ
  | _, [] => (0, 0)
  | weight, e :: rest =>
    let (total, sum) := weightedSums decayed (weight / 2) rest
    (weight + total, decayed e * weight + sum)

/-- `calculate_weighted_confidence`. -/
def calculateWeightedConfidence (decayed : MemoryEntry → ℚ) (entries : List MemoryEntry) : ℚ :=
  match newestFirst entries with
  | [] => 1 / 2
  | [e] => decayed e
  | sorted =>
    let (total, sum) := weightedSums decayed 1 sorted
    min 1 (max 0 (sum / total))

/-- The merging with the fields computed from the sources. -/
def Merging.withTexts (m : Merging) (u : Unicode) (t : MergeTexts) : Merging :=
  { m with
    consolidatedKey := generateConsolidatedKey u t.digest
    mergeValues := TappsBrain.mergeValues t.sentences
    weightedConfidence := calculateWeightedConfidence t.decayed }

/-- The entry `consolidate` constructs: the newest source gives scope, branch and group. -/
def mergedDraft (u : Unicode) (t : MergeTexts) (entries : List MemoryEntry) (newest : MemoryEntry)
    (tier : Tier) (now : Stamp) : MemoryEntry :=
  { key := generateConsolidatedKey u t.digest entries
    value := mergeValues t.sentences entries
    tier
    confidence := calculateWeightedConfidence t.decayed entries
    source := .system
    sourceAgent := "tapps-consolidation"
    scope := newest.scope
    branch := newest.branch
    memoryGroup := newest.memoryGroup
    tags := mergeTags u entries
    createdAt := now, updatedAt := now, lastAccessed := now }

/-- `consolidate`, with the validation of what it constructs. -/
def consolidateValidated (u : Unicode) (t : MergeTexts) (entries : List MemoryEntry) (now : Stamp) :
    Except Raised MemoryEntry :=
  match latestBy (·.updatedAt) entries, selectTier entries with
  | some newest, some tier =>
    if entries.length < MIN_CONSOLIDATION_ENTRIES then
      .error (.valueError s!"Need at least 2 entries to consolidate, got {entries.length}")
    else
      match (mergedDraft u t entries newest tier now).validate u with
      | .error msg => .error (.validationError msg)
      | .ok e => .ok e
  | _, _ => .error (.valueError s!"Need at least 2 entries to consolidate, got {entries.length}")

def MemoryEntry.consolidated (e : MemoryEntry) : ConsolidatedEntry :=
  { key := e.key, value := e.value, tier := e.tier.text, source := e.source
    sourceAgent := e.sourceAgent, scope := e.scope.text, tags := e.tags
    confidence := e.confidence, memoryGroup := e.memoryGroup }

def planWith (trigger : String) (threshold : ℚ) (sources : List MemoryEntry) (e : MemoryEntry) :
    MergePlan :=
  { consolidated := e.consolidated, sources, trigger, threshold
    keepsContent := preservesContent e.value sources }

section Fields
variable {u : Unicode} {t : MergeTexts} {e newest : MemoryEntry} {sources : List MemoryEntry}

/-- The rules of the model that a merge takes over from its sources. -/
theorem valid_rules (h : Valid u e) : valueError e.value = none ∧ tierError e.tier = none ∧
    tagsError u e.tags = none ∧ errorOf (normalizeGroupField e.memoryGroup) = none ∧
    scopeError e = none := by
  rw [valid_iff] at h
  simp only [fieldErrors, modelErrors, List.cons_append, List.nil_append, List.forall_mem_cons,
    reported_eq_none] at h
  obtain ⟨_, hvalue, htier, _, htags, _, hgroup, _, _, _, _, _, _, hscope, _⟩ := h
  exact ⟨hvalue, htier, htags, hgroup, hscope⟩

theorem valueError_iff {value : String} :
    valueError value = none ↔ value.length ≤ MAX_VALUE_LENGTH ∧ isBlank value = false := by
  rw [valueError]
  split
  · next hlong => exact iff_of_false (fun h => nomatch h) (fun h => absurd h.1 (not_le.2 hlong))
  · next hshort =>
    cases hblank : isBlank value with
    | true => exact iff_of_false (fun h => nomatch h) (fun h => nomatch h.2)
    | false => exact iff_of_true rfl ⟨not_lt.1 hshort, rfl⟩

theorem isBlank_false_iff {value : String} :
    isBlank value = false ↔ ∃ c ∈ value.toList, isSpace c = false := by
  rw [isBlank, List.all_eq_false]
  simp only [Bool.not_eq_true]

theorem valueError_truncated {merged : String} (h : isBlank merged = false) :
    valueError (truncated merged) = none := by
  rw [valueError_iff, truncated]
  split
  · next hlong =>
    constructor
    · rw [String.length_append, String.length_ofList, List.length_take]
      exact Nat.add_le_of_le_sub (by decide) (Nat.min_le_left _ _)
    · rw [isBlank_false_iff]
      refine ⟨'.', ?_, by decide⟩
      rw [String.toList_append]
      exact List.mem_append_right _ (by decide)
  · next hshort => exact ⟨not_lt.1 hshort, h⟩

theorem mem_newestFirst : e ∈ newestFirst sources ↔ e ∈ sources := List.mem_insertionSort _

theorem length_newestFirst : (newestFirst sources).length = sources.length :=
  List.length_insertionSort _ _

theorem intercalate_cons_starts (value : String) (parts : List String) :
    ∃ rest, " ".intercalate (value :: parts) = value ++ rest := by
  cases parts with
  | nil => exact ⟨"", by rw [String.intercalate_singleton, String.append_empty]⟩
  | cons part rest =>
    refine ⟨" " ++ " ".intercalate (part :: rest), ?_⟩
    rw [String.intercalate_cons_cons, String.append_assoc]

/-- A merged value is not blank and fits, whatever sentences the older sources add. -/
theorem valueError_mergeValues (hne : sources ≠ [])
    (h : ∀ e ∈ sources, valueError e.value = none) :
    valueError (mergeValues t.sentences sources) = none := by
  have hsorted : ∀ e ∈ newestFirst sources, valueError e.value = none :=
    fun e he => h e (mem_newestFirst.1 he)
  rw [mergeValues]
  cases hs : newestFirst sources with
  | nil =>
    have hlength : sources.length = 0 := by rw [← length_newestFirst, hs, List.length_nil]
    exact absurd (List.eq_nil_of_length_eq_zero hlength) hne
  | cons newest rest =>
    rw [hs] at hsorted
    have hnewest := hsorted newest List.mem_cons_self
    cases rest with
    | nil => exact hnewest
    | cons older rest =>
      apply valueError_truncated
      obtain ⟨tail, htail⟩ := intercalate_cons_starts newest.value
        (mergedParts t.sentences (t.sentences newest.value) (older :: rest))
      rw [htail, isBlank_false_iff]
      obtain ⟨c, hc, hblank⟩ := isBlank_false_iff.1 (valueError_iff.1 hnewest).2
      refine ⟨c, ?_, hblank⟩
      rw [String.toList_append]
      exact List.mem_append_left _ hc

theorem mem_mergeTags {tag : String} (h : tag ∈ mergeTags u sources) :
    ∃ e ∈ sources, tag ∈ e.tags := by
  rw [mergeTags] at h
  obtain ⟨lowered, _, hfind⟩ := List.mem_filterMap.1 h
  exact List.mem_flatMap.1 (List.mem_of_find?_eq_some hfind)

theorem tagsError_mergeTags (h : ∀ e ∈ sources, tagsError u e.tags = none) :
    tagsError u (mergeTags u sources) = none := by
  have hlength : (mergeTags u sources).length ≤ MAX_TAGS :=
    (List.length_filterMap_le _ _).trans (List.length_take_le _ _)
  rw [tagsError, if_neg (not_lt.2 hlength), List.findSome?_eq_none_iff]
  intro tag htag
  obtain ⟨e, he, hmem⟩ := mem_mergeTags htag
  have hall := h e he
  rw [tagsError] at hall
  split at hall
  · cases hall
  · exact List.findSome?_eq_none_iff.1 hall tag hmem

/-- Of two or more sources the confidence is clamped. -/
theorem calculateWeightedConfidence_range (h : MIN_CONSOLIDATION_ENTRIES ≤ sources.length) :
    0 ≤ calculateWeightedConfidence t.decayed sources ∧
      calculateWeightedConfidence t.decayed sources ≤ 1 := by
  rw [← length_newestFirst] at h
  rw [calculateWeightedConfidence]
  split
  · next hs =>
    rw [hs] at h
    cases h
  · next hs =>
    rw [hs, List.length_singleton] at h
    exact absurd h (by decide)
  · exact ⟨le_min zero_le_one (le_max_left 0 _), min_le_left 1 _⟩

theorem mem_selectTier {tier : Tier} (h : selectTier sources = some tier) :
    ∃ e ∈ sources, e.tier = tier := by
  induction sources generalizing tier with
  | nil => cases h
  | cons e rest ih =>
    rw [selectTier] at h
    split at h
    · cases h
      exact ⟨e, List.mem_cons_self, rfl⟩
    · next best hbest =>
      split at h
      · cases h
        obtain ⟨x, hx, hxt⟩ := ih hbest
        exact ⟨x, List.mem_cons_of_mem e hx, hxt⟩
      · cases h
        exact ⟨e, List.mem_cons_self, rfl⟩

theorem tierError_canonicalTier {tier : Tier} (h : tierError tier = none) :
    tierError (canonicalTier u tier) = none := by
  cases tier with
  | std t => rfl
  | layer name =>
    rw [canonicalTier]
    split
    · rfl
    · split
      · rfl
      · exact h

theorem normalizeAgentScope_private (hlower : u.lower "private" = "private") :
    normalizeAgentScope u "private" = .ok "private" := by
  have hstrip : strip "private" = "private" := by decide +kernel
  rw [normalizeAgentScope, hstrip, hlower, if_neg (by decide), if_pos (by decide)]

/-- Of valid sources only the scope `mission` makes a merged entry that is not valid. -/
theorem mergedDraft_valid_iff (hlower : u.lower "private" = "private")
    (hsources : ∀ e ∈ sources, Valid u e) (hlength : MIN_CONSOLIDATION_ENTRIES ≤ sources.length)
    (hnewest : newest ∈ sources) {tier : Tier} (htier : selectTier sources = some tier)
    (now : Stamp) :
    Valid u (mergedDraft u t sources newest tier now) ↔ newest.scope ≠ .mission := by
  have hrules := fun e he => valid_rules (hsources e he)
  have hkey : keyError u (generateConsolidatedKey u t.digest sources) = none := by
    rw [keyError, if_pos generateConsolidatedKey_slug]
  have hvalue : valueError (mergeValues t.sentences sources) = none :=
    valueError_mergeValues (List.ne_nil_of_mem hnewest) (fun e he => (hrules e he).1)
  have htiers : tierError tier = none := by
    obtain ⟨e, he, rfl⟩ := mem_selectTier htier
    exact (hrules e he).2.1
  have htags : tagsError u (mergeTags u sources) = none :=
    tagsError_mergeTags (fun e he => (hrules e he).2.2.1)
  obtain ⟨hlow, hhigh⟩ := calculateWeightedConfidence_range (t := t) hlength
  have hrange : rangeError (calculateWeightedConfidence t.decayed sources) = none := by
    rw [rangeError, if_neg (not_lt.2 (by linarith)), if_neg (not_lt.2 hhigh)]
  have hconfidence : confidenceError (calculateWeightedConfidence t.decayed sources) = none := by
    rw [confidenceError, if_neg (fun h => absurd h.1 (not_lt.2 hlow))]
  have hagent : errorOf (normalizeAgentScope u "private") = none := by
    rw [normalizeAgentScope_private hlower, errorOf]
  have hgroup := (hrules newest hnewest).2.2.2.1
  have hscope : scopeError (mergedDraft u t sources newest tier now) = none ↔
      newest.scope ≠ .mission := by
    have hown := (hrules newest hnewest).2.2.2.2
    have hbranch : (newest.scope = .branch && isEmpty newest.branch) = false := by
      rw [scopeError] at hown
      split at hown
      · cases hown
      · next hno => exact Bool.eq_false_iff.2 hno
    have hdraft : scopeError (mergedDraft u t sources newest tier now) =
        if newest.scope = .branch && isEmpty newest.branch then
          some "Branch name is required when scope is 'branch'."
        else if newest.scope = .mission && isEmpty none then
          some "mission_id is required when scope is 'mission'."
        else none := rfl
    rw [hdraft, hbranch]
    cases newest.scope <;> simp [isEmpty]
  rw [valid_iff]
  simp only [fieldErrors, modelErrors, List.cons_append, List.nil_append, List.forall_mem_cons,
    reported_eq_none, ← hscope]
  constructor
  · rintro ⟨_, _, _, _, _, _, _, _, _, _, _, _, _, h, _⟩
    exact h
  · intro h
    exact ⟨hkey, hvalue, htiers, hrange, htags, hagent, hgroup, rfl, rfl, rfl, rfl, rfl,
      hconfidence, h, rfl, rfl, fun _ h => by cases h⟩

theorem latestBy_isSome {stamp : MemoryEntry → Stamp} (h : sources ≠ []) :
    ∃ e, latestBy stamp sources = some e := by
  cases sources with
  | nil => exact absurd rfl h
  | cons e rest =>
    rw [latestBy]
    split
    · exact ⟨e, rfl⟩
    · split
      · exact ⟨_, rfl⟩
      · exact ⟨e, rfl⟩

theorem selectTier_isSome (h : sources ≠ []) : ∃ tier, selectTier sources = some tier := by
  cases sources with
  | nil => exact absurd rfl h
  | cons e rest =>
    rw [selectTier]
    split
    · exact ⟨_, rfl⟩
    · split <;> exact ⟨_, rfl⟩

/-- Two or more valid sources are consolidated, unless the newest is of a mission. -/
theorem consolidateValidated_ok (hlower : u.lower "private" = "private")
    (hsources : ∀ e ∈ sources, Valid u e) (hlength : MIN_CONSOLIDATION_ENTRIES ≤ sources.length)
    (hnewest : latestBy (·.updatedAt) sources = some newest) (hscope : newest.scope ≠ .mission)
    (now : Stamp) : ∃ tier, selectTier sources = some tier ∧ consolidateValidated u t sources now =
      .ok ((mergedDraft u t sources newest tier now).normalised u) ∧
      Valid u (mergedDraft u t sources newest tier now) := by
  have hmem := mem_latestBy hnewest
  obtain ⟨tier, htier⟩ := selectTier_isSome (List.ne_nil_of_mem hmem)
  have hvalid := (mergedDraft_valid_iff (t := t) hlower hsources hlength hmem htier now).2 hscope
  refine ⟨tier, htier, ?_, hvalid⟩
  rw [consolidateValidated, hnewest, htier]
  dsimp only
  rw [if_neg (not_lt.2 hlength), validate_of_valid hvalid]

theorem consolidateValidated_few (h : sources.length < MIN_CONSOLIDATION_ENTRIES) (now : Stamp) :
    consolidateValidated u t sources now =
      .error (.valueError s!"Need at least 2 entries to consolidate, got {sources.length}") := by
  rw [consolidateValidated]
  split
  · rw [if_pos h]
  · rfl

theorem consolidateValidated_mission (hlower : u.lower "private" = "private")
    (hsources : ∀ e ∈ sources, Valid u e) (hlength : MIN_CONSOLIDATION_ENTRIES ≤ sources.length)
    (hnewest : latestBy (·.updatedAt) sources = some newest) (h : newest.scope = .mission)
    (now : Stamp) :
    ∃ msg, consolidateValidated u t sources now = .error (.validationError msg) := by
  have hmem := mem_latestBy hnewest
  obtain ⟨tier, htier⟩ := selectTier_isSome (List.ne_nil_of_mem hmem)
  rw [consolidateValidated, hnewest, htier]
  dsimp only
  rw [if_neg (not_lt.2 hlength)]
  cases hv : (mergedDraft u t sources newest tier now).validate u with
  | error msg => exact ⟨msg, rfl⟩
  | ok e =>
    have hvalid := (mergedDraft_valid_iff hlower hsources hlength hmem htier now).1
      (validate_ok hv).1
    exact absurd h hvalid

theorem normalizeGroupField_ok {g : Option String} (h : errorOf (normalizeGroupField g) = none) :
    normalizeGroupField ((normalizeGroupField g).toOption.getD g) =
      .ok ((normalizeGroupField g).toOption.getD g) := by
  cases hg : normalizeGroupField g with
  | error msg =>
    rw [hg] at h
    cases h
  | ok g' => exact normalizeGroupField_idem hg

/-- The entry `consolidate` returns is valid, and its group and confidence are settled. -/
theorem mergedDraft_normalised (hlower : u.lower "private" = "private")
    (hlength : MIN_CONSOLIDATION_ENTRIES ≤ sources.length) {tier : Tier} {now : Stamp}
    (h : Valid u (mergedDraft u t sources newest tier now)) :
    Valid u ((mergedDraft u t sources newest tier now).normalised u) ∧
      0 ≤ ((mergedDraft u t sources newest tier now).normalised u).confidence ∧
      normalizeGroupField ((mergedDraft u t sources newest tier now).normalised u).memoryGroup =
        .ok ((mergedDraft u t sources newest tier now).normalised u).memoryGroup := by
  have hconfidence : ((mergedDraft u t sources newest tier now).normalised u).confidence =
      (mergedDraft u t sources newest tier now).confidence :=
    if_neg (not_lt.2 (calculateWeightedConfidence_range hlength).1)
  have hagent : ((mergedDraft u t sources newest tier now).normalised u).agentScope =
      (mergedDraft u t sources newest tier now).agentScope := by
    have hnormal : ((mergedDraft u t sources newest tier now).normalised u).agentScope =
        (normalizeAgentScope u "private").toOption.getD "private" := rfl
    rw [hnormal, normalizeAgentScope_private hlower]
    rfl
  have hgroup := normalizeGroupField_ok (valid_rules h).2.2.2.1
  refine ⟨?_, ?_, hgroup⟩
  · rw [valid_iff] at h ⊢
    simp only [fieldErrors, modelErrors, List.cons_append, List.nil_append, List.forall_mem_cons,
      reported_eq_none, hconfidence, hagent] at h ⊢
    obtain ⟨hkey, hvalue, htier, hrange, htags, hprivate, _, hst, hdi, hpo, hne, hfa, hconf, hscope,
      hwindow, halias, _⟩ := h
    refine ⟨hkey, hvalue, tierError_canonicalTier htier, hrange, htags, hprivate, ?_, hst, hdi, hpo,
      hne, hfa, hconf, hscope, hwindow, halias, fun _ h => by cases h⟩
    have hsettled : normalizeGroupField
        ((mergedDraft u t sources newest tier now).normalised u).memoryGroup =
          .ok ((mergedDraft u t sources newest tier now).normalised u).memoryGroup := hgroup
    rw [hsettled, errorOf]
  · rw [hconfidence]
    exact (calculateWeightedConfidence_range hlength).1

end Fields

end TappsBrain
