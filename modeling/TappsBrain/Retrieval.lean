import Mathlib
import TappsBrain.PointInTime
import TappsBrain.SaveAtomicity

namespace TappsBrain
open Lib
set_option autoImplicit true
set_option relaxedAutoImplicit false

/-- Hard filters on the candidate pool. -/
structure MemoryFilter where
  tier : Option String := none
  memoryClass : Option MemoryClass := none
  tags : List String := []
  tagsAny : List String := []
  memoryGroup : Option String := none
  minConfidence : Option ℚ := none

/-- The arguments of `MemoryRetriever.search`, with relative times expanded. -/
structure RetrievalRequest where
  query : String
  limit : Int := 10
  includeContradicted : Bool := false
  includeSources : Bool := false
  minConfidence : ℚ := 1 / 10
  asOf : Option Stamp := none
  includeSuperseded : Bool := false
  includeHistorical : Bool := false
  includeStale : Bool := false
  memoryGroup : Option String := none
  since : Option Stamp := none
  before : Option Stamp := none
  timeField : TimeField := .createdAt
  memoryFilter : Option MemoryFilter := none

def MAX_RESULTS : Nat := 50

namespace RetrievalRequest

/-- `include_superseded`, with its alias. -/
def superseded (q : RetrievalRequest) : Bool := q.includeSuperseded || q.includeHistorical

/-- `include_contradicted_for_candidates`. -/
def contradictedForCandidates (q : RetrievalRequest) : Bool :=
  q.includeContradicted || q.includeSources

def effectiveGroup (q : RetrievalRequest) : Option String :=
  (q.memoryFilter.bind (·.memoryGroup)).or q.memoryGroup

def resultLimit (q : RetrievalRequest) : Nat := (max 1 (min q.limit MAX_RESULTS)).toNat

/-- The arguments the full-text search of the store is called with. -/
def searchRequest (q : RetrievalRequest) (query : String) (includeStale : Bool) :
    SearchRequest where
  query
  memoryGroup := q.effectiveGroup
  asOf := q.asOf
  includeHistorical := q.superseded
  since := q.since
  before := q.before
  timeField := q.timeField
  includeContradicted := q.contradictedForCandidates
  includeStale

/-- `since` and `until` on the time field of an entry. -/
def inWindow (q : RetrievalRequest) (e : MemoryEntry) : Bool :=
  q.since.all (fun t => t ≤ q.timeField.read e) && q.before.all (fun t => q.timeField.read e < t)

def inGroup (q : RetrievalRequest) (e : MemoryEntry) : Bool :=
  q.effectiveGroup.isNone || e.memoryGroup = q.effectiveGroup

end RetrievalRequest

/-- A retriever without a reranker, its settings and what it takes from its libraries. -/
structure MemoryRetriever where
  index : TextIndex
  /-- The BM25 score of an entry in a corpus. -/
  bm25 : List MemoryEntry → String → MemoryEntry → ℚ
  wordOverlapScore : String → MemoryEntry → ℚ
  /-- `_expand_query_via_relations`, where it is switched on. -/
  expandQuery : Store → String → String
  /-- `calculate_decayed_confidence`. -/
  decayedConfidence : Stamp → MemoryEntry → ℚ
  /-- `_vector_search`, its keys from the best on. -/
  vectorSearch : RetrievalRequest → String → Store → List String
  /-- `_build_scored_memory_item`, from the least and the greatest relevance on. -/
  composite : Option (ℚ × ℚ) → Scored → ℚ → Bool → ℚ
  topKLexical : Nat := 20
  rrfK : Nat := 60
  rrfWeights : String → ℚ × ℚ := fun _ => (1, 1)
  blockSensitiveTags : List String := []

/-- `_is_consolidated_source`. -/
def isConsolidatedSource (u : Unicode) (e : MemoryEntry) : Bool :=
  e.contradicted &&
    decide ("consolidated into".toList <:+: (u.lower (e.contradictionReason.getD "")).toList)

/-- `_EXCLUDED_LIFECYCLE_STATUSES`. -/
def excludedLifecycleStatus : MemoryStatus → Bool
  | .stale | .superseded | .archived => true
  | _ => false

/-- `sorted(..., reverse=True)` by score. -/
def higherScore (a b : Scored) : Prop := b.score ≤ a.score

instance : DecidableRel higherScore := fun _ _ => inferInstanceAs (Decidable (_ ≤ _))

/-- The term of one ranked list in a fused score; a repeated key keeps its best rank. -/
def rankTerm (weight : ℚ) (k : Nat) (ranked : List String) (key : String) : ℚ :=
  if key ∈ ranked then weight / (k + (ranked.eraseDups.idxOf key + 1)) else 0

/-- Greater scores first, ties by key. -/
def fusedHigher (a b : String × ℚ) : Prop := b.2 < a.2 ∨ a.2 = b.2 ∧ a.1 ≤ b.1

instance : DecidableRel fusedHigher := fun _ _ => inferInstanceAs (Decidable (_ ∨ _))

/-- `reciprocal_rank_fusion_weighted`. -/
def reciprocalRankFusionWeighted (bm25 vector : List String) (weights : ℚ × ℚ) (k : Nat) :
    List (String × ℚ) :=
  let fused := (bm25 ++ vector).eraseDups.map (fun key =>
    (key, rankTerm weights.1 k bm25 key + rankTerm weights.2 k vector key))
  fused.insertionSort fusedHigher

namespace MemoryRetriever
variable (r : MemoryRetriever) (w : World) (q : RetrievalRequest) (now : Stamp) (s : Store)

/-- The store once `list_all` has hydrated it. -/
def listed : Store := (mergeDurableEntries w false).final s

/-- `list_all`. -/
def listAll (includeSuperseded : Bool) : List MemoryEntry :=
  (listed w s).entries.values.filter (fun e =>
    q.inGroup e && (includeSuperseded || isTemporallyValid now none e))

/-- `_bm25_score_entries`. -/
def bm25ScoreEntries (query : String) (found : List MemoryEntry) : List Scored :=
  let corpus := (listed w s).entries.values
  found.map (fun e =>
    ⟨e, if (listed w s).entries.contains e.key then r.bm25 corpus query e
      else r.wordOverlapScore query e⟩)

/-- `_entry_matches_temporal_window`. -/
def matchesTemporalWindow (e : MemoryEntry) : Bool :=
  (q.superseded || isTemporallyValid now q.asOf e) && q.inWindow e

/-- `_bm25_full_scan`. -/
def bm25FullScan (query : String) : List Scored :=
  let corpus := (listAll w q now s q.superseded).filter (fun e =>
    (q.contradictedForCandidates || !e.contradicted) &&
      ((q.superseded && q.asOf.isNone && q.since.isNone && q.before.isNone) ||
        matchesTemporalWindow q now e))
  (corpus.map (fun e => ⟨e, r.bm25 corpus query e⟩)).filter (fun c => 0 < c.score)

/-- `_get_candidates`: a search that finds nothing or raises gives way to the scan. -/
def getCandidates (query : String) (includeStale : Bool) : List Scored :=
  match searchRows w.toConfig r.index (q.searchRequest query includeStale) now s.rows.values with
  | .ok (e :: rest) => bm25ScoreEntries r w s query (e :: rest)
  | _ => bm25FullScan r w q now s query

/-- `entry_by_key` of the hybrid path: listed, or hydrated on its own. -/
def entryByKey (key : String) : Option MemoryEntry :=
  (((listed w s).entries.get? key).filter q.inGroup).or (held w.toConfig (listed w s) key)

/-- One fused key with its relevance, unless its entry is filtered out. -/
def fusedCandidate (maxRrf : ℚ) (f : String × ℚ) : Option Scored :=
  ((entryByKey w q s f.1).filter (fun e =>
    (q.contradictedForCandidates || !e.contradicted) && q.inGroup e)).map
    (fun e => ⟨e, if 0 < maxRrf then f.2 / maxRrf else 0⟩)

/-- `_get_hybrid_candidates`. The lexical call goes without `include_stale`. -/
def getHybridCandidates (query : String) : List Scored :=
  let bm25Candidates := getCandidates r w q now s query false
  let bm25Keys := ((bm25Candidates.insertionSort higherScore).take r.topKLexical).map (·.entry.key)
  match reciprocalRankFusionWeighted bm25Keys (r.vectorSearch q query s) (r.rrfWeights query)
      r.rrfK with
  | [] => bm25Candidates
  | best :: rest => (best :: rest).filterMap (fusedCandidate w q s best.2)

end MemoryRetriever

/-- One entry against `_apply_filters`. -/
def MemoryFilter.admits (r : MemoryRetriever) (now : Stamp) (f : MemoryFilter) (e : MemoryEntry) :
    Bool :=
  f.tier.all (fun t => e.tier.text = t) &&
    (f.memoryClass.isNone || e.memoryClass = f.memoryClass) &&
    (f.tags.isEmpty || f.tags.all e.tags.contains) &&
    (f.tagsAny.isEmpty || f.tagsAny.any e.tags.contains) &&
    (f.memoryGroup.isNone || e.memoryGroup = f.memoryGroup) &&
    f.minConfidence.all (fun t => t ≤ r.decayedConfidence now e)

namespace MemoryRetriever
variable (r : MemoryRetriever) (w : World) (q : RetrievalRequest) (now : Stamp) (s : Store)

/-- `_filter_time_window`. -/
def filterTimeWindow (candidates : List Scored) : List Scored :=
  candidates.filter (fun c => q.inWindow c.entry)

/-- The structured filter of `search`, which goes by the keys of what `_apply_filters` keeps. -/
def filterByMemoryFilter (candidates : List Scored) : List Scored :=
  match q.memoryFilter with
  | none => candidates
  | some f =>
    let filtered := (candidates.map (·.entry)).filter (f.admits r now)
    candidates.filter (fun c => (filtered.map (·.key)).contains c.entry.key)

/-- One candidate against `_filter_candidates_to_pending`. -/
def isPending (c : Config) (e : MemoryEntry) : Bool :=
  (q.includeSources || !isConsolidatedSource c.unicode e) &&
    (q.includeStale || !excludedLifecycleStatus e.status) &&
    (!e.contradicted || q.includeContradicted ||
      (q.includeSources && isConsolidatedSource c.unicode e)) &&
    (isTemporallyValid now q.asOf e || q.superseded) &&
    q.minConfidence ≤ r.decayedConfidence now e

def minMax (scores : List ℚ) : Option (ℚ × ℚ) :=
  match scores with
  | [] => none
  | x :: rest => some (rest.foldl min x, rest.foldl max x)

/-- The scored results, without those a policy tag blocks, from the best on. -/
def rankPending (pending : List Scored) : List Scored :=
  let bounds := minMax (pending.map (·.score))
  let scored := pending.map (fun c =>
    (⟨c.entry, r.composite bounds c (r.decayedConfidence now c.entry)
      (isTemporallyValid now q.asOf c.entry)⟩ : Scored))
  let allowed := scored.filter (fun c => !r.blockSensitiveTags.any c.entry.tags.contains)
  allowed.insertionSort higherScore

/-- `search`, with or without the vector channel. -/
def search (semanticEnabled : Bool) : List Scored :=
  if isBlank q.query then []
  else
    let query := r.expandQuery s q.query
    let candidates :=
      if semanticEnabled then getHybridCandidates r w q now s query
      else getCandidates r w q now s query q.includeStale
    let pending := (filterByMemoryFilter r q now (filterTimeWindow q candidates)).filter
      (fun c => isPending r q now w.toConfig c.entry)
    (rankPending r q now pending).take q.resultLimit

end MemoryRetriever

section Candidates
variable {r : MemoryRetriever} {w : World} {q : RetrievalRequest} {now : Stamp} {s : Store}
  {query : String}

/-- One entry against every filter of `search` behind the candidates. -/
def MemoryRetriever.passes (r : MemoryRetriever) (c : Config) (q : RetrievalRequest) (now : Stamp)
    (e : MemoryEntry) : Bool :=
  q.inWindow e && q.memoryFilter.all (fun f => f.admits r now e) && r.isPending q now c e &&
    !r.blockSensitiveTags.any e.tags.contains

/-- One entry against the filters that only the hybrid path has. -/
def RetrievalRequest.survives (q : RetrievalRequest) (e : MemoryEntry) : Bool :=
  (q.contradictedForCandidates || !e.contradicted) && q.inGroup e

theorem listed_untouched (w : World) (s : Store) :
    Untouched w.toConfig anyKey s (MemoryRetriever.listed w s) := by
  have h := ((Untouched.discipline w anyKey s).mergeDurableEntries false) s (Untouched.refl s)
  rw [MemoryRetriever.listed, Prog.final]
  rcases hr : mergeDurableEntries w false s with ⟨err | _, t⟩
  · rw [hr] at h
    exact h
  · rw [hr] at h
    exact h.1

/-- The hybrid path reads back what the store holds. -/
theorem entryByKey_eq (key : String) :
    MemoryRetriever.entryByKey w q s key = held w.toConfig s key := by
  have hheld : held w.toConfig (MemoryRetriever.listed w s) key = held w.toConfig s key :=
    (listed_untouched w s).held_eq trivial
  rw [MemoryRetriever.entryByKey, hheld]
  cases hcached : ((MemoryRetriever.listed w s).entries.get? key).filter q.inGroup with
  | none => rfl
  | some e =>
    rw [Option.filter_eq_some_iff] at hcached
    rw [← hheld, held, hcached.1]
    rfl

theorem mem_fusion {keys : List String} {weights : ℚ × ℚ} {k : Nat} {key : String} :
    (∃ score, (key, score) ∈ reciprocalRankFusionWeighted keys [] weights k) ↔ key ∈ keys := by
  rw [reciprocalRankFusionWeighted]
  simp only [List.mem_insertionSort, List.append_nil, List.mem_map, List.mem_eraseDups,
    Prod.mk.injEq]
  constructor
  · rintro ⟨score, _, hkey, rfl, -⟩
    exact hkey
  · intro h
    exact ⟨_, key, h, rfl, rfl⟩

/-- Without a vector channel, the hybrid path offers what the store holds for the keys that the
lexical call found. -/
theorem mem_hybrid (hvector : r.vectorSearch q query s = [])
    (htop : (r.getCandidates w q now s query false).length ≤ r.topKLexical) {e : MemoryEntry} :
    (∃ c ∈ r.getHybridCandidates w q now s query, c.entry = e) ↔
      ∃ c ∈ r.getCandidates w q now s query false,
        held w.toConfig s c.entry.key = some e ∧ q.survives e = true := by
  have hkeys (key : String) : (∃ score, (key, score) ∈ reciprocalRankFusionWeighted
      ((((r.getCandidates w q now s query false).insertionSort higherScore).take
        r.topKLexical).map (·.entry.key)) [] (r.rrfWeights query) r.rrfK) ↔
      ∃ c ∈ r.getCandidates w q now s query false, c.entry.key = key := by
    rw [mem_fusion, List.take_of_length_le (by rwa [List.length_insertionSort]), List.mem_map]
    simp only [List.mem_insertionSort]
  rw [MemoryRetriever.getHybridCandidates, hvector]
  split
  · next hnil =>
    -- No key was fused, so there was no candidate.
    have hnone : ∀ c ∈ r.getCandidates w q now s query false, False := by
      intro c hc
      obtain ⟨score, hmem⟩ := (hkeys c.entry.key).2 ⟨c, hc, rfl⟩
      rw [hnil] at hmem
      cases hmem
    constructor
    · rintro ⟨c, hc, -⟩
      exact (hnone c hc).elim
    · rintro ⟨c, hc, -⟩
      exact (hnone c hc).elim
  · next best rest hfused =>
    rw [hfused] at hkeys
    constructor
    · rintro ⟨c, hc, rfl⟩
      obtain ⟨⟨key, score⟩, hmem, hcand⟩ := List.mem_filterMap.1 hc
      obtain ⟨e, he, rfl⟩ := Option.map_eq_some_iff.1 hcand
      rw [Option.filter_eq_some_iff, entryByKey_eq] at he
      obtain ⟨c, hc, hk⟩ := (hkeys key).1 ⟨score, hmem⟩
      exact ⟨c, hc, hk ▸ he.1, he.2⟩
    · rintro ⟨c, hc, hheld, hsurvives⟩
      obtain ⟨score, hmem⟩ := (hkeys c.entry.key).2 ⟨c, hc, rfl⟩
      refine ⟨_, List.mem_filterMap.2 ⟨_, hmem, Option.map_eq_some_iff.2 ⟨e, ?_, rfl⟩⟩, rfl⟩
      rw [Option.filter_eq_some_iff, entryByKey_eq]
      exact ⟨hheld, hsurvives⟩

/-- A key stands for one entry. -/
def SameByKey (candidates : List Scored) : Prop :=
  ∀ a ∈ candidates, ∀ b ∈ candidates, a.entry.key = b.entry.key → a.entry = b.entry

theorem sameByKey_map {found : List MemoryEntry} {f : MemoryEntry → Scored}
    (hf : ∀ e, (f e).entry = e) (h : ∀ a ∈ found, ∀ b ∈ found, a.key = b.key → a = b) :
    SameByKey (found.map f) := by
  intro a ha b hb hkey
  obtain ⟨x, hx, rfl⟩ := List.mem_map.1 ha
  obtain ⟨y, hy, rfl⟩ := List.mem_map.1 hb
  rw [hf, hf] at hkey ⊢
  exact h x hx y hy hkey

/-- What a search finds is read from a stored row, and passes its filter. -/
theorem searchRows_read {c : Config} {x : TextIndex} {sq : SearchRequest}
    {rows found : List MemoryEntry} (h : searchRows c x sq now rows = .ok found) {e : MemoryEntry}
    (he : e ∈ found) :
    ∃ row ∈ rows, rowToEntry c row = .ok e ∧ searchFilter sq now e = true := by
  simp only [searchRows] at h
  split at h
  · cases h
  split at h
  · cases h
  · next entries hentries =>
    cases h
    obtain ⟨hmem, hfilter⟩ := List.mem_filter.1 he
    obtain ⟨row, hrow, hread⟩ := rowsToEntries_mem hentries hmem
    refine ⟨row, ?_, hread, hfilter⟩
    rcases mem_combineBranches hrow with hf | hn
    · obtain ⟨found, hfound, rfl⟩ := List.mem_map.1 hf
      exact (mem_ftsSearch hfound).2.1
    · obtain ⟨near, hnear, rfl⟩ := List.mem_map.1 hn
      rw [vectorBranch] at hnear
      split at hnear
      · exact (mem_knnSearch hnear).2.1
      · cases hnear

theorem searchRows_sameByKey {c : Config} {x : TextIndex} {sq : SearchRequest}
    {found : List MemoryEntry} (h : searchRows c x sq now s.rows.values = .ok found) :
    ∀ a ∈ found, ∀ b ∈ found, a.key = b.key → a = b := by
  intro a ha b hb hkey
  obtain ⟨row, hrow, hread, -⟩ := searchRows_read h ha
  obtain ⟨row', hrow', hread', -⟩ := searchRows_read h hb
  have hloaded := loaded_eq_some hrow hread
  rw [hkey, loaded_eq_some hrow' hread'] at hloaded
  exact (Option.some.inj hloaded).symm

theorem getCandidates_sameByKey (includeStale : Bool) :
    SameByKey (r.getCandidates w q now s query includeStale) := by
  rw [MemoryRetriever.getCandidates]
  split
  · next e rest hsearch => exact sameByKey_map (fun _ => rfl) (searchRows_sameByKey hsearch)
  · intro a ha b hb hkey
    have hlisted : ∀ c ∈ r.bm25FullScan w q now s query,
        c.entry ∈ (MemoryRetriever.listed w s).entries.values := by
      intro c hc
      obtain ⟨e, he, rfl⟩ := List.mem_map.1 (List.mem_of_mem_filter hc)
      exact List.mem_of_mem_filter (List.mem_of_mem_filter he)
    have hsame : some a.entry = some b.entry := by
      rw [← Table.get?_of_mem (hlisted a ha), ← Table.get?_of_mem (hlisted b hb), hkey]
    exact Option.some.inj hsame

theorem getHybridCandidates_sameByKey (hvector : r.vectorSearch q query s = [])
    (htop : (r.getCandidates w q now s query false).length ≤ r.topKLexical) :
    SameByKey (r.getHybridCandidates w q now s query) := by
  intro a ha b hb hkey
  obtain ⟨c, -, hc, -⟩ := (mem_hybrid hvector htop).1 ⟨a, ha, rfl⟩
  obtain ⟨d, -, hd, -⟩ := (mem_hybrid hvector htop).1 ⟨b, hb, rfl⟩
  rw [← held_key hc, hkey, held_key hd, hd] at hc
  exact (Option.some.inj hc).symm

theorem mem_filterByMemoryFilter {candidates : List Scored} (h : SameByKey candidates)
    {c : Scored} : c ∈ r.filterByMemoryFilter q now candidates ↔
      c ∈ candidates ∧ q.memoryFilter.all (fun f => f.admits r now c.entry) = true := by
  rw [MemoryRetriever.filterByMemoryFilter]
  cases q.memoryFilter with
  | none => simp
  | some f =>
    simp only [List.mem_filter, List.contains_iff_mem, List.mem_map, Option.all_some]
    apply and_congr_right
    intro hc
    constructor
    · rintro ⟨e, ⟨⟨d, hd, rfl⟩, hadmits⟩, hkey⟩
      rwa [← h d hd c hc hkey]
    · intro hadmits
      exact ⟨c.entry, ⟨⟨c, hc, rfl⟩, hadmits⟩, rfl⟩

theorem SameByKey.filterTimeWindow {candidates : List Scored} (h : SameByKey candidates) :
    SameByKey (MemoryRetriever.filterTimeWindow q candidates) :=
  fun a ha b hb => h a (List.mem_of_mem_filter ha) b (List.mem_of_mem_filter hb)

theorem filterByMemoryFilter_length (candidates : List Scored) :
    (r.filterByMemoryFilter q now candidates).length ≤ candidates.length := by
  rw [MemoryRetriever.filterByMemoryFilter]
  split
  · exact le_refl _
  · exact List.length_filter_le _ _

theorem rankPending_length (pending : List Scored) :
    (r.rankPending q now pending).length ≤ pending.length := by
  rw [MemoryRetriever.rankPending, List.length_insertionSort]
  exact (List.length_filter_le _ _).trans (List.length_map _).le

theorem mem_rankPending {pending : List Scored} {e : MemoryEntry} :
    (∃ c ∈ r.rankPending q now pending, c.entry = e) ↔
      (∃ c ∈ pending, c.entry = e) ∧ r.blockSensitiveTags.any e.tags.contains = false := by
  simp only [MemoryRetriever.rankPending, List.mem_insertionSort, List.mem_filter, List.mem_map,
    Bool.not_eq_true']
  constructor
  · rintro ⟨_, ⟨⟨c, hc, rfl⟩, hblocked⟩, rfl⟩
    exact ⟨⟨c, hc, rfl⟩, hblocked⟩
  · rintro ⟨⟨c, hc, rfl⟩, hblocked⟩
    exact ⟨_, ⟨⟨c, hc, rfl⟩, hblocked⟩, rfl⟩

/-- What `search` makes of the candidates of either path. -/
def MemoryRetriever.answer (r : MemoryRetriever) (c : Config) (q : RetrievalRequest) (now : Stamp)
    (candidates : List Scored) : List Scored :=
  (r.rankPending q now ((r.filterByMemoryFilter q now
    (MemoryRetriever.filterTimeWindow q candidates)).filter
      (fun a => r.isPending q now c a.entry))).take q.resultLimit

theorem search_eq (semantic : Bool) (hblank : isBlank q.query = false) :
    r.search w q now s semantic = r.answer w.toConfig q now
      (if semantic then r.getHybridCandidates w q now s (r.expandQuery s q.query)
        else r.getCandidates w q now s (r.expandQuery s q.query) q.includeStale) := by
  rw [MemoryRetriever.search, hblank]
  rfl

/-- With room for every candidate, the entries answered are those that pass. -/
theorem mem_answer {c : Config} {candidates : List Scored} (hsame : SameByKey candidates)
    (hroom : candidates.length ≤ q.resultLimit) {e : MemoryEntry} :
    (∃ a ∈ r.answer c q now candidates, a.entry = e) ↔
      (∃ a ∈ candidates, a.entry = e) ∧ r.passes c q now e = true := by
  have hlength : (r.rankPending q now ((r.filterByMemoryFilter q now
      (MemoryRetriever.filterTimeWindow q candidates)).filter
        (fun a => r.isPending q now c a.entry))).length ≤ q.resultLimit :=
    calc _ ≤ _ := rankPending_length _
      _ ≤ _ := List.length_filter_le _ _
      _ ≤ _ := filterByMemoryFilter_length _
      _ ≤ _ := List.length_filter_le _ _
      _ ≤ _ := hroom
  rw [MemoryRetriever.answer, List.take_of_length_le hlength, mem_rankPending]
  simp only [List.mem_filter, mem_filterByMemoryFilter hsame.filterTimeWindow]
  simp only [MemoryRetriever.filterTimeWindow, List.mem_filter, MemoryRetriever.passes,
    Bool.and_eq_true, Bool.not_eq_true']
  constructor
  · rintro ⟨⟨a, ⟨⟨⟨ha, hwindow⟩, hfilter⟩, hpending⟩, rfl⟩, hblocked⟩
    exact ⟨⟨a, ha, rfl⟩, ⟨⟨hwindow, hfilter⟩, hpending⟩, hblocked⟩
  · rintro ⟨⟨a, ha, rfl⟩, ⟨⟨hwindow, hfilter⟩, hpending⟩, hblocked⟩
    exact ⟨⟨a, ⟨⟨⟨ha, hwindow⟩, hfilter⟩, hpending⟩, rfl⟩, hblocked⟩

theorem key_mem_answer {c : Config} {candidates : List Scored} (hsame : SameByKey candidates)
    (hroom : candidates.length ≤ q.resultLimit) {key : String} :
    key ∈ (r.answer c q now candidates).map (·.entry.key) ↔
      ∃ a ∈ candidates, a.entry.key = key ∧ r.passes c q now a.entry = true := by
  rw [List.mem_map]
  constructor
  · rintro ⟨a, ha, rfl⟩
    obtain ⟨⟨b, hb, heq⟩, hpasses⟩ := (mem_answer hsame hroom).1 ⟨a, ha, rfl⟩
    exact ⟨b, hb, by rw [heq], by rwa [heq]⟩
  · rintro ⟨a, ha, rfl, hpasses⟩
    obtain ⟨b, hb, heq⟩ := (mem_answer hsame hroom).2 ⟨⟨a, ha, rfl⟩, hpasses⟩
    exact ⟨b, hb, by rw [heq]⟩

theorem key_mem_hybrid {c : Config} (hvector : r.vectorSearch q query s = [])
    (htop : (r.getCandidates w q now s query false).length ≤ r.topKLexical)
    (hroom : (r.getHybridCandidates w q now s query).length ≤ q.resultLimit) {key : String} :
    key ∈ (r.answer c q now (r.getHybridCandidates w q now s query)).map (·.entry.key) ↔
      ∃ b ∈ r.getCandidates w q now s query false, b.entry.key = key ∧
        ∃ e, held w.toConfig s key = some e ∧ q.survives e = true ∧ r.passes c q now e = true := by
  rw [key_mem_answer (getHybridCandidates_sameByKey hvector htop) hroom]
  constructor
  · rintro ⟨a, ha, rfl, hpasses⟩
    obtain ⟨b, hb, hheld, hsurvives⟩ := (mem_hybrid hvector htop).1 ⟨a, ha, rfl⟩
    have hkey := held_key hheld
    exact ⟨b, hb, hkey.symm, a.entry, hkey ▸ hheld, hsurvives, hpasses⟩
  · rintro ⟨b, hb, rfl, e, hheld, hsurvives, hpasses⟩
    obtain ⟨a, ha, rfl⟩ := (mem_hybrid hvector htop).2 ⟨b, hb, hheld, hsurvives⟩
    exact ⟨a, ha, held_key hheld, hpasses⟩

end Candidates

/-- The hybrid path reads the found rows as the lexical path does: a row that both calls find is
answered with an entry that passes exactly if the row does, a row found only with `include_stale`
does not pass, and neither does what the store holds for a row found only without it. -/
structure ReadsAlike (r : MemoryRetriever) (w : World) (q : RetrievalRequest) (now : Stamp)
    (s : Store) (forwarded bare : List Scored) : Prop where
  both : ∀ a ∈ forwarded, ∀ b ∈ bare, b.entry.key = a.entry.key →
    (r.passes w.toConfig q now a.entry = true ↔ ∃ e, held w.toConfig s a.entry.key = some e ∧
      q.survives e = true ∧ r.passes w.toConfig q now e = true)
  forwardedOnly : ∀ a ∈ forwarded, (∀ b ∈ bare, b.entry.key ≠ a.entry.key) →
    r.passes w.toConfig q now a.entry = false
  bareOnly : ∀ b ∈ bare, (∀ a ∈ forwarded, a.entry.key ≠ b.entry.key) →
    ∀ e, held w.toConfig s b.entry.key = some e → q.survives e = true →
      r.passes w.toConfig q now e = false

section Mirrored
variable {r : MemoryRetriever} {w : World} {q : RetrievalRequest} {now : Stamp} {s : Store}
  {query : String}

/-- What is cached is what its row says. -/
def Mirrored (c : Config) (s : Store) : Prop :=
  ∀ key e row, s.entries.get? key = some e → s.rows.get? key = some row → rowToEntry c row = .ok e

theorem Mirrored.held_of_row (h : Mirrored w.toConfig s) {row e : MemoryEntry}
    (hrow : row ∈ s.rows.values) (he : rowToEntry w.toConfig row = .ok e) :
    held w.toConfig s e.key = some e := by
  have hloaded := loaded_eq_some hrow he
  have hkey : e.key = row.key := by rw [(rowToEntry_ok he).2, normalised_key]
  rw [held, hloaded]
  cases hcached : s.entries.get? e.key with
  | none => rfl
  | some d =>
    have hd := h e.key d row hcached (by rw [hkey]; exact Table.get?_of_mem hrow)
    rw [he] at hd
    cases hd
    rfl

/-- In a mirrored store the hybrid path reads back what was found, and drops none of it. -/
theorem getCandidates_held (h : Mirrored w.toConfig s) {includeStale : Bool} {a : Scored}
    (ha : a ∈ r.getCandidates w q now s query includeStale) :
    held w.toConfig s a.entry.key = some a.entry ∧ q.survives a.entry = true := by
  rw [MemoryRetriever.getCandidates] at ha
  split at ha
  · next e rest hsearch =>
    obtain ⟨d, hd, rfl⟩ := List.mem_map.1 ha
    obtain ⟨row, hrow, hread, hfilter⟩ := searchRows_read hsearch hd
    refine ⟨h.held_of_row hrow hread, ?_⟩
    simp only [searchFilter, Bool.and_eq_true] at hfilter
    obtain ⟨⟨⟨⟨-, hgroup⟩, -⟩, -⟩, hcontradicted⟩ := hfilter
    rw [RetrievalRequest.survives, Bool.and_eq_true]
    exact ⟨hcontradicted, hgroup⟩
  · obtain ⟨d, hd, rfl⟩ := List.mem_map.1 (List.mem_of_mem_filter ha)
    obtain ⟨hlisted, hkept⟩ := List.mem_filter.1 hd
    obtain ⟨hentry, hshown⟩ := List.mem_filter.1 hlisted
    rw [Bool.and_eq_true] at hkept hshown
    constructor
    · have hheld : held w.toConfig (MemoryRetriever.listed w s) d.key = held w.toConfig s d.key :=
        (listed_untouched w s).held_eq trivial
      rw [← hheld, held, Table.get?_of_mem hentry, Option.some_or]
    · rw [RetrievalRequest.survives, Bool.and_eq_true]
      exact ⟨hkept.1, hshown.1⟩

/-- A point in time, or historical rows, make the stale rows a matter of the filters alone. -/
theorem getCandidates_stale (h : q.asOf.isSome = true ∨ q.superseded = true) :
    r.getCandidates w q now s query true = r.getCandidates w q now s query false := by
  have hclause (e : MemoryEntry) : temporalClause (q.searchRequest query true) now e =
      temporalClause (q.searchRequest query false) now e := by
    simp only [temporalClause, RetrievalRequest.searchRequest]
    rcases h with h | h
    · obtain ⟨t, ht⟩ := Option.isSome_iff_exists.1 h
      rw [ht]
    · rw [h, Bool.true_or, Bool.true_or]
  have hfts : searchClause (q.searchRequest query true) now =
      searchClause (q.searchRequest query false) now := by
    funext e
    rw [searchClause, hclause]
    rfl
  have hknn : knnClause (q.searchRequest query true) now =
      knnClause (q.searchRequest query false) now := by
    funext e
    rw [knnClause, hclause]
    rfl
  have hrows : searchRows w.toConfig r.index (q.searchRequest query true) now s.rows.values =
      searchRows w.toConfig r.index (q.searchRequest query false) now s.rows.values := by
    unfold searchRows ftsSearch vectorBranch knnSearch ftsPass
    rw [hfts, hknn]
    rfl
  rw [MemoryRetriever.getCandidates, MemoryRetriever.getCandidates, hrows]

/-- In a mirrored store, both paths answer with the same keys wherever `include_stale` is off or
without effect on the search. -/
theorem readsAlike_of_mirrored (h : Mirrored w.toConfig s)
    (hstale : q.includeStale = false ∨ q.asOf.isSome = true ∨ q.superseded = true) :
    ReadsAlike r w q now s (r.getCandidates w q now s query q.includeStale)
      (r.getCandidates w q now s query false) := by
  have hsame : r.getCandidates w q now s query q.includeStale =
      r.getCandidates w q now s query false := by
    cases hflag : q.includeStale with
    | false => rfl
    | true =>
      rw [hflag] at hstale
      exact getCandidates_stale (hstale.resolve_left nofun)
  rw [hsame]
  constructor
  · intro a ha b hb hkey
    obtain ⟨hheld, hsurvives⟩ := getCandidates_held h ha
    simp only [hheld, Option.some.injEq, exists_eq_left', hsurvives, true_and]
  · exact fun a ha hnone => absurd rfl (hnone a ha)
  · exact fun b hb hnone => absurd rfl (hnone b hb)

end Mirrored

/-- A retriever that scores everything alike, over an index that finds everything. -/
def evenRetriever : MemoryRetriever where
  index := .everything
  bm25 := fun _ _ _ => 1
  wordOverlapScore := fun _ _ => 1
  expandQuery := fun _ query => query
  decayedConfidence := fun _ e => e.confidence
  vectorSearch := fun _ _ _ => []
  composite := fun _ c _ _ => c.score

def shelfNote (key : String) (status : MemoryStatus) : MemoryEntry :=
  { key, value := "postgres 16", status, confidence := 6 / 10, createdAt := 1000, updatedAt := 1000
    lastAccessed := 1000 }

/-- A store that holds, cached and stored, one active and one stale note. -/
def shelf : Store :=
  let notes := (Table.empty.set (shelfNote "a" .active)).set (shelfNote "b" .stale)
  { entries := notes, rows := notes }

def staleToo : RetrievalRequest := { query := "postgres", includeStale := true }

end TappsBrain
