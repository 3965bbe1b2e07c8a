import TappsBrain.Retrieval

namespace TappsBrain
open Lib
set_option autoImplicit true
set_option relaxedAutoImplicit false

/-- The flags of `search` are left at their defaults. -/
structure RetrievalRequest.DefaultFlags (q : RetrievalRequest) : Prop where
  contradicted : q.includeContradicted = false
  sources : q.includeSources = false
  superseded : q.includeSuperseded = false
  historical : q.includeHistorical = false
  stale : q.includeStale = false
  asOf : q.asOf = none

/-- What `_vector_search` takes from the embedder and from pgvector. -/
structure DenseChannel where
  /-- The embedder is there and embeds the query. -/
  embeds : Bool
  /-- The query has the dimension of the column and `knn_search` does not raise. -/
  knnAnswers : Bool
  /-- The similarity of the query to an entry that is embedded on the fly. -/
  similarity : String → MemoryEntry → Option ℚ
  topKDense : Nat := 20

namespace MemoryRetriever
variable (r : MemoryRetriever) (d : DenseChannel) (w : World) (q : RetrievalRequest) (now : Stamp)
  (s : Store)

/-- `knn_search`: the nearest rows that pass the temporal clause. -/
def knnKeys (query : String) : List String :=
  let near := (s.rows.values.filter (temporalClause (q.searchRequest query q.includeStale) now)).filterMap
    (fun e => (r.index.distance query e.key).map (fun dist => (⟨e, -dist⟩ : Scored)))
  ((near.insertionSort scoredHigher).take d.topKDense).map (·.entry.key)

/-- The corpus that `_vector_search` embeds itself. -/
def denseCorpus (query : String) : List String :=
  let corpus := (listAll w q now s q.superseded).filter (fun e =>
    q.contradictedForCandidates || !e.contradicted)
  let scored := corpus.filterMap (fun e =>
    (d.similarity query e).map (fun sim => (⟨e, max 0 sim⟩ : Scored)))
  ((scored.insertionSort higherScore).take d.topKDense).map (·.entry.key)

/-- `_vector_search`: an answer without rows gives way to the corpus. -/
def denseSearch (query : String) : List String :=
  if !d.embeds then []
  else
    match if d.knnAnswers then knnKeys r d q now s query else [] with
    | [] => denseCorpus d w q now s query
    | key :: rest => (key :: rest).filter (fun k =>
        q.effectiveGroup.isNone || (held w.toConfig s k).any q.inGroup)

/-- The retriever whose dense channel is this one, at this instant. -/
def withDense : MemoryRetriever :=
  { r with vectorSearch := fun q query s => denseSearch r d w q now s query }

/-- `_like_search`. -/
def likeSearch (query : String) : List Scored :=
  let corpus := (listAll w q now s q.superseded).filter (fun e =>
    (q.contradictedForCandidates || !e.contradicted) &&
      ((q.superseded && q.asOf.isNone && q.since.isNone && q.before.isNone) ||
        matchesTemporalWindow q now e))
  (corpus.map (fun e => ⟨e, r.wordOverlapScore query e⟩)).filter (fun c => 0 < c.score)

/-- The word-overlap fallback is the scan of a retriever that scores by word overlap. -/
theorem likeSearch_eq (query : String) :
    likeSearch r w q now s query =
      bm25FullScan { r with bm25 := fun _ => r.wordOverlapScore } w q now s query := rfl

end MemoryRetriever

/-- The entry satisfies the live-row predicate of the SQL, and is not contradicted. -/
def MemoryEntry.answerable (now : Stamp) (e : MemoryEntry) : Bool :=
  liveRowPredicate false now e && !e.contradicted

/-- What the filters of `search` let through although the predicate of the SQL drops it. -/
def MemoryEntry.evades (now : Stamp) (e : MemoryEntry) : Bool :=
  isTemporallyValid now none e && !e.contradicted &&
    (e.status = .contradicted || e.status = .active && e.supersededBy.isSome)

/-- Every search with default flags, through whatever channel, answers with live rows only. -/
def AnswersLive (w : World) (now : Stamp) (s : Store) : Prop :=
  ∀ (r : MemoryRetriever) (d : DenseChannel) (q : RetrievalRequest) (semantic : Bool),
    q.DefaultFlags → ∀ a ∈ (r.withDense d w now).search w q now s semantic,
      a.entry.answerable now = true

section Filters
variable {r : MemoryRetriever} {c : Config} {q : RetrievalRequest} {now : Stamp} {e : MemoryEntry}

namespace RetrievalRequest.DefaultFlags

theorem superseded_eq (h : q.DefaultFlags) : q.superseded = false := by
  rw [RetrievalRequest.superseded, h.superseded, h.historical, Bool.or_false]

/-- The temporal clause of the SQL is the live-row predicate. -/
theorem temporalClause_eq (h : q.DefaultFlags) (query : String) :
    temporalClause (q.searchRequest query false) now e = liveRowPredicate false now e := by
  rw [temporalClause, RetrievalRequest.searchRequest, h.asOf]
  dsimp only
  rw [h.superseded_eq, Bool.false_or]

/-- What is pending is answerable, or evades the SQL. -/
theorem pending (h : q.DefaultFlags) (hp : r.isPending q now c e = true) :
    e.answerable now = true ∨ e.evades now = true := by
  simp only [MemoryRetriever.isPending, h.contradicted, h.sources, h.stale, h.asOf,
    h.superseded_eq, Bool.false_or, Bool.or_false, Bool.false_and, Bool.and_eq_true,
    Bool.not_eq_true', decide_eq_true_eq] at hp
  obtain ⟨⟨⟨⟨-, hstatus⟩, hcontradicted⟩, hvalid⟩, -⟩ := hp
  have hwindow := hvalid
  simp only [isTemporallyValid, Option.getD_none, asOfWindow, Bool.and_eq_true] at hwindow
  obtain ⟨⟨⟨-, hinvalid⟩, -⟩, huntil⟩ := hwindow
  rw [MemoryEntry.answerable, MemoryEntry.evades, liveRowPredicate, hinvalid, huntil, hvalid,
    hcontradicted]
  cases hs : e.status with
  | active =>
    cases e.supersededBy with
    | none => exact .inl rfl
    | some _ => exact .inr rfl
  | contradicted => exact .inr rfl
  | stale =>
    rw [hs] at hstatus
    cases hstatus
  | superseded =>
    rw [hs] at hstatus
    cases hstatus
  | archived =>
    rw [hs] at hstatus
    cases hstatus

end RetrievalRequest.DefaultFlags

theorem evades_not_answerable (h : e.evades now = true) : e.answerable now = false := by
  simp only [MemoryEntry.evades, Bool.and_eq_true, Bool.or_eq_true, decide_eq_true_eq] at h
  obtain ⟨-, hstatus | ⟨-, hsuperseded⟩⟩ := h
  · simp [MemoryEntry.answerable, liveRowPredicate, hstatus]
  · obtain ⟨succ, hsucc⟩ := Option.isSome_iff_exists.1 hsuperseded
    simp [MemoryEntry.answerable, liveRowPredicate, hsucc]

end Filters

section Channels
variable {r : MemoryRetriever} {d : DenseChannel} {w : World} {q : RetrievalRequest} {now : Stamp}
  {s : Store} {query : String}

/-- The key is listed, or its row satisfies the predicate of the SQL. -/
def LiveKey (w : World) (now : Stamp) (s : Store) (key : String) : Prop :=
  (∃ e ∈ (MemoryRetriever.listed w s).entries.values, e.key = key) ∨
    ∃ row ∈ s.rows.values, row.key = key ∧ liveRowPredicate false now row = true

theorem mem_listAll {includeSuperseded : Bool} {e : MemoryEntry}
    (h : e ∈ MemoryRetriever.listAll w q now s includeSuperseded) :
    e ∈ (MemoryRetriever.listed w s).entries.values := List.mem_of_mem_filter h

/-- What the full-text search finds is read from rows that the SQL lets through. -/
theorem searchRows_live (hq : q.DefaultFlags) {found : List MemoryEntry}
    (h : searchRows w.toConfig r.index (q.searchRequest query false) now s.rows.values = .ok found)
    {e : MemoryEntry} (he : e ∈ found) :
    ∃ row ∈ s.rows.values, rowToEntry w.toConfig row = .ok e ∧
      liveRowPredicate false now row = true := by
  simp only [searchRows] at h
  split at h
  · cases h
  split at h
  · cases h
  · next entries hentries =>
    cases h
    obtain ⟨hmem, -⟩ := List.mem_filter.1 he
    obtain ⟨row, hrow, hread⟩ := rowsToEntries_mem hentries hmem
    rcases mem_combineBranches hrow with hf | hn
    · obtain ⟨found, hfound, rfl⟩ := List.mem_map.1 hf
      obtain ⟨-, hstored, hclause, -⟩ := mem_ftsSearch hfound
      simp only [searchClause, Bool.and_eq_true] at hclause
      exact ⟨_, hstored, hread, hq.temporalClause_eq query ▸ hclause.2⟩
    · obtain ⟨near, hnear, rfl⟩ := List.mem_map.1 hn
      rw [vectorBranch] at hnear
      split at hnear
      · obtain ⟨-, hstored, hclause, -⟩ := mem_knnSearch hnear
        simp only [knnClause, Bool.and_eq_true] at hclause
        exact ⟨_, hstored, hread, hq.temporalClause_eq query ▸ hclause.2⟩
      · cases hnear

/-- A lexical candidate is listed, or a row that the SQL lets through. -/
theorem mem_getCandidates (hq : q.DefaultFlags) {a : Scored}
    (ha : a ∈ r.getCandidates w q now s query false) :
    a.entry ∈ (MemoryRetriever.listed w s).entries.values ∨
      ∃ row ∈ s.rows.values, rowToEntry w.toConfig row = .ok a.entry ∧
        liveRowPredicate false now row = true := by
  rw [MemoryRetriever.getCandidates] at ha
  split at ha
  · next e rest hsearch =>
    obtain ⟨e', he', rfl⟩ := List.mem_map.1 ha
    exact .inr (searchRows_live hq hsearch he')
  · obtain ⟨e', he', rfl⟩ := List.mem_map.1 (List.mem_of_mem_filter ha)
    exact .inl (mem_listAll (List.mem_of_mem_filter he'))

theorem getCandidates_liveKey (hq : q.DefaultFlags) {a : Scored}
    (ha : a ∈ r.getCandidates w q now s query false) : LiveKey w now s a.entry.key := by
  rcases mem_getCandidates hq ha with hlisted | ⟨row, hrow, hread, hlive⟩
  · exact .inl ⟨a.entry, hlisted, rfl⟩
  · have hkey : a.entry.key = row.key := by rw [(rowToEntry_ok hread).2, normalised_key]
    exact .inr ⟨row, hrow, hkey.symm, hlive⟩

/-- The dense channel names rows that the SQL lets through, or what is listed. -/
theorem denseSearch_liveKey (hq : q.DefaultFlags) {key : String}
    (h : key ∈ r.denseSearch d w q now s query) : LiveKey w now s key := by
  have hcorpus : ∀ key ∈ MemoryRetriever.denseCorpus d w q now s query, LiveKey w now s key := by
    intro key hkey
    obtain ⟨a, ha, rfl⟩ := List.mem_map.1 hkey
    have hscored := (List.mem_insertionSort _).1 (List.mem_of_mem_take ha)
    obtain ⟨e, he, hsim⟩ := List.mem_filterMap.1 hscored
    obtain ⟨sim, -, rfl⟩ := Option.map_eq_some_iff.1 hsim
    exact .inl ⟨e, mem_listAll (List.mem_of_mem_filter he), rfl⟩
  have hknn : ∀ key ∈ r.knnKeys d q now s query, LiveKey w now s key := by
    intro key hkey
    obtain ⟨a, ha, rfl⟩ := List.mem_map.1 hkey
    have hnear := (List.mem_insertionSort _).1 (List.mem_of_mem_take ha)
    obtain ⟨row, hrow, hdist⟩ := List.mem_filterMap.1 hnear
    obtain ⟨dist, -, rfl⟩ := Option.map_eq_some_iff.1 hdist
    obtain ⟨hstored, hclause⟩ := List.mem_filter.1 hrow
    rw [hq.stale, hq.temporalClause_eq] at hclause
    exact .inr ⟨row, hstored, rfl, hclause⟩
  rw [MemoryRetriever.denseSearch] at h
  split at h
  · cases h
  · split at h
    · exact hcorpus key h
    · next best rest hnear =>
      have hmem := List.mem_of_mem_filter h
      rw [← hnear] at hmem
      split at hmem
      · exact hknn key hmem
      · cases hmem

/-- The entry that the hybrid path reads for a live key is listed, or answerable. -/
theorem entryByKey_live {key : String} {e : MemoryEntry} (hkey : LiveKey w now s key)
    (he : MemoryRetriever.entryByKey w q s key = some e) :
    e ∈ (MemoryRetriever.listed w s).entries.values ∨ liveRowPredicate false now e = true := by
  have hheld : held w.toConfig (MemoryRetriever.listed w s) key = some e := by
    rw [(listed_untouched w s).held_eq trivial, ← entryByKey_eq]
    exact he
  cases hcached : (MemoryRetriever.listed w s).entries.get? key with
  | some x =>
    rw [held, hcached] at hheld
    cases hheld
    exact .inl (Table.mem_of_get? hcached)
  | none =>
    rcases hkey with ⟨x, hx, rfl⟩ | ⟨row, hrow, rfl, hlive⟩
    · rw [Table.get?_of_mem hx] at hcached
      cases hcached
    · have hrows : (MemoryRetriever.listed w s).rows.get? row.key = some row := by
        rw [(listed_untouched w s).rows row.key trivial]
        exact Table.get?_of_mem hrow
      rw [held, hcached, Option.none_or, loaded, hrows, Option.bind_some] at hheld
      cases hread : rowToEntry w.toConfig row with
      | error err =>
        rw [hread] at hheld
        cases hheld
      | ok x =>
        rw [hread] at hheld
        cases hheld
        rw [(rowToEntry_ok hread).2]
        exact .inr hlive

theorem mem_fused_key {bm25 vector : List String} {weights : ℚ × ℚ} {k : Nat} {f : String × ℚ}
    (h : f ∈ reciprocalRankFusionWeighted bm25 vector weights k) : f.1 ∈ bm25 ∨ f.1 ∈ vector := by
  rw [reciprocalRankFusionWeighted] at h
  simp only [List.mem_insertionSort, List.mem_map, List.mem_eraseDups, List.mem_append] at h
  obtain ⟨key, hkey, rfl⟩ := h
  exact hkey

theorem getHybridCandidates_live (hq : q.DefaultFlags) {a : Scored}
    (ha : a ∈ (r.withDense d w now).getHybridCandidates w q now s query) :
    a.entry ∈ (MemoryRetriever.listed w s).entries.values ∨
      liveRowPredicate false now a.entry = true := by
  have hlexical : ∀ b ∈ (r.withDense d w now).getCandidates w q now s query false,
      b.entry ∈ (MemoryRetriever.listed w s).entries.values ∨
        liveRowPredicate false now b.entry = true := by
    intro b hb
    rcases mem_getCandidates hq hb with hlisted | ⟨row, -, hread, hlive⟩
    · exact .inl hlisted
    · rw [(rowToEntry_ok hread).2]
      exact .inr hlive
  rw [MemoryRetriever.getHybridCandidates] at ha
  split at ha
  · exact hlexical a ha
  · next best rest hfused =>
    obtain ⟨f, hf, hcand⟩ := List.mem_filterMap.1 ha
    obtain ⟨e, he, rfl⟩ := Option.map_eq_some_iff.1 hcand
    obtain ⟨hentry, -⟩ := Option.filter_eq_some_iff.1 he
    rw [← hfused] at hf
    apply entryByKey_live _ hentry
    rcases mem_fused_key hf with hbm25 | hvector
    · obtain ⟨b, hb, hkey⟩ := List.mem_map.1 hbm25
      have hcandidate := (List.mem_insertionSort _).1 (List.mem_of_mem_take hb)
      exact hkey ▸ getCandidates_liveKey hq hcandidate
    · exact denseSearch_liveKey hq hvector

/-- What is answered is the entry of a candidate, and pending. -/
theorem answer_candidate {c : Config} {candidates : List Scored} {a : Scored}
    (ha : a ∈ r.answer c q now candidates) :
    (∃ b ∈ candidates, b.entry = a.entry) ∧ r.isPending q now c a.entry = true := by
  obtain ⟨⟨b, hb, hentry⟩, -⟩ := mem_rankPending.1 ⟨a, List.mem_of_mem_take ha, rfl⟩
  obtain ⟨hfiltered, hpending⟩ := List.mem_filter.1 hb
  have hwindow : b ∈ MemoryRetriever.filterTimeWindow q candidates := by
    rw [MemoryRetriever.filterByMemoryFilter] at hfiltered
    split at hfiltered
    · exact hfiltered
    · exact List.mem_of_mem_filter hfiltered
  exact ⟨⟨b, List.mem_of_mem_filter hwindow, hentry⟩, hentry ▸ hpending⟩

/-- Whatever is answered was listed or is live, and is pending. -/
theorem mem_search (hq : q.DefaultFlags) {semantic : Bool} {a : Scored}
    (ha : a ∈ (r.withDense d w now).search w q now s semantic) :
    (a.entry ∈ (MemoryRetriever.listed w s).entries.values ∨
      liveRowPredicate false now a.entry = true) ∧
      (r.withDense d w now).isPending q now w.toConfig a.entry = true := by
  cases hblank : isBlank q.query with
  | true =>
    rw [MemoryRetriever.search, hblank] at ha
    cases ha
  | false =>
    rw [search_eq semantic hblank] at ha
    obtain ⟨⟨b, hb, hentry⟩, hpending⟩ := answer_candidate ha
    apply And.intro _ hpending
    rw [← hentry]
    cases semantic with
    | true => exact getHybridCandidates_live hq hb
    | false =>
      rw [hq.stale] at hb
      rcases mem_getCandidates hq hb with hlisted | ⟨row, -, hread, hlive⟩
      · exact .inl hlisted
      · rw [(rowToEntry_ok hread).2]
        exact .inr hlive

end Channels

/-- An index that finds nothing. -/
def TextIndex.nothing : TextIndex where
  rank := fun _ _ _ _ _ => none
  distance := fun _ _ => none

/-- A retriever whose full-text search finds nothing, and whose scan finds one key. -/
def finding (key : String) : MemoryRetriever where
  index := .nothing
  bm25 := fun _ _ e => if e.key = key then 1 else 0
  wordOverlapScore := fun _ _ => 0
  expandQuery := fun _ query => query
  decayedConfidence := fun _ _ => 1
  vectorSearch := fun _ _ _ => []
  composite := fun _ _ _ _ => 0

/-- No embedder is there. -/
def DenseChannel.off : DenseChannel where
  embeds := false
  knnAnswers := false
  similarity := fun _ _ => none

section Fallback
variable {w : World} {now : Stamp} {s : Store} {e : MemoryEntry}

theorem searchRows_nothing (c : Config) (q : SearchRequest) (rows : List MemoryEntry) :
    searchRows c .nothing q now rows = .ok [] := by
  have hpass : ∀ matchAny query, ftsPass .nothing q now matchAny query rows = [] := by
    intro matchAny query
    have hnone : (rows.filter (searchClause q now)).filterMap (fun e =>
        (TextIndex.nothing.rankOf matchAny query e).map
          (fun rank => { entry := e, score := rank : Scored })) = [] :=
      List.filterMap_eq_nil_iff.2 (fun _ _ => rfl)
    rw [ftsPass, hnone]
    rfl
  have hfts : ftsSearch .nothing q now rows = [] := by
    rw [ftsSearch]
    split
    · rfl
    · rw [hpass]
      cases buildOrTsquery q.query with
      | none => rfl
      | some orQuery => exact hpass true orQuery
  have hknn : knnSearch .nothing q now rows = [] := by
    have hnone : (rows.filter (knnClause q now)).filterMap (fun e =>
        (TextIndex.nothing.distance q.query e.key).map
          (fun d => { entry := e, score := -d : Scored })) = [] :=
      List.filterMap_eq_nil_iff.2 (fun _ _ => rfl)
    rw [knnSearch, hnone]
    split
    · rfl
    · rfl
  have hnear : vectorBranch .nothing q now rows = [] := by
    rw [vectorBranch, hknn]
    split
    · rfl
    · rfl
  rw [searchRows, hfts, hnear]
  rfl

/-- A request that names nothing but a query. -/
def asking : RetrievalRequest := { query := "?" }

theorem asking_default : asking.DefaultFlags := ⟨rfl, rfl, rfl, rfl, rfl, rfl⟩

/-- A list without a repeated key, all of one key, has one item at most. -/
theorem length_le_one_of_key {found : List Scored} {key : String}
    (hnodup : (found.map (·.entry.key)).Nodup) (hkey : ∀ a ∈ found, a.entry.key = key) :
    found.length ≤ 1 := by
  have hsame : found.map (·.entry.key) = List.replicate found.length key := by
    rw [List.eq_replicate_iff, List.length_map]
    apply And.intro rfl
    intro k hk
    obtain ⟨a, ha, rfl⟩ := List.mem_map.1 hk
    exact hkey a ha
  rwa [hsame, List.nodup_replicate] at hnodup

/-- A search that finds nothing gives way to the scan, which offers a listed entry of its key. -/
theorem finding_candidates (he : e ∈ (MemoryRetriever.listed w s).entries.values)
    (hevades : e.evades now = true) :
    (∃ a ∈ (finding e.key).getCandidates w asking now s "?" false, a.entry = e) ∧
      ((finding e.key).getCandidates w asking now s "?" false).length ≤ 1 := by
  simp only [MemoryEntry.evades, Bool.and_eq_true] at hevades
  obtain ⟨⟨hvalid, hcontradicted⟩, -⟩ := hevades
  have hscan : (finding e.key).getCandidates w asking now s "?" false =
      (finding e.key).bm25FullScan w asking now s "?" := by
    have hnothing : searchRows w.toConfig (finding e.key).index (asking.searchRequest "?" false) now
        s.rows.values = .ok [] := searchRows_nothing _ _ _
    rw [MemoryRetriever.getCandidates, hnothing]
  rw [hscan]
  constructor
  · have hlisted : e ∈ MemoryRetriever.listAll w asking now s asking.superseded :=
      List.mem_filter.2 ⟨he, Bool.and_eq_true_iff.2 ⟨rfl, hvalid⟩⟩
    have hwindow : MemoryRetriever.matchesTemporalWindow asking now e = true :=
      Bool.and_eq_true_iff.2 ⟨hvalid, rfl⟩
    refine ⟨⟨e, 1⟩, List.mem_filter.2 ⟨List.mem_map.2 ⟨e, List.mem_filter.2 ⟨hlisted, ?_⟩, ?_⟩, ?_⟩, rfl⟩
    · exact Bool.and_eq_true_iff.2 ⟨hcontradicted, hwindow⟩
    · simp only [finding, ↓reduceIte]
    · exact decide_eq_true one_pos
  · have hnodup : (((finding e.key).bm25FullScan w asking now s "?").map (·.entry.key)).Nodup := by
      have hcorpus : List.Sublist (((finding e.key).bm25FullScan w asking now s "?").map (·.entry.key))
          ((MemoryRetriever.listed w s).entries.values.map MemoryEntry.key) := by
        apply ((List.filter_sublist).map _).trans
        rw [List.map_map]
        exact (List.filter_sublist.trans List.filter_sublist).map _
      exact hcorpus.nodup (MemoryRetriever.listed w s).entries.nodup
    have hkey : ∀ a ∈ (finding e.key).bm25FullScan w asking now s "?", a.entry.key = e.key := by
      intro a ha
      obtain ⟨hmem, hscore⟩ := List.mem_filter.1 ha
      obtain ⟨x, -, rfl⟩ := List.mem_map.1 hmem
      by_contra hne
      simp only [finding, if_neg hne] at hscore
      exact absurd hscore (by decide)
    exact length_le_one_of_key hnodup hkey

theorem finding_passes {c : Config} (hevades : e.evades now = true) :
    (finding e.key).passes c asking now e = true := by
  simp only [MemoryEntry.evades, Bool.and_eq_true, Bool.not_eq_true'] at hevades
  obtain ⟨⟨hvalid, hcontradicted⟩, hstatus⟩ := hevades
  have hsource : isConsolidatedSource c.unicode e = false := by
    rw [isConsolidatedSource, hcontradicted, Bool.false_and]
  have hshown : excludedLifecycleStatus e.status = false := by
    cases hs : e.status with
    | active => rfl
    | contradicted => rfl
    | stale => simp [hs] at hstatus
    | superseded => simp [hs] at hstatus
    | archived => simp [hs] at hstatus
  have hpending : (finding e.key).isPending asking now c e = true := by
    have hvalid' : isTemporallyValid now asking.asOf e = true := hvalid
    have hconfidence : asking.minConfidence ≤ (finding e.key).decayedConfidence now e := by
      norm_num [asking, finding]
    rw [MemoryRetriever.isPending, hsource, hshown, hcontradicted, hvalid', decide_eq_true hconfidence]
    rfl
  rw [MemoryRetriever.passes, hpending]
  rfl

end Fallback

/-- A search with default flags answers with live rows only, whatever channel supplies the
candidates, exactly if nothing that is listed evades the predicate of the SQL. -/
theorem answers_live_iff (w : World) (now : Stamp) (s : Store) :
    AnswersLive w now s ↔
      ∀ e ∈ (MemoryRetriever.listed w s).entries.values, e.evades now = false := by
  constructor
  · intro h e he
    by_contra hevades
    rw [Bool.not_eq_false] at hevades
    obtain ⟨hoffered, hlength⟩ := finding_candidates he hevades
    have hanswered : ∃ a ∈ (finding e.key).answer w.toConfig asking now
        ((finding e.key).getCandidates w asking now s "?" false), a.entry = e := by
      have hroom : ((finding e.key).getCandidates w asking now s "?" false).length ≤
          asking.resultLimit := hlength.trans (by decide)
      apply (mem_answer (getCandidates_sameByKey false) hroom).2
      exact ⟨hoffered, finding_passes hevades⟩
    obtain ⟨a, ha, rfl⟩ := hanswered
    have hsearch : a ∈ ((finding a.entry.key).withDense .off w now).search w asking now s false := by
      rw [search_eq false (by decide)]
      exact ha
    have hlive := h _ _ _ _ asking_default a hsearch
    rw [evades_not_answerable hevades] at hlive
    cases hlive
  · intro h r d q semantic hq a ha
    obtain ⟨hsource, hpending⟩ := mem_search hq ha
    rcases hq.pending hpending with hlive | hevades
    · exact hlive
    · rcases hsource with hlisted | hlive
      · rw [h a.entry hlisted] at hevades
        cases hevades
      · have hdropped := evades_not_answerable hevades
        rw [MemoryEntry.answerable, hlive, Bool.true_and] at hdropped
        simp only [MemoryEntry.evades, hdropped, Bool.and_false, Bool.false_and,
          Bool.false_eq_true] at hevades

/-- A note that is saved with its successor named, and stays active. -/
def namedSuccessor : SaveArgs := { key := "b", value := "postgres 15", supersededBy := some "a" }

/-- A note that is saved as contradicted, without the flag. -/
def savedContradicted : SaveArgs := { key := "b", value := "postgres 15", status := some "contradicted" }

/-- Where the full-text search fails, the scan answers with rows that the SQL excludes. -/
theorem scan_answers_dropped :
    (∃ a ∈ ((finding "b").withDense .off Config.plain.calm 5000).search Config.plain.calm
        { query := "postgres" } 5000 ((save Config.plain.calm namedSuccessor).final {}) false,
      a.entry.supersededBy = some "a" ∧ a.entry.answerable 5000 = false) ∧
    ∃ a ∈ ((finding "b").withDense .off Config.plain.calm 5000).search Config.plain.calm
        { query := "postgres" } 5000 ((save Config.plain.calm savedContradicted).final {}) false,
      a.entry.status = .contradicted ∧ a.entry.answerable 5000 = false := by
  decide +kernel

end TappsBrain
