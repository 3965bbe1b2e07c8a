import TappsBrain.Store

namespace TappsBrain
open Lib
set_option autoImplicit true
set_option relaxedAutoImplicit false

/-- `VALID_TIME_FIELDS`. -/
inductive TimeField where
  | createdAt | updatedAt | lastAccessed
deriving DecidableEq, Repr

def TimeField.read : TimeField → MemoryEntry → Stamp
  | .createdAt => MemoryEntry.createdAt
  | .updatedAt => MemoryEntry.updatedAt
  | .lastAccessed => MemoryEntry.lastAccessed

/-- The arguments of `search`, with relative times expanded. -/
structure SearchRequest where
  query : String
  tags : List String := []
  tier : Option String := none
  scope : Option String := none
  memoryGroup : Option String := none
  asOf : Option Stamp := none
  includeHistorical : Bool := false
  since : Option Stamp := none
  before : Option Stamp := none
  timeField : TimeField := .createdAt
  memoryClass : Option MemoryClass := none
  includeContradicted : Bool := false
  includeStale : Bool := false
  learningStatus : List LearningStatus := []

/-- What the text index and the embeddings make of a row. Both read its key, value and tags, or
a vector that is stored once under the key. -/
structure TextIndex where
  /-- `ts_rank(search_vector, tsquery)` of a row that matches; the flag picks `to_tsquery`. -/
  rank : Bool → String → String → String → List String → Option ℚ
  /-- The cosine distance between the query and the vector of a key, where both exist. -/
  distance : String → String → Option ℚ

def TextIndex.rankOf (x : TextIndex) (matchAny : Bool) (query : String) (e : MemoryEntry) : Option ℚ :=
  x.rank matchAny query e.key e.value e.tags

/-- `valid_at IS NULL OR valid_at <= as_of`. -/
def alreadyOpen (t : Stamp) : Option IsoText → Bool
  | none => true
  | some (.at o) => o ≤ t
  | some (.malformed _) => false

/-- `_SEARCH_FILTER_AS_OF_SQL`. -/
def asOfWindow (t : Stamp) (e : MemoryEntry) : Bool :=
  alreadyOpen t e.validAt && stillOpen t e.invalidAt && alreadyOpen t e.validFrom &&
    stillOpen t e.validUntil

/-- `_live_row_predicate`. -/
def liveRowPredicate (includeStale : Bool) (now : Stamp) (e : MemoryEntry) : Bool :=
  e.supersededBy.isNone && stillOpen now e.validUntil && stillOpen now e.invalidAt &&
    (includeStale || e.status = .active)

/-- The temporal clause of both queries: a point in time stands the live-row predicate down. -/
def temporalClause (q : SearchRequest) (now : Stamp) (e : MemoryEntry) : Bool :=
  match q.asOf with
  | some t => asOfWindow t e
  | none => q.includeHistorical || liveRowPredicate q.includeStale now e

def learningClause (q : SearchRequest) (e : MemoryEntry) : Bool :=
  q.learningStatus = [] || q.learningStatus.contains e.promotion.learningStatus

def groupClause (q : SearchRequest) (e : MemoryEntry) : Bool :=
  q.memoryGroup.isNone || e.memoryGroup = q.memoryGroup

def classClause (q : SearchRequest) (e : MemoryEntry) : Bool :=
  q.memoryClass.isNone || e.memoryClass = q.memoryClass

/-- The bounds on `time_field`. -/
def inTimeRange (q : SearchRequest) (at_ : Stamp) : Bool :=
  q.since.all (fun t => t ≤ at_) && q.before.all (fun t => at_ < t)

/-- The variable part of `build_search_sql`. -/
def searchClause (q : SearchRequest) (now : Stamp) (e : MemoryEntry) : Bool :=
  groupClause q e && inTimeRange q (q.timeField.read e) && classClause q e && learningClause q e &&
    temporalClause q now e

/-- The variable part of `build_knn_search_sql`. -/
def knnClause (q : SearchRequest) (now : Stamp) (e : MemoryEntry) : Bool :=
  learningClause q e && temporalClause q now e

def isTokenChar (c : Char) : Bool :=
  (48 ≤ c.toNat && c.toNat ≤ 57) || (65 ≤ c.toNat && c.toNat ≤ 90) || (97 ≤ c.toNat && c.toNat ≤ 122)

def OR_TSQUERY_MAX_TOKENS : Nat := 16
def OR_TSQUERY_MIN_TOKENS : Nat := 2

/-- `build_or_tsquery`. -/
def buildOrTsquery (query : String) : Option String :=
  let runs := (query.toList.splitOnP (fun c => !isTokenChar c)).filter (· ≠ [])
  let tokens := (runs.map (fun run => String.ofList (run.map Char.toLower))).eraseDups
  if tokens.length < OR_TSQUERY_MIN_TOKENS then none
  else some (" | ".intercalate (tokens.take OR_TSQUERY_MAX_TOKENS))

def SEARCH_LIMIT : Nat := 100

/-- A row with the number it is ordered by. -/
structure Scored where
  entry : MemoryEntry
  score : ℚ

/-- Greater scores first, ties by key. -/
def scoredHigher (a b : Scored) : Prop :=
  b.score < a.score ∨ a.score = b.score ∧ a.entry.key ≤ b.entry.key

instance : DecidableRel scoredHigher := fun _ _ => inferInstanceAs (Decidable (_ ∨ _))

/-- One execution of the query of `build_search_sql`. -/
def ftsPass (x : TextIndex) (q : SearchRequest) (now : Stamp) (matchAny : Bool) (query : String)
    (rows : List MemoryEntry) : List Scored :=
  let matching := (rows.filter (searchClause q now)).filterMap
    (fun e => (x.rankOf matchAny query e).map (fun rank => { entry := e, score := rank }))
  (matching.insertionSort scoredHigher).take SEARCH_LIMIT

/-- `PostgresPrivateBackend.search`: every token, and failing that any of them. -/
def ftsSearch (x : TextIndex) (q : SearchRequest) (now : Stamp) (rows : List MemoryEntry) :
    List Scored :=
  if isBlank q.query then []
  else
    match ftsPass x q now false q.query rows with
    | [] =>
      match buildOrTsquery q.query with
      | none => []
      | some orQuery => ftsPass x q now true orQuery rows
    | found => found

def KNN_FALLBACK_K : Nat := 10
def KNN_MIN_SIMILARITY_FOR_FUSION : ℚ := 80 / 100
def SEARCH_FUSION_RRF_K : ℚ := 60

/-- `1.0 / (1.0 + max(0.0, distance))`. -/
def similarityOf (distance : ℚ) : ℚ := 1 / (1 + max 0 distance)

/-- `_knn_branch_entries`, each row with its similarity, nearest first. -/
def knnSearch (x : TextIndex) (q : SearchRequest) (now : Stamp) (rows : List MemoryEntry) :
    List Scored :=
  if isBlank q.query then []
  else
    let near := (rows.filter (knnClause q now)).filterMap
      (fun e => (x.distance q.query e.key).map (fun d => { entry := e, score := -d }))
    ((near.insertionSort scoredHigher).take KNN_FALLBACK_K).map
      (fun r => { r with score := similarityOf (-r.score) })

/-- The contribution of one ranked list to a fused score; ranks count from 1. -/
def reciprocalRank (keys : List String) (key : String) : ℚ :=
  if key ∈ keys then 1 / (SEARCH_FUSION_RRF_K + (keys.idxOf key + 1)) else 0

/-- `_fuse_fts_and_vector`: the rows of both lists by fused score; the vector row wins a key. -/
def fuseFtsAndVector (fts vector : List MemoryEntry) : List MemoryEntry :=
  let ftsKeys := fts.map (·.key)
  let vectorKeys := vector.map (·.key)
  let only := fts.filter (fun e => !vectorKeys.contains e.key)
  let fused := (vector ++ only).map (fun e =>
    { entry := e, score := reciprocalRank ftsKeys e.key + reciprocalRank vectorKeys e.key : Scored })
  (fused.insertionSort scoredHigher).map (·.entry)

/-- The vector branch stands down for filters that only the full-text query has. -/
def vectorBranchRuns (q : SearchRequest) : Bool :=
  q.since.isNone && q.before.isNone && q.memoryClass.isNone

def vectorBranch (x : TextIndex) (q : SearchRequest) (now : Stamp) (rows : List MemoryEntry) :
    List Scored :=
  if vectorBranchRuns q then knnSearch x q now rows else []

/-- `_filter_vector_entries_by_similarity`, which applies once the text search found rows. -/
def usableVector (fts near : List Scored) : List Scored :=
  if fts.isEmpty then near else near.filter (fun r => KNN_MIN_SIMILARITY_FOR_FUSION ≤ r.score)

/-- The rows of both branches as `search` combines them. -/
def combineBranches (fts near : List Scored) : List MemoryEntry :=
  if (usableVector fts near).isEmpty then fts.map (·.entry)
  else fuseFtsAndVector (fts.map (·.entry)) ((usableVector fts near).map (·.entry))

/-- `is_temporally_valid`. -/
def isTemporallyValid (now : Stamp) (asOf : Option Stamp) (e : MemoryEntry) : Bool :=
  asOfWindow (asOf.getD now) e

/-- `_apply_search_filters` on one row. -/
def searchFilter (q : SearchRequest) (now : Stamp) (e : MemoryEntry) : Bool :=
  (q.tier.isNone || some e.tier.text = q.tier) && (q.scope.isNone || some e.scope.text = q.scope) &&
    groupClause q e && (q.tags = [] || e.tags.any q.tags.contains) &&
    (q.includeHistorical || isTemporallyValid now q.asOf e) &&
    (q.includeContradicted || !e.contradicted)

/-- `search` on the durable rows, without the group memories of a Hive. Whatever either branch
returns is read back before the branches are combined. -/
def searchRows (c : Config) (x : TextIndex) (q : SearchRequest) (now : Stamp)
    (rows : List MemoryEntry) : Except Raised (List MemoryEntry) :=
  let fts := ftsSearch x q now rows
  let near := vectorBranch x q now rows
  match rowsToEntries c ((fts ++ near).map (·.entry)) with
  | .error e => .error e
  | .ok _ =>
    match rowsToEntries c (combineBranches fts near) with
    | .error e => .error e
    | .ok entries => .ok (entries.filter (searchFilter q now))

end TappsBrain
