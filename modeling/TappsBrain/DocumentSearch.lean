import TappsBrain.DocumentPut
import TappsBrain.Lib.PyNumber
import TappsBrain.Lib.Run
import TappsBrain.RankFusion

namespace TappsBrain.Documents
open Lib
set_option autoImplicit true
set_option relaxedAutoImplicit false

def SNIPPET_CHARS : Nat := 240
def MAX_SEARCH_LIMIT : Int := 50
def POOL_MULTIPLIER : Int := 5
def MIN_POOL : Int := 20

/-- What a search meets: its moment, the text and vector measures of the database, the provider and
the statements that fail. -/
structure SearchPlane where
  available : Bool := true
  now : Stamp
  tsRank : String → String → Option ℚ
  distance : List ℚ → List ℚ → ℚ
  resolveEmbedder : Except String (Option (String → Except String (List ℚ)))
  rrfWeights : String → ℚ × ℚ
  rounded : ℚ → ℚ
  lexicalError : Option String := none
  semanticError : Option String := none

/-- A row of the search join. -/
structure Candidate where
  docId : String
  chunkNo : Nat
  content : String
  title : String
  embedding : Option (List ℚ)
deriving DecidableEq, Repr

/-- Indexed and not expired. -/
def DocumentRow.shown (now : Stamp) (row : DocumentRow) : Bool :=
  row.indexStatus = .indexed && row.expiresAt.all (fun t => now < t)

/-- `_SEARCH_JOIN`. -/
def searchJoin (now : Stamp) (s : DocumentTable) : List Candidate :=
  (s.values.filter (fun d => d.row.shown now)).flatMap (fun d => d.chunks.values.map (fun c =>
    { docId := d.row.docId, chunkNo := c.chunkNo, content := c.content, title := d.row.title,
      embedding := c.embedding }))

def candidateBefore (a b : Candidate) : Bool :=
  a.docId < b.docId || (a.docId = b.docId && a.chunkNo ≤ b.chunkNo)

section Channels
variable (x : SearchPlane)

/-- `lexical_search`. -/
def lexicalSearch (query : String) (limit : Int) (s : DocumentTable) :
    Except DocError (List Candidate) :=
  if isBlank query = true ∨ limit ≤ 0 then .ok []
  else
    match x.lexicalError with
    | some msg => .error (.database msg)
    | none =>
      let matched := (searchJoin x.now s).filterMap (fun c =>
        (x.tsRank query c.content).map (fun rank => (c, rank)))
      .ok (((matched.insertionSort (fun a b => b.2 < a.2 ∨ (a.2 = b.2 ∧
        candidateBefore a.1 b.1 = true))).take limit.toNat).map Prod.fst)

/-- `semantic_search`. -/
def semanticSearch (queryEmbedding : List ℚ) (limit : Int) (s : DocumentTable) :
    Except DocError (List Candidate) :=
  if queryEmbedding = [] ∨ limit ≤ 0 then .ok []
  else
    match x.semanticError with
    | some msg => .error (.database msg)
    | none =>
      let measured := (searchJoin x.now s).filterMap (fun c =>
        c.embedding.map (fun e => (c, x.distance e queryEmbedding)))
      .ok (((measured.insertionSort (fun a b => a.2 < b.2 ∨ (a.2 = b.2 ∧
        candidateBefore a.1 b.1 = true))).take limit.toNat).map Prod.fst)

end Channels

/-- `make_chunk_key`. -/
def makeChunkKey (docId : String) (chunkNo : Nat) : String :=
  String.ofList (docId.toList ++ '\x00' :: Nat.toDigits 10 chunkNo)

/-- `split_chunk_key`; `none` where `int` raises. -/
def splitChunkKey (key : String) : String × Option Nat :=
  (String.ofList ((key.toList.rdropWhile (· ≠ '\x00')).dropLast),
    PyNumber.readNat (key.toList.rtakeWhile (· ≠ '\x00')))

/-- The text and the title of each key, as the first channel has them. -/
abbrev ByKey := Table (Prod.fst : String × String × String → String)

def setDefault (t : ByKey) (c : Candidate) : ByKey :=
  let key := makeChunkKey c.docId c.chunkNo
  if t.contains key then t else t.set (key, c.content, c.title)

/-- `chunk_content[:_SNIPPET_CHARS]`. -/
def snippetOf (content : String) : String := String.ofList (content.toList.take SNIPPET_CHARS)

structure DocumentSearchHit where
  docId : String
  chunkNo : Nat
  title : String
  snippet : String
  score : ℚ
deriving DecidableEq, Repr

inductive SearchAnswer where
  | refused (e : ErrorEnvelope)
  | found (results : List DocumentSearchHit) (lexical semantic : Nat)

section Search
variable (x : SearchPlane)

/-- The vector channel, which a failing query embedding leaves empty. -/
def semanticChannel (query : String) (pool : Int) (s : DocumentTable) :
    Except DocError (List Candidate) :=
  match x.resolveEmbedder with
  | .error msg => .error (.embedder msg)
  | .ok none => .ok []
  | .ok (some embed) =>
    match embed query with
    | .error _ => .ok []
    | .ok queryVec => semanticSearch x queryVec pool s

def hitOf (byKey : ByKey) (fused : String × ℚ) : Except DocError DocumentSearchHit :=
  match splitChunkKey fused.1, byKey.get? fused.1 with
  | (docId, some chunkNo), some (_, content, title) =>
    .ok { docId, chunkNo, title, snippet := snippetOf content, score := x.rounded fused.2 }
  | _, _ => .error (.valueError "invalid chunk key")

def chunkKeys (candidates : List Candidate) : List String :=
  candidates.map (fun c => makeChunkKey c.docId c.chunkNo)

/-- `document_search`. -/
def documentSearch (query : String) (limit : Int) (s : DocumentTable) :
    Except DocError SearchAnswer :=
  let cleanQuery := strip query
  if x.available = false then .ok (.refused unavailable)
  else if cleanQuery = "" then .ok (.refused (badRequest "query is required."))
  else do
    let limit := max 1 (min limit MAX_SEARCH_LIMIT)
    let pool := max (limit * POOL_MULTIPLIER) MIN_POOL
    let lexical ← lexicalSearch x cleanQuery pool s
    let semantic ← semanticChannel x cleanQuery pool s
    let byKey := (lexical ++ semantic).foldl setDefault .empty
    let weights := x.rrfWeights cleanQuery
    match Fusion.reciprocalRankFusionWeighted (chunkKeys lexical) (chunkKeys semantic)
        weights.1 weights.2 60 with
    | .error msg => .error (.valueError msg)
    | .ok fused => do
      let hits ← (fused.take limit.toNat).mapM (hitOf x byKey)
      .ok (.found hits lexical.length semantic.length)

end Search

section Found
variable {x : SearchPlane} {s : DocumentTable} {query : String} {limit : Int} {c : Candidate}

theorem rtakeWhile_append_cons {p : Char → Bool} {d : Char} (hd : p d = false) (l : List Char)
    {m : List Char} (hm : ∀ e ∈ m, p e = true) :
    (l ++ d :: m).rtakeWhile p = m ∧ (l ++ d :: m).rdropWhile p = l ++ [d] := by
  have hrev : (l ++ d :: m).reverse = m.reverse ++ d :: l.reverse := by
    rw [List.reverse_append, List.reverse_cons, List.append_assoc, List.singleton_append]
  have hm' : ∀ e ∈ m.reverse, p e = true := fun e he => hm e (List.mem_reverse.1 he)
  have hstop : ¬ p d = true := by
    rw [hd]
    decide
  constructor
  · rw [List.rtakeWhile, hrev, List.takeWhile_append_of_pos hm', List.takeWhile_cons_of_neg hstop,
      List.append_nil, List.reverse_reverse]
  · rw [List.rdropWhile, hrev, List.dropWhile_append_of_pos hm', List.dropWhile_cons_of_neg hstop,
      List.reverse_cons, List.reverse_reverse]

/-- A key names its chunk. -/
theorem splitChunkKey_makeChunkKey (docId : String) (chunkNo : Nat) :
    splitChunkKey (makeChunkKey docId chunkNo) = (docId, some chunkNo) := by
  have hdigits : ∀ d ∈ Nat.toDigits 10 chunkNo, decide (d ≠ '\x00') = true := by
    intro d hd
    have hdigit := PyNumber.toDigits_isDigit hd
    rw [decide_eq_true_eq]
    rintro rfl
    exact absurd hdigit (by decide)
  have hstop : decide ('\x00' ≠ '\x00') = false := by decide
  obtain ⟨htake, hdrop⟩ := rtakeWhile_append_cons hstop docId.toList hdigits
  rw [splitChunkKey, makeChunkKey, String.toList_ofList, htake, hdrop, List.dropLast_concat,
    String.ofList_toList, PyNumber.readNat_toDigits]

theorem lexicalSearch_mem {found : List Candidate} (h : lexicalSearch x query limit s = .ok found)
    (hc : c ∈ found) : c ∈ searchJoin x.now s := by
  rw [lexicalSearch] at h
  split at h
  · cases h
    cases hc
  · split at h
    · cases h
    · cases h
      obtain ⟨⟨c', rank⟩, hmem, rfl⟩ := List.mem_map.1 hc
      have hmatched := (List.mem_insertionSort _).1 (List.mem_of_mem_take hmem)
      obtain ⟨c'', hjoin, hrank⟩ := List.mem_filterMap.1 hmatched
      obtain ⟨r, -, heq⟩ := Option.map_eq_some_iff.1 hrank
      cases heq
      exact hjoin

theorem semanticSearch_mem {queryVec : List ℚ} {found : List Candidate}
    (h : semanticSearch x queryVec limit s = .ok found) (hc : c ∈ found) :
    c ∈ searchJoin x.now s := by
  rw [semanticSearch] at h
  split at h
  · cases h
    cases hc
  · split at h
    · cases h
    · cases h
      obtain ⟨⟨c', rank⟩, hmem, rfl⟩ := List.mem_map.1 hc
      have hmeasured := (List.mem_insertionSort _).1 (List.mem_of_mem_take hmem)
      obtain ⟨c'', hjoin, hrank⟩ := List.mem_filterMap.1 hmeasured
      obtain ⟨e, -, heq⟩ := Option.map_eq_some_iff.1 hrank
      cases heq
      exact hjoin

theorem semanticChannel_mem {found : List Candidate}
    (h : semanticChannel x query limit s = .ok found) (hc : c ∈ found) :
    c ∈ searchJoin x.now s := by
  rw [semanticChannel] at h
  split at h
  · cases h
  · cases h
    cases hc
  · split at h
    · cases h
      cases hc
    · exact semanticSearch_mem h hc

/-- Every key stands for one of the candidates. -/
theorem byKey_candidate {candidates : List Candidate} {t : ByKey} {entry : String × String × String}
    (h : entry ∈ (candidates.foldl setDefault t).values) :
    entry ∈ t.values ∨ ∃ c ∈ candidates, entry = (makeChunkKey c.docId c.chunkNo, c.content, c.title) := by
  induction candidates generalizing t with
  | nil => exact .inl h
  | cons c rest ih =>
    rcases ih h with hmem | ⟨c', hc', rfl⟩
    · rw [setDefault] at hmem
      split at hmem
      · exact .inl hmem
      · rcases Table.mem_set hmem with rfl | hmem
        · exact .inr ⟨c, List.mem_cons_self, rfl⟩
        · exact .inl hmem
    · exact .inr ⟨c', List.mem_cons_of_mem c hc', rfl⟩

/-- A hit shows the beginning of a chunk that the join has. -/
def DocumentSearchHit.Shows (hit : DocumentSearchHit) (c : Candidate) : Prop :=
  hit.docId = c.docId ∧ hit.chunkNo = c.chunkNo ∧ hit.title = c.title ∧ hit.snippet = snippetOf c.content

theorem hitOf_shows {byKey : ByKey} {fused : String × ℚ} {hit : DocumentSearchHit}
    {candidates : List Candidate} (h : hitOf x byKey fused = .ok hit)
    (hkeys : byKey = candidates.foldl setDefault .empty) : ∃ c ∈ candidates, hit.Shows c := by
  rw [hitOf] at h
  split at h
  · next docId chunkNo key content title hsplit hget =>
    cases h
    have hmem := Table.mem_of_get? hget
    have hkey : key = fused.1 := Table.key_of_get? hget
    rw [hkeys] at hmem
    rcases byKey_candidate hmem with hnone | ⟨c, hc, heq⟩
    · cases hnone
    · cases heq
      rw [← hkey, splitChunkKey_makeChunkKey] at hsplit
      cases hsplit
      exact ⟨c, hc, rfl, rfl, rfl, rfl⟩
  · cases h

theorem mapM_mem {f : α → Except ε β} {l : List α} {found : List β} (h : l.mapM f = .ok found)
    {b : β} (hb : b ∈ found) : ∃ a ∈ l, f a = .ok b := by
  induction l generalizing found with
  | nil =>
    cases h
    cases hb
  | cons a rest ih =>
    rw [List.mapM_cons] at h
    cases hf : f a with
    | error e =>
      rw [hf] at h
      cases h
    | ok first =>
      cases hrest : rest.mapM f with
      | error e =>
        rw [hf, hrest] at h
        cases h
      | ok others =>
        rw [hf, hrest] at h
        cases h
        rcases List.mem_cons.1 hb with rfl | hb
        · exact ⟨a, List.mem_cons_self, hf⟩
        · obtain ⟨a', ha', hfa'⟩ := ih hrest hb
          exact ⟨a', List.mem_cons_of_mem a ha', hfa'⟩

/-- Whatever a search finds is a chunk of an indexed document that has not expired. -/
theorem documentSearch_shows {results : List DocumentSearchHit} {lexical semantic : Nat}
    {hit : DocumentSearchHit}
    (h : documentSearch x query limit s = .ok (.found results lexical semantic))
    (hhit : hit ∈ results) : ∃ c ∈ searchJoin x.now s, hit.Shows c := by
  simp only [documentSearch] at h
  split at h
  · cases h
  split at h
  · cases h
  cases hlexical : lexicalSearch x (strip query) (max (max 1 (min limit MAX_SEARCH_LIMIT) *
      POOL_MULTIPLIER) MIN_POOL) s with
  | error e =>
    rw [hlexical] at h
    cases h
  | ok texts =>
    cases hsemantic : semanticChannel x (strip query) (max (max 1 (min limit MAX_SEARCH_LIMIT) *
        POOL_MULTIPLIER) MIN_POOL) s with
    | error e =>
      rw [hlexical, hsemantic] at h
      cases h
    | ok vectors =>
      simp only [hlexical, hsemantic, bind, Except.bind] at h
      split at h
      · cases h
      · next fused _ =>
        cases hhits : (fused.take (max 1 (min limit MAX_SEARCH_LIMIT)).toNat).mapM
            (hitOf x ((texts ++ vectors).foldl setDefault .empty)) with
        | error e =>
          rw [hhits] at h
          cases h
        | ok hits =>
          rw [hhits] at h
          cases h
          obtain ⟨key, -, hkey⟩ := mapM_mem hhits hhit
          obtain ⟨c, hc, hshows⟩ := hitOf_shows hkey rfl
          rcases List.mem_append.1 hc with hc | hc
          · exact ⟨c, lexicalSearch_mem hlexical hc, hshows⟩
          · exact ⟨c, semanticChannel_mem hsemantic hc, hshows⟩

end Found
end TappsBrain.Documents
