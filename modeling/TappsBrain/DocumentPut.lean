import TappsBrain.Documents

namespace TappsBrain.Documents
open Lib
set_option autoImplicit true
set_option relaxedAutoImplicit false

variable {p : DocumentPlane} {a : PutArgs} {s t : DocumentTable} {row : DocumentRow}
  {req : PutRequest} {text : String} {status : IndexStatus} {error : Option String}

section Statements

/-- The database accepts the row, and its identifier is new. -/
def Storable (p : DocumentPlane) (row : DocumentRow) (s : DocumentTable) : Prop :=
  p.refuses (.insertDocument row) = none ∧ s.contains row.docId = false

theorem execute_ok {st : DocStatement} (h : p.refuses st = none) (s : DocumentTable) :
    execute p st s = (.ok (), s) := by
  rw [execute, h]
  rfl

theorem execute_error {st : DocStatement} {msg : String} (h : p.refuses st = some msg)
    (s : DocumentTable) : execute p st s = (.error (.database msg), s) := by
  rw [execute, h]
  rfl

theorem put_ok (h : Storable p row s) : put p row s = (.ok (), s.set { row }) := by
  rw [put, Prog.bind_run_ok (execute_ok h.1 s), Prog.bind_run_ok (Prog.read_run _ s), h.2]
  rfl

theorem put_error (h : ¬ Storable p row s) : ∃ e, put p row s = (.error e, s) := by
  rw [put]
  cases hst : p.refuses (.insertDocument row) with
  | some msg => exact ⟨_, Prog.bind_run_error (execute_error hst s)⟩
  | none =>
    have hheld : s.contains row.docId = true := by
      by_contra hfree
      exact h ⟨hst, Bool.eq_false_iff.2 hfree⟩
    rw [Prog.bind_run_ok (execute_ok hst s), Prog.bind_run_ok (Prog.read_run _ s), hheld]
    exact ⟨_, rfl⟩

theorem setIndexStatus_error {msg : String}
    (h : p.refuses (.setStatus p.docId status error) = some msg) (s : DocumentTable) :
    setIndexStatus p p.docId status error s = (.error (.database msg), s) := by
  rw [setIndexStatus]
  exact Prog.bind_run_error (execute_error h s)

theorem setIndexStatus_ok {d : StoredDocument} (h : p.refuses (.setStatus p.docId status error) = none)
    (hd : s.get? p.docId = some d) :
    setIndexStatus p p.docId status error s = (.ok (), s.set (d.withStatus status error)) := by
  rw [setIndexStatus, Prog.bind_run_ok (execute_ok h s), Prog.bind_run_ok (Prog.read_run _ s), hd]
  rfl

theorem count_run (p : DocumentPlane) (s : DocumentTable) :
    (∃ e, count p s = (.error e, s)) ∨ count p s = (.ok s.size, s) := by
  rw [count]
  cases hst : p.refuses .count with
  | some msg => exact .inl ⟨_, Prog.bind_run_error (execute_error hst s)⟩
  | none => exact .inr (Prog.bind_run_ok (execute_ok hst s))

/-- Validation writes nothing. -/
theorem validatePut_run (p : DocumentPlane) (a : PutArgs) (s : DocumentTable) :
    ∃ r, validatePut p a s = (r, s) := by
  cases hin : validateInputs p a with
  | error e =>
    rw [validatePut, hin]
    exact ⟨_, rfl⟩
  | ok raw =>
    simp only [validatePut, hin]
    rcases count_run p s with ⟨e, hcount⟩ | hcount
    · exact ⟨_, Prog.bind_run_error hcount⟩
    · rw [Prog.bind_run_ok hcount]
      split
      · exact ⟨_, rfl⟩
      · cases parseRetention p a.retention <;> exact ⟨_, rfl⟩

theorem chunkRows_numbers (chunks : List String) (embeddings : List (Option (List ℚ))) :
    (chunkRows chunks embeddings).map ChunkRow.chunkNo =
      List.range (chunks.zip embeddings).length := by
  rw [chunkRows, List.map_map]
  have hnumber : ChunkRow.chunkNo ∘ (fun x : (String × Option (List ℚ)) × Nat =>
      ({ chunkNo := x.2, content := x.1.1, embedding := x.1.2 } : ChunkRow)) = Prod.snd := rfl
  exact (congrArg (fun f => List.map f _) hnumber).trans
    ((List.zipIdx_map_snd _ _).trans List.range_eq_range'.symm)

/-- A document without chunks has as many as are saved. -/
theorem size_chunkRows {chunks : List String} {embeddings : List (Option (List ℚ))}
    (h : chunks.length = embeddings.length) :
    ((chunkRows chunks embeddings).foldl Table.set (Table.empty : Table ChunkRow.chunkNo)).size =
      chunks.length := by
  have hnumbers := chunkRows_numbers chunks embeddings
  have hnodup : (((Table.empty : Table ChunkRow.chunkNo).values ++
      chunkRows chunks embeddings).map ChunkRow.chunkNo).Nodup := by
    rw [show (Table.empty : Table ChunkRow.chunkNo).values = [] from rfl, List.nil_append, hnumbers]
    exact List.nodup_range
  have hlength := congrArg List.length hnumbers
  rw [List.length_map, List.length_range, List.length_zip, ← h, Nat.min_self] at hlength
  rw [Table.size, Table.values_foldl_set hnodup, List.length_append, hlength]
  exact Nat.zero_add _

end Statements

/-- Once the row is stored, indexing its text and reporting the outcome meet no refusal. -/
def IndexCompletes (p : DocumentPlane) (text : String) : Prop :=
  let accepted (status : IndexStatus) (error : Option String) : Prop :=
    p.refuses (.setStatus p.docId status error) = none
  match indexChunks p text with
  | [] => accepted .error (some "no indexable text after chunking")
  | chunks =>
    match p.resolveEmbedder with
    | .error _ => False
    | .ok none => accepted .error (some "embedding provider unavailable")
    | .ok (some embedBatch) =>
      match embedBatch chunks with
      | .error msg => accepted .error (some s!"embedding failed: {msg}")
      | .ok embeddings => chunks.length = embeddings.length ∧
          p.refuses (.insertChunks p.docId (chunkRows chunks embeddings)) = none ∧
          accepted .indexed none

section Index

/-- What indexing leaves of a document it was given without chunks. -/
structure Indexed (p : DocumentPlane) (d : StoredDocument) (r : IndexStatus × Option String × Nat)
    (t : DocumentTable) : Prop where
  held : ∃ chunks : Table ChunkRow.chunkNo, t.get? p.docId = some { d with chunks } ∧
    chunks.size = r.2.2
  done : r.1 ≠ .pending
  inked : r.2.1 ≠ some ""

theorem saveChunks_ok {chunks : List String} {embeddings : List (Option (List ℚ))}
    (hne : chunks ≠ []) (hlength : chunks.length = embeddings.length)
    (hrows : p.refuses (.insertChunks p.docId (chunkRows chunks embeddings)) = none)
    (hd : s.get? p.docId = some { row }) :
    saveChunks p p.docId chunks embeddings s = (.ok chunks.length, s.set
      { row, chunks := (chunkRows chunks embeddings).foldl Table.set Table.empty }) := by
  rw [saveChunks, if_neg (not_not.2 hlength), if_neg hne]
  rw [Prog.bind_run_ok (execute_ok hrows s), Prog.bind_run_ok (Prog.read_run _ s), hd]
  rfl

theorem indexDocument_ok (hid : row.docId = p.docId) (hd : s.get? p.docId = some { row })
    (h : IndexCompletes p text) :
    ∃ r t, indexDocument p text s = (.ok r, t) ∧ Indexed p { row } r t ∧
      p.refuses (.setStatus p.docId r.1 r.2.1) = none := by
  rw [IndexCompletes] at h
  rw [indexDocument]
  cases hchunks : indexChunks p text with
  | nil =>
    rw [hchunks] at h
    exact ⟨_, s, rfl, ⟨⟨.empty, hd, rfl⟩, nofun, by decide⟩, h⟩
  | cons c rest =>
    rw [hchunks] at h
    cases hembedder : p.resolveEmbedder with
    | error msg =>
      rw [hembedder] at h
      exact h.elim
    | ok embedder =>
      cases embedder with
      | none =>
        rw [hembedder] at h
        exact ⟨_, s, rfl, ⟨⟨.empty, hd, rfl⟩, nofun, by decide⟩, h⟩
      | some embedBatch =>
        cases hbatch : embedBatch (c :: rest) with
        | error msg =>
          simp only [hembedder, hbatch] at h
          refine ⟨(.error, some s!"embedding failed: {msg}", 0), s, ?_,
            ⟨⟨.empty, hd, rfl⟩, nofun, ?_⟩, h⟩
          · simp only [hbatch]
            rfl
          · intro heq
            have hempty : ("embedding failed: " ++ msg).length = 0 :=
              congrArg String.length (Option.some.inj heq)
            have hlead : "embedding failed: ".length = 18 := rfl
            rw [String.length_append, hlead] at hempty
            omega
        | ok embeddings =>
          simp only [hembedder, hbatch] at h
          obtain ⟨hlength, hrows, hstatus⟩ := h
          have hsave := saveChunks_ok (List.cons_ne_nil c rest) hlength hrows hd
          have hheld (d : StoredDocument) (hrow : d.row = row) : (s.set d).get? p.docId = some d := by
            rw [← hid, ← hrow]
            exact Table.get?_set_self s d
          refine ⟨(.indexed, none, (c :: rest).length), s.set { row, chunks := _ }, ?_,
            ⟨⟨_, hheld _ rfl, size_chunkRows hlength⟩, nofun, nofun⟩, hstatus⟩
          simp only [hbatch]
          rw [Prog.bind_run_ok hsave]
          rfl

theorem indexStored_ok (hid : row.docId = p.docId) (hd : s.get? p.docId = some { row })
    (h : IndexCompletes p text) :
    ∃ r t d, indexStored p text s = (.ok r, t) ∧ t.get? p.docId = some d ∧
      d.row = { row with indexStatus := r.1, indexError := r.2.1 } ∧ d.chunks.size = r.2.2 ∧
      r.1 ≠ .pending ∧ r.2.1 ≠ some "" := by
  obtain ⟨⟨status, error, n⟩, t, hindex, ⟨⟨chunks, hheld, hsize⟩, hdone, hinked⟩, hstatus⟩ :=
    indexDocument_ok hid hd h
  refine ⟨(status, error, n), t.set (StoredDocument.withStatus { row, chunks } status error),
    StoredDocument.withStatus { row, chunks } status error, ?_, ?_, rfl, hsize, hdone, hinked⟩
  · rw [indexStored, Prog.bind_run_ok hindex]
    exact Prog.bind_run_ok (setIndexStatus_ok hstatus hheld)
  · rw [← hid]
    exact Table.get?_set_self t _

/-- Otherwise something raises, and the row is there already. -/
theorem indexStored_error (hd : s.get? p.docId = some { row }) (h : ¬ IndexCompletes p text) :
    ∃ e t, indexStored p text s = (.error e, t) ∧ t.contains p.docId = true := by
  have hrefused : ∀ {r : IndexStatus × Option String × Nat} {u : DocumentTable},
      indexDocument p text s = (.ok r, u) → u.contains p.docId = true →
      p.refuses (.setStatus p.docId r.1 r.2.1) ≠ none →
      ∃ e t, indexStored p text s = (.error e, t) ∧ t.contains p.docId = true := by
    intro r u hindex hheld hne
    obtain ⟨msg, hmsg⟩ := Option.ne_none_iff_exists'.1 hne
    refine ⟨.database msg, u, ?_, hheld⟩
    rw [indexStored, Prog.bind_run_ok hindex]
    exact Prog.bind_run_error (setIndexStatus_error hmsg u)
  have hraised : ∀ {e : DocError}, indexDocument p text s = (.error e, s) →
      ∃ e t, indexStored p text s = (.error e, t) ∧ t.contains p.docId = true :=
    fun he => ⟨_, s, Prog.bind_run_error he, by rw [Table.contains, hd, Option.isSome_some]⟩
  have hheld : s.contains p.docId = true := by rw [Table.contains, hd, Option.isSome_some]
  rw [IndexCompletes] at h
  cases hchunks : indexChunks p text with
  | nil =>
    rw [hchunks] at h
    apply hrefused (r := (.error, some "no indexable text after chunking", 0)) _ hheld h
    rw [indexDocument, hchunks]
    rfl
  | cons c rest =>
    rw [hchunks] at h
    cases hembedder : p.resolveEmbedder with
    | error msg =>
      apply hraised (e := .embedder msg)
      simp only [indexDocument, hchunks, hembedder]
      rfl
    | ok embedder =>
      cases embedder with
      | none =>
        rw [hembedder] at h
        apply hrefused (r := (.error, some "embedding provider unavailable", 0)) _ hheld h
        simp only [indexDocument, hchunks, hembedder]
        rfl
      | some embedBatch =>
        cases hbatch : embedBatch (c :: rest) with
        | error msg =>
          simp only [hembedder, hbatch] at h
          apply hrefused (r := (.error, some s!"embedding failed: {msg}", 0)) _ hheld h
          simp only [indexDocument, hchunks, hembedder, hbatch]
          rfl
        | ok embeddings =>
          simp only [hembedder, hbatch] at h
          have hindex : indexDocument p text s = (do
              let _ ← saveChunks p p.docId (c :: rest) embeddings
              pure (.indexed, none, (c :: rest).length) :
                DocM (IndexStatus × Option String × Nat)) s := by
            simp only [indexDocument, hchunks, hembedder, hbatch]
          by_cases hlength : (c :: rest).length = embeddings.length
          · cases hrows : p.refuses (.insertChunks p.docId (chunkRows (c :: rest) embeddings)) with
            | some msg =>
              apply hraised (e := .database msg)
              rw [hindex]
              apply Prog.bind_run_error
              rw [saveChunks, if_neg (not_not.2 hlength), if_neg (List.cons_ne_nil c rest)]
              exact Prog.bind_run_error (execute_error hrows s)
            | none =>
              have hsave := saveChunks_ok (List.cons_ne_nil c rest) hlength hrows hd
              apply hrefused (r := (.indexed, none, (c :: rest).length))
                (hindex.trans (Prog.bind_run_ok hsave))
              · exact Table.contains_set hheld
              · exact fun hstatus => h ⟨hlength, hrows, hstatus⟩
          · apply hraised (e := .valueError "chunks and embeddings must have equal length")
            rw [hindex]
            apply Prog.bind_run_error
            rw [saveChunks, if_pos hlength]
            rfl

end Index

/-- The result describes the document as it is stored, and it is no longer pending. -/
structure Reports (d : StoredDocument) (r : PutResult) : Prop where
  size : d.row.sizeBytes = r.sizeBytes
  sha256 : d.row.sha256 = r.sha256
  expiry : d.row.expiresAt = r.expiresAt
  status : d.row.indexStatus = r.indexStatus
  error : d.row.indexError = r.indexError
  chunks : d.chunks.size = r.chunkCount
  settled : r.indexStatus ≠ .pending

/-- A document new to `s` is stored as reported, or the call has left nothing. -/
def HonestOutcome (s : DocumentTable) : Except DocError PutAnswer × DocumentTable → Prop
  | (.ok (.stored r), t) => s.get? r.docId = none ∧ ∃ d, t.get? r.docId = some d ∧ Reports d r
  | (.ok (.refused _), t) => t = s
  | (.error _, t) => t = s

def Honest (p : DocumentPlane) (a : PutArgs) (s : DocumentTable) : Prop :=
  HonestOutcome s (documentPut p a s)

/-- The text of the request is to be indexed: it is asked for and passes the check. -/
def Indexable (p : DocumentPlane) (a : PutArgs) (req : PutRequest) (text : String) : Prop :=
  req.text = some text ∧ a.index = true ∧ (p.checkContentSafety text).safe = true

/-- A document stored for indexing is indexed without a refusal. -/
def Completes (p : DocumentPlane) (a : PutArgs) (s : DocumentTable) : Prop :=
  ∀ req text, p.available = true → (validatePut p a).result s = .ok (.ok req) →
    Indexable p a req text → Storable p (documentRow p a req .pending none) s →
      IndexCompletes p text

section Put

theorem Storable.fresh (h : Storable p row s) : s.get? row.docId = none := by
  have hfree := h.2
  rw [Table.contains] at hfree
  cases hget : s.get? row.docId with
  | none => rfl
  | some d =>
    rw [hget] at hfree
    cases hfree

theorem reports_stored {d : StoredDocument} {n : Nat} (hrow : d.row = documentRow p a req status error)
    (hsize : d.chunks.size = n) (hdone : status ≠ .pending) (hinked : error ≠ some "")
    (warning skipped : Option String) :
    Reports d { putResult p req status error n with warning, indexSkipped := skipped } where
  size := by rw [hrow]; rfl
  sha256 := by rw [hrow]; rfl
  expiry := by rw [hrow]; rfl
  status := by rw [hrow]; rfl
  error := by
    rw [hrow]
    cases error with
    | none => rfl
    | some msg =>
      have hne : msg ≠ "" := fun heq => hinked (congrArg some heq)
      simp only [documentRow, putResult, Option.filter_some, hne, ne_eq, not_false_eq_true, decide_true,
        ↓reduceIte]
  chunks := hsize
  settled := hdone

/-- A row stored as it is to stay. -/
theorem put_honest (hdone : status ≠ .pending) (hinked : error ≠ some "")
    (warning skipped : Option String) :
    HonestOutcome s ((do
      put p (documentRow p a req status error)
      pure (.stored { putResult p req status error 0 with warning, indexSkipped := skipped }) :
        DocM PutAnswer) s) := by
  by_cases hst : Storable p (documentRow p a req status error) s
  · rw [Prog.bind_run_ok (put_ok hst)]
    have hget := Table.get?_set_self s ({ row := documentRow p a req status error } : StoredDocument)
    exact ⟨hst.fresh, { row := documentRow p a req status error }, hget,
      reports_stored rfl rfl hdone hinked warning skipped⟩
  · obtain ⟨e, hput⟩ := put_error hst
    rw [Prog.bind_run_error hput]
    rfl

theorem safetyDiagnostic_inked (v : SafetyCheckResult) : some (safetyDiagnostic v) ≠ some "" := by
  intro h
  have hempty := Option.some.inj h
  rw [safetyDiagnostic] at hempty
  cases hw : v.warning.filter (· ≠ "") with
  | none =>
    rw [hw] at hempty
    exact absurd hempty (by decide)
  | some msg =>
    rw [hw] at hempty
    have hmsg := (Option.filter_eq_some_iff.1 hw).2
    rw [decide_eq_true_eq] at hmsg
    exact hmsg hempty

theorem storeRequest_honest (text : String) (warning : Option String)
    (htext : req.text = some text) (hindex : a.index = true) :
    HonestOutcome s (storeRequest p a req warning s) ↔
      (Storable p (documentRow p a req .pending none) s → IndexCompletes p text) := by
  have hfilter : req.text.filter (fun _ => a.index) = some text := by
    rw [htext, hindex]
    rfl
  simp only [storeRequest, hfilter]
  by_cases hst : Storable p (documentRow p a req .pending none) s
  · rw [Prog.bind_run_ok (put_ok hst), forall_prop_of_true hst]
    have hget := Table.get?_set_self s ({ row := documentRow p a req .pending none } : StoredDocument)
    constructor
    · intro hhonest
      by_contra hfails
      obtain ⟨e, t, hrun, hheld⟩ := indexStored_error hget hfails
      rw [Prog.bind_run_error hrun] at hhonest
      have hheld' : s.contains p.docId = true := by
        rw [← show t = s from hhonest]
        exact hheld
      have hfree : s.contains p.docId = false := hst.2
      rw [hfree] at hheld'
      cases hheld'
    · intro hcompletes
      obtain ⟨⟨status, error, n⟩, t, d, hrun, hheld, hrow, hsize, hdone, hinked⟩ :=
        indexStored_ok rfl hget hcompletes
      rw [Prog.bind_run_ok hrun]
      exact ⟨hst.fresh, d, hheld, reports_stored hrow hsize hdone hinked _ none⟩
  · obtain ⟨e, hput⟩ := put_error hst
    rw [Prog.bind_run_error hput]
    exact ⟨fun _ h => absurd h hst, fun _ => rfl⟩

theorem storeRequest_unindexed (warning : Option String)
    (h : req.text.filter (fun _ => a.index) = none) :
    HonestOutcome s (storeRequest p a req warning s) := by
  simp only [storeRequest, h]
  have hdone : IndexStatus.none ≠ .pending := nofun
  have hinked : (none : Option String) ≠ some "" := nofun
  exact put_honest hdone hinked _ _

/-- `document_put` is honest exactly where a document stored for indexing is indexed and its status
set without a refusal. -/
theorem documentPut_honest_iff (p : DocumentPlane) (a : PutArgs) (s : DocumentTable) :
    Honest p a s ↔ Completes p a s := by
  rw [Honest, documentPut]
  by_cases havailable : p.available = false
  · rw [if_pos havailable]
    refine ⟨fun _ req text h => ?_, fun _ => rfl⟩
    rw [havailable] at h
    cases h
  · rw [if_neg havailable]
    have havailable' : p.available = true := Bool.eq_true_of_not_eq_false havailable
    obtain ⟨r, hrun⟩ := validatePut_run p a s
    have hresult : (validatePut p a).result s = r := congrArg Prod.fst hrun
    cases r with
    | error e =>
      rw [Prog.bind_run_error hrun]
      refine ⟨fun _ req text _ h => ?_, fun _ => rfl⟩
      rw [hresult] at h
      cases h
    | ok validated =>
      rw [Prog.bind_run_ok hrun]
      cases validated with
      | error e =>
        refine ⟨fun _ req text _ h => ?_, fun _ => rfl⟩
        rw [hresult] at h
        cases h
      | ok req =>
        have hcompletes : Completes p a s ↔ ∀ text, Indexable p a req text →
            Storable p (documentRow p a req .pending none) s → IndexCompletes p text := by
          constructor
          · intro h text
            exact h req text havailable' hresult
          · intro h req' text _ hreq
            rw [hresult] at hreq
            cases hreq
            exact h text
        rw [hcompletes]
        cases htext : req.text with
        | none =>
          have hfilter : req.text.filter (fun _ => a.index) = none := by rw [htext]; rfl
          simp only [htext]
          refine iff_of_true (storeRequest_unindexed none hfilter) ?_
          intro text h
          rw [Indexable, htext] at h
          cases h.1
        | some text =>
          simp only [htext]
          by_cases hsafe : (p.checkContentSafety text).safe = false
          · rw [if_pos hsafe]
            have hdone : IndexStatus.error ≠ .pending := nofun
            refine iff_of_true (put_honest hdone (safetyDiagnostic_inked _) none none) ?_
            intro text' ⟨htext', _, hsafe'⟩
            rw [htext] at htext'
            cases htext'
            rw [hsafe] at hsafe'
            cases hsafe'
          · rw [if_neg hsafe]
            by_cases hindex : a.index = true
            · rw [storeRequest_honest text _ htext hindex]
              constructor
              · intro h text' hindexable
                rw [Indexable, htext] at hindexable
                cases hindexable.1
                exact h
              · intro h
                exact h text ⟨htext, hindex, Bool.eq_true_of_not_eq_false hsafe⟩
            · have hfilter : req.text.filter (fun _ => a.index) = none := by
                rw [htext, Option.filter_some, if_neg hindex]
              refine iff_of_true (storeRequest_unindexed _ hfilter) ?_
              intro text' hindexable
              exact absurd hindexable.2.1 hindex

end Put

/-- PostgreSQL keeps no NUL in a text column. -/
def refusesNul : DocStatement → Option String
  | .insertDocument row => refused (row.title :: row.indexError.toList)
  | .insertChunks _ rows => refused (rows.map ChunkRow.content)
  | .setStatus _ _ error => refused error.toList
  | .count => none
where
  refused (texts : List String) : Option String :=
    if texts.any (fun t => t.toList.contains '\x00') then
      some "PostgreSQL text fields cannot contain NUL (0x00) bytes"
    else none

theorem id_id_text (s : String) : id (id s) = id s := rfl

def postgresPlane : DocumentPlane where
  unicode := { lower := id, lower_lower := id_id_text, nfkc := id, repr := fun s => s!"'{s}'" }
  now := 1000
  docId := "5f0c"
  sha256 raw := s!"{raw.size}"
  b64decode _ := none
  decimalDigit c := if c.isDigit then some (c.toNat - 48) else none
  checkContentSafety _ := {}
  resolveEmbedder := .ok (some (fun chunks => .ok (chunks.map (fun _ => some [1]))))
  refuses := refusesNul

theorem nul_text_left_pending :
    ¬ Honest postgresPlane { agentId := "a1", title := "dump", content := "a\x00b" } .empty ∧
      (documentPut postgresPlane { agentId := "a1", title := "dump", content := "a\x00b" }).result
          .empty = .error (.database "PostgreSQL text fields cannot contain NUL (0x00) bytes") ∧
      ((documentPut postgresPlane { agentId := "a1", title := "dump", content := "a\x00b" }).final
          .empty).values.map (fun d => (d.row.docId, d.row.indexStatus, d.chunks.size)) =
        [("5f0c", .pending, 0)] := by
  have hresult : (documentPut postgresPlane
      { agentId := "a1", title := "dump", content := "a\x00b" }).result .empty =
        .error (.database "PostgreSQL text fields cannot contain NUL (0x00) bytes") := by
    decide +kernel
  have hfinal : ((documentPut postgresPlane
      { agentId := "a1", title := "dump", content := "a\x00b" }).final .empty).values.map
        (fun d => (d.row.docId, d.row.indexStatus, d.chunks.size)) = [("5f0c", .pending, 0)] := by
    decide +kernel
  refine ⟨fun h => ?_, hresult, hfinal⟩
  rw [Honest, show documentPut postgresPlane
    { agentId := "a1", title := "dump", content := "a\x00b" } .empty = (_, _) from
      Prod.ext hresult rfl] at h
  have hempty : (documentPut postgresPlane
      { agentId := "a1", title := "dump", content := "a\x00b" }).final .empty = .empty := h
  rw [hempty] at hfinal
  exact absurd hfinal (by decide)

end TappsBrain.Documents
