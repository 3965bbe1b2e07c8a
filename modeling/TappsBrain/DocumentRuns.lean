import TappsBrain.DocumentSearch

namespace TappsBrain.Documents
open Lib
set_option autoImplicit true
set_option relaxedAutoImplicit false

variable {r : SafetyRules} {p : DocumentPlane} {a : PutArgs} {s t : DocumentTable} {raw : ByteArray}
  {text : String} {d : StoredDocument} {c : ChunkRow}

/-- A document of the call: its chunks are cut from a text that was to be indexed and passed. -/
structure Written (p : DocumentPlane) (a : PutArgs) (raw : ByteArray) (d : StoredDocument) : Prop where
  docId : d.row.docId = p.docId
  content : d.row.content = raw
  chunks : ∀ c ∈ d.chunks.values, ∃ text, String.fromUTF8? raw = some text ∧ a.index = true ∧
    (p.checkContentSafety text).safe = true ∧ c.content ∈ indexChunks p text

/-- The documents of `s`, and at most one that the call wrote. -/
def Grown (p : DocumentPlane) (a : PutArgs) (raw : ByteArray) (s t : DocumentTable) : Prop :=
  ∀ d ∈ t.values, (d ∈ s.values ∧ d.row.docId ≠ p.docId) ∨ Written p a raw d

section Put

theorem Grown.written (h : Grown p a raw s t) (hd : t.get? p.docId = some d) : Written p a raw d := by
  rcases h d (Table.mem_of_get? hd) with ⟨-, hne⟩ | hwritten
  · exact absurd (Table.key_of_get? hd) hne
  · exact hwritten

theorem Grown.set (h : Grown p a raw s t) (hd : Written p a raw d) : Grown p a raw s (t.set d) := by
  intro e he
  rcases Table.mem_set he with rfl | he
  · exact .inr hd
  · exact h e he

theorem grown_put {row : DocumentRow} (hst : Storable p row s) (hid : row.docId = p.docId)
    (hcontent : row.content = raw) : Grown p a raw s (s.set { row }) := by
  intro d hd
  rcases Table.mem_set hd with rfl | hd
  · exact .inr ⟨hid, hcontent, nofun⟩
  · refine .inl ⟨hd, fun heq => ?_⟩
    have hheld := Table.contains_of_mem hd
    rw [heq, ← hid, hst.2] at hheld
    cases hheld

theorem execute_keeps {I : DocumentTable → Prop} (st : DocStatement) : Keeps I (execute p st) := by
  rw [execute]
  split
  · exact Keeps.raise
  · exact Keeps.pure trivial

theorem content_chunkRows {chunks : List String} {embeddings : List (Option (List ℚ))}
    (hc : c ∈ chunkRows chunks embeddings) : c.content ∈ chunks := by
  rw [chunkRows, List.mem_map] at hc
  obtain ⟨⟨⟨content, embedding⟩, n⟩, hmem, rfl⟩ := hc
  have hzip : (content, embedding) ∈ chunks.zip embeddings := by
    have hfst := List.mem_map_of_mem (f := Prod.fst) hmem
    rwa [List.zipIdx_map_fst] at hfst
  exact (List.of_mem_zip hzip).1

theorem mem_foldl_set {rows : List ChunkRow} {chunks : Table ChunkRow.chunkNo}
    (hc : c ∈ (rows.foldl Table.set chunks).values) : c ∈ chunks.values ∨ c ∈ rows := by
  induction rows generalizing chunks with
  | nil => exact .inl hc
  | cons row rest ih =>
    rcases ih hc with hmem | hmem
    · rcases Table.mem_set hmem with rfl | hmem
      · exact .inr List.mem_cons_self
      · exact .inl hmem
    · exact .inr (List.mem_cons_of_mem row hmem)

variable (htext : String.fromUTF8? raw = some text) (hindex : a.index = true)
  (hsafe : (p.checkContentSafety text).safe = true)
include htext hindex hsafe

theorem saveChunks_keeps (embeddings : List (Option (List ℚ))) :
    Keeps (Grown p a raw s) (saveChunks p p.docId (indexChunks p text) embeddings) := by
  rw [saveChunks]
  split
  · exact Keeps.raise
  split
  · exact Keeps.pure trivial
  apply (execute_keeps _).bind
  intro _ _ u hu
  rw [Prog.bind_run_ok (Prog.read_run _ u)]
  cases hget : u.get? p.docId with
  | none => exact hu
  | some d =>
    have hwritten := hu.written hget
    refine ⟨hu.set ⟨hwritten.docId, hwritten.content, ?_⟩, trivial⟩
    intro c hc
    rcases mem_foldl_set hc with hold | hnew
    · exact hwritten.chunks c hold
    · exact ⟨text, htext, hindex, hsafe, content_chunkRows hnew⟩

theorem indexDocument_keeps : Keeps (Grown p a raw s) (indexDocument p text) := by
  rw [indexDocument]
  split
  · exact Keeps.pure trivial
  · next chunks _ =>
    split
    · exact Keeps.raise
    · exact Keeps.pure trivial
    · split
      · exact Keeps.pure trivial
      · apply (saveChunks_keeps htext hindex hsafe _).bind
        intro _ _
        exact Keeps.pure trivial

omit htext hindex hsafe in
theorem setIndexStatus_keeps (status : IndexStatus) (error : Option String) :
    Keeps (Grown p a raw s) (setIndexStatus p p.docId status error) := by
  apply (execute_keeps _).bind
  intro _ _ u hu
  rw [Prog.bind_run_ok (Prog.read_run _ u)]
  cases hget : u.get? p.docId with
  | none => exact ⟨hu, trivial⟩
  | some d =>
    have hwritten := hu.written hget
    exact ⟨hu.set ⟨hwritten.docId, hwritten.content, hwritten.chunks⟩, trivial⟩

theorem indexStored_keeps : Keeps (Grown p a raw s) (indexStored p text) := by
  apply (indexDocument_keeps htext hindex hsafe).bind
  intro result _
  apply (setIndexStatus_keeps _ _).bind
  intro _ _
  exact Keeps.pure trivial

omit htext hindex hsafe

/-- A request is the validated input. -/
theorem validatePut_request {req : PutRequest} (h : validatePut p a s = (.ok (.ok req), t)) :
    validateInputs p a = .ok req.raw ∧ req.text = String.fromUTF8? req.raw := by
  cases hin : validateInputs p a with
  | error e =>
    rw [validatePut, hin] at h
    cases h
  | ok raw =>
    simp only [validatePut, hin] at h
    rcases count_run p s with ⟨e, hcount⟩ | hcount
    · rw [Prog.bind_run_error hcount] at h
      cases h
    · rw [Prog.bind_run_ok hcount] at h
      split at h
      · cases h
      · cases hret : parseRetention p a.retention with
        | error msg =>
          rw [hret] at h
          cases h
        | ok expiresAt =>
          rw [hret] at h
          cases h
          exact ⟨rfl, rfl⟩

/-- A call ends as it began, or with the document it wrote beside those of before. -/
def PutLeaves (p : DocumentPlane) (a : PutArgs) (s t : DocumentTable) : Prop :=
  t = s ∨ ∃ raw, validateInputs p a = .ok raw ∧ Grown p a raw s t

theorem storeOnly_leaves {req : PutRequest} {status : IndexStatus} {error : Option String}
    (hreq : validateInputs p a = .ok req.raw) (answer : PutAnswer) :
    PutLeaves p a s ((do
      put p (documentRow p a req status error)
      pure answer : DocM PutAnswer) s).2 := by
  by_cases hst : Storable p (documentRow p a req status error) s
  · rw [Prog.bind_run_ok (put_ok hst)]
    exact .inr ⟨req.raw, hreq, grown_put hst rfl rfl⟩
  · obtain ⟨e, hput⟩ := put_error hst
    rw [Prog.bind_run_error hput]
    exact .inl rfl

theorem indexedAnswer_keeps (req : PutRequest) {text : String}
    (hindexed : Keeps (Grown p a raw s) (indexStored p text)) (warning : Option String) :
    Keeps (Grown p a raw s) (do
      let (status, error, chunkCount) ← indexStored p text
      pure (.stored { putResult p req status error chunkCount with
        warning := warning.filter (· ≠ "") }) : DocM PutAnswer) := by
  apply hindexed.bind
  intro _ _
  exact Keeps.pure trivial

theorem storeRequest_leaves {req : PutRequest} (hreq : validateInputs p a = .ok req.raw)
    (htext : req.text = String.fromUTF8? req.raw)
    (hsafe : ∀ text, req.text = some text → (p.checkContentSafety text).safe = true)
    (warning : Option String) : PutLeaves p a s (storeRequest p a req warning s).2 := by
  cases hfilter : req.text.filter (fun _ => a.index) with
  | none =>
    simp only [storeRequest, hfilter]
    exact storeOnly_leaves hreq _
  | some text =>
    obtain ⟨hsome, hindex⟩ := Option.filter_eq_some_iff.1 hfilter
    simp only [storeRequest, hfilter]
    by_cases hst : Storable p (documentRow p a req .pending none) s
    · rw [Prog.bind_run_ok (put_ok hst)]
      have hindexed : Keeps (Grown p a req.raw s) (indexStored p text) :=
        indexStored_keeps (htext.symm.trans hsome) hindex (hsafe text hsome)
      have hkeeps := indexedAnswer_keeps req hindexed warning
      exact .inr ⟨req.raw, hreq, hkeeps.final (grown_put hst rfl rfl)⟩
    · obtain ⟨e, hput⟩ := put_error hst
      rw [Prog.bind_run_error hput]
      exact .inl rfl

theorem documentPut_leaves (p : DocumentPlane) (a : PutArgs) (s : DocumentTable) :
    PutLeaves p a s ((documentPut p a).final s) := by
  rw [Prog.final, documentPut]
  by_cases havailable : p.available = false
  · rw [if_pos havailable]
    exact .inl rfl
  · rw [if_neg havailable]
    obtain ⟨result, hrun⟩ := validatePut_run p a s
    cases result with
    | error e =>
      rw [Prog.bind_run_error hrun]
      exact .inl rfl
    | ok validated =>
      rw [Prog.bind_run_ok hrun]
      cases validated with
      | error e => exact .inl rfl
      | ok req =>
        obtain ⟨hreq, hdecoded⟩ := validatePut_request hrun
        cases htext : req.text with
        | none =>
          simp only [htext]
          apply storeRequest_leaves hreq hdecoded
          intro text hsome
          rw [htext] at hsome
          cases hsome
        | some text =>
          simp only [htext]
          by_cases hsafe : (p.checkContentSafety text).safe = false
          · rw [if_pos hsafe]
            exact storeOnly_leaves hreq _
          · rw [if_neg hsafe]
            apply storeRequest_leaves hreq hdecoded
            intro text' hsome
            rw [htext] at hsome
            cases hsome
            exact Bool.eq_true_of_not_eq_false hsafe

end Put

/-- The check lets the text through and flags nothing in it. -/
def Unflagged (r : SafetyRules) (text : String) : Prop :=
  (checkContentSafety r none text).safe = true ∧ (checkContentSafety r none text).flaggedPatterns = []

/-- A chunk of the text under some cap. -/
def IsChunk (text content : String) : Prop :=
  ∃ maxChunks : Int, content ∈
    (Chunking.chunkText text.length text DEFAULT_CHUNK_CHARS maxChunks).getD []

/-- The chunks of the document are pieces of an unflagged text and begin unflagged themselves. -/
def Cleared (r : SafetyRules) (d : StoredDocument) : Prop :=
  ∀ c ∈ d.chunks.values, ∃ text, String.fromUTF8? d.row.content = some text ∧ Unflagged r text ∧
    IsChunk text c.content ∧ Unflagged r (snippetOf c.content)

/-- A call on the documents of a project. -/
inductive DocCall where
  | put (p : DocumentPlane) (a : PutArgs)
  | delete (docId : String) (refused : Bool)
  | sweep (now : Stamp) (refused : Bool)

/-- `document_put` under the rules, `document_delete` and `delete_expired`. -/
def DocCall.step (r : SafetyRules) : DocCall → DocumentTable → DocumentTable
  | .put p a, s => (documentPut { p with checkContentSafety := checkContentSafety r none } a).final s
  | .delete docId refused, s => if refused = true ∨ strip docId = "" then s else s.pop (strip docId)
  | .sweep now refused, s =>
    if refused = true then s else s.filter (fun d => d.row.expiresAt.all (fun t => now ≤ t))

/-- What a put is to index is not rewritten by the check, which flags the beginning of no chunk. -/
def DocCall.Clear (r : SafetyRules) : DocCall → DocumentTable → Prop
  | .put p a, _ => ∀ raw text, validateInputs p a = .ok raw → String.fromUTF8? raw = some text →
      a.index = true → (checkContentSafety r none text).safe = true →
        (checkContentSafety r none text).sanitisedContent = none ∧
          ∀ content ∈ indexChunks p text, Unflagged r (snippetOf content)
  | _, _ => True

/-- The hit is cut from a document that is stored, indexed and not expired, and shows unflagged
text of it. -/
structure Checked (r : SafetyRules) (now : Stamp) (s : DocumentTable) (hit : DocumentSearchHit) :
    Prop where
  current : ∃ d ∈ s.values, d.row.docId = hit.docId ∧ d.row.indexStatus = .indexed ∧
    (∀ t, d.row.expiresAt = some t → now < t) ∧
    ∃ text content, String.fromUTF8? d.row.content = some text ∧ Unflagged r text ∧
      IsChunk text content ∧ hit.snippet = snippetOf content
  unflagged : Unflagged r hit.snippet

section Runs

theorem step_cleared (call : DocCall) (h : ∀ d ∈ s.values, Cleared r d) (hclear : call.Clear r s) :
    ∀ d ∈ (call.step r s).values, Cleared r d := by
  cases call with
  | put p a =>
    intro d hd
    rcases documentPut_leaves { p with checkContentSafety := checkContentSafety r none } a s with
      heq | ⟨raw, hraw, hgrown⟩
    · rw [DocCall.step, heq] at hd
      exact h d hd
    · rcases hgrown d hd with ⟨hold, -⟩ | hwritten
      · exact h d hold
      · intro c hc
        obtain ⟨text, htext, hindex, hsafe, hpiece⟩ := hwritten.chunks c hc
        obtain ⟨hkept, hchunks⟩ := hclear raw text hraw htext hindex hsafe
        refine ⟨text, ?_, ⟨hsafe, (checkContentSafety_rewrites hsafe).1 hkept⟩, ⟨_, hpiece⟩,
          hchunks _ hpiece⟩
        rw [hwritten.content]
        exact htext
  | delete docId refused =>
    intro d hd
    rw [DocCall.step] at hd
    split at hd
    · exact h d hd
    · exact h d (Table.mem_pop hd)
  | sweep now refused =>
    intro d hd
    rw [DocCall.step] at hd
    split at hd
    · exact h d hd
    · exact h d (List.mem_of_mem_filter hd)

theorem searchJoin_checked {now : Stamp} (h : ∀ d ∈ s.values, Cleared r d) {x : Candidate}
    (hx : x ∈ searchJoin now s) {hit : DocumentSearchHit} (hshows : hit.Shows x) :
    Checked r now s hit := by
  obtain ⟨d, hd, hx⟩ := List.mem_flatMap.1 hx
  obtain ⟨hd, hshown⟩ := List.mem_filter.1 hd
  obtain ⟨c, hc, rfl⟩ := List.mem_map.1 hx
  obtain ⟨text, htext, hunflagged, hpiece, hsnippet⟩ := h d hd c hc
  obtain ⟨hid, -, -, hsnip⟩ := hshows
  rw [DocumentRow.shown, Bool.and_eq_true, decide_eq_true_eq] at hshown
  have hcurrent : ∀ t, d.row.expiresAt = some t → now < t := by
    intro t ht
    have hall := hshown.2
    rw [ht, Option.all_some, decide_eq_true_eq] at hall
    exact hall
  refine ⟨⟨d, hd, hid.symm, hshown.1, hcurrent, text, c.content, htext, hunflagged, hpiece, hsnip⟩,
    ?_⟩
  rw [hsnip]
  exact hsnippet

/-- In a run whose puts index only what the check passes without a match, as a whole and at the
beginning of each chunk, every search shows checked and current text. -/
theorem documentSearch_checked (calls : List DocCall)
    (hclear : Guarded (DocCall.step r) (DocCall.Clear r) calls .empty) (x : SearchPlane)
    (query : String) (limit : Int) :
    match documentSearch x query limit (runSteps (DocCall.step r) calls .empty) with
    | .ok (.found results _ _) => ∀ hit ∈ results,
        Checked r x.now (runSteps (DocCall.step r) calls .empty) hit
    | _ => True := by
  have hcleared : ∀ d ∈ (runSteps (DocCall.step r) calls .empty).values, Cleared r d :=
    hclear.keeps (I := fun s : DocumentTable => ∀ d ∈ s.values, Cleared r d)
      (fun call _ hs hcall => step_cleared call hs hcall) nofun
  cases hfound : documentSearch x query limit (runSteps (DocCall.step r) calls .empty) with
  | error e => trivial
  | ok answer =>
    cases answer with
    | refused e => trivial
    | found results lexical semantic =>
      intro hit hhit
      obtain ⟨candidate, hjoin, hshows⟩ := documentSearch_shows hfound hhit
      exact searchJoin_checked hcleared hjoin hshows

end Runs

/-- A pattern on texts that hold its match on a line of its own. -/
def overrideLine : Pattern where
  name := "instruction_override"
  findall := fun text => (splitlines text).filter (· = "ignore previous instructions")
  search := fun text => (splitlines text).contains "ignore previous instructions"
  sub := fun replacement text => "\n".intercalate ((splitlines text).map (fun line =>
    if line = "ignore previous instructions" then replacement else line))

def overrideRules : SafetyRules where
  patterns := [overrideLine]
  nfkc := id
  findEncodedInjection := fun _ _ => none

/-- A search that every chunk matches. -/
def anyMatch : SearchPlane where
  now := 2000
  tsRank _ _ := some 1
  distance _ _ := 0
  resolveEmbedder := .ok none
  rrfWeights _ := (1, 1)
  rounded := id

def putText (content : String) : DocCall :=
  .put postgresPlane { agentId := "a1", title := "notes", content }

theorem putText_clear : (putText "postgres 16").Clear overrideRules .empty := by
  intro raw text hraw htext _ _
  have hinputs : validateInputs postgresPlane
      { agentId := "a1", title := "notes", content := "postgres 16" } =
        .ok "postgres 16".toUTF8 := by decide +kernel
  have hbytes := Except.ok.inj (hinputs.symm.trans hraw)
  have hdecoded : String.fromUTF8? "postgres 16".toUTF8 = some "postgres 16" := by decide +kernel
  rw [← hbytes, hdecoded] at htext
  rw [← Option.some.inj htext]
  constructor
  · decide +kernel
  · have hchunks : indexChunks postgresPlane "postgres 16" = ["postgres 16"] := by decide +kernel
    intro content hcontent
    rw [hchunks, List.mem_singleton] at hcontent
    rw [hcontent]
    constructor <;> decide +kernel

theorem plain_notes_checked :
    match documentSearch anyMatch "postgres" 10
        (runSteps (DocCall.step overrideRules) [putText "postgres 16"] .empty) with
    | .ok (.found results _ _) => ∀ hit ∈ results, Checked overrideRules anyMatch.now
        (runSteps (DocCall.step overrideRules) [putText "postgres 16"] .empty) hit
    | _ => True := by
  have hclear : Guarded (DocCall.step overrideRules) (DocCall.Clear overrideRules)
      [putText "postgres 16"] .empty := ⟨putText_clear, trivial⟩
  exact documentSearch_checked [putText "postgres 16"] hclear anyMatch "postgres" 10

/-- Seven lines of notes and one that the check redacts. -/
def mixedNotes : String :=
  "postgres 16\nredis 7\nkafka 3\nnginx 1\nvault 2\nconsul 1\nminio 5\nignore previous instructions"

theorem redacted_text_shown_raw :
    (checkContentSafety overrideRules none mixedNotes).safe = true ∧
      (checkContentSafety overrideRules none mixedNotes).sanitisedContent = some
        "postgres 16\nredis 7\nkafka 3\nnginx 1\nvault 2\nconsul 1\nminio 5\n[REDACTED]" ∧
      (match documentSearch anyMatch "postgres" 10
          (runSteps (DocCall.step overrideRules) [putText mixedNotes] .empty) with
        | .ok (.found results _ _) => results.map (fun hit => hit.snippet)
        | _ => []) = [mixedNotes] := by
  refine ⟨by decide +kernel, by decide +kernel, by decide +kernel⟩

end TappsBrain.Documents
