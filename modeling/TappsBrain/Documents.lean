import Mathlib
import TappsBrain.Lib.Prog
import TappsBrain.Lib.Table
import TappsBrain.Chunking
import TappsBrain.Entry

namespace TappsBrain.Documents
open Lib
set_option autoImplicit true
set_option relaxedAutoImplicit false

inductive IndexStatus where
  | none | pending | indexed | error
deriving DecidableEq, Repr

/-- A row of `documents`, of one project. -/
structure DocumentRow where
  docId : String
  agentId : String
  title : String
  contentType : String := "text/plain"
  content : ByteArray
  sha256 : String
  tags : List String := []
  indexStatus : IndexStatus := .none
  indexError : Option String := none
  retention : String := "project"
  createdAt : Stamp
  expiresAt : Option Stamp
deriving DecidableEq

/-- `size_bytes`. -/
def DocumentRow.sizeBytes (row : DocumentRow) : Nat := row.content.size

/-- A row of `document_chunks`, under its document. -/
structure ChunkRow where
  chunkNo : Nat
  content : String
  embedding : Option (List ℚ)
deriving DecidableEq, Repr

/-- A document with the chunks whose foreign key it is: they go when it goes. -/
structure StoredDocument where
  row : DocumentRow
  chunks : Table ChunkRow.chunkNo := .empty

abbrev DocumentTable := Table (fun d : StoredDocument => d.row.docId)

inductive DocStatement where
  | count
  | insertDocument (row : DocumentRow)
  | insertChunks (docId : String) (rows : List ChunkRow)
  | setStatus (docId : String) (status : IndexStatus) (error : Option String)

inductive DocError where
  | valueError (message : String)
  | database (message : String)
  | uniqueViolation (docId : String)
  | foreignKeyViolation (docId : String)
  | embedder (message : String)
deriving DecidableEq, Repr

/-- `DocumentsConfig`. -/
structure DocumentsConfig where
  maxDocBytes : Nat := 2097152
  maxDocsPerProject : Nat := 500
  maxChunksPerDoc : Nat := 256

/-- What a call meets: the store it is for, the identifier and the moment it draws, the check, the
embedding provider and the statements the database refuses. -/
structure DocumentPlane where
  available : Bool := true
  cfg : DocumentsConfig := {}
  unicode : Unicode
  now : Stamp
  docId : String
  sha256 : ByteArray → String
  b64decode : String → Option ByteArray
  decimalDigit : Char → Option Nat
  checkContentSafety : String → SafetyCheckResult
  resolveEmbedder : Except String (Option (List String → Except String (List (Option (List ℚ)))))
  refuses : DocStatement → Option String

abbrev DocM := Prog DocumentTable DocError

section Store
variable (p : DocumentPlane)

def execute (st : DocStatement) : DocM Unit :=
  match p.refuses st with
  | some msg => Prog.raise (.database msg)
  | none => pure ()

/-- `PostgresDocumentStore.count`. -/
def count : DocM Nat := do
  execute p .count
  Prog.read Table.size

/-- `PostgresDocumentStore.put`. -/
def put (row : DocumentRow) : DocM Unit := do
  execute p (.insertDocument row)
  if ← Prog.read (fun s : DocumentTable => s.contains row.docId) then
    Prog.raise (.uniqueViolation row.docId)
  else Prog.modify (fun s => s.set { row })

def chunkRows (chunks : List String) (embeddings : List (Option (List ℚ))) : List ChunkRow :=
  ((chunks.zip embeddings).zipIdx).map (fun ((content, embedding), chunkNo) =>
    { chunkNo, content, embedding })

/-- `PostgresDocumentStore.save_chunks`. -/
def saveChunks (docId : String) (chunks : List String) (embeddings : List (Option (List ℚ))) :
    DocM Nat :=
  if chunks.length ≠ embeddings.length then
    Prog.raise (.valueError "chunks and embeddings must have equal length")
  else if chunks = [] then pure 0
  else do
    let rows := chunkRows chunks embeddings
    execute p (.insertChunks docId rows)
    match ← Prog.read (fun s : DocumentTable => s.get? docId) with
    | none => Prog.raise (.foreignKeyViolation docId)
    | some d =>
      Prog.modify (fun s => s.set { d with chunks := rows.foldl Table.set d.chunks })
      pure chunks.length

def StoredDocument.withStatus (d : StoredDocument) (status : IndexStatus) (error : Option String) :
    StoredDocument :=
  { d with row := { d.row with indexStatus := status, indexError := error } }

/-- `PostgresDocumentStore.set_index_status`. -/
def setIndexStatus (docId : String) (status : IndexStatus) (error : Option String) : DocM Unit := do
  execute p (.setStatus docId status error)
  match ← Prog.read (fun s : DocumentTable => s.get? docId) with
  | none => pure ()
  | some d => Prog.modify (fun s => s.set (d.withStatus status error))

end Store

def MAX_TITLE_CHARS : Nat := 512
def MAX_DOCUMENT_TAGS : Nat := 32
def MAX_RETENTION_DAYS : Nat := 3650
def DEFAULT_CHUNK_CHARS : Int := 1000
def MICROS_PER_DAY : Nat := 86400000000

/-- `bytes.strip` takes these. -/
def isByteSpace (b : UInt8) : Bool := (9 ≤ b && b ≤ 13) || b == 32

structure ErrorEnvelope where
  error : String
  detail : String
  maxDocBytes : Option Nat := none
  maxDocsPerProject : Option Nat := none
deriving DecidableEq, Repr

def badRequest (detail : String) : ErrorEnvelope := { error := "bad_request", detail }

def unavailable : ErrorEnvelope :=
  { error := "documents_unavailable"
    detail := "Document plane requires a Postgres-backed store." }

structure PutArgs where
  agentId : String
  title : String
  content : String := ""
  contentBase64 : String := ""
  contentType : String := "text/plain"
  tags : Option (List String) := none
  index : Bool := true
  retention : String := "project"

structure PutRequest where
  title : String
  tags : List String
  raw : ByteArray
  text : Option String
  expiresAt : Option Stamp

structure PutResult where
  docId : String
  sizeBytes : Nat
  sha256 : String
  indexStatus : IndexStatus
  chunkCount : Nat
  expiresAt : Option Stamp
  indexError : Option String
  warning : Option String := none
  indexSkipped : Option String := none
deriving DecidableEq, Repr

inductive PutAnswer where
  | refused (e : ErrorEnvelope)
  | stored (r : PutResult)
deriving DecidableEq, Repr

section Service
variable (p : DocumentPlane)

/-- The number `days:(\d{1,4})` captures. -/
def retentionDays (spec : List Char) : Option Nat :=
  match spec with
  | 'd' :: 'a' :: 'y' :: 's' :: ':' :: digits =>
    if 1 ≤ digits.length ∧ digits.length ≤ 4 then
      digits.foldlM (fun n c => (p.decimalDigit c).map (fun d => 10 * n + d)) 0
    else none
  | _ => none

/-- `parse_retention`. -/
def parseRetention (retention : String) : Except String (Option Stamp) :=
  let spec := strip retention
  if spec = "project" then .ok none
  else
    match (retentionDays p spec.toList).filter (fun n => 1 ≤ n ∧ n ≤ MAX_RETENTION_DAYS) with
    | some days => .ok (some (p.now + days * MICROS_PER_DAY))
    | none => .error (s!"invalid retention {p.unicode.repr retention}: expected 'project' or " ++
        s!"'days:<1-{MAX_RETENTION_DAYS}>'")

/-- `_decode_content`. -/
def decodeContent (content contentBase64 : String) : Except ErrorEnvelope ByteArray :=
  if (content != "") == (strip contentBase64 != "") then
    .error (badRequest "Provide exactly one of content or content_base64.")
  else if content ≠ "" then .ok content.toUTF8
  else
    match p.b64decode (strip contentBase64) with
    | some raw => .ok raw
    | none => .error (badRequest "content_base64 is not valid base64.")

def cleanTags (tags : Option (List String)) : List String :=
  ((tags.getD []).map strip).filter (· ≠ "")

/-- `_validate_put` up to the count of the stored documents. -/
def validateInputs (a : PutArgs) : Except ErrorEnvelope ByteArray :=
  if strip a.title = "" then .error (badRequest "title is required.")
  else if MAX_TITLE_CHARS < (strip a.title).length then
    .error (badRequest s!"title exceeds {MAX_TITLE_CHARS} characters.")
  else if MAX_DOCUMENT_TAGS < (cleanTags a.tags).length then
    .error (badRequest s!"at most {MAX_DOCUMENT_TAGS} tags allowed.")
  else
    match decodeContent p a.content a.contentBase64 with
    | .error e => .error e
    | .ok raw =>
      if raw.toList.all isByteSpace then .error (badRequest "content is empty.")
      else if p.cfg.maxDocBytes < raw.size then
        .error
          { error := "document_too_large"
            detail := s!"Document is {raw.size} bytes; max is {p.cfg.maxDocBytes}."
            maxDocBytes := some p.cfg.maxDocBytes }
      else .ok raw

def limitExceeded : ErrorEnvelope :=
  { error := "document_limit_exceeded"
    detail := s!"Project already holds {p.cfg.maxDocsPerProject} documents."
    maxDocsPerProject := some p.cfg.maxDocsPerProject }

/-- `_validate_put`. -/
def validatePut (a : PutArgs) : DocM (Except ErrorEnvelope PutRequest) :=
  match validateInputs p a with
  | .error e => pure (.error e)
  | .ok raw => do
    if p.cfg.maxDocsPerProject ≤ (← count p) then pure (.error (limitExceeded p))
    else
      match parseRetention p a.retention with
      | .error msg => pure (.error (badRequest msg))
      | .ok expiresAt =>
        pure (.ok
          { title := strip a.title
            tags := cleanTags a.tags
            raw
            text := String.fromUTF8? raw
            expiresAt })

def documentRow (a : PutArgs) (req : PutRequest) (status : IndexStatus) (error : Option String) :
    DocumentRow where
  docId := p.docId
  agentId := a.agentId
  title := req.title
  contentType := if a.contentType = "" then "text/plain" else a.contentType
  content := req.raw
  sha256 := p.sha256 req.raw
  tags := req.tags
  indexStatus := status
  indexError := error
  retention := a.retention
  createdAt := p.now
  expiresAt := req.expiresAt

/-- `chunk_text(text, max_chunks=max_chunks)`; the fuel is enough for any text. -/
def indexChunks (text : String) : List String :=
  (Chunking.chunkText text.length text DEFAULT_CHUNK_CHARS p.cfg.maxChunksPerDoc).getD []

/-- `_index_document`. -/
def indexDocument (text : String) : DocM (IndexStatus × Option String × Nat) :=
  match indexChunks p text with
  | [] => pure (.error, some "no indexable text after chunking", 0)
  | chunks =>
    match p.resolveEmbedder with
    | .error msg => Prog.raise (.embedder msg)
    | .ok none => pure (.error, some "embedding provider unavailable", 0)
    | .ok (some embedBatch) =>
      match embedBatch chunks with
      | .error msg => pure (.error, some s!"embedding failed: {msg}", 0)
      | .ok embeddings => do
        let _ ← saveChunks p p.docId chunks embeddings
        pure (.indexed, none, chunks.length)

/-- `_put_result`. -/
def putResult (req : PutRequest) (status : IndexStatus) (error : Option String) (chunkCount : Nat) :
    PutResult where
  docId := p.docId
  sizeBytes := req.raw.size
  sha256 := p.sha256 req.raw
  indexStatus := status
  chunkCount := chunkCount
  expiresAt := req.expiresAt
  indexError := error.filter (· ≠ "")

/-- `safety.warning or "content failed safety scan"`. -/
def safetyDiagnostic (v : SafetyCheckResult) : String :=
  (v.warning.filter (· ≠ "")).getD "content failed safety scan"

/-- `document_put` from the stored row on: index the text and set the status. -/
def indexStored (text : String) : DocM (IndexStatus × Option String × Nat) := do
  let (status, error, chunkCount) ← indexDocument p text
  setIndexStatus p p.docId status error
  pure (status, error, chunkCount)

/-- `document_put` of a request, with the text to index if there is one. -/
def storeRequest (a : PutArgs) (req : PutRequest) (warning : Option String) : DocM PutAnswer :=
  match req.text.filter (fun _ => a.index) with
  | none => do
    put p (documentRow p a req .none none)
    pure (.stored
      { putResult p req .none none 0 with
        warning := warning.filter (· ≠ "")
        indexSkipped := if a.index then
          some "content is not UTF-8 text; caller-side extraction required" else none })
  | some text => do
    put p (documentRow p a req .pending none)
    let (status, error, chunkCount) ← indexStored p text
    pure (.stored
      { putResult p req status error chunkCount with warning := warning.filter (· ≠ "") })

/-- `document_put`. -/
def documentPut (a : PutArgs) : DocM PutAnswer :=
  if p.available = false then pure (.refused unavailable)
  else do
    match ← validatePut p a with
    | .error e => pure (.refused e)
    | .ok req =>
      match req.text with
      | none => storeRequest p a req none
      | some text =>
        let safety := p.checkContentSafety text
        if safety.safe = false then do
          put p (documentRow p a req .error (some (safetyDiagnostic safety)))
          pure (.stored (putResult p req .error (some (safetyDiagnostic safety)) 0))
        else storeRequest p a req safety.warning

end Service
end TappsBrain.Documents
