import TappsBrain.Lib.Prog
import TappsBrain.Lib.Run
import TappsBrain.Lib.Table
import TappsBrain.Entry

namespace TappsBrain
open Lib
set_option autoImplicit true
set_option relaxedAutoImplicit false

/-- The primary key of `idempotency_keys`. -/
structure IdempotencySlot where
  key : String
  projectId : String
  operation : String
deriving DecidableEq

structure IdempotencyRow where
  slot : IdempotencySlot
  responseStatus : Nat
  responseJson : String
  createdAt : Stamp
deriving DecidableEq

abbrev IdempotencyTable := Table IdempotencyRow.slot

/-- What is done with a response body: `json.dumps`, `json.loads` and `"error" in body`. -/
structure ResponseJson (ρ : Type) where
  dumps : ρ → String
  loads : String → Option ρ
  hasError : ρ → Bool
  loads_dumps : ∀ body, loads (dumps body) = some body

inductive ServiceError where
  | checkFailed (key : String)
  | decodeFailed (key : String)
  | saveFailed (key : String)
  | tool (message : String)
deriving DecidableEq

/-- The server around one `IdempotencyStore`, and the save underneath the tool. -/
structure Service (α σ ρ : Type) where
  json : ResponseJson ρ
  memorySave : α → Prog σ String ρ
  ttlHours : Nat := 24
  hour : Stamp := 3600
  /-- The table can be reached. -/
  available : Bool := true

def MAX_RESPONSE_BYTES : Nat := 65536

variable {α σ ρ : Type} (v : Service α σ ρ)

def Service.ttl : Stamp := v.ttlHours * v.hour

namespace IdempotencyStore

def check (now : Stamp) (slot : IdempotencySlot) (t : IdempotencyTable) :
    Except ServiceError (Option (Nat × ρ)) :=
  if !v.available then .error (.checkFailed slot.key)
  else
    match (t.get? slot).filter (fun row => now < row.createdAt + v.ttl) with
    | none => .ok none
    | some row =>
      match v.json.loads row.responseJson with
      | some body => .ok (some (row.responseStatus, body))
      | none => .error (.decodeFailed slot.key)

/-- `INSERT … ON CONFLICT (key, project_id, operation) DO NOTHING`, for a body that is not too
large. -/
def save (now : Stamp) (slot : IdempotencySlot) (status : Nat) (body : ρ) (t : IdempotencyTable) :
    Except ServiceError IdempotencyTable :=
  let text := v.json.dumps body
  if MAX_RESPONSE_BYTES < text.utf8ByteSize then .ok t
  else if !v.available then .error (.saveFailed slot.key)
  else if t.contains slot then .ok t
  else .ok (t.set ⟨slot, status, text, now⟩)

/-- An unreachable table is logged and counts no row. -/
def sweepExpired (now : Stamp) (ttlHours : Option Nat) (t : IdempotencyTable) : IdempotencyTable :=
  if v.available then
    t.filter (fun row => ¬ row.createdAt + (ttlHours.getD v.ttlHours) * v.hour < now)
  else t

end IdempotencyStore

/-- `_idempotency_record`: an unavailable table never discards a committed write. -/
def idempotencyRecord (now : Stamp) (slot : IdempotencySlot) (result : ρ) (t : IdempotencyTable) :
    IdempotencyTable :=
  let statusCode := if v.json.hasError result then 400 else 200
  match IdempotencyStore.save v now slot statusCode result t with
  | .ok t => t
  | .error _ => t

/-- What the `memory_save` tool reads of the request and of the environment. -/
structure ToolCall (α : Type) where
  ikey : Option String
  idempotencyEnabled : Bool
  dsn : String
  projectId : String
  args : α

def ToolCall.idemActive (c : ToolCall α) : Option IdempotencySlot :=
  match c.ikey with
  | some ikey =>
    if ikey ≠ "" && c.idempotencyEnabled && c.dsn ≠ "" && c.projectId ≠ "" then
      some ⟨ikey, c.projectId, "memory_save"⟩
    else none
  | none => none

/-- The `memory_save` tool, of which nothing else happens in between. -/
def memorySaveTool (now : Stamp) (c : ToolCall α) :
    Prog (IdempotencyTable × σ) ServiceError ρ := fun (t, m) =>
  let execute : Except ServiceError ρ × σ :=
    match v.memorySave c.args m with
    | (.ok result, m) => (.ok result, m)
    | (.error e, m) => (.error (.tool e), m)
  match c.idemActive with
  | none => (execute.1, t, execute.2)
  | some slot =>
    match IdempotencyStore.check v now slot t with
    | .error e => (.error e, t, m)
    | .ok (some (_, body)) => (.ok body, t, m)
    | .ok none =>
      match execute with
      | (.ok result, m) => (.ok result, idempotencyRecord v now slot result t, m)
      | (.error e, m) => (.error e, t, m)

end TappsBrain
