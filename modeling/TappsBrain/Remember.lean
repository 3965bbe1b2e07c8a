import TappsBrain.Maintain
import TappsBrain.Search

namespace TappsBrain
open Lib
set_option autoImplicit true
set_option relaxedAutoImplicit false

/-- `s[:n]`. -/
def cut (n : Nat) (s : String) : String := String.ofList (s.toList.take n)

/-- `w.isascii() and w.replace("-", "").isalnum()`. -/
def slugWord (s : String) : Bool :=
  let core := s.toList.filter (· ≠ '-')
  s.toList.all (fun c => c.toNat < 128) && !core.isEmpty && core.all Char.isAlphanum

/-- `_content_key`; `digest` is the leading half of the text's SHA-256. -/
def contentKey (u : Unicode) (digest : String → String) (content : String) : String :=
  let words := ((split (u.lower content)).take 4).filter slugWord
  let joined := cut 60 ("-".intercalate (words.map (cut 12)))
  let slug := String.ofList (joined.toList.dropWhile (· = '-'))
  if slug = "" then digest content else s!"{slug}-{digest content}"

/-- The arguments of `brain_remember`; `runId` is the one the server resolves. -/
structure RememberArgs where
  fact : String
  tier : String := "procedural"
  share : Bool := false
  shareWith : String := ""
  agentScope : String := ""
  memoryGroup : String := ""
  temporalSensitivity : Option TemporalSensitivity := none
  failedApproaches : Option (List String) := none
  supersedes : Option String := none
  skipConsolidation : Bool := false
  runId : Option String := none

/-- `resolved_scope`: an explicit scope wins over the legacy arguments. -/
def rememberedScope (u : Unicode) (a : RememberArgs) : Except String String :=
  if a.agentScope ≠ "" then normalizeAgentScope u a.agentScope
  else if a.share then .ok "group"
  else if a.shareWith = "hive" then .ok "hive"
  else if a.shareWith ≠ "" then .ok s!"group:{a.shareWith}"
  else .ok "private"

/-- `save_kwargs`. -/
def rememberSave (a : RememberArgs) (key scope : String) : SaveArgs :=
  { key
    value := a.fact
    tier := a.tier
    agentScope := scope
    temporalSensitivity := a.temporalSensitivity
    failedApproaches := a.failedApproaches
    status := some "active"
    skipConsolidation := a.skipConsolidation
    runId := a.runId
    memoryGroup := if a.memoryGroup = "" then none else some (some a.memoryGroup) }

def isHexDigit (c : Char) : Bool := c.isDigit || ('a' ≤ c && c ≤ 'f')

/-- The word prefix of a content key, if it ends in a hash. -/
def wordPrefix (key : String) : Option String :=
  let cs := key.toList.reverse
  let hash := cs.take 16
  if hash.length = 16 && hash.all isHexDigit && (cs.drop 16).head? = some '-' then
    some (String.ofList (cs.drop 17).reverse)
  else none

/-- `_find_supersession_candidate`, which never raises. -/
def findSupersessionCandidate (w : World) (newKey : String) : StoreM (Option String) :=
  match wordPrefix newKey with
  | none => pure none
  | some start =>
    Prog.handle
      (do
        mergeDurableEntries w false
        let entries ← snapshot
        let now ← utcNow w
        let shown := entries.filter (isTemporallyValid now none)
        pure ((shown.find? (fun e => e.key ≠ newKey && e.status = .active &&
          start.toList.isPrefixOf e.key.toList)).map (·.key)))
      (fun _ => pure none)

/-- What `brain_remember` answers. -/
inductive RememberReply where
  | invalidScope (message : String)
  | rejected (d : ShortCircuit)
  | saved (key : String) (superseded candidate : Option String)

/-- What follows the save: the entry the caller names is closed, or a candidate is looked for. -/
def closeSuperseded (w : World) (key : String) (supersedes : Option String) : StoreM RememberReply :=
  match namedTarget supersedes with
  | some old => do
    match ← get w old with
    | none => pure ()
    | some e => do
      let _ ← closeValidity w e.key "supersession" (some key) (some s!"superseded by {key}")
      pure ()
    pure (.saved key (some old) none)
  | none => do
    let candidate ← findSupersessionCandidate w key
    pure (.saved key none candidate)

/-- `brain_remember`. -/
def brainRemember (w : World) (digest : String → String) (a : RememberArgs) : StoreM RememberReply :=
  let key := contentKey w.unicode digest a.fact
  match rememberedScope w.unicode a with
  | .error message => pure (.invalidScope message)
  | .ok scope => do
    match ← save w (rememberSave a key scope) with
    | .dict d => if d.isError then pure (.rejected d) else closeSuperseded w key a.supersedes
    | .entry _ => closeSuperseded w key a.supersedes

end TappsBrain
