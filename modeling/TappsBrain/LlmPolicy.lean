import TappsBrain.Interchange
import TappsBrain.Save
import Mathlib.Data.List.DropRight
import Mathlib.Data.List.Sort

namespace TappsBrain
open Lib
set_option autoImplicit true
set_option relaxedAutoImplicit false

section Policy

/-- An `LLMWritePolicy` at a decision: its settings, the times of its calls, and its judge. -/
structure LlmPolicy where
  candidatesLimit : Nat := 5
  rateLimitPerMinute : Int := 60
  callTimestamps : List ℚ := []
  /-- `time.monotonic()`. -/
  monotonic : ℚ
  /-- The reasoning `judge_relevance` answers a prompt with, unless it raises. -/
  judge : String → Option String
  floats : FloatText
  upper : String → String
  /-- `str` of a value that is no text. -/
  pyStr : PyJson → String

/-- A `WritePolicyResult`; the judge may put any value in the place of the target key. -/
structure LlmVerdict where
  decision : WriteDecision
  targetKey : Option PyJson := none
  reasoning : String := ""

variable (p : LlmPolicy) (u : Unicode)

/-- The calls of the last minute. -/
def LlmPolicy.recentCalls : List ℚ := p.callTimestamps.filter (fun t => p.monotonic - 60 < t)

/-- `_check_rate_limit`. -/
def LlmPolicy.checkRateLimit : Bool := p.recentCalls.length < p.rateLimitPerMinute

/-- The policy after a decision. -/
def LlmPolicy.consulted : LlmPolicy :=
  { p with callTimestamps :=
      if p.checkRateLimit then p.recentCalls ++ [p.monotonic] else p.recentCalls }

/-- A minute holds no more calls than the cap. -/
theorem LlmPolicy.consulted_capped (h : (p.callTimestamps.length : Int) ≤ p.rateLimitPerMinute) :
    (p.consulted.callTimestamps.length : Int) ≤ p.rateLimitPerMinute := by
  rw [consulted]
  cases hallowed : p.checkRateLimit with
  | true =>
    have hroom : (p.recentCalls.length : Int) < p.rateLimitPerMinute := of_decide_eq_true hallowed
    simp only [↓reduceIte, List.length_append, List.length_singleton]
    omega
  | false =>
    have hrecent : p.recentCalls.length ≤ p.callTimestamps.length := List.length_filter_le _ _
    simp only [Bool.false_eq_true, ↓reduceIte]
    omega

/-- The deterministic result, with the reason why it stands in. -/
def fallback (why : String) : LlmVerdict :=
  { decision := .add
    reasoning := s!"{why} — fallback to deterministic: deterministic policy — always add" }

/-- The candidates of the prompt: the latest ones. -/
def LlmPolicy.topCandidates (candidates : List MemoryEntry) : List MemoryEntry :=
  (candidates.insertionSort (fun x y => y.updatedAt ≤ x.updatedAt)).take p.candidatesLimit

def candidateLine (i : Nat) (c : MemoryEntry) : String :=
  s!"  [{i + 1}] key={u.repr c.key} value={u.repr c.value}"

/-- `_build_prompt`. -/
def buildPrompt (key value : String) (candidates : List MemoryEntry) : String :=
  let lines := "\n".intercalate (candidates.mapIdx (candidateLine u))
  let existing := if lines = "" then "  (none)" else lines
  "You are a memory-management assistant. Decide the best action for a new memory entry.\n\n" ++
    s!"New entry:\n  key={u.repr key}\n  value={u.repr value}\n\n" ++
    s!"Existing similar entries:\n{existing}\n\n" ++
    "Choose one action:\n" ++
    "  ADD    — the new entry contains information not already present.\n" ++
    "  UPDATE — the new entry replaces an existing one (set target_key).\n" ++
    "  DELETE — an existing entry is wrong; remove it (set target_key).\n" ++
    "  NOOP   — the new entry is already captured; skip the write.\n\n" ++
    "Respond with JSON only (no markdown fences):\n" ++
    "\x7b\"action\": \"ADD|UPDATE|DELETE|NOOP\", \"target_key\": null_or_string, " ++
    "\"reasoning\": \"brief explanation\"\x7d"

/-- From the first opening brace of a reply to its last closing one. -/
def jsonSpan (raw : String) : String :=
  let opened := raw.toList.dropWhile (· ≠ '{')
  if '}' ∈ opened then String.ofList (opened.rdropWhile (· ≠ '}')) else raw

/-- `str` of a value. -/
def LlmPolicy.strOf : PyJson → String
  | .str s => s
  | j => p.pyStr j

def WriteDecision.ofText (s : String) : Option WriteDecision :=
  if s = "add" then some .add
  else if s = "update" then some .update
  else if s = "delete" then some .delete
  else if s = "noop" then some .noop
  else none

/-- The action a reply asks for, in upper case. -/
def LlmPolicy.actionText (d : PyJson) : String := p.upper (p.strOf (getWith d "action" (.str "ADD")))

def LlmPolicy.actionOf (d : PyJson) : Option WriteDecision :=
  WriteDecision.ofText (u.lower (p.actionText d))

/-- `data.get("target_key") or None`. -/
def targetOf (d : PyJson) : Option PyJson := (d.get? "target_key").filter truthy

/-- What the policy makes of a reply that holds an object. -/
def LlmPolicy.verdictOf (d : PyJson) : LlmVerdict :=
  match p.actionOf u d with
  | none => fallback s!"unknown action {u.repr (p.actionText d)}"
  | some decision =>
    { decision, targetKey := targetOf d, reasoning := p.strOf (getWith d "reasoning" (.str "")) }

/-- `_call_llm`, with the handler of `decide` around it: a reply that is no object has no `get`. -/
def LlmPolicy.callLlm (key value : String) (candidates : List MemoryEntry) : LlmVerdict :=
  match p.judge (buildPrompt u key value candidates) with
  | none => fallback "llm error"
  | some reply =>
    match Json.loads (PyNumber.numerals p.floats) (jsonSpan reply) with
    | none => fallback "json parse failed"
    | some (.obj members) => p.verdictOf u (.obj members)
    | some _ => fallback "llm error"

/-- `LLMWritePolicy.decide`. -/
def LlmPolicy.decide (key value : String) (candidates : List MemoryEntry) : LlmVerdict :=
  if p.checkRateLimit then p.callLlm u key value (p.topCandidates candidates)
  else fallback "rate limit exceeded"

end Policy

section Gate

/-- The values Python cannot look up. -/
inductive Unhashable where
  | list | dict
deriving DecidableEq, Repr

def unhashable : PyJson → Option Unhashable
  | .arr _ => some .list
  | .obj _ => some .dict
  | _ => none

/-- The key a value is; a number or a truth value equals none. -/
def keyText : PyJson → Option String
  | .str s => some s
  | _ => none

/-- What `_apply_write_policy` does with a write. -/
inductive PolicyRoute where
  | plain
  | under (target : String)
  | deletion (target reasoning : String)
  | nothing (d : ShortCircuit)
deriving DecidableEq, Repr

/-- `target in candidate_keys`, which raises on a value that cannot be looked up. -/
def namedCandidate (candidates : List MemoryEntry) (j : PyJson) :
    Except Unhashable (Option String) :=
  match unhashable j with
  | some t => .error t
  | none => .ok ((keyText j).filter (fun k => candidates.any (fun c => c.key = k)))

/-- `self._entries.get(target)`. -/
def lookUp (s : Store) (j : PyJson) : Except Unhashable (Option MemoryEntry) :=
  match unhashable j with
  | some t => .error t
  | none => .ok ((keyText j).bind s.entries.get?)

/-- The entry a skipped write is answered with. -/
def noopEntry (key : String) (s : Store) (target : Option PyJson) :
    Except Unhashable (Option MemoryEntry) :=
  match s.entries.get? key, target with
  | some e, _ => .ok (some e)
  | none, some j => lookUp s j
  | none, none => .ok none

/-- A target that is no candidate is not followed. -/
def routeTo (route : String → PolicyRoute) : Option String → PolicyRoute
  | some target => route target
  | none => .plain

/-- The branches of `_apply_write_policy` on a verdict. -/
def llmRoute (key : String) (candidates : List MemoryEntry) (r : LlmVerdict) (s : Store) :
    Except Unhashable PolicyRoute :=
  match r.decision, r.targetKey with
  | .noop, target => (noopEntry key s target).map (fun found =>
      .nothing ((found.map ShortCircuit.found).getD (.noop key r.reasoning)))
  | .delete, some j => (namedCandidate candidates j).map (routeTo (.deletion · r.reasoning))
  | .update, some j => (namedCandidate candidates j).map (routeTo .under)
  | _, _ => .ok .plain

def runRoute (w : World) : PolicyRoute → StoreM PolicyOutcome
  | .plain => pure .proceed
  | .under target => pure (.update target)
  | .deletion target reasoning => do
    let _ ← delete w target
    pure (.stop (.deleted target reasoning))
  | .nothing d => pure (.stop d)

/-- `_apply_write_policy` with a policy that asks a judge; a `TypeError` leaves through `save`. -/
def applyLlmPolicy (w : World) (p : LlmPolicy) (key value : String) :
    StoreM (Except Unhashable PolicyOutcome) := do
  mergeDurableEntries w false
  let candidates ← snapshot
  match ← Prog.read (llmRoute key candidates (p.decide w.unicode key value candidates)) with
  | .error t => pure (.error t)
  | .ok route => do
    let outcome ← runRoute w route
    pure (.ok outcome)

/-- Phase 6 of a save that was prepared. -/
def saveStored (w : World) (maybeConsolidate : MemoryEntry → StoreM Unit) (a : SaveArgs)
    (prepared : Except ShortCircuit SavePrep) : StoreM SaveResult :=
  match prepared with
  | .error d => answerShort d
  | .ok prep => do
    let entry ← storePrepared w maybeConsolidate (inferredArgs w.toConfig a) prep
    pure (.entry entry)

/-- A save from the policy's outcome on. -/
def saveAfter (w : World) (maybeConsolidate : MemoryEntry → StoreM Unit) (a : SaveArgs)
    (value agentScope : String) (mgExplicit : Option (Option String)) :
    PolicyOutcome → StoreM SaveResult
  | .stop d => answerShort d
  | .update target => do
    let prepared ← prepareUnder w a value agentScope mgExplicit (some target)
    saveStored w maybeConsolidate a prepared
  | .proceed => do
    let prepared ← prepareUnder w a value agentScope mgExplicit none
    saveStored w maybeConsolidate a prepared

/-- `save` with a policy that asks a judge. -/
def saveJudged (w : World) (p : LlmPolicy) (maybeConsolidate : MemoryEntry → StoreM Unit)
    (a : SaveArgs) : StoreM (Except Unhashable SaveResult) :=
  match argumentError w.toConfig a with
  | some msg => Prog.raise (.valueError msg)
  | none => do
    match ← checkSave w a with
    | .error d => do
      let answer ← answerShort d
      pure (.ok answer)
    | .ok (value, agentScope, mgExplicit) => do
      match ← applyLlmPolicy w p a.key value with
      | .error t => pure (.error t)
      | .ok outcome => do
        let answer ← saveAfter w maybeConsolidate a value agentScope mgExplicit outcome
        pure (.ok answer)

end Gate

end TappsBrain
