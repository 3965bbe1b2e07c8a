import Mathlib.Data.List.Infix
import TappsBrain.Replay

namespace TappsBrain.ClientRetry
open Lib
set_option autoImplicit true
set_option relaxedAutoImplicit false

/-- The wire codes of `ErrorCode`. -/
inductive ErrorCode where
  | brainDegraded
  | brainRateLimited
  | projectNotRegistered
  | invalidRequest
  | idempotencyConflict
  | conflict
  | notFound
  | internalError
deriving DecidableEq

def ErrorCode.parse : String → Option ErrorCode
  | "brain_degraded" => some .brainDegraded
  | "brain_rate_limited" => some .brainRateLimited
  | "project_not_registered" => some .projectNotRegistered
  | "invalid_request" => some .invalidRequest
  | "idempotency_conflict" => some .idempotencyConflict
  | "conflict" => some .conflict
  | "not_found" => some .notFound
  | "internal_error" => some .internalError
  | _ => none

/-- The semantic supertypes of the exceptions of the SDK. -/
inductive Kind where
  | transport
  | auth
  | transient
  | notFound
  | validation
  | other
deriving DecidableEq

def ErrorCode.httpStatus : ErrorCode → Nat
  | .brainDegraded => 503
  | .brainRateLimited => 429
  | .projectNotRegistered => 403
  | .invalidRequest => 400
  | .idempotencyConflict | .conflict => 409
  | .notFound => 404
  | .internalError => 500

/-- `EXCEPTION_BY_CODE`. -/
def ErrorCode.kind : ErrorCode → Kind
  | .brainDegraded | .brainRateLimited | .internalError => .transient
  | .projectNotRegistered => .auth
  | .invalidRequest | .idempotencyConflict | .conflict => .validation
  | .notFound => .notFound

/-- `exception_for_status`. -/
def exceptionForStatus (status : Nat) : Kind :=
  if status = 401 || status = 403 then .auth
  else if status = 404 then .notFound
  else if status = 400 || status = 409 || status = 422 then .validation
  else if status = 429 || (500 ≤ status && status < 600) then .transient
  else .other

/-- What a call raises. -/
structure Fault where
  kind : Kind
  status : Option Nat
  message : String
deriving DecidableEq

/-- `_parse_error_response`, and `raise_for_response` where the code is not known. -/
def faultOf (status : Nat) (code message : String) : Fault :=
  match ErrorCode.parse code with
  | some c => ⟨c.kind, some c.httpStatus, message⟩
  | none => ⟨exceptionForStatus status, some status, message⟩

/-- `_is_missing_session_error`. -/
def isMissingSession (f : Fault) : Bool :=
  f.kind = .validation && f.status = some 400 &&
    decide ("missing session id".toList <:+: f.message.toList.map Char.toLower)

/-- A response that is no success: its status, and the error code and message of its body. -/
structure Failure where
  status : Nat
  code : String
  message : String
deriving DecidableEq

variable {α σ ρ : Type}

/-- The server of the idempotent tool, and every save that succeeded so far. -/
structure World (σ ρ : Type) where
  now : Stamp
  table : IdempotencyTable
  memory : σ
  saves : List (IdempotencySlot × ρ) := []

/-- What happens besides: calls of other clients, time and sweeps. -/
inductive Other (α : Type) where
  | call (slot : IdempotencySlot) (args : α)
  | sweep (ttlHours : Option Nat)
  | tick (d : Nat)

/-- What becomes of one HTTP attempt. The server is done with a request before anything is
answered in its place. -/
inductive Delivery (α : Type) where
  /-- `httpx.RequestError`: the request may have been served, or not. -/
  | broken (served : Bool) (message : String)
  | refused (before : List (Other α)) (failure : Failure)
  /-- The tool runs, between what others do; its answer may be lost for a failure. -/
  | served (before between after : List (Other α)) (lost : Option Failure)

/-- The service, with how the client reads the text of an error that the tool raised. -/
structure Endpoint (α σ ρ : Type) extends Service α σ ρ where
  toolFault : String → Fault

variable (v : Endpoint α σ ρ)

/-- The save underneath a tool. -/
def execute (slot : IdempotencySlot) (args : α) (w : World σ ρ) :
    Except String ρ × World σ ρ :=
  match v.memorySave args w.memory with
  | (.ok result, memory) =>
    (.ok result, { w with memory, saves := w.saves ++ [(slot, result)] })
  | (.error e, memory) => (.error e, { w with memory })

def record (slot : IdempotencySlot) (result : ρ) (w : World σ ρ) : World σ ρ :=
  { w with table := idempotencyRecord v.toService w.now slot result w.table }

/-- The tool of another client, with its own key. -/
def otherCall (slot : IdempotencySlot) (args : α) (w : World σ ρ) : World σ ρ :=
  match IdempotencyStore.check v.toService w.now slot w.table with
  | .ok none =>
    match execute v slot args w with
    | (.ok result, w) => record v slot result w
    | (.error _, w) => w
  | _ => w

def Other.step : Other α → World σ ρ → World σ ρ
  | .call slot args, w => otherCall v slot args w
  | .sweep ttlHours, w =>
    { w with table := IdempotencyStore.sweepExpired v.toService w.now ttlHours w.table }
  | .tick d, w => { w with now := w.now + d }

def others (l : List (Other α)) (w : World σ ρ) : World σ ρ := runSteps (Other.step v) l w

/-- The tool serves the request of our client: it checks the key, saves and records, and others go
on in between. -/
def serve (slot : IdempotencySlot) (args : α) (between after : List (Other α)) (w : World σ ρ) :
    Except Fault ρ × World σ ρ :=
  match IdempotencyStore.check v.toService w.now slot w.table with
  | .error _ => (.error (v.toolFault "idempotency store unavailable"), w)
  | .ok (some (_, body)) => (.ok body, others v after w)
  | .ok none =>
    match execute v slot args (others v between w) with
    | (.error e, w) => (.error (v.toolFault e), others v after w)
    | (.ok result, w) => (.ok result, record v slot result (others v after w))

/-- What an attempt of `_post_tool` ends with. -/
inductive Outcome (ρ : Type) where
  | value (result : ρ)
  /-- It is raised from within the attempt. -/
  | raised (f : Fault)
  /-- A response that is no success, as an exception. -/
  | failed (f : Fault)

def attempt (slot : IdempotencySlot) (args : α) : Delivery α → World σ ρ → Outcome ρ × World σ ρ
  | .broken false message, w => (.raised ⟨.transport, none, message⟩, w)
  | .broken true message, w =>
    (.raised ⟨.transport, none, message⟩, (serve v slot args [] [] w).2)
  | .refused before failure, w =>
    (.failed (faultOf failure.status failure.code failure.message), others v before w)
  | .served before between after lost, w =>
    let out := serve v slot args between after (others v before w)
    match lost with
    | some failure => (.failed (faultOf failure.status failure.code failure.message), out.2)
    | none =>
      match out.1 with
      | .ok result => (.value result, out.2)
      | .error f => (.raised f, out.2)

/-- `_post_tool`, from an attempt on, with the attempts that are left. -/
def postTool (slot : IdempotencySlot) (args : α) (net : Nat → Delivery α) :
    Nat → Nat → World σ ρ → Except Fault ρ × World σ ρ
  | _, 0, w => (.error ⟨.other, none, "unexpected state"⟩, w)
  | n, left + 1, w =>
    match attempt v slot args (net n) w with
    | (.value result, w) => (.ok result, w)
    | (.raised f, w) => (.error f, w)
    | (.failed f, w) =>
      if f.kind = .transient && left ≠ 0 then postTool slot args net (n + 1) left w
      else (.error f, w)

/-- The network of one call: what `_do_initialize` raises, and the attempts, before and after the
session was renewed. -/
structure Network (α : Type) where
  doInitialize : Option Fault := none
  first : Nat → Delivery α
  renewSession : Option Fault := none
  second : Nat → Delivery α

/-- `_mcp_http_tool`: both runs of `_post_tool` carry the key of the call. -/
def mcpHttpTool (maxAttempts : Nat) (slot : IdempotencySlot) (args : α) (net : Network α)
    (w : World σ ρ) : Except Fault ρ × World σ ρ :=
  match net.doInitialize with
  | some f => (.error f, w)
  | none =>
    match postTool v slot args net.first 0 maxAttempts w with
    | (.ok result, w) => (.ok result, w)
    | (.error f, w) =>
      if isMissingSession f then
        match net.renewSession with
        | some f => (.error f, w)
        | none => postTool v slot args net.second 0 maxAttempts w
      else (.error f, w)

section Once
variable {v} {slot : IdempotencySlot} {w : World σ ρ} {start : Stamp}

/-- Others have keys of their own, and a sweep keeps the lifetime of a row. -/
def Other.Foreign (slot : IdempotencySlot) : Other α → Prop
  | .call other _ => other ≠ slot
  | .sweep ttlHours => v.ttlHours ≤ ttlHours.getD v.ttlHours
  | .tick _ => True

def Delivery.Foreign (slot : IdempotencySlot) : Delivery α → Prop
  | .broken .. => True
  | .refused before _ => ∀ o ∈ before, o.Foreign (v := v) slot
  | .served before between after _ =>
    (∀ o ∈ before, o.Foreign (v := v) slot) ∧ (∀ o ∈ between, o.Foreign (v := v) slot) ∧
      ∀ o ∈ after, o.Foreign (v := v) slot

/-- What our key saved. -/
def World.savesOf (w : World σ ρ) (slot : IdempotencySlot) : List (IdempotencySlot × ρ) :=
  w.saves.filter (fun s => s.1 = slot)

/-- What others leave of our key: its saves, and its row unless that has expired. -/
structure Frame (v : Endpoint α σ ρ) (slot : IdempotencySlot) (w w' : World σ ρ) : Prop where
  later : w.now ≤ w'.now
  saves : w'.savesOf slot = w.savesOf slot
  row : w'.table.get? slot = w.table.get? slot ∨
    ∃ row, w.table.get? slot = some row ∧ row.createdAt + v.ttl ≤ w'.now

theorem Frame.refl (w : World σ ρ) : Frame v slot w w := ⟨Nat.le_refl _, rfl, .inl rfl⟩

theorem Frame.trans {w' w'' : World σ ρ} (h : Frame v slot w w') (h' : Frame v slot w' w'') :
    Frame v slot w w'' where
  later := Nat.le_trans h.later h'.later
  saves := h'.saves.trans h.saves
  row := by
    rcases h.row with heq | ⟨row, hrow, hold⟩
    · rcases h'.row with heq' | ⟨row, hrow, hold⟩
      · exact .inl (heq'.trans heq)
      · exact .inr ⟨row, heq ▸ hrow, hold⟩
    · exact .inr ⟨row, hrow, Nat.le_trans hold h'.later⟩

theorem idempotencyRecord_other {other : IdempotencySlot} (hne : other ≠ slot) (now : Stamp)
    (result : ρ) (t : IdempotencyTable) :
    (idempotencyRecord v.toService now other result t).get? slot = t.get? slot := by
  simp only [idempotencyRecord, IdempotencyStore.save]
  split
  · next heq =>
    split at heq
    · cases heq
      rfl
    · split at heq
      · cases heq
      · split at heq
        · cases heq
          rfl
        · cases heq
          exact Table.get?_set_ne t hne
  · rfl

theorem execute_frame {other : IdempotencySlot} (hne : other ≠ slot) (args : α) (w : World σ ρ) :
    Frame v slot w (execute v other args w).2 := by
  simp only [execute]
  split
  · refine ⟨Nat.le_refl _, ?_, .inl rfl⟩
    rw [World.savesOf, World.savesOf, List.filter_append]
    simp only [hne, decide_false, Bool.false_eq_true, not_false_eq_true, List.filter_cons_of_neg,
      List.filter_nil, List.append_nil]
  · exact ⟨Nat.le_refl _, rfl, .inl rfl⟩

theorem Other.step_frame {o : Other α} (ho : o.Foreign (v := v) slot) (w : World σ ρ) :
    Frame v slot w (o.step v w) := by
  cases o with
  | call other args =>
    simp only [Other.step, otherCall]
    have hexec := execute_frame (v := v) ho args w
    split
    · generalize execute v other args w = out at hexec
      obtain ⟨result, w'⟩ := out
      cases result with
      | ok result =>
        exact hexec.trans ⟨Nat.le_refl _, rfl, .inl (idempotencyRecord_other ho _ result _)⟩
      | error e => exact hexec
    · exact .refl w
  | sweep ttlHours =>
    refine ⟨Nat.le_refl _, rfl, ?_⟩
    cases hrow : w.table.get? slot with
    | none =>
      left
      simp only [Other.step, IdempotencyStore.sweepExpired]
      split
      · rw [Table.get?_filter, hrow]
        rfl
      · exact hrow
    | some row =>
      have hkeeps : row.createdAt + v.ttl ≤ w.now ∨
          (IdempotencyStore.sweepExpired v.toService w.now ttlHours w.table).get? slot = some row :=
        sweepExpired_keeps ho hrow
      rcases hkeeps with hold | hkept
      · exact .inr ⟨row, rfl, hold⟩
      · exact .inl hkept
  | tick d => exact ⟨Nat.le_add_right _ _, rfl, .inl rfl⟩

theorem others_frame {l : List (Other α)} (hl : ∀ o ∈ l, o.Foreign (v := v) slot)
    (w : World σ ρ) : Frame v slot w (others v l w) := by
  induction l generalizing w with
  | nil => exact .refl w
  | cons o rest ih =>
    exact (Other.step_frame (hl o List.mem_cons_self) w).trans
      (ih (fun p hp => hl p (List.mem_cons_of_mem o hp)) _)

/-- The call saved `result`, and the row that replays it lives at least a lifetime from `start`. -/
structure Saved (v : Endpoint α σ ρ) (slot : IdempotencySlot) (start : Stamp) (result : ρ)
    (w : World σ ρ) : Prop where
  once : w.savesOf slot = [(slot, result)]
  row : ∃ row, w.table.get? slot = some row ∧ row.responseJson = v.json.dumps result ∧
    start ≤ row.createdAt

/-- The call has not saved, or it has saved and its result can be replayed. -/
def Once (v : Endpoint α σ ρ) (slot : IdempotencySlot) (start : Stamp) (w : World σ ρ) : Prop :=
  (w.savesOf slot = [] ∧ w.table.get? slot = none) ∨ ∃ result, Saved v slot start result w

theorem Saved.frame {result : ρ} {w' : World σ ρ} (h : Saved v slot start result w)
    (hf : Frame v slot w w') (hend : w'.now < start + v.ttl) : Saved v slot start result w' where
  once := hf.saves.trans h.once
  row := by
    obtain ⟨row, hrow, htext, hstart⟩ := h.row
    rcases hf.row with heq | ⟨other, hother, hold⟩
    · exact ⟨row, heq.trans hrow, htext, hstart⟩
    · rw [hrow] at hother
      obtain rfl := Option.some.inj hother
      have hlife : start + v.ttl ≤ row.createdAt + v.ttl := Nat.add_le_add_right hstart _
      exact absurd hend (Nat.not_lt.2 (Nat.le_trans hlife hold))

theorem Once.frame {w' : World σ ρ} (h : Once v slot start w) (hf : Frame v slot w w')
    (hend : w'.now < start + v.ttl) : Once v slot start w' := by
  rcases h with ⟨hsaves, hrow⟩ | ⟨result, hsaved⟩
  · left
    refine ⟨hf.saves.trans hsaves, ?_⟩
    rcases hf.row with heq | ⟨row, hsome, -⟩
    · exact heq.trans hrow
    · rw [hrow] at hsome
      cases hsome
  · exact .inr ⟨result, hsaved.frame hf hend⟩

theorem check_fresh (hav : v.available = true) {t : IdempotencyTable} (h : t.get? slot = none)
    (now : Stamp) : IdempotencyStore.check v.toService now slot t = .ok none := by
  simp only [IdempotencyStore.check, hav, Bool.not_true, Bool.false_eq_true, if_false, h,
    Option.filter_none]

theorem check_saved (hav : v.available = true) {result : ρ} (h : Saved v slot start result w)
    (hlive : w.now < start + v.ttl) :
    ∃ status, IdempotencyStore.check v.toService w.now slot w.table = .ok (some (status, result)) := by
  obtain ⟨row, hrow, htext, hstart⟩ := h.row
  have hfilter : (w.table.get? slot).filter (fun row => w.now < row.createdAt + v.ttl) =
      some row := by
    rw [hrow]
    exact if_pos (decide_eq_true (Nat.lt_of_lt_of_le hlive (Nat.add_le_add_right hstart _)))
  refine ⟨row.responseStatus, ?_⟩
  simp only [IdempotencyStore.check, hav, Bool.not_true, Bool.false_eq_true, if_false, hfilter,
    htext, v.json.loads_dumps]

theorem serve_later (args : α) {between after : List (Other α)}
    (hbetween : ∀ o ∈ between, o.Foreign (v := v) slot)
    (hafter : ∀ o ∈ after, o.Foreign (v := v) slot) (w : World σ ρ) :
    w.now ≤ (serve v slot args between after w).2.now := by
  simp only [serve]
  split
  · exact Nat.le_refl _
  · exact (others_frame hafter w).later
  · have hfirst := (others_frame hbetween w).later
    generalize others v between w = w₁ at hfirst
    have hexec : (execute v slot args w₁).2.now = w₁.now := by
      simp only [execute]
      split <;> rfl
    generalize execute v slot args w₁ = out at hexec
    obtain ⟨result, w₂⟩ := out
    have hlast := (others_frame hafter w₂).later
    dsimp only at hexec
    cases result with
    | ok result => exact Nat.le_trans hfirst (hexec ▸ hlast)
    | error e => exact Nat.le_trans hfirst (hexec ▸ hlast)

/-- One request: it saves at most what was not saved yet, and answers what was saved. -/
theorem serve_once (args : α) (hav : v.available = true)
    (hfit : ∀ args memory result, (v.memorySave args memory).1 = .ok result →
      (v.json.dumps result).utf8ByteSize ≤ MAX_RESPONSE_BYTES)
    (h : Once v slot start w) (hstart : start ≤ w.now) {between after : List (Other α)}
    (hbetween : ∀ o ∈ between, o.Foreign (v := v) slot)
    (hafter : ∀ o ∈ after, o.Foreign (v := v) slot)
    (hend : (serve v slot args between after w).2.now < start + v.ttl) :
    Once v slot start (serve v slot args between after w).2 ∧
      ∀ result, (serve v slot args between after w).1 = .ok result →
        Saved v slot start result (serve v slot args between after w).2 := by
  have hnow := Nat.lt_of_le_of_lt (serve_later args hbetween hafter w) hend
  rcases h with ⟨hsaves, hrow⟩ | ⟨result, hsaved⟩
  · have hfirst := others_frame (v := v) hbetween w
    have hrow₁ : (others v between w).table.get? slot = none := by
      rcases hfirst.row with heq | ⟨row, hsome, -⟩
      · exact heq.trans hrow
      · rw [hrow] at hsome
        cases hsome
    have hsaves₁ := hfirst.saves.trans hsaves
    have hlater₁ := Nat.le_trans hstart hfirst.later
    simp only [serve, check_fresh hav hrow] at hend ⊢
    generalize others v between w = w₁ at *
    simp only [execute] at hend ⊢
    cases hsave : v.memorySave args w₁.memory with
    | mk out memory =>
      rw [hsave] at hend
      cases out with
      | error e =>
        have hlast := others_frame (v := v) hafter { w₁ with memory }
        have hnone : Once v slot start { w₁ with memory } := .inl ⟨hsaves₁, hrow₁⟩
        refine ⟨hnone.frame hlast hend, ?_⟩
        intro result heq
        cases heq
      | ok result =>
        dsimp only at hend ⊢
        have hlast := others_frame (v := v) hafter
          { w₁ with memory, saves := w₁.saves ++ [(slot, result)] }
        generalize others v after { w₁ with memory, saves := w₁.saves ++ [(slot, result)] } = w₂
          at hlast
        have hrow₂ : w₂.table.get? slot = none := by
          rcases hlast.row with heq | ⟨row, hsome, -⟩
          · exact heq.trans hrow₁
          · exact absurd (hrow₁.symm.trans hsome) (by simp only [reduceCtorEq, not_false_eq_true])
        have hsaves₂ : w₂.savesOf slot = [(slot, result)] := by
          rw [hlast.saves, World.savesOf, List.filter_append, ← World.savesOf, hsaves₁,
            List.nil_append]
          simp only [List.filter_cons, decide_true, if_true, List.filter_nil]
        obtain ⟨code, hrecord⟩ := record_absent (v := v.toService) w₂.now hav
          (by rw [Table.contains, hrow₂]; rfl)
          (hfit args w₁.memory result (congrArg Prod.fst hsave))
        have hsaved : Saved v slot start result (record v slot result w₂) := by
          refine ⟨hsaves₂, ⟨slot, code, v.json.dumps result, w₂.now⟩, ?_, rfl, ?_⟩
          · simp only [record, hrecord]
            exact Table.get?_set_self _ _
          · exact Nat.le_trans hlater₁ hlast.later
        refine ⟨.inr ⟨result, hsaved⟩, ?_⟩
        intro other heq
        obtain rfl := Except.ok.inj heq
        exact hsaved
  · obtain ⟨status, hcheck⟩ := check_saved hav hsaved hnow
    simp only [serve, hcheck] at hend ⊢
    have hkept := hsaved.frame (others_frame hafter w) hend
    refine ⟨.inr ⟨result, hkept⟩, ?_⟩
    intro other heq
    obtain rfl := Except.ok.inj heq
    exact hkept

theorem attempt_later (args : α) {d : Delivery α} (hd : d.Foreign (v := v) slot) (w : World σ ρ) :
    w.now ≤ (attempt v slot args d w).2.now := by
  cases d with
  | broken reached message =>
    cases reached with
    | false => exact Nat.le_refl _
    | true =>
      exact serve_later args (fun o ho => absurd ho List.not_mem_nil)
        (fun o ho => absurd ho List.not_mem_nil) w
  | refused before failure => exact (others_frame hd w).later
  | served before between after lost =>
    obtain ⟨hbefore, hbetween, hafter⟩ := hd
    have hlater := Nat.le_trans (others_frame hbefore w).later
      (serve_later args hbetween hafter (others v before w))
    cases lost with
    | some failure => exact hlater
    | none =>
      simp only [attempt]
      split <;> exact hlater

theorem attempt_once (args : α) (hav : v.available = true)
    (hfit : ∀ args memory result, (v.memorySave args memory).1 = .ok result →
      (v.json.dumps result).utf8ByteSize ≤ MAX_RESPONSE_BYTES)
    (h : Once v slot start w) (hstart : start ≤ w.now) {d : Delivery α}
    (hd : d.Foreign (v := v) slot) (hend : (attempt v slot args d w).2.now < start + v.ttl) :
    Once v slot start (attempt v slot args d w).2 ∧
      ∀ result, (attempt v slot args d w).1 = .value result →
        Saved v slot start result (attempt v slot args d w).2 := by
  have hnil : ∀ o ∈ ([] : List (Other α)), o.Foreign (v := v) slot :=
    fun o ho => absurd ho List.not_mem_nil
  cases d with
  | broken reached message =>
    cases reached with
    | false =>
      refine ⟨h, ?_⟩
      intro result heq
      cases heq
    | true =>
      refine ⟨(serve_once args hav hfit h hstart hnil hnil hend).1, ?_⟩
      intro result heq
      cases heq
  | refused before failure =>
    refine ⟨h.frame (others_frame hd w) hend, ?_⟩
    intro result heq
    cases heq
  | served before between after lost =>
    obtain ⟨hbefore, hbetween, hafter⟩ := hd
    have hframe := others_frame (v := v) hbefore w
    have hlater := serve_later args hbetween hafter (others v before w)
    cases lost with
    | some failure =>
      have h₁ := h.frame hframe (Nat.lt_of_le_of_lt hlater hend)
      refine ⟨(serve_once args hav hfit h₁ (Nat.le_trans hstart hframe.later) hbetween hafter hend).1, ?_⟩
      intro result heq
      cases heq
    | none =>
      have hout : (attempt v slot args (.served before between after none) w).2 =
          (serve v slot args between after (others v before w)).2 := by
        simp only [attempt]
        split <;> rfl
      rw [hout] at hend ⊢
      have h₁ := h.frame hframe (Nat.lt_of_le_of_lt hlater hend)
      obtain ⟨honce, hval⟩ :=
        serve_once args hav hfit h₁ (Nat.le_trans hstart hframe.later) hbetween hafter hend
      refine ⟨honce, ?_⟩
      intro result heq
      simp only [attempt] at heq
      split at heq
      · next r hr =>
        obtain rfl := Outcome.value.inj heq
        exact hval r hr
      · cases heq

theorem postTool_later (args : α) {net : Nat → Delivery α} (hnet : ∀ n, (net n).Foreign (v := v) slot)
    (n left : Nat) (w : World σ ρ) : w.now ≤ (postTool v slot args net n left w).2.now := by
  induction left generalizing n w with
  | zero => exact Nat.le_refl _
  | succ left ih =>
    have hlater := attempt_later args (hnet n) w
    simp only [postTool]
    split
    · next heq => rwa [heq] at hlater
    · next heq => rwa [heq] at hlater
    · next heq =>
      rw [heq] at hlater
      split
      · exact Nat.le_trans hlater (ih _ _)
      · exact hlater

theorem postTool_once (args : α) (hav : v.available = true)
    (hfit : ∀ args memory result, (v.memorySave args memory).1 = .ok result →
      (v.json.dumps result).utf8ByteSize ≤ MAX_RESPONSE_BYTES)
    {net : Nat → Delivery α} (hnet : ∀ n, (net n).Foreign (v := v) slot) (left : Nat) :
    ∀ (n : Nat) (w : World σ ρ), Once v slot start w → start ≤ w.now →
      (postTool v slot args net n left w).2.now < start + v.ttl →
      Once v slot start (postTool v slot args net n left w).2 ∧
        ∀ result, (postTool v slot args net n left w).1 = .ok result →
          Saved v slot start result (postTool v slot args net n left w).2 := by
  induction left with
  | zero =>
    intro n w h _ _
    refine ⟨h, ?_⟩
    intro result heq
    cases heq
  | succ left ih =>
    intro n w h hstart hend
    have hlater := attempt_later args (hnet n) w
    have hattempt := attempt_once args hav hfit h hstart (hnet n)
    simp only [postTool] at hend ⊢
    generalize attempt v slot args (net n) w = out at *
    obtain ⟨outcome, w₁⟩ := out
    cases outcome with
    | value result =>
      obtain ⟨honce, hsaved⟩ := hattempt hend
      refine ⟨honce, ?_⟩
      intro other heq
      obtain rfl := Except.ok.inj heq
      exact hsaved result rfl
    | raised f =>
      refine ⟨(hattempt hend).1, ?_⟩
      intro other heq
      cases heq
    | failed f =>
      dsimp only at hend hlater ⊢
      split at hend
      · next hretry =>
        rw [if_pos hretry]
        have hrest := Nat.lt_of_le_of_lt (postTool_later args hnet (n + 1) left w₁) hend
        exact ih (n + 1) w₁ (hattempt hrest).1 (Nat.le_trans hstart hlater) hend
      · next hlast =>
        rw [if_neg hlast]
        refine ⟨(hattempt hend).1, ?_⟩
        intro other heq
        cases heq

def savingEndpoint : Endpoint Unit Nat String where
  toService := savingService
  toolFault message := ⟨.transient, some 500, message⟩

/-- The first answer is lost, the next attempt finds the session gone, and another client saves
meanwhile. -/
def flakyNetwork : Network Unit where
  first n :=
    if n = 0 then .served [] [.call ⟨"91aa", "project", "memory_save"⟩ ()] [] (some ⟨503, "", ""⟩)
    else .refused [.tick 1] ⟨400, "", "Bad Request: Missing session ID"⟩
  second _ := .served [.tick 1] [] [] none

end Once

end TappsBrain.ClientRetry
