import Mathlib.Algebra.Order.Field.Rat
import Mathlib.Data.List.Sort
import Mathlib.Tactic.Linarith
import TappsBrain.Lib.TtlCache

namespace TappsBrain.Diagnostics
open Lib
set_option autoImplicit true
set_option relaxedAutoImplicit false

inductive CircuitState where
  | closed
  | degraded
  | opened
  | halfOpen
deriving DecidableEq

structure Report where
  composite : ℚ
  dimensions : List (String × ℚ)
deriving DecidableEq

def Report.score? (r : Report) (name : String) : Option ℚ := r.dimensions.lookup name

structure CircuitBreaker where
  state : CircuitState := .closed
  halfOpenProbes : Nat := 0
  lastRemediationMono : String → Option ℚ := fun _ => none

def PROBES_REQUIRED : Nat := 3
def COOLDOWN_SECONDS : ℚ := 3600

namespace CircuitBreaker

def recordProbe (b : CircuitBreaker) (composite : ℚ) : CircuitBreaker :=
  { b with
    halfOpenProbes := b.halfOpenProbes + 1
    state := if PROBES_REQUIRED ≤ b.halfOpenProbes + 1 ∧ 45 / 100 ≤ composite then .degraded
      else b.state }

/-- The state of `transition`, before the cooldown is looked at. -/
def moved (b : CircuitBreaker) (composite : ℚ) : CircuitBreaker :=
  if b.state = .halfOpen then
    if composite < 3 / 10 then { b with state := .opened, halfOpenProbes := 0 }
    else if PROBES_REQUIRED ≤ b.halfOpenProbes then
      { b with state := if 6 / 10 ≤ composite then .closed else .degraded, halfOpenProbes := 0 }
    else b
  else if 6 / 10 ≤ composite then { b with state := .closed }
  else if 3 / 10 ≤ composite then { b with state := .degraded }
  else { b with state := .opened }

def transition (b : CircuitBreaker) (composite : ℚ) : CircuitBreaker :=
  let m := b.moved composite
  if m.state = .opened ∧ b.state ≠ .opened then
    { m with lastRemediationMono := Function.update m.lastRemediationMono "half_open" none }
  else m

def enterHalfOpenIfCooled (b : CircuitBreaker) (now jitter : ℚ) : CircuitBreaker :=
  if b.state ≠ .opened then b
  else match b.lastRemediationMono "half_open" with
    | none =>
      { b with
        lastRemediationMono := Function.update b.lastRemediationMono "half_open" (some now) }
    | some last =>
      if COOLDOWN_SECONDS + jitter ≤ now - last then
        { state := .halfOpen
          halfOpenProbes := 0
          lastRemediationMono := Function.update b.lastRemediationMono "half_open" (some now) }
      else b

end CircuitBreaker

inductive Action where
  | consolidate
  | gc
  | integrityAlert
deriving DecidableEq

def Action.key : Action → String
  | .consolidate => "consolidate"
  | .gc => "gc"
  | .integrityAlert => "integrity_alert"

/-- The dimension an action is for, and below which score of it. -/
def Action.trigger : Action → String × ℚ
  | .consolidate => ("duplication", 5 / 10)
  | .gc => ("staleness", 5 / 10)
  | .integrityAlert => ("integrity", 8 / 10)

def Action.due (a : Action) (report : Report) : Bool :=
  match report.score? a.trigger.1 with
  | none => false
  | some score => score < a.trigger.2

def coolOk (b : CircuitBreaker) (key : String) (now : ℚ) : Bool :=
  match b.lastRemediationMono key with
  | none => true
  | some last => COOLDOWN_SECONDS ≤ now - last

/-- One of the three blocks of `maybe_remediate`; an action that raises does not succeed. -/
def remediate (report : Report) (now : ℚ) (succeeds : Action → Bool) (a : Action)
    (out : CircuitBreaker × List Action) : CircuitBreaker × List Action :=
  if a.due report && coolOk out.1 a.key now && succeeds a then
    ({ out.1 with
      lastRemediationMono := Function.update out.1.lastRemediationMono a.key (some now) },
      out.2 ++ [a])
  else out

def maybeRemediate (report : Report) (now : ℚ) (succeeds : Action → Bool)
    (b : CircuitBreaker) : CircuitBreaker × List Action :=
  if b.state ≠ .opened then (b, [])
  else remediate report now (fun _ => true) .integrityAlert
    (remediate report now succeeds .gc (remediate report now succeeds .consolidate (b, [])))

def hiveRecallMultiplier : CircuitState → ℚ
  | .closed => 1
  | .degraded => 1 / 2
  | .halfOpen => 1 / 2
  | .opened => 0

/-- The parameters of `AnomalyDetector`, and `retention_days` in units of the clock. -/
structure Config where
  lam : ℚ := 2 / 10
  minObs : Nat := 20
  warnSigma : ℚ := 2
  critSigma : ℚ := 3
  confirmWindow : Nat := 3
  retention : Int := 90 * 86400
  historyLimit : Nat := 500

/-- What the four dicts of the detector hold for a dimension. -/
structure Stats where
  ewma : Option ℚ := none
  var : ℚ := 0
  streak : Nat := 0
  obs : Nat := 0

inductive Level where
  | critical
  | warning
deriving DecidableEq

structure Alert where
  dimension : String
  level : Level
deriving DecidableEq

structure Row where
  recordedAt : Int
  report : Report
  circuitState : CircuitState

/-- A report, when it came, and what the breaker made of it. -/
structure Seen where
  composite : ℚ
  now : ℚ
  jitter : ℚ
  state : CircuitState

/-- An action taken, and on which report. -/
structure Done where
  action : Action
  now : ℚ
  report : Report

structure State where
  breaker : CircuitBreaker := {}
  detector : String → Stats := fun _ => {}
  hiveRecallWeightMultiplier : ℚ := 1
  /-- The table of the history, newest first; it is all that outlives the process. -/
  history : List Row := []
  /-- Since the process began, newest first. -/
  seen : List Seen := []
  done : List Done := []

inductive Event where
  | diagnose (report : Report) (recordedAt : Int) (now jitter : ℚ)
      (recordHistory runRemediation : Bool) (succeeds : Action → Bool)
  | restart

variable (v : Config)

/-- `_observe`. -/
def observe (x : ℚ) (s : Stats) : Stats :=
  match s.ewma with
  | none => { s with ewma := some x, var := 0 }
  | some prev =>
    { s with
      ewma := some (v.lam * x + (1 - v.lam) * prev)
      var := v.lam * (x - prev) ^ 2 + (1 - v.lam) * s.var }

/-- One dimension in `reset_from_history`. -/
def count (x : ℚ) (s : Stats) : Stats := { observe v x s with obs := s.obs + 1 }

/-- The z-score against the baseline before the score, both sides squared. -/
def levelOf (x : ℚ) (prev : ℚ) (var : ℚ) : Option Level :=
  let floored := max (1 / 10 ^ 9) var
  if v.critSigma ^ 2 * floored ≤ (x - prev) ^ 2 then some .critical
  else if v.warnSigma ^ 2 * floored ≤ (x - prev) ^ 2 then some .warning
  else none

/-- One dimension in `detect`. -/
def detectOne (name : String) (x : ℚ) (s : Stats) : Stats × Option Alert :=
  let s' := count v x s
  if s'.obs < v.minObs then (s', none)
  else match s.ewma with
    | none => (s', none)
    | some prev =>
      match levelOf v x prev s.var with
      | none => ({ s' with streak := 0 }, none)
      | some level =>
        ({ s' with streak := s.streak + 1 },
          if v.confirmWindow ≤ s.streak + 1 then some ⟨name, level⟩ else none)

def detect : List (String × ℚ) → (String → Stats) → (String → Stats) × List Alert
  | [], stats => (stats, [])
  | (name, x) :: dims, stats =>
    let one := detectOne v name x (stats name)
    let rest := detect dims (Function.update stats name one.1)
    (rest.1, one.2.toList ++ rest.2)

def countAll (dims : List (String × ℚ)) (stats : String → Stats) : String → Stats :=
  dims.foldl (fun stats d => Function.update stats d.1 (count v d.2 (stats d.1))) stats

/-- From the rows of `history`, which come newest first. -/
def resetFromHistory (rows : List Row) : String → Stats :=
  rows.reverse.foldl (fun stats r => countAll v r.report.dimensions stats) (fun _ => {})

/-- `ORDER BY recorded_at DESC` is the order in which the rows are kept. -/
def record (row : Row) (rows : List Row) : List Row :=
  rows.orderedInsert (fun a b => b.recordedAt ≤ a.recordedAt) row

def pruneOlderThan (cutoff : Int) (rows : List Row) : List Row :=
  rows.filter (fun r => cutoff ≤ r.recordedAt)

/-- `diagnostics`, from the report on. -/
def diagnose (report : Report) (recordedAt : Int) (now jitter : ℚ)
    (recordHistory runRemediation : Bool) (succeeds : Action → Bool) (s : State) : State :=
  let probed := if s.breaker.state = .halfOpen then s.breaker.recordProbe report.composite
    else s.breaker
  let moved := probed.transition report.composite
  let remedied := if runRemediation then maybeRemediate report now succeeds moved else (moved, [])
  let b := remedied.1.enterHalfOpenIfCooled now jitter
  let row : Row := ⟨recordedAt, report, b.state⟩
  { breaker := b
    detector := (detect v report.dimensions s.detector).1
    hiveRecallWeightMultiplier := hiveRecallMultiplier b.state
    history :=
      if recordHistory then pruneOlderThan (recordedAt - v.retention) (record row s.history)
      else s.history
    seen := ⟨report.composite, now, jitter, b.state⟩ :: s.seen
    done := (remedied.2.map (⟨·, now, report⟩)).reverse ++ s.done }

/-- A new process: the first diagnostics of it warm the detector. -/
def restart (s : State) : State :=
  { detector := resetFromHistory v (s.history.take v.historyLimit), history := s.history }

def step : Event → State → State
  | .diagnose report recordedAt now jitter recordHistory runRemediation succeeds =>
    diagnose v report recordedAt now jitter recordHistory runRemediation succeeds
  | .restart => restart v

section Circuit
variable {v} {s : State}

/-- How many reports in a row ended half open. -/
def probesSince (older : List Seen) : Nat :=
  (older.takeWhile (fun r => r.state = .halfOpen)).length

/-- When the stretch of open reports began. -/
def openSince (older : List Seen) : Option ℚ :=
  (older.takeWhile (fun r => r.state = .opened)).getLast?.map Seen.now

/-- What the circuit should be after a report, from the reports before it alone. -/
def expected (older : List Seen) (composite now jitter : ℚ) : CircuitState :=
  if composite < 3 / 10 then
    match openSince older with
    | none => .opened
    | some since => if COOLDOWN_SECONDS + jitter ≤ now - since then .halfOpen else .opened
  else if 0 < probesSince older ∧ probesSince older < PROBES_REQUIRED then .halfOpen
  else if 6 / 10 ≤ composite then .closed
  else .degraded

def Lawful : List Seen → Prop
  | [] => True
  | r :: older => r.state = expected older r.composite r.now r.jitter ∧ Lawful older

def lastState (seen : List Seen) : CircuitState := (seen.head?.map Seen.state).getD .closed

/-- What the fields of the breaker say of the reports. -/
structure Tracks (b : CircuitBreaker) (seen : List Seen) : Prop where
  state : b.state = lastState seen
  probes : b.state = .halfOpen →
    b.halfOpenProbes + 1 = probesSince seen ∧ probesSince seen ≤ PROBES_REQUIRED
  since : b.state = .opened → b.lastRemediationMono "half_open" = openSince seen

theorem probesSince_of_ne {seen : List Seen} (h : lastState seen ≠ .halfOpen) :
    probesSince seen = 0 := by
  cases seen with
  | nil => rfl
  | cons r older =>
    rw [probesSince, List.takeWhile_cons_of_neg]
    · rfl
    · exact fun heq => h (of_decide_eq_true heq)

theorem openSince_of_ne {seen : List Seen} (h : lastState seen ≠ .opened) :
    openSince seen = none := by
  cases seen with
  | nil => rfl
  | cons r older =>
    rw [openSince, List.takeWhile_cons_of_neg]
    · rfl
    · exact fun heq => h (of_decide_eq_true heq)

theorem probesSince_cons (r : Seen) (older : List Seen) :
    probesSince (r :: older) = if r.state = .halfOpen then probesSince older + 1 else 0 := by
  rw [probesSince, List.takeWhile_cons]
  split
  · next h =>
    rw [if_pos (of_decide_eq_true h)]
    rfl
  · next h =>
    rw [if_neg (fun heq => h (decide_eq_true heq))]
    rfl

theorem openSince_cons (r : Seen) (older : List Seen) :
    openSince (r :: older) =
      if r.state = .opened then some ((openSince older).getD r.now) else none := by
  rw [openSince, List.takeWhile_cons]
  split
  · next h =>
    rw [if_pos (of_decide_eq_true h), List.getLast?_cons, openSince]
    cases (older.takeWhile (fun r => r.state = .opened)).getLast? <;> rfl
  · next h =>
    rw [if_neg (fun heq => h (decide_eq_true heq))]
    rfl

theorem openSince_isSome {seen : List Seen} (h : lastState seen = .opened) :
    ∃ since, openSince seen = some since := by
  cases seen with
  | nil => cases h
  | cons r older =>
    have hr : r.state = .opened := h
    rw [openSince_cons, if_pos hr]
    exact ⟨_, rfl⟩

theorem remediate_fst (report : Report) (now : ℚ) (succeeds : Action → Bool) (a : Action)
    (out : CircuitBreaker × List Action) :
    (remediate report now succeeds a out).1.state = out.1.state ∧
      (remediate report now succeeds a out).1.halfOpenProbes = out.1.halfOpenProbes ∧
      (remediate report now succeeds a out).1.lastRemediationMono "half_open" =
        out.1.lastRemediationMono "half_open" := by
  have hne : "half_open" ≠ a.key := by cases a <;> decide
  simp only [remediate]
  split
  · exact ⟨rfl, rfl, Function.update_of_ne hne _ _⟩
  · exact ⟨rfl, rfl, rfl⟩

theorem maybeRemediate_fst (report : Report) (now : ℚ) (succeeds : Action → Bool)
    (b : CircuitBreaker) :
    (maybeRemediate report now succeeds b).1.state = b.state ∧
      (maybeRemediate report now succeeds b).1.halfOpenProbes = b.halfOpenProbes ∧
      (maybeRemediate report now succeeds b).1.lastRemediationMono "half_open" =
        b.lastRemediationMono "half_open" := by
  rw [maybeRemediate]
  split
  · exact ⟨rfl, rfl, rfl⟩
  · have h1 := remediate_fst report now succeeds .consolidate (b, [])
    have h2 := remediate_fst report now succeeds .gc
      (remediate report now succeeds .consolidate (b, []))
    have h3 := remediate_fst report now (fun _ => true) .integrityAlert
      (remediate report now succeeds .gc (remediate report now succeeds .consolidate (b, [])))
    exact ⟨h3.1.trans (h2.1.trans h1.1), h3.2.1.trans (h2.2.1.trans h1.2.1),
      h3.2.2.trans (h2.2.2.trans h1.2.2)⟩

/-- The breaker after a report, but for the clocks of the actions. -/
def probed (b : CircuitBreaker) (composite : ℚ) : CircuitBreaker :=
  (if b.state = .halfOpen then b.recordProbe composite else b).transition composite

theorem transition_state (b : CircuitBreaker) (composite : ℚ) :
    (b.transition composite).state = (b.moved composite).state := by
  rw [CircuitBreaker.transition]
  split <;> rfl

theorem transition_probes (b : CircuitBreaker) (composite : ℚ) :
    (b.transition composite).halfOpenProbes = (b.moved composite).halfOpenProbes := by
  rw [CircuitBreaker.transition]
  split <;> rfl

theorem moved_low {b : CircuitBreaker} {composite : ℚ} (h : composite < 3 / 10) :
    (b.moved composite).state = .opened ∧
      (b.moved composite).lastRemediationMono = b.lastRemediationMono := by
  rw [CircuitBreaker.moved, if_pos h]
  split
  · exact ⟨rfl, rfl⟩
  · rw [if_neg (by linarith), if_neg (by linarith)]
    exact ⟨rfl, rfl⟩

theorem probed_low {b : CircuitBreaker} {composite : ℚ} (h : composite < 3 / 10) :
    (probed b composite).state = .opened ∧
      (probed b composite).lastRemediationMono "half_open" =
        if b.state = .opened then b.lastRemediationMono "half_open" else none := by
  constructor
  · rw [probed, transition_state]
    exact (moved_low h).1
  · rw [probed, CircuitBreaker.transition]
    by_cases hb : b.state = .opened
    · have hnot : b.state ≠ .halfOpen := by
        rw [hb]
        nofun
      rw [if_neg hnot, if_neg (fun hcond => hcond.2 hb), if_pos hb, (moved_low h).2]
    · have hprobe : (b.recordProbe composite).state = b.state := by
        rw [CircuitBreaker.recordProbe]
        exact if_neg (fun hcond => absurd hcond.2 (by linarith))
      have hother : (if b.state = .halfOpen then b.recordProbe composite else b).state ≠
          .opened := by
        split
        · rw [hprobe]
          exact hb
        · exact hb
      rw [if_pos ⟨(moved_low h).1, hother⟩, if_neg hb]
      dsimp only
      rw [Function.update_self]

theorem probed_high {b : CircuitBreaker} {composite : ℚ} (h : 3 / 10 ≤ composite) :
    (probed b composite).state =
      if b.state = .halfOpen ∧ b.halfOpenProbes + 1 < PROBES_REQUIRED then .halfOpen
      else if 6 / 10 ≤ composite then .closed else .degraded := by
  rw [probed, transition_state]
  by_cases hb : b.state = .halfOpen
  · rw [if_pos hb]
    by_cases hprobes : b.halfOpenProbes + 1 < PROBES_REQUIRED
    · rw [if_pos ⟨hb, hprobes⟩]
      have hstate : (b.recordProbe composite).state = .halfOpen := by
        rw [CircuitBreaker.recordProbe, if_neg (fun hcond => absurd hcond.1 (by omega))]
        exact hb
      rw [CircuitBreaker.moved, if_pos hstate, if_neg (by linarith), if_neg]
      · exact hstate
      · exact Nat.not_le_of_lt hprobes
    · rw [if_neg (fun hcond => hprobes hcond.2)]
      have hdone : PROBES_REQUIRED ≤ (b.recordProbe composite).halfOpenProbes :=
        Nat.le_of_not_lt hprobes
      rw [CircuitBreaker.moved]
      by_cases hstate : (b.recordProbe composite).state = .halfOpen
      · rw [if_pos hstate, if_neg (by linarith), if_pos hdone]
      · rw [if_neg hstate, if_pos h]
        split <;> rfl
  · rw [if_neg hb, if_neg (fun hcond => hb hcond.1), CircuitBreaker.moved, if_neg hb, if_pos h]
    split <;> rfl

theorem probed_halfOpen {b : CircuitBreaker} {composite : ℚ} (h : 3 / 10 ≤ composite)
    (hhalf : (probed b composite).state = .halfOpen) :
    b.state = .halfOpen ∧ b.halfOpenProbes + 1 < PROBES_REQUIRED ∧
      (probed b composite).halfOpenProbes = b.halfOpenProbes + 1 := by
  have hcond : b.state = .halfOpen ∧ b.halfOpenProbes + 1 < PROBES_REQUIRED := by
    rw [probed_high h] at hhalf
    by_contra hcond
    rw [if_neg hcond] at hhalf
    split at hhalf <;> cases hhalf
  obtain ⟨hb, hprobes⟩ := hcond
  have hstate : (b.recordProbe composite).state = .halfOpen := by
    rw [CircuitBreaker.recordProbe, if_neg (fun hcond => absurd hcond.1 (by omega))]
    exact hb
  have hfew : ¬ PROBES_REQUIRED ≤ (b.recordProbe composite).halfOpenProbes :=
    Nat.not_le_of_lt hprobes
  refine ⟨hb, hprobes, ?_⟩
  rw [probed, transition_probes, if_pos hb, CircuitBreaker.moved, if_pos hstate,
    if_neg (by linarith), if_neg hfew]
  rfl

/-- The open circuit: the clock starts, has run long enough, or runs on. -/
theorem enter_low {b : CircuitBreaker} (hopen : b.state = .opened) (now jitter : ℚ) :
    (b.lastRemediationMono "half_open" = none ∧
        (b.enterHalfOpenIfCooled now jitter).state = .opened ∧
        (b.enterHalfOpenIfCooled now jitter).lastRemediationMono "half_open" = some now) ∨
      ∃ last, b.lastRemediationMono "half_open" = some last ∧
        (COOLDOWN_SECONDS + jitter ≤ now - last ∧
          (b.enterHalfOpenIfCooled now jitter).state = .halfOpen ∧
          (b.enterHalfOpenIfCooled now jitter).halfOpenProbes = 0 ∨
        ¬ COOLDOWN_SECONDS + jitter ≤ now - last ∧ b.enterHalfOpenIfCooled now jitter = b) := by
  rw [CircuitBreaker.enterHalfOpenIfCooled, if_neg (not_not.2 hopen)]
  cases b.lastRemediationMono "half_open" with
  | none =>
    left
    dsimp only
    exact ⟨rfl, hopen, Function.update_self ..⟩
  | some last =>
    right
    refine ⟨last, rfl, ?_⟩
    dsimp only
    split
    · next hcool => exact .inl ⟨hcool, rfl, rfl⟩
    · next hcool => exact .inr ⟨hcool, rfl⟩

/-- The breaker after a report says of the reports what it said before. -/
theorem Tracks.step {b : CircuitBreaker} {seen : List Seen} (h : Tracks b seen)
    {c : CircuitBreaker} (composite now jitter : ℚ)
    (hstate : c.state = (probed b composite).state)
    (hprobes : c.halfOpenProbes = (probed b composite).halfOpenProbes)
    (hlast : c.lastRemediationMono "half_open" =
      (probed b composite).lastRemediationMono "half_open") :
    (c.enterHalfOpenIfCooled now jitter).state = expected seen composite now jitter ∧
      Tracks (c.enterHalfOpenIfCooled now jitter)
        (⟨composite, now, jitter, (c.enterHalfOpenIfCooled now jitter).state⟩ :: seen) := by
  have hseen := h.state.symm
  by_cases hlow : composite < 3 / 10
  · obtain ⟨hopen, hclock⟩ := probed_low (b := b) hlow
    rw [← hstate] at hopen
    rw [← hlast] at hclock
    rw [expected, if_pos hlow]
    by_cases hb : b.state = .opened
    · obtain ⟨since, hsince⟩ := openSince_isSome (hseen.trans hb)
      rw [if_pos hb, h.since hb, hsince] at hclock
      rcases enter_low hopen now jitter with ⟨hnone, _⟩ | ⟨last, hsome, hrest⟩
      · rw [hclock] at hnone
        cases hnone
      · obtain rfl : since = last := Option.some.inj (hclock.symm.trans hsome)
        rw [hsince]
        dsimp only
        rcases hrest with ⟨hcool, hhalf, hzero⟩ | ⟨hcool, hsame⟩
        · rw [if_pos hcool]
          refine ⟨hhalf, rfl, ?_, fun heq => ?_⟩
          · intro _
            rw [probesSince_cons, if_pos hhalf, probesSince_of_ne (by rw [hseen, hb]; nofun), hzero]
            exact ⟨rfl, by decide⟩
          · rw [hhalf] at heq
            cases heq
        · rw [if_neg hcool, hsame]
          refine ⟨hopen, rfl, fun heq => ?_, fun _ => ?_⟩
          · rw [hopen] at heq
            cases heq
          · rw [openSince_cons, if_pos hopen, hsince, hclock]
            rfl
    · have hnone : openSince seen = none := openSince_of_ne (by rw [hseen]; exact hb)
      rw [if_neg hb] at hclock
      rcases enter_low hopen now jitter with ⟨_, hstays, hstart⟩ | ⟨last, hsome, _⟩
      · rw [hnone]
        refine ⟨hstays, rfl, fun heq => ?_, fun _ => ?_⟩
        · rw [hstays] at heq
          cases heq
        · rw [openSince_cons, if_pos hstays, hnone]
          exact hstart
      · rw [hclock] at hsome
        cases hsome
  · have hhigh : 3 / 10 ≤ composite := not_lt.1 hlow
    have hnext := probed_high (b := b) hhigh
    have hnot : c.state ≠ .opened := by
      rw [hstate, hnext]
      split
      · nofun
      · split <;> nofun
    have hsame : c.enterHalfOpenIfCooled now jitter = c := if_pos hnot
    rw [hsame, expected, if_neg hlow]
    have hcond : (b.state = .halfOpen ∧ b.halfOpenProbes + 1 < PROBES_REQUIRED) ↔
        0 < probesSince seen ∧ probesSince seen < PROBES_REQUIRED := by
      constructor
      · intro ⟨hb, hfew⟩
        obtain ⟨heq, _⟩ := h.probes hb
        rw [← heq]
        exact ⟨Nat.succ_pos _, hfew⟩
      · intro ⟨hpos, hfew⟩
        have hb : b.state = .halfOpen := by
          by_contra hb
          rw [probesSince_of_ne (by rw [hseen]; exact hb)] at hpos
          exact absurd hpos (Nat.lt_irrefl 0)
        rw [← (h.probes hb).1] at hfew
        exact ⟨hb, hfew⟩
    refine ⟨?_, rfl, fun hhalf => ?_, fun heq => absurd heq hnot⟩
    · rw [hstate, hnext]
      exact if_congr hcond rfl rfl
    · obtain ⟨hb, hfew, hcount⟩ := probed_halfOpen hhigh (hstate.symm.trans hhalf)
      obtain ⟨heq, _⟩ := h.probes hb
      rw [probesSince_cons, if_pos hhalf, hprobes, hcount, ← heq]
      exact ⟨rfl, hfew⟩

theorem diagnose_tracks (h : Tracks s.breaker s.seen) (hlaw : Lawful s.seen) (report : Report)
    (recordedAt : Int) (now jitter : ℚ) (recordHistory runRemediation : Bool)
    (succeeds : Action → Bool) :
    Tracks (diagnose v report recordedAt now jitter recordHistory runRemediation succeeds s).breaker
        (diagnose v report recordedAt now jitter recordHistory runRemediation succeeds s).seen ∧
      Lawful (diagnose v report recordedAt now jitter recordHistory runRemediation succeeds s).seen
    := by
  simp only [diagnose]
  cases runRemediation with
  | true =>
    obtain ⟨hstate, hprobes, hlast⟩ :=
      maybeRemediate_fst report now succeeds (probed s.breaker report.composite)
    obtain ⟨hexpected, htracks⟩ := h.step report.composite now jitter hstate hprobes hlast
    exact ⟨htracks, hexpected, hlaw⟩
  | false =>
    obtain ⟨hexpected, htracks⟩ := h.step (c := probed s.breaker report.composite)
      report.composite now jitter rfl rfl rfl
    exact ⟨htracks, hexpected, hlaw⟩

/-- In every run of reports, remediations and restarts, the state after each report is what the
reports of the process before it say: three probes in a row close a half open circuit, which only
opens half after a cooldown of nothing but bad reports; and recall weighs the Hive accordingly. -/
theorem circuit_follows_reports (events : List Event) :
    Lawful (runSteps (step v) events {}).seen ∧
      (runSteps (step v) events {}).hiveRecallWeightMultiplier =
        hiveRecallMultiplier (lastState (runSteps (step v) events {}).seen) := by
  have hrun : Tracks (runSteps (step v) events {}).breaker (runSteps (step v) events {}).seen ∧
      Lawful (runSteps (step v) events {}).seen ∧
      (runSteps (step v) events {}).hiveRecallWeightMultiplier =
        hiveRecallMultiplier (lastState (runSteps (step v) events {}).seen) := by
    apply runSteps_keeps (I := fun (s : State) => Tracks s.breaker s.seen ∧ Lawful s.seen ∧
      s.hiveRecallWeightMultiplier = hiveRecallMultiplier (lastState s.seen))
    · intro a _ s h
      cases a with
      | diagnose report recordedAt now jitter recordHistory runRemediation succeeds =>
        have hnext := diagnose_tracks (v := v) h.1 h.2.1 report recordedAt now jitter recordHistory
          runRemediation succeeds
        exact ⟨hnext.1, hnext.2, rfl⟩
      | restart => exact ⟨⟨rfl, nofun, nofun⟩, trivial, rfl⟩
    · exact ⟨⟨rfl, nofun, nofun⟩, trivial, rfl⟩
  exact hrun.2

end Circuit

section Remediation
variable {v} {s : State}

/-- The actions so far, and the clocks of the breaker. -/
structure Spaced (last : String → Option ℚ) (done : List Done) : Prop where
  clocks : ∀ d ∈ done, ∃ t, last d.action.key = some t ∧ d.now ≤ t
  apart : done.Pairwise (fun later earlier =>
    later.action = earlier.action → earlier.now + COOLDOWN_SECONDS ≤ later.now)
  due : ∀ d ∈ done, d.report.composite < 3 / 10 ∧ d.action.due d.report = true

theorem Action.key_inj {a b : Action} (h : a.key = b.key) : a = b := by
  cases a <;> cases b <;> first | rfl | exact absurd h (by decide)

theorem Action.key_ne (a : Action) : a.key ≠ "half_open" := by
  cases a <;> decide

theorem Spaced.congr {last last' : String → Option ℚ} {done : List Done} (h : Spaced last done)
    (hsame : ∀ a : Action, last' a.key = last a.key) : Spaced last' done where
  clocks := by
    intro d hd
    rw [hsame]
    exact h.clocks d hd
  apart := h.apart
  due := h.due

theorem Spaced.remediate {out : CircuitBreaker × List Action} {done : List Done} {report : Report}
    {now : ℚ} (h : Spaced out.1.lastRemediationMono
      ((out.2.map (⟨·, now, report⟩)).reverse ++ done))
    (hlow : report.composite < 3 / 10) (succeeds : Action → Bool) (a : Action) :
    Spaced (remediate report now succeeds a out).1.lastRemediationMono
      (((remediate report now succeeds a out).2.map (⟨·, now, report⟩)).reverse ++ done) := by
  simp only [Diagnostics.remediate]
  split
  · next hcond =>
    rw [Bool.and_eq_true, Bool.and_eq_true] at hcond
    obtain ⟨⟨hdue, hcool⟩, _⟩ := hcond
    rw [List.map_append, List.reverse_append]
    constructor
    · intro d hd
      rcases List.mem_cons.1 hd with rfl | hd
      · exact ⟨now, Function.update_self .., le_refl _⟩
      · obtain ⟨t, ht, hle⟩ := h.clocks d hd
        by_cases hkey : d.action = a
        · rw [hkey] at ht ⊢
          refine ⟨now, Function.update_self .., ?_⟩
          rw [coolOk, ht] at hcool
          have hfar := of_decide_eq_true hcool
          rw [COOLDOWN_SECONDS] at hfar
          linarith
        · have hne : d.action.key ≠ a.key := fun heq => hkey (Action.key_inj heq)
          exact ⟨t, (Function.update_of_ne hne _ _).trans ht, hle⟩
    · apply List.pairwise_cons.2 ⟨?_, h.apart⟩
      intro d hd heq
      obtain ⟨t, ht, hle⟩ := h.clocks d hd
      dsimp only at heq
      rw [← heq] at ht
      rw [coolOk, ht] at hcool
      have hfar := of_decide_eq_true hcool
      linarith
    · intro d hd
      rcases List.mem_cons.1 hd with rfl | hd
      · exact ⟨hlow, hdue⟩
      · exact h.due d hd
  · exact h

theorem moved_last (b : CircuitBreaker) (composite : ℚ) :
    (b.moved composite).lastRemediationMono = b.lastRemediationMono := by
  rw [CircuitBreaker.moved]
  split
  · split
    · rfl
    · split <;> rfl
  · split
    · rfl
    · split <;> rfl

theorem transition_last (b : CircuitBreaker) (composite : ℚ) (a : Action) :
    (b.transition composite).lastRemediationMono a.key = b.lastRemediationMono a.key := by
  rw [CircuitBreaker.transition]
  split
  · dsimp only
    rw [Function.update_of_ne a.key_ne, moved_last]
  · rw [moved_last]

theorem probed_last (b : CircuitBreaker) (composite : ℚ) (a : Action) :
    (probed b composite).lastRemediationMono a.key = b.lastRemediationMono a.key := by
  rw [probed, transition_last]
  split <;> rfl

theorem enter_last (b : CircuitBreaker) (now jitter : ℚ) (a : Action) :
    (b.enterHalfOpenIfCooled now jitter).lastRemediationMono a.key =
      b.lastRemediationMono a.key := by
  rw [CircuitBreaker.enterHalfOpenIfCooled]
  split
  · rfl
  · split
    · exact Function.update_of_ne a.key_ne _ _
    · split
      · exact Function.update_of_ne a.key_ne _ _
      · rfl

theorem Spaced.maybeRemediate {b : CircuitBreaker} {done : List Done}
    (h : Spaced b.lastRemediationMono done) {report : Report}
    (hlow : b.state = .opened → report.composite < 3 / 10) (now : ℚ) (succeeds : Action → Bool) :
    Spaced (maybeRemediate report now succeeds b).1.lastRemediationMono
      (((maybeRemediate report now succeeds b).2.map (⟨·, now, report⟩)).reverse ++ done) := by
  rw [Diagnostics.maybeRemediate]
  split
  · exact h
  · next hopen =>
    have hlow := hlow (not_not.1 hopen)
    have hstart : Spaced (b, ([] : List Action)).1.lastRemediationMono
      ((([] : List Action).map (⟨·, now, report⟩)).reverse ++ done) := h
    have h1 := hstart.remediate hlow succeeds .consolidate
    have h2 := h1.remediate hlow succeeds .gc
    exact h2.remediate hlow (fun _ => true) .integrityAlert

theorem probed_opened {b : CircuitBreaker} {composite : ℚ}
    (h : (probed b composite).state = .opened) : composite < 3 / 10 := by
  by_contra hhigh
  rw [probed_high (not_lt.1 hhigh)] at h
  split at h
  · cases h
  · split at h <;> cases h

/-- In every run of reports and restarts, the actions of a process: one is taken only on a report
that is bad as a whole and in the dimension of the action, and again only after the cooldown. -/
theorem remediations_apart (events : List Event) :
    (runSteps (step v) events {}).done.Pairwise (fun later earlier =>
      later.action = earlier.action → earlier.now + COOLDOWN_SECONDS ≤ later.now) ∧
    ∀ d ∈ (runSteps (step v) events {}).done,
      d.report.composite < 3 / 10 ∧ d.action.due d.report = true := by
  have hstart : Spaced ({} : State).breaker.lastRemediationMono ({} : State).done :=
    ⟨nofun, List.Pairwise.nil, nofun⟩
  have hrun : Spaced (runSteps (step v) events {}).breaker.lastRemediationMono
      (runSteps (step v) events {}).done := by
    apply runSteps_keeps
      (I := fun (s : State) => Spaced s.breaker.lastRemediationMono s.done) _ hstart
    intro a _ s h
    cases a with
    | diagnose report recordedAt now jitter recordHistory runRemediation succeeds =>
      have hprobed : Spaced (probed s.breaker report.composite).lastRemediationMono s.done :=
        h.congr (probed_last _ _)
      simp only [step, diagnose]
      cases runRemediation with
      | true => exact (hprobed.maybeRemediate probed_opened now succeeds).congr (enter_last _ _ _)
      | false => exact hprobed.congr (enter_last _ _ _)
    | restart => exact hstart
  exact ⟨hrun.apart, hrun.due⟩

end Remediation

section Restart
variable {v} {s : State}

/-- A detector that was warmed from the history, beside one that never stopped: `seen` says how
often the former has met the dimension since. -/
structure Lag (v : Config) (a b : Stats) (seen : Nat) : Prop where
  same : b = { a with streak := b.streak }
  streak_le : b.streak ≤ a.streak
  caught : b.streak = a.streak ∨ b.streak = seen
  young : a.obs < v.minObs ∨ a.ewma = none → a.streak = 0

theorem count_streak (x : ℚ) (a : Stats) (t : Nat) :
    count v x { a with streak := t } = { count v x a with streak := t } := by
  rw [count, count, observe, observe]
  cases a.ewma <;> rfl

theorem count_ewma (x : ℚ) (a : Stats) : (count v x a).ewma ≠ none := by
  rw [count, observe]
  cases a.ewma <;> nofun

/-- What a score does to a dimension, whatever the streak is. -/
theorem detectOne_cases (name : String) (x : ℚ) (a : Stats) :
    ((a.obs + 1 < v.minObs ∨ a.ewma = none) ∧
        ∀ t, detectOne v name x { a with streak := t } =
          ({ count v x a with streak := t }, none)) ∨
      (¬ a.obs + 1 < v.minObs ∧
        ∀ t, detectOne v name x { a with streak := t } =
          ({ count v x a with streak := 0 }, none)) ∨
      (¬ a.obs + 1 < v.minObs ∧
        ∃ level, ∀ t, detectOne v name x { a with streak := t } =
          ({ count v x a with streak := t + 1 },
            if v.confirmWindow ≤ t + 1 then some ⟨name, level⟩ else none)) := by
  have hobs : (count v x a).obs = a.obs + 1 := rfl
  simp only [detectOne, count_streak, hobs]
  by_cases hfew : a.obs + 1 < v.minObs
  · simp only [if_pos hfew]
    exact .inl ⟨.inl hfew, fun _ => trivial⟩
  · simp only [if_neg hfew]
    cases a.ewma with
    | none => exact .inl ⟨.inr rfl, fun _ => rfl⟩
    | some prev =>
      right
      dsimp only
      cases levelOf v x prev a.var with
      | none => exact .inl ⟨hfew, fun _ => rfl⟩
      | some level => exact .inr ⟨hfew, level, fun _ => rfl⟩

theorem lag_detectOne {a b : Stats} {seen : Nat} (h : Lag v a b seen) (name : String) (x : ℚ) :
    Lag v (detectOne v name x a).1 (detectOne v name x b).1 (seen + 1) ∧
      (∀ alert ∈ (detectOne v name x b).2,
        alert ∈ (detectOne v name x a).2) ∧
      ∀ alert ∈ (detectOne v name x a).2, alert.dimension = name ∧
        (v.confirmWindow ≤ seen + 1 → alert ∈ (detectOne v name x b).2) := by
  obtain ⟨hsame, hle, hcaught, hyoung⟩ := h
  generalize b.streak = t at hsame hle hcaught
  subst hsame
  rcases detectOne_cases (v := v) name x a with ⟨hfew, hstep⟩ | ⟨_, hstep⟩ | ⟨hlate, level, hstep⟩
  · have hzero : a.streak = 0 := hyoung (hfew.imp_left (fun h => Nat.lt_of_succ_lt h))
    have hcalm := hstep a.streak
    rw [show ({ a with streak := a.streak } : Stats) = a from rfl] at hcalm
    rw [hstep t, hcalm]
    have ht : t = a.streak := by omega
    exact ⟨⟨rfl, hle, .inl ht, fun _ => hzero⟩, nofun, nofun⟩
  · have hcalm := hstep a.streak
    rw [show ({ a with streak := a.streak } : Stats) = a from rfl] at hcalm
    rw [hstep t, hcalm]
    exact ⟨⟨rfl, Nat.le_refl 0, .inl rfl, fun _ => rfl⟩, nofun, nofun⟩
  · have hcalm := hstep a.streak
    rw [show ({ a with streak := a.streak } : Stats) = a from rfl] at hcalm
    rw [hstep t, hcalm]
    refine ⟨⟨rfl, Nat.succ_le_succ hle, ?_, ?_⟩, ?_, ?_⟩
    · exact hcaught.imp (congrArg (· + 1)) (congrArg (· + 1))
    · intro hearly
      rcases hearly with hearly | hearly
      · exact absurd hearly hlate
      · exact absurd hearly (count_ewma x a)
    · intro alert halert
      dsimp only at halert ⊢
      split at halert
      · rw [if_pos (by omega)]
        exact halert
      · cases halert
    · intro alert halert
      dsimp only at halert ⊢
      split at halert
      · obtain rfl := Option.some.inj halert
        refine ⟨rfl, fun hseen => ?_⟩
        rw [if_pos (by omega)]
        rfl
      · cases halert

/-- The score is only counted in, as from a row of the history. -/
theorem lag_count {a b : Stats} (h : Lag v a b 0) (hcold : b.streak = 0) (name : String) (x : ℚ) :
    Lag v (detectOne v name x a).1 (count v x b) 0 ∧ (count v x b).streak = 0 := by
  obtain ⟨hsame, hle, _, hyoung⟩ := h
  rw [hcold] at hsame
  subst hsame
  have hcount : (count v x { a with streak := 0 }).streak = 0 := by rw [count_streak]
  have heq : count v x { a with streak := 0 } =
      { count v x a with streak := 0 } := count_streak x a 0
  refine ⟨?_, hcount⟩
  rcases detectOne_cases (v := v) name x a with ⟨hfew, hstep⟩ | ⟨_, hstep⟩ | ⟨hlate, level, hstep⟩
  · have hzero : a.streak = 0 := hyoung (hfew.imp_left (fun h => Nat.lt_of_succ_lt h))
    have hcalm := hstep a.streak
    rw [show ({ a with streak := a.streak } : Stats) = a from rfl] at hcalm
    rw [hcalm, heq]
    exact ⟨rfl, Nat.zero_le _, .inr rfl, fun _ => hzero⟩
  · have hcalm := hstep a.streak
    rw [show ({ a with streak := a.streak } : Stats) = a from rfl] at hcalm
    rw [hcalm, heq]
    exact ⟨rfl, Nat.le_refl 0, .inr rfl, fun _ => rfl⟩
  · have hcalm := hstep a.streak
    rw [show ({ a with streak := a.streak } : Stats) = a from rfl] at hcalm
    rw [hcalm, heq]
    refine ⟨rfl, Nat.zero_le _, .inr rfl, fun hearly => ?_⟩
    rcases hearly with hearly | hearly
    · exact absurd hearly hlate
    · exact absurd hearly (count_ewma x a)

def names (dims : List (String × ℚ)) : List String := dims.map Prod.fst

theorem lag_detect {A B : String → Stats} {seen : String → Nat}
    (h : ∀ name, Lag v (A name) (B name) (seen name)) (dims : List (String × ℚ)) :
    (∀ name, Lag v ((detect v dims A).1 name) ((detect v dims B).1 name)
      (seen name + (names dims).count name)) ∧
    (∀ alert ∈ (detect v dims B).2, alert ∈ (detect v dims A).2) ∧
    ∀ alert ∈ (detect v dims A).2, v.confirmWindow ≤ seen alert.dimension + 1 →
      alert ∈ (detect v dims B).2 := by
  induction dims generalizing A B seen with
  | nil => exact ⟨h, nofun, nofun⟩
  | cons d dims ih =>
    obtain ⟨name, x⟩ := d
    obtain ⟨hlag, hsub, hsup⟩ := lag_detectOne (h name) name x
    have hnext : ∀ other, Lag v
        (Function.update A name (detectOne v name x (A name)).1 other)
        (Function.update B name (detectOne v name x (B name)).1 other)
        (Function.update seen name (seen name + 1) other) := by
      intro other
      by_cases heq : other = name
      · subst heq
        rw [Function.update_self, Function.update_self, Function.update_self]
        exact hlag
      · rw [Function.update_of_ne heq, Function.update_of_ne heq, Function.update_of_ne heq]
        exact h other
    obtain ⟨hlags, hsubs, hsups⟩ := ih hnext
    have hgrows : ∀ other, seen other ≤ Function.update seen name (seen name + 1) other := by
      intro other
      by_cases heq : other = name
      · subst heq
        rw [Function.update_self]
        exact Nat.le_succ _
      · rw [Function.update_of_ne heq]
    refine ⟨fun other => ?_, fun alert halert => ?_, fun alert halert hseen => ?_⟩
    · have hcount : Function.update seen name (seen name + 1) other + (names dims).count other =
          seen other + (names ((name, x) :: dims)).count other := by
        rw [names, names, List.map_cons, List.count_cons]
        by_cases heq : other = name
        · subst heq
          rw [Function.update_self, if_pos (beq_self_eq_true _)]
          omega
        · rw [Function.update_of_ne heq, if_neg (fun hbeq => heq (eq_of_beq hbeq).symm)]
          rfl
      rw [← hcount]
      exact hlags other
    · rcases List.mem_append.1 halert with halert | halert
      · apply List.mem_append_left
        rw [Option.mem_toList] at halert ⊢
        exact hsub alert halert
      · exact List.mem_append_right _ (hsubs alert halert)
    · rcases List.mem_append.1 halert with halert | halert
      · apply List.mem_append_left
        rw [Option.mem_toList] at halert ⊢
        obtain ⟨hname, hsup⟩ := hsup alert halert
        rw [hname] at hseen
        exact hsup hseen
      · apply List.mem_append_right
        exact hsups alert halert (Nat.le_trans hseen (Nat.succ_le_succ (hgrows _)))

theorem lag_countAll {A B : String → Stats}
    (h : ∀ name, Lag v (A name) (B name) 0 ∧ (B name).streak = 0) (dims : List (String × ℚ)) :
    ∀ name, Lag v ((detect v dims A).1 name) (countAll v dims B name) 0 ∧
      (countAll v dims B name).streak = 0 := by
  induction dims generalizing A B with
  | nil => exact h
  | cons d dims ih =>
    obtain ⟨name, x⟩ := d
    apply ih
    intro other
    dsimp only
    by_cases heq : other = name
    · subst heq
      rw [Function.update_self, Function.update_self]
      exact lag_count (h other).1 (h other).2 other x
    · rw [Function.update_of_ne heq, Function.update_of_ne heq]
      exact h other

def Event.dims : Event → List (String × ℚ)
  | .diagnose report .. => report.dimensions
  | .restart => []

def alertsOn (v : Config) (s : State) (e : Event) : List Alert := (detect v e.dims s.detector).2

/-- How often reports had a score of the dimension. -/
def sightings (name : String) (events : List Event) : Nat :=
  (events.map (fun e => (names e.dims).count name)).sum

/-- A report that goes to a history which can hold it, and from which it prunes nothing. -/
def Recorded (v : Config) : Event → State → Prop
  | .diagnose _ recordedAt _ _ recordHistory _ _, s =>
    recordHistory = true ∧ s.history.length < v.historyLimit ∧
      ∀ r ∈ s.history, r.recordedAt < recordedAt ∧ recordedAt - v.retention ≤ r.recordedAt
  | .restart, _ => False

/-- What the history would make of a detector is what the detector is, but for the streaks. -/
structure Warm (v : Config) (s : State) : Prop where
  lag : ∀ name, Lag v (s.detector name) (resetFromHistory v s.history name) 0 ∧
    (resetFromHistory v s.history name).streak = 0
  fits : s.history.length ≤ v.historyLimit

theorem record_newest {row : Row} {rows : List Row}
    (h : ∀ r ∈ rows, r.recordedAt < row.recordedAt) : record row rows = row :: rows := by
  cases rows with
  | nil => rfl
  | cons r rows =>
    rw [record, List.orderedInsert, if_pos (Int.le_of_lt (h r List.mem_cons_self))]

theorem Warm.step (h : Warm v s) {e : Event} (he : Recorded v e s) (hretention : 0 ≤ v.retention) :
    Warm v (step v e s) := by
  cases e with
  | restart => exact he.elim
  | diagnose report recordedAt now jitter recordHistory runRemediation succeeds =>
    obtain ⟨rfl, hroom, hrows⟩ := he
    have hkeep : ∀ row ∈ s.history, recordedAt - v.retention ≤ row.recordedAt :=
      fun row hrow => (hrows row hrow).2
    obtain ⟨row, hrow, hhistory⟩ : ∃ row : Row, row.report = report ∧
        (Diagnostics.step v (.diagnose report recordedAt now jitter true runRemediation succeeds)
          s).history = row :: s.history := by
      simp only [Diagnostics.step, diagnose, if_true]
      rw [record_newest (fun r hr => (hrows r hr).1), pruneOlderThan, List.filter_eq_self.2]
      · exact ⟨_, rfl, rfl⟩
      · intro r hr
        rcases List.mem_cons.1 hr with rfl | hr
        · exact decide_eq_true (Int.sub_le_self _ hretention)
        · exact decide_eq_true (hkeep r hr)
    constructor
    · rw [hhistory]
      intro name
      rw [resetFromHistory, List.reverse_cons, List.foldl_append, List.foldl_cons, List.foldl_nil,
        hrow]
      exact lag_countAll h.lag report.dimensions name
    · rw [hhistory]
      exact hroom

theorem detector_step (e : Event) (he : e ≠ .restart) (s : State) :
    (step v e s).detector = (detect v e.dims s.detector).1 := by
  cases e with
  | restart => exact absurd rfl he
  | diagnose => rfl

def freshness (score : ℚ) (at_ : Int) : Event :=
  .diagnose ⟨score, [("freshness", score)]⟩ at_ at_ 0 true true (fun _ => true)

end Restart

end TappsBrain.Diagnostics
