import Mathlib.Algebra.Order.Ring.Rat
import Mathlib.Logic.Function.Basic
import Mathlib.Tactic.Linarith
import TappsBrain.Lib.Run

namespace TappsBrain.RateLimiter
open Lib
set_option autoImplicit true
set_option relaxedAutoImplicit false

def BATCH_EXEMPT_CONTEXTS : List String :=
  ["import_markdown", "memory_relay", "seed", "federation_sync", "consolidate",
    "sync_from_markdown"]

/-- `RateLimiterConfig`, with the checks of its `__post_init__`. -/
structure RateLimiterConfig where
  writesPerMinute : Nat := 20
  lifetimeWriteWarnAt : Nat := 100
  enabled : Bool := true
  enforce : Bool := false
  minute_pos : 1 ≤ writesPerMinute := by decide
  lifetime_pos : 1 ≤ lifetimeWriteWarnAt := by decide

structure RateLimitResult where
  allowed : Bool := true
  minuteExceeded : Bool := false
  lifetimeExceeded : Bool := false
  currentMinuteCount : Nat := 0
  currentLifetimeCount : Nat := 0
  message : String := ""
deriving DecidableEq, Repr

structure RateLimiterStats where
  minuteAnomalies : Nat := 0
  lifetimeAnomalies : Nat := 0
  totalWrites : Nat := 0
  exemptWrites : Nat := 0
deriving DecidableEq, Repr

/-- The fields that `_lock` protects; the head of the deque comes first. -/
structure Limiter where
  timestamps : List ℚ := []
  lifetimeWrites : Nat := 0
  stats : RateLimiterStats := {}
deriving DecidableEq, Repr

/-- A call that has read its context, and the clock where it is not exempt, and waits for the
lock. -/
inductive Call where
  | exempt
  | ordinary (now : ℚ)
deriving DecidableEq, Repr

section Check
variable (c : RateLimiterConfig)

/-- What `check` does before it takes the lock; `none` when it returns at once. -/
def callOf (context : Option String) (now : ℚ) : Option Call :=
  if !c.enabled then none
  else if context.any BATCH_EXEMPT_CONTEXTS.contains then some .exempt
  else some (.ordinary now)

def minuteMessage (attempted : Nat) : String :=
  s!"Rate limit warning: {attempted} write attempts in last minute (limit: {c.writesPerMinute})"

def lifetimeMessage (writes : Nat) : String :=
  s!"Rate limit warning: {writes} total writes this process lifetime (warn at: " ++
    s!"{c.lifetimeWriteWarnAt})"

def messageOf (minuteExceeded lifetimeExceeded : Bool) (attempted writes : Nat) : String :=
  match minuteExceeded, lifetimeExceeded with
  | false, false => ""
  | true, false => minuteMessage c attempted
  | false, true => lifetimeMessage c writes
  | true, true => minuteMessage c attempted ++ "; " ++ lifetimeMessage c writes

/-- `while self._timestamps and self._timestamps[0] <= window_start: popleft()`. -/
def prune (now : ℚ) (timestamps : List ℚ) : List ℚ := timestamps.dropWhile (· ≤ now - 60)

/-- The critical section of `check`, and the result it makes of it. -/
def critical (call : Call) (l : Limiter) : RateLimitResult × Limiter :=
  match call with
  | .exempt =>
    ({}, { l with stats := { l.stats with
      exemptWrites := l.stats.exemptWrites + 1, totalWrites := l.stats.totalWrites + 1 } })
  | .ordinary now =>
    let timestamps := prune now l.timestamps
    let attempted := timestamps.length + 1
    let minuteExceeded : Bool := c.writesPerMinute < attempted
    let allowed := !(c.enforce && minuteExceeded)
    let minuteAnomalies := l.stats.minuteAnomalies + minuteExceeded.toNat
    if allowed then
      let writes := l.lifetimeWrites + 1
      let lifetimeExceeded : Bool := c.lifetimeWriteWarnAt < writes
      ({ allowed, minuteExceeded, lifetimeExceeded
         currentMinuteCount := attempted, currentLifetimeCount := writes
         message := messageOf c minuteExceeded lifetimeExceeded attempted writes },
       { timestamps := timestamps ++ [now], lifetimeWrites := writes
         stats := { l.stats with
           minuteAnomalies
           lifetimeAnomalies := l.stats.lifetimeAnomalies + lifetimeExceeded.toNat
           totalWrites := l.stats.totalWrites + 1 } })
    else
      ({ allowed, minuteExceeded, lifetimeExceeded := false
         currentMinuteCount := timestamps.length, currentLifetimeCount := l.lifetimeWrites
         message := messageOf c minuteExceeded false attempted l.lifetimeWrites },
       { l with timestamps, stats := { l.stats with minuteAnomalies } })

/-- `check`, run without interruption. -/
def check (context : Option String) (now : ℚ) (l : Limiter) : RateLimitResult × Limiter :=
  match callOf c context now with
  | none => ({}, l)
  | some call => critical c call l

end Check
section System

/-- One limiter under many threads: the calls that wait for the lock, and those that went through
it, in that order. -/
structure Limiting where
  limiter : Limiter := {}
  clock : ℚ := 0
  pending : Nat → Option Call := fun _ => none
  log : List (Call × RateLimitResult) := []

/-- A thread enters `check` and reads context and clock; a thread goes through the lock. -/
inductive Event where
  | enter (thread : Nat) (context : Option String) (now : ℚ)
  | lock (thread : Nat)

/-- The clock is monotonic, a thread is in one call at a time, and it takes the lock in a call. -/
def Possible : Event → Limiting → Prop
  | .enter thread _ now, s => s.clock ≤ now ∧ s.pending thread = none
  | .lock thread, s => s.pending thread ≠ none

instance : (e : Event) → (s : Limiting) → Decidable (Possible e s)
  | .enter _ _ _, _ => inferInstanceAs (Decidable (_ ∧ _))
  | .lock _, _ => inferInstanceAs (Decidable (¬ _))

def step (c : RateLimiterConfig) : Event → Limiting → Limiting
  | .enter thread context now, s =>
    { s with clock := now, pending := Function.update s.pending thread (callOf c context now) }
  | .lock thread, s =>
    match s.pending thread with
    | none => s
    | some call =>
      let done := critical c call s.limiter
      { s with
        limiter := done.2
        pending := Function.update s.pending thread none
        log := s.log ++ [(call, done.1)] }

/-- The readings of the ordinary checks that were allowed. -/
def allowedReadings (log : List (Call × RateLimitResult)) : List ℚ :=
  log.filterMap (fun d =>
    match d.1 with
    | .exempt => none
    | .ordinary now => if d.2.allowed then some now else none)

def exemptChecks (log : List (Call × RateLimitResult)) : Nat :=
  log.countP (fun d => d.1 = .exempt)

/-- The readings of the window `(now - 60, now]`. -/
def inWindow (now : ℚ) (readings : List ℚ) : List ℚ :=
  readings.filter (fun r => now - 60 < r && r ≤ now)

/-- What the sliding window is for. -/
structure WindowKept (c : RateLimiterConfig) (s : Limiting) : Prop where
  rejects : ∀ before now result after, s.log = before ++ (.ordinary now, result) :: after →
    (result.allowed = false ↔
      (inWindow now (allowedReadings before)).length = c.writesPerMinute)
  bound : ∀ now, (inWindow now (allowedReadings s.log)).length ≤ c.writesPerMinute
  quota : s.limiter.timestamps.Sublist (allowedReadings s.log)
  exempt : ∀ d ∈ s.log, d.1 = .exempt → d.2.allowed = true
  total : s.limiter.stats.totalWrites = (allowedReadings s.log).length + exemptChecks s.log

/-- A call that takes the lock now: no ordinary check with a newer reading was allowed before. -/
def TakesTurn : Option Call → List (Call × RateLimitResult) → Prop
  | some (.ordinary now), log => ∀ r ∈ allowedReadings log, r ≤ now
  | _, _ => True

instance : (call : Option Call) → (log : List (Call × RateLimitResult)) →
    Decidable (TakesTurn call log)
  | some (.ordinary _), _ => inferInstanceAs (Decidable (∀ r ∈ _, _))
  | some .exempt, _ => isTrue trivial
  | none, _ => isTrue trivial

/-- An ordinary check takes the lock with a reading that is not older than one already allowed. -/
def InOrder : Event → Limiting → Prop
  | .enter _ _ _, _ => True
  | .lock thread, s => TakesTurn (s.pending thread) s.log

instance : (e : Event) → (s : Limiting) → Decidable (InOrder e s)
  | .enter _ _ _, _ => isTrue trivial
  | .lock _, _ => inferInstanceAs (Decidable (TakesTurn _ _))

end System
section Readings
variable {log before after : List (Call × RateLimitResult)} {result : RateLimitResult} {now t : ℚ}
  {readings timestamps : List ℚ}

theorem allowedReadings_append (log : List (Call × RateLimitResult)) (d : Call × RateLimitResult) :
    allowedReadings (log ++ [d]) = allowedReadings log ++ allowedReadings [d] :=
  List.filterMap_append ..

@[simp] theorem allowedReadings_exempt (result : RateLimitResult) :
    allowedReadings [(.exempt, result)] = [] := rfl

theorem allowedReadings_ordinary (now : ℚ) (result : RateLimitResult) :
    allowedReadings [(.ordinary now, result)] = if result.allowed then [now] else [] := by
  cases h : result.allowed <;> simp [allowedReadings, h]

theorem exemptChecks_append (log : List (Call × RateLimitResult)) (d : Call × RateLimitResult) :
    exemptChecks (log ++ [d]) = exemptChecks log + exemptChecks [d] :=
  List.countP_append ..

/-- The last record of a log, or an earlier one. -/
theorem split_append_singleton {l before after : List α} {x d : α}
    (h : l ++ [x] = before ++ d :: after) :
    (before = l ∧ d = x) ∨ ∃ after', l = before ++ d :: after' := by
  rcases List.eq_nil_or_concat after with rfl | ⟨init, y, rfl⟩
  · obtain ⟨rfl, hd⟩ := List.append_inj' h rfl
    exact .inl ⟨rfl, (List.cons.inj hd).1.symm⟩
  · rw [List.concat_eq_append, ← List.cons_append, ← List.append_assoc] at h
    obtain ⟨rfl, -⟩ := List.append_inj' h rfl
    exact .inr ⟨init, rfl⟩

/-- Pruning at the head drops all that is too old, if the deque is in order. -/
theorem prune_eq_filter (hsorted : timestamps.Pairwise (· ≤ ·)) :
    prune now timestamps = timestamps.filter (now - 60 < ·) := by
  unfold prune
  induction timestamps with
  | nil => rfl
  | cons r rest ih =>
    obtain ⟨hhead, hrest⟩ := List.pairwise_cons.mp hsorted
    by_cases hold : r ≤ now - 60
    · rw [List.dropWhile_cons_of_pos (by simpa using hold), ih hrest,
        List.filter_cons_of_neg (by simpa using hold)]
    · rw [List.dropWhile_cons_of_neg (by simpa using hold)]
      symm
      apply List.filter_eq_self.mpr
      intro a ha
      have hra : r ≤ a := by
        cases ha with
        | head => exact le_refl r
        | tail _ ha => exact hhead a ha
      rw [decide_eq_true_eq]
      exact lt_of_lt_of_le (not_le.mp hold) hra

theorem inWindow_eq_filter (hlate : ∀ r ∈ readings, r ≤ now) :
    inWindow now readings = readings.filter (now - 60 < ·) := by
  apply List.filter_congr
  intro r hr
  rw [decide_eq_true (hlate r hr), Bool.and_true]

theorem filter_filter_later (h : now ≤ t) :
    (readings.filter (now - 60 < ·)).filter (t - 60 < ·) = readings.filter (t - 60 < ·) := by
  rw [List.filter_filter]
  apply List.filter_congr
  intro r _
  by_cases hr : t - 60 < r
  · have hnow : now - 60 < r := by linarith
    rw [decide_eq_true hr, decide_eq_true hnow]
    rfl
  · rw [decide_eq_false hr]
    rfl

theorem filter_filter_earlier (h : t ≤ now) :
    (readings.filter (now - 60 < ·)).filter (t - 60 < ·) = readings.filter (now - 60 < ·) := by
  apply List.filter_eq_self.mpr
  intro r hr
  have hnow := of_decide_eq_true (List.mem_filter.mp hr).2
  rw [decide_eq_true_eq]
  linarith

end Readings
section Ordered
variable {c : RateLimiterConfig} {s : Limiting} {now : ℚ} {thread : Nat}

/-- The readings of a deque that count for a check at `now`. -/
def counted (now : ℚ) (timestamps : List ℚ) : List ℚ := timestamps.filter (now - 60 < ·)

/-- The invariant of a run in order: the deque may have lost readings that a window still holds,
but then it is full. -/
structure Ordered (c : RateLimiterConfig) (s : Limiting) : Prop extends WindowKept c s where
  sorted : (allowedReadings s.log).Pairwise (· ≤ ·)
  counts : ∀ now, (∀ r ∈ allowedReadings s.log, r ≤ now) →
    counted now s.limiter.timestamps = counted now (allowedReadings s.log) ∨
      c.writesPerMinute ≤ (counted now s.limiter.timestamps).length

theorem ordered_start (c : RateLimiterConfig) (origin : ℚ) : Ordered c { clock := origin } where
  rejects := by
    intro before now result after h
    exact absurd h.symm (List.append_ne_nil_of_right_ne_nil _ (List.cons_ne_nil _ _))
  bound := fun _ => Nat.zero_le _
  quota := List.Sublist.refl _
  exempt := fun _ h => absurd h List.not_mem_nil
  total := rfl
  sorted := List.Pairwise.nil
  counts := fun _ _ => .inl rfl

/-- The deque a check at `now` prunes to holds no more than the window, and all of it unless it
is full. -/
theorem Ordered.window (h : Ordered c s) (hlate : ∀ r ∈ allowedReadings s.log, r ≤ now) :
    prune now s.limiter.timestamps = counted now s.limiter.timestamps ∧
      ((counted now s.limiter.timestamps).length < c.writesPerMinute →
        counted now s.limiter.timestamps = counted now (allowedReadings s.log)) ∧
      (c.writesPerMinute ≤ (counted now s.limiter.timestamps).length ↔
        (inWindow now (allowedReadings s.log)).length = c.writesPerMinute) := by
  have hsub := h.quota.filter (fun r => decide (now - 60 < r))
  have hbound := h.bound now
  have hwindow : inWindow now (allowedReadings s.log) = counted now (allowedReadings s.log) :=
    inWindow_eq_filter hlate
  refine ⟨prune_eq_filter (h.sorted.sublist h.quota), ?_, ?_⟩
  · intro hroom
    rcases h.counts now hlate with heq | hfull
    · exact heq
    · exact absurd hroom (Nat.not_lt_of_le hfull)
  · rw [hwindow] at hbound ⊢
    have hlength := hsub.length_le
    constructor
    · intro hfull
      exact Nat.le_antisymm hbound (hfull.trans hlength)
    · intro heq
      rcases h.counts now hlate with hsame | hfull
      · rw [hsame, heq]
      · exact hfull

/-- The end of a log that a check joined: its own condition, or an earlier one's. -/
theorem rejects_append {log : List (Call × RateLimitResult)} {d : Call × RateLimitResult}
    {P : List (Call × RateLimitResult) → ℚ → RateLimitResult → Prop}
    (hlog : ∀ before now result after, log = before ++ (.ordinary now, result) :: after →
      P before now result)
    (hlast : ∀ now, d.1 = .ordinary now → P log now d.2) :
    ∀ before now result after, log ++ [d] = before ++ (.ordinary now, result) :: after →
      P before now result := by
  intro before now result after h
  rcases split_append_singleton h with ⟨rfl, hd⟩ | ⟨after', hbefore⟩
  · have hlast' := hlast now (by rw [← hd])
    rw [← hd] at hlast'
    exact hlast'
  · exact hlog before now result after' hbefore

theorem Ordered.lock_exempt (h : Ordered c s) (pending : Nat → Option Call) :
    let done := critical c .exempt s.limiter
    Ordered c { s with limiter := done.2, pending, log := s.log ++ [(.exempt, done.1)] } := by
  have hreadings : ∀ result : RateLimitResult,
      allowedReadings (s.log ++ [(.exempt, result)]) = allowedReadings s.log := by
    intro result
    rw [allowedReadings_append, allowedReadings_exempt, List.append_nil]
  dsimp only [critical]
  constructor
  · constructor
    · apply rejects_append h.rejects
      intro now hnow
      cases hnow
    · intro now
      rw [hreadings]
      exact h.bound now
    · rw [hreadings]
      exact h.quota
    · intro d hd hexempt
      rcases List.mem_append.mp hd with hd | hd
      · exact h.exempt d hd hexempt
      · rw [List.mem_singleton.mp hd]
    · rw [hreadings, exemptChecks_append, ← Nat.add_assoc, ← h.total]
      rfl
  · rw [hreadings]
    exact h.sorted
  · rw [hreadings]
    exact h.counts

/-- A check that finds the deque full is rejected and changes nothing but what is pruned. -/
theorem Ordered.lock_rejected (h : Ordered c s) (henforce : c.enforce = true)
    (hlate : ∀ r ∈ allowedReadings s.log, r ≤ now) (pending : Nat → Option Call)
    (hfull : c.writesPerMinute ≤ (prune now s.limiter.timestamps).length) :
    let done := critical c (.ordinary now) s.limiter
    Ordered c { s with limiter := done.2, pending, log := s.log ++ [(.ordinary now, done.1)] } := by
  obtain ⟨hprune, -, hwindow⟩ := h.window hlate
  have hexceeded : decide (c.writesPerMinute < (prune now s.limiter.timestamps).length + 1) = true :=
    decide_eq_true (Nat.lt_succ_of_le hfull)
  have hreadings : ∀ result : RateLimitResult, result.allowed = false →
      allowedReadings (s.log ++ [(.ordinary now, result)]) = allowedReadings s.log := by
    intro result hresult
    rw [allowedReadings_append, allowedReadings_ordinary, hresult, if_neg Bool.false_ne_true,
      List.append_nil]
  dsimp only [critical]
  rw [henforce, hexceeded]
  simp only [Bool.and_self, Bool.not_true, Bool.false_eq_true, ↓reduceIte]
  rw [hprune] at hfull ⊢
  constructor
  · constructor
    · apply rejects_append h.rejects
      intro now' hnow
      cases hnow
      exact iff_of_true rfl (hwindow.mp hfull)
    · intro now'
      rw [hreadings _ rfl]
      exact h.bound now'
    · rw [hreadings _ rfl]
      exact List.filter_sublist.trans h.quota
    · intro d hd hexempt
      rcases List.mem_append.mp hd with hd | hd
      · exact h.exempt d hd hexempt
      · rw [List.mem_singleton.mp hd] at hexempt
        cases hexempt
    · rw [hreadings _ rfl, exemptChecks_append]
      exact h.total
  · rw [hreadings _ rfl]
    exact h.sorted
  · intro now' hlate'
    rw [hreadings _ rfl] at hlate' ⊢
    rcases le_total now now' with hle | hle
    · have hsame : counted now' (counted now s.limiter.timestamps) =
          counted now' s.limiter.timestamps := filter_filter_later hle
      rw [hsame]
      exact h.counts now' hlate'
    · have hsame : counted now' (counted now s.limiter.timestamps) =
          counted now s.limiter.timestamps := filter_filter_earlier hle
      rw [hsame]
      exact .inr hfull

/-- One more reading leaves every window within the limit, if its own window had room. -/
theorem Ordered.bound_append (h : Ordered c s) (hlate : ∀ r ∈ allowedReadings s.log, r ≤ now)
    (hroom : (counted now (allowedReadings s.log)).length < c.writesPerMinute) (now' : ℚ) :
    (inWindow now' (allowedReadings s.log ++ [now])).length ≤ c.writesPerMinute := by
  rcases le_or_gt now now' with hle | hlt
  · have hall : ∀ r ∈ allowedReadings s.log ++ [now], r ≤ now' := by
      intro r hr
      rcases List.mem_append.mp hr with hr | hr
      · exact (hlate r hr).trans hle
      · rw [List.mem_singleton.mp hr]
        exact hle
    rw [inWindow_eq_filter hall, List.filter_append, List.length_append]
    have hsub : (counted now' (allowedReadings s.log)).Sublist
        (counted now (allowedReadings s.log)) := by
      rw [counted, ← filter_filter_later hle]
      exact List.filter_sublist
    have hfirst := hsub.length_le
    have hsecond := (List.filter_sublist (p := (now' - 60 < ·)) (l := [now])).length_le
    rw [List.length_singleton] at hsecond
    unfold counted at hfirst hroom
    omega
  · have hout : inWindow now' [now] = [] := by
      apply List.filter_eq_nil_iff.mpr
      intro r hr
      rw [List.mem_singleton.mp hr, decide_eq_false (not_le.mpr hlt), Bool.and_false]
      exact Bool.false_ne_true
    have hsplit : inWindow now' (allowedReadings s.log ++ [now]) =
        inWindow now' (allowedReadings s.log) ++ inWindow now' [now] := List.filter_append ..
    rw [hsplit, hout, List.append_nil]
    exact h.bound now'

/-- A check that finds room is allowed, and its reading joins the deque at the end. -/
theorem Ordered.lock_allowed (h : Ordered c s)
    (hlate : ∀ r ∈ allowedReadings s.log, r ≤ now) (pending : Nat → Option Call)
    (hroom : (prune now s.limiter.timestamps).length < c.writesPerMinute) :
    let done := critical c (.ordinary now) s.limiter
    Ordered c { s with limiter := done.2, pending, log := s.log ++ [(.ordinary now, done.1)] } := by
  obtain ⟨hprune, hsame, hwindow⟩ := h.window hlate
  have hexceeded : decide (c.writesPerMinute < (prune now s.limiter.timestamps).length + 1) =
      false := decide_eq_false (Nat.not_lt_of_le hroom)
  have hreadings : ∀ result : RateLimitResult, result.allowed = true →
      allowedReadings (s.log ++ [(.ordinary now, result)]) = allowedReadings s.log ++ [now] := by
    intro result hresult
    rw [allowedReadings_append, allowedReadings_ordinary, hresult, if_pos rfl]
  dsimp only [critical]
  rw [hexceeded]
  simp only [Bool.and_false, Bool.not_false, ↓reduceIte]
  rw [hprune] at hroom ⊢
  have hheld := hsame hroom
  constructor
  · constructor
    · apply rejects_append h.rejects
      intro now' hnow
      cases hnow
      exact iff_of_false Bool.true_eq_false.mp (fun heq => absurd (hwindow.mpr heq)
        (Nat.not_le_of_lt hroom))
    · intro now'
      rw [hreadings _ rfl]
      exact h.bound_append hlate (hheld ▸ hroom) now'
    · rw [hreadings _ rfl]
      exact (List.filter_sublist.trans h.quota).append (List.Sublist.refl _)
    · intro d hd hexempt
      rcases List.mem_append.mp hd with hd | hd
      · exact h.exempt d hd hexempt
      · rw [List.mem_singleton.mp hd] at hexempt
        cases hexempt
    · rw [hreadings _ rfl, exemptChecks_append, List.length_append]
      have htotal := h.total
      have hnone : ∀ result, exemptChecks [(.ordinary now, result)] = 0 := fun _ => rfl
      rw [hnone, List.length_singleton]
      dsimp only
      omega
  · rw [hreadings _ rfl]
    apply List.pairwise_append.mpr
    refine ⟨h.sorted, List.pairwise_singleton _ _, ?_⟩
    intro r hr r' hr'
    rw [List.mem_singleton.mp hr']
    exact hlate r hr
  · intro now' hlate'
    rw [hreadings _ rfl] at hlate' ⊢
    have hle : now ≤ now' := hlate' now (List.mem_append_right _ List.mem_cons_self)
    left
    rw [hheld]
    simp only [counted, List.filter_append]
    rw [filter_filter_later hle]

theorem Ordered.step (h : Ordered c s) (henforce : c.enforce = true) (e : Event)
    (horder : InOrder e s) : Ordered c (RateLimiter.step c e s) := by
  cases e with
  | enter thread context now => exact ⟨⟨h.rejects, h.bound, h.quota, h.exempt, h.total⟩,
      h.sorted, h.counts⟩
  | lock thread =>
    rw [RateLimiter.step]
    cases hcall : s.pending thread with
    | none => exact h
    | some call =>
      cases call with
      | exempt => exact h.lock_exempt _
      | ordinary now =>
        have hlate : ∀ r ∈ allowedReadings s.log, r ≤ now := by
          rw [InOrder, hcall] at horder
          exact horder
        rcases Nat.lt_or_ge (prune now s.limiter.timestamps).length c.writesPerMinute with
          hroom | hfull
        · exact h.lock_allowed hlate _ hroom
        · exact h.lock_rejected henforce hlate _ hfull

/-- In every run whose ordinary checks take the lock with readings in order, the window is kept. -/
theorem ordered_run_kept (henforce : c.enforce = true) (origin : ℚ) {events : List Event}
    (hrun : Guarded (RateLimiter.step c) (fun e s => Possible e s ∧ InOrder e s) events
      { clock := origin }) :
    WindowKept c (runSteps (RateLimiter.step c) events { clock := origin }) := by
  have hordered := hrun.keeps (I := Ordered c)
    (fun e s h hguard => h.step henforce e hguard.2) (ordered_start c origin)
  exact hordered.toWindowKept

end Ordered
section Late

/-- Two writes a minute. -/
def twoPerMinute : RateLimiterConfig := { writesPerMinute := 2, enforce := true }

/-- Two checks at 0 and 1, one at 61, and one that read the clock at 59 but waited for the lock. -/
def lateReading : List Event :=
  [.enter 1 none 0, .lock 1, .enter 1 none 1, .lock 1, .enter 2 none 59, .enter 3 none 61,
    .lock 3, .lock 2]

theorem ordered_run_kept_twice :
    WindowKept twoPerMinute (runSteps (RateLimiter.step twoPerMinute)
      [.enter 1 none 0, .lock 1, .enter 2 (some "seed") 1, .lock 2, .enter 1 none 1, .lock 1,
        .enter 3 none 59, .lock 3] { clock := 0 }) :=
  ordered_run_kept rfl 0 (by decide +kernel)

/-- The late reading is let in though its window held two writes already. -/
theorem lateReading_overfills :
    ¬ ∀ (c : RateLimiterConfig) (origin : ℚ) (events : List Event), c.enforce = true →
      Guarded (RateLimiter.step c) Possible events { clock := origin } →
      WindowKept c (runSteps (RateLimiter.step c) events { clock := origin }) := by
  intro hkept
  have hlate := (hkept twoPerMinute 0 lateReading rfl (by decide +kernel)).bound 59
  have hthree : (inWindow 59 (allowedReadings
      (runSteps (RateLimiter.step twoPerMinute) lateReading { clock := 0 }).log)).length = 3 := by
    decide +kernel
  rw [hthree] at hlate
  exact absurd hlate (by decide)

end Late
end TappsBrain.RateLimiter
