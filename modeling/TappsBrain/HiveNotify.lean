import TappsBrain.Lib.Exclusive
import TappsBrain.Lib.TtlCache

namespace TappsBrain.HiveNotify
open Lib
set_option autoImplicit true
set_option relaxedAutoImplicit false

/-- Where a call of `hive_wait_write` is. -/
inductive Place where
  | asked
  | connecting
  /-- `LISTEN` has returned; `pending` says that a notification is waiting on the connection. -/
  | listening (pending : Bool)
  | blocked (pending : Bool)
  | woken (timedOut : Bool)
  | polling
  | expired
deriving DecidableEq

/-- A call under way, with the revision that was committed when it began. -/
structure Call where
  since : Nat
  askedAt : Nat
  place : Place

structure Answer where
  waiter : Nat
  since : Nat
  askedAt : Nat
  revision : Nat
  changed : Bool
  timedOut : Bool

structure State where
  revision : Nat := 0
  calls : Nat → Option Call := fun _ => none
  answers : List Answer := []

inductive Event where
  /-- A save, an archival or a change of confidence commits. -/
  | commit
  | ask (i since : Nat)
  | listen (i : Nat)
  | read (i : Nat)
  | wake (i : Nat)
  | timeout (i : Nat)
  | fail (i : Nat)

/-- The notification that goes out with a commit reaches whoever listens. -/
def Call.notified (c : Call) : Call :=
  match c.place with
  | .listening _ => { c with place := .listening true }
  | .blocked _ => { c with place := .blocked true }
  | _ => c

def Call.answer (c : Call) (i revision : Nat) (timedOut : Bool) : Answer :=
  ⟨i, c.since, c.askedAt, revision, decide (c.since < revision), timedOut⟩

/-- What a call does with the revision that it reads: go on elsewhere, or answer. -/
def Call.reads (c : Call) (i revision : Nat) : Call ⊕ Answer :=
  match c.place with
  | .asked =>
    if c.since < revision then .inr (c.answer i revision false)
    else .inl { c with place := .connecting }
  | .listening pending =>
    if c.since < revision then .inr (c.answer i revision false)
    else .inl { c with place := .blocked pending }
  | .polling => if c.since < revision then .inr (c.answer i revision false) else .inl c
  | .woken timedOut => .inr (c.answer i revision timedOut)
  | .expired => .inr (c.answer i revision true)
  | .connecting | .blocked _ => .inl c

/-- Where an exception leaves a call: listening falls back to polling, all else is an error. -/
def Call.fails (c : Call) : Option Call :=
  match c.place with
  | .connecting | .listening _ | .blocked _ | .woken _ => some { c with place := .polling }
  | .asked | .polling | .expired => none

def Call.moves (c : Call) : Event → Call
  | .listen _ => match c.place with
    | .connecting => { c with place := .listening false }
    | _ => c
  | .wake _ => match c.place with
    | .blocked true => { c with place := .woken false }
    | _ => c
  | .timeout _ => match c.place with
    | .blocked _ => { c with place := .woken true }
    | .polling => { c with place := .expired }
    | _ => c
  | _ => c

def State.goto (s : State) (i : Nat) (c : Option Call) : State :=
  { s with calls := Function.update s.calls i c }

def step : Event → State → State
  | .commit, s =>
    { s with revision := s.revision + 1, calls := fun i => (s.calls i).map Call.notified }
  | .ask i since, s => match s.calls i with
    | none => s.goto i (some ⟨since, s.revision, .asked⟩)
    | some _ => s
  | .read i, s => match s.calls i with
    | none => s
    | some c => match c.reads i s.revision with
      | .inl c' => s.goto i (some c')
      | .inr a => { s.goto i none with answers := s.answers ++ [a] }
  | .fail i, s => match s.calls i with
    | none => s
    | some c => s.goto i c.fails
  | .listen i, s => match s.calls i with
    | none => s
    | some c => s.goto i (some (c.moves (.listen i)))
  | .wake i, s => match s.calls i with
    | none => s
    | some c => s.goto i (some (c.moves (.wake i)))
  | .timeout i, s => match s.calls i with
    | none => s
    | some c => s.goto i (some (c.moves (.timeout i)))

section Wakeups
variable {s : State} {i revision : Nat} {c : Call}

/-- Nobody blocks on a revision that is there, but with the notification of it. -/
def Call.Awake (c : Call) (revision : Nat) : Prop :=
  c.askedAt ≤ revision ∧
    match c.place with
    | .listening true => c.askedAt < revision
    | .blocked pending => (pending = true → c.askedAt < revision) ∧
      (pending = false → revision ≤ c.since)
    | .woken false => c.askedAt < revision
    | _ => True

def Answer.Honest (a : Answer) (revision : Nat) : Prop :=
  a.changed = decide (a.since < a.revision) ∧ a.askedAt ≤ a.revision ∧ a.revision ≤ revision ∧
    (a.timedOut = false → a.since ≤ a.askedAt → a.changed = true)

structure Heard (s : State) : Prop where
  awake : ∀ i c, s.calls i = some c → c.Awake s.revision
  honest : ∀ a ∈ s.answers, a.Honest s.revision

theorem Call.Awake.notified (h : c.Awake revision) : c.notified.Awake (revision + 1) := by
  obtain ⟨since, askedAt, place⟩ := c
  obtain ⟨hle, hplace⟩ := h
  cases place with
  | listening pending => exact ⟨Nat.le_succ_of_le hle, Nat.lt_succ_of_le hle⟩
  | blocked pending =>
    exact ⟨Nat.le_succ_of_le hle, fun _ => Nat.lt_succ_of_le hle, nofun⟩
  | woken timedOut =>
    cases timedOut with
    | true => exact ⟨Nat.le_succ_of_le hle, trivial⟩
    | false => exact ⟨Nat.le_succ_of_le hle, Nat.lt_succ_of_lt hplace⟩
  | asked | connecting | polling | expired => exact ⟨Nat.le_succ_of_le hle, trivial⟩

theorem Call.Awake.moves (h : c.Awake revision) (e : Event) : (c.moves e).Awake revision := by
  obtain ⟨since, askedAt, place⟩ := c
  obtain ⟨hle, hplace⟩ := h
  cases e with
  | listen =>
    cases place with
    | connecting => exact ⟨hle, trivial⟩
    | _ => exact ⟨hle, hplace⟩
  | wake =>
    cases place with
    | blocked pending =>
      cases pending with
      | true => exact ⟨hle, hplace.1 rfl⟩
      | false => exact ⟨hle, hplace⟩
    | _ => exact ⟨hle, hplace⟩
  | timeout =>
    cases place with
    | blocked pending => exact ⟨hle, trivial⟩
    | polling => exact ⟨hle, trivial⟩
    | _ => exact ⟨hle, hplace⟩
  | _ => exact ⟨hle, hplace⟩

theorem Call.Awake.fails (h : c.Awake revision) {c' : Call} (hc : c.fails = some c') :
    c'.Awake revision := by
  obtain ⟨since, askedAt, place⟩ := c
  cases place with
  | connecting | listening | blocked | woken =>
    obtain rfl := Option.some.inj hc
    exact ⟨h.1, trivial⟩
  | asked | polling | expired => cases hc

theorem Call.Awake.reads_inl (h : c.Awake revision) {c' : Call}
    (hc : c.reads i revision = .inl c') : c'.Awake revision ∧ c'.since = c.since := by
  obtain ⟨since, askedAt, place⟩ := c
  obtain ⟨hle, hplace⟩ := h
  cases place with
  | asked =>
    simp only [Call.reads] at hc
    split at hc
    · cases hc
    · obtain rfl := Sum.inl.inj hc
      exact ⟨⟨hle, trivial⟩, rfl⟩
  | listening pending =>
    simp only [Call.reads] at hc
    split at hc
    · cases hc
    · next hold =>
      obtain rfl := Sum.inl.inj hc
      refine ⟨⟨hle, ?_, fun _ => Nat.not_lt.1 hold⟩, rfl⟩
      intro hpending
      subst hpending
      exact hplace
  | polling =>
    simp only [Call.reads] at hc
    split at hc
    · cases hc
    · obtain rfl := Sum.inl.inj hc
      exact ⟨⟨hle, trivial⟩, rfl⟩
  | connecting | blocked =>
    obtain rfl := Sum.inl.inj hc
    exact ⟨⟨hle, hplace⟩, rfl⟩
  | woken | expired => cases hc

theorem Call.Awake.reads_inr (h : c.Awake revision) {a : Answer}
    (hc : c.reads i revision = .inr a) :
    a.Honest revision ∧ ∃ timedOut, a = c.answer i revision timedOut := by
  obtain ⟨since, askedAt, place⟩ := c
  obtain ⟨hle, hplace⟩ := h
  cases place with
  | asked | listening | polling =>
    simp only [Call.reads] at hc
    split at hc
    · next hnew =>
      obtain rfl := Sum.inr.inj hc
      exact ⟨⟨rfl, hle, Nat.le_refl _, fun _ _ => decide_eq_true hnew⟩, false, rfl⟩
    · cases hc
  | woken timedOut =>
    obtain rfl := Sum.inr.inj hc
    refine ⟨⟨rfl, hle, Nat.le_refl _, ?_⟩, timedOut, rfl⟩
    intro hwoken hsince
    have hwoken : timedOut = false := hwoken
    subst hwoken
    exact decide_eq_true (Nat.lt_of_le_of_lt hsince hplace)
  | expired =>
    obtain rfl := Sum.inr.inj hc
    exact ⟨⟨rfl, hle, Nat.le_refl _, nofun⟩, true, rfl⟩
  | connecting | blocked => cases hc

theorem awake_goto (h : ∀ i c, s.calls i = some c → c.Awake s.revision) {c : Option Call}
    (hc : ∀ c', c = some c' → c'.Awake s.revision) :
    ∀ j c', (s.goto i c).calls j = some c' → c'.Awake s.revision :=
  forall_update (P := fun _ (c : Option Call) => ∀ c', c = some c' → c'.Awake s.revision)
    (fun j _ => h j) hc

theorem Heard.moved (h : Heard s) (hi : s.calls i = some c) (e : Event) :
    Heard (s.goto i (some (c.moves e))) where
  awake := awake_goto h.awake (fun _ heq => Option.some.inj heq ▸ (h.awake i c hi).moves e)
  honest := h.honest

theorem Heard.step (h : Heard s) (e : Event) : Heard (step e s) := by
  cases e with
  | commit =>
    constructor
    · intro i c hc
      obtain ⟨c', hc', rfl⟩ := Option.map_eq_some_iff.1 hc
      exact (h.awake i c' hc').notified
    · intro a ha
      obtain ⟨hchanged, hasked, hle, hwoken⟩ := h.honest a ha
      exact ⟨hchanged, hasked, Nat.le_succ_of_le hle, hwoken⟩
  | ask i since =>
    simp only [HiveNotify.step]
    cases hi : s.calls i with
    | some c => exact h
    | none =>
      refine ⟨awake_goto h.awake ?_, h.honest⟩
      intro c heq
      obtain rfl := Option.some.inj heq
      exact ⟨Nat.le_refl _, trivial⟩
  | read i =>
    simp only [HiveNotify.step]
    cases hi : s.calls i with
    | none => exact h
    | some c =>
      dsimp only
      cases hreads : c.reads i s.revision with
      | inl c' =>
        refine ⟨awake_goto h.awake ?_, h.honest⟩
        intro c'' heq
        obtain rfl := Option.some.inj heq
        exact ((h.awake i c hi).reads_inl hreads).1
      | inr a =>
        refine ⟨awake_goto h.awake nofun, ?_⟩
        intro b hb
        rcases List.mem_append.1 hb with hb | hb
        · exact h.honest b hb
        · rw [List.mem_singleton.1 hb]
          exact ((h.awake i c hi).reads_inr hreads).1
  | fail i =>
    simp only [HiveNotify.step]
    cases hi : s.calls i with
    | none => exact h
    | some c =>
      exact ⟨awake_goto h.awake (fun c' heq => (h.awake i c hi).fails heq), h.honest⟩
  | listen i =>
    simp only [HiveNotify.step]
    cases hi : s.calls i with
    | none => exact h
    | some c => exact h.moved hi _
  | wake i =>
    simp only [HiveNotify.step]
    cases hi : s.calls i with
    | none => exact h
    | some c => exact h.moved hi _
  | timeout i =>
    simp only [HiveNotify.step]
    cases hi : s.calls i with
    | none => exact h
    | some c => exact h.moved hi _

theorem heard_run (events : List Event) : Heard (runSteps step events {}) :=
  runSteps_keeps (I := Heard) (fun e _ _ h => h.step e) ⟨nofun, nofun⟩

end Wakeups

section Watching
variable {s : State} {i revision : Nat} {c : Call}

/-- What the last answer to a caller told. -/
def lastRevision (i : Nat) (answers : List Answer) : Nat :=
  ((answers.filter (fun a => a.waiter = i)).getLast?.map Answer.revision).getD 0

/-- How many answers told the caller that the commit is new. -/
def reports (i n : Nat) (answers : List Answer) : Nat :=
  answers.countP (fun a => a.waiter = i && a.changed && a.since < n && n ≤ a.revision)

/-- Who asks goes on from what it was told last. -/
def GoesOn : Event → State → Prop
  | .ask i since, s => since = lastRevision i s.answers
  | _, _ => True

instance : (e : Event) → (s : State) → Decidable (GoesOn e s)
  | .ask i since, s => inferInstanceAs (Decidable (since = lastRevision i s.answers))
  | .commit, _ | .listen _, _ | .read _, _ | .wake _, _ | .timeout _, _ | .fail _, _ =>
    isTrue trivial

structure Told (s : State) : Prop where
  heard : Heard s
  since : ∀ i c, s.calls i = some c → c.since = lastRevision i s.answers
  last : ∀ i, lastRevision i s.answers ≤ s.revision
  once : ∀ i n, reports i n s.answers = if 0 < n ∧ n ≤ lastRevision i s.answers then 1 else 0

theorem lastRevision_append (i : Nat) (answers : List Answer) (a : Answer) :
    lastRevision i (answers ++ [a]) =
      if a.waiter = i then a.revision else lastRevision i answers := by
  rw [lastRevision, List.filter_append]
  by_cases hi : a.waiter = i
  · rw [if_pos hi, List.filter_cons, if_pos (decide_eq_true hi), List.filter_nil,
      List.getLast?_concat]
    rfl
  · rw [if_neg hi, List.filter_cons, if_neg (fun h => hi (of_decide_eq_true h)), List.filter_nil,
      List.append_nil]
    rfl

theorem notified_since (c : Call) : c.notified.since = c.since := by
  obtain ⟨since, askedAt, place⟩ := c
  cases place <;> rfl

theorem moves_since (c : Call) (e : Event) : (c.moves e).since = c.since := by
  obtain ⟨since, askedAt, place⟩ := c
  cases e with
  | listen => cases place <;> rfl
  | wake =>
    cases place with
    | blocked pending => cases pending <;> rfl
    | _ => rfl
  | timeout => cases place <;> rfl
  | _ => rfl

theorem fails_since {c c' : Call} (h : c.fails = some c') : c'.since = c.since := by
  rw [Call.fails] at h
  split at h
  · obtain rfl := Option.some.inj h
    rfl
  · obtain rfl := Option.some.inj h
    rfl
  · obtain rfl := Option.some.inj h
    rfl
  · obtain rfl := Option.some.inj h
    rfl
  · cases h
  · cases h
  · cases h

theorem Told.goto (h : Told s) {c : Option Call} (hheard : Heard (s.goto i c))
    (hc : ∀ c', c = some c' → c'.since = lastRevision i s.answers) : Told (s.goto i c) where
  heard := hheard
  since := forall_update
    (P := fun j (c : Option Call) => ∀ c', c = some c' → c'.since = lastRevision j s.answers)
    (fun j _ => h.since j) hc
  last := h.last
  once := h.once

theorem Told.answered (h : Told s) (hi : s.calls i = some c) {a : Answer}
    (hreads : c.reads i s.revision = .inr a)
    (hheard : Heard { s.goto i none with answers := s.answers ++ [a] }) :
    Told { s.goto i none with answers := s.answers ++ [a] } := by
  obtain ⟨_, timedOut, rfl⟩ := (h.heard.awake i c hi).reads_inr hreads
  have hsince := h.since i c hi
  have hlast := h.last i
  refine ⟨hheard, ?_, ?_, ?_⟩
  · apply forall_update (P := fun j (c' : Option Call) => ∀ c'', c' = some c'' →
      c''.since = lastRevision j (s.answers ++ [c.answer i s.revision timedOut]))
    · intro j hj c' hc'
      rw [lastRevision_append, if_neg (fun heq => hj heq.symm)]
      exact h.since j c' hc'
    · nofun
  · intro j
    rw [lastRevision_append]
    split
    · exact Nat.le_refl _
    · exact h.last j
  · intro j n
    have honce := h.once j n
    rw [reports] at honce ⊢
    rw [List.countP_append, honce, lastRevision_append, List.countP_singleton]
    by_cases hj : i = j
    · subst hj
      simp only [Call.answer, hsince, decide_true, Bool.true_and, Bool.and_eq_true,
        decide_eq_true_eq, if_true]
      by_cases hold : 0 < n ∧ n ≤ lastRevision i s.answers
      · rw [if_pos hold, if_neg (by omega), if_pos (by omega)]
      · rw [if_neg hold]
        by_cases hnew : 0 < n ∧ n ≤ s.revision
        · rw [if_pos (by omega), if_pos hnew]
        · rw [if_neg (by omega), if_neg hnew]
    · have hother : (c.answer i s.revision timedOut).waiter ≠ j := hj
      simp [hother]

theorem Told.step (h : Told s) (e : Event) (he : GoesOn e s) : Told (step e s) := by
  have hheard := h.heard.step e
  cases e with
  | commit =>
    refine ⟨hheard, ?_, fun i => Nat.le_succ_of_le (h.last i), h.once⟩
    intro i c hc
    obtain ⟨c', hc', rfl⟩ := Option.map_eq_some_iff.1 hc
    rw [notified_since]
    exact h.since i c' hc'
  | ask i since =>
    simp only [HiveNotify.step] at hheard ⊢
    cases hi : s.calls i with
    | some c => exact h
    | none =>
      rw [hi] at hheard
      apply h.goto hheard
      intro c heq
      obtain rfl := Option.some.inj heq
      exact he
  | read i =>
    simp only [HiveNotify.step] at hheard ⊢
    cases hi : s.calls i with
    | none => exact h
    | some c =>
      rw [hi] at hheard
      dsimp only at hheard ⊢
      cases hreads : c.reads i s.revision with
      | inl c' =>
        rw [hreads] at hheard
        apply h.goto hheard
        intro c'' heq
        obtain rfl := Option.some.inj heq
        rw [((h.heard.awake i c hi).reads_inl hreads).2]
        exact h.since i c hi
      | inr a =>
        rw [hreads] at hheard
        exact h.answered hi hreads hheard
  | fail i =>
    simp only [HiveNotify.step] at hheard ⊢
    cases hi : s.calls i with
    | none => exact h
    | some c =>
      rw [hi] at hheard
      exact h.goto hheard (fun c' heq => (fails_since heq).trans (h.since i c hi))
  | listen i =>
    simp only [HiveNotify.step] at hheard ⊢
    cases hi : s.calls i with
    | none => exact h
    | some c =>
      rw [hi] at hheard
      exact h.goto hheard (fun c' heq => by
        rw [← Option.some.inj heq, moves_since]
        exact h.since i c hi)
  | wake i =>
    simp only [HiveNotify.step] at hheard ⊢
    cases hi : s.calls i with
    | none => exact h
    | some c =>
      rw [hi] at hheard
      exact h.goto hheard (fun c' heq => by
        rw [← Option.some.inj heq, moves_since]
        exact h.since i c hi)
  | timeout i =>
    simp only [HiveNotify.step] at hheard ⊢
    cases hi : s.calls i with
    | none => exact h
    | some c =>
      rw [hi] at hheard
      exact h.goto hheard (fun c' heq => by
        rw [← Option.some.inj heq, moves_since]
        exact h.since i c hi)

/-- A caller that goes on from its last answer is told of every commit up to there once, and of none
beyond, through whatever timeouts and failures it waited. -/
theorem commits_reported_once {events : List Event} (hevents : Guarded step GoesOn events {})
    (i n : Nat) :
    reports i n (runSteps step events {}).answers =
      if 0 < n ∧ n ≤ lastRevision i (runSteps step events {}).answers then 1 else 0 := by
  have hrun : Told (runSteps step events {}) :=
    hevents.keeps (fun e _ h he => h.step e he)
      ⟨⟨nofun, nofun⟩, nofun, fun _ => Nat.le_refl 0, fun i n => by
        have hzero : lastRevision i ({} : State).answers = 0 := rfl
        rw [hzero, if_neg (by omega)]
        rfl⟩
  exact hrun.once i n

/-- A timeout without news, then two commits while the caller reconnects. -/
def slowWatch : List Event :=
  [.commit, .ask 0 0, .read 0, .ask 0 1, .read 0, .listen 0, .read 0, .timeout 0, .read 0,
    .ask 0 1, .read 0, .commit, .listen 0, .commit, .fail 0, .read 0]

theorem commits_reported_once_slow :
    reports 0 2 (runSteps step slowWatch {}).answers =
      if 0 < 2 ∧ 2 ≤ lastRevision 0 (runSteps step slowWatch {}).answers then 1 else 0 :=
  commits_reported_once (by decide) 0 2

end Watching

end TappsBrain.HiveNotify
