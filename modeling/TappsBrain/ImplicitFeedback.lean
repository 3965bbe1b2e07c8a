import Mathlib
import TappsBrain.Lib.Table
import TappsBrain.Lib.TtlCache
import TappsBrain.Config

namespace TappsBrain.ImplicitFeedback
open Lib
set_option autoImplicit true
set_option relaxedAutoImplicit false

/-- A memory of a recall result, with the value of the entry that is cached under its key. -/
structure Memory where
  key : String
  source : String
  namespace_ : String := "universal"
  cached : Option String
deriving DecidableEq

structure RecallItem where
  key : String
  time : Int
deriving DecidableEq

structure QueryItem where
  query : String
  keys : List String
  time : Int
deriving DecidableEq

structure ValueItem where
  key : String
  value : String
  time : Int
deriving DecidableEq

/-- What the five dicts hold of a session; it is in one of them at least. -/
structure Session where
  sid : String
  recallLog : List RecallItem := []
  reinforced : List String := []
  queryLog : List QueryItem := []
  recalledValues : List ValueItem := []
  hiveKeys : String → Option String := fun _ => none

inductive Kind where
  | positive
  | negative
  | reformulation
  | correction
deriving DecidableEq

/-- An event, with the clock it was decided at. -/
structure Emitted where
  kind : Kind
  key : String
  sid : String
  utility : ℚ
  similarity : Option ℚ := none
  time : Int
deriving DecidableEq

structure State where
  sessions : Table Session.sid := Table.empty
  emitted : List Emitted := []

/-- `implicit_feedback_window_seconds` in units of the clock, and the reformulation window. -/
structure Config where
  unicode : Unicode
  window : Int := 300
  reformulationWindow : Int := 60

def SESSION_LOG_PER_SESSION_CAP : Nat := 100
def SESSION_STATE_HARD_CAP : Nat := 10000

/-- The critical sections of the store that touch this state, each with the clock it has read. -/
inductive Event where
  /-- The first of `_track_recall_feedback`. -/
  | flush (sid : String) (now : Int)
  | noteHive (sid : String) (memories : List Memory)
  | log (sid message : String) (memories : List Memory) (now : Int)
  /-- Of `reinforce`. -/
  | reinforce (sid key : String) (now : Int)
  /-- Of `save`. -/
  | correct (sid value : String) (now : Int)
  /-- Of `gc`. -/
  | sweep (now : Int)

variable (v : Config)

def tokens (s : String) : List String := (split (v.unicode.lower s)).dedup

def shared (a b : List String) : Nat := (a.filter (· ∈ b)).length

def jaccardSimilarity (a b : String) : ℚ :=
  let ta := tokens v a
  let tb := tokens v b
  if ta = [] ∧ tb = [] then 1
  else if ta = [] ∨ tb = [] then 0
  else (shared ta tb : ℚ) / (ta.length + tb.length - shared ta tb)

def tokenOverlapRatio (a b : String) : ℚ :=
  let ta := tokens v a
  let tb := tokens v b
  if ta = [] ∨ tb = [] then 0 else (shared ta tb : ℚ) / min ta.length tb.length

def State.session (s : State) (sid : String) : Session := (s.sessions.get? sid).getD { sid }

/-- `del log[:-cap]`, of a log that is too long. -/
def capped (l : List β) : List β := l.drop (l.length - SESSION_LOG_PER_SESSION_CAP)

def recalledKeys (memories : List Memory) : List String :=
  (memories.map Memory.key).filter (· ≠ "")

/-- `_consume_expired_recalls`, and the events for what has expired. -/
def consumeExpiredRecalls (sid : String) (now : Int) (s : State) : State :=
  let x := s.session sid
  let remaining := x.recallLog.filter (fun r => now - r.time ≤ v.window)
  let expired := x.recallLog.filter (fun r => v.window < now - r.time && r.key ∉ x.reinforced)
  { sessions :=
      if remaining.length ≠ x.recallLog.length then
        s.sessions.set { x with recallLog := remaining }
      else s.sessions
    emitted := s.emitted ++ expired.map (fun r => ⟨.negative, r.key, sid, -1 / 10, none, now⟩) }

def noteHiveKeys (sid : String) (memories : List Memory) (s : State) : State :=
  let x := s.session sid
  let hive := memories.filter (fun m => m.source = "hive" && m.key ≠ "")
  { s with
    sessions := s.sessions.set { x with
      hiveKeys := hive.foldl (fun idx m => fun k => if k = m.key then some m.namespace_ else idx k)
        x.hiveKeys } }

/-- The queries that are recent enough to be reworded; the others are pruned. -/
def recentQueries (x : Session) (now : Int) : List QueryItem :=
  x.queryLog.filter (fun q => now - q.time ≤ v.reformulationWindow)

def detectReformulation (x : Session) (message : String) (now : Int) : List (String × ℚ) :=
  (recentQueries v x now).flatMap fun q =>
    let sim := jaccardSimilarity v message q.query
    if 1 / 2 < sim then q.keys.map (fun k => (k, sim)) else []

def valueItems (memories : List Memory) (now : Int) : List ValueItem :=
  memories.filterMap fun m => if m.key ≠ "" then m.cached.map (⟨m.key, ·, now⟩) else none

def updateSessionRecallLogs (x : Session) (message : String) (memories : List Memory)
    (now : Int) : Session :=
  let keys := recalledKeys memories
  { x with
    queryLog := capped (recentQueries v x now ++ [⟨message, keys, now⟩])
    recallLog := if keys = [] then x.recallLog else capped (x.recallLog ++ keys.map (⟨·, now⟩))
    recalledValues := if keys = [] then x.recalledValues
      else capped (x.recalledValues ++ valueItems memories now) }

/-- The last critical section of `_track_recall_feedback`, and its events. -/
def logRecall (sid message : String) (memories : List Memory) (now : Int) (s : State) : State :=
  let x := s.session sid
  { sessions := s.sessions.set (updateSessionRecallLogs v x message memories now)
    emitted := s.emitted ++ (detectReformulation v x message now).map (fun t =>
      ⟨.reformulation, t.1, sid, -1 / 2, some t.2, now⟩) }

/-- `_check_and_mark_reinforced`, and the event. -/
def checkAndMarkReinforced (sid key : String) (now : Int) (s : State) : State :=
  let x := s.session sid
  if x.recallLog.any (fun r => r.key = key && now - r.time ≤ v.window) then
    { sessions := s.sessions.set { x with reinforced := key :: x.reinforced }
      emitted := s.emitted ++ [⟨.positive, key, sid, 1, none, now⟩] }
  else s

/-- `_detect_correction`, and the events: what matched is consumed. -/
def detectCorrection (sid value : String) (now : Int) (s : State) : State :=
  let x := s.session sid
  let recent := x.recalledValues.filter (fun r => now - r.time ≤ v.window)
  let corrected := recent.filter (fun r => 2 / 5 < tokenOverlapRatio v value r.value)
  { sessions := s.sessions.set { x with
      recalledValues := recent.filter (fun r => ¬ 2 / 5 < tokenOverlapRatio v value r.value) }
    emitted := s.emitted ++ corrected.map (fun r =>
      ⟨.correction, r.key, sid, -3 / 10, some (tokenOverlapRatio v value r.value), now⟩) }

/-- The last activity of a session; one without timestamps is active now. -/
def Session.lastTouch (now : Int) (x : Session) : Int :=
  match x.recallLog.map RecallItem.time ++ x.queryLog.map QueryItem.time ++
      x.recalledValues.map ValueItem.time with
  | [] => now
  | t :: ts => ts.foldl max t

/-- `_sweep_stale_sessions`: the stale ones go, and above the cap the least recently used. -/
def sweepStaleSessions (now : Int) (s : State) : State :=
  let fresh := s.sessions.values.filter (fun x => ¬ x.lastTouch now < now - 2 * v.window)
  let victims := (fresh.insertionSort (fun x y => x.lastTouch now ≤ y.lastTouch now)).take
    (fresh.length - SESSION_STATE_HARD_CAP)
  { s with
    sessions := s.sessions.filter (fun x =>
      ¬ x.lastTouch now < now - 2 * v.window && x.sid ∉ victims.map Session.sid) }

def step : Event → State → State
  | .flush sid now => consumeExpiredRecalls v sid now
  | .noteHive sid memories => noteHiveKeys sid memories
  | .log sid message memories now => logRecall v sid message memories now
  | .reinforce sid key now => checkAndMarkReinforced v sid key now
  | .correct sid value now => detectCorrection v sid value now
  | .sweep now => sweepStaleSessions v now

section Sessions
variable {v} {s : State} {sid : String}

theorem session_sid (s : State) (sid : String) : (s.session sid).sid = sid := by
  rw [State.session]
  cases h : s.sessions.get? sid with
  | none => rfl
  | some x => exact Table.key_of_get? h

theorem session_cases (s : State) (sid : String) :
    s.session sid ∈ s.sessions.values ∨ s.session sid = { sid } := by
  rw [State.session]
  cases h : s.sessions.get? sid with
  | none => exact .inr rfl
  | some x => exact .inl (Table.mem_of_get? h)

theorem session_set (s : State) (x : Session) (sid : String) (emitted : List Emitted) :
    State.session ⟨s.sessions.set x, emitted⟩ sid = if x.sid = sid then x else s.session sid := by
  rw [State.session, Table.get?_set]
  split <;> rfl

theorem session_filter (s : State) (p : Session → Bool) (sid : String) (emitted : List Emitted) :
    State.session ⟨s.sessions.filter p, emitted⟩ sid = s.session sid ∨
      State.session ⟨s.sessions.filter p, emitted⟩ sid = { sid } := by
  simp only [State.session, Table.get?_filter]
  cases h : s.sessions.get? sid with
  | none => exact .inr rfl
  | some x =>
    by_cases hp : p x = true
    · rw [Option.filter_some, if_pos hp]
      exact .inl rfl
    · rw [Option.filter_some, if_neg hp]
      exact .inr rfl

theorem capped_sublist (l : List β) : (capped l).Sublist l := List.drop_sublist _ _

theorem capped_length (l : List β) : (capped l).length ≤ SESSION_LOG_PER_SESSION_CAP := by
  rw [capped, List.length_drop]
  omega

end Sessions

section Justified
variable {v} {s : State} {events : List Event}

/-- What an implicit event rests on: a recall of its session, and for a correction the text that
was saved over what was recalled. -/
def Justified (v : Config) (events : List Event) (e : Emitted) : Prop :=
  ∃ message memories time, .log e.sid message memories time ∈ events ∧
    match e.kind with
    | .positive => e.key ∈ recalledKeys memories ∧ e.time - time ≤ v.window
    | .negative => e.key ∈ recalledKeys memories ∧ v.window < e.time - time
    | .reformulation =>
      e.key ∈ recalledKeys memories ∧ e.time - time ≤ v.reformulationWindow ∧
        ∃ again more, .log e.sid again more e.time ∈ events ∧
          e.similarity = some (jaccardSimilarity v again message) ∧
          1 / 2 < jaccardSimilarity v again message
    | .correction =>
      e.time - time ≤ v.window ∧ ∃ m ∈ memories, m.key = e.key ∧ ∃ old, m.cached = some old ∧
        ∃ saved, .correct e.sid saved e.time ∈ events ∧
          e.similarity = some (tokenOverlapRatio v saved old) ∧
          2 / 5 < tokenOverlapRatio v saved old

/-- What the logs of a session say happened. -/
structure Known (events : List Event) (x : Session) : Prop where
  recalls : ∀ r ∈ x.recallLog, ∃ message memories, .log x.sid message memories r.time ∈ events ∧
    r.key ∈ recalledKeys memories
  queries : ∀ q ∈ x.queryLog, ∃ memories, .log x.sid q.query memories q.time ∈ events ∧
    q.keys = recalledKeys memories
  values : ∀ r ∈ x.recalledValues, ∃ message memories, .log x.sid message memories r.time ∈ events ∧
    ∃ m ∈ memories, m.key = r.key ∧ m.cached = some r.value

structure Good (v : Config) (events : List Event) (s : State) : Prop where
  known : ∀ x ∈ s.sessions.values, Known events x
  justified : ∀ e ∈ s.emitted, Justified v events e

theorem Justified.later {e : Emitted} (h : Justified v events e) (a : Event) :
    Justified v (events ++ [a]) e := by
  obtain ⟨message, memories, time, hlog, hrest⟩ := h
  refine ⟨message, memories, time, List.mem_append_left _ hlog, ?_⟩
  obtain ⟨kind, key, sid, utility, similarity, now⟩ := e
  cases kind with
  | positive | negative => exact hrest
  | reformulation =>
    obtain ⟨hkey, htime, again, more, hagain, hsim⟩ := hrest
    exact ⟨hkey, htime, again, more, List.mem_append_left _ hagain, hsim⟩
  | correction =>
    obtain ⟨htime, m, hm, hkey, old, hold, saved, hsaved, hsim⟩ := hrest
    exact ⟨htime, m, hm, hkey, old, hold, saved, List.mem_append_left _ hsaved, hsim⟩

theorem Known.later {x : Session} (h : Known events x) (a : Event) : Known (events ++ [a]) x where
  recalls := by
    intro r hr
    obtain ⟨message, memories, hlog, hkey⟩ := h.recalls r hr
    exact ⟨message, memories, List.mem_append_left _ hlog, hkey⟩
  queries := by
    intro q hq
    obtain ⟨memories, hlog, hkeys⟩ := h.queries q hq
    exact ⟨memories, List.mem_append_left _ hlog, hkeys⟩
  values := by
    intro r hr
    obtain ⟨message, memories, hlog, hm⟩ := h.values r hr
    exact ⟨message, memories, List.mem_append_left _ hlog, hm⟩

theorem Known.empty (events : List Event) (sid : String) : Known events { sid } where
  recalls := fun _ hr => absurd hr List.not_mem_nil
  queries := fun _ hq => absurd hq List.not_mem_nil
  values := fun _ hr => absurd hr List.not_mem_nil

/-- A session that only forgets. -/
theorem Known.sub {x y : Session} (h : Known events x) (hsid : y.sid = x.sid)
    (hrecalls : ∀ r ∈ y.recallLog, r ∈ x.recallLog) (hqueries : ∀ q ∈ y.queryLog, q ∈ x.queryLog)
    (hvalues : ∀ r ∈ y.recalledValues, r ∈ x.recalledValues) : Known events y where
  recalls := fun r hr => hsid ▸ h.recalls r (hrecalls r hr)
  queries := fun q hq => hsid ▸ h.queries q (hqueries q hq)
  values := fun r hr => hsid ▸ h.values r (hvalues r hr)

theorem Good.session (h : Good v events s) (sid : String) : Known events (s.session sid) := by
  rcases session_cases s sid with hmem | heq
  · exact h.known _ hmem
  · rw [heq]
    exact .empty events sid

/-- A step that replaces one session and emits what is justified. -/
theorem Good.set (h : Good v events s) (a : Event) (x : Session) (new : List Emitted)
    (hx : Known (events ++ [a]) x) (hnew : ∀ e ∈ new, Justified v (events ++ [a]) e) :
    Good v (events ++ [a]) ⟨s.sessions.set x, s.emitted ++ new⟩ where
  known := by
    intro y hy
    rcases Table.mem_set hy with rfl | hy
    · exact hx
    · exact (h.known y hy).later a
  justified := by
    intro e he
    rcases List.mem_append.1 he with he | he
    · exact (h.justified e he).later a
    · exact hnew e he

theorem Good.flush (h : Good v events s) (sid : String) (now : Int) :
    Good v (events ++ [.flush sid now]) (consumeExpiredRecalls v sid now s) := by
  have hx := h.session sid
  have hsid := session_sid s sid
  have hgood : ∀ e ∈ ((s.session sid).recallLog.filter (fun r =>
      v.window < now - r.time && r.key ∉ (s.session sid).reinforced)).map
      (fun r => (⟨.negative, r.key, sid, -1 / 10, none, now⟩ : Emitted)),
      Justified v (events ++ [.flush sid now]) e := by
    intro e he
    obtain ⟨r, hr, rfl⟩ := List.mem_map.1 he
    obtain ⟨hr, hcond⟩ := List.mem_filter.1 hr
    obtain ⟨message, memories, hlog, hkey⟩ := hx.recalls r hr
    rw [hsid] at hlog
    rw [Bool.and_eq_true, decide_eq_true_eq] at hcond
    exact ⟨message, memories, r.time, List.mem_append_left _ hlog, hkey, hcond.1⟩
  simp only [consumeExpiredRecalls]
  split
  · exact h.set _ _ _ ((hx.later _).sub rfl (fun r hr => (List.mem_filter.1 hr).1) (fun q hq => hq)
      (fun r hr => hr)) hgood
  · refine ⟨fun x hx => (h.known x hx).later _, ?_⟩
    intro e he
    rcases List.mem_append.1 he with he | he
    · exact (h.justified e he).later _
    · exact hgood e he

theorem mem_recallLog {x : Session} {message : String} {memories : List Memory} {now : Int}
    {r : RecallItem} (hr : r ∈ (updateSessionRecallLogs v x message memories now).recallLog) :
    r ∈ x.recallLog ∨ r.time = now ∧ r.key ∈ recalledKeys memories := by
  simp only [updateSessionRecallLogs] at hr
  split at hr
  · exact .inl hr
  · rcases List.mem_append.1 ((capped_sublist _).subset hr) with hr | hr
    · exact .inl hr
    · obtain ⟨k, hk, rfl⟩ := List.mem_map.1 hr
      exact .inr ⟨rfl, hk⟩

theorem mem_recalledValues {x : Session} {message : String} {memories : List Memory} {now : Int}
    {r : ValueItem} (hr : r ∈ (updateSessionRecallLogs v x message memories now).recalledValues) :
    r ∈ x.recalledValues ∨
      r.time = now ∧ ∃ m ∈ memories, m.key = r.key ∧ m.cached = some r.value := by
  simp only [updateSessionRecallLogs] at hr
  split at hr
  · exact .inl hr
  · rcases List.mem_append.1 ((capped_sublist _).subset hr) with hr | hr
    · exact .inl hr
    · obtain ⟨m, hm, hr⟩ := List.mem_filterMap.1 hr
      split at hr
      · obtain ⟨value, hvalue, rfl⟩ := Option.map_eq_some_iff.1 hr
        exact .inr ⟨rfl, m, hm, rfl, hvalue⟩
      · cases hr

theorem mem_queryLog {x : Session} {message : String} {memories : List Memory} {now : Int}
    {q : QueryItem} (hq : q ∈ (updateSessionRecallLogs v x message memories now).queryLog) :
    q ∈ x.queryLog ∨ q = ⟨message, recalledKeys memories, now⟩ := by
  rcases List.mem_append.1 ((capped_sublist _).subset hq) with hq | hq
  · exact .inl (List.mem_filter.1 hq).1
  · exact .inr (List.mem_singleton.1 hq)

theorem mem_detectReformulation {x : Session} {message : String} {now : Int} {t : String × ℚ}
    (ht : t ∈ detectReformulation v x message now) :
    ∃ q ∈ x.queryLog, now - q.time ≤ v.reformulationWindow ∧ t.1 ∈ q.keys ∧
      t.2 = jaccardSimilarity v message q.query ∧ 1 / 2 < t.2 := by
  obtain ⟨q, hq, ht⟩ := List.mem_flatMap.1 ht
  obtain ⟨hq, hrecent⟩ := List.mem_filter.1 hq
  dsimp only at ht
  split at ht
  · next hsim =>
    obtain ⟨k, hk, rfl⟩ := List.mem_map.1 ht
    exact ⟨q, hq, of_decide_eq_true hrecent, hk, rfl, hsim⟩
  · cases ht

theorem Known.log {x : Session} (h : Known events x) {message : String} {memories : List Memory}
    {now : Int} (hhere : .log x.sid message memories now ∈ events) :
    Known events (updateSessionRecallLogs v x message memories now) where
  recalls := by
    intro r hr
    rcases mem_recallLog hr with hr | ⟨rfl, hkey⟩
    · exact h.recalls r hr
    · exact ⟨message, memories, hhere, hkey⟩
  queries := by
    intro q hq
    rcases mem_queryLog hq with hq | rfl
    · exact h.queries q hq
    · exact ⟨memories, hhere, rfl⟩
  values := by
    intro r hr
    rcases mem_recalledValues hr with hr | ⟨rfl, hm⟩
    · exact h.values r hr
    · exact ⟨message, memories, hhere, hm⟩

theorem Good.log (h : Good v events s) (sid message : String) (memories : List Memory)
    (now : Int) :
    Good v (events ++ [.log sid message memories now])
      (logRecall v sid message memories now s) := by
  have hx := h.session sid
  have hsid := session_sid s sid
  have hhere : Event.log sid message memories now ∈ events ++ [.log sid message memories now] :=
    List.mem_append_right _ (List.mem_singleton_self _)
  apply h.set
  · apply (hx.later _).log
    rw [hsid]
    exact hhere
  · intro e he
    obtain ⟨t, ht, rfl⟩ := List.mem_map.1 he
    obtain ⟨q, hq, hrecent, hk, hsim, hhalf⟩ := mem_detectReformulation ht
    obtain ⟨older, hlog, hkeys⟩ := hx.queries q hq
    rw [hsid] at hlog
    exact ⟨q.query, older, q.time, List.mem_append_left _ hlog, hkeys ▸ hk, hrecent, message,
      memories, hhere, congrArg some hsim, hsim ▸ hhalf⟩

theorem Good.correct (h : Good v events s) (sid value : String) (now : Int) :
    Good v (events ++ [.correct sid value now]) (detectCorrection v sid value now s) := by
  have hx := h.session sid
  have hsid := session_sid s sid
  apply h.set
  · exact (hx.later _).sub rfl (fun r hr => hr) (fun q hq => hq)
      (fun r hr => (List.mem_filter.1 (List.mem_filter.1 hr).1).1)
  · intro e he
    obtain ⟨r, hr, rfl⟩ := List.mem_map.1 he
    obtain ⟨hr, hsim⟩ := List.mem_filter.1 hr
    obtain ⟨hr, hrecent⟩ := List.mem_filter.1 hr
    obtain ⟨message, memories, hlog, m, hm, hkey, hvalue⟩ := hx.values r hr
    rw [hsid] at hlog
    exact ⟨message, memories, r.time, List.mem_append_left _ hlog, of_decide_eq_true hrecent, m, hm,
      hkey, r.value, hvalue, value, List.mem_append_right _ (List.mem_singleton_self _), rfl,
      of_decide_eq_true hsim⟩

theorem Good.step (h : Good v events s) (a : Event) : Good v (events ++ [a]) (step v a s) := by
  cases a with
  | flush sid now => exact h.flush sid now
  | noteHive sid memories =>
    have hgood := h.set (.noteHive sid memories) { s.session sid with
      hiveKeys := (memories.filter (fun m => m.source = "hive" && m.key ≠ "")).foldl
        (fun idx m => fun k => if k = m.key then some m.namespace_ else idx k)
        (s.session sid).hiveKeys } []
      (((h.session sid).later _).sub rfl (fun r hr => hr) (fun q hq => hq) (fun r hr => hr))
      (fun e he => absurd he List.not_mem_nil)
    rw [List.append_nil] at hgood
    exact hgood
  | log sid message memories now => exact h.log sid message memories now
  | reinforce sid key now =>
    simp only [ImplicitFeedback.step, checkAndMarkReinforced]
    split
    · next hany =>
      obtain ⟨r, hr, hcond⟩ := List.any_eq_true.1 hany
      rw [Bool.and_eq_true, decide_eq_true_eq, decide_eq_true_eq] at hcond
      obtain ⟨message, memories, hlog, hkey⟩ := (h.session sid).recalls r hr
      rw [session_sid] at hlog
      apply h.set
      · exact ((h.session sid).later _).sub rfl (fun r hr => hr) (fun q hq => hq) (fun r hr => hr)
      · intro e he
        obtain rfl := List.mem_singleton.1 he
        exact ⟨message, memories, r.time, List.mem_append_left _ hlog, hcond.1 ▸ hkey, hcond.2⟩
    · exact ⟨fun x hx => (h.known x hx).later _, fun e he => (h.justified e he).later _⟩
  | correct sid value now => exact h.correct sid value now
  | sweep now =>
    refine ⟨?_, fun e he => (h.justified e he).later _⟩
    intro x hx
    exact (h.known x (List.mem_filter.1 hx).1).later _

def AllJustified (v : Config) (events : List Event) (emitted : List Emitted) : Prop :=
  ∀ e ∈ emitted, Justified v events e

/-- Whatever the recalls, reinforcements, saves and sweeps of however many sessions interleave:
every implicit event rests on a recall of its session, inside or outside the window as its kind
says. -/
theorem feedback_justified (events : List Event) :
    AllJustified v events (runSteps (step v) events {}).emitted := by
  have hgood := runSteps_traced (step v) (I := Good v) (s := {})
    ⟨fun x hx => absurd hx List.not_mem_nil, fun e he => absurd he List.not_mem_nil⟩
    (fun _ a h => h.step a) events
  exact hgood.justified

end Justified

section Once
variable {v} {s : State} {events : List Event} {sid key : String}

/-- How often the session was shown the memory. -/
def recallsOf (sid key : String) : Event → Nat
  | .log sid' _ memories _ => if sid' = sid then (recalledKeys memories).count key else 0
  | _ => 0

def verdicts (kind : Kind) (sid key : String) (l : List Emitted) : Nat :=
  l.countP (fun e => e.kind = kind && e.sid = sid && e.key = key)

/-- What has been judged of a memory, and what is still open, is no more than what was recalled. -/
structure Counted (events : List Event) (s : State) (sid key : String) : Prop where
  recalls : verdicts .negative sid key s.emitted +
    (s.session sid).recallLog.countP (fun r => r.key = key) ≤ (events.map (recallsOf sid key)).sum
  values : verdicts .correction sid key s.emitted +
    (s.session sid).recalledValues.countP (fun r => r.key = key) ≤
      (events.map (recallsOf sid key)).sum

theorem verdicts_append (kind : Kind) (sid key : String) (l new : List Emitted) :
    verdicts kind sid key (l ++ new) = verdicts kind sid key l + verdicts kind sid key new :=
  List.countP_append

theorem verdicts_none {kind : Kind} {l : List Emitted}
    (h : ∀ e ∈ l, e.kind ≠ kind ∨ e.sid ≠ sid) : verdicts kind sid key l = 0 := by
  rw [verdicts, List.countP_eq_zero]
  intro e he
  rcases h e he with hkind | hsid
  · simp [hkind]
  · simp [hsid]

theorem verdicts_map (kind : Kind) (g : β → String) (sim : β → Option ℚ) (utility : ℚ)
    (now : Int) (l : List β) :
    verdicts kind sid key (l.map (fun x => ⟨kind, g x, sid, utility, sim x, now⟩)) =
      l.countP (fun x => g x = key) := by
  rw [verdicts, List.countP_map]
  apply List.countP_congr
  intro x _
  simp

theorem sum_later (events : List Event) (a : Event) :
    ((events ++ [a]).map (recallsOf sid key)).sum =
      (events.map (recallsOf sid key)).sum + recallsOf sid key a := by
  rw [List.map_append, List.sum_append]
  rfl

/-- A step on one session: what it judges, it no longer holds open. -/
theorem Counted.set {s' : State} (h : Counted events s sid key) (a : Event) (sid' : String)
    {x : Session} (new : List Emitted)
    (hsession : s'.session sid = if sid' = sid then x else s.session sid)
    (hemitted : s'.emitted = s.emitted ++ new) (hnew : ∀ e ∈ new, e.sid = sid')
    (hrecalls : verdicts .negative sid' key new + x.recallLog.countP (fun r => r.key = key) ≤
      (s.session sid').recallLog.countP (fun r => r.key = key) + recallsOf sid' key a)
    (hvalues : verdicts .correction sid' key new + x.recalledValues.countP (fun r => r.key = key) ≤
      (s.session sid').recalledValues.countP (fun r => r.key = key) + recallsOf sid' key a) :
    Counted (events ++ [a]) s' sid key := by
  have h1 := h.recalls
  have h2 := h.values
  by_cases heq : sid' = sid
  · subst heq
    rw [if_pos rfl] at hsession
    constructor
    · rw [hemitted, verdicts_append, hsession, sum_later]
      omega
    · rw [hemitted, verdicts_append, hsession, sum_later]
      omega
  · rw [if_neg heq] at hsession
    have hother : ∀ kind, verdicts kind sid key new = 0 := by
      intro kind
      apply verdicts_none
      intro e he
      exact .inr (fun hsid => heq ((hnew e he).symm.trans hsid))
    constructor
    · rw [hemitted, verdicts_append, hother, hsession, sum_later]
      omega
    · rw [hemitted, verdicts_append, hother, hsession, sum_later]
      omega

/-- Nothing is counted twice by two filters that exclude each other. -/
theorem countP_split (p a b : β → Bool) (h : ∀ x, a x = true → b x = true → False)
    (l : List β) : (l.filter a).countP p + (l.filter b).countP p ≤ l.countP p := by
  induction l with
  | nil => exact Nat.le_refl 0
  | cons x l ih =>
    have hx := h x
    rw [List.filter_cons, List.filter_cons, List.countP_cons]
    cases ha : a x with
    | false =>
      cases hb : b x with
      | false => simp only [Bool.false_eq_true, if_false]; omega
      | true => simp only [Bool.false_eq_true, if_false, if_true, List.countP_cons]; omega
    | true =>
      cases hb : b x with
      | false => simp only [Bool.false_eq_true, if_false, if_true, List.countP_cons]; omega
      | true => exact absurd hb (fun hb => hx ha hb)

theorem session_flush (sid' : String) (now : Int) (s : State) :
    (consumeExpiredRecalls v sid' now s).session sid = if sid' = sid then
      { s.session sid' with
        recallLog := (s.session sid').recallLog.filter (fun r => now - r.time ≤ v.window) }
      else s.session sid := by
  simp only [consumeExpiredRecalls]
  split
  · rw [session_set]
    simp only [session_sid]
  · next hlength =>
    have hsame := (List.filter_sublist (p := fun r : RecallItem => decide (now - r.time ≤ v.window))
      (l := (s.session sid').recallLog)).eq_of_length (not_not.1 hlength)
    rw [hsame]
    split
    · next heq =>
      subst heq
      rfl
    · rfl

theorem Counted.flush (h : Counted events s sid key) (sid' : String) (now : Int) :
    Counted (events ++ [.flush sid' now]) (consumeExpiredRecalls v sid' now s) sid key := by
  apply h.set _ sid' _ (session_flush sid' now s) rfl
  · intro e he
    obtain ⟨r, _, rfl⟩ := List.mem_map.1 he
    rfl
  · rw [verdicts_map .negative RecallItem.key, Nat.add_comm]
    apply countP_split
    intro r hkept hgone
    rw [Bool.and_eq_true, decide_eq_true_eq] at hgone
    rw [decide_eq_true_eq] at hkept
    omega
  · rw [verdicts_none, Nat.zero_add]
    · exact Nat.le_refl _
    · intro e he
      obtain ⟨r, _, rfl⟩ := List.mem_map.1 he
      exact .inl nofun

theorem countP_valueItems (memories : List Memory) (now : Int) :
    (valueItems memories now).countP (fun r => r.key = key) ≤
      (recalledKeys memories).count key := by
  induction memories with
  | nil => exact Nat.le_refl 0
  | cons m memories ih =>
    rw [valueItems, recalledKeys] at *
    rw [List.filterMap_cons, List.map_cons, List.filter_cons]
    by_cases hkey : m.key = ""
    · simp only [hkey, ne_eq, not_true_eq_false, if_false, decide_false, Bool.false_eq_true]
      exact ih
    · rw [if_pos hkey, if_pos (decide_eq_true hkey), List.count_cons]
      cases m.cached with
      | none => exact Nat.le_trans ih (Nat.le_add_right _ _)
      | some value =>
        simp only [Option.map_some, List.countP_cons, decide_eq_true_eq, beq_iff_eq]
        omega

theorem countP_recallLog (x : Session) (message : String) (memories : List Memory) (now : Int) :
    (updateSessionRecallLogs v x message memories now).recallLog.countP (fun r => r.key = key) ≤
      x.recallLog.countP (fun r => r.key = key) + (recalledKeys memories).count key := by
  simp only [updateSessionRecallLogs]
  split
  · exact Nat.le_add_right _ _
  · have hcapped := (capped_sublist (x.recallLog ++ (recalledKeys memories).map
      (fun k => (⟨k, now⟩ : RecallItem)))).countP_le (p := fun r => decide (r.key = key))
    have hkeys : ((recalledKeys memories).map (fun k => (⟨k, now⟩ : RecallItem))).countP
        (fun r => r.key = key) = (recalledKeys memories).count key := by
      rw [List.countP_map, List.count]
      apply List.countP_congr
      intro k _
      simp
    rw [List.countP_append, hkeys] at hcapped
    exact hcapped

theorem countP_recalledValues (x : Session) (message : String) (memories : List Memory)
    (now : Int) :
    (updateSessionRecallLogs v x message memories now).recalledValues.countP
        (fun r => r.key = key) ≤
      x.recalledValues.countP (fun r => r.key = key) + (recalledKeys memories).count key := by
  simp only [updateSessionRecallLogs]
  split
  · exact Nat.le_add_right _ _
  · have hcapped := (capped_sublist (x.recalledValues ++ valueItems memories now)).countP_le
      (p := fun r => decide (r.key = key))
    rw [List.countP_append] at hcapped
    exact Nat.le_trans hcapped (Nat.add_le_add_left (countP_valueItems memories now) _)

theorem Counted.log (h : Counted events s sid key) (sid' message : String)
    (memories : List Memory) (now : Int) :
    Counted (events ++ [.log sid' message memories now]) (logRecall v sid' message memories now s)
      sid key := by
  have hkind : ∀ e ∈ (detectReformulation v (s.session sid') message now).map (fun t =>
      (⟨.reformulation, t.1, sid', -1 / 2, some t.2, now⟩ : Emitted)),
      e.kind = .reformulation ∧ e.sid = sid' := by
    intro e he
    obtain ⟨t, _, rfl⟩ := List.mem_map.1 he
    exact ⟨rfl, rfl⟩
  have hset : (updateSessionRecallLogs v (s.session sid') message memories now).sid = sid' :=
    session_sid s sid'
  have hrecalls : recallsOf sid' key (.log sid' message memories now) =
      (recalledKeys memories).count key := if_pos rfl
  apply h.set _ sid'
  · rw [logRecall, session_set, hset]
  · rfl
  · exact fun e he => (hkind e he).2
  · rw [verdicts_none (fun e he => .inl (by rw [(hkind e he).1]; nofun)), Nat.zero_add, hrecalls]
    exact countP_recallLog _ _ _ _
  · rw [verdicts_none (fun e he => .inl (by rw [(hkind e he).1]; nofun)), Nat.zero_add, hrecalls]
    exact countP_recalledValues _ _ _ _

theorem Counted.correct (h : Counted events s sid key) (sid' value : String) (now : Int) :
    Counted (events ++ [.correct sid' value now]) (detectCorrection v sid' value now s)
      sid key := by
  apply h.set _ sid'
  · rw [detectCorrection, session_set]
    simp only [session_sid]
    rfl
  · rfl
  · intro e he
    obtain ⟨r, _, rfl⟩ := List.mem_map.1 he
    rfl
  · rw [verdicts_none, Nat.zero_add]
    · exact Nat.le_refl _
    · intro e he
      obtain ⟨r, _, rfl⟩ := List.mem_map.1 he
      exact .inl nofun
  · rw [verdicts_map .correction ValueItem.key]
    have hsplit := countP_split (fun r : ValueItem => decide (r.key = key))
      (fun r => decide (2 / 5 < tokenOverlapRatio v value r.value))
      (fun r => decide (¬ 2 / 5 < tokenOverlapRatio v value r.value))
      (fun r hyes hno => of_decide_eq_true hno (of_decide_eq_true hyes))
      ((s.session sid').recalledValues.filter (fun r => now - r.time ≤ v.window))
    have hrecent := (List.filter_sublist
      (p := fun r : ValueItem => decide (now - r.time ≤ v.window))
      (l := (s.session sid').recalledValues)).countP_le (p := fun r => decide (r.key = key))
    exact Nat.le_trans hsplit hrecent

theorem Counted.step (h : Counted events s sid key) (a : Event) :
    Counted (events ++ [a]) (step v a s) sid key := by
  cases a with
  | flush sid' now => exact h.flush sid' now
  | noteHive sid' memories =>
    apply h.set _ sid' []
    · rw [ImplicitFeedback.step, noteHiveKeys, session_set]
      simp only [session_sid]
      rfl
    · exact (List.append_nil _).symm
    · exact fun e he => absurd he List.not_mem_nil
    · exact (Nat.zero_add _).le
    · exact (Nat.zero_add _).le
  | log sid' message memories now => exact h.log sid' message memories now
  | reinforce sid' key' now =>
    simp only [ImplicitFeedback.step, checkAndMarkReinforced]
    split
    · apply h.set _ sid'
      · rw [session_set]
        simp only [session_sid]
        rfl
      · rfl
      · intro e he
        rw [List.mem_singleton.1 he]
      · exact (Nat.zero_add _).le
      · exact (Nat.zero_add _).le
    · apply h.set (x := s.session sid') _ sid' []
      · split
        · next heq => rw [heq]
        · rfl
      · exact (List.append_nil _).symm
      · exact fun e he => absurd he List.not_mem_nil
      · exact (Nat.zero_add _).le
      · exact (Nat.zero_add _).le
  | correct sid' value now => exact h.correct sid' value now
  | sweep now =>
    have h1 := h.recalls
    have h2 := h.values
    have hsession : (sweepStaleSessions v now s).session sid = s.session sid ∨
        (sweepStaleSessions v now s).session sid = { sid } := session_filter s _ sid s.emitted
    constructor
    · rw [sum_later, ImplicitFeedback.step]
      rcases hsession with heq | heq
      · rw [heq]
        exact Nat.le_trans h1 (Nat.le_add_right _ _)
      · rw [heq]
        exact Nat.le_trans (Nat.le_trans (Nat.le_add_right _ _) h1) (Nat.le_add_right _ _)
    · rw [sum_later, ImplicitFeedback.step]
      rcases hsession with heq | heq
      · rw [heq]
        exact Nat.le_trans h2 (Nat.le_add_right _ _)
      · rw [heq]
        exact Nat.le_trans (Nat.le_trans (Nat.le_add_right _ _) h2) (Nat.le_add_right _ _)

/-- A recall is judged once at the most, whoever else recalls, saves or sweeps meanwhile: as
ignored, and as corrected. -/
theorem recall_judged_once (events : List Event) (sid key : String) :
    verdicts .negative sid key (runSteps (step v) events {}).emitted ≤
        (events.map (recallsOf sid key)).sum ∧
      verdicts .correction sid key (runSteps (step v) events {}).emitted ≤
        (events.map (recallsOf sid key)).sum := by
  have hcounted := runSteps_traced (step v) (I := fun events s => Counted events s sid key)
    (s := {}) ⟨Nat.le_refl 0, Nat.le_refl 0⟩ (fun _ a h => h.step a) events
  exact ⟨Nat.le_trans (Nat.le_add_right _ _) hcounted.recalls,
    Nat.le_trans (Nat.le_add_right _ _) hcounted.values⟩

end Once

section Reinforced
variable {v} {s : State} {sid key : String}

/-- A step on one session that forgets no reinforcement and does not judge it ignored. -/
theorem reinforced_set {s' : State} (sid' : String) {x : Session} (new : List Emitted)
    (hkey : key ∈ (s.session sid).reinforced)
    (hsession : s'.session sid = if sid' = sid then x else s.session sid)
    (hemitted : s'.emitted = s.emitted ++ new)
    (hx : ∀ k ∈ (s.session sid').reinforced, k ∈ x.reinforced)
    (hnew : ∀ e ∈ new, e.kind ≠ .negative ∨ e.sid ≠ sid ∨ e.key ≠ key) :
    key ∈ (s'.session sid).reinforced ∧
      verdicts .negative sid key s'.emitted = verdicts .negative sid key s.emitted := by
  constructor
  · rw [hsession]
    split
    · next heq =>
      subst heq
      exact hx key hkey
    · exact hkey
  · have hnone : verdicts .negative sid key new = 0 := by
      rw [verdicts, List.countP_eq_zero]
      intro e he
      rcases hnew e he with h | h | h
      · simp [h]
      · simp [h]
      · simp [h]
    rw [hemitted, verdicts_append, hnone, Nat.add_zero]

theorem reinforced_step (hkey : key ∈ (s.session sid).reinforced) (a : Event)
    (hkept : (step v a s).sessions.contains sid = true) :
    key ∈ ((step v a s).session sid).reinforced ∧
      verdicts .negative sid key (step v a s).emitted = verdicts .negative sid key s.emitted := by
  cases a with
  | flush sid' now =>
    apply reinforced_set sid' _ hkey (session_flush sid' now s) rfl (fun k hk => hk)
    intro e he
    obtain ⟨r, hr, rfl⟩ := List.mem_map.1 he
    have hcond := (List.mem_filter.1 hr).2
    rw [Bool.and_eq_true, decide_eq_true_eq, decide_eq_true_eq] at hcond
    by_cases hsid : sid' = sid
    · subst hsid
      right
      right
      intro heq
      subst heq
      exact hcond.2 hkey
    · exact .inr (.inl hsid)
  | noteHive sid' memories =>
    apply reinforced_set sid' [] hkey
    · rw [ImplicitFeedback.step, noteHiveKeys, session_set]
      simp only [session_sid]
      rfl
    · exact (List.append_nil _).symm
    · exact fun k hk => hk
    · exact fun e he => absurd he List.not_mem_nil
  | log sid' message memories now =>
    have hset : (updateSessionRecallLogs v (s.session sid') message memories now).sid = sid' :=
      session_sid s sid'
    apply reinforced_set sid' _ hkey
    · rw [ImplicitFeedback.step, logRecall, session_set, hset]
    · rfl
    · exact fun k hk => hk
    · intro e he
      obtain ⟨t, _, rfl⟩ := List.mem_map.1 he
      exact .inl nofun
  | reinforce sid' key' now =>
    simp only [ImplicitFeedback.step, checkAndMarkReinforced]
    split
    · apply reinforced_set sid' _ hkey
      · rw [session_set]
        simp only [session_sid]
        rfl
      · rfl
      · exact fun k hk => List.mem_cons_of_mem _ hk
      · intro e he
        rw [List.mem_singleton.1 he]
        exact .inl nofun
    · exact ⟨hkey, rfl⟩
  | correct sid' value now =>
    apply reinforced_set sid' _ hkey
    · rw [ImplicitFeedback.step, detectCorrection, session_set]
      simp only [session_sid]
      rfl
    · rfl
    · exact fun k hk => hk
    · intro e he
      obtain ⟨r, _, rfl⟩ := List.mem_map.1 he
      exact .inl nofun
  | sweep now =>
    constructor
    · rw [State.session] at hkey ⊢
      rw [ImplicitFeedback.step, sweepStaleSessions, Table.contains, Table.get?_filter] at hkept
      rw [ImplicitFeedback.step, sweepStaleSessions, Table.get?_filter]
      obtain ⟨x, hx⟩ := Option.isSome_iff_exists.1 hkept
      rw [hx]
      rw [(Option.filter_eq_some_iff.1 hx).1] at hkey
      exact hkey
    · rfl

/-- Once a recalled memory is reinforced, its session never again says that it was ignored, as long
as the sweeper keeps the session: however often it is recalled later, and ignored then. -/
theorem reinforced_not_ignored (before after : List Event) (sid key : String) (now : Int)
    (hhit : ((runSteps (step v) before {}).session sid).recallLog.any
      (fun r => r.key = key && now - r.time ≤ v.window) = true)
    (hkept : ∀ done rest, after = done ++ rest →
      (runSteps (step v) (before ++ .reinforce sid key now :: done) {}).sessions.contains sid
        = true) :
    verdicts .negative sid key
        (runSteps (step v) (before ++ .reinforce sid key now :: after) {}).emitted =
      verdicts .negative sid key (runSteps (step v) before {}).emitted := by
  have hrun : ∀ done rest, after = done ++ rest →
      key ∈ ((runSteps (step v) (before ++ .reinforce sid key now :: done) {}).session
        sid).reinforced ∧
      verdicts .negative sid key
          (runSteps (step v) (before ++ .reinforce sid key now :: done) {}).emitted =
        verdicts .negative sid key (runSteps (step v) before {}).emitted := by
    intro done
    induction done using List.reverseRecOn with
    | nil =>
      intro rest _
      rw [runSteps_append]
      simp only [runSteps] at hhit ⊢
      rw [step, checkAndMarkReinforced, if_pos hhit]
      constructor
      · rw [session_set, if_pos (session_sid _ sid)]
        exact List.mem_cons_self
      · rw [verdicts_append]
        exact Nat.add_eq_left.2 (verdicts_none (by
          intro e he
          rw [List.mem_singleton.1 he]
          exact .inl nofun))
    | append_singleton done a ih =>
      intro rest hafter
      have hprev := ih (a :: rest) (by rw [hafter, List.append_assoc]; rfl)
      have hstep := hkept (done ++ [a]) rest hafter
      rw [← List.cons_append, ← List.append_assoc, runSteps_append] at hstep ⊢
      have hnext := reinforced_step hprev.1 a hstep
      exact ⟨hnext.1, hnext.2.trans hprev.2⟩
  exact (hrun after [] (List.append_nil after).symm).2

theorem reinforced_not_ignored_deploy :
    verdicts .negative "s1" "deploy-day"
        (runSteps (step { unicode := .lowercase })
          ([.log "s1" "when" [⟨"deploy-day", "private", "universal", some "monday"⟩] 0] ++
            .reinforce "s1" "deploy-day" 10 :: [.flush "s1" 1000]) {}).emitted =
      verdicts .negative "s1" "deploy-day"
        (runSteps (step { unicode := .lowercase })
          [.log "s1" "when" [⟨"deploy-day", "private", "universal", some "monday"⟩] 0] {}).emitted
    := by
  apply reinforced_not_ignored
  · decide
  · intro done rest hafter
    cases done with
    | nil => decide
    | cons a done =>
      obtain ⟨rfl, hnil⟩ := List.cons.inj hafter
      obtain ⟨rfl, rfl⟩ := List.append_eq_nil_iff.1 hnil.symm
      decide

end Reinforced

section Sweep
variable {v} {s : State}

/-- Evicting the first of a sorted list by key leaves the others of it. -/
theorem filter_evicted {κ : Type} [DecidableEq κ] (f : β → κ) {l m : List β} (hperm : m.Perm l)
    (hnodup : (l.map f).Nodup) (n : Nat) :
    (l.filter (fun x => f x ∉ (m.take n).map f)).Perm (m.drop n) := by
  apply (hperm.filter _).symm.trans
  have hm : ((m.take n ++ m.drop n).map f).Nodup := by
    rw [List.take_append_drop]
    exact (hperm.map f).nodup_iff.2 hnodup
  rw [List.map_append] at hm
  have hdisjoint := (List.nodup_append.1 hm).2.2
  conv_lhs => rw [← List.take_append_drop n m, List.filter_append]
  have htaken : (m.take n).filter (fun x => f x ∉ (m.take n).map f) = [] := by
    apply List.filter_eq_nil_iff.2
    intro x hx hnot
    exact of_decide_eq_true hnot (List.mem_map_of_mem hx)
  have hleft : (m.drop n).filter (fun x => f x ∉ (m.take n).map f) = m.drop n := by
    apply List.filter_eq_self.2
    intro x hx
    rw [decide_eq_true_eq]
    intro hin
    exact hdisjoint _ hin _ (List.mem_map_of_mem hx) rfl
  rw [List.take_append_drop, htaken, hleft]
  exact List.Perm.refl _

/-- What the sweeper looks at. -/
def State.fresh (v : Config) (now : Int) (s : State) : List Session :=
  s.sessions.values.filter (fun x => ¬ x.lastTouch now < now - 2 * v.window)

def oldestFirst (now : Int) (l : List Session) : List Session :=
  l.insertionSort (fun x y => x.lastTouch now ≤ y.lastTouch now)

theorem oldestFirst_pairwise (now : Int) (l : List Session) :
    (oldestFirst now l).Pairwise (fun x y => x.lastTouch now ≤ y.lastTouch now) := by
  have : Std.Total (fun x y : Session => x.lastTouch now ≤ y.lastTouch now) :=
    ⟨fun x y => Int.le_total _ _⟩
  have : IsTrans Session (fun x y => x.lastTouch now ≤ y.lastTouch now) :=
    ⟨fun x y z h h' => Int.le_trans h h'⟩
  exact List.pairwise_insertionSort _ _

theorem sweep_values (now : Int) (s : State) :
    (sweepStaleSessions v now s).sessions.values.Perm
      ((oldestFirst now (s.fresh v now)).drop
        ((s.fresh v now).length - SESSION_STATE_HARD_CAP)) := by
  have hnodup : ((s.fresh v now).map Session.sid).Nodup :=
    (List.filter_sublist.map Session.sid).nodup s.sessions.nodup
  have hevicted := filter_evicted Session.sid
    (List.perm_insertionSort (fun x y => x.lastTouch now ≤ y.lastTouch now) (s.fresh v now))
    hnodup ((s.fresh v now).length - SESSION_STATE_HARD_CAP)
  have hvalues : (sweepStaleSessions v now s).sessions.values = (s.fresh v now).filter (fun x =>
      x.sid ∉ ((oldestFirst now (s.fresh v now)).take
        ((s.fresh v now).length - SESSION_STATE_HARD_CAP)).map Session.sid) := by
    rw [State.fresh, List.filter_filter]
    simp only [Bool.and_comm]
    rfl
  rw [hvalues]
  exact hevicted

structure Session.Bounded (x : Session) : Prop where
  recalls : x.recallLog.length ≤ SESSION_LOG_PER_SESSION_CAP
  queries : x.queryLog.length ≤ SESSION_LOG_PER_SESSION_CAP
  values : x.recalledValues.length ≤ SESSION_LOG_PER_SESSION_CAP

theorem Session.Bounded.sub {x y : Session} (h : x.Bounded)
    (hrecalls : y.recallLog.Sublist x.recallLog)
    (hqueries : y.queryLog.Sublist x.queryLog)
    (hvalues : y.recalledValues.Sublist x.recalledValues) : y.Bounded where
  recalls := Nat.le_trans hrecalls.length_le h.recalls
  queries := Nat.le_trans hqueries.length_le h.queries
  values := Nat.le_trans hvalues.length_le h.values

theorem Session.Bounded.log {x : Session} (h : x.Bounded) (message : String)
    (memories : List Memory) (now : Int) :
    (updateSessionRecallLogs v x message memories now).Bounded where
  recalls := by
    simp only [updateSessionRecallLogs]
    split
    · exact h.recalls
    · exact capped_length _
  queries := capped_length _
  values := by
    simp only [updateSessionRecallLogs]
    split
    · exact h.values
    · exact capped_length _

theorem bounded_session (h : ∀ x ∈ s.sessions.values, x.Bounded) (sid : String) :
    (s.session sid).Bounded := by
  rcases session_cases s sid with hmem | heq
  · exact h _ hmem
  · rw [heq]
    exact ⟨Nat.zero_le _, Nat.zero_le _, Nat.zero_le _⟩

theorem bounded_set (h : ∀ x ∈ s.sessions.values, x.Bounded) {x : Session} (hx : x.Bounded) :
    ∀ y ∈ (s.sessions.set x).values, y.Bounded := by
  intro y hy
  rcases Table.mem_set hy with rfl | hy
  · exact hx
  · exact h y hy

theorem bounded_step (a : Event) (h : ∀ x ∈ s.sessions.values, x.Bounded) :
    ∀ x ∈ (step v a s).sessions.values, x.Bounded := by
  cases a with
  | flush sid now =>
    simp only [step, consumeExpiredRecalls]
    split
    · apply bounded_set h
      exact (bounded_session h sid).sub List.filter_sublist (List.Sublist.refl _)
        (List.Sublist.refl _)
    · exact h
  | noteHive sid memories =>
    apply bounded_set h
    exact (bounded_session h sid).sub (List.Sublist.refl _) (List.Sublist.refl _)
      (List.Sublist.refl _)
  | log sid message memories now => exact bounded_set h ((bounded_session h sid).log _ _ _)
  | reinforce sid key now =>
    simp only [step, checkAndMarkReinforced]
    split
    · apply bounded_set h
      exact (bounded_session h sid).sub (List.Sublist.refl _) (List.Sublist.refl _)
        (List.Sublist.refl _)
    · exact h
  | correct sid value now =>
    apply bounded_set h
    exact (bounded_session h sid).sub (List.Sublist.refl _) (List.Sublist.refl _)
      (List.filter_sublist.trans List.filter_sublist)
  | sweep now => exact fun x hx => h x (List.mem_filter.1 hx).1

/-- However many sessions there were: after a sweep the state is bounded, no session of it is idle,
and what the sweep dropped was idle, or no more recently used than all that fill the cap. -/
theorem sweep_bounds (events : List Event) (now : Int) :
    let before := runSteps (step v) events {}
    let after := step v (.sweep now) before
    after.sessions.size ≤ SESSION_STATE_HARD_CAP ∧
      (∀ x ∈ after.sessions.values, x.Bounded ∧ now - 2 * v.window ≤ x.lastTouch now) ∧
      ∀ x ∈ before.sessions.values, x ∈ after.sessions.values ∨
        x.lastTouch now < now - 2 * v.window ∨
        after.sessions.size = SESSION_STATE_HARD_CAP ∧
          ∀ y ∈ after.sessions.values, x.lastTouch now ≤ y.lastTouch now := by
  intro before after
  have hbounded : ∀ x ∈ before.sessions.values, x.Bounded :=
    runSteps_keeps (I := fun (s : State) => ∀ x ∈ s.sessions.values, x.Bounded)
      (fun a _ s h => bounded_step a h) (fun x hx => absurd hx List.not_mem_nil)
  have hperm : after.sessions.values.Perm ((oldestFirst now (before.fresh v now)).drop
      ((before.fresh v now).length - SESSION_STATE_HARD_CAP)) := sweep_values now before
  have hlength : (oldestFirst now (before.fresh v now)).length = (before.fresh v now).length :=
    (List.perm_insertionSort _ _).length_eq
  have hsize : after.sessions.size = (before.fresh v now).length -
      ((before.fresh v now).length - SESSION_STATE_HARD_CAP) := by
    rw [Table.size, hperm.length_eq, List.length_drop, hlength]
  constructor
  · omega
  constructor
  · intro x hx
    obtain ⟨hmem, hcond⟩ := List.mem_filter.1 hx
    rw [Bool.and_eq_true, decide_eq_true_eq] at hcond
    exact ⟨hbounded x hmem, not_lt.1 hcond.1⟩
  · intro x hx
    by_cases hstale : x.lastTouch now < now - 2 * v.window
    · exact .inr (.inl hstale)
    · have hfresh : x ∈ oldestFirst now (before.fresh v now) :=
        (List.mem_insertionSort _).2 (List.mem_filter.2 ⟨hx, decide_eq_true hstale⟩)
      rw [← List.take_append_drop ((before.fresh v now).length - SESSION_STATE_HARD_CAP)
        (oldestFirst now (before.fresh v now))] at hfresh
      rcases List.mem_append.1 hfresh with htaken | hkept
      · right
        right
        have hpairs := oldestFirst_pairwise now (before.fresh v now)
        rw [← List.take_append_drop ((before.fresh v now).length - SESSION_STATE_HARD_CAP)
          (oldestFirst now (before.fresh v now)), List.pairwise_append] at hpairs
        constructor
        · have hover := List.length_pos_of_mem htaken
          rw [List.length_take] at hover
          omega
        · intro y hy
          exact hpairs.2.2 x htaken y (hperm.mem_iff.1 hy)
      · exact .inl (hperm.mem_iff.2 hkept)

end Sweep

end TappsBrain.ImplicitFeedback
