import TappsBrain.Lib.Run
import TappsBrain.Flywheel

namespace TappsBrain
open Lib
set_option autoImplicit true
set_option relaxedAutoImplicit false

/-- A store with its feedback, the run of `process_feedback` under way, and what the last one
returned if nothing has happened since. -/
structure FlywheelRun where
  flywheel : Flywheel
  pass : Option Pass := none
  report : Option PassReport := none
deriving DecidableEq

inductive FlywheelAction where
  | record (ev : FeedbackEvent)
  /-- `process_feedback` is called and fetches its events. -/
  | begin (since : Option IsoText)
  | event
  | flush
  | finish
  /-- What any other call leaves of the store. -/
  | others (s : Store)

/-- The next state of the run; an exception ends it. -/
def FlywheelRun.advance (p : FlywheelM Pass) (m : FlywheelRun) : FlywheelRun :=
  match p m.flywheel with
  | (.ok pass, f) => { flywheel := f, pass := some pass }
  | (.error _, f) => { flywheel := f }

def FlywheelRun.return (p : FlywheelM PassReport) (m : FlywheelRun) : FlywheelRun :=
  match p m.flywheel with
  | (.ok report, f) => { flywheel := f, report := some report }
  | (.error _, f) => { flywheel := f }

def FlywheelAction.step (c : FlywheelConfig) (w : World) : FlywheelAction → FlywheelRun → FlywheelRun
  | .record ev, m => { m with flywheel := recordFeedback ev m.flywheel, report := none }
  | .begin since, m => if m.pass.isSome then m else m.advance (beginPass w since)
  | .event, m =>
    match m.pass with
    | none => m
    | some p =>
      match p.todo with
      | [] => m
      | ev :: _ => if p.flushDue then m else m.advance (processEvent c w p ev)
  | .flush, m =>
    match m.pass with
    | none => m
    | some p => m.advance (flushCursor w p)
  | .finish, m =>
    match m.pass with
    | none => m
    | some p => if p.todo = [] && !p.flushDue then m.return (finishPass w p) else m
  | .others s, m => { m with flywheel := { m.flywheel with store := s } }

/-- The event the run has come to. -/
def Pass.reached (p : Pass) : Option Cursor := p.last.or p.cursor

/-- The saved cursor covers every event the run has applied. -/
def Pass.settled (p : Pass) (f : Flywheel) : Bool := f.cursor = p.reached

/-- The events behind the cursor. -/
def unseen (f : Flywheel) : List FeedbackEvent :=
  f.events.values.filter (fun ev => eventAfterCursor ev f.cursor)

/-- The rows the query of the next run matches. -/
def matching (f : Flywheel) : List FeedbackEvent :=
  f.events.values.filter (admits (f.cursor.map Cursor.ts))

/-- An event is recorded between runs and after the cursor; a bound does not separate the events a
run has before it, and one query fetches them; what raises does so with nothing left to save; and
the entry of a delta is there when its turn comes. -/
def FlywheelAction.allowed (c : FlywheelConfig) (w : World) : FlywheelAction → FlywheelRun → Bool
  | .record ev, m =>
    m.flywheel.events.contains ev.id || (m.pass.isNone && eventAfterCursor ev m.flywheel.cursor)
  | .begin since, m =>
    ((unseen m.flywheel).all (admits since) || (unseen m.flywheel).all (fun ev => !admits since ev)) &&
      (matching m.flywheel).length ≤ FEEDBACK_QUERY_LIMIT
  | .event, m =>
    m.pass.all (fun p => p.todo.head?.all (fun ev =>
      !eventAfterCursor ev p.cursor || !admits p.since ev ||
        (entriesThere w ev m.flywheel.store &&
          (((processEvent c w p ev).result m.flywheel).isOk || p.settled m.flywheel))))
  | .flush, m =>
    m.pass.all (fun p => ((flushCursor w p).result m.flywheel).isOk || p.settled m.flywheel)
  | .finish, m =>
    m.pass.all (fun p => ((finishPass w p).result m.flywheel).isOk || p.settled m.flywheel)
  | .others _, _ => true

/-- Everything up to the cursor has been applied once, and nothing beyond it. -/
structure Ledger (f : Flywheel) (reached : Option Cursor) : Prop where
  once : (f.applied.map AppliedDelta.event).Nodup
  genuine : ∀ a ∈ f.applied, ∃ ev ∈ f.events.values, ev.id = a.event ∧
    a.delta ∈ feedbackDeltas ev ∧ eventAfterCursor ev reached = false
  complete : ∀ ev ∈ f.events.values, eventAfterCursor ev reached = false →
    ∀ d ∈ feedbackDeltas ev, ⟨ev.id, d⟩ ∈ f.applied

/-- What a run of `process_feedback` has still to do. -/
structure InPass (f : Flywheel) (p : Pass) : Prop where
  ledger : Ledger f p.reached
  sorted : p.todo.Pairwise (fun a b => a.place < b.place)
  fetched : ∀ ev ∈ p.todo, ev ∈ f.events.values
  later : ∀ ev, eventAfterCursor ev p.reached = true → eventAfterCursor ev p.cursor = true
  ahead : ∀ ev ∈ p.todo, eventAfterCursor ev p.cursor = true → eventAfterCursor ev p.reached = true
  /-- A run with a bound either applies all of its events or none of them. -/
  whole : (∀ ev ∈ p.todo, eventAfterCursor ev p.cursor = true → admits p.since ev = true) ∧
      (∀ ev ∈ f.events.values, eventAfterCursor ev p.reached = true → ev ∈ p.todo) ∨
    p.since ≠ none ∧
      ∀ ev ∈ p.todo, eventAfterCursor ev p.cursor = true → admits p.since ev = false
  unsaved : p.last = none → f.cursor = p.cursor
  due : p.flushDue = true → p.last.isSome = true

structure Tidy (m : FlywheelRun) : Prop where
  idle : m.pass = none → Ledger m.flywheel m.flywheel.cursor
  busy : ∀ p, m.pass = some p → InPass m.flywheel p
  returned : ∀ r, m.report = some r → r.since = none →
    ∀ ev ∈ m.flywheel.events.values, ∀ d ∈ feedbackDeltas ev, ⟨ev.id, d⟩ ∈ m.flywheel.applied

/-- The ledger does not read the store. -/
theorem Ledger.of_eq {f f' : Flywheel} {reached : Option Cursor} (h : Ledger f reached)
    (he : f'.events = f.events) (ha : f'.applied = f.applied) : Ledger f' reached := by
  constructor
  · rw [ha]
    exact h.once
  · rw [ha, he]
    exact h.genuine
  · rw [ha, he]
    exact h.complete

theorem place_after {ev ev' : FeedbackEvent} :
    eventAfterCursor ev' (some ⟨ev.timestamp, ev.id⟩) = true ↔ ev.place < ev'.place :=
  eventAfterCursor_some

/-- What lies behind the old cursor lies behind the new one. -/
theorem behind_after {ev ev' : FeedbackEvent} {reached : Option Cursor}
    (hev : eventAfterCursor ev reached = true)
    (h : eventAfterCursor ev' (some ⟨ev.timestamp, ev.id⟩) = true) :
    eventAfterCursor ev' reached = true := by
  cases reached with
  | none => rfl
  | some c => exact eventAfterCursor_some.2 ((eventAfterCursor_some.1 hev).trans (place_after.1 h))

/-- The next event in order is applied. -/
theorem Ledger.apply {f f' : Flywheel} {reached : Option Cursor} {ev : FeedbackEvent}
    (h : Ledger f reached) (hev : ev ∈ f.events.values)
    (hahead : eventAfterCursor ev reached = true)
    (hnext : ∀ ev' ∈ f.events.values, eventAfterCursor ev' reached = true → ev' ≠ ev →
      ev.place < ev'.place)
    (he : f'.events = f.events)
    (ha : f'.applied = f.applied ++ (feedbackDeltas ev).map (fun d => ⟨ev.id, d⟩)) :
    Ledger f' (some ⟨ev.timestamp, ev.id⟩) := by
  have hself : eventAfterCursor ev (some ⟨ev.timestamp, ev.id⟩) = false :=
    Bool.eq_false_iff.2 (fun hs => lt_irrefl _ (place_after.1 hs))
  have hfresh : ev.id ∉ f.applied.map AppliedDelta.event := by
    intro hmem
    obtain ⟨a, ha, hid⟩ := List.mem_map.1 hmem
    obtain ⟨ev', hev', hid', _, hp⟩ := h.genuine a ha
    cases Table.eq_of_key hev' hev (hid'.trans hid)
    rw [hahead] at hp
    cases hp
  constructor
  · rw [ha, List.map_append]
    rcases feedbackDeltas_cases ev with hnil | ⟨ek, d, hd, _⟩
    · rw [hnil]
      simpa using h.once
    · rw [hd]
      exact h.once.append (List.nodup_singleton _) (List.disjoint_singleton.2 hfresh)
  · intro a hmem
    rw [ha] at hmem
    rw [he]
    rcases List.mem_append.1 hmem with hold | hnew
    · obtain ⟨ev', hev', hid, hd, hp⟩ := h.genuine a hold
      refine ⟨ev', hev', hid, hd, Bool.eq_false_iff.2 (fun hs => ?_)⟩
      rw [behind_after hahead hs] at hp
      cases hp
    · obtain ⟨d, hd, rfl⟩ := List.mem_map.1 hnew
      exact ⟨ev, hev, rfl, hd, hself⟩
  · intro ev' hev' hp d hd
    rw [he] at hev'
    rw [ha]
    cases hr : eventAfterCursor ev' reached with
    | false => exact List.mem_append_left _ (h.complete ev' hev' hr d hd)
    | true =>
      by_cases hsame : ev' = ev
      · rw [hsame] at hd ⊢
        exact List.mem_append_right _ (List.mem_map_of_mem hd)
      · rw [place_after.2 (hnext ev' hev' hr hsame)] at hp
        cases hp

section InPass
variable {f f' : Flywheel} {p p' : Pass} {ev : FeedbackEvent} {rest : List FeedbackEvent}

/-- The run passes over an event, either for good or because of its bound. -/
theorem InPass.skip (h : InPass f p) (ht : p.todo = ev :: rest)
    (hskip : eventAfterCursor ev p.cursor = false ∨ admits p.since ev = false)
    (n : Nat) : InPass f { p with todo := rest, processed := n } := by
  have hrest : ∀ ev' ∈ rest, ev' ∈ p.todo := by
    intro ev' hmem
    rw [ht]
    exact List.mem_cons_of_mem _ hmem
  constructor
  · exact h.ledger
  · have hs := h.sorted
    rw [ht] at hs
    exact (List.pairwise_cons.1 hs).2
  · intro ev' hmem
    exact h.fetched ev' (hrest ev' hmem)
  · exact h.later
  · intro ev' hmem
    exact h.ahead ev' (hrest ev' hmem)
  · rcases h.whole with ⟨hadm, hall⟩ | ⟨hs, hnone⟩
    · left
      constructor
      · intro ev' hmem
        exact hadm ev' (hrest ev' hmem)
      · intro ev' hev' ha
        have hmem := hall ev' hev' ha
        rw [ht] at hmem
        rcases List.mem_cons.1 hmem with rfl | hin
        · have hc := h.later ev' ha
          rcases hskip with hp | hd
          · rw [hc] at hp
            cases hp
          · rw [hadm ev' (ht ▸ List.mem_cons_self) hc] at hd
            cases hd
        · exact hin
    · exact .inr ⟨hs, fun ev' hmem => hnone ev' (hrest ev' hmem)⟩
  · exact h.unsaved
  · exact h.due

/-- The run applies its next event. -/
theorem InPass.apply (h : InPass f p) (ht : p.todo = ev :: rest)
    (hafter : eventAfterCursor ev p.cursor = true) (hadm : admits p.since ev = true)
    (he : f'.events = f.events)
    (ha : f'.applied = f.applied ++ (feedbackDeltas ev).map (fun d => ⟨ev.id, d⟩))
    (ht' : p'.todo = rest) (hc' : p'.cursor = p.cursor) (hs' : p'.since = p.since)
    (hl' : p'.last = some ⟨ev.timestamp, ev.id⟩) : InPass f' p' := by
  have hreached : p'.reached = some ⟨ev.timestamp, ev.id⟩ := by rw [Pass.reached, hl']; rfl
  have hin : ev ∈ p.todo := ht ▸ List.mem_cons_self
  have hahead := h.ahead ev hin hafter
  have hsorted := h.sorted
  rw [ht, List.pairwise_cons] at hsorted
  have hrest : ∀ ev' ∈ rest, ev' ∈ p.todo := by
    intro ev' hmem
    rw [ht]
    exact List.mem_cons_of_mem _ hmem
  -- a bound that lets this event through lets all of them through
  have hall : (∀ ev' ∈ p.todo, eventAfterCursor ev' p.cursor = true → admits p.since ev' = true) ∧
      ∀ ev' ∈ f.events.values, eventAfterCursor ev' p.reached = true → ev' ∈ p.todo := by
    rcases h.whole with hall | ⟨_, hnone⟩
    · exact hall
    · rw [hnone ev hin hafter] at hadm
      cases hadm
  constructor
  · rw [hreached]
    apply h.ledger.apply (h.fetched ev hin) hahead _ he ha
    intro ev' hev' hr hne
    have hmem := hall.2 ev' hev' hr
    rw [ht] at hmem
    rcases List.mem_cons.1 hmem with hsame | hlater
    · exact absurd hsame hne
    · exact hsorted.1 ev' hlater
  · rw [ht']
    exact hsorted.2
  · intro ev' hmem
    rw [he]
    exact h.fetched ev' (hrest ev' (ht' ▸ hmem))
  · intro ev' hr
    rw [hc']
    rw [hreached] at hr
    exact h.later ev' (behind_after hahead hr)
  · intro ev' hmem _
    rw [hreached]
    exact place_after.2 (hsorted.1 ev' (ht' ▸ hmem))
  · left
    rw [ht', hc', hs', he, hreached]
    constructor
    · intro ev' hmem
      exact hall.1 ev' (hrest ev' hmem)
    · intro ev' hev' hr
      have hmem := hall.2 ev' hev' (behind_after hahead hr)
      rw [ht] at hmem
      rcases List.mem_cons.1 hmem with rfl | hlater
      · exact absurd (place_after.1 hr) (lt_irrefl _)
      · exact hlater
  · intro hn
    rw [hl'] at hn
    cases hn
  · intro _
    rw [hl']
    rfl

theorem InPass.of_eq (h : InPass f p) (he : f'.events = f.events) (ha : f'.applied = f.applied)
    (hc : f'.cursor = f.cursor) : InPass f' p := by
  constructor
  · exact h.ledger.of_eq he ha
  · exact h.sorted
  · rw [he]
    exact h.fetched
  · exact h.later
  · exact h.ahead
  · rw [he]
    exact h.whole
  · rw [hc]
    exact h.unsaved
  · exact h.due

/-- The cursor of the run is saved. -/
theorem InPass.saved (h : InPass f p) (hl : p.last.isSome = true) :
    InPass { f with cursor := p.last } { p with flushDue := false } := by
  constructor
  · exact h.ledger.of_eq rfl rfl
  · exact h.sorted
  · exact h.fetched
  · exact h.later
  · exact h.ahead
  · exact h.whole
  · intro hn
    have hn : p.last = none := hn
    rw [hn] at hl
    cases hl
  · intro hd
    cases hd

/-- A run without a bound that has come to its end has applied everything. -/
theorem InPass.done (h : InPass f p) (ht : p.todo = []) (hs : p.since = none) :
    ∀ ev ∈ f.events.values, ∀ d ∈ feedbackDeltas ev, ⟨ev.id, d⟩ ∈ f.applied := by
  intro ev hev d hd
  apply h.ledger.complete ev hev _ d hd
  rcases h.whole with ⟨_, hall⟩ | ⟨hbound, _⟩
  · apply Bool.eq_false_iff.2
    intro hr
    have hmem := hall ev hev hr
    rw [ht] at hmem
    cases hmem
  · exact absurd hs hbound

theorem admits_of_after {cursor : Option Cursor} (h : eventAfterCursor ev cursor = true) :
    admits (cursor.map Cursor.ts) ev = true := by
  cases cursor with
  | none => rfl
  | some c =>
    have hlt := eventAfterCursor_some.1 h
    rw [Cursor.place, FeedbackEvent.place, Prod.Lex.lt_iff] at hlt
    simp only [admits, Option.map_some, Option.all_some, decide_eq_true_eq]
    rcases hlt with hlt | ⟨heq, _⟩
    · exact le_of_lt hlt
    · exact le_of_eq heq

/-- The events a run starts with, in order. -/
def fetchedEvents (f : Flywheel) : List FeedbackEvent :=
  (queryFeedback (f.cursor.map Cursor.ts) FEEDBACK_QUERY_LIMIT f).insertionSort
    (fun a b => a.place ≤ b.place)

theorem fetchedEvents_mem (h : ev ∈ fetchedEvents f) : ev ∈ f.events.values := by
  rw [fetchedEvents, List.mem_insertionSort] at h
  have hq := List.mem_of_mem_take h
  rw [List.mem_insertionSort] at hq
  exact List.mem_of_mem_filter hq

theorem mem_fetchedEvents (hlimit : (matching f).length ≤ FEEDBACK_QUERY_LIMIT)
    (hev : ev ∈ f.events.values) (h : eventAfterCursor ev f.cursor = true) :
    ev ∈ fetchedEvents f := by
  rw [fetchedEvents, List.mem_insertionSort, queryFeedback, List.take_of_length_le]
  · rw [List.mem_insertionSort]
    exact List.mem_filter.2 ⟨hev, admits_of_after h⟩
  · rw [List.length_insertionSort]
    exact hlimit

theorem fetchedEvents_sorted : (fetchedEvents f).Pairwise (fun a b => a.place < b.place) := by
  have hids : ((fetchedEvents f).map FeedbackEvent.id).Nodup := by
    have hq : ((queryFeedback (f.cursor.map Cursor.ts) FEEDBACK_QUERY_LIMIT f).map
        FeedbackEvent.id).Nodup := by
      have hm : ((matching f).map FeedbackEvent.id).Nodup :=
        f.events.nodup.sublist (List.filter_sublist.map _)
      have hsorted := (((matching f).perm_insertionSort
        (fun a b => timestampSortKey a.timestamp ≤ timestampSortKey b.timestamp)).map
          FeedbackEvent.id).nodup_iff.2 hm
      exact hsorted.sublist ((List.take_sublist _ _).map _)
    exact ((List.perm_insertionSort _ _).map _).nodup_iff.2 hq
  have hle : (fetchedEvents f).Pairwise (fun a b => a.place ≤ b.place) :=
    List.pairwise_insertionSort _ _
  apply (hle.and (List.pairwise_map.1 hids)).imp
  intro a b ⟨hab, hne⟩
  apply lt_of_le_of_ne hab
  intro he
  exact hne (congrArg (fun x => (ofLex x).2) he)

/-- A run begins. -/
theorem Ledger.begin (h : Ledger f f.cursor) {since : Option IsoText}
    (hside : ((unseen f).all (admits since) || (unseen f).all (fun ev => !admits since ev)) = true)
    (hlimit : (matching f).length ≤ FEEDBACK_QUERY_LIMIT) :
    InPass f { cursor := f.cursor, since, todo := fetchedEvents f } := by
  have hunseen : ∀ ev ∈ fetchedEvents f, eventAfterCursor ev f.cursor = true → ev ∈ unseen f := by
    intro ev hmem ha
    exact List.mem_filter.2 ⟨fetchedEvents_mem hmem, ha⟩
  constructor
  · exact h
  · exact fetchedEvents_sorted
  · intro ev hmem
    exact fetchedEvents_mem hmem
  · exact fun _ ha => ha
  · exact fun _ _ ha => ha
  · rw [Bool.or_eq_true, List.all_eq_true, List.all_eq_true] at hside
    by_cases hs : since = none
    · left
      constructor
      · intro ev _ _
        rw [hs]
        rfl
      · intro ev hev ha
        exact mem_fetchedEvents hlimit hev ha
    · rcases hside with hall | hnone
      · left
        constructor
        · intro ev hmem ha
          exact hall ev (hunseen ev hmem ha)
        · intro ev hev ha
          exact mem_fetchedEvents hlimit hev ha
      · right
        refine ⟨hs, ?_⟩
        intro ev hmem ha
        simpa using hnone ev (hunseen ev hmem ha)
  · exact fun _ => rfl
  · intro hd
    cases hd

end InPass

section Step
variable {c : FlywheelConfig} {w : World} {m : FlywheelRun} {p : Pass}

/-- A run ends with an exception. -/
theorem Tidy.raised {f : Flywheel} (h : Ledger f f.cursor) : Tidy { flywheel := f } := by
  constructor
  · exact fun _ => h
  · intro p hp
    cases hp
  · intro r hr
    cases hr

theorem Tidy.running {f : Flywheel} (h : InPass f p) : Tidy { flywheel := f, pass := some p } := by
  constructor
  · intro hn
    cases hn
  · intro p' hp
    cases hp
    exact h
  · intro r hr
    cases hr

theorem InPass.settled {f f' : Flywheel} (h : InPass f p) (hs : p.settled f = true)
    (he : f'.events = f.events) (ha : f'.applied = f.applied) (hc : f'.cursor = f.cursor) :
    Ledger f' f'.cursor := by
  rw [Pass.settled, decide_eq_true_eq] at hs
  rw [hc, hs]
  exact h.ledger.of_eq he ha

theorem Tidy.record (h : Tidy m) {ev : FeedbackEvent}
    (hal : (FlywheelAction.record ev).allowed c w m = true) :
    Tidy { m with flywheel := recordFeedback ev m.flywheel, report := none } := by
  cases hc : m.flywheel.events.contains ev.id with
  | true =>
    rw [recordFeedback, hc, if_pos rfl]
    refine ⟨h.idle, h.busy, ?_⟩
    intro r hr
    cases hr
  | false =>
    simp only [FlywheelAction.allowed, hc, Bool.false_or, Bool.and_eq_true,
      Option.isNone_iff_eq_none] at hal
    obtain ⟨hidle, hafter⟩ := hal
    rw [recordFeedback, hc, if_neg Bool.false_ne_true]
    have hl := h.idle hidle
    have hother : ∀ ev' ∈ m.flywheel.events.values, ev'.id ≠ ev.id := by
      intro ev' hev' hid
      rw [Table.contains, ← hid, Table.get?_of_mem hev'] at hc
      cases hc
    constructor
    · intro _
      constructor
      · exact hl.once
      · intro a ha
        obtain ⟨ev', hev', hid, hd⟩ := hl.genuine a ha
        exact ⟨ev', Table.mem_set_of_ne hev' (hother ev' hev'), hid, hd⟩
      · intro ev' hev' hp
        rcases Table.mem_set hev' with rfl | hold
        · have hp : eventAfterCursor ev' m.flywheel.cursor = false := hp
          rw [hafter] at hp
          cases hp
        · exact hl.complete ev' hold hp
    · intro p hp
      have hp : m.pass = some p := hp
      rw [hidle] at hp
      cases hp
    · intro r hr
      cases hr

theorem Tidy.begin (h : Tidy m) {since : Option IsoText} (hidle : m.pass = none)
    (hal : (FlywheelAction.begin since).allowed c w m = true) :
    Tidy (m.advance (beginPass w since)) := by
  simp only [FlywheelAction.allowed, Bool.and_eq_true, decide_eq_true_eq] at hal
  have hl := h.idle hidle
  have hread (s : Store) : Ledger { m.flywheel with store := s } m.flywheel.cursor := hl.of_eq rfl rfl
  rw [FlywheelRun.advance, beginPass]
  simp only [Prog.bind_run, onStore, backendCall_run, Prog.read_run]
  cases w.refuses _ with
  | true => exact Tidy.raised (hread _)
  | false =>
    simp only [Bool.false_eq_true, if_false]
    cases w.refuses _ with
    | true => exact Tidy.raised (hread _)
    | false =>
      apply Tidy.running
      have hstart := (hread m.flywheel.store.called.called).begin hal.1 hal.2
      exact hstart

theorem Tidy.event (h : Tidy m) {ev : FeedbackEvent} {rest : List FeedbackEvent}
    (hp : m.pass = some p) (ht : p.todo = ev :: rest)
    (hal : FlywheelAction.event.allowed c w m = true) :
    Tidy (m.advance (processEvent c w p ev)) := by
  have hin := h.busy p hp
  simp only [FlywheelAction.allowed, hp, ht, Option.all_some, List.head?_cons] at hal
  rw [FlywheelRun.advance]
  cases hafter : eventAfterCursor ev p.cursor with
  | false =>
    have hrun : processEvent c w p ev m.flywheel = (.ok { p with todo := p.todo.tail }, m.flywheel) := by
      simp only [processEvent, hafter, Bool.not_false, if_true, Prog.pure_run]
    rw [hrun, ht]
    exact Tidy.running (hin.skip ht (.inl hafter) p.processed)
  | true =>
    cases hadm : admits p.since ev with
    | false =>
      have hrun : processEvent c w p ev m.flywheel =
          (.ok { p with todo := p.todo.tail, processed := p.processed + 1 }, m.flywheel) := by
        simp only [processEvent, hafter, hadm, Bool.not_true, Bool.false_eq_true, if_false,
          Prog.pure_run]
      rw [hrun, ht]
      exact Tidy.running (hin.skip ht (.inr hadm) (p.processed + 1))
    | true =>
      simp only [hafter, hadm, Bool.not_true, Bool.false_or, Bool.and_eq_true] at hal
      have hspec := @processEvent_spec c w p ev m.flywheel hafter hadm hal.1
      have hok := hal.2
      rw [Prog.result] at hok
      cases hr : processEvent c w p ev m.flywheel with
      | mk r f =>
        rw [hr] at hspec hok
        cases r with
        | error e =>
          have hs : p.settled m.flywheel = true := by simpa [Except.isOk, Except.toBool] using hok
          exact Tidy.raised (hin.settled hs hspec.1 hspec.2.2 hspec.2.1)
        | ok p' =>
          obtain ⟨he, _, ha, ht', hc', hs', hl'⟩ := hspec
          rw [ht] at ht'
          exact Tidy.running (hin.apply ht hafter hadm he ha ht' hc' hs' hl')

theorem Tidy.flush (h : Tidy m) (hp : m.pass = some p)
    (hal : FlywheelAction.flush.allowed c w m = true) : Tidy (m.advance (flushCursor w p)) := by
  have hin := h.busy p hp
  simp only [FlywheelAction.allowed, hp, Option.all_some, Prog.result] at hal
  rw [FlywheelRun.advance]
  rw [flushCursor] at hal ⊢
  cases hd : p.flushDue with
  | false => exact Tidy.running hin
  | true =>
    simp only [hd, if_true, persistCursor, Prog.bind_run, onStore, backendCall_run,
      Prog.modify_run, Prog.pure_run] at hal ⊢
    cases hw : w.refuses m.flywheel.store.calls with
    | true =>
      have hs : p.settled m.flywheel = true := by
        simpa [hw, Except.isOk, Except.toBool] using hal
      exact Tidy.raised (hin.settled hs rfl rfl rfl)
    | false =>
      apply Tidy.running
      have hstore : InPass { m.flywheel with store := m.flywheel.store.called } p :=
        hin.of_eq rfl rfl rfl
      exact hstore.saved (hin.due hd)

theorem Tidy.finish (h : Tidy m) (hp : m.pass = some p) (ht : p.todo = [])
    (hal : FlywheelAction.finish.allowed c w m = true) : Tidy (m.return (finishPass w p)) := by
  have hin := h.busy p hp
  simp only [FlywheelAction.allowed, hp, Option.all_some, Prog.result] at hal
  rw [FlywheelRun.return]
  rw [finishPass] at hal ⊢
  cases hl : p.last with
  | none =>
    have hreached : p.reached = m.flywheel.cursor := by
      rw [Pass.reached, hl, hin.unsaved hl]
      rfl
    constructor
    · intro _
      have hledger := hin.ledger
      rw [hreached] at hledger
      exact hledger
    · intro p' hp'
      cases hp'
    · intro r hr hs
      cases hr
      exact hin.done ht hs
  | some at_ =>
    simp only [hl, Option.isSome_some, if_true, persistCursor, Prog.bind_run, onStore,
      backendCall_run, Prog.modify_run, Prog.pure_run] at hal ⊢
    cases hw : w.refuses m.flywheel.store.calls with
    | true =>
      have hs : p.settled m.flywheel = true := by
        simpa [hw, Except.isOk, Except.toBool] using hal
      exact Tidy.raised (hin.settled hs rfl rfl rfl)
    | false =>
      have hreached : p.reached = some at_ := by rw [Pass.reached, hl]; rfl
      constructor
      · intro _
        have hledger := hin.ledger
        rw [hreached] at hledger
        exact hledger.of_eq rfl rfl
      · intro p' hp'
        cases hp'
      · intro r hr hs
        cases hr
        exact hin.done ht hs

theorem Tidy.others (h : Tidy m) (s : Store) :
    Tidy { m with flywheel := { m.flywheel with store := s } } := by
  constructor
  · intro hidle
    exact (h.idle hidle).of_eq rfl rfl
  · intro p hp
    exact (h.busy p hp).of_eq rfl rfl rfl
  · exact h.returned

theorem FlywheelAction.step_tidy (a : FlywheelAction) (m : FlywheelRun) (h : Tidy m)
    (hal : a.allowed c w m = true) : Tidy (a.step c w m) := by
  cases a with
  | record ev => exact h.record hal
  | begin since =>
    simp only [FlywheelAction.step]
    split
    · exact h
    · next hidle => exact h.begin (Option.not_isSome_iff_eq_none.1 hidle) hal
  | event =>
    simp only [FlywheelAction.step]
    split
    · exact h
    · next p hp =>
      split
      · exact h
      · next ev rest ht =>
        split
        · exact h
        · exact h.event hp ht hal
  | flush =>
    simp only [FlywheelAction.step]
    split
    · exact h
    · next p hp => exact h.flush hp hal
  | finish =>
    simp only [FlywheelAction.step]
    split
    · exact h
    · next p hp =>
      split
      · next hend =>
        simp only [Bool.and_eq_true, decide_eq_true_eq] at hend
        exact h.finish hp hend.1 hal
      · exact h
  | others s => exact h.others s

end Step

section Call
variable {c : FlywheelConfig} {w : World}

/-- The steps of a run that has these events before it. -/
def passSteps (todo : List FeedbackEvent) : List FlywheelAction :=
  todo.flatMap (fun _ => [.event, .flush]) ++ [.finish]

theorem passSteps_raised (todo : List FeedbackEvent) (f : Flywheel) :
    runSteps (FlywheelAction.step c w) (passSteps todo) { flywheel := f } = { flywheel := f } := by
  induction todo with
  | nil => rfl
  | cons ev rest ih => exact ih

theorem processEvent_todo {p p' : Pass} {ev : FeedbackEvent} {f f' : Flywheel}
    (h : processEvent c w p ev f = (.ok p', f')) : p'.todo = p.todo.tail := by
  rw [processEvent] at h
  split at h
  · cases h
    rfl
  · split at h
    · obtain ⟨counts, g, _, h⟩ := Prog.bind_ok h
      cases h
      rfl
    · cases h
      rfl

theorem flushCursor_ok {p p' : Pass} {f f' : Flywheel}
    (h : flushCursor w p f = (.ok p', f')) : p' = { p with flushDue := false } := by
  rw [flushCursor] at h
  split at h
  · obtain ⟨_, g, _, h⟩ := Prog.bind_ok h
    cases h
    rfl
  · next hd =>
    cases h
    cases p
    simp only [Bool.not_eq_true] at hd
    simp only [hd]

theorem passSteps_run (todo : List FeedbackEvent) {p : Pass} (f : Flywheel) (ht : p.todo = todo)
    (hd : p.flushDue = false) :
    runSteps (FlywheelAction.step c w) (passSteps todo) { flywheel := f, pass := some p } =
      FlywheelRun.return (processEvents c w p todo >>= finishPass w) { flywheel := f } := by
  induction todo generalizing p f with
  | nil =>
    simp only [passSteps, List.flatMap_nil, List.nil_append, runSteps, FlywheelAction.step, ht, hd,
      Bool.not_false, decide_true, Bool.and_self, if_true]
    rfl
  | cons ev rest ih =>
    have hevent : FlywheelAction.step c w .event { flywheel := f, pass := some p } =
        FlywheelRun.advance (processEvent c w p ev) { flywheel := f } := by
      simp only [FlywheelAction.step, ht, hd, Bool.false_eq_true, if_false]
      rfl
    rw [passSteps, List.flatMap_cons, List.append_assoc, List.cons_append, List.cons_append,
      List.nil_append, runSteps, hevent]
    simp only [processEvents, FlywheelRun.return, Prog.bind_assoc]
    rw [Prog.bind_run, FlywheelRun.advance]
    cases hr : processEvent c w p ev f with
    | mk r f₁ =>
      cases r with
      | error e => exact passSteps_raised rest f₁
      | ok p₁ =>
        have htodo := processEvent_todo hr
        rw [ht] at htodo
        have hflush : FlywheelAction.step c w .flush { flywheel := f₁, pass := some p₁ } =
            FlywheelRun.advance (flushCursor w p₁) { flywheel := f₁ } := rfl
        dsimp only
        rw [runSteps, hflush, Prog.bind_run, FlywheelRun.advance]
        cases hf : flushCursor w p₁ f₁ with
        | mk r f₂ =>
          cases r with
          | error e => exact passSteps_raised rest f₂
          | ok p₂ =>
            rw [flushCursor_ok hf]
            exact ih f₂ htodo rfl

/-- A call of `process_feedback` is a run of steps. -/
theorem processFeedback_steps (since : Option IsoText) {m : FlywheelRun} (h : m.pass = none) :
    ∃ actions, runSteps (FlywheelAction.step c w) actions m =
      m.return (processFeedback c w since) := by
  have hbegin : FlywheelAction.step c w (.begin since) m = m.advance (beginPass w since) := by
    simp only [FlywheelAction.step, h, Option.isSome_none, Bool.false_eq_true, if_false]
  cases hr : beginPass w since m.flywheel with
  | mk r f =>
    cases r with
    | error e =>
      refine ⟨[.begin since], ?_⟩
      rw [runSteps, hbegin, FlywheelRun.advance, FlywheelRun.return, processFeedback,
        Prog.bind_run_error hr, hr]
      rfl
    | ok p =>
      refine ⟨.begin since :: passSteps p.todo, ?_⟩
      have hd : p.flushDue = false := by
        rw [beginPass] at hr
        obtain ⟨_, _, _, hr⟩ := Prog.bind_ok hr
        obtain ⟨_, _, _, hr⟩ := Prog.bind_ok hr
        obtain ⟨_, _, _, hr⟩ := Prog.bind_ok hr
        obtain ⟨_, _, _, hr⟩ := Prog.bind_ok hr
        cases hr
        rfl
      rw [runSteps, hbegin, FlywheelRun.advance, FlywheelRun.return, processFeedback,
        Prog.bind_run_ok hr, hr]
      exact passSteps_run p.todo f rfl hd

end Call

/-- No event is applied twice, what is applied is the event's delta, and nothing is missing when a
run without a bound has just returned. -/
structure FedBack (m : FlywheelRun) : Prop where
  once : (m.flywheel.applied.map AppliedDelta.event).Nodup
  genuine : ∀ a ∈ m.flywheel.applied, ∃ ev ∈ m.flywheel.events.values, ev.id = a.event ∧
    a.delta ∈ feedbackDeltas ev
  complete : ∀ r, m.report = some r → r.since = none → ∀ ev ∈ m.flywheel.events.values,
    ∀ d ∈ feedbackDeltas ev, ⟨ev.id, d⟩ ∈ m.flywheel.applied

theorem Tidy.fedBack {m : FlywheelRun} (h : Tidy m) : FedBack m := by
  have hledger : ∃ reached, Ledger m.flywheel reached := by
    cases hp : m.pass with
    | none => exact ⟨_, h.idle hp⟩
    | some p => exact ⟨_, (h.busy p hp).ledger⟩
  obtain ⟨reached, hl⟩ := hledger
  constructor
  · exact hl.once
  · intro a ha
    obtain ⟨ev, hev, hid, hd, _⟩ := hl.genuine a ha
    exact ⟨ev, hev, hid, hd⟩
  · exact h.returned

/-- In every run whose steps are allowed where they are taken, feedback is applied exactly once. -/
theorem feedback_applied_once (c : FlywheelConfig) (w : World) (s : Store)
    (actions : List FlywheelAction)
    (hal : Allowed (FlywheelAction.step c w) (FlywheelAction.allowed c w) actions
      { flywheel := { store := s } }) :
    FedBack (runSteps (FlywheelAction.step c w) actions { flywheel := { store := s } }) := by
  have hempty : Ledger { store := s } none := by
    constructor
    · exact List.nodup_nil
    · intro a ha
      cases ha
    · intro ev hev
      cases hev
  exact (Allowed.keeps FlywheelAction.step_tidy (Tidy.raised hempty) hal).fedBack

/-- A store with one entry. -/
def ratedStore : Store :=
  let entry : MemoryEntry := { key := "k", value := "v", createdAt := 0, updatedAt := 0, lastAccessed := 0 }
  { entries := Table.empty.set entry, rows := Table.empty.set entry }

def helpful (id : String) (at_ : Stamp) : FeedbackEvent where
  id := id
  eventType := "implicit_positive"
  entryKey := some "k"
  timestamp := .at at_

/-- A run of `process_feedback` that has so many events before it. -/
def fullRun (since : Option IsoText) (n : Nat) : List FlywheelAction :=
  .begin since :: (List.replicate n [.event, .flush]).flatten ++ [.finish]

/-- Two events, of which a bound lets both through, then one more and a run without a bound. -/
theorem feedback_applied_once_thrice :
    FedBack (runSteps (FlywheelAction.step {} Config.plain.calm)
      ([.record (helpful "b" 2), .record (helpful "a" 1)] ++ fullRun (some (.at 1)) 2 ++
        [.record (helpful "c" 3)] ++ fullRun none 2) { flywheel := { store := ratedStore } }) :=
  feedback_applied_once {} Config.plain.calm ratedStore _ (by decide +kernel)

/-- The run whose cursor cannot be saved at its end is repeated; a bound leaves an event behind the
cursor; an event is recorded with a timestamp behind the cursor. -/
theorem feedback_misapplied :
    ¬ FedBack (runSteps (FlywheelAction.step {} { Config.plain.calm with refuses := fun n => n = 4 })
        ([.record (helpful "a" 1)] ++ fullRun none 1 ++ fullRun none 1)
        { flywheel := { store := ratedStore } }) ∧
      ¬ FedBack (runSteps (FlywheelAction.step {} Config.plain.calm)
        ([.record (helpful "a" 1), .record (helpful "b" 2)] ++ fullRun (some (.at 2)) 2 ++ fullRun none 1)
        { flywheel := { store := ratedStore } }) ∧
      ¬ FedBack (runSteps (FlywheelAction.step {} Config.plain.calm)
        ([.record (helpful "b" 2)] ++ fullRun none 1 ++ [.record (helpful "a" 1)] ++ fullRun none 1)
        { flywheel := { store := ratedStore } }) := by
  refine ⟨?_, ?_, ?_⟩
  · intro h
    have honce := h.once
    revert honce
    decide +kernel
  · intro h
    have hmissing := h.complete ⟨none, 0, 0⟩ (by decide +kernel) rfl (helpful "a" 1) (by decide +kernel)
      ⟨some "k", 1, 0⟩ (by decide +kernel)
    revert hmissing
    decide +kernel
  · intro h
    have hmissing := h.complete ⟨none, 0, 0⟩ (by decide +kernel) rfl (helpful "a" 1) (by decide +kernel)
      ⟨some "k", 1, 0⟩ (by decide +kernel)
    revert hmissing
    decide +kernel

end TappsBrain
