import Mathlib.Data.Prod.Lex
import Mathlib.Data.String.Basic
import Mathlib.Data.Sum.Order
import TappsBrain.Rules

namespace TappsBrain
open Lib
set_option autoImplicit true
set_option relaxedAutoImplicit false

structure FeedbackEvent where
  id : String
  eventType : String
  entryKey : Option String := none
  details : List (String × String) := []
  timestamp : IsoText
deriving DecidableEq, Repr

/-- `_timestamp_sort_key`: moments first, then the texts that do not parse. -/
def timestampSortKey : IsoText → Nat ⊕ₗ String
  | .at t => Sum.inlₗ t
  | .malformed text => Sum.inrₗ text

/-- What `process_feedback` sorts by. -/
def FeedbackEvent.place (ev : FeedbackEvent) : (Nat ⊕ₗ String) ×ₗ String :=
  toLex (timestampSortKey ev.timestamp, ev.id)

/-- The cursor kept under `_FEEDBACK_CURSOR_KEY`. -/
structure Cursor where
  ts : IsoText
  id : String
deriving DecidableEq, Repr

def Cursor.place (c : Cursor) : (Nat ⊕ₗ String) ×ₗ String := toLex (timestampSortKey c.ts, c.id)

/-- `_event_after_cursor`. -/
def eventAfterCursor (ev : FeedbackEvent) : Option Cursor → Bool
  | none => true
  | some c =>
    if timestampSortKey c.ts < timestampSortKey ev.timestamp then true
    else if timestampSortKey ev.timestamp < timestampSortKey c.ts then false
    else c.id < ev.id

structure FeedbackDelta where
  entryKey : Option String
  positive : ℚ
  negative : ℚ
deriving DecidableEq, Repr

/-- `_feedback_deltas`. -/
def feedbackDeltas (ev : FeedbackEvent) : List FeedbackDelta :=
  let ek := ev.entryKey
  if isEmpty ek then []
  else if ev.eventType = "recall_rated" then
    let rating := (ev.details.lookup "rating").getD ""
    if rating = "helpful" then [⟨ek, 1, 0⟩]
    else if rating = "irrelevant" || rating = "outdated" then [⟨ek, 0, 1⟩]
    else []
  else if ev.eventType = "implicit_positive" then [⟨ek, 1, 0⟩]
  else if ev.eventType = "implicit_negative" then [⟨ek, 0, 2 / 10⟩]
  else if ev.eventType = "implicit_correction" then [⟨ek, 0, 5 / 10⟩]
  else if ev.eventType = "issue_flagged" then [⟨ek, 0, 1⟩]
  else []

structure FlywheelConfig where
  baseK : ℚ := 1
  tierVolatility : List (String × ℚ) :=
    [("architectural", 3 / 10), ("pattern", 5 / 10), ("procedural", 7 / 10), ("context", 1)]
  minConfidence : ℚ := 5 / 100

def CURSOR_FLUSH_INTERVAL : Nat := 500
def FEEDBACK_QUERY_LIMIT : Nat := 100000

/-- `round(x, 6)`. -/
def round6 (x : ℚ) : ℚ := round4 (x * 100) / 100

def betaMean (positive negative : ℚ) : ℚ := (positive + 1 / 2) / (positive + negative + 1)

/-- The keyword arguments `process_feedback` passes to `update_fields`. -/
def feedbackPatch (c : FlywheelConfig) (d : FeedbackDelta) (entry : MemoryEntry) : FieldPatch :=
  let newPos := entry.positiveFeedbackCount + d.positive
  let newNeg := entry.negativeFeedbackCount + d.negative
  let vol := (c.tierVolatility.lookup entry.tier.text).getD (7 / 10)
  let delta := c.baseK * vol * (betaMean newPos newNeg - entry.confidence)
  let newConf := max c.minConfidence (min 1 (entry.confidence + delta))
  { set := fun e => { e with
      positiveFeedbackCount := round6 newPos
      negativeFeedbackCount := round6 newNeg
      confidence := round6 newConf }
    set_key := fun _ => rfl
    updatedAt := some entry.updatedAt }

/-- A delta that has reached its entry. -/
structure AppliedDelta where
  event : String
  delta : FeedbackDelta
deriving DecidableEq, Repr

/-- A run of `process_feedback` between two of its steps. -/
structure Pass where
  /-- The cursor as it was read. -/
  cursor : Option Cursor
  since : Option IsoText
  todo : List FeedbackEvent
  processed : Nat := 0
  adjustments : Nat := 0
  last : Option Cursor := none
  flushDue : Bool := false
deriving DecidableEq

/-- What a run of `process_feedback` returned, and the bound it was given. -/
structure PassReport where
  since : Option IsoText
  processedEvents : Nat
  confidenceAdjustments : Nat
deriving DecidableEq

/-- A store with its feedback. What has been applied is kept beside it. -/
structure Flywheel where
  store : Store := {}
  events : Table FeedbackEvent.id := Table.empty
  cursor : Option Cursor := none
  applied : List AppliedDelta := []
deriving DecidableEq

abbrev FlywheelM := Prog Flywheel Raised

def onStore (p : StoreM α) : FlywheelM α := fun m => ((p m.store).1, { m with store := (p m.store).2 })

/-- `FeedbackStore.record`: `ON CONFLICT … DO NOTHING`. -/
def recordFeedback (ev : FeedbackEvent) (m : Flywheel) : Flywheel :=
  if m.events.contains ev.id then m else { m with events := m.events.set ev }

/-- `since` is a bound from below, when one is given. -/
def admits (since : Option IsoText) (ev : FeedbackEvent) : Bool :=
  since.all (fun ts => timestampSortKey ts ≤ timestampSortKey ev.timestamp)

/-- `query_feedback(since=…, limit=…)`. -/
def queryFeedback (since : Option IsoText) (limit : Nat) (m : Flywheel) : List FeedbackEvent :=
  ((m.events.values.filter (admits since)).insertionSort
    (fun a b => timestampSortKey a.timestamp ≤ timestampSortKey b.timestamp)).take limit

/-- `_persist_cursor`. -/
def persistCursor (w : World) (last : Option Cursor) : FlywheelM Unit := do
  onStore (backendCall w)
  Prog.modify (fun m => { m with cursor := last })

/-- Read the cursor and fetch the events from its timestamp on. -/
def beginPass (w : World) (since : Option IsoText) : FlywheelM Pass := do
  onStore (backendCall w)
  let cursor ← Prog.read Flywheel.cursor
  onStore (backendCall w)
  let events ← Prog.read (queryFeedback (cursor.map Cursor.ts) FEEDBACK_QUERY_LIMIT)
  pure { cursor, since, todo := events.insertionSort (fun a b => a.place ≤ b.place) }

/-- One update of an event; the audit row's failure is swallowed. -/
def applyDelta (c : FlywheelConfig) (w : World) (ev : FeedbackEvent) (d : FeedbackDelta) :
    FlywheelM Nat :=
  match d.entryKey with
  | none => pure 0
  | some ek =>
    if ek = "" then pure 0
    else do
      match ← onStore (ensureEntryCached w ek) with
      | none => pure 0
      | some entry => do
        let _ ← onStore (updateFields w ek (feedbackPatch c d entry))
        Prog.modify (fun m => { m with applied := m.applied ++ [⟨ev.id, d⟩] })
        onStore (Prog.swallow (backendCall w))
        pure 1

/-- The loop body, up to the cursor it may have to save. -/
def processEvent (c : FlywheelConfig) (w : World) (p : Pass) (ev : FeedbackEvent) : FlywheelM Pass :=
  if !eventAfterCursor ev p.cursor then pure { p with todo := p.todo.tail }
  else if admits p.since ev then do
    let counts ← Prog.mapEach (applyDelta c w ev) (feedbackDeltas ev)
    pure { p with
      todo := p.todo.tail
      processed := p.processed + 1
      adjustments := p.adjustments + counts.sum
      last := some ⟨ev.timestamp, ev.id⟩
      flushDue := p.processed % CURSOR_FLUSH_INTERVAL = CURSOR_FLUSH_INTERVAL - 1 }
  else pure { p with todo := p.todo.tail, processed := p.processed + 1 }

/-- The cursor that is saved every so many events. -/
def flushCursor (w : World) (p : Pass) : FlywheelM Pass :=
  if p.flushDue then do
    persistCursor w p.last
    pure { p with flushDue := false }
  else pure p

def processEvents (c : FlywheelConfig) (w : World) (p : Pass) : List FeedbackEvent → FlywheelM Pass
  | [] => pure p
  | ev :: rest => do
    let p ← processEvent c w p ev
    let p ← flushCursor w p
    processEvents c w p rest

def finishPass (w : World) (p : Pass) : FlywheelM PassReport := do
  if p.last.isSome then persistCursor w p.last else pure ()
  pure ⟨p.since, p.processed, p.adjustments⟩

/-- `process_feedback`. -/
def processFeedback (c : FlywheelConfig) (w : World) (since : Option IsoText) : FlywheelM PassReport := do
  let p ← beginPass w since
  let p ← processEvents c w p p.todo
  finishPass w p

theorem eventAfterCursor_some {ev : FeedbackEvent} {c : Cursor} :
    eventAfterCursor ev (some c) = true ↔ c.place < ev.place := by
  rw [Cursor.place, FeedbackEvent.place, Prod.Lex.lt_iff]
  simp only [eventAfterCursor, ofLex_toLex]
  split
  · next hlt => simp only [hlt, true_or]
  · next hnlt =>
    split
    · next hgt => simp only [Bool.false_eq_true, hnlt, hgt.ne', false_and, or_self]
    · next hngt =>
      have heq := le_antisymm (not_lt.1 hngt) (not_lt.1 hnlt)
      simp only [heq, lt_irrefl, true_and, false_or, decide_eq_true_eq]

/-- An event carries at most one delta, and one that has an entry to go to. -/
theorem feedbackDeltas_cases (ev : FeedbackEvent) : feedbackDeltas ev = [] ∨
    ∃ ek d, feedbackDeltas ev = [d] ∧ d.entryKey = some ek ∧ ek ≠ "" := by
  simp only [feedbackDeltas]
  cases hk : ev.entryKey with
  | none => exact .inl rfl
  | some ek =>
    by_cases he : ek = ""
    · simp only [isEmpty, he, decide_true, if_true, true_or]
    · simp only [isEmpty, he, decide_false, Bool.false_eq_true, if_false]
      repeat' split
      all_goals first
        | exact .inl rfl
        | exact .inr ⟨ek, _, rfl, rfl, he⟩

section Spec
variable {c : FlywheelConfig} {w : World} {I : Flywheel → Prop}

theorem swallow_backendCall (s : Store) : Prog.swallow (backendCall w) s = (.ok (), s.called) := by
  rw [Prog.swallow, Prog.handle_run, backendCall_run]
  cases w.refuses s.calls with
  | true => rfl
  | false => rfl

theorem applyDelta_eq {ev : FeedbackEvent} {d : FeedbackDelta} {ek : String}
    (hk : d.entryKey = some ek) (hne : ek ≠ "") :
    applyDelta c w ev d = (onStore (ensureEntryCached w ek) >>= fun found =>
      match found with
      | none => pure 0
      | some entry => do
        let _ ← onStore (updateFields w ek (feedbackPatch c d entry))
        Prog.modify (fun m => { m with applied := m.applied ++ [⟨ev.id, d⟩] })
        onStore (Prog.swallow (backendCall w))
        pure 1) := by
  rw [applyDelta, hk]
  exact if_neg hne

/-- A delta whose entry is there is applied, unless one of the calls raises before that. -/
theorem applyDelta_spec {ev : FeedbackEvent} {d : FeedbackDelta} {ek : String} (m : Flywheel)
    (hk : d.entryKey = some ek) (hne : ek ≠ "")
    (hthere : (ensureEntryCached w ek m.store).1 ≠ .ok none) :
    match applyDelta c w ev d m with
    | (.ok _, m') => m'.events = m.events ∧ m'.cursor = m.cursor ∧
        m'.applied = m.applied ++ [⟨ev.id, d⟩]
    | (.error _, m') => m'.events = m.events ∧ m'.cursor = m.cursor ∧ m'.applied = m.applied := by
  rw [applyDelta_eq hk hne, Prog.bind_run, onStore]
  cases hfound : (ensureEntryCached w ek m.store).1 with
  | error e => exact ⟨rfl, rfl, rfl⟩
  | ok found =>
    cases found with
    | none => exact absurd hfound hthere
    | some entry =>
      simp only [Prog.bind_run, onStore, Prog.modify_run, swallow_backendCall]
      cases (updateFields w ek (feedbackPatch c d entry) _).1 with
      | error e => exact ⟨rfl, rfl, rfl⟩
      | ok updated => exact ⟨rfl, rfl, rfl⟩

/-- An applied delta has reached the durable row of its entry. -/
theorem applyDelta_written {ev : FeedbackEvent} {d : FeedbackDelta} {ek : String} {m m' : Flywheel}
    {entry : MemoryEntry} {t : Store} {n : Nat} (hk : d.entryKey = some ek) (hne : ek ≠ "")
    (hentry : ensureEntryCached w ek m.store = (.ok (some entry), t))
    (h : applyDelta c w ev d m = (.ok n, m')) : ∃ row, m'.store.rows.get? ek = some row ∧
      row.positiveFeedbackCount = round6 (entry.positiveFeedbackCount + d.positive) ∧
      row.negativeFeedbackCount = round6 (entry.negativeFeedbackCount + d.negative) := by
  obtain ⟨hslot, hkey⟩ := ensureEntryCached_slot hentry
  rw [applyDelta_eq hk hne, Prog.bind_run, onStore, hentry] at h
  simp only [Prog.bind_run, onStore, updateFields_run w _ hslot, swallow_backendCall] at h
  cases hacc : accepts w t.ticked ((feedbackPatch c d entry).apply (w.clock t.ticks) entry) with
  | false =>
    rw [hacc] at h
    cases h
  | true =>
    rw [hacc] at h
    cases h
    let after := (feedbackPatch c d entry).apply (w.clock t.ticks) entry
    have hcounts : (upserted t.rows after).positiveFeedbackCount = after.positiveFeedbackCount ∧
        (upserted t.rows after).negativeFeedbackCount = after.negativeFeedbackCount := by
      rw [upserted]
      split
      · exact ⟨rfl, rfl⟩
      · exact ⟨rfl, rfl⟩
    refine ⟨upserted t.rows after, ?_, hcounts⟩
    rw [← hkey]
    exact storeRow_get?_self after _

/-- The entry of every delta of the event is in the store, as far as the store can tell. -/
def entriesThere (w : World) (ev : FeedbackEvent) (s : Store) : Bool :=
  (feedbackDeltas ev).all (fun d => (ensureEntryCached w (d.entryKey.getD "") s).1 ≠ .ok none)

theorem processEvent_spec {p : Pass} {ev : FeedbackEvent} (m : Flywheel)
    (hafter : eventAfterCursor ev p.cursor = true) (hadm : admits p.since ev = true)
    (hthere : entriesThere w ev m.store = true) :
    match processEvent c w p ev m with
    | (.ok p', m') => m'.events = m.events ∧ m'.cursor = m.cursor ∧
        m'.applied = m.applied ++ (feedbackDeltas ev).map (fun d => ⟨ev.id, d⟩) ∧
        p'.todo = p.todo.tail ∧ p'.cursor = p.cursor ∧ p'.since = p.since ∧
        p'.last = some ⟨ev.timestamp, ev.id⟩
    | (.error _, m') => m'.events = m.events ∧ m'.cursor = m.cursor ∧ m'.applied = m.applied := by
  simp only [processEvent, hafter, hadm, Bool.not_true, Bool.false_eq_true, if_false, if_true,
    Prog.bind_run]
  rcases feedbackDeltas_cases ev with hnil | ⟨ek, d, hd, hk, hne⟩
  · rw [hnil]
    exact ⟨rfl, rfl, (List.append_nil _).symm, rfl, rfl, rfl, rfl⟩
  · simp only [entriesThere, hd, List.all_cons, List.all_nil, Bool.and_true, hk, Option.getD_some,
      decide_eq_true_eq] at hthere
    have hspec := @applyDelta_spec c w ev d ek m hk hne hthere
    rw [hd]
    simp only [Prog.mapEach, Prog.bind_run]
    cases hr : applyDelta c w ev d m with
    | mk r m' =>
      rw [hr] at hspec
      cases r with
      | error e => exact hspec
      | ok n => exact ⟨hspec.1, hspec.2.1, hspec.2.2, rfl, rfl, rfl, rfl⟩

end Spec

end TappsBrain
