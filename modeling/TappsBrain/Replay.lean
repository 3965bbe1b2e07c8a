import TappsBrain.Idempotency

namespace TappsBrain
open Lib
set_option autoImplicit true
set_option relaxedAutoImplicit false

/-- A call of the tool that found no response to replay. -/
structure Request (α ρ : Type) where
  id : Nat
  slot : IdempotencySlot
  args : α
  startedAt : Stamp
  /-- How many calls had returned when it started. -/
  seen : Nat
  /-- What the save underneath returned. -/
  result : Option ρ := none

structure Reply (ρ : Type) where
  slot : IdempotencySlot
  startedAt : Stamp
  seen : Nat
  response : ρ
  recordedAt : Stamp

/-- The table, the calls under way, and what has happened so far: the saves that ran and the
replies that were given, oldest first. -/
structure Server (α σ ρ : Type) where
  now : Stamp
  memory : σ
  table : IdempotencyTable := Table.empty
  inFlight : Table (Request.id (α := α) (ρ := ρ)) := Table.empty
  runs : List (IdempotencySlot × Stamp) := []
  replies : List (Reply ρ) := []

inductive ServerAction (α : Type) where
  /-- A call arrives and checks its key. -/
  | begin (id : Nat) (slot : IdempotencySlot) (args : α)
  /-- The save underneath a call runs. -/
  | execute (id : Nat)
  /-- A call records what its save returned, and returns it. -/
  | record (id : Nat)
  | sweep (ttlHours : Option Nat)
  | tick (d : Nat)

variable {α σ ρ : Type} (v : Service α σ ρ)

/-- The reply that replays the row the check found. -/
def replayOf (m : Server α σ ρ) (slot : IdempotencySlot) (body : ρ) : Reply ρ where
  slot := slot
  startedAt := m.now
  seen := m.replies.length
  response := body
  recordedAt := ((m.table.get? slot).map IdempotencyRow.createdAt).getD m.now

def ServerAction.step : ServerAction α → Server α σ ρ → Server α σ ρ
  | .begin id slot args, m =>
    if m.inFlight.contains id then m
    else
      match IdempotencyStore.check v m.now slot m.table with
      | .error _ => m
      | .ok (some (_, body)) => { m with replies := m.replies ++ [replayOf m slot body] }
      | .ok none =>
        { m with inFlight := m.inFlight.set { id, slot, args, startedAt := m.now, seen := m.replies.length } }
  | .execute id, m =>
    match m.inFlight.get? id with
    | none => m
    | some q =>
      if q.result.isSome then m
      else
        let ran := { m with runs := m.runs ++ [(q.slot, m.now)] }
        match v.memorySave q.args m.memory with
        | (.ok result, memory) =>
          { ran with memory, inFlight := m.inFlight.set { q with result := some result } }
        | (.error _, memory) => { ran with memory, inFlight := m.inFlight.pop id }
  | .record id, m =>
    match m.inFlight.get? id with
    | none => m
    | some q =>
      match q.result with
      | none => m
      | some result =>
        { m with
          table := idempotencyRecord v m.now q.slot result m.table
          inFlight := m.inFlight.pop id
          replies := m.replies ++ [⟨q.slot, q.startedAt, q.seen, result, m.now⟩] }
  | .sweep ttlHours, m => { m with table := IdempotencyStore.sweepExpired v m.now ttlHours m.table }
  | .tick d, m => { m with now := m.now + d }

/-- A response is found, or no other call with the key is under way. -/
def checkSettles (m : Server α σ ρ) (slot : IdempotencySlot) : Bool :=
  match IdempotencyStore.check v m.now slot m.table with
  | .ok (some _) => true
  | _ => m.inFlight.values.all (fun q => q.slot ≠ slot)

/-- Calls with one key do not overlap before the first has recorded, the save underneath does not
raise, and a response is recorded over no row: an expired one was swept before. -/
def ServerAction.allowed : ServerAction α → Server α σ ρ → Bool
  | .begin _ slot _, m => checkSettles v m slot
  | .execute id, m =>
    (m.inFlight.get? id).all (fun q => (v.memorySave q.args m.memory).1.isOk)
  | .record id, m => (m.inFlight.get? id).all (fun q => !m.table.contains q.slot)
  | .sweep ttlHours, _ => v.ttlHours ≤ ttlHours.getD v.ttlHours
  | .tick _, _ => true

/-- No two saves of one key run less than the lifetime of a response apart. -/
def OncePerWindow (ttl : Stamp) (runs : List (IdempotencySlot × Stamp)) : Prop :=
  runs.Pairwise (fun x y => x.1 = y.1 → x.2 + ttl ≤ y.2)

/-- A call that starts after another with its key has returned, and within the lifetime of that
response, returns that response. -/
def Replayed (ttl : Stamp) (replies : List (Reply ρ)) : Prop :=
  ∀ q ∈ replies, ∀ r ∈ replies.take q.seen, r.slot = q.slot →
    q.startedAt < r.recordedAt + ttl → q.response = r.response

section Check
variable {v} {now : Stamp} {slot : IdempotencySlot} {t : IdempotencyTable} {status : Nat} {body : ρ}

theorem check_some (h : IdempotencyStore.check v now slot t = .ok (some (status, body))) :
    ∃ row, t.get? slot = some row ∧ v.json.loads row.responseJson = some body := by
  simp only [IdempotencyStore.check] at h
  split at h
  · cases h
  · split at h
    · cases h
    · next row hrow =>
      split at h
      · next b hb =>
        cases h
        exact ⟨row, (Option.filter_eq_some_iff.1 hrow).1, hb⟩
      · cases h

theorem check_none (h : IdempotencyStore.check v now slot t = .ok none) {row : IdempotencyRow}
    (hrow : t.get? slot = some row) : row.createdAt + v.ttl ≤ now := by
  simp only [IdempotencyStore.check] at h
  split at h
  · cases h
  · split at h
    · next hn =>
      have hlt := Option.filter_eq_none_iff.1 hn row hrow
      simpa using hlt
    · split at h
      · cases h
      · cases h

theorem record_absent (now : Stamp) (hav : v.available = true) (hn : t.contains slot = false) {result : ρ}
    (hfit : (v.json.dumps result).utf8ByteSize ≤ MAX_RESPONSE_BYTES) :
    ∃ code, idempotencyRecord v now slot result t =
      t.set ⟨slot, code, v.json.dumps result, now⟩ := by
  refine ⟨if v.json.hasError result then 400 else 200, ?_⟩
  simp only [idempotencyRecord, IdempotencyStore.save, if_neg (Nat.not_lt.2 hfit), hav, hn,
    Bool.not_true, Bool.false_eq_true, if_false]

/-- A sweep that keeps the lifetime deletes expired rows only. -/
theorem sweepExpired_keeps {hours : Option Nat} (hh : v.ttlHours ≤ hours.getD v.ttlHours)
    {row : IdempotencyRow} (hrow : t.get? slot = some row) :
    row.createdAt + v.ttl ≤ now ∨
      (IdempotencyStore.sweepExpired v now hours t).get? slot = some row := by
  simp only [IdempotencyStore.sweepExpired]
  split
  · by_cases hlt : row.createdAt + hours.getD v.ttlHours * v.hour < now
    · left
      have hle : v.ttl ≤ hours.getD v.ttlHours * v.hour := Nat.mul_le_mul_right v.hour hh
      exact Nat.le_trans (Nat.add_le_add_left hle _) (Nat.le_of_lt hlt)
    · right
      rw [Table.get?_filter, hrow, Option.filter_some, if_pos (by simpa using hlt)]
  · exact .inr hrow

end Check

/-- What holds of a call under way. -/
structure Pending (m : Server α σ ρ) (q : Request α ρ) : Prop where
  seen : q.seen ≤ m.replies.length
  missed : ∀ r ∈ m.replies.take q.seen, r.slot = q.slot → r.recordedAt + v.ttl ≤ q.startedAt
  waiting : q.result = none → ∀ x ∈ m.runs, x.1 = q.slot → x.2 + v.ttl ≤ m.now
  fits : ∀ result, q.result = some result →
    (v.json.dumps result).utf8ByteSize ≤ MAX_RESPONSE_BYTES

/-- The save of a call has run out of its window, is in the table or about to be recorded. -/
def Covered (m : Server α σ ρ) (x : IdempotencySlot × Stamp) : Prop :=
  x.2 + v.ttl ≤ m.now ∨ (∃ row, m.table.get? x.1 = some row ∧ x.2 ≤ row.createdAt) ∨
    ∃ q ∈ m.inFlight.values, q.slot = x.1 ∧ q.result.isSome

/-- A response is in the table as long as it has to be replayed. -/
def Replayable (m : Server α σ ρ) (r : Reply ρ) : Prop :=
  r.recordedAt + v.ttl ≤ m.now ∨ ∃ row, m.table.get? r.slot = some row ∧
    row.createdAt = r.recordedAt ∧ v.json.loads row.responseJson = some r.response

/-- What holds between the steps of the calls. -/
structure Exact (m : Server α σ ρ) : Prop where
  once : OncePerWindow v.ttl m.runs
  past : ∀ x ∈ m.runs, x.2 ≤ m.now
  covered : ∀ x ∈ m.runs, Covered v m x
  replayed : Replayed v.ttl m.replies
  seen : ∀ q ∈ m.replies, q.seen ≤ m.replies.length
  replayable : ∀ r ∈ m.replies, Replayable v m r
  sole : ∀ p ∈ m.inFlight.values, ∀ q ∈ m.inFlight.values, p.slot = q.slot → p.id = q.id
  pending : ∀ q ∈ m.inFlight.values, Pending v m q

theorem Replayed.append {ttl : Stamp} {replies : List (Reply ρ)} {q : Reply ρ}
    (h : Replayed ttl replies) (hseen : ∀ p ∈ replies, p.seen ≤ replies.length)
    (hq : q.seen ≤ replies.length) (hnew : ∀ r ∈ replies.take q.seen, r.slot = q.slot →
      q.startedAt < r.recordedAt + ttl → q.response = r.response) :
    Replayed ttl (replies ++ [q]) := by
  intro p hp r hr
  rcases List.mem_append.1 hp with hold | hone
  · rw [List.take_append_of_le_length (hseen p hold)] at hr
    exact h p hold r hr
  · rw [List.mem_singleton.1 hone] at hr ⊢
    rw [List.take_append_of_le_length hq] at hr
    exact hnew r hr

theorem OncePerWindow.append {ttl : Stamp} {runs : List (IdempotencySlot × Stamp)}
    {x : IdempotencySlot × Stamp} (h : OncePerWindow ttl runs)
    (hx : ∀ y ∈ runs, y.1 = x.1 → y.2 + ttl ≤ x.2) : OncePerWindow ttl (runs ++ [x]) := by
  rw [OncePerWindow, List.pairwise_append]
  refine ⟨h, List.pairwise_singleton _ _, ?_⟩
  intro y hy z hz
  rw [List.mem_singleton.1 hz]
  exact hx y hy

theorem Pending.after {m m' : Server α σ ρ} {q : Request α ρ} (h : Pending v m q)
    (hruns : m'.runs = m.runs) (hnow : m.now ≤ m'.now) (replies : List (Reply ρ))
    (hr : m'.replies = m.replies ++ replies) : Pending v m' q where
  seen := by
    rw [hr, List.length_append]
    exact Nat.le_add_right_of_le h.seen
  missed := by
    rw [hr, List.take_append_of_le_length h.seen]
    exact h.missed
  waiting hn x hx hs := by
    rw [hruns] at hx
    exact Nat.le_trans (h.waiting hn x hx hs) hnow
  fits := h.fits

section Steps
variable {v} {m : Server α σ ρ}

theorem Exact.tick (h : Exact v m) (d : Nat) : Exact v { m with now := m.now + d } where
  once := h.once
  past x hx := Nat.le_add_right_of_le (h.past x hx)
  covered x hx := (h.covered x hx).imp Nat.le_add_right_of_le id
  replayed := h.replayed
  seen := h.seen
  replayable r hr := (h.replayable r hr).imp Nat.le_add_right_of_le id
  sole := h.sole
  pending q hq := (h.pending q hq).after v rfl (Nat.le_add_right m.now d) [] (List.append_nil _).symm

theorem Exact.sweep (h : Exact v m) {hours : Option Nat} (hh : v.ttlHours ≤ hours.getD v.ttlHours) :
    Exact v { m with table := IdempotencyStore.sweepExpired v m.now hours m.table } where
  once := h.once
  past := h.past
  covered x hx := by
    rcases h.covered x hx with hold | ⟨row, hrow, hle⟩ | hin
    · exact .inl hold
    · rcases sweepExpired_keeps hh hrow with hgone | hstay
      · left
        have hpast : x.2 + v.ttl ≤ row.createdAt + v.ttl := Nat.add_le_add_right hle _
        exact Nat.le_trans hpast hgone
      · exact .inr (.inl ⟨row, hstay, hle⟩)
    · exact .inr (.inr hin)
  replayed := h.replayed
  seen := h.seen
  replayable r hr := by
    rcases h.replayable r hr with hold | ⟨row, hrow, hat, hbody⟩
    · exact .inl hold
    · rcases sweepExpired_keeps hh hrow with hgone | hstay
      · left
        rw [← hat]
        exact hgone
      · exact .inr ⟨row, hstay, hat, hbody⟩
  sole := h.sole
  pending q hq := (h.pending q hq).after v rfl (Nat.le_refl _) [] (List.append_nil _).symm

theorem Exact.hit (h : Exact v m) {slot : IdempotencySlot} {status : Nat} {body : ρ}
    (hc : IdempotencyStore.check v m.now slot m.table = .ok (some (status, body))) :
    Exact v { m with replies := m.replies ++ [replayOf m slot body] } := by
  obtain ⟨row, hrow, hbody⟩ := check_some hc
  have hat : (replayOf m slot body).recordedAt = row.createdAt := by
    simp only [replayOf, hrow, Option.map_some, Option.getD_some]
  constructor
  · exact h.once
  · exact h.past
  · exact h.covered
  · apply h.replayed.append h.seen (Nat.le_refl _)
    intro r hr hs hlt
    rcases h.replayable r (List.mem_of_mem_take hr) with hgone | ⟨row', hrow', _, hbody'⟩
    · exact absurd hlt (Nat.not_lt.2 hgone)
    · rw [hs, show (replayOf m slot body).slot = slot from rfl, hrow] at hrow'
      cases hrow'
      exact Option.some.inj (hbody.symm.trans hbody')
  · intro q hq
    rw [List.length_append]
    rcases List.mem_append.1 hq with hold | hone
    · exact Nat.le_add_right_of_le (h.seen q hold)
    · rw [List.mem_singleton.1 hone]
      exact Nat.le_add_right _ _
  · intro r hr
    rcases List.mem_append.1 hr with hold | hone
    · exact h.replayable r hold
    · rw [List.mem_singleton.1 hone]
      exact .inr ⟨row, hrow, hat.symm, hbody⟩
  · exact h.sole
  · intro q hq
    exact (h.pending q hq).after v rfl (Nat.le_refl _) _ rfl

theorem Exact.miss (h : Exact v m) {q : Request α ρ}
    (hstart : q.startedAt = m.now) (hseen : q.seen = m.replies.length) (hres : q.result = none)
    (hc : IdempotencyStore.check v m.now q.slot m.table = .ok none)
    (hfree : m.inFlight.contains q.id = false)
    (halone : ∀ p ∈ m.inFlight.values, p.slot ≠ q.slot) :
    Exact v { m with inFlight := m.inFlight.set q } := by
  have hother : ∀ p ∈ m.inFlight.values, p.id ≠ q.id := by
    intro p hp he
    rw [Table.contains, ← he, Table.get?_of_mem hp] at hfree
    cases hfree
  have hnew : Pending v m q := by
    constructor
    · exact Nat.le_of_eq hseen
    · intro r hr hs
      rw [hstart]
      rcases h.replayable r (List.mem_of_mem_take hr) with hgone | ⟨row, hrow, hat, _⟩
      · exact hgone
      · rw [← hat]
        exact check_none hc (hs ▸ hrow)
    · intro _ x hx hs
      rcases h.covered x hx with hgone | ⟨row, hrow, hle⟩ | ⟨p, hp, hps, _⟩
      · exact hgone
      · have hold := check_none hc (hs ▸ hrow)
        exact Nat.le_trans (Nat.add_le_add_right hle _) hold
      · exact absurd (hps.trans hs) (halone p hp)
    · intro result hr
      rw [hres] at hr
      cases hr
  constructor
  · exact h.once
  · exact h.past
  · intro x hx
    rcases h.covered x hx with hgone | hrow | ⟨p, hp, hps, hpr⟩
    · exact .inl hgone
    · exact .inr (.inl hrow)
    · exact .inr (.inr ⟨p, Table.mem_set_of_ne hp (hother p hp), hps, hpr⟩)
  · exact h.replayed
  · exact h.seen
  · exact h.replayable
  · intro p hp p' hp' hs
    rcases Table.mem_set hp with rfl | hold
    · rcases Table.mem_set hp' with rfl | hold'
      · rfl
      · exact absurd hs.symm (halone p' hold')
    · rcases Table.mem_set hp' with rfl | hold'
      · exact absurd hs (halone p hold)
      · exact h.sole p hold p' hold' hs
  · intro p hp
    have hpend : Pending v m p := by
      rcases Table.mem_set hp with rfl | hold
      · exact hnew
      · exact h.pending p hold
    exact hpend.after v rfl (Nat.le_refl _) [] (List.append_nil _).symm

theorem Exact.execute (h : Exact v m) {q : Request α ρ} (hq : q ∈ m.inFlight.values)
    (hres : q.result = none) (memory : σ) {result : ρ}
    (hfit : (v.json.dumps result).utf8ByteSize ≤ MAX_RESPONSE_BYTES) :
    Exact v { m with
      runs := m.runs ++ [(q.slot, m.now)]
      memory
      inFlight := m.inFlight.set { q with result := some result } } := by
  have hpq := h.pending q hq
  -- the other calls under way have other keys
  have hother : ∀ p ∈ m.inFlight.values, p.id ≠ q.id → p.slot ≠ q.slot := by
    intro p hp hne hs
    exact hne (h.sole p hp q hq hs)
  constructor
  · apply h.once.append
    intro x hx hs
    exact hpq.waiting hres x hx hs
  · intro x hx
    rcases List.mem_append.1 hx with hold | hone
    · exact h.past x hold
    · rw [List.mem_singleton.1 hone]
  · intro x hx
    rcases List.mem_append.1 hx with hold | hone
    · rcases h.covered x hold with hgone | hrow | ⟨p, hp, hps, hpr⟩
      · exact .inl hgone
      · exact .inr (.inl hrow)
      · by_cases he : p.id = q.id
        · cases Table.eq_of_key hp hq he
          rw [hres] at hpr
          cases hpr
        · exact .inr (.inr ⟨p, Table.mem_set_of_ne hp he, hps, hpr⟩)
    · rw [List.mem_singleton.1 hone]
      exact .inr (.inr ⟨_, Table.mem_set_self _ _, rfl, rfl⟩)
  · exact h.replayed
  · exact h.seen
  · exact h.replayable
  · intro p hp p' hp' hs
    rcases Table.mem_set hp with rfl | hold
    · rcases Table.mem_set hp' with rfl | hold'
      · rfl
      · exact h.sole q hq p' hold' hs
    · rcases Table.mem_set hp' with rfl | hold'
      · exact h.sole p hold q hq hs
      · exact h.sole p hold p' hold' hs
  · intro p hp
    by_cases he : p.id = q.id
    · cases Table.eq_of_key hp (Table.mem_set_self _ _) he
      constructor
      · exact hpq.seen
      · exact hpq.missed
      · intro hn
        cases hn
      · intro r hr
        cases hr
        exact hfit
    · have hold : p ∈ m.inFlight.values := by
        rcases Table.mem_set hp with rfl | hold
        · exact absurd rfl he
        · exact hold
      have hpp := h.pending p hold
      constructor
      · exact hpp.seen
      · exact hpp.missed
      · intro hn x hx hs
        rcases List.mem_append.1 hx with hran | hone
        · exact hpp.waiting hn x hran hs
        · rw [List.mem_singleton.1 hone] at hs
          exact absurd hs.symm (hother p hold he)
      · exact hpp.fits

theorem Exact.record (h : Exact v m) (hav : v.available = true) {q : Request α ρ}
    (hq : q ∈ m.inFlight.values) {result : ρ} (hres : q.result = some result)
    (habs : m.table.contains q.slot = false) :
    Exact v { m with
      table := idempotencyRecord v m.now q.slot result m.table
      inFlight := m.inFlight.pop q.id
      replies := m.replies ++ [⟨q.slot, q.startedAt, q.seen, result, m.now⟩] } := by
  have hpq := h.pending q hq
  obtain ⟨code, hrec⟩ := record_absent m.now hav habs (hpq.fits result hres)
  rw [hrec]
  let row : IdempotencyRow := ⟨q.slot, code, v.json.dumps result, m.now⟩
  have hnone : m.table.get? q.slot = none := by
    rw [Table.contains] at habs
    exact Option.not_isSome_iff_eq_none.1 (Bool.eq_false_iff.1 habs)
  have hkeep : ∀ {slot old}, m.table.get? slot = some old → (m.table.set row).get? slot = some old := by
    intro slot old hold
    have hne : q.slot ≠ slot := by
      rintro rfl
      rw [hnone] at hold
      cases hold
    rw [Table.get?_set_ne m.table (v := row) hne, hold]
  constructor
  · exact h.once
  · exact h.past
  · intro x hx
    rcases h.covered x hx with hgone | ⟨old, hold, hle⟩ | ⟨p, hp, hps, hpr⟩
    · exact .inl hgone
    · exact .inr (.inl ⟨old, hkeep hold, hle⟩)
    · by_cases he : p.id = q.id
      · cases Table.eq_of_key hp hq he
        refine .inr (.inl ⟨row, ?_, h.past x hx⟩)
        rw [← hps]
        exact Table.get?_set_self _ row
      · exact .inr (.inr ⟨p, Table.mem_pop_of_ne hp he, hps, hpr⟩)
  · apply h.replayed.append h.seen hpq.seen
    intro r hr hs hlt
    exact absurd hlt (Nat.not_lt.2 (hpq.missed r hr hs))
  · intro p hp
    rw [List.length_append]
    rcases List.mem_append.1 hp with hold | hone
    · exact Nat.le_add_right_of_le (h.seen p hold)
    · rw [List.mem_singleton.1 hone]
      exact Nat.le_add_right_of_le hpq.seen
  · intro r hr
    rcases List.mem_append.1 hr with hold | hone
    · rcases h.replayable r hold with hgone | ⟨old, hrow, hat, hbody⟩
      · exact .inl hgone
      · exact .inr ⟨old, hkeep hrow, hat, hbody⟩
    · rw [List.mem_singleton.1 hone]
      exact .inr ⟨row, Table.get?_set_self _ row, rfl, v.json.loads_dumps result⟩
  · intro p hp p' hp' hs
    exact h.sole p (Table.mem_pop hp) p' (Table.mem_pop hp') hs
  · intro p hp
    exact (h.pending p (Table.mem_pop hp)).after v rfl (Nat.le_refl _) _ rfl

end Steps

theorem ServerAction.step_exact (hav : v.available = true)
    (hfit : ∀ args memory result, (v.memorySave args memory).1 = .ok result →
      (v.json.dumps result).utf8ByteSize ≤ MAX_RESPONSE_BYTES)
    (a : ServerAction α) (m : Server α σ ρ) (h : Exact v m) (hal : a.allowed v m = true) :
    Exact v (a.step v m) := by
  cases a with
  | begin id slot args =>
    simp only [ServerAction.step]
    split
    · exact h
    · next hfree =>
      split
      · exact h
      · next hc => exact h.hit hc
      · next hc =>
        simp only [ServerAction.allowed, checkSettles, hc, List.all_eq_true, decide_eq_true_eq] at hal
        exact h.miss rfl rfl rfl hc (Bool.eq_false_iff.2 hfree) hal
  | execute id =>
    simp only [ServerAction.step]
    split
    · exact h
    · next q hq =>
      split
      · exact h
      · next hres =>
        simp only [ServerAction.allowed, hq, Option.all_some] at hal
        cases hs : v.memorySave q.args m.memory with
        | mk out memory =>
          cases out with
          | error e =>
            rw [hs] at hal
            cases hal
          | ok result =>
            apply h.execute (Table.mem_of_get? hq) (Option.not_isSome_iff_eq_none.1 hres) memory
            apply hfit q.args m.memory
            rw [hs]
  | record id =>
    simp only [ServerAction.step]
    split
    · exact h
    · next q hq =>
      split
      · exact h
      · next result hres =>
        simp only [ServerAction.allowed, hq, Option.all_some, Bool.not_eq_true'] at hal
        cases Table.key_of_get? hq
        exact h.record hav (Table.mem_of_get? hq) hres hal
  | sweep hours =>
    simp only [ServerAction.allowed, decide_eq_true_eq] at hal
    exact h.sweep hal
  | tick d => exact h.tick d

/-- In every interleaving whose steps are allowed where they are taken, a key runs its save once in
a window and replays its response. -/
theorem replays_once (now : Stamp) (memory : σ) (actions : List (ServerAction α))
    (hav : v.available = true)
    (hfit : ∀ args memory result, (v.memorySave args memory).1 = .ok result →
      (v.json.dumps result).utf8ByteSize ≤ MAX_RESPONSE_BYTES)
    (hal : Allowed (ServerAction.step v) (ServerAction.allowed v) actions { now, memory }) :
    let m := runSteps (ServerAction.step v) actions { now, memory }
    OncePerWindow v.ttl m.runs ∧ Replayed v.ttl m.replies := by
  have hstart : Exact v ({ now, memory } : Server α σ ρ) := by
    constructor
    · exact List.Pairwise.nil
    all_goals
      intro x hx
      cases hx
  have hend := Allowed.keeps (ServerAction.step_exact v hav hfit) hstart hal
  exact ⟨hend.once, hend.replayed⟩

/-- A server whose every save succeeds; bodies are kept as their text. -/
def savingService : Service Unit Nat String where
  json := ⟨id, some, fun text => "\x7b\"error\"".isPrefixOf text, fun _ => rfl⟩
  memorySave _ saves := (.ok "\x7b\"status\": \"saved\"\x7d", saves + 1)

def retrySlot : IdempotencySlot := ⟨"7f2c", "project", "memory_save"⟩

def call (id : Nat) : List (ServerAction Unit) :=
  [.begin id retrySlot (), .execute id, .record id]

/-- A call, its retry an hour later, and another after the response has expired and was swept. -/
theorem replays_once_retried :
    let m := runSteps (ServerAction.step savingService)
      (call 0 ++ [.tick 3600] ++ call 1 ++ [.tick 90000, .sweep none] ++ call 2)
      { now := 0, memory := 0 }
    OncePerWindow savingService.ttl m.runs ∧ Replayed savingService.ttl m.replies := by
  apply replays_once savingService 0 0 _ rfl
  · intro args memory result h
    cases h
    decide +kernel
  · decide +kernel

/-- A retry that checks before the first call has recorded; and an expired row in the way of a
response that is then not recorded. -/
theorem save_reprocessed :
    ¬ OncePerWindow savingService.ttl (runSteps (ServerAction.step savingService)
        [.begin 0 retrySlot (), .begin 1 retrySlot (), .execute 0, .execute 1, .record 0, .record 1]
        { now := 0, memory := 0 }).runs ∧
      ¬ OncePerWindow savingService.ttl (runSteps (ServerAction.step savingService)
        (call 0 ++ [.tick 90000] ++ call 1 ++ [.tick 60] ++ call 2) { now := 0, memory := 0 }).runs := by
  simp only [OncePerWindow]
  decide +kernel

section Alone
variable {v} {m : Server α σ ρ} {id : Nat}

theorem execute_absent (h : m.inFlight.get? id = none) :
    runSteps (ServerAction.step v) [.execute id, .record id] m = m := by
  simp only [runSteps, ServerAction.step, h]

/-- A call that nothing interrupts does what the tool does. -/
theorem memorySaveTool_alone {c : ToolCall α} {slot : IdempotencySlot}
    (hact : c.idemActive = some slot) (hfree : m.inFlight.get? id = none) :
    let out := memorySaveTool v m.now c (m.table, m.memory)
    let m' := runSteps (ServerAction.step v) [.begin id slot c.args, .execute id, .record id] m
    (m'.table, m'.memory) = out.2 ∧
      ∀ result, out.1 = .ok result → ∃ q, m'.replies = m.replies ++ [q] ∧ q.response = result := by
  have hcont : m.inFlight.contains id = false := by rw [Table.contains, hfree]; rfl
  have hbegin : ServerAction.step v (.begin id slot c.args) m =
      match IdempotencyStore.check v m.now slot m.table with
      | .error _ => m
      | .ok (some (_, body)) => { m with replies := m.replies ++ [replayOf m slot body] }
      | .ok none => { m with inFlight := m.inFlight.set ⟨id, slot, c.args, m.now, m.replies.length, none⟩ } := by
    simp only [ServerAction.step, hcont, Bool.false_eq_true, if_false]
  intro out m'
  simp only [out, m']
  rw [runSteps, hbegin]
  simp only [memorySaveTool, hact]
  cases hc : IdempotencyStore.check v m.now slot m.table with
  | error e =>
    rw [execute_absent hfree]
    refine ⟨rfl, ?_⟩
    intro result h
    cases h
  | ok found =>
    cases found with
    | some found =>
      obtain ⟨status, body⟩ := found
      dsimp only
      rw [execute_absent (m := { m with replies := m.replies ++ [replayOf m slot body] }) hfree]
      refine ⟨rfl, ?_⟩
      intro result h
      cases h
      exact ⟨replayOf m slot body, rfl, rfl⟩
    | none =>
      simp only [runSteps, ServerAction.step, Table.get?_set, if_true, Option.isSome_none,
        Bool.false_eq_true, if_false]
      cases hs : v.memorySave c.args m.memory with
      | mk out memory =>
        cases out with
        | error e =>
          simp [Table.get?_pop]
        | ok result =>
          simp [Table.get?_set]

end Alone

end TappsBrain
