import TappsBrain.Hydration

namespace TappsBrain
open Lib
set_option autoImplicit true
set_option relaxedAutoImplicit false

namespace CallStage

/-- The key that has left the cache and is not noted as removed yet. -/
def removing : CallStage → Option String
  | .removeRow key _ => some key
  | .removeRelations key _ => some key
  | .note key _ => some key
  | .putBack key _ => some key
  | _ => none

/-- As `removing`, until the row is written back where it has to be. -/
def leaving : CallStage → Option String
  | .saveBack key => some key
  | stage => stage.removing

/-- The cached key whose row is still to be written. -/
def owes : CallStage → Option String
  | .persist key _ => some key
  | .rollback key _ => some key
  | .saveBack key => some key
  | _ => none

/-- The rows a fill has loaded, with the epoch its snapshot was taken at. -/
def loaded : CallStage → Option (Nat × List String)
  | .insertOne key epoch _ => some (epoch, [key])
  | .fill epoch rows _ => some (epoch, rows)
  | _ => none

def epoch : CallStage → Option Nat
  | .loadOne _ epoch _ => some epoch
  | .insertOne _ epoch _ => some epoch
  | .loadAll epoch _ _ => some epoch
  | .fill epoch _ _ => some epoch
  | _ => none

end CallStage

namespace Hydration

/-- What the calls under way hold. -/
def held (s : Hydration) (f : CallStage → Option α) : List α :=
  s.calls.values.filterMap (fun c => f c.stage)

theorem mem_held {s : Hydration} {f : CallStage → Option α} {a : α} :
    a ∈ s.held f ↔ ∃ c ∈ s.calls.values, f c.stage = some a :=
  List.mem_filterMap

section Restage
variable {s : Hydration} {id : Nat} {next : Option CallStage} {f : CallStage → Option α} {a : α}

theorem held_restage (h : a ∈ (s.restage id next).held f) :
    a ∈ s.held f ∨ ∃ stage, next = some stage ∧ f stage = some a := by
  obtain ⟨c, hc, ha⟩ := mem_held.1 h
  cases next with
  | none => exact .inl (mem_held.2 ⟨c, Table.mem_pop hc, ha⟩)
  | some stage =>
    obtain rfl | hc := Table.mem_set hc
    · exact .inr ⟨stage, rfl, ha⟩
    · exact .inl (mem_held.2 ⟨c, hc, ha⟩)

theorem held_of_held {call : OpenCall} (hcall : s.calls.get? id = some call) (h : a ∈ s.held f) :
    a ∈ (s.restage id next).held f ∨ f call.stage = some a := by
  obtain ⟨c, hc, ha⟩ := mem_held.1 h
  by_cases hid : c.id = id
  · right
    subst hid
    have hsame := (Table.mem_iff_get?.1 hc).symm.trans hcall
    cases hsame
    exact ha
  · left
    apply mem_held.2
    refine ⟨c, ?_, ha⟩
    cases next with
    | none => exact Table.mem_pop_of_ne hc hid
    | some stage => exact Table.mem_set_of_ne hc hid

theorem held_next {stage : CallStage} (ha : f stage = some a) :
    a ∈ (s.restage id (some stage)).held f :=
  mem_held.2 ⟨⟨id, stage⟩, Table.mem_set_self _ _, ha⟩

end Restage

/-- What holds in every state of a run: a cached key is stored or about to be, a key that is being
removed is not cached, and of a loaded row that is gone either a fill will know or its removal is
under way. -/
structure Sound (s : Hydration) : Prop where
  stored : ∀ key ∈ s.shared.cache, key ∈ s.shared.durable ∨ key ∈ s.held CallStage.owes
  apart : ∀ key ∈ s.held CallStage.removing, key ∉ s.shared.cache
  loaded : ∀ rows ∈ s.held CallStage.loaded, ∀ key ∈ rows.2, key ∈ s.shared.durable ∨
    rows.1 < s.shared.tombstone key ∨ key ∈ s.held CallStage.leaving
  epochs : ∀ epoch ∈ s.held CallStage.epoch, epoch ≤ s.shared.removalEpoch

section Sound
variable {s : Hydration} {id : Nat} {key : String} {m : Shared}

theorem Sound.lock (h : Sound s) (lock : Option Nat) :
    Sound { s with shared := { s.shared with lock := lock } } :=
  ⟨h.stored, h.apart, h.loaded, h.epochs⟩

theorem Sound.popped (h : Sound s) (key : String) :
    Sound { s with shared := s.shared.popped key } := by
  refine ⟨?_, ?_, h.loaded, h.epochs⟩
  · intro k hk
    exact h.stored k (List.mem_filter.1 hk).1
  · intro k hk hcached
    exact h.apart k hk (List.mem_filter.1 hcached).1

theorem Sound.cached (h : Sound s) (hstored : key ∈ s.shared.durable ∨ key ∈ s.held CallStage.owes)
    (hremoving : key ∉ s.held CallStage.removing) :
    Sound { s with shared := s.shared.cached key } := by
  refine ⟨?_, ?_, h.loaded, h.epochs⟩
  · intro k hk
    obtain rfl | hk := List.mem_insert_iff.1 hk
    · exact hstored
    · exact h.stored k hk
  · intro k hk hcached
    obtain rfl | hcached := List.mem_insert_iff.1 hcached
    · exact hremoving hk
    · exact h.apart k hk hcached

theorem mem_saved {k : String} (h : k ∈ m.durable) : k ∈ (m.saved key).durable := by
  by_cases heq : k = key
  · subst heq
    exact List.mem_cons_self
  · exact List.mem_cons_of_mem _ (List.mem_filter.2 ⟨h, decide_eq_true heq⟩)

theorem Sound.saved (h : Sound s) (key : String) :
    Sound { s with shared := s.shared.saved key } := by
  refine ⟨?_, h.apart, ?_, h.epochs⟩
  · intro k hk
    exact (h.stored k hk).imp_left mem_saved
  · intro rows hrows k hk
    exact (h.loaded rows hrows k hk).imp_left mem_saved

theorem mem_deleted (key : String) {k : String} (h : k ∈ m.durable) :
    k = key ∨ k ∈ (m.deleted key).durable := by
  by_cases heq : k = key
  · exact .inl heq
  · exact .inr (List.mem_filter.2 ⟨h, decide_eq_true heq⟩)

theorem Sound.deleted (h : Sound s) (hcache : key ∉ s.shared.cache)
    (hloaded : ∀ rows ∈ s.held CallStage.loaded, key ∈ rows.2 →
      rows.1 < s.shared.tombstone key ∨ key ∈ s.held CallStage.leaving) :
    Sound { s with shared := s.shared.deleted key } := by
  refine ⟨?_, h.apart, ?_, h.epochs⟩
  · intro k hk
    obtain hstored | howed := h.stored k hk
    · obtain rfl | hstored := mem_deleted key hstored
      · exact absurd hk hcache
      · exact .inl hstored
    · exact .inr howed
  · intro rows hrows k hk
    obtain hstored | hgone := h.loaded rows hrows k hk
    · obtain rfl | hstored := mem_deleted key hstored
      · exact .inr (hloaded rows hrows hk)
      · exact .inl hstored
    · exact .inr hgone

theorem lookup_filter {l : List (String × Nat)} {p : String × Nat → Bool} {n : Nat}
    (h : l.lookup key = some n) (hp : p (key, n) = true) : (l.filter p).lookup key = some n := by
  induction l with
  | nil => cases h
  | cons t rest ih =>
    obtain ⟨j, e⟩ := t
    by_cases heq : key = j
    · subst heq
      rw [List.lookup_cons_self] at h
      cases h
      rw [List.filter_cons_of_pos hp, List.lookup_cons_self]
    · have hbeq : (key == j) = false := beq_false_of_ne heq
      rw [List.lookup_cons, hbeq] at h
      by_cases hpj : p (j, e) = true
      · rw [List.filter_cons_of_pos hpj, List.lookup_cons, hbeq]
        exact ih h
      · rw [List.filter_cons_of_neg hpj]
        exact ih h

/-- A pruning that reaches no snapshot of a call under way. -/
def KeepsSnapshots (s : Hydration) (key : String) : Prop :=
  4096 < (s.shared.notedAt key).length →
    ∀ rows ∈ s.held CallStage.loaded, Shared.cutoff (s.shared.notedAt key) ≤ rows.1

theorem lookup_noteRemoved {n : Nat} {k : String} (h : (m.notedAt key).lookup k = some n)
    (hcut : 4096 < (m.notedAt key).length → Shared.cutoff (m.notedAt key) < n) :
    (m.noteRemoved key).tombstone k = n := by
  simp only [Shared.tombstone, Shared.noteRemoved]
  split
  · next hlong =>
    rw [lookup_filter h (decide_eq_true (hcut hlong))]
    rfl
  · rw [h]
    rfl

theorem epoch_of_loaded {stage : CallStage} {rows : Nat × List String}
    (h : stage.loaded = some rows) : stage.epoch = some rows.1 := by
  cases stage with
  | insertOne =>
    cases h
    rfl
  | fill =>
    cases h
    rfl
  | _ => cases h

theorem Sound.loaded_le (h : Sound s) {rows : Nat × List String}
    (hrows : rows ∈ s.held CallStage.loaded) : rows.1 ≤ s.shared.removalEpoch := by
  obtain ⟨c, hc, hloaded⟩ := mem_held.1 hrows
  exact h.epochs _ (mem_held.2 ⟨c, hc, epoch_of_loaded hloaded⟩)

theorem tombstone_noted (h : Sound s) (hkeeps : KeepsSnapshots s key) {rows : Nat × List String}
    (hrows : rows ∈ s.held CallStage.loaded) :
    rows.1 < (s.shared.noteRemoved key).tombstone key := by
  have hle := h.loaded_le hrows
  have hnoted : (s.shared.notedAt key).lookup key = some (s.shared.removalEpoch + 1) :=
    List.lookup_cons_self
  rw [lookup_noteRemoved hnoted]
  · omega
  · intro hlong
    have hcut := hkeeps hlong rows hrows
    omega

/-- The tombstones that count for a fill stay. -/
theorem tombstone_noteRemoved (h : Sound s) (hkeeps : KeepsSnapshots s key)
    {rows : Nat × List String} (hrows : rows ∈ s.held CallStage.loaded) {k : String}
    (hk : rows.1 < s.shared.tombstone k) : rows.1 < (s.shared.noteRemoved key).tombstone k := by
  by_cases heq : k = key
  · subst heq
    exact tombstone_noted h hkeeps hrows
  · cases hlookup : s.shared.removedAt.lookup k with
    | none =>
      rw [Shared.tombstone, hlookup] at hk
      cases hk
    | some n =>
      rw [Shared.tombstone, hlookup, Option.getD_some] at hk
      have hnoted : (s.shared.notedAt key).lookup k = some n := by
        have hbeq : (k == key) = false := beq_false_of_ne heq
        rw [Shared.notedAt, List.lookup_cons, hbeq]
        exact lookup_filter hlookup (decide_eq_true heq)
      rw [lookup_noteRemoved hnoted]
      · exact hk
      · intro hlong
        exact lt_of_le_of_lt (hkeeps hlong rows hrows) hk

theorem Sound.noteRemoved (h : Sound s) (hkeeps : KeepsSnapshots s key) :
    Sound { s with shared := s.shared.noteRemoved key } := by
  refine ⟨h.stored, h.apart, ?_, ?_⟩
  · intro rows hrows k hk
    obtain hstored | htombstone | hleaving := h.loaded rows hrows k hk
    · exact .inl hstored
    · exact .inr (.inl (tombstone_noteRemoved h hkeeps hrows htombstone))
    · exact .inr (.inr hleaving)
  · intro epoch hepoch
    exact Nat.le_succ_of_le (h.epochs epoch hepoch)

/-- A fill adds only what may enter. -/
theorem Sound.fillRows {epoch : Nat} {rows : List String} {room : Option Nat} (h : Sound s)
    (hrows : ∀ k ∈ rows, s.shared.mayEnter epoch k = true →
      (k ∈ s.shared.durable ∨ k ∈ s.held CallStage.owes) ∧ k ∉ s.held CallStage.removing) :
    Sound { s with shared := s.shared.fillRows epoch rows room } := by
  induction rows generalizing s room with
  | nil => exact h
  | cons k rest ih =>
    have hrest := fun j hj => hrows j (List.mem_cons_of_mem k hj)
    have hadded (hmay : s.shared.mayEnter epoch k = true) (room : Option Nat) :
        Sound { s with shared := (s.shared.cached k).fillRows epoch rest room } := by
      obtain ⟨hstored, hremoving⟩ := hrows k List.mem_cons_self hmay
      apply ih (h.cached hstored hremoving)
      intro j hj hmayj
      apply hrest j hj
      simp only [Shared.mayEnter, Bool.and_eq_true, Bool.not_eq_true'] at hmayj ⊢
      refine ⟨?_, hmayj.2⟩
      rw [Bool.eq_false_iff] at hmayj ⊢
      intro hcontains
      apply hmayj.1
      rw [List.contains_iff_mem] at hcontains ⊢
      exact List.mem_insert_of_mem hcontains
    simp only [Shared.fillRows]
    split
    · next hmay =>
      split
      · exact hadded hmay none
      · exact ih h hrest
      · exact hadded hmay _
    · exact ih h hrest

/-- A call may go on when it leaves nothing open that others count on. -/
theorem Sound.restage (h : Sound s) {call : OpenCall} (hcall : s.calls.get? id = some call)
    {next : Option CallStage}
    (howes : ∀ k, call.stage.owes = some k → k ∈ s.shared.cache →
      k ∈ s.shared.durable ∨ ∃ stage, next = some stage ∧ stage.owes = some k)
    (hremoving : ∀ stage k, next = some stage → stage.removing = some k → k ∉ s.shared.cache)
    (hleaving : ∀ k, call.stage.leaving = some k → k ∈ s.shared.durable ∨
      (∃ stage, next = some stage ∧ stage.leaving = some k) ∨
      ∀ rows ∈ s.held CallStage.loaded, k ∈ rows.2 → rows.1 < s.shared.tombstone k)
    (hloaded : ∀ stage rows, next = some stage → stage.loaded = some rows →
      ∀ k ∈ rows.2, k ∈ s.shared.durable)
    (hepoch : ∀ stage epoch, next = some stage → stage.epoch = some epoch →
      epoch ≤ s.shared.removalEpoch) :
    Sound (s.restage id next) := by
  have hnext {f : CallStage → Option String} {k : String}
      (hk : ∃ stage, next = some stage ∧ f stage = some k) : k ∈ (s.restage id next).held f := by
    obtain ⟨stage, rfl, hk⟩ := hk
    exact held_next hk
  constructor
  · intro k hk
    obtain hstored | howed := h.stored k hk
    · exact .inl hstored
    · have howed' : k ∈ (s.restage id next).held CallStage.owes ∨ call.stage.owes = some k :=
        held_of_held hcall howed
      obtain howed | howed := howed'
      · exact .inr howed
      · exact (howes k howed hk).imp_right hnext
  · intro k hk
    obtain hk | ⟨stage, hstage, hk⟩ := held_restage hk
    · exact h.apart k hk
    · exact hremoving stage k hstage hk
  · intro rows hrows k hk
    obtain hrows | ⟨stage, hstage, hrows⟩ := held_restage hrows
    · obtain hstored | htombstone | hk' := h.loaded rows hrows k hk
      · exact .inl hstored
      · exact .inr (.inl htombstone)
      · have hleaves : k ∈ (s.restage id next).held CallStage.leaving ∨
            call.stage.leaving = some k := held_of_held hcall hk'
        obtain hk' | hk' := hleaves
        · exact .inr (.inr hk')
        · obtain hstored | hleaves | htombstone := hleaving k hk'
          · exact .inl hstored
          · exact .inr (.inr (hnext hleaves))
          · exact .inr (.inl (htombstone rows hrows hk))
    · exact .inl (hloaded stage rows hstage hrows k hk)
  · intro epoch hepoch'
    obtain hepoch' | ⟨stage, hstage, hepoch'⟩ := held_restage hepoch'
    · exact h.epochs epoch hepoch'
    · exact hepoch stage epoch hstage hepoch'

/-- A part after which nothing is held. -/
theorem Sound.idle (h : Sound s) {call : OpenCall} (hcall : s.calls.get? id = some call)
    {next : Option CallStage}
    (howes : ∀ k, call.stage.owes = some k → k ∈ s.shared.cache → k ∈ s.shared.durable)
    (hleaving : ∀ k, call.stage.leaving = some k → k ∈ s.shared.durable ∨
      ∀ rows ∈ s.held CallStage.loaded, k ∈ rows.2 → rows.1 < s.shared.tombstone k)
    (hnext : ∀ stage, next = some stage →
      stage.removing = none ∧ stage.loaded = none ∧ stage.epoch = none) :
    Sound (s.restage id next) := by
  apply h.restage hcall
  · exact fun k hk hcached => .inl (howes k hk hcached)
  · intro stage k hstage hk
    rw [(hnext stage hstage).1] at hk
    cases hk
  · intro k hk
    obtain hstored | htombstone := hleaving k hk
    · exact .inl hstored
    · exact .inr (.inr htombstone)
  · intro stage rows hstage hrows
    rw [(hnext stage hstage).2.1] at hrows
    cases hrows
  · intro stage epoch hstage hepoch
    rw [(hnext stage hstage).2.2] at hepoch
    cases hepoch

/-- A part that only takes a call from one quiet stage to another. -/
theorem Sound.quiet (h : Sound s) {call : OpenCall} (hcall : s.calls.get? id = some call)
    {next : Option CallStage} (howes : call.stage.owes = none) (hleaving : call.stage.leaving = none)
    (hnext : ∀ stage, next = some stage →
      stage.removing = none ∧ stage.loaded = none ∧ stage.epoch = none) :
    Sound (s.restage id next) := by
  apply h.idle hcall _ _ hnext
  · intro k hk
    rw [howes] at hk
    cases hk
  · intro k hk
    rw [hleaving] at hk
    cases hk

/-- A part that reads what a fill will need. -/
theorem Sound.reads (h : Sound s) {call : OpenCall} (hcall : s.calls.get? id = some call)
    {next : CallStage} (howes : call.stage.owes = none) (hleaving : call.stage.leaving = none)
    (hremoving : next.removing = none)
    (hloaded : ∀ rows, next.loaded = some rows → ∀ k ∈ rows.2, k ∈ s.shared.durable)
    (hepoch : ∀ epoch, next.epoch = some epoch → epoch ≤ s.shared.removalEpoch) :
    Sound (s.restage id (some next)) := by
  apply h.restage hcall
  · intro k hk
    rw [howes] at hk
    cases hk
  · intro stage k hstage hk
    cases hstage
    rw [hremoving] at hk
    cases hk
  · intro k hk
    rw [hleaving] at hk
    cases hk
  · intro stage rows hstage hrows
    cases hstage
    exact hloaded rows hrows
  · intro stage epoch hstage he
    cases hstage
    exact hepoch epoch he

theorem Sound.stays (h : Sound s) {call : OpenCall} (hcall : s.calls.get? id = some call) :
    Sound (s.restage id (some call.stage)) := by
  have hsame : s.restage id (some call.stage) = s := by
    obtain ⟨callId, stage⟩ := call
    have hid : callId = id := Table.key_of_get? hcall
    subst hid
    simp only [Hydration.restage]
    rw [Table.set_of_get? hcall]
  rw [hsame]
  exact h

theorem found_quiet (key : String) (after : AfterLookup) :
    ∀ stage, after.found key = some stage →
      stage.removing = none ∧ stage.loaded = none ∧ stage.epoch = none := by
  intro stage hstage
  cases after with
  | returns => cases hstage
  | deletes =>
    cases hstage
    exact ⟨rfl, rfl, rfl⟩
  | saves =>
    cases hstage
    exact ⟨rfl, rfl, rfl⟩

theorem missing_quiet (key : String) (after : AfterLookup) :
    ∀ stage, after.missing key = some stage →
      stage.removing = none ∧ stage.loaded = none ∧ stage.epoch = none := by
  intro stage hstage
  cases after with
  | returns => cases hstage
  | deletes => cases hstage
  | saves =>
    cases hstage
    exact ⟨rfl, rfl, rfl⟩

/-- What a part must not do: put a key into the cache while a removal of it is under way, or where
its row is gone; prune a tombstone, or delete a row without one, that a fill under way counts on;
lose a row that was put back. -/
def allowedPart (s : Hydration) (id : Nat) (choice : Choice) : CallStage → Prop
  | .insertOne key epoch _ => s.shared.mayEnter epoch key = true → key ∉ s.held CallStage.removing
  | .fill epoch rows _ => ∀ key ∈ rows, s.shared.mayEnter epoch key = true →
      key ∉ s.held CallStage.removing
  | .note key _ => KeepsSnapshots s key
  | .putBack key rowGone =>
    key ∉ (s.restage id none).held CallStage.removing ∧
      (rowGone = false → key ∈ s.shared.durable)
  | .saveBack key => choice = .fail → key ∈ s.shared.durable
  | .caps key _ => choice = .go → key ∉ s.held CallStage.removing
  | .dropCheck key => key ∉ s.shared.cache → ∀ rows ∈ s.held CallStage.loaded, key ∈ rows.2 →
      rows.1 < s.shared.tombstone key
  | .rollback key existed => existed = true →
      key ∈ s.shared.durable ∧ key ∉ s.held CallStage.removing
  | _ => True

/-- The state after a part, before a lock is given back. -/
def after (s : Hydration) (id : Nat) (p : Option CallStage × Shared) : Hydration :=
  { s with shared := p.2 }.restage id p.1

section Advance
variable {cap : Nat} {call : OpenCall} {choice : Choice} {lookup : AfterLookup} {epoch : Nat}
  {rows : List String} {filler : Filler} {remover : Remover} {existed rowGone : Bool}

theorem Sound.lookup_part (h : Sound s) (hcall : s.calls.get? id = some ⟨id, .lookup key lookup⟩) :
    Sound (s.after id ((CallStage.lookup key lookup).advance cap id choice s.shared)) := by
  cases choice with
  | go =>
    simp only [CallStage.advance]
    split
    · exact h.quiet hcall rfl rfl (found_quiet key lookup)
    · apply h.reads hcall rfl rfl rfl
      · intro loaded hloaded
        cases hloaded
      · intro e he
        cases he
        exact le_refl _
  | _ => exact h.stays hcall

theorem Sound.loadOne_part (h : Sound s)
    (hcall : s.calls.get? id = some ⟨id, .loadOne key epoch lookup⟩) :
    Sound (s.after id ((CallStage.loadOne key epoch lookup).advance cap id choice s.shared)) := by
  cases choice with
  | go =>
    simp only [CallStage.advance]
    split
    · next hstored =>
      have hepoch : epoch ≤ s.shared.removalEpoch :=
        h.epochs epoch (mem_held.2 ⟨_, Table.mem_of_get? hcall, rfl⟩)
      apply h.reads hcall rfl rfl rfl
      · intro loaded hloaded k hk
        cases hloaded
        rw [List.mem_singleton] at hk
        subst hk
        exact List.contains_iff_mem.1 hstored
      · intro e he
        cases he
        exact hepoch
    · exact h.quiet hcall rfl rfl (missing_quiet key lookup)
  | fail =>
    apply h.quiet hcall rfl rfl
    intro stage hstage
    cases hstage
  | _ => exact h.stays hcall

/-- What may enter from the rows of a fill is stored, once no removal of it is under way. -/
theorem Sound.enters (h : Sound s) {rows : Nat × List String}
    (hrows : rows ∈ s.held CallStage.loaded) {k : String} (hk : k ∈ rows.2)
    (hmay : s.shared.mayEnter rows.1 k = true) (hremoving : k ∉ s.held CallStage.removing) :
    k ∈ s.shared.durable ∨ k ∈ s.held CallStage.owes := by
  simp only [Shared.mayEnter, Bool.and_eq_true, decide_eq_true_eq] at hmay
  obtain hstored | htombstone | hleaving := h.loaded rows hrows k hk
  · exact .inl hstored
  · exact absurd hmay.2 (Nat.not_le.2 htombstone)
  · right
    obtain ⟨c, hc, hleaves⟩ := mem_held.1 hleaving
    apply mem_held.2
    refine ⟨c, hc, ?_⟩
    cases hstage : c.stage with
    | saveBack =>
      rw [hstage] at hleaves
      exact hleaves
    | _ =>
      exact absurd (mem_held.2 ⟨c, hc, by rw [hstage] at hleaves ⊢; exact hleaves⟩) hremoving

theorem Sound.insertOne_part (h : Sound s)
    (hcall : s.calls.get? id = some ⟨id, .insertOne key epoch lookup⟩)
    (hallowed : allowedPart s id choice (.insertOne key epoch lookup)) :
    Sound (s.after id ((CallStage.insertOne key epoch lookup).advance cap id choice s.shared)) := by
  have hloaded : (epoch, [key]) ∈ s.held CallStage.loaded :=
    mem_held.2 ⟨_, Table.mem_of_get? hcall, rfl⟩
  cases choice with
  | go =>
    simp only [CallStage.advance]
    split
    · exact h.quiet hcall rfl rfl (found_quiet key lookup)
    · split
      · next hmay =>
        have hremoving := hallowed hmay
        have hstored := h.enters hloaded (List.mem_singleton_self key) hmay hremoving
        exact (h.cached hstored hremoving).quiet hcall rfl rfl (found_quiet key lookup)
      · exact h.quiet hcall rfl rfl (missing_quiet key lookup)
  | _ => exact h.stays hcall

theorem Sound.snapshot_part {limit : Option Nat} {overCap : Bool} (h : Sound s)
    (hcall : s.calls.get? id = some ⟨id, .snapshot limit overCap⟩) :
    Sound (s.after id ((CallStage.snapshot limit overCap).advance cap id choice s.shared)) := by
  cases choice with
  | go =>
    simp only [CallStage.advance]
    split
    · apply h.quiet hcall rfl rfl
      intro stage hstage
      cases hstage
    · apply h.reads hcall rfl rfl rfl
      · intro loaded hloaded
        cases hloaded
      · intro e he
        cases he
        exact le_refl _
  | _ => exact h.stays hcall

theorem Sound.loadAll_part {limit : Option Nat} (h : Sound s)
    (hcall : s.calls.get? id = some ⟨id, .loadAll epoch limit filler⟩) :
    Sound (s.after id ((CallStage.loadAll epoch limit filler).advance cap id choice s.shared)) := by
  cases choice with
  | go =>
    have hepoch : epoch ≤ s.shared.removalEpoch :=
      h.epochs epoch (mem_held.2 ⟨_, Table.mem_of_get? hcall, rfl⟩)
    apply h.reads hcall rfl rfl rfl
    · intro loaded hloaded k hk
      cases hloaded
      cases limit with
      | none => exact hk
      | some n => exact List.mem_of_mem_take hk
    · intro e he
      cases he
      exact hepoch
  | fail =>
    apply h.quiet hcall rfl rfl
    intro stage hstage
    cases hstage
  | _ => exact h.stays hcall

theorem Sound.fill_part (h : Sound s) (hcall : s.calls.get? id = some ⟨id, .fill epoch rows filler⟩)
    (hallowed : allowedPart s id choice (.fill epoch rows filler)) :
    Sound (s.after id ((CallStage.fill epoch rows filler).advance cap id choice s.shared)) := by
  have hloaded : (epoch, rows) ∈ s.held CallStage.loaded :=
    mem_held.2 ⟨_, Table.mem_of_get? hcall, rfl⟩
  cases choice with
  | go =>
    have hfilled : Sound { s with
        shared := s.shared.fillRows epoch rows (filler.room cap s.shared) } := by
      apply h.fillRows
      intro k hk hmay
      have hremoving := hallowed k hk hmay
      exact ⟨h.enters hloaded hk hmay hremoving, hremoving⟩
    apply hfilled.quiet hcall rfl rfl
    intro stage hstage
    cases filler with
    | merge => cases hstage
    | count =>
      cases hstage
      exact ⟨rfl, rfl, rfl⟩
  | _ => exact h.stays hcall

/-- A removal that goes on. -/
theorem Sound.continues (h : Sound s) {call : OpenCall} (hcall : s.calls.get? id = some call)
    {next : CallStage} (hkey : call.stage.removing = some key) (hnext : next.removing = some key)
    (howes : call.stage.owes = none) (hleaving : call.stage.leaving = some key)
    (hleaves : next.leaving = some key) (hloaded : next.loaded = none)
    (hepoch : next.epoch = none) : Sound (s.restage id (some next)) := by
  apply h.restage hcall
  · intro k hk
    rw [howes] at hk
    cases hk
  · intro stage k hstage hk
    cases hstage
    cases hnext.symm.trans hk
    exact h.apart key (mem_held.2 ⟨call, Table.mem_of_get? hcall, hkey⟩)
  · intro k hk
    cases hleaving.symm.trans hk
    exact .inr (.inl ⟨next, rfl, hleaves⟩)
  · intro stage rows hstage hrows
    cases hstage
    cases hloaded.symm.trans hrows
  · intro stage epoch hstage he
    cases hstage
    cases hepoch.symm.trans he

theorem Sound.startsRemoval (h : Sound s) {call : OpenCall} (hcall : s.calls.get? id = some call)
    (howes : call.stage.owes = none) (hleaving : call.stage.leaving = none) :
    Sound ({ s with shared := s.shared.popped key }.restage id (some (.removeRow key remover))) := by
  apply (h.popped key).restage hcall
  · intro k hk
    rw [howes] at hk
    cases hk
  · intro stage k hstage hk hcached
    cases hstage
    cases hk
    exact of_decide_eq_true (List.mem_filter.1 hcached).2 rfl
  · intro k hk
    rw [hleaving] at hk
    cases hk
  · intro stage rows hstage hrows
    cases hstage
    cases hrows
  · intro stage epoch hstage he
    cases hstage
    cases he

theorem Sound.pop_part (h : Sound s) (hcall : s.calls.get? id = some ⟨id, .pop key⟩) :
    Sound (s.after id ((CallStage.pop key).advance cap id choice s.shared)) := by
  cases choice with
  | go => exact h.startsRemoval hcall rfl rfl
  | _ => exact h.stays hcall

theorem Sound.removeRow_part (h : Sound s)
    (hcall : s.calls.get? id = some ⟨id, .removeRow key remover⟩) :
    Sound (s.after id ((CallStage.removeRow key remover).advance cap id choice s.shared)) := by
  have hmem := Table.mem_of_get? hcall
  cases choice with
  | go =>
    have hdeleted : Sound { s with shared := s.shared.deleted key } := by
      apply h.deleted
      · exact h.apart key (mem_held.2 ⟨_, hmem, rfl⟩)
      · exact fun _ _ _ => .inr (mem_held.2 ⟨_, hmem, rfl⟩)
    exact hdeleted.continues hcall rfl rfl rfl rfl rfl rfl rfl
  | fail => exact h.continues hcall rfl rfl rfl rfl rfl rfl rfl
  | _ => exact h.stays hcall

theorem Sound.removeRelations_part (h : Sound s)
    (hcall : s.calls.get? id = some ⟨id, .removeRelations key remover⟩) :
    Sound (s.after id ((CallStage.removeRelations key remover).advance cap id choice s.shared)) := by
  cases choice with
  | go => exact h.continues hcall rfl rfl rfl rfl rfl rfl rfl
  | fail => exact h.continues hcall rfl rfl rfl rfl rfl rfl rfl
  | _ => exact h.stays hcall

theorem Sound.note_part (h : Sound s) (hcall : s.calls.get? id = some ⟨id, .note key remover⟩)
    (hallowed : allowedPart s id choice (.note key remover)) :
    Sound (s.after id ((CallStage.note key remover).advance cap id choice s.shared)) := by
  cases choice with
  | go =>
    apply (h.noteRemoved hallowed).idle hcall
    · intro k hk
      cases hk
    · intro k hk
      cases hk
      exact .inr (fun rows hrows _ => tombstone_noted h hallowed hrows)
    · intro stage hstage
      cases remover with
      | delete => cases hstage
      | evict =>
        cases hstage
        exact ⟨rfl, rfl, rfl⟩
  | _ => exact h.stays hcall

theorem Sound.putBack_part (h : Sound s) (hcall : s.calls.get? id = some ⟨id, .putBack key rowGone⟩)
    (hallowed : allowedPart s id choice (.putBack key rowGone)) :
    Sound (s.after id ((CallStage.putBack key rowGone).advance cap id choice s.shared)) := by
  obtain ⟨hothers, hstored⟩ := hallowed
  cases choice with
  | go =>
    cases rowGone with
    | false =>
      have hrestaged : Sound (s.restage id none) := by
        apply h.idle hcall
        · intro k hk
          cases hk
        · intro k hk
          cases hk
          exact .inl (hstored rfl)
        · intro stage hstage
          cases hstage
      exact hrestaged.cached (.inl (hstored rfl)) hothers
    | true =>
      have hrestaged : Sound (s.restage id (some (.saveBack key))) := by
        apply h.restage hcall
        · intro k hk
          cases hk
        · intro stage k hstage hk
          cases hstage
          cases hk
        · intro k hk
          cases hk
          exact .inr (.inl ⟨_, rfl, rfl⟩)
        · intro stage rows hstage hrows
          cases hstage
          cases hrows
        · intro stage epoch hstage he
          cases hstage
          cases he
      apply hrestaged.cached (.inr (held_next rfl))
      intro hkey
      apply hothers
      obtain ⟨c, hc, hremoving⟩ := mem_held.1 hkey
      apply mem_held.2
      refine ⟨c, ?_, hremoving⟩
      have hne : c.id ≠ id := by
        intro hid
        have hself : (s.restage id (some (.saveBack key))).calls.get? c.id =
            some ⟨id, .saveBack key⟩ := hid ▸ Table.get?_set_self _ _
        cases (Table.mem_iff_get?.1 hc).symm.trans hself
        cases hremoving
      obtain rfl | hc := Table.mem_set hc
      · exact absurd rfl hne
      · exact Table.mem_pop_of_ne hc hne
  | _ => exact h.stays hcall

theorem Sound.saveBack_part (h : Sound s) (hcall : s.calls.get? id = some ⟨id, .saveBack key⟩)
    (hallowed : allowedPart s id choice (.saveBack key)) :
    Sound (s.after id ((CallStage.saveBack key).advance cap id choice s.shared)) := by
  cases choice with
  | go =>
    apply (h.saved key).idle hcall
    · intro k hk _
      cases hk
      exact List.mem_cons_self
    · intro k hk
      cases hk
      exact .inl List.mem_cons_self
    · intro stage hstage
      cases hstage
  | fail =>
    have hstored := hallowed rfl
    apply h.idle hcall
    · intro k hk _
      cases hk
      exact hstored
    · intro k hk
      cases hk
      exact .inl hstored
    · intro stage hstage
      cases hstage
  | _ => exact h.stays hcall

theorem Sound.acquire_part (h : Sound s) (hcall : s.calls.get? id = some ⟨id, .acquire key⟩) :
    Sound (s.after id ((CallStage.acquire key).advance cap id choice s.shared)) := by
  cases choice with
  | go =>
    apply (h.lock (some id)).quiet hcall rfl rfl
    intro stage hstage
    cases hstage
    exact ⟨rfl, rfl, rfl⟩
  | _ => exact h.stays hcall

theorem Sound.caps_part (h : Sound s) (hcall : s.calls.get? id = some ⟨id, .caps key existed⟩)
    (hallowed : allowedPart s id choice (.caps key existed)) :
    Sound (s.after id ((CallStage.caps key existed).advance cap id choice s.shared)) := by
  cases choice with
  | go =>
    have hremoving := hallowed rfl
    have hrestaged : Sound (s.restage id (some (.persist key existed))) := by
      apply h.quiet hcall rfl rfl
      intro stage hstage
      cases hstage
      exact ⟨rfl, rfl, rfl⟩
    have hkey : key ∉ (s.restage id (some (.persist key existed))).held CallStage.removing := by
      intro hkey
      obtain hkey | ⟨stage, hstage, hkey⟩ := held_restage hkey
      · exact hremoving hkey
      · cases hstage
        cases hkey
    exact (hrestaged.cached (.inr (held_next rfl)) hkey).lock none
  | fail =>
    apply h.quiet hcall rfl rfl
    intro stage hstage
    cases hstage
  | count =>
    apply h.reads hcall rfl rfl rfl
    · intro loaded hloaded
      cases hloaded
    · intro e he
      cases he
      exact le_refl _
  | evict victim =>
    simp only [CallStage.advance]
    split
    · exact h.startsRemoval hcall rfl rfl
    · exact h.stays hcall

theorem Sound.persist_part (h : Sound s) (hcall : s.calls.get? id = some ⟨id, .persist key existed⟩) :
    Sound (s.after id ((CallStage.persist key existed).advance cap id choice s.shared)) := by
  cases choice with
  | go =>
    apply (h.saved key).idle hcall
    · intro k hk _
      cases hk
      exact List.mem_cons_self
    · intro k hk
      cases hk
    · intro stage hstage
      cases hstage
      exact ⟨rfl, rfl, rfl⟩
  | fail =>
    apply h.restage hcall
    · intro k hk _
      cases hk
      exact .inr ⟨_, rfl, rfl⟩
    · intro stage k hstage hk
      cases hstage
      cases hk
    · intro k hk
      cases hk
    · intro stage rows hstage hrows
      cases hstage
      cases hrows
    · intro stage epoch hstage he
      cases hstage
      cases he
  | _ => exact h.stays hcall

theorem Sound.dropCheck_part (h : Sound s) (hcall : s.calls.get? id = some ⟨id, .dropCheck key⟩)
    (hallowed : allowedPart s id choice (.dropCheck key)) :
    Sound (s.after id ((CallStage.dropCheck key).advance cap id choice s.shared)) := by
  have hgone : ∀ stage, (none : Option CallStage) = some stage →
      stage.removing = none ∧ stage.loaded = none ∧ stage.epoch = none := by
    intro stage hstage
    cases hstage
  cases choice with
  | go =>
    simp only [CallStage.advance]
    split
    · exact h.quiet hcall rfl rfl hgone
    · next hcached =>
      have hcache : key ∉ s.shared.cache := fun hkey => hcached (List.contains_iff_mem.2 hkey)
      have hdeleted := h.deleted hcache (fun rows hrows hkey => .inl (hallowed hcache rows hrows hkey))
      exact hdeleted.quiet hcall rfl rfl hgone
  | fail => exact h.quiet hcall rfl rfl hgone
  | _ => exact h.stays hcall

theorem Sound.rollback_part (h : Sound s)
    (hcall : s.calls.get? id = some ⟨id, .rollback key existed⟩)
    (hallowed : allowedPart s id choice (.rollback key existed)) :
    Sound (s.after id ((CallStage.rollback key existed).advance cap id choice s.shared)) := by
  have hgone : ∀ stage, (none : Option CallStage) = some stage →
      stage.removing = none ∧ stage.loaded = none ∧ stage.epoch = none := by
    intro stage hstage
    cases hstage
  cases choice with
  | go =>
    cases existed with
    | true =>
      obtain ⟨hstored, hremoving⟩ := hallowed rfl
      have hrestaged : Sound (s.restage id none) := by
        apply h.idle hcall _ _ hgone
        · intro k hk _
          cases hk
          exact hstored
        · intro k hk
          cases hk
      apply hrestaged.cached (.inl hstored)
      intro hkey
      obtain hkey | ⟨stage, hstage, -⟩ := held_restage hkey
      · exact hremoving hkey
      · cases hstage
    | false =>
      apply (h.popped key).idle hcall _ _ hgone
      · intro k hk hcached
        cases hk
        exact absurd rfl (of_decide_eq_true (List.mem_filter.1 hcached).2)
      · intro k hk
        cases hk
  | _ => exact h.stays hcall

/-- Every part of a call keeps the invariant, unless it is one of those. -/
theorem Sound.advance (h : Sound s) (hcall : s.calls.get? id = some call)
    (hallowed : allowedPart s id choice call.stage) :
    Sound (s.after id (call.stage.advance cap id choice s.shared)) := by
  obtain ⟨callId, stage⟩ := call
  have hid : callId = id := Table.key_of_get? hcall
  subst hid
  cases stage with
  | lookup => exact h.lookup_part hcall
  | loadOne => exact h.loadOne_part hcall
  | insertOne => exact h.insertOne_part hcall hallowed
  | snapshot => exact h.snapshot_part hcall
  | loadAll => exact h.loadAll_part hcall
  | fill => exact h.fill_part hcall hallowed
  | pop => exact h.pop_part hcall
  | removeRow => exact h.removeRow_part hcall
  | removeRelations => exact h.removeRelations_part hcall
  | note => exact h.note_part hcall hallowed
  | putBack => exact h.putBack_part hcall hallowed
  | saveBack => exact h.saveBack_part hcall hallowed
  | acquire => exact h.acquire_part hcall
  | caps => exact h.caps_part hcall hallowed
  | persist => exact h.persist_part hcall
  | dropCheck => exact h.dropCheck_part hcall hallowed
  | rollback => exact h.rollback_part hcall hallowed

theorem Sound.start {stage : CallStage} (h : Sound s) (hremoving : stage.removing = none)
    (hloaded : stage.loaded = none) (hepoch : stage.epoch = none) : Sound (s.start id stage) := by
  unfold Hydration.start
  split
  · exact h
  · next hnone =>
    have hheld {f : CallStage → Option String} {k : String} (hk : k ∈ s.held f) :
        k ∈ (s.restage id (some stage)).held f := by
      obtain ⟨c, hc, hk⟩ := mem_held.1 hk
      refine mem_held.2 ⟨c, Table.mem_set_of_ne hc ?_, hk⟩
      rintro rfl
      rw [Table.mem_iff_get?.1 hc] at hnone
      exact hnone rfl
    constructor
    · intro k hk
      exact (h.stored k hk).imp_right hheld
    · intro k hk
      obtain hk | ⟨_, hstage, hk⟩ := held_restage hk
      · exact h.apart k hk
      · cases hstage
        cases hremoving.symm.trans hk
    · intro rows hrows k hk
      obtain hrows | ⟨_, hstage, hrows⟩ := held_restage hrows
      · exact (h.loaded rows hrows k hk).imp_right (fun hgone => hgone.imp_right hheld)
      · cases hstage
        cases hloaded.symm.trans hrows
    · intro epoch he
      obtain he | ⟨_, hstage, he⟩ := held_restage he
      · exact h.epochs epoch he
      · cases hstage
        cases hepoch.symm.trans he

end Advance

section Decide
variable (s : Hydration) (id : Nat) (choice : Choice)

instance (key : String) : Decidable (KeepsSnapshots s key) :=
  inferInstanceAs (Decidable (_ → ∀ rows ∈ s.held CallStage.loaded,
    Shared.cutoff (s.shared.notedAt key) ≤ rows.1))

instance allowedPart.decidable : (stage : CallStage) → Decidable (allowedPart s id choice stage)
  | .insertOne key epoch _ => inferInstanceAs (Decidable (s.shared.mayEnter epoch key = true →
      key ∉ s.held CallStage.removing))
  | .fill epoch rows _ => inferInstanceAs (Decidable (∀ key ∈ rows,
      s.shared.mayEnter epoch key = true → key ∉ s.held CallStage.removing))
  | .note key _ => inferInstanceAs (Decidable (KeepsSnapshots s key))
  | .putBack key rowGone => inferInstanceAs (Decidable (
      key ∉ (s.restage id none).held CallStage.removing ∧
        (rowGone = false → key ∈ s.shared.durable)))
  | .saveBack key => inferInstanceAs (Decidable (choice = .fail → key ∈ s.shared.durable))
  | .caps key _ => inferInstanceAs (Decidable (choice = .go → key ∉ s.held CallStage.removing))
  | .dropCheck key => inferInstanceAs (Decidable (key ∉ s.shared.cache →
      ∀ rows ∈ s.held CallStage.loaded, key ∈ rows.2 → rows.1 < s.shared.tombstone key))
  | .rollback key existed => inferInstanceAs (Decidable (existed = true →
      key ∈ s.shared.durable ∧ key ∉ s.held CallStage.removing))
  | .lookup _ _ => isTrue trivial
  | .loadOne _ _ _ => isTrue trivial
  | .snapshot _ _ => isTrue trivial
  | .loadAll _ _ _ => isTrue trivial
  | .pop _ => isTrue trivial
  | .removeRow _ _ => isTrue trivial
  | .removeRelations _ _ => isTrue trivial
  | .acquire _ => isTrue trivial
  | .persist _ _ => isTrue trivial

end Decide
end Sound
end Hydration

open Hydration

def HydrationEvent.allowed : HydrationEvent → Hydration → Bool
  | .part id choice, s =>
    match s.calls.get? id with
    | none => true
    | some call => s.blocked id call.stage || allowedPart s id choice call.stage
  | .merge _ _ _, _ => true
  | .lookup _ _ _, _ => true

theorem HydrationEvent.step_sound (cap : Nat) (e : HydrationEvent) (s : Hydration) (h : Sound s)
    (hallowed : e.allowed s = true) : Sound (e.step cap s) := by
  cases e with
  | merge id limit allowOverCap => exact h.start rfl rfl rfl
  | lookup id key after => exact h.start rfl rfl rfl
  | part id choice =>
    simp only [HydrationEvent.step]
    simp only [HydrationEvent.allowed] at hallowed
    cases hcall : s.calls.get? id with
    | none => exact h
    | some call =>
      rw [hcall] at hallowed
      dsimp only at hallowed ⊢
      split
      · exact h
      · next hfree =>
        rw [Bool.or_eq_true, decide_eq_true_eq] at hallowed
        have hadvanced : Sound (s.after id (call.stage.advance cap id choice s.shared)) :=
          h.advance hcall (hallowed.resolve_left hfree)
        simp only [released]
        split
        · exact hadvanced.lock none
        · exact hadvanced

/-- No call is under way, and what is cached is stored. -/
def Hydration.Coherent (s : Hydration) : Prop :=
  s.calls.values = [] ∧ ∀ key ∈ s.shared.cache, key ∈ s.shared.durable

theorem Hydration.Coherent.sound {s : Hydration} (h : s.Coherent) : Sound s := by
  obtain ⟨hcalls, hstored⟩ := h
  have hheld {α : Type} {f : CallStage → Option α} : s.held f = [] := by
    simp only [Hydration.held, hcalls, List.filterMap_nil]
  constructor
  · exact fun key hkey => .inl (hstored key hkey)
  · intro key hkey
    rw [hheld] at hkey
    cases hkey
  · intro rows hrows
    rw [hheld] at hrows
    cases hrows
  · intro epoch he
    rw [hheld] at he
    cases he

/-- After a run of allowed steps whose calls have all returned, no key is cached without a row. -/
theorem hydration_resurrects_nothing {cap : Nat} {events : List HydrationEvent} {s : Hydration}
    (hs : s.Coherent) (hrun : Allowed (HydrationEvent.step cap) HydrationEvent.allowed events s)
    (hreturned : (runSteps (HydrationEvent.step cap) events s).calls.values = []) :
    ∀ key, key ∉ (runSteps (HydrationEvent.step cap) events s).shared.durable →
      key ∉ (runSteps (HydrationEvent.step cap) events s).shared.cache := by
  have hsound : Sound (runSteps (HydrationEvent.step cap) events s) :=
    Allowed.keeps (fun e t ht hok => e.step_sound cap t ht hok) hs.sound hrun
  intro key hgone hkey
  obtain hstored | howed := hsound.stored key hkey
  · exact hgone hstored
  · obtain ⟨c, hc, -⟩ := mem_held.1 howed
    rw [hreturned] at hc
    cases hc

def oneKey : Hydration := { shared := { cache := ["deploy"], durable := ["deploy"] } }

/-- A delete ends between the snapshot of a merge and its fill. -/
def lateFill : List HydrationEvent :=
  [.lookup 1 "deploy" .deletes, .part 1 .go, .merge 2 none false, .part 2 .go, .part 2 .go,
    .part 1 .go, .part 1 .go, .part 1 .go, .part 1 .go, .part 2 .go]

theorem late_fill_resurrects_nothing :
    "deploy" ∉ (runSteps (HydrationEvent.step 100) lateFill oneKey).shared.durable ∧
      "deploy" ∉ (runSteps (HydrationEvent.step 100) lateFill oneKey).shared.cache := by
  have hgone : "deploy" ∉ (runSteps (HydrationEvent.step 100) lateFill oneKey).shared.durable := by
    decide
  constructor
  · exact hgone
  · exact hydration_resurrects_nothing ⟨rfl, fun _ hkey => hkey⟩ (by decide) (by decide) _ hgone

/-- A merge that begins and ends between the cache pop of a delete and its durable delete. -/
def earlyFill : List HydrationEvent :=
  [.lookup 1 "deploy" .deletes, .part 1 .go, .part 1 .go, .merge 2 none false, .part 2 .go,
    .part 2 .go, .part 2 .go, .part 1 .go, .part 1 .go, .part 1 .go]

theorem early_fill_resurrects : oneKey.Coherent ∧
    (runSteps (HydrationEvent.step 100) earlyFill oneKey).calls.values = [] ∧
    "deploy" ∉ (runSteps (HydrationEvent.step 100) earlyFill oneKey).shared.durable ∧
    "deploy" ∈ (runSteps (HydrationEvent.step 100) earlyFill oneKey).shared.cache := by
  refine ⟨⟨rfl, fun _ hkey => hkey⟩, ?_, ?_, ?_⟩
  · decide
  · decide
  · decide

end TappsBrain
