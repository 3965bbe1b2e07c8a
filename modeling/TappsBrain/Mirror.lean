import TappsBrain.Lib.Abort
import TappsBrain.Untouched

namespace TappsBrain
open Lib
set_option autoImplicit true
set_option relaxedAutoImplicit false

/-- The cache holds what the table holds, and all of it reads back. -/
structure Mirror (c : Config) (s : Store) : Prop where
  rows : s.rows = s.entries
  valid : ∀ e ∈ s.entries.values, Valid c.unicode e

/-- Nothing happened but what the store counts, logs or relates, and `n` readings of the clock. -/
structure Idle (n : Nat) (s t : Store) : Prop where
  entries : t.entries = s.entries
  rows : t.rows = s.rows
  calm : t.consolidationInProgress = s.consolidationInProgress
  ticks : t.ticks = s.ticks + n

theorem Idle.refl (s : Store) : Idle 0 s s := ⟨rfl, rfl, rfl, rfl⟩

theorem Idle.called (s : Store) : Idle 0 s s.called := ⟨rfl, rfl, rfl, rfl⟩

theorem Idle.ticked (s : Store) : Idle 1 s s.ticked := ⟨rfl, rfl, rfl, rfl⟩

theorem Idle.trans {n m : Nat} {s t u : Store} (h : Idle n s t) (h' : Idle m t u) :
    Idle (n + m) s u where
  entries := h'.entries.trans h.entries
  rows := h'.rows.trans h.rows
  calm := h'.calm.trans h.calm
  ticks := by rw [h'.ticks, h.ticks, Nat.add_assoc]

theorem Mirror.idle {c : Config} {n : Nat} {s t : Store} (h : Mirror c s) (hi : Idle n s t) :
    Mirror c t where
  rows := by rw [hi.rows, hi.entries, h.rows]
  valid := by
    rw [hi.entries]
    exact h.valid

theorem rowToEntry_of_valid {c : Config} {row : MemoryEntry} (h : Valid c.unicode row) :
    rowToEntry c row = .ok (row.normalised c.unicode) := by
  rw [rowToEntry, validate_of_valid h]

theorem rowsToEntries_of_valid {c : Config} {rows : List MemoryEntry}
    (h : ∀ row ∈ rows, Valid c.unicode row) :
    rowsToEntries c rows = .ok (rows.map (·.normalised c.unicode)) := by
  induction rows with
  | nil => rfl
  | cons row rest ih =>
    have hrow := rowToEntry_of_valid (h row List.mem_cons_self)
    have hrest := ih (fun r hr => h r (List.mem_cons_of_mem _ hr))
    simp only [rowsToEntries, hrow, hrest, List.map_cons]

theorem fillCache_cached {cap : Nat} {allowOverCap : Bool} {entries : Table MemoryEntry.key}
    {l : List MemoryEntry} (h : ∀ e ∈ l, entries.contains e.key = true) :
    fillCache cap allowOverCap entries l = entries := by
  induction l with
  | nil => rfl
  | cons e rest ih =>
    rw [fillCache, if_pos (by rw [h e List.mem_cons_self, Bool.true_or])]
    exact ih (fun r hr => h r (List.mem_cons_of_mem _ hr))

theorem fillCache_get? (cap : Nat) (entries : Table MemoryEntry.key) (l : List MemoryEntry)
    (key : String) : (fillCache cap true entries l).get? key =
      (entries.get? key).or (l.find? (fun e => e.key = key)) := by
  induction l generalizing entries with
  | nil => rw [fillCache, List.find?_nil, Option.or_none]
  | cons e rest ih =>
    rw [fillCache]
    split
    · next h =>
      simp only [Table.contains, Bool.not_true, Bool.false_and, Bool.or_false] at h
      rw [ih, List.find?_cons]
      by_cases hk : e.key = key
      · rw [← hk]
        obtain ⟨v, hv⟩ := Option.isSome_iff_exists.1 h
        rw [hv, Option.some_or, Option.some_or]
      · simp only [hk, decide_false]
    · next h =>
      simp only [Table.contains, Bool.not_true, Bool.false_and, Bool.or_false,
        Option.not_isSome_iff_eq_none] at h
      rw [ih, List.find?_cons, Table.get?_set]
      by_cases hk : e.key = key
      · simp only [hk, decide_true, ↓reduceIte, Option.some_or]
        rw [hk] at h
        rw [h, Option.none_or]
      · simp only [hk, decide_false, ↓reduceIte]

/-- The backend answers every call. -/
def Answers (w : World) : Prop := ∀ n, w.refuses n = false

/-- The cache behind the lookup of `key`. -/
def lookedUp (c : Config) (s : Store) (key : String) : Table MemoryEntry.key :=
  match held c s key with
  | none => s.entries
  | some e => s.entries.set e

/-- A lookup of an answering backend returns what the store holds, and caches it. -/
theorem ensureEntryCached_lookedUp {w : World} {s : Store} (hw : Answers w)
    (hs : ∀ row ∈ s.rows.values, Valid w.unicode row) (key : String) :
    ∃ t, ensureEntryCached w key s = (.ok (held w.toConfig s key), t) ∧
      t.entries = lookedUp w.toConfig s key ∧ t.rows = s.rows := by
  rw [ensureEntryCached_run, lookedUp, held, loaded]
  cases hc : s.entries.get? key with
  | some e =>
    refine ⟨s, rfl, ?_, rfl⟩
    have hkey : s.entries.get? e.key = some e := by rw [Table.key_of_get? hc, hc]
    exact (Table.set_of_get? hkey).symm
  | none =>
    rw [hw s.calls]
    cases hr : s.rows.get? key with
    | none => exact ⟨s.called, rfl, rfl, rfl⟩
    | some row =>
      have hvalid := hs row (Table.mem_of_get? hr)
      rw [Option.none_or, Option.bind_some]
      simp only [Bool.false_eq_true, ↓reduceIte, rowToEntry_of_valid hvalid]
      exact ⟨{ s.called with entries := s.entries.set (row.normalised w.unicode) }, rfl, rfl, rfl⟩

section Quiet
variable {w : World} {s : Store} (hw : Answers w) (hs : Mirror w.toConfig s)
include hw

theorem backendCall_answers : backendCall w s = (.ok (), s.called) := by
  rw [backendCall_run, hw s.calls]
  rfl

theorem appendAudit_idle (key : String) (event : AuditEvent) :
    Leads (appendAudit w key event) s (fun _ t => Idle 0 s t) := by
  apply Leads.handle
  exact .of_run (Prog.bind_run_ok (backendCall_answers hw)) ⟨rfl, rfl, rfl, rfl⟩

theorem saveRelationRows_idle (key : String) (rels : List RelationEntry) :
    Leads (saveRelationRows w key rels) s (fun _ t => Idle 0 s t) := by
  rw [saveRelationRows]
  split
  · exact .pure (Idle.refl s)
  · exact .of_run (Prog.bind_run_ok (backendCall_answers hw)) ⟨rfl, rfl, rfl, rfl⟩

theorem loadRelationRows_idle (key : String) :
    Leads (loadRelationRows w key) s (fun _ t => Idle 0 s t) :=
  .of_run (Prog.bind_run_ok (backendCall_answers hw)) (Idle.called s)

/-- Relations are written through and read back. -/
theorem saveRelations_idle (key : String) (rels : List RelationEntry) :
    Leads (saveRelations w key rels) s (fun _ t => Idle 0 s t) := by
  apply (saveRelationRows_idle hw key rels).bind
  intro _ t ht
  apply (loadRelationRows_idle hw key).bind
  intro _ u hu
  have hu : Idle 0 s u := ht.trans hu
  exact .of_run rfl ⟨hu.entries, hu.rows, hu.calm, hu.ticks⟩

theorem persistRelations_idle (key value : String) :
    Leads (persistRelations w key value) s (fun _ t => Idle 0 s t) := by
  simp only [persistRelations]
  split
  · exact .pure (Idle.refl s)
  · apply (Leads.of_run (Prog.read_run _ s) (R := fun _ t => Idle 0 s t) (Idle.refl s)).bind
    intro n t ht
    split
    · exact .pure ht
    · exact (saveRelations_idle hw key _).mono (fun _ _ hu => ht.trans hu)

include hs

theorem ensureEntryCached_fresh {key : String} (hk : s.entries.get? key = none) :
    ensureEntryCached w key s = (.ok none, s.called) := by
  have hrow : s.rows.get? key = none := by rw [hs.rows, hk]
  simp only [ensureEntryCached_run, hk, hrow, hw s.calls, Bool.false_eq_true, ↓reduceIte]

/-- What is loaded is cached already. -/
theorem loadAll_mirror (limit : Option Nat) :
    Leads (loadAll w limit) s
      (fun l t => t = s.called ∧ ∀ e ∈ l, s.entries.contains e.key = true) := by
  have hrows : ∀ row ∈ limited limit (newestRows s), row ∈ s.entries.values := by
    intro row hrow
    rw [← hs.rows]
    exact mem_newestRows.1 (mem_of_mem_limited hrow)
  have hread := rowsToEntries_of_valid (fun row hrow => hs.valid row (hrows row hrow))
  apply Leads.of_run (t := s.called)
  · rw [loadAll_run, hw s.calls, hread]
    rfl
  · constructor
    · rfl
    · intro e he
      obtain ⟨row, hrow, rfl⟩ := List.mem_map.1 he
      rw [Table.contains, normalised_key, Table.get?_of_mem (hrows row hrow)]
      rfl

theorem mergeDurableEntries_idle (allowOverCap : Bool) :
    Leads (mergeDurableEntries w allowOverCap) s (fun _ t => Idle 0 s t) := by
  apply (Leads.of_run (Prog.read_run _ s) (R := fun _ t => t = s) rfl).bind
  rintro size t rfl
  split
  · exact .pure (Idle.refl t)
  · apply (loadAll_mirror hw hs _).bind
    rintro l u ⟨rfl, hl⟩
    exact .of_run rfl ⟨fillCache_cached hl, rfl, rfl, rfl⟩

theorem countEntriesInMemoryGroup_idle (group : Option String) :
    Leads (countEntriesInMemoryGroup w group) s
      (fun n t => Idle 0 s t ∧ n = (inGroup group s.entries.values).length) := by
  apply (loadAll_mirror hw hs none).bind
  rintro l t ⟨rfl, hl⟩
  have hfill : fillCache w.maxEntries true s.entries l = s.entries := fillCache_cached hl
  exact .of_run rfl ⟨⟨hfill, rfl, rfl, rfl⟩, by dsimp only; rw [Store.called_entries, hfill]; rfl⟩

/-- A snapshot after the merge is the cache. -/
theorem mergedSnapshot_idle (allowOverCap : Bool) (f : List MemoryEntry → StoreM α)
    {R : α → Store → Prop}
    (hf : ∀ t, Idle 0 s t → Leads (f s.entries.values) t R) :
    Leads (do
      mergeDurableEntries w allowOverCap
      let entries ← snapshot
      f entries) s R := by
  apply (mergeDurableEntries_idle hw hs allowOverCap).bind
  intro _ t ht
  have hrun : snapshot t = (.ok s.entries.values, t) := by
    rw [snapshot, Prog.read_run, ht.entries]
  obtain ⟨a, u, hu, ha⟩ := hf t ht
  exact ⟨a, u, (Prog.bind_run_ok hrun).trans hu, ha⟩

end Quiet
end TappsBrain
