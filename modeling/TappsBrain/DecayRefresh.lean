import TappsBrain.Lib.Run
import TappsBrain.Decay
import TappsBrain.Mirror
import TappsBrain.Scar

namespace TappsBrain
open Lib
set_option autoImplicit true
set_option relaxedAutoImplicit false

/-- The row the close branch of `refresh_decay` leaves. -/
def agedRow (now : Stamp) (row : MemoryEntry) : MemoryEntry :=
  closeWith "age" .stale now none (some "decayed below stale_threshold") row

/-- The cache holds rows of the table only, and each row reads back as itself and was valid before
`now`. -/
structure Settled (c : Config) (now : Stamp) (s : Store) : Prop where
  cached : ∀ key e, s.entries.get? key = some e → s.rows.get? key = some e
  reads : ∀ row ∈ s.rows.values, rowToEntry c row = .ok row
  typed : ∀ row ∈ s.rows.values, columnsAccept row = true
  begun : ∀ row ∈ s.rows.values, ∀ t, row.validAt = some (.at t) → t < now

/-- What became of a row over a series of refreshes. -/
inductive Fate where
  | kept
  | closed (since : Stamp)
  | archived
deriving DecidableEq

/-- The first verdict on a row decides what becomes of it. -/
def fate (c : Config) (row : MemoryEntry) : List Stamp → Fate
  | [] => .kept
  | now :: rest =>
    match refreshAction c now row with
    | some .archive => .archived
    | some .close => .closed now
    | none => fate c row rest

/-- The store shows what became of the row it held under `key`. -/
def Shows (key : String) (row : MemoryEntry) (t : Store) : Fate → Prop
  | .kept => t.rows.get? key = some row
  | .closed since => ∃ now, since ≤ now ∧ t.rows.get? key = some (agedRow now row)
  | .archived => t.rows.get? key = none ∧ row ∈ t.archive

/-- What refreshes at the given times do to the store. -/
structure Refreshed (c : Config) (times : List Stamp) (s t : Store) : Prop where
  shows : ∀ key row, s.rows.get? key = some row → Shows key row t (fate c row times)
  absent : ∀ key, s.rows.get? key = none → t.rows.get? key = none
  archive : ∀ row ∈ s.archive, row ∈ t.archive

/-- Cache and table both hold what `f` says. -/
def Agrees (f : String → Option MemoryEntry) (s : Store) : Prop :=
  ∀ key, s.entries.get? key = f key ∧ s.rows.get? key = f key

theorem find?_newestRows (s : Store) (key : String) :
    (newestRows s).find? (fun e => e.key = key) = s.rows.get? key := by
  cases h : s.rows.get? key with
  | none =>
    rw [List.find?_eq_none]
    intro e he hk
    have hget := Table.get?_of_mem (mem_newestRows.1 he)
    rw [of_decide_eq_true hk, h] at hget
    cases hget
  | some e =>
    have hmem := mem_newestRows.2 (Table.mem_of_get? h)
    have hkey := Table.key_of_get? h
    cases hf : (newestRows s).find? (fun e => e.key = key) with
    | none => exact absurd (decide_eq_true hkey) (List.find?_eq_none.1 hf e hmem)
    | some e' =>
      have hmem' := mem_newestRows.1 (List.mem_of_find?_eq_some hf)
      have hkey' : e'.key = key := by simpa using List.find?_some hf
      rw [Table.eq_of_key hmem' (Table.mem_of_get? h) (hkey'.trans hkey.symm)]

theorem rowsToEntries_self {c : Config} {rows : List MemoryEntry}
    (h : ∀ row ∈ rows, rowToEntry c row = .ok row) : rowsToEntries c rows = .ok rows := by
  induction rows with
  | nil => rfl
  | cons row rest ih =>
    have hrow := h row List.mem_cons_self
    have hrest := ih (fun r hr => h r (List.mem_cons_of_mem _ hr))
    simp only [rowsToEntries, hrow, hrest]

/-- A closed row reads back as itself when it was valid before the closing. -/
theorem agedRow_reads {c : Config} {row : MemoryEntry} {now : Stamp} (h : rowToEntry c row = .ok row)
    (htyped : columnsAccept row = true) (hbegun : ∀ t, row.validAt = some (.at t) → t < now) :
    rowToEntry c (agedRow now row) = .ok (agedRow now row) := by
  obtain ⟨hvalid, hnorm⟩ := rowToEntry_ok h
  have hwindow : validityError (agedRow now row) = none := by
    have hcols := htyped
    simp only [columnsAccept, List.all_cons, Bool.and_eq_true] at hcols
    have hbounds : windowClosed (agedRow now row).validAt (agedRow now row).invalidAt =
        windowClosed row.validAt (some (.at now)) := rfl
    rw [validityError, hbounds]
    cases hv : row.validAt with
    | none => rfl
    | some opening =>
      cases opening with
      | «at» t =>
        have hlt := hbegun t hv
        simp only [windowClosed, parseIso, decide_eq_true_eq, ite_eq_right_iff, reduceCtorEq,
          imp_false]
        exact Nat.not_le.2 hlt
      | malformed text =>
        rw [hv] at hcols
        exact absurd hcols.1.1 (by simp [IsoText.wellFormed])
  have hclosed : Valid c.unicode (agedRow now row) := by
    rw [valid_iff] at hvalid ⊢
    intro err herr
    rcases List.mem_append.1 herr with hf | hm
    · exact hvalid err (List.mem_append_left _ hf)
    · simp only [modelErrors, List.mem_cons, List.not_mem_nil, or_false] at hm
      rcases hm with rfl | rfl | rfl | rfl
      · exact hvalid _ (List.mem_append_right _ (by simp [modelErrors, agedRow, closeWith]))
      · exact hvalid _ (List.mem_append_right _ (by simp [modelErrors, agedRow, closeWith, scopeError]))
      · rw [hwindow]
        rfl
      · exact hvalid _ (List.mem_append_right _ (by simp [modelErrors, agedRow, closeWith, aliasError]))
  rw [rowToEntry_of_valid hclosed]
  have hnormal : (agedRow now row).normalised c.unicode =
      agedRow now (row.normalised c.unicode) := rfl
  rw [hnormal, ← hnorm]

section Pass
variable {w : World} {s : Store} {f : String → Option MemoryEntry} {key : String} {e : MemoryEntry}

theorem Agrees.key_eq (h : Agrees f s) (he : f key = some e) : e.key = key :=
  Table.key_of_get? ((h key).1.trans he)

/-- One more key changes in the cache and in the table alike. -/
theorem Agrees.update {t : Store} {r : Option MemoryEntry} (h : Agrees f s)
    (hentries : ∀ k, t.entries.get? k = if key = k then r else s.entries.get? k)
    (hrows : ∀ k, t.rows.get? k = if key = k then r else s.rows.get? k) :
    Agrees (Function.update f key r) t := by
  intro k
  rw [hentries, hrows]
  by_cases hk : key = k
  · rw [hk, Function.update_self, if_pos rfl, if_pos rfl]
    exact ⟨rfl, rfl⟩
  · rw [Function.update_of_ne (Ne.symm hk), if_neg hk, if_neg hk]
    exact h k

theorem delete_agrees (hw : Answers w) (h : Agrees f s) :
    Leads (delete w key) s (fun _ t => Agrees (Function.update f key none) t ∧
      t.archive = s.archive) := by
  rw [delete]
  cases hf : f key with
  | none =>
    have hread : ensureEntryCached w key s = (.ok none, s.called) := by
      rw [ensureEntryCached_run, (h key).1, hf, hw s.calls]
      simp only [Bool.false_eq_true, ↓reduceIte, (h key).2, hf]
    have hsame : Function.update f key none = f := by
      rw [← hf]
      exact Function.update_eq_self key f
    rw [hsame]
    exact .of_run (Prog.bind_run_ok hread) ⟨h, rfl⟩
  | some e =>
    have hread : ensureEntryCached w key s = (.ok (some e), s) := by
      rw [ensureEntryCached_run, (h key).1, hf]
    have hremove := removeDurably_run w e s
    rw [hw s.calls, hw (s.calls + 1), h.key_eq hf] at hremove
    simp only [Bool.false_eq_true, ↓reduceIte] at hremove
    apply (Leads.of_run hread (R := fun a t => a = some e ∧ t = s) ⟨rfl, rfl⟩).bind
    rintro _ t ⟨rfl, rfl⟩
    apply (Leads.of_run hremove (R := fun _ u => Agrees (Function.update f key none) u ∧
      u.archive = t.archive) ?_).bind
    · intro _ u hu
      apply (Leads.of_run (Prog.modify_run _ u) (R := fun _ v => Agrees (Function.update f key none) v ∧
        v.archive = t.archive) hu).bind
      intro _ v hv
      exact .of_run (Prog.bind_run_ok (appendAudit_run w key _ v)) hv
    · constructor
      · exact h.update (fun k => Table.get?_pop _ _ _) (fun k => Table.get?_pop _ _ _)
      · rfl

/-- The close branch on a live row. -/
theorem refreshCloseOne_agrees (hw : Answers w) (h : Agrees f s) (hf : f key = some e)
    (hcols : columnsAccept e = true) :
    Leads (refreshCloseOne w key) s (fun _ t =>
      Agrees (Function.update f key (some (agedRow (w.clock s.ticks) e))) t ∧
        t.archive = s.archive) := by
  have hkey := h.key_eq hf
  have hslot : s.entries.get? key = some e := (h key).1.trans hf
  have hrow : s.rows.get? e.key = some e := by
    rw [hkey]
    exact (h key).2.trans hf
  have hacc : accepts w s.ticked.ticked
      (closeWith "age" .stale (w.clock s.ticks) none (some "decayed below stale_threshold") e) = true := by
    rw [accepts, hw, columnsAccept_closeWith hcols]
    rfl
  have hclose : closeValidity w key "age" none (some "decayed below stale_threshold") s = _ :=
    closeValidity_run w hslot (show closeValidityStatus "age" = some .stale from rfl)
  dsimp only at hclose
  rw [if_pos hacc, Prog.bind_run_ok (appendAudit_run w key _ _)] at hclose
  have haged : (agedRow (w.clock s.ticks) e).key = key := hkey
  have hup : upserted s.rows (agedRow (w.clock s.ticks) e) = agedRow (w.clock s.ticks) e := by
    rw [upserted, show (agedRow (w.clock s.ticks) e).key = e.key from rfl, hrow]
    rfl
  apply (Leads.of_run hclose (R := fun _ t =>
    Agrees (Function.update f key (some (agedRow (w.clock s.ticks) e))) t ∧ t.archive = s.archive)
    ?_).bind
  · intro _ t ht
    exact .pure ht
  · constructor
    · apply h.update
      · intro k
        change (s.entries.set (agedRow (w.clock s.ticks) e)).get? k = _
        rw [Table.get?_set, haged]
      · intro k
        change (s.rows.set (upserted s.rows (agedRow (w.clock s.ticks) e))).get? k = _
        rw [hup, Table.get?_set, haged]
    · rfl

/-- What the archive loop has archived: every key that holds a row. -/
theorem archiveAll_agrees (hw : Answers w) (keys : List String) (h : Agrees f s)
    (hkeys : ∀ key ∈ keys, (f key).isSome = true) :
    Leads (Prog.filterEach (refreshArchiveOne w) keys) s (fun archived t =>
      archived = keys ∧ Agrees f t ∧ t.ticks = s.ticks ∧ (∀ row ∈ s.archive, row ∈ t.archive) ∧
        ∀ key ∈ keys, ∀ row, f key = some row → row ∈ t.archive) := by
  induction keys generalizing s with
  | nil => exact .pure ⟨rfl, h, rfl, fun _ => id, fun _ hk => nomatch hk⟩
  | cons key rest ih =>
    obtain ⟨row, hrow⟩ := Option.isSome_iff_exists.1 (hkeys key List.mem_cons_self)
    have harchive : refreshArchiveOne w key s =
        (.ok true, { s.called with archive := s.archive ++ [row] }) := by
      rw [refreshArchiveOne, Prog.bind_run, getEntry_run, (h key).1, hrow]
      dsimp only
      rw [archiveEntry, Prog.handle_run, Prog.bind_run_ok (backendCall_answers hw)]
      rfl
    rw [Prog.filterEach]
    apply (Leads.of_run harchive (R := fun keep t => keep = true ∧ Agrees f t ∧ t.ticks = s.ticks ∧
      t.archive = s.archive ++ [row]) ⟨rfl, h, rfl, rfl⟩).bind
    rintro _ t ⟨rfl, ht, hticks, harch⟩
    apply (ih ht (fun k hk => hkeys k (List.mem_cons_of_mem _ hk))).bind
    rintro _ u ⟨rfl, hu, hticks', hold, hnew⟩
    rw [harch] at hold
    refine .pure ⟨rfl, hu, hticks'.trans hticks, ?_, ?_⟩
    · intro r hr
      exact hold r (List.mem_append_left _ hr)
    · intro k hk r hr
      rcases List.mem_cons.1 hk with rfl | hk
      · rw [hrow] at hr
        cases hr
        exact hold row (List.mem_append_right _ List.mem_cons_self)
      · exact hnew k hk r hr

/-- The rows once `keys` are deleted. -/
def without (keys : List String) (f : String → Option MemoryEntry) (key : String) :
    Option MemoryEntry :=
  if key ∈ keys then none else f key

theorem without_cons (key : String) (rest : List String) (f : String → Option MemoryEntry) :
    without rest (Function.update f key none) = without (key :: rest) f := by
  funext k
  simp only [without, List.mem_cons]
  by_cases hk : k = key
  · rw [hk, Function.update_self, if_pos (Or.inl rfl), ite_self]
  · rw [Function.update_of_ne hk]
    simp only [hk, false_or]

theorem deleteEach_agrees (hw : Answers w) (keys : List String) (h : Agrees f s) :
    Leads (deleteEach w keys) s (fun _ t => Agrees (without keys f) t ∧ t.archive = s.archive) := by
  rw [deleteEach]
  induction keys generalizing s f with
  | nil =>
    have hnil : without [] f = f := by
      funext k
      simp only [without, List.not_mem_nil, ↓reduceIte]
    rw [hnil]
    exact .pure ⟨h, rfl⟩
  | cons key rest ih =>
    rw [Prog.forEach, Prog.bind_assoc]
    apply (delete_agrees hw h).bind
    rintro _ t ⟨ht, harch⟩
    apply (ih ht).mono
    rintro _ u ⟨hu, harch'⟩
    rw [without_cons] at hu
    exact ⟨hu, harch'.trans harch⟩

/-- The rows once `keys` are closed, none before `now`. -/
structure ClosedAt (now : Stamp) (keys : List String) (f g : String → Option MemoryEntry) : Prop where
  closed : ∀ key ∈ keys, ∀ e, f key = some e → ∃ since, now ≤ since ∧ g key = some (agedRow since e)
  other : ∀ key, key ∉ keys → g key = f key

theorem closeEach_agrees (hw : Answers w) {now : Stamp} (hclock : ∀ n, now ≤ w.clock n)
    (keys : List String) (hnodup : keys.Nodup) (h : Agrees f s)
    (hkeys : ∀ key ∈ keys, ∃ e, f key = some e ∧ columnsAccept e = true) :
    Leads (Prog.forEach (refreshCloseOne w) keys) s (fun _ t =>
      ∃ g, Agrees g t ∧ ClosedAt now keys f g ∧ t.archive = s.archive) := by
  induction keys generalizing s f with
  | nil => exact .pure ⟨f, h, ⟨fun _ hk => (nomatch hk), fun _ _ => rfl⟩, rfl⟩
  | cons key rest ih =>
    obtain ⟨e, he, hcols⟩ := hkeys key List.mem_cons_self
    rw [List.nodup_cons] at hnodup
    rw [Prog.forEach]
    apply (refreshCloseOne_agrees hw h he hcols).bind
    rintro _ t ⟨ht, harch⟩
    have hrest : ∀ k ∈ rest, Function.update f key (some (agedRow (w.clock s.ticks) e)) k = f k := by
      intro k hk
      exact Function.update_of_ne (fun heq : k = key => hnodup.1 (heq ▸ hk)) _ _
    have hkeys' : ∀ k ∈ rest, ∃ e', Function.update f key (some (agedRow (w.clock s.ticks) e)) k =
        some e' ∧ columnsAccept e' = true := by
      intro k hk
      rw [hrest k hk]
      exact hkeys k (List.mem_cons_of_mem _ hk)
    apply (ih hnodup.2 ht hkeys').mono
    rintro _ u ⟨g, hg, hclosed, harch'⟩
    refine ⟨g, hg, ⟨?_, ?_⟩, harch'.trans harch⟩
    · intro k hk e' he'
      rcases List.mem_cons.1 hk with rfl | hk
      · rw [he] at he'
        cases he'
        refine ⟨w.clock s.ticks, hclock _, ?_⟩
        rw [hclosed.other k hnodup.1, Function.update_self]
      · rw [← hrest k hk] at he'
        exact hclosed.closed k hk e' he'
    · intro k hk
      rw [List.mem_cons, not_or] at hk
      rw [hclosed.other k hk.2, Function.update_of_ne hk.1]

theorem mergeDurableEntries_agrees {now : Stamp} (hw : Answers w) (hs : Settled w.toConfig now s) :
    Leads (mergeDurableEntries w true) s (fun _ t => Agrees s.rows.get? t ∧ t.ticks = s.ticks ∧
      t.archive = s.archive) := by
  have hload : loadAll w none s = (.ok (newestRows s), s.called) := by
    rw [loadAll_run, hw s.calls]
    simp only [Bool.false_eq_true, ↓reduceIte, limited]
    rw [rowsToEntries_self (fun row hrow => hs.reads row (mem_newestRows.1 hrow))]
  apply (Leads.of_run (Prog.read_run _ s) (R := fun _ t => t = s) rfl).bind
  rintro size t rfl
  simp only [Bool.not_true, Bool.false_and, Bool.false_eq_true, ↓reduceIte]
  apply (Leads.of_run hload (R := fun l u => l = newestRows t ∧ u = t.called) ⟨rfl, rfl⟩).bind
  rintro _ _ ⟨rfl, rfl⟩
  apply Leads.of_run (Prog.modify_run _ _)
  refine ⟨?_, rfl, rfl⟩
  intro key
  refine ⟨?_, rfl⟩
  change (fillCache w.maxEntries true t.entries (newestRows t)).get? key = t.rows.get? key
  rw [fillCache_get?, find?_newestRows]
  cases he : t.entries.get? key with
  | none => exact Option.none_or
  | some e => rw [hs.cached key e he, Option.some_or]

theorem mem_refreshKeys {c : Config} {now : Stamp} {action : DecayAction} (h : Agrees f s) :
    key ∈ refreshKeys c now action s.entries.values ↔
      ∃ row, f key = some row ∧ refreshAction c now row = some action := by
  simp only [refreshKeys, List.mem_map, List.mem_filter, decide_eq_true_eq]
  constructor
  · rintro ⟨row, ⟨hrow, hact⟩, rfl⟩
    exact ⟨row, (h row.key).1.symm.trans (Table.get?_of_mem hrow), hact⟩
  · rintro ⟨row, hrow, hact⟩
    have hget := (h key).1.trans hrow
    exact ⟨row, ⟨Table.mem_of_get? hget, hact⟩, Table.key_of_get? hget⟩

theorem nodup_refreshKeys (c : Config) (now : Stamp) (action : DecayAction) (t : Table MemoryEntry.key) :
    (refreshKeys c now action t.values).Nodup :=
  t.nodup.sublist (List.filter_sublist.map _)

/-- The keys whose rows `f` holds are marked for `action`. -/
def Marked (c : Config) (now : Stamp) (action : DecayAction) (f : String → Option MemoryEntry)
    (keys : List String) : Prop :=
  ∀ key, key ∈ keys ↔ ∃ row, f key = some row ∧ refreshAction c now row = some action

theorem Marked.not_mem {c : Config} {now : Stamp} {action : DecayAction} {keys : List String}
    {row : MemoryEntry} (h : Marked c now action f keys) (hrow : f key = some row)
    (hact : refreshAction c now row ≠ some action) : key ∉ keys := by
  intro hin
  obtain ⟨r, hr, hra⟩ := (h key).1 hin
  rw [hrow] at hr
  cases hr
  exact hact hra

/-- What archiving and closing leave under a key is what the verdict on its row says. -/
theorem ClosedAt.cases {c : Config} {now : Stamp} {archived closed : List String}
    {g : String → Option MemoryEntry} {row : MemoryEntry} (harchived : Marked c now .archive f archived)
    (hclosed : Marked c now .close f closed) (hg : ClosedAt now closed (without archived f) g)
    (hrow : f key = some row) :
    (refreshAction c now row = none ∧ g key = some row) ∨
      (refreshAction c now row = some .close ∧ ∃ since, now ≤ since ∧ g key = some (agedRow since row)) ∨
      (refreshAction c now row = some .archive ∧ key ∈ archived ∧ g key = none) := by
  cases hact : refreshAction c now row with
  | none =>
    have hna := harchived.not_mem hrow (by rw [hact]; nofun)
    have hnc := hclosed.not_mem hrow (by rw [hact]; nofun)
    left
    rw [hg.other key hnc, without, if_neg hna]
    exact ⟨rfl, hrow⟩
  | some action =>
    right
    cases action with
    | close =>
      have hna := harchived.not_mem hrow (by rw [hact]; nofun)
      have hf : without archived f key = some row := by rw [without, if_neg hna, hrow]
      exact .inl ⟨rfl, hg.closed key ((hclosed key).2 ⟨row, hrow, hact⟩) row hf⟩
    | archive =>
      have hin := (harchived key).2 ⟨row, hrow, hact⟩
      have hnc := hclosed.not_mem hrow (by rw [hact]; nofun)
      right
      rw [hg.other key hnc, without, if_pos hin]
      exact ⟨rfl, hin, rfl⟩

/-- A settled table whose marked rows are archived or closed is settled again. -/
theorem Settled.refreshed {c : Config} {now : Stamp} {t : Store} {archived closed : List String}
    {g : String → Option MemoryEntry} (hs : Settled c now s)
    (harchived : Marked c now .archive s.rows.get? archived)
    (hclosed : Marked c now .close s.rows.get? closed)
    (hg : ClosedAt now closed (without archived s.rows.get?) g) (hrows : ∀ key, t.rows.get? key = g key)
    (hcached : ∀ key e, t.entries.get? key = some e → g key = some e)
    (hold : ∀ row ∈ s.archive, row ∈ t.archive)
    (hnew : ∀ key ∈ archived, ∀ row, s.rows.get? key = some row → row ∈ t.archive) :
    Settled c now t ∧ Refreshed c [now] s t := by
  have hnone : ∀ key, s.rows.get? key = none → g key = none := by
    intro key hrow
    have hnc : key ∉ closed := by
      intro hin
      obtain ⟨r, hr, _⟩ := (hclosed key).1 hin
      rw [hrow] at hr
      cases hr
    rw [hg.other key hnc, without, hrow, ite_self]
  -- A stored row is an old one, or the closed form of an old one.
  have hrow : ∀ row ∈ t.rows.values, row ∈ s.rows.values ∨
      ∃ old ∈ s.rows.values, ∃ since, now ≤ since ∧ row = agedRow since old := by
    intro row hrow
    have hget := (hrows row.key).symm.trans (Table.get?_of_mem hrow)
    cases hold' : s.rows.get? row.key with
    | none =>
      rw [hnone row.key hold'] at hget
      cases hget
    | some old =>
      rcases hg.cases harchived hclosed hold' with ⟨_, h⟩ | ⟨_, since, hle, h⟩ | ⟨_, _, h⟩
      · rw [h] at hget
        cases hget
        exact .inl (Table.mem_of_get? hold')
      · rw [h] at hget
        cases hget
        exact .inr ⟨old, Table.mem_of_get? hold', since, hle, rfl⟩
      · rw [h] at hget
        cases hget
  have hsettled : Settled c now t := by
    constructor
    · intro key e he
      exact (hrows key).trans (hcached key e he)
    · intro row hmem
      rcases hrow row hmem with h | ⟨old, h, since, hle, rfl⟩
      · exact hs.reads row h
      · exact agedRow_reads (hs.reads old h) (hs.typed old h)
          (fun t ht => lt_of_lt_of_le (hs.begun old h t ht) hle)
    · intro row hmem
      rcases hrow row hmem with h | ⟨old, h, since, hle, rfl⟩
      · exact hs.typed row h
      · exact columnsAccept_closeWith (hs.typed old h) _ _ _ _ _
    · intro row hmem
      rcases hrow row hmem with h | ⟨old, h, since, hle, rfl⟩
      · exact hs.begun row h
      · exact hs.begun old h
  have hshows : ∀ key row, s.rows.get? key = some row → Shows key row t (fate c row [now]) := by
    intro key row hget
    rw [fate]
    rcases hg.cases harchived hclosed hget with ⟨hact, h⟩ | ⟨hact, since, hle, h⟩ | ⟨hact, hin, h⟩
    · rw [hact]
      exact (hrows key).trans h
    · rw [hact]
      exact ⟨since, hle, (hrows key).trans h⟩
    · rw [hact]
      exact ⟨(hrows key).trans h, hnew key hin row hget⟩
  exact ⟨hsettled, hshows, fun key hget => (hrows key).trans (hnone key hget), hold⟩

/-- The pass between the merge and the trim. -/
theorem refreshBody_agrees (hw : Answers w) {now : Stamp} (hnow : w.clock s.ticks = now)
    (hclock : ∀ n, now ≤ w.clock n) (h : Agrees f s)
    (hcols : ∀ key row, f key = some row → columnsAccept row = true) :
    Leads (do
      let now ← utcNow w
      let entries ← snapshot
      let closeKeys := refreshKeys w.toConfig now .close entries
      let archiveKeys := refreshKeys w.toConfig now .archive entries
      let archived ← archiveAndDelete w archiveKeys
      Prog.forEach (refreshCloseOne w) closeKeys
      pure (closeKeys, archived)) s (fun _ t => ∃ archived closed g,
        Marked w.toConfig now .archive f archived ∧ Marked w.toConfig now .close f closed ∧
        ClosedAt now closed (without archived f) g ∧ Agrees g t ∧
        (∀ row ∈ s.archive, row ∈ t.archive) ∧
        ∀ key ∈ archived, ∀ row, f key = some row → row ∈ t.archive) := by
  apply (Leads.of_run (utcNow_run w s) (R := fun a t => a = now ∧ t = s.ticked) ⟨hnow, rfl⟩).bind
  rintro moment _ ⟨rfl, rfl⟩
  apply (Leads.of_run (Prog.read_run _ s.ticked) (R := fun l t => l = s.entries.values ∧ t = s.ticked)
    ⟨rfl, rfl⟩).bind
  rintro _ _ ⟨rfl, rfl⟩
  have harchived : Marked w.toConfig moment .archive f
      (refreshKeys w.toConfig moment .archive s.entries.values) :=
    fun key => mem_refreshKeys h
  have hclosed : Marked w.toConfig moment .close f
      (refreshKeys w.toConfig moment .close s.entries.values) :=
    fun key => mem_refreshKeys h
  have hnodup := nodup_refreshKeys w.toConfig moment .close s.entries
  dsimp only
  generalize refreshKeys w.toConfig moment .archive s.entries.values = archived at *
  generalize refreshKeys w.toConfig moment .close s.entries.values = closed at *
  have hpresent : ∀ key ∈ archived, (f key).isSome = true := by
    intro key hkey
    obtain ⟨row, hrow, _⟩ := (harchived key).1 hkey
    rw [hrow]
    rfl
  have hlive : ∀ key ∈ closed, ∃ e, without archived f key = some e ∧ columnsAccept e = true := by
    intro key hkey
    obtain ⟨row, hrow, hact⟩ := (hclosed key).1 hkey
    refine ⟨row, ?_, hcols key row hrow⟩
    rw [without, if_neg (harchived.not_mem hrow (by rw [hact]; nofun)), hrow]
  have hticked : Agrees f s.ticked := h
  rw [archiveAndDelete, Prog.bind_assoc]
  apply (archiveAll_agrees hw archived hticked hpresent).bind
  rintro _ t ⟨rfl, ht, _, hold, hnew⟩
  rw [Prog.bind_assoc]
  apply (deleteEach_agrees hw _ ht).bind
  rintro _ u ⟨hu, hdel⟩
  apply (closeEach_agrees hw hclock closed hnodup hu hlive).bind
  rintro _ v ⟨g, hv, hg, hclose⟩
  have harch : v.archive = t.archive := hclose.trans hdel
  rw [← harch] at hold hnew
  exact .pure ⟨_, closed, g, harchived, hclosed, hg, hv, hold, hnew⟩

theorem trimCacheToCap_run (w : World) (preExisting : List String) (s : Store) :
    ∃ p, trimCacheToCap w preExisting s = (.ok (), { s with entries := s.entries.filter p }) :=
  ⟨_, rfl⟩

/-- One refresh by a backend that answers, on a settled store. -/
theorem refreshDecay_refreshed (hw : Answers w) (hclock : ∀ n, w.clock s.ticks ≤ w.clock n)
    (hs : Settled w.toConfig (w.clock s.ticks) s) :
    Leads (refreshDecay w false) s (fun _ t => Settled w.toConfig (w.clock s.ticks) t ∧
      Refreshed w.toConfig [w.clock s.ticks] s t) := by
  rw [refreshDecay, durableView]
  apply (Leads.of_run (Prog.read_run _ s) (R := fun _ t => t = s) rfl).bind
  rintro preExisting _ rfl
  apply (mergeDurableEntries_agrees hw hs).bind
  rintro _ t ⟨ht, hticks, harch⟩
  apply (refreshBody_agrees hw (congrArg w.clock hticks) hclock ht
    (fun key row hrow => hs.typed row (Table.mem_of_get? hrow))).ensure
  rintro _ u ⟨archived, closed, g, harchived, hclosed, hg, hu, hold, hnew⟩
  rw [harch] at hold
  obtain ⟨p, htrim⟩ := trimCacheToCap_run w preExisting u
  have hcached : ∀ key e, (u.entries.filter p).get? key = some e → g key = some e := by
    intro key e he
    rw [Table.get?_filter] at he
    rw [← (hu key).1]
    exact (Option.filter_eq_some_iff.1 he).1
  apply Leads.of_run htrim
  exact hs.refreshed harchived hclosed hg (fun key => (hu key).2) hcached hold hnew

end Pass

/-- One `refresh_decay`: the moment it reads first, and what its clock shows from then on. -/
structure Refresh where
  time : Stamp
  clock : Nat → Stamp
  le_clock : ∀ n, time ≤ clock n

def Refresh.world (c : Config) (r : Refresh) (s : Store) : World :=
  { c.calm with clock := fun n => if n = s.ticks then r.time else r.clock n }

def runRefresh (c : Config) (r : Refresh) (s : Store) : Store :=
  (refreshDecay (r.world c s) false).final s

/-- The rows a refresh considers: `status='active'`, no closing bound, no `superseded_by`. -/
def isLive (e : MemoryEntry) : Bool :=
  e.status = .active && e.invalidAt.isNone && e.supersededBy.isNone

def liveAt (key : String) (s : Store) : Option MemoryEntry := (s.rows.get? key).filter isLive

/-- Refreshes at increasing times from `start` on, the last one at `last`. -/
structure Series (start last : Stamp) (rs : List Refresh) : Prop where
  sorted : (start :: rs.map (·.time)).Pairwise (· ≤ ·)
  ends : (rs.map (·.time)).getLast? = some last

section Series
variable {c : Config} {s t u : Store} {times times' : List Stamp} {key : String} {row : MemoryEntry}
  {start last : Stamp} {rs rs' : List Refresh}

theorem refreshAction_dead {now : Stamp} (h : isLive row = false) : refreshAction c now row = none := by
  rw [refreshAction, if_pos]
  simp only [isLive, Bool.and_eq_false_iff, decide_eq_false_iff_not, Option.isNone_eq_false_iff] at h
  simpa [or_assoc] using h

theorem fate_dead (h : isLive row = false) (times : List Stamp) : fate c row times = .kept := by
  induction times with
  | nil => rfl
  | cons now rest ih => rw [fate, refreshAction_dead h, ih]

theorem fate_append (times times' : List Stamp) : fate c row (times ++ times') =
    match fate c row times with
    | .kept => fate c row times'
    | f => f := by
  induction times with
  | nil => rfl
  | cons now rest ih =>
    rw [List.cons_append, fate, fate, ih]
    rcases refreshAction c now row with _ | _ | _ <;> rfl

/-- What is closed or archived stays so. -/
theorem Refreshed.trans (h : Refreshed c times s t) (h' : Refreshed c times' t u) :
    Refreshed c (times ++ times') s u := by
  constructor
  · intro key row hrow
    have hshow := h.shows key row hrow
    rw [fate_append]
    cases hf : fate c row times with
    | kept =>
      rw [hf] at hshow
      exact h'.shows key row hshow
    | closed since =>
      rw [hf] at hshow
      obtain ⟨now, hle, hget⟩ := hshow
      have hlater := h'.shows key (agedRow now row) hget
      rw [fate_dead rfl] at hlater
      exact ⟨now, hle, hlater⟩
    | archived =>
      rw [hf] at hshow
      exact ⟨h'.absent key hshow.1, h'.archive row hshow.2⟩
  · intro key hrow
    exact h'.absent key (h.absent key hrow)
  · intro row hmem
    exact h'.archive row (h.archive row hmem)

theorem Settled.later {now : Stamp} (h : Settled c start s) (hle : start ≤ now) : Settled c now s :=
  ⟨h.cached, h.reads, h.typed, fun row hrow t ht => lt_of_lt_of_le (h.begun row hrow t ht) hle⟩

theorem runRefresh_refreshed (r : Refresh) (hs : Settled c start s) (hle : start ≤ r.time) :
    Settled c r.time (runRefresh c r s) ∧ Refreshed c [r.time] s (runRefresh c r s) := by
  have htime : (r.world c s).clock s.ticks = r.time := if_pos rfl
  have hclock : ∀ n, (r.world c s).clock s.ticks ≤ (r.world c s).clock n := by
    intro n
    rw [htime]
    change r.time ≤ if n = s.ticks then r.time else r.clock n
    split
    · exact le_refl _
    · exact r.le_clock n
  have hnow : Settled (r.world c s).toConfig ((r.world c s).clock s.ticks) s := by
    rw [htime]
    exact hs.later hle
  obtain ⟨a, t, hrun, ht⟩ := refreshDecay_refreshed (fun _ => rfl) hclock hnow
  rw [htime] at ht
  have hfinal : runRefresh c r s = t := by rw [runRefresh, Prog.final, hrun]
  rw [hfinal]
  exact ht

theorem runRefreshes_refreshed (hs : Settled c start s)
    (hsorted : (start :: rs.map (·.time)).Pairwise (· ≤ ·)) :
    Refreshed c (rs.map (·.time)) s (runSteps (runRefresh c) rs s) := by
  induction rs generalizing start s with
  | nil => exact ⟨fun _ _ h => h, fun _ h => h, fun _ h => h⟩
  | cons r rest ih =>
    rw [List.map_cons, List.pairwise_cons] at hsorted
    obtain ⟨hsettled, hone⟩ := runRefresh_refreshed r hs (hsorted.1 _ List.mem_cons_self)
    exact hone.trans (ih hsettled hsorted.2)

theorem fate_kept_iff : fate c row times = .kept ↔ ∀ t ∈ times, refreshAction c t row = none := by
  induction times with
  | nil => exact ⟨fun _ _ h => (nomatch h), fun _ => rfl⟩
  | cons now rest ih =>
    rw [fate, List.forall_mem_cons, ← ih]
    rcases refreshAction c now row with _ | _ | _ <;> simp

/-- A verdict that never goes away is decided by the last refresh alone. -/
theorem Series.fate_kept_iff
    (hmono : ∀ t t', t ≤ t' → refreshAction c t' row = none → refreshAction c t row = none)
    (h : Series start last rs) :
    fate c row (rs.map (·.time)) = .kept ↔ refreshAction c last row = none := by
  obtain ⟨before, hlast⟩ := List.getLast?_eq_some_iff.1 h.ends
  have hsorted := (List.pairwise_cons.1 h.sorted).2
  rw [hlast] at hsorted ⊢
  rw [TappsBrain.fate_kept_iff]
  constructor
  · intro hall
    exact hall last (List.mem_append_right _ List.mem_cons_self)
  · intro hnone t ht
    rcases List.mem_append.1 ht with ht | ht
    · have hle := (List.pairwise_append.1 hsorted).2.2 t ht last List.mem_cons_self
      exact hmono t last hle hnone
    · rw [List.mem_singleton.1 ht]
      exact hnone

theorem liveAt_of_shows {f : Fate} (h : Shows key row t f) :
    liveAt key t = if f = .kept then (some row).filter isLive else none := by
  rw [liveAt]
  cases f with
  | kept => rw [if_pos rfl, show t.rows.get? key = some row from h]
  | closed since =>
    obtain ⟨now, _, hget⟩ := h
    rw [hget]
    rfl
  | archived =>
    rw [h.1]
    rfl

end Series

section Cadence
variable {c : Config} {m : FloatMath} {cfg : DecayConfig} {retention : ℚ} {s : Store}
  {start last : Stamp} {rs rs' : List Refresh} {row : MemoryEntry}

theorem confidence_nonneg (h : rowToEntry c row = .ok row) : 0 ≤ row.confidence := by
  have hnorm := congrArg MemoryEntry.confidence (rowToEntry_ok h).2
  by_contra hneg
  have hdefault : row.confidence = sourceConfidenceDefault row.source :=
    hnorm.trans (if_pos (not_le.1 hneg))
  apply hneg
  rw [hdefault]
  cases row.source <;> decide +kernel

theorem refreshAction_pricedBy {now : Stamp} {v : Option DecayAction}
    (hv : identifyDecayRefresh m c.unicode cfg retention row now = .ok v) :
    refreshAction (c.pricedBy m cfg retention) now row =
      if row.status ≠ .active || row.invalidAt.isSome || row.supersededBy.isSome then none else v := by
  rw [refreshAction, Config.pricedBy]
  dsimp only
  rw [hv]

theorem refreshAction_mono (hc : 0 ≤ row.confidence) (t t' : Stamp) (h : t ≤ t')
    (hnone : refreshAction (c.pricedBy m cfg retention) t' row = none) :
    refreshAction (c.pricedBy m cfg retention) t row = none := by
  have hverdicts : ∃ v v', identifyDecayRefresh m c.unicode cfg retention row t = .ok v ∧
      identifyDecayRefresh m c.unicode cfg retention row t' = .ok v' ∧ (v' = none → v = none) :=
    identifyDecayRefresh_mono hc h
  obtain ⟨v, v', hv, hv', himp⟩ := hverdicts
  rw [refreshAction_pricedBy hv'] at hnone
  rw [refreshAction_pricedBy hv]
  split
  · rfl
  · next hlive =>
    rw [if_neg hlive] at hnone
    exact himp hnone

/-- Which rows are live after a series of refreshes does not depend on the refreshes before the
last; a row that is not live any more was closed or archived by the first one with a verdict; and a
row at or over the stale threshold and over its floor at the end was never touched. -/
theorem refreshDecay_cadence (hs : Settled (c.pricedBy m cfg retention) start s)
    (h : Series start last rs) (h' : Series start last rs') :
    (∀ key, liveAt key (runSteps (runRefresh (c.pricedBy m cfg retention)) rs s) =
      liveAt key (runSteps (runRefresh (c.pricedBy m cfg retention)) rs' s)) ∧
    Refreshed (c.pricedBy m cfg retention) (rs.map (·.time)) s
      (runSteps (runRefresh (c.pricedBy m cfg retention)) rs s) ∧
    ∀ key row confidence, s.rows.get? key = some row →
      calculateDecayedConfidence m c.unicode row cfg last = .ok confidence →
      cfg.staleThreshold ≤ confidence → getConfidenceFloor row.tier cfg < confidence →
      (runSteps (runRefresh (c.pricedBy m cfg retention)) rs s).rows.get? key = some row := by
  have hrun := runRefreshes_refreshed hs h.sorted
  have hrun' := runRefreshes_refreshed hs h'.sorted
  have hmono : ∀ row ∈ s.rows.values, ∀ t t', t ≤ t' →
      refreshAction (c.pricedBy m cfg retention) t' row = none →
        refreshAction (c.pricedBy m cfg retention) t row = none :=
    fun row hrow => refreshAction_mono (confidence_nonneg (hs.reads row hrow))
  refine ⟨?_, hrun, ?_⟩
  · intro key
    cases hrow : s.rows.get? key with
    | none => rw [liveAt, liveAt, hrun.absent key hrow, hrun'.absent key hrow]
    | some row =>
      have hm := hmono row (Table.mem_of_get? hrow)
      rw [liveAt_of_shows (hrun.shows key row hrow), liveAt_of_shows (hrun'.shows key row hrow)]
      simp only [h.fate_kept_iff hm, h'.fate_kept_iff hm]
  · intro key row confidence hrow hconf hstale hfloor
    have hnone : refreshAction (c.pricedBy m cfg retention) last row = none := by
      rw [refreshAction_pricedBy (identifyDecayRefresh_none hconf hstale hfloor), ite_self]
    have hshow := hrun.shows key row hrow
    rw [(h.fate_kept_iff (hmono row (Table.mem_of_get? hrow))).2 hnone] at hshow
    exact hshow

end Cadence

def refreshAt (t : Stamp) : Refresh := ⟨t, fun _ => t, fun _ => le_refl t⟩

/-- The moment `n` days into the clock. -/
def day (n : Nat) : Stamp := n * 86400000000

def fadingRow (confidence : ℚ) : MemoryEntry :=
  { key := "standup", value := "the build is red", tier := .std .session, confidence
    createdAt := 0, updatedAt := 0, lastAccessed := 0 }

def fadingStore (confidence : ℚ) : Store := { rows := Table.empty.set (fadingRow confidence) }

def highFloor : DecayConfig := { confidenceFloor := 1 / 2 }

theorem refreshDecay_cadence_fading :
    liveAt "standup" (runSteps (runRefresh (Config.plain.pricedBy .whole {} 30))
      [refreshAt (day 2), refreshAt (day 40)] (fadingStore (8 / 10))) =
    liveAt "standup" (runSteps (runRefresh (Config.plain.pricedBy .whole {} 30))
      [refreshAt (day 40)] (fadingStore (8 / 10))) := by
  have hs : Settled (Config.plain.pricedBy .whole {} 30) 0 (fadingStore (8 / 10)) := by
    constructor
    · intro key e h
      cases h
    all_goals
      intro row hrow
      have hrow' : row = fadingRow (8 / 10) := List.mem_singleton.1 hrow
      subst hrow'
    · decide +kernel
    · decide +kernel
    · intro t ht
      cases ht
  have h : Series 0 (day 40) [refreshAt (day 2), refreshAt (day 40)] :=
    ⟨by decide +kernel, by decide +kernel⟩
  have h' : Series 0 (day 40) [refreshAt (day 40)] := ⟨by decide +kernel, by decide +kernel⟩
  exact (refreshDecay_cadence hs h h').1 "standup"

/-- A refresh in between closes the row the last refresh alone would archive; and a row whose floor
is over the stale threshold is archived at a confidence over the threshold. -/
theorem refreshDecay_cadence_counts :
    ((runSteps (runRefresh (Config.plain.pricedBy .whole {} 30)) [refreshAt (day 40)]
        (fadingStore (8 / 10))).archive = [fadingRow (8 / 10)] ∧
      (runSteps (runRefresh (Config.plain.pricedBy .whole {} 30))
        [refreshAt (day 2), refreshAt (day 40)] (fadingStore (8 / 10))).archive = [] ∧
      (runSteps (runRefresh (Config.plain.pricedBy .whole {} 30))
        [refreshAt (day 2), refreshAt (day 40)] (fadingStore (8 / 10))).rows.get? "standup" =
          some (agedRow (day 2) (fadingRow (8 / 10)))) ∧
    (runSteps (runRefresh (Config.plain.pricedBy .whole highFloor 30)) [refreshAt (day 40)]
        (fadingStore 1)).rows.get? "standup" = none ∧
      calculateDecayedConfidence .whole .lowercase (fadingRow 1) highFloor (day 40) = .ok (1 / 2) ∧
      highFloor.staleThreshold < 1 / 2 := by
  decide +kernel

end TappsBrain
