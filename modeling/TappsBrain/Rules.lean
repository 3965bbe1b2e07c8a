import TappsBrain.Maintain

namespace TappsBrain
open Lib
set_option autoImplicit true
set_option relaxedAutoImplicit false

/-- An invariant that does not read what the store only counts or logs. -/
structure Bookkeeping (I : Store → Prop) : Prop where
  calls : ∀ s, I s → I { s with calls := s.calls + 1 }
  ticks : ∀ s, I s → I { s with ticks := s.ticks + 1 }
  checks : ∀ s, I s → I { s with checks := s.checks + 1 }
  audit : ∀ s l, I s → I { s with audit := l }
  archive : ∀ s l, I s → I { s with archive := l }
  inProgress : ∀ s b, I s → I { s with consolidationInProgress := b }

/-- An invariant that does not read the relations. -/
structure IgnoresRelations (I : Store → Prop) : Prop where
  cached : ∀ s t, I s → I { s with relations := t }
  durable : ∀ s t, I s → I { s with relationRows := t }

theorem rowsToEntries_mem {c : Config} {rows entries : List MemoryEntry} {e : MemoryEntry}
    (h : rowsToEntries c rows = .ok entries) (he : e ∈ entries) :
    ∃ row ∈ rows, rowToEntry c row = .ok e := by
  induction rows generalizing entries with
  | nil =>
    cases h
    cases he
  | cons row rest ih =>
    simp only [rowsToEntries] at h
    split at h
    · cases h
    · next entry hrow =>
      split at h
      · cases h
      · next tail htail =>
        cases h
        rcases List.mem_cons.1 he with rfl | he
        · exact ⟨row, List.mem_cons_self, hrow⟩
        · obtain ⟨r, hr, hre⟩ := ih htail he
          exact ⟨r, List.mem_cons_of_mem _ hr, hre⟩

theorem rowToEntry_ok {c : Config} {row e : MemoryEntry} (h : rowToEntry c row = .ok e) :
    Valid c.unicode row ∧ e = row.normalised c.unicode := by
  unfold rowToEntry at h
  split at h
  · cases h
  · next hv =>
    cases h
    exact validate_ok hv

theorem mem_newestRows {s : Store} {e : MemoryEntry} : e ∈ newestRows s ↔ e ∈ s.rows.values :=
  List.mem_insertionSort newerFirst

theorem loadOne_run (w : World) (key : String) (s : Store) :
    loadOne w key s =
      if w.refuses s.calls then (.error .backend, s.called)
      else match s.rows.get? key with
        | none => (.ok none, s.called)
        | some row =>
          match rowToEntry w.toConfig row with
          | .error err => (.error err, s.called)
          | .ok e => (.ok (some e), s.called) := by
  unfold loadOne
  cases hb : w.refuses s.calls with
  | true => simp only [Prog.bind_run, backendCall_run, hb, ↓reduceIte]
  | false =>
    simp only [Prog.bind_run, backendCall_run, hb, Bool.false_eq_true, ↓reduceIte, Prog.read_run,
      Store.called_rows]
    cases s.rows.get? key with
    | none => rfl
    | some row =>
      dsimp only
      cases rowToEntry w.toConfig row <;> rfl

theorem ensureEntryCached_run (w : World) (key : String) (s : Store) :
    ensureEntryCached w key s =
      match s.entries.get? key with
      | some e => (.ok (some e), s)
      | none =>
        if w.refuses s.calls then (.error .backend, s.called)
        else match s.rows.get? key with
          | none => (.ok none, s.called)
          | some row =>
            match rowToEntry w.toConfig row with
            | .error err => (.error err, s.called)
            | .ok e => (.ok (some e), { s.called with entries := s.entries.set e }) := by
  unfold ensureEntryCached
  rw [Prog.bind_run, getEntry_run]
  cases s.entries.get? key with
  | some e => rfl
  | none =>
    dsimp only
    rw [Prog.bind_run, loadOne_run]
    cases w.refuses s.calls with
    | true => rfl
    | false =>
      simp only [Bool.false_eq_true, ↓reduceIte]
      cases s.rows.get? key with
      | none => rfl
      | some row =>
        dsimp only
        cases rowToEntry w.toConfig row <;> rfl

theorem loadAll_run (w : World) (limit : Option Nat) (s : Store) :
    loadAll w limit s =
      if w.refuses s.calls then (.error .backend, s.called)
      else (rowsToEntries w.toConfig (limited limit (newestRows s)), s.called) := by
  unfold loadAll
  cases hb : w.refuses s.calls with
  | true => simp only [Prog.bind_run, backendCall_run, hb, ↓reduceIte]
  | false =>
    simp only [Prog.bind_run, backendCall_run, hb, Bool.false_eq_true, ↓reduceIte, Prog.read_run]
    change Prog.ofExcept (rowsToEntries w.toConfig (limited limit (newestRows s))) s.called = _
    cases rowsToEntries w.toConfig (limited limit (newestRows s)) <;> rfl

theorem saveRow_run (w : World) (e : MemoryEntry) (s : Store) :
    saveRow w e s =
      if accepts w s e then (.ok (), storeRow e s.called) else (.error .backend, s.called) := by
  unfold saveRow accepts
  cases hb : w.refuses s.calls with
  | true => simp only [Prog.bind_run, backendCall_run, hb, ↓reduceIte, Bool.not_true, Bool.false_and,
      Bool.false_eq_true]
  | false =>
    simp only [Prog.bind_run, backendCall_run, hb, Bool.false_eq_true, ↓reduceIte, Bool.not_false,
      Bool.true_and]
    cases columnsAccept e <;> rfl

theorem deleteRow_run (w : World) (key : String) (s : Store) :
    deleteRow w key s =
      if w.refuses s.calls then (.error .backend, s.called)
      else (.ok (), { s.called with rows := s.rows.pop key }) := by
  unfold deleteRow
  rw [Prog.bind_run, backendCall_run]
  cases w.refuses s.calls <;> rfl

theorem dropIfConcurrentlyRemoved_run (w : World) {key : String} {e : MemoryEntry} {s : Store}
    (h : s.entries.get? key = some e) : dropIfConcurrentlyRemoved w key s = (.ok (), s) := by
  unfold dropIfConcurrentlyRemoved
  rw [Prog.bind_run, getEntry_run, h]
  rfl

theorem restoreIfSame_run {updated previous : MemoryEntry} {s : Store}
    (h : s.entries.get? updated.key = some updated) :
    restoreIfSame updated previous s = (.ok (), { s with entries := s.entries.set previous }) := by
  unfold restoreIfSame
  rw [Prog.bind_run, getEntry_run, h]
  dsimp only
  rw [if_pos rfl, setEntry_run]

theorem persistOrRestore_run (w : World) {updated previous : MemoryEntry} {s : Store}
    (h : s.entries.get? updated.key = some updated) :
    persistOrRestore w updated previous s =
      if accepts w s updated then (.ok (), storeRow updated s.called)
      else (.error .backend, { s.called with entries := s.entries.set previous }) := by
  unfold persistOrRestore Prog.rollback
  rw [Prog.handle_run, saveRow_run]
  cases accepts w s updated with
  | true => rfl
  | false =>
    have h' : s.called.entries.get? updated.key = some updated := h
    simp only [Bool.false_eq_true, ↓reduceIte]
    rw [Prog.bind_run_ok (restoreIfSame_run h')]
    rfl

/-- A rewrite takes effect in the cache and in the durable table, or not at all. -/
theorem rewriteEntry_run (w : World) {before after : MemoryEntry} {s : Store}
    (hkey : after.key = before.key) (hs : s.entries.get? before.key = some before) :
    rewriteEntry w before after s =
      if accepts w s after then
        (.ok (), storeRow after { s.called with entries := s.entries.set after })
      else (.error .backend, s.called) := by
  have hget : (s.entries.set after).get? after.key = some after := Table.get?_set_self _ _
  have hback : (s.entries.set after).set before = s.entries := by
    rw [Table.set_set _ hkey, Table.set_of_get? hs]
  unfold rewriteEntry
  rw [Prog.bind_run, setEntry_run]
  dsimp only
  rw [Prog.bind_run, persistOrRestore_run w hget]
  rw [show accepts w { s with entries := s.entries.set after } after = accepts w s after from rfl]
  cases accepts w s after with
  | true => exact dropIfConcurrentlyRemoved_run w hget
  | false =>
    simp only [Bool.false_eq_true, ↓reduceIte, hback]
    rfl

section Primitives
variable {I : Store → Prop} {w : World}

theorem keeps_backendCall (hI : Bookkeeping I) : Keeps I (backendCall w) := by
  intro s hs
  unfold backendCall
  cases w.refuses s.calls with
  | true => exact hI.calls s hs
  | false => exact ⟨hI.calls s hs, trivial⟩

theorem keeps_utcNow (hI : Bookkeeping I) : Keeps I (utcNow w) :=
  fun s hs => ⟨hI.ticks s hs, trivial⟩

theorem keeps_checkRateLimit (hI : Bookkeeping I) : Keeps I (checkRateLimit w) := by
  intro s hs
  unfold checkRateLimit
  cases w.rateAllowed s.checks with
  | true => exact ⟨hI.checks s hs, trivial⟩
  | false => exact hI.checks s hs

theorem keeps_saveRow (hI : Bookkeeping I) {e : MemoryEntry} (h : ∀ s, I s → I (storeRow e s)) :
    Keeps I (saveRow w e) := by
  refine (keeps_backendCall hI).bind (fun _ _ => ?_)
  split
  · exact Keeps.modify h
  · exact Keeps.raise

theorem keeps_deleteRow (hI : Bookkeeping I) {key : String}
    (h : ∀ s, I s → I { s with rows := s.rows.pop key }) : Keeps I (deleteRow w key) :=
  (keeps_backendCall hI).bind (fun _ _ => Keeps.modify h)

/-- What `load_one` returns comes from a stored row. -/
theorem keeps_loadOne (hI : Bookkeeping I) {φ : MemoryEntry → Prop} {key : String}
    (h : ∀ s row e, I s → row ∈ s.rows.values → rowToEntry w.toConfig row = .ok e → φ e) :
    Keeps I (loadOne w key) (fun r => ∀ e, r = some e → φ e ∧ e.key = key) := by
  refine (keeps_backendCall hI).bind (fun _ _ => ?_)
  have hread : Keeps I (Prog.read (fun s : Store => s.rows.get? key) : StoreM _)
      (fun r => ∀ row, r = some row → row.key = key ∧
        ∀ e, rowToEntry w.toConfig row = .ok e → φ e) := by
    refine Keeps.read (fun s hs row hrow => ⟨Table.key_of_get? hrow, fun e he => ?_⟩)
    exact h s row e hs (Table.mem_of_get? hrow) he
  refine hread.bind (fun r hr => ?_)
  cases r with
  | none => exact Keeps.pure (fun e he => nomatch he)
  | some row =>
    refine (Keeps.ofExcept (Q := fun e => φ e ∧ e.key = key) (fun e he => ?_)).bind
      (fun e he => Keeps.pure (fun e' he' => Option.some.inj he' ▸ he))
    refine ⟨(hr row rfl).2 e he, ?_⟩
    rw [(rowToEntry_ok he).2, normalised_key, (hr row rfl).1]

/-- What `load_all` returns comes from stored rows. -/
theorem keeps_loadAll (hI : Bookkeeping I) {φ : MemoryEntry → Prop} {limit : Option Nat}
    (h : ∀ s row e, I s → row ∈ s.rows.values → rowToEntry w.toConfig row = .ok e → φ e) :
    Keeps I (loadAll w limit) (fun l => ∀ e ∈ l, φ e) := by
  refine (keeps_backendCall hI).bind (fun _ _ => ?_)
  have hread : Keeps I (Prog.read newestRows : StoreM _)
      (fun l => ∀ row ∈ l, ∀ e, rowToEntry w.toConfig row = .ok e → φ e) :=
    Keeps.read (fun s hs row hrow e he => h s row e hs (mem_newestRows.1 hrow) he)
  refine hread.bind (fun rows hrows => Keeps.ofExcept (fun l hl e he => ?_))
  obtain ⟨row, hrow, hre⟩ := rowsToEntries_mem hl he
  exact hrows row (mem_of_mem_limited hrow) e hre

theorem keeps_appendAudit (hI : Bookkeeping I) {key : String} {event : AuditEvent} :
    Keeps I (appendAudit w key event) :=
  ((keeps_backendCall hI).bind (fun _ _ => Keeps.modify (fun s hs => hI.audit s _ hs))).swallow

theorem keeps_archiveEntry (hI : Bookkeeping I) {e : MemoryEntry} : Keeps I (archiveEntry w e) :=
  ((keeps_backendCall hI).bind (fun _ _ =>
    (Keeps.modify (fun s hs => hI.archive s _ hs)).bind (fun _ _ => Keeps.pure trivial))).handle
    (fun _ => Keeps.pure trivial)

theorem keeps_saveRelationRows (hI : Bookkeeping I) {key : String} {rels : List RelationEntry}
    (h : ∀ s, I s → I { s with relationRows := upsertRelations key rels s.relationRows }) :
    Keeps I (saveRelationRows w key rels) := by
  unfold saveRelationRows
  split
  · exact Keeps.pure trivial
  · exact (keeps_backendCall hI).bind (fun _ _ => Keeps.modify h)

theorem keeps_loadRelationRows (hI : Bookkeeping I) {key : String} :
    Keeps I (loadRelationRows w key) :=
  (keeps_backendCall hI).bind (fun _ _ => Keeps.read (fun _ _ => trivial))

theorem keeps_deleteRelationRows (hI : Bookkeeping I) {key : String}
    (h : ∀ s, I s → I { s with
      relationRows := s.relationRows.filter (fun r => !r.sourceEntryKeys.contains key) }) :
    Keeps I (deleteRelationRows w key) :=
  (keeps_backendCall hI).bind (fun _ _ => Keeps.modify h)

theorem keeps_getEntry {key : String} {φ : MemoryEntry → Prop}
    (h : ∀ s e, I s → e ∈ s.entries.values → φ e) :
    Keeps I (getEntry key) (fun r => ∀ e, r = some e → φ e ∧ e.key = key) :=
  Keeps.read (fun s hs e he => ⟨h s e hs (Table.mem_of_get? he), Table.key_of_get? he⟩)

theorem keeps_snapshot {φ : MemoryEntry → Prop} (h : ∀ s e, I s → e ∈ s.entries.values → φ e) :
    Keeps I snapshot (fun l => ∀ e ∈ l, φ e) :=
  Keeps.read (fun s hs e he => h s e hs he)

theorem keeps_setEntry {e : MemoryEntry}
    (h : ∀ s, I s → I { s with entries := s.entries.set e }) : Keeps I (setEntry e) :=
  Keeps.modify h

theorem keeps_popEntry {key : String}
    (h : ∀ s, I s → I { s with entries := s.entries.pop key }) : Keeps I (popEntry key) :=
  Keeps.modify h

end Primitives
theorem ensureEntryCached_slot {w : World} {key : String} {e : MemoryEntry} {s t : Store}
    (h : ensureEntryCached w key s = (.ok (some e), t)) :
    t.entries.get? key = some e ∧ e.key = key := by
  have hslot : t.entries.get? key = some e := by
    rw [ensureEntryCached_run] at h
    cases hc : s.entries.get? key with
    | some e' =>
      rw [hc] at h
      cases h
      exact hc
    | none =>
      rw [hc] at h
      dsimp only at h
      split at h
      · cases h
      · split at h
        · cases h
        · next row hrow =>
          split at h
          · cases h
          · next e' he' =>
            cases h
            have hkey : e.key = key := by
              rw [(rowToEntry_ok he').2, ← Table.key_of_get? hrow]
              rfl
            rw [← hkey]
            exact Table.get?_set_self _ _
  exact ⟨hslot, Table.key_of_get? hslot⟩

/-- The store after one more reading of the clock. -/
def Store.ticked (s : Store) : Store := { s with ticks := s.ticks + 1 }

theorem updateFields_run (w : World) {key : String} {e : MemoryEntry} {s : Store} (patch : FieldPatch)
    (hs : s.entries.get? key = some e) :
    updateFields w key patch s =
      if accepts w s.ticked (patch.apply (w.clock s.ticks) e) then
        (.ok (some (patch.apply (w.clock s.ticks) e)),
          storeRow (patch.apply (w.clock s.ticks) e)
            { s.ticked.called with entries := s.entries.set (patch.apply (w.clock s.ticks) e) })
      else (.error .backend, s.ticked.called) := by
  have hread : ensureEntryCached w key s = (.ok (some e), s) := by rw [ensureEntryCached_run, hs]
  have hslot : s.ticked.entries.get? e.key = some e := by
    rw [Table.key_of_get? hs]
    exact hs
  rw [updateFields, Prog.bind_run_ok hread]
  simp only [Prog.bind_run, utcNow_run]
  rw [show ({ s with ticks := s.ticks + 1 } : Store) = s.ticked from rfl,
    rewriteEntry_run w (FieldPatch.apply_key _ _ _) hslot]
  cases accepts w s.ticked (patch.apply (w.clock s.ticks) e) with
  | true => rfl
  | false => rfl

/-- A read of a cached entry stores the stamp of the access, or changes nothing. -/
theorem get_run (w : World) {key : String} {e : MemoryEntry} {s : Store}
    (hs : s.entries.get? key = some e) :
    get w key s =
      if accepts w s.ticked (accessed (w.clock s.ticks) e) then
        (.ok (some (accessed (w.clock s.ticks) e)),
          storeRow (accessed (w.clock s.ticks) e)
            { s.ticked.called with entries := s.entries.set (accessed (w.clock s.ticks) e) })
      else (.error .backend, s.ticked.called) := by
  have hread : ensureEntryCached w key s = (.ok (some e), s) := by rw [ensureEntryCached_run, hs]
  have hkey : e.key = key := Table.key_of_get? hs
  have hslot : s.ticked.entries.get? e.key = some e := by
    rw [hkey]
    exact hs
  have hbody : get w key s =
      (rewriteEntry w e (accessed (w.clock s.ticks) e) >>= fun _ =>
        pure (some (accessed (w.clock s.ticks) e))) s.ticked := by
    rw [get, Prog.bind_run_ok hread, ← hkey]
    simp only [rewriteEntry, Prog.bind_assoc]
    rfl
  have hk : (accessed (w.clock s.ticks) e).key = e.key := rfl
  rw [hbody, Prog.bind_run, rewriteEntry_run w hk hslot]
  cases accepts w s.ticked (accessed (w.clock s.ticks) e) <;> rfl

theorem appendAudit_run (w : World) (key : String) (event : AuditEvent) (s : Store) :
    appendAudit w key event s = (.ok (), { s.called with
      audit := if w.refuses s.calls then s.audit else s.audit ++ [⟨key, event⟩] }) := by
  unfold appendAudit Prog.swallow
  rw [Prog.handle_run, Prog.bind_run, backendCall_run]
  cases w.refuses s.calls <;> rfl

theorem invalidateOne_run (w : World) {current invalidated : MemoryEntry} {s : Store}
    (hk : invalidated.key = current.key) (hs : s.entries.get? current.key = some current) :
    invalidateOne w current invalidated s =
      if accepts w s invalidated then
        (.ok true, storeRow invalidated { s.called with entries := s.entries.set invalidated })
      else (.ok false, s.called) := by
  have hget : (s.entries.set invalidated).get? invalidated.key = some invalidated :=
    Table.get?_set_self _ _
  have hback : (s.entries.set invalidated).set current = s.entries := by
    rw [Table.set_set _ hk, Table.set_of_get? hs]
  unfold invalidateOne
  rw [Prog.bind_run, setEntry_run]
  dsimp only
  rw [Prog.handle_run, Prog.bind_run, saveRow_run]
  rw [show accepts w { s with entries := s.entries.set invalidated } invalidated =
    accepts w s invalidated from rfl]
  cases accepts w s invalidated with
  | true =>
    simp only [↓reduceIte]
    rw [Prog.bind_run_ok (dropIfConcurrentlyRemoved_run w hget)]
    rfl
  | false =>
    simp only [Bool.false_eq_true, ↓reduceIte]
    rw [Prog.bind_run_ok (restoreIfSame_run hget)]
    simp only [Store.called_entries, hback, Prog.pure_run]
    rfl

/-- Closing writes well-formed stamps only. -/
theorem columnsAccept_closeWith {e : MemoryEntry} (h : columnsAccept e = true) (reason : String)
    (status : MemoryStatus) (now : Stamp) (succ detail : Option String) :
    columnsAccept (closeWith reason status now succ detail e) = true := by
  simp only [columnsAccept, List.all_cons, List.all_nil, Bool.and_true, Bool.and_eq_true] at h ⊢
  cases status
  all_goals
    first
      | exact ⟨⟨h.1.1, rfl, h.1.2.2⟩, h.2⟩
      | exact ⟨⟨h.1.1, rfl, rfl⟩, h.2⟩

theorem closePatch_apply (reason : String) (status : MemoryStatus) (now now' : Stamp)
    (succ detail : Option String) (e : MemoryEntry) :
    (closePatch reason status now succ detail).apply now' e =
      closeWith reason status now succ detail e := by
  cases status <;> rfl

/-- A cached entry is closed in the cache and in the durable table and the closing is logged, or
nothing is changed. -/
theorem closeValidity_run (w : World) {key reason : String} {status : MemoryStatus}
    {succ detail : Option String} {e : MemoryEntry} {s : Store} (hs : s.entries.get? key = some e)
    (hstatus : closeValidityStatus reason = some status) :
    closeValidity w key reason succ detail s =
      let closed := closeWith reason status (w.clock s.ticks) succ detail e
      if accepts w s.ticked.ticked closed then
        (appendAudit w key (.closeValidity reason status (w.clock s.ticks) succ detail) >>= fun _ =>
          pure (some closed))
          (storeRow closed { s.ticked.ticked.called with entries := s.entries.set closed })
      else (.error .backend, s.ticked.ticked.called) := by
  have hs' : s.ticked.entries.get? key = some e := hs
  have hupdate := updateFields_run w (closePatch reason status (w.clock s.ticks) succ detail) hs'
  simp only [closePatch_apply] at hupdate
  rw [closeValidity, Prog.bind_run, utcNow_run]
  dsimp only
  rw [hstatus]
  dsimp only
  rw [show ({ s with ticks := s.ticks + 1 } : Store) = s.ticked from rfl]
  cases hacc : accepts w s.ticked.ticked (closeWith reason status (w.clock s.ticks) succ detail e) with
  | true =>
    rw [hacc, if_pos rfl] at hupdate
    rw [Prog.bind_run_ok hupdate, if_pos rfl]
    rfl
  | false =>
    rw [hacc, if_neg Bool.false_ne_true] at hupdate
    rw [Prog.bind_run_error hupdate, if_neg Bool.false_ne_true]

end TappsBrain
