import TappsBrain.Rules

namespace TappsBrain
open Lib
set_option autoImplicit true
set_option relaxedAutoImplicit false

/-- An invariant of the store under an environment, with what the entries it shows and the clock
readings satisfy, and which writes and removals it allows. -/
structure Discipline (w : World) where
  inv : Store → Prop
  sees : MemoryEntry → Prop
  writes : MemoryEntry → Prop
  frees : String → Prop
  reads : Stamp → Prop
  bookkeeping : Bookkeeping inv
  ignoresRelations : IgnoresRelations inv
  cached : ∀ s e, inv s → e ∈ s.entries.values → sees e
  loads : ∀ s row e, inv s → row ∈ s.rows.values → rowToEntry w.toConfig row = .ok e → sees e
  hydrate : ∀ s row e, inv s → row ∈ s.rows.values → rowToEntry w.toConfig row = .ok e →
    s.entries.get? e.key = none → inv { s with entries := s.entries.set e }
  assign : ∀ s e, inv s → writes e → inv { s with entries := s.entries.set e }
  store : ∀ s e, inv s → writes e → inv (storeRow e s)
  pop : ∀ s key, inv s → frees key → inv { s with entries := s.entries.pop key }
  drop : ∀ s key, inv s → frees key → inv { s with rows := s.rows.pop key }
  filter : ∀ s p, inv s → (∀ key, frees key) → inv { s with entries := s.entries.filter p }
  frees_of_writes : ∀ e, writes e → frees e.key
  reading : ∀ s, inv s → reads (w.clock s.ticks)

namespace Discipline
variable {w : World} (d : Discipline w)

/-- The discipline from the `n`-th clock reading and the `c`-th backend call on. -/
def since (n c : Nat) : Discipline w where
  inv := fun s => (n ≤ s.ticks ∧ c ≤ s.calls) ∧ d.inv s
  sees := d.sees
  writes := d.writes
  frees := d.frees
  reads := fun now => d.reads now ∧ ∃ m, n ≤ m ∧ now = w.clock m
  bookkeeping :=
    { calls := fun s h => ⟨⟨h.1.1, Nat.le_succ_of_le h.1.2⟩, d.bookkeeping.calls s h.2⟩
      ticks := fun s h => ⟨⟨Nat.le_succ_of_le h.1.1, h.1.2⟩, d.bookkeeping.ticks s h.2⟩
      checks := fun s h => ⟨h.1, d.bookkeeping.checks s h.2⟩
      audit := fun s l h => ⟨h.1, d.bookkeeping.audit s l h.2⟩
      archive := fun s l h => ⟨h.1, d.bookkeeping.archive s l h.2⟩
      inProgress := fun s b h => ⟨h.1, d.bookkeeping.inProgress s b h.2⟩ }
  ignoresRelations :=
    ⟨fun s t h => ⟨h.1, d.ignoresRelations.cached s t h.2⟩,
      fun s t h => ⟨h.1, d.ignoresRelations.durable s t h.2⟩⟩
  cached := fun s e h => d.cached s e h.2
  loads := fun s row e h => d.loads s row e h.2
  hydrate := fun s row e h hrow he hnew => ⟨h.1, d.hydrate s row e h.2 hrow he hnew⟩
  assign := fun s e h hw => ⟨h.1, d.assign s e h.2 hw⟩
  store := fun s e h hw => ⟨h.1, d.store s e h.2 hw⟩
  pop := fun s key h hf => ⟨h.1, d.pop s key h.2 hf⟩
  drop := fun s key h hf => ⟨h.1, d.drop s key h.2 hf⟩
  filter := fun s p h hall => ⟨h.1, d.filter s p h.2 hall⟩
  frees_of_writes := d.frees_of_writes
  reading := fun s h => ⟨d.reading s h.2, s.ticks, h.1.1, rfl⟩

theorem utcNow : Keeps d.inv (utcNow w) d.reads :=
  fun s hs => ⟨d.bookkeeping.ticks s hs, d.reading s hs⟩

theorem snapshot : Keeps d.inv snapshot (fun l => ∀ e ∈ l, d.sees e) := keeps_snapshot d.cached

theorem getEntry (key : String) :
    Keeps d.inv (getEntry key) (fun r => ∀ e, r = some e → d.sees e ∧ e.key = key) :=
  keeps_getEntry d.cached

theorem setEntry {e : MemoryEntry} (h : d.writes e) : Keeps d.inv (setEntry e) :=
  keeps_setEntry (fun s hs => d.assign s e hs h)

theorem popEntry {key : String} (h : d.frees key) : Keeps d.inv (popEntry key) :=
  keeps_popEntry (fun s hs => d.pop s key hs h)

theorem saveRow {e : MemoryEntry} (h : d.writes e) : Keeps d.inv (saveRow w e) :=
  keeps_saveRow d.bookkeeping (fun s hs => d.store s e hs h)

theorem deleteRow {key : String} (h : d.frees key) : Keeps d.inv (deleteRow w key) :=
  keeps_deleteRow d.bookkeeping (fun s hs => d.drop s key hs h)

theorem appendAudit (key : String) (event : AuditEvent) : Keeps d.inv (appendAudit w key event) :=
  keeps_appendAudit d.bookkeeping

theorem saveRelationRows (key : String) (rels : List RelationEntry) :
    Keeps d.inv (saveRelationRows w key rels) :=
  keeps_saveRelationRows d.bookkeeping (fun s hs => d.ignoresRelations.durable s _ hs)

theorem loadRelationRows (key : String) : Keeps d.inv (loadRelationRows w key) :=
  keeps_loadRelationRows d.bookkeeping

theorem deleteRelationRows (key : String) : Keeps d.inv (deleteRelationRows w key) :=
  keeps_deleteRelationRows d.bookkeeping (fun s hs => d.ignoresRelations.durable s _ hs)

theorem setBucket (key : String) (rels : List RelationEntry) : Keeps d.inv (setBucket key rels) :=
  Keeps.modify (fun s hs => d.ignoresRelations.cached s _ hs)

theorem popBucket (key : String) : Keeps d.inv (popBucket key) :=
  Keeps.modify (fun s hs => d.ignoresRelations.cached s _ hs)

theorem loadAll (limit : Option Nat) : Keeps d.inv (loadAll w limit) (fun l => ∀ e ∈ l, d.sees e) :=
  keeps_loadAll d.bookkeeping d.loads

/-- Hydration is the one write that no permission is needed for. -/
theorem ensureEntryCached (key : String) :
    Keeps d.inv (ensureEntryCached w key) (fun r => ∀ e, r = some e → d.sees e ∧ e.key = key) := by
  intro s hs
  have hcalls : d.inv s.called := d.bookkeeping.calls s hs
  rw [ensureEntryCached_run]
  cases hc : s.entries.get? key with
  | some e =>
    refine ⟨hs, fun e' he' => ?_⟩
    cases he'
    exact ⟨d.cached s e hs (Table.mem_of_get? hc), Table.key_of_get? hc⟩
  | none =>
    cases w.refuses s.calls with
    | true => exact hcalls
    | false =>
      simp only [Bool.false_eq_true, ↓reduceIte]
      cases hr : s.rows.get? key with
      | none =>
        refine ⟨hcalls, fun e he => ?_⟩
        cases he
      | some row =>
        dsimp only
        cases he : rowToEntry w.toConfig row with
        | error err => exact hcalls
        | ok e =>
          have hk : e.key = key := by
            rw [(rowToEntry_ok he).2, normalised_key]
            exact Table.key_of_get? hr
          have hrow : row ∈ s.called.rows.values := Table.mem_of_get? hr
          have hnew : s.called.entries.get? e.key = none := by rw [hk]; exact hc
          refine ⟨d.hydrate s.called row e hcalls hrow he hnew, fun e' he' => ?_⟩
          cases he'
          exact ⟨d.loads s.called row e hcalls hrow he, hk⟩

theorem fillCache {cap : Nat} {full : Bool} (entries : List MemoryEntry) (s : Store) (hs : d.inv s)
    (h : ∀ e ∈ entries, ∃ row ∈ s.rows.values, rowToEntry w.toConfig row = .ok e) :
    d.inv { s with entries := fillCache cap full s.entries entries } := by
  induction entries generalizing s with
  | nil => exact hs
  | cons e rest ih =>
    have hrest := fun e' he' => h e' (List.mem_cons_of_mem e he')
    simp only [TappsBrain.fillCache]
    split
    · exact ih s hs hrest
    · next hnew =>
      obtain ⟨row, hrow, he⟩ := h e List.mem_cons_self
      simp only [Table.contains, Bool.or_eq_true, not_or, Bool.not_eq_true,
        Option.isSome_eq_false_iff, Option.isNone_iff_eq_none] at hnew
      exact ih { s with entries := s.entries.set e } (d.hydrate s row e hs hrow he hnew.1) hrest

/-- Loading rows and filling the cache from them. -/
theorem loadAndFill (limit : Option Nat) (full : Bool) :
    Keeps d.inv (do
      let durable ← TappsBrain.loadAll w limit
      Prog.modify (fun s => { s with
        entries := TappsBrain.fillCache w.maxEntries full s.entries durable })) := by
  intro s hs
  have hcalls : d.inv s.called := d.bookkeeping.calls s hs
  rw [Prog.bind_run, loadAll_run]
  cases w.refuses s.calls with
  | true => exact hcalls
  | false =>
    simp only [Bool.false_eq_true, ↓reduceIte]
    cases hl : rowsToEntries w.toConfig (limited limit (newestRows s)) with
    | error err => exact hcalls
    | ok entries =>
      refine ⟨d.fillCache entries s.called hcalls (fun e he => ?_), trivial⟩
      obtain ⟨row, hrow, hre⟩ := rowsToEntries_mem hl he
      exact ⟨row, mem_newestRows.1 (mem_of_mem_limited hrow), hre⟩

theorem mergeDurableEntries (full : Bool) : Keeps d.inv (mergeDurableEntries w full) := by
  refine Keeps.ask.bind (fun size _ => ?_)
  split
  · exact Keeps.pure trivial
  · exact d.loadAndFill _ full

theorem countEntriesInMemoryGroup (group : Option String) :
    Keeps d.inv (countEntriesInMemoryGroup w group) := by
  unfold TappsBrain.countEntriesInMemoryGroup
  rw [← Prog.bind_assoc]
  exact (d.loadAndFill none true).bind (fun _ _ => Keeps.ask)

section Rewrite

theorem restoreSlot (key : String) (e : Option MemoryEntry) (h : ∀ e', e = some e' → d.writes e')
    (hk : e = none → d.frees key) : Keeps d.inv (restoreSlot key e) := by
  cases e with
  | none => exact d.popEntry (hk rfl)
  | some e => exact d.setEntry (h e rfl)

theorem restoreIfSame (updated : MemoryEntry) {previous : MemoryEntry} (h : d.writes previous) :
    Keeps d.inv (restoreIfSame updated previous) := by
  refine (d.getEntry updated.key).forget.bind (fun current _ => ?_)
  split
  · exact d.setEntry h
  · exact Keeps.pure trivial

theorem persistOrRestore {updated previous : MemoryEntry} (hu : d.writes updated)
    (hp : d.writes previous) : Keeps d.inv (persistOrRestore w updated previous) :=
  (d.saveRow hu).rollback (d.restoreIfSame updated hp)

theorem dropIfConcurrentlyRemoved {key : String} (h : d.frees key) :
    Keeps d.inv (dropIfConcurrentlyRemoved w key) := by
  refine (d.getEntry key).forget.bind (fun current _ => ?_)
  split
  · exact (d.deleteRow h).swallow
  · exact Keeps.pure trivial

theorem rewriteEntry {before after : MemoryEntry} (hb : d.writes before) (ha : d.writes after) :
    Keeps d.inv (rewriteEntry w before after) := by
  refine (d.setEntry ha).bind (fun _ _ => ?_)
  refine (d.persistOrRestore ha hb).bind (fun _ _ => ?_)
  exact d.dropIfConcurrentlyRemoved (d.frees_of_writes after ha)

/-- Both the entry found under `key` and what `f` makes of it may be written. -/
def Allows (key : String) (f : Stamp → MemoryEntry → MemoryEntry) : Prop :=
  ∀ e now, d.sees e → e.key = key → d.reads now → d.writes e ∧ d.writes (f now e)

theorem updateFields {key : String} {patch : FieldPatch} (h : d.Allows key patch.apply) :
    Keeps d.inv (updateFields w key patch)
      (fun r => ∀ e, r = some e → d.writes e ∧ e.key = key) := by
  refine (d.ensureEntryCached key).bind (fun r hr => ?_)
  cases r with
  | none => exact Keeps.pure (fun e he => nomatch he)
  | some e =>
    obtain ⟨hsees, hkey⟩ := hr e rfl
    refine d.utcNow.bind (fun now hnow => ?_)
    obtain ⟨hb, ha⟩ := h e now hsees hkey hnow
    refine (d.rewriteEntry hb ha).bind (fun _ _ => Keeps.pure (fun e' he' => ?_))
    cases he'
    exact ⟨ha, (patch.apply_key now e).trans hkey⟩

theorem closeValidity {key reason : String} {supersededBy detail : Option String}
    (h : ∀ status, closeValidityStatus reason = some status →
      d.Allows key (fun now => closeWith reason status now supersededBy detail)) :
    Keeps d.inv (closeValidity w key reason supersededBy detail)
      (fun r => ∀ e, r = some e → d.writes e ∧ e.key = key) := by
  refine d.utcNow.bind (fun now hnow => ?_)
  cases hr : closeValidityStatus reason with
  | none =>
    refine Keeps.ofExcept (fun r hr' => ?_)
    simp only [closeValidityUpdates, hr, Except.map, reduceCtorEq] at hr'
  | some status =>
    have hallows : d.Allows key (closePatch reason status now supersededBy detail).apply := by
      intro e _ hsees hkey _
      obtain ⟨hb, ha⟩ := h status hr e now hsees hkey hnow
      refine ⟨hb, ?_⟩
      cases status <;> exact ha
    refine (d.updateFields hallows).bind (fun r hr' => ?_)
    cases r with
    | none => exact Keeps.pure (fun e he => nomatch he)
    | some e => exact (d.appendAudit key _).bind (fun _ _ => Keeps.pure hr')

theorem undoSaveConflict {key : String} (dryRun : Bool)
    (h : ∀ e, d.sees e → e.key = key → d.writes e ∧ ∀ updatedAt, d.writes
      { e with contradicted := false, contradictionReason := none, status := .active, updatedAt }) :
    Keeps d.inv (undoSaveConflict w key dryRun) := by
  refine (d.ensureEntryCached key).forget.bind (fun r _ => ?_)
  cases r with
  | none => exact Keeps.pure trivial
  | some e =>
    dsimp only
    split
    · exact Keeps.pure trivial
    split
    · exact Keeps.pure trivial
    split
    · exact Keeps.pure trivial
    have hallows : d.Allows key (undoPatch e.updatedAt).apply :=
      fun e' _ hsees hkey _ => ⟨(h e' hsees hkey).1, (h e' hsees hkey).2 e.updatedAt⟩
    refine (d.updateFields hallows).forget.bind (fun r _ => ?_)
    cases r with
    | none => exact Keeps.pure trivial
    | some _ => exact (d.appendAudit key _).bind (fun _ _ => Keeps.pure trivial)

/-- Only the trust columns and the stamp of an entry of `key` change. -/
def AllowsPromotion (key : String) : Prop :=
  ∀ e, d.sees e → e.key = key →
    d.writes e ∧ ∀ promotion updatedAt, d.writes { e with promotion, updatedAt }

theorem promoteLearning {key : String} (signal actor : String) (evidence : Option String)
    (h : d.AllowsPromotion key) : Keeps d.inv (promoteLearning w key signal actor evidence) := by
  unfold TappsBrain.promoteLearning
  split
  · exact Keeps.raise
  · next sig _ =>
    split
    · exact Keeps.raise
    refine (d.ensureEntryCached key).forget.bind (fun r _ => ?_)
    cases r with
    | none => exact Keeps.raise
    | some e =>
      dsimp only
      split
      · exact Keeps.raise
      refine d.utcNow.forget.bind (fun promotedAt _ => ?_)
      have hallows : d.Allows key (promotePatch actor sig promotedAt e.updatedAt).apply :=
        fun e' _ hsees hkey _ => ⟨(h e' hsees hkey).1, (h e' hsees hkey).2 _ e.updatedAt⟩
      refine (d.updateFields hallows).forget.bind (fun r _ => ?_)
      cases r with
      | none => exact Keeps.raise
      | some _ => exact (d.appendAudit key _).bind (fun _ _ => Keeps.pure trivial)

theorem demoteLearning {key : String} (reason : String) (h : d.AllowsPromotion key) :
    Keeps d.inv (demoteLearning w key reason) := by
  unfold TappsBrain.demoteLearning
  split
  · exact Keeps.raise
  refine (d.ensureEntryCached key).forget.bind (fun r _ => ?_)
  cases r with
  | none => exact Keeps.raise
  | some e =>
    have hallows : d.Allows key (demotePatch reason e.updatedAt).apply :=
      fun e' _ hsees hkey _ => ⟨(h e' hsees hkey).1, (h e' hsees hkey).2 _ e.updatedAt⟩
    refine (d.updateFields hallows).forget.bind (fun r _ => ?_)
    cases r with
    | none => exact Keeps.raise
    | some _ => exact (d.appendAudit key _).bind (fun _ _ => Keeps.pure trivial)

/-- The rows of reinforcement and of the escalation that may follow it may be written. -/
structure AllowsReinforce (key : String) (boost : ℚ) : Prop where
  reinforced : d.Allows key (reinforced w.toConfig boost)
  promoted : ∀ e at₁ at₂ at₃ target, d.sees e → e.key = key → d.reads at₁ → d.reads at₃ →
    checkPromotion w.toConfig (TappsBrain.reinforced w.toConfig boost at₁ e) at₂ = some target →
    d.writes (TappsBrain.promoted w.toConfig target at₃
      (TappsBrain.reinforced w.toConfig boost at₁ e))

theorem maybePromoteAfterReinforce {updated : MemoryEntry} (hu : d.writes updated)
    (h : ∀ checkedAt now target, checkPromotion w.toConfig updated checkedAt = some target →
      d.reads now → d.writes (promoted w.toConfig target now updated)) :
    Keeps d.inv (maybePromoteAfterReinforce w updated) (fun e => d.writes e ∧ e.key = updated.key) := by
  unfold TappsBrain.maybePromoteAfterReinforce
  split
  · exact Keeps.pure ⟨hu, rfl⟩
  refine Keeps.handle ?_ (fun _ => Keeps.pure ⟨hu, rfl⟩)
  refine d.utcNow.forget.bind (fun checkedAt _ => ?_)
  cases hc : checkPromotion w.toConfig updated checkedAt with
  | none => exact Keeps.pure ⟨hu, rfl⟩
  | some target =>
    refine d.utcNow.bind (fun now hnow => ?_)
    have hp := h checkedAt now target hc hnow
    refine (d.rewriteEntry hu hp).bind (fun _ _ => ?_)
    exact (d.appendAudit updated.key _).bind (fun _ _ => Keeps.pure ⟨hp, rfl⟩)

theorem reinforce {key : String} {boost : ℚ} (h : d.AllowsReinforce key boost) :
    Keeps d.inv (reinforce w key boost) (fun e => d.writes e ∧ e.key = key) := by
  refine (d.ensureEntryCached key).bind (fun r hr => ?_)
  cases r with
  | none => exact Keeps.raise
  | some e =>
    obtain ⟨hsees, hkey⟩ := hr e rfl
    refine d.utcNow.bind (fun now hnow => ?_)
    obtain ⟨hb, ha⟩ := h.reinforced e now hsees hkey hnow
    refine (d.rewriteEntry hb ha).bind (fun _ _ => ?_)
    refine (d.maybePromoteAfterReinforce ha (fun checkedAt now' target hc hnow' => ?_)).weaken
      (fun e' he' => ⟨he'.1, by rw [he'.2, reinforced_key, hkey]⟩)
    exact h.promoted e now checkedAt now' target hsees hkey hnow hnow' hc

theorem recordAccess {key : String} {wasUseful : Bool}
    (h : d.Allows key (accessRecorded w.toConfig wasUseful)) :
    Keeps d.inv (recordAccess w key wasUseful) := by
  refine (d.ensureEntryCached key).bind (fun r hr => ?_)
  cases r with
  | none => exact Keeps.pure trivial
  | some e =>
    obtain ⟨hsees, hkey⟩ := hr e rfl
    refine d.utcNow.bind (fun now hnow => ?_)
    obtain ⟨hb, ha⟩ := h e now hsees hkey hnow
    exact d.rewriteEntry hb ha

theorem get {key : String} (h : d.Allows key accessed) :
    Keeps d.inv (get w key) (fun r => ∀ e, r = some e → d.writes e ∧ e.key = key) := by
  refine (d.ensureEntryCached key).bind (fun r hr => ?_)
  cases r with
  | none => exact Keeps.pure (fun e he => nomatch he)
  | some e =>
    obtain ⟨hsees, hkey⟩ := hr e rfl
    refine d.utcNow.bind (fun now hnow => ?_)
    obtain ⟨hb, ha⟩ := h e now hsees hkey hnow
    refine (d.setEntry ha).bind (fun _ _ => ?_)
    refine (d.persistOrRestore ha hb).bind (fun _ _ => ?_)
    refine (d.dropIfConcurrentlyRemoved (hkey ▸ d.frees_of_writes e hb)).bind (fun _ _ => ?_)
    refine Keeps.pure (fun e' he' => ?_)
    cases he'
    exact ⟨ha, hkey⟩

end Rewrite

section Remove

theorem deleteRelationsOrRestore (key : String) (removed : Option MemoryEntry)
    (h : ∀ e, removed = some e → d.writes e) :
    Keeps d.inv (deleteRelationsOrRestore w key removed) := by
  refine (d.deleteRelationRows key).rollback ?_
  cases removed with
  | none => exact Keeps.pure trivial
  | some e => exact (d.setEntry (h e rfl)).bind (fun _ _ => (d.saveRow (h e rfl)).swallow)

theorem removeDurably {key : String} {entry : Option MemoryEntry} (hf : d.frees key)
    (h : ∀ e, entry = some e → d.writes e) : Keeps d.inv (removeDurably w key entry) := by
  refine (d.popEntry hf).bind (fun _ _ => ?_)
  refine ((d.deleteRow hf).rollback (d.restoreSlot key entry h (fun _ => hf))).bind (fun _ _ => ?_)
  exact d.deleteRelationsOrRestore key entry h

theorem delete {key : String} (h : ∀ e, d.sees e → e.key = key → d.writes e) :
    Keeps d.inv (delete w key) := by
  refine (d.ensureEntryCached key).bind (fun r hr => ?_)
  cases r with
  | none => exact Keeps.pure trivial
  | some e =>
    obtain ⟨hsees, hkey⟩ := hr e rfl
    have hw := h e hsees hkey
    have hf : d.frees key := hkey ▸ d.frees_of_writes e hw
    refine (d.removeDurably hf (fun e' he' => Option.some.inj he' ▸ hw)).bind (fun _ _ => ?_)
    refine Keeps.bind (Keeps.modify (fun s hs => d.ignoresRelations.cached s _ hs)) (fun _ _ => ?_)
    exact (d.appendAudit key _).bind (fun _ _ => Keeps.pure trivial)

theorem evictEntryKey {key : String} (hf : d.frees key)
    (h : ∀ e, d.sees e → e.key = key → d.writes e) : Keeps d.inv (evictEntryKey w key) := by
  refine (d.getEntry key).bind (fun entry hentry => ?_)
  have hw : ∀ e, entry = some e → d.writes e :=
    fun e he => h e (hentry e he).1 (hentry e he).2
  exact (d.removeDurably hf hw).bind (fun _ _ => d.popBucket key)

end Remove

end Discipline
end TappsBrain
