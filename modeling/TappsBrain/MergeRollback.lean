import TappsBrain.MergeAcceptance
import TappsBrain.SupersedeAtomicity
import TappsBrain.SupersedeRelations

namespace TappsBrain
open Lib
set_option autoImplicit true
set_option relaxedAutoImplicit false

/-- What a save does up to the write of its row. -/
def saveToRow (w : World) (a : SaveArgs) :
    StoreM (Except ShortCircuit (MemoryEntry × Option MemoryEntry)) :=
  match argumentError w.toConfig a with
  | some msg => Prog.raise (.valueError msg)
  | none => do
    match ← prepareSave w a with
    | .error d => pure (.error d)
    | .ok p => do
      let built ← buildAndAssignEntry w (preparedArgs (inferredArgs w.toConfig a) p) p.mgExplicit
      persistEntryOrRollback w built.1 built.2
      pure (.ok built)

/-- What it does from there on. -/
def saveFromRow (w : World) (maybeConsolidate : MemoryEntry → StoreM Unit) (a : SaveArgs)
    (r : Except ShortCircuit (MemoryEntry × Option MemoryEntry)) : StoreM SaveResult :=
  match r with
  | .error d => answerShort d
  | .ok built => do
    postprocessSavedEntry w maybeConsolidate built.1 built.2 a.skipConsolidation
    pure (.entry built.1)

/-- The merge comes to write its row. -/
def WritesMerged (w : World) (plan : MergePlan) (s : Store) : Prop :=
  plan.keepsContent = true ∧ Leads (saveToRow w plan.consolidated.saveArgs) s
    (fun r _ => ∃ built, r = .ok built)

theorem saveWith_eq (w : World) (maybeConsolidate : MemoryEntry → StoreM Unit) (a : SaveArgs) :
    saveWith w maybeConsolidate a = saveToRow w a >>= saveFromRow w maybeConsolidate a := by
  have hskip : (inferredArgs w.toConfig a).skipConsolidation = a.skipConsolidation := rfl
  rw [saveWith, saveToRow]
  cases argumentError w.toConfig a with
  | some msg => rfl
  | none =>
    dsimp only
    rw [Prog.bind_assoc]
    congr 1
    funext r
    cases r with
    | error d => rfl
    | ok p =>
      simp only [storePrepared, Prog.bind_assoc, hskip]
      rfl

/-- Nothing has changed since `s`, and no key outside `K` is held. -/
structure StillAt (w : World) (K : List String) (s t : Store) : Prop where
  untouched : Untouched w.toConfig anyKey s t
  aside : SameRelations s t ∧ s.ticks ≤ t.ticks
  within : Parked noKey anyEntry K t

theorem aside_onward (s : Store) : Aside (fun t => SameRelations s t ∧ s.ticks ≤ t.ticks) where
  bookkeeping :=
    { calls := fun _ h => h
      ticks := fun _ h => ⟨h.1, Nat.le_succ_of_le h.2⟩
      checks := fun _ h => h
      audit := fun _ _ h => h
      archive := fun _ _ h => h
      inProgress := fun _ _ h => h }
  entries := fun _ _ h => h
  rows := fun _ _ h => h

theorem stillAt_self {w : World} {s : Store} : StillAt w (s.versions.map (·.key)).dedup s s where
  untouched := Untouched.refl s
  aside := ⟨⟨rfl, rfl⟩, le_refl _⟩
  within :=
    { slot := fun _ h => h.elim
      row := fun _ _ h => h.elim
      cachedKeys := fun _ he =>
        List.mem_dedup.2 (List.mem_map_of_mem (List.mem_append_left _ he))
      storedKeys := fun _ hrow =>
        List.mem_dedup.2 (List.mem_map_of_mem (List.mem_append_right _ hrow)) }

section Write
variable {w : World} {s : Store} {K : List String} {a : SaveArgs}

theorem StillAt.keeps {p : StoreM α} {Q : α → Prop}
    (hu : Keeps (Untouched w.toConfig anyKey s) p)
    (ha : Keeps (fun t => SameRelations s t ∧ s.ticks ≤ t.ticks) p)
    (hp : Keeps (Parked noKey anyEntry K) p Q) : Keeps (StillAt w K s) p Q :=
  ((hu.both (ha.both hp)).mono (fun _ h => ⟨h.1, h.2, h.3⟩)
    (fun _ _ h => ⟨⟨h.1.1, h.1.2.1, h.1.2.2⟩, h.2.2.2⟩) (fun _ _ h => ⟨h.1, h.2.1, h.2.2⟩))

theorem StillAt.bookkeeping : Bookkeeping (StillAt w K s) :=
  ⟨fun _ h => ⟨⟨h.1.1, h.1.2⟩, h.2, Parked.bookkeeping.calls _ h.3⟩,
    fun _ h => ⟨⟨h.1.1, h.1.2⟩, ⟨h.2.1, Nat.le_succ_of_le h.2.2⟩, Parked.bookkeeping.ticks _ h.3⟩,
    fun _ h => ⟨⟨h.1.1, h.1.2⟩, h.2, Parked.bookkeeping.checks _ h.3⟩,
    fun _ _ h => ⟨⟨h.1.1, h.1.2⟩, h.2, Parked.bookkeeping.audit _ _ h.3⟩,
    fun _ _ h => ⟨⟨h.1.1, h.1.2⟩, h.2, Parked.bookkeeping.archive _ _ h.3⟩,
    fun _ _ h => ⟨⟨h.1.1, h.1.2⟩, h.2, Parked.bookkeeping.inProgress _ _ h.3⟩⟩

/-- Without deduplication, conflict check and judge the preparation reads the rate limit only. -/
theorem prepareSave_plain {I : Store → Prop} (hI : Bookkeeping I)
    (hpolicy : w.writePolicy = .deterministic) (hdedup : a.dedup = false)
    (hconflict : a.conflictCheck = false) :
    Keeps I (prepareSave w a) (fun r => (∀ p, r = .ok p → p.effectiveKey = none) ∧
      ∀ d, r = .error d → d.isError = true) := by
  apply (keeps_checkSave hI a).bind
  intro r hr
  rcases r with d | ⟨value, agentScope, mgExplicit⟩
  · exact Keeps.pure ⟨fun p hp => (by cases hp), fun d' hd => hr d' (by cases hd; rfl)⟩
  · dsimp only
    rw [applyWritePolicy, hpolicy]
    have hphases : ∀ key value tier, dedupAndConflicts w key value tier a.dedup a.conflictCheck =
        pure (.ok {}) := by
      intro key value tier
      rw [dedupAndConflicts, hdedup, hconflict]
      split <;> rfl
    apply (Keeps.pure (Q := fun r => r = PolicyOutcome.proceed) rfl).bind
    rintro _ rfl
    dsimp only
    rw [prepareUnder, hphases]
    apply (Keeps.pure (Q := fun r => r = .ok {}) rfl).bind
    rintro _ rfl
    exact Keeps.pure ⟨fun p hp => Except.ok.inj hp ▸ rfl, fun d hd => (by cases hd)⟩

theorem countEntries_still (group : Option String) :
    Keeps (StillAt w K s) (countEntriesInMemoryGroup w group) (fun n => n ≤ K.length) := by
  have haside : Keeps (fun t => SameRelations s t ∧ s.ticks ≤ t.ticks)
      (countEntriesInMemoryGroup w group) := by
    apply ((aside_onward s).loadAll none).bind
    intro durable _
    apply (Keeps.modify (fun t ht => (aside_onward s).entries t _ ht)).bind
    exact fun _ _ => Keeps.ask
  exact StillAt.keeps ((Untouched.discipline w anyKey s).countEntriesInMemoryGroup group) haside
    (Parked.countEntriesInMemoryGroup_keeps (anyEntry_steady w.toConfig) group)

/-- The row sits in its slot in front of what was held there, stamped after `s`. -/
structure Built (w : World) (s : Store) (key : String) (built : MemoryEntry × Option MemoryEntry)
    (t : Store) : Prop where
  assigned : Assigned w s built.1 built.2 t
  aside : SameRelations s t ∧ s.ticks ≤ t.ticks
  key : built.1.key = key
  stamp : ∃ n, s.ticks ≤ n ∧ built.1.updatedAt = w.clock n

theorem buildEntry_stamped (mgExplicit : Option (Option String)) :
    Keeps (fun t => SameRelations s t ∧ s.ticks ≤ t.ticks) (buildEntry w a mgExplicit)
      (fun r => ∃ n, s.ticks ≤ n ∧ r.1.updatedAt = w.clock n) := by
  apply ((aside_onward s).ensureEntryCached a.key).bind
  intro existing _
  apply (Keeps.ofExcept (Q := fun _ => True) (fun _ _ => trivial)).bind
  intro tierVal _
  have hnow : Keeps (fun t => SameRelations s t ∧ s.ticks ≤ t.ticks) (utcNow w)
      (fun now => ∃ n, s.ticks ≤ n ∧ now = w.clock n) :=
    fun t ht => ⟨⟨ht.1, Nat.le_succ_of_le ht.2⟩, t.ticks, ht.2, rfl⟩
  apply hnow.bind
  rintro now ⟨n, hn, rfl⟩
  apply (Keeps.ofExcept (fun e he => he)).bind
  intro e he
  obtain ⟨revived, source, scope, -, -, rfl⟩ := constructMemoryEntry_ok he
  exact Keeps.pure ⟨n, hn, rfl⟩

/-- With room for one more key the row is built and assigned, or nothing has changed. -/
theorem buildAndAssignEntry_still (hroom : Parked.Roomy w K) (mgExplicit : Option (Option String)) :
    Triple (StillAt w K s) (buildAndAssignEntry w a mgExplicit) (Built w s a.key)
      (fun _ => Restored w.toConfig s) := by
  have hbuild : Triple (StillAt w K s) (buildEntry w a mgExplicit)
      (fun r t => (r.1.key = a.key ∧ r.2 = held w.toConfig s a.key ∧
        ∃ n, s.ticks ≤ n ∧ r.1.updatedAt = w.clock n) ∧ StillAt w K s t)
      (fun _ => Restored w.toConfig s) := by
    have hwithin : Keeps (Parked noKey anyEntry K) (buildEntry w a mgExplicit) :=
      ((within w K).builds a mgExplicit).forget
    have hall := (buildEntry_slotShown (w := w) (s := s) (a := a) mgExplicit).and
      (Triple.and (buildEntry_stamped (w := w) (s := s) (a := a) mgExplicit) hwithin)
    apply hall.mono
    · exact fun _ h => ⟨h.1, h.2, h.3⟩
    · rintro r t ⟨⟨hshown, hkey, hold⟩, ⟨haside, hstamp⟩, hin, _⟩
      exact ⟨⟨hkey, hold, hstamp⟩, hshown.1, haside, hin⟩
    · exact fun _ _ h => ⟨h.1, h.2.1.1⟩
  apply hbuild.bind
  intro r
  apply Triple.assume
  rintro ⟨hkey, hold, hstamp⟩
  have hcaps : Keeps (StillAt w K s) (enforceEntryCapsBeforeAssign w r.1.memoryGroup r.2) :=
    Parked.enforceEntryCaps_roomy hroom countEntries_still (fun _ h => h.within.size_le) _ _
  apply hcaps.then (fun _ _ h => ⟨h.untouched, h.aside.1⟩)
  intro _ _ t ht
  refine ⟨⟨⟨fun k _ => ht.untouched.rows k trivial, fun k hk => ?_⟩,
    ht.untouched.rows _ trivial, Table.get?_set_self _ _, hkey ▸ hold⟩, ht.aside, hkey, hstamp⟩
  change (t.entries.set r.1).get? k = _ ∨ _ ∧ (t.entries.set r.1).get? k = _
  rw [Table.get?_set_ne _ (Ne.symm hk)]
  exact ht.untouched.entries k trivial

/-- The row is cached and stored, and nothing else has changed. -/
structure Written (w : World) (s : Store) (key : String) (x : MemoryEntry) (t : Store) : Prop where
  persisted : Persisted w s x t
  onward : s.ticks ≤ t.ticks
  key : x.key = key
  stamp : ∃ n, s.ticks ≤ n ∧ x.updatedAt = w.clock n
  columns : columnsAccept x = true

theorem persistEntryOrRollback_accepts (x : MemoryEntry) (existing : Option MemoryEntry) :
    Returns (fun _ => True) (persistEntryOrRollback w x existing)
      (fun _ _ => columnsAccept x = true) := by
  have hsave : Returns (fun _ => True) (saveRow w x) (fun _ _ => columnsAccept x = true) := by
    apply Returns.bind Returns.any
    intro _
    split
    · next hx => exact Triple.modify (fun _ _ => hx)
    · exact Returns.raise
  apply hsave.rollback.bind
  intro _
  exact Keeps.constant.returns.mono (fun _ => id) (fun _ _ h => h.1) (fun _ _ => id)

/-- The persisted row is the built one, with what its save did beside it. -/
theorem persistBuilt_writes {key : String} {built : MemoryEntry × Option MemoryEntry} :
    Triple (Built w s key built) (persistEntryOrRollback w built.1 built.2)
      (fun _ => Written w s key built.1) (fun _ => Restored w.toConfig s) := by
  have hpersisted : Triple (Assigned w s built.1 built.2)
      (persistEntryOrRollback w built.1 built.2) (fun _ => Persisted w s built.1)
      (fun _ => Untouched w.toConfig anyKey s) := persistEntryOrRollback_persisted
  have haside : Keeps (fun t => SameRelations s t ∧ s.ticks ≤ t.ticks)
      (persistEntryOrRollback w built.1 built.2) :=
    (aside_onward s).persistEntryOrRollback built.1 built.2
  rintro t ⟨hassigned, honward, hbuilt, hstamp⟩
  have h := (hpersisted.and (Triple.and haside
    (persistEntryOrRollback_accepts built.1 built.2))) t ⟨hassigned, honward, trivial⟩
  rcases hr : persistEntryOrRollback w built.1 built.2 t with ⟨e | _, u⟩
  · rw [hr] at h
    exact ⟨h.1, h.2.1.1⟩
  · rw [hr] at h
    exact ⟨h.1, h.2.1.1.2, hbuilt, hstamp, h.2.2⟩

-- Unfolding `Triple` would run the program it speaks of.
attribute [local irreducible] Triple

theorem saveToRow_writes (hroom : Parked.Roomy w K) (hpolicy : w.writePolicy = .deterministic)
    (hdedup : a.dedup = false) (hconflict : a.conflictCheck = false) :
    Triple (StillAt w K s) (saveToRow w a)
      (fun r t => match r with
        | .error d => d.isError = true ∧ Restored w.toConfig s t
        | .ok built => Written w s a.key built.1 t)
      (fun _ => Restored w.toConfig s) := by
  have hrestored : ∀ t, StillAt w K s t → Restored w.toConfig s t :=
    fun t h => ⟨h.untouched, h.aside.1⟩
  rw [saveToRow]
  cases argumentError w.toConfig a with
  | some msg => exact Triple.raise hrestored
  | none =>
    apply (prepareSave_plain StillAt.bookkeeping hpolicy hdedup hconflict).then
      (fun _ => hrestored)
    rintro r ⟨hkey, herror⟩
    cases r with
    | error d => exact Triple.pure (fun t ht => ⟨herror d rfl, hrestored t ht⟩)
    | ok p =>
      have hprepared : (preparedArgs (inferredArgs w.toConfig a) p).key = a.key := by
        rw [preparedArgs, hkey p rfl]
        rfl
      dsimp only
      apply (buildAndAssignEntry_still hroom p.mgExplicit).bind
      intro built
      rw [hprepared]
      apply persistBuilt_writes.bind
      intro _
      exact Triple.pure (fun _ h => h)

attribute [local semireducible] Triple

theorem Written.bookkeeping {key : String} {x : MemoryEntry} : Bookkeeping (Written w s key x) :=
  have h := Persisted.bookkeeping (w := w) s x
  ⟨fun t ht => ⟨h.calls t ht.1, ht.2, ht.3, ht.4, ht.5⟩,
    fun t ht => ⟨h.ticks t ht.1, Nat.le_succ_of_le ht.2, ht.3, ht.4, ht.5⟩,
    fun t ht => ⟨h.checks t ht.1, ht.2, ht.3, ht.4, ht.5⟩,
    fun t l ht => ⟨h.audit t l ht.1, ht.2, ht.3, ht.4, ht.5⟩,
    fun t l ht => ⟨h.archive t l ht.1, ht.2, ht.3, ht.4, ht.5⟩,
    fun t b ht => ⟨h.inProgress t b ht.1, ht.2, ht.3, ht.4, ht.5⟩⟩

theorem Written.ignoresRelations {key : String} {x : MemoryEntry} :
    IgnoresRelations (Written w s key x) :=
  have h := Persisted.ignoresRelations (w := w) s x
  ⟨fun t u ht => ⟨h.cached t u ht.1, ht.2, ht.3, ht.4, ht.5⟩,
    fun t u ht => ⟨h.durable t u ht.1, ht.2, ht.3, ht.4, ht.5⟩⟩

theorem postprocess_written {key : String} {x : MemoryEntry}
    (maybeConsolidate : MemoryEntry → StoreM Unit) (existing : Option MemoryEntry) :
    Keeps (Written w s key x) (postprocessSavedEntry w maybeConsolidate x existing true) := by
  apply (keeps_appendAudit Written.bookkeeping).bind
  intro _ _
  apply (keeps_persistRelations Written.bookkeeping Written.ignoresRelations x.key x.value).bind
  intro _ _
  apply Keeps.ask.bind
  intro inProgress _
  simp only [Bool.not_true, Bool.and_false, Bool.false_and, Bool.false_eq_true, ↓reduceIte]
  exact Keeps.pure trivial

theorem held_stamp {c : Config} {key : String} {e : MemoryEntry} (h : held c s key = some e) :
    ∃ v ∈ s.versions, v.updatedAt = e.updatedAt := by
  rcases Option.or_eq_some_iff.1 h with hcached | ⟨_, hloaded⟩
  · exact ⟨e, List.mem_append_left _ (Table.mem_of_get? hcached), rfl⟩
  · obtain ⟨row, hrow, hread⟩ := Option.bind_eq_some_iff.1 hloaded
    refine ⟨row, List.mem_append_right _ (Table.mem_of_get? hrow), ?_⟩
    cases hr : rowToEntry c row with
    | error err =>
      rw [hr] at hread
      cases hread
    | ok e' =>
      rw [hr] at hread
      cases hread
      rw [(rowToEntry_ok hr).2]
      rfl

/-- A row written with a later stamp than any that is held stays a change. -/
theorem Written.harm {key : String} {x : MemoryEntry} {t : Store} (h : Written w s key x t)
    (hclock : ∀ e ∈ s.versions, ∀ n, s.ticks ≤ n → e.updatedAt < w.clock n) :
    ¬ Untouched w.toConfig anyKey s t := by
  rw [h.persisted.untouched_iff, not_not]
  apply Or.inr
  intro hheld
  obtain ⟨v, hv, hstamp⟩ := held_stamp hheld
  obtain ⟨n, hn, hx⟩ := h.stamp
  have hlater := hclock v hv n hn
  rw [hstamp, hx] at hlater
  exact lt_irrefl _ hlater

theorem Written.linking {key : String} {x : MemoryEntry} {t : Store} {sources : List MemoryEntry}
    (h : Written w s key x t) (hsources : ∀ snap ∈ sources,
      s.entries.get? snap.key = some snap ∧ columnsAccept snap = true) : Linking x sources t where
  merged := ⟨x, h.persisted.slot, rfl, rfl, rfl, rfl, h.columns⟩
  stored := ⟨_, h.persisted.row, mergedRow_upserted h.columns s.rows⟩
  sources := by
    intro snap hsnap hne
    obtain ⟨hcached, hcolumns⟩ := hsources snap hsnap
    refine ⟨snap, ?_, rfl, hcolumns⟩
    rcases h.persisted.others.entries snap.key hne with hsame | ⟨hnone, _⟩
    · rw [hsame, hcached]
    · rw [hcached] at hnone
      cases hnone

end Write

/-- The slot of `z` is left alone. -/
def slotted (w : World) (z : MemoryEntry) : Discipline w where
  inv := fun s => s.entries.get? z.key = some z
  sees := fun _ => True
  writes := fun e => e.key ≠ z.key
  frees := fun key => key ≠ z.key
  reads := fun _ => True
  bookkeeping := ⟨fun _ h => h, fun _ h => h, fun _ h => h, fun _ _ h => h, fun _ _ h => h,
    fun _ _ h => h⟩
  ignoresRelations := ⟨fun _ _ h => h, fun _ _ h => h⟩
  cached := fun _ _ _ _ => trivial
  loads := fun _ _ _ _ _ _ => trivial
  hydrate := by
    intro s row e h hrow he hnew
    rw [Table.get?_set_ne]
    · exact h
    · intro hkey
      rw [hkey, h] at hnew
      cases hnew
  assign := by
    intro s e h hne
    rw [Table.get?_set_ne _ hne]
    exact h
  store := fun _ _ h _ => h
  pop := by
    intro s key h hne
    rw [Table.get?_pop_ne _ hne]
    exact h
  drop := fun _ _ h _ => h
  filter := fun _ _ _ hall => absurd rfl (hall z.key)
  frees_of_writes := fun _ h => h
  reading := fun _ _ => trivial

/-- What is held under the key of `y` is a later version of it. -/
def laterThan (w : World) (y : MemoryEntry) : Discipline w :=
  AllAt.kept w y.key (φ := fun e => y.updatedAt < e.updatedAt)
    (fun _ _ he h => (rowToEntry_ok he).2 ▸ h)
    (fun rows e h => by
      rw [upserted]
      split <;> exact h)

/-- Everything is allowed. -/
def unruled (w : World) : Discipline w :=
  AllAt.kept w "" (φ := fun _ => True) (fun _ _ _ _ => trivial) (fun _ _ _ => trivial)

/-- `_persist_consolidated_entry` reopens one source. -/
def reopenSource (w : World) (mergedKey key : String) : StoreM Unit :=
  if key = mergedKey then pure ()
  else Prog.swallow (do
    let _ ← updateFields w key (reopenPatch none)
    pure ())

section Rollback
variable {w : World} {s : Store} {y z : MemoryEntry} {mergedKey : String} {c : Nat}

theorem columnsAccept_reopen (h : columnsAccept z = true) (now : Stamp) :
    columnsAccept ((reopenPatch none).apply now z) = true := by
  simp only [columnsAccept, List.all_cons, List.all_nil, Bool.and_true, Bool.and_eq_true] at h ⊢
  exact ⟨⟨h.1.1, rfl, h.1.2.2⟩, h.2⟩

theorem reopenSource_keeps {I : Store → Prop} {key : String}
    (h : key ≠ mergedKey → Keeps I (updateFields w key (reopenPatch none))) :
    Triple I (reopenSource w mergedKey key) (fun _ => I) (fun _ _ => False) := by
  rw [reopenSource]
  split
  · exact Triple.pure (fun _ ht => ht)
  · next hne =>
    have hbody : Keeps I (do
        let _ ← updateFields w key (reopenPatch none)
        pure ()) := (h hne).bind (fun _ _ => Keeps.pure trivial)
    apply Triple.handle (Triple.mono hbody (fun _ => id) (fun _ _ ht => ht.1) (fun _ _ => id))
    exact fun _ => Triple.pure (fun _ ht => ht)

theorem later_allows (hclock : ∀ n, s.ticks ≤ n → y.updatedAt < w.clock n) (key : String) :
    ((laterThan w y).since s.ticks 0).Allows key (reopenPatch none).apply := by
  rintro e now hsees _ ⟨_, n, hn, rfl⟩
  exact ⟨hsees, fun _ => hclock n hn⟩

/-- Reopening a source stamps it anew, once the backend takes its row. -/
theorem reopenSource_later (hclock : ∀ n, s.ticks ≤ n → y.updatedAt < w.clock n)
    (hcalls : ∀ n, c ≤ n → w.refuses n = false) (hz : columnsAccept z = true) (hkey : y.key = z.key)
    (hne : z.key ≠ mergedKey) :
    Triple ((slotted w z).since s.ticks c).inv (reopenSource w mergedKey z.key)
      (fun _ => ((laterThan w y).since s.ticks 0).inv) (fun _ _ => False) := by
  rintro t ⟨⟨hticks, hcount⟩, hcached⟩
  have haccepts : accepts w t.ticked ((reopenPatch none).apply (w.clock t.ticks) z) = true := by
    have hanswers : w.refuses t.ticked.calls = false := hcalls _ hcount
    rw [accepts, hanswers, columnsAccept_reopen hz]
    rfl
  have hrun := updateFields_run w (reopenPatch none) hcached
  rw [haccepts, if_pos rfl] at hrun
  rw [reopenSource, if_neg hne, Prog.swallow, Prog.handle_run, Prog.bind_run_ok hrun]
  have hlater : y.updatedAt < ((reopenPatch none).apply (w.clock t.ticks) z).updatedAt :=
    hclock t.ticks hticks
  refine ⟨⟨Nat.le_succ_of_le hticks, Nat.zero_le _⟩, AllAt.of_get? ?_ ?_⟩
  · intro e he
    rw [hkey] at he
    have hset : (t.entries.set ((reopenPatch none).apply (w.clock t.ticks) z)).get? z.key =
        some ((reopenPatch none).apply (w.clock t.ticks) z) := Table.get?_set_self _ _
    cases hset.symm.trans he
    exact hlater
  · intro e he
    rw [hkey] at he
    have hset := storeRow_get?_self ((reopenPatch none).apply (w.clock t.ticks) z)
      { t.ticked.called with
        entries := t.entries.set ((reopenPatch none).apply (w.clock t.ticks) z) }
    cases hset.symm.trans he
    rw [upserted]
    split <;> exact hlater

theorem reopenSources_later (hclock : ∀ n, s.ticks ≤ n → y.updatedAt < w.clock n)
    (hcalls : ∀ n, c ≤ n → w.refuses n = false) (hz : columnsAccept z = true) (hkey : y.key = z.key)
    (hne : z.key ≠ mergedKey) {keys : List String} (hmem : z.key ∈ keys) :
    Triple ((slotted w z).since s.ticks c).inv (Prog.forEach (reopenSource w mergedKey) keys)
      (fun _ => ((laterThan w y).since s.ticks 0).inv) (fun _ _ => False) := by
  induction keys with
  | nil => cases hmem
  | cons key rest ih =>
    by_cases hk : key = z.key
    · subst hk
      apply (reopenSource_later hclock hcalls hz hkey hne).bind
      intro _
      apply Triple.forEach
      intro other _
      apply reopenSource_keeps
      intro _
      exact (((laterThan w y).since s.ticks 0).updateFields (later_allows hclock other)).forget
    · have hrest := ih ((List.mem_cons.1 hmem).resolve_left (Ne.symm hk))
      apply (reopenSource_keeps _).bind (fun _ => hrest)
      intro _
      apply (((slotted w z).since s.ticks c).updateFields _).forget
      rintro e now _ rfl _
      exact ⟨hk, hk⟩

/-- The rollback of a merge leaves a later version of a reopened source. -/
theorem rollbackMerge_later (hclock : ∀ n, s.ticks ≤ n → y.updatedAt < w.clock n)
    (hcalls : ∀ n, c ≤ n → w.refuses n = false) (hz : columnsAccept z = true) (hkey : y.key = z.key)
    (hne : z.key ≠ mergedKey) {keys : List String} (hmem : z.key ∈ keys) :
    Triple ((slotted w z).since s.ticks c).inv (rollbackMerge w mergedKey keys)
      (fun _ => ((laterThan w y).since s.ticks 0).inv) (fun _ _ => False) := by
  have hbody : Triple ((slotted w z).since s.ticks c).inv (do
      Prog.forEach (reopenSource w mergedKey) keys
      stripKeyFromRelations w mergedKey
      let _ ← delete w mergedKey
      pure ())
      (fun _ => ((laterThan w y).since s.ticks 0).inv)
      (fun _ => ((laterThan w y).since s.ticks 0).inv) := by
    apply Triple.bind ((reopenSources_later hclock hcalls hz hkey hne hmem).mono (fun _ => id)
      (fun _ _ => id) (fun _ _ h => h.elim))
    intro _
    have hkeeps : Keeps ((laterThan w y).since s.ticks 0).inv (do
        stripKeyFromRelations w mergedKey
        let _ ← delete w mergedKey
        pure ()) := by
      apply (((laterThan w y).since s.ticks 0).stripKeyFromRelations mergedKey).bind
      intro _ _
      apply (((laterThan w y).since s.ticks 0).delete (fun _ h _ => h)).bind
      exact fun _ _ => Keeps.pure trivial
    exact Triple.mono hkeeps (fun _ => id) (fun _ _ h => h.1) (fun _ _ => id)
  exact Triple.handle hbody (fun _ => Triple.pure (fun _ h => h))

end Rollback

section Merge
variable {w : World} {plan : MergePlan} {s t u : Store} {K : List String} {x : MemoryEntry}

/-- The clock does not go back. -/
theorem linkSources_onward (n : Nat) :
    Triple (fun t => n ≤ t.ticks) (linkSources w plan) (fun _ t => n ≤ t.ticks)
      (fun _ t => n ≤ t.ticks) := by
  have hlinks : Keeps ((unruled w).since n 0).inv (linkSources w plan) := by
    apply ((unruled w).since n 0).linkSources
    refine ⟨fun f => ?_, fun snap _ _ => ?_, fun key => ?_⟩
    all_goals exact fun _ _ _ _ _ => ⟨fun _ => trivial, fun _ => trivial⟩
  apply Triple.mono hlinks
  · exact fun t ht => ⟨⟨ht, Nat.zero_le _⟩, fun _ _ _ => trivial, fun _ _ _ => trivial⟩
  · exact fun _ _ h => h.1.1.1
  · exact fun _ _ h => h.1.1

/-- Once its row is written, a merge that fails where the backend refuses one call leaves a source
with a later stamp. -/
theorem linkOrRollback_harms (hone : ∀ m n, w.refuses m = true → w.refuses n = true → m = n)
    (hclock : ∀ e ∈ s.versions, ∀ n, s.ticks ≤ n → e.updatedAt < w.clock n)
    (hsources : ∀ snap ∈ plan.sources,
      s.entries.get? snap.key = some snap ∧ columnsAccept snap = true)
    (hother : ∃ snap ∈ plan.sources, snap.key ≠ plan.consolidated.key)
    (h : Written w s plan.consolidated.key x t) {err : Raised}
    (hrun : Prog.rollback (linkSources w plan)
      (rollbackMerge w plan.consolidated.key (plan.sources.map (·.key))) t = (.error err, u)) :
    ¬ Untouched w.toConfig anyKey s u := by
  obtain ⟨y, hy, hne⟩ := hother
  have hcached := (hsources y hy).1
  have hlinks : KeepsOrRefused w (Linking x plan.sources) (linkSources w plan) :=
    linkSources_links h.key.symm (fun e he => (hsources e he).2)
  rw [Prog.rollback, Prog.handle_run] at hrun
  rcases hl : linkSources w plan t with ⟨err' | _, v⟩
  · rw [hl] at hrun
    dsimp only at hrun
    obtain ⟨hv, m, hm, hrefused⟩ := hlinks.error (h.linking hsources) hl
    have hticks : s.ticks ≤ v.ticks := (linkSources_onward s.ticks).error h.onward hl
    obtain ⟨z, hz, _, hcolumns⟩ := hv.sources y hy (by rw [h.key]; exact hne)
    have hkey : z.key = y.key := Table.key_of_get? hz
    have hcalls : ∀ n, m + 1 ≤ n → w.refuses n = false := by
      intro n hn
      rw [Bool.eq_false_iff]
      intro hrefuses
      have hsame := hone m n hrefused hrefuses
      omega
    have hstamp : ∀ n, s.ticks ≤ n → y.updatedAt < w.clock n :=
      hclock y (List.mem_append_left _ (Table.mem_of_get? hcached))
    have hlater : Triple ((slotted w z).since s.ticks (m + 1)).inv
        (rollbackMerge w plan.consolidated.key (plan.sources.map (·.key)))
        (fun _ => ((laterThan w y).since s.ticks 0).inv) (fun _ _ => False) :=
      rollbackMerge_later hstamp hcalls hcolumns hkey.symm (hkey ▸ hne)
        (hkey ▸ List.mem_map_of_mem hy)
    have hslot : v.entries.get? z.key = some z := by rw [hkey, hz]
    have hv' : ((slotted w z).since s.ticks (m + 1)).inv v := ⟨⟨hticks, hm⟩, hslot⟩
    rcases hr : rollbackMerge w plan.consolidated.key (plan.sources.map (·.key)) v with ⟨e | _, v'⟩
    · exact (hlater.error hv' hr).elim
    · have hlast := (hlater.ok hv' hr).2
      rw [Prog.bind_run_ok hr] at hrun
      cases hrun
      intro huntouched
      rcases huntouched.entries y.key trivial with hsame | ⟨hnone, _⟩
      · rw [hcached] at hsame
        exact lt_irrefl _ (hlast.1 y (Table.mem_of_get? hsame) rfl)
      · rw [hcached] at hnone
        cases hnone
  · rw [hl] at hrun
    cases hrun

end Merge

def noteArgs (key value : String) : SaveArgs :=
  { key, value, skipConsolidation := true, dedup := false, conflictCheck := false }

/-- Two notes are saved. -/
def notedStore : Store :=
  (save Config.plain.calm (noteArgs "b" "deploy at noon")).final
    ((save Config.plain.calm (noteArgs "a" "deploy at dawn")).final {})

def notedPlan : MergePlan where
  consolidated := { key := "plan", value := "deploy at noon. deploy at dawn", tier := "pattern"
                    source := .system, sourceAgent := "tapps-consolidation", scope := "project"
                    tags := [], confidence := 1 / 2, memoryGroup := none }
  sources := notedStore.entries.values

end TappsBrain
