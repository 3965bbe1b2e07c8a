import TappsBrain.Consolidate
import TappsBrain.Untouched

namespace TappsBrain
open Lib
set_option autoImplicit true
set_option relaxedAutoImplicit false

/-- The columns the live-row predicate reads. -/
def MemoryEntry.life (e : MemoryEntry) :
    Option String × Option IsoText × Option IsoText × MemoryStatus × Bool :=
  (e.supersededBy, e.validUntil, e.invalidAt, e.status, e.contradicted)

theorem liveRow_of_life {a b : MemoryEntry} (h : a.life = b.life) (now : Stamp) :
    a.liveRow now = b.liveRow now := by
  simp only [MemoryEntry.life, Prod.mk.injEq] at h
  obtain ⟨hs, hu, hi, ht, hc⟩ := h
  simp only [MemoryEntry.liveRow, hs, hu, hi, ht, hc]

@[simp] theorem withStability_life (c : Config) (b e : MemoryEntry) (useful : Bool) (now : Stamp) :
    (withStability c b useful now e).life = e.life := by
  unfold withStability
  split <;> rfl

@[simp] theorem reinforced_life (c : Config) (boost : ℚ) (now : Stamp) (e : MemoryEntry) :
    (reinforced c boost now e).life = e.life := by
  rw [reinforced, withStability_life]
  rfl

@[simp] theorem promoted_life (c : Config) (target : String) (now : Stamp) (e : MemoryEntry) :
    (promoted c target now e).life = e.life := rfl

@[simp] theorem upserted_life (rows : Table MemoryEntry.key) (e : MemoryEntry) :
    (upserted rows e).life = e.life := by
  unfold upserted
  split <;> rfl

/-- The slot and the row of `key` are both there, with the given lifecycle columns. -/
def Stored (key : String) (e : MemoryEntry) (t : Store) : Prop :=
  ∃ cached row, t.entries.get? key = some cached ∧ t.rows.get? key = some row ∧
    cached.life = e.life ∧ row.life = e.life

/-- `updated` is cached, and it and its row have the lifecycle columns of `e`. -/
def Showing (updated e : MemoryEntry) (t : Store) : Prop :=
  t.entries.get? updated.key = some updated ∧ Stored updated.key e t

theorem Showing.bookkeeping (updated e : MemoryEntry) : Bookkeeping (Showing updated e) :=
  ⟨fun _ h => h, fun _ h => h, fun _ h => h, fun _ _ h => h, fun _ _ h => h, fun _ _ h => h⟩

/-- A rewrite that keeps the lifecycle columns stores them; when it fails nothing happened. -/
theorem rewriteEntry_stored {w : World} {e before after : MemoryEntry} {I : Store → Prop}
    (hI : ∀ s, I s → I s.called) (hk : after.key = before.key) (hl : after.life = e.life) :
    Triple (fun s => s.entries.get? before.key = some before ∧ I s) (rewriteEntry w before after)
      (fun _ => Showing after e) (fun err t => err = .backend ∧ I t) := by
  rintro s ⟨hb, hs⟩
  rw [rewriteEntry_run w hk hb]
  cases accepts w s after with
  | false => exact ⟨rfl, hI s hs⟩
  | true =>
    have hcache : (s.entries.set after).get? after.key = some after := Table.get?_set_self _ _
    exact ⟨hcache, after, _, hcache, storeRow_get?_self _ _, hl, by rw [upserted_life, hl]⟩

/-- An invariant of reading: nothing is written but hydrated slots. -/
def Showing.discipline (w : World) (updated e : MemoryEntry) : Discipline w where
  inv := Showing updated e
  sees := fun _ => True
  writes := fun _ => False
  frees := fun _ => False
  reads := fun _ => True
  bookkeeping := Showing.bookkeeping updated e
  ignoresRelations := ⟨fun _ _ h => h, fun _ _ h => h⟩
  cached := fun _ _ _ _ => trivial
  loads := fun _ _ _ _ _ _ => trivial
  hydrate := by
    rintro s row e' ⟨hu, cached, r, hc, hr, hl⟩ _ _ hnew
    have hne : e'.key ≠ updated.key := fun heq => by
      rw [heq, hc] at hnew
      cases hnew
    have hget : (s.entries.set e').get? updated.key = s.entries.get? updated.key :=
      Table.get?_set_ne _ hne
    exact ⟨hget.trans hu, cached, r, hget.trans hc, hr, hl⟩
  assign := fun _ _ _ h => h.elim
  store := fun _ _ _ h => h.elim
  pop := fun _ _ _ h => h.elim
  drop := fun _ _ _ h => h.elim
  filter := fun _ _ _ h => (h "").elim
  frees_of_writes := fun _ h => h
  reading := fun _ _ => trivial

section Coalesce
variable {w : World} {s : Store} {key : String}

theorem Stored.promoteWhenDue {e updated : MemoryEntry} (hl : updated.life = e.life) :
    Triple (Showing updated e) (promoteWhenDue w updated) (fun _ => Stored updated.key e)
      (fun _ => Stored updated.key e) := by
  have hb := Showing.bookkeeping updated e
  refine (keeps_utcNow hb).then (fun _ _ h => h.2) (fun checkedAt _ => ?_)
  cases checkPromotion w.toConfig updated checkedAt with
  | none => exact Triple.pure (fun _ h => h.2)
  | some target =>
    refine (keeps_utcNow hb).then (fun _ _ h => h.2) (fun now _ => ?_)
    have hstep : Triple (Showing updated e)
        (rewriteEntry w updated (promoted w.toConfig target now updated))
        (fun _ t => Showing (promoted w.toConfig target now updated) e t)
        (fun err t => err = .backend ∧ Stored updated.key e t) :=
      rewriteEntry_stored (fun _ h => h) rfl ((promoted_life _ _ _ _).trans hl)
    refine (hstep.mono (fun _ => id) (fun _ _ => id) (fun _ _ h => h.2)).bind (fun _ => ?_)
    exact ((Showing.discipline w _ e).appendAudit updated.key _).then (fun _ _ h => h.2)
      (fun _ _ => Triple.pure (fun _ h => h.2))

theorem Stored.maybePromote {e updated : MemoryEntry} (hl : updated.life = e.life) :
    Triple (Showing updated e) (maybePromoteAfterReinforce w updated)
      (fun _ => Stored updated.key e) (fun _ _ => False) := by
  unfold maybePromoteAfterReinforce
  split
  · exact Triple.pure (fun _ h => h.2)
  · exact (Stored.promoteWhenDue hl).handle (fun _ => Triple.pure (fun _ h => h))

/-- A key that is held is reinforced in place: both its slot and its row keep their lifecycle. A
reinforcement that raises leaves everything as it was. -/
theorem reinforce_stored (boost : ℚ) :
    Triple (Untouched w.toConfig anyKey s) (reinforce w key boost)
      (fun _ t => ∃ b, held w.toConfig s key = some b ∧ Stored key b t)
      (fun err t => Untouched w.toConfig anyKey s t ∧
        ∀ k, err = .keyError k → held w.toConfig s key = none) := by
  refine ((ensureEntryCached_held trivial).mono (fun _ => id) (fun _ _ => id)
    (fun err _ h => ⟨h.1, fun k hk => absurd hk (h.2 k)⟩)).bind (fun r => ?_)
  cases r with
  | none => exact Triple.raise (fun _ h => ⟨h.1, fun k _ => h.2.2.symm⟩)
  | some b =>
    have hclock : Triple
        (fun t => Untouched w.toConfig anyKey s t ∧ t.entries.get? key = some b ∧
          some b = held w.toConfig s key)
        (utcNow w)
        (fun _ t => (b.key = key ∧ held w.toConfig s key = some b) ∧
          t.entries.get? b.key = some b ∧ Untouched w.toConfig anyKey s t)
        (fun err t => Untouched w.toConfig anyKey s t ∧
          ∀ k, err = Raised.keyError k → held w.toConfig s key = none) := by
      intro t ht
      have hkey : b.key = key := Table.key_of_get? ht.2.1
      exact ⟨⟨hkey, ht.2.2.symm⟩, hkey ▸ ht.2.1, ⟨ht.1.1, ht.1.2⟩⟩
    refine hclock.bind (fun now => Triple.assume ?_)
    rintro ⟨rfl, hheld⟩
    have hstep : Triple (fun t => t.entries.get? b.key = some b ∧ Untouched w.toConfig anyKey s t)
        (rewriteEntry w b (reinforced w.toConfig boost now b))
        (fun _ => Showing (reinforced w.toConfig boost now b) b)
        (fun err t => err = .backend ∧ Untouched w.toConfig anyKey s t) :=
      rewriteEntry_stored (fun _ h => ⟨h.1, h.2⟩) (reinforced_key _ _ _ _) (reinforced_life _ _ _ _)
    have hpromote : Triple (Showing (reinforced w.toConfig boost now b) b)
        (maybePromoteAfterReinforce w (reinforced w.toConfig boost now b))
        (fun _ => Stored b.key b) (fun err t => err = .backend ∧ Untouched w.toConfig anyKey s t) := by
      rw [← reinforced_key w.toConfig boost now b]
      exact (Stored.maybePromote (reinforced_life w.toConfig boost now b)).mono (fun _ => id)
        (fun _ _ => id) (fun _ _ h => h.elim)
    refine (hstep.bind (fun _ => hpromote)).mono (fun _ => id) (fun _ t ht => ⟨b, hheld, ht⟩)
      (fun err _ herr => ⟨herr.2, fun k hk => ?_⟩)
    rw [herr.1] at hk
    cases hk

/-- What a short-circuit of the preparation says of the row it answers for: a coalesced save found
an entry and left its lifecycle alone. -/
def ShortSound (w : World) (s : Store) (short : ShortCircuit) (t : Store) : Prop :=
  match short with
  | .coalesced key _ _ _ => ∃ b, held w.toConfig s key = some b ∧ Stored key b t
  | _ => True

theorem coalesce_sound : Triple
    (fun t => Untouched w.toConfig anyKey s t ∧ held w.toConfig s key ≠ none) (coalesce w key)
    (fun r t => ∃ short, r = some short ∧ short.isError = false ∧ ShortSound w s short t)
    (fun _ => Untouched w.toConfig anyKey s) := by
  have hreinforce : Triple
      (fun t => Untouched w.toConfig anyKey s t ∧ held w.toConfig s key ≠ none) (reinforce w key 0)
      (fun _ t => ∃ b, held w.toConfig s key = some b ∧ Stored key b t)
      (fun err t => (∀ k, err ≠ Raised.keyError k) ∧ Untouched w.toConfig anyKey s t) := by
    intro t ht
    exact (reinforce_stored 0).mono (fun _ => id) (fun _ _ => id)
      (fun err _ h => ⟨fun k hk => ht.2 (h.2 k hk), h.1⟩) t ht.1
  have hanswer := hreinforce.bind (fun e => Triple.pure (fun _ h => ⟨_, rfl, rfl, h⟩) :
    ∀ e : MemoryEntry, Triple (fun t => ∃ b, held w.toConfig s key = some b ∧ Stored key b t)
      (pure (some (ShortCircuit.coalesced key e.tier.text e.confidence e.memoryGroup)))
      (fun r t => ∃ short, r = some short ∧ short.isError = false ∧ ShortSound w s short t)
      (fun err t => (∀ k, err ≠ Raised.keyError k) ∧ Untouched w.toConfig anyKey s t))
  refine Triple.handle hanswer (fun err => Triple.assume (fun herr => ?_))
  cases err with
  | keyError k => exact absurd rfl (herr k)
  | _ => exact Triple.raise (fun _ h => h)

/-- The dedup phase answers for a held entry, or leaves everything as it was. -/
theorem handleDedup_sound (value : String) (dedup : Bool) :
    Triple (Untouched w.toConfig anyKey s) (handleDedup w key value dedup) (fun r t =>
      match r with
      | some short => short.isError = false ∧ ShortSound w s short t
      | none => Untouched w.toConfig anyKey s t) (fun _ => Untouched w.toConfig anyKey s) := by
  unfold handleDedup
  split
  · exact Triple.pure (fun _ h => h)
  refine Triple.bind ((ensureEntryCached_held trivial).mono (fun _ => id) (fun _ _ => id)
    (fun _ _ h => h.1)) (fun r => ?_)
  cases r with
  | none => exact Triple.pure (fun _ h => h.1)
  | some b =>
    dsimp only
    split
    · exact Triple.pure (fun _ h => h.1)
    · refine coalesce_sound.mono (fun t h => ⟨h.1, ?_⟩) (fun r t h => ?_) (fun _ _ => id)
      · rw [← h.2.2]
        exact Option.some_ne_none b
      · obtain ⟨short, rfl, hs⟩ := h
        exact hs

theorem handleConflicts_untouched (value tier : String) (conflictCheck : Bool) :
    Keeps (Untouched w.toConfig (· = key) s) (handleConflicts w key value tier conflictCheck) :=
  ((Untouched.discipline w (· = key) s).handleConflicts value tier conflictCheck
    (fun _ _ _ _ _ hne _ => ⟨hne, fun h => hne ((invalidatedBy_key _ _ _).symm.trans h)⟩)).forget

theorem dedupAndConflicts_sound (value tier : String) (dedup conflictCheck : Bool) :
    Returns (Untouched w.toConfig anyKey s) (dedupAndConflicts w key value tier dedup conflictCheck)
      (fun r t => match r with
        | .error short => ShortSound w s short t
        | .ok _ => Untouched w.toConfig (· = key) s t) := by
  unfold dedupAndConflicts
  split
  · exact Triple.pure (fun _ h => h.mono (fun _ _ => trivial))
  refine Returns.bind ((handleDedup_sound value dedup).mono (fun _ => id) (fun _ _ => id)
    (fun _ _ _ => trivial)) (fun r => ?_)
  cases r with
  | some short => exact Triple.pure (fun _ h => h.2)
  | none =>
    refine Triple.mono (Returns.bind (handleConflicts_untouched value tier conflictCheck).returns
      (fun o => Triple.pure (fun _ h => h.1))) (fun t h => h.mono (fun _ _ => trivial))
      (fun r t h => h) (fun _ _ => id)

end Coalesce

section Prepare
variable {w : World} {s : Store}

theorem checkSave_untouched (a : SaveArgs) :
    Keeps (Untouched w.toConfig anyKey s) (checkSave w a)
      (fun r => ∀ short, r = .error short → short.isError = true) :=
  (Untouched.discipline w anyKey s).checkSave a

/-- A policy that lets the save go on has only hydrated; one that stops it answers no coalesced
row. -/
theorem applyWritePolicy_untouched (key value : String) :
    Returns (Untouched w.toConfig anyKey s) (applyWritePolicy w key value) (fun outcome t =>
      match outcome with
      | .stop short => ShortSound w s short t
      | _ => Untouched w.toConfig anyKey s t) := by
  unfold applyWritePolicy
  split
  · exact Triple.pure (fun _ h => h)
  refine Returns.bind ((Untouched.discipline w anyKey s).mergeDurableEntries false).returns
    (fun _ => ?_)
  refine Triple.mono (Returns.bind (Untouched.discipline w anyKey s).snapshot.forget.returns
    (fun candidates => ?_)) (fun _ h => h.1) (fun _ _ h => h) (fun _ _ => id)
  unfold applyVerdict
  split
  · refine Triple.read (fun t _ => ?_)
    unfold policyNoop
    cases (t.entries.get? key).or _ <;> trivial
  · split
    · exact Returns.bind Returns.any (fun _ => Triple.pure (fun _ _ => trivial))
    · exact Triple.pure (fun _ h => h.1)
  · split <;> exact Triple.pure (fun _ h => h.1)
  · exact Triple.pure (fun _ h => h.1)

theorem shortSound_of_isError {short : ShortCircuit} (h : short.isError = true) (t : Store) :
    ShortSound w s short t := by
  cases short with
  | error code message => trivial
  | _ => cases h

/-- What a preparation leaves: a sound answer, or the key to be saved as it was. -/
def PrepSound (w : World) (s : Store) (a : SaveArgs) (r : Except ShortCircuit SavePrep)
    (t : Store) : Prop :=
  match r with
  | .error short => ShortSound w s short t
  | .ok p => Untouched w.toConfig (· = p.effectiveKey.getD a.key) s t

theorem prepareUnder_sound (a : SaveArgs) (value agentScope : String)
    (mgExplicit : Option (Option String)) (updateKey : Option String) :
    Returns (Untouched w.toConfig anyKey s)
      (prepareUnder w a value agentScope mgExplicit updateKey) (PrepSound w s a) := by
  refine Returns.bind (dedupAndConflicts_sound value _ a.dedup a.conflictCheck) (fun r => ?_)
  rcases r with short | o <;> exact Triple.pure (fun _ h => h)

theorem prepareSave_sound (a : SaveArgs) :
    Returns (Untouched w.toConfig anyKey s) (prepareSave w a) (PrepSound w s a) := by
  refine Returns.bind (checkSave_untouched a).returns (fun r => ?_)
  rcases r with short | ⟨value, agentScope, mgExplicit⟩
  · exact Triple.pure (fun t h => shortSound_of_isError (h.2 short rfl) t)
  refine Triple.mono (Returns.bind (applyWritePolicy_untouched a.key value) (fun outcome => ?_))
    (fun _ h => h.1) (fun _ _ h => h) (fun _ _ => id)
  cases outcome with
  | stop short => exact Triple.pure (fun _ h => h)
  | proceed => exact prepareUnder_sound a value agentScope mgExplicit none
  | update target => exact prepareUnder_sound a value agentScope mgExplicit (some target)

end Prepare
section Build
variable {w : World} {s : Store} {a : SaveArgs}

/-- A row built without lifecycle arguments is live when there was none, when it starts a new life,
or when the row it replaces was live but for the deprecated closing bound, which it drops. -/
theorem construct_liveRow_iff {c : Config} {tierVal : Tier} {mg : Option String}
    {existing : Option MemoryEntry} {now : Stamp} {e : MemoryEntry}
    (hstatus : a.status = none) (hsuper : a.supersededBy = none)
    (h : constructMemoryEntry c a tierVal mg existing now = .ok e) (at_ : Stamp) :
    e.liveRow at_ = true ↔ existing = none ∨ ∃ b, existing = some b ∧
      (windowClosed (a.validAt.or b.validAt) b.invalidAt = .ok true ∨
        ({ b with validUntil := none } : MemoryEntry).liveRow at_ = true) := by
  obtain ⟨revived, source, scope, hr, -, rfl⟩ := constructMemoryEntry_ok h
  cases existing with
  | none =>
    cases revived <;> simp [MemoryEntry.liveRow, MemoryEntry.normalised, draftEntry,
      preservedFieldsForUpdate, resolveStatus, isEmpty, stillOpen, hstatus, hsuper]
  | some b =>
    have hwin : windowClosed (a.validAt.or b.validAt) b.invalidAt = .ok revived := hr
    cases revived <;> simp [MemoryEntry.liveRow, MemoryEntry.normalised, draftEntry,
      preservedFieldsForUpdate, resolveStatus, isEmpty, stillOpen, hstatus, hsuper, hwin]

/-- The row `entry` is what these arguments make of the held one. -/
def BuiltFrom (w : World) (s : Store) (a : SaveArgs) (entry : MemoryEntry) : Prop :=
  ∃ tierVal mg now e, constructMemoryEntry w.toConfig a tierVal mg (held w.toConfig s a.key) now =
    .ok e ∧ entry = stampIntegrityHash w.toConfig e

theorem buildEntry_built (mgExplicit : Option (Option String)) :
    Returns (Untouched w.toConfig (· = a.key) s) (buildEntry w a mgExplicit)
      (fun r _ => (BuiltFrom w s a r.1 ∧ r.1.key = a.key) ∧ True) := by
  have hheld := ensureEntryCached_held (w := w) (K := (· = a.key)) (s := s) (rfl : a.key = a.key)
  refine Returns.bind (hheld.mono (fun _ => id) (fun _ _ h => And.intro h.2.2 trivial)
    (fun _ _ _ => trivial)) (fun existing => Triple.assume (fun hexisting => ?_))
  refine Returns.bind Returns.any (fun tierVal => ?_)
  refine Returns.bind Returns.any (fun now => ?_)
  refine Returns.bind (Q := fun e _ => BuiltFrom w s a (stampIntegrityHash w.toConfig e) ∧
    e.key = a.key) (Returns.ofExcept (fun e he _ _ => ?_)) (fun e => Triple.pure (fun _ h => ⟨h, trivial⟩))
  exact ⟨⟨tierVal, _, now, e, hexisting ▸ he, rfl⟩, constructMemoryEntry_key he⟩

theorem buildAndAssignEntry_built (mgExplicit : Option (Option String)) :
    Returns (Untouched w.toConfig (· = a.key) s) (buildAndAssignEntry w a mgExplicit)
      (fun r t => BuiltFrom w s a r.1 ∧ r.1.key = a.key ∧ t.entries.get? r.1.key = some r.1) := by
  refine Returns.bind (buildEntry_built mgExplicit) (fun r => Triple.assume ?_)
  rintro ⟨hbuilt, hkey⟩
  refine Returns.bind Returns.any (fun _ => ?_)
  refine Returns.bind (Q := fun _ t => t.entries.get? r.1.key = some r.1)
    (Triple.modify (fun t _ => Table.get?_set_self _ _)) (fun _ => ?_)
  exact Triple.pure (fun t h => ⟨hbuilt, hkey, h⟩)

/-- Once persisted, the built row is what the store shows, and it stays so through the rest of a
save that does not consolidate. -/
theorem persist_showing (entry : MemoryEntry) (existing : Option MemoryEntry) :
    Returns (fun t => t.entries.get? entry.key = some entry)
      (persistEntryOrRollback w entry existing) (fun _ => Showing entry entry) := by
  have hsave : Returns (fun t => t.entries.get? entry.key = some entry) (saveRow w entry)
      (fun _ => Showing entry entry) := by
    intro t ht
    rw [saveRow_run]
    cases accepts w t entry with
    | false => trivial
    | true => exact ⟨ht, entry, _, ht, storeRow_get?_self _ _, rfl, upserted_life _ _⟩
  refine Returns.bind hsave.rollback (fun _ t ht => ?_)
  rw [dropIfConcurrentlyRemoved_run w ht.1]
  exact ht

theorem storePrepared_showing (consolidate : MemoryEntry → StoreM Unit) {p : SavePrep}
    (hskip : a.skipConsolidation = true) :
    Returns (Untouched w.toConfig (· = (preparedArgs a p).key) s) (storePrepared w consolidate a p)
      (fun entry t => BuiltFrom w s (preparedArgs a p) entry ∧ entry.key = (preparedArgs a p).key ∧
        Showing entry entry t) := by
  refine Returns.bind (buildAndAssignEntry_built p.mgExplicit) (fun r => ?_)
  rintro t ⟨hbuilt, hkey, ht⟩
  have hpost : Returns (Showing r.1 r.1)
      (postprocessSavedEntry w consolidate r.1 r.2 a.skipConsolidation)
      (fun _ => Showing r.1 r.1) := by
    have h : Keeps (Showing r.1 r.1)
        (postprocessSavedEntry w consolidate r.1 r.2 a.skipConsolidation) :=
      (Showing.discipline w r.1 r.1).postprocessSavedEntry r.2 _
        (fun h => Bool.noConfusion (hskip.symm.trans h))
    exact h.returns.mono (fun _ => id) (fun _ _ h => h.1) (fun _ _ => id)
  exact (Returns.bind (persist_showing r.1 r.2) (fun _ => Returns.bind hpost
    (fun _ => Triple.pure (fun _ h => ⟨hbuilt, hkey, h⟩)))) t ht

end Build
/-- The save writes `key` anew over `b`, and either its conflicts start a new life of the row, or
all that kept the row from being live is the deprecated closing bound the rewrite drops. -/
def Reopens (w : World) (a : SaveArgs) (s : Store) (b : MemoryEntry) (now : Stamp) : Prop :=
  ∃ p, (prepareSave w a s).1 = .ok (.ok p) ∧
    (windowClosed ((p.conflictValidAt.map .at).or b.validAt) b.invalidAt = .ok true ∨
      ({ b with validUntil := none } : MemoryEntry).liveRow now = true)

theorem liveRow_dropUntil {b : MemoryEntry} {now : Stamp} (h : b.liveRow now = true) :
    ({ b with validUntil := none } : MemoryEntry).liveRow now = true := by
  simp only [MemoryEntry.liveRow, Bool.and_eq_true] at h ⊢
  exact ⟨⟨⟨⟨h.1.1.1.1, rfl⟩, h.1.1.2⟩, h.1.2⟩, h.2⟩

section Save
variable {w : World} {a : SaveArgs} {s t : Store}

/-- What a save returns for its key is cached and stored with one and the same lifecycle. -/
def ShownAs (key : String) (e : MemoryEntry) (t : Store) : Prop :=
  ∃ row, t.entries.get? key = some e ∧ t.rows.get? key = some row ∧
    ∀ now, row.liveRow now = e.liveRow now

theorem Showing.shownAs {e : MemoryEntry} (h : Showing e e t) : ShownAs e.key e t := by
  obtain ⟨hcached, _, row, _, hrow, _, hl⟩ := h
  exact ⟨row, hcached, hrow, liveRow_of_life hl⟩

/-- When a live row is left by a save that returned for `key`. -/
def LiveAfter (w : World) (a : SaveArgs) (s : Store) (key : String) (now : Stamp) : Prop :=
  held w.toConfig s key = none ∨
    ∃ b, held w.toConfig s key = some b ∧ (b.liveRow now = true ∨ Reopens w a s b now)

theorem answered_liveRow_iff {short : ShortCircuit} {u : Store} {e : MemoryEntry}
    (hsound : ShortSound w s short u) (hprep : (prepareSave w a s).1 = .ok (.error short))
    (hrun : answerShort short u = (.ok (.entry e), t)) (hfound : ∀ e', short ≠ .found e') :
    ShownAs e.key e t ∧ ∀ now, e.liveRow now = true ↔ LiveAfter w a s e.key now := by
  cases short with
  | coalesced key tier conf mg =>
    obtain ⟨b, hheld, cached, row, hcached, hrow, hc, hr⟩ := hsound
    simp only [answerShort, Prog.bind_run, getEntry_run, hcached, Prog.pure_run, Prod.mk.injEq,
      Except.ok.injEq, SaveResult.entry.injEq] at hrun
    obtain ⟨rfl, rfl⟩ := hrun
    have hkey : cached.key = key := Table.key_of_get? hcached
    subst hkey
    refine ⟨⟨row, hcached, hrow, liveRow_of_life (hr.trans hc.symm)⟩, fun now => ?_⟩
    rw [liveRow_of_life hc now, LiveAfter, hheld]
    constructor
    · exact fun h => .inr ⟨b, rfl, .inl h⟩
    · rintro (h | ⟨b', hb', h | ⟨p, hp, -⟩⟩)
      · cases h
      · cases hb'
        exact h
      · rw [hprep] at hp
        cases hp
  | found e' => exact absurd rfl (hfound e')
  | error code message => cases hrun
  | noop key reasoning => cases hrun
  | deleted key reasoning => cases hrun

theorem stored_liveRow_iff {p : SavePrep} {u : Store} {e : MemoryEntry}
    (hstatus : a.status = none) (hvalid : a.validAt = none) (hsuper : a.supersededBy = none)
    (hprep : prepareSave w a s = (.ok (.ok p), u))
    (hbuilt : BuiltFrom w s (preparedArgs (inferredArgs w.toConfig a) p) e)
    (hkey : e.key = p.effectiveKey.getD a.key) (now : Stamp) :
    e.liveRow now = true ↔ LiveAfter w a s e.key now := by
  obtain ⟨tierVal, mg, at_, e', he', rfl⟩ := hbuilt
  have hiff := construct_liveRow_iff (a := preparedArgs (inferredArgs w.toConfig a) p)
    hstatus hsuper he' now
  have hopening : (preparedArgs (inferredArgs w.toConfig a) p).validAt =
      p.conflictValidAt.map .at := by
    simp only [preparedArgs, inferredArgs, hvalid, Option.none_or]
  change e'.liveRow now = true ↔ _
  rw [hiff, hopening, hkey]
  refine or_congr_right (exists_congr (fun b => and_congr_right (fun _ => ?_)))
  constructor
  · exact fun h => .inr ⟨p, by rw [hprep], h⟩
  · rintro (h | ⟨p', hp', h⟩)
    · exact .inr (liveRow_dropUntil h)
    · rw [hprep] at hp'
      cases hp'
      exact h

/-- The write policy found nothing to add and had the save answered with an entry as it is. -/
def policyAnswered : Except Raised (Except ShortCircuit SavePrep) → Bool
  | .ok (.error (.found _)) => true
  | _ => false

end Save
/-- A save of one key that carries no lifecycle argument. -/
def plainSave : SaveArgs := { key := "k", value := "the build is green", skipConsolidation := true }

def agedStore : Store :=
  (do
    let _ ← save Config.plain.calm plainSave
    closeValidity Config.plain.calm "k" "age" none none : StoreM (Option MemoryEntry)).final {}

def SaveResult.entry? : Except Raised SaveResult → Option MemoryEntry
  | .ok (.entry e) => some e
  | _ => none

theorem SaveResult.entry?_eq_some {r : Except Raised SaveResult} {e : MemoryEntry}
    (h : SaveResult.entry? r = some e) : r = .ok (.entry e) := by
  rcases r with err | e' | d
  · cases h
  · cases h
    rfl
  · cases h

end TappsBrain
