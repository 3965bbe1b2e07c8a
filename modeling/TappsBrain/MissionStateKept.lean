import Mathlib.Data.List.Dedup
import TappsBrain.Lib.Run
import TappsBrain.MissionState
import TappsBrain.Parked
import TappsBrain.Untouched

namespace TappsBrain
open Lib Parked
set_option autoImplicit true
set_option relaxedAutoImplicit false

/-- The row a slot of mission state is served from. -/
structure HoldsState (text : String) (x : MissionSlot) (e : MemoryEntry) : Prop where
  value : e.value = text
  mission : e.missionId = some x.missionId
  run : e.runId = x.run
  columns : columnsAccept e = true

section HoldsState
variable {text : String} {x : MissionSlot}

theorem holdsState_steady (c : Config) : Steady c (HoldsState text x) where
  hydrated := by
    intro row e he h
    rw [(rowToEntry_ok he).2]
    exact ⟨h.value, h.mission, h.run, h.columns⟩
  upserted := by
    intro rows e h
    rw [upserted]
    split
    · exact ⟨h.value, h.mission, h.run, h.columns⟩
    · exact h
  closed := by
    intro reason status now succ detail e h
    have hcols := columnsAccept_closeWith h.columns reason status now succ detail
    cases status
    all_goals exact ⟨h.value, h.mission, h.run, hcols⟩
  reopened := by
    intro updatedAt now e h
    have hcols := h.columns
    simp only [columnsAccept, List.all_cons, List.all_nil, Bool.and_true, Bool.and_eq_true] at hcols
    have hreopened : columnsAccept ((reopenPatch updatedAt).apply now e) = true := by
      simp only [columnsAccept, List.all_cons, List.all_nil, Bool.and_true, Bool.and_eq_true]
      exact ⟨⟨hcols.1.1, rfl, hcols.1.2.2⟩, hcols.2⟩
    exact ⟨h.value, h.mission, h.run, hreopened⟩
  accessed := fun _ _ h => ⟨h.value, h.mission, h.run, h.columns⟩

end HoldsState

/-- The slot of `key` is filled with a `φ`, and no other row is stored under it. -/
structure Filled (key : String) (φ : MemoryEntry → Prop) (s : Store) : Prop where
  slot : ∃ e, s.entries.get? key = some e ∧ φ e
  row : ∀ row, s.rows.get? key = some row → φ row

def noKey (_ : String) : Prop := False

theorem Filled.parked {key : String} {φ : MemoryEntry → Prop} {K : List String} {s : Store}
    (h : Filled key φ s) (hs : Parked noKey φ K s) : Parked (· = key) φ K s where
  slot := by
    rintro k rfl
    exact h.slot
  row := by
    rintro row hrow rfl
    exact h.row row (Table.get?_of_mem hrow)
  cachedKeys := hs.cachedKeys
  storedKeys := hs.storedKeys

section Fill
variable {w : World} {key : String} {φ : MemoryEntry → Prop}

theorem Filled.bookkeeping : Bookkeeping (Filled key φ) :=
  ⟨fun _ h => ⟨h.1, h.2⟩, fun _ h => ⟨h.1, h.2⟩, fun _ h => ⟨h.1, h.2⟩, fun _ _ h => ⟨h.1, h.2⟩,
    fun _ _ h => ⟨h.1, h.2⟩, fun _ _ h => ⟨h.1, h.2⟩⟩

/-- A rewrite that is written through leaves what it writes in both places. -/
theorem rewriteEntry_fills (hup : ∀ rows e, φ e → φ (upserted rows e)) {before after : MemoryEntry}
    (hb : before.key = key) (ha : after.key = key) (hφ : columnsAccept after = true → φ after) :
    Triple (fun s => s.entries.get? key = some before) (rewriteEntry w before after)
      (fun _ s => Filled key φ s ∧ s.entries.get? key = some after) (fun _ _ => True) := by
  intro s hs
  rw [rewriteEntry_run w (ha.trans hb.symm) (hb.symm ▸ hs)]
  cases hacc : accepts w s after with
  | false => trivial
  | true =>
    have hcols : columnsAccept after = true := by
      rw [accepts, Bool.and_eq_true] at hacc
      exact hacc.2
    have hslot : (s.entries.set after).get? key = some after := ha ▸ Table.get?_set_self _ _
    refine ⟨⟨⟨after, hslot, hφ hcols⟩, ?_⟩, hslot⟩
    intro row hrow
    rw [← ha] at hrow
    dsimp only at hrow
    rw [storeRow_get?_self] at hrow
    cases hrow
    exact hup _ _ (hφ hcols)

/-- A rewrite that is refused changes nothing. -/
theorem rewriteEntry_filled (hup : ∀ rows e, φ e → φ (upserted rows e)) {before after : MemoryEntry}
    (hb : before.key = key) (ha : after.key = key) (hφ : columnsAccept after = true → φ after) :
    Triple (fun s => Filled key φ s ∧ s.entries.get? key = some before) (rewriteEntry w before after)
      (fun _ => Filled key φ) (fun _ => Filled key φ) := by
  intro s hs
  have hfills := rewriteEntry_fills (w := w) hup hb ha hφ s hs.2
  rw [rewriteEntry_run w (ha.trans hb.symm) (hb.symm ▸ hs.2)] at hfills ⊢
  cases hacc : accepts w s after with
  | false => exact ⟨hs.1.slot, hs.1.row⟩
  | true =>
    rw [hacc] at hfills
    exact hfills.1

theorem appendAudit_filled (k : String) (event : AuditEvent) :
    Keeps (Filled key φ) (appendAudit w k event) :=
  keeps_appendAudit Filled.bookkeeping

/-- A reinforcement that returns has written the entry through, promoted or not. -/
theorem reinforce_fills (hup : ∀ rows e, φ e → φ (upserted rows e))
    (hpromoted : ∀ target now e, φ e → φ (promoted w.toConfig target now e)) {boost : ℚ}
    {e : MemoryEntry}
    (hφ : ∀ now, columnsAccept (reinforced w.toConfig boost now e) = true →
      φ (reinforced w.toConfig boost now e)) :
    Triple (fun s => s.entries.get? key = some e) (reinforce w key boost)
      (fun _ => Filled key φ) (fun _ _ => True) := by
  have hread : Triple (fun s => s.entries.get? key = some e) (ensureEntryCached w key)
      (fun r s => r = some e ∧ s.entries.get? key = some e) (fun _ _ => True) := by
    intro s hs
    rw [ensureEntryCached_run, hs]
    exact ⟨rfl, hs⟩
  apply hread.bind
  intro r
  apply Triple.assume
  rintro rfl
  intro s hs
  have hkey : e.key = key := Table.key_of_get? hs
  have hclock : Triple (fun s => s.entries.get? key = some e) (utcNow w)
      (fun _ s => s.entries.get? key = some e) (fun _ _ => True) := fun _ h => h
  apply hclock.bind _ s hs
  intro now
  have hk : (reinforced w.toConfig boost now e).key = key := by rw [reinforced_key, hkey]
  apply (rewriteEntry_fills hup hkey hk (hφ now)).bind
  intro _
  rw [maybePromoteAfterReinforce]
  split
  · exact Triple.pure (fun _ h => h.1)
  · have hdue : Triple
        (fun s => Filled key φ s ∧ s.entries.get? key = some (reinforced w.toConfig boost now e))
        (promoteWhenDue w (reinforced w.toConfig boost now e)) (fun _ => Filled key φ)
        (fun _ => Filled key φ) := by
      have hticked : Triple
          (fun s => Filled key φ s ∧ s.entries.get? key = some (reinforced w.toConfig boost now e))
          (utcNow w)
          (fun _ s => Filled key φ s ∧ s.entries.get? key = some (reinforced w.toConfig boost now e))
          (fun _ => Filled key φ) :=
        fun s hs => ⟨⟨hs.1.slot, hs.1.row⟩, hs.2⟩
      apply hticked.bind
      intro checkedAt
      split
      · exact Triple.pure (fun _ h => h.1)
      · next target _ =>
        apply hticked.bind
        intro at₂
        have hp : columnsAccept (promoted w.toConfig target at₂ (reinforced w.toConfig boost now e)) =
            true → φ (promoted w.toConfig target at₂ (reinforced w.toConfig boost now e)) :=
          fun hcols => hpromoted target at₂ _ (hφ now hcols)
        have hkp : (promoted w.toConfig target at₂ (reinforced w.toConfig boost now e)).key = key :=
          (promoted_key _ _ _ _).trans hk
        apply (rewriteEntry_filled hup hk hkp hp).bind
        intro _
        exact (appendAudit_filled _ _).then (fun _ _ h => h) (fun _ _ => Triple.pure (fun _ h => h))
    exact hdue.handle (fun _ => Triple.pure (fun _ h => h))

/-- A row that is assigned and written through fills its slot. -/
theorem persistEntryOrRollback_fills (hup : ∀ rows e, φ e → φ (upserted rows e))
    {entry : MemoryEntry} (existing : Option MemoryEntry) (hk : entry.key = key)
    (hφ : columnsAccept entry = true → φ entry) :
    Triple (fun s => s.entries.get? key = some entry) (persistEntryOrRollback w entry existing)
      (fun _ => Filled key φ) (fun _ _ => True) := by
  have hsave : Triple (fun s => s.entries.get? key = some entry)
      (Prog.rollback (saveRow w entry) (restoreSlot entry.key existing))
      (fun _ s => Filled key φ s ∧ s.entries.get? key = some entry) (fun _ _ => True) := by
    apply Returns.rollback
    intro s hs
    rw [saveRow_run]
    cases hacc : accepts w s entry with
    | false => trivial
    | true =>
      have hcols : columnsAccept entry = true := by
        rw [accepts, Bool.and_eq_true] at hacc
        exact hacc.2
      refine ⟨⟨⟨entry, hs, hφ hcols⟩, ?_⟩, hs⟩
      intro row hrow
      rw [← hk, storeRow_get?_self] at hrow
      cases hrow
      exact hup _ _ (hφ hcols)
  apply hsave.bind
  intro _ s hs
  rw [dropIfConcurrentlyRemoved_run w (hk.symm ▸ hs.2)]
  exact hs.1

end Fill

/-- A row keeps what it says of its slot through a reinforcement. -/
theorem reinforced_holds {c : Config} {text : String} {x : MissionSlot} {e : MemoryEntry}
    (hvalue : e.value = text) (hmission : e.missionId = some x.missionId) (hrun : e.runId = x.run)
    (boost : ℚ) (now : Stamp) (hcols : columnsAccept (reinforced c boost now e) = true) :
    HoldsState text x (reinforced c boost now e) := by
  have hkeeps : (reinforced c boost now e).value = e.value ∧
      (reinforced c boost now e).missionId = e.missionId ∧
        (reinforced c boost now e).runId = e.runId := by
    rw [reinforced, withStability]
    split <;> exact ⟨rfl, rfl, rfl⟩
  exact ⟨hkeeps.1.trans hvalue, hkeeps.2.1.trans hmission, hkeeps.2.2.trans hrun, hcols⟩

/-- The row that is built carries the value and the companion fields of its arguments. -/
theorem constructMemoryEntry_fields {c : Config} {a : SaveArgs} {tierVal : Tier}
    {mg : Option String} {existing : Option MemoryEntry} {now : Stamp} {e : MemoryEntry}
    (h : constructMemoryEntry c a tierVal mg existing now = .ok e) :
    e.value = a.value ∧ e.missionId = a.missionId ∧ e.runId = a.runId := by
  rw [constructMemoryEntry] at h
  split at h
  · cases h
  · split at h
    · cases h
    · cases h
    · split at h
      · cases h
      · next he =>
        cases h
        rw [(validate_ok he).2]
        exact ⟨rfl, rfl, rfl⟩

section Own
variable {w : World} {s : Store} {a : SaveArgs} {x : MissionSlot}

/-- What the slot holds is the value to be saved, if dedup cannot tell them apart. -/
def SameState (w : World) (s : Store) (a : SaveArgs) : Prop :=
  ∀ e, held w.toConfig s a.key = some e →
    normalizeForDedup w.unicode e.value = normalizeForDedup w.unicode a.value →
      e.value = a.value ∧ e.missionId = a.missionId ∧ e.runId = a.runId

theorem handleDedup_fills (hm : a.missionId = some x.missionId) (hr : a.runId = x.run)
    (hsame : SameState w s a) (dedup : Bool) :
    Triple (Untouched w.toConfig anyKey s) (handleDedup w a.key a.value dedup)
      (fun r t => ∀ d, r = some d → Filled a.key (HoldsState a.value x) t) (fun _ _ => True) := by
  rw [handleDedup]
  split
  · exact Triple.pure (fun _ _ d hd => by cases hd)
  · apply ((ensureEntryCached_held trivial).mono (fun _ h => h) (fun _ _ h => h)
      (fun _ _ _ => trivial)).bind
    rintro r t ⟨_, hslot, hheld⟩
    cases r with
    | none => exact fun d hd => nomatch hd
    | some e =>
      dsimp only
      by_cases hnorm : normalizeForDedup w.unicode e.value = normalizeForDedup w.unicode a.value
      · obtain ⟨hvalue, hmission, hrun⟩ := hsame e hheld.symm hnorm
        have hholds : ∀ now, columnsAccept (reinforced w.toConfig 0 now e) = true →
            HoldsState a.value x (reinforced w.toConfig 0 now e) := by
          intro now hcols
          exact reinforced_holds hvalue (hmission.trans hm) (hrun.trans hr) 0 now hcols
        have hreinforce : Triple (fun u => u.entries.get? a.key = some e) (reinforce w a.key 0)
            (fun _ => Filled a.key (HoldsState a.value x)) (fun _ _ => True) :=
          reinforce_fills (holdsState_steady w.toConfig).upserted
            (fun target now d hd => ⟨hd.value, hd.mission, hd.run, hd.columns⟩) hholds
        have hcoalesce : Triple (fun u => u.entries.get? a.key = some e) (coalesce w a.key)
            (fun r u => ∀ d, r = some d → Filled a.key (HoldsState a.value x) u)
            (fun _ _ => True) := by
          apply Triple.handle (E := fun _ _ => True)
          · apply hreinforce.bind
            exact fun e' => Triple.pure (fun u hu d _ => hu)
          · intro err
            cases err with
            | keyError k => exact Triple.pure (fun _ _ d hd => by cases hd)
            | _ => exact Triple.raise (fun _ _ => trivial)
        rw [if_neg (not_not.2 hnorm)]
        exact hcoalesce t hslot
      · rw [if_pos hnorm]
        exact fun d hd => nomatch hd

theorem prepareUnder_fills (hm : a.missionId = some x.missionId) (hr : a.runId = x.run)
    (hsame : willFailValidation a.key a.value = false → SameState w s a) (agentScope : String)
    (mgExplicit : Option (Option String)) :
    Triple (Untouched w.toConfig anyKey s)
      (prepareUnder w a a.value agentScope mgExplicit none)
      (fun r t => match r with
        | .error _ => Filled a.key (HoldsState a.value x) t
        | .ok p => p.effectiveKey = none ∧ p.value = a.value) (fun _ _ => True) := by
  have hphases : Triple (Untouched w.toConfig anyKey s)
      (dedupAndConflicts w a.key a.value (normalizeSaveTier w.toConfig a.tier) a.dedup
        a.conflictCheck)
      (fun r t => ∀ d, r = .error d → Filled a.key (HoldsState a.value x) t) (fun _ _ => True) := by
    rw [dedupAndConflicts]
    split
    · exact Triple.pure (fun _ _ d hd => by cases hd)
    · next hfail =>
      apply (handleDedup_fills hm hr (hsame (Bool.eq_false_iff.2 hfail)) a.dedup).bind
      intro r
      cases r with
      | some d => exact Triple.pure (fun _ h _ _ => h d rfl)
      | none =>
        apply Triple.bind (Q := fun _ _ => True)
        · exact fun u _ => by
            rcases handleConflicts w a.key a.value (normalizeSaveTier w.toConfig a.tier)
              a.conflictCheck u with ⟨_ | _, _⟩ <;> trivial
        · exact fun o => Triple.pure (fun _ _ d hd => by cases hd)
  apply hphases.bind
  intro r
  rcases r with d | o
  · exact Triple.pure (fun _ h => h d rfl)
  · exact Triple.pure (fun _ _ => ⟨rfl, rfl⟩)

/-- The gates of the save path leave the value as it is, and dedup does not mistake it. -/
structure Passes (w : World) (s : Store) (a : SaveArgs) : Prop where
  scope : ∃ r, validateScopeAndGroup w.toConfig a.agentScope a.memoryGroup = .ok r
  rules : validateWriteRules w.toConfig a.key a.value = none
  safe : w.rateAllowed s.checks = true → applySafetyCheck w.toConfig a.value = .ok a.value
  same : w.rateAllowed s.checks = true → willFailValidation a.key a.value = false → SameState w s a

/-- A preparation that ends early has found the value in its slot. -/
theorem prepareSave_fills (hpolicy : ∀ key value entries, policyProceeds w key value entries = true)
    (hm : a.missionId = some x.missionId) (hr : a.runId = x.run) (h : Passes w s a) :
    Triple (fun t => t = s) (prepareSave w a)
      (fun r t => match r with
        | .error _ => Filled a.key (HoldsState a.value x) t
        | .ok p => p.effectiveKey = none ∧ p.value = a.value) (fun _ _ => True) := by
  obtain ⟨⟨agentScope, mgExplicit⟩, hscope⟩ := h.scope
  have hcheck : Triple (fun t => t = s) (checkSave w a)
      (fun r t => (r = .ok (a.value, agentScope, mgExplicit) ∧ w.rateAllowed s.checks = true) ∧
        Untouched w.toConfig anyKey s t) (fun _ _ => True) := by
    rintro t rfl
    simp only [checkSave, hscope, h.rules]
    rw [Prog.bind_run, checkRateLimit]
    cases hrate : w.rateAllowed t.checks with
    | false => trivial
    | true =>
      simp only [↓reduceIte, h.safe hrate]
      exact ⟨⟨rfl, trivial⟩, (Untouched.discipline w anyKey t).bookkeeping.checks t (Untouched.refl t)⟩
  apply hcheck.bind
  intro r
  apply Triple.assume
  rintro ⟨rfl, hrate⟩
  have hproceeds := (Untouched.discipline w anyKey s).applyWritePolicy_proceeds hpolicy a.key a.value
  apply hproceeds.then (fun _ _ _ => trivial)
  rintro outcome rfl
  exact prepareUnder_fills hm hr (h.same hrate) agentScope mgExplicit

theorem storePrepared_fills {consolidate : MemoryEntry → StoreM Unit} {K : List String}
    {p : SavePrep} {key text : String} (hroom : Roomy w K) (hkey : (preparedArgs a p).key = key)
    (hvalue : (preparedArgs a p).value = text) (hm : a.missionId = some x.missionId)
    (hr : a.runId = x.run)
    (hc : w.consolidation.enabled = true → a.skipConsolidation = false → ∀ e,
      Triple (Parked (· = key) (HoldsState text x) (key :: K)) (consolidate e)
        (fun _ => Stowed (· = key) (HoldsState text x)) (fun _ => Stowed (· = key) (HoldsState text x))) :
    Triple (Parked noKey (HoldsState text x) K) (storePrepared w consolidate a p)
      (fun _ => Stowed (· = key) (HoldsState text x)) (fun _ _ => True) := by
  have hφ : Steady w.toConfig (HoldsState text x) := holdsState_steady w.toConfig
  have hbuilt : Triple (Parked noKey (HoldsState text x) K)
      (buildAndAssignEntry w (preparedArgs a p) p.mgExplicit) _ _ :=
    Parked.buildAndAssignEntry_keeps hφ hroom (fun h => h) p.mgExplicit
  apply (hbuilt.mono (fun _ hs => hs) (fun _ _ hs => hs) (fun _ _ _ => trivial)).bind
  rintro ⟨entry, existing⟩ s ⟨hs, hinto⟩
  obtain ⟨old, mg, now, tierVal, e, he, hentry⟩ := hinto.built
  have hek : entry.key = key := hinto.key.trans hkey
  have hholds : columnsAccept entry = true → HoldsState text x entry := by
    intro hcols
    obtain ⟨hv, hmi, hri⟩ := constructMemoryEntry_fields he
    have hentry : entry = stampIntegrityHash w.toConfig e := hentry
    subst hentry
    exact ⟨hv.trans hvalue, hmi.trans hm, hri.trans hr, hcols⟩
  rw [hkey] at hs
  have hslot : s.entries.get? key = some entry := hkey ▸ hinto.slot
  have hw : (Parked.discipline w hφ noKey (key :: K)).writes entry :=
    ⟨hek ▸ List.mem_cons_self, fun h => h⟩
  have hold : ∀ b, existing = some b → (Parked.discipline w hφ noKey (key :: K)).writes b :=
    fun b hb => ⟨(hinto.existing b hb).trans hkey ▸ List.mem_cons_self, fun h => h⟩
  have hkeeps := (Parked.discipline w hφ noKey (key :: K)).persistEntryOrRollback hw hold
  have hfills : Triple (fun t => t.entries.get? key = some entry)
      (persistEntryOrRollback w entry existing) (fun _ => Filled key (HoldsState text x))
      (fun _ _ => True) :=
    persistEntryOrRollback_fills hφ.upserted existing hek hholds
  have hrest : Triple (fun t => t.entries.get? key = some entry ∧
      Parked noKey (HoldsState text x) (key :: K) t) (do
        persistEntryOrRollback w entry existing
        postprocessSavedEntry w consolidate entry existing a.skipConsolidation
        pure entry) (fun _ => Stowed (· = key) (HoldsState text x)) (fun _ _ => True) := by
    apply ((hfills.and hkeeps).mono (fun _ h => h) (fun _ _ h => h) (fun _ _ _ => trivial)).bind
    intro _
    have hpost := Parked.postprocess_keeps (w := w) hφ existing
      (fun hon hskip => hc hon hskip entry)
    apply (hpost.mono (fun t ht => ht.1.parked ht.2.1) (fun _ _ h => h) (fun _ _ _ => trivial)).bind
    exact fun _ => Triple.pure (fun _ h => h)
  exact hrest s ⟨hslot, hs⟩

-- From here on the phases of a save are known by their rules alone.
attribute [local irreducible] prepareSave storePrepared

/-- A save that returns has its value in the slot. -/
theorem save_fills {K : List String} (hroom : Roomy w K)
    (hroom' : w.consolidation.enabled = true → Roomy w (a.key :: K))
    (hpolicy : ∀ key value entries, policyProceeds w key value entries = true)
    (hmerge : MergesElsewhere w (· = a.key)) (hm : a.missionId = some x.missionId)
    (hr : a.runId = x.run) (h : Passes w s a) (hs : Parked noKey (HoldsState a.value x) K s) :
    Triple (fun t => t = s) (save w a) (fun _ => Stowed (· = a.key) (HoldsState a.value x))
      (fun _ _ => True) := by
  have hφ : Steady w.toConfig (HoldsState a.value x) := holdsState_steady w.toConfig
  rw [save, saveWith]
  split
  · exact Triple.raise (fun _ _ => trivial)
  · have hkeeps : Keeps (Parked noKey (HoldsState a.value x) K) (prepareSave w a) _ :=
      Parked.prepareSave_keeps hφ hpolicy (fun h => h)
    have hprep : Triple (fun t => t = s) (prepareSave w a)
        (fun r t => (match r with
          | .error _ => Filled a.key (HoldsState a.value x) t
          | .ok p => p.effectiveKey = none ∧ p.value = a.value) ∧
            Parked noKey (HoldsState a.value x) K t) (fun _ _ => True) :=
      ((prepareSave_fills hpolicy hm hr h).and hkeeps).mono (fun t ht => ⟨ht, ht ▸ hs⟩)
        (fun _ _ h => ⟨h.1, h.2.1⟩) (fun _ _ _ => trivial)
    refine hprep.bind (fun r t ht => ?_)
    obtain ⟨hr', hkept⟩ := ht
    rcases r with d | p
    · have hparked : Parked (· = a.key) (HoldsState a.value x) K t := Filled.parked hr' hkept
      have hanswer : Triple (Parked (· = a.key) (HoldsState a.value x) K) (answerShort d)
          (fun _ => Stowed (· = a.key) (HoldsState a.value x)) (fun _ _ => True) :=
        ((discipline w hφ (· = a.key) K).answerShort_keeps d).mono (fun _ h => h)
          (fun _ u hu => ⟨K, hu.1⟩) (fun _ _ _ => trivial)
      exact hanswer t hparked
    · have hkey : (preparedArgs (inferredArgs w.toConfig a) p).key = a.key := by
        rw [preparedArgs, hr'.1]
        rfl
      have hstore : Triple (Parked noKey (HoldsState a.value x) K)
          (storePrepared w (maybeConsolidate w) (inferredArgs w.toConfig a) p)
          (fun _ => Stowed (· = a.key) (HoldsState a.value x)) (fun _ _ => True) :=
        storePrepared_fills hroom hkey hr'.2 hm hr
          (fun hon _ e => Parked.maybeConsolidate_keeps hφ (hroom' hon) hpolicy hmerge e)
      have hrest : Triple (Parked noKey (HoldsState a.value x) K) (do
          let entry ← storePrepared w (maybeConsolidate w) (inferredArgs w.toConfig a) p
          pure (SaveResult.entry entry)) (fun _ => Stowed (· = a.key) (HoldsState a.value x))
          (fun _ _ => True) :=
        hstore.bind (fun _ => Triple.pure (fun _ h => h))
      exact hrest t hkept

end Own

/-- The keys the store holds, cached or stored. -/
def heldKeys (s : Store) : List String :=
  (s.entries.values.map (·.key) ++ s.rows.values.map (·.key)).dedup

/-- The caps leave room for one more row, and for a second where a merge may add one. -/
def hasRoomToPark (w : World) (s : Store) : Bool :=
  let needed := (heldKeys s).length + (if w.consolidation.enabled then 2 else 1)
  needed ≤ w.maxEntries && w.maxEntriesPerGroup.all (fun cap => needed ≤ cap)

/-- The slot holds nothing that dedup takes for the value, or the value itself. -/
def dedupSafe (w : World) (s : Store) (a : SaveArgs) : Bool :=
  willFailValidation a.key a.value ||
    (held w.toConfig s a.key).all (fun e =>
      normalizeForDedup w.unicode e.value ≠ normalizeForDedup w.unicode a.value ||
        (e.value = a.value && e.missionId = a.missionId && e.runId = a.runId))

/-- The save raises before it prepares anything, or stores the value as it is given. -/
def storesAsGiven (w : World) (s : Store) (a : SaveArgs) : Bool :=
  (argumentError w.toConfig a).isSome ||
    ((validateScopeAndGroup w.toConfig a.agentScope a.memoryGroup).toOption.isSome &&
      validateWriteRules w.toConfig a.key a.value = none &&
      (!w.rateAllowed s.checks ||
        (applySafetyCheck w.toConfig a.value = .ok a.value && dedupSafe w s a)))

section Conditions
variable {w : World} {s : Store} {a : SaveArgs}

theorem within_heldKeys (φ : MemoryEntry → Prop) (s : Store) : Parked noKey φ (heldKeys s) s where
  slot := fun _ h => h.elim
  row := fun _ _ h => h.elim
  cachedKeys := fun _ he => List.mem_dedup.2 (List.mem_append_left _ (List.mem_map_of_mem he))
  storedKeys := fun _ hrow => List.mem_dedup.2 (List.mem_append_right _ (List.mem_map_of_mem hrow))

theorem parked_heldKeys {L : String → Prop} {φ : MemoryEntry → Prop} (h : Stowed L φ s) :
    Parked L φ (heldKeys s) s := by
  obtain ⟨K, hs⟩ := h
  have hw := within_heldKeys φ s
  exact ⟨hs.slot, hs.row, hw.cachedKeys, hw.storedKeys⟩

theorem hasRoomToPark_roomy (h : hasRoomToPark w s = true) (key : String) :
    Roomy w (heldKeys s) ∧ (w.consolidation.enabled = true → Roomy w (key :: heldKeys s)) := by
  simp only [hasRoomToPark, Bool.and_eq_true, decide_eq_true_eq] at h
  obtain ⟨hmax, hgroup⟩ := h
  have hcap : ∀ cap, w.maxEntriesPerGroup = some cap →
      (heldKeys s).length + (if w.consolidation.enabled then 2 else 1) ≤ cap := by
    intro cap hc
    rw [hc, Option.all_some, decide_eq_true_eq] at hgroup
    exact hgroup
  constructor
  · constructor
    · split at hmax <;> omega
    · intro cap hc
      have hle := hcap cap hc
      split at hle <;> omega
  · intro hon
    rw [if_pos hon] at hmax
    constructor
    · rw [List.length_cons]
      omega
    · intro cap hc
      have hle := hcap cap hc
      rw [if_pos hon] at hle
      rw [List.length_cons]
      omega

theorem dedupSafe_same (h : dedupSafe w s a = true) (hfail : willFailValidation a.key a.value = false) :
    SameState w s a := by
  intro e he hnorm
  simp only [dedupSafe, hfail, Bool.false_or, he, Option.all_some, Bool.or_eq_true,
    decide_eq_true_eq, Bool.and_eq_true] at h
  rcases h with h | h
  · exact absurd hnorm h
  · exact ⟨h.1.1, h.1.2, h.2⟩

theorem storesAsGiven_passes (h : storesAsGiven w s a = true)
    (harg : argumentError w.toConfig a = none) : Passes w s a := by
  simp only [storesAsGiven, harg, Option.isSome_none, Bool.false_or, Bool.and_eq_true,
    Bool.or_eq_true, Bool.not_eq_true', decide_eq_true_eq] at h
  obtain ⟨⟨hscope, hrules⟩, hrate⟩ := h
  have hallowed : w.rateAllowed s.checks = true →
      applySafetyCheck w.toConfig a.value = .ok a.value ∧ dedupSafe w s a = true :=
    fun hyes => hrate.resolve_left (by rw [hyes]; exact Bool.noConfusion)
  refine ⟨?_, hrules, fun hyes => (hallowed hyes).1, fun hyes => dedupSafe_same (hallowed hyes).2⟩
  cases hv : validateScopeAndGroup w.toConfig a.agentScope a.memoryGroup with
  | error d =>
    rw [hv] at hscope
    cases hscope
  | ok r => exact ⟨r, rfl⟩

end Conditions

/-- A call on mission state. -/
inductive MissionCall (V : Type) where
  | set (x : MissionSlot) (value : V)
  | get (x : MissionSlot)
deriving DecidableEq

section Run
variable {V : Type} (w : World) (json : JsonCodec V)

def MissionCall.run : MissionCall V → Store → Store
  | .set x value, s => (missionStateSet w json x value).final s
  | .get x, s => (missionStateGet w json x).final s

/-- A set that is refused, or has room and stores its value as it is given. -/
def MissionCall.clean : MissionCall V → Store → Bool
  | .set x value, s =>
    (validateMissionArgs w.unicode x).isSome ||
      (hasRoomToPark w s && storesAsGiven w s (missionSaveArgs x (json.dumps value)))
  | .get _, _ => true

/-- The call sets another slot, or none. -/
def MissionCall.spares (x : MissionSlot) : MissionCall V → Bool
  | .set y _ => y ≠ x
  | .get _ => true

variable {w json} {x : MissionSlot} {text : String} {s : Store}

/-- A call that does not set the slot leaves it filled. -/
theorem MissionCall.run_kept (hpolicy : ∀ key value entries, policyProceeds w key value entries = true)
    (hmerge : ∀ e others plan, w.planMerge e others = some plan → '.' ∉ plan.consolidated.key.toList)
    (hx : WellFormedSlot x) (call : MissionCall V) (hspares : call.spares x = true)
    (hclean : call.clean w json s = true)
    (hs : Stowed (· = missionStateKey x) (HoldsState text x) s) :
    Stowed (· = missionStateKey x) (HoldsState text x) (call.run w json s) := by
  have hφ : Steady w.toConfig (HoldsState text x) := holdsState_steady w.toConfig
  have helsewhere : MergesElsewhere w (· = missionStateKey x) := by
    intro e others plan hplan hkey
    exact hmerge e others plan hplan (hkey ▸ missionStateKey_dotted x)
  cases call with
  | get y =>
    have hget : Keeps (Stowed (· = missionStateKey x) (HoldsState text x))
        (missionStateGet w json y) := by
      rw [missionStateGet]
      split
      · exact Keeps.pure trivial
      · apply (keptOf (fun K => get_fits hφ (missionStateKey y))).bind
        intro r _
        cases r <;> exact Keeps.pure trivial
    exact hget.final hs
  | set y value =>
    have hset : Triple (fun t => t = s) (missionStateSet w json y value)
        (fun _ => Stowed (· = missionStateKey x) (HoldsState text x))
        (fun _ => Stowed (· = missionStateKey x) (HoldsState text x)) := by
      rw [missionStateSet]
      cases hv : validateMissionArgs w.unicode y with
      | some message => exact Triple.pure (fun t ht => ht ▸ hs)
      | none =>
        simp only [MissionCall.clean, hv, Option.isSome_none, Bool.false_or, Bool.and_eq_true]
          at hclean
        have hne : ¬ missionStateKey y = missionStateKey x := by
          intro hkey
          have hyx := missionStateKey_inj (validateMissionArgs_none hv) hx hkey
          simp only [MissionCall.spares, hyx, ne_eq, not_true_eq_false, decide_false,
            Bool.false_eq_true] at hspares
        obtain ⟨hroom, hroom'⟩ := hasRoomToPark_roomy hclean.1 (missionStateKey y)
        have hsave : Triple (Parked (· = missionStateKey x) (HoldsState text x) (heldKeys s))
            (save w (missionSaveArgs y (json.dumps value)))
            (fun _ => Stowed (· = missionStateKey x) (HoldsState text x))
            (fun _ => Stowed (· = missionStateKey x) (HoldsState text x)) :=
          save_keeps hφ hroom hroom' hpolicy helsewhere hne
        have hfrom : Triple (fun t => t = s) (save w (missionSaveArgs y (json.dumps value)))
            (fun _ => Stowed (· = missionStateKey x) (HoldsState text x))
            (fun _ => Stowed (· = missionStateKey x) (HoldsState text x)) :=
          hsave.mono (fun t ht => by rw [ht]; exact parked_heldKeys hs) (fun _ _ h => h)
            (fun _ _ h => h)
        exact hfrom.bind (fun _ => Triple.pure (fun _ h => h))
    have hrun := hset s rfl
    rw [MissionCall.run, Prog.final]
    rcases hr : missionStateSet w json y value s with ⟨err | r, t⟩
    · rw [hr] at hrun
      exact hrun
    · rw [hr] at hrun
      exact hrun

/-- A set that reports it has saved has filled its slot. -/
theorem missionStateSet_fills (hpolicy : ∀ key value entries, policyProceeds w key value entries = true)
    (hmerge : ∀ e others plan, w.planMerge e others = some plan → '.' ∉ plan.consolidated.key.toList)
    {value : V} (hclean : (MissionCall.set x value).clean w json s = true)
    (hsaved : (missionStateSet w json x value).result s = .ok (.saved x (missionStateKey x))) :
    validateMissionArgs w.unicode x = none ∧
      Stowed (· = missionStateKey x) (HoldsState (json.dumps value) x)
        ((MissionCall.set x value).run w json s) := by
  rw [MissionCall.run, Prog.final]
  rw [Prog.result] at hsaved
  rcases hr : missionStateSet w json x value s with ⟨err | r, t⟩
  · rw [hr] at hsaved
    cases hsaved
  · rw [missionStateSet] at hr
    cases hv : validateMissionArgs w.unicode x with
    | some message =>
      rw [missionStateSet, hv] at hsaved
      cases hsaved
    | none =>
      refine ⟨rfl, ?_⟩
      simp only [MissionCall.clean, hv, Option.isSome_none, Bool.false_or, Bool.and_eq_true] at hclean
      rw [hv] at hr
      obtain ⟨saved, u, hsave, hrest⟩ := Prog.bind_ok hr
      cases hrest
      have harg : argumentError w.toConfig (missionSaveArgs x (json.dumps value)) = none := by
        by_contra hsome
        obtain ⟨msg, hmsg⟩ := Option.ne_none_iff_exists'.1 hsome
        rw [save, saveWith, hmsg] at hsave
        cases hsave
      obtain ⟨hroom, hroom'⟩ := hasRoomToPark_roomy hclean.1 (missionStateKey x)
      have helsewhere : MergesElsewhere w (· = missionStateKey x) := by
        intro e others plan hplan hkey
        exact hmerge e others plan hplan (hkey ▸ missionStateKey_dotted x)
      have hpasses := storesAsGiven_passes hclean.2 harg
      exact (save_fills hroom hroom' hpolicy helsewhere rfl rfl hpasses
        (within_heldKeys _ s)).ok rfl hsave

theorem filter_run (x : MissionSlot) : x.run.filter (· ≠ "") = x.run := by
  rw [MissionSlot.run]
  split
  · rfl
  · next hne => exact Option.filter_eq_some_iff.2 ⟨rfl, decide_eq_true hne⟩

theorem serveState_found {value : V} {e : MemoryEntry} (he : HoldsState (json.dumps value) x e) :
    serveState json x e = .found x (.json value) e.updatedAt := by
  rw [serveState, if_neg (not_not.2 he.mission), he.run, filter_run, if_neg (not_not.2 rfl), he.value,
    json.loads_dumps]

/-- A filled slot is served, once the stamp of the access is stored. -/
theorem missionStateGet_found {value : V} (hv : validateMissionArgs w.unicode x = none)
    (hs : Stowed (· = missionStateKey x) (HoldsState (json.dumps value) x) s)
    (hanswers : w.refuses s.calls = false) :
    ∃ updatedAt, (missionStateGet w json x).result s = .ok (.found x (.json value) updatedAt) := by
  obtain ⟨K, hs⟩ := hs
  obtain ⟨e, hslot, he⟩ := hs.slot _ rfl
  have hkey : e.key = missionStateKey x := Table.key_of_get? hslot
  have hacc : HoldsState (json.dumps value) x (accessed (w.clock s.ticks) e) :=
    (holdsState_steady w.toConfig).accessed _ _ he
  have haccepts : accepts w s.ticked (accessed (w.clock s.ticks) e) = true := by
    have hcalls : w.refuses s.ticked.calls = false := hanswers
    simp only [accepts, hcalls, hacc.columns, Bool.not_false, Bool.and_self]
  have hget := get_run w hslot
  rw [if_pos haccepts] at hget
  refine ⟨e.updatedAt, ?_⟩
  rw [Prog.result, missionStateGet, hv]
  dsimp only
  rw [Prog.bind_run_ok hget]
  exact congrArg Except.ok (serveState_found hacc)

/-- The slot stays filled as long as no call sets it. -/
theorem runSteps_kept (hpolicy : ∀ key value entries, policyProceeds w key value entries = true)
    (hmerge : ∀ e others plan, w.planMerge e others = some plan → '.' ∉ plan.consolidated.key.toList)
    (hx : WellFormedSlot x) {calls : List (MissionCall V)}
    (hspares : ∀ call ∈ calls, call.spares x = true)
    (hclean : Allowed (MissionCall.run w json) (MissionCall.clean w json) calls s)
    (hs : Stowed (· = missionStateKey x) (HoldsState text x) s) :
    Stowed (· = missionStateKey x) (HoldsState text x)
      (runSteps (MissionCall.run w json) calls s) := by
  induction calls generalizing s with
  | nil => exact hs
  | cons call rest ih =>
    have hnext := call.run_kept hpolicy hmerge hx (hspares call List.mem_cons_self) hclean.1 hs
    exact ih (fun c hc => hspares c (List.mem_cons_of_mem _ hc)) hclean.2 hnext

/-- Mission state is get-after-set: a set that reports it has saved is served until the slot is set
again, in every run whose sets have room and store what they are given; and no two slots share a
key. -/
theorem missionState_kept (hpolicy : ∀ key value entries, policyProceeds w key value entries = true)
    (hmerge : ∀ e others plan, w.planMerge e others = some plan → '.' ∉ plan.consolidated.key.toList)
    (value : V) (calls : List (MissionCall V)) (hspares : ∀ call ∈ calls, call.spares x = true)
    (hclean : Allowed (MissionCall.run w json) (MissionCall.clean w json) (.set x value :: calls) s)
    (hsaved : (missionStateSet w json x value).result s = .ok (.saved x (missionStateKey x))) :
    (w.refuses (runSteps (MissionCall.run w json) (.set x value :: calls) s).calls = false →
      ∃ updatedAt, (missionStateGet w json x).result
        (runSteps (MissionCall.run w json) (.set x value :: calls) s) =
          .ok (.found x (.json value) updatedAt)) ∧
      ∀ y z, validateMissionArgs w.unicode y = none → validateMissionArgs w.unicode z = none →
        missionStateKey y = missionStateKey z → y = z := by
  obtain ⟨hv, hfilled⟩ := missionStateSet_fills hpolicy hmerge hclean.1 hsaved
  constructor
  · have hend := runSteps_kept hpolicy hmerge (validateMissionArgs_none hv) hspares hclean.2 hfilled
    exact missionStateGet_found hv hend
  · exact fun y z hy hz =>
      missionStateKey_inj (validateMissionArgs_none hy) (validateMissionArgs_none hz)

end Run

/-- JSON texts without a character that needs an escape. -/
def quotedText : JsonCodec String where
  dumps s := "\"" ++ s ++ "\""
  loads s := some (String.ofList (s.toList.tail.dropLast))
  loads_dumps := by
    intro s
    simp

def contractOf (missionId : String) : MissionSlot := { missionId, kind := "contract" }

/-- Another mission parks its contract and this one is read. -/
theorem missionState_kept_twoMissions :
    let calls := [.set (contractOf "m-1") "ship it", .set (contractOf "m-2") "ship it",
      .get (contractOf "m-1")]
    ∃ updatedAt, (missionStateGet Config.plain.calm quotedText (contractOf "m-1")).result
      (runSteps (MissionCall.run Config.plain.calm quotedText) calls {}) =
        .ok (.found (contractOf "m-1") (.json "ship it") updatedAt) := by
  have hallowed : Allowed (MissionCall.run Config.plain.calm quotedText)
      (MissionCall.clean Config.plain.calm quotedText)
      [.set (contractOf "m-1") "ship it", .set (contractOf "m-2") "ship it",
        .get (contractOf "m-1")] {} := by
    decide +kernel
  have hsaved : (missionStateSet Config.plain.calm quotedText (contractOf "m-1") "ship it").result {} =
      .ok (.saved (contractOf "m-1") (missionStateKey (contractOf "m-1"))) := by
    decide +kernel
  have hmerge : ∀ (e : MemoryEntry) (others : List MemoryEntry) (plan : MergePlan),
      Config.plain.calm.planMerge e others = some plan →
        '.' ∉ plan.consolidated.key.toList := by
    intro e others plan h
    cases h
  have hkept := missionState_kept (fun _ _ _ => rfl) hmerge "ship it" _
    (by decide +kernel) hallowed hsaved
  exact hkept.1 rfl

/-- The second value differs from the first only in a space, and the set reports it has saved. -/
theorem missionState_lost :
    let first := (missionStateSet Config.plain.calm quotedText (contractOf "m-1") "ship it").final {}
    let second := missionStateSet Config.plain.calm quotedText (contractOf "m-1") "ship  it"
    second.result first = .ok (.saved (contractOf "m-1") "mission.m-1.contract") ∧
      ∃ updatedAt, (missionStateGet Config.plain.calm quotedText (contractOf "m-1")).result
        (second.final first) = .ok (.found (contractOf "m-1") (.json "ship it") updatedAt) := by
  refine ⟨by decide +kernel, 1002, by decide +kernel⟩

end TappsBrain
