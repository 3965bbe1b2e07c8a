import TappsBrain.MergedEntry
import TappsBrain.History
import TappsBrain.MergeLinks

namespace TappsBrain
open Lib
set_option autoImplicit true
set_option relaxedAutoImplicit false

/-- The number of keys a store holds. -/
def knownKeys (s : Store) : Nat := (s.versions.map (·.key)).dedup.length

/-- Nothing of the store hinders a save of `value`: its backend answers, its optional guards let the
value pass, and there is room. Merges are exempt from the rate limit. -/
structure Unhindered (w : World) (value : String) (s : Store) : Prop where
  answers : Answers w
  exempt : ∀ n, w.rateAllowed n = true
  unprofiled : w.profile = none
  unruled : w.writeRules = none
  unjudged : w.writePolicy = .deterministic
  safe : applySafetyCheck w.toConfig value = .ok value
  lower : w.unicode.lower "private" = "private"
  room : knownKeys s < w.maxEntries
  groupRoom : ∀ cap, w.maxEntriesPerGroup = some cap → knownKeys s < cap

/-- What the store holds is valid and was taken by the table. -/
structure Intact (c : Config) (s : Store) : Prop where
  entries : ∀ e ∈ s.entries.values, Valid c.unicode e ∧ columnsAccept e = true
  rows : ∀ row ∈ s.rows.values, Valid c.unicode row ∧ columnsAccept row = true

/-- What the preparation settles for a merged entry. -/
def settledMerge (c : Config) (e : MemoryEntry) : SavePrep :=
  { value := e.value
    agentScope := "private"
    tier := normalizeSaveTier c e.tier.text
    sourceAgent := filledSourceAgent c e.sourceAgent
    mgExplicit := some e.memoryGroup
    conflictValidAt := none
    effectiveKey := none
    invalidatedKeys := []
    invalidatedDetail := [] }

section Saved
variable {w : World} {s : Store} {e : MemoryEntry}

theorem validateScopeAndGroup_merged {c : Config} (hlower : c.unicode.lower "private" = "private")
    {g : Option String} (hgroup : normalizeGroupField g = .ok g) :
    validateScopeAndGroup c "private" (some g) = .ok ("private", some g) := by
  have hinitial : GROUP_AGENT_SCOPE_PREFIX.toList.isPrefixOf "private".toList = false := by decide
  rw [validateScopeAndGroup, normalizeAgentScope_private hlower]
  dsimp only
  rw [hinitial, Bool.false_and, if_neg Bool.false_ne_true]
  cases g with
  | none => rfl
  | some g =>
    rw [normalizeGroupField] at hgroup
    simp only [hgroup]

theorem prepareSave_merged (h : Unhindered w e.value s)
    (hgroup : normalizeGroupField e.memoryGroup = .ok e.memoryGroup) :
    prepareSave w e.consolidated.saveArgs s =
      (.ok (.ok (settledMerge w.toConfig e)), { s with checks := s.checks + 1 }) := by
  have hscope := validateScopeAndGroup_merged (c := w.toConfig) h.lower hgroup
  have hrate : checkRateLimit w s = (.ok (), { s with checks := s.checks + 1 }) := by
    rw [checkRateLimit, h.exempt]
    rfl
  have hrules : validateWriteRules w.toConfig e.key e.value = none := by
    rw [validateWriteRules, h.unruled]
  have hcheck : checkSave w e.consolidated.saveArgs s =
      (.ok (.ok (e.value, "private", some e.memoryGroup)), { s with checks := s.checks + 1 }) := by
    have hargs : e.consolidated.saveArgs.agentScope = "private" := rfl
    simp only [checkSave, ConsolidatedEntry.saveArgs, MemoryEntry.consolidated, hscope, hrules]
    rw [Prog.bind_run_ok hrate, h.safe]
    rfl
  rw [prepareSave, Prog.bind_run_ok hcheck]
  dsimp only
  rw [applyWritePolicy, h.unjudged]
  have hphases : ∀ key value tier t, dedupAndConflicts w key value tier
      e.consolidated.saveArgs.dedup e.consolidated.saveArgs.conflictCheck t = (.ok (.ok {}), t) := by
    intro key value tier t
    rw [dedupAndConflicts]
    split <;> rfl
  rw [Prog.bind_run_ok (Prog.pure_run _ _)]
  dsimp only
  rw [prepareUnder, Prog.bind_run_ok (hphases _ _ _ _)]
  rfl

/-- Without a profile every tier of a save is a built-in one. -/
theorem resolveTierValue_unprofiled {c : Config} (h : c.profile = none) (raw : String) :
    ∃ tier, resolveTierValue c (normalizeSaveTier c raw) = .ok (.std tier) := by
  have hstd : ∃ tier : MemoryTier, normalizeSaveTier c raw = tier.text := by
    rw [normalizeSaveTier, h]
    split
    · exact ⟨.pattern, rfl⟩
    · simp only [Option.bind_none]
      split
      · exact ⟨_, rfl⟩
      · exact ⟨.pattern, rfl⟩
  obtain ⟨tier, htier⟩ := hstd
  refine ⟨tier, ?_⟩
  rw [htier, resolveTierValue]
  cases tier <;> rfl

/-- The arguments a merged row is built with. -/
def builtArgs (c : Config) (e : MemoryEntry) : SaveArgs :=
  preparedArgs (inferredArgs c e.consolidated.saveArgs) (settledMerge c e)

/-- What a merged row keeps of the row it replaces meets the rules of the model. -/
structure SoundRow (x : MemoryEntry) : Prop where
  stability : negativeError x.stability = none
  difficulty : negativeError x.difficulty = none
  positive : negativeError x.positiveFeedbackCount = none
  negative : negativeError x.negativeFeedbackCount = none
  failed : failedApproachesError x.failedApproaches = none
  window : windowClosed x.validAt x.invalidAt = .ok false
  columns : columnsAccept x = true

theorem soundRow_of_valid {u : Unicode} {x : MemoryEntry} (h : Valid u x) (hc : columnsAccept x = true) :
    SoundRow x := by
  rw [valid_iff] at h
  simp only [fieldErrors, modelErrors, List.cons_append, List.nil_append, List.forall_mem_cons,
    reported_eq_none] at h
  obtain ⟨_, _, _, _, _, _, _, hst, hdi, hpo, hne, hfa, _, _, hwindow, _⟩ := h
  refine ⟨hst, hdi, hpo, hne, hfa, ?_, hc⟩
  rw [validityError] at hwindow
  split at hwindow
  · cases hwindow
  · next closed hclosed =>
    cases closed with
    | true => cases hwindow
    | false => exact hclosed

theorem Intact.soundRow {c : Config} {key : String} {x : MemoryEntry} (hs : Intact c s)
    (h : held c s key = some x) : SoundRow x := by
  rcases Option.or_eq_some_iff.1 h with hcached | ⟨_, hloaded⟩
  · obtain ⟨hvalid, hcolumns⟩ := hs.entries x (Table.mem_of_get? hcached)
    exact soundRow_of_valid hvalid hcolumns
  · obtain ⟨row, hrow, hread⟩ := Option.bind_eq_some_iff.1 hloaded
    obtain ⟨hvalid, hcolumns⟩ := hs.rows row (Table.mem_of_get? hrow)
    rw [rowToEntry_of_valid hvalid] at hread
    cases hread
    obtain ⟨hst, hdi, hpo, hne, hfa, hwindow, _⟩ := soundRow_of_valid hvalid hcolumns
    exact ⟨hst, hdi, hpo, hne, hfa, hwindow, hcolumns⟩

/-- The row that the arguments build over `existing`. -/
def mergedRowDraft (c : Config) (e : MemoryEntry) (tier : MemoryTier) (existing : Option MemoryEntry)
    (now : Stamp) : MemoryEntry :=
  draftEntry c (builtArgs c e) (.std tier) e.source e.scope e.memoryGroup existing now false

theorem constructMemoryEntry_merged {c : Config} {tier : MemoryTier} {existing : Option MemoryEntry}
    (hexisting : ∀ x, existing = some x → SoundRow x) (now : Stamp) :
    constructMemoryEntry c (builtArgs c e) (.std tier) e.memoryGroup existing now =
      match (mergedRowDraft c e tier existing now).validate c.unicode with
      | .error msg => .error (.validationError msg)
      | .ok x => .ok x := by
  have hrevives : revives (builtArgs c e) existing now = .ok false := by
    cases existing with
    | none => rfl
    | some x => exact (hexisting x rfl).window
  have hsource : MemorySource.ofText c.unicode (builtArgs c e).source = some e.source := by
    rw [show (builtArgs c e).source = e.source.text from rfl]
    cases e.source <;> rfl
  have hscope : MemoryScope.ofText (builtArgs c e).scope = some e.scope :=
    MemoryScope.ofText_text e.scope
  cases hv : (mergedRowDraft c e tier existing now).validate c.unicode with
  | error msg =>
    rw [mergedRowDraft] at hv
    simp only [constructMemoryEntry, hrevives, hsource, hscope, hv]
  | ok x =>
    rw [mergedRowDraft] at hv
    simp only [constructMemoryEntry, hrevives, hsource, hscope, hv]

/-- Over a sound row the built row is valid if the merged entry is of neither a branch nor a
mission. -/
theorem mergedRowDraft_valid_iff {c : Config} {tier : MemoryTier} {existing : Option MemoryEntry}
    (hlower : c.unicode.lower "private" = "private") (he : Valid c.unicode e)
    (hconf : 0 ≤ e.confidence) (hexisting : ∀ x, existing = some x → SoundRow x) (now : Stamp) :
    Valid c.unicode (mergedRowDraft c e tier existing now) ↔
      e.scope ≠ .branch ∧ e.scope ≠ .mission := by
  have hconfidence : (mergedRowDraft c e tier existing now).confidence = e.confidence := by
    have hne : e.confidence ≠ -1 := by
      intro h
      rw [h] at hconf
      exact absurd hconf (by decide +kernel)
    have hresolved : (mergedRowDraft c e tier existing now).confidence =
        resolveConfidence c (builtArgs c e) existing := rfl
    have hargs : (builtArgs c e).confidence = e.confidence := rfl
    rw [hresolved]
    cases existing with
    | none => simp only [resolveConfidence, hargs, hne, ↓reduceIte]
    | some x => simp only [resolveConfidence, hargs, hne, ↓reduceIte]
  have hscope : scopeError (mergedRowDraft c e tier existing now) = none ↔
      e.scope ≠ .branch ∧ e.scope ≠ .mission := by
    have hdraft : scopeError (mergedRowDraft c e tier existing now) =
        if e.scope = .branch && isEmpty none then
          some "Branch name is required when scope is 'branch'."
        else if e.scope = .mission && isEmpty none then
          some "mission_id is required when scope is 'mission'."
        else none := rfl
    rw [hdraft]
    cases e.scope <;> simp [isEmpty]
  have hagent : errorOf (normalizeAgentScope c.unicode "private") = none := by
    rw [normalizeAgentScope_private hlower, errorOf]
  have hkept : negativeError (mergedRowDraft c e tier existing now).stability = none ∧
      negativeError (mergedRowDraft c e tier existing now).difficulty = none ∧
      negativeError (mergedRowDraft c e tier existing now).positiveFeedbackCount = none ∧
      negativeError (mergedRowDraft c e tier existing now).negativeFeedbackCount = none ∧
      failedApproachesError (mergedRowDraft c e tier existing now).failedApproaches = none ∧
      validityError (mergedRowDraft c e tier existing now) = none := by
    cases existing with
    | none => exact ⟨rfl, rfl, rfl, rfl, rfl, rfl⟩
    | some x =>
      obtain ⟨hst, hdi, hpo, hne, hfa, hwindow, _⟩ := hexisting x rfl
      refine ⟨hst, hdi, hpo, hne, hfa, ?_⟩
      have hbounds : windowClosed (mergedRowDraft c e tier (some x) now).validAt
          (mergedRowDraft c e tier (some x) now).invalidAt = .ok false := hwindow
      rw [validityError, hbounds]
      rfl
  obtain ⟨hst, hdi, hpo, hne, hfa, hwindow⟩ := hkept
  rw [valid_iff] at he ⊢
  simp only [fieldErrors, modelErrors, List.cons_append, List.nil_append, List.forall_mem_cons,
    reported_eq_none, hconfidence, ← hscope] at he ⊢
  obtain ⟨hkey, hvalue, _, hrange, htags, _, hgroup, _, _, _, _, _, hown, _⟩ := he
  constructor
  · rintro ⟨_, _, _, _, _, _, _, _, _, _, _, _, _, h, _⟩
    exact h
  · intro h
    exact ⟨hkey, hvalue, rfl, hrange, htags, hagent, hgroup, hst, hdi, hpo, hne, hfa, hown, h,
      hwindow, rfl, fun _ h => by cases h⟩

theorem mergedRow_built {c : Config} {tier : MemoryTier} {existing : Option MemoryEntry}
    (hgroup : normalizeGroupField e.memoryGroup = .ok e.memoryGroup)
    (hexisting : ∀ x, existing = some x → SoundRow x) (now : Stamp) :
    MergedRow e (stampIntegrityHash c ((mergedRowDraft c e tier existing now).normalised c.unicode))
    where
  key := rfl
  value := rfl
  scope := rfl
  memoryGroup := by
    have hnormal : (stampIntegrityHash c ((mergedRowDraft c e tier existing now).normalised
        c.unicode)).memoryGroup = (normalizeGroupField e.memoryGroup).toOption.getD e.memoryGroup :=
      rfl
    rw [hnormal, hgroup]
    rfl
  columns := by
    cases existing with
    | none => rfl
    | some x =>
      have hcolumns := (hexisting x rfl).columns
      have hpromotion : resolvePromotionFields (some x) e.value = {} ∨
          resolvePromotionFields (some x) e.value = x.promotion := by
        rw [resolvePromotionFields]
        split
        · exact .inl rfl
        · exact .inr rfl
      rw [columnsAccept, Bool.and_eq_true] at hcolumns ⊢
      refine ⟨hcolumns.1, ?_⟩
      have hresolved : (stampIntegrityHash c ((mergedRowDraft c e tier (some x) now).normalised
          c.unicode)).promotion = resolvePromotionFields (some x) e.value := rfl
      rw [hresolved]
      rcases hpromotion with hpromotion | hpromotion
      · rw [hpromotion]
        rfl
      · rw [hpromotion]
        exact hcolumns.2

/-- The build step looks the key up and constructs the row over what it finds. -/
theorem buildEntry_merged {value : String} (h : Unhindered w value s) (hs : Intact w.toConfig s) :
    ∃ tier now t, t.entries = lookedUp w.toConfig s e.key ∧ t.rows = s.rows ∧
      buildEntry w (builtArgs w.toConfig e) (some e.memoryGroup) s =
        match (mergedRowDraft w.toConfig e tier (held w.toConfig s e.key) now).validate w.unicode with
        | .error msg => (.error (.validationError msg), t)
        | .ok x => (.ok (stampIntegrityHash w.toConfig x, held w.toConfig s e.key), t) := by
  obtain ⟨t, hlookup, hentries, hrows⟩ :=
    ensureEntryCached_lookedUp h.answers (fun row hrow => (hs.rows row hrow).1) e.key
  obtain ⟨tier, htier⟩ := resolveTierValue_unprofiled h.unprofiled e.tier.text
  have hexisting : ∀ x, held w.toConfig s e.key = some x → SoundRow x := fun x hx => hs.soundRow hx
  have hconstruct : ∀ now, constructMemoryEntry w.toConfig (builtArgs w.toConfig e) (.std tier)
      e.memoryGroup (held w.toConfig s e.key) now =
        match (mergedRowDraft w.toConfig e tier (held w.toConfig s e.key) now).validate w.unicode with
        | .error msg => .error (.validationError msg)
        | .ok x => .ok x := fun now => constructMemoryEntry_merged hexisting now
  refine ⟨tier, w.clock t.ticks, t.ticked, hentries, hrows, ?_⟩
  have htier' : resolveTierValue w.toConfig (builtArgs w.toConfig e).tier = .ok (.std tier) := htier
  have hread : ensureEntryCached w (builtArgs w.toConfig e).key s =
      (.ok (held w.toConfig s e.key), t) := hlookup
  rw [buildEntry, Prog.bind_run_ok hread, htier']
  simp only [Prog.ofExcept]
  rw [Prog.bind_run_ok (Prog.pure_run _ _), Prog.bind_run_ok (utcNow_run w t), Option.getD_some,
    hconstruct]
  cases (mergedRowDraft w.toConfig e tier (held w.toConfig s e.key) (w.clock t.ticks)).validate
    w.unicode <;> rfl

end Saved

section Room
variable {w : World} {s t : Store} {value : String}

/-- What is cached stays cached, no key is new, and the table stays as it is. -/
structure CacheGrown (s t u : Store) : Prop where
  kept : ∀ k y, t.entries.get? k = some y → u.entries.get? k = some y
  known : ∀ y ∈ u.entries.values, y.key ∈ s.versions.map (·.key)
  rows : u.rows = t.rows

theorem size_le_knownKeys (h : ∀ y ∈ t.entries.values, y.key ∈ s.versions.map (·.key)) :
    t.entries.size ≤ knownKeys s := by
  have hsub : t.entries.values.map (·.key) ⊆ (s.versions.map (·.key)).dedup := by
    intro k hk
    obtain ⟨y, hy, rfl⟩ := List.mem_map.1 hk
    exact List.mem_dedup.2 (h y hy)
  have hle := (List.subperm_of_subset t.entries.nodup hsub).length_le
  rwa [List.length_map] at hle

theorem countEntriesInMemoryGroup_grown (hw : Answers w)
    (hvalid : ∀ row ∈ t.rows.values, Valid w.unicode row)
    (hknown : ∀ y ∈ t.entries.values, y.key ∈ s.versions.map (·.key)) (hrows : t.rows = s.rows)
    (group : Option String) :
    Leads (countEntriesInMemoryGroup w group) t (fun n u => n ≤ knownKeys s ∧ CacheGrown s t u) := by
  have hread := rowsToEntries_of_valid (fun row hrow => hvalid row (mem_newestRows.1 hrow))
  have hload : loadAll w none t =
      (.ok ((newestRows t).map (·.normalised w.unicode)), t.called) := by
    rw [loadAll_run, hw t.calls]
    simp only [Bool.false_eq_true, ↓reduceIte, limited, hread]
  have hgrown : CacheGrown s t { t.called with
      entries := fillCache w.maxEntries true t.entries
        ((newestRows t).map (·.normalised w.unicode)) } := by
    constructor
    · intro k y hy
      dsimp only
      rw [fillCache_get?, hy, Option.some_or]
    · intro y hy
      have hget := Table.get?_of_mem hy
      dsimp only at hget
      rw [fillCache_get?, Option.or_eq_some_iff] at hget
      rcases hget with hget | ⟨_, hfind⟩
      · exact hknown y (Table.mem_of_get? hget)
      · obtain ⟨row, hrow, rfl⟩ := List.mem_map.1 (List.mem_of_find?_eq_some hfind)
        rw [mem_newestRows, hrows] at hrow
        rw [normalised_key]
        exact List.mem_map_of_mem (List.mem_append_right _ hrow)
    · rfl
  apply Leads.of_run (t := { t.called with
      entries := fillCache w.maxEntries true t.entries
        ((newestRows t).map (·.normalised w.unicode)) })
  · rw [countEntriesInMemoryGroup, Prog.bind_run_ok hload, Prog.bind_run_ok (Prog.modify_run _ _)]
    rfl
  · refine ⟨?_, hgrown⟩
    exact (List.length_filter_le _ _).trans (size_le_knownKeys hgrown.known)

/-- With room for one more key the caps evict nothing. -/
theorem enforceEntryCaps_grown (h : Unhindered w value s)
    (hvalid : ∀ row ∈ t.rows.values, Valid w.unicode row)
    (hknown : ∀ y ∈ t.entries.values, y.key ∈ s.versions.map (·.key)) (hrows : t.rows = s.rows)
    (group : Option String) (existing : Option MemoryEntry) :
    Leads (enforceEntryCapsBeforeAssign w group existing) t (fun _ u => CacheGrown s t u) := by
  have hsame : CacheGrown s t t := ⟨fun _ _ hy => hy, hknown, rfl⟩
  have hcount := countEntriesInMemoryGroup_grown h.answers hvalid hknown hrows group
  have hgroup : Leads (enforceGroupCap w group existing) t (fun _ u => CacheGrown s t u) := by
    rw [enforceGroupCap]
    cases hcap : w.maxEntriesPerGroup with
    | none => exact .pure hsame
    | some cap =>
      have hroom := h.groupRoom cap hcap
      cases existing with
      | none =>
        apply hcount.bind
        rintro n u ⟨hn, hu⟩
        rw [if_neg (by omega)]
        exact .pure hu
      | some e =>
        dsimp only
        split
        · apply hcount.bind
          rintro n u ⟨hn, hu⟩
          rw [if_neg (by omega)]
          exact .pure hu
        · exact .pure hsame
  apply hgroup.bind
  intro _ u hu
  have hsize := size_le_knownKeys hu.known
  have hroom := h.room
  apply Leads.of_run (t := u)
  · rw [Prog.bind_run_ok (Prog.read_run _ u), if_neg]
    · rfl
    · simp only [Bool.and_eq_true, decide_eq_true_eq, not_and, not_le]
      omega
  · exact hu

/-- The merged row is cached and stored, and what else was cached still is. -/
structure MergeSaved (s t : Store) (x : MemoryEntry) : Prop where
  cached : t.entries.get? x.key = some x
  stored : ∃ row, t.rows.get? x.key = some row ∧ MergedRow x row
  kept : ∀ k y, k ≠ x.key → s.entries.get? k = some y → t.entries.get? k = some y

theorem MergeSaved.idle {u : Store} {x : MemoryEntry} (h : MergeSaved s t x) (hu : Idle 0 t u) :
    MergeSaved s u x where
  cached := by rw [hu.entries, h.cached]
  stored := by rw [hu.rows]; exact h.stored
  kept := by rw [hu.entries]; exact h.kept

theorem persistEntryOrRollback_saved (hw : Answers w) {x : MemoryEntry}
    (hx : columnsAccept x = true) (existing : Option MemoryEntry)
    (hcached : t.entries.get? x.key = some x) :
    Leads (persistEntryOrRollback w x existing) t
      (fun _ u => u.entries = t.entries ∧ u.rows = (storeRow x t).rows) := by
  have hsaved : saveRow w x t = (.ok (), storeRow x t.called) := by
    rw [saveRow_run, accepts, hw, hx]
    rfl
  apply Leads.of_run (t := storeRow x t.called)
  · rw [persistEntryOrRollback, Prog.rollback, Prog.bind_run, Prog.handle_run, hsaved]
    dsimp only
    exact dropIfConcurrentlyRemoved_run w hcached
  · exact ⟨rfl, rfl⟩

theorem postprocessSavedEntry_idle (hw : Answers w) (maybeConsolidate : MemoryEntry → StoreM Unit)
    (x : MemoryEntry) (existing : Option MemoryEntry) :
    Leads (postprocessSavedEntry w maybeConsolidate x existing true) t
      (fun _ u => Idle 0 t u) := by
  apply (appendAudit_idle hw _ _).bind
  intro _ u hu
  apply (persistRelations_idle hw _ _).bind
  intro _ v hv
  apply Leads.of_run (t := v)
  · rw [Prog.bind_run_ok (Prog.read_run _ v)]
    simp only [Bool.not_true, Bool.and_false, Bool.false_and, Bool.false_eq_true, ↓reduceIte]
    rfl
  · exact hu.trans hv

theorem mem_versions_of_lookedUp {c : Config} {key : String} {y : MemoryEntry}
    (h : y ∈ (lookedUp c s key).values) : y.key ∈ s.versions.map (·.key) := by
  rw [lookedUp] at h
  split at h
  · exact List.mem_map_of_mem (List.mem_append_left _ h)
  · next x hx =>
    rcases Table.mem_set h with rfl | h
    · obtain ⟨v, hv, hkey, _⟩ := held_versions hx
      rw [held_key hx, ← hkey]
      exact List.mem_map_of_mem hv
    · exact List.mem_map_of_mem (List.mem_append_left _ h)

theorem lookedUp_kept {c : Config} {key k : String} {y : MemoryEntry}
    (h : s.entries.get? k = some y) (hne : k ≠ key) : (lookedUp c s key).get? k = some y := by
  rw [lookedUp]
  split
  · exact h
  · next x hx =>
    rw [Table.get?_set_ne _ (held_key hx ▸ hne.symm), h]

variable {e : MemoryEntry}

theorem buildAndAssignEntry_merged (h : Unhindered w value s) (hs : Intact w.toConfig s)
    (he : Valid w.unicode e) (hconf : 0 ≤ e.confidence)
    (hgroup : normalizeGroupField e.memoryGroup = .ok e.memoryGroup)
    (hscope : e.scope ≠ .branch ∧ e.scope ≠ .mission) :
    Leads (buildAndAssignEntry w (builtArgs w.toConfig e) (some e.memoryGroup)) s
      (fun r u => MergedRow e r.1 ∧ u.entries.get? r.1.key = some r.1 ∧ u.rows = s.rows ∧
        ∀ k y, k ≠ r.1.key → s.entries.get? k = some y → u.entries.get? k = some y) := by
  obtain ⟨tier, now, t, hentries, hrows, hbuild⟩ := buildEntry_merged (e := e) h hs
  have hexisting : ∀ x, held w.toConfig s e.key = some x → SoundRow x := fun x hx => hs.soundRow hx
  have hvalid : Valid w.unicode (mergedRowDraft w.toConfig e tier (held w.toConfig s e.key) now) :=
    (mergedRowDraft_valid_iff h.lower he hconf hexisting now).2 hscope
  rw [validate_of_valid hvalid] at hbuild
  dsimp only at hbuild
  have hrow : MergedRow e (stampIntegrityHash w.toConfig
      ((mergedRowDraft w.toConfig e tier (held w.toConfig s e.key) now).normalised w.unicode)) :=
    mergedRow_built hgroup hexisting now
  generalize stampIntegrityHash w.toConfig ((mergedRowDraft w.toConfig e tier
    (held w.toConfig s e.key) now).normalised w.unicode) = x at hbuild hrow
  have hknown : ∀ y ∈ t.entries.values, y.key ∈ s.versions.map (·.key) := by
    rw [hentries]
    exact fun y hy => mem_versions_of_lookedUp hy
  have hcaps := enforceEntryCaps_grown h (t := t)
    (fun row hrow => (hs.rows row (hrows ▸ hrow)).1) hknown hrows x.memoryGroup
    (held w.toConfig s e.key)
  rw [buildAndAssignEntry]
  apply (Leads.of_run hbuild
    (R := fun r v => r = (x, held w.toConfig s e.key) ∧ v = t) ⟨rfl, rfl⟩).bind
  rintro r v ⟨rfl, rfl⟩
  apply hcaps.bind
  intro _ u hu
  refine ⟨(x, held w.toConfig s e.key), { u with entries := u.entries.set x }, rfl, hrow,
    Table.get?_set_self _ _, hu.rows.trans hrows, ?_⟩
  intro k y hne hy
  dsimp only at hne ⊢
  rw [Table.get?_set_ne _ hne.symm]
  apply hu.kept
  rw [hentries]
  exact lookedUp_kept hy (hrow.key ▸ hne)

theorem argumentError_merged {c : Config} (h : c.profile = none) :
    argumentError c e.consolidated.saveArgs = none := by
  have hsource : MemorySource.ofText c.unicode e.consolidated.saveArgs.source = some e.source := by
    rw [show e.consolidated.saveArgs.source = e.source.text from rfl]
    cases e.source <;> rfl
  have hscope : MemoryScope.ofText e.consolidated.saveArgs.scope = some e.scope :=
    MemoryScope.ofText_text e.scope
  rw [argumentError, hsource, hscope, profileLimitError, h]
  rfl

theorem Unhindered.checked (h : Unhindered w value s) :
    Unhindered w value { s with checks := s.checks + 1 } :=
  ⟨h.answers, h.exempt, h.unprofiled, h.unruled, h.unjudged, h.safe, h.lower, h.room, h.groupRoom⟩

/-- An unhindered save of a merged entry that is of neither a branch nor a mission stores it. -/
theorem saveMerged_saves (h : Unhindered w e.value s) (hs : Intact w.toConfig s)
    (he : Valid w.unicode e) (hconf : 0 ≤ e.confidence)
    (hgroup : normalizeGroupField e.memoryGroup = .ok e.memoryGroup)
    (hscope : e.scope ≠ .branch ∧ e.scope ≠ .mission) :
    Leads (saveWith w (fun _ => pure ()) e.consolidated.saveArgs) s
      (fun r t => ∃ x, r = .entry x ∧ MergedRow e x ∧ MergeSaved s t x) := by
  rw [saveWith, argumentError_merged h.unprofiled]
  apply (Leads.of_run (prepareSave_merged h hgroup) (R := fun r t =>
    r = .ok (settledMerge w.toConfig e) ∧ t = { s with checks := s.checks + 1 }) ⟨rfl, rfl⟩).bind
  rintro r t ⟨rfl, rfl⟩
  have hbuilt := buildAndAssignEntry_merged h.checked ⟨hs.entries, hs.rows⟩ he hconf hgroup hscope
  have hstored : Leads (storePrepared w (fun _ => pure ())
      (inferredArgs w.toConfig e.consolidated.saveArgs) (settledMerge w.toConfig e))
      { s with checks := s.checks + 1 } (fun x t => MergedRow e x ∧ MergeSaved s t x) := by
    rw [storePrepared]
    apply hbuilt.bind
    rintro ⟨x, existing⟩ t ⟨hrow, hcached, hrows, hkept⟩
    apply (persistEntryOrRollback_saved h.answers hrow.columns existing hcached).bind
    rintro _ u ⟨hentries, hstored⟩
    have hsaved : MergeSaved s u x := by
      constructor
      · rw [hentries, hcached]
      · refine ⟨upserted t.rows x, ?_, mergedRow_upserted hrow.columns t.rows⟩
        rw [hstored]
        exact storeRow_get?_self x t
      · rw [hentries]
        exact hkept
    apply (postprocessSavedEntry_idle h.answers _ x existing).bind
    intro _ v hv
    exact .pure ⟨hrow, hsaved.idle hv⟩
  apply hstored.bind
  rintro x t ⟨hrow, hsaved⟩
  exact .pure ⟨x, rfl, hrow, hsaved⟩

end Room

/-- A group is consolidated and the outcome persisted. -/
def mergeGroup (w : World) (t : MergeTexts) (trigger : String) (threshold : ℚ)
    (sources : List MemoryEntry) : StoreM Unit := do
  let now ← utcNow w
  let e ← Prog.ofExcept (consolidateValidated w.unicode t sources now)
  persistConsolidatedEntry w (planWith trigger threshold sources e)

/-- The merge of the sources is built and stored, or it is refused for the content it would lose and
nothing was written. -/
def MergesOrRefuses (w : World) (t : MergeTexts) (trigger : String) (threshold : ℚ)
    (sources : List MemoryEntry) (s : Store) : Prop :=
  ∃ e, consolidateValidated w.unicode t sources (w.clock s.ticks) = .ok e ∧ Valid w.unicode e ∧
    ((∃ u row, mergeGroup w t trigger threshold sources s = (.ok (), u) ∧
        u.rows.get? e.key = some row ∧ MergedRow e row) ∨
      ∃ u, mergeGroup w t trigger threshold sources s =
          (.error (.runtimeError s!"merge {e.key} would lose content"), u) ∧
        u.entries = s.entries ∧ u.rows = s.rows)

section Group
variable {w : World} {s : Store} {t : MergeTexts} {sources : List MemoryEntry} {e : MemoryEntry}
  {trigger : String} {threshold : ℚ}

theorem mergeGroup_run (trigger : String) (threshold : ℚ)
    (h : consolidateValidated w.unicode t sources (w.clock s.ticks) = .ok e) :
    mergeGroup w t trigger threshold sources s =
      persistConsolidatedEntry w (planWith trigger threshold sources e) s.ticked := by
  rw [mergeGroup, Prog.bind_run_ok (utcNow_run w s), h]
  rfl

/-- The row of a merged entry of a branch is not valid. -/
theorem saveMerged_refused (h : Unhindered w e.value s) (hs : Intact w.toConfig s)
    (he : Valid w.unicode e) (hconf : 0 ≤ e.confidence)
    (hgroup : normalizeGroupField e.memoryGroup = .ok e.memoryGroup) (hscope : e.scope = .branch) :
    ∃ msg u, saveWith w (fun _ => pure ()) e.consolidated.saveArgs s =
      (.error (.validationError msg), u) := by
  obtain ⟨tier, now, u, _, _, hbuild⟩ := buildEntry_merged (e := e) h.checked ⟨hs.entries, hs.rows⟩
  have hexisting : ∀ x, held w.toConfig s e.key = some x → SoundRow x := fun x hx => hs.soundRow hx
  have hinvalid : ¬ Valid w.unicode
      (mergedRowDraft w.toConfig e tier (held w.toConfig s e.key) now) := by
    rw [mergedRowDraft_valid_iff h.lower he hconf hexisting now]
    exact fun hvalid => hvalid.1 hscope
  have hheld : held w.toConfig { s with checks := s.checks + 1 } e.key =
      held w.toConfig s e.key := rfl
  rw [hheld] at hbuild
  cases hv : (mergedRowDraft w.toConfig e tier (held w.toConfig s e.key) now).validate w.unicode with
  | ok x => exact absurd (validate_ok hv).1 hinvalid
  | error msg =>
    rw [hv] at hbuild
    dsimp only at hbuild
    refine ⟨msg, u, ?_⟩
    rw [saveWith, argumentError_merged h.unprofiled]
    dsimp only
    rw [Prog.bind_run_ok (prepareSave_merged h hgroup)]
    dsimp only
    have hassign : buildAndAssignEntry w (builtArgs w.toConfig e) (some e.memoryGroup)
        { s with checks := s.checks + 1 } = (.error (.validationError msg), u) := by
      rw [buildAndAssignEntry, Prog.bind_run_error hbuild]
    apply Prog.bind_run_error
    rw [storePrepared]
    exact Prog.bind_run_error hassign

/-- An unhindered merge that keeps its content is stored, if it is of neither a branch nor a
mission. -/
theorem persistMerged_stores (trigger : String) (threshold : ℚ) (h : Unhindered w e.value s) (hs : Intact w.toConfig s)
    (he : Valid w.unicode e) (hconf : 0 ≤ e.confidence)
    (hgroup : normalizeGroupField e.memoryGroup = .ok e.memoryGroup)
    (hscope : e.scope ≠ .branch ∧ e.scope ≠ .mission) (hkeeps : preservesContent e.value sources)
    (hsources : ∀ x ∈ sources, x ∈ s.entries.values) :
    Leads (persistConsolidatedEntry w (planWith trigger threshold sources e)) s
      (fun _ u => ∃ row, u.rows.get? e.key = some row ∧ MergedRow e row) := by
  have hcolumns : ∀ x ∈ sources, columnsAccept x = true :=
    fun x hx => (hs.entries x (hsources x hx)).2
  have hnot : (!(planWith trigger threshold sources e).keepsContent) = false := by
    rw [Bool.not_eq_false']
    exact hkeeps
  rw [persistConsolidatedEntry, hnot, if_neg Bool.false_ne_true]
  apply (saveMerged_saves h hs he hconf hgroup hscope).bind
  rintro r u ⟨x, rfl, hrow, hsaved⟩
  dsimp only
  have hkey : (planWith trigger threshold sources e).consolidated.key = e.key := rfl
  rw [if_neg (not_not.2 (hrow.key.trans hkey.symm))]
  have hlinking : Linking e sources u := by
    refine ⟨⟨x, ?_, hrow⟩, ?_, ?_⟩
    · rw [← hrow.key, hsaved.cached]
    · obtain ⟨row, hget, hstored⟩ := hsaved.stored
      exact ⟨row, by rw [← hrow.key, hget], hrow.trans hstored⟩
    · intro snap hsnap hne
      have hcached := Table.get?_of_mem (hsources snap hsnap)
      rw [← hrow.key] at hne
      exact ⟨snap, hsaved.kept snap.key snap hne hcached, rfl, hcolumns snap hsnap⟩
  have hlinked := (linkSources_links hkey hcolumns).leads hlinking
    (fun _ _ hrefused => h.answers.unrefused hrefused.2)
  obtain ⟨a, v, hrun, hv⟩ := hlinked
  refine ⟨a, v, ?_, hv.stored⟩
  rw [Prog.rollback, Prog.handle_run, hrun]

theorem Unhindered.ticked {value : String} (h : Unhindered w value s) :
    Unhindered w value s.ticked :=
  ⟨h.answers, h.exempt, h.unprofiled, h.unruled, h.unjudged, h.safe, h.lower, h.room,
    h.groupRoom⟩

end Group

/-- A group of live entries that the one or the other search accepts. -/
def AcceptedGroup (u : Unicode) (m : Merging) (entries sources : List MemoryEntry) : Prop :=
  (∀ e ∈ sources, scanned e = true) ∧
    ((∃ e ∈ entries, ∃ n, shouldConsolidate u m e entries ≠ [] ∧
        sources = e :: (shouldConsolidate u m e entries).take (n + 1)) ∨
      sources ∈ findConsolidationGroups m entries entries [])

def wholeTexts : MergeTexts where
  digest := zeroDigest
  sentences := fun value => [value]
  decayed := fun _ => 1 / 2

def scopedNote (scope : MemoryScope) (key value : String) (stamp : Stamp) : MemoryEntry :=
  { key, value, scope, branch := some "release", createdAt := stamp, updatedAt := stamp
    lastAccessed := stamp }

def scopedPair (scope : MemoryScope) : List MemoryEntry :=
  [scopedNote scope "plan.b" "deploy at noon" 2, scopedNote scope "plan.a" "deploy at dawn" 1]

/-- A store that holds the entries, cached and stored. -/
def Store.holding (entries : List MemoryEntry) : Store :=
  { entries := entries.foldl Table.set ({} : Store).entries
    rows := entries.foldl Table.set ({} : Store).rows }

end TappsBrain
