import TappsBrain.Lib.Run
import TappsBrain.Mirror
import TappsBrain.Transfer

namespace TappsBrain
open Lib
set_option autoImplicit true
set_option relaxedAutoImplicit false

/-- What a copy has in common with the entry it is a copy of. -/
structure SameMemory (e e' : MemoryEntry) : Prop where
  key : e'.key = e.key
  value : e'.value = e.value
  tier : e'.tier = e.tier
  source : e'.source = e.source
  scope : e'.scope = e.scope
  branch : e'.branch = e.branch
  missionId : e'.missionId = e.missionId
  tags : e'.tags = e.tags
  confidence : e'.confidence = e.confidence
  memoryGroup : e'.memoryGroup = e.memoryGroup
  status : e'.status = e.status
  validAt : e'.validAt = e.validAt
  invalidAt : e'.invalidAt = e.invalidAt
  supersededBy : e'.supersededBy = e.supersededBy

/-- The entry holds nothing that the call has no argument for. -/
def carriedByCall (u : Unicode) (e : MemoryEntry) : Bool :=
  e.validate u = .ok e && e.missionId.isNone && e.status = .active && e.validAt.isNone &&
    e.invalidAt.isNone && e.supersededBy.isNone

/-- The gates of the save path pass the entry as it is. -/
def passesGates (w : World) (s : Store) (e : MemoryEntry) : Bool :=
  profileLimitError w.toConfig e.key e.value (some e.tags) = none &&
    validateScopeAndGroup w.toConfig e.agentScope (some e.memoryGroup) =
      .ok (e.agentScope, some e.memoryGroup) &&
    validateWriteRules w.toConfig e.key e.value = none && w.rateAllowed s.checks &&
    applySafetyCheck w.toConfig e.value = .ok e.value &&
    policyProceeds w e.key e.value s.entries.values &&
    resolveTierValue w.toConfig (normalizeSaveTier w.toConfig e.tier.text) = .ok e.tier

/-- No entry conflicts with this one. -/
def conflictFree (c : Config) (s : Store) (e : MemoryEntry) : Bool :=
  let tier := normalizeSaveTier c e.tier.text
  match detectSaveConflicts c e.value tier s.entries.values (resolveSimilarityThreshold c tier)
    e.key with
  | .ok [] => true
  | _ => false

/-- The caps leave room for one more entry of the group. -/
def hasRoom (w : World) (s : Store) (e : MemoryEntry) : Bool :=
  s.entries.size < w.maxEntries &&
    w.maxEntriesPerGroup.all (fun cap => (inGroup e.memoryGroup s.entries.values).length < cap)

/-- What the preparation makes of the call where every gate passes. -/
def preparedImport (c : Config) (e : MemoryEntry) : SavePrep where
  value := e.value
  agentScope := e.agentScope
  tier := normalizeSaveTier c e.tier.text
  sourceAgent := filledSourceAgent c (importedAgent e.sourceAgent)
  mgExplicit := some e.memoryGroup
  conflictValidAt := none
  effectiveKey := none
  invalidatedKeys := []
  invalidatedDetail := []

def filedArgs (c : Config) (e : MemoryEntry) : SaveArgs :=
  preparedArgs (inferredArgs c (importArgs e)) (preparedImport c e)

def importedDraft (c : Config) (now : Stamp) (e : MemoryEntry) : MemoryEntry :=
  draftEntry c (filedArgs c e) e.tier e.source e.scope e.memoryGroup none now false

/-- The row those arguments build in an empty slot. -/
def importedCopy (c : Config) (now : Stamp) (e : MemoryEntry) : MemoryEntry :=
  stampIntegrityHash c (importedDraft c now e)

/-- The similarity search merges the copy with nothing. -/
def mergesNothing (w : World) (s : Store) (e : MemoryEntry) : Bool :=
  !w.consolidation.enabled || w.consolidation.exemptTiers.contains e.tier.text ||
    (w.planMerge (importedCopy w.toConfig (w.clock (s.ticks + 1)) e) s.entries.values).isNone

/-- Nothing stands in the way of a copy of `e`: neither its own fields nor what is there. -/
def carries (w : World) (e : MemoryEntry) (s : Store) : Bool :=
  carriedByCall w.unicode e && passesGates w s e && conflictFree w.toConfig s e && hasRoom w s e &&
    mergesNothing w s e

theorem sameMemory_importedCopy {c : Config} {now : Stamp} {e : MemoryEntry}
    (h : carriedByCall c.unicode e = true) (hconf : resolveConfidence c (filedArgs c e) none =
      e.confidence) : SameMemory e (importedCopy c now e) := by
  simp only [carriedByCall, Bool.and_eq_true, decide_eq_true_eq, Option.isNone_iff_eq_none] at h
  obtain ⟨⟨⟨⟨⟨_, hmission⟩, hstatus⟩, hvalid⟩, hinvalid⟩, hsuper⟩ := h
  exact ⟨rfl, rfl, rfl, rfl, rfl, rfl, hmission.symm, rfl, hconf, rfl, hstatus.symm, hvalid.symm,
    hinvalid.symm, hsuper.symm⟩

section Draft
variable {u : Unicode} {e d : MemoryEntry}

theorem confidence_of_normalised (h : e.normalised u = e) : 0 ≤ e.confidence := by
  by_contra hneg
  have hc : (e.normalised u).confidence = sourceConfidenceDefault e.source := if_pos (not_le.1 hneg)
  rw [h] at hc
  rw [hc] at hneg
  cases hs : e.source <;> rw [hs] at hneg <;> exact hneg (by decide +kernel)

/-- A row is as valid as another whose checked fields it shares, once its own counters and bounds
are those of a new row. -/
theorem valid_of_new (he : Valid u e) (hkey : d.key = e.key) (hvalue : d.value = e.value)
    (htier : d.tier = e.tier) (hconf : d.confidence = e.confidence) (htags : d.tags = e.tags)
    (hscope : d.agentScope = e.agentScope) (hgroup : d.memoryGroup = e.memoryGroup)
    (hreach : scopeError d = scopeError e) (hcounts : d.stability = 0 ∧ d.difficulty = 0 ∧
      d.positiveFeedbackCount = 0 ∧ d.negativeFeedbackCount = 0 ∧ d.failedApproaches = [])
    (hbounds : d.validAt = none ∧ d.validFrom = none ∧ d.validUntil = none) : Valid u d := by
  rw [valid_iff] at he ⊢
  obtain ⟨hst, hdi, hpo, hne, hfa⟩ := hcounts
  obtain ⟨hva, hvf, hvu⟩ := hbounds
  simp only [fieldErrors, modelErrors, List.cons_append, List.nil_append, List.forall_mem_cons,
    hkey, hvalue, htier, hconf, htags, hscope, hgroup, hst, hdi, hpo, hne, hfa, hreach] at he ⊢
  obtain ⟨h1, h2, h3, h4, h5, h6, h7, _, _, _, _, _, h8, h9, _⟩ := he
  refine ⟨h1, h2, h3, h4, h5, h6, h7, rfl, rfl, rfl, rfl, rfl, h8, h9, ?_, ?_, ?_⟩
  · rw [validityError, hva]
    rfl
  · rw [aliasError, hvf, hvu]
    rfl
  · intro _ h
    cases h

theorem normalised_of_shared (h : e.normalised u = e) (htier : d.tier = e.tier)
    (hscope : d.agentScope = e.agentScope) (hgroup : d.memoryGroup = e.memoryGroup)
    (hconf : d.confidence = e.confidence) : d.normalised u = d := by
  have hnonneg : ¬ d.confidence < 0 := by
    rw [hconf]
    exact not_lt.2 (confidence_of_normalised h)
  have ht : canonicalTier u d.tier = d.tier := by
    rw [htier]
    exact congrArg MemoryEntry.tier h
  have hs : (normalizeAgentScope u d.agentScope).toOption.getD d.agentScope = d.agentScope := by
    rw [hscope]
    exact congrArg MemoryEntry.agentScope h
  have hg : (normalizeGroupField d.memoryGroup).toOption.getD d.memoryGroup = d.memoryGroup := by
    rw [hgroup]
    exact congrArg MemoryEntry.memoryGroup h
  rw [MemoryEntry.normalised, ht, hs, hg, if_neg hnonneg]

end Draft

section Step
variable {w : World} {s : Store} {e : MemoryEntry}

theorem memorySource_ofText_text (u : Unicode) (src : MemorySource) :
    MemorySource.ofText u src.text = some src := by
  cases src <;> rfl

theorem memoryScope_ofText_text (scope : MemoryScope) : MemoryScope.ofText scope.text = some scope := by
  cases scope <;> rfl

theorem resolveConfidence_filedArgs {c : Config} (h : 0 ≤ e.confidence) :
    resolveConfidence c (filedArgs c e) none = e.confidence := by
  have hne : e.confidence ≠ -1 := by
    intro hc
    rw [hc] at h
    exact absurd h (by decide +kernel)
  have hargs : (filedArgs c e).confidence = e.confidence := rfl
  simp only [resolveConfidence, hargs, hne, ↓reduceIte]

theorem resolveConfidence_carried {c : Config} (h : carriedByCall c.unicode e = true) :
    resolveConfidence c (filedArgs c e) none = e.confidence := by
  simp only [carriedByCall, Bool.and_eq_true, decide_eq_true_eq] at h
  have hnorm := (validate_ok h.1.1.1.1.1).2
  exact resolveConfidence_filedArgs (confidence_of_normalised hnorm.symm)

theorem valid_importedDraft {c : Config} {now : Stamp} (h : carriedByCall c.unicode e = true) :
    Valid c.unicode (importedDraft c now e) := by
  have hconf := resolveConfidence_carried h
  simp only [carriedByCall, Bool.and_eq_true, decide_eq_true_eq, Option.isNone_iff_eq_none] at h
  obtain ⟨⟨⟨⟨⟨hval, hmission⟩, _⟩, _⟩, _⟩, _⟩ := h
  have hreach : scopeError (importedDraft c now e) = scopeError e := by
    simp only [scopeError, hmission]
    rfl
  exact valid_of_new (validate_ok hval).1 rfl rfl rfl hconf rfl rfl rfl hreach
    ⟨rfl, rfl, rfl, rfl, rfl⟩ ⟨rfl, rfl, rfl⟩

theorem valid_importedCopy {c : Config} (now : Stamp) (h : carriedByCall c.unicode e = true) :
    Valid c.unicode (importedCopy c now e) := by
  have hdraft : Valid c.unicode (importedDraft c now e) := valid_importedDraft h
  exact hdraft

theorem validate_importedDraft {c : Config} {now : Stamp} (h : carriedByCall c.unicode e = true) :
    (importedDraft c now e).validate c.unicode = .ok (importedDraft c now e) := by
  have hconf := resolveConfidence_carried h
  have hvalid : Valid c.unicode (importedDraft c now e) := valid_importedDraft h
  simp only [carriedByCall, Bool.and_eq_true, decide_eq_true_eq] at h
  have hnorm := (validate_ok h.1.1.1.1.1).2
  have hsame : (importedDraft c now e).normalised c.unicode = importedDraft c now e :=
    normalised_of_shared hnorm.symm rfl rfl rfl hconf
  rw [validate_of_valid hvalid, hsame]

/-- An empty slot is filled with the copy. -/
theorem construct_importedDraft {c : Config} {now : Stamp} (h : carriedByCall c.unicode e = true) :
    constructMemoryEntry c (filedArgs c e) e.tier e.memoryGroup none now =
      .ok (importedDraft c now e) := by
  have hsource : MemorySource.ofText c.unicode (filedArgs c e).source = some e.source :=
    memorySource_ofText_text c.unicode e.source
  have hscope : MemoryScope.ofText (filedArgs c e).scope = some e.scope :=
    memoryScope_ofText_text e.scope
  have hrevives : revives (filedArgs c e) none now = .ok false := rfl
  have hbuilt : (draftEntry c (filedArgs c e) e.tier e.source e.scope e.memoryGroup none now
      false).validate c.unicode = .ok (importedDraft c now e) := validate_importedDraft h
  simp only [constructMemoryEntry, hrevives, hsource, hscope, hbuilt]

theorem willFailValidation_of_valid {u : Unicode} (h : Valid u e) :
    willFailValidation e.key e.value = false := by
  rw [valid_iff] at h
  have hkey : keyError u e.key = none :=
    reported_eq_none.1 (h _ (by simp only [fieldErrors, List.cons_append, List.mem_cons, true_or]))
  have hvalue : valueError e.value = none :=
    reported_eq_none.1 (h _ (by simp only [fieldErrors, List.cons_append, List.mem_cons, true_or,
      or_true]))
  rw [keyError] at hkey
  rw [valueError] at hvalue
  split at hkey
  · next hslug =>
    split at hvalue
    · cases hvalue
    · next hlen => simp only [willFailValidation, hslug, Bool.not_true, Bool.false_or, hlen,
        decide_false]
  · cases hkey

theorem argumentError_importArgs (h : passesGates w s e = true) :
    argumentError w.toConfig (importArgs e) = none := by
  simp only [passesGates, Bool.and_eq_true, decide_eq_true_eq] at h
  simp only [argumentError, importArgs, memorySource_ofText_text, memoryScope_ofText_text,
    Option.isNone_some, Bool.false_eq_true, ↓reduceIte, h.1.1.1.1.1.1]

theorem checkSave_importArgs (h : passesGates w s e = true) :
    checkSave w (importArgs e) s =
      (.ok (.ok (e.value, e.agentScope, some e.memoryGroup)), { s with checks := s.checks + 1 }) := by
  simp only [passesGates, Bool.and_eq_true, decide_eq_true_eq] at h
  obtain ⟨⟨⟨⟨⟨⟨_, hscope⟩, hrules⟩, hrate⟩, hsafe⟩, _⟩, _⟩ := h
  have hcheck : checkRateLimit w s = (.ok (), { s with checks := s.checks + 1 }) := by
    rw [checkRateLimit, hrate]
    rfl
  simp only [checkSave, importArgs, hscope, hrules]
  rw [Prog.bind_run_ok hcheck, hsafe]
  rfl

theorem applyWritePolicy_proceeds (hw : Answers w) (hs : Mirror w.toConfig s) {key value : String}
    (h : policyProceeds w key value s.entries.values = true) :
    Leads (applyWritePolicy w key value) s (fun r t => r = .proceed ∧ Idle 0 s t) := by
  rw [policyProceeds] at h
  rw [applyWritePolicy]
  cases hp : w.writePolicy with
  | deterministic => exact .pure ⟨rfl, Idle.refl s⟩
  | judged decide =>
    rw [hp] at h
    apply mergedSnapshot_idle hw hs
    intro t ht
    rw [applyVerdict_proceeds key h]
    exact .pure ⟨rfl, ht⟩

theorem planConflicts_free {c : Config} {now : Stamp} (h : conflictFree c s e = true) :
    planConflicts c e.key e.value (normalizeSaveTier c e.tier.text) s.entries.values
      (resolveSimilarityThreshold c (normalizeSaveTier c e.tier.text)) now = .ok none := by
  simp only [conflictFree] at h
  rw [planConflicts]
  split at h
  · next hd => rw [hd]
  · cases h

theorem handleConflicts_free (hw : Answers w) (hs : Mirror w.toConfig s)
    (h : conflictFree w.toConfig s e = true) :
    Leads (handleConflicts w e.key e.value (normalizeSaveTier w.toConfig e.tier.text) true) s
      (fun r t => r = {} ∧ Idle 1 s t) := by
  have hplan : Leads (planFor w e.key e.value (normalizeSaveTier w.toConfig e.tier.text)) s
      (fun r t => r = none ∧ Idle 1 s t) := by
    apply mergedSnapshot_idle hw hs
    intro t ht
    apply Leads.of_run (t := t.ticked)
    · rw [Prog.bind_run_ok (utcNow_run w t), planConflicts_free h]
      rfl
    · exact ⟨rfl, ht.trans (Idle.ticked t)⟩
  simp only [handleConflicts, Bool.not_true, Bool.false_eq_true, ↓reduceIte]
  apply hplan.bind
  rintro r t ⟨rfl, ht⟩
  exact .pure ⟨rfl, ht⟩

theorem handleDedup_fresh (hw : Answers w) (hs : Mirror w.toConfig s) {key : String} (value : String)
    (hk : s.entries.get? key = none) :
    Leads (handleDedup w key value true) s (fun r t => r = none ∧ Idle 0 s t) := by
  simp only [handleDedup, Bool.not_true, Bool.false_eq_true, ↓reduceIte]
  apply (Leads.of_run (ensureEntryCached_fresh hw hs hk)
    (R := fun r t => r = none ∧ Idle 0 s t) ⟨rfl, Idle.called s⟩).bind
  rintro r t ⟨rfl, ht⟩
  exact .pure ⟨rfl, ht⟩

theorem prepareUnder_importArgs (hw : Answers w) (hs : Mirror w.toConfig s)
    (hval : Valid w.unicode e) (hk : s.entries.get? e.key = none)
    (h : conflictFree w.toConfig s e = true) :
    Leads (prepareUnder w (importArgs e) e.value e.agentScope (some e.memoryGroup) none) s
      (fun r t => r = .ok (preparedImport w.toConfig e) ∧ Idle 1 s t) := by
  have hphases : Leads (dedupAndConflicts w e.key e.value (normalizeSaveTier w.toConfig e.tier.text)
      true true) s (fun r t => r = .ok {} ∧ Idle 1 s t) := by
    rw [dedupAndConflicts, willFailValidation_of_valid hval]
    apply (handleDedup_fresh hw hs e.value hk).bind
    rintro r t ⟨rfl, ht⟩
    have hfree : conflictFree w.toConfig t e = true := by
      rw [conflictFree, ht.entries]
      exact h
    apply (handleConflicts_free hw (hs.idle ht) hfree).bind
    rintro r u ⟨rfl, hu⟩
    exact .pure ⟨rfl, by simpa only [Nat.zero_add] using ht.trans hu⟩
  apply hphases.bind
  rintro r t ⟨rfl, ht⟩
  exact .pure ⟨rfl, ht⟩

/-- The whole preparation reads the clock once and settles the entry's own fields. -/
theorem prepareSave_importArgs (hw : Answers w) (hs : Mirror w.toConfig s)
    (hval : Valid w.unicode e) (hk : s.entries.get? e.key = none) (hg : passesGates w s e = true)
    (h : conflictFree w.toConfig s e = true) :
    Leads (prepareSave w (importArgs e)) s
      (fun r t => r = .ok (preparedImport w.toConfig e) ∧ Idle 1 s t) := by
  have hpolicy : policyProceeds w e.key e.value s.entries.values = true := by
    simp only [passesGates, Bool.and_eq_true] at hg
    exact hg.1.2
  have hchecked : Idle 0 s { s with checks := s.checks + 1 } := ⟨rfl, rfl, rfl, rfl⟩
  apply (Leads.of_run (checkSave_importArgs hg)
    (R := fun r t => r = .ok (e.value, e.agentScope, some e.memoryGroup) ∧ Idle 0 s t)
    ⟨rfl, hchecked⟩).bind
  rintro r t ⟨rfl, ht⟩
  rw [← ht.entries] at hpolicy
  apply (applyWritePolicy_proceeds hw (hs.idle ht) hpolicy).bind
  rintro r u ⟨rfl, hu⟩
  have hu : Idle 0 s u := ht.trans hu
  have hfresh : u.entries.get? e.key = none := by rw [hu.entries, hk]
  have hfree : conflictFree w.toConfig u e = true := by
    rw [conflictFree, hu.entries]
    exact h
  apply (prepareUnder_importArgs hw (hs.idle hu) hval hfresh hfree).mono
  rintro r v ⟨rfl, hv⟩
  exact ⟨rfl, by simpa only [Nat.zero_add] using hu.trans hv⟩

theorem buildEntry_importArgs (hw : Answers w) (hs : Mirror w.toConfig s)
    (hc : carriedByCall w.unicode e = true)
    (ht : resolveTierValue w.toConfig (normalizeSaveTier w.toConfig e.tier.text) = .ok e.tier)
    (hk : s.entries.get? e.key = none) :
    Leads (buildEntry w (filedArgs w.toConfig e) (some e.memoryGroup)) s
      (fun r t => r = (importedCopy w.toConfig (w.clock s.ticks) e, none) ∧ Idle 1 s t) := by
  have htier : resolveTierValue w.toConfig (filedArgs w.toConfig e).tier = .ok e.tier := ht
  apply (Leads.of_run (ensureEntryCached_fresh hw hs hk)
    (R := fun r t => r = none ∧ t = s.called) ⟨rfl, rfl⟩).bind
  rintro r t ⟨rfl, rfl⟩
  apply Leads.of_run (t := s.called.ticked)
  · rw [htier]
    simp only [Prog.ofExcept]
    rw [Prog.bind_run_ok (Prog.pure_run e.tier s.called),
      Prog.bind_run_ok (utcNow_run w s.called)]
    have hbuilt : constructMemoryEntry w.toConfig (filedArgs w.toConfig e) e.tier e.memoryGroup none
        (w.clock s.called.ticks) = .ok (importedDraft w.toConfig (w.clock s.called.ticks) e) :=
      construct_importedDraft hc
    simp only [Option.getD_some, hbuilt]
    rfl
  · exact ⟨rfl, ⟨rfl, rfl, rfl, rfl⟩⟩

/-- With room for one more entry the caps evict nothing. -/
theorem enforceEntryCaps_idle (hw : Answers w) (hs : Mirror w.toConfig s)
    (hr : hasRoom w s e = true) :
    Leads (enforceEntryCapsBeforeAssign w e.memoryGroup none) s (fun _ t => Idle 0 s t) := by
  simp only [hasRoom, Bool.and_eq_true, decide_eq_true_eq] at hr
  obtain ⟨hsize, hcap⟩ := hr
  have hgroup : Leads (enforceGroupCap w e.memoryGroup none) s (fun _ t => Idle 0 s t) := by
    rw [enforceGroupCap]
    cases hm : w.maxEntriesPerGroup with
    | none => exact .pure (Idle.refl s)
    | some cap =>
      rw [hm, Option.all_some, decide_eq_true_eq] at hcap
      apply (countEntriesInMemoryGroup_idle hw hs e.memoryGroup).bind
      rintro n t ⟨ht, rfl⟩
      rw [if_neg (not_le.2 hcap)]
      exact .pure ht
  apply hgroup.bind
  intro _ t ht
  have hroom : t.entries.size < w.maxEntries := by rwa [ht.entries]
  apply Leads.of_run (t := t)
  · rw [Prog.bind_run_ok (Prog.read_run _ t)]
    rw [if_neg (by simpa only [Option.isNone_none, Bool.true_and, decide_eq_true_eq, not_le] using hroom)]
    rfl
  · exact ht

/-- One entry more, in the cache and in the table, and `n` readings of the clock. -/
structure Grown (n : Nat) (e : MemoryEntry) (s t : Store) : Prop where
  entries : t.entries = s.entries.set e
  rows : t.rows = s.rows.set e
  calm : t.consolidationInProgress = s.consolidationInProgress
  ticks : t.ticks = s.ticks + n

theorem Grown.mirror {c : Config} {n : Nat} {t : Store} (h : Grown n e s t) (hs : Mirror c s)
    (he : Valid c.unicode e) : Mirror c t where
  rows := by rw [h.rows, h.entries, hs.rows]
  valid := by
    rw [h.entries]
    intro d hd
    rcases Table.mem_set hd with rfl | hd
    · exact he
    · exact hs.valid d hd

theorem Grown.idle {n m : Nat} {t u : Store} (h : Grown n e s t) (hi : Idle m t u) :
    Grown (n + m) e s u where
  entries := hi.entries.trans h.entries
  rows := hi.rows.trans h.rows
  calm := hi.calm.trans h.calm
  ticks := by rw [hi.ticks, h.ticks, Nat.add_assoc]

theorem Idle.grown {n m : Nat} {t u : Store} (hi : Idle n s t) (h : Grown m e t u) :
    Grown (n + m) e s u where
  entries := by rw [h.entries, hi.entries]
  rows := by rw [h.rows, hi.rows]
  calm := h.calm.trans hi.calm
  ticks := by rw [h.ticks, hi.ticks, Nat.add_assoc]

/-- The assigned entry is written through. -/
theorem persistEntryOrRollback_grown (hw : Answers w) {d : MemoryEntry}
    (hrow : s.rows.get? d.key = none) (hcols : columnsAccept d = true) :
    Leads (persistEntryOrRollback w d none) { s with entries := s.entries.set d }
      (fun _ t => Grown 0 d s t) := by
  have hsaved : saveRow w d { s with entries := s.entries.set d } =
      (.ok (), storeRow d ({ s with entries := s.entries.set d } : Store).called) := by
    rw [saveRow_run, accepts, hw, hcols]
    rfl
  have hup : upserted s.rows d = d := by rw [upserted, hrow]
  apply Leads.of_run (t := storeRow d ({ s with entries := s.entries.set d } : Store).called)
  · rw [persistEntryOrRollback, Prog.rollback]
    rw [Prog.bind_run, Prog.handle_run, hsaved]
    dsimp only
    exact dropIfConcurrentlyRemoved_run w (Table.get?_set_self s.entries d)
  · refine ⟨rfl, ?_, rfl, rfl⟩
    rw [storeRow]
    simp only [Store.called_rows, hup]

/-- The consolidation pass finds nothing to merge the newest entry with. -/
theorem maybeConsolidate_idle (hw : Answers w) (hs : Mirror w.toConfig s) {d : MemoryEntry}
    (hcalm : s.consolidationInProgress = false)
    (hd : w.planMerge d (s.entries.values.filter (fun row => row.key ≠ d.key)) = none) :
    Leads (maybeConsolidate w d) s (fun _ t => Idle 0 s t) := by
  have hbusy : Mirror w.toConfig { s with consolidationInProgress := true } := ⟨hs.rows, hs.valid⟩
  have hcheck : Leads (checkConsolidationOnSave w d) { s with consolidationInProgress := true }
      (fun _ t => Idle 0 { s with consolidationInProgress := true } t) := by
    apply mergedSnapshot_idle hw hbusy
    intro t ht
    rw [hd]
    exact .pure ht
  apply (Leads.of_run (Prog.modify_run _ s)
    (R := fun _ t => t = { s with consolidationInProgress := true }) rfl).bind
  rintro _ t rfl
  apply (Leads.handle hcheck).bind
  intro _ u hu
  exact .of_run rfl ⟨hu.entries, hu.rows, hcalm.symm, hu.ticks⟩

theorem postprocess_idle (hw : Answers w) (hs : Mirror w.toConfig s) {d : MemoryEntry}
    (existing : Option MemoryEntry) (hcalm : s.consolidationInProgress = false)
    (hd : (!w.consolidation.enabled || w.consolidation.exemptTiers.contains d.tier.text ||
      (w.planMerge d (s.entries.values.filter (fun row => row.key ≠ d.key))).isNone) = true) :
    Leads (postprocessSavedEntry w (maybeConsolidate w) d existing false) s
      (fun _ t => Idle 0 s t) := by
  apply (appendAudit_idle hw _ _).bind
  intro _ t ht
  apply (persistRelations_idle hw d.key d.value).bind
  intro _ u hu
  have hu : Idle 0 s u := ht.trans hu
  apply (Leads.of_run (Prog.read_run Store.consolidationInProgress u)
    (R := fun b v => b = false ∧ v = u) ⟨hu.calm.trans hcalm, rfl⟩).bind
  rintro b v ⟨rfl, rfl⟩
  split
  · next hrun =>
    simp only [Bool.and_eq_true, Bool.not_eq_true', Bool.not_false] at hrun
    have hnone : w.planMerge d (v.entries.values.filter (fun row => row.key ≠ d.key)) = none := by
      rw [hu.entries]
      simpa only [hrun.1.1, hrun.2, Bool.not_true, Bool.false_or, Option.isNone_iff_eq_none] using hd
    apply (maybeConsolidate_idle hw (hs.idle hu) (hu.calm.trans hcalm) hnone).mono
    exact fun _ _ h => hu.trans h
  · exact .pure hu

theorem others_of_set {d : MemoryEntry} {entries : Table MemoryEntry.key}
    (h : entries.get? d.key = none) :
    (entries.set d).values.filter (fun row => row.key ≠ d.key) = entries.values := by
  have hne : ∀ row ∈ entries.values, row.key ≠ d.key := by
    intro row hrow hkey
    rw [← hkey, Table.get?_of_mem hrow] at h
    cases h
  rw [Table.values_set_of_fresh h, List.filter_append, List.filter_eq_self.2]
  · simp only [List.filter_cons, ne_eq, not_true_eq_false, decide_false, Bool.false_eq_true,
      ↓reduceIte, List.filter_nil, List.append_nil]
  · exact fun row hrow => decide_eq_true (hne row hrow)

/-- The copy built at `now` is in both tables, and nothing else changed there. -/
theorem storePrepared_grown (hw : Answers w) (hs : Mirror w.toConfig s)
    (hcalm : s.consolidationInProgress = false) (hc : carriedByCall w.unicode e = true)
    (ht : resolveTierValue w.toConfig (normalizeSaveTier w.toConfig e.tier.text) = .ok e.tier)
    (hr : hasRoom w s e = true) (hk : s.entries.get? e.key = none)
    (hm : (!w.consolidation.enabled || w.consolidation.exemptTiers.contains e.tier.text ||
      (w.planMerge (importedCopy w.toConfig (w.clock s.ticks) e) s.entries.values).isNone) = true) :
    Leads (storePrepared w (maybeConsolidate w) (inferredArgs w.toConfig (importArgs e))
      (preparedImport w.toConfig e)) s
      (fun r t => r = importedCopy w.toConfig (w.clock s.ticks) e ∧ Grown 1 r s t) := by
  have hassign : Leads (buildAndAssignEntry w (filedArgs w.toConfig e) (some e.memoryGroup)) s
      (fun r t => r = (importedCopy w.toConfig (w.clock s.ticks) e, none) ∧
        ∃ u, Idle 1 s u ∧ t = { u with entries := u.entries.set r.1 }) := by
    apply (buildEntry_importArgs hw hs hc ht hk).bind
    rintro r t ⟨rfl, ht⟩
    have hroom : hasRoom w t e = true := by
      rw [hasRoom, ht.entries]
      exact hr
    apply (enforceEntryCaps_idle hw (hs.idle ht) hroom).bind
    intro _ u hu
    exact .of_run rfl ⟨rfl, u, ht.trans hu, rfl⟩
  apply hassign.bind
  rintro r t ⟨rfl, u, hu, rfl⟩
  have hrow : u.rows.get? (importedCopy w.toConfig (w.clock s.ticks) e).key = none := by
    rw [hu.rows, hs.rows]
    exact hk
  apply (persistEntryOrRollback_grown hw hrow rfl).bind
  intro _ v hv
  have hgrown : Grown 1 (importedCopy w.toConfig (w.clock s.ticks) e) s v := hu.grown hv
  have hvalid := valid_importedCopy (w.clock s.ticks) hc
  have hmerge := hm
  rw [← others_of_set (d := importedCopy w.toConfig (w.clock s.ticks) e) hk, ← hgrown.entries] at hmerge
  apply (postprocess_idle hw (hgrown.mirror hs hvalid) none (hgrown.calm.trans hcalm) hmerge).bind
  intro _ x hx
  exact .pure ⟨rfl, hgrown.idle hx⟩

/-- One turn of the import leaves a copy, and nothing else in the tables. -/
theorem importOne_carries (hw : Answers w) (hs : Mirror w.toConfig s)
    (hcalm : s.consolidationInProgress = false) (hk : s.entries.get? e.key = none)
    (h : carries w e s = true) :
    Leads (importOne w false e) s (fun r t => r = .imported ∧ ∃ n e', SameMemory e e' ∧
      Valid w.unicode e' ∧ Grown n e' s t) := by
  simp only [carries, Bool.and_eq_true] at h
  obtain ⟨⟨⟨⟨hc, hg⟩, hfree⟩, hroom⟩, hm⟩ := h
  have hval : e.validate w.unicode = .ok e := by
    simp only [carriedByCall, Bool.and_eq_true, decide_eq_true_eq] at hc
    exact hc.1.1.1.1.1
  have htier : resolveTierValue w.toConfig (normalizeSaveTier w.toConfig e.tier.text) = .ok e.tier := by
    simp only [passesGates, Bool.and_eq_true, decide_eq_true_eq] at hg
    exact hg.2
  rw [importOne, hval]
  dsimp only
  apply (Leads.of_run (ensureEntryCached_fresh hw hs hk)
    (R := fun r t => r = none ∧ t = s.called) ⟨rfl, rfl⟩).bind
  rintro r t ⟨rfl, rfl⟩
  have hidle : Idle 0 s s.called := Idle.called s
  have hprep := prepareSave_importArgs hw (hs.idle hidle) (validate_ok hval).1 hk hg hfree
  have hsave : Leads (save w (importArgs e)) s.called (fun r t =>
      ∃ n e', r = .entry e' ∧ SameMemory e e' ∧ Valid w.unicode e' ∧ Grown n e' s t) := by
    rw [save, saveWith, argumentError_importArgs hg]
    apply hprep.bind
    rintro r t ⟨rfl, ht⟩
    have ht : Idle 1 s t := by simpa only [Nat.zero_add] using hidle.trans ht
    have hroom : hasRoom w t e = true := by
      rw [hasRoom, ht.entries]
      exact hroom
    have hfresh : t.entries.get? e.key = none := by rw [ht.entries, hk]
    have hmerge := hm
    rw [mergesNothing, ← ht.ticks, ← ht.entries] at hmerge
    have hstored := storePrepared_grown hw (hs.idle ht) (ht.calm.trans hcalm) hc htier hroom hfresh
      hmerge
    apply hstored.bind
    rintro d u ⟨rfl, hu⟩
    exact .pure ⟨_, _, rfl, sameMemory_importedCopy hc (resolveConfidence_carried hc),
      valid_importedCopy _ hc, ht.grown hu⟩
  apply hsave.bind
  rintro r t ⟨n, e', rfl, hsame, hv, hgrown⟩
  exact .pure ⟨rfl, n, e', hsame, hv, hgrown⟩

end Step

/-- One turn of the import as a step. -/
def importStep (w : World) (e : MemoryEntry) (s : Store) : Store := (importOne w false e).final s

theorem keys_of_copies {l m : List MemoryEntry} (h : List.Forall₂ SameMemory l m) :
    m.map (·.key) = l.map (·.key) := by
  induction h with
  | nil => rfl
  | cons hsame _ ih => rw [List.map_cons, List.map_cons, ih, hsame.key]

/-- The import of the rest, from a store that already holds the copies of `done`. -/
theorem importEach_carries {w : World} (hw : Answers w) {done rest : List MemoryEntry}
    {s : Store} (counts : ImportCounts) (hs : Mirror w.toConfig s)
    (hcalm : s.consolidationInProgress = false)
    (hdone : List.Forall₂ SameMemory done s.entries.values)
    (hkeys : ((done ++ rest).map (·.key)).Nodup)
    (h : Allowed (importStep w) (carries w) rest s) :
    Leads (importEach w false rest counts) s (fun r t =>
      r = { counts with imported := counts.imported + rest.length } ∧
        t.rows = t.entries ∧ List.Forall₂ SameMemory (done ++ rest) t.entries.values) := by
  induction rest generalizing done s counts with
  | nil => exact .pure ⟨rfl, hs.rows, by rwa [List.append_nil]⟩
  | cons e rest ih =>
    have hk : s.entries.get? e.key = none := by
      rw [Table.get?, List.find?_eq_none]
      intro d hd hkey
      have hmem : e.key ∈ done.map (·.key) := by
        rw [← keys_of_copies hdone, ← of_decide_eq_true hkey]
        exact List.mem_map_of_mem hd
      rw [List.map_append, List.nodup_append] at hkeys
      exact hkeys.2.2 _ hmem _ (List.mem_map_of_mem List.mem_cons_self) rfl
    obtain ⟨hc, hrest⟩ := h
    obtain ⟨r, t, hr, rfl, n, e', hsame, hv, hgrown⟩ := importOne_carries hw hs hcalm hk hc
    have ht : importStep w e s = t := by rw [importStep, Prog.final, hr]
    rw [ht] at hrest
    have hvals : t.entries.values = s.entries.values ++ [e'] := by
      rw [hgrown.entries, Table.values_set_of_fresh (by rw [hsame.key, hk])]
    have hdone' : List.Forall₂ SameMemory (done ++ [e]) t.entries.values := by
      rw [hvals]
      exact List.rel_append hdone (.cons hsame .nil)
    have hkeys' : ((done ++ [e] ++ rest).map (·.key)).Nodup := by
      rwa [List.append_assoc, List.singleton_append]
    obtain ⟨r, u, hu, rfl, hrows, hcopies⟩ := ih (counts.add .imported) (hgrown.mirror hs hv)
      (hgrown.calm.trans hcalm) hdone' hkeys' hrest
    apply Leads.of_run
    · rw [importEach, Prog.bind_run_ok hr, hu]
    · rw [List.append_assoc, List.singleton_append] at hcopies
      refine ⟨?_, hrows, hcopies⟩
      simp only [ImportCounts.add, List.length_cons, Nat.add_assoc, Nat.add_comm 1]

theorem restoreRelation_idle {w : World} (hw : Answers w) {s : Store} (rel : RelationEntry) :
    Leads (restoreRelation w rel) s (fun _ t => Idle 0 s t) := by
  rw [restoreRelation]
  split
  · exact .pure (Idle.refl s)
  · split
    · exact .pure (Idle.refl s)
    · apply Leads.handle
      apply (saveRelations_idle hw _ _).bind
      intro _ t ht
      exact .pure ht

theorem restoreRelations_idle {w : World} (hw : Answers w) {s : Store} (rels : List RelationEntry) :
    Leads (restoreRelations w rels) s (fun _ t => Idle 0 s t) := by
  induction rels generalizing s with
  | nil => exact .pure (Idle.refl s)
  | cons rel rest ih =>
    apply (restoreRelation_idle hw rel).bind
    intro here t ht
    apply ih.bind
    intro later u hu
    exact .pure (ht.trans hu)

/-- What is exported has one entry for each key. -/
theorem exportBundleDict_keys {w : World} {s t : Store} {bundle : ExportBundle}
    (h : exportBundleDict w s = (.ok bundle, t)) : (bundle.memories.map (·.key)).Nodup := by
  obtain ⟨_, u, _, h⟩ := Prog.bind_ok h
  obtain ⟨memories, v, hmem, h⟩ := Prog.bind_ok h
  obtain ⟨rels, x, _, h⟩ := Prog.bind_ok h
  cases h
  cases hmem
  exact u.entries.nodup

/-- Where every entry carries over when its turn comes, the import returns, counts every entry as
imported, and leaves copies of the exported entries, in their order, and nothing besides. -/
theorem import_faithful {source w : World} {s s' : Store} {bundle : ExportBundle}
    (hexp : exportBundleDict source s = (.ok bundle, s')) (hw : ∀ n, w.refuses n = false)
    (h : Allowed (importStep w) (carries w) bundle.memories {}) :
    ∃ r t, importMemoryDicts w bundle false {} = (.ok r, t) ∧
      r.counts = { imported := bundle.memories.length, skipped := 0, errors := 0 } ∧
      t.rows = t.entries ∧ List.Forall₂ SameMemory bundle.memories t.entries.values := by
  have hempty : Mirror w.toConfig {} := ⟨rfl, fun _ h => nomatch h⟩
  have hkeys := exportBundleDict_keys hexp
  have hloop := importEach_carries hw {} hempty rfl .nil hkeys h
  have hrun : Leads (importMemoryDicts w bundle false) {} (fun r t =>
      r.counts = { imported := bundle.memories.length, skipped := 0, errors := 0 } ∧
      t.rows = t.entries ∧ List.Forall₂ SameMemory bundle.memories t.entries.values) := by
    apply hloop.bind
    rintro counts t ⟨rfl, hrows, hcopies⟩
    apply (restoreRelations_idle hw bundle.relations).bind
    intro n u hu
    apply Leads.pure
    rw [hu.rows, hu.entries]
    refine ⟨?_, hrows, hcopies⟩
    simp only [Nat.zero_add]
  exact hrun

/-- The store after these saves, in an environment that answers. -/
def savedStore (calls : List SaveArgs) : Store :=
  (Prog.forEach (fun a => do let _ ← save Config.plain.calm a) calls).final {}

def planAndPort : Store :=
  savedStore [{ key := "plan", value := "ship it" },
    { key := "port", value := "5432", tags := some ["db"], memoryGroup := some (some "ops") }]

/-- Two rows that have nothing in common. -/
theorem import_faithful_planAndPort :
    ∃ r t, importMemoryDicts Config.plain.calm ⟨planAndPort.entries.values, []⟩ false {} =
        (.ok r, t) ∧ r.counts = { imported := planAndPort.entries.values.length } ∧
      t.rows = t.entries ∧ List.Forall₂ SameMemory planAndPort.entries.values t.entries.values := by
  have hexp : exportBundleDict Config.plain.calm planAndPort =
      (.ok ⟨planAndPort.entries.values, []⟩, (exportBundleDict Config.plain.calm planAndPort).2) := by
    decide +kernel
  exact import_faithful hexp (fun _ => rfl) (by decide +kernel)

/-- What an import of the exported rows of a store leaves, or raises. -/
def reimported (s : Store) : Except Raised (List MemoryEntry) :=
  match exportBundleDict Config.plain.calm s with
  | (.error err, _) => .error err
  | (.ok bundle, _) =>
    match importMemoryDicts Config.plain.calm bundle false {} with
    | (.error err, _) => .error err
    | (.ok _, t) => .ok t.entries.values

/-- A row of mission scope makes the import raise, and a closed row is open in the copy. -/
theorem reimport_unfaithful :
    let mission := savedStore
      [{ key := "plan", value := "ship it", scope := "mission", missionId := some "m1" }]
    let closed :=
      (closeValidity Config.plain.calm "plan" "supersession" (some "plan.v2") none).final
        (savedStore [{ key := "plan", value := "ship it" }])
    reimported mission = .error (.validationError
        "Value error, mission_id is required when scope is 'mission'.") ∧
      (closed.entries.values.map (·.status) = [.superseded] ∧
        (reimported closed).map (fun l => l.map (fun e => (e.status, e.invalidAt, e.supersededBy))) =
          .ok [(.active, none, none)]) := by
  decide +kernel

end TappsBrain
