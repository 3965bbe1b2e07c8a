import TappsBrain.Discipline

namespace TappsBrain
open Lib
set_option autoImplicit true
set_option relaxedAutoImplicit false
-- Unfolding `Keeps` would run the program it speaks of.
attribute [local irreducible] Keeps

theorem mem_lowestConfidence {entries : List MemoryEntry} {e : MemoryEntry}
    (h : lowestConfidence entries = some e) : e ∈ entries := by
  induction entries generalizing e with
  | nil => cases h
  | cons x rest ih =>
    simp only [lowestConfidence] at h
    split at h
    · cases h
      exact List.mem_cons_self
    · next m hm =>
      split at h
      · cases h
        exact List.mem_cons_of_mem _ (ih hm)
      · cases h
        exact List.mem_cons_self

theorem mem_preferGroup {w : World} {group : Option String} {entries : List MemoryEntry}
    {e : MemoryEntry} (h : e ∈ preferGroup w group entries) : e ∈ entries := by
  unfold preferGroup at h
  split at h
  · exact List.mem_of_mem_filter h
  · exact h

theorem conflictsWith_key {c : Config} {value tier key : String} {threshold : ℚ} {e : MemoryEntry}
    (h : conflictsWith c value tier threshold key e = true) : e.key ≠ key := by
  simp only [conflictsWith, Bool.and_eq_true, decide_eq_true_eq] at h
  exact h.1.1.1

theorem validateScopeAndGroup_isError {c : Config} {agentScope : String}
    {memoryGroup : Option (Option String)} {short : ShortCircuit}
    (h : validateScopeAndGroup c agentScope memoryGroup = .error short) : short.isError = true := by
  unfold validateScopeAndGroup at h
  split at h
  · cases h
    rfl
  · dsimp only at h
    split at h
    · cases h
      rfl
    · split at h
      · cases h
      · cases h
      · split at h
        · cases h
          rfl
        · cases h

theorem applySafetyCheck_isError {c : Config} {value : String} {short : ShortCircuit}
    (h : applySafetyCheck c value = .error short) : short.isError = true := by
  unfold applySafetyCheck at h
  dsimp only at h
  split at h
  · cases h
  · cases h
    rfl

@[simp] theorem invalidatedBy_key (now : Stamp) (reason : String) (e : MemoryEntry) :
    (invalidatedBy now reason e).key = e.key := closeWith_key _ _ _ _ _ _

/-- The checks of a save read the rate limit only, and what they answer short is an error. -/
theorem keeps_checkSave {w : World} {I : Store → Prop} (hI : Bookkeeping I) (a : SaveArgs) :
    Keeps I (checkSave w a) (fun r => ∀ short, r = .error short → short.isError = true) := by
  unfold checkSave
  split
  · next short hv =>
    refine Keeps.pure (fun short' h => ?_)
    cases h
    exact validateScopeAndGroup_isError hv
  split
  · exact Keeps.pure (fun short h => Except.error.inj h ▸ rfl)
  refine (keeps_checkRateLimit hI).bind (fun _ _ => ?_)
  split
  · next short hs =>
    refine Keeps.pure (fun short' h => ?_)
    cases h
    exact applySafetyCheck_isError hs
  · exact Keeps.pure (fun short h => nomatch h)

theorem keeps_persistRelations {w : World} {I : Store → Prop} (hI : Bookkeeping I)
    (hR : IgnoresRelations I) (key value : String) : Keeps I (persistRelations w key value) := by
  unfold persistRelations
  dsimp only
  split
  · exact Keeps.pure trivial
  refine Keeps.ask.bind (fun bucket _ => ?_)
  split
  · exact Keeps.pure trivial
  refine (keeps_saveRelationRows hI (fun s hs => hR.durable s _ hs)).bind (fun _ _ => ?_)
  exact (keeps_loadRelationRows hI).bind (fun _ _ => Keeps.modify (fun s hs => hR.cached s _ hs))

/-- The verdict leaves the write as it is. -/
def verdictProceeds (entries : List MemoryEntry) (r : WriteResult) : Bool :=
  match r.decision, namedTarget r.targetKey with
  | .noop, _ => false
  | .delete, some target => !entries.any (fun c => c.key = target)
  | .update, some target => !entries.any (fun c => c.key = target)
  | _, _ => true

/-- The write policy lets the value through under its own key. -/
def policyProceeds (w : World) (key value : String) (entries : List MemoryEntry) : Bool :=
  match w.writePolicy with
  | .deterministic => true
  | .judged decide => verdictProceeds entries (decide key value entries)

theorem applyVerdict_proceeds {w : World} {entries : List MemoryEntry} {r : WriteResult} (key : String)
    (h : verdictProceeds entries r = true) : applyVerdict w key entries r = pure .proceed := by
  rw [verdictProceeds] at h
  rw [applyVerdict]
  cases hd : r.decision with
  | add => rfl
  | noop =>
    rw [hd] at h
    cases h
  | update =>
    cases hn : namedTarget r.targetKey with
    | none => rfl
    | some target =>
      simp only [hd, hn, Bool.not_eq_true'] at h
      simp only [h, Bool.false_eq_true, ↓reduceIte]
  | delete =>
    cases hn : namedTarget r.targetKey with
    | none => rfl
    | some target =>
      simp only [hd, hn, Bool.not_eq_true'] at h
      simp only [h, Bool.false_eq_true, ↓reduceIte]

/-- The write policy may make a save of `key` rewrite `target` instead. -/
def World.redirects (w : World) (key target : String) : Prop :=
  ∃ decide value candidates, w.writePolicy = .judged decide ∧
    (decide key value candidates).decision = .update ∧
    namedTarget (decide key value candidates).targetKey = some target

theorem applyVerdict_redirects {w : World} {key value : String}
    {decide : String → String → List MemoryEntry → WriteResult} (candidates : List MemoryEntry)
    (hp : w.writePolicy = .judged decide) :
    Keeps (fun _ => True) (applyVerdict w key candidates (decide key value candidates))
      (fun r => ∀ target, r = .update target → w.redirects key target) := by
  rw [applyVerdict]
  split
  · apply Keeps.read
    intro s _ target ht
    rw [policyNoop] at ht
    split at ht
    · cases ht
    · cases ht
  · split
    · exact Keeps.constant.bind (fun _ _ => Keeps.pure (fun _ ht => nomatch ht))
    · exact Keeps.pure (fun _ ht => nomatch ht)
  · next target hd hn =>
    split
    · apply Keeps.pure
      intro target' ht
      cases ht
      exact ⟨decide, value, candidates, hp, hd, hn⟩
    · exact Keeps.pure (fun _ ht => nomatch ht)
  · exact Keeps.pure (fun _ ht => nomatch ht)

/-- A save is prepared under its own key or under one its policy named. -/
theorem prepareSave_redirects (w : World) (a : SaveArgs) :
    Keeps (fun _ => True) (prepareSave w a) (fun r => ∀ p, r = .ok p → ∀ target,
      p.effectiveKey = some target → w.redirects a.key target) := by
  have hunder : ∀ value agentScope mgExplicit updateKey,
      (∀ target, updateKey = some target → w.redirects a.key target) →
      Keeps (fun _ => True) (prepareUnder w a value agentScope mgExplicit updateKey)
        (fun r => ∀ p, r = .ok p → ∀ target, p.effectiveKey = some target →
          w.redirects a.key target) := by
    intro value agentScope mgExplicit updateKey hkey
    apply Keeps.constant.bind
    intro r _
    cases r with
    | error short => exact Keeps.pure (fun _ hp => nomatch hp)
    | ok o =>
      apply Keeps.pure
      intro p hp target ht
      cases hp
      exact hkey target ht
  have hpolicy : ∀ value, Keeps (fun _ => True) (applyWritePolicy w a.key value)
      (fun r => ∀ target, r = .update target → w.redirects a.key target) := by
    intro value
    rw [applyWritePolicy]
    split
    · exact Keeps.pure (fun _ ht => nomatch ht)
    · next decide hp =>
      apply Keeps.constant.bind
      intro _ _
      apply Keeps.constant.bind
      intro candidates _
      exact applyVerdict_redirects candidates hp
  apply Keeps.constant.bind
  intro r _
  cases r with
  | error short => exact Keeps.pure (fun _ hp => nomatch hp)
  | ok checked =>
    obtain ⟨value, agentScope, mgExplicit⟩ := checked
    apply (hpolicy value).bind
    intro outcome houtcome
    cases outcome with
    | stop short => exact Keeps.pure (fun _ hp => nomatch hp)
    | proceed => exact hunder value agentScope mgExplicit none (fun _ ht => nomatch ht)
    | update target =>
      apply hunder value agentScope mgExplicit (some target)
      intro target' ht
      cases ht
      exact houtcome target rfl

namespace Discipline
variable {w : World} (d : Discipline w)

section Prepare

theorem invalidateOne {current invalidated : MemoryEntry} (hc : d.writes current)
    (hi : d.writes invalidated) : Keeps d.inv (invalidateOne w current invalidated) := by
  refine (d.setEntry hi).bind (fun _ _ => Keeps.handle ?_ (fun _ => ?_))
  · refine (d.saveRow hi).bind (fun _ _ => ?_)
    refine (d.dropIfConcurrentlyRemoved (d.frees_of_writes _ hi)).bind (fun _ _ => ?_)
    exact Keeps.pure trivial
  · exact (d.restoreIfSame invalidated hc).bind (fun _ _ => Keeps.pure trivial)

/-- A conflicting entry that is still open may be closed. -/
def AllowsInvalidation (key : String) (now : Stamp) : Prop :=
  ∀ e reason, d.sees e → e.key ≠ key → e.invalidAt = none →
    d.writes e ∧ d.writes (invalidatedBy now reason e)

theorem invalidateAll {key : String} {now : Stamp} (h : d.AllowsInvalidation key now)
    (plan : List (String × String)) (hplan : ∀ p ∈ plan, p.1 ≠ key) :
    Keeps d.inv (invalidateAll w now plan) := by
  induction plan with
  | nil => exact Keeps.pure trivial
  | cons p rest ih =>
    have hrest := ih (fun p' hp' => hplan p' (List.mem_cons_of_mem p hp'))
    refine (d.getEntry p.1).bind (fun r hr => ?_)
    cases r with
    | none => exact hrest
    | some current =>
      obtain ⟨hsees, hkey⟩ := hr current rfl
      dsimp only
      split
      · exact hrest
      · next hopen =>
        have hne : current.key ≠ key := hkey ▸ hplan p List.mem_cons_self
        obtain ⟨hc, hi⟩ := h current p.2 hsees hne (by simpa using hopen)
        refine (d.invalidateOne hc hi).bind (fun persisted _ => ?_)
        exact invalidateRest_keeps hrest p.1 persisted

/-- The plan names open conflicting entries of other keys, at a clock reading. -/
theorem planFor (key value tier : String) :
    Keeps d.inv (planFor w key value tier) (fun r => ∀ plan, r = some plan →
      d.reads plan.now ∧ ∀ p ∈ plan.invalidations, p.1 ≠ key) := by
  refine (d.mergeDurableEntries false).bind (fun _ _ => ?_)
  refine d.snapshot.bind (fun entries _ => ?_)
  refine d.utcNow.bind (fun now hnow => Keeps.ofExcept (fun r hr plan hplan => ?_))
  subst hplan
  obtain ⟨hn, hsound⟩ := planConflicts_sound hr
  refine ⟨hn ▸ hnow, fun p hp => ?_⟩
  obtain ⟨e, _, hk, _, hc⟩ := hsound p.1 p.2 hp
  exact hk ▸ conflictsWith_key hc

theorem handleConflicts {key : String} (value tier : String) (conflictCheck : Bool)
    (h : ∀ now, d.reads now → d.AllowsInvalidation key now) :
    Keeps d.inv (handleConflicts w key value tier conflictCheck)
      (fun o => ∀ t, o.validAt = some t → d.reads t) := by
  unfold TappsBrain.handleConflicts
  split
  · exact Keeps.pure (fun t ht => nomatch ht)
  refine (d.planFor key value tier).bind (fun r hr => ?_)
  cases r with
  | none => exact Keeps.pure (fun t ht => nomatch ht)
  | some plan =>
    obtain ⟨hnow, hkeys⟩ := hr plan rfl
    refine (d.invalidateAll (h plan.now hnow) plan.invalidations hkeys).bind (fun r _ => ?_)
    cases r with
    | none => exact Keeps.pure (fun t ht => nomatch ht)
    | some keys =>
      refine (Keeps.forEach keys (fun k _ => d.appendAudit k _)).bind (fun _ _ => Keeps.pure ?_)
      intro t ht
      cases ht
      exact hnow

theorem coalesce {key : String} (h : d.AllowsReinforce key 0) :
    Keeps d.inv (coalesce w key) (fun r => ∀ e, r ≠ some (.found e)) := by
  refine Keeps.handle ?_ (fun e => ?_)
  · exact (d.reinforce h).bind (fun _ _ => Keeps.pure (fun _ he => nomatch he))
  · cases e with
    | keyError _ => exact Keeps.pure (fun _ he => nomatch he)
    | _ => exact Keeps.raise

theorem handleDedup {key : String} (value : String) (dedup : Bool)
    (h : d.AllowsReinforce key 0) :
    Keeps d.inv (handleDedup w key value dedup) (fun r => ∀ e, r ≠ some (.found e)) := by
  unfold TappsBrain.handleDedup
  split
  · exact Keeps.pure (fun _ he => nomatch he)
  refine (d.ensureEntryCached key).forget.bind (fun r _ => ?_)
  cases r with
  | none => exact Keeps.pure (fun _ he => nomatch he)
  | some e =>
    dsimp only
    split
    · exact Keeps.pure (fun _ he => nomatch he)
    · exact d.coalesce h

theorem checkSave (a : SaveArgs) :
    Keeps d.inv (checkSave w a) (fun r => ∀ short, r = .error short → short.isError = true) :=
  keeps_checkSave d.bookkeeping a

/-- An entry the policy answers with is one the store shows. -/
theorem applyWritePolicy (key value : String) (h : ∀ e, d.sees e → d.writes e) :
    Keeps d.inv (applyWritePolicy w key value) (fun r => ∀ e, r = .stop (.found e) → d.sees e) := by
  unfold TappsBrain.applyWritePolicy
  split
  · exact Keeps.pure (fun e he => nomatch he)
  refine (d.mergeDurableEntries false).bind (fun _ _ => ?_)
  refine d.snapshot.forget.bind (fun candidates _ => ?_)
  unfold applyVerdict
  split
  · apply Keeps.read
    intro s hs e he
    rw [policyNoop] at he
    split at he
    · next e' hfound =>
      cases he
      rcases Option.or_eq_some_iff.1 hfound with hget | ⟨_, hget⟩
      · exact d.cached s e hs (Table.mem_of_get? hget)
      · obtain ⟨target, _, hget⟩ := Option.bind_eq_some_iff.1 hget
        exact d.cached s e hs (Table.mem_of_get? hget)
    · cases he
  · split
    · exact (d.delete (fun e he _ => h e he)).bind (fun _ _ => Keeps.pure (fun e he => nomatch he))
    · exact Keeps.pure (fun e he => nomatch he)
  · split
    · exact Keeps.pure (fun e he => nomatch he)
    · exact Keeps.pure (fun e he => nomatch he)
  · exact Keeps.pure (fun e he => nomatch he)

/-- A policy that lets every value through reads the candidates and writes nothing. -/
theorem applyWritePolicy_proceeds
    (hpolicy : ∀ key value entries, policyProceeds w key value entries = true) (key value : String) :
    Keeps d.inv (TappsBrain.applyWritePolicy w key value) (fun r => r = .proceed) := by
  rw [TappsBrain.applyWritePolicy]
  cases hp : w.writePolicy with
  | deterministic => exact Keeps.pure rfl
  | judged decide =>
    apply (d.mergeDurableEntries false).bind
    intro _ _
    apply d.snapshot.forget.bind
    intro candidates _
    have hproceeds : verdictProceeds candidates (decide key value candidates) = true := by
      have hall := hpolicy key value candidates
      rwa [policyProceeds, hp] at hall
    rw [applyVerdict_proceeds key hproceeds]
    exact Keeps.pure rfl

/-- Saving under `key` may reinforce its row and close the rows it conflicts with. -/
structure AllowsPrepare (key : String) : Prop where
  reinforce : d.AllowsReinforce key 0
  invalidate : ∀ now, d.reads now → d.AllowsInvalidation key now

/-- What a preparation may settle: a closing stamp that was read from the clock, or an answer that
names no entry the store does not show. -/
def Settles {α : Type} (conflictStamp : α → Option Stamp) (r : Except ShortCircuit α) : Prop :=
  (∀ o t, r = .ok o → conflictStamp o = some t → d.reads t) ∧ ∀ e, r = .error (.found e) → d.sees e

theorem dedupAndConflicts {key : String} (value tier : String) (dedup conflictCheck : Bool)
    (h : d.AllowsPrepare key) :
    Keeps d.inv (dedupAndConflicts w key value tier dedup conflictCheck)
      (d.Settles ConflictOutcome.validAt) := by
  unfold TappsBrain.dedupAndConflicts
  split
  · refine Keeps.pure ⟨fun o t ho ht => ?_, fun e he => nomatch he⟩
    cases ho
    cases ht
  refine (d.handleDedup value dedup h.reinforce).bind (fun r hr => ?_)
  cases r with
  | some short =>
    refine Keeps.pure ⟨fun o t ho => (nomatch ho), fun e he => ?_⟩
    cases he
    exact absurd rfl (hr e)
  | none =>
    refine (d.handleConflicts value tier conflictCheck h.invalidate).bind (fun o ho => ?_)
    refine Keeps.pure ⟨fun o' t ho' ht => ?_, fun e he => nomatch he⟩
    cases ho'
    exact ho t ht

theorem prepareUnder (a : SaveArgs) (value agentScope : String)
    (mgExplicit : Option (Option String)) (updateKey : Option String)
    (h : d.AllowsPrepare (updateKey.getD a.key)) :
    Keeps d.inv (prepareUnder w a value agentScope mgExplicit updateKey)
      (d.Settles SavePrep.conflictValidAt) := by
  refine (d.dedupAndConflicts value _ a.dedup a.conflictCheck h).bind (fun r hr => ?_)
  rcases r with short | o
  · refine Keeps.pure ⟨fun p t hp => (nomatch hp), fun e he => ?_⟩
    cases he
    exact hr.2 e rfl
  · refine Keeps.pure ⟨fun p t hp ht => ?_, fun e he => nomatch he⟩
    cases hp
    exact hr.1 o t rfl ht

theorem prepareSave (a : SaveArgs) (hall : ∀ e, d.sees e → d.writes e)
    (h : ∀ key, d.AllowsPrepare key) :
    Keeps d.inv (prepareSave w a) (d.Settles SavePrep.conflictValidAt) := by
  refine (d.checkSave a).bind (fun r hr => ?_)
  rcases r with short | ⟨value, agentScope, mgExplicit⟩
  · refine Keeps.pure ⟨fun p t hp => (nomatch hp), fun e he => ?_⟩
    cases he
    cases hr _ rfl
  refine (d.applyWritePolicy a.key value hall).bind (fun outcome ho => ?_)
  cases outcome with
  | stop short =>
    refine Keeps.pure ⟨fun p t hp => (nomatch hp), fun e he => ?_⟩
    cases he
    exact ho e rfl
  | proceed => exact d.prepareUnder a value agentScope mgExplicit none (h _)
  | update target => exact d.prepareUnder a value agentScope mgExplicit (some target) (h _)

end Prepare

section Build
variable (hall : ∀ e, d.sees e → d.writes e)
include hall

theorem evictLowest (candidates : List MemoryEntry) (h : ∀ e ∈ candidates, d.sees e) :
    Keeps d.inv (evictLowest w candidates) := by
  unfold TappsBrain.evictLowest
  cases hl : lowestConfidence candidates with
  | none => exact Keeps.pure trivial
  | some e =>
    have hw := hall e (h e (mem_lowestConfidence hl))
    exact d.evictEntryKey (d.frees_of_writes e hw) (fun e' he' _ => hall e' he')

theorem evictLowestConfidenceInGroup (group : Option String) :
    Keeps d.inv (evictLowestConfidenceInGroup w group) :=
  d.snapshot.bind (fun _ hl =>
    d.evictLowest hall _ (fun e he => hl e (List.mem_of_mem_filter he)))

theorem evictLowestConfidencePreferGroup (group : Option String) :
    Keeps d.inv (evictLowestConfidencePreferGroup w group) :=
  d.snapshot.bind (fun _ hl => d.evictLowest hall _ (fun e he => hl e (mem_preferGroup he)))

theorem enforceGroupCap (group : Option String) (existing : Option MemoryEntry) :
    Keeps d.inv (enforceGroupCap w group existing) := by
  unfold TappsBrain.enforceGroupCap
  split
  · exact Keeps.pure trivial
  split
  · refine (d.countEntriesInMemoryGroup group).bind (fun n _ => ?_)
    split
    · exact d.evictLowestConfidenceInGroup hall group
    · exact Keeps.pure trivial
  · split
    · refine (d.countEntriesInMemoryGroup group).bind (fun n _ => ?_)
      split
      · exact d.evictLowestConfidenceInGroup hall group
      · exact Keeps.pure trivial
    · exact Keeps.pure trivial

theorem enforceEntryCapsBeforeAssign (group : Option String) (existing : Option MemoryEntry) :
    Keeps d.inv (enforceEntryCapsBeforeAssign w group existing) := by
  refine (d.enforceGroupCap hall group existing).bind (fun _ _ => ?_)
  refine Keeps.ask.bind (fun size _ => ?_)
  split
  · exact d.evictLowestConfidencePreferGroup hall group
  · exact Keeps.pure trivial

omit hall in
/-- The row built from these arguments may be written, whatever row is there. -/
def AllowsBuild (a : SaveArgs) : Prop :=
  ∀ existing mg now tierVal e, (∀ b, existing = some b → d.sees b ∧ b.key = a.key) → d.reads now →
    constructMemoryEntry w.toConfig a tierVal mg existing now = .ok e →
      d.writes (stampIntegrityHash w.toConfig e)

omit hall in
theorem buildEntry {a : SaveArgs} (mgExplicit : Option (Option String)) (h : d.AllowsBuild a) :
    Keeps d.inv (buildEntry w a mgExplicit) (fun r =>
      d.writes r.1 ∧ r.1.key = a.key ∧ ∀ b, r.2 = some b → d.sees b ∧ b.key = a.key) := by
  refine (d.ensureEntryCached a.key).bind (fun existing hex => ?_)
  refine (Keeps.ofExcept (Q := fun _ => True) (fun _ _ => trivial)).bind (fun tierVal _ => ?_)
  refine d.utcNow.bind (fun now hnow => ?_)
  refine (Keeps.ofExcept (fun e he => he)).bind (fun e he => Keeps.pure ⟨?_, ?_, hex⟩)
  · exact h existing _ now tierVal e hex hnow he
  · rw [stampIntegrityHash_key]
    exact constructMemoryEntry_key he

omit hall in
/-- The row is built from these arguments, whatever row is there. -/
theorem builds (a : SaveArgs) (mgExplicit : Option (Option String)) :
    Keeps d.inv (TappsBrain.buildEntry w a mgExplicit) (fun r =>
      (∃ existing mg now tierVal e, constructMemoryEntry w.toConfig a tierVal mg existing now = .ok e ∧
        r.1 = stampIntegrityHash w.toConfig e) ∧
      ∀ b, r.2 = some b → d.sees b ∧ b.key = a.key) := by
  refine (d.ensureEntryCached a.key).bind (fun existing hex => ?_)
  refine (Keeps.ofExcept (Q := fun _ => True) (fun _ _ => trivial)).bind (fun tierVal _ => ?_)
  refine d.utcNow.bind (fun now _ => ?_)
  refine (Keeps.ofExcept (fun e he => he)).bind (fun e he => Keeps.pure ⟨?_, hex⟩)
  exact ⟨existing, _, now, tierVal, e, he, rfl⟩

theorem buildAndAssignEntry {a : SaveArgs} (mgExplicit : Option (Option String))
    (h : d.AllowsBuild a) :
    Keeps d.inv (buildAndAssignEntry w a mgExplicit) (fun r =>
      d.writes r.1 ∧ r.1.key = a.key ∧ ∀ b, r.2 = some b → d.writes b ∧ b.key = a.key) := by
  refine (d.buildEntry mgExplicit h).bind (fun r hr => ?_)
  refine (d.enforceEntryCapsBeforeAssign hall r.1.memoryGroup r.2).bind (fun _ _ => ?_)
  refine (d.setEntry hr.1).bind (fun _ _ => Keeps.pure ⟨hr.1, hr.2.1, fun b hb => ?_⟩)
  exact ⟨hall b (hr.2.2 b hb).1, (hr.2.2 b hb).2⟩

omit hall in
theorem persistEntryOrRollback {entry : MemoryEntry} {existing : Option MemoryEntry}
    (he : d.writes entry) (hb : ∀ b, existing = some b → d.writes b) :
    Keeps d.inv (persistEntryOrRollback w entry existing) := by
  have hf := d.frees_of_writes entry he
  refine ((d.saveRow he).rollback (d.restoreSlot entry.key existing hb (fun _ => hf))).bind
    (fun _ _ => d.dropIfConcurrentlyRemoved hf)

omit hall in
theorem persistRelations (key value : String) : Keeps d.inv (persistRelations w key value) :=
  keeps_persistRelations d.bookkeeping d.ignoresRelations key value

omit hall in
theorem postprocessSavedEntry {consolidate : MemoryEntry → StoreM Unit} {entry : MemoryEntry}
    (existing : Option MemoryEntry) (skip : Bool) (h : skip = false → Keeps d.inv (consolidate entry)) :
    Keeps d.inv (postprocessSavedEntry w consolidate entry existing skip) := by
  refine (d.appendAudit entry.key _).bind (fun _ _ => ?_)
  refine (d.persistRelations entry.key entry.value).bind (fun _ _ => ?_)
  refine Keeps.ask.bind (fun inProgress _ => ?_)
  split
  · next hgo =>
    simp only [Bool.and_eq_true, Bool.not_eq_true'] at hgo
    exact h hgo.1.1.2
  · exact Keeps.pure trivial

theorem storePrepared {consolidate : MemoryEntry → StoreM Unit} {a : SaveArgs} {p : SavePrep}
    (h : d.AllowsBuild (preparedArgs a p))
    (hc : ∀ e, a.skipConsolidation = false → d.writes e → Keeps d.inv (consolidate e)) :
    Keeps d.inv (storePrepared w consolidate a p) (fun e => d.writes e) := by
  refine (d.buildAndAssignEntry hall p.mgExplicit h).bind (fun r hr => ?_)
  refine (d.persistEntryOrRollback hr.1 (fun b hb => (hr.2.2 b hb).1)).bind (fun _ _ => ?_)
  refine (d.postprocessSavedEntry r.2 a.skipConsolidation
    (fun hskip => hc r.1 hskip hr.1)).bind (fun _ _ => Keeps.pure hr.1)

omit hall in
theorem answerShort (short : ShortCircuit) (h : ∀ e, short = .found e → d.sees e) :
    Keeps d.inv (answerShort short) (fun r => ∀ e, r = .entry e → d.sees e) := by
  unfold TappsBrain.answerShort
  split
  · next key _ _ _ =>
    refine (d.getEntry key).bind (fun r hr => ?_)
    cases r with
    | some found =>
      refine Keeps.pure (fun e he => ?_)
      cases he
      exact (hr found rfl).1
    | none => exact Keeps.pure (fun e he => nomatch he)
  · next found =>
    refine Keeps.pure (fun e he => ?_)
    cases he
    exact h found rfl
  · exact Keeps.pure (fun e he => nomatch he)

omit hall in
theorem answerShort_keeps (short : ShortCircuit) :
    Keeps d.inv (TappsBrain.answerShort short) := by
  unfold TappsBrain.answerShort
  split
  · next key _ _ _ =>
    apply (d.getEntry key).bind
    intro r _
    cases r with
    | some found => exact Keeps.pure trivial
    | none => exact Keeps.pure trivial
  · exact Keeps.pure trivial
  · exact Keeps.pure trivial

/-- What the preparation of a save hands to the build step. -/
structure Prepared (a : SaveArgs) (p : SavePrep) : Prop where
  stamp : ∀ t, p.conflictValidAt = some t → d.reads t
  target : ∀ target, p.effectiveKey = some target → w.redirects a.key target

/-- A save keeps an invariant when its preparation may write what it writes, and the row built
from what the preparation settled may be written too. -/
theorem saveWith {consolidate : MemoryEntry → StoreM Unit} {a : SaveArgs}
    (hp : ∀ key, d.AllowsPrepare key)
    (hb : ∀ p, d.Prepared a p → d.AllowsBuild (preparedArgs (inferredArgs w.toConfig a) p))
    (hc : ∀ e, a.skipConsolidation = false → d.writes e → Keeps d.inv (consolidate e)) :
    Keeps d.inv (saveWith w consolidate a) (fun r => ∀ e, r = .entry e → d.writes e) := by
  unfold TappsBrain.saveWith
  split
  · exact Keeps.raise
  refine ((d.prepareSave a hall hp).and (prepareSave_redirects w a)).bind (fun r hr => ?_)
  rcases r with short | p
  · exact (d.answerShort short (fun e he => hr.1.2 e (he ▸ rfl))).weaken
      (fun r h e he => hall e (h e he))
  · have hprepared : d.Prepared a p := ⟨fun t ht => hr.1.1 p t rfl ht, hr.2 p rfl⟩
    refine (d.storePrepared hall (hb p hprepared) hc).bind (fun e he => ?_)
    refine Keeps.pure (fun e' he' => ?_)
    cases he'
    exact he

end Build

end Discipline
end TappsBrain
