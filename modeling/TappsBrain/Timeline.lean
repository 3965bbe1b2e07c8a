import TappsBrain.ConflictUndo
import TappsBrain.Integrity

namespace TappsBrain
open Lib
set_option autoImplicit true
set_option relaxedAutoImplicit false
-- Unfolding `Keeps` would run the program it speaks of.
attribute [local irreducible] Keeps

/-- An active entry has no end of its validity. -/
def MemoryEntry.Timely (e : MemoryEntry) : Prop := e.status = .active → e.invalidAt = none

/-- `_live_but_closed`, of one entry: it has the status of a live one past the end of its
validity. -/
def MemoryEntry.liveButClosed (now : Stamp) (e : MemoryEntry) : Bool :=
  e.status = .active && !stillOpen now e.invalidAt

/-- The status that a save asks for is that of a live entry. -/
def asksActive (status : Option String) : Bool :=
  !isEmpty status && resolveStatus status none = .active

/-- The patch leaves status and end of validity alone, closes the entry, or reopens it. -/
def FieldPatch.KeepsTime (patch : FieldPatch) : Prop :=
  ∀ e, (patch.set e).status = e.status ∧ (patch.set e).invalidAt = e.invalidAt ∨
    (patch.set e).status ≠ .active ∨ (patch.set e).invalidAt = none

namespace MemoryEntry.Timely
variable {e e' : MemoryEntry}

theorem of_eq (h : e.Timely) (hstatus : e'.status = e.status) (hinvalid : e'.invalidAt = e.invalidAt) :
    e'.Timely := by
  intro hactive
  rw [hinvalid]
  exact h (hstatus.symm.trans hactive)

theorem of_life (h : e.Timely) (hlife : e'.life = e.life) : e'.Timely := by
  simp only [MemoryEntry.life, Prod.mk.injEq] at hlife
  obtain ⟨-, -, hinvalid, hstatus, -⟩ := hlife
  exact h.of_eq hstatus hinvalid

theorem of_closed (h : e.status ≠ .active) : e.Timely := fun hactive => absurd hactive h

theorem of_open (h : e.invalidAt = none) : e.Timely := fun _ => h

theorem not_liveButClosed (h : e.Timely) (now : Stamp) : e.liveButClosed now = false := by
  rw [MemoryEntry.liveButClosed]
  by_cases hactive : e.status = .active
  · have hopen : stillOpen now e.invalidAt = true := by
      rw [h hactive]
      rfl
    rw [hopen, Bool.not_true, Bool.and_false]
  · rw [decide_eq_false hactive, Bool.false_and]

theorem hydrated {c : Config} {row : MemoryEntry} (he : rowToEntry c row = .ok e) (h : row.Timely) :
    e.Timely := by
  rw [(rowToEntry_ok he).2]
  exact h.of_eq rfl rfl

theorem closed {reason : String} {status : MemoryStatus} {now : Stamp} {succ detail : Option String}
    (h : status ≠ .active) : (closeWith reason status now succ detail e).Timely := by
  apply of_closed
  rwa [closeWith_status]

theorem patched {patch : FieldPatch} {now : Stamp} (hpatch : patch.KeepsTime) (h : e.Timely) :
    (patch.apply now e).Timely := by
  rcases hpatch e with ⟨hstatus, hinvalid⟩ | hclosed | hopen
  · exact h.of_eq hstatus hinvalid
  · exact of_closed hclosed
  · exact of_open hopen

/-- A save that asks for no active row builds a timely one over a timely one. -/
theorem built {c : Config} {a : SaveArgs} {tierVal : Tier} {mg : Option String}
    {existing : Option MemoryEntry} {now : Stamp} (hasks : asksActive a.status = false)
    (hex : ∀ b, existing = some b → b.Timely)
    (he : constructMemoryEntry c a tierVal mg existing now = .ok e) : e.Timely := by
  obtain ⟨revived, source, scope, -, -, rfl⟩ := constructMemoryEntry_ok he
  cases revived with
  | true => exact of_open rfl
  | false =>
    intro hactive
    have hstatus : resolveStatus a.status existing = .active := hactive
    cases hempty : isEmpty a.status with
    | false =>
      have hasked : resolveStatus a.status none = resolveStatus a.status existing := by
        simp only [resolveStatus, hempty, Bool.false_eq_true, ↓reduceIte]
      rw [asksActive, hempty, hasked, hstatus] at hasks
      exact absurd hasks (by decide)
    | true =>
      cases existing with
      | none => rfl
      | some b =>
        have hkept : b.status = .active := by
          rwa [resolveStatus, hempty] at hstatus
        exact hex b rfl hkept

end MemoryEntry.Timely

/-- No reason closes an entry to the status of a live one. -/
theorem closeValidityStatus_closes {reason : String} {status : MemoryStatus}
    (h : closeValidityStatus reason = some status) : status ≠ .active := by
  rw [closeValidityStatus] at h
  rintro rfl
  split_ifs at h <;> cases h

/-- The calls that write rows of the table, and the raw update of columns. -/
inductive TimelineCall where
  | write (call : WriteCall)
  | updateFields (key : String) (patch : FieldPatch)

/-- The store a call leaves, whether it returns or raises. -/
def TimelineCall.step (w : World) : TimelineCall → Store → Store
  | .write call => call.step w
  | .updateFields key patch => (TappsBrain.updateFields w key patch).final

/-- Nothing that the store holds under `key` has an end of its validity. -/
def Store.opens (s : Store) (key : String) : Prop := AllAt key (fun e => e.invalidAt = none) s

/-- A save asks for the status of a live entry over open ones only, no conflict is undone but dry,
and no columns are updated to a live and closed entry. -/
def TimelineCall.KeepsTime (w : World) : TimelineCall → Store → Prop
  | .write (.save a), s => asksActive a.status = true →
    s.opens a.key ∧ ∀ target, w.redirects a.key target → s.opens target
  | .write (.saveMany items), _ => ∀ a ∈ items, asksActive a.status = false
  | .write (.supersede _ _ kw), _ => asksActive kw.status = false
  | .write (.undoSaveConflict _ dryRun), _ => dryRun = true
  | .updateFields _ patch, _ => patch.KeepsTime
  | .write _, _ => True

/-- Whatever the cache or the table holds under `key` is timely. -/
def timing (w : World) (key : String) : Discipline w :=
  AllAt.kept w key (φ := MemoryEntry.Timely) (fun _ _ he h => h.hydrated he)
    (fun rows e h => h.of_life (upserted_life rows e))

section Timing
variable {w : World} {key : String}

theorem timing_rewrites {e e' : MemoryEntry} (h : (timing w key).sees e) (hk : e'.key = e.key)
    (hlife : e'.life = e.life) : (timing w key).writes e ∧ (timing w key).writes e' :=
  ⟨h, fun hkey => (h (hk.symm.trans hkey)).of_life hlife⟩

theorem timing_closes (reason : String) {status : MemoryStatus} (now : Stamp)
    (succ detail : Option String) (e : MemoryEntry) (h : status ≠ .active) :
    (timing w key).writes (closeWith reason status now succ detail e) :=
  fun _ => MemoryEntry.Timely.closed h

theorem timing_reinforce (k : String) (boost : ℚ) : (timing w key).AllowsReinforce k boost := by
  constructor
  · intro e now hsees _ _
    exact timing_rewrites hsees (reinforced_key _ _ _ _) (reinforced_life _ _ _ _)
  · intro e at₁ at₂ at₃ target hsees _ _ _ _
    obtain ⟨_, hreinforced⟩ := timing_rewrites hsees (reinforced_key w.toConfig boost at₁ e)
      (reinforced_life w.toConfig boost at₁ e)
    exact (timing_rewrites hreinforced (promoted_key _ _ _ _) (promoted_life _ _ _ _)).2

theorem timing_prepare (k : String) : (timing w key).AllowsPrepare k := by
  constructor
  · exact timing_reinforce k 0
  · intro now _ e reason hsees _ _
    exact ⟨hsees, timing_closes _ _ _ _ _ (by decide)⟩

theorem timing_build {a : SaveArgs} (h : asksActive a.status = false) :
    (timing w key).AllowsBuild a := by
  intro existing mg now tierVal e hex _ he hk
  have hkey : e.key = a.key := constructMemoryEntry_key he
  have htimely : e.Timely := by
    apply MemoryEntry.Timely.built h _ he
    intro b hb
    obtain ⟨hsees, hbkey⟩ := hex b hb
    exact hsees (hbkey.trans (hkey.symm.trans hk))
  exact htimely.of_eq rfl rfl

theorem timing_reopens (k : String) (updatedAt : Option Stamp) :
    (timing w key).Allows k (reopenPatch updatedAt).apply :=
  fun _ _ hsees _ _ => ⟨hsees, fun _ => MemoryEntry.Timely.of_open rfl⟩

theorem timing_merge (plan : MergePlan) : (timing w key).AllowsMergedRow plan where
  merge := {
    promoted := fun _ _ _ hsees _ _ => timing_rewrites hsees rfl rfl
    closed := fun _ _ _ _ _ hsees _ _ => ⟨hsees, timing_closes _ _ _ _ _ (by decide)⟩
    reopened := fun k => timing_reopens k none }
  prepare := timing_prepare
  build := fun _ _ => timing_build rfl

/-- A build under another key may write whatever it builds. -/
theorem timing_build_other {a : SaveArgs} (h : a.key ≠ key) : (timing w key).AllowsBuild a := by
  intro existing mg now tierVal e _ _ he hk
  have hkey : e.key = a.key := constructMemoryEntry_key he
  exact absurd (hkey.symm.trans hk) h

theorem timely_of_opens {s : Store} (h : s.opens key) : (timing w key).inv s := by
  obtain ⟨hentries, hrows⟩ := h
  constructor
  · exact fun e he hk => MemoryEntry.Timely.of_open (hentries e he hk)
  · exact fun e he hk => MemoryEntry.Timely.of_open (hrows e he hk)

/-- Preparing a save of `key` closes other keys only. -/
theorem opening_prepare : (shutAt w key none).AllowsPrepare key := by
  have hkept : ∀ e e' : MemoryEntry, e'.key = e.key → e'.life = e.life →
      (shutAt w key none).writes e → (shutAt w key none).writes e' := by
    intro e e' hk hlife he hkey
    simp only [MemoryEntry.life, Prod.mk.injEq] at hlife
    obtain ⟨-, -, hinvalid, -⟩ := hlife
    exact hinvalid.trans (he (hk.symm.trans hkey))
  constructor
  · constructor
    · intro e now hsees _ _
      exact ⟨hsees, hkept _ _ (reinforced_key _ _ _ _) (reinforced_life _ _ _ _) hsees⟩
    · intro e at₁ at₂ at₃ target hsees _ _ _ _
      apply hkept _ _ (promoted_key _ _ _ _) (promoted_life _ _ _ _)
      exact hkept _ _ (reinforced_key _ _ _ _) (reinforced_life _ _ _ _) hsees
  · intro now _ e reason _ hne _
    have hother : (invalidatedBy now reason e).key ≠ key := (invalidatedBy_key _ _ _).symm ▸ hne
    exact ⟨fun hk => absurd hk hne, fun hk => absurd hk hother⟩

theorem opening_build (a : SaveArgs) : (shutAt w key none).AllowsBuild a := by
  intro existing mg now tierVal e hex _ he hk
  have hkey : e.key = a.key := constructMemoryEntry_key he
  obtain ⟨revived, source, scope, -, -, rfl⟩ := constructMemoryEntry_ok he
  cases revived with
  | true => rfl
  | false =>
    cases existing with
    | none => rfl
    | some b =>
      obtain ⟨hsees, hbkey⟩ := hex b rfl
      exact hsees (hbkey.trans (hkey.symm.trans hk))

/-- A preparation that settles on `key` leaves it open. -/
theorem opening_prepareUnder (a : SaveArgs) (value agentScope : String)
    (mgExplicit : Option (Option String)) (updateKey : Option String) :
    Triple (fun s => s.opens key) (prepareUnder w a value agentScope mgExplicit updateKey)
      (fun r t => (timing w key).inv t ∧
        ∀ p, r = .ok p → p.effectiveKey.getD a.key = key → t.opens key)
      (fun _ => (timing w key).inv) := by
  by_cases hk : updateKey.getD a.key = key
  · apply ((shutAt w key none).dedupAndConflicts value _ a.dedup a.conflictCheck
      (hk ▸ opening_prepare)).then (fun _ _ hs => timely_of_opens hs)
    intro r _
    cases r with
    | error short => exact Triple.pure (fun _ hs => ⟨timely_of_opens hs, fun _ hp => nomatch hp⟩)
    | ok o => exact Triple.pure (fun _ hs => ⟨timely_of_opens hs, fun _ _ _ => hs⟩)
  · have hkeeps := (timing w key).dedupAndConflicts value (normalizeSaveTier w.toConfig a.tier)
      a.dedup a.conflictCheck (timing_prepare (updateKey.getD a.key))
    have htimely : Triple (timing w key).inv
        (prepareUnder w a value agentScope mgExplicit updateKey)
        (fun r t => (timing w key).inv t ∧
          ∀ p, r = .ok p → p.effectiveKey.getD a.key = key → t.opens key)
        (fun _ => (timing w key).inv) := by
      apply hkeeps.then (fun _ _ hs => hs)
      intro r _
      cases r with
      | error short => exact Triple.pure (fun _ hs => ⟨hs, fun _ hp => nomatch hp⟩)
      | ok o =>
        apply Triple.pure
        intro t hs
        apply And.intro hs
        intro p hp hkey
        cases hp
        exact absurd hkey hk
    exact htimely.mono (fun _ => timely_of_opens) (fun _ _ h => h) (fun _ _ h => h)

theorem opening_prepareSave (a : SaveArgs) :
    Triple (fun s => s.opens key) (prepareSave w a)
      (fun r t => (timing w key).inv t ∧
        ∀ p, r = .ok p → p.effectiveKey.getD a.key = key → t.opens key)
      (fun _ => (timing w key).inv) := by
  apply ((shutAt w key none).checkSave a).then (fun _ _ hs => timely_of_opens hs)
  intro r _
  cases r with
  | error short => exact Triple.pure (fun _ hs => ⟨timely_of_opens hs, fun _ hp => nomatch hp⟩)
  | ok checked =>
    obtain ⟨value, agentScope, mgExplicit⟩ := checked
    apply ((shutAt w key none).applyWritePolicy a.key value (fun _ he => he)).then
      (fun _ _ hs => timely_of_opens hs)
    intro outcome _
    cases outcome with
    | stop short => exact Triple.pure (fun _ hs => ⟨timely_of_opens hs, fun _ hp => nomatch hp⟩)
    | proceed => exact opening_prepareUnder a value agentScope mgExplicit none
    | update target => exact opening_prepareUnder a value agentScope mgExplicit (some target)

/-- The row that is built over open ones is open, and the merge that may follow is timely. -/
theorem opening_storePrepared {consolidate : MemoryEntry → StoreM Unit} (a : SaveArgs) (p : SavePrep)
    (hc : ∀ e, Keeps (timing w key).inv (consolidate e)) :
    Triple (fun s => (timing w key).inv s ∧ (p.effectiveKey.getD a.key = key → s.opens key))
      (storePrepared w consolidate a p) (fun _ => (timing w key).inv)
      (fun _ => (timing w key).inv) := by
  have hclosed : ∀ e, (shutAt w key none).sees e → (shutAt w key none).writes e := fun _ he => he
  by_cases hk : p.effectiveKey.getD a.key = key
  · have hopen : Triple (fun s => s.opens key) (storePrepared w consolidate a p)
        (fun _ => (timing w key).inv) (fun _ => (timing w key).inv) := by
      apply ((shutAt w key none).buildAndAssignEntry hclosed p.mgExplicit
        (opening_build (preparedArgs a p))).then (fun _ _ hs => timely_of_opens hs)
      intro built hbuilt
      apply ((shutAt w key none).persistEntryOrRollback hbuilt.1 (fun b hb => (hbuilt.2.2 b hb).1)).then
        (fun _ _ hs => timely_of_opens hs)
      intro _ _
      have hpost : Keeps (timing w key).inv (do
          postprocessSavedEntry w consolidate built.1 built.2 a.skipConsolidation
          pure built.1) := by
        apply ((timing w key).postprocessSavedEntry built.2 a.skipConsolidation
          (fun _ => hc built.1)).bind
        exact fun _ _ => Keeps.pure trivial
      exact hpost.from (fun _ => timely_of_opens)
    exact hopen.mono (fun _ hs => hs.2 hk) (fun _ _ h => h) (fun _ _ h => h)
  · have htimely : Keeps (timing w key).inv (storePrepared w consolidate a p) :=
      ((timing w key).storePrepared (fun _ he => he) (timing_build_other hk)
        (fun e _ _ => hc e)).forget
    exact htimely.from (fun _ hs => hs.1)

theorem timing_consolidate (e : MemoryEntry) :
    Keeps (timing w key).inv (maybeConsolidate w e) :=
  (timing w key).maybeConsolidate (fun _ he => he) e (fun _ plan _ => timing_merge plan)

theorem opening_save (a : SaveArgs) {s : Store} (hs : s.opens key) :
    (timing w key).inv ((save w a).final s) := by
  have hsave : Triple (fun s : Store => s.opens key) (save w a) (fun _ => (timing w key).inv)
      (fun _ => (timing w key).inv) := by
    rw [save, saveWith]
    split
    · exact Triple.raise (fun _ => timely_of_opens)
    · apply (opening_prepareSave a).bind
      intro r
      cases r with
      | error short =>
        have hshort : Keeps (timing w key).inv (answerShort short) :=
          (timing w key).answerShort_keeps short
        exact hshort.from (fun _ hs => hs.1)
      | ok p =>
        apply ((opening_storePrepared (inferredArgs w.toConfig a) p timing_consolidate).mono
          (fun _ hs => ⟨hs.1, hs.2 p rfl⟩) (fun _ _ h => h) (fun _ _ h => h)).bind
        exact fun _ => Triple.pure (fun _ hs => hs)
  exact hsave.final hs

/-- A save keeps the time when it finds what it may write under the status it asks for open. -/
theorem timing_save {a : SaveArgs} {s : Store} (hs : (timing w key).inv s)
    (h : asksActive a.status = true → s.opens a.key ∧ ∀ target, w.redirects a.key target → s.opens target) :
    (timing w key).inv ((save w a).final s) := by
  have hall : ∀ e, (timing w key).sees e → (timing w key).writes e := fun _ he => he
  cases hasks : asksActive a.status with
  | false =>
    exact ((timing w key).save hall timing_prepare (fun _ _ => timing_build hasks)
      (fun _ _ plan _ => timing_merge plan)).final hs
  | true =>
    obtain ⟨hopen, htargets⟩ := h hasks
    by_cases hk : a.key = key
    · exact opening_save a (hk ▸ hopen)
    · by_cases hredirect : w.redirects a.key key
      · exact opening_save a (htargets key hredirect)
      · apply ((timing w key).save hall timing_prepare _
          (fun _ _ plan _ => timing_merge plan)).final hs
        intro p hp
        apply timing_build_other
        intro hkey
        cases heffective : p.effectiveKey with
        | none =>
          change p.effectiveKey.getD a.key = key at hkey
          rw [heffective] at hkey
          exact hk hkey
        | some target =>
          change p.effectiveKey.getD a.key = key at hkey
          rw [heffective] at hkey
          have htarget := hp.target target heffective
          cases hkey
          exact hredirect htarget

/-- A dry run of the undo writes nothing. -/
theorem timing_undoDry (k : String) :
    Keeps (timing w key).inv (undoSaveConflict w k true) := by
  apply ((timing w key).ensureEntryCached k).forget.bind
  intro r _
  cases r with
  | none => exact Keeps.pure trivial
  | some e =>
    dsimp only
    split
    · exact Keeps.pure trivial
    · split
      · exact Keeps.pure trivial
      · exact Keeps.pure trivial

theorem timing_recordMemory {agentId : String} {maxEntries : Nat} {now : Stamp} {m : MemorySpec}
    {s : Store} (hs : (timing w key).inv s) :
    (timing w key).inv (recordMemory agentId maxEntries now m s) := by
  obtain ⟨hentries, hrows⟩ := hs
  constructor
  · intro e he hk
    have hcached : (recordMemory agentId maxEntries now m s).entries = s.entries :=
      ensureMemoryCapacity_entries maxEntries m.key s
    exact hentries e (hcached ▸ he) hk
  · intro e he hk
    rcases Table.mem_set he with rfl | he
    · apply MemoryEntry.Timely.of_open
      rw [recordedMemory]
      split
      · rfl
      · rfl
    · exact hrows e (mem_ensureMemoryCapacity he) hk

theorem WriteCall.step_timely {call : WriteCall} {s : Store} (hs : (timing w key).inv s)
    (h : TimelineCall.KeepsTime w (.write call) s) : (timing w key).inv (call.step w s) := by
  have hall : ∀ e, (timing w key).sees e → (timing w key).writes e := fun _ he => he
  cases call with
  | get k =>
    apply ((timing w key).get _).final hs
    intro e now hsees _ _
    exact timing_rewrites hsees rfl rfl
  | save a => exact timing_save hs h
  | saveMany items =>
    exact ((timing w key).saveMany hall timing_prepare (fun a ha _ _ => timing_build (h a ha))
      (fun _ _ plan _ => timing_merge plan)).final hs
  | supersede oldKey newValue kw =>
    apply ((timing w key).supersede hall _ _ timing_prepare (fun _ _ _ _ => timing_build h)
      (fun _ _ plan _ => timing_merge plan)).final hs
    · intro e now newKey hsees _ _
      exact ⟨hsees, timing_closes _ _ _ _ _ (by decide)⟩
    · intro now e he hk
      exact (he hk).of_eq rfl rfl
  | reinforce k boost => exact ((timing w key).reinforce (timing_reinforce k boost)).final hs
  | recordAccess k wasUseful =>
    apply ((timing w key).recordAccess _).final hs
    intro e now hsees _ _
    exact timing_rewrites hsees (accessRecorded_key _ _ _ _) (withStability_life _ _ _ _ _)
  | updateTags k add remove =>
    apply ((timing w key).updateTags add remove _).final hs
    intro e tags now hsees _ _
    exact timing_rewrites hsees rfl rfl
  | closeValidity k reason succ detail =>
    apply ((timing w key).closeValidity _).final hs
    intro status hstatus e now hsees _ _
    exact ⟨hsees, timing_closes _ _ _ _ _ (closeValidityStatus_closes hstatus)⟩
  | undoSaveConflict k dryRun =>
    cases h
    exact (timing_undoDry k).final hs
  | promoteLearning k signal actor evidence =>
    apply ((timing w key).promoteLearning signal actor evidence _).final hs
    intro e hsees _
    exact ⟨hsees, fun _ _ hk => (hsees hk).of_eq rfl rfl⟩
  | demoteLearning k reason =>
    apply ((timing w key).demoteLearning reason _).final hs
    intro e hsees _
    exact ⟨hsees, fun _ _ hk => (hsees hk).of_eq rfl rfl⟩
  | delete k => exact ((timing w key).delete (fun _ he _ => he)).final hs
  | gc dryRun =>
    apply ((timing w key).gc dryRun (fun _ => trivial) hall _).final hs
    intro scanned at_ target _ e now hsees _
    exact timing_rewrites hsees rfl rfl
  | refreshDecay dryRun =>
    apply ((timing w key).refreshDecay dryRun (fun _ => trivial) hall _).final hs
    intro e now detail hsees _
    exact timing_closes _ _ _ _ _ (by decide)
  | scan group =>
    exact ((timing w key).runPeriodicConsolidationScan hall
      (fun _ plan _ => timing_merge plan)).final hs
  | undoConsolidationMerge k =>
    exact ((timing w key).undoConsolidationMerge hall k timing_reopens (fun _ => trivial)).final hs
  | recordMemory agentId maxEntries now m => exact timing_recordMemory hs

theorem TimelineCall.step_timely {call : TimelineCall} {s : Store} (hs : (timing w key).inv s)
    (h : call.KeepsTime w s) : (timing w key).inv (call.step w s) := by
  cases call with
  | write call => exact WriteCall.step_timely hs h
  | updateFields k patch =>
    have hallows : (timing w key).Allows k patch.apply :=
      fun _ _ hsees _ _ => ⟨hsees, fun hk => (hsees ((patch.apply_key _ _).symm.trans hk)).patched h⟩
    exact ((timing w key).updateFields hallows).final hs

end Timing

/-- In every state of a run whose calls keep the time, nothing that the cache or the table holds
is active and closed, at any instant. -/
theorem timeline_of_truth {w : World} {calls : List TimelineCall}
    (h : Guarded (TimelineCall.step w) (TimelineCall.KeepsTime w) calls {}) :
    ∀ e ∈ (runSteps (TimelineCall.step w) calls {}).entries.values ++
        (runSteps (TimelineCall.step w) calls {}).rows.values,
      ∀ now, e.liveButClosed now = false := by
  intro e he
  have hnone : (timing w e.key).inv {} := ⟨fun _ he => (nomatch he), fun _ he => (nomatch he)⟩
  have hkept : (timing w e.key).inv (runSteps (TimelineCall.step w) calls {}) :=
    h.keeps (fun _ _ hs hcall => TimelineCall.step_timely hs hcall) hnone
  rcases List.mem_append.1 he with he | he
  · exact (hkept.1 e he rfl).not_liveButClosed
  · exact (hkept.2 e he rfl).not_liveButClosed

/-- An update of columns that names the end of the validity only. -/
def endPatch (t : Stamp) : FieldPatch where
  set := fun e => { e with invalidAt := some (.at t) }
  set_key := fun _ => rfl

def ended : List TimelineCall :=
  [.write (.save { key := "port", value := "5432" }), .updateFields "port" (endPatch 9)]

/-- A save that asks for the status of a live row keeps the end of the row it finds. -/
def askedActive : List TimelineCall :=
  [.write (.save { key := "port", value := "5432" }), .write (.closeValidity "port" "age" none none),
    .write (.save { key := "port", value := "6543", status := some "active" })]

theorem calls_leave_live_but_closed :
    (∃ e ∈ (runSteps (TimelineCall.step Config.plain.calm) ended {}).rows.values,
      e.liveButClosed 5000 = true) ∧
    ∃ e ∈ (runSteps (TimelineCall.step Config.plain.calm) askedActive {}).rows.values,
      e.liveButClosed 5000 = true := by
  decide +kernel

/-- An update that names other columns. -/
def trustPatch (confidence : ℚ) : FieldPatch where
  set := fun e => { e with confidence }
  set_key := fun _ => rfl

def closedThenSaved : List TimelineCall :=
  [.write (.save { key := "port", value := "5432", status := some "active" }), .write (.closeValidity "port" "age" none none),
    .updateFields "port" (trustPatch 1), .write (.save { key := "port", value := "6543" })]

theorem closed_stays_stale :
    ∃ e ∈ (runSteps (TimelineCall.step Config.plain.calm) closedThenSaved {}).rows.values,
      e.status = .stale ∧ e.liveButClosed 5000 = false := by
  have hempty : ∀ key, Store.opens {} key := fun _ => ⟨fun _ he => (nomatch he), fun _ he => (nomatch he)⟩
  have hkeeps : Guarded (TimelineCall.step Config.plain.calm)
      (TimelineCall.KeepsTime Config.plain.calm) closedThenSaved {} := by
    refine ⟨fun _ => ⟨hempty _, fun target _ => hempty target⟩, trivial, ?_, ?_, trivial⟩
    · exact fun _ => .inl ⟨rfl, rfl⟩
    · exact fun hasks => absurd hasks (by decide)
  have hstale : ∃ e ∈ (runSteps (TimelineCall.step Config.plain.calm) closedThenSaved {}).rows.values,
      e.status = .stale := by
    decide +kernel
  obtain ⟨e, he, hstatus⟩ := hstale
  exact ⟨e, he, hstatus, timeline_of_truth hkeeps e (List.mem_append_right _ he) 5000⟩

end TappsBrain
