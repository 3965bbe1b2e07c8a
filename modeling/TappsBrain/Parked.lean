import Mathlib.Data.List.Perm.Subperm
import TappsBrain.Consolidate
import TappsBrain.PassDiscipline

namespace TappsBrain
open Lib
set_option autoImplicit true
set_option relaxedAutoImplicit false

/-- A property of entries that the rewrites of a row by others leave alone. -/
structure Steady (c : Config) (φ : MemoryEntry → Prop) : Prop where
  hydrated : ∀ row e, rowToEntry c row = .ok e → φ row → φ e
  upserted : ∀ rows e, φ e → φ (upserted rows e)
  closed : ∀ reason status now succ detail e, φ e → φ (closeWith reason status now succ detail e)
  reopened : ∀ updatedAt now e, φ e → φ ((reopenPatch updatedAt).apply now e)
  accessed : ∀ now e, φ e → φ (accessed now e)

/-- The slots of `L` are filled with a `φ`, and no key outside `K` is held. -/
structure Parked (L : String → Prop) (φ : MemoryEntry → Prop) (K : List String) (s : Store) :
    Prop where
  slot : ∀ key, L key → ∃ e, s.entries.get? key = some e ∧ φ e
  row : ∀ row ∈ s.rows.values, L row.key → φ row
  cachedKeys : ∀ e ∈ s.entries.values, e.key ∈ K
  storedKeys : ∀ row ∈ s.rows.values, row.key ∈ K

namespace Parked
variable {w : World} {L : String → Prop} {φ : MemoryEntry → Prop} {K : List String} {s : Store}

theorem cached (h : Parked L φ K s) {e : MemoryEntry} (he : e ∈ s.entries.values) (hk : L e.key) :
    φ e := by
  obtain ⟨e', he', hφ⟩ := h.slot e.key hk
  rw [Table.get?_of_mem he] at he'
  cases he'
  exact hφ

theorem mono (h : Parked L φ K s) {K' : List String} (hK : ∀ key ∈ K, key ∈ K') : Parked L φ K' s :=
  ⟨h.slot, h.row, fun e he => hK _ (h.cachedKeys e he), fun row hrow => hK _ (h.storedKeys row hrow)⟩

theorem bookkeeping : Bookkeeping (Parked L φ K) :=
  ⟨fun _ h => ⟨h.1, h.2, h.3, h.4⟩, fun _ h => ⟨h.1, h.2, h.3, h.4⟩, fun _ h => ⟨h.1, h.2, h.3, h.4⟩,
    fun _ _ h => ⟨h.1, h.2, h.3, h.4⟩, fun _ _ h => ⟨h.1, h.2, h.3, h.4⟩,
    fun _ _ h => ⟨h.1, h.2, h.3, h.4⟩⟩

/-- What may be written into a slot without disturbing what is parked. -/
def Fits (L : String → Prop) (φ : MemoryEntry → Prop) (K : List String) (e : MemoryEntry) : Prop :=
  e.key ∈ K ∧ (L e.key → φ e)

theorem assign (h : Parked L φ K s) {e : MemoryEntry} (he : Fits L φ K e) :
    Parked L φ K { s with entries := s.entries.set e } where
  slot := by
    intro key hk
    rw [Table.get?_set]
    split
    · next heq => exact ⟨e, rfl, he.2 (heq ▸ hk)⟩
    · exact h.slot key hk
  row := h.row
  cachedKeys := by
    intro e' he'
    rcases Table.mem_set he' with rfl | hm
    · exact he.1
    · exact h.cachedKeys e' hm
  storedKeys := h.storedKeys

theorem store (hφ : Steady w.toConfig φ) (h : Parked L φ K s) {e : MemoryEntry} (he : Fits L φ K e) :
    Parked L φ K (storeRow e s) where
  slot := h.slot
  row := by
    intro row hrow hk
    rcases Table.mem_set hrow with rfl | hm
    · rw [upserted_key] at hk
      exact hφ.upserted s.rows e (he.2 hk)
    · exact h.row row hm hk
  cachedKeys := h.cachedKeys
  storedKeys := by
    intro row hrow
    rcases Table.mem_set hrow with rfl | hm
    · rw [upserted_key]
      exact he.1
    · exact h.storedKeys row hm

/-- Everything but the parked slots may be written and freed. -/
def discipline (w : World) (hφ : Steady w.toConfig φ) (L : String → Prop) (K : List String) :
    Discipline w where
  inv := Parked L φ K
  sees := Fits L φ K
  writes := fun e => e.key ∈ K ∧ ¬ L e.key
  frees := fun key => ¬ L key
  reads := fun _ => True
  bookkeeping := bookkeeping
  ignoresRelations := ⟨fun _ _ h => ⟨h.1, h.2, h.3, h.4⟩, fun _ _ h => ⟨h.1, h.2, h.3, h.4⟩⟩
  cached := fun s e h he => ⟨h.cachedKeys e he, h.cached he⟩
  loads := by
    intro s row e h hrow he
    have hk : e.key = row.key := by rw [(rowToEntry_ok he).2, normalised_key]
    exact ⟨hk ▸ h.storedKeys row hrow, fun hL => hφ.hydrated row e he (h.row row hrow (hk ▸ hL))⟩
  hydrate := by
    intro s row e h hrow he _
    have hk : e.key = row.key := by rw [(rowToEntry_ok he).2, normalised_key]
    apply h.assign
    exact ⟨hk ▸ h.storedKeys row hrow, fun hL => hφ.hydrated row e he (h.row row hrow (hk ▸ hL))⟩
  assign := fun s e h hw => h.assign ⟨hw.1, fun hL => absurd hL hw.2⟩
  store := fun s e h hw => h.store hφ ⟨hw.1, fun hL => absurd hL hw.2⟩
  pop := by
    intro s key h hf
    refine ⟨fun k hk => ?_, h.row, fun e he => h.cachedKeys e (Table.mem_pop he), h.storedKeys⟩
    rw [Table.get?_pop_ne _ (fun heq : key = k => hf (heq ▸ hk))]
    exact h.slot k hk
  drop := fun s key h _ => ⟨h.slot, fun row hrow => h.row row (Table.mem_pop hrow), h.cachedKeys,
    fun row hrow => h.storedKeys row (Table.mem_pop hrow)⟩
  filter := by
    intro s p h hall
    exact ⟨fun k hk => absurd hk (hall k), h.row,
      fun e he => h.cachedKeys e (List.mem_of_mem_filter he), h.storedKeys⟩
  frees_of_writes := fun _ h => h.2
  reading := fun _ _ => trivial

theorem setEntry_fits {e : MemoryEntry} (he : Fits L φ K e) : Keeps (Parked L φ K) (setEntry e) :=
  Keeps.modify (fun _ hs => hs.assign he)

section Rewrite
variable (hφ : Steady w.toConfig φ)
include hφ

theorem saveRow_fits {e : MemoryEntry} (he : Fits L φ K e) : Keeps (Parked L φ K) (saveRow w e) :=
  keeps_saveRow bookkeeping (fun _ hs => hs.store hφ he)

/-- A parked slot is filled, so nothing is dropped under its key. -/
theorem dropIfConcurrentlyRemoved_keeps (key : String) :
    Keeps (Parked L φ K) (dropIfConcurrentlyRemoved w key) := by
  by_cases hL : L key
  · intro s hs
    obtain ⟨e, he, _⟩ := hs.slot key hL
    rw [dropIfConcurrentlyRemoved_run w he]
    exact ⟨hs, trivial⟩
  · exact (discipline w hφ L K).dropIfConcurrentlyRemoved hL

theorem restoreIfSame_fits (updated : MemoryEntry) {previous : MemoryEntry}
    (hp : Fits L φ K previous) : Keeps (Parked L φ K) (restoreIfSame updated previous) := by
  apply ((discipline w hφ L K).getEntry updated.key).forget.bind
  intro current _
  split
  · exact setEntry_fits hp
  · exact Keeps.pure trivial

theorem rewriteEntry_fits {before after : MemoryEntry} (hb : Fits L φ K before)
    (ha : Fits L φ K after) : Keeps (Parked L φ K) (rewriteEntry w before after) := by
  apply (setEntry_fits ha).bind
  intro _ _
  apply ((saveRow_fits hφ ha).rollback (restoreIfSame_fits hφ after hb)).bind
  exact fun _ _ => dropIfConcurrentlyRemoved_keeps hφ after.key

theorem updateFields_fits {key : String} {patch : FieldPatch}
    (h : ∀ e now, Fits L φ K e → Fits L φ K (patch.apply now e)) :
    Keeps (Parked L φ K) (updateFields w key patch) := by
  apply ((discipline w hφ L K).ensureEntryCached key).bind
  intro r hr
  cases r with
  | none => exact Keeps.pure trivial
  | some e =>
    obtain ⟨he, _⟩ := hr e rfl
    apply (discipline w hφ L K).utcNow.forget.bind
    intro now _
    exact (rewriteEntry_fits hφ he (h e now he)).bind (fun _ _ => Keeps.pure trivial)

theorem closeValidity_fits (key reason : String) (supersededBy detail : Option String) :
    Keeps (Parked L φ K) (closeValidity w key reason supersededBy detail) := by
  apply (discipline w hφ L K).utcNow.forget.bind
  intro now _
  cases hr : closeValidityStatus reason with
  | none => exact Keeps.ofExcept (fun _ _ => trivial)
  | some status =>
    have hpatch : ∀ e (now' : Stamp), Fits L φ K e →
        Fits L φ K ((closePatch reason status now supersededBy detail).apply now' e) := by
      intro e now' he
      have hc : φ e → φ ((closePatch reason status now supersededBy detail).apply now' e) := by
        intro h
        have := hφ.closed reason status now supersededBy detail e h
        cases status <;> exact this
      have hkey := FieldPatch.apply_key (closePatch reason status now supersededBy detail) now' e
      exact ⟨hkey ▸ he.1, fun hL => hc (he.2 (hkey ▸ hL))⟩
    apply (updateFields_fits hφ hpatch).bind
    intro r _
    cases r with
    | none => exact Keeps.pure trivial
    | some e =>
      exact ((discipline w hφ L K).appendAudit key _).bind (fun _ _ => Keeps.pure trivial)

theorem get_fits (key : String) : Keeps (Parked L φ K) (get w key) := by
  apply ((discipline w hφ L K).ensureEntryCached key).bind
  intro r hr
  cases r with
  | none => exact Keeps.pure trivial
  | some e =>
    obtain ⟨he, _⟩ := hr e rfl
    apply (discipline w hφ L K).utcNow.forget.bind
    intro now _
    have ha : Fits L φ K (accessed now e) := ⟨he.1, fun hL => hφ.accessed now e (he.2 hL)⟩
    apply (setEntry_fits ha).bind
    intro _ _
    apply ((saveRow_fits hφ ha).rollback (restoreIfSame_fits hφ _ he)).bind
    intro _ _
    exact (dropIfConcurrentlyRemoved_keeps hφ key).bind (fun _ _ => Keeps.pure trivial)

end Rewrite

section Prepare
variable (hφ : Steady w.toConfig φ)
include hφ

theorem invalidateOne_fits {current invalidated : MemoryEntry} (hc : Fits L φ K current)
    (hi : Fits L φ K invalidated) : Keeps (Parked L φ K) (invalidateOne w current invalidated) := by
  apply (setEntry_fits hi).bind
  intro _ _
  apply Keeps.handle
  · apply (saveRow_fits hφ hi).bind
    intro _ _
    exact (dropIfConcurrentlyRemoved_keeps hφ _).bind (fun _ _ => Keeps.pure trivial)
  · intro _
    exact (restoreIfSame_fits hφ invalidated hc).bind (fun _ _ => Keeps.pure trivial)

/-- A parked entry that is closed as conflicting stays where it is. -/
theorem invalidateAll_keeps (now : Stamp) (plan : List (String × String)) :
    Keeps (Parked L φ K) (invalidateAll w now plan) := by
  induction plan with
  | nil => exact Keeps.pure trivial
  | cons p rest ih =>
    apply ((discipline w hφ L K).getEntry p.1).bind
    intro r hr
    cases r with
    | none => exact ih
    | some current =>
      dsimp only
      split
      · exact ih
      · have hc : Fits L φ K current := (hr current rfl).1
        have hi : Fits L φ K (invalidatedBy now p.2 current) :=
          ⟨(invalidatedBy_key now p.2 current).symm ▸ hc.1,
            fun hL => hφ.closed _ _ _ _ _ _ (hc.2 (invalidatedBy_key now p.2 current ▸ hL))⟩
        apply (invalidateOne_fits hφ hc hi).bind
        intro persisted _
        exact invalidateRest_keeps ih p.1 persisted

theorem handleConflicts_keeps (key value tier : String) (conflictCheck : Bool) :
    Keeps (Parked L φ K) (handleConflicts w key value tier conflictCheck) := by
  rw [handleConflicts]
  split
  · exact Keeps.pure trivial
  · apply ((discipline w hφ L K).planFor key value tier).forget.bind
    intro r _
    cases r with
    | none => exact Keeps.pure trivial
    | some plan =>
      apply (invalidateAll_keeps hφ plan.now plan.invalidations).bind
      intro r _
      cases r with
      | none => exact Keeps.pure trivial
      | some keys =>
        have haudit : Keeps (Parked L φ K) (Prog.forEach (closeConflictAudit w plan.now) keys) :=
          Keeps.forEach keys (fun k _ => (discipline w hφ L K).appendAudit k _)
        exact haudit.bind (fun _ _ => Keeps.pure trivial)

theorem allowsReinforce {key : String} (hkey : ¬ L key) (boost : ℚ) :
    (discipline w hφ L K).AllowsReinforce key boost where
  reinforced := by
    intro e now he hk _
    exact ⟨⟨he.1, hk ▸ hkey⟩, (reinforced_key _ _ _ e).symm ▸ he.1,
      by rw [reinforced_key, hk]; exact hkey⟩
  promoted := by
    intro e at₁ at₂ at₃ target he hk _ _ _
    exact ⟨by rw [promoted_key, reinforced_key]; exact he.1,
      by rw [promoted_key, reinforced_key, hk]; exact hkey⟩

theorem dedupAndConflicts_keeps {key : String} (hkey : ¬ L key) (value tier : String)
    (dedup conflictCheck : Bool) :
    Keeps (Parked L φ K) (dedupAndConflicts w key value tier dedup conflictCheck) := by
  rw [dedupAndConflicts]
  split
  · exact Keeps.pure trivial
  · apply ((discipline w hφ L K).handleDedup value dedup (allowsReinforce hφ hkey 0)).forget.bind
    intro r _
    cases r with
    | some short => exact Keeps.pure trivial
    | none =>
      apply (handleConflicts_keeps hφ key value tier conflictCheck).bind
      exact fun _ _ => Keeps.pure trivial

theorem prepareUnder_keeps {a : SaveArgs} (hkey : ¬ L a.key) (value agentScope : String)
    (mgExplicit : Option (Option String)) :
    Keeps (Parked L φ K) (prepareUnder w a value agentScope mgExplicit none)
      (fun r => ∀ p, r = .ok p → p.effectiveKey = none ∧ p.value = value) := by
  apply (dedupAndConflicts_keeps hφ hkey value _ a.dedup a.conflictCheck).bind
  intro r _
  rcases r with short | o
  · exact Keeps.pure (fun p hp => nomatch hp)
  · exact Keeps.pure (fun p hp => Except.ok.inj hp ▸ ⟨rfl, rfl⟩)

theorem prepareSave_keeps (hpolicy : ∀ key value entries, policyProceeds w key value entries = true)
    {a : SaveArgs} (hkey : ¬ L a.key) :
    Keeps (Parked L φ K) (prepareSave w a) (fun r => ∀ p, r = .ok p → p.effectiveKey = none) := by
  apply ((discipline w hφ L K).checkSave a).forget.bind
  intro r _
  rcases r with short | ⟨value, agentScope, mgExplicit⟩
  · exact Keeps.pure (fun p hp => nomatch hp)
  · apply ((discipline w hφ L K).applyWritePolicy_proceeds hpolicy a.key value).bind
    rintro outcome rfl
    exact (prepareUnder_keeps hφ hkey value agentScope mgExplicit).weaken (fun r h p hp => (h p hp).1)

end Prepare

section Caps

theorem size_le (h : Parked L φ K s) : s.entries.size ≤ K.length := by
  have hsub : ∀ key ∈ s.entries.values.map (·.key), key ∈ K := by
    intro key hkey
    obtain ⟨e, he, rfl⟩ := List.mem_map.1 hkey
    exact h.cachedKeys e he
  have hle := (List.subperm_of_subset s.entries.nodup hsub).length_le
  rwa [List.length_map] at hle

theorem group_le (h : Parked L φ K s) (group : Option String) :
    (s.entries.values.filter (fun e => e.memoryGroup = group)).length ≤ K.length :=
  (List.length_filter_le _ _).trans h.size_le

/-- More keys fit than `K` holds. -/
def Roomy (w : World) (K : List String) : Prop :=
  K.length < w.maxEntries ∧ ∀ cap, w.maxEntriesPerGroup = some cap → K.length < cap

/-- With room for one more key the caps evict nothing: they only count. -/
theorem enforceEntryCaps_roomy {I : Store → Prop} (hroom : Roomy w K)
    (hcount : ∀ group, Keeps I (countEntriesInMemoryGroup w group) (fun n => n ≤ K.length))
    (hsize : ∀ s, I s → s.entries.size ≤ K.length) (group : Option String)
    (existing : Option MemoryEntry) : Keeps I (enforceEntryCapsBeforeAssign w group existing) := by
  have hgroup : Keeps I (enforceGroupCap w group existing) := by
    rw [enforceGroupCap]
    cases hcap : w.maxEntriesPerGroup with
    | none => exact Keeps.pure trivial
    | some cap =>
      have hlt := hroom.2 cap hcap
      cases existing with
      | none =>
        apply (hcount group).bind
        intro n hn
        rw [if_neg (by omega)]
        exact Keeps.pure trivial
      | some e =>
        dsimp only
        split
        · apply (hcount group).bind
          intro n hn
          rw [if_neg (by omega)]
          exact Keeps.pure trivial
        · exact Keeps.pure trivial
  apply hgroup.bind
  intro _ _
  have hread : Keeps I (Prog.read (fun s : Store => s.entries.size) : StoreM Nat)
      (fun n => n < w.maxEntries) :=
    Keeps.read (fun s hs => (hsize s hs).trans_lt hroom.1)
  apply hread.bind
  intro n hn
  have hnot : ¬ (existing.isNone && decide (w.maxEntries ≤ n)) = true := by
    simp only [Bool.and_eq_true, decide_eq_true_eq, not_and]
    omega
  rw [if_neg hnot]
  exact Keeps.pure trivial

variable (hφ : Steady w.toConfig φ) (hroom : Roomy w K)
include hφ

theorem countEntriesInMemoryGroup_keeps (group : Option String) :
    Keeps (Parked L φ K) (countEntriesInMemoryGroup w group) (fun n => n ≤ K.length) := by
  rw [countEntriesInMemoryGroup, ← Prog.bind_assoc]
  apply ((discipline w hφ L K).loadAndFill none true).bind
  intro _ _
  exact Keeps.read (fun s hs => hs.group_le group)

include hroom

theorem enforceEntryCaps_keeps (group : Option String) (existing : Option MemoryEntry) :
    Keeps (Parked L φ K) (enforceEntryCapsBeforeAssign w group existing) :=
  enforceEntryCaps_roomy hroom (countEntriesInMemoryGroup_keeps hφ) (fun _ hs => hs.size_le) group
    existing

end Caps

/-- The slots of `L` are filled, whatever other keys are held. -/
def Stowed (L : String → Prop) (φ : MemoryEntry → Prop) (s : Store) : Prop := ∃ K, Parked L φ K s

theorem keptOf {α : Type} {p : StoreM α} (h : ∀ K, Keeps (Parked L φ K) p) : Keeps (Stowed L φ) p := by
  rintro s ⟨K, hs⟩
  have hp := h K s hs
  rcases hr : p s with ⟨err | a, t⟩
  · rw [hr] at hp
    exact ⟨K, hp⟩
  · rw [hr] at hp
    exact ⟨⟨K, hp.1⟩, trivial⟩

/-- The row these arguments build sits in its slot; `r.2` is what it replaces. -/
structure BuiltInto (w : World) (a : SaveArgs) (r : MemoryEntry × Option MemoryEntry) (s : Store) :
    Prop where
  built : ∃ existing mg now tierVal e,
    constructMemoryEntry w.toConfig a tierVal mg existing now = .ok e ∧
      r.1 = stampIntegrityHash w.toConfig e
  slot : s.entries.get? a.key = some r.1
  existing : ∀ b, r.2 = some b → b.key = a.key

theorem BuiltInto.key {a : SaveArgs} {r : MemoryEntry × Option MemoryEntry} (h : BuiltInto w a r s) :
    r.1.key = a.key :=
  Table.key_of_get? h.slot

section Save
variable (hφ : Steady w.toConfig φ)
include hφ

/-- The row is assigned to a slot that is not parked. -/
theorem buildAndAssignEntry_keeps {a : SaveArgs} (hroom : Roomy w K) (hkey : ¬ L a.key)
    (mgExplicit : Option (Option String)) :
    Triple (Parked L φ K) (buildAndAssignEntry w a mgExplicit)
      (fun r s => Parked L φ (a.key :: K) s ∧ BuiltInto w a r s)
      (fun _ => Parked L φ (a.key :: K)) := by
  have hgrow : ∀ s, Parked L φ K s → Parked L φ (a.key :: K) s :=
    fun s hs => hs.mono (fun key hk => List.mem_cons_of_mem _ hk)
  apply ((discipline w hφ L K).builds a mgExplicit).then (fun _ s hs => hgrow s hs)
  rintro ⟨entry, existing⟩ ⟨⟨old, mg, now, tierVal, e, he, rfl⟩, hex⟩
  have hentry : e.key = a.key := constructMemoryEntry_key he
  apply (enforceEntryCaps_keeps hφ hroom e.memoryGroup existing).then (fun _ s hs => hgrow s hs)
  intro _ _
  have hfits : Fits L φ (a.key :: K) (stampIntegrityHash w.toConfig e) := by
    constructor
    · rw [stampIntegrityHash_key, hentry]
      exact List.mem_cons_self
    · rw [stampIntegrityHash_key, hentry]
      exact fun hL => absurd hL hkey
  have hset : Triple (Parked L φ K) (setEntry (stampIntegrityHash w.toConfig e))
      (fun _ s => Parked L φ (a.key :: K) s ∧
        s.entries.get? a.key = some (stampIntegrityHash w.toConfig e))
      (fun _ => Parked L φ (a.key :: K)) := by
    intro s hs
    exact ⟨(hgrow s hs).assign hfits, hentry ▸ Table.get?_set_self _ _⟩
  apply hset.bind
  intro _
  apply Triple.pure
  intro s hs
  exact ⟨hs.1, ⟨old, mg, now, tierVal, e, he, rfl⟩, hs.2, fun b hb => (hex b hb).2⟩

theorem postprocess_keeps {consolidate : MemoryEntry → StoreM Unit} {entry : MemoryEntry}
    (existing : Option MemoryEntry) {skip : Bool}
    (hc : w.consolidation.enabled = true → skip = false → Triple (Parked L φ K) (consolidate entry) (fun _ => Stowed L φ)
      (fun _ => Stowed L φ)) :
    Triple (Parked L φ K) (postprocessSavedEntry w consolidate entry existing skip)
      (fun _ => Stowed L φ) (fun _ => Stowed L φ) := by
  have hkept : ∀ (_ : Raised) s, Parked L φ K s → Stowed L φ s := fun _ s hs => ⟨K, hs⟩
  apply ((discipline w hφ L K).appendAudit entry.key _).then hkept
  intro _ _
  apply ((discipline w hφ L K).persistRelations entry.key entry.value).then hkept
  intro _ _
  apply Keeps.ask.then hkept
  intro inProgress _
  split
  · next hgo =>
    simp only [Bool.and_eq_true, Bool.not_eq_true'] at hgo
    exact hc hgo.1.1.1 hgo.1.1.2
  · exact Triple.pure (fun s hs => ⟨K, hs⟩)

theorem storePrepared_keeps {consolidate : MemoryEntry → StoreM Unit} {a : SaveArgs} {p : SavePrep}
    (hroom : Roomy w K) (hkey : ¬ L (preparedArgs a p).key)
    (hc : w.consolidation.enabled = true → a.skipConsolidation = false → ∀ e, Triple (Parked L φ ((preparedArgs a p).key :: K))
      (consolidate e) (fun _ => Stowed L φ) (fun _ => Stowed L φ)) :
    Triple (Parked L φ K) (storePrepared w consolidate a p) (fun _ => Stowed L φ)
      (fun _ => Stowed L φ) := by
  have hbuilt := buildAndAssignEntry_keeps hφ hroom hkey p.mgExplicit
  apply (hbuilt.mono (fun _ hs => hs) (fun _ _ hs => hs) (fun _ s hs => (⟨_, hs⟩ : Stowed L φ s))).bind
  rintro ⟨entry, existing⟩ s ⟨hs, hbuilt⟩
  have hentry : entry.key = (preparedArgs a p).key := hbuilt.key
  have hw : (discipline w hφ L ((preparedArgs a p).key :: K)).writes entry := by
    constructor
    · rw [hentry]
      exact List.mem_cons_self
    · rw [hentry]
      exact hkey
  have hb : ∀ b, existing = some b →
      (discipline w hφ L ((preparedArgs a p).key :: K)).writes b := by
    intro b hb
    rw [← hbuilt.existing b hb] at hkey ⊢
    exact ⟨List.mem_cons_self, hkey⟩
  have hpersist :=
    (discipline w hφ L ((preparedArgs a p).key :: K)).persistEntryOrRollback hw hb
  have hrest : Triple (Parked L φ ((preparedArgs a p).key :: K)) (do
      persistEntryOrRollback w entry existing
      postprocessSavedEntry w consolidate entry existing a.skipConsolidation
      pure entry) (fun _ => Stowed L φ) (fun _ => Stowed L φ) := by
    apply hpersist.then (fun _ s hs => ⟨_, hs⟩)
    intro _ _
    apply (postprocess_keeps hφ existing (fun hon hskip => hc hon hskip entry)).bind
    exact fun _ => Triple.pure (fun _ h => h)
  exact hrest s hs

theorem saveWith_keeps {consolidate : MemoryEntry → StoreM Unit} {a : SaveArgs}
    (hroom : Roomy w K) (hpolicy : ∀ key value entries, policyProceeds w key value entries = true)
    (hkey : ¬ L a.key)
    (hc : w.consolidation.enabled = true → a.skipConsolidation = false → ∀ e, Triple (Parked L φ (a.key :: K))
      (consolidate e) (fun _ => Stowed L φ) (fun _ => Stowed L φ)) :
    Triple (Parked L φ K) (saveWith w consolidate a) (fun _ => Stowed L φ) (fun _ => Stowed L φ) := by
  rw [saveWith]
  split
  · exact Triple.raise (fun s hs => ⟨K, hs⟩)
  · apply (prepareSave_keeps hφ hpolicy hkey).then (fun _ s hs => ⟨K, hs⟩)
    intro r hr
    rcases r with short | p
    · exact ((discipline w hφ L K).answerShort_keeps short).mono (fun _ hs => hs)
        (fun _ s hs => ⟨K, hs.1⟩) (fun _ s hs => ⟨K, hs⟩)
    · have hsame : (preparedArgs (inferredArgs w.toConfig a) p).key = a.key := by
        rw [preparedArgs, hr p rfl]
        rfl
      have hstore : Triple (Parked L φ K)
          (storePrepared w consolidate (inferredArgs w.toConfig a) p) (fun _ => Stowed L φ)
          (fun _ => Stowed L φ) :=
        storePrepared_keeps hφ hroom (hsame ▸ hkey) (by rw [hsame]; exact hc)
      exact hstore.bind (fun _ => Triple.pure (fun _ h => h))

end Save

section Merge
variable (hφ : Steady w.toConfig φ)
include hφ

theorem closeSource_keeps (mergedKey : String) (snap : MemoryEntry) :
    Keeps (Parked L φ K) (closeSource w mergedKey snap) := by
  rw [closeSource]
  split
  · exact Keeps.pure trivial
  · apply ((discipline w hφ L K).ensureEntryCached snap.key).forget.bind
    intro r _
    cases r with
    | none => exact Keeps.raise
    | some current =>
      dsimp only
      split
      · exact Keeps.raise
      · apply (closeValidity_fits hφ snap.key _ _ _).bind
        intro r _
        cases r with
        | none => exact Keeps.raise
        | some _ => exact Keeps.pure trivial

theorem stripKeyFromRelations_keeps (key : String) :
    Keeps (Parked L φ K) (stripKeyFromRelations w key) := by
  apply ((discipline w hφ L K).loadRelationRows key).bind
  intro rows _
  apply ((discipline w hφ L K).deleteRelationRows key).bind
  intro _ _
  exact Keeps.forEach _ (fun r _ => (discipline w hφ L K).saveRelationRows _ _)

theorem rollbackMerge_keeps {mergedKey : String} (hkey : ¬ L mergedKey) (sourceKeys : List String) :
    Keeps (Parked L φ K) (rollbackMerge w mergedKey sourceKeys) := by
  apply Keeps.swallow
  have hreopen : Keeps (Parked L φ K) (Prog.forEach (fun key =>
      if key = mergedKey then pure ()
      else Prog.swallow (do
        let _ ← updateFields w key (reopenPatch none)
        pure ())) sourceKeys) := by
    apply Keeps.forEach
    intro key _
    split
    · exact Keeps.pure trivial
    · apply Keeps.swallow
      have hpatch : ∀ e (now : Stamp), Fits L φ K e → Fits L φ K ((reopenPatch none).apply now e) :=
        fun e now he => ⟨he.1, fun hL => hφ.reopened none now e (he.2 hL)⟩
      exact (updateFields_fits hφ hpatch).bind (fun _ _ => Keeps.pure trivial)
  apply hreopen.bind
  intro _ _
  apply (stripKeyFromRelations_keeps hφ mergedKey).bind
  intro _ _
  have hdelete : Keeps (Parked L φ K) (delete w mergedKey) :=
    (discipline w hφ L K).delete (fun e he hk => ⟨he.1, hk ▸ hkey⟩)
  exact hdelete.bind (fun _ _ => Keeps.pure trivial)

theorem appendConsolidationAudit_keeps (plan : MergePlan) :
    Keeps (Parked L φ K) (appendConsolidationAudit w plan) := by
  apply ((discipline w hφ L K).appendAudit _ _).bind
  intro _ _
  apply Keeps.forEach
  intro sk _
  split
  · exact Keeps.pure trivial
  · exact (discipline w hφ L K).appendAudit _ _

/-- The merged row takes over the relations of its sources, then the sources are closed. -/
theorem linkSources_keeps {plan : MergePlan} (hkey : ¬ L plan.consolidated.key) :
    Keeps (Parked L φ K) (linkSources w plan) := by
  have hclose : Keeps (Parked L φ K) (do
      Prog.forEach (closeSource w plan.consolidated.key) plan.sources
      appendConsolidationAudit w plan) := by
    apply (Keeps.forEach _ (fun snap _ => closeSource_keeps hφ _ snap)).bind
    exact fun _ _ => appendConsolidationAudit_keeps hφ plan
  have hrelate : Keeps (Parked L φ K) (do
      let lists ← Prog.mapEach (getRelations w) (plan.sources.map (·.key))
      let merged := mergeEntryRelations w.unicode lists plan.consolidated.key
      if merged = [] then pure () else saveRelations w plan.consolidated.key merged
      Prog.forEach (closeSource w plan.consolidated.key) plan.sources
      appendConsolidationAudit w plan) := by
    apply (Keeps.mapEach _ (fun key _ => (discipline w hφ L K).getRelations key)).bind
    intro lists _
    dsimp only
    split
    · exact hclose
    · exact ((discipline w hφ L K).saveRelations _ _).bind (fun _ _ => hclose)
  have hpatch : ∀ f, Keeps (Parked L φ K) (updateFields w plan.consolidated.key (promotionPatch f)) := by
    intro f
    have hallows : (discipline w hφ L K).Allows plan.consolidated.key (promotionPatch f).apply :=
      fun e now he hk _ => ⟨⟨he.1, hk ▸ hkey⟩, ⟨he.1, hk ▸ hkey⟩⟩
    exact ((discipline w hφ L K).updateFields hallows).forget
  rw [linkSources]
  obtain ⟨resolved, fields, lost⟩ := resolveConsolidatedPromotionState plan.sources
  have hloss : Keeps (Parked L φ K) (do
      if lost then
        appendAudit w plan.consolidated.key
          (.promotionStatePartialLoss (plan.sources.map (·.key)) resolved)
      else pure ()
      let lists ← Prog.mapEach (getRelations w) (plan.sources.map (·.key))
      let merged := mergeEntryRelations w.unicode lists plan.consolidated.key
      if merged = [] then pure () else saveRelations w plan.consolidated.key merged
      Prog.forEach (closeSource w plan.consolidated.key) plan.sources
      appendConsolidationAudit w plan) := by
    dsimp only
    split
    · exact ((discipline w hφ L K).appendAudit _ _).bind (fun _ _ => hrelate)
    · exact hrelate
  cases fields with
  | none => exact hloss
  | some f => exact (hpatch f).bind (fun _ _ => hloss)

/-- A merge under a key that is not parked, with room for its row. -/
theorem persistConsolidatedEntry_keeps (hroom : Roomy w K)
    (hpolicy : ∀ key value entries, policyProceeds w key value entries = true) {plan : MergePlan}
    (hkey : ¬ L plan.consolidated.key) :
    Triple (Parked L φ K) (persistConsolidatedEntry w plan) (fun _ => Stowed L φ)
      (fun _ => Stowed L φ) := by
  simp only [persistConsolidatedEntry]
  split
  · exact Triple.raise (fun s hs => ⟨K, hs⟩)
  · have hsaved : Triple (Parked L φ K) (saveWith w (fun _ => pure ()) plan.consolidated.saveArgs)
        (fun _ => Stowed L φ) (fun _ => Stowed L φ) :=
      saveWith_keeps hφ hroom hpolicy hkey (fun _ hskip => nomatch hskip)
    apply hsaved.bind
    intro r
    cases r with
    | dict short => exact Triple.raise (fun _ h => h)
    | entry e =>
      dsimp only
      split
      · exact Triple.raise (fun _ h => h)
      · have hlink : Keeps (Stowed L φ) (Prog.rollback (linkSources w plan)
            (rollbackMerge w plan.consolidated.key (plan.sources.map (·.key)))) :=
          keptOf (fun K' => (linkSources_keeps hφ hkey).rollback (rollbackMerge_keeps hφ hkey _))
        exact hlink.mono (fun _ h => h) (fun _ _ h => h.1) (fun _ _ h => h)

/-- No plan of the similarity search names a parked key for the row it adds. -/
def MergesElsewhere (w : World) (L : String → Prop) : Prop :=
  ∀ e others plan, w.planMerge e others = some plan → ¬ L plan.consolidated.key

theorem maybeConsolidate_keeps (hroom : Roomy w K)
    (hpolicy : ∀ key value entries, policyProceeds w key value entries = true)
    (hmerge : MergesElsewhere w L) (entry : MemoryEntry) :
    Triple (Parked L φ K) (maybeConsolidate w entry) (fun _ => Stowed L φ) (fun _ => Stowed L φ) := by
  have hmark : ∀ b, Keeps (Stowed L φ)
      (Prog.modify (fun s : Store => { s with consolidationInProgress := b }) : StoreM Unit) :=
    fun b => Keeps.modify (fun s ⟨K', hs⟩ => ⟨K', hs.1, hs.2, hs.3, hs.4⟩)
  have hcheck : Triple (Parked L φ K) (checkConsolidationOnSave w entry) (fun _ => Stowed L φ)
      (fun _ => Stowed L φ) := by
    apply ((discipline w hφ L K).mergeDurableEntries false).then (fun _ s hs => ⟨K, hs⟩)
    intro _ _
    apply (discipline w hφ L K).snapshot.forget.then (fun _ s hs => ⟨K, hs⟩)
    intro entries _
    cases hplan : w.planMerge entry (entries.filter (fun e => e.key ≠ entry.key)) with
    | none => exact Triple.pure (fun s hs => ⟨K, hs⟩)
    | some plan => exact persistConsolidatedEntry_keeps hφ hroom hpolicy (hmerge _ _ plan hplan)
  have hbusy : Triple (Parked L φ K)
      (Prog.modify (fun s : Store => { s with consolidationInProgress := true }) : StoreM Unit)
      (fun _ => Parked L φ K) (fun _ => Stowed L φ) :=
    Triple.modify (fun s hs => ⟨hs.1, hs.2, hs.3, hs.4⟩)
  apply hbusy.bind
  intro _
  apply (hcheck.handle (fun _ => Triple.pure (fun _ h => h))).bind
  intro _
  exact (hmark false).mono (fun _ h => h) (fun _ _ h => h.1) (fun _ _ h => h)

/-- A save under a key that is not parked, with room for its row and for that of a merge. -/
theorem save_keeps {a : SaveArgs} (hroom : Roomy w K)
    (hroom' : w.consolidation.enabled = true → Roomy w (a.key :: K))
    (hpolicy : ∀ key value entries, policyProceeds w key value entries = true)
    (hmerge : MergesElsewhere w L) (hkey : ¬ L a.key) :
    Triple (Parked L φ K) (save w a) (fun _ => Stowed L φ) (fun _ => Stowed L φ) :=
  saveWith_keeps hφ hroom hpolicy hkey
    (fun hon _ e => maybeConsolidate_keeps hφ (hroom' hon) hpolicy hmerge e)

end Merge
end Parked
end TappsBrain
