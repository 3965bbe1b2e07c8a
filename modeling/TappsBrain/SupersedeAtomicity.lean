import TappsBrain.PassDiscipline
import TappsBrain.RelationFrame
import TappsBrain.SaveAtomicity

namespace TappsBrain
open Lib
set_option autoImplicit true
set_option relaxedAutoImplicit false

/-- Every cached entry, every durable row and every relation is as it was. -/
structure Restored (c : Config) (s t : Store) : Prop where
  untouched : Untouched c anyKey s t
  relations : SameRelations s t

/-- The save answered with a row of `key`. -/
def answersFor (key : String) : Except Raised SaveResult → Bool
  | .ok (.entry e) => e.key = key
  | _ => false

/-- The row that the reopening save leaves of the old entry. -/
def reopenedRow (w : World) (old : MemoryEntry) (s : Store) : Option MemoryEntry :=
  if accepts w s old then some (upserted s.rows old) else s.rows.get? old.key

/-- The save of the new row, run from `u` where the old row is closed, does not answer with that
row and leaves alone what is not the old row; the reopening save writes back what was there. -/
structure AbortsCleanly (w : World) (a : SaveArgs) (old : MemoryEntry) (s u : Store) : Prop where
  answer : answersFor a.key (save w a u).1 = false
  others : Untouched w.toConfig (· ≠ old.key) s (save w a u).2
  relations : SameRelations s (save w a u).2
  reopened : reopenedRow w old (save w a u).2 = s.rows.get? old.key

/-- `supersede` closes the old row and does not abort cleanly from there. -/
def SupersedeHarms (w : World) (oldKey newValue : String) (kw : SaveKwargs) (s : Store) : Prop :=
  Leads (closeOld w oldKey kw) s (fun c u =>
    ¬ AbortsCleanly w (supersedeArgs c.old c.newKey newValue kw) c.old s u)

section Closing
variable {w : World} {s : Store} {oldKey : String} {kw : SaveKwargs}

/-- The old row is closed, and nothing else happened. -/
structure OldClosed (w : World) (s : Store) (oldKey : String) (c : ClosedOld) (u : Store) : Prop where
  key : c.old.key = oldKey
  held : held w.toConfig s oldKey = some c.old
  others : Untouched w.toConfig (· ≠ oldKey) s u
  relations : SameRelations s u
  scar : ∀ key, oldKey ≠ key → Scar w key s u

theorem supersededRow_key (now : Stamp) (newKey : String) (old : MemoryEntry) :
    (supersededRow now newKey old).key = old.key := closeWith_key _ _ _ _ _ _

theorem oldClosed_of_taken {t : Store} {old : MemoryEntry} (ht : Untouched w.toConfig anyKey s t)
    (hrel : SameRelations s t) (hold : t.entries.get? oldKey = some old)
    (hheld : held w.toConfig s oldKey = some old) (hopen : old.invalidAt.isSome = false)
    (now : Stamp) (newKey : String) :
    OldClosed w s oldKey { now, old, newKey } (storeRow (supersededRow now newKey old)
      { t.called with entries := t.entries.set (supersededRow now newKey old) }) := by
  have hkey : old.key = oldKey := Table.key_of_get? hold
  have hk : (supersededRow now newKey old).key = old.key := supersededRow_key now newKey old
  have hclosed : (supersededRow now newKey old).invalidAt.isSome = true := by
    rw [supersededRow, closeWith_invalidAt]
    rfl
  refine ⟨hkey, hheld, ⟨fun k hne => ?_, fun k hne => ?_⟩, hrel, fun key hne => ?_⟩
  · have hne' : (supersededRow now newKey old).key ≠ k := by
      rw [hk, hkey]
      exact Ne.symm hne
    exact (storeRow_get?_ne hne' _).trans (ht.rows k trivial)
  · have hne' : (supersededRow now newKey old).key ≠ k := by
      rw [hk, hkey]
      exact Ne.symm hne
    have hset := Table.get?_set_ne t.entries hne'
    rcases ht.entries k trivial with he | ⟨hs, hl⟩
    · exact .inl (hset.trans he)
    · exact .inr ⟨hs, hset.trans hl⟩
  · apply Scar.of_closing hk hclosed ht (hkey.symm ▸ hold) _ hopen
    rw [hkey]
    exact hne

/-- The closing takes effect whole, or everything is as it was. -/
theorem closeOld_closes :
    Triple (fun t => t = s) (closeOld w oldKey kw) (OldClosed w s oldKey)
      (fun _ => Restored w.toConfig s) := by
  intro t ht
  subst ht
  have hticked : Untouched w.toConfig anyKey t { t with ticks := t.ticks + 1 } :=
    ⟨fun _ _ => rfl, fun _ _ => .inl rfl⟩
  have hshown := (@ensureEntryCached_held w anyKey t oldKey trivial)
    _ hticked
  have hensure : Keeps (SameRelations t) (ensureEntryCached w oldKey) :=
    SameRelations.ensureEntryCached
  have hrel := hensure
    { t with ticks := t.ticks + 1 } ⟨rfl, rfl⟩
  unfold closeOld
  rw [Prog.bind_run, utcNow_run]
  dsimp only
  rw [Prog.bind_run]
  rcases hr : ensureEntryCached w oldKey { t with ticks := t.ticks + 1 } with ⟨err | r, u⟩
  · rw [hr] at hshown hrel
    exact ⟨hshown.1, hrel⟩
  · rw [hr] at hshown hrel
    obtain ⟨hu, hcached, hheld⟩ := hshown
    cases r with
    | none => exact ⟨hu, hrel.1⟩
    | some old =>
      dsimp only
      cases hopen : old.invalidAt.isSome with
      | true => exact ⟨hu, hrel.1⟩
      | false =>
        simp only [Bool.false_eq_true, ↓reduceIte]
        have hkey : old.key = oldKey := Table.key_of_get? hcached
        rw [Prog.bind_run, snapshot, Prog.read_run]
        dsimp only
        rw [Prog.bind_run, rewriteEntry_run w (supersededRow_key _ _ old) (hkey.symm ▸ hcached)]
        cases accepts w u (supersededRow (w.clock t.ticks)
            (supersedingKey oldKey kw u.entries.values) old) with
        | false => exact ⟨⟨hu.rows, hu.entries⟩, hrel.1⟩
        | true => exact oldClosed_of_taken hu hrel.1 hcached hheld.symm hopen _ _

end Closing
section Reopening
variable {w : World} {s u : Store} {old : MemoryEntry}

theorem reopenOld_run (w : World) (old : MemoryEntry) (u : Store) :
    reopenOld w old u = (.ok (), if accepts w u old then
        storeRow old { u.called with entries := u.entries.set old }
      else { u.called with entries := u.entries.set old }) := by
  unfold reopenOld
  rw [Prog.bind_run, setEntry_run]
  dsimp only
  rw [saveRow_swallowed]
  rw [show accepts w { u with entries := u.entries.set old } old = accepts w u old from rfl]
  cases accepts w u old <;> rfl

theorem reopenOld_row (w : World) (old : MemoryEntry) (u : Store) (key : String) :
    (reopenOld w old u).2.rows.get? key =
      if old.key = key then reopenedRow w old u else u.rows.get? key := by
  rw [reopenOld_run, reopenedRow]
  cases accepts w u old with
  | true =>
    simp only [↓reduceIte]
    by_cases hk : old.key = key
    · rw [if_pos hk, ← hk]
      exact storeRow_get?_self old _
    · rw [if_neg hk]
      exact storeRow_get?_ne hk _
  | false =>
    simp only [Bool.false_eq_true, ↓reduceIte]
    split
    · next hk => rw [hk]; rfl
    · rfl

theorem reopenOld_entries (w : World) (old : MemoryEntry) (u : Store) :
    (reopenOld w old u).2.entries = u.entries.set old := by
  rw [reopenOld_run]
  cases accepts w u old <;> rfl

theorem reopenOld_sameRelations :
    SameRelations s (reopenOld w old u).2 ↔ SameRelations s u := by
  rw [reopenOld_run]
  cases accepts w u old <;> rfl

/-- Reopening restores everything exactly when only the old row had changed and it comes back. -/
theorem reopenOld_restored_iff (hheld : held w.toConfig s old.key = some old) :
    Restored w.toConfig s (reopenOld w old u).2 ↔ Untouched w.toConfig (· ≠ old.key) s u ∧
      SameRelations s u ∧ reopenedRow w old u = s.rows.get? old.key := by
  have hself : (u.entries.set old).get? old.key = some old := Table.get?_set_self _ _
  constructor
  · rintro ⟨hu, hrel⟩
    refine ⟨⟨fun k hne => ?_, fun k hne => ?_⟩, reopenOld_sameRelations.1 hrel, ?_⟩
    · have hrow := hu.rows k trivial
      rwa [reopenOld_row, if_neg (Ne.symm hne)] at hrow
    · have hentry := hu.entries k trivial
      rwa [reopenOld_entries, Table.get?_set_ne _ (Ne.symm hne)] at hentry
    · have hrow := hu.rows old.key trivial
      rwa [reopenOld_row, if_pos rfl] at hrow
  · rintro ⟨hu, hrel, hback⟩
    refine ⟨@Untouched.of_slot _ _ _ old.key ⟨fun k hne => ?_, fun k hne => ?_⟩ ?_ ?_,
      reopenOld_sameRelations.2 hrel⟩
    · rw [reopenOld_row, if_neg (Ne.symm hne)]
      exact hu.rows k hne
    · rw [reopenOld_entries, Table.get?_set_ne _ (Ne.symm hne)]
      exact hu.entries k hne
    · rw [reopenOld_row, if_pos rfl]
      exact hback
    · rw [reopenOld_entries, hself, hheld]

end Reopening
section Late
variable {w : World} {s : Store} {a : SaveArgs}

theorem storePrepared_key (consolidate : MemoryEntry → StoreM Unit) (p : SavePrep) :
    Returns (fun _ => True) (storePrepared w consolidate a p)
      (fun e _ => e.key = (preparedArgs a p).key) := by
  have hbuilt : Returns (fun _ => True) (buildAndAssignEntry w (preparedArgs a p) p.mgExplicit)
      (fun r _ => r.1.key = (preparedArgs a p).key) := by
    intro t _
    have h := buildAndAssignEntry_built (w := w) (a := preparedArgs a p) p.mgExplicit t
      (Untouched.refl t)
    rcases hr : buildAndAssignEntry w (preparedArgs a p) p.mgExplicit t with ⟨err | r, u⟩
    · trivial
    · rw [hr] at h
      exact h.2.1
  apply Returns.bind hbuilt
  intro r
  apply Keeps.constant.then (fun _ _ _ => trivial)
  intro _ _
  apply Keeps.constant.then (fun _ _ _ => trivial)
  intro _ _
  exact Triple.pure (fun _ h => h)

-- Unfolding `Triple` would run the program it speaks of.
attribute [local irreducible] Triple

theorem scar_prepareSave (key : String) : Keeps (Scar w key s) (prepareSave w a) := by
  apply Scar.keeps
  intro j φ _ hφ
  have hreinforce (k : String) : (AllAt.discipline w j hφ).AllowsReinforce k 0 := by
    constructor
    · intro e now hsees _ _
      refine ⟨hsees, fun hk => hφ.reinforced 0 now e (hsees ?_)⟩
      rwa [reinforced_key] at hk
    · intro e at₁ at₂ at₃ target hsees _ _ _ _ hk
      refine hφ.promoted target at₃ _ (hφ.reinforced 0 at₁ e (hsees ?_))
      rwa [promoted_key, reinforced_key] at hk
  have hclose (k : String) (now : Stamp) : (AllAt.discipline w j hφ).AllowsInvalidation k now := by
    intro e reason hsees _ _
    refine ⟨hsees, fun hk => hφ.invalidated now reason e (hsees ?_)⟩
    rwa [invalidatedBy_key] at hk
  exact ((AllAt.discipline w j hφ).prepareSave a (fun _ h => h)
    (fun k => ⟨hreinforce k, fun now _ => hclose k now⟩)).forget

/-- Storing a row of `key` leaves scars on other keys where they are. -/
theorem scar_storePrepared_keeps {key : String} {p : SavePrep} (hskip : a.skipConsolidation = true)
    (hkey : (preparedArgs a p).key = key) :
    Keeps (Scar w key s) (storePrepared w (maybeConsolidate w) a p) := by
  apply Scar.keeps
  intro j φ hj hφ
  refine ((AllAt.discipline w j hφ).storePrepared (fun _ h => h) ?_ ?_).forget
  · intro existing mg now tierVal e _ _ he hk
    rw [stampIntegrityHash_key, constructMemoryEntry_key he, hkey] at hk
    exact absurd hk.symm hj
  · exact fun _ h => Bool.noConfusion (h.symm.trans hskip)

/-- A save that answers with a row of `key` leaves scars on other keys where they are. -/
theorem scar_save (key : String) (hskip : a.skipConsolidation = true) :
    Returns (Scar w key s) (save w a)
      (fun r t => answersFor key (.ok r) = true → Scar w key s t) := by
  unfold save saveWith
  split
  · exact Returns.raise
  · apply Returns.bind (scar_prepareSave key).returns
    intro r
    rcases r with short | p
    · have hanswer : Keeps (Scar w key s) (answerShort short) :=
        Scar.keeps (fun j _ _ hφ => (AllAt.discipline w j hφ).answerShort_keeps short)
      exact (hanswer.returns).mono (fun _ h => h.1) (fun _ _ h _ => h.1) (fun _ _ => id)
    · have hstore : Returns (Scar w key s)
          (storePrepared w (maybeConsolidate w) (inferredArgs w.toConfig a) p)
          (fun e t => e.key = key → Scar w key s t) := by
        by_cases hkey : (preparedArgs (inferredArgs w.toConfig a) p).key = key
        · exact (scar_storePrepared_keeps (a := inferredArgs w.toConfig a) hskip hkey).returns.mono
            (fun _ => id) (fun _ _ h _ => h.1) (fun _ _ => id)
        · exact (storePrepared_key (maybeConsolidate w) p).mono (fun _ _ => trivial)
            (fun _ _ h hk => absurd (h.symm.trans hk) hkey) (fun _ _ => id)
      apply Triple.mono (Returns.bind hstore (fun e => Triple.pure ?_)) (fun _ h => h.1)
        (fun _ _ => id) (fun _ _ => id)
      exact fun _ h hans => h (of_decide_eq_true hans)

theorem scar_finishSupersede {now : Stamp} {oldKey : String} {e : MemoryEntry} :
    Keeps (Scar w e.key s) (finishSupersede w now oldKey e) :=
  Scar.keeps (fun j _ hj hφ => (AllAt.discipline w j hφ).finishSupersede
    (fun hk => absurd hk.symm hj) (fun hk => absurd hk.symm hj))

end Late
section Supersede
variable {w : World} {s t u : Store} {oldKey newValue : String} {kw : SaveKwargs}

/-- After the closing, `supersede` raises once it has reopened the old row, or after its save. -/
theorem writeSuperseding_error {now : Stamp} {old : MemoryEntry} {a : SaveArgs} {err : Raised}
    (h : writeSuperseding w now old a u = (.error err, t)) :
    (answersFor a.key (save w a u).1 = false ∧ t = (reopenOld w old (save w a u).2).2) ∨
      ∃ e, (save w a u).1 = .ok (.entry e) ∧ e.key = a.key ∧
        finishSupersede w now old.key e (save w a u).2 = (.error err, t) := by
  unfold writeSuperseding Prog.rollback at h
  rw [Prog.bind_run, Prog.handle_run] at h
  rcases hr : save w a u with ⟨err' | e | short, v⟩
  · rw [hr] at h
    dsimp only at h
    rw [Prog.bind_run, reopenOld_run] at h
    cases h
    left
    rw [reopenOld_run]
    exact ⟨rfl, rfl⟩
  · rw [hr] at h
    dsimp only at h
    by_cases hkey : e.key = a.key
    · right
      rw [if_neg (not_not.2 hkey)] at h
      exact ⟨e, rfl, hkey, h⟩
    · rw [if_pos hkey, Prog.bind_run, reopenOld_run] at h
      cases h
      left
      rw [reopenOld_run]
      exact ⟨decide_eq_false hkey, rfl⟩
  · rw [hr] at h
    dsimp only at h
    rw [Prog.bind_run, reopenOld_run] at h
    cases h
    left
    rw [reopenOld_run]
    exact ⟨rfl, rfl⟩

theorem supersedingKey_ne (entries : List MemoryEntry) (h : kw.key ≠ some oldKey) :
    supersedingKey oldKey kw entries ≠ oldKey := by
  unfold supersedingKey
  cases hk : kw.key with
  | some key =>
    intro heq
    rw [hk] at h
    exact h (congrArg some heq)
  | none =>
    intro heq
    have hlen := congrArg String.length heq
    simp only [Option.getD_none, String.length_append, toString] at hlen
    have hv : ".v".length = 2 := rfl
    omega

theorem closeOld_newKey (h : kw.key ≠ some oldKey) :
    Returns (fun _ => True) (closeOld w oldKey kw) (fun c _ => c.newKey ≠ oldKey) := by
  apply Returns.bind Returns.any
  intro now
  apply Returns.bind Returns.any
  intro r
  cases r with
  | none => exact Returns.raise
  | some old =>
    dsimp only
    split
    · exact Returns.raise
    · apply Returns.bind Returns.any
      intro entries
      apply Returns.bind Returns.any
      intro _
      exact Triple.pure (fun _ _ => supersedingKey_ne entries h)

theorem restored_of_aborts {c : ClosedOld} {a : SaveArgs} {now : Stamp} {err : Raised}
    (hc : OldClosed w s oldKey c u) (h : AbortsCleanly w a c.old s u)
    (hrun : writeSuperseding w now c.old a u = (.error err, t)) : Restored w.toConfig s t := by
  rcases writeSuperseding_error hrun with ⟨_, rfl⟩ | ⟨e, hr, hkey, _⟩
  · apply (reopenOld_restored_iff _).2 ⟨h.others, h.relations, h.reopened⟩
    rw [hc.key]
    exact hc.held
  · have hanswer := h.answer
    rw [hr, answersFor, decide_eq_false_iff_not] at hanswer
    exact absurd hkey hanswer

theorem aborts_of_restored {c : ClosedOld} {a : SaveArgs} {now : Stamp} {err : Raised}
    (hskip : a.skipConsolidation = true) (hc : OldClosed w s oldKey c u) (hne : oldKey ≠ a.key)
    (hrun : writeSuperseding w now c.old a u = (.error err, t)) (h : Restored w.toConfig s t) :
    AbortsCleanly w a c.old s u := by
  rcases writeSuperseding_error hrun with ⟨hanswer, rfl⟩ | ⟨e, hr, hkey, hfinish⟩
  · have hiff := @reopenOld_restored_iff w s (save w a u).2 c.old
      (by rw [hc.key]; exact hc.held)
    obtain ⟨hothers, hrel, hback⟩ := hiff.1 h
    exact ⟨hanswer, hothers, hrel, hback⟩
  · -- the row of the old key stays closed to the end
    have hscar : Scar w e.key s (save w a u).2 := by
      rw [hkey]
      have hsave := scar_save (w := w) (s := s) a.key hskip u (hc.scar a.key hne)
      rcases hs : save w a u with ⟨err' | r, v⟩
      · rw [hs] at hr
        cases hr
      · rw [hs] at hr hsave
        cases hr
        exact hsave (decide_eq_true hkey)
    exact absurd h.untouched ((scar_finishSupersede.triple (fun _ _ hs => hs.harm)).error hscar hfinish)

/-- Nothing at all has changed. -/
def Unchanged (s t : Store) : Prop := SameEverywhere s t ∧ SameRelations s t

end Supersede
/-- A calm environment in which one backend call alone is refused. -/
def refusing (n : Nat) : World := { Config.plain.calm with refuses := fun m => m = n }

def greenStore : Store :=
  (save Config.plain.calm { key := "a", value := "the build is green" }).final {}

def alone : SaveKwargs := { skipConsolidation := some true }

def raised : Except Raised MemoryEntry → Option Raised
  | .ok _ => none
  | .error err => some err

theorem raised_eq_some {r : Except Raised MemoryEntry} {err : Raised} (h : raised r = some err) :
    r = .error err := by
  cases r with
  | ok e => cases h
  | error err' => exact congrArg Except.error (Option.some.inj h)

end TappsBrain
