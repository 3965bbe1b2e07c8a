import TappsBrain.Lib.Run
import TappsBrain.PointInTime
import TappsBrain.Scar

namespace TappsBrain
open Lib
set_option autoImplicit true
set_option relaxedAutoImplicit false

/-- The columns that decide whether an entry is live. -/
def MemoryEntry.liveness (e : MemoryEntry) :
    MemoryStatus × Option String × Option IsoText × Bool × Option String × Option String ×
      Option IsoText :=
  (e.status, e.staleReason, e.staleDate, e.contradicted, e.contradictionReason, e.supersededBy,
    e.invalidAt)

/-- `is_superseded`. -/
def isSuperseded (now : Stamp) (e : MemoryEntry) : Bool :=
  e.status = .superseded || e.supersededBy.isSome ||
    match e.invalidAt with
    | some (.at t) => t ≤ now
    | _ => false

/-- Calls of `undo_save_conflict`, each with its key and `dry_run`. -/
def undoStep (w : World) (call : String × Bool) : Store → Store :=
  (undoSaveConflict w call.1 call.2).final

/-- The save has closed the entry, in the cache and in the table. -/
structure ClosedBySave (w : World) (a : SaveArgs) (s : Store) (e : MemoryEntry) (t : Stamp) :
    Prop where
  shown : held w.toConfig s e.key = some e
  live : e.invalidAt = none
  closed : AllAt e.key (fun x => x.invalidAt = some (.at t)) ((save w a).final s)

/-- The store shows the entry again, as it was. -/
def RestoredIn (w : World) (e : MemoryEntry) (u : Store) : Prop :=
  ∃ e', held w.toConfig u e.key = some e' ∧ e'.liveness = e.liveness

section Closed
variable {w : World} {key : String} {i : Option IsoText}

theorem upserted_invalidAt (rows : Table MemoryEntry.key) (e : MemoryEntry) :
    (upserted rows e).invalidAt = e.invalidAt := by
  unfold upserted
  split <;> rfl

/-- Whatever the cache or the table holds under `key` is closed at `i`. -/
def shutAt (w : World) (key : String) (i : Option IsoText) : Discipline w :=
  AllAt.kept w key (φ := fun x => x.invalidAt = i)
    (fun row e he h => by
      rw [(rowToEntry_ok he).2]
      exact h)
    (fun rows e h => (upserted_invalidAt rows e).trans h)

/-- Undoing a conflict leaves the end of the validity where it is. -/
theorem undoStep_shut (call : String × Bool) {s : Store} (hs : (shutAt w key i).inv s) :
    (shutAt w key i).inv (undoStep w call s) := by
  have hundo : Keeps (shutAt w key i).inv (undoSaveConflict w call.1 call.2) := by
    apply (shutAt w key i).undoSaveConflict call.2
    intro e hsees _
    exact ⟨hsees, fun _ hk => hsees hk⟩
  exact hundo.final hs

/-- What the store shows of a key is closed as all it holds is. -/
theorem AllAt.held {e : MemoryEntry} {s : Store} (h : AllAt key (fun x => x.invalidAt = i) s)
    (he : held w.toConfig s key = some e) : e.invalidAt = i := by
  unfold TappsBrain.held at he
  cases hc : s.entries.get? key with
  | some x =>
    rw [hc, Option.some_or] at he
    cases he
    exact h.1 e (Table.mem_of_get? hc) (Table.key_of_get? hc)
  | none =>
    rw [hc, Option.none_or, loaded] at he
    obtain ⟨row, hrow, hre⟩ := Option.bind_eq_some_iff.1 he
    cases hr : rowToEntry w.toConfig row with
    | error err =>
      rw [hr] at hre
      cases hre
    | ok x =>
      rw [hr] at hre
      cases hre
      rw [(rowToEntry_ok hr).2]
      exact h.2 row (Table.mem_of_get? hrow) (Table.key_of_get? hrow)

theorem closed_not_valid {e : MemoryEntry} {t now : Stamp} (he : e.invalidAt = some (.at t))
    (hnow : t ≤ now) : isTemporallyValid now none e = false ∧ isSuperseded now e = true := by
  constructor
  · have hshut : stillOpen now (some (.at t)) = false := decide_eq_false (not_lt_of_ge hnow)
    rw [isTemporallyValid, Option.getD_none, asOfWindow, he, hshut, Bool.and_false, Bool.false_and,
      Bool.false_and]
  · rw [isSuperseded, he]
    dsimp only
    rw [decide_eq_true hnow, Bool.or_true]

theorem shutAt_allows {now : Stamp} (newKey : String) :
    (shutAt w key (some (.at now))).AllowsInvalidation newKey now := by
  intro e reason hsees _ _
  refine ⟨hsees, ?_⟩
  intro _
  rw [invalidatedBy, closeWith_invalidAt]

/-- A closing that is taken shuts the key. -/
theorem shut_of_closing {now : Stamp} (reason : String) (current : MemoryEntry) (u : Store) :
    AllAt current.key (fun x => x.invalidAt = some (.at now))
      (storeRow (invalidatedBy now reason current)
        { u.called with entries := u.entries.set (invalidatedBy now reason current) }) := by
  have hkey : (invalidatedBy now reason current).key = current.key := invalidatedBy_key _ _ _
  have hclosed : (invalidatedBy now reason current).invalidAt = some (.at now) := by
    rw [invalidatedBy, closeWith_invalidAt]
  apply AllAt.of_get?
  · intro e he
    change (u.entries.set _).get? _ = _ at he
    rw [← hkey, Table.get?_set_self] at he
    cases he
    exact hclosed
  · intro e he
    rw [← hkey, storeRow_get?_self] at he
    cases he
    exact (upserted_invalidAt _ _).trans hclosed

/-- A key shut before the rest of the plan runs is reported with the keys of the rest. -/
theorem invalidateRest_closes {now : Stamp} {rest : List (String × String)} {k j : String}
    (hk : k = j)
    (hfirst : Returns (AllAt k (fun x => x.invalidAt = some (.at now))) (invalidateAll w now rest)
      (fun _ => AllAt k (fun x => x.invalidAt = some (.at now))))
    (hrest : Returns (fun _ => True) (invalidateAll w now rest) (fun r s => ∀ keys, r = some keys →
      ∀ k ∈ keys, AllAt k (fun x => x.invalidAt = some (.at now)) s)) :
    Returns (AllAt k (fun x => x.invalidAt = some (.at now))) (do
      match ← invalidateAll w now rest with
      | none => pure none
      | some keys => pure (some (j :: keys)))
      (fun r s => ∀ keys, r = some keys →
        ∀ k ∈ keys, AllAt k (fun x => x.invalidAt = some (.at now)) s) := by
  apply ((hfirst.and hrest).mono (fun _ h => ⟨h, trivial⟩) (fun _ _ => id)
    (fun _ _ _ => trivial)).bind
  intro r
  cases r with
  | none =>
    apply Triple.pure
    intro s _ keys hkeys
    cases hkeys
  | some keys =>
    apply Triple.pure
    intro s hs keys' hkeys k hin
    cases hkeys
    rcases List.mem_cons.1 hin with rfl | hin
    · exact hk ▸ hs.1
    · exact hs.2 keys rfl k hin

/-- The keys the invalidation loop reports are shut at the instant of the plan. -/
theorem invalidateAll_closes {now : Stamp} {newKey : String} (plan : List (String × String))
    (hplan : ∀ p ∈ plan, p.1 ≠ newKey) :
    Returns (fun _ => True) (invalidateAll w now plan) (fun r s => ∀ keys, r = some keys →
      ∀ k ∈ keys, AllAt k (fun x => x.invalidAt = some (.at now)) s) := by
  induction plan with
  | nil =>
    apply Triple.pure
    intro s _ keys hkeys k hk
    cases hkeys
    cases hk
  | cons p rest ih =>
    have hrest : ∀ p' ∈ rest, p'.1 ≠ newKey := fun p' hp' => hplan p' (List.mem_cons_of_mem p hp')
    intro s _
    rw [invalidateAll, Prog.bind_run, getEntry_run]
    dsimp only
    cases hc : s.entries.get? p.1 with
    | none => exact ih hrest s trivial
    | some current =>
      dsimp only
      cases hi : current.invalidAt.isSome with
      | true => exact ih hrest s trivial
      | false =>
        have hk : current.key = p.1 := Table.key_of_get? hc
        rw [← hk] at hc
        rw [if_neg Bool.false_ne_true, Prog.bind_run,
          invalidateOne_run w (invalidatedBy_key now p.2 current) hc]
        cases ha : accepts w s (invalidatedBy now p.2 current) with
        | false =>
          intro keys hkeys
          cases hkeys
        | true =>
          have hfirst : Returns (AllAt current.key (fun x => x.invalidAt = some (.at now)))
              (invalidateAll w now rest)
              (fun _ => AllAt current.key (fun x => x.invalidAt = some (.at now))) := by
            have hkeeps : Keeps (shutAt w current.key (some (.at now))).inv
                (invalidateAll w now rest) :=
              (shutAt w current.key (some (.at now))).invalidateAll (shutAt_allows newKey) rest hrest
            exact hkeeps.returns.mono (fun _ => id) (fun _ _ h => h.1) (fun _ _ => id)
          exact invalidateRest_closes hk hfirst (ih hrest) _ (shut_of_closing p.2 current s)

/-- The entries a save reports as invalidated are closed, in the cache and in the table. -/
theorem handleConflicts_closes (value tier : String) (conflictCheck : Bool) :
    Returns (fun _ => True) (handleConflicts w key value tier conflictCheck) (fun o s =>
      ∀ k ∈ o.invalidatedKeys, ∃ now, o.validAt = some now ∧
        AllAt k (fun x => x.invalidAt = some (.at now)) s) := by
  unfold handleConflicts
  split
  · apply Triple.pure
    intro s _ k hk
    cases hk
  · have hplan : Returns (fun _ => True) (planFor w key value tier) (fun r _ => ∀ plan,
        r = some plan → ∀ p ∈ plan.invalidations, p.1 ≠ key) :=
      ((AllAt.kept w key (φ := fun _ => True) (fun _ _ _ => id)
        (fun _ _ => id)).planFor key value tier).returns.mono
          (fun _ _ => ⟨fun _ _ _ => trivial, fun _ _ _ => trivial⟩)
          (fun _ _ h plan hp => (h.2 plan hp).2) (fun _ _ => id)
    apply hplan.bind
    intro r
    cases r with
    | none =>
      apply Triple.pure
      intro s _ k hk
      cases hk
    | some plan =>
      apply Triple.assume (F := ∀ p ∈ plan.invalidations, p.1 ≠ key) _ |>.mono
        (fun _ h => ⟨h plan rfl, trivial⟩) (fun _ _ => id) (fun _ _ => id)
      intro hkeys
      apply (invalidateAll_closes plan.invalidations hkeys).bind
      intro r
      cases r with
      | none =>
        apply Triple.pure
        intro s _ k hk
        cases hk
      | some keys =>
        have haudits : Keeps (fun s => ∀ k ∈ keys,
            AllAt k (fun x => x.invalidAt = some (.at plan.now)) s)
            (Prog.forEach (closeConflictAudit w plan.now) keys) := by
          apply Keeps.forEach
          exact fun k _ => keeps_appendAudit ⟨fun _ h => h, fun _ h => h, fun _ h => h,
            fun _ _ h => h, fun _ _ h => h, fun _ _ h => h⟩
        apply Triple.bind (haudits.returns.mono (fun _ h => h keys rfl) (fun _ _ => id) (fun _ _ => id))
        intro _
        apply Triple.pure
        intro s hs k hk
        exact ⟨plan.now, rfl, hs.1 k hk⟩

end Closed

/-- The first of two notes that count as similar. -/
def databaseSave : SaveArgs := { key := "db", value := "postgres 16" }

def storageSave : SaveArgs := { key := "store", value := "mysql 8" }

/-- The store that holds the first note. -/
def firstNote : Store := (save Config.similar.calm databaseSave).final {}

/-- The store after the second note was saved. -/
def bothNotes : Store := (save Config.similar.calm storageSave).final firstNote

end TappsBrain
