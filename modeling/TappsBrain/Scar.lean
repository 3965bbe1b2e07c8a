import TappsBrain.Lib.Abort
import TappsBrain.Liveness

namespace TappsBrain
open Lib
set_option autoImplicit true
set_option relaxedAutoImplicit false

/-- The row the restoring save leaves of a removed entry: none when it fails as well. -/
def putBackRow (w : World) (e : MemoryEntry) (s : Store) : Option MemoryEntry :=
  if accepts w s e then some e else none

/-- The removal of `e` would stop halfway, its row deleted and its relations refused, and would not
put back the row that was there. -/
def RemovalLoses (w : World) (e : MemoryEntry) (s : Store) : Prop :=
  w.refuses s.calls = false ∧ w.refuses (s.calls + 1) = true ∧
    putBackRow w e s.called.called ≠ s.rows.get? e.key

/-- The removal of `e` would take effect. -/
def RemovalTakes (w : World) (s : Store) : Prop :=
  w.refuses s.calls = false ∧ w.refuses (s.calls + 1) = false

/-- The first row the invalidation loop would write. -/
def firstClosing (now : Stamp) : List (String × String) → Store → Option MemoryEntry
  | [], _ => none
  | (key, reason) :: rest, s =>
    match s.entries.get? key with
    | none => firstClosing now rest s
    | some current =>
      if current.invalidAt.isSome then firstClosing now rest s
      else some (invalidatedBy now reason current)

/-- The conflict phase would close a row: the backend takes the first closing. -/
def ConflictCloses (w : World) (key value tier : String) (conflictCheck : Bool) (s : Store) : Prop :=
  conflictCheck = true ∧ Leads (planFor w key value tier) s (fun r t =>
    ∃ plan e, r = some plan ∧ firstClosing plan.now plan.invalidations t = some e ∧
      accepts w t e = true)

/-- The verdict deletes an entry, and the deletion would lose its row. -/
def VerdictLoses (w : World) (r : WriteResult) (s : Store) : Prop :=
  ∃ e, r.decision = .delete ∧ namedTarget r.targetKey = some e.key ∧
    s.entries.get? e.key = some e ∧ RemovalLoses w e s

/-- A judged deletion would lose the row of its target. -/
def PolicyLoses (w : World) (key value : String) (s : Store) : Prop :=
  match w.writePolicy with
  | .deterministic => False
  | .judged decide => Leads (mergeDurableEntries w false) s (fun _ t =>
      VerdictLoses w (decide key value t.entries.values) t)

section Removal
variable {w : World} {s : Store} {e : MemoryEntry}

theorem saveRow_swallowed (w : World) (e : MemoryEntry) (s : Store) :
    Prog.swallow (saveRow w e) s =
      (.ok (), if accepts w s e then storeRow e s.called else s.called) := by
  unfold Prog.swallow
  rw [Prog.handle_run, saveRow_run]
  cases accepts w s e <;> rfl

/-- The store once a removal that failed at its second step has put the entry back. -/
def putBack (w : World) (e : MemoryEntry) (s : Store) : Store :=
  let popped := { s.called.called with
    entries := (s.entries.pop e.key).set e, rows := s.rows.pop e.key }
  if accepts w popped e then storeRow e popped.called else popped.called

theorem putBack_entries (w : World) (e : MemoryEntry) (s : Store) :
    (putBack w e s).entries = (s.entries.pop e.key).set e := by
  unfold putBack
  dsimp only
  split <;> rfl

theorem putBack_row (w : World) (e : MemoryEntry) (s : Store) (key : String) :
    (putBack w e s).rows.get? key =
      if e.key = key then putBackRow w e s.called.called else s.rows.get? key := by
  unfold putBack putBackRow
  have hacc : accepts w { s.called.called with
      entries := (s.entries.pop e.key).set e, rows := s.rows.pop e.key } e =
    accepts w s.called.called e := rfl
  have hnew : upserted (s.rows.pop e.key) e = e := by
    unfold upserted
    rw [Table.get?_pop, if_pos rfl]
  dsimp only
  rw [hacc]
  cases accepts w s.called.called e with
  | true =>
    simp only [↓reduceIte, storeRow, Store.called_rows, hnew, Table.get?_set, Table.get?_pop]
    split <;> rfl
  | false => simp only [Bool.false_eq_true, ↓reduceIte, Store.called_rows, Table.get?_pop]

theorem removeDurably_run (w : World) (e : MemoryEntry) (s : Store) :
    removeDurably w e.key (some e) s =
      if w.refuses s.calls then
        (.error .backend, { s.called with entries := (s.entries.pop e.key).set e })
      else if w.refuses (s.calls + 1) then
        (.error .backend, putBack w e s)
      else
        (.ok (), { s.called.called with
          entries := s.entries.pop e.key
          rows := s.rows.pop e.key
          relationRows := s.relationRows.filter (fun r => !r.sourceEntryKeys.contains e.key) }) := by
  unfold removeDurably deleteRelationsOrRestore deleteRelationRows Prog.rollback restoreSlot
  simp only [Prog.bind_run, popEntry_run, Prog.handle_run, deleteRow_run]
  cases h0 : w.refuses s.calls with
  | true => simp only [↓reduceIte, setEntry_run, Prog.raise_run]; rfl
  | false =>
    simp only [Bool.false_eq_true, ↓reduceIte, backendCall_run, Store.called_calls]
    cases h1 : w.refuses (s.calls + 1) with
    | true =>
      simp only [↓reduceIte, setEntry_run, saveRow_swallowed, Prog.raise_run]
      rfl
    | false => simp only [Bool.false_eq_true, ↓reduceIte, Prog.modify_run]; rfl

/-- Neither the cache nor the table holds `key`. -/
def Gone (key : String) (s : Store) : Prop :=
  s.entries.get? key = none ∧ s.rows.get? key = none

theorem removeDurably_ok {t : Store} (hr : removeDurably w e.key (some e) s = (.ok (), t)) :
    RemovalTakes w s ∧ Gone e.key t := by
  rw [removeDurably_run] at hr
  split at hr
  · cases hr
  split at hr
  · cases hr
  · next h0 h1 =>
    cases hr
    refine ⟨⟨by simpa using h0, by simpa using h1⟩, ?_, ?_⟩
    · simp only [Table.get?_pop, ↓reduceIte]
    · simp only [Table.get?_pop, ↓reduceIte]

theorem Untouched.of_get? {c : Config} {s t u : Store} (h : Untouched c anyKey s t)
    (hrows : ∀ key, u.rows.get? key = t.rows.get? key)
    (hentries : ∀ key, u.entries.get? key = t.entries.get? key) : Untouched c anyKey s u where
  rows := fun key hk => (hrows key).trans (h.rows key hk)
  entries := fun key hk => by
    rw [hentries key]
    exact h.entries key hk

/-- A removal that raises has put everything back, unless it lost the row. -/
theorem removeDurably_error {c : Config} {s₀ t : Store} {err : Raised}
    (hs : Untouched c anyKey s₀ s) (he : s.entries.get? e.key = some e)
    (hr : removeDurably w e.key (some e) s = (.error err, t)) :
    Untouched c anyKey s₀ t ↔ ¬ RemovalLoses w e s := by
  have hback := Table.get?_set_pop he
  rw [removeDurably_run] at hr
  split at hr
  · next h0 =>
    cases hr
    refine ⟨fun _ h => ?_, fun _ => hs.of_get? (fun _ => rfl) hback⟩
    rw [h.1] at h0
    cases h0
  split at hr
  · next h0 h1 =>
    cases hr
    have h0 : w.refuses s.calls = false := by simpa using h0
    have hrow := putBack_row w e s
    rw [RemovalLoses, not_and, not_and, not_not]
    constructor
    · intro ht _ _
      have := ht.rows e.key trivial
      rw [hrow, if_pos rfl, ← hs.rows e.key trivial] at this
      exact this
    · refine fun hput => hs.of_get? (fun key => ?_) (fun key => ?_)
      · rw [hrow]
        split
        · next heq =>
          subst heq
          exact hput h0 h1
        · rfl
      · rw [putBack_entries]
        exact hback key
  · cases hr

end Removal
/-- A property of entries that hydration, an upsert, a closing and a reinforcement all keep. -/
structure Lasting (c : Config) (φ : MemoryEntry → Prop) : Prop where
  hydrated : ∀ row e, rowToEntry c row = .ok e → φ row → φ e
  rewritten : ∀ rows e, φ e → φ (upserted rows e)
  invalidated : ∀ now reason e, φ e → φ (invalidatedBy now reason e)
  reinforced : ∀ boost now e, φ e → φ (reinforced c boost now e)
  promoted : ∀ target now e, φ e → φ (promoted c target now e)

theorem lasting_closed (c : Config) : Lasting c (fun e => e.invalidAt.isSome = true) where
  hydrated := by
    intro row e h hrow
    rw [(rowToEntry_ok h).2]
    exact hrow
  rewritten := by
    intro rows e h
    unfold upserted
    split <;> exact h
  invalidated := fun _ _ _ _ => by rw [invalidatedBy, closeWith_invalidAt]; rfl
  reinforced := by
    intro boost now e h
    have hl := reinforced_life c boost now e
    simp only [MemoryEntry.life, Prod.mk.injEq] at hl
    rw [hl.2.2.1]
    exact h
  promoted := fun _ _ _ h => h

theorem lasting_never (c : Config) : Lasting c (fun _ => False) :=
  ⟨fun _ _ _ h => h, fun _ _ h => h, fun _ _ _ h => h, fun _ _ _ h => h, fun _ _ _ h => h⟩

/-- Whatever the cache or the table holds under `key` is a `φ`. -/
def AllAt (key : String) (φ : MemoryEntry → Prop) (s : Store) : Prop :=
  (∀ e ∈ s.entries.values, e.key = key → φ e) ∧ ∀ e ∈ s.rows.values, e.key = key → φ e

def AllAt.kept (w : World) (key : String) {φ : MemoryEntry → Prop}
    (hydrated : ∀ row e, rowToEntry w.toConfig row = .ok e → φ row → φ e)
    (rewritten : ∀ rows e, φ e → φ (upserted rows e)) : Discipline w where
  inv := AllAt key φ
  sees := fun e => e.key = key → φ e
  writes := fun e => e.key = key → φ e
  frees := fun _ => True
  reads := fun _ => True
  bookkeeping := ⟨fun _ h => h, fun _ h => h, fun _ h => h, fun _ _ h => h, fun _ _ h => h,
    fun _ _ h => h⟩
  ignoresRelations := ⟨fun _ _ h => h, fun _ _ h => h⟩
  cached := fun s e h he => h.1 e he
  loads := by
    intro s row e h hrow he hk
    have hkey : e.key = row.key := by rw [(rowToEntry_ok he).2, normalised_key]
    exact hydrated row e he (h.2 row hrow (hkey ▸ hk))
  hydrate := by
    intro s row e h hrow he _
    refine ⟨fun e' he' hk => ?_, h.2⟩
    rcases Table.mem_set he' with rfl | hm
    · have hkey : e'.key = row.key := by rw [(rowToEntry_ok he).2, normalised_key]
      exact hydrated row e' he (h.2 row hrow (hkey ▸ hk))
    · exact h.1 e' hm hk
  assign := by
    intro s e h hw
    refine ⟨fun e' he' hk => ?_, h.2⟩
    rcases Table.mem_set he' with rfl | hm
    · exact hw hk
    · exact h.1 e' hm hk
  store := by
    intro s e h hw
    refine ⟨h.1, fun e' he' hk => ?_⟩
    rcases Table.mem_set he' with rfl | hm
    · exact rewritten s.rows e (hw ((upserted_key _ _).symm.trans hk))
    · exact h.2 e' hm hk
  pop := fun s _ h _ => ⟨fun e he => h.1 e (Table.mem_pop he), h.2⟩
  drop := fun s _ h _ => ⟨h.1, fun e he => h.2 e (Table.mem_pop he)⟩
  filter := fun s _ h _ => ⟨fun e he => h.1 e (List.mem_of_mem_filter he), h.2⟩
  frees_of_writes := fun _ _ => trivial
  reading := fun _ _ => trivial

def AllAt.discipline (w : World) (key : String) {φ : MemoryEntry → Prop}
    (hφ : Lasting w.toConfig φ) : Discipline w :=
  AllAt.kept w key hφ.hydrated hφ.rewritten

theorem AllAt.of_get? {key : String} {φ : MemoryEntry → Prop} {s : Store}
    (hentries : ∀ e, s.entries.get? key = some e → φ e)
    (hrows : ∀ e, s.rows.get? key = some e → φ e) : AllAt key φ s :=
  ⟨fun e he hk => hentries e (hk ▸ Table.get?_of_mem he),
    fun e he hk => hrows e (hk ▸ Table.get?_of_mem he)⟩

/-- Damage to a key other than `key` that the rest of a save of `key` does not mend. -/
def Scar (w : World) (key : String) (s t : Store) : Prop :=
  ∃ j φ, j ≠ key ∧ Lasting w.toConfig φ ∧ AllAt j φ t ∧
    ((∃ e, s.entries.get? j = some e ∧ ¬ φ e) ∨
      s.entries.get? j = none ∧ ∃ row, s.rows.get? j = some row ∧ ¬ φ row)

section Scar
variable {w : World} {key : String} {s t u : Store}

theorem Scar.harm (h : Scar w key s t) : ¬ Untouched w.toConfig anyKey s t := by
  obtain ⟨j, φ, _, _, hall, ⟨e, he, hφ⟩ | ⟨hnone, row, hrow, hφ⟩⟩ := h
  · intro hu
    rcases hu.entries j trivial with ht | ⟨hs, _⟩
    · rw [he] at ht
      exact hφ (hall.1 e (Table.mem_of_get? ht) (Table.key_of_get? ht))
    · rw [he] at hs
      cases hs
  · intro hu
    have ht := hu.rows j trivial
    rw [hrow] at ht
    exact hφ (hall.2 row (Table.mem_of_get? ht) (Table.key_of_get? ht))

/-- What happens to an entry the store shows untouched so far leaves a scar. -/
theorem Scar.of_shown {e : MemoryEntry} {φ : MemoryEntry → Prop} (hu : Untouched w.toConfig anyKey s u)
    (he : u.entries.get? e.key = some e) (hne : e.key ≠ key) (hφ : Lasting w.toConfig φ)
    (hbefore : ¬ φ e) (hafter : AllAt e.key φ t) : Scar w key s t := by
  refine ⟨e.key, φ, hne, hφ, hafter, ?_⟩
  rcases hu.entries e.key trivial with hs | ⟨hs, hl⟩
  · exact .inl ⟨e, hs.symm.trans he, hbefore⟩
  · rw [he, loaded] at hl
    obtain ⟨row, hrow, hre⟩ := Option.bind_eq_some_iff.1 hl.symm
    refine .inr ⟨hs, row, hrow, fun h => hbefore ?_⟩
    cases hr : rowToEntry w.toConfig row with
    | error err =>
      rw [hr] at hre
      cases hre
    | ok e' =>
      rw [hr] at hre
      cases hre
      exact hφ.hydrated row _ hr h

theorem Scar.keeps {p : StoreM α} {Q : α → Prop}
    (h : ∀ j φ, j ≠ key → Lasting w.toConfig φ → Keeps (AllAt j φ) p Q) :
    Keeps (Scar w key s) p Q := by
  rintro t ⟨j, φ, hne, hφ, hall, hwas⟩
  have hp := h j φ hne hφ t hall
  rcases hr : p t with ⟨err | a, u⟩
  · rw [hr] at hp
    exact ⟨j, φ, hne, hφ, hp, hwas⟩
  · rw [hr] at hp
    exact ⟨⟨j, φ, hne, hφ, hp.1, hwas⟩, hp.2⟩

/-- A program that only leaves scars where they are does not mend the damage. -/
theorem Scar.harms {p : StoreM α} (h : Keeps (Scar w key s) p) :
    Triple (Scar w key s) p (fun _ => Scar w key s)
      (fun _ t => ¬ Untouched w.toConfig anyKey s t) :=
  (h.triple (fun _ _ hs => hs.harm)).mono (fun _ => id) (fun _ _ hs => hs.1) (fun _ _ => id)

/-- A row that was open before and is closed in the cache and in the table. -/
theorem Scar.of_closing {current closed : MemoryEntry} (hk : closed.key = current.key)
    (hclosed : closed.invalidAt.isSome = true)
    (hu : Untouched w.toConfig anyKey s u) (hc : u.entries.get? current.key = some current)
    (hne : current.key ≠ key) (hopen : current.invalidAt.isSome = false) :
    Scar w key s (storeRow closed { u.called with entries := u.entries.set closed }) := by
  refine Scar.of_shown hu hc hne (lasting_closed w.toConfig) (by simp [hopen])
    (AllAt.of_get? (fun e he => ?_) (fun e he => ?_))
  · rw [← hk] at he
    change (u.entries.set _).get? _ = _ at he
    rw [Table.get?_set_self] at he
    exact Option.some.inj he ▸ hclosed
  · rw [← hk, storeRow_get?_self] at he
    exact Option.some.inj he ▸ (lasting_closed w.toConfig).rewritten u.rows _ hclosed

end Scar
section Conflicts
variable {w : World} {key : String} {s : Store}

theorem scar_invalidateAll {now : Stamp} {plan : List (String × String)}
    (hplan : ∀ p ∈ plan, p.1 ≠ key) : Keeps (Scar w key s) (invalidateAll w now plan) :=
  Scar.keeps (fun j _ _ hφ => (AllAt.discipline w j hφ).invalidateAll
    (fun e reason hsees _ _ => ⟨hsees, fun hk =>
      hφ.invalidated now reason e (hsees ((invalidatedBy_key _ _ _).symm.trans hk))⟩) plan hplan)

/-- The loop does nothing until a closing is taken; from then on the damage is done. -/
theorem invalidateAll_decides (now : Stamp) (plan : List (String × String))
    (hplan : ∀ p ∈ plan, p.1 ≠ key) :
    Decides (Untouched w.toConfig anyKey s)
      (fun t => ∃ e, firstClosing now plan t = some e ∧ accepts w t e = true)
      (invalidateAll w now plan) (fun _ => Untouched w.toConfig anyKey s) (fun _ => Scar w key s)
      (Untouched w.toConfig anyKey s) (fun t => ¬ Untouched w.toConfig anyKey s t) := by
  induction plan with
  | nil =>
    refine Decides.pure (fun _ h => h) (fun t _ => ?_)
    rintro ⟨e, he, -⟩
    cases he
  | cons p rest ih =>
    obtain ⟨j, reason⟩ := p
    have hrest := fun p' hp' => hplan p' (List.mem_cons_of_mem (j, reason) hp')
    have hne : j ≠ key := hplan (j, reason) List.mem_cons_self
    refine Decides.intro (fun t ht => ?_)
    have hskip := (ih hrest).run ht
    unfold invalidateAll
    rw [Prog.bind_run, getEntry_run]
    simp only [firstClosing]
    cases hc : t.entries.get? j with
    | none => exact hskip
    | some current =>
      dsimp only
      cases hi : current.invalidAt.isSome with
      | true => exact hskip
      | false =>
        have hj : current.key = j := Table.key_of_get? hc
        subst hj
        simp only [Bool.false_eq_true, ↓reduceIte]
        rw [Prog.bind_run, invalidateOne_run w (invalidatedBy_key _ _ _) hc]
        cases ha : accepts w t (invalidatedBy now reason current) with
        | false =>
          refine ⟨fun _ => ⟨ht.rows, ht.entries⟩, fun hd => ?_⟩
          obtain ⟨e, he, hacc⟩ := hd
          cases he
          rw [ha] at hacc
          cases hacc
        | true =>
          have hclosed : (invalidatedBy now reason current).invalidAt.isSome = true := by
            rw [invalidatedBy, closeWith_invalidAt]
            rfl
          have hscar := Scar.of_closing (invalidatedBy_key now reason current) hclosed ht hc hne hi
          have hrun : Keeps (Scar w key s) (invalidateAll w now rest) := scar_invalidateAll hrest
          have hcont := invalidateRest_keeps hrun current.key true
          rw [if_pos rfl] at hcont
          exact Decides.at_harmed ⟨_, rfl, ha⟩ (Scar.harms hcont) hscar

theorem handleConflicts_decides (key value tier : String) (conflictCheck : Bool) :
    Decides (Untouched w.toConfig anyKey s) (ConflictCloses w key value tier conflictCheck)
      (handleConflicts w key value tier conflictCheck) (fun _ => Untouched w.toConfig anyKey s)
      (fun _ => Scar w key s) (Untouched w.toConfig anyKey s)
      (fun t => ¬ Untouched w.toConfig anyKey s t) := by
  unfold handleConflicts
  cases conflictCheck with
  | false =>
    exact Decides.pure (fun _ h => h) (fun _ _ h => Bool.noConfusion h.1)
  | true =>
    have hplan := (Untouched.discipline w anyKey s).planFor key value tier
    refine (Decides.after (hplan.triple (fun _ _ h => h)) (fun r => ?_)).congr
      (fun t _ => ⟨fun h => h.2, fun h => ⟨rfl, h⟩⟩)
    cases r with
    | none =>
      refine Decides.pure (fun _ h => h.1) (fun t _ => ?_)
      rintro ⟨plan, e, h, -⟩
      cases h
    | some plan =>
      refine Decides.assume (fun hfacts => ?_)
      have hdecides := invalidateAll_decides (w := w) (s := s) plan.now plan.invalidations
        (hfacts plan rfl).2
      have haudits (keys : List String) : ∀ d : Discipline w, Keeps d.inv
          (Prog.forEach (closeConflictAudit w plan.now) keys) :=
        fun d => Keeps.forEach keys (fun k _ => d.appendAudit k _)
      refine (hdecides.before (T := fun _ => Scar w key s) (fun r => ?_) (fun r => ?_)).congr
        (fun t _ => ⟨?_, fun ⟨e, he⟩ => ⟨plan, e, rfl, he⟩⟩)
      · cases r with
        | none => exact Triple.pure (fun _ h => h)
        | some keys =>
          have hclean : Keeps (Untouched w.toConfig anyKey s)
              (Prog.forEach (closeConflictAudit w plan.now) keys) :=
            haudits keys (Untouched.discipline w anyKey s)
          exact hclean.then (fun _ _ h => h) (fun _ _ => Triple.pure (fun _ h => h))
      · cases r with
        | none => exact Triple.pure (fun _ h => h)
        | some keys =>
          have hscar : Keeps (Scar w key s) (Prog.forEach (closeConflictAudit w plan.now) keys) :=
            Scar.keeps (fun j _ _ hφ => haudits keys (AllAt.discipline w j hφ))
          exact hscar.then (fun _ _ h => h.harm) (fun _ _ => Triple.pure (fun _ h => h))
      · rintro ⟨plan', e, h, he⟩
        cases h
        exact ⟨e, he⟩

end Conflicts

section Caps
variable {w : World} {key : String} {s : Store}

/-- The slot of `key` shows what is held there, and nothing else happened. -/
def SlotShown (w : World) (key : String) (s t : Store) : Prop :=
  Untouched w.toConfig anyKey s t ∧ t.entries.get? key = held w.toConfig s key

theorem held_eq_none {c : Config} {s : Store} {key : String} (h : held c s key = none) :
    s.entries.get? key = none ∧ loaded c s key = none := by
  rwa [held, Option.or_eq_none_iff] at h

theorem SlotShown.keeps {p : StoreM α} (h : ∀ s, Keeps (Untouched w.toConfig anyKey s) p) :
    Keeps (SlotShown w key s) p := by
  have hslot : ∀ t u, SlotShown w key s t → Untouched w.toConfig anyKey t u → SlotShown w key s u := by
    intro t u ht hu
    refine ⟨ht.1.trans hu, ?_⟩
    rw [← ht.2]
    rcases hu.entries key trivial with he | ⟨hnone, hload⟩
    · exact he
    · rw [hnone, hload, ht.1.loaded_eq trivial]
      exact (held_eq_none (ht.2.symm.trans hnone)).2
  intro t ht
  have hp := h t t (Untouched.refl t)
  rcases hr : p t with ⟨err | a, u⟩
  · rw [hr] at hp
    exact hslot t u ht hp
  · rw [hr] at hp
    exact ⟨hslot t u ht hp.1, trivial⟩

/-- An eviction among the candidates would take effect, or lose its row. -/
def EvictionHarms (w : World) (candidates : List MemoryEntry) (s : Store) : Prop :=
  ∃ e, lowestConfidence candidates = some e ∧ (RemovalTakes w s ∨ RemovalLoses w e s)

theorem evictLowest_decides (candidates : List MemoryEntry) (hne : ∀ e ∈ candidates, e.key ≠ key) :
    Decides (fun t => SlotShown w key s t ∧ ∀ e ∈ candidates, t.entries.get? e.key = some e)
      (EvictionHarms w candidates) (evictLowest w candidates) (fun _ => SlotShown w key s)
      (fun _ => Scar w key s) (Untouched w.toConfig anyKey s)
      (fun t => ¬ Untouched w.toConfig anyKey s t) := by
  unfold evictLowest
  cases hl : lowestConfidence candidates with
  | none =>
    refine Decides.pure (fun _ h => h.1) (fun t _ => ?_)
    rintro ⟨e, he, -⟩
    rw [hl] at he
    cases he
  | some e =>
    refine Decides.intro (fun t ht => ?_)
    have hmem := mem_lowestConfidence hl
    have he := ht.2 e hmem
    have hharms : EvictionHarms w candidates t ↔ RemovalTakes w t ∨ RemovalLoses w e t := by
      rw [EvictionHarms, hl]
      exact ⟨fun ⟨e', h, h'⟩ => Option.some.inj h ▸ h', fun h => ⟨e, rfl, h⟩⟩
    dsimp only
    unfold evictEntryKey
    rw [Prog.bind_run, getEntry_run, he]
    dsimp only
    rw [Prog.bind_run]
    rcases hr : removeDurably w e.key (some e) t with ⟨err | _, u⟩
    · have hiff := removeDurably_error ht.1.1 he hr
      have hnot : ¬ RemovalTakes w t := fun h => by
        rw [removeDurably_run, h.1, h.2] at hr
        cases hr
      rw [Decides.At, hharms, or_iff_right hnot]
      exact ⟨hiff.2, fun hlost hu => hiff.1 hu hlost⟩
    · obtain ⟨htakes, hgone⟩ := removeDurably_ok hr
      refine ⟨fun hn => absurd (hharms.2 (.inl htakes)) hn, fun _ => ?_⟩
      refine Scar.of_shown ht.1.1 he (hne e hmem) (lasting_never w.toConfig) (fun h => h)
        (AllAt.of_get? (fun e' he' => ?_) (fun e' he' => ?_))
      · cases hgone.1.symm.trans he'
      · cases hgone.2.symm.trans he'

theorem evictFrom_decides (choose : List MemoryEntry → List MemoryEntry)
    (hsub : ∀ entries, ∀ e ∈ choose entries, e ∈ entries)
    (hne : ∀ t, SlotShown w key s t → ∀ e ∈ choose t.entries.values, e.key ≠ key) :
    Decides (SlotShown w key s) (fun t => EvictionHarms w (choose t.entries.values) t)
      (do
        let entries ← snapshot
        evictLowest w (choose entries))
      (fun _ => SlotShown w key s) (fun _ => Scar w key s) (Untouched w.toConfig anyKey s)
      (fun t => ¬ Untouched w.toConfig anyKey s t) :=
  Decides.intro (fun t ht => (evictLowest_decides (choose t.entries.values) (hne t ht)).run
    ⟨ht, fun e he => Table.get?_of_mem (hsub _ e he)⟩)

/-- The group cap would evict, or lose its victim. -/
def GroupCapHarms (w : World) (group : Option String) (existing : Option MemoryEntry) (s : Store) :
    Prop :=
  match w.maxEntriesPerGroup, existing with
  | none, _ => False
  | some capG, none => Leads (countEntriesInMemoryGroup w group) s (fun n t =>
      capG ≤ n ∧ EvictionHarms w (inGroup group t.entries.values) t)
  | some capG, some e => e.memoryGroup ≠ group ∧
      Leads (countEntriesInMemoryGroup w group) s (fun n t =>
        capG < n + 1 ∧ EvictionHarms w (inGroup group t.entries.values) t)

/-- One of the two caps would evict, or lose its victim. -/
def CapsHarm (w : World) (group : Option String) (existing : Option MemoryEntry) (s : Store) : Prop :=
  GroupCapHarms w group existing s ∨ Leads (enforceGroupCap w group existing) s (fun _ t =>
    (existing.isNone && w.maxEntries ≤ t.entries.size) = true ∧
      EvictionHarms w (preferGroup w group t.entries.values) t)

/-- Counting and then evicting when the count is over the cap. -/
theorem countAndEvict_decides {group : Option String} (full : Nat → Prop)
    [DecidablePred full]
    (hne : ∀ t, SlotShown w key s t → ∀ e ∈ inGroup group t.entries.values, e.key ≠ key) :
    Decides (SlotShown w key s)
      (fun t => Leads (countEntriesInMemoryGroup w group) t (fun n t =>
        full n ∧ EvictionHarms w (inGroup group t.entries.values) t))
      (do
        let n ← countEntriesInMemoryGroup w group
        if full n then evictLowestConfidenceInGroup w group else pure ())
      (fun _ => SlotShown w key s) (fun _ => Scar w key s) (Untouched w.toConfig anyKey s)
      (fun t => ¬ Untouched w.toConfig anyKey s t) := by
  have hcount : Keeps (SlotShown w key s) (countEntriesInMemoryGroup w group) :=
    SlotShown.keeps (fun s => (Untouched.discipline w anyKey s).countEntriesInMemoryGroup group)
  refine Decides.after ((hcount.triple (fun _ _ h => h.1)).mono (fun _ => id) (fun _ _ h => h.1)
    (fun _ _ => id)) (fun n => ?_)
  by_cases hfull : full n
  · simp only [hfull, ↓reduceIte, true_and]
    exact evictFrom_decides (inGroup group) (fun _ _ => List.mem_of_mem_filter) hne
  · simp only [hfull, ↓reduceIte, false_and]
    exact Decides.pure (fun _ h => h) (fun _ _ h => h)

theorem enforceGroupCap_decides {group : Option String} {existing : Option MemoryEntry}
    (hex : existing = held w.toConfig s key) :
    Decides (SlotShown w key s) (GroupCapHarms w group existing)
      (enforceGroupCap w group existing) (fun _ => SlotShown w key s) (fun _ => Scar w key s)
      (Untouched w.toConfig anyKey s) (fun t => ¬ Untouched w.toConfig anyKey s t) := by
  have hgroup (hout : ∀ e, existing = some e → e.memoryGroup ≠ group) :
      ∀ t, SlotShown w key s t → ∀ e ∈ inGroup group t.entries.values, e.key ≠ key := by
    intro t ht e he hk
    have hget := Table.get?_of_mem (List.mem_of_mem_filter he)
    rw [hk, ht.2, ← hex] at hget
    exact hout e hget (by simpa using List.of_mem_filter he)
  unfold enforceGroupCap GroupCapHarms
  cases w.maxEntriesPerGroup with
  | none => exact Decides.pure (fun _ h => h) (fun _ _ h => h)
  | some capG =>
    cases existing with
    | none => exact countAndEvict_decides (fun n => capG ≤ n) (hgroup (fun e he => nomatch he))
    | some b =>
      dsimp only
      by_cases hmoved : b.memoryGroup ≠ group
      · rw [if_pos hmoved]
        refine (countAndEvict_decides (fun n => capG < n + 1)
          (hgroup (fun e he => Option.some.inj he ▸ hmoved))).congr (fun t _ => and_iff_right hmoved)
      · rw [if_neg hmoved]
        exact Decides.pure (fun _ h => h) (fun _ _ h => hmoved h.1)

theorem enforceEntryCaps_decides {group : Option String} {existing : Option MemoryEntry}
    (hex : existing = held w.toConfig s key) :
    Decides (SlotShown w key s) (CapsHarm w group existing)
      (enforceEntryCapsBeforeAssign w group existing) (fun _ => SlotShown w key s)
      (fun _ => Scar w key s) (Untouched w.toConfig anyKey s)
      (fun t => ¬ Untouched w.toConfig anyKey s t) := by
  refine (enforceGroupCap_decides hex).bind (fun _ => ?_) (fun _ => ?_)
  · refine Decides.intro (fun t ht => ?_)
    rw [Prog.bind_run, Prog.read_run]
    dsimp only
    cases hfull : existing.isNone && w.maxEntries ≤ t.entries.size with
    | false => exact ⟨fun _ => ht, fun h => Bool.noConfusion h.1⟩
    | true =>
      have hnone : held w.toConfig s key = none := by
        rw [← hex, ← Option.isNone_iff_eq_none]
        exact (Bool.and_eq_true_iff.1 hfull).1
      have hne : ∀ t, SlotShown w key s t → ∀ e ∈ preferGroup w group t.entries.values,
          e.key ≠ key := by
        intro t ht e he hk
        have hget := Table.get?_of_mem (mem_preferGroup he)
        rw [hk, ht.2, hnone] at hget
        cases hget
      have := (evictFrom_decides (preferGroup w group) (fun _ _ => mem_preferGroup) hne).run ht
      simp only [true_and]
      exact this
  · have hrest : Keeps (Scar w key s) (do
        let size ← Prog.read (fun s : Store => s.entries.size)
        if existing.isNone && w.maxEntries ≤ size then evictLowestConfidencePreferGroup w group
        else pure ()) := by
      refine Scar.keeps (fun j φ _ hφ => Keeps.ask.bind (fun size _ => ?_))
      split
      · exact (AllAt.discipline w j hφ).evictLowestConfidencePreferGroup (fun _ h => h) group
      · exact Keeps.pure trivial
    exact Scar.harms hrest

end Caps
end TappsBrain
