import TappsBrain.Scar

namespace TappsBrain
open Lib
set_option autoImplicit true
set_option relaxedAutoImplicit false

section Build
variable {w : World} {s : Store} {a : SaveArgs}

/-- The caps would do harm for the row these arguments build. -/
def BuildHarms (w : World) (a : SaveArgs) (mgExplicit : Option (Option String)) (s : Store) : Prop :=
  Leads (buildEntry w a mgExplicit) s (fun built t => CapsHarm w built.1.memoryGroup built.2 t)

/-- `entry` sits in its slot in front of what was held there, and is not stored yet. -/
structure Assigned (w : World) (s : Store) (entry : MemoryEntry) (existing : Option MemoryEntry)
    (t : Store) : Prop where
  others : Untouched w.toConfig (· ≠ entry.key) s t
  row : t.rows.get? entry.key = s.rows.get? entry.key
  slot : t.entries.get? entry.key = some entry
  existing : existing = held w.toConfig s entry.key

theorem ensureEntryCached_slotShown {key : String} :
    Triple (Untouched w.toConfig anyKey s) (ensureEntryCached w key)
      (fun r t => SlotShown w key s t ∧ r = held w.toConfig s key)
      (fun _ => Untouched w.toConfig anyKey s) :=
  (ensureEntryCached_held trivial).mono (fun _ => id)
    (fun _ _ h => ⟨⟨h.1, h.2.1.trans h.2.2⟩, h.2.2⟩) (fun _ _ h => h.1)

theorem SlotShown.bookkeeping (key : String) (s : Store) : Bookkeeping (SlotShown w key s) :=
  ⟨fun _ h => ⟨⟨h.1.1, h.1.2⟩, h.2⟩, fun _ h => ⟨⟨h.1.1, h.1.2⟩, h.2⟩,
    fun _ h => ⟨⟨h.1.1, h.1.2⟩, h.2⟩, fun _ _ h => ⟨⟨h.1.1, h.1.2⟩, h.2⟩,
    fun _ _ h => ⟨⟨h.1.1, h.1.2⟩, h.2⟩, fun _ _ h => ⟨⟨h.1.1, h.1.2⟩, h.2⟩⟩

theorem buildEntry_slotShown (mgExplicit : Option (Option String)) :
    Triple (Untouched w.toConfig anyKey s) (buildEntry w a mgExplicit)
      (fun r t => SlotShown w a.key s t ∧ r.1.key = a.key ∧ r.2 = held w.toConfig s a.key)
      (fun _ => Untouched w.toConfig anyKey s) := by
  refine ensureEntryCached_slotShown.bind (fun existing => ?_)
  have hrest (hex : existing = held w.toConfig s a.key) : Keeps (SlotShown w a.key s) (do
      let tierVal ← Prog.ofExcept (resolveTierValue w.toConfig a.tier)
      let now ← utcNow w
      let entry ← Prog.ofExcept (constructMemoryEntry w.toConfig a tierVal
        (mgExplicit.getD (existing.bind (·.memoryGroup))) existing now)
      pure (stampIntegrityHash w.toConfig entry, existing))
      (fun r => r.1.key = a.key ∧ r.2 = held w.toConfig s a.key) := by
    refine (Keeps.ofExcept (Q := fun _ => True) (fun _ _ => trivial)).bind (fun tierVal _ => ?_)
    refine (keeps_utcNow (SlotShown.bookkeeping a.key s)).bind (fun now _ => ?_)
    refine (Keeps.ofExcept (fun e he => he)).bind (fun e he => Keeps.pure ⟨?_, hex⟩)
    rw [stampIntegrityHash_key]
    exact constructMemoryEntry_key he
  rintro t ⟨ht, hex⟩
  exact ((hrest hex).triple (fun _ _ h => h.1)) t ht

theorem held_key {c : Config} {s : Store} {key : String} {e : MemoryEntry}
    (h : held c s key = some e) : e.key = key := by
  rw [held, Option.or_eq_some_iff] at h
  rcases h with h | ⟨_, h⟩
  · exact Table.key_of_get? h
  · obtain ⟨row, hrow, hre⟩ := Option.bind_eq_some_iff.1 h
    cases hr : rowToEntry c row with
    | error err =>
      rw [hr] at hre
      cases hre
    | ok e' =>
      rw [hr] at hre
      cases hre
      rw [(rowToEntry_ok hr).2, normalised_key]
      exact Table.key_of_get? hrow

theorem Untouched.of_slot {c : Config} {s t : Store} {key : String}
    (hothers : Untouched c (· ≠ key) s t) (hrow : t.rows.get? key = s.rows.get? key)
    (hslot : t.entries.get? key = held c s key) : Untouched c anyKey s t where
  rows := fun k _ => by
    by_cases hk : k = key
    · rw [hk, hrow]
    · exact hothers.rows k hk
  entries := fun k _ => by
    by_cases hk : k = key
    · subst hk
      rw [hslot, held]
      cases s.entries.get? k with
      | none => exact .inr ⟨rfl, Option.none_or⟩
      | some e => exact .inl Option.some_or
    · exact hothers.entries k hk

theorem buildAndAssignEntry_decides (mgExplicit : Option (Option String)) :
    Decides (Untouched w.toConfig anyKey s) (BuildHarms w a mgExplicit)
      (buildAndAssignEntry w a mgExplicit)
      (fun r t => r.1.key = a.key ∧ Assigned w s r.1 r.2 t)
      (fun r t => (r.1.key = a.key ∧ r.2 = held w.toConfig s a.key) ∧ Scar w a.key s t)
      (Untouched w.toConfig anyKey s) (fun t => ¬ Untouched w.toConfig anyKey s t) := by
  refine Decides.after (buildEntry_slotShown mgExplicit) (fun r => Decides.assume ?_)
  rintro ⟨hkey, hex⟩
  refine (enforceEntryCaps_decides hex).before (fun _ => ?_) (fun _ => ?_)
  · rintro t ⟨hu, _⟩
    refine ⟨hkey, ⟨fun k _ => hu.rows k trivial, fun k hk => ?_⟩, hu.rows _ trivial,
      Table.get?_set_self _ _, hkey ▸ hex⟩
    change (t.entries.set r.1).get? k = _ ∨ _ ∧ (t.entries.set r.1).get? k = _
    rw [Table.get?_set_ne _ (Ne.symm hk)]
    exact hu.entries k trivial
  · have hset : Keeps (Scar w a.key s) (setEntry r.1) :=
      Scar.keeps (fun j _ hj hφ => (AllAt.discipline w j hφ).setEntry
        (fun hk => absurd (hk.symm.trans hkey) hj))
    exact hset.then (fun _ _ h => h.harm) (fun _ _ => Triple.pure (fun _ h => ⟨⟨hkey, hex⟩, h⟩))

/-- `entry` is cached and stored, and nothing else happened. -/
structure Persisted (w : World) (s : Store) (entry : MemoryEntry) (t : Store) : Prop where
  others : Untouched w.toConfig (· ≠ entry.key) s t
  row : t.rows.get? entry.key = some (upserted s.rows entry)
  slot : t.entries.get? entry.key = some entry

/-- A persist that is refused puts back what was held. -/
theorem persistEntryOrRollback_persisted {entry : MemoryEntry} {existing : Option MemoryEntry} :
    Triple (Assigned w s entry existing) (persistEntryOrRollback w entry existing)
      (fun _ => Persisted w s entry) (fun _ => Untouched w.toConfig anyKey s) := by
  have hsave : Triple (Assigned w s entry existing)
      (Prog.rollback (saveRow w entry) (restoreSlot entry.key existing))
      (fun _ => Persisted w s entry) (fun _ => Untouched w.toConfig anyKey s) := by
    intro t ht
    unfold Prog.rollback
    rw [Prog.handle_run, saveRow_run]
    cases accepts w t entry with
    | true =>
      refine ⟨⟨fun k hk => ?_, ht.others.entries⟩, ?_, ht.slot⟩
      · exact (storeRow_get?_ne (Ne.symm hk) t.called).trans (ht.others.rows k hk)
      · change (storeRow entry t).rows.get? entry.key = _
        rw [storeRow_get?_self, upserted, upserted, ht.row]
    | false =>
      have hex := ht.existing
      cases existing with
      | none =>
        refine Untouched.of_slot ⟨ht.others.rows, fun k hk => ?_⟩ ht.row ?_
        · change (t.entries.pop entry.key).get? k = _ ∨ _ ∧ (t.entries.pop entry.key).get? k = _
          rw [Table.get?_pop_ne _ (Ne.symm hk)]
          exact ht.others.entries k hk
        · rw [← hex]
          change (t.entries.pop entry.key).get? entry.key = none
          rw [Table.get?_pop, if_pos rfl]
      | some b =>
        have hb : b.key = entry.key := held_key hex.symm
        refine Untouched.of_slot ⟨ht.others.rows, fun k hk => ?_⟩ ht.row ?_
        · change (t.entries.set b).get? k = _ ∨ _ ∧ (t.entries.set b).get? k = _
          rw [Table.get?_set_ne _ (hb ▸ Ne.symm hk)]
          exact ht.others.entries k hk
        · rw [← hex, ← hb]
          exact Table.get?_set_self _ _
  refine hsave.bind (fun _ t ht => ?_)
  rw [dropIfConcurrentlyRemoved_run w ht.slot]
  exact ht

/-- Storing `entry` changes what the cache or the table holds under its key. -/
def Rewrites (w : World) (s : Store) (entry : MemoryEntry) : Prop :=
  s.rows.get? entry.key ≠ some (upserted s.rows entry) ∨ held w.toConfig s entry.key ≠ some entry

theorem Persisted.untouched_iff {entry : MemoryEntry} {t : Store} (h : Persisted w s entry t) :
    Untouched w.toConfig anyKey s t ↔ ¬ Rewrites w s entry := by
  rw [Rewrites, not_or, not_not, not_not]
  constructor
  · intro hu
    refine ⟨(hu.rows _ trivial).symm.trans h.row, ?_⟩
    rw [← hu.held_eq trivial, held, h.slot, Option.some_or]
  · rintro ⟨hrow, hheld⟩
    exact Untouched.of_slot h.others (h.row.trans hrow.symm) (h.slot.trans hheld.symm)

/-- The text states relations, the key has room for them, and one of the two calls for them is
refused. -/
def refusesRelations (w : World) (key value : String) (s : Store) : Bool :=
  w.extractRelations key value ≠ [] && cachedRelationCount key s < MAX_EDGES_PER_KEY &&
    (w.refuses s.calls || w.refuses (s.calls + 1))

theorem persistRelations_result (w : World) (key value : String) (s : Store) :
    (persistRelations w key value s).1 =
      if refusesRelations w key value s then .error .backend else .ok () := by
  unfold persistRelations refusesRelations
  by_cases hrel : w.extractRelations key value = []
  · simp only [hrel, ne_eq, not_true_eq_false, decide_false, Bool.false_and, ↓reduceIte,
      Bool.false_eq_true, Prog.pure_run]
  rw [if_neg hrel, Prog.bind_run, Prog.read_run]
  dsimp only
  by_cases hroom : cachedRelationCount key s < MAX_EDGES_PER_KEY
  · have htake : (w.extractRelations key value).take
        (MAX_EDGES_PER_KEY - cachedRelationCount key s) ≠ [] := by
      rw [Ne, List.take_eq_nil_iff, not_or]
      exact ⟨by omega, hrel⟩
    rw [if_neg (Nat.not_le_of_lt hroom), Prog.bind_run]
    unfold saveRelationRows loadRelationRows
    rw [if_neg htake, Prog.bind_run, backendCall_run]
    cases h0 : w.refuses s.calls with
    | true => simp [hrel, hroom]
    | false =>
      simp only [Bool.false_eq_true, ↓reduceIte, Prog.modify_run, Prog.bind_run, backendCall_run,
        Store.called_calls]
      cases h1 : w.refuses (s.calls + 1) with
      | true => simp [hrel, hroom]
      | false => simp [hrel, hroom, setBucket]
  · rw [if_pos (Nat.le_of_not_lt hroom)]
    simp only [hroom, decide_false, Bool.and_false, Bool.false_and, Bool.false_eq_true, ↓reduceIte,
      Prog.pure_run]

/-- The calls for the relations of a stored row are refused; the audit makes the call before. -/
def RelationsHarm (w : World) (s : Store) (entry : MemoryEntry) (t : Store) : Prop :=
  refusesRelations w entry.key entry.value t.called = true ∧ Rewrites w s entry

theorem Persisted.bookkeeping (s : Store) (entry : MemoryEntry) :
    Bookkeeping (Persisted w s entry) :=
  ⟨fun _ h => ⟨⟨h.1.1, h.1.2⟩, h.2, h.3⟩, fun _ h => ⟨⟨h.1.1, h.1.2⟩, h.2, h.3⟩,
    fun _ h => ⟨⟨h.1.1, h.1.2⟩, h.2, h.3⟩, fun _ _ h => ⟨⟨h.1.1, h.1.2⟩, h.2, h.3⟩,
    fun _ _ h => ⟨⟨h.1.1, h.1.2⟩, h.2, h.3⟩, fun _ _ h => ⟨⟨h.1.1, h.1.2⟩, h.2, h.3⟩⟩

theorem Persisted.ignoresRelations (s : Store) (entry : MemoryEntry) :
    IgnoresRelations (Persisted w s entry) :=
  ⟨fun _ _ h => ⟨⟨h.1.1, h.1.2⟩, h.2, h.3⟩, fun _ _ h => ⟨⟨h.1.1, h.1.2⟩, h.2, h.3⟩⟩

/-- The consolidation pass swallows what it raises. -/
theorem maybeConsolidate_returns (entry : MemoryEntry) (t : Store) :
    ∃ u, maybeConsolidate w entry t = (.ok (), u) := by
  unfold maybeConsolidate Prog.swallow
  simp only [Prog.bind_run, Prog.modify_run, Prog.handle_run]
  rcases checkConsolidationOnSave w entry { t with consolidationInProgress := true } with
    ⟨_ | _, u⟩ <;> exact ⟨_, rfl⟩

theorem postprocess_decides (entry : MemoryEntry) (existing : Option MemoryEntry) (skip : Bool) :
    Decides (Persisted w s entry) (RelationsHarm w s entry)
      (postprocessSavedEntry w (maybeConsolidate w) entry existing skip) (fun _ _ => True)
      (fun _ _ => True) (Untouched w.toConfig anyKey s)
      (fun t => ¬ Untouched w.toConfig anyKey s t) := by
  refine Decides.intro (fun t ht => ?_)
  unfold postprocessSavedEntry
  rw [Prog.bind_run, appendAudit_run]
  dsimp only
  rw [Prog.bind_run]
  generalize (if w.refuses t.calls then t.audit else _) = audit
  have hb := Persisted.bookkeeping (w := w) s entry
  have haudited : Persisted w s entry { t.called with audit := audit } :=
    hb.audit t.called audit (hb.calls t ht)
  have hkeeps := (keeps_persistRelations (w := w) hb (Persisted.ignoresRelations s entry) entry.key
    entry.value) { t.called with audit := audit } haudited
  have hresult := persistRelations_result w entry.key entry.value { t.called with audit := audit }
  rw [show refusesRelations w entry.key entry.value { t.called with audit := audit } =
    refusesRelations w entry.key entry.value t.called from rfl] at hresult
  rcases hr : persistRelations w entry.key entry.value { t.called with audit := audit } with
    ⟨err | _, u⟩
  · rw [hr] at hkeeps hresult
    have hrefused : refusesRelations w entry.key entry.value t.called = true := by
      by_contra h
      rw [if_neg h] at hresult
      cases hresult
    have hiff := Persisted.untouched_iff hkeeps
    rw [Decides.At, RelationsHarm, and_iff_right hrefused]
    exact ⟨hiff.2, fun h hu => hiff.1 hu h⟩
  · dsimp only
    rw [Prog.bind_run, Prog.read_run]
    dsimp only
    split
    · obtain ⟨v, hv⟩ := maybeConsolidate_returns entry u
      rw [hv]
      exact ⟨fun _ => trivial, fun _ => trivial⟩
    · exact ⟨fun _ => trivial, fun _ => trivial⟩

/-- The store step of a save would do lasting harm before it raises. -/
def StoreHarms (w : World) (s : Store) (a : SaveArgs) (p : SavePrep) (t : Store) : Prop :=
  BuildHarms w (preparedArgs a p) p.mgExplicit t ∨
    Leads (buildAndAssignEntry w (preparedArgs a p) p.mgExplicit) t (fun built u =>
      Leads (persistEntryOrRollback w built.1 built.2) u (fun _ v => RelationsHarm w s built.1 v))

theorem scar_postprocess {key : String} {entry : MemoryEntry} {existing : Option MemoryEntry}
    (skip : Bool) (hkey : entry.key = key) (hex : ∀ b, existing = some b → b.key = key) :
    Triple (Scar w key s) (do
        persistEntryOrRollback w entry existing
        postprocessSavedEntry w (maybeConsolidate w) entry existing skip
        pure entry)
      (fun _ _ => True) (fun _ t => ¬ Untouched w.toConfig anyKey s t) := by
  have hpersist : Keeps (Scar w key s) (persistEntryOrRollback w entry existing) :=
    Scar.keeps (fun j _ hj hφ => (AllAt.discipline w j hφ).persistEntryOrRollback
      (fun hk => absurd (hk.symm.trans hkey) hj)
      (fun b hb hk => absurd (hk.symm.trans (hex b hb)) hj))
  have haudit : Keeps (Scar w key s) (appendAudit w entry.key
      (.save entry.tier.text entry.value.length existing.isSome)) :=
    Scar.keeps (fun j _ _ hφ => (AllAt.discipline w j hφ).appendAudit _ _)
  have hrelations : Keeps (Scar w key s) (persistRelations w entry.key entry.value) :=
    Scar.keeps (fun j _ _ hφ => (AllAt.discipline w j hφ).persistRelations _ _)
  refine hpersist.then (fun _ _ h => h.harm) (fun _ _ => ?_)
  refine Triple.bind (Q := fun _ _ => True) ?_ (fun _ => Triple.pure (fun _ _ => trivial))
  refine haudit.then (fun _ _ h => h.harm) (fun _ _ => ?_)
  refine hrelations.then (fun _ _ h => h.harm) (fun _ _ => ?_)
  refine Triple.bind (Q := fun _ _ => True) (Triple.read (fun _ _ => trivial)) (fun inProgress => ?_)
  split
  · intro t _
    obtain ⟨u, hu⟩ := maybeConsolidate_returns entry t
    rw [hu]
    trivial
  · exact Triple.pure (fun _ _ => trivial)

/-- A save that starts out with a scar runs on with it. -/
theorem scar_storePrepared (p : SavePrep) :
    Triple (Scar w (p.effectiveKey.getD a.key) s) (storePrepared w (maybeConsolidate w) a p)
      (fun _ _ => True) (fun _ t => ¬ Untouched w.toConfig anyKey s t) := by
  have hbuild : Keeps (Scar w (p.effectiveKey.getD a.key) s)
      (buildAndAssignEntry w (preparedArgs a p) p.mgExplicit)
      (fun r => r.1.key = p.effectiveKey.getD a.key ∧
        ∀ b, r.2 = some b → b.key = p.effectiveKey.getD a.key) := by
    refine Scar.keeps (fun j φ hj hφ => ((AllAt.discipline w j hφ).buildAndAssignEntry
      (fun _ h => h) p.mgExplicit ?_).weaken (fun r hr => ⟨hr.2.1, fun b hb => (hr.2.2 b hb).2⟩))
    intro existing mg now tierVal e _ _ he hk
    rw [stampIntegrityHash_key, constructMemoryEntry_key he] at hk
    exact absurd hk.symm hj
  exact hbuild.then (fun _ _ h => h.harm)
    (fun r hr => scar_postprocess a.skipConsolidation hr.1 hr.2)

theorem storePrepared_decides (p : SavePrep) :
    Decides (Untouched w.toConfig anyKey s) (StoreHarms w s a p)
      (storePrepared w (maybeConsolidate w) a p) (fun _ _ => True) (fun _ _ => True)
      (Untouched w.toConfig anyKey s) (fun t => ¬ Untouched w.toConfig anyKey s t) := by
  refine (buildAndAssignEntry_decides p.mgExplicit).bind (fun r => ?_) (fun r => ?_)
  · refine Decides.mono (Decides.after persistEntryOrRollback_persisted (fun _ => ?_))
      (fun _ h => h.2) (fun _ _ h => h) (fun _ _ h => h)
    exact (postprocess_decides r.1 r.2 a.skipConsolidation).before
      (fun _ => Triple.pure (fun _ _ => trivial)) (fun _ => Triple.pure (fun _ _ => trivial))
  · rintro t ⟨⟨hkey, hex⟩, hscar⟩
    exact scar_postprocess a.skipConsolidation hkey (fun b hb => held_key (hex.symm.trans hb)) t hscar

end Build
section Prepare
variable {w : World} {s : Store}

theorem delete_decides {e : MemoryEntry} :
    Decides (fun t => Untouched w.toConfig anyKey s t ∧ t.entries.get? e.key = some e)
      (RemovalLoses w e) (delete w e.key) (fun _ _ => True) (fun _ _ => False)
      (Untouched w.toConfig anyKey s) (fun t => ¬ Untouched w.toConfig anyKey s t) := by
  refine Decides.intro (fun t ht => ?_)
  unfold delete
  rw [Prog.bind_run, ensureEntryCached_run, ht.2]
  dsimp only
  rw [Prog.bind_run]
  rcases hr : removeDurably w e.key (some e) t with ⟨err | _, u⟩
  · have hiff := removeDurably_error ht.1 ht.2 hr
    exact ⟨hiff.2, fun hlost hu => hiff.1 hu hlost⟩
  · have htakes := (removeDurably_ok hr).1
    dsimp only
    rw [Prog.bind_run, Prog.modify_run]
    dsimp only
    rw [Prog.bind_run, appendAudit_run]
    refine ⟨fun _ => trivial, fun hlost => ?_⟩
    exact Bool.noConfusion (hlost.2.1.symm.trans htakes.2)

/-- What a policy that stops a save answers with is no error. -/
def PolicyClean (w : World) (s : Store) (outcome : PolicyOutcome) (t : Store) : Prop :=
  match outcome with
  | .stop short => short.isError = false
  | _ => Untouched w.toConfig anyKey s t

/-- A deletion whose target is a candidate. -/
theorem judgedDelete_decides {candidates : List MemoryEntry} {r : WriteResult} {target : String}
    (hd : r.decision = .delete) (htarget : namedTarget r.targetKey = some target)
    (hin : candidates.any (fun c => c.key = target) = true) :
    Decides (fun t => Untouched w.toConfig anyKey s t ∧ candidates = t.entries.values)
      (VerdictLoses w r) (do
        let _ ← delete w target
        pure (.stop (.deleted target r.reasoning))) (PolicyClean w s) (fun _ _ => False)
      (Untouched w.toConfig anyKey s) (fun t => ¬ Untouched w.toConfig anyKey s t) := by
  obtain ⟨e, he, hk⟩ := List.any_eq_true.1 hin
  have hk : e.key = target := of_decide_eq_true hk
  subst hk
  refine Decides.intro (fun t ht => ?_)
  have hcached : t.entries.get? e.key = some e := Table.get?_of_mem (ht.2 ▸ he)
  have hlost : VerdictLoses w r t ↔ RemovalLoses w e t := by
    constructor
    · rintro ⟨e', -, hk, hget, hlost⟩
      have hk : e.key = e'.key := Option.some.inj (htarget.symm.trans hk)
      rw [← hk, hcached] at hget
      exact Option.some.inj hget ▸ hlost
    · exact fun h => ⟨e, hd, htarget, hcached, h⟩
  have hdelete : Decides (fun t => Untouched w.toConfig anyKey s t ∧
      t.entries.get? e.key = some e) (RemovalLoses w e) (do
        let _ ← delete w e.key
        pure (.stop (.deleted e.key r.reasoning))) (PolicyClean w s) (fun _ _ => False)
      (Untouched w.toConfig anyKey s) (fun t => ¬ Untouched w.toConfig anyKey s t) :=
    delete_decides.before (fun _ => Triple.pure (fun _ _ => rfl)) (fun _ _ h => h.elim)
  have hrun := hdelete.run (s := t) ⟨ht.1, hcached⟩
  unfold Decides.At at hrun ⊢
  simpa only [hlost] using hrun

theorem applyVerdict_decides (key : String) (candidates : List MemoryEntry) (r : WriteResult) :
    Decides (fun t => Untouched w.toConfig anyKey s t ∧ candidates = t.entries.values)
      (VerdictLoses w r) (applyVerdict w key candidates r) (PolicyClean w s) (fun _ _ => False)
      (Untouched w.toConfig anyKey s) (fun t => ¬ Untouched w.toConfig anyKey s t) := by
  have hproceed (h : ∀ t, candidates = t.entries.values → ¬ VerdictLoses w r t) :
      Decides (fun t => Untouched w.toConfig anyKey s t ∧ candidates = t.entries.values)
        (VerdictLoses w r) (pure .proceed : StoreM PolicyOutcome) (PolicyClean w s)
        (fun _ _ => False) (Untouched w.toConfig anyKey s) (fun t => ¬ Untouched w.toConfig anyKey s t) :=
    Decides.pure (fun _ h => h.1) (fun t ht => h t ht.2)
  have hother (h : r.decision ≠ .delete) : ∀ t, ¬ VerdictLoses w r t :=
    fun _ ⟨_, hd, _⟩ => h hd
  unfold applyVerdict
  cases hd : r.decision with
  | add => exact hproceed (fun t _ => hother (by rw [hd]; exact nofun) t)
  | noop =>
    have hnot := hother (by rw [hd]; exact nofun)
    refine Decides.intro (fun t _ => ⟨fun _ => ?_, fun h => absurd h (hnot t)⟩)
    unfold PolicyClean policyNoop
    cases (t.entries.get? key).or _ <;> rfl
  | update =>
    have hnot := hother (by rw [hd]; exact nofun)
    cases htarget : namedTarget r.targetKey with
    | none => exact hproceed (fun t _ => hnot t)
    | some target =>
      dsimp only
      split <;> exact Decides.pure (fun _ h => h.1) (fun t _ => hnot t)
  | delete =>
    cases htarget : namedTarget r.targetKey with
    | none =>
      refine hproceed (fun t _ ⟨e, _, h, _⟩ => ?_)
      rw [htarget] at h
      cases h
    | some target =>
      dsimp only
      split
      · next hin => exact judgedDelete_decides hd htarget hin
      · next hout =>
        refine hproceed (fun t hc ⟨e, _, h, hget, _⟩ => hout ?_)
        rw [htarget] at h
        cases h
        exact List.any_eq_true.2 ⟨e, hc ▸ Table.mem_of_get? hget, decide_eq_true rfl⟩

theorem applyWritePolicy_decides (key value : String) :
    Decides (Untouched w.toConfig anyKey s) (PolicyLoses w key value)
      (applyWritePolicy w key value) (PolicyClean w s) (fun _ _ => False)
      (Untouched w.toConfig anyKey s) (fun t => ¬ Untouched w.toConfig anyKey s t) := by
  unfold applyWritePolicy PolicyLoses
  cases w.writePolicy with
  | deterministic => exact Decides.pure (fun _ h => h) (fun _ _ h => h)
  | judged decide =>
    have hmerge : Keeps (Untouched w.toConfig anyKey s) (mergeDurableEntries w false) :=
      (Untouched.discipline w anyKey s).mergeDurableEntries false
    refine Decides.after ((hmerge.triple (fun _ _ h => h)).mono (fun _ => id) (fun _ _ h => h.1)
      (fun _ _ => id)) (fun _ => Decides.intro (fun t ht => ?_))
    exact (applyVerdict_decides key t.entries.values (decide key value t.entries.values)).run
      ⟨ht, rfl⟩

/-- The conflict phase of a save whose key the policy has settled would close a row. -/
def SettledHarms (w : World) (a : SaveArgs) (value : String) (updateKey : Option String)
    (s : Store) : Prop :=
  willFailValidation (updateKey.getD a.key) value = false ∧
    Leads (handleDedup w (updateKey.getD a.key) value a.dedup) s (fun r t => r = none ∧
      ConflictCloses w (updateKey.getD a.key) value (normalizeSaveTier w.toConfig a.tier)
        a.conflictCheck t)

/-- The policy would lose a row, or the conflict phase behind it would close one. -/
def PolicyHarms (w : World) (a : SaveArgs) (value : String) (s : Store) : Prop :=
  PolicyLoses w a.key value s ∨ Leads (applyWritePolicy w a.key value) s (fun outcome t =>
    match outcome with
    | .stop _ => False
    | .update target => SettledHarms w a value (some target) t
    | .proceed => SettledHarms w a value none t)

/-- The preparation of a save would do lasting harm. -/
def PrepareHarms (w : World) (a : SaveArgs) (s : Store) : Prop :=
  Leads (checkSave w a) s (fun r t => match r with
    | .error _ => False
    | .ok (value, _, _) => PolicyHarms w a value t)

/-- A preparation without harm: only one that answers with no error has written anything. -/
def PrepClean (w : World) (s : Store) (r : Except ShortCircuit SavePrep) (t : Store) : Prop :=
  match r with
  | .error short => short.isError = true → Untouched w.toConfig anyKey s t
  | .ok _ => Untouched w.toConfig anyKey s t

/-- A preparation that closed a row has the save go on. -/
def PrepScarred (w : World) (s : Store) (a : SaveArgs) (r : Except ShortCircuit SavePrep)
    (t : Store) : Prop :=
  match r with
  | .error _ => False
  | .ok p => Scar w (p.effectiveKey.getD a.key) s t

theorem dedupAndConflicts_decides (a : SaveArgs) (value : String) (updateKey : Option String) :
    Decides (Untouched w.toConfig anyKey s) (SettledHarms w a value updateKey)
      (dedupAndConflicts w (updateKey.getD a.key) value (normalizeSaveTier w.toConfig a.tier)
        a.dedup a.conflictCheck)
      (fun r t => match r with
        | .error short => short.isError = false
        | .ok _ => Untouched w.toConfig anyKey s t)
      (fun r t => match r with
        | .error _ => False
        | .ok _ => Scar w (updateKey.getD a.key) s t)
      (Untouched w.toConfig anyKey s) (fun t => ¬ Untouched w.toConfig anyKey s t) := by
  unfold dedupAndConflicts SettledHarms
  cases willFailValidation (updateKey.getD a.key) value with
  | true => exact Decides.pure (fun _ h => h) (fun _ _ h => Bool.noConfusion h.1)
  | false =>
    refine (Decides.after (handleDedup_sound value a.dedup) (fun r => ?_)).congr
      (fun t _ => and_iff_right rfl)
    cases r with
    | some short =>
      refine Decides.pure (fun _ h => h.1) (fun _ _ h => ?_)
      cases h.1
    | none =>
      have hconflicts := handleConflicts_decides (w := w) (s := s) (updateKey.getD a.key) value
        (normalizeSaveTier w.toConfig a.tier) a.conflictCheck
      have hgo := hconflicts.congr (fun t _ => and_iff_right (rfl : (none : Option ShortCircuit) = none))
      exact hgo.before (fun _ => Triple.pure (fun _ h => h)) (fun _ => Triple.pure (fun _ h => h))

theorem prepareUnder_decides (a : SaveArgs) (value agentScope : String)
    (mgExplicit : Option (Option String)) (updateKey : Option String) :
    Decides (Untouched w.toConfig anyKey s) (SettledHarms w a value updateKey)
      (prepareUnder w a value agentScope mgExplicit updateKey) (PrepClean w s) (PrepScarred w s a)
      (Untouched w.toConfig anyKey s) (fun t => ¬ Untouched w.toConfig anyKey s t) := by
  refine (dedupAndConflicts_decides a value updateKey).before (fun r => ?_) (fun r => ?_)
  · rcases r with short | o
    · exact Triple.pure (fun t h herr => Bool.noConfusion (h.symm.trans herr))
    · exact Triple.pure (fun _ h => h)
  · rcases r with short | o
    · exact fun _ h => h.elim
    · exact Triple.pure (fun _ h => h)

theorem prepareSave_decides (a : SaveArgs) :
    Decides (Untouched w.toConfig anyKey s) (PrepareHarms w a) (prepareSave w a)
      (PrepClean w s) (PrepScarred w s a) (Untouched w.toConfig anyKey s)
      (fun t => ¬ Untouched w.toConfig anyKey s t) := by
  have hcheck : Triple (Untouched w.toConfig anyKey s) (checkSave w a)
      (fun _ => Untouched w.toConfig anyKey s) (fun _ => Untouched w.toConfig anyKey s) :=
    ((checkSave_untouched a).triple (fun _ _ h => h)).mono (fun _ => id) (fun _ _ h => h.1)
      (fun _ _ => id)
  refine Decides.after hcheck (fun r => ?_)
  rcases r with short | ⟨value, agentScope, mgExplicit⟩
  · exact Decides.pure (fun _ h _ => h) (fun _ _ h => h)
  refine (applyWritePolicy_decides a.key value).bind (fun outcome => ?_) (fun _ _ h => h.elim)
  cases outcome with
  | stop short =>
    exact Decides.pure (fun _ h herr => Bool.noConfusion (h.symm.trans herr)) (fun _ _ h => h)
  | update target => exact prepareUnder_decides a value agentScope mgExplicit (some target)
  | proceed => exact prepareUnder_decides a value agentScope mgExplicit none

end Prepare

/-- The call raised, or returned an error dict. -/
def failed : Except Raised SaveResult → Bool
  | .error _ => true
  | .ok (.dict d) => d.isError
  | .ok (.entry _) => false

/-- Before it fails, the save would take a side effect that it does not undo: a judged deletion or
an eviction that loses its row or takes effect, a closed conflict, or its own stored row. -/
def SaveHarms (w : World) (a : SaveArgs) (s : Store) : Prop :=
  argumentError w.toConfig a = none ∧ (PrepareHarms w a s ∨ Leads (prepareSave w a) s (fun r t =>
    match r with
    | .error _ => False
    | .ok p => StoreHarms w s (inferredArgs w.toConfig a) p t))

section Save
variable {w : World} {s : Store}

theorem answerShort_clean (short : ShortCircuit) :
    Triple (fun t => short.isError = true → Untouched w.toConfig anyKey s t) (answerShort short)
      (fun r t => failed (.ok r) = true → Untouched w.toConfig anyKey s t) (fun _ _ => False) := by
  cases short with
  | error code message => exact Triple.pure (fun _ h _ => h rfl)
  | noop key reasoning => exact Triple.pure (fun _ _ h => Bool.noConfusion h)
  | deleted key reasoning => exact Triple.pure (fun _ _ h => Bool.noConfusion h)
  | found e => exact Triple.pure (fun _ _ h => Bool.noConfusion h)
  | coalesced key tier confidence memoryGroup =>
    intro t _
    simp only [answerShort, Prog.bind_run, getEntry_run]
    cases t.entries.get? key <;> exact fun h => Bool.noConfusion h

/-- What the outcome of the preparation leads to. -/
theorem settlePrepared_decides (a : SaveArgs) (r : Except ShortCircuit SavePrep) :
    Decides (PrepClean w s r)
      (fun t => match r with
        | .error _ => False
        | .ok p => StoreHarms w s (inferredArgs w.toConfig a) p t)
      (match r with
        | .error d => answerShort d
        | .ok p => do
          let entry ← storePrepared w (maybeConsolidate w) (inferredArgs w.toConfig a) p
          pure (.entry entry))
      (fun r t => failed (.ok r) = true → Untouched w.toConfig anyKey s t)
      (fun r t => failed (.ok r) = true → ¬ Untouched w.toConfig anyKey s t)
      (Untouched w.toConfig anyKey s) (fun t => ¬ Untouched w.toConfig anyKey s t) := by
  rcases r with short | p
  · exact Decides.harmless ((answerShort_clean short).mono (fun _ => id) (fun _ _ => id)
      (fun _ _ h => h.elim))
  · exact (storePrepared_decides p).before
      (fun _ => Triple.pure (fun _ _ h => Bool.noConfusion h))
      (fun _ => Triple.pure (fun _ _ h => Bool.noConfusion h))

theorem save_decides (a : SaveArgs) :
    Decides (fun t => t = s) (SaveHarms w a) (save w a)
      (fun r t => failed (.ok r) = true → Untouched w.toConfig anyKey s t)
      (fun r t => failed (.ok r) = true → ¬ Untouched w.toConfig anyKey s t)
      (Untouched w.toConfig anyKey s) (fun t => ¬ Untouched w.toConfig anyKey s t) := by
  unfold save saveWith SaveHarms
  cases argumentError w.toConfig a with
  | some msg =>
    refine ⟨Triple.raise (fun t h => ?_), fun _ h => ?_⟩
    · rw [h.1]
      exact Untouched.refl s
    · cases h.2.1
  | none =>
    have hrun := (prepareSave_decides (w := w) (s := s) a).bind (settlePrepared_decides a)
      (T := fun r t => failed (.ok r) = true → ¬ Untouched w.toConfig anyKey s t) (fun r => ?_)
    · have hstart : ∀ t, t = s → Untouched w.toConfig anyKey s t := by
        intro t ht
        rw [ht]
        exact Untouched.refl s
      apply (hrun.mono hstart (fun _ _ => id) (fun _ _ => id)).congr
      intro t ht
      subst ht
      exact and_iff_right rfl
    · rcases r with short | p
      · exact fun _ h => h.elim
      · have hstore := scar_storePrepared (w := w) (s := s) (a := inferredArgs w.toConfig a) p
        refine Triple.bind hstore (fun entry => ?_)
        exact Triple.pure (fun _ _ h => Bool.noConfusion h)

theorem save_untouched_iff {a : SaveArgs} {t : Store} {r : Except Raised SaveResult}
    (hrun : save w a s = (r, t)) (hfail : failed r = true) :
    Untouched w.toConfig anyKey s t ↔ ¬ SaveHarms w a s := by
  have h := (save_decides (w := w) (s := s) a).run rfl
  rw [hrun] at h
  rcases r with err | result
  · exact ⟨fun hu hd => h.2 hd hu, h.1⟩
  · exact ⟨fun hu hd => h.2 hd hfail hu, fun hd => h.1 hd hfail⟩

end Save
/-- A world in which any two texts contradict each other. -/
def quarrelWorld : World := Config.calm { Config.plain with
  consolidation := { enabled := false }
  textSimilarity := fun _ _ _ _ => 1 }

def quarrelStore : Store := (save quarrelWorld { key := "a", value := "the build is green" }).final {}

/-- One tag more than the model takes. -/
def overtagged : SaveArgs :=
  { key := "b", value := "the build is red", tags := some (List.replicate (MAX_TAGS + 1) "ci") }

theorem save_overtagged_fails : failed (save quarrelWorld overtagged {}).1 = true := by
  decide +kernel

end TappsBrain
