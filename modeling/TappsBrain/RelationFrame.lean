import TappsBrain.Rules

namespace TappsBrain
open Lib
set_option autoImplicit true
set_option relaxedAutoImplicit false

/-- The four ways an entry is removed. The two passes archive first and remove with `delete`. -/
inductive Removal where
  | delete | evict | gcArchive | refreshArchive
deriving DecidableEq, Repr

def deleteIf (w : World) (key : String) (archived : Bool) : StoreM Bool :=
  if archived then delete w key else pure false

/-- Remove `key`; whether it was removed. -/
def remove (w : World) (key : String) : Removal → StoreM Bool
  | .delete => delete w key
  | .evict => do
    evictEntryKey w key
    pure true
  | .gcArchive => do
    match ← getEntry key with
    | none => pure false
    | some scanned => do
      let archived ← gcArchiveOne w scanned
      deleteIf w key archived
  | .refreshArchive => do
    let archived ← refreshArchiveOne w key
    deleteIf w key archived

/-- `_evict_entry_key` drops the bucket of the key alone; `delete` also purges the others. -/
def Removal.purges : Removal → Bool
  | .evict => false
  | _ => true

/-- The same relations in the same order, `key` aside in their provenance. -/
def SameUpTo (key : String) (a b : List RelationEntry) : Prop :=
  a.map (detached key) = b.map (detached key)

/-- A cached bucket lists the durable relations of its key. -/
def BucketAgrees (s : Store) (j : String) : Prop :=
  ∀ b, s.relations.get? j = some b → ∀ r, r ∈ b.rels ↔ r ∈ relationsOf s j

/-- The removal of `key` touched its own relations only, and the cache shows what is stored. -/
def RelationsFramed (key : String) (s t : Store) : Prop :=
  (∀ j, j ≠ key → SameUpTo key (relationsOf t j) (relationsOf s j)) ∧ ∀ j, BucketAgrees t j

/-- No stored triple lists `key` together with another source. -/
def Unshared (key : String) (s : Store) : Prop :=
  ∀ r ∈ s.relationRows.values, key ∈ r.sourceEntryKeys → ∀ j ∈ r.sourceEntryKeys, j = key

/-- What a bucket holds once the rows that list `key` are dropped from it. -/
def purged (key : String) (rels : List RelationEntry) : List RelationEntry :=
  rels.filter (fun r => !r.sourceEntryKeys.contains key)

/-- Every other bucket lists what is stored, up to what this removal purges from it. -/
def BucketsCurrent (how : Removal) (key : String) (s : Store) : Prop :=
  ∀ j, j ≠ key → ∀ b, s.relations.get? j = some b →
    ∀ r, r ∈ (if how.purges then purged key b.rels else b.rels) ↔ r ∈ relationsOf s j

def SameRelations (s t : Store) : Prop :=
  t.relations = s.relations ∧ t.relationRows = s.relationRows

theorem SameRelations.bookkeeping (s : Store) : Bookkeeping (SameRelations s) where
  calls := fun _ h => h
  ticks := fun _ h => h
  checks := fun _ h => h
  audit := fun _ _ h => h
  archive := fun _ _ h => h
  inProgress := fun _ _ h => h

section Removal
variable {w : World} {s : Store} {key : String}

theorem SameRelations.ensureEntryCached :
    Keeps (SameRelations s) (ensureEntryCached w key) := by
  refine Keeps.ask.bind (fun r _ => ?_)
  cases r with
  | some e => exact Keeps.pure trivial
  | none =>
    have hload : Keeps (SameRelations s) (loadOne w key)
        (fun r => ∀ e, r = some e → True ∧ e.key = key) :=
      keeps_loadOne (SameRelations.bookkeeping s) (fun _ _ _ _ _ _ => trivial)
    refine hload.forget.bind (fun r _ => ?_)
    cases r with
    | none => exact Keeps.pure trivial
    | some e => exact Keeps.bind (Keeps.modify (fun _ h => h)) (fun _ _ => Keeps.pure trivial)

/-- The durable rows after the relations of `key` are gone, with the cache still as it was. -/
def RowsDropped (key : String) (s t : Store) : Prop :=
  t.relations = s.relations ∧
    t.relationRows = s.relationRows.filter (fun r => !r.sourceEntryKeys.contains key)

theorem rowsDropped_of_deleteRelations (removed : Option MemoryEntry) :
    Returns (SameRelations s) (deleteRelationsOrRestore w key removed)
      (fun _ t => RowsDropped key s t) := by
  refine Returns.rollback (Returns.bind (SameRelations.bookkeeping s |> keeps_backendCall).returns
    (fun _ => Triple.modify (fun t h => ?_)))
  exact ⟨h.1.1, by rw [h.1.2]⟩

theorem removeDurably_rowsDropped (entry : Option MemoryEntry) :
    Returns (SameRelations s) (removeDurably w key entry) (fun _ t => RowsDropped key s t) := by
  refine Returns.bind (Q := fun _ => SameRelations s) (Triple.modify (fun _ h => h)) (fun _ => ?_)
  refine Returns.bind (Q := fun _ => SameRelations s) (Returns.rollback
    ((keeps_deleteRow (SameRelations.bookkeeping s) (fun _ h => h)).returns.mono (fun _ => id)
      (fun _ _ h => h.1) (fun _ _ => id))) (fun _ => ?_)
  exact rowsDropped_of_deleteRelations entry

/-- The relations a removal leaves. -/
def AfterRemoval (how : Removal) (key : String) (s t : Store) : Prop :=
  t.relationRows = s.relationRows.filter (fun r => !r.sourceEntryKeys.contains key) ∧
    t.relations = if how.purges then purgeBuckets key s else s.relations.pop key

theorem delete_returns : Returns (SameRelations s) (delete w key)
    (fun removed t => removed = true → AfterRemoval .delete key s t) := by
  refine Returns.bind SameRelations.ensureEntryCached.returns (fun r => ?_)
  cases r with
  | none => exact Triple.pure (fun _ _ h => nomatch h)
  | some e =>
    refine Returns.bind ((removeDurably_rowsDropped (some e)).mono (fun _ h => h.1)
      (fun _ _ h => h) (fun _ _ => id)) (fun _ => ?_)
    refine Returns.bind (Q := fun _ => AfterRemoval .delete key s)
      (Triple.modify (fun t h => ⟨h.2, ?_⟩)) (fun _ => ?_)
    · simp only [purgeBuckets, h.1, Removal.purges, ↓reduceIte]
    · have haudit : Keeps (AfterRemoval .delete key s) (appendAudit w key (.delete e.tier.text)) :=
        keeps_appendAudit ⟨fun _ h => h, fun _ h => h, fun _ h => h, fun _ _ h => h,
          fun _ _ h => h, fun _ _ h => h⟩
      exact Returns.bind haudit.returns (fun _ => Triple.pure (fun _ h _ => h.1))

theorem evict_returns : Returns (SameRelations s) (evictEntryKey w key)
    (fun _ t => AfterRemoval .evict key s t) := by
  refine Returns.bind (Q := fun _ => SameRelations s) (Triple.read (fun _ h => h)) (fun entry => ?_)
  refine Returns.bind (removeDurably_rowsDropped entry) (fun _ => ?_)
  exact Triple.modify (fun t h => ⟨h.2, by simp only [h.1, Removal.purges]; rfl⟩)

theorem deleteIf_returns (archived : Bool) : Returns (SameRelations s) (deleteIf w key archived)
    (fun removed t => removed = true → AfterRemoval .delete key s t) := by
  cases archived with
  | true => exact delete_returns
  | false => exact Triple.pure (fun _ _ h => nomatch h)

theorem archiveEntry_sameRelations (e : MemoryEntry) :
    Returns (SameRelations s) (archiveEntry w e) (fun _ => SameRelations s) :=
  (keeps_archiveEntry (SameRelations.bookkeeping s)).returns.mono (fun _ => id)
    (fun _ _ h => h.1) (fun _ _ => id)

theorem gcArchiveOne_sameRelations (e : MemoryEntry) :
    Returns (SameRelations s) (gcArchiveOne w e) (fun _ => SameRelations s) := by
  refine Returns.bind (Q := fun _ => SameRelations s) (Triple.read (fun _ h => h)) (fun r => ?_)
  cases r with
  | none => exact Triple.pure (fun _ h => h)
  | some current =>
    dsimp only
    split
    · exact Triple.pure (fun _ h => h)
    · exact archiveEntry_sameRelations current

theorem refreshArchiveOne_sameRelations :
    Returns (SameRelations s) (refreshArchiveOne w key) (fun _ => SameRelations s) := by
  refine Returns.bind (Q := fun _ => SameRelations s) (Triple.read (fun _ h => h)) (fun r => ?_)
  cases r with
  | none => exact Triple.pure (fun _ h => h)
  | some current => exact archiveEntry_sameRelations current

theorem remove_returns (how : Removal) : Returns (SameRelations s) (remove w key how)
    (fun removed t => removed = true → AfterRemoval how key s t) := by
  cases how with
  | delete => exact delete_returns
  | evict => exact Returns.bind evict_returns (fun _ => Triple.pure (fun _ h _ => h))
  | gcArchive =>
    refine Returns.bind (Q := fun _ => SameRelations s) (Triple.read (fun _ h => h)) (fun r => ?_)
    cases r with
    | none => exact Triple.pure (fun _ _ h => nomatch h)
    | some scanned => exact Returns.bind (gcArchiveOne_sameRelations scanned) deleteIf_returns
  | refreshArchive => exact Returns.bind refreshArchiveOne_sameRelations deleteIf_returns

end Removal

theorem relationsOf_afterRemoval {how : Removal} {key : String} {s t : Store}
    (h : AfterRemoval how key s t) (j : String) :
    relationsOf t j = purged key (relationsOf s j) := by
  unfold relationsOf purged
  rw [h.1, Table.filter, List.filter_filter, List.filter_filter]
  congr 1
  funext r
  exact Bool.and_comm _ _

theorem mem_relationsOf {s : Store} {j : String} {r : RelationEntry} :
    r ∈ relationsOf s j ↔ r ∈ s.relationRows.values ∧ j ∈ r.sourceEntryKeys := by
  simp only [relationsOf, List.mem_filter, List.contains_iff_mem]

theorem mem_purged {key : String} {rels : List RelationEntry} {r : RelationEntry} :
    r ∈ purged key rels ↔ r ∈ rels ∧ key ∉ r.sourceEntryKeys := by
  simp only [purged, List.mem_filter, Bool.not_eq_true', List.contains_eq_mem, decide_eq_false_iff_not]

/-- The other keys keep their relations exactly when none of them shares a triple with `key`. -/
theorem sameUpTo_iff_unshared {how : Removal} {key : String} {s t : Store}
    (h : AfterRemoval how key s t) :
    (∀ j, j ≠ key → SameUpTo key (relationsOf t j) (relationsOf s j)) ↔ Unshared key s := by
  constructor
  · intro hsame r hr hk j hj
    by_contra hne
    have hmem : detached key r ∈ (relationsOf t j).map (detached key) := by
      rw [hsame j hne]
      exact List.mem_map_of_mem (mem_relationsOf.2 ⟨hr, hj⟩)
    obtain ⟨r', hr', heq⟩ := List.mem_map.1 hmem
    rw [relationsOf_afterRemoval h, mem_purged, mem_relationsOf] at hr'
    have htriple : (detached key r').triple = (detached key r).triple := by rw [heq]
    change r'.triple = r.triple at htriple
    have hrow := Table.get?_of_mem hr'.1.1
    rw [htriple, Table.get?_of_mem hr] at hrow
    cases hrow
    exact hr'.2 hk
  · intro hun j hne
    have hall : purged key (relationsOf s j) = relationsOf s j := by
      refine List.filter_eq_self.2 (fun r hr => ?_)
      rw [mem_relationsOf] at hr
      have hk : key ∉ r.sourceEntryKeys := fun hk => hne (hun r hr.1 hk j hr.2)
      simpa using hk
    rw [SameUpTo, relationsOf_afterRemoval h, hall]

theorem bucket_afterRemoval {how : Removal} {key : String} {s t : Store}
    (h : AfterRemoval how key s t) (j : String) :
    t.relations.get? j = if key = j then none else (s.relations.get? j).map
      (fun b => { b with rels := if how.purges then purged key b.rels else b.rels }) := by
  rw [h.2]
  cases how.purges with
  | true =>
    simp only [↓reduceIte, purgeBuckets, Table.get?_mapValues, Table.get?_pop]
    split <;> rfl
  | false =>
    simp only [Bool.false_eq_true, ↓reduceIte, Table.get?_pop]
    split
    · rfl
    · cases s.relations.get? j <;> rfl

theorem relationsFramed_iff {how : Removal} {key : String} {s t : Store}
    (hafter : AfterRemoval how key s t) :
    RelationsFramed key s t ↔ Unshared key s ∧ BucketsCurrent how key s := by
  rw [RelationsFramed, sameUpTo_iff_unshared hafter]
  refine and_congr_right (fun hun => ?_)
  have hrels (j : String) (hj : j ≠ key) (r : RelationEntry) :
      r ∈ relationsOf t j ↔ r ∈ relationsOf s j := by
    rw [relationsOf_afterRemoval hafter, mem_purged, mem_relationsOf]
    exact ⟨fun hr => hr.1, fun hr => ⟨hr, fun hk => hj (hun r hr.1 hk j hr.2)⟩⟩
  constructor
  · intro hagree j hj b hb r
    have hbt := bucket_afterRemoval hafter j
    rw [if_neg (Ne.symm hj), hb] at hbt
    exact (hagree j _ hbt r).trans (hrels j hj r)
  · intro hcur j b hb r
    rw [bucket_afterRemoval hafter] at hb
    split at hb
    · cases hb
    · next hne =>
      obtain ⟨b0, hb0, rfl⟩ := Option.map_eq_some_iff.1 hb
      exact (hcur j (Ne.symm hne) b0 hb0 r).trans (hrels j (Ne.symm hne) r).symm

/-- The removal of a key touches its own relations only, and leaves the cache true to the table,
exactly when no stored triple is shared with another key and the other buckets were current. -/
theorem remove_relationsFramed_iff (w : World) (how : Removal) (key : String) (s t : Store)
    (h : remove w key how s = (.ok true, t)) :
    RelationsFramed key s t ↔ Unshared key s ∧ BucketsCurrent how key s :=
  relationsFramed_iff ((remove_returns how).ok ⟨rfl, rfl⟩ h rfl)

/-- Every text states the same fact, as when two memories both name the team's database. -/
def sharedWorld : World := Config.calm { Config.plain with
  consolidation := { enabled := false }
  extractRelations := fun key _ => [⟨"team", "uses", "postgres", [key], 8 / 10⟩] }

def saveBoth : StoreM Unit := do
  let _ ← save sharedWorld { key := "a", value := "the team uses postgres" }
  let _ ← save sharedWorld { key := "b", value := "our team uses postgres" }

def sharedStore : Store := saveBoth.final {}

theorem remove_shared_runs : (remove sharedWorld "a" .delete sharedStore).1 = .ok true := by
  decide +kernel

theorem remove_relationsFramed_shared :
    RelationsFramed "a" sharedStore (remove sharedWorld "a" .delete sharedStore).2 ↔
      Unshared "a" sharedStore ∧ BucketsCurrent .delete "a" sharedStore :=
  remove_relationsFramed_iff sharedWorld .delete "a" sharedStore _
    (Prod.ext remove_shared_runs rfl)

/-- Deleting one of two memories that state the same fact takes the fact from the other. -/
theorem remove_shared_not_framed :
    (remove sharedWorld "a" .delete sharedStore).1 = .ok true ∧
      ¬ RelationsFramed "a" sharedStore (remove sharedWorld "a" .delete sharedStore).2 := by
  refine ⟨remove_shared_runs, fun h => ?_⟩
  have hafter : AfterRemoval .delete "a" sharedStore (remove sharedWorld "a" .delete sharedStore).2 :=
    (remove_returns .delete).ok ⟨rfl, rfl⟩ (Prod.ext remove_shared_runs rfl) rfl
  have hshared : sharedStore.relationRows.values.any
      (fun r => r.sourceEntryKeys.contains "a" && r.sourceEntryKeys.contains "b") = true := by
    decide +kernel
  obtain ⟨r, hr, hkeys⟩ := List.any_eq_true.1 hshared
  rw [Bool.and_eq_true, List.contains_iff_mem, List.contains_iff_mem] at hkeys
  have := ((relationsFramed_iff hafter).1 h).1 r hr hkeys.1 "b" hkeys.2
  exact absurd this (by decide)

end TappsBrain
