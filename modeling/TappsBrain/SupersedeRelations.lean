import TappsBrain.MergeDiscipline
import TappsBrain.MissionStateKept
import TappsBrain.RelationsAside
import TappsBrain.SupersedeAtomicity

namespace TappsBrain
open Lib
set_option autoImplicit true
set_option relaxedAutoImplicit false
-- Unfolding `Triple` would run the program it speaks of.
attribute [local irreducible] Triple

/-- The table lists the triple under the key. -/
def Listed (rows : Table RelationEntry.triple) (key : String) (τ : String × String × String) : Prop :=
  ∃ r, rows.get? τ = some r ∧ key ∈ r.sourceEntryKeys

/-- `load_relations` gives the triple for the key. -/
def HasTriple (s : Store) (key : String) (τ : String × String × String) : Prop :=
  Listed s.relationRows key τ

section Triples
variable {rows : Table RelationEntry.triple} {s t : Store} {key j : String}
  {τ : String × String × String} {r : RelationEntry} {rels : List RelationEntry}

theorem hasTriple_iff : HasTriple s key τ ↔ ∃ r ∈ relationsOf s key, r.triple = τ := by
  constructor
  · rintro ⟨r, hr, hk⟩
    exact ⟨r, mem_relationsOf.2 ⟨Table.mem_of_get? hr, hk⟩, Table.key_of_get? hr⟩
  · rintro ⟨r, hr, rfl⟩
    obtain ⟨hm, hk⟩ := mem_relationsOf.1 hr
    exact ⟨r, Table.get?_of_mem hm, hk⟩

theorem mem_mergedRelation : j ∈ (mergedRelation rows r).sourceEntryKeys ↔
    Listed rows j r.triple ∨ j ∈ r.sourceEntryKeys := by
  unfold mergedRelation Listed
  cases hr : rows.get? r.triple with
  | some old =>
    rw [List.mem_eraseDups, List.mem_append]
    constructor
    · rintro (h | h)
      · exact .inl ⟨old, rfl, h⟩
      · exact .inr h
    · rintro (⟨old', hold, h⟩ | h)
      · cases hold
        exact .inl h
      · exact .inr h
  | none =>
    constructor
    · exact .inr
    · rintro (⟨old', hold, -⟩ | h)
      · cases hold
      · exact h

theorem listed_set : Listed (rows.set (mergedRelation rows r)) j τ ↔
    Listed rows j τ ∨ r.triple = τ ∧ j ∈ r.sourceEntryKeys := by
  by_cases hτ : r.triple = τ
  · subst hτ
    have hself : (rows.set (mergedRelation rows r)).get? r.triple = some (mergedRelation rows r) := by
      have hget := Table.get?_set_self rows (mergedRelation rows r)
      rwa [mergedRelation_triple] at hget
    constructor
    · rintro ⟨r', hr', hj⟩
      rw [hself] at hr'
      cases hr'
      exact (mem_mergedRelation.1 hj).imp id (fun h => ⟨rfl, h⟩)
    · intro h
      exact ⟨_, hself, mem_mergedRelation.2 (h.imp id (fun h => h.2))⟩
  · have hne : (rows.set (mergedRelation rows r)).get? τ = rows.get? τ := by
      apply Table.get?_set_ne
      rwa [mergedRelation_triple]
    unfold Listed
    rw [hne]
    constructor
    · exact .inl
    · rintro (h | ⟨h, -⟩)
      · exact h
      · exact absurd h hτ

/-- The upsert adds the triples of the batch under their keys and its own, and takes none away. -/
theorem listed_upsert : Listed (upsertRelations key rels rows) j τ ↔
    Listed rows j τ ∨ ∃ r ∈ rels, r.triple = τ ∧ (j ∈ r.sourceEntryKeys ∨ j = key) := by
  unfold upsertRelations
  induction rels generalizing rows with
  | nil =>
    constructor
    · exact .inl
    · rintro (h | ⟨r, hr, -⟩)
      · exact h
      · cases hr
  | cons r rest ih =>
    have hkeys : j ∈ (withSource key r).sourceEntryKeys ↔ j ∈ r.sourceEntryKeys ∨ j = key := by
      rw [withSource, List.mem_eraseDups, List.mem_append, List.mem_singleton]
    rw [List.foldl_cons, ih, listed_set, hkeys]
    constructor
    · rintro ((h | ⟨hτ, hj⟩) | ⟨r', hr', h⟩)
      · exact .inl h
      · exact .inr ⟨r, List.mem_cons_self, hτ, hj⟩
      · exact .inr ⟨r', List.mem_cons_of_mem r hr', h⟩
    · rintro (h | ⟨r', hr', h⟩)
      · exact .inl (.inl h)
      · rcases List.mem_cons.1 hr' with rfl | hr'
        · exact .inl (.inr h)
        · exact .inr ⟨r', hr', h⟩

end Triples

/-- Relations were added under `key` only, and none was taken away. -/
structure RelationsGrown (s : Store) (key : String) (t : Store) : Prop where
  kept : ∀ j τ, HasTriple s j τ → HasTriple t j τ
  fresh : ∀ j, j ≠ key → ∀ τ, HasTriple t j τ → HasTriple s j τ
  others : ∀ j, j ≠ key → t.relations.get? j = s.relations.get? j
  bucket : BucketAgrees s key → BucketAgrees t key

theorem RelationsGrown.aside (s : Store) (key : String) : Aside (RelationsGrown s key) where
  bookkeeping := ⟨fun _ h => ⟨h.1, h.2, h.3, h.4⟩, fun _ h => ⟨h.1, h.2, h.3, h.4⟩,
    fun _ h => ⟨h.1, h.2, h.3, h.4⟩, fun _ _ h => ⟨h.1, h.2, h.3, h.4⟩,
    fun _ _ h => ⟨h.1, h.2, h.3, h.4⟩, fun _ _ h => ⟨h.1, h.2, h.3, h.4⟩⟩
  entries := fun _ _ h => ⟨h.1, h.2, h.3, h.4⟩
  rows := fun _ _ h => ⟨h.1, h.2, h.3, h.4⟩

theorem SameRelations.grown {s t : Store} (h : SameRelations s t) (key : String) :
    RelationsGrown s key t := by
  have hlists : ∀ j τ, HasTriple t j τ ↔ HasTriple s j τ := by
    intro j τ
    rw [HasTriple, h.2, HasTriple]
  refine ⟨fun j τ => (hlists j τ).2, fun j _ τ => (hlists j τ).1, fun j _ => by rw [h.1], ?_⟩
  intro hb b hget r
  rw [h.1] at hget
  rw [hb b hget r, relationsOf, relationsOf, h.2]

/-- Relations come from the text of their entry. -/
def ExtractsOwn (c : Config) : Prop :=
  ∀ key value, ∀ r ∈ c.extractRelations key value, r.sourceEntryKeys = [key]

/-- The rows of a batch are written, and the cache is as it was. -/
structure BatchStored (s : Store) (key : String) (rels : List RelationEntry) (t : Store) : Prop where
  cache : t.relations = s.relations
  rows : t.relationRows = upsertRelations key rels s.relationRows

theorem BatchStored.bookkeeping (s : Store) (key : String) (rels : List RelationEntry) :
    Bookkeeping (BatchStored s key rels) :=
  ⟨fun _ h => ⟨h.1, h.2⟩, fun _ h => ⟨h.1, h.2⟩, fun _ h => ⟨h.1, h.2⟩, fun _ _ h => ⟨h.1, h.2⟩,
    fun _ _ h => ⟨h.1, h.2⟩, fun _ _ h => ⟨h.1, h.2⟩⟩

/-- The store once the bucket of `key` was read back after the batch. -/
structure Reloaded (s : Store) (key : String) (rels : List RelationEntry) (t : Store) : Prop where
  cache : t.relations = s.relations.set ⟨key, relationsOf t key⟩
  rows : t.relationRows = upsertRelations key rels s.relationRows

section Batch
variable {w : World} {s t : Store} {key j : String} {rels : List RelationEntry}

theorem saveRelationRows_stores :
    Returns (SameRelations s) (saveRelationRows w key rels) (fun _ => BatchStored s key rels) := by
  unfold saveRelationRows
  split
  · next h =>
    apply Triple.pure
    intro t ht
    subst h
    exact ⟨ht.1, ht.2⟩
  · apply Returns.bind (keeps_backendCall (SameRelations.bookkeeping s)).returns
    intro _
    apply Triple.modify
    intro t ht
    exact ⟨ht.1.1, congrArg (upsertRelations key rels) ht.1.2⟩

/-- A batch is written and the bucket of its key read back. -/
theorem batch_reloads : Returns (SameRelations s) (do
    saveRelationRows w key rels
    let loaded ← loadRelationRows w key
    setBucket key loaded) (fun _ => Reloaded s key rels) := by
  apply Returns.bind saveRelationRows_stores
  intro _
  have hload : Returns (BatchStored s key rels) (loadRelationRows w key)
      (fun r t => BatchStored s key rels t ∧ r = relationsOf t key) := by
    apply Returns.bind (keeps_backendCall (BatchStored.bookkeeping s key rels)).returns
    intro _
    exact Triple.read (fun t ht => ⟨ht.1, rfl⟩)
  apply Returns.bind hload
  intro loaded
  apply Triple.modify
  rintro t ⟨ht, rfl⟩
  exact ⟨by rw [ht.cache]; rfl, ht.rows⟩

theorem Reloaded.agrees (h : Reloaded s key rels t) : BucketAgrees t key := by
  intro b hb r
  rw [h.cache, show key = Bucket.key ⟨key, relationsOf t key⟩ from rfl, Table.get?_set_self] at hb
  cases hb
  exact Iff.rfl

theorem Reloaded.others (h : Reloaded s key rels t) (hj : j ≠ key) :
    t.relations.get? j = s.relations.get? j := by
  rw [h.cache]
  exact Table.get?_set_ne _ (Ne.symm hj)

theorem Reloaded.listed (h : Reloaded s key rels t) {τ : String × String × String} :
    HasTriple t j τ ↔
      HasTriple s j τ ∨ ∃ r ∈ rels, r.triple = τ ∧ (j ∈ r.sourceEntryKeys ∨ j = key) := by
  rw [HasTriple, h.rows]
  exact listed_upsert

/-- A batch whose rows name its own key only. -/
theorem Reloaded.grown (h : Reloaded s key rels t) (hown : ∀ r ∈ rels, r.sourceEntryKeys = [key]) :
    RelationsGrown s key t := by
  refine ⟨fun j τ hτ => h.listed.2 (.inl hτ), ?_, fun j hj => h.others hj, fun _ => h.agrees⟩
  intro j hj τ hτ
  rcases h.listed.1 hτ with hτ | ⟨r, hr, -, hkey | hkey⟩
  · exact hτ
  · rw [hown r hr, List.mem_singleton] at hkey
    exact absurd hkey hj
  · exact absurd hkey hj

end Batch

section Save
variable {w : World} {s : Store} {key : String}

theorem persistRelations_grows (hown : ExtractsOwn w.toConfig) (value : String) :
    Returns (SameRelations s) (persistRelations w key value) (fun _ => RelationsGrown s key) := by
  unfold persistRelations
  dsimp only
  split
  · exact Triple.pure (fun t ht => ht.grown key)
  · apply Returns.bind (Keeps.ask (f := cachedRelationCount key)).returns
    intro count
    split
    · exact Triple.pure (fun t ht => ht.1.grown key)
    · apply batch_reloads.mono (fun t ht => ht.1) _ (fun _ _ => id)
      intro _ t ht
      apply ht.grown
      intro r hr
      exact hown key value r (List.mem_of_mem_take hr)

/-- Only a verdict that deletes an entry touches relations. -/
theorem applyWritePolicy_same (value : String) :
    Returns (SameRelations s) (applyWritePolicy w key value)
      (fun o t => (∀ target reason, o ≠ .stop (.deleted target reason)) → SameRelations s t) := by
  have hI := SameRelations.aside s
  unfold applyWritePolicy
  split
  · exact Triple.pure (fun t ht _ => ht)
  · next decide _ =>
    apply Returns.bind (hI.mergeDurableEntries false).returns
    intro _
    apply Returns.bind (Q := fun _ => SameRelations s) (Triple.read (fun t ht => ht.1))
    intro candidates
    unfold applyVerdict
    split
    · exact Triple.read (fun t ht _ => ht)
    · next target _ _ =>
      split
      · apply Returns.bind Returns.any
        intro _
        exact Triple.pure (fun t _ hno => absurd rfl (hno target _))
      · exact Triple.pure (fun t ht _ => ht)
    · split
      · exact Triple.pure (fun t ht _ => ht)
      · exact Triple.pure (fun t ht _ => ht)
    · exact Triple.pure (fun t ht _ => ht)

theorem prepareSave_same (a : SaveArgs) :
    Returns (SameRelations s) (prepareSave w a)
      (fun r t => (∀ target reason, r ≠ .error (.deleted target reason)) → SameRelations s t) := by
  have hI := SameRelations.aside s
  apply Returns.bind (hI.checkSave a).returns
  intro r
  rcases r with short | ⟨value, agentScope, mgExplicit⟩
  · exact Triple.pure (fun t ht _ => ht.1)
  · have hunder : ∀ updateKey, Returns (SameRelations s)
        (prepareUnder w a value agentScope mgExplicit updateKey)
        (fun r t => (∀ target reason, r ≠ .error (.deleted target reason)) → SameRelations s t) :=
      fun updateKey => (hI.prepareUnder a value agentScope mgExplicit updateKey).returns.mono
        (fun _ => id) (fun _ _ h _ => h.1) (fun _ _ => id)
    apply Returns.bind ((applyWritePolicy_same value).mono (fun t ht => ht.1) (fun _ _ => id)
      (fun _ _ => id))
    intro o
    cases o with
    | stop short =>
      apply Triple.pure
      intro t ht hno
      apply ht
      rintro target reason h
      cases h
      exact hno target reason rfl
    | proceed =>
      exact (hunder none).mono (fun t ht => ht (fun _ _ h => nomatch h)) (fun _ _ => id)
        (fun _ _ => id)
    | update target =>
      exact (hunder (some target)).mono (fun t ht => ht (fun _ _ h => nomatch h)) (fun _ _ => id)
        (fun _ _ => id)

section Room
variable {φ : MemoryEntry → Prop} {K : List String} (hφ : Steady w.toConfig φ)
include hφ

theorem countEntries_same (group : Option String) :
    Keeps (fun t => SameRelations s t ∧ Parked noKey φ K t) (countEntriesInMemoryGroup w group)
      (fun n => n ≤ K.length) := by
  have hcount : Keeps (SameRelations s) (countEntriesInMemoryGroup w group) := by
    apply ((SameRelations.aside s).loadAll none).bind
    intro durable _
    apply (Keeps.modify (fun t ht => (SameRelations.aside s).entries t _ ht)).bind
    exact fun _ _ => Keeps.ask
  exact (hcount.both (Parked.countEntriesInMemoryGroup_keeps hφ group)).weaken (fun _ h => h.2)

/-- With room for one more key the caps take nobody's relations. -/
theorem enforceEntryCaps_same (hroom : Parked.Roomy w K) (group : Option String)
    (existing : Option MemoryEntry) :
    Keeps (fun t => SameRelations s t ∧ Parked noKey φ K t)
      (enforceEntryCapsBeforeAssign w group existing) :=
  Parked.enforceEntryCaps_roomy hroom (countEntries_same hφ) (fun _ hs => hs.2.size_le) group
    existing

end Room

/-- Any entry is fit for a slot that nobody parks. -/
def anyEntry (_ : MemoryEntry) : Prop := True

theorem anyEntry_steady (c : Config) : Steady c anyEntry :=
  ⟨fun _ _ _ _ => trivial, fun _ _ _ => trivial, fun _ _ _ _ _ _ _ => trivial,
    fun _ _ _ _ => trivial, fun _ _ _ => trivial⟩

/-- The keys held are among `K`. -/
def within (w : World) (K : List String) : Discipline w :=
  Parked.discipline w (anyEntry_steady w.toConfig) noKey K

theorem within_writes {K : List String} {e e' : MemoryEntry} (h : (within w K).sees e)
    (hk : e'.key = e.key) : (within w K).writes e' := ⟨hk ▸ h.1, fun h => h⟩

theorem within_prepare {K : List String} (key : String) : (within w K).AllowsPrepare key where
  reinforce :=
    { reinforced := fun _ _ hsees _ _ =>
        ⟨within_writes hsees rfl, within_writes hsees (reinforced_key _ _ _ _)⟩
      promoted := fun _ _ _ _ _ hsees _ _ _ _ =>
        within_writes hsees (by rw [promoted_key, reinforced_key]) }
  invalidate := fun _ _ _ _ hsees _ _ =>
    ⟨within_writes hsees rfl, within_writes hsees (invalidatedBy_key _ _ _)⟩

section Grow
variable {K : List String} {a : SaveArgs} {consolidate : MemoryEntry → StoreM Unit}

/-- The new row brings the relations of its text. -/
theorem storePrepared_grows {p : SavePrep} (hown : ExtractsOwn w.toConfig)
    (hroom : Parked.Roomy w K)
    (hmerge : w.consolidation.enabled = false ∨ a.skipConsolidation = true) :
    Returns (fun t => SameRelations s t ∧ (within w K).inv t) (storePrepared w consolidate a p)
      (fun e => RelationsGrown s e.key) := by
  have hI := SameRelations.aside s
  have hbuild : Keeps (fun t => SameRelations s t ∧ (within w K).inv t)
      (buildEntry w (preparedArgs a p) p.mgExplicit) :=
    ((hI.buildEntry _ _).both ((within w K).builds _ _).forget).forget
  have hassign : Returns (fun t => SameRelations s t ∧ (within w K).inv t)
      (buildAndAssignEntry w (preparedArgs a p) p.mgExplicit) (fun _ => SameRelations s) := by
    apply Returns.bind (hbuild.returns.mono (fun _ => id) (fun _ _ h => h.1) (fun _ _ => id))
    intro built
    apply Returns.bind ((enforceEntryCaps_same (anyEntry_steady w.toConfig) hroom _ _).returns.mono
      (fun _ => id) (fun _ _ h => h.1.1) (fun _ _ => id))
    intro _
    apply Returns.bind (hI.setEntry built.1).returns
    intro _
    exact Triple.pure (fun t ht => ht.1)
  apply Returns.bind hassign
  intro built
  apply Returns.bind ((hI.persistEntryOrRollback built.1 built.2).returns.mono (fun _ => id)
    (fun _ _ h => h.1) (fun _ _ => id))
  intro _
  have hpost : Returns (SameRelations s)
      (postprocessSavedEntry w consolidate built.1 built.2 a.skipConsolidation)
      (fun _ => RelationsGrown s built.1.key) := by
    apply Returns.bind ((keeps_appendAudit hI.bookkeeping).returns.mono (fun _ => id)
      (fun _ _ h => h.1) (fun _ _ => id))
    intro _
    apply Returns.bind (persistRelations_grows hown built.1.value)
    intro _
    apply Returns.bind (Q := fun _ => RelationsGrown s built.1.key) (Triple.read (fun t ht => ht))
    intro inProgress
    have hoff : (w.consolidation.enabled && !a.skipConsolidation) = false := by
      rcases hmerge with h | h
      · rw [h, Bool.false_and]
      · rw [h, Bool.not_true, Bool.and_false]
    rw [hoff, Bool.false_and, Bool.false_and, if_neg Bool.false_ne_true]
    exact Triple.pure (fun t ht => ht)
  apply Returns.bind hpost
  intro _
  exact Triple.pure (fun t ht => ht)

theorem answerShort_grows (d : ShortCircuit) :
    Returns (fun t => (∀ target reason, d ≠ .deleted target reason) → SameRelations s t)
      (answerShort d) (fun r t => ∀ e, r = .entry e → RelationsGrown s e.key t) := by
  cases d with
  | coalesced key _ _ _ =>
    apply Returns.bind (Q := fun _ => SameRelations s)
      (Triple.read (fun t ht => ht (fun _ _ h => nomatch h)))
    intro found
    cases found with
    | none => exact Triple.pure (fun t _ e he => nomatch he)
    | some e => exact Triple.pure (fun t ht e' _ => ht.grown e'.key)
  | found e => exact Triple.pure (fun t ht e' _ => (ht (fun _ _ h => nomatch h)).grown e'.key)
  | error _ _ => exact Triple.pure (fun t _ e he => nomatch he)
  | noop _ _ => exact Triple.pure (fun t _ e he => nomatch he)
  | deleted _ _ => exact Triple.pure (fun t _ e he => nomatch he)

/-- A save that returns an entry took no relation away. -/
theorem saveWith_grows (hown : ExtractsOwn w.toConfig) (hroom : Parked.Roomy w K)
    (hmerge : w.consolidation.enabled = false ∨ a.skipConsolidation = true) :
    Returns (fun t => SameRelations s t ∧ (within w K).inv t) (saveWith w consolidate a)
      (fun r t => ∀ e, r = .entry e → RelationsGrown s e.key t) := by
  unfold saveWith
  split
  · exact Returns.raise
  have hwithin : Keeps (within w K).inv (prepareSave w a) :=
    ((within w K).prepareSave a (fun _ h => within_writes h rfl) within_prepare).forget
  have hprepare : Returns (fun t => SameRelations s t ∧ (within w K).inv t) (prepareSave w a)
      (fun r t => ((∀ target reason, r ≠ .error (.deleted target reason)) → SameRelations s t) ∧
        (within w K).inv t) :=
    Triple.mono (Triple.and (prepareSave_same (s := s) a) hwithin.returns) (fun _ => id)
      (fun _ _ h => ⟨h.1, h.2.1⟩) (fun _ _ _ => trivial)
  apply Returns.bind hprepare
  intro r
  rcases r with short | p
  · apply (answerShort_grows short).mono _ (fun _ _ => id) (fun _ _ => id)
    intro t ht hno
    exact ht.1 (fun target reason h => hno target reason (Except.error.inj h))
  · apply Returns.bind (Q := fun e => RelationsGrown s e.key)
    · apply (storePrepared_grows (p := p) hown hroom _).mono _ (fun _ _ => id) (fun _ _ => id)
      · exact hmerge
      · exact fun t ht => ⟨ht.1 (fun _ _ h => nomatch h), ht.2⟩
    · intro entry
      apply Triple.pure
      intro t ht e he
      cases he
      exact ht

end Grow
end Save

/-- What supersession says of the relations of `key` and of its successor `new`. -/
structure CarriesOver (s : Store) (key new : String) (t : Store) : Prop where
  carried : ∀ τ, HasTriple s key τ → HasTriple t new τ
  cached : BucketAgrees t new
  kept : ∀ j, j ≠ key → ∀ τ, HasTriple s j τ → HasTriple t j τ

/-- The relations of `key` are read, and only `new` gained some. -/
structure Fetched (s : Store) (key new : String) (rels : List RelationEntry) (t : Store) : Prop where
  kept : ∀ j τ, HasTriple s j τ → HasTriple t j τ
  bucket : BucketAgrees s new → BucketAgrees t new
  shows : ∀ τ, (∃ r ∈ rels, r.triple = τ) ↔ HasTriple s key τ

/-- The relations as `supersede` hands them to the new key. -/
def rekeyed (new : String) (rels : List RelationEntry) : List RelationEntry :=
  rels.map (fun r => { r with sourceEntryKeys := [new] })

/-- The store once the rows of `key` were to be deleted by the last call. -/
structure Cleared (w : World) (key : String) (u t : Store) : Prop where
  cache : t.relations = u.relations
  rows : t.relationRows = if w.refuses (t.calls - 1) = true then u.relationRows
    else u.relationRows.filter (fun r => !r.sourceEntryKeys.contains key)

/-- The relations of the old key are carried over exactly when there are none, or when their
delete, the last backend call, is refused. -/
def CarriesUnlessCleared (w : World) (s : Store) (key new : String) (t : Store) : Prop :=
  BucketAgrees s new → (CarriesOver s key new t ↔
    (relationsOf s key = [] ∨ w.refuses (t.calls - 1) = true))

section Transfer
variable {w : World} {s t u v : Store} {key new : String} {rels : List RelationEntry}
  {τ : String × String × String}

theorem Fetched.empty_iff (h : Fetched s key new rels t) : relationsOf s key = [] ↔ rels = [] := by
  constructor
  · intro hnone
    rw [List.eq_nil_iff_forall_not_mem]
    intro r hr
    obtain ⟨r', hr', -⟩ := hasTriple_iff.1 ((h.shows r.triple).1 ⟨r, hr, rfl⟩)
    rw [hnone] at hr'
    cases hr'
  · intro hnone
    rw [List.eq_nil_iff_forall_not_mem]
    intro r hr
    obtain ⟨r', hr', -⟩ := (h.shows r.triple).2 (hasTriple_iff.2 ⟨r, hr, rfl⟩)
    rw [hnone] at hr'
    cases hr'

/-- Cached or loaded, the relations shown for the old key are the stored ones. -/
theorem getRelations_fetches (hne : key ≠ new) (hold : BucketAgrees s key) :
    Returns (RelationsGrown s new) (getRelations w key) (fun rels => Fetched s key new rels) := by
  have hlists : ∀ {u}, RelationsGrown s new u → ∀ τ, HasTriple u key τ ↔ HasTriple s key τ :=
    fun hu τ => ⟨hu.fresh key hne τ, hu.kept key τ⟩
  unfold getRelations
  apply Returns.bind (Q := fun b u => b = u.relations.get? key ∧ RelationsGrown s new u)
    (Triple.read (fun u hu => ⟨rfl, hu⟩))
  intro b
  cases b with
  | some b =>
    apply Triple.pure
    intro u hu
    refine ⟨hu.2.kept, hu.2.bucket, fun τ => ?_⟩
    have hshown := hold b ((hu.2.others key hne).symm.trans hu.1.symm)
    rw [hasTriple_iff]
    simp only [hshown]
  | none =>
    have hload : Returns (fun u => none = u.relations.get? key ∧ RelationsGrown s new u)
        (loadRelationRows w key) (fun rels u => RelationsGrown s new u ∧ rels = relationsOf u key) := by
      apply Returns.bind (Q := fun _ => RelationsGrown s new)
      · exact (keeps_backendCall (RelationsGrown.aside s new).bookkeeping).returns.mono
          (fun u hu => hu.2) (fun _ _ h => h.1) (fun _ _ => id)
      · intro _
        exact Triple.read (fun u hu => ⟨hu, rfl⟩)
    apply Returns.bind hload
    intro loaded
    apply Returns.bind (Q := fun _ => Fetched s key new loaded)
    · apply Triple.modify
      rintro u ⟨hu, rfl⟩
      refine ⟨hu.kept, fun hb b hget => ?_, fun τ => ?_⟩
      · have hget' : u.relations.get? new = some b :=
          (Table.get?_set_ne u.relations (v := ⟨key, relationsOf u key⟩) hne).symm.trans hget
        exact hu.bucket hb b hget'
      · rw [← hlists hu]
        exact hasTriple_iff.symm
    · intro _
      exact Triple.pure (fun u hu => hu)

-- From here on runs are followed step by step.
attribute [local semireducible] Triple

theorem deleteRelationRows_clears :
    Returns (fun t => t = u) (Prog.swallow (deleteRelationRows w key))
      (fun _ => Cleared w key u) := by
  intro t ht
  subst ht
  unfold Prog.swallow deleteRelationRows
  rw [Prog.handle_run, Prog.bind_run, backendCall_run]
  cases hr : w.refuses t.calls with
  | true => exact ⟨rfl, (if_pos hr).symm⟩
  | false =>
    refine ⟨rfl, (if_neg ?_).symm⟩
    rw [show t.called.calls - 1 = t.calls from rfl, hr]
    exact Bool.false_ne_true

theorem mem_rekeyed : (∃ r ∈ rekeyed new rels, r.triple = τ) ↔ ∃ r ∈ rels, r.triple = τ := by
  constructor
  · rintro ⟨r, hr, hτ⟩
    obtain ⟨r', hr', rfl⟩ := List.mem_map.1 hr
    exact ⟨r', hr', hτ⟩
  · rintro ⟨r, hr, hτ⟩
    exact ⟨_, List.mem_map_of_mem hr, hτ⟩

theorem listed_filter {rows : Table RelationEntry.triple} {j : String}
    (h : Listed (rows.filter (fun r => !r.sourceEntryKeys.contains key)) j τ) :
    ¬ Listed rows key τ := by
  obtain ⟨r, hr, -⟩ := h
  rw [Table.get?_filter, Option.filter_eq_some_iff] at hr
  rintro ⟨r', hr', hkey⟩
  rw [hr.1] at hr'
  cases hr'
  simp only [Bool.not_eq_true', List.contains_eq_mem, decide_eq_false_iff_not] at hr
  exact hr.2 hkey

/-- The rows handed to the new key are the rows of the old key: whether they survive is decided by
the delete. -/
theorem Cleared.carries_iff (hne : key ≠ new) (hf : Fetched s key new rels u)
    (hsome : rels ≠ []) (hb : Reloaded u new (rekeyed new rels) v) (hc : Cleared w key v t) :
    CarriesOver s key new { t with relations := t.relations.pop key } ↔
      w.refuses (t.calls - 1) = true := by
  have hrows : ∀ j τ, HasTriple u j τ → HasTriple v j τ := fun j τ h => hb.listed.2 (.inl h)
  constructor
  · intro h
    by_contra hgone
    obtain ⟨r, hr⟩ := List.exists_mem_of_ne_nil rels hsome
    have hs : HasTriple s key r.triple := (hf.shows r.triple).1 ⟨r, hr, rfl⟩
    have ht : Listed t.relationRows new r.triple := h.carried r.triple hs
    rw [hc.rows, if_neg hgone] at ht
    exact listed_filter ht (hrows key r.triple (hf.kept key r.triple hs))
  · intro hrefused
    have hlists : ∀ j τ, HasTriple { t with relations := t.relations.pop key } j τ ↔
        HasTriple v j τ := by
      intro j τ
      rw [HasTriple, hc.rows, if_pos hrefused, HasTriple]
    refine ⟨fun τ hτ => ?_, fun b hget r => ?_, fun j _ τ hτ => ?_⟩
    · obtain ⟨r, hr, hrτ⟩ := mem_rekeyed.2 ((hf.shows τ).2 hτ)
      exact (hlists new τ).2 (hb.listed.2 (.inr ⟨r, hr, hrτ, .inr rfl⟩))
    · have hget' : v.relations.get? new = some b := by
        rw [← hc.cache]
        exact (Table.get?_pop_ne t.relations hne).symm.trans hget
      rw [hb.agrees b hget' r, relationsOf, relationsOf, hc.rows, if_pos hrefused]
    · exact (hlists j τ).2 (hrows j τ (hf.kept j τ hτ))

theorem transferRelations_carries (hne : key ≠ new) (hold : BucketAgrees s key) :
    Returns (RelationsGrown s new) (transferRelations w key new)
      (fun _ t => CarriesUnlessCleared w s key new t) := by
  apply Returns.bind (getRelations_fetches hne hold)
  intro rels
  split
  · next hnone =>
    apply Triple.pure
    intro t hf hnew
    apply iff_of_true _ (.inl (hf.empty_iff.2 hnone))
    refine ⟨fun τ hτ => ?_, hf.bucket hnew, fun j _ τ hτ => hf.kept j τ hτ⟩
    obtain ⟨r, hr, -⟩ := (hf.shows τ).2 hτ
    rw [hnone] at hr
    cases hr
  · next hsome =>
    have hbatch : Returns (Fetched s key new rels) (do
        saveRelationRows w new (rekeyed new rels)
        let loaded ← loadRelationRows w new
        setBucket new loaded)
        (fun _ v => ∃ u, Fetched s key new rels u ∧ Reloaded u new (rekeyed new rels) v) := by
      intro u hu
      have hu' : SameRelations u u := ⟨rfl, rfl⟩
      exact (batch_reloads.mono (fun _ => id) (fun _ v hv => ⟨u, hu, hv⟩) (fun _ _ => id)) u hu'
    have hclear : Returns
        (fun v => ∃ u, Fetched s key new rels u ∧ Reloaded u new (rekeyed new rels) v)
        (Prog.swallow (deleteRelationRows w key)) (fun _ t => ∃ u v, Fetched s key new rels u ∧
          Reloaded u new (rekeyed new rels) v ∧ Cleared w key v t) := by
      rintro v ⟨u, hu, hv⟩
      exact (deleteRelationRows_clears.mono (fun _ => id) (fun _ t ht => ⟨u, v, hu, hv, ht⟩)
        (fun _ _ => id)) v rfl
    have hpop : Returns (fun t => ∃ u v, Fetched s key new rels u ∧
          Reloaded u new (rekeyed new rels) v ∧ Cleared w key v t) (popBucket key)
        (fun _ t => CarriesUnlessCleared w s key new t) := by
      apply Triple.modify
      rintro t ⟨u, v, hu, hv, ht⟩ -
      rw [hu.empty_iff, ht.carries_iff hne hu hsome hv]
      simp only [hsome, false_or]
    have htail := hbatch.bind (fun _ => hclear.bind (fun _ => hpop))
    simp only [Prog.bind_assoc] at htail
    exact htail

end Transfer

section Supersede
variable {w : World} {s : Store} {key newValue : String} {kw : SaveKwargs} {K : List String}

theorem finishSupersede_carries {now : Stamp} {e : MemoryEntry} (hne : key ≠ e.key)
    (hold : BucketAgrees s key) :
    Returns (RelationsGrown s e.key) (finishSupersede w now key e)
      (fun e' t => e'.key = e.key ∧ CarriesUnlessCleared w s key e.key t) := by
  have hI := RelationsGrown.aside s e.key
  apply Returns.bind ((keeps_appendAudit hI.bookkeeping).returns.mono (fun _ => id)
    (fun _ _ h => h.1) (fun _ _ => id))
  intro _
  apply Returns.bind ((hI.setEntry (opened now e)).returns.mono (fun _ => id)
    (fun _ _ h => h.1) (fun _ _ => id))
  intro _
  apply Returns.bind ((hI.persistOrRestore (opened now e) e).returns.mono (fun _ => id)
    (fun _ _ h => h.1) (fun _ _ => id))
  intro _
  apply Returns.bind ((hI.dropIfConcurrentlyRemoved e.key).returns.mono (fun _ => id)
    (fun _ _ h => h.1) (fun _ _ => id))
  intro _
  apply Returns.bind (transferRelations_carries hne hold)
  intro _
  exact Triple.pure (fun t ht => ⟨rfl, ht⟩)

theorem writeSuperseding_carries {now : Stamp} {old : MemoryEntry} {a : SaveArgs}
    (hne : old.key ≠ a.key) (hold : BucketAgrees s old.key) (hown : ExtractsOwn w.toConfig)
    (hroom : Parked.Roomy w K)
    (hmerge : w.consolidation.enabled = false ∨ a.skipConsolidation = true) :
    Returns (fun t => SameRelations s t ∧ (within w K).inv t) (writeSuperseding w now old a)
      (fun e t => CarriesUnlessCleared w s old.key e.key t) := by
  apply Returns.bind (saveWith_grows hown hroom hmerge).rollback
  intro r
  cases r with
  | entry e =>
    dsimp only
    split
    · apply Returns.bind Returns.any
      intro _
      exact Returns.raise
    · next hkey =>
      rw [not_not] at hkey
      have hne' : old.key ≠ e.key := hkey.symm ▸ hne
      apply (finishSupersede_carries hne' hold).mono (fun t ht => ht e rfl) _ (fun _ _ => id)
      intro e' t ht
      rw [ht.1]
      exact ht.2
  | dict d =>
    apply Returns.bind Returns.any
    intro _
    exact Returns.raise

/-- The closing touches no relation and no key. -/
theorem closeOld_same (hfresh : kw.key ≠ some key) :
    Returns (fun t => t = s ∧ (within w K).inv s) (closeOld w key kw) (fun c t =>
      (c.old.key = key ∧ c.newKey ≠ key) ∧ SameRelations s t ∧ (within w K).inv t) := by
  have hin : Keeps (within w K).inv (closeOld w key kw) :=
    ((within w K).closeOld (fun e now newKey h _ _ =>
      ⟨within_writes h rfl, within_writes h (supersededRow_key now newKey e)⟩)).forget
  have hclose : Returns (fun t => t = s) (closeOld w key kw) (OldClosed w s key) :=
    closeOld_closes.mono (fun _ => id) (fun _ _ => id) (fun _ _ _ => trivial)
  have hboth := Triple.and (Triple.and hclose (closeOld_newKey hfresh)) hin.returns
  apply hboth.mono _ _ (fun _ _ _ => trivial)
  · rintro t ⟨rfl, ht⟩
    exact ⟨⟨rfl, trivial⟩, ht⟩
  · rintro c t ⟨⟨hc, hnew⟩, ht⟩
    exact ⟨⟨hc.key, hnew⟩, hc.relations, ht.1⟩

end Supersede

/-- One memory and the fact its text states. -/
def factStore : Store :=
  (save sharedWorld { key := "a", value := "the team uses postgres" }).final {}

def supersedeFact : Except Raised MemoryEntry × Store :=
  supersede sharedWorld "a" "our team uses postgres" {} factStore

/-- The bucket holds the stored relations, or there is none. -/
def bucketCurrent (s : Store) (j : String) : Bool :=
  (s.relations.get? j).all (fun b => b.rels = relationsOf s j)

theorem bucketAgrees_of_current {s : Store} {j : String} (h : bucketCurrent s j = true) :
    BucketAgrees s j := by
  intro b hb r
  rw [bucketCurrent, hb, Option.all_some, decide_eq_true_eq] at h
  rw [h]

theorem sharedWorld_extractsOwn : ExtractsOwn sharedWorld.toConfig := by
  intro key value r hr
  cases List.mem_singleton.1 hr
  rfl

end TappsBrain
