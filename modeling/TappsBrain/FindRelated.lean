import Mathlib.Data.List.Sort
import Mathlib.Data.String.Basic
import TappsBrain.Lib.Bfs
import TappsBrain.RelationFrame
import TappsBrain.Untouched

namespace TappsBrain.Related
open Lib
set_option autoImplicit true
set_option relaxedAutoImplicit false

/-- The dictionary from a name to what was collected under it. -/
abbrev Collected (β : Type) := Table (Prod.fst : String × List β → String)

def slotOf (t : Collected β) (name : String) : List β := ((t.get? name).map Prod.snd).getD []

/-- `t.setdefault(name, ...)`, and the addition of a value to it. -/
def collect (add : List β → β → List β) (t : Collected β) (pair : String × β) : Collected β :=
  t.set (pair.1, add (slotOf t pair.1) pair.2)

def relsOf (cache : Table Bucket.key) (key : String) : List RelationEntry :=
  ((cache.get? key).map (·.rels)).getD []

/-- `rebuilt.setdefault(src_key, []).append(rel)`. -/
def appendRelation (rel : RelationEntry) (cache : Table Bucket.key) (key : String) :
    Table Bucket.key :=
  cache.set ⟨key, relsOf cache key ++ [rel]⟩

def rebuiltRelations (rows : List RelationEntry) : Table Bucket.key :=
  rows.foldl (fun cache rel => rel.sourceEntryKeys.foldl (appendRelation rel) cache) .empty

/-- `_rebuild_relations_cache_from_durable`. -/
def rebuildRelationsCache (w : World) : StoreM Unit := do
  backendCall w
  Prog.modify (fun s => { s with relations := rebuiltRelations s.relationRows.values })

section Search
variable (u : Unicode)

/-- The two entities of a relation, in lower case. -/
def entitiesOf (rel : RelationEntry) : List String := [u.lower rel.subject, u.lower rel.objectEntity]

/-- `keys.add(key)`. -/
def addKey (keys : List String) (key : String) : List String :=
  if key ∈ keys then keys else keys ++ [key]

/-- `entity_to_keys`. -/
def entityToKeys (cache : Table Bucket.key) : Collected String :=
  cache.values.foldl (fun index bucket =>
    bucket.rels.foldl (fun index rel =>
      (entitiesOf u rel).foldl (fun index entity => collect addKey index (entity, bucket.key)) index)
      index) .empty

/-- The keys that the three inner loops go over for one key of the frontier. -/
def neighbourKeys (cache : Table Bucket.key) (current : String) : List String :=
  (relsOf cache current).flatMap (fun rel =>
    (entitiesOf u rel).flatMap (slotOf (entityToKeys u cache)))

/-- `sort(key=lambda t: (t[1], t[0]))`. -/
def hopThenKey (a b : String × Nat) : Prop := a.2 < b.2 ∨ a.2 = b.2 ∧ a.1 ≤ b.1

instance : DecidableRel hopThenKey := fun _ _ => inferInstanceAs (Decidable (_ ∨ _))

def relatedKeys (cache : Table Bucket.key) (key : String) (maxHops : ℤ) : List (String × Nat) :=
  (Search.run (neighbourKeys u cache) maxHops.toNat 1 (Search.start key)).found.insertionSort
    hopThenKey

end Search

def findRelated (w : World) (key : String) (maxHops : ℤ) : StoreM (List (String × Nat)) := do
  match ← ensureEntryCached w key with
  | none => Prog.raise (.keyError key)
  | some _ =>
    rebuildRelationsCache w
    Prog.read (fun s => relatedKeys w.unicode s.relations key maxHops)

section Index
variable {u : Unicode} {rows : List RelationEntry} {rel : RelationEntry} {key entity : String}

/-- Some relation of one key and some relation of the other share an entity. -/
def Adjacent (u : Unicode) (rows : List RelationEntry) (a b : String) : Prop :=
  ∃ ra ∈ rows, a ∈ ra.sourceEntryKeys ∧ ∃ rb ∈ rows, b ∈ rb.sourceEntryKeys ∧
    ∃ entity ∈ entitiesOf u ra, entity ∈ entitiesOf u rb

theorem mem_relsOf_append {cache : Table Bucket.key} {name : String} {x : RelationEntry} :
    x ∈ relsOf (appendRelation rel cache name) key ↔ x ∈ relsOf cache key ∨ name = key ∧ x = rel := by
  unfold appendRelation
  by_cases h : name = key
  · subst h
    have hself := Table.get?_set_self cache ⟨name, relsOf cache name ++ [rel]⟩
    rw [relsOf, hself]
    simp
  · rw [relsOf, Table.get?_set_ne cache h]
    simp [h, relsOf]

theorem mem_relsOf_rebuilt :
    rel ∈ relsOf (rebuiltRelations rows) key ↔ rel ∈ rows ∧ key ∈ rel.sourceEntryKeys := by
  have hkeys : ∀ (r : RelationEntry) (keys : List String) (cache : Table Bucket.key),
      rel ∈ relsOf (keys.foldl (appendRelation r) cache) key ↔
        rel ∈ relsOf cache key ∨ key ∈ keys ∧ rel = r := by
    intro r keys
    induction keys with
    | nil => simp
    | cons name keys ih =>
      intro cache
      rw [List.foldl_cons, ih, mem_relsOf_append, List.mem_cons, eq_comm (a := name)]
      tauto
  have hrows : ∀ (l : List RelationEntry) (cache : Table Bucket.key),
      rel ∈ relsOf (l.foldl (fun cache r => r.sourceEntryKeys.foldl (appendRelation r) cache)
        cache) key ↔ rel ∈ relsOf cache key ∨ rel ∈ l ∧ key ∈ rel.sourceEntryKeys := by
    intro l
    induction l with
    | nil => simp
    | cons r l ih =>
      intro cache
      rw [List.foldl_cons, ih, hkeys, List.mem_cons]
      constructor
      · rintro ((h | ⟨hkey, rfl⟩) | h)
        · exact .inl h
        · exact .inr ⟨.inl rfl, hkey⟩
        · exact .inr ⟨.inr h.1, h.2⟩
      · rintro (h | ⟨rfl | h, hkey⟩)
        · exact .inl (.inl h)
        · exact .inl (.inr ⟨hkey, rfl⟩)
        · exact .inr ⟨h, hkey⟩
  rw [rebuiltRelations, hrows]
  simp [relsOf]

theorem mem_addKey {keys : List String} {name : String} :
    key ∈ addKey keys name ↔ key ∈ keys ∨ key = name := by
  unfold addKey
  split
  · next h => exact ⟨.inl, fun hor => hor.elim id (fun heq => heq ▸ h)⟩
  · rw [List.mem_append, List.mem_singleton]

theorem mem_slotOf_collect {index : Collected String} {name value : String} :
    key ∈ slotOf (collect addKey index (name, value)) entity ↔
      key ∈ slotOf index entity ∨ name = entity ∧ key = value := by
  unfold collect
  by_cases h : name = entity
  · subst h
    have hself := Table.get?_set_self index (name, addKey (slotOf index name) value)
    rw [slotOf, hself]
    simp [mem_addKey]
  · rw [slotOf, Table.get?_set_ne index h]
    simp [h, slotOf]

/-- The keys collected under an entity are those with a relation that names it. -/
theorem mem_entityToKeys {cache : Table Bucket.key} :
    key ∈ slotOf (entityToKeys u cache) entity ↔
      ∃ rel ∈ relsOf cache key, entity ∈ entitiesOf u rel := by
  have hentities : ∀ (value : String) (names : List String) (index : Collected String),
      key ∈ slotOf (names.foldl (fun index name => collect addKey index (name, value)) index)
        entity ↔ key ∈ slotOf index entity ∨ entity ∈ names ∧ key = value := by
    intro value names
    induction names with
    | nil => simp
    | cons name names ih =>
      intro index
      rw [List.foldl_cons, ih, mem_slotOf_collect, List.mem_cons, eq_comm (a := name)]
      tauto
  have hrels : ∀ (value : String) (rels : List RelationEntry) (index : Collected String),
      key ∈ slotOf (rels.foldl (fun index rel => (entitiesOf u rel).foldl
        (fun index name => collect addKey index (name, value)) index) index) entity ↔
        key ∈ slotOf index entity ∨ (∃ rel ∈ rels, entity ∈ entitiesOf u rel) ∧ key = value := by
    intro value rels
    induction rels with
    | nil => simp
    | cons rel rels ih =>
      intro index
      rw [List.foldl_cons, ih, hentities, List.exists_mem_cons_iff]
      tauto
  have hbuckets : ∀ (buckets : List Bucket) (index : Collected String),
      key ∈ slotOf (buckets.foldl (fun index bucket => bucket.rels.foldl (fun index rel =>
        (entitiesOf u rel).foldl (fun index name => collect addKey index (name, bucket.key)) index)
        index) index) entity ↔
        key ∈ slotOf index entity ∨
          ∃ bucket ∈ buckets, (∃ rel ∈ bucket.rels, entity ∈ entitiesOf u rel) ∧
            key = bucket.key := by
    intro buckets
    induction buckets with
    | nil => simp
    | cons bucket buckets ih =>
      intro index
      rw [List.foldl_cons, ih, hrels, List.exists_mem_cons_iff, or_assoc]
  rw [entityToKeys, hbuckets]
  constructor
  · rintro (h | ⟨bucket, hbucket, ⟨rel, hrel, hentity⟩, rfl⟩)
    · exact absurd h List.not_mem_nil
    · refine ⟨rel, ?_, hentity⟩
      rw [relsOf, Table.get?_of_mem hbucket]
      exact hrel
  · rintro ⟨rel, hrel, hentity⟩
    cases hget : cache.get? key with
    | none =>
      rw [relsOf, hget] at hrel
      exact absurd hrel List.not_mem_nil
    | some bucket =>
      rw [relsOf, hget] at hrel
      exact .inr ⟨bucket, Table.mem_of_get? hget, ⟨rel, hrel, hentity⟩,
        (Table.key_of_get? hget).symm⟩

theorem mem_neighbourKeys (u : Unicode) (rows : List RelationEntry) (a b : String) :
    b ∈ neighbourKeys u (rebuiltRelations rows) a ↔ Adjacent u rows a b := by
  simp only [neighbourKeys, List.mem_flatMap, mem_entityToKeys, mem_relsOf_rebuilt]
  constructor
  · rintro ⟨ra, ⟨hra, ha⟩, entity, hentity, rb, ⟨hrb, hb⟩, hentity'⟩
    exact ⟨ra, hra, ha, rb, hrb, hb, entity, hentity, hentity'⟩
  · rintro ⟨ra, hra, ha, rb, hrb, hb, entity, hentity, hentity'⟩
    exact ⟨ra, ⟨hra, ha⟩, entity, hentity, rb, ⟨hrb, hb⟩, hentity'⟩

end Index
section Exact
variable {w : World} {s t : Store} {key : String} {maxHops : ℤ}

/-- The keys at distance from 1 to `maxHops`, each once, in order of distance and then key. -/
structure ExactSearch (r : String → String → Prop) (key : String) (maxHops : ℤ)
    (result : List (String × Nat)) : Prop where
  exact : ∀ k d, (k, d) ∈ result ↔ 1 ≤ d ∧ (d : ℤ) ≤ maxHops ∧ AtDistance r key d k
  once : (result.map Prod.fst).Nodup
  start_out : key ∉ result.map Prod.fst
  sorted : result.Pairwise (fun a b => a.2 < b.2 ∨ a.2 = b.2 ∧ a.1 < b.1)

instance : Std.Total hopThenKey := ⟨fun a b => by
  rcases lt_trichotomy a.2 b.2 with h | h | h
  · exact .inl (.inl h)
  · rcases le_total a.1 b.1 with hle | hle
    · exact .inl (.inr ⟨h, hle⟩)
    · exact .inr (.inr ⟨h.symm, hle⟩)
  · exact .inr (.inl h)⟩

instance : IsTrans (String × Nat) hopThenKey := ⟨fun a b c hab hbc => by
  rcases hab with hab | ⟨hab, hkab⟩
  · rcases hbc with hbc | ⟨hbc, -⟩
    · exact .inl (hab.trans hbc)
    · exact .inl (hbc ▸ hab)
  · rcases hbc with hbc | ⟨hbc, hkbc⟩
    · exact .inl (hab ▸ hbc)
    · exact .inr ⟨hab.trans hbc, hkab.trans hkbc⟩⟩

theorem relatedKeys_exact (u : Unicode) (rows : List RelationEntry) (key : String) (maxHops : ℤ) :
    ExactSearch (Adjacent u rows) key maxHops
      (relatedKeys u (rebuiltRelations rows) key maxHops) := by
  obtain ⟨hfound, hnodup⟩ :=
    Search.run_start (mem_neighbourKeys u rows) key maxHops.toNat
  unfold relatedKeys
  generalize (Search.run (neighbourKeys u (rebuiltRelations rows)) maxHops.toNat 1
    (Search.start key)).found = found at hfound hnodup ⊢
  have hperm := List.perm_insertionSort hopThenKey found
  have honce := (hperm.map Prod.fst).nodup_iff.mpr hnodup
  have hexact : ∀ k d, (k, d) ∈ found.insertionSort hopThenKey ↔
      1 ≤ d ∧ (d : ℤ) ≤ maxHops ∧ AtDistance (Adjacent u rows) key d k := by
    intro k d
    rw [hperm.mem_iff, hfound]
    constructor
    · rintro ⟨hpos, hd, hdist⟩
      exact ⟨hpos, by omega, hdist⟩
    · rintro ⟨hpos, hd, hdist⟩
      exact ⟨hpos, by omega, hdist⟩
  constructor
  · exact hexact
  · exact honce
  · intro hin
    obtain ⟨⟨k, d⟩, hp, rfl⟩ := List.mem_map.mp hin
    obtain ⟨hpos, -, hdist⟩ := (hexact k d).mp hp
    have hzero := hdist.least 0 .refl
    omega
  · apply ((List.pairwise_insertionSort hopThenKey found).and (List.pairwise_map.mp honce)).imp
    rintro a b ⟨hlt | ⟨heq, hle⟩, hne⟩
    · exact .inl hlt
    · exact .inr ⟨heq, lt_of_le_of_ne hle hne⟩

theorem findRelated_of_cached {e : MemoryEntry}
    (hcached : ensureEntryCached w key s = (.ok (some e), t)) :
    (findRelated w key maxHops).result s =
      if w.refuses t.calls then .error .backend
      else .ok (relatedKeys w.unicode (rebuiltRelations t.relationRows.values) key maxHops) := by
  unfold findRelated rebuildRelationsCache
  rw [Prog.result, Prog.bind_run_ok hcached]
  dsimp only
  rw [Prog.bind_run, Prog.bind_run, backendCall_run]
  by_cases hrefused : w.refuses t.calls = true
  · rw [if_pos hrefused, if_pos hrefused]
  · rw [if_neg hrefused, if_neg hrefused]
    rfl

theorem ensureEntryCached_of_held {e : MemoryEntry} (hheld : held w.toConfig s key = some e)
    (hup : ∀ n, w.refuses n = false) :
    ∃ e' t, ensureEntryCached w key s = (.ok (some e'), t) := by
  rw [ensureEntryCached_run]
  rw [held] at hheld
  cases hc : s.entries.get? key with
  | some cached => exact ⟨cached, s, rfl⟩
  | none =>
    rw [hc, Option.none_or, loaded] at hheld
    dsimp only
    rw [hup, if_neg Bool.false_ne_true]
    cases hr : s.rows.get? key with
    | none =>
      rw [hr] at hheld
      cases hheld
    | some row =>
      rw [hr, Option.bind_some] at hheld
      dsimp only
      cases he : rowToEntry w.toConfig row with
      | error err =>
        rw [he] at hheld
        cases hheld
      | ok e' => exact ⟨e', _, rfl⟩

/-- A key that the store does not hold is refused. -/
theorem findRelated_missing (hheld : held w.toConfig s key = none) (result : List (String × Nat)) :
    (findRelated w key maxHops).result s ≠ .ok result := by
  intro hresult
  cases hrun : ensureEntryCached w key s with
  | mk r t =>
    cases r with
    | error err =>
      have hfailed : findRelated w key maxHops s = (.error err, t) := Prog.bind_run_error hrun
      rw [Prog.result, hfailed] at hresult
      cases hresult
    | ok r =>
      have hback : r = held w.toConfig s key :=
        ((ensureEntryCached_held (K := anyKey) trivial).ok (Untouched.refl s) hrun).2.2
      rw [hback, hheld] at hrun
      have hraised : findRelated w key maxHops s = (.error (.keyError key), t) :=
        Prog.bind_run_ok hrun
      rw [Prog.result, hraised] at hresult
      cases hresult

/-- What a search of an existing key returns, and that it returns when no backend call fails. -/
theorem findRelated_exact {e : MemoryEntry} (hheld : held w.toConfig s key = some e) :
    (∀ result, (findRelated w key maxHops).result s = .ok result →
      ExactSearch (Adjacent w.unicode s.relationRows.values) key maxHops result) ∧
      ((∀ n, w.refuses n = false) →
        ∃ result, (findRelated w key maxHops).result s = .ok result) := by
  constructor
  · intro result hresult
    cases hrun : ensureEntryCached w key s with
    | mk r t =>
      cases r with
      | error err =>
        have hfailed : findRelated w key maxHops s = (.error err, t) :=
          Prog.bind_run_error hrun
        rw [Prog.result, hfailed] at hresult
        cases hresult
      | ok r =>
        have hsame : SameRelations s t := by
          have hkeeps : SameRelations s ((ensureEntryCached w key).final s) :=
            SameRelations.ensureEntryCached.final ⟨rfl, rfl⟩
          rw [Prog.final, hrun] at hkeeps
          exact hkeeps
        have hback : r = held w.toConfig s key :=
          ((ensureEntryCached_held (K := anyKey) trivial).ok (Untouched.refl s) hrun).2.2
        rw [hback, hheld] at hrun
        rw [findRelated_of_cached hrun] at hresult
        split at hresult
        · cases hresult
        · cases hresult
          rw [hsame.2]
          exact relatedKeys_exact w.unicode s.relationRows.values key maxHops
  · intro hup
    obtain ⟨e', t, hcached⟩ := ensureEntryCached_of_held hheld hup
    rw [findRelated_of_cached hcached, hup, if_neg Bool.false_ne_true]
    exact ⟨_, rfl⟩

/-- Three memories, of which the first shares an entity with the second and that one with the
third. -/
def linkedStore : Store :=
  { entries := Table.empty.set
      { key := "a", value := "v", createdAt := 0, updatedAt := 0, lastAccessed := 0 }
    relationRows := ((Table.empty.set
      { subject := "api", predicate := "uses", objectEntity := "db", sourceEntryKeys := ["a"] }).set
      { subject := "db", predicate := "runs on", objectEntity := "host",
        sourceEntryKeys := ["b"] }).set
      { subject := "host", predicate := "is in", objectEntity := "rack",
        sourceEntryKeys := ["c", "b"] } }

theorem findRelated_exact_linked :
    ExactSearch (Adjacent .lowercase linkedStore.relationRows.values) "a" 2 [("b", 1), ("c", 2)] := by
  have hrun : (findRelated Config.plain.calm "a" 2).result linkedStore =
      .ok [("b", 1), ("c", 2)] := by
    decide +kernel
  have hheld : held Config.plain linkedStore "a" = some
      { key := "a", value := "v", createdAt := 0, updatedAt := 0, lastAccessed := 0 } := by
    decide +kernel
  exact (findRelated_exact (w := Config.plain.calm) hheld).1 _ hrun

end Exact
end TappsBrain.Related
