import TappsBrain.SaveDiscipline

namespace TappsBrain
open Lib
set_option autoImplicit true
set_option relaxedAutoImplicit false

/-- The entry a cold read of `key` yields. -/
def loaded (c : Config) (s : Store) (key : String) : Option MemoryEntry :=
  (s.rows.get? key).bind (fun row => (rowToEntry c row).toOption)

/-- The entry the store holds under `key`: the cached one, or else what hydration caches. -/
def held (c : Config) (s : Store) (key : String) : Option MemoryEntry :=
  (s.entries.get? key).or (loaded c s key)

/-- On the keys of `K` nothing happened but hydration of the cache. -/
structure Untouched (c : Config) (K : String → Prop) (s t : Store) : Prop where
  rows : ∀ key, K key → t.rows.get? key = s.rows.get? key
  entries : ∀ key, K key → t.entries.get? key = s.entries.get? key ∨
    s.entries.get? key = none ∧ t.entries.get? key = loaded c s key

theorem loaded_eq_some {c : Config} {s : Store} {row e : MemoryEntry} (hrow : row ∈ s.rows.values)
    (he : rowToEntry c row = .ok e) : loaded c s e.key = some e := by
  have hk : e.key = row.key := by rw [(rowToEntry_ok he).2, normalised_key]
  rw [loaded, hk, Table.get?_of_mem hrow]
  simp only [Option.bind_some, he, Except.toOption]

namespace Untouched
variable {c : Config} {K : String → Prop} {s t u : Store} {key : String}

theorem refl (s : Store) : Untouched c K s s := ⟨fun _ _ => rfl, fun _ _ => .inl rfl⟩

theorem loaded_eq (h : Untouched c K s t) (hk : K key) : loaded c t key = loaded c s key := by
  rw [loaded, loaded, h.rows key hk]

theorem held_eq (h : Untouched c K s t) (hk : K key) : held c t key = held c s key := by
  rw [held, held, h.loaded_eq hk]
  rcases h.entries key hk with he | ⟨hs, ht⟩
  · rw [he]
  · rw [hs, ht, Option.none_or, Option.or_self]

theorem trans (h : Untouched c K s t) (h' : Untouched c K t u) : Untouched c K s u where
  rows := fun key hk => (h'.rows key hk).trans (h.rows key hk)
  entries := by
    intro key hk
    rcases h'.entries key hk with he | ⟨ht, hu⟩
    · rw [he]
      exact h.entries key hk
    · rcases h.entries key hk with he | ⟨hs, _⟩
      · exact .inr ⟨he ▸ ht, hu.trans (h.loaded_eq hk)⟩
      · exact .inr ⟨hs, hu.trans (h.loaded_eq hk)⟩

theorem mono {K' : String → Prop} (h : Untouched c K s t) (hK : ∀ key, K' key → K key) :
    Untouched c K' s t :=
  ⟨fun key hk => h.rows key (hK key hk), fun key hk => h.entries key (hK key hk)⟩

/-- The frame that allows writes outside `K` only. -/
def discipline (w : World) (K : String → Prop) (s : Store) : Discipline w where
  inv := Untouched w.toConfig K s
  sees := fun _ => True
  writes := fun e => ¬ K e.key
  frees := fun key => ¬ K key
  reads := fun _ => True
  bookkeeping :=
    ⟨fun _ h => ⟨h.1, h.2⟩, fun _ h => ⟨h.1, h.2⟩, fun _ h => ⟨h.1, h.2⟩, fun _ _ h => ⟨h.1, h.2⟩,
      fun _ _ h => ⟨h.1, h.2⟩, fun _ _ h => ⟨h.1, h.2⟩⟩
  ignoresRelations := ⟨fun _ _ h => ⟨h.1, h.2⟩, fun _ _ h => ⟨h.1, h.2⟩⟩
  cached := fun _ _ _ _ => trivial
  loads := fun _ _ _ _ _ _ => trivial
  hydrate := by
    refine fun t row e h hrow he hnew => ⟨h.rows, fun key hk => ?_⟩
    rw [Table.get?_set]
    split
    · next heq =>
      subst heq
      have hload := loaded_eq_some hrow he
      rw [h.loaded_eq hk] at hload
      rcases h.entries _ hk with ht | ⟨hs, ht⟩
      · exact .inr ⟨ht ▸ hnew, hload.symm⟩
      · exact .inr ⟨hs, hload.symm⟩
    · exact h.entries key hk
  assign := by
    refine fun t e h hw => ⟨h.rows, fun key hk => ?_⟩
    have hne : e.key ≠ key := fun heq => hw (heq.symm ▸ hk)
    rw [Table.get?_set_ne _ hne]
    exact h.entries key hk
  store := by
    refine fun t e h hw => ⟨fun key hk => ?_, h.entries⟩
    have hne : e.key ≠ key := fun heq => hw (heq.symm ▸ hk)
    exact (storeRow_get?_ne hne t).trans (h.rows key hk)
  pop := by
    refine fun t k h hw => ⟨h.rows, fun key hk => ?_⟩
    have hne : k ≠ key := fun heq => hw (heq.symm ▸ hk)
    rw [Table.get?_pop_ne _ hne]
    exact h.entries key hk
  drop := by
    refine fun t k h hw => ⟨fun key hk => ?_, h.entries⟩
    have hne : k ≠ key := fun heq => hw (heq.symm ▸ hk)
    rw [Table.get?_pop_ne _ hne]
    exact h.rows key hk
  filter := fun t p h hall => ⟨h.rows, fun key hk => absurd hk (hall key)⟩
  frees_of_writes := fun _ h => h
  reading := fun _ _ => trivial

end Untouched
/-- All keys. -/
def anyKey (_ : String) : Prop := True

theorem rowToEntry_error {c : Config} {row : MemoryEntry} {err : Raised}
    (h : rowToEntry c row = .error err) : ∀ k, err ≠ .keyError k := by
  unfold rowToEntry at h
  split at h
  · cases h
    exact fun _ => Raised.noConfusion
  · cases h

/-- Every row that reads back is cached. -/
def Warm (c : Config) (s : Store) : Prop :=
  ∀ key, s.entries.get? key = none → loaded c s key = none

/-- The cache and the table hold the same under every key. -/
def SameEverywhere (s t : Store) : Prop :=
  ∀ key, t.entries.get? key = s.entries.get? key ∧ t.rows.get? key = s.rows.get? key

/-- Where there is nothing to hydrate, what is untouched is the same. -/
theorem Warm.untouched_iff {c : Config} {s t : Store} (h : Warm c s) :
    Untouched c anyKey s t ↔ SameEverywhere s t := by
  constructor
  · refine fun hu key => ⟨?_, hu.rows key trivial⟩
    rcases hu.entries key trivial with he | ⟨hs, ht⟩
    · exact he
    · rw [ht, hs, h key hs]
  · exact fun hsame => ⟨fun key _ => (hsame key).2, fun key _ => .inl (hsame key).1⟩

/-- What hydration returns is what was held, and it is cached from then on. -/
theorem ensureEntryCached_held {w : World} {K : String → Prop} {s : Store} {key : String}
    (hk : K key) :
    Triple (Untouched w.toConfig K s) (ensureEntryCached w key)
      (fun r t => Untouched w.toConfig K s t ∧ t.entries.get? key = r ∧ r = held w.toConfig s key)
      (fun err t => Untouched w.toConfig K s t ∧ ∀ k, err ≠ .keyError k) := by
  intro t ht
  have hkeeps := (Untouched.discipline w K s).ensureEntryCached key t ht
  rw [← ht.held_eq hk]
  rw [ensureEntryCached_run] at hkeeps ⊢
  cases hc : t.entries.get? key with
  | some e =>
    refine ⟨ht, hc, ?_⟩
    rw [held, hc, Option.some_or]
  | none =>
    simp only [hc] at hkeeps
    dsimp only
    cases hb : w.refuses t.calls with
    | true =>
      simp only [hb, ↓reduceIte] at hkeeps ⊢
      exact ⟨hkeeps, fun _ => Raised.noConfusion⟩
    | false =>
      simp only [hb, Bool.false_eq_true, ↓reduceIte] at hkeeps ⊢
      cases hr : t.rows.get? key with
      | none =>
        rw [hr] at hkeeps
        refine ⟨hkeeps.1, hc, ?_⟩
        rw [held, loaded, hc, hr, Option.none_or, Option.bind_none]
      | some row =>
        simp only [hr] at hkeeps
        dsimp only
        cases he : rowToEntry w.toConfig row with
        | error err =>
          simp only [he] at hkeeps
          exact ⟨hkeeps, rowToEntry_error he⟩
        | ok e =>
          simp only [he] at hkeeps
          have hk : e.key = key := by
            rw [(rowToEntry_ok he).2, normalised_key]
            exact Table.key_of_get? hr
          refine ⟨hkeeps.1, ?_, ?_⟩
          · rw [← hk]
            exact Table.get?_set_self _ _
          · rw [held, loaded, hc, hr, Option.none_or, Option.bind_some, he]
            rfl

end TappsBrain
