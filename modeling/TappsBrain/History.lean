import Mathlib.Data.String.Basic
import TappsBrain.Lib.Walk
import TappsBrain.Mirror
import TappsBrain.SaveAtomicity
import TappsBrain.SupersessionChains

namespace TappsBrain
open Lib Relation
set_option autoImplicit true
set_option relaxedAutoImplicit false

/-- The instant an entry is valid from. -/
def startsAt (e : MemoryEntry) : Option Stamp := e.validAt.bind (fun t => (parseIso t).toOption)

/-- The text `valid_at or ""` of each entry. One instant has many texts, one for each offset. -/
structure ValidTexts where
  text : MemoryEntry → String
  instant : String → Option Stamp
  instant_text : ∀ e, instant (text e) = startsAt e
  unset : ∀ e, e.validAt = none → text e = ""

/-- The dictionary `reverse`: a later entry replaces an earlier one with the same successor. -/
def reverseLinks (entries : List MemoryEntry) : List (String × String) :=
  entries.foldl (fun reverse e =>
    match namedTarget e.supersededBy with
    | none => reverse
    | some successor => (successor, e.key) :: reverse) []

def previousOf (entries : List MemoryEntry) (key : String) : Option String :=
  (reverseLinks entries).lookup key

/-- More hops than there are keys. -/
def outOfFuel : Raised := .runtimeError "out of fuel"

/-- The walk forward: each hop is hydrated from the durable store. -/
def versionsFrom (w : World) : Nat → List String → Option String → StoreM (List MemoryEntry)
  | _, _, none => pure []
  | 0, _, some _ => Prog.raise outOfFuel
  | fuel + 1, visited, some current =>
    if current ∈ visited then pure []
    else do
      match ← ensureEntryCached w current with
      | none => pure []
      | some entry => do
        let chain ← versionsFrom w fuel (current :: visited) entry.supersededBy
        pure (entry :: chain)

/-- The entries and rows of the store. -/
def Store.versions (s : Store) : List MemoryEntry := s.entries.values ++ s.rows.values

/-- `history`. -/
def history (w : World) (texts : ValidTexts) (key : String) : StoreM (List MemoryEntry) := do
  match ← ensureEntryCached w key with
  | none => Prog.raise (.keyError key)
  | some _ => do
    mergeDurableEntries w false
    let entries ← Prog.read (fun s => s.entries.values)
    match walkEnd (previousOf entries) (entries.length + 1) [key] key with
    | none => Prog.raise outOfFuel
    | some root => do
      let versions ← Prog.read Store.versions
      let chain ← versionsFrom w (2 * versions.length + 1) [] (some root)
      pure (chain.insertionSort (fun a b => texts.text a ≤ texts.text b))

/-- The key that a held entry names as what replaced it. -/
def successorOf (c : Config) (s : Store) (key : String) : Option String :=
  (held c s key).bind (·.supersededBy)

/-- The links lead from the first key to the second. -/
def LeadsTo (c : Config) (s : Store) : String → String → Prop := ReflTransGen (Steps (successorOf c s))

/-- The store holds the entry, and its key leads to `key` or is led to from there. -/
def OnChain (c : Config) (s : Store) (key : String) (e : MemoryEntry) : Prop :=
  held c s e.key = some e ∧ (LeadsTo c s e.key key ∨ LeadsTo c s key e.key)

/-- `a` is valid from no later instant than `b`; without `valid_at` an entry comes first. -/
def StartsNoLater (a b : MemoryEntry) : Prop :=
  ∀ t, startsAt a = some t → ∃ u, startsAt b = some u ∧ t ≤ u

/-- All entries on the chain of `key`, each once, in the order of their instants. -/
structure WholeChain (c : Config) (s : Store) (key : String) (chain : List MemoryEntry) : Prop where
  members : ∀ e, e ∈ chain ↔ OnChain c s key e
  once : (chain.map (·.key)).Nodup
  ordered : chain.Pairwise StartsNoLater

def WholeHistory (w : World) (texts : ValidTexts) (s : Store) (key : String) : Prop :=
  ∃ chain, (history w texts key).result s = .ok chain ∧ WholeChain w.toConfig s key chain

/-- A key is gathered behind a lookup of `key` if it is cached, or if its row is among the newest for
which the cap leaves room. -/
def Gathered (c : Config) (s : Store) (key k : String) : Prop :=
  let cache := lookedUp c s key
  cache.contains k = true ∨
    k ∈ ((((newestRows s).take c.maxEntries).map (·.key)).filter (fun k => !cache.contains k)).take
      (c.maxEntries - cache.size)

/-- Each key upstream of `key` is gathered, no two of them have the same successor, and the texts of
the instants on the chain are in the order of the instants. -/
structure SingleLine (c : Config) (texts : ValidTexts) (s : Store) (key : String) : Prop where
  alone : ∀ u u' v, LeadsTo c s v key → successorOf c s u = some v → successorOf c s u' = some v →
    u = u'
  gathered : ∀ u v, LeadsTo c s v key → successorOf c s u = some v → Gathered c s key u
  ordered : ∀ a b, OnChain c s key a → OnChain c s key b → texts.text a < texts.text b →
    StartsNoLater a b

/-- Every row reads back, and no key is empty. -/
structure Legible (c : Config) (s : Store) : Prop where
  valid : ∀ row ∈ s.rows.values, Valid c.unicode row
  named : held c s "" = none

theorem Legible.untouched {c : Config} {s t : Store} (hs : Legible c s)
    (h : Untouched c anyKey s t) : Legible c t where
  valid := by
    intro row hrow
    have hget := Table.get?_of_mem hrow
    rw [h.rows row.key trivial] at hget
    exact hs.valid row (Table.mem_of_get? hget)
  named := (h.held_eq trivial).trans hs.named

section Hydrating
variable {w : World} {s : Store} {key : String}

theorem ensureEntryCached_untouched (w : World) (s : Store) (key : String) :
    Untouched w.toConfig anyKey s ((ensureEntryCached w key).final s) :=
  ((Untouched.discipline w anyKey s).ensureEntryCached key).forget.final (Untouched.refl s)

theorem contains_set_iff {entries : Table MemoryEntry.key} {e : MemoryEntry} {k : String} :
    (entries.set e).contains k = true ↔ e.key = k ∨ entries.contains k = true := by
  rw [Table.contains, Table.get?_set, Table.contains]
  split
  · next heq => exact iff_of_true rfl (.inl heq)
  · next hne => exact ⟨.inr, fun h => h.resolve_left hne⟩

/-- A fill caches the first rows that are new, as many as the cap leaves room for. -/
theorem fillCache_contains {cap : Nat} {entries : Table MemoryEntry.key} {l : List MemoryEntry}
    (hl : (l.map (·.key)).Nodup) {k : String} :
    (fillCache cap false entries l).contains k = true ↔ entries.contains k = true ∨
      k ∈ ((l.map (·.key)).filter (fun k => !entries.contains k)).take (cap - entries.size) := by
  induction l generalizing entries with
  | nil => simp [fillCache]
  | cons e rest ih =>
    rw [List.map_cons, List.nodup_cons] at hl
    rw [fillCache, List.map_cons]
    cases hold : entries.contains e.key with
    | true =>
      rw [Bool.true_or, if_pos rfl, ih hl.2, List.filter_cons_of_neg (by simp [hold])]
    | false =>
      rw [List.filter_cons_of_pos (by simp [hold])]
      by_cases hfull : cap ≤ entries.size
      · rw [if_pos (by simp [hfull]), ih hl.2, Nat.sub_eq_zero_of_le hfull, List.take_zero,
          List.take_zero]
      · rw [if_neg (by simp [hfull]), ih hl.2, contains_set_iff]
        have hfresh : entries.get? e.key = none := by
          rwa [Table.contains, Option.isSome_eq_false_iff, Option.isNone_iff_eq_none] at hold
        have hsize : (entries.set e).size = entries.size + 1 := by
          rw [Table.size, Table.values_set_of_fresh hfresh, List.length_append]
          rfl
        have hfilter : (rest.map (·.key)).filter (fun k => !(entries.set e).contains k) =
            (rest.map (·.key)).filter (fun k => !entries.contains k) := by
          apply List.filter_congr
          intro k hk
          have hne : e.key ≠ k := fun heq => hl.1 (heq ▸ hk)
          rw [Table.contains, Table.get?_set_ne _ hne, Table.contains]
        have hroom : cap - entries.size = cap - (entries.size + 1) + 1 := by omega
        rw [hfilter, hsize, hroom, List.take_succ_cons, List.mem_cons, or_comm (a := e.key = k),
          or_assoc, eq_comm (a := e.key)]

theorem rowsToEntries_keys {c : Config} {rows : List MemoryEntry}
    (h : ∀ row ∈ rows, Valid c.unicode row) :
    ∃ l, rowsToEntries c rows = .ok l ∧ l.map (·.key) = rows.map (·.key) := by
  refine ⟨_, rowsToEntries_of_valid h, ?_⟩
  rw [List.map_map]
  apply List.map_congr_left
  intro row _
  exact normalised_key c.unicode row

/-- Behind the lookup the cache is filled with the newest rows. -/
theorem mergeDurableEntries_gathers (hw : Answers w) (hs : Legible w.toConfig s) {t : Store}
    (hentries : t.entries = lookedUp w.toConfig s key) (hrows : t.rows = s.rows) :
    ∃ u, mergeDurableEntries w false t = (.ok (), u) ∧
      ∀ k, u.entries.contains k = true ↔ Gathered w.toConfig s key k := by
  have hnewest : newestRows t = newestRows s := by rw [newestRows, hrows, newestRows]
  have hvalid : ∀ row ∈ (newestRows t).take w.maxEntries, Valid w.unicode row := by
    intro row hrow
    have hmem := mem_newestRows.1 (List.mem_of_mem_take hrow)
    exact hs.valid row (hrows ▸ hmem)
  obtain ⟨l, hl, hkeys⟩ := rowsToEntries_keys hvalid
  have hnodup : (l.map (·.key)).Nodup := by
    rw [hkeys, List.map_take]
    apply List.Nodup.sublist (List.take_sublist _ _)
    have hperm : (newestRows t).Perm t.rows.values := List.perm_insertionSort newerFirst _
    exact (hperm.map _).nodup_iff.2 t.rows.nodup
  rw [mergeDurableEntries, Prog.bind_run, Prog.read_run]
  by_cases hfull : w.maxEntries ≤ t.entries.size
  · refine ⟨t, by simp [hfull], fun k => ?_⟩
    rw [Gathered, ← hentries, Nat.sub_eq_zero_of_le hfull, List.take_zero]
    simp
  · refine ⟨{ t.called with entries := fillCache w.maxEntries false t.entries l }, ?_, fun k => ?_⟩
    · simp only [Bool.not_false, Bool.true_and, decide_eq_true_eq, hfull, ↓reduceIte,
        Bool.false_eq_true, Prog.bind_run, loadAll_run, hw t.calls, limited, hl, Prog.modify_run]
      rfl
    · rw [Gathered, ← hentries, ← hnewest, ← hkeys]
      exact fillCache_contains hnodup

end Hydrating

theorem mem_reverseLinks {entries : List MemoryEntry} {p : String × String} :
    p ∈ reverseLinks entries ↔
      ∃ e ∈ entries, namedTarget e.supersededBy = some p.1 ∧ e.key = p.2 := by
  have hfold : ∀ acc, p ∈ entries.foldl (fun reverse e =>
      match namedTarget e.supersededBy with
      | none => reverse
      | some successor => (successor, e.key) :: reverse) acc ↔
      p ∈ acc ∨ ∃ e ∈ entries, namedTarget e.supersededBy = some p.1 ∧ e.key = p.2 := by
    induction entries with
    | nil => simp
    | cons e rest ih =>
      intro acc
      rw [List.foldl_cons, ih]
      cases hnext : namedTarget e.supersededBy with
      | none => simp [hnext]
      | some successor => simp [hnext, Prod.ext_iff, eq_comm, or_assoc, or_left_comm]
  rw [reverseLinks, hfold]
  exact or_iff_right List.not_mem_nil

theorem mem_of_previousOf {entries : List MemoryEntry} {v u : String}
    (h : previousOf entries v = some u) :
    ∃ e ∈ entries, namedTarget e.supersededBy = some v ∧ e.key = u := by
  obtain ⟨l, m, happend, _⟩ := List.lookup_eq_some_iff.1 h
  have hmem : (v, u) ∈ reverseLinks entries := by
    rw [happend]
    exact List.mem_append_right l List.mem_cons_self
  exact mem_reverseLinks.1 hmem

theorem previousOf_isSome {entries : List MemoryEntry} {e : MemoryEntry} {v : String}
    (he : e ∈ entries) (hv : namedTarget e.supersededBy = some v) :
    ∃ u, previousOf entries v = some u := by
  apply Option.isSome_iff_exists.1
  have hmem : (v, e.key) ∈ reverseLinks entries := mem_reverseLinks.2 ⟨e, he, hv, rfl⟩
  exact List.lookup_isSome_iff.2 ⟨_, hmem, beq_self_eq_true v⟩

theorem eq_of_namedTarget {o : Option String} {v : String} (h : namedTarget o = some v) :
    o = some v := by
  cases o with
  | none => cases h
  | some k =>
    rw [namedTarget] at h
    split at h
    · cases h
    · exact h

theorem namedTarget_of_ne {v : String} (h : v ≠ "") : namedTarget (some v) = some v := by
  rw [namedTarget, if_neg h]

/-- The entry a store holds is a cached one, or has its key, successor and start from a row. -/
theorem held_versions {c : Config} {s : Store} {key : String} {e : MemoryEntry}
    (h : held c s key = some e) :
    ∃ v ∈ s.versions, v.key = key ∧ v.supersededBy = e.supersededBy ∧ v.validAt = e.validAt := by
  rcases Option.or_eq_some_iff.1 h with hc | ⟨_, hl⟩
  · exact ⟨e, List.mem_append_left _ (Table.mem_of_get? hc), Table.key_of_get? hc, rfl, rfl⟩
  · obtain ⟨row, hrow, hre⟩ := Option.bind_eq_some_iff.1 hl
    refine ⟨row, List.mem_append_right _ (Table.mem_of_get? hrow), Table.key_of_get? hrow, ?_⟩
    cases hr : rowToEntry c row with
    | error err =>
      rw [hr] at hre
      cases hre
    | ok e' =>
      rw [hr] at hre
      cases hre
      rw [(rowToEntry_ok hr).2]
      exact ⟨rfl, rfl⟩

/-- What the walk forward may come to. -/
def Store.hops (s : Store) : List String :=
  s.versions.flatMap (fun e => e.key :: e.supersededBy.toList)

theorem length_hops (s : Store) : s.hops.length ≤ 2 * s.versions.length := by
  rw [Store.hops]
  induction s.versions with
  | nil => exact Nat.zero_le _
  | cons e rest ih =>
    rw [List.flatMap_cons, List.length_append, List.length_cons, List.length_cons]
    have hone : e.supersededBy.toList.length ≤ 1 := by cases e.supersededBy <;> simp
    omega

theorem mem_hops {c : Config} {s : Store} {key : String} {e : MemoryEntry}
    (h : held c s key = some e) : key ∈ s.hops := by
  obtain ⟨v, hv, hkey, _⟩ := held_versions h
  exact List.mem_flatMap.2 ⟨v, hv, hkey ▸ List.mem_cons_self⟩

theorem successor_mem_hops {c : Config} {s : Store} {key k : String}
    (h : successorOf c s key = some k) : k ∈ s.hops := by
  obtain ⟨e, he, hk⟩ := Option.bind_eq_some_iff.1 h
  obtain ⟨v, hv, _, hsame, _⟩ := held_versions he
  apply List.mem_flatMap.2
  refine ⟨v, hv, List.mem_cons_of_mem _ ?_⟩
  rw [hsame, hk]
  exact List.mem_singleton_self k

section Walking
variable {w : World} {texts : ValidTexts} {s t : Store} {key root : String}

theorem successorOf_untouched (h : Untouched w.toConfig anyKey s t) :
    successorOf w.toConfig t = successorOf w.toConfig s := by
  funext k
  rw [successorOf, h.held_eq trivial, successorOf]

/-- The walk forward returns what the store holds along the links. -/
theorem versionsFrom_run {points seen : List String} {n : Nat} {o : Option String}
    (hw : Answers w) (hs : Legible w.toConfig s) (ht : Untouched w.toConfig anyKey s t)
    (hf : Fueled (successorOf w.toConfig s) points n seen) (ho : ∀ a, o = some a → a ∈ points) :
    (versionsFrom w n seen o).result t =
      .ok ((walk (successorOf w.toConfig s) n seen o).filterMap (held w.toConfig s)) := by
  induction n generalizing seen o t with
  | zero => exact absurd hf.pos (Nat.lt_irrefl 0)
  | succ n ih =>
    cases o with
    | none => rfl
    | some a =>
      rw [versionsFrom, walk]
      split
      · rfl
      · next hnew =>
        obtain ⟨u, hrun, _, _⟩ := ensureEntryCached_lookedUp hw (hs.untouched ht).valid a
        have hu : Untouched w.toConfig anyKey s u := by
          have hcached := ensureEntryCached_untouched w t a
          rw [Prog.final, hrun] at hcached
          exact ht.trans hcached
        rw [ht.held_eq trivial] at hrun
        rw [Prog.result, Prog.bind_run_ok hrun]
        cases he : held w.toConfig s a with
        | none =>
          have hend : successorOf w.toConfig s a = none := by rw [successorOf, he]; rfl
          rw [hend, List.filterMap_cons_none he]
          cases n <;> rfl
        | some e =>
          have hnext : successorOf w.toConfig s a = e.supersededBy := by rw [successorOf, he]; rfl
          have hrest := ih hu (hf.step (ho a rfl) hnew)
            (fun b hb => hf.closed a b (hnext.trans hb))
          rw [hnext, List.filterMap_cons_some he]
          dsimp only
          rcases hr : versionsFrom w n (a :: seen) e.supersededBy u with ⟨err | chain, v⟩
          · rw [Prog.result, hr] at hrest
            cases hrest
          · rw [Prog.result, hr] at hrest
            cases hrest
            rw [Prog.bind_run_ok hr]
            rfl

/-- Every step back is a link of a gathered key, and every link of one to a named key has one. -/
structure TracesBack (c : Config) (s : Store) (key : String) (prev : String → Option String) :
    Prop where
  sound : ∀ v u, prev v = some u → Gathered c s key u ∧ successorOf c s u = some v
  complete : ∀ u v, Gathered c s key u → successorOf c s u = some v → v ≠ "" → ∃ u', prev v = some u'

theorem previousOf_tracesBack (hu : Untouched w.toConfig anyKey s t)
    (hentries : ∀ k, t.entries.contains k = true ↔ Gathered w.toConfig s key k) :
    TracesBack w.toConfig s key (previousOf t.entries.values) where
  sound := by
    intro v u hprev
    obtain ⟨e, hmem, hnext, rfl⟩ := mem_of_previousOf hprev
    have hget := Table.get?_of_mem hmem
    constructor
    · exact (hentries e.key).1 (Table.contains_of_mem hmem)
    · have hheld : held w.toConfig t e.key = some e := by rw [held, hget, Option.some_or]
      rw [← successorOf_untouched hu, successorOf, hheld]
      exact eq_of_namedTarget hnext
  complete := by
    intro u v hgathered hnext hne
    obtain ⟨e, hget⟩ := Option.isSome_iff_exists.1 ((hentries u).2 hgathered)
    have hheld : held w.toConfig t u = some e := by rw [held, hget, Option.some_or]
    rw [← successorOf_untouched hu, successorOf, hheld] at hnext
    have hlink : e.supersededBy = some v := hnext
    apply previousOf_isSome (Table.mem_of_get? hget)
    rw [hlink]
    exact namedTarget_of_ne hne

/-- What the walk from `root` collects, sorted by the texts. -/
structure Collected (c : Config) (texts : ValidTexts) (s : Store) (root : String)
    (chain : List MemoryEntry) : Prop where
  members : ∀ e, e ∈ chain ↔ held c s e.key = some e ∧ LeadsTo c s root e.key
  once : (chain.map (·.key)).Nodup
  sorted : chain.Pairwise (fun a b => texts.text a ≤ texts.text b)

theorem collected_walk {points : List String} {n : Nat}
    (hf : Fueled (successorOf w.toConfig s) points n []) (hroot : root ∈ points) :
    Collected w.toConfig texts s root
      (((walk (successorOf w.toConfig s) n [] (some root)).filterMap (held w.toConfig s)).insertionSort
        (fun a b => texts.text a ≤ texts.text b)) where
  members := by
    intro e
    rw [List.mem_insertionSort, List.mem_filterMap]
    constructor
    · rintro ⟨k, hk, hheld⟩
      obtain rfl := held_key hheld
      exact ⟨hheld, (mem_walk_iff hf hroot).1 hk⟩
    · rintro ⟨hheld, hreach⟩
      exact ⟨e.key, (mem_walk_iff hf hroot).2 hreach, hheld⟩
  once := by
    have hkeys : ∀ l : List String, (l.filterMap (held w.toConfig s)).map (·.key) =
        l.filter (fun k => (held w.toConfig s k).isSome) := by
      intro l
      induction l with
      | nil => rfl
      | cons k rest ih =>
        cases hheld : held w.toConfig s k with
        | none => rw [List.filterMap_cons_none hheld, List.filter_cons_of_neg (by simp [hheld]), ih]
        | some e =>
          rw [List.filterMap_cons_some hheld, List.filter_cons_of_pos (by simp [hheld]),
            List.map_cons, ih, held_key hheld]
    have hperm := (List.perm_insertionSort (fun a b => texts.text a ≤ texts.text b)
      ((walk (successorOf w.toConfig s) n [] (some root)).filterMap (held w.toConfig s))).map
        MemoryEntry.key
    rw [hperm.nodup_iff, hkeys]
    exact (walk_nodup _ n [] (some root)).filter _
  sorted := List.pairwise_insertionSort _ _

/-- A call for a held key returns, on a cycle as well: it traces back from the key and collects what
the end of the trace leads to. -/
theorem history_returns (texts : ValidTexts) (hw : Answers w) (hs : Legible w.toConfig s) {e : MemoryEntry}
    (hheld : held w.toConfig s key = some e) :
    ∃ prev root chain, TracesBack w.toConfig s key prev ∧
      ReflTransGen (Steps prev) key root ∧ (prev root = none ∨ TransGen (Steps prev) root root) ∧
      (history w texts key).result s = .ok chain ∧ Collected w.toConfig texts s root chain := by
  obtain ⟨t, hlookup, hentries, hrows⟩ := ensureEntryCached_lookedUp hw hs.valid key
  obtain ⟨u, hmerge, hgathered⟩ := mergeDurableEntries_gathers hw hs hentries hrows
  have hu : Untouched w.toConfig anyKey s u := by
    have ht := ensureEntryCached_untouched w s key
    rw [Prog.final, hlookup] at ht
    have hkeeps := ((Untouched.discipline w anyKey s).mergeDurableEntries false).final ht
    rwa [Prog.final, hmerge] at hkeeps
  have htrace := previousOf_tracesBack hu hgathered
  have hback : Fueled (previousOf u.entries.values) (key :: u.entries.values.map (·.key))
      (u.entries.values.length + 1) [key] := by
    constructor
    · intro v k hk
      obtain ⟨x, hx, _, rfl⟩ := mem_of_previousOf hk
      exact List.mem_cons_of_mem _ (List.mem_map_of_mem hx)
    · exact List.nodup_singleton key
    · exact List.cons_subset.2 ⟨List.mem_cons_self, List.nil_subset _⟩
    · simp
  obtain ⟨root, hroot⟩ := Option.isSome_iff_exists.1 (walkEnd_isSome (a := key) hback)
  have hstart : ∀ k ∈ [key], ReflTransGen (Steps (previousOf u.entries.values)) k key := by
    intro k hk
    rw [List.mem_singleton.1 hk]
  obtain ⟨hreach, hend⟩ := walkEnd_reaches hstart hroot
  have hmem : root ∈ u.hops := by
    rcases ReflTransGen.cases_tail hreach with rfl | ⟨v, _, hv⟩
    · exact mem_hops ((hu.held_eq trivial).trans hheld)
    · obtain ⟨x, hx, _⟩ := Option.bind_eq_some_iff.1 (htrace.sound v root hv).2
      exact mem_hops ((hu.held_eq trivial).trans hx)
  have hforward : Fueled (successorOf w.toConfig s) u.hops (2 * u.versions.length + 1) [] := by
    constructor
    · intro x y hy
      rw [← successorOf_untouched hu] at hy
      exact successor_mem_hops hy
    · exact List.nodup_nil
    · exact List.nil_subset _
    · exact Nat.lt_succ_of_le (length_hops u)
  have hwalk := versionsFrom_run hw hs hu hforward (fun a ha => Option.some.inj ha ▸ hmem)
  refine ⟨_, root, _, htrace, hreach, hend, ?_, collected_walk hforward hmem⟩
  rcases hr : versionsFrom w (2 * u.versions.length + 1) [] (some root) u with ⟨err | chain, v⟩
  · rw [Prog.result, hr] at hwalk
    cases hwalk
  · rw [Prog.result, hr] at hwalk
    cases hwalk
    rw [history, Prog.result, Prog.bind_run_ok hlookup, hheld]
    dsimp only
    rw [Prog.bind_run_ok hmerge, Prog.bind_run, Prog.read_run]
    dsimp only
    rw [hroot]
    dsimp only
    rw [Prog.bind_run, Prog.read_run]
    dsimp only
    rw [Prog.bind_run_ok hr, Prog.pure_run]

theorem startsNoLater_of_eq {a b : MemoryEntry} (h : startsAt a = startsAt b) : StartsNoLater a b :=
  fun t ht => ⟨t, h ▸ ht, le_rfl⟩

theorem ValidTexts.startsNoLater_of_text_eq {a b : MemoryEntry} (h : texts.text a = texts.text b) :
    StartsNoLater a b := by
  apply startsNoLater_of_eq
  rw [← texts.instant_text a, h, texts.instant_text b]

/-- A list sorted by the texts is in the order of the instants exactly if the texts are. -/
theorem pairwise_startsNoLater_iff {chain : List MemoryEntry}
    (h : chain.Pairwise (fun a b => texts.text a ≤ texts.text b)) :
    chain.Pairwise StartsNoLater ↔
      ∀ a ∈ chain, ∀ b ∈ chain, texts.text a < texts.text b → StartsNoLater a b := by
  constructor
  · intro hordered a ha b hb hab
    induction chain with
    | nil => cases ha
    | cons x rest ih =>
      rw [List.pairwise_cons] at h hordered
      rcases List.mem_cons.1 ha with rfl | hrest
      · rcases List.mem_cons.1 hb with rfl | hb
        · exact absurd hab (lt_irrefl _)
        · exact hordered.1 b hb
      · rcases List.mem_cons.1 hb with rfl | hb
        · exact absurd hab (not_lt_of_ge (h.1 _ hrest))
        · exact ih h.2 hordered.2 hrest hb
  · intro htexts
    apply h.imp_of_mem
    intro a b ha hb hab
    rcases lt_or_eq_of_le hab with hlt | heq
    · exact htexts a ha b hb hlt
    · exact texts.startsNoLater_of_text_eq heq

/-- Where the links have no cycle, the history of a held key is whole exactly if its chain is a
single line. -/
theorem wholeHistory_iff (hw : Answers w) (hs : Legible w.toConfig s)
    (hacyclic : Acyclic (Steps (successorOf w.toConfig s))) {e : MemoryEntry}
    (hheld : held w.toConfig s key = some e) :
    WholeHistory w texts s key ↔ SingleLine w.toConfig texts s key := by
  obtain ⟨prev, root, chain, htrace, hreach, hend, hrun, hcollected⟩ :=
    history_returns texts hw hs hheld
  have hprev : ∀ v u, prev v = some u → successorOf w.toConfig s u = some v :=
    fun v u h => (htrace.sound v u h).2
  have hroot : prev root = none :=
    hend.resolve_right (fun hcycle => hacyclic root (cycle_of_trace hprev hcycle))
  have hcovers := root_covers_iff hacyclic hprev hreach hroot
  have hback : LeadsTo w.toConfig s root key := reaches_of_trace hprev hreach
  have hheldOf : ∀ u, LeadsTo w.toConfig s u key → ∃ x, held w.toConfig s u = some x ∧ x.key = u := by
    intro u hu
    rcases ReflTransGen.cases_head hu with rfl | ⟨v, hv, _⟩
    · exact ⟨e, hheld, held_key hheld⟩
    · obtain ⟨x, hx, _⟩ := Option.bind_eq_some_iff.1 hv
      exact ⟨x, hx, held_key hx⟩
  constructor
  · rintro ⟨chain', hrun', hwhole⟩
    obtain rfl : chain' = chain := Except.ok.inj (hrun'.symm.trans hrun)
    have hall : ∀ u, LeadsTo w.toConfig s u key → LeadsTo w.toConfig s root u := by
      intro u hu
      obtain ⟨x, hx, rfl⟩ := hheldOf u hu
      have hmem := (hwhole.members x).2 ⟨hx, .inl hu⟩
      exact ((hcollected.members x).1 hmem).2
    have hinverse := hcovers.1 hall
    constructor
    · intro u u' v hv hu hu'
      exact Option.some.inj ((hinverse u v hv hu).symm.trans (hinverse u' v hv hu'))
    · intro u v hv hu
      exact (htrace.sound v u (hinverse u v hv hu)).1
    · intro a b ha hb
      have hordered := (pairwise_startsNoLater_iff hcollected.sorted).1 hwhole.ordered
      exact hordered a ((hwhole.members a).2 ha) b ((hwhole.members b).2 hb)
  · intro hline
    have hinverse : ∀ u v, LeadsTo w.toConfig s v key → successorOf w.toConfig s u = some v →
        prev v = some u := by
      intro u v hv hu
      have hne : v ≠ "" := by
        rintro rfl
        obtain ⟨x, hx, _⟩ := hheldOf "" hv
        rw [hs.named] at hx
        cases hx
      obtain ⟨u', hu'⟩ := htrace.complete u v (hline.gathered u v hv hu) hu hne
      rw [hu', hline.alone u' u v hv (hprev v u' hu') hu]
    have hall := hcovers.2 hinverse
    have hmembers : ∀ x, x ∈ chain ↔ OnChain w.toConfig s key x := by
      intro x
      rw [hcollected.members x, OnChain]
      apply and_congr_right
      intro _
      constructor
      · intro hx
        exact ReflTransGen.total_of_right_unique (steps_unique _) hx hback
      · rintro (hx | hx)
        · exact hall _ hx
        · exact hback.trans hx
    refine ⟨chain, hrun, hmembers, hcollected.once, ?_⟩
    rw [pairwise_startsNoLater_iff hcollected.sorted]
    intro a ha b hb
    exact hline.ordered a b ((hmembers a).1 ha) ((hmembers b).1 hb)

end Walking

theorem replacedBy_of_successorOf {c : Config} {s : Store} {k k' : String}
    (h : successorOf c s k = some k') : ReplacedBy s k k' := by
  obtain ⟨e, he, hk⟩ := Option.bind_eq_some_iff.1 h
  obtain ⟨v, hv, hkey, hsame, _⟩ := held_versions he
  exact ⟨v, List.mem_append.1 hv, hkey, hsame.trans hk⟩

/-- The world in which the backend answers. -/
def World.answering (w : World) : World := { w with refuses := fun _ => false }

/-- In every state that a run reaches from one without cycles, by calls that close none, in which
every row reads back, the history of a held key is whole exactly if its chain is a single line. -/
theorem history_whole_iff (w : World) (digest : String → String) (texts : ValidTexts)
    (calls : List ChainCall) (s₀ : Store) (hs₀ : Acyclic (ReplacedBy s₀))
    (h : Guarded (ChainCall.step w digest) (ChainCall.onward w digest) calls s₀) :
    let s := runSteps (ChainCall.step w digest) calls s₀
    Legible w.toConfig s → ∀ key, (held w.toConfig s key).isSome = true →
      (WholeHistory w.answering texts s key ↔ SingleLine w.toConfig texts s key) := by
  intro s hs key hheld
  obtain ⟨e, he⟩ := Option.isSome_iff_exists.1 hheld
  have hacyclic : Acyclic (Steps (successorOf w.toConfig s)) :=
    (ChainCall.run_acyclic hs₀ h).mono (fun _ _ => replacedBy_of_successorOf)
  have hanswers : Answers w.answering := fun _ => rfl
  exact wholeHistory_iff (w := w.answering) hanswers hs hacyclic he

theorem held_isSome {c : Config} {s : Store} {key : String} (h : s.entries.contains key = true) :
    (held c s key).isSome = true := by
  obtain ⟨e, he⟩ := Option.isSome_iff_exists.1 h
  rw [held, he, Option.some_or]
  rfl

theorem gathered_of_cached {c : Config} {s : Store} {key k : String}
    (h : s.entries.contains k = true) : Gathered c s key k := by
  left
  rw [lookedUp]
  split
  · exact h
  · exact Table.contains_set h

/-- Instants written in unary. -/
def tally : ValidTexts where
  text := fun e => match startsAt e with
    | none => ""
    | some t => String.ofList (List.replicate (t + 1) 'i')
  instant := fun s => if s.length = 0 then none else some (s.length - 1)
  instant_text := by
    intro e
    cases h : startsAt e with
    | none => rfl
    | some t => simp
  unset := by
    intro e h
    rw [startsAt, h]
    rfl

/-- The later of two facts has both in its history. -/
theorem history_whole_moved :
    WholeHistory Config.plain.calm.answering tally
      (runSteps (ChainCall.step Config.plain.calm sampleDigest) movedDay {})
      "deploy-on-monday-0123456789abcdef" := by
  have hfacts : (∀ row ∈ (runSteps (ChainCall.step Config.plain.calm sampleDigest) movedDay
        {}).rows.values, Valid Config.plain.calm.unicode row) ∧
      (∀ v ∈ (runSteps (ChainCall.step Config.plain.calm sampleDigest) movedDay {}).versions,
        v.key ≠ "" ∧ v.validAt = none ∧ (v.supersededBy = none ∨
          v.key = "deploy-on-friday-0123456789abcdef")) ∧
      ((runSteps (ChainCall.step Config.plain.calm sampleDigest) movedDay {}).entries.values.map
        (·.key)) = ["deploy-on-friday-0123456789abcdef", "deploy-on-monday-0123456789abcdef"] := by
    decide +kernel
  obtain ⟨hvalid, hversions, hkeys⟩ := hfacts
  have hnamed : held Config.plain.calm.toConfig
      (runSteps (ChainCall.step Config.plain.calm sampleDigest) movedDay {}) "" = none := by
    rw [Option.eq_none_iff_forall_ne_some]
    intro e he
    obtain ⟨v, hv, hkey, _⟩ := held_versions he
    exact (hversions v hv).1 hkey
  have hcached : ∀ k ∈ ["deploy-on-friday-0123456789abcdef", "deploy-on-monday-0123456789abcdef"],
      (runSteps (ChainCall.step Config.plain.calm sampleDigest) movedDay {}).entries.contains k =
        true := by
    intro k hk
    rw [← hkeys] at hk
    obtain ⟨e, he, rfl⟩ := List.mem_map.1 hk
    exact Table.contains_of_mem he
  apply (history_whole_iff Config.plain.calm sampleDigest tally movedDay {}
    replacedBy_empty_acyclic movedDay_onward ⟨hvalid, hnamed⟩ _
    (held_isSome (hcached _ (by decide)))).2
  have hlink : ∀ {u v}, successorOf Config.plain.calm.toConfig
      (runSteps (ChainCall.step Config.plain.calm sampleDigest) movedDay {}) u = some v →
      u = "deploy-on-friday-0123456789abcdef" := by
    intro u v hu
    obtain ⟨e, he, hk⟩ := Option.bind_eq_some_iff.1 hu
    obtain ⟨x, hx, rfl, hsame, _⟩ := held_versions he
    refine (hversions x hx).2.2.resolve_left (fun hnone => ?_)
    rw [← hsame, hnone] at hk
    cases hk
  constructor
  · intro u u' v _ hu hu'
    rw [hlink hu, hlink hu']
  · intro u v _ hu
    rw [hlink hu]
    exact gathered_of_cached (hcached _ (by decide))
  · intro a b ha _ _
    obtain ⟨x, hx, _, _, hsame⟩ := held_versions ha.1
    intro t ht
    rw [startsAt, ← hsame, (hversions x hx).2.1] at ht
    cases ht

/-- Two notes, and their merge. -/
def mergedPair : List ChainCall :=
  [.save { key := "a", value := "the store is postgres", skipConsolidation := true
           conflictCheck := false, dedup := false } none,
    .save { key := "b", value := "the store is postgres 16", skipConsolidation := true
            conflictCheck := false, dedup := false } none,
    .scan [{ consolidated := { key := "c", value := "the store is postgres. the store is postgres 16"
                               tier := "pattern", source := .agent, sourceAgent := "unknown"
                               scope := "project", tags := [], confidence := 6 / 10
                               memoryGroup := none }
             sources := [{ key := "a", value := "the store is postgres", createdAt := 0
                           updatedAt := 0, lastAccessed := 0 },
               { key := "b", value := "the store is postgres 16", createdAt := 0, updatedAt := 0
                 lastAccessed := 0 }]
             trigger := "periodic" }]]

/-- Of the two sources of a merge its history has one. -/
theorem history_misses_source :
    ¬ ∀ w digest texts calls key,
      (held w.toConfig (runSteps (ChainCall.step w digest) calls {}) key).isSome = true →
        WholeHistory w.answering texts (runSteps (ChainCall.step w digest) calls {}) key := by
  intro h
  obtain ⟨chain, hrun, hwhole⟩ := h Config.plain.calm sampleDigest tally mergedPair "c"
    (by decide +kernel)
  have hlink : successorOf Config.plain.calm.toConfig
      (runSteps (ChainCall.step Config.plain.calm sampleDigest) mergedPair {}) "a" = some "c" := by
    decide +kernel
  obtain ⟨e, he, _⟩ := Option.bind_eq_some_iff.1 hlink
  have hmem : e ∈ chain := by
    apply (hwhole.members e).2
    rw [OnChain, held_key he]
    exact ⟨he, .inl (.single hlink)⟩
  have hmisses : (match (history Config.plain.calm.answering tally "c").result
      (runSteps (ChainCall.step Config.plain.calm sampleDigest) mergedPair {}) with
      | .ok l => (l.map (·.key)).contains "a"
      | .error _ => false) = false := by decide +kernel
  rw [hrun] at hmisses
  have hkey : "a" ∈ chain.map (·.key) := held_key he ▸ List.mem_map_of_mem hmem
  exact Bool.noConfusion ((List.contains_iff_mem.2 hkey).symm.trans hmisses)

end TappsBrain
