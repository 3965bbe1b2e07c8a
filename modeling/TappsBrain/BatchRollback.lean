import TappsBrain.Units
import TappsBrain.Batch

namespace TappsBrain
open Lib
set_option autoImplicit true
set_option relaxedAutoImplicit false

/-- Every cached entry is its durable row. -/
def Backed (s : Store) : Prop :=
  ∀ key e, s.entries.get? key = some e → s.rows.get? key = some e

/-- What is cached under `key` is its durable row, and a row that is not cached reads back as it is
stored. -/
structure BackedAt (c : Config) (key : String) (s : Store) : Prop where
  cached : ∀ e, s.entries.get? key = some e → s.rows.get? key = some e
  cold : s.entries.get? key = none →
    ∀ row e, s.rows.get? key = some row → rowToEntry c row = .ok e → e = row

/-- A pending entry of `key` has a stored one to put back. -/
def Overwrites (pending : List PendingEntry) (key : String) : Prop :=
  ∃ p ∈ pending, p.1.key = key ∧ p.2.isSome = true

/-- The pending entries that replace a stored one are cached in front of it, and outside of the
pending keys the cache is backed. Nothing is asked of a pending key that was new. -/
structure Pended (c : Config) (pending : List PendingEntry) (s : Store) : Prop where
  nodup : (pending.map (fun p => p.1.key)).Nodup
  before : ∀ p ∈ pending, ∀ b, p.2 = some b →
    s.entries.get? p.1.key = some p.1 ∧ s.rows.get? p.1.key = some b
  others : ∀ key, (∀ p ∈ pending, p.1.key ≠ key) → BackedAt c key s

section Pended
variable {w : World} {c : Config} {pending : List PendingEntry} {s t : Store}

theorem BackedAt.of_get? {key : String} (h : BackedAt c key s)
    (he : t.entries.get? key = s.entries.get? key) (hr : t.rows.get? key = s.rows.get? key) :
    BackedAt c key t where
  cached := fun e hc => hr.trans (h.cached e (he ▸ hc))
  cold := fun hn row e hrow => h.cold (he ▸ hn) row e (hr ▸ hrow)

/-- Only what `get?` sees of the two tables matters, and that at the keys which are not new. -/
theorem Pended.of_get? (h : Pended c pending s)
    (hsame : ∀ key, ((∃ p ∈ pending, p.1.key = key) → Overwrites pending key) →
      t.entries.get? key = s.entries.get? key ∧ t.rows.get? key = s.rows.get? key) :
    Pended c pending t where
  nodup := h.nodup
  before := by
    intro p hp b hb
    have hkey := hsame p.1.key (fun _ => ⟨p, hp, rfl, by rw [hb]; rfl⟩)
    rw [hkey.1, hkey.2]
    exact h.before p hp b hb
  others := by
    intro key hkey
    have hk := hsame key (fun ⟨p, hp, he⟩ => absurd he (hkey p hp))
    exact (h.others key hkey).of_get? hk.1 hk.2

/-- A change of one key that no pending entry overwrites. -/
theorem Pended.of_key {key : String} (h : Pended c pending s) (hkey : ¬ Overwrites pending key)
    (hother : ∀ j, j ≠ key → t.entries.get? j = s.entries.get? j ∧ t.rows.get? j = s.rows.get? j)
    (hback : (∀ p ∈ pending, p.1.key ≠ key) → BackedAt c key t) : Pended c pending t where
  nodup := h.nodup
  before := by
    intro p hp b hb
    have hne : p.1.key ≠ key := fun heq => hkey ⟨p, hp, heq, by rw [hb]; rfl⟩
    rw [(hother p.1.key hne).1, (hother p.1.key hne).2]
    exact h.before p hp b hb
  others := by
    intro j hj
    by_cases hjk : j = key
    · exact hjk ▸ hback (hjk ▸ hj)
    · exact (h.others j hj).of_get? (hother j hjk).1 (hother j hjk).2

theorem Pended.sameTables (h : Pended c pending s) (he : t.entries = s.entries)
    (hr : t.rows = s.rows) : Pended c pending t :=
  h.of_get? (fun _ _ => ⟨by rw [he], by rw [hr]⟩)

theorem Pended.bookkeeping (c : Config) (pending : List PendingEntry) :
    Bookkeeping (Pended c pending) where
  calls := fun _ h => h.sameTables rfl rfl
  ticks := fun _ h => h.sameTables rfl rfl
  checks := fun _ h => h.sameTables rfl rfl
  audit := fun _ _ h => h.sameTables rfl rfl
  archive := fun _ _ h => h.sameTables rfl rfl
  inProgress := fun _ _ h => h.sameTables rfl rfl

/-- Hydrating a row caches the row itself. -/
theorem Pended.hydrate {row e : MemoryEntry} (h : Pended c pending s) (hrow : row ∈ s.rows.values)
    (he : rowToEntry c row = .ok e) (hnone : s.entries.get? e.key = none) :
    Pended c pending { s with entries := s.entries.set e } := by
  have hkey : e.key = row.key := by
    rw [(rowToEntry_ok he).2, normalised_key]
  have hstored : s.rows.get? e.key = some row := by
    rw [hkey]
    exact Table.get?_of_mem hrow
  have hover : ¬ Overwrites pending e.key := by
    rintro ⟨p, hp, hk, hsome⟩
    obtain ⟨b, hb⟩ := Option.isSome_iff_exists.1 hsome
    rw [← hk, (h.before p hp b hb).1] at hnone
    cases hnone
  apply h.of_key hover
  · exact fun j hj => ⟨Table.get?_set_ne _ (Ne.symm hj), rfl⟩
  · intro hfree
    have hsame : e = row := (h.others e.key hfree).cold hnone row e hstored he
    constructor
    · intro e' he'
      rw [show (s.entries.set e).get? e.key = some e from Table.get?_set_self _ _] at he'
      cases he'
      rw [hstored, hsame]
    · intro hn
      rw [show (s.entries.set e).get? e.key = some e from Table.get?_set_self _ _] at hn
      cases hn

theorem Pended.rewrite {before after : MemoryEntry} (h : Pended c pending s)
    (hslot : s.entries.get? before.key = some before) (hkey : after.key = before.key)
    (hborn : after.createdAt = before.createdAt) (hover : ¬ Overwrites pending before.key) :
    Pended c pending (storeRow after { s with entries := s.entries.set after }) := by
  apply h.of_key (hkey ▸ hover)
  · intro j hj
    exact ⟨Table.get?_set_ne _ (Ne.symm hj), storeRow_get?_ne (Ne.symm hj) _⟩
  · intro hfree
    have hrow : s.rows.get? after.key = some before := by
      rw [hkey]
      exact (h.others before.key (hkey ▸ hfree)).cached before hslot
    have hput : upserted s.rows after = after := by
      apply upserted_same
      intro row hr
      rw [hrow] at hr
      cases hr
      exact hborn.symm
    constructor
    · intro e he
      rw [show (storeRow after { s with entries := s.entries.set after }).entries.get? after.key =
        some after from Table.get?_set_self _ _] at he
      cases he
      rw [storeRow_get?_self]
      exact congrArg some hput
    · intro hn
      rw [show (storeRow after { s with entries := s.entries.set after }).entries.get? after.key =
        some after from Table.get?_set_self _ _] at hn
      cases hn

/-- A removal takes the slot and the row, or puts both back. -/
theorem Pended.remove {e : MemoryEntry} (h : Pended w.toConfig pending s)
    (hslot : s.entries.get? e.key = some e) (hover : ¬ Overwrites pending e.key)
    (hkept : (∀ p ∈ pending, p.1.key ≠ e.key) → ¬ RemovalLoses w e s) :
    Pended w.toConfig pending ((removeDurably w e.key (some e)).final s) := by
  have hback := Table.get?_set_pop hslot
  unfold Prog.final
  rw [removeDurably_run]
  split
  · exact h.of_get? (fun key _ => ⟨hback key, rfl⟩)
  · next h0 =>
    split
    · next h1 =>
      apply h.of_key hover
      · intro j hj
        change (putBack w e s).entries.get? j = _ ∧ (putBack w e s).rows.get? j = _
        rw [putBack_entries, putBack_row, if_neg (Ne.symm hj)]
        exact ⟨hback j, rfl⟩
      · intro hfree
        have hput : putBackRow w e s.called.called = s.rows.get? e.key := by
          by_contra hne
          exact hkept hfree ⟨by simpa using h0, h1, hne⟩
        apply (h.others e.key hfree).of_get?
        · change (putBack w e s).entries.get? e.key = _
          rw [putBack_entries]
          exact hback e.key
        · change (putBack w e s).rows.get? e.key = _
          rw [putBack_row, if_pos rfl, hput]
    · apply h.of_key hover
      · intro j hj
        exact ⟨Table.get?_pop_ne _ (Ne.symm hj), Table.get?_pop_ne _ (Ne.symm hj)⟩
      · intro _
        have hgone : (s.rows.pop e.key).get? e.key = none := by
          rw [Table.get?_pop, if_pos rfl]
        constructor
        · intro e' he'
          rw [show (s.entries.pop e.key).get? e.key = none by rw [Table.get?_pop, if_pos rfl]] at he'
          cases he'
        · intro _ row e' hrow
          rw [show _ = (none : Option MemoryEntry) from hgone] at hrow
          cases hrow

/-- The removals a batch does not survive: of an entry with a stored one to put back, or one that
loses its row. -/
def BatchLoses (w : World) (pending : List PendingEntry) (e : MemoryEntry) (s : Store) : Prop :=
  Overwrites pending e.key ∨ (∀ p ∈ pending, p.1.key ≠ e.key) ∧ RemovalLoses w e s

def pendedUnits (w : World) (pending : List PendingEntry) : Units w where
  inv := Pended w.toConfig pending
  rewrites := fun before after =>
    after.key = before.key ∧ after.createdAt = before.createdAt ∧ ¬ Overwrites pending before.key
  loses := BatchLoses w pending
  bookkeeping := Pended.bookkeeping w.toConfig pending
  ignoresRelations := ⟨fun _ _ h => h.sameTables rfl rfl, fun _ _ h => h.sameTables rfl rfl⟩
  hydrate := fun _ _ _ h hrow he hnone => h.hydrate hrow he hnone
  rewrite := fun _ _ _ h hslot hr => h.rewrite hslot hr.1 hr.2.1 hr.2.2
  rewrites_key := fun _ _ hr => hr.1
  remove := fun _ _ h hslot hl =>
    h.remove hslot (fun ho => hl (.inl ho)) (fun hfree hlost => hl (.inr ⟨hfree, hlost⟩))

theorem pendedUnits_allowsPrepare (w : World) (pending : List PendingEntry) :
    (pendedUnits w pending).AllowsPrepare (Overwrites pending) where
  reinforce := by
    intro key hkey e now he
    exact ⟨reinforced_key w.toConfig 0 now e, reinforced_createdAt w.toConfig 0 now e, he ▸ hkey⟩
  promote := by
    intro key hkey e now target he
    exact ⟨rfl, rfl, he ▸ hkey⟩
  invalidate := fun e now reason hkey => ⟨invalidatedBy_key now reason e, rfl, hkey⟩

/-- The build step would evict an entry the batch does not survive the loss of. -/
def BuildMeets (w : World) (pending : List PendingEntry) (a : SaveArgs) (p : SavePrep) (s : Store) :
    Prop :=
  Leads (buildEntry w (preparedArgs a p) p.mgExplicit) s (fun built t =>
    CapsMeet w (BatchLoses w pending) built.1.memoryGroup built.2 t)

/-- The row would close, coalesce into or evict an entry that an earlier row has put in front of a
stored one, be saved under the key of an earlier row, or lose a row it evicts. -/
def RowMeets (w : World) (pending : List PendingEntry) (a : SaveArgs) (s : Store) : Prop :=
  rowError w.toConfig a = none ∧
    (PrepareMeets w (BatchLoses w pending) (Overwrites pending) a s ∨
      Leads (prepareSave w a) s (fun r t => match r with
        | .error _ => False
        | .ok p => (∃ q ∈ pending, q.1.key = p.effectiveKey.getD a.key) ∨ BuildMeets w pending a p t))

/-- One of the rows would. -/
def BatchMeets (w : World) : List PendingEntry → List SaveArgs → Store → Prop
  | _, [], _ => False
  | pending, a :: rest, s => RowMeets w pending a s ∨ Leads (prepareBatchEntry w a) s (fun built t =>
      BatchMeets w (pendingWith pending built) rest t)

theorem overwrites_append {p : PendingEntry} {key : String} :
    Overwrites (pending ++ [p]) key ↔ Overwrites pending key ∨ p.1.key = key ∧ p.2.isSome = true := by
  simp only [Overwrites, List.mem_append, List.mem_singleton, or_and_right, exists_or,
    exists_eq_left]

/-- An entry joins the pending ones under a key none of them has. -/
theorem Pended.join {p : PendingEntry} (h : Pended c pending s)
    (hfree : ∀ q ∈ pending, q.1.key ≠ p.1.key)
    (hother : ∀ j, j ≠ p.1.key →
      t.entries.get? j = s.entries.get? j ∧ t.rows.get? j = s.rows.get? j)
    (hslot : ∀ b, p.2 = some b → t.entries.get? p.1.key = some p.1 ∧ t.rows.get? p.1.key = some b) :
    Pended c (pending ++ [p]) t where
  nodup := by
    rw [List.map_append, List.nodup_append]
    refine ⟨h.nodup, List.nodup_singleton _, ?_⟩
    intro k hk k' hk'
    obtain ⟨q, hq, rfl⟩ := List.mem_map.1 hk
    rw [List.map_singleton, List.mem_singleton] at hk'
    exact hk' ▸ hfree q hq
  before := by
    intro q hq b hb
    rcases List.mem_append.1 hq with hq | hq
    · have hne := hfree q hq
      rw [(hother q.1.key hne).1, (hother q.1.key hne).2]
      exact h.before q hq b hb
    · cases List.mem_singleton.1 hq
      exact hslot b hb
  others := by
    intro key hkey
    have hne : key ≠ p.1.key :=
      fun heq => hkey p (List.mem_append_right _ List.mem_cons_self) heq.symm
    have hold := h.others key (fun q hq => hkey q (List.mem_append_left _ hq))
    exact hold.of_get? (hother key hne).1 (hother key hne).2

/-- An entry that is cached and stored leaves the pending ones. -/
theorem Pended.leave {b : MemoryEntry} (h : Pended c (pending ++ [(b, some b)]) s) :
    Pended c pending s where
  nodup := by
    have hnodup := h.nodup
    rw [List.map_append, List.nodup_append] at hnodup
    exact hnodup.1
  before := fun p hp => h.before p (List.mem_append_left _ hp)
  others := by
    intro key hkey
    obtain ⟨hslot, hrow⟩ := h.before (b, some b) (List.mem_append_right _ List.mem_cons_self) b rfl
    by_cases hk : b.key = key
    · subst hk
      constructor
      · intro e he
        rw [hslot] at he
        cases he
        exact hrow
      · intro hnone
        rw [hslot] at hnone
        cases hnone
    · apply h.others key
      intro p hp
      rcases List.mem_append.1 hp with hp | hp
      · exact hkey p hp
      · cases List.mem_singleton.1 hp
        exact hk

/-- The caps never evict the entry that is about to be replaced. -/
theorem capsMeet_leave {b : MemoryEntry} {group : Option String}
    (h : Pended w.toConfig (pending ++ [(b, some b)]) s)
    (hm : CapsMeet w (BatchLoses w (pending ++ [(b, some b)])) group (some b) s) :
    CapsMeet w (BatchLoses w pending) group (some b) s := by
  have hevict : b.memoryGroup ≠ group → ∀ t, Pended w.toConfig (pending ++ [(b, some b)]) t →
      EvictionMeets (BatchLoses w (pending ++ [(b, some b)])) (inGroup group t.entries.values) t →
        EvictionMeets (BatchLoses w pending) (inGroup group t.entries.values) t := by
    rintro hmoved t ht ⟨e, hlowest, hloses⟩
    refine ⟨e, hlowest, ?_⟩
    have hmem := mem_lowestConfidence hlowest
    have hslot := (ht.before (b, some b) (List.mem_append_right _ List.mem_cons_self) b rfl).1
    have hne : b.key ≠ e.key := by
      intro hk
      have hget := Table.get?_of_mem (List.mem_of_mem_filter hmem)
      rw [← hk, hslot] at hget
      cases hget
      exact hmoved (by simpa using List.of_mem_filter hmem)
    rcases hloses with hover | ⟨hfree, hlost⟩
    · rcases overwrites_append.1 hover with hover | hover
      · exact .inl hover
      · exact absurd hover.1 hne
    · exact .inr ⟨fun p hp => hfree p (List.mem_append_left _ hp), hlost⟩
  rcases hm with hm | ⟨_, _, _, hfull, -⟩
  · left
    unfold GroupCapMeets at hm ⊢
    cases hcap : w.maxEntriesPerGroup with
    | none =>
      rw [hcap] at hm
      exact hm
    | some capG =>
      rw [hcap] at hm
      obtain ⟨hmoved, hcount⟩ := hm
      have hkeeps := (pendedUnits w (pending ++ [(b, some b)])).reader.countEntriesInMemoryGroup
        group
      have hled := hkeeps.leads h hcount
      exact ⟨hmoved, hled.mono (fun n t ht => ⟨ht.2.1, hevict hmoved t ht.1 ht.2.2⟩)⟩
  · cases hfull

theorem enforceEntryCaps_pended {b : MemoryEntry} (group : Option String)
    (hfree : ∀ p ∈ pending, p.1.key ≠ b.key) :
    Triple (fun s => Pended w.toConfig pending s ∧ s.entries.get? b.key = some b ∧
        ¬ CapsMeet w (BatchLoses w pending) group (some b) s)
      (enforceEntryCapsBeforeAssign w group (some b))
      (fun _ s => Pended w.toConfig (pending ++ [(b, some b)]) s)
      (fun _ => Pended w.toConfig pending) := by
  rintro s ⟨hs, hslot, hd⟩
  have hjoined : Pended w.toConfig (pending ++ [(b, some b)]) s := by
    apply hs.join hfree (fun _ _ => ⟨rfl, rfl⟩)
    intro b' hb'
    cases hb'
    exact ⟨hslot, (hs.others b.key hfree).cached b hslot⟩
  have hcaps := (pendedUnits w (pending ++ [(b, some b)])).enforceEntryCapsBeforeAssign group (some b)
    s ⟨hjoined, fun hm => hd (capsMeet_leave hjoined hm)⟩
  rcases hr : enforceEntryCapsBeforeAssign w group (some b) s with ⟨err | _, t⟩
  · rw [hr] at hcaps
    exact hcaps.leave
  · rw [hr] at hcaps
    exact hcaps.1

theorem buildAndAssignEntry_pended {a : SaveArgs} {mgExplicit : Option (Option String)}
    (hfree : ∀ p ∈ pending, p.1.key ≠ a.key) :
    Triple (fun s => Pended w.toConfig pending s ∧ ¬ Leads (buildEntry w a mgExplicit) s
        (fun built t => CapsMeet w (BatchLoses w pending) built.1.memoryGroup built.2 t))
      (buildAndAssignEntry w a mgExplicit)
      (fun r s => Pended w.toConfig (pending ++ [r]) s) (fun _ => Pended w.toConfig pending) := by
  rintro s ⟨hs, hd⟩
  have hbuilt := (pendedUnits w pending).buildEntry a mgExplicit s hs
  unfold buildAndAssignEntry
  rw [Prog.bind_run]
  rcases hr : buildEntry w a mgExplicit s with ⟨err | ⟨entry, existing⟩, t⟩
  · rw [hr] at hbuilt
    exact hbuilt
  rw [hr] at hbuilt
  obtain ⟨ht, hkey, hslot⟩ := hbuilt
  have hcalm : ¬ CapsMeet w (BatchLoses w pending) entry.memoryGroup existing t :=
    fun hm => hd ⟨(entry, existing), t, hr, hm⟩
  have hfree' : ∀ p ∈ pending, p.1.key ≠ entry.key := by
    intro p hp heq
    exact hfree p hp (heq.trans hkey)
  dsimp only
  cases existing with
  | none =>
    have hcaps := (pendedUnits w pending).enforceEntryCapsBeforeAssign entry.memoryGroup none
    have hset : Triple (fun u => Pended w.toConfig pending u ∧ True) (do
        setEntry entry
        pure (entry, none)) (fun r u => Pended w.toConfig (pending ++ [r]) u)
        (fun _ => Pended w.toConfig pending) := by
      rintro u ⟨hu, -⟩
      apply hu.join hfree'
      · exact fun j hj => ⟨Table.get?_set_ne _ (Ne.symm hj), rfl⟩
      · exact fun b hb => nomatch hb
    exact Triple.bind hcaps (fun _ => hset) t ⟨ht, hcalm⟩
  | some b =>
    have hb : t.entries.get? a.key = some b := hslot b rfl
    have hbkey : b.key = a.key := Table.key_of_get? hb
    have hfreeb : ∀ p ∈ pending, p.1.key ≠ b.key :=
      fun p hp heq => hfree p hp (heq.trans hbkey)
    have hcaps := enforceEntryCaps_pended (w := w) entry.memoryGroup hfreeb
    have hset : Triple (Pended w.toConfig (pending ++ [(b, some b)])) (do
        setEntry entry
        pure (entry, some b)) (fun r u => Pended w.toConfig (pending ++ [r]) u)
        (fun _ => Pended w.toConfig pending) := by
      intro u hu
      apply hu.leave.join hfree'
      · exact fun j hj => ⟨Table.get?_set_ne _ (Ne.symm hj), rfl⟩
      · intro b' hb'
        cases hb'
        refine ⟨Table.get?_set_self _ _, ?_⟩
        have hrow := (hu.before (b, some b) (List.mem_append_right _ List.mem_cons_self) b rfl).2
        rw [hkey, ← hbkey]
        exact hrow
    exact Triple.bind hcaps (fun _ => hset) t ⟨ht, hbkey ▸ hb, hcalm⟩

/-- One row. -/
theorem prepareBatchEntry_pended (a : SaveArgs) :
    Triple (fun s => Pended w.toConfig pending s ∧ ¬ RowMeets w pending a s)
      (prepareBatchEntry w a) (fun r s => Pended w.toConfig (pendingWith pending r) s)
      (fun _ => Pended w.toConfig pending) := by
  rintro s ⟨hs, hd⟩
  unfold prepareBatchEntry
  cases herr : rowError w.toConfig a with
  | some d => exact hs
  | none =>
    rw [RowMeets, herr, and_iff_right rfl, not_or] at hd
    have hprep := (pendedUnits w pending).prepareSave (pendedUnits_allowsPrepare w pending) a s
      ⟨hs, hd.1⟩
    dsimp only
    rw [Prog.bind_run]
    rcases hr : prepareSave w a s with ⟨err | d | p, t⟩
    · rw [hr] at hprep
      exact hprep
    · rw [hr] at hprep
      exact hprep.1
    · rw [hr] at hprep
      have hrest : ¬ ((∃ q ∈ pending, q.1.key = p.effectiveKey.getD a.key) ∨
          BuildMeets w pending a p t) := fun hm => hd.2 ⟨.ok p, t, hr, hm⟩
      rw [not_or] at hrest
      have hfree : ∀ q ∈ pending, q.1.key ≠ (preparedArgs a p).key :=
        fun q hq heq => hrest.1 ⟨q, hq, heq⟩
      have hhandled : Triple (fun u => Pended w.toConfig pending u ∧
          ¬ Leads (buildEntry w (preparedArgs a p) p.mgExplicit) u (fun built v =>
            CapsMeet w (BatchLoses w pending) built.1.memoryGroup built.2 v))
          (buildBatchEntry w a p) (fun r u => Pended w.toConfig (pendingWith pending r) u)
          (fun _ => Pended w.toConfig pending) := by
        apply Triple.handle (E := fun _ => Pended w.toConfig pending)
        · exact (buildAndAssignEntry_pended hfree).bind (fun r => Triple.pure (fun _ hu => hu))
        · intro err
          cases err with
          | validationError msg => exact Triple.pure (fun _ hu => hu)
          | valueError msg => exact Triple.pure (fun _ hu => hu)
          | _ => exact Triple.raise (fun _ hu => hu)
      exact hhandled t ⟨hprep.1, hrest.2⟩

theorem pendingWith_pendingOf (pending : List PendingEntry) (r : Except ShortCircuit PendingEntry)
    (rest : List (Except ShortCircuit PendingEntry)) :
    pendingWith pending r ++ pendingOf rest = pending ++ pendingOf (r :: rest) := by
  cases r with
  | error _ => rfl
  | ok p => exact List.append_assoc pending [p] (pendingOf rest)

/-- What is left to put back: stored entries, and the cache is backed at every other key. -/
structure Undoing (pending : List PendingEntry) (s : Store) : Prop where
  nodup : (pending.map (fun p => p.1.key)).Nodup
  stored : ∀ p ∈ pending, ∀ b, p.2 = some b → s.rows.get? p.1.key = some b
  others : ∀ key e, (∀ p ∈ pending, p.1.key ≠ key) → s.entries.get? key = some e →
    s.rows.get? key = some e

theorem Pended.undoing (h : Pended c pending s) : Undoing pending s where
  nodup := h.nodup
  stored := fun p hp b hb => (h.before p hp b hb).2
  others := fun key e hfree he => (h.others key hfree).cached e he

theorem restoreSlot_undoing (p : PendingEntry) (rest : List PendingEntry) :
    Triple (Undoing (p :: rest)) (restoreSlot p.1.key p.2) (fun _ => Undoing rest)
      (fun _ _ => False) := by
  intro s hs
  have hnodup := hs.nodup
  rw [List.map_cons, List.nodup_cons] at hnodup
  have hstored := fun q hq => hs.stored q (List.mem_cons_of_mem p hq)
  have hother : ∀ key e, key ≠ p.1.key → (∀ q ∈ rest, q.1.key ≠ key) →
      s.entries.get? key = some e → s.rows.get? key = some e := by
    intro key e hne hfree
    apply hs.others key e
    intro q hq
    rcases List.mem_cons.1 hq with rfl | hq
    · exact Ne.symm hne
    · exact hfree q hq
  cases hold : p.2 with
  | none =>
    refine ⟨hnodup.2, hstored, ?_⟩
    intro key e hfree he
    have hne : key ≠ p.1.key := by
      rintro rfl
      have hgone : (s.entries.pop p.1.key).get? p.1.key = none := by
        rw [Table.get?_pop, if_pos rfl]
      exact nomatch hgone.symm.trans he
    exact hother key e hne hfree ((Table.get?_pop_ne _ (Ne.symm hne)).symm.trans he)
  | some b =>
    have hrow := hs.stored p List.mem_cons_self b hold
    have hkey : b.key = p.1.key := Table.key_of_get? hrow
    refine ⟨hnodup.2, hstored, ?_⟩
    intro key e hfree he
    by_cases hk : key = p.1.key
    · rw [hk, ← hkey] at he
      rw [hk, hrow, ← he]
      exact (Table.get?_set_self s.entries b).symm
    · exact hother key e hk hfree
        ((Table.get?_set_ne _ (fun heq => hk (heq.symm.trans hkey))).symm.trans he)

/-- Put back in the order they were assigned, the stored entries are all cached again. -/
theorem rollBack_backed (pending : List PendingEntry) :
    Triple (Undoing pending) (rollBack pending) (fun _ => Backed) (fun _ _ => False) := by
  induction pending with
  | nil => exact Triple.pure (fun s hs key e => hs.others key e (fun p hp => nomatch hp))
  | cons p rest ih => exact (restoreSlot_undoing p rest).bind (fun _ => ih)

theorem rollback_backed {p : StoreM α} {P : Store → Prop} {Q : α → Store → Prop}
    (h : Triple P p Q (fun _ => Pended w.toConfig pending)) :
    Triple P (Prog.rollback p (rollBack pending)) Q (fun _ => Backed) := by
  apply h.handle
  intro err
  apply Triple.bind (Q := fun _ => Backed)
  · exact (rollBack_backed pending).mono (fun _ hs => hs.undoing) (fun _ _ => id)
      (fun _ _ h => h.elim)
  · exact fun _ => Triple.raise (fun _ => id)

/-- The preparation of a batch either leaves all it assigned pending, or takes all of it back. -/
theorem prepareBatch_pended (items : List SaveArgs) (pending : List PendingEntry) :
    Triple (fun s => Pended w.toConfig pending s ∧ ¬ BatchMeets w pending items s)
      (prepareBatch w pending items)
      (fun built s => Pended w.toConfig (pending ++ pendingOf built) s) (fun _ => Backed) := by
  induction items generalizing pending with
  | nil =>
    apply Triple.pure
    rintro s ⟨hs, -⟩
    exact (List.append_nil pending).symm ▸ hs
  | cons a rest ih =>
    rintro s ⟨hs, hd⟩
    rw [BatchMeets, not_or] at hd
    have hrow := rollback_backed (prepareBatchEntry_pended a) s ⟨hs, hd.1⟩
    unfold prepareBatch
    rw [Prog.bind_run]
    rcases hr : Prog.rollback (prepareBatchEntry w a) (rollBack pending) s with ⟨err | r, t⟩
    · rw [hr] at hrow
      exact hrow
    · rw [hr] at hrow
      have hr' : prepareBatchEntry w a s = (.ok r, t) := Prog.rollback_ok hr
      have hrest : ¬ BatchMeets w (pendingWith pending r) rest t :=
        fun hm => hd.2 ⟨r, t, hr', hm⟩
      apply Triple.bind (ih (pendingWith pending r)) _ t ⟨hrow, hrest⟩
      intro others
      apply Triple.pure
      intro u hu
      rw [← pendingWith_pendingOf]
      exact hu

theorem saveRows_refused (entries : List MemoryEntry) :
    Triple (Pended w.toConfig pending) (saveRows w entries) (fun _ _ => True)
      (fun _ => Pended w.toConfig pending) := by
  intro s hs
  have hcalled := (Pended.bookkeeping w.toConfig pending).calls s hs
  unfold saveRows
  rw [Prog.bind_run]
  cases hr : w.refuses s.calls <;> simp only [backendCall, hr]
  · by_cases haccept : entries.all columnsAccept = true
    · rw [if_pos haccept]
      trivial
    · rw [if_neg haccept]
      exact hcalled
  · exact hcalled

theorem storeBatch_backed (items : List SaveArgs) :
    Triple (fun s => (∀ key, BackedAt w.toConfig key s) ∧ ¬ BatchMeets w [] items s)
      (storeBatch w items) (fun _ _ => True) (fun _ => Backed) := by
  have hprepared : Triple (fun s => (∀ key, BackedAt w.toConfig key s) ∧ ¬ BatchMeets w [] items s)
      (prepareBatch w [] items) (fun built => Pended w.toConfig (pendingOf built))
      (fun _ => Backed) := by
    apply (prepareBatch_pended items []).mono
    · rintro s ⟨hs, hcalm⟩
      exact ⟨⟨List.nodup_nil, (fun p hp => nomatch hp), (fun key _ => hs key)⟩, hcalm⟩
    · exact fun _ _ => id
    · exact fun _ _ => id
  apply hprepared.bind
  intro built
  dsimp only
  split
  · exact Triple.pure (fun _ _ => trivial)
  · exact (rollback_backed (saveRows_refused _)).bind (fun _ => Triple.pure (fun _ _ => trivial))

end Pended

/-- A store whose backend answers the reads of a preparation and refuses what follows. -/
def shutWorld (reads : Nat) : World :=
  { Config.calm { Config.plain with consolidation := { enabled := false } } with
    refuses := fun n => reads ≤ n }

def batchRow (value : String) : SaveArgs := { key := "a", value := value }

theorem overwrites_nil (key : String) : ¬ Overwrites [] key := by
  rintro ⟨p, hp, -⟩
  cases hp

/-- The first row of a batch finds nothing pending, and without a judge nothing is deleted. -/
theorem prepareMeets_first {w : World} (hpolicy : w.writePolicy = .deterministic) (a : SaveArgs)
    (s : Store) : ¬ PrepareMeets w (BatchLoses w []) (Overwrites []) a s := by
  have hsettled : ∀ value target v, ¬ SettledMeets w (Overwrites []) a value target v := by
    rintro value target v (hbarred | ⟨r, u, -, -, -, plan, -, -, -, hplan, p, -, hbarred⟩)
    · exact overwrites_nil _ hbarred
    · exact overwrites_nil _ hbarred
  rintro ⟨r, t, -, hm⟩
  rcases r with d | ⟨value, agentScope, mgExplicit⟩
  · exact hm
  rcases hm with hpol | ⟨outcome, v, -, hm⟩
  · simp only [PolicyMeets, hpolicy] at hpol
  · cases outcome with
    | stop d => exact hm
    | update target => exact hsettled value _ v hm
    | proceed => exact hsettled value _ v hm

theorem lone_row_calm : ¬ BatchMeets (shutWorld 3) [] [batchRow "the build is green"] {} := by
  have hsmall : ((do
      match ← prepareSave (shutWorld 3) (batchRow "the build is green") with
      | .error _ => pure ()
      | .ok p => do
        let _ ← buildEntry (shutWorld 3) (preparedArgs (batchRow "the build is green") p)
          p.mgExplicit
        pure () : StoreM Unit) {}).2.entries.size = 0 := by decide +kernel
  rintro (⟨-, hm | ⟨r, t, hr, hm⟩⟩ | ⟨_, _, _, hm⟩)
  · exact prepareMeets_first rfl _ _ hm
  · cases r with
    | error d => exact hm
    | ok p =>
      rcases hm with ⟨q, hq, -⟩ | ⟨built, u, hu, hcaps⟩
      · cases hq
      · rw [Prog.bind_run_ok hr] at hsmall
        dsimp only at hsmall
        rw [Prog.bind_run_ok hu] at hsmall
        rcases hcaps with hgroup | ⟨_, v, hv, hfull, -⟩
        · exact hgroup
        · cases hv
          have hroom : (shutWorld 3).maxEntries ≤ u.entries.size := by
            simpa using (Bool.and_eq_true_iff.1 hfull).2
          rw [show u.entries.size = 0 from hsmall] at hroom
          cases hroom
  · exact hm

end TappsBrain
