import TappsBrain.Lib.Run
import TappsBrain.Maintain
import TappsBrain.PassDiscipline
import TappsBrain.Scar

namespace TappsBrain
open Lib
set_option autoImplicit true
set_option relaxedAutoImplicit false

/-- The private memory an event writes next to the graph. -/
structure MemorySpec where
  key : String
  value : String
  tier : Tier := .std .pattern
  confidence : ℚ := 8 / 10
  tags : List String := []
  agentScope : String := "private"
deriving DecidableEq, Repr

/-- The row of a key that is new, with the defaults of the other columns. -/
def insertedMemory (agentId : String) (now : Stamp) (m : MemorySpec) : MemoryEntry where
  key := m.key
  value := m.value
  tier := m.tier
  confidence := m.confidence
  source := .agent
  sourceAgent := agentId
  scope := .project
  agentScope := m.agentScope
  tags := m.tags
  createdAt := now
  updatedAt := now
  lastAccessed := now

/-- The row `_INSERT_MEMORY_SQL` leaves. -/
def recordedMemory (agentId : String) (now : Stamp) (m : MemorySpec) (s : Store) : MemoryEntry :=
  match s.rows.get? m.key with
  | none => insertedMemory agentId now m
  | some row =>
    { row with
      value := m.value
      tier := m.tier
      confidence := m.confidence
      sourceAgent := agentId
      agentScope := m.agentScope
      tags := m.tags
      updatedAt := now
      invalidAt := none
      supersededBy := none
      contradicted := false
      contradictionReason := none
      status := .active
      staleReason := none
      staleDate := none }

def evictedFirst (a b : MemoryEntry) : Prop :=
  a.confidence < b.confidence ∨ a.confidence = b.confidence ∧ a.updatedAt ≤ b.updatedAt

instance : DecidableRel evictedFirst := fun _ _ => inferInstanceAs (Decidable (_ ∨ _))

/-- `_ensure_memory_capacity`. -/
def ensureMemoryCapacity (maxEntries : Nat) (key : String) (s : Store) : Store :=
  if s.rows.contains key || s.rows.size < maxEntries then s
  else
    match (s.rows.values.insertionSort evictedFirst).head? with
    | none => s
    | some least => { s with rows := s.rows.pop least.key }

/-- The memory step of `record` once its transaction has committed; the cache does not hear of it. -/
def recordMemory (agentId : String) (maxEntries : Nat) (now : Stamp) (m : MemorySpec) (s : Store) :
    Store :=
  let s := ensureMemoryCapacity maxEntries m.key s
  { s with rows := s.rows.set (recordedMemory agentId now m s) }

/-- `search`, by the rows its query and its filters match. -/
def search (w : World) (query : MemoryEntry → Bool) : StoreM (List MemoryEntry) := do
  backendCall w
  let rows ← Prog.read newestRows
  Prog.ofExcept (rowsToEntries w.toConfig (rows.filter query))

/-- `list_all` without filters. -/
def listAll (w : World) : StoreM (List MemoryEntry) := do
  mergeDurableEntries w false
  snapshot

/-- Keyword arguments that name neither the value nor a lifecycle column. -/
structure OtherFields extends FieldPatch where
  set_value : ∀ e, (set e).value = e.value
  set_life : ∀ e, (set e).life = e.life

inductive StoreCall where
  | get (key : String)
  | search (query : MemoryEntry → Bool)
  | listAll
  | reinforce (key : String) (boost : ℚ)
  | recordAccess (key : String) (wasUseful : Bool)
  | updateFields (key : String) (fields : OtherFields)
  | updateTags (key : String) (add remove : List String)
  | getRelations (key : String)
  | gc (dryRun : Bool)
  | refreshDecay (dryRun : Bool)

/-- The store a call leaves, whether it returns or raises. -/
def StoreCall.run (w : World) : StoreCall → Store → Store
  | .get key => (TappsBrain.get w key).final
  | .search query => (TappsBrain.search w query).final
  | .listAll => (TappsBrain.listAll w).final
  | .reinforce key boost => (TappsBrain.reinforce w key boost).final
  | .recordAccess key wasUseful => (TappsBrain.recordAccess w key wasUseful).final
  | .updateFields key fields => (TappsBrain.updateFields w key fields.toFieldPatch).final
  | .updateTags key add remove => (TappsBrain.updateTags w key add remove).final
  | .getRelations key => (TappsBrain.getRelations w key).final
  | .gc dryRun => (TappsBrain.gc w dryRun).final
  | .refreshDecay dryRun => (TappsBrain.refreshDecay w dryRun).final

/-- A pass may archive and delete rows; `refresh_decay` also closes them for their age. -/
def StoreCall.isPass : StoreCall → Bool
  | .gc _ => true
  | .refreshDecay _ => true
  | _ => false

def StoreCall.mayClose : StoreCall → Bool
  | .refreshDecay _ => true
  | _ => false

abbrev Life := Option String × Option IsoText × Option IsoText × MemoryStatus × Bool

/-- The value is `v` and the lifecycle columns are `l`, or a pass has closed the row for its age. -/
def Standing (v : String) (l : Life) (aged : Prop) (e : MemoryEntry) : Prop :=
  e.value = v ∧ (e.life = l ∨ aged ∧ e.status = .stale)

theorem Standing.of_eq {v : String} {l : Life} {aged : Prop} {e e' : MemoryEntry}
    (h : Standing v l aged e) (hv : e'.value = e.value) (hl : e'.life = e.life) :
    Standing v l aged e' := by
  have hstatus : e'.status = e.status := congrArg (fun x : Life => x.2.2.2.1) hl
  refine ⟨hv.trans h.1, ?_⟩
  rcases h.2 with hlife | ⟨ha, hs⟩
  · exact .inl (hl.trans hlife)
  · exact .inr ⟨ha, hstatus.trans hs⟩

theorem upserted_value (rows : Table MemoryEntry.key) (e : MemoryEntry) :
    (upserted rows e).value = e.value := by
  rw [upserted]
  split
  · rfl
  · rfl

theorem withStability_value (c : Config) (b e : MemoryEntry) (useful : Bool) (now : Stamp) :
    (withStability c b useful now e).value = e.value := by
  rw [withStability]
  split
  · rfl
  · rfl

/-- Whatever the cache or the table holds under `key` stands. -/
def standing (w : World) (key v : String) (l : Life) (aged : Prop) : Discipline w :=
  AllAt.kept w key (φ := Standing v l aged)
    (fun row e he h => by
      rw [(rowToEntry_ok he).2]
      exact h.of_eq rfl rfl)
    (fun rows e h => h.of_eq (upserted_value rows e) (upserted_life rows e))

section Keeps
variable {w : World} {key v : String} {l : Life} {aged : Prop}

/-- A rewrite that keeps key, value and lifecycle columns may be written. -/
theorem standing_rewrites {e e' : MemoryEntry} (h : (standing w key v l aged).sees e)
    (hk : e'.key = e.key) (hv : e'.value = e.value) (hl : e'.life = e.life) :
    (standing w key v l aged).writes e ∧ (standing w key v l aged).writes e' :=
  ⟨h, fun hkey => (h (hk.symm.trans hkey)).of_eq hv hl⟩

theorem StoreCall.run_standing (call : StoreCall) (haged : call.mayClose = true → aged) (s : Store)
    (hs : (standing w key v l aged).inv s) : (standing w key v l aged).inv (call.run w s) := by
  have hall : ∀ e, (standing w key v l aged).sees e → (standing w key v l aged).writes e :=
    fun _ h => h
  cases call with
  | get k =>
    apply ((standing w key v l aged).get _).final hs
    intro e now hsees _ _
    exact standing_rewrites hsees rfl rfl rfl
  | search query =>
    have hsearch : Keeps (standing w key v l aged).inv (TappsBrain.search w query) := by
      apply Keeps.bind (keeps_backendCall (standing w key v l aged).bookkeeping)
      intro _ _
      exact Keeps.ask.bind (fun rows _ => Keeps.ofExcept (fun _ _ => trivial))
    exact hsearch.final hs
  | listAll =>
    have hlist := ((standing w key v l aged).mergeDurableEntries false).bind
      (fun _ _ => (standing w key v l aged).snapshot)
    exact hlist.final hs
  | reinforce k boost =>
    have hallows : (standing w key v l aged).AllowsReinforce k boost := by
      constructor
      · intro e now hsees _ _
        apply standing_rewrites hsees (reinforced_key _ _ _ _) _ (reinforced_life _ _ _ _)
        exact withStability_value _ _ _ _ _
      · intro e at₁ at₂ at₃ target hsees _ _ _ _
        apply (standing_rewrites hsees _ _ _).2
        · exact reinforced_key _ _ _ _
        · exact withStability_value _ _ _ _ _
        · exact reinforced_life _ _ _ _
    exact ((standing w key v l aged).reinforce hallows).final hs
  | recordAccess k wasUseful =>
    apply ((standing w key v l aged).recordAccess _).final hs
    intro e now hsees _ _
    apply standing_rewrites hsees (accessRecorded_key _ _ _ _)
    · exact withStability_value _ _ _ _ _
    · exact withStability_life _ _ _ _ _
  | updateFields k fields =>
    apply ((standing w key v l aged).updateFields _).final hs
    intro e now hsees _ _
    exact standing_rewrites hsees (fields.set_key e) (fields.set_value e) (fields.set_life e)
  | updateTags k add remove =>
    apply ((standing w key v l aged).updateTags add remove _).final hs
    intro e tags now hsees _ _
    exact standing_rewrites hsees rfl rfl rfl
  | getRelations k => exact ((standing w key v l aged).getRelations k).final hs
  | gc dryRun =>
    apply ((standing w key v l aged).gc dryRun (fun _ => trivial) hall _).final hs
    intro _ _ target _ e now hsees _
    exact standing_rewrites hsees rfl rfl rfl
  | refreshDecay dryRun =>
    apply ((standing w key v l aged).refreshDecay dryRun (fun _ => trivial) hall _).final hs
    intro e now detail hsees _ hkey
    have he := hsees hkey
    exact ⟨he.1, .inr ⟨haged rfl, rfl⟩⟩

end Keeps

/-- The row of `key` is there. -/
def Present (key : String) (s : Store) : Prop := (s.rows.get? key).isSome = true

theorem Present.bookkeeping (key : String) : Bookkeeping (Present key) :=
  ⟨fun _ h => h, fun _ h => h, fun _ h => h, fun _ _ h => h, fun _ _ h => h, fun _ _ h => h⟩

section Present
variable {w : World} {key k : String}

/-- The invariant of the calls that write nothing but hydrated slots. -/
def Present.reading (w : World) (key : String) : Discipline w where
  inv := Present key
  sees := fun _ => True
  writes := fun _ => False
  frees := fun _ => False
  reads := fun _ => True
  bookkeeping := Present.bookkeeping key
  ignoresRelations := ⟨fun _ _ h => h, fun _ _ h => h⟩
  cached := fun _ _ _ _ => trivial
  loads := fun _ _ _ _ _ _ => trivial
  hydrate := fun _ _ _ h _ _ _ => h
  assign := fun _ _ _ h => h.elim
  store := fun _ _ _ h => h.elim
  pop := fun _ _ h _ => h
  drop := fun _ _ _ h => h.elim
  filter := fun _ _ h _ => h
  frees_of_writes := fun _ h => h.elim
  reading := fun _ _ => trivial

/-- `before` is what the cache holds, and the row of `key` is there. -/
def ReadyAt (key : String) (before : MemoryEntry) (s : Store) : Prop :=
  s.entries.get? before.key = some before ∧ Present key s

theorem rewriteEntry_present {before after : MemoryEntry} (hk : after.key = before.key) :
    Triple (ReadyAt key before) (rewriteEntry w before after) (fun _ => ReadyAt key after)
      (fun _ => Present key) := by
  intro s hs
  rw [rewriteEntry_run w hk hs.1]
  cases accepts w s after with
  | false => exact hs.2
  | true =>
    refine ⟨Table.get?_set_self _ _, ?_⟩
    by_cases he : after.key = key
    · rw [Present, ← he]
      dsimp only
      rw [storeRow_get?_self]
      rfl
    · rw [Present]
      dsimp only
      rw [storeRow_get?_ne he]
      exact hs.2

theorem ensureEntryCached_present : Triple (Present key) (ensureEntryCached w k)
    (fun r s => Present key s ∧ ∀ e, r = some e → ReadyAt key e s ∧ e.key = k)
    (fun _ => Present key) := by
  intro s hs
  have hrows : Present key (ensureEntryCached w k s).2 := by
    rw [ensureEntryCached_run]
    repeat' split
    all_goals exact hs
  cases hr : ensureEntryCached w k s with
  | mk r t =>
    rw [hr] at hrows
    cases r with
    | error e => exact hrows
    | ok found =>
      refine ⟨hrows, ?_⟩
      intro e he
      subst he
      obtain ⟨hslot, hkey⟩ := ensureEntryCached_slot hr
      rw [← hkey] at hslot
      exact ⟨⟨hslot, hrows⟩, hkey⟩

/-- A call that reads the entry of a key and rewrites it. -/
theorem readRewrite_present {α : Type} {absent : StoreM α} {f : MemoryEntry → StoreM α}
    (habsent : Keeps (Present key) absent)
    (hfound : ∀ e, e.key = k → Triple (ReadyAt key e) (f e) (fun _ => Present key) (fun _ => Present key)) :
    Keeps (Present key) (do
      match ← ensureEntryCached w k with
      | none => absent
      | some e => f e) := by
  apply Triple.bind ensureEntryCached_present
  intro r s hs
  cases r with
  | none => exact habsent s hs.1
  | some e =>
    obtain ⟨hready, hkey⟩ := hs.2 e rfl
    exact (hfound e hkey).mono (fun _ h => h) (fun _ _ h => ⟨h, trivial⟩) (fun _ _ h => h) s hready

/-- What comes after the rewrite leaves the rows alone. -/
theorem rewriteThen_present {α : Type} {before after : MemoryEntry} {rest : StoreM α}
    (hk : after.key = before.key) (hrest : Keeps (Present key) rest) :
    Triple (ReadyAt key before) (rewriteEntry w before after >>= fun _ => rest) (fun _ => Present key)
      (fun _ => Present key) :=
  (rewriteEntry_present hk).bind (fun _ => hrest.mono (fun _ h => h.2) (fun _ _ h => h.1) (fun _ _ h => h))

theorem clocked_present {α : Type} {before : MemoryEntry} {f : Stamp → StoreM α}
    (h : ∀ now, Triple (ReadyAt key before) (f now) (fun _ => Present key) (fun _ => Present key)) :
    Triple (ReadyAt key before) (utcNow w >>= f) (fun _ => Present key) (fun _ => Present key) := by
  intro s hs
  exact h (w.clock s.ticks) _ hs

theorem get_present : Keeps (Present key) (get w k) := by
  apply readRewrite_present (Keeps.pure trivial)
  intro e hk
  apply clocked_present
  intro now
  have hrun : (do
      setEntry (accessed now e)
      persistOrRestore w (accessed now e) e
      dropIfConcurrentlyRemoved w k
      pure (some (accessed now e)) : StoreM (Option MemoryEntry)) =
        rewriteEntry w e (accessed now e) >>= fun _ => pure (some (accessed now e)) := by
    rw [← hk]
    simp only [rewriteEntry, Prog.bind_assoc]
    rfl
  exact hrun ▸ rewriteThen_present rfl (Keeps.pure trivial)

theorem updateFields_present (patch : FieldPatch) : Keeps (Present key) (updateFields w k patch) := by
  apply readRewrite_present (Keeps.pure trivial)
  intro e _
  apply clocked_present
  intro now
  exact rewriteThen_present (patch.apply_key now e) (Keeps.pure trivial)

theorem recordAccess_present (wasUseful : Bool) : Keeps (Present key) (recordAccess w k wasUseful) := by
  apply readRewrite_present (Keeps.pure trivial)
  intro e _
  apply clocked_present
  intro now
  exact (rewriteEntry_present (accessRecorded_key _ _ _ _)).mono (fun _ h => h) (fun _ _ h => h.2)
    (fun _ _ h => h)

theorem updateTags_present (add remove : List String) :
    Keeps (Present key) (updateTags w k add remove) := by
  apply readRewrite_present (Keeps.pure trivial)
  intro e _
  dsimp only
  split
  · exact Triple.pure (fun _ h => h.2)
  · apply clocked_present
    intro now
    exact rewriteThen_present rfl (Keeps.pure trivial)

theorem maybePromote_present {updated : MemoryEntry} :
    Triple (ReadyAt key updated) (maybePromoteAfterReinforce w updated) (fun _ => Present key)
      (fun _ => Present key) := by
  rw [maybePromoteAfterReinforce]
  split
  · exact Triple.pure (fun _ h => h.2)
  · have hdue : Triple (ReadyAt key updated) (promoteWhenDue w updated) (fun _ => Present key)
        (fun _ => Present key) := by
      apply clocked_present
      intro checkedAt
      split
      · exact Triple.pure (fun _ h => h.2)
      · apply clocked_present
        intro now
        apply rewriteThen_present (promoted_key _ _ _ _)
        exact ((Present.reading w key).appendAudit _ _).bind (fun _ _ => Keeps.pure trivial)
    exact hdue.handle (fun _ => Triple.pure (fun _ h => h))

theorem reinforce_present (boost : ℚ) : Keeps (Present key) (reinforce w k boost) := by
  apply readRewrite_present Keeps.raise
  intro e _
  apply clocked_present
  intro now
  exact (rewriteEntry_present (reinforced_key _ _ _ _)).bind (fun _ => maybePromote_present)

/-- Only a pass removes a row. -/
theorem StoreCall.run_present (call : StoreCall) (hpass : call.isPass = false) (s : Store)
    (hs : Present key s) : Present key (call.run w s) := by
  cases call with
  | get k => exact get_present.final hs
  | search query =>
    have hsearch : Keeps (Present key) (TappsBrain.search w query) := by
      apply Keeps.bind (keeps_backendCall (Present.bookkeeping key))
      intro _ _
      exact Keeps.ask.bind (fun rows _ => Keeps.ofExcept (fun _ _ => trivial))
    exact hsearch.final hs
  | listAll =>
    have hlist := ((Present.reading w key).mergeDurableEntries false).bind
      (fun _ _ => (Present.reading w key).snapshot)
    exact hlist.final hs
  | reinforce k boost => exact (reinforce_present boost).final hs
  | recordAccess k wasUseful => exact (recordAccess_present wasUseful).final hs
  | updateFields k fields => exact (updateFields_present fields.toFieldPatch).final hs
  | updateTags k add remove => exact (updateTags_present add remove).final hs
  | getRelations k => exact ((Present.reading w key).getRelations k).final hs
  | gc dryRun => cases hpass
  | refreshDecay dryRun => cases hpass

end Present

/-- What the cache holds for the key agrees with the row the recording leaves. -/
def CacheAgrees (agentId : String) (maxEntries : Nat) (now : Stamp) (m : MemorySpec) (s : Store) : Prop :=
  ∀ e, s.entries.get? m.key = some e → e.value = m.value ∧
    e.life = (recordedMemory agentId now m (ensureMemoryCapacity maxEntries m.key s)).life

theorem ensureMemoryCapacity_entries (maxEntries : Nat) (key : String) (s : Store) :
    (ensureMemoryCapacity maxEntries key s).entries = s.entries := by
  rw [ensureMemoryCapacity]
  split
  · rfl
  · split
    · rfl
    · rfl

theorem recordedMemory_key (agentId : String) (now : Stamp) (m : MemorySpec) (s : Store) :
    (recordedMemory agentId now m s).key = m.key := by
  rw [recordedMemory]
  split
  · rfl
  · next row hrow =>
    have hkey : row.key = m.key := Table.key_of_get? hrow
    exact hkey

theorem recordedMemory_value (agentId : String) (now : Stamp) (m : MemorySpec) (s : Store) :
    (recordedMemory agentId now m s).value = m.value := by
  rw [recordedMemory]
  split
  · rfl
  · rfl

theorem recordMemory_row (agentId : String) (maxEntries : Nat) (now : Stamp) (m : MemorySpec) (s : Store) :
    (recordMemory agentId maxEntries now m s).rows.get? m.key =
      some (recordedMemory agentId now m (ensureMemoryCapacity maxEntries m.key s)) := by
  have hget := Table.get?_set_self (ensureMemoryCapacity maxEntries m.key s).rows
    (recordedMemory agentId now m (ensureMemoryCapacity maxEntries m.key s))
  rw [recordedMemory_key] at hget
  exact hget

/-- A memory recorded past the cache keeps its value and its liveness through every sequence of
calls that do not rewrite it, when the cache did not hold anything else for its key. -/
theorem recording_survives (w : World) (agentId : String) (maxEntries : Nat) (now : Stamp)
    (m : MemorySpec) (s : Store) (calls : List StoreCall)
    (hcache : CacheAgrees agentId maxEntries now m s) :
    let recorded := recordMemory agentId maxEntries now m s
    let t := runSteps (StoreCall.run w) calls recorded
    (∀ row, t.rows.get? m.key = some row → row.value = m.value ∧
      ((recorded.rows.get? m.key).map MemoryEntry.life = some row.life ∨
        calls.any StoreCall.mayClose = true ∧ row.status = .stale)) ∧
      (calls.any StoreCall.isPass = false → (t.rows.get? m.key).isSome = true) := by
  intro recorded t
  let row₀ := recordedMemory agentId now m (ensureMemoryCapacity maxEntries m.key s)
  have hrow₀ : recorded.rows.get? m.key = some row₀ := recordMemory_row agentId maxEntries now m s
  have hentries : recorded.entries = s.entries := ensureMemoryCapacity_entries maxEntries m.key s
  have hstart : (standing w m.key m.value row₀.life (calls.any StoreCall.mayClose = true)).inv recorded := by
    apply AllAt.of_get?
    · intro e he
      rw [hentries] at he
      obtain ⟨hv, hl⟩ := hcache e he
      exact ⟨hv, .inl hl⟩
    · intro e he
      rw [hrow₀] at he
      cases he
      exact ⟨recordedMemory_value _ _ _ _, .inl rfl⟩
  constructor
  · have hend : (standing w m.key m.value row₀.life (calls.any StoreCall.mayClose = true)).inv t := by
      apply runSteps_keeps _ hstart
      intro call hcall s' hs'
      exact call.run_standing (fun hc => List.any_eq_true.2 ⟨call, hcall, hc⟩) s' hs'
    intro row hrow
    have hstands := hend.2 row (Table.mem_of_get? hrow) (Table.key_of_get? hrow)
    refine ⟨hstands.1, ?_⟩
    rw [hrow₀]
    exact hstands.2.imp (fun h => congrArg some h.symm) id
  · intro hpass
    have hpresent : Present m.key recorded := by
      rw [Present, hrow₀]
      rfl
    have hend : Present m.key t := by
      apply runSteps_keeps _ hpresent
      intro call hcall s' hs'
      apply call.run_present _ s' hs'
      exact Bool.eq_false_iff.2 (List.any_eq_false.1 hpass call hcall)
    exact hend

/-- A row that a save conflict has closed. -/
def closedRow : MemoryEntry where
  key := "k"
  value := "old"
  createdAt := 0
  updatedAt := 5
  lastAccessed := 0
  contradicted := true
  invalidAt := some (.at 5)
  status := .contradicted

def newMemory : MemorySpec := { key := "k", value := "new" }

/-- The key is not cached; it is read, used and passed over by a maintenance pass. -/
theorem recording_survives_uncached :
    let recorded := recordMemory "agent" 100 9 newMemory { rows := Table.empty.set closedRow }
    let calls : List StoreCall := [.get "k", .reinforce "k" 0, .recordAccess "k" true, .gc false]
    let t := runSteps (StoreCall.run Config.plain.calm) calls recorded
    (∀ row, t.rows.get? "k" = some row → row.value = "new" ∧
      ((recorded.rows.get? "k").map MemoryEntry.life = some row.life ∨
        calls.any StoreCall.mayClose = true ∧ row.status = .stale)) ∧
      (calls.any StoreCall.isPass = false → (t.rows.get? "k").isSome = true) := by
  apply recording_survives Config.plain.calm "agent" 100 9 newMemory
  intro e he
  cases he

/-- The key is cached; the next read writes the cached row back. -/
theorem recording_undone :
    let recorded := recordMemory "agent" 100 9 newMemory
      { entries := Table.empty.set closedRow, rows := Table.empty.set closedRow }
    let t := runSteps (StoreCall.run Config.plain.calm) [.get "k"] recorded
    ((recorded.rows.get? "k").map MemoryEntry.value = some "new" ∧
        (recorded.rows.get? "k").map (MemoryEntry.liveRow 10) = some true) ∧
      (t.rows.get? "k").map MemoryEntry.value ≠ some "new" ∧
      (t.rows.get? "k").map (MemoryEntry.liveRow 10) ≠ some true := by
  decide +kernel

end TappsBrain
