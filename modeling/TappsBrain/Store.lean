import TappsBrain.Lib.Table
import TappsBrain.Lib.Prog
import TappsBrain.Conflicts

namespace TappsBrain
open Lib
set_option autoImplicit true
set_option relaxedAutoImplicit false

def RelationEntry.triple (r : RelationEntry) : String × String × String :=
  (r.subject, r.predicate, r.objectEntity)

/-- One slot of the cache `_relations`. -/
structure Bucket where
  key : String
  rels : List RelationEntry
deriving DecidableEq, Repr

inductive AuditEvent where
  | save (tier : String) (valueLen : Nat) (isUpdate : Bool)
  | delete (tier : String)
  | closeValidity (reason : String) (status : MemoryStatus) (invalidAt : Stamp)
      (supersededBy detail : Option String)
  | tierEscalate (fromTier toTier : String) (accessCount reinforceCount : Nat)
  | saveConflictUndo (prior : Option String)
  | learningPromote (fromStatus : LearningStatus) (signal : PromotionSignal) (actor : String)
      (evidence : Option String)
  | learningDemote (fromStatus : LearningStatus) (reason : String)
  | demote (fromTier toTier : String)
  | consolidationMerge (sourceKeys : List String) (trigger : String) (threshold : ℚ)
  | consolidationSource (supersededBy trigger : String) (threshold : ℚ)
  | consolidationMergeUndo (sourceKeys : List String) (trigger : String) (threshold : ℚ)
  | promotionStatePartialLoss (sourceKeys : List String) (resolved : LearningStatus)
deriving DecidableEq, Repr

structure AuditRow where
  key : String
  event : AuditEvent
deriving DecidableEq, Repr

/-- The cache and the durable tables of one store, with what has been asked of its environment. -/
structure Store where
  entries : Table MemoryEntry.key := Table.empty
  rows : Table MemoryEntry.key := Table.empty
  relations : Table Bucket.key := Table.empty
  relationRows : Table RelationEntry.triple := Table.empty
  audit : List AuditRow := []
  archive : List MemoryEntry := []
  consolidationInProgress : Bool := false
  calls : Nat := 0
  ticks : Nat := 0
  checks : Nat := 0
deriving DecidableEq

abbrev StoreM := Prog Store Raised

/-- `_utc_now_iso()`. -/
def utcNow (w : World) : StoreM Stamp := fun s => (.ok (w.clock s.ticks), { s with ticks := s.ticks + 1 })

/-- A backend call, which either takes its turn or raises without any effect. -/
def backendCall (w : World) : StoreM Unit := fun s =>
  (if w.refuses s.calls then .error .backend else .ok (), { s with calls := s.calls + 1 })

/-- The store after one more backend call. -/
def Store.called (s : Store) : Store := { s with calls := s.calls + 1 }

@[simp] theorem Store.called_entries (s : Store) : s.called.entries = s.entries := rfl

@[simp] theorem Store.called_rows (s : Store) : s.called.rows = s.rows := rfl

@[simp] theorem Store.called_calls (s : Store) : s.called.calls = s.calls + 1 := rfl

@[simp] theorem backendCall_run (w : World) (s : Store) :
    backendCall w s = (if w.refuses s.calls then .error .backend else .ok (), s.called) := rfl

@[simp] theorem utcNow_run (w : World) (s : Store) :
    utcNow w s = (.ok (w.clock s.ticks), { s with ticks := s.ticks + 1 }) := rfl

/-- The typed columns and table constraints take the row. -/
def columnsAccept (e : MemoryEntry) : Bool :=
  [e.validAt, e.invalidAt, e.staleDate].all (fun t => t.all IsoText.wellFormed) &&
    (e.promotion.learningStatus ≠ .approved || (e.promotion.promotedBy.isSome &&
      e.promotion.promotedAt.isSome && e.promotion.promotionSignal.isSome))

/-- The row `SAVE_UPSERT_SQL` leaves: all columns of the entry but `created_at`. -/
def upserted (rows : Table MemoryEntry.key) (e : MemoryEntry) : MemoryEntry :=
  match rows.get? e.key with
  | some old => { e with createdAt := old.createdAt }
  | none => e

@[simp] theorem upserted_key (rows : Table MemoryEntry.key) (e : MemoryEntry) :
    (upserted rows e).key = e.key := by
  unfold upserted
  split <;> rfl

theorem upserted_congr {t u : Table MemoryEntry.key} {e : MemoryEntry}
    (h : t.get? e.key = u.get? e.key) : upserted t e = upserted u e := by
  simp only [upserted, h]

theorem upserted_same {t : Table MemoryEntry.key} {e : MemoryEntry}
    (h : ∀ row, t.get? e.key = some row → row.createdAt = e.createdAt) : upserted t e = e := by
  unfold upserted
  split
  · next row hrow => rw [h row hrow]
  · rfl

def storeRow (e : MemoryEntry) (s : Store) : Store := { s with rows := s.rows.set (upserted s.rows e) }

@[simp] theorem storeRow_entries (e : MemoryEntry) (s : Store) :
    (storeRow e s).entries = s.entries := rfl

theorem storeRow_get?_self (e : MemoryEntry) (s : Store) :
    (storeRow e s).rows.get? e.key = some (upserted s.rows e) := by
  rw [← upserted_key s.rows e]
  exact Table.get?_set_self _ _

theorem storeRow_get?_ne {e : MemoryEntry} {key : String} (h : e.key ≠ key) (s : Store) :
    (storeRow e s).rows.get? key = s.rows.get? key :=
  Table.get?_set_ne _ (by rwa [upserted_key])

/-- The backend takes the row when it is asked next. -/
def accepts (w : World) (s : Store) (e : MemoryEntry) : Bool :=
  !w.refuses s.calls && columnsAccept e

/-- `_persistence.save`. -/
def saveRow (w : World) (e : MemoryEntry) : StoreM Unit := do
  backendCall w
  if columnsAccept e then Prog.modify (storeRow e) else Prog.raise .backend

/-- `_persistence.delete`. -/
def deleteRow (w : World) (key : String) : StoreM Unit := do
  backendCall w
  Prog.modify (fun s => { s with rows := s.rows.pop key })

/-- `_row_to_entry`. -/
def rowToEntry (c : Config) (row : MemoryEntry) : Except Raised MemoryEntry :=
  match row.validate c.unicode with
  | .error msg => .error (.validationError msg)
  | .ok e => .ok e

/-- `_persistence.load_one`. -/
def loadOne (w : World) (key : String) : StoreM (Option MemoryEntry) := do
  backendCall w
  match ← Prog.read (fun s : Store => s.rows.get? key) with
  | none => pure none
  | some row => do
    let e ← Prog.ofExcept (rowToEntry w.toConfig row)
    pure (some e)

/-- `ORDER BY updated_at DESC`, ties by key. -/
def newerFirst (a b : MemoryEntry) : Prop :=
  b.updatedAt < a.updatedAt ∨ a.updatedAt = b.updatedAt ∧ a.key ≤ b.key

instance : DecidableRel newerFirst := fun _ _ => inferInstanceAs (Decidable (_ ∨ _))

def newestRows (s : Store) : List MemoryEntry := s.rows.values.insertionSort newerFirst

def rowsToEntries (c : Config) : List MemoryEntry → Except Raised (List MemoryEntry)
  | [] => .ok []
  | row :: rest =>
    match rowToEntry c row with
    | .error e => .error e
    | .ok entry =>
      match rowsToEntries c rest with
      | .error e => .error e
      | .ok entries => .ok (entry :: entries)

/-- `LIMIT`, when one is given. -/
def limited (limit : Option Nat) (rows : List MemoryEntry) : List MemoryEntry :=
  match limit with
  | some n => rows.take n
  | none => rows

theorem mem_of_mem_limited {limit : Option Nat} {rows : List MemoryEntry} {e : MemoryEntry}
    (h : e ∈ limited limit rows) : e ∈ rows := by
  cases limit with
  | none => exact h
  | some n => exact List.mem_of_mem_take h

/-- `_persistence.load_all`. -/
def loadAll (w : World) (limit : Option Nat) : StoreM (List MemoryEntry) := do
  backendCall w
  let rows ← Prog.read newestRows
  Prog.ofExcept (rowsToEntries w.toConfig (limited limit rows))

/-- `_persistence.append_audit`, which swallows its own failure. -/
def appendAudit (w : World) (key : String) (event : AuditEvent) : StoreM Unit :=
  Prog.swallow (do
    backendCall w
    Prog.modify (fun s => { s with audit := s.audit ++ [⟨key, event⟩] }))

/-- `_persistence.archive_entry(e) > 0`: a failure is swallowed and reported as nothing written. -/
def archiveEntry (w : World) (e : MemoryEntry) : StoreM Bool :=
  Prog.handle
    (do
      backendCall w
      Prog.modify (fun s => { s with archive := s.archive ++ [e] })
      pure true)
    (fun _ => pure false)

/-- The row `SAVE_RELATION_UPSERT_SQL` leaves for a triple. -/
def mergedRelation (rows : Table RelationEntry.triple) (r : RelationEntry) : RelationEntry :=
  match rows.get? r.triple with
  | some old =>
    { r with
      sourceEntryKeys := (old.sourceEntryKeys ++ r.sourceEntryKeys).eraseDups
      confidence := max old.confidence r.confidence }
  | none => r

@[simp] theorem mergedRelation_triple (t : Table RelationEntry.triple) (r : RelationEntry) :
    (mergedRelation t r).triple = r.triple := by
  unfold mergedRelation
  split <;> rfl

/-- `dict.fromkeys([*rel.source_entry_keys, key])`. -/
def withSource (key : String) (r : RelationEntry) : RelationEntry :=
  { r with sourceEntryKeys := (r.sourceEntryKeys ++ [key]).eraseDups }

def upsertRelations (key : String) (rels : List RelationEntry) (t : Table RelationEntry.triple) :
    Table RelationEntry.triple :=
  rels.foldl (fun t r => t.set (mergedRelation t (withSource key r))) t

/-- `_persistence.save_relations`. -/
def saveRelationRows (w : World) (key : String) (rels : List RelationEntry) : StoreM Unit :=
  if rels = [] then pure ()
  else do
    backendCall w
    Prog.modify (fun s => { s with relationRows := upsertRelations key rels s.relationRows })

/-- The durable relations that list `key` as a source. -/
def relationsOf (s : Store) (key : String) : List RelationEntry :=
  s.relationRows.values.filter (fun r => r.sourceEntryKeys.contains key)

/-- `_persistence.load_relations`. -/
def loadRelationRows (w : World) (key : String) : StoreM (List RelationEntry) := do
  backendCall w
  Prog.read (fun s => relationsOf s key)

/-- `_persistence.delete_relations`: `DELETE_RELATIONS_BY_KEY_SQL` removes whole rows. -/
def deleteRelationRows (w : World) (key : String) : StoreM Unit := do
  backendCall w
  Prog.modify (fun s => { s with
    relationRows := s.relationRows.filter (fun r => !r.sourceEntryKeys.contains key) })

/-- `_check_rate_limit`. -/
def checkRateLimit (w : World) : StoreM Unit := fun s =>
  (if w.rateAllowed s.checks then .ok () else .error .rateLimited, { s with checks := s.checks + 1 })

def getEntry (key : String) : StoreM (Option MemoryEntry) := Prog.read (fun s => s.entries.get? key)

@[simp] theorem getEntry_run (key : String) (s : Store) :
    getEntry key s = (.ok (s.entries.get? key), s) := rfl

def setEntry (e : MemoryEntry) : StoreM Unit :=
  Prog.modify (fun s => { s with entries := s.entries.set e })

def popEntry (key : String) : StoreM Unit :=
  Prog.modify (fun s => { s with entries := s.entries.pop key })

@[simp] theorem setEntry_run (e : MemoryEntry) (s : Store) :
    setEntry e s = (.ok (), { s with entries := s.entries.set e }) := rfl

@[simp] theorem popEntry_run (key : String) (s : Store) :
    popEntry key s = (.ok (), { s with entries := s.entries.pop key }) := rfl

def snapshot : StoreM (List MemoryEntry) := Prog.read (fun s => s.entries.values)

/-- Put the slot back to what it was: the previous entry, or nothing. -/
def restoreSlot (key : String) : Option MemoryEntry → StoreM Unit
  | some e => setEntry e
  | none => popEntry key

def setBucket (key : String) (rels : List RelationEntry) : StoreM Unit :=
  Prog.modify (fun s => { s with relations := s.relations.set ⟨key, rels⟩ })

def popBucket (key : String) : StoreM Unit :=
  Prog.modify (fun s => { s with relations := s.relations.pop key })

/-- `if self._entries.get(key) is updated: self._entries[key] = previous`. -/
def restoreIfSame (updated previous : MemoryEntry) : StoreM Unit := do
  let current ← getEntry updated.key
  if current = some updated then setEntry previous else pure ()

/-- `_persistence.save(updated)` with the identity-guarded rollback of the cache slot. -/
def persistOrRestore (w : World) (updated previous : MemoryEntry) : StoreM Unit :=
  Prog.rollback (saveRow w updated) (restoreIfSame updated previous)

/-- `_drop_if_concurrently_removed`. -/
def dropIfConcurrentlyRemoved (w : World) (key : String) : StoreM Unit := do
  let current ← getEntry key
  if current.isNone then Prog.swallow (deleteRow w key) else pure ()

end TappsBrain
