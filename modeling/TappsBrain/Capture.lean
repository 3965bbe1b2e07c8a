import TappsBrain.Lib.Client
import TappsBrain.Store

namespace TappsBrain
open Lib
set_option autoImplicit true
set_option relaxedAutoImplicit false

/-- The tables of one project and agent. -/
structure Durable where
  rows : Table MemoryEntry.key := Table.empty
  relationRows : Table RelationEntry.triple := Table.empty
  audit : List AuditRow := []
  archive : List (MemoryEntry × Option String) := []
deriving DecidableEq

/-- What the store asks of its persistence layer. -/
inductive PersistenceCall where
  | save (e : MemoryEntry)
  | saveMany (es : List MemoryEntry)
  | delete (key : String)
  /-- `delete` and `delete_relations` in a row, as `QueryMixin.delete` and `_evict_entry_key` send
  them. -/
  | remove (key : String)
  | deleteRelations (key : String)
  | saveRelations (key : String) (rels : List RelationEntry)
  | appendAudit (row : AuditRow)
  | archiveEntry (e : MemoryEntry) (reason : Option String)
  | loadOne (key : String)
  | loadAll (limit : Option Nat)
  | loadRelations (key : String)
deriving DecidableEq

inductive PersistenceReply where
  | done
  | refused
  | deleted (found : Bool)
  | archived (written : Bool)
  | row (r : Except Raised (Option MemoryEntry))
  | rows (r : Except Raised (List MemoryEntry))
  | relations (rels : List RelationEntry)
deriving DecidableEq

/-- `SAVE_UPSERT_SQL`. -/
def upsertRow (t : Table MemoryEntry.key) (e : MemoryEntry) : Table MemoryEntry.key :=
  t.set (upserted t e)

/-- `executemany` of `SAVE_UPSERT_SQL`. -/
def upsertRows (es : List MemoryEntry) (t : Table MemoryEntry.key) : Table MemoryEntry.key :=
  es.foldl upsertRow t

/-- `SAVE_RELATION_UPSERT_SQL`. -/
def upsertRelation (t : Table RelationEntry.triple) (r : RelationEntry) :
    Table RelationEntry.triple :=
  t.set (mergedRelation t r)

def lists (key : String) (r : RelationEntry) : Bool := r.sourceEntryKeys.contains key

def dropListing (key : String) (t : Table RelationEntry.triple) : Table RelationEntry.triple :=
  t.filter (fun r => !lists key r)

/-- `_row_to_entry` on the row of a key, if it has one. -/
def readRow (c : Config) : Option MemoryEntry → Except Raised (Option MemoryEntry)
  | none => .ok none
  | some row => (rowToEntry c row).map some

def readRows (c : Config) (limit : Option Nat) (t : Table MemoryEntry.key) :
    Except Raised (List MemoryEntry) :=
  rowsToEntries c (limited limit (t.values.insertionSort newerFirst))

/-- The backend itself, when it is up. -/
def direct (c : Config) : PersistenceCall → Durable → PersistenceReply × Durable
  | .save e, d =>
    if columnsAccept e then (.done, { d with rows := upsertRow d.rows e }) else (.refused, d)
  | .saveMany es, d =>
    if es.all columnsAccept then (.done, { d with rows := upsertRows es d.rows }) else (.refused, d)
  | .delete key, d => (.deleted (d.rows.contains key), { d with rows := d.rows.pop key })
  | .remove key, d =>
    (.deleted (d.rows.contains key),
      { d with rows := d.rows.pop key, relationRows := dropListing key d.relationRows })
  | .deleteRelations key, d => (.done, { d with relationRows := dropListing key d.relationRows })
  | .saveRelations key rels, d =>
    (.done, { d with relationRows := upsertRelations key rels d.relationRows })
  | .appendAudit row, d => (.done, { d with audit := d.audit ++ [row] })
  | .archiveEntry e reason, d => (.archived true, { d with archive := d.archive ++ [(e, reason)] })
  | .loadOne key, d => (.row (readRow c (d.rows.get? key)), d)
  | .loadAll limit, d => (.rows (readRows c limit d.rows), d)
  | .loadRelations key, d => (.relations (d.relationRows.values.filter (lists key)), d)

/-- The queues of `_CapturePersistenceBackend`. -/
structure Buffers where
  saved : List MemoryEntry := []
  deleted : List String := []
  deletedRelations : List String := []
  relations : List (String × List RelationEntry) := []
  audit : List AuditRow := []
  archives : List (MemoryEntry × Option String) := []
deriving DecidableEq

namespace Buffers

def save (b : Buffers) (e : MemoryEntry) : Buffers :=
  { b with saved := b.saved ++ [e], deleted := b.deleted.filter (· ≠ e.key) }

def saveMany (b : Buffers) (es : List MemoryEntry) : Buffers :=
  { b with
    saved := b.saved ++ es
    deleted := b.deleted.filter (· ∉ es.map MemoryEntry.key) }

def delete (b : Buffers) (key : String) : Buffers :=
  { b with
    saved := b.saved.filter (fun e => e.key ≠ key)
    deleted := b.deleted ++ [key]
    deletedRelations := b.deletedRelations ++ [key]
    relations := b.relations.filter (fun p => p.1 ≠ key) }

def deleteRelations (b : Buffers) (key : String) : Buffers :=
  { b with
    relations := b.relations.filter (fun p => p.1 ≠ key)
    deletedRelations :=
      if key ∈ b.deletedRelations then b.deletedRelations else b.deletedRelations ++ [key] }

def saveRelations (b : Buffers) (key : String) (rels : List RelationEntry) : Buffers :=
  if rels = [] then b
  else
    { b with
      relations := b.relations ++ [(key, rels)]
      deletedRelations := b.deletedRelations.filter (· ≠ key) }

def lastSaved (b : Buffers) (key : String) : Option MemoryEntry :=
  b.saved.reverse.find? (fun e => e.key = key)

def loadOne (c : Config) (d : Durable) (b : Buffers) (key : String) :
    Except Raised (Option MemoryEntry) :=
  match b.lastSaved key with
  | some e => .ok (some e)
  | none => if key ∈ b.deleted then .ok none else readRow c (d.rows.get? key)

def lastRelations (b : Buffers) (key : String) : Option (List RelationEntry) :=
  (b.relations.reverse.find? (fun p => p.1 = key)).map Prod.snd

def loadRelations (d : Durable) (b : Buffers) (key : String) : List RelationEntry :=
  match b.lastRelations key with
  | some rels => rels
  | none =>
    if key ∈ b.deletedRelations then [] else d.relationRows.values.filter (lists key)

end Buffers

/-- `_CapturePersistenceBackend` over the backend `d`. -/
def capture (c : Config) (d : Durable) : PersistenceCall → Buffers → PersistenceReply × Buffers
  | .save e, b => (.done, b.save e)
  | .saveMany es, b => (.done, b.saveMany es)
  | .delete key, b => (.deleted true, b.delete key)
  | .remove key, b => (.deleted true, (b.delete key).deleteRelations key)
  | .deleteRelations key, b => (.done, b.deleteRelations key)
  | .saveRelations key rels, b => (.done, b.saveRelations key rels)
  | .appendAudit row, b => (.done, { b with audit := b.audit ++ [row] })
  | .archiveEntry e reason, b =>
    (.archived true, { b with archives := b.archives ++ [(e, reason)] })
  | .loadOne key, b => (.row (b.loadOne c d key), b)
  | .loadAll limit, b => (.rows (readRows c limit d.rows), b)
  | .loadRelations key, b => (.relations (b.loadRelations d key), b)

/-- `_flush_capture`, when the backend is up: the saves in one transaction, the archives, the
deletes, then the relations and the audit rows. -/
def flushCapture (d : Durable) (b : Buffers) : Except Raised Durable :=
  if b.saved.all columnsAccept then
    .ok
      { rows := b.deleted.foldl Table.pop (upsertRows b.saved d.rows)
        relationRows :=
          b.relations.foldl (fun t p => upsertRelations p.1 p.2 t)
            (b.deletedRelations.foldl (fun t key => dropListing key t) d.relationRows)
        audit := d.audit ++ b.audit
        archive := d.archive ++ b.archives }
  else .error .backend

end TappsBrain
