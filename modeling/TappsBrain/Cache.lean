import TappsBrain.Store

namespace TappsBrain
open Lib
set_option autoImplicit true
set_option relaxedAutoImplicit false

/-- `_ensure_entry_cached`. -/
def ensureEntryCached (w : World) (key : String) : StoreM (Option MemoryEntry) := do
  match ← getEntry key with
  | some e => pure (some e)
  | none => do
    match ← loadOne w key with
    | none => pure none
    | some e => do
      setEntry e
      pure (some e)

/-- The fill loop of `_merge_durable_entries`: cached keys are kept, and only as many rows are
added as the cap leaves room for. -/
def fillCache (cap : Nat) (allowOverCap : Bool) (entries : Table MemoryEntry.key) :
    List MemoryEntry → Table MemoryEntry.key
  | [] => entries
  | e :: rest =>
    if entries.contains e.key || (!allowOverCap && cap ≤ entries.size) then
      fillCache cap allowOverCap entries rest
    else fillCache cap allowOverCap (entries.set e) rest

/-- `_merge_durable_entries`. -/
def mergeDurableEntries (w : World) (allowOverCap : Bool) : StoreM Unit := do
  let size ← Prog.read (fun s : Store => s.entries.size)
  if !allowOverCap && w.maxEntries ≤ size then pure ()
  else do
    let durable ← loadAll w (if allowOverCap then none else some w.maxEntries)
    Prog.modify (fun s => { s with entries := fillCache w.maxEntries allowOverCap s.entries durable })

/-- `_count_entries_in_memory_group`. -/
def countEntriesInMemoryGroup (w : World) (group : Option String) : StoreM Nat := do
  let durable ← loadAll w none
  Prog.modify (fun s => { s with entries := fillCache w.maxEntries true s.entries durable })
  Prog.read (fun s => (s.entries.values.filter (fun e => e.memoryGroup = group)).length)

/-- `delete_relations` with the restore of the removed row when it raises. -/
def deleteRelationsOrRestore (w : World) (key : String) (removed : Option MemoryEntry) :
    StoreM Unit :=
  Prog.rollback (deleteRelationRows w key) (match removed with
    | none => pure ()
    | some e => do
      setEntry e
      Prog.swallow (saveRow w e))

/-- The removal that `delete` and `_evict_entry_key` share: the slot is popped, then the row and
its relations are deleted, and what was popped is put back when one of them raises. -/
def removeDurably (w : World) (key : String) (entry : Option MemoryEntry) : StoreM Unit := do
  popEntry key
  Prog.rollback (deleteRow w key) (restoreSlot key entry)
  deleteRelationsOrRestore w key entry

/-- `_evict_entry_key`. -/
def evictEntryKey (w : World) (key : String) : StoreM Unit := do
  let entry ← getEntry key
  removeDurably w key entry
  popBucket key

/-- `min(..., key=confidence)`: the first of the least. -/
def lowestConfidence : List MemoryEntry → Option MemoryEntry
  | [] => none
  | e :: rest =>
    match lowestConfidence rest with
    | none => some e
    | some m => if m.confidence < e.confidence then some m else some e

def evictLowest (w : World) (candidates : List MemoryEntry) : StoreM Unit :=
  match lowestConfidence candidates with
  | none => pure ()
  | some e => evictEntryKey w e.key

def inGroup (group : Option String) (entries : List MemoryEntry) : List MemoryEntry :=
  entries.filter (fun e => e.memoryGroup = group)

/-- `_evict_lowest_confidence_in_group`. -/
def evictLowestConfidenceInGroup (w : World) (group : Option String) : StoreM Unit := do
  let entries ← snapshot
  evictLowest w (inGroup group entries)

/-- Whom `_evict_lowest_confidence_prefer_group` chooses from: the group, if it has entries. -/
def preferGroup (w : World) (group : Option String) (entries : List MemoryEntry) :
    List MemoryEntry :=
  if w.maxEntriesPerGroup.isSome && inGroup group entries ≠ [] then inGroup group entries
  else entries

/-- `_evict_lowest_confidence_prefer_group`. -/
def evictLowestConfidencePreferGroup (w : World) (group : Option String) : StoreM Unit := do
  let entries ← snapshot
  evictLowest w (preferGroup w group entries)

/-- The group half of `_enforce_entry_caps_before_assign`. -/
def enforceGroupCap (w : World) (newGroup : Option String) (existing : Option MemoryEntry) :
    StoreM Unit :=
  match w.maxEntriesPerGroup with
  | none => pure ()
  | some capG =>
    match existing with
    | none => do
      let n ← countEntriesInMemoryGroup w newGroup
      if capG ≤ n then evictLowestConfidenceInGroup w newGroup else pure ()
    | some e =>
      if e.memoryGroup ≠ newGroup then do
        let n ← countEntriesInMemoryGroup w newGroup
        if capG < n + 1 then evictLowestConfidenceInGroup w newGroup else pure ()
      else pure ()

/-- `_enforce_entry_caps_before_assign`. -/
def enforceEntryCapsBeforeAssign (w : World) (newGroup : Option String)
    (existing : Option MemoryEntry) : StoreM Unit := do
  enforceGroupCap w newGroup existing
  let size ← Prog.read (fun s : Store => s.entries.size)
  if existing.isNone && w.maxEntries ≤ size then evictLowestConfidencePreferGroup w newGroup
  else pure ()

/-- The cached relations of every other bucket without the rows that list `key`. -/
def purgeBuckets (key : String) (s : Store) : Table Bucket.key :=
  (s.relations.pop key).mapValues
    (fun b => { b with rels := b.rels.filter (fun r => !r.sourceEntryKeys.contains key) })
    (fun _ => rfl)

/-- `delete`. -/
def delete (w : World) (key : String) : StoreM Bool := do
  match ← ensureEntryCached w key with
  | none => pure false
  | some removed => do
    removeDurably w key (some removed)
    Prog.modify (fun s => { s with relations := purgeBuckets key s })
    appendAudit w key (.delete removed.tier.text)
    pure true

/-- `get` without scope resolution. -/
def get (w : World) (key : String) : StoreM (Option MemoryEntry) := do
  match ← ensureEntryCached w key with
  | none => pure none
  | some e => do
    let now ← utcNow w
    let updated := accessed now e
    setEntry updated
    persistOrRestore w updated e
    dropIfConcurrentlyRemoved w key
    pure (some updated)

def trimOrder (preExisting : List String) (a b : MemoryEntry) : Prop :=
  let rank (e : MemoryEntry) : Nat := if e.key ∈ preExisting then 1 else 0
  rank a < rank b ∨ rank a = rank b ∧ a.confidence ≤ b.confidence

instance (preExisting : List String) : DecidableRel (trimOrder preExisting) :=
  fun _ _ => inferInstanceAs (Decidable (_ ∨ _))

/-- `_trim_cache_to_cap`. -/
def trimCacheToCap (w : World) (preExisting : List String) : StoreM Unit :=
  Prog.modify (fun s =>
    let dropped := ((s.entries.values.insertionSort (trimOrder preExisting)).take
      (s.entries.size - w.maxEntries)).map (·.key)
    { s with entries := s.entries.filter (fun e => !dropped.contains e.key) })

/-- `_durable_view`. -/
def durableView (w : World) (body : StoreM α) : StoreM α := do
  let preExisting ← Prog.read (fun s : Store => s.entries.values.map (·.key))
  mergeDurableEntries w true
  Prog.ensure body (trimCacheToCap w preExisting)

end TappsBrain
