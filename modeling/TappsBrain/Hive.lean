import Mathlib.Data.List.Sort
import TappsBrain.Lib.Table
import TappsBrain.Entry

namespace TappsBrain
open Lib
set_option autoImplicit true
set_option relaxedAutoImplicit false

/-- A key of the shared table: the key of a memory, or the `-v` version of it written at a moment.
The suffix has an upper-case letter, so no version is the key of a memory. -/
structure HiveKey where
  logical : String
  version : Option Stamp := none
deriving DecidableEq, Repr

inductive ConflictPolicy where
  | supersede | lastWriteWins | sourceAuthority | confidenceMax
deriving DecidableEq, Repr

/-- A row of `hive_memories`. -/
structure HiveRow where
  ns : String
  key : HiveKey
  value : String
  sourceAgent : String
  tier : String
  confidence : ℚ
  source : String
  tags : List String
  validAt : Option Stamp := none
  invalidAt : Option Stamp := none
  supersededBy : Option HiveKey := none
  memoryGroup : Option String := none
  conflictPolicy : ConflictPolicy := .supersede
  createdAt : Stamp
  updatedAt : Stamp
  runId : Option String := none
deriving DecidableEq, Repr

/-- The primary key. -/
def HiveRow.id (r : HiveRow) : String × HiveKey := (r.ns, r.key)

def HiveRow.live (r : HiveRow) : Bool := r.invalidAt.isNone

/-- A row of `hive_group_members`. -/
structure GroupMember where
  groupName : String
  agentId : String
  projectId : String
deriving DecidableEq, Repr

abbrev HiveTable : Type := Table HiveRow.id

structure HiveStore where
  memories : HiveTable := Table.empty
  members : List GroupMember := []
  /-- How often the clock has been read. -/
  ticks : Nat := 0

/-- The arguments of a save. -/
structure HiveSave where
  key : String
  value : String
  ns : String := "universal"
  sourceAgent : String := "unknown"
  tier : String := "pattern"
  confidence : ℚ := 6 / 10
  source : String := "agent"
  tags : List String := []
  conflictPolicy : ConflictPolicy := .supersede
  memoryGroup : Option String := none
  runId : Option String := none

/-- The loop of `_follow_live_tip`; every turn adds a key of the table to `seen`, so the size of the
table bounds the turns. -/
def followFrom (t : HiveTable) : Nat → List HiveKey → HiveRow → HiveRow
  | 0, _, row => row
  | turns + 1, seen, row =>
    if row.live then row
    else
      match row.supersededBy with
      | none => row
      | some next =>
        if row.key ∈ seen then row
        else
          match t.get? (row.ns, next) with
          | none => row
          | some nextRow => followFrom t turns (row.key :: seen) nextRow

/-- `_follow_live_tip`. -/
def followLiveTip (t : HiveTable) (row : HiveRow) : HiveRow := followFrom t t.size [] row

inductive ConflictResolution where
  | overwrite | supersedeVersion | reject
deriving DecidableEq

/-- `_resolve_conflict`. -/
def resolveConflict (existing : HiveRow) (a : HiveSave) : ConflictResolution :=
  match a.conflictPolicy with
  | .lastWriteWins => .overwrite
  | .sourceAuthority => if a.sourceAgent = existing.sourceAgent then .overwrite else .reject
  | .confidenceMax => if a.confidence ≤ existing.confidence then .reject else .overwrite
  | .supersede => .supersedeVersion

/-- The row `_write_entry` inserts. -/
def HiveSave.row (a : HiveSave) (key : HiveKey) (validAt : Option Stamp) (createdAt now : Stamp) :
    HiveRow where
  ns := a.ns
  key := key
  value := a.value
  sourceAgent := a.sourceAgent
  tier := a.tier
  confidence := a.confidence
  source := a.source
  tags := a.tags
  validAt := validAt
  memoryGroup := a.memoryGroup
  conflictPolicy := a.conflictPolicy
  createdAt := createdAt
  updatedAt := now
  runId := a.runId

/-- `ON CONFLICT (namespace, key) DO UPDATE`, which leaves `created_at`. -/
def upsertMemory (t : HiveTable) (row : HiveRow) : HiveTable :=
  match t.get? row.id with
  | none => t.set row
  | some existing => t.set { row with createdAt := existing.createdAt }

/-- The update of `_supersede_existing` on the live tip. -/
def HiveRow.supersededAt (tip : HiveRow) (now : Stamp) (next : HiveKey) : HiveRow :=
  { tip with invalidAt := some now, supersededBy := some next }

/-- The rows after a save at `now`. -/
def saveMemory (now : Stamp) (a : HiveSave) (t : HiveTable) : HiveTable :=
  match t.get? (a.ns, ⟨a.key, none⟩) with
  | none => upsertMemory t (a.row ⟨a.key, none⟩ none now now)
  | some existing =>
    let tip := followLiveTip t existing
    match resolveConflict tip a with
    | .reject => t
    | .overwrite => upsertMemory t (a.row ⟨a.key, none⟩ none tip.createdAt now)
    | .supersedeVersion =>
      let newKey : HiveKey := ⟨a.key, some now⟩
      upsertMemory (t.set (tip.supersededAt now newKey)) (a.row newKey (some now) now now)

/-- The row `archive_entry` tombstones, if there is a live one. -/
def liveTip (t : HiveTable) (ns key : String) : Option HiveRow :=
  match t.get? (ns, ⟨key, none⟩) with
  | none => none
  | some row =>
    let tip := followLiveTip t row
    if tip.live then some tip else none

def HiveRow.archivedAt (tip : HiveRow) (now : Stamp) : HiveRow := { tip with invalidAt := some now }

/-- The rows after an archive at `now`. -/
def archiveMemory (now : Stamp) (ns key : String) (t : HiveTable) : HiveTable :=
  match liveTip t ns key with
  | none => t
  | some tip => t.set (tip.archivedAt now)

/-- `PostgresHiveBackend.save`. -/
def HiveStore.save (clock : Nat → Stamp) (a : HiveSave) (h : HiveStore) : HiveStore :=
  { h with
    memories := saveMemory (clock h.ticks) a h.memories
    ticks := h.ticks + 1 }

/-- `archive_entry`: whether a live row was archived, and the store after it. -/
def HiveStore.archiveEntry (clock : Nat → Stamp) (ns key : String) (h : HiveStore) :
    Bool × HiveStore :=
  ((liveTip h.memories ns key).isSome,
    { h with
      memories := archiveMemory (clock h.ticks) ns key h.memories
      ticks := h.ticks + 1 })

/-- The full-text index, as far as a search asks it. -/
structure SearchIndex where
  answers : String → HiveRow → Bool
  rank : String → HiveRow → ℚ

/-- `search`. -/
def HiveStore.search (index : SearchIndex) (query : String) (namespaces : List String)
    (minConfidence : ℚ) (limit : Nat) (h : HiveStore) : List HiveRow :=
  let hits := h.memories.values.filter fun row =>
    index.answers query row && minConfidence ≤ row.confidence &&
      (namespaces = [] || row.ns ∈ namespaces) && row.live
  (hits.mergeSort (fun a b => index.rank query b ≤ index.rank query a)).take limit

/-- `get_agent_groups`; without a project there are none. -/
def HiveStore.getAgentGroups (agentId projectId : String) (h : HiveStore) : List String :=
  if projectId = "" then []
  else
    ((h.members.filter (fun m => m.agentId = agentId ∧ m.projectId = projectId)).map
      GroupMember.groupName).mergeSort

/-- `agent_is_group_member`, whatever the project. -/
def HiveStore.agentIsGroupMember (groupName agentId : String) (h : HiveStore) : Bool :=
  h.members.any (fun m => m.groupName = groupName ∧ m.agentId = agentId)

end TappsBrain
