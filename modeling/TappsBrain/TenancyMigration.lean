import Mathlib
import TappsBrain.Lib.Table
import TappsBrain.Entry

namespace TappsBrain
open Lib
set_option autoImplicit true
set_option relaxedAutoImplicit false

/-- The primary key of a tenant table: the tenant columns and the row id within the tenant. -/
structure Identity where
  project : String
  agent : String
  rowId : List String
deriving DecidableEq, Repr

/-- A row of `private_memories`: the columns the migration reads or writes, and the others as
`_row_to_entry` reads them. -/
structure MemoryRow where
  projectId : String
  agentId : String
  key : String
  createdAt : Stamp
  updatedAt : Stamp
  sourceAgent : String
  tags : List String
  others : MemoryEntry := { key := "", value := "-", createdAt := 0, updatedAt := 0, lastAccessed := 0 }
deriving DecidableEq, Repr

/-- A row of `private_relations`. -/
structure RelationRow where
  projectId : String
  agentId : String
  subject : String
  predicate : String
  objectEntity : String
  createdAt : Stamp
deriving DecidableEq, Repr

/-- What the two tables share: an identity, the column that decides collisions, and the `UPDATE` of
`_move_row`, which changes the tenant and nothing that decides. -/
class TenantRow (ρ : Type) where
  identity : ρ → Identity
  timestamp : ρ → Stamp
  rehomed : String → String → ρ → ρ
  identity_rehomed : ∀ project agent row,
    identity (rehomed project agent row) = ⟨project, agent, (identity row).rowId⟩
  timestamp_rehomed : ∀ project agent row, timestamp (rehomed project agent row) = timestamp row

instance : TenantRow MemoryRow where
  identity row := ⟨row.projectId, row.agentId, [row.key]⟩
  timestamp := MemoryRow.updatedAt
  rehomed project agent row :=
    { row with
      projectId := project
      agentId := agent
      tags := row.tags ++ [s!"migrated_from:{row.projectId}/{row.agentId}"] }
  identity_rehomed _ _ _ := rfl
  timestamp_rehomed _ _ _ := rfl

instance : TenantRow RelationRow where
  identity row := ⟨row.projectId, row.agentId, [row.subject, row.predicate, row.objectEntity]⟩
  timestamp := RelationRow.createdAt
  rehomed project agent row := { row with projectId := project, agentId := agent }
  identity_rehomed _ _ _ := rfl
  timestamp_rehomed _ _ _ := rfl

abbrev TenantTable (ρ : Type) [TenantRow ρ] := Table (@TenantRow.identity ρ _)

structure AuditLogRow where
  projectId : String
  agentId : String
  eventType : String
  key : String
  timestamp : Stamp

structure Database where
  memories : TenantTable MemoryRow
  /-- Created on first use only. -/
  relations : Option (TenantTable RelationRow)
  auditLog : List AuditLogRow
  /-- `project_profiles`: a project and whether it is approved. -/
  profiles : List (String × Bool)
  /-- The table names in use. -/
  names : List String

/-- What depends on the session: how it renders a timestamp, in its time zone and with the offset,
and how it orders text. -/
structure DbSession where
  iso : Stamp → String
  collate : String → String → Bool
  iso_injective : Function.Injective iso

def S3_PROJECT_IDS : List String := ["default", "api", "main", "repo-brain"]

def S3_AGENT_IDS : List String := ["unknown", "default"]

def isHex (c : Char) : Bool :=
  (48 ≤ c.toNat && c.toNat ≤ 57) || (97 ≤ c.toNat && c.toNat ≤ 102)

/-- `_HEX_TENANT_RE` as the database matches it. -/
def hexTenant (project : String) : Bool := 8 ≤ project.length && project.toList.all isHex

/-- `_MEMORIES_PREDICATE_SQL`. -/
def s3Predicate (id : Identity) : Bool :=
  (S3_PROJECT_IDS.contains id.project || S3_AGENT_IDS.contains id.agent) && !hexTenant id.project

/-- Python's `$` also matches before a last line feed. -/
def withoutLastBreak (cs : List Char) : List Char :=
  if cs.getLast? = some '\n' then cs.dropLast else cs

/-- `_INGEST_KEY_RE`. The digits hold no hyphen, so they are what follows the last one. -/
def ingestKey (key : String) : Bool :=
  let cs := withoutLastBreak key.toList
  let middle := cs.drop 4
  let digits := (middle.reverse.takeWhile (· ≠ '-')).reverse
  let slug := (middle.reverse.dropWhile (· ≠ '-')).tail.reverse
  cs.take 4 = "mem-".toList && 6 ≤ digits.length && digits.length < middle.length &&
    digits.all isHex && slug.all (fun c => isSlugHead c || c == '-') &&
    slug.head?.any isSlugHead && slug.getLast?.any isSlugHead

inductive MigrationRule where
  | R1 | R2 | R3 | R4 | R5
deriving DecidableEq, Repr

/-- The action of a classification, with its target. -/
inductive MigrationAction where
  | reHome (project agent : String)
  | archive
deriving DecidableEq, Repr

structure Classification where
  rule : MigrationRule
  action : MigrationAction
deriving DecidableEq, Repr

/-- What the rules of `build_plan` read beside the row. -/
structure RuleInputs where
  approvedProjects : List String
  /-- The earliest `save` or `remember` event of a key. -/
  auditEarliest : String → Option AuditLogRow
  agentProjectMap : Option (List (String × String)) := none
  ingestWindow : Option (String × String) := none

def approved (c : RuleInputs) (project : String) : Option String :=
  if c.approvedProjects.contains project then some project else none

def classifyR1AuditLog (c : RuleInputs) (key : String) : Option String :=
  (c.auditEarliest key).bind (fun event => approved c event.projectId)

def classifyR2SourceAgent (c : RuleInputs) (sourceAgent : String) : Option String :=
  (c.agentProjectMap.bind (·.lookup sourceAgent)).bind (approved c)

def classifyR3IngestWindow (x : DbSession) (c : RuleInputs) (row : MemoryRow) : Bool :=
  match c.ingestWindow with
  | none => false
  | some (first, last) =>
    row.projectId = "nlt-ideas-scout" && row.sourceAgent = "unknown" && ingestKey row.key &&
      first ≤ x.iso row.createdAt && x.iso row.createdAt ≤ last

def classifyR4LegacyUnattributed (id : Identity) : Bool :=
  !S3_PROJECT_IDS.contains id.project && S3_AGENT_IDS.contains id.agent

def resolveTargetAgent (c : RuleInputs) (agentId key : String) (isIngestMatch : Bool) : String :=
  if !S3_AGENT_IDS.contains agentId then agentId
  else
    match (c.auditEarliest key).filter (fun event => !S3_AGENT_IDS.contains event.agentId) with
    | some event => event.agentId
    | none => if isIngestMatch then "ingest" else "legacy-unattributed"

/-- R4 and R5, the rules of both tables. -/
def classifyRest (id : Identity) : Classification :=
  if classifyR4LegacyUnattributed id then ⟨.R4, .reHome id.project "legacy-unattributed"⟩
  else ⟨.R5, .archive⟩

def classifyMemoryRow (x : DbSession) (c : RuleInputs) (row : MemoryRow) : Classification :=
  let isIngestMatch := classifyR3IngestWindow x c row
  let agent := resolveTargetAgent c row.agentId row.key isIngestMatch
  match classifyR1AuditLog c row.key with
  | some project => ⟨.R1, .reHome project agent⟩
  | none =>
    if row.projectId = "default" then classifyRest (TenantRow.identity row)
    else
      match classifyR2SourceAgent c row.sourceAgent with
      | some project => ⟨.R2, .reHome project agent⟩
      | none =>
        if isIngestMatch then ⟨.R3, .reHome row.projectId "ingest"⟩
        else classifyRest (TenantRow.identity row)

def classifyRelationRow (row : RelationRow) : Classification :=
  classifyRest (TenantRow.identity row)

/-- One (old tenant, rule, outcome) bucket of a table's plan. -/
structure PlanGroup where
  oldProject : String
  oldAgent : String
  classification : Classification
  rowIds : List (List String)
deriving DecidableEq, Repr

inductive CollisionWinner where
  | source | existing
deriving DecidableEq, Repr

/-- A predicted or resolved collision of primary keys. -/
structure CollisionRecord where
  oldProject : String
  oldAgent : String
  targetProject : String
  targetAgent : String
  rowId : List String
  sourceTimestamp : String
  existingTimestamp : String
  winner : CollisionWinner
deriving DecidableEq, Repr

structure TablePlan where
  liveCount : Nat
  groups : List PlanGroup
  collisions : List CollisionRecord
  totalReHome : Nat
  totalArchive : Nat

structure MigrationPlan where
  memories : TablePlan
  relations : TablePlan

inductive MigrationError where
  | emptyEnumeration
  | rowsChanged (table : String)
  | selfCollision (table : String) (group : PlanGroup)
  | stalePlan (table : String) (planned live : Nat)
  | unpredictedCollision (table : String) (targets : List Identity)
  | integrity (table : String) (remaining : Nat)
  | invalidArchiveTableName (name : String)
  | duplicateTable (name : String)
  | uniqueViolation (id : Identity)

/-- One row of a re-home group. -/
structure Rehome where
  oldProject : String
  oldAgent : String
  targetProject : String
  targetAgent : String
  rowId : List String
deriving DecidableEq, Repr

def Rehome.old (m : Rehome) : Identity := ⟨m.oldProject, m.oldAgent, m.rowId⟩

def Rehome.target (m : Rehome) : Identity := ⟨m.targetProject, m.targetAgent, m.rowId⟩

def PlanGroup.count (g : PlanGroup) : Nat := g.rowIds.length

/-- The rows of a group by the identity they had. -/
def PlanGroup.identities (g : PlanGroup) : List Identity :=
  g.rowIds.map (fun rowId => ⟨g.oldProject, g.oldAgent, rowId⟩)

/-- What the loops over the groups visit: the rows of re-home groups, in plan order. -/
def PlanGroup.rehomes (g : PlanGroup) : List Rehome :=
  match g.classification.action with
  | .archive => []
  | .reHome project agent =>
    g.rowIds.map (fun rowId => ⟨g.oldProject, g.oldAgent, project, agent, rowId⟩)

def rehomes (groups : List PlanGroup) : List Rehome := groups.flatMap PlanGroup.rehomes

def identities (groups : List PlanGroup) : List Identity := groups.flatMap PlanGroup.identities

section Table
variable {ρ : Type} [TenantRow ρ]

/-- `ORDER BY` over text columns. -/
def columnsBefore (x : DbSession) : List String → List String → Bool
  | a :: as, b :: bs => if a = b then columnsBefore x as bs else x.collate a b
  | _, _ => true

def rowBefore (x : DbSession) (a b : ρ) : Bool :=
  let columns (row : ρ) :=
    let id := TenantRow.identity row
    id.project :: id.agent :: id.rowId
  columnsBefore x (columns a) (columns b)

def population (t : TenantTable ρ) : List ρ :=
  t.values.filter (fun row => s3Predicate (TenantRow.identity row))

/-- `enumerate_memory_rows` and `enumerate_relation_rows`. -/
def enumerateRows (x : DbSession) (t : TenantTable ρ) : List ρ :=
  (population t).insertionSort (fun a b => rowBefore x a b = true)

/-- `live_predicate_count`. -/
def livePredicateCount (t : TenantTable ρ) : Nat := (population t).length

/-- A row joins the group of its bucket, or opens one behind the others. -/
def joinGroup (id : Identity) (c : Classification) : List PlanGroup → List PlanGroup
  | [] => [⟨id.project, id.agent, c, [id.rowId]⟩]
  | g :: rest =>
    if g.oldProject = id.project ∧ g.oldAgent = id.agent ∧ g.classification = c then
      { g with rowIds := g.rowIds ++ [id.rowId] } :: rest
    else g :: joinGroup id c rest

def planGroups (classified : List (ρ × Classification)) : List PlanGroup :=
  classified.foldl (fun groups rc => joinGroup (TenantRow.identity rc.1) rc.2 groups) []

/-- A re-home group that targets the tenant its rows come from. -/
def targetsItself (g : PlanGroup) : Bool :=
  match g.classification.action with
  | .archive => false
  | .reHome project agent => project = g.oldProject && agent = g.oldAgent

/-- `_fetch_row_timestamp`. -/
def fetchRowTimestamp (x : DbSession) (t : TenantTable ρ) (id : Identity) : Option String :=
  (t.get? id).map (fun row => x.iso (TenantRow.timestamp row))

def winnerOf (sourceTs existingTs : String) : CollisionWinner :=
  if existingTs ≤ sourceTs then .source else .existing

def collisionRecord (m : Rehome) (sourceTs existingTs : String) : CollisionRecord where
  oldProject := m.oldProject
  oldAgent := m.oldAgent
  targetProject := m.targetProject
  targetAgent := m.targetAgent
  rowId := m.rowId
  sourceTimestamp := sourceTs
  existingTimestamp := existingTs
  winner := winnerOf sourceTs existingTs

/-- `_detect_collisions`, with the timestamps that hold the targets reached so far. -/
def detectCollisions (x : DbSession) (t : TenantTable ρ) (holders : Identity → Option String) :
    List Rehome → List CollisionRecord
  | [] => []
  | m :: rest =>
    let sourceTs := (fetchRowTimestamp x t m.old).getD ""
    match (holders m.target).or (fetchRowTimestamp x t m.target) with
    | none => detectCollisions x t (Function.update holders m.target (some sourceTs)) rest
    | some existing =>
      let held := match winnerOf sourceTs existing with
        | .source => sourceTs
        | .existing => existing
      collisionRecord m sourceTs existing ::
        detectCollisions x t (Function.update holders m.target (some held)) rest

/-- `_build_table_plan`. -/
def buildTablePlan (x : DbSession) (name : String) (t : TenantTable ρ)
    (classified : List (ρ × Classification)) : Except MigrationError TablePlan :=
  let groups := planGroups classified
  match groups.find? targetsItself with
  | some g => .error (.selfCollision name g)
  | none => .ok
    { liveCount := livePredicateCount t
      groups := groups
      collisions := detectCollisions x t (fun _ => none) (rehomes groups)
      totalReHome := ((groups.filter (·.classification.action ≠ .archive)).map PlanGroup.count).sum
      totalArchive := ((groups.filter (·.classification.action = .archive)).map PlanGroup.count).sum }

end Table

/-- `_load_audit_earliest`: the first of the earliest events of a key. -/
def loadAuditEarliest (log : List AuditLogRow) (key : String) : Option AuditLogRow :=
  let events := log.filter
    (fun event => event.key = key && ["save", "remember"].contains event.eventType)
  events.foldl (fun best event =>
    match best with
    | none => some event
    | some first => if event.timestamp < first.timestamp then some event else some first) none

/-- `load_approved_projects`. -/
def loadApprovedProjects (profiles : List (String × Bool)) : List String :=
  (profiles.filter Prod.snd).map Prod.fst

/-- A relations table that does not exist reads as an empty one. -/
def Database.relationRows (db : Database) : TenantTable RelationRow :=
  db.relations.getD Table.empty

def ruleInputs (db : Database) (agentProjectMap : Option (List (String × String)))
    (ingestWindow : Option (String × String)) : RuleInputs where
  approvedProjects := loadApprovedProjects db.profiles
  auditEarliest := loadAuditEarliest db.auditLog
  agentProjectMap := agentProjectMap
  ingestWindow := ingestWindow

/-- `build_plan`. -/
def buildPlan (x : DbSession) (db : Database) (agentProjectMap : Option (List (String × String)))
    (ingestWindow : Option (String × String)) : Except MigrationError MigrationPlan := do
  let inputs := ruleInputs db agentProjectMap ingestWindow
  let memoryRows := enumerateRows x db.memories
  let relationRows := enumerateRows x db.relationRows
  if memoryRows = [] ∧ relationRows = [] then throw .emptyEnumeration
  if livePredicateCount db.memories ≠ memoryRows.length then throw (.rowsChanged "private_memories")
  if livePredicateCount db.relationRows ≠ relationRows.length then
    throw (.rowsChanged "private_relations")
  let memories ← buildTablePlan x "private_memories" db.memories
    (memoryRows.map (fun row => (row, classifyMemoryRow x inputs row)))
  let relations ← buildTablePlan x "private_relations" db.relationRows
    (relationRows.map (fun row => (row, classifyRelationRow row)))
  pure { memories, relations }

end TappsBrain
