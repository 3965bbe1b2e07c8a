import TappsBrain.TenancyMigration

namespace TappsBrain
open Lib
set_option autoImplicit true
set_option relaxedAutoImplicit false

/-- What the transaction has done to one table. `whence` says under which identity the row now live
at an identity was stored when it began; the code does not keep it and no decision reads it. -/
structure ApplyState (ρ : Type) [TenantRow ρ] where
  live : TenantTable ρ
  archive : List ρ
  whence : Identity → Identity

/-- The answers of `_apply_one_rehome`. -/
inductive RehomeOutcome where
  | source | collision | existing | alreadyResolved
deriving DecidableEq, Repr

/-- One re-home as it was carried out: what it answered, the collision it resolved, and where the
row it found under the old identity came from. -/
structure RehomeLog where
  move : Rehome
  outcome : RehomeOutcome
  found : Option Identity
  resolved : Option CollisionRecord
deriving DecidableEq, Repr

structure ApplyTableResult where
  preApplyTotal : Nat
  reHomedCount : Nat
  archivedCount : Nat
  collisions : Nat
  remainingAfter : Nat
deriving DecidableEq, Repr

section Table
variable {ρ : Type} [TenantRow ρ]

/-- `_move_row`. -/
def moveRow (m : Rehome) (s : ApplyState ρ) : Except MigrationError (ApplyState ρ) :=
  match s.live.get? m.old with
  | none => .ok s
  | some row =>
    if (s.live.get? m.target).isSome ∧ m.target ≠ m.old then .error (.uniqueViolation m.target)
    else .ok
      { s with
        live := (s.live.pop m.old).set (TenantRow.rehomed m.targetProject m.targetAgent row)
        whence := Function.update s.whence m.target (s.whence m.old) }

/-- `_archive_and_delete_one`. -/
def archiveAndDeleteOne (id : Identity) (s : ApplyState ρ) : ApplyState ρ :=
  { s with archive := s.archive ++ (s.live.get? id).toList, live := s.live.pop id }

/-- `_apply_one_rehome`. -/
def applyOneRehome (x : DbSession) (m : Rehome) (s : ApplyState ρ) :
    Except MigrationError (RehomeLog × ApplyState ρ) :=
  let existingTs := fetchRowTimestamp x s.live m.target
  match fetchRowTimestamp x s.live m.old with
  | none => .ok (⟨m, .alreadyResolved, none, none⟩, s)
  | some sourceTs =>
    let found := some (s.whence m.old)
    match existingTs with
    | none => do
      let t ← moveRow m s
      .ok (⟨m, .source, found, none⟩, t)
    | some existingTs =>
      let record := collisionRecord m sourceTs existingTs
      match record.winner with
      | .source => do
        let t ← moveRow m (archiveAndDeleteOne m.target s)
        .ok (⟨m, .collision, found, some record⟩, t)
      | .existing => .ok (⟨m, .existing, found, some record⟩, s)

/-- The re-home loop of `_apply_table`. -/
def applyRehomes (x : DbSession) : List Rehome → ApplyState ρ →
    Except MigrationError (List RehomeLog × ApplyState ρ)
  | [], s => .ok ([], s)
  | m :: rest, s => do
    let (log, t) ← applyOneRehome x m s
    let (logs, u) ← applyRehomes x rest t
    .ok (log :: logs, u)

/-- `_bulk_delete_by_identity`. -/
def bulkDeleteByIdentity (groups : List PlanGroup) (s : ApplyState ρ) : ApplyState ρ :=
  { s with live := (identities groups).foldl Table.pop s.live }

/-- `_count_by_identity`. -/
def countByIdentity (groups : List PlanGroup) (s : ApplyState ρ) : Nat :=
  ((identities groups).map (fun id => if (s.live.get? id).isSome then 1 else 0)).sum

def RehomeLog.collided (l : RehomeLog) : Bool := l.outcome = .collision || l.outcome = .existing

def RehomeLog.moved (l : RehomeLog) : Bool := l.outcome = .collision || l.outcome = .source

def CollisionRecord.target (c : CollisionRecord) : Identity :=
  ⟨c.targetProject, c.targetAgent, c.rowId⟩

/-- The collisions the plan did not predict. -/
def unpredicted (plan : TablePlan) (logs : List RehomeLog) : List Identity :=
  ((logs.filter RehomeLog.collided).map (·.move.target)).filter
    (fun id => !(plan.collisions.map CollisionRecord.target).contains id)

/-- The table and the archive as the transaction starts: the population is copied. -/
def snapshotTable (t : TenantTable ρ) : ApplyState ρ where
  live := t
  archive := population t
  whence := id

/-- `CREATE TABLE`. -/
def createTable (names : List String) (name : String) : Except MigrationError Unit :=
  if names.contains name then .error (.duplicateTable name) else .ok ()

/-- `_apply_table` on a table that exists. -/
def applyTable (x : DbSession) (name : String) (plan : TablePlan) (names : List String)
    (archiveTable : String) (t : TenantTable ρ) :
    Except MigrationError (ApplyTableResult × List RehomeLog × ApplyState ρ) := do
  let preApplyTotal := livePredicateCount t
  if preApplyTotal ≠ plan.liveCount then throw (.stalePlan name plan.liveCount preApplyTotal)
  createTable names archiveTable
  let (logs, moved) ← applyRehomes x (rehomes plan.groups) (snapshotTable t)
  if unpredicted plan logs ≠ [] then throw (.unpredictedCollision name (unpredicted plan logs))
  let final := bulkDeleteByIdentity plan.groups moved
  let remainingAfter := countByIdentity plan.groups final
  if remainingAfter ≠ 0 then throw (.integrity name remainingAfter)
  if (population t).length ≠ preApplyTotal then throw (.integrity name (population t).length)
  pure (
    { preApplyTotal
      reHomedCount := logs.countP RehomeLog.moved
      archivedCount := (population t).length
      collisions := logs.countP RehomeLog.collided
      remainingAfter }, logs, final)

end Table

/-- `_validate_archive_table_name`. -/
def validArchiveTableName (name : String) : Bool :=
  let cs := withoutLastBreak name.toList
  match cs with
  | [] => false
  | c :: rest =>
    (97 ≤ c.toNat && c.toNat ≤ 122) && rest.all (fun d => isSlugHead d || d == '_') &&
      rest.length ≤ 62

def relationsArchiveTable (archiveTable : String) : String := archiveTable ++ "_relations"

/-- What `apply_plan` leaves in the two tables. A relations table that does not exist is left
alone. -/
structure ApplyResult where
  memories : ApplyTableResult × List RehomeLog × ApplyState MemoryRow
  relations : Option (ApplyTableResult × List RehomeLog × ApplyState RelationRow)

/-- The relations as the migration leaves them. -/
def ApplyResult.relationState (r : ApplyResult) : ApplyState RelationRow :=
  (r.relations.map (fun applied => applied.2.2)).getD (snapshotTable Table.empty)

def ApplyResult.relationLogs (r : ApplyResult) : List RehomeLog :=
  (r.relations.map (fun applied => applied.2.1)).getD []

/-- `_apply_table` for the relations. -/
def applyRelations (x : DbSession) (plan : TablePlan) (db : Database) (archiveTable : String) :
    Except MigrationError (Option (ApplyTableResult × List RehomeLog × ApplyState RelationRow)) :=
  match db.relations with
  | none =>
    if 0 ≠ plan.liveCount then .error (.stalePlan "private_relations" plan.liveCount 0)
    else .ok none
  | some t => do
    let applied ← applyTable x "private_relations" plan db.names
      (relationsArchiveTable archiveTable) t
    pure (some applied)

/-- `apply_plan`. -/
def applyPlan (x : DbSession) (db : Database) (plan : MigrationPlan) (archiveTable : String) :
    Except MigrationError ApplyResult := do
  if validArchiveTableName archiveTable = false then throw (.invalidArchiveTableName archiveTable)
  if validArchiveTableName (relationsArchiveTable archiveTable) = false then
    throw (.invalidArchiveTableName (relationsArchiveTable archiveTable))
  let memories ← applyTable x "private_memories" plan.memories db.names archiveTable db.memories
  let relations ← applyRelations x plan.relations db archiveTable
  pure { memories, relations }

end TappsBrain
