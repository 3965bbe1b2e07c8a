import TappsBrain.GraphStore

namespace TappsBrain
open Lib
set_option autoImplicit true
set_option relaxedAutoImplicit false

def asyncEvidenceRequiredMessage : String :=
  "upsert_edge: evidence_id is required when evidence_required=True. " ++
  "Call attach_evidence() first, then pass the returned ID here."

/-- What an `AsyncPostgresKnowledgeGraphStore` is built with: there is no strict mode. -/
structure AsyncGraphConfig where
  brainId : String
  evidenceRequired : Bool := true
deriving DecidableEq

namespace AsyncGraphStore

/-- `AsyncPostgresKnowledgeGraphStore.upsert_entity`. -/
def upsertEntity (w : GraphWorld) (k : AsyncGraphConfig) (a : EntityArgs) : Tx Nat :=
  transaction w (fun now =>
    upsertEntityRow w k.brainId now { a with aliases := a.aliases.map w.unicode.lower })

/-- The connection block of the async `upsert_edge`. -/
def upsertEdgeBlock (w : GraphWorld) (k : AsyncGraphConfig) (a : EdgeArgs) (now : Stamp) :
    Tx Nat := do
  match ← getActiveEdge k.brainId a.subject a.predicate a.object with
  | some existing => do
    let (newS, newD) ← computeFsrs w existing.stability existing.difficulty a.layer
      existing.lastReinforced existing.updatedAt true
    let _ ← reinforceEdgeRow k.brainId now (.uuid existing.id) newS newD
    pure existing.id
  | none => insertEdge w k.brainId now a (edgeConfidence a)

/-- `AsyncPostgresKnowledgeGraphStore.upsert_edge`. -/
def upsertEdge (w : GraphWorld) (k : AsyncGraphConfig) (a : EdgeArgs) : Tx Nat :=
  if k.evidenceRequired && a.evidenceId.isNone then
    Prog.raise (.valueError asyncEvidenceRequiredMessage)
  else transaction w (upsertEdgeBlock w k a)

/-- `AsyncPostgresKnowledgeGraphStore.attach_evidence`. -/
def attachEvidence (w : GraphWorld) (k : AsyncGraphConfig) (a : EvidenceArgs) : Tx Nat :=
  if a.edgeId.isNone = a.entityId.isNone then Prog.raise (.valueError attachmentMessage)
  else transaction w (fun _ => attachEvidenceRow w k.brainId a)

/-- `AsyncPostgresKnowledgeGraphStore.reinforce_edge`. -/
def reinforceEdge (w : GraphWorld) (k : AsyncGraphConfig) (id : IdText) (wasUseful : Bool) :
    Tx Bool :=
  transaction w (fun now => do
    match ← GraphStore.getEdgeForReinforce id with
    | none => pure false
    | some row => do
      let (newS, newD) ← computeFsrs w row.stability row.difficulty row.layer row.lastReinforced
        row.updatedAt wasUseful
      let updated ← reinforceEdgeRow k.brainId now id newS newD
      pure updated.isSome)

/-- `AsyncPostgresKnowledgeGraphStore.mark_edge_stale`. -/
def markEdgeStale (w : GraphWorld) (k : AsyncGraphConfig) (id : IdText) (reason : Option String) :
    Tx Bool :=
  transaction w (fun now => do
    let updated ← markEdgeStaleRow k.brainId now id reason
    pure updated.isSome)

/-- `AsyncPostgresKnowledgeGraphStore.supersede_edge`. -/
def supersedeEdge (w : GraphWorld) (k : AsyncGraphConfig) (old : IdText) (a : EdgeArgs) : Tx Nat := do
  let new ← upsertEdge w k (replacement a)
  let _ ← transaction w (fun now => supersedeEdgeRow k.brainId now new old)
  pure new

/-- `AsyncPostgresKnowledgeGraphStore.contradict_edge`. -/
def contradictEdge (w : GraphWorld) (k : AsyncGraphConfig) (id : IdText) (reason : String) :
    Tx Bool :=
  transaction w (fun now => do
    let updated ← contradictEdgeRow k.brainId now id reason
    pure updated.isSome)

end AsyncGraphStore
end TappsBrain
