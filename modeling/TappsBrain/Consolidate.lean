import TappsBrain.Save

namespace TappsBrain
open Lib
set_option autoImplicit true
set_option relaxedAutoImplicit false

/-- `get_relations`. -/
def getRelations (w : World) (key : String) : StoreM (List RelationEntry) := do
  match ← Prog.read (fun s : Store => s.relations.get? key) with
  | some b => pure b.rels
  | none => do
    let loaded ← loadRelationRows w key
    setBucket key loaded
    pure loaded

/-- The public `save_relations`. -/
def saveRelations (w : World) (key : String) (rels : List RelationEntry) : StoreM Unit := do
  saveRelationRows w key rels
  let loaded ← loadRelationRows w key
  setBucket key loaded

def loweredTriple (u : Unicode) (r : RelationEntry) : String × String × String :=
  (u.lower r.subject, u.lower r.predicate, u.lower r.objectEntity)

/-- Absorb one row into the triples seen so far. -/
def absorbRelation (u : Unicode) (target : String) (r : RelationEntry) :
    List RelationEntry → List RelationEntry
  | [] => [{ r with sourceEntryKeys := (r.sourceEntryKeys ++ [target]).eraseDups }]
  | seen :: rest =>
    if loweredTriple u seen = loweredTriple u r then
      { seen with
        sourceEntryKeys := (seen.sourceEntryKeys ++ r.sourceEntryKeys ++ [target]).eraseDups
        confidence := max seen.confidence r.confidence } :: rest
    else seen :: absorbRelation u target r rest

/-- `merge_entry_relations`. -/
def mergeEntryRelations (u : Unicode) (lists : List (List RelationEntry)) (target : String) :
    List RelationEntry :=
  lists.flatten.foldl (fun seen r => absorbRelation u target r seen) []

/-- `max(..., key=...)`: the first of the greatest. -/
def latestBy (stamp : MemoryEntry → Stamp) : List MemoryEntry → Option MemoryEntry
  | [] => none
  | e :: rest =>
    match latestBy stamp rest with
    | none => some e
    | some m => if stamp e < stamp m then some m else some e

/-- `_resolve_consolidated_promotion_state`: the resolved status, the promotion columns to write
(if any), and whether provenance was lost. -/
def resolveConsolidatedPromotionState (sources : List MemoryEntry) :
    LearningStatus × Option (Promotion → Promotion) × Bool :=
  let approved := sources.filter (fun e => e.promotion.learningStatus = .approved)
  let demoted := sources.filter (fun e => e.promotion.learningStatus = .demoted)
  match latestBy (fun e => e.promotion.promotedAt.getD 0) approved with
  | some winner =>
    (.approved,
      some (fun _ => { winner.promotion with learningStatus := .approved, demotionReason := none }),
      approved.any (fun e => e.promotion.promotedBy ≠ winner.promotion.promotedBy ||
        e.promotion.promotionSignal ≠ winner.promotion.promotionSignal))
  | none =>
    match latestBy MemoryEntry.updatedAt demoted with
    | some winner =>
      (.demoted,
        some (fun p => { p with
          learningStatus := .demoted, demotionReason := winner.promotion.demotionReason }),
        demoted.any (fun e => e.promotion.demotionReason ≠ winner.promotion.demotionReason))
    | none => (.candidate, none, false)

/-- Write promotion columns only. -/
def promotionPatch (f : Promotion → Promotion) : FieldPatch where
  set := fun e => { e with promotion := f e.promotion }
  set_key := fun _ => rfl

/-- The arguments `_persist_consolidated_entry` saves the merged row with. -/
def ConsolidatedEntry.saveArgs (m : ConsolidatedEntry) : SaveArgs :=
  { key := m.key, value := m.value, tier := m.tier, source := m.source.text
    sourceAgent := m.sourceAgent, scope := m.scope, tags := some m.tags, confidence := m.confidence
    memoryGroup := some m.memoryGroup, skipConsolidation := true, dedup := false
    conflictCheck := false }

def consolidatedInto (key : String) : String := s!"consolidated into {key}"

/-- Close one source of a merge, unless it changed since the snapshot. -/
def closeSource (w : World) (mergedKey : String) (snap : MemoryEntry) : StoreM Unit := do
  if snap.key = mergedKey then pure ()
  else do
    match ← ensureEntryCached w snap.key with
    | none => Prog.raise (.runtimeError s!"source '{snap.key}' missing from store")
    | some current =>
      if current.value ≠ snap.value then
        Prog.raise (.runtimeError s!"source '{snap.key}' content changed concurrently")
      else do
        match ← closeValidity w snap.key "consolidation" (some mergedKey)
            (some (consolidatedInto mergedKey)) with
        | none => Prog.raise (.keyError snap.key)
        | some _ => pure ()

/-- The columns a merged source gets back. -/
def reopenPatch (updatedAt : Option Stamp) : FieldPatch where
  set := fun e => { e with
    contradicted := false, contradictionReason := none, invalidAt := none, supersededBy := none
    status := .active }
  set_key := fun _ => rfl
  updatedAt := updatedAt

def detached (key : String) (r : RelationEntry) : RelationEntry :=
  { r with sourceEntryKeys := r.sourceEntryKeys.filter (· ≠ key) }

/-- `_strip_key_from_relations`. -/
def stripKeyFromRelations (w : World) (key : String) : StoreM Unit := do
  let rows ← loadRelationRows w key
  let survivors := (rows.map (detached key)).filter (fun r => r.sourceEntryKeys ≠ [])
  deleteRelationRows w key
  Prog.forEach (fun r => saveRelationRows w (r.sourceEntryKeys.headD "") [r]) survivors

/-- The rollback of `_persist_consolidated_entry` once the merged row was saved. -/
def rollbackMerge (w : World) (mergedKey : String) (sourceKeys : List String) : StoreM Unit :=
  Prog.swallow (do
    Prog.forEach
      (fun key =>
        if key = mergedKey then pure ()
        else Prog.swallow (do
          let _ ← updateFields w key (reopenPatch none)
          pure ()))
      sourceKeys
    stripKeyFromRelations w mergedKey
    let _ ← delete w mergedKey
    pure ())

/-- `_append_consolidation_audit`. -/
def appendConsolidationAudit (w : World) (plan : MergePlan) : StoreM Unit := do
  let key := plan.consolidated.key
  let sourceKeys := plan.sources.map (·.key)
  appendAudit w key (.consolidationMerge sourceKeys plan.trigger plan.threshold)
  Prog.forEach
    (fun sk =>
      if sk = key then pure ()
      else appendAudit w sk (.consolidationSource key plan.trigger plan.threshold))
    sourceKeys

/-- What `_persist_consolidated_entry` does once the merged row exists. -/
def linkSources (w : World) (plan : MergePlan) : StoreM Unit := do
  let key := plan.consolidated.key
  let (resolved, fields, lost) := resolveConsolidatedPromotionState plan.sources
  match fields with
  | none => pure ()
  | some f => do
    let _ ← updateFields w key (promotionPatch f)
    pure ()
  if lost then
    appendAudit w key (.promotionStatePartialLoss (plan.sources.map (·.key)) resolved)
  else pure ()
  let lists ← Prog.mapEach (getRelations w) (plan.sources.map (·.key))
  let merged := mergeEntryRelations w.unicode lists key
  if merged = [] then pure () else saveRelations w key merged
  Prog.forEach (closeSource w key) plan.sources
  appendConsolidationAudit w plan

/-- `_persist_consolidated_entry`. -/
def persistConsolidatedEntry (w : World) (plan : MergePlan) : StoreM Unit := do
  let key := plan.consolidated.key
  if !plan.keepsContent then Prog.raise (.runtimeError s!"merge {key} would lose content")
  else do
    match ← saveWith w (fun _ => pure ()) plan.consolidated.saveArgs with
    | .dict _ => Prog.raise (.runtimeError s!"consolidated entry save did not create '{key}'")
    | .entry e =>
      if e.key ≠ key then
        Prog.raise (.runtimeError s!"consolidated entry save did not create '{key}'")
      else Prog.rollback (linkSources w plan) (rollbackMerge w key (plan.sources.map (·.key)))

/-- `check_consolidation_on_save`. -/
def checkConsolidationOnSave (w : World) (entry : MemoryEntry) : StoreM Unit := do
  mergeDurableEntries w false
  let entries ← snapshot
  match w.planMerge entry (entries.filter (fun e => e.key ≠ entry.key)) with
  | none => pure ()
  | some plan => persistConsolidatedEntry w plan

/-- `_maybe_consolidate`, best effort and not reentrant. -/
def maybeConsolidate (w : World) (entry : MemoryEntry) : StoreM Unit := do
  Prog.modify (fun s => { s with consolidationInProgress := true })
  Prog.swallow (checkConsolidationOnSave w entry)
  Prog.modify (fun s => { s with consolidationInProgress := false })

/-- `save`. -/
def save (w : World) (a : SaveArgs) : StoreM SaveResult := saveWith w (maybeConsolidate w) a

/-- The entries a periodic scan groups. -/
def scanned (e : MemoryEntry) : Bool :=
  !e.contradicted && e.supersededBy.isNone && e.status ≠ .stale && e.status ≠ .superseded &&
    e.status ≠ .archived

/-- `run_periodic_consolidation_scan` once it is due; `group` is the similarity search, and a group
that fails is logged only. -/
def runPeriodicConsolidationScan (w : World) (group : List MemoryEntry → List MergePlan) :
    StoreM Unit := do
  mergeDurableEntries w false
  let entries ← snapshot
  Prog.forEach (fun plan => Prog.swallow (persistConsolidatedEntry w plan))
    (group (entries.filter scanned))

/-- The last `consolidation_merge` audit row of a key. -/
def findLastConsolidationMergeAudit (key : String) (audit : List AuditRow) :
    Option (List String × String × ℚ) :=
  audit.reverse.findSome? (fun row =>
    match row.event with
    | .consolidationMerge sourceKeys trigger threshold =>
      if row.key = key then some (sourceKeys, trigger, threshold) else none
    | _ => none)

inductive ConsolidationUndo where
  | ok
  | noConsolidationMergeAudit
  | invalidAuditSourceKeys
  | consolidatedEntryMissing
  | sourceEntryMissing (key : String)
  | sourceNotContradicted (key : String)
  | sourceSupersededByMismatch (key : String)
  | sourceContradictionReasonMismatch (key : String)
deriving DecidableEq, Repr

def MIN_CONSOLIDATION_ENTRIES : Nat := 2

/-- The checks of `undo_consolidation_merge` on one source. -/
def undoSourceError (consolidatedKey : String) (e : MemoryEntry) : Option ConsolidationUndo :=
  if !e.contradicted then some (.sourceNotContradicted e.key)
  else if e.supersededBy ≠ some consolidatedKey then some (.sourceSupersededByMismatch e.key)
  else if e.contradictionReason ≠ some (consolidatedInto consolidatedKey) then
    some (.sourceContradictionReasonMismatch e.key)
  else none

/-- Hydrate and check every source, stamping each restored row with its own clock reading. -/
def collectSources (w : World) (consolidatedKey : String) :
    List String → StoreM (Except ConsolidationUndo (List (MemoryEntry × MemoryEntry)))
  | [] => pure (.ok [])
  | key :: rest => do
    match ← getEntry key with
    | none => pure (.error (.sourceEntryMissing key))
    | some e =>
      match undoSourceError consolidatedKey e with
      | some why => pure (.error why)
      | none => do
        let now ← utcNow w
        match ← collectSources w consolidatedKey rest with
        | .error why => pure (.error why)
        | .ok pairs => pure (.ok ((e, (reopenPatch (some now)).apply now e) :: pairs))

/-- Hydrate every source of a merge; the first that is missing. -/
def missingSource (w : World) : List String → StoreM (Option String)
  | [] => pure none
  | key :: rest => do
    match ← ensureEntryCached w key with
    | none => pure (some key)
    | some _ => missingSource w rest

/-- The durable half of `undo_consolidation_merge`. -/
def persistUndo (w : World) (consolidatedKey : String) (restored : List MemoryEntry) :
    StoreM Unit := do
  Prog.forEach (saveRow w) restored
  let present ← Prog.read (fun s : Store => s.rows.contains consolidatedKey)
  deleteRow w consolidatedKey
  if present then Prog.swallow (stripKeyFromRelations w consolidatedKey)
  else Prog.raise (.runtimeError "consolidated_row_delete_failed")

/-- The rollback of `undo_consolidation_merge`. -/
def rollbackUndo (w : World) (consolidated : MemoryEntry) (sources : List MemoryEntry) :
    StoreM Unit := do
  setEntry consolidated
  Prog.forEach setEntry sources
  Prog.swallow (Prog.forEach (saveRow w) sources)

/-- `undo_consolidation_merge`. -/
def undoConsolidationMerge (w : World) (consolidatedKey : String) : StoreM ConsolidationUndo := do
  match ← Prog.read (fun s : Store => findLastConsolidationMergeAudit consolidatedKey s.audit) with
  | none => pure .noConsolidationMergeAudit
  | some (sourceKeys, trigger, threshold) =>
    if sourceKeys.length < MIN_CONSOLIDATION_ENTRIES then pure .invalidAuditSourceKeys
    else do
      match ← ensureEntryCached w consolidatedKey with
      | none => pure .consolidatedEntryMissing
      | some consolidated => do
        match ← missingSource w sourceKeys with
        | some key => pure (.sourceEntryMissing key)
        | none => do
          match ← collectSources w consolidatedKey sourceKeys with
          | .error why => pure why
          | .ok pairs => do
            popEntry consolidatedKey
            Prog.forEach setEntry (pairs.map (·.2))
            Prog.rollback (persistUndo w consolidatedKey (pairs.map (·.2)))
              (rollbackUndo w consolidated (pairs.map (·.1)))
            popBucket consolidatedKey
            Prog.forEach
              (fun key => do
                let loaded ← loadRelationRows w key
                setBucket key loaded)
              sourceKeys
            appendAudit w consolidatedKey (.consolidationMergeUndo sourceKeys trigger threshold)
            pure .ok

end TappsBrain
