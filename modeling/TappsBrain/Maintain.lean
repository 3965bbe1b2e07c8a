import TappsBrain.Consolidate

namespace TappsBrain
open Lib
set_option autoImplicit true
set_option relaxedAutoImplicit false

/-- The keyword arguments of `supersede`, and the fields of one `save_many` item; `none` is an
argument that was not given. -/
structure SaveKwargs where
  key : Option String := none
  tier : Option String := none
  source : Option String := none
  sourceAgent : Option String := none
  scope : Option String := none
  tags : Option (Option (List String)) := none
  branch : Option (Option String) := none
  missionId : Option String := none
  runId : Option String := none
  confidence : Option ℚ := none
  agentScope : Option String := none
  provenance : Option Provenance := none
  memoryGroup : Option (Option String) := none
  temporalSensitivity : Option TemporalSensitivity := none
  failedApproaches : Option (List String) := none
  status : Option String := none
  staleReason : Option String := none
  staleDate : Option IsoText := none
  supersededBy : Option String := none
  validAt : Option IsoText := none
  skipConsolidation : Option Bool := none
  dedup : Option Bool := none
  conflictCheck : Option Bool := none
deriving DecidableEq, Repr

/-- The arguments `supersede` saves the new row with: those of the old row, then the caller's. -/
def supersedeArgs (old : MemoryEntry) (newKey newValue : String) (kw : SaveKwargs) : SaveArgs :=
  { key := newKey
    value := newValue
    tier := kw.tier.getD old.tier.text
    source := kw.source.getD old.source.text
    sourceAgent := kw.sourceAgent.getD old.sourceAgent
    scope := kw.scope.getD old.scope.text
    tags := kw.tags.getD (some old.tags)
    branch := kw.branch.getD old.branch
    missionId := kw.missionId
    runId := kw.runId
    confidence := kw.confidence.getD old.confidence
    agentScope := kw.agentScope.getD "private"
    provenance := kw.provenance.getD {}
    memoryGroup := kw.memoryGroup
    temporalSensitivity := kw.temporalSensitivity
    failedApproaches := kw.failedApproaches
    status := kw.status
    staleReason := kw.staleReason
    staleDate := kw.staleDate
    supersededBy := kw.supersededBy
    validAt := kw.validAt
    skipConsolidation := kw.skipConsolidation.getD false
    dedup := kw.dedup.getD false
    conflictCheck := kw.conflictCheck.getD false }

/-- `_version_count`. -/
def versionCount (key : String) (entries : List MemoryEntry) : Nat :=
  (entries.filter (fun e => e.key = key || (s!"{key}.v").toList.isPrefixOf e.key.toList)).length

/-- The key `supersede` gives the new row. -/
def supersedingKey (oldKey : String) (kw : SaveKwargs) (entries : List MemoryEntry) : String :=
  kw.key.getD s!"{oldKey}.v{versionCount oldKey entries + 1}"

/-- The closed form `supersede` gives the old row. -/
def supersededRow (now : Stamp) (newKey : String) (old : MemoryEntry) : MemoryEntry :=
  closeWith "supersession" .superseded now (some newKey) none old

/-- The rollback of `supersede`, whose durable half may fail silently. -/
def reopenOld (w : World) (old : MemoryEntry) : StoreM Unit := do
  setEntry old
  Prog.swallow (saveRow w old)

/-- The last part of `supersede`: move the relations of the old row to the new one. -/
def transferRelations (w : World) (oldKey newKey : String) : StoreM Unit := do
  let oldRelations ← getRelations w oldKey
  if oldRelations = [] then pure ()
  else do
    saveRelationRows w newKey (oldRelations.map (fun r => { r with sourceEntryKeys := [newKey] }))
    let loaded ← loadRelationRows w newKey
    setBucket newKey loaded
    Prog.swallow (deleteRelationRows w oldKey)
    popBucket oldKey

/-- The new row once `supersede` has stamped its opening bound. -/
def opened (now : Stamp) (e : MemoryEntry) : MemoryEntry := { e with validAt := some (.at now) }

/-- What `supersede` does with the row its inner save returned. -/
def finishSupersede (w : World) (now : Stamp) (oldKey : String) (e : MemoryEntry) :
    StoreM MemoryEntry := do
  appendAudit w oldKey (.closeValidity "supersession" .superseded now (some e.key) (some "supersede"))
  setEntry (opened now e)
  persistOrRestore w (opened now e) e
  dropIfConcurrentlyRemoved w e.key
  transferRelations w oldKey e.key
  pure (opened now e)

/-- `supersede` once the old row is closed. -/
def writeSuperseding (w : World) (now : Stamp) (old : MemoryEntry) (a : SaveArgs) :
    StoreM MemoryEntry := do
  match ← Prog.rollback (save w a) (reopenOld w old) with
  | .entry e =>
    if e.key ≠ a.key then do
      reopenOld w old
      Prog.raise (.valueError (s!"supersede: save() returned entry '{e.key}' instead of " ++
        s!"'{a.key}' (redirected write); superseding aborted"))
    else finishSupersede w now old.key e
  | .dict d => do
    reopenOld w old
    let message := match d with
      | .error _ message => message
      | _ => ""
    Prog.raise (.valueError s!"Failed to create superseding entry: {message}")

/-- What the closing of the old row hands to the rest of `supersede`. -/
structure ClosedOld where
  now : Stamp
  old : MemoryEntry
  newKey : String

/-- The part of `supersede` that closes the old row. -/
def closeOld (w : World) (oldKey : String) (kw : SaveKwargs) : StoreM ClosedOld := do
  let now ← utcNow w
  match ← ensureEntryCached w oldKey with
  | none => Prog.raise (.keyError oldKey)
  | some old =>
    if old.invalidAt.isSome then
      Prog.raise (.valueError s!"Entry '{oldKey}' is already superseded.")
    else do
      let entries ← snapshot
      let newKey := supersedingKey oldKey kw entries
      rewriteEntry w old (supersededRow now newKey old)
      pure { now, old, newKey }

/-- `supersede`. -/
def supersede (w : World) (oldKey newValue : String) (kw : SaveKwargs) : StoreM MemoryEntry := do
  let c ← closeOld w oldKey kw
  writeSuperseding w c.now c.old (supersedeArgs c.old c.newKey newValue kw)

inductive TagsOutcome where
  | updated (e : MemoryEntry)
  | error (code message : String)
deriving DecidableEq, Repr

/-- `update_tags`. -/
def updateTags (w : World) (key : String) (add remove : List String) : StoreM TagsOutcome := do
  match ← ensureEntryCached w key with
  | none => pure (.error "not_found" s!"Entry '{key}' not found.")
  | some e => do
    let kept := e.tags.filter (fun t => !remove.contains t)
    let tags := kept ++ add.eraseDups.filter (fun t => !kept.contains t)
    if MAX_TAGS < tags.length then
      pure (.error "too_many_tags"
        s!"Cannot have more than {MAX_TAGS} tags ({tags.length} would result).")
    else do
      let now ← utcNow w
      rewriteEntry w e { e with tags := tags, updatedAt := now }
      pure (.updated { e with tags := tags, updatedAt := now })

/-- `_archive_reasons`. -/
def archiveReasons (c : Config) (e : MemoryEntry) (now : Stamp) : List String :=
  if e.status = .stale ∨ e.status = .superseded then []
  else if e.supersededBy.isSome then []
  else c.decayReasons e now

/-- `identify_decay_refresh` on one row. -/
def refreshAction (c : Config) (now : Stamp) (e : MemoryEntry) : Option DecayAction :=
  if e.status ≠ .active || e.invalidAt.isSome || e.supersededBy.isSome then none
  else c.decayVerdict e now

/-- The row `_gc_demote_entry` writes. -/
def demotedRow (c : Config) (target : String) (now : Stamp) (e : MemoryEntry) : MemoryEntry :=
  stampIntegrityHash c { e with tier := Tier.ofText target, updatedAt := now }

/-- `_gc_demote_entry`. -/
def gcDemoteEntry (w : World) (scanned : MemoryEntry) (target : String) : StoreM Bool :=
  Prog.handle
    (do
      match ← getEntry scanned.key with
      | none => pure false
      | some current =>
        if current.updatedAt ≠ scanned.updatedAt then pure false
        else do
          let now ← utcNow w
          rewriteEntry w current (demotedRow w.toConfig target now current)
          appendAudit w scanned.key (.demote scanned.tier.text target)
          pure true)
    (fun _ => pure false)

/-- Whether a candidate stays for the archive loop; a demoted one does not. -/
def staysForArchive (w : World) (now : Stamp) (scanned : MemoryEntry) : StoreM Bool :=
  if w.profile.isSome && archiveReasons w.toConfig scanned now = ["floor_retention"] then
    match checkDemotion w.toConfig scanned now with
    | none => pure true
    | some target => do
      let demoted ← gcDemoteEntry w scanned target
      pure (!demoted)
  else pure true

/-- The archive loop of `gc` on one candidate: the row is re-read and skipped when its
`updated_at` moved since the scan. -/
def gcArchiveOne (w : World) (scanned : MemoryEntry) : StoreM Bool := do
  match ← getEntry scanned.key with
  | none => pure false
  | some current =>
    if current.updatedAt ≠ scanned.updatedAt then pure false else archiveEntry w current

/-- The scan of `gc`. -/
def gcScan (c : Config) (now : Stamp) (entries : List MemoryEntry) : List MemoryEntry :=
  entries.filter (fun e => archiveReasons c e now ≠ [])

def deleteEach (w : World) (keys : List String) : StoreM Unit :=
  Prog.forEach
    (fun key => do
      let _ ← delete w key
      pure ())
    keys

/-- `gc`; the sweeps of sessions and documents are not part of the store modelled here. -/
def gc (w : World) (dryRun : Bool) : StoreM (List String) :=
  durableView w (do
    let entries ← snapshot
    let now ← utcNow w
    let candidates := gcScan w.toConfig now entries
    if dryRun then pure (candidates.map (·.key))
    else do
      let toArchive ← Prog.filterEach (staysForArchive w now) candidates
      let archived ← Prog.filterEach (gcArchiveOne w) toArchive
      deleteEach w (archived.map (·.key))
      pure (archived.map (·.key)))

/-- `_archive_and_delete` on one key: the row is re-read, and whatever is there is archived. -/
def refreshArchiveOne (w : World) (key : String) : StoreM Bool := do
  match ← getEntry key with
  | none => pure false
  | some current => archiveEntry w current

/-- `_archive_and_delete`. -/
def archiveAndDelete (w : World) (keys : List String) : StoreM (List String) := do
  let archived ← Prog.filterEach (refreshArchiveOne w) keys
  deleteEach w archived
  pure archived

def refreshKeys (c : Config) (now : Stamp) (action : DecayAction) (entries : List MemoryEntry) :
    List String :=
  (entries.filter (fun e => refreshAction c now e = some action)).map (·.key)

/-- The close loop of `refresh_decay` on one key. -/
def refreshCloseOne (w : World) (key : String) : StoreM Unit := do
  let _ ← closeValidity w key "age" none (some "decayed below stale_threshold")
  pure ()

/-- `refresh_decay`. -/
def refreshDecay (w : World) (dryRun : Bool) : StoreM (List String × List String) :=
  durableView w (do
    let now ← utcNow w
    let entries ← snapshot
    let closeKeys := refreshKeys w.toConfig now .close entries
    let archiveKeys := refreshKeys w.toConfig now .archive entries
    if dryRun then pure (closeKeys, archiveKeys)
    else do
      let archived ← archiveAndDelete w archiveKeys
      Prog.forEach (refreshCloseOne w) closeKeys
      pure (closeKeys, archived))

end TappsBrain
