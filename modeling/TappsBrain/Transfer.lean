import TappsBrain.Consolidate

namespace TappsBrain
open Lib
set_option autoImplicit true
set_option relaxedAutoImplicit false

/-- The native envelope, as far as an import reads it: a dumped entry carries every field of the
model, so it stands for its dump. -/
structure ExportBundle where
  memories : List MemoryEntry
  relations : List RelationEntry
deriving DecidableEq

/-- `collect_relations`, without its fallback to the cache. -/
def collectRelations (w : World) : StoreM (List RelationEntry) :=
  Prog.handle
    (do
      backendCall w
      Prog.read (fun s : Store => s.relationRows.values))
    (fun _ => pure [])

/-- `export_bundle_dict(store)`. -/
def exportBundleDict (w : World) : StoreM ExportBundle := do
  mergeDurableEntries w false
  let memories ← snapshot
  let relations ← collectRelations w
  pure { memories, relations }

inductive ImportStatus where
  | imported | skipped | error
deriving DecidableEq, Repr

def IMPORTED_SUFFIX : String := "(imported)"

def importedAgent (sourceAgent : String) : String :=
  if IMPORTED_SUFFIX.toList.isSuffixOf sourceAgent.toList then sourceAgent
  else s!"{sourceAgent} {IMPORTED_SUFFIX}"

/-- The call `_save_imported_entry` makes. -/
def importArgs (e : MemoryEntry) : SaveArgs where
  key := e.key
  value := e.value
  tier := e.tier.text
  source := e.source.text
  sourceAgent := importedAgent e.sourceAgent
  scope := e.scope.text
  tags := some e.tags
  branch := e.branch
  confidence := e.confidence
  memoryGroup := some e.memoryGroup
  temporalSensitivity := e.temporalSensitivity
  agentScope := e.agentScope

def statusOf : SaveResult → ImportStatus
  | .dict (.error _ _) => .error
  | _ => .imported

/-- `_save_imported_entry`. -/
def saveImportedEntry (w : World) (overwrite : Bool) (e : MemoryEntry) : StoreM ImportStatus := do
  let existing ← ensureEntryCached w e.key
  if existing.isSome && !overwrite then pure .skipped
  else do
    let result ← save w (importArgs e)
    pure (statusOf result)

structure ImportCounts where
  imported : Nat := 0
  skipped : Nat := 0
  errors : Nat := 0
deriving DecidableEq, Repr

def ImportCounts.add (n : ImportCounts) : ImportStatus → ImportCounts
  | .imported => { n with imported := n.imported + 1 }
  | .skipped => { n with skipped := n.skipped + 1 }
  | .error => { n with errors := n.errors + 1 }

/-- One turn of the import loop. -/
def importOne (w : World) (overwrite : Bool) (raw : MemoryEntry) : StoreM ImportStatus :=
  match raw.validate w.unicode with
  | .error _ => pure .error
  | .ok entry => saveImportedEntry w overwrite entry

def importEach (w : World) (overwrite : Bool) : List MemoryEntry → ImportCounts → StoreM ImportCounts
  | [], counts => pure counts
  | raw :: rest, counts => do
    let status ← importOne w overwrite raw
    importEach w overwrite rest (counts.add status)

/-- One turn of `restore_relations`: whether the relation was saved under its first source. -/
def restoreRelation (w : World) (rel : RelationEntry) : StoreM Nat :=
  match rel.sourceEntryKeys with
  | [] => pure 0
  | anchor :: _ =>
    if anchor = "" then pure 0
    else
      Prog.handle
        (do
          saveRelations w anchor [rel]
          pure 1)
        (fun _ => pure 0)

/-- `restore_relations`. -/
def restoreRelations (w : World) : List RelationEntry → StoreM Nat
  | [] => pure 0
  | rel :: rest => do
    let here ← restoreRelation w rel
    let later ← restoreRelations w rest
    pure (here + later)

structure ImportResult where
  counts : ImportCounts
  relationsRestored : Nat
deriving DecidableEq, Repr

/-- `import_memory_dicts`, without embeddings. -/
def importMemoryDicts (w : World) (bundle : ExportBundle) (overwrite : Bool) :
    StoreM ImportResult := do
  let counts ← importEach w overwrite bundle.memories {}
  let relationsRestored ← restoreRelations w bundle.relations
  pure { counts, relationsRestored }

end TappsBrain
