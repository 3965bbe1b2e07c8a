import TappsBrain.Consolidate

namespace TappsBrain
open Lib
set_option autoImplicit true
set_option relaxedAutoImplicit false

/-- An entry that is assigned and not yet persisted, with the one it replaces. -/
abbrev PendingEntry := MemoryEntry × Option MemoryEntry

/-- `effective_max_value_length`. -/
def effectiveMaxValueLength (c : Config) : Nat :=
  match c.profile with
  | some p =>
    if p.limits.maxValueLength < MAX_VALUE_LENGTH then p.limits.maxValueLength else MAX_VALUE_LENGTH
  | none => MAX_VALUE_LENGTH

/-- `_value_too_large_error`. -/
def valueTooLargeError (c : Config) (value : String) : Option ShortCircuit :=
  let cap := effectiveMaxValueLength c
  if value.length ≤ cap then none
  else some (.error "value_too_large" (s!"value is {value.length} characters, exceeding the " ++
    s!"{cap}-character per-entry cap. Use POST /v1/documents for long-form content."))

/-- The rejections of `_prepare_batch_entry` before its first side effect. -/
def rowError (c : Config) (a : SaveArgs) : Option ShortCircuit :=
  match argumentError c a with
  | some msg => some (.error "bad_request" msg)
  | none => valueTooLargeError c a.value

/-- The build step of a row, which answers what it raises as a `ValueError`. -/
def buildBatchEntry (w : World) (a : SaveArgs) (p : SavePrep) :
    StoreM (Except ShortCircuit PendingEntry) :=
  Prog.handle
    (do
      let built ← buildAndAssignEntry w (preparedArgs a p) p.mgExplicit
      pure (.ok built))
    (fun
      | .validationError msg => pure (.error (.error "bad_request" msg))
      | .valueError msg => pure (.error (.error "bad_request" msg))
      | e => Prog.raise e)

/-- `_prepare_batch_entry`. -/
def prepareBatchEntry (w : World) (a : SaveArgs) : StoreM (Except ShortCircuit PendingEntry) :=
  match rowError w.toConfig a with
  | some d => pure (.error d)
  | none => do
    match ← prepareSave w a with
    | .error d => pure (.error d)
    | .ok p => buildBatchEntry w a p

/-- The roll back of both failure paths: every slot is given back in the order it was assigned. -/
def rollBack (pending : List PendingEntry) : StoreM Unit :=
  Prog.forEach (fun p => restoreSlot p.1.key p.2) pending

/-- The pending entries once a row has been built or answered. -/
def pendingWith (pending : List PendingEntry) : Except ShortCircuit PendingEntry → List PendingEntry
  | .ok p => pending ++ [p]
  | .error _ => pending

/-- The preparation loop of `save_many`, with the rows it has assigned so far. -/
def prepareBatch (w : World) (pending : List PendingEntry) :
    List SaveArgs → StoreM (List (Except ShortCircuit PendingEntry))
  | [] => pure []
  | a :: rest => do
    let built ← Prog.rollback (prepareBatchEntry w a) (rollBack pending)
    let others ← prepareBatch w (pendingWith pending built) rest
    pure (built :: others)

def pendingOf (built : List (Except ShortCircuit PendingEntry)) : List PendingEntry :=
  built.filterMap Except.toOption

/-- `_persistence.save_many`: all rows in one transaction. -/
def saveRows (w : World) (entries : List MemoryEntry) : StoreM Unit := do
  backendCall w
  if entries.all columnsAccept then
    Prog.modify (fun s => entries.foldl (fun s e => storeRow e s) s)
  else Prog.raise .backend

/-- `_persist_many_or_rollback`. -/
def persistManyOrRollback (w : World) (pending : List PendingEntry) : StoreM Unit :=
  Prog.rollback (saveRows w (pending.map Prod.fst)) (rollBack pending)

/-- `save_many` up to its batched persist. -/
def storeBatch (w : World) (items : List SaveArgs) : StoreM (List (Except ShortCircuit PendingEntry)) := do
  let built ← prepareBatch w [] items
  if pendingOf built = [] then pure () else persistManyOrRollback w (pendingOf built)
  pure built

/-- The fan-out of one row. -/
def finishRow (w : World) (row : SaveArgs × Except ShortCircuit PendingEntry) : StoreM Unit :=
  match row.2 with
  | .error _ => pure ()
  | .ok p => postprocessSavedEntry w (maybeConsolidate w) p.1 p.2 row.1.skipConsolidation

/-- `save_many`. -/
def saveMany (w : World) (items : List SaveArgs) :
    StoreM (List (Except ShortCircuit MemoryEntry)) := do
  let built ← storeBatch w items
  Prog.forEach (fun p => dropIfConcurrentlyRemoved w p.1.key) (pendingOf built)
  Prog.forEach (finishRow w) (items.zip built)
  pure (built.map (fun r => r.map Prod.fst))

end TappsBrain
