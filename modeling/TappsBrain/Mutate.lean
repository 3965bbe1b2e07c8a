import TappsBrain.Cache

namespace TappsBrain
open Lib
set_option autoImplicit true
set_option relaxedAutoImplicit false

/-- Assign the rewritten row to its slot, then write it through. -/
def rewriteEntry (w : World) (before after : MemoryEntry) : StoreM Unit := do
  setEntry after
  persistOrRestore w after before
  dropIfConcurrentlyRemoved w after.key

/-- `update_fields`. -/
def updateFields (w : World) (key : String) (patch : FieldPatch) : StoreM (Option MemoryEntry) := do
  match ← ensureEntryCached w key with
  | none => pure none
  | some e => do
    let now ← utcNow w
    rewriteEntry w e (patch.apply now e)
    pure (some (patch.apply now e))

/-- The keyword arguments `close_validity` passes on. -/
def closePatch (reason : String) (status : MemoryStatus) (now : Stamp)
    (supersededBy detail : Option String) : FieldPatch where
  set := closeWith reason status now supersededBy detail
  set_key := closeWith_key reason status now supersededBy detail
  updatedAt := some now

/-- `close_validity`. -/
def closeValidity (w : World) (key reason : String) (supersededBy detail : Option String) :
    StoreM (Option MemoryEntry) := do
  let now ← utcNow w
  match closeValidityStatus reason with
  | none => Prog.ofExcept ((closeValidityUpdates reason now supersededBy detail).map (fun _ => none))
  | some status => do
    match ← updateFields w key (closePatch reason status now supersededBy detail) with
    | none => pure none
    | some updated => do
      appendAudit w key (.closeValidity reason status now supersededBy detail)
      pure (some updated)

inductive UndoRefusal where
  | notFound | notContradicted | notASaveConflict
deriving DecidableEq, Repr

/-- What `undo_save_conflict` reports. -/
inductive UndoReport where
  | refused (why : UndoRefusal)
  | wouldRestore (prior : Option String)
  | restored (prior : Option String)
deriving DecidableEq, Repr

/-- The keyword arguments `undo_save_conflict` passes on. -/
def undoPatch (updatedAt : Stamp) : FieldPatch where
  set := fun e => { e with contradicted := false, contradictionReason := none, status := .active }
  set_key := fun _ => rfl
  updatedAt := some updatedAt

/-- `undo_save_conflict`. -/
def undoSaveConflict (w : World) (key : String) (dryRun : Bool) : StoreM UndoReport := do
  match ← ensureEntryCached w key with
  | none => pure (.refused .notFound)
  | some e =>
    if !e.contradicted then pure (.refused .notContradicted)
    else if !isSaveConflictReason e.contradictionReason then pure (.refused .notASaveConflict)
    else if dryRun then pure (.wouldRestore e.contradictionReason)
    else do
      match ← updateFields w key (undoPatch e.updatedAt) with
      | none => pure (.refused .notFound)
      | some _ => do
        appendAudit w key (.saveConflictUndo e.contradictionReason)
        pure (.restored e.contradictionReason)

/-- The keyword arguments `promote_learning` passes on. -/
def promotePatch (actor : String) (signal : PromotionSignal) (promotedAt updatedAt : Stamp) :
    FieldPatch where
  set := fun e => { e with promotion :=
    { learningStatus := .approved, promotedBy := some actor, promotedAt := some promotedAt
      promotionSignal := some signal, demotionReason := none } }
  set_key := fun _ => rfl
  updatedAt := some updatedAt

def promotionSignalOfText (s : String) : Option PromotionSignal :=
  if s = "eval" then some .eval else if s = "human" then some .human else none

/-- `promote_learning`. -/
def promoteLearning (w : World) (key signal actor : String) (evidence : Option String) :
    StoreM MemoryEntry := do
  match promotionSignalOfText signal with
  | none => Prog.raise (.invalidRequest
      s!"signal must be one of ['eval', 'human'], got {w.unicode.repr signal}")
  | some sig =>
    if isBlank actor then Prog.raise (.invalidRequest "actor is required to promote a learning")
    else do
      match ← ensureEntryCached w key with
      | none => Prog.raise (.notFound s!"no memory entry with key {w.unicode.repr key}")
      | some e =>
        if e.promotion.learningStatus = .approved then
          Prog.raise (.conflict s!"entry {w.unicode.repr key} is already approved")
        else do
          let promotedAt ← utcNow w
          match ← updateFields w key (promotePatch actor sig promotedAt e.updatedAt) with
          | none => Prog.raise (.notFound s!"no memory entry with key {w.unicode.repr key}")
          | some updated => do
            appendAudit w key (.learningPromote e.promotion.learningStatus sig actor evidence)
            pure updated

/-- The keyword arguments `demote_learning` passes on. -/
def demotePatch (reason : String) (updatedAt : Stamp) : FieldPatch where
  set := fun e => { e with
    promotion := { e.promotion with learningStatus := .demoted, demotionReason := some reason } }
  set_key := fun _ => rfl
  updatedAt := some updatedAt

/-- `demote_learning`. -/
def demoteLearning (w : World) (key reason : String) : StoreM MemoryEntry := do
  if isBlank reason then Prog.raise (.invalidRequest "reason is required to demote a learning")
  else do
    match ← ensureEntryCached w key with
    | none => Prog.raise (.notFound s!"no memory entry with key {w.unicode.repr key}")
    | some e => do
      match ← updateFields w key (demotePatch reason e.updatedAt) with
      | none => Prog.raise (.notFound s!"no memory entry with key {w.unicode.repr key}")
      | some updated => do
        appendAudit w key (.learningDemote e.promotion.learningStatus reason)
        pure updated

/-- The escalation `_maybe_promote_after_reinforce` attempts. -/
def promoteWhenDue (w : World) (updated : MemoryEntry) : StoreM MemoryEntry := do
  let checkedAt ← utcNow w
  match checkPromotion w.toConfig updated checkedAt with
  | none => pure updated
  | some target => do
    let now ← utcNow w
    rewriteEntry w updated (promoted w.toConfig target now updated)
    appendAudit w updated.key
      (.tierEscalate updated.tier.text target updated.accessCount updated.reinforceCount)
    pure (promoted w.toConfig target now updated)

/-- `_maybe_promote_after_reinforce`, whose failures are logged only. -/
def maybePromoteAfterReinforce (w : World) (updated : MemoryEntry) : StoreM MemoryEntry :=
  match w.profile with
  | none => pure updated
  | some _ => Prog.handle (promoteWhenDue w updated) (fun _ => pure updated)

/-- `reinforce`. -/
def reinforce (w : World) (key : String) (confidenceBoost : ℚ) : StoreM MemoryEntry := do
  match ← ensureEntryCached w key with
  | none => Prog.raise (.keyError key)
  | some e => do
    let now ← utcNow w
    rewriteEntry w e (reinforced w.toConfig confidenceBoost now e)
    maybePromoteAfterReinforce w (reinforced w.toConfig confidenceBoost now e)

/-- `record_access`. -/
def recordAccess (w : World) (key : String) (wasUseful : Bool) : StoreM Unit := do
  match ← ensureEntryCached w key with
  | none => pure ()
  | some e => do
    let now ← utcNow w
    rewriteEntry w e (accessRecorded w.toConfig wasUseful now e)

end TappsBrain
