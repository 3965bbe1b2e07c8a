import TappsBrain.Mutate

namespace TappsBrain
open Lib
set_option autoImplicit true
set_option relaxedAutoImplicit false

/-- The results of a save that wrote no row of its own. -/
inductive ShortCircuit where
  | error (code message : String)
  | noop (key reasoning : String)
  | deleted (deletedKey reasoning : String)
  | found (e : MemoryEntry)
  | coalesced (key tier : String) (confidence : ℚ) (memoryGroup : Option String)
deriving DecidableEq, Repr

def ShortCircuit.isError : ShortCircuit → Bool
  | .error _ _ => true
  | _ => false

inductive SaveResult where
  | entry (e : MemoryEntry)
  | dict (d : ShortCircuit)
deriving DecidableEq, Repr

structure InvalidatedDetail where
  key : String
  similarity : ℚ
  tier : String
  threshold : ℚ
deriving DecidableEq, Repr

/-- `_SavePrep`. -/
structure SavePrep where
  value : String
  agentScope : String
  tier : String
  sourceAgent : String
  mgExplicit : Option (Option String)
  conflictValidAt : Option Stamp
  effectiveKey : Option String
  invalidatedKeys : List String
  invalidatedDetail : List InvalidatedDetail
deriving DecidableEq, Repr

/-- `validate_scope_and_group`. -/
def validateScopeAndGroup (c : Config) (agentScope : String) (memoryGroup : Option (Option String)) :
    Except ShortCircuit (String × Option (Option String)) :=
  match normalizeAgentScope c.unicode agentScope with
  | .error msg => .error (.error "invalid_agent_scope" msg)
  | .ok scope =>
    let groupName := String.ofList (scope.toList.drop GROUP_AGENT_SCOPE_PREFIX.length)
    if GROUP_AGENT_SCOPE_PREFIX.toList.isPrefixOf scope.toList && !c.groups.contains groupName then
      .error (.error "invalid_agent_scope" s!"Agent not a member of group '{groupName}'")
    else
      match memoryGroup with
      | none => .ok (scope, none)
      | some none => .ok (scope, some none)
      | some (some g) =>
        match normalizeMemoryGroup g with
        | .error msg => .error (.error "invalid_memory_group" msg)
        | .ok g' => .ok (scope, some g')

/-- `_TIER_ALIASES`. -/
def tierAliases : List (String × String) :=
  [("long-term", "architectural"), ("long_term", "architectural"), ("short-term", "pattern"),
    ("short_term", "pattern"), ("identity", "architectural"), ("memo", "pattern"),
    ("note", "pattern"), ("notes", "pattern"), ("working", "context"), ("scratch", "context"),
    ("how-to", "procedural"), ("how_to", "procedural"), ("routine", "procedural"),
    ("workflow", "procedural")]

/-- `text.replace("_", "-")`. -/
def dashed (s : String) : String := String.ofList (s.toList.map (fun c => if c = '_' then '-' else c))

/-- `normalize_save_tier`. -/
def normalizeSaveTier (c : Config) (raw : String) : String :=
  if isBlank raw then "pattern"
  else
    let tLower := c.unicode.lower (strip raw)
    let layer := c.profile.bind (fun p =>
      p.layerNames.find? (fun name => dashed (c.unicode.lower name) = dashed tLower))
    match layer with
    | some name => name
    | none =>
      match MemoryTier.ofText ((tierAliases.lookup tLower).getD tLower) with
      | some t => t.text
      | none => "pattern"

def containsChars (needle : List Char) : List Char → Bool
  | [] => needle = []
  | c :: rest => needle.isPrefixOf (c :: rest) || containsChars needle rest

/-- `_validate_write_rules`. -/
def validateWriteRules (c : Config) (key value : String) : Option String :=
  match c.writeRules with
  | none => none
  | some r =>
    if !r.enforced then none
    else
      let combined := c.unicode.lower s!"{key} {value}"
      match r.blockSensitiveKeywords.find? (fun kw =>
          containsChars (c.unicode.lower kw).toList combined.toList) with
      | some kw => some s!"Blocked by write rule: contains sensitive keyword '{kw}'"
      | none =>
        if 0 < r.minValueLength && value.length < r.minValueLength then
          some s!"Value too short ({value.length} < {r.minValueLength} chars)"
        else if r.maxValueLength < value.length then
          some s!"Value too long ({value.length} > {r.maxValueLength} chars)"
        else none

/-- `_profile_limit_error`. -/
def profileLimitError (c : Config) (key value : String) (tags : Option (List String)) : Option String :=
  match c.profile with
  | none => none
  | some p =>
    let lim := p.limits
    if lim.maxKeyLength < MAX_KEY_LENGTH && lim.maxKeyLength < key.length then
      some s!"Key exceeds profile limit of {lim.maxKeyLength} characters."
    else if lim.maxValueLength < MAX_VALUE_LENGTH && lim.maxValueLength < value.length then
      some s!"Value exceeds profile limit of {lim.maxValueLength} characters."
    else if lim.maxTags < MAX_TAGS && lim.maxTags < (tags.getD []).length then
      some s!"Too many tags (max {lim.maxTags} per profile limit)."
    else none

/-- `apply_safety_check`. -/
def applySafetyCheck (c : Config) (value : String) : Except ShortCircuit String :=
  let safety := c.checkContentSafety value
  if safety.safe then .ok (safety.sanitisedContent.getD value)
  else .error (.error "content_blocked" "Memory value blocked by RAG safety filter.")

inductive PolicyOutcome where
  | proceed
  | update (targetKey : String)
  | stop (d : ShortCircuit)
deriving DecidableEq, Repr

/-- Python's truth of an optional target key. -/
def namedTarget : Option String → Option String
  | some t => if t = "" then none else some t
  | none => none

/-- The NOOP arm of `_apply_write_policy`. -/
def policyNoop (key : String) (r : WriteResult) (s : Store) : PolicyOutcome :=
  match (s.entries.get? key).or ((namedTarget r.targetKey).bind s.entries.get?) with
  | some e => .stop (.found e)
  | none => .stop (.noop key r.reasoning)

/-- What `_apply_write_policy` makes of a verdict. -/
def applyVerdict (w : World) (key : String) (candidates : List MemoryEntry) (r : WriteResult) :
    StoreM PolicyOutcome :=
  match r.decision, namedTarget r.targetKey with
  | .noop, _ => Prog.read (policyNoop key r)
  | .delete, some target =>
    if candidates.any (fun c => c.key = target) then do
      let _ ← delete w target
      pure (.stop (.deleted target r.reasoning))
    else pure .proceed
  | .update, some target =>
    if candidates.any (fun c => c.key = target) then pure (.update target) else pure .proceed
  | _, _ => pure .proceed

/-- `_apply_write_policy`. -/
def applyWritePolicy (w : World) (key value : String) : StoreM PolicyOutcome :=
  match w.writePolicy with
  | .deterministic => pure .proceed
  | .judged decide => do
    mergeDurableEntries w false
    let candidates ← snapshot
    applyVerdict w key candidates (decide key value candidates)

/-- The hit of `_handle_dedup`: an entry that vanished meanwhile is no hit. -/
def coalesce (w : World) (key : String) : StoreM (Option ShortCircuit) :=
  Prog.handle
    (do
      let e ← reinforce w key 0
      pure (some (ShortCircuit.coalesced key e.tier.text e.confidence e.memoryGroup)))
    (fun
      | .keyError _ => pure none
      | e => Prog.raise e)

/-- `_handle_dedup`. -/
def handleDedup (w : World) (key value : String) (dedup : Bool) : StoreM (Option ShortCircuit) :=
  if !dedup then pure none
  else do
    match ← ensureEntryCached w key with
    | none => pure none
    | some e =>
      if normalizeForDedup w.unicode e.value ≠ normalizeForDedup w.unicode value then pure none
      else coalesce w key

/-- The closed form of a conflicting row. -/
def invalidatedBy (now : Stamp) (reason : String) (e : MemoryEntry) : MemoryEntry :=
  closeWith "contradiction" .contradicted now none (some reason) e

/-- One invalidation of `_handle_conflicts`: whether it was persisted. -/
def invalidateOne (w : World) (current invalidated : MemoryEntry) : StoreM Bool := do
  setEntry invalidated
  Prog.handle
    (do
      saveRow w invalidated
      dropIfConcurrentlyRemoved w invalidated.key
      pure true)
    (fun _ => do
      restoreIfSame invalidated current
      pure false)

/-- The invalidation loop of `_handle_conflicts`; `none` when a write failed, after which the
plan is abandoned with what it has already written left in place. -/
def invalidateAll (w : World) (now : Stamp) : List (String × String) → StoreM (Option (List String))
  | [] => pure (some [])
  | (conflictKey, reason) :: rest => do
    match ← getEntry conflictKey with
    | none => invalidateAll w now rest
    | some current =>
      if current.invalidAt.isSome then invalidateAll w now rest
      else do
        let persisted ← invalidateOne w current (invalidatedBy now reason current)
        if persisted then do
          match ← invalidateAll w now rest with
          | none => pure none
          | some keys => pure (some (conflictKey :: keys))
        else pure none

/-- The end of one turn of the loop keeps what the turns after it keep. -/
theorem invalidateRest_keeps {I : Store → Prop} {w : World} {now : Stamp}
    {rest : List (String × String)} (h : Keeps I (invalidateAll w now rest)) (key : String)
    (persisted : Bool) :
    Keeps I (if persisted then do
        match ← invalidateAll w now rest with
        | none => pure none
        | some keys => pure (some (key :: keys))
      else pure none) := by
  split
  · apply h.bind
    intro r _
    cases r with
    | none => exact Keeps.pure trivial
    | some keys => exact Keeps.pure trivial
  · exact Keeps.pure trivial

structure ConflictOutcome where
  validAt : Option Stamp := none
  invalidatedKeys : List String := []
  invalidatedDetail : List InvalidatedDetail := []

def closeConflictAudit (w : World) (now : Stamp) (key : String) : StoreM Unit :=
  appendAudit w key (.closeValidity "contradiction" .contradicted now none (some "save_conflict"))

/-- The planning half of `_handle_conflicts`. -/
def planFor (w : World) (key value tier : String) : StoreM (Option ConflictPlan) := do
  mergeDurableEntries w false
  let entries ← snapshot
  let now ← utcNow w
  Prog.ofExcept (planConflicts w.toConfig key value tier entries
    (resolveSimilarityThreshold w.toConfig tier) now)

/-- `_handle_conflicts`. -/
def handleConflicts (w : World) (key value tier : String) (conflictCheck : Bool) :
    StoreM ConflictOutcome :=
  if !conflictCheck then pure {}
  else do
    match ← planFor w key value tier with
    | none => pure {}
    | some plan => do
      match ← invalidateAll w plan.now plan.invalidations with
      | none => pure {}
      | some keys => do
        Prog.forEach (closeConflictAudit w plan.now) keys
        pure
          { validAt := some plan.now
            invalidatedKeys := keys
            invalidatedDetail := (plan.audit.filter (fun row => keys.contains row.key)).map
              (fun row => ⟨row.key, row.similarity, row.tier, plan.similarityThreshold⟩) }

/-- The checks of `_prepare_save` that come before the write policy. -/
def checkSave (w : World) (a : SaveArgs) :
    StoreM (Except ShortCircuit (String × String × Option (Option String))) :=
  match validateScopeAndGroup w.toConfig a.agentScope a.memoryGroup with
  | .error d => pure (.error d)
  | .ok (agentScope, mgExplicit) =>
    match validateWriteRules w.toConfig a.key a.value with
    | some msg => pure (.error (.error "write_rules_violation" msg))
    | none => do
      checkRateLimit w
      match applySafetyCheck w.toConfig a.value with
      | .error d => pure (.error d)
      | .ok value => pure (.ok (value, agentScope, mgExplicit))

/-- `will_fail_validation`. -/
def willFailValidation (persistKey value : String) : Bool :=
  !keySlug persistKey || MAX_VALUE_LENGTH < value.length

def filledSourceAgent (c : Config) (sourceAgent : String) : String :=
  if sourceAgent = "unknown" then c.agentId.getD sourceAgent else sourceAgent

/-- Phases 4 and 5 of `_prepare_save`. -/
def dedupAndConflicts (w : World) (persistKey value tier : String) (dedup conflictCheck : Bool) :
    StoreM (Except ShortCircuit ConflictOutcome) :=
  if willFailValidation persistKey value then pure (.ok {})
  else do
    match ← handleDedup w persistKey value dedup with
    | some d => pure (.error d)
    | none => do
      let conflicts ← handleConflicts w persistKey value tier conflictCheck
      pure (.ok conflicts)

/-- What `_prepare_save` does once the policy has settled the key: the caller's, or a target. -/
def prepareUnder (w : World) (a : SaveArgs) (value agentScope : String)
    (mgExplicit : Option (Option String)) (updateKey : Option String) :
    StoreM (Except ShortCircuit SavePrep) := do
  let tier := normalizeSaveTier w.toConfig a.tier
  match ← dedupAndConflicts w (updateKey.getD a.key) value tier a.dedup a.conflictCheck with
  | .error d => pure (.error d)
  | .ok conflicts => pure (.ok
      { value, agentScope, tier
        sourceAgent := filledSourceAgent w.toConfig a.sourceAgent
        mgExplicit
        conflictValidAt := conflicts.validAt
        effectiveKey := updateKey
        invalidatedKeys := conflicts.invalidatedKeys
        invalidatedDetail := conflicts.invalidatedDetail })

/-- `_prepare_save`. -/
def prepareSave (w : World) (a : SaveArgs) : StoreM (Except ShortCircuit SavePrep) := do
  match ← checkSave w a with
  | .error d => pure (.error d)
  | .ok (value, agentScope, mgExplicit) => do
    match ← applyWritePolicy w a.key value with
    | .stop d => pure (.error d)
    | .update target => prepareUnder w a value agentScope mgExplicit (some target)
    | .proceed => prepareUnder w a value agentScope mgExplicit none

/-- The arguments of the build step: the caller's, with what the preparation settled. -/
def preparedArgs (a : SaveArgs) (p : SavePrep) : SaveArgs :=
  { a with
    key := p.effectiveKey.getD a.key
    value := p.value
    tier := p.tier
    sourceAgent := p.sourceAgent
    agentScope := p.agentScope
    validAt := a.validAt.or (p.conflictValidAt.map .at) }

/-- The new entry of `_build_and_assign_entry`, with the one it replaces. -/
def buildEntry (w : World) (a : SaveArgs) (mgExplicit : Option (Option String)) :
    StoreM (MemoryEntry × Option MemoryEntry) := do
  let existing ← ensureEntryCached w a.key
  let mgForEntry := mgExplicit.getD (existing.bind (·.memoryGroup))
  let tierVal ← Prog.ofExcept (resolveTierValue w.toConfig a.tier)
  let now ← utcNow w
  let entry ← Prog.ofExcept (constructMemoryEntry w.toConfig a tierVal mgForEntry existing now)
  pure (stampIntegrityHash w.toConfig entry, existing)

/-- `_build_and_assign_entry`. -/
def buildAndAssignEntry (w : World) (a : SaveArgs) (mgExplicit : Option (Option String)) :
    StoreM (MemoryEntry × Option MemoryEntry) := do
  let built ← buildEntry w a mgExplicit
  enforceEntryCapsBeforeAssign w built.1.memoryGroup built.2
  setEntry built.1
  pure built

/-- `_persist_entry_or_rollback`. -/
def persistEntryOrRollback (w : World) (entry : MemoryEntry) (existing : Option MemoryEntry) :
    StoreM Unit := do
  Prog.rollback (saveRow w entry) (restoreSlot entry.key existing)
  dropIfConcurrentlyRemoved w entry.key

def MAX_EDGES_PER_KEY : Nat := 20

def cachedRelationCount (key : String) (s : Store) : Nat :=
  (((s.relations.get? key).map (·.rels)).getD []).length

/-- `_persist_relations`. -/
def persistRelations (w : World) (key value : String) : StoreM Unit :=
  let relations := w.extractRelations key value
  if relations = [] then pure ()
  else do
    let existingCount ← Prog.read (cachedRelationCount key)
    if MAX_EDGES_PER_KEY ≤ existingCount then pure ()
    else do
      saveRelationRows w key (relations.take (MAX_EDGES_PER_KEY - existingCount))
      let loaded ← loadRelationRows w key
      setBucket key loaded

/-- `_postprocess_saved_entry`, with the consolidation pass as a parameter. -/
def postprocessSavedEntry (w : World) (maybeConsolidate : MemoryEntry → StoreM Unit)
    (entry : MemoryEntry) (existing : Option MemoryEntry) (skipConsolidation : Bool) :
    StoreM Unit := do
  appendAudit w entry.key (.save entry.tier.text entry.value.length existing.isSome)
  persistRelations w entry.key entry.value
  let inProgress ← Prog.read Store.consolidationInProgress
  if w.consolidation.enabled && !skipConsolidation && !inProgress &&
      !w.consolidation.exemptTiers.contains entry.tier.text then
    maybeConsolidate entry
  else pure ()

/-- The rejections of `save` before its first side effect. -/
def argumentError (c : Config) (a : SaveArgs) : Option String :=
  if (MemorySource.ofText c.unicode a.source).isNone then
    some s!"{c.unicode.repr a.source} is not a valid MemorySource"
  else if (MemoryScope.ofText a.scope).isNone then
    some s!"{c.unicode.repr a.scope} is not a valid MemoryScope"
  else profileLimitError c a.key a.value a.tags

/-- Phase 6 of `save`. -/
def storePrepared (w : World) (maybeConsolidate : MemoryEntry → StoreM Unit) (a : SaveArgs)
    (p : SavePrep) : StoreM MemoryEntry := do
  let built ← buildAndAssignEntry w (preparedArgs a p) p.mgExplicit
  persistEntryOrRollback w built.1 built.2
  postprocessSavedEntry w maybeConsolidate built.1 built.2 a.skipConsolidation
  pure built.1

/-- What `save` makes of a short-circuit: a coalesced one is answered with the cached entry. -/
def answerShort (d : ShortCircuit) : StoreM SaveResult :=
  match d with
  | .coalesced key _ _ _ => do
    match ← getEntry key with
    | some e => pure (.entry e)
    | none => pure (.dict d)
  | .found e => pure (.entry e)
  | d => pure (.dict d)

/-- The arguments of `save` once an omitted temporal sensitivity has been inferred. -/
def inferredArgs (c : Config) (a : SaveArgs) : SaveArgs :=
  { a with temporalSensitivity := a.temporalSensitivity.or (c.inferTemporalSensitivity a.value) }

/-- `save`, with the consolidation pass as a parameter. -/
def saveWith (w : World) (maybeConsolidate : MemoryEntry → StoreM Unit) (a : SaveArgs) :
    StoreM SaveResult :=
  match argumentError w.toConfig a with
  | some msg => Prog.raise (.valueError msg)
  | none => do
    match ← prepareSave w a with
    | .error d => answerShort d
    | .ok p => do
      let entry ← storePrepared w maybeConsolidate (inferredArgs w.toConfig a) p
      pure (.entry entry)

end TappsBrain
