import TappsBrain.Hive
import TappsBrain.Consolidate

namespace TappsBrain
open Lib
set_option autoImplicit true
set_option relaxedAutoImplicit false

/-- The name of a profile and its `hive:` block. -/
structure HiveProfile where
  name : String
  autoPropagateTiers : List String := ["architectural", "pattern"]
  privateTiers : List String := ["context"]
  autoPublishTiers : List String := ["architectural", "pattern"]

/-- A store with a Hive attached. `groups`, the declared memberships, are part of its `Config`. -/
structure SharedWorld extends World where
  hiveProfile : Option HiveProfile := none
  expertDomains : List String := []
  hiveAgentId : String := "unknown"
  /-- Empty where no project was resolved. -/
  projectId : String := ""
  hiveClock : Nat → Stamp

def DEFAULT_PROFILE_NAME : String := "repo-brain"

/-- `agent_profile` of the propagation and of the recall. -/
def SharedWorld.agentProfile (w : SharedWorld) : String :=
  (w.hiveProfile.map HiveProfile.name).getD DEFAULT_PROFILE_NAME

/-- `agent_profile` of the forget, which passes over an empty name. -/
def SharedWorld.forgetProfile (w : SharedWorld) : String :=
  if w.agentProfile = "" then DEFAULT_PROFILE_NAME else w.agentProfile

/-- `_apply_hive_profile_scope_rules`: the effective scope. -/
def applyHiveProfileScopeRules (w : SharedWorld) (agentScope tier : String) : String :=
  match w.hiveProfile with
  | none => agentScope
  | some p =>
    if tier ∈ p.privateTiers then "private"
    else if tier ∈ p.autoPropagateTiers ∧ agentScope = "private" then "domain"
    else agentScope

/-- `hive_group_name_from_scope`. -/
def hiveGroupNameFromScope (scope : String) : Option String :=
  let rest := scope.toList.drop GROUP_AGENT_SCOPE_PREFIX.length
  if GROUP_AGENT_SCOPE_PREFIX.toList.isPrefixOf scope.toList && rest ≠ [] then
    some (String.ofList rest)
  else none

/-- The decision of a propagation. -/
inductive Propagation where
  | propagated (ns : String)
  | refusedPrivateTier
  | refusedClientScope
  | refusedGroupNotMember (groupName : String)
  | deferredToGroupFanout
  | refusedUnknownScope (scope : String)
deriving DecidableEq, Repr

/-- `_resolve_propagation_namespace`. -/
def resolvePropagationNamespace (w : SharedWorld) (h : HiveStore) (scope : String) : Propagation :=
  match hiveGroupNameFromScope scope with
  | some groupName =>
    if h.agentIsGroupMember groupName w.hiveAgentId then .propagated groupName
    else .refusedGroupNotMember groupName
  | none =>
    if scope = "hive" then .propagated "universal"
    else if scope = "domain" then .propagated w.agentProfile
    else if scope = "group" then .deferredToGroupFanout
    else .refusedUnknownScope scope

/-- `PropagationEngine.propagate`: where an entry of this scope and tier goes. -/
def propagate (w : SharedWorld) (h : HiveStore) (agentScope tier : String) : Propagation :=
  let scope := applyHiveProfileScopeRules w agentScope tier
  if scope = "private" then
    if w.hiveProfile.any (fun p => tier ∈ p.privateTiers) then .refusedPrivateTier
    else .refusedClientScope
  else resolvePropagationNamespace w h scope

/-- The write of `_propagate_to_hive`. -/
def propagateToHive (w : SharedWorld) (h : HiveStore) (e : MemoryEntry) : Option HiveSave :=
  match propagate w h e.agentScope e.tier.text with
  | .propagated ns => some
      { key := e.key
        value := e.value
        ns := ns
        sourceAgent := w.hiveAgentId
        tier := e.tier.text
        confidence := e.confidence
        source := e.source.text
        tags := e.tags
        memoryGroup := e.memoryGroup
        runId := e.runId }
  | _ => none

/-- A copy as the group and expert fan-outs write it. -/
def copyInto (ns : String) (e : MemoryEntry) (tags : List String) : HiveSave where
  key := e.key
  value := e.value
  ns := ns
  sourceAgent := e.sourceAgent
  tier := e.tier.text
  confidence := e.confidence
  source := e.source.text
  tags := tags
  runId := e.runId

/-- `propagate_group_save`. -/
def propagateGroupSave (w : SharedWorld) (e : MemoryEntry) (agentScope : String) : List HiveSave :=
  if agentScope = "group" then w.groups.map (fun groupName => copyInto groupName e e.tags) else []

def publishTiers (w : SharedWorld) : List String :=
  (w.hiveProfile.map HiveProfile.autoPublishTiers).getD ["architectural", "pattern"]

/-- `publish_to_experts`. -/
def publishToExperts (w : SharedWorld) (e : MemoryEntry) (agentScope tier : String)
    (autoPublish : Bool) : Option HiveSave :=
  if autoPublish ∧ w.expertDomains ≠ [] ∧ tier ∈ publishTiers w ∧ agentScope = "private" then
    some (copyInto "universal" e (e.tags ++ w.expertDomains.map ("expert:" ++ ·)))
  else none

/-- The Hive writes of a save, in order. -/
def fanOutWrites (w : SharedWorld) (h : HiveStore) (e : MemoryEntry) (agentScope tier : String)
    (autoPublish : Bool) : List HiveSave :=
  (propagateToHive w h e).toList ++ propagateGroupSave w e agentScope ++
    (publishToExperts w e agentScope tier autoPublish).toList

/-- A store, the Hive it is attached to, and the copies its saves have written there, as pairs of
namespace and key; nothing reads the copies. -/
structure SharedStore where
  store : Store := {}
  hive : HiveStore := {}
  copies : List (String × String) := []

abbrev SharedM := Prog SharedStore Raised

def inStore (p : StoreM α) : SharedM α := fun s =>
  let (result, store) := p s.store
  (result, { s with store := store })

def saveAll (clock : Nat → Stamp) (writes : List HiveSave) (h : HiveStore) : HiveStore :=
  writes.foldl (fun h a => h.save clock a) h

/-- The Hive part of `_postprocess_saved_entry`, where no backend call fails. -/
def fanOut (w : SharedWorld) (e : MemoryEntry) (p : SavePrep) (autoPublish : Bool) : SharedM Unit :=
  Prog.modify fun s =>
    let writes := fanOutWrites w s.hive e p.agentScope p.tier autoPublish
    { s with
      hive := saveAll w.hiveClock writes s.hive
      copies := s.copies ++ writes.map (fun a => (a.ns, a.key)) }

/-- `save` up to its fan-out: an early result, or the entry as it was stored. -/
def saveEntry (w : World) (a : SaveArgs) : StoreM (Except SaveResult (MemoryEntry × SavePrep)) :=
  match argumentError w.toConfig a with
  | some msg => Prog.raise (.valueError msg)
  | none => do
    match ← prepareSave w a with
    | .error d => do
      let r ← answerShort d
      pure (.error r)
    | .ok p => do
      let built ← buildAndAssignEntry w (preparedArgs (inferredArgs w.toConfig a) p) p.mgExplicit
      persistEntryOrRollback w built.1 built.2
      appendAudit w built.1.key (.save built.1.tier.text built.1.value.length built.2.isSome)
      pure (.ok (built.1, p))

/-- `_postprocess_saved_entry` after its fan-out. -/
def afterFanOut (w : World) (a : SaveArgs) (e : MemoryEntry) : StoreM Unit := do
  persistRelations w e.key e.value
  let inProgress ← Prog.read Store.consolidationInProgress
  if w.consolidation.enabled && !a.skipConsolidation && !inProgress &&
      !w.consolidation.exemptTiers.contains e.tier.text then
    maybeConsolidate w e
  else pure ()

/-- `save` of a store with a Hive. -/
def saveShared (w : SharedWorld) (a : SaveArgs) (autoPublish : Bool) : SharedM SaveResult := do
  match ← inStore (saveEntry w.toWorld a) with
  | .error r => pure r
  | .ok (e, p) => do
    fanOut w e p autoPublish
    inStore (afterFanOut w.toWorld a e)
    pure (.entry e)

theorem postprocessSavedEntry_eq (w : World) (a : SaveArgs) (e : MemoryEntry)
    (existing : Option MemoryEntry) :
    postprocessSavedEntry w (maybeConsolidate w) e existing
        (inferredArgs w.toConfig a).skipConsolidation = (do
      appendAudit w e.key (.save e.tier.text e.value.length existing.isSome)
      afterFanOut w a e) := rfl

/-- The two halves make up `save`. -/
theorem save_eq (w : World) (a : SaveArgs) :
    save w a = (do
      match ← saveEntry w a with
      | .error r => pure r
      | .ok (e, _) => do
        afterFanOut w a e
        pure (.entry e)) := by
  funext s
  simp only [save, saveWith, saveEntry]
  cases argumentError w.toConfig a with
  | some msg => rfl
  | none =>
    simp only [Prog.bind_run]
    rcases prepareSave w a s with ⟨_ | d | p, t⟩
    · rfl
    · simp only [Prog.bind_run]
      rcases answerShort d t with ⟨_ | _, _⟩ <;> rfl
    · simp only [storePrepared, postprocessSavedEntry_eq, Prog.bind_run]
      rcases buildAndAssignEntry w (preparedArgs (inferredArgs w.toConfig a) p) p.mgExplicit t with
        ⟨_ | built, t⟩
      · rfl
      · simp only
        rcases persistEntryOrRollback w built.1 built.2 t with ⟨_ | _, t⟩
        · rfl
        · simp only
          rcases appendAudit w built.1.key
            (.save built.1.tier.text built.1.value.length built.2.isSome) t with ⟨_ | _, t⟩
          · rfl
          · simp only [Prog.pure_run, Prog.bind_run]
            rcases afterFanOut w a built.1 t with ⟨_ | _, t⟩ <;> rfl

/-- With or without a Hive, a save answers the same and leaves the same store. -/
theorem saveShared_store (w : SharedWorld) (a : SaveArgs) (autoPublish : Bool) (s : SharedStore) :
    (saveShared w a autoPublish).result s = (save w.toWorld a).result s.store ∧
      ((saveShared w a autoPublish).final s).store = (save w.toWorld a).final s.store := by
  rw [save_eq]
  simp only [saveShared, Prog.result, Prog.final, Prog.bind_run, inStore]
  rcases saveEntry w.toWorld a s.store with ⟨_ | _ | ⟨e, p⟩, t⟩
  · exact ⟨rfl, rfl⟩
  · exact ⟨rfl, rfl⟩
  · simp only [Prog.bind_run, fanOut, Prog.modify_run, inStore]
    rcases afterFanOut w.toWorld a e t with ⟨_ | _, t⟩ <;> exact ⟨rfl, rfl⟩

/-- The namespaces `_reap_hive_copy` goes through. -/
def reapNamespaces (w : SharedWorld) (h : HiveStore) : List String :=
  (h.getAgentGroups w.hiveAgentId w.projectId).foldl
    (fun seen groupName => if groupName ∈ seen then seen else seen ++ [groupName])
    ["universal", w.forgetProfile]

inductive HiveReap where
  | archived | absent
deriving DecidableEq, Repr

/-- The archive loop of `_reap_hive_copy`. -/
def reapEach (clock : Nat → Stamp) (key : String) : List String → HiveStore → Bool × HiveStore
  | [], h => (false, h)
  | ns :: rest, h =>
    let (here, h) := h.archiveEntry clock ns key
    let (later, h) := reapEach clock key rest h
    (here || later, h)

/-- `_reap_hive_copy`, where no backend call fails. -/
def reapHiveCopy (w : SharedWorld) (key : String) : SharedM HiveReap := fun s =>
  let (reaped, hive) := reapEach w.hiveClock key (reapNamespaces w s.hive) s.hive
  (.ok (if reaped then .archived else .absent), { s with hive := hive })

inductive ForgetAnswer where
  | notFound
  | forgotten (hiveReap : HiveReap)
deriving DecidableEq, Repr

/-- `brain_forget`. -/
def brainForget (w : SharedWorld) (key : String) : SharedM ForgetAnswer := do
  match ← inStore (get w.toWorld key) with
  | none => pure .notFound
  | some e => do
    let _ ← inStore (archiveEntry w.toWorld e)
    let _ ← inStore (delete w.toWorld key)
    let hiveReap ← reapHiveCopy w key
    pure (.forgotten hiveReap)

end TappsBrain
