import TappsBrain.HiveReaping
import TappsBrain.Lib.TtlCache

namespace TappsBrain.HiveAccess
open Lib
set_option autoImplicit true
set_option relaxedAutoImplicit false

/-- `hive_groups` beside the rest of the Hive. -/
structure State where
  hive : HiveStore := {}
  groups : List String := []

/-- Who calls `hive_search`: the agent and project of the caller, and the profile of its store. -/
structure Reader where
  agentId : String
  projectId : String
  profileName : Option String

inductive Event where
  /-- The fan-out of a save. -/
  | saved (w : SharedWorld) (e : MemoryEntry) (agentScope tier : String) (autoPublish : Bool)
  /-- `hive_propagate` and each entry of `hive_push`. -/
  | pushed (w : SharedWorld) (e : MemoryEntry) (agentScope : String) (force dryRun : Bool)
  | archive (clock : Nat → Stamp) (ns key : String)
  | createGroup (name : String)
  | addGroupMember (groupName agentId projectId : String)
  | removeGroupMember (groupName agentId : String)

/-- `propagate` with `bypass_profile_hive_rules`. -/
def engineDecision (w : SharedWorld) (h : HiveStore) (agentScope tier : String) (force : Bool) :
    Propagation :=
  if force then
    if agentScope = "private" then .refusedClientScope
    else resolvePropagationNamespace w h agentScope
  else propagate w h agentScope tier

/-- The write of a push, which carries neither group nor run. -/
def pushWrites (w : SharedWorld) (h : HiveStore) (e : MemoryEntry) (agentScope : String)
    (force dryRun : Bool) : List HiveSave :=
  if agentScope = "private" || dryRun then []
  else match engineDecision w h agentScope e.tier.text force with
    | .propagated ns =>
      [{ key := e.key
         value := e.value
         ns := ns
         sourceAgent := w.hiveAgentId
         tier := e.tier.text
         confidence := e.confidence
         source := e.source.text
         tags := e.tags }]
    | _ => []

/-- What an event writes into the Hive as it stands. -/
def writes (h : HiveStore) : Event → List HiveSave
  | .saved w e agentScope tier autoPublish => fanOutWrites w h e agentScope tier autoPublish
  | .pushed w e agentScope force dryRun => pushWrites w h e agentScope force dryRun
  | _ => []

/-- A membership without a project, or in a group that does not exist, is refused. -/
def addGroupMember (groupName agentId projectId : String) (s : State) : State :=
  if projectId = "" ∨ groupName ∉ s.groups ∨ ⟨groupName, agentId, projectId⟩ ∈ s.hive.members then s
  else { s with hive := { s.hive with
    members := s.hive.members ++ [⟨groupName, agentId, projectId⟩] } }

def removeGroupMember (groupName agentId : String) (s : State) : State :=
  { s with hive := { s.hive with
    members := s.hive.members.filter (fun m => ¬(m.groupName = groupName ∧ m.agentId = agentId)) } }

def step : Event → State → State
  | .saved w e agentScope tier autoPublish, s =>
    { s with
      hive := saveAll w.hiveClock (fanOutWrites w s.hive e agentScope tier autoPublish) s.hive }
  | .pushed w e agentScope force dryRun, s =>
    { s with hive := saveAll w.hiveClock (pushWrites w s.hive e agentScope force dryRun) s.hive }
  | .archive clock ns key, s => { s with hive := (s.hive.archiveEntry clock ns key).2 }
  | .createGroup name, s => if name ∈ s.groups then s else { s with groups := s.groups ++ [name] }
  | .addGroupMember groupName agentId projectId, s => addGroupMember groupName agentId projectId s
  | .removeGroupMember groupName agentId, s => removeGroupMember groupName agentId s

def Reader.ownNs (r : Reader) : String :=
  match r.profileName with
  | none => r.agentId
  | some name => if name = "" then r.agentId else name

/-- `search_with_groups`. -/
def searchWithGroups (index : SearchIndex) (query : String) (r : Reader) (limit : Nat)
    (h : HiveStore) : List HiveRow :=
  h.search index query (r.ownNs :: "universal" :: h.getAgentGroups r.agentId r.projectId) 0 limit

def removeGroupPrefix (ns : String) : String :=
  if GROUP_AGENT_SCOPE_PREFIX.toList.isPrefixOf ns.toList then
    String.ofList (ns.toList.drop GROUP_AGENT_SCOPE_PREFIX.length)
  else ns

/-- `hive_search`; `none` is the refusal. -/
def hiveSearch (index : SearchIndex) (query : String) (ns : Option String) (r : Reader)
    (h : HiveStore) : Option (List HiveRow) :=
  let allowed := r.ownNs :: r.agentId :: "universal" :: h.getAgentGroups r.agentId r.projectId
  match ns with
  | none => some (searchWithGroups index query r 20 h)
  | some ns =>
    let bare := removeGroupPrefix (strip ns)
    if strip ns ∉ allowed ∧ bare ∉ allowed ∧ h.agentIsGroupMember bare r.agentId = false then none
    else some (h.search index query [bare] 0 20)

section Revealed
variable {s : State} {t : HiveTable}

/-- The parts of a row that a later supersession or archival leaves. -/
def SameContent (a b : HiveRow) : Prop :=
  a.ns = b.ns ∧ a.key = b.key ∧ a.value = b.value ∧ a.sourceAgent = b.sourceAgent

def WrittenBy (a : HiveSave) (row : HiveRow) : Prop :=
  row.ns = a.ns ∧ row.key.logical = a.key ∧ row.value = a.value ∧ row.sourceAgent = a.sourceAgent

theorem followFrom_mem (turns : Nat) (seen : List HiveKey) {row : HiveRow} (h : row ∈ t.values) :
    followFrom t turns seen row ∈ t.values := by
  induction turns generalizing seen row with
  | zero => exact h
  | succ turns ih =>
    rw [followFrom]
    split
    · exact h
    · split
      · exact h
      · split
        · exact h
        · split
          · exact h
          · next hget => exact ih _ (Table.mem_of_get? hget)

theorem mem_upsertMemory {row new : HiveRow} (h : row ∈ (upsertMemory t new).values) :
    row ∈ t.values ∨ SameContent row new := by
  obtain ⟨created, heq⟩ := upsertMemory_eq t new
  rw [heq] at h
  rcases Table.mem_set h with rfl | h
  · exact .inr ⟨rfl, rfl, rfl, rfl⟩
  · exact .inl h

theorem SameContent.trans {a b c : HiveRow} (h : SameContent a b) (h' : SameContent b c) :
    SameContent a c :=
  ⟨h.1.trans h'.1, h.2.1.trans h'.2.1, h.2.2.1.trans h'.2.2.1, h.2.2.2.trans h'.2.2.2⟩

theorem WrittenBy.of_same {a : HiveSave} {row old : HiveRow} (h : WrittenBy a old)
    (hsame : SameContent row old) : WrittenBy a row :=
  ⟨hsame.1.trans h.1, (congrArg HiveKey.logical hsame.2.1).trans h.2.1, hsame.2.2.1.trans h.2.2.1,
    hsame.2.2.2.trans h.2.2.2⟩

theorem writtenBy_row {row : HiveRow} {a : HiveSave} {key : HiveKey} (hkey : key.logical = a.key)
    {validAt : Option Stamp} {createdAt now : Stamp}
    (h : SameContent row (a.row key validAt createdAt now)) : WrittenBy a row :=
  ⟨h.1, (congrArg HiveKey.logical h.2.1).trans hkey, h.2.2.1, h.2.2.2⟩

theorem mem_saveMemory {row : HiveRow} {now : Stamp} {a : HiveSave}
    (h : row ∈ (saveMemory now a t).values) :
    (∃ old ∈ t.values, SameContent row old) ∨ WrittenBy a row := by
  have hrefl : ∀ r : HiveRow, SameContent r r := fun r => ⟨rfl, rfl, rfl, rfl⟩
  rw [saveMemory] at h
  split at h
  · rcases mem_upsertMemory h with hold | hnew
    · exact .inl ⟨row, hold, hrefl row⟩
    · exact .inr (writtenBy_row rfl hnew)
  · next existing hget =>
    dsimp only at h
    split at h
    · exact .inl ⟨row, h, hrefl row⟩
    · rcases mem_upsertMemory h with hold | hnew
      · exact .inl ⟨row, hold, hrefl row⟩
      · exact .inr (writtenBy_row rfl hnew)
    · rcases mem_upsertMemory h with hold | hnew
      · rcases Table.mem_set hold with rfl | hold
        · exact .inl ⟨_, followFrom_mem _ _ (Table.mem_of_get? hget), rfl, rfl, rfl, rfl⟩
        · exact .inl ⟨row, hold, hrefl row⟩
      · exact .inr (writtenBy_row rfl hnew)

theorem mem_archiveMemory {row : HiveRow} {now : Stamp} {ns key : String}
    (h : row ∈ (archiveMemory now ns key t).values) : ∃ old ∈ t.values, SameContent row old := by
  rw [archiveMemory] at h
  split at h
  · exact ⟨row, h, rfl, rfl, rfl, rfl⟩
  · next tip htip =>
    rcases Table.mem_set h with rfl | hold
    · rw [liveTip] at htip
      split at htip
      · cases htip
      · next first hget =>
        dsimp only at htip
        split at htip
        · obtain rfl := Option.some.inj htip
          exact ⟨_, followFrom_mem _ _ (Table.mem_of_get? hget), rfl, rfl, rfl, rfl⟩
        · cases htip
    · exact ⟨row, hold, rfl, rfl, rfl, rfl⟩

theorem mem_saveAll {clock : Nat → Stamp} {row : HiveRow} (l : List HiveSave) {h : HiveStore}
    (hrow : row ∈ (saveAll clock l h).memories.values) :
    (∃ old ∈ h.memories.values, SameContent row old) ∨ ∃ a ∈ l, WrittenBy a row := by
  induction l generalizing h with
  | nil => exact .inl ⟨row, hrow, rfl, rfl, rfl, rfl⟩
  | cons a l ih =>
    rcases ih hrow with ⟨old, hold, hsame⟩ | ⟨b, hb, hwritten⟩
    · rcases mem_saveMemory hold with ⟨older, holder, holdsame⟩ | hwritten
      · exact .inl ⟨older, holder, hsame.trans holdsame⟩
      · exact .inr ⟨a, List.mem_cons_self, hwritten.of_same hsame⟩
    · exact .inr ⟨b, List.mem_cons_of_mem _ hb, hwritten⟩

theorem mem_step {e : Event} {row : HiveRow} (h : row ∈ (step e s).hive.memories.values) :
    (∃ old ∈ s.hive.memories.values, SameContent row old) ∨
      ∃ a ∈ writes s.hive e, WrittenBy a row := by
  cases e with
  | saved | pushed => exact mem_saveAll _ h
  | archive clock ns key => exact .inl (mem_archiveMemory h)
  | createGroup name =>
    simp only [step] at h
    split at h
    · exact .inl ⟨row, h, rfl, rfl, rfl, rfl⟩
    · exact .inl ⟨row, h, rfl, rfl, rfl, rfl⟩
  | addGroupMember groupName agentId projectId =>
    simp only [step, addGroupMember] at h
    split at h
    · exact .inl ⟨row, h, rfl, rfl, rfl, rfl⟩
    · exact .inl ⟨row, h, rfl, rfl, rfl, rfl⟩
  | removeGroupMember groupName agentId => exact .inl ⟨row, h, rfl, rfl, rfl, rfl⟩

/-- The row goes back to a write that some event of the run made. -/
def Sourced (events : List Event) (row : HiveRow) : Prop :=
  ∃ done e rest, events = done ++ e :: rest ∧
    ∃ a ∈ writes (runSteps step done {}).hive e, WrittenBy a row

theorem sourced_run (events : List Event) :
    ∀ row ∈ (runSteps step events {}).hive.memories.values, Sourced events row := by
  apply runSteps_traced step (I := fun events s => ∀ row ∈ s.hive.memories.values,
    Sourced events row)
  · exact fun row hrow => absurd hrow List.not_mem_nil
  · intro done e h row hrow
    rcases mem_step hrow with ⟨old, hold, hsame⟩ | ⟨a, ha, hwritten⟩
    · obtain ⟨first, e', rest, heq, a, ha, hwritten⟩ := h old hold
      refine ⟨first, e', rest ++ [e], ?_, a, ha, hwritten.of_same hsame⟩
      rw [heq, List.append_assoc, List.cons_append]
    · exact ⟨done, e, [], rfl, a, ha, hwritten⟩

/-- The names whose namespaces are open to the reader; `named` says that the caller named one. -/
def Reader.Holds (r : Reader) (h : HiveStore) (named : Bool) (name : String) : Prop :=
  name = r.ownNs ∨ name = r.agentId ∨ name = "universal" ∨
    ∃ m ∈ h.members, m.groupName = name ∧ m.agentId = r.agentId ∧
      (named = true ∨ m.projectId = r.projectId ∧ r.projectId ≠ "")

/-- What the reader is shown: live rows of a name it holds, as some agent shared them. A name that
begins with the prefix of a group opens the namespace behind it. -/
structure Revealed (events : List Event) (r : Reader) (named : Bool) (row : HiveRow) : Prop where
  live : row.live = true
  held : ∃ name, r.Holds (runSteps step events {}).hive named name ∧
    (row.ns = name ∨ named = true ∧ row.ns = removeGroupPrefix name)
  sourced : Sourced events row

theorem search_mem {index : SearchIndex} {query : String} {namespaces : List String}
    {minConfidence : ℚ} {limit : Nat} {h : HiveStore} {row : HiveRow}
    (hrow : row ∈ h.search index query namespaces minConfidence limit) :
    row ∈ h.memories.values ∧ row.live = true ∧ (namespaces = [] ∨ row.ns ∈ namespaces) := by
  have hmem := List.mem_of_mem_take hrow
  rw [List.mem_mergeSort, List.mem_filter] at hmem
  obtain ⟨hstored, hcond⟩ := hmem
  rw [Bool.and_eq_true, Bool.and_eq_true] at hcond
  exact ⟨hstored, hcond.2, by simpa using hcond.1.2⟩

theorem holds_allowed {r : Reader} {h : HiveStore} {name : String}
    (hname : name ∈ r.ownNs :: r.agentId :: "universal" :: h.getAgentGroups r.agentId r.projectId)
    (named : Bool) : r.Holds h named name := by
  rcases List.mem_cons.1 hname with hname | hname
  · exact .inl hname
  rcases List.mem_cons.1 hname with hname | hname
  · exact .inr (.inl hname)
  rcases List.mem_cons.1 hname with hname | hname
  · exact .inr (.inr (.inl hname))
  · obtain ⟨hproject, hm⟩ := mem_getAgentGroups.1 hname
    exact .inr (.inr (.inr ⟨_, hm, rfl, rfl, .inr ⟨rfl, hproject⟩⟩))

def ShownOnly (events : List Event) (r : Reader) (named : Bool) (found : Option (List HiveRow)) :
    Prop :=
  ∀ rows, found = some rows → ∀ row ∈ rows, Revealed events r named row

end Revealed

end TappsBrain.HiveAccess
