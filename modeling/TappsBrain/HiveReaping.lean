import TappsBrain.Lib.Run
import TappsBrain.HiveThread
import TappsBrain.Sharing

namespace TappsBrain
open Lib
set_option autoImplicit true
set_option relaxedAutoImplicit false

variable {w : SharedWorld} {h : HiveStore} {e : MemoryEntry} {agentScope tier : String}
  {autoPublish : Bool}

/-- The forget looks into this namespace: the universal one, the one of the profile, or a group in
which the agent is registered under the project of the store. -/
def registered (w : SharedWorld) (h : HiveStore) (ns : String) : Bool :=
  ns = "universal" || ns = w.forgetProfile ||
    (w.projectId ≠ "" && h.members.contains ⟨ns, w.hiveAgentId, w.projectId⟩)

/-- What a save needs for the forget to find its copies: every declared group of a `group` save is
registered, the group of a `group:<name>` save is registered under this project and not only under
another one, and a save into the domain has a profile with a name. -/
def sharesKnown (w : SharedWorld) (h : HiveStore) (e : MemoryEntry) (agentScope : String) : Bool :=
  let scope := applyHiveProfileScopeRules w e.agentScope e.tier.text
  (agentScope ≠ "group" || w.groups.all (registered w h)) &&
    (hiveGroupNameFromScope scope).all
      (fun name => !h.agentIsGroupMember name w.hiveAgentId || registered w h name) &&
    (scope ≠ "domain" || w.agentProfile ≠ "" || registered w h "")

theorem mem_dedupe (l seen : List String) (x : String) :
    x ∈ l.foldl (fun seen g => if g ∈ seen then seen else seen ++ [g]) seen ↔ x ∈ seen ∨ x ∈ l := by
  induction l generalizing seen with
  | nil => simp only [List.foldl_nil, List.not_mem_nil, or_false]
  | cons g rest ih =>
    rw [List.foldl_cons, ih, List.mem_cons]
    split
    · rename_i hg
      constructor
      · intro hx
        exact hx.imp id .inr
      · intro hx
        obtain hx | rfl | hx := hx
        · exact .inl hx
        · exact .inl hg
        · exact .inr hx
    · rw [List.mem_append, List.mem_singleton, or_assoc]

theorem mem_getAgentGroups {agentId projectId groupName : String} :
    groupName ∈ h.getAgentGroups agentId projectId ↔
      projectId ≠ "" ∧ ⟨groupName, agentId, projectId⟩ ∈ h.members := by
  simp only [HiveStore.getAgentGroups]
  split
  · rename_i hempty
    simp only [List.not_mem_nil, hempty, ne_eq, not_true_eq_false, false_and]
  · rename_i hproject
    simp only [List.mem_mergeSort, List.mem_map, List.mem_filter, decide_eq_true_eq, ne_eq,
      hproject, not_false_eq_true, true_and]
    constructor
    · intro hx
      obtain ⟨m, ⟨hm, hagent, hproj⟩, rfl⟩ := hx
      rw [← hagent, ← hproj]
      exact hm
    · intro hm
      exact ⟨_, ⟨hm, rfl, rfl⟩, rfl⟩

theorem mem_reapNamespaces {ns : String} : ns ∈ reapNamespaces w h ↔ registered w h ns = true := by
  simp only [reapNamespaces, mem_dedupe, mem_getAgentGroups, registered, List.mem_cons,
    List.not_mem_nil, or_false, Bool.or_eq_true, decide_eq_true_eq, Bool.and_eq_true,
    List.contains_iff_mem]

/-- Where the engine writes, and under which decision. -/
theorem propagate_propagated {ns : String} :
    propagate w h agentScope tier = .propagated ns ↔
      let scope := applyHiveProfileScopeRules w agentScope tier
      (hiveGroupNameFromScope scope = some ns ∧ h.agentIsGroupMember ns w.hiveAgentId = true) ∨
        (scope = "hive" ∧ ns = "universal") ∨ (scope = "domain" ∧ ns = w.agentProfile) := by
  simp only [propagate, resolvePropagationNamespace]
  generalize applyHiveProfileScopeRules w agentScope tier = scope
  by_cases hprivate : scope = "private"
  · rw [hprivate]
    simp only [↓reduceIte]
    have hgroup : hiveGroupNameFromScope "private" = none := rfl
    rw [hgroup]
    have hhive : ("private" = "hive") = False := by decide +kernel
    have hdomain : ("private" = "domain") = False := by decide +kernel
    simp only [hhive, hdomain, reduceCtorEq, false_and, or_self, iff_false]
    split <;> exact fun hp => by cases hp
  · simp only [hprivate, ↓reduceIte]
    cases hgroup : hiveGroupNameFromScope scope with
    | some name =>
      have hhive : scope ≠ "hive" := by
        intro hscope
        rw [hscope] at hgroup
        cases hgroup
      have hdomain : scope ≠ "domain" := by
        intro hscope
        rw [hscope] at hgroup
        cases hgroup
      simp only [hhive, hdomain, false_and, or_self, or_false, Option.some.injEq]
      split
      · rename_i hmember
        simp only [Propagation.propagated.injEq]
        constructor
        · intro hname
          rw [← hname]
          exact ⟨rfl, hmember⟩
        · exact fun hname => hname.1
      · rename_i hmember
        simp only [reduceCtorEq, false_iff, not_and]
        intro hname
        rw [← hname]
        exact hmember
    | none =>
      simp only [reduceCtorEq, false_and, false_or]
      split
      · rename_i hscope
        have hdomain : ("hive" = "domain") = False := by decide +kernel
        simp only [hscope, hdomain, Propagation.propagated.injEq, true_and, false_and, or_false]
        exact eq_comm
      · rename_i hhive
        split
        · rename_i hscope
          simp only [hscope, Propagation.propagated.injEq, true_and]
          rw [← hscope]
          simp only [hhive, false_and, false_or]
          exact eq_comm
        · rename_i hdomain
          simp only [hhive, hdomain, false_and, or_self, iff_false]
          split <;> exact fun hp => by cases hp

theorem propagateToHive_ns {a : HiveSave} (ha : propagateToHive w h e = some a) :
    propagate w h e.agentScope e.tier.text = .propagated a.ns ∧ a.key = e.key ∧
      a.conflictPolicy = .supersede := by
  simp only [propagateToHive] at ha
  split at ha
  · rename_i ns hns
    cases ha
    exact ⟨hns, rfl, rfl⟩
  · cases ha

theorem propagateToHive_propagated {ns : String}
    (hns : propagate w h e.agentScope e.tier.text = .propagated ns) :
    ∃ a, propagateToHive w h e = some a ∧ a.ns = ns := by
  simp only [propagateToHive, hns, Option.some.injEq, exists_eq_left']

theorem mem_propagateGroupSave {a : HiveSave} :
    a ∈ propagateGroupSave w e agentScope ↔
      agentScope = "group" ∧ ∃ name ∈ w.groups, a = copyInto name e e.tags := by
  simp only [propagateGroupSave]
  split
  · rename_i hscope
    simp only [List.mem_map, hscope, true_and, eq_comm]
  · rename_i hscope
    simp only [List.not_mem_nil, hscope, false_and]

theorem publishToExperts_ns {a : HiveSave}
    (ha : publishToExperts w e agentScope tier autoPublish = some a) :
    a = copyInto "universal" e (e.tags ++ w.expertDomains.map ("expert:" ++ ·)) := by
  simp only [publishToExperts] at ha
  split at ha
  · cases ha
    rfl
  · cases ha

theorem mem_fanOutWrites {a : HiveSave} :
    a ∈ fanOutWrites w h e agentScope tier autoPublish ↔
      propagateToHive w h e = some a ∨ a ∈ propagateGroupSave w e agentScope ∨
        publishToExperts w e agentScope tier autoPublish = some a := by
  simp only [fanOutWrites, List.mem_append, Option.mem_toList, or_assoc]

/-- Every copy a save writes is one of the saved key, and supersedes what is there. -/
theorem fanOutWrites_copy {a : HiveSave}
    (ha : a ∈ fanOutWrites w h e agentScope tier autoPublish) :
    a.key = e.key ∧ a.conflictPolicy = .supersede := by
  obtain hengine | hgroup | hexpert := mem_fanOutWrites.mp ha
  · exact (propagateToHive_ns hengine).2
  · obtain ⟨-, name, -, rfl⟩ := mem_propagateGroupSave.mp hgroup
    exact ⟨rfl, rfl⟩
  · rw [publishToExperts_ns hexpert]
    exact ⟨rfl, rfl⟩

theorem registered_profile (hname : w.agentProfile ≠ "") : registered w h w.agentProfile = true := by
  simp only [registered, SharedWorld.forgetProfile, hname, ↓reduceIte, decide_true, Bool.or_true,
    Bool.true_or]

theorem registered_universal : registered w h "universal" = true := by
  simp only [registered, decide_true, Bool.true_or]

/-- The forget goes through every namespace a save writes to exactly when the save's groups and
profile are known to it. -/
theorem fanOutWrites_reaped :
    (∀ a ∈ fanOutWrites w h e agentScope tier autoPublish, a.ns ∈ reapNamespaces w h) ↔
      sharesKnown w h e agentScope = true := by
  simp only [mem_reapNamespaces, sharesKnown, Bool.and_eq_true, Bool.or_eq_true, ne_eq,
    decide_not, Bool.not_eq_true', decide_eq_false_iff_not, List.all_eq_true,
    Option.all_eq_true, and_assoc]
  constructor
  · intro hall
    have hengine (ns : String) (hns : propagate w h e.agentScope e.tier.text = .propagated ns) :
        registered w h ns = true := by
      obtain ⟨a, ha, rfl⟩ := propagateToHive_propagated hns
      exact hall a (mem_fanOutWrites.mpr (.inl ha))
    constructor
    · by_cases hscope : agentScope = "group"
      · right
        intro name hname
        apply hall (copyInto name e e.tags)
        exact mem_fanOutWrites.mpr (.inr (.inl (mem_propagateGroupSave.mpr
          ⟨hscope, name, hname, rfl⟩)))
      · exact .inl hscope
    constructor
    · intro name hname
      by_cases hmember : h.agentIsGroupMember name w.hiveAgentId = true
      · exact .inr (hengine name (propagate_propagated.mpr (.inl ⟨hname, hmember⟩)))
      · exact .inl (Bool.eq_false_iff.mpr hmember)
    · by_cases hscope : applyHiveProfileScopeRules w e.agentScope e.tier.text = "domain"
      · by_cases hname : w.agentProfile = ""
        · right
          rw [← hname]
          exact hengine _ (propagate_propagated.mpr (.inr (.inr ⟨hscope, rfl⟩)))
        · exact .inl (.inr hname)
      · exact .inl (.inl hscope)
  · intro hknown a ha
    obtain ⟨hdeclared, hnamed, hdomain⟩ := hknown
    obtain hengine | hgroup | hexpert := mem_fanOutWrites.mp ha
    · obtain hname | hhive | hdom := propagate_propagated.mp (propagateToHive_ns hengine).1
      · cases hnamed a.ns hname.1 with
        | inl hstranger =>
          rw [hname.2] at hstranger
          cases hstranger
        | inr hregistered => exact hregistered
      · rw [hhive.2]
        exact registered_universal
      · rw [hdom.2]
        by_cases hempty : w.agentProfile = ""
        · rw [hempty]
          obtain (hscope | hname) | hregistered := hdomain
          · exact absurd hdom.1 hscope
          · exact absurd hempty hname
          · exact hregistered
        · exact registered_profile hempty
    · obtain ⟨hscope, name, hname, rfl⟩ := mem_propagateGroupSave.mp hgroup
      cases hdeclared with
      | inl hother => exact absurd hscope hother
      | inr hall => exact hall name hname
    · rw [publishToExperts_ns hexpert]
      exact registered_universal

/-- What can happen to a shared store: a save through it, and, by other parties of the Hive, a save
under the default policy or an archive. -/
inductive SharedOp where
  | save (a : SaveArgs) (autoPublish : Bool)
  | saveElsewhere (a : HiveSave)
  | archiveElsewhere (ns key : String)

def sharedStep (w : SharedWorld) : SharedOp → SharedStore → SharedStore
  | .save a autoPublish, s => (saveShared w a autoPublish).final s
  | .saveElsewhere a, s =>
    { s with hive := s.hive.save w.hiveClock { a with conflictPolicy := .supersede } }
  | .archiveElsewhere ns key, s =>
    { s with hive := (s.hive.archiveEntry w.hiveClock ns key).2 }

/-- The groups and the profile a save of the run fans out to are known to the forget. -/
def knownStep (w : SharedWorld) : SharedOp → SharedStore → Bool
  | .save a _, s =>
    match (saveEntry w.toWorld a).result s.store with
    | .ok (.ok (e, p)) => sharesKnown w s.hive e p.agentScope
    | _ => true
  | _, _ => true

/-- What a run keeps: one live version of a key in a namespace, and no copy where the forget does
not look. -/
structure Reapable (w : SharedWorld) (members : List GroupMember) (s : SharedStore) : Prop where
  versioned : s.hive.Versioned
  members : s.hive.members = members
  copies : ∀ copy ∈ s.copies, registered w s.hive copy.1 = true

theorem registered_members {h' : HiveStore} (hsame : h'.members = h.members) (ns : String) :
    registered w h' ns = registered w h ns := by
  simp only [registered, hsame]

theorem saveAll_versioned (clock : Nat → Stamp) (writes : List HiveSave) (hv : h.Versioned)
    (hw : ∀ a ∈ writes, a.conflictPolicy = .supersede) :
    (saveAll clock writes h).Versioned ∧ (saveAll clock writes h).members = h.members := by
  induction writes generalizing h with
  | nil => exact ⟨hv, rfl⟩
  | cons a rest ih =>
    have hfirst : (h.save clock a).Versioned := hv.save (hw a List.mem_cons_self)
    have hrest := ih hfirst (fun b hb => hw b (List.mem_cons_of_mem a hb))
    exact ⟨hrest.1, hrest.2⟩

/-- A save changes the Hive through its fan-out only. -/
theorem saveShared_hive (w : SharedWorld) (a : SaveArgs) (autoPublish : Bool) (s : SharedStore) :
    let s' := (saveShared w a autoPublish).final s
    match (saveEntry w.toWorld a).result s.store with
    | .ok (.ok (e, p)) =>
      let writes := fanOutWrites w s.hive e p.agentScope p.tier autoPublish
      s'.hive = saveAll w.hiveClock writes s.hive ∧
        s'.copies = s.copies ++ writes.map (fun a => (a.ns, a.key))
    | _ => s'.hive = s.hive ∧ s'.copies = s.copies := by
  simp only [saveShared, Prog.final, Prog.result, Prog.bind_run, inStore]
  rcases saveEntry w.toWorld a s.store with ⟨_ | _ | ⟨e, p⟩, store⟩
  · exact ⟨rfl, rfl⟩
  · exact ⟨rfl, rfl⟩
  · simp only [Prog.bind_run, fanOut, Prog.modify_run, inStore]
    rcases afterFanOut w.toWorld a e store with ⟨_ | _, store'⟩ <;> exact ⟨rfl, rfl⟩

theorem Reapable.step {members : List GroupMember} {op : SharedOp} {s : SharedStore}
    (hs : Reapable w members s) (hok : knownStep w op s = true) :
    Reapable w members (sharedStep w op s) := by
  cases op with
  | saveElsewhere a => exact ⟨hs.versioned.save rfl, hs.members, hs.copies⟩
  | archiveElsewhere ns key =>
    exact ⟨hs.versioned.archiveEntry w.hiveClock ns key, hs.members, hs.copies⟩
  | save a autoPublish =>
    have hsave := saveShared_hive w a autoPublish s
    simp only [knownStep] at hok
    simp only [sharedStep]
    split at hsave
    · rename_i e p hentry
      obtain ⟨hhive, hcopies⟩ := hsave
      simp only [hentry] at hok
      have hwrites := saveAll_versioned w.hiveClock
        (fanOutWrites w s.hive e p.agentScope p.tier autoPublish) hs.versioned
        (fun a ha => (fanOutWrites_copy ha).2)
      constructor
      · rw [hhive]
        exact hwrites.1
      · rw [hhive, hwrites.2]
        exact hs.members
      · intro copy hcopy
        rw [hhive, registered_members hwrites.2]
        rw [hcopies, List.mem_append] at hcopy
        cases hcopy with
        | inl hold => exact hs.copies copy hold
        | inr hnew =>
          obtain ⟨a, ha, rfl⟩ := List.mem_map.mp hnew
          exact mem_reapNamespaces.mp (fanOutWrites_reaped.mpr hok a ha)
    · obtain ⟨hhive, hcopies⟩ := hsave
      constructor
      · rw [hhive]
        exact hs.versioned
      · rw [hhive]
        exact hs.members
      · rw [hhive, hcopies]
        exact hs.copies

theorem archiveEntry_elsewhere_dead {clock : Nat → Stamp} {ns ns' key : String} (hv : h.Versioned)
    (hdead : ∀ row ∈ h.memories.values, row.ns = ns → row.key.logical = key → row.live = false) :
    ∀ row ∈ (h.archiveEntry clock ns' key).2.memories.values,
      row.ns = ns → row.key.logical = key → row.live = false := by
  intro row hrow hns hkey
  by_cases hid : ns = ns'
  · rw [hid] at hns
    exact archiveMemory_dead (hv ns' key) hrow hns hkey
  · apply hdead row _ hns hkey
    rw [Table.mem_iff_get?] at hrow ⊢
    rwa [HiveStore.archiveEntry, archiveMemory_elsewhere (hv ns' key)] at hrow
    intro hplace
    apply hid
    rw [← hns]
    exact hplace.1

/-- After the archive loop no row of the key is live in any namespace it went through. -/
theorem reapEach_dead {clock : Nat → Stamp} {key : String} {namespaces : List String}
    (hv : h.Versioned) {done : List String}
    (hdone : ∀ ns ∈ done, ∀ row ∈ h.memories.values,
      row.ns = ns → row.key.logical = key → row.live = false) :
    ∀ ns, ns ∈ done ∨ ns ∈ namespaces → ∀ row ∈ (reapEach clock key namespaces h).2.memories.values,
      row.ns = ns → row.key.logical = key → row.live = false := by
  induction namespaces generalizing h done with
  | nil =>
    intro ns hns
    exact hdone ns (hns.resolve_right List.not_mem_nil)
  | cons first rest ih =>
    intro ns hns
    apply @ih (h.archiveEntry clock first key).2 (hv.archiveEntry clock first key) (first :: done)
    · intro ns' hns' row hrow
      cases List.mem_cons.mp hns' with
      | inl hfirst =>
        rw [hfirst]
        exact fun hplace hkey => archiveMemory_dead (hv first key) hrow hplace hkey
      | inr hold => exact archiveEntry_elsewhere_dead hv (hdone ns' hold) row hrow
    · rw [List.mem_cons] at hns ⊢
      obtain hold | hfirst | hrest := hns
      · exact .inl (.inr hold)
      · exact .inl (.inl hfirst)
      · exact .inr hrest

/-- A forget that finds the key leaves no live copy of it where it looks. -/
theorem brainForget_dead {key : String} {s s' : SharedStore} {reap : HiveReap}
    (hv : s.hive.Versioned) (hrun : brainForget w key s = (.ok (.forgotten reap), s')) {ns : String}
    (hns : registered w s.hive ns = true) :
    ∀ row ∈ s'.hive.memories.values, row.ns = ns → row.key.logical = key → row.live = false := by
  simp only [brainForget] at hrun
  obtain ⟨found, s₁, hget, hrun⟩ := Prog.bind_ok hrun
  cases found with
  | none => cases hrun
  | some e =>
    obtain ⟨_, s₂, harchive, hrun⟩ := Prog.bind_ok hrun
    obtain ⟨_, s₃, hdelete, hrun⟩ := Prog.bind_ok hrun
    obtain ⟨_, s₄, hreap, hrun⟩ := Prog.bind_ok hrun
    have h₁ : s₁.hive = s.hive := congrArg (fun r => r.2.hive) hget.symm
    have h₂ : s₂.hive = s₁.hive := congrArg (fun r => r.2.hive) harchive.symm
    have h₃ : s₃.hive = s₂.hive := congrArg (fun r => r.2.hive) hdelete.symm
    have h₄ : s₄.hive = (reapEach w.hiveClock key (reapNamespaces w s₃.hive) s₃.hive).2 :=
      congrArg (fun r => r.2.hive) hreap.symm
    cases hrun
    rw [h₄, h₃, h₂, h₁]
    have hnone : ∀ ns ∈ ([] : List String), ∀ row ∈ s.hive.memories.values,
        row.ns = ns → row.key.logical = key → row.live = false := by
      intro ns hns
      cases hns
    exact reapEach_dead hv hnone ns (.inr (mem_reapNamespaces.mpr hns))

/-- A search answers with live rows only. -/
theorem search_live {index : SearchIndex} {query : String} {namespaces : List String}
    {minConfidence : ℚ} {limit : Nat} {row : HiveRow}
    (hrow : row ∈ h.search index query namespaces minConfidence limit) :
    row ∈ h.memories.values ∧ row.live = true := by
  have hhit := List.mem_mergeSort.mp (List.mem_of_mem_take hrow)
  simp only [List.mem_filter, Bool.and_eq_true] at hhit
  exact ⟨hhit.1, hhit.2.2⟩

/-- No row of the key in the namespace is live, and no search returns one. -/
def Forgotten (h : HiveStore) (ns key : String) : Prop :=
  (∀ row ∈ h.memories.values, row.ns = ns → row.key.logical = key → row.live = false) ∧
    ∀ index query namespaces minConfidence limit,
      ∀ row ∈ h.search index query namespaces minConfidence limit,
        ¬(row.ns = ns ∧ row.key.logical = key)

/-- A store without a row in the Hive yet, under any registry. -/
def unshared (store : Store) (members : List GroupMember) : SharedStore where
  store := store
  hive := { members := members }

/-- The forget looks wherever a save of known groups and profile writes, and only such a save is
safe; after any run of such saves, a forget that finds the key leaves none of its copies live. -/
theorem copies_reaped (w : SharedWorld) :
    (∀ h e agentScope tier autoPublish,
      (∀ a ∈ fanOutWrites w h e agentScope tier autoPublish, a.ns ∈ reapNamespaces w h) ↔
        sharesKnown w h e agentScope = true) ∧
    ∀ (store : Store) (members : List GroupMember) (run : List SharedOp),
      Allowed (sharedStep w) (knownStep w) run (unshared store members) →
      let s := runSteps (sharedStep w) run (unshared store members)
      ∀ key reap s', brainForget w key s = (.ok (.forgotten reap), s') →
        ∀ ns, (ns, key) ∈ s.copies → Forgotten s'.hive ns key := by
  constructor
  · intro h e agentScope tier autoPublish
    exact fanOutWrites_reaped
  · intro store members run hallowed s key reap s' hrun ns hcopy
    have hstart : Reapable w members (unshared store members) := by
      constructor
      · exact HiveStore.Versioned.empty rfl
      · rfl
      · intro copy hcopy
        cases hcopy
    have hs : Reapable w members s := hallowed.keeps (fun _ _ hs hok => hs.step hok) hstart
    have hdead := brainForget_dead hs.versioned hrun (hs.copies _ hcopy)
    apply And.intro hdead
    intro index query namespaces minConfidence limit row hrow hplace
    have hlive := search_live hrow
    rw [hdead row hlive.1 hplace.1 hplace.2] at hlive
    cases hlive.2

/-- An agent whose store declares the group `team`. -/
def teamWorld : SharedWorld where
  toWorld := { Config.plain.calm with groups := ["team"] }
  hiveAgentId := "coder"
  projectId := "app"
  hiveClock := fun n => 5000 + n

def teamTip : SaveArgs := { key := "tip", value := "build with make", agentScope := "group" }

def sharedTip (members : List GroupMember) : SharedStore :=
  runSteps (sharedStep teamWorld) [.save teamTip true] (unshared {} members)

theorem copies_reaped_registered :
    Forgotten ((brainForget teamWorld "tip").final
      (sharedTip [⟨"team", "coder", "app"⟩])).hive "team" "tip" :=
  (copies_reaped teamWorld).2 {} [⟨"team", "coder", "app"⟩] [.save teamTip true]
    (by decide +kernel) "tip" .archived _
    (Prod.ext (by decide +kernel) rfl) "team" (by decide +kernel)

/-- The group is declared, but the registry does not have the agent in it. -/
theorem copies_outlive_forget :
    ¬ ∀ (w : SharedWorld) (members : List GroupMember) (a : SaveArgs) (autoPublish : Bool),
      let s := runSteps (sharedStep w) [.save a autoPublish] (unshared {} members)
      ∀ reap s', brainForget w a.key s = (.ok (.forgotten reap), s') →
        ∀ ns, (ns, a.key) ∈ s.copies → Forgotten s'.hive ns a.key := by
  intro hall
  have hforgotten := (hall teamWorld [] teamTip true .absent
    ((brainForget teamWorld "tip").final (sharedTip [])) (Prod.ext (by decide +kernel) rfl)
    "team" (by decide +kernel)).1
  revert hforgotten
  decide +kernel

end TappsBrain
