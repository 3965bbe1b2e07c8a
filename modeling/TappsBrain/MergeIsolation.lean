import Mathlib.Data.List.DropRight
import TappsBrain.Lines
import TappsBrain.Merging
import TappsBrain.SaveDiscipline

namespace TappsBrain
open Lib
set_option autoImplicit true
set_option relaxedAutoImplicit false
-- Unfolding `Keeps` would run the program it speaks of.
attribute [local irreducible] Keeps

/-- The fields that keep entries of different branches, missions and groups apart. -/
structure Isolation where
  scope : MemoryScope
  branch : Option String
  missionId : Option String
  memoryGroup : Option String
deriving DecidableEq

def MemoryEntry.isolation (e : MemoryEntry) : Isolation :=
  ⟨e.scope, e.branch, e.missionId, e.memoryGroup⟩

/-- The row that the save of a merge writes, when it comes to that. -/
def mergedRow (w : World) (plan : MergePlan) (s : Store) : Option MemoryEntry :=
  match prepareSave w plan.consolidated.saveArgs s with
  | (.ok (.ok p), t) =>
    ((storePrepared w (fun _ => pure ())
      (inferredArgs w.toConfig plan.consolidated.saveArgs) p).result t).toOption
  | _ => none

section Normal

/-- A normalised group stays as it is. -/
theorem normalizeGroupField_idem {g g' : Option String} (h : normalizeGroupField g = .ok g') :
    normalizeGroupField g' = .ok g' := by
  cases g with
  | none =>
    cases h
    rfl
  | some raw =>
    rw [normalizeGroupField, normalizeMemoryGroup] at h
    split at h
    · cases h
      rfl
    · split at h
      · cases h
      · split at h
        · cases h
        · next hne hlen hctl =>
          cases h
          rw [normalizeGroupField, normalizeMemoryGroup, strip_strip]
          rw [if_neg hne, if_neg hlen, if_neg hctl]

end Normal
section Written
variable {w : World}

theorem validateScopeAndGroup_group {c : Config} {agentScope scope : String} {g : Option String}
    {mgExplicit : Option (Option String)}
    (h : validateScopeAndGroup c agentScope (some g) = .ok (scope, mgExplicit)) :
    ∃ g', mgExplicit = some g' ∧ normalizeGroupField g = .ok g' := by
  rw [validateScopeAndGroup] at h
  split at h
  · cases h
  · dsimp only at h
    split at h
    · cases h
    · cases g with
      | none =>
        cases h
        exact ⟨none, rfl, rfl⟩
      | some raw =>
        dsimp only at h
        split at h
        · cases h
        · next g' hg =>
          cases h
          exact ⟨g', rfl, hg⟩

/-- The preparation settles the group that the arguments name. -/
theorem prepareSave_group (a : SaveArgs) {g : Option String} (ha : a.memoryGroup = some g) :
    Keeps (fun _ => True) (prepareSave w a)
      (fun r => ∀ p, r = .ok p → ∃ g', p.mgExplicit = some g' ∧ normalizeGroupField g = .ok g') := by
  have hcheck : Keeps (fun _ => True) (checkSave w a) (fun r => ∀ value agentScope mgExplicit,
      r = .ok (value, agentScope, mgExplicit) →
        ∃ g', mgExplicit = some g' ∧ normalizeGroupField g = .ok g') := by
    rw [checkSave, ha]
    split
    · exact Keeps.pure (fun _ _ _ h => nomatch h)
    · next agentScope mgExplicit hv =>
      split
      · exact Keeps.pure (fun _ _ _ h => nomatch h)
      · apply Keeps.constant.bind
        intro _ _
        split
        · exact Keeps.pure (fun _ _ _ h => nomatch h)
        · apply Keeps.pure
          intro value agentScope' mgExplicit' h
          cases h
          exact validateScopeAndGroup_group hv
  have hunder : ∀ value agentScope mgExplicit updateKey,
      (∃ g', mgExplicit = some g' ∧ normalizeGroupField g = .ok g') →
      Keeps (fun _ => True) (prepareUnder w a value agentScope mgExplicit updateKey)
        (fun r => ∀ p, r = .ok p → ∃ g', p.mgExplicit = some g' ∧ normalizeGroupField g = .ok g') := by
    intro value agentScope mgExplicit updateKey hg
    apply Keeps.constant.bind
    intro r _
    cases r with
    | error short => exact Keeps.pure (fun _ hp => nomatch hp)
    | ok o =>
      apply Keeps.pure
      intro p hp
      cases hp
      exact hg
  apply hcheck.bind
  intro r hr
  cases r with
  | error short => exact Keeps.pure (fun _ hp => nomatch hp)
  | ok checked =>
    obtain ⟨value, agentScope, mgExplicit⟩ := checked
    have hg := hr value agentScope mgExplicit rfl
    apply Keeps.constant.bind
    intro outcome _
    cases outcome with
    | stop short => exact Keeps.pure (fun _ hp => nomatch hp)
    | proceed => exact hunder value agentScope mgExplicit none hg
    | update target => exact hunder value agentScope mgExplicit (some target) hg

theorem constructMemoryEntry_isolation {c : Config} {a : SaveArgs} {tierVal : Tier}
    {g : Option String} {existing : Option MemoryEntry} {now : Stamp} {e : MemoryEntry}
    (h : constructMemoryEntry c a tierVal g existing now = .ok e)
    (hg : normalizeGroupField g = .ok g) :
    MemoryScope.ofText a.scope = some e.scope ∧ e.branch = a.branch ∧ e.missionId = a.missionId ∧
      e.memoryGroup = g := by
  rw [constructMemoryEntry] at h
  split at h
  · cases h
  · split at h
    · cases h
    · cases h
    · next hscope =>
      split at h
      · cases h
      · next he =>
        cases h
        rw [(validate_ok he).2]
        refine ⟨hscope, rfl, rfl, ?_⟩
        change (normalizeGroupField g).toOption.getD g = g
        rw [hg]
        rfl

/-- The row a save builds has the scope, the branch, the mission and the group it was given. -/
theorem storePrepared_isolation {a : SaveArgs} {p : SavePrep} {g : Option String}
    {consolidate : MemoryEntry → StoreM Unit} (hp : p.mgExplicit = some g)
    (hg : normalizeGroupField g = .ok g) :
    Keeps (fun _ => True) (storePrepared w consolidate a p) (fun e =>
      MemoryScope.ofText a.scope = some e.scope ∧ e.branch = a.branch ∧ e.missionId = a.missionId ∧
        e.memoryGroup = g) := by
  have hbuild : Keeps (fun _ => True) (buildEntry w (preparedArgs a p) p.mgExplicit) (fun r =>
      MemoryScope.ofText a.scope = some r.1.scope ∧ r.1.branch = a.branch ∧
        r.1.missionId = a.missionId ∧ r.1.memoryGroup = g) := by
    apply Keeps.constant.bind
    intro existing _
    apply Keeps.constant.bind
    intro tierVal _
    apply Keeps.constant.bind
    intro now _
    rw [hp]
    apply (Keeps.ofExcept (fun e he => constructMemoryEntry_isolation he hg)).bind
    exact fun e he => Keeps.pure he
  have hassign : Keeps (fun _ => True) (buildAndAssignEntry w (preparedArgs a p) p.mgExplicit)
      (fun r => MemoryScope.ofText a.scope = some r.1.scope ∧ r.1.branch = a.branch ∧
        r.1.missionId = a.missionId ∧ r.1.memoryGroup = g) := by
    apply hbuild.bind
    intro r hr
    apply Keeps.constant.bind
    intro _ _
    exact Keeps.constant.bind (fun _ _ => Keeps.pure hr)
  apply hassign.bind
  intro r hr
  apply Keeps.constant.bind
  intro _ _
  exact Keeps.constant.bind (fun _ _ => Keeps.pure hr)

end Written

theorem MemoryScope.ofText_text (scope : MemoryScope) : MemoryScope.ofText scope.text = some scope := by
  cases scope <;> decide

theorem mergedRow_run {w : World} {plan : MergePlan} {s : Store} {e : MemoryEntry}
    (h : mergedRow w plan s = some e) : ∃ p t u,
      prepareSave w plan.consolidated.saveArgs s = (.ok (.ok p), t) ∧
      storePrepared w (fun _ => pure ()) (inferredArgs w.toConfig plan.consolidated.saveArgs) p t =
        (.ok e, u) := by
  rw [mergedRow] at h
  split at h
  · next p t hprepare =>
    rcases hrun : storePrepared w (fun _ => pure ())
      (inferredArgs w.toConfig plan.consolidated.saveArgs) p t with ⟨err | row, u⟩
    · rw [Prog.result, hrun] at h
      cases h
    · rw [Prog.result, hrun] at h
      cases h
      exact ⟨p, t, u, hprepare, hrun⟩
  · cases h

/-- The merged row has the scope and the group of a source, and neither branch nor mission. -/
theorem mergedRow_isolation {w : World} {plan : MergePlan} {s : Store} {e newest : MemoryEntry}
    (h : mergedRow w plan s = some e) (hscope : plan.consolidated.scope = newest.scope.text)
    (hgroup : plan.consolidated.memoryGroup = newest.memoryGroup) :
    e.scope = newest.scope ∧ e.branch = none ∧ e.missionId = none ∧
      normalizeGroupField newest.memoryGroup = .ok e.memoryGroup := by
  obtain ⟨p, t, u, hprepare, hstore⟩ := mergedRow_run h
  have hsettled := (prepareSave_group (w := w) plan.consolidated.saveArgs rfl).returns.ok trivial
    hprepare
  obtain ⟨g, hp, hg⟩ := hsettled.2 p rfl
  have hrow := (storePrepared_isolation (w := w) hp (normalizeGroupField_idem hg)).returns.ok trivial
    hstore
  obtain ⟨_, htext, hbranch, hmission, hrowgroup⟩ := hrow
  refine ⟨?_, hbranch, hmission, ?_⟩
  · change MemoryScope.ofText plan.consolidated.scope = some e.scope at htext
    rw [hscope, MemoryScope.ofText_text] at htext
    exact (Option.some.inj htext).symm
  · rw [← hgroup, hrowgroup]
    exact hg

/-- A merge stays within one scope, branch, mission and group just when its sources have one scope
in common, neither branch nor mission, and a group in normal form. -/
theorem merge_isolates_iff {m : Merging} {w : World} {plan : MergePlan} {s : Store} {e : MemoryEntry}
    (hplan : m.Plans w.unicode plan) (h : mergedRow w plan s = some e) :
    (∀ snap ∈ plan.sources, snap.isolation = e.isolation) ↔
      (∀ a ∈ plan.sources, ∀ b ∈ plan.sources, a.scope = b.scope) ∧
        ∀ snap ∈ plan.sources, snap.branch = none ∧ snap.missionId = none ∧
          normalizeGroupField snap.memoryGroup = .ok snap.memoryGroup := by
  obtain ⟨newest, hnewest, hscope, hgroup, hgroups⟩ := hplan.newest
  obtain ⟨hs, hb, hm, hg⟩ := mergedRow_isolation h hscope hgroup
  constructor
  · intro hsame
    constructor
    · intro a ha b hb
      exact (congrArg Isolation.scope (hsame a ha)).trans (congrArg Isolation.scope (hsame b hb)).symm
    · intro snap hsnap
      have hiso := hsame snap hsnap
      refine ⟨(congrArg Isolation.branch hiso).trans hb, (congrArg Isolation.missionId hiso).trans hm, ?_⟩
      have hsnapgroup : snap.memoryGroup = e.memoryGroup := congrArg Isolation.memoryGroup hiso
      rw [hsnapgroup]
      exact normalizeGroupField_idem hg
  · rintro ⟨hscopes, hnone⟩ snap hsnap
    obtain ⟨hsb, hsm, _⟩ := hnone snap hsnap
    have hnormal := (hnone newest hnewest).2.2
    have hrow : newest.memoryGroup = e.memoryGroup := Except.ok.inj (hnormal.symm.trans hg)
    rw [MemoryEntry.isolation, MemoryEntry.isolation, hscopes snap hsnap newest hnewest, ← hs, hsb,
      hb, hsm, hm, hgroups snap hsnap, hrow]

/-- Entries that all resemble one another. -/
def sampleMerging : Merging where
  combinedScore := fun _ _ => 1
  consolidatedKey := fun _ => "token-merged"
  mergeValues := fun entries => " ".intercalate (entries.map (·.value))
  weightedConfidence := fun _ => 1 / 2

/-- A note of the project saved after two notes of a branch, or of the project as well. -/
def tokenNotes (branch : Option String) : Store :=
  let scope := if branch.isSome then "branch" else "project"
  let w := Config.plain.calm
  let s := (save w { key := "token-a", value := "the token rotates nightly", scope, branch }).final {}
  let s := (save w { key := "token-b", value := "the token lives in a vault", scope, branch }).final s
  (save w { key := "token-c", value := "tokens rotate" }).final s

def tokenPlan (s : Store) : Option MergePlan :=
  (s.entries.get? "token-c").bind (fun e =>
    planOnSave .lowercase sampleMerging e (s.entries.values.filter (fun c => c.key ≠ e.key)))

theorem tokenPlan_plans {s : Store} {plan : MergePlan} (h : tokenPlan s = some plan) :
    sampleMerging.Plans Config.plain.calm.unicode plan := by
  obtain ⟨e, _, hplan⟩ := Option.bind_eq_some_iff.1 h
  exact .inl ⟨e, _, hplan⟩

theorem merge_isolates_project : ∃ plan e, tokenPlan (tokenNotes none) = some plan ∧
    mergedRow Config.plain.calm plan (tokenNotes none) = some e ∧
      ∀ snap ∈ plan.sources, snap.isolation = e.isolation := by
  have hmerged : ((tokenPlan (tokenNotes none)).bind
      (fun plan => mergedRow Config.plain.calm plan (tokenNotes none))).isSome = true := by
    decide +kernel
  obtain ⟨e, he⟩ := Option.isSome_iff_exists.1 hmerged
  obtain ⟨plan, hplan, hrow⟩ := Option.bind_eq_some_iff.1 he
  have hsources : plan.sources.all (fun a => a.scope = .project && a.branch = none &&
      a.missionId = none && a.memoryGroup = none) = true := by
    have hall : (tokenPlan (tokenNotes none)).all (fun plan => plan.sources.all (fun a =>
        a.scope = .project && a.branch = none && a.missionId = none && a.memoryGroup = none)) = true := by
      decide +kernel
    rw [hplan] at hall
    exact hall
  simp only [List.all_eq_true, Bool.and_eq_true, decide_eq_true_eq] at hsources
  refine ⟨plan, e, hplan, hrow, (merge_isolates_iff (tokenPlan_plans hplan) hrow).2 ⟨?_, ?_⟩⟩
  · exact fun a ha b hb => (hsources a ha).1.1.1.trans (hsources b hb).1.1.1.symm
  · intro snap hsnap
    obtain ⟨⟨⟨_, hb⟩, hm⟩, hg⟩ := hsources snap hsnap
    refine ⟨hb, hm, ?_⟩
    rw [hg]
    rfl

/-- Text of a branch ends up in a row of the whole project. -/
theorem branch_text_joins_project :
    ¬ ∀ (m : Merging) (w : World) (plan : MergePlan) (s : Store) (e : MemoryEntry),
      m.Plans w.unicode plan → mergedRow w plan s = some e →
        ∀ snap ∈ plan.sources, snap.isolation = e.isolation := by
  intro h
  have hmerged : (tokenPlan (tokenNotes (some "feature-x"))).all (fun plan =>
      (mergedRow Config.plain.calm plan (tokenNotes (some "feature-x"))).any (fun e =>
        plan.sources.any (fun snap => snap.isolation ≠ e.isolation))) = true := by
    decide +kernel
  have hsome : (tokenPlan (tokenNotes (some "feature-x"))).isSome = true := by decide +kernel
  obtain ⟨plan, hplan⟩ := Option.isSome_iff_exists.1 hsome
  rw [hplan, Option.all_some, Option.any_eq_true] at hmerged
  obtain ⟨e, he, hany⟩ := hmerged
  obtain ⟨snap, hsnap, hne⟩ := List.any_eq_true.1 hany
  exact of_decide_eq_true hne (h _ _ plan _ e (tokenPlan_plans hplan) he snap hsnap)

end TappsBrain
