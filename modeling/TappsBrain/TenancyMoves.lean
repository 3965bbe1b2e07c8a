import TappsBrain.Lib.Prog
import TappsBrain.TenancyApply

namespace TappsBrain
open Lib
set_option autoImplicit true
set_option relaxedAutoImplicit false

section Groups
variable {ρ : Type} [TenantRow ρ]

/-- The move a classification asks for. -/
def moveOf (id : Identity) (c : Classification) : Option Rehome :=
  match c.action with
  | .archive => none
  | .reHome project agent => some ⟨id.project, id.agent, project, agent, id.rowId⟩

theorem mem_group_rehomes {g : PlanGroup} {m : Rehome} :
    m ∈ g.rehomes ↔ ∃ id ∈ g.identities, moveOf id g.classification = some m := by
  cases hc : g.classification.action with
  | archive => simp [PlanGroup.rehomes, moveOf, hc]
  | reHome project agent => simp [PlanGroup.rehomes, PlanGroup.identities, moveOf, hc]

theorem identities_joinGroup (id : Identity) (c : Classification) (groups : List PlanGroup) :
    (identities (joinGroup id c groups)).Perm (id :: identities groups) := by
  induction groups with
  | nil => exact List.Perm.refl _
  | cons g rest ih =>
    simp only [joinGroup]
    split
    · next h =>
      obtain ⟨hproject, hagent, -⟩ := h
      simp only [identities, List.flatMap_cons, PlanGroup.identities, List.map_append,
        List.map_singleton, List.append_assoc, List.singleton_append, hproject, hagent]
      exact List.perm_middle
    · have hrest := ih.append_left g.identities
      exact hrest.trans List.perm_middle

theorem mem_rehomes_joinGroup {id : Identity} {c : Classification} {groups : List PlanGroup}
    {m : Rehome} :
    m ∈ rehomes (joinGroup id c groups) ↔ m ∈ rehomes groups ∨ moveOf id c = some m := by
  induction groups with
  | nil => simp [joinGroup, rehomes, mem_group_rehomes, PlanGroup.identities]
  | cons g rest ih =>
    simp only [joinGroup]
    split
    · next h =>
      obtain ⟨hproject, hagent, rfl⟩ := h
      simp only [rehomes, List.flatMap_cons, List.mem_append, mem_group_rehomes,
        PlanGroup.identities, List.map_append, List.map_singleton, List.mem_singleton, hproject,
        hagent, or_and_right, exists_or, exists_eq_left]
      exact or_right_comm
    · change m ∈ g.rehomes ++ rehomes (joinGroup id c rest) ↔ m ∈ g.rehomes ++ rehomes rest ∨ _
      rw [List.mem_append, List.mem_append, ih, or_assoc]

/-- The groups hold what was classified, each row once. -/
theorem identities_planGroups (classified : List (ρ × Classification)) :
    (identities (planGroups classified)).Perm
      (classified.map (fun rc => TenantRow.identity rc.1)) := by
  have hfold : ∀ groups : List PlanGroup,
      (identities (classified.foldl
        (fun groups rc => joinGroup (TenantRow.identity rc.1) rc.2 groups) groups)).Perm
        (identities groups ++ classified.map (fun rc => TenantRow.identity rc.1)) := by
    induction classified with
    | nil =>
      intro groups
      rw [List.map_nil, List.append_nil]
      exact List.Perm.refl _
    | cons rc rest ih =>
      intro groups
      have hjoin := identities_joinGroup (TenantRow.identity rc.1) rc.2 groups
      exact (ih _).trans ((hjoin.append_right _).trans List.perm_middle.symm)
  exact hfold []

theorem mem_rehomes_planGroups {classified : List (ρ × Classification)} {m : Rehome} :
    m ∈ rehomes (planGroups classified) ↔
      ∃ rc ∈ classified, moveOf (TenantRow.identity rc.1) rc.2 = some m := by
  have hfold : ∀ groups : List PlanGroup,
      m ∈ rehomes (classified.foldl
        (fun groups rc => joinGroup (TenantRow.identity rc.1) rc.2 groups) groups) ↔
      m ∈ rehomes groups ∨
        ∃ rc ∈ classified, moveOf (TenantRow.identity rc.1) rc.2 = some m := by
    induction classified with
    | nil => simp
    | cons rc rest ih =>
      intro groups
      rw [List.foldl_cons, ih, mem_rehomes_joinGroup, or_assoc]
      simp only [List.mem_cons, exists_eq_or_imp]
  exact (hfold []).trans (or_iff_right (List.not_mem_nil (a := m)))

/-- The identities that re-homes leave are among those of the groups, in their order. -/
theorem old_rehomes_sublist (groups : List PlanGroup) :
    ((rehomes groups).map Rehome.old).Sublist (identities groups) := by
  induction groups with
  | nil => exact List.Sublist.refl _
  | cons g rest ih =>
    simp only [rehomes, identities, List.flatMap_cons, List.map_append]
    apply List.Sublist.append _ ih
    cases hc : g.classification.action with
    | archive => simp [PlanGroup.rehomes, hc]
    | reHome project agent =>
      simp only [PlanGroup.rehomes, hc, List.map_map, PlanGroup.identities]
      exact List.Sublist.refl _

theorem mem_population {t : TenantTable ρ} {row : ρ} :
    row ∈ population t ↔ row ∈ t.values ∧ s3Predicate (TenantRow.identity row) = true :=
  List.mem_filter

theorem mem_enumerateRows {x : DbSession} {t : TenantTable ρ} {row : ρ} :
    row ∈ enumerateRows x t ↔ row ∈ population t :=
  (List.perm_insertionSort _ _).mem_iff

/-- What the moves of a plan are to the table they were planned on. -/
structure Planned (t : TenantTable ρ) (classify : ρ → Classification) (plan : TablePlan) : Prop where
  live : plan.liveCount = livePredicateCount t
  ids : ∀ id, id ∈ identities plan.groups ↔ ∃ row ∈ population t, TenantRow.identity row = id
  moves : ∀ m, m ∈ rehomes plan.groups ↔
    ∃ row ∈ population t, moveOf (TenantRow.identity row) (classify row) = some m
  nodup : ((rehomes plan.groups).map Rehome.old).Nodup
  apart : ∀ m ∈ rehomes plan.groups, m.target ≠ m.old

theorem rehomes_apart {groups : List PlanGroup} (h : groups.find? targetsItself = none) :
    ∀ m ∈ rehomes groups, m.target ≠ m.old := by
  intro m hm heq
  obtain ⟨g, hg, hm⟩ := List.mem_flatMap.1 hm
  have hself := List.find?_eq_none.1 h g hg
  cases hc : g.classification.action with
  | archive => simp [PlanGroup.rehomes, hc] at hm
  | reHome project agent =>
    simp only [PlanGroup.rehomes, hc, List.mem_map] at hm
    obtain ⟨rowId, -, rfl⟩ := hm
    simp only [Rehome.target, Rehome.old, Identity.mk.injEq, and_true] at heq
    exact hself (by simp [targetsItself, hc, heq.1, heq.2])

theorem buildTablePlan_planned {x : DbSession} {name : String} {t : TenantTable ρ}
    {classify : ρ → Classification} {plan : TablePlan}
    (h : buildTablePlan x name t ((enumerateRows x t).map (fun row => (row, classify row))) =
      .ok plan) :
    Planned t classify plan ∧
      plan.collisions = detectCollisions x t (fun _ => none) (rehomes plan.groups) := by
  simp only [buildTablePlan] at h
  split at h
  · cases h
  · next hself =>
    cases h
    have hids := identities_planGroups ((enumerateRows x t).map (fun row => (row, classify row)))
    rw [List.map_map] at hids
    have hnodup : ((enumerateRows x t).map TenantRow.identity).Nodup := by
      have hperm := (List.perm_insertionSort (fun a b => rowBefore x a b = true) (population t)).map
        TenantRow.identity
      apply hperm.nodup_iff.2
      exact t.nodup.sublist (List.filter_sublist.map _)
    refine ⟨⟨rfl, ?_, ?_, ?_, rehomes_apart hself⟩, rfl⟩
    · intro id
      rw [hids.mem_iff, List.mem_map]
      simp only [Function.comp_apply, mem_enumerateRows]
    · intro m
      rw [mem_rehomes_planGroups]
      simp only [List.mem_map, mem_enumerateRows, exists_exists_and_eq_and]
    · exact (hids.nodup_iff.2 hnodup).sublist (old_rehomes_sublist _)

theorem moveOf_old {id : Identity} {c : Classification} {m : Rehome} (h : moveOf id c = some m) :
    m.old = id := by
  unfold moveOf at h
  split at h
  · cases h
  · cases h
    rfl

theorem Planned.old {t : TenantTable ρ} {classify : ρ → Classification} {plan : TablePlan}
    (h : Planned t classify plan) {m : Rehome} (hm : m ∈ rehomes plan.groups) :
    ∃ row ∈ population t, TenantRow.identity row = m.old := by
  obtain ⟨row, hrow, hmove⟩ := (h.moves m).1 hm
  exact ⟨row, hrow, (moveOf_old hmove).symm⟩

end Groups

section Steps
variable {ρ : Type} [TenantRow ρ] {x : DbSession} {m : Rehome} {s t : ApplyState ρ}
  {log : RehomeLog}

/-- The row of `m` at its target. -/
def land (m : Rehome) (row : ρ) : ρ := TenantRow.rehomed m.targetProject m.targetAgent row

/-- The state once the row has been moved. -/
def landed (m : Rehome) (row : ρ) (s : ApplyState ρ) : ApplyState ρ :=
  { s with
    live := (s.live.pop m.old).set (land m row)
    whence := Function.update s.whence m.target (s.whence m.old) }

/-- All that one re-home can do. -/
inductive RehomeStep (x : DbSession) (m : Rehome) (s : ApplyState ρ) :
    RehomeLog → ApplyState ρ → Prop where
  | gone : s.live.get? m.old = none → RehomeStep x m s ⟨m, .alreadyResolved, none, none⟩ s
  | source {row : ρ} : s.live.get? m.old = some row → s.live.get? m.target = none →
    RehomeStep x m s ⟨m, .source, some (s.whence m.old), none⟩ (landed m row s)
  | collision {row other : ρ} {record : CollisionRecord} : s.live.get? m.old = some row →
    s.live.get? m.target = some other →
    record = collisionRecord m (x.iso (TenantRow.timestamp row)) (x.iso (TenantRow.timestamp other)) →
    record.winner = .source →
    RehomeStep x m s ⟨m, .collision, some (s.whence m.old), some record⟩
      (landed m row (archiveAndDeleteOne m.target s))
  | existing {row other : ρ} {record : CollisionRecord} : s.live.get? m.old = some row →
    s.live.get? m.target = some other →
    record = collisionRecord m (x.iso (TenantRow.timestamp row)) (x.iso (TenantRow.timestamp other)) →
    record.winner = .existing →
    RehomeStep x m s ⟨m, .existing, some (s.whence m.old), some record⟩ s

theorem identity_land {row : ρ} (h : TenantRow.identity row = m.old) :
    TenantRow.identity (land m row) = m.target := by
  rw [land, TenantRow.identity_rehomed, h]
  rfl

/-- A move changes what is live at its two ends only. -/
theorem landed_get? {row : ρ} (hrow : TenantRow.identity row = m.old) (id : Identity) :
    (landed m row s).live.get? id =
      if id = m.target then some (land m row) else if id = m.old then none else s.live.get? id := by
  simp only [landed, Table.get?_set, identity_land hrow, Table.get?_pop, eq_comm]

theorem landed_archive_get? {row : ρ} (hrow : TenantRow.identity row = m.old) (id : Identity) :
    (landed m row (archiveAndDeleteOne m.target s)).live.get? id =
      if id = m.target then some (land m row) else if id = m.old then none else s.live.get? id := by
  rw [landed_get? hrow]
  split
  · rfl
  · next hne =>
    split
    · rfl
    · exact Table.get?_pop_ne _ (Ne.symm hne)

theorem applyOneRehome_step (hapart : m.target ≠ m.old) :
    ∃ log t, applyOneRehome x m s = .ok (log, t) ∧ RehomeStep x m s log t := by
  simp only [applyOneRehome, fetchRowTimestamp]
  cases hold : s.live.get? m.old with
  | none => exact ⟨_, _, rfl, .gone hold⟩
  | some row =>
    cases htarget : s.live.get? m.target with
    | none =>
      have hmove : moveRow m s = .ok (landed m row s) := by
        simp [moveRow, hold, htarget, landed, land]
      simp only [Option.map_some, Option.map_none, hmove]
      exact ⟨_, _, rfl, .source hold htarget⟩
    | some other =>
      simp only [Option.map_some]
      split
      · next hwinner =>
        have hmove : moveRow m (archiveAndDeleteOne m.target s) =
            .ok (landed m row (archiveAndDeleteOne m.target s)) := by
          have hold' : (archiveAndDeleteOne m.target s).live.get? m.old = some row :=
            (Table.get?_pop_ne _ hapart).trans hold
          have htarget' : (archiveAndDeleteOne m.target s).live.get? m.target = none := by
            simp [archiveAndDeleteOne]
          simp [moveRow, hold', htarget', landed, land]
        rw [hmove]
        exact ⟨_, _, rfl, .collision hold htarget rfl hwinner⟩
      · next hwinner => exact ⟨_, _, rfl, .existing hold htarget rfl hwinner⟩

/-- All that the re-home loop can do. -/
inductive RehomeRun (x : DbSession) : List Rehome → ApplyState ρ → List RehomeLog → ApplyState ρ →
    Prop where
  | nil {s : ApplyState ρ} : RehomeRun x [] s [] s
  | cons {m : Rehome} {rest : List Rehome} {s t u : ApplyState ρ} {log : RehomeLog}
    {logs : List RehomeLog} : RehomeStep x m s log t → RehomeRun x rest t logs u →
    RehomeRun x (m :: rest) s (log :: logs) u

theorem applyRehomes_run {moves : List Rehome} (hapart : ∀ m ∈ moves, m.target ≠ m.old)
    (s : ApplyState ρ) :
    ∃ logs t, applyRehomes x moves s = .ok (logs, t) ∧ RehomeRun x moves s logs t := by
  induction moves generalizing s with
  | nil => exact ⟨[], s, rfl, .nil⟩
  | cons m rest ih =>
    obtain ⟨log, t, hstep, hrel⟩ := applyOneRehome_step (x := x) (s := s)
      (hapart m List.mem_cons_self)
    obtain ⟨logs, u, hrest, hrun⟩ := ih (fun m hm => hapart m (List.mem_cons_of_mem _ hm)) t
    refine ⟨log :: logs, u, ?_, .cons hrel hrun⟩
    rw [applyRehomes, hstep]
    change (applyRehomes x rest t >>= fun rest => .ok (log :: rest.1, rest.2)) = _
    rw [hrest]
    rfl

/-- The identities of the plan are vacant in the end. -/
theorem bulkDelete_get? (groups : List PlanGroup) (s : ApplyState ρ) (id : Identity) :
    (bulkDeleteByIdentity groups s).live.get? id =
      if id ∈ identities groups then none else s.live.get? id :=
  Table.get?_foldl_pop _ _ _

theorem countByIdentity_bulkDelete (groups : List PlanGroup) (s : ApplyState ρ) :
    countByIdentity groups (bulkDeleteByIdentity groups s) = 0 := by
  rw [countByIdentity, List.sum_eq_zero_iff_forall_eq_nat]
  intro n hn
  obtain ⟨id, hid, rfl⟩ := List.mem_map.1 hn
  rw [bulkDelete_get?, if_pos hid]
  rfl

/-- A plan that is not stale is applied, unless its moves collide where it predicts nothing. -/
theorem applyTable_run {name archiveTable : String} {names : List String} {plan : TablePlan}
    {table : TenantTable ρ} {classify : ρ → Classification} (hplanned : Planned table classify plan)
    (hname : archiveTable ∉ names) :
    ∃ logs moved, RehomeRun x (rehomes plan.groups) (snapshotTable table) logs moved ∧
      ((unpredicted plan logs = [] ∧ ∃ result, applyTable x name plan names archiveTable table =
          .ok (result, logs, bulkDeleteByIdentity plan.groups moved)) ∨
        unpredicted plan logs ≠ [] ∧ applyTable x name plan names archiveTable table =
          .error (.unpredictedCollision name (unpredicted plan logs))) := by
  obtain ⟨logs, moved, hmoves, hrun⟩ := applyRehomes_run (x := x) hplanned.apart
    (snapshotTable table)
  refine ⟨logs, moved, hrun, ?_⟩
  have hlive : livePredicateCount table = plan.liveCount := hplanned.live.symm
  have hpopulation : (population table).length = plan.liveCount := hlive
  by_cases hun : unpredicted plan logs = []
  · left
    refine ⟨hun, ?_⟩
    simp [applyTable, hlive, hpopulation, createTable, hname, hmoves, hun,
      countByIdentity_bulkDelete, pure, Except.pure, bind, Except.bind]
  · right
    refine ⟨hun, ?_⟩
    simp [applyTable, hlive, createTable, hname, hmoves, hun, bind, Except.bind, throw,
      throwThe, MonadExceptOf.throw]

end Steps

section Plan
variable {x : DbSession} {db : Database} {agentProjectMap : Option (List (String × String))}
  {ingestWindow : Option (String × String)} {plan : MigrationPlan} {archiveTable : String}

/-- A plan is a plan of both tables, with the collisions foreseen on them. -/
theorem buildPlan_planned (h : buildPlan x db agentProjectMap ingestWindow = .ok plan) :
    (Planned db.memories (classifyMemoryRow x (ruleInputs db agentProjectMap ingestWindow))
        plan.memories ∧
      plan.memories.collisions =
        detectCollisions x db.memories (fun _ => none) (rehomes plan.memories.groups)) ∧
    (Planned db.relationRows classifyRelationRow plan.relations ∧
      plan.relations.collisions =
        detectCollisions x db.relationRows (fun _ => none) (rehomes plan.relations.groups)) := by
  unfold buildPlan at h
  dsimp only at h
  split at h
  · cases h
  split at h
  · cases h
  split at h
  · cases h
  obtain ⟨memories, hmemories, h⟩ := bind_eq_ok h
  obtain ⟨relations, hrelations, h⟩ := bind_eq_ok h
  cases h
  exact ⟨buildTablePlan_planned hmemories, buildTablePlan_planned hrelations⟩

theorem applyPlan_valid {r : ApplyResult} (h : applyPlan x db plan archiveTable = .ok r) :
    validArchiveTableName archiveTable = true ∧
      validArchiveTableName (relationsArchiveTable archiveTable) = true := by
  unfold applyPlan at h
  dsimp only at h
  split at h
  · cases h
  split at h
  · cases h
  · next hvalid hvalid' => exact ⟨Bool.of_not_eq_false hvalid, Bool.of_not_eq_false hvalid'⟩

theorem applyPlan_ok {r : ApplyResult} (h : applyPlan x db plan archiveTable = .ok r) :
    applyTable x "private_memories" plan.memories db.names archiveTable db.memories =
        .ok r.memories ∧
      applyRelations x plan.relations db archiveTable = .ok r.relations := by
  unfold applyPlan at h
  dsimp only at h
  split at h
  · cases h
  split at h
  · cases h
  obtain ⟨memories, hmemories, h⟩ := bind_eq_ok h
  obtain ⟨relations, hrelations, h⟩ := bind_eq_ok h
  cases h
  exact ⟨hmemories, hrelations⟩

end Plan

section Applied
variable {ρ : Type} [TenantRow ρ] {x : DbSession} {name archiveTable : String}
  {names : List String} {plan : TablePlan} {t : TenantTable ρ} {classify : ρ → Classification}

theorem applyTable_fresh
    {r : ApplyTableResult × List RehomeLog × ApplyState ρ}
    (h : applyTable x name plan names archiveTable t = .ok r) : archiveTable ∉ names := by
  intro hname
  unfold applyTable at h
  dsimp only at h
  split at h
  · cases h
  · obtain ⟨_, hcreate, -⟩ := bind_eq_ok h
    simp [createTable, hname] at hcreate

/-- What has been applied was run. -/
theorem applyTable_ok {r : ApplyTableResult × List RehomeLog × ApplyState ρ}
    (hplanned : Planned t classify plan)
    (h : applyTable x name plan names archiveTable t = .ok r) :
    ∃ moved, RehomeRun x (rehomes plan.groups) (snapshotTable t) r.2.1 moved ∧
      r.2.2 = bulkDeleteByIdentity plan.groups moved := by
  obtain ⟨logs, moved, hrun, happlied⟩ := applyTable_run hplanned (applyTable_fresh h)
  obtain ⟨-, result, hok⟩ | ⟨-, herr⟩ := happlied
  · rw [hok] at h
    cases h
    exact ⟨moved, hrun, rfl⟩
  · rw [herr] at h
    cases h

theorem Planned.empty_moves (h : Planned (Table.empty : TenantTable ρ) classify plan) :
    rehomes plan.groups = [] ∧ identities plan.groups = [] := by
  constructor
  · rw [List.eq_nil_iff_forall_not_mem]
    intro m hm
    obtain ⟨row, hrow, -⟩ := (h.moves m).1 hm
    cases (mem_population.1 hrow).1
  · rw [List.eq_nil_iff_forall_not_mem]
    intro id hid
    obtain ⟨row, hrow, -⟩ := (h.ids id).1 hid
    cases (mem_population.1 hrow).1

/-- Of a relations table that does not exist there is nothing to run. -/
theorem applyRelations_ok {db : Database} {r : ApplyResult}
    (hplanned : Planned db.relationRows classifyRelationRow plan)
    (h : applyRelations x plan db archiveTable = .ok r.relations) :
    ∃ moved, RehomeRun x (rehomes plan.groups) (snapshotTable db.relationRows) r.relationLogs
        moved ∧ r.relationState = bulkDeleteByIdentity plan.groups moved := by
  unfold applyRelations at h
  cases hrelations : db.relations with
  | none =>
    have hrows : db.relationRows = Table.empty := by
      simp only [Database.relationRows, hrelations, Option.getD_none]
    rw [hrelations] at h
    rw [hrows] at hplanned
    obtain ⟨hmoves, hids⟩ := hplanned.empty_moves
    dsimp only at h
    split at h
    · cases h
    · have hnone : r.relations = none := (Except.ok.inj h).symm
      refine ⟨snapshotTable db.relationRows, ?_, ?_⟩
      · rw [hmoves, ApplyResult.relationLogs, hnone]
        exact .nil
      · rw [ApplyResult.relationState, hnone, bulkDeleteByIdentity, hids, hrows]
        rfl
  | some table =>
    have hrows : db.relationRows = table := by
      simp only [Database.relationRows, hrelations, Option.getD_some]
    rw [hrelations] at h
    obtain ⟨applied, happlied, h⟩ := bind_eq_ok h
    have hsome : r.relations = some applied := (Except.ok.inj h).symm
    rw [ApplyResult.relationLogs, ApplyResult.relationState, hsome, hrows]
    exact applyTable_ok (hrows ▸ hplanned) happlied

end Applied

end TappsBrain
