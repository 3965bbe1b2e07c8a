import Mathlib.Data.String.Basic
import TappsBrain.TenancyMoves

namespace TappsBrain
open Lib
set_option autoImplicit true
set_option relaxedAutoImplicit false

section Kept
variable {ρ : Type} [TenantRow ρ]

/-- A row may end at `target`: the one that was there, or one that is classified to go there. -/
inductive Contends (t : TenantTable ρ) (classify : ρ → Classification) (target : Identity) :
    ρ → Prop where
  | incumbent {row : ρ} : t.get? target = some row → Contends t classify target row
  | mover {row : ρ} {m : Rehome} : row ∈ population t →
    moveOf (TenantRow.identity row) (classify row) = some m → m.target = target →
    Contends t classify target (land m row)

/-- Some row is classified to go there. -/
def Reached (t : TenantTable ρ) (classify : ρ → Classification) (target : Identity) : Prop :=
  ∃ row ∈ population t, ∃ m, moveOf (TenantRow.identity row) (classify row) = some m ∧
    m.target = target

/-- What a migration of the table should leave. -/
structure RowsKept (t : TenantTable ρ) (classify : ρ → Classification) (s : ApplyState ρ) :
    Prop where
  landed : ∀ target, Reached t classify target → ∃ winner, s.live.get? target = some winner ∧
    Contends t classify target winner ∧ ∀ row, Contends t classify target row →
      TenantRow.timestamp row ≤ TenantRow.timestamp winner
  nowhereElse : ∀ id row, s.live.get? id = some row →
    Reached t classify id ∨ (t.get? id = some row ∧ s3Predicate id = false)
  archived : ∀ row ∈ t.values, row ∈ s.archive ∨ s.live.get? (TenantRow.identity row) = some row
  untouched : ∀ row ∈ t.values, s3Predicate (TenantRow.identity row) = false →
    ¬ Reached t classify (TenantRow.identity row) →
    s.live.get? (TenantRow.identity row) = some row

/-- No row is to go where a row of the population was. -/
def TargetsFree (t : TenantTable ρ) (classify : ρ → Classification) : Prop :=
  ∀ row ∈ population t, ¬ Reached t classify (TenantRow.identity row)

/-- Wherever rows contend, the greatest timestamp as it is rendered is the latest one. -/
def RenderedInOrder (x : DbSession) (t : TenantTable ρ) (classify : ρ → Classification) : Prop :=
  ∀ target, Reached t classify target → ∀ winner, Contends t classify target winner →
    (∀ row, Contends t classify target row →
      x.iso (TenantRow.timestamp row) ≤ x.iso (TenantRow.timestamp winner)) →
    ∀ row, Contends t classify target row → TenantRow.timestamp row ≤ TenantRow.timestamp winner

section Run
variable {x : DbSession} {t : TenantTable ρ} {classify : ρ → Classification} {plan : TablePlan}
  {m : Rehome} {moves todo : List Rehome} {s u : ApplyState ρ} {log : RehomeLog}
  {logs : List RehomeLog} {id : Identity}

/-- The contenders the moves so far have brought. -/
def ContendsSoFar (t : TenantTable ρ) (moves : List Rehome) (target : Identity) (row : ρ) : Prop :=
  t.get? target = some row ∨
    ∃ m ∈ moves, ∃ old, t.get? m.old = some old ∧ m.target = target ∧ row = land m old

theorem contendsSoFar_concat {row : ρ} :
    ContendsSoFar t (moves ++ [m]) id row ↔ ContendsSoFar t moves id row ∨
      ∃ old, t.get? m.old = some old ∧ m.target = id ∧ row = land m old := by
  simp only [ContendsSoFar, List.mem_append, List.mem_singleton, or_and_right, exists_or,
    exists_eq_left, or_assoc]

/-- What is live is the greatest of the contenders so far, if there is one. -/
def BestSoFar (x : DbSession) (t : TenantTable ρ) (moves : List Rehome) (target : Identity) :
    Option ρ → Prop
  | none => ∀ row, ¬ ContendsSoFar t moves target row
  | some winner => ContendsSoFar t moves target winner ∧ ∀ row, ContendsSoFar t moves target row →
    x.iso (TenantRow.timestamp row) ≤ x.iso (TenantRow.timestamp winner)

theorem BestSoFar.start : BestSoFar x t [] id (t.get? id) := by
  have hall : ∀ row, ContendsSoFar t [] id row ↔ t.get? id = some row := by
    intro row
    simp [ContendsSoFar]
  cases hid : t.get? id with
  | none =>
    intro row hrow
    rw [hall, hid] at hrow
    cases hrow
  | some winner =>
    constructor
    · exact (hall winner).2 hid
    · intro row hrow
      rw [hall, hid] at hrow
      cases hrow
      exact le_refl _

/-- A move elsewhere brings nothing. -/
theorem BestSoFar.elsewhere {best : Option ρ} (h : BestSoFar x t moves id best)
    (hne : m.target ≠ id) : BestSoFar x t (moves ++ [m]) id best := by
  have hall : ∀ row, ContendsSoFar t (moves ++ [m]) id row ↔ ContendsSoFar t moves id row := by
    intro row
    rw [contendsSoFar_concat]
    simp [hne]
  cases best with
  | none => exact fun row hrow => h row ((hall row).1 hrow)
  | some winner => exact ⟨(hall winner).2 h.1, fun row hrow => h.2 row ((hall row).1 hrow)⟩

/-- The mover wins where nothing is greater. -/
theorem BestSoFar.arrives {best : Option ρ} {row : ρ} (h : BestSoFar x t moves m.target best)
    (hold : t.get? m.old = some row)
    (hbest : ∀ other, best = some other →
      x.iso (TenantRow.timestamp other) ≤ x.iso (TenantRow.timestamp row)) :
    BestSoFar x t (moves ++ [m]) m.target (some (land m row)) := by
  have hstamp : TenantRow.timestamp (land m row) = TenantRow.timestamp row :=
    TenantRow.timestamp_rehomed _ _ _
  constructor
  · exact contendsSoFar_concat.2 (.inr ⟨row, hold, rfl, rfl⟩)
  · intro other hother
    rw [hstamp]
    obtain hother | ⟨old, hold', -, rfl⟩ := contendsSoFar_concat.1 hother
    · cases best with
      | none => exact absurd hother (h other)
      | some winner => exact le_trans (h.2 other hother) (hbest winner rfl)
    · cases hold.symm.trans hold'
      rw [hstamp]

/-- What is there stays the best when the mover is less. -/
theorem BestSoFar.stays {winner row : ρ} (h : BestSoFar x t moves m.target (some winner))
    (hold : t.get? m.old = some row)
    (hlt : x.iso (TenantRow.timestamp row) ≤ x.iso (TenantRow.timestamp winner)) :
    BestSoFar x t (moves ++ [m]) m.target (some winner) := by
  constructor
  · exact contendsSoFar_concat.2 (.inl h.1)
  · intro other hother
    obtain hother | ⟨old, hold', -, rfl⟩ := contendsSoFar_concat.1 hother
    · exact h.2 other hother
    · cases hold.symm.trans hold'
      rw [land, TenantRow.timestamp_rehomed]
      exact hlt

theorem winnerOf_source {a b : String} : winnerOf a b = .source ↔ b ≤ a := by
  simp only [winnerOf]
  split
  · next h => exact iff_of_true rfl h
  · next h => exact iff_of_false (by simp) h

theorem winnerOf_existing {a b : String} (h : winnerOf a b = .existing) : a ≤ b := by
  apply le_of_not_ge
  intro hle
  rw [winnerOf_source.2 hle] at h
  cases h

/-- How a step changes what is live: nothing, or the mover lands. -/
theorem RehomeStep.live (h : RehomeStep x m s log u) :
    u = s ∨ ∃ row, s.live.get? m.old = some row ∧ ∀ id, u.live.get? id =
      if id = m.target then some (land m row) else if id = m.old then none else s.live.get? id := by
  cases h with
  | gone h => exact .inl rfl
  | source hold _ => exact .inr ⟨_, hold, landed_get? (Table.key_of_get? hold)⟩
  | collision hold _ _ _ => exact .inr ⟨_, hold, landed_archive_get? (Table.key_of_get? hold)⟩
  | existing => exact .inl rfl

/-- A step decides the contest for its target, as long as it finds its row. -/
theorem RehomeStep.best (h : RehomeStep x m s log u) (hold : s.live.get? m.old = t.get? m.old)
    (hrow : (t.get? m.old).isSome) (hbest : BestSoFar x t moves id (s.live.get? id))
    (hid : id ≠ m.old) : BestSoFar x t (moves ++ [m]) id (u.live.get? id) := by
  by_cases htarget : id = m.target
  · subst htarget
    cases h with
    | gone hgone =>
      rw [← hold, hgone] at hrow
      cases hrow
    | source hlive hvacant =>
      rw [landed_get? (Table.key_of_get? hlive), if_pos rfl]
      apply hbest.arrives (hold.symm.trans hlive)
      intro other hother
      cases hvacant.symm.trans hother
    | collision hlive hother hrecord hwinner =>
      rw [landed_archive_get? (Table.key_of_get? hlive), if_pos rfl]
      apply hbest.arrives (hold.symm.trans hlive)
      intro other hother'
      cases hother.symm.trans hother'
      subst hrecord
      exact winnerOf_source.1 hwinner
    | existing hlive hother hrecord hwinner =>
      rw [hother] at hbest ⊢
      subst hrecord
      exact hbest.stays (hold.symm.trans hlive) (winnerOf_existing hwinner)
  · obtain rfl | ⟨row, -, hlive⟩ := h.live
    · exact hbest.elsewhere (Ne.symm htarget)
    · rw [hlive, if_neg htarget, if_neg hid]
      exact hbest.elsewhere (Ne.symm htarget)

theorem run_best (hrun : RehomeRun x todo s logs u)
    (holds : ∀ m ∈ todo, s.live.get? m.old = t.get? m.old ∧ (t.get? m.old).isSome)
    (hnodup : (todo.map Rehome.old).Nodup) (hfree : ∀ m ∈ todo, ∀ m' ∈ todo, m.target ≠ m'.old)
    (hid : ∀ m ∈ todo, id ≠ m.old) (hbest : BestSoFar x t moves id (s.live.get? id)) :
    BestSoFar x t (moves ++ todo) id (u.live.get? id) := by
  induction hrun generalizing moves with
  | nil => simpa using hbest
  | @cons m rest s v u log logs hstep hrun ih =>
    obtain ⟨hold, hrow⟩ := holds m List.mem_cons_self
    obtain ⟨hnotMem, hnodup⟩ := List.nodup_cons.1 hnodup
    have hmoved := hstep.best hold hrow hbest (hid m List.mem_cons_self)
    have hrest : ∀ m' ∈ rest, v.live.get? m'.old = t.get? m'.old ∧ (t.get? m'.old).isSome := by
      intro m' hm'
      obtain ⟨hlive, hsome⟩ := holds m' (List.mem_cons_of_mem m hm')
      refine ⟨?_, hsome⟩
      obtain rfl | ⟨row, -, hv⟩ := hstep.live
      · exact hlive
      · have htarget := hfree m List.mem_cons_self m' (List.mem_cons_of_mem m hm')
        have hne : m'.old ≠ m.old := by
          intro heq
          exact hnotMem (List.mem_map.2 ⟨m', hm', heq⟩)
        rw [hv, if_neg (Ne.symm htarget), if_neg hne, hlive]
    have happly := ih hrest hnodup
      (fun a ha b hb => hfree a (List.mem_cons_of_mem m ha) b (List.mem_cons_of_mem m hb))
      (fun a ha => hid a (List.mem_cons_of_mem m ha)) hmoved
    rwa [List.append_assoc, List.singleton_append] at happly

/-- Where nothing lands, at most a row that moves away is missed. -/
theorem run_away (hrun : RehomeRun x todo s logs u) (hid : ∀ m ∈ todo, id ≠ m.target) :
    u.live.get? id = s.live.get? id ∨ (u.live.get? id = none ∧ ∃ m ∈ todo, id = m.old) := by
  induction hrun with
  | nil => exact .inl rfl
  | @cons m rest s v u log logs hstep hrun ih =>
    have hv : v.live.get? id = s.live.get? id ∨ (v.live.get? id = none ∧ id = m.old) := by
      obtain rfl | ⟨row, -, hlive⟩ := hstep.live
      · exact .inl rfl
      · rw [hlive, if_neg (hid m List.mem_cons_self)]
        split
        · next heq => exact .inr ⟨rfl, heq⟩
        · exact .inl rfl
    obtain hu | ⟨hu, m', hm', heq⟩ := ih (fun m' hm' => hid m' (List.mem_cons_of_mem m hm'))
    · obtain hv | ⟨hv, heq⟩ := hv
      · exact .inl (hu.trans hv)
      · exact .inr ⟨hu.trans hv, m, List.mem_cons_self, heq⟩
    · exact .inr ⟨hu, m', List.mem_cons_of_mem m hm', heq⟩

/-- A row in its place is archived before another lands there. -/
theorem RehomeStep.archived {row : ρ} (h : RehomeStep x m s log u) (hid : id ≠ m.old)
    (hrow : row ∈ s.archive ∨ s.live.get? id = some row) :
    row ∈ u.archive ∨ u.live.get? id = some row := by
  cases h with
  | gone => exact hrow
  | existing => exact hrow
  | source hold hvacant =>
    obtain hrow | hrow := hrow
    · exact .inl hrow
    · right
      have htarget : id ≠ m.target := by
        rintro rfl
        cases hvacant.symm.trans hrow
      rw [landed_get? (Table.key_of_get? hold), if_neg htarget, if_neg hid]
      exact hrow
  | collision hold hother _ _ =>
    obtain hrow | hrow := hrow
    · exact .inl (List.mem_append_left _ hrow)
    · by_cases htarget : id = m.target
      · left
        rw [htarget] at hrow
        apply List.mem_append_right
        rw [hrow]
        exact List.mem_singleton_self _
      · right
        rw [landed_archive_get? (Table.key_of_get? hold), if_neg htarget, if_neg hid]
        exact hrow

theorem run_archived {row : ρ} (hrun : RehomeRun x todo s logs u) (hid : ∀ m ∈ todo, id ≠ m.old)
    (hrow : row ∈ s.archive ∨ s.live.get? id = some row) :
    row ∈ u.archive ∨ u.live.get? id = some row := by
  induction hrun with
  | nil => exact hrow
  | cons hstep hrun ih =>
    exact ih (fun m hm => hid m (List.mem_cons_of_mem _ hm))
      (hstep.archived (hid _ List.mem_cons_self) hrow)

theorem RehomeStep.keepsArchive {row : ρ} (h : RehomeStep x m s log u) (hrow : row ∈ s.archive) :
    row ∈ u.archive := by
  cases h with
  | gone => exact hrow
  | existing => exact hrow
  | source => exact hrow
  | collision => exact List.mem_append_left _ hrow

theorem run_keepsArchive {row : ρ} (hrun : RehomeRun x todo s logs u) (hrow : row ∈ s.archive) :
    row ∈ u.archive := by
  induction hrun with
  | nil => exact hrow
  | cons hstep _ ih => exact ih (hstep.keepsArchive hrow)

theorem Planned.row_of_old (h : Planned t classify plan) (hm : m ∈ rehomes plan.groups) :
    ∃ row ∈ population t, t.get? m.old = some row ∧
      moveOf (TenantRow.identity row) (classify row) = some m := by
  obtain ⟨row, hrow, hmove⟩ := (h.moves m).1 hm
  refine ⟨row, hrow, ?_, hmove⟩
  rw [moveOf_old hmove]
  exact Table.get?_of_mem (mem_population.1 hrow).1

theorem Planned.reached (h : Planned t classify plan) :
    Reached t classify id ↔ ∃ m ∈ rehomes plan.groups, m.target = id := by
  constructor
  · rintro ⟨row, hrow, m, hmove, htarget⟩
    exact ⟨m, (h.moves m).2 ⟨row, hrow, hmove⟩, htarget⟩
  · rintro ⟨m, hm, htarget⟩
    obtain ⟨row, hrow, hmove⟩ := (h.moves m).1 hm
    exact ⟨row, hrow, m, hmove, htarget⟩

theorem Planned.contends {row : ρ} (h : Planned t classify plan) :
    ContendsSoFar t (rehomes plan.groups) id row ↔ Contends t classify id row := by
  constructor
  · rintro (hrow | ⟨m, hm, old, hold, htarget, rfl⟩)
    · exact .incumbent hrow
    · obtain ⟨row, hrow, hget, hmove⟩ := h.row_of_old hm
      cases hget.symm.trans hold
      exact .mover hrow hmove htarget
  · intro hcontends
    cases hcontends with
    | incumbent hrow => exact .inl hrow
    | @mover old m hold hmove htarget =>
      right
      refine ⟨m, (h.moves m).2 ⟨old, hold, hmove⟩, old, ?_, htarget, rfl⟩
      rw [moveOf_old hmove]
      exact Table.get?_of_mem (mem_population.1 hold).1

/-- The bulk delete leaves nothing of the population in place. -/
theorem Planned.vacated (h : Planned t classify plan) {row : ρ} (hrow : row ∈ population t) :
    (bulkDeleteByIdentity plan.groups s).live.get? (TenantRow.identity row) = none := by
  rw [bulkDelete_get?, if_pos ((h.ids _).2 ⟨row, hrow, rfl⟩)]

theorem Planned.spared (h : Planned t classify plan)
    (hid : ∀ row ∈ population t, TenantRow.identity row ≠ id) :
    (bulkDeleteByIdentity plan.groups s).live.get? id = s.live.get? id := by
  rw [bulkDelete_get?, if_neg]
  intro hmem
  obtain ⟨row, hrow, heq⟩ := (h.ids id).1 hmem
  exact hid row hrow heq

theorem ne_of_not_s3 (h : s3Predicate id = false) :
    ∀ row ∈ population t, TenantRow.identity row ≠ id := by
  intro row hrow heq
  rw [← heq, (mem_population.1 hrow).2] at h
  cases h

theorem Planned.not_old (h : Planned t classify plan)
    (hid : ∀ row ∈ population t, TenantRow.identity row ≠ id) :
    ∀ m ∈ rehomes plan.groups, id ≠ m.old := by
  intro m hm heq
  obtain ⟨row, hrow, hold⟩ := h.old hm
  exact hid row hrow (hold.trans heq.symm)

/-- No row goes without a copy, whatever the plan. -/
theorem Planned.archived (h : Planned t classify plan)
    (hrun : RehomeRun x (rehomes plan.groups) (snapshotTable t) logs u) {row : ρ}
    (hrow : row ∈ t.values) :
    row ∈ (bulkDeleteByIdentity plan.groups u).archive ∨
      (bulkDeleteByIdentity plan.groups u).live.get? (TenantRow.identity row) = some row := by
  by_cases hs3 : s3Predicate (TenantRow.identity row) = true
  · left
    have hstart : row ∈ (snapshotTable t).archive := mem_population.2 ⟨hrow, hs3⟩
    have hend : row ∈ u.archive := run_keepsArchive hrun hstart
    exact hend
  · have hspared := ne_of_not_s3 (t := t) (Bool.not_eq_true _ ▸ hs3)
    rw [h.spared hspared]
    apply run_archived hrun (h.not_old hspared)
    exact .inr (Table.get?_of_mem hrow)

theorem Planned.untouched (h : Planned t classify plan)
    (hrun : RehomeRun x (rehomes plan.groups) (snapshotTable t) logs u)
    (hs3 : s3Predicate id = false) (hid : ¬ Reached t classify id) :
    (bulkDeleteByIdentity plan.groups u).live.get? id = t.get? id := by
  have hspared := ne_of_not_s3 (t := t) hs3
  rw [h.spared hspared]
  have htargets : ∀ m ∈ rehomes plan.groups, id ≠ m.target := by
    intro m hm heq
    exact hid (h.reached.2 ⟨m, hm, heq.symm⟩)
  obtain hu | ⟨-, m, hm, heq⟩ := run_away hrun htargets
  · exact hu
  · exact absurd heq (h.not_old hspared m hm)

theorem Planned.nowhereElse (h : Planned t classify plan)
    (hrun : RehomeRun x (rehomes plan.groups) (snapshotTable t) logs u) {row : ρ}
    (hlive : (bulkDeleteByIdentity plan.groups u).live.get? id = some row)
    (hid : ¬ Reached t classify id) : t.get? id = some row ∧ s3Predicate id = false := by
  rw [bulkDelete_get?] at hlive
  split at hlive
  · cases hlive
  · next hnotMem =>
    have htargets : ∀ m ∈ rehomes plan.groups, id ≠ m.target := by
      intro m hm heq
      exact hid (h.reached.2 ⟨m, hm, heq.symm⟩)
    obtain hu | ⟨hu, -⟩ := run_away hrun htargets
    · have hget : t.get? id = some row := hu.symm.trans hlive
      refine ⟨hget, Bool.eq_false_iff.2 ?_⟩
      intro hs3
      have hkey := Table.key_of_get? hget
      rw [← hkey] at hs3
      have hrow := mem_population.2 ⟨Table.mem_of_get? hget, hs3⟩
      exact hnotMem ((h.ids id).2 ⟨row, hrow, hkey⟩)
    · cases hu.symm.trans hlive

/-- With the targets free, each holds the greatest of its contenders as rendered. -/
theorem Planned.best (h : Planned t classify plan)
    (hrun : RehomeRun x (rehomes plan.groups) (snapshotTable t) logs u)
    (hfree : TargetsFree t classify) (hid : Reached t classify id) :
    BestSoFar x t (rehomes plan.groups) id
      ((bulkDeleteByIdentity plan.groups u).live.get? id) := by
  have hspared : ∀ row ∈ population t, TenantRow.identity row ≠ id := by
    rintro row hrow rfl
    exact hfree row hrow hid
  rw [h.spared hspared]
  have hstart : BestSoFar x t [] id ((snapshotTable t).live.get? id) := BestSoFar.start
  apply run_best hrun _ h.nodup _ (h.not_old hspared) hstart
  · intro m hm
    obtain ⟨row, -, hget, -⟩ := h.row_of_old hm
    exact ⟨rfl, hget ▸ rfl⟩
  · intro m hm m' hm' heq
    obtain ⟨row, hrow, hold⟩ := h.old hm'
    exact hfree row hrow (h.reached.2 ⟨m, hm, heq.trans hold.symm⟩)

/-- A migration of a table keeps its rows exactly when its targets are free of them and rendered
timestamps compare as the moments do. -/
theorem rowsKept_iff (h : Planned t classify plan)
    (hrun : RehomeRun x (rehomes plan.groups) (snapshotTable t) logs u) :
    RowsKept t classify (bulkDeleteByIdentity plan.groups u) ↔
      TargetsFree t classify ∧ RenderedInOrder x t classify := by
  constructor
  · intro hkept
    have hfree : TargetsFree t classify := by
      intro row hrow hreached
      obtain ⟨winner, hwinner, -⟩ := hkept.landed _ hreached
      cases (h.vacated hrow).symm.trans hwinner
    refine ⟨hfree, ?_⟩
    intro target hreached winner hcontends hgreatest
    obtain ⟨lives, hlives, hcontends', hlatest⟩ := hkept.landed target hreached
    have hbest := h.best hrun hfree hreached
    rw [hlives] at hbest
    have hsame : TenantRow.timestamp winner = TenantRow.timestamp lives := by
      apply x.iso_injective
      apply le_antisymm
      · exact hbest.2 winner (h.contends.2 hcontends)
      · exact hgreatest lives hcontends'
    rw [hsame]
    exact hlatest
  · rintro ⟨hfree, hordered⟩
    constructor
    · intro target hreached
      have hbest := h.best hrun hfree hreached
      cases hlive : (bulkDeleteByIdentity plan.groups u).live.get? target with
      | none =>
        rw [hlive] at hbest
        obtain ⟨row, hrow, m, hmove, htarget⟩ := hreached
        exact absurd (h.contends.2 (.mover hrow hmove htarget)) (hbest _)
      | some winner =>
        rw [hlive] at hbest
        obtain ⟨hcontends, hgreatest⟩ := hbest
        refine ⟨winner, rfl, h.contends.1 hcontends, ?_⟩
        apply hordered target hreached winner (h.contends.1 hcontends)
        intro row hrow
        exact hgreatest row (h.contends.2 hrow)
    · intro id row hlive
      by_cases hid : Reached t classify id
      · exact .inl hid
      · exact .inr (h.nowhereElse hrun hlive hid)
    · intro row hrow
      exact h.archived hrun hrow
    · intro row hrow hs3 hid
      rw [h.untouched hrun hs3 hid]
      exact Table.get?_of_mem hrow

end Run
end Kept

/-- R4 leads out of the population, so the targets of relations are always free. -/
theorem targetsFree_relations (t : TenantTable RelationRow) :
    TargetsFree t classifyRelationRow := by
  rintro row hrow ⟨other, hother, m, hmove, htarget⟩
  have hs3 := (mem_population.1 hrow).2
  rw [← htarget] at hs3
  simp only [classifyRelationRow, classifyRest] at hmove
  split at hmove
  · next hr4 =>
    cases hmove
    simp only [classifyR4LegacyUnattributed, Bool.and_eq_true, Bool.not_eq_true'] at hr4
    obtain ⟨hproject, -⟩ := hr4
    simp only [Rehome.target, s3Predicate, hproject] at hs3
    simp [S3_AGENT_IDS] at hs3
  · cases hmove

/-- `build_plan` and then `apply_plan` on the same database. -/
def planAndApply (x : DbSession) (db : Database)
    (agentProjectMap : Option (List (String × String))) (ingestWindow : Option (String × String))
    (archiveTable : String) : Except MigrationError (MigrationPlan × ApplyResult) := do
  let plan ← buildPlan x db agentProjectMap ingestWindow
  let result ← applyPlan x db plan archiveTable
  pure (plan, result)

section PlanAndApply
variable {x : DbSession} {db : Database} {agentProjectMap : Option (List (String × String))}
  {ingestWindow : Option (String × String)} {archiveTable : String} {plan : MigrationPlan}
  {result : ApplyResult}

theorem planAndApply_runs
    (h : planAndApply x db agentProjectMap ingestWindow archiveTable = .ok (plan, result)) :
    (Planned db.memories (classifyMemoryRow x (ruleInputs db agentProjectMap ingestWindow))
        plan.memories ∧
      ∃ moved, RehomeRun x (rehomes plan.memories.groups) (snapshotTable db.memories)
        result.memories.2.1 moved ∧
        result.memories.2.2 = bulkDeleteByIdentity plan.memories.groups moved) ∧
    Planned db.relationRows classifyRelationRow plan.relations ∧
      ∃ moved, RehomeRun x (rehomes plan.relations.groups) (snapshotTable db.relationRows)
        result.relationLogs moved ∧
        result.relationState = bulkDeleteByIdentity plan.relations.groups moved := by
  obtain ⟨built, hbuilt, h⟩ := bind_eq_ok h
  obtain ⟨applied, happlied, h⟩ := bind_eq_ok h
  cases h
  obtain ⟨⟨hmemories, -⟩, hrelations, -⟩ := buildPlan_planned hbuilt
  obtain ⟨hmemoriesOk, hrelationsOk⟩ := applyPlan_ok happlied
  exact ⟨⟨hmemories, applyTable_ok hmemories hmemoriesOk⟩, hrelations,
    applyRelations_ok hrelations hrelationsOk⟩

/-- A migration keeps the rows of both tables exactly when no memory is to go where one of the
population was, and the moments that decide a collision compare as their renderings do. -/
theorem migration_keeps_rows
    (h : planAndApply x db agentProjectMap ingestWindow archiveTable = .ok (plan, result)) :
    (RowsKept db.memories (classifyMemoryRow x (ruleInputs db agentProjectMap ingestWindow))
        result.memories.2.2 ∧
      RowsKept db.relationRows classifyRelationRow result.relationState) ↔
    (TargetsFree db.memories (classifyMemoryRow x (ruleInputs db agentProjectMap ingestWindow)) ∧
      RenderedInOrder x db.memories
        (classifyMemoryRow x (ruleInputs db agentProjectMap ingestWindow)) ∧
      RenderedInOrder x db.relationRows classifyRelationRow) := by
  obtain ⟨⟨hmemories, moved, hrun, hfinal⟩, hrelations, moved', hrun', hfinal'⟩ :=
    planAndApply_runs h
  rw [hfinal, hfinal', rowsKept_iff hmemories hrun, rowsKept_iff hrelations hrun', and_assoc]
  simp only [targetsFree_relations, true_and]

end PlanAndApply

/-- A session that renders the first moment of a year. -/
def utcYears : DbSession where
  iso year := Nat.repr year ++ "-01-01T00:00:00+00:00"
  collate a b := a ≤ b
  iso_injective := by
    intro a b h
    have hrepr : Nat.repr a = Nat.repr b := (String.append_left_inj _).1 h
    have hdigits := congrArg (fun s => Nat.ofDigitChars 10 s.toList 0) hrepr
    simpa [Nat.repr, Nat.ofDigitChars_toDigits] using hdigits

def scoutRow (project key sourceAgent : String) (year : Nat) : MemoryRow where
  projectId := project
  agentId := "scout"
  key := key
  createdAt := year
  updatedAt := year
  sourceAgent := sourceAgent
  tags := []

def scoutDb (rows : List MemoryRow) (approvedProjects : List String) : Database where
  memories := rows.foldl Table.set Table.empty
  relations := none
  auditLog := []
  profiles := approvedProjects.map (fun project => (project, true))
  names := ["private_memories", "project_profiles"]

/-- The memory of `a1` is to go where one was that R5 archives. -/
def takenHomeDb : Database :=
  scoutDb [scoutRow "main" "deploy" "a1" 2026, scoutRow "api" "deploy" "unknown" 2025] ["api"]

def freeHomeDb : Database := scoutDb [scoutRow "main" "deploy" "a1" 2026] ["proj"]

theorem free_home_keeps_rows : ∃ plan result,
    planAndApply utcYears freeHomeDb (some [("a1", "proj")]) none "archive_v1" =
      .ok (plan, result) ∧
    RowsKept freeHomeDb.memories
      (classifyMemoryRow utcYears (ruleInputs freeHomeDb (some [("a1", "proj")]) none))
      result.memories.2.2 ∧
    RowsKept freeHomeDb.relationRows classifyRelationRow result.relationState := by
  have hok : (planAndApply utcYears freeHomeDb (some [("a1", "proj")]) none "archive_v1").isOk =
      true := by decide +kernel
  cases hrun : planAndApply utcYears freeHomeDb (some [("a1", "proj")]) none "archive_v1" with
  | error e =>
    rw [hrun] at hok
    cases hok
  | ok applied =>
    obtain ⟨plan, result⟩ := applied
    refine ⟨plan, result, rfl, (migration_keeps_rows hrun).2 ⟨?_, ?_, ?_⟩⟩
    · rintro row hrow ⟨other, hother, m, hmove, htarget⟩
      have honly : ∀ r ∈ population freeHomeDb.memories,
          r = scoutRow "main" "deploy" "a1" 2026 := by decide +kernel
      cases honly row hrow
      cases honly other hother
      have hproj : (moveOf (TenantRow.identity (scoutRow "main" "deploy" "a1" 2026))
          (classifyMemoryRow utcYears (ruleInputs freeHomeDb (some [("a1", "proj")]) none)
            (scoutRow "main" "deploy" "a1" 2026))).map Rehome.target =
          some ⟨"proj", "scout", ["deploy"]⟩ := by decide +kernel
      rw [hmove, Option.map_some, htarget] at hproj
      exact absurd hproj (by decide)
    · have hyear : ∀ target row, Contends freeHomeDb.memories
          (classifyMemoryRow utcYears (ruleInputs freeHomeDb (some [("a1", "proj")]) none))
          target row → TenantRow.timestamp row = 2026 := by
        have hall : ∀ r ∈ freeHomeDb.memories.values, TenantRow.timestamp r = 2026 := by decide
        intro target row hrow
        cases hrow with
        | incumbent hrow => exact hall row (Table.mem_of_get? hrow)
        | mover hrow _ _ =>
          rw [land, TenantRow.timestamp_rehomed]
          exact hall _ (mem_population.1 hrow).1
      intro target _ winner hwinner _ row hrow
      rw [hyear target row hrow, hyear target winner hwinner]
    · rintro target ⟨row, hrow, -⟩
      cases (mem_population.1 hrow).1

theorem migration_deletes_moved_row : ∃ plan result,
    planAndApply utcYears takenHomeDb (some [("a1", "api")]) none "archive_v1" =
      .ok (plan, result) ∧
    ¬ RowsKept takenHomeDb.memories
      (classifyMemoryRow utcYears (ruleInputs takenHomeDb (some [("a1", "api")]) none))
      result.memories.2.2 := by
  have hok : (planAndApply utcYears takenHomeDb (some [("a1", "api")]) none "archive_v1").isOk =
      true := by decide +kernel
  cases hrun : planAndApply utcYears takenHomeDb (some [("a1", "api")]) none "archive_v1" with
  | error e =>
    rw [hrun] at hok
    cases hok
  | ok applied =>
    obtain ⟨plan, result⟩ := applied
    refine ⟨plan, result, rfl, ?_⟩
    obtain ⟨⟨hplanned, moved, hmoved, hfinal⟩, -⟩ := planAndApply_runs hrun
    rw [hfinal, rowsKept_iff hplanned hmoved]
    rintro ⟨hfree, -⟩
    have hthere : scoutRow "api" "deploy" "unknown" 2025 ∈ population takenHomeDb.memories := by
      decide +kernel
    have hmover : scoutRow "main" "deploy" "a1" 2026 ∈ population takenHomeDb.memories := by
      decide +kernel
    apply hfree _ hthere
    refine ⟨_, hmover, ⟨"main", "scout", "api", "scout", ["deploy"]⟩, ?_, rfl⟩
    decide +kernel

end TappsBrain
