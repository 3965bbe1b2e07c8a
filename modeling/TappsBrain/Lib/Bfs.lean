import Mathlib.Data.List.Nodup
import Mathlib.Data.List.Basic
import Mathlib.Data.Nat.Find

namespace Lib
set_option autoImplicit true
set_option relaxedAutoImplicit false

variable {α : Type}

/-- `y` is `n` steps of `r` from `x`. -/
inductive StepsIn (r : α → α → Prop) (x : α) : Nat → α → Prop
  | refl : StepsIn r x 0 x
  | tail {n : Nat} {y z : α} : StepsIn r x n y → r y z → StepsIn r x (n + 1) z

/-- `n` is the least number of steps from `x` to `y`. -/
structure AtDistance (r : α → α → Prop) (x : α) (n : Nat) (y : α) : Prop where
  steps : StepsIn r x n y
  least : ∀ m, StepsIn r x m y → n ≤ m

section Distance
variable {r : α → α → Prop} {x y z : α} {m n : Nat}

theorem StepsIn.mono {r' : α → α → Prop} (hr : ∀ a b, r a b → r' a b) (h : StepsIn r x n y) :
    StepsIn r' x n y := by
  induction h with
  | refl => exact .refl
  | tail _ hstep ih => exact .tail ih (hr _ _ hstep)

theorem AtDistance.unique (hm : AtDistance r x m y) (hn : AtDistance r x n y) : m = n :=
  Nat.le_antisymm (hm.least n hn.steps) (hn.least m hm.steps)

theorem atDistance_zero : AtDistance r x 0 y ↔ y = x := by
  constructor
  · intro h
    cases h.steps
    rfl
  · rintro rfl
    exact ⟨.refl, fun _ _ => Nat.zero_le _⟩

theorem StepsIn.exists_atDistance (h : StepsIn r x m y) : ∃ n ≤ m, AtDistance r x n y := by
  classical
  have hex : ∃ n, StepsIn r x n y := ⟨m, h⟩
  exact ⟨Nat.find hex, Nat.find_min' hex h, Nat.find_spec hex, fun k hk => Nat.find_min' hex hk⟩

/-- The last step to a point at a distance starts one step nearer. -/
theorem AtDistance.pred (h : AtDistance r x (n + 1) z) : ∃ y, AtDistance r x n y ∧ r y z := by
  obtain ⟨hsteps, hleast⟩ := h
  cases hsteps with
  | @tail _ y _ hy hstep =>
    refine ⟨y, ⟨hy, ?_⟩, hstep⟩
    intro k hk
    exact Nat.le_of_succ_le_succ (hleast (k + 1) (.tail hk hstep))

/-- One step further is at most one step away. -/
theorem AtDistance.next (h : AtDistance r x n y) (hstep : r y z) :
    ∃ d ≤ n + 1, AtDistance r x d z :=
  (StepsIn.tail h.steps hstep).exists_atDistance

/-- Where there is nothing at one distance, there is nothing beyond it. -/
theorem not_atDistance_add (h : ∀ v, ¬ AtDistance r x n v) (k : Nat) :
    ∀ v, ¬ AtDistance r x (n + k) v := by
  induction k with
  | zero => exact h
  | succ k ih =>
    intro v hv
    obtain ⟨y, hy, -⟩ := hv.pred
    exact ih y hy

end Distance
section Levels

/-- What a level-by-level search carries along: the points it has come across, those found with
their hop, and the points to go on from. -/
structure Search (α : Type) where
  visited : List α
  found : List (α × Nat)
  frontier : List α

def Search.start (s : α) : Search α := { visited := [s], found := [], frontier := [s] }

variable {r : α → α → Prop} {st : Search α} {nbrs : α → List α} {vs : List α} {s v : α}
  {hop h : Nat}

/-- The search stands at level `h`: it has visited what is no further than that, found all of it
but the start, and goes on from what is exactly there. -/
structure Explored (r : α → α → Prop) (s : α) (h : Nat) (st : Search α) : Prop where
  visited : ∀ v, v ∈ st.visited ↔ ∃ d ≤ h, AtDistance r s d v
  found : ∀ v d, (v, d) ∈ st.found ↔ 1 ≤ d ∧ d ≤ h ∧ AtDistance r s d v
  frontier : ∀ v, v ∈ st.frontier ↔ AtDistance r s h v
  once : (st.found.map Prod.fst).Nodup

theorem explored_start (r : α → α → Prop) (s : α) : Explored r s 0 (Search.start s) := by
  constructor
  · intro v
    rw [Search.start, List.mem_singleton]
    constructor
    · rintro rfl
      exact ⟨0, Nat.le_refl 0, atDistance_zero.mpr rfl⟩
    · rintro ⟨d, hd, hv⟩
      rw [Nat.le_zero.mp hd] at hv
      exact atDistance_zero.mp hv
  · intro v d
    simp only [Search.start, List.not_mem_nil, false_iff, not_and]
    intro hpos hzero
    omega
  · intro v
    rw [Search.start, List.mem_singleton, atDistance_zero]
  · exact List.nodup_nil

/-- The unvisited neighbours of a level are the next level. -/
theorem Explored.next_iff (hnbrs : ∀ a b, b ∈ nbrs a ↔ r a b) (hex : Explored r s h st) :
    v ∈ st.frontier.flatMap nbrs ∧ v ∉ st.visited ↔ AtDistance r s (h + 1) v := by
  rw [List.mem_flatMap, hex.visited]
  constructor
  · rintro ⟨⟨u, hu, hv⟩, hout⟩
    obtain ⟨d, hd, hdist⟩ := ((hex.frontier u).mp hu).next ((hnbrs u v).mp hv)
    rcases Nat.lt_or_eq_of_le hd with hlt | rfl
    · exact absurd ⟨d, Nat.le_of_lt_succ hlt, hdist⟩ hout
    · exact hdist
  · intro hv
    obtain ⟨u, hu, hstep⟩ := hv.pred
    refine ⟨⟨u, (hex.frontier u).mpr hu, (hnbrs u v).mpr hstep⟩, ?_⟩
    rintro ⟨d, hd, hdist⟩
    have heq := hdist.unique hv
    omega

variable [DecidableEq α]

/-- One neighbour: noted and kept for the next level, unless it was visited. -/
def Search.see (hop : Nat) (st : Search α) (v : α) : Search α :=
  if v ∈ st.visited then st
  else
    { visited := v :: st.visited, found := st.found ++ [(v, hop)], frontier := st.frontier ++ [v] }

def Search.level (nbrs : α → List α) (hop : Nat) (st : Search α) : Search α :=
  (st.frontier.flatMap nbrs).foldl (Search.see hop) { st with frontier := [] }

/-- Levels from `hop` on, as many as are left, up to one that finds nothing. -/
def Search.run (nbrs : α → List α) : Nat → Nat → Search α → Search α
  | 0, _, st => st
  | left + 1, hop, st =>
    let st' := Search.level nbrs hop st
    if st'.frontier = [] then st' else Search.run nbrs left (hop + 1) st'

/-- What a pass over the neighbours `vs` makes of a search. -/
structure Seen (hop : Nat) (vs : List α) (st st' : Search α) : Prop where
  visited : ∀ v, v ∈ st'.visited ↔ v ∈ st.visited ∨ v ∈ vs
  found : ∀ p, p ∈ st'.found ↔ p ∈ st.found ∨ p.1 ∈ vs ∧ p.1 ∉ st.visited ∧ p.2 = hop
  frontier : ∀ v, v ∈ st'.frontier ↔ v ∈ st.frontier ∨ v ∈ vs ∧ v ∉ st.visited
  once : (∀ p ∈ st.found, p.1 ∈ st.visited) → (st.found.map Prod.fst).Nodup →
    (st'.found.map Prod.fst).Nodup

theorem Search.see_seen (hop : Nat) (st : Search α) (v : α) :
    Seen hop [v] st (Search.see hop st v) := by
  unfold Search.see
  by_cases hv : v ∈ st.visited
  · rw [if_pos hv]
    constructor
    · intro u
      simp only [List.mem_singleton]
      exact ⟨.inl, fun h => h.elim id (fun heq => heq ▸ hv)⟩
    · intro p
      simp only [List.mem_singleton]
      exact ⟨.inl, fun h => h.elim id (fun heq => absurd (heq.1 ▸ hv) heq.2.1)⟩
    · intro u
      simp only [List.mem_singleton]
      exact ⟨.inl, fun h => h.elim id (fun heq => absurd (heq.1 ▸ hv) heq.2)⟩
    · exact fun _ h => h
  · rw [if_neg hv]
    constructor
    · intro u
      simp only [List.mem_cons, List.not_mem_nil, or_false]
      exact or_comm
    · rintro ⟨u, k⟩
      simp only [List.mem_append, List.mem_singleton, Prod.mk.injEq]
      constructor
      · rintro (h | ⟨rfl, rfl⟩)
        · exact .inl h
        · exact .inr ⟨rfl, hv, rfl⟩
      · rintro (h | ⟨rfl, -, rfl⟩)
        · exact .inl h
        · exact .inr ⟨rfl, rfl⟩
    · intro u
      simp only [List.mem_append, List.mem_singleton]
      constructor
      · rintro (h | rfl)
        · exact .inl h
        · exact .inr ⟨rfl, hv⟩
      · rintro (h | ⟨rfl, -⟩)
        · exact .inl h
        · exact .inr rfl
    · intro hsub hnodup
      rw [List.map_append]
      apply hnodup.append (List.nodup_singleton _)
      intro u hu hu'
      obtain ⟨p, hp, rfl⟩ := List.mem_map.mp hu
      have heq : p.1 = v := List.mem_singleton.mp hu'
      exact hv (heq ▸ hsub p hp)

theorem Search.foldl_see (hop : Nat) (vs : List α) (st : Search α) :
    Seen hop vs st (vs.foldl (Search.see hop) st) := by
  induction vs generalizing st with
  | nil =>
    constructor
    · simp
    · simp
    · simp
    · exact fun _ h => h
  | cons v vs ih =>
    have hfirst := Search.see_seen hop st v
    have hrest := ih (Search.see hop st v)
    rw [List.foldl_cons]
    constructor
    · intro u
      rw [hrest.visited, hfirst.visited, List.mem_singleton, List.mem_cons, or_assoc]
    · intro p
      rw [hrest.found, hfirst.found, hfirst.visited]
      simp only [List.mem_cons, List.not_mem_nil, or_false]
      tauto
    · intro u
      rw [hrest.frontier, hfirst.frontier, hfirst.visited]
      simp only [List.mem_cons, List.not_mem_nil, or_false]
      tauto
    · intro hsub hnodup
      apply hrest.once _ (hfirst.once hsub hnodup)
      intro p hp
      rw [hfirst.visited]
      rcases (hfirst.found p).mp hp with hp | ⟨hp, -⟩
      · exact .inl (hsub p hp)
      · exact .inr hp

theorem Explored.level (hnbrs : ∀ a b, b ∈ nbrs a ↔ r a b) (hex : Explored r s h st) :
    Explored r s (h + 1) (Search.level nbrs (h + 1) st) := by
  have hseen := Search.foldl_see (h + 1) (st.frontier.flatMap nbrs) { st with frontier := [] }
  have hnext := fun v => hex.next_iff (v := v) hnbrs
  unfold Search.level
  constructor
  · intro v
    rw [hseen.visited, hex.visited]
    constructor
    · rintro (⟨d, hd, hdist⟩ | hv)
      · exact ⟨d, Nat.le_succ_of_le hd, hdist⟩
      · by_cases hin : v ∈ st.visited
        · obtain ⟨d, hd, hdist⟩ := (hex.visited v).mp hin
          exact ⟨d, Nat.le_succ_of_le hd, hdist⟩
        · exact ⟨h + 1, Nat.le_refl _, (hnext v).mp ⟨hv, hin⟩⟩
    · rintro ⟨d, hd, hdist⟩
      rcases Nat.lt_or_eq_of_le hd with hlt | rfl
      · exact .inl ⟨d, Nat.le_of_lt_succ hlt, hdist⟩
      · exact .inr ((hnext v).mpr hdist).1
  · intro v d
    rw [hseen.found, hex.found]
    constructor
    · rintro (⟨hpos, hd, hdist⟩ | ⟨hv, hout, rfl⟩)
      · exact ⟨hpos, Nat.le_succ_of_le hd, hdist⟩
      · exact ⟨Nat.succ_pos h, Nat.le_refl _, (hnext v).mp ⟨hv, hout⟩⟩
    · rintro ⟨hpos, hd, hdist⟩
      rcases Nat.lt_or_eq_of_le hd with hlt | rfl
      · exact .inl ⟨hpos, Nat.le_of_lt_succ hlt, hdist⟩
      · obtain ⟨hv, hout⟩ := (hnext v).mpr hdist
        exact .inr ⟨hv, hout, rfl⟩
  · intro v
    rw [hseen.frontier]
    simp only [List.not_mem_nil, false_or]
    exact hnext v
  · apply hseen.once _ hex.once
    rintro ⟨v, d⟩ hp
    obtain ⟨-, hd, hdist⟩ := (hex.found v d).mp hp
    exact (hex.visited v).mpr ⟨d, hd, hdist⟩

/-- A search that may stop early has found every point within the hops it was given. -/
theorem Explored.run (hnbrs : ∀ a b, b ∈ nbrs a ↔ r a b) (hex : Explored r s h st) (left : Nat) :
    (∀ v d, (v, d) ∈ (Search.run nbrs left (h + 1) st).found ↔
      1 ≤ d ∧ d ≤ h + left ∧ AtDistance r s d v) ∧
      ((Search.run nbrs left (h + 1) st).found.map Prod.fst).Nodup := by
  induction left generalizing h st with
  | zero => exact ⟨hex.found, hex.once⟩
  | succ left ih =>
    have hlevel := hex.level hnbrs
    rw [Search.run]
    by_cases hstop : (Search.level nbrs (h + 1) st).frontier = []
    · rw [if_pos hstop]
      refine ⟨?_, hlevel.once⟩
      intro v d
      rw [hlevel.found]
      constructor
      · rintro ⟨hpos, hd, hdist⟩
        exact ⟨hpos, by omega, hdist⟩
      · rintro ⟨hpos, -, hdist⟩
        refine ⟨hpos, ?_, hdist⟩
        have hnone : ∀ u, ¬ AtDistance r s (h + 1) u := by
          intro u hu
          have hin := (hlevel.frontier u).mpr hu
          rw [hstop] at hin
          exact List.not_mem_nil hin
        by_contra hfar
        have hbeyond := not_atDistance_add hnone (d - (h + 1)) v
        rw [Nat.add_sub_cancel' (by omega)] at hbeyond
        exact hbeyond hdist
    · rw [if_neg hstop]
      have hrest := ih hlevel
      rw [show h + (left + 1) = h + 1 + left by omega]
      exact hrest

theorem Search.run_start (hnbrs : ∀ a b, b ∈ nbrs a ↔ r a b) (s : α) (left : Nat) :
    (∀ v d, (v, d) ∈ (Search.run nbrs left 1 (Search.start s)).found ↔
      1 ≤ d ∧ d ≤ left ∧ AtDistance r s d v) ∧
      ((Search.run nbrs left 1 (Search.start s)).found.map Prod.fst).Nodup := by
  have hrun := (explored_start r s).run hnbrs left
  simp only [Nat.zero_add] at hrun
  exact hrun

end Levels
end Lib
