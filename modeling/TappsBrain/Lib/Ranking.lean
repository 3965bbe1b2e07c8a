import Mathlib.Algebra.BigOperators.Fin
import Mathlib.Algebra.BigOperators.Ring.Finset
import Mathlib.Algebra.Order.BigOperators.Group.List
import Mathlib.Algebra.Order.Field.Basic
import Mathlib.Data.List.Perm.Subperm
import Mathlib.Data.List.Sort
import Mathlib.Tactic.Abel
import Mathlib.Tactic.Linarith
import Mathlib.Tactic.Ring

namespace Lib
set_option autoImplicit true
set_option relaxedAutoImplicit false

open Finset

/-- What a gain at each rank is worth: less at every later rank, and never nothing. -/
structure Discounts (K : Type) [Zero K] [Preorder K] where
  weight : Nat → K
  pos : ∀ i, 0 < weight i
  decreasing : StrictAnti weight

section Gains
variable {K : Type} [Field K]

/-- The gain at a rank; past the end of the list there is none. -/
def gainAt (l : List K) (i : Nat) : K := (l[i]?).getD 0

theorem sum_gainAt (l : List K) (j : Nat) : ∑ i ∈ range j, gainAt l i = (l.take j).sum := by
  induction j with
  | zero => rfl
  | succ j ih =>
    rw [sum_range_succ, ih, List.take_add_one, List.sum_append, gainAt]
    cases l[j]? with
    | none => rfl
    | some x => simp only [Option.getD_some, Option.toList_some, List.sum_singleton]

/-- The loop `total += gain * weight` from rank `i` on. -/
def discountedSum [Preorder K] (D : Discounts K) (i : Nat) : List K → K
  | [] => 0
  | g :: l => g * D.weight i + discountedSum D (i + 1) l

theorem discountedSum_append [Preorder K] {D : Discounts K} (i : Nat) (a b : List K) :
    discountedSum D i (a ++ b) = discountedSum D i a + discountedSum D (i + a.length) b := by
  induction a generalizing i with
  | nil => rw [List.nil_append, discountedSum, zero_add, List.length_nil, Nat.add_zero]
  | cons g a ih =>
    have hlen : i + 1 + a.length = i + (a.length + 1) := by omega
    rw [List.cons_append, discountedSum, discountedSum, ih, List.length_cons, hlen, add_assoc]

theorem discountedSum_take [Preorder K] {D : Discounts K} (l : List K) (n : Nat) :
    discountedSum D 0 (l.take n) = ∑ i ∈ range n, gainAt l i * D.weight i := by
  induction n with
  | zero => rfl
  | succ n ih =>
    rw [List.take_add_one, discountedSum_append, ih, sum_range_succ, gainAt]
    cases h : l[n]? with
    | none => simp only [Option.toList_none, discountedSum, Option.getD_none, zero_mul]
    | some x =>
      have hlen : (l.take n).length = n := by
        rw [List.length_take]
        exact Nat.min_eq_left (List.getElem?_eq_some_iff.1 h).1.le
      simp only [Option.toList_some, discountedSum, Option.getD_some, hlen, Nat.zero_add, add_zero]

private theorem discountedSum_sub [Preorder K] {D : Discounts K} (a b : List K) (n : Nat) :
    discountedSum D 0 (b.take n) - discountedSum D 0 (a.take n) =
      ∑ i ∈ range n, (gainAt b i - gainAt a i) * D.weight i := by
  rw [discountedSum_take, discountedSum_take, ← sum_sub_distrib]
  exact sum_congr rfl (fun i _ => (sub_mul _ _ _).symm)

end Gains

section Sums
variable {K : Type} [Field K] [LinearOrder K] [IsStrictOrderedRing K] {D : Discounts K}
  {c : Nat → K} {n : Nat} {a b : List K}

/-- With no initial sum below zero the weights only move value forward. -/
theorem sum_mul_last_le (hc : ∀ j ≤ n, 0 ≤ ∑ i ∈ range j, c i) :
    (∑ i ∈ range n, c i) * D.weight n ≤ ∑ i ∈ range n, c i * D.weight i := by
  induction n with
  | zero => simp only [range_zero, sum_empty, zero_mul, le_refl]
  | succ n ih =>
    have hprev := ih (fun j hj => hc j (Nat.le_succ_of_le hj))
    have hstep : (∑ i ∈ range (n + 1), c i) * D.weight (n + 1) ≤
        (∑ i ∈ range (n + 1), c i) * D.weight n :=
      mul_le_mul_of_nonneg_left (D.decreasing (Nat.lt_succ_self n)).le (hc _ le_rfl)
    rw [sum_range_succ (fun i => c i * D.weight i)]
    rw [sum_range_succ, add_mul] at hstep ⊢
    linarith

theorem sum_mul_nonneg (hc : ∀ j ≤ n, 0 ≤ ∑ i ∈ range j, c i) :
    0 ≤ ∑ i ∈ range n, c i * D.weight i :=
  (mul_nonneg (hc n le_rfl) (D.pos n).le).trans (sum_mul_last_le hc)

/-- The bound is reached only where every initial sum vanishes. -/
theorem sums_zero_of_tight (hc : ∀ j ≤ n, 0 ≤ ∑ i ∈ range j, c i)
    (h : ∑ i ∈ range n, c i * D.weight i = (∑ i ∈ range n, c i) * D.weight n) :
    ∀ j ≤ n, ∑ i ∈ range j, c i = 0 := by
  induction n with
  | zero =>
    intro j hj
    rw [Nat.le_zero.1 hj, sum_range_zero]
  | succ n ih =>
    have hprev := sum_mul_last_le (D := D) (fun j hj => hc j (Nat.le_succ_of_le hj) : ∀ j ≤ n, _)
    have hlt : D.weight (n + 1) < D.weight n := D.decreasing (Nat.lt_succ_self n)
    have hlast := hc (n + 1) le_rfl
    have hsum := sum_range_succ c n
    rw [sum_range_succ] at h
    have hdrop : (∑ i ∈ range (n + 1), c i) * (D.weight n - D.weight (n + 1)) ≤ 0 := by
      rw [hsum] at h ⊢
      linarith [h]
    have hzero : ∑ i ∈ range (n + 1), c i = 0 := by
      by_contra hne
      have hpos := lt_of_le_of_ne hlast (Ne.symm hne)
      exact absurd hdrop (not_le.2 (mul_pos hpos (sub_pos.2 hlt)))
    have htight : ∑ i ∈ range n, c i * D.weight i = (∑ i ∈ range n, c i) * D.weight n := by
      rw [hzero, zero_mul] at h
      rw [hsum] at hzero
      have hneg : ∑ i ∈ range n, c i = - c n := by linarith
      rw [hneg]
      linarith
    intro j hj
    rcases Nat.lt_or_eq_of_le hj with hj | rfl
    · exact ih (fun i hi => hc i (Nat.le_succ_of_le hi)) htight j (Nat.le_of_lt_succ hj)
    · exact hzero

theorem sum_mul_eq_zero_iff (hc : ∀ j ≤ n, 0 ≤ ∑ i ∈ range j, c i) :
    ∑ i ∈ range n, c i * D.weight i = 0 ↔ ∀ i < n, c i = 0 := by
  constructor
  · intro h
    have hle := sum_mul_last_le (D := D) hc
    rw [h] at hle
    have hlast : ∑ i ∈ range n, c i = 0 := by
      by_contra hne
      have hpos := lt_of_le_of_ne (hc n le_rfl) (Ne.symm hne)
      exact absurd hle (not_le.2 (mul_pos hpos (D.pos n)))
    have hzero := sums_zero_of_tight (D := D) hc (by rw [h, hlast, zero_mul])
    intro i hi
    have hsum := sum_range_succ c i
    rw [hzero i hi.le, hzero (i + 1) hi, zero_add] at hsum
    exact hsum.symm
  · intro h
    exact sum_eq_zero (fun i hi => by rw [h i (mem_range.1 hi), zero_mul])

private theorem sums_of_takes (h : ∀ j ≤ n, (a.take j).sum ≤ (b.take j).sum) :
    ∀ j ≤ n, 0 ≤ ∑ i ∈ range j, (gainAt b i - gainAt a i) := by
  intro j hj
  rw [sum_sub_distrib, sum_gainAt, sum_gainAt]
  exact sub_nonneg.2 (h j hj)

/-- A list whose initial sums all reach another's is worth at least as much. -/
theorem discountedSum_le (h : ∀ j ≤ n, (a.take j).sum ≤ (b.take j).sum) :
    discountedSum D 0 (a.take n) ≤ discountedSum D 0 (b.take n) := by
  apply sub_nonneg.1
  rw [discountedSum_sub]
  exact sum_mul_nonneg (sums_of_takes h)

theorem discountedSum_eq_iff (h : ∀ j ≤ n, (a.take j).sum ≤ (b.take j).sum) :
    discountedSum D 0 (a.take n) = discountedSum D 0 (b.take n) ↔
      ∀ i < n, gainAt a i = gainAt b i := by
  rw [eq_comm, ← sub_eq_zero, discountedSum_sub, sum_mul_eq_zero_iff (sums_of_takes h)]
  apply forall_congr'
  intro i
  rw [sub_eq_zero, eq_comm]

theorem discountedSum_nonneg (i : Nat) {l : List K} (h : ∀ g ∈ l, 0 ≤ g) :
    0 ≤ discountedSum D i l := by
  induction l generalizing i with
  | nil => exact le_rfl
  | cons g l ih =>
    obtain ⟨hg, hl⟩ := List.forall_mem_cons.1 h
    exact add_nonneg (mul_nonneg hg (D.pos i).le) (ih (i + 1) hl)

theorem discountedSum_nonpos (i : Nat) {l : List K} (h : ∀ g ∈ l, g ≤ 0) :
    discountedSum D i l ≤ 0 := by
  induction l generalizing i with
  | nil => exact le_rfl
  | cons g l ih =>
    obtain ⟨hg, hl⟩ := List.forall_mem_cons.1 h
    exact add_nonpos (mul_nonpos_of_nonpos_of_nonneg hg (D.pos i).le) (ih (i + 1) hl)

end Sums

section Selection
variable {K : Type} [AddCommGroup K] [LinearOrder K] [IsOrderedAddMonoid K]

/-- No choice of `n` items adds up to more than the `n` greatest. -/
theorem sum_le_sum_take {l sorted : List K} {n : Nat} (hsorted : sorted.Pairwise (· ≥ ·))
    (hnonneg : ∀ g ∈ sorted, 0 ≤ g) (hsub : l.Subperm sorted) (hlen : l.length ≤ n) :
    l.sum ≤ (sorted.take n).sum := by
  induction sorted generalizing l n with
  | nil =>
    rw [List.subperm_nil.1 hsub, List.take_nil]
  | cons g sorted ih =>
    obtain ⟨hg, htail⟩ := List.forall_mem_cons.1 hnonneg
    obtain ⟨hhead, hrest⟩ := List.pairwise_cons.1 hsorted
    cases n with
    | zero =>
      rw [List.eq_nil_of_length_eq_zero (Nat.le_zero.1 hlen), List.take_zero]
    | succ n =>
      rw [List.take_succ_cons, List.sum_cons]
      by_cases hmem : g ∈ l
      · have hperm := List.perm_cons_erase hmem
        have herase : (l.erase g).Subperm sorted := by
          have h := hsub.erase g
          rwa [List.erase_cons_head] at h
        have hcount : (l.erase g).length ≤ n := by
          rw [List.length_erase_of_mem hmem]
          omega
        rw [hperm.sum_eq, List.sum_cons]
        exact add_le_add le_rfl (ih hrest htail herase hcount)
      · have hskip : l.Subperm sorted := by
          have h := hsub.erase g
          rwa [List.erase_of_not_mem hmem, List.erase_cons_head] at h
        cases l with
        | nil =>
          rw [List.sum_nil]
          apply add_nonneg hg
          exact List.sum_nonneg (fun x hx => htail x (List.mem_of_mem_take hx))
        | cons x l =>
          rw [List.sum_cons]
          apply add_le_add (hhead x (hskip.subset List.mem_cons_self))
          apply ih hrest htail ((List.sublist_cons_self x l).subperm.trans hskip)
          rw [List.length_cons] at hlen
          omega

/-- Bringing the greater of two items forward lessens no initial sum. -/
theorem sum_take_swap_le {x y : K} (hxy : x ≤ y) (before between after : List K) (j : Nat) :
    ((before ++ x :: (between ++ y :: after)).take j).sum ≤
      ((before ++ y :: (between ++ x :: after)).take j).sum := by
  rw [List.take_append, List.take_append, List.sum_append, List.sum_append]
  apply add_le_add le_rfl
  cases j - before.length with
  | zero => exact le_rfl
  | succ n =>
    rw [List.take_succ_cons, List.take_succ_cons, List.sum_cons, List.sum_cons, List.take_append,
      List.take_append, List.sum_append, List.sum_append]
    cases n - between.length with
    | zero => exact add_le_add hxy le_rfl
    | succ m =>
      rw [List.take_succ_cons, List.take_succ_cons, List.sum_cons, List.sum_cons]
      apply le_of_eq
      abel

end Selection
end Lib
