import Mathlib

namespace Lib
set_option autoImplicit true
set_option relaxedAutoImplicit false

namespace Query
variable {α κ : Type}

section Recursion
variable (arm : List α → List α)

/-- `WITH RECURSIVE`: the rows of the working table, then those of `arm` over it, for a number of
rounds. -/
def recursive : Nat → List α → List α
  | 0, _ => []
  | n + 1, w => w ++ recursive n (arm w)

variable {arm} {w : List α} {n k : Nat} {x : α}

/-- The working table after a number of rounds. -/
def working (arm : List α → List α) (w : List α) : Nat → List α
  | 0 => w
  | k + 1 => arm (working arm w k)

theorem working_succ (arm : List α → List α) (w : List α) (k : Nat) :
    working arm w (k + 1) = working arm (arm w) k := by
  induction k with
  | zero => rfl
  | succ k ih =>
    rw [working, ih]
    rfl

theorem mem_recursive : x ∈ recursive arm n w ↔ ∃ k < n, x ∈ working arm w k := by
  induction n generalizing w with
  | zero => simp [recursive]
  | succ n ih =>
    rw [recursive, List.mem_append, ih]
    constructor
    · rintro (hx | ⟨k, hk, hx⟩)
      · exact ⟨0, Nat.succ_pos n, hx⟩
      · rw [← working_succ] at hx
        exact ⟨k + 1, Nat.succ_lt_succ hk, hx⟩
    · rintro ⟨k, hk, hx⟩
      cases k with
      | zero => exact .inl hx
      | succ k =>
        rw [working_succ] at hx
        exact .inr ⟨k, Nat.lt_of_succ_lt_succ hk, hx⟩

theorem recursive_nil (harm : arm [] = []) (n : Nat) : recursive arm n [] = [] := by
  induction n with
  | zero => rfl
  | succ n ih => rw [recursive, harm, ih, List.nil_append]

/-- Once the working table is empty, no round adds a row. -/
theorem recursive_stops (harm : arm [] = []) (hstop : working arm w n = []) (m : Nat) :
    recursive arm (n + m) w = recursive arm n w := by
  induction n generalizing w with
  | zero =>
    have hnil : w = [] := hstop
    rw [hnil, recursive_nil harm, recursive]
  | succ n ih =>
    rw [working_succ] at hstop
    rw [Nat.add_right_comm, recursive, recursive, ih hstop]

end Recursion
section Distinct
variable [DecidableEq κ] (key : α → κ)

/-- `DISTINCT ON`: the first row of each key. -/
def distinctOn : List α → List α
  | [] => []
  | a :: rest => a :: (distinctOn rest).filter (fun b => key b ≠ key a)

variable {key} {l : List α} {x y : α} {r : α → α → Prop}

theorem distinctOn_sublist (key : α → κ) (l : List α) : (distinctOn key l).Sublist l := by
  induction l with
  | nil => exact .slnil
  | cons a rest ih => exact (List.filter_sublist.trans ih).cons_cons a

theorem distinctOn_nodup (key : α → κ) (l : List α) : ((distinctOn key l).map key).Nodup := by
  induction l with
  | nil => exact List.nodup_nil
  | cons a rest ih =>
    rw [distinctOn, List.map_cons, List.nodup_cons]
    constructor
    · intro h
      obtain ⟨b, hb, hkey⟩ := List.mem_map.mp h
      exact of_decide_eq_true (List.mem_filter.mp hb).2 hkey
    · exact List.Nodup.sublist (List.filter_sublist.map key) ih

/-- Each row has one of its key among the distinct ones, which stands before it or is it. -/
theorem exists_distinctOn (key : α → κ) (hr : l.Pairwise r) (hy : y ∈ l) :
    ∃ x ∈ distinctOn key l, key x = key y ∧ (x = y ∨ r x y) := by
  induction l with
  | nil => exact absurd hy List.not_mem_nil
  | cons a rest ih =>
    rw [List.pairwise_cons] at hr
    rcases List.mem_cons.mp hy with rfl | hy
    · exact ⟨y, List.mem_cons_self, rfl, .inl rfl⟩
    · by_cases hkey : key y = key a
      · exact ⟨a, List.mem_cons_self, hkey.symm, .inr (hr.1 y hy)⟩
      · obtain ⟨x, hx, hxy, hbefore⟩ := ih hr.2 hy
        refine ⟨x, List.mem_cons_of_mem a (List.mem_filter.mpr ⟨hx, ?_⟩), hxy, hbefore⟩
        rw [hxy]
        exact decide_eq_true hkey

end Distinct
section Limit
variable [LinearOrder κ] {key : α → κ} {l : List α} {x : α}

/-- `LIMIT` after an order without ties keeps the rows that few come before. -/
theorem mem_take_iff (h : l.Pairwise (fun a b => key a < key b)) (n : Nat) :
    x ∈ l.take n ↔ x ∈ l ∧ l.countP (fun y => key y < key x) < n := by
  induction l generalizing n with
  | nil => simp
  | cons a rest ih =>
    rw [List.pairwise_cons] at h
    have hhead : rest.countP (fun y => key y < key a) = 0 := by
      apply List.countP_eq_zero.mpr
      intro y hy
      simpa using (h.1 y hy).le
    cases n with
    | zero => simp
    | succ n =>
      rw [List.take_succ_cons, List.mem_cons, List.mem_cons, ih h.2, List.countP_cons]
      constructor
      · rintro (rfl | ⟨hx, hcount⟩)
        · refine ⟨.inl rfl, ?_⟩
          rw [hhead]
          simp
        · refine ⟨.inr hx, ?_⟩
          rw [if_pos (decide_eq_true (h.1 x hx))]
          exact Nat.succ_lt_succ hcount
      · rintro ⟨rfl | hx, hcount⟩
        · exact .inl rfl
        · rw [if_pos (decide_eq_true (h.1 x hx))] at hcount
          exact .inr ⟨hx, Nat.lt_of_succ_lt_succ hcount⟩

end Limit
end Query
end Lib
