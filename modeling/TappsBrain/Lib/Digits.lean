import Mathlib

namespace Lib
set_option autoImplicit true
set_option relaxedAutoImplicit false

/-- The last `w` decimal digits of a number, with leading zeros. -/
def fixedDigits : Nat → Nat → List Char
  | 0, _ => []
  | w + 1, n => fixedDigits w (n / 10) ++ [Nat.digitChar (n % 10)]

def digitValue (c : Char) : Nat := c.toNat - '0'.toNat

/-- The number that decimal digits spell. -/
def ofDecimal (cs : List Char) : Nat := cs.foldl (fun n c => 10 * n + digitValue c) 0

theorem digitChar_spec (d : Nat) (h : d < 10) :
    (Nat.digitChar d).isDigit = true ∧ digitValue (Nat.digitChar d) = d := by
  have hall : ∀ d < 10,
      (Nat.digitChar d).isDigit = true ∧ digitValue (Nat.digitChar d) = d := by decide
  exact hall d h

theorem fixedDigits_length (w n : Nat) : (fixedDigits w n).length = w := by
  induction w generalizing n with
  | zero => rfl
  | succ w ih => rw [fixedDigits, List.length_append, ih, List.length_singleton]

theorem fixedDigits_isDigit (w n : Nat) : ∀ c ∈ fixedDigits w n, c.isDigit = true := by
  induction w generalizing n with
  | zero => exact fun c hc => absurd hc List.not_mem_nil
  | succ w ih =>
    intro c hc
    rcases List.mem_append.1 hc with hc | hc
    · exact ih (n / 10) c hc
    · obtain rfl := List.mem_singleton.1 hc
      exact (digitChar_spec (n % 10) (Nat.mod_lt n (by decide))).1

theorem ofDecimal_fixedDigits (w n : Nat) (h : n < 10 ^ w) : ofDecimal (fixedDigits w n) = n := by
  induction w generalizing n with
  | zero =>
    obtain rfl : n = 0 := by
      rw [Nat.pow_zero] at h
      exact Nat.lt_one_iff.1 h
    rfl
  | succ w ih =>
    have hdiv : n / 10 < 10 ^ w := by
      apply Nat.div_lt_of_lt_mul
      rw [Nat.mul_comm, ← Nat.pow_succ]
      exact h
    have hrest := ih (n / 10) hdiv
    rw [ofDecimal] at hrest
    rw [ofDecimal, fixedDigits, List.foldl_append, hrest, List.foldl_cons, List.foldl_nil,
      (digitChar_spec (n % 10) (Nat.mod_lt n (by decide))).2]
    exact Nat.div_add_mod n 10

end Lib
