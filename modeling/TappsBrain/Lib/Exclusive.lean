import Mathlib.Logic.Function.Basic

namespace Lib
set_option autoImplicit true
set_option relaxedAutoImplicit false

/-- Who is in its critical section holds the lock. -/
def Exclusive (critical : π → Prop) (holder : Option Nat) (phase : Nat → π) : Prop :=
  ∀ i, critical (phase i) → holder = some i

/-- What holds of the phase of each holds after one of them has changed. -/
theorem forall_update {P : Nat → π → Prop} {phase : Nat → π} {i : Nat} {p : π}
    (h : ∀ j, j ≠ i → P j (phase j)) (hp : P i p) : ∀ j, P j (Function.update phase i p j) := by
  intro j
  by_cases hj : j = i
  · subst hj
    rwa [Function.update_self]
  · rw [Function.update_of_ne hj]
    exact h j hj

namespace Exclusive
variable {π : Type} {critical : π → Prop} {holder : Option Nat} {phase : Nat → π}

theorem others (h : Exclusive critical holder phase) {i j : Nat} (hi : critical (phase i))
    (hne : j ≠ i) : ¬ critical (phase j) := by
  intro hj
  have := (h i hi).symm.trans (h j hj)
  exact hne (Option.some.inj this).symm

theorem free (h : Exclusive critical holder phase) (hfree : holder = none) (i : Nat) :
    ¬ critical (phase i) := by
  intro hi
  rw [h i hi] at hfree
  cases hfree

theorem goto (h : Exclusive critical holder phase) {i : Nat} {p : π}
    (hp : critical p → holder = some i) : Exclusive critical holder (Function.update phase i p) :=
  forall_update (P := fun j q => critical q → holder = some j) (fun j _ => h j) hp

theorem enter (h : Exclusive critical holder phase) (hfree : holder = none) {i : Nat} {p : π} :
    Exclusive critical (some i) (Function.update phase i p) :=
  forall_update (P := fun j q => critical q → some i = some j)
    (fun j _ hj => absurd hj (h.free hfree j)) (fun _ => rfl)

theorem leave (h : Exclusive critical holder phase) {i : Nat} {p : π} (hp : ¬ critical p) :
    Exclusive critical (if holder = some i then none else holder)
      (Function.update phase i p) := by
  apply forall_update (P := fun j q => critical q → (if holder = some i then none else holder) = some j)
  · intro j hne hj
    rw [h j hj, if_neg (fun heq => hne (Option.some.inj heq))]
  · exact fun hc => absurd hc hp

end Exclusive
end Lib
