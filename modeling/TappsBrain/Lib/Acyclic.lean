import Mathlib.Data.List.Dedup
import Mathlib.Data.List.Perm.Subperm
import Mathlib.Logic.Relation

namespace Lib
open Relation
set_option autoImplicit true
set_option relaxedAutoImplicit false

variable {α : Type} {R S : α → α → Prop} {A : α → Prop} {a b : α}

/-- No path returns to where it started. -/
def Acyclic (R : α → α → Prop) : Prop := ∀ a, ¬ TransGen R a a

/-- The relation with an arrow from everything in `A` to `b`. -/
def pointing (R : α → α → Prop) (A : α → Prop) (b : α) (x y : α) : Prop := R x y ∨ A x ∧ y = b

theorem Acyclic.mono (h : Acyclic R) (hS : ∀ a b, S a b → R a b) : Acyclic S :=
  fun a ha => h a (TransGen.mono hS a a ha)

theorem TransGen.of_pointing (hA : ∀ a, A a → ¬ ReflTransGen R b a) {x y : α}
    (h : TransGen (pointing R A b) x y) :
    TransGen R x y ∨ ∃ a, A a ∧ ReflTransGen R x a ∧ ReflTransGen R b y := by
  induction h with
  | single h =>
    rcases h with h | ⟨hx, rfl⟩
    · exact .inl (.single h)
    · exact .inr ⟨x, hx, .refl, .refl⟩
  | @tail y z _ hyz ih =>
    rcases ih with hxy | ⟨a, ha, hxa, hby⟩
    · rcases hyz with hyz | ⟨hy, rfl⟩
      · exact .inl (hxy.tail hyz)
      · exact .inr ⟨y, hy, hxy.to_reflTransGen, .refl⟩
    · rcases hyz with hyz | ⟨hy, _⟩
      · exact .inr ⟨a, ha, hxa, hby.tail hyz⟩
      · exact absurd hby (hA y hy)

/-- Arrows into a point from which their origins are not reached close no cycle. -/
theorem Acyclic.pointing (h : Acyclic R) (hA : ∀ a, A a → ¬ ReflTransGen R b a) :
    Acyclic (pointing R A b) := by
  intro x hx
  rcases TransGen.of_pointing hA hx with hx | ⟨a, ha, hxa, hbx⟩
  · exact h x hx
  · exact hA a ha (hbx.trans hxa)

def pointingAll (R : α → α → Prop) : List ((α → Prop) × α) → α → α → Prop
  | [] => R
  | p :: rest => pointingAll (Lib.pointing R p.1 p.2) rest

/-- No arrow, added in this order, leads to where its origin is reached. -/
def Onward (R : α → α → Prop) : List ((α → Prop) × α) → Prop
  | [] => True
  | p :: rest => (∀ a, p.1 a → ¬ ReflTransGen R p.2 a) ∧ Onward (Lib.pointing R p.1 p.2) rest

theorem Acyclic.pointingAll {arrows : List ((α → Prop) × α)} (h : Acyclic R) (ho : Onward R arrows) :
    Acyclic (pointingAll R arrows) := by
  induction arrows generalizing R with
  | nil => exact h
  | cons p rest ih => exact ih (h.pointing ho.1) ho.2

theorem pointingAll_of_rel {arrows : List ((α → Prop) × α)} (h : R a b) : pointingAll R arrows a b := by
  induction arrows generalizing R with
  | nil => exact h
  | cons p rest ih => exact ih (R := Lib.pointing R p.1 p.2) (.inl h)

theorem pointingAll_of_mem {arrows : List ((α → Prop) × α)} {p : (α → Prop) × α} (hp : p ∈ arrows)
    (ha : p.1 a) : pointingAll R arrows a p.2 := by
  induction arrows generalizing R with
  | nil => cases hp
  | cons q rest ih =>
    rcases List.mem_cons.1 hp with rfl | hp
    · have hnew : Lib.pointing R p.1 p.2 a p.2 := .inr ⟨ha, rfl⟩
      exact pointingAll_of_rel (R := Lib.pointing R p.1 p.2) hnew
    · exact ih hp

/-- At most `n` steps along `next`. -/
def follow (next : α → Option α) : Nat → α → List α
  | 0, a => [a]
  | n + 1, a =>
    match next a with
    | none => [a]
    | some b => a :: follow next n b

section Follow
variable {next : α → Option α} {n : Nat}

theorem reaches_of_mem_follow {x : α} (h : x ∈ follow next n a) :
    ReflTransGen (fun a b => next a = some b) a x := by
  induction n generalizing a with
  | zero =>
    rw [List.mem_singleton.1 h]
  | succ n ih =>
    rw [follow] at h
    split at h
    · rw [List.mem_singleton.1 h]
    · next b hb =>
      rcases List.mem_cons.1 h with rfl | h
      · exact .refl
      · exact (ih h).head hb

theorem follow_nodup (h : Acyclic (fun a b => next a = some b)) (n : Nat) (a : α) :
    (follow next n a).Nodup := by
  induction n generalizing a with
  | zero => exact List.nodup_singleton a
  | succ n ih =>
    rw [follow]
    split
    · exact List.nodup_singleton a
    · next b hb =>
      rw [List.nodup_cons]
      refine ⟨fun hmem => ?_, ih b⟩
      exact h a (TransGen.head' hb (reaches_of_mem_follow hmem))

/-- All but the end of the walk have a next point. -/
theorem length_follow_le (n : Nat) (a : α) :
    (follow next n a).length ≤ ((follow next n a).filter (fun x => (next x).isSome)).length + 1 := by
  induction n generalizing a with
  | zero => exact Nat.le_add_left 1 _
  | succ n ih =>
    rw [follow]
    split
    · exact Nat.le_add_left 1 _
    · next b hb =>
      rw [List.filter_cons_of_pos (by rw [hb]; rfl), List.length_cons, List.length_cons]
      exact Nat.succ_le_succ (ih b)

/-- Without a cycle a walk is no longer than the points that have a next one. -/
theorem length_follow (h : Acyclic (fun a b => next a = some b)) {points : List α}
    (hpoints : ∀ x, (next x).isSome = true → x ∈ points) (n : Nat) (a : α) :
    (follow next n a).length ≤ points.length + 1 := by
  have hnodup := (follow_nodup h n a).filter (fun x => (next x).isSome)
  have hsub : (follow next n a).filter (fun x => (next x).isSome) ⊆ points :=
    fun x hx => hpoints x (List.mem_filter.1 hx).2
  have hle := (List.subperm_of_subset hnodup hsub).length_le
  exact Nat.le_trans (length_follow_le n a) (Nat.succ_le_succ hle)

/-- A walk shorter than it may be has come to an end. -/
theorem follow_ends (n : Nat) (a : α) (h : (follow next n a).length ≤ n) :
    ∃ x, (follow next n a).getLast? = some x ∧ next x = none := by
  induction n generalizing a with
  | zero => exact absurd h (Nat.not_succ_le_zero 0)
  | succ n ih =>
    rw [follow] at h ⊢
    split at h
    · next hnone => exact ⟨a, rfl, hnone⟩
    · next b hb =>
      obtain ⟨x, hlast, hx⟩ := ih b (Nat.le_of_succ_le_succ h)
      refine ⟨x, ?_, hx⟩
      cases hf : follow next n b with
      | nil =>
        rw [hf] at hlast
        cases hlast
      | cons c rest =>
        rw [hf] at hlast
        exact hlast

end Follow
end Lib
