import Mathlib.Data.List.Basic

namespace Lib
set_option autoImplicit true
set_option relaxedAutoImplicit false

section Run
variable {σ α : Type} (step : α → σ → σ) (ok : α → σ → Bool)

/-- The state after the steps of a run. -/
def runSteps : List α → σ → σ
  | [], s => s
  | a :: rest, s => runSteps rest (step a s)

/-- Every step of the run is taken in a state in which it is allowed. -/
def Allowed : List α → σ → Prop
  | [], _ => True
  | a :: rest, s => ok a s = true ∧ Allowed rest (step a s)

instance Allowed.decidable : (l : List α) → (s : σ) → Decidable (Allowed step ok l s)
  | [], _ => isTrue trivial
  | a :: rest, s =>
    have := Allowed.decidable rest (step a s)
    inferInstanceAs (Decidable (_ ∧ _))

variable {step ok}

/-- An invariant that every allowed step keeps survives every allowed run. -/
theorem Allowed.keeps {I : σ → Prop} (hstep : ∀ a s, I s → ok a s = true → I (step a s))
    {l : List α} {s : σ} (hs : I s) (h : Allowed step ok l s) : I (runSteps step l s) := by
  induction l generalizing s with
  | nil => exact hs
  | cons a rest ih => exact ih (hstep a s hs h.1) h.2

theorem Allowed.append_left {l m : List α} {s : σ} (h : Allowed step ok (l ++ m) s) :
    Allowed step ok l s := by
  induction l generalizing s with
  | nil => trivial
  | cons a rest ih => exact ⟨h.1, ih h.2⟩

theorem Allowed.append_right {l m : List α} {s : σ} (h : Allowed step ok (l ++ m) s) :
    Allowed step ok m (runSteps step l s) := by
  induction l generalizing s with
  | nil => exact h
  | cons a rest ih => exact ih h.2

/-- Every step of the run is taken in a state that meets its condition. -/
def Guarded (step : α → σ → σ) (guard : α → σ → Prop) : List α → σ → Prop
  | [], _ => True
  | a :: rest, s => guard a s ∧ Guarded step guard rest (step a s)

instance Guarded.decidable {g : α → σ → Prop} [∀ a s, Decidable (g a s)] :
    (l : List α) → (s : σ) → Decidable (Guarded step g l s)
  | [], _ => isTrue trivial
  | a :: rest, s =>
    have := Guarded.decidable (g := g) rest (step a s)
    inferInstanceAs (Decidable (_ ∧ _))

theorem Guarded.keeps {guard : α → σ → Prop} {I : σ → Prop}
    (hstep : ∀ a s, I s → guard a s → I (step a s)) {l : List α} {s : σ} (hs : I s)
    (h : Guarded step guard l s) : I (runSteps step l s) := by
  induction l generalizing s with
  | nil => exact hs
  | cons a rest ih => exact ih (hstep a s hs h.1) h.2

theorem Guarded.imp {guard guard' : α → σ → Prop} {l : List α} {s : σ}
    (h : Guarded step guard l s) (himp : ∀ a ∈ l, ∀ t, guard a t → guard' a t) :
    Guarded step guard' l s := by
  induction l generalizing s with
  | nil => trivial
  | cons a rest ih =>
    exact ⟨himp a List.mem_cons_self s h.1, ih h.2 (fun b hb => himp b (List.mem_cons_of_mem a hb))⟩

theorem runSteps_append (l m : List α) (s : σ) :
    runSteps step (l ++ m) s = runSteps step m (runSteps step l s) := by
  induction l generalizing s with
  | nil => rfl
  | cons a rest ih => exact ih (step a s)

/-- An invariant that every step of the run keeps in any state. -/
theorem runSteps_keeps {I : σ → Prop} {l : List α} {s : σ} (h : ∀ a ∈ l, ∀ s, I s → I (step a s))
    (hs : I s) : I (runSteps step l s) := by
  induction l generalizing s with
  | nil => exact hs
  | cons a rest ih =>
    apply ih (fun b hb => h b (List.mem_cons_of_mem a hb))
    exact h a List.mem_cons_self s hs

end Run
end Lib
