import TappsBrain.Lib.Run

namespace Lib
set_option autoImplicit true
set_option relaxedAutoImplicit false

section Noninterference
variable {σ α ω : Type} (step : α → σ → σ) (foreign : α → σ → Bool) (out : α → σ → Option ω)

/-- The run without the steps that are not the observer's business. -/
def purge : List α → σ → List α
  | [], _ => []
  | a :: rest, s =>
    if foreign a s then purge rest (step a s) else a :: purge rest (step a s)

/-- What the observer is told in the course of a run. -/
def outputs : List α → σ → List ω
  | [], _ => []
  | a :: rest, s => (out a s).toList ++ outputs rest (step a s)

variable {step foreign out}

/-- A relation that foreign steps cannot leave, and across which the other steps tell the observer
the same, makes a run and the purged run indistinguishable. -/
theorem purge_unwinds {R : σ → σ → Prop}
    (hforeign : ∀ a s t, R s t → foreign a s = true → R (step a s) t ∧ out a s = none)
    (hown : ∀ a s t, R s t → foreign a s = false → R (step a s) (step a t) ∧ out a s = out a t)
    (l : List α) {s t : σ} (h : R s t) :
    R (runSteps step l s) (runSteps step (purge step foreign l s) t) ∧
      outputs step out l s = outputs step out (purge step foreign l s) t := by
  induction l generalizing s t with
  | nil => exact ⟨h, rfl⟩
  | cons a rest ih =>
    cases hf : foreign a s with
    | true =>
      obtain ⟨hstep, hout⟩ := hforeign a s t h hf
      obtain ⟨hrun, houts⟩ := ih hstep
      rw [purge, if_pos hf, runSteps, outputs, hout]
      exact ⟨hrun, houts⟩
    | false =>
      obtain ⟨hstep, hout⟩ := hown a s t h hf
      obtain ⟨hrun, houts⟩ := ih hstep
      rw [purge, if_neg (by rw [hf]; decide), runSteps, runSteps, outputs, outputs, hout, houts]
      exact ⟨hrun, rfl⟩

end Noninterference
end Lib
