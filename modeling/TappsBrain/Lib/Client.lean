import Mathlib.Data.List.Basic

namespace Lib
set_option autoImplicit true
set_option relaxedAutoImplicit false

/-- A program that issues calls and may choose each by the replies to the ones before. -/
inductive Client (ι ο α : Type) where
  | done (a : α)
  | call (i : ι) (next : ο → Client ι ο α)

namespace Client
variable {ι ο α σ τ : Type}

/-- The result, the replies it was computed from, and the state the calls leave. -/
def run (answer : ι → σ → ο × σ) : Client ι ο α → σ → α × List ο × σ
  | done a, s => (a, [], s)
  | call i next, s =>
    let r := (next (answer i s).1).run answer (answer i s).2
    (r.1, (answer i s).1 :: r.2.1, r.2.2)

/-- Every call is issued in a state in which it is allowed. -/
def Guarded (answer : ι → σ → ο × σ) (guard : ι → σ → Prop) : Client ι ο α → σ → Prop
  | done _, _ => True
  | call i next, s => guard i s ∧ (next (answer i s).1).Guarded answer guard (answer i s).2

/-- Two ways to answer that agree on every allowed call, up to a relation of their states, cannot
be told apart by a client that keeps to the allowed calls. -/
theorem run_simulates {answer : ι → σ → ο × σ} {answer' : ι → τ → ο × τ} {guard : ι → σ → Prop}
    {R : σ → τ → Prop}
    (hstep : ∀ i s t, R s t → guard i s → (answer i s).1 = (answer' i t).1 ∧
      R (answer i s).2 (answer' i t).2)
    {p : Client ι ο α} {s : σ} {t : τ} (hR : R s t) (h : p.Guarded answer guard s) :
    (p.run answer s).1 = (p.run answer' t).1 ∧
      (p.run answer s).2.1 = (p.run answer' t).2.1 ∧
        R (p.run answer s).2.2 (p.run answer' t).2.2 := by
  induction p generalizing s t with
  | done a => exact ⟨rfl, rfl, hR⟩
  | call i next ih =>
    obtain ⟨hguard, hrest⟩ := h
    obtain ⟨hreply, hR'⟩ := hstep i s t hR hguard
    obtain ⟨hresult, hreplies, hend⟩ := ih (answer i s).1 hR' hrest
    rw [hreply] at hresult hreplies hend
    refine ⟨?_, ?_, ?_⟩
    · rw [run, run, hreply]
      exact hresult
    · rw [run, run, hreply]
      exact congrArg _ hreplies
    · rw [run, run, hreply]
      exact hend

end Client
end Lib
