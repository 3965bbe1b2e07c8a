import TappsBrain.Lib.Prog

namespace Lib
set_option autoImplicit true
set_option relaxedAutoImplicit false

variable {σ ε α β : Type}

/-- `p` returns from `s`, with a result and in a state that satisfy `R`. -/
def Leads (p : Prog σ ε α) (s : σ) (R : α → σ → Prop) : Prop :=
  ∃ a t, p s = (.ok a, t) ∧ R a t

namespace Leads
variable {p : Prog σ ε α} {s t : σ} {R R' : α → σ → Prop}

theorem of_run {a : α} (hr : p s = (.ok a, t)) (h : R a t) : Leads p s R := ⟨a, t, hr, h⟩

theorem pure {a : α} (h : R a s) : Leads (Pure.pure a : Prog σ ε α) s R := ⟨a, s, rfl, h⟩

theorem mono (hp : Leads p s R) (h : ∀ a t, R a t → R' a t) : Leads p s R' := by
  obtain ⟨a, t, hr, ha⟩ := hp
  exact ⟨a, t, hr, h a t ha⟩

theorem bind {f : α → Prog σ ε β} {T : β → σ → Prop} (hp : Leads p s R)
    (hf : ∀ a t, R a t → Leads (f a) t T) : Leads (p >>= f) s T := by
  obtain ⟨a, t, hr, ha⟩ := hp
  obtain ⟨b, u, hu, hb⟩ := hf a t ha
  exact ⟨b, u, (Prog.bind_run_ok hr).trans hu, hb⟩

/-- A handler is not asked. -/
theorem handle {h : ε → Prog σ ε α} (hp : Leads p s R) : Leads (Prog.handle p h) s R := by
  obtain ⟨a, t, hr, ha⟩ := hp
  exact ⟨a, t, by rw [Prog.handle_run, hr], ha⟩

/-- What runs in the end finds the state the body left. -/
theorem ensure {after : Prog σ ε Unit} {T : α → σ → Prop} (hp : Leads p s R)
    (ha : ∀ a t, R a t → Leads after t (fun _ u => T a u)) : Leads (Prog.ensure p after) s T :=
  hp.handle.bind (fun a t hr => (ha a t hr).bind (fun _ _ hu => .pure hu))

end Leads

/-- What cannot raise returns. -/
theorem Triple.leads {P : σ → Prop} {p : Prog σ ε α} {R : α → σ → Prop} {E : ε → σ → Prop} {s : σ}
    (h : Triple P p R E) (hs : P s) (hE : ∀ e t, ¬ E e t) : Leads p s R := by
  have h := h s hs
  rcases hr : p s with ⟨e | a, t⟩
  · rw [hr] at h
    exact absurd h (hE e t)
  · rw [hr] at h
    exact .of_run hr h

section Loops
variable {I : σ → Prop} {E : ε → σ → Prop} {l : List α}

/-- A loop over steps that keep `I`, and raise into `E` only. -/
theorem Triple.forEach {f : α → Prog σ ε Unit} (h : ∀ a ∈ l, Triple I (f a) (fun _ => I) E) :
    Triple I (Prog.forEach f l) (fun _ => I) E := by
  induction l with
  | nil => exact Triple.pure (fun _ hs => hs)
  | cons a rest ih =>
    apply (h a List.mem_cons_self).bind
    intro _
    exact ih (fun b hb => h b (List.mem_cons_of_mem a hb))

theorem Triple.mapEach {f : α → Prog σ ε β} (h : ∀ a ∈ l, Triple I (f a) (fun _ => I) E) :
    Triple I (Prog.mapEach f l) (fun _ => I) E := by
  induction l with
  | nil => exact Triple.pure (fun _ hs => hs)
  | cons a rest ih =>
    apply (h a List.mem_cons_self).bind
    intro _
    apply (ih (fun b hb => h b (List.mem_cons_of_mem a hb))).bind
    intro _
    exact Triple.pure (fun _ hs => hs)

end Loops

/-- Where a run that keeps `I` returns, `I` holds. -/
theorem Keeps.leads {I : σ → Prop} {p : Prog σ ε α} {Q : α → Prop} {R : α → σ → Prop} {s : σ}
    (h : Keeps I p Q) (hs : I s) (hp : Leads p s R) : Leads p s (fun a t => I t ∧ R a t) := by
  obtain ⟨a, t, hr, ha⟩ := hp
  exact ⟨a, t, hr, (Triple.ok h hs hr).1, ha⟩

/-- Which of two contracts a run from `P` meets, `D` decides where it starts: without `D` it
returns into `Q` or raises in `I`, with `D` it returns into `S` or raises in `H`. -/
structure Decides (P D : σ → Prop) (p : Prog σ ε α) (Q S : α → σ → Prop) (I H : σ → Prop) :
    Prop where
  clean : Triple (fun s => P s ∧ ¬ D s) p Q (fun _ => I)
  harmed : Triple (fun s => P s ∧ D s) p S (fun _ => H)

namespace Decides
variable {P P' D D' : σ → Prop} {p : Prog σ ε α} {Q Q' S S' : α → σ → Prop} {I H : σ → Prop}

/-- The contracts one run meets. -/
def At (D : Prop) (r : Except ε α × σ) (Q S : α → σ → Prop) (I H : σ → Prop) : Prop :=
  match r with
  | (.ok a, t) => (¬ D → Q a t) ∧ (D → S a t)
  | (.error _, t) => (¬ D → I t) ∧ (D → H t)

theorem at_harmed {C : Prop} {T : σ → Prop} (hC : C) (h : Triple T p S (fun _ => H)) (hs : T s) :
    At C (p s) Q S I H := by
  rcases hr : p s with ⟨e | a, t⟩
  · exact ⟨fun hc => absurd hC hc, fun _ => h.error hs hr⟩
  · exact ⟨fun hc => absurd hC hc, fun _ => h.ok hs hr⟩

theorem intro (h : ∀ s, P s → At (D s) (p s) Q S I H) : Decides P D p Q S I H where
  clean := by
    rintro s ⟨hs, hd⟩
    have h := h s hs
    rcases hr : p s with ⟨e | a, t⟩ <;> rw [hr] at h <;> exact h.1 hd
  harmed := by
    rintro s ⟨hs, hd⟩
    have h := h s hs
    rcases hr : p s with ⟨e | a, t⟩ <;> rw [hr] at h <;> exact h.2 hd

theorem run (h : Decides P D p Q S I H) (hs : P s) : At (D s) (p s) Q S I H := by
  rcases hr : p s with ⟨e | a, t⟩
  · exact ⟨fun hd => h.clean.error ⟨hs, hd⟩ hr, fun hd => h.harmed.error ⟨hs, hd⟩ hr⟩
  · exact ⟨fun hd => h.clean.ok ⟨hs, hd⟩ hr, fun hd => h.harmed.ok ⟨hs, hd⟩ hr⟩

theorem mono (h : Decides P D p Q S I H) (hP : ∀ s, P' s → P s) (hQ : ∀ a s, Q a s → Q' a s)
    (hS : ∀ a s, S a s → S' a s) : Decides P' D p Q' S' I H where
  clean := h.clean.mono (fun s hs => ⟨hP s hs.1, hs.2⟩) hQ (fun _ _ => id)
  harmed := h.harmed.mono (fun s hs => ⟨hP s hs.1, hs.2⟩) hS (fun _ _ => id)

theorem congr (h : Decides P D p Q S I H) (hD : ∀ s, P s → (D' s ↔ D s)) :
    Decides P D' p Q S I H where
  clean := h.clean.mono (fun s hs => ⟨hs.1, fun hd => hs.2 ((hD s hs.1).2 hd)⟩) (fun _ _ => id)
    (fun _ _ => id)
  harmed := h.harmed.mono (fun s hs => ⟨hs.1, (hD s hs.1).1 hs.2⟩) (fun _ _ => id)
    (fun _ _ => id)

theorem assume {F : Prop} (h : F → Decides P D p Q S I H) :
    Decides (fun s => P s ∧ F) D p Q S I H where
  clean := fun s hs => (h hs.1.2).clean s ⟨hs.1.1, hs.2⟩
  harmed := fun s hs => (h hs.1.2).harmed s ⟨hs.1.1, hs.2⟩

/-- A program that does no harm. -/
theorem harmless (h : Triple P p Q (fun _ => I)) : Decides P (fun _ => False) p Q S I H where
  clean := h.mono (fun _ hs => hs.1) (fun _ _ => id) (fun _ _ => id)
  harmed := fun _ hs => hs.2.elim

theorem pure {a : α} (hQ : ∀ s, P s → Q a s) (hD : ∀ s, P s → ¬ D s) :
    Decides P D (Pure.pure a : Prog σ ε α) Q S I H where
  clean := Triple.pure (fun s hs => hQ s hs.1)
  harmed := Triple.pure (fun s hs => absurd hs.2 (hD s hs.1))

theorem keeps (h : Keeps I p) (hP : ∀ s, P s → I s) (hQ : ∀ a s, I s → Q a s) :
    Decides P (fun _ => False) p Q S I H :=
  harmless (Triple.mono h hP (fun a s hs => hQ a s hs.1) (fun _ _ => id))

/-- Harm is decided by the first program, or by the second where the first returns. What the
second starts with once harm is done it must leave harmed. -/
theorem bind {f : α → Prog σ ε β} {F : α → σ → Prop} {R T : β → σ → Prop}
    (hp : Decides P D p Q S I H) (hf : ∀ a, Decides (Q a) (F a) (f a) R T I H)
    (hS : ∀ a, Triple (S a) (f a) T (fun _ => H)) :
    Decides P (fun s => D s ∨ Leads p s F) (p >>= f) R T I H where
  clean := by
    rintro s ⟨hs, hd⟩
    have h := hp.clean s ⟨hs, fun h => hd (.inl h)⟩
    rw [Prog.bind_run]
    rcases hr : p s with ⟨e | a, t⟩
    · rw [hr] at h
      exact h
    · rw [hr] at h
      exact (hf a).clean t ⟨h, fun hF => hd (.inr ⟨a, t, hr, hF⟩)⟩
  harmed := by
    rintro s ⟨hs, hd⟩
    by_cases hD : D s
    · exact (hp.harmed.bind hS) s ⟨hs, hD⟩
    · obtain ⟨a, t, hr, hF⟩ := hd.resolve_left hD
      have h := hp.clean s ⟨hs, hD⟩
      rw [hr] at h
      rw [Prog.bind_run_ok hr]
      exact (hf a).harmed t ⟨h, hF⟩

/-- A harmless program in front: harm is decided where it returns. -/
theorem after {f : α → Prog σ ε β} {F : α → σ → Prop} {R T : β → σ → Prop}
    (hp : Triple P p Q (fun _ => I)) (hf : ∀ a, Decides (Q a) (F a) (f a) R T I H) :
    Decides P (fun s => Leads p s F) (p >>= f) R T I H :=
  ((harmless (S := fun _ _ => False) hp).bind hf (fun _ _ h => h.elim)).congr
    (fun _ _ => by rw [false_or])

/-- A harmless program behind, which leaves harm as it is. -/
theorem before {f : α → Prog σ ε β} {R T : β → σ → Prop} (hp : Decides P D p Q S I H)
    (hf : ∀ a, Triple (Q a) (f a) R (fun _ => I)) (hS : ∀ a, Triple (S a) (f a) T (fun _ => H)) :
    Decides P D (p >>= f) R T I H :=
  ⟨hp.clean.bind hf, hp.harmed.bind hS⟩

end Decides

/-- `I` survives a run from where `D` does not hold, and every returned value is a `Q`. -/
def KeepsUnless (I D : σ → Prop) (p : Prog σ ε α) (Q : α → Prop := fun _ => True) : Prop :=
  Triple (fun s => I s ∧ ¬ D s) p (fun a s => I s ∧ Q a) (fun _ => I)

theorem Keeps.unless {I D : σ → Prop} {p : Prog σ ε α} {Q : α → Prop} (h : Keeps I p Q) :
    KeepsUnless I D p Q :=
  Triple.mono h (fun _ hs => hs.1) (fun _ _ => id) (fun _ _ => id)

namespace KeepsUnless
variable {I D D' : σ → Prop} {p : Prog σ ε α} {Q Q' : α → Prop}

theorem keeps (h : KeepsUnless I D p Q) (hD : ∀ s, I s → ¬ D s) : Keeps I p Q :=
  Triple.mono h (fun s hs => ⟨hs, hD s hs⟩) (fun _ _ => id) (fun _ _ => id)

theorem mono (h : KeepsUnless I D p Q) (hD : ∀ s, I s → D s → D' s) (hQ : ∀ a, Q a → Q' a) :
    KeepsUnless I D' p Q' :=
  Triple.mono h (fun s hs => ⟨hs.1, fun hd => hs.2 (hD s hs.1 hd)⟩) (fun a _ ha => ⟨ha.1, hQ a ha.2⟩)
    (fun _ _ => id)

theorem forget (h : KeepsUnless I D p Q) : KeepsUnless I D p :=
  h.mono (fun _ _ => id) (fun _ _ => trivial)

/-- Where the first program returns, the second must not meet what it does not survive. -/
theorem bind {f : α → Prog σ ε β} {F : α → σ → Prop} {R : β → Prop} (hp : KeepsUnless I D p Q)
    (hf : ∀ a, Q a → KeepsUnless I (F a) (f a) R) :
    KeepsUnless I (fun s => D s ∨ Leads p s F) (p >>= f) R := by
  rintro s ⟨hs, hd⟩
  have h := hp s ⟨hs, fun h => hd (.inl h)⟩
  rw [Prog.bind_run]
  rcases hr : p s with ⟨e | a, t⟩
  · rw [hr] at h
    exact h
  · rw [hr] at h
    exact hf a h.2 t ⟨h.1, fun hF => hd (.inr ⟨a, t, hr, hF⟩)⟩

theorem after {f : α → Prog σ ε β} {F : α → σ → Prop} {R : β → Prop} (hp : Keeps I p Q)
    (hf : ∀ a, Q a → KeepsUnless I (F a) (f a) R) :
    KeepsUnless I (fun s => Leads p s F) (p >>= f) R :=
  (hp.unless (D := fun _ => False)).bind hf |>.mono (fun _ _ h => h.resolve_left id) (fun _ => id)

theorem before {f : α → Prog σ ε β} {R : β → Prop} (hp : KeepsUnless I D p Q)
    (hf : ∀ a, Q a → Keeps I (f a) R) : KeepsUnless I D (p >>= f) R :=
  Triple.bind hp (fun a s hs => hf a hs.2 s hs.1)

theorem handle {h : ε → Prog σ ε α} (hp : KeepsUnless I D p Q) (hh : ∀ e, Keeps I (h e) Q) :
    KeepsUnless I D (Prog.handle p h) Q :=
  Triple.handle hp hh

end KeepsUnless
end Lib
