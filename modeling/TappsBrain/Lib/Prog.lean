import Mathlib.Logic.Basic

namespace Lib
set_option autoImplicit true
set_option relaxedAutoImplicit false

/-- A stateful program that may raise; what it did to the state outlives the exception. -/
def Prog (σ ε α : Type) : Type := σ → Except ε α × σ

namespace Prog
variable {σ ε α β γ : Type}

instance : Monad (Prog σ ε) where
  pure a := fun s => (.ok a, s)
  bind p f := fun s =>
    match p s with
    | (.ok a, t) => f a t
    | (.error e, t) => (.error e, t)

def raise (e : ε) : Prog σ ε α := fun s => (.error e, s)

def read (f : σ → α) : Prog σ ε α := fun s => (.ok (f s), s)

def modify (f : σ → σ) : Prog σ ε Unit := fun s => (.ok (), f s)

/-- `try p except e: h e`: the handler starts in the state in which `p` raised. -/
def handle (p : Prog σ ε α) (h : ε → Prog σ ε α) : Prog σ ε α := fun s =>
  match p s with
  | (.ok a, t) => (.ok a, t)
  | (.error e, t) => h e t

/-- `try p except: h; raise`. -/
def rollback (p : Prog σ ε α) (h : Prog σ ε Unit) : Prog σ ε α :=
  handle p (fun e => do h; raise e)

/-- `try p except: pass`. -/
def swallow (p : Prog σ ε Unit) : Prog σ ε Unit := handle p (fun _ => pure ())

/-- `try p finally: after`. -/
def ensure (p : Prog σ ε α) (after : Prog σ ε Unit) : Prog σ ε α := do
  let a ← rollback p after
  after
  pure a

def ofExcept : Except ε α → Prog σ ε α
  | .ok a => pure a
  | .error e => raise e

def forEach (f : α → Prog σ ε Unit) : List α → Prog σ ε Unit
  | [] => pure ()
  | a :: rest => do f a; forEach f rest

def mapEach (f : α → Prog σ ε β) : List α → Prog σ ε (List β)
  | [] => pure []
  | a :: rest => do
    let b ← f a
    let bs ← mapEach f rest
    pure (b :: bs)

/-- `[a for a in l if f(a)]`. -/
def filterEach (f : α → Prog σ ε Bool) : List α → Prog σ ε (List α)
  | [] => pure []
  | a :: rest => do
    let keep ← f a
    let kept ← filterEach f rest
    pure (if keep then a :: kept else kept)

def result (p : Prog σ ε α) (s : σ) : Except ε α := (p s).1

def final (p : Prog σ ε α) (s : σ) : σ := (p s).2

@[simp] theorem pure_run (a : α) (s : σ) : (pure a : Prog σ ε α) s = (.ok a, s) := rfl

@[simp] theorem raise_run (e : ε) (s : σ) : (raise e : Prog σ ε α) s = (.error e, s) := rfl

@[simp] theorem read_run (f : σ → α) (s : σ) : (read f : Prog σ ε α) s = (.ok (f s), s) := rfl

@[simp] theorem modify_run (f : σ → σ) (s : σ) : (modify f : Prog σ ε Unit) s = (.ok (), f s) := rfl

theorem bind_run (p : Prog σ ε α) (f : α → Prog σ ε β) (s : σ) :
    (p >>= f) s = match p s with
      | (.ok a, t) => f a t
      | (.error e, t) => (.error e, t) := rfl

theorem bind_run_ok {p : Prog σ ε α} {f : α → Prog σ ε β} {s t : σ} {a : α}
    (h : p s = (.ok a, t)) : (p >>= f) s = f a t := by
  rw [bind_run, h]

theorem bind_run_error {p : Prog σ ε α} {f : α → Prog σ ε β} {s t : σ} {e : ε}
    (h : p s = (.error e, t)) : (p >>= f) s = (.error e, t) := by
  rw [bind_run, h]

theorem bind_assoc (p : Prog σ ε α) (f : α → Prog σ ε β) (g : β → Prog σ ε γ) :
    (p >>= f) >>= g = p >>= fun a => f a >>= g := by
  funext s
  simp only [bind_run]
  rcases p s with ⟨e | a, t⟩ <;> rfl

theorem bind_ok {p : Prog σ ε α} {f : α → Prog σ ε β} {s t : σ} {b : β}
    (h : (p >>= f) s = (.ok b, t)) : ∃ a u, p s = (.ok a, u) ∧ f a u = (.ok b, t) := by
  rw [bind_run] at h
  rcases hp : p s with ⟨e | a, u⟩
  · rw [hp] at h
    cases h
  · rw [hp] at h
    exact ⟨a, u, rfl, h⟩

theorem mapEach_ok {f : α → Prog σ ε β} {a : α} {rest : List α} {s t : σ} {bs : List β}
    (h : mapEach f (a :: rest) s = (.ok bs, t)) :
    ∃ b cs u, f a s = (.ok b, u) ∧ mapEach f rest u = (.ok cs, t) := by
  obtain ⟨b, u, hb, h⟩ := bind_ok h
  obtain ⟨cs, v, hc, h⟩ := bind_ok h
  cases h
  exact ⟨b, cs, u, hb, hc⟩

/-- A loop that returns has run each of its turns, and its steps compose. -/
theorem mapEach_turn {R : σ → σ → Prop} (hrefl : ∀ s, R s s)
    (htrans : ∀ s t u, R s t → R t u → R s u) {f : α → Prog σ ε β}
    (hstep : ∀ a s b t, f a s = (.ok b, t) → R s t) {l : List α} {s t : σ} {bs : List β}
    (h : mapEach f l s = (.ok bs, t)) :
    R s t ∧ bs.length = l.length ∧ ∀ (q : Nat) (a : α), l[q]? = some a →
      ∃ b u v, bs[q]? = some b ∧ R s u ∧ f a u = (.ok b, v) ∧ R v t := by
  induction l generalizing s bs with
  | nil =>
    cases h
    refine ⟨hrefl _, rfl, ?_⟩
    intro q a hq
    cases hq
  | cons a rest ih =>
    obtain ⟨b, u, hb, h⟩ := bind_ok h
    obtain ⟨cs, v, hc, h⟩ := bind_ok h
    cases h
    obtain ⟨hrest, hlength, hturns⟩ := ih hc
    have hfirst := hstep a s b u hb
    refine ⟨htrans _ _ _ hfirst hrest, congrArg Nat.succ hlength, ?_⟩
    intro q c hq
    cases q with
    | zero =>
      rw [List.getElem?_cons_zero] at hq
      cases hq
      exact ⟨b, s, u, rfl, hrefl s, hb, hrest⟩
    | succ q =>
      rw [List.getElem?_cons_succ] at hq
      obtain ⟨d, x, y, hd, hx, hy, ht⟩ := hturns q c hq
      exact ⟨d, x, y, hd, htrans _ _ _ hfirst hx, hy, ht⟩

theorem handle_run (p : Prog σ ε α) (h : ε → Prog σ ε α) (s : σ) :
    handle p h s = match p s with
      | (.ok a, t) => (.ok a, t)
      | (.error e, t) => h e t := rfl

theorem rollback_ok {p : Prog σ ε α} {h : Prog σ ε Unit} {s t : σ} {a : α}
    (hr : rollback p h s = (.ok a, t)) : p s = (.ok a, t) := by
  rw [rollback, handle_run] at hr
  rcases hp : p s with ⟨e | b, u⟩ <;> rw [hp] at hr
  · rcases hu : h u with ⟨e' | _, v⟩ <;> simp only [bind_run, hu] at hr <;> cases hr
  · exact hr

end Prog

variable {σ ε α β : Type}

/-- Hoare triple with one postcondition for a return and one for an exception. -/
def Triple (P : σ → Prop) (p : Prog σ ε α) (Q : α → σ → Prop) (E : ε → σ → Prop) : Prop :=
  ∀ s, P s → match p s with
    | (.ok a, t) => Q a t
    | (.error e, t) => E e t

section Triple
variable {P P' : σ → Prop} {p : Prog σ ε α} {Q Q' : α → σ → Prop} {E E' : ε → σ → Prop}

theorem Triple.ok (h : Triple P p Q E) (hs : P s) (hr : p s = (.ok a, t)) : Q a t := by
  have := h s hs
  rwa [hr] at this

theorem Triple.error (h : Triple P p Q E) (hs : P s) (hr : p s = (.error e, t)) : E e t := by
  have := h s hs
  rwa [hr] at this

theorem Triple.mono (h : Triple P p Q E) (hP : ∀ s, P' s → P s) (hQ : ∀ a s, Q a s → Q' a s)
    (hE : ∀ e s, E e s → E' e s) : Triple P' p Q' E' := by
  intro s hs
  have h := h s (hP s hs)
  rcases hr : p s with ⟨e | a, t⟩
  · rw [hr] at h
    exact hE e t h
  · rw [hr] at h
    exact hQ a t h

theorem Triple.and {R : α → σ → Prop} {F : ε → σ → Prop} (h : Triple P p Q E)
    (h' : Triple P' p R F) :
    Triple (fun s => P s ∧ P' s) p (fun a s => Q a s ∧ R a s) (fun e s => E e s ∧ F e s) := by
  intro s hs
  have hq := h s hs.1
  have hr := h' s hs.2
  rcases hp : p s with ⟨e | a, t⟩
  · rw [hp] at hq hr
    exact ⟨hq, hr⟩
  · rw [hp] at hq hr
    exact ⟨hq, hr⟩

/-- A part of the precondition that does not read the state is a hypothesis. -/
theorem Triple.assume {F : Prop} (h : F → Triple P p Q E) : Triple (fun s => F ∧ P s) p Q E :=
  fun s hs => h hs.1 s hs.2

theorem Triple.pure (h : ∀ s, P s → Q a s) : Triple P (Pure.pure a : Prog σ ε α) Q E :=
  fun s hs => h s hs

theorem Triple.raise (h : ∀ s, P s → E e s) : Triple P (Prog.raise e : Prog σ ε α) Q E :=
  fun s hs => h s hs

theorem Triple.read {f : σ → α} (h : ∀ s, P s → Q (f s) s) : Triple P (Prog.read f) Q E :=
  fun s hs => h s hs

theorem Triple.modify {f : σ → σ} {Q : Unit → σ → Prop} (h : ∀ s, P s → Q () (f s)) :
    Triple P (Prog.modify f) Q E :=
  fun s hs => h s hs

theorem Triple.bind {f : α → Prog σ ε β} {R : β → σ → Prop} (hp : Triple P p Q E)
    (hf : ∀ a, Triple (Q a) (f a) R E) : Triple P (p >>= f) R E := by
  intro s hs
  have h := hp s hs
  rw [Prog.bind_run]
  rcases hr : p s with ⟨e | a, t⟩
  · rw [hr] at h
    exact h
  · rw [hr] at h
    exact hf a t h

theorem Triple.handle {h : ε → Prog σ ε α} (hp : Triple P p Q E)
    (hh : ∀ e, Triple (E e) (h e) Q E') : Triple P (Prog.handle p h) Q E' := by
  intro s hs
  have hp := hp s hs
  rw [Prog.handle_run]
  rcases hr : p s with ⟨e | a, t⟩
  · rw [hr] at hp
    exact hh e t hp
  · rw [hr] at hp
    exact hp

end Triple

/-- Partial correctness: what holds whenever the program returns. -/
def Returns (P : σ → Prop) (p : Prog σ ε α) (Q : α → σ → Prop) : Prop :=
  Triple P p Q (fun _ _ => True)

section Returns
variable {P : σ → Prop} {p : Prog σ ε α} {Q : α → σ → Prop}

theorem Returns.bind {f : α → Prog σ ε β} {R : β → σ → Prop} (hp : Returns P p Q)
    (hf : ∀ a, Returns (Q a) (f a) R) : Returns P (p >>= f) R :=
  Triple.bind hp hf

theorem Returns.ofExcept {x : Except ε α} (h : ∀ a, x = .ok a → ∀ s, P s → Q a s) :
    Returns P (Prog.ofExcept x) Q := by
  cases x with
  | ok a => exact Triple.pure (h a rfl)
  | error e => exact Triple.raise (fun _ _ => trivial)

/-- Nothing is claimed of a program whose result is not used. -/
theorem Returns.any : Returns P p (fun _ _ => True) := by
  intro s _
  rcases p s with ⟨_ | _, _⟩ <;> trivial

theorem Returns.raise : Returns P (Prog.raise e : Prog σ ε α) Q :=
  Triple.raise (fun _ _ => trivial)

theorem Returns.mapEach {f : α → Prog σ ε β} (l : List α)
    (h : ∀ a ∈ l, Returns P (f a) (fun _ => P)) : Returns P (Prog.mapEach f l) (fun _ => P) := by
  induction l with
  | nil => exact Triple.pure (fun _ hs => hs)
  | cons a rest ih =>
    apply (h a List.mem_cons_self).bind
    intro b
    apply (ih (fun c hc => h c (List.mem_cons_of_mem a hc))).bind
    intro bs
    exact Triple.pure (fun _ hs => hs)

theorem Returns.rollback {h : Prog σ ε Unit} (hp : Returns P p Q) :
    Returns P (Prog.rollback p h) Q := by
  refine Triple.handle hp (fun e => ?_)
  have hh : Returns (fun _ => True) h (fun _ _ => True) := Returns.any
  exact hh.bind (fun _ => Returns.raise)

end Returns

/-- What holds of the end of a program, whether it returns or raises. -/
theorem Triple.final {P R : σ → Prop} {p : Prog σ ε α}
    (h : Triple P p (fun _ => R) (fun _ => R)) (hs : P s) : R (p.final s) := by
  have := h s hs
  unfold Prog.final
  rcases hr : p s with ⟨e | a, t⟩
  · rwa [hr] at this
  · rwa [hr] at this

/-- `I` survives the program, whether it returns or raises, and every returned value is a `Q`. -/
def Keeps (I : σ → Prop) (p : Prog σ ε α) (Q : α → Prop := fun _ => True) : Prop :=
  Triple I p (fun a s => I s ∧ Q a) (fun _ s => I s)

section Keeps
variable {I : σ → Prop} {p : Prog σ ε α} {Q Q' : α → Prop}

/-- A kept invariant holds at the end of a program that starts from something stronger. -/
theorem Keeps.from {P : σ → Prop} (h : Keeps I p Q) (hP : ∀ s, P s → I s) :
    Triple P p (fun _ => I) (fun _ => I) :=
  Triple.mono h hP (fun _ _ hs => hs.1) (fun _ _ hs => hs)

theorem Keeps.final (h : Keeps I p Q) (hs : I s) : I (p.final s) :=
  (h.from (fun _ => id)).final hs

theorem Keeps.weaken (h : Keeps I p Q) (hQ : ∀ a, Q a → Q' a) : Keeps I p Q' :=
  Triple.mono h (fun _ => id) (fun a _ hs => ⟨hs.1, hQ a hs.2⟩) (fun _ _ => id)

/-- What holds of every returned value, whatever the state, may be added. -/
theorem Keeps.and (h : Keeps I p Q) (h' : Keeps (fun _ => True) p Q') :
    Keeps I p (fun a => Q a ∧ Q' a) :=
  (Triple.and h h').mono (fun _ hs => ⟨hs, trivial⟩) (fun _ _ hs => ⟨hs.1.1, hs.1.2, hs.2.2⟩)
    (fun _ _ hs => hs.1)

/-- Two invariants that a program keeps, it keeps together. -/
theorem Keeps.both {J : σ → Prop} (h : Keeps I p Q) (h' : Keeps J p Q') :
    Keeps (fun s => I s ∧ J s) p (fun a => Q a ∧ Q' a) :=
  (Triple.and h h').mono (fun _ => id) (fun _ _ hs => ⟨⟨hs.1.1, hs.2.1⟩, hs.1.2, hs.2.2⟩)
    (fun _ _ => id)

theorem Keeps.returns (h : Keeps I p Q) : Returns I p (fun a s => I s ∧ Q a) :=
  Triple.mono h (fun _ => id) (fun _ _ => id) (fun _ _ _ => trivial)

theorem Keeps.triple {E : ε → σ → Prop} (h : Keeps I p Q) (hE : ∀ e s, I s → E e s) :
    Triple I p (fun a s => I s ∧ Q a) E :=
  Triple.mono h (fun _ => id) (fun _ _ => id) hE

/-- A program that keeps `I` in front of another one that starts from it. -/
theorem Keeps.then {f : α → Prog σ ε β} {R : β → σ → Prop} {E : ε → σ → Prop} (h : Keeps I p Q)
    (hE : ∀ e s, I s → E e s) (hf : ∀ a, Q a → Triple I (f a) R E) : Triple I (p >>= f) R E :=
  (h.triple hE).bind (fun a s hs => hf a hs.2 s hs.1)

theorem Keeps.forget (h : Keeps I p Q) : Keeps I p := h.weaken (fun _ _ => trivial)

/-- What does not read the state survives any program. -/
theorem Keeps.constant {F : Prop} : Keeps (fun _ => F) p := by
  intro s hs
  rcases p s with ⟨_ | _, _⟩
  · exact hs
  · exact ⟨hs, trivial⟩

theorem Keeps.pure (h : Q a) : Keeps I (Pure.pure a : Prog σ ε α) Q :=
  Triple.pure (fun _ hs => ⟨hs, h⟩)

theorem Keeps.raise : Keeps I (Prog.raise e : Prog σ ε α) Q :=
  Triple.raise (fun _ => id)

theorem Keeps.read {f : σ → α} (h : ∀ s, I s → Q (f s)) : Keeps I (Prog.read f : Prog σ ε α) Q :=
  Triple.read (fun s hs => ⟨hs, h s hs⟩)

theorem Keeps.ask {f : σ → α} : Keeps I (Prog.read f : Prog σ ε α) :=
  Keeps.read (fun _ _ => trivial)

theorem Keeps.modify {f : σ → σ} (h : ∀ s, I s → I (f s)) :
    Keeps I (Prog.modify f : Prog σ ε Unit) :=
  Triple.modify (fun s hs => ⟨h s hs, trivial⟩)

theorem Keeps.bind {f : α → Prog σ ε β} {R : β → Prop} (hp : Keeps I p Q)
    (hf : ∀ a, Q a → Keeps I (f a) R) : Keeps I (p >>= f) R :=
  Triple.bind hp (fun a s hs => hf a hs.2 s hs.1)

theorem Keeps.handle {h : ε → Prog σ ε α} (hp : Keeps I p Q) (hh : ∀ e, Keeps I (h e) Q) :
    Keeps I (Prog.handle p h) Q :=
  Triple.handle hp hh

theorem Keeps.rollback {h : Prog σ ε Unit} (hp : Keeps I p Q) (hh : Keeps I h) :
    Keeps I (Prog.rollback p h) Q :=
  hp.handle (fun _ => hh.bind (fun _ _ => Keeps.raise))

theorem Keeps.swallow {p : Prog σ ε Unit} (hp : Keeps I p) : Keeps I (Prog.swallow p) :=
  hp.handle (fun _ => Keeps.pure trivial)

theorem Keeps.ensure {after : Prog σ ε Unit} (hp : Keeps I p Q) (ha : Keeps I after) :
    Keeps I (Prog.ensure p after) Q :=
  (hp.rollback ha).bind (fun _ hq => ha.bind (fun _ _ => Keeps.pure hq))

theorem Keeps.ofExcept {x : Except ε α} (h : ∀ a, x = .ok a → Q a) :
    Keeps I (Prog.ofExcept x) Q := by
  cases x with
  | ok a => exact Keeps.pure (h a rfl)
  | error e => exact Keeps.raise

theorem Keeps.forEach {f : α → Prog σ ε Unit} (l : List α) (h : ∀ a ∈ l, Keeps I (f a)) :
    Keeps I (Prog.forEach f l) := by
  induction l with
  | nil => exact Keeps.pure trivial
  | cons a rest ih =>
    exact (h a List.mem_cons_self).bind
      (fun _ _ => ih (fun b hb => h b (List.mem_cons_of_mem a hb)))

theorem Keeps.mapEach {f : α → Prog σ ε β} (l : List α) (h : ∀ a ∈ l, Keeps I (f a)) :
    Keeps I (Prog.mapEach f l) := by
  induction l with
  | nil => exact Keeps.pure trivial
  | cons a rest ih =>
    refine (h a List.mem_cons_self).bind (fun _ _ => ?_)
    exact (ih (fun b hb => h b (List.mem_cons_of_mem a hb))).bind (fun _ _ => Keeps.pure trivial)

theorem Keeps.filterEach {f : α → Prog σ ε Bool} (l : List α) (h : ∀ a ∈ l, Keeps I (f a)) :
    Keeps I (Prog.filterEach f l) (fun kept => ∀ a ∈ kept, a ∈ l) := by
  induction l with
  | nil => exact Keeps.pure (fun _ => id)
  | cons a rest ih =>
    refine (h a List.mem_cons_self).bind (fun keep _ => ?_)
    refine (ih (fun b hb => h b (List.mem_cons_of_mem a hb))).bind (fun kept hk => Keeps.pure ?_)
    intro b hb
    cases keep with
    | true =>
      rcases List.mem_cons.1 hb with rfl | hb
      · exact List.mem_cons_self
      · exact List.mem_cons_of_mem a (hk b hb)
    | false => exact List.mem_cons_of_mem a (hk b hb)

end Keeps

/-- A chain that succeeds does so in both parts. -/
theorem bind_eq_ok {ε α β : Type} {p : Except ε α} {f : α → Except ε β} {b : β}
    (h : p >>= f = .ok b) : ∃ a, p = .ok a ∧ f a = .ok b := by
  cases p with
  | error e => cases h
  | ok a => exact ⟨a, rfl, h⟩

end Lib
