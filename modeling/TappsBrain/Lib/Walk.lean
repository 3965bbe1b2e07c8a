import Mathlib.Data.List.Perm.Subperm
import Mathlib.Logic.Relation
import TappsBrain.Lib.Acyclic

namespace Lib
open Relation
set_option autoImplicit true
set_option relaxedAutoImplicit false

variable {α : Type} {next : α → Option α} {seen points : List α} {n : Nat} {o : Option α} {a b x y : α}

/-- `x` leads to `y` along a partial function. -/
def Steps (next : α → Option α) (x y : α) : Prop := next x = some y

theorem steps_unique (next : α → Option α) : Relator.RightUnique (Steps next) := by
  intro x y z hy hz
  exact Option.some.inj (hy.symm.trans hz)

/-- The points seen are some of finitely many, and there is fuel for the others. -/
structure Fueled (next : α → Option α) (points : List α) (n : Nat) (seen : List α) : Prop where
  closed : ∀ x y, next x = some y → y ∈ points
  nodup : seen.Nodup
  subset : seen ⊆ points
  enough : points.length < n + seen.length

namespace Fueled

theorem pos (h : Fueled next points n seen) : 0 < n := by
  have hle := (List.subperm_of_subset h.nodup h.subset).length_le
  have henough := h.enough
  omega

theorem step (h : Fueled next points (n + 1) seen) (ha : a ∈ points) (hnew : a ∉ seen) :
    Fueled next points n (a :: seen) where
  closed := h.closed
  nodup := List.nodup_cons.2 ⟨hnew, h.nodup⟩
  subset := List.cons_subset.2 ⟨ha, h.subset⟩
  enough := by
    have henough := h.enough
    rw [List.length_cons]
    omega

end Fueled

section Trace
variable {prev : α → Option α} {root : α}

theorem reaches_of_trace (hprev : ∀ v u, prev v = some u → next u = some v)
    (h : ReflTransGen (Steps prev) x y) : ReflTransGen (Steps next) y x := by
  induction h with
  | refl => exact .refl
  | tail _ hstep ih => exact ih.head (hprev _ _ hstep)

theorem cycle_of_trace (hprev : ∀ v u, prev v = some u → next u = some v)
    (h : TransGen (Steps prev) x x) : TransGen (Steps next) x x := by
  obtain ⟨y, hy, hyx⟩ := TransGen.head'_iff.1 h
  exact TransGen.tail' (reaches_of_trace hprev hyx) (hprev x y hy)

/-- Between the point and what its trace back has come to lies nothing but the trace. -/
theorem traced_of_between (hacyclic : Acyclic (Steps next))
    (hprev : ∀ v u, prev v = some u → next u = some v) (hroot : ReflTransGen (Steps prev) a root)
    (hx : ReflTransGen (Steps next) root x) (ha : ReflTransGen (Steps next) x a) :
    ReflTransGen (Steps prev) a x := by
  induction hroot with
  | refl =>
    rcases ReflTransGen.cases_head hx with rfl | ⟨y, hy, hyx⟩
    · exact .refl
    · exact absurd (TransGen.head' hy (hyx.trans ha)) (hacyclic a)
  | @tail y r hay hyr ih =>
    rcases ReflTransGen.cases_head hx with rfl | ⟨z, hz, hzx⟩
    · exact hay.tail hyr
    · have hzy : z = y := steps_unique next hz (hprev y r hyr)
      subst hzy
      exact ih hzx

/-- The end of a trace back leads to everything upstream exactly if no arrow upstream is without
its inverse. -/
theorem root_covers_iff (hacyclic : Acyclic (Steps next))
    (hprev : ∀ v u, prev v = some u → next u = some v) (hroot : ReflTransGen (Steps prev) a root)
    (hend : prev root = none) :
    (∀ u, ReflTransGen (Steps next) u a → ReflTransGen (Steps next) root u) ↔
      ∀ u v, ReflTransGen (Steps next) v a → next u = some v → prev v = some u := by
  constructor
  · intro hcovers u v hv hnext
    have hu : Steps next u v := hnext
    have hua : ReflTransGen (Steps next) u a := hv.head hu
    have htrace : ReflTransGen (Steps prev) a u :=
      traced_of_between hacyclic hprev hroot (hcovers u hua) hua
    rcases ReflTransGen.cases_tail htrace with rfl | ⟨y, _, hy⟩
    · exact absurd (TransGen.head' hu hv) (hacyclic _)
    · have hyv : y = v := Option.some.inj ((hprev y u hy).symm.trans hu)
      exact hyv ▸ hy
  · intro hinverse u hu
    have htrace : ReflTransGen (Steps prev) a u := by
      induction hu using ReflTransGen.head_induction_on with
      | refl => exact .refl
      | head hstep hrest ih => exact ih.tail (hinverse _ _ hrest hstep)
    rcases ReflTransGen.total_of_right_unique (steps_unique prev) htrace hroot with hur | hru
    · exact reaches_of_trace hprev hur
    · rcases ReflTransGen.cases_head hru with rfl | ⟨y, hy, _⟩
      · exact .refl
      · rw [Steps, hend] at hy
        cases hy

end Trace

variable [DecidableEq α]

/-- The points met along `next` from `o`, up to one that was seen before. -/
def walk (next : α → Option α) : Nat → List α → Option α → List α
  | _, _, none => []
  | 0, _, some _ => []
  | n + 1, seen, some a => if a ∈ seen then [] else a :: walk next n (a :: seen) (next a)

/-- Where a walk from `a` ends: at a point without a next one, or where it would repeat. Without
fuel it has no end. -/
def walkEnd (next : α → Option α) : Nat → List α → α → Option α
  | 0, _, _ => none
  | n + 1, seen, a =>
    match next a with
    | none => some a
    | some b => if b ∈ seen then some b else walkEnd next n (b :: seen) b

theorem not_seen_of_mem_walk (h : x ∈ walk next n seen o) : x ∉ seen := by
  induction n generalizing seen o with
  | zero => cases o <;> cases h
  | succ n ih =>
    cases o with
    | none => cases h
    | some a =>
      rw [walk] at h
      split at h
      · cases h
      · next hnew =>
        rcases List.mem_cons.1 h with rfl | h
        · exact hnew
        · exact fun hx => ih h (List.mem_cons_of_mem a hx)

theorem walk_nodup (next : α → Option α) (n : Nat) (seen : List α) (o : Option α) :
    (walk next n seen o).Nodup := by
  induction n generalizing seen o with
  | zero => cases o <;> exact List.nodup_nil
  | succ n ih =>
    cases o with
    | none => exact List.nodup_nil
    | some a =>
      rw [walk]
      split
      · exact List.nodup_nil
      · rw [List.nodup_cons]
        constructor
        · exact fun hmem => not_seen_of_mem_walk hmem List.mem_cons_self
        · exact ih (a :: seen) (next a)

theorem reaches_of_mem_walk (h : x ∈ walk next n seen (some a)) :
    ReflTransGen (Steps next) a x := by
  induction n generalizing seen a with
  | zero => cases h
  | succ n ih =>
    rw [walk] at h
    split at h
    · cases h
    · rcases List.mem_cons.1 h with rfl | h
      · exact .refl
      · cases hb : next a with
        | none =>
          rw [hb] at h
          cases n <;> cases h
        | some b =>
          rw [hb] at h
          exact (ih h).head hb

theorem start_mem_walk (h : Fueled next points n seen) (hnew : a ∉ seen) :
    a ∈ walk next n seen (some a) := by
  cases n with
  | zero => exact absurd h.pos (Nat.lt_irrefl 0)
  | succ n =>
    rw [walk, if_neg hnew]
    exact List.mem_cons_self

/-- With enough fuel a walk stops at points seen before only. -/
theorem walk_closed (h : Fueled next points n seen) (ho : ∀ a, o = some a → a ∈ points)
    (hx : x ∈ walk next n seen o) (hy : next x = some y) : y ∈ walk next n seen o ∨ y ∈ seen := by
  induction n generalizing seen o with
  | zero => exact absurd h.pos (Nat.lt_irrefl 0)
  | succ n ih =>
    cases o with
    | none => cases hx
    | some a =>
      rw [walk] at hx ⊢
      split at hx
      · cases hx
      · next hnew =>
        rw [if_neg hnew]
        have hnext := h.step (ho a rfl) hnew
        have htail : y ∈ walk next n (a :: seen) (next a) ∨ y ∈ a :: seen := by
          rcases List.mem_cons.1 hx with rfl | hx
          · rw [hy]
            by_cases hold : y ∈ x :: seen
            · exact .inr hold
            · exact .inl (start_mem_walk hnext hold)
          · exact ih hnext (fun b hb => h.closed a b hb) hx
        rcases htail with htail | htail
        · exact .inl (List.mem_cons_of_mem a htail)
        · rcases List.mem_cons.1 htail with rfl | htail
          · exact .inl List.mem_cons_self
          · exact .inr htail

/-- A walk meets what its start leads to, each point once, on a cycle as well. -/
theorem mem_walk_iff (h : Fueled next points n []) (ha : a ∈ points) :
    x ∈ walk next n [] (some a) ↔ ReflTransGen (Steps next) a x := by
  constructor
  · exact reaches_of_mem_walk
  · intro hreach
    induction hreach with
    | refl => exact start_mem_walk h List.not_mem_nil
    | tail _ hstep ih =>
      have hstart : ∀ b, some a = some b → b ∈ points := fun b hb => Option.some.inj hb ▸ ha
      rcases walk_closed h hstart ih hstep with hmem | hmem
      · exact hmem
      · cases hmem

theorem walkEnd_isSome (h : Fueled next points n seen) : (walkEnd next n seen a).isSome = true := by
  induction n generalizing seen a with
  | zero => exact absurd h.pos (Nat.lt_irrefl 0)
  | succ n ih =>
    rw [walkEnd]
    split
    · rfl
    · next b hb =>
      split
      · rfl
      · next hnew => exact ih (h.step (h.closed a b hb) hnew)

/-- A walk ends at a point without a next one, or on a cycle. -/
theorem walkEnd_reaches (hseen : ∀ x ∈ seen, ReflTransGen (Steps next) x a)
    (h : walkEnd next n seen a = some b) :
    ReflTransGen (Steps next) a b ∧ (next b = none ∨ TransGen (Steps next) b b) := by
  induction n generalizing seen a with
  | zero => cases h
  | succ n ih =>
    rw [walkEnd] at h
    split at h
    · next hnone =>
      cases h
      exact ⟨.refl, .inl hnone⟩
    · next c hc =>
      split at h
      · next hold =>
        cases h
        exact ⟨.single hc, .inr (.tail' (hseen b hold) hc)⟩
      · have hseen' : ∀ x ∈ c :: seen, ReflTransGen (Steps next) x c := by
          intro x hx
          rcases List.mem_cons.1 hx with rfl | hx
          · exact .refl
          · exact (hseen x hx).tail hc
        obtain ⟨hreach, hend⟩ := ih hseen' h
        exact ⟨hreach.head hc, hend⟩

end Lib
