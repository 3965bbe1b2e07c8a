import Mathlib.Data.List.Nodup

namespace Lib
set_option autoImplicit true
set_option relaxedAutoImplicit false

/-- Every resource made so far is in one place, and there once. -/
structure Accounted (made : Nat) (held : π → List Nat) : Prop where
  somewhere : ∀ id < made, ∃ p, id ∈ held p
  single : ∀ id p q, id ∈ held p → id ∈ held q → p = q
  once : ∀ p, (held p).Nodup
  known : ∀ id p, id ∈ held p → id < made

namespace Accounted
variable {π : Type} {made : Nat} {held held' : π → List Nat}

/-- Nothing is made yet. -/
theorem start (h : ∀ p, held p = []) : Accounted 0 held where
  somewhere := fun _ hid => absurd hid (Nat.not_lt_zero _)
  single := by
    intro id p q hp
    rw [h p] at hp
    cases hp
  once := by
    intro p
    rw [h p]
    exact List.nodup_nil
  known := by
    intro id p hp
    rw [h p] at hp
    cases hp

/-- A step that only moves resources: `f` says where each of them goes. -/
theorem move (h : Accounted made held) (f : Nat → π → π)
    (hmove : ∀ id p, id ∈ held' p ↔ ∃ q, id ∈ held q ∧ f id q = p)
    (honce : ∀ p, (held' p).Nodup) : Accounted made held' where
  somewhere := by
    intro id hid
    obtain ⟨q, hq⟩ := h.somewhere id hid
    exact ⟨f id q, (hmove id _).2 ⟨q, hq, rfl⟩⟩
  single := by
    intro id p q hp hq
    obtain ⟨a, ha, rfl⟩ := (hmove id p).1 hp
    obtain ⟨b, hb, rfl⟩ := (hmove id q).1 hq
    rw [h.single id a b ha hb]
  once := honce
  known := by
    intro id p hp
    obtain ⟨q, hq, -⟩ := (hmove id p).1 hp
    exact h.known id q hq

/-- Some of what is at one place goes to another. -/
theorem transfer [DecidableEq π] (h : Accounted made held) (src dst : π) (l : List Nat)
    (hne : src ≠ dst) (hsrc : (held src).Perm (l ++ held' src))
    (hdst : (held' dst).Perm (held dst ++ l))
    (hrest : ∀ q, q ≠ src → q ≠ dst → held' q = held q) : Accounted made held' := by
  have hsplit := List.nodup_append.1 (hsrc.nodup_iff.1 (h.once src))
  have hfrom : ∀ id ∈ l, id ∈ held src := fun id hid =>
    hsrc.mem_iff.2 (List.mem_append_left _ hid)
  have hapart : ∀ id ∈ l, ∀ q, id ∈ held q → q = src := fun id hid q hq =>
    h.single id q src hq (hfrom id hid)
  apply h.move (fun id q => if id ∈ l then dst else q)
  · intro id p
    by_cases hp : p = dst
    · subst hp
      rw [hdst.mem_iff, List.mem_append]
      constructor
      · rintro (hid | hid)
        · refine ⟨p, hid, ?_⟩
          split <;> rfl
        · exact ⟨src, hfrom id hid, if_pos hid⟩
      · rintro ⟨q, hq, heq⟩
        split at heq
        · next hid => exact .inr hid
        · exact .inl (heq ▸ hq)
    · have hmem : id ∈ held' p ↔ id ∈ held p ∧ id ∉ l := by
        by_cases hps : p = src
        · subst hps
          rw [hsrc.mem_iff, List.mem_append]
          constructor
          · intro hid
            exact ⟨.inr hid, fun hl => hsplit.2.2 id hl id hid rfl⟩
          · rintro ⟨hl | hid, hnot⟩
            · exact absurd hl hnot
            · exact hid
        · rw [hrest p hps hp]
          exact ⟨fun hid => ⟨hid, fun hl => hps (hapart id hl p hid)⟩, fun hid => hid.1⟩
      rw [hmem]
      constructor
      · rintro ⟨hid, hnot⟩
        exact ⟨p, hid, if_neg hnot⟩
      · rintro ⟨q, hq, heq⟩
        split at heq
        · exact absurd heq.symm hp
        · next hnot =>
          subst heq
          exact ⟨hq, hnot⟩
  · intro p
    by_cases hp : p = dst
    · subst hp
      apply hdst.nodup_iff.2
      apply List.nodup_append.2
      refine ⟨h.once p, hsplit.1, ?_⟩
      rintro a ha b hb rfl
      exact hne (hapart a hb p ha).symm
    · by_cases hps : p = src
      · subst hps
        exact hsplit.2.1
      · rw [hrest p hps hp]
        exact h.once p

/-- A step that moves nothing. -/
theorem same (h : Accounted made held) (hsame : ∀ p, held' p = held p) : Accounted made held' := by
  rwa [funext hsame]

/-- A step that makes one more resource, and puts it where nothing was. -/
theorem make (h : Accounted made held) (place : π) (hplace : held place = [])
    (hmade : held' place = [made]) (hrest : ∀ p, p ≠ place → held' p = held p) :
    Accounted (made + 1) held' where
  somewhere := by
    intro id hid
    rcases Nat.lt_succ_iff_lt_or_eq.1 hid with hlt | rfl
    · obtain ⟨p, hp⟩ := h.somewhere id hlt
      have hne : p ≠ place := by
        rintro rfl
        rw [hplace] at hp
        cases hp
      exact ⟨p, by rwa [hrest p hne]⟩
    · exact ⟨place, by rw [hmade]; exact List.mem_cons_self⟩
  single := by
    intro id p q hp hq
    by_cases hpp : p = place
    · by_cases hqp : q = place
      · rw [hpp, hqp]
      · rw [hpp, hmade, List.mem_singleton] at hp
        rw [hrest q hqp, hp] at hq
        exact absurd (h.known made q hq) (Nat.lt_irrefl _)
    · rw [hrest p hpp] at hp
      by_cases hqp : q = place
      · rw [hqp, hmade, List.mem_singleton] at hq
        rw [hq] at hp
        exact absurd (h.known made p hp) (Nat.lt_irrefl _)
      · rw [hrest q hqp] at hq
        exact h.single id p q hp hq
  once := by
    intro p
    by_cases hpp : p = place
    · rw [hpp, hmade]
      exact List.nodup_singleton _
    · rw [hrest p hpp]
      exact h.once p
  known := by
    intro id p hp
    by_cases hpp : p = place
    · rw [hpp, hmade, List.mem_singleton] at hp
      rw [hp]
      exact Nat.lt_succ_self made
    · rw [hrest p hpp] at hp
      exact Nat.lt_succ_of_lt (h.known id p hp)

end Accounted
end Lib
