import Mathlib.Data.List.Basic

namespace Lib
set_option autoImplicit true
set_option relaxedAutoImplicit false

section Rank
variable {α β : Type} {f : α → Option β} {l : List α} {a : α} {b : β} {p i : Nat}

/-- How many of the items before a place a filter keeps. -/
def rank (f : α → Option β) (l : List α) (p : Nat) : Nat := ((l.take p).filterMap f).length

theorem rank_le (f : α → Option β) (l : List α) (p : Nat) : rank f l p ≤ p :=
  Nat.le_trans (List.length_filterMap_le f (l.take p)) (List.length_take_le p l)

theorem rank_cons_none (ha : f a = none) : rank f (a :: l) (p + 1) = rank f l p := by
  rw [rank, List.take_succ_cons, List.filterMap_cons_none ha, rank]

theorem rank_cons_some (ha : f a = some b) : rank f (a :: l) (p + 1) = rank f l p + 1 := by
  rw [rank, List.take_succ_cons, List.filterMap_cons_some ha, List.length_cons, rank]

/-- An item that is kept stands behind the kept ones before it. -/
theorem getElem?_rank (hp : l[p]? = some a) (ha : f a = some b) :
    (l.filterMap f)[rank f l p]? = some b := by
  induction l generalizing p with
  | nil => cases hp
  | cons c l ih =>
    cases p with
    | zero =>
      rw [List.getElem?_cons_zero] at hp
      cases hp
      rw [List.filterMap_cons_some ha]
      rfl
    | succ p =>
      rw [List.getElem?_cons_succ] at hp
      cases hc : f c with
      | none =>
        rw [rank_cons_none hc, List.filterMap_cons_none hc]
        exact ih hp
      | some d =>
        rw [rank_cons_some hc, List.filterMap_cons_some hc, List.getElem?_cons_succ]
        exact ih hp

/-- What stands at a place of the filtered list was kept at the place of that rank. -/
theorem exists_of_rank (hi : (l.filterMap f)[i]? = some b) :
    ∃ p a, l[p]? = some a ∧ f a = some b ∧ rank f l p = i := by
  induction l generalizing i with
  | nil => cases hi
  | cons c l ih =>
    cases hc : f c with
    | none =>
      rw [List.filterMap_cons_none hc] at hi
      obtain ⟨p, a, hp, ha, hrank⟩ := ih hi
      exact ⟨p + 1, a, hp, ha, (rank_cons_none hc).trans hrank⟩
    | some d =>
      rw [List.filterMap_cons_some hc] at hi
      cases i with
      | zero =>
        rw [List.getElem?_cons_zero] at hi
        exact ⟨0, c, rfl, hc.trans hi, rfl⟩
      | succ i =>
        obtain ⟨p, a, hp, ha, hrank⟩ := ih hi
        exact ⟨p + 1, a, hp, ha, (rank_cons_some hc).trans (congrArg Nat.succ hrank)⟩

/-- A place keeps its number as long as nothing before it is dropped. -/
theorem rank_eq_iff (hp : p ≤ l.length) : rank f l p = p ↔ ∀ a ∈ l.take p, (f a).isSome := by
  have hlength : (l.take p).length = p := List.length_take_of_le hp
  rw [rank]
  conv_lhs => rhs; rw [← hlength]
  exact List.filterMap_length_eq_length

theorem exists_last {P : α → Prop} (h : ∃ a ∈ l, P a) :
    ∃ (p : Nat) (a : α), l[p]? = some a ∧ P a ∧
      ∀ (q : Nat) (b : α), l[q]? = some b → P b → q ≤ p := by
  induction l with
  | nil =>
    obtain ⟨a, ha, -⟩ := h
    cases ha
  | cons c l ih =>
    by_cases htail : ∃ a ∈ l, P a
    · obtain ⟨p, a, hp, ha, hlast⟩ := ih htail
      refine ⟨p + 1, a, hp, ha, ?_⟩
      intro q b hq hb
      cases q with
      | zero => exact Nat.zero_le _
      | succ q => exact Nat.succ_le_succ (hlast q b hq hb)
    · obtain ⟨a, ha, hPa⟩ := h
      rcases List.mem_cons.mp ha with rfl | ha
      · refine ⟨0, a, rfl, hPa, ?_⟩
        intro q b hq hb
        cases q with
        | zero => exact Nat.le_refl 0
        | succ q => exact absurd ⟨b, List.mem_of_getElem? hq, hb⟩ htail
      · exact absurd ⟨a, ha, hPa⟩ htail

end Rank
section Staged
variable {α β : Type} (object : α → Bool) (valid : α → Option β) (late : β → Prop) (l : List α)

/-- The list goes through three stages: what is no object is dropped, what is not valid is dropped,
and what is late is dropped. This item does not come through. -/
def Dropped (a : α) : Prop := ∀ b, valid a = some b → late b

/-- The second stage counts the items that the first one has left. -/
def InvalidAt (i : Nat) : Prop := ∃ a, (l.filter object)[i]? = some a ∧ valid a = none

/-- The third stage counts the items that the second one has left. -/
def LateAt (i : Nat) : Prop := ∃ b, (l.filterMap valid)[i]? = some b ∧ late b

/-- Every item is an object, and nothing is dropped late behind an item that is not valid. -/
structure WellStaged : Prop where
  objects : ∀ a ∈ l, object a = true
  ordered : l.Pairwise (fun a b => valid a = none → ∀ c, valid b = some c → ¬ late c)

variable {object valid late l} {p : Nat} {a : α}

theorem InvalidAt.place (h : InvalidAt object valid l p)
    (hlast : ∀ q b, l[q]? = some b → Dropped valid late b → q ≤ p) :
    (∃ a, l[p]? = some a ∧ object a = true) ∧ ∀ b ∈ l.take p, object b = true := by
  obtain ⟨a, ha, hnone⟩ := h
  have hfilter : l.filter object = l.filterMap (Option.guard (fun b => object b = true)) := by
    rw [← List.filterMap_eq_filter]
    congr 1
    funext b
    simp [Option.guard]
  rw [hfilter] at ha
  obtain ⟨q, b, hq, hb, hrank⟩ := exists_of_rank ha
  obtain ⟨rfl, hobject⟩ := Option.guard_eq_some_iff.mp hb
  have hdropped : Dropped valid late b := by
    intro c hc
    rw [hnone] at hc
    cases hc
  have hle := hlast q b hq hdropped
  have hrankle := rank_le (Option.guard (fun b => object b = true)) l q
  have hqp : q = p := by omega
  subst hqp
  refine ⟨⟨b, hq, of_decide_eq_true hobject⟩, ?_⟩
  intro c hc
  have hlength : q ≤ l.length := Nat.le_of_lt (List.getElem?_eq_some_iff.mp hq).1
  have hkept := (rank_eq_iff hlength).mp hrank c hc
  simpa [Option.guard] using hkept

theorem LateAt.place (h : LateAt valid late l p) {P : α → Prop}
    (hP : ∀ a b, valid a = some b → late b → P a)
    (hlast : ∀ q b, l[q]? = some b → P b → q ≤ p) :
    (∃ a b, l[p]? = some a ∧ valid a = some b) ∧ ∀ b ∈ l.take p, (valid b).isSome := by
  obtain ⟨c, hc, hlate⟩ := h
  obtain ⟨q, b, hq, hb, hrank⟩ := exists_of_rank hc
  have hle := hlast q b hq (hP b c hb hlate)
  have hrankle := rank_le valid l q
  have hqp : q = p := by omega
  subst hqp
  have hlength : q ≤ l.length := Nat.le_of_lt (List.getElem?_eq_some_iff.mp hq).1
  exact ⟨⟨b, c, hq, hb⟩, (rank_eq_iff hlength).mp hrank⟩

theorem mem_take_of_lt {q : Nat} (hp : l[p]? = some a) (hlt : p < q) : a ∈ l.take q := by
  apply List.mem_of_getElem? (i := p)
  rw [List.getElem?_take_of_lt hlt]
  exact hp

/-- If each dropped item is counted at its own place, by one stage, then every item is an object. -/
theorem objects_of_counted (hobject : ∀ a, object a = false → valid a = none)
    (h : ∀ p a, l[p]? = some a → Dropped valid late a →
      (InvalidAt object valid l p ↔ ¬ LateAt valid late l p)) : ∀ a ∈ l, object a = true := by
  intro a ha
  by_contra hno
  have hnone := hobject a (eq_false_of_ne_true hno)
  have hdropped : ∀ b, object b = false → Dropped valid late b := by
    intro b hb c hc
    rw [hobject b hb] at hc
    cases hc
  obtain ⟨p, b, hp, hb, hlast⟩ :=
    exists_last ⟨a, ha, hdropped a (eq_false_of_ne_true hno)⟩
  -- The last dropped item is counted at its own place, so nothing before it is dropped unseen.
  have hplace : (∃ c, l[p]? = some c ∧ object c = true) ∧ ∀ c ∈ l.take p, object c = true := by
    by_cases hlate : LateAt valid late l p
    · obtain ⟨⟨c, d, hc, hd⟩, hall⟩ := hlate.place (P := Dropped valid late)
        (fun a b hab hl c hc => by rw [hab] at hc; cases hc; exact hl) hlast
      have hvalid : ∀ c, (valid c).isSome → object c = true := by
        intro c hsome
        by_contra hc
        rw [hobject c (eq_false_of_ne_true hc)] at hsome
        cases hsome
      refine ⟨⟨c, hc, hvalid c (by rw [hd]; rfl)⟩, ?_⟩
      intro e he
      exact hvalid e (hall e he)
    · exact ((h p b hp hb).mpr hlate).place hlast
  obtain ⟨⟨c, hc, hcobject⟩, hall⟩ := hplace
  obtain ⟨q, hq⟩ := List.mem_iff_getElem?.mp ha
  rcases Nat.lt_or_ge q p with hlt | hge
  · exact hno (hall a (mem_take_of_lt hq hlt))
  · have hqp := Nat.le_antisymm (hlast q a hq (hdropped a (eq_false_of_ne_true hno))) hge
    rw [hqp, hc] at hq
    cases hq
    exact hno hcobject

theorem invalidAt_iff (hall : ∀ a ∈ l, object a = true) :
    InvalidAt object valid l p ↔ ∃ a, l[p]? = some a ∧ valid a = none := by
  rw [InvalidAt, List.filter_eq_self.mpr hall]

/-- Each dropped item is counted at its own place by just one of the stages if and only if the list
is in order. -/
theorem counted_iff_wellStaged (hobject : ∀ a, object a = false → valid a = none) :
    (∀ p a, l[p]? = some a → Dropped valid late a →
      (InvalidAt object valid l p ↔ ¬ LateAt valid late l p)) ↔ WellStaged object valid late l := by
  constructor
  · intro h
    have hall := objects_of_counted hobject h
    refine ⟨hall, ?_⟩
    rw [List.pairwise_iff_getElem]
    intro i j hi hj hij hnone c hc hlate
    have hsome : ∃ a ∈ l, ∃ b, valid a = some b ∧ late b :=
      ⟨l[j], List.getElem_mem hj, c, hc, hlate⟩
    obtain ⟨q, b, hq, ⟨d, hd, hdlate⟩, hlast⟩ := exists_last hsome
    have hjq := hlast j l[j] (List.getElem?_eq_getElem hj) ⟨c, hc, hlate⟩
    have hqdropped : Dropped valid late b := by
      intro e he
      rw [hd] at he
      cases he
      exact hdlate
    have hqlate : LateAt valid late l q := by
      by_contra hno
      obtain ⟨e, he, henone⟩ := (invalidAt_iff hall).mp ((h q b hq hqdropped).mpr hno)
      rw [hq] at he
      cases he
      rw [hd] at henone
      cases henone
    have hkept := (hqlate.place (fun a b hab hl => ⟨b, hab, hl⟩) hlast).2 l[i]
      (mem_take_of_lt (List.getElem?_eq_getElem hi) (Nat.lt_of_lt_of_le hij hjq))
    rw [hnone] at hkept
    cases hkept
  · rintro ⟨hall, hordered⟩ p a hp hdropped
    rw [List.pairwise_iff_getElem] at hordered
    rw [invalidAt_iff hall]
    obtain ⟨hplt, rfl⟩ := List.getElem?_eq_some_iff.mp hp
    cases hvalid : valid l[p] with
    | none =>
      apply iff_of_true ⟨_, hp, hvalid⟩
      rintro ⟨b, hb, hlate⟩
      obtain ⟨q, c, hq, hc, hrank⟩ := exists_of_rank hb
      obtain ⟨hqlt, rfl⟩ := List.getElem?_eq_some_iff.mp hq
      have hrankle := rank_le valid l q
      rcases Nat.lt_or_ge p q with hlt | hge
      · exact hordered p q hplt hqlt hlt hvalid b hc hlate
      · have hpq : q = p := by omega
        subst hpq
        rw [hvalid] at hc
        cases hc
    | some b =>
      apply iff_of_false
      · rintro ⟨c, hc, hnone⟩
        rw [hp] at hc
        cases hc
        rw [hvalid] at hnone
        cases hnone
      · rw [not_not]
        refine ⟨b, ?_, hdropped b hvalid⟩
        have hrank : rank valid l p = p := by
          apply (rank_eq_iff (Nat.le_of_lt hplt)).mpr
          intro c hc
          by_contra hno
          obtain ⟨i, hi⟩ := List.mem_iff_getElem?.mp hc
          have hip : i < p := by
            have hlt := (List.getElem?_eq_some_iff.mp hi).1
            rw [List.length_take] at hlt
            omega
          rw [List.getElem?_take_of_lt hip] at hi
          obtain ⟨hilt, rfl⟩ := List.getElem?_eq_some_iff.mp hi
          exact hordered i p hilt hplt hip (Option.not_isSome_iff_eq_none.mp hno) b hvalid
            (hdropped b hvalid)
        have hget := getElem?_rank hp hvalid
        rw [hrank] at hget
        exact hget

end Staged
section Numbered
variable {α : Type}

/-- The numbers of the items a stage drops, as it counts them. -/
def badIndices (bad : α → Bool) (l : List α) : List Nat :=
  l.zipIdx.filterMap (fun p => if bad p.1 then some p.2 else none)

theorem count_zipIdx (bad : α → Bool) (l : List α) (n i : Nat) :
    ((l.zipIdx n).filterMap (fun p => if bad p.1 then some p.2 else none)).count (n + i) =
      if l[i]?.any bad then 1 else 0 := by
  induction l generalizing n i with
  | nil => rfl
  | cons x rest ih =>
    rw [List.zipIdx_cons, List.filterMap_cons]
    cases i with
    | zero =>
      have hrest : ((rest.zipIdx (n + 1)).filterMap
          (fun p => if bad p.1 then some p.2 else none)).count n = 0 := by
        apply List.count_eq_zero_of_not_mem
        intro hmem
        obtain ⟨p, hp, hpn⟩ := List.mem_filterMap.mp hmem
        have hle := (List.mem_zipIdx hp).1
        split at hpn
        · cases hpn
          omega
        · cases hpn
      cases hx : bad x with
      | true => simp [hx, hrest]
      | false => simp [hx, hrest]
    | succ i =>
      have hindex : n + (i + 1) = n + 1 + i := by omega
      have hne : n ≠ n + 1 + i := by omega
      rw [hindex, List.getElem?_cons_succ, ← ih (n + 1) i]
      cases hx : bad x with
      | true => simp [hne]
      | false => simp

/-- An item that is dropped has its number once, and no other number is given. -/
theorem count_badIndices (bad : α → Bool) (l : List α) (i : Nat) :
    (badIndices bad l).count i = if l[i]?.any bad then 1 else 0 := by
  have hcount := count_zipIdx bad l 0 i
  rw [Nat.zero_add] at hcount
  exact hcount

end Numbered
end Lib
