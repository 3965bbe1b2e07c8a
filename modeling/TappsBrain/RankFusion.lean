import Mathlib.Data.List.Induction
import Mathlib.Data.String.Basic
import TappsBrain.Retrieval

namespace TappsBrain.Fusion
open Lib
set_option autoImplicit true
set_option relaxedAutoImplicit false

/-- The `fused` dictionary: keys with their scores, in the order they were first seen. -/
abbrev FusedScores := Table (Prod.fst : String × ℚ → String)

def scoreIn (fused : FusedScores) (key : String) : ℚ := ((fused.get? key).map Prod.snd).getD 0

/-- The variables of one `_accumulate` call. -/
structure Accumulation where
  seen : List String := []
  rank : Nat := 0
  fused : FusedScores

def accumulateKey (weight : ℚ) (k : ℤ) (st : Accumulation) (key : String) : Accumulation :=
  if st.seen.contains key then st
  else
    let rank := st.rank + 1
    { seen := st.seen ++ [key], rank
      fused := st.fused.set (key, scoreIn st.fused key + weight / ((k + rank : ℤ) : ℚ)) }

/-- `_accumulate`. -/
def accumulate (ranked : List String) (weight : ℚ) (k : ℤ) (fused : FusedScores) : FusedScores :=
  (ranked.foldl (accumulateKey weight k) { fused }).fused

/-- `reciprocal_rank_fusion_weighted`; the error is the text of a `ValueError`. -/
def reciprocalRankFusionWeighted (bm25Ranked vectorRanked : List String)
    (bm25Weight vectorWeight : ℚ) (k : ℤ) : Except String (List (String × ℚ)) :=
  if bm25Weight < 0 ∨ vectorWeight < 0 then
    .error "bm25_weight and vector_weight must be non-negative"
  else if k < 0 then .error s!"k must be non-negative, got {k}"
  else
    let fused := accumulate bm25Ranked bm25Weight k .empty
    .ok ((accumulate vectorRanked vectorWeight k fused).values.insertionSort fusedHigher)

section Ranks
variable {x y : String} {ranked : List String} {weight : ℚ}

theorem eraseDups_append_singleton (p : List String) (key : String) :
    (p ++ [key]).eraseDups = if key ∈ p then p.eraseDups else p.eraseDups ++ [key] := by
  rw [List.eraseDups_append]
  by_cases h : key ∈ p
  · simp [h, List.removeAll]
  · simp [h, List.removeAll, List.eraseDups_cons]

theorem nodup_eraseDups (p : List String) : p.eraseDups.Nodup := by
  induction p using List.reverseRecOn with
  | nil => exact List.nodup_nil
  | append_singleton p key ih =>
    rw [eraseDups_append_singleton]
    split
    · exact ih
    · next h =>
      apply List.nodup_append.mpr
      refine ⟨ih, List.nodup_singleton _, ?_⟩
      intro a ha b hb
      rintro rfl
      rw [List.mem_singleton] at hb
      exact h (List.mem_eraseDups.mp (hb ▸ ha))

theorem eraseDups_of_nodup {p : List String} (h : p.Nodup) : p.eraseDups = p := by
  induction p using List.reverseRecOn with
  | nil => rfl
  | append_singleton p key ih =>
    obtain ⟨hp, -, hkey⟩ := List.nodup_append.mp h
    have hfresh : key ∉ p := fun hin => hkey key hin key List.mem_cons_self rfl
    rw [eraseDups_append_singleton, if_neg hfresh, ih hp]

/-- Leaving out repetitions keeps the order of the first occurrences. -/
theorem idxOf_eraseDups_lt (h : ranked.idxOf x < ranked.idxOf y) :
    ranked.eraseDups.idxOf x < ranked.eraseDups.idxOf y := by
  have hx : x ∈ ranked := by
    apply List.idxOf_lt_length_iff.mp
    exact Nat.lt_of_lt_of_le h List.idxOf_le_length
  obtain ⟨before, after, rfl, hfirst⟩ := List.eq_append_cons_of_mem hx
  have hhead : (before ++ x :: after).idxOf x = before.length := by
    rw [List.idxOf_append_of_notMem hfirst, List.idxOf_cons_self, Nat.add_zero]
  have hy : y ∉ before ++ [x] := by
    intro hin
    rcases List.mem_append.mp hin with hin | hin
    · rw [hhead, List.idxOf_append_of_mem hin] at h
      exact Nat.lt_asymm h (List.idxOf_lt_length_of_mem hin)
    · rw [List.mem_singleton.mp hin] at h
      exact Nat.lt_irrefl _ h
  have hsplit : before ++ x :: after = (before ++ [x]) ++ after := by simp
  rw [hsplit, List.eraseDups_append]
  have hxin : x ∈ (before ++ [x]).eraseDups := by simp
  have hyout : y ∉ (before ++ [x]).eraseDups := by simpa using hy
  rw [List.idxOf_append_of_mem hxin, List.idxOf_append_of_notMem hyout]
  exact Nat.lt_of_lt_of_le (List.idxOf_lt_length_of_mem hxin) (Nat.le_add_right _ _)

theorem rankTerm_nonneg (hweight : 0 ≤ weight) (k : Nat) (ranked : List String) (x : String) :
    0 ≤ rankTerm weight k ranked x := by
  unfold rankTerm
  split
  · positivity
  · exact le_refl 0

theorem rankTerm_lt (hweight : 0 < weight) (k : Nat) (h : ranked.idxOf x < ranked.idxOf y) :
    rankTerm weight k ranked y < rankTerm weight k ranked x := by
  have hx : x ∈ ranked := by
    apply List.idxOf_lt_length_iff.mp
    exact Nat.lt_of_lt_of_le h List.idxOf_le_length
  unfold rankTerm
  rw [if_pos hx]
  by_cases hy : y ∈ ranked
  · rw [if_pos hy]
    have hrank := idxOf_eraseDups_lt h
    have hcast : (ranked.eraseDups.idxOf x : ℚ) < ranked.eraseDups.idxOf y := by
      exact_mod_cast hrank
    gcongr
  · rw [if_neg hy]
    positivity

theorem rankTerm_le (hweight : 0 ≤ weight) (k : Nat)
    (h : y ∈ ranked → ranked.idxOf x ≤ ranked.idxOf y) :
    rankTerm weight k ranked y ≤ rankTerm weight k ranked x := by
  by_cases hy : y ∈ ranked
  · rcases Nat.lt_or_eq_of_le (h hy) with hlt | heq
    · rcases hweight.lt_or_eq with hpos | hzero
      · exact le_of_lt (rankTerm_lt hpos k hlt)
      · simp [rankTerm, ← hzero]
    · have hx : x ∈ ranked := by
        rw [← List.idxOf_lt_length_iff, heq]
        exact List.idxOf_lt_length_of_mem hy
      rw [(List.idxOf_inj hx).mp heq]
  · have hzero : rankTerm weight k ranked y = 0 := if_neg hy
    rw [hzero]
    exact rankTerm_nonneg hweight k ranked x

end Ranks
section Accumulate
variable {ranked done : List String} {weight : ℚ} {k : Nat} {fused : FusedScores}
  {st : Accumulation} {key : String}

/-- What `_accumulate` holds once it has gone over `done`. -/
structure Accumulated (weight : ℚ) (k : Nat) (fused : FusedScores) (done : List String)
    (st : Accumulation) : Prop where
  seen : st.seen = done.eraseDups
  rank : st.rank = done.eraseDups.length
  kept : ∀ key, key ∉ done → st.fused.get? key = fused.get? key
  added : ∀ key ∈ done, st.fused.get? key = some (key, scoreIn fused key + rankTerm weight k done key)

theorem accumulated_start : Accumulated weight k fused [] { fused } :=
  ⟨rfl, rfl, fun _ _ => rfl, fun _ h => absurd h List.not_mem_nil⟩

/-- A later key does not move the ranks of the keys before it. -/
theorem rankTerm_append (hkey : key ∈ done) (next : String) :
    rankTerm weight k (done ++ [next]) key = rankTerm weight k done key := by
  unfold rankTerm
  rw [if_pos hkey, if_pos (List.mem_append_left _ hkey), List.eraseDups_append,
    List.idxOf_append_of_mem (List.mem_eraseDups.mpr hkey)]

theorem rankTerm_append_self (hkey : key ∉ done) :
    rankTerm weight k (done ++ [key]) key = weight / (k + (done.eraseDups.length + 1)) := by
  have hout : key ∉ done.eraseDups := fun h => hkey (List.mem_eraseDups.mp h)
  unfold rankTerm
  rw [if_pos (List.mem_append_right _ List.mem_cons_self), eraseDups_append_singleton,
    if_neg hkey, List.idxOf_append_of_notMem hout]
  simp

theorem Accumulated.step (h : Accumulated weight k fused done st) (next : String) :
    Accumulated weight k fused (done ++ [next]) (accumulateKey weight k st next) := by
  unfold accumulateKey
  by_cases hin : next ∈ done
  · have hseen : st.seen.contains next := by simpa [h.seen] using hin
    rw [if_pos hseen]
    constructor
    · rw [eraseDups_append_singleton, if_pos hin]
      exact h.seen
    · rw [eraseDups_append_singleton, if_pos hin]
      exact h.rank
    · intro key hkey
      exact h.kept key (fun hdone => hkey (List.mem_append_left _ hdone))
    · intro key hkey
      have hdone : key ∈ done := by
        rcases List.mem_append.mp hkey with hkey | hkey
        · exact hkey
        · rw [List.mem_singleton.mp hkey]
          exact hin
      rw [rankTerm_append hdone]
      exact h.added key hdone
  · have hseen : ¬ st.seen.contains next := by simpa [h.seen] using hin
    rw [if_neg hseen]
    dsimp only
    constructor
    · rw [eraseDups_append_singleton, if_neg hin, h.seen]
    · rw [eraseDups_append_singleton, if_neg hin, h.rank, List.length_append,
        List.length_singleton]
    · intro key hkey
      have hdone : key ∉ done := fun hin => hkey (List.mem_append_left _ hin)
      have hnext : next ≠ key := by
        rintro rfl
        exact hkey (List.mem_append_right _ List.mem_cons_self)
      rw [Table.get?_set_ne _ hnext]
      exact h.kept key hdone
    · intro key hkey
      rcases List.mem_append.mp hkey with hkey | hkey
      · have hnext : next ≠ key := by
          rintro rfl
          exact hin hkey
        rw [Table.get?_set_ne _ hnext, rankTerm_append hkey]
        exact h.added key hkey
      · rw [List.mem_singleton.mp hkey, rankTerm_append_self hin]
        have hscore : scoreIn st.fused next = scoreIn fused next := by
          unfold scoreIn
          rw [h.kept next hin]
        rw [hscore, h.rank]
        have hset := Table.get?_set_self st.fused (next,
          scoreIn fused next + weight / (((k : ℤ) + (done.eraseDups.length + 1 : ℕ) : ℤ) : ℚ))
        rw [hset]
        push_cast
        rfl

theorem Accumulated.run (h : Accumulated weight k fused done st) (rest : List String) :
    Accumulated weight k fused (done ++ rest) (rest.foldl (accumulateKey weight k) st) := by
  induction rest generalizing done st with
  | nil => simpa using h
  | cons next rest ih =>
    have hrun := ih (h.step next)
    simpa using hrun

theorem get?_accumulate (ranked : List String) (weight : ℚ) (k : Nat) (fused : FusedScores)
    (key : String) :
    (accumulate ranked weight k fused).get? key =
      if key ∈ ranked then some (key, scoreIn fused key + rankTerm weight k ranked key)
      else fused.get? key := by
  have hrun : Accumulated weight k fused ([] ++ ranked) _ := accumulated_start.run ranked
  split
  · next h => exact hrun.added key h
  · next h => exact hrun.kept key h

end Accumulate
section Merge
variable {bm25 vector keys : List String} {bm25Weight vectorWeight : ℚ} {k : ℤ} {n : Nat}
  {x y key : String} {score : ℚ}

/-- The dictionary after both lists, before it is sorted. -/
theorem get?_accumulate_both (bm25 vector : List String) (bm25Weight vectorWeight : ℚ) (n : Nat)
    (key : String) :
    (accumulate vector vectorWeight n (accumulate bm25 bm25Weight n .empty)).get? key =
      if key ∈ bm25 ∨ key ∈ vector then
        some (key, rankTerm bm25Weight n bm25 key + rankTerm vectorWeight n vector key)
      else none := by
  have hfirst : scoreIn (accumulate bm25 bm25Weight n .empty) key =
      rankTerm bm25Weight n bm25 key := by
    unfold scoreIn
    rw [get?_accumulate]
    by_cases h : key ∈ bm25
    · simp [h, scoreIn]
    · simp [h, rankTerm]
  rw [get?_accumulate, hfirst, get?_accumulate]
  by_cases hvector : key ∈ vector
  · simp [hvector]
  · by_cases hbm25 : key ∈ bm25
    · simp [hvector, hbm25, scoreIn, rankTerm]
    · simp [hvector, hbm25]

theorem fusedHigher_total (a b : String × ℚ) : fusedHigher a b ∨ fusedHigher b a := by
  rcases lt_trichotomy a.2 b.2 with h | h | h
  · exact .inr (.inl h)
  · rcases le_total a.1 b.1 with hle | hle
    · exact .inl (.inr ⟨h, hle⟩)
    · exact .inr (.inr ⟨h.symm, hle⟩)
  · exact .inl (.inl h)

theorem fusedHigher_trans (a b c : String × ℚ) (hab : fusedHigher a b) (hbc : fusedHigher b c) :
    fusedHigher a c := by
  rcases hab with hab | ⟨hab, hkab⟩
  · rcases hbc with hbc | ⟨hbc, -⟩
    · exact .inl (lt_trans hbc hab)
    · exact .inl (hbc ▸ hab)
  · rcases hbc with hbc | ⟨hbc, hkbc⟩
    · exact .inl (hab ▸ hbc)
    · exact .inr ⟨hab.trans hbc, hkab.trans hkbc⟩

instance : Std.Total fusedHigher := ⟨fusedHigher_total⟩

instance : IsTrans (String × ℚ) fusedHigher := ⟨fusedHigher_trans⟩

/-- What a fused list is for: each key once, by score and then key, and no list's verdict lost. -/
structure FaithfulMerge (bm25 vector : List String) (bm25Weight vectorWeight : ℚ)
    (fused : List (String × ℚ)) : Prop where
  once : (fused.map Prod.fst).Nodup
  keys : ∀ key, key ∈ fused.map Prod.fst ↔ key ∈ bm25 ∨ key ∈ vector
  sorted : fused.Pairwise (fun a b => b.2 < a.2 ∨ a.2 = b.2 ∧ a.1 < b.1)
  dominance : ∀ x y,
    (∀ c ∈ [(bm25, bm25Weight), (vector, vectorWeight)], y ∈ c.1 → c.1.idxOf x ≤ c.1.idxOf y) →
    (∃ c ∈ [(bm25, bm25Weight), (vector, vectorWeight)],
      0 < c.2 ∧ c.1.idxOf x < c.1.idxOf y) →
    (fused.map Prod.fst).idxOf x < (fused.map Prod.fst).idxOf y

/-- In a list sorted by score, a key comes before every key with lower scores only. -/
theorem idxOf_fst_lt {fused : List (String × ℚ)} (hsorted : fused.Pairwise fusedHigher)
    (hx : (x, score) ∈ fused) (hlower : ∀ score', (y, score') ∈ fused → score' < score) :
    (fused.map Prod.fst).idxOf x < (fused.map Prod.fst).idxOf y := by
  have hxy : x ≠ y := by
    rintro rfl
    exact lt_irrefl _ (hlower score hx)
  induction fused with
  | nil => exact absurd hx List.not_mem_nil
  | cons c rest ih =>
    obtain ⟨hhead, hrest⟩ := List.pairwise_cons.mp hsorted
    rw [List.map_cons]
    by_cases hcx : c.1 = x
    · rw [hcx, List.idxOf_cons_self, List.idxOf_cons_ne _ hxy]
      exact Nat.succ_pos _
    have hxrest : (x, score) ∈ rest := by
      cases hx with
      | head => exact absurd rfl hcx
      | tail _ h => exact h
    have hcy : c.1 ≠ y := by
      rintro rfl
      have hc := hlower c.2 List.mem_cons_self
      rcases hhead _ hxrest with h | ⟨h, -⟩
      · exact lt_asymm h hc
      · exact lt_irrefl _ (h ▸ hc)
    rw [List.idxOf_cons_ne _ hcx, List.idxOf_cons_ne _ hcy]
    apply Nat.succ_lt_succ
    exact ih hrest hxrest (fun score' h => hlower score' (List.mem_cons_of_mem _ h))

/-- The term of the list that decides, and of the other, add up in favour of `x`. -/
theorem fused_score_lt (hbm25 : 0 ≤ bm25Weight) (hvector : 0 ≤ vectorWeight)
    (hworse : ∀ c ∈ [(bm25, bm25Weight), (vector, vectorWeight)],
      y ∈ c.1 → c.1.idxOf x ≤ c.1.idxOf y)
    (hbetter : ∃ c ∈ [(bm25, bm25Weight), (vector, vectorWeight)],
      0 < c.2 ∧ c.1.idxOf x < c.1.idxOf y) :
    rankTerm bm25Weight n bm25 y + rankTerm vectorWeight n vector y <
      rankTerm bm25Weight n bm25 x + rankTerm vectorWeight n vector x := by
  have hfirst : rankTerm bm25Weight n bm25 y ≤ rankTerm bm25Weight n bm25 x :=
    rankTerm_le hbm25 n (hworse _ List.mem_cons_self)
  have hsecond : rankTerm vectorWeight n vector y ≤ rankTerm vectorWeight n vector x :=
    rankTerm_le hvector n (hworse _ (List.mem_cons_of_mem _ List.mem_cons_self))
  obtain ⟨c, hc, hpos, hlt⟩ := hbetter
  rcases List.mem_cons.mp hc with rfl | hc
  · exact add_lt_add_of_lt_of_le (rankTerm_lt hpos n hlt) hsecond
  · rw [List.mem_singleton.mp hc] at hpos hlt
    exact add_lt_add_of_le_of_lt hfirst (rankTerm_lt hpos n hlt)

theorem faithfulMerge_of_get? {fused : FusedScores} (hbm25 : 0 ≤ bm25Weight)
    (hvector : 0 ≤ vectorWeight)
    (hget : ∀ key, fused.get? key = if key ∈ bm25 ∨ key ∈ vector then
        some (key, rankTerm bm25Weight n bm25 key + rankTerm vectorWeight n vector key)
      else none) :
    FaithfulMerge bm25 vector bm25Weight vectorWeight
      (fused.values.insertionSort fusedHigher) := by
  have hperm := List.perm_insertionSort fusedHigher fused.values
  have hsorted := List.pairwise_insertionSort fusedHigher fused.values
  have honce : ((fused.values.insertionSort fusedHigher).map Prod.fst).Nodup :=
    (hperm.map _).nodup_iff.mpr fused.nodup
  have hmem (key : String) (score : ℚ) :
      (key, score) ∈ fused.values.insertionSort fusedHigher ↔
        (key ∈ bm25 ∨ key ∈ vector) ∧
          score = rankTerm bm25Weight n bm25 key + rankTerm vectorWeight n vector key := by
    rw [hperm.mem_iff, Table.mem_iff_get?, hget]
    split
    · next h => simp [h, eq_comm]
    · next h => simp [h]
  constructor
  · exact honce
  · intro key
    rw [List.mem_map]
    constructor
    · rintro ⟨⟨key', score⟩, hin, rfl⟩
      exact ((hmem key' score).mp hin).1
    · intro h
      exact ⟨_, (hmem key _).mpr ⟨h, rfl⟩, rfl⟩
  · apply (hsorted.and (List.pairwise_map.mp honce)).imp
    rintro a b ⟨hlt | ⟨heq, hle⟩, hne⟩
    · exact .inl hlt
    · exact .inr ⟨heq, lt_of_le_of_ne hle hne⟩
  · intro x y hworse hbetter
    have hx : x ∈ bm25 ∨ x ∈ vector := by
      obtain ⟨c, hc, -, hlt⟩ := hbetter
      have hin := List.idxOf_lt_length_iff.mp (Nat.lt_of_lt_of_le hlt List.idxOf_le_length)
      rcases List.mem_cons.mp hc with rfl | hc
      · exact .inl hin
      · rw [List.mem_singleton.mp hc] at hin
        exact .inr hin
    apply idxOf_fst_lt hsorted ((hmem x _).mpr ⟨hx, rfl⟩)
    intro score hy
    rw [((hmem y score).mp hy).2]
    exact fused_score_lt hbm25 hvector hworse hbetter

/-- Reciprocal rank fusion over two lists merges them faithfully. -/
theorem reciprocalRankFusionWeighted_faithful (bm25 vector : List String)
    (hbm25 : 0 ≤ bm25Weight) (hvector : 0 ≤ vectorWeight) (hk : 0 ≤ k) :
    ∃ fused, reciprocalRankFusionWeighted bm25 vector bm25Weight vectorWeight k = .ok fused ∧
      FaithfulMerge bm25 vector bm25Weight vectorWeight fused := by
  obtain ⟨n, rfl⟩ := Int.eq_ofNat_of_zero_le hk
  have hweights : ¬ (bm25Weight < 0 ∨ vectorWeight < 0) := by
    rintro (h | h)
    · exact not_lt_of_ge hbm25 h
    · exact not_lt_of_ge hvector h
  unfold reciprocalRankFusionWeighted
  rw [if_neg hweights, if_neg (not_lt_of_ge hk)]
  exact ⟨_, rfl, faithfulMerge_of_get? hbm25 hvector
    (get?_accumulate_both bm25 vector bm25Weight vectorWeight n)⟩

/-- A repeated key, a key of one list only, and a list that does not count. -/
theorem reciprocalRankFusionWeighted_faithful_notes :
    FaithfulMerge ["a", "b", "a"] ["b", "c"] 0 1 [("b", 1 / 61), ("c", 1 / 62), ("a", 0)] := by
  have hrun : (reciprocalRankFusionWeighted ["a", "b", "a"] ["b", "c"] 0 1 60).toOption =
      some [("b", 1 / 61), ("c", 1 / 62), ("a", 0)] := by
    decide +kernel
  obtain ⟨fused, hfused, hfaithful⟩ :=
    reciprocalRankFusionWeighted_faithful ["a", "b", "a"] ["b", "c"] (le_refl 0) zero_le_one
      (show (0 : ℤ) ≤ 60 by decide)
  rw [hfused] at hrun
  exact Option.some_inj.mp hrun ▸ hfaithful

theorem fusedHigher_antisymm {a b : String × ℚ} (hab : fusedHigher a b) (hba : fusedHigher b a) :
    a = b := by
  rcases hab with hab | ⟨hscore, hkab⟩
  · rcases hba with hba | ⟨hba, -⟩
    · exact absurd hba (lt_asymm hab)
    · exact absurd hab (hba ▸ lt_irrefl _)
  · rcases hba with hba | ⟨-, hkba⟩
    · exact absurd hba (hscore ▸ lt_irrefl _)
    · exact Prod.ext (le_antisymm hkab hkba) hscore

/-- Two sorted lists without repeated keys that hold the same pairs are equal. -/
theorem eq_of_fusedHigher {l l' : List (String × ℚ)} (hl : l.Pairwise fusedHigher)
    (hl' : l'.Pairwise fusedHigher) (hkeys : (l.map Prod.fst).Nodup)
    (hkeys' : (l'.map Prod.fst).Nodup) (hmem : ∀ pair, pair ∈ l ↔ pair ∈ l') : l = l' := by
  have hperm : l.Perm l' :=
    (List.perm_ext_iff_of_nodup (hkeys.of_map _) (hkeys'.of_map _)).mpr hmem
  exact hperm.eq_of_pairwise (fun _ _ _ _ => fusedHigher_antisymm) hl hl'

theorem mem_closedFusion (bm25 vector : List String) (weights : ℚ × ℚ) (n : Nat) :
    (key, score) ∈ TappsBrain.reciprocalRankFusionWeighted bm25 vector weights n ↔
      (key ∈ bm25 ∨ key ∈ vector) ∧
        score = rankTerm weights.1 n bm25 key + rankTerm weights.2 n vector key := by
  simp only [TappsBrain.reciprocalRankFusionWeighted, List.mem_insertionSort, List.mem_map,
    List.mem_eraseDups, List.mem_append, Prod.mk.injEq]
  constructor
  · rintro ⟨_, h, rfl, rfl⟩
    exact ⟨h, rfl⟩
  · rintro ⟨h, rfl⟩
    exact ⟨key, h, rfl, rfl⟩

theorem closedFusion_sorted (bm25 vector : List String) (weights : ℚ × ℚ) (n : Nat) :
    let fused := TappsBrain.reciprocalRankFusionWeighted bm25 vector weights n
    fused.Pairwise fusedHigher ∧ (fused.map Prod.fst).Nodup := by
  constructor
  · exact List.pairwise_insertionSort _ _
  · have hperm := List.perm_insertionSort fusedHigher ((bm25 ++ vector).eraseDups.map (fun key =>
      (key, rankTerm weights.1 n bm25 key + rankTerm weights.2 n vector key)))
    apply (hperm.map Prod.fst).nodup_iff.mpr
    have hkeys : Prod.fst ∘ (fun key : String =>
        (key, rankTerm weights.1 n bm25 key + rankTerm weights.2 n vector key)) = id := rfl
    rw [List.map_map, hkeys, List.map_id]
    exact nodup_eraseDups _

/-- The loop computes the closed form that the hybrid path is modelled with. -/
theorem reciprocalRankFusionWeighted_eq (bm25 vector : List String)
    (hbm25 : 0 ≤ bm25Weight) (hvector : 0 ≤ vectorWeight) (n : Nat) :
    reciprocalRankFusionWeighted bm25 vector bm25Weight vectorWeight n =
      .ok (TappsBrain.reciprocalRankFusionWeighted bm25 vector (bm25Weight, vectorWeight) n) := by
  have hweights : ¬ (bm25Weight < 0 ∨ vectorWeight < 0) := by
    rintro (h | h)
    · exact not_lt_of_ge hbm25 h
    · exact not_lt_of_ge hvector h
  unfold reciprocalRankFusionWeighted
  rw [if_neg hweights, if_neg (not_lt_of_ge (Int.natCast_nonneg n))]
  obtain ⟨hsorted, honce⟩ := closedFusion_sorted bm25 vector (bm25Weight, vectorWeight) n
  apply congrArg Except.ok
  apply eq_of_fusedHigher (List.pairwise_insertionSort _ _) hsorted _ honce
  · rintro ⟨key, score⟩
    rw [List.mem_insertionSort, Table.mem_iff_get?, get?_accumulate_both, mem_closedFusion]
    split
    · next h => simp [h, eq_comm]
    · next h => simp [h]
  · exact ((List.perm_insertionSort _ _).map _).nodup_iff.mpr (Table.nodup _)

theorem rankTerm_eq_reciprocalRank {ranked : List String} (h : ranked.Nodup) (key : String) :
    rankTerm 1 60 ranked key = reciprocalRank ranked key := by
  unfold rankTerm reciprocalRank SEARCH_FUSION_RRF_K
  rw [eraseDups_of_nodup h]
  norm_num

section Rows
variable {fts near : List MemoryEntry} {e : MemoryEntry} {r : Scored}

instance : Std.Total scoredHigher :=
  ⟨fun a b => fusedHigher_total (a.entry.key, a.score) (b.entry.key, b.score)⟩

instance : IsTrans Scored scoredHigher :=
  ⟨fun a b c => fusedHigher_trans (a.entry.key, a.score) (b.entry.key, b.score)
    (c.entry.key, c.score)⟩

/-- The rows of the vector list, and those of the text list that it lacks. -/
def fusedRows (fts near : List MemoryEntry) : List MemoryEntry :=
  near ++ fts.filter (fun e => !(near.map (·.key)).contains e.key)

def rowScore (fts near : List MemoryEntry) (e : MemoryEntry) : ℚ :=
  reciprocalRank (fts.map (·.key)) e.key + reciprocalRank (near.map (·.key)) e.key

def scoredRows (fts near : List MemoryEntry) : List Scored :=
  ((fusedRows fts near).map (fun e => ⟨e, rowScore fts near e⟩)).insertionSort scoredHigher

theorem fuseFtsAndVector_eq (fts near : List MemoryEntry) :
    fuseFtsAndVector fts near = (scoredRows fts near).map (·.entry) := rfl

theorem mem_scoredRows :
    r ∈ scoredRows fts near ↔ r.entry ∈ fusedRows fts near ∧ r.score = rowScore fts near r.entry := by
  rw [scoredRows, List.mem_insertionSort, List.mem_map]
  constructor
  · rintro ⟨e, he, rfl⟩
    exact ⟨he, rfl⟩
  · rintro ⟨he, hscore⟩
    exact ⟨r.entry, he, hscore ▸ rfl⟩

theorem key_mem_fusedRows :
    key ∈ (fusedRows fts near).map (·.key) ↔
      key ∈ fts.map (·.key) ∨ key ∈ near.map (·.key) := by
  rw [fusedRows, List.map_append, List.mem_append]
  constructor
  · rintro (h | h)
    · exact .inr h
    · obtain ⟨e, he, rfl⟩ := List.mem_map.mp h
      exact .inl (List.mem_map_of_mem (List.mem_of_mem_filter he))
  · by_cases hnear : key ∈ near.map (·.key)
    · exact fun _ => .inl hnear
    · rintro (h | h)
      · obtain ⟨e, he, rfl⟩ := List.mem_map.mp h
        exact .inr (List.mem_map_of_mem (List.mem_filter.mpr ⟨he, by simpa using hnear⟩))
      · exact absurd h hnear

theorem fusedRows_once (hfts : (fts.map (·.key)).Nodup) (hnear : (near.map (·.key)).Nodup) :
    ((fusedRows fts near).map (·.key)).Nodup := by
  rw [fusedRows, List.map_append]
  apply hnear.append (hfts.sublist (List.filter_sublist.map _))
  intro key hin hout
  obtain ⟨e, he, rfl⟩ := List.mem_map.mp hout
  have hlacks := (List.mem_filter.mp he).2
  simp only [Bool.not_eq_true', List.contains_eq_mem, decide_eq_false_iff_not] at hlacks
  exact hlacks hin

/-- The rows that `_fuse_fts_and_vector` returns come in the order of the fused keys. -/
theorem fuseFtsAndVector_keys (hfts : (fts.map (·.key)).Nodup)
    (hnear : (near.map (·.key)).Nodup) :
    reciprocalRankFusionWeighted (fts.map (·.key)) (near.map (·.key)) 1 1 60 =
      .ok ((fuseFtsAndVector fts near).map (fun e => (e.key, rowScore fts near e))) := by
  have hclosed := reciprocalRankFusionWeighted_eq (fts.map (·.key)) (near.map (·.key))
    (zero_le_one (α := ℚ)) (zero_le_one (α := ℚ)) 60
  apply hclosed.trans
  apply congrArg Except.ok
  obtain ⟨hsorted, honce⟩ :=
    closedFusion_sorted (fts.map (·.key)) (near.map (·.key)) (1, 1) 60
  have hperm := List.perm_insertionSort scoredHigher
    ((fusedRows fts near).map (fun e => (⟨e, rowScore fts near e⟩ : Scored)))
  rw [fuseFtsAndVector_eq, List.map_map]
  apply eq_of_fusedHigher hsorted _ honce
  · have hkeys := (hperm.map (fun r => r.entry.key)).nodup_iff.mpr (by
      rw [List.map_map]
      exact fusedRows_once hfts hnear)
    rw [List.map_map]
    exact hkeys
  · rintro ⟨key, score⟩
    rw [mem_closedFusion, ← key_mem_fusedRows]
    simp only [rankTerm_eq_reciprocalRank hfts, rankTerm_eq_reciprocalRank hnear]
    constructor
    · rintro ⟨h, rfl⟩
      obtain ⟨e, he, rfl⟩ := List.mem_map.mp h
      exact List.mem_map.mpr ⟨⟨e, rowScore fts near e⟩, mem_scoredRows.mpr ⟨he, rfl⟩, rfl⟩
    · intro h
      obtain ⟨r, hr, hpair⟩ := List.mem_map.mp h
      obtain ⟨rfl, rfl⟩ := Prod.mk.inj hpair
      exact ⟨List.mem_map_of_mem (mem_scoredRows.mp hr).1, rfl⟩
  · apply List.pairwise_map.mpr
    apply (List.pairwise_insertionSort scoredHigher _).imp_of_mem
    intro a b ha hb hab
    have hscore := (mem_scoredRows.mp ha).2
    have hscore' := (mem_scoredRows.mp hb).2
    rw [scoredHigher, hscore, hscore'] at hab
    exact hab

end Rows
end Merge
end TappsBrain.Fusion
