import Mathlib.Data.List.Sort
import TappsBrain.Merging

namespace TappsBrain.Similarity
open Lib
set_option autoImplicit true
set_option relaxedAutoImplicit false

/-- The two accumulators of `find_consolidation_groups`. -/
structure Grouping where
  assigned : List String := []
  groups : List (List String) := []

section Loop
variable (m : Merging) (minGroupSize : ℤ) (entries : List MemoryEntry)

/-- The candidates of one turn: entries that are in no group yet. -/
def unassigned (assigned : List String) : List MemoryEntry :=
  entries.filter (fun e => !assigned.contains e.key)

def groupStep (st : Grouping) (entry : MemoryEntry) : Grouping :=
  if st.assigned.contains entry.key then st
  else
    let similar := findSimilar m entry (unassigned entries st.assigned)
    if minGroupSize - 1 ≤ similar.length then
      let group := entry.key :: similar.map (·.key)
      { assigned := st.assigned ++ group, groups := st.groups ++ [group] }
    else st

/-- `find_consolidation_groups`: a greedy pass, the groups given by their keys. -/
def findConsolidationGroups : List (List String) :=
  if (entries.length : ℤ) < minGroupSize then []
  else (entries.foldl (groupStep m minGroupSize entries) {}).groups

/-- A group led by one entry whose other members reach the threshold with it. -/
structure LedGroup (group : List String) : Prop where
  size : minGroupSize ≤ group.length
  led : ∃ first ∈ entries, ∃ rest, group = first.key :: rest ∧
    ∀ k ∈ rest, ∃ e ∈ entries, e.key = k ∧ m.threshold ≤ m.combinedScore first e

/-- The other entries outside `assigned` that reach the threshold with one entry. -/
def within (assigned : List String) (entry : MemoryEntry) : List MemoryEntry :=
  (unassigned entries assigned).filter (fun c =>
    c.key ≠ entry.key && m.threshold ≤ m.combinedScore entry c)

/-- What the greedy pass promises of its groups. -/
structure PartitionsBySimilarity (groups : List (List String)) : Prop where
  disjoint : groups.Pairwise List.Disjoint
  distinct : ∀ group ∈ groups, group.Nodup
  led : ∀ group ∈ groups, LedGroup m minGroupSize entries group
  complete : ∀ e ∈ entries, e.key ∉ groups.flatten →
    ((within m entries groups.flatten e).length : ℤ) < minGroupSize - 1

end Loop
section Pass
variable {m : Merging} {minGroupSize : ℤ} {entries done : List MemoryEntry}
  {assigned assigned' : List String} {entry : MemoryEntry} {st : Grouping}

theorem mem_unassigned :
    e ∈ unassigned entries assigned ↔ e ∈ entries ∧ e.key ∉ assigned := by
  simp [unassigned]

theorem findSimilar_perm_within (assigned : List String) (entry : MemoryEntry) :
    (findSimilar m entry (unassigned entries assigned)).Perm (within m entries assigned entry) :=
  List.perm_insertionSort _ _

theorem within_length_anti (m : Merging) (entries : List MemoryEntry)
    (h : assigned ⊆ assigned') (entry : MemoryEntry) :
    (within m entries assigned' entry).length ≤ (within m entries assigned entry).length := by
  apply List.Sublist.length_le
  apply List.Sublist.filter
  apply List.monotone_filter_right
  intro e he
  simp only [Bool.not_eq_true', List.contains_eq_mem, decide_eq_false_iff_not] at he ⊢
  exact fun hin => he (h hin)

/-- The invariant of the pass: `done` are the entries it has gone over. -/
structure Grouped (m : Merging) (minGroupSize : ℤ) (entries done : List MemoryEntry)
    (st : Grouping) : Prop where
  assigned_eq : st.assigned = st.groups.flatten
  distinct : st.groups.flatten.Nodup
  led : ∀ group ∈ st.groups, LedGroup m minGroupSize entries group
  complete : ∀ e ∈ done, e.key ∉ st.assigned →
    ((within m entries st.assigned e).length : ℤ) < minGroupSize - 1

theorem grouped_start : Grouped m minGroupSize entries [] {} :=
  ⟨rfl, List.nodup_nil, by simp, by simp⟩

theorem ledGroup_of_similar (hentry : entry ∈ entries)
    (hsize : minGroupSize - 1 ≤ (findSimilar m entry (unassigned entries assigned)).length) :
    LedGroup m minGroupSize entries
      (entry.key :: (findSimilar m entry (unassigned entries assigned)).map (·.key)) := by
  constructor
  · simp only [List.length_cons, List.length_map]
    omega
  · refine ⟨entry, hentry, _, rfl, ?_⟩
    intro k hk
    obtain ⟨e, he, rfl⟩ := List.mem_map.mp hk
    have hwithin := (findSimilar_perm_within assigned entry).mem_iff.mp he
    obtain ⟨hfree, hnear⟩ := List.mem_filter.mp hwithin
    have hscore : m.threshold ≤ m.combinedScore entry e := by
      simp only [Bool.and_eq_true, decide_eq_true_eq] at hnear
      exact hnear.2
    exact ⟨e, (mem_unassigned.mp hfree).1, rfl, hscore⟩

/-- The keys of one group are new and distinct. -/
theorem group_fresh (m : Merging) (hkeys : (entries.map (·.key)).Nodup) (hentry : entry.key ∉ assigned) :
    let group := entry.key :: (findSimilar m entry (unassigned entries assigned)).map (·.key)
    group.Nodup ∧ ∀ k ∈ group, k ∉ assigned := by
  have hperm : ((findSimilar m entry (unassigned entries assigned)).map (·.key)).Perm
      ((within m entries assigned entry).map (·.key)) :=
    (findSimilar_perm_within assigned entry).map _
  have hmem : ∀ k ∈ (findSimilar m entry (unassigned entries assigned)).map (·.key),
      k ∉ assigned ∧ k ≠ entry.key := by
    intro k hk
    obtain ⟨e, he, rfl⟩ := List.mem_map.mp (hperm.mem_iff.mp hk)
    obtain ⟨hfree, hnear⟩ := List.mem_filter.mp he
    simp only [Bool.and_eq_true, decide_eq_true_eq] at hnear
    exact ⟨(mem_unassigned.mp hfree).2, hnear.1⟩
  constructor
  · apply List.nodup_cons.mpr
    constructor
    · exact fun hin => (hmem _ hin).2 rfl
    · apply hperm.nodup_iff.mpr
      exact List.Nodup.sublist ((List.filter_sublist.trans List.filter_sublist).map _) hkeys
  · intro k hk
    cases hk with
    | head => exact hentry
    | tail _ hk => exact (hmem k hk).1

theorem Grouped.step (h : Grouped m minGroupSize entries done st)
    (hkeys : (entries.map (·.key)).Nodup) (hentry : entry ∈ entries) :
    Grouped m minGroupSize entries (done ++ [entry])
      (groupStep m minGroupSize entries st entry) := by
  have hdone : ∀ st' : Grouping, st.assigned ⊆ st'.assigned →
      (entry.key ∉ st'.assigned →
        ((within m entries st'.assigned entry).length : ℤ) < minGroupSize - 1) →
      ∀ e ∈ done ++ [entry], e.key ∉ st'.assigned →
        ((within m entries st'.assigned e).length : ℤ) < minGroupSize - 1 := by
    intro st' hsub hlast e he hout
    rcases List.mem_append.mp he with he | he
    · have hbefore := h.complete e he (fun hin => hout (hsub hin))
      have hless := within_length_anti m entries hsub e
      omega
    · rw [List.mem_singleton.mp he] at hout ⊢
      exact hlast hout
  unfold groupStep
  by_cases hin : st.assigned.contains entry.key
  · rw [if_pos hin]
    have hmem : entry.key ∈ st.assigned := by simpa using hin
    exact ⟨h.assigned_eq, h.distinct, h.led,
      hdone st (List.Subset.refl _) (fun hout => absurd hmem hout)⟩
  rw [if_neg hin]
  have hout : entry.key ∉ st.assigned := by simpa using hin
  dsimp only
  by_cases hsize : minGroupSize - 1 ≤
      (findSimilar m entry (unassigned entries st.assigned)).length
  · rw [if_pos hsize]
    obtain ⟨hnodup, hfresh⟩ := group_fresh m hkeys hout
    constructor
    · simp [h.assigned_eq]
    · simp only [List.flatten_append, List.flatten_singleton]
      rw [← h.assigned_eq]
      apply List.Nodup.append _ hnodup
      · intro k hk hk'
        exact hfresh k hk' hk
      · rw [h.assigned_eq]
        exact h.distinct
    · intro group hgroup
      rcases List.mem_append.mp hgroup with hgroup | hgroup
      · exact h.led group hgroup
      · rw [List.mem_singleton.mp hgroup]
        exact ledGroup_of_similar hentry hsize
    · apply hdone
      · exact List.subset_append_left _ _
      · intro hout'
        simp at hout'
  · rw [if_neg hsize]
    have hperm : (findSimilar m entry (unassigned entries st.assigned)).length =
        (within m entries st.assigned entry).length :=
      (findSimilar_perm_within st.assigned entry).length_eq
    apply Grouped.mk h.assigned_eq h.distinct h.led
    apply hdone st (List.Subset.refl _)
    intro _
    omega

theorem Grouped.run (hkeys : (entries.map (·.key)).Nodup) (rest : List MemoryEntry)
    (hrest : rest ⊆ entries) (h : Grouped m minGroupSize entries done st) :
    Grouped m minGroupSize entries (done ++ rest)
      (rest.foldl (groupStep m minGroupSize entries) st) := by
  induction rest generalizing done st with
  | nil => simpa using h
  | cons e rest ih =>
    have hstep := h.step hkeys (hrest List.mem_cons_self)
    have hrun := ih (fun _ he => hrest (List.mem_cons_of_mem _ he)) hstep
    simpa using hrun

theorem Grouped.partitions (h : Grouped m minGroupSize entries entries st) :
    PartitionsBySimilarity m minGroupSize entries st.groups := by
  obtain ⟨hdistinct, hdisjoint⟩ := List.nodup_flatten.mp h.distinct
  constructor
  · exact hdisjoint
  · exact hdistinct
  · exact h.led
  · rw [← h.assigned_eq]
    exact h.complete

/-- No pass is made over fewer entries than a group needs: there is nothing to find. -/
theorem partitions_of_short (hkeys : (entries.map (·.key)).Nodup)
    (hshort : (entries.length : ℤ) < minGroupSize) :
    PartitionsBySimilarity m minGroupSize entries [] := by
  constructor
  · exact List.Pairwise.nil
  · simp
  · simp
  · intro e he _
    have hsub : (e :: within m entries [] e).Subperm entries := by
      apply List.subperm_of_subset
      · apply List.nodup_cons.mpr
        constructor
        · intro hin
          simp [within] at hin
        · apply List.Nodup.filter
          apply List.Nodup.filter
          exact hkeys.of_map _
      · intro c hc
        cases hc with
        | head => exact he
        | tail _ hc => exact (mem_unassigned.mp (List.mem_of_mem_filter hc)).1
    have hlength := hsub.length_le
    simp only [List.length_cons] at hlength
    simp only [List.flatten_nil]
    omega

theorem findConsolidationGroups_partitions (hkeys : (entries.map (·.key)).Nodup) :
    PartitionsBySimilarity m minGroupSize entries
      (findConsolidationGroups m minGroupSize entries) := by
  unfold findConsolidationGroups
  by_cases hshort : (entries.length : ℤ) < minGroupSize
  · rw [if_pos hshort]
    exact partitions_of_short hkeys hshort
  · rw [if_neg hshort]
    apply Grouped.partitions
    exact Grouped.run hkeys entries (List.Subset.refl _) grouped_start

def wordMerging : Merging where
  combinedScore a b := if a.value = b.value then 1 else 0
  consolidatedKey _ := "merged"
  mergeValues _ := ""
  weightedConfidence _ := 1

def wordNote (key value : String) : MemoryEntry :=
  { key, value, createdAt := 0, updatedAt := 0, lastAccessed := 0 }

theorem findConsolidationGroups_partitions_notes :
    PartitionsBySimilarity wordMerging 2
      [wordNote "a" "deploy", wordNote "b" "rollback", wordNote "c" "deploy"] [["a", "c"]] := by
  have hpass : findConsolidationGroups wordMerging 2
      [wordNote "a" "deploy", wordNote "b" "rollback", wordNote "c" "deploy"] = [["a", "c"]] := by
    decide +kernel
  rw [← hpass]
  exact findConsolidationGroups_partitions (by decide)

/-- The scan's own recursion is this pass at the scan's group size. -/
theorem groups_foldl_groupStep (rest : List MemoryEntry) (st : Grouping) :
    (rest.foldl (groupStep m m.minGroupSize entries) st).groups =
      st.groups ++
        (TappsBrain.findConsolidationGroups m entries rest st.assigned).map
          (·.map (·.key)) := by
  induction rest generalizing st with
  | nil => simp [TappsBrain.findConsolidationGroups]
  | cons e rest ih =>
    rw [List.foldl_cons, ih, TappsBrain.findConsolidationGroups]
    unfold groupStep
    by_cases hin : st.assigned.contains e.key
    · simp only [if_pos hin]
    have hfree : entries.filter (fun c => !st.assigned.contains c.key) =
        unassigned entries st.assigned := rfl
    simp only [if_neg hin, hfree]
    have hsize : ((m.minGroupSize : ℤ) - 1 ≤
        (findSimilar m e (unassigned entries st.assigned)).length) ↔
        m.minGroupSize - 1 ≤ (findSimilar m e (unassigned entries st.assigned)).length := by
      omega
    by_cases hgroup : m.minGroupSize - 1 ≤
        (findSimilar m e (unassigned entries st.assigned)).length
    · rw [if_pos (hsize.mpr hgroup), if_pos hgroup]
      simp
    · rw [if_neg (fun h => hgroup (hsize.mp h)), if_neg hgroup]

theorem findConsolidationGroups_eq (hroom : m.minGroupSize ≤ entries.length) :
    findConsolidationGroups m m.minGroupSize entries =
      (TappsBrain.findConsolidationGroups m entries entries []).map (·.map (·.key)) := by
  unfold findConsolidationGroups
  rw [if_neg (by omega), groups_foldl_groupStep]
  rfl

/-- No memory is a source of two of the groups one scan goes over. -/
theorem scanned_groups_disjoint (hkeys : (entries.map (·.key)).Nodup)
    (hroom : m.minGroupSize ≤ entries.length) :
    ((TappsBrain.findConsolidationGroups m entries entries []).map
      (·.map (·.key))).Pairwise List.Disjoint := by
  rw [← findConsolidationGroups_eq hroom]
  exact (findConsolidationGroups_partitions hkeys).disjoint

end Pass
end TappsBrain.Similarity
