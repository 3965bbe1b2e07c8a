import Mathlib.Data.List.Sort
import TappsBrain.Consolidate

namespace TappsBrain
open Lib
set_option autoImplicit true
set_option relaxedAutoImplicit false

/-- What a merge rests on besides the rows: the similarity score of two entries, the hash in a
merged key, the merged text and the decayed confidence, with the thresholds of the store. -/
structure Merging where
  combinedScore : MemoryEntry → MemoryEntry → ℚ
  consolidatedKey : List MemoryEntry → String
  mergeValues : List MemoryEntry → String
  weightedConfidence : List MemoryEntry → ℚ
  threshold : ℚ := 7 / 10
  minEntries : Nat := 3
  minGroupSize : Nat := 3

section Detect
variable (u : Unicode) (m : Merging)

def loweredTags (e : MemoryEntry) : List String := (e.tags.map u.lower).eraseDups

/-- `is_same_topic`: one tier, and half of the smaller tag set in common. -/
def isSameTopic (a b : MemoryEntry) : Bool :=
  let tagsA := loweredTags u a
  let tagsB := loweredTags u b
  let smaller := min tagsA.length tagsB.length
  let overlap := (tagsA.filter tagsB.contains).length
  a.tier = b.tier && 0 < smaller && smaller ≤ 2 * overlap

/-- `find_similar` with embeddings: the candidates at or over the threshold, best first. -/
def findSimilar (e : MemoryEntry) (candidates : List MemoryEntry) : List MemoryEntry :=
  (candidates.filter (fun c => c.key ≠ e.key && m.threshold ≤ m.combinedScore e c)).insertionSort
    (fun a b => m.combinedScore e b ≤ m.combinedScore e a)

/-- `should_consolidate`. -/
def shouldConsolidate (e : MemoryEntry) (candidates : List MemoryEntry) : List MemoryEntry :=
  let active := candidates.filter (fun c =>
    scanned c && c.key ≠ e.key && c.memoryGroup = e.memoryGroup)
  let sameTopic := findSimilar m e (active.filter (isSameTopic u e))
  if sameTopic ≠ [] then sameTopic else findSimilar m e active

/-- `find_consolidation_groups`, with the keys assigned so far. -/
def findConsolidationGroups (all : List MemoryEntry) :
    List MemoryEntry → List String → List (List MemoryEntry)
  | [], _ => []
  | e :: rest, assigned =>
    if assigned.contains e.key then findConsolidationGroups all rest assigned
    else
      let similar := findSimilar m e (all.filter (fun c => !assigned.contains c.key))
      if m.minGroupSize - 1 ≤ similar.length then
        (e :: similar) ::
          findConsolidationGroups all rest (assigned ++ (e :: similar).map (·.key))
      else findConsolidationGroups all rest assigned

end Detect
section Merge
variable (u : Unicode) (m : Merging)

/-- The priorities of `select_tier`. -/
def tierPriority (t : Tier) : Nat :=
  match t with
  | .std .architectural => 5
  | .std .pattern => 4
  | .std .procedural => 3
  | .std .context => 2
  | .std .ephemeral => 1
  | .std .session => 1
  | .layer _ => 3

/-- `select_tier`: the first of the highest priority. -/
def selectTier : List MemoryEntry → Option Tier
  | [] => none
  | e :: rest =>
    match selectTier rest with
    | none => some e.tier
    | some t => if tierPriority e.tier < tierPriority t then some t else some e.tier

/-- `merge_tags`: each tag in its first casing, the most frequent first. -/
def mergeTags (entries : List MemoryEntry) : List String :=
  let tags := entries.flatMap (·.tags)
  let count (t : String) : Nat := (tags.filter (fun t' => u.lower t' = t)).length
  let keys := (tags.map u.lower).eraseDups.insertionSort
    (fun a b => count b < count a ∨ count a = count b ∧ a ≤ b)
  (keys.take 10).filterMap (fun t => tags.find? (fun t' => u.lower t' = t))

/-- `consolidate`: scope and group are those of the newest source. -/
def consolidate (entries : List MemoryEntry) : Option ConsolidatedEntry :=
  if entries.length < MIN_CONSOLIDATION_ENTRIES then none
  else
    match latestBy (·.updatedAt) entries, selectTier entries with
    | some newest, some tier => some
        { key := m.consolidatedKey entries
          value := m.mergeValues entries
          tier := tier.text
          source := .system
          sourceAgent := "tapps-consolidation"
          scope := newest.scope.text
          tags := mergeTags u entries
          confidence := m.weightedConfidence entries
          memoryGroup := newest.memoryGroup }
    | _, _ => none

/-- `_enforce_content_preservation`: six tenths of the summed source text. -/
def preservesContent (value : String) (sources : List MemoryEntry) : Bool :=
  let total := (sources.map (·.value.length)).sum
  total = 0 || 6 * total ≤ 10 * value.length

def planOf (trigger : String) (sources : List MemoryEntry) : Option MergePlan :=
  (consolidate u m sources).map (fun c =>
    { consolidated := c, sources, trigger, threshold := m.threshold
      keepsContent := preservesContent c.value sources })

/-- The merge `check_consolidation_on_save` decides on. -/
def planOnSave (e : MemoryEntry) (candidates : List MemoryEntry) : Option MergePlan :=
  let minEntries := max m.minEntries MIN_CONSOLIDATION_ENTRIES
  let similar := shouldConsolidate u m e candidates
  if candidates.length < minEntries - 1 then none
  else if similar.length < minEntries - 1 then none
  else planOf u m "save" (e :: similar.take (minEntries - 1))

def groupBefore : Option String → Option String → Prop
  | none, _ => True
  | some _, none => False
  | some a, some b => a ≤ b

instance : DecidableRel groupBefore
  | none, _ => isTrue trivial
  | some _, none => isFalse id
  | some a, some b => inferInstanceAs (Decidable (a ≤ b))

/-- The merges `run_periodic_consolidation_scan` decides on, one memory group after the other. -/
def planScan (active : List MemoryEntry) : List MergePlan :=
  if active.length < m.minGroupSize then []
  else
    let groups := (active.map (·.memoryGroup)).eraseDups.insertionSort groupBefore
    groups.flatMap (fun g =>
      let inGroup := active.filter (fun e => e.memoryGroup = g)
      if inGroup.length < m.minGroupSize then []
      else (findConsolidationGroups m inGroup inGroup []).filterMap (planOf u m "periodic_scan"))

end Merge

/-- A merge that one of the two triggers may decide on. -/
def Merging.Plans (u : Unicode) (m : Merging) (plan : MergePlan) : Prop :=
  (∃ e candidates, planOnSave u m e candidates = some plan) ∨
    ∃ active, plan ∈ planScan u m active

section Planned
variable {u : Unicode} {m : Merging} {plan : MergePlan}

theorem mem_findSimilar {e c : MemoryEntry} {candidates : List MemoryEntry}
    (h : c ∈ findSimilar m e candidates) : c ∈ candidates :=
  List.mem_of_mem_filter ((List.mem_insertionSort _).1 h)

theorem shouldConsolidate_group {e c : MemoryEntry} {candidates : List MemoryEntry}
    (h : c ∈ shouldConsolidate u m e candidates) : c.memoryGroup = e.memoryGroup := by
  have hactive : c ∈ candidates.filter (fun c =>
      scanned c && c.key ≠ e.key && c.memoryGroup = e.memoryGroup) := by
    rw [shouldConsolidate] at h
    split at h
    · exact List.mem_of_mem_filter (mem_findSimilar h)
    · exact mem_findSimilar h
  have hall := List.of_mem_filter hactive
  simp only [Bool.and_eq_true, decide_eq_true_eq] at hall
  exact hall.2

theorem mem_findConsolidationGroups {all rest group : List MemoryEntry} {assigned : List String}
    (hrest : ∀ e ∈ rest, e ∈ all) (h : group ∈ findConsolidationGroups m all rest assigned) :
    ∀ e ∈ group, e ∈ all := by
  induction rest generalizing assigned with
  | nil => cases h
  | cons e rest ih =>
    have htail := fun e' he' => hrest e' (List.mem_cons_of_mem e he')
    rw [findConsolidationGroups] at h
    split at h
    · exact ih htail h
    · dsimp only at h
      split at h
      · rcases List.mem_cons.1 h with rfl | h
        · intro x hx
          rcases List.mem_cons.1 hx with rfl | hx
          · exact hrest x List.mem_cons_self
          · exact List.mem_of_mem_filter (mem_findSimilar hx)
        · exact ih htail h
      · exact ih htail h

theorem mem_latestBy {stamp : MemoryEntry → Stamp} {entries : List MemoryEntry} {e : MemoryEntry}
    (h : latestBy stamp entries = some e) : e ∈ entries := by
  induction entries generalizing e with
  | nil => cases h
  | cons x rest ih =>
    rw [latestBy] at h
    split at h
    · cases h
      exact List.mem_cons_self
    · next m hm =>
      split at h
      · cases h
        exact List.mem_cons_of_mem x (ih hm)
      · cases h
        exact List.mem_cons_self

/-- The merged entry has the scope and the group of one of the sources. -/
theorem planOf_newest {trigger : String} {sources : List MemoryEntry}
    (h : planOf u m trigger sources = some plan) : plan.sources = sources ∧
      ∃ newest ∈ sources, plan.consolidated.scope = newest.scope.text ∧
        plan.consolidated.memoryGroup = newest.memoryGroup := by
  obtain ⟨c, hc, rfl⟩ := Option.map_eq_some_iff.1 h
  refine ⟨rfl, ?_⟩
  rw [consolidate] at hc
  split at hc
  · cases hc
  · split at hc
    · next newest tier hnewest _ =>
      cases hc
      exact ⟨newest, mem_latestBy hnewest, rfl, rfl⟩
    · cases hc

/-- The sources of a merge are of one memory group, whichever trigger found them. -/
theorem Merging.Plans.newest (h : m.Plans u plan) : ∃ newest ∈ plan.sources,
    plan.consolidated.scope = newest.scope.text ∧
      plan.consolidated.memoryGroup = newest.memoryGroup ∧
      ∀ snap ∈ plan.sources, snap.memoryGroup = newest.memoryGroup := by
  have hfinish : ∀ trigger sources g, (∀ snap ∈ sources, snap.memoryGroup = g) →
      planOf u m trigger sources = some plan → ∃ newest ∈ plan.sources,
        plan.consolidated.scope = newest.scope.text ∧
          plan.consolidated.memoryGroup = newest.memoryGroup ∧
          ∀ snap ∈ plan.sources, snap.memoryGroup = newest.memoryGroup := by
    intro trigger sources g hg hplan
    obtain ⟨hsources, newest, hmem, hscope, hgroup⟩ := planOf_newest hplan
    rw [hsources]
    exact ⟨newest, hmem, hscope, hgroup, fun snap hsnap => (hg snap hsnap).trans (hg newest hmem).symm⟩
  rcases h with ⟨e, candidates, h⟩ | ⟨active, h⟩
  · rw [planOnSave] at h
    split at h
    · cases h
    · split at h
      · cases h
      · apply hfinish "save" _ e.memoryGroup _ h
        intro snap hsnap
        rcases List.mem_cons.1 hsnap with rfl | hsnap
        · rfl
        · exact shouldConsolidate_group (List.mem_of_mem_take hsnap)
  · rw [planScan] at h
    split at h
    · cases h
    · obtain ⟨g, _, h⟩ := List.mem_flatMap.1 h
      dsimp only at h
      split at h
      · cases h
      · obtain ⟨sources, hgroup, h⟩ := List.mem_filterMap.1 h
        apply hfinish "periodic_scan" sources g _ h
        intro snap hsnap
        have hin := mem_findConsolidationGroups (fun e he => he) hgroup snap hsnap
        exact of_decide_eq_true (List.mem_filter.1 hin).2

end Planned
end TappsBrain
