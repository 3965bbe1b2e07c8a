import TappsBrain.RecallSafety

namespace TappsBrain
set_option autoImplicit true
set_option relaxedAutoImplicit false

variable {s : RecallStore} {o : RecallOrchestrator} {cfg : RecallConfig} {message : String}

/-- The line is printed on one line of the section. -/
def SectionLine.OneLine (s : RecallStore) (l : SectionLine) : Prop := '\n' ∉ (l.text s).toList

instance (s : RecallStore) (l : SectionLine) : Decidable (l.OneLine s) :=
  inferInstanceAs (Decidable (_ ∉ _))

/-- What a line shows of a memory. -/
def SectionLine.face (l : SectionLine) : String × ℚ × String × String :=
  (l.key, l.confidence, l.tier, l.shown)

/-- What a result dictionary says a line shows. -/
def RecalledMemory.face (m : RecalledMemory) : String × ℚ × String × String :=
  (m.key, m.confidence, m.tier, m.value)

/-- The line is the memory's: its key, confidence, tier and value, on one line. -/
structure PrintedLine (s : RecallStore) (l : SectionLine) (m : RecalledMemory) : Prop where
  face : l.face = m.face
  oneLine : l.OneLine s

/-- The entry lines of a section are the reported memories, one line each and in their order. -/
def SectionAgrees (s : RecallStore) (lines : List SectionLine) (memories : List RecalledMemory) :
    Prop :=
  List.Forall₂ (PrintedLine s) lines memories

/-- A recall reports what its section shows. A merged section is rebuilt from the memories, which
print their key where they have no value. A filtered one prints the values of the store. An
injected one is in the order of the injection. -/
structure Reported (o : RecallOrchestrator) (cfg : RecallConfig) (message : String) : Prop where
  merged : hiveMerged o cfg message = true → ∀ m, Reaches o cfg message m →
    (m.value = "" → m.key = "") ∧ (memoryLine m).OneLine o.store
  filtered : hiveMerged o cfg message = false → needsPostFilter cfg = true →
    ∀ m ∈ localMemories o cfg message, keptByFilters o.store cfg m = true →
      ((peekEntry o.store m.key).elim (m.value = "" → m.key = "") (fun e => e.value = m.value)) ∧
        (filteredLine o.store m).OneLine o.store
  injected : hiveMerged o cfg message = false → needsPostFilter cfg = false →
    (localMemories o cfg message).map RecalledMemory.face =
        (injected o cfg message).memories.map RecalledMemory.face ∧
      ∀ l ∈ (TappsBrain.injected o cfg message).memorySection, l.OneLine o.store

/-- The lines of a section whose every line is printed on one. -/
theorem sectionText_lines {lines : List SectionLine} (hsome : lines ≠ [])
    (h : ∀ l ∈ lines, l.OneLine s) :
    (sectionText s lines).toList.splitOn '\n' =
      (SECTION_HEADER :: lines.map (SectionLine.text s)).map String.toList := by
  have htext : sectionText s lines =
      "\n".intercalate (SECTION_HEADER :: lines.map (SectionLine.text s)) := by
    cases lines with
    | nil => exact absurd rfl hsome
    | cons l rest => rfl
  have hbreak : "\n".toList = ['\n'] := rfl
  rw [htext, String.toList_intercalate, hbreak]
  apply List.splitOn_intercalate
  · intro text htext
    obtain ⟨line, hline, rfl⟩ := List.mem_map.mp htext
    cases hline with
    | head => decide
    | tail _ hline =>
      obtain ⟨l, hl, rfl⟩ := List.mem_map.mp hline
      exact h l hl
  · exact List.cons_ne_nil _ _

theorem memoryLine_face {m : RecalledMemory} :
    (memoryLine m).face = m.face ↔ (m.value = "" → m.key = "") := by
  simp only [SectionLine.face, RecalledMemory.face, memoryLine, Prod.mk.injEq, true_and]
  by_cases hvalue : m.value = ""
  · simp only [hvalue, if_true, forall_const]
  · simp only [hvalue, if_false, false_implies]

theorem filteredLine_face {m : RecalledMemory} :
    (filteredLine s m).face = m.face ↔
      (peekEntry s m.key).elim (m.value = "" → m.key = "") (fun e => e.value = m.value) := by
  cases hpeek : peekEntry s m.key with
  | none =>
    simp only [filteredLine, hpeek, Option.elim]
    exact memoryLine_face
  | some entry =>
    simp only [filteredLine, hpeek, Option.elim, SectionLine.face, RecalledMemory.face, memoryLine,
      Prod.mk.injEq, true_and]

/-- A section printed memory by memory agrees where each line does. -/
theorem sectionAgrees_map {f : RecalledMemory → SectionLine} {l : List RecalledMemory} :
    SectionAgrees s (l.map f) l ↔ ∀ m ∈ l, (f m).face = m.face ∧ (f m).OneLine s := by
  rw [SectionAgrees, List.forall₂_map_left_iff, List.forall₂_same]
  constructor
  · exact fun h m hm => ⟨(h m hm).face, (h m hm).oneLine⟩
  · exact fun h m hm => ⟨(h m hm).1, (h m hm).2⟩

/-- Lines of some faces agree with the memories of the same faces. -/
theorem sectionAgrees_iff {lines : List SectionLine} {l : List RecalledMemory} :
    SectionAgrees s lines l ↔ l.map RecalledMemory.face = lines.map SectionLine.face ∧
      ∀ line ∈ lines, line.OneLine s := by
  constructor
  · intro h
    induction h with
    | nil => exact ⟨rfl, fun _ hline => nomatch hline⟩
    | cons hshows _ ih =>
      constructor
      · rw [List.map_cons, List.map_cons, hshows.face, ih.1]
      · intro line hline
        cases hline with
        | head => exact hshows.oneLine
        | tail _ hline => exact ih.2 line hline
  · rintro ⟨hfaces, hlines⟩
    induction lines generalizing l with
    | nil =>
      rw [List.map_eq_nil_iff.mp hfaces]
      exact List.Forall₂.nil
    | cons line rest ih =>
      cases l with
      | nil => cases hfaces
      | cons m ms =>
        obtain ⟨hface, hrest⟩ := List.cons.inj hfaces
        apply List.Forall₂.cons
        · exact ⟨hface.symm, hlines line List.mem_cons_self⟩
        · exact ih hrest (fun l hl => hlines l (List.mem_cons_of_mem _ hl))

/-- An injection shows what it reports. -/
theorem injected_faces : (injected o cfg message).memories.map RecalledMemory.face =
    (injected o cfg message).memorySection.map SectionLine.face := by
  obtain ⟨budgeted, -, hsection, hmemories⟩ := injectMemories_safe (s := o.store)
  rw [injected, hsection, hmemories, List.map_map, List.map_map]
  rfl

theorem injected_agrees {l : List RecalledMemory} :
    SectionAgrees o.store (injected o cfg message).memorySection l ↔
      l.map RecalledMemory.face = (injected o cfg message).memories.map RecalledMemory.face ∧
        ∀ line ∈ (injected o cfg message).memorySection, line.OneLine o.store := by
  rw [sectionAgrees_iff, injected_faces]

/-- Nothing is left of an injection only where it reported nothing. -/
theorem injected_of_no_memories (h : localMemories o cfg message = []) :
    (injected o cfg message).memorySection = [] := by
  have hnone : (injected o cfg message).memories = [] := by
    simp only [localMemories] at h
    split at h
    · rename_i hboost
      have hlength := congrArg List.length h
      simp only [applyGraphBoost] at hlength
      split at hlength
      · exact absurd (List.eq_nil_of_length_eq_zero hlength) hboost.2
      · simp only [byScore, List.length_mergeSort, List.length_map, List.length_nil] at hlength
        exact List.eq_nil_of_length_eq_zero hlength
    · exact h
  have hfaces : (injected o cfg message).memories.map RecalledMemory.face =
      (injected o cfg message).memorySection.map SectionLine.face := injected_faces
  rw [hnone] at hfaces
  exact List.map_eq_nil_iff.mp hfaces.symm

theorem recall_memories_merged (h : hiveMerged o cfg message = true) :
    (o.recall message cfg).memories =
      (truncateToBudget o.store cfg.maxTokens (candidates o cfg message)).1 := by
  have hmemories : (o.recall message cfg).memories = (budgetedMemories o cfg message).1 := rfl
  rw [hmemories, budgetedMemories, filteredMemories_candidates]
  by_cases hnil : candidates o cfg message = []
  · simp only [hnil, ne_eq, not_true_eq_false, and_false, if_false, truncateToBudget, takeWithin]
  · simp only [h, hnil, ne_eq, not_false_eq_true, and_self, if_true]

theorem recall_memories_unmerged (h : hiveMerged o cfg message = false) :
    (o.recall message cfg).memories = candidates o cfg message := by
  have hmemories : (o.recall message cfg).memories = (budgetedMemories o cfg message).1 := rfl
  simp only [hmemories, budgetedMemories, h, Bool.false_eq_true, false_and, if_false,
    filteredMemories_candidates]

def rankedMemory (key value : String) (score : ℚ) : ScoredMemory where
  entry := { key, value, createdAt := 0, updatedAt := 0, lastAccessed := 0 }
  score := score
  effectiveConfidence := 9 / 10

/-- A store that ranks two entries, the second one related to the first. -/
def relatedStore : RecallOrchestrator where
  store :=
    { search := fun _ => .ok
        [rankedMemory "deploy" "ship on green" (5 / 10), rankedMemory "rollback" "undo" (4 / 10)]
      visible := fun _ => 2
      findRelated := fun key => if key = "deploy" then some [("rollback", 1)] else some []
      entry := fun _ => none
      safety := { patterns := [], nfkc := id, findEncodedInjection := fun _ _ => none }
      twoDecimals := fun _ => "0.90" }
  round4 := id

theorem byScore_pair {a b : RecalledMemory} (h : a.score < b.score) : byScore [a, b] = [b, a] := by
  have hswap : ¬ b.score ≤ a.score := not_le.mpr h
  simp [byScore, List.mergeSort, List.MergeSort.Internal.splitInTwo, hswap]

deriving instance DecidableEq for RecalledMemory

def boostingConfig : RecallConfig := { useGraphBoost := true }

def deployMemory : RecalledMemory where
  key := "deploy"
  value := "ship on green"
  confidence := 9 / 10
  score := 5 / 10
  lastAccessed := some 0
  stored := "ship on green"

def rollbackMemory : RecalledMemory where
  key := "rollback"
  value := "undo"
  confidence := 9 / 10
  score := 55 / 100
  graphBoosted := true
  lastAccessed := some 0
  stored := "undo"

/-- The boost puts the second memory first; the section keeps the order of the injection. -/
theorem boosted_memories :
    ((injected relatedStore boostingConfig "how do we ship").memories.map fun m =>
      match connectedHop relatedStore.store
          (injected relatedStore boostingConfig "how do we ship").memories m.key with
      | none => m
      | some hop =>
        { m with
          score := min (m.score + boostingConfig.graphBoostFactor / hop) 1
          graphBoosted := true }) = [deployMemory, rollbackMemory] := by
  decide +kernel

end TappsBrain
