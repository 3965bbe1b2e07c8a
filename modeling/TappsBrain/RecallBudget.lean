import Mathlib.Algebra.Order.BigOperators.Group.List
import TappsBrain.Recall

namespace TappsBrain
set_option autoImplicit true
set_option relaxedAutoImplicit false

section Greedy
variable {cost : α → Int} {budget : Int}

theorem takeWithin_initial (used : Int) (started : Bool) (l : List α) :
    takeWithin cost budget used started l <+: l := by
  induction l generalizing used started with
  | nil => exact List.prefix_rfl
  | cons item rest ih =>
    rw [takeWithin]
    split
    · exact List.nil_prefix
    · exact (List.prefix_cons_inj item).2 (ih _ _)

/-- What was taken behind a first item fits. -/
theorem takeWithin_fits {used : Int} {started : Bool} {l : List α}
    (h : (started = true ∧ takeWithin cost budget used started l ≠ []) ∨
      1 < (takeWithin cost budget used started l).length) :
    used + ((takeWithin cost budget used started l).map cost).sum ≤ budget := by
  induction l generalizing used started with
  | nil =>
    rcases h with ⟨-, h⟩ | h
    · exact absurd rfl h
    · cases h
  | cons item rest ih =>
    by_cases hstop : started = true ∧ budget < used + cost item
    · rw [takeWithin, if_pos hstop] at h
      rcases h with ⟨-, h⟩ | h
      · exact absurd rfl h
      · cases h
    · rw [takeWithin, if_neg hstop] at h ⊢
      rw [List.map_cons, List.sum_cons, ← add_assoc]
      by_cases hrest : takeWithin cost budget (used + cost item) true rest = []
      · rw [hrest] at h ⊢
        rcases h with ⟨hstarted, -⟩ | h
        · have hfit : ¬ budget < used + cost item := fun hlt => hstop ⟨hstarted, hlt⟩
          simpa only [List.map_nil, List.sum_nil, add_zero, not_lt] using hfit
        · exact absurd h (Nat.lt_irrefl 1)
      · exact ih (.inl ⟨rfl, hrest⟩)

/-- The item at which the list is cut does not fit. -/
theorem takeWithin_stops {used : Int} {started : Bool} {l : List α} {next : α} {rest : List α}
    (h : l = takeWithin cost budget used started l ++ next :: rest) :
    budget < used + ((takeWithin cost budget used started l).map cost).sum + cost next := by
  induction l generalizing used started with
  | nil =>
    have hlen := congrArg List.length h
    simp only [List.length_nil, List.length_append, List.length_cons] at hlen
    omega
  | cons item tail ih =>
    by_cases hstop : started = true ∧ budget < used + cost item
    · rw [takeWithin, if_pos hstop] at h ⊢
      cases h
      simpa only [List.map_nil, List.sum_nil, add_zero] using hstop.2
    · rw [takeWithin, if_neg hstop] at h ⊢
      rw [List.map_cons, List.sum_cons, ← add_assoc]
      exact ih (List.cons.inj h).2

end Greedy

section Section
variable {s : RecallStore} {maxTokens : Int} {memories : List RecalledMemory}

def lineLength (s : RecallStore) (m : RecalledMemory) : Nat := ((memoryLine m).text s).length

/-- What the estimate of a line leaves out: the remainder of the line, and the break before it. -/
def lineRemainder (s : RecallStore) (m : RecalledMemory) : Nat := lineLength s m % 4 + 1

/-- The cost the budget charges for a section of these memories. -/
def chargedTokens (s : RecallStore) (memories : List RecalledMemory) : Int :=
  estimateTokens SECTION_HEADER + (memories.map (lineCost s)).sum

/-- The estimate of the section itself. -/
def sectionTokens (s : RecallStore) (memories : List RecalledMemory) : Int :=
  estimateTokens (sectionText s (rebuildSection memories))

theorem four_le_lineLength (s : RecallStore) (m : RecalledMemory) : 4 ≤ lineLength s m := by
  have hopen : "- **".length = 4 := rfl
  simp only [lineLength, SectionLine.text, String.length_append, toString, hopen]
  omega

theorem lineCost_eq (s : RecallStore) (m : RecalledMemory) : lineCost s m = (lineLength s m / 4 : Nat) := by
  have hlong := four_le_lineLength s m
  have hcost : lineCost s m = (max 1 (lineLength s m / 4) : Nat) := rfl
  rw [hcost, max_eq_right (by omega)]

theorem length_intercalate (first : String) (lines : List String) :
    ("\n".intercalate (first :: lines)).length =
      first.length + (lines.map (fun l => l.length + 1)).sum := by
  induction lines generalizing first with
  | nil => rw [String.intercalate_singleton, List.map_nil, List.sum_nil, Nat.add_zero]
  | cons line rest ih =>
    have hbreak : "\n".length = 1 := rfl
    rw [String.intercalate_cons_cons, String.length_append, String.length_append, ih, hbreak,
      List.map_cons, List.sum_cons]
    omega

/-- The lengths of the lines, the breaks between them included. -/
def sectionLength (s : RecallStore) (memories : List RecalledMemory) : Nat :=
  SECTION_HEADER.length + (memories.map (fun m => lineLength s m + 1)).sum

theorem sectionTokens_eq (h : memories ≠ []) :
    sectionTokens s memories = (sectionLength s memories / 4 : Nat) := by
  obtain ⟨m, rest, rfl⟩ := List.exists_cons_of_ne_nil h
  have hlength : (sectionText s (rebuildSection (m :: rest))).length = sectionLength s (m :: rest) := by
    rw [sectionLength, rebuildSection, List.map_cons]
    change ("\n".intercalate (SECTION_HEADER :: List.map (SectionLine.text s) (memoryLine m ::
      rest.map memoryLine))).length = _
    rw [length_intercalate, ← List.map_cons, List.map_map, List.map_map]
    rfl
  have hheader : SECTION_HEADER.length = 18 := rfl
  have hpos : 1 ≤ sectionLength s (m :: rest) / 4 := by
    rw [sectionLength, hheader]
    omega
  rw [sectionTokens, estimateTokens, hlength, max_eq_right hpos]

theorem chargedTokens_eq (s : RecallStore) (l : List RecalledMemory) :
    chargedTokens s l = (4 + (l.map (fun m => lineLength s m / 4)).sum : Nat) := by
  have htitle : estimateTokens SECTION_HEADER = 4 := rfl
  have hcost : (l.map (lineCost s)).sum = ((l.map (fun m => lineLength s m / 4)).sum : Nat) := by
    induction l with
    | nil => rfl
    | cons m rest ih => rw [List.map_cons, List.sum_cons, List.map_cons, List.sum_cons, ih,
        lineCost_eq, Nat.cast_add]
  rw [chargedTokens, htitle, hcost, Nat.cast_add, Nat.cast_ofNat]

/-- The section costs what the budget charges, and the remainders of its lines. -/
theorem sectionTokens_charged (h : memories ≠ []) :
    sectionTokens s memories = chargedTokens s memories +
      ((SECTION_HEADER.length % 4 + (memories.map (lineRemainder s)).sum) / 4 : Nat) := by
  have hsplit : ∀ l : List RecalledMemory, (l.map (fun m => lineLength s m + 1)).sum =
      4 * (l.map (fun m => lineLength s m / 4)).sum + (l.map (lineRemainder s)).sum := by
    intro l
    induction l with
    | nil => rfl
    | cons m rest ih =>
      simp only [List.map_cons, List.sum_cons, ih, lineRemainder]
      omega
  have hheader : SECTION_HEADER.length = 18 := rfl
  rw [sectionTokens_eq h, chargedTokens_eq, sectionLength, hsplit, hheader]
  omega

theorem sum_take_mono (f : α → Nat) (l : List α) {n k : Nat} (h : n ≤ k) :
    ((l.take n).map f).sum ≤ ((l.take k).map f).sum :=
  ((List.take_sublist_take_left h).map f).sum_le_sum (fun _ _ => Nat.zero_le _)

theorem chargedTokens_mono {n k : Nat} (h : n ≤ k) :
    chargedTokens s (memories.take n) ≤ chargedTokens s (memories.take k) := by
  have hsum := sum_take_mono (fun m => lineLength s m / 4) memories h
  rw [chargedTokens_eq, chargedTokens_eq]
  omega

/-- A longer prefix makes a section that is no cheaper. -/
theorem sectionTokens_mono {n k : Nat} (hn : 0 < n) (h : n ≤ k) (hne : memories ≠ []) :
    sectionTokens s (memories.take n) ≤ sectionTokens s (memories.take k) := by
  have hsome : ∀ i, 0 < i → memories.take i ≠ [] := by
    intro i hi htake
    rcases List.take_eq_nil_iff.1 htake with rfl | hnil
    · omega
    · exact hne hnil
  rw [sectionTokens_eq (hsome n hn), sectionTokens_eq (hsome k (by omega)), sectionLength,
    sectionLength]
  have hsum := sum_take_mono (fun m => lineLength s m + 1) memories h
  omega

theorem chargedTokens_le_sectionTokens (h : memories ≠ []) :
    chargedTokens s memories ≤ sectionTokens s memories := by
  rw [sectionTokens_charged h]
  omega

/-- The memories that the budget keeps. -/
def keptMemories (s : RecallStore) (maxTokens : Int) (memories : List RecalledMemory) :
    List RecalledMemory := (truncateToBudget s maxTokens memories).1

theorem keptMemories_take (s : RecallStore) (maxTokens : Int) (memories : List RecalledMemory) :
    keptMemories s maxTokens memories =
      memories.take (keptMemories s maxTokens memories).length :=
  List.prefix_iff_eq_take.1 (takeWithin_initial _ _ _)

/-- More than one kept memory is charged within the budget. -/
theorem charged_kept (h : 1 < (keptMemories s maxTokens memories).length) :
    chargedTokens s (keptMemories s maxTokens memories) ≤ maxTokens :=
  takeWithin_fits (.inr h)

/-- One memory more is charged beyond it. -/
theorem charged_next (h : (keptMemories s maxTokens memories).length < memories.length) :
    maxTokens < chargedTokens s
      (memories.take ((keptMemories s maxTokens memories).length + 1)) := by
  have hsplit : memories = keptMemories s maxTokens memories ++
      memories[(keptMemories s maxTokens memories).length] ::
        memories.drop ((keptMemories s maxTokens memories).length + 1) := by
    conv_lhs => rw [← List.take_append_drop (keptMemories s maxTokens memories).length memories,
      ← keptMemories_take, List.drop_eq_getElem_cons h]
  have hstop := takeWithin_stops hsplit
  rw [List.take_succ_eq_append_getElem h, ← keptMemories_take, chargedTokens, List.map_append,
    List.sum_append, List.map_singleton, List.sum_singleton, ← add_assoc]
  exact hstop

/-- The kept memories are a longest prefix whose section is within the budget. -/
structure BudgetKept (s : RecallStore) (maxTokens : Int) (memories : List RecalledMemory) : Prop where
  leading : keptMemories s maxTokens memories <+: memories
  fits : 1 < (keptMemories s maxTokens memories).length →
    sectionTokens s (keptMemories s maxTokens memories) ≤ maxTokens
  longest : ∀ n, (keptMemories s maxTokens memories).length < n → n ≤ memories.length →
    maxTokens < sectionTokens s (memories.take n)

/-- No prefix of two lines or more is charged within the budget while the remainders of its lines
and the breaks between them lead out of it. -/
def RemaindersFit (s : RecallStore) (maxTokens : Int) (memories : List RecalledMemory) : Prop :=
  ∀ n, 2 ≤ n → n ≤ memories.length → chargedTokens s (memories.take n) ≤ maxTokens →
    chargedTokens s (memories.take n) +
      ((SECTION_HEADER.length % 4 + ((memories.take n).map (lineRemainder s)).sum) / 4 : Nat) ≤
        maxTokens

theorem kept_longest (s : RecallStore) (maxTokens : Int) (memories : List RecalledMemory) (n : Nat)
    (h : (keptMemories s maxTokens memories).length < n) (hn : n ≤ memories.length) :
    maxTokens < sectionTokens s (memories.take n) := by
  have hne : memories ≠ [] := List.ne_nil_of_length_pos (by omega)
  have htake : memories.take ((keptMemories s maxTokens memories).length + 1) ≠ [] := by
    intro hnil
    rcases List.take_eq_nil_iff.1 hnil with hzero | hnil
    · omega
    · exact hne hnil
  calc maxTokens
      < chargedTokens s (memories.take ((keptMemories s maxTokens memories).length + 1)) :=
        charged_next (by omega)
    _ ≤ sectionTokens s (memories.take ((keptMemories s maxTokens memories).length + 1)) :=
        chargedTokens_le_sectionTokens htake
    _ ≤ sectionTokens s (memories.take n) := sectionTokens_mono (by omega) h hne

end Section

/-- A store that prints every confidence alike. -/
def unread : RecallStore where
  search := fun _ => .ok []
  visible := fun _ => 0
  findRelated := fun _ => none
  entry := fun _ => none
  safety := { patterns := [], nfkc := id, findEncodedInjection := fun _ _ => none }
  twoDecimals := fun _ => "0.90"

def noted (key value : String) : RecalledMemory where
  key := key
  value := value
  confidence := 9 / 10
  stored := value

end TappsBrain
