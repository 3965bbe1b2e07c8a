import Mathlib.Data.List.Sort
import Mathlib.Data.Rat.Floor
import TappsBrain.Lifecycle

namespace TappsBrain
set_option autoImplicit true
set_option relaxedAutoImplicit false

structure SaveConflictHit where
  entry : MemoryEntry
  similarity : ℚ

/-- `round(x, 4)`, half to even. -/
def round4 (x : ℚ) : ℚ :=
  let scaled := x * 10000
  let down := ⌊scaled⌋
  let gap := scaled - down
  let n := if gap < 1 / 2 then down else if 1 / 2 < gap then down + 1
    else if down % 2 = 0 then down else down + 1
  n / 10000

/-- `format_save_conflict_reason`. -/
def formatSaveConflictReason (c : Config) (incomingKey tier : String) (similarity : ℚ) : String :=
  s!"{SAVE_CONFLICT_REASON_PREFIX} invalidated by incoming memory '{incomingKey}' (tier={tier}, " ++
    s!"similarity={c.scoreText (round4 similarity)})."

/-- `text_similarity` with the sentinel row of the new value. -/
def sentinelSimilarity (c : Config) (newValue : String) (e : MemoryEntry) : ℚ :=
  c.textSimilarity "conflict-sentinel" newValue e.key e.value

/-- The filters of `detect_save_conflicts` on one entry. -/
def conflictsWith (c : Config) (newValue newTier : String) (threshold : ℚ) (excludeKey : String)
    (e : MemoryEntry) : Bool :=
  e.key ≠ excludeKey && e.tier.text = newTier &&
    normalizeWs c.unicode e.value ≠ normalizeWs c.unicode newValue &&
    threshold < sentinelSimilarity c newValue e

def hitBefore (a b : SaveConflictHit) : Prop :=
  b.similarity < a.similarity ∨ a.similarity = b.similarity ∧ a.entry.key ≤ b.entry.key

instance : DecidableRel hitBefore := fun _ _ => inferInstanceAs (Decidable (_ ∨ _))

/-- `_sentinel` of `detect_save_conflicts`. -/
def conflictSentinel (newValue newTier : String) : MemoryEntry :=
  { key := "conflict-sentinel", value := newValue, tier := Tier.ofText newTier, createdAt := 0
    updatedAt := 0, lastAccessed := 0 }

/-- `detect_save_conflicts`. -/
def detectSaveConflicts (c : Config) (newValue newTier : String) (existing : List MemoryEntry)
    (threshold : ℚ) (excludeKey : String) : Except Raised (List SaveConflictHit) :=
  match (conflictSentinel newValue newTier).validate c.unicode with
  | .error msg => .error (.validationError msg)
  | .ok _ =>
    let scored := (existing.filter (conflictsWith c newValue newTier threshold excludeKey)).map
      (fun e => { entry := e, similarity := sentinelSimilarity c newValue e })
    .ok (scored.insertionSort hitBefore)

structure ConflictAudit where
  key : String
  similarity : ℚ
  tier : String
deriving DecidableEq, Repr

structure ConflictPlan where
  now : Stamp
  invalidations : List (String × String)
  audit : List ConflictAudit
  similarityThreshold : ℚ
deriving DecidableEq, Repr

def hitInvalidation (c : Config) (key tier : String) (hit : SaveConflictHit) : Option (String × String) :=
  if hit.entry.invalidAt.isSome then none
  else some (hit.entry.key, formatSaveConflictReason c key tier hit.similarity)

/-- `plan_conflicts`. -/
def planConflicts (c : Config) (key value tier : String) (snapshot : List MemoryEntry)
    (threshold : ℚ) (now : Stamp) : Except Raised (Option ConflictPlan) :=
  match detectSaveConflicts c value tier snapshot threshold key with
  | .error e => .error e
  | .ok [] => .ok none
  | .ok hits => .ok (some
      { now
        invalidations := hits.filterMap (hitInvalidation c key tier)
        audit := hits.map (fun h => ⟨h.entry.key, round4 h.similarity, h.entry.tier.text⟩)
        similarityThreshold := threshold })

/-- `resolve_similarity_threshold`. -/
def resolveSimilarityThreshold (c : Config) (tier : String) : ℚ :=
  match c.profile with
  | some p => p.conflictCheck.effectiveSimilarityThreshold tier
  | none => ({} : ConflictCheckConfig).effectiveSimilarityThreshold tier

theorem mem_detectSaveConflicts {c : Config} {value tier : String} {entries : List MemoryEntry}
    {threshold : ℚ} {key : String} {hits : List SaveConflictHit}
    (h : detectSaveConflicts c value tier entries threshold key = .ok hits) (hit : SaveConflictHit) :
    hit ∈ hits ↔ hit.entry ∈ entries ∧ conflictsWith c value tier threshold key hit.entry = true ∧
      hit.similarity = sentinelSimilarity c value hit.entry := by
  unfold detectSaveConflicts at h
  split at h
  · cases h
  · cases h
    simp only [List.mem_insertionSort, List.mem_map, List.mem_filter]
    constructor
    · rintro ⟨e, he, rfl⟩
      exact ⟨he.1, he.2, rfl⟩
    · rintro ⟨he, hc, hs⟩
      refine ⟨hit.entry, ⟨he, hc⟩, ?_⟩
      rw [← hs]

/-- Every planned invalidation names an open conflicting entry of the snapshot. -/
theorem planConflicts_sound {c : Config} {key value tier : String} {snapshot : List MemoryEntry}
    {threshold : ℚ} {now : Stamp} {plan : ConflictPlan}
    (h : planConflicts c key value tier snapshot threshold now = .ok (some plan)) :
    plan.now = now ∧ ∀ k reason, (k, reason) ∈ plan.invalidations →
      ∃ e ∈ snapshot, e.key = k ∧ e.invalidAt = none ∧
        conflictsWith c value tier threshold key e = true := by
  unfold planConflicts at h
  split at h
  · cases h
  · cases h
  · next hits _ hd =>
    cases h
    refine ⟨rfl, fun k reason hk => ?_⟩
    obtain ⟨hit, hh, hi⟩ := List.mem_filterMap.1 hk
    have hm := (mem_detectSaveConflicts hd hit).1 hh
    unfold hitInvalidation at hi
    split at hi
    · cases hi
    · next hopen =>
      cases hi
      exact ⟨hit.entry, hm.1, rfl, by simpa using hopen, hm.2.1⟩

end TappsBrain
