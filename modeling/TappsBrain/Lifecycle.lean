import TappsBrain.Config

namespace TappsBrain
set_option autoImplicit true
set_option relaxedAutoImplicit false

/-- The exceptions of the modelled calls. -/
inductive Raised where
  | valueError (msg : String)
  | validationError (msg : String)
  | keyError (key : String)
  | rateLimited
  | invalidRequest (msg : String)
  | notFound (msg : String)
  | conflict (msg : String)
  | runtimeError (msg : String)
  | backend
deriving DecidableEq, Repr

/-- The exceptions `except ValueError` catches, with their text. -/
def Raised.valueErrorText : Raised → Option String
  | .valueError msg => some msg
  | .validationError msg => some msg
  | _ => none

def SAVE_CONFLICT_REASON_PREFIX : String := "Save-time conflict:"

/-- `is_save_conflict_reason`. -/
def isSaveConflictReason : Option String → Bool
  | none => false
  | some reason => SAVE_CONFLICT_REASON_PREFIX.toList.isPrefixOf reason.toList

/-- `_CLOSE_VALIDITY_STATUS`. -/
def closeValidityStatus (reason : String) : Option MemoryStatus :=
  if reason = "contradiction" then some .contradicted
  else if reason = "consolidation" then some .contradicted
  else if reason = "supersession" then some .superseded
  else if reason = "age" then some .stale
  else none

/-- The closing fields written for a reason whose status is `status`. -/
def closeWith (reason : String) (status : MemoryStatus) (now : Stamp)
    (supersededBy detail : Option String) (e : MemoryEntry) : MemoryEntry :=
  let closed := { e with
    invalidAt := some (.at now)
    status := status
    updatedAt := now
    supersededBy := supersededBy.or e.supersededBy }
  match status with
  | .contradicted =>
    { closed with contradicted := true, contradictionReason := detail.or e.contradictionReason }
  | .stale =>
    { closed with
      staleReason := some (if isEmpty detail then reason else detail.getD reason)
      staleDate := some (.at now) }
  | _ => closed

/-- `_close_validity_updates`, as the function its updates apply. -/
def closeValidityUpdates (reason : String) (now : Stamp) (supersededBy detail : Option String) :
    Except Raised (MemoryEntry → MemoryEntry) :=
  match closeValidityStatus reason with
  | none => .error (.valueError (s!"unknown close_validity reason '{reason}'; expected one of " ++
      "['age', 'consolidation', 'contradiction', 'supersession']"))
  | some status => .ok (closeWith reason status now supersededBy detail)

/-- `_resolve_status`. -/
def resolveStatus (explicit : Option String) (existing : Option MemoryEntry) : MemoryStatus :=
  if isEmpty explicit then
    match existing with
    | some e => e.status
    | none => .active
  else (explicit.bind MemoryStatus.ofText).getD .active

/-- `_resolve_promotion_fields`. -/
def resolvePromotionFields (existing : Option MemoryEntry) (value : String) : Promotion :=
  match existing with
  | none => {}
  | some e => if e.value ≠ value then {} else e.promotion

structure PreservedFields where
  createdAt : Stamp
  accessCount : Nat
  lastReinforced : Option Stamp
  reinforceCount : Nat
  contradicted : Bool
  contradictionReason : Option String
  seededFrom : Option String
  validAt : Option IsoText
  invalidAt : Option IsoText
  supersededBy : Option String
  temporalSensitivity : Option TemporalSensitivity
  failedApproaches : List String
  usefulAccessCount : Nat
  totalAccessCount : Nat
  positiveFeedbackCount : ℚ
  negativeFeedbackCount : ℚ
  stability : ℚ
  difficulty : ℚ

/-- `_preserved_fields_for_update`. -/
def preservedFieldsForUpdate (existing : Option MemoryEntry) (now : Stamp) : PreservedFields :=
  match existing with
  | none =>
    { createdAt := now, accessCount := 1, lastReinforced := none, reinforceCount := 0
      contradicted := false, contradictionReason := none, seededFrom := none, validAt := none
      invalidAt := none, supersededBy := none, temporalSensitivity := none, failedApproaches := []
      usefulAccessCount := 0, totalAccessCount := 0, positiveFeedbackCount := 0
      negativeFeedbackCount := 0, stability := 0, difficulty := 0 }
  | some e =>
    { createdAt := e.createdAt, accessCount := e.accessCount, lastReinforced := e.lastReinforced
      reinforceCount := e.reinforceCount, contradicted := e.contradicted
      contradictionReason := e.contradictionReason, seededFrom := e.seededFrom, validAt := e.validAt
      invalidAt := e.invalidAt, supersededBy := e.supersededBy
      temporalSensitivity := e.temporalSensitivity, failedApproaches := e.failedApproaches
      usefulAccessCount := e.usefulAccessCount, totalAccessCount := e.totalAccessCount
      positiveFeedbackCount := e.positiveFeedbackCount
      negativeFeedbackCount := e.negativeFeedbackCount, stability := e.stability
      difficulty := e.difficulty }

/-- The confidence handed to the model: the learned one, then the profile's default for the
source, then the sentinel. -/
def resolveConfidence (c : Config) (a : SaveArgs) (existing : Option MemoryEntry) : ℚ :=
  let known := match existing with
    | some e => if a.confidence = -1 then e.confidence else a.confidence
    | none => a.confidence
  if known = -1 then
    match c.profile with
    | some p => (p.sourceConfidence.lookup a.source).getD known
    | none => known
  else known

/-- The row `_construct_memory_entry` passes to the model validator. -/
def draftEntry (c : Config) (a : SaveArgs) (tierVal : Tier) (source : MemorySource)
    (scope : MemoryScope) (mgForEntry : Option String) (existing : Option MemoryEntry)
    (now : Stamp) (revived : Bool) : MemoryEntry :=
  let p := preservedFieldsForUpdate existing now
  let rewritten : Bool := match existing with
    | some e => e.value ≠ a.value
    | none => false
  { key := a.key, value := a.value, tier := tierVal
    confidence := resolveConfidence c a existing
    source, sourceAgent := a.sourceAgent, scope, tags := a.tags.getD []
    createdAt := p.createdAt, updatedAt := now, lastAccessed := now
    accessCount := p.accessCount, branch := a.branch, missionId := a.missionId, runId := a.runId
    lastReinforced := if rewritten then none else p.lastReinforced
    reinforceCount := p.reinforceCount
    contradicted := if revived then false else p.contradicted
    contradictionReason := if revived then none else p.contradictionReason
    seededFrom := p.seededFrom, agentScope := a.agentScope, memoryGroup := mgForEntry
    validAt := a.validAt.or p.validAt
    invalidAt := if revived then none else p.invalidAt
    supersededBy := a.supersededBy.or (if revived then none else p.supersededBy)
    provenance := a.provenance, stability := p.stability, difficulty := p.difficulty
    usefulAccessCount := p.usefulAccessCount, totalAccessCount := p.totalAccessCount
    positiveFeedbackCount := p.positiveFeedbackCount
    negativeFeedbackCount := p.negativeFeedbackCount
    temporalSensitivity := a.temporalSensitivity.or p.temporalSensitivity
    failedApproaches := a.failedApproaches.getD p.failedApproaches
    status := if revived && a.status.isNone then .active else resolveStatus a.status existing
    staleReason := a.staleReason.or (if revived then none else existing.bind (·.staleReason))
    staleDate := a.staleDate.or (if revived then none else existing.bind (·.staleDate))
    promotion := resolvePromotionFields existing a.value }

/-- The new opening bound is at or past the old closing bound, which starts a new life of the row. -/
def revives (a : SaveArgs) (existing : Option MemoryEntry) (now : Stamp) : Except String Bool :=
  let p := preservedFieldsForUpdate existing now
  windowClosed (a.validAt.or p.validAt) p.invalidAt

/-- `_construct_memory_entry`; `a.validAt` is the argument `conflict_valid_at`. -/
def constructMemoryEntry (c : Config) (a : SaveArgs) (tierVal : Tier) (mgForEntry : Option String)
    (existing : Option MemoryEntry) (now : Stamp) : Except Raised MemoryEntry :=
  match revives a existing now with
  | .error msg => .error (.valueError msg)
  | .ok revived =>
    match MemorySource.ofText c.unicode a.source, MemoryScope.ofText a.scope with
    | none, _ => .error (.valueError s!"{c.unicode.repr a.source} is not a valid MemorySource")
    | _, none => .error (.valueError s!"{c.unicode.repr a.scope} is not a valid MemoryScope")
    | some source, some scope =>
      match (draftEntry c a tierVal source scope mgForEntry existing now revived).validate
          c.unicode with
      | .error msg => .error (.validationError msg)
      | .ok e => .ok e

/-- `_stamp_integrity_hash`. -/
def stampIntegrityHash (c : Config) (e : MemoryEntry) : MemoryEntry :=
  { e with
    integrityHash := some (c.computeIntegrityHash e.key e.value e.tier.text e.source.text)
    integrityHashV := 2 }

/-- `_resolve_tier_value`. -/
def resolveTierValue (c : Config) (tier : String) : Except Raised Tier :=
  match MemoryTier.ofText tier with
  | some t => .ok (.std t)
  | none =>
    match c.profile with
    | some p => if tier ∈ p.layerNames then .ok (.layer tier)
      else .error (.valueError s!"{c.unicode.repr tier} is not a valid MemoryTier")
    | none => .error (.valueError s!"{c.unicode.repr tier} is not a valid MemoryTier")

def Tier.ofText (s : String) : Tier :=
  match MemoryTier.ofText s with
  | some t => .std t
  | none => .layer s

def MAX_CONFIDENCE_BOOST : ℚ := 2 / 10

/-- `reinforcement.reinforce`. -/
def reinforceUpdates (c : Config) (boost : ℚ) (now : Stamp) (e : MemoryEntry) : MemoryEntry :=
  let boost := max 0 (min boost MAX_CONFIDENCE_BOOST)
  { e with
    lastReinforced := some now
    reinforceCount := e.reinforceCount + 1
    confidence := min (e.confidence + boost) (max (c.ceiling e.source).1 e.confidence)
    updatedAt := now
    accessCount := e.accessCount + 1 }

/-- `_TIER_DIFFICULTY_DEFAULT`. -/
def tierDifficultyDefault : List (String × ℚ) :=
  [("identity", 1), ("long-term", 3), ("short-term", 6), ("ephemeral", 9), ("architectural", 1),
    ("pattern", 3), ("procedural", 4), ("context", 6), ("session", 9)]

def STABILITY_MIN : ℚ := 1 / 10
def STABILITY_MAX : ℚ := 3650

/-- `update_stability`. -/
def updateStability (c : Config) (e : MemoryEntry) (wasUseful : Bool) (now : Stamp) : ℚ × ℚ :=
  (max STABILITY_MIN (min STABILITY_MAX (c.rawStability e wasUseful now)),
    if e.difficulty = 0 then (tierDifficultyDefault.lookup e.tier.text).getD 5 else e.difficulty)

def adaptiveStability (c : Config) (tier : Tier) : Bool :=
  match c.profile.bind (·.getLayer tier.text) with
  | some layer => layer.adaptiveStability
  | none => false

/-- `_reinforce_stability_updates`, computed from the row before it is reinforced. -/
def withStability (c : Config) (before : MemoryEntry) (wasUseful : Bool) (now : Stamp)
    (e : MemoryEntry) : MemoryEntry :=
  if adaptiveStability c before.tier then
    { e with
      stability := (updateStability c before wasUseful now).1
      difficulty := (updateStability c before wasUseful now).2 }
  else e

def reinforced (c : Config) (boost : ℚ) (now : Stamp) (e : MemoryEntry) : MemoryEntry :=
  withStability c e true now (reinforceUpdates c boost now e)

/-- `check_promotion`. -/
def checkPromotion (c : Config) (e : MemoryEntry) (now : Stamp) : Option String :=
  match c.profile.bind (·.getLayer e.tier.text) with
  | some layer => if c.promotionDue e now then layer.promotionTo else none
  | none => none

/-- `check_demotion`. -/
def checkDemotion (c : Config) (e : MemoryEntry) (now : Stamp) : Option String :=
  match c.profile.bind (·.getLayer e.tier.text) with
  | some layer => if c.demotionDue e now then layer.demotionTo else none
  | none => none

/-- The row `_maybe_promote_after_reinforce` writes. -/
def promoted (c : Config) (target : String) (now : Stamp) (e : MemoryEntry) : MemoryEntry :=
  stampIntegrityHash c { e with tier := Tier.ofText target, updatedAt := now }

/-- The row `record_access` writes. -/
def accessRecorded (c : Config) (wasUseful : Bool) (now : Stamp) (e : MemoryEntry) : MemoryEntry :=
  let total := e.totalAccessCount + 1
  let useful := e.usefulAccessCount + (if wasUseful then 1 else 0)
  let target : ℚ := (useful + 1) / (total + 2)
  let blended := e.confidence + 2 / 10 * (target - e.confidence)
  let capped := min blended (max (c.ceiling e.source).1 e.confidence)
  withStability c e wasUseful now { e with
    totalAccessCount := total
    usefulAccessCount := useful
    confidence := max 0 (min 1 capped) }

/-- The row `get` writes. -/
def accessed (now : Stamp) (e : MemoryEntry) : MemoryEntry :=
  { e with lastAccessed := now, accessCount := e.accessCount + 1 }

/-- The keyword arguments of `update_fields`: everything but `updated_at` as the function they
apply, which cannot name the key. -/
structure FieldPatch where
  set : MemoryEntry → MemoryEntry
  set_key : ∀ e, (set e).key = e.key
  updatedAt : Option Stamp := none

def FieldPatch.apply (p : FieldPatch) (now : Stamp) (e : MemoryEntry) : MemoryEntry :=
  { p.set e with updatedAt := p.updatedAt.getD now }

/-- A closing bound or deprecated bound still lies ahead. -/
def stillOpen (now : Stamp) : Option IsoText → Bool
  | none => true
  | some (.at t) => now < t
  | some (.malformed _) => false

/-- The live-row predicate of recall: the lifecycle and temporal clauses of the SQL, and the
contradiction filter applied to what it returns. -/
def MemoryEntry.liveRow (now : Stamp) (e : MemoryEntry) : Bool :=
  e.supersededBy.isNone && stillOpen now e.validUntil && stillOpen now e.invalidAt &&
    e.status = .active && !e.contradicted

@[simp] theorem closeWith_key (reason : String) (status : MemoryStatus) (now : Stamp)
    (succ detail : Option String) (e : MemoryEntry) :
    (closeWith reason status now succ detail e).key = e.key := by
  cases status <;> rfl

@[simp] theorem closeWith_invalidAt (reason : String) (status : MemoryStatus) (now : Stamp)
    (succ detail : Option String) (e : MemoryEntry) :
    (closeWith reason status now succ detail e).invalidAt = some (.at now) := by
  cases status <;> rfl

@[simp] theorem closeWith_status (reason : String) (status : MemoryStatus) (now : Stamp)
    (succ detail : Option String) (e : MemoryEntry) :
    (closeWith reason status now succ detail e).status = status := by
  cases status <;> rfl

@[simp] theorem normalised_key (u : Unicode) (e : MemoryEntry) : (e.normalised u).key = e.key := rfl

@[simp] theorem stampIntegrityHash_key (c : Config) (e : MemoryEntry) :
    (stampIntegrityHash c e).key = e.key := rfl

@[simp] theorem withStability_key (c : Config) (b e : MemoryEntry) (useful : Bool) (now : Stamp) :
    (withStability c b useful now e).key = e.key := by
  unfold withStability
  split <;> rfl

@[simp] theorem reinforced_key (c : Config) (boost : ℚ) (now : Stamp) (e : MemoryEntry) :
    (reinforced c boost now e).key = e.key := by
  rw [reinforced, withStability_key]
  rfl

@[simp] theorem promoted_key (c : Config) (target : String) (now : Stamp) (e : MemoryEntry) :
    (promoted c target now e).key = e.key := rfl

@[simp] theorem accessRecorded_key (c : Config) (useful : Bool) (now : Stamp) (e : MemoryEntry) :
    (accessRecorded c useful now e).key = e.key := by
  rw [accessRecorded, withStability_key]

@[simp] theorem accessed_key (now : Stamp) (e : MemoryEntry) : (accessed now e).key = e.key := rfl

@[simp] theorem FieldPatch.apply_key (p : FieldPatch) (now : Stamp) (e : MemoryEntry) :
    (p.apply now e).key = e.key := p.set_key e

/-- What a successful construction is. -/
theorem constructMemoryEntry_ok {c : Config} {a : SaveArgs} {tierVal : Tier} {mg : Option String}
    {existing : Option MemoryEntry} {now : Stamp} {e : MemoryEntry}
    (h : constructMemoryEntry c a tierVal mg existing now = .ok e) :
    ∃ revived source scope,
      revives a existing now = .ok revived ∧
      Valid c.unicode (draftEntry c a tierVal source scope mg existing now revived) ∧
      e = (draftEntry c a tierVal source scope mg existing now revived).normalised c.unicode := by
  unfold constructMemoryEntry at h
  split at h
  · cases h
  · next revived hr =>
    split at h
    · cases h
    · cases h
    · next source scope _ _ =>
      split at h
      · cases h
      · next e' hv =>
        cases h
        exact ⟨revived, source, scope, hr, validate_ok hv⟩

theorem constructMemoryEntry_key {c : Config} {a : SaveArgs} {tierVal : Tier} {mg : Option String}
    {existing : Option MemoryEntry} {now : Stamp} {e : MemoryEntry}
    (h : constructMemoryEntry c a tierVal mg existing now = .ok e) : e.key = a.key := by
  obtain ⟨revived, source, scope, -, -, rfl⟩ := constructMemoryEntry_ok h
  rfl

end TappsBrain
