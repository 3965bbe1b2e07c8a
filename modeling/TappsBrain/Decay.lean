import Mathlib.Algebra.Order.Field.Basic
import Mathlib.Algebra.Order.Field.Rat
import Mathlib.Algebra.Order.Round
import Mathlib.Data.Rat.Floor
import Mathlib.Tactic.Positivity
import TappsBrain.Config

namespace TappsBrain
set_option autoImplicit true
set_option relaxedAutoImplicit false

/-- `math.pow` and `math.log2`, with what the decay curves rely on of the first. -/
structure FloatMath where
  pow : ℚ → ℚ → ℚ
  log2 : ℚ → ℚ
  pow_zero : ∀ b, pow b 0 = 1
  one_pow : ∀ x, pow 1 x = 1
  pow_anti : ∀ b x y, 0 < b → b ≤ 1 → x ≤ y → pow b y ≤ pow b x
  pow_anti_base : ∀ a b x, 1 ≤ a → a ≤ b → x ≤ 0 → pow b x ≤ pow a x

/-- `math.pow` and `math.log2` where the exponent and the logarithm are whole. -/
def FloatMath.whole : FloatMath where
  pow := fun b x => b ^ ⌊x⌋
  log2 := fun x => Nat.log2 ⌊x⌋.toNat
  pow_zero := fun b => by rw [Int.floor_zero, zpow_zero]
  one_pow := fun x => one_zpow _
  pow_anti := fun b x y hb hb1 hxy => zpow_le_zpow_right_of_le_one₀ hb hb1 (Int.floor_mono hxy)
  pow_anti_base := fun a b x ha hab hx => by
    obtain ⟨n, hn⟩ := Int.exists_eq_neg_ofNat (Int.floor_nonpos hx)
    have ha0 : 0 < a := lt_of_lt_of_le one_pos ha
    rw [hn, zpow_neg, zpow_neg, zpow_natCast, zpow_natCast]
    exact inv_anti₀ (pow_pos ha0 n) (pow_le_pow_left₀ ha0.le hab n)

inductive DecayModel where
  | exponential | powerLaw
deriving DecidableEq

/-- The default half-lives of `DecayConfig`, in days. -/
def defaultHalfLifeDays : MemoryTier → Nat
  | .architectural => 180
  | .pattern => 60
  | .procedural => 30
  | .context => 14
  | .ephemeral => 1
  | .session => 1

/-- `DecayConfig`, bounded as its own fields and those of the profile layers are. -/
theorem default_exponent_pos : (0 : ℚ) < 1 := by decide +kernel

theorem default_k_pos : (0 : ℚ) < 81 / 19 := by decide +kernel

structure DecayConfig where
  halfLifeDays : MemoryTier → Nat := defaultHalfLifeDays
  confidenceFloor : ℚ := 1 / 10
  sourceCeiling : MemorySource → ℚ := fun source => (defaultCeiling source).val
  layerHalfLives : List (String × Nat) := []
  layerConfidenceFloors : List (String × ℚ) := []
  profileSourceCeilings : List (String × ℚ) := []
  decayModel : DecayModel := .exponential
  decayExponent : ℚ := 1
  decayK : ℚ := 81 / 19
  layerDecayModels : List (String × DecayModel) := []
  layerDecayExponents : List (String × ℚ) := []
  layerDecayK : List (String × ℚ) := []
  layerImportanceTags : List (String × List (String × ℚ)) := []
  staleThreshold : ℚ := 3 / 10
  halfLifeDays_pos : ∀ t, 0 < halfLifeDays t := by intro t; cases t <;> decide
  layerHalfLives_pos : ∀ p ∈ layerHalfLives, 0 < p.2 := by simp
  decayExponent_pos : 0 < decayExponent := by exact default_exponent_pos
  layerDecayExponents_pos : ∀ p ∈ layerDecayExponents, 0 < p.2 := by simp
  decayK_pos : 0 < decayK := by exact default_k_pos
  layerDecayK_pos : ∀ p ∈ layerDecayK, 0 < p.2 := by simp

/-- `_get_half_life`. -/
def getHalfLife (tier : Tier) (cfg : DecayConfig) : Except String Nat :=
  match cfg.layerHalfLives.lookup tier.text with
  | some days => .ok days
  | none =>
    match tier with
    | .std t => .ok (cfg.halfLifeDays t)
    | .layer name =>
      match MemoryTier.ofText name with
      | some t => .ok (cfg.halfLifeDays t)
      | none => .error s!"Unknown tier '{name}' — not in profile layers or MemoryTier enum"

/-- `tier_is_resolvable`. -/
def tierIsResolvable (tier : Tier) (cfg : DecayConfig) : Bool :=
  if (cfg.layerHalfLives.lookup tier.text).isSome then true
  else
    match tier with
    | .std _ => true
    | .layer name => (MemoryTier.ofText name).isSome

/-- `_get_ceiling`. -/
def getCeiling (source : MemorySource) (cfg : DecayConfig) : ℚ :=
  (cfg.profileSourceCeilings.lookup source.text).getD (cfg.sourceCeiling source)

/-- `_get_confidence_floor`. -/
def getConfidenceFloor (tier : Tier) (cfg : DecayConfig) : ℚ :=
  (cfg.layerConfidenceFloors.lookup tier.text).getD cfg.confidenceFloor

/-- `_days_since`. -/
def daysSince (t now : Stamp) : ℚ := ((now - t : Nat) : ℚ) / 86400000000

/-- `_decay_reference_time`. -/
def decayReferenceTime (e : MemoryEntry) : Stamp := e.lastReinforced.getD e.updatedAt

/-- `_TEMPORAL_SENSITIVITY_MULTIPLIERS`. -/
def temporalSensitivityMultiplier : Option TemporalSensitivity → ℚ
  | some .high => 1 / 4
  | some .medium => 1
  | some .low => 4
  | none => 1

/-- The largest multiplier of a tag of the entry, and at least 1; of keys that differ in case only
the last one counts. -/
def importanceMultiplier (u : Unicode) (importance : List (String × ℚ)) (tags : List String) : ℚ :=
  let lowered := importance.reverse.map (fun p => (u.lower p.1, p.2))
  tags.foldl (fun best tag => max best ((lowered.lookup (u.lower tag)).getD best)) 1

/-- The stability of the entry where it has one, else the half-life of its tier. -/
def baseHalfLife (e : MemoryEntry) (cfg : DecayConfig) : Except String ℚ :=
  if 0 < e.stability then .ok e.stability
  else (getHalfLife e.tier cfg).map (fun days => (days : ℚ))

/-- `effective_half_life`. -/
def effectiveHalfLife (u : Unicode) (e : MemoryEntry) (cfg : DecayConfig) : Except String ℚ :=
  (baseHalfLife e cfg).map (fun base =>
    base * temporalSensitivityMultiplier e.temporalSensitivity *
      importanceMultiplier u ((cfg.layerImportanceTags.lookup e.tier.text).getD []) e.tags)

/-- `power_law_decay`. -/
def powerLawDecay (m : FloatMath) (days halfLife exponent k : ℚ) : Except String ℚ :=
  if days ≤ 0 then .ok 1
  else if ¬ 0 < halfLife then .error "decay: half_life must be > 0"
  else if ¬ 0 < k then .error "decay: k must be > 0"
  else .ok (m.pow (1 + days / (k * halfLife)) (-exponent))

/-- `exponential_decay`. -/
def exponentialDecay (m : FloatMath) (days halfLife : ℚ) : Except String ℚ :=
  if days ≤ 0 then .ok 1
  else if ¬ 0 < halfLife then .error "decay: half_life must be > 0"
  else .ok (m.pow (1 / 2) (days / halfLife))

def layerModel (cfg : DecayConfig) (tier : Tier) : DecayModel :=
  (cfg.layerDecayModels.lookup tier.text).getD cfg.decayModel

def layerExponent (cfg : DecayConfig) (tier : Tier) : ℚ :=
  (cfg.layerDecayExponents.lookup tier.text).getD cfg.decayExponent

def layerK (cfg : DecayConfig) (tier : Tier) : ℚ :=
  (cfg.layerDecayK.lookup tier.text).getD cfg.decayK

/-- The decay factor of a tier after `days`. -/
def decayFactor (m : FloatMath) (cfg : DecayConfig) (tier : Tier) (halfLife days : ℚ) :
    Except String ℚ :=
  match layerModel cfg tier with
  | .powerLaw => powerLawDecay m days halfLife (layerExponent cfg tier) (layerK cfg tier)
  | .exponential => exponentialDecay m days halfLife

/-- Clamp to `[floor, ceiling]`. -/
def clampConfidence (e : MemoryEntry) (cfg : DecayConfig) (decayed : ℚ) : ℚ :=
  max (getConfidenceFloor e.tier cfg) (min (getCeiling e.source cfg) decayed)

/-- `calculate_decayed_confidence`. -/
def calculateDecayedConfidence (m : FloatMath) (u : Unicode) (e : MemoryEntry) (cfg : DecayConfig)
    (now : Stamp) : Except String ℚ := do
  let halfLife ← effectiveHalfLife u e cfg
  let factor ← decayFactor m cfg e.tier halfLife (daysSince (decayReferenceTime e) now)
  .ok (clampConfidence e cfg (e.confidence * factor))

/-- The days the curve takes from the stored confidence, `ratio` times the floor, down to it. -/
def daysToFloor (m : FloatMath) (cfg : DecayConfig) (tier : Tier) (halfLife ratio : ℚ) : ℚ :=
  match layerModel cfg tier with
  | .powerLaw =>
    layerK cfg tier * halfLife * (m.pow ratio (1 / layerExponent cfg tier) - 1)
  | .exponential => halfLife * m.log2 ratio

/-- `_days_at_floor`. -/
def daysAtFloor (m : FloatMath) (u : Unicode) (e : MemoryEntry) (cfg : DecayConfig) (now : Stamp) :
    Except String ℚ :=
  let total := daysSince (decayReferenceTime e) now
  let floor := getConfidenceFloor e.tier cfg
  if e.confidence ≤ 0 ∨ floor ≤ 0 then .ok total
  else if e.confidence / floor ≤ 1 then .ok total
  else do
    let halfLife ← effectiveHalfLife u e cfg
    .ok (max (total - daysToFloor m cfg e.tier halfLife (e.confidence / floor)) 0)

def staleVerdict (cfg : DecayConfig) (effective : ℚ) : Option DecayAction :=
  if effective < cfg.staleThreshold then some .close else none

/-- What `identify_decay_refresh` decides on a row once the row is known to be live. -/
def identifyDecayRefresh (m : FloatMath) (u : Unicode) (cfg : DecayConfig) (floorRetentionDays : ℚ)
    (e : MemoryEntry) (now : Stamp) : Except String (Option DecayAction) :=
  if !tierIsResolvable e.tier cfg then .ok none
  else do
    let effective ← calculateDecayedConfidence m u e cfg now
    if effective ≤ getConfidenceFloor e.tier cfg then do
      let atFloor ← daysAtFloor m u e cfg now
      if floorRetentionDays ≤ atFloor then .ok (some .archive)
      else .ok (staleVerdict cfg effective)
    else .ok (staleVerdict cfg effective)

/-- A store whose decay verdicts are those of `identify_decay_refresh`. -/
def Config.pricedBy (c : Config) (m : FloatMath) (cfg : DecayConfig) (floorRetentionDays : ℚ) :
    Config :=
  { c with decayVerdict := fun e now =>
      match identifyDecayRefresh m c.unicode cfg floorRetentionDays e now with
      | .ok verdict => verdict
      | .error _ => none }

theorem mem_of_lookup {α : Type} {l : List (String × α)} {name : String} {v : α}
    (h : l.lookup name = some v) : (name, v) ∈ l := by
  obtain ⟨l₁, l₂, hl, _⟩ := List.lookup_eq_some_iff.1 h
  rw [hl]
  exact List.mem_append_right _ List.mem_cons_self

theorem lookup_getD_pos {l : List (String × ℚ)} {name : String} {d : ℚ} (hl : ∀ p ∈ l, 0 < p.2)
    (hd : 0 < d) : 0 < (l.lookup name).getD d := by
  cases h : l.lookup name with
  | none => exact hd
  | some v => exact hl _ (mem_of_lookup h)

section Curve
variable {m : FloatMath} {u : Unicode} {cfg : DecayConfig} {e : MemoryEntry} {t t' : Stamp}

theorem layerExponent_pos (cfg : DecayConfig) (tier : Tier) : 0 < layerExponent cfg tier :=
  lookup_getD_pos cfg.layerDecayExponents_pos cfg.decayExponent_pos

theorem layerK_pos (cfg : DecayConfig) (tier : Tier) : 0 < layerK cfg tier :=
  lookup_getD_pos cfg.layerDecayK_pos cfg.decayK_pos

theorem getHalfLife_ok {tier : Tier} (h : tierIsResolvable tier cfg = true) :
    ∃ n, getHalfLife tier cfg = .ok n ∧ 0 < n := by
  unfold getHalfLife
  unfold tierIsResolvable at h
  cases hl : cfg.layerHalfLives.lookup tier.text with
  | some days => exact ⟨days, rfl, cfg.layerHalfLives_pos _ (mem_of_lookup hl)⟩
  | none =>
    cases tier with
    | std t => exact ⟨_, rfl, cfg.halfLifeDays_pos t⟩
    | layer name =>
      simp only [hl, Option.isSome_none, Bool.false_eq_true, ↓reduceIte] at h
      obtain ⟨t, ht⟩ := Option.isSome_iff_exists.1 h
      exact ⟨_, by simp only [ht], cfg.halfLifeDays_pos t⟩

theorem le_foldl_max {α : Type} (f : ℚ → α → ℚ) (l : List α) (best : ℚ) :
    best ≤ l.foldl (fun b a => max b (f b a)) best := by
  induction l generalizing best with
  | nil => exact le_refl best
  | cons a rest ih => exact le_trans (le_max_left best (f best a)) (ih _)

theorem importanceMultiplier_pos (u : Unicode) (importance : List (String × ℚ))
    (tags : List String) : 0 < importanceMultiplier u importance tags :=
  lt_of_lt_of_le one_pos (le_foldl_max _ tags 1)

theorem temporalSensitivityMultiplier_pos (s : Option TemporalSensitivity) :
    0 < temporalSensitivityMultiplier s := by
  rcases s with _ | _ | _ | _ <;> decide +kernel

theorem baseHalfLife_ok (h : tierIsResolvable e.tier cfg = true) :
    ∃ base, baseHalfLife e cfg = .ok base ∧ 0 < base := by
  unfold baseHalfLife
  split
  · next hs => exact ⟨_, rfl, hs⟩
  · obtain ⟨n, hn, hpos⟩ := getHalfLife_ok h
    rw [hn]
    exact ⟨n, rfl, Nat.cast_pos.2 hpos⟩

theorem effectiveHalfLife_ok (h : tierIsResolvable e.tier cfg = true) :
    ∃ halfLife, effectiveHalfLife u e cfg = .ok halfLife ∧ 0 < halfLife := by
  obtain ⟨base, hb, hpos⟩ := baseHalfLife_ok h
  rw [effectiveHalfLife, hb]
  refine ⟨_, rfl, ?_⟩
  apply mul_pos
  · exact mul_pos hpos (temporalSensitivityMultiplier_pos _)
  · exact importanceMultiplier_pos u _ _

theorem getHalfLife_pos {tier : Tier} {n : Nat} (h : getHalfLife tier cfg = .ok n) : 0 < n := by
  have hr : tierIsResolvable tier cfg = true := by
    unfold tierIsResolvable
    unfold getHalfLife at h
    cases hl : cfg.layerHalfLives.lookup tier.text with
    | some days => rfl
    | none =>
      rw [hl] at h
      cases tier with
      | std t => rfl
      | layer name =>
        cases hm : MemoryTier.ofText name with
        | some t => simp only [Option.isSome_none, Bool.false_eq_true, ↓reduceIte, hm, Option.isSome_some]
        | none =>
          simp only [hm] at h
          cases h
  obtain ⟨n', hn, hpos⟩ := getHalfLife_ok hr
  rw [h] at hn
  cases hn
  exact hpos

theorem effectiveHalfLife_pos {halfLife : ℚ} (h : effectiveHalfLife u e cfg = .ok halfLife) : 0 < halfLife := by
  unfold effectiveHalfLife at h
  cases hb : baseHalfLife e cfg with
  | error err =>
    rw [hb] at h
    cases h
  | ok base =>
    rw [hb] at h
    cases h
    have hbase : 0 < base := by
      unfold baseHalfLife at hb
      split at hb
      · next hs =>
        cases hb
        exact hs
      · cases hg : getHalfLife e.tier cfg with
        | error err =>
          rw [hg] at hb
          cases hb
        | ok n =>
          rw [hg] at hb
          cases hb
          exact Nat.cast_pos.2 (getHalfLife_pos hg)
    exact mul_pos (mul_pos hbase (temporalSensitivityMultiplier_pos _))
      (importanceMultiplier_pos u _ _)

theorem daysSince_mono (r : Stamp) (h : t ≤ t') : daysSince r t ≤ daysSince r t' := by
  unfold daysSince
  have hle : t - r ≤ t' - r := Nat.sub_le_sub_right h r
  gcongr

theorem powerLawDecay_antitone (m : FloatMath) {d d' halfLife exponent k : ℚ} (hh : 0 < halfLife)
    (he : 0 < exponent) (hk : 0 < k) (hd : d ≤ d') :
    ∃ f f', powerLawDecay m d halfLife exponent k = .ok f ∧
      powerLawDecay m d' halfLife exponent k = .ok f' ∧ f' ≤ f := by
  have hneg : -exponent ≤ 0 := neg_nonpos.2 he.le
  have hscale : 0 < k * halfLife := mul_pos hk hh
  simp only [powerLawDecay, hh, hk, not_true_eq_false, ↓reduceIte]
  by_cases hd' : d' ≤ 0
  · rw [if_pos (hd.trans hd'), if_pos hd']
    exact ⟨1, 1, rfl, rfl, le_refl 1⟩
  · rw [if_neg hd']
    have hpos : 0 ≤ d' / (k * halfLife) := div_nonneg (le_of_not_ge hd') hscale.le
    by_cases h : d ≤ 0
    · rw [if_pos h]
      refine ⟨1, _, rfl, rfl, ?_⟩
      have := m.pow_anti_base 1 (1 + d' / (k * halfLife)) (-exponent) (le_refl 1) (by linarith) hneg
      rwa [m.one_pow] at this
    · rw [if_neg h]
      refine ⟨_, _, rfl, rfl, ?_⟩
      have hnn : 0 ≤ d / (k * halfLife) := div_nonneg (le_of_not_ge h) hscale.le
      apply m.pow_anti_base _ _ _ (by linarith) _ hneg
      gcongr

theorem exponentialDecay_antitone (m : FloatMath) {d d' halfLife : ℚ} (hh : 0 < halfLife)
    (hd : d ≤ d') :
    ∃ f f', exponentialDecay m d halfLife = .ok f ∧ exponentialDecay m d' halfLife = .ok f' ∧
      f' ≤ f := by
  have hhalf : (0 : ℚ) < 1 / 2 ∧ (1 : ℚ) / 2 ≤ 1 := by norm_num
  simp only [exponentialDecay, hh, not_true_eq_false, ↓reduceIte]
  by_cases hd' : d' ≤ 0
  · rw [if_pos (hd.trans hd'), if_pos hd']
    exact ⟨1, 1, rfl, rfl, le_refl 1⟩
  · rw [if_neg hd']
    by_cases h : d ≤ 0
    · rw [if_pos h]
      refine ⟨1, _, rfl, rfl, ?_⟩
      have := m.pow_anti (1 / 2) 0 (d' / halfLife) hhalf.1 hhalf.2
        (div_nonneg (le_of_not_ge hd') hh.le)
      rwa [m.pow_zero] at this
    · rw [if_neg h]
      refine ⟨_, _, rfl, rfl, ?_⟩
      apply m.pow_anti _ _ _ hhalf.1 hhalf.2
      gcongr

theorem decayFactor_antitone (m : FloatMath) (cfg : DecayConfig) (tier : Tier) {halfLife d d' : ℚ}
    (hh : 0 < halfLife) (hd : d ≤ d') :
    ∃ f f', decayFactor m cfg tier halfLife d = .ok f ∧ decayFactor m cfg tier halfLife d' = .ok f' ∧
      f' ≤ f := by
  unfold decayFactor
  cases layerModel cfg tier with
  | powerLaw => exact powerLawDecay_antitone m hh (layerExponent_pos cfg tier) (layerK_pos cfg tier) hd
  | exponential => exact exponentialDecay_antitone m hh hd

theorem calculateDecayedConfidence_eq {halfLife f : ℚ} (hh : effectiveHalfLife u e cfg = .ok halfLife)
    (hf : decayFactor m cfg e.tier halfLife (daysSince (decayReferenceTime e) t) = .ok f) :
    calculateDecayedConfidence m u e cfg t = .ok (clampConfidence e cfg (e.confidence * f)) := by
  rw [calculateDecayedConfidence, hh]
  change (decayFactor m cfg e.tier halfLife (daysSince (decayReferenceTime e) t) >>= _) = _
  rw [hf]
  rfl

/-- Confidence only falls as time passes. -/
theorem calculateDecayedConfidence_antitone (hr : tierIsResolvable e.tier cfg = true)
    (hc : 0 ≤ e.confidence) (h : t ≤ t') :
    ∃ x x', calculateDecayedConfidence m u e cfg t = .ok x ∧
      calculateDecayedConfidence m u e cfg t' = .ok x' ∧ x' ≤ x := by
  obtain ⟨halfLife, hh, hpos⟩ := effectiveHalfLife_ok (u := u) hr
  obtain ⟨f, f', hf, hf', hle⟩ := decayFactor_antitone m cfg e.tier hpos
    (daysSince_mono (decayReferenceTime e) h)
  have hclamp : clampConfidence e cfg (e.confidence * f') ≤ clampConfidence e cfg (e.confidence * f) := by
    unfold clampConfidence
    gcongr
  exact ⟨_, _, calculateDecayedConfidence_eq hh hf, calculateDecayedConfidence_eq hh hf', hclamp⟩

/-- The time spent at the floor only grows. -/
theorem daysAtFloor_mono (hr : tierIsResolvable e.tier cfg = true) (h : t ≤ t') :
    ∃ x x', daysAtFloor m u e cfg t = .ok x ∧ daysAtFloor m u e cfg t' = .ok x' ∧ x ≤ x' := by
  have hdays := daysSince_mono (decayReferenceTime e) h
  obtain ⟨halfLife, hh, _⟩ := effectiveHalfLife_ok (u := u) hr
  simp only [daysAtFloor, hh]
  split
  · exact ⟨_, _, rfl, rfl, hdays⟩
  · split
    · exact ⟨_, _, rfl, rfl, hdays⟩
    · exact ⟨_, _, rfl, rfl, max_le_max_right 0 (sub_le_sub_right hdays _)⟩

/-- The verdict on a row whose tier has a curve. -/
theorem identifyDecayRefresh_eq {retention x d : ℚ} (hr : tierIsResolvable e.tier cfg = true)
    (hx : calculateDecayedConfidence m u e cfg t = .ok x) (hd : daysAtFloor m u e cfg t = .ok d) :
    identifyDecayRefresh m u cfg retention e t =
      .ok (if x ≤ getConfidenceFloor e.tier cfg ∧ retention ≤ d then some .archive
        else staleVerdict cfg x) := by
  rw [identifyDecayRefresh, hr, hx]
  change (if x ≤ getConfidenceFloor e.tier cfg then (daysAtFloor m u e cfg t >>= fun _ => _) else _) = _
  rw [hd]
  change (if x ≤ getConfidenceFloor e.tier cfg then
    if retention ≤ d then Except.ok (some .archive) else Except.ok (staleVerdict cfg x)
    else Except.ok (staleVerdict cfg x)) = _
  by_cases hfloor : x ≤ getConfidenceFloor e.tier cfg
  · rw [if_pos hfloor]
    by_cases hret : retention ≤ d
    · rw [if_pos hret, if_pos ⟨hfloor, hret⟩]
    · rw [if_neg hret, if_neg (fun h => hret h.2)]
  · rw [if_neg hfloor, if_neg (fun h => hfloor h.1)]

/-- A row that calls for an action goes on calling for one. -/
theorem identifyDecayRefresh_mono {retention : ℚ} (hc : 0 ≤ e.confidence) (h : t ≤ t') :
    ∃ v v', identifyDecayRefresh m u cfg retention e t = .ok v ∧
      identifyDecayRefresh m u cfg retention e t' = .ok v' ∧ (v' = none → v = none) := by
  cases hr : tierIsResolvable e.tier cfg with
  | false => exact ⟨none, none, by simp [identifyDecayRefresh, hr], by simp [identifyDecayRefresh, hr],
      fun _ => rfl⟩
  | true =>
    obtain ⟨x, x', hx, hx', hle⟩ := calculateDecayedConfidence_antitone (m := m) (u := u) hr hc h
    obtain ⟨d, d', hd, hd', hdle⟩ := daysAtFloor_mono (m := m) (u := u) hr h
    refine ⟨_, _, identifyDecayRefresh_eq hr hx hd, identifyDecayRefresh_eq hr hx' hd', ?_⟩
    intro hnone
    by_cases hfloor : x ≤ getConfidenceFloor e.tier cfg ∧ retention ≤ d
    · rw [if_pos ⟨hle.trans hfloor.1, hfloor.2.trans hdle⟩] at hnone
      cases hnone
    · rw [if_neg hfloor]
      split at hnone
      · cases hnone
      · unfold staleVerdict at hnone ⊢
        split at hnone
        · cases hnone
        · next hstale => exact if_neg (fun hlt => hstale (lt_of_le_of_lt hle hlt))

/-- A row at or over the stale threshold and over its floor calls for nothing. -/
theorem identifyDecayRefresh_none {retention x : ℚ} (hx : calculateDecayedConfidence m u e cfg t = .ok x)
    (hstale : cfg.staleThreshold ≤ x) (hfloor : getConfidenceFloor e.tier cfg < x) :
    identifyDecayRefresh m u cfg retention e t = .ok none := by
  unfold identifyDecayRefresh
  cases tierIsResolvable e.tier cfg with
  | false => rfl
  | true =>
    rw [hx]
    change (if x ≤ getConfidenceFloor e.tier cfg then _ else _) = _
    rw [if_neg (not_le.2 hfloor), staleVerdict, if_neg (not_lt.2 hstale)]

end Curve
end TappsBrain
