import Mathlib.Analysis.SpecialFunctions.Pow.Real
import Mathlib.Analysis.SpecialFunctions.Log.Base
import TappsBrain.Decay
import TappsBrain.Maintain

namespace TappsBrain.Curve
set_option autoImplicit true
set_option relaxedAutoImplicit false

/-- `math.pow` and `math.log2` on some numbers. -/
structure CurveMath (R : Type) where
  pow : R → R → R
  log2 : R → R

/-- The reasons `_archive_reasons` weighs, as `MemoryGarbageCollector` is set up. -/
structure GcConfig where
  floorRetentionDays : ℚ := 30
  sessionExpiryDays : ℚ := 7
  contradictedThreshold : ℚ := 2 / 10

section Code
variable {R : Type} [Field R] [LinearOrder R] [IsStrictOrderedRing R]

/-- The microseconds of a day. -/
def DAY : R := 86400000000

/-- `_days_since`, at any instant. -/
def daysSince (t : Stamp) (now : R) : R := max ((now - (t : R)) / DAY) 0

/-- `power_law_decay`. -/
def powerLawDecay (m : CurveMath R) (days halfLife exponent k : R) : Except String R :=
  if days ≤ 0 then .ok 1
  else if ¬ 0 < halfLife then .error "decay: half_life must be > 0"
  else if ¬ 0 < k then .error "decay: k must be > 0"
  else .ok (m.pow (1 + days / (k * halfLife)) (-exponent))

/-- `exponential_decay`. -/
def exponentialDecay (m : CurveMath R) (days halfLife : R) : Except String R :=
  if days ≤ 0 then .ok 1
  else if ¬ 0 < halfLife then .error "decay: half_life must be > 0"
  else .ok (m.pow (1 / 2) (days / halfLife))

def decayFactor (m : CurveMath R) (cfg : DecayConfig) (tier : Tier) (halfLife : ℚ) (days : R) :
    Except String R :=
  match layerModel cfg tier with
  | .powerLaw => powerLawDecay m days (halfLife : R) (layerExponent cfg tier : R) (layerK cfg tier : R)
  | .exponential => exponentialDecay m days (halfLife : R)

/-- Clamp to `[floor, ceiling]`. -/
def clampConfidence (e : MemoryEntry) (cfg : DecayConfig) (decayed : R) : R :=
  max (getConfidenceFloor e.tier cfg : R) (min (getCeiling e.source cfg : R) decayed)

/-- `calculate_decayed_confidence`. -/
def calculateDecayedConfidence (m : CurveMath R) (u : Unicode) (e : MemoryEntry) (cfg : DecayConfig)
    (now : R) : Except String R := do
  let halfLife ← effectiveHalfLife u e cfg
  let factor ← decayFactor m cfg e.tier halfLife (daysSince (decayReferenceTime e) now)
  .ok (clampConfidence e cfg ((e.confidence : R) * factor))

/-- The days `_days_at_floor` takes the curve to need down to the floor. -/
def daysToFloor (m : CurveMath R) (cfg : DecayConfig) (tier : Tier) (halfLife ratio : ℚ) : R :=
  match layerModel cfg tier with
  | .powerLaw =>
    (layerK cfg tier : R) * (halfLife : R) *
      (m.pow (ratio : R) (1 / (layerExponent cfg tier : R)) - 1)
  | .exponential => (halfLife : R) * m.log2 (ratio : R)

/-- `_days_at_floor`. -/
def daysAtFloor (m : CurveMath R) (u : Unicode) (e : MemoryEntry) (cfg : DecayConfig) (now : R) :
    Except String R :=
  let total := daysSince (decayReferenceTime e) now
  let floor := getConfidenceFloor e.tier cfg
  if e.confidence ≤ 0 ∨ floor ≤ 0 then .ok total
  else if e.confidence / floor ≤ 1 then .ok total
  else do
    let halfLife ← effectiveHalfLife u e cfg
    .ok (max (total - daysToFloor m cfg e.tier halfLife (e.confidence / floor)) 0)

/-- The first of the reasons of `_archive_reasons`. -/
def floorReason (m : CurveMath R) (u : Unicode) (cfg : DecayConfig) (gc : GcConfig) (e : MemoryEntry)
    (effective now : R) : Except String (List String) :=
  if effective ≤ (getConfidenceFloor e.tier cfg : R) then do
    let days ← daysAtFloor m u e cfg now
    .ok (if (gc.floorRetentionDays : R) ≤ days then ["floor_retention"] else [])
  else .ok []

/-- `_archive_reasons`. -/
def archiveReasons (m : CurveMath R) (u : Unicode) (cfg : DecayConfig) (gc : GcConfig)
    (e : MemoryEntry) (now : R) : Except String (List String) :=
  if e.status = .stale ∨ e.status = .superseded then .ok []
  else if e.supersededBy.isSome then .ok []
  else do
    let effective ← calculateDecayedConfidence m u e cfg now
    let atFloor ← floorReason m u cfg gc e effective now
    .ok (atFloor ++
      (if e.contradicted ∧ effective < (gc.contradictedThreshold : R) then
        ["contradicted_low_confidence"] else []) ++
      (if e.scope = .session ∧ (gc.sessionExpiryDays : R) ≤ daysSince e.updatedAt now then
        ["session_expired"] else []))

/-- Whether `identify_decay_refresh` looks at a row at all. -/
def considered (cfg : DecayConfig) (e : MemoryEntry) : Bool :=
  e.status = .active && e.invalidAt.isNone && e.supersededBy.isNone && tierIsResolvable e.tier cfg

def closeVerdict (cfg : DecayConfig) (effective : R) : Option DecayAction :=
  if effective < (cfg.staleThreshold : R) then some .close else none

/-- `identify_decay_refresh` on one row. -/
def identifyDecayRefresh (m : CurveMath R) (u : Unicode) (cfg : DecayConfig)
    (floorRetentionDays : ℚ) (e : MemoryEntry) (now : R) : Except String (Option DecayAction) :=
  if !considered cfg e then .ok none
  else do
    let effective ← calculateDecayedConfidence m u e cfg now
    if effective ≤ (getConfidenceFloor e.tier cfg : R) then do
      let atFloor ← daysAtFloor m u e cfg now
      if (floorRetentionDays : R) ≤ atFloor then .ok (some .archive)
      else .ok (closeVerdict cfg effective)
    else .ok (closeVerdict cfg effective)

end Code
section Executable
variable {u : Unicode} {e : MemoryEntry} {cfg : DecayConfig} {now : Stamp}

def ofFloat (m : FloatMath) : CurveMath ℚ := ⟨m.pow, m.log2⟩

theorem daysSince_rat (t now : Stamp) : daysSince t ((now : Nat) : ℚ) = TappsBrain.daysSince t now := by
  unfold daysSince TappsBrain.daysSince DAY
  rcases Nat.le_total t now with hle | hle
  · rw [Nat.cast_sub hle, max_eq_left]
    have hnn : (0 : ℚ) ≤ (now : ℚ) - (t : ℚ) := sub_nonneg.mpr (Nat.cast_le.mpr hle)
    positivity
  · rw [Nat.sub_eq_zero_of_le hle, Nat.cast_zero, zero_div, max_eq_right]
    apply div_nonpos_of_nonpos_of_nonneg
    · exact sub_nonpos.mpr (Nat.cast_le.mpr hle)
    · norm_num

theorem decayFactor_rat (m : FloatMath) (cfg : DecayConfig) (tier : Tier) (halfLife days : ℚ) :
    decayFactor (ofFloat m) cfg tier halfLife days = TappsBrain.decayFactor m cfg tier halfLife days := by
  unfold decayFactor TappsBrain.decayFactor
  cases layerModel cfg tier <;> rfl

/-- The executable model is the curve on rational numbers. -/
theorem calculateDecayedConfidence_rat (m : FloatMath) :
    calculateDecayedConfidence (ofFloat m) u e cfg ((now : Nat) : ℚ) =
      TappsBrain.calculateDecayedConfidence m u e cfg now := by
  unfold calculateDecayedConfidence TappsBrain.calculateDecayedConfidence
  rw [daysSince_rat]
  cases effectiveHalfLife u e cfg with
  | error msg => rfl
  | ok halfLife =>
    change (decayFactor (ofFloat m) cfg e.tier halfLife _ >>= _) =
      (TappsBrain.decayFactor m cfg e.tier halfLife _ >>= _)
    rw [decayFactor_rat]
    rfl

theorem daysAtFloor_rat (m : FloatMath) : daysAtFloor (ofFloat m) u e cfg ((now : Nat) : ℚ) =
    TappsBrain.daysAtFloor m u e cfg now := by
  unfold daysAtFloor TappsBrain.daysAtFloor
  rw [daysSince_rat]
  rfl

theorem identifyDecayRefresh_rat (m : FloatMath) (retention : ℚ)
    (hlive : e.status = .active ∧ e.invalidAt = none ∧ e.supersededBy = none) :
    identifyDecayRefresh (ofFloat m) u cfg retention e ((now : Nat) : ℚ) =
      TappsBrain.identifyDecayRefresh m u cfg retention e now := by
  have hconsidered : considered cfg e = tierIsResolvable e.tier cfg := by
    simp [considered, hlive.1, hlive.2.1, hlive.2.2]
  unfold identifyDecayRefresh TappsBrain.identifyDecayRefresh
  rw [hconsidered, calculateDecayedConfidence_rat, daysAtFloor_rat]
  rfl

/-- A store whose collector weighs the reasons of `_archive_reasons` on its decay configuration. -/
def collectedBy (c : Config) (m : FloatMath) (cfg : DecayConfig) (gc : GcConfig) : Config :=
  { c with decayReasons := fun e now =>
      match archiveReasons (ofFloat m) c.unicode cfg gc e ((now : Nat) : ℚ) with
      | .ok reasons => reasons
      | .error _ => [] }

theorem archiveReasons_collectedBy {c : Config} {m : FloatMath} {gc : GcConfig} {reasons : List String}
    (h : archiveReasons (ofFloat m) c.unicode cfg gc e ((now : Nat) : ℚ) = .ok reasons) :
    TappsBrain.archiveReasons (collectedBy c m cfg gc) e now = reasons := by
  have hreasons : (collectedBy c m cfg gc).decayReasons e now = reasons := by
    unfold collectedBy
    simp only [h]
  unfold TappsBrain.archiveReasons
  rw [hreasons]
  unfold archiveReasons at h
  split
  · next hstatus =>
    rw [if_pos hstatus] at h
    exact Except.ok.inj h
  · next hstatus =>
    rw [if_neg hstatus] at h
    split
    · next hlink =>
      rw [if_pos hlink] at h
      exact Except.ok.inj h
    · rfl

end Executable
section Laws
variable {R : Type} [Field R] [LinearOrder R] [IsStrictOrderedRing R]

/-- What makes `math.pow` and `math.log2` exact inverses along the two curves. -/
structure CurveMath.Exact (m : CurveMath R) : Prop where
  pow_zero : ∀ b, m.pow b 0 = 1
  one_pow : ∀ x, m.pow 1 x = 1
  pow_nonneg : ∀ b x, 0 ≤ b → 0 ≤ m.pow b x
  log2_one : m.log2 1 = 0
  half_pow_le : ∀ ratio x, 0 < ratio → (m.pow (1 / 2) x ≤ 1 / ratio ↔ m.log2 ratio ≤ x)
  pow_neg_le : ∀ ratio y β, 0 < ratio → 0 < y → 0 < β →
    (m.pow y (-β) ≤ 1 / ratio ↔ m.pow ratio (1 / β) ≤ y)

noncomputable def realMath : CurveMath ℝ := ⟨fun b x => b ^ x, Real.logb 2⟩

theorem realMath_exact : realMath.Exact := by
  constructor
  · exact Real.rpow_zero
  · exact Real.one_rpow
  · exact fun b x hb => Real.rpow_nonneg hb x
  · exact Real.logb_one
  · intro ratio x hratio
    change ((1 : ℝ) / 2) ^ x ≤ 1 / ratio ↔ Real.logb 2 ratio ≤ x
    have hpow : (0 : ℝ) < 2 ^ x := Real.rpow_pos_of_pos two_pos x
    rw [one_div, Real.inv_rpow two_pos.le, one_div, inv_le_inv₀ hpow hratio,
      Real.logb_le_iff_le_rpow one_lt_two hratio]
  · intro ratio y β hratio hy hβ
    change y ^ (-β) ≤ 1 / ratio ↔ ratio ^ (1 / β) ≤ y
    have hpow : 0 < y ^ β := Real.rpow_pos_of_pos hy β
    rw [Real.rpow_neg hy.le, one_div, inv_le_inv₀ hpow hratio, one_div,
      Real.rpow_inv_le_iff_of_pos hratio.le hy.le hβ]

variable {m : CurveMath R} {cfg : DecayConfig} {tier : Tier} {halfLife ratio : ℚ} {days : R}

theorem CurveMath.Exact.log2_pos (hm : m.Exact) {r : R} (hr : 1 < r) : 0 < m.log2 r := by
  by_contra hle
  have hpow := (hm.half_pow_le r 0 (one_pos.trans hr)).mpr (not_lt.mp hle)
  rw [hm.pow_zero, le_div_iff₀ (one_pos.trans hr), one_mul] at hpow
  exact absurd hpow (not_le.mpr hr)

theorem CurveMath.Exact.one_lt_pow (hm : m.Exact) {r β : R} (hr : 1 < r) (hβ : 0 < β) :
    1 < m.pow r (1 / β) := by
  by_contra hle
  have hpow := (hm.pow_neg_le r 1 β (one_pos.trans hr) one_pos hβ).mpr (not_lt.mp hle)
  rw [hm.one_pow, le_div_iff₀ (one_pos.trans hr), one_mul] at hpow
  exact absurd hpow (not_le.mpr hr)

/-- The way down to the floor takes time. -/
theorem daysToFloor_pos (hm : m.Exact) (cfg : DecayConfig) (tier : Tier) (hhalf : 0 < halfLife)
    (hratio : 1 < ratio) : (0 : R) < daysToFloor m cfg tier halfLife ratio := by
  have hhalf' : (0 : R) < (halfLife : R) := Rat.cast_pos.mpr hhalf
  have hratio' : (1 : R) < (ratio : R) := by exact_mod_cast hratio
  unfold daysToFloor
  cases layerModel cfg tier with
  | powerLaw =>
    have hk : (0 : R) < (layerK cfg tier : R) := Rat.cast_pos.mpr (layerK_pos cfg tier)
    have hβ : (0 : R) < (layerExponent cfg tier : R) := Rat.cast_pos.mpr (layerExponent_pos cfg tier)
    exact mul_pos (mul_pos hk hhalf') (sub_pos.mpr (hm.one_lt_pow hratio' hβ))
  | exponential => exact mul_pos hhalf' (hm.log2_pos hratio')

/-- The curve has fallen by the ratio just when the inverted curve says so. -/
theorem decayFactor_le_iff (hm : m.Exact) (cfg : DecayConfig) (tier : Tier) (days : R)
    (hhalf : 0 < halfLife) (hratio : 1 < ratio) :
    ∃ f, decayFactor m cfg tier halfLife days = .ok f ∧
      (f ≤ 1 / (ratio : R) ↔ daysToFloor m cfg tier halfLife ratio ≤ days) := by
  have hhalf' : (0 : R) < (halfLife : R) := Rat.cast_pos.mpr hhalf
  have hratio' : (1 : R) < (ratio : R) := by exact_mod_cast hratio
  have hpos : (0 : R) < (ratio : R) := one_pos.trans hratio'
  have hfloor : (0 : R) < daysToFloor m cfg tier halfLife ratio :=
    daysToFloor_pos hm cfg tier hhalf hratio
  by_cases hdays : days ≤ 0
  · refine ⟨1, ?_, ?_⟩
    · unfold decayFactor powerLawDecay exponentialDecay
      cases layerModel cfg tier with
      | powerLaw => exact if_pos hdays
      | exponential => exact if_pos hdays
    · rw [le_div_iff₀ hpos, one_mul]
      exact ⟨fun h => absurd hratio' (not_lt.mpr h), fun h => absurd hfloor (not_lt.mpr (h.trans hdays))⟩
  · have hdays' : 0 < days := not_le.mp hdays
    unfold decayFactor daysToFloor
    cases layerModel cfg tier with
    | powerLaw =>
      have hk : (0 : R) < (layerK cfg tier : R) := Rat.cast_pos.mpr (layerK_pos cfg tier)
      have hβ : (0 : R) < (layerExponent cfg tier : R) := Rat.cast_pos.mpr (layerExponent_pos cfg tier)
      have hscale : (0 : R) < (layerK cfg tier : R) * (halfLife : R) := mul_pos hk hhalf'
      have hbase : 0 < 1 + days / ((layerK cfg tier : R) * (halfLife : R)) :=
        add_pos one_pos (div_pos hdays' hscale)
      refine ⟨m.pow (1 + days / ((layerK cfg tier : R) * (halfLife : R)))
        (-(layerExponent cfg tier : R)), ?_, ?_⟩
      · simp only [powerLawDecay]
        rw [if_neg hdays, if_neg (not_not.mpr hhalf'), if_neg (not_not.mpr hk)]
      · rw [hm.pow_neg_le _ _ _ hpos hbase hβ, ← sub_le_iff_le_add', le_div_iff₀ hscale, mul_comm]
    | exponential =>
      refine ⟨m.pow (1 / 2) (days / (halfLife : R)), ?_, ?_⟩
      · simp only [exponentialDecay]
        rw [if_neg hdays, if_neg (not_not.mpr hhalf')]
      · rw [hm.half_pow_le _ _ hpos, le_div_iff₀ hhalf', mul_comm]

/-- The curve starts at 1, falls, and stays at least 0. -/
theorem decayFactor_mem (hm : m.Exact) (cfg : DecayConfig) (tier : Tier) (days : R)
    (hhalf : 0 < halfLife) :
    ∃ f, decayFactor m cfg tier halfLife days = .ok f ∧ 0 ≤ f ∧ f ≤ 1 := by
  have hhalf' : (0 : R) < (halfLife : R) := Rat.cast_pos.mpr hhalf
  by_cases hdays : days ≤ 0
  · refine ⟨1, ?_, zero_le_one, le_refl 1⟩
    unfold decayFactor powerLawDecay exponentialDecay
    cases layerModel cfg tier with
    | powerLaw => exact if_pos hdays
    | exponential => exact if_pos hdays
  · have hdays' : 0 < days := not_le.mp hdays
    unfold decayFactor
    cases layerModel cfg tier with
    | powerLaw =>
      have hk : (0 : R) < (layerK cfg tier : R) := Rat.cast_pos.mpr (layerK_pos cfg tier)
      have hβ : (0 : R) < (layerExponent cfg tier : R) := Rat.cast_pos.mpr (layerExponent_pos cfg tier)
      have hgrown : 0 < days / ((layerK cfg tier : R) * (halfLife : R)) :=
        div_pos hdays' (mul_pos hk hhalf')
      have hbase : 0 < 1 + days / ((layerK cfg tier : R) * (halfLife : R)) := add_pos one_pos hgrown
      refine ⟨m.pow (1 + days / ((layerK cfg tier : R) * (halfLife : R)))
        (-(layerExponent cfg tier : R)), ?_, hm.pow_nonneg _ _ hbase.le, ?_⟩
      · simp only [powerLawDecay]
        rw [if_neg hdays, if_neg (not_not.mpr hhalf'), if_neg (not_not.mpr hk)]
      · have hone := (hm.pow_neg_le 1 _ _ one_pos hbase hβ).mpr
        rw [hm.one_pow, div_one] at hone
        exact hone (le_add_of_nonneg_right hgrown.le)
    | exponential =>
      have hbase : (0 : R) ≤ 1 / 2 := by norm_num
      refine ⟨m.pow (1 / 2) (days / (halfLife : R)), ?_, hm.pow_nonneg _ _ hbase, ?_⟩
      · simp only [exponentialDecay]
        rw [if_neg hdays, if_neg (not_not.mpr hhalf')]
      · have hone := (hm.half_pow_le 1 (days / (halfLife : R)) one_pos).mpr
        rw [hm.log2_one, div_one] at hone
        exact hone (div_pos hdays' hhalf').le

end Laws
section Grace
variable {R : Type} [Field R] [LinearOrder R] [IsStrictOrderedRing R] {m : CurveMath R} {u : Unicode}
  {cfg : DecayConfig} {e : MemoryEntry} {halfLife : ℚ}

/-- The days from the reference time after which an entry is at its floor. -/
def daysUntilFloor (m : CurveMath R) (cfg : DecayConfig) (e : MemoryEntry) (halfLife : ℚ) : R :=
  if e.confidence ≤ getConfidenceFloor e.tier cfg then 0
  else daysToFloor m cfg e.tier halfLife (e.confidence / getConfidenceFloor e.tier cfg)

theorem daysUntilFloor_nonneg (hm : m.Exact) (hfloor : 0 < getConfidenceFloor e.tier cfg)
    (hhalf : 0 < halfLife) : 0 ≤ daysUntilFloor m cfg e halfLife := by
  unfold daysUntilFloor
  split
  · exact le_refl 0
  · next habove =>
    exact (daysToFloor_pos hm cfg e.tier hhalf ((one_lt_div hfloor).mpr (not_le.mp habove))).le

omit [IsStrictOrderedRing R] in
theorem daysSince_nonneg (t : Stamp) (now : R) : 0 ≤ daysSince t now := le_max_right _ _

/-- The decayed confidence is at the floor just from the instant that the inverted curve gives. -/
theorem calculateDecayedConfidence_floor (hm : m.Exact) (hfloor : 0 < getConfidenceFloor e.tier cfg)
    (hceiling : getConfidenceFloor e.tier cfg < getCeiling e.source cfg)
    (hprice : effectiveHalfLife u e cfg = .ok halfLife) (now : R) :
    ∃ c, calculateDecayedConfidence m u e cfg now = .ok c ∧ (getConfidenceFloor e.tier cfg : R) ≤ c ∧
      (c ≤ (getConfidenceFloor e.tier cfg : R) ↔
        daysUntilFloor m cfg e halfLife ≤ daysSince (decayReferenceTime e) now) := by
  have hhalf := effectiveHalfLife_pos hprice
  have hfloor' : (0 : R) < (getConfidenceFloor e.tier cfg : R) := Rat.cast_pos.mpr hfloor
  have hceiling' : (getConfidenceFloor e.tier cfg : R) < (getCeiling e.source cfg : R) :=
    Rat.cast_lt.mpr hceiling
  have hclamp : ∀ x : R, clampConfidence e cfg x ≤ (getConfidenceFloor e.tier cfg : R) ↔
      x ≤ (getConfidenceFloor e.tier cfg : R) := by
    intro x
    unfold clampConfidence
    rw [max_le_iff, min_le_iff]
    constructor
    · rintro ⟨-, hle | hle⟩
      · exact absurd hceiling' (not_lt.mpr hle)
      · exact hle
    · exact fun hle => ⟨le_refl _, .inr hle⟩
  have hrun : ∀ f, decayFactor m cfg e.tier halfLife (daysSince (decayReferenceTime e) now) = .ok f →
      calculateDecayedConfidence m u e cfg now =
        .ok (clampConfidence e cfg ((e.confidence : R) * f)) := by
    intro f hf
    unfold calculateDecayedConfidence
    rw [hprice]
    change (decayFactor m cfg e.tier halfLife _ >>= _) = _
    rw [hf]
    rfl
  unfold daysUntilFloor
  by_cases habove : e.confidence ≤ getConfidenceFloor e.tier cfg
  · obtain ⟨f, hf, hnn, hone⟩ :=
      decayFactor_mem hm cfg e.tier (daysSince (decayReferenceTime e) now) hhalf
    refine ⟨_, hrun f hf, le_max_left _ _, ?_⟩
    rw [hclamp, if_pos habove]
    refine ⟨fun _ => daysSince_nonneg _ _, fun _ => ?_⟩
    have hconf : (e.confidence : R) ≤ (getConfidenceFloor e.tier cfg : R) := Rat.cast_le.mpr habove
    calc (e.confidence : R) * f ≤ (getConfidenceFloor e.tier cfg : R) * f :=
          mul_le_mul_of_nonneg_right hconf hnn
      _ ≤ (getConfidenceFloor e.tier cfg : R) * 1 := mul_le_mul_of_nonneg_left hone hfloor'.le
      _ = (getConfidenceFloor e.tier cfg : R) := mul_one _
  · have hratio : 1 < e.confidence / getConfidenceFloor e.tier cfg :=
      (one_lt_div hfloor).mpr (not_le.mp habove)
    obtain ⟨f, hf, hiff⟩ :=
      decayFactor_le_iff hm cfg e.tier (daysSince (decayReferenceTime e) now) hhalf hratio
    refine ⟨_, hrun f hf, le_max_left _ _, ?_⟩
    have hconf : (0 : R) < (e.confidence : R) := Rat.cast_pos.mpr (hfloor.trans (not_le.mp habove))
    rw [hclamp, if_neg habove, ← hiff, Rat.cast_div, one_div_div, le_div_iff₀ hconf, mul_comm]

omit [IsStrictOrderedRing R] in
theorem daysAtFloor_eq (m : CurveMath R) (hfloor : 0 < getConfidenceFloor e.tier cfg)
    (hprice : effectiveHalfLife u e cfg = .ok halfLife) (now : R) :
    daysAtFloor m u e cfg now =
      .ok (max (daysSince (decayReferenceTime e) now - daysUntilFloor m cfg e halfLife) 0) := by
  have hnn := daysSince_nonneg (decayReferenceTime e) now
  unfold daysAtFloor daysUntilFloor
  by_cases hzero : e.confidence ≤ 0 ∨ getConfidenceFloor e.tier cfg ≤ 0
  · have hbelow : e.confidence ≤ getConfidenceFloor e.tier cfg :=
      hzero.elim (fun h => h.trans hfloor.le) (fun h => absurd hfloor (not_lt.mpr h))
    rw [if_pos hbelow, sub_zero, max_eq_left hnn]
    exact if_pos hzero
  · have hratio : e.confidence / getConfidenceFloor e.tier cfg ≤ 1 ↔
        e.confidence ≤ getConfidenceFloor e.tier cfg := div_le_one hfloor
    by_cases hbelow : e.confidence ≤ getConfidenceFloor e.tier cfg
    · rw [if_pos hbelow, sub_zero, max_eq_left hnn]
      simp only
      rw [if_neg hzero, if_pos (hratio.mpr hbelow)]
    · rw [if_neg hbelow]
      simp only
      rw [if_neg hzero, if_neg (fun h => hbelow (hratio.mp h)), hprice]
      rfl

/-- An entry has been at its floor for a number of days. -/
def Rested (m : CurveMath R) (cfg : DecayConfig) (e : MemoryEntry) (halfLife retention : ℚ) (now : R) :
    Prop :=
  daysUntilFloor m cfg e halfLife ≤ daysSince (decayReferenceTime e) now ∧
    (retention : R) ≤ max (daysSince (decayReferenceTime e) now - daysUntilFloor m cfg e halfLife) 0

/-- `floor_retention` is given just for a row that GC weighs and that has rested long enough. -/
theorem archiveReasons_floor (gc : GcConfig) (hm : m.Exact) (hfloor : 0 < getConfidenceFloor e.tier cfg)
    (hceiling : getConfidenceFloor e.tier cfg < getCeiling e.source cfg)
    (hprice : effectiveHalfLife u e cfg = .ok halfLife) (now : R) :
    ∃ reasons, archiveReasons m u cfg gc e now = .ok reasons ∧ ("floor_retention" ∈ reasons ↔
      (e.status ≠ .stale ∧ e.status ≠ .superseded ∧ e.supersededBy = none) ∧
        Rested m cfg e halfLife gc.floorRetentionDays now) := by
  unfold archiveReasons
  by_cases hstatus : e.status = .stale ∨ e.status = .superseded
  · rw [if_pos hstatus]
    refine ⟨[], rfl, ?_⟩
    constructor
    · intro h
      exact absurd h List.not_mem_nil
    · rintro ⟨⟨hstale, hsuperseded, -⟩, -⟩
      exact absurd hstatus (not_or.mpr ⟨hstale, hsuperseded⟩)
  rw [if_neg hstatus]
  by_cases hlink : e.supersededBy.isSome = true
  · rw [if_pos hlink]
    refine ⟨[], rfl, ?_⟩
    constructor
    · intro h
      exact absurd h List.not_mem_nil
    · rintro ⟨⟨-, -, hnone⟩, -⟩
      rw [hnone] at hlink
      cases hlink
  rw [if_neg hlink]
  obtain ⟨c, hc, -, hiff⟩ := calculateDecayedConfidence_floor hm hfloor hceiling hprice now
  have hweighed : e.status ≠ .stale ∧ e.status ≠ .superseded ∧ e.supersededBy = none :=
    ⟨fun h => hstatus (.inl h), fun h => hstatus (.inr h),
      Option.not_isSome_iff_eq_none.mp hlink⟩
  have hdays := daysAtFloor_eq m hfloor hprice now
  have hreason : ∃ first, floorReason m u cfg gc e c now = .ok first ∧
      ("floor_retention" ∈ first ↔ Rested m cfg e halfLife gc.floorRetentionDays now) := by
    unfold floorReason Rested
    by_cases hreached : daysUntilFloor m cfg e halfLife ≤ daysSince (decayReferenceTime e) now
    · rw [if_pos (hiff.mpr hreached), hdays]
      refine ⟨_, rfl, ?_⟩
      rw [List.mem_ite_nil_right, List.mem_singleton]
      exact ⟨fun h => ⟨hreached, h.1⟩, fun h => ⟨h.2, rfl⟩⟩
    · rw [if_neg (fun h => hreached (hiff.mp h))]
      exact ⟨[], rfl, fun h => absurd h List.not_mem_nil, fun h => absurd h.1 hreached⟩
  obtain ⟨first, hfirst, hmem⟩ := hreason
  rw [hc]
  change ∃ reasons, (floorReason m u cfg gc e c now >>= _) = Except.ok reasons ∧ _
  rw [hfirst]
  refine ⟨_, rfl, ?_⟩
  rw [List.mem_append, List.mem_append, hmem]
  have hother : "floor_retention" ≠ "contradicted_low_confidence" ∧
      "floor_retention" ≠ "session_expired" := by decide
  constructor
  · rintro ((h | h) | h)
    · exact ⟨hweighed, h⟩
    · rw [List.mem_ite_nil_right, List.mem_singleton] at h
      exact absurd h.2 hother.1
    · rw [List.mem_ite_nil_right, List.mem_singleton] at h
      exact absurd h.2 hother.2
  · exact fun h => .inl (.inl h.2)

/-- A row is archived just when it is looked at and has rested long enough. -/
theorem identifyDecayRefresh_archive (hm : m.Exact) (hfloor : 0 < getConfidenceFloor e.tier cfg)
    (hceiling : getConfidenceFloor e.tier cfg < getCeiling e.source cfg)
    (hprice : effectiveHalfLife u e cfg = .ok halfLife) (retention : ℚ) (now : R) :
    ∃ verdict, identifyDecayRefresh m u cfg retention e now = .ok verdict ∧
      (verdict = some .archive ↔ considered cfg e = true ∧ Rested m cfg e halfLife retention now) := by
  unfold identifyDecayRefresh
  cases hconsidered : considered cfg e with
  | false => exact ⟨none, rfl, fun h => (nomatch h), fun h => (nomatch h.1)⟩
  | true =>
    obtain ⟨c, hc, -, hiff⟩ := calculateDecayedConfidence_floor hm hfloor hceiling hprice now
    have hclose : closeVerdict cfg c ≠ some .archive := by
      unfold closeVerdict
      split
      · exact fun h => (nomatch h)
      · exact fun h => (nomatch h)
    rw [hc, daysAtFloor_eq m hfloor hprice now]
    unfold Rested
    change ∃ verdict, (if c ≤ (getConfidenceFloor e.tier cfg : R) then
      (if (retention : R) ≤ max (daysSince (decayReferenceTime e) now -
          daysUntilFloor m cfg e halfLife) 0 then Except.ok (some DecayAction.archive)
        else Except.ok (closeVerdict cfg c))
      else Except.ok (closeVerdict cfg c)) = Except.ok verdict ∧ _
    by_cases hreached : daysUntilFloor m cfg e halfLife ≤ daysSince (decayReferenceTime e) now
    · rw [if_pos (hiff.mpr hreached)]
      split
      · next hret => exact ⟨_, rfl, fun _ => ⟨rfl, hreached, hret⟩, fun _ => rfl⟩
      · next hret => exact ⟨_, rfl, fun h => absurd h hclose, fun h => absurd h.2.2 hret⟩
    · rw [if_neg (fun h => hreached (hiff.mp h))]
      exact ⟨_, rfl, fun h => absurd h hclose, fun h => absurd h.2.1 hreached⟩

omit [IsStrictOrderedRing R] in
/-- An entry whose half-life the configuration cannot give has no decay curve. -/
theorem calculateDecayedConfidence_unpriced {msg : String}
    (hprice : effectiveHalfLife u e cfg = .error msg) (now : R) :
    calculateDecayedConfidence m u e cfg now = .error msg := by
  unfold calculateDecayedConfidence
  rw [hprice]
  rfl

omit [IsStrictOrderedRing R] in
theorem archiveReasons_unpriced {gc : GcConfig} {msg : String} {reasons : List String} {now : R}
    (hprice : effectiveHalfLife u e cfg = .error msg)
    (h : archiveReasons m u cfg gc e now = .ok reasons) : reasons = [] := by
  unfold archiveReasons at h
  rw [calculateDecayedConfidence_unpriced hprice now] at h
  split at h
  · cases h
    rfl
  · split at h
    · cases h
      rfl
    · cases h

omit [IsStrictOrderedRing R] in
theorem identifyDecayRefresh_unpriced {msg : String} {verdict : Option DecayAction} {retention : ℚ}
    {now : R} (hprice : effectiveHalfLife u e cfg = .error msg)
    (h : identifyDecayRefresh m u cfg retention e now = .ok verdict) : verdict = none := by
  unfold identifyDecayRefresh at h
  rw [calculateDecayedConfidence_unpriced hprice now] at h
  split at h
  · cases h
    rfl
  · cases h

end Grace
section Instants
variable {u : Unicode} {cfg : DecayConfig} {gc : GcConfig} {e : MemoryEntry} {halfLife : ℚ}

/-- The days since an instant, none before it. -/
noncomputable def elapsed (first now : ℝ) : ℝ := max ((now - first) / DAY) 0

/-- The grace period at the floor as it is meant: `first` is the instant the floor is reached. -/
structure GraceExact (u : Unicode) (cfg : DecayConfig) (gc : GcConfig) (e : MemoryEntry) (first : ℝ) :
    Prop where
  reached : IsLeast {t : ℝ | (decayReferenceTime e : ℝ) ≤ t ∧
    calculateDecayedConfidence realMath u e cfg t = .ok (getConfidenceFloor e.tier cfg : ℝ)} first
  days : ∀ now : ℝ, daysAtFloor realMath u e cfg now = .ok (elapsed first now)
  gcWaits : ∀ (now : ℝ) reasons, archiveReasons realMath u cfg gc e now = .ok reasons →
    "floor_retention" ∈ reasons → (gc.floorRetentionDays : ℝ) ≤ elapsed first now
  refreshWaits : ∀ (retention : ℚ) (now : ℝ),
    identifyDecayRefresh realMath u cfg retention e now = .ok (some .archive) →
      (retention : ℝ) ≤ elapsed first now
  agree : considered cfg e = true → ∀ now : ℝ, ∃ reasons verdict,
    archiveReasons realMath u cfg gc e now = .ok reasons ∧
      identifyDecayRefresh realMath u cfg gc.floorRetentionDays e now = .ok verdict ∧
      ("floor_retention" ∈ reasons ↔ verdict = some .archive)

theorem day_pos : (0 : ℝ) < DAY := by
  unfold DAY
  norm_num

/-- The days left of those since the reference time are the days since the floor was reached. -/
theorem elapsed_eq {t : Stamp} {days now : ℝ} (hdays : 0 ≤ days) :
    max (daysSince t now - days) 0 = elapsed ((t : ℝ) + days * DAY) now := by
  have hshift : (now - ((t : ℝ) + days * DAY)) / DAY = (now - (t : ℝ)) / DAY - days := by
    rw [← sub_sub, sub_div, mul_div_cancel_right₀ days day_pos.ne']
  unfold elapsed daysSince
  rw [hshift]
  rcases le_total 0 ((now - (t : ℝ)) / DAY) with hle | hle
  · rw [max_eq_left hle]
  · rw [max_eq_right hle, max_eq_right (by linarith), max_eq_right (by linarith)]

theorem graceExact_of_priced (hfloor : 0 < getConfidenceFloor e.tier cfg)
    (hceiling : getConfidenceFloor e.tier cfg < getCeiling e.source cfg)
    (hprice : effectiveHalfLife u e cfg = .ok halfLife) :
    ∃ first : ℝ, GraceExact u cfg gc e first := by
  have huntil : (0 : ℝ) ≤ daysUntilFloor realMath cfg e halfLife :=
    daysUntilFloor_nonneg realMath_exact hfloor (effectiveHalfLife_pos hprice)
  have hspan : 0 ≤ daysUntilFloor realMath cfg e halfLife * DAY := mul_nonneg huntil day_pos.le
  refine ⟨(decayReferenceTime e : ℝ) + daysUntilFloor realMath cfg e halfLife * DAY, ?_⟩
  have hsince : ∀ t : ℝ, (decayReferenceTime e : ℝ) ≤ t →
      (daysUntilFloor realMath cfg e halfLife ≤ daysSince (decayReferenceTime e) t ↔
        (decayReferenceTime e : ℝ) + daysUntilFloor realMath cfg e halfLife * DAY ≤ t) := by
    intro t ht
    have hnn : 0 ≤ (t - (decayReferenceTime e : ℝ)) / DAY := div_nonneg (sub_nonneg.mpr ht) day_pos.le
    rw [daysSince, max_eq_left hnn, le_div_iff₀ day_pos, le_sub_iff_add_le']
  constructor
  · constructor
    · have hle : (decayReferenceTime e : ℝ) ≤
          (decayReferenceTime e : ℝ) + daysUntilFloor realMath cfg e halfLife * DAY :=
        le_add_of_nonneg_right hspan
      refine ⟨hle, ?_⟩
      obtain ⟨c, hc, hfloor', hiff⟩ := calculateDecayedConfidence_floor realMath_exact hfloor hceiling
        hprice ((decayReferenceTime e : ℝ) + daysUntilFloor realMath cfg e halfLife * DAY)
      rw [hc, le_antisymm (hiff.mpr ((hsince _ hle).mpr (le_refl _))) hfloor']
    · rintro t ⟨ht, hreached⟩
      obtain ⟨c, hc, -, hiff⟩ :=
        calculateDecayedConfidence_floor realMath_exact hfloor hceiling hprice t
      rw [hc] at hreached
      exact (hsince t ht).mp (hiff.mp (Except.ok.inj hreached).le)
  · intro now
    rw [daysAtFloor_eq realMath hfloor hprice now, elapsed_eq huntil]
  · intro now reasons hreasons hmem
    obtain ⟨reasons', hreasons', hiff⟩ :=
      archiveReasons_floor gc realMath_exact hfloor hceiling hprice now
    rw [hreasons] at hreasons'
    cases hreasons'
    rw [← elapsed_eq huntil]
    exact (hiff.mp hmem).2.2
  · intro retention now hverdict
    obtain ⟨verdict, hverdict', hiff⟩ :=
      identifyDecayRefresh_archive realMath_exact hfloor hceiling hprice retention now
    rw [hverdict] at hverdict'
    cases hverdict'
    rw [← elapsed_eq huntil]
    exact (hiff.mp rfl).2.2
  · intro hconsidered now
    obtain ⟨reasons, hreasons, hmem⟩ :=
      archiveReasons_floor gc realMath_exact hfloor hceiling hprice now
    obtain ⟨verdict, hverdict, harchive⟩ :=
      identifyDecayRefresh_archive realMath_exact hfloor hceiling hprice gc.floorRetentionDays now
    refine ⟨reasons, verdict, hreasons, hverdict, ?_⟩
    rw [hmem, harchive]
    simp only [considered, Bool.and_eq_true, decide_eq_true_eq, Option.isNone_iff_eq_none]
      at hconsidered ⊢
    obtain ⟨⟨⟨hactive, hvalid⟩, hlink⟩, htier⟩ := hconsidered
    simp [hactive, hvalid, hlink, htier]

/-- An entry that has no decay curve never reaches its floor and is never taken to have. -/
structure NeverPriced (u : Unicode) (cfg : DecayConfig) (gc : GcConfig) (e : MemoryEntry) (msg : String) :
    Prop where
  price : effectiveHalfLife u e cfg = .error msg
  confidence : ∀ now : ℝ, calculateDecayedConfidence realMath u e cfg now = .error msg
  gcSilent : ∀ (now : ℝ) reasons, archiveReasons realMath u cfg gc e now = .ok reasons → reasons = []
  refreshSilent : ∀ (retention : ℚ) (now : ℝ) verdict,
    identifyDecayRefresh realMath u cfg retention e now = .ok verdict → verdict = none

/-- The grace period at the floor is exact for every entry with a decay curve, in both models. -/
theorem floorGrace_exact (hfloor : 0 < getConfidenceFloor e.tier cfg)
    (hceiling : getConfidenceFloor e.tier cfg < getCeiling e.source cfg) :
    (∃ first : ℝ, GraceExact u cfg gc e first) ∨ ∃ msg, NeverPriced u cfg gc e msg := by
  cases hprice : effectiveHalfLife u e cfg with
  | ok halfLife => exact .inl (graceExact_of_priced hfloor hceiling hprice)
  | error msg =>
    right
    refine ⟨msg, ?_⟩
    constructor
    · exact hprice
    · exact calculateDecayedConfidence_unpriced hprice
    · exact fun now reasons h => archiveReasons_unpriced hprice h
    · exact fun retention now verdict h => identifyDecayRefresh_unpriced hprice h

/-- A faint note, closed by hand a day after it was written. -/
def closedNote : MemoryEntry :=
  { key := "standup", value := "the build is red", confidence := 1 / 20, invalidAt := some (.at 86400000000)
    createdAt := 0, updatedAt := 0, lastAccessed := 0 }

theorem floorGrace_exact_closedNote :
    (∃ first : ℝ, GraceExact .lowercase {} {} closedNote first) ∨
      ∃ msg, NeverPriced .lowercase {} {} closedNote msg :=
  floorGrace_exact (by decide +kernel) (by decide +kernel)

theorem effectiveHalfLife_closedNote : effectiveHalfLife .lowercase closedNote {} = .ok 60 := by
  decide +kernel

theorem daysUntilFloor_closedNote : daysUntilFloor realMath {} closedNote 60 = 0 :=
  if_pos (by decide +kernel)

/-- The collector archives a closed row for its time at the floor; the refresh does not look at it. -/
theorem floorGrace_closedRow_differs :
    0 < getConfidenceFloor closedNote.tier {} ∧
      getConfidenceFloor closedNote.tier {} < getCeiling closedNote.source {} ∧
      ∃ reasons verdict,
        archiveReasons realMath .lowercase {} {} closedNote (40 * DAY) = .ok reasons ∧
          identifyDecayRefresh realMath .lowercase {} (GcConfig.floorRetentionDays {}) closedNote
            (40 * DAY) = .ok verdict ∧
          "floor_retention" ∈ reasons ∧ verdict ≠ some .archive := by
  have hfloor : 0 < getConfidenceFloor closedNote.tier {} := by decide +kernel
  have hceiling : getConfidenceFloor closedNote.tier {} < getCeiling closedNote.source {} := by
    decide +kernel
  obtain ⟨reasons, hreasons, hmem⟩ := archiveReasons_floor {} realMath_exact hfloor hceiling
    effectiveHalfLife_closedNote (40 * DAY)
  obtain ⟨verdict, hverdict, harchive⟩ := identifyDecayRefresh_archive realMath_exact hfloor hceiling
    effectiveHalfLife_closedNote (GcConfig.floorRetentionDays {}) (40 * DAY)
  have hdays : daysSince (decayReferenceTime closedNote) (40 * DAY : ℝ) = 40 := by
    have href : decayReferenceTime closedNote = 0 := rfl
    rw [daysSince, href, Nat.cast_zero, sub_zero, mul_div_cancel_right₀ _ day_pos.ne']
    norm_num
  refine ⟨hfloor, hceiling, reasons, verdict, hreasons, hverdict, ?_, ?_⟩
  · rw [hmem]
    refine ⟨by decide +kernel, ?_⟩
    unfold Rested
    rw [daysUntilFloor_closedNote, hdays]
    norm_num
  · intro h
    have hconsidered : considered {} closedNote = false := by decide +kernel
    rw [harchive, hconsidered] at h
    exact absurd h.1 (by decide)

end Instants
end TappsBrain.Curve
