import Mathlib.Tactic.GCongr
import Mathlib.Tactic.Linarith
import TappsBrain.Decay
import TappsBrain.Untouched

namespace TappsBrain
open Lib
set_option autoImplicit true
set_option relaxedAutoImplicit false

/-- A usefulness report on one memory; a boost that is not finite is `none`. -/
inductive UsageCall where
  | access (wasUseful : Bool)
  | reinforce (confidenceBoost : Option ℚ)
deriving DecidableEq, Repr

/-- What a usefulness report reads of an entry. -/
structure Usefulness where
  confidence : ℚ
  useful : Nat
  total : Nat

def MemoryEntry.usefulness (e : MemoryEntry) : Usefulness :=
  ⟨e.confidence, e.usefulAccessCount, e.totalAccessCount⟩

/-- A boost is clamped, and one that is not finite counts as none. -/
def clampedBoost (boost : Option ℚ) : ℚ := max 0 (min (boost.getD 0) MAX_CONFIDENCE_BOOST)

/-- The blend toward the Laplace estimate, capped and clamped. -/
def blendedConfidence (ceiling : Ceiling) (useful total : Nat) (confidence : ℚ) : ℚ :=
  let target : ℚ := (useful + 1) / (total + 2)
  let blended := confidence + 2 / 10 * (target - confidence)
  max 0 (min 1 (min blended (max ceiling.1 confidence)))

/-- A report on the confidence and the counters alone. -/
def Usefulness.step (ceiling : Ceiling) (u : Usefulness) : UsageCall → Usefulness
  | .access wasUseful =>
    let useful := u.useful + (if wasUseful then 1 else 0)
    ⟨blendedConfidence ceiling useful (u.total + 1) u.confidence, useful, u.total + 1⟩
  | .reinforce boost =>
    { u with confidence := min (u.confidence + clampedBoost boost) (max ceiling.1 u.confidence) }

def Usefulness.run (ceiling : Ceiling) (u : Usefulness) (calls : List UsageCall) : Usefulness :=
  calls.foldl (Usefulness.step ceiling) u

/-- The second report is the first, or says useful where the first does not. -/
inductive UsageCall.Kinder : UsageCall → UsageCall → Prop
  | access {b b' : Bool} (h : b = true → b' = true) : Kinder (.access b) (.access b')
  | reinforce {boost : Option ℚ} : Kinder (.reinforce boost) (.reinforce boost)

theorem UsageCall.Kinder.refl (c : UsageCall) : c.Kinder c := by
  cases c with
  | access b => exact .access id
  | reinforce boost => exact .reinforce

/-- At least as confident, on at least as many useful accesses of as many. -/
structure Usefulness.Under (u v : Usefulness) : Prop where
  confidence : u.confidence ≤ v.confidence
  useful : u.useful ≤ v.useful
  total : u.total = v.total

section Step
variable {ceiling : Ceiling} {u v : Usefulness} {c d : UsageCall} {calls calls' : List UsageCall}

theorem clampedBoost_nonneg (boost : Option ℚ) : 0 ≤ clampedBoost boost := le_max_left _ _

theorem blendedConfidence_mono {useful useful' total : Nat} {x y : ℚ} (h : x ≤ y)
    (hu : useful ≤ useful') :
    blendedConfidence ceiling useful total x ≤ blendedConfidence ceiling useful' total y := by
  have htarget : ((useful : ℚ) + 1) / (total + 2) ≤ ((useful' : ℚ) + 1) / (total + 2) := by
    gcongr
  have hblend : x + 2 / 10 * (((useful : ℚ) + 1) / (total + 2) - x) ≤
      y + 2 / 10 * (((useful' : ℚ) + 1) / (total + 2) - y) := by
    linarith
  have hcap : max ceiling.1 x ≤ max ceiling.1 y := max_le_max le_rfl h
  unfold blendedConfidence
  exact max_le_max le_rfl (min_le_min le_rfl (min_le_min hblend hcap))

/-- A report keeps two histories in order, and so does a kinder one on the better history. -/
theorem Usefulness.Under.step (h : u.Under v) (hc : c.Kinder d) :
    (u.step ceiling c).Under (v.step ceiling d) := by
  cases hc with
  | @access b b' hb =>
    have huseful : u.useful + (if b then 1 else 0) ≤ v.useful + (if b' then 1 else 0) := by
      apply Nat.add_le_add h.useful
      cases b with
      | false => exact Nat.zero_le _
      | true => rw [hb rfl]
    constructor
    · simp only [Usefulness.step, h.total]
      exact blendedConfidence_mono h.confidence huseful
    · exact huseful
    · exact congrArg (· + 1) h.total
  | reinforce =>
    constructor
    · have hle := h.confidence
      simp only [Usefulness.step]
      gcongr
    · exact h.useful
    · exact h.total

theorem Usefulness.Under.run (h : u.Under v) (hc : List.Forall₂ UsageCall.Kinder calls calls') :
    (u.run ceiling calls).Under (v.run ceiling calls') := by
  induction hc generalizing u v with
  | nil => exact h
  | cons hcd _ ih => exact ih (h.step hcd)

/-- The bounds of a history that began at `start`. -/
structure Usefulness.Bounded (ceiling : Ceiling) (start : ℚ) (u : Usefulness) : Prop where
  nonneg : 0 ≤ u.confidence
  le_one : u.confidence ≤ 1
  le_max : u.confidence ≤ max start ceiling.1

theorem Usefulness.Bounded.step {start : ℚ} (h : u.Bounded ceiling start) (c : UsageCall) :
    (u.step ceiling c).Bounded ceiling start := by
  have hcap : max ceiling.1 u.confidence ≤ max start ceiling.1 := max_le (le_max_right _ _) h.le_max
  have hone : max ceiling.1 u.confidence ≤ 1 := max_le ceiling.2.2 h.le_one
  have hzero : 0 ≤ max start ceiling.1 := h.nonneg.trans h.le_max
  cases c with
  | access wasUseful =>
    constructor
    · exact le_max_left _ _
    · exact max_le zero_le_one (min_le_left _ _)
    · exact max_le hzero (((min_le_right _ _).trans (min_le_right _ _)).trans hcap)
  | reinforce boost =>
    constructor
    · exact le_min (add_nonneg h.nonneg (clampedBoost_nonneg boost))
        (h.nonneg.trans (le_max_right _ _))
    · exact (min_le_right _ _).trans hone
    · exact (min_le_right _ _).trans hcap

/-- A reinforcement takes no confidence away. -/
theorem Usefulness.le_reinforce (u : Usefulness) (boost : Option ℚ) :
    u.confidence ≤ (u.step ceiling (.reinforce boost)).confidence :=
  le_min (le_add_of_nonneg_right (clampedBoost_nonneg boost)) (le_max_right _ _)

end Step

/-- The store's part in a report. -/
def usageCall (w : World) (key : String) : UsageCall → StoreM Unit
  | .access wasUseful => recordAccess w key wasUseful
  | .reinforce boost => do
    let _ ← reinforce w key (boost.getD 0)
    pure ()

/-- The store after the reports, whose failures their callers take note of. -/
def usageStore (w : World) (key : String) (calls : List UsageCall) (s : Store) : Store :=
  calls.foldl (fun s c => (usageCall w key c).final s) s

/-- The reports up to the first that raises. -/
def usageRun (w : World) (key : String) (calls : List UsageCall) : StoreM Unit :=
  Prog.forEach (usageCall w key) calls

/-- The store holds an entry with this history, whose confidence has this ceiling. -/
def HoldsUsage (w : World) (key : String) (ceiling : Ceiling) (u : Usefulness) (s : Store) : Prop :=
  ∃ e, held w.toConfig s key = some e ∧ w.ceiling e.source = ceiling ∧ e.usefulness = u

section Calls
variable {w : World} {key : String} {s t : Store} {e after : MemoryEntry} {ceiling : Ceiling}
  {u : Usefulness}

@[simp] theorem withStability_usefulness (c : Config) (before : MemoryEntry) (wasUseful : Bool)
    (now : Stamp) (e : MemoryEntry) : (withStability c before wasUseful now e).usefulness = e.usefulness := by
  unfold withStability
  split <;> rfl

@[simp] theorem withStability_source (c : Config) (before : MemoryEntry) (wasUseful : Bool)
    (now : Stamp) (e : MemoryEntry) : (withStability c before wasUseful now e).source = e.source := by
  unfold withStability
  split <;> rfl

theorem accessRecorded_usefulness (wasUseful : Bool) (now : Stamp) (e : MemoryEntry) :
    (accessRecorded w.toConfig wasUseful now e).usefulness =
      e.usefulness.step (w.ceiling e.source) (.access wasUseful) := by
  rw [accessRecorded, withStability_usefulness]
  rfl

theorem reinforced_usefulness (boost : Option ℚ) (now : Stamp) (e : MemoryEntry) :
    (reinforced w.toConfig (boost.getD 0) now e).usefulness =
      e.usefulness.step (w.ceiling e.source) (.reinforce boost) := by
  rw [reinforced, withStability_usefulness]
  rfl

theorem HoldsUsage.of_cached (h : s.entries.get? key = some e) :
    HoldsUsage w key (w.ceiling e.source) e.usefulness s := by
  refine ⟨e, ?_, rfl, rfl⟩
  rw [held, h, Option.some_or]

theorem cached_bookkeeping (key : String) (e : MemoryEntry) :
    Bookkeeping (fun s => s.entries.get? key = some e) :=
  ⟨fun _ h => h, fun _ h => h, fun _ h => h, fun _ _ h => h, fun _ _ h => h, fun _ _ h => h⟩

/-- The row replaces the cached entry, or the write is refused and the entry stays. -/
theorem rewriteEntry_cached (hkey : after.key = e.key) (he : e.key = key) :
    Triple (fun s => s.entries.get? key = some e) (rewriteEntry w e after)
      (fun _ s => s.entries.get? key = some after) (fun _ s => s.entries.get? key = some e) := by
  intro s hs
  subst he
  rw [rewriteEntry_run w hkey hs]
  cases accepts w s after with
  | true =>
    have hset := Table.get?_set_self s.entries after
    rw [hkey] at hset
    exact hset
  | false => exact hs

theorem cached_utcNow (key : String) (e : MemoryEntry) {E : Raised → Store → Prop} :
    Triple (fun s => s.entries.get? key = some e) (utcNow w)
      (fun _ s => s.entries.get? key = some e) E :=
  fun _ h => h

/-- Escalating the tier leaves the history of the entry alone. -/
theorem promoteWhenDue_usage (he : e.key = key) :
    Triple (fun s => s.entries.get? key = some e) (promoteWhenDue w e)
      (fun _ => HoldsUsage w key (w.ceiling e.source) e.usefulness)
      (fun _ => HoldsUsage w key (w.ceiling e.source) e.usefulness) := by
  apply Triple.bind (cached_utcNow key e)
  intro checkedAt
  split
  · exact Triple.pure (fun _ h => .of_cached h)
  · next target _ =>
    apply Triple.bind (cached_utcNow key e)
    intro now
    have hwrite : Triple (fun s => s.entries.get? key = some e)
        (rewriteEntry w e (promoted w.toConfig target now e))
        (fun _ s => s.entries.get? key = some (promoted w.toConfig target now e))
        (fun _ => HoldsUsage w key (w.ceiling e.source) e.usefulness) :=
      (rewriteEntry_cached (promoted_key _ _ _ _) he).mono (fun _ => id) (fun _ _ => id)
        (fun _ _ h => .of_cached h)
    apply Triple.bind hwrite
    intro _
    have hpromoted : ∀ s, s.entries.get? key = some (promoted w.toConfig target now e) →
        HoldsUsage w key (w.ceiling e.source) e.usefulness s := by
      intro s h
      exact HoldsUsage.of_cached (e := promoted w.toConfig target now e) h
    apply Triple.bind ((keeps_appendAudit (cached_bookkeeping key _)).triple (fun _ s h => hpromoted s h))
    intro _
    exact Triple.pure (fun s h => hpromoted s h.1)

theorem maybePromoteAfterReinforce_usage (he : e.key = key) {E : Raised → Store → Prop} :
    Triple (fun s => s.entries.get? key = some e) (maybePromoteAfterReinforce w e)
      (fun _ => HoldsUsage w key (w.ceiling e.source) e.usefulness) E := by
  unfold maybePromoteAfterReinforce
  split
  · exact Triple.pure (fun _ h => .of_cached h)
  · exact Triple.handle (promoteWhenDue_usage he) (fun _ => Triple.pure (fun _ h => h))

/-- What a report reads: the entry with the history, cached from now on. -/
def ReadsUsage (w : World) (key : String) (ceiling : Ceiling) (u : Usefulness)
    (r : Option MemoryEntry) (s : Store) : Prop :=
  match r with
  | none => False
  | some e => (e.key = key ∧ w.ceiling e.source = ceiling ∧ e.usefulness = u) ∧
      s.entries.get? key = some e

theorem ensureEntryCached_usage :
    Triple (HoldsUsage w key ceiling u) (ensureEntryCached w key) (ReadsUsage w key ceiling u)
      (fun _ => HoldsUsage w key ceiling u) := by
  rintro s ⟨e, he, hceiling, hu⟩
  have hself : Untouched w.toConfig anyKey s s := ⟨fun _ _ => rfl, fun _ _ => .inl rfl⟩
  have hall : anyKey key := trivial
  have hread := ensureEntryCached_held hall s hself
  rcases hr : ensureEntryCached w key s with ⟨err | r, t⟩
  · rw [hr] at hread
    exact ⟨e, (hread.1.held_eq trivial).trans he, hceiling, hu⟩
  · rw [hr] at hread
    obtain ⟨-, hcached, hheld⟩ := hread
    rw [he] at hheld
    subst hheld
    exact ⟨⟨Table.key_of_get? hcached, hceiling, hu⟩, hcached⟩

/-- A write that is refused leaves the history the entry had. -/
theorem rewriteEntry_usage (hkey : after.key = e.key) (he : e.key = key) :
    Triple (fun s => s.entries.get? key = some e) (rewriteEntry w e after)
      (fun _ s => s.entries.get? key = some after)
      (fun _ => HoldsUsage w key (w.ceiling e.source) e.usefulness) :=
  (rewriteEntry_cached hkey he).mono (fun _ => id) (fun _ _ => id) (fun _ _ h => .of_cached h)

/-- A report that returns has taken its step, and one that raises has left the history alone. -/
theorem usageCall_steps (c : UsageCall) :
    Triple (HoldsUsage w key ceiling u) (usageCall w key c)
      (fun _ => HoldsUsage w key ceiling (u.step ceiling c)) (fun _ => HoldsUsage w key ceiling u) := by
  cases c with
  | access wasUseful =>
    apply Triple.bind ensureEntryCached_usage
    intro r
    cases r with
    | none => exact fun _ h => h.elim
    | some e =>
      apply Triple.assume
      rintro ⟨he, rfl, rfl⟩
      apply Triple.bind (cached_utcNow key e)
      intro now
      apply (rewriteEntry_usage (accessRecorded_key _ _ _ _) he).mono (fun _ => id) _ (fun _ _ => id)
      intro _ s h
      have hafter := HoldsUsage.of_cached (w := w) h
      rwa [accessRecorded_usefulness, accessRecorded, withStability_source] at hafter
  | reinforce boost =>
    have hreinforce : Triple (HoldsUsage w key ceiling u) (reinforce w key (boost.getD 0))
        (fun _ => HoldsUsage w key ceiling (u.step ceiling (.reinforce boost)))
        (fun _ => HoldsUsage w key ceiling u) := by
      apply Triple.bind ensureEntryCached_usage
      intro r
      cases r with
      | none => exact fun _ h => h.elim
      | some e =>
        apply Triple.assume
        rintro ⟨he, rfl, rfl⟩
        apply Triple.bind (cached_utcNow key e)
        intro now
        apply Triple.bind (rewriteEntry_usage (reinforced_key _ _ _ _) he)
        intro _
        have hkey : (reinforced w.toConfig (boost.getD 0) now e).key = key :=
          (reinforced_key _ _ _ _).trans he
        apply (maybePromoteAfterReinforce_usage hkey).mono (fun _ => id) _ (fun _ _ => id)
        intro _ s h
        rwa [reinforced_usefulness, reinforced, withStability_source] at h
    apply Triple.bind hreinforce
    intro _
    exact Triple.pure (fun _ h => h)

/-- Reports that raised count as not made. -/
theorem usageStore_bounded {start : ℚ} (calls : List UsageCall) (hu : u.Bounded ceiling start)
    (hs : HoldsUsage w key ceiling u s) :
    ∃ v, HoldsUsage w key ceiling v (usageStore w key calls s) ∧ v.Bounded ceiling start := by
  induction calls generalizing u s with
  | nil => exact ⟨u, hs, hu⟩
  | cons c rest ih =>
    have hstep := usageCall_steps c s hs
    rcases hr : usageCall w key c s with ⟨err | r, t⟩
    · rw [hr] at hstep
      have hnext : (usageCall w key c).final s = t := congrArg (·.2) hr
      rw [usageStore, List.foldl_cons, hnext]
      exact ih hu hstep
    · rw [hr] at hstep
      have hnext : (usageCall w key c).final s = t := congrArg (·.2) hr
      rw [usageStore, List.foldl_cons, hnext]
      exact ih (hu.step c) hstep

/-- A run of reports that all return moves the history as they say. -/
theorem usageRun_steps (calls : List UsageCall) :
    Returns (HoldsUsage w key ceiling u) (usageRun w key calls)
      (fun _ => HoldsUsage w key ceiling (u.run ceiling calls)) := by
  induction calls generalizing u with
  | nil => exact Triple.pure (fun _ h => h)
  | cons c rest ih =>
    have hstep : Returns (HoldsUsage w key ceiling u) (usageCall w key c)
        (fun _ => HoldsUsage w key ceiling (u.step ceiling c)) :=
      (usageCall_steps c).mono (fun _ => id) (fun _ _ => id) (fun _ _ _ => trivial)
    exact hstep.bind (fun _ => ih)

end Calls

/-- The decayed confidence of the entry only falls, between the floor of its tier and the ceiling of
its source, where these are in order. -/
structure DecaysWithin (e : MemoryEntry) : Prop where
  falls : ∀ (m : FloatMath) (u : Unicode) (cfg : DecayConfig) (t t' : Stamp) (x x' : ℚ), t ≤ t' →
    calculateDecayedConfidence m u e cfg t = .ok x →
    calculateDecayedConfidence m u e cfg t' = .ok x' → x' ≤ x
  bounds : ∀ (m : FloatMath) (u : Unicode) (cfg : DecayConfig) (t : Stamp) (x : ℚ),
    calculateDecayedConfidence m u e cfg t = .ok x →
    getConfidenceFloor e.tier cfg ≤ x ∧
      x ≤ max (getConfidenceFloor e.tier cfg) (getCeiling e.source cfg)

section Decay
variable {u : Unicode} {e : MemoryEntry} {cfg : DecayConfig} {halfLife : ℚ}

/-- A decayed confidence is the clamped product of the confidence with the decay factor. -/
theorem calculateDecayedConfidence_ok {m : FloatMath} {t : Stamp} {x : ℚ}
    (h : calculateDecayedConfidence m u e cfg t = .ok x) :
    ∃ halfLife f, effectiveHalfLife u e cfg = .ok halfLife ∧
      decayFactor m cfg e.tier halfLife (daysSince (decayReferenceTime e) t) = .ok f ∧
      x = clampConfidence e cfg (e.confidence * f) := by
  cases hh : effectiveHalfLife u e cfg with
  | error err =>
    rw [calculateDecayedConfidence, hh] at h
    cases h
  | ok halfLife =>
    obtain ⟨f, -, hf, -⟩ := decayFactor_antitone m cfg e.tier (effectiveHalfLife_pos hh)
      (le_refl (daysSince (decayReferenceTime e) t))
    rw [calculateDecayedConfidence_eq hh hf] at h
    cases h
    exact ⟨halfLife, f, rfl, hf, rfl⟩

theorem decaysWithin (hc : 0 ≤ e.confidence) : DecaysWithin e := by
  constructor
  · intro m u cfg t t' x x' hle hx hx'
    obtain ⟨halfLife, f, hh, hf, rfl⟩ := calculateDecayedConfidence_ok hx
    obtain ⟨halfLife', f', hh', hf', rfl⟩ := calculateDecayedConfidence_ok hx'
    rw [hh] at hh'
    cases hh'
    obtain ⟨g, g', hg, hg', hle'⟩ := decayFactor_antitone m cfg e.tier (effectiveHalfLife_pos hh)
      (daysSince_mono (decayReferenceTime e) hle)
    rw [hf] at hg
    rw [hf'] at hg'
    cases hg
    cases hg'
    unfold clampConfidence
    gcongr
  · intro m u cfg t x hx
    obtain ⟨halfLife, f, -, -, rfl⟩ := calculateDecayedConfidence_ok hx
    constructor
    · exact le_max_left _ _
    · exact max_le_max le_rfl (min_le_left _ _)

end Decay

/-- Feedback moves the confidence within its bounds, reinforcement only up, and a kinder history
never ends lower; decay then only takes away. -/
theorem usefulness_feedback (w : World) (key : String) (s : Store) (e : MemoryEntry)
    (hheld : held w.toConfig s key = some e) (h0 : 0 ≤ e.confidence) (h1 : e.confidence ≤ 1) :
    (∀ calls, ∃ e', held w.toConfig (usageStore w key calls s) key = some e' ∧
      0 ≤ e'.confidence ∧ e'.confidence ≤ 1 ∧
      e'.confidence ≤ max e.confidence (w.ceiling e.source).1 ∧ DecaysWithin e') ∧
    (∀ calls boost, ∃ e₁ e₂, held w.toConfig (usageStore w key calls s) key = some e₁ ∧
      held w.toConfig (usageStore w key (calls ++ [.reinforce boost]) s) key = some e₂ ∧
      e₁.confidence ≤ e₂.confidence) ∧
    (∀ before after t t', usageRun w key (before ++ .access false :: after) s = (.ok (), t) →
      usageRun w key (before ++ .access true :: after) s = (.ok (), t') →
      ∃ e₁ e₂, held w.toConfig t key = some e₁ ∧ held w.toConfig t' key = some e₂ ∧
        e₁.confidence ≤ e₂.confidence) := by
  have hs : HoldsUsage w key (w.ceiling e.source) e.usefulness s := ⟨e, hheld, rfl, rfl⟩
  have hu : e.usefulness.Bounded (w.ceiling e.source) e.confidence := ⟨h0, h1, le_max_left _ _⟩
  refine ⟨fun calls => ?_, fun calls boost => ?_, fun before after t t' hr hr' => ?_⟩
  · obtain ⟨v, ⟨e', he', -, rfl⟩, hb⟩ := usageStore_bounded calls hu hs
    exact ⟨e', he', hb.nonneg, hb.le_one, hb.le_max, decaysWithin hb.nonneg⟩
  · obtain ⟨v, hv, -⟩ := usageStore_bounded calls hu hs
    have hstep := usageCall_steps (.reinforce boost) _ hv
    have hlast : usageStore w key (calls ++ [.reinforce boost]) s =
        (usageCall w key (.reinforce boost)).final (usageStore w key calls s) := by
      rw [usageStore, List.foldl_append]
      rfl
    obtain ⟨e₁, he₁, -, rfl⟩ := hv
    rw [hlast]
    rcases hr : usageCall w key (.reinforce boost) (usageStore w key calls s) with ⟨err | r, t⟩
    · rw [hr] at hstep
      obtain ⟨e₂, he₂, -, hu₂⟩ := hstep
      refine ⟨e₁, e₂, he₁, (congrArg (fun p => held w.toConfig p.2 key) hr).trans he₂, ?_⟩
      exact (congrArg Usefulness.confidence hu₂).ge
    · rw [hr] at hstep
      obtain ⟨e₂, he₂, -, hu₂⟩ := hstep
      refine ⟨e₁, e₂, he₁, (congrArg (fun p => held w.toConfig p.2 key) hr).trans he₂, ?_⟩
      exact (Usefulness.le_reinforce _ boost).trans (congrArg Usefulness.confidence hu₂).ge
  · obtain ⟨e₁, he₁, -, hu₁⟩ := (usageRun_steps _).ok hs hr
    obtain ⟨e₂, he₂, -, hu₂⟩ := (usageRun_steps _).ok hs hr'
    have hkinder : List.Forall₂ UsageCall.Kinder (before ++ .access false :: after)
        (before ++ .access true :: after) := by
      have hsame : ∀ calls, List.Forall₂ UsageCall.Kinder calls calls :=
        fun calls => List.forall₂_same.2 (fun c _ => UsageCall.Kinder.refl c)
      exact List.rel_append (hsame before) (.cons (.access (fun _ => rfl)) (hsame after))
    have hself : e.usefulness.Under e.usefulness := ⟨le_refl _, le_refl _, rfl⟩
    refine ⟨e₁, e₂, he₁, he₂, ?_⟩
    have hrun : (e.usefulness.run (w.ceiling e.source) (before ++ .access false :: after)).Under
        (e.usefulness.run (w.ceiling e.source) (before ++ .access true :: after)) :=
      hself.run hkinder
    rw [← hu₁, ← hu₂] at hrun
    exact hrun.confidence

/-- One memory of an agent, held at the default confidence. -/
def reportedStore : Store where
  entries := Table.empty.set
    { key := "a", value := "the build is green", confidence := 6 / 10, createdAt := 1,
      updatedAt := 1, lastAccessed := 1 }

theorem usefulness_feedback_reported :
    ∃ e', held Config.plain (usageStore Config.plain.calm "a"
        [.access false, .reinforce (some (1 / 10)), .access true] reportedStore) "a" = some e' ∧
      0 ≤ e'.confidence ∧ e'.confidence ≤ 1 ∧
      e'.confidence ≤ max (6 / 10) (defaultCeiling .agent).1 ∧ DecaysWithin e' :=
  (usefulness_feedback Config.plain.calm "a" reportedStore _ rfl (by decide +kernel)
    (by decide +kernel)).1 _

end TappsBrain
