import Mathlib.Data.List.Infix
import TappsBrain.Lib.Exclusive
import TappsBrain.Lib.Run

namespace Lib
set_option autoImplicit true
set_option relaxedAutoImplicit false

/-- An invariant that may speak of the steps taken so far. -/
theorem runSteps_traced {σ α : Type} (step : α → σ → σ) {I : List α → σ → Prop} {s : σ}
    (hs : I [] s)
    (h : ∀ done a, I done (runSteps step done s) →
      I (done ++ [a]) (step a (runSteps step done s))) (l : List α) :
    I l (runSteps step l s) := by
  induction l using List.reverseRecOn with
  | nil => exact hs
  | append_singleton done a ih =>
    rw [runSteps_append]
    exact h done a ih

namespace TtlCache

/-- Where a caller of the cache is. -/
inductive Phase (κ ν : Type) where
  | idle
  /-- It found nothing, and is about to fetch. -/
  | missed (key : κ) (askedAt : Nat)
  | fetched (key : κ) (askedAt : Nat) (value : ν)

structure Answer (κ ν : Type) where
  key : κ
  askedAt : Nat
  value : ν

/-- A source of values that change, a cache before it, and its callers. -/
structure State (κ ν : Type) where
  source : κ → ν
  now : Nat := 0
  /-- What is cached, with when it expires. -/
  cache : κ → Option (ν × Nat) := fun _ => none
  phase : Nat → Phase κ ν := fun _ => .idle
  answers : List (Answer κ ν) := []

inductive Event (κ ν : Type) where
  | ask (caller : Nat) (key : κ)
  | fetch (caller : Nat)
  /-- The fetch raises. -/
  | abort (caller : Nat)
  | store (caller : Nat)
  | write (key : κ) (value : ν)
  | evict (key : κ)
  | tick (d : Nat)

variable {κ ν : Type} [DecidableEq κ]

def State.live (s : State κ ν) (key : κ) : Option ν :=
  (s.cache key).bind (fun c => if s.now < c.2 then some c.1 else none)

/-- `expires` says from when the call was made, and from when it stores, how long that holds. -/
def step (expires : Nat → Nat → Nat) : Event κ ν → State κ ν → State κ ν
  | .ask caller key, s =>
    match s.phase caller with
    | .idle =>
      match s.live key with
      | some value => { s with answers := s.answers ++ [⟨key, s.now, value⟩] }
      | none => { s with phase := Function.update s.phase caller (.missed key s.now) }
    | _ => s
  | .fetch caller, s =>
    match s.phase caller with
    | .missed key askedAt =>
      { s with phase := Function.update s.phase caller (.fetched key askedAt (s.source key)) }
    | _ => s
  | .abort caller, s =>
    match s.phase caller with
    | .missed .. => { s with phase := Function.update s.phase caller .idle }
    | _ => s
  | .store caller, s =>
    match s.phase caller with
    | .fetched key askedAt value =>
      { s with
        cache := Function.update s.cache key (some (value, expires askedAt s.now))
        phase := Function.update s.phase caller .idle
        answers := s.answers ++ [⟨key, askedAt, value⟩] }
    | _ => s
  | .write key value, s => { s with source := Function.update s.source key value }
  | .evict key, s => { s with cache := Function.update s.cache key none }
  | .tick d, s => { s with now := s.now + d }

/-- No caller asks for the key, and it is not cached. -/
structure Clean (key : κ) (s : State κ ν) : Prop where
  uncached : s.cache key = none
  unasked : ∀ i, (∀ askedAt, s.phase i ≠ .missed key askedAt) ∧
    ∀ askedAt value, s.phase i ≠ .fetched key askedAt value

section Fresh
variable {expires : Nat → Nat → Nat} {start : State κ ν} {events : List (Event κ ν)}
  {key : κ} {value : ν} {since bound : Nat}

/-- The source gave this value at some moment of the run, not before `since`. -/
def WasCurrent (expires : Nat → Nat → Nat) (start : State κ ν) (events : List (Event κ ν))
    (key : κ) (value : ν) (since : Nat) : Prop :=
  ∃ done, done <+: events ∧ (runSteps (step expires) done start).source key = value ∧
    since ≤ (runSteps (step expires) done start).now

theorem WasCurrent.later (h : WasCurrent expires start events key value since) (e : Event κ ν) :
    WasCurrent expires start (events ++ [e]) key value since := by
  obtain ⟨done, hdone, hvalue, hsince⟩ := h
  exact ⟨done, hdone.trans (List.prefix_append _ _), hvalue, hsince⟩

theorem WasCurrent.weaken {earlier : Nat} (h : WasCurrent expires start events key value since)
    (hle : earlier ≤ since) : WasCurrent expires start events key value earlier := by
  obtain ⟨done, hdone, hvalue, hsince⟩ := h
  exact ⟨done, hdone, hvalue, Nat.le_trans hle hsince⟩

/-- What a caller knows of its key. -/
def Fits (expires : Nat → Nat → Nat) (start : State κ ν) (events : List (Event κ ν)) (now : Nat)
    (key : κ) : Phase κ ν → Prop
  | .idle => True
  | .missed k askedAt => k = key → askedAt ≤ now
  | .fetched k askedAt value => k = key → WasCurrent expires start events key value askedAt

structure Fresh (expires : Nat → Nat → Nat) (start : State κ ν) (key : κ) (bound : Nat)
    (events : List (Event κ ν)) (s : State κ ν) : Prop where
  cached : ∀ value until_, s.cache key = some (value, until_) →
    WasCurrent expires start events key value (until_ - bound)
  phases : ∀ i, Fits expires start events s.now key (s.phase i)
  answered : ∀ a ∈ s.answers, a ∈ start.answers ∨
    (a.key = key → WasCurrent expires start events key a.value (a.askedAt - bound))

theorem Fits.later {now now' : Nat} {p : Phase κ ν} (h : Fits expires start events now key p)
    (hle : now ≤ now') (e : Event κ ν) : Fits expires start (events ++ [e]) now' key p := by
  cases p with
  | idle => trivial
  | missed k askedAt => exact fun hk => Nat.le_trans (h hk) hle
  | fetched k askedAt value => exact fun hk => (h hk).later e

/-- How long a stored value may be kept, counted from when its call was made. -/
def Bounded (expires : Nat → Nat → Nat) (bound : Nat) : Event κ ν → State κ ν → Prop
  | .store caller, s =>
    match s.phase caller with
    | .fetched _ askedAt _ => expires askedAt s.now ≤ askedAt + bound
    | _ => True
  | _, _ => True

theorem Fresh.of_clean (hclean : Clean key start) : Fresh expires start key bound [] start where
  cached := by
    intro value until_ h
    rw [hclean.uncached] at h
    cases h
  phases := by
    intro i
    obtain ⟨hmissed, hfetched⟩ := hclean.unasked i
    cases hp : start.phase i with
    | idle => trivial
    | missed k askedAt =>
      rintro rfl
      exact absurd hp (hmissed askedAt)
    | fetched k askedAt value =>
      rintro rfl
      exact absurd hp (hfetched askedAt value)
  answered := fun a ha => .inl ha

/-- What a step that answers nothing keeps. -/
theorem Fresh.quiet {s s' : State κ ν} {e : Event κ ν} (h : Fresh expires start key bound events s)
    (hcache : ∀ c, s'.cache key = some c → s.cache key = some c)
    (hphases : ∀ i, Fits expires start (events ++ [e]) s'.now key (s'.phase i))
    (hanswers : s'.answers = s.answers) :
    Fresh expires start key bound (events ++ [e]) s' where
  cached := fun value until_ hc => (h.cached value until_ (hcache _ hc)).later e
  phases := hphases
  answered := by
    rw [hanswers]
    intro a ha
    exact (h.answered a ha).imp_right (fun hk hkey => (hk hkey).later e)

theorem Fresh.step {e : Event κ ν}
    (h : Fresh expires start key bound events (runSteps (step expires) events start))
    (he : Bounded expires bound e (runSteps (step expires) events start)) :
    Fresh expires start key bound (events ++ [e])
      (step expires e (runSteps (TtlCache.step expires) events start)) := by
  have hhere : ∀ k, WasCurrent expires start (events ++ [e]) k
      ((runSteps (TtlCache.step expires) events start).source k)
      (runSteps (TtlCache.step expires) events start).now :=
    fun k => ⟨events, List.prefix_append _ _, rfl, Nat.le_refl _⟩
  generalize runSteps (TtlCache.step expires) events start = s at h he hhere ⊢
  have hphases : ∀ j, Fits expires start (events ++ [e]) s.now key (s.phase j) :=
    fun j => (h.phases j).later (Nat.le_refl _) e
  cases e with
  | ask i k =>
    simp only [TtlCache.step]
    split
    · split
      · next value hlive =>
        refine ⟨fun v u hc => (h.cached v u hc).later _, hphases, ?_⟩
        intro a ha
        rcases List.mem_append.1 ha with ha | ha
        · exact (h.answered a ha).imp_right (fun hk hkey => (hk hkey).later _)
        · right
          obtain rfl := List.mem_singleton.1 ha
          rintro rfl
          obtain ⟨⟨v, u⟩, hc, hv⟩ := Option.bind_eq_some_iff.1 hlive
          dsimp only at hv
          split at hv
          · next hlt =>
            obtain rfl := Option.some.inj hv
            exact ((h.cached v u hc).later _).weaken
              (Nat.sub_le_sub_right (Nat.le_of_lt hlt) bound)
          · cases hv
      · refine h.quiet (fun c hc => hc) ?_ rfl
        exact forall_update (fun j _ => hphases j) (fun _ => Nat.le_refl _)
    · exact h.quiet (fun c hc => hc) hphases rfl
  | fetch i =>
    simp only [TtlCache.step]
    have hi := h.phases i
    split
    · next k askedAt hp =>
      rw [hp] at hi
      refine h.quiet (fun c hc => hc) ?_ rfl
      apply forall_update (fun j _ => hphases j)
      rintro rfl
      exact (hhere k).weaken (hi rfl)
    · exact h.quiet (fun c hc => hc) hphases rfl
  | abort i =>
    simp only [TtlCache.step]
    split
    · exact h.quiet (fun c hc => hc) (forall_update (fun j _ => hphases j) trivial) rfl
    · exact h.quiet (fun c hc => hc) hphases rfl
  | store i =>
    have hi := h.phases i
    simp only [Bounded] at he
    simp only [TtlCache.step]
    split
    · next k askedAt value hp =>
      rw [hp] at hi he
      dsimp only at he
      refine ⟨?_, forall_update (fun j _ => hphases j) trivial, ?_⟩
      · intro v u hc
        by_cases hk : k = key
        · subst hk
          change Function.update s.cache k (some (value, expires askedAt s.now)) k = some (v, u) at hc
          rw [Function.update_self] at hc
          obtain ⟨rfl, rfl⟩ := Prod.mk.inj (Option.some.inj hc)
          exact ((hi rfl).later _).weaken (Nat.sub_le_of_le_add he)
        · change Function.update s.cache k _ key = some (v, u) at hc
          rw [Function.update_of_ne (Ne.symm hk)] at hc
          exact (h.cached v u hc).later _
      · intro a ha
        rcases List.mem_append.1 ha with ha | ha
        · exact (h.answered a ha).imp_right (fun hk hkey => (hk hkey).later _)
        · right
          obtain rfl := List.mem_singleton.1 ha
          exact fun hkey => ((hi hkey).later _).weaken (Nat.sub_le _ _)
    · exact h.quiet (fun c hc => hc) hphases rfl
  | write k value => exact h.quiet (fun c hc => hc) hphases rfl
  | evict k =>
    refine h.quiet ?_ hphases rfl
    intro c hc
    change Function.update s.cache k none key = some c at hc
    by_cases hk : key = k
    · subst hk
      rw [Function.update_self] at hc
      cases hc
    · rwa [Function.update_of_ne hk] at hc
  | tick d =>
    exact h.quiet (fun c hc => hc)
      (fun j => (h.phases j).later (Nat.le_add_right _ _) _) rfl

theorem guarded_append {σ α : Type} {step : α → σ → σ} {guard : α → σ → Prop} {l : List α} {a : α}
    {s : σ} (h : Guarded step guard (l ++ [a]) s) :
    Guarded step guard l s ∧ guard a (runSteps step l s) := by
  induction l generalizing s with
  | nil => exact ⟨trivial, h.1⟩
  | cons b rest ih => exact ⟨⟨h.1, (ih h.2).1⟩, (ih h.2).2⟩

/-- Whatever the callers, writes and evictions in between: from a moment on at which the key is
neither cached nor asked for, every answer is a value that the source gave since then, and not
longer than `bound` before it was asked for. -/
theorem answers_fresh (hclean : Clean key start)
    (hbound : Guarded (step expires) (Bounded expires bound) events start) :
    ∀ a ∈ (runSteps (step expires) events start).answers, a ∈ start.answers ∨
      (a.key = key → WasCurrent expires start events key a.value (a.askedAt - bound)) := by
  have htraced := runSteps_traced (step expires) (s := start)
    (I := fun done s => Guarded (step expires) (Bounded expires bound) done start →
      Fresh expires start key bound done s)
    (fun _ => .of_clean hclean)
    (fun done e ih hguard =>
      (ih (guarded_append hguard).1).step (guarded_append hguard).2) events
  exact (htraced hbound).answered

end Fresh
end TtlCache
end Lib
