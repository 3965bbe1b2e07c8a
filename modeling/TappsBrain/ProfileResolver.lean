import TappsBrain.Lib.TtlCache

namespace TappsBrain.ProfileResolver
open Lib
set_option autoImplicit true
set_option relaxedAutoImplicit false

/-- `(project_id, agent_id)`. -/
abbrev Agent := String × String

/-- What the process-wide resolver is built with; without a DSN there is no getter. -/
structure Resolver where
  hasGetter : Bool
  default : String := "full"
  cacheTtl : Nat := 60

inductive Source where
  | header
  | agentRegistry
  | default
deriving DecidableEq

/-- A resolution that returned, with what it was asked for. -/
structure Resolution where
  agent : Agent
  headerProfile : Option String
  askedAt : Nat
  source : Source
  profile : String
deriving DecidableEq

/-- The resolver, the agent registry behind it, and the requests under way. -/
structure State where
  lookup : TtlCache.State Agent (Option String)
  hits : Nat := 0
  misses : Nat := 0
  invalidations : Nat := 0
  resolutionSources : Source → Nat := fun _ => 0
  resolved : List Resolution := []

inductive Event where
  | resolve (request : Nat) (agent : Agent) (headerProfile : Option String)
  | fetch (request : Nat)
  | raise (request : Nat)
  | store (request : Nat)
  /-- The agent registry changes. -/
  | register (agent : Agent) (profile : Option String)
  | invalidate (agent : Agent)
  | tick (d : Nat)

variable (v : Resolver)

/-- `if registered`: an empty name is none. -/
def choose (registered : Option String) : Source × String :=
  match registered with
  | some name => if name = "" then (.default, v.default) else (.agentRegistry, name)
  | none => (.default, v.default)

/-- The resolution is counted under its source, and returned. -/
def State.finish (s : State) (agent : Agent) (headerProfile : Option String) (askedAt : Nat)
    (found : Source × String) : State :=
  { s with
    resolutionSources :=
      Function.update s.resolutionSources found.1 (s.resolutionSources found.1 + 1)
    resolved := s.resolved ++ [⟨agent, headerProfile, askedAt, found.1, found.2⟩] }

/-- The expiry of an entry counts from before the fetch. -/
def expires (askedAt _now : Nat) : Nat := askedAt + v.cacheTtl

def State.look (s : State) (e : TtlCache.Event Agent (Option String)) : State :=
  { s with lookup := TtlCache.step (expires v) e s.lookup }

def step : Event → State → State
  | .resolve request agent headerProfile, s =>
    match s.lookup.phase request with
    | .idle =>
      match headerProfile with
      | some name => s.finish agent (some name) s.lookup.now (.header, name)
      | none =>
        if v.hasGetter then
          match s.lookup.live agent with
          | some registered =>
            { s.look v (.ask request agent) with hits := s.hits + 1 }.finish agent none s.lookup.now
              (choose v registered)
          | none => { s.look v (.ask request agent) with misses := s.misses + 1 }
        else s.finish agent none s.lookup.now (.default, v.default)
    | _ => s
  | .fetch request, s => s.look v (.fetch request)
  | .raise request, s => s.look v (.abort request)
  | .store request, s =>
    match s.lookup.phase request with
    | .fetched agent askedAt registered =>
      (s.look v (.store request)).finish agent none askedAt (choose v registered)
    | _ => s
  | .register agent profile, s => s.look v (.write agent profile)
  | .invalidate agent, s =>
    { s.look v (.evict agent) with invalidations := s.invalidations + 1 }
  | .tick d, s => s.look v (.tick d)

section Runs
variable {v} {s : State} {agent : Agent}

/-- What an event does to the cache. -/
def Event.toCache (v : Resolver) : Event → Option (TtlCache.Event Agent (Option String))
  | .resolve _ _ (some _) => none
  | .resolve request agent none => if v.hasGetter then some (.ask request agent) else none
  | .fetch request => some (.fetch request)
  | .raise request => some (.abort request)
  | .store request => some (.store request)
  | .register agent profile => some (.write agent profile)
  | .invalidate agent => some (.evict agent)
  | .tick d => some (.tick d)

/-- The lookups of the resolver are a run of the cache. -/
theorem step_lookup (e : Event) (s : State) :
    (step v e s).lookup =
      runSteps (TtlCache.step (expires v)) (e.toCache v).toList s.lookup := by
  cases e with
  | resolve request agent headerProfile =>
    cases headerProfile with
    | some name =>
      simp only [step]
      split <;> rfl
    | none =>
      by_cases hgetter : v.hasGetter = true
      · simp only [step, hgetter, if_true, Event.toCache, Option.toList_some, runSteps]
        cases hp : s.lookup.phase request with
        | idle =>
          cases hlive : s.lookup.live agent with
          | some registered => rfl
          | none => rfl
        | missed k askedAt => simp only [TtlCache.step, hp]
        | fetched k askedAt value => simp only [TtlCache.step, hp]
      · have hno : v.hasGetter = false := Bool.eq_false_iff.2 hgetter
        simp only [step, hno, Bool.false_eq_true, if_false, Event.toCache, Option.toList_none,
          runSteps]
        split <;> rfl
  | store request =>
    simp only [step, Event.toCache, Option.toList_some, runSteps]
    cases hp : s.lookup.phase request with
    | fetched k askedAt value => rfl
    | idle => simp only [TtlCache.step, hp]
    | missed k askedAt => simp only [TtlCache.step, hp]
  | _ => rfl

theorem run_lookup (events : List Event) (s : State) :
    (runSteps (step v) events s).lookup =
      runSteps (TtlCache.step (expires v)) (events.filterMap (Event.toCache v)) s.lookup := by
  induction events generalizing s with
  | nil => rfl
  | cons e rest ih =>
    rw [runSteps, ih, step_lookup, ← runSteps_append]
    congr 1
    cases he : e.toCache v <;> simp only [List.filterMap_cons, he, Option.toList_some,
      Option.toList_none, List.nil_append, List.singleton_append]

/-- What a resolution says, given what the cache answered. -/
def Says (v : Resolver) (answers : List (TtlCache.Answer Agent (Option String)))
    (r : Resolution) : Prop :=
  match r.headerProfile with
  | some name => r.source = .header ∧ r.profile = name
  | none =>
    (∃ a ∈ answers, a.key = r.agent ∧ a.askedAt = r.askedAt ∧
      (r.source, r.profile) = choose v a.value) ∨
    v.hasGetter = false ∧ r.source = .default ∧ r.profile = v.default

theorem Says.more {answers more : List (TtlCache.Answer Agent (Option String))} {r : Resolution}
    (h : Says v answers r) (hmore : ∀ a ∈ answers, a ∈ more) : Says v more r := by
  unfold Says at h ⊢
  split
  · next hh => rwa [hh] at h
  · next hh =>
    rw [hh] at h
    rcases h with ⟨a, ha, hrest⟩ | hno
    · exact .inl ⟨a, hmore a ha, hrest⟩
    · exact .inr hno

/-- The cache never takes an answer back. -/
theorem lookup_answers (e : TtlCache.Event Agent (Option String))
    (c : TtlCache.State Agent (Option String)) :
    ∀ a ∈ c.answers, a ∈ (TtlCache.step (expires v) e c).answers := by
  intro a ha
  cases e with
  | ask i k =>
    simp only [TtlCache.step]
    split
    · split
      · exact List.mem_append_left _ ha
      · exact ha
    · exact ha
  | store i =>
    simp only [TtlCache.step]
    split
    · exact List.mem_append_left _ ha
    · exact ha
  | fetch i | abort i =>
    simp only [TtlCache.step]
    split <;> exact ha
  | write k value | evict k | tick d => exact ha

theorem step_says (e : Event) (h : ∀ r ∈ s.resolved, Says v s.lookup.answers r) :
    ∀ r ∈ (step v e s).resolved, Says v (step v e s).lookup.answers r := by
  have hlook : ∀ e, ∀ r ∈ s.resolved, Says v (TtlCache.step (expires v) e s.lookup).answers r :=
    fun e r hr => (h r hr).more (lookup_answers e s.lookup)
  cases e with
  | resolve request agent headerProfile =>
    simp only [step]
    split
    · next hp =>
      cases headerProfile with
      | some name =>
        intro r hr
        rcases List.mem_append.1 hr with hr | hr
        · exact h r hr
        · obtain rfl := List.mem_singleton.1 hr
          exact ⟨rfl, rfl⟩
      | none =>
        dsimp only
        split
        · split
          · next registered hlive =>
            intro r hr
            rcases List.mem_append.1 hr with hr | hr
            · exact hlook _ r hr
            · obtain rfl := List.mem_singleton.1 hr
              have hanswers : (TtlCache.step (expires v) (.ask request agent) s.lookup).answers =
                  s.lookup.answers ++ [⟨agent, s.lookup.now, registered⟩] := by
                simp only [TtlCache.step, hp, hlive]
              change Says v (TtlCache.step (expires v) (.ask request agent) s.lookup).answers _
              rw [hanswers]
              exact .inl ⟨_, List.mem_append_right _ (List.mem_singleton_self _), rfl, rfl, rfl⟩
          · exact hlook _
        · next hno =>
          intro r hr
          rcases List.mem_append.1 hr with hr | hr
          · exact h r hr
          · obtain rfl := List.mem_singleton.1 hr
            exact .inr ⟨Bool.eq_false_iff.2 hno, rfl, rfl⟩
    · exact h
  | store request =>
    simp only [step]
    split
    · next k askedAt registered hp =>
      intro r hr
      rcases List.mem_append.1 hr with hr | hr
      · exact hlook _ r hr
      · obtain rfl := List.mem_singleton.1 hr
        have hanswers : (TtlCache.step (expires v) (.store request) s.lookup).answers =
            s.lookup.answers ++ [⟨k, askedAt, registered⟩] := by
          simp only [TtlCache.step, hp]
        change Says v (TtlCache.step (expires v) (.store request) s.lookup).answers _
        rw [hanswers]
        exact .inl ⟨_, List.mem_append_right _ (List.mem_singleton_self _), rfl, rfl, rfl⟩
    · exact h
  | fetch request | raise request | register agent profile | invalidate agent | tick d =>
    exact hlook _

/-- The state from which on answers and resolutions are looked at. -/
def State.mark (s : State) : State :=
  { s with lookup := { s.lookup with answers := [] }, resolved := [] }

theorem prefix_of_filterMap {α β : Type} {f : α → Option β} {done : List β} {l : List α}
    (h : done <+: l.filterMap f) : ∃ first, first <+: l ∧ first.filterMap f = done := by
  induction l generalizing done with
  | nil => exact ⟨[], List.prefix_refl _, (List.prefix_nil.1 h).symm⟩
  | cons a rest ih =>
    rw [List.filterMap_cons] at h
    cases ha : f a with
    | none =>
      rw [ha] at h
      obtain ⟨first, hfirst, hmap⟩ := ih h
      exact ⟨a :: first, List.prefix_cons_inj a |>.2 hfirst, by rw [List.filterMap_cons, ha]; exact hmap⟩
    | some b =>
      rw [ha] at h
      cases done with
      | nil => exact ⟨[], List.nil_prefix, rfl⟩
      | cons c done =>
        obtain ⟨rfl, htail⟩ := List.cons_prefix_cons.1 h
        obtain ⟨first, hfirst, hmap⟩ := ih htail
        exact ⟨a :: first, List.prefix_cons_inj a |>.2 hfirst,
          by rw [List.filterMap_cons, ha]; exact congrArg _ hmap⟩

/-- No lookup of the agent is under way. -/
def Unasked (s : State) (agent : Agent) : Prop :=
  ∀ i, (∀ askedAt, s.lookup.phase i ≠ .missed agent askedAt) ∧
    ∀ askedAt registered, s.lookup.phase i ≠ .fetched agent askedAt registered

/-- What a request of the agent after `start` was resolved to: the header decides where there is
one; else it is what the registry gave at some moment since, no longer than the lifetime of an entry
before the request, or the default where that was none. -/
def Resolution.Since (v : Resolver) (start : State) (events : List Event) (r : Resolution) : Prop :=
  (∀ name, r.headerProfile = some name → r.source = .header ∧ r.profile = name) ∧
    (r.headerProfile = none →
      (v.hasGetter = false ∧ r.source = .default ∧ r.profile = v.default) ∨
      ∃ done, done <+: events ∧
        (r.source, r.profile) = choose v
          ((runSteps (step v) done start).lookup.source r.agent) ∧
        r.askedAt ≤ (runSteps (step v) done start).lookup.now + v.cacheTtl)

def ResolvedSince (v : Resolver) (start : State) (agent : Agent) (events : List Event) : Prop :=
  ∀ r ∈ (runSteps (step v) events start).resolved, r.agent = agent → r.Since v start events

/-- From an invalidation on at which no lookup of the agent is under way, whatever requests, registry
writes and invalidations interleave then: every request of the agent is resolved from what the
registry gave since. -/
theorem resolved_since_invalidate (s : State) (agent : Agent) (hquiet : Unasked s agent)
    (events : List Event) :
    ResolvedSince v (step v (.invalidate agent) s).mark agent events := by
  generalize hm : (step v (.invalidate agent) s).mark = m
  have hclean : TtlCache.Clean agent m.lookup := by
    subst hm
    exact ⟨Function.update_self .., hquiet⟩
  have hempty : m.lookup.answers = [] ∧ m.resolved = [] := by
    subst hm
    exact ⟨rfl, rfl⟩
  have hsays : ∀ r ∈ (runSteps (step v) events m).resolved,
      Says v (runSteps (step v) events m).lookup.answers r := by
    apply runSteps_keeps (I := fun (s : State) => ∀ r ∈ s.resolved, Says v s.lookup.answers r)
      (fun e _ s h => step_says e h)
    rw [hempty.2]
    exact fun r hr => absurd hr List.not_mem_nil
  have hbound : ∀ l (c : TtlCache.State Agent (Option String)),
      Guarded (TtlCache.step (expires v)) (TtlCache.Bounded (expires v) v.cacheTtl) l c := by
    intro l
    induction l with
    | nil => exact fun _ => trivial
    | cons e rest ih =>
      intro c
      refine ⟨?_, ih _⟩
      cases e with
      | store i =>
        simp only [TtlCache.Bounded, expires]
        split
        · exact Nat.le_refl _
        · trivial
      | _ => trivial
  have hfresh := TtlCache.answers_fresh hclean (hbound (events.filterMap (Event.toCache v)) m.lookup)
  intro r hr hagent
  have hr' := hsays r hr
  subst hagent
  constructor
  · intro name hname
    rw [Says, hname] at hr'
    exact hr'
  · intro hnone
    rw [Says, hnone] at hr'
    rcases hr' with ⟨a, ha, hkey, hasked, hchoice⟩ | hno
    · right
      rw [run_lookup] at ha
      rcases hfresh a ha with hold | hcurrent
      · rw [hempty.1] at hold
        cases hold
      · obtain ⟨done, hdone, hvalue, hsince⟩ := hcurrent hkey
        obtain ⟨first, hfirst, hmap⟩ := prefix_of_filterMap hdone
        refine ⟨first, hfirst, ?_, ?_⟩
        · rw [run_lookup, hmap, hvalue]
          exact hchoice
        · rw [run_lookup, hmap, ← hasked]
          exact Nat.le_add_of_sub_le hsince
    · exact .inl hno

theorem unasked_start (source : Agent → Option String) (agent : Agent) :
    Unasked { lookup := { source } } agent := by
  intro i
  constructor
  · intro askedAt h
    cases h
  · intro askedAt registered h
    cases h

def reviewer : Agent := ("billing", "reviewer")

/-- The registered profile changes while an entry of it is live, and the entry is evicted. -/
def evictedEntry : List Event :=
  [.resolve 0 reviewer none, .fetch 0, .store 0, .register reviewer (some "coder"), .tick 30,
    .invalidate reviewer, .resolve 1 reviewer none, .fetch 1, .store 1]

theorem resolved_since_invalidate_reviewer :
    ResolvedSince { hasGetter := true }
      (step { hasGetter := true } (.invalidate reviewer)
        { lookup := { source := fun _ => none } }).mark reviewer evictedEntry :=
  resolved_since_invalidate { lookup := { source := fun _ => none } } reviewer
    (unasked_start _ _) evictedEntry

end Runs

end TappsBrain.ProfileResolver
