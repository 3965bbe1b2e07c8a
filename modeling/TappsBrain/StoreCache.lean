import Mathlib.Logic.Function.Basic
import TappsBrain.Lib.Ledger
import TappsBrain.Lib.Run
import TappsBrain.Lines

namespace TappsBrain.StoreCache
open Lib
set_option autoImplicit true
set_option relaxedAutoImplicit false

def isProjectHead (c : Char) : Bool := isSlugHead c

def isProjectTail (c : Char) : Bool := isSlugHead c || c == '_' || c == '-'

/-- What `[a-z0-9][a-z0-9_-]{0,63}` matches as a whole. -/
def projectSlug : List Char → Bool
  | [] => false
  | c :: rest => isProjectHead c && rest.all isProjectTail && rest.length ≤ 63

/-- `_VALID_ID.match`: the `$` of the pattern stands before a final line feed, too. -/
def validProjectId (id : String) : Bool :=
  projectSlug id.toList || id.toList.getLast? == some '\n' && projectSlug id.toList.dropLast

/-- A `MemoryStore`, with the project and agent it is bound to. -/
structure Store where
  id : Nat
  project : String
  agent : Option String
deriving DecidableEq

/-- A call with its arguments, an absent one being empty, and what its factory builds a store
for. -/
structure Wanted where
  projectId : String
  callAgentId : String
  project : String
  agent : String
deriving DecidableEq

/-- What a call got back: the project and agent of the returned store. -/
structure Answer where
  projectId : String
  callAgentId : String
  project : String
  agent : Option String
deriving DecidableEq

def Wanted.answer (w : Wanted) (s : Store) : Answer :=
  ⟨w.projectId, w.callAgentId, s.project, s.agent⟩

def cacheKey (w : Wanted) : String := w.project ++ "\x00" ++ w.agent

structure Entry where
  key : String
  store : Store
deriving DecidableEq

/-- The server as `_get_store_for_project` is called with it. -/
structure Server where
  /-- The project and agent of `default_store`; it has no project of its own if that is empty. -/
  defaultProject : String := ""
  defaultAgent : Option String := none
  defaultProject_stripped : strip defaultProject = defaultProject := by decide
  agentId : String := "unknown"
  strictProjects : Bool := false
  /-- `derive_project_id(Path.cwd())`. -/
  derived : String
  maxsize : Nat := 16

inductive Refusal where
  | notRegistered (project : String)
  | invalidProject (project : String)
deriving DecidableEq

/-- The default store, or the one of the cache. -/
inductive Route where
  | default
  | cached (w : Wanted)
deriving DecidableEq

variable (v : Server)

def storeAgent (agent : String) : Option String := if agent = "unknown" then none else some agent

def Server.effectiveAgentId (callAgentId : String) : String :=
  if callAgentId = "" then v.agentId else callAgentId

def Server.perCallDiffers (callAgentId : String) : Bool :=
  callAgentId ≠ "" && callAgentId ≠ v.agentId

/-- `_get_store_for_project`, up to the call of the cache. -/
def route (projectId callAgentId : String) : Except Refusal Route :=
  if projectId = "" && !v.perCallDiffers callAgentId then
    if v.strictProjects then .error (.notRegistered "default") else .ok .default
  else
    let project := if projectId = "" then v.defaultProject else projectId
    if project ≠ "" && !validProjectId project then .error (.invalidProject project)
    else if !v.perCallDiffers callAgentId && v.defaultProject ≠ "" &&
        project = v.defaultProject &&
        v.defaultAgent = storeAgent (v.effectiveAgentId callAgentId) then
      .ok .default
    else .ok (.cached ⟨projectId, callAgentId, project, v.effectiveAgentId callAgentId⟩)

/-- `TAPPS_BRAIN_PROJECT` as the factory of a call sets it. -/
def handoff (project : String) (env : Option String) : Option String :=
  if project = "" then env else some project

/-- The project that `MemoryStore` reads; `none` when it refuses it. -/
def projectOf (env : Option String) : Option String :=
  let named := strip (env.getD "")
  if named = "" then some v.derived else if validProjectId named then some named else none

/-- Where a call of `get_or_create` or of `clear` is. -/
inductive Phase where
  | idle
  /-- It missed, and waits for `_ENV_FACTORY_LOCK`. -/
  | missed (w : Wanted)
  /-- It holds the lock and has set the variable, whose value was `prev`. -/
  | preparing (w : Wanted) (prev : Option String)
  /-- Its factory has returned a store, or raised. -/
  | leaving (w : Wanted) (prev : Option String) (made : Option Store)
  | holding (w : Wanted) (made : Store)
  /-- It closes what it evicted, and then returns. -/
  | closing (victims : List Store) (answer : Option Answer)

/-- The process: cache, variable and lock, the calls of every thread, and what has been closed
and returned so far. -/
structure System where
  /-- The least recently used entry comes first. -/
  entries : List Entry := []
  env : Option String
  holder : Option Nat := none
  made : Nat := 0
  phase : Nat → Phase := fun _ => .idle
  closed : List Nat := []
  answers : List Answer := []
  refused : List Refusal := []

inductive Event where
  | enter (thread : Nat) (projectId callAgentId : String)
  | prepare (thread : Nat)
  /-- `MemoryStore(…)`, which may raise for reasons of its own. -/
  | construct (thread : Nat) (succeeds : Bool)
  | restore (thread : Nat)
  | publish (thread : Nat)
  | close (thread : Nat)
  | clear (thread : Nat)

def lookup (key : String) (entries : List Entry) : Option Entry :=
  entries.find? (fun e => e.key = key)

/-- `move_to_end`, of an entry that is there. -/
def touch (e : Entry) (entries : List Entry) : List Entry :=
  entries.filter (fun d => d.key ≠ e.key) ++ [e]

/-- `while len(self._entries) > self._maxsize: popitem(last=False)`: the evicted and the kept. -/
def trim (maxsize : Nat) : List Entry → List Entry × List Entry
  | [] => ([], [])
  | e :: rest =>
    if maxsize < (e :: rest).length then
      (e :: (trim maxsize rest).1, (trim maxsize rest).2)
    else ([], e :: rest)

def Server.capacity : Nat := max 1 v.maxsize

def System.goto (s : System) (thread : Nat) (p : Phase) : System :=
  { s with phase := Function.update s.phase thread p }

def step : Event → System → System
  | .enter thread projectId callAgentId, s =>
    match s.phase thread with
    | .idle =>
      match route v projectId callAgentId with
      | .error e => { s with refused := s.refused ++ [e] }
      | .ok .default =>
        { s with
          answers := s.answers ++ [⟨projectId, callAgentId, v.defaultProject, v.defaultAgent⟩] }
      | .ok (.cached w) =>
        match lookup (cacheKey w) s.entries with
        | some e =>
          { s with entries := touch e s.entries, answers := s.answers ++ [w.answer e.store] }
        | none => s.goto thread (.missed w)
    | _ => s
  | .prepare thread, s =>
    match s.phase thread, s.holder with
    | .missed w, none =>
      { s with
        env := handoff w.project s.env
        holder := some thread
        phase := Function.update s.phase thread (.preparing w s.env) }
    | _, _ => s
  | .construct thread succeeds, s =>
    match s.phase thread with
    | .preparing w prev =>
      match projectOf v s.env, succeeds with
      | some project, true =>
        { s with
          made := s.made + 1
          phase := Function.update s.phase thread
            (.leaving w prev (some ⟨s.made, project, storeAgent w.agent⟩)) }
      | _, _ => s.goto thread (.leaving w prev none)
    | _ => s
  | .restore thread, s =>
    match s.phase thread with
    | .leaving w prev made =>
      { s with
        env := prev
        holder := none
        phase := Function.update s.phase thread
          (match made with
            | some store => .holding w store
            | none => .idle) }
    | _ => s
  | .publish thread, s =>
    match s.phase thread with
    | .holding w store =>
      match lookup (cacheKey w) s.entries with
      | some e =>
        { s with
          entries := touch e s.entries
          phase := Function.update s.phase thread (.closing [store] (some (w.answer e.store))) }
      | none =>
        let parts := trim v.capacity (s.entries ++ [⟨cacheKey w, store⟩])
        { s with
          entries := parts.2
          phase := Function.update s.phase thread
            (.closing (parts.1.map Entry.store) (some (w.answer store))) }
    | _ => s
  | .close thread, s =>
    match s.phase thread with
    | .closing (victim :: rest) answer =>
      { s with
        closed := s.closed ++ [victim.id]
        phase := Function.update s.phase thread (.closing rest answer) }
    | .closing [] answer =>
      { s with
        answers := s.answers ++ answer.toList
        phase := Function.update s.phase thread .idle }
    | _ => s
  | .clear thread, s =>
    match s.phase thread with
    | .idle =>
      { s with
        entries := []
        phase := Function.update s.phase thread (.closing (s.entries.map Entry.store) none) }
    | _ => s

section Slugs

theorem isSpace_of_projectTail {c : Char} (h : isProjectTail c = true) :
    isSpace c = false ∧ c ≠ '\x00' := by
  simp only [isProjectTail, isSlugHead, Bool.or_eq_true, Bool.and_eq_true, decide_eq_true_eq,
    beq_iff_eq] at h
  have hn : c.toNat = 95 ∨ c.toNat = 45 ∨ (97 ≤ c.toNat ∧ c.toNat ≤ 122) ∨
      (48 ≤ c.toNat ∧ c.toNat ≤ 57) := by
    rcases h with ((h | h) | rfl) | rfl
    · exact .inr (.inr (.inl h))
    · exact .inr (.inr (.inr h))
    · exact .inl rfl
    · exact .inr (.inl rfl)
  constructor
  · simp only [isSpace, Bool.or_eq_false_iff, Bool.and_eq_false_iff, decide_eq_false_iff_not,
      beq_eq_false_iff_ne, ne_eq]
    omega
  · rintro rfl
    revert hn
    decide

theorem projectSlug_tail {cs : List Char} (h : projectSlug cs = true) :
    cs ≠ [] ∧ ∀ c ∈ cs, isProjectTail c = true := by
  cases cs with
  | nil => cases h
  | cons c rest =>
    simp only [projectSlug, Bool.and_eq_true, List.all_eq_true] at h
    refine ⟨List.cons_ne_nil c rest, ?_⟩
    intro d hd
    rcases List.mem_cons.1 hd with rfl | hd
    · rw [isProjectTail, show isSlugHead d = true from h.1.1]
      rfl
    · exact h.1.2 d hd

/-- A valid id is a slug, but for a line feed that a reader strips. -/
theorem validProjectId_spec {id : String} (h : validProjectId id = true) :
    ∃ cs, projectSlug cs = true ∧ stripChars id.toList = cs ∧ '\x00' ∉ id.toList := by
  have hplain : ∀ cs, projectSlug cs = true → stripChars cs = cs := by
    intro cs hcs
    obtain ⟨before, after, hbefore, hafter, heq⟩ := stripChars_spec cs
    have hink : ∀ c ∈ cs, isSpace c = false := fun c hc =>
      (isSpace_of_projectTail ((projectSlug_tail hcs).2 c hc)).1
    have hnone : ∀ l : List Char, (∀ c ∈ l, c ∈ cs) → (∀ c ∈ l, isSpace c = true) → l = [] := by
      intro l hmem hspace
      apply List.eq_nil_iff_forall_not_mem.2
      intro c hc
      have := hspace c hc
      rw [hink c (hmem c hc)] at this
      cases this
    have hb := hnone before (by intro c hc; rw [heq]; simp only [List.mem_append, hc, true_or]) hbefore
    have ha := hnone after (by intro c hc; rw [heq]; simp only [List.mem_append, hc, or_true]) hafter
    rw [hb, ha, List.nil_append, List.append_nil] at heq
    exact heq.symm
  have hnul : ∀ cs, projectSlug cs = true → '\x00' ∉ cs := fun cs hcs hmem =>
    (isSpace_of_projectTail ((projectSlug_tail hcs).2 _ hmem)).2 rfl
  unfold validProjectId at h
  rcases Bool.or_eq_true_iff.1 h with h | h
  · exact ⟨id.toList, h, hplain _ h, hnul _ h⟩
  · obtain ⟨hlast, hslug⟩ := Bool.and_eq_true_iff.1 h
    have heq : id.toList = id.toList.dropLast ++ ['\n'] := by
      rw [beq_iff_eq] at hlast
      exact (List.dropLast_append_getLast? _ hlast).symm
    refine ⟨id.toList.dropLast, hslug, ?_, ?_⟩
    · rw [heq, List.dropLast_concat]
      have hnewline : ∀ c ∈ ['\n'], isSpace c = true := by
        intro c hc
        rw [List.mem_singleton.1 hc]
        rfl
      have hpad := @stripChars_padded [] ['\n'] (fun c hc => absurd hc List.not_mem_nil) hnewline
        id.toList.dropLast
      rw [List.nil_append] at hpad
      rw [hpad, hplain _ hslug]
    · rw [heq]
      intro hmem
      rcases List.mem_append.1 hmem with hmem | hmem
      · exact hnul _ hslug hmem
      · exact absurd hmem (by decide)

/-- The store that is built under a valid id is bound to it. -/
theorem projectOf_valid {id : String} (h : validProjectId id = true) :
    projectOf v (some id) = some (strip id) := by
  obtain ⟨cs, hslug, hstrip, -⟩ := validProjectId_spec h
  have hs : strip id = String.ofList cs := by rw [strip, hstrip]
  have hne : strip id ≠ "" := by
    rw [hs]
    intro heq
    have := congrArg String.toList heq
    rw [String.toList_ofList] at this
    exact (projectSlug_tail hslug).1 this
  have hvalid : validProjectId (strip id) = true := by
    rw [hs, validProjectId, String.toList_ofList, hslug, Bool.true_or]
  simp only [projectOf, Option.getD_some, hne, if_false, hvalid, if_true]

end Slugs
section Keys

/-- A call whose project cannot be mistaken for another one in a cache key. -/
def Wanted.Clean (w : Wanted) : Prop := '\x00' ∉ w.project.toList

theorem takeWhile_before {p : List Char} (h : '\x00' ∉ p) (a : List Char) :
    (p ++ '\x00' :: a).takeWhile (· ≠ '\x00') = p := by
  rw [List.takeWhile_append_of_pos]
  · rw [List.takeWhile_cons_of_neg (by decide), List.append_nil]
  · intro c hc
    rw [decide_eq_true_eq]
    rintro rfl
    exact h hc

theorem cacheKey_toList (w : Wanted) :
    (cacheKey w).toList = w.project.toList ++ '\x00' :: w.agent.toList := by
  rw [cacheKey, String.toList_append, String.toList_append, List.append_assoc]
  rfl

theorem cacheKey_inj {w w' : Wanted} (h : w.Clean) (h' : w'.Clean)
    (heq : cacheKey w = cacheKey w') : w.project = w'.project ∧ w.agent = w'.agent := by
  have hlist := congrArg String.toList heq
  rw [cacheKey_toList, cacheKey_toList] at hlist
  have hproject : w.project.toList = w'.project.toList := by
    rw [← takeWhile_before h w.agent.toList, hlist, takeWhile_before h']
  rw [hproject] at hlist
  exact ⟨String.toList_inj.1 hproject,
    String.toList_inj.1 (List.cons.inj (List.append_cancel_left hlist)).2⟩

end Keys

section Tenants
variable {v : Server} {env₀ env env' : Option String} {s : System} {w w' : Wanted} {m : Store}
  {thread : Nat} {p : Phase} {holder holder' : Option Nat}

/-- A call as `_get_store_for_project` lets it through. -/
def Routed (v : Server) (w : Wanted) : Prop :=
  route v w.projectId w.callAgentId = .ok (.cached w)

/-- The store is the one that the factory of the call is asked for, in the environment `env₀`. -/
structure Bound (v : Server) (env₀ : Option String) (w : Wanted) (m : Store) : Prop where
  project : projectOf v (handoff w.project env₀) = some m.project
  agent : m.agent = storeAgent w.agent

/-- A call gets a store of the project and of the agent it names. One that names no project gets
a store of the server's own. -/
structure Answer.Right (v : Server) (env₀ : Option String) (a : Answer) : Prop where
  project : a.projectId ≠ "" → strip a.projectId = a.projectId → a.project = a.projectId
  agent : a.projectId ≠ "" ∨ v.perCallDiffers a.callAgentId = true →
    a.agent = storeAgent (v.effectiveAgentId a.callAgentId)
  own : a.projectId = "" → a.project = v.defaultProject ∨
    v.defaultProject = "" ∧ projectOf v env₀ = some a.project

theorem route_cached {projectId callAgentId : String}
    (h : route v projectId callAgentId = .ok (.cached w)) :
    w.projectId = projectId ∧ w.callAgentId = callAgentId ∧
      w.project = (if projectId = "" then v.defaultProject else projectId) ∧
      w.agent = v.effectiveAgentId callAgentId ∧
      (w.project = "" ∨ validProjectId w.project = true) := by
  unfold route at h
  generalize (if projectId = "" then v.defaultProject else projectId) = project at h ⊢
  split at h
  · split at h <;> cases h
  · dsimp only at h
    split at h
    · cases h
    · next hvalid =>
      split at h
      · cases h
      · cases h
        refine ⟨rfl, rfl, rfl, rfl, ?_⟩
        simp only [Bool.and_eq_true, decide_eq_true_eq, Bool.not_eq_true', not_and,
          Bool.not_eq_false] at hvalid
        by_cases he : project = ""
        · exact .inl he
        · exact .inr (hvalid he)

/-- The default store is right wherever the cache is passed by. -/
theorem route_default {projectId callAgentId : String}
    (h : route v projectId callAgentId = .ok .default) :
    Answer.Right v env₀ ⟨projectId, callAgentId, v.defaultProject, v.defaultAgent⟩ := by
  unfold route at h
  generalize hnamed : (if projectId = "" then v.defaultProject else projectId) = project at h
  split at h
  · next hown =>
    simp only [Bool.and_eq_true, decide_eq_true_eq, Bool.not_eq_true'] at hown
    obtain ⟨hid, hdiffers⟩ := hown
    refine ⟨fun hne => absurd hid hne, ?_, fun _ => .inl rfl⟩
    rintro (hne | hcall)
    · exact absurd hid hne
    · rw [hdiffers] at hcall
      cases hcall
  · next hother =>
    dsimp only at h
    split at h
    · cases h
    · split at h
      · next hsame =>
        simp only [Bool.and_eq_true, decide_eq_true_eq, Bool.not_eq_true'] at hsame
        obtain ⟨⟨⟨hdiffers, -⟩, hproject⟩, hagent⟩ := hsame
        have hid : projectId ≠ "" := by
          rintro rfl
          simp only [hdiffers, decide_true, Bool.not_false, Bool.and_self, not_true_eq_false]
            at hother
        rw [if_neg hid] at hnamed
        exact ⟨fun _ _ => (hnamed.trans hproject).symm, fun _ => hagent, fun he => absurd he hid⟩
      · cases h

theorem Routed.clean (h : Routed v w) : w.Clean := by
  obtain ⟨-, -, -, -, he | hvalid⟩ := route_cached h
  · rw [Wanted.Clean, he]
    decide
  · obtain ⟨-, -, -, hnul⟩ := validProjectId_spec hvalid
    exact hnul

theorem Bound.of_key (h : Bound v env₀ w' m) (hw : Routed v w) (hw' : Routed v w')
    (heq : cacheKey w' = cacheKey w) : Bound v env₀ w m := by
  obtain ⟨hproject, hagent⟩ := cacheKey_inj hw'.clean hw.clean heq
  exact ⟨hproject ▸ h.project, hagent ▸ h.agent⟩

theorem Bound.right (h : Bound v env₀ w m) (hw : Routed v w) :
    (w.answer m).Right v env₀ := by
  obtain ⟨-, -, hproject, hagent, hvalid⟩ := route_cached hw
  have hnamed : w.project ≠ "" → m.project = strip w.project := by
    intro hne
    have hbound := h.project
    rw [handoff, if_neg hne, projectOf_valid v (hvalid.resolve_left hne)] at hbound
    exact (Option.some.inj hbound).symm
  constructor
  · intro (hne : w.projectId ≠ "") hstrip
    change m.project = w.projectId
    rw [if_neg hne] at hproject
    rw [hnamed (hproject ▸ hne), hproject]
    exact hstrip
  · intro _
    change m.agent = _
    rw [h.agent, hagent]
    rfl
  · intro (he : w.projectId = "")
    rw [if_pos he] at hproject
    by_cases hdefault : v.defaultProject = ""
    · right
      have hbound := h.project
      rw [handoff, if_pos (hproject.trans hdefault)] at hbound
      exact ⟨hdefault, hbound⟩
    · left
      change m.project = _
      rw [hnamed (hproject ▸ hdefault), hproject, v.defaultProject_stripped]

/-- What holds of a call, given the lock and the variable. -/
def PhaseOk (v : Server) (env₀ : Option String) (holder : Option Nat) (env : Option String)
    (thread : Nat) : Phase → Prop
  | .idle => True
  | .missed w => Routed v w
  | .preparing w prev =>
    Routed v w ∧ holder = some thread ∧ prev = env₀ ∧ env = handoff w.project env₀
  | .leaving w prev made =>
    Routed v w ∧ holder = some thread ∧ prev = env₀ ∧ ∀ m ∈ made, Bound v env₀ w m
  | .holding w made => Routed v w ∧ Bound v env₀ w made
  | .closing _ answer => ∀ a ∈ answer, a.Right v env₀

/-- A call that does not hold the lock does not depend on the variable. -/
theorem PhaseOk.other (h : PhaseOk v env₀ holder env thread p) (hne : holder ≠ some thread) :
    PhaseOk v env₀ holder' env' thread p := by
  cases p with
  | preparing w prev => exact absurd h.2.1 hne
  | leaving w prev made => exact absurd h.2.1 hne
  | idle => trivial
  | missed w => exact h
  | holding w made => exact h
  | closing victims answer => exact h

/-- The factories run one at a time, each with its own project in the variable. -/
structure Apart (v : Server) (env₀ : Option String) (s : System) : Prop where
  env : s.holder = none → s.env = env₀
  phases : ∀ t, PhaseOk v env₀ s.holder s.env t (s.phase t)
  entries : ∀ e ∈ s.entries, ∃ w, Routed v w ∧ e.key = cacheKey w ∧ Bound v env₀ w e.store
  answers : ∀ a ∈ s.answers, a.Right v env₀

theorem apart_start (v : Server) (env₀ : Option String) : Apart v env₀ { env := env₀ } where
  env := fun _ => rfl
  phases := fun _ => trivial
  entries := fun _ h => absurd h List.not_mem_nil
  answers := fun _ h => absurd h List.not_mem_nil

theorem phases_update {phase : Nat → Phase} (h : ∀ t, PhaseOk v env₀ holder env t (phase t))
    (hp : PhaseOk v env₀ holder' env' thread p)
    (hrest : ∀ t, t ≠ thread → PhaseOk v env₀ holder env t (phase t) →
      PhaseOk v env₀ holder' env' t (phase t)) (t : Nat) :
    PhaseOk v env₀ holder' env' t (Function.update phase thread p t) := by
  by_cases ht : t = thread
  · subst ht
    rwa [Function.update_self]
  · rw [Function.update_of_ne ht]
    exact hrest t ht (h t)

theorem Apart.goto (h : Apart v env₀ s) (hp : PhaseOk v env₀ s.holder s.env thread p) :
    Apart v env₀ (s.goto thread p) :=
  ⟨h.env, phases_update h.phases hp (fun _ _ => id), h.entries, h.answers⟩

theorem lookup_some {key : String} {entries : List Entry} {e : Entry}
    (h : lookup key entries = some e) : e ∈ entries ∧ e.key = key :=
  ⟨List.mem_of_find?_eq_some h, by simpa only [decide_eq_true_eq] using List.find?_some h⟩

theorem mem_touch {e d : Entry} {entries : List Entry} (h : d ∈ touch e entries)
    (he : e ∈ entries) : d ∈ entries := by
  rcases List.mem_append.1 h with h | h
  · exact (List.mem_filter.1 h).1
  · rwa [List.mem_singleton.1 h]

theorem trim_append (n : Nat) (l : List Entry) : (trim n l).1 ++ (trim n l).2 = l := by
  induction l with
  | nil => rfl
  | cons e rest ih =>
    rw [trim]
    split
    · rw [List.cons_append, ih]
    · rfl

theorem trim_length (n : Nat) (l : List Entry) : (trim n l).2.length ≤ n := by
  induction l with
  | nil => exact Nat.zero_le n
  | cons e rest ih =>
    rw [trim]
    split
    · exact ih
    · next h => exact Nat.le_of_not_lt h

theorem mem_of_mem_trim {n : Nat} {l : List Entry} {e : Entry} (h : e ∈ (trim n l).2) : e ∈ l := by
  rw [← trim_append n l]
  exact List.mem_append_right _ h

/-- The store of a cached entry is right for every call with its key. -/
theorem Apart.bound (h : Apart v env₀ s) {e : Entry} (hw : Routed v w)
    (hfound : lookup (cacheKey w) s.entries = some e) : Bound v env₀ w e.store := by
  obtain ⟨hmem, hkey⟩ := lookup_some hfound
  obtain ⟨w', hw', hkey', hbound⟩ := h.entries e hmem
  exact hbound.of_key hw hw' (hkey'.symm.trans hkey)

theorem Apart.step (h : Apart v env₀ s) (e : Event) : Apart v env₀ (StoreCache.step v e s) := by
  cases e with
  | enter thread projectId callAgentId =>
    rw [StoreCache.step]
    split
    · split
      · exact ⟨h.env, h.phases, h.entries, h.answers⟩
      · next hroute =>
        refine ⟨h.env, h.phases, h.entries, ?_⟩
        intro a ha
        rcases List.mem_append.1 ha with ha | ha
        · exact h.answers a ha
        · rw [List.mem_singleton.1 ha]
          exact route_default hroute
      · next w hroute =>
        have hw : Routed v w := by
          obtain ⟨hid, hcall, -⟩ := route_cached hroute
          rwa [Routed, hid, hcall]
        split
        · next e hfound =>
          refine ⟨h.env, h.phases, ?_, ?_⟩
          · intro d hd
            exact h.entries d (mem_touch hd (lookup_some hfound).1)
          · intro a ha
            rcases List.mem_append.1 ha with ha | ha
            · exact h.answers a ha
            · rw [List.mem_singleton.1 ha]
              exact (h.bound hw hfound).right hw
        · exact h.goto hw
    · exact h
  | prepare thread =>
    rw [StoreCache.step]
    split
    · next w hphase hholder =>
      have hp := h.phases thread
      rw [hphase] at hp
      refine ⟨fun hnone => (nomatch hnone), ?_, h.entries, h.answers⟩
      apply phases_update h.phases
      · exact ⟨hp, rfl, h.env hholder, by rw [h.env hholder]⟩
      · intro t _ hok
        apply hok.other
        rw [hholder]
        exact fun heq => nomatch heq
    · exact h
  | construct thread succeeds =>
    rw [StoreCache.step]
    split
    · next w prev hphase =>
      have hp := h.phases thread
      rw [hphase] at hp
      obtain ⟨hw, hholder, hprev, henv⟩ := hp
      split
      · next project hproject =>
        refine ⟨h.env, ?_, h.entries, h.answers⟩
        refine phases_update h.phases ⟨hw, hholder, hprev, ?_⟩ (fun _ _ => id)
        intro m hm
        cases hm
        exact ⟨henv ▸ hproject, rfl⟩
      · exact h.goto ⟨hw, hholder, hprev, fun m hm => (nomatch hm)⟩
    · exact h
  | restore thread =>
    rw [StoreCache.step]
    split
    · next w prev made hphase =>
      have hp := h.phases thread
      rw [hphase] at hp
      obtain ⟨hw, hholder, hprev, hmade⟩ := hp
      refine ⟨fun _ => hprev, ?_, h.entries, h.answers⟩
      apply phases_update h.phases
      · cases made with
        | none => trivial
        | some m => exact ⟨hw, hmade m rfl⟩
      · intro t ht hok
        apply hok.other
        rw [hholder]
        exact fun heq => ht (Option.some.inj heq).symm
    · exact h
  | publish thread =>
    rw [StoreCache.step]
    split
    · next w m hphase =>
      have hp := h.phases thread
      rw [hphase] at hp
      obtain ⟨hw, hbound⟩ := hp
      split
      · next e hfound =>
        refine ⟨h.env, ?_, ?_, h.answers⟩
        · refine phases_update h.phases ?_ (fun _ _ => id)
          intro a ha
          cases ha
          exact (h.bound hw hfound).right hw
        · intro d hd
          exact h.entries d (mem_touch hd (lookup_some hfound).1)
      · refine ⟨h.env, ?_, ?_, h.answers⟩
        · refine phases_update h.phases ?_ (fun _ _ => id)
          intro a ha
          cases ha
          exact hbound.right hw
        · intro d hd
          rcases List.mem_append.1 (mem_of_mem_trim hd) with hd | hd
          · exact h.entries d hd
          · rw [List.mem_singleton.1 hd]
            exact ⟨w, hw, rfl, hbound⟩
    · exact h
  | close thread =>
    rw [StoreCache.step]
    split
    · next victim rest answer hphase =>
      have hp := h.phases thread
      rw [hphase] at hp
      exact ⟨h.env, phases_update h.phases hp (fun _ _ => id), h.entries, h.answers⟩
    · next answer hphase =>
      have hp := h.phases thread
      rw [hphase] at hp
      refine ⟨h.env, phases_update h.phases trivial (fun _ _ => id), h.entries, ?_⟩
      intro a ha
      rcases List.mem_append.1 ha with ha | ha
      · exact h.answers a ha
      · exact hp a (Option.mem_toList.1 ha)
    · exact h
  | clear thread =>
    rw [StoreCache.step]
    split
    · refine ⟨h.env, ?_, fun d hd => (nomatch hd), h.answers⟩
      exact phases_update h.phases (fun a ha => (nomatch ha)) (fun _ _ => id)
    · exact h

/-- Whatever the calls of any number of threads do in between, every call gets a store of its own
project and agent, and the variable is left as it was. -/
theorem tenants_apart (v : Server) (env₀ : Option String) (events : List Event) :
    (∀ a ∈ (runSteps (StoreCache.step v) events { env := env₀ }).answers, a.Right v env₀) ∧
      ((runSteps (StoreCache.step v) events { env := env₀ }).holder = none →
        (runSteps (StoreCache.step v) events { env := env₀ }).env = env₀) := by
  have hapart : Apart v env₀ (runSteps (StoreCache.step v) events { env := env₀ }) :=
    runSteps_keeps (fun e _ _ h => h.step e) (apart_start v env₀)
  exact ⟨hapart.answers, hapart.env⟩

end Tenants

/-- Where a store that was made can be. -/
inductive Place where
  | cached
  | hands (thread : Nat)
  | victims (thread : Nat)
  | closed
deriving DecidableEq

def Phase.hands : Phase → List Nat
  | .leaving _ _ (some made) => [made.id]
  | .holding _ made => [made.id]
  | _ => []

def Phase.victims : Phase → List Nat
  | .closing victims _ => victims.map Store.id
  | _ => []

def System.held (s : System) : Place → List Nat
  | .cached => s.entries.map (fun e => e.store.id)
  | .hands thread => (s.phase thread).hands
  | .victims thread => (s.phase thread).victims
  | .closed => s.closed

section Economy
variable {v : Server} {s : System} {e : Entry} {entries : List Entry} {thread : Nat} {p : Phase}

/-- The cache is no larger than it may be, and every store is in one place. -/
structure Economical (v : Server) (s : System) : Prop where
  bounded : s.entries.length ≤ v.capacity
  keys : (s.entries.map Entry.key).Nodup
  accounted : Accounted s.made s.held

theorem touch_perm (he : e ∈ entries) (hkeys : (entries.map Entry.key).Nodup) :
    (touch e entries).Perm entries := by
  have hnodup : entries.Nodup := List.Nodup.of_map _ hkeys
  have hfilter : entries.filter (fun d => d.key ≠ e.key) = entries.erase e := by
    rw [hnodup.erase_eq_filter]
    apply List.filter_congr
    intro d hd
    apply Bool.eq_iff_iff.2
    rw [decide_eq_true_eq, bne_iff_ne]
    constructor
    · rintro hne rfl
      exact hne rfl
    · intro hne hkey
      exact hne (List.inj_on_of_nodup_map hkeys hd he hkey)
  rw [touch, hfilter]
  apply (List.perm_append_singleton e _).trans
  exact (List.perm_cons_erase he).symm

theorem held_hands (s' : System) (hphase : s'.phase = Function.update s.phase thread p) (t : Nat) :
    s'.held (.hands t) = if t = thread then p.hands else s.held (.hands t) := by
  simp only [System.held, hphase, Function.update_apply]
  split <;> rfl

theorem held_victims (s' : System) (hphase : s'.phase = Function.update s.phase thread p)
    (t : Nat) :
    s'.held (.victims t) = if t = thread then p.victims else s.held (.victims t) := by
  simp only [System.held, hphase, Function.update_apply]
  split <;> rfl

/-- A step that changes neither what a call holds nor what it has to close. -/
theorem held_update (hhands : p.hands = (s.phase thread).hands)
    (hvictims : p.victims = (s.phase thread).victims) (q : Place) :
    (s.goto thread p).held q = s.held q := by
  cases q with
  | cached => rfl
  | closed => rfl
  | hands t =>
    rw [held_hands _ rfl, hhands]
    split
    · next ht => rw [ht]; rfl
    · rfl
  | victims t =>
    rw [held_victims _ rfl, hvictims]
    split
    · next ht => rw [ht]; rfl
    · rfl

theorem Economical.goto (h : Economical v s) (hhands : p.hands = (s.phase thread).hands)
    (hvictims : p.victims = (s.phase thread).victims) : Economical v (s.goto thread p) :=
  ⟨h.bounded, h.keys, h.accounted.same (held_update hhands hvictims)⟩

/-- A hit moves an entry to the end, and nothing else. -/
theorem Economical.touched (h : Economical v s) {key : String}
    (hfound : lookup key s.entries = some e) : Economical v { s with entries := touch e s.entries } := by
  have hperm := touch_perm (lookup_some hfound).1 h.keys
  refine ⟨?_, ?_, ?_⟩
  · rw [hperm.length_eq]
    exact h.bounded
  · exact (hperm.map Entry.key).nodup_iff.2 h.keys
  · have hheld : ∀ q, (System.held { s with entries := touch e s.entries } q).Perm (s.held q) := by
      intro q
      cases q with
      | cached => exact hperm.map _
      | hands t => exact List.Perm.refl _
      | victims t => exact List.Perm.refl _
      | closed => exact List.Perm.refl _
    apply h.accounted.move (fun _ q => q)
    · intro id q
      rw [(hheld q).mem_iff]
      exact ⟨fun hid => ⟨q, hid, rfl⟩, fun ⟨_, hid, heq⟩ => heq ▸ hid⟩
    · intro q
      exact (hheld q).nodup_iff.2 (h.accounted.once q)

theorem held_elsewhere (s' : System) (hphase : s'.phase = Function.update s.phase thread p)
    (hentries : s'.entries = s.entries) (hclosed : s'.closed = s.closed) {q : Place}
    (hhands : q ≠ .hands thread) (hvictims : q ≠ .victims thread) : s'.held q = s.held q := by
  cases q with
  | cached => rw [System.held, System.held, hentries]
  | closed => rw [System.held, System.held, hclosed]
  | hands t => rw [held_hands _ hphase, if_neg (fun ht => hhands (by rw [ht]))]
  | victims t => rw [held_victims _ hphase, if_neg (fun ht => hvictims (by rw [ht]))]

/-- Stores leave a place for what a call has to close, where nothing was. -/
theorem Accounted.toVictims (h : Accounted s.made s.held) {s' : System} (src : Place)
    (l : List Store) {answer : Option Answer} (hempty : (s.phase thread).victims = [])
    (hne : src ≠ .victims thread)
    (hphase : s'.phase = Function.update s.phase thread (.closing l answer))
    (hsrc : (s.held src).Perm (l.map Store.id ++ s'.held src))
    (hrest : ∀ q, q ≠ src → q ≠ .victims thread → s'.held q = s.held q) :
    Accounted s.made s'.held := by
  apply h.transfer src (.victims thread) (l.map Store.id) hne hsrc
  · rw [held_victims _ hphase, if_pos rfl]
    have hheld : s.held (.victims thread) = [] := hempty
    rw [hheld, List.nil_append]
    exact List.Perm.refl _
  · exact hrest

theorem lookup_none {key : String} (h : lookup key entries = none) : key ∉ entries.map Entry.key := by
  intro hmem
  obtain ⟨e, he, hkey⟩ := List.mem_map.1 hmem
  have := List.find?_eq_none.1 h e he
  simp only [hkey, decide_true, not_true_eq_false] at this

theorem Economical.discard (h : Economical v s) {m : Store}
    (hhands : (s.phase thread).hands = [m.id]) (hvictims : (s.phase thread).victims = [])
    (answer : Option Answer) : Economical v (s.goto thread (.closing [m] answer)) := by
  refine ⟨h.bounded, h.keys, ?_⟩
  apply Accounted.toVictims h.accounted (.hands thread) [m] hvictims (fun heq => nomatch heq) rfl
  · rw [held_hands (s.goto thread _) rfl, if_pos rfl]
    change ((s.phase thread).hands).Perm ([m.id] ++ [])
    rw [hhands]
    exact List.Perm.refl _
  · intro q hq hq'
    exact held_elsewhere (s.goto thread _) rfl rfl rfl hq hq'

theorem Economical.publish (h : Economical v s) (thread : Nat) :
    Economical v (StoreCache.step v (.publish thread) s) := by
  rw [StoreCache.step]
  split
  · next w m hphase =>
    have hhands : (s.phase thread).hands = [m.id] := by rw [hphase]; rfl
    have hvictims : (s.phase thread).victims = [] := by rw [hphase]; rfl
    split
    · next e hfound =>
      exact Economical.discard (h.touched hfound) hhands hvictims (some (w.answer e.store))
    · next hnew =>
      let grown := s.entries ++ [⟨cacheKey w, m⟩]
      let s₁ : System := { s with
        entries := grown, phase := Function.update s.phase thread (.closing [] none) }
      have hjoined : Accounted s₁.made s₁.held := by
        refine h.accounted.transfer (.hands thread) .cached [m.id] (fun heq => nomatch heq) ?_ ?_ ?_
        · rw [held_hands s₁ rfl, if_pos rfl]
          change ((s.phase thread).hands).Perm ([m.id] ++ [])
          rw [hhands]
          exact List.Perm.refl _
        · change (grown.map (fun e => e.store.id)).Perm _
          rw [List.map_append]
          exact List.Perm.refl _
        · intro q hq hcached
          cases q with
          | cached => exact absurd rfl hcached
          | closed => rfl
          | hands t => rw [held_hands s₁ rfl, if_neg (fun ht => hq (by rw [ht]))]
          | victims t =>
            rw [held_victims s₁ rfl]
            split
            · next ht =>
              rw [ht]
              exact hvictims.symm
            · rfl
      have hparts := trim_append v.capacity grown
      have hkeys : (grown.map Entry.key).Nodup := by
        rw [List.map_append]
        apply List.nodup_append.2
        refine ⟨h.keys, List.nodup_singleton _, ?_⟩
        rintro a ha b hb rfl
        rw [List.map_singleton, List.mem_singleton] at hb
        have hkey : a = cacheKey w := hb
        exact lookup_none hnew (hkey ▸ ha)
      refine ⟨trim_length _ _, ?_, ?_⟩
      · rw [← hparts, List.map_append] at hkeys
        exact (List.nodup_append.1 hkeys).2.1
      · refine Accounted.toVictims hjoined .cached ((trim v.capacity grown).1.map Entry.store) ?_
          (fun heq => nomatch heq) (Function.update_idem _ _ _).symm ?_ ?_
        · change (Function.update s.phase thread (.closing [] none) thread).victims = []
          rw [Function.update_self]
          rfl
        · have hids : grown.map (fun e => e.store.id) =
              (trim v.capacity grown).1.map (fun e => e.store.id) ++
                (trim v.capacity grown).2.map (fun e => e.store.id) := by
            rw [← List.map_append, hparts]
          change (grown.map (fun e => e.store.id)).Perm _
          rw [hids, List.map_map]
          exact List.Perm.refl _
        · intro q hq hq'
          cases q with
          | cached => exact absurd rfl hq
          | closed => rfl
          | hands t =>
            rw [held_hands s₁ rfl, held_hands _ rfl]
            rfl
          | victims t =>
            have ht : t ≠ thread := fun ht => hq' (by rw [ht])
            rw [held_victims s₁ rfl, if_neg ht, held_victims _ rfl, if_neg ht]
  · exact h

theorem Economical.step (h : Economical v s) (e : Event) : Economical v (StoreCache.step v e s) := by
  cases e with
  | enter thread projectId callAgentId =>
    rw [StoreCache.step]
    split
    · next hphase =>
      split
      · exact ⟨h.bounded, h.keys, h.accounted⟩
      · exact ⟨h.bounded, h.keys, h.accounted⟩
      · split
        · next e hfound =>
          have htouched := h.touched hfound
          exact ⟨htouched.bounded, htouched.keys, htouched.accounted⟩
        · exact h.goto (by rw [hphase]; rfl) (by rw [hphase]; rfl)
    · exact h
  | prepare thread =>
    rw [StoreCache.step]
    split
    · next w hphase _ =>
      have hgoto : Economical v (s.goto thread (.preparing w s.env)) :=
        h.goto (by rw [hphase]; rfl) (by rw [hphase]; rfl)
      exact ⟨hgoto.bounded, hgoto.keys, hgoto.accounted⟩
    · exact h
  | construct thread succeeds =>
    rw [StoreCache.step]
    split
    · next w prev hphase =>
      split
      · next project hproject =>
        refine ⟨h.bounded, h.keys, ?_⟩
        apply h.accounted.make (.hands thread)
        · change (s.phase thread).hands = []
          rw [hphase]
          rfl
        · rw [held_hands _ rfl, if_pos rfl]
          rfl
        · intro q hq
          by_cases hvictims : q = .victims thread
          · subst hvictims
            rw [held_victims _ rfl, if_pos rfl]
            change [] = (s.phase thread).victims
            rw [hphase]
            rfl
          · exact held_elsewhere (s.goto thread _) rfl rfl rfl hq hvictims
      · exact h.goto (by rw [hphase]; rfl) (by rw [hphase]; rfl)
    · exact h
  | restore thread =>
    rw [StoreCache.step]
    split
    · next w prev made hphase =>
      have hgoto : ∀ p : Phase, p.hands = (s.phase thread).hands → p.victims = [] →
          Economical v { s with
            env := prev, holder := none, phase := Function.update s.phase thread p } := by
        intro p hhands hvictims
        have hgoto := h.goto hhands (by rw [hphase]; exact hvictims)
        exact ⟨hgoto.bounded, hgoto.keys, hgoto.accounted⟩
      cases made with
      | none => exact hgoto .idle (by rw [hphase]; rfl) rfl
      | some m => exact hgoto (.holding w m) (by rw [hphase]; rfl) rfl
    · exact h
  | publish thread => exact h.publish thread
  | close thread =>
    rw [StoreCache.step]
    split
    · next victim rest answer hphase =>
      refine ⟨h.bounded, h.keys, ?_⟩
      apply h.accounted.transfer (.victims thread) .closed [victim.id] (fun heq => nomatch heq)
      · change ((s.phase thread).victims).Perm ([victim.id] ++
          (Function.update s.phase thread (Phase.closing rest answer) thread).victims)
        rw [Function.update_self, hphase]
        exact List.Perm.refl _
      · exact List.Perm.refl _
      · intro q hq hclosed
        cases q with
        | cached => rfl
        | closed => exact absurd rfl hclosed
        | hands t =>
          rw [held_hands _ rfl]
          split
          · next ht =>
            change [] = (s.phase t).hands
            rw [ht, hphase]
            rfl
          · rfl
        | victims t => rw [held_victims _ rfl, if_neg (fun ht => hq (by rw [ht]))]
    · next answer hphase =>
      have hgoto : Economical v (s.goto thread .idle) :=
        h.goto (by rw [hphase]; rfl) (by rw [hphase]; rfl)
      exact ⟨hgoto.bounded, hgoto.keys, hgoto.accounted⟩
    · exact h
  | clear thread =>
    rw [StoreCache.step]
    split
    · next hphase =>
      refine ⟨Nat.zero_le _, List.nodup_nil, ?_⟩
      apply Accounted.toVictims h.accounted .cached (s.entries.map Entry.store)
        (by rw [hphase]; rfl) (fun heq => nomatch heq) rfl
      · rw [List.map_map]
        change (s.entries.map (fun e => e.store.id)).Perm
          (s.entries.map (fun e => e.store.id) ++ [])
        rw [List.append_nil]
      · intro q hq hq'
        cases q with
        | cached => exact absurd rfl hq
        | closed => rfl
        | hands t =>
          rw [held_hands _ rfl]
          split
          · next ht =>
            change [] = (s.phase t).hands
            rw [ht, hphase]
            rfl
          · rfl
        | victims t => rw [held_victims _ rfl, if_neg (fun ht => hq' (by rw [ht]))]
    · exact h

theorem economical_start (v : Server) (env₀ : Option String) : Economical v { env := env₀ } where
  bounded := Nat.zero_le _
  keys := List.nodup_nil
  accounted := Accounted.start (fun p => by cases p <;> rfl)

/-- Whatever the calls of any number of threads do in between, the cache keeps its size, no store
is lost and none is closed twice or in the cache; once no call is under way, every store that was
made is either cached or closed. -/
theorem cache_accounts (v : Server) (env₀ : Option String) (events : List Event) :
    let s := runSteps (StoreCache.step v) events { env := env₀ }
    Economical v s ∧ ((∀ t, s.phase t = .idle) → ∀ id < s.made,
      (id ∈ s.held .cached ∧ id ∉ s.closed) ∨ (id ∈ s.closed ∧ id ∉ s.held .cached)) := by
  intro s
  have h : Economical v s := runSteps_keeps (fun e _ _ h => h.step e) (economical_start v env₀)
  refine ⟨h, ?_⟩
  intro hidle id hid
  obtain ⟨p, hp⟩ := h.accounted.somewhere id hid
  cases p with
  | cached => exact .inl ⟨hp, fun hc => nomatch h.accounted.single id .cached .closed hp hc⟩
  | closed => exact .inr ⟨hp, fun hc => nomatch h.accounted.single id .cached .closed hc hp⟩
  | hands t =>
    rw [System.held, hidle t] at hp
    cases hp
  | victims t =>
    rw [System.held, hidle t] at hp
    cases hp

end Economy
end TappsBrain.StoreCache
