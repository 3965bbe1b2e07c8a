import TappsBrain.Consolidate

namespace TappsBrain
open Lib
set_option autoImplicit true
set_option relaxedAutoImplicit false

def MISSION_STATE_KINDS : List String := ["contract", "findings", "knowledge"]

def MISSION_KEY_PREFIX : String := "mission"

def MISSION_KEY_MAX : Nat := 128

/-- The arguments that name one slot of mission state; an empty run is no run. -/
structure MissionSlot where
  missionId : String
  kind : String
  runId : String := ""
deriving DecidableEq, Repr

def componentChars : List Char → Bool
  | [] => false
  | c :: rest => isSlugHead c && rest.all (fun c => isSlugHead c || c == '_' || c == '-')

/-- `_MISSION_COMPONENT_PATTERN.match`, whose `$` also matches before a final newline. -/
def missionComponent (s : String) : Bool :=
  componentChars s.toList ||
    (s.toList.getLast? = some '\n' && componentChars s.toList.dropLast)

/-- `run_id or None`. -/
def MissionSlot.run (x : MissionSlot) : Option String := if x.runId = "" then none else some x.runId

/-- `_mission_state_key`. -/
def missionStateKey (x : MissionSlot) : String :=
  match x.run with
  | some run => s!"{MISSION_KEY_PREFIX}.{x.missionId}.{run}.{x.kind}"
  | none => s!"{MISSION_KEY_PREFIX}.{x.missionId}.{x.kind}"

/-- `_validate_mission_args`: the message of the refusal. -/
def validateMissionArgs (u : Unicode) (x : MissionSlot) : Option String :=
  if isBlank x.missionId then some "mission_id is required"
  else if !missionComponent x.missionId then
    some ("mission_id must be a lowercase slug (letters, digits, hyphens, " ++
      s!"underscores; no dots) starting with alphanumeric, got {u.repr x.missionId}")
  else if x.run.isSome && !missionComponent x.runId then
    some ("run_id must be a lowercase slug (letters, digits, hyphens, " ++
      s!"underscores; no dots) starting with alphanumeric, got {u.repr x.runId}")
  else if !MISSION_STATE_KINDS.contains x.kind then
    some ("kind must be one of ['contract', 'findings', 'knowledge'], got " ++ u.repr x.kind)
  else if MISSION_KEY_MAX < (missionStateKey x).length then
    some ("mission_id + run_id are too long; the composed key exceeds " ++
      s!"{MISSION_KEY_MAX} characters")
  else none

/-- `json.dumps(value, ensure_ascii=False)` and `json.loads` on JSON values. -/
structure JsonCodec (V : Type) where
  dumps : V → String
  loads : String → Option V
  loads_dumps : ∀ v, loads (dumps v) = some v

section Calls
variable {V : Type} (w : World) (json : JsonCodec V)

inductive SetReport where
  | invalidRequest (message : String)
  | saved (x : MissionSlot) (key : String)
deriving DecidableEq, Repr

/-- The call `brain_mission_state_set` makes. -/
def missionSaveArgs (x : MissionSlot) (serialised : String) : SaveArgs where
  key := missionStateKey x
  value := serialised
  tier := "context"
  scope := "mission"
  missionId := some x.missionId
  runId := x.run
  tags := some [s!"{MISSION_KEY_PREFIX}:{x.missionId}", s!"mission-kind:{x.kind}"]

/-- `brain_mission_state_set`; what `save` returns is not looked at. -/
def missionStateSet (x : MissionSlot) (value : V) : StoreM SetReport :=
  match validateMissionArgs w.unicode x with
  | some message => pure (.invalidRequest message)
  | none => do
    let _ ← save w (missionSaveArgs x (json.dumps value))
    pure (.saved x (missionStateKey x))

/-- What `json.loads` yields, or the text it could not read. -/
inductive StateValue (V : Type) where
  | json (v : V)
  | text (s : String)
deriving DecidableEq, Repr

inductive GetReport (V : Type) where
  | invalidRequest (message : String)
  | missing (x : MissionSlot)
  | found (x : MissionSlot) (value : StateValue V) (updatedAt : Stamp)
deriving DecidableEq, Repr

/-- What is served from an entry: a row of another mission or run is a miss. -/
def serveState (x : MissionSlot) (entry : MemoryEntry) : GetReport V :=
  if entry.missionId ≠ some x.missionId then .missing x
  else if entry.runId.filter (· ≠ "") ≠ x.run then .missing x
  else
    match json.loads entry.value with
    | some v => .found x (.json v) entry.updatedAt
    | none => .found x (.text entry.value) entry.updatedAt

/-- `brain_mission_state_get`. -/
def missionStateGet (x : MissionSlot) : StoreM (GetReport V) :=
  match validateMissionArgs w.unicode x with
  | some message => pure (.invalidRequest message)
  | none => do
    match ← get w (missionStateKey x) with
    | none => pure (.missing x)
    | some entry => pure (serveState json x entry)

end Calls

/-- Neither a component nor a kind holds the separator. -/
theorem componentChars_dotless {cs : List Char} (h : componentChars cs = true) : '.' ∉ cs := by
  cases cs with
  | nil => cases h
  | cons c rest =>
    simp only [componentChars, Bool.and_eq_true, List.all_eq_true] at h
    intro hmem
    rcases List.mem_cons.1 hmem with rfl | hmem
    · exact absurd h.1 (by decide)
    · exact absurd (h.2 '.' hmem) (by decide)

theorem missionComponent_dotless {s : String} (h : missionComponent s = true) : '.' ∉ s.toList := by
  simp only [missionComponent, Bool.or_eq_true, Bool.and_eq_true, decide_eq_true_eq] at h
  rcases h with h | ⟨hlast, h⟩
  · exact componentChars_dotless h
  · intro hmem
    obtain ⟨init, hinit⟩ := List.getLast?_eq_some_iff.1 hlast
    rw [hinit] at hmem h
    rw [List.dropLast_concat] at h
    rcases List.mem_append.1 hmem with hmem | hmem
    · exact componentChars_dotless h hmem
    · exact absurd (List.mem_singleton.1 hmem) (by decide)

theorem kind_dotless {kind : String} (h : kind ∈ MISSION_STATE_KINDS) : '.' ∉ kind.toList := by
  simp only [MISSION_STATE_KINDS, List.mem_cons, List.not_mem_nil, or_false] at h
  rcases h with rfl | rfl | rfl <;> decide

/-- A text without the separator ends where the first separator stands. -/
theorem dotless_append_inj {a b x y : List Char} (ha : '.' ∉ a) (hb : '.' ∉ b)
    (h : a ++ '.' :: x = b ++ '.' :: y) : a = b ∧ x = y := by
  induction a generalizing b with
  | nil =>
    cases b with
    | nil => exact ⟨rfl, (List.cons.inj h).2⟩
    | cons c rest => exact absurd (List.cons.inj h).1 (fun hc => hb (hc ▸ List.mem_cons_self))
  | cons c rest ih =>
    cases b with
    | nil => exact absurd (List.cons.inj h).1.symm (fun hc => ha (hc ▸ List.mem_cons_self))
    | cons d tail =>
      obtain ⟨hcd, hrest⟩ := List.cons.inj h
      obtain ⟨hab, hxy⟩ := ih (fun hm => ha (List.mem_cons_of_mem c hm))
        (fun hm => hb (List.mem_cons_of_mem d hm)) hrest
      exact ⟨by rw [hcd, hab], hxy⟩

/-- What the validation has checked of a slot. -/
structure WellFormedSlot (x : MissionSlot) : Prop where
  mission : '.' ∉ x.missionId.toList
  run : ∀ run, x.run = some run → '.' ∉ run.toList
  kind : x.kind ∈ MISSION_STATE_KINDS

theorem validateMissionArgs_none {u : Unicode} {x : MissionSlot}
    (h : validateMissionArgs u x = none) : WellFormedSlot x := by
  simp only [validateMissionArgs] at h
  split at h
  · cases h
  split at h
  · cases h
  split at h
  · cases h
  split at h
  · cases h
  next hmission hrun hkind =>
  simp only [Bool.not_eq_true', Bool.not_eq_false, Bool.and_eq_true, not_and] at hmission hrun hkind
  refine ⟨missionComponent_dotless hmission, ?_, List.contains_iff_mem.1 hkind⟩
  intro run hsome
  have hid : x.runId = run := by
    simp only [MissionSlot.run] at hsome
    split at hsome
    · cases hsome
    · exact Option.some.inj hsome
  rw [← hid]
  exact missionComponent_dotless (hrun (by rw [hsome]; rfl))

/-- What stands behind the mission in a key. -/
def slotTail (x : MissionSlot) : List Char :=
  match x.run with
  | some run => run.toList ++ '.' :: x.kind.toList
  | none => x.kind.toList

theorem missionStateKey_toList (x : MissionSlot) :
    (missionStateKey x).toList =
      MISSION_KEY_PREFIX.toList ++ '.' :: (x.missionId.toList ++ '.' :: slotTail x) := by
  rw [missionStateKey, slotTail]
  cases x.run with
  | none => simp [toString]
  | some run => simp [toString]

theorem missionStateKey_dotted (x : MissionSlot) : '.' ∈ (missionStateKey x).toList := by
  rw [missionStateKey_toList]
  exact List.mem_append_right _ List.mem_cons_self

theorem run_inj {x y : MissionSlot} (h : x.run = y.run) : x.runId = y.runId := by
  simp only [MissionSlot.run] at h
  split at h
  · next hx =>
    split at h
    · next hy => rw [hx, hy]
    · cases h
  · split at h
    · cases h
    · exact Option.some.inj h

/-- Two slots never share a key. -/
theorem missionStateKey_inj {x y : MissionSlot} (hx : WellFormedSlot x) (hy : WellFormedSlot y)
    (h : missionStateKey x = missionStateKey y) : x = y := by
  have hchars := congrArg String.toList h
  rw [missionStateKey_toList, missionStateKey_toList] at hchars
  have hinner := (List.cons.inj (List.append_cancel_left hchars)).2
  obtain ⟨hmission, htail⟩ := dotless_append_inj hx.mission hy.mission hinner
  have hkx := kind_dotless hx.kind
  have hky := kind_dotless hy.kind
  have hboth : x.run = y.run ∧ x.kind.toList = y.kind.toList := by
    rw [slotTail, slotTail] at htail
    cases hrx : x.run with
    | none =>
      cases hry : y.run with
      | none =>
        rw [hrx, hry] at htail
        exact ⟨rfl, htail⟩
      | some r =>
        rw [hrx, hry] at htail
        dsimp only at htail
        exact absurd (htail ▸ List.mem_append_right _ List.mem_cons_self) hkx
    | some r =>
      cases hry : y.run with
      | none =>
        rw [hrx, hry] at htail
        dsimp only at htail
        exact absurd (htail ▸ List.mem_append_right _ List.mem_cons_self) hky
      | some r' =>
        rw [hrx, hry] at htail
        obtain ⟨hr, hk⟩ := dotless_append_inj (hx.run r hrx) (hy.run r' hry) htail
        exact ⟨congrArg some (String.toList_inj.1 hr), hk⟩
  have hm : x.missionId = y.missionId := String.toList_inj.1 hmission
  have hk : x.kind = y.kind := String.toList_inj.1 hboth.2
  have hr : x.runId = y.runId := run_inj hboth.1
  cases x
  cases y
  simp only [MissionSlot.mk.injEq]
  exact ⟨hm, hk, hr⟩

end TappsBrain
