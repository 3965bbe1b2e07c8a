import TappsBrain.LlmPolicy

namespace TappsBrain
open Lib
set_option autoImplicit true
set_option relaxedAutoImplicit false

section Route
variable {key : String} {listed : List String} {s : Store}

/-- The route stays within what the prompt listed; a save under its own key is a plain one. -/
def PolicyRoute.Confined (listed : List String) (key : String) : PolicyRoute → Prop
  | .under target => target = key ∨ target ∈ listed
  | .deletion target _ => target ∈ listed
  | _ => True

/-- The action does no harm on a target that the reply names. -/
def Harmless (key : String) (listed : List String) (s : Store) : WriteDecision → PyJson → Prop
  | .add, _ => True
  | .noop, j => s.entries.get? key = none → unhashable j = none
  | .delete, j => unhashable j = none ∧
      ∀ k, j = .str k → s.entries.contains k = true → k ∈ listed
  | .update, j => unhashable j = none ∧
      ∀ k, j = .str k → s.entries.contains k = true → k = key ∨ k ∈ listed

theorem any_key_iff (s : Store) (k : String) :
    s.entries.values.any (fun c => c.key = k) = s.entries.contains k := by
  rw [Bool.eq_iff_iff, List.any_eq_true]
  constructor
  · rintro ⟨c, hc, hk⟩
    have hk : c.key = k := of_decide_eq_true hk
    rw [← hk, Table.contains, Table.get?_of_mem hc]
    rfl
  · intro h
    obtain ⟨c, hc⟩ := Option.isSome_iff_exists.1 h
    exact ⟨c, Table.mem_of_get? hc, decide_eq_true (Table.key_of_get? hc)⟩

/-- A target that is looked up among the candidates is followed where it names an entry. -/
theorem candidate_confined_iff {route : String → PolicyRoute} {good : String → Prop}
    (hroute : ∀ k, (route k).Confined listed key ↔ good k) (j : PyJson) :
    (∃ r, (namedCandidate s.entries.values j).map (routeTo route) = .ok r ∧
      r.Confined listed key) ↔
      unhashable j = none ∧ ∀ k, j = .str k → s.entries.contains k = true → good k := by
  cases hj : unhashable j with
  | some t =>
    constructor
    · rintro ⟨r, hr, -⟩
      rw [namedCandidate, hj] at hr
      cases hr
    · rintro ⟨h, -⟩
      cases h
  | none =>
    have hnamed : namedCandidate s.entries.values j =
        .ok ((keyText j).filter s.entries.contains) := by
      simp only [namedCandidate, hj, any_key_iff]
    rw [hnamed]
    constructor
    · rintro ⟨r, hr, hconfined⟩
      refine ⟨rfl, ?_⟩
      rintro k rfl hk
      have hfilter : (keyText (.str k)).filter s.entries.contains = some k := if_pos hk
      rw [hfilter] at hr
      cases hr
      exact (hroute k).1 hconfined
    · rintro ⟨-, h⟩
      refine ⟨_, rfl, ?_⟩
      cases hkey : (keyText j).filter s.entries.contains with
      | none => trivial
      | some k =>
        obtain ⟨htext, hk⟩ := Option.filter_eq_some_iff.1 hkey
        have hstr : j = .str k := by
          cases j with
          | str s => exact congrArg Json.str (Option.some.inj htext)
          | null | bool b | num n | arr items | obj members => cases htext
        exact (hroute k).2 (h k hstr hk)

theorem noop_confined_iff {target : Option PyJson} {reasoning : String} :
    (∃ route, llmRoute key s.entries.values ⟨.noop, target, reasoning⟩ s = .ok route ∧
      route.Confined listed key) ↔ ∀ j, target = some j → Harmless key listed s .noop j := by
  have hroute : (∃ route, llmRoute key s.entries.values ⟨.noop, target, reasoning⟩ s = .ok route ∧
      route.Confined listed key) ↔ ∃ found, noopEntry key s target = .ok found := by
    have hnoop : llmRoute key s.entries.values ⟨.noop, target, reasoning⟩ s =
        (noopEntry key s target).map (fun found =>
          .nothing ((found.map ShortCircuit.found).getD (.noop key reasoning))) := rfl
    rw [hnoop]
    cases noopEntry key s target with
    | error t =>
      constructor
      · rintro ⟨route, h, -⟩
        cases h
      · rintro ⟨found, h⟩
        cases h
    | ok found => exact ⟨fun _ => ⟨found, rfl⟩, fun _ => ⟨_, rfl, trivial⟩⟩
  rw [hroute]
  simp only [Harmless, noopEntry]
  cases s.entries.get? key with
  | some e => exact ⟨fun _ _ _ h => (nomatch h), fun _ => ⟨_, rfl⟩⟩
  | none =>
    cases target with
    | none => exact ⟨fun _ _ h => (nomatch h), fun _ => ⟨_, rfl⟩⟩
    | some j =>
      simp only [lookUp, Option.some.injEq, forall_eq', forall_const]
      cases unhashable j with
      | none => exact ⟨fun _ => rfl, fun _ => ⟨_, rfl⟩⟩
      | some t => exact ⟨fun ⟨_, h⟩ => (nomatch h), fun h => (nomatch h)⟩

/-- A verdict keeps the write within the listed entries exactly where its target is harmless. -/
theorem route_confined_iff (r : LlmVerdict) :
    (∃ route, llmRoute key s.entries.values r s = .ok route ∧ route.Confined listed key) ↔
      ∀ j, r.targetKey = some j → Harmless key listed s r.decision j := by
  obtain ⟨decision, target, reasoning⟩ := r
  cases decision with
  | add =>
    refine ⟨fun _ _ _ => trivial, fun _ => ?_⟩
    cases target <;> exact ⟨_, rfl, trivial⟩
  | noop => exact noop_confined_iff
  | delete =>
    cases target with
    | none => exact ⟨fun _ _ h => (nomatch h), fun _ => ⟨_, rfl, trivial⟩⟩
    | some j =>
      simp only [Option.some.injEq, forall_eq']
      exact candidate_confined_iff (fun _ => Iff.rfl) j
  | update =>
    cases target with
    | none => exact ⟨fun _ _ h => (nomatch h), fun _ => ⟨_, rfl, trivial⟩⟩
    | some j =>
      simp only [Option.some.injEq, forall_eq']
      exact candidate_confined_iff (fun _ => Iff.rfl) j

end Route

section Verdict
variable {w : World} {key : String} {s : Store} {r : LlmVerdict} {route : PolicyRoute}

/-- The verdict as a policy of typed results gives it. -/
def LlmVerdict.asResult (r : LlmVerdict) : WriteResult where
  decision := r.decision
  targetKey := r.targetKey.bind keyText
  reasoning := r.reasoning

theorem namedTarget_keyText {j : PyJson} (h : truthy j = true) :
    namedTarget (keyText j) = keyText j := by
  cases j with
  | str k => exact if_neg (of_decide_eq_true h)
  | null | bool b | num n | arr items | obj members => rfl

theorem noopEntry_ok {target : Option PyJson} {found : Option MemoryEntry}
    (htruthy : ∀ j, target = some j → truthy j = true) (h : noopEntry key s target = .ok found) :
    (s.entries.get? key).or ((namedTarget (target.bind keyText)).bind s.entries.get?) = found := by
  unfold noopEntry at h
  cases hkey : s.entries.get? key with
  | some e =>
    rw [hkey] at h
    cases h
    rfl
  | none =>
    rw [hkey] at h
    rw [Option.none_or]
    cases target with
    | none =>
      cases h
      rfl
    | some j =>
      rw [Option.bind_some, namedTarget_keyText (htruthy j rfl)]
      dsimp only [lookUp] at h
      cases hj : unhashable j with
      | some e =>
        rw [hj] at h
        cases h
      | none =>
        rw [hj] at h
        exact Except.ok.inj h

/-- Among the candidates a target is followed, or not, as its text is. -/
theorem namedCandidate_route {follow : String → PolicyRoute} {j : PyJson}
    {candidates : List MemoryEntry}
    (h : (namedCandidate candidates j).map (routeTo follow) = .ok route) :
    route = match keyText j with
      | some k => if candidates.any (fun c => c.key = k) then follow k else .plain
      | none => .plain := by
  rw [namedCandidate] at h
  cases hj : unhashable j with
  | some e =>
    rw [hj] at h
    cases h
  | none =>
    rw [hj] at h
    cases h
    cases keyText j with
    | none => rfl
    | some k =>
      rw [Option.filter_some]
      dsimp only
      split <;> rfl

/-- A verdict that raises nothing is acted on as its typed form is. -/
theorem applyVerdict_asResult (htruthy : ∀ j, r.targetKey = some j → truthy j = true)
    (h : llmRoute key s.entries.values r s = .ok route) :
    applyVerdict w key s.entries.values r.asResult s = runRoute w route s := by
  obtain ⟨decision, target, reasoning⟩ := r
  cases decision with
  | add =>
    have hplain : route = .plain := by
      cases target <;> cases h <;> rfl
    subst hplain
    rfl
  | noop =>
    have hnoop : (noopEntry key s target).map (fun found => PolicyRoute.nothing
        ((found.map ShortCircuit.found).getD (.noop key reasoning))) = .ok route := h
    cases hfound : noopEntry key s target with
    | error e =>
      rw [hfound] at hnoop
      cases hnoop
    | ok found =>
      rw [hfound] at hnoop
      cases hnoop
      have hlook := noopEntry_ok htruthy hfound
      change (Except.ok (policyNoop key (LlmVerdict.asResult ⟨.noop, target, reasoning⟩) s), s) = _
      dsimp only [policyNoop, LlmVerdict.asResult]
      rw [hlook]
      cases found <;> rfl
  | delete =>
    cases target with
    | none =>
      cases h
      rfl
    | some j =>
      have hname : namedTarget ((some j).bind keyText) = keyText j := namedTarget_keyText (htruthy j rfl)
      have hnamed : (namedCandidate s.entries.values j).map (routeTo (.deletion · reasoning)) =
          .ok route := h
      have hroute := namedCandidate_route hnamed
      subst hroute
      rw [applyVerdict]
      dsimp only [LlmVerdict.asResult]
      rw [hname]
      cases keyText j with
      | none => rfl
      | some k =>
        dsimp only
        split <;> rfl
  | update =>
    cases target with
    | none =>
      cases h
      rfl
    | some j =>
      have hname : namedTarget ((some j).bind keyText) = keyText j := namedTarget_keyText (htruthy j rfl)
      have hnamed : (namedCandidate s.entries.values j).map (routeTo .under) = .ok route := h
      have hroute := namedCandidate_route hnamed
      subst hroute
      rw [applyVerdict]
      dsimp only [LlmVerdict.asResult]
      rw [hname]
      cases keyText j with
      | none => rfl
      | some k =>
        dsimp only
        split <;> rfl

end Verdict

section Heard
variable {p : LlmPolicy} {u : Unicode}

/-- The object the judge's reply holds, where the judge is asked and answers. -/
def LlmPolicy.heard (p : LlmPolicy) (u : Unicode) (key value : String)
    (candidates : List MemoryEntry) : Option PyJson :=
  if p.checkRateLimit then
    (p.judge (buildPrompt u key value (p.topCandidates candidates))).bind (fun reply =>
      (Json.loads (PyNumber.numerals p.floats) (jsonSpan reply)).filter isDict)
  else none

theorem decide_of_heard {key value : String} {candidates : List MemoryEntry} {d : PyJson}
    (h : p.heard u key value candidates = some d) :
    p.decide u key value candidates = p.verdictOf u d := by
  rw [LlmPolicy.heard] at h
  split at h
  · next hasked =>
    obtain ⟨reply, hreply, hload⟩ := Option.bind_eq_some_iff.1 h
    obtain ⟨hparse, hdict⟩ := Option.filter_eq_some_iff.1 hload
    simp only [LlmPolicy.decide, hasked, ↓reduceIte, LlmPolicy.callLlm, hreply, hparse]
    cases d with
    | obj members => rfl
    | null | bool b | num n | str s | arr items => cases hdict
  · cases h

/-- The text of an object is taken for the whole reply. -/
theorem jsonSpan_dumps (N : Numerals PyNumber) (members : List (String × PyJson)) :
    jsonSpan (Json.dumps N (.obj members)) = Json.dumps N (.obj members) := by
  obtain ⟨rest, hchars, hlast⟩ := Json.dumps_braced N members
  have hopened : ('{' :: rest).dropWhile (· ≠ '{') = '{' :: rest :=
    List.dropWhile_cons_of_neg (by decide)
  have hclosed : ('{' :: rest).rdropWhile (· ≠ '}') = '{' :: rest := by
    rw [List.rdropWhile_eq_self_iff]
    intro hne
    rw [List.getLast?_eq_some_getLast hne, Option.some.injEq] at hlast
    rw [hlast]
    decide
  rw [jsonSpan, hchars, hopened, hclosed, if_pos (List.mem_of_getLast? hlast), ← hchars,
    String.ofList_toList]

/-- A judge that answers with the text of an object is heard. -/
theorem heard_dumps {key value : String} {candidates : List MemoryEntry}
    {members : List (String × PyJson)} (hasked : p.checkRateLimit = true)
    (hreply : p.judge (buildPrompt u key value (p.topCandidates candidates)) =
      some (Json.dumps (PyNumber.numerals p.floats) (.obj members))) :
    p.heard u key value candidates = some (.obj members) := by
  rw [LlmPolicy.heard, if_pos hasked, hreply, Option.bind_some, jsonSpan_dumps, Json.loads_dumps]
  rfl

/-- A judge that is not heard has nothing written differently. -/
theorem decide_of_unheard {key value : String} {candidates : List MemoryEntry}
    (h : p.heard u key value candidates = none) :
    (p.decide u key value candidates).targetKey = none := by
  rw [LlmPolicy.heard] at h
  rw [LlmPolicy.decide]
  split
  · next hasked =>
    rw [if_pos hasked, Option.bind_eq_none_iff] at h
    rw [LlmPolicy.callLlm]
    cases hreply : p.judge (buildPrompt u key value (p.topCandidates candidates)) with
    | none => rfl
    | some reply =>
      have hload := h reply hreply
      dsimp only
      cases hparse : Json.loads (PyNumber.numerals p.floats) (jsonSpan reply) with
      | none => rfl
      | some d =>
        rw [hparse] at hload
        cases d with
        | obj members => cases hload
        | null | bool b | num n | str s | arr items => rfl
  · rfl

theorem verdictOf_target {d : PyJson} {action : WriteDecision} (h : p.actionOf u d = some action) :
    (p.verdictOf u d).decision = action ∧ (p.verdictOf u d).targetKey = targetOf d := by
  simp only [LlmPolicy.verdictOf, h, and_self]

theorem verdictOf_unknown {d : PyJson} (h : p.actionOf u d = none) :
    (p.verdictOf u d).targetKey = none := by
  simp only [LlmPolicy.verdictOf, h, fallback]

/-- A target that the policy hands on is no empty value. -/
theorem decide_truthy {key value : String} {candidates : List MemoryEntry} :
    ∀ j, (p.decide u key value candidates).targetKey = some j → truthy j = true := by
  intro j hj
  cases hheard : p.heard u key value candidates with
  | none =>
    rw [decide_of_unheard hheard] at hj
    cases hj
  | some d =>
    rw [decide_of_heard hheard] at hj
    cases haction : p.actionOf u d with
    | none =>
      rw [verdictOf_unknown haction] at hj
      cases hj
    | some action =>
      rw [(verdictOf_target haction).2] at hj
      exact (Option.filter_eq_some_iff.1 hj).2

/-- What a reply names does no harm under the action it asks for. -/
def ReplyHarmless (p : LlmPolicy) (u : Unicode) (key value : String) (s : Store) : Prop :=
  ∀ d, p.heard u key value s.entries.values = some d → ∀ action, p.actionOf u d = some action →
    ∀ j, targetOf d = some j →
      Harmless key ((p.topCandidates s.entries.values).map (·.key)) s action j

theorem decide_confined_iff (p : LlmPolicy) (u : Unicode) (key value : String) (s : Store) :
    (∃ route, llmRoute key s.entries.values (p.decide u key value s.entries.values) s = .ok route ∧
      route.Confined ((p.topCandidates s.entries.values).map (·.key)) key) ↔
      ReplyHarmless p u key value s := by
  rw [route_confined_iff, ReplyHarmless]
  cases hheard : p.heard u key value s.entries.values with
  | none =>
    rw [decide_of_unheard hheard]
    exact ⟨fun _ _ h => (nomatch h), fun _ _ h => (nomatch h)⟩
  | some d =>
    rw [decide_of_heard hheard]
    simp only [Option.some.injEq, forall_eq']
    cases haction : p.actionOf u d with
    | none =>
      rw [verdictOf_unknown haction]
      exact ⟨fun _ _ h => (nomatch h), fun _ _ h => (nomatch h)⟩
    | some action =>
      obtain ⟨hdecision, htarget⟩ := verdictOf_target haction
      rw [hdecision, htarget]
      simp only [Option.some.injEq, forall_eq']

end Heard

section Save
variable {w : World} {p : LlmPolicy} {mc : MemoryEntry → StoreM Unit} {a : SaveArgs} {s t : Store}

/-- The checks of a save before its policy, and the refresh the policy begins with. -/
def refreshed (w : World) (a : SaveArgs) :
    StoreM (Except ShortCircuit (String × String × Option (Option String))) :=
  match argumentError w.toConfig a with
  | some msg => Prog.raise (.valueError msg)
  | none => do
    match ← checkSave w a with
    | .error d => pure (.error d)
    | .ok checked => do
      mergeDurableEntries w false
      pure (.ok checked)

/-- The rest of a save on a route. -/
def PolicyRoute.save (w : World) (mc : MemoryEntry → StoreM Unit) (a : SaveArgs)
    (value agentScope : String) (mgExplicit : Option (Option String)) :
    PolicyRoute → StoreM SaveResult
  | .plain => saveAfter w mc a value agentScope mgExplicit .proceed
  | .under target => saveAfter w mc a value agentScope mgExplicit (.update target)
  | .deletion target reasoning => do
    let _ ← delete w target
    pure (.dict (.deleted target reasoning))
  | .nothing d => answerShort d

/-- A run that no `TypeError` ends. -/
def answered (run : Except Raised SaveResult × Store) :
    Except Raised (Except Unhashable SaveResult) × Store := (run.1.map .ok, run.2)

theorem answered_bind (program : StoreM SaveResult) (t : Store) :
    (program >>= fun r => (pure (.ok r) : StoreM (Except Unhashable SaveResult))) t =
      answered (program t) := by
  rw [Prog.bind_run, answered]
  rcases program t with ⟨e | r, u⟩ <;> rfl

theorem runRoute_save (value agentScope : String) (mgExplicit : Option (Option String))
    (route : PolicyRoute) :
    runRoute w route >>= saveAfter w mc a value agentScope mgExplicit =
      route.save w mc a value agentScope mgExplicit := by
  cases route with
  | plain | under target | nothing d => rfl
  | deletion target reasoning => exact Prog.bind_assoc _ _ _

theorem applyLlmPolicy_run (p : LlmPolicy) (key value : String)
    (h : mergeDurableEntries w false s = (.ok (), t)) :
    applyLlmPolicy w p key value s =
      match llmRoute key t.entries.values (p.decide w.unicode key value t.entries.values) t with
      | .error e => (.ok (.error e), t)
      | .ok route =>
        (runRoute w route >>= fun o => (pure (.ok o) : StoreM (Except Unhashable PolicyOutcome))) t := by
  rw [applyLlmPolicy, Prog.bind_run_ok h]
  change (match llmRoute key t.entries.values _ t with | .error e => _ | .ok route => _ :
    StoreM (Except Unhashable PolicyOutcome)) t = _
  cases llmRoute key t.entries.values (p.decide w.unicode key value t.entries.values) t <;> rfl

/-- What a save has passed when its policy is asked. -/
theorem refreshed_ok {checked : String × String × Option (Option String)}
    (h : refreshed w a s = (.ok (.ok checked), t)) :
    argumentError w.toConfig a = none ∧ ∃ s', checkSave w a s = (.ok (.ok checked), s') ∧
      mergeDurableEntries w false s' = (.ok (), t) := by
  rw [refreshed] at h
  cases harg : argumentError w.toConfig a with
  | some msg =>
    rw [harg] at h
    cases h
  | none =>
    rw [harg] at h
    obtain ⟨passed, s', hcheck, h⟩ := Prog.bind_ok h
    cases passed with
    | error d => cases h
    | ok passed =>
      obtain ⟨_, t', hmerge, h⟩ := Prog.bind_ok h
      cases h
      exact ⟨rfl, s', hcheck, hmerge⟩

/-- From the refresh on a save follows the route of the verdict. -/
theorem saveJudged_refreshed {value agentScope : String} {mgExplicit : Option (Option String)}
    (h : refreshed w a s = (.ok (.ok (value, agentScope, mgExplicit)), t)) :
    saveJudged w p mc a s =
      match llmRoute a.key t.entries.values
        (p.decide w.unicode a.key value t.entries.values) t with
      | .error e => (.ok (.error e), t)
      | .ok route => answered (route.save w mc a value agentScope mgExplicit t) := by
  obtain ⟨harg, s', hcheck, hmerge⟩ := refreshed_ok h
  have hgate := applyLlmPolicy_run p a.key value hmerge
  rw [saveJudged, harg]
  dsimp only
  rw [Prog.bind_run_ok hcheck]
  dsimp only
  cases hroute : llmRoute a.key t.entries.values
    (p.decide w.unicode a.key value t.entries.values) t with
  | error e =>
    rw [hroute] at hgate
    rw [Prog.bind_run_ok hgate]
    rfl
  | ok route =>
    rw [hroute] at hgate
    rw [Prog.bind_run, hgate]
    dsimp only
    rw [← runRoute_save, ← answered_bind, Prog.bind_assoc, Prog.bind_run, Prog.bind_run]
    rcases runRoute w route t with ⟨e | o, u⟩ <;> rfl

/-- A save that raises no `TypeError` is a save under the typed verdicts of its policy. -/
theorem saveJudged_typed {value agentScope : String} {mgExplicit : Option (Option String)}
    {route : PolicyRoute}
    (hw : w.writePolicy = .judged (fun key value candidates =>
      (p.decide w.unicode key value candidates).asResult))
    (h : refreshed w a s = (.ok (.ok (value, agentScope, mgExplicit)), t))
    (hroute : llmRoute a.key t.entries.values
      (p.decide w.unicode a.key value t.entries.values) t = .ok route) :
    saveJudged w p mc a s = answered (saveWith w mc a s) := by
  obtain ⟨harg, s', hcheck, hmerge⟩ := refreshed_ok h
  have hpolicy : applyWritePolicy w a.key value s' = runRoute w route t := by
    rw [applyWritePolicy, hw]
    dsimp only
    rw [Prog.bind_run_ok hmerge]
    exact applyVerdict_asResult decide_truthy hroute
  have hsave : saveWith w mc a s = route.save w mc a value agentScope mgExplicit t := by
    rw [saveWith, harg, ← runRoute_save, prepareSave]
    dsimp only
    rw [Prog.bind_assoc, Prog.bind_run_ok hcheck]
    dsimp only
    rw [Prog.bind_assoc, Prog.bind_run, hpolicy, Prog.bind_run]
    rcases runRoute w route t with ⟨e | outcome, u⟩
    · rfl
    · cases outcome <;> rfl
  rw [saveJudged_refreshed h, hroute, hsave]

/-- A save that its checks or the refresh end asks no judge. -/
theorem saveJudged_unasked (h : ∀ checked, (refreshed w a s).1 ≠ .ok (.ok checked))
    (p' : LlmPolicy) : saveJudged w p' mc a s = saveJudged w p mc a s := by
  rw [refreshed] at h
  rw [saveJudged, saveJudged]
  cases harg : argumentError w.toConfig a with
  | some msg => rfl
  | none =>
    rw [harg] at h
    dsimp only at h ⊢
    rw [Prog.bind_run] at h ⊢
    rw [Prog.bind_run]
    rcases hcheck : checkSave w a s with ⟨e | checked, s'⟩
    · rfl
    · rw [hcheck] at h
      cases checked with
      | error d => rfl
      | ok checked =>
        obtain ⟨value, agentScope, mgExplicit⟩ := checked
        dsimp only at h ⊢
        rcases hmerge : mergeDurableEntries w false s' with ⟨e | done, t⟩
        · have hgate : ∀ q : LlmPolicy, applyLlmPolicy w q a.key value s' = (.error e, t) :=
            fun q => Prog.bind_run_error hmerge
          rw [Prog.bind_run_error (hgate p'), Prog.bind_run_error (hgate p)]
        · rw [Prog.bind_run_ok hmerge] at h
          exact absurd rfl (h _)

/-- Without a policy a save goes on as on the plain route. -/
theorem saveWith_unjudged (hw : w.writePolicy = .deterministic)
    (harg : argumentError w.toConfig a = none) {value agentScope : String}
    {mgExplicit : Option (Option String)}
    (hcheck : checkSave w a s = (.ok (.ok (value, agentScope, mgExplicit)), t)) :
    saveWith w mc a s = PolicyRoute.plain.save w mc a value agentScope mgExplicit t := by
  have hprepare : prepareSave w a s = prepareUnder w a value agentScope mgExplicit none t := by
    rw [prepareSave, Prog.bind_run_ok hcheck]
    simp only [applyWritePolicy, hw]
    rfl
  rw [saveWith, harg]
  dsimp only
  rw [Prog.bind_run, hprepare]
  change _ = (prepareUnder w a value agentScope mgExplicit none >>= _) t
  rw [Prog.bind_run]
  rcases prepareUnder w a value agentScope mgExplicit none t with ⟨e | d | prep, u⟩ <;> rfl

/-- Under its own key a save is a plain one. -/
theorem save_own_key (value agentScope : String) (mgExplicit : Option (Option String)) :
    (PolicyRoute.under a.key).save w mc a value agentScope mgExplicit =
      PolicyRoute.plain.save w mc a value agentScope mgExplicit := by
  funext t
  change (prepareUnder w a value agentScope mgExplicit (some a.key) >>= saveStored w mc a) t =
    (prepareUnder w a value agentScope mgExplicit none >>= saveStored w mc a) t
  rw [prepareUnder, prepareUnder, Prog.bind_assoc, Prog.bind_assoc]
  change (dedupAndConflicts w a.key _ _ _ _ >>= _) t = (dedupAndConflicts w a.key _ _ _ _ >>= _) t
  rw [Prog.bind_run, Prog.bind_run]
  rcases dedupAndConflicts w a.key value (normalizeSaveTier w.toConfig a.tier) a.dedup
    a.conflictCheck t with ⟨e | d | conflicts, u⟩ <;> rfl

/-- The judge's reply is contained: it makes no save raise, and the save is one without a policy,
one under a listed key, the deletion of a listed entry, or none. -/
def LlmContained (w : World) (p : LlmPolicy) (mc : MemoryEntry → StoreM Unit) (a : SaveArgs)
    (s : Store) : Prop :=
  match refreshed w a s with
  | (.ok (.ok (value, agentScope, mgExplicit)), t) =>
    ∃ route, llmRoute a.key t.entries.values (p.decide w.unicode a.key value t.entries.values) t =
        .ok route ∧
      route.Confined ((p.topCandidates t.entries.values).map (·.key)) a.key ∧
      saveJudged w p mc a s = answered (route.save w mc a value agentScope mgExplicit t)
  | _ => ∀ p', saveJudged w p' mc a s = saveJudged w p mc a s

/-- Lower case of one word in capitals. -/
def Unicode.capitals : Unicode where
  lower := fun s => if s = "DELETE" then "delete" else s
  lower_lower := by
    intro s
    by_cases h : s = "DELETE"
    · subst h
      rfl
    · rw [if_neg h, if_neg h]
  nfkc := id
  repr := fun s => s!"'{s}'"

/-- A judge that asks for the deletion of a list of keys. -/
def listJudge : LlmPolicy where
  monotonic := 0
  judge := fun _ => some (Json.dumps (PyNumber.numerals .fractions)
    (.obj [("action", .str "DELETE"), ("target_key", .arr [.str "note"])]))
  floats := .fractions
  upper := id
  pyStr := fun _ => ""

def judgedWorld : World := Config.calm { Config.plain with unicode := .capitals }

end Save

end TappsBrain
