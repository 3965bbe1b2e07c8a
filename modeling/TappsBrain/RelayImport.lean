import TappsBrain.Interchange
import TappsBrain.SaveAtomicity

namespace TappsBrain
open Lib
set_option autoImplicit true
set_option relaxedAutoImplicit false

/-- The store inside `batch_exempt_scope`. -/
def World.exempt (w : World) : World := { w with rateAllowed := fun _ => true }

structure RelayImportResult where
  imported : Nat := 0
  skipped : Nat := 0
  warnings : List String := []

section Coerce
variable (u : Unicode) (pyStr : PyJson → String)

def isNull : PyJson → Bool
  | .null => true
  | _ => false

/-- `str` of a value; `pyStr` is that of a value that is no text. -/
def strJson : PyJson → String
  | .str s => s
  | j => pyStr j

/-- The memory scope a value names. -/
def relayScope (j : PyJson) : Option String :=
  let named := u.lower (strip (strJson pyStr j))
  if (MemoryScope.ofText named).isSome then some named else none

/-- The agent scope a value names. -/
def relayAgentScope (j : PyJson) : Option String :=
  (normalizeAgentScope u (strip (strJson pyStr j))).toOption

/-- What `scope` stands for where no visibility is given: a memory scope, else an agent scope. -/
def scopeFallback (vis scope : PyJson) : Option (PyJson × Option String) :=
  if isNull scope || !isNull vis then some (vis, none)
  else
    match relayScope u pyStr scope with
    | some named => some (.str named, none)
    | none => (relayAgentScope u pyStr scope).map (fun agent => (vis, some agent))

/-- `resolve_relay_scopes`. -/
def resolveRelayScopes (item : PyJson) : Option (String × String) := do
  let given := getOr item "visibility" (getWith item "memory_scope" .null)
  let (vis, fallback) ← scopeFallback u pyStr given (getWith item "scope" .null)
  let memoryScope ← if isNull vis then some "project" else relayScope u pyStr vis
  let agentScope := getWith item "agent_scope" .null
  let agent ← if isNull agentScope then some (fallback.getD "private")
    else relayAgentScope u pyStr agentScope
  some (memoryScope, agent)

/-- Why an item yields no arguments: it is skipped, or converting it raises. -/
inductive RelaySkip where
  | skip (reason : String)
  | overflow

/-- The least whole number that rounds to no finite float. -/
def FLOAT_OVERFLOW : Nat := 2 ^ 1024 - 2 ^ 970

/-- The confidence of an item; `none` is the `OverflowError` of `float`. -/
def relayConfidence : PyJson → Option ℚ
  | .num (.int n) =>
    if FLOAT_OVERFLOW ≤ n.natAbs then none else some (if n = 0 ∨ n = 1 then n else -1)
  | .num (.float q) => some (if 1 < q ∨ (q < 0 ∧ q ≠ -1) then -1 else q)
  | _ => some (-1)

/-- A text that is not blank, stripped. -/
def strippedText : PyJson → Option String
  | .str s => if isBlank s then none else some (strip s)
  | _ => none

/-- `_relay_memory_group_save_kw`. -/
def relayMemoryGroup (label : String) (raw : PyJson) : Except RelaySkip (Option (Option String)) :=
  let memoryGroup := getWith raw "memory_group" .null
  let chosen := if isNull memoryGroup then getWith raw "group" .null else memoryGroup
  match chosen with
  | .null => .ok none
  | .str s =>
    match normalizeMemoryGroup s with
    | .error msg => .error (.skip s!"{label}: invalid memory_group ({msg}), skipped")
    | .ok g => .ok (some g)
  | _ => .error (.skip s!"{label}: memory_group/group must be a string when provided, skipped")

/-- The key of an item. -/
def relayKey (label : String) (raw : PyJson) : Except RelaySkip String :=
  match strippedText (getWith raw "key" .null) with
  | none => .error (.skip s!"{label}: missing or invalid key, skipped")
  | some key => .ok key

/-- `str` of each tag of an item. -/
def relayTags (label : String) (raw : PyJson) : Except RelaySkip (Option (List String)) :=
  match getWith raw "tags" .null with
  | .null => .ok none
  | .arr items => .ok (some (items.map (strJson pyStr)))
  | _ => .error (.skip s!"{label}: tags must be a list when provided, skipped")

/-- The tier text of an item. -/
def relayTier (label : String) (raw : PyJson) : Except RelaySkip String :=
  match getWith raw "tier" .null with
  | .null => .ok ""
  | .str s => .ok s
  | _ => .error (.skip s!"{label}: tier must be a string when provided, skipped")

/-- The value of an item. -/
def relayValue (label : String) (raw : PyJson) : Except RelaySkip String :=
  match getWith raw "value" .null with
  | .str s => .ok s
  | _ => .error (.skip s!"{label}: value must be a string, skipped")

end Coerce

/-- `_coerce_relay_item_save_kwargs`. -/
def coerceRelayItem (c : Config) (pyStr : PyJson → String) (label defaultAgent : String)
    (raw : PyJson) : Except RelaySkip SaveArgs := do
  let key ← relayKey label raw
  let value ← relayValue label raw
  if !keySlug key then
    .error (.skip s!"{label}: key {c.unicode.repr key} does not match slug pattern, skipped")
  else
    match resolveRelayScopes c.unicode pyStr raw with
    | none =>
      .error (.skip s!"{label}: invalid scope / visibility / agent_scope combination, skipped")
    | some (memoryScope, agentScope) => do
      let tier ← relayTier label raw
      let tags ← relayTags pyStr label raw
      match relayConfidence (getWith raw "confidence" (.num (.float (-1)))) with
      | none => .error .overflow
      | some confidence => do
        let memoryGroup ← relayMemoryGroup label raw
        .ok { key
              value
              tier := normalizeSaveTier c tier
              source := (strippedText (getWith raw "source" .null)).getD "agent"
              sourceAgent :=
                (strippedText (getWith raw "source_agent" (.str defaultAgent))).getD defaultAgent
              scope := memoryScope
              agentScope
              tags
              confidence
              branch := strippedText (getWith raw "branch" .null)
              memoryGroup }

inductive RelayOutcome where
  | imported
  | skipped (reason : String)

/-- `out.get("error", "unknown")`. -/
def ShortCircuit.errorCode : ShortCircuit → String
  | .error code _ => code
  | _ => "unknown"

section Import
variable (w : World) (pyStr : PyJson → String) (defaultAgent : String)

/-- The save of one item. -/
def saveRelayItem (label : String) (a : SaveArgs) : StoreM RelayOutcome :=
  Prog.handle
    (do
      match ← save w.exempt a with
      | .entry _ => pure .imported
      | .dict d => pure (.skipped s!"{label}: save blocked ({d.errorCode}), skipped"))
    (fun err =>
      match err.valueErrorText with
      | some msg => pure (.skipped s!"{label}: save error ({msg}), skipped")
      | none => Prog.raise err)

/-- One turn of the loop of `import_relay_to_store`. -/
def relayItem (idx : Nat) (raw : PyJson) : StoreM RelayOutcome :=
  let label := s!"items[{idx}]"
  match raw with
  | .obj _ =>
    match coerceRelayItem w.toConfig pyStr label defaultAgent raw with
    | .error (.skip reason) => pure (.skipped reason)
    | .error .overflow => Prog.raise (.runtimeError "int too large to convert to float")
    | .ok a => saveRelayItem w label a
  | _ => pure (.skipped s!"{label}: not an object, skipped")

def RelayImportResult.add (r : RelayImportResult) : RelayOutcome → RelayImportResult
  | .imported => { r with imported := r.imported + 1 }
  | .skipped reason =>
    { r with skipped := r.skipped + 1, warnings := r.warnings ++ [reason] }

/-- The loop of `import_relay_to_store`. -/
def importRelayItems : Nat → List PyJson → RelayImportResult → StoreM RelayImportResult
  | _, [], r => pure r
  | idx, raw :: rest, r => do
    let outcome ← relayItem w pyStr defaultAgent idx raw
    importRelayItems (idx + 1) rest (r.add outcome)

end Import

def relayAgent (payload : PyJson) : String :=
  match getWith payload "source_agent" (.str "unknown") with
  | .str s => s
  | _ => "unknown"

/-- `import_relay_to_store`. -/
def importRelayToStore (w : World) (pyStr : PyJson → String) (payload : PyJson) :
    StoreM RelayImportResult :=
  match getWith payload "items" .null with
  | .arr items => importRelayItems w pyStr (relayAgent payload) 0 items {}
  | _ => pure { warnings := ["items is not a list; nothing imported"] }

section Short
variable {w : World} {s : Store} {a : SaveArgs}

/-- What a short-circuit of a save leaves of the store it started from. -/
def ShortLeaves (w : World) (s : Store) (short : ShortCircuit) (t : Store) : Prop :=
  match short with
  | .noop _ _ => Untouched w.toConfig anyKey s t
  | .deleted _ _ => ¬ Untouched w.toConfig anyKey s t
  | .coalesced key _ _ _ => (t.entries.get? key).isSome = true
  | _ => True

theorem shortLeaves_of_isError {short : ShortCircuit} (h : short.isError = true) (t : Store) :
    ShortLeaves w s short t := by
  cases short with
  | error code message => trivial
  | _ => cases h

/-- What was held is gone for good. -/
theorem Gone.touched {e : MemoryEntry} {t u : Store} (h : Gone e.key u)
    (hs : Untouched w.toConfig anyKey s t) (he : t.entries.get? e.key = some e) :
    ¬ Untouched w.toConfig anyKey s u := by
  intro hu
  have hrow : s.rows.get? e.key = none := (hu.rows e.key trivial).symm.trans h.2
  have hloaded : loaded w.toConfig s e.key = none := by rw [loaded, hrow]; rfl
  have hentry : s.entries.get? e.key = none := by
    rcases hu.entries e.key trivial with hsame | ⟨hnone, -⟩
    · exact hsame.symm.trans h.1
    · exact hnone
  rcases hs.entries e.key trivial with hsame | ⟨-, hload⟩
  · rw [he, hentry] at hsame
    cases hsame
  · rw [he, hloaded] at hload
    cases hload

theorem delete_gone {e : MemoryEntry} :
    Returns (fun t => t.entries.get? e.key = some e) (delete w e.key) (fun _ => Gone e.key) := by
  intro t ht
  rw [delete, Prog.bind_run, ensureEntryCached_run, ht]
  dsimp only
  rw [Prog.bind_run]
  rcases hr : removeDurably w e.key (some e) t with ⟨err | _, u⟩
  · trivial
  · have hgone := (removeDurably_ok hr).2
    dsimp only
    rw [Prog.bind_run, Prog.modify_run]
    dsimp only
    rw [Prog.bind_run, appendAudit_run]
    exact hgone

theorem judgedDelete_leaves {candidates : List MemoryEntry} {target : String} (reasoning : String)
    (hin : candidates.any (fun c => c.key = target) = true) :
    Returns (fun t => Untouched w.toConfig anyKey s t ∧ candidates = t.entries.values) (do
        let _ ← delete w target
        pure (PolicyOutcome.stop (.deleted target reasoning)))
      (fun outcome t => ∃ short, outcome = .stop short ∧ ShortLeaves w s short t) := by
  obtain ⟨e, he, hk⟩ := List.any_eq_true.1 hin
  have hk : e.key = target := of_decide_eq_true hk
  subst hk
  rintro t ⟨hs, rfl⟩
  have hcached : t.entries.get? e.key = some e := Table.get?_of_mem he
  have hgone := delete_gone (w := w) t hcached
  rw [Prog.bind_run]
  rcases hr : delete w e.key t with ⟨err | b, u⟩
  · trivial
  · rw [hr] at hgone
    exact ⟨_, rfl, hgone.touched hs hcached⟩

theorem coalesce_coalesced (key : String) :
    Returns (fun _ => True) (coalesce w key) (fun r _ => ∀ short, r = some short →
      ∃ tier confidence memoryGroup, short = .coalesced key tier confidence memoryGroup) := by
  have hreinforce : Returns (fun _ => True) (reinforce w key 0) (fun _ _ => True) := Returns.any
  apply Triple.handle (hreinforce.bind _)
  · intro err
    cases err with
    | keyError k => exact Triple.pure (fun _ _ _ h => nomatch h)
    | _ => exact Triple.raise (fun _ _ => trivial)
  · intro e
    apply Triple.pure
    intro t _ short heq
    cases heq
    exact ⟨_, _, _, rfl⟩

theorem handleDedup_coalesced (key value : String) (dedup : Bool) :
    Returns (fun _ => True) (handleDedup w key value dedup) (fun r _ => ∀ short, r = some short →
      ∃ tier confidence memoryGroup, short = .coalesced key tier confidence memoryGroup) := by
  unfold handleDedup
  split
  · exact Triple.pure (fun _ _ _ h => nomatch h)
  have hcached : Returns (fun _ => True) (ensureEntryCached w key) (fun _ _ => True) := Returns.any
  apply hcached.bind
  intro r
  cases r with
  | none => exact Triple.pure (fun _ _ _ h => nomatch h)
  | some b =>
    dsimp only
    split
    · exact Triple.pure (fun _ _ _ h => nomatch h)
    · exact coalesce_coalesced key

/-- A dedup hit answers for an entry that is cached. -/
theorem handleDedup_leaves {key : String} (value : String) (dedup : Bool) :
    Returns (Untouched w.toConfig anyKey s) (handleDedup w key value dedup)
      (fun r t => ∀ short, r = some short → ShortLeaves w s short t) := by
  apply ((handleDedup_sound value dedup).and (handleDedup_coalesced key value dedup)).mono
    (fun _ h => ⟨h, trivial⟩) _ (fun _ _ _ => trivial)
  rintro r t ⟨hsound, hform⟩ short rfl
  obtain ⟨tier, confidence, memoryGroup, rfl⟩ := hform short rfl
  obtain ⟨b, -, cached, row, hcached, -⟩ := hsound.2
  exact Option.isSome_of_eq_some hcached

/-- What a verdict leaves: an answer, or the store as it was. -/
def PolicyLeaves (w : World) (s : Store) (outcome : PolicyOutcome) (t : Store) : Prop :=
  match outcome with
  | .stop short => ShortLeaves w s short t
  | _ => Untouched w.toConfig anyKey s t

theorem policyNoop_leaves {t : Store} (h : Untouched w.toConfig anyKey s t) (key : String)
    (r : WriteResult) : PolicyLeaves w s (policyNoop key r t) t := by
  unfold policyNoop
  cases (t.entries.get? key).or ((namedTarget r.targetKey).bind t.entries.get?) with
  | some e => trivial
  | none => exact h

theorem applyVerdict_leaves (key : String) (candidates : List MemoryEntry) (r : WriteResult) :
    Returns (fun t => Untouched w.toConfig anyKey s t ∧ candidates = t.entries.values)
      (applyVerdict w key candidates r) (PolicyLeaves w s) := by
  have hproceed : Returns (fun t => Untouched w.toConfig anyKey s t ∧
      candidates = t.entries.values) (pure .proceed : StoreM PolicyOutcome) (PolicyLeaves w s) :=
    Triple.pure (fun _ h => h.1)
  unfold applyVerdict
  split
  · exact Triple.read (fun t h => policyNoop_leaves h.1 key r)
  · split
    · next hin =>
      apply (judgedDelete_leaves r.reasoning hin).mono (fun _ => id) _ (fun _ _ => id)
      rintro outcome t ⟨short, rfl, hs⟩
      exact hs
    · exact hproceed
  · split
    · exact Triple.pure (fun _ h => h.1)
    · exact hproceed
  · exact hproceed

theorem applyWritePolicy_leaves (key value : String) :
    Returns (Untouched w.toConfig anyKey s) (applyWritePolicy w key value) (PolicyLeaves w s) := by
  unfold applyWritePolicy
  split
  · exact Triple.pure (fun _ h => h)
  · next decide _ =>
    apply Returns.bind ((Untouched.discipline w anyKey s).mergeDurableEntries false).returns
    intro _ t ht
    exact applyVerdict_leaves key t.entries.values (decide key value t.entries.values) t ⟨ht.1, rfl⟩

theorem prepareUnder_leaves (a : SaveArgs) (value agentScope : String)
    (mgExplicit : Option (Option String)) (updateKey : Option String) :
    Returns (Untouched w.toConfig anyKey s)
      (prepareUnder w a value agentScope mgExplicit updateKey)
      (fun r t => ∀ short, r = .error short → ShortLeaves w s short t) := by
  have hdedup : Returns (Untouched w.toConfig anyKey s)
      (dedupAndConflicts w (updateKey.getD a.key) value (normalizeSaveTier w.toConfig a.tier)
        a.dedup a.conflictCheck)
      (fun r t => ∀ short, r = .error short → ShortLeaves w s short t) := by
    unfold dedupAndConflicts
    split
    · exact Triple.pure (fun _ _ _ h => nomatch h)
    apply Returns.bind (handleDedup_leaves value a.dedup)
    intro r
    cases r with
    | some short =>
      apply Triple.pure
      intro t h short' heq
      cases heq
      exact h short rfl
    | none => exact Returns.bind Returns.any (fun _ => Triple.pure (fun _ _ _ h => nomatch h))
  apply Returns.bind hdedup
  intro r
  rcases r with short | o
  · apply Triple.pure
    intro t h short' heq
    cases heq
    exact h short rfl
  · exact Triple.pure (fun _ _ _ h => nomatch h)

theorem prepareSave_leaves (a : SaveArgs) :
    Returns (Untouched w.toConfig anyKey s) (prepareSave w a)
      (fun r t => ∀ short, r = .error short → ShortLeaves w s short t) := by
  apply Returns.bind (checkSave_untouched a).returns
  intro r
  rcases r with short | ⟨value, agentScope, mgExplicit⟩
  · apply Triple.pure
    intro t h short' heq
    cases heq
    exact shortLeaves_of_isError (h.2 short rfl) t
  apply Triple.mono (Returns.bind (applyWritePolicy_leaves a.key value) _) (fun _ h => h.1)
    (fun _ _ => id) (fun _ _ => id)
  intro outcome
  cases outcome with
  | stop short =>
    apply Triple.pure
    intro t h short' heq
    cases heq
    exact h
  | proceed => exact prepareUnder_leaves a value agentScope mgExplicit none
  | update target => exact prepareUnder_leaves a value agentScope mgExplicit (some target)

/-- A save answered with a dict that is no error: nothing was to be added, or an entry was
deleted in its place. -/
theorem save_dict_leaves {t : Store} {d : ShortCircuit} (hrun : save w a s = (.ok (.dict d), t))
    (hd : d.isError = false) :
    ShortLeaves w s d t ∧ ((∃ key reasoning, d = .noop key reasoning) ∨
      ∃ key reasoning, d = .deleted key reasoning) := by
  unfold save saveWith at hrun
  cases harg : argumentError w.toConfig a with
  | some msg =>
    rw [harg] at hrun
    cases hrun
  | none =>
    rw [harg] at hrun
    dsimp only at hrun
    rw [Prog.bind_run] at hrun
    rcases hprep : prepareSave w a s with ⟨err | short | p, u⟩
    · rw [hprep] at hrun
      cases hrun
    · rw [hprep] at hrun
      have hleaves := (prepareSave_leaves a).ok (Untouched.refl s) hprep short rfl
      cases short with
      | error code message =>
        cases hrun
        cases hd
      | noop key reasoning =>
        cases hrun
        exact ⟨hleaves, .inl ⟨key, reasoning, rfl⟩⟩
      | deleted key reasoning =>
        cases hrun
        exact ⟨hleaves, .inr ⟨key, reasoning, rfl⟩⟩
      | found e => cases hrun
      | coalesced key tier confidence memoryGroup =>
        obtain ⟨e, he⟩ := Option.isSome_iff_exists.1 hleaves
        simp only [answerShort, Prog.bind_run, getEntry_run, he, Prog.pure_run, Prod.mk.injEq,
          Except.ok.injEq, reduceCtorEq, false_and] at hrun
    · rw [hprep] at hrun
      dsimp only at hrun
      rw [Prog.bind_run] at hrun
      rcases hstore : storePrepared w (maybeConsolidate w) (inferredArgs w.toConfig a) p u with
        ⟨err | entry, v⟩
      · rw [hstore] at hrun
        cases hrun
      · rw [hstore] at hrun
        cases hrun

end Short

/-- A warning names its item first. -/
def Labelled (label reason : String) : Prop := ∃ rest, reason = label ++ rest

section Coerced
variable {c : Config} {pyStr : PyJson → String} {label agent : String} {raw : PyJson}

theorem labelled_self : Labelled label label := ⟨"", (String.append_empty).symm⟩

theorem Labelled.append {reason : String} (h : Labelled label reason) (more : String) :
    Labelled label (reason ++ more) := by
  obtain ⟨rest, rfl⟩ := h
  exact ⟨rest ++ more, String.append_assoc⟩

/-- What is left out names its item. -/
def SkipsLabelled {α : Type} (label : String) (r : Except RelaySkip α) : Prop :=
  ∀ reason, r = .error (.skip reason) → Labelled label reason

theorem skipsLabelled_ok {α : Type} (a : α) : SkipsLabelled label (.ok a : Except RelaySkip α) :=
  fun _ h => nomatch h

theorem Labelled.skips {α : Type} {reason : String} (h : Labelled label reason) :
    SkipsLabelled label (.error (.skip reason) : Except RelaySkip α) := by
  intro reason' heq
  cases heq
  exact h

theorem SkipsLabelled.bind {α β : Type} {r : Except RelaySkip α} {f : α → Except RelaySkip β}
    (h : SkipsLabelled label r) (hf : ∀ a, SkipsLabelled label (f a)) :
    SkipsLabelled label (r >>= f) := by
  cases r with
  | ok a => exact hf a
  | error why =>
    intro reason heq
    apply h reason
    cases heq
    rfl

theorem relayKey_labelled : SkipsLabelled label (relayKey label raw) := by
  unfold relayKey
  split
  · exact (labelled_self.append _).skips
  · exact skipsLabelled_ok _

theorem relayValue_labelled : SkipsLabelled label (relayValue label raw) := by
  unfold relayValue
  split
  · exact skipsLabelled_ok _
  · exact (labelled_self.append _).skips

theorem relayTier_labelled : SkipsLabelled label (relayTier label raw) := by
  unfold relayTier
  split
  · exact skipsLabelled_ok _
  · exact skipsLabelled_ok _
  · exact (labelled_self.append _).skips

theorem relayTags_labelled : SkipsLabelled label (relayTags pyStr label raw) := by
  unfold relayTags
  split
  · exact skipsLabelled_ok _
  · exact skipsLabelled_ok _
  · exact (labelled_self.append _).skips

theorem relayMemoryGroup_labelled : SkipsLabelled label (relayMemoryGroup label raw) := by
  unfold relayMemoryGroup
  dsimp only
  split
  · exact skipsLabelled_ok _
  · split
    · exact (((labelled_self.append _).append _).append _).skips
    · exact skipsLabelled_ok _
  · exact (labelled_self.append _).skips

theorem coerceRelayItem_labelled : SkipsLabelled label (coerceRelayItem c pyStr label agent raw) := by
  unfold coerceRelayItem
  apply relayKey_labelled.bind
  intro key
  apply relayValue_labelled.bind
  intro value
  split
  · exact (((labelled_self.append _).append _).append _).skips
  split
  · exact (labelled_self.append _).skips
  apply relayTier_labelled.bind
  intro tier
  apply relayTags_labelled.bind
  intro tags
  split
  · exact fun _ h => nomatch h
  apply relayMemoryGroup_labelled.bind
  intro memoryGroup
  exact skipsLabelled_ok _

theorem coerceRelayItem_scopes {a : SaveArgs}
    (h : coerceRelayItem c pyStr label agent raw = .ok a) :
    resolveRelayScopes c.unicode pyStr raw = some (a.scope, a.agentScope) := by
  unfold coerceRelayItem at h
  obtain ⟨key, -, h⟩ := bind_eq_ok h
  obtain ⟨value, -, h⟩ := bind_eq_ok h
  split at h
  · cases h
  split at h
  · cases h
  · next memoryScope agentScope hscopes =>
    obtain ⟨tier, -, h⟩ := bind_eq_ok h
    obtain ⟨tags, -, h⟩ := bind_eq_ok h
    split at h
    · cases h
    obtain ⟨memoryGroup, -, h⟩ := bind_eq_ok h
    cases h
    exact hscopes

end Coerced

/-- The save raises nothing that the loop lets through, takes no side effect before it fails, and
is not answered with a deletion. -/
structure SaveFits (w : World) (a : SaveArgs) (s : Store) : Prop where
  caught : ∀ err, (save w a s).1 = .error err → err.valueErrorText ≠ none
  harmless : failed (save w a s).1 = true → ¬ SaveHarms w a s
  adds : ∀ key reasoning, (save w a s).1 ≠ .ok (.dict (.deleted key reasoning))

section Turn
variable (w : World) (pyStr : PyJson → String) (agent : String)

/-- The item converts, and its save fits the store, or it is left out before any save. -/
def ItemFits (idx : Nat) (raw : PyJson) (s : Store) : Prop :=
  match raw with
  | .obj _ =>
    match coerceRelayItem w.toConfig pyStr s!"items[{idx}]" agent raw with
    | .error (.skip _) => True
    | .error .overflow => False
    | .ok a => SaveFits w.exempt a s
  | _ => True

/-- Every item fits the store the items before it leave. -/
def ItemsFit : Nat → List PyJson → Store → Prop
  | _, [], _ => True
  | idx, raw :: rest, s =>
    ItemFits w pyStr agent idx raw s ∧
      ItemsFit (idx + 1) rest (relayItem w pyStr agent idx raw s).2

/-- One save of the item, with the scopes it names. -/
def SavesItem (idx : Nat) (raw : PyJson) (s t : Store) : Prop :=
  ∃ a e, coerceRelayItem w.toConfig pyStr s!"items[{idx}]" agent raw = .ok a ∧
    resolveRelayScopes w.unicode pyStr raw = some (a.scope, a.agentScope) ∧
    save w.exempt a s = (.ok (.entry e), t)

/-- An imported item is saved; a skipped one has its warning and changes nothing. -/
def TurnDone (idx : Nat) (raw : PyJson) (s t : Store) : RelayOutcome → Prop
  | .imported => SavesItem w pyStr agent idx raw s t
  | .skipped reason => Labelled s!"items[{idx}]" reason ∧ Untouched w.toConfig anyKey s t

/-- The outcomes of the items, one by one, and the store they lead to. -/
def TurnsDone : Nat → List PyJson → List RelayOutcome → Store → Store → Prop
  | _, [], outcomes, s, t => outcomes = [] ∧ t = s
  | idx, raw :: rest, outcomes, s, t => ∃ outcome later u,
      outcomes = outcome :: later ∧ relayItem w pyStr agent idx raw s = (.ok outcome, u) ∧
        TurnDone w pyStr agent idx raw s u outcome ∧ TurnsDone (idx + 1) rest later u t

end Turn

/-- `warnings` of one item. -/
def RelayOutcome.warning? : RelayOutcome → Option String
  | .imported => none
  | .skipped reason => some reason

/-- The import returns, accounts for every item, and leaves what the saves of the imported items
leave. -/
def RelayTotal (w : World) (pyStr : PyJson → String) (payload : PyJson) (items : List PyJson)
    (s : Store) : Prop :=
  ∃ r outcomes t, importRelayToStore w pyStr payload s = (.ok r, t) ∧
    TurnsDone w pyStr (relayAgent payload) 0 items outcomes s t ∧
    r.imported + r.skipped = items.length ∧ r.skipped = r.warnings.length ∧
    r.warnings = outcomes.filterMap RelayOutcome.warning?

section Total
variable {w : World} {pyStr : PyJson → String} {agent : String} {s : Store}

/-- What one item comes to when its save runs to an end. -/
theorem saveFits_iff {idx : Nat} {raw : PyJson} {a : SaveArgs}
    (hcoerce : coerceRelayItem w.toConfig pyStr s!"items[{idx}]" agent raw = .ok a) :
    SaveFits w.exempt a s ↔ ∃ outcome t,
      saveRelayItem w s!"items[{idx}]" a s = (.ok outcome, t) ∧
        TurnDone w pyStr agent idx raw s t outcome := by
  unfold saveRelayItem
  rw [Prog.handle_run, Prog.bind_run]
  rcases hrun : save w.exempt a s with ⟨err | e | d, t⟩
  · dsimp only
    cases htext : err.valueErrorText with
    | none =>
      constructor
      · intro h
        exact absurd htext (h.caught err (by rw [hrun]))
      · rintro ⟨outcome, u, h, -⟩
        cases h
    | some msg =>
      have hiff := save_untouched_iff hrun rfl
      constructor
      · intro h
        have hlabel : ∀ label, Labelled label s!"{label}: save error ({msg}), skipped" :=
          fun _ => ((labelled_self.append _).append _).append _
        exact ⟨_, t, rfl, hlabel _, hiff.2 (h.harmless (by rw [hrun]; rfl))⟩
      · rintro ⟨outcome, u, h, hdone⟩
        cases h
        refine ⟨?_, fun _ => hiff.1 hdone.2, ?_⟩
        · intro err' h
          rw [hrun] at h
          cases h
          rw [htext]
          exact nofun
        · rw [hrun]
          exact nofun
  · constructor
    · intro _
      exact ⟨.imported, t, rfl, a, e, hcoerce, coerceRelayItem_scopes hcoerce, hrun⟩
    · intro _
      constructor <;> rw [hrun] <;> exact nofun
  · have hlabel : ∀ label, Labelled label s!"{label}: save blocked ({d.errorCode}), skipped" :=
      fun _ => ((labelled_self.append _).append _).append _
    have hresult : SaveFits w.exempt a s ↔ Untouched w.toConfig anyKey s t := by
      cases hd : d.isError with
      | true =>
        have hiff := save_untouched_iff hrun hd
        constructor
        · intro h
          exact hiff.2 (h.harmless (by rw [hrun]; exact hd))
        · intro h
          refine ⟨?_, fun _ => hiff.1 h, ?_⟩
          · rw [hrun]
            exact nofun
          · intro key reasoning heq
            rw [hrun] at heq
            cases heq
            cases hd
      | false =>
        obtain ⟨hleaves, ⟨key, reasoning, rfl⟩ | ⟨key, reasoning, rfl⟩⟩ := save_dict_leaves hrun hd
        · constructor
          · exact fun _ => hleaves
          · intro _
            constructor <;> rw [hrun] <;> exact nofun
        · constructor
          · intro h
            exact absurd (by rw [hrun]) (h.adds key reasoning)
          · exact fun h => absurd h hleaves
    rw [hresult]
    constructor
    · exact fun h => ⟨_, t, rfl, hlabel _, h⟩
    · rintro ⟨outcome, u, h, hdone⟩
      cases h
      exact hdone.2

theorem itemFits_iff (idx : Nat) (raw : PyJson) :
    ItemFits w pyStr agent idx raw s ↔ ∃ outcome t,
      relayItem w pyStr agent idx raw s = (.ok outcome, t) ∧
        TurnDone w pyStr agent idx raw s t outcome := by
  have hleft (reason : String) (h : Labelled s!"items[{idx}]" reason) :
      ∃ outcome t, (pure (.skipped reason) : StoreM RelayOutcome) s = (.ok outcome, t) ∧
        TurnDone w pyStr agent idx raw s t outcome :=
    ⟨_, s, rfl, h, Untouched.refl s⟩
  cases raw with
  | obj members =>
    rcases hc : coerceRelayItem w.toConfig pyStr s!"items[{idx}]" agent (.obj members) with
      (reason | _) | a
    · simp only [ItemFits, relayItem, hc]
      exact iff_of_true trivial (hleft reason (coerceRelayItem_labelled _ hc))
    · simp only [ItemFits, relayItem, hc]
      apply iff_of_false id
      rintro ⟨outcome, t, h, -⟩
      cases h
    · simp only [ItemFits, relayItem, hc]
      exact saveFits_iff hc
  | _ => exact iff_of_true trivial (hleft _ (labelled_self.append _))

/-- Every turn is done as asked exactly when every item fits. -/
theorem itemsFit_iff (items : List PyJson) (idx : Nat) (s : Store) :
    ItemsFit w pyStr agent idx items s ↔
      ∃ outcomes t, TurnsDone w pyStr agent idx items outcomes s t := by
  induction items generalizing idx s with
  | nil => exact iff_of_true trivial ⟨[], s, rfl, rfl⟩
  | cons raw rest ih =>
    rw [ItemsFit, itemFits_iff]
    constructor
    · rintro ⟨⟨outcome, u, hrun, hdone⟩, hrest⟩
      rw [hrun] at hrest
      obtain ⟨outcomes, t, hdone'⟩ := (ih (idx + 1) u).1 hrest
      exact ⟨outcome :: outcomes, t, outcome, outcomes, u, rfl, hrun, hdone, hdone'⟩
    · rintro ⟨outcomes, t, outcome, later, u, rfl, hrun, hdone, hdone'⟩
      rw [hrun]
      exact ⟨⟨outcome, u, rfl, hdone⟩, (ih (idx + 1) u).2 ⟨later, t, hdone'⟩⟩

theorem TurnsDone.run {items : List PyJson} {outcomes : List RelayOutcome} {idx : Nat}
    {t : Store} (h : TurnsDone w pyStr agent idx items outcomes s t) (r : RelayImportResult) :
    importRelayItems w pyStr agent idx items r s =
      (.ok (outcomes.foldl RelayImportResult.add r), t) := by
  induction items generalizing idx outcomes s r with
  | nil =>
    obtain ⟨rfl, rfl⟩ := h
    rfl
  | cons raw rest ih =>
    obtain ⟨outcome, later, u, rfl, hrun, -, hrest⟩ := h
    rw [importRelayItems, Prog.bind_run, hrun]
    exact ih hrest (r.add outcome)

theorem TurnsDone.length {items : List PyJson} {outcomes : List RelayOutcome} {idx : Nat}
    {t : Store} (h : TurnsDone w pyStr agent idx items outcomes s t) :
    outcomes.length = items.length := by
  induction items generalizing idx outcomes s with
  | nil =>
    obtain ⟨rfl, -⟩ := h
    rfl
  | cons raw rest ih =>
    obtain ⟨outcome, later, u, rfl, -, -, hrest⟩ := h
    rw [List.length_cons, List.length_cons, ih hrest]

/-- What the loop counts of the outcomes it has gone through. -/
theorem foldl_add (outcomes : List RelayOutcome) (r : RelayImportResult) :
    let r' := outcomes.foldl RelayImportResult.add r
    r'.imported + r'.skipped = r.imported + r.skipped + outcomes.length ∧
      r'.warnings = r.warnings ++ outcomes.filterMap RelayOutcome.warning? ∧
      r'.skipped + r.warnings.length = r.skipped + r'.warnings.length := by
  induction outcomes generalizing r with
  | nil => simp
  | cons outcome rest ih =>
    obtain ⟨hcount, hwarnings, hskipped⟩ := ih (r.add outcome)
    cases outcome with
    | imported =>
      refine ⟨?_, hwarnings, hskipped⟩
      rw [List.length_cons]
      simp only [RelayImportResult.add] at hcount
      simp only [List.foldl_cons, RelayImportResult.add]
      omega
    | skipped reason =>
      simp only [RelayImportResult.add, List.length_append, List.length_cons,
        List.length_nil] at hcount hskipped hwarnings
      simp only [List.foldl_cons, RelayImportResult.add, List.length_cons]
      refine ⟨by omega, ?_, by omega⟩
      rw [hwarnings, List.append_assoc]
      rfl

end Total

/-- `items` as `source_agent` hands them over. -/
def relayDocument (items : List PyJson) : PyJson :=
  .obj [("relay_version", .str "1.0"), ("source_agent", .str "helper"), ("items", .arr items)]

/-- No object, and a key that is no text. -/
def strayItems : List PyJson := [.null, .obj [("key", .num (.int 7)), ("value", .str "x")]]

/-- The second confidence is a whole number that no float holds. -/
def hugeItems : List PyJson :=
  [.obj [("key", .str "a"), ("value", .str "x")],
    .obj [("key", .str "b"), ("value", .str "y"), ("confidence", .num (.int (10 ^ 400)))]]

end TappsBrain
