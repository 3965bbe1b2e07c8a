import TappsBrain.Scar

namespace TappsBrain
open Lib
set_option autoImplicit true
set_option relaxedAutoImplicit false

theorem reinforced_createdAt (c : Config) (boost : ℚ) (now : Stamp) (e : MemoryEntry) :
    (reinforced c boost now e).createdAt = e.createdAt := by
  unfold reinforced withStability
  split
  · rfl
  · rfl

/-- An invariant that a rewrite or a removal may break while it runs and has restored when it is
through. `loses` are the removals the invariant does not survive. -/
structure Units (w : World) where
  inv : Store → Prop
  rewrites : MemoryEntry → MemoryEntry → Prop
  loses : MemoryEntry → Store → Prop
  bookkeeping : Bookkeeping inv
  ignoresRelations : IgnoresRelations inv
  hydrate : ∀ s row e, inv s → row ∈ s.rows.values → rowToEntry w.toConfig row = .ok e →
    s.entries.get? e.key = none → inv { s with entries := s.entries.set e }
  rewrite : ∀ s before after, inv s → s.entries.get? before.key = some before →
    rewrites before after → inv (storeRow after { s with entries := s.entries.set after })
  rewrites_key : ∀ before after, rewrites before after → after.key = before.key
  remove : ∀ s e, inv s → s.entries.get? e.key = some e → ¬ loses e s →
    inv ((removeDurably w e.key (some e)).final s)

theorem triple_utcNow {w : World} {P : Store → Prop} {E : Raised → Store → Prop}
    (hP : ∀ s, P s → P s.ticked) : Triple P (utcNow w) (fun _ => P) E :=
  fun s hs => hP s hs

section Meets
variable (w : World) (loses : MemoryEntry → Store → Prop)

/-- Deleting `key` would remove an entry that `loses` names. -/
def DeletionMeets (key : String) (s : Store) : Prop :=
  Leads (ensureEntryCached w key) s (fun r t => ∃ e, r = some e ∧ loses e t)

/-- An eviction among the candidates would remove an entry that `loses` names. -/
def EvictionMeets (candidates : List MemoryEntry) (s : Store) : Prop :=
  ∃ e, lowestConfidence candidates = some e ∧ loses e s

def CountedEvictionMeets (group : Option String) (full : Nat → Prop) (s : Store) : Prop :=
  Leads (countEntriesInMemoryGroup w group) s (fun n t =>
    full n ∧ EvictionMeets loses (inGroup group t.entries.values) t)

def GroupCapMeets (group : Option String) (existing : Option MemoryEntry) (s : Store) : Prop :=
  match w.maxEntriesPerGroup, existing with
  | none, _ => False
  | some capG, none => CountedEvictionMeets w loses group (fun n => capG ≤ n) s
  | some capG, some e =>
    e.memoryGroup ≠ group ∧ CountedEvictionMeets w loses group (fun n => capG < n + 1) s

/-- The caps would evict an entry that `loses` names. -/
def CapsMeet (group : Option String) (existing : Option MemoryEntry) (s : Store) : Prop :=
  GroupCapMeets w loses group existing s ∨ Leads (enforceGroupCap w group existing) s (fun _ t =>
    (existing.isNone && w.maxEntries ≤ t.entries.size) = true ∧
      EvictionMeets loses (preferGroup w group t.entries.values) t)

/-- The verdict would delete an entry that `loses` names. -/
def VerdictMeets (candidates : List MemoryEntry) (r : WriteResult) (s : Store) : Prop :=
  ∃ target, r.decision = .delete ∧ namedTarget r.targetKey = some target ∧
    candidates.any (fun c => c.key = target) = true ∧ DeletionMeets w loses target s

def PolicyMeets (key value : String) (s : Store) : Prop :=
  match w.writePolicy with
  | .deterministic => False
  | .judged decide => Leads (do
      mergeDurableEntries w false
      snapshot) s (fun candidates t =>
        VerdictMeets w loses candidates (decide key value candidates) t)

variable (barred : String → Prop)

/-- The conflict phase would close an entry of a barred key. -/
def ClosingMeets (key value tier : String) (conflictCheck : Bool) (s : Store) : Prop :=
  conflictCheck = true ∧ Leads (planFor w key value tier) s (fun r _ =>
    ∃ plan, r = some plan ∧ ∃ p ∈ plan.invalidations, barred p.1)

/-- A save whose key the policy has settled would reinforce or close an entry of a barred key. -/
def SettledMeets (a : SaveArgs) (value : String) (updateKey : Option String) (s : Store) : Prop :=
  barred (updateKey.getD a.key) ∨
    Leads (handleDedup w (updateKey.getD a.key) value a.dedup) s (fun r t => r = none ∧
      ClosingMeets w barred (updateKey.getD a.key) value (normalizeSaveTier w.toConfig a.tier)
        a.conflictCheck t)

/-- The preparation of a save would remove an entry that `loses` names, or rewrite one of a barred
key. -/
def PrepareMeets (a : SaveArgs) (s : Store) : Prop :=
  Leads (checkSave w a) s (fun r t => match r with
    | .error _ => False
    | .ok (value, _, _) =>
      PolicyMeets w loses a.key value t ∨ Leads (applyWritePolicy w a.key value) t (fun outcome v =>
        match outcome with
        | .stop _ => False
        | .update target => SettledMeets w barred a value (some target) v
        | .proceed => SettledMeets w barred a value none v))

end Meets

namespace Units
variable {w : World} (u : Units w)

/-- What only reads and hydrates keeps the invariant at every step. -/
def reader : Discipline w where
  inv := u.inv
  sees := fun _ => True
  writes := fun _ => False
  frees := fun _ => False
  reads := fun _ => True
  bookkeeping := u.bookkeeping
  ignoresRelations := u.ignoresRelations
  cached := fun _ _ _ _ => trivial
  loads := fun _ _ _ _ _ _ => trivial
  hydrate := u.hydrate
  assign := fun _ _ _ h => h.elim
  store := fun _ _ _ h => h.elim
  pop := fun _ _ _ h => h.elim
  drop := fun _ _ _ h => h.elim
  filter := fun _ _ _ h => (h "").elim
  frees_of_writes := fun _ h => h.elim
  reading := fun _ _ => trivial

section Rewrite

theorem ensureEntryCached (key : String) :
    Triple u.inv (ensureEntryCached w key)
      (fun r s => u.inv s ∧ ∀ e, r = some e → s.entries.get? key = some e ∧ e.key = key)
      (fun _ => u.inv) := by
  intro s hs
  have hkeeps := u.reader.ensureEntryCached key s hs
  rcases hr : TappsBrain.ensureEntryCached w key s with ⟨err | r, t⟩
  · rw [hr] at hkeeps
    exact hkeeps
  · rw [hr] at hkeeps
    refine ⟨hkeeps.1, ?_⟩
    rintro e rfl
    exact ensureEntryCached_slot hr

theorem rewriteEntry {before after : MemoryEntry} (h : u.rewrites before after) :
    Triple (fun s => u.inv s ∧ s.entries.get? before.key = some before)
      (rewriteEntry w before after)
      (fun _ s => u.inv s ∧ s.entries.get? after.key = some after) (fun _ => u.inv) := by
  rintro s ⟨hs, hslot⟩
  rw [rewriteEntry_run w (u.rewrites_key before after h) hslot]
  split
  · next heq =>
    split at heq
    · cases heq
      exact ⟨u.bookkeeping.calls _ (u.rewrite s before after hs hslot h), Table.get?_set_self _ _⟩
    · cases heq
  · next heq =>
    split at heq
    · cases heq
    · cases heq
      exact u.bookkeeping.calls s hs

/-- What `f` makes of the entry found under `key` may be written over it. -/
def Allows (key : String) (f : Stamp → MemoryEntry → MemoryEntry) : Prop :=
  ∀ e now, e.key = key → u.rewrites e (f now e)

/-- Reading an entry, then the clock, then rewriting the entry. -/
theorem rewriteFound {key : String} {f : Stamp → MemoryEntry → MemoryEntry} {e : MemoryEntry}
    {next : MemoryEntry → StoreM α} {Q : α → Prop} (h : u.Allows key f)
    (hnext : ∀ e', e'.key = key → Triple
      (fun s => u.inv s ∧ s.entries.get? e'.key = some e') (next e')
      (fun a s => u.inv s ∧ Q a) (fun _ => u.inv)) :
    Triple (fun s => u.inv s ∧ s.entries.get? key = some e ∧ e.key = key)
      (do
        let now ← utcNow w
        TappsBrain.rewriteEntry w e (f now e)
        next (f now e))
      (fun a s => u.inv s ∧ Q a) (fun _ => u.inv) := by
  intro s hs
  rw [Prog.bind_run, utcNow_run]
  have hkey : e.key = key := hs.2.2
  have hslot : s.ticked.entries.get? e.key = some e := by
    rw [hkey]
    exact hs.2.1
  have hallowed := h e (w.clock s.ticks) hkey
  have hafter : (f (w.clock s.ticks) e).key = key := (u.rewrites_key _ _ hallowed).trans hkey
  have hrest := (u.rewriteEntry hallowed).bind (fun _ => hnext _ hafter)
  exact hrest s.ticked ⟨u.bookkeeping.ticks s hs.1, hslot⟩

theorem done {Q : α → Prop} {a : α} (e : MemoryEntry) (h : Q a) :
    Triple (fun s => u.inv s ∧ s.entries.get? e.key = some e) (pure a : StoreM α)
      (fun a s => u.inv s ∧ Q a) (fun _ => u.inv) :=
  Triple.pure (fun _ hs => ⟨hs.1, h⟩)

/-- A program that hydrates an entry and goes on with it, if there is one. -/
theorem withFound {key : String} {next : Option MemoryEntry → StoreM α} {Q : α → Prop}
    (hnone : Keeps u.inv (next none) Q)
    (hsome : ∀ e, Triple (fun s => u.inv s ∧ s.entries.get? key = some e ∧ e.key = key)
      (next (some e)) (fun a s => u.inv s ∧ Q a) (fun _ => u.inv)) :
    Keeps u.inv (TappsBrain.ensureEntryCached w key >>= next) Q := by
  apply Triple.bind (u.ensureEntryCached key)
  intro r
  cases r with
  | none => exact Triple.mono hnone (fun _ hs => hs.1) (fun _ _ => id) (fun _ _ => id)
  | some e =>
    apply Triple.mono (hsome e) _ (fun _ _ => id) (fun _ _ => id)
    intro s hs
    exact ⟨hs.1, hs.2 e rfl⟩

theorem updateFields {key : String} {patch : FieldPatch} (h : u.Allows key patch.apply) :
    Keeps u.inv (updateFields w key patch) := by
  apply u.withFound
  · exact Keeps.pure trivial
  · exact fun e => u.rewriteFound h (fun e' _ => u.done e' trivial)

theorem closeValidity {key reason : String} {supersededBy detail : Option String}
    (h : ∀ status, closeValidityStatus reason = some status →
      u.Allows key (fun now => closeWith reason status now supersededBy detail)) :
    Keeps u.inv (closeValidity w key reason supersededBy detail) := by
  apply u.reader.utcNow.bind
  intro now _
  cases hr : closeValidityStatus reason with
  | none => exact Keeps.ofExcept (fun _ _ => trivial)
  | some status =>
    have hallows : u.Allows key (closePatch reason status now supersededBy detail).apply := by
      intro e now' hkey
      rw [closePatch_apply]
      exact h status hr e now hkey
    apply (u.updateFields hallows).bind
    intro r _
    cases r with
    | none => exact Keeps.pure trivial
    | some e => exact (u.reader.appendAudit key _).bind (fun _ _ => Keeps.pure trivial)

/-- An escalation of the tier may be written over an entry of `key`. -/
def AllowsPromoted (key : String) : Prop :=
  ∀ e now target, e.key = key → u.rewrites e (promoted w.toConfig target now e)

theorem maybePromoteAfterReinforce {updated : MemoryEntry} (h : u.AllowsPromoted updated.key) :
    Triple (fun s => u.inv s ∧ s.entries.get? updated.key = some updated)
      (maybePromoteAfterReinforce w updated) (fun _ s => u.inv s ∧ True) (fun _ => u.inv) := by
  unfold TappsBrain.maybePromoteAfterReinforce
  split
  · exact u.done updated trivial
  apply Triple.handle (E := fun _ => u.inv)
  · apply Triple.bind (triple_utcNow (fun _ hs => ⟨u.bookkeeping.ticks _ hs.1, hs.2⟩))
    intro checkedAt
    split
    · exact u.done updated trivial
    · next target _ =>
      apply Triple.bind (triple_utcNow (fun _ hs => ⟨u.bookkeeping.ticks _ hs.1, hs.2⟩))
      intro now
      apply (u.rewriteEntry (h updated now target rfl)).bind
      intro _
      have haudit := (u.reader.appendAudit updated.key (.tierEscalate updated.tier.text target
        updated.accessCount updated.reinforceCount)).bind (R := fun _ => True)
        (fun _ _ => Keeps.pure (a := promoted w.toConfig target now updated) trivial)
      exact Triple.mono haudit (fun _ hs => hs.1) (fun _ _ => id) (fun _ _ => id)
  · exact fun _ => Triple.pure (fun _ hs => ⟨hs, trivial⟩)

theorem reinforce {key : String} {boost : ℚ} (h : u.Allows key (reinforced w.toConfig boost))
    (hp : u.AllowsPromoted key) : Keeps u.inv (reinforce w key boost) := by
  apply u.withFound
  · exact Keeps.raise
  · intro e
    apply u.rewriteFound h
    intro e' hk
    exact u.maybePromoteAfterReinforce (hk ▸ hp)

end Rewrite

section Remove

/-- The removal of an entry that is cached. -/
theorem removeDurably (e : MemoryEntry) :
    Triple (fun s => u.inv s ∧ s.entries.get? e.key = some e ∧ ¬ u.loses e s)
      (removeDurably w e.key (some e)) (fun _ s => u.inv s) (fun _ => u.inv) := by
  intro s hs
  have hfinal := u.remove s e hs.1 hs.2.1 hs.2.2
  unfold Prog.final at hfinal
  rcases hr : TappsBrain.removeDurably w e.key (some e) s with ⟨err | _, t⟩
  · rwa [hr] at hfinal
  · rwa [hr] at hfinal

theorem delete (key : String) : KeepsUnless u.inv (DeletionMeets w u.loses key) (delete w key) := by
  rintro s ⟨hs, hd⟩
  have hfound := u.ensureEntryCached key s hs
  unfold TappsBrain.delete
  rw [Prog.bind_run]
  rcases hr : TappsBrain.ensureEntryCached w key s with ⟨err | _ | e, t⟩
  · rw [hr] at hfound
    exact hfound
  · rw [hr] at hfound
    exact ⟨hfound.1, trivial⟩
  · rw [hr] at hfound
    obtain ⟨hslot, hkey⟩ := hfound.2 e rfl
    subst hkey
    have hkept : ¬ u.loses e t := fun hl => hd ⟨some e, t, hr, e, rfl, hl⟩
    have hrest : Triple (fun t => u.inv t ∧ t.entries.get? e.key = some e ∧ ¬ u.loses e t) (do
        TappsBrain.removeDurably w e.key (some e)
        Prog.modify (fun s => { s with relations := purgeBuckets e.key s })
        appendAudit w e.key (.delete e.tier.text)
        pure true) (fun _ s => u.inv s ∧ True) (fun _ => u.inv) := by
      apply (u.removeDurably e).bind
      intro _
      have hpurge : Keeps u.inv (do
          Prog.modify (fun s : Store => { s with relations := purgeBuckets e.key s })
          appendAudit w e.key (.delete e.tier.text)
          pure true) := by
        apply Keeps.bind (Keeps.modify (fun s hs => u.ignoresRelations.cached s _ hs))
        intro _ _
        exact (u.reader.appendAudit e.key _).bind (fun _ _ => Keeps.pure trivial)
      exact hpurge
    exact hrest t ⟨hfound.1, hslot, hkept⟩

theorem evictLowest (choose : List MemoryEntry → List MemoryEntry)
    (hsub : ∀ entries, ∀ e ∈ choose entries, e ∈ entries) :
    KeepsUnless u.inv (fun s => EvictionMeets u.loses (choose s.entries.values) s) (do
      let entries ← snapshot
      evictLowest w (choose entries)) := by
  rintro s ⟨hs, hd⟩
  have hrun : (do
      let entries ← snapshot
      TappsBrain.evictLowest w (choose entries)) s =
        TappsBrain.evictLowest w (choose s.entries.values) s := rfl
  rw [hrun]
  unfold TappsBrain.evictLowest
  cases hl : lowestConfidence (choose s.entries.values) with
  | none => exact ⟨hs, trivial⟩
  | some e =>
    have hslot : s.entries.get? e.key = some e :=
      Table.get?_of_mem (hsub _ e (mem_lowestConfidence hl))
    have hkept : ¬ u.loses e s := fun h => hd ⟨e, hl, h⟩
    dsimp only
    unfold evictEntryKey
    rw [Prog.bind_run, getEntry_run, hslot]
    have hrest := (u.removeDurably e).bind (R := fun _ s => u.inv s ∧ True)
      (fun _ => u.reader.popBucket e.key)
    exact hrest s ⟨hs, hslot, hkept⟩

theorem countAndEvict (group : Option String) (full : Nat → Prop) [DecidablePred full] :
    KeepsUnless u.inv (CountedEvictionMeets w u.loses group full) (do
      let n ← countEntriesInMemoryGroup w group
      if full n then evictLowestConfidenceInGroup w group else pure ()) := by
  apply KeepsUnless.after (u.reader.countEntriesInMemoryGroup group)
  intro n _
  by_cases hfull : full n
  · simp only [hfull, ↓reduceIte, true_and]
    exact u.evictLowest (inGroup group) (fun _ _ => List.mem_of_mem_filter)
  · simp only [hfull, ↓reduceIte, false_and]
    exact (Keeps.pure trivial).unless

theorem enforceGroupCap (group : Option String) (existing : Option MemoryEntry) :
    KeepsUnless u.inv (GroupCapMeets w u.loses group existing)
      (enforceGroupCap w group existing) := by
  unfold TappsBrain.enforceGroupCap GroupCapMeets
  cases w.maxEntriesPerGroup with
  | none => exact (Keeps.pure trivial).unless
  | some capG =>
    cases existing with
    | none => exact u.countAndEvict group (fun n => capG ≤ n)
    | some e =>
      dsimp only
      by_cases hmoved : e.memoryGroup ≠ group
      · rw [if_pos hmoved]
        apply (u.countAndEvict group (fun n => capG < n + 1)).mono _ (fun _ => id)
        exact fun _ _ h => ⟨hmoved, h⟩
      · rw [if_neg hmoved]
        exact (Keeps.pure trivial).unless

theorem enforceEntryCapsBeforeAssign (group : Option String) (existing : Option MemoryEntry) :
    KeepsUnless u.inv (CapsMeet w u.loses group existing)
      (enforceEntryCapsBeforeAssign w group existing) := by
  apply (u.enforceGroupCap group existing).bind
  rintro _ _ s ⟨hs, hd⟩
  rw [Prog.bind_run, Prog.read_run]
  dsimp only
  cases hfull : existing.isNone && w.maxEntries ≤ s.entries.size with
  | false => exact ⟨hs, trivial⟩
  | true =>
    have hevict := u.evictLowest (preferGroup w group) (fun _ _ => mem_preferGroup)
    exact hevict s ⟨hs, fun h => hd ⟨hfull, h⟩⟩

end Remove

/-- What the build step replaces is cached when it is through. -/
theorem buildEntry (a : SaveArgs) (mgExplicit : Option (Option String)) :
    Triple u.inv (buildEntry w a mgExplicit)
      (fun r s => u.inv s ∧ r.1.key = a.key ∧ ∀ b, r.2 = some b → s.entries.get? a.key = some b)
      (fun _ => u.inv) := by
  apply Triple.bind (u.ensureEntryCached a.key)
  intro existing
  have hrest : Keeps (fun s => u.inv s ∧ ∀ b, existing = some b → s.entries.get? a.key = some b)
      (do
        let tierVal ← Prog.ofExcept (resolveTierValue w.toConfig a.tier)
        let now ← utcNow w
        let entry ← Prog.ofExcept (constructMemoryEntry w.toConfig a tierVal
          (mgExplicit.getD (existing.bind (·.memoryGroup))) existing now)
        pure (stampIntegrityHash w.toConfig entry, existing))
      (fun r => r.1.key = a.key ∧ r.2 = existing) := by
    have htier : Keeps (fun s => u.inv s ∧ ∀ b, existing = some b → s.entries.get? a.key = some b)
        (Prog.ofExcept (resolveTierValue w.toConfig a.tier)) := Keeps.ofExcept (fun _ _ => trivial)
    apply htier.bind
    intro tierVal _
    have hclock : Keeps (fun s => u.inv s ∧ ∀ b, existing = some b → s.entries.get? a.key = some b)
        (utcNow w) := fun s hs => ⟨⟨u.bookkeeping.ticks s hs.1, hs.2⟩, trivial⟩
    apply hclock.bind
    intro now _
    apply (Keeps.ofExcept (fun e he => he)).bind
    intro e he
    apply Keeps.pure
    refine ⟨?_, rfl⟩
    rw [stampIntegrityHash_key]
    exact constructMemoryEntry_key he
  apply Triple.mono hrest
  · exact fun s hs => ⟨hs.1, fun b hb => (hs.2 b hb).1⟩
  · rintro r s ⟨⟨hs, hslot⟩, hkey, hex⟩
    exact ⟨hs, hkey, fun b hb => hslot b (hex ▸ hb)⟩
  · exact fun _ s hs => hs.1

section Prepare
variable {barred : String → Prop}

/-- Entries of keys that are not barred may be reinforced and closed. -/
structure AllowsPrepare (barred : String → Prop) : Prop where
  reinforce : ∀ key, ¬ barred key → u.Allows key (reinforced w.toConfig 0)
  promote : ∀ key, ¬ barred key → u.AllowsPromoted key
  invalidate : ∀ e now reason, ¬ barred e.key → u.rewrites e (invalidatedBy now reason e)

theorem invalidateOne {current invalidated : MemoryEntry} (h : u.rewrites current invalidated) :
    Triple (fun s => u.inv s ∧ s.entries.get? current.key = some current)
      (invalidateOne w current invalidated) (fun _ => u.inv) (fun _ => u.inv) := by
  rintro s ⟨hs, hslot⟩
  rw [invalidateOne_run w (u.rewrites_key current invalidated h) hslot]
  cases accepts w s invalidated with
  | true => exact u.bookkeeping.calls _ (u.rewrite s current invalidated hs hslot h)
  | false => exact u.bookkeeping.calls s hs

theorem invalidateAll (h : u.AllowsPrepare barred) (now : Stamp) (plan : List (String × String))
    (hplan : ∀ p ∈ plan, ¬ barred p.1) : Keeps u.inv (invalidateAll w now plan) := by
  induction plan with
  | nil => exact Keeps.pure trivial
  | cons p rest ih =>
    have hrest := ih (fun p' hp' => hplan p' (List.mem_cons_of_mem p hp'))
    intro s hs
    unfold TappsBrain.invalidateAll
    rw [Prog.bind_run, getEntry_run]
    cases hc : s.entries.get? p.1 with
    | none => exact hrest s hs
    | some current =>
      have hkey : current.key = p.1 := Table.key_of_get? hc
      dsimp only
      cases hi : current.invalidAt.isSome with
      | true => exact hrest s hs
      | false =>
        have hopen : ¬ barred current.key := hkey ▸ hplan p List.mem_cons_self
        have hone := (u.invalidateOne (h.invalidate current now p.2 hopen)).bind
          (invalidateRest_keeps hrest p.1)
        exact hone s ⟨hs, hkey ▸ hc⟩

theorem closePlan (h : u.AllowsPrepare barred) (plan : ConflictPlan)
    (hplan : ∀ p ∈ plan.invalidations, ¬ barred p.1) :
    Keeps u.inv (do
      match ← TappsBrain.invalidateAll w plan.now plan.invalidations with
      | none => pure {}
      | some keys => do
        Prog.forEach (closeConflictAudit w plan.now) keys
        pure
          { validAt := some plan.now
            invalidatedKeys := keys
            invalidatedDetail := (plan.audit.filter (fun row => keys.contains row.key)).map
              (fun row => ⟨row.key, row.similarity, row.tier, plan.similarityThreshold⟩) :
            ConflictOutcome }) := by
  apply (u.invalidateAll h plan.now plan.invalidations hplan).bind
  intro r _
  cases r with
  | none => exact Keeps.pure trivial
  | some keys =>
    apply (Keeps.forEach keys (fun k _ => u.reader.appendAudit k _)).bind
    exact fun _ _ => Keeps.pure trivial

theorem handleConflicts (h : u.AllowsPrepare barred) (key value tier : String)
    (conflictCheck : Bool) :
    KeepsUnless u.inv (ClosingMeets w barred key value tier conflictCheck)
      (handleConflicts w key value tier conflictCheck) := by
  unfold TappsBrain.handleConflicts ClosingMeets
  cases conflictCheck with
  | false => exact (Keeps.pure trivial).unless
  | true =>
    simp only [Bool.not_true, Bool.false_eq_true, ↓reduceIte, true_and]
    apply KeepsUnless.after (u.reader.planFor key value tier)
    intro r _
    cases r with
    | none => exact (Keeps.pure trivial).unless
    | some plan =>
      rintro s ⟨hs, hd⟩
      have hplan : ∀ p ∈ plan.invalidations, ¬ barred p.1 :=
        fun p hp hb => hd ⟨plan, rfl, p, hp, hb⟩
      exact u.closePlan h plan hplan s hs

theorem handleDedup (h : u.AllowsPrepare barred) {key : String} (hkey : ¬ barred key)
    (value : String) (dedup : Bool) : Keeps u.inv (handleDedup w key value dedup) := by
  unfold TappsBrain.handleDedup
  split
  · exact Keeps.pure trivial
  apply (u.reader.ensureEntryCached key).forget.bind
  intro r _
  cases r with
  | none => exact Keeps.pure trivial
  | some e =>
    dsimp only
    split
    · exact Keeps.pure trivial
    apply Keeps.handle
    · apply (u.reinforce (h.reinforce key hkey) (h.promote key hkey)).bind
      exact fun _ _ => Keeps.pure trivial
    · intro err
      cases err with
      | keyError _ => exact Keeps.pure trivial
      | _ => exact Keeps.raise

theorem applyVerdict (key : String) (candidates : List MemoryEntry) (r : WriteResult) :
    KeepsUnless u.inv (VerdictMeets w u.loses candidates r) (applyVerdict w key candidates r) := by
  unfold TappsBrain.applyVerdict
  split
  · exact Keeps.ask.unless
  · next target hd ht =>
    split
    · next hin =>
      have hdelete := (u.delete target).before (R := fun _ => True)
        (fun _ _ => Keeps.pure (a := PolicyOutcome.stop (.deleted target r.reasoning)) trivial)
      exact hdelete.mono (fun _ _ h => ⟨target, hd, ht, hin, h⟩) (fun _ => id)
    · exact (Keeps.pure trivial).unless
  · split
    · exact (Keeps.pure trivial).unless
    · exact (Keeps.pure trivial).unless
  · exact (Keeps.pure trivial).unless

theorem applyWritePolicy (key value : String) :
    KeepsUnless u.inv (PolicyMeets w u.loses key value) (applyWritePolicy w key value) := by
  unfold TappsBrain.applyWritePolicy PolicyMeets
  cases w.writePolicy with
  | deterministic => exact (Keeps.pure trivial).unless
  | judged decide =>
    dsimp only
    rw [← Prog.bind_assoc]
    have hread : Keeps u.inv (do
        mergeDurableEntries w false
        snapshot) :=
      (u.reader.mergeDurableEntries false).bind (fun _ _ => u.reader.snapshot.forget)
    apply KeepsUnless.after hread
    exact fun candidates _ => u.applyVerdict key candidates (decide key value candidates)

theorem prepareUnder (h : u.AllowsPrepare barred) (a : SaveArgs) (value agentScope : String)
    (mgExplicit : Option (Option String)) (updateKey : Option String) :
    KeepsUnless u.inv (SettledMeets w barred a value updateKey)
      (prepareUnder w a value agentScope mgExplicit updateKey) := by
  by_cases hkey : barred (updateKey.getD a.key)
  · rintro s ⟨-, hd⟩
    exact absurd (.inl hkey) hd
  have hphases : KeepsUnless u.inv (SettledMeets w barred a value updateKey)
      (dedupAndConflicts w (updateKey.getD a.key) value (normalizeSaveTier w.toConfig a.tier)
        a.dedup a.conflictCheck) := by
    unfold dedupAndConflicts
    split
    · exact (Keeps.pure trivial).unless
    have hmeets : ∀ s, Leads (TappsBrain.handleDedup w (updateKey.getD a.key) value a.dedup) s
        (fun r t => r = none ∧ ClosingMeets w barred (updateKey.getD a.key) value
          (normalizeSaveTier w.toConfig a.tier) a.conflictCheck t) →
        SettledMeets w barred a value updateKey s := fun _ h => .inr h
    apply KeepsUnless.mono _ (fun s _ => hmeets s) (fun _ => id)
    apply KeepsUnless.after (u.handleDedup h hkey value a.dedup)
    intro r _
    cases r with
    | some d => exact (Keeps.pure trivial).unless
    | none =>
      simp only [true_and]
      apply (u.handleConflicts h (updateKey.getD a.key) value
        (normalizeSaveTier w.toConfig a.tier) a.conflictCheck).before
      exact fun _ _ => Keeps.pure trivial
  apply hphases.before
  intro r _
  cases r with
  | error d => exact Keeps.pure trivial
  | ok o => exact Keeps.pure trivial

theorem prepareSave (h : u.AllowsPrepare barred) (a : SaveArgs) :
    KeepsUnless u.inv (PrepareMeets w u.loses barred a) (prepareSave w a) := by
  apply KeepsUnless.after (u.reader.checkSave a).forget
  intro r _
  rcases r with short | ⟨value, agentScope, mgExplicit⟩
  · exact (Keeps.pure trivial).unless
  apply (u.applyWritePolicy a.key value).bind
  intro outcome _
  cases outcome with
  | stop short => exact (Keeps.pure trivial).unless
  | update target => exact u.prepareUnder h a value agentScope mgExplicit (some target)
  | proceed => exact u.prepareUnder h a value agentScope mgExplicit none

end Prepare
end Units
end TappsBrain
