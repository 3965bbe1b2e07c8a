import TappsBrain.BatchDiscipline
import TappsBrain.OutOfBand

namespace TappsBrain
open Lib
set_option autoImplicit true
set_option relaxedAutoImplicit false
-- Unfolding `Keeps` would run the program it speaks of.
attribute [local irreducible] Keeps

/-- `verify_integrity_hash`. -/
def verifyIntegrityHash (c : Config) (key value tier source storedHash : String) : Bool :=
  c.computeIntegrityHash key value tier source = storedHash

/-- A row that carries a hash verifies. -/
def Verifies (c : Config) (e : MemoryEntry) : Prop :=
  ∀ storedHash, e.integrityHash = some storedHash →
    verifyIntegrityHash c e.key e.value e.tier.text e.source.text storedHash = true

/-- The row verifies, and loading it leaves the tier that its hash covers. -/
structure Sealed (c : Config) (e : MemoryEntry) : Prop where
  verifies : Verifies c e
  settled : e.integrityHash.isSome = true → (canonicalTier c.unicode e.tier).text = e.tier.text

/-- The hash and the fields it covers. -/
def MemoryEntry.hashed (e : MemoryEntry) : String × String × Tier × MemorySource × Option String :=
  (e.key, e.value, e.tier, e.source, e.integrityHash)

theorem MemoryTier.ofText_text (t : MemoryTier) : MemoryTier.ofText t.text = some t := by
  cases t <;> decide

/-- The canonical tier depends on the text of a tier only. -/
theorem canonicalTier_text_congr (u : Unicode) {t t' : Tier} (h : t.text = t'.text) :
    (canonicalTier u t).text = (canonicalTier u t').text := by
  have hstd : ∀ (t : MemoryTier) (name : String), name = t.text →
      canonicalTier u (.layer name) = .std t := by
    intro t name hname
    rw [canonicalTier, hname, MemoryTier.ofText_text]
  cases t with
  | std t =>
    cases t' with
    | std t' => exact h
    | layer name => rw [hstd t name h.symm, canonicalTier]
  | layer name =>
    cases t' with
    | std t' => rw [hstd t' name h, canonicalTier]
    | layer name' =>
      have hname : name = name' := h
      rw [hname]

theorem canonicalTier_idem (u : Unicode) (t : Tier) :
    canonicalTier u (canonicalTier u t) = canonicalTier u t := by
  cases t with
  | std t => rfl
  | layer name =>
    cases h : MemoryTier.ofText name with
    | some t => simp only [canonicalTier, h]
    | none =>
      cases h' : MemoryTier.ofText (u.lower (strip name)) with
      | some t => simp only [canonicalTier, h, h']
      | none => simp only [canonicalTier, h, h']

namespace Sealed
variable {c : Config} {e e' : MemoryEntry}

theorem of_hashed (h : Sealed c e) (heq : e'.hashed = e.hashed) : Sealed c e' := by
  simp only [MemoryEntry.hashed, Prod.mk.injEq] at heq
  obtain ⟨hkey, hvalue, htier, hsource, hhash⟩ := heq
  constructor
  · intro storedHash hstored
    rw [hkey, hvalue, htier, hsource]
    exact h.verifies storedHash (hhash ▸ hstored)
  · intro hsome
    rw [htier]
    exact h.settled (hhash ▸ hsome)

theorem stamped (e : MemoryEntry) (h : (canonicalTier c.unicode e.tier).text = e.tier.text) :
    Sealed c (stampIntegrityHash c e) := by
  constructor
  · intro storedHash hstored
    cases hstored
    exact decide_eq_true rfl
  · exact fun _ => h

/-- A row keeps its seal when it is loaded. -/
theorem hydrated {row : MemoryEntry} (he : rowToEntry c row = .ok e) (h : Sealed c row) :
    Sealed c e := by
  obtain ⟨-, rfl⟩ := rowToEntry_ok he
  constructor
  · intro storedHash hstored
    have hsome : row.integrityHash.isSome = true := Option.isSome_of_eq_some hstored
    have htier : (row.normalised c.unicode).tier.text = row.tier.text := h.settled hsome
    rw [htier]
    exact h.verifies storedHash hstored
  · intro _
    exact congrArg Tier.text (canonicalTier_idem c.unicode row.tier)

theorem built {a : SaveArgs} {tierVal : Tier} {mg : Option String} {existing : Option MemoryEntry}
    {now : Stamp} (he : constructMemoryEntry c a tierVal mg existing now = .ok e) :
    Sealed c (stampIntegrityHash c e) := by
  obtain ⟨revived, source, scope, -, -, rfl⟩ := constructMemoryEntry_ok he
  exact stamped _ (congrArg Tier.text (canonicalTier_idem c.unicode _))

end Sealed

section Hashed
variable (c : Config)

theorem upserted_hashed (rows : Table MemoryEntry.key) (e : MemoryEntry) :
    (upserted rows e).hashed = e.hashed := by
  rw [upserted]
  split
  · rfl
  · rfl

theorem closeWith_hashed (reason : String) (status : MemoryStatus) (now : Stamp)
    (succ detail : Option String) (e : MemoryEntry) :
    (closeWith reason status now succ detail e).hashed = e.hashed := by
  cases status <;> rfl

theorem withStability_hashed (before e : MemoryEntry) (useful : Bool) (now : Stamp) :
    (withStability c before useful now e).hashed = e.hashed := by
  rw [withStability]
  split
  · rfl
  · rfl

theorem reinforced_hashed (boost : ℚ) (now : Stamp) (e : MemoryEntry) :
    (reinforced c boost now e).hashed = e.hashed :=
  withStability_hashed c e (reinforceUpdates c boost now e) true now

theorem accessRecorded_hashed (useful : Bool) (now : Stamp) (e : MemoryEntry) :
    (accessRecorded c useful now e).hashed = e.hashed :=
  withStability_hashed c e _ useful now

end Hashed

/-- The profile escalates rows to no other spelling of a built-in tier. -/
def Config.EscalatesPlainly (c : Config) : Prop :=
  ∀ p, c.profile = some p → ∀ layer ∈ p.layers, ∀ target,
    layer.promotionTo = some target ∨ layer.demotionTo = some target →
      canonicalTier c.unicode (Tier.ofText target) = Tier.ofText target

namespace Config.EscalatesPlainly
variable {c : Config} {e : MemoryEntry} {now : Stamp} {target : String}

theorem layer (h : c.EscalatesPlainly) {tier : String} {l : LayerDefinition}
    (hl : c.profile.bind (·.getLayer tier) = some l)
    (ht : l.promotionTo = some target ∨ l.demotionTo = some target) :
    canonicalTier c.unicode (Tier.ofText target) = Tier.ofText target := by
  obtain ⟨p, hp, hget⟩ := Option.bind_eq_some_iff.1 hl
  exact h p hp l (List.mem_of_find?_eq_some hget) target ht

theorem promotion (h : c.EscalatesPlainly) (hc : checkPromotion c e now = some target) :
    canonicalTier c.unicode (Tier.ofText target) = Tier.ofText target := by
  rw [checkPromotion] at hc
  split at hc
  · next l hl =>
    split at hc
    · exact h.layer hl (.inl hc)
    · cases hc
  · cases hc

theorem demotion (h : c.EscalatesPlainly) (hc : checkDemotion c e now = some target) :
    canonicalTier c.unicode (Tier.ofText target) = Tier.ofText target := by
  rw [checkDemotion] at hc
  split at hc
  · next l hl =>
    split at hc
    · exact h.layer hl (.inr hc)
    · cases hc
  · cases hc

end Config.EscalatesPlainly

/-- The calls that write rows of the table, a raw upsert of an event among them. -/
inductive WriteCall where
  | get (key : String)
  | save (a : SaveArgs)
  | saveMany (items : List SaveArgs)
  | supersede (oldKey newValue : String) (kw : SaveKwargs)
  | reinforce (key : String) (boost : ℚ)
  | recordAccess (key : String) (wasUseful : Bool)
  | updateTags (key : String) (add remove : List String)
  | closeValidity (key reason : String) (supersededBy detail : Option String)
  | undoSaveConflict (key : String) (dryRun : Bool)
  | promoteLearning (key signal actor : String) (evidence : Option String)
  | demoteLearning (key reason : String)
  | delete (key : String)
  | gc (dryRun : Bool)
  | refreshDecay (dryRun : Bool)
  | scan (group : List MemoryEntry → List MergePlan)
  | undoConsolidationMerge (key : String)
  | recordMemory (agentId : String) (maxEntries : Nat) (now : Stamp) (m : MemorySpec)

/-- The store a call leaves, whether it returns or raises. -/
def WriteCall.step (w : World) : WriteCall → Store → Store
  | .get key => (TappsBrain.get w key).final
  | .save a => (TappsBrain.save w a).final
  | .saveMany items => (TappsBrain.saveMany w items).final
  | .supersede oldKey newValue kw => (TappsBrain.supersede w oldKey newValue kw).final
  | .reinforce key boost => (TappsBrain.reinforce w key boost).final
  | .recordAccess key wasUseful => (TappsBrain.recordAccess w key wasUseful).final
  | .updateTags key add remove => (TappsBrain.updateTags w key add remove).final
  | .closeValidity key reason succ detail => (TappsBrain.closeValidity w key reason succ detail).final
  | .undoSaveConflict key dryRun => (TappsBrain.undoSaveConflict w key dryRun).final
  | .promoteLearning key signal actor evidence =>
    (TappsBrain.promoteLearning w key signal actor evidence).final
  | .demoteLearning key reason => (TappsBrain.demoteLearning w key reason).final
  | .delete key => (TappsBrain.delete w key).final
  | .gc dryRun => (TappsBrain.gc w dryRun).final
  | .refreshDecay dryRun => (TappsBrain.refreshDecay w dryRun).final
  | .scan group => (runPeriodicConsolidationScan w group).final
  | .undoConsolidationMerge key => (TappsBrain.undoConsolidationMerge w key).final
  | .recordMemory agentId maxEntries now m => TappsBrain.recordMemory agentId maxEntries now m

/-- The memory that an event writes past the store. -/
def WriteCall.recorded : WriteCall → Option MemorySpec
  | .recordMemory _ _ _ m => some m
  | _ => none

/-- An event does not give a hashed row another value or tier. -/
def WriteCall.keepsHashed (call : WriteCall) (s : Store) : Prop :=
  ∀ m ∈ call.recorded, ∀ row ∈ s.rows.get? m.key,
    row.integrityHash.isSome = true → m.value = row.value ∧ m.tier.text = row.tier.text

instance (call : WriteCall) (s : Store) : Decidable (call.keepsHashed s) :=
  inferInstanceAs (Decidable (∀ m ∈ call.recorded, ∀ row ∈ s.rows.get? m.key,
    row.integrityHash.isSome = true → m.value = row.value ∧ m.tier.text = row.tier.text))

/-- Whatever the cache or the table holds under `key` is sealed. -/
def sealing (w : World) (key : String) : Discipline w :=
  AllAt.kept w key (φ := Sealed w.toConfig) (fun _ _ he h => h.hydrated he)
    (fun rows e h => h.of_hashed (upserted_hashed rows e))

section Sealing
variable {w : World} {key : String}

/-- A rewrite of other columns may be written. -/
theorem sealing_rewrites {e e' : MemoryEntry} (h : (sealing w key).sees e)
    (heq : e'.hashed = e.hashed) : (sealing w key).writes e ∧ (sealing w key).writes e' := by
  have hk : e'.key = e.key := congrArg Prod.fst heq
  exact ⟨h, fun hkey => (h (hk.symm.trans hkey)).of_hashed heq⟩

/-- A row that moves to a tier of its own spelling is sealed anew. -/
theorem sealing_escalates {target : String} (now : Stamp) (e : MemoryEntry)
    (h : canonicalTier w.unicode (Tier.ofText target) = Tier.ofText target) :
    (sealing w key).writes
      (stampIntegrityHash w.toConfig { e with tier := Tier.ofText target, updatedAt := now }) :=
  fun _ => Sealed.stamped _ (congrArg Tier.text h)

theorem sealing_reinforce (hw : w.EscalatesPlainly) (k : String) (boost : ℚ) :
    (sealing w key).AllowsReinforce k boost := by
  constructor
  · intro e now hsees _ _
    exact sealing_rewrites hsees (reinforced_hashed _ _ _ _)
  · intro e at₁ at₂ at₃ target _ _ _ _ hcheck
    exact sealing_escalates at₃ _ (hw.promotion hcheck)

theorem sealing_prepare (hw : w.EscalatesPlainly) (k : String) :
    (sealing w key).AllowsPrepare k := by
  constructor
  · exact sealing_reinforce hw k 0
  · intro now _ e reason hsees _ _
    exact sealing_rewrites hsees (closeWith_hashed _ _ _ _ _ _)

theorem sealing_build (a : SaveArgs) : (sealing w key).AllowsBuild a :=
  fun _ _ _ _ _ _ _ he _ => Sealed.built he

theorem sealing_reopens (k : String) (updatedAt : Option Stamp) :
    (sealing w key).Allows k (reopenPatch updatedAt).apply :=
  fun _ _ hsees _ _ => sealing_rewrites hsees rfl

theorem sealing_merge (hw : w.EscalatesPlainly) (plan : MergePlan) :
    (sealing w key).AllowsMergedRow plan where
  merge := {
    promoted := fun _ _ _ hsees _ _ => sealing_rewrites hsees rfl
    closed := fun _ _ _ _ _ hsees _ _ => sealing_rewrites hsees rfl
    reopened := fun k => sealing_reopens k none }
  prepare := sealing_prepare hw
  build := fun _ _ => sealing_build _

theorem mem_ensureMemoryCapacity {maxEntries : Nat} {k : String} {s : Store} {e : MemoryEntry}
    (h : e ∈ (ensureMemoryCapacity maxEntries k s).rows.values) : e ∈ s.rows.values := by
  rw [ensureMemoryCapacity] at h
  split at h
  · exact h
  · split at h
    · exact h
    · exact Table.mem_pop h

/-- The row an event leaves is sealed when the row it found was, and kept what was hashed. -/
theorem Sealed.recorded {c : Config} {agentId : String} {now : Stamp} {m : MemorySpec} {s : Store}
    (hrow : ∀ row, s.rows.get? m.key = some row → Sealed c row ∧
      (row.integrityHash.isSome = true → m.value = row.value ∧ m.tier.text = row.tier.text)) :
    Sealed c (recordedMemory agentId now m s) := by
  rw [recordedMemory]
  split
  · constructor
    · intro storedHash hstored
      cases hstored
    · intro hsome
      cases hsome
  · next row hget =>
    obtain ⟨hsealed, hkept⟩ := hrow row hget
    constructor
    · intro storedHash hstored
      obtain ⟨hvalue, htier⟩ := hkept (Option.isSome_of_eq_some hstored)
      have hverified := hsealed.verifies storedHash hstored
      rwa [← hvalue, ← htier] at hverified
    · intro hsome
      obtain ⟨_, htier⟩ := hkept hsome
      have hsettled := hsealed.settled hsome
      rwa [← canonicalTier_text_congr c.unicode htier, ← htier] at hsettled

theorem sealing_recordMemory {agentId : String} {maxEntries : Nat} {now : Stamp} {m : MemorySpec}
    {s : Store} (hs : (sealing w key).inv s)
    (h : (WriteCall.recordMemory agentId maxEntries now m).keepsHashed s) :
    (sealing w key).inv (recordMemory agentId maxEntries now m s) := by
  obtain ⟨hentries, hrows⟩ := hs
  constructor
  · intro e he hk
    have hcached : (recordMemory agentId maxEntries now m s).entries = s.entries :=
      ensureMemoryCapacity_entries maxEntries m.key s
    exact hentries e (hcached ▸ he) hk
  · intro e he hk
    rcases Table.mem_set he with rfl | he
    · apply Sealed.recorded
      intro row hget
      have hmem := mem_ensureMemoryCapacity (Table.mem_of_get? hget)
      have hkey : row.key = m.key := Table.key_of_get? hget
      have hold : s.rows.get? m.key = some row := hkey ▸ Table.get?_of_mem hmem
      rw [recordedMemory_key] at hk
      exact ⟨hrows row hmem (hkey.trans hk), h m rfl row hold⟩
    · exact hrows e (mem_ensureMemoryCapacity he) hk

/-- Every call leaves the rows of a key sealed when it keeps what they are hashed over. -/
theorem WriteCall.step_sealed {call : WriteCall} {s : Store} (hw : w.EscalatesPlainly)
    (hs : (sealing w key).inv s) (h : call.keepsHashed s) :
    (sealing w key).inv (call.step w s) := by
  have hall : ∀ e, (sealing w key).sees e → (sealing w key).writes e := fun _ he => he
  cases call with
  | get k =>
    apply ((sealing w key).get _).final hs
    intro e now hsees _ _
    exact sealing_rewrites hsees rfl
  | save a =>
    exact ((sealing w key).save hall (sealing_prepare hw) (fun _ _ => sealing_build _)
      (fun _ _ plan _ => sealing_merge hw plan)).final hs
  | saveMany items =>
    exact ((sealing w key).saveMany hall (sealing_prepare hw) (fun _ _ _ _ => sealing_build _)
      (fun _ _ plan _ => sealing_merge hw plan)).final hs
  | supersede oldKey newValue kw =>
    apply ((sealing w key).supersede hall _ _ (sealing_prepare hw) (fun _ _ _ _ => sealing_build _)
      (fun _ _ plan _ => sealing_merge hw plan)).final hs
    · intro e now newKey hsees _ _
      exact sealing_rewrites hsees rfl
    · intro now e he hk
      exact (he hk).of_hashed rfl
  | reinforce k boost =>
    exact ((sealing w key).reinforce (sealing_reinforce hw k boost)).final hs
  | recordAccess k wasUseful =>
    apply ((sealing w key).recordAccess _).final hs
    intro e now hsees _ _
    exact sealing_rewrites hsees (accessRecorded_hashed _ _ _ _)
  | updateTags k add remove =>
    apply ((sealing w key).updateTags add remove _).final hs
    intro e tags now hsees _ _
    exact sealing_rewrites hsees rfl
  | closeValidity k reason succ detail =>
    apply ((sealing w key).closeValidity _).final hs
    intro status _ e now hsees _ _
    exact sealing_rewrites hsees (closeWith_hashed _ _ _ _ _ _)
  | undoSaveConflict k dryRun =>
    apply ((sealing w key).undoSaveConflict dryRun _).final hs
    intro e hsees _
    exact ⟨hsees, fun _ hk => (hsees hk).of_hashed rfl⟩
  | promoteLearning k signal actor evidence =>
    apply ((sealing w key).promoteLearning signal actor evidence _).final hs
    intro e hsees _
    exact ⟨hsees, fun _ _ hk => (hsees hk).of_hashed rfl⟩
  | demoteLearning k reason =>
    apply ((sealing w key).demoteLearning reason _).final hs
    intro e hsees _
    exact ⟨hsees, fun _ _ hk => (hsees hk).of_hashed rfl⟩
  | delete k => exact ((sealing w key).delete (fun _ he _ => he)).final hs
  | gc dryRun =>
    apply ((sealing w key).gc dryRun (fun _ => trivial) hall _).final hs
    intro scanned at_ target hcheck e now hsees _
    exact ⟨hsees, sealing_escalates now e (hw.demotion hcheck)⟩
  | refreshDecay dryRun =>
    apply ((sealing w key).refreshDecay dryRun (fun _ => trivial) hall _).final hs
    intro e now detail hsees _
    exact (sealing_rewrites hsees (closeWith_hashed _ _ _ _ _ _)).2
  | scan group =>
    exact ((sealing w key).runPeriodicConsolidationScan hall
      (fun _ plan _ => sealing_merge hw plan)).final hs
  | undoConsolidationMerge k =>
    exact ((sealing w key).undoConsolidationMerge hall k sealing_reopens (fun _ => trivial)).final hs
  | recordMemory agentId maxEntries now m => exact sealing_recordMemory hs h

end Sealing

/-- In every run whose events leave the hashed text of their rows alone, every durable row that
carries a hash verifies. -/
theorem writes_verify {w : World} (hw : w.EscalatesPlainly) {calls : List WriteCall}
    (h : Guarded (WriteCall.step w) WriteCall.keepsHashed calls {}) :
    ∀ row ∈ (runSteps (WriteCall.step w) calls {}).rows.values, Verifies w.toConfig row := by
  intro row hrow
  have hnone : (sealing w row.key).inv {} := ⟨fun _ he => (nomatch he), fun _ he => (nomatch he)⟩
  have hkept : (sealing w row.key).inv (runSteps (WriteCall.step w) calls {}) :=
    h.keeps (fun _ _ hs hc => WriteCall.step_sealed hw hs hc) hnone
  exact (hkept.2 row hrow rfl).verifies

/-- A text with a mark before each of its characters and another one at its end. -/
def marked (s : String) : List Char := s.toList.flatMap (fun ch => ['0', ch]) ++ ['1']

theorem marked_append_inj {s s' : String} {l l' : List Char}
    (h : marked s ++ l = marked s' ++ l') : s = s' ∧ l = l' := by
  have hchars : ∀ cs cs' : List Char,
      cs.flatMap (fun ch => ['0', ch]) ++ '1' :: l = cs'.flatMap (fun ch => ['0', ch]) ++ '1' :: l' →
        cs = cs' ∧ l = l' := by
    intro cs
    induction cs with
    | nil =>
      intro cs' h
      cases cs' with
      | nil => exact ⟨rfl, (List.cons.inj h).2⟩
      | cons ch' rest' => exact absurd (List.cons.inj h).1 (by decide)
    | cons ch rest ih =>
      intro cs' h
      cases cs' with
      | nil => exact absurd (List.cons.inj h).1 (by decide)
      | cons ch' rest' =>
        obtain ⟨hch, hrest⟩ := List.cons.inj (List.cons.inj h).2
        obtain ⟨hcs, hl⟩ := ih rest' hrest
        exact ⟨by rw [hch, hcs], hl⟩
  simp only [marked, List.append_assoc, List.singleton_append] at h
  obtain ⟨hs, hl⟩ := hchars s.toList s'.toList h
  exact ⟨String.toList_inj.1 hs, hl⟩

/-- A hash that is an injective function of the four fields. -/
def canonicalText (key value tier source : String) : String :=
  String.ofList (marked key ++ (marked value ++ (marked tier ++ marked source)))

theorem canonicalText_inj {key value tier source key' value' tier' source' : String}
    (h : canonicalText key value tier source = canonicalText key' value' tier' source') :
    key = key' ∧ value = value' ∧ tier = tier' ∧ source = source' := by
  have hlist := String.ofList_inj.1 h
  obtain ⟨hkey, hlist⟩ := marked_append_inj hlist
  obtain ⟨hvalue, hlist⟩ := marked_append_inj hlist
  obtain ⟨htier, hlist⟩ := marked_append_inj hlist
  rw [← List.append_nil (marked source), ← List.append_nil (marked source')] at hlist
  obtain ⟨hsource, -⟩ := marked_append_inj hlist
  exact ⟨hkey, hvalue, htier, hsource⟩

def signing : Config := { Config.plain with computeIntegrityHash := canonicalText }

/-- A save stamps its row, and an event then gives the same row another value. -/
def rewrittenByEvent : List WriteCall :=
  [.save { key := "port", value := "5432" },
    .recordMemory "agent" 100 9 { key := "port", value := "6543" }]

/-- The hash is still that of the text that was saved. -/
theorem event_leaves_stale_hash :
    (∀ key value tier source key' value' tier' source',
      canonicalText key value tier source = canonicalText key' value' tier' source' →
        key = key' ∧ value = value' ∧ tier = tier' ∧ source = source') ∧
    ∃ row ∈ (runSteps (WriteCall.step signing.calm) rewrittenByEvent {}).rows.values,
      ¬ Verifies signing row := by
  refine ⟨fun _ _ _ _ _ _ _ _ => canonicalText_inj, ?_⟩
  have hrow : ∃ row ∈ (runSteps (WriteCall.step signing.calm) rewrittenByEvent {}).rows.values,
      row.integrityHash = some (canonicalText "port" "5432" "pattern" "agent") ∧
        row.value = "6543" := by
    decide +kernel
  obtain ⟨row, hmem, hhash, hvalue⟩ := hrow
  refine ⟨row, hmem, fun hverifies => ?_⟩
  have hequal : canonicalText row.key row.value row.tier.text row.source.text =
      canonicalText "port" "5432" "pattern" "agent" := of_decide_eq_true (hverifies _ hhash)
  rw [hvalue] at hequal
  exact absurd (canonicalText_inj hequal).2.1 (by decide)

/-- An event that repeats what was saved. -/
def repeatedByEvent : List WriteCall :=
  [.save { key := "port", value := "5432" }, .reinforce "port" 0,
    .recordMemory "agent" 100 9 { key := "port", value := "5432" }]

theorem repeated_save_verifies :
    ∃ row ∈ (runSteps (WriteCall.step signing.calm) repeatedByEvent {}).rows.values,
      row.integrityHash.isSome = true ∧ Verifies signing row := by
  have hplain : signing.EscalatesPlainly := fun p hp => nomatch hp
  have hrow : ∃ row ∈ (runSteps (WriteCall.step signing.calm) repeatedByEvent {}).rows.values,
      row.integrityHash.isSome = true := by
    decide +kernel
  obtain ⟨row, hmem, hhash⟩ := hrow
  have hverifies : Verifies signing row := writes_verify hplain (by decide +kernel) row hmem
  exact ⟨row, hmem, hhash, hverifies⟩

end TappsBrain
