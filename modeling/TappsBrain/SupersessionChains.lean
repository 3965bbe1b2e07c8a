import TappsBrain.Lib.Acyclic
import TappsBrain.Lib.Run
import TappsBrain.Liveness
import TappsBrain.MergeDiscipline
import TappsBrain.Remember

namespace TappsBrain
open Lib
set_option autoImplicit true
set_option relaxedAutoImplicit false

/-- An entry of the cache or a row of the table names `k'` as what replaced `k`. -/
def ReplacedBy (s : Store) (k k' : String) : Prop :=
  ∃ e, (e ∈ s.entries.values ∨ e ∈ s.rows.values) ∧ e.key = k ∧ e.supersededBy = some k'

/-- The link `history` follows: that of the cached entry, or of the row it would load. -/
def nextVersion (s : Store) (key : String) : Option String :=
  ((s.entries.get? key).or (s.rows.get? key)).bind (·.supersededBy)

theorem replacedBy_of_nextVersion {s : Store} {k k' : String} (h : nextVersion s k = some k') :
    ReplacedBy s k k' := by
  obtain ⟨e, he, hlink⟩ := Option.bind_eq_some_iff.1 h
  rcases Option.or_eq_some_iff.1 he with he | ⟨_, he⟩
  · exact ⟨e, .inl (Table.mem_of_get? he), Table.key_of_get? he, hlink⟩
  · exact ⟨e, .inr (Table.mem_of_get? he), Table.key_of_get? he, hlink⟩

/-- Every link of the entry is one of `R`. -/
def LinkWithin (R : String → String → Prop) (e : MemoryEntry) : Prop :=
  ∀ k', e.supersededBy = some k' → R e.key k'

theorem LinkWithin.congr {R : String → String → Prop} {e e' : MemoryEntry} (h : LinkWithin R e)
    (hkey : e'.key = e.key) (hlink : e'.supersededBy = e.supersededBy) : LinkWithin R e' := by
  intro k' hk
  rw [hkey]
  exact h k' (hlink ▸ hk)

theorem upserted_supersededBy (rows : Table MemoryEntry.key) (e : MemoryEntry) :
    (upserted rows e).supersededBy = e.supersededBy := by
  rw [upserted]
  split <;> rfl

theorem closeWith_supersededBy (reason : String) (status : MemoryStatus) (now : Stamp)
    (succ detail : Option String) (e : MemoryEntry) :
    (closeWith reason status now succ detail e).supersededBy = succ.or e.supersededBy := by
  cases status <;> rfl

theorem reinforced_supersededBy (c : Config) (boost : ℚ) (now : Stamp) (e : MemoryEntry) :
    (reinforced c boost now e).supersededBy = e.supersededBy :=
  congrArg (·.1) (reinforced_life c boost now e)

/-- The stores whose links are all of `R`. -/
def LinksWithin (R : String → String → Prop) (s : Store) : Prop := ∀ k k', ReplacedBy s k k' → R k k'

theorem LinksWithin.of_entries {R : String → String → Prop} {s : Store}
    (he : ∀ e ∈ s.entries.values, LinkWithin R e) (hr : ∀ e ∈ s.rows.values, LinkWithin R e) :
    LinksWithin R s := by
  rintro k k' ⟨e, hmem, rfl, hlink⟩
  rcases hmem with hmem | hmem
  · exact he e hmem k' hlink
  · exact hr e hmem k' hlink

/-- The row a `supersede` would close, and the key of the new one. -/
def successor (w : World) (oldKey : String) (kw : SaveKwargs) (s : Store) :
    Option (MemoryEntry × String) :=
  match ensureEntryCached w oldKey s.ticked with
  | (.ok (some old), t) =>
    if old.invalidAt.isSome then none else some (old, supersedingKey oldKey kw t.entries.values)
  | _ => none

namespace Discipline
variable {w : World} (d : Discipline w)

theorem findSupersessionCandidate (key : String) :
    Keeps d.inv (findSupersessionCandidate w key) := by
  rw [TappsBrain.findSupersessionCandidate]
  split
  · exact Keeps.pure trivial
  · apply Keeps.handle _ (fun _ => Keeps.pure trivial)
    apply (d.mergeDurableEntries false).bind
    intro _ _
    apply d.snapshot.forget.bind
    intro _ _
    exact d.utcNow.forget.bind (fun _ _ => Keeps.pure trivial)

theorem closeSuperseded {key : String} {supersedes : Option String}
    (hread : ∀ old, supersedes = some old → d.Allows old accessed)
    (hclose : ∀ old status, supersedes = some old → closeValidityStatus "supersession" = some status →
      d.Allows old (fun now =>
        closeWith "supersession" status now (some key) (some s!"superseded by {key}"))) :
    Keeps d.inv (closeSuperseded w key supersedes) := by
  rw [TappsBrain.closeSuperseded]
  cases hnamed : namedTarget supersedes with
  | none => exact (d.findSupersessionCandidate key).bind (fun _ _ => Keeps.pure trivial)
  | some old =>
    have hold : supersedes = some old := by
      cases supersedes with
      | none => cases hnamed
      | some t =>
        rw [namedTarget] at hnamed
        split at hnamed
        · cases hnamed
        · exact hnamed
    apply (d.get (hread old hold)).bind
    intro r hr
    cases r with
    | none => exact Keeps.pure trivial
    | some e =>
      obtain ⟨_, hkey⟩ := hr e rfl
      have hone : Keeps d.inv
          (TappsBrain.closeValidity w e.key "supersession" (some key)
            (some s!"superseded by {key}")) :=
        (d.closeValidity (fun status hstatus => hkey ▸ hclose old status hold hstatus)).forget
      exact hone.bind (fun _ _ => Keeps.pure trivial)

theorem brainRemember {digest : String → String} {a : RememberArgs}
    (hsave : ∀ scope, Keeps d.inv
      (TappsBrain.save w (rememberSave a (contentKey w.unicode digest a.fact) scope)))
    (hread : ∀ old, a.supersedes = some old → d.Allows old accessed)
    (hclose : ∀ old status, a.supersedes = some old →
      closeValidityStatus "supersession" = some status → d.Allows old (fun now =>
        closeWith "supersession" status now (some (contentKey w.unicode digest a.fact))
          (some s!"superseded by {contentKey w.unicode digest a.fact}"))) :
    Keeps d.inv (brainRemember w digest a) := by
  rw [TappsBrain.brainRemember]
  split
  · exact Keeps.pure trivial
  · apply (hsave _).bind
    intro r _
    cases r with
    | entry e => exact d.closeSuperseded hread hclose
    | dict short =>
      dsimp only
      split
      · exact Keeps.pure trivial
      · exact d.closeSuperseded hread hclose

/-- What a `supersede` of the found row may write: the closed row, and what its second half saves. -/
structure AllowsSupersede (old : MemoryEntry) (newKey newValue : String) (kw : SaveKwargs) :
    Prop where
  found : d.writes old
  closed : ∀ now, d.writes (supersededRow now newKey old)
  saved : ∀ now, Keeps d.inv
    (TappsBrain.writeSuperseding w now old (supersedeArgs old newKey newValue kw))

/-- The keys a `supersede` writes are settled by the store it starts from. -/
theorem closeOld_successor {oldKey : String} {kw : SaveKwargs} {s : Store} (hs : d.inv s)
    (h : ∀ old newKey, successor w oldKey kw s = some (old, newKey) → d.sees old →
      old.key = oldKey → d.writes old ∧ ∀ now, d.writes (supersededRow now newKey old)) :
    Triple (s = ·) (TappsBrain.closeOld w oldKey kw)
      (fun c t => d.inv t ∧ d.sees c.old ∧ c.old.key = oldKey ∧
        successor w oldKey kw s = some (c.old, c.newKey))
      (fun _ t => d.inv t) := by
  rintro _ rfl
  have hcached := d.ensureEntryCached oldKey s.ticked (d.bookkeeping.ticks s hs)
  have hnow : TappsBrain.utcNow w s = (.ok (w.clock s.ticks), s.ticked) := utcNow_run w s
  rw [TappsBrain.closeOld, Prog.bind_run_ok hnow]
  rcases hrun : TappsBrain.ensureEntryCached w oldKey s.ticked with ⟨err | r, t⟩
  · rw [Prog.bind_run_error hrun]
    rw [hrun] at hcached
    exact hcached
  · rw [Prog.bind_run_ok hrun]
    rw [hrun] at hcached
    obtain ⟨ht, hr⟩ := hcached
    cases r with
    | none => exact ht
    | some old =>
      obtain ⟨hsees, hkey⟩ := hr old rfl
      dsimp only
      cases hopen : old.invalidAt.isSome with
      | true => exact ht
      | false =>
        have hnext : successor w oldKey kw s =
            some (old, supersedingKey oldKey kw t.entries.values) := by
          rw [successor, hrun]
          simp only [hopen, Bool.false_eq_true, ↓reduceIte]
        obtain ⟨hold, hclosed⟩ := h old _ hnext hsees hkey
        have hrewrite : Keeps d.inv (do
            TappsBrain.rewriteEntry w old (supersededRow (w.clock s.ticks)
              (supersedingKey oldKey kw t.entries.values) old)
            pure (ClosedOld.mk (w.clock s.ticks) old (supersedingKey oldKey kw t.entries.values)))
            (fun c => d.sees c.old ∧ c.old.key = oldKey ∧
              successor w oldKey kw s = some (c.old, c.newKey)) :=
          (d.rewriteEntry hold (hclosed _)).bind (fun _ _ => Keeps.pure ⟨hsees, hkey, hnext⟩)
        exact hrewrite t ht

theorem supersede_final {oldKey newValue : String} {kw : SaveKwargs} {s : Store} (hs : d.inv s)
    (h : ∀ old newKey, successor w oldKey kw s = some (old, newKey) → d.sees old →
      old.key = oldKey → d.AllowsSupersede old newKey newValue kw) :
    d.inv ((TappsBrain.supersede w oldKey newValue kw).final s) := by
  have hclose := d.closeOld_successor hs (fun old newKey hnext hsees hkey =>
    ⟨(h old newKey hnext hsees hkey).found, (h old newKey hnext hsees hkey).closed⟩) s rfl
  rw [Prog.final, TappsBrain.supersede]
  rcases hrun : TappsBrain.closeOld w oldKey kw s with ⟨err | c, t⟩
  · rw [Prog.bind_run_error hrun]
    rw [hrun] at hclose
    exact hclose
  · rw [Prog.bind_run_ok hrun]
    rw [hrun] at hclose
    obtain ⟨ht, hsees, hkey, hnext⟩ := hclose
    exact ((h c.old c.newKey hnext hsees hkey).saved c.now).final ht

end Discipline

section Discipline
variable (w : World) (R : String → String → Prop)

/-- Links of `R` may be written. -/
def linking : Discipline w where
  inv := LinksWithin R
  sees := LinkWithin R
  writes := LinkWithin R
  frees := fun _ => True
  reads := fun _ => True
  bookkeeping := ⟨fun _ h => h, fun _ h => h, fun _ h => h, fun _ _ h => h, fun _ _ h => h,
    fun _ _ h => h⟩
  ignoresRelations := ⟨fun _ _ h => h, fun _ _ h => h⟩
  cached := fun s e h he k' hk => h e.key k' ⟨e, .inl he, rfl, hk⟩
  loads := by
    intro s row e h hrow he
    rw [(rowToEntry_ok he).2]
    exact fun k' hk => h row.key k' ⟨row, .inr hrow, rfl, hk⟩
  hydrate := by
    intro s row e h hrow he _
    have hnew : LinkWithin R e := by
      rw [(rowToEntry_ok he).2]
      exact fun k' hk => h row.key k' ⟨row, .inr hrow, rfl, hk⟩
    apply LinksWithin.of_entries
    · intro e' he'
      rcases Table.mem_set he' with rfl | hm
      · exact hnew
      · exact fun k' hk => h e'.key k' ⟨e', .inl hm, rfl, hk⟩
    · exact fun e' he' k' hk => h e'.key k' ⟨e', .inr he', rfl, hk⟩
  assign := by
    intro s e h hw
    apply LinksWithin.of_entries
    · intro e' he'
      rcases Table.mem_set he' with rfl | hm
      · exact hw
      · exact fun k' hk => h e'.key k' ⟨e', .inl hm, rfl, hk⟩
    · exact fun e' he' k' hk => h e'.key k' ⟨e', .inr he', rfl, hk⟩
  store := by
    intro s e h hw
    apply LinksWithin.of_entries
    · exact fun e' he' k' hk => h e'.key k' ⟨e', .inl he', rfl, hk⟩
    · intro e' he'
      rcases Table.mem_set he' with rfl | hm
      · exact hw.congr (upserted_key _ _) (upserted_supersededBy _ _)
      · exact fun k' hk => h e'.key k' ⟨e', .inr hm, rfl, hk⟩
  pop := by
    intro s key h _
    rintro k k' ⟨e, hmem, hk, hlink⟩
    exact h k k' ⟨e, hmem.imp Table.mem_pop id, hk, hlink⟩
  drop := by
    intro s key h _
    rintro k k' ⟨e, hmem, hk, hlink⟩
    exact h k k' ⟨e, hmem.imp id Table.mem_pop, hk, hlink⟩
  filter := by
    intro s p h _
    rintro k k' ⟨e, hmem, hk, hlink⟩
    exact h k k' ⟨e, hmem.imp List.mem_of_mem_filter id, hk, hlink⟩
  frees_of_writes := fun _ _ => trivial
  reading := fun _ _ => trivial

variable {w R}

theorem linking_allows {key : String} {f : Stamp → MemoryEntry → MemoryEntry}
    (h : ∀ now e, e.key = key → LinkWithin R e → LinkWithin R (f now e)) :
    (linking w R).Allows key f :=
  fun e now he hkey _ => ⟨he, h now e hkey he⟩

theorem linking_allowsClosing {key reason : String} {status : MemoryStatus}
    {succ detail : Option String} (h : ∀ k', succ = some k' → R key k') :
    (linking w R).Allows key (fun now => closeWith reason status now succ detail) := by
  apply linking_allows
  intro now e hkey he k' hk
  rw [closeWith_supersededBy] at hk
  rw [closeWith_key]
  cases succ with
  | none => exact he k' hk
  | some k => exact hkey ▸ h k' hk

theorem linking_allowsPrepare (key : String) : (linking w R).AllowsPrepare key where
  reinforce := by
    constructor
    · apply linking_allows
      exact fun now e _ he => he.congr (reinforced_key _ _ _ _) (reinforced_supersededBy _ _ _ _)
    · intro e at₁ at₂ at₃ target he _ _ _ _
      exact LinkWithin.congr (e := e) he ((promoted_key _ _ _ _).trans (reinforced_key _ _ _ _))
        (reinforced_supersededBy _ _ _ _)
  invalidate := fun now _ e reason he _ _ =>
    ⟨he, LinkWithin.congr (e := e) he (invalidatedBy_key _ _ _) (closeWith_supersededBy _ _ _ _ _ _)⟩

/-- The link a save is asked for is one of `R`. -/
def ArgumentWithin (w : World) (R : String → String → Prop) (a : SaveArgs) : Prop :=
  ∀ k', a.supersededBy = some k' → ∀ k, k = a.key ∨ w.redirects a.key k → R k k'

/-- A link of the built row is the argument's or that of the row it replaces. -/
theorem constructMemoryEntry_link {c : Config} {a : SaveArgs} {tierVal : Tier} {mg : Option String}
    {existing : Option MemoryEntry} {now : Stamp} {e : MemoryEntry} {k' : String}
    (h : constructMemoryEntry c a tierVal mg existing now = .ok e) (hk : e.supersededBy = some k') :
    a.supersededBy = some k' ∨ ∃ b, existing = some b ∧ b.supersededBy = some k' := by
  obtain ⟨revived, source, scope, -, -, rfl⟩ := constructMemoryEntry_ok h
  change a.supersededBy.or (if revived then none
    else (preservedFieldsForUpdate existing now).supersededBy) = some k' at hk
  rcases Option.or_eq_some_iff.1 hk with hk | ⟨_, hk⟩
  · exact .inl hk
  · split at hk
    · cases hk
    · cases existing with
      | none => cases hk
      | some b => exact .inr ⟨b, rfl, hk⟩

theorem linking_allowsBuild {a : SaveArgs} (h : ArgumentWithin w R a) (p : SavePrep)
    (hp : (linking w R).Prepared a p) :
    (linking w R).AllowsBuild (preparedArgs (inferredArgs w.toConfig a) p) := by
  intro existing mg now tierVal e hexisting _ he k' hk
  have hkey : e.key = p.effectiveKey.getD a.key := constructMemoryEntry_key he
  change R e.key k'
  rcases constructMemoryEntry_link he hk with ha | ⟨b, hb, hlink⟩
  · apply h k' ha
    rw [hkey]
    cases htarget : p.effectiveKey with
    | none => exact .inl rfl
    | some target => exact .inr (hp.target target htarget)
  · obtain ⟨hwithin, hbkey⟩ := hexisting b hb
    have hsame : b.key = e.key := hbkey.trans hkey.symm
    exact hsame ▸ hwithin k' hlink

theorem reopened_supersededBy (updatedAt : Option Stamp) (now : Stamp) (e : MemoryEntry) :
    ((reopenPatch updatedAt).apply now e).supersededBy = none := rfl

theorem linking_allowsReopening (key : String) (updatedAt : Option Stamp) :
    (linking w R).Allows key (reopenPatch updatedAt).apply := by
  apply linking_allows
  intro now e _ _ k' hk
  rw [reopened_supersededBy] at hk
  cases hk

/-- Every link of a merge, from a source to the merged row, is one of `R`. -/
def MergeWithin (R : String → String → Prop) (plan : MergePlan) : Prop :=
  ∀ snap ∈ plan.sources, snap.key ≠ plan.consolidated.key → R snap.key plan.consolidated.key

theorem linking_allowsMergedRow {plan : MergePlan} (h : MergeWithin R plan) :
    (linking w R).AllowsMergedRow plan where
  merge :=
    { promoted := fun f => linking_allows (fun _ _ _ he => he.congr rfl rfl)
      closed := by
        intro snap hsnap hne
        apply linking_allowsClosing
        intro k' hk
        cases hk
        exact h snap hsnap hne
      reopened := fun key => linking_allowsReopening key none }
  prepare := linking_allowsPrepare
  build := by
    apply linking_allowsBuild
    intro k' hk
    cases hk

/-- What the merges a world may plan link is all of `R`. -/
def PlansWithin (w : World) (R : String → String → Prop) : Prop :=
  ∀ entry others plan, w.planMerge entry others = some plan → MergeWithin R plan

theorem save_linking {a : SaveArgs} (h : ArgumentWithin w R a) (hm : PlansWithin w R) :
    Keeps (LinksWithin R) (save w a) :=
  Keeps.forget ((linking w R).save (fun _ he => he) linking_allowsPrepare (linking_allowsBuild h)
    (fun entry others plan hplan => linking_allowsMergedRow (hm entry others plan hplan)))

theorem closeValidity_linking {key reason : String} {succ detail : Option String}
    (h : ∀ k', succ = some k' → R key k') :
    Keeps (LinksWithin R) (closeValidity w key reason succ detail) :=
  Keeps.forget ((linking w R).closeValidity (fun _ _ => linking_allowsClosing h))

theorem scan_linking {group : List MemoryEntry → List MergePlan}
    (h : ∀ entries, ∀ plan ∈ group entries, MergeWithin R plan) :
    Keeps (LinksWithin R) (runPeriodicConsolidationScan w group) :=
  (linking w R).runPeriodicConsolidationScan (fun _ he => he)
    (fun entries plan hplan => linking_allowsMergedRow (h entries plan hplan))

theorem undo_linking (key : String) : Keeps (LinksWithin R) (undoConsolidationMerge w key) :=
  (linking w R).undoConsolidationMerge (fun _ he => he) key
    linking_allowsReopening (fun _ => trivial)

theorem brainRemember_linking {digest : String → String} {a : RememberArgs}
    (h : ∀ old, a.supersedes = some old → R old (contentKey w.unicode digest a.fact))
    (hm : PlansWithin w R) : Keeps (LinksWithin R) (brainRemember w digest a) := by
  apply (linking w R).brainRemember
  · exact fun scope => save_linking (fun _ hk => nomatch hk) hm
  · exact fun old _ => linking_allows (fun _ _ _ he => he.congr rfl rfl)
  · intro old status hold _
    apply linking_allowsClosing
    intro k' hk
    rw [← Option.some.inj hk]
    exact h old hold

theorem supersede_linking {oldKey newValue : String} {kw : SaveKwargs} {s : Store}
    (hs : LinksWithin R s) (h : ∀ old newKey, successor w oldKey kw s = some (old, newKey) →
      R oldKey newKey ∧ ArgumentWithin w R (supersedeArgs old newKey newValue kw) ∧
        PlansWithin w R) :
    LinksWithin R ((supersede w oldKey newValue kw).final s) := by
  apply (linking w R).supersede_final hs
  intro old newKey hnext hold hkey
  obtain ⟨hlink, hargument, hm⟩ := h old newKey hnext
  constructor
  · exact hold
  · intro now k' hk
    rw [supersededRow, closeWith_supersededBy] at hk
    cases hk
    rw [supersededRow, closeWith_key, hkey]
    exact hlink
  · intro now
    exact (linking w R).writeSuperseding (fun _ he => he) hold (fun _ he => he.congr rfl rfl)
      linking_allowsPrepare (linking_allowsBuild hargument)
      (fun entry others plan hplan => linking_allowsMergedRow (hm entry others plan hplan))

end Discipline

/-- The world with this merge as the answer of the similarity search. -/
def World.merging (w : World) (merge : Option MergePlan) : World :=
  { w with planMerge := fun _ _ => merge }

/-- The calls that write links. A save comes with the merge its similarity search decides on, a
scan with those of its groups. -/
inductive ChainCall where
  | save (a : SaveArgs) (merge : Option MergePlan)
  | brainRemember (a : RememberArgs) (merge : Option MergePlan)
  | supersede (oldKey newValue : String) (kw : SaveKwargs) (merge : Option MergePlan)
  | closeValidity (key reason : String) (supersededBy detail : Option String)
  | scan (merges : List MergePlan)
  | undoConsolidationMerge (key : String)

/-- The store after the call, whether it returned or raised. -/
def ChainCall.step (w : World) (digest : String → String) : ChainCall → Store → Store
  | .save a merge => (TappsBrain.save (w.merging merge) a).final
  | .brainRemember a merge => (TappsBrain.brainRemember (w.merging merge) digest a).final
  | .supersede oldKey newValue kw merge =>
    (TappsBrain.supersede (w.merging merge) oldKey newValue kw).final
  | .closeValidity key reason succ detail => (TappsBrain.closeValidity w key reason succ detail).final
  | .scan merges => (runPeriodicConsolidationScan w (fun _ => merges)).final
  | .undoConsolidationMerge key => (TappsBrain.undoConsolidationMerge w key).final

/-- The keys that would name a new successor, with that successor. -/
abbrev Arrow := (String → Prop) × String

/-- The `superseded_by` a save is asked for goes to the key it writes. -/
def argumentArrow (w : World) (key : String) (succ : Option String) : List Arrow :=
  succ.toList.map (fun k' => (fun k => k = key ∨ w.redirects key k, k'))

def mergeArrow (plan : MergePlan) : Arrow :=
  (fun k => k ≠ plan.consolidated.key ∧ ∃ snap ∈ plan.sources, snap.key = k, plan.consolidated.key)

/-- The links the call may write from this state. -/
def ChainCall.arrows (w : World) (digest : String → String) : ChainCall → Store → List Arrow
  | .save a merge, _ => argumentArrow w a.key a.supersededBy ++ merge.toList.map mergeArrow
  | .brainRemember a merge, _ =>
    a.supersedes.toList.map (fun old => (fun k => k = old, contentKey w.unicode digest a.fact)) ++
      merge.toList.map mergeArrow
  | .supersede oldKey _ kw merge, s =>
    match successor (w.merging merge) oldKey kw s with
    | none => []
    | some (_, newKey) =>
      (fun k => k = oldKey, newKey) ::
        (argumentArrow w newKey kw.supersededBy ++ merge.toList.map mergeArrow)
  | .closeValidity key _ succ _, _ => succ.toList.map (fun k' => (fun k => k = key, k'))
  | .scan merges, _ => merges.map mergeArrow
  | .undoConsolidationMerge _, _ => []

/-- No link the call may write leads back to the key that would carry it. -/
def ChainCall.onward (w : World) (digest : String → String) (c : ChainCall) (s : Store) : Prop :=
  Lib.Onward (ReplacedBy s) (c.arrows w digest s)

section Steps
variable {w : World} {digest : String → String} {R : String → String → Prop} {s : Store}

theorem merging_plansWithin {merge : Option MergePlan}
    (h : ∀ p ∈ merge.toList.map mergeArrow, ∀ k, p.1 k → R k p.2) :
    PlansWithin (w.merging merge) R := by
  intro entry others plan hplan snap hsnap hne
  have hmem : mergeArrow plan ∈ merge.toList.map mergeArrow :=
    List.mem_map_of_mem (Option.mem_toList.2 hplan)
  exact h _ hmem snap.key ⟨hne, snap, hsnap, rfl⟩

theorem argumentWithin {a : SaveArgs} (merge : Option MergePlan)
    (h : ∀ p ∈ argumentArrow w a.key a.supersededBy, ∀ k, p.1 k → R k p.2) :
    ArgumentWithin (w.merging merge) R a := by
  intro k' hk k hkey
  have hmem : ((fun k => k = a.key ∨ w.redirects a.key k), k') ∈
      argumentArrow w a.key a.supersededBy :=
    List.mem_map_of_mem (Option.mem_toList.2 hk)
  exact h _ hmem k hkey

theorem arrow_of_some {o : Option String} {origin : String → String → Prop}
    (succ : String → String)
    (h : ∀ p ∈ o.toList.map (fun b => ((origin b, succ b) : Arrow)), ∀ k, p.1 k → R k p.2)
    {b : String} (hb : o = some b) {k : String} (hk : origin b k) : R k (succ b) :=
  h _ (List.mem_map_of_mem (Option.mem_toList.2 hb)) k hk

/-- A call adds no links but its own. -/
theorem ChainCall.step_links {c : ChainCall} (hs : LinksWithin R s)
    (h : ∀ p ∈ c.arrows w digest s, ∀ k, p.1 k → R k p.2) :
    LinksWithin R (c.step w digest s) := by
  cases c with
  | save a merge =>
    rw [ChainCall.arrows, List.forall_mem_append] at h
    have hkeeps : Keeps (LinksWithin R) (TappsBrain.save (w.merging merge) a) :=
      save_linking (argumentWithin merge h.1) (merging_plansWithin h.2)
    exact hkeeps.final hs
  | brainRemember a merge =>
    rw [ChainCall.arrows, List.forall_mem_append] at h
    have hold : ∀ old, a.supersedes = some old → R old (contentKey w.unicode digest a.fact) :=
      fun old hold => arrow_of_some (fun _ => contentKey w.unicode digest a.fact) h.1 hold rfl
    have hkeeps : Keeps (LinksWithin R) (TappsBrain.brainRemember (w.merging merge) digest a) :=
      brainRemember_linking hold (merging_plansWithin h.2)
    exact hkeeps.final hs
  | supersede oldKey newValue kw merge =>
    rw [ChainCall.arrows] at h
    apply supersede_linking hs
    intro old newKey hnext
    rw [hnext, List.forall_mem_cons, List.forall_mem_append] at h
    exact ⟨h.1 oldKey rfl, argumentWithin merge h.2.1, merging_plansWithin h.2.2⟩
  | closeValidity key reason succ detail =>
    have hkeeps : Keeps (LinksWithin R) (TappsBrain.closeValidity w key reason succ detail) :=
      closeValidity_linking (fun _ hk => arrow_of_some id h hk rfl)
    exact hkeeps.final hs
  | scan merges =>
    have hkeeps : Keeps (LinksWithin R) (runPeriodicConsolidationScan w (fun _ => merges)) := by
      apply scan_linking
      intro entries plan hplan snap hsnap hne
      exact h (mergeArrow plan) (List.mem_map_of_mem hplan) snap.key ⟨hne, snap, hsnap, rfl⟩
    exact hkeeps.final hs
  | undoConsolidationMerge key =>
    have hkeeps : Keeps (LinksWithin R) (TappsBrain.undoConsolidationMerge w key) := undo_linking key
    exact hkeeps.final hs

theorem ChainCall.step_acyclic {c : ChainCall} (hs : Acyclic (ReplacedBy s))
    (h : c.onward w digest s) : Acyclic (ReplacedBy (c.step w digest s)) := by
  have hlinks : LinksWithin (pointingAll (ReplacedBy s) (c.arrows w digest s))
      (c.step w digest s) := by
    apply ChainCall.step_links
    · exact fun k k' hk => pointingAll_of_rel hk
    · exact fun p hp k hk => pointingAll_of_mem hp hk
  exact (hs.pointingAll h).mono hlinks

theorem ChainCall.run_acyclic {calls : List ChainCall} (hs : Acyclic (ReplacedBy s))
    (h : Guarded (ChainCall.step w digest) (ChainCall.onward w digest) calls s) :
    Acyclic (ReplacedBy (runSteps (ChainCall.step w digest) calls s)) := by
  have hstep : ∀ (c : ChainCall) t, Acyclic (ReplacedBy t) → c.onward w digest t →
      Acyclic (ReplacedBy (c.step w digest t)) :=
    fun _ _ ht hc => ChainCall.step_acyclic ht hc
  exact h.keeps hstep hs

end Steps

theorem nextVersion_mem {s : Store} {key : String} (h : (nextVersion s key).isSome = true) :
    key ∈ s.entries.values.map (·.key) ++ s.rows.values.map (·.key) := by
  obtain ⟨k', hk⟩ := Option.isSome_iff_exists.1 h
  obtain ⟨e, hmem, rfl, _⟩ := replacedBy_of_nextVersion hk
  rcases hmem with hmem | hmem
  · exact List.mem_append_left _ (List.mem_map_of_mem hmem)
  · exact List.mem_append_right _ (List.mem_map_of_mem hmem)

theorem replacedBy_empty_acyclic : Acyclic (ReplacedBy ({} : Store)) := by
  intro k hk
  obtain ⟨_, ⟨e, he | he, _⟩, _⟩ := Relation.TransGen.head'_iff.1 hk
  · cases he
  · cases he

/-- Chains of versions visit no key twice and come to an end, in every state of a run whose links
all lead onward. -/
theorem supersession_chains_end (w : World) (digest : String → String) (calls : List ChainCall)
    (h : Guarded (ChainCall.step w digest) (ChainCall.onward w digest) calls {}) :
    let s := runSteps (ChainCall.step w digest) calls {}
    ∀ key, (∀ n, (follow (nextVersion s) n key).Nodup) ∧
      ∃ n last, (follow (nextVersion s) n key).getLast? = some last ∧ nextVersion s last = none := by
  intro s key
  have hs : Acyclic (ReplacedBy s) := ChainCall.run_acyclic replacedBy_empty_acyclic h
  have hnext : Acyclic (fun k k' => nextVersion s k = some k') :=
    hs.mono (fun _ _ hk => replacedBy_of_nextVersion hk)
  constructor
  · exact fun n => follow_nodup hnext n key
  · have hshort := length_follow hnext (fun _ hk => nextVersion_mem hk) (s.entries.values.map
      (·.key) ++ s.rows.values.map (·.key)).length.succ key
    obtain ⟨last, hlast, hend⟩ := follow_ends _ key hshort
    exact ⟨_, last, hlast, hend⟩

/-- From a store without links a link between two keys leads onward. -/
theorem onward_of_unlinked {s : Store} {k k' : String} (hne : k' ≠ k)
    (h : ∀ e ∈ s.entries.values ++ s.rows.values, e.supersededBy = none) :
    Lib.Onward (ReplacedBy s) [(fun x => x = k, k')] := by
  refine ⟨fun x hx hreach => ?_, trivial⟩
  subst hx
  rcases Relation.ReflTransGen.cases_head hreach with heq | ⟨_, ⟨e, hmem, _, hlink⟩, _⟩
  · exact hne heq
  · rw [h e (List.mem_append.2 hmem)] at hlink
    cases hlink

def sampleDigest (_ : String) : String := "0123456789abcdef"

/-- A fact, and the one that replaces it. -/
def movedDay : List ChainCall :=
  [.brainRemember { fact := "deploy on friday" } none,
    .brainRemember { fact := "deploy on monday"
                     supersedes := some "deploy-on-friday-0123456789abcdef" } none]

theorem movedDay_onward : Guarded (ChainCall.step Config.plain.calm sampleDigest)
    (ChainCall.onward Config.plain.calm sampleDigest) movedDay {} := by
  have hkey : contentKey Unicode.lowercase sampleDigest "deploy on monday" =
      "deploy-on-monday-0123456789abcdef" := by decide +kernel
  refine ⟨trivial, ?_, trivial⟩
  apply onward_of_unlinked
  · rw [show Config.plain.calm.unicode = Unicode.lowercase from rfl, hkey]
    decide +kernel
  · decide +kernel

theorem supersession_chains_end_moved :
    let s := runSteps (ChainCall.step Config.plain.calm sampleDigest) movedDay {}
    nextVersion s "deploy-on-friday-0123456789abcdef" =
        some "deploy-on-monday-0123456789abcdef" ∧
      ∀ n, (follow (nextVersion s) n "deploy-on-friday-0123456789abcdef").Nodup := by
  exact ⟨by decide +kernel,
    (supersession_chains_end Config.plain.calm sampleDigest movedDay movedDay_onward _).1⟩

/-- Going back to the first fact makes each of the two replace the other. -/
theorem supersession_chains_cycle :
    ¬ ∀ w digest calls key n,
      (follow (nextVersion (runSteps (ChainCall.step w digest) calls {})) n key).Nodup := by
  intro h
  have hcycle := h Config.plain.calm sampleDigest (movedDay ++
    [.brainRemember { fact := "deploy on friday"
                      supersedes := some "deploy-on-monday-0123456789abcdef" } none])
    "deploy-on-friday-0123456789abcdef" 2
  revert hcycle
  decide +kernel

end TappsBrain
