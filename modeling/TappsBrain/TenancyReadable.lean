import TappsBrain.Config
import TappsBrain.Lib.Run
import TappsBrain.TenancyKept

namespace TappsBrain
open Lib
set_option autoImplicit true
set_option relaxedAutoImplicit false

/-- `_row_to_entry`, before the model's validator. -/
def MemoryRow.entry (row : MemoryRow) : MemoryEntry :=
  { row.others with
    key := row.key
    sourceAgent := row.sourceAgent
    tags := row.tags
    createdAt := row.createdAt
    updatedAt := row.updatedAt }

/-- `_row_to_entry`. -/
def MemoryRow.toEntry (u : Unicode) (row : MemoryRow) : Except String MemoryEntry := row.entry.validate u

/-- `load_all` of a tenant. -/
def Database.loadAll (u : Unicode) (db : Database) (project agent : String) :
    Except String (List MemoryEntry) :=
  ((db.memories.values.filter (fun row => row.projectId = project ∧ row.agentId = agent)).insertionSort
    (fun a b => b.updatedAt ≤ a.updatedAt)).mapM (MemoryRow.toEntry u)

/-- The row passes the model's validator. -/
def MemoryRow.Readable (u : Unicode) (row : MemoryRow) : Prop := Valid u row.entry

instance (u : Unicode) (row : MemoryRow) : Decidable (row.Readable u) :=
  inferInstanceAs (Decidable (Valid u row.entry))

/-- The tag `_move_row` appends. -/
def migrationTag (row : MemoryRow) : String := s!"migrated_from:{row.projectId}/{row.agentId}"

/-- There is room for the tag of one more move, and the tag is no longer than a tag may be. -/
def MemoryRow.roomy (row : MemoryRow) : Bool :=
  row.tags.length < MAX_TAGS ∧ (migrationTag row).length ≤ MAX_TAG_LENGTH

section Tags
variable {u : Unicode} {row : MemoryRow}

theorem tagsError_append {tags : List String} {tag : String} (h : tagsError u tags = none) :
    tagsError u (tags ++ [tag]) = none ↔ tags.length < MAX_TAGS ∧ tagError u tag = none := by
  rw [tagsError] at h ⊢
  have hkept : tags.findSome? (tagError u) = none := by
    split at h
    · cases h
    · exact h
  rw [List.length_append, List.length_singleton, List.findSome?_append, hkept]
  split
  · next hfull =>
    constructor
    · nofun
    · intro ⟨hroom, _⟩
      omega
  · next hroom =>
    have hroom' : tags.length < MAX_TAGS := by omega
    simp only [hroom', true_and, List.findSome?_singleton, Option.none_or]

theorem migrationTag_inked (row : MemoryRow) : isBlank (migrationTag row) = false := by
  have hhead : (migrationTag row).toList =
      'm' :: ("igrated_from:" ++ row.projectId ++ "/" ++ row.agentId).toList := by
    rw [migrationTag]
    simp only [String.toList_append]
    rfl
  rw [isBlank, hhead, List.all_cons]
  rfl

theorem tagError_migrationTag :
    tagError u (migrationTag row) = none ↔ (migrationTag row).length ≤ MAX_TAG_LENGTH := by
  rw [tagError, migrationTag_inked]
  split
  · next h => cases h
  · split
    · next h =>
      constructor
      · nofun
      · intro hle
        omega
    · next h => exact ⟨fun _ => Nat.le_of_not_lt h, fun _ => rfl⟩

/-- Of all the validator reads a move changes the tags. -/
theorem readable_iff : row.Readable u ↔ tagsError u row.tags = none ∧
    ({ row with projectId := "", agentId := "", tags := [] } : MemoryRow).Readable u := by
  have hempty : tagsError u [] = none := rfl
  simp only [MemoryRow.Readable, valid_iff, fieldErrors, modelErrors, MemoryRow.entry,
    List.cons_append, List.nil_append, List.forall_mem_cons, List.not_mem_nil, false_implies,
    implies_true, and_true, reported_eq_none, hempty, true_and, scopeError, validityError, aliasError]
  constructor
  · rintro ⟨hkey, hvalue, htier, hconf, htags, hrest⟩
    exact ⟨htags, hkey, hvalue, htier, hconf, hrest⟩
  · rintro ⟨htags, hkey, hvalue, htier, hconf, hrest⟩
    exact ⟨hkey, hvalue, htier, hconf, htags, hrest⟩

theorem readable_moved (project agent : String) (h : row.Readable u) :
    (TenantRow.rehomed project agent row).Readable u ↔ row.roomy = true := by
  obtain ⟨htags, hrest⟩ := readable_iff.1 h
  rw [readable_iff, MemoryRow.roomy, decide_eq_true_eq, ← tagError_migrationTag (u := u)]
  apply Iff.trans _ (tagsError_append htags)
  exact and_iff_left hrest

end Tags

section Moves
variable {ρ : Type} [TenantRow ρ] {x : DbSession} {m : Rehome} {s t : ApplyState ρ}
  {log : RehomeLog} {row : ρ}

/-- The row a re-home finds under the old identity and is to move: its target is vacant, or held by
a row that is no newer and not itself. -/
def movedRow (x : DbSession) (m : Rehome) (s : ApplyState ρ) : Option ρ :=
  match s.live.get? m.old, s.live.get? m.target with
  | none, _ => none
  | some row, none => some row
  | some row, some other =>
    if m.target ≠ m.old ∧ winnerOf (x.iso (TenantRow.timestamp row))
        (x.iso (TenantRow.timestamp other)) = .source then
      some row
    else none

theorem movedRow_old (h : movedRow x m s = some row) : s.live.get? m.old = some row := by
  rw [movedRow] at h
  cases hold : s.live.get? m.old with
  | none =>
    rw [hold] at h
    cases h
  | some old =>
    cases htarget : s.live.get? m.target with
    | none =>
      simpa only [hold, htarget] using h
    | some other =>
      simp only [hold, htarget] at h
      split at h
      · exact h
      · cases h

/-- `_apply_one_rehome` on the state of the transaction. -/
def rehomeStep (x : DbSession) (m : Rehome) (s : ApplyState ρ) : ApplyState ρ :=
  match applyOneRehome x m s with
  | .ok (_, t) => t
  | .error _ => s

theorem moveRow_rows (h : moveRow m s = .ok t) (hrow : row ∈ t.live.values) :
    row ∈ s.live.values ∨ ∃ old, s.live.get? m.old = some old ∧ row = land m old := by
  rw [moveRow] at h
  cases hold : s.live.get? m.old with
  | none =>
    rw [hold] at h
    cases h
    exact .inl hrow
  | some old =>
    simp only [hold] at h
    split at h
    · cases h
    · cases h
      rcases Table.mem_set hrow with rfl | hrow
      · exact .inr ⟨old, rfl, rfl⟩
      · exact .inl (Table.mem_pop hrow)

/-- A re-home leaves the rows that were live, less some, and the one it moved. -/
theorem applyOneRehome_rows (h : applyOneRehome x m s = .ok (log, t)) (hrow : row ∈ t.live.values) :
    row ∈ s.live.values ∨ ∃ old, movedRow x m s = some old ∧ row = land m old := by
  simp only [applyOneRehome, fetchRowTimestamp] at h
  cases hold : s.live.get? m.old with
  | none =>
    simp only [hold, Option.map_none] at h
    cases h
    exact .inl hrow
  | some old =>
    cases htarget : s.live.get? m.target with
    | none =>
      simp only [hold, htarget, Option.map_some, Option.map_none] at h
      obtain ⟨moved, hmove, h⟩ := bind_eq_ok h
      cases h
      rcases moveRow_rows hmove hrow with hkept | ⟨r, hr, rfl⟩
      · exact .inl hkept
      · refine .inr ⟨r, ?_, rfl⟩
        simp only [movedRow, htarget, hr]
    | some other =>
      simp only [hold, htarget, Option.map_some] at h
      split at h
      · next hwinner =>
        obtain ⟨moved, hmove, h⟩ := bind_eq_ok h
        cases h
        rcases moveRow_rows hmove hrow with hkept | ⟨r, hr, rfl⟩
        · exact .inl (Table.mem_pop hkept)
        · have hne : m.target ≠ m.old := by
            intro heq
            rw [archiveAndDeleteOne, heq, Table.get?_pop, if_pos rfl] at hr
            cases hr
          have hr' : s.live.get? m.old = some r := (Table.get?_pop_ne _ hne).symm.trans hr
          cases hold.symm.trans hr'
          refine .inr ⟨old, ?_, rfl⟩
          simp only [movedRow, hold, htarget]
          exact if_pos ⟨hne, hwinner⟩
      · cases h
        exact .inl hrow

theorem rehomeStep_rows (hrow : row ∈ (rehomeStep x m s).live.values) :
    row ∈ s.live.values ∨ ∃ old, movedRow x m s = some old ∧ row = land m old := by
  rw [rehomeStep] at hrow
  cases h : applyOneRehome x m s with
  | error e =>
    rw [h] at hrow
    exact .inl hrow
  | ok done =>
    rw [h] at hrow
    exact applyOneRehome_rows h hrow

theorem applyRehomes_runSteps {moves : List Rehome} {logs : List RehomeLog}
    (h : applyRehomes x moves s = .ok (logs, t)) : t = runSteps (rehomeStep x) moves s := by
  induction moves generalizing s logs with
  | nil =>
    cases h
    rfl
  | cons m rest ih =>
    obtain ⟨⟨log, mid⟩, hone, h⟩ := bind_eq_ok h
    obtain ⟨⟨logs, u⟩, hrest, h⟩ := bind_eq_ok h
    cases h
    have hstep : rehomeStep x m s = mid := by rw [rehomeStep, hone]
    rw [runSteps, hstep]
    exact ih hrest

theorem foldl_pop_rows {ids : List Identity} {live : TenantTable ρ}
    (hrow : row ∈ (ids.foldl Table.pop live).values) : row ∈ live.values := by
  induction ids generalizing live with
  | nil => exact hrow
  | cons id rest ih => exact Table.mem_pop (ih hrow)

/-- The rows an applied table is left with are among those of its re-homes. -/
theorem applyTable_rows {name archiveTable : String} {plan : TablePlan} {names : List String}
    {table : TenantTable ρ} {result : ApplyTableResult} {logs : List RehomeLog}
    (h : applyTable x name plan names archiveTable table = .ok (result, logs, t))
    (hrow : row ∈ t.live.values) :
    row ∈ (runSteps (rehomeStep x) (rehomes plan.groups) (snapshotTable table)).live.values := by
  simp only [applyTable] at h
  split at h
  · cases h
  · obtain ⟨_, -, h⟩ := bind_eq_ok h
    obtain ⟨⟨_, moved⟩, hmoves, h⟩ := bind_eq_ok h
    rw [← applyRehomes_runSteps hmoves]
    split at h
    · cases h
    split at h
    · cases h
    split at h
    · cases h
    cases h
    exact foldl_pop_rows hrow

end Moves

/-- The re-home moves no row that has no room for its tag. -/
def fits (x : DbSession) (m : Rehome) (s : ApplyState MemoryRow) : Bool :=
  (movedRow x m s).all MemoryRow.roomy

/-- A run of the script: `build_plan`, or `apply_plan` on a plan, whatever plan that is. -/
inductive MigrationCall where
  | buildPlan (x : DbSession) (agentProjectMap : Option (List (String × String)))
    (ingestWindow : Option (String × String))
  | applyPlan (x : DbSession) (plan : MigrationPlan) (archiveTable : String)

/-- The database an apply commits. -/
def Database.migrated (db : Database) (archiveTable : String) (r : ApplyResult) : Database :=
  { db with
    memories := r.memories.2.2.live
    relations := r.relations.map (fun applied => applied.2.2.live)
    names := db.names ++ archiveTable ::
      (if r.relations.isSome then [relationsArchiveTable archiveTable] else []) }

/-- A plan is read off the database, and an apply that raises is rolled back. -/
def MigrationCall.step : MigrationCall → Database → Database
  | .buildPlan _ _ _, db => db
  | .applyPlan x plan archiveTable, db =>
    match TappsBrain.applyPlan x db plan archiveTable with
    | .ok r => db.migrated archiveTable r
    | .error _ => db

/-- Every row the apply moves has room for its tag when it is moved. -/
def MigrationCall.fits : MigrationCall → Database → Bool
  | .buildPlan _ _ _, _ => true
  | .applyPlan x plan _, db =>
    decide (Allowed (rehomeStep x) (TappsBrain.fits x) (rehomes plan.memories.groups)
      (snapshotTable db.memories))

def Database.Readable (u : Unicode) (db : Database) : Prop :=
  ∀ row ∈ db.memories.values, row.Readable u

instance (u : Unicode) (db : Database) : Decidable (db.Readable u) :=
  inferInstanceAs (Decidable (∀ row ∈ db.memories.values, row.Readable u))

section Runs
variable {u : Unicode} {x : DbSession} {db : Database}

theorem rehomeStep_readable {m : Rehome} {s : ApplyState MemoryRow}
    (h : ∀ row ∈ s.live.values, row.Readable u) (hfits : fits x m s = true) :
    ∀ row ∈ (rehomeStep x m s).live.values, row.Readable u := by
  intro row hrow
  rcases rehomeStep_rows hrow with hkept | ⟨old, hmoved, rfl⟩
  · exact h row hkept
  · rw [fits, hmoved, Option.all_some] at hfits
    have hold := Table.mem_of_get? (movedRow_old hmoved)
    exact (readable_moved _ _ (h old hold)).2 hfits

theorem migrationStep_readable (c : MigrationCall) (h : db.Readable u) (hfits : c.fits db = true) :
    (c.step db).Readable u := by
  cases c with
  | buildPlan x agentProjectMap ingestWindow => exact h
  | applyPlan x plan archiveTable =>
    rw [MigrationCall.step]
    cases happly : applyPlan x db plan archiveTable with
    | error e => exact h
    | ok r =>
      intro row hrow
      obtain ⟨htable, -⟩ := applyPlan_ok happly
      have hlive := applyTable_rows htable hrow
      have hallowed : Allowed (rehomeStep x) (fits x) (rehomes plan.memories.groups)
          (snapshotTable db.memories) := of_decide_eq_true hfits
      have hsnapshot : ∀ row ∈ (snapshotTable db.memories).live.values, row.Readable u := h
      have hkept : ∀ row ∈ (runSteps (rehomeStep x) (rehomes plan.memories.groups)
          (snapshotTable db.memories)).live.values, row.Readable u :=
        hallowed.keeps (I := fun s : ApplyState MemoryRow => ∀ row ∈ s.live.values, row.Readable u)
          (fun m s hs hm => rehomeStep_readable hs hm) hsnapshot
      exact hkept row hlive

theorem loadAll_readable (h : db.Readable u) (project agent : String) :
    ∃ entries, db.loadAll u project agent = .ok entries := by
  rw [Database.loadAll]
  have hrows : ∀ row ∈ (db.memories.values.filter (fun row => row.projectId = project ∧
      row.agentId = agent)).insertionSort (fun a b => b.updatedAt ≤ a.updatedAt),
      row.Readable u := by
    intro row hrow
    exact h row (List.mem_filter.1 ((List.mem_insertionSort _).1 hrow)).1
  generalize (db.memories.values.filter (fun row => row.projectId = project ∧
    row.agentId = agent)).insertionSort (fun a b => b.updatedAt ≤ a.updatedAt) = rows at hrows
  induction rows with
  | nil => exact ⟨[], rfl⟩
  | cons row rest ih =>
    obtain ⟨entries, hrest⟩ := ih (fun r hr => hrows r (List.mem_cons_of_mem _ hr))
    have hrow := validate_of_valid (hrows row List.mem_cons_self)
    refine ⟨row.entry.normalised u :: entries, ?_⟩
    rw [List.mapM_cons, hrest, MemoryRow.toEntry, hrow]
    rfl

/-- While every row an apply moves has room for the tag, every row stays readable and every tenant
loads, in each state of the run. -/
theorem migrations_stay_readable (calls later : List MigrationCall) (h : db.Readable u)
    (hfits : Allowed MigrationCall.step MigrationCall.fits (calls ++ later) db) :
    (runSteps MigrationCall.step calls db).Readable u ∧
      ∀ project agent, ∃ entries,
        (runSteps MigrationCall.step calls db).loadAll u project agent = .ok entries := by
  have hreadable : (runSteps MigrationCall.step calls db).Readable u :=
    hfits.append_left.keeps (I := fun db : Database => db.Readable u)
      (fun c _ hdb hc => migrationStep_readable c hdb hc) h
  exact ⟨hreadable, loadAll_readable hreadable⟩

end Runs

/-- The calls of one migration: the dry run, and the apply of what it planned. -/
def migrationCalls (x : DbSession) (db : Database)
    (agentProjectMap : Option (List (String × String))) (archiveTable : String) :
    List MigrationCall :=
  match buildPlan x db agentProjectMap none with
  | .ok plan => [.buildPlan x agentProjectMap none, .applyPlan x plan archiveTable]
  | .error _ => [.buildPlan x agentProjectMap none]

theorem free_home_stays_readable :
    (runSteps MigrationCall.step (migrationCalls utcYears freeHomeDb (some [("a1", "proj")])
        "archive_v1") freeHomeDb).Readable Unicode.lowercase ∧
      ((runSteps MigrationCall.step (migrationCalls utcYears freeHomeDb (some [("a1", "proj")])
        "archive_v1") freeHomeDb).memories.values.map (fun row => (row.projectId, row.tags))) =
        [("proj", ["migrated_from:main/scout"])] := by
  have hreadable : freeHomeDb.Readable Unicode.lowercase := by decide +kernel
  have hfits : Allowed MigrationCall.step MigrationCall.fits
      (migrationCalls utcYears freeHomeDb (some [("a1", "proj")]) "archive_v1" ++ []) freeHomeDb := by
    decide +kernel
  exact ⟨(migrations_stay_readable _ [] hreadable hfits).1, by decide +kernel⟩

/-- A memory with as many tags as the validator allows. -/
def taggedRow : MemoryRow :=
  { scoutRow "main" "deploy" "a1" 2026 with
    tags := ["ops", "ci", "cd", "api", "db", "auth", "cache", "queue", "logs", "infra"] }

def taggedDb : Database := scoutDb [taggedRow] ["proj"]

theorem migration_overfills_tags :
    taggedDb.Readable Unicode.lowercase ∧
      (taggedDb.loadAll Unicode.lowercase "main" "scout").isOk = true ∧
      ((runSteps MigrationCall.step (migrationCalls utcYears taggedDb (some [("a1", "proj")])
        "archive_v1") taggedDb).memories.values.map (fun row => row.tags.length)) = [11] ∧
      ((runSteps MigrationCall.step (migrationCalls utcYears taggedDb (some [("a1", "proj")])
        "archive_v1") taggedDb).loadAll Unicode.lowercase "proj" "scout").toOption = none := by
  refine ⟨by decide +kernel, by decide +kernel, by decide +kernel, by decide +kernel⟩

end TappsBrain
