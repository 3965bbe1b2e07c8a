import Mathlib.Data.List.Nodup
import Mathlib.Data.List.Pairwise
import Mathlib.Data.List.Sort
import Mathlib.Logic.Function.Basic
import TappsBrain.Lib.Exclusive
import TappsBrain.Lib.Run

namespace TappsBrain.Migrations
open Lib
set_option autoImplicit true
set_option relaxedAutoImplicit false

/-- A database, as the runner of one version table sees it. -/
structure Database (σ : Type) where
  /-- The rows of the version table; `none` while there is no such table. -/
  versions : Option (List Nat)
  schema : σ

def Database.applied (d : Database σ) : List Nat := d.versions.getD []

/-- A file of a package directory, with what executing its text does: `none` when it raises. -/
structure File (σ : Type) where
  name : String
  sql : Database σ → Option (Database σ)

section Names

/-- The number and the body of a name that both patterns read as `NNN_body.sql`. -/
def nameParts (name : String) : Option (Nat × List Char) :=
  let cs := if name.toList.getLast? = some '\n' then name.toList.dropLast else name.toList
  match cs.takeWhile Char.isDigit, cs.dropWhile Char.isDigit with
  | [], _ => none
  | d :: ds, '_' :: rest =>
    let body := rest.take (rest.length - 4)
    if rest = body ++ ".sql".toList && body ≠ [] && body.all (· ≠ '\n') then
      some ((d :: ds).foldl (fun n c => 10 * n + (c.toNat - '0'.toNat)) 0, body)
    else none
  | _, _ => none

def endsDown (body : List Char) : Bool := ".down".toList.isSuffixOf body

/-- `_MIGRATION_FILE_RE`. -/
def migrationVersion (name : String) : Option Nat :=
  (nameParts name).bind (fun p => if endsDown p.2 then none else some p.1)

/-- `_DOWN_MIGRATION_FILE_RE`: something stands before `.down`. -/
def downVersion (name : String) : Option Nat :=
  (nameParts name).bind (fun p => if endsDown p.2 && 5 < p.2.length then some p.1 else none)

end Names

/-- `_discover_migration_files` and `_discover_down_migration_files`, over the directory. -/
def discover (version : String → Option Nat) (dir : List (File σ)) : List (Nat × File σ) :=
  (dir.filterMap (fun f => (version f.name).map (·, f))).insertionSort (fun a b => a.1 ≤ b.1)

/-- A directory of migrations: version numbers are unique, and every file inserts its own version
row. -/
structure Bundle (σ : Type) where
  dir : List (File σ)
  unique : (dir.filterMap (fun f => migrationVersion f.name)).Nodup
  records : ∀ f ∈ dir, ∀ version, migrationVersion f.name = some version →
    ∀ d d', f.sql d = some d' → ∀ v, v ∈ d'.applied ↔ v = version ∨ v ∈ d.applied

/-- The rollback files of a directory; each deletes its own version row. -/
structure Downs (σ : Type) where
  dir : List (File σ)
  forgets : ∀ f ∈ dir, ∀ version, downVersion f.name = some version →
    ∀ d d', f.sql d = some d' → ∀ v ∈ d'.applied, v ∈ d.applied ∧ v ≠ version

def Bundle.files (b : Bundle σ) : List (Nat × File σ) := discover migrationVersion b.dir

def Downs.files (b : Downs σ) : List (Nat × File σ) := discover downVersion b.dir

/-- The older bundle, and files with higher numbers. -/
def Bundle.Extends (newer older : Bundle σ) : Prop :=
  ∃ more, newer.dir.Perm (older.dir ++ more) ∧
    ∀ f ∈ older.dir, ∀ g ∈ more, ∀ v w, migrationVersion f.name = some v →
      migrationVersion g.name = some w → v < w

/-- Where a process that migrates is. -/
inductive Phase (σ : Type) where
  | idle
  /-- `maybe_auto_migrate_private`, before it reads the schema status. -/
  | gating (b : Bundle σ)
  | refused (b : Bundle σ) (current : Nat)
  /-- It has connected and waits for the advisory lock. -/
  | waiting (b : Bundle σ)
  | locked (b : Bundle σ)
  | applying (b : Bundle σ) (todo : List (Nat × File σ)) (applied : List Nat)
  | finished (b : Bundle σ) (applied : List Nat)
  /-- A dry run has returned. -/
  | previewed (applied : List Nat)
  /-- A rollback has read what is applied, and waits for the advisory lock. -/
  | planned (b : Downs σ) (todo : List (Nat × File σ))
  | rolling (b : Downs σ) (todo : List (Nat × File σ)) (rolled : List Nat)
  | rolledBack (rolled : List Nat)
  | failed

/-- A committed file, by its version. -/
inductive Commit where
  | up (version : Nat)
  | down (version : Nat)
deriving DecidableEq

structure System (σ : Type) where
  db : Database σ
  /-- Who holds the advisory lock of the version table. -/
  holder : Option Nat := none
  phase : Nat → Phase σ := fun _ => .idle
  log : List Commit := []

inductive Event (σ : Type) where
  | apply (process : Nat) (b : Bundle σ)
  | autoMigrate (process : Nat) (b : Bundle σ)
  | gate (process : Nat)
  | dryRun (process : Nat) (b : Bundle σ)
  | acquire (process : Nat)
  | read (process : Nat)
  | exec (process : Nat)
  | plan (process : Nat) (b : Downs σ) (target : Nat) (dry : Bool)
  /-- The process is killed, its connection breaks, or a statement raises: the server rolls back
  what is not committed and releases the lock. -/
  | fail (process : Nat)

def System.goto (s : System σ) (process : Nat) (p : Phase σ) : System σ :=
  { s with phase := Function.update s.phase process p }

/-- The connection closes, and with it goes the lock. -/
def System.leave (s : System σ) (process : Nat) (p : Phase σ) : System σ :=
  { s with
    phase := Function.update s.phase process p
    holder := if s.holder = some process then none else s.holder }

/-- `pending`, of what a runner reads. -/
def pending (b : Bundle σ) (d : Database σ) : List (Nat × File σ) :=
  b.files.filter (fun m => m.1 ∉ d.applied)

/-- `to_rollback`. -/
def toRollback (b : Downs σ) (target : Nat) (d : Database σ) : List (Nat × File σ) :=
  (b.files.filter (fun m => target < m.1 && m.1 ∈ d.applied)).insertionSort (fun a c => c.1 ≤ a.1)

def versionsOf (files : List (Nat × File σ)) : List Nat := files.map Prod.fst

def currentVersion (d : Database σ) : Nat := d.applied.foldl max 0

def maxBundled (b : Bundle σ) : Nat := (versionsOf b.files).foldl max 0

def step : Event σ → System σ → System σ
  | .apply process b, s =>
    match s.phase process with
    | .idle => s.goto process (.waiting b)
    | _ => s
  | .autoMigrate process b, s =>
    match s.phase process with
    | .idle => s.goto process (if b.files = [] then .finished b [] else .gating b)
    | _ => s
  | .gate process, s =>
    match s.phase process with
    | .gating b =>
      s.goto process
        (if maxBundled b < currentVersion s.db then .refused b (currentVersion s.db)
          else .waiting b)
    | _ => s
  | .dryRun process b, s =>
    match s.phase process with
    | .idle => s.goto process (.previewed (versionsOf (pending b s.db)))
    | _ => s
  | .acquire process, s =>
    match s.phase process, s.holder with
    | .waiting b, none => { s.goto process (.locked b) with holder := some process }
    | .planned b todo, none => { s.goto process (.rolling b todo []) with holder := some process }
    | _, _ => s
  | .read process, s =>
    match s.phase process with
    | .locked b => s.goto process (.applying b (pending b s.db) [])
    | _ => s
  | .exec process, s =>
    match s.phase process with
    | .applying b [] applied => s.leave process (.finished b applied)
    | .applying b (m :: todo) applied =>
      match m.2.sql s.db with
      | some d =>
        { s.goto process (.applying b todo (applied ++ [m.1])) with
          db := d, log := s.log ++ [.up m.1] }
      | none => s.leave process .failed
    | .rolling _ [] rolled => s.leave process (.rolledBack rolled)
    | .rolling b (m :: todo) rolled =>
      match m.2.sql s.db with
      | some d =>
        { s.goto process (.rolling b todo (rolled ++ [m.1])) with
          db := d, log := s.log ++ [.down m.1] }
      | none => s.leave process .failed
    | _ => s
  | .plan process b target dry, s =>
    match s.phase process with
    | .idle =>
      let todo := toRollback b target s.db
      s.goto process
        (if todo = [] then .rolledBack []
          else if dry then .rolledBack (versionsOf todo) else .planned b todo)
    | _ => s
  | .fail process, s =>
    match s.phase process with
    | .idle | .refused .. | .finished .. | .previewed .. | .rolledBack .. | .failed => s
    | _ => s.leave process .failed

/-- One uninterrupted run over these files. -/
def replay (files : List (Nat × File σ)) (d : Database σ) : Option (Database σ) :=
  files.foldlM (fun d m => m.2.sql d) d

section Files
variable {σ : Type} {version : String → Option Nat} {dir : List (File σ)} {b : Bundle σ}

theorem mem_discover {m : Nat × File σ} (h : m ∈ discover version dir) :
    m.2 ∈ dir ∧ version m.2.name = some m.1 := by
  have hmem := (List.perm_insertionSort _ _).mem_iff.1 h
  obtain ⟨f, hf, hm⟩ := List.mem_filterMap.1 hmem
  obtain ⟨v, hv, rfl⟩ := Option.map_eq_some_iff.1 hm
  exact ⟨hf, hv⟩

theorem versionsOf_perm (dir : List (File σ)) :
    (versionsOf (discover version dir)).Perm (dir.filterMap (fun f => version f.name)) := by
  have h := (List.perm_insertionSort (fun a b => a.1 ≤ b.1)
    (dir.filterMap (fun f => (version f.name).map (·, f)))).map Prod.fst
  apply h.trans
  rw [List.map_filterMap]
  apply List.Perm.of_eq
  congr 1
  funext f
  cases version f.name <;> rfl

theorem Bundle.nodup (b : Bundle σ) : (versionsOf b.files).Nodup :=
  (versionsOf_perm b.dir).nodup_iff.2 b.unique

/-- The files of a bundle in the order in which they are applied. -/
theorem Bundle.sorted (b : Bundle σ) : (versionsOf b.files).Pairwise (· < ·) := by
  have hle : (versionsOf b.files).Pairwise (· ≤ ·) := by
    apply List.pairwise_map.2
    have := List.pairwise_insertionSort (fun a b : Nat × File σ => a.1 ≤ b.1)
      (b.dir.filterMap (fun f => (migrationVersion f.name).map (·, f)))
    exact this
  have hne := List.nodup_iff_pairwise_ne.1 b.nodup
  apply (hle.and hne).imp
  intro v w h
  exact Nat.lt_of_le_of_ne h.1 h.2

theorem Bundle.recorded (b : Bundle σ) {m : Nat × File σ} (hm : m ∈ b.files) {d d' : Database σ}
    (h : m.2.sql d = some d') (v : Nat) : v ∈ d'.applied ↔ v = m.1 ∨ v ∈ d.applied := by
  obtain ⟨hf, hv⟩ := mem_discover hm
  exact b.records m.2 hf m.1 hv d d' h v

theorem Downs.forgotten (b : Downs σ) {m : Nat × File σ} (hm : m ∈ b.files) {d d' : Database σ}
    (h : m.2.sql d = some d') {v : Nat} (hv : v ∈ d'.applied) : v ∈ d.applied := by
  obtain ⟨hf, hver⟩ := mem_discover hm
  exact (b.forgets m.2 hf m.1 hver d d' h v hv).1

end Files

/-- It holds the lock, or should. -/
def Phase.Critical : Phase σ → Prop
  | .locked _ | .applying .. | .rolling .. => True
  | _ => False

section Once
variable {σ : Type} {s : System σ} {d : Database σ}

/-- Between two runs of the file of a version something was rolled back. -/
def Spaced (log : List Commit) : Prop :=
  ∀ pre mid post v, log = pre ++ .up v :: mid ++ .up v :: post → ∃ w, .down w ∈ mid

/-- A file that ran is recorded, unless something was rolled back since. -/
def Recorded (log : List Commit) (d : Database σ) : Prop :=
  ∀ pre post v, log = pre ++ .up v :: post → (∃ w, .down w ∈ post) ∨ v ∈ d.applied

/-- Where an entry of a longer log stands. -/
theorem snoc_split {c x : Commit} {log pre post : List Commit}
    (h : log ++ [c] = pre ++ x :: post) :
    (post = [] ∧ c = x ∧ log = pre) ∨ ∃ post', post = post' ++ [c] ∧ log = pre ++ x :: post' := by
  rcases List.eq_nil_or_concat post with rfl | ⟨post', y, rfl⟩
  · obtain ⟨hlog, hc⟩ := List.append_inj' h rfl
    exact .inl ⟨rfl, (List.cons.inj hc).1, hlog⟩
  · have h' : log ++ [c] = (pre ++ x :: post') ++ [y] := by
      rw [h, List.concat_eq_append, List.append_assoc, List.cons_append]
    obtain ⟨hlog, hc⟩ := List.append_inj' h' rfl
    exact .inr ⟨post', by rw [(List.cons.inj hc).1, List.concat_eq_append], hlog⟩

theorem Recorded.up (h : Recorded s.log d) {d' : Database σ} {v : Nat}
    (hd : ∀ w, w ∈ d'.applied ↔ w = v ∨ w ∈ d.applied) :
    Recorded (s.log ++ [.up v]) d' := by
  intro pre post w heq
  rcases snoc_split heq with ⟨-, hc, -⟩ | ⟨post', rfl, hlog⟩
  · obtain rfl := Commit.up.inj hc
    exact .inr ((hd v).2 (.inl rfl))
  · rcases h pre post' w hlog with ⟨x, hx⟩ | hw
    · exact .inl ⟨x, List.mem_append_left _ hx⟩
    · exact .inr ((hd w).2 (.inr hw))

theorem Recorded.down (log : List Commit) (d : Database σ) (v : Nat) :
    Recorded (log ++ [.down v]) d := by
  intro pre post w heq
  rcases snoc_split heq with ⟨-, hc, -⟩ | ⟨post', rfl, -⟩
  · cases hc
  · exact .inl ⟨v, List.mem_append_right _ (List.mem_singleton_self _)⟩

theorem Spaced.up (h : Spaced s.log) (hr : Recorded s.log d) {v : Nat} (hv : v ∉ d.applied) :
    Spaced (s.log ++ [.up v]) := by
  intro pre mid post w heq
  rcases snoc_split heq with ⟨-, hc, hlog⟩ | ⟨post', -, hlog⟩
  · obtain rfl := Commit.up.inj hc
    exact (hr pre mid v hlog).resolve_right hv
  · exact h pre mid post' w hlog

theorem Spaced.down (h : Spaced s.log) (v : Nat) : Spaced (s.log ++ [.down v]) := by
  intro pre mid post w heq
  rcases snoc_split heq with ⟨-, hc, -⟩ | ⟨post', -, hlog⟩
  · cases hc
  · exact h pre mid post' w hlog

/-- What a process is about to execute fits the database. -/
def Fits (d : Database σ) : Phase σ → Prop
  | .applying b todo _ =>
    (∀ m ∈ todo, m ∈ b.files) ∧ (versionsOf todo).Nodup ∧ ∀ v ∈ versionsOf todo, v ∉ d.applied
  | .planned b todo | .rolling b todo _ => ∀ m ∈ todo, m ∈ b.files
  | _ => True

theorem Fits.other {p : Phase σ} (h : Fits d p) (hp : ¬ p.Critical) (d' : Database σ) :
    Fits d' p := by
  cases p with
  | applying | rolling => exact absurd trivial hp
  | _ => exact h

structure Safe (s : System σ) : Prop where
  exclusive : Exclusive Phase.Critical s.holder s.phase
  fits : ∀ i, Fits s.db (s.phase i)
  recorded : Recorded s.log s.db
  spaced : Spaced s.log

theorem Safe.start (d : Database σ) : Safe { db := d } where
  exclusive := fun _ h => h.elim
  fits := fun _ => trivial
  recorded := fun _ _ _ h => absurd (List.append_eq_nil_iff.1 h.symm).2 (List.cons_ne_nil _ _)
  spaced := fun _ _ _ _ h => absurd (List.append_eq_nil_iff.1 h.symm).2 (List.cons_ne_nil _ _)

theorem Safe.goto (h : Safe s) {i : Nat} {p : Phase σ} (hp : p.Critical → s.holder = some i)
    (hfits : Fits s.db p) : Safe (s.goto i p) where
  exclusive := h.exclusive.goto hp
  fits := forall_update (fun j _ => h.fits j) hfits
  recorded := h.recorded
  spaced := h.spaced

theorem Safe.enter (h : Safe s) (hfree : s.holder = none) {i : Nat} {p : Phase σ}
    (hfits : Fits s.db p) : Safe { s.goto i p with holder := some i } where
  exclusive := h.exclusive.enter hfree
  fits := forall_update (fun j _ => h.fits j) hfits
  recorded := h.recorded
  spaced := h.spaced

theorem Safe.leave (h : Safe s) {i : Nat} {p : Phase σ} (hp : ¬ p.Critical)
    (hfits : Fits s.db p) : Safe (s.leave i p) where
  exclusive := h.exclusive.leave hp
  fits := forall_update (fun j _ => h.fits j) hfits
  recorded := h.recorded
  spaced := h.spaced

/-- A file that the holder of the lock executes. -/
theorem Safe.commit (h : Safe s) {i : Nat} {p : Phase σ} {c : Commit}
    (hi : (s.phase i).Critical) (hfits : Fits d p) (hr : Recorded (s.log ++ [c]) d)
    (hs : Spaced (s.log ++ [c])) : Safe { s.goto i p with db := d, log := s.log ++ [c] } where
  exclusive := h.exclusive.goto (fun _ => h.exclusive i hi)
  fits := forall_update (fun j hne => (h.fits j).other (h.exclusive.others hi hne) d) hfits
  recorded := hr
  spaced := hs

theorem Safe.exec (h : Safe s) (i : Nat) : Safe (step (.exec i) s) := by
  simp only [step]
  have hfits := h.fits i
  split
  · exact h.leave not_false trivial
  · next b m todo applied hp =>
    rw [hp] at hfits
    obtain ⟨hmem, hnodup, hnew⟩ := hfits
    have hm := hmem m List.mem_cons_self
    have hc : (s.phase i).Critical := by
      rw [hp]
      trivial
    split
    · next d hd =>
      have hrec := b.recorded hm hd
      have hout := (List.nodup_cons.1 hnodup)
      refine h.commit hc ⟨?_, hout.2, ?_⟩ (h.recorded.up hrec)
        (h.spaced.up h.recorded (hnew m.1 List.mem_cons_self))
      · exact fun x hx => hmem x (List.mem_cons_of_mem m hx)
      · intro v hv hv'
        rcases (hrec v).1 hv' with rfl | hold
        · exact hout.1 hv
        · exact hnew v (List.mem_cons_of_mem _ hv) hold
    · exact h.leave not_false trivial
  · exact h.leave not_false trivial
  · next b m todo rolled hp =>
    rw [hp] at hfits
    have hc : (s.phase i).Critical := by
      rw [hp]
      trivial
    split
    · next d hd =>
      exact h.commit hc (fun x hx => hfits x (List.mem_cons_of_mem m hx)) (.down s.log d m.1)
        (h.spaced.down m.1)
    · exact h.leave not_false trivial
  · exact h

theorem Safe.plan (h : Safe s) (i : Nat) (b : Downs σ) (target : Nat) (dry : Bool) :
    Safe (step (.plan i b target dry) s) := by
  have hsub : ∀ m ∈ toRollback b target s.db, m ∈ b.files := fun m hm =>
    (List.mem_filter.1 ((List.perm_insertionSort _ _).mem_iff.1 hm)).1
  simp only [step]
  split
  · apply h.goto
    · intro hc
      split at hc
      · cases hc
      · split at hc <;> cases hc
    · split
      · trivial
      · split
        · trivial
        · exact hsub
  · exact h

theorem Safe.step (h : Safe s) (e : Event σ) : Safe (step e s) := by
  cases e with
  | apply i b | dryRun i b =>
    simp only [Migrations.step]
    split
    · exact h.goto (fun hc => hc.elim) trivial
    · exact h
  | autoMigrate i b =>
    simp only [Migrations.step]
    split
    · split <;> exact h.goto (fun hc => hc.elim) trivial
    · exact h
  | gate i =>
    simp only [Migrations.step]
    split
    · split <;> exact h.goto (fun hc => hc.elim) trivial
    · exact h
  | acquire i =>
    simp only [Migrations.step]
    have hfits := h.fits i
    split
    · next hfree => exact h.enter hfree trivial
    · next hp hfree =>
      rw [hp] at hfits
      exact h.enter hfree hfits
    · exact h
  | read i =>
    simp only [Migrations.step]
    split
    · next b hp =>
      have hc : (s.phase i).Critical := by
        rw [hp]
        trivial
      refine h.goto (fun _ => h.exclusive i hc) ⟨?_, ?_, ?_⟩
      · exact fun m hm => (List.mem_filter.1 hm).1
      · exact (List.filter_sublist.map Prod.fst).nodup b.nodup
      · intro v hv
        obtain ⟨m, hm, rfl⟩ := List.mem_map.1 hv
        exact of_decide_eq_true (List.mem_filter.1 hm).2
    · exact h
  | exec i => exact h.exec i
  | plan i b target dry => exact h.plan i b target dry
  | fail i =>
    simp only [Migrations.step]
    split
    all_goals first | exact h | exact h.leave not_false trivial

/-- However the processes of however many releases interleave, crash and fail, the file of a
version runs again only after a rollback. -/
theorem runs_once (events : List (Event σ)) (d : Database σ) :
    Spaced (runSteps Migrations.step events { db := d }).log := by
  have hsafe : Safe (runSteps Migrations.step events { db := d }) :=
    runSteps_keeps (fun e _ _ h => h.step e) (Safe.start d)
  exact hsafe.spaced

end Once

section Deploys
variable {σ : Type} {s : System σ} {history b : Bundle σ} {d d' fresh : Database σ} {k : Nat}

/-- An older release holds the first files of a newer one. -/
theorem Bundle.Extends.files_prefix (h : history.Extends b) : b.files <+: history.files := by
  obtain ⟨more, hperm, hless⟩ := h
  have hdir : history.files.Perm (b.files ++ discover migrationVersion more) := by
    have hmap := hperm.filterMap (fun f => (migrationVersion f.name).map (·, f))
    rw [List.filterMap_append] at hmap
    exact (List.perm_insertionSort _ _).trans
      (hmap.trans ((List.perm_insertionSort _ _).symm.append (List.perm_insertionSort _ _).symm))
  have hnodup := (hdir.map Prod.fst).nodup_iff.1 history.nodup
  rw [List.map_append] at hnodup
  have hb : b.files.Pairwise (fun a c => a.1 ≤ c.1) :=
    (List.pairwise_map.1 b.sorted).imp (fun h => Nat.le_of_lt h)
  have hmore := List.pairwise_insertionSort (fun a b : Nat × File σ => a.1 ≤ b.1)
    (more.filterMap (fun f => (migrationVersion f.name).map (·, f)))
  have hsorted : (b.files ++ discover migrationVersion more).Pairwise (fun a c => a.1 ≤ c.1) := by
    apply List.pairwise_append.2
    refine ⟨hb, hmore, ?_⟩
    intro a ha c hc
    obtain ⟨haf, hav⟩ := mem_discover ha
    obtain ⟨hcf, hcv⟩ := mem_discover hc
    exact Nat.le_of_lt (hless a.2 haf c.2 hcf a.1 c.1 hav hcv)
  have hanti : ∀ a c, a ∈ history.files → c ∈ b.files ++ discover migrationVersion more →
      a.1 ≤ c.1 → c.1 ≤ a.1 → a = c := by
    intro a c ha hc hac hca
    exact List.inj_on_of_nodup_map history.nodup ha (hdir.mem_iff.2 hc) (Nat.le_antisymm hac hca)
  have hle : history.files.Pairwise (fun a c => a.1 ≤ c.1) :=
    (List.pairwise_map.1 history.sorted).imp (fun h => Nat.le_of_lt h)
  exact ⟨_, (List.Perm.eq_of_pairwise hanti hle hsorted hdir).symm⟩

theorem replay_append (l m : List (Nat × File σ)) :
    replay (l ++ m) d = (replay l d).bind (replay m) :=
  List.foldlM_append

/-- A run records the versions of its files, and no others. -/
theorem replay_applied {l : List (Nat × File σ)} (hl : ∀ m ∈ l, m ∈ b.files)
    (h : replay l d = some d') (v : Nat) :
    v ∈ d'.applied ↔ v ∈ versionsOf l ∨ v ∈ d.applied := by
  induction l generalizing d with
  | nil =>
    obtain rfl := Option.some.inj h
    exact ⟨.inr, fun h => h.resolve_left List.not_mem_nil⟩
  | cons m rest ih =>
    obtain ⟨e, he, hrest⟩ := Option.bind_eq_some_iff.1 h
    rw [ih (fun x hx => hl x (List.mem_cons_of_mem m hx)) hrest,
      b.recorded (hl m List.mem_cons_self) he, versionsOf, versionsOf, List.map_cons,
      List.mem_cons]
    tauto

/-- What is pending, in a database that holds the first `k` migrations of all. -/
theorem pending_eq (hb : b.files <+: history.files) (hfresh : fresh.applied = [])
    (h : replay (history.files.take k) fresh = some d) : pending b d = b.files.drop k := by
  have happlied : ∀ v, v ∈ d.applied ↔ v ∈ versionsOf (history.files.take k) := by
    intro v
    rw [replay_applied (fun m hm => List.mem_of_mem_take hm) h v, hfresh]
    exact ⟨fun h => h.resolve_right List.not_mem_nil, .inl⟩
  obtain ⟨more, hmore⟩ := hb
  have hsplit : (versionsOf (history.files.take k) ++ versionsOf (history.files.drop k)).Nodup := by
    rw [versionsOf, versionsOf, ← List.map_append, List.take_append_drop]
    exact history.nodup
  have hout : ∀ m ∈ b.files.take k, ¬ decide (m.1 ∉ d.applied) = true := by
    intro m hm hnot
    apply of_decide_eq_true hnot
    rw [happlied, ← hmore, List.take_append]
    exact List.mem_map_of_mem (List.mem_append_left _ hm)
  have hin : ∀ m ∈ b.files.drop k, decide (m.1 ∉ d.applied) = true := by
    intro m hm
    apply decide_eq_true
    rw [happlied]
    intro hv
    apply (List.nodup_append.1 hsplit).2.2 m.1 hv m.1 _ rfl
    rw [← hmore, List.drop_append]
    exact List.mem_map_of_mem (List.mem_append_left _ hm)
  have hparts := congrArg (List.filter (fun m => decide (m.1 ∉ d.applied)))
    (List.take_append_drop k b.files)
  rw [List.filter_append, List.filter_eq_nil_iff.2 hout, List.filter_eq_self.2 hin,
    List.nil_append] at hparts
  exact hparts.symm

theorem foldl_max_le {l : List Nat} {m n : Nat} (hn : n ≤ m) (h : ∀ v ∈ l, v ≤ m) :
    l.foldl max n ≤ m := by
  induction l generalizing n with
  | nil => exact hn
  | cons v rest ih =>
    exact ih (Nat.max_le.2 ⟨hn, h v List.mem_cons_self⟩)
      (fun w hw => h w (List.mem_cons_of_mem v hw))

theorem le_foldl_max (l : List Nat) (n : Nat) :
    n ≤ l.foldl max n ∧ ∀ v ∈ l, v ≤ l.foldl max n := by
  induction l generalizing n with
  | nil => exact ⟨Nat.le_refl n, fun v hv => absurd hv List.not_mem_nil⟩
  | cons w rest ih =>
    obtain ⟨hn, hrest⟩ := ih (max n w)
    refine ⟨Nat.le_trans (Nat.le_max_left n w) hn, ?_⟩
    intro v hv
    rcases List.mem_cons.1 hv with rfl | hv
    · exact Nat.le_trans (Nat.le_max_right n v) hn
    · exact hrest v hv

/-- Only a release that misses some applied file is refused. -/
theorem shorter_of_refused (hb : b.files <+: history.files) (hfresh : fresh.applied = [])
    (h : replay (history.files.take k) fresh = some d) (hnew : maxBundled b < currentVersion d) :
    b.files.length < k := by
  apply Nat.lt_of_not_le
  intro hk
  apply Nat.not_le_of_lt hnew
  apply foldl_max_le (Nat.zero_le _)
  intro v hv
  rw [replay_applied (fun m hm => List.mem_of_mem_take hm) h v, hfresh] at hv
  have hv := hv.resolve_right List.not_mem_nil
  obtain ⟨more, hmore⟩ := hb
  rw [← hmore, List.take_append_of_le_length hk] at hv
  obtain ⟨m, hm, rfl⟩ := List.mem_map.1 hv
  exact (le_foldl_max (versionsOf b.files) 0).2 m.1
    (List.mem_map_of_mem (List.mem_of_mem_take hm))

/-- Where a process of a deploy can be once the first `k` migrations are in the database. -/
def At (history : Bundle σ) (k : Nat) : Phase σ → Prop
  | .gating b | .waiting b | .locked b => history.Extends b
  | .applying b todo _ => history.Extends b ∧ todo = b.files.drop k
  | .finished b _ => b.files.length ≤ k
  | .refused b _ => b.files.length < k
  | .planned .. | .rolling .. => False
  | .idle | .previewed _ | .rolledBack _ | .failed => True

theorem At.other {p : Phase σ} (h : At history k p) (hp : ¬ p.Critical) (l : Nat) (hkl : k ≤ l) :
    At history l p := by
  cases p with
  | finished b => exact Nat.le_trans h hkl
  | refused b => exact Nat.lt_of_lt_of_le h hkl
  | applying => exact absurd trivial hp
  | _ => exact h

/-- A release of the history, or an older one, and no rollback but a dry one. -/
def Event.Deploys (history : Bundle σ) : Event σ → Prop
  | .apply _ b | .autoMigrate _ b | .dryRun _ b => history.Extends b
  | .plan _ _ _ dry => dry = true
  | .gate _ | .acquire _ | .read _ | .exec _ | .fail _ => True

/-- The database is what an uninterrupted run of the first `k` migrations makes of the fresh one. -/
structure DeployedTo (history : Bundle σ) (fresh : Database σ) (s : System σ) (k : Nat) : Prop where
  exclusive : Exclusive Phase.Critical s.holder s.phase
  bound : k ≤ history.files.length
  replayed : replay (history.files.take k) fresh = some s.db
  logged : s.log = (versionsOf (history.files.take k)).map .up
  placed : ∀ i, At history k (s.phase i)

theorem DeployedTo.goto (h : DeployedTo history fresh s k) {i : Nat} {p : Phase σ}
    (hp : p.Critical → s.holder = some i) (hat : At history k p) :
    DeployedTo history fresh (s.goto i p) k :=
  { h with
    exclusive := h.exclusive.goto hp
    placed := forall_update (fun j _ => h.placed j) hat }

theorem DeployedTo.leave (h : DeployedTo history fresh s k) {i : Nat} {p : Phase σ}
    (hp : ¬ p.Critical) (hat : At history k p) : DeployedTo history fresh (s.leave i p) k :=
  { h with
    exclusive := h.exclusive.leave hp
    placed := forall_update (fun j _ => h.placed j) hat }

theorem DeployedTo.exec (h : DeployedTo history fresh s k) (i : Nat) :
    ∃ l, DeployedTo history fresh (step (.exec i) s) l := by
  have hplace := h.placed i
  simp only [step]
  split
  · next b applied hp =>
    rw [hp] at hplace
    exact ⟨k, h.leave not_false (List.drop_eq_nil_iff.1 hplace.2.symm)⟩
  · next b m todo applied hp =>
    rw [hp] at hplace
    obtain ⟨hext, htodo⟩ := hplace
    have hc : (s.phase i).Critical := by
      rw [hp]
      trivial
    split
    · next d hd =>
      -- the next file of the bundle is the next one of the history
      have hm : history.files[k]? = some m := by
        obtain ⟨more, hmore⟩ := hext.files_prefix
        have hget : b.files[k]? = some m := by
          rw [← List.head?_drop, ← htodo]
          rfl
        rw [← hmore, List.getElem?_append_left (List.getElem?_eq_some_iff.1 hget).1]
        exact hget
      have htake : history.files.take (k + 1) = history.files.take k ++ [m] := by
        rw [List.take_add_one, hm]
        rfl
      refine ⟨k + 1, ?_, ?_, ?_, ?_, ?_⟩
      · exact h.exclusive.goto (fun _ => h.exclusive i hc)
      · exact (List.getElem?_eq_some_iff.1 hm).1
      · rw [htake, replay_append, h.replayed]
        change replay [m] s.db = some d
        exact Option.bind_eq_some_iff.2 ⟨d, hd, rfl⟩
      · rw [htake, versionsOf, List.map_append, List.map_append, ← versionsOf, ← h.logged]
        rfl
      · apply forall_update
        · intro j hne
          exact (h.placed j).other (h.exclusive.others hc hne) (k + 1) (Nat.le_succ k)
        · refine ⟨hext, ?_⟩
          have := congrArg List.tail htodo
          rwa [List.tail_cons, List.tail_drop] at this
    · exact ⟨k, h.leave not_false trivial⟩
  · next hp =>
    rw [hp] at hplace
    exact hplace.elim
  · next hp =>
    rw [hp] at hplace
    exact hplace.elim
  · exact ⟨k, h⟩

theorem DeployedTo.step (hfresh : fresh.applied = []) (h : DeployedTo history fresh s k)
    (e : Event σ) (he : e.Deploys history) :
    ∃ l, DeployedTo history fresh (step e s) l := by
  cases e with
  | exec i => exact h.exec i
  | apply i b | dryRun i b =>
    simp only [Migrations.step]
    split
    · exact ⟨k, h.goto (fun hc => hc.elim) (by first | exact he | trivial)⟩
    · exact ⟨k, h⟩
  | autoMigrate i b =>
    simp only [Migrations.step]
    split
    · split
      · next hnil =>
        refine ⟨k, h.goto (fun hc => hc.elim) ?_⟩
        change b.files.length ≤ k
        rw [hnil]
        exact Nat.zero_le k
      · exact ⟨k, h.goto (fun hc => hc.elim) he⟩
    · exact ⟨k, h⟩
  | gate i =>
    simp only [Migrations.step]
    have hplace := h.placed i
    split
    · next b hp =>
      rw [hp] at hplace
      split
      · next hnew =>
        exact ⟨k, h.goto (fun hc => hc.elim)
          (shorter_of_refused hplace.files_prefix hfresh h.replayed hnew)⟩
      · exact ⟨k, h.goto (fun hc => hc.elim) hplace⟩
    · exact ⟨k, h⟩
  | acquire i =>
    simp only [Migrations.step]
    have hplace := h.placed i
    split
    · next b hp hfree =>
      rw [hp] at hplace
      exact ⟨k, { h with
        exclusive := h.exclusive.enter hfree
        placed := forall_update (fun j _ => h.placed j) hplace }⟩
    · next hp hfree =>
      rw [hp] at hplace
      exact hplace.elim
    · exact ⟨k, h⟩
  | read i =>
    simp only [Migrations.step]
    have hplace := h.placed i
    split
    · next b hp =>
      rw [hp] at hplace
      have hc : (s.phase i).Critical := by
        rw [hp]
        trivial
      exact ⟨k, h.goto (fun _ => h.exclusive i hc)
        ⟨hplace, pending_eq hplace.files_prefix hfresh h.replayed⟩⟩
    · exact ⟨k, h⟩
  | plan i b target dry =>
    obtain rfl : dry = true := he
    simp only [Migrations.step]
    split
    · split <;> exact ⟨k, h.goto (fun hc => hc.elim) trivial⟩
    · exact ⟨k, h⟩
  | fail i =>
    simp only [Migrations.step]
    split
    all_goals first | exact ⟨k, h⟩ | exact ⟨k, h.leave not_false trivial⟩

/-- A file that only records its version. -/
def recorder (name : String) (version : Nat) : File (List Nat) :=
  ⟨name, fun d => some ⟨some (version :: d.applied), version :: d.schema⟩⟩

theorem recorder_records (name : String) (version : Nat) {d d' : Database (List Nat)}
    (h : (recorder name version).sql d = some d') (v : Nat) :
    v ∈ d'.applied ↔ v = version ∨ v ∈ d.applied := by
  obtain rfl := Option.some.inj h
  exact List.mem_cons

def firstRelease : Bundle (List Nat) where
  dir := [recorder "001_initial.sql" 1]
  unique := by decide
  records := by
    intro f hf version hv d d' hd
    obtain rfl := List.mem_singleton.1 hf
    obtain rfl := Option.some.inj ((by decide : some 1 = migrationVersion _).trans hv)
    exact recorder_records _ 1 hd

def secondRelease : Bundle (List Nat) where
  dir := [recorder "002_hnsw_upgrade.sql" 2, recorder "001_initial.sql" 1]
  unique := by decide
  records := by
    intro f hf version hv d d' hd
    rcases List.mem_cons.1 hf with rfl | hf
    · obtain rfl := Option.some.inj ((by decide : some 2 = migrationVersion _).trans hv)
      exact recorder_records _ 2 hd
    · obtain rfl := List.mem_singleton.1 hf
      obtain rfl := Option.some.inj ((by decide : some 1 = migrationVersion _).trans hv)
      exact recorder_records _ 1 hd

theorem secondRelease_extends : secondRelease.Extends firstRelease := by
  refine ⟨[recorder "002_hnsw_upgrade.sql" 2], List.Perm.swap .., ?_⟩
  intro f hf g hg v w hv hw
  obtain rfl := List.mem_singleton.1 hf
  obtain rfl := List.mem_singleton.1 hg
  obtain rfl := Option.some.inj ((by decide : some 1 = migrationVersion _).trans hv)
  obtain rfl := Option.some.inj ((by decide : some 2 = migrationVersion _).trans hw)
  decide

/-- A replica of each release starts; the second crashes after its first file. -/
def crashingDeploy : List (Event (List Nat)) :=
  [.autoMigrate 0 firstRelease, .apply 1 secondRelease, .acquire 1, .gate 0, .read 1, .exec 1,
    .fail 1]

theorem crashingDeploy_deploys : ∀ e ∈ crashingDeploy, e.Deploys secondRelease := by
  intro e he
  simp only [crashingDeploy, List.mem_cons, List.not_mem_nil, or_false] at he
  rcases he with rfl | rfl | rfl | rfl | rfl | rfl | rfl
  · exact secondRelease_extends
  · exact ⟨[], by rw [List.append_nil], fun _ _ _ hg => absurd hg List.not_mem_nil⟩
  all_goals trivial

theorem deployedTo_run (hfresh : fresh.applied = []) {events : List (Event σ)}
    (h : ∀ e ∈ events, e.Deploys history) :
    ∃ k, DeployedTo history fresh (runSteps Migrations.step events { db := fresh }) k := by
  apply runSteps_keeps (I := fun t => ∃ k, DeployedTo history fresh t k)
  · rintro e he t ⟨k, hk⟩
    exact hk.step hfresh e (h e he)
  · exact ⟨0, fun _ hc => hc.elim, Nat.zero_le _, rfl, rfl, fun _ => trivial⟩

/-- Replicas of any releases start together, crash and fail: the database is always what one
uninterrupted run of the first `k` migrations makes of the fresh one, each ran once and in order,
a process that finished has all of its own there, and one that was refused is older than it. -/
theorem rolling_deploy (history : Bundle σ) (fresh : Database σ) (hfresh : fresh.applied = [])
    (events : List (Event σ)) (h : ∀ e ∈ events, e.Deploys history) :
    ∃ k ≤ history.files.length,
      replay (history.files.take k) fresh
        = some (runSteps Migrations.step events { db := fresh }).db ∧
      (runSteps Migrations.step events { db := fresh }).log
        = (versionsOf (history.files.take k)).map .up ∧
      ∀ i b,
        (∀ applied, (runSteps Migrations.step events { db := fresh }).phase i = .finished b applied →
          b.files.length ≤ k) ∧
        ∀ v, (runSteps Migrations.step events { db := fresh }).phase i = .refused b v →
          b.files.length < k := by
  obtain ⟨k, hk⟩ := deployedTo_run hfresh h
  refine ⟨k, hk.bound, hk.replayed, hk.logged, ?_⟩
  intro i b
  have hplace := hk.placed i
  constructor
  · intro applied hp
    rwa [hp] at hplace
  · intro v hp
    rwa [hp] at hplace

theorem rolling_deploy_crashing :
    ∃ k ≤ secondRelease.files.length,
      replay (secondRelease.files.take k) ⟨none, []⟩
        = some (runSteps Migrations.step crashingDeploy { db := ⟨none, []⟩ }).db ∧
      (runSteps Migrations.step crashingDeploy { db := ⟨none, []⟩ }).log
        = (versionsOf (secondRelease.files.take k)).map .up ∧
      ∀ i b,
        (∀ applied,
          (runSteps Migrations.step crashingDeploy { db := ⟨none, []⟩ }).phase i
            = .finished b applied → b.files.length ≤ k) ∧
        ∀ v, (runSteps Migrations.step crashingDeploy { db := ⟨none, []⟩ }).phase i
            = .refused b v → b.files.length < k :=
  rolling_deploy secondRelease ⟨none, []⟩ rfl crashingDeploy crashingDeploy_deploys

/-- The loop over what is pending, when every file succeeds. -/
theorem exec_loop (i : Nat) {todo : List (Nat × File σ)} {applied : List Nat}
    (hp : s.phase i = .applying b todo applied) (hrun : replay todo s.db = some d) :
    (runSteps Migrations.step (List.replicate (todo.length + 1) (.exec i)) s).db = d ∧
    (runSteps Migrations.step (List.replicate (todo.length + 1) (.exec i)) s).phase i
      = .finished b (applied ++ versionsOf todo) := by
  induction todo generalizing s applied with
  | nil =>
    obtain rfl := Option.some.inj hrun
    have hstep : Migrations.step (.exec i) s = s.leave i (.finished b applied) := by
      simp only [Migrations.step, hp]
    rw [List.length_nil, List.replicate_succ, runSteps, hstep]
    refine ⟨rfl, ?_⟩
    rw [versionsOf, List.map_nil, List.append_nil]
    exact Function.update_self ..
  | cons m rest ih =>
    obtain ⟨e, he, hrest⟩ := Option.bind_eq_some_iff.1 hrun
    have hstep : Migrations.step (.exec i) s =
        { s.goto i (.applying b rest (applied ++ [m.1])) with
          db := e, log := s.log ++ [.up m.1] } := by
      simp only [Migrations.step, hp, he]
    rw [List.length_cons, List.replicate_succ, runSteps, hstep]
    have hnext := ih (s := { s.goto i (.applying b rest (applied ++ [m.1])) with
      db := e, log := s.log ++ [.up m.1] }) (Function.update_self ..) hrest
    rw [List.append_assoc] at hnext
    exact hnext

/-- One process that runs alone. -/
def lone (i : Nat) (b : Bundle σ) (d : Database σ) : List (Event σ) :=
  [.apply i b, .acquire i, .read i] ++ List.replicate ((pending b d).length + 1) (.exec i)

theorem lone_finishes (i : Nat) (hidle : s.phase i = .idle) (hfree : s.holder = none)
    (hrun : replay (pending b s.db) s.db = some d) :
    (runSteps Migrations.step (lone i b s.db) s).db = d ∧
    (runSteps Migrations.step (lone i b s.db) s).phase i
      = .finished b (versionsOf (pending b s.db)) := by
  have hstart : runSteps Migrations.step [.apply i b, .acquire i, .read i] s =
      { s with
        holder := some i
        phase := Function.update s.phase i (.applying b (pending b s.db) []) } := by
    simp only [runSteps, Migrations.step, hidle, System.goto, Function.update_self, hfree,
      Function.update_idem]
  rw [lone, runSteps_append, hstart]
  exact exec_loop (s := { s with
    holder := some i
    phase := Function.update s.phase i (.applying b (pending b s.db) []) }) i
    (Function.update_self ..) hrun

/-- Whatever crashed or failed before, one more run leaves the database as an uninterrupted one on
the fresh database would, and it applies what a dry run beforehand says. -/
theorem rerun_completes (history : Bundle σ) (fresh : Database σ) (hfresh : fresh.applied = [])
    (events : List (Event σ)) (h : ∀ e ∈ events, e.Deploys history) (b : Bundle σ)
    (hb : history.Extends b) (hsql : (replay b.files fresh).isSome = true) (i : Nat)
    (hidle : (runSteps Migrations.step events { db := fresh }).phase i = .idle)
    (hfree : (runSteps Migrations.step events { db := fresh }).holder = none) :
    ∃ k applied,
      replay (history.files.take k) fresh
        = some (runSteps Migrations.step events { db := fresh }).db ∧
      (Migrations.step (.dryRun i b) (runSteps Migrations.step events { db := fresh })).phase i
        = .previewed applied ∧
      replay (history.files.take (max k b.files.length)) fresh
        = some (runSteps Migrations.step
            (events ++ lone i b (runSteps Migrations.step events { db := fresh }).db)
            { db := fresh }).db ∧
      (runSteps Migrations.step
          (events ++ lone i b (runSteps Migrations.step events { db := fresh }).db)
          { db := fresh }).phase i = .finished b applied := by
  obtain ⟨k, hk⟩ := deployedTo_run hfresh h
  rw [runSteps_append]
  generalize runSteps Migrations.step events { db := fresh } = s at *
  have hpre := hb.files_prefix
  have hpending := pending_eq hpre hfresh hk.replayed
  obtain ⟨done, hdone⟩ := Option.isSome_iff_exists.1 hsql
  have hall : history.files.take b.files.length = b.files := (List.prefix_iff_eq_take.1 hpre).symm
  have hlone : ∃ d, replay (pending b s.db) s.db = some d ∧
      replay (history.files.take (max k b.files.length)) fresh = some d := by
    rw [hpending]
    rcases Nat.le_total k b.files.length with hle | hle
    · have hsplit : b.files = history.files.take k ++ b.files.drop k := by
        conv_lhs => rw [← List.take_append_drop k b.files]
        rw [← hall, List.take_take, Nat.min_eq_left hle]
      refine ⟨done, ?_, ?_⟩
      · rw [hsplit, replay_append, hk.replayed] at hdone
        exact hdone
      · rw [Nat.max_eq_right hle, hall, hdone]
    · rw [List.drop_eq_nil_of_le hle, Nat.max_eq_left hle]
      exact ⟨s.db, rfl, hk.replayed⟩
  obtain ⟨d, hd, hmax⟩ := hlone
  obtain ⟨hdb, hphase⟩ := lone_finishes i hidle hfree hd
  refine ⟨k, versionsOf (pending b s.db), hk.replayed, ?_, ?_, hphase⟩
  · simp only [Migrations.step, hidle, System.goto, Function.update_self]
  · rw [hmax, hdb]

theorem secondRelease_runs : (replay secondRelease.files ⟨none, []⟩).isSome = true := by
  decide

theorem crashingDeploy_idle :
    (runSteps Migrations.step crashingDeploy { db := ⟨none, []⟩ }).phase 2 = .idle := by
  rfl

theorem crashingDeploy_free :
    (runSteps Migrations.step crashingDeploy { db := ⟨none, []⟩ }).holder = none := by
  rfl

theorem rerun_completes_crashing :
    ∃ k applied,
      replay (secondRelease.files.take k) ⟨none, []⟩
        = some (runSteps Migrations.step crashingDeploy { db := ⟨none, []⟩ }).db ∧
      (Migrations.step (.dryRun 2 secondRelease)
          (runSteps Migrations.step crashingDeploy { db := ⟨none, []⟩ })).phase 2
        = .previewed applied ∧
      replay (secondRelease.files.take (max k secondRelease.files.length)) ⟨none, []⟩
        = some (runSteps Migrations.step
            (crashingDeploy ++ lone 2 secondRelease
              (runSteps Migrations.step crashingDeploy { db := ⟨none, []⟩ }).db)
            { db := ⟨none, []⟩ }).db ∧
      (runSteps Migrations.step
          (crashingDeploy ++ lone 2 secondRelease
            (runSteps Migrations.step crashingDeploy { db := ⟨none, []⟩ }).db)
          { db := ⟨none, []⟩ }).phase 2 = .finished secondRelease applied :=
  rerun_completes secondRelease ⟨none, []⟩ rfl crashingDeploy crashingDeploy_deploys secondRelease
    ⟨[], by rw [List.append_nil], fun _ _ _ hg => absurd hg List.not_mem_nil⟩ secondRelease_runs 2
    crashingDeploy_idle crashingDeploy_free

end Deploys

end TappsBrain.Migrations
