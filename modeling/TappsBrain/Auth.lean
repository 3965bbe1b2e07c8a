import TappsBrain.Config
import TappsBrain.Lib.Table
import TappsBrain.Lib.TtlCache
import TappsBrain.RateLimiter

namespace TappsBrain.Auth
open Lib
set_option autoImplicit true
set_option relaxedAutoImplicit false

/-- What is relied on of argon2: a hash of a password verifies that password and no other. -/
structure PasswordHasher (η : Type) where
  hash : String → Nat → η
  verify : η → String → Bool
  verify_hash : ∀ password salt other, verify (hash password salt) other = decide (password = other)

inductive Source where
  | admin
  | auto
  | imported
deriving DecidableEq

/-- A row of `project_profiles`. -/
structure Project (π η : Type) where
  projectId : String
  profile : π
  approved : Bool
  source : Source
  notes : String
  hashedToken : Option η := none

/-- The settings, with an unset variable as the empty text. -/
structure Settings (π η : Type) where
  unicode : Unicode
  hasher : PasswordHasher η
  seed : π
  dsn : String
  authToken : String
  perTenantAuth : Bool
  strict : Bool
  strictProjects : Bool

structure Headers where
  authorization : String := ""
  projectId : String := ""

inductive Verdict where
  | admitted
  | refused (status : Nat) (error detail : String)
deriving DecidableEq

abbrev Registry (π η : Type) := Table (Project.projectId (π := π) (η := η))

inductive Event (π : Type) where
  | register (projectId : String) (profile : π) (source : Source) (approved : Bool) (notes : String)
  | approve (projectId : String)
  | delete (projectId : String)
  | rotate (projectId plaintext : String) (salt : Nat)
  | revoke (projectId : String)
  | resolve (projectId : String)

variable {π η : Type} (v : Settings π η)

namespace Registry

/-- The upsert of `register`, which leaves the token column of a row as it is. -/
def register (projectId : String) (profile : π) (source : Source) (approved : Bool)
    (notes : String) (s : Registry π η) : Registry π η :=
  s.set ⟨projectId, profile, approved, source, notes,
    (s.get? projectId).bind Project.hashedToken⟩

def update (projectId : String) (f : Project π η → Project π η) (s : Registry π η) :
    Registry π η :=
  match s.get? projectId with
  | none => s
  | some row => s.set { f row with projectId := row.projectId }

def approve (projectId : String) : Registry π η → Registry π η :=
  update projectId (fun row => { row with approved := true })

def delete (projectId : String) (s : Registry π η) : Registry π η := s.pop projectId

def rotateToken (projectId plaintext : String) (salt : Nat) : Registry π η → Registry π η :=
  update projectId (fun row => { row with hashedToken := some (v.hasher.hash plaintext salt) })

def revokeToken (projectId : String) : Registry π η → Registry π η :=
  update projectId (fun row => { row with hashedToken := none })

def verifyToken (projectId token : String) (s : Registry π η) : Option Bool :=
  ((s.get? projectId).bind Project.hashedToken).map (v.hasher.verify · token)

/-- An unknown project is an error in strict mode, and is registered in lax mode. -/
def resolve (projectId : String) (s : Registry π η) : Option π × Registry π η :=
  match s.get? projectId with
  | some row => (some row.profile, s)
  | none =>
    if v.strictProjects then (none, s)
    else (some v.seed, s.register projectId v.seed .auto false
      "Auto-registered on first connection (lax mode).")

end Registry

def step : Event π → Registry π η → Registry π η
  | .register projectId profile source approved notes, s =>
    s.register projectId profile source approved notes
  | .approve projectId, s => s.approve projectId
  | .delete projectId, s => s.delete projectId
  | .rotate projectId plaintext salt, s => Registry.rotateToken v projectId plaintext salt s
  | .revoke projectId, s => s.revokeToken projectId
  | .resolve projectId, s => (Registry.resolve v projectId s).2

def BEARER_PREFIX : String := "bearer "

/-- `none` without a header, the empty text for a malformed one. -/
def extractBearer (h : Headers) : Option String :=
  if h.authorization = "" then none
  else if ¬ BEARER_PREFIX.toList <+: (v.unicode.lower h.authorization).toList then some ""
  else some (strip (String.ofList (h.authorization.toList.drop BEARER_PREFIX.length)))

def tokenMissing : Verdict :=
  .refused 401 "unauthorized" "Authorization header required (Bearer token)."

def tokenMalformed : Verdict :=
  .refused 401 "unauthorized" "Malformed Authorization header — expected 'Bearer <token>'."

def tokenInvalid : Verdict := .refused 403 "forbidden" "Invalid token."

/-- The global token fallback. -/
def globalCheck (tok : Option String) : Verdict :=
  if v.authToken = "" then
    if v.strict then .refused 503 "service_unavailable"
      "Authentication is required but TAPPS_BRAIN_AUTH_TOKEN is unset."
    else .admitted
  else match tok with
    | none => tokenMissing
    | some tok =>
      if tok = "" then tokenMalformed
      else if tok = v.authToken then .admitted
      else tokenInvalid

/-- `fails` says that the registry cannot be read. -/
def requireDataPlaneAuth (s : Registry π η) (fails : Bool) (h : Headers) : Verdict :=
  let tok := extractBearer v h
  if v.perTenantAuth then
    if v.dsn = "" then .refused 500 "server_misconfiguration"
      "TAPPS_BRAIN_PER_TENANT_AUTH is enabled but no database DSN is configured."
    else if strip h.projectId = "" then .refused 400 "bad_request"
      "X-Project-Id header is required when per-tenant auth is enabled."
    else match tok with
      | none => tokenMissing
      | some tok =>
        if tok = "" then tokenMalformed
        else if fails then .refused 503 "service_unavailable"
          "Token verification temporarily unavailable."
        else match Registry.verifyToken v (strip h.projectId) tok s with
          | some true => .admitted
          | some false => tokenInvalid
          | none => globalCheck v (some tok)
  else globalCheck v tok

section Tokens
variable {v} {s : Registry π η} {projectId : String}

/-- Whether the project has a row, from what was done, the last first. -/
def registered (v : Settings π η) (projectId : String) : List (Event π) → Bool
  | [] => false
  | .register p .. :: earlier => p = projectId || registered v projectId earlier
  | .resolve p :: earlier => p = projectId && !v.strictProjects || registered v projectId earlier
  | .delete p :: earlier => if p = projectId then false else registered v projectId earlier
  | _ :: earlier => registered v projectId earlier

/-- The token that was issued last, unless it was revoked or its row was dropped since. -/
def current (v : Settings π η) (projectId : String) : List (Event π) → Option String
  | [] => none
  | .rotate p plaintext _ :: earlier =>
    if p = projectId ∧ registered v projectId earlier = true then some plaintext
    else current v projectId earlier
  | .revoke p :: earlier => if p = projectId then none else current v projectId earlier
  | .delete p :: earlier => if p = projectId then none else current v projectId earlier
  | _ :: earlier => current v projectId earlier

/-- What the row of a project says of what was done. -/
structure Booked (v : Settings π η) (earlier : List (Event π)) (projectId : String)
    (row : Option (Project π η)) : Prop where
  known : row.isSome = registered v projectId earlier
  none_of : current v projectId earlier = none → row.bind Project.hashedToken = none
  some_of : ∀ token, current v projectId earlier = some token →
    ∃ salt, row.bind Project.hashedToken = some (v.hasher.hash token salt)

theorem get?_update (projectId other : String) (f : Project π η → Project π η)
    (s : Registry π η) :
    (Registry.update projectId f s).get? other =
      if projectId = other then
        (s.get? other).map (fun row => { f row with projectId := row.projectId })
      else s.get? other := by
  rw [Registry.update]
  by_cases heq : projectId = other
  · subst heq
    rw [if_pos rfl]
    cases h : s.get? projectId with
    | none => exact h
    | some row =>
      have hkey : row.projectId = projectId := Table.key_of_get? h
      dsimp only
      rw [Table.get?_set]
      exact if_pos hkey
  · rw [if_neg heq]
    cases h : s.get? projectId with
    | none => rfl
    | some row =>
      have hkey : row.projectId = projectId := Table.key_of_get? h
      dsimp only
      apply Table.get?_set_ne
      intro hother
      exact heq (hkey.symm.trans hother)

theorem get?_register (projectId other : String) (profile : π) (source : Source)
    (approved : Bool) (notes : String) (s : Registry π η) :
    ((Registry.register projectId profile source approved notes s).get? other).isSome =
        (decide (projectId = other) || (s.get? other).isSome) ∧
      ((Registry.register projectId profile source approved notes s).get? other).bind
        Project.hashedToken = (s.get? other).bind Project.hashedToken := by
  rw [Registry.register, Table.get?_set]
  dsimp only
  by_cases heq : projectId = other
  · rw [if_pos heq, decide_eq_true heq, heq]
    exact ⟨rfl, rfl⟩
  · rw [if_neg heq, decide_eq_false heq]
    exact ⟨rfl, rfl⟩

theorem Booked.step {earlier : List (Event π)}
    (h : ∀ projectId, Booked v earlier projectId (s.get? projectId)) (e : Event π)
    (projectId : String) : Booked v (e :: earlier) projectId ((step v e s).get? projectId) := by
  obtain ⟨hrow, hnone, hsome⟩ := h projectId
  cases e with
  | register p profile source approved notes =>
    obtain ⟨hsome', hbind⟩ := get?_register p projectId profile source approved notes s
    constructor
    · rw [Auth.step, hsome', hrow]
      rfl
    · rw [Auth.step, hbind]
      exact hnone
    · rw [Auth.step, hbind]
      exact hsome
  | approve p =>
    have hget := get?_update p projectId (fun row => { row with approved := true }) s
    have hbind : ((s.approve p).get? projectId).bind Project.hashedToken =
        (s.get? projectId).bind Project.hashedToken := by
      rw [Registry.approve, hget]
      split
      · cases s.get? projectId <;> rfl
      · rfl
    constructor
    · rw [Auth.step, Registry.approve, hget]
      split
      · rw [Option.isSome_map]
        exact hrow
      · exact hrow
    · rw [Auth.step, hbind]
      exact hnone
    · rw [Auth.step, hbind]
      exact hsome
  | delete p =>
    rw [Auth.step, Registry.delete, Table.get?_pop]
    by_cases heq : p = projectId
    · rw [if_pos heq]
      refine ⟨?_, fun _ => rfl, fun token htoken => ?_⟩
      · rw [registered, if_pos heq]
        rfl
      · rw [current, if_pos heq] at htoken
        cases htoken
    · rw [if_neg heq]
      refine ⟨?_, fun hcurrent => ?_, fun token htoken => ?_⟩
      · rw [registered, if_neg heq]
        exact hrow
      · rw [current, if_neg heq] at hcurrent
        exact hnone hcurrent
      · rw [current, if_neg heq] at htoken
        exact hsome token htoken
  | rotate p plaintext salt =>
    rw [Auth.step, Registry.rotateToken, get?_update]
    by_cases heq : p = projectId
    · rw [if_pos heq]
      refine ⟨(Option.isSome_map ..).trans hrow, fun hcurrent => ?_, fun token htoken => ?_⟩
      · rw [current] at hcurrent
        split at hcurrent
        · cases hcurrent
        · next hcond =>
          have hgone : s.get? projectId = none := by
            rw [← Option.not_isSome_iff_eq_none, hrow]
            exact fun hknown => hcond ⟨heq, hknown⟩
          rw [hgone]
          rfl
      · rw [current] at htoken
        split at htoken
        · next hcond =>
          obtain ⟨row, hget⟩ := Option.isSome_iff_exists.1 (hrow.trans hcond.2)
          obtain rfl := Option.some.inj htoken
          refine ⟨salt, ?_⟩
          rw [hget]
          rfl
        · next hcond =>
          have hgone : s.get? projectId = none := by
            rw [← Option.not_isSome_iff_eq_none, hrow]
            exact fun hknown => hcond ⟨heq, hknown⟩
          obtain ⟨salt', hsalt⟩ := hsome token htoken
          rw [hgone] at hsalt
          cases hsalt
    · rw [if_neg heq]
      have hcurrent : current v projectId (.rotate p plaintext salt :: earlier) =
          current v projectId earlier := if_neg (fun hcond => heq hcond.1)
      exact ⟨hrow, hcurrent ▸ hnone, hcurrent ▸ hsome⟩
  | revoke p =>
    rw [Auth.step, Registry.revokeToken, get?_update]
    by_cases heq : p = projectId
    · rw [if_pos heq]
      refine ⟨(Option.isSome_map ..).trans hrow, fun _ => ?_, fun token htoken => ?_⟩
      · cases s.get? projectId <;> rfl
      · rw [current, if_pos heq] at htoken
        cases htoken
    · rw [if_neg heq]
      have hcurrent : current v projectId (.revoke p :: earlier) =
          current v projectId earlier := if_neg heq
      exact ⟨hrow, hcurrent ▸ hnone, hcurrent ▸ hsome⟩
  | resolve p =>
    rw [Auth.step, Registry.resolve]
    cases hget : s.get? p with
    | some row =>
      refine ⟨?_, hnone, hsome⟩
      rw [registered, ← hrow]
      by_cases heq : p = projectId
      · rw [← heq, hget]
        simp
      · rw [decide_eq_false heq]
        rfl
    | none =>
      dsimp only
      cases hstrict : v.strictProjects with
      | true =>
        refine ⟨?_, hnone, hsome⟩
        rw [registered, hstrict, ← hrow]
        simp
      | false =>
        obtain ⟨hisSome, hbind⟩ := get?_register p projectId v.seed .auto false
          "Auto-registered on first connection (lax mode)." s
        rw [if_neg Bool.false_ne_true]
        dsimp only
        constructor
        · rw [hisSome, hrow, registered, hstrict]
          simp
        · rw [hbind]
          exact hnone
        · rw [hbind]
          exact hsome

/-- What the registry says of a token is what was done with the tokens of the project. -/
theorem verifyToken_run (events : List (Event π)) (projectId token : String) :
    Registry.verifyToken v projectId token (runSteps (step v) events Table.empty) =
      (current v projectId events.reverse).map (fun issued => decide (issued = token)) := by
  have hbooked := runSteps_traced (step v)
    (I := fun events s => ∀ projectId, Booked v events.reverse projectId (s.get? projectId))
    (s := Table.empty) (fun projectId => ⟨rfl, fun _ => rfl, nofun⟩)
    (fun done e h projectId => by
      rw [List.reverse_append]
      exact Booked.step h e projectId) events projectId
  rw [Registry.verifyToken]
  cases hcurrent : current v projectId events.reverse with
  | none =>
    rw [hbooked.none_of hcurrent]
    rfl
  | some issued =>
    obtain ⟨salt, hsalt⟩ := hbooked.some_of issued hcurrent
    rw [hsalt, Option.map_some, v.hasher.verify_hash]
    rfl

theorem globalCheck_iff {token : String} (htoken : token ≠ "") :
    globalCheck v (some token) = .admitted ↔
      v.authToken = token ∨ v.authToken = "" ∧ v.strict = false := by
  rw [globalCheck]
  by_cases hunset : v.authToken = ""
  · rw [if_pos hunset]
    cases hstrict : v.strict with
    | true =>
      constructor
      · nofun
      · rintro (heq | ⟨_, hfalse⟩)
        · exact absurd (heq.symm.trans hunset) htoken
        · cases hfalse
    | false => exact ⟨fun _ => .inr ⟨hunset, rfl⟩, fun _ => rfl⟩
  · rw [if_neg hunset, if_neg htoken]
    constructor
    · intro h
      split at h
      · next heq => exact .inl heq.symm
      · cases h
    · rintro (heq | ⟨hnot, _⟩)
      · rw [if_pos heq.symm]
      · exact absurd hnot hunset

/-- With the tenants' own tokens on, after any administration of the registry: a request is admitted
just where it names a project and shows the token that was issued to it last; or, where the project
has none, where the global token admits it. Nothing is admitted while the registry cannot be
read. -/
theorem admitted_iff_current (hmode : v.perTenantAuth = true) (events : List (Event π))
    (fails : Bool) (h : Headers) :
    requireDataPlaneAuth v (runSteps (step v) events Table.empty) fails h = .admitted ↔
      v.dsn ≠ "" ∧ strip h.projectId ≠ "" ∧ fails = false ∧
        ∃ token, extractBearer v h = some token ∧ token ≠ "" ∧
          (current v (strip h.projectId) events.reverse = some token ∨
            current v (strip h.projectId) events.reverse = none ∧
              (v.authToken = token ∨ v.authToken = "" ∧ v.strict = false)) := by
  rw [requireDataPlaneAuth, if_pos hmode]
  by_cases hdsn : v.dsn = ""
  · rw [if_pos hdsn]
    exact ⟨nofun, fun hright => absurd hdsn hright.1⟩
  rw [if_neg hdsn]
  by_cases hproject : strip h.projectId = ""
  · rw [if_pos hproject]
    exact ⟨nofun, fun hright => absurd hproject hright.2.1⟩
  rw [if_neg hproject]
  cases hbearer : extractBearer v h with
  | none =>
    constructor
    · nofun
    · rintro ⟨_, _, _, token, htoken, _⟩
      cases htoken
  | some token =>
    dsimp only
    by_cases hempty : token = ""
    · rw [if_pos hempty]
      constructor
      · nofun
      · rintro ⟨_, _, _, other, hother, hne, _⟩
        exact absurd ((Option.some.inj hother).symm.trans hempty) hne
    rw [if_neg hempty]
    cases fails with
    | true =>
      rw [if_pos rfl]
      exact ⟨nofun, fun hright => nomatch hright.2.2.1⟩
    | false =>
      rw [if_neg Bool.false_ne_true, verifyToken_run]
      cases hcurrent : current v (strip h.projectId) events.reverse with
      | none =>
        rw [Option.map_none]
        dsimp only
        rw [globalCheck_iff hempty]
        constructor
        · intro hglobal
          exact ⟨hdsn, hproject, rfl, token, rfl, hempty, .inr ⟨rfl, hglobal⟩⟩
        · rintro ⟨_, _, _, other, hother, _, hissued | ⟨_, hglobal⟩⟩
          · cases hissued
          · rw [Option.some.inj hother]
            exact hglobal
      | some issued =>
        rw [Option.map_some]
        by_cases heq : issued = token
        · rw [decide_eq_true heq]
          exact ⟨fun _ => ⟨hdsn, hproject, rfl, token, rfl, hempty, .inl (congrArg some heq)⟩,
            fun _ => rfl⟩
        · rw [decide_eq_false heq]
          constructor
          · nofun
          · rintro ⟨_, _, _, other, hother, _, hissued | ⟨hnone, _⟩⟩
            · exact absurd ((Option.some.inj hissued).trans (Option.some.inj hother).symm) heq
            · cases hnone

/-- A hash that keeps the password beside the salt. -/
def plainHasher : PasswordHasher (String × Nat) where
  hash := Prod.mk
  verify := fun h password => decide (h.1 = password)
  verify_hash := fun _ _ _ => rfl

def perTenant : Settings String (String × Nat) where
  unicode := .lowercase
  hasher := plainHasher
  seed := "repo-brain"
  dsn := "postgresql://brain"
  authToken := "global"
  perTenantAuth := true
  strict := true
  strictProjects := false

def rotatedTwice : List (Event String) :=
  [.resolve "docs", .rotate "docs" "first" 1, .rotate "docs" "second" 2]

def showsFirst : Headers := { authorization := "bearer first", projectId := "docs" }

theorem admitted_iff_current_rotated :
    requireDataPlaneAuth perTenant (runSteps (step perTenant) rotatedTwice Table.empty) false
        showsFirst = .admitted ↔
      perTenant.dsn ≠ "" ∧ strip showsFirst.projectId ≠ "" ∧ false = false ∧
        ∃ token, extractBearer perTenant showsFirst = some token ∧ token ≠ "" ∧
          (current perTenant (strip showsFirst.projectId) rotatedTwice.reverse = some token ∨
            current perTenant (strip showsFirst.projectId) rotatedTwice.reverse = none ∧
              (perTenant.authToken = token ∨
                perTenant.authToken = "" ∧ perTenant.strict = false)) :=
  admitted_iff_current rfl _ _ _

end Tokens

/-- The attempts of an address that still count, oldest first. -/
structure Bucket where
  addr : String
  times : List ℚ

structure Attempt where
  addr : String
  now : ℚ
  passed : Bool

structure AdminRate where
  limit : Nat := 10
  window : ℚ := 60
  sweepThreshold : Nat := 1024

structure AdminLimiter where
  buckets : Table Bucket.addr := Table.empty
  log : List Attempt := []

section AdminRate
variable (r : AdminRate)

def Bucket.stale (b : Bucket) (cutoff : ℚ) : Bool :=
  match b.times.getLast? with
  | none => true
  | some t => t < cutoff

/-- The buckets of others that hold nothing that counts are dropped. -/
def sweep (addr : String) (cutoff : ℚ) (buckets : Table Bucket.addr) : Table Bucket.addr :=
  if r.sweepThreshold < buckets.size then
    buckets.filter (fun b => b.addr = addr || !b.stale cutoff)
  else buckets

/-- `_check_admin_rate_limit`, which logs what it answers. -/
def checkAdminRateLimit (addr : String) (now : ℚ) (s : AdminLimiter) : AdminLimiter :=
  let cutoff := now - r.window
  let buckets := sweep r addr cutoff s.buckets
  let dq := (((buckets.get? addr).map Bucket.times).getD []).dropWhile (· < cutoff)
  if r.limit ≤ dq.length then
    ⟨buckets.set ⟨addr, dq⟩, s.log ++ [⟨addr, now, false⟩]⟩
  else ⟨buckets.set ⟨addr, dq ++ [now]⟩, s.log ++ [⟨addr, now, true⟩]⟩

/-- The lock is taken in the order of the clock readings. -/
def InOrder (a : String × ℚ) (s : AdminLimiter) : Prop := ∀ b ∈ s.log, b.now ≤ a.2

instance (a : String × ℚ) (s : AdminLimiter) : Decidable (InOrder a s) :=
  inferInstanceAs (Decidable (∀ b ∈ s.log, b.now ≤ a.2))

/-- The attempts of the address that passed, at or after the cutoff. -/
def passedSince (addr : String) (cutoff : ℚ) (log : List Attempt) : List Attempt :=
  log.filter (fun b => b.addr = addr && b.passed && cutoff ≤ b.now)

variable {r} {s : AdminLimiter}

def AdminLimiter.times (s : AdminLimiter) (addr : String) : List ℚ :=
  ((s.buckets.get? addr).map Bucket.times).getD []

theorem dropWhile_eq_filter {l : List ℚ} (h : l.Pairwise (· ≤ ·)) (cutoff : ℚ) :
    l.dropWhile (· < cutoff) = l.filter (cutoff ≤ ·) := by
  induction l with
  | nil => rfl
  | cons t l ih =>
    obtain ⟨hhead, htail⟩ := List.pairwise_cons.1 h
    by_cases ht : t < cutoff
    · rw [List.dropWhile_cons, if_pos (decide_eq_true ht), ih htail, List.filter_cons,
        if_neg (fun h => not_lt.2 (of_decide_eq_true h) ht)]
    · rw [List.dropWhile_cons, if_neg (fun h => ht (of_decide_eq_true h))]
      symm
      apply List.filter_eq_self.2
      intro u hu
      rcases List.mem_cons.1 hu with rfl | hu
      · exact decide_eq_true (not_lt.1 ht)
      · exact decide_eq_true (le_trans (not_lt.1 ht) (hhead u hu))

/-- What the buckets say of the log, to whoever asks later. -/
structure Kept (r : AdminRate) (s : AdminLimiter) (addr : String) : Prop where
  sorted : (s.times addr).Pairwise (· ≤ ·)
  early : ∀ t ∈ s.times addr, ∃ b ∈ s.log, b.now = t
  counts : ∀ cutoff, (∀ b ∈ s.log, b.now - r.window ≤ cutoff) →
    (s.times addr).filter (cutoff ≤ ·) = (passedSince addr cutoff s.log).map Attempt.now

theorem sweep_times {addr : String} (h : Kept r s addr) (asked : String) (cutoff : ℚ) :
    (((sweep r asked cutoff s.buckets).get? addr).map Bucket.times).getD [] = s.times addr ∨
      asked ≠ addr ∧ (∀ t ∈ s.times addr, t < cutoff) ∧
        (((sweep r asked cutoff s.buckets).get? addr).map Bucket.times).getD [] = [] := by
  rw [sweep]
  split
  · rw [Table.get?_filter]
    cases hget : s.buckets.get? addr with
    | none =>
      left
      rw [AdminLimiter.times, hget]
      rfl
    | some b =>
      have hkey : b.addr = addr := Table.key_of_get? hget
      have htimes : s.times addr = b.times := by
        rw [AdminLimiter.times, hget]
        rfl
      rw [Option.filter_some]
      by_cases hother : asked = addr
      · left
        rw [if_pos (by rw [hkey, decide_eq_true hother.symm]; rfl)]
        exact htimes.symm
      cases hstale : b.stale cutoff with
      | false =>
        left
        rw [if_pos (by rw [Bool.not_false, Bool.or_true])]
        exact htimes.symm
      | true =>
        right
        have hne : b.addr ≠ asked := fun heq => hother (heq.symm.trans hkey)
        rw [if_neg (by simp [hne])]
        refine ⟨hother, fun t ht => ?_, rfl⟩
        have hsorted := h.sorted
        rw [htimes] at ht hsorted
        rw [Bucket.stale] at hstale
        cases hend : b.times.getLast? with
        | none =>
          rw [List.getLast?_eq_none_iff.1 hend] at ht
          cases ht
        | some last =>
          rw [hend] at hstale
          obtain ⟨init, hinit⟩ := List.getLast?_eq_some_iff.1 hend
          rw [hinit] at ht hsorted
          have hlow : last < cutoff := of_decide_eq_true hstale
          rcases List.mem_append.1 ht with ht | ht
          · exact lt_of_le_of_lt ((List.pairwise_append.1 hsorted).2.2 t ht last
              (List.mem_singleton_self last)) hlow
          · rw [List.mem_singleton.1 ht]
            exact hlow
  · exact .inl rfl

theorem passedSince_append (addr : String) (cutoff : ℚ) (log : List Attempt) (a : Attempt) :
    passedSince addr cutoff (log ++ [a]) = passedSince addr cutoff log ++
      if a.addr = addr && a.passed && cutoff ≤ a.now then [a] else [] := by
  rw [passedSince, List.filter_append]
  congr 1
  rw [List.filter_singleton, Bool.cond_eq_ite]

/-- The attempts of the address that count now. -/
theorem Kept.counted {addr : String} (h : Kept r s addr) (now : ℚ)
    (hlate : ∀ b ∈ s.log, b.now ≤ now) :
    (((sweep r addr (now - r.window) s.buckets).get? addr).map Bucket.times).getD [] =
        s.times addr ∧
      (s.times addr).dropWhile (· < now - r.window) =
        (passedSince addr (now - r.window) s.log).map Attempt.now := by
  constructor
  · rcases sweep_times h addr (now - r.window) with hsame | ⟨hne, _⟩
    · exact hsame
    · exact absurd rfl hne
  · rw [dropWhile_eq_filter h.sorted]
    apply h.counts
    intro b hb
    have hb' := hlate b hb
    linarith

theorem check_passed {asked : String} (h : Kept r s asked) (now : ℚ)
    (hlate : ∀ b ∈ s.log, b.now ≤ now) :
    ∃ passed, (checkAdminRateLimit r asked now s).log = s.log ++ [⟨asked, now, passed⟩] ∧
      (passed = true ↔ (passedSince asked (now - r.window) s.log).length < r.limit) ∧
      ∀ addr, (checkAdminRateLimit r asked now s).times addr =
        if asked = addr then
          (s.times addr).filter (now - r.window ≤ ·) ++ if passed then [now] else []
        else (((sweep r asked (now - r.window) s.buckets).get? addr).map Bucket.times).getD [] := by
  obtain ⟨hsame, hcounts⟩ := h.counted now hlate
  have hlength : ((s.times asked).dropWhile (· < now - r.window)).length =
      (passedSince asked (now - r.window) s.log).length := by
    rw [hcounts, List.length_map]
  simp only [checkAdminRateLimit, hsame]
  split
  · next hfull =>
    rw [hlength] at hfull
    refine ⟨false, rfl, ⟨fun hfalse => Bool.noConfusion hfalse, fun hfew => absurd hfew (Nat.not_lt.2 hfull)⟩, fun addr => ?_⟩
    rw [AdminLimiter.times, Table.get?_set]
    by_cases heq : asked = addr
    · subst heq
      rw [if_pos rfl, if_pos rfl, dropWhile_eq_filter h.sorted]
      exact (List.append_nil _).symm
    · rw [if_neg heq, if_neg heq]
  · next hroom =>
    rw [hlength] at hroom
    refine ⟨true, rfl, ⟨fun _ => Nat.not_le.1 hroom, fun _ => rfl⟩, fun addr => ?_⟩
    rw [AdminLimiter.times, Table.get?_set]
    by_cases heq : asked = addr
    · subst heq
      rw [if_pos rfl, if_pos rfl, dropWhile_eq_filter h.sorted]
      rfl
    · rw [if_neg heq, if_neg heq]

theorem Kept.step (h : ∀ addr, Kept r s addr) {asked : String} {now : ℚ}
    (hlate : ∀ b ∈ s.log, b.now ≤ now) (addr : String) :
    Kept r (checkAdminRateLimit r asked now s) addr := by
  obtain ⟨passed, hlog, -, htimes⟩ := check_passed (h asked) now hlate
  obtain ⟨hsorted, hearly, hcounts⟩ := h addr
  have hnow : ∀ t ∈ s.times addr, t ≤ now := by
    intro t ht
    obtain ⟨b, hb, rfl⟩ := hearly t ht
    exact hlate b hb
  by_cases heq : asked = addr
  · constructor
    · rw [htimes, if_pos heq]
      cases passed with
      | false =>
        rw [if_neg Bool.false_ne_true, List.append_nil]
        exact hsorted.filter _
      | true =>
        rw [if_pos rfl]
        apply List.pairwise_append.2 ⟨hsorted.filter _, List.pairwise_singleton _ _, ?_⟩
        intro t ht u hu
        rw [List.mem_singleton.1 hu]
        exact hnow t (List.mem_filter.1 ht).1
    · rw [htimes, if_pos heq, hlog]
      intro t ht
      rcases List.mem_append.1 ht with ht | ht
      · obtain ⟨b, hb, hbt⟩ := hearly t (List.mem_filter.1 ht).1
        exact ⟨b, List.mem_append_left _ hb, hbt⟩
      · refine ⟨_, List.mem_append_right _ (List.mem_singleton_self _), ?_⟩
        split at ht
        · exact (List.mem_singleton.1 ht).symm
        · cases ht
    · rw [htimes, if_pos heq, hlog]
      intro cutoff hcutoff
      have hfar : now - r.window ≤ cutoff :=
        hcutoff _ (List.mem_append_right _ (List.mem_singleton_self _))
      have hprev := hcounts cutoff (fun b hb => hcutoff b (List.mem_append_left _ hb))
      rw [passedSince_append, List.map_append, ← hprev, List.filter_append, List.filter_filter]
      congr 1
      · apply List.filter_congr
        intro t _
        by_cases ht : cutoff ≤ t
        · simp [ht, le_trans hfar ht]
        · simp [ht]
      · cases passed with
        | false => simp
        | true =>
          by_cases hin : cutoff ≤ now
          · simp [heq, hin]
          · simp [heq, hin]
  · have hnone : ∀ cutoff, passedSince addr cutoff (s.log ++ [⟨asked, now, passed⟩]) =
        passedSince addr cutoff s.log := by
      intro cutoff
      rw [passedSince_append, if_neg (by simp [heq]), List.append_nil]
    have hmine := htimes addr
    rw [if_neg heq] at hmine
    rcases sweep_times (h addr) asked (now - r.window) with hsame | ⟨_, hold, hempty⟩
    · rw [hsame] at hmine
      constructor
      · rw [hmine]
        exact hsorted
      · rw [hmine, hlog]
        intro t ht
        obtain ⟨b, hb, hbt⟩ := hearly t ht
        exact ⟨b, List.mem_append_left _ hb, hbt⟩
      · rw [hmine, hlog]
        intro cutoff hcutoff
        rw [hnone]
        exact hcounts cutoff (fun b hb => hcutoff b (List.mem_append_left _ hb))
    · rw [hempty] at hmine
      constructor
      · rw [hmine]
        exact List.Pairwise.nil
      · rw [hmine]
        nofun
      · rw [hmine, hlog]
        intro cutoff hcutoff
        have hfar : now - r.window ≤ cutoff :=
          hcutoff _ (List.mem_append_right _ (List.mem_singleton_self _))
        rw [hnone, ← hcounts cutoff (fun b hb => hcutoff b (List.mem_append_left _ hb))]
        symm
        apply List.filter_eq_nil_iff.2
        intro t ht hin
        exact absurd (of_decide_eq_true hin) (not_le.2 (lt_of_lt_of_le (hold t ht) hfar))

/-- An attempt passes just where fewer than the limit have passed in the window before it. -/
def Windowed (r : AdminRate) (log : List Attempt) : Prop :=
  ∀ before a after, log = before ++ a :: after →
    (a.passed = true ↔ (passedSince a.addr (a.now - r.window) before).length < r.limit)

/-- An address has no more than the limit of attempts in a window, and is refused none before:
what the sweeper forgets never counts. -/
theorem admin_attempts_windowed (attempts : List (String × ℚ))
    (horder : Guarded (fun a => checkAdminRateLimit r a.1 a.2) InOrder attempts {}) :
    Windowed r (runSteps (fun a => checkAdminRateLimit r a.1 a.2) attempts {}).log := by
  have hrun := horder.keeps
    (I := fun s => (∀ addr, Kept r s addr) ∧ Windowed r s.log)
    (fun a s h hlate => by
      obtain ⟨hkept, hlaw⟩ := h
      refine ⟨Kept.step hkept hlate, fun before b after hsplit => ?_⟩
      obtain ⟨passed, hlog, hpassed, -⟩ := check_passed (hkept a.1) a.2 hlate
      rw [hlog] at hsplit
      rcases RateLimiter.split_append_singleton hsplit with ⟨rfl, rfl⟩ | ⟨after', hbefore⟩
      · exact hpassed
      · exact hlaw before b after' hbefore)
    ⟨fun addr => ⟨List.Pairwise.nil, fun _ ht => absurd ht List.not_mem_nil, fun _ _ => rfl⟩,
      fun before a after hsplit => by cases before <;> cases hsplit⟩
  exact hrun.2

theorem admin_attempts_windowed_scan :
    Windowed { limit := 2 } (runSteps (fun a => checkAdminRateLimit { limit := 2 } a.1 a.2)
      [("10.0.0.1", 0), ("10.0.0.1", 5), ("10.0.0.2", 5), ("10.0.0.1", 60), ("10.0.0.1", 61)]
      {}).log :=
  admin_attempts_windowed _ (by decide +kernel)

end AdminRate

end TappsBrain.Auth
