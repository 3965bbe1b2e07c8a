import Mathlib.Logic.Function.Basic
import TappsBrain.Lib.Noninterference
import TappsBrain.Text

namespace TappsBrain.TenantPool
open Lib
set_option autoImplicit true
set_option relaxedAutoImplicit false

/-- The settings of a session. One that was never set is NULL, one that was reset is empty; the
policies do not tell these apart. -/
structure Settings where
  projectId : String := ""
  agentId : String := ""
  isAdmin : String := ""
  currentNamespace : String := ""

/-- `_RESET_SESSION_VARS_SQL`. -/
def Settings.resetSessionVars (g : Settings) : Settings :=
  { g with projectId := "", agentId := "", isAdmin := "", currentNamespace := "" }

/-- The role that a pool connects as, with the tenanted tables it owns without FORCE. -/
structure Role where
  currentUser : String
  rolsuper : Bool
  rolbypassrls : Bool
  ownedUnforced : List String

/-- The second part is the violations. -/
def roleCheckFacts (row : Option (String × Bool × Bool)) (ownedUnforced : List String) :
    String × List String :=
  let (currentUser, isSuper, bypassRls) := row.getD ("(unknown)", true, true)
  (currentUser,
    (if isSuper then ["rolsuper=true (superuser bypasses RLS)"] else []) ++
    (if bypassRls then ["rolbypassrls=true (BYPASSRLS bypasses RLS)"] else []) ++
    (if ownedUnforced = [] then [] else
      ["role owns tenanted tables [" ++ ", ".intercalate (ownedUnforced.map ("'" ++ · ++ "'")) ++
        "] without FORCE ROW LEVEL SECURITY (table owners bypass RLS unless FORCE is set)"]))

/-- What the guard of a new pool finds against its role. -/
def Role.violations (role : Role) : List String :=
  (roleCheckFacts (some (role.currentUser, role.rolsuper, role.rolbypassrls))
    role.ownedUnforced).2

/-- Whether the policies of `private_memories` hold for the role. -/
def Role.subject (role : Role) : Bool :=
  !role.rolsuper && !role.rolbypassrls && !role.ownedUnforced.contains "private_memories"

/-- The primary key of `private_memories`. -/
structure RowId where
  projectId : String
  agentId : String
  key : String
deriving DecidableEq

structure Row where
  id : RowId
  data : String
deriving DecidableEq

/-- `private_memories_tenant_isolation`, whose USING and WITH CHECK are the same. -/
def Settings.passes (g : Settings) (id : RowId) : Bool :=
  g.projectId != "" && id.projectId == g.projectId

def Role.sees (role : Role) (g : Settings) (id : RowId) : Bool := !role.subject || g.passes id

inductive Change where
  | put (row : Row)
  | drop (id : RowId)

def Change.id : Change → RowId
  | .put row => row.id
  | .drop id => id

def Change.apply : Change → List Row → List Row
  | .put row, t => t.filter (fun r => r.id ≠ row.id) ++ [row]
  | .drop id, t => t.filter (fun r => r.id ≠ id)

def applyAll (changes : List Change) (t : List Row) : List Row :=
  changes.foldl (fun t c => c.apply t) t

/-- A statement on `private_memories`. -/
inductive Stmt where
  | select (cond : Row → Bool)
  | insert (row : Row)
  | update (cond : Row → Bool) (f : Row → Row)
  | delete (cond : Row → Bool)

inductive Answer where
  | rows (l : List Row)
  | count (n : Nat)
  | failed
  /-- It waits for a row that another transaction has changed. -/
  | waits
deriving DecidableEq

def taken (t : List Row) (id : RowId) : Bool := t.any (fun r => r.id = id)

/-- The rows of an UPDATE one after the other; each new row is checked. -/
def updateRows (sees locked : RowId → Bool) (f : Row → Row) :
    List Row → List Row → Except Answer (List Change)
  | [], _ => .ok []
  | r :: rest, t =>
    if locked r.id then .error .waits
    else if !sees (f r).id then .error .failed
    else if (f r).id ≠ r.id ∧ locked (f r).id = true then .error .waits
    else if (f r).id ≠ r.id ∧ taken t (f r).id = true then .error .failed
    else (updateRows sees locked f rest (applyAll [.drop r.id, .put (f r)] t)).map
      (fun changes => .drop r.id :: .put (f r) :: changes)

/-- What a statement changes and answers on the rows as its transaction finds them. -/
def Stmt.run (sees locked : RowId → Bool) (t : List Row) :
    Stmt → Except Answer (List Change × Answer)
  | .select cond => .ok ([], .rows ((t.filter (fun r => sees r.id)).filter cond))
  | .insert row =>
    if !sees row.id then .error .failed
    else if locked row.id then .error .waits
    else if taken t row.id then .error .failed
    else .ok ([.put row], .count 1)
  | .update cond f =>
    (updateRows sees locked f ((t.filter (fun r => sees r.id)).filter cond) t).map
      (fun changes => (changes, .count (changes.length / 2)))
  | .delete cond =>
    let found := (t.filter (fun r => sees r.id)).filter cond
    if found.any (fun r => locked r.id) then .error .waits
    else .ok (found.map (fun r => .drop r.id), .count found.length)

inductive Txn where
  | idle
  /-- With the settings as they are in it, and what it has changed. -/
  | opened (settings : Settings) (pending : List Change)
  | aborted

structure Conn where
  session : Settings := {}
  txn : Txn := .idle

/-- A statement in a transaction: the connection after it, the rows it locks, and its answer. -/
def Conn.executeIn (role : Role) (locked : RowId → Bool) (t : List Row) (st : Stmt) (c : Conn)
    (g : Settings) (pending : List Change) : Conn × List RowId × Answer :=
  match st.run (role.sees g) locked (applyAll pending t) with
  | .error .failed => ({ c with txn := .aborted }, [], .failed)
  | .error answer => (c, [], answer)
  | .ok (changes, answer) =>
    ({ c with txn := .opened g (pending ++ changes) }, changes.map Change.id, answer)

/-- Outside a transaction a statement opens one. -/
def Conn.execute (role : Role) (locked : RowId → Bool) (t : List Row) (st : Stmt) (c : Conn) :
    Conn × List RowId × Answer :=
  match c.txn with
  | .idle => c.executeIn role locked t st c.session []
  | .opened g pending => c.executeIn role locked t st g pending
  | .aborted => (c, [], .failed)

/-- A SET holds from the commit of its transaction on. To commit one that failed is to roll it
back. -/
def Conn.commit (c : Conn) : Conn :=
  match c.txn with
  | .opened g _ => { session := g, txn := .idle }
  | _ => { c with txn := .idle }

/-- What a commit makes permanent. -/
def Conn.changes (c : Conn) : List Change :=
  match c.txn with
  | .opened _ pending => pending
  | _ => []

def Conn.rollback (c : Conn) : Conn := { c with txn := .idle }

inductive Context where
  /-- `get_connection`. -/
  | plain
  | projectContext (projectId : String)
  | agentContext (agentId : String)
  | adminContext
  | namespaceContext (ns : String)
deriving DecidableEq

def Context.accepted : Context → Bool
  | .projectContext projectId => !isBlank projectId
  | .agentContext agentId => !isBlank agentId
  | _ => true

/-- The SET of a context opens the first transaction of the borrow. -/
def Context.enter (c : Conn) : Context → Conn
  | .plain => c
  | .projectContext projectId =>
    { c with txn := .opened { c.session with projectId := projectId } [] }
  | .agentContext agentId => { c with txn := .opened { c.session with agentId := agentId } [] }
  | .adminContext => { c with txn := .opened { c.session with isAdmin := "true" } [] }
  | .namespaceContext ns => { c with txn := .opened { c.session with currentNamespace := ns } [] }

structure Borrow where
  context : Context
  conn : Conn

/-- The committed rows, the idle connections of the pool, the borrowed ones, and who holds a lock on
which row. -/
structure State where
  rows : List Row
  idle : List Conn := []
  held : Nat → Option Borrow := fun _ => none
  locks : List (Nat × RowId) := []

def State.lockedFor (s : State) (b : Nat) (id : RowId) : Bool :=
  s.locks.any (fun l => l.1 ≠ b && l.2 = id)

inductive Event where
  | connect
  | borrow (b : Nat) (i : Nat) (context : Context)
  | statement (b : Nat) (st : Stmt)
  | commit (b : Nat)
  | rollback (b : Nat)
  /-- The end of the borrow, by an exception or not; a connection whose reset fails is closed. -/
  | release (b : Nat) (raised resetFails : Bool)

def State.hold (s : State) (b : Nat) (w : Option Borrow) : State :=
  { s with held := Function.update s.held b w }

def State.unlock (s : State) (b : Nat) : State :=
  { s with locks := s.locks.filter (fun l => l.1 ≠ b) }

def commitOf (b : Nat) (w : Borrow) (s : State) : State :=
  ({ s with rows := applyAll w.conn.changes s.rows }.unlock b).hold b
    (some { w with conn := w.conn.commit })

def rollbackOf (b : Nat) (w : Borrow) (s : State) : State :=
  (s.unlock b).hold b (some { w with conn := w.conn.rollback })

/-- `_reset_session_vars`, which commits its RESET. -/
def Conn.resetSessionVars (c : Conn) : Conn :=
  { session := c.session.resetSessionVars, txn := .idle }

def giveBack (b : Nat) (w : Borrow) (resetFails : Bool) (s : State) : State :=
  { s.hold b none with
    idle := if resetFails then s.idle else s.idle ++ [w.conn.resetSessionVars] }

def step (role : Role) : Event → State → State
  | .connect, s => { s with idle := s.idle ++ [{}] }
  | .borrow b i context, s =>
    match s.held b, s.idle[i]? with
    | none, some c =>
      if context.accepted then
        { s.hold b (some ⟨context, context.enter c⟩) with idle := s.idle.eraseIdx i }
      else s
    | _, _ => s
  | .statement b st, s =>
    match s.held b with
    | none => s
    | some w =>
      let done := w.conn.execute role (s.lockedFor b) s.rows st
      { s.hold b (some { w with conn := done.1 }) with
        locks := s.locks ++ done.2.1.map (fun id => (b, id)) }
  | .commit b, s =>
    match s.held b with
    | none => s
    | some w => commitOf b w s
  | .rollback b, s =>
    match s.held b with
    | none => s
    | some w => rollbackOf b w s
  | .release b raised resetFails, s =>
    match s.held b with
    | none => s
    | some w => giveBack b w resetFails (if raised then rollbackOf b w s else commitOf b w s)

/-- What a tenant is told: the answers to the statements of the borrows in its context. -/
def told (role : Role) (p : String) : Event → State → Option Answer
  | .statement b st, s =>
    match s.held b with
    | some w =>
      if w.context = .projectContext p then
        some (w.conn.execute role (s.lockedFor b) s.rows st).2.2
      else none
    | none => none
  | _, _ => none

/-- The statements of all other borrows, those of administrators included. -/
def foreign (p : String) : Event → State → Bool
  | .statement b _, s =>
    match s.held b with
    | some w => w.context ≠ .projectContext p
    | none => false
  | _, _ => false

/-- An event with which a borrow neither ends nor loses a transaction. -/
def steady (role : Role) (b : Nat) : Event → State → Bool
  | .release b' _ _, _ => b' ≠ b
  | .rollback b', _ => b' ≠ b
  | .statement b' st, s =>
    match s.held b with
    | some w => b' ≠ b || (w.conn.execute role (s.lockedFor b) s.rows st).2.2 ≠ .failed
    | none => true
  | _, _ => true

def ends (b : Nat) : Event → Bool
  | .release b' _ _ => b' = b
  | _ => false

def mine (p : String) (t : List Row) : List Row := t.filter (fun r => r.id.projectId = p)

section Visible
variable {sees locked locked' : RowId → Bool} {t t' : List Row}

theorem filter_apply_seen {P : RowId → Bool} {c : Change} (h : P c.id = true) (t : List Row) :
    (c.apply t).filter (fun r => P r.id) = c.apply (t.filter (fun r => P r.id)) := by
  cases c with
  | put row =>
    have hrow : [row].filter (fun r => P r.id) = [row] := List.filter_cons_of_pos h
    rw [Change.apply, List.filter_append, hrow, List.filter_comm]
    rfl
  | drop id => exact List.filter_comm ..

theorem filter_apply_unseen {P : RowId → Bool} {c : Change} (h : P c.id = false) (t : List Row) :
    (c.apply t).filter (fun r => P r.id) = t.filter (fun r => P r.id) := by
  have hrest : ∀ id, P id = false →
      (t.filter (fun r => r.id ≠ id)).filter (fun r => P r.id) = t.filter (fun r => P r.id) := by
    intro id hid
    rw [List.filter_filter]
    apply List.filter_congr
    intro r _
    by_cases hr : r.id = id
    · rw [hr, hid, Bool.false_and]
    · simp only [hr, ne_eq, not_false_eq_true, decide_true, Bool.and_true]
  cases c with
  | put row =>
    have hrow : [row].filter (fun r => P r.id) = [] :=
      List.filter_cons_of_neg (fun hp => Bool.false_ne_true (h.symm.trans hp))
    rw [Change.apply, List.filter_append, hrow, List.append_nil]
    exact hrest _ h
  | drop id => exact hrest id h

theorem filter_applyAll_congr (P : RowId → Bool) (changes : List Change)
    (h : t.filter (fun r => P r.id) = t'.filter (fun r => P r.id)) :
    (applyAll changes t).filter (fun r => P r.id) =
      (applyAll changes t').filter (fun r => P r.id) := by
  induction changes generalizing t t' with
  | nil => exact h
  | cons c rest ih =>
    apply ih
    cases hc : P c.id with
    | true => rw [filter_apply_seen hc, filter_apply_seen hc, h]
    | false => rw [filter_apply_unseen hc, filter_apply_unseen hc, h]

theorem filter_applyAll_outside (P : RowId → Bool) (changes : List Change)
    (h : ∀ c ∈ changes, P c.id = false) :
    (applyAll changes t).filter (fun r => P r.id) = t.filter (fun r => P r.id) := by
  induction changes generalizing t with
  | nil => rfl
  | cons c rest ih =>
    rw [applyAll, List.foldl_cons, ← applyAll, ih (fun d hd => h d (List.mem_cons_of_mem c hd)),
      filter_apply_unseen (h c List.mem_cons_self)]

theorem taken_filter {id : RowId} (h : sees id = true) :
    taken (t.filter (fun r => sees r.id)) id = taken t id := by
  rw [taken, taken, List.any_filter]
  congr 1
  funext r
  by_cases hr : r.id = id
  · simp only [hr, h, Bool.true_and]
  · simp only [hr, decide_false, Bool.and_false]

/-- What an UPDATE does depends on the rows that it can see only. -/
theorem updateRows_congr (f : Row → Row) {l : List Row} (hl : ∀ r ∈ l, sees r.id = true)
    (hlocked : ∀ id, sees id = true → locked id = locked' id)
    (ht : t.filter (fun r => sees r.id) = t'.filter (fun r => sees r.id)) :
    updateRows sees locked f l t = updateRows sees locked' f l t' := by
  induction l generalizing t t' with
  | nil => rfl
  | cons r rest ih =>
    have hrest := ih (fun x hx => hl x (List.mem_cons_of_mem r hx))
      (filter_applyAll_congr sees [.drop r.id, .put (f r)] ht)
    simp only [updateRows]
    rw [hlocked r.id (hl r List.mem_cons_self), hrest]
    cases hsee : sees (f r).id with
    | false => rfl
    | true => rw [hlocked _ hsee, ← taken_filter hsee, ht, taken_filter hsee]

theorem Stmt.run_congr (st : Stmt) (hlocked : ∀ id, sees id = true → locked id = locked' id)
    (ht : t.filter (fun r => sees r.id) = t'.filter (fun r => sees r.id)) :
    st.run sees locked t = st.run sees locked' t' := by
  cases st with
  | select cond => rw [Stmt.run, Stmt.run, ht]
  | insert row =>
    rw [Stmt.run, Stmt.run]
    cases hsee : sees row.id with
    | false => rfl
    | true => rw [hlocked _ hsee, ← taken_filter hsee, ht, taken_filter hsee]
  | update cond f =>
    rw [Stmt.run, Stmt.run, ht, updateRows_congr f _ hlocked ht]
    intro r hr
    exact (List.mem_filter.1 (List.mem_filter.1 hr).1).2
  | delete cond =>
    simp only [Stmt.run]
    rw [ht]
    congr 2
    rw [Bool.eq_iff_iff, List.any_eq_true, List.any_eq_true]
    apply exists_congr
    intro r
    apply and_congr_right
    intro hr
    rw [hlocked _ (List.mem_filter.1 (List.mem_filter.1 hr).1).2]

theorem updateRows_sees {f : Row → Row} {l : List Row} (hl : ∀ r ∈ l, sees r.id = true)
    {changes : List Change} (h : updateRows sees locked f l t = .ok changes) :
    ∀ c ∈ changes, sees c.id = true := by
  induction l generalizing t changes with
  | nil =>
    obtain rfl := Except.ok.inj h
    exact fun c hc => absurd hc List.not_mem_nil
  | cons r rest ih =>
    simp only [updateRows] at h
    split at h
    · cases h
    split at h
    · cases h
    next hsee =>
    split at h
    · cases h
    split at h
    · cases h
    cases hrest : updateRows sees locked f rest (applyAll [.drop r.id, .put (f r)] t) with
    | error answer =>
      rw [hrest] at h
      cases h
    | ok changes' =>
    rw [hrest] at h
    obtain rfl := Except.ok.inj h
    have hchanges := ih (fun x hx => hl x (List.mem_cons_of_mem r hx)) hrest
    intro c hc
    rcases List.mem_cons.1 hc with rfl | hc
    · exact hl r List.mem_cons_self
    rcases List.mem_cons.1 hc with rfl | hc
    · rwa [Bool.not_eq_true', Bool.not_eq_false] at hsee
    · exact hchanges c hc

/-- A statement changes only rows that it can see, before and after. -/
theorem Stmt.run_sees {st : Stmt} {changes : List Change} {answer : Answer}
    (h : st.run sees locked t = .ok (changes, answer)) : ∀ c ∈ changes, sees c.id = true := by
  cases st with
  | select cond =>
    obtain ⟨rfl, -⟩ := Prod.mk.inj (Except.ok.inj h)
    exact fun c hc => absurd hc List.not_mem_nil
  | insert row =>
    rw [Stmt.run] at h
    split at h
    · cases h
    next hsee =>
    split at h
    · cases h
    split at h
    · cases h
    obtain ⟨rfl, -⟩ := Prod.mk.inj (Except.ok.inj h)
    intro c hc
    rw [List.mem_singleton.1 hc]
    rwa [Bool.not_eq_true', Bool.not_eq_false] at hsee
  | update cond f =>
    have hfound : ∀ r ∈ (t.filter (fun r => sees r.id)).filter cond, sees r.id = true :=
      fun r hr => (List.mem_filter.1 (List.mem_filter.1 hr).1).2
    rw [Stmt.run] at h
    cases hrun : updateRows sees locked f ((t.filter (fun r => sees r.id)).filter cond) t with
    | error answer =>
      rw [hrun] at h
      cases h
    | ok changes' =>
      rw [hrun] at h
      obtain ⟨rfl, -⟩ := Prod.mk.inj (Except.ok.inj h)
      exact updateRows_sees hfound hrun
  | delete cond =>
    simp only [Stmt.run] at h
    split at h
    · cases h
    obtain ⟨rfl, -⟩ := Prod.mk.inj (Except.ok.inj h)
    intro c hc
    obtain ⟨r, hr, rfl⟩ := List.mem_map.1 hc
    exact (List.mem_filter.1 (List.mem_filter.1 hr).1).2

end Visible

section Isolation
variable {role : Role} {p : String} {P : String → Prop} {locked locked' : RowId → Bool}
  {t t' : List Row}

theorem subject_of_unviolated (h : role.violations = []) : role.subject = true := by
  simp only [Role.violations, roleCheckFacts, Option.getD_some, List.append_eq_nil_iff] at h
  obtain ⟨⟨hsuper, hbypass⟩, howned⟩ := h
  have hsuper : role.rolsuper = false := by
    cases hr : role.rolsuper with
    | false => rfl
    | true => rw [hr] at hsuper; cases hsuper
  have hbypass : role.rolbypassrls = false := by
    cases hr : role.rolbypassrls with
    | false => rfl
    | true => rw [hr] at hbypass; cases hbypass
  have howned : role.ownedUnforced = [] := by
    by_contra hne
    rw [if_neg hne] at howned
    cases howned
  rw [Role.subject, hsuper, hbypass, howned]
  rfl

theorem sees_subject (h : role.subject = true) (g : Settings) (id : RowId) :
    role.sees g id = g.passes id := by
  rw [Role.sees, h]
  rfl

/-- The identities that can be set are none or among the given ones. -/
def Settings.Within (P : String → Prop) (g : Settings) : Prop :=
  g.projectId = "" ∨ P g.projectId

def Txn.Within (P : String → Prop) : Txn → Prop
  | .opened g pending => g.Within P ∧ ∀ c ∈ pending, P c.id.projectId
  | _ => True

/-- All that a connection can see, or has changed, is of the given tenants. -/
structure Conn.Within (P : String → Prop) (c : Conn) : Prop where
  session : c.session.Within P
  txn : c.txn.Within P

theorem sees_within (hrole : role.subject = true) {g : Settings} (hg : g.Within P) {id : RowId}
    (h : role.sees g id = true) : P id.projectId := by
  rw [sees_subject hrole, Settings.passes, Bool.and_eq_true, bne_iff_ne, beq_iff_eq] at h
  rw [h.2]
  exact hg.resolve_left h.1

theorem within_clean : Conn.Within P {} := ⟨.inl rfl, trivial⟩

theorem Conn.Within.executeIn (hrole : role.subject = true) {c : Conn} (hc : c.Within P)
    {g : Settings} (hg : g.Within P) {pending : List Change}
    (hpending : ∀ ch ∈ pending, P ch.id.projectId) (st : Stmt) :
    (c.executeIn role locked t st g pending).1.Within P ∧
      ∀ id ∈ (c.executeIn role locked t st g pending).2.1, P id.projectId := by
  rw [Conn.executeIn]
  split
  · exact ⟨⟨hc.session, trivial⟩, fun id hid => absurd hid List.not_mem_nil⟩
  · exact ⟨hc, fun id hid => absurd hid List.not_mem_nil⟩
  · next changes answer hrun =>
    have hchanges : ∀ ch ∈ changes, P ch.id.projectId := fun ch hch =>
      sees_within hrole hg (Stmt.run_sees hrun ch hch)
    constructor
    · refine ⟨hc.session, hg, ?_⟩
      intro ch hch
      rcases List.mem_append.1 hch with hch | hch
      · exact hpending ch hch
      · exact hchanges ch hch
    · intro id hid
      obtain ⟨ch, hch, rfl⟩ := List.mem_map.1 hid
      exact hchanges ch hch

theorem Conn.Within.execute (hrole : role.subject = true) {c : Conn} (hc : c.Within P)
    (st : Stmt) :
    (c.execute role locked t st).1.Within P ∧
      ∀ id ∈ (c.execute role locked t st).2.1, P id.projectId := by
  rw [Conn.execute]
  have htxn := hc.txn
  split
  · exact hc.executeIn hrole hc.session (fun ch hch => absurd hch List.not_mem_nil) st
  · next g pending htx =>
    rw [htx] at htxn
    exact hc.executeIn hrole htxn.1 htxn.2 st
  · exact ⟨hc, fun id hid => absurd hid List.not_mem_nil⟩

theorem Conn.Within.commit {c : Conn} (hc : c.Within P) : c.commit.Within P := by
  have htxn := hc.txn
  rw [Conn.commit]
  split
  · next htx =>
    rw [htx] at htxn
    exact ⟨htxn.1, trivial⟩
  · exact ⟨hc.session, trivial⟩

theorem Conn.Within.changes {c : Conn} (hc : c.Within P) :
    ∀ ch ∈ c.changes, P ch.id.projectId := by
  have htxn := hc.txn
  rw [Conn.changes]
  split
  · next htx =>
    rw [htx] at htxn
    exact htxn.2
  · exact fun ch hch => absurd hch List.not_mem_nil

theorem Conn.Within.rollback {c : Conn} (hc : c.Within P) : c.rollback.Within P :=
  ⟨hc.session, trivial⟩

theorem enter_within {context : Context} (h : ∀ q, context = .projectContext q → P q) :
    (context.enter {}).Within P := by
  have hnone : ∀ ch ∈ ([] : List Change), P ch.id.projectId := fun ch hch =>
    absurd hch List.not_mem_nil
  cases context with
  | plain => exact within_clean
  | projectContext q => exact ⟨.inl rfl, .inr (h q rfl), hnone⟩
  | agentContext | adminContext | namespaceContext => exact ⟨.inl rfl, .inl rfl, hnone⟩

theorem filter_sees (hrole : role.subject = true) {g : Settings} (hg : g.Within (· = p))
    (t : List Row) :
    t.filter (fun r => role.sees g r.id) = (mine p t).filter (fun r => role.sees g r.id) := by
  rw [mine, List.filter_filter]
  apply List.filter_congr
  intro r _
  cases hsee : role.sees g r.id with
  | false => rfl
  | true =>
    have hr : r.id.projectId = p := sees_within hrole hg hsee
    rw [decide_eq_true hr]
    rfl

theorem executeIn_congr (hrole : role.subject = true) (c : Conn) {g : Settings}
    (hg : g.Within (· = p)) (pending : List Change)
    (hlocked : ∀ id : RowId, id.projectId = p → locked id = locked' id)
    (ht : mine p t = mine p t') (st : Stmt) :
    c.executeIn role locked t st g pending = c.executeIn role locked' t' st g pending := by
  have hafter : mine p (applyAll pending t) = mine p (applyAll pending t') :=
    filter_applyAll_congr (fun id => id.projectId = p) pending ht
  have hrun : st.run (role.sees g) locked (applyAll pending t) =
      st.run (role.sees g) locked' (applyAll pending t') := by
    apply Stmt.run_congr
    · exact fun id hid => hlocked id (sees_within hrole hg hid)
    · rw [filter_sees hrole hg, hafter, ← filter_sees hrole hg]
  rw [Conn.executeIn, Conn.executeIn, hrun]

/-- A statement in the context of a tenant depends on the rows of that tenant only. -/
theorem execute_congr (hrole : role.subject = true) {c : Conn} (hc : c.Within (· = p))
    (hlocked : ∀ id : RowId, id.projectId = p → locked id = locked' id)
    (ht : mine p t = mine p t') (st : Stmt) :
    c.execute role locked t st = c.execute role locked' t' st := by
  have htxn := hc.txn
  rw [Conn.execute, Conn.execute]
  split
  · exact executeIn_congr hrole c hc.session [] hlocked ht st
  · next htx =>
    rw [htx] at htxn
    exact executeIn_congr hrole c htxn.1 _ hlocked ht st
  · rfl

/-- The borrows of a tenant are the same, those of the others agree in their contexts. -/
inductive HeldAlike (p : String) : Option Borrow → Option Borrow → Prop
  | free : HeldAlike p none none
  | own {w : Borrow} : w.context = .projectContext p → w.conn.Within (· = p) →
    HeldAlike p (some w) (some w)
  | other {w w' : Borrow} : w.context = w'.context → w.context ≠ .projectContext p →
    w.conn.Within (· ≠ p) → w'.conn.Within (· ≠ p) → HeldAlike p (some w) (some w')

/-- Two states of the pool that a tenant cannot tell apart. -/
structure Alike (p : String) (s t : State) : Prop where
  rows : mine p s.rows = mine p t.rows
  idle : s.idle = t.idle
  clean : ∀ c ∈ s.idle, c = {}
  held : ∀ b, HeldAlike p (s.held b) (t.held b)
  locks : s.locks.filter (fun l => l.2.projectId = p) = t.locks.filter (fun l => l.2.projectId = p)

variable {s u : State} {w w' : Borrow} {b : Nat}

theorem Alike.lockedFor (h : Alike p s u) (b : Nat) (id : RowId) (hid : id.projectId = p) :
    s.lockedFor b id = u.lockedFor b id := by
  have hmine : ∀ v : State, v.lockedFor b id =
      (v.locks.filter (fun l => l.2.projectId = p)).any (fun l => l.1 ≠ b && l.2 = id) := by
    intro v
    rw [State.lockedFor, List.any_filter]
    congr 1
    funext l
    by_cases hl : l.2 = id
    · simp only [hl, hid, decide_true, Bool.true_and]
    · simp only [hl, decide_false, Bool.and_false]
  rw [hmine, hmine, h.locks]

@[simp] theorem hold_self {v : Option Borrow} : (s.hold b v).held b = v := by
  simp only [State.hold, Function.update_self]

theorem hold_of_ne {v : Option Borrow} {b' : Nat} (h : b' ≠ b) :
    (s.hold b v).held b' = s.held b' := by
  simp only [State.hold, Function.update_of_ne h]

theorem Alike.hold (h : Alike p s u) {v v' : Option Borrow} (hv : HeldAlike p v v') :
    Alike p (s.hold b v) (u.hold b v') := by
  refine ⟨h.rows, h.idle, h.clean, ?_, h.locks⟩
  intro b'
  by_cases hb : b' = b
  · rw [hb, hold_self, hold_self]
    exact hv
  · rw [hold_of_ne hb, hold_of_ne hb]
    exact h.held b'

theorem Alike.unlock (h : Alike p s u) (b : Nat) : Alike p (s.unlock b) (u.unlock b) := by
  refine ⟨h.rows, h.idle, h.clean, h.held, ?_⟩
  rw [State.unlock, State.unlock, List.filter_comm, h.locks, List.filter_comm]

theorem mine_outside {changes : List Change} (h : ∀ c ∈ changes, c.id.projectId ≠ p)
    (t : List Row) : mine p (applyAll changes t) = mine p t :=
  filter_applyAll_outside (fun id => id.projectId = p) changes
    (fun c hc => decide_eq_false (h c hc))

theorem Alike.commitOf (h : Alike p s u) (hw : HeldAlike p (some w) (some w')) (b : Nat) :
    Alike p (commitOf b w s) (commitOf b w' u) := by
  cases hw with
  | own hctx hc =>
    have hw : HeldAlike p (some { w with conn := w.conn.commit })
      (some { w with conn := w.conn.commit }) := .own hctx hc.commit
    apply Alike.hold _ hw
    apply Alike.unlock
    exact ⟨filter_applyAll_congr (fun id => id.projectId = p) _ h.rows, h.idle, h.clean, h.held,
      h.locks⟩
  | other hctx hne hc hc' =>
    have hw : HeldAlike p (some { w with conn := w.conn.commit })
      (some { w' with conn := w'.conn.commit }) := .other hctx hne hc.commit hc'.commit
    apply Alike.hold _ hw
    apply Alike.unlock
    refine ⟨?_, h.idle, h.clean, h.held, h.locks⟩
    rw [mine_outside hc.changes, mine_outside hc'.changes, h.rows]

theorem Alike.rollbackOf (h : Alike p s u) (hw : HeldAlike p (some w) (some w')) (b : Nat) :
    Alike p (rollbackOf b w s) (rollbackOf b w' u) := by
  cases hw with
  | own hctx hc =>
    have hw : HeldAlike p (some { w with conn := w.conn.rollback })
      (some { w with conn := w.conn.rollback }) := .own hctx hc.rollback
    exact (h.unlock b).hold hw
  | other hctx hne hc hc' =>
    have hw : HeldAlike p (some { w with conn := w.conn.rollback })
      (some { w' with conn := w'.conn.rollback }) := .other hctx hne hc.rollback hc'.rollback
    exact (h.unlock b).hold hw

theorem Alike.giveBack (h : Alike p s u) (w w' : Borrow) (b : Nat) (resetFails : Bool) :
    Alike p (giveBack b w resetFails s) (giveBack b w' resetFails u) := by
  have hh := h.hold (b := b) .free
  cases resetFails with
  | true => exact ⟨hh.rows, h.idle, h.clean, hh.held, h.locks⟩
  | false =>
    refine ⟨hh.rows, congrArg (· ++ [({} : Conn)]) h.idle, ?_, hh.held, h.locks⟩
    intro c hc
    rcases List.mem_append.1 hc with hc | hc
    · exact h.clean c hc
    · exact List.mem_singleton.1 hc

theorem Alike.borrow (h : Alike p s u) (b i : Nat) (context : Context) :
    Alike p (step role (.borrow b i context) s) (step role (.borrow b i context) u) := by
  have hheld := h.held b
  simp only [step]
  rw [← h.idle]
  generalize hsb : s.held b = v at hheld
  generalize hub : u.held b = v' at hheld
  cases hheld with
  | own | other => exact h
  | free =>
    cases hi : s.idle[i]? with
    | none => exact h
    | some c =>
      dsimp only
      split
      · have hc : c = {} := h.clean c (List.mem_of_getElem? hi)
        have hw : HeldAlike p (some ⟨context, context.enter c⟩)
            (some ⟨context, context.enter c⟩) := by
          rw [hc]
          by_cases hctx : context = .projectContext p
          · apply HeldAlike.own hctx
            apply enter_within
            intro q hq
            rw [hctx] at hq
            exact (Context.projectContext.inj hq).symm
          · have hwithin : (context.enter {}).Within (· ≠ p) := by
              apply enter_within
              rintro q hq rfl
              exact hctx hq
            exact .other rfl hctx hwithin hwithin
        have hh := h.hold (b := b) hw
        refine ⟨hh.rows, rfl, ?_, hh.held, hh.locks⟩
        exact fun d hd => h.clean d (List.mem_of_mem_eraseIdx hd)
      · exact h

theorem Alike.borrowed (h : Alike p s u) (b : Nat) :
    s.held b = none ∧ u.held b = none ∨
      ∃ w w', s.held b = some w ∧ u.held b = some w' ∧ HeldAlike p (some w) (some w') := by
  have hheld := h.held b
  generalize s.held b = v at hheld
  generalize u.held b = v' at hheld
  cases hheld with
  | free => exact .inl ⟨rfl, rfl⟩
  | own hctx hc => exact .inr ⟨_, _, rfl, rfl, .own hctx hc⟩
  | other hctx hne hc hc' => exact .inr ⟨_, _, rfl, rfl, .other hctx hne hc hc'⟩

theorem Alike.connect (h : Alike p s u) :
    Alike p (step role .connect s) (step role .connect u) := by
  refine ⟨h.rows, congrArg (· ++ [({} : Conn)]) h.idle, ?_, h.held, h.locks⟩
  intro c hc
  rcases List.mem_append.1 hc with hc | hc
  · exact h.clean c hc
  · exact List.mem_singleton.1 hc

theorem Alike.statement (hrole : role.subject = true) (h : Alike p s u) (b : Nat) (st : Stmt)
    (hf : foreign p (.statement b st) s = false) :
    Alike p (step role (.statement b st) s) (step role (.statement b st) u) ∧
      told role p (.statement b st) s = told role p (.statement b st) u := by
  rcases h.borrowed b with ⟨hs, hu⟩ | ⟨w, w', hs, hu, hw⟩
  · simp only [step, told, hs, hu]
    exact ⟨h, trivial⟩
  · simp only [foreign, hs, decide_eq_false_iff_not, not_not] at hf
    cases hw with
    | other hctx hne => exact absurd hf hne
    | own hctx hc =>
      have hsame := execute_congr hrole hc (h.lockedFor b) h.rows st
      have hafter : HeldAlike p
          (some { w with conn := (w.conn.execute role (u.lockedFor b) u.rows st).1 })
          (some { w with conn := (w.conn.execute role (u.lockedFor b) u.rows st).1 }) :=
        .own hctx (hc.execute hrole st).1
      simp only [step, told, hs, hu, hsame]
      have hh := h.hold (b := b) hafter
      refine ⟨⟨hh.rows, hh.idle, hh.clean, hh.held, ?_⟩, trivial⟩
      simp only [List.filter_append, h.locks]

theorem Alike.own (hrole : role.subject = true) (e : Event) (h : Alike p s u)
    (hf : foreign p e s = false) :
    Alike p (step role e s) (step role e u) ∧ told role p e s = told role p e u := by
  cases e with
  | connect => exact ⟨h.connect, rfl⟩
  | borrow b i context => exact ⟨h.borrow b i context, rfl⟩
  | statement b st => exact h.statement hrole b st hf
  | commit b =>
    refine ⟨?_, rfl⟩
    rcases h.borrowed b with ⟨hs, hu⟩ | ⟨w, w', hs, hu, hw⟩
    · simp only [step, hs, hu]
      exact h
    · simp only [step, hs, hu]
      exact h.commitOf hw b
  | rollback b =>
    refine ⟨?_, rfl⟩
    rcases h.borrowed b with ⟨hs, hu⟩ | ⟨w, w', hs, hu, hw⟩
    · simp only [step, hs, hu]
      exact h
    · simp only [step, hs, hu]
      exact h.rollbackOf hw b
  | release b raised resetFails =>
    refine ⟨?_, rfl⟩
    rcases h.borrowed b with ⟨hs, hu⟩ | ⟨w, w', hs, hu, hw⟩
    · simp only [step, hs, hu]
      exact h
    · simp only [step, hs, hu]
      apply Alike.giveBack
      cases raised with
      | true => exact h.rollbackOf hw b
      | false => exact h.commitOf hw b

theorem Alike.foreign (hrole : role.subject = true) (e : Event) (h : Alike p s u)
    (hf : foreign p e s = true) : Alike p (step role e s) u ∧ told role p e s = none := by
  cases e with
  | connect | borrow | commit | rollback | release => cases hf
  | statement b st =>
    rcases h.borrowed b with ⟨hs, hu⟩ | ⟨w, w', hs, hu, hw⟩
    · rw [TenantPool.foreign, hs] at hf
      cases hf
    · rw [TenantPool.foreign, hs, decide_eq_true_eq] at hf
      cases hw with
      | own hctx => exact absurd hctx hf
      | other hctx hne hc hc' =>
        have hdone : (w.conn.execute role (s.lockedFor b) s.rows st).1.Within (· ≠ p) ∧
            ∀ id ∈ (w.conn.execute role (s.lockedFor b) s.rows st).2.1, id.projectId ≠ p :=
          hc.execute hrole st
        have hafter : HeldAlike p
            (some { w with conn := (w.conn.execute role (s.lockedFor b) s.rows st).1 })
            (some w') := .other hctx hne hdone.1 hc'
        have hheld := (h.hold (b := b) hafter).held
        simp only [step, told, hs, if_neg hf]
        refine ⟨⟨h.rows, h.idle, h.clean, ?_, ?_⟩, trivial⟩
        · intro b'
          have hb' := hheld b'
          rwa [State.hold, State.hold, ← hu, Function.update_eq_self] at hb'
        · have hnone : ((w.conn.execute role (s.lockedFor b) s.rows st).2.1.map
              (fun id => (b, id))).filter (fun l => l.2.projectId = p) = [] := by
            apply List.filter_eq_nil_iff.2
            intro l hl
            obtain ⟨id, hid, rfl⟩ := List.mem_map.1 hl
            rw [decide_eq_true_eq]
            exact hdone.2 id hid
          rw [List.filter_append, h.locks, hnone, List.append_nil]

theorem alike_run (hrole : role.violations = []) (hmine : mine p t = mine p t')
    (events : List Event) :
    let alone := purge (step role) (foreign p) events { rows := t }
    Alike p (runSteps (step role) events { rows := t })
        (runSteps (step role) alone { rows := t' }) ∧
      outputs (step role) (told role p) events { rows := t } =
        outputs (step role) (told role p) alone { rows := t' } := by
  have hsubject := subject_of_unviolated hrole
  have hstart : Alike p { rows := t } { rows := t' } :=
    ⟨hmine, rfl, fun c hc => absurd hc List.not_mem_nil, fun _ => .free, rfl⟩
  exact purge_unwinds (fun a s u h hf => h.foreign hsubject a hf)
    (fun a s u h hf => h.own hsubject a hf) events hstart

/-- On a pool whose guard finds nothing against its role, a tenant gets the answers and keeps the
rows of `private_memories` that it would if nobody else made a statement and the other tenants had
other rows: whatever is borrowed, committed, rolled back, aborted and reset in between. -/
theorem tenant_unaffected (hrole : role.violations = []) (hmine : mine p t = mine p t')
    (events : List Event) :
    let alone := purge (step role) (foreign p) events { rows := t }
    outputs (step role) (told role p) events { rows := t } =
      outputs (step role) (told role p) alone { rows := t' } ∧
    mine p (runSteps (step role) events { rows := t }).rows =
      mine p (runSteps (step role) alone { rows := t' }).rows := by
  obtain ⟨hrun, houts⟩ := alike_run hrole hmine events
  exact ⟨houts, hrun.rows⟩

/-- Two tenants on one connection after the other, and on two at once. -/
def sharedRun : List Event :=
  [.connect, .connect, .borrow 0 0 (.projectContext "alpha"),
    .statement 0 (.insert ⟨⟨"alpha", "dev", "k"⟩, "one"⟩), .release 0 false false,
    .borrow 1 1 (.projectContext "beta"), .borrow 2 0 (.projectContext "alpha"),
    .statement 1 (.delete (fun _ => true)),
    .statement 1 (.update (fun _ => true) (fun r => { r with data := "spoilt" })), .commit 1,
    .statement 1 (.insert ⟨⟨"alpha", "dev", "k2"⟩, "two"⟩), .release 1 true false,
    .statement 2 (.select (fun _ => true))]

theorem tenant_unaffected_shared :
    let role : Role := ⟨"tapps_runtime", false, false, []⟩
    let alone := purge (step role) (foreign "alpha") sharedRun { rows := [] }
    outputs (step role) (told role "alpha") sharedRun { rows := [] } =
      outputs (step role) (told role "alpha") alone { rows := [⟨⟨"beta", "dev", "k"⟩, "x"⟩] } ∧
    mine "alpha" (runSteps (step role) sharedRun { rows := [] }).rows =
      mine "alpha" (runSteps (step role) alone { rows := [⟨⟨"beta", "dev", "k"⟩, "x"⟩] }).rows :=
  tenant_unaffected rfl (by decide) sharedRun

end Isolation

section Identity
variable {role : Role} {p : String} {locked : RowId → Bool} {t : List Row} {s : State} {b : Nat}

/-- The transaction that is open, or else the next one, carries the identity. -/
def Conn.Bound (p : String) (c : Conn) : Prop :=
  match c.txn with
  | .idle => c.session.projectId = p
  | .opened g _ => g.projectId = p
  | .aborted => False

/-- The identity has been committed. -/
structure Conn.Settled (p : String) (c : Conn) : Prop where
  session : c.session.projectId = p
  opened : ∀ g pending, c.txn = .opened g pending → g.projectId = p

theorem Conn.Bound.commit {c : Conn} (h : c.Bound p) : c.commit.Settled p := by
  rw [Conn.Bound] at h
  rw [Conn.commit]
  split
  · next htx =>
    rw [htx] at h
    exact ⟨h, fun g pending hg => by cases hg⟩
  · next htx =>
    cases htxn : c.txn with
    | opened g pending => exact absurd htxn (htx g pending)
    | aborted =>
      rw [htxn] at h
      exact h.elim
    | idle =>
      rw [htxn] at h
      exact ⟨h, fun g pending hg => by cases hg⟩

theorem Conn.Settled.bound {c : Conn} (h : c.Settled p) (htxn : c.txn ≠ .aborted) : c.Bound p := by
  rw [Conn.Bound]
  split
  · exact h.session
  · next g pending htx => exact h.opened g pending htx
  · next htx => exact htxn htx

theorem Conn.Settled.commit {c : Conn} (h : c.Settled p) : c.commit.Settled p := by
  rw [Conn.commit]
  split
  · next g pending htx => exact ⟨h.opened g pending htx, fun g' _ hg => by cases hg⟩
  · exact ⟨h.session, fun g _ hg => by cases hg⟩

theorem Conn.Settled.rollback {c : Conn} (h : c.Settled p) : c.rollback.Settled p :=
  ⟨h.session, fun g pending hg => by cases hg⟩

theorem Conn.Settled.executeIn {c : Conn} (h : c.Settled p) {g : Settings} (hg : g.projectId = p)
    (pending : List Change) (st : Stmt) :
    (c.executeIn role locked t st g pending).1.Settled p := by
  rw [Conn.executeIn]
  split
  · exact ⟨h.session, fun g pending hg => by cases hg⟩
  · exact h
  · refine ⟨h.session, ?_⟩
    intro g' pending' htx
    obtain ⟨rfl, -⟩ := Txn.opened.inj htx
    exact hg

theorem Conn.Settled.execute {c : Conn} (h : c.Settled p) (st : Stmt) :
    (c.execute role locked t st).1.Settled p := by
  rw [Conn.execute]
  split
  · exact h.executeIn h.session _ st
  · next g pending htx => exact h.executeIn (h.opened g pending htx) _ st
  · exact h

theorem Conn.Bound.executeIn {c : Conn} (h : c.Bound p) {g : Settings} (hg : g.projectId = p)
    {pending : List Change} {st : Stmt}
    (hok : (c.executeIn role locked t st g pending).2.2 ≠ .failed) :
    (c.executeIn role locked t st g pending).1.Bound p := by
  rw [Conn.executeIn] at hok ⊢
  split at hok
  · exact absurd rfl hok
  · exact h
  · exact hg

theorem Conn.Bound.execute {c : Conn} (h : c.Bound p) {st : Stmt}
    (hok : (c.execute role locked t st).2.2 ≠ .failed) :
    (c.execute role locked t st).1.Bound p := by
  have hb := h
  rw [Conn.Bound] at hb
  rw [Conn.execute] at hok ⊢
  cases htx : c.txn with
  | idle =>
    rw [htx] at hok hb
    exact h.executeIn hb hok
  | opened g pending =>
    rw [htx] at hok hb
    exact h.executeIn hb hok
  | aborted =>
    rw [htx] at hb
    exact hb.elim

/-- Within its identity a transaction sees all rows of the tenant, its own changes included. -/
theorem Conn.Bound.select (hrole : role.subject = true) (hp : p ≠ "") {c : Conn} (h : c.Bound p)
    (cond : Row → Bool) :
    (c.execute role locked t (.select cond)).2.2 =
      .rows ((mine p (applyAll c.changes t)).filter cond) := by
  have hsees : ∀ g : Settings, g.projectId = p → ∀ l : List Row,
      l.filter (fun r => role.sees g r.id) = mine p l := by
    intro g hg l
    apply List.filter_congr
    intro r _
    rw [sees_subject hrole, Settings.passes, hg, bne_iff_ne.2 hp, Bool.true_and]
    rfl
  rw [Conn.Bound] at h
  cases htx : c.txn with
  | idle =>
    rw [htx] at h
    simp only [Conn.execute, htx, Conn.executeIn, Stmt.run, Conn.changes, hsees _ h]
  | opened g pending =>
    rw [htx] at h
    simp only [Conn.execute, htx, Conn.executeIn, Stmt.run, Conn.changes, hsees _ h]
  | aborted =>
    rw [htx] at h
    exact h.elim

/-- What an event makes of a borrow. -/
def after (role : Role) (b : Nat) (s : State) (w : Borrow) : Event → Option Borrow
  | .statement b' st =>
    if b' = b then
      some { w with conn := (w.conn.execute role (s.lockedFor b) s.rows st).1 }
    else some w
  | .commit b' => if b' = b then some { w with conn := w.conn.commit } else some w
  | .rollback b' => if b' = b then some { w with conn := w.conn.rollback } else some w
  | .release b' _ _ => if b' = b then none else some w
  | _ => some w

variable {w : Borrow}

theorem held_commitOf_ne {b' : Nat} (hb : b' ≠ b) (w' : Borrow) :
    (commitOf b' w' s).held b = s.held b := by
  rw [commitOf, hold_of_ne hb.symm]
  rfl

theorem held_rollbackOf_ne {b' : Nat} (hb : b' ≠ b) (w' : Borrow) :
    (rollbackOf b' w' s).held b = s.held b := by
  rw [rollbackOf, hold_of_ne hb.symm]
  rfl

theorem held_giveBack_ne {b' : Nat} (hb : b' ≠ b) (w' : Borrow) (resetFails : Bool) :
    (giveBack b' w' resetFails s).held b = s.held b :=
  hold_of_ne hb.symm

theorem held_step (h : s.held b = some w) (e : Event) :
    (step role e s).held b = after role b s w e := by
  cases e with
  | connect => exact h
  | borrow b' i context =>
    by_cases hb : b' = b
    · simp only [step, hb, h, after]
    · simp only [step, after]
      split
      · split
        · exact (hold_of_ne (Ne.symm hb)).trans h
        · exact h
      · exact h
  | statement b' st =>
    by_cases hb : b' = b
    · simp only [step, hb, h, after, if_true, hold_self]
    · simp only [step, after, if_neg hb]
      split
      · exact h
      · exact (hold_of_ne (Ne.symm hb)).trans h
  | commit b' =>
    by_cases hb : b' = b
    · simp only [step, hb, h, after, if_true, commitOf, hold_self]
    · simp only [step, after, if_neg hb]
      split
      · exact h
      · exact (held_commitOf_ne hb _).trans h
  | rollback b' =>
    by_cases hb : b' = b
    · simp only [step, hb, h, after, if_true, rollbackOf, hold_self]
    · simp only [step, after, if_neg hb]
      split
      · exact h
      · exact (held_rollbackOf_ne hb _).trans h
  | release b' raised resetFails =>
    by_cases hb : b' = b
    · simp only [step, hb, h, after, if_true, giveBack, hold_self]
    · simp only [step, after, if_neg hb]
      split
      · exact h
      · rw [held_giveBack_ne hb]
        split
        · exact (held_rollbackOf_ne hb _).trans h
        · exact (held_commitOf_ne hb _).trans h

def State.BoundAt (p : String) (b : Nat) (s : State) : Prop :=
  ∃ w, s.held b = some w ∧ w.context = .projectContext p ∧ w.conn.Bound p

def State.SettledAt (p : String) (b : Nat) (s : State) : Prop :=
  ∃ w, s.held b = some w ∧ w.context = .projectContext p ∧ w.conn.Settled p

theorem boundAt_commit (h : s.BoundAt p b) : (step role (.commit b) s).SettledAt p b := by
  obtain ⟨w, hw, hctx, hbound⟩ := h
  refine ⟨{ w with conn := w.conn.commit }, ?_, hctx, hbound.commit⟩
  rw [held_step hw, after, if_pos rfl]

theorem boundAt_step {e : Event} (h : s.BoundAt p b) (he : steady role b e s = true) :
    (step role e s).BoundAt p b := by
  obtain ⟨w, hw, hctx, hbound⟩ := h
  have hstep : (step role e s).held b = after role b s w e := held_step hw e
  cases e with
  | connect | borrow => exact ⟨w, hstep, hctx, hbound⟩
  | statement b' st =>
    rw [after] at hstep
    by_cases hb : b' = b
    · rw [if_pos hb] at hstep
      refine ⟨_, hstep, hctx, hbound.execute ?_⟩
      simpa only [steady, hw, hb, ne_eq, not_true_eq_false, decide_false, Bool.false_or,
        decide_eq_true_eq] using he
    · rw [if_neg hb] at hstep
      exact ⟨w, hstep, hctx, hbound⟩
  | commit b' =>
    rw [after] at hstep
    by_cases hb : b' = b
    · rw [if_pos hb] at hstep
      have hsettled := hbound.commit
      refine ⟨_, hstep, hctx, hsettled.bound ?_⟩
      rw [Conn.commit]
      split
      · exact Txn.noConfusion
      · exact Txn.noConfusion
    · rw [if_neg hb] at hstep
      exact ⟨w, hstep, hctx, hbound⟩
  | rollback b' | release b' =>
    have hb : b' ≠ b := of_decide_eq_true he
    rw [after, if_neg hb] at hstep
    exact ⟨w, hstep, hctx, hbound⟩

theorem settledAt_step {e : Event} (h : s.SettledAt p b) (he : ends b e = false) :
    (step role e s).SettledAt p b := by
  obtain ⟨w, hw, hctx, hsettled⟩ := h
  have hstep : (step role e s).held b = after role b s w e := held_step hw e
  cases e with
  | connect | borrow => exact ⟨w, hstep, hctx, hsettled⟩
  | statement b' st =>
    rw [after] at hstep
    split at hstep
    · exact ⟨_, hstep, hctx, hsettled.execute st⟩
    · exact ⟨w, hstep, hctx, hsettled⟩
  | commit b' =>
    rw [after] at hstep
    split at hstep
    · exact ⟨_, hstep, hctx, hsettled.commit⟩
    · exact ⟨w, hstep, hctx, hsettled⟩
  | rollback b' =>
    rw [after] at hstep
    split at hstep
    · exact ⟨_, hstep, hctx, hsettled.rollback⟩
    · exact ⟨w, hstep, hctx, hsettled⟩
  | release b' raised resetFails =>
    rw [after, if_neg (of_decide_eq_false he)] at hstep
    exact ⟨w, hstep, hctx, hsettled⟩

theorem boundAt_borrow (hclean : ∀ c ∈ s.idle, c = {}) (hfree : s.held b = none) {i : Nat}
    (hidle : i < s.idle.length) (hp : isBlank p = false) :
    (step role (.borrow b i (.projectContext p)) s).BoundAt p b := by
  have hconn : s.idle[i]? = some {} := by
    rw [List.getElem?_eq_getElem hidle, hclean _ (List.getElem_mem hidle)]
  simp only [step, hfree, hconn, Context.accepted, hp, Bool.not_false, if_true]
  exact ⟨_, hold_self, rfl, rfl⟩

/-- While a borrow in the context of a tenant has neither ended nor lost a transaction, or once it
has committed one before it lost any, each of its transactions sees exactly the rows of the tenant,
with its own changes. -/
theorem context_lasts (hrole : role.violations = []) {rows : List Row}
    {before calm later : List Event} {i : Nat}
    (hfree : (runSteps (step role) before { rows := rows }).held b = none)
    (hidle : i < (runSteps (step role) before { rows := rows }).idle.length)
    (hp : isBlank p = false)
    (hcalm : Allowed (step role) (steady role b) calm
      (runSteps (step role) (before ++ [.borrow b i (.projectContext p)]) { rows := rows }))
    (hlater : later = [] ∨ later.head? = some (.commit b))
    (hends : ∀ e ∈ later, ends b e = false) (cond : Row → Bool) :
    let s := runSteps (step role)
      (before ++ [.borrow b i (.projectContext p)] ++ calm ++ later) { rows := rows }
    ∃ w, s.held b = some w ∧ (w.conn.txn = .aborted ∨
      told role p (.statement b (.select cond)) s =
        some (.rows ((mine p (applyAll w.conn.changes s.rows)).filter cond))) := by
  have hne : p ≠ "" := by
    rintro rfl
    cases hp
  have hborrow : (runSteps (step role) (before ++ [.borrow b i (.projectContext p)])
      { rows := rows }).BoundAt p b := by
    have hclean := (alike_run (p := p) (t := rows) hrole rfl before).1.clean
    have hstep : (step role (.borrow b i (.projectContext p))
        (runSteps (step role) before { rows := rows })).BoundAt p b :=
      boundAt_borrow hclean hfree hidle hp
    rw [runSteps_append]
    exact hstep
  have hbound := hcalm.keeps (I := State.BoundAt p b) (fun e s h he => boundAt_step h he) hborrow
  rw [← runSteps_append] at hbound
  have hselect : ∀ s : State, ∀ w, s.held b = some w → w.context = .projectContext p →
      w.conn.Bound p → told role p (.statement b (.select cond)) s =
        some (.rows ((mine p (applyAll w.conn.changes s.rows)).filter cond)) := by
    intro s w hw hctx hb
    simp only [told, hw, hctx, if_true, hb.select (subject_of_unviolated hrole) hne]
  dsimp only
  cases later with
  | nil =>
    rw [List.append_nil]
    obtain ⟨w, hw, hctx, hb⟩ := hbound
    exact ⟨w, hw, .inr (hselect _ w hw hctx hb)⟩
  | cons e rest =>
    obtain rfl : e = .commit b := by
      rcases hlater with hnil | hhead
      · cases hnil
      · exact Option.some.inj hhead
    have hsettled : (runSteps (step role)
        (before ++ [.borrow b i (.projectContext p)] ++ calm ++ .commit b :: rest)
        { rows := rows }).SettledAt p b := by
      rw [runSteps_append, runSteps]
      exact runSteps_keeps (I := State.SettledAt p b)
        (fun e he s h => settledAt_step h (hends e (List.mem_cons_of_mem _ he)))
        (boundAt_commit hbound)
    obtain ⟨w, hw, hctx, hs⟩ := hsettled
    by_cases htxn : w.conn.txn = .aborted
    · exact ⟨w, hw, .inl htxn⟩
    · exact ⟨w, hw, .inr (hselect _ w hw hctx (hs.bound htxn))⟩

theorem context_lasts_rollback :
    let role : Role := ⟨"tapps_runtime", false, false, []⟩
    let insert := Stmt.insert ⟨⟨"alpha", "dev", "k"⟩, "one"⟩
    let s := runSteps (step role)
      ([.connect] ++ [.borrow 0 0 (.projectContext "alpha")] ++ [.statement 0 insert] ++
        [.commit 0, .rollback 0]) { rows := [⟨⟨"beta", "dev", "k"⟩, "x"⟩] }
    ∃ w, s.held 0 = some w ∧ (w.conn.txn = .aborted ∨
      told role "alpha" (.statement 0 (.select (fun _ => true))) s =
        some (.rows ((mine "alpha" (applyAll w.conn.changes s.rows)).filter (fun _ => true)))) :=
  context_lasts rfl rfl (by decide) (by decide) (by decide) (.inr rfl) (by decide) _

end Identity

end TappsBrain.TenantPool
