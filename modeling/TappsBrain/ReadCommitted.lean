import TappsBrain.Lib.Run
import TappsBrain.Recorder

namespace TappsBrain
open Lib
set_option autoImplicit true
set_option relaxedAutoImplicit false

/-- An edge a transaction has to write: with the cardinality check of `upsert_edge`, in strict mode
or not, or without one. -/
structure EdgeWrite where
  args : EdgeArgs
  confidence : ℚ
  check : Option Bool
deriving DecidableEq

/-- The statement a transaction makes next for the first edge it has to write. -/
inductive Phase where
  | lookup
  | check
  | insert
  | reinforce (id : Nat)
deriving DecidableEq

/-- An open transaction, with the row versions it has written. -/
structure Session where
  conn : Nat
  brainId : String
  now : Stamp
  todo : List EdgeWrite
  phase : Phase := .lookup
  /-- The entities it has written itself. -/
  entities : List Nat := []
  own : Table EdgeRow.id := Table.empty
deriving DecidableEq

/-- The committed rows and the open transactions. -/
structure ReadCommitted where
  db : Graph
  sessions : Table Session.conn := Table.empty
deriving DecidableEq

/-- What a statement of the session sees: the rows committed before it starts, plus its own. -/
def Session.view (s : Session) (db : Graph) : Graph := { db with edges := db.edges.merge s.own }

def Session.hasEntity (s : Session) (w : GraphWorld) (db : Graph) (id : Nat) : Bool :=
  s.entities.contains id || TappsBrain.hasEntity w db id

/-- The session after the edge at hand. -/
def Session.next (s : Session) : Session := { s with todo := s.todo.tail, phase := .lookup }

/-- The session holds a version of the row, and with it the row's lock. -/
def Session.holds (s : Session) (id : Nat) : Bool := s.own.contains id

/-- No other open transaction holds the row. -/
def ReadCommitted.unlocked (m : ReadCommitted) (conn id : Nat) : Bool :=
  m.sessions.values.all (fun s => s.conn = conn || !s.holds id)

/-- Another open transaction has written the same triple, so that an insert waits for it. -/
def ReadCommitted.tripleTaken (m : ReadCommitted) (conn : Nat) (brain : String) (s : Nat)
    (predicate : String) (o : Nat) : Bool :=
  m.sessions.values.any (fun t => t.conn ≠ conn && t.own.values.any (EdgeRow.isTriple brain s predicate o))

def ReadCommitted.put (m : ReadCommitted) (s : Session) : ReadCommitted :=
  { m with sessions := m.sessions.set s }

def ReadCommitted.close (m : ReadCommitted) (conn : Nat) : ReadCommitted :=
  { m with sessions := m.sessions.pop conn }

/-- The next statement of a session on the edge at hand; one that fails ends the transaction. -/
def makeStatement (w : GraphWorld) (newS newD : ℚ) (m : ReadCommitted) (s : Session) (wr : EdgeWrite) :
    ReadCommitted :=
  match wr.args.subject, wr.args.object with
  | .uuid subject, .uuid object =>
    let view := s.view m.db
    match s.phase with
    | .lookup =>
      match activeEdge view s.brainId subject wr.args.predicate object with
      | some e => m.put { s with phase := .reinforce e.id }
      | none => m.put { s with phase := if wr.check.isSome then .check else .insert }
    | .reinforce id =>
      if m.unlocked s.conn id then
        match view.edges.get? id with
        | some e =>
          if e.brainId = s.brainId && e.reinforceDue s.now then
            m.put { s.next with own := s.own.set (e.reinforced s.now newS newD) }
          else m.put s.next
        | none => m.put s.next
      else m
    | .check =>
      match cardinalityRefusal w.unicode (wr.check.getD false) view
          ⟨s.brainId, subject, wr.args.predicate⟩ with
      | some _ => m.close s.conn
      | none => m.put { s with phase := .insert }
    | .insert =>
      if m.tripleTaken s.conn s.brainId subject wr.args.predicate object then m
      else if (activeEdge view s.brainId subject wr.args.predicate object).isSome then m.close s.conn
      else if s.hasEntity w m.db subject && s.hasEntity w m.db object then
        let row := newEdge s.brainId s.now m.db.nextId subject object wr.args wr.confidence
        { m with db := m.db.drawn }.put { s.next with own := s.own.set row }
      else m.close s.conn
  | _, _ => m.close s.conn

inductive GraphAction where
  /-- A connection block of `upsert_edge`, `record` or `record_many` begins. -/
  | begin (s : Session)
  /-- The session makes its next statement; the numbers are those of `_compute_fsrs`. -/
  | statement (conn : Nat) (newS newD : ℚ)
  | commit (conn : Nat)
  | rollback (conn : Nat)
  /-- The second transaction of `supersede_edge`, of one statement. -/
  | pointer (brain : String) (now : Stamp) (new old : Nat)

/-- `SUPERSEDE_EDGE_SQL` on the committed rows. -/
def superseded (g : Graph) (brain : String) (now : Stamp) (new old : Nat) : Graph :=
  (supersedeEdgeRow brain now new (.uuid old) g).2

/-- One step of one of the connections; a step that has to wait leaves everything as it is. -/
def GraphAction.step (w : GraphWorld) : GraphAction → ReadCommitted → ReadCommitted
  | .begin s, m =>
    if (m.sessions.get? s.conn).isSome then m
    else m.put { s with phase := .lookup, own := Table.empty }
  | .statement conn newS newD, m =>
    match m.sessions.get? conn with
    | none => m
    | some s =>
      match s.todo with
      | [] => m
      | wr :: _ => makeStatement w newS newD m s wr
  | .commit conn, m =>
    match m.sessions.get? conn with
    | none => m
    | some s =>
      if s.todo = [] then { m.close conn with db := s.view m.db } else m
  | .rollback conn, m => m.close conn
  | .pointer brain now new old, m =>
    if m.sessions.values.all (fun s => !s.holds old) then { m with db := superseded m.db brain now new old }
    else m

/-- The transaction `upsert_edge` opens once it has its evidence. -/
def upsertSession (k : GraphConfig) (conn : Nat) (now : Stamp) (a : EdgeArgs) : Session where
  conn := conn
  brainId := k.brainId
  now := now
  todo := [⟨a, edgeConfidence a, some k.strictPredicates⟩]

/-- The transaction of `record` or `record_many` from its first edge on, with its entities and the
edges whose endpoints are resolved. -/
def recordSession (k : RecorderConfig) (conn : Nat) (now : Stamp) (entities : List Nat)
    (edges : List (EdgeSpec × IdText × IdText)) : Session where
  conn := conn
  brainId := k.brainId
  now := now
  entities := entities
  todo := edges.map (fun e => ⟨Recorder.edgeArgs k e.1 e.2.1 e.2.2, e.1.confidence.1, none⟩)

/-- One open transaction on the graph. -/
def sole (g : Graph) (s : Session) : ReadCommitted := { db := g, sessions := Table.empty.set s }

section Alone
variable {w : GraphWorld} {g h : Graph} {s t : Session}

theorem sole_put (hc : t.conn = s.conn) : (sole g s).put t = sole g t := by
  rw [sole, ReadCommitted.put, sole, Table.set_set Table.empty hc.symm]

theorem sole_close : (sole g s).close s.conn = { db := g } := by
  rw [sole, ReadCommitted.close]
  congr 1
  apply Table.ext_values
  simp [Table.empty, Table.set, Table.put, Table.pop]

theorem sole_step {wr : EdgeWrite} {rest : List EdgeWrite} {newS newD : ℚ}
    (ht : s.todo = wr :: rest) :
    (GraphAction.statement s.conn newS newD).step w (sole g s) =
      makeStatement w newS newD (sole g s) s wr := by
  have hget : (sole g s).sessions.get? s.conn = some s := Table.get?_set_self _ s
  simp only [GraphAction.step, hget, ht]

theorem sole_commit (ht : s.todo = []) :
    (GraphAction.commit s.conn).step w (sole g s) = { db := s.view g } := by
  have hget : (sole g s).sessions.get? s.conn = some s := Table.get?_set_self _ s
  simp only [GraphAction.step, hget, ht, if_true, sole_close]
  rfl

theorem sole_unlocked (id : Nat) : (sole g s).unlocked s.conn id = true := by
  simp [ReadCommitted.unlocked, sole, Table.empty, Table.set, Table.put]

theorem sole_tripleTaken {brain predicate : String} {a b : Nat} :
    (sole g s).tripleTaken s.conn brain a predicate b = false := by
  simp [ReadCommitted.tripleTaken, sole, Table.empty, Table.set, Table.put]

section Statements
variable {wr : EdgeWrite} {subject object : Nat} (newS newD : ℚ) (hs : wr.args.subject = .uuid subject)
  (hobj : wr.args.object = .uuid object) (hview : s.view g = g)
include hs hobj hview

theorem sole_lookup {e : EdgeRow} (hp : s.phase = .lookup)
    (he : activeEdge g s.brainId subject wr.args.predicate object = some e) :
    makeStatement w newS newD (sole g s) s wr = sole g { s with phase := .reinforce e.id } := by
  simp only [makeStatement, hs, hobj, hp, show (sole g s).db = g from rfl, hview, he]
  exact sole_put rfl

theorem sole_lookup_absent (hp : s.phase = .lookup)
    (hn : activeEdge g s.brainId subject wr.args.predicate object = none) :
    makeStatement w newS newD (sole g s) s wr =
      sole g { s with phase := if wr.check.isSome then .check else .insert } := by
  simp only [makeStatement, hs, hobj, hp, show (sole g s).db = g from rfl, hview, hn]
  exact sole_put rfl

theorem sole_reinforce {e : EdgeRow} (hp : s.phase = .reinforce e.id)
    (he : g.edges.get? e.id = some e) (hb : e.brainId = s.brainId) :
    makeStatement w newS newD (sole g s) s wr = sole g (if e.reinforceDue s.now then
      { s.next with own := s.own.set (e.reinforced s.now newS newD) } else s.next) := by
  simp only [makeStatement, hs, hobj, hp, sole_unlocked, if_true,
    show (sole g s).db = g from rfl, hview, he, hb, decide_true, Bool.true_and]
  split
  · exact sole_put rfl
  · exact sole_put rfl

theorem sole_check {strict : Bool} (hp : s.phase = .check) (hc : wr.check = some strict)
    (hn : cardinalityRefusal w.unicode strict g ⟨s.brainId, subject, wr.args.predicate⟩ = none) :
    makeStatement w newS newD (sole g s) s wr = sole g { s with phase := .insert } := by
  simp only [makeStatement, hs, hobj, hp, hc, Option.getD_some, show (sole g s).db = g from rfl,
    hview, hn]
  exact sole_put rfl

theorem sole_insert (hp : s.phase = .insert)
    (hn : activeEdge g s.brainId subject wr.args.predicate object = none)
    (hk : (hasEntity w g subject && hasEntity w g object) = true) :
    makeStatement w newS newD (sole g s) s wr = sole g.drawn { s.next with
      own := s.own.set (newEdge s.brainId s.now g.nextId subject object wr.args wr.confidence) } := by
  have hk' : (s.hasEntity w g subject && s.hasEntity w g object) = true := by
    simp only [Bool.and_eq_true] at hk ⊢
    simp only [Session.hasEntity, hk.1, hk.2, Bool.or_true, and_self]
  simp only [makeStatement, hs, hobj, hp, sole_tripleTaken, Bool.false_eq_true, if_false,
    show (sole g s).db = g from rfl, hview, hn, Option.isSome_none, hk', if_true]
  exact sole_put (g := g.drawn) (s := s) rfl

end Statements

/-- A transaction that writes one edge and is not interrupted does what the store or the recorder
does in its connection block. -/
theorem session_sole {wr : EdgeWrite} {id : Nat} (ht : s.todo = [wr]) (hp : s.phase = .lookup)
    (ho : s.own = Table.empty)
    (hw : EdgeWritten w s.brainId s.now wr.args wr.confidence g id h)
    (hchk : ∀ strict subject object, wr.check = some strict → wr.args.subject = .uuid subject →
      wr.args.object = .uuid object →
      activeEdge g s.brainId subject wr.args.predicate object = none →
      cardinalityRefusal w.unicode strict g ⟨s.brainId, subject, wr.args.predicate⟩ = none) :
    ∃ actions, runSteps (GraphAction.step w) actions (sole g s) = { db := h } := by
  have hview : ∀ t : Session, t.own = Table.empty → t.view g = g := by
    intro t ht
    rw [Session.view, ht]
    rfl
  cases hw with
  | @debounced subject object e hs hobj he hd =>
    obtain ⟨hm, hb⟩ := activeEdge_triple he
    refine ⟨[.statement s.conn 0 0, .statement s.conn 0 0, .commit s.conn], ?_⟩
    let s₁ : Session := { s with phase := .reinforce e.id }
    have h₂ := sole_reinforce (w := w) (s := s₁) 0 0 hs hobj (hview s₁ ho) rfl
      (Table.get?_of_mem hm) (EdgeRow.isTriple_brain hb)
    rw [hd, if_neg Bool.false_ne_true] at h₂
    rw [runSteps, sole_step ht, sole_lookup _ _ hs hobj (hview s ho) hp he, runSteps,
      show s.conn = s₁.conn from rfl, sole_step (s := s₁) ht, h₂, runSteps,
      show s₁.conn = s₁.next.conn from rfl, sole_commit (by rw [Session.next, ht]; rfl), runSteps,
      hview s₁.next ho]
  | @reinforced subject object e newS newD hs hobj he hd =>
    obtain ⟨hm, hb⟩ := activeEdge_triple he
    refine ⟨[.statement s.conn newS newD, .statement s.conn newS newD, .commit s.conn], ?_⟩
    let s₁ : Session := { s with phase := .reinforce e.id }
    let s₂ : Session := { s₁.next with own := s₁.own.set (e.reinforced s₁.now newS newD) }
    have h₂ := sole_reinforce (w := w) (s := s₁) newS newD hs hobj
      (hview s₁ ho) rfl (Table.get?_of_mem hm) (EdgeRow.isTriple_brain hb)
    rw [if_pos hd] at h₂
    rw [runSteps, sole_step ht, sole_lookup _ _ hs hobj (hview s ho) hp he, runSteps,
      show s.conn = s₁.conn from rfl, sole_step (s := s₁) ht, h₂, runSteps,
      show s₁.conn = s₂.conn from rfl, sole_commit (s := s₂) (by simp [s₂, s₁, Session.next, ht]),
      runSteps, Session.view, show s₂.own = s.own.set (e.reinforced s.now newS newD) from rfl, ho]
    rfl
  | @inserted subject object hs hobj hn hk =>
    let s₁ : Session := { s with phase := .insert }
    let row := newEdge s.brainId s.now g.nextId subject object wr.args wr.confidence
    let s₂ : Session := { s₁.next with own := s₁.own.set row }
    have hinsert : runSteps (GraphAction.step w) [.statement s.conn 0 0, .commit s.conn]
        (sole g s₁) = { db := { g.drawn with edges := g.edges.set row } } := by
      have h₂ := sole_insert (w := w) (s := s₁) 0 0 hs hobj (hview s₁ ho) rfl
        hn hk
      rw [runSteps, show s.conn = s₁.conn from rfl, sole_step (s := s₁) ht, h₂, runSteps,
        show s₁.conn = s₂.conn from rfl, sole_commit (s := s₂) (by simp [s₂, s₁, Session.next, ht]),
        runSteps, Session.view, show s₂.own = s.own.set _ from rfl, ho]
      rfl
    have hlook := sole_lookup_absent (w := w) 0 0 hs hobj (hview s ho) hp hn
    cases hc : wr.check with
    | none =>
      rw [hc] at hlook
      refine ⟨[.statement s.conn 0 0, .statement s.conn 0 0, .commit s.conn], ?_⟩
      rw [runSteps, sole_step ht, hlook]
      exact hinsert
    | some strict =>
      rw [hc] at hlook
      refine ⟨[.statement s.conn 0 0, .statement s.conn 0 0, .statement s.conn 0 0,
        .commit s.conn], ?_⟩
      let s₀ : Session := { s with phase := .check }
      have hlook : makeStatement w 0 0 (sole g s) s wr = sole g s₀ := hlook
      have h₁ := sole_check (w := w) (s := s₀) 0 0 hs hobj (hview s₀ ho) rfl hc
        (hchk strict subject object hc hs hobj hn)
      rw [runSteps, sole_step ht, hlook, runSteps, show s.conn = s₀.conn from rfl,
        sole_step (s := s₀) ht, h₁]
      exact hinsert

/-- `upsert_edge` past its evidence check, on a connection of its own. -/
theorem upsertSession_sole {k : GraphConfig} {conn : Nat} {now : Stamp} {a : EdgeArgs} {id : Nat}
    (hr : GraphStore.upsertEdgeBlock w k a now g = (.ok id, h)) :
    ∃ actions, runSteps (GraphAction.step w) actions (sole g (upsertSession k conn now a)) =
      { db := h } := by
  apply session_sole rfl rfl rfl (GraphStore.upsertEdgeBlock_writes hr)
  intro strict subject object hc hs hobj hn
  cases hc
  have hblock := GraphStore.upsertEdgeBlock_fresh (w := w) (k := k) now hs hobj hn
  cases href : cardinalityRefusal w.unicode k.strictPredicates g
      ⟨k.brainId, subject, a.predicate⟩ with
  | none => exact href
  | some msg =>
    rw [href] at hblock
    rw [hblock] at hr
    cases hr

/-- The edge statements of `record` for one edge, on a connection of their own. -/
theorem recordSession_sole {k : RecorderConfig} {conn : Nat} {now : Stamp} {spec : EdgeSpec}
    {subject object : IdText} {entities : List Nat} {id : Nat}
    (hr : Recorder.writeEdge w k now (Recorder.edgeArgs k spec subject object) g = (.ok id, h)) :
    ∃ actions, runSteps (GraphAction.step w) actions
      (sole g (recordSession k conn now entities [(spec, subject, object)])) = { db := h } := by
  apply session_sole rfl rfl rfl (Recorder.writeEdge_writes hr)
  intro strict subject object hc
  cases hc

end Alone
end TappsBrain
