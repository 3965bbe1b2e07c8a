import TappsBrain.Graph

namespace TappsBrain
open Lib
set_option autoImplicit true
set_option relaxedAutoImplicit false

/-- What a `PostgresKnowledgeGraphStore` is built with. -/
structure GraphConfig where
  brainId : String
  evidenceRequired : Bool := true
  strictPredicates : Bool := false
deriving DecidableEq

/-- `_INFERRED_CONFIDENCE_CAP`. -/
def INFERRED_CONFIDENCE_CAP : ℚ := 4 / 10

/-- The confidence an edge is inserted with. -/
def edgeConfidence (a : EdgeArgs) : ℚ :=
  if a.evidenceId.isNone then min a.confidence INFERRED_CONFIDENCE_CAP else a.confidence

def evidenceRequiredMessage : String :=
  "upsert_edge: evidence_id is required when evidence_required=True. " ++
  "Call attach_evidence() first, then pass the returned ID here. " ++
  "Set evidence_required=False on the backend for the inferred path " ++
  "(confidence will be capped at 0.4)."

def attachmentMessage : String :=
  "attach_evidence: exactly one of edge_id or entity_id must be given."

/-- The refusal of `_assert_cardinality_allows`, if it refuses. -/
def cardinalityRefusal (u : Unicode) (strict : Bool) (g : Graph) (σ : Slot) : Option String :=
  match g.predicates.get? (σ.brainId, σ.predicate) with
  | none =>
    if strict then
      some (s!"predicate {u.repr σ.predicate} is not registered and this project " ++
        "runs in strict mode; register it first")
    else none
  | some p =>
    match p.maxCount with
    | none => none
    | some m =>
      if m.1 ≤ (slotObjects g σ).card then
        some (s!"predicate {u.repr σ.predicate} declares max_count={m.1}; " ++
          s!"subject already holds {(slotObjects g σ).card} object(s), so this edge would exceed it")
      else none

/-- `_assert_cardinality_allows`. -/
def assertCardinalityAllows (w : GraphWorld) (k : GraphConfig) (subject : IdText)
    (predicate : String) : Tx Unit := do
  let s ← castUuid subject
  match ← Prog.read (fun g => cardinalityRefusal w.unicode k.strictPredicates g
      ⟨k.brainId, s, predicate⟩) with
  | none => pure ()
  | some msg => Prog.raise (.conflict msg)

theorem assertCardinalityAllows_run (w : GraphWorld) (k : GraphConfig) (s : Nat)
    (predicate : String) (g : Graph) :
    assertCardinalityAllows w k (.uuid s) predicate g =
      match cardinalityRefusal w.unicode k.strictPredicates g ⟨k.brainId, s, predicate⟩ with
      | none => (.ok (), g)
      | some msg => (.error (.conflict msg), g) := by
  change (match cardinalityRefusal w.unicode k.strictPredicates g ⟨k.brainId, s, predicate⟩ with
    | none => (pure () : Tx Unit)
    | some msg => Prog.raise (.conflict msg)) g = _
  cases cardinalityRefusal w.unicode k.strictPredicates g ⟨k.brainId, s, predicate⟩ <;> rfl

/-- The edge `supersede_edge` asks `upsert_edge` for. -/
def replacement (a : EdgeArgs) : EdgeArgs :=
  { a with edgeClass := none, layer := none, profileName := none, source := "agent" }

/-- What the statements that write one edge leave, when they return. -/
inductive EdgeWritten (w : GraphWorld) (brain : String) (now : Stamp) (a : EdgeArgs) (c : ℚ)
    (g : Graph) : Nat → Graph → Prop
  | debounced {s o : Nat} {e : EdgeRow} (hs : a.subject = .uuid s) (ho : a.object = .uuid o)
      (he : activeEdge g brain s a.predicate o = some e) (hd : e.reinforceDue now = false) :
      EdgeWritten w brain now a c g e.id g
  | reinforced {s o : Nat} {e : EdgeRow} {newS newD : ℚ} (hs : a.subject = .uuid s)
      (ho : a.object = .uuid o) (he : activeEdge g brain s a.predicate o = some e)
      (hd : e.reinforceDue now = true) :
      EdgeWritten w brain now a c g e.id { g with edges := g.edges.set (e.reinforced now newS newD) }
  | inserted {s o : Nat} (hs : a.subject = .uuid s) (ho : a.object = .uuid o)
      (hn : activeEdge g brain s a.predicate o = none)
      (hk : (hasEntity w g s && hasEntity w g o) = true) :
      EdgeWritten w brain now a c g g.nextId
        { g.drawn with edges := g.edges.set (newEdge brain now g.nextId s o a c) }

theorem activeEdge_triple {g : Graph} {brain : String} {s o : Nat} {predicate : String}
    {e : EdgeRow} (h : activeEdge g brain s predicate o = some e) :
    e ∈ g.edges.values ∧ e.isTriple brain s predicate o = true :=
  ⟨List.mem_of_find?_eq_some h, List.find?_some h⟩

theorem EdgeRow.isTriple_brain {e : EdgeRow} {brain : String} {s o : Nat} {predicate : String}
    (h : e.isTriple brain s predicate o = true) : e.brainId = brain := by
  simp only [EdgeRow.isTriple, Bool.and_eq_true, decide_eq_true_eq] at h
  exact h.1.1.1.1

/-- The reuse of an active edge: its FSRS columns and `REINFORCE_EDGE_SQL`. -/
theorem EdgeWritten.of_existing {w : GraphWorld} {brain : String} {now : Stamp} {a : EdgeArgs}
    {c : ℚ} {g h : Graph} {s o : Nat} {e : EdgeRow} {newS newD : ℚ} {r : Option EdgeRow}
    (hs : a.subject = .uuid s) (ho : a.object = .uuid o)
    (he : activeEdge g brain s a.predicate o = some e)
    (hr : reinforceEdgeRow brain now (.uuid e.id) newS newD g = (.ok r, h)) :
    EdgeWritten w brain now a c g e.id h := by
  obtain ⟨hm, ht⟩ := activeEdge_triple he
  rw [reinforceEdgeRow, updateEdge_run, Table.get?_of_mem hm] at hr
  dsimp only at hr
  split at hr
  · next hd =>
    cases hr
    rw [Bool.and_eq_true] at hd
    exact .reinforced hs ho he hd.2
  · next hd =>
    cases hr
    simp only [EdgeRow.isTriple_brain ht, decide_true, Bool.true_and, Bool.not_eq_true] at hd
    exact .debounced hs ho he hd

namespace GraphStore

/-- `PostgresKnowledgeGraphStore.upsert_entity`. -/
def upsertEntity (w : GraphWorld) (k : GraphConfig) (a : EntityArgs) : Tx Nat :=
  transaction w (fun now =>
    upsertEntityRow w k.brainId now { a with aliases := a.aliases.map w.unicode.lower })

/-- The reuse branch of `upsert_edge`. -/
def reinforceExisting (w : GraphWorld) (k : GraphConfig) (now : Stamp) (layer : Option String)
    (existing : EdgeRow) : Tx Unit := do
  let (newS, newD) ← computeFsrs w existing.stability existing.difficulty layer
    existing.lastReinforced existing.updatedAt true
  let _ ← reinforceEdgeRow k.brainId now (.uuid existing.id) newS newD
  pure ()

/-- The connection block of `upsert_edge`. -/
def upsertEdgeBlock (w : GraphWorld) (k : GraphConfig) (a : EdgeArgs) (now : Stamp) : Tx Nat := do
  match ← getActiveEdge k.brainId a.subject a.predicate a.object with
  | some existing => do
    reinforceExisting w k now a.layer existing
    pure existing.id
  | none => do
    assertCardinalityAllows w k a.subject a.predicate
    insertEdge w k.brainId now a (edgeConfidence a)

theorem reinforceExisting_ok {w : GraphWorld} {k : GraphConfig} {now : Stamp}
    {layer : Option String} {e : EdgeRow} {g h : Graph} {u : Unit}
    (hr : reinforceExisting w k now layer e g = (.ok u, h)) :
    ∃ newS newD r, reinforceEdgeRow k.brainId now (.uuid e.id) newS newD g = (.ok r, h) := by
  rw [reinforceExisting, Prog.bind_run, computeFsrs] at hr
  dsimp only at hr
  split at hr
  · next heq =>
    split at heq
    · cases heq
    · cases heq
      rw [Prog.bind_run] at hr
      split at hr
      · next r t hrow =>
        cases hr
        exact ⟨_, _, r, hrow⟩
      · cases hr
  · cases hr

theorem upsertEdgeBlock_fresh {w : GraphWorld} {k : GraphConfig} {a : EdgeArgs} {s o : Nat}
    {g : Graph} (now : Stamp) (hs : a.subject = .uuid s) (ho : a.object = .uuid o)
    (hn : activeEdge g k.brainId s a.predicate o = none) :
    upsertEdgeBlock w k a now g =
      match cardinalityRefusal w.unicode k.strictPredicates g ⟨k.brainId, s, a.predicate⟩ with
      | none => insertEdge w k.brainId now a (edgeConfidence a) g
      | some msg => (.error (.conflict msg), g) := by
  have hrun := assertCardinalityAllows_run w k s a.predicate g
  rw [upsertEdgeBlock, hs, ho, Prog.bind_run, getActiveEdge_run, hn]
  simp only [Prog.bind_run, hrun]
  cases cardinalityRefusal w.unicode k.strictPredicates g ⟨k.brainId, s, a.predicate⟩ <;> rfl

theorem upsertEdgeBlock_writes {w : GraphWorld} {k : GraphConfig} {a : EdgeArgs} {now : Stamp}
    {g h : Graph} {id : Nat} (hr : upsertEdgeBlock w k a now g = (.ok id, h)) :
    EdgeWritten w k.brainId now a (edgeConfidence a) g id h := by
  by_cases hids : ∃ s o, a.subject = .uuid s ∧ a.object = .uuid o
  · obtain ⟨s, o, hs, ho⟩ := hids
    rw [upsertEdgeBlock, hs, ho, Prog.bind_run, getActiveEdge_run] at hr
    cases he : activeEdge g k.brainId s a.predicate o with
    | some e =>
      rw [he] at hr
      dsimp only at hr
      rw [Prog.bind_run] at hr
      split at hr
      · next hre =>
        cases hr
        obtain ⟨newS, newD, r, hrow⟩ := reinforceExisting_ok hre
        exact EdgeWritten.of_existing hs ho he hrow
      · cases hr
    | none =>
      rw [he] at hr
      dsimp only at hr
      rw [Prog.bind_run, assertCardinalityAllows_run] at hr
      split at hr
      · next hc =>
        split at hc
        · cases hc
          rw [insertEdge_run hs ho, he] at hr
          split at hr
          · cases hr
          · split at hr
            · next hk =>
              cases hr
              exact .inserted hs ho he hk
            · cases hr
        · cases hc
      · cases hr
  · obtain ⟨text, ht⟩ := getActiveEdge_malformed k.brainId a.predicate g (fun s o hso => hids ⟨s, o, hso⟩)
    rw [upsertEdgeBlock, Prog.bind_run_error ht] at hr
    cases hr

/-- `PostgresKnowledgeGraphStore.upsert_edge`. -/
def upsertEdge (w : GraphWorld) (k : GraphConfig) (a : EdgeArgs) : Tx Nat :=
  if k.evidenceRequired && a.evidenceId.isNone then
    Prog.raise (.valueError evidenceRequiredMessage)
  else transaction w (upsertEdgeBlock w k a)

/-- `PostgresKnowledgeGraphStore.attach_evidence`. -/
def attachEvidence (w : GraphWorld) (k : GraphConfig) (a : EvidenceArgs) : Tx Nat :=
  if a.edgeId.isNone = a.entityId.isNone then Prog.raise (.valueError attachmentMessage)
  else transaction w (fun _ => attachEvidenceRow w k.brainId a)

/-- `GET_EDGE_FOR_REINFORCE_SQL`, which finds the edge in any brain of the tenant. -/
def getEdgeForReinforce (id : IdText) : Tx (Option EdgeRow) := do
  let i ← castUuid id
  Prog.read (fun g => g.edges.get? i)

/-- `PostgresKnowledgeGraphStore.reinforce_edge`. -/
def reinforceEdge (w : GraphWorld) (k : GraphConfig) (id : IdText) (wasUseful : Bool) : Tx Bool :=
  transaction w (fun now => do
    match ← getEdgeForReinforce id with
    | none => pure false
    | some row => do
      let (newS, newD) ← computeFsrs w row.stability row.difficulty row.layer row.lastReinforced
        row.updatedAt wasUseful
      let updated ← reinforceEdgeRow k.brainId now id newS newD
      pure updated.isSome)

/-- `PostgresKnowledgeGraphStore.mark_edge_stale`. -/
def markEdgeStale (w : GraphWorld) (k : GraphConfig) (id : IdText) (reason : Option String) :
    Tx Bool :=
  transaction w (fun now => do
    let updated ← markEdgeStaleRow k.brainId now id reason
    pure updated.isSome)

/-- `PostgresKnowledgeGraphStore.supersede_edge`: the pointer is a transaction of its own. -/
def supersedeEdge (w : GraphWorld) (k : GraphConfig) (old : IdText) (a : EdgeArgs) : Tx Nat := do
  let new ← upsertEdge w k (replacement a)
  let _ ← transaction w (fun now => supersedeEdgeRow k.brainId now new old)
  pure new

/-- `PostgresKnowledgeGraphStore.contradict_edge`. -/
def contradictEdge (w : GraphWorld) (k : GraphConfig) (id : IdText) (reason : String) : Tx Bool :=
  transaction w (fun now => do
    let updated ← contradictEdgeRow k.brainId now id reason
    pure updated.isSome)

inductive FeedbackOutcome where
  | edgeNotFound
  | unknownFeedbackType
  | helpful (positive negative confidence : ℚ)
  | misleading (positive negative confidence : ℚ) (flaggedForReview : Bool)
deriving DecidableEq, Repr

/-- `PostgresKnowledgeGraphStore.apply_edge_feedback`. -/
def applyEdgeFeedback (w : GraphWorld) (k : GraphConfig) (id : IdText) (feedbackType : String)
    (delta : ℚ) : Tx FeedbackOutcome :=
  if feedbackType = "edge_helpful" then do
    match ← transaction w (fun now => applyEdgeHelpfulRow k.brainId now id) with
    | none => pure .edgeNotFound
    | some row => do
      let _ ← reinforceEdge w k id true
      pure (.helpful row.positiveFeedbackCount row.negativeFeedbackCount row.confidence)
  else if feedbackType = "edge_misleading" then do
    match ← transaction w (fun now => applyEdgeMisleadingRow k.brainId now delta id) with
    | none => pure .edgeNotFound
    | some row =>
      pure (.misleading row.positiveFeedbackCount row.negativeFeedbackCount row.confidence
        (row.metadata.field "review_flagged" = some "true"))
  else pure .unknownFeedbackType

end GraphStore
end TappsBrain
