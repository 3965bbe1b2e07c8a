import TappsBrain.AsyncGraphStore

namespace TappsBrain
open Lib
set_option autoImplicit true
set_option relaxedAutoImplicit false

/-- A call on a knowledge-graph store. -/
inductive GraphCall where
  | upsertEntity (a : EntityArgs)
  | upsertEdge (a : EdgeArgs)
  | attachEvidence (a : EvidenceArgs)
  | reinforceEdge (id : IdText) (wasUseful : Bool)
  | supersedeEdge (old : IdText) (a : EdgeArgs)
  | contradictEdge (id : IdText) (reason : String)
  | markEdgeStale (id : IdText) (reason : Option String)

inductive GraphAnswer where
  | id (n : Nat)
  | flag (b : Bool)
deriving DecidableEq, Repr

def answering (p : Tx α) (f : α → GraphAnswer) : Tx GraphAnswer := do
  let a ← p
  pure (f a)

def GraphStore.call (w : GraphWorld) (k : GraphConfig) : GraphCall → Tx GraphAnswer
  | .upsertEntity a => answering (GraphStore.upsertEntity w k a) .id
  | .upsertEdge a => answering (GraphStore.upsertEdge w k a) .id
  | .attachEvidence a => answering (GraphStore.attachEvidence w k a) .id
  | .reinforceEdge id u => answering (GraphStore.reinforceEdge w k id u) .flag
  | .supersedeEdge old a => answering (GraphStore.supersedeEdge w k old a) .id
  | .contradictEdge id reason => answering (GraphStore.contradictEdge w k id reason) .flag
  | .markEdgeStale id reason => answering (GraphStore.markEdgeStale w k id reason) .flag

def AsyncGraphStore.call (w : GraphWorld) (k : AsyncGraphConfig) : GraphCall → Tx GraphAnswer
  | .upsertEntity a => answering (AsyncGraphStore.upsertEntity w k a) .id
  | .upsertEdge a => answering (AsyncGraphStore.upsertEdge w k a) .id
  | .attachEvidence a => answering (AsyncGraphStore.attachEvidence w k a) .id
  | .reinforceEdge id u => answering (AsyncGraphStore.reinforceEdge w k id u) .flag
  | .supersedeEdge old a => answering (AsyncGraphStore.supersedeEdge w k old a) .id
  | .contradictEdge id reason => answering (AsyncGraphStore.contradictEdge w k id reason) .flag
  | .markEdgeStale id reason => answering (AsyncGraphStore.markEdgeStale w k id reason) .flag

/-- A result as a caller compares it: the value, or the class of the exception. -/
def shown : Except GraphError α → Except ErrorClass α
  | .ok a => .ok a
  | .error e => .error e.cls

/-- The two programs give the same result or class of error from `g` and leave the same graph. -/
def SameAt (p q : Tx α) (g : Graph) : Prop := shown (p g).1 = shown (q g).1 ∧ (p g).2 = (q g).2

theorem SameAt.of_eq {p q : Tx α} {g : Graph} (h : p g = q g) : SameAt p q g := by
  constructor
  · rw [h]
  · rw [h]

theorem SameAt.bind {p q : Tx α} {f : α → Tx β} {g : Graph} (h : SameAt p q g) :
    SameAt (p >>= f) (q >>= f) g := by
  obtain ⟨hr, hg⟩ := h
  simp only [SameAt, Prog.bind_run]
  rcases hp : p g with ⟨e | a, s⟩ <;> rcases hq : q g with ⟨e' | b, t⟩ <;>
    rw [hp, hq] at hr <;> rw [hp, hq] at hg <;> simp only [shown] at hr
  · cases hg
    exact ⟨by simp only [shown, Except.error.inj hr], rfl⟩
  · cases hr
  · cases hr
  · cases hr
    cases hg
    exact ⟨rfl, rfl⟩

theorem transaction_congr {w : GraphWorld} {b c : Stamp → Tx α} {g : Graph}
    (h : ∀ now, b now g.opened = c now g.opened) :
    transaction w b g = transaction w c g := by
  simp only [transaction, h]

/-- The store without its strict mode. -/
def GraphConfig.toAsync (k : GraphConfig) : AsyncGraphConfig := ⟨k.brainId, k.evidenceRequired⟩

/-- The write would put a new edge where the registry refuses one. -/
def cardinalityBlocks (w : GraphWorld) (k : GraphConfig) (g : Graph) (a : EdgeArgs) : Bool :=
  match a.subject, a.object with
  | .uuid s, .uuid o =>
    !(k.evidenceRequired && a.evidenceId.isNone) && !w.refuses g.ticks &&
      (activeEdge g k.brainId s a.predicate o).isNone &&
      (cardinalityRefusal w.unicode k.strictPredicates g ⟨k.brainId, s, a.predicate⟩).isSome
  | _, _ => false

def GraphCall.blocked (w : GraphWorld) (k : GraphConfig) (g : Graph) : GraphCall → Bool
  | .upsertEdge a => cardinalityBlocks w k g a
  | .supersedeEdge _ a => cardinalityBlocks w k g (replacement a)
  | _ => false

theorem asyncUpsertEdgeBlock_fresh {w : GraphWorld} {k : AsyncGraphConfig} {a : EdgeArgs}
    {s o : Nat} {g : Graph} {now : Stamp} (hs : a.subject = .uuid s) (ho : a.object = .uuid o)
    (hn : activeEdge g k.brainId s a.predicate o = none) :
    AsyncGraphStore.upsertEdgeBlock w k a now g =
      insertEdge w k.brainId now a (edgeConfidence a) g := by
  rw [AsyncGraphStore.upsertEdgeBlock, hs, ho, Prog.bind_run, getActiveEdge_run, hn]

theorem upsertEdgeBlock_existing {w : GraphWorld} {k : GraphConfig} {a : EdgeArgs} {s o : Nat}
    {g : Graph} {now : Stamp} {e : EdgeRow} (hs : a.subject = .uuid s) (ho : a.object = .uuid o)
    (he : activeEdge g k.brainId s a.predicate o = some e) :
    GraphStore.upsertEdgeBlock w k a now g =
      AsyncGraphStore.upsertEdgeBlock w k.toAsync a now g := by
  rw [GraphStore.upsertEdgeBlock, AsyncGraphStore.upsertEdgeBlock, hs, ho, Prog.bind_run,
    Prog.bind_run, getActiveEdge_run, getActiveEdge_run, GraphConfig.toAsync, he]
  dsimp only
  rw [GraphStore.reinforceExisting, Prog.bind_assoc, Prog.bind_run, Prog.bind_run]
  rcases computeFsrs w e.stability e.difficulty a.layer e.lastReinforced e.updatedAt true g with
    ⟨x | ⟨newS, newD⟩, t⟩
  · rfl
  · change ((reinforceEdgeRow k.brainId now (.uuid e.id) newS newD >>= fun _ => pure ()) >>=
      fun _ => pure e.id) t = _
    rw [Prog.bind_assoc]
    rfl

theorem upsertEdgeBlock_malformed {w : GraphWorld} {k : GraphConfig} {a : EdgeArgs} {g : Graph}
    {now : Stamp} (h : ∀ s o, ¬ (a.subject = .uuid s ∧ a.object = .uuid o)) :
    GraphStore.upsertEdgeBlock w k a now g =
      AsyncGraphStore.upsertEdgeBlock w k.toAsync a now g := by
  obtain ⟨text, ht⟩ := getActiveEdge_malformed k.brainId a.predicate g h
  rw [GraphStore.upsertEdgeBlock, AsyncGraphStore.upsertEdgeBlock, GraphConfig.toAsync,
    Prog.bind_run_error ht, Prog.bind_run_error ht]

/-- An insert fails on the text of an id, the partial index or a foreign key. -/
theorem insertEdge_no_conflict (w : GraphWorld) (brain : String) (now : Stamp) (a : EdgeArgs)
    (c : ℚ) (g : Graph) (h : (insertEdge w brain now a c g).1 = .error e) :
    e.cls ≠ .conflictError := by
  by_cases hids : ∃ s o, a.subject = .uuid s ∧ a.object = .uuid o
  · obtain ⟨s, o, hs, ho⟩ := hids
    rw [insertEdge_run hs ho] at h
    split at h
    · cases h
      exact ErrorClass.noConfusion
    · split at h <;> cases h
      exact ErrorClass.noConfusion
  · obtain ⟨text, ht⟩ := insertEdge_malformed w brain now c g (fun s o hso => hids ⟨s, o, hso⟩)
    rw [ht] at h
    cases h
    exact ErrorClass.noConfusion

theorem cardinalityBlocks_iff {w : GraphWorld} {k : GraphConfig} {g : Graph} {a : EdgeArgs} :
    cardinalityBlocks w k g a = true ↔
      ∃ s o msg, a.subject = .uuid s ∧ a.object = .uuid o ∧
        (k.evidenceRequired && a.evidenceId.isNone) = false ∧ w.refuses g.ticks = false ∧
        activeEdge g k.brainId s a.predicate o = none ∧
        cardinalityRefusal w.unicode k.strictPredicates g ⟨k.brainId, s, a.predicate⟩ =
          some msg := by
  unfold cardinalityBlocks
  constructor
  · intro h
    split at h
    · next s o hs ho =>
      simp only [Bool.and_eq_true, Bool.not_eq_true', Option.isNone_iff_eq_none,
        Option.isSome_iff_exists] at h
      obtain ⟨⟨⟨hv, hc⟩, hn⟩, msg, hm⟩ := h
      exact ⟨s, o, msg, hs, ho, hv, hc, hn, hm⟩
    · cases h
  · rintro ⟨s, o, msg, hs, ho, hv, hc, hn, hm⟩
    rw [hs, ho]
    simp only [hv, hc, hn, hm, Option.isNone_none, Option.isSome_some, Bool.not_false,
      Bool.and_self]

theorem upsertEdgeBlock_same {w : GraphWorld} {k : GraphConfig} {a : EdgeArgs} {g : Graph}
    {now : Stamp} (h : ∀ s o msg, a.subject = .uuid s → a.object = .uuid o →
      activeEdge g k.brainId s a.predicate o = none →
      cardinalityRefusal w.unicode k.strictPredicates g ⟨k.brainId, s, a.predicate⟩ ≠ some msg) :
    GraphStore.upsertEdgeBlock w k a now g =
      AsyncGraphStore.upsertEdgeBlock w k.toAsync a now g := by
  by_cases hids : ∃ s o, a.subject = .uuid s ∧ a.object = .uuid o
  · obtain ⟨s, o, hs, ho⟩ := hids
    cases he : activeEdge g k.brainId s a.predicate o with
    | some e => exact upsertEdgeBlock_existing hs ho he
    | none =>
      rw [GraphStore.upsertEdgeBlock_fresh now hs ho he, asyncUpsertEdgeBlock_fresh hs ho he]
      cases hr : cardinalityRefusal w.unicode k.strictPredicates g ⟨k.brainId, s, a.predicate⟩ with
      | none => rfl
      | some msg => exact absurd hr (h s o msg hs ho he)
  · exact upsertEdgeBlock_malformed (fun s o hso => hids ⟨s, o, hso⟩)

theorem upsertEdge_same {w : GraphWorld} {k : GraphConfig} {a : EdgeArgs} {g : Graph}
    (h : cardinalityBlocks w k g a = false) :
    SameAt (GraphStore.upsertEdge w k a) (AsyncGraphStore.upsertEdge w k.toAsync a) g := by
  rw [GraphStore.upsertEdge, AsyncGraphStore.upsertEdge]
  cases hv : (k.evidenceRequired && a.evidenceId.isNone) with
  | true =>
    rw [if_pos rfl, if_pos (show (k.toAsync.evidenceRequired && a.evidenceId.isNone) = true from hv)]
    exact ⟨rfl, rfl⟩
  | false =>
    rw [if_neg Bool.false_ne_true, if_neg (show ¬ (k.toAsync.evidenceRequired &&
      a.evidenceId.isNone) = true by rw [GraphConfig.toAsync, hv]; exact Bool.false_ne_true)]
    apply SameAt.of_eq
    cases hc : w.refuses g.ticks with
    | true => simp only [transaction, hc, if_true]
    | false =>
      apply transaction_congr
      intro now
      apply upsertEdgeBlock_same
      intro s o msg hs ho he hr
      rw [cardinalityBlocks_iff.2 ⟨s, o, msg, hs, ho, hv, hc, he, hr⟩] at h
      cases h

/-- A refused write raises in one store only. -/
theorem upsertEdge_differs {w : GraphWorld} {k : GraphConfig} {a : EdgeArgs} {g : Graph}
    (h : cardinalityBlocks w k g a = true) :
    (∃ msg, (GraphStore.upsertEdge w k a g).1 = .error (.conflict msg)) ∧
      ∀ e, (AsyncGraphStore.upsertEdge w k.toAsync a g).1 = .error e → e.cls ≠ .conflictError := by
  obtain ⟨s, o, msg, hs, ho, hv, hc, hn, hm⟩ := cardinalityBlocks_iff.1 h
  rw [GraphStore.upsertEdge, AsyncGraphStore.upsertEdge, if_neg (by rw [hv]; exact Bool.false_ne_true),
    if_neg (by rw [GraphConfig.toAsync, hv]; exact Bool.false_ne_true)]
  simp only [transaction, hc, Bool.false_eq_true, if_false]
  constructor
  · refine ⟨msg, ?_⟩
    rw [GraphStore.upsertEdgeBlock_fresh (g := g.opened) _ hs ho hn,
      show cardinalityRefusal w.unicode k.strictPredicates g.opened
        ⟨k.brainId, s, a.predicate⟩ = some msg from hm]
  · intro e he
    rw [asyncUpsertEdgeBlock_fresh (g := g.opened) (k := k.toAsync) hs ho hn] at he
    apply insertEdge_no_conflict w k.toAsync.brainId (w.clock g.ticks) a (edgeConfidence a) g.opened
    rcases hr : insertEdge w k.toAsync.brainId (w.clock g.ticks) a (edgeConfidence a)
        g.opened with ⟨x | n, t⟩
    · rw [hr] at he
      exact he
    · rw [hr] at he
      cases he

theorem supersedeEdge_same {w : GraphWorld} {k : GraphConfig} {old : IdText} {a : EdgeArgs}
    {g : Graph} (h : cardinalityBlocks w k g (replacement a) = false) :
    SameAt (GraphStore.supersedeEdge w k old a) (AsyncGraphStore.supersedeEdge w k.toAsync old a) g :=
  (upsertEdge_same h).bind

/-- Without a refusal, one call does the same in both stores. -/
theorem call_same {w : GraphWorld} {k : GraphConfig} {g : Graph} (c : GraphCall)
    (h : c.blocked w k g = false) :
    SameAt (GraphStore.call w k c) (AsyncGraphStore.call w k.toAsync c) g := by
  cases c with
  | upsertEntity a => exact SameAt.of_eq rfl
  | upsertEdge a => exact (upsertEdge_same h).bind
  | attachEvidence a => exact SameAt.of_eq rfl
  | reinforceEdge id useful => exact SameAt.of_eq rfl
  | supersedeEdge old a => exact (supersedeEdge_same h).bind
  | contradictEdge id reason => exact SameAt.of_eq rfl
  | markEdgeStale id reason => exact SameAt.of_eq rfl

theorem bind_shown_error {p : Tx α} {f : α → Tx β} {g : Graph} {e : GraphError}
    (h : (p g).1 = .error e) : shown ((p >>= f) g).1 = .error e.cls := by
  rw [Prog.bind_run]
  rcases hr : p g with ⟨x | a, t⟩
  · rw [hr] at h
    cases h
    rfl
  · rw [hr] at h
    cases h

/-- Updates of single rows do not refuse on cardinality. -/
def NoConflict (p : Tx α) : Prop := ∀ g e, (p g).1 = .error e → e.cls ≠ .conflictError

theorem NoConflict.pure {a : α} : NoConflict (pure a : Tx α) := by
  intro g e h
  cases h

theorem NoConflict.bind_run {p : Tx α} {f : α → Tx β} {g : Graph}
    (hp : ∀ e, (p g).1 = .error e → e.cls ≠ .conflictError) (hf : ∀ a, NoConflict (f a)) :
    ∀ e, ((p >>= f) g).1 = .error e → e.cls ≠ .conflictError := by
  intro e h
  rw [Prog.bind_run] at h
  rcases hr : p g with ⟨x | a, t⟩
  · rw [hr] at h
    cases h
    exact hp e (by rw [hr])
  · rw [hr] at h
    exact hf a t e h

theorem NoConflict.transaction {w : GraphWorld} {b : Stamp → Tx α} (h : ∀ now, NoConflict (b now)) :
    NoConflict (transaction w b) := by
  intro g e he
  unfold TappsBrain.transaction at he
  split at he
  · cases he
    exact ErrorClass.noConfusion
  · rcases hr : b (w.clock g.ticks) g.opened with ⟨x | a, t⟩
    · rw [hr] at he
      cases he
      exact h _ _ e (by rw [hr])
    · rw [hr] at he
      cases he

theorem NoConflict.updateEdge {brain : String} {id : IdText} {due : EdgeRow → Bool}
    {f : EdgeRow → EdgeRow} : NoConflict (updateEdge brain id due f) := by
  intro g e he
  cases id with
  | malformed text =>
    cases he
    exact ErrorClass.noConfusion
  | uuid i =>
    rw [updateEdge_run] at he
    cases hg : g.edges.get? i with
    | none =>
      rw [hg] at he
      cases he
    | some row =>
      rw [hg] at he
      dsimp only at he
      split at he <;> cases he

theorem call_differs {w : GraphWorld} {k : GraphConfig} {g : Graph} (c : GraphCall)
    (h : c.blocked w k g = true) :
    shown (AsyncGraphStore.call w k.toAsync c g).1 ≠ shown (GraphStore.call w k c g).1 := by
  have hne {r : Except GraphError GraphAnswer}
      (hr : ∀ e, r = .error e → e.cls ≠ .conflictError) : shown r ≠ .error .conflictError := by
    cases r with
    | ok a =>
      intro heq
      cases heq
    | error e =>
      intro heq
      exact hr e rfl (Except.error.inj heq)
  cases c with
  | upsertEdge a =>
    obtain ⟨⟨msg, hs⟩, ha⟩ := upsertEdge_differs h
    rw [GraphStore.call, answering, bind_shown_error hs]
    exact hne (NoConflict.bind_run ha (fun _ => NoConflict.pure))
  | supersedeEdge old a =>
    obtain ⟨⟨msg, hs⟩, ha⟩ := upsertEdge_differs h
    rw [GraphStore.call, answering, GraphStore.supersedeEdge, Prog.bind_assoc, bind_shown_error hs]
    apply hne
    rw [AsyncGraphStore.call, answering, AsyncGraphStore.supersedeEdge, Prog.bind_assoc]
    apply NoConflict.bind_run ha
    intro new g' e
    rw [Prog.bind_assoc]
    apply NoConflict.bind_run
    · exact NoConflict.transaction (fun _ => NoConflict.updateEdge) g'
    · exact fun _ => NoConflict.pure
  | upsertEntity a => cases h
  | attachEvidence a => cases h
  | reinforceEdge id useful => cases h
  | contradictEdge id reason => cases h
  | markEdgeStale id reason => cases h

/-- A run of calls: what each one gave, and the graph they leave. -/
def runCalls (f : GraphCall → Tx GraphAnswer) :
    List GraphCall → Graph → List (Except ErrorClass GraphAnswer) × Graph
  | [], g => ([], g)
  | c :: rest, g =>
    let r := f c g
    let after := runCalls f rest r.2
    (shown r.1 :: after.1, after.2)

/-- The rows of the graph, without the counters of ids and transactions. -/
def Graph.rows (g : Graph) : Table EntityRow.id × Table EdgeRow.id × Table EvidenceRow.id ×
    Table PredicateRow.name :=
  (g.entities, g.edges, g.evidence, g.predicates)

/-- Run from `g`, the async store answers as the sync one does and leaves the same rows. -/
def Mirrors (w : GraphWorld) (k : GraphConfig) (calls : List GraphCall) (g : Graph) : Prop :=
  (runCalls (AsyncGraphStore.call w k.toAsync) calls g).1 =
      (runCalls (GraphStore.call w k) calls g).1 ∧
    (runCalls (AsyncGraphStore.call w k.toAsync) calls g).2.rows =
      (runCalls (GraphStore.call w k) calls g).2.rows

/-- No call of the run writes a new edge where the registry refuses one. -/
def Unblocked (w : GraphWorld) (k : GraphConfig) : List GraphCall → Graph → Prop
  | [], _ => True
  | c :: rest, g => c.blocked w k g = false ∧ Unblocked w k rest (GraphStore.call w k c g).2

theorem runCalls_same {w : GraphWorld} {k : GraphConfig} {calls : List GraphCall} {g : Graph}
    (h : Unblocked w k calls g) :
    runCalls (AsyncGraphStore.call w k.toAsync) calls g = runCalls (GraphStore.call w k) calls g := by
  induction calls generalizing g with
  | nil => simp only [runCalls]
  | cons c rest ih =>
    obtain ⟨hr, hg⟩ := call_same c h.1
    have ih := ih h.2
    rw [hg] at ih
    rw [runCalls, runCalls, hr, hg, ih]

theorem Unblocked.of_answers {w : GraphWorld} {k : GraphConfig} {calls : List GraphCall} {g : Graph}
    (h : (runCalls (AsyncGraphStore.call w k.toAsync) calls g).1 =
      (runCalls (GraphStore.call w k) calls g).1) : Unblocked w k calls g := by
  induction calls generalizing g with
  | nil => trivial
  | cons c rest ih =>
    simp only [runCalls, List.cons.injEq] at h
    cases hb : c.blocked w k g with
    | true => exact absurd h.1 (call_differs c hb)
    | false =>
      refine ⟨hb, ih ?_⟩
      rw [(call_same c hb).2]
      rw [(call_same c hb).2] at h
      exact h.2

/-- The async store mirrors the sync one on exactly the runs in which no write is refused for
cardinality. -/
theorem mirrors_iff (w : GraphWorld) (k : GraphConfig) (calls : List GraphCall) (g : Graph) :
    Mirrors w k calls g ↔ Unblocked w k calls g := by
  constructor
  · intro h
    exact Unblocked.of_answers h.1
  · intro h
    rw [Mirrors, runCalls_same h]
    exact ⟨rfl, rfl⟩

/-- A registry with one functional predicate. -/
def functionalPredicate : Graph :=
  { predicates := ⟨[⟨"brain", "owns", some ⟨1, Nat.le_refl 1⟩⟩], List.nodup_singleton _⟩ }

/-- Two objects for the functional predicate: the sync store refuses the second. -/
theorem async_skips_cardinality :
    ¬ Mirrors .calm { brainId := "brain", evidenceRequired := false }
      [.upsertEntity { entityType := "person", canonicalName := "ada" },
        .upsertEntity { entityType := "car", canonicalName := "one" },
        .upsertEntity { entityType := "car", canonicalName := "two" },
        .upsertEdge { subject := .uuid 0, predicate := "owns", object := .uuid 1 },
        .upsertEdge { subject := .uuid 0, predicate := "owns", object := .uuid 2 }]
      functionalPredicate := by
  rw [Mirrors]
  decide +kernel

end TappsBrain
