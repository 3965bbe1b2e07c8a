import TappsBrain.Lib.Run
import TappsBrain.Recorder
import Mathlib.Tactic.NormNum

namespace TappsBrain
open Lib
set_option autoImplicit true
set_option relaxedAutoImplicit false

/-- The edge was never asserted with an evidence id and no evidence row supports it. -/
def Uncited (cited : List Nat) (g : Graph) (e : EdgeRow) : Bool :=
  !cited.contains e.id && g.evidence.values.all (fun ev => ev.edgeId ≠ some e.id)

/-- What the confidence of every edge satisfies. -/
structure Capped (cited : List Nat) (g : Graph) : Prop where
  range : ∀ e ∈ g.edges.values, 0 ≤ e.confidence ∧ e.confidence ≤ 1
  cap : ∀ e ∈ g.edges.values, e.status = .active → Uncited cited g e = true →
    e.confidence ≤ INFERRED_CONFIDENCE_CAP

/-- `Capped` with what keeps it so: the floors, and ids that are drawn once. -/
structure Sound (cited : List Nat) (g : Graph) : Prop extends Capped cited g where
  floor : ∀ e ∈ g.edges.values, 0 ≤ e.confidenceFloor ∧ e.confidenceFloor ≤ INFERRED_CONFIDENCE_CAP
  fresh : ∀ ev ∈ g.evidence.values, ev.id < g.nextId

section Sound
variable {cited cited' : List Nat} {g h : Graph}

theorem uncited_mono {e : EdgeRow} (hc : ∀ id ∈ cited, id ∈ cited')
    (hv : ∀ ev ∈ g.evidence.values, ev ∈ h.evidence.values)
    (hu : Uncited cited' h e = true) : Uncited cited g e = true := by
  simp only [Uncited, Bool.and_eq_true, Bool.not_eq_true', List.contains_eq_mem, decide_eq_false_iff_not,
    List.all_eq_true, decide_eq_true_eq] at hu ⊢
  exact ⟨fun hm => hu.1 (hc _ hm), fun ev hev => hu.2 ev (hv ev hev)⟩

/-- The rows of edges stay and nothing loses its evidence. -/
theorem Sound.of_rows (hs : Sound cited g) (he : h.edges = g.edges)
    (hc : ∀ id ∈ cited, id ∈ cited') (hv : ∀ ev ∈ g.evidence.values, ev ∈ h.evidence.values)
    (hn : ∀ ev ∈ h.evidence.values, ev.id < h.nextId) : Sound cited' h where
  range := by
    rw [he]
    exact hs.range
  cap := by
    rw [he]
    intro e hm ha hu
    exact hs.cap e hm ha (uncited_mono hc hv hu)
  floor := by
    rw [he]
    exact hs.floor
  fresh := hn

theorem Sound.cite (hs : Sound cited g) (hc : ∀ id ∈ cited, id ∈ cited') : Sound cited' g :=
  hs.of_rows rfl hc (fun _ => id) hs.fresh

theorem Sound.opened (hs : Sound cited g) : Sound cited g.opened :=
  hs.of_rows rfl (fun _ => id) (fun _ => id) hs.fresh

theorem Sound.drawn (hs : Sound cited g) : Sound cited g.drawn :=
  hs.of_rows rfl (fun _ => id) (fun _ => id) (fun ev hm => Nat.lt_succ_of_lt (hs.fresh ev hm))

/-- One edge is written whose confidence is in order. -/
theorem Sound.setEdge {e : EdgeRow} (hs : Sound cited g) (hr : 0 ≤ e.confidence ∧ e.confidence ≤ 1)
    (hf : 0 ≤ e.confidenceFloor ∧ e.confidenceFloor ≤ INFERRED_CONFIDENCE_CAP)
    (hcap : e.status = .active → Uncited cited g e = true → e.confidence ≤ INFERRED_CONFIDENCE_CAP) :
    Sound cited { g with edges := g.edges.set e } where
  range := by
    intro x hx
    rcases Table.mem_set hx with rfl | hx
    · exact hr
    · exact hs.range x hx
  cap := by
    intro x hx ha hu
    rcases Table.mem_set hx with rfl | hx
    · exact hcap ha hu
    · exact hs.cap x hx ha hu
  floor := by
    intro x hx
    rcases Table.mem_set hx with rfl | hx
    · exact hf
    · exact hs.floor x hx
  fresh := hs.fresh

/-- A row under a fresh id displaces no evidence. -/
theorem Sound.evidence_kept {ev : EvidenceRow} (hs : Sound cited g) (hid : ev.id = g.nextId) :
    ∀ x ∈ g.evidence.values, x ∈ (g.evidence.set ev).values := by
  intro x hx
  have hne : ev.id ≠ x.id := by
    have := hs.fresh x hx
    omega
  rw [Table.mem_iff_get?] at hx ⊢
  rw [← hx]
  exact Table.get?_set_ne g.evidence hne

theorem Sound.attach {ev : EvidenceRow} (hs : Sound cited g) (hid : ev.id = g.nextId) :
    Sound cited { g.drawn with evidence := g.evidence.set ev } := by
  apply hs.of_rows (h := { g.drawn with evidence := g.evidence.set ev }) rfl (fun _ => id)
  · exact hs.evidence_kept hid
  · intro x hx
    rcases Table.mem_set hx with rfl | hx
    · rw [hid]
      exact Nat.lt_succ_self _
    · exact Nat.lt_succ_of_lt (hs.fresh x hx)

/-- Reinforcing the edge now does not lift an uncited active edge over the cap. -/
def raiseAllowed (cited : List Nat) (g : Graph) (now : Stamp) (e : EdgeRow) : Bool :=
  !(e.status = .active && e.reinforceDue now && Uncited cited g e) ||
    e.confidence * (105 / 100) ≤ INFERRED_CONFIDENCE_CAP

/-- Writing the edge keeps its confidence in order. -/
def writeAllowed (cited : List Nat) (g : Graph) (brain : String) (now : Stamp) (a : EdgeArgs)
    (c : ℚ) (evidence : Bool) : Bool :=
  match a.subject, a.object with
  | .uuid s, .uuid o =>
    match activeEdge g brain s a.predicate o with
    | some e => evidence || raiseAllowed cited g now e
    | none => 0 ≤ c && c ≤ (if evidence then 1 else INFERRED_CONFIDENCE_CAP)
  | _, _ => true

theorem EdgeRow.isTriple_active {e : EdgeRow} {brain : String} {s o : Nat} {predicate : String}
    (h : e.isTriple brain s predicate o = true) : e.status = .active := by
  simp only [EdgeRow.isTriple, EdgeRow.live, Bool.and_eq_true, decide_eq_true_eq] at h
  exact h.2.1

theorem cap_le_one : INFERRED_CONFIDENCE_CAP ≤ 1 := by decide +kernel

theorem cap_nonneg : 0 ≤ INFERRED_CONFIDENCE_CAP := by decide +kernel

theorem reinforced_range {e : EdgeRow} {now : Stamp} {newS newD : ℚ} (h : 0 ≤ e.confidence) :
    0 ≤ (e.reinforced now newS newD).confidence ∧ (e.reinforced now newS newD).confidence ≤ 1 := by
  constructor
  · exact le_min (mul_nonneg h (by norm_num)) zero_le_one
  · exact min_le_right _ _

/-- Reinforcing one edge, where that is allowed. -/
theorem Sound.reinforce {e : EdgeRow} {now : Stamp} {newS newD : ℚ} (hs : Sound cited g)
    (he : e ∈ g.edges.values) (hc : ∀ id ∈ cited, id ∈ cited') (hd : e.reinforceDue now = true)
    (hal : e.id ∈ cited' ∨ raiseAllowed cited g now e = true) :
    Sound cited' { g with edges := g.edges.set (e.reinforced now newS newD) } := by
  apply (hs.cite hc).setEdge
  · exact reinforced_range (hs.range e he).1
  · exact hs.floor e he
  · intro ha hu
    rcases hal with hid | hal
    · simp only [Uncited, EdgeRow.reinforced, List.contains_eq_mem, decide_eq_true hid,
        Bool.not_true, Bool.false_and, Bool.false_eq_true] at hu
    · have hu : Uncited cited g e = true := uncited_mono hc (fun _ => id) hu
      have ha : e.status = .active := ha
      simp only [raiseAllowed, ha, hd, hu, decide_true, Bool.and_self, Bool.not_true,
        Bool.false_or, decide_eq_true_eq] at hal
      exact (min_le_left _ _).trans hal

theorem Sound.edgeWritten {w : GraphWorld} {brain : String} {now : Stamp} {a : EdgeArgs} {c : ℚ} {id : Nat}
    {evidence : Bool} (hs : Sound cited g) (hw : EdgeWritten w brain now a c g id h)
    (hal : writeAllowed cited g brain now a c evidence = true)
    (hc : ∀ id ∈ cited, id ∈ cited') (hid : evidence = true → id ∈ cited') : Sound cited' h := by
  cases hw with
  | debounced => exact hs.cite hc
  | reinforced hsub hobj he hd =>
    rw [writeAllowed, hsub, hobj] at hal
    simp only [he, Bool.or_eq_true] at hal
    exact hs.reinforce (activeEdge_triple he).1 hc hd (hal.imp_left hid)
  | @inserted s o hsub hobj hn =>
    rw [writeAllowed, hsub, hobj] at hal
    simp only [hn, Bool.and_eq_true, decide_eq_true_eq] at hal
    apply (hs.cite hc).drawn.setEdge
    · refine ⟨hal.1, hal.2.trans ?_⟩
      split
      · exact le_rfl
      · exact cap_le_one
    · exact ⟨le_rfl, cap_nonneg⟩
    · intro _ hu
      cases evidence with
      | true =>
        simp only [Uncited, newEdge, List.contains_eq_mem, decide_eq_true (hid rfl), Bool.not_true,
          Bool.false_and, Bool.false_eq_true] at hu
      | false => exact hal.2

/-- An update of one edge that keeps its id, status, confidence and floor, or takes it out of use. -/
theorem Sound.update {brain : String} {id : IdText} {due : EdgeRow → Bool}
    {f : EdgeRow → EdgeRow} {r : Option EdgeRow} (hs : Sound cited g)
    (hr : updateEdge brain id due f g = (.ok r, h)) (hid : ∀ e, (f e).id = e.id)
    (hc : ∀ e, (f e).confidence = e.confidence) (hf : ∀ e, (f e).confidenceFloor = e.confidenceFloor)
    (ha : ∀ e, (f e).status = .active → e.status = .active) : Sound cited h := by
  obtain ⟨-, rfl⟩ | ⟨e, -, he, -, -, -, rfl⟩ := updateEdge_ok hr
  · exact hs
  · have hm := Table.mem_of_get? he
    apply hs.setEdge
    · rw [hc]
      exact hs.range e hm
    · rw [hf]
      exact hs.floor e hm
    · intro hact hu
      rw [hc]
      apply hs.cap e hm (ha e hact)
      simpa only [Uncited, hid] using hu

/-- A reinforcement of the edge an id names keeps its confidence in order. -/
def reinforceAllowed (cited : List Nat) (g : Graph) (brain : String) (now : Stamp) : IdText → Bool
  | .malformed _ => true
  | .uuid i =>
    match g.edges.get? i with
    | none => true
    | some e => e.brainId ≠ brain || raiseAllowed cited g now e

theorem Sound.reinforceRow {brain : String} {now : Stamp} {id : IdText} {newS newD : ℚ}
    {r : Option EdgeRow} (hs : Sound cited g) (hal : reinforceAllowed cited g brain now id = true)
    (hr : reinforceEdgeRow brain now id newS newD g = (.ok r, h)) : Sound cited h := by
  obtain ⟨-, rfl⟩ | ⟨e, rfl, he, hb, hd, -, rfl⟩ := updateEdge_ok hr
  · exact hs
  · simp only [reinforceAllowed, he, hb, ne_eq, not_true_eq_false, decide_false,
      Bool.false_or] at hal
    exact hs.reinforce (Table.mem_of_get? he) (fun _ => id) hd (.inr hal)

/-- A misleading vote of this weight keeps the confidence of the edge in order. -/
def misleadAllowed (cited : List Nat) (g : Graph) (brain : String) (delta : ℚ) : IdText → Bool
  | .malformed _ => true
  | .uuid i =>
    match g.edges.get? i with
    | none => true
    | some e => e.brainId ≠ brain || (e.confidence - delta ≤ 1 &&
        (!(e.status = .active && Uncited cited g e) ||
          e.confidence - delta ≤ INFERRED_CONFIDENCE_CAP))

theorem Sound.mislead {brain : String} {now : Stamp} {delta : ℚ} {id : IdText}
    {r : Option EdgeRow} (hs : Sound cited g) (hal : misleadAllowed cited g brain delta id = true)
    (hr : applyEdgeMisleadingRow brain now delta id g = (.ok r, h)) : Sound cited h := by
  obtain ⟨-, rfl⟩ | ⟨e, rfl, he, hb, -, -, rfl⟩ := updateEdge_ok hr
  · exact hs
  · have hm := Table.mem_of_get? he
    simp only [misleadAllowed, he, hb, ne_eq, not_true_eq_false, decide_false, Bool.false_or,
      Bool.and_eq_true, decide_eq_true_eq, Bool.or_eq_true] at hal
    apply hs.setEdge
    · refine ⟨(hs.floor e hm).1.trans (le_max_right _ _), max_le hal.1 ?_⟩
      exact (hs.floor e hm).2.trans cap_le_one
    · exact hs.floor e hm
    · intro ha hu
      have ha : e.status = .active := ha
      have hu : Uncited cited g e = true := hu
      rcases hal.2 with hn | hle
      · simp only [ha, hu, decide_true, Bool.and_self, Bool.not_true, Bool.false_eq_true] at hn
      · exact max_le hle (hs.floor e hm).2

theorem Sound.block {w : GraphWorld} {body : Stamp → Tx α} (hs : Sound cited g)
    (hb : ∀ a h, w.refuses g.ticks = false → body (w.clock g.ticks) g.opened = (.ok a, h) →
      Sound cited h) : Sound cited (transaction w body g).2 := by
  obtain ⟨e, he⟩ | ⟨a, h, hw, hr, ht⟩ := transaction_cases w body g
  · rw [he]
    exact hs.opened
  · rw [ht]
    exact hb a h hw hr

theorem Sound.reinforceEdge {w : GraphWorld} {k : GraphConfig} {id : IdText} (hs : Sound cited g)
    (useful : Bool) (hal : reinforceAllowed cited g k.brainId (w.clock g.ticks) id = true) :
    Sound cited (GraphStore.reinforceEdge w k id useful g).2 := by
  apply hs.block
  intro b h _ hr
  obtain ⟨found, g₁, hg, hr⟩ := Prog.bind_ok hr
  have hg₁ : g₁ = g.opened := by
    cases id with
    | malformed text => cases hg
    | uuid i =>
      cases hg
      rfl
  subst hg₁
  cases found with
  | none =>
    cases hr
    exact hs.opened
  | some row =>
    obtain ⟨⟨newS, newD⟩, g₂, hf, hr⟩ := Prog.bind_ok hr
    have hg₂ : g₂ = g.opened := computeFsrs_state hf
    subst hg₂
    obtain ⟨r, g₃, hu, hr⟩ := Prog.bind_ok hr
    cases hr
    exact hs.opened.reinforceRow hal hu

/-- The edges a successful write has asserted with an evidence id. -/
def citing (a : EdgeArgs) (r : Except GraphError Nat) (cited : List Nat) : List Nat :=
  match r with
  | .ok id => if a.evidenceId.isSome then id :: cited else cited
  | .error _ => cited

theorem mem_citing {a : EdgeArgs} {r : Except GraphError Nat} : ∀ id ∈ cited, id ∈ citing a r cited := by
  intro id hm
  cases r with
  | error e => exact hm
  | ok new =>
    simp only [citing]
    split
    · exact List.mem_cons_of_mem _ hm
    · exact hm

/-- The writes of `upsert_edge` keep the confidence of the edge in order. -/
def upsertAllowed (w : GraphWorld) (cited : List Nat) (g : Graph) (k : GraphConfig) (a : EdgeArgs) :
    Bool :=
  k.evidenceRequired && a.evidenceId.isNone || w.refuses g.ticks ||
    writeAllowed cited g k.brainId (w.clock g.ticks) a (edgeConfidence a) a.evidenceId.isSome

theorem Sound.upsertEdge {w : GraphWorld} {k : GraphConfig} {a : EdgeArgs} (hs : Sound cited g)
    (hal : upsertAllowed w cited g k a = true) :
    Sound (citing a (GraphStore.upsertEdge w k a g).1 cited) (GraphStore.upsertEdge w k a g).2 := by
  rw [GraphStore.upsertEdge]
  cases hv : (k.evidenceRequired && a.evidenceId.isNone) with
  | true =>
    rw [if_pos rfl]
    exact hs.cite mem_citing
  | false =>
    rw [if_neg Bool.false_ne_true]
    obtain ⟨e, he⟩ | ⟨id, h, hw, hr, ht⟩ :=
      transaction_cases w (GraphStore.upsertEdgeBlock w k a) g
    · rw [he]
      exact hs.opened
    · rw [ht]
      simp only [upsertAllowed, hv, hw, Bool.false_or] at hal
      apply hs.opened.edgeWritten (GraphStore.upsertEdgeBlock_writes hr) hal mem_citing
      intro hev
      simp only [citing, hev, if_true]
      exact List.mem_cons_self

theorem Sound.supersedeEdge {w : GraphWorld} {k : GraphConfig} {old : IdText} {a : EdgeArgs}
    (hs : Sound cited g) (hal : upsertAllowed w cited g k (replacement a) = true) :
    Sound (citing (replacement a) (GraphStore.upsertEdge w k (replacement a) g).1 cited)
      (GraphStore.supersedeEdge w k old a g).2 := by
  have hnew := hs.upsertEdge hal
  rw [GraphStore.supersedeEdge, Prog.bind_run]
  rcases hr : GraphStore.upsertEdge w k (replacement a) g with ⟨e | new, g₁⟩
  · rw [hr] at hnew
    exact hnew
  · rw [hr] at hnew
    have hp : Sound (citing (replacement a) (.ok new) cited)
        (transaction w (fun now => supersedeEdgeRow k.brainId now new old) g₁).2 := by
      apply hnew.block
      intro r h _ hu
      apply hnew.opened.update hu (fun _ => rfl) (fun _ => rfl) (fun _ => rfl)
      intro e ha
      cases ha
    dsimp only
    rw [Prog.bind_run]
    rcases hq : transaction w (fun now => supersedeEdgeRow k.brainId now new old) g₁ with
      ⟨e | r, g₂⟩
    · rw [hq] at hp
      exact hp
    · rw [hq] at hp
      exact hp

def feedbackAllowed (w : GraphWorld) (cited : List Nat) (g : Graph) (k : GraphConfig) (id : IdText)
    (feedbackType : String) (delta : ℚ) : Bool :=
  if feedbackType = "edge_helpful" then
    reinforceAllowed cited g k.brainId (w.clock (g.ticks + 1)) id
  else if feedbackType = "edge_misleading" then misleadAllowed cited g k.brainId delta id
  else true

/-- A vote does not touch what a later reinforcement of the edge reads. -/
theorem reinforceAllowed_helpful {brain : String} {now later : Stamp} {id : IdText} {row : EdgeRow}
    (hal : reinforceAllowed cited g brain later id = true)
    (hr : applyEdgeHelpfulRow brain now id g = (.ok (some row), h)) :
    reinforceAllowed cited h brain later id = true := by
  obtain ⟨hn, -⟩ | ⟨e, rfl, he, hb, -, -, rfl⟩ := updateEdge_ok hr
  · cases hn
  · simp only [reinforceAllowed, he] at hal
    simp only [reinforceAllowed, Table.get?_set, if_true]
    exact hal

theorem applyEdgeHelpfulRow_ticks {brain : String} {now : Stamp} {id : IdText} {r : Option EdgeRow}
    (hr : applyEdgeHelpfulRow brain now id g = (.ok r, h)) : h.ticks = g.ticks := by
  obtain ⟨-, rfl⟩ | ⟨e, -, -, -, -, -, rfl⟩ := updateEdge_ok hr <;> rfl

theorem Sound.applyEdgeFeedback {w : GraphWorld} {k : GraphConfig} {id : IdText}
    {feedbackType : String} {delta : ℚ} (hs : Sound cited g)
    (hal : feedbackAllowed w cited g k id feedbackType delta = true) :
    Sound cited (GraphStore.applyEdgeFeedback w k id feedbackType delta g).2 := by
  unfold feedbackAllowed at hal
  unfold GraphStore.applyEdgeFeedback
  split at hal
  · next hf =>
    rw [if_pos hf, Prog.bind_run]
    obtain ⟨e, he⟩ | ⟨r, h, hw, hr, ht⟩ :=
      transaction_cases w (fun now => applyEdgeHelpfulRow k.brainId now id) g
    · rw [he]
      exact hs.opened
    · have hh : Sound cited h :=
        hs.opened.update hr (fun _ => rfl) (fun _ => rfl) (fun _ => rfl) (fun _ ha => ha)
      rw [ht]
      cases r with
      | none => exact hh
      | some row =>
        have hal : reinforceAllowed cited h k.brainId (w.clock h.ticks) id = true := by
          rw [applyEdgeHelpfulRow_ticks hr]
          exact reinforceAllowed_helpful (g := g.opened) hal hr
        have hre := hh.reinforceEdge true hal
        dsimp only
        rw [Prog.bind_run]
        rcases hq : GraphStore.reinforceEdge w k id true h with ⟨e | b, h₂⟩
        · rw [hq] at hre
          exact hre
        · rw [hq] at hre
          exact hre
  · next hf =>
    rw [if_neg hf]
    split at hal
    · next hm =>
      rw [if_pos hm]
      have hh : Sound cited
          (transaction w (fun now => applyEdgeMisleadingRow k.brainId now delta id) g).2 := by
        apply hs.block
        intro r h _ hr
        exact hs.opened.mislead (h := h) hal hr
      rw [Prog.bind_run]
      rcases hq : transaction w
          (fun now => applyEdgeMisleadingRow k.brainId now delta id) g with ⟨e | r, h⟩
      · rw [hq] at hh
        exact hh
      · rw [hq] at hh
        cases r with
        | none => exact hh
        | some row => exact hh
    · next hm =>
      rw [if_neg hm]
      exact hs

theorem Sound.enterEntity (hs : Sound cited g) (w : GraphWorld) (brain : String) (now : Stamp)
    (a : EntityArgs) : Sound cited (upsertEntityRow w brain now a g).2 := by
  by_cases hno : (w.unstorable a.entityType || w.unstorable a.canonicalName) = true
  · rw [upsertEntityRow, if_pos hno]
    exact hs
  · rw [upsertEntityRow_run hno]
    cases g.entities.values.find? (sameEntity w brain a) with
    | some old => exact hs.drawn.of_rows rfl (fun _ => id) (fun _ => id) hs.drawn.fresh
    | none => exact hs.drawn.of_rows rfl (fun _ => id) (fun _ => id) hs.drawn.fresh

theorem castOptional_ok {t : Option IdText} {u v : Graph} {r : Option Nat}
    (hc : castOptional t u = (.ok r, v)) : v = u ∧ t = r.map .uuid := by
  cases t with
  | none =>
    cases hc
    exact ⟨rfl, rfl⟩
  | some t =>
    cases t with
    | malformed text => cases hc
    | uuid i =>
      cases hc
      exact ⟨rfl, rfl⟩

/-- The row `attach_evidence` writes, when it returns. -/
theorem attachEvidenceRow_new {w : GraphWorld} {brain : String} {a : EvidenceArgs} {id : Nat}
    (hr : attachEvidenceRow w brain a g = (.ok id, h)) :
    ∃ edge entity, a.edgeId = Option.map .uuid edge ∧ a.entityId = Option.map .uuid entity ∧
      id = g.nextId ∧
      h = { g.drawn with evidence := g.evidence.set (newEvidence brain g.nextId edge entity a) } := by
  unfold attachEvidenceRow at hr
  obtain ⟨edge, g₁, hg₁, hr⟩ := Prog.bind_ok hr
  obtain ⟨entity, g₂, hg₂, hr⟩ := Prog.bind_ok hr
  obtain ⟨hg, hedge⟩ := castOptional_ok hg₁
  obtain ⟨hg', hentity⟩ := castOptional_ok hg₂
  rw [hg', hg] at hr
  obtain ⟨new, g₃, hg₃, hr⟩ := Prog.bind_ok hr
  cases hg₃
  obtain ⟨known, g₄, hg₄, hr⟩ := Prog.bind_ok hr
  cases hg₄
  split at hr
  · cases hr
    exact ⟨edge, entity, hedge, hentity, rfl, rfl⟩
  · cases hr

/-- What `attach_evidence` leaves, when it returns. -/
theorem attachEvidenceRow_ok {w : GraphWorld} {brain : String} {a : EvidenceArgs} {id : Nat}
    (hr : attachEvidenceRow w brain a g = (.ok id, h)) :
    ∃ ev, ev.id = g.nextId ∧ h = { g.drawn with evidence := g.evidence.set ev } ∧
      ∀ i, a.edgeId = some (.uuid i) → ev.edgeId = some i := by
  obtain ⟨edge, entity, hedge, -, -, rfl⟩ := attachEvidenceRow_new hr
  refine ⟨newEvidence brain g.nextId edge entity a, rfl, rfl, ?_⟩
  intro i hi
  rw [hedge] at hi
  obtain ⟨j, hj, hid⟩ := Option.map_eq_some_iff.mp hi
  cases hid
  exact hj

theorem Sound.attachEvidence {w : GraphWorld} {k : GraphConfig} {a : EvidenceArgs}
    (hs : Sound cited g) : Sound cited (GraphStore.attachEvidence w k a g).2 := by
  unfold GraphStore.attachEvidence
  split
  · exact hs
  · apply hs.block
    intro id h _ hr
    obtain ⟨ev, hid, rfl, -⟩ := attachEvidenceRow_ok hr
    exact hs.opened.attach hid

/-- `Sound`, with evidence attached to all of `done`. -/
structure Held (cited done : List Nat) (g : Graph) : Prop extends Sound cited g where
  supported : ∀ i ∈ done, ∃ ev ∈ g.evidence.values, ev.edgeId = some i

variable {done : List Nat}

/-- Edges that have evidence rows need not be counted as cited. -/
theorem Held.uncite (hh : Held (done ++ cited) done g) : Sound cited g where
  range := hh.range
  floor := hh.floor
  fresh := hh.fresh
  cap := by
    intro e he ha hu
    apply hh.cap e he ha
    simp only [Uncited, Bool.and_eq_true, Bool.not_eq_true', List.contains_eq_mem,
      decide_eq_false_iff_not, List.all_eq_true, decide_eq_true_eq, List.mem_append, not_or] at hu ⊢
    refine ⟨⟨?_, hu.1⟩, hu.2⟩
    intro hd
    obtain ⟨ev, hev, hid⟩ := hh.supported e.id hd
    exact hu.2 ev hev hid

theorem EdgeWritten.evidence {w : GraphWorld} {brain : String} {now : Stamp} {a : EdgeArgs} {c : ℚ} {id : Nat}
    (hw : EdgeWritten w brain now a c g id h) : h.evidence = g.evidence := by
  cases hw <;> rfl

/-- The uuids of the edges an event attaches evidence to. -/
def evidenceTargets (l : List EvidenceSpec) : List Nat :=
  l.filterMap (fun spec => match spec.args.edgeId with
    | some (.uuid i) => some i
    | _ => none)

/-- The edge an event asks for keeps its confidence in order. -/
def specAllowed (cited : List Nat) (g : Graph) (k : RecorderConfig) (now : Stamp) (l : EntityLookup)
    (spec : EdgeSpec) : Bool :=
  match resolveEdgeEndpoint l spec.subject, resolveEdgeEndpoint l spec.object with
  | some s, some o =>
    writeAllowed cited g k.brainId now (Recorder.edgeArgs k spec s o) spec.confidence.1 false
  | _, _ => true

/-- Each edge in the state in which it is written. -/
def specsAllowed (w : GraphWorld) (cited : List Nat) (k : RecorderConfig) (now : Stamp)
    (l : EntityLookup) : List EdgeSpec → Graph → Bool
  | [], _ => true
  | spec :: rest, g =>
    specAllowed cited g k now l spec &&
      match Recorder.upsertEdge w k now l spec g with
      | (.ok _, h) => specsAllowed w cited k now l rest h
      | (.error _, _) => true

def eventAllowed (w : GraphWorld) (cited : List Nat) (k : RecorderConfig) (now : Stamp)
    (event : ExperienceEvent) (g : Graph) : Bool :=
  match Recorder.upsertEntities w k now event.entities g with
  | (.ok ids, h) => specsAllowed w cited k now (buildEntityLookup event.entities ids) event.edges h
  | (.error _, _) => true

def eventsAllowed (w : GraphWorld) (cited : List Nat) (k : RecorderConfig) (now : Stamp) :
    List ExperienceEvent → Graph → Bool
  | [], _ => true
  | event :: rest, g =>
    eventAllowed w cited k now event g &&
      match Recorder.writeEvent w k now event g with
      | (.ok _, h) => eventsAllowed w cited k now rest h
      | (.error _, _) => true

theorem Held.specs {w : GraphWorld} {k : RecorderConfig} {now : Stamp} {l : EntityLookup}
    {specs : List EdgeSpec} {ids : List (Option Nat)} (hh : Held cited done g)
    (hal : specsAllowed w cited k now l specs g = true)
    (hr : Recorder.upsertEdges w k now l specs g = (.ok ids, h)) : Held cited done h := by
  induction specs generalizing g ids with
  | nil =>
    cases hr
    exact hh
  | cons spec rest ih =>
    obtain ⟨id, ids', g₁, hw, hrest⟩ := Prog.mapEach_ok hr
    rw [specsAllowed, hw, Bool.and_eq_true] at hal
    apply ih _ hal.2 hrest
    have hspec := hal.1
    unfold specAllowed at hspec
    unfold Recorder.upsertEdge at hw
    cases hs : resolveEdgeEndpoint l spec.subject with
    | none =>
      rw [hs] at hw
      cases hw
      exact hh
    | some s =>
      cases ho : resolveEdgeEndpoint l spec.object with
      | none =>
        rw [hs, ho] at hw
        cases hw
        exact hh
      | some o =>
        rw [hs, ho] at hspec hw
        obtain ⟨new, g₂, hnew, hw⟩ := Prog.bind_ok hw
        cases hw
        have hwritten := Recorder.writeEdge_writes hnew
        refine ⟨hh.toSound.edgeWritten hwritten hspec (fun _ => id) Bool.noConfusion, ?_⟩
        rw [hwritten.evidence]
        exact hh.supported

theorem upsertEntityRow_evidence (w : GraphWorld) (brain : String) (now : Stamp) (a : EntityArgs)
    (g : Graph) :
    (upsertEntityRow w brain now a g).2.evidence = g.evidence := by
  by_cases hno : (w.unstorable a.entityType || w.unstorable a.canonicalName) = true
  · rw [upsertEntityRow, if_pos hno]
    rfl
  · rw [upsertEntityRow_run hno]
    cases g.entities.values.find? (sameEntity w brain a) <;> rfl

theorem Held.entities {w : GraphWorld} {k : RecorderConfig} {now : Stamp} {specs : List EntitySpec}
    {ids : List (Option Nat)} (hh : Held cited done g)
    (hr : Recorder.upsertEntities w k now specs g = (.ok ids, h)) : Held cited done h := by
  induction specs generalizing g ids with
  | nil =>
    cases hr
    exact hh
  | cons spec rest ih =>
    obtain ⟨id, ids', g₁, hw, hrest⟩ := Prog.mapEach_ok hr
    apply ih _ hrest
    have hs := hh.toSound.enterEntity w k.brainId now (Recorder.entityArgs k spec)
    have hv := upsertEntityRow_evidence w k.brainId now (Recorder.entityArgs k spec) g
    unfold savepoint at hw
    rcases hq : upsertEntityRow w k.brainId now (Recorder.entityArgs k spec) g with ⟨e | new, u⟩
    · rw [hq] at hw
      cases hw
      exact hh
    · rw [hq] at hw hs hv
      cases hw
      refine ⟨hs, ?_⟩
      rw [show g₁.evidence = g.evidence from hv]
      exact hh.supported

theorem Held.attached {w : GraphWorld} {k : RecorderConfig} {specs : List EvidenceSpec}
    {ids : List Nat} (hh : Held cited done g)
    (hr : Prog.mapEach (Recorder.attachEvidence w k) specs g = (.ok ids, h)) :
    Held cited (done ++ evidenceTargets specs) h := by
  induction specs generalizing g ids done with
  | nil =>
    cases hr
    rw [evidenceTargets, List.filterMap_nil, List.append_nil]
    exact hh
  | cons spec rest ih =>
    obtain ⟨id, ids', g₁, hw, hrest⟩ := Prog.mapEach_ok hr
    obtain ⟨ev, hid, rfl, hedge⟩ := attachEvidenceRow_ok hw
    have hs := hh.toSound.attach hid
    have hold := hh.toSound.evidence_kept hid
    have hnew : ev ∈ (g.evidence.set ev).values :=
      Table.mem_of_get? (Table.get?_set_self g.evidence ev)
    have hone : Held cited (done ++ evidenceTargets [spec])
        { g.drawn with evidence := g.evidence.set ev } := by
      refine ⟨hs, ?_⟩
      intro i hi
      rcases List.mem_append.1 hi with hi | hi
      · obtain ⟨x, hx, hxi⟩ := hh.supported i hi
        exact ⟨x, hold x hx, hxi⟩
      · refine ⟨ev, hnew, hedge i ?_⟩
        simp only [evidenceTargets, List.filterMap_cons, List.filterMap_nil] at hi
        split at hi
        · cases hi
        · next j hj =>
          split at hj
          · next m hm =>
            cases hj
            cases List.mem_singleton.1 hi
            exact hm
          · cases hj
    have hrec := ih hone hrest
    rwa [List.append_assoc, ← show evidenceTargets (spec :: rest) =
      evidenceTargets [spec] ++ evidenceTargets rest from List.filterMap_append (l := [spec])] at hrec

theorem Held.event {w : GraphWorld} {k : RecorderConfig} {now : Stamp} {event : ExperienceEvent}
    {r : ExperienceResult} (hh : Held cited done g) (hal : eventAllowed w cited k now event g = true)
    (hr : Recorder.writeEvent w k now event g = (.ok r, h)) :
    Held cited (done ++ evidenceTargets event.evidence) h := by
  unfold Recorder.writeEvent at hr
  obtain ⟨entityIds, g₁, hen, hr⟩ := Prog.bind_ok hr
  obtain ⟨edgeIds, g₂, hed, hr⟩ := Prog.bind_ok hr
  obtain ⟨evidenceIds, g₃, hev, hr⟩ := Prog.bind_ok hr
  cases hr
  rw [eventAllowed, hen] at hal
  exact ((hh.entities hen).specs hal hed).attached hev

theorem Held.events {w : GraphWorld} {k : RecorderConfig} {now : Stamp} {events : List ExperienceEvent}
    {rs : List ExperienceResult} (hh : Held cited done g)
    (hal : eventsAllowed w cited k now events g = true)
    (hr : Prog.mapEach (Recorder.writeEvent w k now) events g = (.ok rs, h)) :
    Held cited (done ++ events.flatMap (fun event => evidenceTargets event.evidence)) h := by
  induction events generalizing g rs done with
  | nil =>
    cases hr
    rw [List.flatMap_nil, List.append_nil]
    exact hh
  | cons event rest ih =>
    obtain ⟨r, rs', g₁, hw, hrest⟩ := Prog.mapEach_ok hr
    rw [eventsAllowed, hw, Bool.and_eq_true] at hal
    rw [List.flatMap_cons, ← List.append_assoc]
    exact ih (hh.event hal.1 hw) hal.2 hrest

theorem Sound.held (hs : Sound cited g) : Held (done ++ cited) [] g where
  toSound := hs.cite (fun _ hm => List.mem_append_right done hm)
  supported := by
    intro i hi
    cases hi

def recordAllowed (w : GraphWorld) (cited : List Nat) (g : Graph) (k : RecorderConfig)
    (events : List ExperienceEvent) : Bool :=
  w.refuses g.ticks ||
    eventsAllowed w (events.flatMap (fun event => evidenceTargets event.evidence) ++ cited) k
      (w.clock g.ticks) events g.opened

theorem Sound.recordMany {w : GraphWorld} {k : RecorderConfig} {events : List ExperienceEvent}
    (hs : Sound cited g) (hal : recordAllowed w cited g k events = true) :
    Sound cited (Recorder.recordMany w k events g).2 := by
  unfold Recorder.recordMany
  split
  · exact hs
  · apply hs.block
    intro rs h hw hr
    simp only [recordAllowed, hw, Bool.false_or] at hal
    exact (hs.opened.held.events hal hr).uncite

theorem Sound.record {w : GraphWorld} {k : RecorderConfig} {event : ExperienceEvent}
    (hs : Sound cited g) (hal : recordAllowed w cited g k [event] = true) :
    Sound cited (Recorder.record w k event g).2 := by
  apply hs.block
  intro r h hw hr
  simp only [recordAllowed, hw, Bool.false_or, eventsAllowed, Bool.and_eq_true] at hal
  have hh := hs.opened.held.event hal.1 hr
  rw [List.nil_append] at hh
  apply Held.uncite
  simpa only [List.flatMap_cons, List.flatMap_nil, List.append_nil] using hh

end Sound

/-- A write on the edges of a graph, by any store or recorder. -/
inductive EdgeCall where
  | upsertEntity (k : GraphConfig) (a : EntityArgs)
  | upsertEdge (k : GraphConfig) (a : EdgeArgs)
  | attachEvidence (k : GraphConfig) (a : EvidenceArgs)
  | reinforceEdge (k : GraphConfig) (id : IdText) (wasUseful : Bool)
  | applyEdgeFeedback (k : GraphConfig) (id : IdText) (feedbackType : String) (delta : ℚ)
  | supersedeEdge (k : GraphConfig) (old : IdText) (a : EdgeArgs)
  | contradictEdge (k : GraphConfig) (id : IdText) (reason : String)
  | markEdgeStale (k : GraphConfig) (id : IdText) (reason : Option String)
  | record (k : RecorderConfig) (event : ExperienceEvent)
  | recordMany (k : RecorderConfig) (events : List ExperienceEvent)

/-- The graph, with the edges that have been asserted with an evidence id so far. -/
structure AssertedGraph where
  cited : List Nat := []
  graph : Graph

def EdgeCall.step (w : GraphWorld) : EdgeCall → AssertedGraph → AssertedGraph
  | .upsertEntity k a, s => ⟨s.cited, (GraphStore.upsertEntity w k a s.graph).2⟩
  | .upsertEdge k a, s =>
    let r := GraphStore.upsertEdge w k a s.graph
    ⟨citing a r.1 s.cited, r.2⟩
  | .attachEvidence k a, s => ⟨s.cited, (GraphStore.attachEvidence w k a s.graph).2⟩
  | .reinforceEdge k id useful, s => ⟨s.cited, (GraphStore.reinforceEdge w k id useful s.graph).2⟩
  | .applyEdgeFeedback k id type delta, s =>
    ⟨s.cited, (GraphStore.applyEdgeFeedback w k id type delta s.graph).2⟩
  | .supersedeEdge k old a, s =>
    ⟨citing (replacement a) (GraphStore.upsertEdge w k (replacement a) s.graph).1 s.cited,
      (GraphStore.supersedeEdge w k old a s.graph).2⟩
  | .contradictEdge k id reason, s => ⟨s.cited, (GraphStore.contradictEdge w k id reason s.graph).2⟩
  | .markEdgeStale k id reason, s => ⟨s.cited, (GraphStore.markEdgeStale w k id reason s.graph).2⟩
  | .record k event, s => ⟨s.cited, (Recorder.record w k event s.graph).2⟩
  | .recordMany k events, s => ⟨s.cited, (Recorder.recordMany w k events s.graph).2⟩

/-- The call takes no confidence out of [0, 1], nor an uncited active edge over the cap. -/
def EdgeCall.allowed (w : GraphWorld) : EdgeCall → AssertedGraph → Bool
  | .upsertEdge k a, s => upsertAllowed w s.cited s.graph k a
  | .supersedeEdge k _ a, s => upsertAllowed w s.cited s.graph k (replacement a)
  | .reinforceEdge k id _, s => reinforceAllowed s.cited s.graph k.brainId (w.clock s.graph.ticks) id
  | .applyEdgeFeedback k id type delta, s => feedbackAllowed w s.cited s.graph k id type delta
  | .record k event, s => recordAllowed w s.cited s.graph k [event]
  | .recordMany k events, s => recordAllowed w s.cited s.graph k events
  | _, _ => true

theorem EdgeCall.step_sound {w : GraphWorld} (c : EdgeCall) (s : AssertedGraph)
    (hs : Sound s.cited s.graph) (hal : c.allowed w s = true) :
    Sound (c.step w s).cited (c.step w s).graph := by
  cases c with
  | upsertEntity k a =>
    apply hs.block
    intro id h _ hr
    have hrow := hs.opened.enterEntity w k.brainId (w.clock s.graph.ticks)
      { a with aliases := a.aliases.map w.unicode.lower }
    rw [hr] at hrow
    exact hrow
  | upsertEdge k a => exact hs.upsertEdge hal
  | attachEvidence k a => exact hs.attachEvidence
  | reinforceEdge k id useful => exact hs.reinforceEdge useful hal
  | applyEdgeFeedback k id type delta => exact hs.applyEdgeFeedback hal
  | supersedeEdge k old a => exact hs.supersedeEdge hal
  | contradictEdge k id reason =>
    apply hs.block
    intro b h _ hr
    obtain ⟨r, g, hu, hr⟩ := Prog.bind_ok hr
    cases hr
    exact hs.opened.update hu (fun _ => rfl) (fun _ => rfl) (fun _ => rfl) (fun _ ha => nomatch ha)
  | markEdgeStale k id reason =>
    apply hs.block
    intro b h _ hr
    obtain ⟨r, g, hu, hr⟩ := Prog.bind_ok hr
    cases hr
    exact hs.opened.update hu (fun _ => rfl) (fun _ => rfl) (fun _ => rfl) (fun _ ha => nomatch ha)
  | record k event => exact hs.record hal
  | recordMany k events => exact hs.recordMany hal

/-- From a graph without edges, the confidences stay in order over every run of calls that are each
allowed where they are made. -/
theorem confidence_capped (w : GraphWorld) (calls : List EdgeCall) (g : Graph)
    (hedges : g.edges = Table.empty) (hevidence : g.evidence = Table.empty)
    (hal : Allowed (EdgeCall.step w) (EdgeCall.allowed w) calls { graph := g }) :
    let s := runSteps (EdgeCall.step w) calls { graph := g }
    Capped s.cited s.graph := by
  have hstart : Sound [] g := by
    constructor
    · constructor <;> (rw [hedges]; intro e he; cases he)
    · rw [hedges]
      intro e he
      cases he
    · rw [hevidence]
      intro ev hev
      cases hev
  have hend := Allowed.keeps (I := fun s : AssertedGraph => Sound s.cited s.graph)
    EdgeCall.step_sound (s := { graph := g }) hstart hal
  exact hend.toCapped

/-- A store on the inferred path. -/
def inferredStore : GraphConfig := { brainId := "brain", evidenceRequired := false }

/-- Two entities and an edge nobody has evidence for. -/
def inferredEdge (confidence : ℚ) : List EdgeCall :=
  [.upsertEntity inferredStore { entityType := "person", canonicalName := "ada" },
    .upsertEntity inferredStore { entityType := "tool", canonicalName := "loom" },
    .upsertEdge inferredStore
      { subject := .uuid 0, predicate := "uses", object := .uuid 1, confidence := confidence }]

theorem confidence_capped_low :
    let s := runSteps (EdgeCall.step .calm) (inferredEdge (3 / 10) ++
      [.reinforceEdge inferredStore (.uuid 2) true,
        .record { brainId := "brain" } { edges := [{
          subject := { entityId := some (.uuid 1) }
          object := { entityId := some (.uuid 0) }
          predicate := "used_by"
          confidence := ⟨4 / 10, by decide +kernel⟩ }] },
        .applyEdgeFeedback inferredStore (.uuid 2) "edge_misleading" (1 / 10)]) { graph := {} }
    Capped s.cited s.graph :=
  confidence_capped .calm _ {} rfl rfl (by decide +kernel)

/-- An inferred edge at the cap leaves it with the first reinforcement. -/
theorem reinforced_over_cap :
    let s := runSteps (EdgeCall.step .calm)
      (inferredEdge (6 / 10) ++ [.reinforceEdge inferredStore (.uuid 2) true]) { graph := {} }
    ¬ Capped s.cited s.graph := by
  intro s h
  have hcap : ∀ e ∈ s.graph.edges.values, e.status = .active → Uncited s.cited s.graph e = true →
      e.confidence ≤ INFERRED_CONFIDENCE_CAP := h.cap
  revert hcap
  decide +kernel

end TappsBrain
