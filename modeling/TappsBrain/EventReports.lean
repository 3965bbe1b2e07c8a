import TappsBrain.EventWarnings

namespace TappsBrain
open Lib
set_option autoImplicit true
set_option relaxedAutoImplicit false

section EntryPoints
variable {w : GraphWorld} {k : RecorderConfig} {r : ItemReader} {g h : Graph}

theorem growth_opened (w : GraphWorld) (brain : String) (g : Graph) : Growth w brain g g.opened :=
  fun hg => ⟨fun _ x hx => ⟨x, hx, rfl⟩, fun _ _ hc => hc, fun _ hv => hv,
    ⟨hg.entities, hg.edges, hg.evidence⟩⟩

theorem recordEvent_eq (call : EventCall) : KgService.recordEvent w k r call =
    Recorder.record w k ((call.given r).event r) >>= fun result =>
      pure (mergeWarnings ((call.given r).coerced r).2 result) := by
  rw [← coerced_event]
  rfl

theorem recordEvent_ok {call : EventCall} {answer : EventAnswer}
    (hr : KgService.recordEvent w k r call g = (.ok answer, h)) :
    ∃ now result, Recorder.writeEvent w k now ((call.given r).event r) g.opened = (.ok result, h) ∧
      answer = mergeWarnings ((call.given r).coerced r).2 result := by
  rw [recordEvent_eq] at hr
  obtain ⟨result, u, hrecord, hend⟩ := Prog.bind_ok hr
  cases hend
  obtain ⟨e, he⟩ | ⟨result', h', -, hwrite, hrun⟩ :=
    transaction_cases w (fun now => Recorder.writeEvent w k now ((call.given r).event r)) g
  · rw [Recorder.record, he] at hrecord
    cases hrecord
  · rw [Recorder.record, hrun] at hrecord
    cases hrecord
    exact ⟨_, result, hwrite, rfl⟩

theorem recordEvent_growth {call : EventCall} {answer : Except GraphError EventAnswer}
    (hr : KgService.recordEvent w k r call g = (answer, h)) : Growth w k.brainId g h := by
  cases answer with
  | ok answer =>
    obtain ⟨now, result, hwrite, -⟩ := recordEvent_ok hr
    exact (growth_opened w k.brainId g).trans _ _ _ (writeEvent_growth hwrite)
  | error e =>
    rw [recordEvent_eq, Prog.bind_run] at hr
    obtain ⟨e', he⟩ | ⟨result, h', -, -, hrun⟩ :=
      transaction_cases w (fun now => Recorder.writeEvent w k now ((call.given r).event r)) g
    · rw [Recorder.record, he] at hr
      cases hr
      exact growth_opened w k.brainId g
    · rw [Recorder.record, hrun] at hr
      cases hr

theorem recordEvent_reported_iff {call : EventCall} {answer : EventAnswer} {h' : Graph}
    (hg : g.Drawn) (hr : KgService.recordEvent w k r call g = (.ok answer, h))
    (hgrows : Grows w k.brainId h h') :
    EventReported w k r (call.given r) answer h' ↔ InPlace w r (call.given r) := by
  obtain ⟨now, result, hwrite, rfl⟩ := recordEvent_ok hr
  exact eventReported_iff (growth_opened w k.brainId g hg).drawn hwrite hgrows

theorem fromTx_ok {p : Tx α} {a : α} (hr : fromTx p g = (.ok a, h)) : p g = (.ok a, h) := by
  rw [fromTx] at hr
  rcases hp : p g with ⟨e | b, u⟩
  · rw [hp] at hr
    cases hr
  · rw [hp] at hr
    cases hr
    rfl

theorem coerceDict_eq (ev : PyJson) : coerceDict r ev = ((givenIn r ev).coerced r) := rfl

/-- The events of a batch, each with the answer to it. -/
theorem recordEventsBatch_reported {evs : List PyJson} {answers : List EventAnswer} (hg : g.Drawn)
    (hr : KgService.recordEventsBatch w k r (.arr evs) g = (.ok (.results answers), h)) :
    List.Forall₂ (fun ev answer => EventReported w k r (givenIn r ev) answer h ↔
      InPlace w r (givenIn r ev)) evs answers := by
  cases evs with
  | nil => cases hr
  | cons first rest =>
    obtain ⟨check, u, hcheck, hr⟩ := Prog.bind_ok hr
    have hu : u = g := by
      cases hc : checkEvents 0 (first :: rest) with
      | error e =>
        rw [hc] at hcheck
        cases hcheck
      | ok c =>
        rw [hc] at hcheck
        cases hcheck
        rfl
    subst hu
    cases check with
    | some e => cases hr
    | none =>
      obtain ⟨results, v, hrun, hend⟩ := Prog.bind_ok hr
      cases hend
      have hmany := fromTx_ok hrun
      rw [Recorder.recordMany, List.isEmpty_map, if_neg (by simp)] at hmany
      obtain ⟨e, he⟩ | ⟨results', h', -, hwrite, htx⟩ := transaction_cases w
        (fun now => Prog.mapEach (Recorder.writeEvent w k now)
          (((first :: rest).map (coerceDict r)).map (·.1))) u
      · rw [he] at hmany
        cases hmany
      · rw [htx] at hmany
        cases hmany
        obtain ⟨-, hlength, hturns⟩ := Prog.mapEach_turn (R := Growth w k.brainId) Growth.refl
          Growth.trans (fun _ _ _ _ hb => writeEvent_growth hb) hwrite
        have hopened := growth_opened w k.brainId u hg
        rw [List.forall₂_iff_get]
        rw [List.length_map, List.length_map] at hlength
        have hanswers : (List.zipWith mergeWarnings
            (((first :: rest).map (coerceDict r)).map (·.2)) results).length =
            (first :: rest).length := by
          rw [List.length_zipWith, List.length_map, List.length_map, hlength, Nat.min_self]
        refine ⟨hanswers.symm, ?_⟩
        intro q hq hq'
        have hevent : (((first :: rest).map (coerceDict r)).map (·.1))[q]? =
            some ((givenIn r (first :: rest)[q]).event r) := by
          rw [List.map_map, List.getElem?_map, List.getElem?_eq_getElem hq, ← coerced_event]
          rfl
        obtain ⟨result, a, b, hresult, ha, hrun', hb⟩ := hturns q _ hevent
        have hga := ha hopened.drawn
        have hgb := hb (writeEvent_growth hrun' hga.drawn).drawn
        have hiff := eventReported_iff hga.drawn hrun' hgb
        obtain ⟨hqr, rfl⟩ := List.getElem?_eq_some_iff.mp hresult
        simp only [List.get_eq_getElem, List.getElem_zipWith, List.getElem_map]
        exact hiff

/-- A list of an event dict is the one its entry in the keyword arguments gives. -/
theorem givenList_getOr (r : ItemReader) (ev : PyJson) (name : String) :
    r.givenList (getOr ev name (.arr [])) "" = r.givenList ((ev.get? name).getD .null) "" := by
  have hblank : ¬ (strip "" ≠ "" ∧ strip "" ≠ "[]") := fun h => h.1 rfl
  rw [getOr]
  cases ev.get? name with
  | none => simp [ItemReader.givenList, hblank]
  | some j =>
    dsimp only
    split
    · rfl
    · next hfalsy =>
      cases j with
      | arr items =>
        cases items with
        | nil => rfl
        | cons item rest => exact absurd rfl hfalsy
      | null => simp [ItemReader.givenList, hblank]
      | bool b => simp [ItemReader.givenList, hblank]
      | num n => simp [ItemReader.givenList, hblank]
      | str s => simp [ItemReader.givenList, hblank]
      | obj members => simp [ItemReader.givenList, hblank]

theorem given_eventRecordKwargs (r : ItemReader) (ev : PyJson) :
    (KgService.eventRecordKwargs ev).given r = givenIn r ev := by
  simp only [EventCall.given, KgService.eventRecordKwargs, givenList_getOr, givenIn]

theorem processOneEvent_cases {index : Nat} {ev : PyJson} {entry : EventEntry}
    (hr : KgService.processOneEvent w k r index ev g = (.ok entry, h)) :
    (∃ reason, entry = .failed index reason) ∧ Growth w k.brainId g h ∨
      ∃ answer, entry = .succeeded index answer ∧
        KgService.recordEvent w k r (KgService.eventRecordKwargs ev) g = (.ok answer, h) := by
  obtain ⟨check, u, hcheck, hr⟩ := Prog.bind_ok hr
  have hu : u = g := by
    cases hc : checkEvent index ev with
    | error e =>
      rw [hc] at hcheck
      cases hcheck
    | ok c =>
      rw [hc] at hcheck
      cases hcheck
      rfl
  subst hu
  cases check with
  | some e =>
    cases hr
    exact .inl ⟨⟨_, rfl⟩, Growth.refl h⟩
  | none =>
    rcases hrun : KgService.recordEvent w k r (KgService.eventRecordKwargs ev) u with ⟨e | answer, v⟩
    · simp only [hrun] at hr
      cases hr
      exact .inl ⟨⟨_, rfl⟩, recordEvent_growth hrun⟩
    · simp only [hrun] at hr
      cases hr
      exact .inr ⟨answer, rfl, rfl⟩

theorem processOneEvent_growth {index : Nat} {ev : PyJson} {entry : EventEntry}
    (hr : KgService.processOneEvent w k r index ev g = (.ok entry, h)) : Growth w k.brainId g h := by
  rcases processOneEvent_cases hr with ⟨-, hgrowth⟩ | ⟨answer, -, hrun⟩
  · exact hgrowth
  · exact recordEvent_growth hrun

/-- Every event of a batch with a transaction for each is answered at its place. -/
theorem recordEventsBatchPerEventTx_reported {evs : List PyJson} {maxEvents : Nat}
    {succeeded : List (Nat × EventAnswer)} {failed : List (Nat × FailReason)} (hg : g.Drawn)
    (hr : KgService.recordEventsBatchPerEventTx w k r (.arr evs) maxEvents g =
      (.ok (.entries succeeded failed), h)) (i : Nat) (ev : PyJson) (hi : evs[i]? = some ev) :
    ((∃ answer, (i, answer) ∈ succeeded) ∨ ∃ reason, (i, reason) ∈ failed) ∧
      ∀ answer, (i, answer) ∈ succeeded →
        (EventReported w k r (givenIn r ev) answer h ↔ InPlace w r (givenIn r ev)) := by
  rw [KgService.recordEventsBatchPerEventTx] at hr
  cases hv : validateEventsBatchInput (.arr evs) maxEvents with
  | error e =>
    rw [hv] at hr
    cases hr
  | ok evs' =>
    have hevs : evs' = evs := by
      unfold validateEventsBatchInput at hv
      split at hv
      · cases hv
      · next hcons =>
        cases hcons
        split at hv
        · cases hv
        · exact (Except.ok.inj hv).symm
      · cases hv
    subst hevs
    rw [hv] at hr
    obtain ⟨entries, u, hrun, hend⟩ := Prog.bind_ok hr
    cases hend
    obtain ⟨-, hlength, hturns⟩ := Prog.mapEach_turn (R := Growth w k.brainId) Growth.refl
      Growth.trans (fun _ _ _ _ hb => processOneEvent_growth hb) hrun
    -- The entry at a place is about the event at that place, under its number.
    have hentry : ∀ (q : Nat) ev', evs'[q]? = some ev' → ∃ entry a b, entries[q]? = some entry ∧
        Growth w k.brainId g a ∧ KgService.processOneEvent w k r q ev' a = (.ok entry, b) ∧
        Growth w k.brainId b h := by
      intro q ev' hq
      apply hturns q (ev', q)
      rw [List.getElem?_zipIdx, hq, Option.map_some, Nat.zero_add]
    constructor
    · obtain ⟨entry, a, b, hmem, -, hone, -⟩ := hentry i ev hi
      rcases processOneEvent_cases hone with ⟨⟨reason, rfl⟩, -⟩ | ⟨answer, rfl, -⟩
      · exact .inr ⟨reason, List.mem_filterMap.mpr ⟨_, List.mem_of_getElem? hmem, rfl⟩⟩
      · exact .inl ⟨answer, List.mem_filterMap.mpr ⟨_, List.mem_of_getElem? hmem, rfl⟩⟩
    · intro answer hanswer
      obtain ⟨entry, hmem, hsuccess⟩ := List.mem_filterMap.mp hanswer
      obtain ⟨q, hq⟩ := List.mem_iff_getElem?.mp hmem
      have hlt := (List.getElem?_eq_some_iff.mp hq).1
      rw [hlength, List.length_zipIdx] at hlt
      obtain ⟨entry', a, b, hmem', ha, hone, hb⟩ := hentry q _ (List.getElem?_eq_getElem hlt)
      rw [hq] at hmem'
      cases hmem'
      rcases processOneEvent_cases hone with ⟨⟨reason, rfl⟩, -⟩ | ⟨answer', rfl, hrecord⟩
      · cases hsuccess
      · cases hsuccess
        have hev : evs'[i] = ev := Option.some.inj ((List.getElem?_eq_getElem hlt).symm.trans hi)
        rw [hev] at hrecord
        have hbdrawn := (recordEvent_growth hrecord (ha hg).drawn).drawn
        have hiff := recordEvent_reported_iff (ha hg).drawn hrecord (hb hbdrawn)
        rw [given_eventRecordKwargs] at hiff
        exact hiff

end EntryPoints

/-- Two calls leave one graph and fail or return alike, but for what `plain` leaves out. -/
def SameBut {α β ε : Type} (plain : α → β) (a b : Except ε α × Graph) : Prop :=
  a.2 = b.2 ∧ a.1.map plain = b.1.map plain

/-- Two event dicts pass or fail the same checks and have the same valid items. -/
structure Alike (r : ItemReader) (ev ev' : PyJson) : Prop where
  checked : ∀ index, checkEvent index ev = checkEvent index ev'
  items : (givenIn r ev).event r = (givenIn r ev').event r

/-- A batch answer without its warnings. -/
def BatchAnswer.plain : BatchAnswer → Envelope ⊕ List ExperienceResult
  | .rejected e => .inl e
  | .results answers => .inr (answers.map EventAnswer.result)

def EventEntry.plain : EventEntry → Nat × (ExperienceResult ⊕ FailReason)
  | .succeeded index answer => (index, .inl answer.result)
  | .failed index reason => (index, .inr reason)

def PerEventAnswer.plain :
    PerEventAnswer → Envelope ⊕ List (Nat × ExperienceResult) × List (Nat × FailReason)
  | .rejected e => .inl e
  | .entries succeeded failed => .inr (succeeded.map (fun p => (p.1, p.2.result)), failed)

section Harmless
variable {w : GraphWorld} {k : RecorderConfig} {r : ItemReader} {g : Graph} {evs evs' : List PyJson}

theorem recordEvent_sameBut {call call' : EventCall}
    (h : (call.given r).event r = (call'.given r).event r) :
    SameBut EventAnswer.result (KgService.recordEvent w k r call g)
      (KgService.recordEvent w k r call' g) := by
  rw [recordEvent_eq, recordEvent_eq, h, Prog.bind_run, Prog.bind_run]
  rcases Recorder.record w k ((call'.given r).event r) g with ⟨e | result, u⟩
  · exact ⟨rfl, rfl⟩
  · exact ⟨rfl, rfl⟩

theorem checkEvents_alike (h : List.Forall₂ (Alike r) evs evs') (index : Nat) :
    checkEvents index evs = checkEvents index evs' := by
  induction h generalizing index with
  | nil => rfl
  | cons hev _ ih => rw [checkEvents, checkEvents, hev.checked index, ih (index + 1)]

theorem coerced_alike (h : List.Forall₂ (Alike r) evs evs') :
    (evs.map (coerceDict r)).map (·.1) = (evs'.map (coerceDict r)).map (·.1) := by
  induction h with
  | nil => rfl
  | @cons ev ev' _ _ hev _ ih =>
    have hfirst : (coerceDict r ev).1 = (coerceDict r ev').1 := by
      rw [coerceDict_eq, coerceDict_eq, coerced_event, coerced_event, hev.items]
    simp only [List.map_cons, hfirst, ih]

theorem map_result_zipWith (warnings : List (List EventWarning)) (results : List ExperienceResult) :
    (List.zipWith mergeWarnings warnings results).map EventAnswer.result =
      results.take warnings.length := by
  induction warnings generalizing results with
  | nil => rfl
  | cons first rest ih =>
    cases results with
    | nil => rfl
    | cons result results =>
      rw [List.zipWith_cons_cons, List.map_cons, ih, List.length_cons, List.take_succ_cons]
      rfl

theorem recordEventsBatch_run (ev : PyJson) (rest : List PyJson) :
    KgService.recordEventsBatch w k r (.arr (ev :: rest)) g =
      match checkEvents 0 (ev :: rest) with
      | .error e => (.error e, g)
      | .ok (some e) => (.ok (.rejected e), g)
      | .ok none =>
        match fromTx (Recorder.recordMany w k (((ev :: rest).map (coerceDict r)).map (·.1))) g with
        | (.error e, h) => (.error e, h)
        | (.ok results, h) => (.ok (.results (List.zipWith mergeWarnings
            (((ev :: rest).map (coerceDict r)).map (·.2)) results)), h) := by
  cases hcheck : checkEvents 0 (ev :: rest) with
  | error e =>
    have hrun : Prog.ofExcept (checkEvents 0 (ev :: rest)) g = (.error e, g) := by
      rw [hcheck]
      rfl
    exact Prog.bind_run_error hrun
  | ok check =>
    have hrun : Prog.ofExcept (checkEvents 0 (ev :: rest)) g = (.ok check, g) := by
      rw [hcheck]
      rfl
    apply (Prog.bind_run_ok hrun).trans
    cases check with
    | some e => rfl
    | none =>
      dsimp only
      rw [Prog.bind_run]
      split
      · next heq => rw [heq]; rfl
      · next heq => rw [heq]

theorem recordEventsBatch_sameBut (h : List.Forall₂ (Alike r) evs evs') :
    SameBut BatchAnswer.plain (KgService.recordEventsBatch w k r (.arr evs) g)
      (KgService.recordEventsBatch w k r (.arr evs') g) := by
  cases h with
  | nil => exact ⟨rfl, rfl⟩
  | @cons ev ev' rest rest' hev hrest =>
    have hall : List.Forall₂ (Alike r) (ev :: rest) (ev' :: rest') := .cons hev hrest
    have hlength := hall.length_eq
    rw [recordEventsBatch_run, recordEventsBatch_run, ← checkEvents_alike hall, ← coerced_alike hall]
    cases checkEvents 0 (ev :: rest) with
    | error e => exact ⟨rfl, rfl⟩
    | ok check =>
      cases check with
      | some e => exact ⟨rfl, rfl⟩
      | none =>
        dsimp only
        split
        · exact ⟨rfl, rfl⟩
        · refine ⟨rfl, ?_⟩
          simp only [Except.map, BatchAnswer.plain, map_result_zipWith, List.length_map, hlength]

/-- Loops over alike lists come to alike ends. -/
theorem mapEach_sameBut {α β γ ε : Type} {R : α → α → Prop} {f : α → Prog Graph ε β} {plain : β → γ}
    (hf : ∀ a a', R a a' → ∀ g, SameBut plain (f a g) (f a' g)) {l l' : List α}
    (hl : List.Forall₂ R l l') (g : Graph) :
    SameBut (List.map plain) (Prog.mapEach f l g) (Prog.mapEach f l' g) := by
  induction hl generalizing g with
  | nil => exact ⟨rfl, rfl⟩
  | @cons a a' rest rest' ha _ ih =>
    obtain ⟨hstate, hanswer⟩ := hf a a' ha g
    rw [Prog.mapEach, Prog.mapEach, Prog.bind_run, Prog.bind_run]
    rcases hfirst : f a g with ⟨e | b, u⟩
    · rcases hfirst' : f a' g with ⟨e' | b', u'⟩
      · rw [hfirst, hfirst'] at hstate hanswer
        cases hstate
        cases hanswer
        exact ⟨rfl, rfl⟩
      · rw [hfirst, hfirst'] at hanswer
        cases hanswer
    · rcases hfirst' : f a' g with ⟨e' | b', u'⟩
      · rw [hfirst, hfirst'] at hanswer
        cases hanswer
      · rw [hfirst, hfirst'] at hstate hanswer
        cases hstate
        have hb : plain b = plain b' := Except.ok.inj hanswer
        obtain ⟨hstate, hanswers⟩ := ih u
        dsimp only
        rw [Prog.bind_run, Prog.bind_run]
        rcases hrest : Prog.mapEach f rest u with ⟨e | bs, v⟩
        · rcases hrest' : Prog.mapEach f rest' u with ⟨e' | bs', v'⟩
          · rw [hrest, hrest'] at hstate hanswers
            cases hstate
            cases hanswers
            exact ⟨rfl, rfl⟩
          · rw [hrest, hrest'] at hanswers
            cases hanswers
        · rcases hrest' : Prog.mapEach f rest' u with ⟨e' | bs', v'⟩
          · rw [hrest, hrest'] at hanswers
            cases hanswers
          · rw [hrest, hrest'] at hstate hanswers
            cases hstate
            have hbs : bs.map plain = bs'.map plain := Except.ok.inj hanswers
            refine ⟨rfl, ?_⟩
            simp only [Prog.pure_run, Except.map, List.map_cons, hb, hbs]

theorem processOneEvent_sameBut {index : Nat} {ev ev' : PyJson} (h : Alike r ev ev') (g : Graph) :
    SameBut EventEntry.plain (KgService.processOneEvent w k r index ev g)
      (KgService.processOneEvent w k r index ev' g) := by
  have hitems : ((KgService.eventRecordKwargs ev).given r).event r =
      ((KgService.eventRecordKwargs ev').given r).event r := by
    rw [given_eventRecordKwargs, given_eventRecordKwargs, h.items]
  obtain ⟨hstate, hanswer⟩ := recordEvent_sameBut (w := w) (k := k) (g := g) hitems
  rw [KgService.processOneEvent, KgService.processOneEvent, ← h.checked index]
  cases checkEvent index ev with
  | error e => exact ⟨rfl, rfl⟩
  | ok check =>
    cases check with
    | some e => exact ⟨rfl, rfl⟩
    | none =>
      have hask : Prog.ofExcept (.ok none : Except EventError (Option Envelope)) g = (.ok none, g) := rfl
      rw [Prog.bind_run_ok hask, Prog.bind_run_ok hask]
      dsimp only
      rcases hrun : KgService.recordEvent w k r (KgService.eventRecordKwargs ev) g with ⟨e | a, u⟩
      · rcases hrun' : KgService.recordEvent w k r (KgService.eventRecordKwargs ev') g with
          ⟨e' | a', u'⟩
        · rw [hrun, hrun'] at hstate hanswer
          cases hstate
          cases hanswer
          exact ⟨rfl, rfl⟩
        · rw [hrun, hrun'] at hanswer
          cases hanswer
      · rcases hrun' : KgService.recordEvent w k r (KgService.eventRecordKwargs ev') g with
          ⟨e' | a', u'⟩
        · rw [hrun, hrun'] at hanswer
          cases hanswer
        · rw [hrun, hrun'] at hstate hanswer
          cases hstate
          have hresult : a.result = a'.result := Except.ok.inj hanswer
          refine ⟨rfl, ?_⟩
          simp only [Except.map, EventEntry.plain, hresult]

theorem alike_zipIdx (h : List.Forall₂ (Alike r) evs evs') (n : Nat) :
    List.Forall₂ (fun p p' => Alike r p.1 p'.1 ∧ p.2 = p'.2) (evs.zipIdx n) (evs'.zipIdx n) := by
  induction h generalizing n with
  | nil => exact .nil
  | cons hev _ ih => exact .cons ⟨hev, rfl⟩ (ih (n + 1))

/-- The two lists of an answer, without warnings, are read off the entries without theirs. -/
theorem plain_entries (entries : List EventEntry) :
    (PerEventAnswer.entries (entries.filterMap EventEntry.success)
        (entries.filterMap EventEntry.failure)).plain =
      .inr ((entries.map EventEntry.plain).filterMap (fun p => p.2.getLeft?.map (p.1, ·)),
        (entries.map EventEntry.plain).filterMap (fun p => p.2.getRight?.map (p.1, ·))) := by
  rw [PerEventAnswer.plain, List.map_filterMap, List.filterMap_map, List.filterMap_map]
  congr 2
  · apply List.filterMap_congr
    intro entry _
    cases entry with
    | succeeded index answer => rfl
    | failed index reason => rfl
  · apply List.filterMap_congr
    intro entry _
    cases entry with
    | succeeded index answer => rfl
    | failed index reason => rfl

theorem validate_alike (h : List.Forall₂ (Alike r) evs evs') (maxEvents : Nat) :
    (∃ e, validateEventsBatchInput (.arr evs) maxEvents = .error e ∧
      validateEventsBatchInput (.arr evs') maxEvents = .error e) ∨
    validateEventsBatchInput (.arr evs) maxEvents = .ok evs ∧
      validateEventsBatchInput (.arr evs') maxEvents = .ok evs' := by
  have hlength := h.length_eq
  cases h with
  | nil => exact .inl ⟨_, rfl, rfl⟩
  | cons hev hrest =>
    simp only [validateEventsBatchInput, ← hlength]
    split
    · exact .inl ⟨_, rfl, rfl⟩
    · exact .inr ⟨rfl, rfl⟩

theorem recordEventsBatchPerEventTx_sameBut (h : List.Forall₂ (Alike r) evs evs') (maxEvents : Nat) :
    SameBut PerEventAnswer.plain (KgService.recordEventsBatchPerEventTx w k r (.arr evs) maxEvents g)
      (KgService.recordEventsBatchPerEventTx w k r (.arr evs') maxEvents g) := by
  rw [KgService.recordEventsBatchPerEventTx, KgService.recordEventsBatchPerEventTx]
  rcases validate_alike h maxEvents with ⟨e, he, he'⟩ | ⟨hok, hok'⟩
  · rw [he, he']
    exact ⟨rfl, rfl⟩
  · rw [hok, hok']
    dsimp only
    have hone : ∀ p p' : PyJson × Nat, Alike r p.1 p'.1 ∧ p.2 = p'.2 → ∀ g,
        SameBut EventEntry.plain (KgService.processOneEvent w k r p.2 p.1 g)
          (KgService.processOneEvent w k r p'.2 p'.1 g) := by
      intro p p' hp g
      rw [← hp.2]
      exact processOneEvent_sameBut hp.1 g
    obtain ⟨hstate, hanswer⟩ := mapEach_sameBut hone (alike_zipIdx h 0) g
    rw [Prog.bind_run, Prog.bind_run]
    rcases hrun : Prog.mapEach (fun p : PyJson × Nat => KgService.processOneEvent w k r p.2 p.1)
      evs.zipIdx g with ⟨e | entries, u⟩
    · rcases hrun' : Prog.mapEach (fun p : PyJson × Nat => KgService.processOneEvent w k r p.2 p.1)
        evs'.zipIdx g with ⟨e' | entries', u'⟩
      · rw [hrun, hrun'] at hstate hanswer
        cases hstate
        cases hanswer
        exact ⟨rfl, rfl⟩
      · rw [hrun, hrun'] at hanswer
        cases hanswer
    · rcases hrun' : Prog.mapEach (fun p : PyJson × Nat => KgService.processOneEvent w k r p.2 p.1)
        evs'.zipIdx g with ⟨e' | entries', u'⟩
      · rw [hrun, hrun'] at hanswer
        cases hanswer
      · rw [hrun, hrun'] at hstate hanswer
        cases hstate
        have hentries : entries.map EventEntry.plain = entries'.map EventEntry.plain :=
          Except.ok.inj hanswer
        refine ⟨rfl, ?_⟩
        simp only [Prog.pure_run, Except.map, plain_entries, hentries]

/-- An answer reports at their places the items it dropped if and only if they are in place, and the
items that are not valid change nothing but warnings. -/
theorem droppedItems_reported_iff (hg : g.Drawn) :
    (∀ call answer h, KgService.recordEvent w k r call g = (.ok answer, h) →
      (EventReported w k r (call.given r) answer h ↔ InPlace w r (call.given r))) ∧
    (∀ evs answers h, KgService.recordEventsBatch w k r (.arr evs) g = (.ok (.results answers), h) →
      List.Forall₂ (fun ev answer => EventReported w k r (givenIn r ev) answer h ↔
        InPlace w r (givenIn r ev)) evs answers) ∧
    (∀ evs maxEvents succeeded failed h,
      KgService.recordEventsBatchPerEventTx w k r (.arr evs) maxEvents g =
        (.ok (.entries succeeded failed), h) →
      ∀ (i : Nat) ev, evs[i]? = some ev →
        ((∃ answer, (i, answer) ∈ succeeded) ∨ ∃ reason, (i, reason) ∈ failed) ∧
        ∀ answer, (i, answer) ∈ succeeded →
          (EventReported w k r (givenIn r ev) answer h ↔ InPlace w r (givenIn r ev))) ∧
    (∀ call call' : EventCall, (call.given r).event r = (call'.given r).event r →
      SameBut EventAnswer.result (KgService.recordEvent w k r call g)
        (KgService.recordEvent w k r call' g)) ∧
    (∀ evs evs', List.Forall₂ (Alike r) evs evs' →
      SameBut BatchAnswer.plain (KgService.recordEventsBatch w k r (.arr evs) g)
        (KgService.recordEventsBatch w k r (.arr evs') g) ∧
      ∀ maxEvents, SameBut PerEventAnswer.plain
        (KgService.recordEventsBatchPerEventTx w k r (.arr evs) maxEvents g)
        (KgService.recordEventsBatchPerEventTx w k r (.arr evs') maxEvents g)) := by
  refine ⟨?_, ?_, ?_, ?_, ?_⟩
  · intro call answer h hr
    exact recordEvent_reported_iff hg hr (Grows.refl (recordEvent_growth hr hg).drawn)
  · exact fun evs answers h hr => recordEventsBatch_reported hg hr
  · intro evs maxEvents succeeded failed h hr
    exact recordEventsBatchPerEventTx_reported hg hr
  · exact fun call call' h => recordEvent_sameBut h
  · exact fun evs evs' h => ⟨recordEventsBatch_sameBut h, recordEventsBatchPerEventTx_sameBut h⟩

end Harmless
section Misplaced

/-- A reader of items that give no numbers, no ids and no metadata. -/
def plainReader : ItemReader where
  laxFloat := fun _ => none
  pyStr := fun _ => ""
  column := fun _ => ""
  uuidOf := fun _ => none
  loads := fun _ => none

/-- An edge between entities that the event does not have. -/
def ghostEdge : PyJson := .obj [("subject_key", .str "ghost"), ("predicate", .str "haunts"),
  ("object_key", .str "ghost")]

/-- An edge without ends. -/
def looseEdge : PyJson := .obj [("predicate", .str "uses")]

def orderedCall : EventCall where
  entities := .arr [.obj [("key", .str "web")]]
  edges := .arr [ghostEdge, looseEdge]

def mixedCall : EventCall where
  edges := .arr [.str "uses", looseEdge, ghostEdge]

def unresolvedAnswer (ids : List (Option Nat)) (index : Nat) : EventAnswer where
  result := { entityIds := ids, edgeIds := [none], warnings := [.unresolvedSubject 0] }
  warnings := [.invalid .edge index, .recorder (.unresolvedSubject 0)]

theorem droppedItems_reported_iff_ordered :
    EventReported .calm { brainId := "main" } plainReader (orderedCall.given plainReader)
        (unresolvedAnswer [some 0] 1)
        (KgService.recordEvent .calm { brainId := "main" } plainReader orderedCall {}).2 ↔
      InPlace .calm plainReader (orderedCall.given plainReader) := by
  have hdrawn : ({} : Graph).Drawn :=
    ⟨fun _ hx => absurd hx List.not_mem_nil, fun _ hx => absurd hx List.not_mem_nil,
      fun _ hx => absurd hx List.not_mem_nil⟩
  exact (droppedItems_reported_iff hdrawn).1 orderedCall (unresolvedAnswer [some 0] 1) _
    (Prod.ext (by decide +kernel) rfl)

/-- Both warnings name the text before the two edges they are about. -/
theorem mixedCall_misplaces :
    ∃ answer h, KgService.recordEvent .calm { brainId := "main" } plainReader mixedCall {} =
        (.ok answer, h) ∧
      [answer.reports .edge 0, answer.reports .edge 1, answer.reports .edge 2] = [2, 0, 0] ∧
      ¬ EventReported .calm { brainId := "main" } plainReader (mixedCall.given plainReader) answer h := by
  refine ⟨unresolvedAnswer [] 0, _, Prod.ext (by decide +kernel) rfl, by decide, ?_⟩
  intro hreported
  have hdropped : Dropped plainReader.edgeSpec
      (EdgeSpec.Unresolved .calm ((mixedCall.given plainReader).event plainReader).entities)
      (.str "uses") := by
    intro spec hspec
    rw [edgeSpec_isObject plainReader (.str "uses") rfl] at hspec
    cases hspec
  have hone := hreported.edges 0 (.str "uses") rfl hdropped
  exact absurd hone (by decide)

end Misplaced
end TappsBrain
