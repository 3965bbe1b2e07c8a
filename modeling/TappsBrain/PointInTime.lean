import TappsBrain.Rules
import TappsBrain.Search

namespace TappsBrain
open Lib
set_option autoImplicit true
set_option relaxedAutoImplicit false

section Candidates
variable {x : TextIndex} {q : SearchRequest} {now : Stamp} {rows : List MemoryEntry}

/-- The query matches the text of the row, in either of its two forms. -/
def textMatches (x : TextIndex) (q : SearchRequest) (e : MemoryEntry) : Bool :=
  (x.rankOf false q.query e).isSome ||
    (buildOrTsquery q.query).any (fun orQuery => (x.rankOf true orQuery e).isSome)

/-- A search may return the row: one of its branches finds it, and the filters keep it. -/
def mayReturn (c : Config) (x : TextIndex) (q : SearchRequest) (now : Stamp) (e : MemoryEntry) :
    Bool :=
  !isBlank q.query &&
    ((textMatches x q e && searchClause q now e) ||
      (vectorBranchRuns q && (x.distance q.query e.key).isSome && knnClause q now e)) &&
    searchFilter q now (e.normalised c.unicode)

theorem mem_ftsPass {matchAny : Bool} {query : String} {r : Scored}
    (h : r ∈ ftsPass x q now matchAny query rows) :
    r.entry ∈ rows ∧ searchClause q now r.entry = true ∧
      (x.rankOf matchAny query r.entry).isSome = true := by
  have hm := List.mem_of_mem_take h
  rw [List.mem_insertionSort, List.mem_filterMap] at hm
  obtain ⟨e, he, hr⟩ := hm
  rw [Option.map_eq_some_iff] at hr
  obtain ⟨rank, hrank, rfl⟩ := hr
  rw [List.mem_filter] at he
  exact ⟨he.1, he.2, by rw [hrank]; rfl⟩

theorem mem_ftsSearch {r : Scored} (h : r ∈ ftsSearch x q now rows) :
    isBlank q.query = false ∧ r.entry ∈ rows ∧ searchClause q now r.entry = true ∧
      textMatches x q r.entry = true := by
  rw [ftsSearch] at h
  split at h
  · cases h
  · next hblank =>
    have hblank : isBlank q.query = false := by simpa using hblank
    split at h
    · split at h
      · cases h
      · next orQuery hor =>
        obtain ⟨hr, hc, hm⟩ := mem_ftsPass h
        exact ⟨hblank, hr, hc, by rw [textMatches, hor, Option.any_some, hm, Bool.or_true]⟩
    · obtain ⟨hr, hc, hm⟩ := mem_ftsPass h
      exact ⟨hblank, hr, hc, by rw [textMatches, hm, Bool.true_or]⟩

theorem mem_knnSearch {r : Scored} (h : r ∈ knnSearch x q now rows) :
    isBlank q.query = false ∧ r.entry ∈ rows ∧ knnClause q now r.entry = true ∧
      (x.distance q.query r.entry.key).isSome = true := by
  rw [knnSearch] at h
  split at h
  · cases h
  · next hblank =>
    obtain ⟨r', hr', rfl⟩ := List.mem_map.1 h
    have hm := List.mem_of_mem_take hr'
    rw [List.mem_insertionSort, List.mem_filterMap] at hm
    obtain ⟨e, he, hr⟩ := hm
    rw [Option.map_eq_some_iff] at hr
    obtain ⟨d, hd, rfl⟩ := hr
    rw [List.mem_filter] at he
    exact ⟨by simpa using hblank, he.1, he.2, by rw [hd]; rfl⟩

theorem mem_fuseFtsAndVector {fts vector : List MemoryEntry} {e : MemoryEntry}
    (h : e ∈ fuseFtsAndVector fts vector) : e ∈ fts ∨ e ∈ vector := by
  obtain ⟨r, hr, rfl⟩ := List.mem_map.1 h
  rw [List.mem_insertionSort] at hr
  obtain ⟨e, he, rfl⟩ := List.mem_map.1 hr
  rcases List.mem_append.1 he with hv | ho
  · exact .inr hv
  · exact .inl (List.mem_of_mem_filter ho)

theorem mem_usableVector {fts near : List Scored} {r : Scored} (h : r ∈ usableVector fts near) :
    r ∈ near := by
  rw [usableVector] at h
  split at h
  · exact h
  · exact List.mem_of_mem_filter h

theorem mem_combineBranches {fts near : List Scored} {e : MemoryEntry}
    (h : e ∈ combineBranches fts near) : e ∈ fts.map (·.entry) ∨ e ∈ near.map (·.entry) := by
  rw [combineBranches] at h
  split at h
  · exact .inl h
  · apply (mem_fuseFtsAndVector h).imp id
    intro hv
    obtain ⟨r, hr, rfl⟩ := List.mem_map.1 hv
    exact List.mem_map_of_mem (mem_usableVector hr)

end Candidates

/-- Whatever a search returns is a stored row that it may return. -/
theorem mem_searchRows {c : Config} {x : TextIndex} {q : SearchRequest} {now : Stamp}
    {rows found : List MemoryEntry} (h : searchRows c x q now rows = .ok found) {e : MemoryEntry}
    (he : e ∈ found) :
    ∃ row ∈ rows, e = row.normalised c.unicode ∧ mayReturn c x q now row = true := by
  simp only [searchRows] at h
  split at h
  · cases h
  · split at h
    · cases h
    · next entries hentries =>
      cases h
      rw [List.mem_filter] at he
      obtain ⟨row, hrow, hread⟩ := rowsToEntries_mem hentries he.1
      have hnorm := (rowToEntry_ok hread).2
      have hfilter := hnorm ▸ he.2
      rcases mem_combineBranches hrow with hf | hn
      · obtain ⟨r, hr, rfl⟩ := List.mem_map.1 hf
        obtain ⟨hblank, hmem, hclause, hmatch⟩ := mem_ftsSearch hr
        refine ⟨r.entry, hmem, hnorm, ?_⟩
        rw [mayReturn, hblank, hclause, hmatch, hfilter]
        rfl
      · obtain ⟨r, hr, rfl⟩ := List.mem_map.1 hn
        rw [vectorBranch] at hr
        split at hr
        · next hruns =>
          obtain ⟨hblank, hmem, hclause, hnear⟩ := mem_knnSearch hr
          refine ⟨r.entry, hmem, hnorm, ?_⟩
          rw [mayReturn, hblank, hclause, hnear, hruns, hfilter]
          simp only [Bool.not_false, Bool.and_self, Bool.or_true]
        · cases hr

section Alone
variable {x : TextIndex} {q : SearchRequest} {now : Stamp} {e : MemoryEntry}

theorem ftsPass_alone (matchAny : Bool) (query : String) :
    ftsPass x q now matchAny query [e] =
      if searchClause q now e then (x.rankOf matchAny query e).toList.map (fun r => ⟨e, r⟩) else [] := by
  rw [ftsPass]
  cases hc : searchClause q now e with
  | false => simp [hc]
  | true => cases hr : x.rankOf matchAny query e <;> simp [hc, hr, SEARCH_LIMIT]

variable (x now e) in
theorem ftsSearch_alone (hblank : isBlank q.query = false) :
    ∃ ranks : List ℚ, ftsSearch x q now [e] = ranks.map (fun r => ⟨e, r⟩) ∧ ranks.length ≤ 1 ∧
      ((textMatches x q e && searchClause q now e) = true → ranks ≠ []) := by
  simp only [ftsSearch, ftsPass_alone, hblank, Bool.false_eq_true, ↓reduceIte, textMatches]
  cases hc : searchClause q now e with
  | false => cases buildOrTsquery q.query <;> exact ⟨[], rfl, by simp, by simp⟩
  | true =>
    cases hr : x.rankOf false q.query e with
    | some r => exact ⟨[r], rfl, le_refl _, by simp⟩
    | none =>
      cases ho : buildOrTsquery q.query with
      | none => exact ⟨[], rfl, by simp, by simp⟩
      | some orQuery =>
        cases hr' : x.rankOf true orQuery e with
        | some r => exact ⟨[r], by simp [hr'], le_refl _, by simp⟩
        | none => exact ⟨[], by simp [hr'], by simp, by simp [hr']⟩

variable (x now e) in
theorem vectorBranch_alone (hblank : isBlank q.query = false) :
    ∃ scores : List ℚ, vectorBranch x q now [e] = scores.map (fun r => ⟨e, r⟩) ∧
      scores.length ≤ 1 ∧
      ((vectorBranchRuns q && (x.distance q.query e.key).isSome && knnClause q now e) = true →
        scores ≠ []) := by
  simp only [vectorBranch, knnSearch, hblank, Bool.false_eq_true, ↓reduceIte]
  cases hv : vectorBranchRuns q with
  | false => exact ⟨[], rfl, by simp, by simp⟩
  | true =>
    cases hc : knnClause q now e with
    | false => exact ⟨[], by simp [hc], by simp, by simp⟩
    | true =>
      cases hd : x.distance q.query e.key with
      | none => exact ⟨[], by simp [hc, hd], by simp, by simp⟩
      | some d => exact ⟨[similarityOf d], by simp [hc, hd, KNN_FALLBACK_K], le_refl _, by simp⟩

theorem fuseFtsAndVector_alone {fts : List MemoryEntry} (h : ∀ f ∈ fts, f = e) :
    fuseFtsAndVector fts [e] = [e] := by
  have honly : fts.filter (fun f => !([e.key].contains f.key)) = [] := by
    rw [List.filter_eq_nil_iff]
    intro f hf
    rw [h f hf]
    simp
  simp only [fuseFtsAndVector, List.map_cons, List.map_nil, honly, List.append_nil]
  rfl

theorem combineBranches_alone {ranks scores : List ℚ} (hr : ranks.length ≤ 1)
    (hs : scores.length ≤ 1) (h : ranks ≠ [] ∨ scores ≠ []) :
    combineBranches (ranks.map (fun r => ⟨e, r⟩)) (scores.map (fun r => ⟨e, r⟩)) = [e] := by
  have hone : ∀ l : List ℚ, l.length ≤ 1 → l = [] ∨ ∃ r, l = [r] := by
    intro l hl
    match l with
    | [] => exact .inl rfl
    | [r] => exact .inr ⟨r, rfl⟩
    | _ :: _ :: _ => simp at hl
  rcases hone ranks hr with rfl | ⟨r, rfl⟩
  · rcases hone scores hs with rfl | ⟨d, rfl⟩
    · exact absurd h (by simp)
    · exact fuseFtsAndVector_alone (by simp)
  · rcases hone scores hs with rfl | ⟨d, rfl⟩
    · rfl
    · by_cases hd : KNN_MIN_SIMILARITY_FOR_FUSION ≤ d
      · have hv : usableVector [⟨e, r⟩] [⟨e, d⟩] = [⟨e, d⟩] := by simp [usableVector, hd]
        simp only [combineBranches, List.map_cons, List.map_nil, hv]
        exact fuseFtsAndVector_alone (by simp)
      · have hv : usableVector [⟨e, r⟩] [⟨e, d⟩] = [] := by simp [usableVector, hd]
        simp only [combineBranches, List.map_cons, List.map_nil, hv]
        rfl

/-- A row that a search may return is returned where it is the only one. -/
theorem searchRows_alone {c : Config} (hvalid : Valid c.unicode e)
    (h : mayReturn c x q now e = true) :
    searchRows c x q now [e] = .ok [e.normalised c.unicode] := by
  simp only [mayReturn, Bool.and_eq_true, Bool.or_eq_true, Bool.not_eq_true'] at h
  obtain ⟨⟨hblank, hfound⟩, hfilter⟩ := h
  obtain ⟨ranks, hfts, hrlen, hrne⟩ := ftsSearch_alone x now e hblank
  obtain ⟨scores, hnear, hslen, hsne⟩ := vectorBranch_alone x now e hblank
  have hread : rowToEntry c e = .ok (e.normalised c.unicode) := by
    rw [rowToEntry, validate_of_valid hvalid]
  have hnonempty : ranks ≠ [] ∨ scores ≠ [] := hfound.imp (fun h => hrne (by simpa using h))
    (fun h => hsne (by simpa using h))
  have hcombined := combineBranches_alone (e := e) hrlen hslen hnonempty
  have hboth : ∀ n : List ℚ, rowsToEntries c ((n.map (fun r => Scored.mk e r)).map (·.entry)) =
      .ok (n.map (fun _ => e.normalised c.unicode)) := by
    intro n
    induction n with
    | nil => rfl
    | cons r rest ih =>
      simp only [List.map_cons, rowsToEntries, hread]
      rw [ih]
  simp only [searchRows, hfts, hnear, hcombined]
  rw [← List.map_append, hboth]
  simp only [rowsToEntries, hread, List.filter_cons, hfilter, ↓reduceIte, List.filter_nil]

end Alone

/-- One stored row is closed at `c`; the others stay as they are. -/
structure Closes (e : MemoryEntry) (reason : String) (status : MemoryStatus) (c : Stamp)
    (s s' : Store) : Prop where
  stored : s.rows.get? e.key = some e
  status_eq : closeValidityStatus reason = some status
  rows : ∃ succ detail, s'.rows = s.rows.set (closeWith reason status c succ detail e)

section Closers
variable {w : World} {e : MemoryEntry} {s s' : Store}

theorem storeRow_closesRow {reason : String} {status : MemoryStatus} {c : Stamp}
    {succ detail : Option String} (hrow : s.rows.get? e.key = some e)
    (hstatus : closeValidityStatus reason = some status)
    (hrows : s'.rows = (storeRow (closeWith reason status c succ detail e) s).rows) :
    Closes e reason status c s s' := by
  have hsame : upserted s.rows (closeWith reason status c succ detail e) =
      closeWith reason status c succ detail e := by
    rw [upserted, closeWith_key, hrow]
    cases status <;> rfl
  exact ⟨hrow, hstatus, succ, detail, by rw [hrows, storeRow, hsame]⟩

/-- Closing by age, by consolidation and on request. -/
theorem closeValidity_closesRow {reason : String} {succ detail : Option String} {u : MemoryEntry}
    (hcached : s.entries.get? e.key = some e) (hrow : s.rows.get? e.key = some e)
    (h : closeValidity w e.key reason succ detail s = (.ok (some u), s')) :
    ∃ status, Closes e reason status (w.clock s.ticks) s s' := by
  cases hstatus : closeValidityStatus reason with
  | none =>
    rw [closeValidity, Prog.bind_run, utcNow_run] at h
    dsimp only at h
    rw [hstatus, closeValidityUpdates, hstatus] at h
    cases h
  | some status =>
    rw [closeValidity_run w hcached hstatus] at h
    dsimp only at h
    split at h
    · rw [Prog.bind_run, appendAudit_run] at h
      cases h
      exact ⟨status, storeRow_closesRow hrow hstatus rfl⟩
    · cases h

/-- Closing by a conflicting save. -/
theorem invalidateOne_closesRow {now : Stamp} {reason : String}
    (hcached : s.entries.get? e.key = some e) (hrow : s.rows.get? e.key = some e)
    (h : invalidateOne w e (invalidatedBy now reason e) s = (.ok true, s')) :
    Closes e "contradiction" .contradicted now s s' := by
  have hkey : (invalidatedBy now reason e).key = e.key := closeWith_key _ _ _ _ _ e
  rw [invalidateOne_run w hkey hcached] at h
  split at h
  · cases h
    exact storeRow_closesRow hrow rfl rfl
  · cases h

/-- Closing by supersession. -/
theorem closeOld_closesRow {kw : SaveKwargs} {closed : ClosedOld}
    (hcached : s.entries.get? e.key = some e) (hrow : s.rows.get? e.key = some e)
    (h : closeOld w e.key kw s = (.ok closed, s')) :
    Closes e "supersession" .superseded (w.clock s.ticks) s s' := by
  have hs' : s.ticked.entries.get? e.key = some e := hcached
  have hread : ensureEntryCached w e.key s.ticked = (.ok (some e), s.ticked) := by
    rw [ensureEntryCached_run, hs']
  rw [closeOld, Prog.bind_run, utcNow_run] at h
  dsimp only at h
  rw [show ({ s with ticks := s.ticks + 1 } : Store) = s.ticked from rfl,
    Prog.bind_run_ok hread] at h
  dsimp only at h
  split at h
  · cases h
  · rw [Prog.bind_run, snapshot, Prog.read_run] at h
    dsimp only at h
    have hkey : ∀ now newKey, (supersededRow now newKey e).key = e.key :=
      fun _ _ => closeWith_key _ _ _ _ _ e
    rw [Prog.bind_run, rewriteEntry_run w (hkey _ _) hs'] at h
    split at h
    · next hok =>
      split at hok
      · cases hok
        cases h
        exact storeRow_closesRow hrow rfl rfl
      · cases hok
    · cases h

end Closers

section Stable
variable {c : Config} {x : TextIndex} {q : SearchRequest} {now : Stamp} {e : MemoryEntry}

/-- The filters of `_apply_search_filters` on what no closing touches. -/
def attributeFilter (q : SearchRequest) (e : MemoryEntry) : Bool :=
  (q.tier.isNone || some e.tier.text = q.tier) && (q.scope.isNone || some e.scope.text = q.scope) &&
    groupClause q e && (q.tags = [] || e.tags.any q.tags.contains)

/-- The query selects the row, time and contradiction aside. -/
def selects (c : Config) (x : TextIndex) (q : SearchRequest) (e : MemoryEntry) : Bool :=
  !isBlank q.query &&
    ((textMatches x q e && groupClause q e && classClause q e) ||
      (vectorBranchRuns q && (x.distance q.query e.key).isSome)) &&
    learningClause q e && attributeFilter q (e.normalised c.unicode)

/-- The opening bounds of the row and its deprecated end admit `t`. -/
def windowAdmits (t : Stamp) (e : MemoryEntry) : Bool :=
  alreadyOpen t e.validAt && alreadyOpen t e.validFrom && stillOpen t e.validUntil

theorem vectorBranchRuns_inTimeRange (h : vectorBranchRuns q = true) (t : Stamp) :
    inTimeRange q t = true ∧ classClause q e = true := by
  simp only [vectorBranchRuns, Bool.and_eq_true, Option.isNone_iff_eq_none] at h
  simp [inTimeRange, classClause, h]

/-- What a search for a point in time may return. -/
theorem mayReturn_asOf {t : Stamp} (h : q.asOf = some t) :
    mayReturn c x q now e = (selects c x q e && asOfWindow t e &&
      inTimeRange q (q.timeField.read e) && (q.includeContradicted || !e.contradicted)) := by
  have hclause : temporalClause q now e = asOfWindow t e := by rw [temporalClause, h]
  have hvalid : isTemporallyValid now q.asOf (e.normalised c.unicode) = asOfWindow t e := by
    rw [h]
    rfl
  have hcontra : (e.normalised c.unicode).contradicted = e.contradicted := rfl
  rw [mayReturn, searchClause, knnClause, searchFilter, hclause, hvalid, hcontra, selects,
    attributeFilter]
  cases asOfWindow t e with
  | false => simp only [Bool.and_false, Bool.false_and, Bool.or_self]
  | true =>
    cases hruns : vectorBranchRuns q with
    | false =>
      simp only [Bool.and_true, Bool.or_true, Bool.false_and, Bool.or_false]
      ac_rfl
    | true =>
      obtain ⟨hrange, hclass⟩ := vectorBranchRuns_inTimeRange (e := e) hruns (q.timeField.read e)
      simp only [hrange, hclass, Bool.and_true, Bool.or_true, Bool.true_and]
      cases learningClause q e with
      | false => simp only [Bool.and_false, Bool.false_and, Bool.or_self]
      | true =>
        simp only [Bool.and_true]
        ac_rfl

/-- The query shows the row for the instant `t`, once it selects it. -/
def shownAt (q : SearchRequest) (t : Stamp) (e : MemoryEntry) : Bool :=
  asOfWindow t e && inTimeRange q (q.timeField.read e) && (q.includeContradicted || !e.contradicted)

theorem windowAdmits_of_shownAt {t : Stamp} (h : shownAt q t e = true) :
    windowAdmits t e = true ∧ (q.includeContradicted = true ∨ e.contradicted = false) := by
  simp only [shownAt, asOfWindow, Bool.and_eq_true, Bool.or_eq_true, Bool.not_eq_true'] at h
  exact ⟨by rw [windowAdmits, h.1.1.1.1.1, h.1.1.1.2, h.1.1.2]; rfl, h.2⟩

/-- The stamp the time range is applied to once the row has been closed at `c`. -/
def closedStamp (q : SearchRequest) (c : Stamp) (e : MemoryEntry) : Stamp :=
  if q.timeField = .updatedAt then c else q.timeField.read e

theorem asOfWindow_closed {t c : Stamp} (h : t < c) (reason : String) (status : MemoryStatus)
    (succ detail : Option String) :
    asOfWindow t (closeWith reason status c succ detail e) = windowAdmits t e := by
  have hopen : stillOpen t (closeWith reason status c succ detail e).invalidAt = true := by
    rw [closeWith_invalidAt]
    exact decide_eq_true h
  rw [asOfWindow, hopen, Bool.and_true]
  cases status <;> rfl

theorem selects_closed (reason : String) (status : MemoryStatus) (at_ : Stamp)
    (succ detail : Option String) :
    selects c x q (closeWith reason status at_ succ detail e) = selects c x q e := by
  cases status <;> rfl

theorem read_closed (reason : String) (status : MemoryStatus) (at_ : Stamp)
    (succ detail : Option String) :
    q.timeField.read (closeWith reason status at_ succ detail e) = closedStamp q at_ e := by
  rw [closedStamp]
  cases q.timeField <;> cases status <;> rfl

theorem contradicted_closed (reason : String) (status : MemoryStatus) (at_ : Stamp)
    (succ detail : Option String) :
    (closeWith reason status at_ succ detail e).contradicted =
      (e.contradicted || status = .contradicted) := by
  cases status <;> simp [closeWith]

/-- A closing at `at_` with status `status` does not show in searches for the instant `t`. -/
structure Unseen (c : Config) (x : TextIndex) (q : SearchRequest) (t at_ : Stamp)
    (status : MemoryStatus) (e : MemoryEntry) : Prop where
  /-- A row that is shown is not marked as contradicted, and its stamp stays in range. -/
  kept : selects c x q e → shownAt q t e →
    (status ≠ .contradicted ∨ q.includeContradicted) ∧ inTimeRange q (closedStamp q at_ e)
  /-- A row that is not shown stays hidden as contradicted or out of range. -/
  absent : selects c x q e → windowAdmits t e → ¬ shownAt q t e →
    (¬ q.includeContradicted ∧ (e.contradicted ∨ status = .contradicted)) ∨
      ¬ inTimeRange q (closedStamp q at_ e)

/-- What a search may return of the rows under one key. -/
def mayReturnKey (c : Config) (x : TextIndex) (q : SearchRequest) (now : Stamp) (s : Store)
    (key : String) : Bool :=
  (s.rows.get? key).any (mayReturn c x q now)

end Stable

/-- Every row matches every text, and no row has a vector. -/
def TextIndex.everything : TextIndex where
  rank := fun _ _ _ _ _ => some 1
  distance := fun _ _ => none

def databaseNote : MemoryEntry :=
  { key := "db", value := "postgres 16", createdAt := 1000, updatedAt := 1000, lastAccessed := 1000 }

/-- A store whose texts all count as similar. -/
def Config.similar : Config := { Config.plain with textSimilarity := fun _ _ _ _ => 1 }

end TappsBrain
