import TappsBrain.Capture

namespace TappsBrain
open Lib
set_option autoImplicit true
set_option relaxedAutoImplicit false

variable {p : RelationEntry → Bool} {ws : List RelationEntry} {t : Table RelationEntry.triple}

theorem mergedRelation_fresh (h : t.get? r.triple = none) : mergedRelation t r = r := by
  rw [mergedRelation, h]

@[simp] theorem lists_withSource (key k : String) (r : RelationEntry) :
    lists key (withSource k r) = (lists key r || key = k) := by
  rw [Bool.eq_iff_iff]
  simp [lists, withSource, List.mem_eraseDups]

/-- Relations of one triple are told apart by nothing that `p` sees. -/
def Apart (p : RelationEntry → Bool) (l : List RelationEntry) : Prop :=
  ∀ r ∈ l, ∀ r' ∈ l, r.triple = r'.triple → p r = p r'

/-- A merged relation looks to `p` as the two it was merged from do. -/
def SeesMerged (p : RelationEntry → Bool) : Prop :=
  ∀ (t : Table RelationEntry.triple) r,
    (∀ old, t.get? r.triple = some old → p old = p r) → p (mergedRelation t r) = p r

theorem lists_seesMerged (key : String) : SeesMerged (lists key) := by
  intro t r h
  cases hold : t.get? r.triple with
  | none => rw [mergedRelation_fresh hold]
  | some old =>
    have hsame := h old hold
    rw [Bool.eq_iff_iff] at hsame ⊢
    simp only [lists, List.contains_iff_mem] at hsame
    simp [lists, mergedRelation, hold, List.mem_eraseDups, hsame]

theorem not_lists_seesMerged (key : String) : SeesMerged (fun r => !lists key r) := by
  intro t r h
  apply congrArg
  apply lists_seesMerged key t r
  intro old hold
  exact Bool.not_inj (h old hold)

theorem Apart.not (h : Apart p l) : Apart (fun r => !p r) l :=
  fun r hr r' hr' heq => congrArg _ (h r hr r' hr' heq)

theorem Apart.upsert (hp : SeesMerged p) (h : Apart p (t.values ++ r :: ws)) :
    Apart p ((upsertRelation t r).values ++ ws) := by
  have hr : r ∈ t.values ++ r :: ws := List.mem_append_right _ List.mem_cons_self
  have hmerged : p (mergedRelation t r) = p r := by
    apply hp t r
    intro old hold
    exact h old (List.mem_append_left _ (Table.mem_of_get? hold)) r hr (Table.key_of_get? hold)
  have hback : ∀ x ∈ (upsertRelation t r).values ++ ws,
      ∃ y ∈ t.values ++ r :: ws, y.triple = x.triple ∧ p y = p x := by
    intro x hx
    rcases List.mem_append.1 hx with hx | hx
    · rcases Table.mem_set hx with rfl | hx
      · exact ⟨r, hr, (mergedRelation_triple t r).symm, hmerged.symm⟩
      · exact ⟨x, List.mem_append_left _ hx, rfl, rfl⟩
    · exact ⟨x, List.mem_append_right _ (List.mem_cons_of_mem r hx), rfl, rfl⟩
  intro x hx x' hx' heq
  obtain ⟨y, hy, hyt, hyp⟩ := hback x hx
  obtain ⟨y', hy', hyt', hyp'⟩ := hback x' hx'
  rw [← hyp, ← hyp']
  exact h y hy y' hy' (hyt.trans (heq.trans hyt'.symm))

theorem filter_upsertRelation (hp : SeesMerged p) (h : Apart p (t.values ++ [r])) :
    (upsertRelation t r).filter p =
      if p r then upsertRelation (t.filter p) r else t.filter p := by
  have hr : r ∈ t.values ++ [r] := List.mem_append_right _ List.mem_cons_self
  have hold : ∀ w ∈ t.values, w.triple = r.triple → p w = p r :=
    fun w hw heq => h w (List.mem_append_left _ hw) r hr heq
  have hmerged : p (mergedRelation t r) = p r :=
    hp t r (fun old ho => hold old (Table.mem_of_get? ho) (Table.key_of_get? ho))
  rw [upsertRelation, Table.filter_set, hmerged]
  · cases hpr : p r with
    | false => rfl
    | true =>
      have hsame : mergedRelation (t.filter p) r = mergedRelation t r := by
        cases ho : t.get? r.triple with
        | none =>
          have hf : (t.filter p).get? r.triple = none := by
            rw [Table.get?_filter, ho]
            rfl
          rw [mergedRelation_fresh ho, mergedRelation_fresh hf]
        | some old =>
          have hpo : p old = true :=
            (hold old (Table.mem_of_get? ho) (Table.key_of_get? ho)).trans hpr
          simp only [mergedRelation, Table.get?_filter, ho, Option.filter_some, hpo, ↓reduceIte]
      simp only [↓reduceIte, upsertRelation, hsame]
  · intro w hw heq
    rw [hmerged]
    exact hold w hw (heq.trans (mergedRelation_triple t r))

/-- What a filter keeps of the upserted relations is what the kept ones leave. -/
theorem filter_upsertRelations (hp : SeesMerged p) (h : Apart p (t.values ++ ws)) :
    (ws.foldl upsertRelation t).filter p = (ws.filter p).foldl upsertRelation (t.filter p) := by
  induction ws generalizing t with
  | nil => rfl
  | cons r rest ih =>
    have hone : Apart p (t.values ++ [r]) := by
      intro x hx x' hx'
      have hsub : ∀ y ∈ t.values ++ [r], y ∈ t.values ++ r :: rest := by
        intro y hy
        rcases List.mem_append.1 hy with hy | hy
        · exact List.mem_append_left _ hy
        · exact List.mem_append_right _ (List.mem_singleton.1 hy ▸ List.mem_cons_self)
      exact h x (hsub x hx) x' (hsub x' hx')
    rw [List.foldl_cons, ih (h.upsert hp), filter_upsertRelation hp hone, List.filter_cons]
    split
    · rfl
    · rfl

theorem values_upsertRelations (h : ((t.values ++ ws).map RelationEntry.triple).Nodup) :
    (ws.foldl upsertRelation t).values = t.values ++ ws := by
  induction ws generalizing t with
  | nil => exact (List.append_nil _).symm
  | cons r rest ih =>
    have hfresh : t.get? r.triple = none := by
      rw [Table.get?, List.find?_eq_none]
      intro w hw heq
      rw [List.map_append, List.nodup_append] at h
      exact h.2.2 w.triple (List.mem_map_of_mem hw) r.triple
        (List.mem_map_of_mem List.mem_cons_self) (of_decide_eq_true heq)
    have hvalues : (upsertRelation t r).values = t.values ++ [r] := by
      rw [upsertRelation, mergedRelation_fresh hfresh]
      exact Table.values_set_of_fresh hfresh
    rw [List.foldl_cons, ih, hvalues, List.append_assoc]
    · rfl
    · rwa [hvalues, List.append_assoc]

theorem get?_upsertRow (t : Table MemoryEntry.key) (e : MemoryEntry) (key : String) :
    (upsertRow t e).get? key = if e.key = key then some (upserted t e) else t.get? key := by
  rw [upsertRow, Table.get?_set, upserted_key]

/-- A key sees only the saves of its own. -/
theorem get?_upsertRows_congr {key : String} {t u : Table MemoryEntry.key}
    (h : t.get? key = u.get? key) (es : List MemoryEntry) :
    (upsertRows es t).get? key = (upsertRows es u).get? key := by
  induction es generalizing t u with
  | nil => exact h
  | cons e rest ih =>
    apply ih
    rw [get?_upsertRow, get?_upsertRow]
    by_cases he : e.key = key
    · subst he
      rw [if_pos rfl, if_pos rfl, upserted_congr h]
    · simp only [he, ↓reduceIte, h]

theorem get?_upsertRows_elsewhere {key : String} {es : List MemoryEntry}
    (h : ∀ e ∈ es, e.key ≠ key) (t : Table MemoryEntry.key) :
    (upsertRows es t).get? key = t.get? key := by
  induction es generalizing t with
  | nil => rfl
  | cons e rest ih =>
    have hrest := ih (fun e' he' => h e' (List.mem_cons_of_mem e he')) (upsertRow t e)
    have hne : e.key ≠ key := h e List.mem_cons_self
    rw [get?_upsertRow, if_neg hne] at hrest
    exact hrest

theorem upsertRow_contains (t : Table MemoryEntry.key) (e : MemoryEntry) (key : String) :
    (upsertRow t e).contains key = (e.key = key || t.contains key) := by
  rw [Table.contains, get?_upsertRow]
  by_cases he : e.key = key
  · simp only [he, ↓reduceIte, Option.isSome_some, decide_true, Bool.true_or]
  · simp only [he, ↓reduceIte, decide_false, Bool.false_or, Table.contains]

theorem upsertRows_contains (es : List MemoryEntry) (t : Table MemoryEntry.key) (key : String) :
    (upsertRows es t).contains key = (es.any (fun e => e.key = key) || t.contains key) := by
  induction es generalizing t with
  | nil => rfl
  | cons e rest ih =>
    rw [upsertRows, List.foldl_cons, ← upsertRows, ih, upsertRow_contains, List.any_cons,
      Bool.or_left_comm, Bool.or_assoc]

theorem get?_upsertRows_filter {key j : String} (h : j ≠ key) (es : List MemoryEntry)
    (t : Table MemoryEntry.key) :
    (upsertRows (es.filter (fun e => e.key ≠ key)) t).get? j = (upsertRows es t).get? j := by
  induction es generalizing t with
  | nil => rfl
  | cons e rest ih =>
    by_cases he : e.key = key
    · rw [List.filter_cons_of_neg (by simpa using he), ih]
      apply get?_upsertRows_congr
      rw [get?_upsertRow, if_neg (fun hj => h (hj.symm.trans he))]
    · rw [List.filter_cons_of_pos (by simpa using he)]
      exact ih (upsertRow t e)

theorem upsertRows_append (es es' : List MemoryEntry) (t : Table MemoryEntry.key) :
    upsertRows (es ++ es') t = upsertRows es' (upsertRows es t) :=
  List.foldl_append

/-- Saves that agree with the row on `created_at` leave the last of them. -/
theorem get?_upsertRows_last {key : String} {born : Stamp} {es : List MemoryEntry}
    {t : Table MemoryEntry.key} (hrow : ∀ row, t.get? key = some row → row.createdAt = born)
    (hes : ∀ e ∈ es, e.key = key → e.createdAt = born) :
    (upsertRows es t).get? key = (es.reverse.find? (fun e => e.key = key)).or (t.get? key) := by
  induction es generalizing t with
  | nil => rfl
  | cons e rest ih =>
    have hrest : ∀ e' ∈ rest, e'.key = key → e'.createdAt = born :=
      fun e' he' => hes e' (List.mem_cons_of_mem e he')
    have hself : e.key = key → (upsertRow t e).get? key = some e := by
      intro hk
      rw [get?_upsertRow, if_pos hk, upserted_same]
      intro row hr
      exact (hrow row (hk ▸ hr)).trans (hes e List.mem_cons_self hk).symm
    rw [List.reverse_cons, List.find?_append]
    by_cases hk : e.key = key
    · have hnext := ih (t := upsertRow t e) (fun row hr => by
        rw [hself hk] at hr
        cases hr
        exact hes e List.mem_cons_self hk) hrest
      rw [hself hk] at hnext
      rw [List.find?_cons_of_pos (by simpa using hk), Option.or_assoc]
      exact hnext
    · have hsame : (upsertRow t e).get? key = t.get? key := by rw [get?_upsertRow, if_neg hk]
      have hnext := ih (t := upsertRow t e) (fun row hr => hrow row (hsame ▸ hr)) hrest
      rw [hsame] at hnext
      rw [List.find?_cons_of_neg (by simpa using hk), List.find?_nil, Option.or_none]
      exact hnext

/-- The relations none of `keys` deletes. -/
def dropAllListing (keys : List String) (t : Table RelationEntry.triple) :
    Table RelationEntry.triple :=
  keys.foldl (fun t key => dropListing key t) t

theorem dropAllListing_eq (keys : List String) (t : Table RelationEntry.triple) :
    dropAllListing keys t = t.filter (fun r => keys.all (fun k => !lists k r)) := by
  induction keys generalizing t with
  | nil => exact Table.ext_values (List.filter_eq_self.2 (fun _ _ => rfl)).symm
  | cons k rest ih =>
    rw [dropAllListing, List.foldl_cons, ← dropAllListing, ih, dropListing, Table.filter_filter]
    congr 1
    funext r
    rw [List.all_cons, Bool.and_comm]

theorem mem_dropAllListing {keys : List String} {t : Table RelationEntry.triple}
    {r : RelationEntry} :
    r ∈ (dropAllListing keys t).values ↔ r ∈ t.values ∧ ∀ k ∈ keys, lists k r = false := by
  rw [dropAllListing_eq]
  simp only [Table.filter, List.mem_filter, List.all_eq_true, Bool.not_eq_true']

theorem dropAllListing_congr {keys keys' : List String} {t : Table RelationEntry.triple}
    (h : ∀ r ∈ t.values, (∀ k ∈ keys, lists k r = false) ↔ ∀ k ∈ keys', lists k r = false) :
    dropAllListing keys t = dropAllListing keys' t := by
  rw [dropAllListing_eq, dropAllListing_eq]
  apply Table.ext_values
  apply List.filter_congr
  intro r hr
  rw [Bool.eq_iff_iff]
  simpa only [List.all_eq_true, Bool.not_eq_true'] using h r hr

theorem dropListing_dropAllListing (key : String) (keys : List String)
    (t : Table RelationEntry.triple) :
    dropListing key (dropAllListing keys t) = dropAllListing (keys ++ [key]) t := by
  rw [dropAllListing, dropAllListing, List.foldl_append, List.foldl_cons, List.foldl_nil]

def written (relations : List (String × List RelationEntry)) : List RelationEntry :=
  relations.flatMap (fun p => p.2.map (withSource p.1))

theorem upsertRelations_eq (key : String) (rels : List RelationEntry)
    (t : Table RelationEntry.triple) :
    upsertRelations key rels t = (rels.map (withSource key)).foldl upsertRelation t := by
  rw [List.foldl_map]
  rfl

theorem written_append (l l' : List (String × List RelationEntry)) :
    written (l ++ l') = written l ++ written l' :=
  List.flatMap_append

theorem foldl_upsertRelations (l : List (String × List RelationEntry))
    (t : Table RelationEntry.triple) :
    l.foldl (fun t p => upsertRelations p.1 p.2 t) t = (written l).foldl upsertRelation t := by
  induction l generalizing t with
  | nil => rfl
  | cons p rest ih =>
    rw [List.foldl_cons, ih, upsertRelations_eq, written, written, List.flatMap_cons,
      List.foldl_append]

theorem filter_listing {key : String} {rels : List RelationEntry} :
    (rels.map (withSource key)).filter (lists key) = rels.map (withSource key) := by
  rw [List.filter_eq_self]
  intro r hr
  obtain ⟨r', -, rfl⟩ := List.mem_map.1 hr
  simp only [lists_withSource, decide_true, Bool.or_true]

theorem filter_listing_other {key k : String} {rels : List RelationEntry} (hne : k ≠ key)
    (h : ∀ r ∈ rels, lists key r = false) : (rels.map (withSource k)).filter (lists key) = [] := by
  rw [List.filter_eq_nil_iff]
  intro r hr
  obtain ⟨r', hr', rfl⟩ := List.mem_map.1 hr
  simp only [lists_withSource, h r' hr', Ne.symm hne, decide_false, Bool.or_false,
    Bool.false_eq_true, not_false_eq_true]

section Own
variable {key : String} {l : List (String × List RelationEntry)}
  (h : ∀ p ∈ l, p.1 ≠ key → ∀ r ∈ p.2, lists key r = false)
include h

theorem filter_written :
    (written l).filter (lists key) = written (l.filter (fun p => p.1 = key)) := by
  induction l with
  | nil => rfl
  | cons p rest ih =>
    have hrest := ih (fun q hq => h q (List.mem_cons_of_mem p hq))
    rw [written, List.flatMap_cons, List.filter_append]
    by_cases hp : p.1 = key
    · rw [List.filter_cons_of_pos (by simpa using hp), hp, filter_listing]
      simp only [written, List.flatMap_cons, hp]
      exact congrArg _ hrest
    · rw [List.filter_cons_of_neg (by simpa using hp),
        filter_listing_other hp (h p List.mem_cons_self hp)]
      exact hrest

theorem filter_written_not :
    (written l).filter (fun r => !lists key r) = written (l.filter (fun p => p.1 ≠ key)) := by
  induction l with
  | nil => rfl
  | cons p rest ih =>
    have hrest := ih (fun q hq => h q (List.mem_cons_of_mem p hq))
    rw [written, List.flatMap_cons, List.filter_append]
    by_cases hp : p.1 = key
    · have hnone : (p.2.map (withSource p.1)).filter (fun r => !lists key r) = [] := by
        rw [List.filter_eq_nil_iff]
        intro r hr
        obtain ⟨r', -, rfl⟩ := List.mem_map.1 hr
        simp [hp]
      rw [List.filter_cons_of_neg (by simpa using hp), hnone]
      exact hrest
    · have hall : (p.2.map (withSource p.1)).filter (fun r => !lists key r) =
          p.2.map (withSource p.1) := by
        rw [List.filter_eq_self]
        intro r hr
        obtain ⟨r', hr', rfl⟩ := List.mem_map.1 hr
        simp [h p List.mem_cons_self hp r' hr', Ne.symm hp]
      rw [List.filter_cons_of_pos (by simpa using hp), hall]
      exact congrArg _ hrest

end Own

/-- The durable relations no captured deletion removes. -/
def undeleted (d : Durable) (b : Buffers) : Table RelationEntry.triple :=
  dropAllListing b.deletedRelations d.relationRows

/-- The key has a row in the table the flush would leave. -/
def HasRow (d : Durable) (b : Buffers) (key : String) : Prop :=
  (∃ e ∈ b.saved, e.key = key) ∨ key ∉ b.deleted ∧ d.rows.contains key = true

/-- Relations of one triple all list `key` or none does, and only `key`'s own captures list it. -/
structure Clear (d : Durable) (b : Buffers) (key : String) : Prop where
  apart : Apart (lists key) ((undeleted d b).values ++ written b.relations)
  own : ∀ p ∈ b.relations, p.1 ≠ key → ∀ r ∈ p.2, lists key r = false

/-- What was captured for `key`, if anything was, is one list of new relations. -/
def ReadsBack (d : Durable) (b : Buffers) (key : String) : Prop :=
  match b.lastRelations key with
  | none =>
    key ∈ b.deletedRelations ∨
      ∀ r ∈ d.relationRows.values, lists key r = true → ∀ k ∈ b.deletedRelations, lists k r = false
  | some rels =>
    b.relations.filter (fun p => p.1 = key) = [(key, rels)] ∧
      (rels.map RelationEntry.triple).Nodup ∧ (∀ r ∈ rels, withSource key r = r) ∧
        ∀ r ∈ (undeleted d b).values, lists key r = false

/-- A row the flush is to overwrite where the backend would insert has the same `created_at`. -/
def KeepsBirth (d : Durable) (b : Buffers) (e : MemoryEntry) : Prop :=
  e.key ∈ b.deleted → ∀ row, d.rows.get? e.key = some row → row.createdAt = e.createdAt

/-- The calls that capturing answers as the backend does. -/
def Capturable (c : Config) (d : Durable) : PersistenceCall → Buffers → Prop
  | .save e, b => columnsAccept e = true ∧ KeepsBirth d b e
  | .saveMany es, b => ∀ e ∈ es, columnsAccept e = true ∧ KeepsBirth d b e
  | .delete key, b =>
    HasRow d b key ∧ ∀ r ∈ (undeleted d b).values ++ written b.relations, lists key r = false
  | .remove key, b => HasRow d b key ∧ Clear d b key
  | .deleteRelations key, b => Clear d b key
  | .saveRelations key rels, b =>
    rels = [] ∨ key ∉ b.deletedRelations ∨ ∀ r ∈ d.relationRows.values, lists key r = false
  | .appendAudit _, _ => True
  | .archiveEntry _ _, _ => True
  | .loadOne key, b =>
    ∀ e, b.lastSaved key = some e →
      rowToEntry c e = .ok e ∧
        (∀ row, d.rows.get? key = some row → row.createdAt = e.createdAt) ∧
          ∀ e' ∈ b.saved, e'.key = key → e'.createdAt = e.createdAt
  | .loadAll _, b => b.saved = [] ∧ b.deleted = []
  | .loadRelations key, b => Clear d b key ∧ ReadsBack d b key

/-- The tables the backend would have where `b` has been captured over `d`. -/
structure Buffered (d : Durable) (b : Buffers) (t : Durable) : Prop where
  accepted : ∀ e ∈ b.saved, columnsAccept e = true
  rows : ∀ key, t.rows.get? key =
    if key ∈ b.deleted then none else (upsertRows b.saved d.rows).get? key
  idle : b.saved = [] → b.deleted = [] → t.rows = d.rows
  disjoint : ∀ e ∈ b.saved, e.key ∉ b.deleted
  relations : t.relationRows = (written b.relations).foldl upsertRelation (undeleted d b)
  audit : t.audit = d.audit ++ b.audit
  archive : t.archive = d.archive ++ b.archives

section Step
variable {c : Config} {d t : Durable} {b : Buffers}

theorem Buffered.start (d : Durable) : Buffered d {} d where
  accepted := fun _ he => nomatch he
  rows := fun _ => rfl
  idle := fun _ _ => rfl
  disjoint := fun _ he => nomatch he
  relations := rfl
  audit := (List.append_nil _).symm
  archive := (List.append_nil _).symm

theorem Buffered.save {e : MemoryEntry} (h : Buffered d b t) (he : columnsAccept e = true)
    (hborn : KeepsBirth d b e) :
    Buffered d (b.save e) { t with rows := upsertRow t.rows e } where
  accepted := by
    intro e' he'
    rcases List.mem_append.1 he' with he' | he'
    · exact h.accepted e' he'
    · exact List.mem_singleton.1 he' ▸ he
  rows := by
    intro key
    have hdel : key ∈ (b.save e).deleted ↔ key ∈ b.deleted ∧ key ≠ e.key := by
      simp only [Buffers.save, List.mem_filter, decide_eq_true_eq, ne_eq]
    rw [get?_upsertRow]
    by_cases hk : e.key = key
    · subst hk
      rw [if_pos rfl, if_neg (fun hm => (hdel.1 hm).2 rfl)]
      have hlast : (upsertRows (b.save e).saved d.rows).get? e.key =
          some (upserted (upsertRows b.saved d.rows) e) := by
        rw [show (b.save e).saved = b.saved ++ [e] from rfl, upsertRows_append]
        exact (get?_upsertRow _ e e.key).trans (if_pos rfl)
      rw [hlast]
      have hrow := h.rows e.key
      by_cases hm : e.key ∈ b.deleted
      · -- The captured save lands on the row whose deletion it has cancelled.
        have hd : (upsertRows b.saved d.rows).get? e.key = d.rows.get? e.key :=
          get?_upsertRows_elsewhere (fun e' he' hk => h.disjoint e' he' (hk ▸ hm)) _
        rw [if_pos hm] at hrow
        rw [upserted_same (fun row hr => by rw [hrow] at hr; cases hr),
          upserted_same (fun row hr => hborn hm row (hd ▸ hr))]
      · rw [if_neg hm] at hrow
        rw [upserted_congr hrow]
    · have hsame : (upsertRows (b.save e).saved d.rows).get? key =
          (upsertRows b.saved d.rows).get? key := by
        rw [show (b.save e).saved = b.saved ++ [e] from rfl, upsertRows_append]
        exact (get?_upsertRow _ e key).trans (if_neg hk)
      rw [if_neg hk, hsame, h.rows key]
      simp only [hdel, ne_eq, Ne.symm hk, not_false_eq_true, and_true]
  idle := by
    intro hnil
    simp [Buffers.save] at hnil
  disjoint := by
    intro e' he' hm
    simp only [Buffers.save, List.mem_filter, decide_eq_true_eq] at hm
    rcases List.mem_append.1 he' with he' | he'
    · exact h.disjoint e' he' hm.1
    · exact hm.2 (congrArg _ (List.mem_singleton.1 he'))
  relations := h.relations
  audit := h.audit
  archive := h.archive

theorem KeepsBirth.save {e e' : MemoryEntry} (h : KeepsBirth d b e) :
    KeepsBirth d (b.save e') e := by
  intro hm
  simp only [Buffers.save, List.mem_filter] at hm
  exact h hm.1

theorem saveMany_nil (b : Buffers) : b.saveMany [] = b := by
  simp [Buffers.saveMany]

theorem saveMany_cons (b : Buffers) (e : MemoryEntry) (es : List MemoryEntry) :
    b.saveMany (e :: es) = (b.save e).saveMany es := by
  have hdel : b.deleted.filter (· ∉ (e :: es).map MemoryEntry.key) =
      (b.deleted.filter (· ≠ e.key)).filter (· ∉ es.map MemoryEntry.key) := by
    rw [List.filter_filter]
    apply List.filter_congr
    intro k _
    rw [Bool.eq_iff_iff]
    simp [and_comm]
  simp only [Buffers.saveMany, Buffers.save, hdel, List.append_assoc, List.singleton_append]

theorem Buffered.saveMany {es : List MemoryEntry} (h : Buffered d b t)
    (hes : ∀ e ∈ es, columnsAccept e = true ∧ KeepsBirth d b e) :
    Buffered d (b.saveMany es) { t with rows := upsertRows es t.rows } := by
  induction es generalizing b t with
  | nil =>
    rw [saveMany_nil]
    exact h
  | cons e rest ih =>
    have he := hes e List.mem_cons_self
    have hstep := h.save he.1 he.2
    rw [saveMany_cons]
    apply ih hstep
    intro e' he'
    have hnext := hes e' (List.mem_cons_of_mem e he')
    exact ⟨hnext.1, hnext.2.save⟩

theorem Buffered.found (h : Buffered d b t) {key : String} (hp : HasRow d b key) :
    t.rows.contains key = true := by
  have hdel : key ∉ b.deleted := by
    rcases hp with ⟨e, he, rfl⟩ | hp
    · exact h.disjoint e he
    · exact hp.1
  have hflushed : (upsertRows b.saved d.rows).contains key = true := by
    rw [upsertRows_contains, Bool.or_eq_true, List.any_eq_true]
    rcases hp with ⟨e, he, hk⟩ | hp
    · exact .inl ⟨e, he, decide_eq_true hk⟩
    · exact .inr hp.2
  rw [Table.contains, h.rows key, if_neg hdel]
  exact hflushed

theorem Buffered.relations_dropped (h : Buffered d b t) {key : String} (hc : Clear d b key) :
    dropListing key t.relationRows =
      (written (b.relations.filter (fun p => p.1 ≠ key))).foldl upsertRelation
        (dropAllListing (b.deletedRelations ++ [key]) d.relationRows) := by
  rw [h.relations, ← dropListing_dropAllListing, ← filter_written_not hc.own]
  exact filter_upsertRelations (not_lists_seesMerged key) hc.apart.not

theorem Buffered.deleteRelations (h : Buffered d b t) {key : String} (hc : Clear d b key) :
    Buffered d (b.deleteRelations key)
      { t with relationRows := dropListing key t.relationRows } where
  accepted := h.accepted
  rows := h.rows
  idle := h.idle
  disjoint := h.disjoint
  relations := by
    have hsame : undeleted d (b.deleteRelations key) =
        dropAllListing (b.deletedRelations ++ [key]) d.relationRows := by
      simp only [undeleted, Buffers.deleteRelations]
      split
      · next hm =>
        apply dropAllListing_congr
        intro r _
        constructor
        · intro hk k hmem
          rcases List.mem_append.1 hmem with hmem | hmem
          · exact hk k hmem
          · exact hk k (List.mem_singleton.1 hmem ▸ hm)
        · exact fun hk k hmem => hk k (List.mem_append_left _ hmem)
      · rfl
    rw [hsame]
    exact h.relations_dropped hc
  audit := h.audit
  archive := h.archive

theorem Buffered.delete (h : Buffered d b t) {key : String} (hc : Clear d b key) :
    Buffered d (b.delete key)
      { t with rows := t.rows.pop key, relationRows := dropListing key t.relationRows } where
  accepted := fun e he => h.accepted e (List.mem_of_mem_filter he)
  rows := by
    intro j
    rw [Table.get?_pop]
    by_cases hj : key = j
    · have hm : j ∈ (b.delete key).deleted := List.mem_append_right _ (hj ▸ List.mem_cons_self)
      rw [if_pos hj, if_pos hm]
    · have hdel : j ∈ (b.delete key).deleted ↔ j ∈ b.deleted := by
        simp only [Buffers.delete, List.mem_append, List.mem_singleton, Ne.symm hj, or_false]
      have hsaved : (upsertRows (b.delete key).saved d.rows).get? j =
          (upsertRows b.saved d.rows).get? j :=
        get?_upsertRows_filter (Ne.symm hj) b.saved d.rows
      rw [if_neg hj, h.rows j, hsaved]
      simp only [hdel]
  idle := by
    intro _ hnil
    simp [Buffers.delete] at hnil
  disjoint := by
    intro e he hm
    simp only [Buffers.delete, List.mem_filter, decide_eq_true_eq] at he
    rcases List.mem_append.1 hm with hm | hm
    · exact h.disjoint e he.1 hm
    · exact he.2 (List.mem_singleton.1 hm)
  relations := h.relations_dropped hc
  audit := h.audit
  archive := h.archive

theorem delete_deleteRelations (b : Buffers) (key : String) :
    (b.delete key).deleteRelations key = b.delete key := by
  simp [Buffers.delete, Buffers.deleteRelations]

theorem Buffered.saveRelations (h : Buffered d b t) {key : String} {rels : List RelationEntry}
    (hk : rels = [] ∨ key ∉ b.deletedRelations ∨
      ∀ r ∈ d.relationRows.values, lists key r = false) :
    Buffered d (b.saveRelations key rels)
      { t with relationRows := upsertRelations key rels t.relationRows } := by
  by_cases hnil : rels = []
  · rw [Buffers.saveRelations, if_pos hnil, hnil]
    exact h
  · rw [Buffers.saveRelations, if_neg hnil]
    have hsame : dropAllListing (b.deletedRelations.filter (· ≠ key)) d.relationRows =
        undeleted d b := by
      apply dropAllListing_congr
      intro r hr
      constructor
      · intro hall k hm
        by_cases hkk : k = key
        · subst hkk
          rcases hk with hk | hk | hk
          · exact absurd hk hnil
          · exact absurd hm hk
          · exact hk r hr
        · exact hall k (List.mem_filter.2 ⟨hm, decide_eq_true hkk⟩)
      · exact fun hall k hm => hall k (List.mem_of_mem_filter hm)
    exact
      { accepted := h.accepted
        rows := h.rows
        idle := h.idle
        disjoint := h.disjoint
        relations := by
          rw [upsertRelations_eq, h.relations, ← hsame, written_append, List.foldl_append]
          simp only [undeleted, written, List.flatMap_cons, List.flatMap_nil, List.append_nil]
        audit := h.audit
        archive := h.archive }

theorem rows_unsaved (h : Buffered d b t) {key : String} (hlast : b.lastSaved key = none)
    (hdel : key ∉ b.deleted) : t.rows.get? key = d.rows.get? key := by
  rw [h.rows key, if_neg hdel]
  apply get?_upsertRows_elsewhere
  intro e he hk
  have hnone := List.find?_eq_none.1 hlast e (List.mem_reverse.2 he)
  exact hnone (decide_eq_true hk)

theorem loadOne_eq (h : Buffered d b t) {key : String}
    (hg : ∀ e, b.lastSaved key = some e →
      rowToEntry c e = .ok e ∧
        (∀ row, d.rows.get? key = some row → row.createdAt = e.createdAt) ∧
          ∀ e' ∈ b.saved, e'.key = key → e'.createdAt = e.createdAt) :
    b.loadOne c d key = readRow c (t.rows.get? key) := by
  unfold Buffers.loadOne
  cases hlast : b.lastSaved key with
  | none =>
    dsimp only
    split
    · next hm =>
      rw [h.rows key, if_pos hm]
      rfl
    · next hm => rw [rows_unsaved h hlast hm]
  | some e =>
    obtain ⟨hread, hrow, hborn⟩ := hg e hlast
    have hmem : e ∈ b.saved := List.mem_reverse.1 (List.mem_of_find?_eq_some hlast)
    have hfind : b.saved.reverse.find? (fun e => e.key = key) = some e := hlast
    have hk : e.key = key := by simpa using List.find?_some hfind
    have hlatest := get?_upsertRows_last hrow hborn
    rw [hfind] at hlatest
    have hdel : key ∉ b.deleted := hk ▸ h.disjoint e hmem
    have hstored : t.rows.get? key = some e := by
      rw [h.rows key, if_neg hdel, hlatest, Option.some_or]
    simp only [hstored, readRow, hread, Except.map]

/-- The durable relations of a key are those its own captures left and those it had. -/
theorem relations_listing (h : Buffered d b t) {key : String} (hc : Clear d b key) :
    t.relationRows.filter (lists key) =
      (written (b.relations.filter (fun p => p.1 = key))).foldl upsertRelation
        ((undeleted d b).filter (lists key)) := by
  rw [h.relations, ← filter_written hc.own]
  exact filter_upsertRelations (lists_seesMerged key) hc.apart

theorem loadRelations_eq (h : Buffered d b t) {key : String} (hc : Clear d b key)
    (hr : ReadsBack d b key) :
    b.loadRelations d key = t.relationRows.values.filter (lists key) := by
  have hlisting := congrArg Table.values (relations_listing h hc)
  rw [show (t.relationRows.filter (lists key)).values = t.relationRows.values.filter (lists key)
    from rfl] at hlisting
  rw [hlisting]
  unfold Buffers.loadRelations
  unfold ReadsBack at hr
  cases hlast : b.lastRelations key with
  | none =>
    rw [hlast] at hr
    have hnone : b.relations.filter (fun p => p.1 = key) = [] := by
      rw [Buffers.lastRelations, Option.map_eq_none_iff] at hlast
      rw [List.filter_eq_nil_iff]
      intro p hp
      exact List.find?_eq_none.1 hlast p (List.mem_reverse.2 hp)
    rw [hnone]
    change (if key ∈ b.deletedRelations then [] else d.relationRows.values.filter (lists key)) =
      ((undeleted d b).values.filter (lists key))
    split
    · next hm =>
      symm
      rw [List.filter_eq_nil_iff]
      intro r hrow hlist
      rw [(mem_dropAllListing.1 hrow).2 key hm] at hlist
      cases hlist
    · next hm =>
      have hkept := hr.resolve_left hm
      rw [undeleted, dropAllListing_eq]
      change _ = (d.relationRows.values.filter _).filter _
      rw [List.filter_filter]
      apply List.filter_congr
      intro r hrow
      cases hlist : lists key r with
      | false => rfl
      | true =>
        symm
        rw [Bool.true_and, List.all_eq_true]
        intro k hk
        rw [hkept r hrow hlist k hk]
        rfl
  | some rels =>
    rw [hlast] at hr
    obtain ⟨hone, hnodup, hsource, hempty⟩ := hr
    have hbase : ((undeleted d b).filter (lists key)).values = [] := by
      apply List.filter_eq_nil_iff.2
      intro r hrow
      rw [hempty r hrow]
      exact Bool.false_ne_true
    have hrels : written [(key, rels)] = rels := by
      simp only [written, List.flatMap_cons, List.flatMap_nil, List.append_nil]
      rw [List.map_congr_left (g := id) hsource, List.map_id]
    rw [hone, hrels, values_upsertRelations, hbase]
    · rfl
    · rwa [hbase]

theorem Clear.of_unlisted {key : String}
    (hnone : ∀ r ∈ (undeleted d b).values ++ written b.relations, lists key r = false) :
    Clear d b key where
  apart := fun r hr r' hr' _ => (hnone r hr).trans (hnone r' hr').symm
  own := by
    intro p hp _ r hr
    have hmem : withSource p.1 r ∈ written b.relations :=
      List.mem_flatMap.2 ⟨p, hp, List.mem_map_of_mem hr⟩
    have hlist := hnone _ (List.mem_append_right _ hmem)
    rw [lists_withSource, Bool.or_eq_false_iff] at hlist
    exact hlist.1

theorem Buffered.dropListing_unlisted (h : Buffered d b t) {key : String}
    (hnone : ∀ r ∈ (undeleted d b).values ++ written b.relations, lists key r = false) :
    dropListing key t.relationRows = t.relationRows := by
  have hapart := (Clear.of_unlisted hnone).apart
  have hbase : (undeleted d b).filter (fun r => !lists key r) = undeleted d b := by
    apply Table.ext_values
    apply List.filter_eq_self.2
    intro r hr
    rw [hnone r (List.mem_append_left _ hr)]
    rfl
  have hwritten : (written b.relations).filter (fun r => !lists key r) = written b.relations := by
    apply List.filter_eq_self.2
    intro r hr
    rw [hnone r (List.mem_append_right _ hr)]
    rfl
  rw [dropListing, h.relations, filter_upsertRelations (not_lists_seesMerged key) hapart.not, hbase,
    hwritten]

theorem capture_step {i : PersistenceCall} (h : Buffered d b t) (hg : Capturable c d i b) :
    (capture c d i b).1 = (direct c i t).1 ∧
      Buffered d (capture c d i b).2 (direct c i t).2 := by
  cases i with
  | save e =>
    rw [direct, if_pos hg.1]
    exact ⟨rfl, h.save hg.1 hg.2⟩
  | saveMany es =>
    have hall : es.all columnsAccept = true := List.all_eq_true.2 (fun e he => (hg e he).1)
    rw [direct, if_pos hall]
    exact ⟨rfl, h.saveMany hg⟩
  | delete key =>
    obtain ⟨hp, hnone⟩ := hg
    have hstep := h.delete (.of_unlisted hnone)
    rw [h.dropListing_unlisted hnone] at hstep
    exact ⟨congrArg PersistenceReply.deleted (h.found hp).symm, hstep⟩
  | remove key =>
    have hstep := h.delete hg.2
    rw [capture, delete_deleteRelations]
    exact ⟨congrArg PersistenceReply.deleted (h.found hg.1).symm, hstep⟩
  | deleteRelations key => exact ⟨rfl, h.deleteRelations hg⟩
  | saveRelations key rels => exact ⟨rfl, h.saveRelations hg⟩
  | appendAudit row =>
    have haudit : t.audit ++ [row] = d.audit ++ (b.audit ++ [row]) := by
      rw [h.audit, List.append_assoc]
    exact ⟨rfl, { h with audit := haudit }⟩
  | archiveEntry e reason =>
    have harchive : t.archive ++ [(e, reason)] = d.archive ++ (b.archives ++ [(e, reason)]) := by
      rw [h.archive, List.append_assoc]
    exact ⟨rfl, { h with archive := harchive }⟩
  | loadOne key => exact ⟨congrArg PersistenceReply.row (loadOne_eq h hg), h⟩
  | loadAll limit =>
    refine ⟨?_, h⟩
    simp only [capture, direct, h.idle hg.1 hg.2]
  | loadRelations key =>
    exact ⟨congrArg PersistenceReply.relations (loadRelations_eq h hg.1 hg.2), h⟩

theorem Buffered.flush (h : Buffered d b t) :
    ∃ d', flushCapture d b = .ok d' ∧ (∀ key, d'.rows.get? key = t.rows.get? key) ∧
      d'.relationRows = t.relationRows ∧ d'.audit = t.audit ∧ d'.archive = t.archive := by
  have hall : b.saved.all columnsAccept = true := List.all_eq_true.2 h.accepted
  refine ⟨_, if_pos hall, ?_, ?_, h.audit.symm, h.archive.symm⟩
  · intro key
    rw [Table.get?_foldl_pop, h.rows key]
  · rw [foldl_upsertRelations, h.relations]
    rfl

end Step

/-- An operation that keeps to the allowed calls gets the same replies and result captured as it
gets from the backend, and the flush leaves what the backend would have. -/
theorem capture_flush_direct {c : Config} {d : Durable}
    {op : Client PersistenceCall PersistenceReply α}
    (h : op.Guarded (capture c d) (Capturable c d) {}) :
    (op.run (capture c d) {}).1 = (op.run (direct c) d).1 ∧
      (op.run (capture c d) {}).2.1 = (op.run (direct c) d).2.1 ∧
        ∃ d', flushCapture d (op.run (capture c d) {}).2.2 = .ok d' ∧
          (∀ key, d'.rows.get? key = (op.run (direct c) d).2.2.rows.get? key) ∧
            d'.relationRows = (op.run (direct c) d).2.2.relationRows ∧
              d'.audit = (op.run (direct c) d).2.2.audit ∧
                d'.archive = (op.run (direct c) d).2.2.archive := by
  have hsim := Client.run_simulates (fun i s t => capture_step (i := i) (b := s) (t := t))
    (Buffered.start d) h
  exact ⟨hsim.1, hsim.2.1, hsim.2.2.flush⟩

/-- What `_persist_relations` sends once it has the edges to keep. -/
def keepCalls (key : String) (rels : List RelationEntry) :
    Client PersistenceCall PersistenceReply PersistenceReply :=
  .call (.saveRelations key rels) fun _ => .call (.loadRelations key) fun bucket => .done bucket

def leadsAtlas (keys : List String) : RelationEntry :=
  { subject := "Ada", predicate := "leads", objectEntity := "Atlas", sourceEntryKeys := keys }

/-- A key without relations, durable or captured. -/
theorem keepCalls_captured :
    ∃ d', flushCapture {} ((keepCalls "plan" [leadsAtlas ["plan"]]).run
        (capture Config.plain {}) {}).2.2 = .ok d' ∧
      d'.relationRows = ((keepCalls "plan" [leadsAtlas ["plan"]]).run
        (direct Config.plain) {}).2.2.relationRows := by
  have hguard : (keepCalls "plan" [leadsAtlas ["plan"]]).Guarded (capture Config.plain {})
      (Capturable Config.plain {}) {} := by
    have hnone : "plan" ∉ ({} : Buffers).deletedRelations := List.not_mem_nil
    have hclear : Clear {} (({} : Buffers).saveRelations "plan" [leadsAtlas ["plan"]]) "plan" :=
      { apart := by
          unfold Apart
          decide +kernel
        own := by decide +kernel }
    have hread : ReadsBack {} (({} : Buffers).saveRelations "plan" [leadsAtlas ["plan"]]) "plan" :=
      ⟨by decide +kernel, by decide +kernel, by decide +kernel, by decide +kernel⟩
    exact ⟨.inr (.inl hnone), ⟨hclear, hread⟩, trivial⟩
  obtain ⟨-, -, d', hflush, -, hrelations, -⟩ := capture_flush_direct hguard
  exact ⟨d', hflush, hrelations⟩

/-- The transfer of relations in `supersede`; `old` is the bucket of the old key. -/
def transferCalls (oldKey newKey : String) (old : List RelationEntry) :
    Client PersistenceCall PersistenceReply PersistenceReply :=
  .call (.saveRelations newKey (old.map (fun r => { r with sourceEntryKeys := [newKey] }))) fun _ =>
    .call (.loadRelations newKey) fun bucket =>
      .call (.deleteRelations oldKey) fun _ => .done bucket

/-- The transferred row lists both keys when the backend deletes those that list the old one; the
flush deletes before it transfers. -/
theorem transfer_survives_capture :
    let d : Durable := { relationRows := Table.empty.set (leadsAtlas ["plan"]) }
    let op := transferCalls "plan" "plan.v2" [leadsAtlas ["plan"]]
    let captured := op.run (capture Config.plain d) {}
    let ran := op.run (direct Config.plain) d
    captured.2.1 ≠ ran.2.1 ∧
      (flushCapture d captured.2.2).map (fun d' => d'.relationRows.values) =
        .ok [leadsAtlas ["plan.v2"]] ∧
      ran.2.2.relationRows.values = [] := by
  decide +kernel

end TappsBrain
