import TappsBrain.Lib.Run
import TappsBrain.ReadCommitted

namespace TappsBrain
open Lib
set_option autoImplicit true
set_option relaxedAutoImplicit false

/-- The `max_count` declared for the predicate of a slot. -/
def declaredBound (g : Graph) (σ : Slot) : Option Nat :=
  match g.predicates.get? (σ.brainId, σ.predicate) with
  | none => none
  | some p => p.maxCount.map (fun m => m.1)

/-- Every slot holds at most as many objects as are declared for its predicate. -/
def WithinBounds (g : Graph) : Prop :=
  ∀ σ n, declaredBound g σ = some n → (slotObjects g σ).card ≤ n

def objectsIn (t : Table EdgeRow.id) (σ : Slot) : Finset Nat :=
  ((t.values.filter (EdgeRow.inSlot σ)).map (·.object)).toFinset

theorem slotObjects_eq (g : Graph) (σ : Slot) : slotObjects g σ = objectsIn g.edges σ := rfl

theorem mem_objectsIn {t : Table EdgeRow.id} {σ : Slot} {o : Nat} :
    o ∈ objectsIn t σ ↔ ∃ e ∈ t.values, e.inSlot σ = true ∧ e.object = o := by
  simp only [objectsIn, List.mem_toFinset, List.mem_map, List.mem_filter, and_assoc]

def EdgeRow.slot (e : EdgeRow) : Slot := ⟨e.brainId, e.subject, e.predicate⟩

theorem EdgeRow.inSlot_iff {e : EdgeRow} {σ : Slot} :
    e.inSlot σ = true ↔ e.slot = σ ∧ e.live = true := by
  obtain ⟨b, s, p⟩ := σ
  simp only [EdgeRow.inSlot, EdgeRow.slot, Bool.and_eq_true, decide_eq_true_eq, Slot.mk.injEq,
    and_assoc]

/-- A version of a row in use is in the same slot with the same object. -/
def Covers (t u : Table EdgeRow.id) : Prop :=
  ∀ e ∈ t.values, ∀ r, u.get? e.id = some r → ∀ σ, e.inSlot σ = true →
    r.inSlot σ = true ∧ r.object = e.object

theorem objectsIn_merge_subset (t u : Table EdgeRow.id) (σ : Slot) :
    objectsIn (t.merge u) σ ⊆ objectsIn t σ ∪ objectsIn u σ := by
  intro o ho
  rw [Finset.mem_union, mem_objectsIn, mem_objectsIn]
  obtain ⟨e, he, hin, hobj⟩ := mem_objectsIn.1 ho
  rcases Table.mem_merge.1 he with hu | ⟨ht, -⟩
  · exact .inr ⟨e, hu, hin, hobj⟩
  · exact .inl ⟨e, ht, hin, hobj⟩

theorem objectsIn_merge {t u : Table EdgeRow.id} (h : Covers t u) (σ : Slot) :
    objectsIn (t.merge u) σ = objectsIn t σ ∪ objectsIn u σ := by
  apply Finset.Subset.antisymm (objectsIn_merge_subset t u σ)
  intro o ho
  rw [Finset.mem_union, mem_objectsIn, mem_objectsIn] at ho
  rw [mem_objectsIn]
  rcases ho with ⟨e, he, hin, hobj⟩ | ⟨e, he, hin, hobj⟩
  · cases hr : u.get? e.id with
    | none => exact ⟨e, Table.mem_merge.2 (.inr ⟨he, hr⟩), hin, hobj⟩
    | some r =>
      obtain ⟨hrin, hrobj⟩ := h e he r hr σ hin
      exact ⟨r, Table.mem_merge.2 (.inl (Table.mem_of_get? hr)), hrin, hrobj.trans hobj⟩
  · exact ⟨e, Table.mem_merge.2 (.inl he), hin, hobj⟩

theorem objectsIn_set_subset (t : Table EdgeRow.id) (e : EdgeRow) (σ : Slot) :
    objectsIn (t.set e) σ ⊆ objectsIn t σ ∪ (if e.inSlot σ then {e.object} else ∅) := by
  intro o ho
  rw [Finset.mem_union, mem_objectsIn]
  obtain ⟨x, hx, hin, hobj⟩ := mem_objectsIn.1 ho
  rcases Table.mem_set hx with rfl | hx
  · rw [if_pos hin, ← hobj]
    exact .inr (Finset.mem_singleton_self _)
  · exact .inl ⟨x, hx, hin, hobj⟩

theorem cardinalityRefusal_none {u : Unicode} {strict : Bool} {g : Graph} {σ : Slot} {n : Nat}
    (h : cardinalityRefusal u strict g σ = none) (hn : declaredBound g σ = some n) :
    (slotObjects g σ).card < n := by
  unfold declaredBound at hn
  unfold cardinalityRefusal at h
  split at hn
  · cases hn
  · next p hp =>
    rw [hp] at h
    dsimp only at h
    cases hm : p.maxCount with
    | none =>
      rw [hm] at hn
      cases hn
    | some m =>
      rw [hm] at h hn
      cases hn
      dsimp only at h
      split at h
      · cases h
      · next hlt => exact Nat.lt_of_not_le hlt

/-- What the slot holds once the session's rows are added. -/
def Session.held (s : Session) (db : Graph) (σ : Slot) : Finset Nat :=
  slotObjects db σ ∪ objectsIn s.own σ

/-- The slot for which the session's check has passed and its insert is still to come. -/
def Session.vetted (s : Session) : Option Slot :=
  match s.phase, s.todo with
  | .insert, wr :: _ =>
    match wr.check, wr.args.subject with
    | some _, .uuid subject => some ⟨s.brainId, subject, wr.args.predicate⟩
    | _, _ => none
  | _, _ => none

/-- The session has counted the objects of the slot, or has written one of its own, and has not
committed yet. -/
def Session.claims (s : Session) (db : Graph) (σ : Slot) : Bool :=
  s.vetted = some σ || !decide (objectsIn s.own σ ⊆ slotObjects db σ)

/-- No new object of a bounded slot is committed while another session claims the slot. -/
def commitAllowed (m : ReadCommitted) (s : Session) : Bool :=
  s.own.values.all (fun r => (declaredBound m.db r.slot).isNone || !r.live ||
    decide (r.object ∈ slotObjects m.db r.slot) ||
    m.sessions.values.all (fun t => t.conn = s.conn || !t.claims m.db r.slot))

/-- An insert that nothing has checked is one the check would let through. -/
def insertAllowed (w : GraphWorld) (m : ReadCommitted) (s : Session) : Bool :=
  match s.phase, s.todo with
  | .insert, wr :: _ =>
    match wr.check, wr.args.subject with
    | none, .uuid subject =>
      (cardinalityRefusal w.unicode false (s.view m.db)
        ⟨s.brainId, subject, wr.args.predicate⟩).isNone
    | _, _ => true
  | _, _ => true

def GraphAction.allowed (w : GraphWorld) : GraphAction → ReadCommitted → Bool
  | .statement conn _ _, m => (m.sessions.get? conn).all (insertAllowed w m)
  | .commit conn, m => (m.sessions.get? conn).all (commitAllowed m)
  | _, _ => true

/-- What one open transaction satisfies. -/
structure SessionOk (db : Graph) (s : Session) : Prop where
  held : ∀ σ n, declaredBound db σ = some n → (s.held db σ).card ≤ n
  vetted : ∀ σ n, s.vetted = some σ → declaredBound db σ = some n → (s.held db σ).card < n
  covers : Covers db.edges s.own
  fresh : ∀ r ∈ s.own.values, r.id < db.nextId

/-- The invariant of the committed rows and the open transactions. -/
structure Kept (m : ReadCommitted) : Prop where
  bounds : WithinBounds m.db
  fresh : ∀ e ∈ m.db.edges.values, e.id < m.db.nextId
  sessions : ∀ s ∈ m.sessions.values, SessionOk m.db s
  apart : ∀ s ∈ m.sessions.values, ∀ t ∈ m.sessions.values, s.conn ≠ t.conn → ∀ id,
    s.holds id = true → t.holds id = false

section Kept
variable {m : ReadCommitted} {s t : Session} {db : Graph}

theorem Session.view_objects (h : Covers db.edges s.own) (σ : Slot) :
    slotObjects (s.view db) σ = s.held db σ :=
  objectsIn_merge h σ

theorem Kept.put (h : Kept m) (hs : SessionOk m.db s)
    (hap : ∀ t ∈ m.sessions.values, t.conn ≠ s.conn → ∀ id, s.holds id = true → t.holds id = false) :
    Kept (m.put s) where
  bounds := h.bounds
  fresh := h.fresh
  sessions := by
    intro t ht
    rcases Table.mem_set ht with rfl | ht
    · exact hs
    · exact h.sessions t ht
  apart := by
    intro t ht u hu hne id hid
    rcases Table.mem_set ht with hts | ht' <;> rcases Table.mem_set hu with hus | hu'
    · exact absurd (by rw [hts, hus]) hne
    · rw [hts] at hne hid
      exact hap u hu' (Ne.symm hne) id hid
    · rw [hus] at hne ⊢
      cases hc : s.holds id with
      | false => rfl
      | true =>
        rw [hap t ht' hne id hc] at hid
        cases hid
    · exact h.apart t ht' u hu' hne id hid

theorem Kept.close (h : Kept m) (conn : Nat) : Kept (m.close conn) where
  bounds := h.bounds
  fresh := h.fresh
  sessions := fun t ht => h.sessions t (Table.mem_pop ht)
  apart := fun t ht u hu => h.apart t (Table.mem_pop ht) u (Table.mem_pop hu)

/-- A session goes on to another statement without writing. -/
theorem Kept.advance (h : Kept m) (hm : s ∈ m.sessions.values) (hc : t.conn = s.conn)
    (ho : t.own = s.own)
    (hv : ∀ σ n, t.vetted = some σ → declaredBound m.db σ = some n → (s.held m.db σ).card < n) :
    Kept (m.put t) := by
  have hs := h.sessions s hm
  have hheld : t.held m.db = s.held m.db := by
    funext σ
    rw [Session.held, Session.held, ho]
  apply h.put
  · constructor
    · rw [hheld]
      exact hs.held
    · rw [hheld]
      exact hv
    · rw [ho]
      exact hs.covers
    · rw [ho]
      exact hs.fresh
  · intro u hu hne id hid
    rw [Session.holds, ho] at hid
    exact h.apart s hm u hu (by rw [← hc]; exact Ne.symm hne) id hid

theorem EdgeRow.reinforced_inSlot {e : EdgeRow} {now : Stamp} {newS newD : ℚ} (σ : Slot) :
    (e.reinforced now newS newD).inSlot σ = e.inSlot σ := rfl

/-- A new version of a visible row that stays in its slot. -/
theorem SessionOk.reinforce {e : EdgeRow} {now : Stamp} {newS newD : ℚ} (hs : SessionOk db s)
    (hf : ∀ x ∈ db.edges.values, x.id < db.nextId) (he : (s.view db).edges.get? e.id = some e) :
    SessionOk db { s.next with own := s.own.set (e.reinforced now newS newD) } where
  held := by
    intro σ n hn
    apply (Finset.card_le_card ?_).trans (hs.held σ n hn)
    intro o ho
    rcases Finset.mem_union.1 ho with ho | ho
    · exact Finset.mem_union_left _ ho
    · rcases Finset.mem_union.1 (objectsIn_set_subset _ _ σ ho) with ho | ho
      · exact Finset.mem_union_right _ ho
      · rw [EdgeRow.reinforced_inSlot] at ho
        split at ho
        · next hin =>
          rw [← Session.view_objects hs.covers, slotObjects_eq, mem_objectsIn]
          exact ⟨e, Table.mem_of_get? he, hin, (Finset.mem_singleton.1 ho).symm⟩
        · cases ho
  vetted := by
    intro σ n hv
    cases hv
  covers := by
    intro x hx r hr σ hin
    rw [Table.get?_set] at hr
    split at hr
    · next hid =>
      cases hr
      have hid : e.id = x.id := hid
      have he : (db.edges.merge s.own).get? e.id = some e := he
      rw [Table.get?_merge, hid] at he
      cases hown : s.own.get? x.id with
      | some v =>
        rw [hown] at he
        cases he
        exact hs.covers x hx e hown σ hin
      | none =>
        rw [hown, Option.none_or, Table.get?_of_mem hx] at he
        cases he
        exact ⟨hin, rfl⟩
    · exact hs.covers x hx r hr σ hin
  fresh := by
    intro r hr
    rcases Table.mem_set hr with rfl | hr
    · rcases Table.mem_merge.1 (Table.mem_of_get? he) with hu | ⟨ht, -⟩
      · exact hs.fresh e hu
      · exact hf e ht
    · exact hs.fresh r hr

theorem SessionOk.drawn (hs : SessionOk db s) : SessionOk db.drawn s where
  held := hs.held
  vetted := hs.vetted
  covers := hs.covers
  fresh := fun r hr => Nat.lt_succ_of_lt (hs.fresh r hr)

/-- A new row in a slot with room. -/
theorem SessionOk.insert {row : EdgeRow} (hs : SessionOk db s)
    (hf : ∀ x ∈ db.edges.values, x.id < db.nextId) (hid : row.id = db.nextId)
    (hroom : ∀ n, declaredBound db row.slot = some n → (s.held db row.slot).card < n) :
    SessionOk db.drawn { s.next with own := s.own.set row } where
  held := by
    intro σ n hn
    have hsub : Session.held { s.next with own := s.own.set row } db.drawn σ ⊆
        s.held db σ ∪ (if row.inSlot σ then {row.object} else ∅) := by
      rw [Session.held, Session.held, Finset.union_assoc]
      exact Finset.union_subset_union_right (objectsIn_set_subset _ _ σ)
    apply (Finset.card_le_card hsub).trans
    split
    · next hin =>
      obtain ⟨hslot, -⟩ := EdgeRow.inSlot_iff.1 hin
      subst hslot
      apply (Finset.card_union_le _ _).trans
      rw [Finset.card_singleton]
      exact hroom n hn
    · rw [Finset.union_empty]
      exact hs.held σ n hn
  vetted := by
    intro σ n hv
    cases hv
  covers := by
    intro x hx r hr σ hin
    rw [Table.get?_set] at hr
    split at hr
    · next heq =>
      have := hf x hx
      omega
    · exact hs.covers x hx r hr σ hin
  fresh := by
    intro r hr
    rcases Table.mem_set hr with rfl | hr
    · rw [hid]
      exact Nat.lt_succ_self _
    · exact Nat.lt_succ_of_lt (hs.fresh r hr)

theorem Kept.drawn (h : Kept m) : Kept { m with db := m.db.drawn } where
  bounds := h.bounds
  fresh := fun e he => Nat.lt_succ_of_lt (h.fresh e he)
  sessions := fun s hs => (h.sessions s hs).drawn
  apart := h.apart

/-- The room the check of a session has found, or that its insert was allowed to rely on. -/
theorem room_of_allowed {w : GraphWorld} {wr : EdgeWrite} {rest : List EdgeWrite} {subject : Nat}
    (hs : SessionOk m.db s) (hp : s.phase = .insert) (ht : s.todo = wr :: rest)
    (hsub : wr.args.subject = .uuid subject) (hal : insertAllowed w m s = true) :
    ∀ n, declaredBound m.db ⟨s.brainId, subject, wr.args.predicate⟩ = some n →
      (s.held m.db ⟨s.brainId, subject, wr.args.predicate⟩).card < n := by
  intro n hn
  cases hc : wr.check with
  | some strict =>
    apply hs.vetted _ n _ hn
    simp only [Session.vetted, hp, ht, hc, hsub]
  | none =>
    simp only [insertAllowed, hp, ht, hc, hsub, Option.isNone_iff_eq_none] at hal
    rw [← Session.view_objects hs.covers]
    exact cardinalityRefusal_none hal hn

/-- A session writes a row version that nobody else holds. -/
theorem Kept.write {row : EdgeRow} (h : Kept m) (hm : s ∈ m.sessions.values)
    (hs : SessionOk m.db { s.next with own := s.own.set row })
    (hfree : ∀ u ∈ m.sessions.values, u.conn ≠ s.conn → u.holds row.id = false) :
    Kept (m.put { s.next with own := s.own.set row }) := by
  apply h.put hs
  intro u hu hne id hid
  change Table.contains (s.own.set row) id = true at hid
  rw [Table.contains, Table.get?_set] at hid
  split at hid
  · next heq =>
    rw [← heq]
    exact hfree u hu hne
  · exact h.apart s hm u hu (Ne.symm hne) id hid

theorem Kept.statement {w : GraphWorld} {newS newD : ℚ} {wr : EdgeWrite} {rest : List EdgeWrite}
    (h : Kept m) (hm : s ∈ m.sessions.values) (ht : s.todo = wr :: rest)
    (hal : insertAllowed w m s = true) : Kept (makeStatement w newS newD m s wr) := by
  have hs := h.sessions s hm
  have hnext : Kept (m.put s.next) := h.advance hm rfl rfl (fun σ n hv => nomatch hv)
  unfold makeStatement
  split
  · next subject object hsub hobj =>
    dsimp only
    split
    · -- `GET_ACTIVE_EDGE_SQL` writes nothing, and an insert that follows it directly is unchecked.
      split
      · exact h.advance hm rfl rfl (fun σ n hv => nomatch hv)
      · refine h.advance hm rfl rfl ?_
        intro σ n hv
        cases hc : wr.check <;> simp [Session.vetted, ht, hc] at hv
    · next id hp =>
      split
      · next hlock =>
        split
        · next e he =>
          cases Table.key_of_get? he
          split
          · apply h.write hm (hs.reinforce h.fresh he)
            intro u hu hne
            have hu := List.all_eq_true.1 hlock u hu
            simp only [hne, decide_false, Bool.false_or, Bool.not_eq_true'] at hu
            exact hu
          · exact hnext
        · exact hnext
      · exact h
    · split
      · exact h.close _
      · next hchk =>
        refine h.advance hm rfl rfl ?_
        intro σ n hv hn
        rw [← Session.view_objects hs.covers]
        have hσ : σ = ⟨s.brainId, subject, wr.args.predicate⟩ := by
          cases hc : wr.check with
          | none => simp [Session.vetted, ht, hc] at hv
          | some strict => simpa [Session.vetted, ht, hc, hsub, eq_comm] using hv
        subst hσ
        exact cardinalityRefusal_none hchk hn
    · next hp =>
      split
      · exact h
      · split
        · exact h.close _
        · split
          · apply h.drawn.write hm
            · exact hs.insert h.fresh rfl (room_of_allowed hs hp ht hsub hal)
            · intro u hu _
              cases hc : u.holds m.db.nextId with
              | false => exact hc
              | true =>
                obtain ⟨r, hr⟩ := Option.isSome_iff_exists.1 hc
                have hlt := (h.sessions u hu).fresh r (Table.mem_of_get? hr)
                rw [Table.key_of_get? hr] at hlt
                exact absurd hlt (Nat.lt_irrefl _)
          · exact h.close _
  · exact h.close _

theorem Kept.begin (h : Kept m) :
    Kept (m.put { s with phase := .lookup, own := Table.empty }) := by
  apply h.put
  · have hheld : ∀ σ, Session.held { s with phase := .lookup, own := Table.empty } m.db σ =
        slotObjects m.db σ := fun σ => Finset.union_empty _
    constructor
    · intro σ n hn
      rw [hheld]
      exact h.bounds σ n hn
    · intro σ n hv
      cases hv
    · intro e _ r hr
      cases hr
    · intro r hr
      cases hr
  · intro u _ _ id hid
    cases hid

/-- What a commit that is allowed adds to a bounded slot no other session claims. -/
theorem commitAllowed_spec (hal : commitAllowed m s = true) {σ : Slot} {n : Nat}
    (hn : declaredBound m.db σ = some n) (hnew : ¬ objectsIn s.own σ ⊆ slotObjects m.db σ) :
    ∀ t ∈ m.sessions.values, t.conn ≠ s.conn → t.claims m.db σ = false := by
  intro t ht hne
  obtain ⟨o, ho, hnot⟩ := Finset.not_subset.1 hnew
  obtain ⟨r, hr, hin, rfl⟩ := mem_objectsIn.1 ho
  obtain ⟨rfl, hlive⟩ := EdgeRow.inSlot_iff.1 hin
  have hr := List.all_eq_true.1 hal r hr
  simp only [hn, hlive, hnot, Option.isNone_some, Bool.not_true, Bool.false_or, decide_false,
    List.all_eq_true] at hr
  have ht := hr t ht
  simp only [hne, decide_false, Bool.false_or, Bool.not_eq_true'] at ht
  exact ht

/-- What another session holds after the commit of `s`. -/
theorem held_after_commit (hal : commitAllowed m s = true) (ht : t ∈ m.sessions.values)
    (hne : t.conn ≠ s.conn) {σ : Slot} {n : Nat} (hn : declaredBound m.db σ = some n) :
    t.held (s.view m.db) σ ⊆ t.held m.db σ ∨
      t.vetted ≠ some σ ∧ t.held (s.view m.db) σ ⊆ s.held m.db σ := by
  have hview : slotObjects (s.view m.db) σ ⊆ s.held m.db σ := objectsIn_merge_subset _ _ σ
  by_cases hnew : objectsIn s.own σ ⊆ slotObjects m.db σ
  · apply Or.inl
    apply Finset.union_subset_union_left
    exact hview.trans (Finset.union_subset (Finset.Subset.refl _) hnew)
  · have hcl := commitAllowed_spec hal hn hnew t ht hne
    simp only [Session.claims, Bool.or_eq_false_iff, decide_eq_false_iff_not,
      Bool.not_eq_false', decide_eq_true_eq] at hcl
    refine .inr ⟨hcl.1, ?_⟩
    exact Finset.union_subset hview (hcl.2.trans Finset.subset_union_left)

theorem Kept.commit (h : Kept m) (hm : s ∈ m.sessions.values) (hal : commitAllowed m s = true) :
    Kept { m.close s.conn with db := s.view m.db } where
  bounds := by
    intro σ n hn
    exact (Finset.card_le_card (objectsIn_merge_subset _ _ σ)).trans ((h.sessions s hm).held σ n hn)
  fresh := by
    intro e he
    rcases Table.mem_merge.1 he with hu | ⟨ht, -⟩
    · exact (h.sessions s hm).fresh e hu
    · exact h.fresh e ht
  sessions := by
    intro t ht
    have htm := Table.mem_pop ht
    have hne : t.conn ≠ s.conn := by
      intro heq
      have hget := Table.get?_of_mem ht
      rw [show (m.close s.conn).sessions.get? t.conn = none by
        rw [heq]; exact (Table.get?_pop _ _ _).trans (if_pos rfl)] at hget
      cases hget
    have hst := h.sessions t htm
    constructor
    · intro σ n hn
      rcases held_after_commit hal htm hne hn with hsub | ⟨-, hsub⟩
      · exact (Finset.card_le_card hsub).trans (hst.held σ n hn)
      · exact (Finset.card_le_card hsub).trans ((h.sessions s hm).held σ n hn)
    · intro σ n hv hn
      rcases held_after_commit hal htm hne hn with hsub | ⟨hnv, -⟩
      · exact (Finset.card_le_card hsub).trans_lt (hst.vetted σ n hv hn)
      · exact absurd hv hnv
    · intro e he r hr
      rcases Table.mem_merge.1 he with hu | ⟨hdb, -⟩
      · have hheld : s.holds e.id = true := by
          rw [Session.holds, Table.contains, Table.get?_of_mem hu, Option.isSome_some]
        have hfree := h.apart s hm t htm (Ne.symm hne) e.id hheld
        rw [Session.holds, Table.contains, hr] at hfree
        cases hfree
      · exact hst.covers e hdb r hr
    · exact hst.fresh
  apart := fun t ht u hu => h.apart t (Table.mem_pop ht) u (Table.mem_pop hu)

/-- Rows that are taken out of use leave every session with no more than before. -/
theorem Kept.retire {e r : EdgeRow} (h : Kept m) (he : e ∈ m.db.edges.values) (hid : r.id = e.id)
    (hr : r.live = false) : Kept { m with db := { m.db with edges := m.db.edges.set r } } := by
  have hsub : ∀ σ, objectsIn (m.db.edges.set r) σ ⊆ objectsIn m.db.edges σ := by
    intro σ
    have := objectsIn_set_subset m.db.edges r σ
    rwa [if_neg (by rw [EdgeRow.inSlot_iff, hr]; simp), Finset.union_empty] at this
  constructor
  · intro σ n hn
    exact (Finset.card_le_card (hsub σ)).trans (h.bounds σ n hn)
  · intro x hx
    rcases Table.mem_set hx with rfl | hx
    · rw [hid]
      exact h.fresh e he
    · exact h.fresh x hx
  · intro s hs
    have hs := h.sessions s hs
    have hheld : ∀ σ, s.held { m.db with edges := m.db.edges.set r } σ ⊆ s.held m.db σ :=
      fun σ => Finset.union_subset_union_left (hsub σ)
    constructor
    · intro σ n hn
      exact (Finset.card_le_card (hheld σ)).trans (hs.held σ n hn)
    · intro σ n hv hn
      exact (Finset.card_le_card (hheld σ)).trans_lt (hs.vetted σ n hv hn)
    · intro x hx v hv σ hin
      rcases Table.mem_set hx with rfl | hx
      · rw [EdgeRow.inSlot_iff, hr] at hin
        cases hin.2
      · exact hs.covers x hx v hv σ hin
    · exact hs.fresh
  · exact h.apart

end Kept

theorem GraphAction.step_kept {w : GraphWorld} (a : GraphAction) (m : ReadCommitted) (h : Kept m)
    (hal : a.allowed w m = true) : Kept (a.step w m) := by
  cases a with
  | begin s =>
    simp only [GraphAction.step]
    split
    · exact h
    · exact h.begin
  | statement conn newS newD =>
    simp only [GraphAction.step]
    split
    · exact h
    · next s hs =>
      simp only [GraphAction.allowed, hs, Option.all_some] at hal
      split
      · exact h
      · next wr rest ht => exact h.statement (Table.mem_of_get? hs) ht hal
  | commit conn =>
    simp only [GraphAction.step]
    split
    · exact h
    · next s hs =>
      simp only [GraphAction.allowed, hs, Option.all_some] at hal
      cases Table.key_of_get? hs
      split
      · exact h.commit (Table.mem_of_get? hs) hal
      · exact h
  | rollback conn => exact h.close conn
  | pointer brain now new old =>
    simp only [GraphAction.step]
    split
    · unfold superseded supersedeEdgeRow
      rw [updateEdge_run]
      cases he : m.db.edges.get? old with
      | none => exact h
      | some e =>
        dsimp only
        split
        · exact h.retire (Table.mem_of_get? he) rfl rfl
        · exact h
    · exact h

/-- In every interleaving whose commits and unchecked inserts are allowed where they happen, no
commit leaves more objects in a slot than were declared. -/
theorem cardinality_kept (w : GraphWorld) (db : Graph) (actions : List GraphAction)
    (hbounds : WithinBounds db) (hfresh : ∀ e ∈ db.edges.values, e.id < db.nextId)
    (hal : Allowed (GraphAction.step w) (GraphAction.allowed w) actions { db := db }) :
    WithinBounds (runSteps (GraphAction.step w) actions { db := db }).db := by
  have hstart : Kept { db := db } := by
    constructor
    · exact hbounds
    · exact hfresh
    · intro s hs
      cases hs
    · intro s hs
      cases hs
  exact (Allowed.keeps GraphAction.step_kept hstart hal).bounds

theorem one_object_allowed : 1 ≤ 1 := Nat.le_refl 1

theorem one_predicate_named :
    ([⟨"brain", "owns", some ⟨1, one_object_allowed⟩⟩].map PredicateRow.name).Nodup :=
  List.nodup_singleton _

/-- A person, two cars and a predicate of which a person may have one object. -/
def garage : Graph :=
  let k : GraphConfig := { brainId := "brain" }
  let entities : Tx Unit := do
    let _ ← GraphStore.upsertEntity .calm k { entityType := "person", canonicalName := "ada" }
    let _ ← GraphStore.upsertEntity .calm k { entityType := "car", canonicalName := "one" }
    let _ ← GraphStore.upsertEntity .calm k { entityType := "car", canonicalName := "two" }
    pure ()
  (entities { predicates := ⟨[⟨"brain", "owns", some ⟨1, one_object_allowed⟩⟩], one_predicate_named⟩ }).2

def owns (car : Nat) : EdgeSpec where
  subject := { entityId := some (.uuid 0) }
  object := { entityId := some (.uuid car) }
  predicate := "owns"
  accepted := rfl

def ownsArgs (car : Nat) : EdgeArgs :=
  { subject := .uuid 0, predicate := "owns", object := .uuid car, evidenceId := some "e" }

/-- `upsert_edge` for one car and then `record` for the same one. -/
theorem cardinality_kept_one_by_one :
    WithinBounds (runSteps (GraphAction.step .calm)
      [.begin (upsertSession { brainId := "brain" } 0 0 (ownsArgs 1)), .statement 0 0 0,
        .statement 0 0 0, .statement 0 0 0, .commit 0,
        .begin (recordSession { brainId := "brain" } 1 1 [] [(owns 1, .uuid 0, .uuid 1)]),
        .statement 1 1 1, .statement 1 1 1, .commit 1] { db := garage }).db :=
  cardinality_kept .calm garage _ (fun σ n _ => Nat.zero_le n) (by decide +kernel)
    (by decide +kernel)

/-- One event with two cars, and two transactions that both count before either commits. -/
theorem cardinality_bypassed :
    ¬ WithinBounds (runSteps (GraphAction.step .calm)
        [.begin (recordSession { brainId := "brain" } 0 0 []
            [(owns 1, .uuid 0, .uuid 1), (owns 2, .uuid 0, .uuid 2)]),
          .statement 0 0 0, .statement 0 0 0, .statement 0 0 0, .statement 0 0 0, .commit 0]
        { db := garage }).db ∧
      ¬ WithinBounds (runSteps (GraphAction.step .calm)
        [.begin (upsertSession { brainId := "brain" } 0 0 (ownsArgs 1)),
          .begin (upsertSession { brainId := "brain" } 1 1 (ownsArgs 2)),
          .statement 0 0 0, .statement 0 0 0, .statement 1 0 0, .statement 1 0 0,
          .statement 0 0 0, .statement 1 0 0, .commit 0, .commit 1] { db := garage }).db := by
  constructor
  · intro h
    have hone := h ⟨"brain", 0, "owns"⟩ 1 (by decide +kernel)
    revert hone
    decide +kernel
  · intro h
    have hone := h ⟨"brain", 0, "owns"⟩ 1 (by decide +kernel)
    revert hone
    decide +kernel

end TappsBrain
