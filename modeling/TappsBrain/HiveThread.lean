import Mathlib.Data.List.Perm.Subperm
import Mathlib.Data.List.TakeWhile
import TappsBrain.Hive

namespace TappsBrain
open Lib
set_option autoImplicit true
set_option relaxedAutoImplicit false

/-- The first row on the way from `front` to `tip`. -/
def firstOf (front : List HiveRow) (tip : HiveRow) : HiveRow := front.head?.getD tip

/-- The rows of `front` are dead and each names the next one; the last names `tip`, which names
none. -/
def Linked : List HiveRow → HiveRow → Prop
  | [], tip => tip.supersededBy = none
  | row :: rest, tip =>
    row.live = false ∧ row.supersededBy = some (firstOf rest tip).key ∧ Linked rest tip

/-- The versions of one key in one namespace: a thread of dead rows from the plain key to a tip,
which is the only row among them that may be live. -/
structure Threaded (t : HiveTable) (ns k : String) (front : List HiveRow) (tip : HiveRow) :
    Prop where
  linked : Linked front tip
  distinct : ((front ++ [tip]).map HiveRow.key).Nodup
  stored : ∀ row ∈ front ++ [tip], row ∈ t.values
  placed : ∀ row ∈ front ++ [tip], row.ns = ns ∧ row.key.logical = k
  start : (firstOf front tip).key = ⟨k, none⟩
  single : ∀ row ∈ t.values, row.ns = ns → row.key.logical = k → row.live = true → row = tip

/-- The key has no row in the namespace, or its rows are threaded. -/
def OneTip (t : HiveTable) (ns k : String) : Prop :=
  (∀ row ∈ t.values, row.ns = ns → row.key.logical ≠ k) ∨ ∃ front tip, Threaded t ns k front tip

variable {t t' : HiveTable} {ns k : String} {front : List HiveRow} {tip row : HiveRow} {now : Stamp}

theorem Linked.same_tip {tip' : HiveRow} (h : Linked front tip) (hkey : tip'.key = tip.key)
    (hnext : tip'.supersededBy = none) : Linked front tip' := by
  induction front with
  | nil => exact hnext
  | cons row rest ih =>
    obtain ⟨hdead, hrow, hrest⟩ := h
    apply And.intro hdead
    apply And.intro _ (ih hrest)
    cases rest with
    | nil => rw [hrow, firstOf, firstOf, List.head?_nil, Option.getD_none, Option.getD_none, hkey]
    | cons _ _ => exact hrow

theorem Linked.tip_last (h : Linked front tip) : tip.supersededBy = none := by
  induction front with
  | nil => exact h
  | cons _ _ ih => exact ih h.2.2

/-- A thread that is continued at `tip` with `new`, and cut where it already passes the key of
`new`. -/
theorem Linked.continue {new : HiveRow} (h : Linked front tip) (hnew : new.supersededBy = none) :
    Linked ((front ++ [tip.supersededAt now new.key]).takeWhile (fun r => r.key ≠ new.key)) new := by
  induction front with
  | nil =>
    by_cases hk : tip.key = new.key
    · simpa only [List.nil_append, HiveRow.supersededAt, ne_eq, decide_not, List.takeWhile_cons, hk,
        decide_true, Bool.not_true, Bool.false_eq_true, ↓reduceIte, Linked] using hnew
    · simp only [List.nil_append, HiveRow.supersededAt, ne_eq, decide_not, List.takeWhile_cons, hk,
        decide_false, Bool.not_false, ↓reduceIte, List.takeWhile_nil, Linked, HiveRow.live,
        Option.isNone_some, firstOf, List.head?_nil, Option.getD_none, true_and]
      exact hnew
  | cons row rest ih =>
    obtain ⟨hdead, hrow, hrest⟩ := h
    by_cases hk : row.key = new.key
    · simpa only [List.cons_append, ne_eq, decide_not, List.takeWhile_cons, hk, decide_true,
        Bool.not_true, Bool.false_eq_true, ↓reduceIte, Linked] using hnew
    · have ih := ih hrest
      simp only [List.cons_append, ne_eq, decide_not, List.takeWhile_cons, hk, decide_false,
        Bool.not_false, ↓reduceIte] at ih ⊢
      apply And.intro hdead
      apply And.intro _ ih
      rw [hrow, Option.some.injEq]
      -- the next row is either kept, or it is the place where the thread is cut
      cases rest with
      | nil =>
        by_cases hcut : tip.key = new.key
        · simp only [firstOf, List.nil_append, List.takeWhile_cons, HiveRow.supersededAt, hcut,
            decide_true, Bool.not_true, Bool.false_eq_true, ↓reduceIte, List.head?_nil,
            Option.getD_none]
        · simp only [firstOf, List.nil_append, List.takeWhile_cons, HiveRow.supersededAt, hcut,
            decide_false, Bool.not_false, ↓reduceIte, List.head?_nil, List.head?_cons,
            Option.getD_none, Option.getD_some]
      | cons next _ =>
        by_cases hcut : next.key = new.key
        · simp only [firstOf, List.cons_append, List.takeWhile_cons, hcut, decide_true,
            Bool.not_true, Bool.false_eq_true, ↓reduceIte, List.head?_nil, List.head?_cons,
            Option.getD_none, Option.getD_some]
        · simp only [firstOf, List.cons_append, List.takeWhile_cons, hcut, decide_false,
            Bool.not_false, ↓reduceIte, List.head?_cons, Option.getD_some]

theorem get?_of_stored (h : row ∈ t.values) (hns : row.ns = ns) : t.get? (ns, row.key) = some row := by
  have hget := Table.get?_of_mem h
  rwa [HiveRow.id, hns] at hget

theorem firstOf_mem (front : List HiveRow) (tip : HiveRow) : firstOf front tip ∈ front ++ [tip] := by
  cases front with
  | nil => exact List.mem_singleton_self tip
  | cons row rest => exact List.mem_cons_self

/-- Following a thread ends at its tip, given enough turns. -/
theorem followFrom_linked {turns : Nat} {seen : List HiveKey} (h : Linked front tip)
    (hstored : ∀ row ∈ front ++ [tip], row ∈ t.values ∧ row.ns = ns)
    (hdistinct : (front.map HiveRow.key).Nodup) (hseen : ∀ row ∈ front, row.key ∉ seen)
    (hturns : front.length ≤ turns) : followFrom t turns seen (firstOf front tip) = tip := by
  induction front generalizing turns seen with
  | nil =>
    simp only [firstOf, List.head?_nil, Option.getD_none]
    cases turns with
    | zero => rfl
    | succ turns =>
      have hlast : tip.supersededBy = none := h
      simp only [followFrom, hlast, ite_self]
  | cons row rest ih =>
    obtain ⟨hdead, hrow, hrest⟩ := h
    cases turns with
    | zero => exact absurd hturns (Nat.not_succ_le_zero _)
    | succ turns =>
      have hnext : firstOf rest tip ∈ (row :: rest) ++ [tip] :=
        List.mem_cons_of_mem row (firstOf_mem rest tip)
      have hns := (hstored row List.mem_cons_self).2
      have hget : t.get? (row.ns, (firstOf rest tip).key) = some (firstOf rest tip) := by
        rw [hns]
        exact get?_of_stored (hstored _ hnext).1 (hstored _ hnext).2
      have hfresh := hseen row List.mem_cons_self
      simp only [List.map_cons, List.nodup_cons, List.mem_map, not_exists, not_and] at hdistinct
      rw [firstOf, List.head?_cons, Option.getD_some]
      simp only [followFrom, hdead, Bool.false_eq_true, ↓reduceIte, hrow, hfresh, hget]
      apply ih hrest (fun r hr => hstored r (List.mem_cons_of_mem row hr)) hdistinct.2
      · intro r hr hmem
        cases List.mem_cons.mp hmem with
        | inl hsame => exact hdistinct.1 r hr hsame
        | inr hmem => exact hseen r (List.mem_cons_of_mem row hr) hmem
      · simp only [List.length_cons] at hturns
        omega

namespace Threaded
variable (h : Threaded t ns k front tip)
include h

theorem length_le : front.length ≤ t.size := by
  have hnodup : front.Nodup := by
    apply List.Nodup.of_map HiveRow.key
    have hdistinct := h.distinct
    rw [List.map_append] at hdistinct
    exact hdistinct.of_append_left
  have hsubset : front ⊆ t.values := fun row hrow => h.stored row (List.mem_append_left _ hrow)
  exact (List.subperm_of_subset hnodup hsubset).length_le

theorem followLiveTip : followLiveTip t (firstOf front tip) = tip := by
  have hdistinct := h.distinct
  rw [List.map_append] at hdistinct
  exact followFrom_linked h.linked (fun row hrow => ⟨h.stored row hrow, (h.placed row hrow).1⟩)
    hdistinct.of_append_left (fun _ _ => List.not_mem_nil) h.length_le

theorem first : t.get? (ns, ⟨k, none⟩) = some (firstOf front tip) := by
  have hfirst := firstOf_mem front tip
  rw [← h.start]
  exact get?_of_stored (h.stored _ hfirst) (h.placed _ hfirst).1

theorem tip_stored : tip ∈ t.values ∧ tip.ns = ns ∧ tip.key.logical = k := by
  have htip : tip ∈ front ++ [tip] := List.mem_append_right _ (List.mem_singleton_self tip)
  exact ⟨h.stored tip htip, h.placed tip htip⟩

end Threaded

/-- The rows of one key depend on nothing but the rows of that key. -/
theorem Threaded.frame (h : Threaded t ns k front tip)
    (hsame : ∀ id : String × HiveKey, id.1 = ns → id.2.logical = k → t'.get? id = t.get? id) :
    Threaded t' ns k front tip := by
  have hkeeps (row : HiveRow) (hns : row.ns = ns) (hkey : row.key.logical = k) :
      row ∈ t'.values ↔ row ∈ t.values := by
    rw [Table.mem_iff_get?, Table.mem_iff_get?, hsame row.id hns hkey]
  constructor
  · exact h.linked
  · exact h.distinct
  · intro row hrow
    obtain ⟨hns, hkey⟩ := h.placed row hrow
    exact (hkeeps row hns hkey).mpr (h.stored row hrow)
  · exact h.placed
  · exact h.start
  · intro row hrow hns hkey
    exact h.single row ((hkeeps row hns hkey).mp hrow) hns hkey

theorem OneTip.frame (h : OneTip t ns k)
    (hsame : ∀ id : String × HiveKey, id.1 = ns → id.2.logical = k → t'.get? id = t.get? id) :
    OneTip t' ns k := by
  cases h with
  | inl hnone =>
    left
    intro row hrow hns hkey
    rw [Table.mem_iff_get?, hsame row.id hns hkey, ← Table.mem_iff_get?] at hrow
    exact hnone row hrow hns hkey
  | inr hthread =>
    obtain ⟨front, tip, hthread⟩ := hthread
    exact .inr ⟨front, tip, hthread.frame hsame⟩

/-- Without a plain row there is no version either. -/
theorem OneTip.empty (h : OneTip t ns k) (hget : t.get? (ns, ⟨k, none⟩) = none) :
    ∀ row ∈ t.values, row.ns = ns → row.key.logical ≠ k := by
  cases h with
  | inl hnone => exact hnone
  | inr hthread =>
    obtain ⟨front, tip, hthread⟩ := hthread
    rw [hthread.first] at hget
    cases hget

/-- With a plain row, following it ends at the tip. -/
theorem OneTip.threaded {existing : HiveRow} (h : OneTip t ns k)
    (hget : t.get? (ns, ⟨k, none⟩) = some existing) :
    ∃ front, Threaded t ns k front (followLiveTip t existing) := by
  cases h with
  | inl hnone =>
    have hid := Table.key_of_get? hget
    have hkey : existing.key = ⟨k, none⟩ := congrArg Prod.snd hid
    exact absurd (by rw [hkey]) (hnone existing (Table.mem_of_get? hget) (congrArg Prod.fst hid))
  | inr hthread =>
    obtain ⟨front, tip, hthread⟩ := hthread
    rw [hthread.first, Option.some.injEq] at hget
    exists front
    rw [← hget, hthread.followLiveTip]
    exact hthread

theorem upsertMemory_eq (t : HiveTable) (row : HiveRow) :
    ∃ created, upsertMemory t row = t.set { row with createdAt := created } := by
  simp only [upsertMemory]
  cases t.get? row.id with
  | none => exact ⟨row.createdAt, rfl⟩
  | some existing => exact ⟨existing.createdAt, rfl⟩

theorem set_elsewhere {id : String × HiveKey} (hrow : row.ns = ns ∧ row.key.logical = k)
    (hid : ¬(id.1 = ns ∧ id.2.logical = k)) : (t.set row).get? id = t.get? id := by
  apply Table.get?_set_ne
  intro hsame
  apply hid
  rw [← hsame]
  exact hrow

/-- Superseding a threaded key continues the thread at a new live tip. -/
theorem Threaded.supersede (h : Threaded t ns k front tip) (new : HiveRow) (hns : new.ns = ns)
    (hkey : new.key = ⟨k, some now⟩) (hnext : new.supersededBy = none) :
    Threaded ((t.set (tip.supersededAt now new.key)).set new) ns k
      ((front ++ [tip.supersededAt now new.key]).takeWhile (fun r => r.key ≠ new.key)) new := by
  have htip := h.tip_stored
  have hkeys : (front ++ [tip.supersededAt now new.key]).map HiveRow.key =
      (front ++ [tip]).map HiveRow.key := by
    simp only [List.map_append, List.map_cons, HiveRow.supersededAt, List.map_nil]
  have hkept (row : HiveRow)
      (hrow : row ∈ (front ++ [tip.supersededAt now new.key]).takeWhile (fun r => r.key ≠ new.key)) :
      row ∈ front ++ [tip.supersededAt now new.key] ∧ row.key ≠ new.key := by
    have hne := List.mem_takeWhile_imp hrow
    simp only [ne_eq, decide_not, Bool.not_eq_true', decide_eq_false_iff_not] at hne
    exact ⟨(List.takeWhile_sublist _).subset hrow, hne⟩
  constructor
  · exact h.linked.continue hnext
  · rw [List.map_append, List.map_cons, List.map_nil]
    apply List.Nodup.append
    · have hsub := (List.takeWhile_sublist (fun r : HiveRow => decide (r.key ≠ new.key))
        (l := front ++ [tip.supersededAt now new.key])).map HiveRow.key
      rw [hkeys] at hsub
      exact h.distinct.sublist hsub
    · exact List.nodup_singleton _
    · intro key hmem hnew
      obtain ⟨row, hrow, rfl⟩ := List.mem_map.mp hmem
      exact (hkept row hrow).2 (List.mem_singleton.mp hnew)
  · intro row hrow
    cases List.mem_append.mp hrow with
    | inr hlast =>
      rw [List.mem_singleton.mp hlast]
      exact Table.mem_set_self _ _
    | inl hrow =>
      obtain ⟨hmem, hne⟩ := hkept row hrow
      have hid : row.id ≠ new.id := fun hsame => hne (congrArg Prod.snd hsame)
      apply Table.mem_set_of_ne _ hid
      cases List.mem_append.mp hmem with
      | inr hlast =>
        rw [List.mem_singleton.mp hlast]
        exact Table.mem_set_self _ _
      | inl hfront =>
        apply Table.mem_set_of_ne (h.stored row (List.mem_append_left _ hfront))
        intro hsame
        have hdistinct := h.distinct
        rw [List.map_append, List.nodup_append] at hdistinct
        exact hdistinct.2.2 row.key (List.mem_map_of_mem hfront) tip.key
          (List.mem_singleton_self _) (congrArg Prod.snd hsame)
  · intro row hrow
    cases List.mem_append.mp hrow with
    | inr hlast =>
      rw [List.mem_singleton.mp hlast, hkey]
      exact ⟨hns, rfl⟩
    | inl hrow =>
      cases List.mem_append.mp (hkept row hrow).1 with
      | inr hlast =>
        rw [List.mem_singleton.mp hlast]
        exact htip.2
      | inl hfront => exact h.placed row (List.mem_append_left _ hfront)
  · -- the plain key is not the version the thread may be cut at, so the thread starts as it did
    have hplain : (⟨k, none⟩ : HiveKey) ≠ new.key := by
      rw [hkey]
      intro hsame
      cases hsame
    have hstart := h.start
    cases front with
    | nil =>
      simp only [firstOf, List.head?_nil, Option.getD_none] at hstart
      simp only [firstOf, List.nil_append, List.takeWhile_cons, HiveRow.supersededAt, ne_eq, hstart,
        hplain, not_false_eq_true, decide_true, ↓reduceIte, List.head?_cons, Option.getD_some]
    | cons row rest =>
      simp only [firstOf, List.head?_cons, Option.getD_some] at hstart
      simp only [firstOf, List.cons_append, List.takeWhile_cons, ne_eq, hstart, hplain,
        not_false_eq_true, decide_true, ↓reduceIte, List.head?_cons, Option.getD_some]
  · intro row hrow hrns hrkey hlive
    cases Table.mem_set hrow with
    | inl hnew => exact hnew
    | inr hold =>
      cases Table.mem_set hold with
      | inl hclosed =>
        rw [hclosed] at hlive
        cases hlive
      | inr hold =>
        cases h.single row hold hrns hrkey hlive
        by_cases hsame : tip.key = new.key
        · apply Table.eq_of_key hrow (Table.mem_set_self _ _)
          rw [HiveRow.id, HiveRow.id, hsame, hrns, hns]
        · have hclosed : tip.supersededAt now new.key ∈
              ((t.set (tip.supersededAt now new.key)).set new).values :=
            Table.mem_set_of_ne (Table.mem_set_self _ _)
              (fun hid => hsame (congrArg Prod.snd hid))
          have hdead := congrArg HiveRow.live (Table.eq_of_key hrow hclosed rfl)
          rw [hlive] at hdead
          cases hdead

/-- Archiving the tip of a thread leaves a thread without a live row. -/
theorem Threaded.archive (h : Threaded t ns k front tip) :
    Threaded (t.set (tip.archivedAt now)) ns k front (tip.archivedAt now) := by
  have hkeys : (front ++ [tip.archivedAt now]).map HiveRow.key =
      (front ++ [tip]).map HiveRow.key := by
    simp only [List.map_append, List.map_cons, HiveRow.archivedAt, List.map_nil]
  constructor
  · exact h.linked.same_tip rfl h.linked.tip_last
  · rw [hkeys]
    exact h.distinct
  · intro row hrow
    cases List.mem_append.mp hrow with
    | inr hlast =>
      rw [List.mem_singleton.mp hlast]
      exact Table.mem_set_self _ _
    | inl hfront =>
      apply Table.mem_set_of_ne (h.stored row (List.mem_append_left _ hfront))
      intro hsame
      have hdistinct := h.distinct
      rw [List.map_append, List.nodup_append] at hdistinct
      exact hdistinct.2.2 row.key (List.mem_map_of_mem hfront) tip.key
        (List.mem_singleton_self _) (congrArg Prod.snd hsame)
  · intro row hrow
    cases List.mem_append.mp hrow with
    | inr hlast =>
      rw [List.mem_singleton.mp hlast]
      exact h.tip_stored.2
    | inl hfront => exact h.placed row (List.mem_append_left _ hfront)
  · have hstart := h.start
    cases front with
    | nil => exact hstart
    | cons _ _ => exact hstart
  · intro row hrow hrns hrkey hlive
    cases Table.mem_set hrow with
    | inl hnew => exact hnew
    | inr hold =>
      cases h.single row hold hrns hrkey hlive
      exact Table.eq_of_key hrow (Table.mem_set_self _ _) rfl

/-- A save under the default policy keeps the rows of its key threaded. -/
theorem saveMemory_oneTip {a : HiveSave} (ha : a.conflictPolicy = .supersede)
    (h : OneTip t a.ns a.key) : OneTip (saveMemory now a t) a.ns a.key := by
  simp only [saveMemory]
  cases hget : t.get? (a.ns, ⟨a.key, none⟩) with
  | none =>
    have hempty := h.empty hget
    obtain ⟨created, hrow⟩ := upsertMemory_eq t (a.row ⟨a.key, none⟩ none now now)
    right
    exists [], { a.row ⟨a.key, none⟩ none now now with createdAt := created }
    dsimp only
    rw [hrow]
    constructor
    · rfl
    · exact List.nodup_singleton _
    · intro row hrow
      rw [List.nil_append] at hrow
      rw [List.mem_singleton.mp hrow]
      exact Table.mem_set_self _ _
    · intro row hrow
      rw [List.nil_append] at hrow
      rw [List.mem_singleton.mp hrow]
      exact ⟨rfl, rfl⟩
    · rfl
    · intro row hrow hns hkey _
      cases Table.mem_set hrow with
      | inl hnew => exact hnew
      | inr hold => exact absurd hkey (hempty row hold hns)
  | some existing =>
    obtain ⟨front, hthread⟩ := h.threaded hget
    have hresolve : resolveConflict (followLiveTip t existing) a = .supersedeVersion := by
      simp only [resolveConflict, ha]
    simp only [hresolve]
    obtain ⟨created, hrow⟩ := upsertMemory_eq
      (t.set ((followLiveTip t existing).supersededAt now ⟨a.key, some now⟩))
      (a.row ⟨a.key, some now⟩ (some now) now now)
    right
    rw [hrow]
    exact ⟨_, _, hthread.supersede
      { a.row ⟨a.key, some now⟩ (some now) now now with createdAt := created } rfl rfl rfl⟩

theorem saveMemory_elsewhere {a : HiveSave} (h : OneTip t a.ns a.key) {id : String × HiveKey}
    (hid : ¬(id.1 = a.ns ∧ id.2.logical = a.key)) : (saveMemory now a t).get? id = t.get? id := by
  simp only [saveMemory]
  cases hget : t.get? (a.ns, ⟨a.key, none⟩) with
  | none =>
    obtain ⟨created, hrow⟩ := upsertMemory_eq t (a.row ⟨a.key, none⟩ none now now)
    dsimp only
    rw [hrow]
    exact set_elsewhere ⟨rfl, rfl⟩ hid
  | some existing =>
    obtain ⟨front, hthread⟩ := h.threaded hget
    dsimp only
    split
    · rfl
    · obtain ⟨created, hrow⟩ := upsertMemory_eq t
        (a.row ⟨a.key, none⟩ none (followLiveTip t existing).createdAt now)
      rw [hrow]
      exact set_elsewhere ⟨rfl, rfl⟩ hid
    · obtain ⟨created, hrow⟩ := upsertMemory_eq
        (t.set ((followLiveTip t existing).supersededAt now ⟨a.key, some now⟩))
        (a.row ⟨a.key, some now⟩ (some now) now now)
      rw [hrow, set_elsewhere ⟨rfl, rfl⟩ hid]
      exact set_elsewhere hthread.tip_stored.2 hid

theorem liveTip_threaded (h : OneTip t ns k) (htip : liveTip t ns k = some tip) :
    tip.live = true ∧ ∃ front, Threaded t ns k front tip := by
  simp only [liveTip] at htip
  cases hget : t.get? (ns, ⟨k, none⟩) with
  | none =>
    rw [hget] at htip
    cases htip
  | some existing =>
    obtain ⟨front, hthread⟩ := h.threaded hget
    simp only [hget] at htip
    split at htip
    · rename_i hlive
      cases htip
      exact ⟨hlive, front, hthread⟩
    · cases htip

/-- After an archive no row of the key is live. -/
theorem archiveMemory_dead (h : OneTip t ns k) {row : HiveRow}
    (hrow : row ∈ (archiveMemory now ns k t).values) (hns : row.ns = ns)
    (hkey : row.key.logical = k) : row.live = false := by
  rw [Bool.eq_false_iff]
  intro hlive
  simp only [archiveMemory] at hrow
  cases htip : liveTip t ns k with
  | some tip =>
    rw [htip] at hrow
    obtain ⟨-, front, hthread⟩ := liveTip_threaded h htip
    rw [(hthread.archive).single row hrow hns hkey hlive] at hlive
    cases hlive
  | none =>
    rw [htip] at hrow
    cases h with
    | inl hnone => exact hnone row hrow hns hkey
    | inr hthread =>
      obtain ⟨front, tip, hthread⟩ := hthread
      cases hthread.single row hrow hns hkey hlive
      simp only [liveTip, hthread.first, hthread.followLiveTip, hlive, ↓reduceIte,
        reduceCtorEq] at htip

theorem archiveMemory_oneTip (h : OneTip t ns k) : OneTip (archiveMemory now ns k t) ns k := by
  simp only [archiveMemory]
  cases htip : liveTip t ns k with
  | none => exact h
  | some tip =>
    obtain ⟨-, front, hthread⟩ := liveTip_threaded h htip
    exact .inr ⟨front, _, hthread.archive⟩

theorem archiveMemory_elsewhere (h : OneTip t ns k) {id : String × HiveKey}
    (hid : ¬(id.1 = ns ∧ id.2.logical = k)) : (archiveMemory now ns k t).get? id = t.get? id := by
  simp only [archiveMemory]
  cases htip : liveTip t ns k with
  | none => rfl
  | some tip =>
    obtain ⟨-, front, hthread⟩ := liveTip_threaded h htip
    exact set_elsewhere hthread.tip_stored.2 hid

/-- Every key has at most one live row in every namespace, and following the key finds it. -/
def HiveStore.Versioned (h : HiveStore) : Prop := ∀ ns k, OneTip h.memories ns k

theorem HiveStore.Versioned.empty {h : HiveStore} (hempty : h.memories = Table.empty) :
    h.Versioned := by
  intro ns k
  left
  rw [hempty]
  intro row hrow
  cases hrow

theorem HiveStore.Versioned.save {h : HiveStore} (hv : h.Versioned) {clock : Nat → Stamp}
    {a : HiveSave} (ha : a.conflictPolicy = .supersede) : (h.save clock a).Versioned := by
  intro ns k
  by_cases hid : ns = a.ns ∧ k = a.key
  · rw [hid.1, hid.2]
    exact saveMemory_oneTip ha (hv a.ns a.key)
  · apply (hv ns k).frame
    intro id hns hkey
    apply saveMemory_elsewhere (hv a.ns a.key)
    rwa [hns, hkey]

theorem HiveStore.Versioned.archiveEntry {h : HiveStore} (hv : h.Versioned) (clock : Nat → Stamp)
    (ns key : String) : (h.archiveEntry clock ns key).2.Versioned := by
  intro ns' k'
  by_cases hid : ns' = ns ∧ k' = key
  · rw [hid.1, hid.2]
    exact archiveMemory_oneTip (hv ns key)
  · apply (hv ns' k').frame
    intro id hns hkey
    apply archiveMemory_elsewhere (hv ns key)
    rwa [hns, hkey]

end TappsBrain
