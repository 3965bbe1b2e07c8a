import Mathlib.Data.List.Nodup
import Mathlib.Data.List.ReduceOption
import Mathlib.Data.List.Sort
import Mathlib.Order.Defs.LinearOrder
import TappsBrain.Lib.Digits
import TappsBrain.Lib.Run

namespace TappsBrain.Partitions
open Lib
set_option autoImplicit true
set_option relaxedAutoImplicit false

/-- A `date` that is the first of a month. -/
structure Month where
  year : Nat
  month : Nat
  year_pos : 1 ≤ year
  year_le : year ≤ 9999
  month_pos : 1 ≤ month
  month_le : month ≤ 12
deriving DecidableEq

def Month.index (d : Month) : Nat := d.year * 12 + (d.month - 1)

/-- `date(year, month, 1)`; `none` when it raises `ValueError`. -/
def date (year month : Int) : Option Month :=
  if h : 1 ≤ year ∧ year ≤ 9999 ∧ 1 ≤ month ∧ month ≤ 12 then
    some ⟨year.toNat, month.toNat, by omega, by omega, by omega, by omega⟩
  else none

/-- `_add_months`. -/
def addMonths (d : Month) (months : Int) : Option Month :=
  let total : Int := d.index + months
  date (total / 12) (total % 12 + 1)

/-- `_partition_name`. -/
def partitionName (d : Month) : String :=
  "experience_events_y" ++ String.ofList (fixedDigits 4 d.year) ++ "m" ++
    String.ofList (fixedDigits 2 d.month)

/-- `_PARTITION_NAME_RE.match`: the year and the month of the name. -/
def readName (name : String) : Option (Nat × Nat) :=
  let cs := if name.toList.getLast? = some '\n' then name.toList.dropLast else name.toList
  let rest := cs.drop "experience_events_y".toList.length
  if cs.take "experience_events_y".toList.length = "experience_events_y".toList &&
      rest.length = 7 && (rest.take 4).all Char.isDigit && (rest.drop 4).head? = some 'm' &&
      (rest.drop 5).all Char.isDigit then
    some (ofDecimal (rest.take 4), ofDecimal (rest.drop 5))
  else none

/-- A row of `experience_events`, with the month of its `event_time`. -/
structure Event where
  id : Nat
  month : Month
deriving DecidableEq

/-- A partition `FOR VALUES FROM (start) TO (stop)`. -/
structure Partition where
  name : String
  start : Month
  stop : Month
  rows : List Event := []
deriving DecidableEq

def Partition.covers (p : Partition) (d : Month) : Bool :=
  p.start.index ≤ d.index && d.index < p.stop.index

/-- The partitioned table, with the rows of its default partition. -/
structure Table where
  parts : List Partition
  default : List Event := []
deriving DecidableEq

/-- What `list_monthly_partitions` says about a partition. -/
structure Monthly where
  name : String
  start : Month
  stop : Month
deriving DecidableEq

def describe (name : String) (start : Month) : Option Monthly :=
  (addMonths start 1).map (⟨name, start, ·⟩)

def listMonthlyPartitions (t : Table) : Option (List Monthly) :=
  ((t.parts.filterMap (fun p => (readName p.name).map (p.name, ·))).mapM
    (fun m => (date m.2.1 m.2.2).bind (describe m.1))).map
    (List.insertionSort (fun a b => a.start.index ≤ b.start.index))

def newestPartitionHorizon (t : Table) : Option (Option Month) :=
  (listMonthlyPartitions t).map (fun l => l.getLast?.map Monthly.stop)

def defaultPartitionRowCount (t : Table) : Nat := t.default.length

/-- `CREATE TABLE IF NOT EXISTS … PARTITION OF …`: it raises when the range overlaps another, or
when a row of the default partition lies in it. -/
def createPartition (t : Table) (c : Monthly) : Option Table :=
  if t.parts.any (fun p => p.name = c.name) then some t
  else if t.parts.any (fun p => p.start.index < c.stop.index && c.start.index < p.stop.index) ||
      t.default.any (fun e => c.start.index ≤ e.month.index && e.month.index < c.stop.index) then
    none
  else some { t with parts := t.parts ++ [⟨c.name, c.start, c.stop, []⟩] }

/-- The result of both operations: the month or cutoff they work from, and the names. -/
structure Report where
  dryRun : Bool
  reference : Month
  names : List String
deriving DecidableEq

/-- A month that is missing, as `pre_create_partitions` looks at each in turn. -/
def missing (existing : List String) (now : Month) (offset : Nat) : Option (Option Monthly) :=
  (addMonths now offset).bind fun start =>
    if partitionName start ∈ existing then some none
    else (describe (partitionName start) start).map some

def preCreatePartitions (now : Month) (monthsAhead : Int) (dryRun : Bool) (t : Table) :
    Option (Report × Table) :=
  (listMonthlyPartitions t).bind fun listed =>
  ((List.range (monthsAhead + 1).toNat).mapM (missing (listed.map Monthly.name) now)).bind
    fun found =>
  (addMonths now (monthsAhead + 1)).bind fun horizon =>
    let toCreate := found.reduceOption
    if dryRun then some (⟨true, horizon, toCreate.map Monthly.name⟩, t)
    else (toCreate.foldlM createPartition t).map (⟨false, horizon, toCreate.map Monthly.name⟩, ·)

def dropOldPartitions (now : Month) (retentionMonths : Nat) (dryRun : Bool) (t : Table) :
    Option (Report × Table) :=
  (addMonths now (-retentionMonths)).bind fun cutoff =>
  (listMonthlyPartitions t).bind fun listed =>
    let names := (listed.filter (fun p => p.stop.index ≤ cutoff.index)).map Monthly.name
    if dryRun then some (⟨true, cutoff, names⟩, t)
    else some (⟨false, cutoff, names⟩,
      { t with parts := t.parts.filter (fun p => p.name ∉ names) })

/-- `INSERT INTO experience_events`: PostgreSQL routes the row. -/
def insertEvent (e : Event) (t : Table) : Table :=
  if t.parts.any (·.covers e.month) then
    { t with
      parts := t.parts.map (fun p =>
        if p.covers e.month then { p with rows := p.rows ++ [e] } else p) }
  else { t with default := t.default ++ [e] }

/-- The database, its month, and every event recorded so far. -/
structure Database where
  now : Month
  table : Table
  recorded : List Event := []

inductive Op where
  /-- `_INSERT_EVENT_SQL`: `event_time` is the default, `now()`. -/
  | record (id : Nat)
  | nextMonth
  | preCreate (monthsAhead : Int) (dryRun : Bool)
  | dropOld (retentionMonths : Nat) (dryRun : Bool)

def step (s : Database) : Op → Option Database
  | .record id =>
    some { s with
      table := insertEvent ⟨id, s.now⟩ s.table, recorded := s.recorded ++ [⟨id, s.now⟩] }
  | .nextMonth => (addMonths s.now 1).map ({ s with now := · })
  | .preCreate monthsAhead dryRun =>
    (preCreatePartitions s.now monthsAhead dryRun s.table).map ({ s with table := ·.2 })
  | .dropOld retentionMonths dryRun =>
    (dropOldPartitions s.now retentionMonths dryRun s.table).map ({ s with table := ·.2 })

/-- `check_partition_horizon`. -/
def checkPartitionHorizon (s : Database) (monthsAhead : Nat) : Option Bool :=
  (newestPartitionHorizon s.table).bind fun horizon =>
  (addMonths s.now monthsAhead).map fun required =>
    match horizon with
    | some newest => required.index ≤ newest.index
    | none => false

section Months

theorem Month.index_inj {d e : Month} (h : d.index = e.index) : d = e := by
  obtain ⟨y, m, _, _, _, _⟩ := d
  obtain ⟨z, n, _, _, _, _⟩ := e
  simp only [Month.index] at h
  obtain ⟨rfl, rfl⟩ : y = z ∧ m = n := by omega
  rfl

theorem Month.bounds (d : Month) : 12 ≤ d.index ∧ d.index ≤ 119999 := by
  obtain ⟨y, m, _, _, _, _⟩ := d
  simp only [Month.index]
  omega

theorem date_eq_some {d : Month} {year month : Int} :
    date year month = some d ↔ (d.year : Int) = year ∧ (d.month : Int) = month := by
  constructor
  · intro h
    unfold date at h
    split at h
    · next hok =>
      obtain rfl := Option.some.inj h
      constructor
      · exact Int.toNat_of_nonneg (by omega)
      · exact Int.toNat_of_nonneg (by omega)
    · cases h
  · rintro ⟨rfl, rfl⟩
    have hok : 1 ≤ (d.year : Int) ∧ (d.year : Int) ≤ 9999 ∧ 1 ≤ (d.month : Int) ∧
        (d.month : Int) ≤ 12 := by
      have := d.year_pos
      have := d.year_le
      have := d.month_pos
      have := d.month_le
      omega
    unfold date
    rw [dif_pos hok]
    rfl

theorem addMonths_eq_some {d e : Month} {months : Int} :
    addMonths d months = some e ↔ (e.index : Int) = d.index + months := by
  have := e.month_pos
  have := e.month_le
  rw [addMonths, date_eq_some]
  simp only [Month.index]
  omega

theorem addMonths_some (d : Month) (months : Int) (hlow : 12 ≤ d.index + months)
    (hhigh : d.index + months ≤ 119999) : ∃ e, addMonths d months = some e := by
  unfold addMonths date
  rw [dif_pos (by omega)]
  exact ⟨_, rfl⟩

end Months

section Names

theorem partitionName_toList (d : Month) :
    (partitionName d).toList = "experience_events_y".toList ++
      (fixedDigits 4 d.year ++ 'm' :: fixedDigits 2 d.month) := by
  have hmark : "m".toList = ['m'] := by decide
  unfold partitionName
  generalize fixedDigits 4 d.year = ys
  generalize fixedDigits 2 d.month = ms
  rw [String.toList_append, String.toList_append, String.toList_append,
    @String.toList_ofList ys, @String.toList_ofList ms, List.append_assoc, List.append_assoc,
    hmark, List.singleton_append]

/-- The name of a partition tells its month. -/
theorem readName_partitionName (d : Month) :
    readName (partitionName d) = some (d.year, d.month) := by
  have hyear : ofDecimal (fixedDigits 4 d.year) = d.year :=
    ofDecimal_fixedDigits 4 d.year (Nat.lt_succ_of_le d.year_le)
  have hmonth : ofDecimal (fixedDigits 2 d.month) = d.month :=
    ofDecimal_fixedDigits 2 d.month (Nat.lt_of_le_of_lt d.month_le (by decide))
  have hname := partitionName_toList d
  have h4 := fixedDigits_length 4 d.year
  have h2 := fixedDigits_length 2 d.month
  have hdigits4 := fixedDigits_isDigit 4 d.year
  have hdigits2 := fixedDigits_isDigit 2 d.month
  unfold readName
  generalize "experience_events_y".toList = stem at hname ⊢
  generalize fixedDigits 4 d.year = ys at *
  generalize fixedDigits 2 d.month = ms at *
  have hlast : (partitionName d).toList.getLast? ≠ some '\n' := by
    have hassoc : stem ++ (ys ++ 'm' :: ms) = (stem ++ (ys ++ ['m'])) ++ ms := by
      simp only [List.append_assoc, List.cons_append, List.nil_append]
    have hne : ms ≠ [] := by
      rintro rfl
      cases h2
    rw [hname, hassoc, List.getLast?_append_of_ne_nil _ hne]
    intro h
    exact absurd (hdigits2 '\n' (List.mem_of_getLast? h)) (by decide)
  have htake : (ys ++ 'm' :: ms).take 4 = ys := List.take_left' h4
  have hdrop : (ys ++ 'm' :: ms).drop 4 = 'm' :: ms := List.drop_left' h4
  have hdrop5 : (ys ++ 'm' :: ms).drop 5 = ms := by
    rw [← List.drop_drop (i := 1) (j := 4), hdrop]
    rfl
  have hlen : (ys ++ 'm' :: ms).length = 7 := by
    rw [List.length_append, List.length_cons, h4, h2]
  rw [if_neg hlast, hname]
  simp only [List.take_left, List.drop_left, htake, hdrop, hdrop5, hlen, List.head?_cons, hyear,
    hmonth, List.all_eq_true.2 hdigits4, List.all_eq_true.2 hdigits2, decide_true, Bool.and_self,
    if_true]

end Names

section Tables
variable {t t' : Table} {c : Monthly} {e : Event} {now : Month} {left : Nat}

/-- The table as the migrations and this module build it: a partition is named after its month,
covers it, and holds its rows. -/
structure Aligned (t : Table) : Prop where
  named : ∀ p ∈ t.parts, p.name = partitionName p.start
  monthly : ∀ p ∈ t.parts, addMonths p.start 1 = some p.stop
  single : t.parts.Pairwise (fun p q => p.start ≠ q.start)
  routed : ∀ p ∈ t.parts, ∀ e ∈ p.rows, e.month = p.start
  empty : t.default = []

theorem partitionName_inj {d e : Month} (h : partitionName d = partitionName e) : d = e := by
  have hd := readName_partitionName d
  rw [h, readName_partitionName e] at hd
  obtain ⟨hy, hm⟩ := Prod.mk.inj (Option.some.inj hd)
  apply Month.index_inj
  rw [Month.index, Month.index, hy, hm]

theorem Aligned.stop_index (h : Aligned t) {p : Partition} (hp : p ∈ t.parts) :
    p.stop.index = p.start.index + 1 := by
  have := addMonths_eq_some.1 (h.monthly p hp)
  omega

theorem Aligned.covers_iff (h : Aligned t) {p : Partition} (hp : p ∈ t.parts) (d : Month) :
    p.covers d = true ↔ p.start = d := by
  have hstop := h.stop_index hp
  rw [Partition.covers, Bool.and_eq_true, decide_eq_true_eq, decide_eq_true_eq]
  constructor
  · intro hd
    exact Month.index_inj (by omega)
  · rintro rfl
    omega

/-- The partitions of an aligned table are what is listed, in some order. -/
theorem Aligned.listed (h : Aligned t) :
    ∃ l, listMonthlyPartitions t = some l ∧
      l.Perm (t.parts.map (fun p => ⟨p.name, p.start, p.stop⟩)) := by
  have hread : ∀ p ∈ t.parts, (readName p.name).map (p.name, ·) =
      some (p.name, p.start.year, p.start.month) := by
    intro p hp
    rw [h.named p hp, readName_partitionName]
    rfl
  have hfilter : t.parts.filterMap (fun p => (readName p.name).map (p.name, ·)) =
      t.parts.map (fun p => (p.name, p.start.year, p.start.month)) := by
    rw [← List.filterMap_eq_map]
    exact List.filterMap_congr hread
  have hdescribe : ∀ p ∈ t.parts, (date p.start.year p.start.month).bind (describe p.name) =
      some ⟨p.name, p.start, p.stop⟩ := by
    intro p hp
    rw [date_eq_some.2 ⟨rfl, rfl⟩, Option.bind_some, describe, h.monthly p hp]
    rfl
  have hmap : ∀ l : List Partition, (∀ p ∈ l, p ∈ t.parts) →
      (l.map (fun p => (p.name, p.start.year, p.start.month))).mapM
        (fun m => (date m.2.1 m.2.2).bind (describe m.1)) =
        some (l.map (fun p => (⟨p.name, p.start, p.stop⟩ : Monthly))) := by
    intro l hl
    induction l with
    | nil => rfl
    | cons p rest ih =>
      rw [List.map_cons, List.mapM_cons, hdescribe p (hl p List.mem_cons_self),
        ih (fun q hq => hl q (List.mem_cons_of_mem p hq))]
      rfl
  rw [listMonthlyPartitions, hfilter, hmap t.parts (fun p hp => hp)]
  exact ⟨_, rfl, List.perm_insertionSort _ _⟩

/-- Every partition of one table is one of the other, rows and all. -/
def Table.Within (t t' : Table) : Prop := ∀ p ∈ t.parts, p ∈ t'.parts

theorem createPartition_aligned (h : Aligned t) (hname : c.name = partitionName c.start)
    (hstop : addMonths c.start 1 = some c.stop) :
    ∃ t', createPartition t c = some t' ∧ Aligned t' ∧ t.Within t' ∧
      ∃ p ∈ t'.parts, p.start = c.start := by
  unfold createPartition
  by_cases hexists : t.parts.any (fun p => p.name = c.name) = true
  · rw [if_pos hexists]
    obtain ⟨p, hp, heq⟩ := List.any_eq_true.1 hexists
    refine ⟨t, rfl, h, fun q hq => hq, p, hp, ?_⟩
    apply partitionName_inj
    rw [← h.named p hp, ← hname]
    exact of_decide_eq_true heq
  · rw [if_neg hexists]
    have hnew : ∀ p ∈ t.parts, p.start ≠ c.start := by
      intro p hp heq
      apply hexists
      apply List.any_eq_true.2
      exact ⟨p, hp, decide_eq_true (by rw [h.named p hp, heq, hname])⟩
    have hclear : ¬ (t.parts.any
          (fun p => p.start.index < c.stop.index && c.start.index < p.stop.index) ||
        t.default.any
          (fun e => c.start.index ≤ e.month.index && e.month.index < c.stop.index)) = true := by
      rw [h.empty, List.any_nil, Bool.or_false, List.any_eq_true]
      rintro ⟨p, hp, hover⟩
      have hlast := addMonths_eq_some.1 hstop
      have hp' := h.stop_index hp
      rw [Bool.and_eq_true, decide_eq_true_eq, decide_eq_true_eq] at hover
      exact hnew p hp (Month.index_inj (by omega))
    rw [if_neg hclear]
    refine ⟨_, rfl, ⟨?_, ?_, ?_, ?_, h.empty⟩, ?_, ⟨c.name, c.start, c.stop, []⟩, ?_, rfl⟩
    · intro p hp
      rcases List.mem_append.1 hp with hp | hp
      · exact h.named p hp
      · obtain rfl := List.mem_singleton.1 hp
        exact hname
    · intro p hp
      rcases List.mem_append.1 hp with hp | hp
      · exact h.monthly p hp
      · obtain rfl := List.mem_singleton.1 hp
        exact hstop
    · apply List.pairwise_append.2
      refine ⟨h.single, List.pairwise_singleton _ _, ?_⟩
      intro p hp q hq
      obtain rfl := List.mem_singleton.1 hq
      exact hnew p hp
    · intro p hp
      rcases List.mem_append.1 hp with hp | hp
      · exact h.routed p hp
      · obtain rfl := List.mem_singleton.1 hp
        exact fun e he => absurd he List.not_mem_nil
    · exact fun p hp => List.mem_append_left _ hp
    · exact List.mem_append_right _ (List.mem_singleton_self _)

theorem createAll_aligned (l : List Monthly) (h : Aligned t)
    (hl : ∀ c ∈ l, c.name = partitionName c.start ∧ addMonths c.start 1 = some c.stop) :
    ∃ t', l.foldlM createPartition t = some t' ∧ Aligned t' ∧ t.Within t' ∧
      ∀ c ∈ l, ∃ p ∈ t'.parts, p.start = c.start := by
  induction l generalizing t with
  | nil => exact ⟨t, rfl, h, fun p hp => hp, fun c hc => absurd hc List.not_mem_nil⟩
  | cons c rest ih =>
    obtain ⟨hname, hstop⟩ := hl c List.mem_cons_self
    obtain ⟨u, hu, halign, hwithin, p, hp, hstart⟩ := createPartition_aligned h hname hstop
    obtain ⟨t', ht', halign', hwithin', hall⟩ :=
      ih halign (fun d hd => hl d (List.mem_cons_of_mem c hd))
    refine ⟨t', ?_, halign', fun q hq => hwithin' q (hwithin q hq), ?_⟩
    · rw [List.foldlM_cons, hu]
      exact ht'
    · intro d hd
      rcases List.mem_cons.1 hd with rfl | hd
      · exact ⟨p, hwithin' p hp, hstart⟩
      · exact hall d hd

theorem mapM_found {α β : Type} {f : α → Option β} {P : α → β → Prop} {l : List α}
    (h : ∀ x ∈ l, ∃ y, f x = some y ∧ P x y) :
    ∃ ys, l.mapM f = some ys ∧ (∀ x ∈ l, ∃ y ∈ ys, P x y) ∧ ∀ y ∈ ys, ∃ x ∈ l, P x y := by
  induction l with
  | nil =>
    exact ⟨[], rfl, fun x hx => absurd hx List.not_mem_nil, fun y hy => absurd hy List.not_mem_nil⟩
  | cons a rest ih =>
    obtain ⟨b, hb, hab⟩ := h a List.mem_cons_self
    obtain ⟨ys, hys, hin, hout⟩ := ih (fun x hx => h x (List.mem_cons_of_mem a hx))
    refine ⟨b :: ys, ?_, ?_, ?_⟩
    · rw [List.mapM_cons, hb, hys]
      rfl
    · intro x hx
      rcases List.mem_cons.1 hx with rfl | hx
      · exact ⟨b, List.mem_cons_self, hab⟩
      · obtain ⟨y, hy, hxy⟩ := hin x hx
        exact ⟨y, List.mem_cons_of_mem b hy, hxy⟩
    · intro y hy
      rcases List.mem_cons.1 hy with rfl | hy
      · exact ⟨a, List.mem_cons_self, hab⟩
      · obtain ⟨x, hx, hxy⟩ := hout y hy
        exact ⟨x, List.mem_cons_of_mem a hx, hxy⟩

/-- What `pre_create_partitions` finds for one month: a listed name, or what it is to create. -/
def Found (existing : List String) (now : Month) (offset : Nat) (found : Option Monthly) : Prop :=
  ∃ start : Month, start.index = now.index + offset ∧
    match found with
    | none => partitionName start ∈ existing
    | some c => c.start = start ∧ c.name = partitionName c.start ∧ addMonths c.start 1 = some c.stop

theorem missing_found (existing : List String) {offset : Nat}
    (hhigh : now.index + offset + 1 ≤ 119999) :
    ∃ found, missing existing now offset = some found ∧ Found existing now offset found := by
  have hlow := now.bounds
  obtain ⟨start, hstart⟩ := addMonths_some now offset (by omega) (by omega)
  have hindex := addMonths_eq_some.1 hstart
  obtain ⟨stop, hstop⟩ := addMonths_some start 1 (by omega) (by omega)
  rw [missing, hstart, Option.bind_some]
  by_cases hin : partitionName start ∈ existing
  · rw [if_pos hin]
    exact ⟨none, rfl, start, by omega, hin⟩
  · rw [if_neg hin, describe, hstop]
    exact ⟨_, rfl, start, by omega, rfl, rfl, hstop⟩

theorem preCreate_aligned (h : Aligned t) (now : Month) (ahead : Int) (dryRun : Bool)
    (hlow : 12 ≤ now.index + ahead + 1) (hhigh : now.index + ahead + 1 ≤ 119999) :
    ∃ r t', preCreatePartitions now ahead dryRun t = some (r, t') ∧ Aligned t' ∧ t.Within t' ∧
      (dryRun = false → ∀ offset : Nat, (offset : Int) ≤ ahead →
        ∃ p ∈ t'.parts, p.start.index = now.index + offset) := by
  obtain ⟨listed, hlisted, hperm⟩ := h.listed
  obtain ⟨found, hfound, hall, hgood⟩ :=
    mapM_found (l := List.range (ahead + 1).toNat) (f := missing (listed.map Monthly.name) now)
      (P := Found (listed.map Monthly.name) now) (by
        intro offset hoffset
        have hlt := List.mem_range.1 hoffset
        exact missing_found _ (by omega))
  obtain ⟨horizon, hhorizon⟩ := addMonths_some now (ahead + 1) (by omega) (by omega)
  have hcreate : ∀ c ∈ found.reduceOption,
      c.name = partitionName c.start ∧ addMonths c.start 1 = some c.stop := by
    intro c hc
    obtain ⟨offset, -, start, -, -, hname, hstop⟩ := hgood (some c) (List.reduceOption_mem_iff.1 hc)
    exact ⟨hname, hstop⟩
  rw [preCreatePartitions, hlisted, Option.bind_some, hfound, Option.bind_some, hhorizon,
    Option.bind_some]
  cases dryRun with
  | true => exact ⟨_, t, rfl, h, fun p hp => hp, fun hdry => by cases hdry⟩
  | false =>
    obtain ⟨t', ht', halign, hwithin, hmade⟩ := createAll_aligned found.reduceOption h hcreate
    refine ⟨_, t', by rw [if_neg Bool.false_ne_true, ht']; rfl, halign, hwithin, ?_⟩
    intro _ offset hoffset
    obtain ⟨y, hy, start, hindex, hcase⟩ := hall offset (List.mem_range.2 (by omega))
    cases y with
    | none =>
      -- the month is listed: its partition is one of the old ones
      obtain ⟨m, hm, hname⟩ := List.mem_map.1 hcase
      obtain ⟨p, hp, rfl⟩ := List.mem_map.1 (hperm.mem_iff.1 hm)
      refine ⟨p, hwithin p hp, ?_⟩
      rw [← hindex]
      exact congrArg Month.index (partitionName_inj ((h.named p hp).symm.trans hname))
    | some c =>
      obtain ⟨p, hp, hstart⟩ := hmade c (List.reduceOption_mem_iff.2 hy)
      exact ⟨p, hp, by rw [hstart, hcase.1, hindex]⟩

theorem Aligned.filter (h : Aligned t) (keep : Partition → Bool) :
    Aligned { t with parts := t.parts.filter keep } where
  named := fun p hp => h.named p (List.mem_filter.1 hp).1
  monthly := fun p hp => h.monthly p (List.mem_filter.1 hp).1
  single := h.single.filter keep
  routed := fun p hp => h.routed p (List.mem_filter.1 hp).1
  empty := h.empty

/-- Only what ended before the retention window goes. -/
theorem dropOld_aligned (h : Aligned t) (now : Month) (retention : Nat) (dryRun : Bool)
    (hlow : 12 + retention ≤ now.index) :
    ∃ r t', dropOldPartitions now retention dryRun t = some (r, t') ∧ Aligned t' ∧
      ∀ p ∈ t.parts, now.index ≤ p.start.index + retention → p ∈ t'.parts := by
  have hnow := now.bounds
  obtain ⟨cutoff, hcutoff⟩ := addMonths_some now (-(retention : Int)) (by omega) (by omega)
  have hindex := addMonths_eq_some.1 hcutoff
  obtain ⟨listed, hlisted, hperm⟩ := h.listed
  rw [dropOldPartitions, hcutoff, Option.bind_some, hlisted, Option.bind_some]
  cases dryRun with
  | true => exact ⟨_, t, rfl, h, fun p hp _ => hp⟩
  | false =>
    refine ⟨_, _, rfl, h.filter _, ?_⟩
    intro p hp hkept
    apply List.mem_filter.2
    refine ⟨hp, decide_eq_true ?_⟩
    intro hname
    obtain ⟨m, hm, heq⟩ := List.mem_map.1 hname
    obtain ⟨hmem, hold⟩ := List.mem_filter.1 hm
    obtain ⟨q, hq, rfl⟩ := List.mem_map.1 (hperm.mem_iff.1 hmem)
    have hstart : q.start = p.start := by
      apply partitionName_inj
      rw [← h.named q hq, ← h.named p hp]
      exact heq
    have hstop := h.stop_index hq
    have hold : q.stop.index ≤ cutoff.index := of_decide_eq_true hold
    rw [hstart] at hstop
    omega

/-- A row whose month has a partition goes there, and nothing else changes. -/
theorem insertEvent_aligned (h : Aligned t) {p : Partition} (hp : p ∈ t.parts)
    (hstart : p.start = e.month) :
    Aligned (insertEvent e t) ∧
      (insertEvent e t).parts =
        t.parts.map (fun q => if q.start = e.month then { q with rows := q.rows ++ [e] } else q) := by
  have hcovers : t.parts.any (·.covers e.month) = true :=
    List.any_eq_true.2 ⟨p, hp, (h.covers_iff hp e.month).2 hstart⟩
  have hparts : (insertEvent e t).parts =
      t.parts.map (fun q => if q.start = e.month then { q with rows := q.rows ++ [e] } else q) := by
    rw [insertEvent, if_pos hcovers]
    apply List.map_congr_left
    intro q hq
    by_cases hqs : q.start = e.month
    · rw [if_pos hqs, if_pos ((h.covers_iff hq e.month).2 hqs)]
    · rw [if_neg hqs, if_neg (fun hc => hqs ((h.covers_iff hq e.month).1 hc))]
  have hdefault : (insertEvent e t).default = [] := by
    rw [insertEvent, if_pos hcovers]
    exact h.empty
  have hsame : ∀ q : Partition, ∀ u,
      (if q.start = e.month then { q with rows := q.rows ++ [e] } else q) = u →
      u.name = q.name ∧ u.start = q.start ∧ u.stop = q.stop := by
    rintro q u rfl
    split <;> exact ⟨rfl, rfl, rfl⟩
  refine ⟨⟨?_, ?_, ?_, ?_, hdefault⟩, hparts⟩
  · intro u hu
    rw [hparts] at hu
    obtain ⟨q, hq, heq⟩ := List.mem_map.1 hu
    obtain ⟨hn, hs, -⟩ := hsame q u heq
    rw [hn, hs]
    exact h.named q hq
  · intro u hu
    rw [hparts] at hu
    obtain ⟨q, hq, heq⟩ := List.mem_map.1 hu
    obtain ⟨-, hs, hst⟩ := hsame q u heq
    rw [hs, hst]
    exact h.monthly q hq
  · rw [hparts]
    apply List.pairwise_map.2
    apply h.single.imp
    intro q r hqr
    rwa [(hsame q _ rfl).2.1, (hsame r _ rfl).2.1]
  · intro u hu
    rw [hparts] at hu
    obtain ⟨q, hq, rfl⟩ := List.mem_map.1 hu
    split
    · next hqs =>
      intro d hd
      rcases List.mem_append.1 hd with hd | hd
      · exact h.routed q hq d hd
      · obtain rfl := List.mem_singleton.1 hd
        exact hqs.symm
    · exact h.routed q hq

end Tables

section Runs
variable {s : Database} {R left : Nat}

/-- The months that are surely created ahead, and the month it is. -/
structure Plan where
  left : Nat
  now : Nat

def Plan.next : Op → Plan → Plan
  | .record _, p | .dropOld .., p => p
  | .nextMonth, p => ⟨p.left - 1, p.now + 1⟩
  | .preCreate ahead dryRun, p => ⟨if dryRun then p.left else max p.left ahead.toNat, p.now⟩

/-- A month ends only when the next one has been created, what is dropped is older than the
retention, and dates stay within those of Python. -/
def Timely (retention : Nat) : Op → Plan → Prop
  | .record _, _ => True
  | .nextMonth, p => 0 < p.left
  | .preCreate ahead _, p => 12 ≤ p.now + ahead + 1 ∧ p.now + ahead + 1 ≤ 119999
  | .dropOld months _, p => 0 < months ∧ retention ≤ months ∧ 12 + months ≤ p.now

/-- In a run as it should be: nothing is lost or misplaced. -/
structure Maintained (retention : Nat) (p : Plan) (s : Database) : Prop where
  now_eq : s.now.index = p.now
  dates : p.now + p.left < 119999
  aligned : Aligned s.table
  ahead : ∀ offset ≤ p.left, ∃ q ∈ s.table.parts, q.start.index = s.now.index + offset
  kept : ∀ e ∈ s.recorded, s.now.index ≤ e.month.index + retention →
    ∃ q ∈ s.table.parts, q.start = e.month ∧ e ∈ q.rows

theorem Maintained.record {p : Plan} (h : Maintained R p s) (id : Nat) :
    Maintained R p { s with
      table := insertEvent ⟨id, s.now⟩ s.table, recorded := s.recorded ++ [⟨id, s.now⟩] } := by
  obtain ⟨q, hq, hindex⟩ := h.ahead 0 (Nat.zero_le _)
  have hstart : q.start = s.now := Month.index_inj hindex
  obtain ⟨halign, hparts⟩ := insertEvent_aligned (e := ⟨id, s.now⟩) h.aligned hq hstart
  have himage : ∀ r ∈ s.table.parts, ∃ u ∈ (insertEvent ⟨id, s.now⟩ s.table).parts,
      u.start = r.start ∧ (∀ e ∈ r.rows, e ∈ u.rows) ∧ (r.start = s.now → ⟨id, s.now⟩ ∈ u.rows) := by
    intro r hr
    rw [hparts]
    refine ⟨_, List.mem_map_of_mem hr, ?_⟩
    split
    · exact ⟨rfl, fun e he => List.mem_append_left _ he,
        fun _ => List.mem_append_right _ (List.mem_singleton_self _)⟩
    · next hne => exact ⟨rfl, fun e he => he, fun heq => absurd heq hne⟩
  refine ⟨h.now_eq, h.dates, halign, ?_, ?_⟩
  · intro offset hoffset
    obtain ⟨r, hr, hri⟩ := h.ahead offset hoffset
    obtain ⟨u, hu, hus, -⟩ := himage r hr
    exact ⟨u, hu, by rw [hus, hri]⟩
  · intro e he hkeep
    rcases List.mem_append.1 he with he | he
    · obtain ⟨r, hr, hrs, hmem⟩ := h.kept e he hkeep
      obtain ⟨u, hu, hus, hrows, -⟩ := himage r hr
      exact ⟨u, hu, hus.trans hrs, hrows e hmem⟩
    · obtain rfl := List.mem_singleton.1 he
      obtain ⟨u, hu, hus, -, hnew⟩ := himage q hq
      exact ⟨u, hu, hus.trans hstart, hnew hstart⟩

theorem Maintained.step {p : Plan} (h : Maintained R p s) (o : Op) (ho : Timely R o p) :
    ∃ s', step s o = some s' ∧ Maintained R (p.next o) s' := by
  have hnow := h.now_eq
  have hdates := h.dates
  have hbounds := s.now.bounds
  cases o with
  | record id => exact ⟨_, rfl, h.record id⟩
  | nextMonth =>
    have hleft : 0 < p.left := ho
    obtain ⟨next, hnext⟩ := addMonths_some s.now 1 (by omega) (by omega)
    have hindex := addMonths_eq_some.1 hnext
    refine ⟨{ s with now := next }, by rw [Partitions.step, hnext]; rfl, ?_, ?_, h.aligned, ?_, ?_⟩
    · change next.index = p.now + 1
      omega
    · change p.now + 1 + (p.left - 1) < 119999
      omega
    · intro offset hoffset
      change offset ≤ p.left - 1 at hoffset
      obtain ⟨q, hq, hqi⟩ := h.ahead (offset + 1) (by omega)
      refine ⟨q, hq, ?_⟩
      change q.start.index = next.index + offset
      omega
    · intro e he hkeep
      change next.index ≤ e.month.index + R at hkeep
      exact h.kept e he (by omega)
  | preCreate monthsAhead dryRun =>
    obtain ⟨hlow, hhigh⟩ := ho
    obtain ⟨r, t', ht', halign, hwithin, hmade⟩ :=
      preCreate_aligned h.aligned s.now monthsAhead dryRun (by omega) (by omega)
    refine ⟨{ s with table := t' }, by rw [Partitions.step, ht']; rfl, hnow, ?_, halign, ?_, ?_⟩
    · change p.now + (if dryRun then p.left else max p.left monthsAhead.toNat) < 119999
      split <;> omega
    · intro offset hoffset
      by_cases hold : offset ≤ p.left
      · obtain ⟨q, hq, hqi⟩ := h.ahead offset hold
        exact ⟨q, hwithin q hq, hqi⟩
      · cases dryRun with
        | true => exact absurd hoffset hold
        | false =>
          change offset ≤ max p.left monthsAhead.toNat at hoffset
          exact hmade rfl offset (by omega)
    · intro e he hkeep
      obtain ⟨q, hq, hqs, hmem⟩ := h.kept e he hkeep
      exact ⟨q, hwithin q hq, hqs, hmem⟩
  | dropOld months dryRun =>
    obtain ⟨hpos, hretention, hfirst⟩ := ho
    obtain ⟨r, t', ht', halign, hstay⟩ :=
      dropOld_aligned h.aligned s.now months dryRun (by omega)
    refine ⟨{ s with table := t' }, by rw [Partitions.step, ht']; rfl, hnow, hdates, halign, ?_, ?_⟩
    · intro offset hoffset
      obtain ⟨q, hq, hqi⟩ := h.ahead offset hoffset
      exact ⟨q, hstay q hq (by omega), hqi⟩
    · intro e he hkeep
      change s.now.index ≤ e.month.index + R at hkeep
      obtain ⟨q, hq, hqs, hmem⟩ := h.kept e he hkeep
      exact ⟨q, hstay q hq (by rw [hqs]; omega), hqs, hmem⟩

theorem Maintained.run {p : Plan} (h : Maintained R p s) (ops : List Op)
    (hops : Guarded Plan.next (Timely R) ops p) :
    ∃ s', ops.foldlM Partitions.step s = some s' ∧ Maintained R (runSteps Plan.next ops p) s' := by
  induction ops generalizing p s with
  | nil => exact ⟨s, rfl, h⟩
  | cons o rest ih =>
    obtain ⟨s₁, hs₁, h₁⟩ := h.step o hops.1
    obtain ⟨s', hs', h'⟩ := ih h₁ hops.2
    refine ⟨s', ?_, h'⟩
    rw [List.foldlM_cons, hs₁]
    exact hs'

theorem getLast_greatest {l : List Monthly}
    (h : l.Pairwise (fun a b => a.start.index ≤ b.start.index)) {m : Monthly} (hm : m ∈ l) :
    ∃ last, l.getLast? = some last ∧ last ∈ l ∧ m.start.index ≤ last.start.index := by
  rcases List.eq_nil_or_concat l with rfl | ⟨init, last, rfl⟩
  · exact absurd hm List.not_mem_nil
  · rw [List.concat_eq_append] at *
    refine ⟨last, List.getLast?_concat .., List.mem_append_right _ (List.mem_singleton_self _), ?_⟩
    rcases List.mem_append.1 hm with hm | hm
    · exact (List.pairwise_append.1 h).2.2 m hm last (List.mem_singleton_self _)
    · rw [List.mem_singleton.1 hm]

/-- The horizon that the retention objectives ask for. -/
theorem Maintained.horizon {p : Plan} (h : Maintained R p s) {monthsAhead : Nat}
    (hmonths : monthsAhead ≤ p.left + 1) : checkPartitionHorizon s monthsAhead = some true := by
  have hnow := h.now_eq
  have hdates := h.dates
  obtain ⟨q, hq, hqi⟩ := h.ahead p.left (Nat.le_refl _)
  obtain ⟨l, hl, hperm⟩ := h.aligned.listed
  obtain ⟨required, hrequired⟩ := addMonths_some s.now monthsAhead
    (by have := s.now.bounds; omega) (by omega)
  have hindex := addMonths_eq_some.1 hrequired
  have hsorted : l.Pairwise (fun a b => a.start.index ≤ b.start.index) := by
    obtain ⟨u, -, rfl⟩ := Option.map_eq_some_iff.1 hl
    exact List.pairwise_insertionSort (fun a b : Monthly => a.start.index ≤ b.start.index) u
  obtain ⟨last, hlast, hmem, hle⟩ := getLast_greatest hsorted
    (hperm.mem_iff.2 (List.mem_map_of_mem hq))
  obtain ⟨u, hu, rfl⟩ := List.mem_map.1 (hperm.mem_iff.1 hmem)
  have hstop := h.aligned.stop_index hu
  have hle : q.start.index ≤ u.start.index := hle
  rw [checkPartitionHorizon, newestPartitionHorizon, hl, Option.map_some, Option.bind_some,
    hrequired, hlast]
  exact congrArg some (decide_eq_true (by change required.index ≤ u.stop.index; omega))

/-- A partition as the migration spells it. -/
def spelled (name : String) (year month year' month' : Int) : Option Partition :=
  (date year month).bind fun start => (date year' month').map fun stop => ⟨name, start, stop, []⟩

/-- `020_experience_events.sql`: twelve months from May 2026 on. -/
def migrated : Table where
  parts := List.reduceOption [
    spelled "experience_events_y2026m05" 2026 5 2026 6,
    spelled "experience_events_y2026m06" 2026 6 2026 7,
    spelled "experience_events_y2026m07" 2026 7 2026 8,
    spelled "experience_events_y2026m08" 2026 8 2026 9,
    spelled "experience_events_y2026m09" 2026 9 2026 10,
    spelled "experience_events_y2026m10" 2026 10 2026 11,
    spelled "experience_events_y2026m11" 2026 11 2026 12,
    spelled "experience_events_y2026m12" 2026 12 2027 1,
    spelled "experience_events_y2027m01" 2027 1 2027 2,
    spelled "experience_events_y2027m02" 2027 2 2027 3,
    spelled "experience_events_y2027m03" 2027 3 2027 4,
    spelled "experience_events_y2027m04" 2027 4 2027 5]

theorem migrated_aligned : Aligned migrated where
  named := by decide
  monthly := by decide
  single := by decide
  routed := by decide
  empty := rfl

/-- The months of `migrated`, by their index. -/
theorem migrated_months (i : Nat) (hlow : 24316 ≤ i) (hhigh : i ≤ 24327) :
    ∃ p ∈ migrated.parts, p.start.index = i := by
  have hall : migrated.parts.map (fun p => p.start.index) = (List.range 12).map (24316 + ·) := by
    decide
  have hmem : i ∈ migrated.parts.map (fun p => p.start.index) := by
    rw [hall]
    exact List.mem_map.2 ⟨i - 24316, List.mem_range.2 (by omega), by omega⟩
  exact List.mem_map.1 hmem

def june : Month := ⟨2026, 6, by decide, by decide, by decide, by decide⟩

end Runs

end TappsBrain.Partitions
