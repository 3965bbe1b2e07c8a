import Mathlib.Analysis.SpecialFunctions.Log.Base
import TappsBrain.Lib.PyNumber
import TappsBrain.Lib.Ranking
import TappsBrain.Lib.Table
import TappsBrain.Text

namespace TappsBrain
open Lib
set_option autoImplicit true
set_option relaxedAutoImplicit false

namespace Evaluation

/-- A value as `yaml.safe_load` hands it over. -/
inductive YamlValue where
  | null
  | bool (b : Bool)
  | num (n : PyNumber)
  | text (s : String)
  | seq (items : List YamlValue)
  | map (members : List (YamlValue × YamlValue))
  | other (tag : String) (truthy : Bool)

def YamlValue.truthy : YamlValue → Bool
  | .null => false
  | .bool b => b
  | .num n => n.truthy
  | .text s => s ≠ ""
  | .seq items => !items.isEmpty
  | .map members => !members.isEmpty
  | .other _ t => t

/-- `data.get(name)`. -/
def member (data : List (YamlValue × YamlValue)) (name : String) : Option YamlValue :=
  (data.find? (fun p => match p.1 with
    | .text s => s == name
    | _ => false)).map Prod.snd

/-- Python's reading of numbers in texts, `str()` of what is no text, and pydantic's check of a
`str` field given something else. -/
structure Reader where
  floatOf : String → Option PyNumber
  intOf : String → Option Int
  strOf : YamlValue → String
  coerced : YamlValue → Option String

inductive LoadError where
  | valueError (message : String)
  | attributeError
  | castError
  | validationError
deriving DecidableEq, Repr

section Loaders
variable (r : Reader)

/-- `int(x)` of a number; infinities and NaN raise. -/
def intOfNumber : PyNumber → Option Int
  | .int n => some n
  | .float x => some (x.num.tdiv x.den)
  | _ => none

/-- `int(g)`. -/
def Reader.int : YamlValue → Option Int
  | .bool b => some (if b then 1 else 0)
  | .num n => intOfNumber n
  | .text s => r.intOf s
  | _ => none

/-- `str(y)`. -/
def Reader.str : YamlValue → String
  | .text s => s
  | y => r.strOf y

def Reader.field : YamlValue → Except LoadError String
  | .text s => .ok s
  | y => match r.coerced y with
    | some s => .ok s
    | none => .error .validationError

structure EvalDoc where
  id : String
  title : String := ""
  text : String := ""
deriving DecidableEq, Repr

structure EvalQuery where
  id : String
  text : String := ""
deriving DecidableEq, Repr

/-- The field `id` under its alias `_id` or its own name. -/
def Reader.idField (v : List (YamlValue × YamlValue)) : Except LoadError String :=
  match (member v "_id").orElse (fun _ => member v "id") with
  | some y => r.field y
  | none => .error .validationError

def Reader.textField (v : List (YamlValue × YamlValue)) (name : String) : Except LoadError String :=
  match member v name with
  | some y => r.field y
  | none => .ok ""

/-- `EvalDoc.model_validate`. -/
def Reader.evalDoc : YamlValue → Except LoadError EvalDoc
  | .map v => do
    let id ← r.idField v
    let title ← r.textField v "title"
    let text ← r.textField v "text"
    pure { id, title, text }
  | _ => .error .validationError

/-- `EvalQuery.model_validate`. -/
def Reader.evalQuery : YamlValue → Except LoadError EvalQuery
  | .map v => do
    let id ← r.idField v
    let text ← r.textField v "text"
    pure { id, text }
  | _ => .error .validationError

/-- The grades of one query by document. -/
abbrev Grades := Table (Prod.fst : String × Int → String)

abbrev EvalQrels := Table (Prod.fst : String × Grades → String)

def EvalQrels.gradesOf (q : EvalQrels) (qid : String) : Grades :=
  ((q.get? qid).map Prod.snd).getD .empty

structure EvalSuite where
  name : String := "unnamed"
  corpus : Table (Prod.fst : String × EvalDoc → String) := .empty
  queries : Table (Prod.fst : String × EvalQuery → String) := .empty
  qrels : EvalQrels := .empty

/-- The `(query, document, grade)` columns of a line, if it has them. -/
def tsvColumns (line : String) : Option (String × String × String) :=
  let stripped := strip line
  if stripped = "" ∨ stripped.startsWith "#" then none
  else
    let tabbed := (stripped.toList.splitOn '\t').map String.ofList
    match if tabbed.length < 3 then split stripped else tabbed with
    | qid :: did :: score :: _ => some (qid, did, score)
    | _ => none

/-- `max(0, min(3, int(float(score))))`. -/
def Reader.tsvGrade (score : String) : Except LoadError Int :=
  match (r.floatOf score).bind intOfNumber with
  | some grade => .ok (max 0 (min 3 grade))
  | none => .error .castError

def Reader.tsvLine (qrels : EvalQrels) (line : String) : Except LoadError EvalQrels :=
  match tsvColumns line with
  | none => .ok qrels
  | some (qid, did, score) => do
    let grade ← r.tsvGrade score
    pure (qrels.set (qid, (qrels.gradesOf qid).set (did, grade)))

/-- `EvalQrels.load_tsv` over the lines of the file. -/
def loadTsv (lines : List String) : Except LoadError EvalQrels := lines.foldlM r.tsvLine .empty

/-- `(data.get(name) or {}).items()`. -/
def items (data : List (YamlValue × YamlValue)) (name : String) :
    Except LoadError (List (YamlValue × YamlValue)) :=
  match member data name with
  | none => .ok []
  | some v =>
    if v.truthy = false then .ok []
    else match v with
      | .map members => .ok members
      | _ => .error .attributeError

def Reader.gradesOf (m : List (YamlValue × YamlValue)) : Except LoadError Grades :=
  m.foldlM (fun grades (d, g) => match r.int g with
    | some grade => .ok (grades.set (r.str d, grade))
    | none => .error .castError) .empty

def Reader.qrelsOf (raw : List (YamlValue × YamlValue)) : Except LoadError EvalQrels :=
  raw.foldlM (fun qrels (qid, m) => match m with
    | .map m => do
      let grades ← r.gradesOf m
      pure (qrels.set (r.str qid, grades))
    | _ => pure qrels) .empty

def Reader.docsOf (raw : List (YamlValue × YamlValue)) :
    Except LoadError (Table (Prod.fst : String × EvalDoc → String)) :=
  raw.foldlM (fun docs (k, v) => do
    let doc ← r.evalDoc v
    let key ← r.field k
    pure (docs.set (key, doc))) .empty

def Reader.queriesOf (raw : List (YamlValue × YamlValue)) :
    Except LoadError (Table (Prod.fst : String × EvalQuery → String)) :=
  raw.foldlM (fun queries (k, v) => do
    let query ← r.evalQuery v
    let key ← r.field k
    pure (queries.set (key, query))) .empty

/-- `EvalSuite.from_yaml_dict`. -/
def fromYamlDict (data : List (YamlValue × YamlValue)) : Except LoadError EvalSuite := do
  let name := ((member data "name").map r.str).getD "unnamed"
  let corpus ← (items data "corpus").bind r.docsOf
  let queries ← (items data "queries").bind r.queriesOf
  let qrels ← (items data "qrels").bind r.qrelsOf
  pure { name, corpus, queries, qrels }

/-- `EvalSuite.load_yaml` after `yaml.safe_load`. -/
def loadYaml : YamlValue → Except LoadError EvalSuite
  | .map data => fromYamlDict r data
  | _ => .error (.valueError "YAML suite root must be a mapping")

end Loaders

section Metrics
variable {K : Type} [Field K] [LinearOrder K]

/-- `qrels.get(d, 0)`. -/
def Grades.grade (q : Grades) (d : String) : Int := ((q.get? d).map Prod.snd).getD 0

def Grades.gains (q : Grades) (ranked : List String) : List K :=
  ranked.map (fun d => (q.grade d : K))

/-- `sorted((float(g) for g in qrels.values()), reverse=True)`. -/
def Grades.idealGains (q : Grades) : List K :=
  (q.values.map (fun p => (p.2 : K))).insertionSort (· ≥ ·)

def dcgAtK (D : Discounts K) (ranked : List String) (q : Grades) (k : Int) : K :=
  if k ≤ 0 then 0 else discountedSum D 0 (q.gains (ranked.take k.toNat))

def idealDcgAtK (D : Discounts K) (q : Grades) (k : Int) : K :=
  if k ≤ 0 then 0 else discountedSum D 0 (q.idealGains.take k.toNat)

def ndcgAtK (D : Discounts K) (ranked : List String) (q : Grades) (k : Int) : K :=
  let idcg := idealDcgAtK D q k
  if idcg ≤ 0 then 0 else dcgAtK D ranked q k / idcg

end Metrics

section Loaded
variable {r : Reader} {q : Grades} {qrels : EvalQrels}

def Grades.NoneRelevant (q : Grades) : Prop := ∀ p ∈ q.values, p.2 ≤ 0

def Grades.NoneNegative (q : Grades) : Prop := ∀ p ∈ q.values, 0 ≤ p.2

theorem noneNegative_empty : Grades.NoneNegative .empty := nofun

theorem noneNegative_set {p : String × Int} (h : q.NoneNegative) (hp : 0 ≤ p.2) :
    Grades.NoneNegative (q.set p) := by
  intro x hx
  rcases Table.mem_set hx with rfl | hx
  · exact hp
  · exact h x hx

theorem noneNegative_gradesOf (h : ∀ p ∈ qrels.values, p.2.NoneNegative) (qid : String) :
    (qrels.gradesOf qid).NoneNegative := by
  rw [EvalQrels.gradesOf]
  cases hget : qrels.get? qid with
  | none => exact noneNegative_empty
  | some p => exact h p (Table.mem_of_get? hget)

theorem tsvLine_noneNegative {line : String} {t : EvalQrels}
    (h : ∀ p ∈ qrels.values, p.2.NoneNegative) (hline : r.tsvLine qrels line = .ok t) :
    ∀ p ∈ t.values, p.2.NoneNegative := by
  rw [Reader.tsvLine] at hline
  cases hcols : tsvColumns line with
  | none =>
    rw [hcols] at hline
    cases hline
    exact h
  | some cols =>
    obtain ⟨qid, did, score⟩ := cols
    simp only [hcols] at hline
    cases hgrade : r.tsvGrade score with
    | error e =>
      rw [hgrade] at hline
      cases hline
    | ok grade =>
      rw [hgrade] at hline
      cases hline
      have hnonneg : 0 ≤ grade := by
        rw [Reader.tsvGrade] at hgrade
        split at hgrade
        · cases hgrade
          exact le_max_left _ _
        · cases hgrade
      intro p hp
      rcases Table.mem_set hp with rfl | hp
      · exact noneNegative_set (noneNegative_gradesOf h qid) hnonneg
      · exact h p hp

/-- The clamp keeps every grade of a file on the scale. -/
theorem loadTsv_noneNegative {lines : List String} (h : loadTsv r lines = .ok qrels) :
    ∀ p ∈ qrels.values, p.2.NoneNegative := by
  have hrun : ∀ (lines : List String) (s : EvalQrels), (∀ p ∈ s.values, p.2.NoneNegative) →
      lines.foldlM r.tsvLine s = .ok qrels → ∀ p ∈ qrels.values, p.2.NoneNegative := by
    intro lines
    induction lines with
    | nil =>
      intro s hs hok
      cases hok
      exact hs
    | cons line rest ih =>
      intro s hs hok
      rw [List.foldlM_cons] at hok
      cases hline : r.tsvLine s line with
      | error e =>
        rw [hline] at hok
        cases hok
      | ok t =>
        rw [hline] at hok
        exact ih t (tsvLine_noneNegative hs hline) hok
  exact hrun lines .empty nofun h

end Loaded

section Gains
variable {K : Type} [Field K] {q : Grades} {ranked : List String}

theorem grade_of_mem {p : String × Int} (h : p ∈ q.values) : q.grade p.1 = p.2 := by
  rw [Grades.grade, Table.get?_of_mem h]
  rfl

theorem grade_nonneg (h : q.NoneNegative) (d : String) : 0 ≤ q.grade d := by
  rw [Grades.grade]
  cases hget : q.get? d with
  | none => exact le_rfl
  | some p => exact h p (Table.mem_of_get? hget)

theorem grade_unjudged {d : String} (h : d ∉ q.values.map Prod.fst) : q.grade d = 0 := by
  rw [Grades.grade]
  cases hget : q.get? d with
  | none => rfl
  | some p =>
    apply absurd _ h
    rw [← Table.key_of_get? hget]
    exact List.mem_map_of_mem (Table.mem_of_get? hget)

theorem gains_take (n : Nat) : (q.gains (ranked.take n) : List K) = (q.gains ranked).take n :=
  List.map_take

theorem judgedGains (q : Grades) :
    (q.gains (q.values.map Prod.fst) : List K) = q.values.map (fun p => (p.2 : K)) := by
  rw [Grades.gains, List.map_map]
  apply List.map_congr_left
  intro p hp
  rw [Function.comp_apply, grade_of_mem hp]

/-- Unjudged documents gain nothing. -/
theorem sum_gains_judged (ranked : List String) :
    (q.gains (ranked.filter (fun d => d ∈ q.values.map Prod.fst)) : List K).sum =
      (q.gains ranked).sum := by
  induction ranked with
  | nil => rfl
  | cons d rest ih =>
    rw [Grades.gains, Grades.gains] at ih ⊢
    by_cases hd : d ∈ q.values.map Prod.fst
    · rw [List.filter_cons, if_pos (decide_eq_true hd), List.map_cons, List.map_cons, List.sum_cons,
        List.sum_cons, ih]
    · rw [List.filter_cons, if_neg (by rwa [decide_eq_true_eq]), List.map_cons, List.sum_cons, ih,
        grade_unjudged hd, Int.cast_zero, zero_add]

end Gains

section Normalised
variable {K : Type} [Field K] [LinearOrder K] {D : Discounts K} {q : Grades}
  {ranked : List String} {k : Int}

/-- The first `k` grades, missing ones as 0, are those of a ranking by falling grade. -/
def Grades.IdealOrder (K : Type) [Field K] [LinearOrder K] (q : Grades) (ranked : List String)
    (k : Int) : Prop :=
  ∀ i : Nat, (i : Int) < k → gainAt (q.gains ranked : List K) i = gainAt q.idealGains i

/-- NDCG at a cut-off as a measure of rankings without repetition. -/
structure NdcgNormalised (D : Discounts K) (q : Grades) (k : Int) : Prop where
  nonneg : ∀ ranked : List String, ranked.Nodup → 0 ≤ ndcgAtK D ranked q k
  le_one : ∀ ranked : List String, ranked.Nodup → ndcgAtK D ranked q k ≤ 1
  perfect : ¬ q.NoneRelevant → ∀ ranked : List String, ranked.Nodup →
    (ndcgAtK D ranked q k = 1 ↔ q.IdealOrder K ranked k)
  swap : ∀ (before between after : List String) (x y : String),
    (before ++ x :: (between ++ y :: after)).Nodup → q.grade x ≤ q.grade y →
      ndcgAtK D (before ++ x :: (between ++ y :: after)) q k ≤
        ndcgAtK D (before ++ y :: (between ++ x :: after)) q k

theorem dcgAtK_pos (hk : 0 < k) :
    dcgAtK D ranked q k = discountedSum D 0 ((q.gains ranked).take k.toNat) := by
  rw [dcgAtK, if_neg (not_le.2 hk), gains_take]

theorem idealDcgAtK_pos (hk : 0 < k) :
    idealDcgAtK D q k = discountedSum D 0 (q.idealGains.take k.toNat) := by
  rw [idealDcgAtK, if_neg (not_le.2 hk)]

theorem idealGains_sorted (q : Grades) : (q.idealGains : List K).Pairwise (· ≥ ·) :=
  List.pairwise_insertionSort _ _

theorem mem_idealGains {g : K} : g ∈ (q.idealGains : List K) ↔ ∃ p ∈ q.values, (p.2 : K) = g := by
  rw [Grades.idealGains, (List.perm_insertionSort _ _).mem_iff, List.mem_map]

variable [IsStrictOrderedRing K]

/-- No ranking gathers more in its first places than the ideal one. -/
theorem sum_take_gains_le (hq : q.NoneNegative) (hnodup : ranked.Nodup) (j : Nat) :
    ((q.gains ranked : List K).take j).sum ≤ (q.idealGains.take j).sum := by
  rw [← gains_take, ← sum_gains_judged]
  have hshort : ((ranked.take j).filter (fun d => d ∈ q.values.map Prod.fst)).length ≤ j :=
    (List.length_filter_le _ _).trans (List.length_take_le _ _)
  have hkeys : ((ranked.take j).filter (fun d => d ∈ q.values.map Prod.fst)).Subperm
      (q.values.map Prod.fst) := by
    apply List.subperm_of_subset ((hnodup.sublist (List.take_sublist _ _)).filter _)
    intro d hd
    exact of_decide_eq_true (List.mem_filter.1 hd).2
  have hgains : (q.gains ((ranked.take j).filter (fun d => d ∈ q.values.map Prod.fst))).Subperm
      (q.gains (q.values.map Prod.fst) : List K) := by
    obtain ⟨l, hperm, hsub⟩ := hkeys
    exact ⟨q.gains l, hperm.map _, hsub.map _⟩
  have hideal : (q.gains (q.values.map Prod.fst)).Subperm (q.idealGains : List K) := by
    rw [judgedGains]
    exact (List.perm_insertionSort _ _).symm.subperm
  apply sum_le_sum_take (idealGains_sorted q) _ (hgains.trans hideal)
  · rw [Grades.gains, List.length_map]
    exact hshort
  · intro g hg
    obtain ⟨p, hp, rfl⟩ := mem_idealGains.1 hg
    exact Int.cast_nonneg (hq p hp)

theorem idealGains_nonneg (hq : q.NoneNegative) : ∀ g ∈ (q.idealGains : List K), 0 ≤ g := by
  intro g hg
  obtain ⟨p, hp, rfl⟩ := mem_idealGains.1 hg
  exact Int.cast_nonneg (hq p hp)

theorem idealDcgAtK_nonpos (h : q.NoneRelevant) : idealDcgAtK D q k ≤ 0 := by
  rw [idealDcgAtK]
  split
  · exact le_rfl
  · apply discountedSum_nonpos
    intro g hg
    obtain ⟨p, hp, rfl⟩ := mem_idealGains.1 (List.mem_of_mem_take hg)
    exact Int.cast_nonpos.2 (h p hp)

theorem ndcgAtK_none (h : q.NoneRelevant) : ndcgAtK D ranked q k = 0 :=
  if_pos (idealDcgAtK_nonpos h)

/-- A positive grade stands first in the ideal ranking. -/
theorem idealDcgAtK_relevant (hk : 0 < k) (hq : q.NoneNegative) (h : ¬ q.NoneRelevant) :
    0 < idealDcgAtK D q k := by
  simp only [Grades.NoneRelevant, not_forall, not_le] at h
  obtain ⟨p, hp, hpos⟩ := h
  have hmem : (p.2 : K) ∈ (q.idealGains : List K) := mem_idealGains.2 ⟨p, hp, rfl⟩
  have hsorted := idealGains_sorted (K := K) q
  have hnonneg := idealGains_nonneg (K := K) hq
  obtain ⟨n, hn⟩ := Nat.exists_eq_succ_of_ne_zero (show k.toNat ≠ 0 by omega)
  rw [idealDcgAtK_pos hk, hn]
  cases hideal : (q.idealGains : List K) with
  | nil =>
    rw [hideal] at hmem
    cases hmem
  | cons g rest =>
    rw [hideal] at hmem hsorted hnonneg
    have hfirst : 0 < g := by
      apply lt_of_lt_of_le (Int.cast_pos.2 hpos)
      rcases List.mem_cons.1 hmem with heq | hmem
      · exact heq.le
      · exact (List.pairwise_cons.1 hsorted).1 _ hmem
    rw [List.take_succ_cons, discountedSum]
    apply add_pos_of_pos_of_nonneg (mul_pos hfirst (D.pos 0))
    apply discountedSum_nonneg
    intro x hx
    exact hnonneg x (List.mem_cons_of_mem _ (List.mem_of_mem_take hx))

theorem ndcgNormalised_none (h : q.NoneRelevant) : NdcgNormalised D q k where
  nonneg := fun _ _ => (ndcgAtK_none h).ge
  le_one := fun _ _ => (ndcgAtK_none h).trans_le zero_le_one
  perfect := fun hrel => absurd h hrel
  swap := fun _ _ _ _ _ _ _ => (ndcgAtK_none h).trans_le (ndcgAtK_none h).ge

theorem dcgAtK_swap_le (hk : 0 < k) {x y : String} (hxy : q.grade x ≤ q.grade y)
    (before between after : List String) :
    dcgAtK D (before ++ x :: (between ++ y :: after)) q k ≤
      dcgAtK D (before ++ y :: (between ++ x :: after)) q k := by
  rw [dcgAtK_pos hk, dcgAtK_pos hk]
  apply discountedSum_le
  intro j _
  simp only [Grades.gains, List.map_append, List.map_cons]
  exact sum_take_swap_le (Int.cast_le.2 hxy) _ _ _ j

theorem ndcgNormalised_graded (hk : 0 < k) (hq : q.NoneNegative) : NdcgNormalised D q k := by
  by_cases hnone : q.NoneRelevant
  · exact ndcgNormalised_none hnone
  · have hideal := idealDcgAtK_relevant (D := D) hk hq hnone
    have hndcg : ∀ ranked, ndcgAtK D ranked q k = dcgAtK D ranked q k / idealDcgAtK D q k :=
      fun _ => if_neg (not_le.2 hideal)
    have hle : ∀ {ranked : List String}, ranked.Nodup → ∀ j ≤ k.toNat,
        ((q.gains ranked : List K).take j).sum ≤ (q.idealGains.take j).sum :=
      fun hnodup j _ => sum_take_gains_le hq hnodup j
    constructor
    · intro ranked _
      rw [hndcg, dcgAtK_pos hk]
      apply div_nonneg _ hideal.le
      apply discountedSum_nonneg
      intro g hg
      obtain ⟨d, -, rfl⟩ := List.mem_map.1 (List.mem_of_mem_take hg)
      exact Int.cast_nonneg (grade_nonneg hq d)
    · intro ranked hnodup
      rw [hndcg, div_le_one hideal, dcgAtK_pos hk, idealDcgAtK_pos hk]
      exact discountedSum_le (hle hnodup)
    · intro _ ranked hnodup
      rw [hndcg, div_eq_one_iff_eq hideal.ne', dcgAtK_pos hk, idealDcgAtK_pos hk,
        discountedSum_eq_iff (hle hnodup), Grades.IdealOrder]
      apply forall_congr'
      intro i
      rw [Int.lt_toNat]
    · intro before between after x y _ hxy
      rw [hndcg, hndcg]
      exact div_le_div_of_nonneg_right (dcgAtK_swap_le hk hxy before between after) hideal.le

/-- The judged documents by falling grade. -/
def Grades.best (q : Grades) : List String :=
  (q.values.insertionSort (fun a b => b.2 ≤ a.2)).map Prod.fst

theorem best_nodup (q : Grades) : q.best.Nodup :=
  ((List.perm_insertionSort _ _).map Prod.fst).nodup_iff.2 q.nodup

theorem gains_best (q : Grades) : (q.gains q.best : List K) = q.idealGains := by
  have hperm : (q.gains q.best : List K).Perm q.idealGains := by
    have hkeys : q.best.Perm (q.values.map Prod.fst) := (List.perm_insertionSort _ _).map Prod.fst
    have hgains := hkeys.map (fun d => (q.grade d : K))
    rw [← Grades.gains, ← Grades.gains, judgedGains] at hgains
    exact hgains.trans (List.perm_insertionSort _ _).symm
  have hsorted : (q.gains q.best : List K).Pairwise (· ≥ ·) := by
    rw [Grades.gains, Grades.best, List.map_map, List.pairwise_map]
    have hfalling := List.pairwise_insertionSort (fun a b : String × Int => b.2 ≤ a.2) q.values
    apply hfalling.imp_of_mem
    intro a b ha hb hab
    rw [Function.comp_apply, Function.comp_apply, grade_of_mem ((List.mem_insertionSort _).1 ha),
      grade_of_mem ((List.mem_insertionSort _).1 hb)]
    exact Int.cast_le.2 hab
  exact hperm.eq_of_pairwise (fun a b _ _ hab hba => le_antisymm hba hab) hsorted (idealGains_sorted q)

theorem positive_of_normalised (h : NdcgNormalised D q k) (hrel : ¬ q.NoneRelevant) : 0 < k := by
  by_contra hk
  have hone := (h.perfect hrel [] List.nodup_nil).2 (fun i hi => absurd hi (by omega))
  have hideal : idealDcgAtK D q k = 0 := if_pos (not_lt.1 hk)
  rw [ndcgAtK, hideal, if_pos le_rfl] at hone
  exact zero_ne_one hone

theorem noneNegative_of_normalised (h : NdcgNormalised D q k) (hrel : ¬ q.NoneRelevant) :
    q.NoneNegative := by
  have hk := positive_of_normalised h hrel
  intro p hp
  by_contra hneg
  by_cases hideal : idealDcgAtK D q k ≤ 0
  · have hone := (h.perfect hrel q.best (best_nodup q)).2 (fun i _ => by rw [gains_best])
    rw [ndcgAtK, if_pos hideal] at hone
    exact zero_ne_one hone
  · obtain ⟨n, hn⟩ := Nat.exists_eq_succ_of_ne_zero (show k.toNat ≠ 0 by omega)
    have hnonneg := h.nonneg [p.1] (List.nodup_singleton _)
    have hdcg : dcgAtK D [p.1] q k = (p.2 : K) * D.weight 0 := by
      rw [dcgAtK_pos hk, hn, Grades.gains, List.map_singleton, grade_of_mem hp, List.take_succ_cons,
        List.take_nil, discountedSum, discountedSum, add_zero]
    rw [ndcgAtK, if_neg hideal, hdcg] at hnonneg
    have hbelow : (p.2 : K) * D.weight 0 < 0 :=
      mul_neg_of_neg_of_pos (Int.cast_lt_zero.2 (not_le.1 hneg)) (D.pos 0)
    exact absurd hnonneg (not_le.2 (div_neg_of_neg_of_pos hbelow (not_le.1 hideal)))

/-- NDCG is normalised exactly where nothing is relevant, or there is a cut-off and no document is
graded below 0. -/
theorem ndcgNormalised_iff :
    NdcgNormalised D q k ↔ q.NoneRelevant ∨ (0 < k ∧ q.NoneNegative) := by
  constructor
  · intro h
    by_cases hrel : q.NoneRelevant
    · exact .inl hrel
    · exact .inr ⟨positive_of_normalised h hrel, noneNegative_of_normalised h hrel⟩
  · rintro (h | ⟨hk, h⟩)
    · exact ndcgNormalised_none h
    · exact ndcgNormalised_graded hk h

end Normalised

/-- `1 / log2(i + 2)`. -/
noncomputable def log2Discounts : Discounts ℝ where
  weight i := 1 / Real.logb (2 : ℕ) (i + 2 : ℕ)
  pos i := by
    push_cast
    apply one_div_pos.2
    apply Real.logb_pos one_lt_two
    have hi : (0 : ℝ) ≤ i := Nat.cast_nonneg i
    linarith
  decreasing := by
    intro i j hij
    have hi : (0 : ℝ) ≤ i := Nat.cast_nonneg i
    have hij' : (i : ℝ) < j := Nat.cast_lt.2 hij
    push_cast
    apply one_div_lt_one_div_of_lt
    · apply Real.logb_pos one_lt_two
      linarith
    · apply Real.logb_lt_logb one_lt_two <;> linarith

/-- A reader of decimal numerals. -/
def decimalReader : Reader where
  floatOf s := match PyNumber.read FloatText.fractions s.toList with
    | some (.int n) => some (.float n)
    | x => x
  intOf s := PyNumber.readInt s.toList
  strOf
    | .num n => String.ofList (PyNumber.write FloatText.fractions n)
    | _ => ""
  coerced _ := none

/-- What the loaders let in is measured by a normalised NDCG exactly where nothing judged is
relevant, or there is a cut-off and, in a YAML suite, no grade of the query is negative. -/
theorem loaded_ndcg_normalised (r : Reader) (D : Discounts ℝ) (qid : String) (k : Int) :
    (∀ lines qrels, loadTsv r lines = .ok qrels →
      (NdcgNormalised D (qrels.gradesOf qid) k ↔
        (qrels.gradesOf qid).NoneRelevant ∨ 0 < k)) ∧
    ∀ data suite, loadYaml r data = .ok suite →
      (NdcgNormalised D (suite.qrels.gradesOf qid) k ↔
        (suite.qrels.gradesOf qid).NoneRelevant ∨
          (0 < k ∧ (suite.qrels.gradesOf qid).NoneNegative)) := by
  constructor
  · intro lines qrels h
    have hgraded := noneNegative_gradesOf (loadTsv_noneNegative h) qid
    rw [ndcgNormalised_iff, and_iff_left hgraded]
  · intro data suite _
    exact ndcgNormalised_iff

def signedYaml : YamlValue :=
  .map [(.text "qrels", .map [(.text "q", .map [(.text "a", .num (.int 1)),
    (.text "b", .num (.int (-1)))])])]

def signedTsv : List String := ["# query\tdocument\tgrade", "q\ta\t1", "q\tb\t-1"]

def signedGrades : Grades := (Table.empty.set ("a", 1)).set ("b", -1)

theorem signed_suite : ∃ qrels suite, loadTsv decimalReader signedTsv = .ok qrels ∧
    loadYaml decimalReader signedYaml = .ok suite ∧
    NdcgNormalised log2Discounts (qrels.gradesOf "q") 2 ∧
    ¬ NdcgNormalised log2Discounts (suite.qrels.gradesOf "q") 2 := by
  have htsv : (loadTsv decimalReader signedTsv).isOk = true := by decide +kernel
  have hyaml : (loadYaml decimalReader signedYaml).map (fun s => (s.qrels.gradesOf "q").values) =
      .ok [("a", 1), ("b", -1)] := by decide +kernel
  cases hq : loadTsv decimalReader signedTsv with
  | error e =>
    rw [hq] at htsv
    cases htsv
  | ok qrels =>
    cases hs : loadYaml decimalReader signedYaml with
    | error e =>
      rw [hs] at hyaml
      cases hyaml
    | ok suite =>
      obtain ⟨hloadTsv, hloadYaml⟩ := loaded_ndcg_normalised decimalReader log2Discounts "q" 2
      refine ⟨qrels, suite, rfl, rfl, (hloadTsv _ _ hq).2 (.inr (by decide)), ?_⟩
      rw [hloadYaml _ _ hs, Grades.NoneRelevant, Grades.NoneNegative]
      rw [hs] at hyaml
      have hvalues : (suite.qrels.gradesOf "q").values = [("a", 1), ("b", -1)] :=
        Except.ok.inj hyaml
      rw [hvalues]
      decide

theorem signed_ndcg_exceeds_one :
    (loadYaml decimalReader signedYaml).map (fun s => (s.qrels.gradesOf "q").values) =
      .ok signedGrades.values ∧ ["a"].Nodup ∧ ["b"].Nodup ∧
    1 < ndcgAtK log2Discounts ["a"] signedGrades 2 ∧
    ndcgAtK log2Discounts ["b"] signedGrades 2 < 0 := by
  have hideal : (signedGrades.idealGains : List ℝ) = [1, -1] := by
    have hvalues : signedGrades.values = [("a", 1), ("b", -1)] := rfl
    rw [Grades.idealGains, hvalues]
    simp only [List.map_cons, List.map_nil, List.insertionSort_cons, List.insertionSort_nil,
      List.orderedInsert, Int.cast_one, Int.cast_neg]
    norm_num
  have htwo : (2 : Int).toNat = 2 := rfl
  have hpos := log2Discounts.pos 1
  have hlt : log2Discounts.weight 1 < log2Discounts.weight 0 := log2Discounts.decreasing one_pos
  have hidcg : idealDcgAtK log2Discounts signedGrades 2 =
      log2Discounts.weight 0 - log2Discounts.weight 1 := by
    rw [idealDcgAtK_pos two_pos, hideal]
    simp only [htwo, List.take_succ_cons, List.take_zero, discountedSum]
    ring
  have hgap : 0 < log2Discounts.weight 0 - log2Discounts.weight 1 := sub_pos.2 hlt
  have hone : dcgAtK log2Discounts ["a"] signedGrades 2 = log2Discounts.weight 0 := by
    have hgrade : signedGrades.grade "a" = 1 := by decide
    rw [dcgAtK_pos two_pos, Grades.gains, List.map_singleton, hgrade]
    simp only [htwo, List.take_succ_cons, List.take_nil, discountedSum]
    ring
  have hother : dcgAtK log2Discounts ["b"] signedGrades 2 = - log2Discounts.weight 0 := by
    have hgrade : signedGrades.grade "b" = -1 := by decide
    rw [dcgAtK_pos two_pos, Grades.gains, List.map_singleton, hgrade]
    simp only [htwo, List.take_succ_cons, List.take_nil, discountedSum]
    ring
  refine ⟨by decide +kernel, by decide, by decide, ?_, ?_⟩
  · rw [ndcgAtK, hidcg, if_neg (not_le.2 hgap), hone, one_lt_div hgap]
    linarith
  · rw [ndcgAtK, hidcg, if_neg (not_le.2 hgap), hother]
    exact div_neg_of_neg_of_pos (by linarith) hgap

end Evaluation
end TappsBrain
