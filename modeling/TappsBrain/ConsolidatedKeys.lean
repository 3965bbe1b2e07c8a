import Mathlib.Data.List.DropRight
import Mathlib.Data.List.MinMax
import TappsBrain.Merging
import TappsBrain.Scar
import TappsBrain.SupersessionChains

namespace TappsBrain
open Lib
set_option autoImplicit true
set_option relaxedAutoImplicit false

/-- The first eight hexadecimal digits of the MD5 sum of a text. -/
structure KeyDigest where
  text : String → String
  length : ∀ s, (text s).toList.length = 8
  hex : ∀ s, ∀ c ∈ (text s).toList, isSlugHead c = true

/-- The characters that stand in every text at one place, up to the first that differs. -/
def commonChars : List Char → List (List Char) → List Char
  | [], _ => []
  | c :: rest, others =>
    if others.all (fun o => o.head? = some c) then c :: commonChars rest (others.map List.tail)
    else []

def isPrefixEnd (c : Char) : Bool := c == '-' || c == '_' || c == '.'

/-- `_find_common_prefix`. -/
def findCommonPrefix : List String → String
  | [] => ""
  | [key] =>
    if key.toList.contains '-' then String.ofList (key.toList.takeWhile (· ≠ '-'))
    else String.ofList (key.toList.take 10)
  | key :: others =>
    String.ofList ((commonChars key.toList (others.map String.toList)).rdropWhile isPrefixEnd)

def MIN_PREFIX_LENGTH : Nat := 3

/-- The tag that most sources share, in lower case; the first of several. -/
def mostCommonTag (u : Unicode) (entries : List MemoryEntry) : Option String :=
  let tags := entries.flatMap (fun e => e.tags.map u.lower)
  tags.eraseDups.argmax tags.count

/-- What the key begins with, before it is cleaned. -/
def keyPrefix (u : Unicode) (entries : List MemoryEntry) : String :=
  let common := findCommonPrefix (entries.map (·.key))
  if common.length < MIN_PREFIX_LENGTH then (mostCommonTag u entries).getD "consolidated"
  else common

/-- `re.sub(r"-+", "-", ...)`. -/
def collapseDashes : List Char → List Char
  | '-' :: '-' :: rest => collapseDashes ('-' :: rest)
  | c :: rest => c :: collapseDashes rest
  | [] => []

def stripDashes (cs : List Char) : List Char := (cs.dropWhile (· == '-')).rdropWhile (· == '-')

/-- The cleaned prefix, or the one that stands in for it. -/
def cleanPrefix (u : Unicode) (common : String) : List Char :=
  let dashed := (u.lower common).toList.map (fun c => if isSlugHead c then c else '-')
  match stripDashes (collapseDashes dashed) with
  | [] => "consolidated".toList
  | clean => clean

/-- The text that is hashed. -/
def joinedKeys (entries : List MemoryEntry) : String :=
  "-".intercalate ((entries.map (·.key)).insertionSort (· ≤ ·))

/-- The cleaned prefix, cut to leave room for the digest. -/
def cutPrefix (u : Unicode) (entries : List MemoryEntry) : List Char :=
  ((cleanPrefix u (keyPrefix u entries)).take (MAX_KEY_LENGTH - 8 - 1)).rdropWhile isPrefixEnd

/-- `generate_consolidated_key`. -/
def generateConsolidatedKey (u : Unicode) (digest : KeyDigest) (entries : List MemoryEntry) :
    String :=
  match entries with
  | [] => "consolidated-empty"
  | _ => String.ofList (cutPrefix u entries ++ '-' :: (digest.text (joinedKeys entries)).toList)

section Grammar
variable {u : Unicode} {digest : KeyDigest} {entries : List MemoryEntry}

theorem mem_collapseDashes {c : Char} {cs : List Char} (h : c ∈ collapseDashes cs) : c ∈ cs := by
  induction cs using collapseDashes.induct with
  | case1 rest ih =>
    rw [collapseDashes] at h
    exact List.mem_cons_of_mem _ (ih h)
  | case2 d rest hd ih =>
    rw [collapseDashes] at h
    · rcases List.mem_cons.1 h with rfl | h
      · exact List.mem_cons_self
      · exact List.mem_cons_of_mem _ (ih h)
    · exact hd
  | case3 => exact h

theorem mem_stripDashes {c : Char} {cs : List Char} (h : c ∈ stripDashes cs) : c ∈ cs :=
  (List.dropWhile_suffix _).mem ((List.rdropWhile_prefix _ _).mem h)

theorem stripDashes_opens {c : Char} {rest cs : List Char} (h : stripDashes cs = c :: rest) :
    c ≠ '-' := by
  intro hc
  have hinitial : stripDashes cs <+: cs.dropWhile (· == '-') := List.rdropWhile_prefix _ _
  obtain ⟨tail, htail⟩ := hinitial
  have hnot := List.head?_dropWhile_not (fun c : Char => c == '-') cs
  rw [← htail, h, hc] at hnot
  cases hnot

/-- A prefix opens with a letter or a digit and goes on with these and dashes. -/
structure CleanChars (cs : List Char) : Prop where
  opens : ∃ c rest, cs = c :: rest ∧ isSlugHead c = true
  chars : ∀ c ∈ cs, isSlugTail c = true

theorem slugTail_of_head {c : Char} (h : isSlugHead c = true) : isSlugTail c = true := by
  rw [isSlugTail, h]
  rfl

theorem slugHead_not_end {c : Char} (h : isSlugHead c = true) : isPrefixEnd c = false := by
  by_contra hend
  rw [Bool.not_eq_false, isPrefixEnd, Bool.or_eq_true, Bool.or_eq_true, beq_iff_eq, beq_iff_eq,
    beq_iff_eq] at hend
  rcases hend with (rfl | rfl) | rfl <;> exact absurd h (by decide)

theorem cleanPrefix_chars (common : String) : CleanChars (cleanPrefix u common) := by
  rw [cleanPrefix]
  split
  · exact ⟨⟨'c', _, rfl, rfl⟩, List.all_eq_true.1 rfl⟩
  · next hne =>
    have hdashed : ∀ c ∈ stripDashes (collapseDashes ((u.lower common).toList.map
        (fun c => if isSlugHead c then c else '-'))), isSlugHead c = true ∨ c = '-' := by
      intro c hc
      obtain ⟨d, -, rfl⟩ := List.mem_map.1 (mem_collapseDashes (mem_stripDashes hc))
      cases hd : isSlugHead d with
      | true => exact .inl hd
      | false => exact .inr rfl
    constructor
    · cases hclean : stripDashes (collapseDashes ((u.lower common).toList.map
          (fun c => if isSlugHead c then c else '-'))) with
      | nil => exact (hne hclean).elim
      | cons c rest =>
        have hc := hdashed c (by rw [hclean]; exact List.mem_cons_self)
        exact ⟨c, rest, rfl, hc.resolve_right (stripDashes_opens hclean)⟩
    · intro c hc
      rcases hdashed c hc with h | rfl
      · exact slugTail_of_head h
      · rfl

theorem cutPrefix_chars :
    CleanChars (cutPrefix u entries) ∧ (cutPrefix u entries).length ≤ 119 := by
  obtain ⟨⟨c, rest, hcs, hc⟩, hchars⟩ := cleanPrefix_chars (u := u) (keyPrefix u entries)
  have hinitial : cutPrefix u entries <+: (cleanPrefix u (keyPrefix u entries)).take 119 :=
    List.rdropWhile_prefix _ _
  have htake : (cleanPrefix u (keyPrefix u entries)).take 119 = c :: rest.take 118 := by
    rw [hcs]
    rfl
  refine ⟨⟨?_, ?_⟩, ?_⟩
  · have hne : cutPrefix u entries ≠ [] := by
      intro hnil
      have hmem : c ∈ (cleanPrefix u (keyPrefix u entries)).take 119 := by
        rw [htake]
        exact List.mem_cons_self
      have hall := List.rdropWhile_eq_nil_iff.1 hnil c hmem
      rw [slugHead_not_end hc] at hall
      cases hall
    cases hcut : cutPrefix u entries with
    | nil => exact (hne hcut).elim
    | cons d tail =>
      rw [hcut, htake, List.cons_prefix_cons] at hinitial
      exact ⟨d, tail, rfl, by rw [hinitial.1]; exact hc⟩
  · intro d hd
    exact hchars d (List.mem_of_mem_take (hinitial.mem hd))
  · exact hinitial.length_le.trans (List.length_take_le _ _)

/-- Every generated key is one that the model accepts. -/
theorem generateConsolidatedKey_slug :
    keySlug (generateConsolidatedKey u digest entries) = true := by
  unfold generateConsolidatedKey
  split
  · decide
  · have hcut : CleanChars (cutPrefix u entries) ∧ (cutPrefix u entries).length ≤ 119 :=
      cutPrefix_chars
    obtain ⟨⟨⟨c, rest, hcs, hc⟩, hchars⟩, hlength⟩ := hcut
    have hdigest := digest.length (joinedKeys entries)
    rw [hcs] at hchars hlength
    rw [keySlug, String.toList_ofList, hcs]
    dsimp only [List.cons_append]
    rw [hc, Bool.true_and, Bool.and_eq_true, decide_eq_true_eq, List.all_eq_true]
    constructor
    · intro d hd
      rcases List.mem_append.1 hd with hd | hd
      · exact hchars d (List.mem_cons_of_mem c hd)
      · rcases List.mem_cons.1 hd with rfl | hd
        · rfl
        · exact slugTail_of_head (digest.hex _ d hd)
    · rw [List.length_append, List.length_cons, hdigest]
      rw [List.length_cons] at hlength
      change _ < 128
      omega

/-- Two merges share a key when they share the cleaned prefix and the hashed text. -/
theorem generateConsolidatedKey_eq_iff {others : List MemoryEntry} (hne : entries ≠ [])
    (hne' : others ≠ [])
    (hinj : digest.text (joinedKeys entries) = digest.text (joinedKeys others) →
      joinedKeys entries = joinedKeys others) :
    generateConsolidatedKey u digest entries = generateConsolidatedKey u digest others ↔
      cutPrefix u entries = cutPrefix u others ∧ joinedKeys entries = joinedKeys others := by
  have hkey : ∀ l : List MemoryEntry, l ≠ [] → generateConsolidatedKey u digest l =
      String.ofList (cutPrefix u l ++ '-' :: (digest.text (joinedKeys l)).toList) := by
    intro l hl
    cases l with
    | nil => exact (hl rfl).elim
    | cons e rest => rfl
  rw [hkey entries hne, hkey others hne', String.ofList_inj]
  constructor
  · intro h
    obtain ⟨hcut, htail⟩ := List.append_inj' h (by
      rw [List.length_cons, List.length_cons, digest.length, digest.length])
    exact ⟨hcut, hinj (String.toList_inj.1 (List.cons.inj htail).2)⟩
  · rintro ⟨hcut, hjoined⟩
    rw [hcut, hjoined]

end Grammar

/-- Nothing is cached or stored under the key. -/
def Vacant (key : String) (s : Store) : Prop := AllAt key (fun _ => False) s

section Vacancy
variable {w : World} {key : String} {s : Store}

theorem lasting_false (c : Config) : Lasting c (fun _ => False) :=
  ⟨fun _ _ _ h => h, fun _ _ h => h, fun _ _ _ h => h, fun _ _ _ h => h, fun _ _ _ h => h⟩

/-- Rows of other keys may be written. -/
def vacancy (w : World) (key : String) : Discipline w :=
  AllAt.discipline w key (lasting_false w.toConfig)

theorem vacancy_allows {j : String} {f : Stamp → MemoryEntry → MemoryEntry}
    (hf : ∀ now e, (f now e).key = e.key) : (vacancy w key).Allows j f :=
  fun e now hsees _ _ => ⟨hsees, fun hk => hsees ((hf now e).symm.trans hk)⟩

theorem vacancy_allowsClosing {j reason : String} {status : MemoryStatus}
    {succ detail : Option String} :
    (vacancy w key).Allows j (fun now => closeWith reason status now succ detail) :=
  vacancy_allows (fun now e => closeWith_key reason status now succ detail e)

theorem vacancy_allowsPrepare (j : String) : (vacancy w key).AllowsPrepare j where
  reinforce := by
    constructor
    · exact vacancy_allows (fun now e => reinforced_key _ _ _ _)
    · intro e at₁ at₂ at₃ target hsees _ _ _ _ hk
      exact hsees (((promoted_key _ _ _ _).trans (reinforced_key _ _ _ _)).symm.trans hk)
  invalidate := fun now _ e reason hsees _ _ =>
    ⟨hsees, fun hk => hsees ((invalidatedBy_key _ _ _).symm.trans hk)⟩

/-- The keys a save of `key` may write. -/
def WritesUnder (w : World) (key k : String) : Prop := k = key ∨ w.redirects key k

theorem vacancy_allowsBuild {a : SaveArgs} (h : ¬ WritesUnder w a.key key) (p : SavePrep)
    (hp : (vacancy w key).Prepared a p) :
    (vacancy w key).AllowsBuild (preparedArgs (inferredArgs w.toConfig a) p) := by
  intro existing mg now tierVal e _ _ he hk
  have hkey : e.key = p.effectiveKey.getD a.key := constructMemoryEntry_key he
  rw [stampIntegrityHash_key, hkey] at hk
  cases htarget : p.effectiveKey with
  | none =>
    rw [htarget] at hk
    exact h (.inl hk.symm)
  | some target =>
    rw [htarget] at hk
    exact h (.inr (hk ▸ hp.target target htarget))

theorem vacancy_allowsMergedRow {plan : MergePlan}
    (h : ¬ WritesUnder w plan.consolidated.key key) : (vacancy w key).AllowsMergedRow plan where
  merge :=
    { promoted := fun _ => vacancy_allows (fun _ _ => rfl)
      closed := fun _ _ _ => vacancy_allowsClosing
      reopened := fun _ => vacancy_allows (fun _ _ => rfl) }
  prepare := vacancy_allowsPrepare
  build := vacancy_allowsBuild h

end Vacancy

/-- The merges a call comes with. -/
def ChainCall.merges : ChainCall → List MergePlan
  | .save _ merge | .brainRemember _ merge | .supersede _ _ _ merge => merge.toList
  | .scan merges => merges
  | .closeValidity .. | .undoConsolidationMerge _ => []

/-- The keys that the save of a call may write, its merges apart. -/
def ChainCall.saves (w : World) (digest : String → String) : ChainCall → Store → String → Prop
  | .save a _, _, k => WritesUnder w a.key k
  | .brainRemember a _, _, k => WritesUnder w (contentKey w.unicode digest a.fact) k
  | .supersede oldKey _ kw merge, s, k => ∃ old newKey,
      successor (w.merging merge) oldKey kw s = some (old, newKey) ∧ WritesUnder w newKey k
  | _, _, _ => False

section Runs
variable {w : World} {digest : String → String} {key : String} {s : Store}

theorem merging_vacant {merge : Option MergePlan}
    (h : ∀ p ∈ merge.toList, ¬ WritesUnder w p.consolidated.key key) (entry : MemoryEntry)
    (others : List MemoryEntry) (plan : MergePlan)
    (hplan : (w.merging merge).planMerge entry others = some plan) :
    (vacancy (w.merging merge) key).AllowsMergedRow plan :=
  vacancy_allowsMergedRow (h plan (Option.mem_toList.2 hplan))

theorem save_vacant {merge : Option MergePlan} {a : SaveArgs} (ha : ¬ WritesUnder w a.key key)
    (h : ∀ p ∈ merge.toList, ¬ WritesUnder w p.consolidated.key key) :
    Keeps (Vacant key) (save (w.merging merge) a) :=
  ((vacancy (w.merging merge) key).save (fun _ he => he) vacancy_allowsPrepare
    (vacancy_allowsBuild ha) (merging_vacant h)).forget

/-- A call that writes nothing under the key leaves it vacant. -/
theorem ChainCall.step_vacant {c : ChainCall} (hs : Vacant key s)
    (hsaves : ¬ c.saves w digest s key)
    (hmerges : ∀ p ∈ c.merges, ¬ WritesUnder w p.consolidated.key key) :
    Vacant key (c.step w digest s) := by
  cases c with
  | save a merge => exact (save_vacant hsaves hmerges).final hs
  | brainRemember a merge =>
    rw [ChainCall.saves] at hsaves
    have hsave (scope k : String) (hk : ¬ WritesUnder w k key) :
        Keeps (Vacant key) (TappsBrain.save (w.merging merge) (rememberSave a k scope)) :=
      save_vacant hk hmerges
    have hkeeps : Keeps (Vacant key) (TappsBrain.brainRemember (w.merging merge) digest a) := by
      apply (vacancy (w.merging merge) key).brainRemember
      · exact fun scope => hsave scope _ hsaves
      · exact fun old _ => vacancy_allows (fun _ _ => rfl)
      · exact fun old status _ _ => vacancy_allowsClosing
    exact hkeeps.final hs
  | supersede oldKey newValue kw merge =>
    apply (vacancy (w.merging merge) key).supersede_final hs
    intro old newKey hnext hsees hkey
    have hnew : ¬ WritesUnder w newKey key := fun hk => hsaves ⟨old, newKey, hnext, hk⟩
    constructor
    · exact hsees
    · intro now hk
      exact hsees ((closeWith_key _ _ _ _ _ _).symm.trans hk)
    · intro now
      exact (vacancy (w.merging merge) key).writeSuperseding (fun _ he => he) hsees
        (fun _ he => he) vacancy_allowsPrepare (vacancy_allowsBuild hnew) (merging_vacant hmerges)
  | closeValidity closed reason succ detail =>
    have hkeeps : Keeps (Vacant key) (TappsBrain.closeValidity w closed reason succ detail) :=
      ((vacancy w key).closeValidity (fun _ _ => vacancy_allowsClosing)).forget
    exact hkeeps.final hs
  | scan merges =>
    have hkeeps : Keeps (Vacant key) (runPeriodicConsolidationScan w (fun _ => merges)) :=
      (vacancy w key).runPeriodicConsolidationScan (fun _ he => he)
        (fun _ plan hplan => vacancy_allowsMergedRow (hmerges plan hplan))
    exact hkeeps.final hs
  | undoConsolidationMerge merged =>
    have hkeeps : Keeps (Vacant key) (TappsBrain.undoConsolidationMerge w merged) :=
      (vacancy w key).undoConsolidationMerge (fun _ he => he) merged
        (fun _ _ => vacancy_allows (fun _ _ => rfl)) (fun _ => trivial)
    exact hkeeps.final hs

theorem vacant_empty : Vacant key {} :=
  ⟨fun _ he => (nomatch he), fun _ he => (nomatch he)⟩

theorem run_vacant {calls : List ChainCall} (h : Guarded (ChainCall.step w digest)
      (fun c t => ¬ c.saves w digest t key ∧
        ∀ p ∈ c.merges, ¬ WritesUnder w p.consolidated.key key) calls {}) :
    Vacant key (runSteps (ChainCall.step w digest) calls {}) :=
  h.keeps (fun _ _ ht hc => ChainCall.step_vacant ht hc.1 hc.2) vacant_empty

end Runs

/-- The two lists have the same source keys. -/
def SameKeys (es fs : List MemoryEntry) : Prop := ∀ k, k ∈ es.map (·.key) ↔ k ∈ fs.map (·.key)

/-- The two source sets are one, or their keys are told apart. -/
def KeyedApart (u : Unicode) (es fs : List MemoryEntry) : Prop :=
  SameKeys es fs ∨ joinedKeys es ≠ joinedKeys fs ∨ cutPrefix u es ≠ cutPrefix u fs

/-- The merge goes by the key that is generated from its sources. -/
structure Keyed (u : Unicode) (digest : KeyDigest) (plan : MergePlan) : Prop where
  sources : plan.sources ≠ []
  key : plan.consolidated.key = generateConsolidatedKey u digest plan.sources

theorem planOf_keyed {u : Unicode} {digest : KeyDigest} {m : Merging} {trigger : String}
    {sources : List MemoryEntry} {plan : MergePlan}
    (hm : m.consolidatedKey = generateConsolidatedKey u digest)
    (h : planOf u m trigger sources = some plan) : Keyed u digest plan := by
  obtain ⟨c, hc, rfl⟩ := Option.map_eq_some_iff.1 h
  rw [consolidate] at hc
  split at hc
  · cases hc
  · next hlength =>
    split at hc
    · cases hc
      constructor
      · intro hnil
        apply hlength
        rw [show sources = [] from hnil]
        decide
      · exact congrFun hm sources
    · cases hc

/-- The digest tells the two hashed texts apart. -/
def DigestApart (digest : KeyDigest) (es fs : List MemoryEntry) : Prop :=
  digest.text (joinedKeys es) = digest.text (joinedKeys fs) → joinedKeys es = joinedKeys fs

section Merges
variable {w : World} {hash : String → String} {digest : KeyDigest} {calls : List ChainCall}
  {plan : MergePlan}

/-- The call writes nothing under the key of the merge but merges of the same sources. -/
structure Spares (w : World) (hash : String → String) (plan : MergePlan) (c : ChainCall)
    (s : Store) : Prop where
  saves : ¬ c.saves w hash s plan.consolidated.key
  redirects : ∀ p ∈ c.merges, ¬ w.redirects p.consolidated.key plan.consolidated.key
  apart : ∀ p ∈ c.merges, KeyedApart w.unicode p.sources plan.sources

/-- The rows a merge's save may replace are those of earlier merges of the same sources. -/
def ReplacesOwn (w : World) (calls : List ChainCall) (plan : MergePlan) (s : Store) : Prop :=
  ∀ k, WritesUnder w plan.consolidated.key k → Vacant k s ∨
    k = plan.consolidated.key ∧ ∃ c ∈ calls, ∃ p ∈ c.merges,
      p.consolidated.key = k ∧ SameKeys p.sources plan.sources

theorem keyed_same {p : MergePlan} (hp : Keyed w.unicode digest p)
    (hplan : Keyed w.unicode digest plan) (hdigest : DigestApart digest p.sources plan.sources)
    (hapart : KeyedApart w.unicode p.sources plan.sources)
    (hkey : p.consolidated.key = plan.consolidated.key) : SameKeys p.sources plan.sources := by
  rw [hp.key, hplan.key, generateConsolidatedKey_eq_iff hp.sources hplan.sources hdigest] at hkey
  rcases hapart with hsame | hjoined | hcut
  · exact hsame
  · exact absurd hkey.2 hjoined
  · exact absurd hkey.1 hcut

theorem merge_replacesOwn (hplan : Keyed w.unicode digest plan)
    (hkeyed : ∀ c ∈ calls, ∀ p ∈ c.merges,
      Keyed w.unicode digest p ∧ DigestApart digest p.sources plan.sources)
    (hpolicy : ∀ target, ¬ w.redirects plan.consolidated.key target)
    (h : Guarded (ChainCall.step w hash) (Spares w hash plan) calls {}) :
    ReplacesOwn w calls plan (runSteps (ChainCall.step w hash) calls {}) := by
  intro k hk
  obtain rfl : k = plan.consolidated.key := hk.resolve_right (hpolicy k)
  by_cases hearlier : ∃ c ∈ calls, ∃ p ∈ c.merges,
      p.consolidated.key = plan.consolidated.key ∧ SameKeys p.sources plan.sources
  · exact .inr ⟨rfl, hearlier⟩
  · apply Or.inl
    apply run_vacant
    apply h.imp
    intro c hc t hspares
    refine ⟨hspares.saves, fun p hp hwrites => ?_⟩
    obtain ⟨hp', hdigest⟩ := hkeyed c hc p hp
    have hkey : plan.consolidated.key = p.consolidated.key :=
      hwrites.resolve_right (hspares.redirects p hp)
    exact hearlier ⟨c, hc, p, hp, hkey.symm,
      keyed_same hp' hplan hdigest (hspares.apart p hp) hkey.symm⟩

end Merges

/-- Two source sets get different keys exactly when their hashed texts or their cleaned prefixes
differ, every generated key is a valid one, and in a run whose merges are told apart and whose
saves leave the merged keys alone a merge replaces no row but that of an earlier merge of the same
sources. -/
theorem consolidated_keys_apart (w : World) (hash : String → String) (digest : KeyDigest) :
    (∀ es fs, es ≠ [] → fs ≠ [] → DigestApart digest es fs →
      ((SameKeys es fs ∨ generateConsolidatedKey w.unicode digest es ≠
          generateConsolidatedKey w.unicode digest fs) ↔ KeyedApart w.unicode es fs)) ∧
      (∀ es, keySlug (generateConsolidatedKey w.unicode digest es) = true) ∧
      ∀ calls plan, Keyed w.unicode digest plan →
        (∀ c ∈ calls, ∀ p ∈ c.merges,
          Keyed w.unicode digest p ∧ DigestApart digest p.sources plan.sources) →
        (∀ target, ¬ w.redirects plan.consolidated.key target) →
        Guarded (ChainCall.step w hash) (Spares w hash plan) calls {} →
        ReplacesOwn w calls plan (runSteps (ChainCall.step w hash) calls {}) := by
  refine ⟨fun es fs hes hfs hdigest => ?_, fun es => generateConsolidatedKey_slug,
    fun calls plan hplan hkeyed hpolicy h => merge_replacesOwn hplan hkeyed hpolicy h⟩
  rw [KeyedApart, Ne, generateConsolidatedKey_eq_iff hes hfs hdigest, not_and_or]
  exact or_congr_right or_comm

def zeroDigest : KeyDigest where
  text := fun _ => "00000000"
  length := fun _ => rfl
  hex := fun _ => List.all_eq_true.1 rfl

def namedNote (key : String) : MemoryEntry :=
  { key, value := "postgres 16", createdAt := 1000, updatedAt := 1000, lastAccessed := 1000 }

def keyMerging : Merging where
  combinedScore := fun _ _ => 1
  consolidatedKey := generateConsolidatedKey .lowercase zeroDigest
  mergeValues := fun _ => "postgres 16"
  weightedConfidence := fun _ => 1 / 2

/-- Two notes are saved, then merged. -/
theorem consolidated_keys_apart_notes : ∃ plan,
    planOf .lowercase keyMerging "save" [namedNote "a", namedNote "b"] = some plan ∧
      ReplacesOwn Config.plain.calm
        [.save { key := "a", value := "postgres 16" } none,
          .save { key := "b", value := "postgres 16" } none] plan
        (runSteps (ChainCall.step Config.plain.calm sampleDigest)
          [.save { key := "a", value := "postgres 16" } none,
            .save { key := "b", value := "postgres 16" } none] {}) := by
  cases hplan : planOf .lowercase keyMerging "save" [namedNote "a", namedNote "b"] with
  | none => exact absurd hplan (by decide)
  | some plan =>
    have hkeyed : Keyed .lowercase zeroDigest plan := planOf_keyed rfl hplan
    have hkey : plan.consolidated.key = "consolidated-00000000" := by
      rw [hkeyed.key, (planOf_newest hplan).1]
      decide +kernel
    have hpolicy (k target : String) : ¬ Config.plain.calm.redirects k target := by
      rintro ⟨decide, value, candidates, h, -⟩
      cases h
    have hspares (key : String) (t : Store) (hne : plan.consolidated.key ≠ key) :
        Spares Config.plain.calm sampleDigest plan (.save { key, value := "postgres 16" } none) t :=
      ⟨fun h => h.elim hne (hpolicy _ _), fun _ hp => (nomatch hp), fun _ hp => (nomatch hp)⟩
    refine ⟨plan, rfl, (consolidated_keys_apart Config.plain.calm sampleDigest zeroDigest).2.2 _
      plan hkeyed ?_ (hpolicy _) ⟨hspares _ _ ?_, hspares _ _ ?_, trivial⟩⟩
    · intro c hc p hp
      simp only [List.mem_cons, List.not_mem_nil, or_false] at hc
      rcases hc with rfl | rfl <;> cases hp
    · rw [hkey]
      decide
    · rw [hkey]
      decide

/-- Two different source sets, the dash of one key standing where the join of the other falls. -/
theorem consolidated_keys_collide :
    ¬ SameKeys [namedNote "a-b", namedNote "c"] [namedNote "a", namedNote "b-c"] ∧
      joinedKeys [namedNote "a-b", namedNote "c"] = joinedKeys [namedNote "a", namedNote "b-c"] ∧
      generateConsolidatedKey .lowercase zeroDigest [namedNote "a-b", namedNote "c"] =
        generateConsolidatedKey .lowercase zeroDigest [namedNote "a", namedNote "b-c"] := by
  refine ⟨fun h => ?_, by decide +kernel, by decide +kernel⟩
  have hmem := (h "c").1 (by decide)
  revert hmem
  decide

end TappsBrain
