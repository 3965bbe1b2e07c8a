import Mathlib.Data.List.Chain
import Mathlib.Data.List.Nodup
import TappsBrain.MarkdownSync

namespace TappsBrain
set_option autoImplicit true
set_option relaxedAutoImplicit false

/-- No two separators stand side by side. -/
def NoRuns (cs : List Char) : Prop := cs.IsChain (fun a b => isSep a = true → isSep b = false)

/-- The characters neither begin nor end with a separator. -/
structure Trimmed (cs : List Char) : Prop where
  first : ∀ c ∈ cs.head?, isSep c = false
  last : ∀ c ∈ cs.getLast?, isSep c = false

section Separators

theorem head_collapseSeps_true (cs : List Char) :
    ∀ c ∈ (collapseSeps true cs).head?, isSep c = false := by
  induction cs with
  | nil => exact fun c hc => nomatch hc
  | cons d rest ih =>
    rw [collapseSeps]
    cases hd : isSep d with
    | true => exact ih
    | false =>
      intro c hc
      cases hc
      exact hd

theorem head_collapseSeps_false {d : Char} {rest : List Char} (hd : isSep d = false) :
    collapseSeps false (d :: rest) = d :: collapseSeps false rest := by
  rw [collapseSeps, hd]
  rfl

theorem collapseSeps_noRuns (inRun : Bool) (cs : List Char) : NoRuns (collapseSeps inRun cs) := by
  induction cs generalizing inRun with
  | nil => exact List.isChain_nil
  | cons d rest ih =>
    rw [collapseSeps]
    cases hd : isSep d with
    | false =>
      apply List.isChain_cons.2
      exact ⟨fun c _ hsep => (by rw [hd] at hsep; cases hsep), ih false⟩
    | true =>
      simp only [Bool.not_true, Bool.false_eq_true, ↓reduceIte]
      split
      · exact ih true
      · split
        · exact List.isChain_cons.2 ⟨fun c hc _ => head_collapseSeps_true rest c hc, ih true⟩
        · next hnext =>
          refine List.isChain_cons.2 ⟨fun c hc _ => ?_, ih false⟩
          cases rest with
          | nil => cases hc
          | cons e rest =>
            have he : isSep e = false := by simpa using hnext
            rw [head_collapseSeps_false he] at hc
            cases hc
            exact he

theorem collapseSeps_of_noRuns {cs : List Char} (h : NoRuns cs) : collapseSeps false cs = cs := by
  induction cs with
  | nil => rfl
  | cons d rest ih =>
    obtain ⟨hhead, hrest⟩ := List.isChain_cons.1 h
    rw [collapseSeps, ih hrest]
    cases hd : isSep d with
    | false => rfl
    | true =>
      have hnext : rest.head?.any isSep = false := by
        cases rest with
        | nil => rfl
        | cons e rest => exact hhead e rfl hd
      rw [hnext]
      rfl

theorem stripSeps_of_trimmed {cs : List Char} (h : Trimmed cs) : stripSeps cs = cs := by
  cases cs with
  | nil => rfl
  | cons d rest =>
    have hd : isSep d = false := h.first d rfl
    rw [stripSeps, List.dropWhile_cons_of_neg (by rw [hd]; decide), List.rdropWhile_eq_self_iff]
    intro hne
    rw [h.last _ (List.getLast?_eq_some_getLast hne)]
    decide

theorem stripSeps_part (cs : List Char) : stripSeps cs <:+: cs :=
  (List.rdropWhile_prefix isSep _).isInfix.trans
    (List.dropWhile_suffix isSep).isInfix

/-- Only separators are stripped, so the rest begins and ends with another character. -/
theorem stripSeps_trimmed (cs : List Char) : Trimmed (stripSeps cs) := by
  have hpre : stripSeps cs <+: cs.dropWhile isSep := List.rdropWhile_prefix isSep _
  constructor
  · intro c hc
    obtain ⟨tail, htail⟩ := hpre
    have hhead : (cs.dropWhile isSep).head? = some c := by
      rw [← htail, List.head?_append, Option.mem_def.1 hc]
      rfl
    have hnot := List.head?_dropWhile_not isSep cs
    rw [hhead] at hnot
    exact hnot
  · intro c hc
    have hne : stripSeps cs ≠ [] := by
      intro hnil
      rw [hnil] at hc
      cases hc
    have hnot := List.rdropWhile_last_not isSep (cs.dropWhile isSep) hne
    have heq : (stripSeps cs).getLast hne = c := by
      rw [Option.mem_def, List.getLast?_eq_some_getLast hne] at hc
      exact Option.some.inj hc
    rw [← heq]
    exact Bool.eq_false_iff.2 hnot

end Separators

/-- The hexadecimal digits of a hash prefix. -/
structure IsShortHash (s : String) : Prop where
  length : s.length = 6
  digits : ∀ c ∈ s.toList, isSlugHead c = true

/-- A key that is its own slug. -/
structure TidyKey (cs : List Char) : Prop extends Trimmed cs where
  chars : ∀ c ∈ cs, isSlugTail c = true
  noRuns : NoRuns cs

section Slug
variable {u : Unicode} {c : Char} {key : String}

/-- The characters of a key are no whitespace, and no hash or angle bracket. -/
theorem slugTail_plain (h : isSlugTail c = true) : isSpace c = false ∧ c ≠ '#' ∧ c ≠ '<' := by
  simp only [isSlugTail, isSlugHead, Bool.or_eq_true, Bool.and_eq_true, decide_eq_true_eq,
    beq_iff_eq] at h
  refine ⟨?_, ?_, ?_⟩
  · rcases h with ((h | rfl) | rfl) | rfl
    · simp only [isSpace, Bool.or_eq_false_iff, Bool.and_eq_false_iff, decide_eq_false_iff_not,
        beq_eq_false_iff_ne]
      omega
    all_goals decide
  · rintro rfl
    revert h
    decide
  · rintro rfl
    revert h
    decide

theorem keySlug_chars (h : keySlug key = true) :
    key.toList ≠ [] ∧ ∀ c ∈ key.toList, isSlugTail c = true := by
  rw [keySlug] at h
  split at h
  · cases h
  · next c rest heq =>
    simp only [Bool.and_eq_true, List.all_eq_true] at h
    obtain ⟨⟨hc, hrest⟩, -⟩ := h
    rw [heq]
    refine ⟨List.cons_ne_nil _ _, fun d hd => ?_⟩
    rcases List.mem_cons.1 hd with rfl | hd
    · rw [isSlugTail, hc]
      rfl
    · exact hrest d hd

theorem stripChars_key (h : keySlug key = true) : stripChars key.toList = key.toList := by
  obtain ⟨hne, hchars⟩ := keySlug_chars h
  cases hk : key.toList with
  | nil => exact absurd hk hne
  | cons c rest =>
    rw [hk] at hchars
    have hlast : (c :: rest).getLast? = some ((c :: rest).getLast (List.cons_ne_nil _ _)) :=
      List.getLast?_eq_some_getLast _
    exact stripChars_of_ends (slugTail_plain (hchars c List.mem_cons_self)).1
      (slugTail_plain (hchars _ (List.getLast_mem _))).1 hlast

/-- Lower case leaves the characters of a key as they are. -/
def Unicode.KeepsSlugs (u : Unicode) : Prop :=
  ∀ s : String, (∀ c ∈ s.toList, isSlugTail c = true) → u.lower s = s

theorem cleanSlug_of_chars {cs : List Char} (h : ∀ c ∈ cs, isSlugTail c = true) :
    cleanSlug false cs = cs := by
  induction cs with
  | nil => rfl
  | cons d rest ih =>
    rw [cleanSlug, h d List.mem_cons_self, ih (fun c hc => h c (List.mem_cons_of_mem d hc))]
    rfl

theorem stripChars_of_chars {cs : List Char} (h : ∀ c ∈ cs, isSlugTail c = true) :
    stripChars cs = cs := by
  cases cs with
  | nil => rfl
  | cons d rest =>
    have hlast := List.getLast?_eq_some_getLast (List.cons_ne_nil d rest)
    exact stripChars_of_ends (slugTail_plain (h d List.mem_cons_self)).1
      (slugTail_plain (h _ (List.getLast_mem _))).1 hlast

/-- The slug of a text of key characters. -/
theorem slugify_of_chars (hu : u.KeepsSlugs) (h : ∀ c ∈ key.toList, isSlugTail c = true) :
    slugify u key =
      let slug := stripSeps (collapseSeps false key.toList)
      String.ofList ((if slug = [] then ['m', '-'] else slug).take MAX_KEY_LENGTH) := by
  rw [slugify, hu key h, strip, String.toList_ofList, stripChars_of_chars h, cleanSlug_of_chars h]

/-- A tidy key is its own slug. -/
theorem slugify_of_tidy (hu : u.KeepsSlugs) (h : TidyKey key.toList) (hne : key.toList ≠ [])
    (hlen : key.length ≤ MAX_KEY_LENGTH) : slugify u key = key := by
  rw [slugify_of_chars hu h.chars, collapseSeps_of_noRuns h.noRuns, stripSeps_of_trimmed h.toTrimmed]
  dsimp only
  rw [if_neg hne, List.take_of_length_le hlen, String.ofList_toList]

theorem collapseSeps_chars {inRun : Bool} {cs : List Char} (h : ∀ c ∈ cs, isSlugTail c = true) :
    ∀ c ∈ collapseSeps inRun cs, isSlugTail c = true := by
  induction cs generalizing inRun with
  | nil => exact fun c hc => nomatch hc
  | cons d rest ih =>
    have hrest : ∀ c ∈ rest, isSlugTail c = true := fun c hc => h c (List.mem_cons_of_mem d hc)
    have hcons : ∀ e, isSlugTail e = true → ∀ b, ∀ c ∈ e :: collapseSeps b rest,
        isSlugTail c = true := by
      intro e he b c hc
      rcases List.mem_cons.1 hc with rfl | hc
      · exact he
      · exact ih hrest c hc
    rw [collapseSeps]
    split
    · exact hcons d (h d List.mem_cons_self) false
    · split
      · exact ih hrest
      · split
        · exact hcons '-' (by decide) true
        · exact hcons d (h d List.mem_cons_self) false

theorem collapseSeps_length (inRun : Bool) (cs : List Char) :
    (collapseSeps inRun cs).length ≤ cs.length := by
  induction cs generalizing inRun with
  | nil => exact Nat.le_refl _
  | cons d rest ih =>
    have htrue := ih true
    have hfalse := ih false
    rw [collapseSeps]
    split
    · exact Nat.succ_le_succ hfalse
    · split
      · exact Nat.le_succ_of_le htrue
      · split
        · exact Nat.succ_le_succ htrue
        · exact Nat.succ_le_succ hfalse

theorem slugHead_not_sep (h : isSlugHead c = true) : isSep c = false := by
  rw [Bool.eq_false_iff]
  intro hsep
  simp only [isSep, Bool.or_eq_true, beq_iff_eq] at hsep
  rcases hsep with (rfl | rfl) | rfl
  all_goals revert h; decide

theorem stripSeps_ne_nil {d : Char} {cs : List Char} (hd : isSep d = false) :
    stripSeps (d :: cs) ≠ [] := by
  rw [stripSeps, List.dropWhile_cons_of_neg (by rw [hd]; decide), ne_eq,
    List.rdropWhile_eq_nil_iff]
  intro hall
  rw [hall d List.mem_cons_self] at hd
  cases hd

/-- The slug of a valid key is a tidy key that is no longer. -/
theorem slugify_key (hu : u.KeepsSlugs) (h : keySlug key = true) :
    TidyKey (slugify u key).toList ∧ (slugify u key).toList ≠ [] ∧
      (slugify u key).length ≤ MAX_KEY_LENGTH := by
  obtain ⟨hne, hchars⟩ := keySlug_chars h
  have hslug : stripSeps (collapseSeps false key.toList) ≠ [] := by
    cases hk : key.toList with
    | nil => exact absurd hk hne
    | cons d rest =>
      have hd : isSep d = false := by
        rw [keySlug, hk] at h
        simp only [Bool.and_eq_true] at h
        exact slugHead_not_sep h.1.1
      rw [head_collapseSeps_false hd]
      exact stripSeps_ne_nil hd
  have hpart := stripSeps_part (collapseSeps false key.toList)
  have hlen : (stripSeps (collapseSeps false key.toList)).length ≤ MAX_KEY_LENGTH := by
    have hkey : key.toList.length ≤ MAX_KEY_LENGTH := (keySlug_length h).2
    have hcollapse := collapseSeps_length false key.toList
    have hstrip := hpart.length_le
    omega
  have heq : slugify u key = String.ofList (stripSeps (collapseSeps false key.toList)) := by
    rw [slugify_of_chars hu hchars]
    dsimp only
    rw [if_neg hslug, List.take_of_length_le hlen]
  rw [heq, String.toList_ofList]
  refine ⟨⟨stripSeps_trimmed _, ?_, ?_⟩, hslug, ?_⟩
  · exact fun c hc => collapseSeps_chars hchars c (hpart.subset hc)
  · obtain ⟨before, after, hparts⟩ := hpart
    have hruns := collapseSeps_noRuns false key.toList
    rw [← hparts] at hruns
    exact hruns.left_of_append.right_of_append
  · rw [String.length_ofList]
    exact hlen

/-- Characters without separators among them are a tidy key. -/
theorem tidy_of_heads {cs : List Char} (h : ∀ c ∈ cs, isSlugHead c = true) : TidyKey cs where
  first := fun c hc => slugHead_not_sep (h c (List.mem_of_mem_head? hc))
  last := fun c hc => slugHead_not_sep (h c (List.mem_of_mem_getLast? hc))
  chars := fun c hc => by
    rw [isSlugTail, h c hc]
    rfl
  noRuns := by
    induction cs with
    | nil => exact List.isChain_nil
    | cons d rest ih =>
      have hd : isSep d = false := slugHead_not_sep (h d List.mem_cons_self)
      refine List.isChain_cons.2 ⟨fun c _ hsep => ?_, ih (fun c hc => h c (List.mem_cons_of_mem d hc))⟩
      rw [hd] at hsep
      cases hsep

/-- Two tidy keys joined by a hyphen are one. -/
theorem TidyKey.hyphen {cs ds : List Char} (hc : TidyKey cs) (hd : TidyKey ds) (hcs : cs ≠ [])
    (hds : ds ≠ []) : TidyKey (cs ++ '-' :: ds) where
  first := by
    rw [List.head?_append_of_ne_nil _ hcs]
    exact hc.first
  last := by
    rw [List.getLast?_append_of_ne_nil _ (List.cons_ne_nil _ _), List.getLast?_cons_of_ne_nil hds]
    exact hd.last
  chars := by
    intro c hmem
    rcases List.mem_append.1 hmem with hmem | hmem
    · exact hc.chars c hmem
    · rcases List.mem_cons.1 hmem with rfl | hmem
      · decide
      · exact hd.chars c hmem
  noRuns := by
    apply hc.noRuns.append
    · exact List.isChain_cons.2 ⟨fun d hhead _ => hd.first d hhead, hd.noRuns⟩
    · intro c hlast d _ hsep
      rw [hc.last c hlast] at hsep
      cases hsep

end Slug

section Collision
variable {x : Slugs} {slug suffix text : String} {seen : List String}

theorem digits_chars (n : Nat) : ∀ c ∈ (toString n).toList, isSlugHead c = true := by
  intro c hc
  have hdigit : c.isDigit = true := by
    apply Nat.isDigit_of_mem_toDigits (by decide) (Nat.le_refl 10)
    rw [← Nat.toList_repr]
    exact hc
  simp only [Char.isDigit, Bool.and_eq_true, decide_eq_true_eq] at hdigit
  simp only [isSlugHead, Bool.or_eq_true, Bool.and_eq_true, decide_eq_true_eq]
  exact .inr hdigit

theorem disambiguated_chars (slug suffix : String) :
    (disambiguated slug suffix).toList =
      slug.toList.take (MAX_KEY_LENGTH - 7) ++ '-' :: suffix.toList := by
  have hhyphen : "-".toList = ['-'] := rfl
  simp only [disambiguated, String.toList_append, String.toList_ofList, hhyphen, List.append_assoc,
    List.singleton_append]

theorem numbered_chars (slug suffix : String) (n : Nat) :
    (numbered slug suffix n).toList =
      slug.toList.take (MAX_KEY_LENGTH - 7 - 1 - (toString n).length) ++
        '-' :: (suffix.toList ++ '-' :: (toString n).toList) := by
  have hhyphen : "-".toList = ['-'] := rfl
  simp only [numbered, String.toList_append, String.toList_ofList, hhyphen, List.append_assoc,
    List.nil_append, List.cons_append]

/-- A slug cut to make room for a suffix gives a tidy key, unless the cut is felt. -/
theorem capped_tidy {cs ds : List Char} {n : Nat} (hc : TidyKey cs) (hd : TidyKey ds) (hcs : cs ≠ [])
    (hds : ds ≠ []) (hroom : MAX_KEY_LENGTH ≤ n + 1 + ds.length) :
    TidyKey (cs.take n ++ '-' :: ds) ∨ MAX_KEY_LENGTH ≤ (cs.take n ++ '-' :: ds).length := by
  by_cases hlen : cs.length ≤ n
  · rw [List.take_of_length_le hlen]
    exact .inl (hc.hyphen hd hcs hds)
  · right
    rw [List.length_append, List.length_take, List.length_cons, Nat.min_eq_left (by omega)]
    omega

theorem firstFree_candidate (candidate : Nat → String) (seen : List String) (rounds counter : Nat) :
    ∃ n, firstFree candidate seen rounds counter = candidate n := by
  induction rounds generalizing counter with
  | zero => exact ⟨counter, rfl⟩
  | succ rounds ih =>
    rw [firstFree]
    split
    · exact ih (counter + 1)
    · exact ⟨counter, rfl⟩

theorem toDigits_inj {m n : Nat} (h : Nat.toDigits 10 m = Nat.toDigits 10 n) : m = n := by
  calc
    m = Nat.ofDigitChars 10 (Nat.toDigits 10 m) 0 := Nat.ofDigitChars_ten_toDigits.symm
    _ = Nat.ofDigitChars 10 (Nat.toDigits 10 n) 0 := by rw [h]
    _ = n := Nat.ofDigitChars_ten_toDigits

/-- The counter of a numbered key can be read off it. -/
theorem numbered_inj {m n : Nat} (h : numbered slug suffix m = numbered slug suffix n) : m = n := by
  have hend : ∀ (n : Nat) (cs : List Char),
      (cs ++ '-' :: (toString n).toList).rtakeWhile (fun c => !isSep c) = (toString n).toList := by
    intro n cs
    have hdigits : ∀ c ∈ (toString n).toList.reverse, (!isSep c) = true := by
      intro c hc
      rw [slugHead_not_sep (digits_chars n c (List.mem_reverse.1 hc))]
      rfl
    rw [List.rtakeWhile, List.reverse_append, List.reverse_cons, List.append_assoc,
      List.takeWhile_append_of_pos hdigits, List.singleton_append, List.takeWhile_cons_of_neg (by decide),
      List.append_nil, List.reverse_reverse]
  have hchars := congrArg String.toList h
  rw [numbered_chars, numbered_chars, ← List.cons_append, ← List.append_assoc, ← List.cons_append,
    ← List.append_assoc] at hchars
  have hread := congrArg (fun cs => List.rtakeWhile (fun c => !isSep c) cs) hchars
  simp only [hend] at hread
  apply toDigits_inj
  rw [← Nat.toList_repr, ← Nat.toList_repr]
  exact hread

/-- As many candidates as rounds may be taken, one more is free. -/
theorem firstFree_fresh {candidate : Nat → String} {rounds counter : Nat}
    (h : ∃ i ≤ rounds, candidate (counter + i) ∉ seen) :
    firstFree candidate seen rounds counter ∉ seen := by
  induction rounds generalizing counter with
  | zero =>
    obtain ⟨i, hi, hfree⟩ := h
    rw [Nat.le_zero.1 hi] at hfree
    exact hfree
  | succ rounds ih =>
    rw [firstFree]
    split
    · next htaken =>
      apply ih
      obtain ⟨i, hi, hfree⟩ := h
      cases i with
      | zero => exact absurd htaken hfree
      | succ i =>
        refine ⟨i, by omega, ?_⟩
        rwa [Nat.add_right_comm, Nat.add_assoc]
    · next hfree => exact hfree

/-- Of one more different candidate than are taken one is free. -/
theorem firstFree_not_mem {candidate : Nat → String}
    (hinj : ∀ m n, candidate m = candidate n → m = n) (counter : Nat) :
    firstFree candidate seen seen.length counter ∉ seen := by
  apply firstFree_fresh
  by_contra hall
  simp only [not_exists, not_and, not_not] at hall
  have hsub : (List.range (seen.length + 1)).map (fun i => candidate (counter + i)) ⊆ seen := by
    intro key hkey
    obtain ⟨i, hi, rfl⟩ := List.mem_map.1 hkey
    exact hall i (Nat.lt_succ_iff.1 (List.mem_range.1 hi))
  have hnodup : ((List.range (seen.length + 1)).map (fun i => candidate (counter + i))).Nodup := by
    apply List.nodup_range.map
    intro i j hij
    exact Nat.add_left_cancel (hinj _ _ hij)
  have hlen := (List.subperm_of_subset hnodup hsub).length_le
  rw [List.length_map, List.length_range] at hlen
  omega

/-- The key of a section is one that no earlier section has. -/
theorem resolveSlugCollision_fresh (x : Slugs) (slug text : String) (seen : List String) :
    resolveSlugCollision x slug text seen ∉ seen := by
  rw [resolveSlugCollision]
  split
  · next hfree => exact hfree
  · dsimp only
    split
    · next hfree => exact hfree
    · exact firstFree_not_mem (fun m n => numbered_inj) 2

theorem tidy_resolved (hslug : TidyKey slug.toList) (hne : slug.toList ≠ [])
    (hx : ∀ t, IsShortHash (x.shortHash t)) :
    TidyKey (resolveSlugCollision x slug text seen).toList ∨
      MAX_KEY_LENGTH ≤ (resolveSlugCollision x slug text seen).length := by
  have hhash := hx text
  have htidy : TidyKey (x.shortHash text).toList := tidy_of_heads hhash.digits
  have hlen : (x.shortHash text).toList.length = 6 := hhash.length
  have hsome : (x.shortHash text).toList ≠ [] := by
    intro hnil
    rw [hnil] at hlen
    cases hlen
  rw [resolveSlugCollision]
  split
  · exact .inl hslug
  · dsimp only
    split
    · rw [← String.length_toList, disambiguated_chars]
      exact capped_tidy hslug htidy hne hsome (by rw [hlen]; decide)
    · obtain ⟨n, hn⟩ := firstFree_candidate (numbered slug (x.shortHash text)) seen seen.length 2
      have hdigits : TidyKey (toString n).toList := tidy_of_heads (digits_chars n)
      have hnum : (toString n).toList ≠ [] := by
        rw [show (toString n).toList = Nat.toDigits 10 n from Nat.toList_repr]
        exact Nat.toDigits_ne_nil
      rw [hn, ← String.length_toList, numbered_chars]
      apply capped_tidy hslug (htidy.hyphen hdigits hsome hnum) hne
      · exact List.append_ne_nil_of_left_ne_nil hsome _
      · rw [List.length_append, List.length_cons, hlen, String.length_toList]
        omega

end Collision
end TappsBrain
