import Mathlib
import TappsBrain.Safety

namespace TappsBrain
set_option autoImplicit true
set_option relaxedAutoImplicit false

/-- How many characters of a text are no whitespace. -/
def ink (s : String) : Nat := s.toList.countP (fun c => !isSpace c)

theorem isSpace_of_isLineBreak {c : Char} (h : isLineBreak c = true) : isSpace c = true := by
  simp only [isLineBreak, isSpace, Bool.or_eq_true, Bool.and_eq_true, decide_eq_true_eq,
    beq_iff_eq] at h ⊢
  omega

section Split

/-- A character that does not open a two-character boundary. -/
theorem splitLineChars_other {c : Char} {line rest : List Char}
    (h : ∀ rest', c = '\r' → rest = '\n' :: rest' → False) :
    splitLineChars line (c :: rest) =
      if isLineBreak c then String.ofList line.reverse :: splitLineChars [] rest
      else splitLineChars (c :: line) rest := by
  rw [splitLineChars]
  exact h

theorem splitLineChars_cons {c : Char} (hc : c ≠ '\r') (line rest : List Char) :
    splitLineChars line (c :: rest) =
      if isLineBreak c then String.ofList line.reverse :: splitLineChars [] rest
      else splitLineChars (c :: line) rest :=
  splitLineChars_other (fun _ h _ => hc h)

theorem splitLineChars_return (line : List Char) {rest : List Char}
    (h : ∀ rest', rest ≠ '\n' :: rest') :
    splitLineChars line ('\r' :: rest) = String.ofList line.reverse :: splitLineChars [] rest := by
  rw [splitLineChars_other (fun rest' _ => h rest'), if_pos (by decide)]

theorem splitLineChars_feed (line rest : List Char) :
    splitLineChars line ('\n' :: rest) = String.ofList line.reverse :: splitLineChars [] rest := by
  rw [splitLineChars_cons (by decide), if_pos (by decide)]

/-- A line feed ends its line, whatever comes after it. -/
theorem splitLineChars_append (line xs ys : List Char) :
    splitLineChars line (xs ++ '\n' :: ys) =
      splitLineChars line (xs ++ ['\n']) ++ splitLineChars [] ys := by
  have hnil : ∀ line, splitLineChars line ([] ++ '\n' :: ys) =
      splitLineChars line ([] ++ ['\n']) ++ splitLineChars [] ys := by
    intro line
    rw [List.nil_append, List.nil_append, splitLineChars_feed, splitLineChars_feed]
    rfl
  induction line, xs using splitLineChars.induct with
  | case1 => exact hnil []
  | case2 line hline => exact hnil line
  | case3 line rest ih =>
    simp only [List.cons_append, splitLineChars, ih]
  | case4 line c rest hreturn hbreak ih =>
    by_cases hc : c = '\r'
    · subst hc
      cases rest with
      | nil => simp only [List.cons_append, List.nil_append, splitLineChars, ↓reduceIte]
      | cons d rest =>
        have hd : d ≠ '\n' := fun hd => hreturn rest rfl (by rw [hd])
        have hne : ∀ l rest', d :: rest ++ l ≠ '\n' :: rest' :=
          fun l rest' heq => hd (List.cons.inj heq).1
        change splitLineChars line ('\r' :: (d :: rest ++ '\n' :: ys)) =
          splitLineChars line ('\r' :: (d :: rest ++ ['\n'])) ++ splitLineChars [] ys
        rw [splitLineChars_return line (hne _), splitLineChars_return line (hne _), ih]
        rfl
    · rw [List.cons_append, List.cons_append, splitLineChars_cons hc, splitLineChars_cons hc,
        if_pos hbreak, if_pos hbreak, ih, List.cons_append]
  | case5 line c rest hreturn hbreak ih =>
    have hc : c ≠ '\r' := by
      rintro rfl
      exact hbreak (by decide)
    rw [List.cons_append, List.cons_append, splitLineChars_cons hc, splitLineChars_cons hc,
      if_neg hbreak, if_neg hbreak, ih]

theorem splitlines_append (x y : String) :
    splitlines (x ++ "\n" ++ y) = splitlines (x ++ "\n") ++ splitlines y := by
  have hfeed : "\n".toList = ['\n'] := rfl
  simp only [splitlines, String.toList_append, hfeed, List.append_assoc, List.singleton_append]
  exact splitLineChars_append [] x.toList y.toList

/-- The lines of some lines that are written one below the other. -/
theorem splitlines_unlines (lines : List String) (hne : lines ≠ []) :
    splitlines ("\n".intercalate lines ++ "\n") =
      lines.flatMap (fun line => splitlines (line ++ "\n")) := by
  induction lines with
  | nil => exact absurd rfl hne
  | cons line rest ih =>
    cases rest with
    | nil => rw [List.flatMap_cons, List.flatMap_nil, List.append_nil, String.intercalate_singleton]
    | cons next rest =>
      rw [List.flatMap_cons, ← ih (List.cons_ne_nil _ _), String.intercalate_cons_cons,
        String.append_assoc, splitlines_append]

theorem splitLineChars_unbroken {xs : List Char} (h : ∀ c ∈ xs, isLineBreak c = false)
    (line : List Char) :
    splitLineChars line (xs ++ ['\n']) = [String.ofList (line.reverse ++ xs)] := by
  induction xs generalizing line with
  | nil =>
    rw [List.nil_append, splitLineChars_feed, List.append_nil]
    rfl
  | cons c rest ih =>
    have hc : isLineBreak c = false := h c List.mem_cons_self
    have hne : c ≠ '\r' := by
      rintro rfl
      exact absurd hc (by decide)
    rw [List.cons_append, splitLineChars_cons hne, hc, if_neg Bool.false_ne_true,
      ih (fun d hd => h d (List.mem_cons_of_mem c hd)), List.reverse_cons, List.append_assoc,
      List.singleton_append]

/-- A text without line boundaries is one line. -/
theorem splitlines_unbroken {s : String} (h : ∀ c ∈ s.toList, isLineBreak c = false) :
    splitlines (s ++ "\n") = [s] := by
  have hfeed : "\n".toList = ['\n'] := rfl
  rw [splitlines, String.toList_append, hfeed, splitLineChars_unbroken h [], List.reverse_nil,
    List.nil_append, String.ofList_toList]

theorem mem_splitLineChars {line xs : List Char} (hline : ∀ c ∈ line, isLineBreak c = false)
    {s : String} (h : s ∈ splitLineChars line xs) : ∀ c ∈ s.toList, isLineBreak c = false := by
  have hrev : ∀ line : List Char, (∀ c ∈ line, isLineBreak c = false) →
      ∀ c ∈ (String.ofList line.reverse).toList, isLineBreak c = false := by
    intro line hline c hc
    rw [String.toList_ofList, List.mem_reverse] at hc
    exact hline c hc
  have hnone : ∀ c ∈ ([] : List Char), isLineBreak c = false := fun c hc => nomatch hc
  induction line, xs using splitLineChars.induct with
  | case1 => cases h
  | case2 line hne =>
    rw [splitLineChars, if_neg hne, List.mem_singleton] at h
    exact h ▸ hrev line hline
  | case3 line rest ih =>
    rw [splitLineChars] at h
    rcases List.mem_cons.1 h with rfl | h
    · exact hrev line hline
    · exact ih hnone h
  | case4 line c rest hreturn hbreak ih =>
    rw [splitLineChars_other hreturn, if_pos hbreak] at h
    rcases List.mem_cons.1 h with rfl | h
    · exact hrev line hline
    · exact ih hnone h
  | case5 line c rest hreturn hbreak ih =>
    rw [splitLineChars_other hreturn, if_neg hbreak] at h
    apply ih _ h
    intro d hd
    rcases List.mem_cons.1 hd with rfl | hd
    · exact Bool.eq_false_iff.2 hbreak
    · exact hline d hd

theorem ink_ofList (cs : List Char) : ink (String.ofList cs) = cs.countP (fun c => !isSpace c) := by
  rw [ink, String.toList_ofList]

theorem ink_splitLineChars (line xs : List Char) :
    ((splitLineChars line xs).map ink).sum =
      line.countP (fun c => !isSpace c) + xs.countP (fun c => !isSpace c) := by
  have hrev : ∀ line : List Char, ink (String.ofList line.reverse) =
      line.countP (fun c => !isSpace c) := by
    intro line
    rw [ink_ofList, List.countP_reverse]
  have hblank : ∀ c, isLineBreak c = true → (!isSpace c) = false := by
    intro c hc
    rw [isSpace_of_isLineBreak hc]
    rfl
  induction line, xs using splitLineChars.induct with
  | case1 => rfl
  | case2 line hne =>
    rw [splitLineChars, if_neg hne, List.map_singleton, List.sum_singleton, hrev, List.countP_nil,
      Nat.add_zero]
  | case3 line rest ih =>
    rw [splitLineChars, List.map_cons, List.sum_cons, hrev, ih, List.countP_nil, Nat.zero_add]
    rfl
  | case4 line c rest hreturn hbreak ih =>
    rw [splitLineChars_other hreturn, if_pos hbreak, List.map_cons, List.sum_cons, hrev, ih,
      List.countP_nil, Nat.zero_add, List.countP_cons_of_neg]
    rw [hblank c hbreak]
    exact Bool.false_ne_true
  | case5 line c rest hreturn hbreak ih =>
    rw [splitLineChars_other hreturn, if_neg hbreak, ih, List.countP_cons, List.countP_cons]
    omega

/-- Splitting into lines loses no character but whitespace. -/
theorem ink_splitlines (s : String) : ((splitlines s).map ink).sum = ink s := by
  rw [splitlines, ink_splitLineChars, List.countP_nil, Nat.zero_add, ink]

theorem mem_splitlines {s line : String} (h : line ∈ splitlines s) :
    ∀ c ∈ line.toList, isLineBreak c = false := by
  have hnone : ∀ c ∈ ([] : List Char), isLineBreak c = false := fun c hc => nomatch hc
  exact mem_splitLineChars hnone h

theorem splitLineChars_ne_nil {line xs : List Char} (h : line ≠ [] ∨ xs ≠ []) :
    splitLineChars line xs ≠ [] := by
  induction line, xs using splitLineChars.induct with
  | case1 => exact (h.elim (absurd rfl) (absurd rfl))
  | case2 line hne =>
    rw [splitLineChars, if_neg hne]
    exact List.cons_ne_nil _ _
  | case3 line rest ih =>
    rw [splitLineChars]
    exact List.cons_ne_nil _ _
  | case4 line c rest hreturn hbreak ih =>
    rw [splitLineChars_other hreturn, if_pos hbreak]
    exact List.cons_ne_nil _ _
  | case5 line c rest hreturn hbreak ih =>
    rw [splitLineChars_other hreturn, if_neg hbreak]
    exact ih (.inl (List.cons_ne_nil _ _))

theorem join_splitLineChars {xs : List Char} (h : ∀ c ∈ xs, isLineBreak c = true → c = '\n')
    (line : List Char) :
    "\n".intercalate (splitLineChars line (xs ++ ['\n'])) = String.ofList (line.reverse ++ xs) := by
  induction xs generalizing line with
  | nil =>
    rw [List.nil_append, splitLineChars_feed, List.append_nil]
    exact String.intercalate_singleton
  | cons c rest ih =>
    have hrest : ∀ d ∈ rest, isLineBreak d = true → d = '\n' :=
      fun d hd => h d (List.mem_cons_of_mem c hd)
    have hc := h c List.mem_cons_self
    have hne : c ≠ '\r' := by
      rintro rfl
      exact absurd (hc (by decide)) (by decide)
    rw [List.cons_append, splitLineChars_cons hne]
    split
    · next hbreak =>
      have heq := hc hbreak
      subst heq
      have hmore : splitLineChars [] (rest ++ ['\n']) ≠ [] :=
        splitLineChars_ne_nil (.inr (List.append_ne_nil_of_right_ne_nil _ (List.cons_ne_nil _ _)))
      rw [String.intercalate_cons_of_ne_nil hmore, ih hrest]
      apply String.toList_inj.1
      simp
    · rw [ih hrest, List.reverse_cons, List.append_assoc, List.singleton_append]

/-- The lines of a text whose only line boundaries are line feeds give it back. -/
theorem join_splitlines {s : String} (h : ∀ c ∈ s.toList, isLineBreak c = true → c = '\n') :
    "\n".intercalate (splitlines (s ++ "\n")) = s := by
  have hfeed : "\n".toList = ['\n'] := rfl
  rw [splitlines, String.toList_append, hfeed, join_splitLineChars h [], List.reverse_nil,
    List.nil_append, String.ofList_toList]

end Split

section Strip

theorem stripChars_rdrop (cs : List Char) :
    stripChars cs = (cs.dropWhile isSpace).rdropWhile isSpace := rfl

theorem stripChars_stripChars (cs : List Char) : stripChars (stripChars cs) = stripChars cs := by
  have hleft : ((cs.dropWhile isSpace).rdropWhile isSpace).dropWhile isSpace =
      (cs.dropWhile isSpace).rdropWhile isSpace := by
    rw [List.dropWhile_eq_self_iff]
    intro hlen
    have hpre := List.rdropWhile_prefix isSpace (l := cs.dropWhile isSpace)
    have hhead := List.IsPrefix.getElem hpre hlen
    rw [hhead]
    exact List.dropWhile_get_zero_not isSpace cs (Nat.lt_of_lt_of_le hlen hpre.length_le)
  rw [stripChars_rdrop, stripChars_rdrop, hleft, List.rdropWhile_idempotent]

theorem strip_strip (s : String) : strip (strip s) = strip s := by
  rw [strip, strip, String.toList_ofList, stripChars_stripChars]

/-- What is stripped is whitespace. -/
theorem stripChars_spec (cs : List Char) : ∃ before after : List Char,
    (∀ c ∈ before, isSpace c = true) ∧ (∀ c ∈ after, isSpace c = true) ∧
      cs = before ++ stripChars cs ++ after := by
  refine ⟨cs.takeWhile isSpace, (cs.dropWhile isSpace).rtakeWhile isSpace, ?_, ?_, ?_⟩
  · exact fun c hc => List.mem_takeWhile_imp hc
  · exact fun c hc => List.mem_rtakeWhile_imp hc
  · rw [stripChars_rdrop, List.append_assoc, List.rdropWhile_append_rtakeWhile,
      List.takeWhile_append_dropWhile]

theorem mem_of_mem_stripChars {c : Char} {cs : List Char} (h : c ∈ stripChars cs) : c ∈ cs := by
  obtain ⟨before, after, -, -, heq⟩ := stripChars_spec cs
  rw [heq]
  exact List.mem_append_left _ (List.mem_append_right _ h)

/-- Whitespace around a text is stripped with it. -/
theorem stripChars_padded {before after : List Char} (hbefore : ∀ c ∈ before, isSpace c = true)
    (hafter : ∀ c ∈ after, isSpace c = true) (cs : List Char) :
    stripChars (before ++ cs ++ after) = stripChars cs := by
  have hright : ∀ l : List Char, (l ++ after).rdropWhile isSpace = l.rdropWhile isSpace := by
    intro l
    have hrev : ∀ c ∈ after.reverse, isSpace c = true := fun c hc => hafter c (List.mem_reverse.1 hc)
    rw [List.rdropWhile, List.reverse_append, List.dropWhile_append_of_pos hrev, List.rdropWhile]
  rw [stripChars_rdrop, List.append_assoc, List.dropWhile_append_of_pos hbefore,
    List.dropWhile_append]
  split
  · next hnone =>
    have hcs : cs.dropWhile isSpace = [] := List.isEmpty_iff.1 hnone
    have hend : after.dropWhile isSpace = [] := List.dropWhile_eq_nil_iff.2 hafter
    rw [hend, stripChars_rdrop, hcs]
  · rw [hright, stripChars_rdrop]

/-- A text that begins and ends with other characters than whitespace is stripped already. -/
theorem stripChars_of_ends {c d : Char} {cs : List Char} (hc : isSpace c = false)
    (hd : isSpace d = false) (hlast : (c :: cs).getLast? = some d) :
    stripChars (c :: cs) = c :: cs := by
  rw [stripChars_rdrop, List.dropWhile_cons_of_neg (by rw [hc]; decide), List.rdropWhile_eq_self_iff]
  intro hne
  have hget : (c :: cs).getLast hne = d := by
    rw [List.getLast?_eq_some_getLast hne] at hlast
    exact Option.some.inj hlast
  rw [hget, hd]
  decide

theorem ink_strip (s : String) : ink (strip s) = ink s := by
  obtain ⟨before, after, hbefore, hafter, heq⟩ := stripChars_spec s.toList
  have hnone : ∀ l : List Char, (∀ c ∈ l, isSpace c = true) → l.countP (fun c => !isSpace c) = 0 := by
    intro l hl
    rw [List.countP_eq_zero]
    intro c hc
    rw [hl c hc]
    decide
  rw [strip, ink_ofList, ink, heq, List.countP_append, List.countP_append, hnone _ hbefore,
    hnone _ hafter, ← heq]
  omega

theorem strip_framed {lines : List String} (hne : lines ≠ []) :
    strip ("\n".intercalate ("" :: (lines ++ [""]))) = strip ("\n".intercalate lines) := by
  have hframe : ("\n".intercalate ("" :: (lines ++ [""]))).toList =
      ['\n'] ++ ("\n".intercalate lines).toList ++ ['\n'] := by
    rw [String.intercalate_cons_of_ne_nil (List.append_ne_nil_of_left_ne_nil hne _),
      String.intercalate_append_of_ne_nil hne (List.cons_ne_nil _ _), String.intercalate_singleton]
    have hempty : "".toList = [] := rfl
    have hfeed : "\n".toList = ['\n'] := rfl
    simp only [String.toList_append, hempty, hfeed, List.append_nil, List.nil_append,
      List.append_assoc]
  have hfeed : ∀ c ∈ ['\n'], isSpace c = true := by
    intro c hc
    rw [List.mem_singleton.1 hc]
    decide
  rw [strip, hframe, stripChars_padded hfeed hfeed, strip]

theorem ink_intercalate (lines : List String) :
    ink ("\n".intercalate lines) = (lines.map ink).sum := by
  have happend : ∀ s t, ink (s ++ t) = ink s + ink t := by
    intro s t
    rw [ink, String.toList_append, List.countP_append, ink, ink]
  induction lines with
  | nil => rfl
  | cons line rest ih =>
    cases rest with
    | nil => rw [String.intercalate_singleton, List.map_singleton, List.sum_singleton]
    | cons next rest =>
      have hfeed : ink "\n" = 0 := by decide
      rw [String.intercalate_cons_cons, happend, happend, ih, hfeed, Nat.add_zero]
      rfl

end Strip
end TappsBrain
