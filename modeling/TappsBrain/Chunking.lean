import TappsBrain.Lines

namespace TappsBrain.Chunking
set_option autoImplicit true
set_option relaxedAutoImplicit false

def replaceCrLf : List Char → List Char
  | '\r' :: '\n' :: rest => '\n' :: replaceCrLf rest
  | c :: rest => c :: replaceCrLf rest
  | [] => []

/-- `text.replace("\r\n", "\n").replace("\r", "\n")`. -/
def normalizeBreaks (cs : List Char) : List Char :=
  (replaceCrLf cs).map (fun c => if c = '\r' then '\n' else c)

/-- How far `\n\s*\n` matches from here on: to the last line feed of the whitespace. -/
def blankLineLength : List Char → Nat
  | '\n' :: rest =>
    let upto := (rest.takeWhile isSpace).rdropWhile (· ≠ '\n')
    if upto = [] then 0 else upto.length + 1
  | _ => 0

/-- `re.split(r"\n\s*\n", ...)`, with the rest of a separator to pass over and the paragraph
read so far. -/
def splitParagraphs : Nat → List Char → List Char → List (List Char)
  | _, para, [] => [para]
  | 0, para, c :: rest =>
    match blankLineLength (c :: rest) with
    | 0 => splitParagraphs 0 (para ++ [c]) rest
    | n + 1 => para :: splitParagraphs n [] rest
  | n + 1, para, _ :: rest => splitParagraphs n para rest

def paragraphsOf (text : List Char) : List (List Char) :=
  ((splitParagraphs 0 [] (normalizeBreaks text)).map stripChars).filter (· ≠ [])

/-- `window.rfind(c)`, with -1 for a character that is absent. -/
def rfind (c : Char) (window : List Char) : ℤ :=
  (window.rdropWhile (· ≠ c)).length - 1

/-- The window that the next turn of the hard split takes off `rest`. -/
def splitWindow (size : Nat) (rest : List Char) : List Char :=
  let window := rest.take size
  let cut := rfind ' ' window
  if size < rest.length ∧ (size / 2 : Nat) < cut then window.take cut.toNat else window

/-- The hard split of `para[start:]`; `none` when the fuel does not reach the end. -/
def hardSplit (size : Nat) : Nat → List Char → Option (List (List Char))
  | _, [] => some []
  | 0, _ :: _ => none
  | fuel + 1, c :: rest =>
    let window := splitWindow size (c :: rest)
    let next := ((c :: rest).drop window.length).dropWhile (· = ' ')
    (hardSplit size fuel next).map (stripChars window :: ·)

def piecesOf (fuel size : Nat) (para : List Char) : Option (List (List Char)) :=
  if para.length ≤ size then some [para] else hardSplit size fuel para

/-- One turn of the packing loop over `chunks` and `buf`. -/
def packStep (size : Nat) (chunks : List (List Char)) (buf piece : List Char) :
    List (List Char) × List Char :=
  if buf = [] then (chunks, piece)
  else if buf.length + 2 + piece.length ≤ size then (chunks, buf ++ ['\n', '\n'] ++ piece)
  else (chunks ++ [buf], piece)

def packPieces (size maxChunks : Nat) :
    List (List Char) → List (List Char) → List Char → List (List Char)
  | [], chunks, buf =>
    if buf ≠ [] ∧ chunks.length < maxChunks then chunks ++ [buf] else chunks
  | piece :: rest, chunks, buf =>
    let st := packStep size chunks buf piece
    if maxChunks ≤ st.1.length then st.1 else packPieces size maxChunks rest st.1 st.2

/-- `chunk_text`; `none` when the fuel is too short for the hard split. -/
def chunkText (fuel : Nat) (text : String) (chunkChars maxChunks : ℤ) : Option (List String) :=
  if chunkChars < 1 ∨ maxChunks < 1 then some []
  else
    ((paragraphsOf text.toList).mapM (piecesOf fuel chunkChars.toNat)).map (fun pieces =>
      (packPieces chunkChars.toNat maxChunks.toNat pieces.flatten [] []).map String.ofList)

/-- A text without its whitespace. -/
def inked (cs : List Char) : List Char := cs.filter (fun c => !isSpace c)

@[simp] theorem inked_nil : inked [] = [] := rfl

@[simp] theorem inked_append (cs ds : List Char) : inked (cs ++ ds) = inked cs ++ inked ds :=
  List.filter_append ..

theorem inked_of_space {cs : List Char} (h : ∀ c ∈ cs, isSpace c = true) : inked cs = [] := by
  apply List.filter_eq_nil_iff.mpr
  intro c hc
  rw [h c hc]
  decide

theorem inked_cons_space (h : isSpace c = true) (cs : List Char) : inked (c :: cs) = inked cs := by
  simp [inked, h]

theorem inked_stripChars (cs : List Char) : inked (stripChars cs) = inked cs := by
  obtain ⟨before, after, hbefore, hafter, heq⟩ := stripChars_spec cs
  conv_rhs => rw [heq]
  rw [inked_append, inked_append, inked_of_space hbefore, inked_of_space hafter,
    List.nil_append, List.append_nil]

theorem stripChars_length_le (cs : List Char) : (stripChars cs).length ≤ cs.length := by
  obtain ⟨before, after, -, -, heq⟩ := stripChars_spec cs
  have hlength := congrArg List.length heq
  simp only [List.length_append] at hlength
  omega

section Paragraphs

theorem inked_replaceCrLf (cs : List Char) : inked (replaceCrLf cs) = inked cs := by
  induction cs using replaceCrLf.induct with
  | case1 rest ih =>
    have hcr : isSpace '\r' = true := by decide
    have hlf : isSpace '\n' = true := by decide
    rw [replaceCrLf, inked_cons_space hlf, ih, inked_cons_space hcr, inked_cons_space hlf]
  | case2 c rest hne ih =>
    rw [replaceCrLf]
    · simp only [inked, List.filter_cons] at ih ⊢
      rw [ih]
    · exact hne
  | case3 => rfl

theorem inked_normalizeBreaks (cs : List Char) : inked (normalizeBreaks cs) = inked cs := by
  have hmap : ∀ ds : List Char,
      inked (ds.map (fun c => if c = '\r' then '\n' else c)) = inked ds := by
    intro ds
    induction ds with
    | nil => rfl
    | cons c ds ih =>
      rw [List.map_cons]
      by_cases hc : c = '\r'
      · have hcr : isSpace '\r' = true := by decide
        have hlf : isSpace '\n' = true := by decide
        rw [if_pos hc, hc, inked_cons_space hlf, inked_cons_space hcr, ih]
      · rw [if_neg hc]
        simp only [inked, List.filter_cons] at ih ⊢
        rw [ih]
  rw [normalizeBreaks, hmap, inked_replaceCrLf]

/-- A separator is whitespace. -/
theorem inked_take_blankLineLength (cs : List Char) :
    inked (cs.take (blankLineLength cs)) = [] := by
  apply inked_of_space
  unfold blankLineLength
  split
  · next rest =>
    dsimp only
    split
    · simp
    · intro c hc
      rw [List.take_succ_cons] at hc
      cases hc with
      | head => decide
      | tail _ hc =>
        have hpre : (rest.takeWhile isSpace).rdropWhile (· ≠ '\n') <+: rest :=
          (List.rdropWhile_prefix _ _).trans (List.takeWhile_prefix _)
        rw [← List.prefix_iff_eq_take.mp hpre] at hc
        have hrun := (List.rdropWhile_prefix (· ≠ '\n') _).subset hc
        exact List.mem_takeWhile_imp hrun
  · simp

theorem inked_splitParagraphs (skip : Nat) (para cs : List Char) :
    inked (splitParagraphs skip para cs).flatten = inked para ++ inked (cs.drop skip) := by
  induction cs generalizing skip para with
  | nil => cases skip <;> simp [splitParagraphs]
  | cons c rest ih =>
    cases skip with
    | zero =>
      rw [splitParagraphs]
      have hblank := inked_take_blankLineLength (c :: rest)
      split
      · rw [ih]
        simp only [inked_append, List.drop_zero, List.append_assoc]
        rw [← inked_append]
        rfl
      · next n hn =>
        rw [hn] at hblank
        rw [List.flatten_cons, inked_append, ih]
        have hsplit : c :: rest = (c :: rest).take (n + 1) ++ rest.drop n := by
          rw [← List.drop_succ_cons (a := c), List.take_append_drop]
        rw [List.drop_zero, hsplit, inked_append, hblank]
        rfl
    | succ n =>
      rw [splitParagraphs, ih, List.drop_succ_cons]

theorem inked_paragraphsOf (text : List Char) :
    inked (paragraphsOf text).flatten = inked text := by
  have hstrip : ∀ paras : List (List Char),
      inked ((paras.map stripChars).filter (· ≠ [])).flatten = inked paras.flatten := by
    intro paras
    induction paras with
    | nil => rfl
    | cons para paras ih =>
      rw [List.map_cons, List.flatten_cons, inked_append, ← inked_stripChars para]
      by_cases hempty : stripChars para = []
      · rw [List.filter_cons_of_neg (by simpa using hempty), ih, hempty]
        rfl
      · rw [List.filter_cons_of_pos (by simpa using hempty), List.flatten_cons, inked_append, ih]
  rw [paragraphsOf, hstrip, inked_splitParagraphs, List.drop_zero, inked_normalizeBreaks]
  rfl

end Paragraphs
section Pieces
variable {size fuel : Nat} {rest para : List Char} {c : Char}

/-- A window is a part of what is left, no longer than the chunk size and never empty. -/
theorem splitWindow_spec (hsize : 0 < size) (hrest : rest ≠ []) :
    splitWindow size rest <+: rest ∧ (splitWindow size rest).length ≤ size ∧
      0 < (splitWindow size rest).length := by
  have hlength := List.length_pos_of_ne_nil hrest
  unfold splitWindow
  dsimp only
  split
  · next h =>
    have hcut := h.2
    have hlong := List.length_take_of_le (Nat.le_of_lt h.1)
    have hrdrop := (List.rdropWhile_prefix (· ≠ ' ') (rest.take size)).length_le
    unfold rfind at hcut ⊢
    refine ⟨(List.take_prefix _ _).trans (List.take_prefix _ _), ?_, ?_⟩
    · rw [List.length_take]
      omega
    · rw [List.length_take]
      omega
  · refine ⟨List.take_prefix _ _, List.length_take_le _ _, ?_⟩
    rw [List.length_take]
    omega

theorem inked_dropWhile_blank (cs : List Char) : inked (cs.dropWhile (· = ' ')) = inked cs := by
  have hblank : ∀ c ∈ cs.takeWhile (· = ' '), isSpace c = true := by
    intro c hc
    have hc := List.mem_takeWhile_imp hc
    rw [of_decide_eq_true hc]
    decide
  conv_rhs => rw [← List.takeWhile_append_dropWhile (p := (· = ' ')) (l := cs)]
  rw [inked_append, inked_of_space hblank, List.nil_append]

/-- The pieces of a text: none too long, and all the text in them. -/
def PiecesOf (size : Nat) (text : List Char) (pieces : List (List Char)) : Prop :=
  (∀ p ∈ pieces, p.length ≤ size) ∧ inked pieces.flatten = inked text

/-- Every turn of the hard split takes a character off, so the fuel of one for each suffices. -/
theorem hardSplit_pieces (hsize : 0 < size) (hfuel : rest.length ≤ fuel) :
    ∃ pieces, hardSplit size fuel rest = some pieces ∧ PiecesOf size rest pieces := by
  induction fuel generalizing rest with
  | zero =>
    rw [List.eq_nil_of_length_eq_zero (Nat.le_zero.mp hfuel)]
    exact ⟨[], rfl, by simp, rfl⟩
  | succ fuel ih =>
    cases rest with
    | nil => exact ⟨[], rfl, by simp, rfl⟩
    | cons c rest =>
      obtain ⟨hpre, hlong, hpos⟩ := splitWindow_spec hsize (List.cons_ne_nil c rest)
      rw [hardSplit]
      generalize splitWindow size (c :: rest) = window at hpre hlong hpos ⊢
      obtain ⟨tail, htail⟩ := hpre
      rw [← htail, List.drop_left]
      have hless : (tail.dropWhile (· = ' ')).length ≤ fuel := by
        have hdrop := (List.dropWhile_suffix (· = ' ') (l := tail)).length_le
        have htotal := congrArg List.length htail
        rw [List.length_append] at htotal
        omega
      obtain ⟨pieces, hpieces, hshort, hinked⟩ := ih hless
      rw [hpieces]
      refine ⟨stripChars window :: pieces, rfl, ?_, ?_⟩
      · intro p hp
        cases hp with
        | head => exact (stripChars_length_le window).trans hlong
        | tail _ hp => exact hshort p hp
      · rw [List.flatten_cons, inked_append, inked_stripChars, hinked, inked_dropWhile_blank,
          inked_append]

theorem piecesOf_pieces (hsize : 0 < size) (hfuel : para.length ≤ fuel) :
    ∃ pieces, piecesOf fuel size para = some pieces ∧ PiecesOf size para pieces := by
  unfold piecesOf
  split
  · next hshort =>
    refine ⟨[para], rfl, ?_, ?_⟩
    · intro p hp
      rw [List.mem_singleton.mp hp]
      exact hshort
    · rw [List.flatten_singleton]
  · exact hardSplit_pieces hsize hfuel

theorem mapM_piecesOf (hsize : 0 < size) {paras : List (List Char)}
    (hfuel : ∀ para ∈ paras, para.length ≤ fuel) :
    ∃ pieces, paras.mapM (piecesOf fuel size) = some pieces ∧
      PiecesOf size paras.flatten pieces.flatten := by
  induction paras with
  | nil => exact ⟨[], rfl, by simp, rfl⟩
  | cons para paras ih =>
    obtain ⟨first, hfirst, hshort, hinked⟩ :=
      piecesOf_pieces hsize (hfuel para List.mem_cons_self)
    obtain ⟨pieces, hpieces, hshort', hinked'⟩ :=
      ih (fun p hp => hfuel p (List.mem_cons_of_mem _ hp))
    rw [List.mapM_cons, hfirst, hpieces]
    refine ⟨first :: pieces, rfl, ?_, ?_⟩
    · intro p hp
      rw [List.flatten_cons] at hp
      rcases List.mem_append.mp hp with hp | hp
      · exact hshort p hp
      · exact hshort' p hp
    · rw [List.flatten_cons, List.flatten_append, List.flatten_cons, inked_append, inked_append,
        hinked, hinked']

/-- A paragraph is no longer than the text. -/
theorem length_of_mem_paragraphsOf {text : List Char} (h : para ∈ paragraphsOf text) :
    para.length ≤ text.length := by
  have hsplit : ∀ (skip : Nat) (start cs : List Char), ∀ p ∈ splitParagraphs skip start cs,
      p.length ≤ start.length + cs.length := by
    intro skip start cs
    induction cs generalizing skip start with
    | nil => cases skip <;> simp [splitParagraphs]
    | cons c rest ih =>
      intro p hp
      cases skip with
      | zero =>
        rw [splitParagraphs] at hp
        split at hp
        · have hlength := ih 0 (start ++ [c]) p hp
          simp only [List.length_append, List.length_cons, List.length_nil] at hlength ⊢
          omega
        · cases hp with
          | head => omega
          | tail _ hp =>
            have hlength := ih _ [] p hp
            simp only [List.length_nil, List.length_cons] at hlength ⊢
            omega
      | succ n =>
        rw [splitParagraphs] at hp
        have hlength := ih n start p hp
        rw [List.length_cons]
        omega
  have hbreaks : ∀ cs : List Char, (replaceCrLf cs).length ≤ cs.length := by
    intro cs
    induction cs using replaceCrLf.induct with
    | case1 rest ih =>
      rw [replaceCrLf]
      simp only [List.length_cons]
      omega
    | case2 c rest hne ih =>
      rw [replaceCrLf]
      · simp only [List.length_cons]
        omega
      · exact hne
    | case3 => exact Nat.le_refl _
  obtain ⟨p, hp, rfl⟩ := List.mem_map.mp (List.mem_of_mem_filter h)
  have hlength := hsplit 0 [] _ p hp
  have htext := hbreaks text
  have hstrip := stripChars_length_le p
  simp only [normalizeBreaks, List.length_map, List.length_nil] at hlength
  omega

end Pieces
section Pack
variable {size maxChunks : Nat} {chunks pieces rest : List (List Char)} {buf piece : List Char}

/-- Chunks that may be returned. -/
def ChunksFit (size : Nat) (chunks : List (List Char)) : Prop :=
  ∀ chunk ∈ chunks, chunk ≠ [] ∧ chunk.length ≤ size

theorem ChunksFit.push (h : ChunksFit size chunks) (hbuf : buf ≠ []) (hsize : buf.length ≤ size) :
    ChunksFit size (chunks ++ [buf]) := by
  intro chunk hchunk
  rcases List.mem_append.mp hchunk with hchunk | hchunk
  · exact h chunk hchunk
  · rw [List.mem_singleton.mp hchunk]
    exact ⟨hbuf, hsize⟩

theorem packStep_fits (h : ChunksFit size chunks) (hbuf : buf.length ≤ size)
    (hpiece : piece.length ≤ size) :
    let st := packStep size chunks buf piece
    ChunksFit size st.1 ∧ st.2.length ≤ size ∧ st.1.length ≤ chunks.length + 1 ∧
      inked (st.1.flatten ++ st.2) = inked (chunks.flatten ++ buf ++ piece) := by
  have hfeed : isSpace '\n' = true := by decide
  unfold packStep
  split
  · next hempty =>
    rw [hempty, List.append_nil]
    exact ⟨h, hpiece, Nat.le_succ _, rfl⟩
  next hne =>
  split
  · next hroom =>
    refine ⟨h, ?_, Nat.le_succ _, ?_⟩
    · simp only [List.length_append, List.length_cons, List.length_nil]
      omega
    · simp [inked_cons_space hfeed]
  · refine ⟨h.push hne hbuf, hpiece, ?_, ?_⟩
    · simp
    · simp

/-- Chunks that fit and cover a text, all of it unless they reach the cap. -/
structure Covers (size maxChunks : Nat) (text : List Char) (chunks : List (List Char)) : Prop where
  fit : ChunksFit size chunks
  capped : chunks.length ≤ maxChunks
  start : inked chunks.flatten <+: inked text
  whole : chunks.length < maxChunks → inked chunks.flatten = inked text

theorem Covers.of_inked {text text' : List Char} (heq : inked text = inked text')
    (h : Covers size maxChunks text' chunks) : Covers size maxChunks text chunks := by
  apply Covers.mk h.fit h.capped
  · rw [heq]
    exact h.start
  · rw [heq]
    exact h.whole

theorem packPieces_covers (h : ChunksFit size chunks) (hbuf : buf.length ≤ size)
    (hpieces : ∀ p ∈ pieces, p.length ≤ size) (hroom : chunks.length < maxChunks) :
    Covers size maxChunks (chunks.flatten ++ buf ++ pieces.flatten)
      (packPieces size maxChunks pieces chunks buf) := by
  induction pieces generalizing chunks buf with
  | nil =>
    rw [packPieces, List.flatten_nil, List.append_nil]
    by_cases hne : buf = []
    · rw [if_neg (fun hboth => hboth.1 hne), hne, List.append_nil]
      exact ⟨h, Nat.le_of_lt hroom, List.prefix_rfl, fun _ => rfl⟩
    · rw [if_pos ⟨hne, hroom⟩]
      have hflat : chunks.flatten ++ buf = (chunks ++ [buf]).flatten := by simp
      rw [hflat]
      apply Covers.mk (h.push hne hbuf) _ List.prefix_rfl (fun _ => rfl)
      rw [List.length_append, List.length_singleton]
      exact hroom
  | cons piece rest ih =>
    obtain ⟨hfit, hbuf', hgrow, hinked⟩ := packStep_fits h hbuf (hpieces piece List.mem_cons_self)
    rw [packPieces]
    generalize packStep size chunks buf piece = st at hfit hbuf' hgrow hinked ⊢
    have htotal : inked (chunks.flatten ++ buf ++ (piece :: rest).flatten) =
        inked (st.1.flatten ++ st.2 ++ rest.flatten) := by
      rw [inked_append _ rest.flatten, hinked, ← inked_append, List.flatten_cons,
        List.append_assoc _ piece]
    apply Covers.of_inked htotal
    by_cases hfull : maxChunks ≤ st.1.length
    · rw [if_pos hfull]
      apply Covers.mk hfit (by omega) _ (fun hless => absurd hfull (Nat.not_le_of_lt hless))
      rw [List.append_assoc, inked_append]
      exact List.prefix_append _ _
    · rw [if_neg hfull]
      exact ih hfit hbuf' (fun p hp => hpieces p (List.mem_cons_of_mem _ hp))
        (Nat.lt_of_not_le hfull)

/-- Chunking loses no text but whitespace, short of the cap. -/
theorem chunkText_covers (text : String) {fuel : Nat} {chunkChars maxChunks : ℤ}
    (hsize : 1 ≤ chunkChars) (hmax : 1 ≤ maxChunks) (hfuel : text.length ≤ fuel) :
    ∃ chunks, chunkText fuel text chunkChars maxChunks = some chunks ∧
      Covers chunkChars.toNat maxChunks.toNat text.toList (chunks.map String.toList) := by
  have hshort : ∀ para ∈ paragraphsOf text.toList, para.length ≤ fuel := by
    intro para hpara
    have hlength := length_of_mem_paragraphsOf hpara
    rw [String.length_toList] at hlength
    exact hlength.trans hfuel
  obtain ⟨pieces, hpieces, hfit, hinked⟩ := mapM_piecesOf
    (show 0 < chunkChars.toNat by omega) hshort
  unfold chunkText
  rw [if_neg (by omega), hpieces]
  refine ⟨_, rfl, ?_⟩
  rw [List.map_map]
  have hback : String.toList ∘ String.ofList = id := funext (fun _ => String.toList_ofList)
  rw [hback, List.map_id]
  have hcovers : Covers chunkChars.toNat maxChunks.toNat ([].flatten ++ [] ++ pieces.flatten.flatten)
      (packPieces chunkChars.toNat maxChunks.toNat pieces.flatten [] []) :=
    packPieces_covers (by simp [ChunksFit]) (Nat.zero_le _) hfit (by
      rw [List.length_nil]
      omega)
  apply Covers.of_inked _ hcovers
  rw [List.flatten_nil, List.nil_append, List.nil_append, hinked, inked_paragraphsOf]

/-- A run of tabs at a window's end leaves an empty piece, and the cap cuts the text. -/
theorem chunkText_covers_tabs :
    Covers 5 2 "a\t\t\t\t\t\t\t\t\t\t\tbb cc dd".toList ["a\n\n".toList, "bb".toList] := by
  have hrun : chunkText 20 "a\t\t\t\t\t\t\t\t\t\t\tbb cc dd" 5 2 = some ["a\n\n", "bb"] := by
    decide +kernel
  obtain ⟨chunks, hchunks, hcovers⟩ := chunkText_covers "a\t\t\t\t\t\t\t\t\t\t\tbb cc dd"
    (show (1 : ℤ) ≤ 5 by decide) (show (1 : ℤ) ≤ 2 by decide)
    (show "a\t\t\t\t\t\t\t\t\t\t\tbb cc dd".length ≤ 20 by decide +kernel)
  rw [hrun] at hchunks
  rw [← Option.some_inj.mp hchunks] at hcovers
  exact hcovers

end Pack
end TappsBrain.Chunking
