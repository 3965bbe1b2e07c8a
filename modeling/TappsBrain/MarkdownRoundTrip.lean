import Mathlib
import TappsBrain.Config
import TappsBrain.MarkdownKeys

namespace TappsBrain
set_option autoImplicit true
set_option relaxedAutoImplicit false

/-- The scan takes the line for structure. -/
def isMarkup (line : String) : Bool := isComment line || (headingOf line).isSome

/-- The lines a text is written on. -/
def writtenLines (s : String) : List String := splitlines (s ++ "\n")

/-- A text that is read back as it is written: its line boundaries are line feeds, and no line of it
is a heading or a comment. -/
structure PlainText (s : String) : Prop where
  nonempty : s ≠ ""
  feeds : ∀ c ∈ s.toList, isLineBreak c = true → c = '\n'
  unmarked : ∀ line ∈ writtenLines s, isMarkup line = false

/-- The sections and slugs once the section in progress is flushed. -/
def SectionScan.done (x : Slugs) (p : SectionScan) : List String × List MarkdownSection :=
  ((p.flush x).seenSlugs, (p.flush x).sections)

/-- A section is added under the key it resolves to. -/
def record (x : Slugs) (d : List String × List MarkdownSection) (p : MemoryTier × MemoryEntry) :
    List String × List MarkdownSection :=
  let key := resolveSlugCollision x (slugify x.unicode p.2.key) p.2.key d.1
  (key :: d.1, d.2 ++ [(key, strip p.2.value, p.1)])

section Scan
variable {x : Slugs} {p : SectionScan}

theorem step_plain {line : String} (h : isMarkup line = false) :
    p.step x line = { p with bodyLines := p.bodyLines ++ [line] } := by
  rw [isMarkup, Bool.or_eq_false_iff, Option.isSome_eq_false_iff, Option.isNone_iff_eq_none] at h
  rw [SectionScan.step, h.1, h.2]
  rfl

theorem foldl_plain {lines : List String} (h : ∀ line ∈ lines, isMarkup line = false) :
    lines.foldl (SectionScan.step x) p = { p with bodyLines := p.bodyLines ++ lines } := by
  induction lines generalizing p with
  | nil => rw [List.foldl_nil, List.append_nil]
  | cons line rest ih =>
    have hrest : ∀ l ∈ rest, isMarkup l = false := fun l hl => h l (List.mem_cons_of_mem line hl)
    rw [List.foldl_cons, step_plain (h line List.mem_cons_self), ih hrest, List.append_assoc,
      List.singleton_append]

end Scan

section Heading
variable {key : String}

/-- The number of hashes of a tier's heading. -/
def headingLevel : MemoryTier → Nat
  | .architectural => 2
  | .pattern => 3
  | .procedural => 4
  | _ => 5

theorem tierHeading_eq (t : MemoryTier) :
    (tierHeading t).toList = List.replicate (headingLevel t) '#' := by
  cases t <;> rfl

theorem tierFromHeadingLevel_headingLevel {t : MemoryTier} (h : t ∈ TIER_ORDER) :
    tierFromHeadingLevel (headingLevel t) = t := by
  cases t with
  | architectural | pattern | procedural | context => rfl
  | ephemeral | session => exact absurd h (by decide)

theorem heading_chars (t : MemoryTier) (key : String) :
    (tierHeading t ++ " " ++ key).toList =
      List.replicate (headingLevel t) '#' ++ ' ' :: key.toList := by
  have hspace : " ".toList = [' '] := rfl
  rw [String.toList_append, String.toList_append, tierHeading_eq, hspace, List.append_assoc,
    List.singleton_append]

/-- The heading of an entry is read back as its key. -/
theorem headingOf_heading (t : MemoryTier) (h : keySlug key = true) :
    headingOf (tierHeading t ++ " " ++ key) = some (headingLevel t, key) := by
  obtain ⟨hne, hchars⟩ := keySlug_chars h
  have hlevel : 1 ≤ headingLevel t ∧ headingLevel t ≤ 6 := by cases t <;> decide
  have htake : (List.replicate (headingLevel t) '#' ++ ' ' :: key.toList).takeWhile (· == '#') =
      List.replicate (headingLevel t) '#' := by
    rw [List.takeWhile_append_of_pos (fun c hc => by rw [List.eq_of_mem_replicate hc]; rfl),
      List.takeWhile_cons_of_neg (by decide), List.append_nil]
  have hdrop : (List.replicate (headingLevel t) '#' ++ ' ' :: key.toList).dropWhile (· == '#') =
      ' ' :: key.toList := by
    rw [List.dropWhile_append_of_pos (fun c hc => by rw [List.eq_of_mem_replicate hc]; rfl),
      List.dropWhile_cons_of_neg (by decide)]
  have hstrip : stripChars (' ' :: key.toList) = key.toList := by
    have hbefore : ∀ c ∈ [' '], isSpace c = true := by
      intro c hc
      rw [List.mem_singleton.1 hc]
      decide
    have hafter : ∀ c ∈ ([] : List Char), isSpace c = true := fun c hc => nomatch hc
    have hpad := stripChars_padded hbefore hafter key.toList
    rw [List.append_nil, stripChars_key h] at hpad
    exact hpad
  have htext : headingText (' ' :: key.toList) = key := by
    rw [headingText, hstrip]
    split
    · next hnil => exact absurd hnil hne
    · exact String.ofList_toList
  have hrest : key.toList.isEmpty = false := List.isEmpty_eq_false_iff.2 hne
  have hspace : isSpace ' ' = true := by decide
  rw [headingOf, heading_chars, htake, hdrop]
  dsimp only
  rw [htext, List.length_replicate, hrest, hspace, decide_eq_true hlevel.1, decide_eq_true hlevel.2]
  rfl

theorem heading_not_comment (t : MemoryTier) (h : keySlug key = true) :
    isComment (tierHeading t ++ " " ++ key) = false := by
  obtain ⟨hne, hchars⟩ := keySlug_chars h
  have hshape : ∃ rest, (tierHeading t ++ " " ++ key).toList = '#' :: rest ∧
      ('#' :: rest).getLast? = some (key.toList.getLast hne) := by
    refine ⟨List.replicate (headingLevel t - 1) '#' ++ ' ' :: key.toList, ?_, ?_⟩
    · rw [heading_chars]
      cases t <;> rfl
    · rw [← List.cons_append, List.getLast?_append_of_ne_nil _ (List.cons_ne_nil _ _),
        List.getLast?_cons, List.getLast?_eq_some_getLast hne]
      rfl
  obtain ⟨rest, heq, hlast⟩ := hshape
  have hend := (slugTail_plain (hchars _ (List.getLast_mem hne))).1
  rw [isComment, heq, stripChars_of_ends (by decide) hend hlast]
  rfl

theorem heading_unbroken (t : MemoryTier) (h : keySlug key = true) :
    ∀ c ∈ (tierHeading t ++ " " ++ key).toList, isLineBreak c = false := by
  intro c hc
  rw [heading_chars] at hc
  rcases List.mem_append.1 hc with hc | hc
  · rw [List.eq_of_mem_replicate hc]
    decide
  · rcases List.mem_cons.1 hc with rfl | hc
    · decide
    · have hspace := (slugTail_plain ((keySlug_chars h).2 c hc)).1
      by_contra hbreak
      rw [isSpace_of_isLineBreak (by simpa using hbreak)] at hspace
      cases hspace

end Heading

/-- The lines of an entry in the file. -/
def blockLines (p : MemoryTier × MemoryEntry) : List String :=
  [tierHeading p.1 ++ " " ++ p.2.key, ""] ++ (writtenLines (strip p.2.value) ++ [""])

section Blocks
variable {x : Slugs} {p : SectionScan} {t : MemoryTier} {e : MemoryEntry}

theorem writtenLines_ne_nil (s : String) : writtenLines s ≠ [] := by
  have hfeed : "\n".toList = ['\n'] := rfl
  rw [writtenLines, splitlines, String.toList_append, hfeed]
  exact splitLineChars_ne_nil (.inr (List.append_ne_nil_of_right_ne_nil _ (List.cons_ne_nil _ _)))

/-- The heading of an entry flushes what is in progress and starts the section of its key. -/
theorem step_heading (hkey : keySlug e.key = true) (ht : t ∈ TIER_ORDER) :
    p.step x (tierHeading t ++ " " ++ e.key) = { p.flush x with
      currentKey := some (slugify x.unicode e.key)
      currentHeading := e.key
      currentTier := t
      bodyLines := [] } := by
  have hlevel : headingLevel t ≠ 1 := by cases t <;> decide
  rw [SectionScan.step, heading_not_comment t hkey, headingOf_heading t hkey]
  dsimp only
  rw [if_neg Bool.false_ne_true, if_neg hlevel, tierFromHeadingLevel_headingLevel ht]

/-- The block of an entry is scanned as one section. -/
theorem scan_block (hkey : keySlug e.key = true) (ht : t ∈ TIER_ORDER)
    (hplain : PlainText (strip e.value)) :
    ((blockLines (t, e)).foldl (SectionScan.step x) p).done x = record x (p.done x) (t, e) := by
  have hbody : strip ("\n".intercalate ("" :: (writtenLines (strip e.value) ++ [""]))) =
      strip e.value := by
    rw [strip_framed (writtenLines_ne_nil _), writtenLines, join_splitlines hplain.feeds, strip_strip]
  have hlines : ∀ line ∈ "" :: (writtenLines (strip e.value) ++ [""]), isMarkup line = false := by
    have hempty : isMarkup "" = false := by decide
    intro line hline
    rcases List.mem_cons.1 hline with rfl | hline
    · exact hempty
    · rcases List.mem_append.1 hline with hline | hline
      · exact hplain.unmarked line hline
      · rw [List.mem_singleton.1 hline]
        exact hempty
  rw [blockLines, List.cons_append, List.cons_append, List.nil_append, List.foldl_cons,
    step_heading hkey ht, foldl_plain hlines, List.nil_append]
  simp only [SectionScan.done, SectionScan.flush, hbody, if_neg hplain.nonempty]
  rfl

/-- The blocks of some entries are scanned one after another. -/
theorem scan_blocks {entries : List (MemoryTier × MemoryEntry)}
    (h : ∀ q ∈ entries, keySlug q.2.key = true ∧ q.1 ∈ TIER_ORDER ∧ PlainText (strip q.2.value)) :
    ((entries.flatMap blockLines).foldl (SectionScan.step x) p).done x =
      entries.foldl (record x) (p.done x) := by
  induction entries generalizing p with
  | nil => rfl
  | cons q rest ih =>
    obtain ⟨hkey, ht, hplain⟩ := h q List.mem_cons_self
    rw [List.flatMap_cons, List.foldl_append, ih (fun r hr => h r (List.mem_cons_of_mem q hr)),
      List.foldl_cons, scan_block hkey ht hplain]

end Blocks

/-- The entries in the order of the file, with the tier they are written under. -/
def fileOrder (entries : List MemoryEntry) : List (MemoryTier × MemoryEntry) :=
  TIER_ORDER.flatMap (fun t => (grouped entries t).map (fun e => (t, e)))

/-- What precedes the first entry in the body of the document. -/
def bodyHeader : List String := MEMORY_MD_HEADER.drop 3

section File
variable {x : Slugs} {entries : List MemoryEntry}

theorem mem_fileOrder {q : MemoryTier × MemoryEntry} :
    q ∈ fileOrder entries ↔
      q.1 ∈ TIER_ORDER ∧ q.2 ∈ entries ∧ exportTier q.2.tier = some q.1 := by
  rw [fileOrder, List.mem_flatMap]
  constructor
  · rintro ⟨t, ht, hq⟩
    obtain ⟨e, he, rfl⟩ := List.mem_map.1 hq
    rw [grouped, List.mem_insertionSort, List.mem_filter, decide_eq_true_eq] at he
    exact ⟨ht, he⟩
  · rintro ⟨ht, he⟩
    refine ⟨q.1, ht, List.mem_map.2 ⟨q.2, ?_, rfl⟩⟩
    rw [grouped, List.mem_insertionSort, List.mem_filter, decide_eq_true_eq]
    exact he

theorem entryLines_block (q : MemoryTier × MemoryEntry) (hkey : keySlug q.2.key = true) :
    (entryLines q.1 q.2).flatMap writtenLines = blockLines q := by
  have hempty : writtenLines "" = [""] := by decide
  have hheading : writtenLines (tierHeading q.1 ++ " " ++ q.2.key) =
      [tierHeading q.1 ++ " " ++ q.2.key] := splitlines_unbroken (heading_unbroken q.1 hkey)
  simp only [entryLines, List.flatMap_cons, List.flatMap_nil, hempty, hheading, blockLines,
    List.append_nil, List.cons_append, List.nil_append]

/-- The lines of the file. -/
theorem file_lines (hkeys : ∀ e ∈ entries, keySlug e.key = true) :
    splitlines (syncToMarkdown entries) =
      MEMORY_MD_HEADER ++ (fileOrder entries).flatMap blockLines := by
  have hgroups : TIER_ORDER.flatMap (fun t => (grouped entries t).flatMap (entryLines t)) =
      (fileOrder entries).flatMap (fun q => entryLines q.1 q.2) := by
    rw [fileOrder, List.flatMap_assoc]
    simp only [List.flatMap_map]
  have hheader : MEMORY_MD_HEADER.flatMap writtenLines = MEMORY_MD_HEADER := by decide +kernel
  have hblocks : (fileOrder entries).flatMap (fun q => (entryLines q.1 q.2).flatMap writtenLines) =
      (fileOrder entries).flatMap blockLines := by
    apply List.flatMap_congr
    intro q hq
    exact entryLines_block q (hkeys q.2 (mem_fileOrder.1 hq).2.1)
  have hne : MEMORY_MD_HEADER ++ (fileOrder entries).flatMap (fun q => entryLines q.1 q.2) ≠ [] :=
    List.cons_ne_nil _ _
  rw [syncToMarkdown, hgroups, splitlines_unlines _ hne, List.flatMap_append, List.flatMap_assoc]
  exact congrArg₂ (· ++ ·) hheader hblocks

/-- The front matter is left out. -/
theorem body_lines (rest : List String) :
    afterFrontMatter (MEMORY_MD_HEADER ++ rest) = bodyHeader ++ rest := by
  rfl

theorem scan_header : (bodyHeader.foldl (SectionScan.step x) {}).done x = ([], []) := by
  rfl

/-- A file of plain texts is read back section by section. -/
theorem parse_plain (hkeys : ∀ e ∈ entries, keySlug e.key = true)
    (hplain : ∀ e ∈ entries, PlainText (strip e.value)) :
    parseMemoryMdSections x (syncToMarkdown entries) =
      ((fileOrder entries).foldl (record x) ([], [])).2 := by
  have hscan : (((bodyHeader ++ (fileOrder entries).flatMap blockLines).foldl
      (SectionScan.step x) {}).done x) = (fileOrder entries).foldl (record x) ([], []) := by
    rw [List.foldl_append, scan_blocks, scan_header]
    intro q hq
    obtain ⟨ht, he, -⟩ := mem_fileOrder.1 hq
    exact ⟨hkeys q.2 he, ht, hplain q.2 he⟩
  rw [parseMemoryMdSections, file_lines hkeys, body_lines, ← hscan]
  rfl

end File

def linesInk (lines : List String) : Nat := (lines.map ink).sum

def sectionsInk (l : List MarkdownSection) : Nat := (l.map (fun s => ink s.2.1)).sum

/-- What the scan can keep of some lines. -/
def plainInk (lines : List String) : Nat :=
  (lines.map (fun line => if isMarkup line then 0 else ink line)).sum

section Ink
variable {x : Slugs} {p : SectionScan}

theorem ink_pos {line : String} {c : Char} (hc : c ∈ line.toList) (h : isSpace c = false) :
    0 < ink line := by
  rw [ink, List.countP_pos_iff]
  exact ⟨c, hc, by rw [h]; rfl⟩

/-- Whatever is taken for structure holds a visible character. -/
theorem ink_of_markup {line : String} (h : isMarkup line = true) : 0 < ink line := by
  rw [isMarkup, Bool.or_eq_true] at h
  rcases h with h | h
  · have hmem : '<' ∈ stripChars line.toList :=
      (List.isPrefixOf_iff_prefix.1 h).subset (by decide)
    rw [← ink_strip, strip]
    apply ink_pos _ (by decide : isSpace '<' = false)
    rw [String.toList_ofList]
    exact hmem
  · have hhash : line.toList.takeWhile (· == '#') ≠ [] := by
      intro hnil
      rw [headingOf, hnil] at h
      split at h
      · cases h
      · split at h
        · next hlevel => cases hlevel
        · cases h
    obtain ⟨c, hc⟩ := List.exists_mem_of_ne_nil _ hhash
    have hmatch : (c == '#') = true :=
      List.all_eq_true.1 (List.all_takeWhile (p := (· == '#')) (l := line.toList)) c hc
    have hmem : c ∈ line.toList := (List.takeWhile_sublist _).subset hc
    exact ink_pos hmem (by rw [eq_of_beq hmatch]; decide)

theorem sectionsInk_append (l m : List MarkdownSection) :
    sectionsInk (l ++ m) = sectionsInk l + sectionsInk m := by
  rw [sectionsInk, List.map_append, List.sum_append, sectionsInk, sectionsInk]

theorem sectionsInk_singleton (key body : String) (t : MemoryTier) :
    sectionsInk [(key, body, t)] = ink body := by
  rw [sectionsInk, List.map_singleton, List.sum_singleton]

theorem linesInk_append (l m : List String) : linesInk (l ++ m) = linesInk l + linesInk m := by
  rw [linesInk, List.map_append, List.sum_append, linesInk, linesInk]

theorem plainInk_append (l m : List String) : plainInk (l ++ m) = plainInk l + plainInk m := by
  rw [plainInk, List.map_append, List.sum_append, plainInk, plainInk]

theorem flush_ink (x : Slugs) (p : SectionScan) :
    sectionsInk (p.flush x).sections ≤ sectionsInk p.sections + linesInk p.bodyLines := by
  rw [SectionScan.flush]
  split
  · exact Nat.le_add_right _ _
  · dsimp only
    split
    · exact Nat.le_add_right _ _
    · have hbody : ink (strip ("\n".intercalate p.bodyLines)) = linesInk p.bodyLines := by
        rw [ink_strip, ink_intercalate, linesInk]
      rw [sectionsInk_append, sectionsInk_singleton, hbody]

/-- A line adds no more than what is visible of it, and nothing when it is structure. -/
theorem step_ink (line : String) :
    sectionsInk (p.step x line).sections + linesInk (p.step x line).bodyLines ≤
      sectionsInk p.sections + linesInk p.bodyLines + plainInk [line] := by
  rw [SectionScan.step]
  split
  · exact Nat.le_add_right _ _
  · next hcomment =>
    split
    · next hheading =>
      have hplain : isMarkup line = false := by
        rw [isMarkup, hheading, Bool.eq_false_iff.2 hcomment]
        rfl
      have hline : plainInk [line] = linesInk [line] := by
        simp only [plainInk, linesInk, List.map_cons, List.map_nil, hplain, Bool.false_eq_true,
          ↓reduceIte]
      dsimp only
      rw [linesInk_append, hline]
      omega
    · have hflush := flush_ink x p
      have hnone : linesInk [] = 0 := rfl
      dsimp only
      split
      · dsimp only
        rw [hnone]
        omega
      · dsimp only
        rw [hnone]
        omega

theorem scan_ink (lines : List String) (p : SectionScan) :
    sectionsInk ((lines.foldl (SectionScan.step x) p).flush x).sections ≤
      sectionsInk p.sections + linesInk p.bodyLines + plainInk lines := by
  induction lines generalizing p with
  | nil => exact flush_ink x p
  | cons line rest ih =>
    have hstep := step_ink (x := x) (p := p) line
    have hrest := ih (p.step x line)
    have hsplit : plainInk (line :: rest) = plainInk [line] + plainInk rest :=
      plainInk_append [line] rest
    rw [List.foldl_cons]
    omega

end Ink

/-- The body lines are single lines, and the sections hold texts whose only line boundaries are
line feeds. -/
structure CleanScan (p : SectionScan) : Prop where
  lines : ∀ line ∈ p.bodyLines, ∀ c ∈ line.toList, isLineBreak c = false
  bodies : ∀ s ∈ p.sections, s.2.1 ≠ "" ∧ ∀ c ∈ s.2.1.toList, isLineBreak c = true → c = '\n'

section Clean
variable {x : Slugs} {p : SectionScan}

theorem mem_join {lines : List String} {c : Char} (h : c ∈ ("\n".intercalate lines).toList) :
    c = '\n' ∨ ∃ line ∈ lines, c ∈ line.toList := by
  induction lines with
  | nil => cases h
  | cons line rest ih =>
    cases rest with
    | nil =>
      rw [String.intercalate_singleton] at h
      exact .inr ⟨line, List.mem_cons_self, h⟩
    | cons next rest =>
      have hfeed : "\n".toList = ['\n'] := rfl
      rw [String.intercalate_cons_cons, String.toList_append, String.toList_append, hfeed,
        List.mem_append, List.mem_append, List.mem_singleton] at h
      rcases h with (h | h) | h
      · exact .inr ⟨line, List.mem_cons_self, h⟩
      · exact .inl h
      · rcases ih h with heq | ⟨l, hl, hc⟩
        · exact .inl heq
        · exact .inr ⟨l, List.mem_cons_of_mem line hl, hc⟩

theorem CleanScan.flush (x : Slugs) (h : CleanScan p) : CleanScan (p.flush x) := by
  rw [SectionScan.flush]
  split
  · exact h
  · dsimp only
    split
    · exact h
    · next hbody =>
      refine ⟨h.lines, fun s hs => ?_⟩
      rcases List.mem_append.1 hs with hs | hs
      · exact h.bodies s hs
      · rw [List.mem_singleton.1 hs]
        refine ⟨hbody, fun c hc hbreak => ?_⟩
        have hmem : c ∈ ("\n".intercalate p.bodyLines).toList := by
          rw [strip, String.toList_ofList] at hc
          exact mem_of_mem_stripChars hc
        rcases mem_join hmem with heq | ⟨line, hline, hcl⟩
        · exact heq
        · rw [h.lines line hline c hcl] at hbreak
          cases hbreak

theorem CleanScan.step {line : String} (h : CleanScan p)
    (hline : ∀ c ∈ line.toList, isLineBreak c = false) : CleanScan (p.step x line) := by
  have hnone : ∀ l ∈ ([] : List String), ∀ c ∈ l.toList, isLineBreak c = false :=
    fun l hl => nomatch hl
  rw [SectionScan.step]
  split
  · exact h
  · split
    · refine ⟨fun l hl => ?_, h.bodies⟩
      rcases List.mem_append.1 hl with hl | hl
      · exact h.lines l hl
      · rw [List.mem_singleton.1 hl]
        exact hline
    · dsimp only
      split
      · exact ⟨hnone, (h.flush x).bodies⟩
      · exact ⟨hnone, (h.flush x).bodies⟩

theorem CleanScan.scan {lines : List String} (h : CleanScan p)
    (hlines : ∀ line ∈ lines, ∀ c ∈ line.toList, isLineBreak c = false) :
    CleanScan ((lines.foldl (SectionScan.step x) p).flush x) := by
  induction lines generalizing p with
  | nil => exact h.flush x
  | cons line rest ih =>
    have hfirst : CleanScan (p.step x line) := h.step (hlines line List.mem_cons_self)
    exact ih hfirst (fun l hl => hlines l (List.mem_cons_of_mem line hl))

end Clean

/-- The text the parser reads back: one section for each entry, with its key, value and tier. -/
def RoundTrips (x : Slugs) (entries : List MemoryEntry) : Prop :=
  ((parseMemoryMdSections x (syncToMarkdown entries)).map
      (fun s => (s.1, s.2.1, Tier.std s.2.2))).Perm
    (entries.map (fun e => (e.key, strip e.value, e.tier)))

/-- The entries a document can hold: valid keys, each once, under the tiers that have headings. -/
structure Exportable (entries : List MemoryEntry) : Prop where
  keys : ∀ e ∈ entries, keySlug e.key = true
  nodup : (entries.map MemoryEntry.key).Nodup
  tiers : ∀ e ∈ entries, ∃ t ∈ TIER_ORDER, e.tier = .std t

theorem perm_flatMap_filter {α κ : Type} [DecidableEq κ] {keys : List κ} (hkeys : keys.Nodup)
    (f : α → Option κ) (l : List α) (h : ∀ a ∈ l, ∃ k ∈ keys, f a = some k) :
    (keys.flatMap (fun k => l.filter (fun a => f a = some k))).Perm l := by
  induction keys generalizing l with
  | nil =>
    cases l with
    | nil => exact List.Perm.refl _
    | cons a rest =>
      obtain ⟨k, hk, -⟩ := h a List.mem_cons_self
      cases hk
  | cons k rest ih =>
    obtain ⟨hnew, hrest⟩ := List.nodup_cons.1 hkeys
    have hothers : rest.flatMap (fun k' => l.filter (fun a => f a = some k')) =
        rest.flatMap (fun k' => (l.filter (fun a => !decide (f a = some k))).filter
          (fun a => f a = some k')) := by
      apply List.flatMap_congr
      intro k' hk'
      rw [List.filter_filter]
      apply List.filter_congr
      intro a _
      by_cases ha : f a = some k'
      · have hne : ¬ k' = k := fun heq => hnew (heq ▸ hk')
        simp [ha, hne]
      · simp [ha]
    have hleft : ∀ a ∈ l.filter (fun a => !decide (f a = some k)), ∃ k' ∈ rest, f a = some k' := by
      intro a ha
      obtain ⟨hmem, hother⟩ := List.mem_filter.1 ha
      obtain ⟨k', hk', hfa⟩ := h a hmem
      rcases List.mem_cons.1 hk' with rfl | hk'
      · simp [hfa] at hother
      · exact ⟨k', hk', hfa⟩
    rw [List.flatMap_cons, hothers]
    exact ((ih hrest _ hleft).append_left _).trans (List.filter_append_perm _ l)

section RoundTrip
variable {x : Slugs} {entries : List MemoryEntry}

theorem exportTier_std {t : MemoryTier} (h : t ∈ TIER_ORDER) : exportTier (.std t) = some t := by
  cases t with
  | architectural | pattern | procedural | context => rfl
  | ephemeral | session => exact absurd h (by decide)

theorem Exportable.tier_of_fileOrder (h : Exportable entries) {q : MemoryTier × MemoryEntry}
    (hq : q ∈ fileOrder entries) : q.2.tier = .std q.1 := by
  obtain ⟨-, he, hexport⟩ := mem_fileOrder.1 hq
  obtain ⟨t, ht, htier⟩ := h.tiers q.2 he
  rw [htier, exportTier_std ht] at hexport
  rw [htier, Option.some.inj hexport]

theorem Exportable.fileOrder_perm (h : Exportable entries) :
    ((fileOrder entries).map Prod.snd).Perm entries := by
  have hgroups : (fileOrder entries).map Prod.snd = TIER_ORDER.flatMap (grouped entries) := by
    rw [fileOrder, List.map_flatMap]
    apply List.flatMap_congr
    intro t _
    rw [List.map_map]
    exact List.map_id _
  have hsorted : (TIER_ORDER.flatMap (grouped entries)).Perm
      (TIER_ORDER.flatMap (fun t => entries.filter (fun e => exportTier e.tier = some t))) :=
    List.Perm.flatMap_left _ (fun t _ => List.perm_insertionSort _ _)
  have hall : ∀ e ∈ entries, ∃ t ∈ TIER_ORDER, exportTier e.tier = some t := by
    intro e he
    obtain ⟨t, ht, htier⟩ := h.tiers e he
    exact ⟨t, ht, by rw [htier, exportTier_std ht]⟩
  rw [hgroups]
  exact hsorted.trans (perm_flatMap_filter (by decide) _ entries hall)

/-- The entries in file order, as the sections they should be read back as. -/
theorem Exportable.triples_perm (h : Exportable entries) :
    ((fileOrder entries).map (fun q => (q.2.key, strip q.2.value, Tier.std q.1))).Perm
      (entries.map (fun e => (e.key, strip e.value, e.tier))) := by
  have hmap := h.fileOrder_perm.map (fun e => (e.key, strip e.value, e.tier))
  rw [List.map_map] at hmap
  have heq : (fileOrder entries).map (fun q => (q.2.key, strip q.2.value, Tier.std q.1)) =
      (fileOrder entries).map ((fun e : MemoryEntry => (e.key, strip e.value, e.tier)) ∘ Prod.snd) := by
    apply List.map_congr_left
    intro q hq
    rw [Function.comp_apply, h.tier_of_fileOrder hq]
  rw [heq]
  exact hmap

/-- Entries whose keys are new and their own slugs are recorded under their keys. -/
theorem foldl_record {qs : List (MemoryTier × MemoryEntry)}
    {d : List String × List MarkdownSection}
    (hslug : ∀ q ∈ qs, slugify x.unicode q.2.key = q.2.key)
    (hnodup : (qs.map (fun q => q.2.key)).Nodup) (hnew : ∀ q ∈ qs, q.2.key ∉ d.1) :
    (qs.foldl (record x) d).2 = d.2 ++ qs.map (fun q => (q.2.key, strip q.2.value, q.1)) := by
  induction qs generalizing d with
  | nil => rw [List.foldl_nil, List.map_nil, List.append_nil]
  | cons q rest ih =>
    obtain ⟨hfirst, hrest⟩ := List.nodup_cons.1 hnodup
    have hrecord : record x d q =
        (q.2.key :: d.1, d.2 ++ [(q.2.key, strip q.2.value, q.1)]) := by
      have hkey : resolveSlugCollision x (slugify x.unicode q.2.key) q.2.key d.1 = q.2.key := by
        rw [hslug q List.mem_cons_self, resolveSlugCollision, if_pos (hnew q List.mem_cons_self)]
      rw [record, hkey]
    rw [List.foldl_cons, hrecord, ih (fun r hr => hslug r (List.mem_cons_of_mem q hr)) hrest,
      List.append_assoc, List.map_cons, List.singleton_append]
    intro r hr hmem
    rcases List.mem_cons.1 hmem with heq | hmem
    · exact hfirst (List.mem_map.2 ⟨r, hr, heq⟩)
    · exact hnew r (List.mem_cons_of_mem q hr) hmem

theorem plainInk_flatMap (qs : List (MemoryTier × MemoryEntry))
    (hkeys : ∀ q ∈ qs, keySlug q.2.key = true) :
    plainInk (qs.flatMap blockLines) =
      (qs.map (fun q => plainInk (writtenLines (strip q.2.value)))).sum := by
  induction qs with
  | nil => rfl
  | cons q rest ih =>
    have hheading : isMarkup (tierHeading q.1 ++ " " ++ q.2.key) = true := by
      rw [isMarkup, headingOf_heading q.1 (hkeys q List.mem_cons_self)]
      exact Bool.or_true _
    have hempty : plainInk [""] = 0 := by decide
    have htitle : plainInk [tierHeading q.1 ++ " " ++ q.2.key, ""] = 0 := by
      have hsplit := plainInk_append [tierHeading q.1 ++ " " ++ q.2.key] [""]
      rw [hempty] at hsplit
      have hnone : plainInk [tierHeading q.1 ++ " " ++ q.2.key] = 0 := by
        simp only [plainInk, List.map_cons, List.map_nil, hheading, ↓reduceIte, List.sum_singleton]
      rw [hnone] at hsplit
      exact hsplit
    rw [List.flatMap_cons, plainInk_append, ih (fun r hr => hkeys r (List.mem_cons_of_mem q hr)),
      List.map_cons, List.sum_cons, blockLines, plainInk_append, plainInk_append, htitle, hempty]
    omega

/-- What is visible of the sections was visible of plain lines of the values. -/
theorem parsed_ink (h : Exportable entries) :
    sectionsInk (parseMemoryMdSections x (syncToMarkdown entries)) ≤
      ((fileOrder entries).map (fun q => plainInk (writtenLines (strip q.2.value)))).sum := by
  have hkeys : ∀ q ∈ fileOrder entries, keySlug q.2.key = true :=
    fun q hq => h.keys q.2 (mem_fileOrder.1 hq).2.1
  have hheader : plainInk bodyHeader = 0 := by decide +kernel
  have hstart : sectionsInk ({} : SectionScan).sections + linesInk ({} : SectionScan).bodyLines = 0 :=
    rfl
  have hscan := scan_ink (x := x) (bodyHeader ++ (fileOrder entries).flatMap blockLines) {}
  rw [hstart, plainInk_append, hheader, plainInk_flatMap _ hkeys, Nat.zero_add, Nat.zero_add] at hscan
  rw [parseMemoryMdSections, file_lines h.keys, body_lines]
  exact hscan

theorem sectionsInk_of_perm {sections : List MarkdownSection} {qs : List (MemoryTier × MemoryEntry)}
    (h : (sections.map (fun s => (s.1, s.2.1, Tier.std s.2.2))).Perm
      (qs.map (fun q => (q.2.key, strip q.2.value, Tier.std q.1)))) :
    sectionsInk sections = (qs.map (fun q => ink (strip q.2.value))).sum := by
  have hsum := (h.map (fun s : String × String × Tier => ink s.2.1)).sum_eq
  simp only [List.map_map, Function.comp_def] at hsum
  rw [sectionsInk]
  exact hsum

/-- A document that is read back holds no line of a value that is taken for structure. -/
theorem RoundTrips.unmarked (h : RoundTrips x entries) (hentries : Exportable entries)
    {e : MemoryEntry} (he : e ∈ entries) :
    ∀ line ∈ writtenLines (strip e.value), isMarkup line = false := by
  have hink : ∀ s : String, linesInk (writtenLines s) = ink s := by
    intro s
    have hfeed : "\n".toList.countP (fun c => !isSpace c) = 0 := by decide
    rw [linesInk, writtenLines, ink_splitlines, ink, String.toList_append, List.countP_append, hfeed,
      Nat.add_zero, ink]
  have htotal : sectionsInk (parseMemoryMdSections x (syncToMarkdown entries)) =
      ((fileOrder entries).map (fun q => linesInk (writtenLines (strip q.2.value)))).sum := by
    rw [RoundTrips] at h
    rw [sectionsInk_of_perm (h.trans hentries.triples_perm.symm)]
    exact congrArg List.sum (List.map_congr_left (fun q _ => (hink _).symm))
  have hle : ∀ line, (if isMarkup line then 0 else ink line) ≤ ink line := by
    intro line
    split
    · exact Nat.zero_le _
    · exact Nat.le_refl _
  have hlines : ∀ lines, plainInk lines ≤ linesInk lines :=
    fun lines => List.sum_le_sum (fun line _ => hle line)
  intro line hline
  by_contra hmarked
  have hmarked : isMarkup line = true := by simpa using hmarked
  have hless : plainInk (writtenLines (strip e.value)) < linesInk (writtenLines (strip e.value)) := by
    apply List.sum_lt_sum _ _ (fun line _ => hle line)
    refine ⟨line, hline, ?_⟩
    rw [if_pos hmarked]
    exact ink_of_markup hmarked
  obtain ⟨q, hq, rfl⟩ : ∃ q ∈ fileOrder entries, q.2 = e := by
    have hmem := hentries.fileOrder_perm.mem_iff.2 he
    exact List.mem_map.1 hmem
  have hfile : ((fileOrder entries).map (fun q => plainInk (writtenLines (strip q.2.value)))).sum <
      ((fileOrder entries).map (fun q => linesInk (writtenLines (strip q.2.value)))).sum :=
    List.sum_lt_sum _ _ (fun q _ => hlines _) ⟨q, hq, hless⟩
  have hparsed := parsed_ink (x := x) hentries
  omega

/-- A document that is read back holds plain texts only. -/
theorem RoundTrips.plain (h : RoundTrips x entries) (hentries : Exportable entries)
    {e : MemoryEntry} (he : e ∈ entries) : PlainText (strip e.value) := by
  have hclean : CleanScan (((bodyHeader ++ (fileOrder entries).flatMap blockLines).foldl
      (SectionScan.step x) {}).flush x) := by
    apply CleanScan.scan
    · exact ⟨fun _ hl => (nomatch hl), fun _ hs => (nomatch hs)⟩
    · intro line hline
      apply mem_splitlines (s := syncToMarkdown entries)
      rw [file_lines hentries.keys]
      rcases List.mem_append.1 hline with hline | hline
      · exact List.mem_append_left _ ((List.drop_subset 3 _) hline)
      · exact List.mem_append_right _ hline
  have hread := h
  rw [RoundTrips, parseMemoryMdSections, file_lines hentries.keys, body_lines] at hread
  have hmem : (e.key, strip e.value, e.tier) ∈
      entries.map (fun e => (e.key, strip e.value, e.tier)) := List.mem_map_of_mem he
  obtain ⟨s, hs, heq⟩ := List.mem_map.1 (hread.mem_iff.2 hmem)
  have hvalue : s.2.1 = strip e.value := congrArg (fun r : String × String × Tier => r.2.1) heq
  obtain ⟨hne, hfeeds⟩ := hclean.bodies s hs
  rw [hvalue] at hne hfeeds
  exact ⟨hne, hfeeds, h.unmarked hentries he⟩

/-- Every recorded key is the one its slug resolves to. -/
theorem mem_foldl_record {qs : List (MemoryTier × MemoryEntry)}
    {d : List String × List MarkdownSection} {s : MarkdownSection}
    (hs : s ∈ (qs.foldl (record x) d).2) :
    s ∈ d.2 ∨ ∃ q ∈ qs, ∃ seen,
      s.1 = resolveSlugCollision x (slugify x.unicode q.2.key) q.2.key seen := by
  induction qs generalizing d with
  | nil => exact .inl hs
  | cons q rest ih =>
    rcases ih hs with hs | ⟨r, hr, seen, heq⟩
    · rcases List.mem_append.1 hs with hs | hs
      · exact .inl hs
      · rw [List.mem_singleton.1 hs]
        exact .inr ⟨q, List.mem_cons_self, d.1, rfl⟩
    · exact .inr ⟨r, List.mem_cons_of_mem q hr, seen, heq⟩

/-- A document that is read back holds keys that are their own slugs, up to those of the greatest
length: such a key may be what a collision was cut to. -/
theorem RoundTrips.slugs (h : RoundTrips x entries) (hentries : Exportable entries)
    (hu : x.unicode.KeepsSlugs) (hx : ∀ t, IsShortHash (x.shortHash t)) {e : MemoryEntry}
    (he : e ∈ entries) :
    slugify x.unicode e.key = e.key ∨ e.key.length = MAX_KEY_LENGTH := by
  have hread := h
  rw [RoundTrips, parse_plain hentries.keys (fun e he => h.plain hentries he)] at hread
  have hmem : (e.key, strip e.value, e.tier) ∈
      entries.map (fun e => (e.key, strip e.value, e.tier)) := List.mem_map_of_mem he
  obtain ⟨s, hs, heq⟩ := List.mem_map.1 (hread.mem_iff.2 hmem)
  have hkey : s.1 = e.key := congrArg Prod.fst heq
  have hlen := (keySlug_length (hentries.keys e he)).2
  have hne := (keySlug_chars (hentries.keys e he)).1
  rcases mem_foldl_record hs with hnone | ⟨q, hq, seen, hresolved⟩
  · cases hnone
  · have hvalid := hentries.keys q.2 (mem_fileOrder.1 hq).2.1
    obtain ⟨htidy, hslug, -⟩ := slugify_key hu hvalid
    have hcases := @tidy_resolved x _ q.2.key seen htidy hslug hx
    rw [← hresolved, hkey] at hcases
    rcases hcases with htidy | hlong
    · exact .inl (slugify_of_tidy hu htidy hne hlen)
    · exact .inr (Nat.le_antisymm hlen hlong)

end RoundTrip

/-- `MEMORY.md` is read back as it was written when its texts are plain and its keys are their own
slugs, and only then, up to keys of the greatest length. -/
theorem memory_md_round_trip {x : Slugs} (hu : x.unicode.KeepsSlugs)
    (hx : ∀ t, IsShortHash (x.shortHash t)) {entries : List MemoryEntry}
    (h : Exportable entries) :
    ((∀ e ∈ entries, PlainText (strip e.value) ∧ slugify x.unicode e.key = e.key) →
        RoundTrips x entries) ∧
      (RoundTrips x entries → ∀ e ∈ entries, PlainText (strip e.value) ∧
        (slugify x.unicode e.key = e.key ∨ e.key.length = MAX_KEY_LENGTH)) := by
  constructor
  · intro hplain
    have hmem : ∀ q ∈ fileOrder entries, q.2 ∈ entries := fun q hq => (mem_fileOrder.1 hq).2.1
    have hnodup : ((fileOrder entries).map (fun q => q.2.key)).Nodup := by
      have hperm := h.fileOrder_perm.map MemoryEntry.key
      rw [List.map_map] at hperm
      exact hperm.nodup_iff.2 h.nodup
    rw [RoundTrips, parse_plain h.keys (fun e he => (hplain e he).1),
      foldl_record (fun q hq => (hplain q.2 (hmem q hq)).2) hnodup (fun _ _ => List.not_mem_nil),
      List.nil_append, List.map_map]
    exact h.triples_perm
  · exact fun hread e he => ⟨hread.plain h he, hread.slugs h hu hx he⟩

/-- Slugs of lower-case text. -/
def lowercaseSlugs : Slugs := ⟨.lowercase, fun _ => "0a1b2c"⟩

theorem lowercaseSlugs_hash (t : String) : IsShortHash (lowercaseSlugs.shortHash t) := by
  have hlen : "0a1b2c".length = 6 := by decide +kernel
  have hdigits : "0a1b2c".toList.all isSlugHead = true := by decide
  exact ⟨hlen, List.all_eq_true.1 hdigits⟩

def noteEntry (key value : String) (tier : MemoryTier) : MemoryEntry where
  key := key
  value := value
  tier := .std tier
  createdAt := 0
  updatedAt := 0
  lastAccessed := 0

/-- Two notes of plain text. -/
def plainNotes : List MemoryEntry :=
  [noteEntry "deploy" " run make\n\nthen push " .procedural, noteEntry "db.port" "5432" .pattern]

theorem plainNotes_exportable : Exportable plainNotes where
  keys := by decide +kernel
  nodup := by decide +kernel
  tiers := by
    intro e he
    simp only [plainNotes, List.mem_cons, List.not_mem_nil, or_false] at he
    rcases he with rfl | rfl
    · exact ⟨.procedural, by decide, rfl⟩
    · exact ⟨.pattern, by decide, rfl⟩

theorem plainNotes_round_trip : RoundTrips lowercaseSlugs plainNotes := by
  apply (memory_md_round_trip (fun _ _ => rfl) lowercaseSlugs_hash plainNotes_exportable).1
  have hplain : ∀ e ∈ plainNotes, strip e.value ≠ "" ∧
      (strip e.value).toList.all (fun c => !isLineBreak c || c == '\n') = true ∧
      (∀ line ∈ writtenLines (strip e.value), isMarkup line = false) ∧
      slugify lowercaseSlugs.unicode e.key = e.key := by
    decide +kernel
  intro e he
  obtain ⟨hne, hfeeds, hunmarked, hslug⟩ := hplain e he
  refine ⟨⟨hne, fun c hc hbreak => ?_, hunmarked⟩, hslug⟩
  have hfeed := List.all_eq_true.1 hfeeds c hc
  rw [hbreak] at hfeed
  exact eq_of_beq hfeed

/-- A note with a heading of its own. -/
def headedNote : List MemoryEntry := [noteEntry "deploy" "steps\n## build\nrun make" .pattern]

/-- The heading of the value opens a section of its own. -/
theorem headed_note_splits : Exportable headedNote ∧ ¬ RoundTrips lowercaseSlugs headedNote := by
  refine ⟨⟨by decide +kernel, by decide +kernel, ?_⟩, ?_⟩
  · intro e he
    rw [headedNote, List.mem_singleton] at he
    subst he
    exact ⟨.pattern, by decide, rfl⟩
  · rw [RoundTrips]
    decide +kernel

end TappsBrain
