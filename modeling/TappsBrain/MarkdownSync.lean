import Mathlib.Data.List.Sort
import TappsBrain.Entry
import TappsBrain.Lines

namespace TappsBrain
set_option autoImplicit true
set_option relaxedAutoImplicit false

/-- What the keys of a parsed document rest on. -/
structure Slugs where
  unicode : Unicode
  /-- `_short_hash`. -/
  shortHash : String → String

def isSep (c : Char) : Bool := c == '-' || c == '_' || c == '.'

/-- `_SLUG_CLEAN_RE.sub("-", slug)`, inside or outside a run of other characters. -/
def cleanSlug : Bool → List Char → List Char
  | _, [] => []
  | inRun, c :: rest =>
    if isSlugTail c then c :: cleanSlug false rest
    else if inRun then cleanSlug true rest
    else '-' :: cleanSlug true rest

/-- `_MULTI_SEP_RE.sub("-", slug)`, inside or outside a run of separators. -/
def collapseSeps : Bool → List Char → List Char
  | _, [] => []
  | inRun, c :: rest =>
    if !isSep c then c :: collapseSeps false rest
    else if inRun then collapseSeps true rest
    else if rest.head?.any isSep then '-' :: collapseSeps true rest
    else c :: collapseSeps false rest

/-- `slug.strip("-._")`. -/
def stripSeps (cs : List Char) : List Char :=
  (cs.dropWhile isSep).rdropWhile isSep

/-- `_slugify`. -/
def slugify (u : Unicode) (text : String) : String :=
  let slug := stripSeps (collapseSeps false (cleanSlug false (strip (u.lower text)).toList))
  String.ofList ((if slug = [] then ['m', '-'] else slug).take MAX_KEY_LENGTH)

def disambiguated (slug suffix : String) : String :=
  String.ofList (slug.toList.take (MAX_KEY_LENGTH - 7)) ++ "-" ++ suffix

def numbered (slug suffix : String) (counter : Nat) : String :=
  let counterStr := toString counter
  String.ofList (slug.toList.take (MAX_KEY_LENGTH - 7 - 1 - counterStr.length)) ++ "-" ++ suffix ++
    "-" ++ counterStr

/-- The counter loop of `_resolve_slug_collision`, for this many rounds at most. -/
def firstFree (candidate : Nat → String) (seenSlugs : List String) : Nat → Nat → String
  | 0, counter => candidate counter
  | rounds + 1, counter =>
    if candidate counter ∈ seenSlugs then firstFree candidate seenSlugs rounds (counter + 1)
    else candidate counter

/-- `_resolve_slug_collision`; the caller records the key it returns. -/
def resolveSlugCollision (x : Slugs) (slug headingText : String) (seenSlugs : List String) :
    String :=
  if slug ∉ seenSlugs then slug
  else
    let suffix := x.shortHash headingText
    if disambiguated slug suffix ∉ seenSlugs then disambiguated slug suffix
    else firstFree (numbered slug suffix) seenSlugs seenSlugs.length 2

/-- `_tier_from_heading_level`. -/
def tierFromHeadingLevel (level : Nat) : MemoryTier :=
  if level ≤ 2 then .architectural
  else if level = 3 then .pattern
  else if level = 4 then .procedural
  else .context

/-- The second group of `_HEADING_RE`: of blank text only the last character is left to it. -/
def headingText (cs : List Char) : String :=
  match stripChars cs with
  | [] => String.ofList (cs.drop (cs.length - 1))
  | text => String.ofList text

/-- `_HEADING_RE.match(line)`: the number of hashes and the text. -/
def headingOf (line : String) : Option (Nat × String) :=
  let hashes := (line.toList.takeWhile (· == '#')).length
  match line.toList.dropWhile (· == '#') with
  | [] => none
  | c :: rest =>
    if 1 ≤ hashes && hashes ≤ 6 && isSpace c && !rest.isEmpty then
      some (hashes, headingText (c :: rest))
    else none

/-- `line.strip().startswith("<!--")`. -/
def isComment (line : String) : Bool := "<!--".toList.isPrefixOf (stripChars line.toList)

/-- `(key, value, tier)`. -/
abbrev MarkdownSection := String × String × MemoryTier

/-- The variables of the loop of `_parse_memory_md_sections`. -/
structure SectionScan where
  currentKey : Option String := none
  currentHeading : String := ""
  currentTier : MemoryTier := .pattern
  bodyLines : List String := []
  seenSlugs : List String := []
  sections : List MarkdownSection := []
deriving DecidableEq

/-- The in-progress section is added unless its body is empty. -/
def SectionScan.flush (x : Slugs) (p : SectionScan) : SectionScan :=
  match p.currentKey with
  | none => p
  | some slug =>
    let body := strip ("\n".intercalate p.bodyLines)
    if body = "" then p
    else
      let key := resolveSlugCollision x slug p.currentHeading p.seenSlugs
      { p with
        seenSlugs := key :: p.seenSlugs
        sections := p.sections ++ [(key, body, p.currentTier)] }

def SectionScan.step (x : Slugs) (p : SectionScan) (line : String) : SectionScan :=
  if isComment line then p
  else
    match headingOf line with
    | none => { p with bodyLines := p.bodyLines ++ [line] }
    | some (level, text) =>
      let p := p.flush x
      if level = 1 then { p with currentKey := none, currentHeading := "", bodyLines := [] }
      else
        { p with
          currentKey := some (slugify x.unicode text)
          currentHeading := text
          currentTier := tierFromHeadingLevel level
          bodyLines := [] }

/-- The lines after a leading front matter block. -/
def afterFrontMatter (allLines : List String) : List String :=
  match allLines with
  | [] => []
  | first :: rest =>
    if strip first = "---" then
      match rest.findIdx? (fun line => strip line = "---") with
      | some i => rest.drop (i + 1)
      | none => allLines
    else allLines

/-- `_parse_memory_md_sections`. -/
def parseMemoryMdSections (x : Slugs) (text : String) : List MarkdownSection :=
  (((afterFrontMatter (splitlines text)).foldl (SectionScan.step x) {}).flush x).sections

/-- `_TIER_ORDER`. -/
def TIER_ORDER : List MemoryTier := [.architectural, .pattern, .procedural, .context]

/-- `_TIER_HEADING`, on the tiers of `_TIER_ORDER`. -/
def tierHeading : MemoryTier → String
  | .architectural => "##"
  | .pattern => "###"
  | .procedural => "####"
  | _ => "#####"

/-- The group a row is exported in. -/
def exportTier (t : Tier) : Option MemoryTier :=
  match MemoryTier.ofText t.text with
  | some .ephemeral => none
  | some .session => none
  | some tier => some tier
  | none => some .context

/-- The entries of a group in the order they are written. -/
def grouped (entries : List MemoryEntry) (tier : MemoryTier) : List MemoryEntry :=
  (entries.filter (fun e => exportTier e.tier = some tier)).insertionSort (fun a b => a.key ≤ b.key)

def MEMORY_MD_HEADER : List String :=
  ["---", "schema_version: 1", "---", "", "# Memory", "",
    "<!-- Generated by tapps-brain sync. Edit freely; tapps-brain wins on import conflict. -->", ""]

def entryLines (tier : MemoryTier) (e : MemoryEntry) : List String :=
  [tierHeading tier ++ " " ++ e.key, "", strip e.value, ""]

/-- The text `sync_to_markdown` writes of the entries it lists. -/
def syncToMarkdown (entries : List MemoryEntry) : String :=
  "\n".intercalate (MEMORY_MD_HEADER ++
    TIER_ORDER.flatMap (fun tier => (grouped entries tier).flatMap (entryLines tier))) ++ "\n"

end TappsBrain
