import TappsBrain.ConsolidatedKeys
import TappsBrain.MarkdownKeys

namespace TappsBrain.Extraction
set_option autoImplicit true
set_option relaxedAutoImplicit false

/-- What the extraction rests on: `unicodedata.normalize("NFKD", ...)` and the search of a regular
expression, in any case, with the name of the store's profile. -/
structure FactRules where
  nfkd : String → String
  search : String → String → Bool
  profile : Option String := none

/-- An extracted fact. -/
structure DurableFact where
  key : String
  value : String
  tier : String
deriving DecidableEq, Repr

def MIN_CHUNK_CHARS : Nat := 20

/-- `_DECISION_PATTERNS`. -/
def decisionPatterns : List (String × String) :=
  [("\\bwe\\s+decided\\b", "architectural"), ("\\bkey\\s+decision\\b", "architectural"),
    ("\\barchitecture\\s+choice\\b", "architectural"), ("\\bwe\\s+agreed\\b", "pattern"),
    ("\\bimportant\\s*:", "pattern"), ("\\bdecision\\s*:", "architectural"),
    ("\\bchose\\s+to\\s+", "pattern"), ("\\bwe\\s+chose\\b", "pattern"),
    ("\\bgoing\\s+forward\\b", "context"), ("\\bconvention\\s*:", "pattern"),
    ("\\bpattern\\s*:", "pattern"), ("\\bnote\\s*:", "pattern"), ("\\bsummary\\s*:", "pattern"),
    ("\\btl;?dr\\b", "context"), ("\\bremember\\s+that\\b", "context"),
    ("\\bimplementation\\s+note\\b", "pattern"), ("\\broot\\s+cause\\b", "pattern"),
    ("\\b(?:chosen|final)\\s+approach\\b", "architectural"),
    ("\\bwe(?:'re|\\s+are)\\s+using\\b", "pattern"), ("\\bwe\\s+use\\b", "pattern")]

/-- `_PA_PATTERNS`. -/
def paPatterns : List (String × String) :=
  [("\\bmy\\s+name\\s+is\\b", "identity"), ("\\bi(?:'m|\\s+am)\\s+(?:a|an)\\b", "identity"),
    ("\\bi\\s+live\\s+in\\b", "identity"), ("\\bi\\s+work\\s+(?:at|for)\\b", "identity"),
    ("\\bmy\\s+(?:wife|husband|partner|spouse)\\b", "identity"),
    ("\\bmy\\s+(?:son|daughter|child|children|kids?)\\b", "identity"),
    ("\\bmy\\s+(?:mom|dad|mother|father|parents?)\\b", "identity"),
    ("\\bi\\s+(?:am\\s+)?allergic\\s+to\\b", "identity"), ("\\bmy\\s+allerg(?:y|ies)\\b", "identity"),
    ("\\bi\\s+prefer\\b", "long-term"), ("\\bi\\s+(?:like|love|enjoy)\\b", "long-term"),
    ("\\bi\\s+(?:dislike|hate|don't\\s+like|do\\s+not\\s+like)\\b", "long-term"),
    ("\\bmy\\s+(?:favorite|favourite)\\b", "long-term"), ("\\bi\\s+always\\b", "long-term"),
    ("\\bi\\s+never\\b", "long-term"), ("\\bmy\\s+(?:friend|colleague|boss|manager)\\b", "long-term"),
    ("\\bmy\\s+(?:doctor|dentist|physician|therapist)\\b", "long-term"),
    ("\\bmy\\s+(?:medication|medicine|prescription)\\b", "long-term"),
    ("\\bi\\s+can't\\s+eat\\b", "long-term"), ("\\bi\\s+don't\\s+(?:eat|drink)\\b", "long-term"),
    ("\\bevery\\s+(?:morning|evening|night|day|week|month|monday|tuesday|wednesday|thursday|friday|saturday|sunday)\\b",
      "procedural"),
    ("\\bon\\s+(?:mondays?|tuesdays?|wednesdays?|thursdays?|fridays?|saturdays?|sundays?|weekends?)\\b",
      "procedural"),
    ("\\bmy\\s+(?:routine|schedule|habit|workout)\\b", "procedural"),
    ("\\bi\\s+usually\\b", "procedural"), ("\\btoday\\s+i\\b", "short-term"),
    ("\\bright\\s+now\\b", "short-term"), ("\\bthis\\s+week\\b", "short-term"),
    ("\\bremind\\s+me\\b", "short-term")]

/-- What a scan for `_SENTENCE_BOUNDARY` is in: a chunk, or one of the two separators. -/
inductive Scanning where
  | text | spaces | newlines
deriving DecidableEq

/-- The characters so far, the last one first, end a sentence and not an abbreviation. -/
def endsSentence : List Char → Bool
  | '.' :: 'g' :: '.' :: 'e' :: _ | '.' :: 'g' :: '.' :: 'E' :: _ | '.' :: 'G' :: '.' :: 'e' :: _
  | '.' :: 'G' :: '.' :: 'E' :: _ | '.' :: 'e' :: '.' :: 'i' :: _ | '.' :: 'e' :: '.' :: 'I' :: _
  | '.' :: 'E' :: '.' :: 'i' :: _ | '.' :: 'E' :: '.' :: 'I' :: _ => false
  | c :: _ => c == '.' || c == '!' || c == '?'
  | [] => false

/-- `_SENTENCE_BOUNDARY.split`, with the text and the chunk so far, both the last character first. -/
def splitSentences : Scanning → List Char → List Char → List Char → List (List Char)
  | _, _, chunk, [] => [chunk.reverse]
  | scan, before, chunk, c :: rest =>
    if scan = .spaces ∧ isSpace c ∨ scan = .newlines ∧ c = '\n' then
      splitSentences scan (c :: before) chunk rest
    else if endsSentence before ∧ isSpace c then
      chunk.reverse :: splitSentences .spaces (c :: before) [] rest
    else if c = '\n' then chunk.reverse :: splitSentences .newlines (c :: before) [] rest
    else splitSentences .text (c :: before) (c :: chunk) rest

def isAscii (c : Char) : Bool := c.toNat < 128

/-- `_slugify`. -/
def slugify (x : FactRules) (text : String) (maxLen : Nat) : String :=
  let ascii := ((x.nfkd text).toList.filter isAscii).map Char.toLower
  let dashed := ascii.map (fun c => if isSlugTail c then c else '-')
  let slug :=
    match stripDashes (collapseDashes dashed) with
    | [] => "fact".toList
    | c :: rest => if isSlugHead c then c :: rest else "x-".toList ++ c :: rest
  String.ofList (slug.take maxLen)

/-- The first field of `rsplit(maxsplit=1)`, or the whole text where there is none. -/
def headWords (cs : List Char) : List Char :=
  let trimmed := cs.rdropWhile isSpace
  let upto := (trimmed.rdropWhile (fun c => !isSpace c)).rdropWhile isSpace
  if trimmed = [] then cs else if upto = [] then trimmed.rtakeWhile (fun c => !isSpace c) else upto

def TRUNCATE_ELLIPSIS_LEN : Nat := 3

/-- `_truncate`. -/
def truncate (value : String) (maxChars : Nat) : String :=
  let cs := stripChars value.toList
  if maxChars = 0 then ""
  else if cs.length ≤ maxChars then String.ofList cs
  else if maxChars ≤ TRUNCATE_ELLIPSIS_LEN then String.ofList (cs.take maxChars)
  else
    let budget := maxChars - TRUNCATE_ELLIPSIS_LEN
    let head := cs.take budget
    if (cs.drop budget).head?.any isSpace then String.ofList (head.rdropWhile isSpace ++ "...".toList)
    else String.ofList (headWords head ++ "...".toList)

/-- The key itself, then the key with a counter behind it. -/
def numberedKey (key : String) : Nat → String
  | 0 => key
  | n + 1 => s!"{key}.{n + 1}"

def patternsFor (x : FactRules) : List (String × String) :=
  if x.profile = some "personal-assistant" then paPatterns ++ decisionPatterns else decisionPatterns

/-- The tier of the first pattern that is found in the text. -/
def matchedTier (x : FactRules) (text : String) : Option String :=
  ((patternsFor x).find? (fun p => x.search p.1 text)).map (·.2)

/-- One chunk of `extract_durable_facts`; the facts so far carry the seen values and the used keys. -/
def addFact (x : FactRules) (maxValueChars : Nat) (text : String) (facts : List DurableFact) :
    List DurableFact :=
  match matchedTier x text with
  | none => facts
  | some tier =>
    let value := truncate text maxValueChars
    if value ∈ facts.map (·.value) then facts
    else
      let used := facts.map (·.key)
      let baseKey := slugify x (String.ofList (value.toList.take 80)) 64
      facts ++ [⟨firstFree (numberedKey baseKey) used used.length 0, value, tier⟩]

def collectFacts (x : FactRules) (maxFacts maxValueChars : Nat) :
    List (List Char) → List DurableFact → List DurableFact
  | [], facts => facts
  | chunk :: rest, facts =>
    let text := stripChars chunk
    if text.length < MIN_CHUNK_CHARS then collectFacts x maxFacts maxValueChars rest facts
    else
      let added := addFact x maxValueChars (String.ofList text) facts
      if maxFacts ≤ added.length then added else collectFacts x maxFacts maxValueChars rest added

/-- `extract_durable_facts`. -/
def extractDurableFacts (x : FactRules) (context : String) (maxFacts maxValueChars : Nat) :
    List DurableFact :=
  if isBlank context then []
  else
    let chunks := splitSentences .text [] [] (stripChars context.toList)
    (collectFacts x maxFacts maxValueChars chunks []).take maxFacts

/-- No two of the facts share their key or their value. -/
structure Apart (facts : List DurableFact) : Prop where
  keys : (facts.map (·.key)).Nodup
  values : (facts.map (·.value)).Nodup

section Apart
variable {x : FactRules} {key : String} {facts : List DurableFact} {maxFacts maxValueChars : Nat}

theorem numberedKey_inj (m n : Nat) (h : numberedKey key m = numberedKey key n) : m = n := by
  have hchars : ∀ n, (numberedKey key (n + 1)).toList =
      key.toList ++ '.' :: Nat.toDigits 10 (n + 1) := by
    intro n
    have hdot : ".".toList = ['.'] := rfl
    rw [← Nat.toList_repr]
    simp only [numberedKey, toString, String.toList_append, hdot, List.append_assoc,
      List.cons_append, List.nil_append]
  have hlonger : ∀ n, numberedKey key (n + 1) ≠ key := by
    intro n h
    have hlength := congrArg List.length ((hchars n).symm.trans (congrArg String.toList h))
    rw [List.length_append, List.length_cons] at hlength
    omega
  cases m with
  | zero =>
    cases n with
    | zero => rfl
    | succ n => exact absurd h.symm (hlonger n)
  | succ m =>
    cases n with
    | zero => exact absurd h (hlonger m)
    | succ n =>
      have hlists := congrArg String.toList h
      rw [hchars, hchars] at hlists
      exact toDigits_inj (List.cons.inj (List.append_cancel_left hlists)).2

theorem Apart.nil : Apart [] := ⟨List.nodup_nil, List.nodup_nil⟩

theorem Apart.take (h : Apart facts) (n : Nat) : Apart (facts.take n) := by
  have hsub := List.take_sublist n facts
  exact ⟨h.keys.sublist (hsub.map _), h.values.sublist (hsub.map _)⟩

/-- A fact joins with a free key and a value not seen before. -/
theorem Apart.add (h : Apart facts) (text : String) : Apart (addFact x maxValueChars text facts) := by
  unfold addFact
  split
  · exact h
  · next tier _ =>
    dsimp only
    split
    · exact h
    · next hnew =>
      constructor
      · rw [List.map_append, List.map_singleton, ← List.concat_eq_append]
        exact h.keys.concat (firstFree_not_mem numberedKey_inj 0)
      · rw [List.map_append, List.map_singleton, ← List.concat_eq_append]
        exact h.values.concat hnew

theorem Apart.collect (h : Apart facts) (chunks : List (List Char)) :
    Apart (collectFacts x maxFacts maxValueChars chunks facts) := by
  induction chunks generalizing facts with
  | nil => exact h
  | cons chunk rest ih =>
    rw [collectFacts]
    dsimp only
    split
    · exact ih h
    · split
      · exact h.add _
      · exact ih (h.add _)

theorem extractDurableFacts_apart (x : FactRules) (context : String) (maxFacts maxValueChars : Nat) :
    Apart (extractDurableFacts x context maxFacts maxValueChars) := by
  unfold extractDurableFacts
  split
  · exact .nil
  · exact (Apart.nil.collect _).take _

end Apart
end TappsBrain.Extraction
