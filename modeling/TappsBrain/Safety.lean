import Mathlib
import TappsBrain.Text

namespace TappsBrain
set_option autoImplicit true
set_option relaxedAutoImplicit false

/-- A compiled pattern of the filter, through the three methods the filter calls. -/
structure Pattern where
  name : String
  findall : String → List String
  search : String → Bool
  sub : String → String → String

/-- The bundled pattern table and the text functions beside it. -/
structure SafetyRules where
  patterns : List Pattern
  nfkc : String → String
  /-- `_find_encoded_injection`: the label of an encoded payload. -/
  findEncodedInjection : List Pattern → String → Option String

def DEFAULT_SAFETY_RULESET_VERSION : String := "1.0.0"
def SUPPORTED_SAFETY_RULESET_VERSIONS : List String := [DEFAULT_SAFETY_RULESET_VERSION]
def MAX_PATTERN_MATCHES : Nat := 5

/-- `resolve_safety_ruleset_version`. -/
def resolveSafetyRulesetVersion : Option String → String
  | none => DEFAULT_SAFETY_RULESET_VERSION
  | some requested =>
    if strip requested ∈ SUPPORTED_SAFETY_RULESET_VERSIONS then strip requested
    else DEFAULT_SAFETY_RULESET_VERSION

/-- The line boundaries of `str.splitlines`. -/
def isLineBreak (c : Char) : Bool :=
  let n := c.toNat
  (10 ≤ n && n ≤ 13) || (28 ≤ n && n ≤ 30) || n == 0x85 || n == 0x2028 || n == 0x2029

def splitLineChars : List Char → List Char → List String
  | line, [] => if line = [] then [] else [String.ofList line.reverse]
  | line, '\r' :: '\n' :: rest => String.ofList line.reverse :: splitLineChars [] rest
  | line, c :: rest =>
    if isLineBreak c then String.ofList line.reverse :: splitLineChars [] rest
    else splitLineChars (c :: line) rest

/-- `str.splitlines()`. -/
def splitlines (s : String) : List String := splitLineChars [] s.toList

structure SafetyCheckResult where
  safe : Bool := true
  flaggedPatterns : List String := []
  matchCount : Nat := 0
  sanitisedContent : Option String := none
  warning : Option String := none
  rulesetVersion : String := ""
deriving DecidableEq, Repr

/-- `_sanitise_content`. -/
def sanitiseContent (content : String) (patterns : List Pattern) : String :=
  patterns.foldl (fun text p => p.sub "[REDACTED]" text) content

/-- The patterns that match, in table order. -/
def matchingPatterns (patterns : List Pattern) (text : String) : List Pattern :=
  patterns.filter (fun p => p.findall text ≠ [])

def matchCount (patterns : List Pattern) (text : String) : Nat :=
  (patterns.map (fun p => (p.findall text).length)).sum

def suspiciousLines (patterns : List Pattern) (lines : List String) : Nat :=
  lines.countP (fun line => patterns.any (fun p => p.search line))

/-- The share of suspicious lines is over `_SUSPICIOUS_DENSITY_THRESHOLD`. -/
def highDensity (patterns : List Pattern) (text : String) : Bool :=
  let lines := splitlines text
  0 < lines.length && 15 * lines.length < 100 * suspiciousLines patterns lines

/-- The text a low match count is answered with: the original bytes redacted, or the normalised
form redacted where that leaves a pattern in place. -/
def redacted (r : SafetyRules) (content : String) : String :=
  let sanitised := sanitiseContent content r.patterns
  if r.patterns.any (fun p => p.search (r.nfkc sanitised)) then
    sanitiseContent (r.nfkc content) r.patterns
  else sanitised

/-- `check_content_safety`. -/
def checkContentSafety (r : SafetyRules) (version : Option String) (content : String) :
    SafetyCheckResult :=
  let resolved := resolveSafetyRulesetVersion version
  if isBlank content then { rulesetVersion := resolved }
  else
    let normalised := r.nfkc content
    let flagged := (matchingPatterns r.patterns normalised).map Pattern.name
    let total := matchCount r.patterns normalised
    match r.findEncodedInjection r.patterns normalised with
    | some label =>
      { safe := false
        flaggedPatterns := flagged ++ [label]
        matchCount := total + 1
        warning := some ("Content blocked: encoded injection payload detected (" ++
          ", ".intercalate (flagged ++ [label]) ++ ")")
        rulesetVersion := resolved }
    | none =>
      if total = 0 then { rulesetVersion := resolved }
      else if MAX_PATTERN_MATCHES < total || highDensity r.patterns normalised then
        { safe := false
          flaggedPatterns := flagged
          matchCount := total
          warning := some (s!"Content blocked: {total} prompt injection patterns detected (" ++
            ", ".intercalate flagged ++ ")")
          rulesetVersion := resolved }
      else
        { flaggedPatterns := flagged
          matchCount := total
          sanitisedContent := some (redacted r content)
          warning := some ("Minor injection patterns detected and sanitised (" ++
            ", ".intercalate flagged ++ ")")
          rulesetVersion := resolved }

theorem matchingPatterns_ne_nil {patterns : List Pattern} {text : String}
    (h : matchCount patterns text ≠ 0) : matchingPatterns patterns text ≠ [] := by
  intro hnil
  apply h
  simp only [matchCount]
  apply List.sum_eq_zero_iff_forall_eq_nat.mpr
  intro n hn
  obtain ⟨p, hp, rfl⟩ := List.mem_map.mp hn
  have hkept := List.filter_eq_nil_iff.mp hnil p hp
  simpa only [ne_eq, decide_not, Bool.not_eq_true', decide_eq_false_iff_not, Decidable.not_not,
    List.length_eq_zero_iff] using hkept

theorem checkContentSafety_blank (r : SafetyRules) (version : Option String) {content : String}
    (h : isBlank content = true) :
    checkContentSafety r version content =
      { rulesetVersion := resolveSafetyRulesetVersion version } := by
  simp only [checkContentSafety, h, ↓reduceIte]

/-- A text that is let through is rewritten exactly when some pattern flagged it. -/
theorem checkContentSafety_rewrites {r : SafetyRules} {version : Option String} {content : String}
    (h : (checkContentSafety r version content).safe = true) :
    (checkContentSafety r version content).sanitisedContent = none ↔
      (checkContentSafety r version content).flaggedPatterns = [] := by
  simp only [checkContentSafety] at h ⊢
  by_cases hb : isBlank content = true
  · simp only [hb, ↓reduceIte]
  · simp only [hb, Bool.false_eq_true, ↓reduceIte] at h ⊢
    cases he : r.findEncodedInjection r.patterns (r.nfkc content) with
    | some label => simp only [he, Bool.false_eq_true] at h
    | none =>
      simp only [he] at h ⊢
      by_cases ht : matchCount r.patterns (r.nfkc content) = 0
      · simp only [ht, ↓reduceIte]
      · simp only [ht, ↓reduceIte] at h ⊢
        split at h
        · cases h
        · rename_i hd
          simp only [hd, Bool.false_eq_true, ↓reduceIte, reduceCtorEq, List.map_eq_nil_iff,
            matchingPatterns_ne_nil ht]

end TappsBrain
