import Mathlib.Data.List.Basic

namespace TappsBrain
set_option autoImplicit true
set_option relaxedAutoImplicit false

/-- The parts of Python's `str` that rest on the Unicode tables. -/
structure Unicode where
  lower : String → String
  lower_lower : ∀ s, lower (lower s) = lower s
  nfkc : String → String
  repr : String → String

/-- `str.isspace`: the code points Python strips and splits at. -/
def isSpace (c : Char) : Bool :=
  let n := c.toNat
  (9 ≤ n && n ≤ 13) || (28 ≤ n && n ≤ 32) || n == 0x85 || n == 0xA0 || n == 0x1680 ||
    (0x2000 ≤ n && n ≤ 0x200A) || n == 0x2028 || n == 0x2029 || n == 0x202F || n == 0x205F ||
    n == 0x3000

def stripChars (cs : List Char) : List Char :=
  ((cs.dropWhile isSpace).reverse.dropWhile isSpace).reverse

/-- `str.strip()`. -/
def strip (s : String) : String := String.ofList (stripChars s.toList)

/-- `not s.strip()`. -/
def isBlank (s : String) : Bool := s.toList.all isSpace

def splitChars : List Char → List Char → List String
  | word, [] => if word = [] then [] else [String.ofList word.reverse]
  | word, c :: rest =>
    if isSpace c then
      if word = [] then splitChars [] rest
      else String.ofList word.reverse :: splitChars [] rest
    else splitChars (c :: word) rest

/-- `str.split()`. -/
def split (s : String) : List String := splitChars [] s.toList

/-- `" ".join(s.split())`. -/
def collapse (s : String) : String := " ".intercalate (split s)

def MAX_KEY_LENGTH : Nat := 128

def isSlugHead (c : Char) : Bool :=
  (97 ≤ c.toNat && c.toNat ≤ 122) || (48 ≤ c.toNat && c.toNat ≤ 57)

def isSlugTail (c : Char) : Bool := isSlugHead c || c == '.' || c == '_' || c == '-'

/-- `_KEY_SLUG_PATTERN.fullmatch`. -/
def keySlug (key : String) : Bool :=
  match key.toList with
  | [] => false
  | c :: rest => isSlugHead c && rest.all isSlugTail && rest.length < MAX_KEY_LENGTH

def MAX_MEMORY_GROUP_LENGTH : Nat := 64

def isControl (c : Char) : Bool :=
  let n := c.toNat
  n < 32 || (0x7F ≤ n && n ≤ 0x9F)

/-- `normalize_memory_group`. -/
def normalizeMemoryGroup (raw : String) : Except String (Option String) :=
  let s := strip raw
  if s = "" then .ok none
  else if s.length > MAX_MEMORY_GROUP_LENGTH then
    .error s!"memory_group exceeds max length ({s.length} > {MAX_MEMORY_GROUP_LENGTH})."
  else if s.toList.any isControl then .error "memory_group must not contain control characters."
  else .ok (some s)

def GROUP_AGENT_SCOPE_PREFIX : String := "group:"

def VALID_PRIMITIVE_SCOPES : List String := ["private", "domain", "hive", "group"]

/-- What `(?i)^group:\s*(.*)$` captures from a stripped text. -/
def groupScopeName (u : Unicode) (s : String) : Option String :=
  let head := s.toList.take GROUP_AGENT_SCOPE_PREFIX.length
  let inner := (s.toList.drop GROUP_AGENT_SCOPE_PREFIX.length).dropWhile isSpace
  if u.lower (String.ofList head) = GROUP_AGENT_SCOPE_PREFIX && !inner.contains '\n' then
    some (String.ofList inner)
  else none

/-- `normalize_agent_scope`. -/
def normalizeAgentScope (u : Unicode) (raw : String) : Except String String :=
  let s := strip raw
  if s = "" then .error "agent_scope must not be empty"
  else if u.lower s ∈ VALID_PRIMITIVE_SCOPES then .ok (u.lower s)
  else
    match groupScopeName u s with
    | none =>
      .error (s!"Invalid agent_scope {u.repr raw}. Use private, domain, hive, or group:<name> " ++
        "(see docs/guides/hive.md).")
    | some inner =>
      match normalizeMemoryGroup (strip inner) with
      | .error e => .error e
      | .ok none => .error "agent_scope group:<name> requires a non-empty group name"
      | .ok (some name) => .ok (GROUP_AGENT_SCOPE_PREFIX ++ name)

/-- `normalize_for_dedup`. -/
def normalizeForDedup (u : Unicode) (text : String) : String :=
  if text = "" then "" else collapse (u.lower (u.nfkc text))

/-- `_normalize_ws`. -/
def normalizeWs (u : Unicode) (text : String) : String := collapse (u.lower text)

theorem keySlug_length {key : String} (h : keySlug key = true) :
    0 < key.length ∧ key.length ≤ MAX_KEY_LENGTH := by
  unfold keySlug at h
  rw [← String.length_toList]
  cases hk : key.toList with
  | nil => simp [hk] at h
  | cons c rest =>
    simp only [hk, Bool.and_eq_true, decide_eq_true_eq] at h
    simp only [List.length_cons]
    omega

end TappsBrain
