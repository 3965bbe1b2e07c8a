import Mathlib.Data.List.Basic
import Mathlib.Tactic.NormNum

namespace Lib
set_option autoImplicit true
set_option relaxedAutoImplicit false

/-- A JSON value over a type of numbers; of two members with one name the later counts. -/
inductive Json (ν : Type) where
  | null
  | bool (b : Bool)
  | num (n : ν)
  | str (s : String)
  | arr (items : List (Json ν))
  | obj (members : List (String × Json ν))
deriving Repr

/-- A character that opens a numeral; `NaN` and the infinities are numerals. -/
def opensNumeral (c : Char) : Bool := c.isDigit || c == '-' || c == 'N' || c == 'I'

/-- A character that numerals are made of. -/
def isNumeric (c : Char) : Bool :=
  opensNumeral c || ['+', '.', 'e', 'E', 'a', 'n', 'f', 'i', 't', 'y'].contains c

/-- How numbers are written and read back. -/
structure Numerals (ν : Type) where
  write : ν → List Char
  read : List Char → Option ν
  read_write : ∀ n, read (write n) = some n
  opens : ∀ n, ∃ c rest, write n = c :: rest ∧ opensNumeral c = true
  numeric : ∀ n, ∀ c ∈ write n, isNumeric c = true

namespace Json

/-- The value of a member of an object. -/
def get? : Json ν → String → Option (Json ν)
  | .obj members, name => members.reverse.lookup name
  | _, _ => none

def hexDigit (d : Nat) : Char :=
  if d < 10 then Char.ofNat (48 + d) else Char.ofNat (87 + d)

def hexValue (c : Char) : Option Nat :=
  if 48 ≤ c.toNat ∧ c.toNat ≤ 57 then some (c.toNat - 48)
  else if 97 ≤ c.toNat ∧ c.toNat ≤ 102 then some (c.toNat - 87)
  else if 65 ≤ c.toNat ∧ c.toNat ≤ 70 then some (c.toNat - 55)
  else none

def hex4 (n : Nat) : List Char :=
  [hexDigit (n / 4096), hexDigit (n / 256 % 16), hexDigit (n / 16 % 16), hexDigit (n % 16)]

def unicodeEscape (n : Nat) : List Char := '\\' :: 'u' :: hex4 n

/-- A character of a string literal; what is not printable ASCII is escaped. -/
def escapeChar (c : Char) : List Char :=
  if c = '"' then ['\\', '"']
  else if c = '\\' then ['\\', '\\']
  else if c = '\n' then ['\\', 'n']
  else if c = '\r' then ['\\', 'r']
  else if c = '\t' then ['\\', 't']
  else if c = '\x0c' then ['\\', 'f']
  else if c = '\x08' then ['\\', 'b']
  else if 32 ≤ c.toNat ∧ c.toNat ≤ 126 then [c]
  else if c.toNat < 65536 then unicodeEscape c.toNat
  else
    unicodeEscape (55296 + (c.toNat - 65536) / 1024) ++
      unicodeEscape (56320 + (c.toNat - 65536) % 1024)

/-- The rest of a string literal, its closing quote included. -/
def quotedTail (s : List Char) : List Char := s.flatMap escapeChar ++ ['"']

mutual

/-- The text of a value on one line, with a blank after each comma and colon. -/
def text (N : Numerals ν) : Json ν → List Char
  | .null => ['n', 'u', 'l', 'l']
  | .bool true => ['t', 'r', 'u', 'e']
  | .bool false => ['f', 'a', 'l', 's', 'e']
  | .num n => N.write n
  | .str s => '"' :: quotedTail s.toList
  | .arr [] => ['[', ']']
  | .arr (x :: rest) => '[' :: (text N x ++ itemsTail N rest)
  | .obj [] => ['{', '}']
  | .obj ((name, x) :: rest) =>
    '{' :: '"' :: (quotedTail name.toList ++ ':' :: ' ' :: (text N x ++ membersTail N rest))

def itemsTail (N : Numerals ν) : List (Json ν) → List Char
  | [] => [']']
  | x :: rest => ',' :: ' ' :: (text N x ++ itemsTail N rest)

def membersTail (N : Numerals ν) : List (String × Json ν) → List Char
  | [] => ['}']
  | (name, x) :: rest =>
    ',' :: ' ' :: '"' :: (quotedTail name.toList ++ ':' :: ' ' :: (text N x ++ membersTail N rest))

end

/-- `json.dumps`. -/
def dumps (N : Numerals ν) (j : Json ν) : String := String.ofList (text N j)

def isBlankChar (c : Char) : Bool := c == ' ' || c == '\t' || c == '\n' || c == '\r'

def skipBlanks (cs : List Char) : List Char := cs.dropWhile isBlankChar

/-- The text behind the character, where it comes next. -/
def eat (c : Char) : List Char → Option (List Char)
  | [] => none
  | d :: rest => if d = c then some rest else none

def readHex4 : List Char → Option (Nat × List Char)
  | a :: b :: c :: d :: rest => do
    let a ← hexValue a
    let b ← hexValue b
    let c ← hexValue c
    let d ← hexValue d
    some (a * 4096 + b * 256 + c * 16 + d, rest)
  | _ => none

/-- The character of a surrogate pair, from its first half and what was read of its second. -/
def joinSurrogates (n : Nat) (r : Nat × List Char) : Option (Char × List Char) :=
  if 56320 ≤ r.1 ∧ r.1 ≤ 57343 then
    some (Char.ofNat (65536 + (n - 55296) * 1024 + (r.1 - 56320)), r.2)
  else none

/-- The character a four-digit escape stands for, together with the second half of a surrogate
pair where it opens one. -/
def readUnicode (n : Nat) (rest : List Char) : Option (Char × List Char) :=
  if 55296 ≤ n ∧ n ≤ 56319 then
    (((eat '\\' rest).bind (eat 'u')).bind readHex4).bind (joinSurrogates n)
  else if 56320 ≤ n ∧ n ≤ 57343 then none
  else some (Char.ofNat n, rest)

/-- The character behind a backslash. -/
def readEscape : List Char → Option (Char × List Char)
  | c :: rest =>
    if c = 'u' then (readHex4 rest).bind (fun r => readUnicode r.1 r.2)
    else if c = '"' ∨ c = '\\' ∨ c = '/' then some (c, rest)
    else if c = 'n' then some ('\n', rest)
    else if c = 'r' then some ('\r', rest)
    else if c = 't' then some ('\t', rest)
    else if c = 'f' then some ('\x0c', rest)
    else if c = 'b' then some ('\x08', rest)
    else none
  | [] => none

/-- One character of a string literal. -/
def readChar : List Char → Option (Char × List Char)
  | [] => none
  | c :: rest =>
    if c = '\\' then readEscape rest
    else if c.toNat < 32 then none
    else some (c, rest)

/-- A string literal behind its opening quote. -/
def readQuoted : Nat → List Char → Option (List Char × List Char)
  | 0, _ => none
  | _ + 1, [] => none
  | fuel + 1, c :: rest =>
    if c = '"' then some ([], rest)
    else do
      let (d, rest) ← readChar (c :: rest)
      let (ds, rest) ← readQuoted fuel rest
      some (d :: ds, rest)

def readString (cs : List Char) : Option (String × List Char) :=
  (readQuoted cs.length cs).map (fun r => (String.ofList r.1, r.2))

def readLiteral (name : List Char) (j : Json ν) (cs : List Char) : Option (Json ν × List Char) :=
  if name.isPrefixOf cs then some (j, cs.drop name.length) else none

def readNumber (N : Numerals ν) (cs : List Char) : Option (Json ν × List Char) :=
  (N.read (cs.takeWhile isNumeric)).map (fun n => (.num n, cs.dropWhile isNumeric))

/-- The name of a member and its colon. -/
def readName (cs : List Char) : Option (String × List Char) := do
  let rest ← eat '"' cs
  let (name, rest) ← readString rest
  let rest ← eat ':' (skipBlanks rest)
  some (name, skipBlanks rest)

mutual

def readValue (N : Numerals ν) : Nat → List Char → Option (Json ν × List Char)
  | 0, _ => none
  | _ + 1, [] => none
  | fuel + 1, c :: rest =>
    if c = 'n' then readLiteral ['n', 'u', 'l', 'l'] .null (c :: rest)
    else if c = 't' then readLiteral ['t', 'r', 'u', 'e'] (.bool true) (c :: rest)
    else if c = 'f' then readLiteral ['f', 'a', 'l', 's', 'e'] (.bool false) (c :: rest)
    else if c = '"' then (readString rest).map (fun r => (.str r.1, r.2))
    else if c = '[' then
      match eat ']' (skipBlanks rest) with
      | some rest => some (.arr [], rest)
      | none => (readItems N fuel (skipBlanks rest)).map (fun r => (.arr r.1, r.2))
    else if c = '{' then
      match eat '}' (skipBlanks rest) with
      | some rest => some (.obj [], rest)
      | none => (readMembers N fuel (skipBlanks rest)).map (fun r => (.obj r.1, r.2))
    else readNumber N (c :: rest)

def readItems (N : Numerals ν) : Nat → List Char → Option (List (Json ν) × List Char)
  | 0, _ => none
  | fuel + 1, cs => do
    let (x, rest) ← readValue N fuel cs
    match eat ']' (skipBlanks rest) with
    | some rest => some ([x], rest)
    | none => do
      let rest ← eat ',' (skipBlanks rest)
      let (xs, rest) ← readItems N fuel (skipBlanks rest)
      some (x :: xs, rest)

def readMembers (N : Numerals ν) : Nat → List Char → Option (List (String × Json ν) × List Char)
  | 0, _ => none
  | fuel + 1, cs => do
    let (name, rest) ← readName cs
    let (x, rest) ← readValue N fuel rest
    match eat '}' (skipBlanks rest) with
    | some rest => some ([(name, x)], rest)
    | none => do
      let rest ← eat ',' (skipBlanks rest)
      let (xs, rest) ← readMembers N fuel (skipBlanks rest)
      some ((name, x) :: xs, rest)

end

/-- `json.loads`; a lone surrogate is refused. -/
def loads (N : Numerals ν) (s : String) : Option (Json ν) :=
  match readValue N (s.toList.length + 1) (skipBlanks s.toList) with
  | some (j, rest) => if skipBlanks rest = [] then some j else none
  | none => none

section Strings
variable {c : Char} {s rest : List Char} {n : Nat}

@[simp] theorem eat_self (c : Char) (rest : List Char) : eat c (c :: rest) = some rest := if_pos rfl

theorem eat_ne {d : Char} (h : d ≠ c) (rest : List Char) : eat c (d :: rest) = none := if_neg h

theorem hexValue_hexDigit : ∀ d < 16, hexValue (hexDigit d) = some d := by decide

theorem readHex4_hex4 (h : n < 65536) (rest : List Char) :
    readHex4 (hex4 n ++ rest) = some (n, rest) := by
  have h₁ := hexValue_hexDigit (n / 4096) (by omega)
  have h₂ := hexValue_hexDigit (n / 256 % 16) (by omega)
  have h₃ := hexValue_hexDigit (n / 16 % 16) (by omega)
  have h₄ := hexValue_hexDigit (n % 16) (by omega)
  have hsum : n / 4096 * 4096 + n / 256 % 16 * 256 + n / 16 % 16 * 16 + n % 16 = n := by omega
  change readHex4 (_ :: _ :: _ :: _ :: rest) = _
  rw [readHex4, h₁, h₂, h₃, h₄]
  change some (n / 4096 * 4096 + n / 256 % 16 * 256 + n / 16 % 16 * 16 + n % 16, rest) = _
  rw [hsum]

theorem toNat_range (c : Char) : c.toNat < 55296 ∨ 57343 < c.toNat ∧ c.toNat < 1114112 := c.valid

theorem readChar_unicodeEscape (h : n < 65536) :
    readChar (unicodeEscape n ++ rest) = readUnicode n rest := by
  change (readHex4 (hex4 n ++ rest)).bind _ = _
  rw [readHex4_hex4 h]
  rfl

theorem readUnicode_plain (h : c.toNat < 65536) : readUnicode c.toNat rest = some (c, rest) := by
  have hr := toNat_range c
  rw [readUnicode, if_neg (by omega), if_neg (by omega), Char.ofNat_toNat]

/-- A character beyond the first plane is read back from its surrogate pair. -/
theorem readUnicode_pair (h : ¬ c.toNat < 65536) :
    readUnicode (55296 + (c.toNat - 65536) / 1024)
      (unicodeEscape (56320 + (c.toNat - 65536) % 1024) ++ rest) = some (c, rest) := by
  have hr := toNat_range c
  have hsum : 65536 + (55296 + (c.toNat - 65536) / 1024 - 55296) * 1024 +
      (56320 + (c.toNat - 65536) % 1024 - 56320) = c.toNat := by omega
  rw [readUnicode, if_pos (by omega), unicodeEscape, List.cons_append, List.cons_append, eat_self,
    Option.bind_some, eat_self, Option.bind_some, readHex4_hex4 (by omega), Option.bind_some,
    joinSurrogates, if_pos (by dsimp only; omega), hsum, Char.ofNat_toNat]

/-- Every character is read back from the way it is escaped. -/
theorem readChar_escapeChar (c : Char) (rest : List Char) :
    readChar (escapeChar c ++ rest) = some (c, rest) := by
  unfold escapeChar
  split
  · next h => subst h; rfl
  split
  · next h => subst h; rfl
  split
  · next h => subst h; rfl
  split
  · next h => subst h; rfl
  split
  · next h => subst h; rfl
  split
  · next h => subst h; rfl
  split
  · next h => subst h; rfl
  split
  · next hslash _ _ _ _ _ h =>
    rw [List.singleton_append, readChar, if_neg hslash, if_neg (by omega)]
  split
  · next h => rw [readChar_unicodeEscape h, readUnicode_plain h]
  · next h =>
    have hr := toNat_range c
    rw [List.append_assoc, readChar_unicodeEscape (by omega), readUnicode_pair h]

/-- An escaped character opens with no quote. -/
theorem escapeChar_cons (c : Char) : ∃ d tail, escapeChar c = d :: tail ∧ d ≠ '"' := by
  unfold escapeChar
  split
  · exact ⟨_, _, rfl, by decide⟩
  split
  · exact ⟨_, _, rfl, by decide⟩
  split
  · exact ⟨_, _, rfl, by decide⟩
  split
  · exact ⟨_, _, rfl, by decide⟩
  split
  · exact ⟨_, _, rfl, by decide⟩
  split
  · exact ⟨_, _, rfl, by decide⟩
  split
  · exact ⟨_, _, rfl, by decide⟩
  split
  · next hquote _ _ _ _ _ _ _ => exact ⟨_, _, rfl, hquote⟩
  split
  · exact ⟨_, _, rfl, by decide⟩
  · exact ⟨_, _, rfl, by decide⟩

theorem readQuoted_quotedTail {fuel : Nat} (h : s.length < fuel) :
    readQuoted fuel (quotedTail s ++ rest) = some (s, rest) := by
  induction s generalizing fuel with
  | nil =>
    obtain ⟨fuel, rfl⟩ := Nat.exists_eq_succ_of_ne_zero (Nat.ne_zero_of_lt h)
    rfl
  | cons c cs ih =>
    obtain ⟨fuel, rfl⟩ := Nat.exists_eq_succ_of_ne_zero (Nat.ne_zero_of_lt h)
    obtain ⟨d, tail, hd, hne⟩ := escapeChar_cons c
    have hread : readChar (d :: (tail ++ (quotedTail cs ++ rest))) =
        some (c, quotedTail cs ++ rest) := by
      rw [← List.cons_append, ← hd]
      exact readChar_escapeChar c _
    have htext : quotedTail (c :: cs) ++ rest = d :: (tail ++ (quotedTail cs ++ rest)) := by
      simp only [quotedTail, List.flatMap_cons, hd, List.append_assoc, List.cons_append]
    rw [htext, readQuoted, if_neg hne, hread]
    change (readQuoted fuel (quotedTail cs ++ rest)).bind _ = _
    rw [ih (Nat.lt_of_succ_lt_succ h)]
    rfl

theorem length_quotedTail (s : List Char) : s.length < (quotedTail s).length := by
  induction s with
  | nil => exact Nat.zero_lt_one
  | cons c cs ih =>
    obtain ⟨d, tail, hd, -⟩ := escapeChar_cons c
    simp only [quotedTail, List.flatMap_cons, hd, List.cons_append, List.length_cons,
      List.length_append, List.length_nil] at ih ⊢
    omega

theorem readString_quotedTail (name : String) (rest : List Char) :
    readString (quotedTail name.toList ++ rest) = some (name, rest) := by
  have hlen : name.toList.length < (quotedTail name.toList ++ rest).length := by
    rw [List.length_append]
    exact Nat.lt_add_right _ (length_quotedTail _)
  rw [readString, readQuoted_quotedTail hlen, Option.map_some, String.ofList_toList]

end Strings

section Values
variable {N : Numerals ν} {rest : List Char}

/-- The text behind a value does not prolong a numeral. -/
def Ends (rest : List Char) : Prop := ∀ c tail, rest = c :: tail → isNumeric c = false

theorem Ends.nil : Ends [] := fun _ _ h => nomatch h

theorem Ends.cons {c : Char} (h : isNumeric c = false) : Ends (c :: rest) := by
  intro d tail hd
  cases hd
  exact h

theorem itemsTail_ends (N : Numerals ν) (xs : List (Json ν)) (rest : List Char) :
    Ends (itemsTail N xs ++ rest) := by
  cases xs <;> exact Ends.cons (by decide)

theorem membersTail_ends (N : Numerals ν) (ms : List (String × Json ν)) (rest : List Char) :
    Ends (membersTail N ms ++ rest) := by
  cases ms with
  | nil => exact Ends.cons (by decide)
  | cons m ms => exact Ends.cons (by decide)

theorem takeWhile_ends (h : Ends rest) : rest.takeWhile isNumeric = [] := by
  cases rest with
  | nil => rfl
  | cons c tail => rw [List.takeWhile_cons, h c tail rfl, if_neg Bool.false_ne_true]

theorem dropWhile_ends (h : Ends rest) : rest.dropWhile isNumeric = rest := by
  cases rest with
  | nil => rfl
  | cons c tail => rw [List.dropWhile_cons, h c tail rfl, if_neg Bool.false_ne_true]

theorem readNumber_write (n : ν) (h : Ends rest) :
    readNumber N (N.write n ++ rest) = some (.num n, rest) := by
  rw [readNumber, List.takeWhile_append_of_pos (N.numeric n), takeWhile_ends h, List.append_nil,
    N.read_write, List.dropWhile_append_of_pos (N.numeric n), dropWhile_ends h]
  rfl

/-- What may open the text of a value: no blank and no bracket or comma that closes or parts. -/
def opensValue (c : Char) : Bool :=
  !isBlankChar c && c != ']' && c != '}'

theorem ne_of_opensNumeral {c d : Char} (h : opensNumeral c = true) (hd : opensNumeral d = false) :
    c ≠ d := by
  rintro rfl
  rw [h] at hd
  cases hd

theorem opensValue_of_numeral {c : Char} (h : opensNumeral c = true) : opensValue c = true := by
  have hne : ∀ d, opensNumeral d = false → (c == d) = false :=
    fun d hd => beq_eq_false_iff_ne.2 (ne_of_opensNumeral h hd)
  rw [opensValue, isBlankChar, bne, bne, hne ' ' rfl, hne '\t' rfl, hne '\n' rfl, hne '\r' rfl,
    hne ']' rfl, hne '}' rfl]
  rfl

theorem text_cons (N : Numerals ν) (j : Json ν) :
    ∃ c tail, text N j = c :: tail ∧ opensValue c = true := by
  cases j with
  | null => exact ⟨_, _, rfl, by decide⟩
  | bool b => cases b <;> exact ⟨_, _, rfl, by decide⟩
  | num n =>
    obtain ⟨c, tail, hc, hn⟩ := N.opens n
    exact ⟨c, tail, hc, opensValue_of_numeral hn⟩
  | str s => exact ⟨_, _, rfl, by decide⟩
  | arr items => cases items <;> exact ⟨_, _, rfl, by decide⟩
  | obj members =>
    cases members with
    | nil => exact ⟨_, _, rfl, by decide⟩
    | cons m ms => exact ⟨_, _, rfl, by decide⟩

mutual

/-- The nodes of a value and of what it holds. -/
def size : Json ν → Nat
  | .arr items => 1 + itemsSize items
  | .obj members => 1 + membersSize members
  | _ => 1

def itemsSize : List (Json ν) → Nat
  | [] => 0
  | x :: rest => 1 + size x + itemsSize rest

def membersSize : List (String × Json ν) → Nat
  | [] => 0
  | (_, x) :: rest => 1 + size x + membersSize rest

end

theorem size_pos (j : Json ν) : 0 < size j := by
  cases j <;> simp only [size] <;> omega

theorem skipBlanks_text (N : Numerals ν) (j : Json ν) (rest : List Char) :
    skipBlanks (text N j ++ rest) = text N j ++ rest := by
  obtain ⟨c, tail, hc, ho⟩ := text_cons N j
  have hblank : isBlankChar c = false := by
    rw [opensValue, Bool.and_eq_true, Bool.and_eq_true] at ho
    exact Bool.not_eq_true' _ ▸ ho.1.1
  rw [hc, List.cons_append, skipBlanks, List.dropWhile_cons, hblank, if_neg Bool.false_ne_true]

theorem eat_text {c : Char} (h : opensValue c = false) (j : Json ν) (rest : List Char) :
    eat c (text N j ++ rest) = none := by
  obtain ⟨d, tail, hd, ho⟩ := text_cons N j
  rw [hd, List.cons_append]
  apply eat_ne
  rintro rfl
  rw [h] at ho
  cases ho

theorem skipBlanks_blank_text (N : Numerals ν) (j : Json ν) (rest : List Char) :
    skipBlanks (' ' :: (text N j ++ rest)) = text N j ++ rest := by
  rw [skipBlanks, List.dropWhile_cons_of_pos rfl]
  exact skipBlanks_text N j rest

theorem readName_quoted (name : String) (j : Json ν) (rest : List Char) :
    readName ('"' :: (quotedTail name.toList ++ ':' :: ' ' :: (text N j ++ rest))) =
      some (name, text N j ++ rest) := by
  unfold readName
  rw [eat_self]
  change (readString _).bind _ = _
  rw [readString_quotedTail]
  change some (name, skipBlanks (' ' :: (text N j ++ rest))) = _
  rw [skipBlanks_blank_text]

/-- With the fuel its nodes ask for, the text of a value is read back and no more than it. -/
theorem read_text (N : Numerals ν) (fuel : Nat) :
    (∀ j rest, size j ≤ fuel → Ends rest →
      readValue N fuel (text N j ++ rest) = some (j, rest)) ∧
    (∀ x xs rest, itemsSize (x :: xs) ≤ fuel →
      readItems N fuel (text N x ++ (itemsTail N xs ++ rest)) = some (x :: xs, rest)) ∧
    (∀ name x ms rest, membersSize ((name, x) :: ms) ≤ fuel →
      readMembers N fuel ('"' :: (quotedTail name.toList ++ ':' :: ' ' ::
        (text N x ++ (membersTail N ms ++ rest)))) = some ((name, x) :: ms, rest)) := by
  induction fuel with
  | zero =>
    refine ⟨fun j _ h => ?_, fun x xs _ h => ?_, fun name x ms _ h => ?_⟩
    · exact absurd (size_pos j) (by omega)
    · simp only [itemsSize] at h
      omega
    · simp only [membersSize] at h
      omega
  | succ fuel ih =>
    obtain ⟨hvalue, hitems, hmembers⟩ := ih
    refine ⟨fun j rest h hr => ?_, fun x xs rest h => ?_, fun name x ms rest h => ?_⟩
    · cases j with
      | null => rfl
      | bool b => cases b <;> rfl
      | num n =>
        obtain ⟨c, tail, hc, ho⟩ := N.opens n
        have hread : readNumber N (N.write n ++ rest) = some (.num n, rest) := readNumber_write n hr
        have hne : ∀ d, opensNumeral d = false → ¬ c = d := fun d hd => ne_of_opensNumeral ho hd
        rw [text, hc, List.cons_append] at *
        rw [readValue, if_neg (hne 'n' rfl), if_neg (hne 't' rfl), if_neg (hne 'f' rfl),
          if_neg (hne '"' rfl), if_neg (hne '[' rfl), if_neg (hne '{' rfl), hread]
      | str s =>
        change (readString (quotedTail s.toList ++ rest)).map _ = _
        rw [readString_quotedTail]
        rfl
      | arr items =>
        cases items with
        | nil => rfl
        | cons x xs =>
          simp only [size] at h
          have hx := hitems x xs rest (by omega)
          rw [show text N (.arr (x :: xs)) ++ rest =
            '[' :: (text N x ++ (itemsTail N xs ++ rest)) by
              rw [text, List.cons_append, List.append_assoc]]
          rw [readValue, if_neg (by decide), if_neg (by decide), if_neg (by decide),
            if_neg (by decide), if_pos rfl, skipBlanks_text, eat_text rfl]
          dsimp only
          rw [hx]
          rfl
      | obj members =>
        cases members with
        | nil => rfl
        | cons m ms =>
          obtain ⟨name, x⟩ := m
          simp only [size] at h
          have hx := hmembers name x ms rest (by omega)
          have htext : text N (.obj ((name, x) :: ms)) ++ rest = '{' :: '"' ::
              (quotedTail name.toList ++ ':' :: ' ' :: (text N x ++ (membersTail N ms ++ rest))) := by
            simp only [text, List.cons_append, List.append_assoc]
          rw [htext]
          change (readMembers N fuel ('"' :: (quotedTail name.toList ++ ':' :: ' ' ::
            (text N x ++ (membersTail N ms ++ rest))))).map _ = _
          rw [hx]
          rfl
    · simp only [itemsSize] at h
      have hx := hvalue x (itemsTail N xs ++ rest) (by omega) (itemsTail_ends N xs rest)
      rw [readItems, hx]
      cases xs with
      | nil => rfl
      | cons y ys =>
        have hy := hitems y ys rest (by simp only [itemsSize] at h ⊢; omega)
        change (readItems N fuel (skipBlanks (' ' :: (text N y ++ itemsTail N ys ++ rest)))).bind _ = _
        rw [List.append_assoc, skipBlanks_blank_text, hy]
        rfl
    · simp only [membersSize] at h
      have hx := hvalue x (membersTail N ms ++ rest) (by omega) (membersTail_ends N ms rest)
      rw [readMembers, readName_quoted]
      change (readValue N fuel (text N x ++ (membersTail N ms ++ rest))).bind _ = _
      rw [hx]
      cases ms with
      | nil => rfl
      | cons m ms =>
        obtain ⟨name', y⟩ := m
        have hy := hmembers name' y ms rest (by simp only [membersSize] at h ⊢; omega)
        have htext : quotedTail name'.toList ++ ':' :: ' ' :: (text N y ++ membersTail N ms) ++ rest =
            quotedTail name'.toList ++ ':' :: ' ' :: (text N y ++ (membersTail N ms ++ rest)) := by
          simp only [List.append_assoc, List.cons_append]
        change (readMembers N fuel ('"' :: (quotedTail name'.toList ++ ':' :: ' ' ::
          (text N y ++ membersTail N ms) ++ rest))).bind _ = _
        rw [htext, hy]
        rfl

mutual

/-- A value has no more nodes than its text has characters. -/
theorem size_le_length (N : Numerals ν) : ∀ j : Json ν, size j ≤ (text N j).length
  | .null => Nat.le_add_left 1 3
  | .bool true => Nat.le_add_left 1 3
  | .bool false => Nat.le_add_left 1 4
  | .num n => by
    obtain ⟨c, tail, hc, -⟩ := N.opens n
    simp only [size, text, hc, List.length_cons]
    exact Nat.le_add_left 1 _
  | .str s => Nat.le_add_left 1 _
  | .arr [] => Nat.le_add_left 1 1
  | .arr (x :: xs) => by
    have hx := size_le_length N x
    have hxs := itemsSize_lt_length N xs
    simp only [size, itemsSize, text, List.length_cons, List.length_append]
    omega
  | .obj [] => Nat.le_add_left 1 1
  | .obj ((name, x) :: ms) => by
    have hx := size_le_length N x
    have hms := membersSize_lt_length N ms
    simp only [size, membersSize, text, List.length_cons, List.length_append]
    omega

theorem itemsSize_lt_length (N : Numerals ν) : ∀ xs : List (Json ν),
    itemsSize xs < (itemsTail N xs).length
  | [] => Nat.zero_lt_one
  | x :: xs => by
    have hx := size_le_length N x
    have hxs := itemsSize_lt_length N xs
    simp only [itemsSize, itemsTail, List.length_cons, List.length_append]
    omega

theorem membersSize_lt_length (N : Numerals ν) : ∀ ms : List (String × Json ν),
    membersSize ms < (membersTail N ms).length
  | [] => Nat.zero_lt_one
  | (name, x) :: ms => by
    have hx := size_le_length N x
    have hms := membersSize_lt_length N ms
    simp only [membersSize, membersTail, List.length_cons, List.length_append]
    omega

end

/-- What is written is read back. -/
theorem loads_dumps (N : Numerals ν) (j : Json ν) : loads N (dumps N j) = some j := by
  have hlist : (dumps N j).toList = text N j := String.toList_ofList
  have hread := (read_text N ((text N j).length + 1)).1 j []
    ((size_le_length N j).trans (Nat.le_succ _)) Ends.nil
  have hskip := skipBlanks_text N j []
  rw [List.append_nil] at hread hskip
  rw [loads, hlist, hskip, hread]
  rfl

theorem membersTail_last (N : Numerals ν) (members : List (String × Json ν)) :
    (membersTail N members).getLast? = some '}' := by
  induction members with
  | nil => rfl
  | cons m rest ih =>
    simp only [membersTail, List.getLast?_cons, List.getLast?_append, ih, Option.some_or,
      Option.getD_some]

/-- A written object begins and ends with its braces. -/
theorem dumps_braced (N : Numerals ν) (members : List (String × Json ν)) :
    ∃ rest, (dumps N (.obj members)).toList = '{' :: rest ∧ ('{' :: rest).getLast? = some '}' := by
  have htext : (dumps N (.obj members)).toList = text N (.obj members) := String.toList_ofList
  rw [htext]
  cases members with
  | nil => exact ⟨['}'], rfl, rfl⟩
  | cons m rest =>
    have hlast := membersTail_last N rest
    refine ⟨_, rfl, ?_⟩
    simp only [List.getLast?_cons, List.getLast?_append, hlast, Option.some_or, Option.getD_some]

/-- Printable ASCII. -/
def printable (c : Char) : Bool := 32 ≤ c.toNat && c.toNat ≤ 126

theorem printable_of_numeric {c : Char} (h : isNumeric c = true) : printable c = true := by
  simp only [isNumeric, opensNumeral, Bool.or_eq_true, beq_iff_eq, List.contains_eq_mem,
    decide_eq_true_eq, List.mem_cons, List.not_mem_nil, or_false] at h
  rcases h with (((h | rfl) | rfl) | rfl) | h
  · simp only [Char.isDigit, Bool.and_eq_true, decide_eq_true_eq, ge_iff_le, UInt32.le_iff_toNat_le]
      at h
    have hlo : 48 ≤ c.toNat := h.1
    have hhi : c.toNat ≤ 57 := h.2
    rw [printable, Bool.and_eq_true, decide_eq_true_eq, decide_eq_true_eq]
    omega
  · decide
  · decide
  · decide
  · rcases h with rfl | rfl | rfl | rfl | rfl | rfl | rfl | rfl | rfl | rfl <;> decide

theorem printable_hexDigit : ∀ d < 16, printable (hexDigit d) = true := by decide

theorem printable_unicodeEscape {n : Nat} (h : n < 65536) :
    ∀ c ∈ unicodeEscape n, printable c = true := by
  simp only [unicodeEscape, hex4, List.forall_mem_cons]
  exact ⟨rfl, rfl, printable_hexDigit _ (by omega), printable_hexDigit _ (by omega),
    printable_hexDigit _ (by omega), printable_hexDigit _ (by omega), nofun⟩

theorem printable_escapeChar (d : Char) : ∀ c ∈ escapeChar d, printable c = true := by
  unfold escapeChar
  split
  · exact List.all_eq_true.1 rfl
  split
  · exact List.all_eq_true.1 rfl
  split
  · exact List.all_eq_true.1 rfl
  split
  · exact List.all_eq_true.1 rfl
  split
  · exact List.all_eq_true.1 rfl
  split
  · exact List.all_eq_true.1 rfl
  split
  · exact List.all_eq_true.1 rfl
  split
  · next h =>
    rw [List.forall_mem_singleton, printable, Bool.and_eq_true, decide_eq_true_eq, decide_eq_true_eq]
    exact h
  split
  · next h => exact printable_unicodeEscape h
  · have hr := toNat_range d
    rw [List.forall_mem_append]
    exact ⟨printable_unicodeEscape (by omega), printable_unicodeEscape (by omega)⟩

theorem printable_quotedTail (s : List Char) : ∀ c ∈ quotedTail s, printable c = true := by
  rw [quotedTail, List.forall_mem_append, List.forall_mem_singleton]
  refine ⟨fun c hc => ?_, rfl⟩
  obtain ⟨d, -, hd⟩ := List.mem_flatMap.1 hc
  exact printable_escapeChar d c hd

mutual

/-- The text of a value is one line of printable ASCII. -/
theorem printable_text (N : Numerals ν) : ∀ j : Json ν, ∀ c ∈ text N j, printable c = true
  | .null => by simp only [text]; exact List.all_eq_true.1 rfl
  | .bool true => by simp only [text]; exact List.all_eq_true.1 rfl
  | .bool false => by simp only [text]; exact List.all_eq_true.1 rfl
  | .num n => fun c hc => printable_of_numeric (N.numeric n c (by simpa only [text] using hc))
  | .str s => by
    simp only [text, List.forall_mem_cons]
    exact ⟨rfl, printable_quotedTail _⟩
  | .arr [] => by simp only [text]; exact List.all_eq_true.1 rfl
  | .arr (x :: xs) => by
    simp only [text, List.forall_mem_cons, List.forall_mem_append]
    exact ⟨rfl, printable_text N x, printable_itemsTail N xs⟩
  | .obj [] => by simp only [text]; exact List.all_eq_true.1 rfl
  | .obj ((name, x) :: ms) => by
    simp only [text, List.forall_mem_cons, List.forall_mem_append]
    exact ⟨rfl, rfl, printable_quotedTail _, rfl, rfl, printable_text N x, printable_membersTail N ms⟩

theorem printable_itemsTail (N : Numerals ν) : ∀ xs : List (Json ν),
    ∀ c ∈ itemsTail N xs, printable c = true
  | [] => by simp only [itemsTail]; exact List.all_eq_true.1 rfl
  | x :: xs => by
    simp only [itemsTail, List.forall_mem_cons, List.forall_mem_append]
    exact ⟨rfl, rfl, printable_text N x, printable_itemsTail N xs⟩

theorem printable_membersTail (N : Numerals ν) : ∀ ms : List (String × Json ν),
    ∀ c ∈ membersTail N ms, printable c = true
  | [] => by simp only [membersTail]; exact List.all_eq_true.1 rfl
  | (name, x) :: ms => by
    simp only [membersTail, List.forall_mem_cons, List.forall_mem_append]
    exact ⟨rfl, rfl, rfl, printable_quotedTail _, rfl, rfl, printable_text N x,
      printable_membersTail N ms⟩

end

end Values

end Json
end Lib
