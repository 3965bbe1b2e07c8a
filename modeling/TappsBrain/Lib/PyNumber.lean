import Mathlib.Data.Rat.Defs
import Mathlib.Tactic.NormNum
import TappsBrain.Lib.Json

namespace Lib
set_option autoImplicit true
set_option relaxedAutoImplicit false

/-- A Python number as JSON knows it; finite floats are exact. -/
inductive PyNumber where
  | int (n : Int)
  | float (x : ℚ)
  | nan
  | infinity
  | negInfinity
deriving DecidableEq, Repr

/-- Python's truth of a number. -/
def PyNumber.truthy : PyNumber → Bool
  | .int n => n ≠ 0
  | .float x => x ≠ 0
  | _ => true

/-- `float.__repr__` and the reading of its result, on finite floats. -/
structure FloatText where
  write : ℚ → List Char
  read : List Char → Option ℚ
  read_write : ∀ x, read (write x) = some x
  opens : ∀ x, ∃ c rest, write x = c :: rest ∧ (c.isDigit || c == '-') = true
  numeric : ∀ x, ∀ c ∈ write x, isNumeric c = true
  pointed : ∀ x, '.' ∈ write x ∨ 'e' ∈ write x

namespace PyNumber

def intText : Int → List Char
  | .ofNat n => Nat.toDigits 10 n
  | .negSucc n => '-' :: Nat.toDigits 10 (n + 1)

/-- A whole number without a leading zero. -/
def readNat (ds : List Char) : Option Nat :=
  if ds ≠ [] ∧ ds.all Char.isDigit = true ∧ (ds.head? = some '0' → ds = ['0']) then
    some (Nat.ofDigitChars 10 ds 0)
  else none

def readInt : List Char → Option Int
  | [] => none
  | c :: rest =>
    if c = '-' then (readNat rest).map (fun n => -(n : Int))
    else (readNat (c :: rest)).map (fun n => (n : Int))

def write (f : FloatText) : PyNumber → List Char
  | .int n => intText n
  | .float x => f.write x
  | .nan => ['N', 'a', 'N']
  | .infinity => ['I', 'n', 'f', 'i', 'n', 'i', 't', 'y']
  | .negInfinity => ['-', 'I', 'n', 'f', 'i', 'n', 'i', 't', 'y']

def read (f : FloatText) (cs : List Char) : Option PyNumber :=
  if cs = ['N', 'a', 'N'] then some .nan
  else if cs = ['I', 'n', 'f', 'i', 'n', 'i', 't', 'y'] then some .infinity
  else if cs = ['-', 'I', 'n', 'f', 'i', 'n', 'i', 't', 'y'] then some .negInfinity
  else
    match readInt cs with
    | some n => some (.int n)
    | none => (f.read cs).map .float

section Digits
variable {n : Nat} {cs : List Char}

theorem toDigits_isDigit {c : Char} (h : c ∈ Nat.toDigits 10 n) : c.isDigit = true :=
  Nat.isDigit_of_mem_toDigits (by decide) (by decide) h

theorem toDigits_cons (n : Nat) : ∃ c rest, Nat.toDigits 10 n = c :: rest ∧ c.isDigit = true := by
  cases h : Nat.toDigits 10 n with
  | nil => exact absurd h Nat.toDigits_ne_nil
  | cons c rest => exact ⟨c, rest, rfl, toDigits_isDigit (h ▸ List.mem_cons_self)⟩

/-- Only zero is written with a leading zero. -/
theorem toDigits_head (n : Nat) (h : (Nat.toDigits 10 n).head? = some '0') :
    Nat.toDigits 10 n = ['0'] := by
  induction n using Nat.strongRecOn with
  | ind n ih =>
    by_cases hn : n < 10
    · rw [Nat.toDigits_of_lt_base hn] at h ⊢
      rw [List.head?_cons, Option.some.injEq] at h
      rw [h]
    · have hsplit := Nat.toDigits_of_base_le (b := 10) (by decide) (Nat.le_of_not_lt hn)
      have hhead : (Nat.toDigits 10 (n / 10)).head? = some '0' := by
        rw [hsplit] at h
        cases hd : Nat.toDigits 10 (n / 10) with
        | nil => exact absurd hd Nat.toDigits_ne_nil
        | cons c rest =>
          rw [hd] at h
          exact h
      have hzero := ih (n / 10) (by omega) hhead
      have hval : n / 10 = 0 := by
        have := Nat.ofDigitChars_ten_toDigits (n := n / 10)
        rw [hzero] at this
        exact this.symm
      omega

theorem readNat_toDigits (n : Nat) : readNat (Nat.toDigits 10 n) = some n := by
  have hall : (Nat.toDigits 10 n).all Char.isDigit = true :=
    List.all_eq_true.2 (fun c hc => toDigits_isDigit hc)
  rw [readNat, if_pos ⟨Nat.toDigits_ne_nil, hall, toDigits_head n⟩, Nat.ofDigitChars_ten_toDigits]

theorem readInt_intText (n : Int) : readInt (intText n) = some n := by
  cases n with
  | ofNat n =>
    obtain ⟨c, rest, hc, hd⟩ := toDigits_cons n
    have hne : c ≠ '-' := by
      rintro rfl
      cases hd
    have hread := readNat_toDigits n
    rw [intText, hc, readInt, if_neg hne, ← hc, hread]
    rfl
  | negSucc n =>
    rw [intText, readInt, if_pos rfl, readNat_toDigits]
    rfl

/-- A text with a point or an exponent is no whole number. -/
theorem readNat_pointed (h : '.' ∈ cs ∨ 'e' ∈ cs) : readNat cs = none := by
  apply if_neg
  rintro ⟨-, hall, -⟩
  rw [List.all_eq_true] at hall
  rcases h with h | h <;> cases hall _ h

theorem readInt_pointed (h : '.' ∈ cs ∨ 'e' ∈ cs) : readInt cs = none := by
  cases cs with
  | nil => rfl
  | cons c rest =>
    rw [readInt]
    split
    · next hc =>
      subst hc
      have hrest : '.' ∈ rest ∨ 'e' ∈ rest := by
        rw [List.mem_cons, List.mem_cons] at h
        exact h.imp (fun h => h.resolve_left (by decide)) (fun h => h.resolve_left (by decide))
      rw [readNat_pointed hrest]
      rfl
    · rw [readNat_pointed h]
      rfl

/-- The names of the numbers that are not finite have neither point nor exponent, nor digits. -/
theorem ne_of_pointed {name : List Char} (hname : '.' ∉ name ∧ 'e' ∉ name)
    (h : '.' ∈ cs ∨ 'e' ∈ cs) : cs ≠ name := by
  rintro rfl
  exact h.elim hname.1 hname.2

theorem intText_ne {name : List Char} (n : Int) (h : readInt name = none) : intText n ≠ name := by
  intro heq
  rw [← heq, readInt_intText] at h
  cases h

end Digits

theorem read_write (f : FloatText) (n : PyNumber) : read f (write f n) = some n := by
  cases n with
  | int n =>
    rw [write, read, if_neg (intText_ne n rfl), if_neg (intText_ne n rfl), if_neg (intText_ne n rfl),
      readInt_intText]
  | float x =>
    have hp := f.pointed x
    rw [write, read, if_neg (ne_of_pointed (by decide) hp), if_neg (ne_of_pointed (by decide) hp),
      if_neg (ne_of_pointed (by decide) hp), readInt_pointed hp]
    dsimp only
    rw [f.read_write]
    rfl
  | nan => rfl
  | infinity => rfl
  | negInfinity => rfl

theorem isNumeric_of_isDigit {c : Char} (h : c.isDigit = true) : isNumeric c = true := by
  rw [isNumeric, opensNumeral, h]
  rfl

theorem write_numeric (f : FloatText) (n : PyNumber) : ∀ c ∈ write f n, isNumeric c = true := by
  cases n with
  | int n =>
    cases n with
    | ofNat n => exact fun c hc => isNumeric_of_isDigit (toDigits_isDigit hc)
    | negSucc n =>
      rw [write, intText, List.forall_mem_cons]
      exact ⟨rfl, fun c hc => isNumeric_of_isDigit (toDigits_isDigit hc)⟩
  | float x => exact f.numeric x
  | nan => simp only [write]; exact List.all_eq_true.1 rfl
  | infinity => simp only [write]; exact List.all_eq_true.1 rfl
  | negInfinity => simp only [write]; exact List.all_eq_true.1 rfl

theorem write_opens (f : FloatText) (n : PyNumber) :
    ∃ c rest, write f n = c :: rest ∧ opensNumeral c = true := by
  have hdigit : ∀ c : Char, c.isDigit = true → opensNumeral c = true := by
    intro c hc
    rw [opensNumeral, hc]
    rfl
  cases n with
  | int n =>
    cases n with
    | ofNat n =>
      obtain ⟨c, rest, hc, hd⟩ := toDigits_cons n
      exact ⟨c, rest, hc, hdigit c hd⟩
    | negSucc n => exact ⟨_, _, rfl, rfl⟩
  | float x =>
    obtain ⟨c, rest, hc, ho⟩ := f.opens x
    refine ⟨c, rest, hc, ?_⟩
    rw [opensNumeral, ho]
    rfl
  | nan => exact ⟨_, _, rfl, rfl⟩
  | infinity => exact ⟨_, _, rfl, rfl⟩
  | negInfinity => exact ⟨_, _, rfl, rfl⟩

/-- The numerals of Python's `json`. -/
def numerals (f : FloatText) : Numerals PyNumber where
  write := write f
  read := read f
  read_write := read_write f
  opens := write_opens f
  numeric := write_numeric f

end PyNumber

namespace FloatText
open PyNumber

/-- Whole floats as Python writes them, the others as the fraction they are. -/
def writeFraction (x : ℚ) : List Char :=
  intText x.num ++ '.' :: (if x.den = 1 then ['0'] else Nat.toDigits 10 x.den ++ ['e', '0'])

def readFraction (cs : List Char) : Option ℚ :=
  let digits := (cs.dropWhile (· ≠ '.')).drop 1
  (readInt (cs.takeWhile (· ≠ '.'))).map (fun (n : Int) =>
    if digits = ['0'] then (n : ℚ)
    else (n : ℚ) / (Nat.ofDigitChars 10 (digits.takeWhile Char.isDigit) 0 : Nat))

theorem intText_point (n : Int) : ∀ c ∈ intText n, decide (c ≠ '.') = true := by
  have hdigit : ∀ c : Char, c.isDigit = true → decide (c ≠ '.') = true := by
    rintro c hc
    rw [decide_eq_true_eq]
    rintro rfl
    cases hc
  cases n with
  | ofNat n => exact fun c hc => hdigit c (toDigits_isDigit hc)
  | negSucc n =>
    rw [intText, List.forall_mem_cons]
    exact ⟨rfl, fun c hc => hdigit c (toDigits_isDigit hc)⟩

theorem readFraction_writeFraction (x : ℚ) : readFraction (writeFraction x) = some x := by
  have hpoint : ∀ tail : List Char, ('.' :: tail).takeWhile (· ≠ '.') = [] ∧
      ('.' :: tail).dropWhile (· ≠ '.') = '.' :: tail := fun tail => ⟨rfl, rfl⟩
  unfold readFraction writeFraction
  rw [List.takeWhile_append_of_pos (intText_point x.num), (hpoint _).1, List.append_nil,
    readInt_intText, List.dropWhile_append_of_pos (intText_point x.num), (hpoint _).2,
    List.drop_one, List.tail_cons, Option.map_some]
  by_cases hd : x.den = 1
  · rw [if_pos hd, if_pos rfl, Rat.coe_int_num_of_den_eq_one hd]
  · have hne : Nat.toDigits 10 x.den ++ ['e', '0'] ≠ ['0'] := by
      intro h
      have hmem : 'e' ∈ Nat.toDigits 10 x.den ++ ['e', '0'] := by
        rw [List.mem_append]
        exact .inr List.mem_cons_self
      rw [h] at hmem
      exact absurd hmem (by decide)
    have htake : (Nat.toDigits 10 x.den ++ ['e', '0']).takeWhile Char.isDigit =
        Nat.toDigits 10 x.den := by
      rw [List.takeWhile_append_of_pos (fun c hc => toDigits_isDigit hc)]
      exact List.append_nil _
    rw [if_neg hd, if_neg hne, htake, Nat.ofDigitChars_ten_toDigits, Rat.num_div_den]

/-- A way to write floats that reads every one of them back. -/
def fractions : FloatText where
  write := writeFraction
  read := readFraction
  read_write := readFraction_writeFraction
  opens := fun x => by
    rw [writeFraction]
    cases x.num with
    | ofNat n =>
      obtain ⟨c, rest, hc, hd⟩ := toDigits_cons n
      rw [intText, hc]
      exact ⟨c, _, rfl, by rw [hd, Bool.true_or]⟩
    | negSucc n => exact ⟨_, _, rfl, rfl⟩
  numeric := fun x => by
    rw [writeFraction, List.forall_mem_append, List.forall_mem_cons]
    refine ⟨?_, rfl, ?_⟩
    · cases x.num with
      | ofNat n => exact fun c hc => isNumeric_of_isDigit (toDigits_isDigit hc)
      | negSucc n =>
        rw [intText, List.forall_mem_cons]
        exact ⟨rfl, fun c hc => isNumeric_of_isDigit (toDigits_isDigit hc)⟩
    · split
      · exact List.all_eq_true.1 rfl
      · rw [List.forall_mem_append]
        exact ⟨fun c hc => isNumeric_of_isDigit (toDigits_isDigit hc), List.all_eq_true.1 rfl⟩
  pointed := fun x => .inl (List.mem_append_right _ List.mem_cons_self)

end FloatText
end Lib
