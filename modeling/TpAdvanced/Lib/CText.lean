import Mathlib.Data.List.TakeWhile
import Mathlib.Tactic.IntervalCases

/-!
# Byte strings and the C text routines

Text is a list of bytes.  The routines of the C and C++ libraries a program
leans on are given by their documented behaviour in the C locale: a C string
ends at its first NUL, `tolower` moves the ASCII capitals only, `strtoull`
skips white space, takes a sign and the longest run of decimal digits.

## Main definitions

* `Bytes`, `ascii` — byte strings, and the bytes of an ASCII literal.
* `cstr`, `tolower`, `strcasecmpEq` — C strings and their case-blind equality.
* `decimal` — the text `std::to_string` gives for an unsigned number.
* `stoull`, `fromChars` — the conversions of `std::stoull` and `std::from_chars`.

## Main results

* `stoull_decimal` — reading a printed number gives the number back.
-/

namespace CText

/-- A byte string, the contents of a `std::string`. -/
abbrev Bytes := List UInt8

/-- The bytes of a literal. -/
def ascii (s : String) : Bytes := s.toList.map fun c => c.toNat.toUInt8

/-- The C string a pointer to these bytes denotes. -/
def cstr (s : Bytes) : Bytes := s.takeWhile (· ≠ 0)

/-- `tolower` of the C locale. -/
def tolower (b : UInt8) : UInt8 := if 65 ≤ b ∧ b ≤ 90 then b + 32 else b

/-- `strcasecmp(a, b) == 0`. -/
def strcasecmpEq (a b : Bytes) : Bool := (cstr a).map tolower == (cstr b).map tolower

/-! ### Decimal numbers -/

/-- `isdigit`. -/
def isDigit (b : UInt8) : Bool := 48 ≤ b && b ≤ 57

/-- `isspace` of the C locale. -/
def isSpace (b : UInt8) : Bool := b == 32 || (9 ≤ b && b ≤ 13)

/-- The number a run of decimal digits denotes. -/
def digitsValue (ds : Bytes) : ℕ := ds.foldl (fun acc d => 10 * acc + (d.toNat - 48)) 0

/-- The decimal text of a number. -/
def decimal (n : ℕ) : Bytes := (Nat.toDigits 10 n).map fun c => c.toNat.toUInt8

theorem decimal_of_lt {n : ℕ} (h : n < 10) : decimal n = [(48 + n).toUInt8] := by
  unfold decimal
  rw [Nat.toDigits_of_lt_base h]
  interval_cases n <;> rfl

theorem decimal_of_le {n : ℕ} (h : 10 ≤ n) :
    decimal n = decimal (n / 10) ++ [(48 + n % 10).toUInt8] := by
  unfold decimal
  rw [Nat.toDigits_of_base_le (by omega) h, List.map_append, List.append_cancel_left_eq]
  have := Nat.mod_lt n (show 0 < 10 by omega)
  interval_cases n % 10 <;> rfl

theorem isDigit_digit {d : ℕ} (h : d < 10) : isDigit (48 + d).toUInt8 = true := by
  interval_cases d <;> rfl

theorem toNat_digit {d : ℕ} (h : d < 10) : (48 + d).toUInt8.toNat - 48 = d := by
  interval_cases d <;> rfl

theorem digitsValue_append_digit (ds : Bytes) {d : ℕ} (h : d < 10) :
    digitsValue (ds ++ [(48 + d).toUInt8]) = 10 * digitsValue ds + d := by
  simp only [digitsValue, List.foldl_append, List.foldl_cons, List.foldl_nil, toNat_digit h]

/-- The decimal text is a nonempty run of digits. -/
theorem decimal_ne_nil (n : ℕ) : decimal n ≠ [] := by simp [decimal]

theorem all_isDigit_decimal (n : ℕ) : ∀ b ∈ decimal n, isDigit b = true := by
  induction n using Nat.strong_induction_on with
  | _ n ih =>
    rcases Nat.lt_or_ge n 10 with h | h
    · rw [decimal_of_lt h]
      simpa using isDigit_digit h
    · rw [decimal_of_le h]
      intro b hb
      rcases List.mem_append.mp hb with hb | hb
      · exact ih (n / 10) (by omega) b hb
      · rw [List.mem_singleton.mp hb]
        exact isDigit_digit (Nat.mod_lt _ (by omega))

/-- The digits of a number denote it. -/
theorem digitsValue_decimal (n : ℕ) : digitsValue (decimal n) = n := by
  induction n using Nat.strong_induction_on with
  | _ n ih =>
    rcases Nat.lt_or_ge n 10 with h | h
    · rw [decimal_of_lt h, ← List.nil_append [_], digitsValue_append_digit [] h]
      simp [digitsValue]
    · rw [decimal_of_le h, digitsValue_append_digit _ (Nat.mod_lt _ (by omega)),
        ih (n / 10) (by omega)]
      omega

/-! ### Reading a number -/

/-- How `std::stoull` refuses a text. -/
inductive ConvError
  /-- `std::invalid_argument`: no digits. -/
  | invalidArgument
  /-- `std::out_of_range`: above the largest 64-bit number. -/
  | outOfRange
  deriving DecidableEq, Repr

/-- The sign `strtoull` accepts in front of the digits, and what follows it. -/
def takeSign : Bytes → Bool × Bytes
  | 43 :: t => (false, t)
  | 45 :: t => (true, t)
  | t => (false, t)

/-- `std::stoull` of the C string at these bytes, in base ten: leading white
space and a sign are accepted, text behind the digits is ignored, and a negative
number is taken modulo `2 ^ 64`. -/
def stoull (s : Bytes) : Except ConvError ℕ :=
  let (negative, t) := takeSign ((cstr s).dropWhile isSpace)
  let digits := t.takeWhile isDigit
  if digits = [] then .error .invalidArgument
  else if 2 ^ 64 ≤ digitsValue digits then .error .outOfRange
  else .ok (if negative then (2 ^ 64 - digitsValue digits) % 2 ^ 64 else digitsValue digits)

/-- `std::from_chars` into a 64-bit unsigned number, in base ten: the digits in front of
the text, and what follows them. -/
def fromChars (s : Bytes) : Except ConvError (ℕ × Bytes) :=
  let digits := s.takeWhile isDigit
  if digits = [] then .error .invalidArgument
  else if 2 ^ 64 ≤ digitsValue digits then .error .outOfRange
  else .ok (digitsValue digits, s.dropWhile isDigit)

/-- A digit is neither NUL, white space nor a sign. -/
theorem ne_of_isDigit {b : UInt8} (h : isDigit b = true) :
    b ≠ 0 ∧ isSpace b = false ∧ b ≠ 43 ∧ b ≠ 45 := by
  simp only [isDigit, isSpace, Bool.and_eq_true, decide_eq_true_eq, UInt8.le_iff_toNat_le,
    Bool.or_eq_false_iff, beq_eq_false_iff_ne, Bool.and_eq_false_iff, decide_eq_false_iff_not,
    ne_eq, ← UInt8.toNat_inj, UInt8.reduceToNat] at h ⊢
  omega

theorem takeSign_of_isDigit {b : UInt8} (h : isDigit b = true) (t : Bytes) :
    takeSign (b :: t) = (false, b :: t) := by
  obtain ⟨-, -, h43, h45⟩ := ne_of_isDigit h
  unfold takeSign
  split <;> simp_all

/-- A text that is all digits is read as the number it denotes. -/
theorem stoull_of_digits {ds : Bytes} (hne : ds ≠ []) (hds : ∀ b ∈ ds, isDigit b = true)
    (hlt : digitsValue ds < 2 ^ 64) : stoull ds = .ok (digitsValue ds) := by
  have hc : cstr ds = ds := List.takeWhile_eq_self_iff.mpr fun b hb => by
    simpa using (ne_of_isDigit (hds b hb)).1
  have htake : ds.takeWhile isDigit = ds := List.takeWhile_eq_self_iff.mpr hds
  obtain ⟨b, t, rfl⟩ := List.exists_cons_of_ne_nil hne
  have hb := hds b List.mem_cons_self
  have hdrop : (b :: t).dropWhile isSpace = b :: t := by
    rw [List.dropWhile_cons_of_neg]
    simp [(ne_of_isDigit hb).2.1]
  unfold stoull
  rw [hc, hdrop, takeSign_of_isDigit hb]
  simp only [htake, Bool.false_eq_true, if_false]
  rw [if_neg hne, if_neg (by omega)]

/-- **Reading a printed number gives it back.** -/
theorem stoull_decimal {n : ℕ} (h : n < 2 ^ 64) : stoull (decimal n) = .ok n := by
  have := stoull_of_digits (decimal_ne_nil n) (all_isDigit_decimal n)
    (by rw [digitsValue_decimal]; exact h)
  rwa [digitsValue_decimal] at this

end CText
