import Mathlib.Algebra.Field.Rat
import Mathlib.Data.List.Induction
import TpAdvanced.Lib.CText

/-!
# JSON

JSON texts as of RFC 8259: bytes that are valid UTF-8 and that a recursive descent
reads to their end.  A number denotes its exact value, and a string the UTF-8 form of
its characters, escapes resolved; half a surrogate pair denotes none.

## Main definitions

* `ValidUtf8` — the encodings of characters, one after another.
* `Json`, `Json.value` — values, and how one is read off the front of a text.
* `Json.Decodes` — **a text and the value that it denotes**.

## Main results

* `validUtf8_append_ascii`, `validUtf8_ascii_append` — ASCII around a text does not matter.
* `Json.characters_plain` — characters that stand for themselves are read as they are.
* `Json.plain_of_length` — a string that is not shorter than its text has no others.
* `Json.Decodes.unique` — a text denotes one value.
-/

open CText

/-! ### UTF-8 -/

/-- These bytes are characters in UTF-8. -/
def ValidUtf8 (bytes : Bytes) : Prop :=
  ∃ cs : List Char, bytes = cs.flatMap String.utf8EncodeChar

/-- A character is one ASCII byte, or has none. -/
theorem utf8EncodeChar_cases (c : Char) :
    (∃ b < 128, String.utf8EncodeChar c = [b]) ∨ ∀ b ∈ String.utf8EncodeChar c, 128 ≤ b := by
  have hhigh : ∀ n m k : ℕ, 128 ≤ k → n % m + k < 256 → 128 ≤ UInt8.ofNat (n % m + k) := by
    intro n m k hk hlt
    rw [UInt8.le_iff_toNat_le, UInt8.toNat_ofNat_of_lt' hlt]
    exact le_add_left hk
  unfold String.utf8EncodeChar
  dsimp only
  split_ifs with h1 h2 h3
  · refine .inl ⟨_, ?_, rfl⟩
    rw [UInt8.lt_iff_toNat_lt, UInt8.toNat_ofNat_of_lt' (h1.trans_lt (by decide))]
    exact Nat.lt_succ_of_le h1
  all_goals
    right
    simp only [List.mem_cons, List.not_mem_nil, or_false, forall_eq_or_imp, forall_eq]
    refine ⟨hhigh _ _ _ (by omega) (by omega), ?_⟩
  · exact hhigh _ _ _ (by omega) (by omega)
  · exact ⟨hhigh _ _ _ (by omega) (by omega), hhigh _ _ _ (by omega) (by omega)⟩
  · exact ⟨hhigh _ _ _ (by omega) (by omega), hhigh _ _ _ (by omega) (by omega),
      hhigh _ _ _ (by omega) (by omega)⟩

/-- The character of an ASCII byte. -/
theorem utf8EncodeChar_ascii {b : UInt8} (h : b < 128) :
    String.utf8EncodeChar (Char.ofNat b.toNat) = [b] := by
  have hb : b.toNat < 128 := UInt8.lt_iff_toNat_lt.mp h
  have hvalid : b.toNat.isValidChar := .inl (by omega)
  have hval : (Char.ofNat b.toNat).val.toNat = b.toNat := by
    rw [Char.ofNat, dif_pos hvalid]
    rfl
  unfold String.utf8EncodeChar
  dsimp only
  rw [hval, if_pos (by omega), UInt8.ofNat_toNat]

theorem validUtf8_cons_ascii {b : UInt8} (h : b < 128) {bytes : Bytes} :
    ValidUtf8 (b :: bytes) ↔ ValidUtf8 bytes := by
  constructor
  · rintro ⟨cs, hcs⟩
    cases cs with
    | nil => cases hcs
    | cons c cs =>
      rw [List.flatMap_cons] at hcs
      rcases utf8EncodeChar_cases c with ⟨b', -, hc⟩ | hc
      · rw [hc] at hcs
        exact ⟨cs, (List.cons_eq_cons.mp hcs).2⟩
      · obtain ⟨b', us, hus⟩ := List.exists_cons_of_ne_nil (String.utf8EncodeChar_ne_nil (c := c))
        rw [hus, List.cons_append] at hcs
        have hb' := hc b' (hus ▸ List.mem_cons_self)
        rw [← (List.cons_eq_cons.mp hcs).1] at hb'
        exact absurd h (UInt8.not_lt.mpr hb')
  · rintro ⟨cs, rfl⟩
    exact ⟨Char.ofNat b.toNat :: cs, by rw [List.flatMap_cons, utf8EncodeChar_ascii h]; rfl⟩

/-- ASCII in front does not matter. -/
theorem validUtf8_ascii_append {front bytes : Bytes} (h : ∀ b ∈ front, b < 128) :
    ValidUtf8 (front ++ bytes) ↔ ValidUtf8 bytes := by
  induction front with
  | nil => rfl
  | cons b front ih =>
    rw [List.cons_append, validUtf8_cons_ascii (h b List.mem_cons_self)]
    exact ih fun b hb => h b (List.mem_cons_of_mem _ hb)

theorem validUtf8_concat_ascii {b : UInt8} (h : b < 128) {bytes : Bytes} :
    ValidUtf8 (bytes ++ [b]) ↔ ValidUtf8 bytes := by
  constructor
  · rintro ⟨cs, hcs⟩
    rcases List.eq_nil_or_concat cs with rfl | ⟨cs, c, rfl⟩
    · simp at hcs
    · rw [List.concat_eq_append, List.flatMap_append, List.flatMap_singleton] at hcs
      rcases utf8EncodeChar_cases c with ⟨b', -, hc⟩ | hc
      · rw [hc] at hcs
        exact ⟨cs, (List.append_singleton_inj.mp hcs).1⟩
      · obtain hnil | ⟨us, b', hus⟩ := List.eq_nil_or_concat (String.utf8EncodeChar c)
        · exact absurd hnil String.utf8EncodeChar_ne_nil
        · rw [hus, List.concat_eq_append, ← List.append_assoc] at hcs
          have hb' := hc b' (by rw [hus, List.concat_eq_append]; simp)
          rw [← (List.append_singleton_inj.mp hcs).2] at hb'
          exact absurd h (UInt8.not_lt.mpr hb')
  · rintro ⟨cs, rfl⟩
    exact ⟨cs ++ [Char.ofNat b.toNat], by
      rw [List.flatMap_append, List.flatMap_singleton, utf8EncodeChar_ascii h]⟩

/-- ASCII behind does not matter. -/
theorem validUtf8_append_ascii {bytes back : Bytes} (h : ∀ b ∈ back, b < 128) :
    ValidUtf8 (bytes ++ back) ↔ ValidUtf8 bytes := by
  induction back using List.reverseRecOn with
  | nil => rw [List.append_nil]
  | append_singleton back b ih =>
    rw [← List.append_assoc, validUtf8_concat_ascii (h b (by simp))]
    exact ih fun b hb => h b (List.mem_append_left _ hb)

/-- Digits are ASCII. -/
theorem lt_of_isDigit {b : UInt8} (h : isDigit b = true) : b < 128 := by
  simp only [isDigit, Bool.and_eq_true, decide_eq_true_eq, UInt8.le_iff_toNat_le,
    UInt8.reduceToNat] at h
  simp only [UInt8.lt_iff_toNat_lt, UInt8.reduceToNat]
  omega

/-! ### Values -/

/-- A JSON value.  The members of an object come in the order of the text. -/
inductive Json
  | null
  | bool (b : Bool)
  | number (q : ℚ)
  | string (s : Bytes)
  | array (xs : List Json)
  | object (members : List (Bytes × Json))

namespace Json

/-- What reads a thing off the front of a text leaves the rest. -/
abbrev Reader (α : Type) := Bytes → Option (α × Bytes)

/-- White space. -/
def isBlank (b : UInt8) : Bool := b == 32 || b == 9 || b == 10 || b == 13

def skipBlanks (s : Bytes) : Bytes := s.dropWhile isBlank

/-! ### Numbers -/

/-- A non-empty run of digits. -/
def readDigits (s : Bytes) : Option (Bytes × Bytes) :=
  if s.takeWhile isDigit = [] then none
  else some (s.takeWhile isDigit, s.dropWhile isDigit)

/-- The digits behind the point. -/
def readFraction : Reader Bytes
  | 46 :: t => readDigits t
  | t => some ([], t)

def readExponent : Reader ℤ
  | b :: t =>
    if b = 69 ∨ b = 101 then
      let (negative, t) := takeSign t
      (readDigits t).map fun p => (if negative then -digitsValue p.1 else digitsValue p.1, p.2)
    else some (0, b :: t)
  | [] => some (0, [])

/-- A number without its sign.  It does not begin with a zero, other than that in front
of the point. -/
def readMagnitude : Reader ℚ := fun s => do
  let (int, t) ← readDigits s
  if int.head? = some 48 ∧ int ≠ [48] then none
  let (frac, t) ← readFraction t
  let (exp, t) ← readExponent t
  return (digitsValue (int ++ frac) * 10 ^ (exp - frac.length), t)

def readNumber : Reader ℚ
  | 45 :: t => (readMagnitude t).map fun p => (-p.1, p.2)
  | t => readMagnitude t

/-! ### Strings -/

def hexDigit (b : UInt8) : Option ℕ :=
  if isDigit b then some (b.toNat - 48)
  else if 65 ≤ b ∧ b ≤ 70 then some (b.toNat - 55)
  else if 97 ≤ b ∧ b ≤ 102 then some (b.toNat - 87)
  else none

/-- The character behind a backslash, other than `u`. -/
def unescape (b : UInt8) : Option UInt8 :=
  if b = 34 ∨ b = 92 ∨ b = 47 then some b
  else if b = 98 then some 8
  else if b = 102 then some 12
  else if b = 110 then some 10
  else if b = 114 then some 13
  else if b = 116 then some 9
  else none

/-- Where a string is being read. -/
inductive Mode
  | plain
  /-- Behind a backslash. -/
  | escape
  /-- Among the digits of `\u`, which more follow, behind a high surrogate or none. -/
  | hex (high : Option ℕ) (more n : ℕ)
  /-- Behind a high surrogate. -/
  | high (n : ℕ)
  | highEscape (n : ℕ)
  deriving DecidableEq, Repr

def isHigh (n : ℕ) : Bool := 0xD800 ≤ n && n < 0xDC00

def isLow (n : ℕ) : Bool := 0xDC00 ≤ n && n < 0xE000

/-- The character of a number, in UTF-8. -/
def utf8 (n : ℕ) : Bytes := String.utf8EncodeChar (Char.ofNat n)

/-- The characters up to the closing quote, and what follows it. -/
def characters : Mode → Reader Bytes
  | _, [] => none
  | .plain, b :: t =>
    if b = 34 then some ([], t)
    else if b = 92 then characters .escape t
    else if b < 32 then none
    else (characters .plain t).map fun p => (b :: p.1, p.2)
  | .escape, b :: t =>
    if b = 117 then characters (.hex none 3 0) t
    else (unescape b).bind fun c => (characters .plain t).map fun p => (c :: p.1, p.2)
  | .hex high (more + 1) n, b :: t =>
    (hexDigit b).bind fun d => characters (.hex high more (16 * n + d)) t
  | .hex none 0 n, b :: t =>
    (hexDigit b).bind fun d =>
      if isHigh (16 * n + d) then characters (.high (16 * n + d)) t
      else if isLow (16 * n + d) then none
      else (characters .plain t).map fun p => (utf8 (16 * n + d) ++ p.1, p.2)
  | .hex (some high) 0 n, b :: t =>
    (hexDigit b).bind fun d =>
      if isLow (16 * n + d) then (characters .plain t).map fun p =>
        (utf8 (0x10000 + 0x400 * (high - 0xD800) + (16 * n + d - 0xDC00)) ++ p.1, p.2)
      else none
  | .high n, b :: t => if b = 92 then characters (.highEscape n) t else none
  | .highEscape n, b :: t => if b = 117 then characters (.hex (some n) 3 0) t else none

/-! ### The descent -/

/-- The rest of a literal name. -/
def readLiteral (name : String) (v : Json) : Reader Json := fun t =>
  if (ascii name).isPrefixOf t then some (v, t.drop name.length) else none

section

variable {α : Type} (element : Reader α) (close : UInt8)

/-- Elements with commas between them, up to the closing bracket. -/
def readElements : ℕ → Reader (List α)
  | 0, _ => none
  | fuel + 1, s =>
    (element s).bind fun p =>
      match skipBlanks p.2 with
      | [] => none
      | b :: t =>
        if b = close then some ([p.1], t)
        else if b = 44 then (readElements fuel t).map fun q => (p.1 :: q.1, q.2)
        else none

/-- The inside of brackets. -/
def readBracketed (fuel : ℕ) : Reader (List α) := fun s =>
  match skipBlanks s with
  | [] => none
  | b :: t => if b = close then some ([], t) else readElements element close fuel s

end

/-- A name and a value. -/
def readMember (value : Reader Json) : Reader (Bytes × Json) := fun s =>
  match skipBlanks s with
  | 34 :: t => (characters .plain t).bind fun name =>
    match skipBlanks name.2 with
    | 58 :: t => (value t).map fun p => ((name.1, p.1), p.2)
    | _ => none
  | _ => none

/-- A value, with a bound on the depth and on the length of a list. -/
def readValue : ℕ → Reader Json
  | 0, _ => none
  | fuel + 1, s =>
    match skipBlanks s with
    | 123 :: t =>
      (readBracketed (readMember (readValue fuel)) 125 fuel t).map fun p => (.object p.1, p.2)
    | 91 :: t => (readBracketed (readValue fuel) 93 fuel t).map fun p => (.array p.1, p.2)
    | 34 :: t => (characters .plain t).map fun p => (.string p.1, p.2)
    | 110 :: t => readLiteral "ull" .null t
    | 116 :: t => readLiteral "rue" (.bool true) t
    | 102 :: t => readLiteral "alse" (.bool false) t
    | t => (readNumber t).map fun p => (.number p.1, p.2)

/-- **The text is valid JSON and denotes the value.** -/
structure Decodes (text : Bytes) (v : Json) : Prop where
  utf8 : ValidUtf8 text
  reads : ∃ fuel rest, readValue fuel text = some (v, rest) ∧ skipBlanks rest = []

/-! ### More fuel -/

section

variable {α : Type} {element element' : Reader α} {close : UInt8} {fuel fuel' : ℕ} {s : Bytes}

theorem readElements_mono {r : List α × Bytes}
    (helement : ∀ s r, element s = some r → element' s = some r) (hfuel : fuel ≤ fuel')
    (h : readElements element close fuel s = some r) :
    readElements element' close fuel' s = some r := by
  induction fuel generalizing fuel' s r with
  | zero => cases h
  | succ fuel ih =>
    obtain ⟨fuel', rfl⟩ := Nat.exists_eq_add_of_lt hfuel
    rw [readElements, Option.bind_eq_some_iff] at h ⊢
    obtain ⟨p, hp, h⟩ := h
    refine ⟨p, helement s p hp, ?_⟩
    split at h
    · cases h
    · rename_i b t hskip
      split_ifs at h ⊢
      · exact h
      · obtain ⟨q, hq, rfl⟩ := Option.map_eq_some_iff.mp h
        exact Option.map_eq_some_iff.mpr ⟨q, ih (by omega) hq, rfl⟩

theorem readBracketed_mono {r : List α × Bytes}
    (helement : ∀ s r, element s = some r → element' s = some r) (hfuel : fuel ≤ fuel')
    (h : readBracketed element close fuel s = some r) :
    readBracketed element' close fuel' s = some r := by
  unfold readBracketed at h ⊢
  split at h
  · cases h
  · split_ifs at h ⊢
    · exact h
    · exact readElements_mono helement hfuel h

theorem readMember_mono {value value' : Reader Json} {r : (Bytes × Json) × Bytes}
    (hvalue : ∀ s r, value s = some r → value' s = some r) (h : readMember value s = some r) :
    readMember value' s = some r := by
  unfold readMember at h ⊢
  split at h
  · obtain ⟨name, hname, h⟩ := Option.bind_eq_some_iff.mp h
    refine Option.bind_eq_some_iff.mpr ⟨name, hname, ?_⟩
    split at h
    · obtain ⟨p, hp, rfl⟩ := Option.map_eq_some_iff.mp h
      exact Option.map_eq_some_iff.mpr ⟨p, hvalue _ _ hp, rfl⟩
    · cases h
  · cases h

/-- More fuel does not change what is read. -/
theorem readValue_mono {r : Json × Bytes} (hfuel : fuel ≤ fuel')
    (h : readValue fuel s = some r) : readValue fuel' s = some r := by
  induction fuel generalizing fuel' s r with
  | zero => cases h
  | succ fuel ih =>
    obtain ⟨fuel', rfl⟩ := Nat.exists_eq_add_of_lt hfuel
    have hvalue : ∀ s r, readValue fuel s = some r → readValue (fuel + fuel') s = some r :=
      fun s r hr => ih (by omega) hr
    rw [readValue] at h ⊢
    split at h
    · obtain ⟨p, hp, rfl⟩ := Option.map_eq_some_iff.mp h
      exact Option.map_eq_some_iff.mpr
        ⟨p, readBracketed_mono (fun _ _ => readMember_mono hvalue) (by omega) hp, rfl⟩
    · obtain ⟨p, hp, rfl⟩ := Option.map_eq_some_iff.mp h
      exact Option.map_eq_some_iff.mpr ⟨p, readBracketed_mono hvalue (by omega) hp, rfl⟩
    all_goals exact h

end

/-- **A text denotes one value.** -/
theorem Decodes.unique {text : Bytes} {v w : Json} (hv : Decodes text v) (hw : Decodes text w) :
    v = w := by
  obtain ⟨fuel, rest, hread, -⟩ := hv.reads
  obtain ⟨fuel', rest', hread', -⟩ := hw.reads
  have h := readValue_mono (Nat.le_max_left fuel fuel') hread
  rw [readValue_mono (Nat.le_max_right fuel fuel') hread'] at h
  cases h
  rfl

/-! ### Characters that stand for themselves -/

/-- Not a control character, a quote or a backslash. -/
def Plain (b : UInt8) : Prop := 32 ≤ b ∧ b ≠ 34 ∧ b ≠ 92

instance (b : UInt8) : Decidable (Plain b) := inferInstanceAs (Decidable (_ ∧ _ ∧ _))

/-- **Plain characters are read as they are.** -/
theorem characters_plain {s : Bytes} (hs : ∀ b ∈ s, Plain b) (rest : Bytes) :
    characters .plain (s ++ 34 :: rest) = some (s, rest) := by
  induction s with
  | nil => rfl
  | cons b s ih =>
    obtain ⟨hlow, hquote, hback⟩ := hs b List.mem_cons_self
    rw [List.cons_append, characters, if_neg hquote, if_neg hback, if_neg (UInt8.not_lt.mpr hlow),
      ih fun b hb => hs b (List.mem_cons_of_mem _ hb)]
    rfl

/-- What may be read more than there is text, behind some digits of an escape. -/
def Mode.ahead : Mode → ℕ
  | .hex _ more _ => 3 - more
  | _ => 0

theorem length_utf8_le (n : ℕ) : (utf8 n).length ≤ 4 := by
  rw [utf8, String.length_utf8EncodeChar]
  exact Char.utf8Size_le_four _

/-- A string is not longer than its text. -/
theorem characters_length {m : Mode} {t s rest : Bytes} (h : characters m t = some (s, rest)) :
    s.length + 1 + rest.length ≤ t.length + m.ahead := by
  induction t generalizing m s with
  | nil => cases m <;> cases h
  | cons b t ih =>
    rw [List.length_cons]
    have hplain : ∀ us : Bytes, us.length ≤ 1 + m.ahead →
        ((characters .plain t).map fun p => (us ++ p.1, p.2)) = some (s, rest) →
        s.length + 1 + rest.length ≤ t.length + 1 + m.ahead := by
      intro us hus hmap
      obtain ⟨p, hp, hs⟩ := Option.map_eq_some_iff.mp hmap
      cases hs
      have := ih hp
      rw [List.length_append]
      simp only [Mode.ahead] at this
      omega
    cases m with
    | plain =>
      rw [characters] at h
      split_ifs at h
      · cases h
        simp only [List.length_nil]
        omega
      · exact (ih h).trans (by simp only [Mode.ahead]; omega)
      · exact hplain [b] (by simp) h
    | escape =>
      rw [characters] at h
      split_ifs at h
      · exact (ih h).trans (by simp only [Mode.ahead]; omega)
      · obtain ⟨c, -, h⟩ := Option.bind_eq_some_iff.mp h
        exact hplain [c] (by simp) h
    | hex high more n =>
      cases more with
      | succ more =>
        rw [characters] at h
        obtain ⟨d, -, h⟩ := Option.bind_eq_some_iff.mp h
        exact (ih h).trans (by simp only [Mode.ahead]; omega)
      | zero =>
        cases high with
        | none =>
          rw [characters] at h
          obtain ⟨d, -, h⟩ := Option.bind_eq_some_iff.mp h
          split_ifs at h
          · exact (ih h).trans (by simp only [Mode.ahead]; omega)
          · exact hplain _ (length_utf8_le _) h
        | some high =>
          rw [characters] at h
          obtain ⟨d, -, h⟩ := Option.bind_eq_some_iff.mp h
          split_ifs at h
          exact hplain _ (length_utf8_le _) h
    | high n =>
      rw [characters] at h
      split_ifs at h
      exact (ih h).trans (by simp only [Mode.ahead]; omega)
    | highEscape n =>
      rw [characters] at h
      split_ifs at h
      exact (ih h).trans (by simp only [Mode.ahead]; omega)

/-- **A string that is not shorter than its text is that text**, with plain characters. -/
theorem plain_of_length {t s rest : Bytes} (h : characters .plain t = some (s, rest))
    (hlen : t.length = s.length + 1 + rest.length) :
    t = s ++ 34 :: rest ∧ ∀ b ∈ s, Plain b := by
  induction t generalizing s with
  | nil => cases h
  | cons b t ih =>
    rw [characters] at h
    split_ifs at h with hquote hback hlow
    · cases h
      exact ⟨by rw [hquote]; rfl, nofun⟩
    · -- an escape is longer than what it denotes
      have := characters_length h
      simp only [Mode.ahead, List.length_cons] at this hlen
      omega
    · obtain ⟨p, hp, hs⟩ := Option.map_eq_some_iff.mp h
      cases hs
      obtain ⟨ht, hplain⟩ := ih hp (by simpa [Nat.add_right_comm] using hlen)
      refine ⟨by rw [ht]; rfl, ?_⟩
      rw [List.forall_mem_cons]
      exact ⟨⟨UInt8.not_lt.mp hlow, hquote, hback⟩, hplain⟩

/-! ### Natural numbers -/

/-- A number does not begin with a zero, other than zero itself. -/
theorem head?_decimal {n : ℕ} (h : (decimal n).head? = some 48) : decimal n = [48] := by
  induction n using Nat.strong_induction_on with
  | _ n ih =>
    rcases Nat.lt_or_ge n 10 with hn | hn
    · rw [decimal_of_lt hn] at h ⊢
      exact congrArg (fun b => [b]) (Option.some_injective _ h)
    · obtain ⟨d, ds, hds⟩ := List.exists_cons_of_ne_nil (decimal_ne_nil (n / 10))
      have hhead : (decimal (n / 10)).head? = some 48 := by
        rw [decimal_of_le hn, hds] at h
        rw [hds]
        exact h
      have h0 := congrArg digitsValue (ih (n / 10) (by omega) hhead)
      rw [digitsValue_decimal, show digitsValue [48] = 0 from rfl] at h0
      omega

/-- What ends a number that is an integer. -/
def EndsInteger (b : UInt8) : Prop := isDigit b = false ∧ b ≠ 46 ∧ b ≠ 69 ∧ b ≠ 101

instance (b : UInt8) : Decidable (EndsInteger b) := inferInstanceAs (Decidable (_ ∧ _ ∧ _ ∧ _))

/-- **The decimal text of a number denotes it.** -/
theorem readNumber_decimal (n : ℕ) {b : UInt8} (hb : EndsInteger b) (t : Bytes) :
    readNumber (decimal n ++ b :: t) = some ((n : ℚ), b :: t) := by
  obtain ⟨hdigit, hpoint, hE, he⟩ := hb
  have hall := all_isDigit_decimal n
  have htake : (decimal n ++ b :: t).takeWhile isDigit = decimal n := by
    rw [List.takeWhile_append_of_pos hall, List.takeWhile_cons_of_neg (by simp [hdigit]),
      List.append_nil]
  have hdrop : (decimal n ++ b :: t).dropWhile isDigit = b :: t := by
    rw [List.dropWhile_append_of_pos hall, List.dropWhile_cons_of_neg (by simp [hdigit])]
  have hdigits : readDigits (decimal n ++ b :: t) = some (decimal n, b :: t) := by
    rw [readDigits, htake, hdrop, if_neg (decimal_ne_nil n)]
  have hfraction : readFraction (b :: t) = some ([], b :: t) := by
    unfold readFraction
    split
    · simp_all
    · rfl
  have hexponent : readExponent (b :: t) = some (0, b :: t) := by
    rw [readExponent, if_neg (not_or.mpr ⟨hE, he⟩)]
  have hzero : ¬ ((decimal n).head? = some 48 ∧ decimal n ≠ [48]) :=
    fun h => h.2 (head?_decimal h.1)
  have hmagnitude : readMagnitude (decimal n ++ b :: t) = some ((n : ℚ), b :: t) := by
    simp [readMagnitude, hdigits, hfraction, hexponent, hzero, digitsValue_decimal]
  obtain ⟨d, ds, hds⟩ := List.exists_cons_of_ne_nil (decimal_ne_nil n)
  have hd : isDigit d = true := hall d (hds ▸ List.mem_cons_self)
  rw [hds, List.cons_append] at hmagnitude ⊢
  unfold readNumber
  split
  · rename_i heq
    cases heq
    cases hd
  · exact hmagnitude

/-! ### The descent on a known text -/

theorem isBlank_of_isDigit {b : UInt8} (h : isDigit b = true) : isBlank b = false := by
  simp only [isDigit, isBlank, Bool.and_eq_true, decide_eq_true_eq, UInt8.le_iff_toNat_le,
    Bool.or_eq_false_iff, beq_eq_false_iff_ne, ne_eq, ← UInt8.toNat_inj, UInt8.reduceToNat] at h ⊢
  omega

theorem readValue_decimal (fuel n : ℕ) {b : UInt8} (hb : EndsInteger b) (t : Bytes) :
    readValue (fuel + 1) (decimal n ++ b :: t) = some (.number n, b :: t) := by
  have hnumber := readNumber_decimal n hb t
  obtain ⟨d, ds, hds⟩ := List.exists_cons_of_ne_nil (decimal_ne_nil n)
  have hd : isDigit d = true := all_isDigit_decimal n d (hds ▸ List.mem_cons_self)
  rw [hds, List.cons_append] at hnumber ⊢
  have hskip : skipBlanks (d :: (ds ++ b :: t)) = d :: (ds ++ b :: t) :=
    List.dropWhile_cons_of_neg (by rw [isBlank_of_isDigit hd]; nofun)
  rw [readValue, hskip]
  split
  case h_7 => rw [hnumber]; rfl
  all_goals
    rename_i heq
    cases heq
    cases hd

section

variable {α : Type} {element : Reader α} {close : UInt8} {fuel : ℕ} {s t : Bytes}

/-- An element with a comma behind it. -/
theorem readElements_comma {x : α} (hclose : close ≠ 44) (h : element s = some (x, 44 :: t)) :
    readElements element close (fuel + 1) s =
      (readElements element close fuel t).map fun q => (x :: q.1, q.2) := by
  have hskip : skipBlanks (44 :: t) = 44 :: t := rfl
  rw [readElements, h, Option.bind_some]
  simp only [hskip]
  rw [if_neg hclose.symm, if_pos trivial]

theorem readElements_ne_nil {xs : List α} (h : readElements element close fuel s = some (xs, t)) :
    xs ≠ [] := by
  cases fuel with
  | zero => cases h
  | succ fuel =>
    rw [readElements] at h
    obtain ⟨p, -, h⟩ := Option.bind_eq_some_iff.mp h
    split at h
    · cases h
    · split_ifs at h
      · cases h
        nofun
      · obtain ⟨q, -, hq⟩ := Option.map_eq_some_iff.mp h
        cases hq
        nofun

end

end Json
