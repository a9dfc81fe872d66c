import TpAdvanced.Lib.CText
import TpAdvanced.Lib.Search

/-!
# Lines that end with CRLF

Text protocols send lines that end with CRLF and mark the end of a head by an
empty line.  `splitLines` cuts a text at its CRLFs, `readHead` reads the lines of
a head up to the empty one.

## Main definitions

* `crlf`, `crlfcrlf`, `unlines`.
* `splitLines`, `readHead`.

## Main results

* `findSub_crlf_append` — a line without a CRLF ends at the one behind it.
* `unlines_splitLines` — the lines of a text give it back.
* `readHead_unlines` — reading a head of given lines.
-/

namespace CText

/-- `"\r\n"`. -/
def crlf : Bytes := [13, 10]

/-- `"\r\n\r\n"`. -/
def crlfcrlf : Bytes := [13, 10, 13, 10]

/-- The lines, each with its line end. -/
def unlines (ls : List Bytes) : Bytes := ls.flatMap (· ++ crlf)

@[simp] theorem unlines_nil : unlines [] = [] := rfl

@[simp] theorem unlines_cons (l : Bytes) (ls : List Bytes) :
    unlines (l :: ls) = l ++ crlf ++ unlines ls := rfl

theorem unlines_append (ls ls' : List Bytes) : unlines (ls ++ ls') = unlines ls ++ unlines ls' :=
  List.flatMap_append

theorem two_mul_length_le_unlines (ls : List Bytes) : 2 * ls.length ≤ (unlines ls).length := by
  induction ls with
  | nil => simp
  | cons l ls ih =>
    simp only [unlines_cons, List.length_append, List.length_cons, crlf]
    omega

/-- A text without a CRLF: one line. -/
def IsLine (l : Bytes) : Prop := List.findSub crlf l = none

instance (l : Bytes) : Decidable (IsLine l) := inferInstanceAs (Decidable (_ = _))

/-- One more byte completes a CRLF when it is an LF behind a CR. -/
theorem isLine_concat_iff {s : Bytes} (hs : IsLine s) (x : UInt8) :
    IsLine (s ++ [x]) ↔ ¬ ([13] <:+ s ∧ x = 10) :=
  @List.findSub_concat_eq_none_iff _ _ [13] s 10 x hs

/-- One more byte completes a blank line when it is an LF behind CRLF and CR. -/
theorem findSub_crlfcrlf_concat {s : Bytes} (hs : List.findSub crlfcrlf s = none) (x : UInt8) :
    List.findSub crlfcrlf (s ++ [x]) = none ↔ ¬ ([13, 10, 13] <:+ s ∧ x = 10) :=
  @List.findSub_concat_eq_none_iff _ _ [13, 10, 13] s 10 x hs

/-- A line ends at the first CRLF behind it. -/
theorem findSub_crlf_append {l : Bytes} (hl : IsLine l) (t : Bytes) :
    List.findSub crlf (l ++ crlf ++ t) = some l.length := by
  refine List.findSub_append ?_ t
  refine List.findSub_eq_some_iff.mpr ⟨by simp, by simp, fun j hj hocc => ?_⟩
  rw [List.drop_append_of_le_length hj.le] at hocc
  have hlen : (l.drop j).length = l.length - j := List.length_drop
  rcases Nat.lt_or_ge (j + 1) l.length with hlt | hge
  · -- the occurrence would lie inside the line
    have hin : crlf <+: l.drop j := List.prefix_of_prefix_append (by simp [crlf]; omega) hocc
    obtain ⟨i, -, hi⟩ := List.exists_findSub_of_prefix_drop hj.le hin
    rw [hl] at hi
    cases hi
  · -- or straddle its end, where a CR follows
    obtain ⟨c, hc⟩ : ∃ c, l.drop j = [c] := List.length_eq_one_iff.mp (by omega)
    rw [hc] at hocc
    simp [crlf] at hocc

/-- What is in front of the first CRLF is a line. -/
theorem isLine_take {s : Bytes} {i : ℕ} (hi : List.findSub crlf s = some i) :
    IsLine (s.take i) := by
  by_contra hne
  obtain ⟨k, hk⟩ := Option.ne_none_iff_exists'.mp hne
  have hklen : k + 2 ≤ (s.take i).length := List.findSub_add_length_le hk
  rw [List.length_take] at hklen
  rw [List.findSub_of_prefix (List.take_prefix i s) hk] at hi
  cases hi
  omega

/-- A line that is not empty does not begin with its line end. -/
theorem not_crlf_prefix_append {l : Bytes} (hl : IsLine l) (hne : l ≠ []) (t : Bytes) :
    ¬ crlf <+: l ++ crlf ++ t := by
  intro hocc
  have hpos := List.length_pos_of_ne_nil hne
  have hzero : List.findSub crlf (l ++ crlf ++ t) = some 0 :=
    List.findSub_eq_some_iff.mpr ⟨Nat.zero_le _, hocc, by simp⟩
  rw [findSub_crlf_append hl, Option.some.injEq] at hzero
  omega

/-- The search for a blank line, in front of the first line end and behind it. -/
theorem findSub_crlfcrlf_append {l : Bytes} (hl : IsLine l) (t : Bytes) :
    List.findSub crlfcrlf (l ++ crlf ++ t) =
      if crlf <+: t then some l.length
      else (List.findSub crlfcrlf t).map (· + (l.length + 2)) := by
  have hfirst : ∀ j < l.length, ¬ crlfcrlf <+: (l ++ (crlf ++ t)).drop j := by
    intro j hj hocc
    have hcrlf : crlf <+: (l ++ (crlf ++ t)).drop j := List.IsPrefix.trans ⟨crlf, rfl⟩ hocc
    rw [← List.append_assoc] at hcrlf
    exact (List.findSub_eq_some_iff.mp (findSub_crlf_append hl t)).2.2 j hj hcrlf
  rw [List.append_assoc, List.findSub_append_of_forall hfirst]
  split
  · rename_i hblank
    have hocc : crlfcrlf <+: crlf ++ t := (List.prefix_append_right_inj crlf).mpr hblank
    rw [List.findSub_eq_some_iff.mpr ⟨Nat.zero_le _, hocc, by simp⟩, Option.map_some, Nat.zero_add]
  · rename_i hblank
    have hcr : ¬ crlfcrlf <+: 13 :: 10 :: t := fun h =>
      hblank ((List.prefix_append_right_inj crlf).mp h)
    have hlf : ¬ crlfcrlf <+: 10 :: t := by simp [crlfcrlf]
    rw [show crlf ++ t = 13 :: 10 :: t from rfl, List.findSub_cons_neg hcr,
      List.findSub_cons_neg hlf, Option.map_map, Option.map_map]
    congr 1
    funext n
    simp only [Function.comp_apply]
    omega

/-- **The blank line behind lines that are not empty.** -/
theorem findSub_crlfcrlf_unlines {ls : List Bytes} (hne : ls ≠ [])
    (hls : ∀ l ∈ ls, IsLine l ∧ l ≠ []) (t : Bytes) :
    ∃ n, (unlines ls).length = n + 2 ∧
      List.findSub crlfcrlf (unlines ls ++ crlf ++ t) = some n := by
  induction ls with
  | nil => exact absurd rfl hne
  | cons l ls ih =>
    obtain ⟨hl, -⟩ := hls l List.mem_cons_self
    have hshift : unlines (l :: ls) ++ crlf ++ t = l ++ crlf ++ (unlines ls ++ crlf ++ t) := by
      simp
    rw [hshift, findSub_crlfcrlf_append hl, unlines_cons, List.length_append, List.length_append]
    cases ls with
    | nil =>
      refine ⟨l.length, by simp [crlf], ?_⟩
      rw [if_pos]
      exact List.prefix_append crlf t
    | cons l' ls =>
      obtain ⟨hl', hne'⟩ := hls l' (List.mem_cons_of_mem l List.mem_cons_self)
      obtain ⟨n, hlen, hn⟩ := ih (List.cons_ne_nil l' ls)
        fun k hk => hls k (List.mem_cons_of_mem l hk)
      refine ⟨n + (l.length + 2), ?_, ?_⟩
      · rw [hlen]
        simp only [crlf, List.length_cons, List.length_nil]
        omega
      · have hno : ¬ crlf <+: unlines (l' :: ls) ++ crlf ++ t := by
          rw [unlines_cons, List.append_assoc, List.append_assoc]
          exact not_crlf_prefix_append hl' hne' _
        rw [if_neg hno, hn]
        rfl

/-- Two lines joined by a byte that is neither CR nor LF are one line. -/
theorem isLine_append_cons {a b : Bytes} {c : UInt8} (ha : IsLine a) (hb : IsLine b)
    (hcr : c ≠ 13) (hlf : c ≠ 10) : IsLine (a ++ c :: b) := by
  by_contra hne
  obtain ⟨j, hj⟩ := Option.ne_none_iff_exists'.mp hne
  have hlen := List.findSub_add_length_le hj
  have hocc := List.prefix_drop_of_findSub hj
  simp only [crlf, List.length_append, List.length_cons, List.length_nil] at hlen
  rcases Nat.lt_trichotomy j a.length with hlt | heq | hgt
  · rw [List.drop_append_of_le_length hlt.le] at hocc
    rcases Nat.lt_or_ge (j + 1) a.length with hin | hge
    · have hocca : crlf <+: a.drop j :=
        List.prefix_of_prefix_append (by simp [crlf]; omega) hocc
      obtain ⟨i, -, hi⟩ := List.exists_findSub_of_prefix_drop hlt.le hocca
      rw [ha] at hi
      cases hi
    · obtain ⟨d, hd⟩ : ∃ d, a.drop j = [d] := List.length_eq_one_iff.mp (by simp; omega)
      rw [hd] at hocc
      simp only [crlf, List.singleton_append, List.cons_prefix_cons] at hocc
      exact hlf hocc.2.1.symm
  · rw [heq, List.drop_left] at hocc
    simp only [crlf, List.cons_prefix_cons] at hocc
    exact hcr hocc.1.symm
  · obtain ⟨k, rfl⟩ := Nat.exists_eq_add_of_lt hgt
    have hdrop : (a ++ c :: b).drop (a.length + k + 1) = b.drop k := by
      rw [Nat.add_assoc, ← List.drop_drop, List.drop_left, List.drop_succ_cons]
    rw [hdrop] at hocc
    obtain ⟨i, -, hi⟩ := List.exists_findSub_of_prefix_drop (by omega) hocc
    rw [hb] at hi
    cases hi

/-! ### Cutting a text into lines -/

/-- The pieces between the first `fuel` CRLFs. -/
def splitLinesAux : ℕ → Bytes → List Bytes
  | 0, s => [s]
  | fuel + 1, s =>
    match List.findSub crlf s with
    | none => [s]
    | some i => s.take i :: splitLinesAux fuel (s.drop (i + 2))

/-- The pieces of a text between its CRLFs. -/
def splitLines (s : Bytes) : List Bytes := splitLinesAux s.length s

theorem unlines_splitLinesAux (fuel : ℕ) (s : Bytes) :
    unlines (splitLinesAux fuel s) = s ++ crlf := by
  induction fuel generalizing s with
  | zero => simp [splitLinesAux]
  | succ fuel ih =>
    rw [splitLinesAux]
    cases hi : List.findSub crlf s with
    | none => simp
    | some i =>
      obtain ⟨t, ht⟩ := List.prefix_drop_of_findSub hi
      have hdrop : s.drop (i + 2) = t := by
        rw [← List.drop_drop, ← ht]
        rfl
      have hs : s = s.take i ++ crlf ++ t := by
        rw [List.append_assoc, ht, List.take_append_drop]
      rw [unlines_cons, ih, hdrop, ← List.append_assoc, ← hs]

/-- **The lines of a text give it back.** -/
theorem unlines_splitLines (s : Bytes) : unlines (splitLines s) = s ++ crlf :=
  unlines_splitLinesAux _ s

theorem isLine_of_mem_splitLinesAux {fuel : ℕ} {s : Bytes} (hlen : s.length ≤ fuel) :
    ∀ l ∈ splitLinesAux fuel s, IsLine l := by
  induction fuel generalizing s with
  | zero =>
    intro l hl
    obtain rfl : s = [] := List.length_eq_zero_iff.mp (by omega)
    obtain rfl : l = [] := by simpa [splitLinesAux] using hl
    rfl
  | succ fuel ih =>
    intro l hl
    rw [splitLinesAux] at hl
    cases hi : List.findSub crlf s with
    | none =>
      rw [hi] at hl
      obtain rfl : l = s := by simpa using hl
      exact hi
    | some i =>
      have hle : i + 2 ≤ s.length := List.findSub_add_length_le hi
      rw [hi, List.mem_cons] at hl
      rcases hl with rfl | hl
      · exact isLine_take hi
      · exact ih (by rw [List.length_drop]; omega) l hl

/-- Every piece is a line. -/
theorem isLine_of_mem_splitLines {s l : Bytes} (hl : l ∈ splitLines s) : IsLine l :=
  isLine_of_mem_splitLinesAux le_rfl l hl

theorem splitLines_ne_nil (s : Bytes) : splitLines s ≠ [] := by
  intro hnil
  have hlines := unlines_splitLines s
  rw [hnil] at hlines
  simp [crlf] at hlines

theorem splitLines_of_isLine {l : Bytes} (hl : IsLine l) : splitLines l = [l] := by
  unfold splitLines
  cases h : l.length with
  | zero => rfl
  | succ n =>
    rw [splitLinesAux]
    rw [show List.findSub crlf l = none from hl]

/-! ### Reading a head -/

/-- The lines up to the empty one, of at most `fuel` lines, and what follows. -/
def readHeadAux : ℕ → Bytes → Option (List Bytes × Bytes)
  | 0, _ => none
  | fuel + 1, s =>
    match List.findSub crlf s with
    | none => none
    | some i =>
      if i = 0 then some ([], s.drop 2)
      else (readHeadAux fuel (s.drop (i + 2))).map fun h => (s.take i :: h.1, h.2)

/-- The lines of a head, and what follows the empty line behind it. -/
def readHead (s : Bytes) : Option (List Bytes × Bytes) := readHeadAux s.length s

/-- What follows the first empty line of a list of lines and a text behind them. -/
def behindBlank : List Bytes → Bytes → Bytes
  | [], t => t
  | l :: ls, t => if l = [] then unlines ls ++ crlf ++ t else behindBlank ls t

theorem readHeadAux_line {fuel : ℕ} {l : Bytes} (hl : IsLine l) (t : Bytes) :
    readHeadAux (fuel + 1) (l ++ crlf ++ t) =
      if l = [] then some ([], t) else (readHeadAux fuel t).map fun h => (l :: h.1, h.2) := by
  rw [readHeadAux, findSub_crlf_append hl]
  by_cases hnil : l = []
  · subst hnil
    rfl
  · have hne : l.length ≠ 0 := fun h => hnil (List.length_eq_zero_iff.mp h)
    have hdrop : (l ++ crlf ++ t).drop (l.length + 2) = t := by
      rw [List.drop_left' (by simp [crlf])]
    have htake : (l ++ crlf ++ t).take l.length = l := by
      rw [List.append_assoc, List.take_left]
    simp only [if_neg hne, if_neg hnil, hdrop, htake]

theorem readHeadAux_unlines {ls : List Bytes} (hls : ∀ l ∈ ls, IsLine l) (t : Bytes) :
    ∀ {fuel : ℕ}, ls.length < fuel → readHeadAux fuel (unlines ls ++ crlf ++ t) =
      some (ls.takeWhile (· ≠ []), behindBlank ls t) := by
  induction ls with
  | nil =>
    intro fuel hfuel
    obtain ⟨n, rfl⟩ := Nat.exists_eq_succ_of_ne_zero (Nat.ne_of_gt hfuel)
    exact readHeadAux_line (l := []) rfl t
  | cons l ls ih =>
    intro fuel hfuel
    obtain ⟨n, rfl⟩ := Nat.exists_eq_succ_of_ne_zero (Nat.ne_zero_of_lt hfuel)
    have hlen : ls.length < n := Nat.lt_of_succ_lt_succ hfuel
    rw [unlines_cons, List.append_assoc, List.append_assoc, ← List.append_assoc (unlines ls),
      readHeadAux_line (hls l List.mem_cons_self)]
    by_cases hnil : l = []
    · simp [hnil, behindBlank]
    · rw [if_neg hnil, ih (fun l' hl' => hls l' (List.mem_cons_of_mem l hl')) hlen]
      simp [hnil, behindBlank]

/-- **Reading a head of given lines**: the lines in front of the first empty one. -/
theorem readHead_unlines {ls : List Bytes} (hls : ∀ l ∈ ls, IsLine l) (t : Bytes) :
    readHead (unlines ls ++ crlf ++ t) =
      some (ls.takeWhile (· ≠ []), behindBlank ls t) := by
  refine readHeadAux_unlines hls t ?_
  have hlen := two_mul_length_le_unlines ls
  simp only [List.length_append, crlf, List.length_cons, List.length_nil]
  omega

theorem readHeadAux_append {s : Bytes} (t : Bytes) : ∀ {fuel fuel' : ℕ} {h : List Bytes × Bytes},
    fuel ≤ fuel' → readHeadAux fuel s = some h →
      readHeadAux fuel' (s ++ t) = some (h.1, h.2 ++ t) := by
  intro fuel
  induction fuel generalizing s with
  | zero => exact fun _ hs => nomatch hs
  | succ fuel ih =>
    intro fuel' h hle hs
    obtain ⟨n, rfl⟩ := Nat.exists_eq_add_of_le' (Nat.le_trans (Nat.le_add_left 1 fuel) hle)
    rw [readHeadAux] at hs ⊢
    cases hi : List.findSub crlf s with
    | none => simp [hi] at hs
    | some i =>
      have hlen := List.findSub_add_length_le hi
      simp only [crlf, List.length_cons, List.length_nil] at hlen
      simp only [hi, List.findSub_append hi t] at hs ⊢
      split at hs
      · cases hs
        rw [if_pos ‹_›, List.drop_append_of_le_length (by omega)]
      · obtain ⟨h', hh', rfl⟩ := Option.map_eq_some_iff.mp hs
        rw [if_neg ‹_›, List.drop_append_of_le_length (by omega), ih (by omega) hh',
          List.take_append_of_le_length (by omega)]
        rfl

/-- **A head that has been read** stays what it is when more arrives. -/
theorem readHead_append {s : Bytes} {h : List Bytes × Bytes} (hs : readHead s = some h)
    (t : Bytes) : readHead (s ++ t) = some (h.1, h.2 ++ t) :=
  readHeadAux_append t (by simp) hs

/-- Without an empty line the head has all the lines. -/
theorem behindBlank_of_ne {ls : List Bytes} (hne : ∀ l ∈ ls, l ≠ []) (t : Bytes) :
    ls.takeWhile (· ≠ []) = ls ∧ behindBlank ls t = t := by
  induction ls with
  | nil => exact ⟨rfl, rfl⟩
  | cons l ls ih =>
    have hl := hne l List.mem_cons_self
    obtain ⟨htake, hbehind⟩ := ih fun l' hl' => hne l' (List.mem_cons_of_mem l hl')
    refine ⟨?_, ?_⟩
    · rw [List.takeWhile_cons_of_pos (by simpa using hl), htake]
    · rw [behindBlank, if_neg hl, hbehind]

end CText
