import TpAdvanced.Kvstore.Store

/-!
# The search in a page

`find_by_key` halves a window whose upper bound is included, so the last record it
may look at is the one behind the page.

## Main definitions

* `SplitAt` — the keys of a window are smaller below a place and greater above.
* `Searching` — how far the search has come.

## Main results

* `scan_of_record`, `scan_eq_none` — what the linear scan gives.
* `returns_findStep` — **the search ends at the place** where the keys split.
-/

namespace TpAdvanced

open KVStore While

variable {Key Data : Type} [LinearOrder Key] [Record Key Data]

/-! ### The records of a file -/

namespace File

omit [LinearOrder Key] in
theorem size_eq {f : File} (hsize : f.size % Record.sizeof Data = 0) :
    f.size = f.count Data * Record.sizeof Data :=
  (Nat.div_mul_cancel (Nat.dvd_of_mod_eq_zero hsize)).symm

omit [LinearOrder Key] in
theorem count_lt (Data : Type) [Record Key Data] (f : File) : f.count Data < 2 ^ 63 :=
  (Nat.div_le_self f.size _).trans_lt f.size_lt

omit [LinearOrder Key] in
/-- Behind the last record there are zeros. -/
theorem record_of_count_le {f : File} (hsize : f.size % Record.sizeof Data = 0) {i : ℕ}
    (hi : f.count Data ≤ i) : f.record Data i = zeroRecord Data := by
  have hdrop : f.data.drop (i * Record.sizeof Data) = [] := by
    apply List.drop_eq_nil_of_le
    have hle := Nat.mul_le_mul_right (Record.sizeof Data) hi
    rw [← size_eq hsize] at hle
    exact hle
  rw [record, readAt, bytesAt, hdrop, zeroRecord, List.nil_append, List.take_of_length_le (by simp)]

theorem KeysIncrease.lt_of_key_lt {f : File} (hkeys : f.KeysIncrease Data) {i j : ℕ}
    (hi : i < f.count Data)
    (hlt : Record.key (f.record Data i) < Record.key (f.record Data j)) : i < j := by
  by_contra hge
  rcases Nat.eq_or_lt_of_le (Nat.le_of_not_lt hge) with rfl | hji
  · exact lt_irrefl _ hlt
  · exact lt_asymm hlt (hkeys j i hji hi)

/-- The scan finds a record by its key. -/
theorem scan_of_record {f : File} (hkeys : f.KeysIncrease Data) {i : ℕ} (hi : i < f.count Data) :
    f.scan Data (Record.key (f.record Data i)) = some (f.record Data i) := by
  rw [scan, List.find?_eq_some_iff_getElem]
  refine ⟨by simp, i, by simpa using hi, by simp, fun j hj => ?_⟩
  have hne := (hkeys j i hj hi).ne
  simpa using hne

theorem scan_eq_none {f : File} {k : Key}
    (h : ∀ i, i < f.count Data → Record.key (f.record Data i) ≠ k) : f.scan Data k = none := by
  rw [scan, List.find?_eq_none]
  simpa using h

end File

/-! ### The search in a page -/

section Search

variable {f : File} {k : Key} {c first last lo hi : ℕ}

/-- In the window from `first` to `last` the keys are smaller below `c` and greater
above.  Of the last record this is not asked: the search comes to it only from the
one before. -/
structure SplitAt (Data : Type) [Record Key Data] (f : File) (k : Key) (c first last : ℕ) :
    Prop where
  first_le : first ≤ c
  le_last : c ≤ last
  below : ∀ i, first ≤ i → i < c → Record.key (f.record Data i) < k
  above : ∀ i, c < i → i < last → k < Record.key (f.record Data i)
  place : c < last → k ≤ Record.key (f.record Data c)
  zero : c = 0 → Record.key (f.record Data 0) ≤ k
  fits : last * Record.sizeof Data < 2 ^ 64
  fits_succ : c = last → last + 1 < 2 ^ 64

/-- The search has come to the window from `lo` to `hi`, and `c` is in it if it has
the key. -/
structure Searching (Data : Type) [Record Key Data] (f : File) (k : Key) (c first last : ℕ)
    (w : ℕ × ℕ) : Prop where
  first_le : first ≤ w.1
  le_last : w.2 ≤ last
  place : Record.key (f.record Data c) = k → w.1 ≤ c ∧ c ≤ w.2
  le_place : w.1 ≤ w.2 → w.1 ≤ c

theorem findStep_of_le (hle : lo ≤ hi) (hfit : hi * Record.sizeof Data < 2 ^ 64) :
    findStep Data f k (lo, hi) =
      let mid := lo + (hi - lo) / 2
      if Record.key (f.record Data mid) = k then .inr (some (f.record Data mid))
      else if k < Record.key (f.record Data mid) then .inl (lo, SizeT.sub mid 1)
      else .inl (SizeT.add mid 1, hi) := by
  have hpos := sizeof_pos Data
  have hhi : hi < 2 ^ 64 := lt_of_le_of_lt (Nat.le_mul_of_pos_right hi hpos) hfit
  have hmid : (lo + (hi - lo) / 2) * Record.sizeof Data ≤ hi * Record.sizeof Data :=
    Nat.mul_le_mul_right _ (by omega)
  simp only [findStep, if_pos hle]
  rw [SizeT.sub_of_le hle hhi, SizeT.add_of_lt (by omega), SizeT.mul_of_lt (hmid.trans_lt hfit)]
  rfl

theorem findStep_of_lt (hlt : hi < lo) : findStep Data f k (lo, hi) = .inr none :=
  if_neg (Nat.not_le_of_lt hlt)

/-- Where the middle of the window lies. -/
theorem SplitAt.middle (hsplit : SplitAt Data f k c first last)
    (hw : Searching Data f k c first last (lo, hi)) (hle : lo ≤ hi) {mid : ℕ}
    (hmid : mid = lo + (hi - lo) / 2) :
    (mid < c ∧ Record.key (f.record Data mid) < k) ∨ mid = c ∨
      (c < mid ∧ k < Record.key (f.record Data mid)) := by
  have hfirst : first ≤ lo := hw.first_le
  have hlast : hi ≤ last := hw.le_last
  have hplace : lo ≤ c := hw.le_place hle
  rcases Nat.lt_trichotomy mid c with hlt | heq | hgt
  · exact .inl ⟨hlt, hsplit.below mid (by omega) hlt⟩
  · exact .inr (.inl heq)
  · -- the middle is the last record only in a window of one record, which has `c`
    exact .inr (.inr ⟨hgt, hsplit.above mid hgt (by omega)⟩)

theorem searching_start (hsplit : SplitAt Data f k c first last) :
    Searching Data f k c first last (first, last) where
  first_le := le_rfl
  le_last := le_rfl
  place := fun _ => ⟨hsplit.first_le, hsplit.le_last⟩
  le_place := fun _ => hsplit.first_le

/-- A pass that goes on keeps `c` in a smaller window. -/
theorem searching_step (hsplit : SplitAt Data f k c first last) {w w' : ℕ × ℕ}
    (hw : Searching Data f k c first last w) (hstep : findStep Data f k w = .inl w') :
    Searching Data f k c first last w' ∧ w'.2 + 1 - w'.1 < w.2 + 1 - w.1 := by
  obtain ⟨lo, hi⟩ := w
  obtain ⟨hfirst, hlast, hplace, hlec⟩ := hw
  simp only at hfirst hlast hplace hlec
  rcases Nat.lt_or_ge hi lo with hlt | hle
  · rw [findStep_of_lt hlt] at hstep
    cases hstep
  have hpos := sizeof_pos Data
  have hfit : hi * Record.sizeof Data < 2 ^ 64 :=
    lt_of_le_of_lt (Nat.mul_le_mul_right _ hlast) hsplit.fits
  have hhi : hi < 2 ^ 64 := lt_of_le_of_lt (Nat.le_mul_of_pos_right hi hpos) hfit
  rw [findStep_of_le hle hfit] at hstep
  have hmiddle := hsplit.middle ⟨hfirst, hlast, hplace, hlec⟩ hle rfl
  simp only at hstep
  generalize hmid : lo + (hi - lo) / 2 = mid at hstep hmiddle
  have hlec := hlec hle
  split at hstep
  · cases hstep
  rename_i hne
  split at hstep
  · -- the key is below the middle
    rename_i hgt
    have hcm : c ≤ mid := by
      rcases hmiddle with ⟨-, hlt⟩ | heq | ⟨hlt, -⟩
      · exact absurd hlt hgt.not_gt
      · exact heq.ge
      · exact hlt.le
    -- the first record is not above the key, so `middle - 1` does not wrap around
    have hmpos : 0 < mid := by
      by_contra hzero
      obtain rfl : mid = 0 := by omega
      exact absurd (hsplit.zero (by omega)) hgt.not_ge
    rw [SizeT.sub_of_le hmpos (by omega)] at hstep
    cases hstep
    refine ⟨⟨hfirst, by simp only; omega, fun hkey => ⟨hlec, ?_⟩, fun _ => hlec⟩,
      by simp only; omega⟩
    have hcne : c ≠ mid := by
      rintro rfl
      exact hne hkey
    simp only
    omega
  · -- the key is above the middle
    rename_i hngt
    have hlt : Record.key (f.record Data mid) < k := lt_of_le_of_ne (not_lt.mp hngt) hne
    have hmc : mid < c ∨ mid = c ∧ c = last := by
      rcases hmiddle with ⟨hmc, -⟩ | heq | ⟨-, hgt⟩
      · exact .inl hmc
      · refine .inr ⟨heq, ?_⟩
        by_contra hcl
        have hge := hsplit.place (lt_of_le_of_ne hsplit.le_last hcl)
        rw [← heq] at hge
        exact absurd hlt hge.not_gt
      · exact absurd hlt hgt.not_gt
    -- `middle + 1` does not wrap around either
    have hfits : mid + 1 < 2 ^ 64 := by
      rcases hmc with hmc | ⟨heq, hcl⟩
      · have hle := hsplit.le_last
        have hfl := lt_of_le_of_lt (Nat.le_mul_of_pos_right last hpos) hsplit.fits
        omega
      · have hs := hsplit.fits_succ hcl
        omega
    rw [SizeT.add_of_lt hfits] at hstep
    cases hstep
    refine ⟨⟨by simp only; omega, hlast, fun hkey => ?_, fun hle' => ?_⟩, by simp only; omega⟩
    · have hcne : c ≠ mid := by
        rintro rfl
        exact hne hkey
      have hchi := (hplace hkey).2
      simp only
      omega
    · simp only at hle' ⊢
      omega

/-- Where the search ends. -/
theorem searching_end (hsplit : SplitAt Data f k c first last) {w : ℕ × ℕ} {r : Option Data}
    (hw : Searching Data f k c first last w) (hstep : findStep Data f k w = .inr r) :
    r = if Record.key (f.record Data c) = k then some (f.record Data c) else none := by
  obtain ⟨lo, hi⟩ := w
  rcases Nat.lt_or_ge hi lo with hlt | hle
  · rw [findStep_of_lt hlt] at hstep
    cases hstep
    rw [if_neg]
    intro hkey
    obtain ⟨h₁, h₂⟩ := hw.place hkey
    simp only at h₁ h₂
    omega
  have hfit : hi * Record.sizeof Data < 2 ^ 64 :=
    lt_of_le_of_lt (Nat.mul_le_mul_right _ hw.le_last) hsplit.fits
  rw [findStep_of_le hle hfit] at hstep
  have hmiddle := hsplit.middle hw hle rfl
  simp only at hstep
  generalize lo + (hi - lo) / 2 = mid at hstep hmiddle
  split at hstep
  · rename_i heq
    cases hstep
    rcases hmiddle with ⟨-, hlt⟩ | rfl | ⟨-, hgt⟩
    · exact absurd heq hlt.ne
    · rw [if_pos heq]
    · exact absurd heq hgt.ne'
  · split at hstep <;> cases hstep

/-- **The search by halving** ends at `c`. -/
theorem returns_findStep (hsplit : SplitAt Data f k c first last) :
    Returns (findStep Data f k) (first, last)
      (if Record.key (f.record Data c) = k then some (f.record Data c) else none) := by
  obtain ⟨r, hr, rfl⟩ := exists_returns (Searching Data f k c first last)
    (fun r => r = if Record.key (f.record Data c) = k then some (f.record Data c) else none)
    (fun w => w.2 + 1 - w.1) (fun w w' hw hstep => searching_step hsplit hw hstep)
    (fun w r hw hstep => searching_end hsplit hw hstep) (searching_start hsplit)
  exact hr

end Search

end TpAdvanced
