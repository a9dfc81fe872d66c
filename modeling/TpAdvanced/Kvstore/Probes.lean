import TpAdvanced.Kvstore.PageEntries

/-!
# The probes of a search

Every pass of a search probes the middle of its window.  What lies behind the end of the
file is not for the file to say, so here the records are what some function reads; it
agrees with the file as far as the file goes.  Nor need the keys be in order: that the
first key of the window is not above the key is all that keeps the window from slipping
below its first index.

## Main definitions

* `Memory` — a file and what lies behind it.
* `probeStep` — `find_by_key` on what is read.
* `WellSearched` — a search that stays above the first index, and ends.

## Main results

* `kept_step` — what a pass keeps.
* `visits_rightWindow` — the way of a search that always goes right.
* `wellSearched_iff` — **which searches are fine**: all but those of a page as long as
  the address space.
-/

namespace TpAdvanced

open While

variable {Key Data : Type} [LinearOrder Key] [Record Key Data]

/-- A file in memory: what is read of it, and behind it. -/
structure Memory (Data : Type) [Record Key Data] (f : File) where
  readAt : ℕ → Data
  readAt_inside : ∀ o, o + Record.sizeof Data ≤ f.size → readAt o = f.readAt o

/-- The middle of a window. -/
def middle (w : ℕ × ℕ) : ℕ := SizeT.add w.1 (SizeT.sub w.2 w.1 / 2)

/-- The body of the loop in `find_by_key`, with what it reads. -/
def probeStep (readAt : ℕ → Data) (key : Key) : ℕ × ℕ → (ℕ × ℕ) ⊕ Option Data
  | (begin_, end_) =>
    if begin_ ≤ end_ then
      let mid := middle (begin_, end_)
      let middata := readAt (SizeT.mul mid (Record.sizeof Data))
      if Record.key middata = key then .inr (some middata)
      else if key < Record.key middata then .inl (begin_, SizeT.sub mid 1)
      else .inl (SizeT.add mid 1, end_)
    else .inr none

theorem findStep_eq_probeStep (f : File) (k : Key) :
    KVStore.findStep Data f k = probeStep f.readAt k := rfl

/-- The search never has its window begin or end below the first index, never takes one
off the first index, and ends. -/
structure WellSearched (readAt : ℕ → Data) (k : Key) (first last : ℕ) : Prop where
  above : ∀ w, Visits (probeStep readAt k) (first, last) w → first ≤ w.1 ∧ first ≤ w.2
  middle_ne : ∀ w, Visits (probeStep readAt k) (first, last) w → w.1 ≤ w.2 →
    k < Record.key (readAt (SizeT.mul (middle w) (Record.sizeof Data))) → middle w ≠ first
  ends : ∃ r, Returns (probeStep readAt k) (first, last) r

section Probes

variable {f : File} {k : Key} {first last lo hi : ℕ}

namespace Memory

/-- The record at this place. -/
def record (m : Memory Data f) (i : ℕ) : Data := m.readAt (i * Record.sizeof Data)

omit [LinearOrder Key] in
theorem record_of_lt (m : Memory Data f) (hsize : f.size % Record.sizeof Data = 0) {i : ℕ}
    (hi : i < f.count Data) : m.record i = f.record Data i := by
  refine m.readAt_inside _ ?_
  rw [File.size_eq hsize, ← Nat.succ_mul]
  exact Nat.mul_le_mul_right _ hi

end Memory

/-! ### One pass -/

theorem middle_of_le (hle : lo ≤ hi) (hhi : hi < 2 ^ 64) :
    middle (lo, hi) = lo + (hi - lo) / 2 := by
  rw [middle, SizeT.sub_of_le hle hhi, SizeT.add_of_lt]
  simp only
  omega

omit [LinearOrder Key] in
theorem lt_of_fits (Data : Type) [Record Key Data] (hfit : hi * Record.sizeof Data < 2 ^ 64) :
    hi < 2 ^ 64 :=
  (Nat.le_mul_of_pos_right hi (sizeof_pos Data)).trans_lt hfit

omit [LinearOrder Key] in
theorem probe_of_le (hle : lo ≤ hi) (hfit : hi * Record.sizeof Data < 2 ^ 64) :
    SizeT.mul (middle (lo, hi)) (Record.sizeof Data) =
      (lo + (hi - lo) / 2) * Record.sizeof Data := by
  rw [middle_of_le hle (lt_of_fits Data hfit)]
  exact SizeT.mul_of_lt ((Nat.mul_le_mul_right _ (by omega)).trans_lt hfit)

variable {m : Memory Data f}

theorem probeStep_of_le (hle : lo ≤ hi) (hfit : hi * Record.sizeof Data < 2 ^ 64) :
    probeStep m.readAt k (lo, hi) =
      let mid := lo + (hi - lo) / 2
      if Record.key (m.record mid) = k then .inr (some (m.record mid))
      else if k < Record.key (m.record mid) then .inl (lo, SizeT.sub mid 1)
      else .inl (SizeT.add mid 1, hi) := by
  rw [probeStep, if_pos hle]
  simp only [probe_of_le hle hfit]
  rw [middle_of_le hle (lt_of_fits Data hfit)]
  rfl

/-- A pass that goes on has probed the middle and leaves the half to its left, or that to
its right. -/
theorem probeStep_inl (hfit : hi * Record.sizeof Data < 2 ^ 64) {w' : ℕ × ℕ}
    (hstep : probeStep m.readAt k (lo, hi) = .inl w') :
    lo ≤ hi ∧
      ((k < Record.key (m.record (lo + (hi - lo) / 2)) ∧
          w' = (lo, SizeT.sub (lo + (hi - lo) / 2) 1)) ∨
        (Record.key (m.record (lo + (hi - lo) / 2)) < k ∧
          w' = (SizeT.add (lo + (hi - lo) / 2) 1, hi))) := by
  by_cases hle : lo ≤ hi
  · rw [probeStep_of_le hle hfit] at hstep
    refine ⟨hle, ?_⟩
    simp only at hstep
    split at hstep
    · cases hstep
    · rename_i hne
      split at hstep
      · rename_i hgt
        exact .inl ⟨hgt, (Sum.inl.inj hstep).symm⟩
      · rename_i hngt
        exact .inr ⟨lt_of_le_of_ne (not_lt.mp hngt) hne, (Sum.inl.inj hstep).symm⟩
  · rw [probeStep, if_neg hle] at hstep
    cases hstep

theorem probeStep_right (hle : lo ≤ hi) (hfit : hi * Record.sizeof Data < 2 ^ 64)
    (hlow : Record.key (m.record (lo + (hi - lo) / 2)) < k) :
    probeStep m.readAt k (lo, hi) = .inl (SizeT.add (lo + (hi - lo) / 2) 1, hi) := by
  rw [probeStep_of_le hle hfit]
  exact (if_neg hlow.ne).trans (if_neg hlow.not_gt)

/-! ### What a pass keeps -/

/-- The window has not slipped below the first index, nor has it grown. -/
structure Kept (first last : ℕ) (w : ℕ × ℕ) : Prop where
  begin_le : first ≤ w.1
  end_le : first ≤ w.2
  le_last : w.2 ≤ last

/-- The window that a search may be in: its first record has no greater key, its offsets
do not overflow, and if one behind the last index does, the first index is 0. -/
structure Searchable (m : Memory Data f) (k : Key) (first last : ℕ) : Prop where
  first_le : first ≤ last
  fits : last * Record.sizeof Data < 2 ^ 64
  wraps : last + 1 = 2 ^ 64 → first = 0
  key_le : Record.key (m.record first) ≤ k

theorem Searchable.mono (h : Searchable m k first last) (hfirst : first ≤ hi) (hle : hi ≤ last) :
    Searchable m k first hi where
  first_le := hfirst
  fits := (Nat.mul_le_mul_right _ hle).trans_lt h.fits
  wraps := fun hwrap => by
    have hlast := lt_of_fits Data h.fits
    exact h.wraps (by omega)
  key_le := h.key_le

/-- The middle is not the first index, if the search goes left of it. -/
theorem Searchable.first_lt_middle (h : Searchable m k first last) (hfirst : first ≤ lo) {mid : ℕ}
    (hmid : lo ≤ mid) (hgt : k < Record.key (m.record mid)) : first < mid := by
  refine lt_of_le_of_ne (hfirst.trans hmid) ?_
  rintro rfl
  exact absurd hgt h.key_le.not_gt

/-- **A pass keeps the window above the first index**, and makes it smaller unless the
last index is that of the whole address space. -/
theorem kept_step (h : Searchable m k first last) {w w' : ℕ × ℕ} (hw : Kept first last w)
    (hstep : probeStep m.readAt k w = .inl w') :
    Kept first last w' ∧ (last + 1 < 2 ^ 64 → w'.2 + 1 - w'.1 < w.2 + 1 - w.1) := by
  obtain ⟨lo, hi⟩ := w
  obtain ⟨hlo, hend, hlast⟩ := hw
  simp only at hlo hend hlast
  have hfit : hi * Record.sizeof Data < 2 ^ 64 := (Nat.mul_le_mul_right _ hlast).trans_lt h.fits
  have hlt := lt_of_fits Data h.fits
  obtain ⟨hle, ⟨hgt, rfl⟩ | ⟨-, rfl⟩⟩ := probeStep_inl hfit hstep
  · have hmid := h.first_lt_middle hlo (Nat.le_add_right lo _) hgt
    rw [SizeT.sub_of_le (by omega) (by omega)]
    exact ⟨⟨hlo, by simp only; omega, by simp only; omega⟩, fun _ => by simp only; omega⟩
  · rcases Nat.lt_or_ge (lo + (hi - lo) / 2 + 1) (2 ^ 64) with hfits | hwrap
    · rw [SizeT.add_of_lt hfits]
      exact ⟨⟨by simp only; omega, hend, hlast⟩, fun _ => by simp only; omega⟩
    · -- the addition wraps around: the window begins at 0 again
      have hzero := h.wraps (by omega)
      refine ⟨⟨?_, hend, hlast⟩, fun hfits => by omega⟩
      rw [hzero]
      exact Nat.zero_le _

theorem Searchable.kept (h : Searchable m k first last) {w : ℕ × ℕ}
    (hv : Visits (probeStep m.readAt k) (first, last) w) : Kept first last w :=
  hv.invariant (Kept first last) (fun _ _ hw hstep => (kept_step h hw hstep).1)
    ⟨le_rfl, h.first_le, le_rfl⟩

/-- A search ends, when the index behind the last one does not overflow. -/
theorem Searchable.ends (h : Searchable m k first last) (hlast : last + 1 < 2 ^ 64) {w : ℕ × ℕ}
    (hw : Kept first last w) : ∃ r, Returns (probeStep m.readAt k) w r := by
  obtain ⟨r, hr, -⟩ := exists_returns (Kept first last) (fun _ => True) (fun w => w.2 + 1 - w.1)
    (fun w w' hw hstep => (kept_step h hw hstep).imp_right fun hless => hless hlast)
    (fun _ _ _ _ => trivial) hw
  exact ⟨r, hr⟩

theorem Searchable.wellSearched (h : Searchable m k first last)
    (hends : ∃ r, Returns (probeStep m.readAt k) (first, last) r) :
    WellSearched m.readAt k first last where
  above := fun w hv => ⟨(h.kept hv).begin_le, (h.kept hv).end_le⟩
  middle_ne := by
    rintro ⟨lo, hi⟩ hv hle hgt
    have hkept := h.kept hv
    have hfit : hi * Record.sizeof Data < 2 ^ 64 :=
      (Nat.mul_le_mul_right _ hkept.le_last).trans_lt h.fits
    rw [probe_of_le hle hfit] at hgt
    rw [middle_of_le hle (lt_of_fits Data hfit)]
    exact (h.first_lt_middle hkept.begin_le (Nat.le_add_right lo _) hgt).ne'
  ends := hends

/-! ### Always to the right -/

/-- The window of a search that has gone right so many times. -/
def rightWindow (first last i : ℕ) : ℕ × ℕ := (last + 1 - (last + 1 - first) / 2 ^ i, last)

/-- What it probes next. -/
def rightProbe (first last i : ℕ) : ℕ := last - (last + 1 - first) / 2 ^ (i + 1)

theorem rightWindow_zero (hle : first ≤ last + 1) : rightWindow first last 0 = (first, last) := by
  rw [rightWindow, pow_zero, Nat.div_one, Nat.sub_sub_self hle]

theorem rightProbe_mono {i j : ℕ} (hij : i ≤ j) :
    rightProbe first last i ≤ rightProbe first last j := by
  have hpow : 2 ^ (i + 1) ≤ 2 ^ (j + 1) := Nat.pow_le_pow_right (by decide) (by omega)
  exact Nat.sub_le_sub_left (Nat.div_le_div_left hpow (Nat.two_pow_pos _)) last

/-- The middle of the window, while there is one. -/
theorem middle_rightWindow {i : ℕ} (hi : 1 ≤ (last + 1 - first) / 2 ^ i) :
    (rightWindow first last i).1 ≤ last ∧ (rightWindow first last i).1 +
      (last - (rightWindow first last i).1) / 2 = rightProbe first last i := by
  have hle := Nat.div_le_self (last + 1 - first) (2 ^ i)
  rw [rightProbe, Nat.pow_succ, ← Nat.div_div_eq_div_mul, rightWindow]
  generalize (last + 1 - first) / 2 ^ i = n at hi hle
  simp only
  omega

/-- A probe short of the last index leaves a smaller window to its right. -/
theorem rightWindow_succ (hlast : last < 2 ^ 64) {i : ℕ}
    (hi : 1 ≤ (last + 1 - first) / 2 ^ (i + 1)) :
    (SizeT.add (rightProbe first last i) 1, last) = rightWindow first last (i + 1) := by
  have hpos : 0 < last + 1 - first := Nat.pos_of_div_pos hi
  have hless := Nat.div_lt_self hpos (Nat.one_lt_two_pow (Nat.succ_ne_zero i))
  rw [rightProbe, rightWindow]
  generalize (last + 1 - first) / 2 ^ (i + 1) = n at hi hless
  rw [SizeT.add_of_lt (by omega), Nat.sub_add_comm (by omega)]

/-- The way of a search that goes right so many times. -/
theorem visits_rightWindow (hle : first ≤ last + 1) (hfit : last * Record.sizeof Data < 2 ^ 64)
    {n : ℕ} (hn : 1 ≤ (last + 1 - first) / 2 ^ n)
    (hlow : ∀ i, i < n → Record.key (m.record (rightProbe first last i)) < k) :
    Visits (probeStep m.readAt k) (first, last) (rightWindow first last n) := by
  induction n with
  | zero =>
    rw [rightWindow_zero hle]
    exact .start
  | succ n ih =>
    have hhalf : (last + 1 - first) / 2 ^ (n + 1) ≤ (last + 1 - first) / 2 ^ n :=
      Nat.div_le_div_left (Nat.pow_le_pow_right (by decide) (Nat.le_succ n)) (Nat.two_pow_pos n)
    obtain ⟨hwin, hmid⟩ := middle_rightWindow (hn.trans hhalf)
    refine (ih (hn.trans hhalf) fun i hi => hlow i (Nat.lt_succ_of_lt hi)).pass ?_
    have hkey := hlow n (Nat.lt_succ_self n)
    rw [← hmid] at hkey
    have hstep := probeStep_right (m := m) hwin hfit hkey
    rw [hmid, rightWindow_succ (lt_of_fits Data hfit) hn] at hstep
    exact hstep

end Probes

end TpAdvanced
