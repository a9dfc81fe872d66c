import TpAdvanced.Kvstore.PageIndex

/-!
# Lookups

For the first key of a page `find_page` gives a whole page, also when the page is the
last one and shorter; and every window ends one record late.  Beyond the end of the
file there are zeros, so a lookup goes wrong when a record of zeros decides it, and
only then.

## Main definitions

* `KVStore.Gets` — `get` returns this.
* `Misread` — a record of zeros decides the lookup.

## Main results

* `gets_scan_exact`, `gets_scan_between`, `gets_scan_last` — lookups in a page.
* `gets_scan_iff` — **`get` agrees with the linear scan** exactly when the key is
  not misread.
-/

namespace TpAdvanced

open While File

section Lookups

variable {Key Data : Type} [LinearOrder Key] [Record Key Data]

/-- `get` returns this. -/
def KVStore.Gets (store : KVStore Key) (k : Key) (r : Option Data) : Prop :=
  ∃ fuel, store.get k fuel = some r

/-- The record of zeros behind the file is taken for one of the file: the middle of
the window lies behind the end of the file, though the key is that of a record, the
first of its page; or the key is above all others and that of the record of zeros. -/
def Misread (Data : Type) [Record Key Data] (f : File) (kpp : ℕ) (k : Key) : Prop :=
  (∃ j, j * kpp < f.count Data ∧ Record.key (f.record Data (j * kpp)) = k ∧
      f.count Data ≤ j * kpp + kpp / 2 ∧ Record.key (zeroRecord Data) ≤ k ∧
      f.record Data (j * kpp) ≠ zeroRecord Data) ∨
    (Record.key (zeroRecord Data) = k ∧ ∀ i, i < f.count Data → Record.key (f.record Data i) < k)

variable {f : File} {kpp : ℕ} {k : Key}

/-! ### The window of a page -/

theorem gets_iff_of_page {store : KVStore Key} {first last : ℕ} {offsetBegin offsetEnd : ℕ}
    (hpage : store.index.findPage k = some (offsetBegin, offsetEnd))
    (hfirst : offsetBegin / Record.sizeof Data = first)
    (hlast : offsetEnd / Record.sizeof Data = last) {r : Option Data} :
    store.Gets k r ↔ Returns (KVStore.findStep Data store.file k) (first, last) r := by
  simp only [KVStore.Gets, KVStore.get, hpage, KVStore.findByKey, hfirst, hlast]
  rfl

theorem gets_iff_of_none {store : KVStore Key} (hpage : store.index.findPage k = none)
    {r : Option Data} : store.Gets k r ↔ r = none := by
  simp only [KVStore.Gets, KVStore.get, hpage, Option.some.injEq]
  constructor
  · rintro ⟨-, rfl⟩
    rfl
  · rintro rfl
    exact ⟨0, rfl⟩

/-- The keys are smaller than `k` in front of the place `c`, and from there on they are
not. -/
structure IsPlace (Data : Type) [Record Key Data] (f : File) (k : Key) (c : ℕ) : Prop where
  le_count : c ≤ f.count Data
  below : ∀ i, i < c → Record.key (f.record Data i) < k
  place : c < f.count Data → k ≤ Record.key (f.record Data c)

theorem exists_isPlace (Data : Type) [Record Key Data] (f : File) (k : Key) :
    ∃ c, IsPlace Data f k c := by
  by_cases h : ∃ i, k ≤ Record.key (f.record Data i) ∧ i < f.count Data
  · classical
    refine ⟨Nat.find h, (Nat.find_spec h).2.le, fun i hi => ?_, fun _ => (Nat.find_spec h).1⟩
    have hnot := Nat.find_min h hi
    rw [not_and_or] at hnot
    rcases hnot with hlt | hge
    · exact not_le.mp hlt
    · exact absurd (hi.trans (Nat.find_spec h).2) hge
  · push Not at h
    refine ⟨f.count Data, le_rfl, fun i hi => ?_, fun hlt => absurd hlt (lt_irrefl _)⟩
    by_contra hge
    exact absurd hi (h i (not_lt.mp hge)).not_gt

theorem IsPlace.le_of_le {c i : ℕ} (hc : IsPlace Data f k c)
    (hi : k ≤ Record.key (f.record Data i)) : c ≤ i := by
  by_contra hlt
  exact absurd (hc.below i (not_le.mp hlt)) hi.not_gt

theorem IsPlace.lt_of_lt {c i : ℕ} (hkeys : f.KeysIncrease Data) (hc : IsPlace Data f k c)
    (hcount : i < f.count Data) (hi : Record.key (f.record Data i) < k) : i < c := by
  by_contra hge
  rcases Nat.eq_or_lt_of_le (not_lt.mp hge) with rfl | hlt
  · exact absurd (hc.place hcount) hi.not_ge
  · have hkey := hkeys c i hlt hcount
    exact absurd (hc.place (hlt.trans hcount)) (hkey.trans hi).not_ge

theorem isPlace_of_key (hkeys : f.KeysIncrease Data) {b : ℕ} (hb : b < f.count Data) :
    IsPlace Data f (Record.key (f.record Data b)) b where
  le_count := hb.le
  below := fun i hi => hkeys i b hi hb
  place := fun _ => le_rfl

/-- The first record whose key is not below `k` has the key, or no record has. -/
theorem scan_of_isPlace (hkeys : f.KeysIncrease Data) {c : ℕ} (hc : IsPlace Data f k c)
    (hlt : c < f.count Data) :
    f.scan Data k = if Record.key (f.record Data c) = k then some (f.record Data c) else none := by
  split
  · rename_i heq
    rw [← heq]
    exact scan_of_record hkeys hlt
  · rename_i hne
    refine scan_eq_none fun i hi heq => ?_
    rcases Nat.lt_trichotomy i c with hic | rfl | hci
    · exact (hc.below i hic).ne heq
    · exact hne heq
    · exact absurd (hc.place hlt) (heq ▸ hkeys c i hci hi).not_ge

/-- A window within the file. -/
theorem splitAt_of_isPlace (h : Paged Data f kpp) {c first last : ℕ} (hc : IsPlace Data f k c)
    (hfirst : first ≤ c) (hlast : c ≤ last) (hcount : last ≤ f.count Data)
    (hzero : c = 0 → Record.key (f.record Data 0) ≤ k) : SplitAt Data f k c first last := by
  have hsize := File.size_eq h.size_mod
  have hlt := f.size_lt
  have hle := Nat.mul_le_mul_right (Record.sizeof Data) hcount
  have hlast' := Nat.le_mul_of_pos_right last (sizeof_pos Data)
  rw [File.size] at hsize
  refine ⟨hfirst, hlast, fun i _ hi => hc.below i hi, fun i hci hi => ?_, fun hcl => hc.place ?_,
    hzero, ?_, fun _ => ?_⟩
  · exact (hc.place (by omega)).trans_lt (h.keys c i hci (by omega))
  · omega
  · omega
  · omega

/-! ### The four outcomes of `find_page` -/

/-- A key between the first keys of two pages. -/
theorem gets_scan_between (h : Paged Data f kpp) {j : ℕ} (hnext : (j + 1) * kpp < f.count Data)
    (hlow : Record.key (f.record Data (j * kpp)) < k)
    (hhigh : k < Record.key (f.record Data ((j + 1) * kpp))) :
    Returns (KVStore.findStep Data f k) (j * kpp, j * kpp + kpp) (f.scan Data k) ∧
      ¬ Misread Data f kpp k := by
  have hj : j * kpp < f.count Data := by
    rw [Nat.succ_mul] at hnext
    omega
  constructor
  · rw [Nat.succ_mul] at hnext hhigh
    obtain ⟨c, hc⟩ := exists_isPlace Data f k
    have hfirst : j * kpp < c := hc.lt_of_lt h.keys hj hlow
    have hlast : c ≤ j * kpp + kpp := hc.le_of_le hhigh.le
    rw [scan_of_isPlace h.keys hc (by omega)]
    exact returns_findStep (splitAt_of_isPlace h hc hfirst.le hlast hnext.le (by omega))
  · rintro (⟨i, hi, rfl, -⟩ | ⟨-, hall⟩)
    · -- no page begins between the two
      have hji := Nat.lt_of_mul_lt_mul_right (h.keys.lt_of_key_lt hj hlow)
      have hij := Nat.lt_of_mul_lt_mul_right (h.keys.lt_of_key_lt hi hhigh)
      omega
    · exact absurd (hall _ hnext) hhigh.not_gt

/-- A key above the first keys of all pages. -/
theorem gets_scan_last (h : Paged Data f kpp) {j : ℕ} (hj : j * kpp < f.count Data)
    (hlast : f.count Data ≤ (j + 1) * kpp) (hlow : Record.key (f.record Data (j * kpp)) < k) :
    Returns (KVStore.findStep Data f k) (j * kpp, f.count Data) (f.scan Data k) ↔
      ¬ Misread Data f kpp k := by
  obtain ⟨c, hc⟩ := exists_isPlace Data f k
  have hfirst : j * kpp < c := hc.lt_of_lt h.keys hj hlow
  have hreturns := returns_findStep
    (splitAt_of_isPlace h hc hfirst.le hc.le_count le_rfl (by omega))
  have hpage : ∀ i, i * kpp < f.count Data → Record.key (f.record Data (i * kpp)) ≠ k := by
    rintro i hi rfl
    have hji := Nat.lt_of_mul_lt_mul_right (h.keys.lt_of_key_lt hj hlow)
    have hle : (j + 1) * kpp ≤ i * kpp := Nat.mul_le_mul_right kpp hji
    omega
  rcases Nat.lt_or_ge c (f.count Data) with hlt | hge
  · rw [← scan_of_isPlace h.keys hc hlt] at hreturns
    refine iff_of_true hreturns ?_
    rintro (⟨i, hi, hkey, -⟩ | ⟨-, hall⟩)
    · exact hpage i hi hkey
    · exact absurd (hall c hlt) (hc.place hlt).not_gt
  · -- all keys are smaller, and the search ends behind the last record
    obtain rfl : c = f.count Data := Nat.le_antisymm hc.le_count hge
    rw [record_of_count_le h.size_mod le_rfl] at hreturns
    have hscan : f.scan Data k = none := scan_eq_none fun i hi => (hc.below i hi).ne
    rw [hscan]
    by_cases hzero : Record.key (zeroRecord Data) = k
    · rw [if_pos hzero] at hreturns
      refine iff_of_false (fun hnone => ?_) (not_not.mpr (.inr ⟨hzero, hc.below⟩))
      cases hnone.unique hreturns
    · rw [if_neg hzero] at hreturns
      refine iff_of_true hreturns ?_
      rintro (⟨i, hi, hkey, -⟩ | ⟨hkey, -⟩)
      · exact hpage i hi hkey
      · exact hzero hkey

/-- A key below all others. -/
theorem scan_before (h : Paged Data f kpp) (hne : 0 < f.count Data)
    (hhigh : k < Record.key (f.record Data 0)) :
    f.scan Data k = none ∧ ¬ Misread Data f kpp k := by
  have hall : ∀ i, i < f.count Data → k < Record.key (f.record Data i) := by
    intro i hi
    rcases Nat.eq_zero_or_pos i with rfl | hpos
    · exact hhigh
    · exact hhigh.trans (h.keys 0 i hpos hi)
  refine ⟨scan_eq_none fun i hi => (hall i hi).ne', ?_⟩
  rintro (⟨j, hj, hkey, -⟩ | ⟨-, hlt⟩)
  · exact (hall _ hj).ne' hkey
  · exact absurd (hlt 0 hne) hhigh.not_gt

/-- The key of the last page's first record, and the middle of the whole page it is
taken for lies behind the file: a smaller key of zeros sends the search away from
the record for good. -/
theorem returns_none_of_zero_lt (h : Paged Data f kpp) {j : ℕ} (hj : j * kpp < f.count Data)
    (hmid : f.count Data ≤ j * kpp + kpp / 2) (hzero : Record.key (zeroRecord Data) < k)
    {r : Option Data}
    (hr : Returns (KVStore.findStep Data f k) (j * kpp, j * kpp + kpp) r) : r = none := by
  have hfit : (j * kpp + kpp) * Record.sizeof Data < 2 ^ 64 := by
    have hlt := h.sized.page_end_lt hj
    rwa [Nat.mul_comm (Record.sizeof Data) kpp, ← Nat.add_mul] at hlt
  have hlast := Nat.le_mul_of_pos_right (j * kpp + kpp) (sizeof_pos Data)
  have hsmall : f.count Data < 2 ^ 63 := by
    have hsize := File.size_eq h.size_mod
    have hlt := f.size_lt
    have hle := Nat.le_mul_of_pos_right (f.count Data) (sizeof_pos Data)
    rw [File.size] at hsize
    omega
  have hstep : ∀ lo, lo = j * kpp ∨ f.count Data ≤ lo → lo ≤ j * kpp + kpp →
      ∃ lo', (lo' = j * kpp ∨ f.count Data ≤ lo') ∧
        KVStore.findStep Data f k (lo, j * kpp + kpp) = .inl (lo', j * kpp + kpp) := by
    intro lo hlo hle
    rw [findStep_of_le hle hfit]
    have hbehind : f.count Data ≤ lo + (j * kpp + kpp - lo) / 2 := by
      rcases hlo with rfl | hlo
      · rwa [Nat.add_sub_cancel_left]
      · omega
    have hmid_le : lo + (j * kpp + kpp - lo) / 2 ≤ j * kpp + kpp := by omega
    generalize lo + (j * kpp + kpp - lo) / 2 = mid at hbehind hmid_le ⊢
    simp only [record_of_count_le h.size_mod hbehind, if_neg hzero.ne, if_neg hzero.not_gt]
    refine ⟨SizeT.add mid 1, ?_, rfl⟩
    rcases Nat.lt_or_ge (mid + 1) (2 ^ 64) with hlt | hge
    · rw [SizeT.add_of_lt hlt]
      omega
    · -- the addition wraps around, which takes a page as long as the address space
      have hzj : j = 0 := by
        by_contra hne
        have hkpp : kpp ≤ j * kpp := Nat.le_mul_of_pos_left kpp (Nat.pos_of_ne_zero hne)
        omega
      have hwrap : mid + 1 = 2 ^ 64 := by omega
      rw [SizeT.add, hwrap, hzj]
      simp
  -- the end of the window stays, and its start is behind the file from the first pass on
  refine Returns.of_invariant
    (fun w => w.2 = j * kpp + kpp ∧ (w.1 = j * kpp ∨ f.count Data ≤ w.1)) (· = none) ?_ ?_
    ⟨rfl, .inl rfl⟩ hr
  · rintro ⟨lo, hi⟩ w' ⟨rfl, hlo⟩ hbody
    rcases Nat.lt_or_ge (j * kpp + kpp) lo with hlt | hle
    · rw [findStep_of_lt hlt] at hbody
      cases hbody
    · obtain ⟨lo', hlo', heq⟩ := hstep lo hlo hle
      rw [heq] at hbody
      cases hbody
      exact ⟨rfl, hlo'⟩
  · rintro ⟨lo, hi⟩ r' ⟨rfl, hlo⟩ hbody
    rcases Nat.lt_or_ge (j * kpp + kpp) lo with hlt | hle
    · rw [findStep_of_lt hlt] at hbody
      cases hbody
      rfl
    · obtain ⟨lo', -, heq⟩ := hstep lo hlo hle
      rw [heq] at hbody
      cases hbody

/-- The first key of a page: the search takes the page to be a whole one. -/
theorem gets_scan_exact (h : Paged Data f kpp) {j : ℕ} (hj : j * kpp < f.count Data)
    (hkey : Record.key (f.record Data (j * kpp)) = k) :
    Returns (KVStore.findStep Data f k) (j * kpp, j * kpp + kpp) (f.scan Data k) ↔
      ¬ Misread Data f kpp k := by
  have hfit : (j * kpp + kpp) * Record.sizeof Data < 2 ^ 64 := by
    have hlt := h.sized.page_end_lt hj
    rwa [Nat.mul_comm (Record.sizeof Data) kpp, ← Nat.add_mul] at hlt
  have hscan : f.scan Data k = some (f.record Data (j * kpp)) := hkey ▸ scan_of_record h.keys hj
  have hkpp := h.kpp_pos
  have hmisread : Misread Data f kpp k ↔ f.count Data ≤ j * kpp + kpp / 2 ∧
      Record.key (zeroRecord Data) ≤ k ∧ f.record Data (j * kpp) ≠ zeroRecord Data := by
    constructor
    · rintro (⟨i, hi, heq, hrest⟩ | ⟨-, hall⟩)
      · obtain hij : i * kpp = j * kpp := by
          rcases Nat.lt_trichotomy (i * kpp) (j * kpp) with hlt | heq' | hlt
          · exact absurd (heq.trans hkey.symm) (h.keys _ _ hlt hj).ne
          · exact heq'
          · exact absurd (hkey.trans heq.symm) (h.keys _ _ hlt hi).ne
        rwa [hij] at hrest
      · exact absurd hkey (hall _ hj).ne
    · rintro hrest
      exact .inl ⟨j, hj, hkey, hrest⟩
  have hfirst := @findStep_of_le Key Data _ _ f k _ _
    (show j * kpp ≤ j * kpp + kpp by omega) hfit
  simp only [Nat.add_sub_cancel_left] at hfirst
  rw [hscan, hmisread]
  have hplace : IsPlace Data f k (j * kpp) := hkey ▸ isPlace_of_key h.keys hj
  have hfound : ∀ last, SplitAt Data f k (j * kpp) (j * kpp) last →
      Returns (KVStore.findStep Data f k) (j * kpp, last) (some (f.record Data (j * kpp))) := by
    intro last hsplit
    have hr := returns_findStep hsplit
    rwa [if_pos hkey] at hr
  have hzero : j * kpp = 0 → Record.key (f.record Data 0) ≤ k := by
    intro h0
    rw [h0] at hkey
    exact hkey.le
  rcases Nat.lt_or_ge (j * kpp + kpp / 2) (f.count Data) with hin | hout
  · -- the middle lies in the file, and so does what is left of the window
    refine iff_of_true ?_ fun hmis => absurd hmis.1 hin.not_ge
    rcases Nat.eq_zero_or_pos (kpp / 2) with hhalf | hhalf
    · rw [hhalf, Nat.add_zero, if_pos hkey] at hfirst
      exact returns_of_inr hfirst
    · have hgt : k < Record.key (f.record Data (j * kpp + kpp / 2)) :=
        hkey ▸ h.keys _ _ (by omega) hin
      have hsmall := lt_of_le_of_lt (Nat.le_mul_of_pos_right (j * kpp + kpp)
        (sizeof_pos Data)) hfit
      rw [if_neg hgt.ne', if_pos hgt, SizeT.sub_of_le (by omega) (by omega)] at hfirst
      exact returns_of_inl hfirst
        (hfound _ (splitAt_of_isPlace h hplace le_rfl (by omega) (by omega) hzero))
  · -- the middle lies behind the file, where a zero record is read
    rw [record_of_count_le h.size_mod hout] at hfirst
    rcases lt_trichotomy (Record.key (zeroRecord Data)) k with hlt | heq | hgt
    · -- its key is too small: the search turns away from the record
      refine iff_of_false (fun hr => ?_) (not_not.mpr ⟨hout, hlt.le, ?_⟩)
      · cases returns_none_of_zero_lt h hj hout hlt hr
      · intro hrec
        rw [hrec] at hkey
        exact hlt.ne hkey
    · -- its key is the one looked for: it is returned, whatever the record holds
      rw [if_pos heq] at hfirst
      have hret := returns_of_inr hfirst
      constructor
      · rintro hr ⟨-, -, hne⟩
        exact hne (Option.some.inj (hr.unique hret))
      · intro hmis
        have hrec : f.record Data (j * kpp) = zeroRecord Data := by
          by_contra hne
          exact hmis ⟨hout, heq.le, hne⟩
        rwa [hrec]
    · -- its key is too large: the search turns towards the record
      refine iff_of_true (hfound _ ?_) fun hmis => absurd hmis.2.1 hgt.not_ge
      refine ⟨le_rfl, by omega, fun i _ hi => hplace.below i hi, fun i hci _ => ?_,
        fun _ => hkey.ge, hzero, hfit, fun hlast => by omega⟩
      rcases Nat.lt_or_ge i (f.count Data) with hi | hi
      · exact hkey ▸ h.keys _ i hci hi
      · rwa [record_of_count_le h.size_mod hi]

/-! ### Lookups -/

theorem gets_scan_paged_iff (h : Paged Data f kpp) (hne : 0 < f.count Data) (k : Key) :
    (pagedStore Data f kpp).Gets k (f.scan Data k) ↔ ¬ Misread Data f kpp k := by
  have hpos := sizeof_pos Data
  have hcases := findPage_cases h hne k
  generalize hfound : (pagedStore Data f kpp).index.findPage k = found at hcases
  cases hcases with
  | exact j hj hkey =>
    rw [gets_iff_of_page hfound (Nat.mul_div_cancel _ hpos) (page_end_div Data _ kpp)]
    exact gets_scan_exact h hj hkey
  | between j hnext hlow hhigh =>
    rw [gets_iff_of_page hfound (Nat.mul_div_cancel _ hpos) (page_end_div Data _ kpp)]
    obtain ⟨hret, hmis⟩ := gets_scan_between h hnext hlow hhigh
    exact iff_of_true hret hmis
  | last j hj hlast hlow =>
    rw [gets_iff_of_page hfound (Nat.mul_div_cancel _ hpos) rfl]
    exact gets_scan_last h hj hlast hlow
  | before hhigh =>
    rw [gets_iff_of_none hfound]
    obtain ⟨hscan, hmis⟩ := scan_before h hne hhigh
    exact iff_of_true hscan hmis

/-- In pages of one record none is misread. -/
theorem not_misread_one (hne : 0 < f.count Data) (hzero : ∀ k, Record.key (zeroRecord Data) ≤ k) :
    ¬ Misread Data f 1 k := by
  rintro (⟨j, hj, -, hcount, -⟩ | ⟨hkey, hall⟩)
  · omega
  · exact absurd (hall 0 hne) (not_lt_of_ge (hkey ▸ hzero _))

/-- **`get` agrees with the linear scan** exactly when the key is not misread. -/
theorem gets_scan_iff (hsize : f.size % Record.sizeof Data = 0) (hne : 0 < f.count Data)
    (hkeys : f.KeysIncrease Data) (hkpp : 0 < kpp) (hpage : Record.sizeof Data * kpp < 2 ^ 64) :
    (∃ store, KVStore.Constructs Data f kpp store) ∧
      ∀ store, KVStore.Constructs Data f kpp store → ∀ k,
        (store.Gets k (f.scan Data k) ↔ ¬ Misread Data f kpp k) := by
  have h : Paged Data f kpp := ⟨hsize, hkeys, hkpp, hpage⟩
  refine ⟨⟨_, (constructs_iff h).mpr rfl⟩, fun store hstore k => ?_⟩
  obtain rfl := (constructs_iff h).mp hstore
  exact gets_scan_paged_iff h hne k

theorem KVStore.Gets.unique {store : KVStore Key} {r r' : Option Data} (h : store.Gets k r)
    (h' : store.Gets k r') : r = r' := by
  cases hpage : store.index.findPage k with
  | none => exact ((gets_iff_of_none hpage).mp h).trans ((gets_iff_of_none hpage).mp h').symm
  | some bounds =>
    rw [gets_iff_of_page hpage rfl rfl] at h h'
    exact h.unique h'

end Lookups

/-! ### Runs -/

/-- Three records of the example server. -/
def threeRecords : File where
  data := [5, 7, 9].flatMap KvstoreHttp.recordBytes
  size_lt := by decide

/-- Three records in pages of two: the key of the second is found. -/
theorem gets_scan_three :
    ∃ store, KVStore.Constructs KvstoreHttp.Data threeRecords 2 store ∧
      store.Gets 7 (some (⟨7, List.replicate 20 120⟩ : KvstoreHttp.Data)) := by
  have hkeys : threeRecords.KeysIncrease KvstoreHttp.Data := by
    have hdec : ∀ j, j < 3 → ∀ i, i < j → Record.key (threeRecords.record KvstoreHttp.Data i) <
        Record.key (threeRecords.record KvstoreHttp.Data j) := by
      decide +kernel
    intro i j hij hj
    exact hdec j hj i hij
  obtain ⟨⟨store, hstore⟩, hgets⟩ := @gets_scan_iff ℕ KvstoreHttp.Data _ _ threeRecords 2 rfl
    (by decide +kernel) hkeys (by decide) (by decide +kernel)
  refine ⟨store, hstore, (hgets store hstore 7).mpr ?_⟩
  rintro (⟨j, hj, hkey, -⟩ | ⟨hkey, -⟩)
  · have hcount : threeRecords.count KvstoreHttp.Data = 3 := by decide +kernel
    have hlt : j < 2 := by omega
    have hdec : ∀ j, j < 2 → Record.key (threeRecords.record KvstoreHttp.Data (j * 2)) ≠ 7 := by
      decide +kernel
    exact hdec j hlt hkey
  · revert hkey
    decide +kernel

/-- One record of the example server. -/
def oneRecord : File where
  data := KvstoreHttp.recordBytes 5
  size_lt := by decide

/-- One record in pages of 1024, as the example server has them: its key is not
found. -/
theorem get_loses_first_key :
    ¬ ∀ (f : File) (kpp : ℕ) (store : KVStore ℕ) (k : ℕ),
      f.size % Record.sizeof KvstoreHttp.Data = 0 → 0 < f.count KvstoreHttp.Data →
      f.KeysIncrease KvstoreHttp.Data → 0 < kpp → Record.sizeof KvstoreHttp.Data * kpp < 2 ^ 64 →
      KVStore.Constructs KvstoreHttp.Data f kpp store →
      store.Gets k (f.scan KvstoreHttp.Data k) := by
  intro h
  have hkeys : oneRecord.KeysIncrease KvstoreHttp.Data := by
    intro i j hij hj
    have hcount : oneRecord.count KvstoreHttp.Data = 1 := by decide +kernel
    omega
  have hscan : oneRecord.scan KvstoreHttp.Data 5 = some ⟨5, List.replicate 20 120⟩ := by
    decide +kernel
  have hgets := h oneRecord 1024 ⟨oneRecord, [(5, 0)], 32768, 32⟩ 5 rfl (by decide +kernel) hkeys
    (by decide) (by decide +kernel) ⟨2, rfl⟩
  have hnone : KVStore.Gets ⟨oneRecord, [(5, 0)], 32768, 32⟩ 5 (none : Option KvstoreHttp.Data) :=
    ⟨20, by decide +kernel⟩
  rw [hscan] at hgets
  cases hgets.unique hnone

end TpAdvanced
