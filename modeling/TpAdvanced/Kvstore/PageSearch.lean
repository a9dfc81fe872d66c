import TpAdvanced.Kvstore.Lookup
import TpAdvanced.Kvstore.Probes

/-!
# Searches in a page

The bounds of a page never let a search slip below its first record, whatever the file
holds and whatever lies behind it.  A search does not end only if the index behind its
window overflows: records of one byte, in a page as long as the address space.

## Main definitions

* `Wraps` — the search begins again and again.

## Main results

* `searchable_whole`, `searchable_last` — the windows that `find_page` gives.
* `returns_iff_of_wraps` — when a search of the whole address space ends.
* `wellSearched_iff` — **every search is fine** but this one.
-/

namespace TpAdvanced

open While

section Pages

variable {Key Data : Type} [LinearOrder Key] [Record Key Data]
variable {f : File} {kpp : ℕ} {k : Key} {j first last : ℕ} {m : Memory Data f}

/-! ### The windows -/

theorem IsPage.record_le (h : Sized Data f kpp) (hj : IsPage Data f kpp k j) (m : Memory Data f) :
    Record.key (m.record (j * kpp)) ≤ k := by
  rw [m.record_of_lt h.size_mod hj.begins]
  exact hj.key_le

/-- The window of a whole page. -/
theorem searchable_whole (h : Sized Data f kpp) (hj : IsPage Data f kpp k j) (m : Memory Data f) :
    Searchable m k (j * kpp) (j * kpp + kpp) where
  first_le := Nat.le_add_right _ _
  fits := by
    have hend := h.page_end_lt hj.begins
    rwa [Nat.mul_comm (Record.sizeof Data) kpp, ← Nat.add_mul] at hend
  wraps := fun hwrap => by
    by_contra hne
    have hkpp : kpp ≤ j * kpp := Nat.le_mul_of_pos_left kpp (Nat.pos_of_mul_pos_right
      (Nat.pos_of_ne_zero hne))
    have hcount := File.count_lt Data f
    have hbegins := hj.begins
    omega
  key_le := hj.record_le h m

/-- The window of a page that is taken to be as long as the last one: it ends well below
`2 ^ 64`. -/
theorem searchable_last (h : Sized Data f kpp) (hj : IsPage Data f kpp k j) (m : Memory Data f)
    (hlast : (j * kpp * Record.sizeof Data + (indexedStore Data f kpp).index.lastPageSize) /
      Record.sizeof Data = last) :
    Searchable m k (j * kpp) last ∧ last + 1 < 2 ^ 64 := by
  have hbegin : j * kpp * Record.sizeof Data < f.size := by
    rw [File.size_eq h.size_mod]
    exact Nat.mul_lt_mul_of_pos_right hj.begins Record.sizeof_pos
  have hsize : (indexedStore Data f kpp).index.lastPageSize ≤ f.size :=
    lastPageSize_le_size (by omega)
  have hfile := f.size_lt
  have hend : last * Record.sizeof Data ≤
      j * kpp * Record.sizeof Data + (indexedStore Data f kpp).index.lastPageSize := by
    rw [← hlast]
    exact Nat.div_mul_le_self _ _
  have hle : last ≤ last * Record.sizeof Data := Nat.le_mul_of_pos_right last (sizeof_pos Data)
  have hfirst : j * kpp ≤ last := by
    rw [← hlast, Nat.le_div_iff_mul_le (sizeof_pos Data)]
    exact Nat.le_add_right _ _
  rw [File.size] at hbegin hsize
  exact ⟨⟨hfirst, by omega, fun hwrap => by omega, hj.record_le h m⟩, by omega⟩

/-! ### The whole address space -/

/-- A search of the whole address space that never goes left of a probe begins again. -/
theorem not_returns_of_wraps (h : Searchable m k 0 last) (hlast : last + 1 = 2 ^ 64)
    (hlow : ∀ i, Record.key (m.record (rightProbe 0 last i)) < k) {r : Option Data} :
    ¬ Returns (probeStep m.readAt k) (0, last) r := by
  refine not_returns (fun w => ∃ i, 1 ≤ (last + 1 - 0) / 2 ^ i ∧ w = rightWindow 0 last i) ?_
    ⟨0, by simp, (rightWindow_zero (Nat.zero_le _)).symm⟩
  rintro w ⟨i, hi, rfl⟩
  obtain ⟨hwin, hmid⟩ := middle_rightWindow hi
  have hkey := hlow i
  rw [← hmid] at hkey
  have hstep := probeStep_right (m := m) hwin h.fits hkey
  rw [hmid] at hstep
  rcases Nat.eq_zero_or_pos ((last + 1 - 0) / 2 ^ (i + 1)) with hzero | hpos
  · -- the last index has been probed: the window begins at 0 again
    refine ⟨_, hstep, 0, by simp, ?_⟩
    rw [rightProbe, hzero, Nat.sub_zero, SizeT.add, hlast, Nat.mod_self,
      rightWindow_zero (Nat.zero_le _)]
  · exact ⟨_, hstep, i + 1, hpos, rightWindow_succ (by omega) hpos⟩

/-- A probe with a key that is not too small ends it. -/
theorem returns_of_probe (h : Searchable m k first last) (hlast : last < 2 ^ 64)
    (hkey : ∃ i, k ≤ Record.key (m.record (rightProbe first last i))) :
    ∃ r, Returns (probeStep m.readAt k) (first, last) r := by
  -- the first such probe is made, and leaves a window that ends below the last index
  obtain ⟨n, hfound, hleast⟩ := Nat.findX hkey
  have hwindow : 1 ≤ (last + 1 - first) / 2 ^ n := by
    by_contra hzero
    have hzero : (last + 1 - first) / 2 ^ n = 0 := Nat.lt_one_iff.mp (not_le.mp hzero)
    cases n with
    | zero =>
      have hle := h.first_le
      rw [pow_zero, Nat.div_one] at hzero
      omega
    | succ n =>
      have hnext : (last + 1 - first) / 2 ^ (n + 1 + 1) = 0 := by
        rw [Nat.pow_succ, ← Nat.div_div_eq_div_mul, hzero, Nat.zero_div]
      have hlow := hleast n (Nat.lt_succ_self n)
      rw [rightProbe, hzero] at hlow
      rw [rightProbe, hnext] at hfound
      exact hlow hfound
  have hv := visits_rightWindow (m := m) (Nat.le_succ_of_le h.first_le) h.fits hwindow
    fun i hi => not_le.mp (hleast i hi)
  obtain ⟨hwin, hmid⟩ := middle_rightWindow hwindow
  have hbegin : first ≤ (rightWindow first last n).1 := (h.kept hv).begin_le
  suffices hends : ∃ r, Returns (probeStep m.readAt k) (rightWindow first last n) r by
    obtain ⟨r, hr⟩ := hends
    exact ⟨r, hv.returns hr⟩
  have hstep := probeStep_of_le (m := m) (k := k) hwin h.fits
  simp only [hmid] at hstep
  by_cases heq : Record.key (m.record (rightProbe first last n)) = k
  · rw [if_pos heq] at hstep
    exact ⟨_, returns_of_inr hstep⟩
  · have hgt := lt_of_le_of_ne hfound (Ne.symm heq)
    have hmiddle := h.first_lt_middle hbegin (by omega) hgt
    have hle : rightProbe first last n ≤ last := Nat.sub_le _ _
    rw [if_neg heq, if_pos hgt, SizeT.sub_of_le (by omega) (by omega)] at hstep
    have hkept : Kept first (rightProbe first last n - 1)
        ((rightWindow first last n).1, rightProbe first last n - 1) :=
      ⟨hbegin, Nat.le_sub_one_of_lt hmiddle, le_rfl⟩
    obtain ⟨r, hr⟩ := (h.mono (Nat.le_sub_one_of_lt hmiddle) (by omega)).ends (by omega) hkept
    exact ⟨r, returns_of_inl hstep hr⟩

/-! ### The searches of a store -/

/-- The search wraps around: records of one byte, in a page as long as the address space,
whose first key is the one looked for; and every probe on the way to the end of the page,
which lie all behind the end of the file, reads a smaller key. -/
structure Wraps (m : Memory Data f) (kpp : ℕ) (k : Key) : Prop where
  sizeof_eq : Record.sizeof Data = 1
  kpp_eq : kpp = 2 ^ 64 - 1
  count_pos : 0 < f.count Data
  key_eq : Record.key (f.record Data 0) = k
  low : ∀ i, Record.key (m.readAt (2 ^ 64 - 1 - 2 ^ 64 / 2 ^ (i + 1))) < k

omit [LinearOrder Key] in
/-- In records of one byte an index is an offset. -/
theorem Memory.record_of_sizeof (hsize : Record.sizeof Data = 1) (i : ℕ) :
    m.record i = m.readAt i := by
  rw [Memory.record, hsize, Nat.mul_one]

/-- A window with an index behind it that overflows is that of a page as long as the
address space. -/
theorem eq_of_wraps (h : Sized Data f kpp) (hj : IsPage Data f kpp k j)
    (hwrap : j * kpp + kpp + 1 = 2 ^ 64) :
    j = 0 ∧ kpp = 2 ^ 64 - 1 ∧ Record.sizeof Data = 1 := by
  have hzero := (searchable_whole h hj ⟨f.readAt, fun _ _ => rfl⟩).wraps hwrap
  have hkpp := h.kpp_pos
  have hpage := h.page_lt
  refine ⟨?_, by omega, ?_⟩
  · rcases Nat.mul_eq_zero.mp hzero with hj | hkpp
    · exact hj
    · omega
  · by_contra hne
    have hpos := sizeof_pos Data
    have htwo : 2 * kpp ≤ Record.sizeof Data * kpp := Nat.mul_le_mul_right kpp (by omega)
    omega

/-- **A search that does not wrap around** is fine. -/
theorem wellSearched_of_not_wraps (h : Sized Data f kpp) (hno : ¬ Wraps m kpp k)
    {offsetBegin offsetEnd : ℕ}
    (hfound : (indexedStore Data f kpp).index.findPage k = some (offsetBegin, offsetEnd)) :
    WellSearched m.readAt k (offsetBegin / Record.sizeof Data)
      (offsetEnd / Record.sizeof Data) := by
  have hcases := findsPage h k
  rw [hfound] at hcases
  have hdiv : ∀ j, j * kpp * Record.sizeof Data / Record.sizeof Data = j * kpp := fun j =>
    Nat.mul_div_cancel _ (sizeof_pos Data)
  cases hcases with
  | last j hj =>
    rw [hdiv]
    obtain ⟨hsearch, hlast⟩ := searchable_last h hj m rfl
    exact hsearch.wellSearched (hsearch.ends hlast ⟨le_rfl, hsearch.first_le, le_rfl⟩)
  | whole j hj hge =>
    rw [hdiv, page_end_div]
    have hsearch := searchable_whole h hj m
    have hfits := lt_of_fits Data hsearch.fits
    refine hsearch.wellSearched ?_
    rcases Nat.lt_or_ge (j * kpp + kpp + 1) (2 ^ 64) with hlast | hwrap
    · exact hsearch.ends hlast ⟨le_rfl, hsearch.first_le, le_rfl⟩
    · obtain ⟨rfl, hkpp, hone⟩ := eq_of_wraps h hj (by omega)
      refine returns_of_probe hsearch hfits ?_
      by_contra hall
      push Not at hall
      -- there is no other page, so the key is the first one
      obtain ⟨i, hi, hki⟩ := hge
      have hcount := File.count_lt Data f
      have hi0 : i = 0 := by
        by_contra hne
        have hle := Nat.le_mul_of_pos_left kpp (Nat.pos_of_ne_zero hne)
        omega
      have hkey : firstKey Data f kpp 0 = k := by
        rw [hi0] at hki
        exact le_antisymm hj.key_le hki
      rw [firstKey, Nat.zero_mul] at hkey
      refine hno ⟨hone, hkpp, by omega, hkey, fun i => ?_⟩
      have hlow := hall i
      rw [rightProbe, Memory.record_of_sizeof hone, Nat.zero_mul, Nat.zero_add, hkpp] at hlow
      exact hlow

/-- **A search that wraps around** does not end. -/
theorem exists_not_returns_of_wraps (h : Sized Data f kpp) (hwraps : Wraps m kpp k) :
    ∃ offsetBegin offsetEnd,
      (indexedStore Data f kpp).index.findPage k = some (offsetBegin, offsetEnd) ∧
        ∀ r, ¬ Returns (probeStep m.readAt k)
          (offsetBegin / Record.sizeof Data, offsetEnd / Record.sizeof Data) r := by
  have hone := hwraps.sizeof_eq
  have hkpp := hwraps.kpp_eq
  have hcount := File.count_lt Data f
  have hfirst : firstKey Data f kpp 0 = k := by
    rw [firstKey, Nat.zero_mul]
    exact hwraps.key_eq
  have hbegins : 0 * kpp < f.count Data := by
    rw [Nat.zero_mul]
    exact hwraps.count_pos
  have hcases := findsPage h k
  generalize (indexedStore Data f kpp).index.findPage k = found at hcases
  cases hcases with
  | last j hj hlt => exact absurd hfirst (hlt 0 hbegins).ne
  | before hgt => exact absurd hfirst (hgt 0 hbegins).ne'
  | whole j hj =>
    obtain rfl : j = 0 := by
      by_contra hne
      have hle := Nat.le_mul_of_pos_left kpp (Nat.pos_of_ne_zero hne)
      have hj := hj.begins
      omega
    have hsearch := searchable_whole h hj m
    refine ⟨_, _, rfl, fun r => ?_⟩
    rw [page_end_div, Nat.mul_div_cancel _ (sizeof_pos Data), Nat.zero_mul, Nat.zero_add]
    rw [Nat.zero_mul, Nat.zero_add] at hsearch
    refine not_returns_of_wraps hsearch (by omega) fun i => ?_
    have hlow := hwraps.low i
    rw [rightProbe, Memory.record_of_sizeof hone, hkpp]
    exact hlow

/-- **Every search that `get` starts is fine**, whatever the file holds and whatever lies
behind it, unless it wraps around. -/
theorem wellSearched_iff (hsize : f.size % Record.sizeof Data = 0) (hkpp : 0 < kpp)
    (hpage : Record.sizeof Data * kpp < 2 ^ 64) :
    (∃ store, KVStore.Constructs Data f kpp store) ∧
      ∀ store, KVStore.Constructs Data f kpp store → ∀ (m : Memory Data f) (k : Key),
        (∀ offsetBegin offsetEnd, store.index.findPage k = some (offsetBegin, offsetEnd) →
          WellSearched m.readAt k (offsetBegin / Record.sizeof Data)
            (offsetEnd / Record.sizeof Data)) ↔
          ¬ Wraps m kpp k := by
  have h : Sized Data f kpp := ⟨hsize, hkpp, hpage⟩
  refine ⟨⟨_, (constructs_indexedStore h).mpr rfl⟩, fun store hstore m k => ?_⟩
  obtain rfl := (constructs_indexedStore h).mp hstore
  constructor
  · intro hall hwraps
    obtain ⟨offsetBegin, offsetEnd, hfound, hnever⟩ := exists_not_returns_of_wraps h hwraps
    obtain ⟨r, hr⟩ := (hall offsetBegin offsetEnd hfound).ends
    exact hnever r hr
  · intro hno offsetBegin offsetEnd hfound
    exact wellSearched_of_not_wraps h hno hfound

end Pages

/-- Nothing but zeros behind three records. -/
theorem wellSearched_three :
    ∃ store, KVStore.Constructs KvstoreHttp.Data threeRecords 2 store ∧
      ∀ offsetBegin offsetEnd, store.index.findPage 9 = some (offsetBegin, offsetEnd) →
        WellSearched (threeRecords.readAt : ℕ → KvstoreHttp.Data) 9 (offsetBegin / 32)
          (offsetEnd / 32) := by
  obtain ⟨⟨store, hstore⟩, hiff⟩ := @wellSearched_iff ℕ KvstoreHttp.Data _ _ threeRecords 2 rfl
    (by decide) (by decide +kernel)
  refine ⟨store, hstore, (hiff store hstore ⟨threeRecords.readAt, fun _ _ => rfl⟩ 9).mpr ?_⟩
  intro hwraps
  exact absurd hwraps.sizeof_eq (by decide)

/-- Records that are no more than a byte. -/
instance byteRecord : Record ℕ UInt8 where
  sizeof := 1
  sizeof_pos := Nat.one_pos
  ofBytes bytes := bytes.headD 0
  key := UInt8.toNat

/-- One record of a byte. -/
def oneByte : File where
  data := [5]
  size_lt := by decide

/-- A page as long as the address space, with zeros behind its first record: the search
for this record does not end. -/
theorem search_wraps :
    ¬ ∀ (f : File) (kpp : ℕ) (store : KVStore ℕ) (m : Memory UInt8 f) (k : ℕ),
      f.size % Record.sizeof UInt8 = 0 → 0 < kpp → Record.sizeof UInt8 * kpp < 2 ^ 64 →
      KVStore.Constructs UInt8 f kpp store →
      ∀ offsetBegin offsetEnd, store.index.findPage k = some (offsetBegin, offsetEnd) →
        WellSearched m.readAt k (offsetBegin / Record.sizeof UInt8)
          (offsetEnd / Record.sizeof UInt8) := by
  intro hall
  have h : Sized UInt8 oneByte (2 ^ 64 - 1) := ⟨rfl, by decide, by decide⟩
  let m : Memory UInt8 oneByte := ⟨oneByte.readAt, fun _ _ => rfl⟩
  have hwraps : Wraps m (2 ^ 64 - 1) 5 := by
    refine ⟨rfl, rfl, by decide +kernel, by decide +kernel, fun i => ?_⟩
    have hhalf : 2 ^ 64 / 2 ^ (i + 1) ≤ 2 ^ 64 / 2 :=
      Nat.div_le_div_left (Nat.le_self_pow (Nat.succ_ne_zero i) 2) (by decide)
    have hzero := @File.record_of_count_le ℕ UInt8 _ oneByte rfl (2 ^ 64 - 1 - 2 ^ 64 / 2 ^ (i + 1))
      (show 1 ≤ _ by omega)
    have hread : m.readAt (2 ^ 64 - 1 - 2 ^ 64 / 2 ^ (i + 1)) = File.zeroRecord UInt8 := by
      change oneByte.readAt _ = _
      rw [← hzero, File.record, show Record.sizeof UInt8 = 1 from rfl, Nat.mul_one]
    simp only [hread]
    decide +kernel
  obtain ⟨offsetBegin, offsetEnd, hfound, hnever⟩ := exists_not_returns_of_wraps h hwraps
  obtain ⟨r, hr⟩ := (hall oneByte (2 ^ 64 - 1) _ _ 5 rfl (by decide) (by decide)
    ((constructs_indexedStore h).mpr rfl) offsetBegin offsetEnd hfound).ends
  exact hnever r hr

end TpAdvanced
