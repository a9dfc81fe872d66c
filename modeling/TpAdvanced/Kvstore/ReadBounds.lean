import TpAdvanced.Kvstore.PageSearch

/-!
# Reads behind the end of the file

A window includes the record behind its page, so a search of the last page may read
behind the end of the file.  It does not, if it comes to a probe in the file whose key is
not too small; the probes that it makes before are those of a search that always goes
right.  And `find_page` compares with `end()->first`, when all first keys are too small.

## Main definitions

* `ConstructorReads`, `KVStore.GetReads` — the offsets that are read.
* `ReadsInside` — they lie in the file, and `end()` is not dereferenced.
* `StaysInside` — the keys that keep the reads in the file.

## Main results

* `kept_of_probe` — a probe that turns the search to the left bounds what is to come.
* `readsInside_iff` — **which lookups read inside the file**, for any keys.
-/

namespace TpAdvanced

open While

section Reads

variable {Key Data : Type} [LinearOrder Key] [Record Key Data]

/-! ### What is read -/

/-- The constructor of the index reads at this offset. -/
def ConstructorReads (Data : Type) [Record Key Data] (f : File) (kpp o : ℕ) : Prop :=
  ∃ s, Visits (KVIndex.indexStep Data f (KVIndex.pageBytes Data kpp)) (0, []) s ∧
    s.1 < f.size ∧ o = s.1

/-- `get` reads at this offset. -/
def KVStore.GetReads (readAt : ℕ → Data) (store : KVStore Key) (k : Key) (o : ℕ) : Prop :=
  ∃ offsetBegin offsetEnd w, store.index.findPage k = some (offsetBegin, offsetEnd) ∧
    Visits (probeStep readAt k)
      (offsetBegin / Record.sizeof Data, offsetEnd / Record.sizeof Data) w ∧
    w.1 ≤ w.2 ∧ o = SizeT.mul (middle w) (Record.sizeof Data)

/-- `find_page` dereferences the iterator that `lower_bound` gives, and this is `end()`. -/
def KVIndex.DereferencesEnd (index : KVIndex Key) (k : Key) : Prop :=
  index.store.length ≤ OrderedMap.lowerBound index.store k

variable {f : File} {kpp : ℕ} {k : Key} {j first last : ℕ} {m : Memory Data f}

/-- All that is read lies in the file, and `end()` is not dereferenced. -/
structure ReadsInside (m : Memory Data f) (kpp : ℕ) (store : KVStore Key) (k : Key) : Prop where
  constructed : ∀ o, ConstructorReads Data f kpp o → o + Record.sizeof Data ≤ f.size
  searched : ∀ o, store.GetReads m.readAt k o → o + Record.sizeof Data ≤ f.size
  found : ¬ store.index.DereferencesEnd k

/-- The keys that keep the reads in the file: there is a first key that is not below `k`;
and if the page of `k` is the last one, a search that always goes right comes to a probe
in the file whose key is not below `k`. -/
def StaysInside (Data : Type) [Record Key Data] (f : File) (kpp : ℕ) (k : Key) : Prop :=
  (∃ i, i * kpp < f.count Data ∧ k ≤ firstKey Data f kpp i) ∧
    ∀ j, IsPage Data f kpp k j → f.count Data ≤ j * kpp + kpp →
      ∃ i, j * kpp + kpp - (kpp + 1) / 2 ^ (i + 1) < f.count Data ∧
        k ≤ Record.key (f.record Data (j * kpp + kpp - (kpp + 1) / 2 ^ (i + 1)))

omit [LinearOrder Key] in
/-- A record lies in the file. -/
theorem record_inside_iff (hsize : f.size % Record.sizeof Data = 0) {i : ℕ} :
    i * Record.sizeof Data + Record.sizeof Data ≤ f.size ↔ i < f.count Data := by
  rw [File.size_eq hsize, ← Nat.succ_mul, Nat.mul_le_mul_right_iff (sizeof_pos Data),
    Nat.succ_le_iff]

/-- **The constructor** reads the first record of every page. -/
theorem constructorReads_inside (h : Sized Data f kpp) {o : ℕ}
    (ho : ConstructorReads Data f kpp o) : o + Record.sizeof Data ≤ f.size := by
  obtain ⟨s, hv, hlt, rfl⟩ := ho
  rw [KVIndex.pageBytes, SizeT.mul_of_lt h.page_lt] at hv
  obtain ⟨n, -, rfl⟩ := hv.invariant (Entered Data f kpp)
    (fun _ _ hs hstep => (entered_step h hs hstep).1) ⟨0, Nat.zero_le _, by simp [entries]⟩
  simp only at hlt ⊢
  rw [record_inside_iff h.size_mod]
  rw [File.size_eq h.size_mod] at hlt
  exact Nat.lt_of_mul_lt_mul_right hlt

theorem dereferencesEnd_iff (h : Sized Data f kpp) :
    (indexedStore Data f kpp).index.DereferencesEnd k ↔
      ∀ i, i * kpp < f.count Data → firstKey Data f kpp i < k := by
  rw [← store_lowerBound_eq_none_iff h, List.getElem?_eq_none_iff, KVIndex.DereferencesEnd]

/-! ### The way of a search -/

/-- **A probe whose key is not too small** bounds what is to come: the search gets there
by going right, and stays to the left of it. -/
theorem kept_of_probe (h : Searchable m k first last) {n : ℕ}
    (hn : 1 ≤ (last + 1 - first) / 2 ^ (n + 1))
    (hlow : ∀ i, i < n → Record.key (m.record (rightProbe first last i)) < k)
    (hkey : k ≤ Record.key (m.record (rightProbe first last n))) {w : ℕ × ℕ}
    (hv : Visits (probeStep m.readAt k) (first, last) w) :
    (∃ i, i ≤ n ∧ 1 ≤ (last + 1 - first) / 2 ^ i ∧ w = rightWindow first last i) ∨
      Kept first (rightProbe first last n - 1) w := by
  have hhalf : ∀ i, i ≤ n → 1 ≤ (last + 1 - first) / 2 ^ (i + 1) := fun i hi =>
    hn.trans (Nat.div_le_div_left (Nat.pow_le_pow_right (by decide) (by omega))
      (Nat.two_pow_pos _))
  have hlast := lt_of_fits Data h.fits
  refine hv.invariant (fun w => (∃ i, i ≤ n ∧ 1 ≤ (last + 1 - first) / 2 ^ i ∧
      w = rightWindow first last i) ∨ Kept first (rightProbe first last n - 1) w) ?_
    (.inl ⟨0, Nat.zero_le n, ?_, (rightWindow_zero (Nat.le_succ_of_le h.first_le)).symm⟩)
  · rintro w w' (⟨i, hi, hwindow, rfl⟩ | hw) hstep
    · obtain ⟨hwin, hmid⟩ := middle_rightWindow hwindow
      have hcases := (@probeStep_inl _ _ _ _ f k (rightWindow first last i).1 last m h.fits w'
        hstep).2
      rw [hmid] at hcases
      rcases hcases with ⟨hgt, rfl⟩ | ⟨hlt, rfl⟩
      · -- to the left: this is the last of the probes
        have hin : i = n := by
          by_contra hne
          exact absurd hgt (hlow i (by omega)).not_gt
        have hbegin : first ≤ (rightWindow first last i).1 := by
          have hle := Nat.div_le_self (last + 1 - first) (2 ^ i)
          have hfirst := h.first_le
          rw [rightWindow]
          simp only
          omega
        have hmiddle := h.first_lt_middle hbegin (by omega) hgt
        have hle : rightProbe first last i ≤ last := Nat.sub_le _ _
        rw [SizeT.sub_of_le (by omega) (by omega), hin]
        rw [hin] at hmiddle hbegin
        exact .inr ⟨hbegin, Nat.le_sub_one_of_lt hmiddle, le_rfl⟩
      · -- to the right
        have hne : i ≠ n := by
          rintro rfl
          exact absurd hlt hkey.not_gt
        exact .inl ⟨i + 1, by omega, hhalf i hi, rightWindow_succ hlast (hhalf i hi)⟩
    · have hsearch : Searchable m k first (rightProbe first last n - 1) :=
        h.mono (hw.end_le.trans hw.le_last) ((Nat.sub_le _ _).trans (Nat.sub_le _ _))
      exact .inr (kept_step hsearch hw hstep).1
  · have hfirst := h.first_le
    rw [pow_zero, Nat.div_one]
    omega

/-- The probe of a search in a page. -/
theorem rightProbe_page (b kpp i : ℕ) :
    rightProbe b (b + kpp) i = b + kpp - (kpp + 1) / 2 ^ (i + 1) := by
  rw [rightProbe, Nat.add_assoc, Nat.add_sub_cancel_left]

/-- A search that turns to the left in time reads inside the file. -/
theorem probe_inside (h : Searchable m k first last) (hsize : f.size % Record.sizeof Data = 0)
    (hturn : f.count Data ≤ last → ∃ i, rightProbe first last i < f.count Data ∧
      k ≤ Record.key (f.record Data (rightProbe first last i))) {w : ℕ × ℕ}
    (hv : Visits (probeStep m.readAt k) (first, last) w) (hle : w.1 ≤ w.2) :
    SizeT.mul (middle w) (Record.sizeof Data) + Record.sizeof Data ≤ f.size := by
  obtain ⟨lo, hi⟩ := w
  have hfit : hi * Record.sizeof Data < 2 ^ 64 :=
    (Nat.mul_le_mul_right _ (h.kept hv).le_last).trans_lt h.fits
  simp only at hle
  rw [probe_of_le hle hfit, record_inside_iff hsize]
  rcases Nat.lt_or_ge last (f.count Data) with hin | hout
  · have hlast := (h.kept hv).le_last
    simp only at hlast
    omega
  · classical
    obtain ⟨n, ⟨hprobe, hkey⟩, hleast⟩ := Nat.findX (hturn hout)
    have hlow : ∀ i, i < n → Record.key (m.record (rightProbe first last i)) < k := by
      intro i hi
      have hlt : rightProbe first last i < f.count Data :=
        (rightProbe_mono hi.le).trans_lt hprobe
      rw [m.record_of_lt hsize hlt]
      exact not_le.mp fun hle => hleast i hi ⟨hlt, hle⟩
    have hn : 1 ≤ (last + 1 - first) / 2 ^ (n + 1) := by
      by_contra hzero
      rw [rightProbe, Nat.lt_one_iff.mp (not_le.mp hzero), Nat.sub_zero] at hprobe
      omega
    rw [← m.record_of_lt hsize hprobe] at hkey
    rcases kept_of_probe h hn hlow hkey hv with ⟨i, hin, hwindow, hw⟩ | hw
    · obtain ⟨-, hmid⟩ := middle_rightWindow hwindow
      obtain ⟨rfl, rfl⟩ := Prod.mk.inj hw
      exact hmid.trans_lt ((rightProbe_mono hin).trans_lt hprobe)
    · have hlast := hw.le_last
      simp only at hlast
      omega

/-- A search that does not turn to the left in time reads behind the file. -/
theorem exists_turn_of_inside (h : Searchable m k first last)
    (hsize : f.size % Record.sizeof Data = 0) (hout : f.count Data ≤ last)
    (hinside : ∀ w, Visits (probeStep m.readAt k) (first, last) w → w.1 ≤ w.2 →
      SizeT.mul (middle w) (Record.sizeof Data) + Record.sizeof Data ≤ f.size) :
    ∃ i, rightProbe first last i < f.count Data ∧
      k ≤ Record.key (f.record Data (rightProbe first last i)) := by
  by_contra hnone
  push Not at hnone
  -- the last index is probed in the end, and lies behind the file
  have hbehind : ∃ i, f.count Data ≤ rightProbe first last i := by
    refine ⟨last + 1 - first, ?_⟩
    have hpow : last + 1 - first < 2 ^ (last + 1 - first + 1) :=
      (Nat.lt_two_pow_self).trans (Nat.pow_lt_pow_right (by decide) (Nat.lt_succ_self _))
    rw [rightProbe, Nat.div_eq_of_lt hpow]
    exact hout
  obtain ⟨n, hfound, hleast⟩ := Nat.findX hbehind
  have hwindow : 1 ≤ (last + 1 - first) / 2 ^ n := by
    cases n with
    | zero =>
      have hfirst := h.first_le
      rw [pow_zero, Nat.div_one]
      omega
    | succ n =>
      have hprobe := not_le.mp (hleast n (Nat.lt_succ_self n))
      by_contra hzero
      rw [rightProbe, Nat.lt_one_iff.mp (not_le.mp hzero), Nat.sub_zero] at hprobe
      omega
  have hv := visits_rightWindow (m := m) (Nat.le_succ_of_le h.first_le) h.fits hwindow
    fun i hi => by
      rw [m.record_of_lt hsize (not_le.mp (hleast i hi))]
      exact hnone i (not_le.mp (hleast i hi))
  obtain ⟨hwin, hmid⟩ := middle_rightWindow hwindow
  have hread := hinside _ hv hwin
  have hprobe : SizeT.mul (middle (rightWindow first last n)) (Record.sizeof Data) =
      rightProbe first last n * Record.sizeof Data := by
    rw [← hmid]
    exact probe_of_le hwin h.fits
  rw [hprobe, record_inside_iff hsize] at hread
  omega

/-! ### Lookups -/

/-- The reads of a lookup whose page is a whole one. -/
theorem getReads_iff_of_whole (m : Memory Data f)
    (hfound : (indexedStore Data f kpp).index.findPage k =
      some (j * kpp * Record.sizeof Data,
        j * kpp * Record.sizeof Data + Record.sizeof Data * kpp)) (o : ℕ) :
    (indexedStore Data f kpp).GetReads m.readAt k o ↔
      ∃ w, Visits (probeStep m.readAt k) (j * kpp, j * kpp + kpp) w ∧ w.1 ≤ w.2 ∧
        o = SizeT.mul (middle w) (Record.sizeof Data) := by
  constructor
  · rintro ⟨offsetBegin, offsetEnd, w, hpage, hv, hle, ho⟩
    rw [hfound, Option.some.injEq, Prod.mk.injEq] at hpage
    obtain ⟨rfl, rfl⟩ := hpage
    rw [page_end_div, Nat.mul_div_cancel _ (sizeof_pos Data)] at hv
    exact ⟨w, hv, hle, ho⟩
  · rintro ⟨w, hv, hle, ho⟩
    refine ⟨_, _, w, hfound, ?_, hle, ho⟩
    rw [page_end_div, Nat.mul_div_cancel _ (sizeof_pos Data)]
    exact hv

/-- **A lookup reads inside the file, and never dereferences `end()`**, exactly for the
keys that `StaysInside` describes, whatever lies behind the file. -/
theorem readsInside_iff (hsize : f.size % Record.sizeof Data = 0) (hkpp : 0 < kpp)
    (hpage : Record.sizeof Data * kpp < 2 ^ 64) :
    (∃ store, KVStore.Constructs Data f kpp store) ∧
      ∀ store, KVStore.Constructs Data f kpp store → ∀ (m : Memory Data f) (k : Key),
        (ReadsInside m kpp store k ↔ StaysInside Data f kpp k) := by
  have h : Sized Data f kpp := ⟨hsize, hkpp, hpage⟩
  refine ⟨⟨_, (constructs_indexedStore h).mpr rfl⟩, fun store hstore m k => ?_⟩
  obtain rfl := (constructs_indexedStore h).mp hstore
  have hend : (¬ (indexedStore Data f kpp).index.DereferencesEnd k) ↔
      ∃ i, i * kpp < f.count Data ∧ k ≤ firstKey Data f kpp i := by
    rw [dereferencesEnd_iff h]
    push Not
    rfl
  have hcases := findsPage h k
  generalize hfound : (indexedStore Data f kpp).index.findPage k = found at hcases
  cases hcases with
  | last j hj hlt =>
    have hno : ¬ ∃ i, i * kpp < f.count Data ∧ k ≤ firstKey Data f kpp i := by
      rintro ⟨i, hi, hki⟩
      exact absurd (hlt i hi) hki.not_gt
    exact iff_of_false (fun hin => hno (hend.mp hin.found)) fun hstay => hno hstay.1
  | before hgt =>
    constructor
    · intro hin
      refine ⟨hend.mp hin.found, fun j hj => ?_⟩
      exact absurd (hgt j hj.begins) hj.key_le.not_gt
    · intro hstay
      refine ⟨fun o => constructorReads_inside h, ?_, hend.mpr hstay.1⟩
      rintro o ⟨offsetBegin, offsetEnd, w, hpage, -⟩
      rw [hfound] at hpage
      cases hpage
  | whole j hj hge =>
    have hsearch := searchable_whole h hj m
    have hreads := getReads_iff_of_whole m hfound
    constructor
    · intro hin
      refine ⟨hge, fun i hi hout => ?_⟩
      obtain rfl := hi.unique hj
      have hturn := exists_turn_of_inside hsearch hsize hout fun w hv hle =>
        hin.searched _ ((hreads _).mpr ⟨w, hv, hle, rfl⟩)
      simpa only [rightProbe_page] using hturn
    · rintro ⟨-, hstay⟩
      refine ⟨fun o => constructorReads_inside h, fun o ho => ?_, hend.mpr hge⟩
      obtain ⟨w, hv, hle, rfl⟩ := (hreads o).mp ho
      refine probe_inside hsearch hsize (fun hout => ?_) hv hle
      simpa only [rightProbe_page] using hstay j hj hout

end Reads

/-- The first of three records, in pages of two. -/
theorem readsInside_three :
    ∃ store, KVStore.Constructs KvstoreHttp.Data threeRecords 2 store ∧
      ReadsInside (⟨threeRecords.readAt, fun _ _ => rfl⟩ : Memory KvstoreHttp.Data threeRecords)
        2 store 5 := by
  have hcount : threeRecords.count KvstoreHttp.Data = 3 := by decide +kernel
  obtain ⟨⟨store, hstore⟩, hiff⟩ := @readsInside_iff ℕ KvstoreHttp.Data _ _ threeRecords 2 rfl
    (by decide) (by decide +kernel)
  refine ⟨store, hstore, (hiff store hstore _ 5).mpr ⟨⟨0, by omega, by decide +kernel⟩, ?_⟩⟩
  intro j hj hout
  -- the second page begins with a greater key
  have hbegins := hj.begins
  obtain rfl : j = 1 := by omega
  exact absurd hj.key_le (by decide +kernel)

/-- The key 6 is above the only first key, so `end()` is dereferenced. -/
theorem end_dereferenced :
    ¬ ∀ (f : File) (kpp : ℕ) (store : KVStore ℕ) (m : Memory KvstoreHttp.Data f) (k : ℕ),
      f.size % Record.sizeof KvstoreHttp.Data = 0 → 0 < f.count KvstoreHttp.Data → 0 < kpp →
      Record.sizeof KvstoreHttp.Data * kpp < 2 ^ 64 →
      KVStore.Constructs KvstoreHttp.Data f kpp store → ReadsInside m kpp store k := by
  intro h
  have hinside := h oneRecord 1024 ⟨oneRecord, [(5, 0)], 32768, 32⟩
    ⟨oneRecord.readAt, fun _ _ => rfl⟩ 6 rfl (by decide +kernel) (by decide) (by decide +kernel)
    ⟨2, rfl⟩
  refine hinside.found ?_
  unfold KVIndex.DereferencesEnd
  decide

end TpAdvanced
