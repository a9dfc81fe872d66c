import TpAdvanced.Kvstore.Search
import Mathlib.Algebra.Order.Floor.Div

/-!
# The entries of the index

The constructor walks the file page by page and enters every page under its first key.
Nothing asks for the keys to be in order: of pages with the same first key the last one
stays, and `find_page` gives the page with the greatest first key that is not above the
key.

## Main definitions

* `pageEntry`, `entries` — what the constructor enters.
* `KVStore.Constructs` — the constructor ends, with this store.
* `IsPage` — the page of a key.

## Main results

* `mem_entries` — the entries that stay.
* `constructs_indexedStore` — **the store that the constructor builds**, for any keys.
* `findsPage` — **what `find_page` gives**, for any keys.
-/

namespace TpAdvanced

open While

variable {Key Data : Type} [LinearOrder Key] [Record Key Data]

/-- How many pages hold so many records. -/
def pageCount (records kpp : ℕ) : ℕ := records ⌈/⌉ kpp

theorem lt_pageCount_iff {records kpp j : ℕ} (hkpp : 0 < kpp) :
    j < pageCount records kpp ↔ j * kpp < records := by
  rw [pageCount, ← not_le, ceilDiv_le_iff_le_mul hkpp, not_le, Nat.mul_comm]

section

variable (Data)

/-- The first key of a page. -/
def firstKey (f : File) (kpp j : ℕ) : Key := Record.key (f.record Data (j * kpp))

/-- The entry of a page. -/
def pageEntry (f : File) (kpp j : ℕ) : Key × ℕ :=
  (Record.key (f.record Data (j * kpp)), j * kpp * Record.sizeof Data)

/-- The index after so many pages. -/
def entries (f : File) (kpp : ℕ) : ℕ → List (Key × ℕ)
  | 0 => []
  | n + 1 =>
    OrderedMap.insert (entries f kpp n) (pageEntry Data f kpp n).1 (pageEntry Data f kpp n).2

/-- The store of a file. -/
def indexedStore (f : File) (kpp : ℕ) : KVStore Key where
  file := f
  index :=
    { store := entries Data f kpp (pageCount (f.count Data) kpp)
      pageSize := Record.sizeof Data * kpp
      lastPageSize :=
        if f.size % (Record.sizeof Data * kpp) = 0 then Record.sizeof Data * kpp
        else f.size % (Record.sizeof Data * kpp) }

/-- The constructor ends, with this store. -/
def KVStore.Constructs (f : File) (kpp : ℕ) (store : KVStore Key) : Prop :=
  ∃ fuel, KVStore.new Data f kpp fuel = some (.ok store)

end

variable {f : File} {kpp : ℕ}

/-! ### The entries that stay -/

theorem sorted_entries (n : ℕ) : OrderedMap.Sorted (entries Data f kpp n) := by
  induction n with
  | zero => exact .nil
  | succ n ih => exact ih.insert _ _

/-- **Of pages with the same first key the last one stays.** -/
theorem mem_entries {n : ℕ} {e : Key × ℕ} : e ∈ entries Data f kpp n ↔
    ∃ j, j < n ∧ e = pageEntry Data f kpp j ∧
      ∀ i, i < n → firstKey Data f kpp i = firstKey Data f kpp j → i ≤ j := by
  induction n with
  | zero => simp [entries]
  | succ n ih =>
    rw [entries, OrderedMap.mem_insert (sorted_entries n), ih]
    constructor
    · rintro (rfl | ⟨⟨j, hj, rfl, hlast⟩, hne⟩)
      · exact ⟨n, Nat.lt_succ_self n, rfl, fun i hi _ => Nat.le_of_lt_succ hi⟩
      · refine ⟨j, Nat.lt_succ_of_lt hj, rfl, fun i hi heq => ?_⟩
        rcases Nat.lt_succ_iff_lt_or_eq.mp hi with hi | rfl
        · exact hlast i hi heq
        · exact absurd heq.symm hne
    · rintro ⟨j, hj, rfl, hlast⟩
      rcases Nat.lt_succ_iff_lt_or_eq.mp hj with hj | rfl
      · refine .inr ⟨⟨j, hj, rfl, fun i hi => hlast i (Nat.lt_succ_of_lt hi)⟩, fun heq => ?_⟩
        have hle := hlast n (Nat.lt_succ_self n) heq.symm
        omega
      · exact .inl rfl

/-- Every first key has an entry. -/
theorem exists_mem_entries {n i : ℕ} (hi : i < n) :
    ∃ e ∈ entries Data f kpp n, e.1 = firstKey Data f kpp i := by
  induction n with
  | zero => omega
  | succ n ih =>
    by_cases heq : firstKey Data f kpp i = firstKey Data f kpp n
    · exact ⟨_, (OrderedMap.mem_insert (sorted_entries n)).mpr (.inl rfl), heq.symm⟩
    · have hlt : i < n := by
        rcases Nat.lt_succ_iff_lt_or_eq.mp hi with hi | rfl
        · exact hi
        · exact absurd rfl heq
      obtain ⟨e, he, hkey⟩ := ih hlt
      refine ⟨e, (OrderedMap.mem_insert (sorted_entries n)).mpr (.inr ⟨he, ?_⟩), hkey⟩
      rw [hkey]
      exact heq

/-! ### The constructor -/

/-- The file holds whole records, and the pages are of a size that the code can handle. -/
structure Sized (Data : Type) [Record Key Data] (f : File) (kpp : ℕ) : Prop where
  size_mod : f.size % Record.sizeof Data = 0
  kpp_pos : 0 < kpp
  page_lt : Record.sizeof Data * kpp < 2 ^ 64

omit [LinearOrder Key] in
theorem Sized.page_pos (h : Sized Data f kpp) : 0 < Record.sizeof Data * kpp :=
  Nat.mul_pos Record.sizeof_pos h.kpp_pos

omit [LinearOrder Key] in
/-- A page that begins in the file ends below `2 ^ 64`. -/
theorem Sized.page_end_lt (h : Sized Data f kpp) {j : ℕ} (hj : j * kpp < f.count Data) :
    j * kpp * Record.sizeof Data + Record.sizeof Data * kpp < 2 ^ 64 := by
  have hsize := File.size_eq h.size_mod
  have hlt := f.size_lt
  have hle : j * kpp * Record.sizeof Data < f.count Data * Record.sizeof Data :=
    Nat.mul_lt_mul_of_pos_right hj Record.sizeof_pos
  rcases Nat.eq_zero_or_pos j with rfl | hpos
  · simpa using h.page_lt
  · have hpage : Record.sizeof Data * kpp ≤ j * kpp * Record.sizeof Data := by
      rw [Nat.mul_comm]
      exact Nat.mul_le_mul_right _ (Nat.le_mul_of_pos_left kpp hpos)
    rw [File.size] at hsize
    omega

omit [LinearOrder Key] in
/-- Where a whole page ends. -/
theorem page_end_div (Data : Type) [Record Key Data] (b kpp : ℕ) :
    (b * Record.sizeof Data + Record.sizeof Data * kpp) / Record.sizeof Data = b + kpp := by
  rw [Nat.mul_comm (Record.sizeof Data) kpp, ← Nat.add_mul,
    Nat.mul_div_cancel _ Record.sizeof_pos]

/-- A pass of the loop enters a page. -/
theorem indexStep_page (h : Sized Data f kpp) {j : ℕ} (hj : j * kpp < f.count Data)
    (store : List (Key × ℕ)) :
    KVIndex.indexStep Data f (Record.sizeof Data * kpp) (j * kpp * Record.sizeof Data, store) =
      .inl ((j + 1) * kpp * Record.sizeof Data,
        OrderedMap.insert store (pageEntry Data f kpp j).1 (pageEntry Data f kpp j).2) := by
  have hin : j * kpp * Record.sizeof Data < f.size := by
    rw [File.size_eq h.size_mod]
    exact Nat.mul_lt_mul_of_pos_right hj Record.sizeof_pos
  have hnext : SizeT.add (j * kpp * Record.sizeof Data) (Record.sizeof Data * kpp) =
      (j + 1) * kpp * Record.sizeof Data := by
    rw [SizeT.add_of_lt (h.page_end_lt hj), Nat.succ_mul, Nat.add_mul,
      Nat.mul_comm (Record.sizeof Data) kpp]
  rw [KVIndex.indexStep, if_pos hin, hnext]
  rfl

theorem indexStep_end (h : Sized Data f kpp) {j : ℕ} (hj : f.count Data ≤ j * kpp)
    (store : List (Key × ℕ)) :
    KVIndex.indexStep Data f (Record.sizeof Data * kpp) (j * kpp * Record.sizeof Data, store) =
      .inr store := by
  refine if_neg ?_
  rw [File.size_eq h.size_mod, not_lt]
  exact Nat.mul_le_mul_right _ hj

/-- The loop of the constructor after some pages. -/
def Entered (Data : Type) [Record Key Data] (f : File) (kpp : ℕ) (s : ℕ × List (Key × ℕ)) : Prop :=
  ∃ n, n ≤ pageCount (f.count Data) kpp ∧ s = (n * kpp * Record.sizeof Data, entries Data f kpp n)

theorem entered_step (h : Sized Data f kpp) {s s' : ℕ × List (Key × ℕ)}
    (hs : Entered Data f kpp s)
    (hstep : KVIndex.indexStep Data f (Record.sizeof Data * kpp) s = .inl s') :
    Entered Data f kpp s' ∧ f.size - s'.1 < f.size - s.1 := by
  obtain ⟨n, hn, rfl⟩ := hs
  rcases Nat.lt_or_ge (n * kpp) (f.count Data) with hlt | hge
  · rw [indexStep_page h hlt] at hstep
    cases hstep
    refine ⟨⟨n + 1, (lt_pageCount_iff h.kpp_pos).mpr hlt, rfl⟩, ?_⟩
    have hin : n * kpp * Record.sizeof Data < f.size := by
      rw [File.size_eq h.size_mod]
      exact Nat.mul_lt_mul_of_pos_right hlt Record.sizeof_pos
    have hpage := h.page_pos
    have hnext : (n + 1) * kpp * Record.sizeof Data =
        n * kpp * Record.sizeof Data + Record.sizeof Data * kpp := by
      rw [Nat.succ_mul, Nat.add_mul, Nat.mul_comm (Record.sizeof Data) kpp]
    simp only [hnext]
    omega
  · rw [indexStep_end h hge] at hstep
    cases hstep

theorem entered_end (h : Sized Data f kpp) {s : ℕ × List (Key × ℕ)} {r : List (Key × ℕ)}
    (hs : Entered Data f kpp s)
    (hstep : KVIndex.indexStep Data f (Record.sizeof Data * kpp) s = .inr r) :
    r = entries Data f kpp (pageCount (f.count Data) kpp) := by
  obtain ⟨n, hn, rfl⟩ := hs
  rcases Nat.lt_or_ge (n * kpp) (f.count Data) with hlt | hge
  · rw [indexStep_page h hlt] at hstep
    cases hstep
  · rw [indexStep_end h hge] at hstep
    cases hstep
    have hlast : ¬ n < pageCount (f.count Data) kpp := by
      rw [lt_pageCount_iff h.kpp_pos]
      exact hge.not_gt
    rw [Nat.le_antisymm hn (Nat.le_of_not_lt hlast)]

/-- **The constructor** enters every page of the file. -/
theorem constructs_indexedStore (h : Sized Data f kpp) {store : KVStore Key} :
    KVStore.Constructs Data f kpp store ↔ store = indexedStore Data f kpp := by
  have hreturns : Returns (KVIndex.indexStep Data f (Record.sizeof Data * kpp)) (0, [])
      (entries Data f kpp (pageCount (f.count Data) kpp)) := by
    have hstart : Entered Data f kpp (0, []) := ⟨0, Nat.zero_le _, by simp [entries]⟩
    obtain ⟨r, hr, rfl⟩ := exists_returns (Entered Data f kpp)
      (fun r => r = entries Data f kpp (pageCount (f.count Data) kpp)) (fun s => f.size - s.1)
      (fun s s' hs hstep => entered_step h hs hstep) (fun s r hs hstep => entered_end h hs hstep)
      hstart
    exact hr
  have hnew : ∀ fuel, KVStore.new Data f kpp fuel =
      (While.run (KVIndex.indexStep Data f (Record.sizeof Data * kpp)) fuel (0, [])).map
        fun store => .ok ⟨f, store, (indexedStore Data f kpp).index.pageSize,
          (indexedStore Data f kpp).index.lastPageSize⟩ := by
    intro fuel
    rw [KVStore.new, if_neg (not_not.mpr h.size_mod), KVIndex.new, KVIndex.pageBytes,
      SizeT.mul_of_lt h.page_lt, Option.map_map]
    rfl
  constructor
  · rintro ⟨fuel, hfuel⟩
    rw [hnew, Option.map_eq_some_iff] at hfuel
    obtain ⟨r, hr, hstore⟩ := hfuel
    obtain rfl := Returns.unique ⟨fuel, hr⟩ hreturns
    cases hstore
    rfl
  · rintro rfl
    obtain ⟨fuel, hfuel⟩ := hreturns
    refine ⟨fuel, ?_⟩
    rw [hnew, hfuel]
    rfl

/-! ### `find_page` -/

/-- The page of a key: its first key is the greatest that is not above the key, and it
is the last page with this first key. -/
structure IsPage (Data : Type) [Record Key Data] (f : File) (kpp : ℕ) (k : Key) (j : ℕ) :
    Prop where
  begins : j * kpp < f.count Data
  key_le : firstKey Data f kpp j ≤ k
  greatest : ∀ i, i * kpp < f.count Data → firstKey Data f kpp i ≤ k →
    firstKey Data f kpp i ≤ firstKey Data f kpp j
  latest : ∀ i, i * kpp < f.count Data → firstKey Data f kpp i = firstKey Data f kpp j → i ≤ j

theorem IsPage.unique {k : Key} {i j : ℕ} (hi : IsPage Data f kpp k i)
    (hj : IsPage Data f kpp k j) : i = j := by
  have heq : firstKey Data f kpp i = firstKey Data f kpp j :=
    le_antisymm (hj.greatest i hi.begins hi.key_le) (hi.greatest j hj.begins hj.key_le)
  exact Nat.le_antisymm (hj.latest i hi.begins heq) (hi.latest j hj.begins heq.symm)

/-- What `find_page` can give for any keys. -/
inductive FindsPage (Data : Type) [Record Key Data] (f : File) (kpp : ℕ) (k : Key) :
    Option (ℕ × ℕ) → Prop
  /-- There is a first key that is not below the key: the page is taken to be a whole
  one. -/
  | whole (j : ℕ) (hj : IsPage Data f kpp k j)
      (hge : ∃ i, i * kpp < f.count Data ∧ k ≤ firstKey Data f kpp i) :
      FindsPage Data f kpp k (some (j * kpp * Record.sizeof Data,
        j * kpp * Record.sizeof Data + Record.sizeof Data * kpp))
  /-- The key lies above all first keys: the page is taken to be as long as the last
  one. -/
  | last (j : ℕ) (hj : IsPage Data f kpp k j)
      (hlt : ∀ i, i * kpp < f.count Data → firstKey Data f kpp i < k) :
      FindsPage Data f kpp k (some (j * kpp * Record.sizeof Data,
        j * kpp * Record.sizeof Data + (indexedStore Data f kpp).index.lastPageSize))
  /-- The key lies below all first keys. -/
  | before (hgt : ∀ i, i * kpp < f.count Data → k < firstKey Data f kpp i) :
      FindsPage Data f kpp k none

omit [Record Key Data] in
/-- `find_page` with an iterator that may be dereferenced. -/
theorem findPage_of_some {index : KVIndex Key} {k : Key} {e : Key × ℕ}
    (he : index.store[OrderedMap.lowerBound index.store k]? = some e) :
    index.findPage k =
      if e.1 = k then some (e.2, SizeT.add e.2 index.pageSize)
      else if OrderedMap.lowerBound index.store k ≠ 0 then
        index.store[OrderedMap.lowerBound index.store k - 1]?.map
          fun e => (e.2, SizeT.add e.2 index.pageSize)
      else none := by
  simp only [KVIndex.findPage, he]

omit [Record Key Data] in
/-- `find_page` with `end()`. -/
theorem findPage_of_none {index : KVIndex Key} {k : Key}
    (he : index.store[OrderedMap.lowerBound index.store k]? = none) :
    index.findPage k = index.store[OrderedMap.lowerBound index.store k - 1]?.map
      fun e => (e.2, SizeT.add e.2 index.lastPageSize) := by
  simp only [KVIndex.findPage, he]

section Lookup

variable (h : Sized Data f kpp)

include h

/-- The entries of the store of a file. -/
theorem mem_store {e : Key × ℕ} : e ∈ (indexedStore Data f kpp).index.store ↔
    ∃ j, j * kpp < f.count Data ∧ e = pageEntry Data f kpp j ∧
      ∀ i, i * kpp < f.count Data → firstKey Data f kpp i = firstKey Data f kpp j → i ≤ j := by
  rw [indexedStore, mem_entries]
  simp only [lt_pageCount_iff h.kpp_pos]

theorem exists_mem_store {i : ℕ} (hi : i * kpp < f.count Data) :
    ∃ e ∈ (indexedStore Data f kpp).index.store, e.1 = firstKey Data f kpp i :=
  exists_mem_entries ((lt_pageCount_iff h.kpp_pos).mpr hi)

/-- An entry that no other entry lies between and the key belongs to its page. -/
theorem exists_isPage {k : Key} {e : Key × ℕ} (he : e ∈ (indexedStore Data f kpp).index.store)
    (hle : e.1 ≤ k)
    (hmax : ∀ e' ∈ (indexedStore Data f kpp).index.store, e'.1 ≤ k → e'.1 ≤ e.1) :
    ∃ j, e = pageEntry Data f kpp j ∧ IsPage Data f kpp k j := by
  obtain ⟨j, hj, rfl, hlatest⟩ := (mem_store h).mp he
  refine ⟨j, rfl, hj, hle, fun i hi hik => ?_, hlatest⟩
  obtain ⟨e', he', hkey⟩ := exists_mem_store h hi
  rw [← hkey] at hik ⊢
  exact hmax e' he' hik

/-- `lower_bound` gives `end()` for a key above all first keys. -/
theorem store_lowerBound_eq_none_iff {k : Key} :
    (indexedStore Data f kpp).index.store[OrderedMap.lowerBound
      (indexedStore Data f kpp).index.store k]? = none ↔
      ∀ i, i * kpp < f.count Data → firstKey Data f kpp i < k := by
  constructor
  · intro hnone i hi
    obtain ⟨e, he, hkey⟩ := exists_mem_store h hi
    rw [← hkey]
    exact OrderedMap.lt_of_lowerBound_none hnone he
  · intro hall
    rw [Option.eq_none_iff_forall_ne_some]
    intro e he
    obtain ⟨j, hj, rfl, -⟩ := (mem_store h).mp (List.mem_of_getElem? he)
    exact absurd (hall j hj) (OrderedMap.le_of_lowerBound he).not_gt

/-- The last page is no longer than the others. -/
theorem lastPageSize_le :
    (indexedStore Data f kpp).index.lastPageSize ≤ Record.sizeof Data * kpp := by
  simp only [indexedStore]
  split
  · exact le_rfl
  · exact (Nat.mod_lt _ h.page_pos).le

omit h in
theorem lastPageSize_le_size (hne : 0 < f.size) :
    (indexedStore Data f kpp).index.lastPageSize ≤ f.size := by
  simp only [indexedStore]
  split
  · rename_i hmod
    exact Nat.le_of_dvd hne (Nat.dvd_of_mod_eq_zero hmod)
  · exact Nat.mod_le _ _

/-- **What `find_page` gives**, for any keys. -/
theorem findsPage (k : Key) :
    FindsPage Data f kpp k ((indexedStore Data f kpp).index.findPage k) := by
  have hsorted : OrderedMap.Sorted (indexedStore Data f kpp).index.store := sorted_entries _
  have hwhole : ∀ j, j * kpp < f.count Data →
      SizeT.add (pageEntry Data f kpp j).2 (indexedStore Data f kpp).index.pageSize =
        j * kpp * Record.sizeof Data + Record.sizeof Data * kpp := fun j hj =>
    SizeT.add_of_lt (h.page_end_lt hj)
  cases hat : (indexedStore Data f kpp).index.store[OrderedMap.lowerBound
      (indexedStore Data f kpp).index.store k]? with
  | some e =>
    have hmem := List.mem_of_getElem? hat
    have hge := OrderedMap.le_of_lowerBound hat
    obtain ⟨i, hi, hentry, -⟩ := (mem_store h).mp hmem
    have hfirst : ∃ i, i * kpp < f.count Data ∧ k ≤ firstKey Data f kpp i :=
      ⟨i, hi, by rw [hentry] at hge; exact hge⟩
    rw [findPage_of_some hat]
    by_cases heq : e.1 = k
    · -- the key is a first key
      obtain ⟨j, rfl, hj⟩ := exists_isPage h hmem heq.le fun e' _ hle => hle.trans_eq heq.symm
      rw [if_pos heq, hwhole j hj.begins]
      exact .whole j hj hfirst
    · have hlt : k < e.1 := lt_of_le_of_ne hge (Ne.symm heq)
      -- the keys that are not above `k` are below it
      have hbelow : ∀ e' ∈ (indexedStore Data f kpp).index.store, e'.1 ≤ k → e'.1 < k := by
        intro e' he' hle
        refine lt_of_le_of_ne hle fun heq' => ?_
        exact absurd (hsorted.lowerBound_min hat he' heq'.ge) (heq' ▸ hlt).not_ge
      rw [if_neg heq]
      by_cases hbegin : OrderedMap.lowerBound (indexedStore Data f kpp).index.store k = 0
      · rw [if_neg (not_not.mpr hbegin)]
        refine .before fun i hi => ?_
        obtain ⟨e', he', hkey⟩ := exists_mem_store h hi
        obtain ⟨n, hn⟩ := List.mem_iff_getElem?.mp he'
        rw [hbegin] at hat
        rw [← hkey]
        exact hlt.trans_le (hsorted.le_of_le hat hn (Nat.zero_le n))
      · rw [if_pos hbegin]
        have hlen := (List.getElem?_eq_some_iff.mp hat).1
        have hprev := List.getElem?_eq_getElem (l := (indexedStore Data f kpp).index.store)
          (show OrderedMap.lowerBound (indexedStore Data f kpp).index.store k - 1 < _ by omega)
        obtain ⟨j, hentry, hj⟩ := exists_isPage h (List.mem_of_getElem? hprev)
          (OrderedMap.lt_of_lt_lowerBound (by omega) hprev).le
          fun e' he' hle => hsorted.before_lowerBound_max hprev he' (hbelow e' he' hle)
        rw [hprev, hentry, Option.map_some, hwhole j hj.begins]
        exact .whole j hj hfirst
  | none =>
    rw [findPage_of_none hat]
    have hlt := (store_lowerBound_eq_none_iff h).mp hat
    cases hprev : (indexedStore Data f kpp).index.store[OrderedMap.lowerBound
        (indexedStore Data f kpp).index.store k - 1]? with
    | none =>
      -- there is no page at all
      refine .before fun i hi => ?_
      obtain ⟨e, he, -⟩ := exists_mem_store h hi
      have hpos := List.length_pos_of_mem he
      have hlen := List.getElem?_eq_none_iff.mp hprev
      have hle := OrderedMap.lowerBound_le_length (m := (indexedStore Data f kpp).index.store)
        (k := k)
      omega
    | some e =>
      have hbelow := OrderedMap.lt_of_lowerBound_none hat (List.mem_of_getElem? hprev)
      obtain ⟨j, rfl, hj⟩ := exists_isPage h (List.mem_of_getElem? hprev) hbelow.le fun e' he' _ =>
        hsorted.before_lowerBound_max hprev he' (OrderedMap.lt_of_lowerBound_none hat he')
      have hend := h.page_end_lt hj.begins
      have hsize := lastPageSize_le h
      rw [Option.map_some, pageEntry, SizeT.add_of_lt (by omega)]
      exact .last j hj hlt

end Lookup

end TpAdvanced
