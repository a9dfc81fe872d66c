import TpAdvanced.Kvstore.PageEntries

/-!
# The index of a file in order

When the keys of the file increase, the index has the entries of the pages in their
order.  The end that `find_page` gives a page is that of a whole page, except for a key
above all first keys.

## Main definitions

* `pages` — the entries of the index.
* `Paged` — the keys increase.

## Main results

* `constructs_iff` — the store that the constructor builds.
* `findPage_cases` — what `find_page` gives.
-/

namespace TpAdvanced

open While

variable {Key Data : Type} [LinearOrder Key] [Record Key Data]

section

variable (Data)

/-- The entries of the first pages. -/
def pages (f : File) (kpp n : ℕ) : List (Key × ℕ) := (List.range n).map (pageEntry Data f kpp)

/-- The store of a file. -/
def pagedStore (f : File) (kpp : ℕ) : KVStore Key where
  file := f
  index :=
    { store := pages Data f kpp (pageCount (f.count Data) kpp)
      pageSize := Record.sizeof Data * kpp
      lastPageSize :=
        if f.size % (Record.sizeof Data * kpp) = 0 then Record.sizeof Data * kpp
        else f.size % (Record.sizeof Data * kpp) }

end

variable {f : File} {kpp : ℕ}

/-- The file is well formed and the pages are of a size that the code can handle. -/
structure Paged (Data : Type) [Record Key Data] (f : File) (kpp : ℕ) : Prop where
  size_mod : f.size % Record.sizeof Data = 0
  keys : f.KeysIncrease Data
  kpp_pos : 0 < kpp
  page_lt : Record.sizeof Data * kpp < 2 ^ 64

theorem Paged.sized (h : Paged Data f kpp) : Sized Data f kpp :=
  ⟨h.size_mod, h.kpp_pos, h.page_lt⟩

/-- Increasing first keys are entered one behind the other. -/
theorem entries_eq_pages (h : Paged Data f kpp) {n : ℕ} (hn : n ≤ pageCount (f.count Data) kpp) :
    entries Data f kpp n = pages Data f kpp n := by
  induction n with
  | zero => rfl
  | succ n ih =>
    rw [entries, ih (Nat.le_of_succ_le hn), OrderedMap.insert_of_forall_lt, pages, pages,
      List.range_succ, List.map_append]
    · rfl
    · intro e he
      obtain ⟨j, hj, rfl⟩ := List.mem_map.mp he
      refine h.keys (j * kpp) (n * kpp) ?_ ((lt_pageCount_iff h.kpp_pos).mp hn)
      exact Nat.mul_lt_mul_of_pos_right (List.mem_range.mp hj) h.kpp_pos

theorem indexedStore_eq (h : Paged Data f kpp) :
    indexedStore Data f kpp = pagedStore Data f kpp := by
  rw [indexedStore, entries_eq_pages h le_rfl, pagedStore]

/-- **The constructor** indexes every page of the file. -/
theorem constructs_iff (h : Paged Data f kpp) {store : KVStore Key} :
    KVStore.Constructs Data f kpp store ↔ store = pagedStore Data f kpp := by
  rw [constructs_indexedStore h.sized, indexedStore_eq h]

/-! ### `find_page` -/

/-- The last page ends at the end of the file. -/
theorem lastPageSize_eq {size page j : ℕ} (hlow : j * page < size) (hhigh : size ≤ (j + 1) * page) :
    j * page + (if size % page = 0 then page else size % page) = size := by
  obtain ⟨r, rfl⟩ := Nat.exists_eq_add_of_lt hlow
  rw [Nat.succ_mul] at hhigh
  rw [Nat.add_assoc, Nat.mul_comm j page, Nat.mul_add_mod]
  rcases Nat.eq_or_lt_of_le (show r + 1 ≤ page by omega) with hr | hr
  · rw [hr, Nat.mod_self, if_pos rfl]
  · rw [Nat.mod_eq_of_lt hr, if_neg (by omega)]

theorem Sized.last_page_end (h : Sized Data f kpp) {j : ℕ} (hj : j * kpp < f.count Data)
    (hlast : f.count Data ≤ (j + 1) * kpp) :
    j * kpp * Record.sizeof Data + (indexedStore Data f kpp).index.lastPageSize = f.size := by
  have hmul : ∀ n, n * kpp * Record.sizeof Data = n * (Record.sizeof Data * kpp) := fun n => by
    rw [Nat.mul_assoc, Nat.mul_comm kpp]
  have hlow : j * (Record.sizeof Data * kpp) < f.size := by
    rw [← hmul, File.size_eq h.size_mod]
    exact Nat.mul_lt_mul_of_pos_right hj Record.sizeof_pos
  have hhigh : f.size ≤ (j + 1) * (Record.sizeof Data * kpp) := by
    rw [← hmul, File.size_eq h.size_mod]
    exact Nat.mul_le_mul_right _ hlast
  rw [hmul]
  exact lastPageSize_eq hlow hhigh

/-- First keys increase. -/
theorem Paged.firstKey_lt (h : Paged Data f kpp) {i j : ℕ} (hij : i < j)
    (hj : j * kpp < f.count Data) : firstKey Data f kpp i < firstKey Data f kpp j :=
  h.keys _ _ (Nat.mul_lt_mul_of_pos_right hij h.kpp_pos) hj

omit [LinearOrder Key] in
theorem begins_of_le {i j : ℕ} (hij : i ≤ j) (hj : j * kpp < f.count Data) :
    i * kpp < f.count Data := (Nat.mul_le_mul_right kpp hij).trans_lt hj

theorem Paged.firstKey_le (h : Paged Data f kpp) {i j : ℕ} (hij : i ≤ j)
    (hj : j * kpp < f.count Data) : firstKey Data f kpp i ≤ firstKey Data f kpp j := by
  rcases hij.eq_or_lt with rfl | hlt
  · exact le_rfl
  · exact (h.firstKey_lt hlt hj).le

/-- **The page of a key** begins at or before the key, and the next one behind it. -/
theorem isPage_iff (h : Paged Data f kpp) {k : Key} {j : ℕ} : IsPage Data f kpp k j ↔
    j * kpp < f.count Data ∧ firstKey Data f kpp j ≤ k ∧
      ((j + 1) * kpp < f.count Data → k < firstKey Data f kpp (j + 1)) := by
  constructor
  · intro hj
    refine ⟨hj.begins, hj.key_le, fun hnext => not_le.mp fun hle => ?_⟩
    exact absurd (h.firstKey_lt (Nat.lt_succ_self j) hnext) (hj.greatest _ hnext hle).not_gt
  · rintro ⟨hj, hle, hnext⟩
    have hmost : ∀ i, i * kpp < f.count Data → firstKey Data f kpp i ≤ k → i ≤ j := by
      intro i hi hik
      by_contra hlt
      have hji : j + 1 ≤ i := not_le.mp hlt
      have hkey := (hnext (begins_of_le hji hi)).trans_le (h.firstKey_le hji hi)
      exact absurd hik hkey.not_ge
    exact ⟨hj, hle, fun i hi hik => h.firstKey_le (hmost i hi hik) hj,
      fun i hi heq => hmost i hi (heq.trans_le hle)⟩

/-- What `find_page` can give. -/
inductive PageFound (Data : Type) [Record Key Data] (f : File) (kpp : ℕ) (k : Key) :
    Option (ℕ × ℕ) → Prop
  /-- The key is the first of its page: the page is taken to be a whole one. -/
  | exact (j : ℕ) (hj : j * kpp < f.count Data)
      (hkey : Record.key (f.record Data (j * kpp)) = k) :
      PageFound Data f kpp k (some (j * kpp * Record.sizeof Data,
        j * kpp * Record.sizeof Data + Record.sizeof Data * kpp))
  /-- The key lies between two first keys. -/
  | between (j : ℕ) (hnext : (j + 1) * kpp < f.count Data)
      (hlow : Record.key (f.record Data (j * kpp)) < k)
      (hhigh : k < Record.key (f.record Data ((j + 1) * kpp))) :
      PageFound Data f kpp k (some (j * kpp * Record.sizeof Data,
        j * kpp * Record.sizeof Data + Record.sizeof Data * kpp))
  /-- The key lies above all first keys. -/
  | last (j : ℕ) (hj : j * kpp < f.count Data) (hlast : f.count Data ≤ (j + 1) * kpp)
      (hlow : Record.key (f.record Data (j * kpp)) < k) :
      PageFound Data f kpp k (some (j * kpp * Record.sizeof Data, f.size))
  /-- The key lies below all keys. -/
  | before (hhigh : k < Record.key (f.record Data 0)) : PageFound Data f kpp k none

/-- **What `find_page` gives.** -/
theorem findPage_cases (h : Paged Data f kpp) (hne : 0 < f.count Data) (k : Key) :
    PageFound Data f kpp k ((pagedStore Data f kpp).index.findPage k) := by
  have hcases := findsPage h.sized k
  rw [indexedStore_eq h] at hcases
  generalize (pagedStore Data f kpp).index.findPage k = found at hcases
  cases hcases with
  | whole j hj hge =>
    obtain ⟨-, hle, hnext⟩ := (isPage_iff h).mp hj
    rcases hle.eq_or_lt with heq | hlt
    · exact .exact j hj.begins heq
    · obtain ⟨i, hi, hki⟩ := hge
      have hji : j + 1 ≤ i := by
        by_contra hij
        exact absurd (hlt.trans_le hki) (h.firstKey_le (by omega) hj.begins).not_gt
      exact .between j (begins_of_le hji hi) hlt (hnext (begins_of_le hji hi))
  | last j hj hlt =>
    have hlast : f.count Data ≤ (j + 1) * kpp := by
      by_contra hnext
      have hnext := not_le.mp hnext
      exact absurd (hlt _ hnext) (((isPage_iff h).mp hj).2.2 hnext).not_gt
    rw [h.sized.last_page_end hj.begins hlast]
    exact .last j hj.begins hlast (hlt j hj.begins)
  | before hgt =>
    refine .before ?_
    have hfirst := hgt 0 (by omega)
    rwa [firstKey, Nat.zero_mul] at hfirst

end TpAdvanced
