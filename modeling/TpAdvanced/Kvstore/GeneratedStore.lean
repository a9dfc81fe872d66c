import TpAdvanced.Kvstore.Generator
import TpAdvanced.Kvstore.PageBounds
import TpAdvanced.Kvstore.ReadBounds

/-!
# The store of a generated file

The example server opens a file of the generator with as many records as it is told, in
pages of 1024.  It finds every record but perhaps one: the first one of the last page,
if this page has no more than half of the records that a page can have.  As the key of
this record finds a whole page, the search begins behind the end of the file.

## Main definitions

* `found` — what the store gives for a key.
* `OfGenerated` — the mapping of the first records of a generated file.

## Main results

* `generated_store_finds` — **what the store of a generated file finds.**
-/

namespace TpAdvanced

open CText While File

namespace KvstoreHttp

/-- The number of keys in a page, as the example server has it. -/
def keysPerIndexPage : ℕ := 1024

/-- The index of the first record of the last page. -/
def lastPageBegin (n : ℕ) : ℕ := (n - 1) / keysPerIndexPage * keysPerIndexPage

/-- The record is the first one of a last page that has at most half of the records of a
page. -/
def Overlooked (n i : ℕ) : Prop := i = lastPageBegin n ∧ n ≤ lastPageBegin n + keysPerIndexPage / 2

instance (n i : ℕ) : Decidable (Overlooked n i) := inferInstanceAs (Decidable (_ ∧ _))

theorem lastPageBegin_lt {n : ℕ} (hn : 1 ≤ n) : lastPageBegin n < n :=
  (Nat.div_mul_le_self _ _).trans_lt (by omega)

theorem lastPageBegin_eq {n j : ℕ} (hj : j * keysPerIndexPage < n)
    (hmid : n ≤ j * keysPerIndexPage + keysPerIndexPage / 2) :
    lastPageBegin n = j * keysPerIndexPage := by
  have hpage : keysPerIndexPage = 1024 := rfl
  rw [hpage] at hj hmid
  have hquot : (n - 1) / 1024 = j := by omega
  rw [lastPageBegin, hpage, hquot]

/-- What the store gives for a key, when its file has the first `n` records of a generated
one.  The zeros behind the file are taken for a record with the key 0. -/
def found (step n key : ℕ) : Option Data :=
  if step ∣ key ∧ key / step < n then
    if Overlooked n (key / step) then if key = 0 then some Data.zero else none
    else some ⟨key, filling⟩
  else none

/-- The mapping of the first `n` records of a generated file. -/
structure OfGenerated (step n : ℕ) (f : File) : Prop where
  size : f.size = n * 32
  record : ∀ i < n, f.record Data i = ⟨i * step, filling⟩

variable {keys step n key i : ℕ} {f : File}

theorem ofGenerated_contents {mapped : Bytes} {padding : ℕ → Bytes} (hkeys : n ≤ keys)
    (hlast : (n - 1) * step < 2 ^ 64) (hmapped : mapped.length = keys * 32)
    (hpadding : ∀ p, (padding p).length = 4)
    (hf : f.data = (contents mapped padding (plainWrites keys step)).take (n * 32)) :
    OfGenerated step n f where
  size := by
    rw [File.size, hf, List.length_take, length_contents step hmapped hpadding]
    omega
  record i hi := by
    have hlen : f.data.length = n * 32 := by
      rw [hf, List.length_take, length_contents step hmapped hpadding]
      omega
    have hwhole : recordIn f.data i =
        recordIn (contents mapped padding (plainWrites keys step)) i := by
      rw [hf, recordIn, recordIn, List.block, List.block, List.drop_take, List.take_take,
        Nat.min_eq_left (by omega)]
    have hkey : i * step < 2 ^ 64 := (Nat.mul_le_mul_right step (by omega)).trans_lt hlast
    rw [record_eq (by omega), hwhole, recordIn_contents step hmapped hpadding (by omega),
      plainWrite, Nat.mod_eq_of_lt hkey]

namespace OfGenerated

variable (h : OfGenerated step n f)

include h

theorem count : f.count Data = n := by
  rw [File.count, h.size]
  exact Nat.mul_div_cancel n (by decide)

theorem record_key (hi : i < n) : Record.key (f.record Data i) = i * step := by
  rw [h.record i hi]
  rfl

theorem keysIncrease (hstep : 1 ≤ step) : f.KeysIncrease Data := by
  intro i j hij hj
  rw [h.count] at hj
  rw [h.record_key (hij.trans hj), h.record_key hj]
  exact Nat.mul_lt_mul_of_pos_right hij hstep

theorem paged (hstep : 1 ≤ step) : Paged Data f keysPerIndexPage where
  size_mod := by
    rw [h.size]
    exact Nat.mul_mod_left n 32
  keys := h.keysIncrease hstep
  kpp_pos := by decide
  page_lt := by decide

/-- The scan finds the records. -/
theorem scan (hstep : 1 ≤ step) :
    f.scan Data key = if step ∣ key ∧ key / step < n then some ⟨key, filling⟩ else none := by
  split_ifs with hkey
  · obtain ⟨⟨i, rfl⟩, hi⟩ := hkey
    rw [Nat.mul_div_cancel_left i hstep] at hi
    have hscan := scan_of_record (h.keysIncrease hstep) (h.count.symm ▸ hi)
    rwa [h.record_key hi, h.record i hi, Nat.mul_comm i step] at hscan
  · refine scan_eq_none fun i hi heq => hkey ?_
    rw [h.count] at hi
    rw [h.record_key hi] at heq
    rw [← heq, Nat.mul_div_cancel i hstep]
    exact ⟨Nat.dvd_mul_left step i, hi⟩

/-- The record that is overlooked is the only one that is misread. -/
theorem misread_iff (hn : 1 ≤ n) (hstep : 1 ≤ step) : Misread Data f keysPerIndexPage key ↔
    (step ∣ key ∧ key / step < n) ∧ Overlooked n (key / step) := by
  have hzero : Record.key (zeroRecord Data) = 0 := by decide +kernel
  simp only [Misread, h.count, hzero]
  constructor
  · rintro (⟨j, hj, rfl, hmid, -⟩ | ⟨rfl, hall⟩)
    · rw [h.record_key hj, Nat.mul_div_cancel _ hstep, Overlooked, lastPageBegin_eq hj hmid]
      exact ⟨⟨Nat.dvd_mul_left _ _, hj⟩, rfl, hmid⟩
    · exact absurd (hall 0 hn) (Nat.not_lt_zero _)
  · rintro ⟨⟨⟨i, rfl⟩, hi⟩, hbegin, hmid⟩
    rw [Nat.mul_div_cancel_left i hstep] at hi hbegin
    subst hbegin
    refine .inl ⟨(n - 1) / keysPerIndexPage, hi, ?_, hmid, Nat.zero_le _, ?_⟩
    · rw [← lastPageBegin, h.record_key hi, Nat.mul_comm]
    · rw [← lastPageBegin, h.record _ hi]
      exact fun heq => absurd (congrArg Data.data heq) (show ¬ filling = _ by decide +kernel)

/-- The page that begins with the key. -/
theorem isPage_begin (hstep : 1 ≤ step) {j : ℕ} (hj : j * keysPerIndexPage < n) :
    IsPage Data f keysPerIndexPage (j * keysPerIndexPage * step) j := by
  refine (isPage_iff (h.paged hstep)).mpr ⟨h.count.symm ▸ hj, ?_, fun hnext => ?_⟩
  · exact (h.record_key hj).le
  · rw [firstKey, h.record_key (h.count ▸ hnext)]
    exact Nat.mul_lt_mul_of_pos_right (Nat.mul_lt_mul_of_pos_right (Nat.lt_succ_self j) (by decide))
      hstep

/-- The key that is overlooked: the first probe lies behind the file, where the record has
the key 0. -/
theorem gets_overlooked (hstep : 1 ≤ step) {j : ℕ} (hj : j * keysPerIndexPage < n)
    (hmid : n ≤ j * keysPerIndexPage + keysPerIndexPage / 2) :
    (pagedStore Data f keysPerIndexPage).Gets (j * keysPerIndexPage * step)
      (if j * keysPerIndexPage * step = 0 then some Data.zero else none) := by
  have hpaged := h.paged hstep
  have hcount := h.count
  have hpage := h.isPage_begin hstep hj
  have hfound := findPage_firstKey hpaged.sized hpage
  rw [indexedStore_eq hpaged, firstKey, h.record_key hj] at hfound
  have hsearch := searchable_whole hpaged.sized hpage
    (⟨f.readAt, fun _ _ => rfl⟩ : Memory Data f)
  have hlast : j * keysPerIndexPage + keysPerIndexPage + 1 < 2 ^ 64 := by
    have hlt := f.size_lt
    have hsize := h.size
    have hpage : keysPerIndexPage = 1024 := rfl
    rw [File.size] at hsize
    omega
  rw [gets_iff_of_page hfound (Nat.mul_div_cancel _ (sizeof_pos Data))
    (page_end_div Data _ keysPerIndexPage)]
  split_ifs with hkey
  · -- the key 0 is that of the zeros
    refine ⟨1, ?_⟩
    have hprobe : f.record Data (j * keysPerIndexPage + (j * keysPerIndexPage + keysPerIndexPage -
        j * keysPerIndexPage) / 2) = Data.zero := by
      rw [record_of_count_le hpaged.size_mod (by rwa [hcount, Nat.add_sub_cancel_left])]
      decide +kernel
    refine run_succ_of_inr ?_ 0
    rw [show (pagedStore Data f keysPerIndexPage).file = f from rfl,
      findStep_of_le (Nat.le_add_right _ _) hsearch.fits]
    simp only [hprobe]
    rw [hkey]
    rfl
  · -- the search goes right, and stays behind the file
    obtain ⟨r, hr⟩ := @Searchable.ends _ _ _ _ _ _ _ _ _ hsearch hlast
      (j * keysPerIndexPage, j * keysPerIndexPage + keysPerIndexPage)
      ⟨le_rfl, Nat.le_add_right _ _, le_rfl⟩
    have hzero : Record.key (zeroRecord Data) < j * keysPerIndexPage * step := by
      rw [show Record.key (zeroRecord Data) = 0 by decide +kernel]
      exact Nat.pos_of_ne_zero hkey
    rw [returns_none_of_zero_lt hpaged (hcount.symm ▸ hj) (hcount.symm ▸ hmid) hzero hr] at hr
    exact hr

/-- **What the store finds.** -/
theorem gets_found (hn : 1 ≤ n) (hstep : 1 ≤ step) :
    (pagedStore Data f keysPerIndexPage).Gets key (found step n key) := by
  have hiff := gets_scan_paged_iff (h.paged hstep) (h.count.symm ▸ hn) key
  rw [h.misread_iff hn hstep, h.scan hstep] at hiff
  unfold found
  split_ifs with hkey hover hzero
  · obtain ⟨⟨i, rfl⟩, hi⟩ := hkey
    rw [Nat.mul_div_cancel_left i hstep] at hi hover
    obtain ⟨rfl, hmid⟩ := hover
    have hgets := h.gets_overlooked hstep hi hmid
    rwa [← lastPageBegin, Nat.mul_comm, if_pos hzero] at hgets
  · obtain ⟨⟨i, rfl⟩, hi⟩ := hkey
    rw [Nat.mul_div_cancel_left i hstep] at hi hover
    obtain ⟨rfl, hmid⟩ := hover
    have hgets := h.gets_overlooked hstep hi hmid
    rwa [← lastPageBegin, Nat.mul_comm, if_neg hzero] at hgets
  · rw [if_pos hkey] at hiff
    exact hiff.mpr fun hover' => hover hover'.2
  · rw [if_neg hkey] at hiff
    exact hiff.mpr fun hover => hkey hover.1

/-- **The keys of all pages but the last one are looked up inside of the file**, whatever
lies behind it. -/
theorem readsInside (hn : 1 ≤ n) (hstep : 1 ≤ step) (hkey : key < lastPageBegin n * step)
    (m : Memory Data f) :
    ReadsInside m keysPerIndexPage (pagedStore Data f keysPerIndexPage) key := by
  have hpaged := h.paged hstep
  have hbegin : (n - 1) / keysPerIndexPage * keysPerIndexPage < f.count Data :=
    h.count.symm ▸ lastPageBegin_lt hn
  have hfirst : firstKey Data f keysPerIndexPage ((n - 1) / keysPerIndexPage) =
      lastPageBegin n * step := h.record_key (lastPageBegin_lt hn)
  rw [← indexedStore_eq hpaged]
  refine ⟨fun o => constructorReads_inside hpaged.sized, fun o ho => ?_, fun hend => ?_⟩
  · have hcases := findsPage hpaged.sized key
    generalize hfound : (indexedStore Data f keysPerIndexPage).index.findPage key = found at hcases
    cases hcases with
    | last j hj hlt => exact absurd (hfirst ▸ hlt _ hbegin) hkey.not_gt
    | before hgt =>
      obtain ⟨offsetBegin, offsetEnd, w, hpage, -⟩ := ho
      cases hfound.symm.trans hpage
    | whole j hj hge =>
      obtain ⟨w, hv, hle, rfl⟩ := (getReads_iff_of_whole m hfound o).mp ho
      refine probe_inside (searchable_whole hpaged.sized hj m) hpaged.size_mod (fun hout => ?_)
        hv hle
      -- the page of the key is in front of the last one
      have hless : j < (n - 1) / keysPerIndexPage := by
        by_contra hge
        have hkeys := hpaged.firstKey_le (Nat.le_of_not_lt hge) hj.begins
        rw [hfirst] at hkeys
        exact absurd (hkeys.trans hj.key_le) hkey.not_ge
      have hpages := Nat.mul_le_mul_right keysPerIndexPage (Nat.succ_le_of_lt hless)
      rw [Nat.succ_mul] at hpages
      exact absurd (hpages.trans_lt hbegin) hout.not_gt
  · exact absurd (hfirst ▸ (dereferencesEnd_iff hpaged.sized).mp hend _ hbegin) hkey.not_gt

end OfGenerated

/-- The first `n` of two records, whose keys are 0 and 100. -/
def firstOfTwo (n : ℕ) : File where
  data := (contents (List.replicate 64 0) (fun _ => List.replicate 4 0) (plainWrites 2 100)).take
    (n * 32)
  size_lt := by
    have hlen := @length_contents (List.replicate 64 0) (fun _ => List.replicate 4 0) 2 100 rfl
      fun _ => rfl
    rw [List.length_take, hlen]
    exact (Nat.min_le_right _ _).trans_lt (by norm_num)

end KvstoreHttp

end TpAdvanced
