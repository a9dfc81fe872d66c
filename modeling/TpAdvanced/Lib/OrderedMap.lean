import Mathlib.Order.Lattice
import Mathlib.Tactic.Common

/-!
# Ordered maps

`std::map` as the list of its entries in the order of their keys; an iterator is a
position in it, and the length of the list is `end()`.
-/

namespace OrderedMap

variable {κ ν : Type*} [LinearOrder κ]

/-- `m[k] = v`. -/
def insert : List (κ × ν) → κ → ν → List (κ × ν)
  | [], k, v => [(k, v)]
  | e :: m, k, v =>
    if k < e.1 then (k, v) :: e :: m
    else if e.1 < k then e :: insert m k v
    else (e.1, v) :: m

/-- `lower_bound`: the first entry whose key is not less than `k`. -/
def lowerBound (m : List (κ × ν)) (k : κ) : ℕ := m.findIdx fun e => !decide (e.1 < k)

/-- The entries are in the order of their keys. -/
def Sorted (m : List (κ × ν)) : Prop := m.Pairwise fun e e' => e.1 < e'.1

variable {m : List (κ × ν)} {k : κ}

/-! ### Entries -/

/-- An insertion replaces the entry under the key. -/
theorem mem_insert (hm : Sorted m) {v : ν} {e : κ × ν} :
    e ∈ insert m k v ↔ e = (k, v) ∨ e ∈ m ∧ e.1 ≠ k := by
  induction m with
  | nil => simp [insert]
  | cons d m ih =>
    obtain ⟨hd, hm⟩ := List.pairwise_cons.mp hm
    rw [insert]
    rcases lt_trichotomy k d.1 with hlt | rfl | hgt
    · have hne : ∀ e' ∈ d :: m, e'.1 ≠ k := by
        intro e' he'
        rcases List.mem_cons.mp he' with rfl | he'
        · exact hlt.ne'
        · exact (hlt.trans (hd e' he')).ne'
      rw [if_pos hlt, List.mem_cons]
      exact or_congr_right ⟨fun he => ⟨he, hne e he⟩, And.left⟩
    · have hne : ∀ e' ∈ m, e'.1 ≠ d.1 := fun e' he' => (hd e' he').ne'
      rw [if_neg (lt_irrefl _), if_neg (lt_irrefl _), List.mem_cons, List.mem_cons, or_and_right]
      refine or_congr_right ⟨fun he => .inr ⟨he, hne e he⟩, ?_⟩
      rintro (⟨rfl, hself⟩ | ⟨he, -⟩)
      · exact absurd rfl hself
      · exact he
    · rw [if_neg hgt.not_gt, if_pos hgt, List.mem_cons, List.mem_cons, ih hm, or_and_right,
        or_left_comm]
      refine or_congr_right (or_congr_left ⟨?_, And.left⟩)
      rintro rfl
      exact ⟨rfl, hgt.ne⟩

theorem Sorted.insert (hm : Sorted m) (k : κ) (v : ν) : Sorted (insert m k v) := by
  induction m with
  | nil => exact List.pairwise_singleton _ _
  | cons d m ih =>
    obtain ⟨hd, hm'⟩ := List.pairwise_cons.mp hm
    rw [OrderedMap.insert]
    rcases lt_trichotomy k d.1 with hlt | rfl | hgt
    · rw [if_pos hlt]
      refine List.pairwise_cons.mpr ⟨fun e he => ?_, hm⟩
      rcases List.mem_cons.mp he with rfl | he
      · exact hlt
      · exact hlt.trans (hd e he)
    · rw [if_neg (lt_irrefl _), if_neg (lt_irrefl _)]
      exact List.pairwise_cons.mpr ⟨hd, hm'⟩
    · rw [if_neg hgt.not_gt, if_pos hgt]
      refine List.pairwise_cons.mpr ⟨fun e he => ?_, ih hm'⟩
      rcases (mem_insert hm').mp he with rfl | ⟨he, -⟩
      · exact hgt
      · exact hd e he

/-- A key beyond the others goes to the end. -/
theorem insert_of_forall_lt (h : ∀ e ∈ m, e.1 < k) (v : ν) : insert m k v = m ++ [(k, v)] := by
  induction m with
  | nil => rfl
  | cons e m ih =>
    have he := h e List.mem_cons_self
    rw [insert, if_neg (lt_asymm he), if_pos he, ih fun e' he' => h e' (List.mem_cons_of_mem e he')]
    rfl

/-! ### Bounds -/

theorem lowerBound_le_length : lowerBound m k ≤ m.length := List.findIdx_le_length

theorem lt_of_lt_lowerBound {i : ℕ} {e : κ × ν} (h : i < lowerBound m k) (he : m[i]? = some e) :
    e.1 < k := by
  obtain ⟨hi, rfl⟩ := List.getElem?_eq_some_iff.mp he
  have hnot := List.not_of_lt_findIdx h
  simpa only [Bool.not_eq_false', decide_eq_true_eq] using hnot

theorem le_of_lowerBound {e : κ × ν} (he : m[lowerBound m k]? = some e) : k ≤ e.1 := by
  obtain ⟨hi, rfl⟩ := List.getElem?_eq_some_iff.mp he
  have hp := List.findIdx_getElem (w := hi)
  rw [Bool.not_eq_true', decide_eq_false_iff_not] at hp
  exact not_lt.mp hp

/-- Without an entry at the bound all keys are smaller. -/
theorem lt_of_lowerBound_none (h : m[lowerBound m k]? = none) {e : κ × ν} (he : e ∈ m) :
    e.1 < k := by
  obtain ⟨i, hi⟩ := List.mem_iff_getElem?.mp he
  have hlen := (List.getElem?_eq_some_iff.mp hi).1
  have hbound := List.getElem?_eq_none_iff.mp h
  exact lt_of_lt_lowerBound (by omega) hi

/-- Entries further on have greater keys. -/
theorem Sorted.le_of_le (hm : Sorted m) {i j : ℕ} {e e' : κ × ν} (hi : m[i]? = some e)
    (hj : m[j]? = some e') (hle : i ≤ j) : e.1 ≤ e'.1 := by
  obtain ⟨hlen, rfl⟩ := List.getElem?_eq_some_iff.mp hi
  obtain ⟨hlen', rfl⟩ := List.getElem?_eq_some_iff.mp hj
  rcases hle.eq_or_lt with rfl | hlt
  · exact le_rfl
  · exact (List.pairwise_iff_getElem.mp hm i j hlen hlen' hlt).le

/-- The entry at the bound is the smallest of those that are not less than `k`. -/
theorem Sorted.lowerBound_min (hm : Sorted m) {e e' : κ × ν} (he : m[lowerBound m k]? = some e)
    (he' : e' ∈ m) (hk : k ≤ e'.1) : e.1 ≤ e'.1 := by
  obtain ⟨i, hi⟩ := List.mem_iff_getElem?.mp he'
  have hge : lowerBound m k ≤ i := by
    by_contra hlt
    exact absurd (lt_of_lt_lowerBound (not_le.mp hlt) hi) hk.not_gt
  exact hm.le_of_le he hi hge

/-- The entry in front of the bound is the greatest of those that are less than `k`. -/
theorem Sorted.before_lowerBound_max (hm : Sorted m) {e e' : κ × ν}
    (he : m[lowerBound m k - 1]? = some e) (he' : e' ∈ m) (hk : e'.1 < k) : e'.1 ≤ e.1 := by
  obtain ⟨i, hi⟩ := List.mem_iff_getElem?.mp he'
  have hlt : i < lowerBound m k := by
    by_contra hge
    have hlen := (List.getElem?_eq_some_iff.mp hi).1
    have hat := List.getElem?_eq_getElem (lt_of_le_of_lt (not_lt.mp hge) hlen)
    have hle := (le_of_lowerBound hat).trans (hm.le_of_le hat hi (not_lt.mp hge))
    exact absurd hk hle.not_gt
  exact hm.le_of_le hi he (by omega)

end OrderedMap
