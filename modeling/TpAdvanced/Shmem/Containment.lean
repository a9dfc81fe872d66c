import TpAdvanced.Lib.Machine
import TpAdvanced.Shmem.Allocator

/-!
# Allocations and the mapping

`allocate` subtracts the pointers the wrong way round: it refuses when `begin - end`
elements, taken as an unsigned number, are fewer than requested.  In front of `end`
that number is about `2 ^ 64`, so hardly anything is refused there; and `end` lies
behind the mapping, by the size of the header.

## Main definitions

* `Mapping.Contains` — some bytes lie in the mapping, behind the header.
* `WithinMapping` — what a call is to do.
* `FitsOrRefused` — when it does that.

## Main results

* `refuses_iff` — when the check refuses.
* `allocations_within_iff` — **the calls of a run do what they are to do** exactly
  when each of them fits or is refused by the check.
-/

namespace TpAdvanced

open Machine SharedRegionView

/-- The bytes from `p` on lie in the mapping, behind the header. -/
def Mapping.Contains (m : Mapping) (p bytes : ℕ) : Prop :=
  m.base + headerSize ≤ p ∧ p + bytes ≤ m.base + m.size

section Calls

variable [PointerDifference] {m : Mapping} {v : SharedRegionView} {T : ElementType} {n : UInt64}

/-- What an allocation is to do: to hand out bytes of the mapping, and to throw when
those at the bump pointer are not. -/
structure AllocatesWithin (m : Mapping) (v : SharedRegionView) (T : ElementType) (n : UInt64) :
    Prop where
  contains : ∀ p, (v.allocate T n).1 = .ok p → m.Contains p (n.toNat * T.sizeof)
  throws : ¬ m.Contains v.begin_ (n.toNat * T.sizeof) →
    (v.allocate T n).1 = .error .badAlloc
  unchanged : (v.allocate T n).1 = .error .badAlloc → (v.allocate T n).2 = v

/-- What a call is to do. -/
def WithinMapping (m : Mapping) (v : SharedRegionView) : AllocatorCall → Prop
  | .allocate T n => AllocatesWithin m v T n
  | .deallocate _ _ _ => True

/-- The check refuses: `begin` is at `end` or less than `n` elements behind, or it is
in front and almost `2 ^ 64` elements are requested.  Where the distance is not a
whole number of elements it is up to the compiler. -/
def Refused (v : SharedRegionView) (T : ElementType) (n : UInt64) : Prop :=
  if (T.sizeof : ℤ) ∣ v.distance then
    0 ≤ v.distance ∧ v.distance / T.sizeof < n.toNat ∨
      v.distance < 0 ∧ 2 ^ 64 + v.distance / T.sizeof < n.toNat
  else v.refuses T n = true

/-- The bytes at the bump pointer lie in the mapping, or the check refuses. -/
def FitsOrRefused (m : Mapping) (v : SharedRegionView) : AllocatorCall → Prop
  | .allocate T n => m.Contains v.begin_ (n.toNat * T.sizeof) ∨ Refused v T n
  | .deallocate _ _ _ => True

omit [PointerDifference] in
theorem distance_bounds (v : SharedRegionView) : -2 ^ 63 ≤ v.distance ∧ v.distance < 2 ^ 63 := by
  unfold distance
  constructor
  · exact Int.le_bmod (by decide)
  · exact Int.bmod_lt (by decide)

/-- **When the check refuses.** -/
theorem refuses_iff : v.refuses T n = true ↔ Refused v T n := by
  unfold Refused
  split
  · rename_i hdvd
    obtain ⟨q, hq⟩ := hdvd
    have hpos : (0 : ℤ) < T.sizeof := Int.natCast_pos.mpr T.sizeof_pos
    have hdiv : v.distance / T.sizeof = q := by
      rw [hq, Int.mul_ediv_cancel_left q hpos.ne']
    have helements : PointerDifference.elements T v.distance = q := by
      rw [hq, Int.mul_comm, PointerDifference.exact]
    obtain ⟨hlow, hhigh⟩ := distance_bounds v
    rw [refuses, helements, hdiv, decide_eq_true_eq]
    rcases lt_or_ge q 0 with hneg | hnonneg
    · have hd : v.distance < 0 := by
        rw [hq]
        exact Int.mul_neg_of_pos_of_neg hpos hneg
      have hqlow : v.distance ≤ q := by
        rw [hq]
        exact mul_le_of_one_le_left hneg.le (Int.add_one_le_iff.mpr hpos)
      have hmod : q % 2 ^ 64 = q + 2 ^ 64 := by omega
      omega
    · have hd : 0 ≤ v.distance := by
        rw [hq]
        exact Int.mul_nonneg hpos.le hnonneg
      have hqhigh : q ≤ v.distance := by
        rw [hq]
        exact le_mul_of_one_le_left hnonneg (Int.add_one_le_iff.mpr hpos)
      have hmod : q % 2 ^ 64 = q := by omega
      omega
  · exact Iff.rfl

/-- **An allocation does what it is to do** exactly when it fits or is refused. -/
theorem allocatesWithin_iff :
    AllocatesWithin m v T n ↔ m.Contains v.begin_ (n.toNat * T.sizeof) ∨ Refused v T n := by
  rw [← refuses_iff]
  constructor
  · intro h
    by_cases hfits : m.Contains v.begin_ (n.toNat * T.sizeof)
    · exact .inl hfits
    · right
      have hthrows := h.throws hfits
      rcases allocate_cases v T n with ⟨hrefuses, -⟩ | ⟨-, hok⟩
      · exact hrefuses
      · rw [hok] at hthrows
        cases hthrows
  · intro h
    rcases allocate_cases v T n with ⟨-, hall⟩ | ⟨hserved, hall⟩
    · refine ⟨fun p hp => ?_, fun _ => ?_, fun _ => ?_⟩
      · rw [hall] at hp
        cases hp
      · rw [hall]
      · rw [hall]
    · have hfits := h.resolve_right (by simp [hserved])
      refine ⟨fun p hp => ?_, fun hno => absurd hfits hno, fun herr => ?_⟩
      · rw [hall] at hp
        cases hp
        exact hfits
      · rw [hall] at herr
        cases herr

/-- **The calls of a run** keep to the mapping exactly when each of them fits or is
refused. -/
theorem allocations_within_iff (m : Mapping) (calls : List AllocatorCall) :
    Along SharedRegionView.step (fun v c _ => WithinMapping m v c) m.view calls ↔
      Along SharedRegionView.step (fun v c _ => FitsOrRefused m v c) m.view calls := by
  have hcall : ∀ v c, WithinMapping m v c ↔ FitsOrRefused m v c := by
    intro v c
    cases c with
    | allocate T n => exact allocatesWithin_iff
    | deallocate T p n => exact Iff.rfl
  exact ⟨Along.mono fun v c _ => (hcall v c).mp, Along.mono fun v c _ => (hcall v c).mpr⟩

end Calls

/-- A mapping of a page, and one byte. -/
def onePage : Mapping where
  base := 4096
  size := 4096
  size_pos := by decide
  top_lt := by decide

def charType : ElementType := ⟨1, by decide⟩

/-- As many bytes as the mapping has are handed out, the header notwithstanding. -/
theorem allocate_past_mapping :
    ¬ ∀ (_ : PointerDifference) (m : Mapping) (calls : List AllocatorCall),
      Along SharedRegionView.step (fun v c _ => WithinMapping m v c) m.view calls := by
  intro h
  let _ := floorDifference
  obtain ⟨hwithin, -⟩ := h floorDifference onePage [.allocate charType 4096]
  have hcontains := hwithin.contains (4096 + 56) (by decide +kernel)
  revert hcontains
  unfold Mapping.Contains
  decide

end TpAdvanced
