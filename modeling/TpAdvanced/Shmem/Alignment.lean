import TpAdvanced.Shmem.Containment

/-!
# Alignment

All types share one bump pointer, and `allocate` hands out the bytes there whatever
they are to hold.  A block is aligned when the header and the blocks in front of it
leave the bump pointer at a multiple of its alignment, and blocks of one type may leave
it anywhere for the next.

## Main definitions

* `AlignedType` — an element type with its alignment.
* `PointerAligned` — what an allocation is to return.
* `SizesFit` — what the requests before it must come to.

## Main results

* `aligned_iff` — **the pointers of a run are aligned exactly when the sizes fit**.
-/

namespace TpAdvanced

open Machine SharedRegionView

/-- A type of elements with its alignment, a power of two that divides the size. -/
structure AlignedType extends ElementType where
  alignof : ℕ
  alignof_pow : ∃ k < 64, alignof = 2 ^ k
  alignof_dvd : alignof ∣ sizeof

/-- A request for so many elements. -/
structure AlignedRequest where
  T : AlignedType
  n : UInt64

section Calls

variable [PointerDifference]

/-- An allocation, by whatever allocator of the region. -/
def SharedRegionView.stepAligned (v : SharedRegionView) (c : AlignedRequest) :
    Option SharedRegionView :=
  v.step (.allocate c.T.toElementType c.n)

/-- The pointer that is returned, if any, is a multiple of `alignof(T)`. -/
def PointerAligned (v : SharedRegionView) (c : AlignedRequest) : Prop :=
  ∀ p, (v.allocate c.T.toElementType c.n).1 = .ok p → c.T.alignof ∣ p

/-- Where the bytes in front of a block end: `offset`, and the sizes of the requests that
have been served since.  That is a multiple of its alignment, for each that is served. -/
def SizesFit : SharedRegionView → ℕ → List AlignedRequest → Prop
  | _, _, [] => True
  | v, offset, c :: cs =>
    if v.refuses c.T.toElementType c.n then SizesFit v offset cs
    else c.T.alignof ∣ offset ∧
      SizesFit (v.allocate c.T.toElementType c.n).2 (offset + c.n.toNat * c.T.sizeof) cs

omit [PointerDifference] in
/-- The bump pointer wraps around at a multiple of every alignment. -/
theorem AlignedType.dvd_iff (T : AlignedType) {a b : ℕ} (h : a % 2 ^ 64 = b % 2 ^ 64) :
    T.alignof ∣ a ↔ T.alignof ∣ b := by
  obtain ⟨k, hk, hpow⟩ := T.alignof_pow
  have hdvd : T.alignof ∣ 2 ^ 64 := hpow ▸ Nat.pow_dvd_pow 2 (by omega)
  rw [← Nat.dvd_mod_iff hdvd, h, Nat.dvd_mod_iff hdvd]

/-- From a region whose bump pointer is at this offset. -/
theorem aligned_iff_of_offset {v : SharedRegionView} {offset : ℕ}
    (hoffset : v.begin_ % 2 ^ 64 = offset % 2 ^ 64) (calls : List AlignedRequest) :
    Along SharedRegionView.stepAligned (fun v c _ => PointerAligned v c) v calls ↔
      SizesFit v offset calls := by
  induction calls generalizing v offset with
  | nil => exact Iff.rfl
  | cons c calls ih =>
    have hstep : v.stepAligned c = some (v.allocate c.T.toElementType c.n).2 := rfl
    rw [along_cons_of_some hstep, SizesFit]
    rcases allocate_cases v c.T.toElementType c.n with ⟨hrefused, hall⟩ | ⟨hserved, hall⟩
    · have hnone : PointerAligned v c := by
        intro p hp
        rw [hall] at hp
        cases hp
      rw [if_pos hrefused, hall, ih hoffset]
      exact and_iff_right hnone
    · have hbegin : PointerAligned v c ↔ c.T.alignof ∣ v.begin_ := by
        unfold PointerAligned
        rw [hall]
        simp
      rw [if_neg (by simp [hserved]), hbegin, c.T.dvd_iff hoffset, hall]
      refine and_congr_right fun _ => ih ?_
      change SizeT.add v.begin_ (SharedRegionView.bytes c.T.toElementType c.n) % 2 ^ 64 = _
      rw [SizeT.add, SharedRegionView.bytes, SizeT.mul, Nat.mod_mod, Nat.add_mod_mod, Nat.add_mod,
        hoffset, ← Nat.add_mod]

/-- **The pointers of a run are aligned exactly when the sizes fit**: each request that
is served finds the header and the blocks in front of it at a multiple of its alignment. -/
theorem aligned_iff (m : Mapping) (calls : List AlignedRequest) :
    Along SharedRegionView.stepAligned (fun v c _ => PointerAligned v c) m.view calls ↔
      SizesFit m.view (m.base + headerSize) calls :=
  aligned_iff_of_offset rfl calls

end Calls

/-- `char`. -/
def alignedChar : AlignedType where
  toElementType := charType
  alignof := 1
  alignof_pow := ⟨0, by decide, rfl⟩
  alignof_dvd := one_dvd _

/-- `sem_t`. -/
def alignedSem : AlignedType where
  toElementType := semType
  alignof := 8
  alignof_pow := ⟨3, by decide, rfl⟩
  alignof_dvd := ⟨4, rfl⟩

/-- A string of one character, and the semaphore of a map behind it. -/
theorem semaphore_not_aligned :
    4096 ∣ onePage.base ∧ ¬ ∀ _ : PointerDifference,
      Along SharedRegionView.stepAligned (fun v c _ => PointerAligned v c) onePage.view
        [⟨alignedChar, 1⟩, ⟨alignedSem, 1⟩] := by
  refine ⟨by decide, fun h => ?_⟩
  let _ := floorDifference
  obtain ⟨-, hrest⟩ := h floorDifference
  obtain ⟨hsem, -⟩ := hrest _ rfl
  have hdvd : 8 ∣ 4153 := hsem 4153 (by decide +kernel)
  revert hdvd
  decide

end TpAdvanced
