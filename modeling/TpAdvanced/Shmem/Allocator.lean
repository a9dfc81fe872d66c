import TpAdvanced.Lib.SizeT
import Mathlib.Algebra.Order.Ring.Int

/-!
# The shared-memory allocator

A `SharedRegion` is an anonymous shared mapping with a header in front; the header
has a bump pointer `begin` and a limit `end`, which all allocators attached to the
region share.  Every call runs under the semaphore of the region, so a run of any
number of processes is a list of calls.

## Main definitions

* `Mapping`, `SharedRegionView` — the mapping and its header.
* `PointerDifference` — the difference of two pointers, in elements.
* `SharedRegionView.allocate`, `SharedRegionView.deallocate` — the allocator.
-/

namespace TpAdvanced

/-- A type of elements, of which the allocator needs the size. -/
structure ElementType where
  sizeof : ℕ
  sizeof_pos : 0 < sizeof
  deriving DecidableEq

/-- `sem_t`. -/
def semType : ElementType := ⟨32, Nat.zero_lt_succ 31⟩

/-- The difference of two pointers in elements, from the distance in bytes.  The
language defines it for whole numbers of elements; what it is for other distances
is up to the compiler. -/
class PointerDifference where
  elements : ElementType → ℤ → ℤ
  exact : ∀ T (q : ℤ), elements T (q * T.sizeof) = q

/-- The difference by an arithmetic shift, as for sizes that are powers of two. -/
@[reducible] def floorDifference : PointerDifference where
  elements T d := d / T.sizeof
  exact T q := Int.mul_ediv_cancel q (Int.natCast_ne_zero.mpr T.sizeof_pos.ne')

/-- `sizeof(SharedRegionView) + sizeof(sem_t)`. -/
def headerSize : ℕ := 24 + 32

/-- What `mmap` has returned.  User addresses lie in the lower half of the address
space. -/
structure Mapping where
  base : ℕ
  size : ℕ
  size_pos : 0 < size
  top_lt : base + headerSize + size < 2 ^ 63

structure SharedRegionView where
  begin_ : ℕ
  end_ : ℕ
  deriving DecidableEq, Repr

/-- The header that the constructor of `SharedRegion` writes. -/
def Mapping.view (m : Mapping) : SharedRegionView where
  begin_ := m.base + headerSize
  end_ := m.base + headerSize + m.size

/-- `std::bad_alloc`. -/
inductive BadAlloc
  | badAlloc
  deriving DecidableEq, Repr

/-- What an allocator is called for. -/
inductive AllocatorCall
  | allocate (T : ElementType) (n : UInt64)
  | deallocate (T : ElementType) (p : ℕ) (n : UInt64)
  deriving DecidableEq

namespace SharedRegionView

/-- The distance from `end` to `begin` in bytes, a signed 64-bit number. -/
def distance (v : SharedRegionView) : ℤ := Int.bmod (v.begin_ - v.end_) (2 ^ 64)

/-- `n * sizeof(value_type)`. -/
def bytes (T : ElementType) (n : UInt64) : ℕ := SizeT.mul n.toNat T.sizeof

/-- `state_begin() - state_end() < n`, the difference taken as an unsigned number. -/
def refuses [PointerDifference] (v : SharedRegionView) (T : ElementType) (n : UInt64) : Bool :=
  decide ((PointerDifference.elements T v.distance % 2 ^ 64).toNat < n.toNat)

/-- `allocate`. -/
def allocate [PointerDifference] (v : SharedRegionView) (T : ElementType) (n : UInt64) :
    Except BadAlloc ℕ × SharedRegionView :=
  if v.refuses T n then (.error .badAlloc, v)
  else (.ok v.begin_, { v with begin_ := SizeT.add v.begin_ (bytes T n) })

/-- `deallocate`. -/
def deallocate (v : SharedRegionView) (T : ElementType) (p : ℕ) (n : UInt64) : SharedRegionView :=
  if SizeT.sub v.end_ (bytes T n) = p then { v with begin_ := SizeT.sub v.begin_ (bytes T n) }
  else v

/-- A call on the region. -/
def step [PointerDifference] (v : SharedRegionView) : AllocatorCall → Option SharedRegionView
  | .allocate T n => some (v.allocate T n).2
  | .deallocate T p n => some (v.deallocate T p n)

end SharedRegionView

/-- The bytes a call asks for. -/
def AllocatorCall.requested : AllocatorCall → ℕ
  | .allocate T n => n.toNat * T.sizeof
  | .deallocate _ _ _ => 0

namespace SharedRegionView

variable [PointerDifference] {v : SharedRegionView} {T : ElementType} {n : UInt64}

/-- **What `allocate` can do**: refuse and leave the region alone, or hand out the
bytes from the bump pointer on. -/
theorem allocate_cases (v : SharedRegionView) (T : ElementType) (n : UInt64) :
    (v.refuses T n = true ∧ v.allocate T n = (.error .badAlloc, v)) ∨
      (v.refuses T n = false ∧
        v.allocate T n = (.ok v.begin_, { v with begin_ := SizeT.add v.begin_ (bytes T n) })) := by
  unfold allocate
  cases v.refuses T n with
  | true => exact .inl ⟨rfl, rfl⟩
  | false => exact .inr ⟨rfl, rfl⟩

/-- At the end of the region only empty requests are served. -/
theorem refuses_of_begin_eq_end (h : v.begin_ = v.end_) : v.refuses T n = true ↔ 0 < n.toNat := by
  have hdist : v.distance = 0 * T.sizeof := by
    rw [distance, h]
    simp
  rw [refuses, hdist, PointerDifference.exact, decide_eq_true_eq]
  simp

end SharedRegionView

end TpAdvanced
