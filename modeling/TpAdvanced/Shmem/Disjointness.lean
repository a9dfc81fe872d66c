import TpAdvanced.Lib.Machine
import TpAdvanced.Shmem.Allocator
import Mathlib.Data.List.Perm.Basic

/-!
# Live blocks

`deallocate` moves the bump pointer back when the block ends at `end`, wherever the
bump pointer is.  That is safe all the same: a block that ends at `end` was handed out
with the bump pointer moved to `end`, and there it stays as long as the block lives,
for at `end` only empty requests are served.

## Main definitions

* `Block`, `Heap` — the blocks handed out, and a region with those that are live.
* `HeapInv` — the invariant.

## Main results

* `heapInv_allocate`, `heapInv_deallocate` — a call keeps the invariant.
* `live_blocks_apart` — **live blocks are disjoint**.
-/

namespace TpAdvanced

open Machine SharedRegionView

/-- A block that was handed out: the type of its elements, where it begins, and how
many there are. -/
structure Block where
  T : ElementType
  p : ℕ
  n : UInt64
  deriving DecidableEq

namespace Block

def bytes (b : Block) : ℕ := b.n.toNat * b.T.sizeof

/-- No byte belongs to both blocks. -/
def Apart (b c : Block) : Prop :=
  ∀ a, ¬ ((b.p ≤ a ∧ a < b.p + b.bytes) ∧ (c.p ≤ a ∧ a < c.p + c.bytes))

theorem Apart.symm {b c : Block} (h : b.Apart c) : c.Apart b := fun a hboth => h a hboth.symm

theorem apart_of_le {b c : Block} (h : 0 < b.bytes → b.p + b.bytes ≤ c.p) : b.Apart c := by
  rintro a ⟨⟨hb, hb'⟩, hc, -⟩
  have hle := h (by omega)
  omega

/-- Of two blocks that are apart and not empty, one ends in front of the other. -/
theorem Apart.le_or_le {b c : Block} (h : b.Apart c) (hb : 0 < b.bytes) (hc : 0 < c.bytes) :
    b.p + b.bytes ≤ c.p ∨ c.p + c.bytes ≤ b.p := by
  by_contra hno
  push Not at hno
  apply h (max b.p c.p)
  omega

end Block

/-- A region with the blocks that are live. -/
structure Heap where
  view : SharedRegionView
  live : List Block

/-- The region of a mapping, before any call. -/
def Heap.start (m : Mapping) : Heap := ⟨m.view, []⟩

variable [PointerDifference]

/-- A call by some process.  Only live blocks are deallocated. -/
def Heap.step (s : Heap) : AllocatorCall → Option Heap
  | .allocate T n =>
    match s.view.allocate T n with
    | (.ok p, view) => some ⟨view, ⟨T, p, n⟩ :: s.live⟩
    | (.error _, view) => some ⟨view, s.live⟩
  | .deallocate T p n =>
    if ⟨T, p, n⟩ ∈ s.live then some ⟨s.view.deallocate T p n, s.live.erase ⟨T, p, n⟩⟩ else none

/-- **The invariant**: the live blocks are apart and end in front of the bump pointer,
and while one of them ends at `end`, so does the free memory begin there. -/
structure HeapInv (s : Heap) : Prop where
  apart : s.live.Pairwise Block.Apart
  le_begin : ∀ b ∈ s.live, 0 < b.bytes → b.p + b.bytes ≤ s.view.begin_
  at_end : ∀ b ∈ s.live, 0 < b.bytes → b.p + b.bytes = s.view.end_ → s.view.begin_ = s.view.end_

/-- The bytes the calls ask for. -/
def requestedBytes (calls : List AllocatorCall) : ℕ := (calls.map AllocatorCall.requested).sum

omit [PointerDifference] in
theorem requestedBytes_cons (c : AllocatorCall) (calls : List AllocatorCall) :
    requestedBytes (c :: calls) = c.requested + requestedBytes calls := by
  simp [requestedBytes]

omit [PointerDifference] in
theorem heapInv_start (m : Mapping) : HeapInv (Heap.start m) where
  apart := List.Pairwise.nil
  le_begin := by simp [Heap.start]
  at_end := by simp [Heap.start]

/-! ### Calls -/

variable {s s' : Heap} {T : ElementType} {n : UInt64} {p : ℕ}

omit [PointerDifference] in
theorem bytes_of_lt (h : n.toNat * T.sizeof < 2 ^ 64) :
    SharedRegionView.bytes T n = n.toNat * T.sizeof :=
  SizeT.mul_of_lt h

/-- What an allocation can do to the heap. -/
theorem Heap.step_allocate (hstep : s.step (.allocate T n) = some s') :
    s' = s ∨ (s.view.refuses T n = false ∧
      s' = ⟨{ s.view with begin_ := SizeT.add s.view.begin_ (SharedRegionView.bytes T n) },
        ⟨T, s.view.begin_, n⟩ :: s.live⟩) := by
  simp only [Heap.step] at hstep
  rcases allocate_cases s.view T n with ⟨-, hall⟩ | ⟨hserved, hall⟩
  · rw [hall] at hstep
    cases hstep
    exact .inl rfl
  · rw [hall] at hstep
    cases hstep
    exact .inr ⟨hserved, rfl⟩

/-- **An allocation keeps the invariant**, and moves the bump pointer by no more than
it asked for. -/
theorem heapInv_allocate (hinv : HeapInv s) (hfit : s.view.begin_ + n.toNat * T.sizeof < 2 ^ 64)
    (hstep : s.step (.allocate T n) = some s') :
    HeapInv s' ∧ s'.view.begin_ ≤ s.view.begin_ + n.toNat * T.sizeof := by
  rcases Heap.step_allocate hstep with rfl | ⟨hserved, rfl⟩
  · exact ⟨hinv, by omega⟩
  · have hbegin : SizeT.add s.view.begin_ (SharedRegionView.bytes T n) =
        s.view.begin_ + n.toNat * T.sizeof := by
      rw [bytes_of_lt (by omega), SizeT.add_of_lt hfit]
    rw [hbegin]
    have hbytes : Block.bytes ⟨T, s.view.begin_, n⟩ = n.toNat * T.sizeof := rfl
    refine ⟨⟨?_, ?_, ?_⟩, le_rfl⟩
    · refine List.pairwise_cons.mpr ⟨fun b hb => ?_, hinv.apart⟩
      exact (Block.apart_of_le (hinv.le_begin b hb)).symm
    · intro b hb hpos
      rcases List.mem_cons.mp hb with rfl | hb
      · exact le_rfl
      · have hle := hinv.le_begin b hb hpos
        simp only
        omega
    · intro b hb hpos hend
      rcases List.mem_cons.mp hb with rfl | hb
      · exact hend
      · -- a live block ends at `end`, and then only an empty request is served
        have hat := hinv.at_end b hb hpos hend
        have hzero : n.toNat = 0 := by
          by_contra hne
          have hrefuses := (refuses_of_begin_eq_end (T := T) hat).mpr (Nat.pos_of_ne_zero hne)
          rw [hserved] at hrefuses
          cases hrefuses
        simp only [hzero, Nat.zero_mul, Nat.add_zero]
        exact hat

omit [PointerDifference] in
/-- What a deallocation does to the bump pointer: nothing, or it moves it to the begin
of the block. -/
theorem deallocate_cases (hinv : HeapInv s) (hb : ⟨T, p, n⟩ ∈ s.live)
    (hbegin : s.view.begin_ < 2 ^ 64) (hend : s.view.end_ < 2 ^ 64) :
    s.view.deallocate T p n = s.view ∨
      (0 < n.toNat * T.sizeof ∧ p + n.toNat * T.sizeof = s.view.end_ ∧
        s.view.deallocate T p n = { s.view with begin_ := p }) := by
  rcases Nat.eq_zero_or_pos (n.toNat * T.sizeof) with hzero | hpos
  · -- an empty block: at most zero bytes are taken off
    left
    rw [SharedRegionView.deallocate, bytes_of_lt (by omega), hzero]
    split
    · rw [SizeT.sub_of_le (Nat.zero_le _) hbegin, Nat.sub_zero]
    · rfl
  · have hle : p + n.toNat * T.sizeof ≤ s.view.begin_ := hinv.le_begin ⟨T, p, n⟩ hb hpos
    rw [SharedRegionView.deallocate, bytes_of_lt (by omega)]
    split
    · rename_i heq
      have hlast : p + n.toNat * T.sizeof = s.view.end_ := by
        rw [SizeT.sub] at heq
        omega
      have hat : s.view.begin_ = s.view.end_ := hinv.at_end ⟨T, p, n⟩ hb hpos hlast
      have hnew : SizeT.sub s.view.begin_ (n.toNat * T.sizeof) = p := by
        rw [SizeT.sub_of_le (by omega) hbegin]
        omega
      rw [hnew]
      exact .inr ⟨hpos, hlast, rfl⟩
    · exact .inl rfl

omit [PointerDifference] in
theorem heapInv_erase (hinv : HeapInv s) (b : Block) : HeapInv ⟨s.view, s.live.erase b⟩ where
  apart := hinv.apart.sublist List.erase_sublist
  le_begin := fun c hc => hinv.le_begin c (List.mem_of_mem_erase hc)
  at_end := fun c hc => hinv.at_end c (List.mem_of_mem_erase hc)

/-- **A deallocation keeps the invariant.** -/
theorem heapInv_deallocate (hinv : HeapInv s) (hbegin : s.view.begin_ < 2 ^ 64)
    (hend : s.view.end_ < 2 ^ 64) (hstep : s.step (.deallocate T p n) = some s') :
    HeapInv s' ∧ s'.view.begin_ ≤ s.view.begin_ := by
  simp only [Heap.step] at hstep
  split at hstep
  · rename_i hb
    cases hstep
    rcases deallocate_cases hinv hb hbegin hend with heq | ⟨hpos, hlast, heq⟩
    · rw [heq]
      exact ⟨heapInv_erase hinv _, le_rfl⟩
    · -- the bump pointer moves to the begin of the block, the last that is not empty
      rw [heq]
      have hle : p + n.toNat * T.sizeof ≤ s.view.begin_ := hinv.le_begin ⟨T, p, n⟩ hb hpos
      have hat : s.view.begin_ = s.view.end_ := hinv.at_end ⟨T, p, n⟩ hb hpos hlast
      have hothers : ∀ c ∈ s.live.erase ⟨T, p, n⟩, 0 < c.bytes → c.p + c.bytes ≤ p := by
        intro c hc hcpos
        have hperm := hinv.apart.perm (List.perm_cons_erase hb) fun hbc => hbc.symm
        have hapart := (List.pairwise_cons.mp hperm).1 c hc
        have hcle := hinv.le_begin c (List.mem_of_mem_erase hc) hcpos
        rcases hapart.le_or_le hpos hcpos with hbefore | hafter
        · have hlast' : Block.p ⟨T, p, n⟩ + Block.bytes ⟨T, p, n⟩ = s.view.end_ := hlast
          omega
        · exact hafter
      refine ⟨⟨(heapInv_erase hinv _).apart, hothers, fun c hc hcpos hcend => ?_⟩,
        by simp only; omega⟩
      have hcle := hothers c hc hcpos
      simp only at hcend
      omega
  · cases hstep

/-! ### Runs -/

/-- The invariant of a run: whatever is still asked for, no pointer wraps around. -/
def HeapRunInv (s : Heap) (rest : List AllocatorCall) : Prop :=
  HeapInv s ∧ s.view.begin_ + requestedBytes rest < 2 ^ 64 ∧ s.view.end_ < 2 ^ 64

omit [PointerDifference] in
@[simp] theorem deallocate_end (v : SharedRegionView) : (v.deallocate T p n).end_ = v.end_ := by
  unfold SharedRegionView.deallocate
  split <;> rfl

theorem heapRunInv_step {c : AllocatorCall} {rest : List AllocatorCall}
    (hinv : HeapRunInv s (c :: rest)) (hstep : s.step c = some s') : HeapRunInv s' rest := by
  obtain ⟨hheap, hbound, hend⟩ := hinv
  rw [requestedBytes_cons] at hbound
  cases c with
  | allocate T n =>
    simp only [AllocatorCall.requested] at hbound
    obtain ⟨hheap', hle⟩ := heapInv_allocate hheap (by omega) hstep
    refine ⟨hheap', by omega, ?_⟩
    rcases Heap.step_allocate hstep with rfl | ⟨-, rfl⟩
    · exact hend
    · exact hend
  | deallocate T p n =>
    simp only [AllocatorCall.requested] at hbound
    obtain ⟨hheap', hle⟩ := heapInv_deallocate hheap (by omega) hend hstep
    refine ⟨hheap', by omega, ?_⟩
    simp only [Heap.step] at hstep
    split at hstep
    · cases hstep
      rw [deallocate_end]
      exact hend
    · cases hstep

/-- **Live blocks are disjoint**, in every run of calls that ask for less than
`2 ^ 63` bytes in total. -/
theorem live_blocks_apart {m : Mapping} {calls : List AllocatorCall}
    (htotal : requestedBytes calls < 2 ^ 63)
    (hrun : run Heap.step (Heap.start m) calls = some s') : s'.live.Pairwise Block.Apart := by
  have htop := m.top_lt
  have hstart : HeapRunInv (Heap.start m) (calls ++ []) := by
    rw [List.append_nil]
    refine ⟨heapInv_start m, ?_, ?_⟩
    · show m.base + headerSize + requestedBytes calls < 2 ^ 64
      omega
    · show m.base + headerSize + m.size < 2 ^ 64
      omega
  have hend : HeapRunInv s' [] := by
    refine invariant_along HeapRunInv ?_ hstart (Along.of_forall fun _ _ _ => trivial) hrun
    intro s c rest s₁ hinv _ hstep
    exact heapRunInv_step hinv hstep
  exact hend.1.apart

omit [PointerDifference] in
/-- A block that fills the region is freed, and two blocks of another type follow. -/
theorem live_blocks_apart_refill :
    letI := floorDifference
    ∃ s', run Heap.step (Heap.start ⟨4096, 4096, by decide, by decide⟩)
        [.allocate ⟨1, by decide⟩ 4096, .allocate ⟨1, by decide⟩ 1,
          .deallocate ⟨1, by decide⟩ 4152 4096, .allocate ⟨8, by decide⟩ 3,
          .allocate ⟨8, by decide⟩ 2] = some s' ∧
      s'.live.length = 2 ∧ s'.live.Pairwise Block.Apart := by
  let _ := floorDifference
  have hrun : run Heap.step (Heap.start ⟨4096, 4096, by decide, by decide⟩)
      [.allocate ⟨1, by decide⟩ 4096, .allocate ⟨1, by decide⟩ 1,
        .deallocate ⟨1, by decide⟩ 4152 4096, .allocate ⟨8, by decide⟩ 3,
        .allocate ⟨8, by decide⟩ 2] =
      some ⟨⟨4192, 8248⟩, [⟨⟨8, by decide⟩, 4176, 2⟩, ⟨⟨8, by decide⟩, 4152, 3⟩]⟩ := by
    rfl
  exact ⟨_, hrun, rfl, live_blocks_apart (by decide) hrun⟩

end TpAdvanced
