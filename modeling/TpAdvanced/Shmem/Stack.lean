import Mathlib.Algebra.BigOperators.Group.List.Basic
import Mathlib.Algebra.GroupWithZero.Nat
import TpAdvanced.Shmem.Containment
import TpAdvanced.Shmem.Disjointness

/-!
# A region as a stack

`deallocate` takes a block back when it ends at `end`, not when it ends at `begin`.  So
the bytes of any other block are lost when it is freed, and a stack of calls, though it
frees all that it was given, leaves the bump pointer where it was only if it was given
no such block.

## Main definitions

* `FreesLast` — calls that free what was handed out last.
* `Heap.lost` — the bytes that a run does not give back.

## Main results

* `begin_add_owed` — where a run leaves the bump pointer.
* `stack_returns_iff` — **when it leaves it where it was**.
-/

namespace TpAdvanced

open Machine SharedRegionView

deriving instance DecidableEq for Heap

variable [PointerDifference]

omit [PointerDifference] in
/-- The call frees the block that was handed out last. -/
def FreesLast (s : Heap) : AllocatorCall → Prop
  | .allocate _ _ => True
  | .deallocate T p n => s.live.head? = some ⟨T, p, n⟩

/-- The bytes of the block that is handed out, if it does not end at `end`. -/
def SharedRegionView.lostBy (v : SharedRegionView) : AllocatorCall → ℕ
  | .allocate T n =>
    if v.refuses T n = true ∨ SizeT.add v.begin_ (bytes T n) = v.end_ then 0 else bytes T n
  | .deallocate _ _ _ => 0

/-- The bytes of such blocks in a run. -/
def Heap.lost : Heap → List AllocatorCall → ℕ
  | _, [] => 0
  | s, c :: cs => s.view.lostBy c + (s.step c).elim 0 fun s' => s'.lost cs

/-- The block that is handed out, if any, is empty or ends at `end`. -/
def EndsAtEnd (s : Heap) : AllocatorCall → Prop
  | .allocate T n => s.view.refuses T n = true ∨ bytes T n = 0 ∨
      SizeT.add s.view.begin_ (bytes T n) = s.view.end_
  | .deallocate _ _ _ => True

/-! ### What is taken back -/

section Owed

omit [PointerDifference]

/-- The bytes that `deallocate` takes back for this block. -/
def Block.owed (b : Block) (end_ : ℕ) : ℕ :=
  if SizeT.sub end_ (SharedRegionView.bytes b.T b.n) = b.p then SharedRegionView.bytes b.T b.n
  else 0

/-- The bytes that it takes back for the live blocks. -/
def Heap.owed (s : Heap) : ℕ := (s.live.map fun b => b.owed s.view.end_).sum

theorem bytes_lt (T : ElementType) (n : UInt64) : SharedRegionView.bytes T n < 2 ^ 64 :=
  Nat.mod_lt _ (by decide)

/-- Begin and size of a block give `end` when `end` and size give its begin. -/
theorem add_eq_iff {p b e : ℕ} (hp : p < 2 ^ 64) (hb : b < 2 ^ 64) (he : e < 2 ^ 64) :
    SizeT.add p b = e ↔ SizeT.sub e b = p := by
  unfold SizeT.add SizeT.sub
  omega

end Owed

variable {s s' : Heap} {c : AllocatorCall} {calls : List AllocatorCall}

/-- Pointers are 64-bit numbers. -/
def Heap.Pointers (s : Heap) : Prop := s.view.begin_ < 2 ^ 64 ∧ s.view.end_ < 2 ^ 64

omit [PointerDifference] in
/-- The bytes that are taken back for the live blocks, without one of them. -/
theorem owed_erase {T : ElementType} {p : ℕ} {n : UInt64} (hmem : ⟨T, p, n⟩ ∈ s.live)
    {view : SharedRegionView} (hend : view.end_ = s.view.end_) :
    s.owed = Block.owed ⟨T, p, n⟩ s.view.end_ + Heap.owed ⟨view, s.live.erase ⟨T, p, n⟩⟩ := by
  unfold Heap.owed
  rw [hend]
  exact (List.sum_map_erase (fun b => Block.owed b s.view.end_) hmem).symm

omit [PointerDifference] in
/-- What `deallocate` takes back. -/
theorem deallocate_begin {v : SharedRegionView} (hv : v.begin_ < 2 ^ 64) (T : ElementType) (p : ℕ)
    (n : UInt64) : (v.deallocate T p n).begin_ < 2 ^ 64 ∧
      ((v.deallocate T p n).begin_ + Block.owed ⟨T, p, n⟩ v.end_) % 2 ^ 64 =
        v.begin_ % 2 ^ 64 := by
  have hbytes := bytes_lt T n
  have hlt : SizeT.sub v.begin_ (SharedRegionView.bytes T n) < 2 ^ 64 := Nat.mod_lt _ (by decide)
  unfold SharedRegionView.deallocate Block.owed
  dsimp only
  split
  · refine ⟨hlt, ?_⟩
    dsimp only
    rw [SizeT.sub]
    omega
  · exact ⟨hv, rfl⟩

/-- **What a call does** to the bump pointer and to the bytes that will be taken back. -/
theorem begin_add_owed_step (hs : s.Pointers) (hstep : s.step c = some s') :
    s'.Pointers ∧ (s'.view.begin_ + s.owed) % 2 ^ 64 =
      (s.view.begin_ + s'.owed + s.view.lostBy c) % 2 ^ 64 := by
  obtain ⟨hbegin, hend⟩ := hs
  cases c with
  | allocate T n =>
    have hbytes := bytes_lt T n
    simp only [Heap.step] at hstep
    rcases allocate_cases s.view T n with ⟨hrefused, hall⟩ | ⟨hserved, hall⟩
    · rw [hall] at hstep
      cases hstep
      refine ⟨⟨hbegin, hend⟩, ?_⟩
      rw [SharedRegionView.lostBy, if_pos (.inl hrefused)]
      rfl
    · rw [hall] at hstep
      cases hstep
      refine ⟨⟨Nat.mod_lt _ (by decide), hend⟩, ?_⟩
      -- the bytes of the block are owed or lost
      have hblock : Block.owed ⟨T, s.view.begin_, n⟩ s.view.end_ + s.view.lostBy (.allocate T n) =
          SharedRegionView.bytes T n := by
        simp only [Block.owed, SharedRegionView.lostBy, hserved, Bool.false_eq_true, false_or,
          add_eq_iff hbegin hbytes hend]
        split_ifs
        · exact Nat.add_zero _
        · exact Nat.zero_add _
      have hcons : Heap.owed ⟨{ s.view with
            begin_ := SizeT.add s.view.begin_ (SharedRegionView.bytes T n) },
          ⟨T, s.view.begin_, n⟩ :: s.live⟩ =
          Block.owed ⟨T, s.view.begin_, n⟩ s.view.end_ + s.owed := by
        simp [Heap.owed]
      rw [hcons]
      dsimp only
      rw [SizeT.add]
      omega
  | deallocate T p n =>
    simp only [Heap.step] at hstep
    split at hstep
    · rename_i hmem
      cases hstep
      obtain ⟨hbegin', htaken⟩ := deallocate_begin hbegin T p n
      have hend' := deallocate_end (T := T) (p := p) (n := n) s.view
      refine ⟨⟨hbegin', hend'.trans_lt hend⟩, ?_⟩
      have hlost : s.view.lostBy (.deallocate T p n) = 0 := rfl
      rw [owed_erase hmem hend', hlost]
      dsimp only
      omega
    · cases hstep

/-- **Where a run leaves the bump pointer**, in whatever order it frees the blocks. -/
theorem begin_add_owed (hs : s.Pointers) (hrun : run Heap.step s calls = some s') :
    s'.Pointers ∧ (s'.view.begin_ + s.owed) % 2 ^ 64 =
      (s.view.begin_ + s'.owed + s.lost calls) % 2 ^ 64 := by
  induction calls generalizing s with
  | nil =>
    cases hrun
    exact ⟨hs, rfl⟩
  | cons c calls ih =>
    obtain ⟨s₁, hs₁, hrest⟩ := run_cons_eq_some.mp hrun
    obtain ⟨hpointers, hstep⟩ := begin_add_owed_step hs hs₁
    obtain ⟨hpointers', hruns⟩ := ih hpointers hrest
    refine ⟨hpointers', ?_⟩
    rw [Heap.lost, hs₁, Option.elim_some]
    omega

/-! ### Runs that free everything -/

theorem lostBy_le (s : Heap) (c : AllocatorCall) : s.view.lostBy c ≤ c.requested := by
  cases c with
  | allocate T n =>
    unfold SharedRegionView.lostBy
    dsimp only
    split
    · exact Nat.zero_le _
    · exact Nat.mod_le _ _
  | deallocate T p n => exact Nat.zero_le _

theorem lost_le (s : Heap) (calls : List AllocatorCall) : s.lost calls ≤ requestedBytes calls := by
  induction calls generalizing s with
  | nil => exact Nat.zero_le _
  | cons c calls ih =>
    rw [Heap.lost, requestedBytes_cons]
    refine Nat.add_le_add (lostBy_le s c) ?_
    cases s.step c with
    | none => exact Nat.zero_le _
    | some s' => exact ih s'

theorem lostBy_eq_zero_iff (s : Heap) (c : AllocatorCall) :
    s.view.lostBy c = 0 ↔ EndsAtEnd s c := by
  cases c with
  | allocate T n =>
    unfold SharedRegionView.lostBy EndsAtEnd
    dsimp only
    split <;> tauto
  | deallocate T p n => exact iff_of_true rfl trivial

/-- Nothing is lost in a run whose blocks all end at `end`. -/
theorem lost_eq_zero_iff (hrun : run Heap.step s calls = some s') :
    s.lost calls = 0 ↔ Along Heap.step (fun s c _ => EndsAtEnd s c) s calls := by
  induction calls generalizing s with
  | nil => exact iff_of_true rfl trivial
  | cons c calls ih =>
    obtain ⟨s₁, hs₁, hrest⟩ := run_cons_eq_some.mp hrun
    rw [Heap.lost, hs₁, Option.elim_some, Nat.add_eq_zero_iff, along_cons_of_some hs₁,
      lostBy_eq_zero_iff, ih hrest]

/-- **When a run that frees everything leaves the bump pointer where it was**, in whatever
order it frees the blocks: when the bytes of those that do not end at `end` come to a
multiple of `2 ^ 64`.  In a run that asks for fewer bytes there is no such block. -/
theorem stack_returns_iff (hs : s.Pointers) (hlive : s.live = [])
    (hrun : run Heap.step s calls = some s') (hfreed : s'.live = []) :
    (s'.view.begin_ = s.view.begin_ ↔ 2 ^ 64 ∣ s.lost calls) ∧
      (requestedBytes calls < 2 ^ 64 → (s'.view.begin_ = s.view.begin_ ↔
        Along Heap.step (fun s c _ => EndsAtEnd s c) s calls)) := by
  obtain ⟨⟨hbegin', -⟩, hsum⟩ := begin_add_owed hs hrun
  have howed : s.owed = 0 := by rw [Heap.owed, hlive, List.map_nil, List.sum_nil]
  have howed' : s'.owed = 0 := by rw [Heap.owed, hfreed, List.map_nil, List.sum_nil]
  have hiff : s'.view.begin_ = s.view.begin_ ↔ 2 ^ 64 ∣ s.lost calls := by
    have hbegin := hs.1
    omega
  refine ⟨hiff, fun hsmall => ?_⟩
  have hle := lost_le s calls
  rw [hiff, ← lost_eq_zero_iff hrun]
  constructor
  · exact fun hdvd => Nat.eq_zero_of_dvd_of_lt hdvd (by omega)
  · rintro hzero
    rw [hzero]
    exact Nat.dvd_zero _

omit [PointerDifference] in
/-- A block that fills the region, and an empty one on top of it. -/
theorem stack_returns_full :
    letI := floorDifference
    ∃ s', run Heap.step (Heap.start onePage) [.allocate charType 4096, .allocate charType 0,
        .deallocate charType 8248 0, .deallocate charType 4152 4096] = some s' ∧
      s'.view.begin_ = onePage.view.begin_ := by
  let _ := floorDifference
  have hrun : run Heap.step (Heap.start onePage) [.allocate charType 4096, .allocate charType 0,
      .deallocate charType 8248 0, .deallocate charType 4152 4096] =
      some ⟨onePage.view, []⟩ := by
    decide +kernel
  have hends : (Heap.start onePage).lost [.allocate charType 4096, .allocate charType 0,
      .deallocate charType 8248 0, .deallocate charType 4152 4096] = 0 := by
    decide +kernel
  have hpointers : (Heap.start onePage).Pointers := ⟨by decide, by decide⟩
  refine ⟨_, hrun, (stack_returns_iff hpointers rfl hrun rfl).1.mpr ?_⟩
  rw [hends]
  exact Nat.dvd_zero _

omit [PointerDifference] in
/-- A block in front of `end` is allocated and freed, and its byte is lost. -/
theorem stack_does_not_return :
    letI := floorDifference
    Along Heap.step (fun s c _ => FreesLast s c) (Heap.start onePage)
        [.allocate charType 1, .deallocate charType 4152 1] ∧
      ∃ s', run Heap.step (Heap.start onePage)
          [.allocate charType 1, .deallocate charType 4152 1] = some s' ∧
        s'.live = [] ∧ s'.view.begin_ = onePage.view.begin_ + 1 := by
  let _ := floorDifference
  refine ⟨⟨trivial, ?_⟩, ⟨⟨4153, 8248⟩, []⟩, by decide +kernel, rfl, rfl⟩
  intro s' hs'
  have hone : s' = ⟨⟨4153, 8248⟩, [⟨charType, 4152, 1⟩]⟩ := by
    have hstep : Heap.step (Heap.start onePage) (.allocate charType 1) =
        some ⟨⟨4153, 8248⟩, [⟨charType, 4152, 1⟩]⟩ := by
      decide +kernel
    exact Option.some.inj (hs'.symm.trans hstep)
  rw [hone]
  exact ⟨rfl, fun _ _ => trivial⟩

end TpAdvanced
