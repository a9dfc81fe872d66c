import TpAdvanced.Shmem.ShMap
import TpAdvanced.Shmem.Stack

/-!
# When the construction of a map fails

The constructor of `ShMap` takes two blocks of the region and has four steps that can
fail.  What was taken is not given back when `sem_init` fails, and when the container is
refused it is given back only if it ends at `end`; and behind a container whose own
construction throws, the constructor returns as if it had been constructed.

## Main definitions

* `Built` — what a map is to be like that has been constructed.
* `BuiltOrUndone` — what the constructor is to do.
* `UndoesAll` — when it does that.

## Main results

* `builtOrUndone_iff` — **the condition is exact**.
-/

namespace TpAdvanced

open Locks SharedRegionView

/-- The container has been constructed in a live block, and the mutex initialised. -/
structure Built (container : ElementType) (s : Shm) (m : ShMap) : Prop where
  constructed : m.container ∈ s.maps
  live : ⟨container, m.container, 1⟩ ∈ s.heap.live
  mutex : m.mutex.sem ∈ s.semaphores

/-- The constructor returns such a map, or throws and leaves the bump pointer where it was. -/
def BuiltOrUndone (container : ElementType) (s : Shm) : Except ShmException ShMap × Shm → Prop
  | (.ok m, s') => Built container s' m
  | (.error _, s') => s'.heap.view.begin_ = s.heap.view.begin_

section

variable [PointerDifference]

/-- The semaphore is refused; or it is initialised, and the container is refused and the
semaphore ends at `end`, or the container is served and its construction does not throw. -/
def UndoesAll (container : ElementType) (v : SharedRegionView) (made : Option Semaphore)
    (build : Except BadAlloc Unit) : Prop :=
  v.refuses semType 1 = true ∨
    (made.isSome = true ∧
      if ({ v with begin_ := SizeT.add v.begin_ 32 } : SharedRegionView).refuses container 1 = true
      then SizeT.add v.begin_ 32 = v.end_
      else build = .ok ())

/-! ### The calls by themselves -/

section Exec

variable (made : Option Semaphore) (s : Shm) (T : ElementType)

@[simp] theorem exec_allocate (n : UInt64) :
    (ShmAllocator.allocate T n).exec made s = s.allocate T n :=
  Program.exec_guard made .region _ s

omit [PointerDifference] in
@[simp] theorem exec_deallocate (p : ℕ) (n : UInt64) :
    (ShmAllocator.deallocate T p n).exec made s = ((), s.deallocate T p n) :=
  Program.exec_guard made .region _ s

/-- What an allocation does: nothing, or it hands out a block that holds nothing. -/
theorem Shm.allocate_cases (n : UInt64) :
    (s.heap.view.refuses T n = true ∧ s.allocate T n = (.error .badAlloc, s)) ∨
      (s.heap.view.refuses T n = false ∧ s.allocate T n = (.ok s.heap.view.begin_,
        { s with
          heap := ⟨{ s.heap.view with begin_ := SizeT.add s.heap.view.begin_ (bytes T n) },
            ⟨T, s.heap.view.begin_, n⟩ :: s.heap.live⟩
          semaphores := s.semaphores.filter (· ≠ s.heap.view.begin_)
          maps := s.maps.filter (· ≠ s.heap.view.begin_) })) := by
  unfold Shm.allocate
  rcases SharedRegionView.allocate_cases s.heap.view T n with ⟨hrefused, hall⟩ | ⟨hserved, hall⟩
  · rw [hall]
    exact .inl ⟨hrefused, rfl⟩
  · rw [hall]
    exact .inr ⟨hserved, rfl⟩

/-- The constructor of the mutex, by what its allocation gives. -/
theorem exec_newMutex : ShMutex.new.exec made s =
    match s.allocate semType 1, made with
    | (.error _, s'), _ => (.error .badAlloc, s')
    | (.ok _, s'), none => (.error (.mutexException "unable to initialize semaphore"), s')
    | (.ok sem, s'), some semaphore =>
      (.ok ⟨semaphore, sem⟩, { s' with semaphores := sem :: s'.semaphores }) := by
  rw [ShMutex.new, Program.exec_bind, exec_allocate]
  rcases s.allocate semType 1 with ⟨r, s'⟩
  cases r with
  | error e => rfl
  | ok sem => cases made <;> rfl

omit [PointerDifference] in
@[simp] theorem exec_destroyMutex (m : ShMutex) : m.destroy.exec made s =
    ((), { s with semaphores := s.semaphores.erase m.sem }.deallocate semType m.sem 1) :=
  exec_deallocate made { s with semaphores := s.semaphores.erase m.sem } semType m.sem 1

end Exec

/-! ### The condition -/

omit [PointerDifference] in
theorem bytes_semType : bytes semType 1 = 32 := by decide

omit [PointerDifference] in
/-- The block of a semaphore moves the bump pointer. -/
theorem add_ne_self (b : ℕ) : SizeT.add b 32 ≠ b := by
  unfold SizeT.add
  omega

omit [PointerDifference] in
/-- What becomes of the bump pointer when the semaphore in front of it is given back. -/
theorem begin_deallocate_sem {v : SharedRegionView} (hbegin : v.begin_ < 2 ^ 64)
    (hend : v.end_ < 2 ^ 64) :
    (SharedRegionView.deallocate { v with begin_ := SizeT.add v.begin_ 32 } semType v.begin_
      1).begin_ = v.begin_ ↔ SizeT.add v.begin_ 32 = v.end_ := by
  rw [add_eq_iff hbegin (by decide) hend, SharedRegionView.deallocate, bytes_semType]
  dsimp only
  split
  · rename_i heq
    refine iff_of_true ?_ heq
    dsimp only
    unfold SizeT.sub SizeT.add
    omega
  · rename_i hne
    exact iff_of_false (add_ne_self _) hne

/-- **When the constructor does what it is to do.** -/
theorem builtOrUndone_iff (container : ElementType) {s : Shm} (hs : s.heap.Pointers)
    (made : Option Semaphore) (build : Except BadAlloc Unit) :
    BuiltOrUndone container s ((ShMap.new container (.done build)).exec made s) ↔
      UndoesAll container s.heap.view made build := by
  obtain ⟨hbegin, hend⟩ := hs
  rw [ShMap.new, Program.exec_bind, exec_newMutex]
  rcases s.allocate_cases semType 1 with ⟨hrefused, hall⟩ | ⟨hserved, hall⟩
  · rw [hall]
    exact iff_of_true rfl (.inl hrefused)
  · have hnot : ¬ s.heap.view.refuses semType 1 = true := by simp [hserved]
    rw [hall, bytes_semType]
    cases made with
    | none =>
      -- nobody gives the block back
      refine iff_of_false (add_ne_self _) ?_
      rintro (hrefused | ⟨hmade, -⟩)
      · exact hnot hrefused
      · cases hmade
    | some semaphore =>
      dsimp only
      rw [Program.exec_bind, exec_allocate, UndoesAll, or_iff_right hnot]
      simp only [Option.isSome_some, true_and]
      -- the region behind the block of the semaphore
      obtain ⟨s₁, hs₁⟩ : ∃ s₁ : Shm, s₁ = { s with
        heap := ⟨{ s.heap.view with begin_ := SizeT.add s.heap.view.begin_ 32 },
          ⟨semType, s.heap.view.begin_, 1⟩ :: s.heap.live⟩
        semaphores := s.heap.view.begin_ :: s.semaphores.filter (· ≠ s.heap.view.begin_)
        maps := s.maps.filter (· ≠ s.heap.view.begin_) } := ⟨_, rfl⟩
      have hview : s₁.heap.view =
          { s.heap.view with begin_ := SizeT.add s.heap.view.begin_ 32 } := by rw [hs₁]
      rw [← hs₁, ← hview]
      rcases s₁.allocate_cases container 1 with ⟨hrefused, hall⟩ | ⟨hserved, hall⟩
      · rw [hall, if_pos hrefused, ← begin_deallocate_sem hbegin hend, ← hview]
        dsimp only
        rw [Program.exec_bind, exec_destroyMutex, Program.exec_pure]
        rfl
      · rw [hall, if_neg (by simp [hserved])]
        rcases build with ⟨⟨⟩⟩ | ⟨⟨⟩⟩
        · -- the handler leaves the place to be taken for a container
          refine iff_of_false (fun hbuilt => ?_) nofun
          have hmem : s₁.heap.view.begin_ ∈ s₁.maps.filter (· ≠ s₁.heap.view.begin_) :=
            hbuilt.constructed
          simp at hmem
        · have hne : s.heap.view.begin_ ≠ s₁.heap.view.begin_ := by
            rw [hview]
            exact (add_ne_self _).symm
          have hsem : s.heap.view.begin_ ∈
              s₁.semaphores.filter (· ≠ s₁.heap.view.begin_) := by
            refine List.mem_filter.mpr ⟨?_, by simpa using hne⟩
            rw [hs₁]
            exact List.mem_cons_self
          exact iff_of_true ⟨List.mem_cons_self, List.mem_cons_self, hsem⟩ rfl

end

/-- A region of a page, and the size of a `std::map` in it. -/
def pageShm : Shm := { heap := Heap.start onePage }

def mapType : ElementType := ⟨48, Nat.zero_lt_succ 47⟩

/-- Nothing fails. -/
theorem builtOrUndone_page :
    letI := floorDifference
    BuiltOrUndone mapType pageShm
      ((ShMap.new mapType (.done (.ok ()))).exec (some (.map 0)) pageShm) := by
  let _ := floorDifference
  have hpointers : pageShm.heap.Pointers := ⟨by decide, by decide⟩
  have hserved : ({ pageShm.heap.view with
      begin_ := SizeT.add pageShm.heap.view.begin_ 32 } : SharedRegionView).refuses mapType 1 =
        false := by
    decide +kernel
  refine (builtOrUndone_iff mapType hpointers (some (.map 0)) (.ok ())).mpr (.inr ⟨rfl, ?_⟩)
  rw [hserved]
  rfl

/-- The construction of the container throws, and the constructor returns; `sem_init`
fails, and the block of the semaphore stays. -/
theorem newMap_neither_built_nor_undone :
    letI := floorDifference
    ¬ BuiltOrUndone mapType pageShm
        ((ShMap.new mapType (.done (.error .badAlloc))).exec (some (.map 0)) pageShm) ∧
      ¬ BuiltOrUndone mapType pageShm ((ShMap.new mapType (.done (.ok ()))).exec none pageShm) := by
  let _ := floorDifference
  constructor
  · intro h
    have hreturns :
        ((ShMap.new mapType (.done (.error .badAlloc))).exec (some (.map 0)) pageShm).1 =
          .ok ⟨⟨.map 0, 4152⟩, 4184⟩ := by
      decide +kernel
    have hmaps : 4184 ∉
        ((ShMap.new mapType (.done (.error .badAlloc))).exec (some (.map 0)) pageShm).2.maps := by
      decide +kernel
    rw [← Prod.mk.eta (p := (ShMap.new mapType _).exec _ _), hreturns] at h
    exact hmaps h.constructed
  · intro h
    have hthrows : ((ShMap.new mapType (.done (.ok ()))).exec none pageShm).1 =
        .error (.mutexException "unable to initialize semaphore") := by decide +kernel
    have hbegin : ((ShMap.new mapType (.done (.ok ()))).exec none pageShm).2.heap.view.begin_ =
        pageShm.heap.view.begin_ + 32 := by decide +kernel
    rw [← Prod.mk.eta (p := (ShMap.new mapType _).exec _ _), hthrows] at h
    have hleft : pageShm.heap.view.begin_ + 32 = pageShm.heap.view.begin_ := hbegin.symm.trans h
    omega

end TpAdvanced
