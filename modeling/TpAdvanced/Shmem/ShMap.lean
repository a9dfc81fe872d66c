import TpAdvanced.Lib.Locks
import TpAdvanced.Shmem.Disjointness

/-!
# Maps in shared memory

A `ShMap` is a `std::map` with a semaphore of its own, both in blocks of one region.  All
allocators of the region share one more semaphore, and every call of `allocate` and
`deallocate` takes it.

What `std::map`, its keys and its values do is any code that calls the allocator and
reads and writes the shared memory: `MapCode`.

## Main definitions

* `Shm` — the region, and what lives in its blocks.
* `ShmAllocator.allocate`, `ShmAllocator.deallocate`, `ShMutex`, `ShMap` — the classes.
-/

namespace TpAdvanced

open Locks

/-- The region with its live blocks and its bytes, and the places where a semaphore has
been initialised and a container constructed. -/
structure Shm where
  heap : Heap
  memory : ℕ → UInt8 := fun _ => 0
  semaphores : List ℕ := []
  maps : List ℕ := []

/-- The semaphore of the region, or that of a map.  A block that is given out again
holds another semaphore. -/
inductive Semaphore
  | map (id : ℕ)
  | region
  deriving DecidableEq, Repr

/-- Who waits for the semaphore of the region may hold that of a map. -/
instance : LT Semaphore where
  lt
    | .map _, .region => True
    | _, _ => False

/-- What the constructors throw. -/
inductive ShmException
  | badAlloc
  | mutexException (message : String)
  deriving DecidableEq, Repr

/-- Code of a process on the shared memory. -/
abbrev ShmCode := Program Semaphore Shm

section

variable [PointerDifference]

namespace Shm

/-- The body of `allocate`.  New memory holds nothing yet. -/
def allocate (s : Shm) (T : ElementType) (n : UInt64) : Except BadAlloc ℕ × Shm :=
  match s.heap.view.allocate T n with
  | (.error e, view) => (.error e, { s with heap := ⟨view, s.heap.live⟩ })
  | (.ok p, view) =>
    (.ok p,
      { s with
        heap := ⟨view, ⟨T, p, n⟩ :: s.heap.live⟩
        semaphores := s.semaphores.filter (· ≠ p)
        maps := s.maps.filter (· ≠ p) })

omit [PointerDifference] in
/-- The body of `deallocate`. -/
def deallocate (s : Shm) (T : ElementType) (p : ℕ) (n : UInt64) : Shm :=
  { s with heap := ⟨s.heap.view.deallocate T p n, s.heap.live.erase ⟨T, p, n⟩⟩ }

end Shm

namespace ShmAllocator

/-- `allocate`. -/
def allocate (T : ElementType) (n : UInt64) : ShmCode (Except BadAlloc ℕ) :=
  .guard .region (.act (fun s => (s.allocate T n).2) fun s => .ret (s.allocate T n).1)

omit [PointerDifference] in
/-- `deallocate`. -/
def deallocate (T : ElementType) (p : ℕ) (n : UInt64) : ShmCode Unit :=
  .guard .region (.act (fun s => s.deallocate T p n) fun _ => .ret ())

end ShmAllocator

/-- Code of `std::map`, of its keys and of its values, up to a result or an exception.  It
takes no semaphore by itself. -/
inductive MapCode (ρ : Type)
  | done (r : ρ)
  | allocate (T : ElementType) (n : UInt64) (next : Except BadAlloc ℕ → MapCode ρ)
  | deallocate (T : ElementType) (p : ℕ) (n : UInt64) (next : MapCode ρ)
  | access (effect : (ℕ → UInt8) → ℕ → UInt8) (next : (ℕ → UInt8) → MapCode ρ)

def MapCode.code {ρ : Type} : MapCode ρ → ShmCode ρ
  | .done r => .ret r
  | .allocate T n next => (ShmAllocator.allocate T n).bind fun r => (next r).code
  | .deallocate T p n next => (ShmAllocator.deallocate T p n).bind fun _ => next.code
  | .access effect next =>
    .act (fun s => { s with memory := effect s.memory }) fun s => (next s.memory).code

/-- `ShMutex`: the semaphore, and where it is. -/
structure ShMutex where
  semaphore : Semaphore
  sem : ℕ
  deriving DecidableEq, Repr

/-- `ShMap`. -/
structure ShMap where
  mutex : ShMutex
  container : ℕ
  deriving DecidableEq, Repr

namespace ShMutex

/-- The constructor. -/
def new : ShmCode (Except ShmException ShMutex) := do
  match ← ShmAllocator.allocate semType 1 with
  | .error _ => pure (.error .badAlloc)
  | .ok sem =>
    -- `sem_init`
    .init fun
      | none => pure (.error (.mutexException "unable to initialize semaphore"))
      | some semaphore =>
        .act (fun s => { s with semaphores := sem :: s.semaphores }) fun _ =>
          pure (.ok ⟨semaphore, sem⟩)

omit [PointerDifference] in
/-- The destructor.  `sem_destroy` wakes nobody and leaves the memory as it is. -/
def destroy (m : ShMutex) : ShmCode Unit :=
  .act (fun s => { s with semaphores := s.semaphores.erase m.sem }) fun _ =>
    ShmAllocator.deallocate semType m.sem 1

end ShMutex

namespace ShMap

variable (container : ElementType)

/-- The constructor, for a container type whose construction is this code. -/
def new (construct : MapCode (Except BadAlloc Unit)) : ShmCode (Except ShmException ShMap) := do
  match ← ShMutex.new with
  | .error e => pure (.error e)
  | .ok mutex =>
    match ← ShmAllocator.allocate container 1 with
    | .error _ => do
      -- the member is destroyed
      mutex.destroy
      pure (.error .badAlloc)
    | .ok p => do
      match ← construct.code with
      | .ok () => .act (fun s => { s with maps := p :: s.maps }) fun _ => pure (.ok ⟨mutex, p⟩)
      | .error .badAlloc => do
        ShmAllocator.deallocate container p 1
        -- the handler goes on behind the `try` block
        pure (.ok ⟨mutex, p⟩)

/-- The destructor, where the container is destroyed by this code. -/
def destroy (m : ShMap) (destruct : MapCode Unit) : ShmCode Unit := do
  destruct.code
  .act (fun s => { s with maps := s.maps.erase m.container }) fun _ => pure ()
  ShmAllocator.deallocate container m.container 1
  m.mutex.destroy

/-- A call of the container under `mutex_`. -/
def locked {ρ : Type} (m : ShMap) (call : MapCode ρ) : ShmCode ρ :=
  .guard m.mutex.semaphore call.code

variable {ρ : Type} (m : ShMap)

def insert (call : MapCode ρ) : ShmCode ρ := m.locked call

def insertOrAssign (call : MapCode ρ) : ShmCode ρ := m.locked call

def erase (call : MapCode ρ) : ShmCode ρ := m.locked call

def find (call : MapCode ρ) : ShmCode ρ := m.locked call

end ShMap

end

end TpAdvanced
