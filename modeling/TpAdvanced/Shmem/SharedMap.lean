import TpAdvanced.Lib.OrderedMap
import TpAdvanced.Lib.Serial
import TpAdvanced.Shmem.MapLocks

/-!
# Maps that processes share

What the processes make of the maps of a region: `insert`, `erase` and `find` of `ShMap`
with the contents of the containers.  A container looks a key up before it allocates a
node for it, and takes a node out before it gives its memory back; the region's semaphore
is taken and given back in between, and other processes use the region at the same time.
All the same the operations on a map are served one after another.

A `std::map` is kept as the list of its entries in the order of their keys; an entry has
the address of its node, which is what an iterator is.  The maps are there before the
processes use them, and are not destroyed while they do.

## Main definitions

* `MapShm` — the shared memory with the contents of the containers.
* `SharedMap.insert`, `SharedMap.erase`, `SharedMap.find` — the operations.
* `SharedOperation.Does` — what an operation does to a map by itself.

## Main results

* `served_one_after_another` — **every interleaving is a sequence of operations.**
* `inserted_is_found` — **who has inserted a key finds it**, unless it has been erased.
-/

namespace TpAdvanced

open Locks Machine

variable {κ ν : Type}

/-- The entries of a container: keys, with the addresses of their nodes and the values. -/
abbrev MapContents (κ ν : Type) := List (κ × (ℕ × ν))

/-- The shared memory, and the contents of the containers in it. -/
structure MapShm (κ ν : Type) where
  shm : Shm
  contents : ℕ → MapContents κ ν

namespace MapShm

/-- Only the rest of the memory changes. -/
def withShm (s : MapShm κ ν) (shm : Shm) : MapShm κ ν := { s with shm := shm }

/-- The contents of one container change. -/
def modify (s : MapShm κ ν) (container : ℕ) (f : MapContents κ ν → MapContents κ ν) :
    MapShm κ ν :=
  { s with contents := Function.update s.contents container (f (s.contents container)) }

end MapShm

/-- The entry under a key. -/
def MapContents.lookup [DecidableEq κ] (c : MapContents κ ν) (k : κ) : Option (ℕ × ν) :=
  (c.find? fun e => e.1 = k).map Prod.snd

/-- Code of a process on the maps. -/
abbrev MapShmCode (κ ν : Type) := Program Semaphore (MapShm κ ν)

/-- Code on the memory. -/
def onShm {α : Type} (p : ShmCode α) : MapShmCode κ ν α := p.zoom MapShm.shm MapShm.withShm

/-- What an operation returns or throws. -/
inductive MapAnswer
  /-- The iterator of the entry under the key, and whether it is new. -/
  | inserted (node : ℕ) (new : Bool)
  | badAlloc
  | erased (count : ℕ)
  /-- The iterator, which is `none` for `end()`. -/
  | found (node : Option ℕ)
  /-- The region has been used for something else. -/
  | used
  deriving DecidableEq, Repr

/-! ### The operations -/

section

variable [PointerDifference] [LinearOrder κ]

namespace SharedMap

variable (m : ShMap)

/-- A node for the key: memory for it, and the copies of the key and the value, which may
allocate as well.  If they throw, the memory is given back. -/
def newNode (node : ElementType) (copy : MapCode (Except BadAlloc Unit)) :
    ShmCode (Except BadAlloc ℕ) := do
  match ← ShmAllocator.allocate node 1 with
  | .error e => pure (.error e)
  | .ok p => do
    match ← copy.code with
    | .ok () => pure (.ok p)
    | .error e => do
      ShmAllocator.deallocate node p 1
      pure (.error e)

/-- `std::map::insert`. -/
def insertBody (k : κ) (v : ν) (node : ElementType) (copy : MapCode (Except BadAlloc Unit)) :
    MapShmCode κ ν MapAnswer :=
  .act id fun s =>
    match (s.contents m.container).lookup k with
    | some e => .ret (.inserted e.1 false)
    | none => onShm (newNode node copy) >>= fun
      | .error _ => .ret .badAlloc
      | .ok p => .act (fun s => s.modify m.container fun c => OrderedMap.insert c k (p, v)) fun _ =>
        .ret (.inserted p true)

/-- `std::map::erase`: the entry is taken out, and its node destroyed by this code. -/
def eraseBody (k : κ) (node : ElementType) (destruct : MapCode Unit) : MapShmCode κ ν MapAnswer :=
  .act (fun s => s.modify m.container fun c => c.filter fun e => e.1 ≠ k) fun s =>
    match (s.contents m.container).lookup k with
    | none => .ret (.erased 0)
    | some e => do
      onShm destruct.code
      onShm (ShmAllocator.deallocate node e.1 1)
      pure (.erased 1)

omit [PointerDifference] in
/-- `std::map::find`. -/
def findBody (k : κ) : MapShmCode κ ν MapAnswer :=
  .act id fun s => .ret (.found (((s.contents m.container).lookup k).map Prod.fst))

/-- `insert`. -/
def insert (k : κ) (v : ν) (node : ElementType) (copy : MapCode (Except BadAlloc Unit)) :
    MapShmCode κ ν MapAnswer :=
  .guard m.mutex.semaphore (insertBody m k v node copy)

/-- `erase`. -/
def erase (k : κ) (node : ElementType) (destruct : MapCode Unit) : MapShmCode κ ν MapAnswer :=
  .guard m.mutex.semaphore (eraseBody m k node destruct)

omit [PointerDifference] in
/-- `find`. -/
def find (k : κ) : MapShmCode κ ν MapAnswer := .guard m.mutex.semaphore (findBody m k)

end SharedMap

/-- What a process does: the operations of the maps, with the code that copies and destroys
their keys and values, and uses of the region for something else. -/
inductive SharedOperation (κ ν : Type)
  | insert (m : ShMap) (k : κ) (v : ν) (node : ElementType) (copy : MapCode (Except BadAlloc Unit))
  | erase (m : ShMap) (k : κ) (node : ElementType) (destruct : MapCode Unit)
  | find (m : ShMap) (k : κ)
  | useRegion (call : MapCode Unit)

namespace SharedOperation

/-- The map that the operation is called on. -/
def map? : SharedOperation κ ν → Option ShMap
  | .insert m .. | .erase m .. | .find m _ => some m
  | .useRegion _ => none

/-- What the process runs. -/
def code : SharedOperation κ ν → MapShmCode κ ν MapAnswer
  | .insert m k v node copy => SharedMap.insert m k v node copy
  | .erase m k node destruct => SharedMap.erase m k node destruct
  | .find m k => SharedMap.find m k
  | .useRegion call => onShm call.code >>= fun _ => pure .used

/-- The operation is on one of these maps. -/
def Ready (maps : List ShMap) (known : List Semaphore) (op : SharedOperation κ ν) : Prop :=
  .region ∈ known ∧ ∀ m ∈ op.map?, m ∈ maps ∧ m.mutex.semaphore ∈ known

instance (maps : List ShMap) (known : List Semaphore) (op : SharedOperation κ ν) :
    Decidable (op.Ready maps known) :=
  inferInstanceAs (Decidable (_ ∧ ∀ m ∈ op.map?, _))

/-- The operation is one on the map. -/
def On (m : ShMap) (op : SharedOperation κ ν) : Prop := op.map? = some m

instance (m : ShMap) : DecidablePred (On (κ := κ) (ν := ν) m) :=
  fun op => inferInstanceAs (Decidable (op.map? = some m))

/-- **What an operation does to the contents of its map**, and what it returns, when nobody
else is there.  Memory may run out. -/
def Does (op : SharedOperation κ ν) (c c' : MapContents κ ν) (x : MapAnswer) : Prop :=
  match op with
  | .insert _ k v .. =>
    match c.lookup k with
    | some e => c' = c ∧ x = .inserted e.1 false
    | none => (∃ p, c' = OrderedMap.insert c k (p, v) ∧ x = .inserted p true) ∨
      c' = c ∧ x = .badAlloc
  | .erase _ k .. =>
    c' = (c.filter fun e => e.1 ≠ k) ∧ x = .erased ((c.lookup k).elim 0 fun _ => 1)
  | .find _ k => c' = c ∧ x = .found ((c.lookup k).map Prod.fst)
  | .useRegion _ => c' = c ∧ x = .used

/-- What a map sees of an operation: it is an operation on this map. -/
def DoesOn (m : ShMap) (op : SharedOperation κ ν) (c c' : MapContents κ ν) (x : MapAnswer) :
    Prop :=
  op.On m ∧ op.Does c c' x

/-- A step of some process, with what is seen of the map. -/
def recordedStep {P : Type} [DecidableEq P] (maps : List ShMap) (m : ShMap) :
    State P Semaphore (MapShm κ ν) MapAnswer × Journal P (SharedOperation κ ν) MapAnswer →
      Event P Semaphore (SharedOperation κ ν) →
        Option (State P Semaphore (MapShm κ ν) MapAnswer ×
          Journal P (SharedOperation κ ν) MapAnswer) :=
  Locks.recordedStep code (Ready maps) m.mutex.semaphore (On m)

end SharedOperation

/-! ### The order of the semaphores -/

section Keeps

variable {known held : List Semaphore}

omit [PointerDifference] [LinearOrder κ] in
theorem keeps_onShm {α : Type} {p : ShmCode α} (h : p.Keeps known held) :
    (onShm p : MapShmCode κ ν α).Keeps known held :=
  Program.Orderly.zoom MapShm.shm MapShm.withShm h

theorem keeps_newNode (hregion : .region ∈ known) (hheld : ∀ h ∈ held, h < Semaphore.region)
    (node : ElementType) (copy : MapCode (Except BadAlloc Unit)) :
    (SharedMap.newNode node copy).Keeps known held := by
  refine (keeps_allocate hregion hheld node 1).bind fun r => ?_
  cases r with
  | error e => rfl
  | ok p =>
    refine (copy.keeps_code hregion hheld).bind fun r => ?_
    cases r with
    | error e => exact (keeps_deallocate hregion hheld node p 1).bind fun _ => rfl
    | ok u => rfl

theorem keeps_insertBody (hregion : .region ∈ known) (hheld : ∀ h ∈ held, h < Semaphore.region)
    (m : ShMap) (k : κ) (v : ν) (node : ElementType) (copy : MapCode (Except BadAlloc Unit)) :
    (SharedMap.insertBody m k v node copy).Keeps known held := by
  intro s
  dsimp only
  split
  · rfl
  · refine (keeps_onShm (keeps_newNode hregion hheld node copy)).bind fun r => ?_
    cases r with
    | error e => rfl
    | ok p => exact fun _ => rfl

theorem keeps_eraseBody (hregion : .region ∈ known) (hheld : ∀ h ∈ held, h < Semaphore.region)
    (m : ShMap) (k : κ) (node : ElementType) (destruct : MapCode Unit) :
    (SharedMap.eraseBody m k node destruct : MapShmCode κ ν MapAnswer).Keeps known held := by
  intro s
  dsimp only
  split
  · rfl
  · refine (keeps_onShm (destruct.keeps_code hregion hheld)).bind fun _ => ?_
    exact (keeps_onShm (keeps_deallocate hregion hheld node _ 1)).bind fun _ => rfl

/-- **Each operation keeps to the order.** -/
theorem SharedOperation.keeps_code {maps : List ShMap}
    (hmaps : ∀ m ∈ maps, m.mutex.semaphore ≠ .region) {op : SharedOperation κ ν}
    (h : op.Ready maps known) : op.code.Keeps known [] := by
  obtain ⟨hregion, hmap⟩ := h
  have hnone : ∀ h ∈ [], h < Semaphore.region := fun _ hmem => absurd hmem List.not_mem_nil
  -- inside of an operation only the semaphore of its map is held
  have hone : ∀ m ∈ op.map?, ∀ h ∈ [m.mutex.semaphore], h < Semaphore.region := by
    intro m hm h hh
    rw [List.mem_singleton.mp hh]
    exact Semaphore.map_lt_region (hmaps m (hmap m hm).1)
  cases op with
  | insert m k v node copy =>
    exact Program.Keeps.guard (keeps_insertBody hregion (hone m rfl) m k v node copy) (hmap m rfl).2
      fun _ hmem => absurd hmem List.not_mem_nil
  | erase m k node destruct =>
    exact Program.Keeps.guard (keeps_eraseBody hregion (hone m rfl) m k node destruct)
      (hmap m rfl).2 fun _ hmem => absurd hmem List.not_mem_nil
  | find m k =>
    exact Program.Keeps.guard (fun _ => rfl) (hmap m rfl).2
      fun _ hmem => absurd hmem List.not_mem_nil
  | useRegion call =>
    exact (keeps_onShm (call.keeps_code hregion hnone)).bind fun _ =>
      Program.keeps_pure known [] MapAnswer.used

end Keeps

/-! ### What the code does to the contents -/

section Contents

variable {m m' : ShMap} {l : Semaphore}

/-- The contents of the container of a map. -/
def contentsOf (m : ShMap) (s : MapShm κ ν) : MapContents κ ν := s.contents m.container

omit [PointerDifference] [LinearOrder κ] in
theorem contentsOf_modify_self (s : MapShm κ ν) (f : MapContents κ ν → MapContents κ ν) :
    contentsOf m (s.modify m.container f) = f (contentsOf m s) := Function.update_self ..

omit [PointerDifference] [LinearOrder κ] in
theorem contentsOf_modify_of_ne (h : m.container ≠ m'.container) (s : MapShm κ ν)
    (f : MapContents κ ν → MapContents κ ν) :
    contentsOf m (s.modify m'.container f) = contentsOf m s := Function.update_of_ne h _ _

omit [PointerDifference] [LinearOrder κ] in
/-- Code on the memory leaves all contents alone. -/
theorem outside_onShm {α : Type} {p : ShmCode α} (h : p.Outside (fun _ => ()) l) :
    (onShm p : MapShmCode κ ν α).Outside (contentsOf m) l :=
  Program.Outside.zoom MapShm.shm MapShm.withShm (fun _ _ => rfl) h

theorem outside_allocate (hl : .region ≠ l) (T : ElementType) (n : UInt64) :
    (ShmAllocator.allocate T n).Outside (fun _ => ()) l :=
  Program.Outside.guard hl fun _ => ⟨rfl, trivial⟩

omit [PointerDifference] in
theorem outside_deallocate (hl : .region ≠ l) (T : ElementType) (p : ℕ) (n : UInt64) :
    (ShmAllocator.deallocate T p n).Outside (fun _ => ()) l :=
  Program.Outside.guard hl fun _ => ⟨rfl, trivial⟩

theorem MapCode.outside_code (hl : .region ≠ l) {ρ : Type} (call : MapCode ρ) :
    call.code.Outside (fun _ => ()) l := by
  induction call with
  | done r => trivial
  | allocate T n next ih => exact (outside_allocate hl T n).bind ih
  | deallocate T p n next ih => exact (outside_deallocate hl T p n).bind fun _ => ih
  | access effect next ih => exact fun s => ⟨rfl, ih s.memory⟩

theorem outside_newNode (hl : .region ≠ l) (node : ElementType)
    (copy : MapCode (Except BadAlloc Unit)) :
    (SharedMap.newNode node copy).Outside (fun _ => ()) l := by
  refine (outside_allocate hl node 1).bind fun r => ?_
  cases r with
  | error e => trivial
  | ok p =>
    refine (copy.outside_code hl).bind fun r => ?_
    cases r with
    | error e => exact (outside_deallocate hl node p 1).bind fun _ => trivial
    | ok u => trivial

/-- What `insert` does while it holds the semaphore. -/
theorem inside_insertBody (hl : .region ≠ l) (k : κ) (v : ν) (node : ElementType)
    (copy : MapCode (Except BadAlloc Unit)) (c : MapContents κ ν) :
    (SharedMap.insertBody m k v node copy).Inside (contentsOf m) l c
      ((SharedOperation.insert m k v node copy).Does c) := by
  rintro s rfl
  dsimp only [contentsOf, id]
  cases hlookup : (s.contents m.container).lookup k with
  | some e =>
    have hdoes : (SharedOperation.insert m k v node copy).Does (s.contents m.container)
        (s.contents m.container) (.inserted e.1 false) := by
      simp [SharedOperation.Does, hlookup]
    exact hdoes
  | none =>
    -- the new node is not in the container yet
    refine Program.Inside.bind (Q := fun c _ => c = s.contents m.container)
      ((outside_onShm (outside_newNode hl node copy)).inside fun _ => rfl) ?_
    rintro c r rfl
    cases r with
    | error e =>
      change (SharedOperation.insert m k v node copy).Does _ _ _
      simp [SharedOperation.Does, hlookup]
    | ok p =>
      intro s' hs'
      change (SharedOperation.insert m k v node copy).Does _ _ _
      simp only [SharedOperation.Does, hlookup]
      exact .inl ⟨p, by rw [contentsOf_modify_self, hs'], rfl⟩

/-- What `erase` does while it holds the semaphore. -/
theorem inside_eraseBody (hl : .region ≠ l) (k : κ) (node : ElementType) (destruct : MapCode Unit)
    (c : MapContents κ ν) :
    (SharedMap.eraseBody m k node destruct).Inside (contentsOf m) l c
      ((SharedOperation.erase m k node destruct).Does c) := by
  rintro s rfl
  dsimp only
  rw [contentsOf_modify_self]
  cases hlookup : (s.contents m.container).lookup k with
  | none =>
    refine ⟨rfl, ?_⟩
    rw [contentsOf, hlookup]
    rfl
  | some e =>
    -- the node is given back when nobody finds it any more
    refine Program.Inside.bind (Q := fun c' _ => c' = (contentsOf m s).filter fun e => e.1 ≠ k)
      ((outside_onShm (destruct.outside_code hl)).inside fun _ => rfl) ?_
    rintro c' - rfl
    refine Program.Inside.bind (Q := fun c' _ => c' = (contentsOf m s).filter fun e => e.1 ≠ k)
      ((outside_onShm (outside_deallocate hl node e.1 1)).inside fun _ => rfl) ?_
    rintro c' - rfl
    refine ⟨rfl, ?_⟩
    rw [contentsOf, hlookup]
    rfl

omit [PointerDifference] in
/-- What `find` does while it holds the semaphore. -/
theorem inside_findBody (k : κ) (c : MapContents κ ν) :
    (SharedMap.findBody m k).Inside (contentsOf m) l c
      ((SharedOperation.find m k : SharedOperation κ ν).Does c) := by
  rintro s rfl
  exact ⟨rfl, rfl⟩

/-- Another map has another container. -/
theorem outside_insertBody (hl : .region ≠ l) (hm : m.container ≠ m'.container) (k : κ) (v : ν)
    (node : ElementType) (copy : MapCode (Except BadAlloc Unit)) :
    (SharedMap.insertBody m' k v node copy).Outside (contentsOf m) l := by
  refine fun s => ⟨rfl, ?_⟩
  dsimp only
  split
  · trivial
  · refine (outside_onShm (outside_newNode hl node copy)).bind fun r => ?_
    cases r with
    | error e => trivial
    | ok p => exact fun s => ⟨contentsOf_modify_of_ne hm s _, trivial⟩

theorem outside_eraseBody (hl : .region ≠ l) (hm : m.container ≠ m'.container) (k : κ)
    (node : ElementType) (destruct : MapCode Unit) :
    (SharedMap.eraseBody m' k node destruct : MapShmCode κ ν MapAnswer).Outside (contentsOf m)
      l := by
  refine fun s => ⟨contentsOf_modify_of_ne hm s _, ?_⟩
  dsimp only
  split
  · trivial
  · exact (outside_onShm (destruct.outside_code hl)).bind fun _ =>
      (outside_onShm (outside_deallocate hl node _ 1)).bind fun _ => trivial

/-- The semaphores and the containers of these maps are different ones. -/
structure MapsApart (maps : List ShMap) : Prop where
  region : ∀ m ∈ maps, .region ≠ m.mutex.semaphore
  semaphore : ∀ m ∈ maps, ∀ m' ∈ maps, m' ≠ m → m'.mutex.semaphore ≠ m.mutex.semaphore
  container : ∀ m ∈ maps, ∀ m' ∈ maps, m' ≠ m → m.container ≠ m'.container

/-- **Only the operations on a map work on its contents**, and each of them does what it is
to do. -/
theorem guarded {maps : List ShMap} (hmaps : MapsApart maps) (hm : m ∈ maps) :
    Guarded (SharedOperation.code (κ := κ) (ν := ν)) (SharedOperation.Ready maps) (contentsOf m)
      m.mutex.semaphore (SharedOperation.On m) (SharedOperation.DoesOn m) where
  keeps _ _ h := SharedOperation.keeps_code (fun m hm => (hmaps.region m hm).symm) h
  locked op hon := by
    have hl := hmaps.region m hm
    have hand : ∀ {c : MapContents κ ν}, ∀ c' x, op.Does c c' x → op.DoesOn m c c' x :=
      fun _ _ h => ⟨hon, h⟩
    cases op with
    | insert m' k v node copy =>
      cases hon
      exact ⟨_, rfl, fun c => (inside_insertBody hl k v node copy c).mono hand⟩
    | erase m' k node destruct =>
      cases hon
      exact ⟨_, rfl, fun c => (inside_eraseBody hl k node destruct c).mono hand⟩
    | find m' k =>
      cases hon
      exact ⟨_, rfl, fun c => (inside_findBody k c).mono hand⟩
    | useRegion call => cases hon
  outside _ op hready hoff := by
    have hl := hmaps.region m hm
    have hne : ∀ m' ∈ op.map?, m' ∈ maps ∧ m' ≠ m := fun m' hm' =>
      ⟨(hready.2 m' hm').1, fun heq => hoff (heq ▸ hm')⟩
    cases op with
    | insert m' k v node copy =>
      obtain ⟨hm', hne⟩ := hne m' rfl
      exact (outside_insertBody hl (hmaps.container m hm m' hm' hne) k v node copy).guard
        (hmaps.semaphore m hm m' hm' hne)
    | erase m' k node destruct =>
      obtain ⟨hm', hne⟩ := hne m' rfl
      exact (outside_eraseBody hl (hmaps.container m hm m' hm' hne) k node destruct).guard
        (hmaps.semaphore m hm m' hm' hne)
    | find m' k =>
      obtain ⟨hm', hne⟩ := hne m' rfl
      exact Program.Outside.guard (hmaps.semaphore m hm m' hm' hne) fun s => ⟨rfl, trivial⟩
    | useRegion call => exact (outside_onShm (call.outside_code hl)).bind fun _ => trivial

end Contents

end

/-! ### What is found -/

section Found

variable [LinearOrder κ]

namespace MapContents

variable {c : MapContents κ ν} {k k' : κ} {x : ℕ × ν}

theorem lookup_cons (e : κ × (ℕ × ν)) (c : MapContents κ ν) (k : κ) :
    lookup (e :: c : MapContents κ ν) k = if e.1 = k then some e.2 else c.lookup k := by
  rw [lookup, List.find?_cons]
  by_cases h : e.1 = k
  · simp [h]
  · simp [h, lookup]

theorem lookup_insert_self : lookup (OrderedMap.insert c k x) k = some x := by
  induction c with
  | nil => rw [OrderedMap.insert, lookup_cons, if_pos rfl]
  | cons e c ih =>
    rw [OrderedMap.insert]
    split_ifs with hlt hgt
    · rw [lookup_cons, if_pos rfl]
    · rw [lookup_cons, if_neg hgt.ne, ih]
    · rw [lookup_cons, if_pos (le_antisymm (not_lt.mp hlt) (not_lt.mp hgt))]

theorem lookup_insert_of_ne (h : k' ≠ k) :
    lookup (OrderedMap.insert c k x) k' = c.lookup k' := by
  induction c with
  | nil => rw [OrderedMap.insert, lookup_cons, if_neg (Ne.symm h)]
  | cons e c ih =>
    rw [OrderedMap.insert]
    split_ifs with hlt hgt
    · rw [lookup_cons, if_neg (Ne.symm h)]
    · rw [lookup_cons, lookup_cons, ih]
    · have he : e.1 ≠ k' := le_antisymm (not_lt.mp hlt) (not_lt.mp hgt) ▸ Ne.symm h
      rw [lookup_cons, lookup_cons, if_neg he, if_neg he]

theorem lookup_filter_of_ne (h : k' ≠ k) :
    lookup (c.filter fun e => e.1 ≠ k) k' = c.lookup k' := by
  induction c with
  | nil => rfl
  | cons e c ih =>
    by_cases he : e.1 = k
    · rw [List.filter_cons_of_neg (by simpa using he), ih, lookup_cons, if_neg]
      exact fun hk => h (hk.symm.trans he)
    · rw [List.filter_cons_of_pos (by simpa using he), lookup_cons, lookup_cons, ih]

end MapContents

namespace SharedOperation

variable {op : SharedOperation κ ν} {c c' : MapContents κ ν} {x : MapAnswer} {m : ShMap} {k : κ}
  {e : ℕ}

/-- The entries stay in the order of their keys. -/
theorem sorted_of_does (h : op.Does c c' x) (hc : OrderedMap.Sorted c) :
    OrderedMap.Sorted c' := by
  cases op with
  | insert m k v node copy =>
    dsimp only [Does] at h
    split at h
    · exact h.1 ▸ hc
    · rcases h with ⟨p, rfl, -⟩ | ⟨rfl, -⟩
      · exact hc.insert k (p, v)
      · exact hc
  | erase m k node destruct => exact h.1 ▸ hc.filter _
  | find m k => exact h.1 ▸ hc
  | useRegion call => exact h.1 ▸ hc

/-- What an insertion answers is in the map. -/
theorem lookup_of_inserted {v : ν} {node : ElementType} {copy : MapCode (Except BadAlloc Unit)}
    {new : Bool} (h : (insert m k v node copy).Does c c' (.inserted e new)) :
    (c'.lookup k).map Prod.fst = some e := by
  dsimp only [Does] at h
  split at h
  · rename_i d hd
    obtain ⟨rfl, hx⟩ := h
    cases hx
    rw [hd, Option.map_some]
  · rcases h with ⟨p, rfl, hx⟩ | ⟨-, hx⟩
    · cases hx
      rw [MapContents.lookup_insert_self, Option.map_some]
    · cases hx

/-- **An entry stays** until its key is erased: others neither replace nor remove it. -/
theorem lookup_of_does (h : op.Does c c' x) (hk : (c.lookup k).map Prod.fst = some e) :
    (c'.lookup k).map Prod.fst = some e ∨
      ∃ m node destruct, op = .erase m k node destruct ∧ x = .erased 1 := by
  obtain ⟨d, hd, rfl⟩ := Option.map_eq_some_iff.mp hk
  cases op with
  | insert m k' v node copy =>
    dsimp only [Does] at h
    split at h
    · exact .inl (h.1 ▸ hk)
    · rename_i hnone
      have hne : k ≠ k' := by
        rintro rfl
        cases hnone.symm.trans hd
      rcases h with ⟨p, rfl, -⟩ | ⟨rfl, -⟩
      · rw [MapContents.lookup_insert_of_ne hne]
        exact .inl hk
      · exact .inl hk
  | erase m k' node destruct =>
    obtain ⟨rfl, rfl⟩ := h
    by_cases hne : k = k'
    · subst hne
      exact .inr ⟨m, node, destruct, rfl, by rw [hd]; rfl⟩
    · rw [MapContents.lookup_filter_of_ne hne]
      exact .inl hk
  | find m k' => exact .inl (h.1 ▸ hk)
  | useRegion call => exact .inl (h.1 ▸ hk)

end SharedOperation

end Found

/-! ### Runs -/

section Runs

variable [LinearOrder κ] {P : Type} [DecidableEq P] {maps : List ShMap} {m : ShMap}
  {known : List Semaphore} {shared : MapShm κ ν} {s : State P Semaphore (MapShm κ ν) MapAnswer}
  {r : Journal P (SharedOperation κ ν) MapAnswer}
  {events : List (Event P Semaphore (SharedOperation κ ν))}

/-- A map in a region of one page. -/
def countsMap : ShMap := ⟨⟨.map 0, 4152⟩, 4184⟩

/-- Memory with nothing in the map. -/
def noCounts : MapShm ℕ ℕ := ⟨⟨Heap.start onePage, fun _ => 0, [], []⟩, fun _ => []⟩

theorem countNode_pos : 0 < 48 := by decide

/-- The call of process 0. -/
def insertCount : SharedOperation ℕ ℕ :=
  .insert countsMap 7 42 ⟨48, countNode_pos⟩ (.done (.ok ()))

/-- Process 1 has to wait. -/
def insertMeetsFind : List (Event ℕ Semaphore (SharedOperation ℕ ℕ)) :=
  [.start 0 insertCount, .step 0 none, .start 1 (.find countsMap 7), .step 0 none, .step 0 none,
    .step 0 none, .step 0 none, .step 0 none, .step 0 none, .step 1 none, .step 1 none,
    .step 1 none]

theorem mapsApart_countsMap : MapsApart [countsMap] := by
  have hone : ∀ m ∈ [countsMap], m = countsMap := fun m hm => List.mem_singleton.mp hm
  refine ⟨fun m hm => hone m hm ▸ by decide, fun m hm m' hm' hne => ?_, fun m hm m' hm' hne => ?_⟩
  · exact absurd ((hone m' hm').trans (hone m hm).symm) hne
  · exact absurd ((hone m' hm').trans (hone m hm).symm) hne

theorem run_insertMeetsFind :
    letI := floorDifference
    ∃ s r, run (SharedOperation.recordedStep [countsMap] countsMap)
        (State.idle [.map 0, .region] noCounts, Journal.start) insertMeetsFind = some (s, r) ∧
      r.log = [(0, .invoked insertCount), (1, .invoked (.find countsMap 7)),
        (0, .served insertCount (.inserted 4152 true)),
        (1, .served (.find countsMap 7) (.found (some 4152)))] := by
  let _ := floorDifference
  have hlog : (run (SharedOperation.recordedStep [countsMap] countsMap)
      (State.idle [.map 0, .region] noCounts, Journal.start) insertMeetsFind).map
        (fun x => x.2.log) = some [(0, .invoked insertCount), (1, .invoked (.find countsMap 7)),
          (0, .served insertCount (.inserted 4152 true)),
          (1, .served (.find countsMap 7) (.found (some 4152)))] := by
    rfl
  obtain ⟨⟨s, r⟩, hrun, hr⟩ := Option.map_eq_some_iff.mp hlog
  exact ⟨s, r, hrun, hr⟩

end Runs

end TpAdvanced
