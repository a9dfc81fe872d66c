import TpAdvanced.Lib.Machine
import TpAdvanced.Lib.Ownership

/-!
# Files and their mappings

A `File` maps a file into memory: its constructor opens the file, maps it, and leaves the
closing of the descriptor to a local `Descriptor`; the mapping belongs to the object, which
moves it on or unmaps it.  `~Descriptor` asks for the wrong descriptors: it closes `fd_`
when this is -1, so a file that has been opened stays open.  The mappings are all unmapped.

Descriptors and mappings are named by their turn, since the kernel gives numbers and
addresses again.

## Main definitions

* `Descriptor.destroy`, `File.destroy` — the destructors.
* `Program.construct`, `moveConstruct`, `moveAssign` — the constructors and the assignment.
* `Program.step` — what a program does with its files.
* `Program.Releases` — what it is to have done.

## Main results

* `tally_step` — every operation keeps the mappings with their owners and sizes.
* `releases_iff` — **all mappings are released, and all descriptors exactly if none was
  opened.**
-/

namespace TpAdvanced

namespace Mappings

open Function (update)
open Machine Ownership

/-! ### The system calls -/

inductive OpenFlag
  | rdonly
  | rdwr
  deriving DecidableEq, Repr

/-- The protection and the sharing of a mapping: `PROT_WRITE` besides `PROT_READ`, and
`MAP_SHARED` in place of `MAP_PRIVATE`. -/
structure MapFlags where
  write : Bool
  shared : Bool
  deriving DecidableEq, Repr

/-- What is done with a descriptor. -/
inductive DescriptorCall
  | open_ (flag : OpenFlag)
  | mmap (size : ℕ) (flags : MapFlags)
  | close
  deriving DecidableEq, Repr

/-- What is done with a mapping. -/
inductive MapCall
  | mmap (size : ℕ)
  | munmap (size : ℕ)
  deriving DecidableEq, Repr

/-- What `open` and `mmap` answer.  Without a descriptor `mmap` fails. -/
inductive Answer
  | openFailed
  | mmapFailed
  | mapped
  deriving DecidableEq, Repr

/-- `open` succeeds. -/
def Answer.opens : Answer → Bool
  | .openFailed => false
  | _ => true

/-! ### The two classes -/

/-- A `Descriptor`, whose `fd_` is -1 where it has none. -/
structure Descriptor where
  fd : Option ℕ
  deriving DecidableEq, Repr

/-- `open`, and the `Descriptor` made of what it returns. -/
def Descriptor.ofOpen (descriptors : Ledger DescriptorCall) (flag : OpenFlag) (a : Answer) :
    Descriptor × Ledger DescriptorCall :=
  if a.opens then (⟨some descriptors.count⟩, descriptors.acquire [.open_ flag])
  else (⟨none⟩, descriptors)

/-- `~Descriptor`: `close(fd_)` if `fd_` is -1, which the kernel refuses. -/
def Descriptor.destroy (d : Descriptor) (descriptors : Ledger DescriptorCall) :
    Ledger DescriptorCall :=
  if d.fd = none then descriptors.use d.fd [.close] else descriptors

/-- `File::Mode`. -/
inductive Mode
  | readonly
  | readwrite
  deriving DecidableEq, Repr

def Mode.openFlag : Mode → OpenFlag
  | .readonly => .rdonly
  | .readwrite => .rdwr

def Mode.mapFlags : Mode → MapFlags
  | .readonly => ⟨false, false⟩
  | .readwrite => ⟨true, true⟩

/-- A `File`, whose `data_` is null where it has no mapping. -/
structure File where
  data : Option ℕ
  size : ℕ
  deriving DecidableEq, Repr

/-- The mapping of a file, with its size. -/
def File.mapping (f : File) : Option (ℕ × ℕ) := f.data.map fun r => (r, f.size)

/-- A file that has been moved from. -/
def File.movedFrom : File := ⟨none, 0⟩

/-- `~File`. -/
def File.destroy (f : File) (maps : Ledger MapCall) : Ledger MapCall :=
  if f.data = none then maps else maps.use f.data [.munmap f.size]

/-! ### Programs -/

/-- The files of a program, and what has happened to descriptors and mappings. -/
structure Program where
  files : ℕ → Option File
  descriptors : Ledger DescriptorCall
  maps : Ledger MapCall

namespace Program

/-- A program before its first file. -/
def start : Program := ⟨fun _ => none, ⟨fun _ => [], 0⟩, ⟨fun _ => [], 0⟩⟩

/-- `File(path, size, mode)`.  The local `Descriptor` is destroyed when the constructor
returns and when it throws; a file is there only in the first case. -/
def construct (p : Program) (x : ℕ) (mode : Mode) (size : ℕ) (a : Answer) : Program :=
  let (fd, descriptors) := Descriptor.ofOpen p.descriptors mode.openFlag a
  let descriptors := descriptors.use fd.fd [.mmap size mode.mapFlags]
  let descriptors := fd.destroy descriptors
  match a with
  | .mapped =>
    { files := update p.files x (some ⟨some p.maps.count, size⟩)
      descriptors := descriptors
      maps := p.maps.acquire [.mmap size] }
  | _ => { p with descriptors := descriptors }

/-- `File(File &&other)`: makes `y` out of `x`. -/
def moveConstruct (p : Program) (x y : ℕ) (other : File) : Program :=
  { p with files := update (update p.files x (some .movedFrom)) y (some other) }

/-- `operator=(File &&other)`, on `x` from `y`, which may be `x`.  `tmp` takes over what
`other` has, and leaves with what `*this` has then. -/
def moveAssign (p : Program) (x y : ℕ) (self other : File) : Program :=
  let self := if x = y then .movedFrom else self
  { p with
    files := update (update p.files y (some .movedFrom)) x (some other)
    maps := self.destroy p.maps }

/-- A file is destroyed. -/
def destroy (p : Program) (x : ℕ) (f : File) : Program :=
  { p with files := update p.files x none, maps := f.destroy p.maps }

/-- What a program does with its files. -/
inductive Operation
  | construct (x : ℕ) (mode : Mode) (size : ℕ) (a : Answer)
  /-- Makes `y` out of `x`. -/
  | moveConstruct (x y : ℕ)
  /-- Assigns to `x` from `y`. -/
  | moveAssign (x y : ℕ)
  | destroy (x : ℕ)
  deriving DecidableEq, Repr

/-- **A step of a program.**  A constructor needs a new name. -/
def step (p : Program) : Operation → Option Program
  | .construct x mode size a =>
    if (p.files x).isNone then some (p.construct x mode size a) else none
  | .moveConstruct x y =>
    match p.files x, p.files y with
    | some other, none => some (p.moveConstruct x y other)
    | _, _ => none
  | .moveAssign x y =>
    match p.files x, p.files y with
    | some self, some other => some (p.moveAssign x y self other)
    | _, _ => none
  | .destroy x => (p.files x).map fun f => p.destroy x f

/-- The operation opens a file. -/
def Operation.opens : Operation → Bool
  | .construct _ _ _ a => a.opens
  | _ => false

/-! ### What is to be released -/

/-- The mapping belongs to a file, which has the size it was mapped with, and has not been
unmapped; or it belongs to none, and has been unmapped once, with that size. -/
def KeepsMapping (p : Program) (r : ℕ) : Prop :=
  (∃ x f, p.files x = some f ∧ f.data = some r ∧ p.maps.uses r = [.mmap f.size]) ∨
    (∀ x f, p.files x = some f → f.data ≠ some r) ∧
      ∃ n, p.maps.uses r = [.munmap n, .mmap n]

/-- **What is released**: every descriptor, in the constructor that has opened it; every
mapping with its file; and when no file is left, every mapping. -/
structure Releases (p : Program) : Prop where
  descriptors : ∀ r < p.descriptors.count, Released .close (p.descriptors.uses r)
  mappings : ∀ r < p.maps.count, p.KeepsMapping r
  gone : (∀ x, p.files x = none) →
    ∀ r < p.maps.count, ∃ n, p.maps.uses r = [.munmap n, .mmap n]

/-- The mapping that a file has. -/
def owned (p : Program) (x : ℕ) : Option (ℕ × ℕ) := (p.files x).bind File.mapping

/-- The tally of the mappings. -/
def Tally (p : Program) : Prop := Tallied MapCall.mmap MapCall.munmap p.owned p.maps

variable {p p' : Program} {op : Operation} {ops : List Operation} {x y : ℕ} {f self other : File}

/-- **What a step of a program can do.** -/
theorem step_cases (hstep : p.step op = some p') :
    (∃ x mode size a, op = .construct x mode size a ∧ (p.files x).isNone ∧
        p' = p.construct x mode size a) ∨
      (∃ x y other, op = .moveConstruct x y ∧ p.files x = some other ∧ (p.files y).isNone ∧
        p' = p.moveConstruct x y other) ∨
      (∃ x y self other, op = .moveAssign x y ∧ p.files x = some self ∧ p.files y = some other ∧
        p' = p.moveAssign x y self other) ∨
      ∃ x f, op = .destroy x ∧ p.files x = some f ∧ p' = p.destroy x f := by
  cases op with
  | construct x mode size a =>
    simp only [step] at hstep
    split at hstep
    · rename_i hx
      cases hstep
      exact .inl ⟨x, mode, size, a, rfl, hx, rfl⟩
    · cases hstep
  | moveConstruct x y =>
    simp only [step] at hstep
    split at hstep
    · rename_i other hx hy
      cases hstep
      exact .inr (.inl ⟨x, y, other, rfl, hx, Option.isNone_iff_eq_none.mpr hy, rfl⟩)
    · cases hstep
  | moveAssign x y =>
    simp only [step] at hstep
    split at hstep
    · rename_i self other hx hy
      cases hstep
      exact .inr (.inr (.inl ⟨x, y, self, other, rfl, hx, hy, rfl⟩))
    · cases hstep
  | destroy x =>
    obtain ⟨f, hx, rfl⟩ := Option.map_eq_some_iff.mp hstep
    exact .inr (.inr (.inr ⟨x, f, rfl, hx, rfl⟩))

/-! ### The mappings -/

theorem owned_of_files (hx : p.files x = some f) : p.owned x = f.mapping := by
  rw [owned, hx, Option.bind_some]

theorem owned_of_isNone (hx : (p.files x).isNone) : p.owned x = none := by
  rw [owned, Option.isNone_iff_eq_none.mp hx, Option.bind_none]

theorem owned_update (files : ℕ → Option File) (f? : Option File) (d d' : Ledger DescriptorCall)
    (m m' : Ledger MapCall) :
    owned ⟨update files x f?, d, m⟩ = update (owned ⟨files, d', m'⟩) x (f?.bind File.mapping) := by
  funext y
  simp only [owned, Function.update_apply]
  split_ifs <;> rfl

theorem tally_start : start.Tally where
  sound :=
    { unique := fun h => by cases h
      lt_count := fun h => by cases h }
  held h := by cases h
  given r hr := by cases hr

/-- A mapping that has been made belongs to the new file. -/
theorem tally_construct (h : p.Tally) (hx : (p.files x).isNone) (mode : Mode) (size : ℕ)
    (a : Answer) : (p.construct x mode size a).Tally := by
  cases a with
  | mapped =>
    rw [Tally, construct, owned_update p.files _ _ p.descriptors _ p.maps]
    exact tallied_acquire h (owned_of_isNone hx) size
  | openFailed => exact h
  | mmapFailed => exact h

/-- A file that is destroyed unmaps what it has. -/
theorem tally_destroy (h : p.Tally) (hx : p.files x = some f) : (p.destroy x f).Tally := by
  rw [Tally, destroy, owned_update p.files _ _ p.descriptors _ p.maps, File.destroy]
  cases hdata : f.data with
  | none =>
    have hnone : p.owned x = none := by rw [owned_of_files hx, File.mapping, hdata, Option.map_none]
    rw [if_pos rfl, Option.bind_none, Function.update_eq_self_iff.mpr hnone.symm]
    exact h
  | some r =>
    have hsome : p.owned x = some (r, f.size) := by
      rw [owned_of_files hx, File.mapping, hdata, Option.map_some]
    rw [if_neg (Option.some_ne_none r), Option.bind_none]
    exact tallied_release h hsome

/-- A file that is moved from and the one that takes over exchange what they have. -/
theorem tally_moveConstruct (h : p.Tally) (hx : p.files x = some other)
    (hy : (p.files y).isNone) : (p.moveConstruct x y other).Tally := by
  have hexchange : (p.moveConstruct x y other).owned = p.owned ∘ Equiv.swap y x := by
    rw [Equiv.comp_swap_eq_update, moveConstruct,
      owned_update _ _ _ p.descriptors _ p.maps, owned_update p.files _ _ p.descriptors _ p.maps,
      owned_of_isNone hy, owned_of_files hx]
    rfl
  rw [Tally, hexchange]
  exact Tallied.comp h _

/-- **An assignment** unmaps what the file had, and takes over what the other one has; from
a file to itself it changes nothing. -/
theorem tally_moveAssign (h : p.Tally) (hx : p.files x = some self) (hy : p.files y = some other) :
    (p.moveAssign x y self other).Tally := by
  by_cases hxy : x = y
  · subst hxy
    obtain rfl := Option.some.inj (hx.symm.trans hy)
    have hsame : p.moveAssign x x self self = p := by
      have hfiles : update (update p.files x (some .movedFrom)) x (some self) = p.files := by
        rw [Function.update_idem, Function.update_eq_self_iff, hx]
      rw [moveAssign, if_pos rfl, hfiles]
      rfl
    rwa [hsame]
  · -- the file unmaps what it has, and then takes the place of the other one
    have hq : (p.destroy x self).Tally := tally_destroy h hx
    have hexchange : (p.moveAssign x y self other).owned =
        (p.destroy x self).owned ∘ Equiv.swap x y := by
      rw [Equiv.comp_swap_eq_update, moveAssign, destroy,
        owned_update _ _ _ p.descriptors _ p.maps, owned_update p.files _ _ p.descriptors _ p.maps,
        owned_update p.files _ _ p.descriptors _ p.maps, Function.update_self,
        Function.update_of_ne (Ne.symm hxy), Option.bind_none, owned_of_files hy]
      rw [Function.update_comm hxy, Function.update_idem]
      rfl
    have hmaps : (p.moveAssign x y self other).maps = (p.destroy x self).maps := by
      rw [moveAssign, destroy, if_neg hxy]
    rw [Tally, hexchange, hmaps]
    exact Tallied.comp hq _

/-- **Every operation keeps the mappings** with their owners and sizes. -/
theorem tally_step (h : p.Tally) (hstep : p.step op = some p') : p'.Tally := by
  rcases step_cases hstep with ⟨x, mode, size, a, -, hx, rfl⟩ | ⟨x, y, other, -, hx, hy, rfl⟩ |
    ⟨x, y, self, other, -, hx, hy, rfl⟩ | ⟨x, f, -, hx, rfl⟩
  · exact tally_construct h hx mode size a
  · exact tally_moveConstruct h hx hy
  · exact tally_moveAssign h hx hy
  · exact tally_destroy h hx

theorem tally_run (hrun : run step start ops = some p) : p.Tally :=
  invariant_run Tally (fun _ _ _ => tally_step) tally_start hrun

/-- What a tally says. -/
theorem keepsMapping_of_tally (h : p.Tally) {r : ℕ} (hr : r < p.maps.count) :
    p.KeepsMapping r := by
  by_cases hheld : Held (untagged p.owned) r
  · obtain ⟨x, hx⟩ := hheld
    obtain ⟨n, hx⟩ := exists_owned hx
    obtain ⟨f, hf, hmapping⟩ := Option.bind_eq_some_iff.mp hx
    obtain ⟨r', hdata, hpair⟩ := Option.map_eq_some_iff.mp hmapping
    cases hpair
    exact .inl ⟨x, f, hf, hdata, h.held hx⟩
  · refine .inr ⟨fun x f hf hdata => hheld ⟨x, ?_⟩, h.given r hr hheld⟩
    rw [untagged, Function.comp_apply, owned_of_files hf, File.mapping, hdata]
    rfl

/-- Where no file is left, what is kept is released. -/
theorem unmapped_of_keepsMapping {r : ℕ} (h : p.KeepsMapping r) (hnone : ∀ x, p.files x = none) :
    ∃ n, p.maps.uses r = [.munmap n, .mmap n] := by
  rcases h with ⟨x, f, hf, -⟩ | ⟨-, hgiven⟩
  · cases (hnone x).symm.trans hf
  · exact hgiven

/-! ### The descriptors -/

/-- The descriptor of a constructor stays open: `~Descriptor` does nothing for it. -/
theorem descriptors_construct (mode : Mode) (size : ℕ) (a : Answer) :
    (p.construct x mode size a).descriptors =
      if a.opens then p.descriptors.acquire [.mmap size mode.mapFlags, .open_ mode.openFlag]
      else p.descriptors := by
  have hdestroy : (Descriptor.mk (some p.descriptors.count)).destroy
      ((p.descriptors.acquire [.open_ mode.openFlag]).use (some p.descriptors.count)
        [.mmap size mode.mapFlags]) =
      p.descriptors.acquire [.mmap size mode.mapFlags, .open_ mode.openFlag] := by
    rw [Descriptor.destroy, if_neg (Option.some_ne_none _), Ledger.acquire_use]
    rfl
  cases a with
  | openFailed => rfl
  | mmapFailed => exact hdestroy
  | mapped => exact hdestroy

/-- **No descriptor is closed**, and there is one for every constructor that opens a file. -/
theorem descriptors_step (hstep : p.step op = some p')
    (h : ∀ r < p.descriptors.count, .close ∉ p.descriptors.uses r) :
    (∀ r < p'.descriptors.count, .close ∉ p'.descriptors.uses r) ∧
      p'.descriptors.count = p.descriptors.count + if op.opens then 1 else 0 := by
  rcases step_cases hstep with ⟨x, mode, size, a, rfl, -, rfl⟩ | ⟨x, y, other, rfl, -, -, rfl⟩ |
    ⟨x, y, self, other, rfl, -, -, rfl⟩ | ⟨x, f, rfl, -, rfl⟩
  · rw [descriptors_construct, Operation.opens]
    split
    · refine ⟨fun r hr => ?_, rfl⟩
      rcases Nat.lt_succ_iff_lt_or_eq.mp hr with hlt | rfl
      · rw [Ledger.acquire_uses_of_lt _ _ hlt]
        exact h r hlt
      · rw [Ledger.acquire_uses_self]
        simp
    · exact ⟨h, rfl⟩
  -- moves and destructors have no descriptor
  · exact ⟨h, rfl⟩
  · exact ⟨h, rfl⟩
  · exact ⟨h, rfl⟩

theorem descriptors_run (hrun : run step p ops = some p')
    (h : ∀ r < p.descriptors.count, .close ∉ p.descriptors.uses r) :
    (∀ r < p'.descriptors.count, .close ∉ p'.descriptors.uses r) ∧
      p'.descriptors.count = p.descriptors.count + ops.countP Operation.opens := by
  induction ops generalizing p with
  | nil =>
    cases hrun
    exact ⟨h, rfl⟩
  | cons op ops ih =>
    obtain ⟨p₁, hstep, hrest⟩ := run_cons_eq_some.mp hrun
    obtain ⟨hopen, hcount⟩ := descriptors_step hstep h
    obtain ⟨hopen', hcount'⟩ := ih hrest hopen
    refine ⟨hopen', ?_⟩
    rw [hcount', hcount, List.countP_cons, Nat.add_assoc, Nat.add_comm (ops.countP _)]

/-- **What a program releases.**  In every run each mapping is unmapped once, with its size,
when its file goes; and every descriptor is closed in the constructor that opens it exactly
if no constructor opens a file. -/
theorem releases_iff (hrun : run step start ops = some p) :
    (∀ r < p.maps.count, p.KeepsMapping r) ∧
      ((∀ x, p.files x = none) →
        ∀ r < p.maps.count, ∃ n, p.maps.uses r = [.munmap n, .mmap n]) ∧
      (p.Releases ↔ ∀ op ∈ ops, op.opens = false) := by
  have hkeeps : ∀ r < p.maps.count, p.KeepsMapping r := fun r =>
    keepsMapping_of_tally (tally_run hrun)
  have hgone : (∀ x, p.files x = none) →
      ∀ r < p.maps.count, ∃ n, p.maps.uses r = [.munmap n, .mmap n] :=
    fun hnone r hr => unmapped_of_keepsMapping (hkeeps r hr) hnone
  obtain ⟨hopen, hcount⟩ := descriptors_run hrun fun r hr => by cases hr
  have hzero : p.descriptors.count = 0 ↔ ∀ op ∈ ops, op.opens = false := by
    rw [hcount, show start.descriptors.count = 0 from rfl, Nat.zero_add, List.countP_eq_zero]
    simp
  refine ⟨hkeeps, hgone, ?_⟩
  rw [← hzero]
  constructor
  · intro h
    by_contra hne
    have hpos := Nat.pos_of_ne_zero hne
    exact hopen 0 hpos (mem_of_released (h.descriptors 0 hpos))
  · intro h
    refine ⟨fun r hr => ?_, hkeeps, hgone⟩
    rw [h] at hr
    cases hr

/-- Two files, of which the second is assigned to the first. -/
def twoFiles : List Operation :=
  [.construct 0 .readonly 4096 .mapped, .construct 1 .readwrite 8192 .mapped, .moveAssign 0 1,
    .destroy 0, .destroy 1]

/-- Both mappings are unmapped, and both descriptors stay open. -/
theorem releases_iff_twoFiles : ∃ p, run step start twoFiles = some p ∧
    (∀ r < p.maps.count, ∃ n, p.maps.uses r = [.munmap n, .mmap n]) ∧ ¬ p.Releases := by
  obtain ⟨p, hrun⟩ : ∃ p, run step start twoFiles = some p := ⟨_, rfl⟩
  obtain ⟨-, hgone, hiff⟩ := releases_iff hrun
  refine ⟨p, hrun, hgone fun x => ?_, ?_⟩
  · cases hrun
    rcases x with _ | _ | x <;> rfl
  · rw [hiff]
    decide

/-- A file is opened, and its constructor returns with the descriptor open. -/
theorem descriptor_not_closed :
    ¬ ∀ (ops : List Operation) (p : Program), run step start ops = some p → p.Releases := by
  intro h
  have hreleases := h [.construct 0 .readonly 4096 .mapped] _ rfl
  have hclosed := mem_of_released (hreleases.descriptors 0 (by decide))
  revert hclosed
  decide

end Program

end Mappings

end TpAdvanced
