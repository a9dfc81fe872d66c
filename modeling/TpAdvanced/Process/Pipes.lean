import Mathlib.Logic.Function.Basic
import Mathlib.Tactic.Common
import TpAdvanced.Lib.Machine

/-!
# Processes and their pipes

The descriptor tables of a parent and of the processes below it.  `fork` copies the
table of its caller, no descriptor is closed by `execv`, and `close` of an open
descriptor succeeds.  The numbers that `pipe` gives are any free ones.

## Main definitions

* `Table`, `Descriptor` — a descriptor table, and an owned number in it.
* `Process`, `Process.childTable` — the objects, and the table a child is left with.
* `Processes.step` — the calls of the parent, and what the children do.
-/

namespace TpAdvanced

inductive PipeEnd
  | reader
  | writer
  deriving DecidableEq, Repr

/-- What a descriptor stands for. -/
inductive OpenFile
  | pipe (id : ℕ) (side : PipeEnd)
  | other
  deriving DecidableEq, Repr

/-- The descriptors of a process. -/
abbrev Table := ℕ → Option OpenFile

/-- `Descriptor`; without a number it is closed. -/
abbrev Descriptor := Option ℕ

namespace Table

open Function (update)

/-- `Descriptor::close`. -/
def close (t : Table) : Descriptor → Table
  | none => t
  | some fd => update t fd none

/-- `dup2`, as in `Descriptor::bind`. -/
def dup2 (t : Table) (fd new : ℕ) : Table :=
  match t fd with
  | none => t
  | some f => update t new (some f)

/-- `make_pipe` with the numbers that `pipe` gives. -/
def makePipe (t : Table) (id reader writer : ℕ) : Table :=
  update (update t reader (some (.pipe id .reader))) writer (some (.pipe id .writer))

end Table

/-- The numbers of the two pipes of a process. -/
structure PipeNumbers where
  childRead : ℕ
  parentWrite : ℕ
  parentRead : ℕ
  childWrite : ℕ
  deriving DecidableEq, Repr

namespace PipeNumbers

def toList (n : PipeNumbers) : List ℕ := [n.childRead, n.parentWrite, n.parentRead, n.childWrite]

/-- The numbers are distinct and not in use. -/
def Free (n : PipeNumbers) (t : Table) : Prop := n.toList.Nodup ∧ ∀ fd ∈ n.toList, t fd = none

instance (n : PipeNumbers) (t : Table) : Decidable (n.Free t) :=
  inferInstanceAs (Decidable (_ ∧ ∀ fd ∈ n.toList, t fd = none))

end PipeNumbers

/-- `Process`, with the pipe that the child reads. -/
structure Process where
  childPid : ℕ
  reader : Descriptor
  writer : Descriptor
  stdin : ℕ
  deriving DecidableEq, Repr

namespace Process

/-- The table before `fork`, with the two pipes `id` and `id + 1`. -/
def withPipes (t : Table) (id : ℕ) (n : PipeNumbers) : Table :=
  (t.makePipe id n.childRead n.parentWrite).makePipe (id + 1) n.parentRead n.childWrite

/-- What the child makes of its copy before `execv`. -/
def childTable (t : Table) (n : PipeNumbers) : Table :=
  let t := t.close n.parentWrite
  let t := t.close n.parentRead
  let t := t.dup2 n.childRead 0
  let t := t.dup2 n.childWrite 1
  let t := t.close n.childRead
  t.close n.childWrite

/-- What the parent makes of its table after `fork`. -/
def parentTable (t : Table) (n : PipeNumbers) : Table :=
  (t.close n.childRead).close n.childWrite

end Process

/-- The processes with their tables, the parent as number 0, and the objects of the
parent.  An object that has been destroyed keeps its place. -/
structure Processes where
  tables : ℕ → Option Table
  objects : ℕ → Option Process
  nextPid : ℕ
  nextPipe : ℕ

inductive ProcessEvent
  /-- `Process(path, args)`; where it throws it has closed its pipes. -/
  | construct (i : ℕ) (n : PipeNumbers)
  | constructThrows
  | closeStdin (i : ℕ)
  | close (i : ℕ)
  /-- `~Process`, up to its `waitpid`. -/
  | destroy (i : ℕ)
  /-- A child starts a process of its own. -/
  | childForks (pid : ℕ)
  | childCloses (pid fd : ℕ)
  | childDups (pid fd new : ℕ)
  /-- A child ends, or cannot run its program. -/
  | childExits (pid : ℕ)
  deriving DecidableEq, Repr

namespace Processes

open Function (update)

/-- A parent with these descriptors, of which none is a pipe. -/
def start (opened : ℕ → Bool) : Processes where
  tables := update (fun _ => none) 0 (some fun fd => if opened fd then some .other else none)
  objects := fun _ => none
  nextPid := 1
  nextPipe := 0

/-- The constructor of `Process`. -/
def construct (s : Processes) (t : Table) (i : ℕ) (n : PipeNumbers) : Processes where
  tables :=
    let t := Process.withPipes t s.nextPipe n
    update (update s.tables 0 (some (Process.parentTable t n))) s.nextPid
      (some (Process.childTable t n))
  objects := update s.objects i (some ⟨s.nextPid, n.parentRead, n.parentWrite, s.nextPipe⟩)
  nextPid := s.nextPid + 1
  nextPipe := s.nextPipe + 2

/-- `closeStdin`. -/
def closeStdin (s : Processes) (t : Table) (i : ℕ) (p : Process) : Processes :=
  { s with
    tables := update s.tables 0 (some (t.close p.writer))
    objects := update s.objects i (some { p with writer := none }) }

/-- `close`, which is all that the destructor does before it waits. -/
def close (s : Processes) (t : Table) (i : ℕ) (p : Process) : Processes :=
  { s with
    tables := update s.tables 0 (some ((t.close p.writer).close p.reader))
    objects := update s.objects i (some { p with writer := none, reader := none }) }

/-- A child does something with its table. -/
def onChild (s : Processes) (pid : ℕ) (f : Table → Processes) : Option Processes :=
  if pid = 0 then none else (s.tables pid).map f

/-- **A step** of the parent or of a child. -/
def step (s : Processes) : ProcessEvent → Option Processes
  | .construct i n => do
    let t ← s.tables 0
    if n.Free t ∧ (s.objects i).isNone then some (s.construct t i n) else none
  | .constructThrows => some s
  | .closeStdin i => do
    let t ← s.tables 0
    let p ← s.objects i
    some (s.closeStdin t i p)
  | .close i | .destroy i => do
    let t ← s.tables 0
    let p ← s.objects i
    some (s.close t i p)
  | .childForks pid => s.onChild pid fun t =>
    { s with tables := update s.tables s.nextPid (some t), nextPid := s.nextPid + 1 }
  | .childCloses pid fd => s.onChild pid fun t =>
    { s with tables := update s.tables pid (some (t.close fd)) }
  | .childDups pid fd new => s.onChild pid fun t =>
    { s with tables := update s.tables pid (some (t.dup2 fd new)) }
  | .childExits pid => s.onChild pid fun _ => { s with tables := update s.tables pid none }

theorem tables_start (opened : ℕ → Bool) : (start opened).tables =
    update (fun _ => none) 0 (some fun fd => if opened fd then some .other else none) := rfl

theorem tables_construct (s : Processes) (t : Table) (i : ℕ) (n : PipeNumbers) :
    (s.construct t i n).tables =
      update (update s.tables 0 (some (Process.parentTable (Process.withPipes t s.nextPipe n) n)))
        s.nextPid (some (Process.childTable (Process.withPipes t s.nextPipe n) n)) := rfl

theorem objects_construct (s : Processes) (t : Table) (i : ℕ) (n : PipeNumbers) :
    (s.construct t i n).objects =
      update s.objects i (some ⟨s.nextPid, n.parentRead, n.parentWrite, s.nextPipe⟩) := rfl

/-- The process holds the write end of this pipe. -/
def Holds (s : Processes) (pid id : ℕ) : Prop :=
  ∃ t fd, s.tables pid = some t ∧ t fd = some (.pipe id .writer)

end Processes

end TpAdvanced
