import Mathlib.Tactic.Common

/-!
# Sets of epoll events

`EventsSet` is a mask of epoll flags.

## Main definitions

* `Events` — the flags, with the values of the Linux headers.
* `EventsSet` — a mask, with `add`, `sub`, `contains`.
-/

namespace TpAdvanced

inductive Events
  | in_
  | out
  | err
  | pri
  | hup
  | rdhup
  | exclusive
  | edge
  | oneshot
  deriving DecidableEq, Repr

/-- The flag. -/
def Events.mask : Events → UInt32
  | .in_ => 0x001
  | .pri => 0x002
  | .out => 0x004
  | .err => 0x008
  | .hup => 0x010
  | .rdhup => 0x2000
  | .exclusive => 0x10000000
  | .oneshot => 0x40000000
  | .edge => 0x80000000

structure EventsSet where
  events : UInt32
  deriving DecidableEq, Repr

namespace EventsSet

/-- The set of the given events. -/
def ofList (es : List Events) : EventsSet := ⟨es.foldl (fun m e => m ||| e.mask) 0⟩

/-- `sub`. -/
def sub (s : EventsSet) (e : Events) : EventsSet := ⟨s.events &&& ~~~e.mask⟩

/-- `add`. -/
def add (s : EventsSet) (e : Events) : EventsSet := ⟨s.events ||| e.mask⟩

/-- `contains`. -/
def contains (s : EventsSet) (e : Events) : Bool := s.events &&& e.mask != 0

/-- `haveIntersection`. -/
def haveIntersection (s t : EventsSet) : Bool := s.events &&& t.events != 0

/-- `diff`: the flags in which the sets differ. -/
def diff (s t : EventsSet) : EventsSet := ⟨t.events ^^^ s.events⟩

/-- `empty`. -/
def empty (s : EventsSet) : Bool := s.events == 0

/-- Turning from reading to writing. -/
@[simp] theorem in_to_out : ((ofList [.in_]).sub .in_).add .out = ofList [.out] := by decide

/-- Turning from writing to reading. -/
@[simp] theorem out_to_in : ((ofList [.out]).sub .out).add .in_ = ofList [.in_] := by decide

end EventsSet

end TpAdvanced
