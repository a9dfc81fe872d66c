import Mathlib.Data.List.Basic
import Mathlib.Tactic.Common

/-!
# Pipes

A pipe keeps what is put into it, in order, up to its capacity.  Any part of what there is
room for can be put in by one call, and any part of what is in it taken out by one.

## Main definitions

* `Pipe` — what is in a pipe, within its capacity.
* `Pipe.put`, `Pipe.get` — a call at either end.

## Main results

* `put_eq_some`, `get_eq_some` — what the calls do.
* `full_of_put`, `nil_of_get` — when not even one element goes in or out.
-/

/-- A pipe with this capacity. -/
structure Pipe (α : Type*) (capacity : ℕ) where
  contents : List α
  fits : contents.length ≤ capacity
  deriving DecidableEq

namespace Pipe

variable {α : Type*} {capacity : ℕ}

def empty (α : Type*) (capacity : ℕ) : Pipe α capacity := ⟨[], Nat.zero_le capacity⟩

/-- `d` is put in, if there is room for it. -/
def put (p : Pipe α capacity) (d : List α) : Option (Pipe α capacity) :=
  if h : (p.contents ++ d).length ≤ capacity then some ⟨p.contents ++ d, h⟩ else none

/-- `d` is taken out, if it is what comes first. -/
def get [DecidableEq α] (p : Pipe α capacity) (d : List α) : Option (Pipe α capacity) :=
  if d <+: p.contents then
    some ⟨p.contents.drop d.length, Nat.le_trans (List.drop_sublist _ _).length_le p.fits⟩
  else none

variable {p q : Pipe α capacity} {d : List α}

theorem put_eq_some : p.put d = some q ↔ q.contents = p.contents ++ d := by
  unfold put
  split
  · rename_i h
    rw [Option.some_inj]
    constructor
    · rintro rfl
      rfl
    · intro hq
      cases q
      cases hq
      rfl
  · rename_i h
    refine iff_of_false nofun fun hq => h ?_
    rw [← hq]
    exact q.fits

theorem get_eq_some [DecidableEq α] : p.get d = some q ↔ p.contents = d ++ q.contents := by
  unfold get
  split
  · rename_i h
    obtain ⟨rest, hrest⟩ := h
    rw [Option.some_inj]
    constructor
    · rintro rfl
      dsimp only
      rw [← hrest, List.drop_left]
    · intro hq
      cases q
      cases List.append_cancel_left (hrest.trans hq)
      rw [Pipe.mk.injEq, ← hrest, List.drop_left]
  · rename_i h
    exact iff_of_false nofun fun hq => h ⟨_, hq.symm⟩

/-- Where not even one element goes in, the pipe is full. -/
theorem full_of_put (h : d.length = 1) (hput : p.put d = none) : p.contents.length = capacity := by
  by_contra hne
  have hlt : p.contents.length < capacity := Nat.lt_of_le_of_ne p.fits hne
  have hroom : (p.contents ++ d).length ≤ capacity := by
    rw [List.length_append, h]
    exact hlt
  cases (dif_pos hroom).symm.trans hput

theorem length_first (h : p.contents ≠ []) : (p.contents.take 1).length = 1 :=
  List.length_take_of_le (List.length_pos_of_ne_nil h)

/-- Where not even one element comes out, the pipe is empty. -/
theorem nil_of_get [DecidableEq α] (hget : p.get (p.contents.take 1) = none) :
    p.contents = [] := by
  cases (if_pos (List.take_prefix 1 p.contents)).symm.trans hget

end Pipe
