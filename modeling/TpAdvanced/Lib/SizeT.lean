import Mathlib.Algebra.Group.Nat.Defs
import Mathlib.Tactic.Common

/-!
# `size_t`

Arithmetic on 64-bit unsigned numbers, kept as natural numbers: every operation is
reduced modulo `2 ^ 64`, and where nothing overflows the reduction goes away.
-/

namespace SizeT

def add (a b : ℕ) : ℕ := (a + b) % 2 ^ 64

def mul (a b : ℕ) : ℕ := a * b % 2 ^ 64

/-- The difference of two numbers below `2 ^ 64`. -/
def sub (a b : ℕ) : ℕ := (a + 2 ^ 64 - b) % 2 ^ 64

variable {a b : ℕ}

theorem add_of_lt (h : a + b < 2 ^ 64) : add a b = a + b := Nat.mod_eq_of_lt h

theorem mul_of_lt (h : a * b < 2 ^ 64) : mul a b = a * b := Nat.mod_eq_of_lt h

theorem sub_of_le (hle : b ≤ a) (h : a < 2 ^ 64) : sub a b = a - b := by
  unfold sub
  omega

end SizeT
