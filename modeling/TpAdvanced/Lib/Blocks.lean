import Mathlib.Data.List.Basic
import Mathlib.Tactic.Common

/-!
# Blocks that are written in place

Memory as a list.  A block that is written at a place leaves the rest as it was, so
blocks that do not overlap can be read back after all of them have been written, in
whatever order that was.

## Main definitions

* `List.overwrite`, `List.overwriteAll` — writing one block, or several in turn.
* `List.block` — reading one.

## Main results

* `List.block_overwriteAll` — **blocks that do not overlap are read back**.
-/

namespace List

variable {α : Type*} {l b : List α} {p q n : ℕ} {ws : List (ℕ × List α)} {w : ℕ × List α}

/-- The list with `b` at place `p`. -/
def overwrite (l : List α) (p : ℕ) (b : List α) : List α := l.take p ++ b ++ l.drop (p + b.length)

/-- The list with the blocks written one after another. -/
def overwriteAll (l : List α) (ws : List (ℕ × List α)) : List α :=
  ws.foldl (fun l w => l.overwrite w.1 w.2) l

/-- The `n` symbols from `p` on. -/
def block (l : List α) (p n : ℕ) : List α := (l.drop p).take n

theorem length_overwrite (h : p + b.length ≤ l.length) : (l.overwrite p b).length = l.length := by
  simp only [overwrite, length_append, length_take, length_drop]
  omega

theorem getElem?_overwrite (h : p + b.length ≤ l.length) (i : ℕ) :
    (l.overwrite p b)[i]? = if i < p ∨ p + b.length ≤ i then l[i]? else b[i - p]? := by
  have htake : (l.take p).length = p := length_take_of_le (by omega)
  rw [overwrite, append_assoc, getElem?_append, htake]
  by_cases hlow : i < p
  · rw [if_pos hlow, if_pos (.inl hlow), getElem?_take_of_lt hlow]
  · rw [if_neg hlow, getElem?_append]
    by_cases hhigh : p + b.length ≤ i
    · rw [if_neg (by omega), if_pos (.inr hhigh), getElem?_drop]
      congr 1
      omega
    · rw [if_pos (by omega), if_neg (by omega)]

theorem getElem?_block (i : ℕ) : (l.block p n)[i]? = if i < n then l[p + i]? else none := by
  rw [block, getElem?_take, getElem?_drop]

theorem block_overwrite_self (h : p + b.length ≤ l.length) :
    (l.overwrite p b).block p b.length = b := by
  refine ext_getElem? fun i => ?_
  rw [getElem?_block, getElem?_overwrite h]
  split_ifs with hi hout
  · omega
  · rw [Nat.add_sub_cancel_left]
  · exact (getElem?_eq_none (by omega)).symm

/-- The rest is as it was. -/
theorem block_overwrite_of_disjoint (h : p + b.length ≤ l.length)
    (hapart : q + n ≤ p ∨ p + b.length ≤ q) : (l.overwrite p b).block q n = l.block q n := by
  refine ext_getElem? fun i => ?_
  rw [getElem?_block, getElem?_block, getElem?_overwrite h]
  split_ifs with hi hout
  · rfl
  · omega
  · rfl

theorem overwriteAll_cons : l.overwriteAll (w :: ws) = (l.overwrite w.1 w.2).overwriteAll ws := rfl

theorem length_overwriteAll (h : ∀ w ∈ ws, w.1 + w.2.length ≤ l.length) :
    (l.overwriteAll ws).length = l.length := by
  induction ws generalizing l with
  | nil => rfl
  | cons w ws ih =>
    have hw := length_overwrite (h w mem_cons_self)
    rw [overwriteAll_cons, ih, hw]
    intro w' hw'
    rw [hw]
    exact h w' (mem_cons_of_mem w hw')

/-- What no write touches. -/
theorem block_overwriteAll_of_disjoint (h : ∀ w ∈ ws, w.1 + w.2.length ≤ l.length)
    (hapart : ∀ w ∈ ws, q + n ≤ w.1 ∨ w.1 + w.2.length ≤ q) :
    (l.overwriteAll ws).block q n = l.block q n := by
  induction ws generalizing l with
  | nil => rfl
  | cons w ws ih =>
    have hw := h w mem_cons_self
    rw [overwriteAll_cons, ih, block_overwrite_of_disjoint hw (hapart w mem_cons_self)]
    · intro w' hw'
      rw [length_overwrite hw]
      exact h w' (mem_cons_of_mem w hw')
    · exact fun w' hw' => hapart w' (mem_cons_of_mem w hw')

/-- **Blocks that do not overlap are read back.** -/
theorem block_overwriteAll (h : ∀ w ∈ ws, w.1 + w.2.length ≤ l.length)
    (hapart : ws.Pairwise fun w w' => w.1 + w.2.length ≤ w'.1 ∨ w'.1 + w'.2.length ≤ w.1)
    (hw : w ∈ ws) : (l.overwriteAll ws).block w.1 w.2.length = w.2 := by
  induction ws generalizing l with
  | nil => exact absurd hw not_mem_nil
  | cons w₀ ws ih =>
    have hfits := h w₀ mem_cons_self
    have hrest : ∀ w ∈ ws, w.1 + w.2.length ≤ (l.overwrite w₀.1 w₀.2).length := by
      intro w' hw'
      rw [length_overwrite hfits]
      exact h w' (mem_cons_of_mem w₀ hw')
    obtain ⟨hfirst, hothers⟩ := pairwise_cons.mp hapart
    rw [overwriteAll_cons]
    rcases mem_cons.mp hw with rfl | hw
    · rw [block_overwriteAll_of_disjoint hrest hfirst, block_overwrite_self hfits]
    · exact ih hrest hothers hw

end List
