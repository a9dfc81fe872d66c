import Mathlib.Data.List.Basic
import Mathlib.Data.List.Infix
import Mathlib.Data.Nat.Find
import Mathlib.Tactic.Common

/-!
# The first occurrence of a pattern in a list

`findSub pat s` is the first position of `s` at which `pat` occurs, the search
every delimiter-driven reader rests on.  What makes such a reader resumable is
that an occurrence, once seen, stays the first one however the text grows
(`findSub_append`), and that a text which grows past an unseen delimiter can
only complete it at its very end (`findSub_concat`).

## Main definitions

* `List.findSub pat s` — the first position at which `pat` occurs in `s`.
* `List.cutAt c s` — the two parts of `s` around its first `c`.

## Main results

* `findSub_eq_some_iff` — the specification of `findSub`.
* `findSub_append` — an occurrence survives appending.
* `findSub_append_of_notMem` — how far a search runs over text free of the
  pattern's first symbol.
* `forall_append_cons_iff`, `mem_takeWhile_iff` — the places in a list, by what is in front.
-/

namespace List

variable {α : Type*} [DecidableEq α]

/-- The first position of `s` at which `pat` occurs. -/
def findSub (pat : List α) : List α → Option ℕ
  | [] => if pat = [] then some 0 else none
  | c :: s => if pat <+: c :: s then some 0 else (findSub pat s).map (· + 1)

theorem findSub_cons_pos {pat s : List α} {c : α} (h : pat <+: c :: s) :
    findSub pat (c :: s) = some 0 := by simp [findSub, h]

theorem findSub_cons_neg {pat s : List α} {c : α} (h : ¬ pat <+: c :: s) :
    findSub pat (c :: s) = (findSub pat s).map (· + 1) := by simp [findSub, h]

/-- **The specification of `findSub`**: the pattern occurs at the position found
and at no position before it. -/
theorem findSub_eq_some_iff {pat : List α} : ∀ {s : List α} {i : ℕ},
    findSub pat s = some i ↔
      i ≤ s.length ∧ pat <+: s.drop i ∧ ∀ j < i, ¬ pat <+: s.drop j := by
  intro s
  induction s with
  | nil =>
    intro i
    by_cases hp : pat = []
    · subst hp
      cases i <;> simp [findSub]
    · simp [findSub, hp]
  | cons c s ih =>
    intro i
    by_cases hp : pat <+: c :: s
    · rw [findSub_cons_pos hp]
      cases i with
      | zero => simp [hp]
      | succ i =>
        simp only [Option.some.injEq, reduceCtorEq, false_iff, not_and, not_forall]
        intro _ _
        exact ⟨0, by omega, by simpa using hp⟩
    · rw [findSub_cons_neg hp]
      cases i with
      | zero => simp [hp]
      | succ i =>
        simp only [Option.map_eq_some_iff, Nat.add_right_cancel_iff, exists_eq_right, ih,
          length_cons, Nat.add_le_add_iff_right, drop_succ_cons]
        refine and_congr_right fun _ => and_congr_right fun _ =>
          ⟨fun h j hj => ?_, fun h j hj => ?_⟩
        · cases j with
          | zero => simpa using hp
          | succ j => exact h j (by omega)
        · exact h (j + 1) (by omega)

/-- The pattern found fits between its position and the end of the text. -/
theorem findSub_add_length_le {pat s : List α} {i : ℕ} (h : findSub pat s = some i) :
    i + pat.length ≤ s.length := by
  obtain ⟨hi, hp, -⟩ := findSub_eq_some_iff.mp h
  have := hp.length_le
  rw [length_drop] at this
  omega

theorem prefix_drop_of_findSub {pat s : List α} {i : ℕ} (h : findSub pat s = some i) :
    pat <+: s.drop i := (findSub_eq_some_iff.mp h).2.1

/-- A text in which the pattern is found, in three parts. -/
theorem eq_append_of_findSub {pat s : List α} {i : ℕ} (h : findSub pat s = some i) :
    s = s.take i ++ (pat ++ s.drop (i + pat.length)) := by
  obtain ⟨t, ht⟩ := prefix_drop_of_findSub h
  rw [← drop_drop, ← ht, drop_left, ht, take_append_drop]

/-- Wherever the pattern occurs, the search stops there or earlier. -/
theorem exists_findSub_of_prefix_drop {pat s : List α} {j : ℕ} (hj : j ≤ s.length)
    (h : pat <+: s.drop j) : ∃ i ≤ j, findSub pat s = some i := by
  have hex : ∃ k, pat <+: s.drop k := ⟨j, h⟩
  have hle : Nat.find hex ≤ j := Nat.find_min' hex h
  exact ⟨Nat.find hex, hle, findSub_eq_some_iff.mpr
    ⟨hle.trans hj, Nat.find_spec hex, fun _ hk => Nat.find_min hex hk⟩⟩

omit [DecidableEq α] in
/-- An occurrence inside `s ++ t` that ends within `s` is an occurrence in `s`. -/
theorem prefix_of_prefix_append {pat s t : List α} (hlen : pat.length ≤ s.length)
    (h : pat <+: s ++ t) : pat <+: s :=
  prefix_of_prefix_length_le h (prefix_append s t) hlen

/-- **An occurrence survives appending**: the first one stays the first one. -/
theorem findSub_append {pat s : List α} {i : ℕ} (h : findSub pat s = some i) (t : List α) :
    findSub pat (s ++ t) = some i := by
  have hlen := findSub_add_length_le h
  obtain ⟨hi, hp, hmin⟩ := findSub_eq_some_iff.mp h
  refine findSub_eq_some_iff.mpr ⟨by simp; omega, ?_, fun j hj hpj => hmin j hj ?_⟩
  · rw [drop_append_of_le_length hi]
    exact hp.trans (prefix_append _ _)
  · rw [drop_append_of_le_length (by omega)] at hpj
    exact prefix_of_prefix_append (by rw [length_drop]; omega) hpj

/-- The same along a prefix rather than an append. -/
theorem findSub_of_prefix {pat s s' : List α} {i : ℕ} (hs : s <+: s')
    (h : findSub pat s = some i) : findSub pat s' = some i := by
  obtain ⟨t, rfl⟩ := hs
  exact findSub_append h t

/-- A position found in the longer text and lying wholly inside the shorter one
was found there already. -/
theorem findSub_of_append {pat s t : List α} {i : ℕ} (h : findSub pat (s ++ t) = some i)
    (hlen : i + pat.length ≤ s.length) : findSub pat s = some i := by
  obtain ⟨-, hp, hmin⟩ := findSub_eq_some_iff.mp h
  refine findSub_eq_some_iff.mpr ⟨by omega, ?_, fun j hj hpj => hmin j hj ?_⟩
  · rw [drop_append_of_le_length (by omega)] at hp
    exact prefix_of_prefix_append (by rw [length_drop]; omega) hp
  · rw [drop_append_of_le_length (by omega)]
    exact hpj.trans (prefix_append _ _)

/-- One more symbol can complete an unseen pattern only at the end of the text. -/
theorem findSub_concat {pat s : List α} {c : α} {i : ℕ} (hnone : findSub pat s = none)
    (h : findSub pat (s ++ [c]) = some i) : i + pat.length = s.length + 1 := by
  have hle := findSub_add_length_le h
  rw [length_append, length_singleton] at hle
  by_contra hne
  rw [findSub_of_append h (by omega)] at hnone
  exact absurd hnone (by simp)

/-- Completing a pattern with the last symbol: the text ended with all of it but
that symbol. -/
theorem findSub_concat_eq_none_iff {pat s : List α} {c d : α}
    (hnone : findSub (pat ++ [c]) s = none) :
    findSub (pat ++ [c]) (s ++ [d]) = none ↔ ¬ (pat <:+ s ∧ d = c) := by
  constructor
  · rintro hno ⟨⟨u, rfl⟩, rfl⟩
    have hocc : pat ++ [d] <+: ((u ++ pat) ++ [d]).drop u.length := by simp
    obtain ⟨i, -, hi⟩ := exists_findSub_of_prefix_drop (by simp) hocc
    exact absurd (hi.symm.trans hno) (by simp)
  · intro hno
    cases hf : findSub (pat ++ [c]) (s ++ [d]) with
    | none => rfl
    | some i =>
      have hi := findSub_concat hnone hf
      have hp := prefix_drop_of_findSub hf
      rw [length_append, length_singleton] at hi
      have hlen : (pat ++ [c]).length = ((s ++ [d]).drop i).length := by simp; omega
      have heq : pat ++ [c] = (s ++ [d]).drop i := hp.eq_of_length hlen
      rw [drop_append_of_le_length (by omega)] at heq
      obtain ⟨h1, h2⟩ := append_inj' heq rfl
      exact absurd ⟨h1 ▸ drop_suffix i s, by simpa using h2.symm⟩ hno

/-- The search runs over a text at no position of which the pattern occurs. -/
theorem findSub_append_of_forall {pat s : List α} : ∀ {u : List α},
    (∀ j < u.length, ¬ pat <+: (u ++ s).drop j) →
      findSub pat (u ++ s) = (findSub pat s).map (· + u.length) := by
  intro u
  induction u with
  | nil => simp
  | cons d u ih =>
    intro hno
    have hhead : ¬ pat <+: d :: (u ++ s) := hno 0 (by simp)
    rw [cons_append, findSub_cons_neg hhead,
      ih fun j hj => hno (j + 1) (by simpa using hj), Option.map_map]
    rfl

/-- Over text free of the pattern's first symbol the search runs to its end. -/
theorem findSub_append_of_notMem {c : α} {pat u : List α} (hu : c ∉ u) (s : List α) :
    findSub (c :: pat) (u ++ s) = (findSub (c :: pat) s).map (· + u.length) := by
  induction u with
  | nil => simp
  | cons d u ih =>
    simp only [mem_cons, not_or] at hu
    have hno : ¬ c :: pat <+: d :: (u ++ s) := by
      rw [cons_prefix_cons]
      exact fun h => hu.1 h.1
    rw [cons_append, findSub_cons_neg hno, ih hu.2, Option.map_map]
    rfl

/-- The first occurrence behind text free of the pattern's first symbol. -/
theorem findSub_append_self {c : α} {pat u : List α} (hu : c ∉ u) (t : List α) :
    findSub (c :: pat) (u ++ c :: pat ++ t) = some u.length := by
  rw [append_assoc, findSub_append_of_notMem hu,
    findSub_eq_some_iff.mpr ⟨Nat.zero_le _, prefix_append _ _, by simp⟩]
  simp

/-- A pattern whose first symbol does not occur is not found. -/
theorem findSub_eq_none_of_notMem {c : α} {pat s : List α} (hs : c ∉ s) :
    findSub (c :: pat) s = none := by
  have h : findSub (c :: pat) (s ++ []) = _ := findSub_append_of_notMem hs []
  simpa [findSub] using h

/-! ### Cutting at a symbol -/

/-- What is in front of the first `c`, and what is behind it. -/
def cutAt (c : α) (s : List α) : List α × List α :=
  (s.takeWhile (· ≠ c), (s.dropWhile (· ≠ c)).tail)

/-- The search for `c` runs over text without it. -/
theorem cutAt_append {c : α} {u : List α} (hu : c ∉ u) (s : List α) :
    cutAt c (u ++ s) = (u ++ (cutAt c s).1, (cutAt c s).2) := by
  have hall : ∀ a ∈ u, decide (a ≠ c) = true := by
    intro a ha
    rw [decide_eq_true_eq]
    rintro rfl
    exact hu ha
  rw [cutAt, takeWhile_append_of_pos hall, dropWhile_append_of_pos hall]
  rfl

theorem cutAt_append_cons {c : α} {u : List α} (hu : c ∉ u) (t : List α) :
    cutAt c (u ++ c :: t) = (u, t) := by
  rw [cutAt_append hu]
  simp [cutAt]

theorem cutAt_of_notMem {c : α} {s : List α} (hs : c ∉ s) : cutAt c s = (s, []) := by
  have happ := cutAt_append hs []
  rw [append_nil] at happ
  rw [happ]
  simp [cutAt]

/-! ### Places in a list -/

/-- A property of the places in a list, at its head and behind it. -/
theorem forall_append_cons_iff {β : Type*} (C : List β → β → Prop) (x : β) (xs : List β) :
    (∀ before y after, x :: xs = before ++ y :: after → C before y) ↔
      C [] x ∧ ∀ before y after, xs = before ++ y :: after → C (x :: before) y := by
  constructor
  · intro h
    refine ⟨h [] x xs rfl, ?_⟩
    rintro before y after rfl
    exact h (x :: before) y after rfl
  · rintro ⟨hhead, htail⟩ before y after heq
    cases before with
    | nil =>
      cases heq
      exact hhead
    | cons z before =>
      rw [cons_append, cons_eq_cons] at heq
      obtain ⟨rfl, heq⟩ := heq
      exact htail before y after heq

/-- What is in front of the first element that fails. -/
theorem mem_takeWhile_iff {β : Type*} {q : β → Bool} {x : β} {xs : List β} :
    x ∈ xs.takeWhile q ↔
      ∃ before after, xs = before ++ x :: after ∧ (∀ y ∈ before, q y) ∧ q x := by
  induction xs with
  | nil => simp
  | cons y xs ih =>
    rw [takeWhile_cons]
    cases hy : q y with
    | false =>
      refine iff_of_false (by simp) ?_
      rintro ⟨_ | ⟨z, before⟩, after, heq, hbefore, hx⟩
      · cases heq
        exact Bool.false_ne_true (hy.symm.trans hx)
      · cases heq
        exact Bool.false_ne_true (hy.symm.trans (hbefore y mem_cons_self))
    | true =>
      rw [if_pos rfl, mem_cons, ih]
      constructor
      · rintro (rfl | ⟨before, after, rfl, hbefore, hx⟩)
        · exact ⟨[], xs, rfl, by simp, hy⟩
        · exact ⟨y :: before, after, rfl, forall_mem_cons.mpr ⟨hy, hbefore⟩, hx⟩
      · rintro ⟨_ | ⟨z, before⟩, after, heq, hbefore, hx⟩
        · cases heq
          exact .inl rfl
        · cases heq
          exact .inr ⟨before, after, rfl, (forall_mem_cons.mp hbefore).2, hx⟩

end List
