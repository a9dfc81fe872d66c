import Mathlib.Data.Option.Basic
import Mathlib.Tactic.Common

/-!
# Loops

The body of a loop takes its variables to new ones, or leaves the loop with a
result.  `run` gives it a number of passes; `Returns` says that some number is
enough.

`Visits` are the values that the variables take on the way.

## Main results

* `Returns.unique` — a loop has at most one result.
* `exists_returns` — an invariant and a decreasing measure give a result.
* `Visits.invariant` — an invariant holds on the way.
-/

namespace While

variable {σ ρ : Type*} (body : σ → σ ⊕ ρ)

/-- The result after at most so many passes. -/
def run : ℕ → σ → Option ρ
  | 0, _ => none
  | n + 1, s =>
    match body s with
    | .inl s' => run n s'
    | .inr r => some r

/-- The loop ends, with this result. -/
def Returns (s : σ) (r : ρ) : Prop := ∃ n, run body n s = some r

variable {body} {s s' : σ} {r r' : ρ}

theorem run_succ_of_inl (h : body s = .inl s') (n : ℕ) : run body (n + 1) s = run body n s' := by
  rw [run, h]

theorem run_succ_of_inr (h : body s = .inr r) (n : ℕ) : run body (n + 1) s = some r := by
  rw [run, h]

/-- More passes give the same result. -/
theorem run_mono {m n : ℕ} (hle : m ≤ n) (h : run body m s = some r) : run body n s = some r := by
  induction m generalizing n s with
  | zero => cases h
  | succ m ih =>
    obtain ⟨n, rfl⟩ : ∃ n', n = n' + 1 := ⟨n - 1, by omega⟩
    cases hb : body s with
    | inl s' =>
      rw [run_succ_of_inl hb] at h ⊢
      exact ih (by omega) h
    | inr r' =>
      rw [run_succ_of_inr hb] at h ⊢
      exact h

theorem Returns.unique (h : Returns body s r) (h' : Returns body s r') : r = r' := by
  obtain ⟨m, hm⟩ := h
  obtain ⟨n, hn⟩ := h'
  have hm' := run_mono (Nat.le_max_left m n) hm
  have hn' := run_mono (Nat.le_max_right m n) hn
  exact Option.some.inj (hm'.symm.trans hn')

theorem returns_of_inr (h : body s = .inr r) : Returns body s r := ⟨1, run_succ_of_inr h 0⟩

theorem returns_of_inl (h : body s = .inl s') (hr : Returns body s' r) : Returns body s r := by
  obtain ⟨n, hn⟩ := hr
  exact ⟨n + 1, (run_succ_of_inl h n).trans hn⟩

/-- What a loop leaves with, if it ends. -/
theorem Returns.of_invariant (Inv : σ → Prop) (Post : ρ → Prop)
    (hgo : ∀ s s', Inv s → body s = .inl s' → Inv s')
    (hleave : ∀ s r, Inv s → body s = .inr r → Post r) (hinv : Inv s) (hr : Returns body s r) :
    Post r := by
  obtain ⟨n, hn⟩ := hr
  induction n generalizing s with
  | zero => cases hn
  | succ n ih =>
    cases hb : body s with
    | inl s' =>
      rw [run_succ_of_inl hb] at hn
      exact ih (hgo s s' hinv hb) hn
    | inr r' =>
      rw [run_succ_of_inr hb] at hn
      cases hn
      exact hleave s r hinv hb

/-- **The loop rule**: every pass keeps the invariant and lowers the measure, or
leaves with a result as desired. -/
theorem exists_returns (Inv : σ → Prop) (Post : ρ → Prop) (measure : σ → ℕ)
    (hgo : ∀ s s', Inv s → body s = .inl s' → Inv s' ∧ measure s' < measure s)
    (hleave : ∀ s r, Inv s → body s = .inr r → Post r) (hinv : Inv s) :
    ∃ r, Returns body s r ∧ Post r := by
  induction hn : measure s using Nat.strongRecOn generalizing s with
  | ind n ih =>
    cases hb : body s with
    | inl s' =>
      obtain ⟨hinv', hlt⟩ := hgo s s' hinv hb
      obtain ⟨r, hr, hpost⟩ := ih (measure s') (by omega) hinv' rfl
      exact ⟨r, returns_of_inl hb hr, hpost⟩
    | inr r => exact ⟨r, returns_of_inr hb, hleave s r hinv hb⟩

/-! ### On the way -/

/-- The values that the variables take. -/
inductive Visits (body : σ → σ ⊕ ρ) (s : σ) : σ → Prop
  | start : Visits body s s
  | pass {w w' : σ} (hv : Visits body s w) (h : body w = .inl w') : Visits body s w'

variable {w : σ}

/-- What every pass keeps holds on the way. -/
theorem Visits.invariant (Inv : σ → Prop) (hgo : ∀ s s', Inv s → body s = .inl s' → Inv s')
    (hinv : Inv s) (hv : Visits body s w) : Inv w := by
  induction hv with
  | start => exact hinv
  | pass _ hstep ih => exact hgo _ _ ih hstep

theorem Visits.returns (hv : Visits body s w) (hr : Returns body w r) : Returns body s r := by
  induction hv with
  | start => exact hr
  | pass _ hstep ih => exact ih (returns_of_inl hstep hr)

/-- A loop that always goes on does not end. -/
theorem not_returns (Inv : σ → Prop) (hgo : ∀ s, Inv s → ∃ s', body s = .inl s' ∧ Inv s')
    (hinv : Inv s) : ¬ Returns body s r := by
  rintro ⟨n, hn⟩
  induction n generalizing s with
  | zero => cases hn
  | succ n ih =>
    obtain ⟨s', hstep, hinv'⟩ := hgo s hinv
    rw [run_succ_of_inl hstep] at hn
    exact ih hinv' hn

end While
