import Mathlib.Data.Option.Basic
import Mathlib.Order.OrderIsoNat
import Mathlib.Tactic.Common

/-!
# Machines and their runs

A *machine* takes a state and an event to the next state, or to `none` when the
event cannot happen there.  A run feeds it a list of events.  What a run keeps is
proved from what a step keeps; a condition that only some steps meet is put on
the run as `Along`.

## Main definitions

* `Machine.run` — the state after a list of events.
* `Machine.Along` — every step of a run meets a condition.
* `Machine.Endless` — a run that does not end.

## Main results

* `Machine.invariant_run`, `Machine.invariant_along` — the invariant rules.
* `Machine.not_endless` — where something decreases with every step, no run is endless.
-/

namespace Machine

variable {σ ε : Type*} (step : σ → ε → Option σ)

/-- The state after the events, if they can all happen. -/
def run : σ → List ε → Option σ
  | s, [] => some s
  | s, e :: es => (step s e).bind fun s' => run s' es

/-- Every step of the run meets `C`, a condition on the state before the step, on
its event and on the events to come. -/
def Along (C : σ → ε → List ε → Prop) : σ → List ε → Prop
  | _, [] => True
  | s, e :: es => C s e es ∧ ∀ s', step s e = some s' → Along C s' es

variable {step} {s s' s'' : σ} {e : ε} {es es' : List ε}

theorem run_cons (h : step s e = some s') : run step s (e :: es) = run step s' es := by
  rw [run, h, Option.bind_some]

theorem run_cons_eq_some :
    run step s (e :: es) = some s'' ↔ ∃ s', step s e = some s' ∧ run step s' es = some s'' := by
  rw [run, Option.bind_eq_some_iff]

/-- A run over a concatenation is a run after a run. -/
theorem run_append (s : σ) (es es' : List ε) :
    run step s (es ++ es') = (run step s es).bind fun s' => run step s' es' := by
  induction es generalizing s with
  | nil => rfl
  | cons e es ih =>
    rw [List.cons_append, run, run, Option.bind_assoc]
    congr 1
    funext s'
    exact ih s'

theorem run_append_eq_some :
    run step s (es ++ es') = some s'' ↔
      ∃ s', run step s es = some s' ∧ run step s' es' = some s'' := by
  rw [run_append, Option.bind_eq_some_iff]

theorem run_singleton (s : σ) (e : ε) : run step s [e] = step s e := by
  cases h : step s e <;> simp [run, h]

/-- **The invariant rule**: what every step keeps, every run keeps. -/
theorem invariant_run (Inv : σ → Prop)
    (hstep : ∀ s e s', Inv s → step s e = some s' → Inv s') (hinv : Inv s)
    (hrun : run step s es = some s') : Inv s' := by
  induction es generalizing s with
  | nil =>
    cases hrun
    exact hinv
  | cons e es ih =>
    obtain ⟨s₁, hs₁, hrest⟩ := run_cons_eq_some.mp hrun
    exact ih (hstep s e s₁ hinv hs₁) hrest

/-- **The invariant rule with a past**: the invariant may look at the events so far. -/
theorem invariant_past {past : List ε} (Inv : σ → List ε → Prop)
    (hstep : ∀ s past e s', Inv s past → step s e = some s' → Inv s' (past ++ [e]))
    (hinv : Inv s past) (hrun : run step s es = some s') : Inv s' (past ++ es) := by
  induction es generalizing s past with
  | nil =>
    cases hrun
    rwa [List.append_nil]
  | cons e es ih =>
    obtain ⟨s₁, hs₁, hrest⟩ := run_cons_eq_some.mp hrun
    rw [List.append_cons]
    exact ih (hstep s past e s₁ hinv hs₁) hrest

/-- **The invariant rule under a condition** on the steps.  The invariant may look
at the events to come. -/
theorem invariant_along {C : σ → ε → List ε → Prop} (Inv : σ → List ε → Prop)
    (hstep : ∀ s e es s', Inv s (e :: es) → C s e es → step s e = some s' → Inv s' es)
    (hinv : Inv s (es ++ es')) (hcond : Along step C s (es ++ es'))
    (hrun : run step s es = some s') : Inv s' es' := by
  induction es generalizing s with
  | nil =>
    cases hrun
    exact hinv
  | cons e es ih =>
    obtain ⟨s₁, hs₁, hrest⟩ := run_cons_eq_some.mp hrun
    exact ih (hstep s e _ s₁ hinv hcond.1 hs₁) (hcond.2 s₁ hs₁) hrest

theorem along_cons_of_none {C : σ → ε → List ε → Prop} (h : step s e = none) :
    Along step C s (e :: es) ↔ C s e es := by
  refine ⟨And.left, fun hC => ⟨hC, ?_⟩⟩
  intro s' hs'
  cases h.symm.trans hs'

theorem along_cons_of_some {C : σ → ε → List ε → Prop} (h : step s e = some s') :
    Along step C s (e :: es) ↔ C s e es ∧ Along step C s' es := by
  refine ⟨fun hC => ⟨hC.1, hC.2 s' h⟩, fun hC => ⟨hC.1, ?_⟩⟩
  intro s'' hs''
  cases h.symm.trans hs''
  exact hC.2

/-- A condition that can be decided is decided along a run. -/
instance Along.decidable {C : σ → ε → List ε → Prop} [∀ s e es, Decidable (C s e es)] :
    ∀ (s : σ) (es : List ε), Decidable (Along step C s es)
  | _, [] => isTrue trivial
  | s, e :: es =>
    match h : step s e with
    | none => decidable_of_iff' _ (along_cons_of_none h)
    | some s' =>
      have := Along.decidable (C := C) s' es
      decidable_of_iff' _ (along_cons_of_some h)

theorem Along.of_forall {C : σ → ε → List ε → Prop} (h : ∀ s e es, C s e es) :
    Along step C s es := by
  induction es generalizing s with
  | nil => trivial
  | cons e es ih => exact ⟨h s e es, fun s' _ => ih⟩

theorem Along.append_left {C : σ → ε → List ε → Prop}
    (hC : ∀ s e es es', C s e (es ++ es') → C s e es) (h : Along step C s (es ++ es')) :
    Along step C s es := by
  induction es generalizing s with
  | nil => trivial
  | cons e es ih => exact ⟨hC _ _ _ _ h.1, fun s' hs' => ih (h.2 s' hs')⟩

theorem Along.append_right {C : σ → ε → List ε → Prop} (h : Along step C s (es ++ es'))
    (hrun : run step s es = some s') : Along step C s' es' := by
  induction es generalizing s with
  | nil =>
    cases hrun
    exact h
  | cons e es ih =>
    obtain ⟨s₁, hs₁, hrest⟩ := run_cons_eq_some.mp hrun
    exact ih (h.2 s₁ hs₁) hrest

/-- Where a condition fails along a run, some step breaks it. -/
theorem exists_of_not_along {C : σ → ε → List ε → Prop} (h : ¬ Along step C s es) :
    ∃ before e after s', es = before ++ e :: after ∧ run step s before = some s' ∧
      ¬ C s' e after := by
  induction es generalizing s with
  | nil => exact absurd trivial h
  | cons e es ih =>
    by_cases hC : C s e es
    · have hrest : ¬ ∀ s', step s e = some s' → Along step C s' es := fun hall => h ⟨hC, hall⟩
      simp only [not_forall] at hrest
      obtain ⟨s₁, hs₁, hnot⟩ := hrest
      obtain ⟨before, e', after, s', rfl, hrun, hbreak⟩ := ih hnot
      exact ⟨e :: before, e', after, s', rfl, by rw [run_cons hs₁, hrun], hbreak⟩
    · exact ⟨[], e, es, s, rfl, rfl, hC⟩

theorem Along.mono {C D : σ → ε → List ε → Prop} (hCD : ∀ s e es, C s e es → D s e es)
    (h : Along step C s es) : Along step D s es := by
  induction es generalizing s with
  | nil => trivial
  | cons e es ih => exact ⟨hCD s e es h.1, fun s' hs' => ih (h.2 s' hs')⟩

/-- Two conditions that agree on the states of an invariant hold along the same runs,
if the second one keeps the invariant. -/
theorem along_iff {C D : σ → ε → List ε → Prop} (Inv : σ → Prop)
    (hiff : ∀ s e es s', Inv s → step s e = some s' → (C s e es ↔ D s e es))
    (hkeep : ∀ s e es s', Inv s → step s e = some s' → D s e es → Inv s') (hinv : Inv s)
    (hrun : run step s es = some s') : Along step C s es ↔ Along step D s es := by
  induction es generalizing s with
  | nil => exact Iff.rfl
  | cons e es ih =>
    obtain ⟨s₁, hs₁, hrest⟩ := run_cons_eq_some.mp hrun
    rw [along_cons_of_some hs₁, along_cons_of_some hs₁, hiff s e es s₁ hinv hs₁]
    refine and_congr_right fun hD => ?_
    exact ih (hkeep s e es s₁ hinv hs₁ hD) hrest

/-! ### Runs that do not end -/

variable (step) in
/-- From this state the machine can go on for ever, with events of this kind. -/
def Endless (K : ε → Prop) (s : σ) : Prop :=
  ∃ (states : ℕ → σ) (events : ℕ → ε), states 0 = s ∧
    ∀ n, K (events n) ∧ step (states n) (events n) = some (states (n + 1))

/-- **Where a measure decreases with every step, no run is endless.** -/
theorem not_endless {β : Type*} [Preorder β] [WellFoundedLT β] {K : ε → Prop} (Inv : σ → Prop)
    (measure : σ → β)
    (hstep : ∀ s e s', Inv s → K e → step s e = some s' → Inv s' ∧ measure s' < measure s)
    (hinv : Inv s) : ¬ Endless step K s := by
  rintro ⟨states, events, rfl, hevents⟩
  have hall : ∀ n, Inv (states n) := by
    intro n
    induction n with
    | zero => exact hinv
    | succ n ih => exact (hstep _ _ _ ih (hevents n).1 (hevents n).2).1
  refine not_strictAnti_of_wellFoundedLT (fun n => measure (states n)) ?_
  exact strictAnti_nat_of_succ_lt fun n => (hstep _ _ _ (hall n) (hevents n).1 (hevents n).2).2

end Machine
