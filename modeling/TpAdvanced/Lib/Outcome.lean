import Mathlib.Data.List.Chain
import Mathlib.Tactic.Common

/-!
# Computations that may fail, and consumers that may be interrupted

Two relations carry the reasoning about a computation in `Except`: `Sat` is its
postcondition, on the result and on the error, and `Agree` compares two runs,
which must fail alike or return related results.  Both have a rule for `>>=`, so
a proof follows the text of the program.

A *consumer* is fed messages until it reaches a final state or fails.  When what
it does to a message is settled by any prefix it settles on, and when it can
resume from what it did to a prefix, then feeding it a growing chain of messages
comes to the same as feeding it the last one at once
(`Resumable.feedChain_of_reached`).

## Main definitions

* `Outcome.Sat`, `Outcome.Agree` — postconditions and agreement.
* `Outcome.feedChain`, `Outcome.feedCalls` — feeding a list of messages, and the
  calls this makes.
* `Outcome.Resumable` — the two laws of an interruptible consumer.

## Main results

* `Sat.bind`, `Agree.bind` — the rules for sequencing.
* `Resumable.feedChain_of_reached` — **interrupting makes no difference.**
-/

namespace Outcome

universe u v

variable {ε : Type*} {α β : Type u} {α' β' : Type v}

@[simp] theorem ok_bind (a : α) (f : α → Except ε β) : (Except.ok a >>= f) = f a := rfl

/-! ### Postconditions -/

/-- The result satisfies `P`, or the error satisfies `E`. -/
def Sat (E : ε → Prop) (P : α → Prop) : Except ε α → Prop
  | .ok a => P a
  | .error e => E e

@[simp] theorem sat_ok {E : ε → Prop} {P : α → Prop} {a : α} :
    Sat E P (.ok a) ↔ P a := Iff.rfl

@[simp] theorem sat_error {E : ε → Prop} {P : α → Prop} {e : ε} :
    Sat E P (.error e : Except ε α) ↔ E e := Iff.rfl

/-- Sequencing: the postcondition of the first is what the second starts from. -/
theorem Sat.bind {E : ε → Prop} {P : α → Prop} {Q : β → Prop} {x : Except ε α}
    {f : α → Except ε β} (hx : Sat E P x) (hf : ∀ a, P a → Sat E Q (f a)) :
    Sat E Q (x >>= f) := by
  cases x with
  | ok a => exact hf a hx
  | error e => exact hx

theorem Sat.mono {E : ε → Prop} {P Q : α → Prop} {x : Except ε α} (hx : Sat E P x)
    (hPQ : ∀ a, P a → Q a) : Sat E Q x := by
  cases x with
  | ok a => exact hPQ a hx
  | error e => exact hx

/-- Nothing is claimed. -/
theorem Sat.any (x : Except ε α) : Sat (fun _ => True) (fun _ => True) x := by
  cases x <;> trivial

/-! ### Agreement -/

/-- Both computations fail with one error, or return related results. -/
inductive Agree (R : α → α' → Prop) : Except ε α → Except ε α' → Prop
  | ok {a : α} {a' : α'} (h : R a a') : Agree R (.ok a) (.ok a')
  | error (e : ε) : Agree R (.error e) (.error e)

theorem Agree.refl {R : α → α → Prop} (hR : ∀ a, R a a) (x : Except ε α) : Agree R x x := by
  cases x with
  | ok a => exact .ok (hR a)
  | error e => exact .error e

/-- Sequencing: related intermediate results lead to agreement. -/
theorem Agree.bind {R : α → α' → Prop} {S : β → β' → Prop} {x : Except ε α} {x' : Except ε α'}
    {f : α → Except ε β} {f' : α' → Except ε β'} (hx : Agree R x x')
    (hf : ∀ a a', R a a' → Agree S (f a) (f' a')) : Agree S (x >>= f) (x' >>= f') := by
  cases hx with
  | ok h => exact hf _ _ h
  | error e => exact .error e

theorem Agree.trans {R : α → α → Prop} (hR : Equivalence R)
    {x y z : Except ε α} (hxy : Agree R x y) (hyz : Agree R y z) : Agree R x z := by
  cases hxy with
  | ok h =>
    cases hyz with
    | ok h' => exact .ok (hR.trans h h')
  | error e => exact hyz

theorem Agree.symm {R : α → α → Prop} (hR : Equivalence R) {x y : Except ε α}
    (h : Agree R x y) : Agree R y x := by
  cases h with
  | ok h => exact .ok (hR.symm h)
  | error e => exact .error e

/-- What a successful run agrees with is a successful run. -/
theorem Agree.exists_ok {R : α → α' → Prop} {a : α} {x' : Except ε α'}
    (h : Agree R (.ok a) x') : ∃ a', x' = .ok a' ∧ R a a' := by
  cases h with
  | ok h => exact ⟨_, rfl, h⟩

/-- What a failing run agrees with fails with the same error. -/
theorem Agree.eq_error {R : α → α' → Prop} {e : ε} {x' : Except ε α'}
    (h : Agree R (.error e) x') : x' = .error e := by
  cases h with
  | error e => rfl

/-! ### Interruptible consumers -/

section Consumer

variable {σ μ : Type*} (feed : σ → μ → Except ε σ) (final : σ → Bool)

/-- Feed the messages one after another, up to a final state or an error. -/
def feedChain : σ → List μ → Except ε σ
  | s, [] => .ok s
  | s, m :: ms =>
    match feed s m with
    | .error e => .error e
    | .ok s' => if final s' then .ok s' else feedChain s' ms

/-- The calls `feedChain` makes: the state each starts from and its message. -/
def feedCalls : σ → List μ → List (σ × μ)
  | _, [] => []
  | s, m :: ms =>
    (s, m) ::
      match feed s m with
      | .error _ => []
      | .ok s' => if final s' then [] else feedCalls s' ms

/-- Nothing more can change an outcome: it is an error or a final state. -/
def Settled : Except ε σ → Prop
  | .ok s => final s = true
  | .error _ => True

/-- A consumer, started at `init`, that can be interrupted on messages ordered
by `le`, its states being compared by `R`. -/
structure Resumable (init : σ) (le : μ → μ → Prop) (R : σ → σ → Prop) : Prop where
  /-- `R` is an equivalence. -/
  equiv : Equivalence R
  /-- Related states are final together. -/
  final_congr : ∀ {s t}, R s t → final s = final t
  /-- Feeding respects `R`. -/
  congr : ∀ {s t} (m : μ), R s t → Agree R (feed s m) (feed t m)
  /-- What a shorter message settles stays settled. -/
  settled : ∀ {m m'}, le m m' → Settled final (feed init m) →
    Agree R (feed init m) (feed init m')
  /-- From what it did to a shorter message the consumer does to a longer one
  what it would have done at once. -/
  resume : ∀ {m m' s}, le m m' → feed init m = .ok s → final s = false →
    Agree R (feed s m') (feed init m')

variable {feed final} {init : σ} {le : μ → μ → Prop} {R : σ → σ → Prop}

/-- Settled outcomes agree along a whole chain. -/
theorem Resumable.settled_getLast (h : Resumable feed final init le R) :
    ∀ {ms : List μ} {m : μ}, (m :: ms).IsChain le → Settled final (feed init m) →
      Agree R (feed init m) (feed init ((m :: ms).getLast (List.cons_ne_nil m ms))) := by
  intro ms
  induction ms with
  | nil => intro m _ _; exact .refl h.equiv.refl _
  | cons m' ms ih =>
    intro m hchain hm
    rw [List.isChain_cons_cons] at hchain
    have hstep := h.settled hchain.1 hm
    have hm' : Settled final (feed init m') := by
      cases hx : feed init m with
      | error e =>
        rw [hx] at hstep
        rw [hstep.eq_error]
        trivial
      | ok s =>
        rw [hx] at hstep hm
        obtain ⟨s', hs', hR⟩ := hstep.exists_ok
        rw [hs']
        exact (h.final_congr hR).symm.trans hm
    rw [List.getLast_cons_cons]
    exact hstep.trans h.equiv (ih hchain.2 hm')

/-- **Interrupting makes no difference**: feeding a chain from a state the
consumer reached on an earlier message comes to the same as feeding the last
message from the start. -/
theorem Resumable.feedChain_of_reached (h : Resumable feed final init le R) :
    ∀ {ms : List μ} (hne : ms ≠ []) {m₀ : μ} {s₀ s : σ}, (m₀ :: ms).IsChain le →
      feed init m₀ = .ok s₀ → final s₀ = false → R s s₀ →
      Agree R (feedChain feed final s ms) (feed init (ms.getLast hne)) := by
  intro ms
  induction ms with
  | nil => intro hne; exact absurd rfl hne
  | cons m ms ih =>
    intro _ m₀ s₀ s hchain h₀ hfin hR
    rw [List.isChain_cons_cons] at hchain
    have hagree : Agree R (feed s m) (feed init m) :=
      (h.congr m hR).trans h.equiv (h.resume hchain.1 h₀ hfin)
    rw [feedChain]
    cases hx : feed s m with
    | error e =>
      rw [hx] at hagree
      have hinit := hagree.eq_error
      have := h.settled_getLast hchain.2 (by rw [hinit]; trivial)
      rwa [hinit] at this
    | ok s' =>
      rw [hx] at hagree
      obtain ⟨s₁, hs₁, hR₁⟩ := hagree.exists_ok
      by_cases hf : final s' = true
      · have hset : Settled final (feed init m) := by
          rw [hs₁]
          exact (h.final_congr hR₁).symm.trans hf
        have := h.settled_getLast hchain.2 hset
        rw [hs₁] at this
        simp only [hf, if_true]
        exact Agree.trans h.equiv (.ok hR₁) this
      · simp only [hf]
        have hf' : final s₁ = false := by
          rw [← h.final_congr hR₁]
          simpa using hf
        cases ms with
        | nil => simpa [feedChain, hs₁] using Agree.ok hR₁
        | cons m' ms =>
          rw [List.getLast_cons_cons]
          exact ih (List.cons_ne_nil m' ms) hchain.2 hs₁ hf' hR₁

/-- The messages of the calls are messages of the list. -/
theorem mem_of_mem_feedCalls {feed : σ → μ → Except ε σ} {final : σ → Bool} {ms : List μ} :
    ∀ {s : σ} {c : σ × μ}, c ∈ feedCalls feed final s ms → c.2 ∈ ms := by
  induction ms with
  | nil => intro s c hc; simp [feedCalls] at hc
  | cons m ms ih =>
    intro s c hc
    rw [feedCalls, List.mem_cons] at hc
    rcases hc with rfl | hc
    · exact List.mem_cons_self
    · split at hc
      · cases hc
      · split at hc
        · cases hc
        · exact List.mem_cons_of_mem m (ih hc)

/-- The calls made along a chain start from the initial state or from a state
reached on the message before. -/
theorem Resumable.feedCalls_of_reached (h : Resumable feed final init le R)
    {P : σ → μ → Prop} (hP : ∀ {m m' s s'}, le m m' → feed init m = .ok s → final s = false →
      R s' s → P s' m') :
    ∀ {ms : List μ} {m₀ : μ} {s₀ s : σ}, (m₀ :: ms).IsChain le →
      feed init m₀ = .ok s₀ → final s₀ = false → R s s₀ →
      ∀ c ∈ feedCalls feed final s ms, P c.1 c.2 := by
  intro ms
  induction ms with
  | nil => intro m₀ s₀ s _ _ _ _ c hc; simp [feedCalls] at hc
  | cons m ms ih =>
    intro m₀ s₀ s hchain h₀ hfin hR c hc
    rw [List.isChain_cons_cons] at hchain
    have hagree : Agree R (feed s m) (feed init m) :=
      (h.congr m hR).trans h.equiv (h.resume hchain.1 h₀ hfin)
    rw [feedCalls, List.mem_cons] at hc
    rcases hc with rfl | hc
    · exact hP hchain.1 h₀ hfin hR
    · cases hx : feed s m with
      | error e => simp [hx] at hc
      | ok s' =>
        rw [hx] at hagree
        obtain ⟨s₁, hs₁, hR₁⟩ := hagree.exists_ok
        by_cases hf : final s' = true
        · simp [hx, hf] at hc
        · simp only [hx, hf] at hc
          refine ih hchain.2 hs₁ ?_ hR₁ c hc
          rw [← h.final_congr hR₁]
          simpa using hf

end Consumer

end Outcome
