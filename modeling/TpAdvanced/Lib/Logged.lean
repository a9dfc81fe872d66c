import Mathlib.Tactic.Common

/-!
# Computations with a log

A computation that may fail also writes down what it does.  Without its log it is the
computation that it stands for; the log of a sequence is that of its first part, and goes
on with the second if the first one has a result.

## Main definitions

* `Logged` — a log and an outcome.
* `Logged.act` — a step that is written down.

## Main results

* `result_bind` — the outcome does not depend on the logs.
* `log_bind_of_ok`, `log_bind_of_error` — the log of a sequence.
-/

universe u

/-- What has been done, the first step first, and what has come of it. -/
structure Logged (ι ε : Type*) (α : Type u) where
  log : List ι
  result : Except ε α

namespace Logged

variable {ι ε : Type*} {α β : Type u}

/-- The second part is done if the first one has a result. -/
protected def bind (x : Logged ι ε α) (f : α → Logged ι ε β) : Logged ι ε β :=
  match x.result with
  | .ok a => ⟨x.log ++ (f a).log, (f a).result⟩
  | .error e => ⟨x.log, .error e⟩

instance : Monad (Logged ι ε) where
  pure a := ⟨[], .ok a⟩
  bind := Logged.bind

/-- A step that is written down, with its outcome. -/
def act (i : ι) (x : Except ε α) : Logged ι ε α := ⟨[i], x⟩

/-- A failure that is not. -/
def fail (e : ε) : Logged ι ε α := ⟨[], .error e⟩

@[simp] theorem log_pure (a : α) : (pure a : Logged ι ε α).log = [] := rfl

@[simp] theorem result_pure (a : α) : (pure a : Logged ι ε α).result = .ok a := rfl

@[simp] theorem log_act (i : ι) (x : Except ε α) : (act i x).log = [i] := rfl

@[simp] theorem result_act (i : ι) (x : Except ε α) : (act i x).result = x := rfl

@[simp] theorem log_fail (e : ε) : (fail e : Logged ι ε α).log = [] := rfl

@[simp] theorem result_fail (e : ε) : (fail e : Logged ι ε α).result = .error e := rfl

/-- **The outcome without the log.** -/
@[simp] theorem result_bind (x : Logged ι ε α) (f : α → Logged ι ε β) :
    (x >>= f).result = x.result >>= fun a => (f a).result := by
  obtain ⟨log, _ | a⟩ := x <;> rfl

theorem log_bind_of_ok {x : Logged ι ε α} {a : α} (h : x.result = .ok a)
    (f : α → Logged ι ε β) : (x >>= f).log = x.log ++ (f a).log := by
  obtain ⟨log, _ | a'⟩ := x
  · cases h
  · cases h
    rfl

theorem log_bind_of_error {x : Logged ι ε α} {e : ε} (h : x.result = .error e)
    (f : α → Logged ι ε β) : (x >>= f).log = x.log := by
  obtain ⟨log, _ | a'⟩ := x
  · rfl
  · cases h

end Logged
