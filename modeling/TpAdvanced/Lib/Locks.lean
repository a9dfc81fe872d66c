import Mathlib.Logic.Function.Basic
import Mathlib.Order.WellFounded
import TpAdvanced.Lib.Machine

/-!
# Processes with semaphores

A program waits for semaphores and posts them, and in between works on a state that all
processes share.  Programs are *orderly* when they wait only for semaphores that are
greater than those they hold, and post what they took last.  Where all programs are
orderly, a semaphore has one holder, and somebody can go on as long as anybody has
something to do: who waits is kept waiting by one that holds the semaphore, and who
waits for the greatest is kept waiting by one that does not wait.

## Main definitions

* `Program`, `Program.exec` — programs, and what one of them does by itself.
* `State.step` — any number of processes, interleaved.
* `Program.Orderly` — the discipline, with what is held and returned at the end; `Keeps` for
  code that holds the same at its end.

## Main results

* `Program.Keeps.bind`, `Program.Keeps.guard` — orderly programs from orderly parts.
* `sound_step`, `sound_run` — the invariant.
* `Sound.unique` — **a semaphore has one holder**.
* `Sound.exists_step` — **somebody can go on**.
-/

namespace Locks

/-- Code with semaphores of `L`, on a shared state of `σ`. -/
inductive Program (L σ α : Type)
  | ret (a : α)
  | wait (l : L) (next : Program L σ α)
  | post (l : L) (next : Program L σ α)
  /-- Makes a semaphore with the value 1, or fails to. -/
  | init (next : Option L → Program L σ α)
  /-- A step on the shared state, with what follows from the state before it. -/
  | act (effect : σ → σ) (next : σ → Program L σ α)

variable {P L σ α β A : Type}

namespace Program

def bind : Program L σ α → (α → Program L σ β) → Program L σ β
  | .ret a, f => f a
  | .wait l next, f => .wait l (next.bind f)
  | .post l next, f => .post l (next.bind f)
  | .init next, f => .init fun o => (next o).bind f
  | .act effect next, f => .act effect fun s => (next s).bind f

instance : Monad (Program L σ) where
  pure := ret
  bind := bind

/-- `std::lock_guard` around some code. -/
def guard (l : L) (body : Program L σ α) : Program L σ α :=
  .wait l (body.bind fun a => .post l (.ret a))

/-- What a program does while nobody else runs.  `o` is the semaphore that it makes. -/
def exec (o : Option L) : Program L σ α → σ → α × σ
  | .ret a, s => (a, s)
  | .wait _ next, s => next.exec o s
  | .post _ next, s => next.exec o s
  | .init next, s => (next o).exec o s
  | .act effect next, s => (next s).exec o (effect s)

@[simp] theorem exec_pure (o : Option L) (a : α) (s : σ) :
    (pure a : Program L σ α).exec o s = (a, s) := rfl

/-- One program after another. -/
@[simp] theorem exec_bind (o : Option L) (p : Program L σ α) (f : α → Program L σ β) (s : σ) :
    (p >>= f).exec o s = (f (p.exec o s).1).exec o (p.exec o s).2 := by
  change (p.bind f).exec o s = _
  induction p generalizing s with
  | ret a => rfl
  | wait l next ih => exact ih s
  | post l next ih => exact ih s
  | init next ih => exact ih o s
  | act effect next ih => exact ih s (effect s)

@[simp] theorem exec_guard (o : Option L) (l : L) (body : Program L σ α) (s : σ) :
    (guard l body).exec o s = body.exec o s :=
  exec_bind o body (fun a => .post l (.ret a)) s

/-- **The discipline**: from a state where `held` is held, the semaphores are taken in
their order and given back in the reverse one, and `Q` holds of what is held and returned
at the end. -/
def Orderly [LT L] : List L → List L → Program L σ α → (List L → α → Prop) → Prop
  | _, held, .ret a, Q => Q held a
  | known, held, .wait l next, Q =>
    l ∈ known ∧ (∀ h ∈ held, h < l) ∧ Orderly known (l :: held) next Q
  | known, held, .post l next, Q => ∃ rest, held = l :: rest ∧ Orderly known rest next Q
  | known, held, .init next, Q =>
    Orderly known held (next none) Q ∧ ∀ l, l ∉ known → Orderly (l :: known) held (next (some l)) Q
  | known, held, .act _ next, Q => ∀ s, Orderly known held (next s) Q

section Orderly

variable [LT L] {known known' held : List L} {p : Program L σ α} {Q R : List L → α → Prop}

/-- With more semaphores, and for less at the end. -/
theorem Orderly.mono (hknown : known ⊆ known') (hQ : ∀ held a, Q held a → R held a)
    (h : p.Orderly known held Q) : p.Orderly known' held R := by
  induction p generalizing known known' held with
  | ret a => exact hQ held a h
  | wait l next ih => exact ⟨hknown h.1, h.2.1, ih hknown h.2.2⟩
  | post l next ih =>
    obtain ⟨rest, hheld, hnext⟩ := h
    exact ⟨rest, hheld, ih hknown hnext⟩
  | init next ih =>
    refine ⟨ih none hknown h.1, fun l hl => ?_⟩
    exact ih (some l) (List.cons_subset_cons l hknown) (h.2 l fun hmem => hl (hknown hmem))
  | act effect next ih => exact fun s => ih s hknown (h s)

/-- **One program after another is orderly.** -/
theorem orderly_bind {f : α → Program L σ β} {Q : List L → β → Prop}
    (h : p.Orderly known held fun held a => (f a).Orderly known held Q) :
    (p >>= f).Orderly known held Q := by
  change (p.bind f).Orderly known held Q
  induction p generalizing known held with
  | ret a => exact h
  | wait l next ih => exact ⟨h.1, h.2.1, ih h.2.2⟩
  | post l next ih =>
    obtain ⟨rest, hheld, hnext⟩ := h
    exact ⟨rest, hheld, ih hnext⟩
  | init next ih =>
    refine ⟨ih none h.1, fun l hl => ih (some l) ?_⟩
    -- the semaphore that has been made does no harm to what follows
    refine (h.2 l hl).mono (List.Subset.refl _) fun held a ha => ?_
    exact ha.mono (List.subset_cons_self l known) fun _ _ hQ => hQ
  | act effect next ih => exact fun s => ih s (h s)

/-- Orderly code that holds at its end what it has held at its start. -/
def Keeps (known held : List L) (p : Program L σ α) : Prop :=
  p.Orderly known held fun held' _ => held' = held

theorem keeps_pure (known held : List L) (a : α) : (pure a : Program L σ α).Keeps known held := rfl

theorem Keeps.bind {f : α → Program L σ β} (h : p.Keeps known held)
    (hf : ∀ a, (f a).Keeps known held) : (p >>= f).Keeps known held := by
  refine orderly_bind (Orderly.mono (List.Subset.refl _) (fun held' a heq => ?_) h)
  subst heq
  exact hf a

/-- Code behind a semaphore that is greater than those that are held. -/
theorem Keeps.guard {l : L} (h : p.Keeps known (l :: held)) (hknown : l ∈ known)
    (hheld : ∀ h ∈ held, h < l) : (guard l p).Keeps known held := by
  refine ⟨hknown, hheld, orderly_bind (Orderly.mono (List.Subset.refl _) (fun held' a heq => ?_) h)⟩
  exact ⟨held, heq, rfl⟩

end Orderly

end Program

/-! ### Processes -/

/-- An operation on its way: what has been waited for and not posted, innermost first,
and what is left to do. -/
structure Running (L σ α : Type) where
  held : List L
  code : Program L σ α

/-- The semaphores with their values, the shared state, and the processes that are in an
operation. -/
structure State (P L σ α : Type) where
  known : List L
  value : L → ℕ
  shared : σ
  procs : P → Option (Running L σ α)

/-- A process begins an operation, or takes a step of the one it is in.  A semaphore that
it makes is named by the event. -/
inductive Event (P L A : Type)
  | start (p : P) (a : A)
  | step (p : P) (made : Option L)

namespace State

open Function (update)

/-- The process has waited for the semaphore and not posted it since. -/
def Holds (s : State P L σ α) (p : P) (l : L) : Prop := ∃ r, s.procs p = some r ∧ l ∈ r.held

variable [DecidableEq P] [DecidableEq L]

/-- What is left of the operation of a process. -/
def proceed (s : State P L σ α) (p : P) (r : Option (Running L σ α)) : State P L σ α :=
  { s with procs := update s.procs p r }

/-- The process takes a step. -/
def advance (s : State P L σ α) (p : P) (r : Running L σ α) (made : Option L) :
    Option (State P L σ α) :=
  match r.code with
  | .ret _ => some (s.proceed p none)
  | .wait l next =>
    if s.value l = 0 then none
    else some ({ s with value := update s.value l (s.value l - 1) }.proceed p
      (some ⟨l :: r.held, next⟩))
  | .post l next =>
    some ({ s with value := update s.value l (s.value l + 1) }.proceed p
      (some ⟨r.held.erase l, next⟩))
  | .init next =>
    match made with
    | none => some (s.proceed p (some ⟨r.held, next none⟩))
    | some l =>
      if l ∈ s.known then none
      else some ({ s with known := l :: s.known, value := update s.value l 1 }.proceed p
        (some ⟨r.held, next (some l)⟩))
  | .act effect next =>
    some ({ s with shared := effect s.shared }.proceed p (some ⟨r.held, next s.shared⟩))

variable (code : A → Program L σ α) (ready : List L → A → Prop)
  [∀ known a, Decidable (ready known a)]

/-- **A step of the system.**  An operation begins when it is ready. -/
def step (s : State P L σ α) : Event P L A → Option (State P L σ α)
  | .start p a =>
    if (s.procs p).isNone ∧ ready s.known a then some (s.proceed p (some ⟨[], code a⟩)) else none
  | .step p made => (s.procs p).bind fun r => s.advance p r made

end State

/-! ### The invariant -/

section Sound

variable [DecidableEq P] [LT L]

/-- The semaphore is free, or one process holds it. -/
def State.OneHolder (s : State P L σ α) (l : L) : Prop :=
  (s.value l = 1 ∧ ∀ p, ¬ s.Holds p l) ∨
    (s.value l = 0 ∧ ∃ p, s.Holds p l ∧ ∀ q, s.Holds q l → q = p)

/-- **The invariant.** -/
structure Sound (s : State P L σ α) : Prop where
  orderly : ∀ p r, s.procs p = some r → r.code.Orderly s.known r.held fun held _ => held = []
  nodup : ∀ p r, s.procs p = some r → r.held.Nodup
  known : ∀ p l, s.Holds p l → l ∈ s.known
  holder : ∀ l ∈ s.known, s.OneHolder l

namespace State

variable {s s₀ : State P L σ α} {p q : P} {l : L} {o : Option (Running L σ α)}

omit [LT L] in
@[simp] theorem procs_proceed_self : (s.proceed p o).procs p = o := Function.update_self ..

omit [LT L] in
theorem procs_proceed_of_ne (h : q ≠ p) : (s.proceed p o).procs q = s.procs q :=
  Function.update_of_ne h _ _

omit [LT L] in
theorem holds_proceed_self : (s.proceed p o).Holds p l ↔ ∃ r, o = some r ∧ l ∈ r.held := by
  rw [Holds, procs_proceed_self]

omit [LT L] in
theorem holds_proceed_of_ne (hprocs : s.procs = s₀.procs) (h : q ≠ p) :
    (s.proceed p o).Holds q l ↔ s₀.Holds q l := by
  rw [Holds, procs_proceed_of_ne h, hprocs, Holds]

omit [LT L] in
/-- The process goes on with what it holds. -/
theorem holds_proceed (hprocs : s.procs = s₀.procs)
    (h : (∃ r, o = some r ∧ l ∈ r.held) ↔ s₀.Holds p l) :
    (s.proceed p o).Holds q l ↔ s₀.Holds q l := by
  by_cases hq : q = p
  · rw [hq, holds_proceed_self, h]
  · exact holds_proceed_of_ne hprocs hq

omit [LT L] in
/-- Another process has gone on, or this one with what it holds. -/
theorem OneHolder.proceed (h : s₀.OneHolder l) (hprocs : s.procs = s₀.procs)
    (hvalue : s.value l = s₀.value l) (hheld : (∃ r, o = some r ∧ l ∈ r.held) ↔ s₀.Holds p l) :
    (s.proceed p o).OneHolder l := by
  have hvalue' : (s.proceed p o).value l = s₀.value l := hvalue
  simp only [OneHolder, hvalue', holds_proceed hprocs hheld]
  exact h

end State

namespace Sound

open State

variable {s s' : State P L σ α} {p q : P} {l : L} {r : Running L σ α}
  {o : Option (Running L σ α)}

/-- The operation of a process changes, and perhaps the values. -/
theorem of_proceed (h : Sound s) {known : List L} {value : L → ℕ} (shared : σ)
    (hknown : s.known ⊆ known)
    (hcode : ∀ r, o = some r → r.code.Orderly known r.held (fun held _ => held = []) ∧
      r.held.Nodup ∧ ∀ l ∈ r.held, l ∈ known)
    (hholder : ∀ l ∈ known, (proceed ⟨known, value, shared, s.procs⟩ p o).OneHolder l) :
    Sound (proceed ⟨known, value, shared, s.procs⟩ p o) := by
  have hothers : ∀ q r, q ≠ p →
      (proceed ⟨known, value, shared, s.procs⟩ p o).procs q = some r → s.procs q = some r :=
    fun q r hq hr => (procs_proceed_of_ne hq).symm.trans hr
  have hself : ∀ r, (proceed ⟨known, value, shared, s.procs⟩ p o).procs p = some r → o = some r :=
    fun r hr => procs_proceed_self.symm.trans hr
  refine ⟨fun q r hr => ?_, fun q r hr => ?_, fun q l hl => ?_, hholder⟩
  · by_cases hq : q = p
    · exact (hcode r (hself r (hq ▸ hr))).1
    · exact (h.orderly q r (hothers q r hq hr)).mono hknown fun _ _ hQ => hQ
  · by_cases hq : q = p
    · exact (hcode r (hself r (hq ▸ hr))).2.1
    · exact h.nodup q r (hothers q r hq hr)
  · by_cases hq : q = p
    · rw [hq, holds_proceed_self] at hl
      obtain ⟨r, hr, hmem⟩ := hl
      exact (hcode r hr).2.2 l hmem
    · exact hknown (h.known q l ((holds_proceed_of_ne rfl hq).mp hl))

/-- A step that takes and gives back nothing. -/
theorem of_same_held (h : Sound s) (shared : σ)
    (hheld : ∀ l, (∃ r, o = some r ∧ l ∈ r.held) ↔ s.Holds p l)
    (hcode : ∀ r, o = some r → r.code.Orderly s.known r.held (fun held _ => held = []) ∧
      r.held.Nodup) : Sound (proceed { s with shared := shared } p o) := by
  refine h.of_proceed shared (List.Subset.refl _) (fun r hr => ?_) fun l hl => ?_
  · refine ⟨(hcode r hr).1, (hcode r hr).2, fun l hl => ?_⟩
    exact h.known p l ((hheld l).mp ⟨r, hr, hl⟩)
  · exact (h.holder l hl).proceed rfl rfl (hheld l)

variable [DecidableEq L]

/-- A process takes a semaphore. -/
theorem wait (h : Sound s) (hp : s.procs p = some r) {next : Program L σ α}
    (hcode : r.code = .wait l next) (hvalue : s.value l ≠ 0) :
    Sound (proceed { s with value := Function.update s.value l (s.value l - 1) } p
      (some ⟨l :: r.held, next⟩)) := by
  have horderly := h.orderly p r hp
  rw [hcode] at horderly
  obtain ⟨hl, -, hnext⟩ := horderly
  obtain ⟨hone, hfree⟩ : s.value l = 1 ∧ ∀ p, ¬ s.Holds p l :=
    (h.holder l hl).resolve_right fun htaken => hvalue htaken.1
  have hnotMem : l ∉ r.held := fun hmem => hfree p ⟨r, hp, hmem⟩
  refine h.of_proceed s.shared (List.Subset.refl _) ?_ fun l' hl' => ?_
  · rintro r' hr'
    cases hr'
    refine ⟨hnext, List.nodup_cons.mpr ⟨hnotMem, h.nodup p r hp⟩, fun l' hl' => ?_⟩
    rcases List.mem_cons.mp hl' with rfl | hl'
    · exact hl
    · exact h.known p l' ⟨r, hp, hl'⟩
  · by_cases heq : l' = l
    · subst heq
      refine .inr ⟨?_, p, holds_proceed_self.mpr ⟨_, rfl, List.mem_cons_self⟩, fun q hq => ?_⟩
      · simp [proceed, hone]
      · by_contra hne
        exact hfree q ((holds_proceed_of_ne rfl hne).mp hq)
    · refine (h.holder l' hl').proceed rfl (Function.update_of_ne heq _ _) ⟨?_, ?_⟩
      · rintro ⟨r', hr', hmem⟩
        cases hr'
        exact ⟨r, hp, (List.mem_cons.mp hmem).resolve_left heq⟩
      · rintro ⟨r', hr', hmem⟩
        cases hp.symm.trans hr'
        exact ⟨_, rfl, List.mem_cons_of_mem l hmem⟩

/-- A process gives a semaphore back. -/
theorem post (h : Sound s) (hp : s.procs p = some r) {next : Program L σ α}
    (hcode : r.code = .post l next) :
    Sound (proceed { s with value := Function.update s.value l (s.value l + 1) } p
      (some ⟨r.held.erase l, next⟩)) := by
  have horderly := h.orderly p r hp
  rw [hcode] at horderly
  obtain ⟨rest, hheld, hnext⟩ := horderly
  have hnodup := h.nodup p r hp
  have hholds : s.Holds p l := ⟨r, hp, hheld ▸ List.mem_cons_self⟩
  have hl := h.known p l hholds
  obtain ⟨hzero, p', -, hunique⟩ : s.value l = 0 ∧ ∃ p, s.Holds p l ∧ ∀ q, s.Holds q l → q = p :=
    (h.holder l hl).resolve_left fun hfree => hfree.2 p hholds
  have herase : r.held.erase l = rest := by rw [hheld, List.erase_cons_head]
  rw [hheld, List.nodup_cons] at hnodup
  rw [herase]
  refine h.of_proceed s.shared (List.Subset.refl _) ?_ fun l' hl' => ?_
  · rintro r' hr'
    cases hr'
    refine ⟨hnext, hnodup.2, fun l' hl' => h.known p l' ⟨r, hp, ?_⟩⟩
    rw [hheld]
    exact List.mem_cons_of_mem l hl'
  · by_cases heq : l' = l
    · subst heq
      refine .inl ⟨?_, fun q hq => ?_⟩
      · simp [proceed, hzero]
      · by_cases hne : q = p
        · rw [hne, holds_proceed_self] at hq
          obtain ⟨r', hr', hmem⟩ := hq
          cases hr'
          exact hnodup.1 hmem
        · have hother := (holds_proceed_of_ne rfl hne).mp hq
          exact hne ((hunique q hother).trans (hunique p hholds).symm)
    · refine (h.holder l' hl').proceed rfl (Function.update_of_ne heq _ _) ⟨?_, ?_⟩
      · rintro ⟨r', hr', hmem⟩
        cases hr'
        refine ⟨r, hp, ?_⟩
        rw [hheld]
        exact List.mem_cons_of_mem l hmem
      · rintro ⟨r', hr', hmem⟩
        cases hp.symm.trans hr'
        rw [hheld] at hmem
        exact ⟨_, rfl, (List.mem_cons.mp hmem).resolve_left heq⟩

omit [DecidableEq P] [LT L] [DecidableEq L] in
theorem held_iff (hp : s.procs p = some r) (next : Program L σ α) (l : L) :
    (∃ r', some (⟨r.held, next⟩ : Running L σ α) = some r' ∧ l ∈ r'.held) ↔ s.Holds p l := by
  constructor
  · rintro ⟨r', hr', hmem⟩
    cases hr'
    exact ⟨r, hp, hmem⟩
  · rintro ⟨r', hr', hmem⟩
    cases hp.symm.trans hr'
    exact ⟨_, rfl, hmem⟩

/-- A process makes a semaphore. -/
theorem init (h : Sound s) (hp : s.procs p = some r) {next : Option L → Program L σ α}
    (hcode : r.code = .init next) (hnew : l ∉ s.known) :
    Sound (proceed { s with known := l :: s.known, value := Function.update s.value l 1 } p
      (some ⟨r.held, next (some l)⟩)) := by
  have horderly := h.orderly p r hp
  rw [hcode] at horderly
  refine h.of_proceed s.shared (List.subset_cons_self l _) ?_ fun l' hl' => ?_
  · rintro r' hr'
    cases hr'
    refine ⟨horderly.2 l hnew, h.nodup p r hp, fun l' hl' => ?_⟩
    exact List.mem_cons_of_mem l (h.known p l' ⟨r, hp, hl'⟩)
  · by_cases heq : l' = l
    · -- nobody can hold what has not been there
      subst heq
      refine .inl ⟨Function.update_self .., fun q hq => hnew (h.known q l' ?_)⟩
      exact (holds_proceed rfl (held_iff hp _ l')).mp hq
    · have hold := (List.mem_cons.mp hl').resolve_left heq
      exact (h.holder l' hold).proceed rfl (Function.update_of_ne heq _ _)
        (held_iff hp _ l')

/-- **What a step of a process keeps.** -/
theorem advance (h : Sound s) (hp : s.procs p = some r) {made : Option L}
    (hstep : s.advance p r made = some s') : Sound s' := by
  have horderly := h.orderly p r hp
  unfold State.advance at hstep
  split at hstep
  · rename_i a hcode
    cases hstep
    rw [hcode] at horderly
    refine h.of_same_held s.shared (fun l => ⟨?_, ?_⟩) nofun
    · rintro ⟨r', hr', -⟩
      cases hr'
    · rintro ⟨r', hr', hmem⟩
      cases hp.symm.trans hr'
      rw [show r.held = [] from horderly] at hmem
      exact absurd hmem List.not_mem_nil
  · rename_i l next hcode
    split_ifs at hstep with hvalue
    cases hstep
    exact h.wait hp hcode hvalue
  · rename_i l next hcode
    cases hstep
    exact h.post hp hcode
  · rename_i next hcode
    rw [hcode] at horderly
    split at hstep
    · cases hstep
      refine h.of_same_held s.shared (held_iff hp _) ?_
      rintro r' hr'
      cases hr'
      exact ⟨horderly.1, h.nodup p r hp⟩
    · rename_i l
      split_ifs at hstep with hmem
      cases hstep
      exact h.init hp hcode hmem
  · rename_i effect next hcode
    rw [hcode] at horderly
    cases hstep
    refine h.of_same_held (effect s.shared) (held_iff hp _) ?_
    rintro r' hr'
    cases hr'
    exact ⟨horderly s.shared, h.nodup p r hp⟩

/-! ### What follows -/

omit [DecidableEq P] [DecidableEq L] in
/-- **A semaphore has one holder.** -/
theorem unique (h : Sound s) (hp : s.Holds p l) (hq : s.Holds q l) : p = q := by
  rcases h.holder l (h.known p l hp) with ⟨-, hfree⟩ | ⟨-, p', -, hunique⟩
  · exact absurd hp (hfree p)
  · exact (hunique p hp).trans (hunique q hq).symm

omit [DecidableEq P] [DecidableEq L] in
/-- A process that waits holds only smaller semaphores. -/
theorem lt_of_wait (h : Sound s) (hp : s.procs p = some r) {next : Program L σ α}
    (hcode : r.code = .wait l next) : l ∈ s.known ∧ ∀ h ∈ r.held, h < l := by
  have horderly := h.orderly p r hp
  rw [hcode] at horderly
  exact ⟨horderly.1, horderly.2.1⟩

omit [LT L] in
/-- A process can take a step, if it does not wait for a semaphore that is taken. -/
theorem advance_or_wait (s : State P L σ α) (p : P) (r : Running L σ α) :
    (∃ s', s.advance p r none = some s') ∨ ∃ l next, r.code = .wait l next ∧ s.value l = 0 := by
  unfold State.advance
  cases hcode : r.code with
  | ret a => exact .inl ⟨_, rfl⟩
  | wait l next =>
    by_cases hvalue : s.value l = 0
    · exact .inr ⟨l, next, rfl, hvalue⟩
    · dsimp only
      rw [if_neg hvalue]
      exact .inl ⟨_, rfl⟩
  | post l next => exact .inl ⟨_, rfl⟩
  | init next => exact .inl ⟨_, rfl⟩
  | act effect next => exact .inl ⟨_, rfl⟩

/-- Behind a semaphore that is taken somebody can take a step: its holder, or one that
the holder waits for, who holds a greater one. -/
theorem exists_step_of_zero [WellFoundedGT L] (h : Sound s) (hl : l ∈ s.known)
    (hvalue : s.value l = 0) :
    ∃ q r s', s.procs q = some r ∧ s.advance q r none = some s' := by
  induction l using WellFoundedGT.induction with
  | ind l ih =>
    obtain ⟨-, q, ⟨r, hr, hmem⟩, -⟩ := (h.holder l hl).resolve_left fun hfree =>
      absurd (hvalue.symm.trans hfree.1) (by decide)
    rcases advance_or_wait s q r with ⟨s', hstep⟩ | ⟨l', next, hcode, hvalue'⟩
    · exact ⟨q, r, s', hr, hstep⟩
    · obtain ⟨hl', hlt⟩ := h.lt_of_wait hr hcode
      exact ih l' (hlt l hmem) hl' hvalue'

/-- **Somebody can go on**, as long as anybody is in an operation. -/
theorem exists_step [WellFoundedGT L] (h : Sound s) (hp : s.procs p = some r) :
    ∃ q r s', s.procs q = some r ∧ s.advance q r none = some s' := by
  rcases advance_or_wait s p r with ⟨s', hstep⟩ | ⟨l, next, hcode, hvalue⟩
  · exact ⟨p, r, s', hp, hstep⟩
  · exact h.exists_step_of_zero (h.lt_of_wait hp hcode).1 hvalue

end Sound

/-! ### Runs -/

/-- A system with one semaphore, and nobody in an operation. -/
def State.start (l : L) (shared : σ) : State P L σ α := ⟨[l], fun _ => 1, shared, fun _ => none⟩

omit [DecidableEq P] in
theorem sound_start (l : L) (shared : σ) : Sound (State.start l shared : State P L σ α) where
  orderly := nofun
  nodup := nofun
  known := by
    rintro p l ⟨r, hr, -⟩
    cases hr
  holder := by
    refine fun l _ => .inl ⟨rfl, ?_⟩
    rintro p ⟨r, hr, -⟩
    cases hr

section Runs

variable [DecidableEq L] {code : A → Program L σ α} {ready : List L → A → Prop}
  [∀ known a, Decidable (ready known a)] {s s' : State P L σ α}

/-- **What a step keeps**, when operations that are ready are orderly. -/
theorem sound_step
    (hready : ∀ known a, ready known a → (code a).Keeps known [])
    (h : Sound s) {e : Event P L A} (hstep : s.step code ready e = some s') : Sound s' := by
  cases e with
  | start p a =>
    simp only [State.step] at hstep
    split_ifs at hstep with hcond
    cases hstep
    obtain ⟨hnone, hcode⟩ := hcond
    refine h.of_same_held s.shared (fun l => ⟨?_, ?_⟩) ?_
    · rintro ⟨r, hr, hmem⟩
      cases hr
      exact absurd hmem List.not_mem_nil
    · rintro ⟨r, hr, -⟩
      rw [hr] at hnone
      cases hnone
    · rintro r hr
      cases hr
      exact ⟨hready s.known a hcode, List.nodup_nil⟩
  | step p made =>
    obtain ⟨r, hr, hadvance⟩ := Option.bind_eq_some_iff.mp hstep
    exact h.advance hr hadvance

/-- **What a run keeps.** -/
theorem sound_run
    (hready : ∀ known a, ready known a → (code a).Keeps known [])
    (h : Sound s) {events : List (Event P L A)}
    (hrun : Machine.run (State.step code ready) s events = some s') : Sound s' :=
  Machine.invariant_run Sound (fun _ _ _ h hstep => sound_step hready h hstep) h hrun

end Runs

end Sound

end Locks
