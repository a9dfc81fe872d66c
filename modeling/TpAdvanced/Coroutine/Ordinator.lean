import Mathlib.Data.List.Basic
import Mathlib.Data.List.Induction
import Mathlib.Logic.Function.Basic
import TpAdvanced.Lib.Machine

/-!
# Coroutines

A thread has one *ordinator*: its routines under their ids, the queue of ids whose
routines have finished, the current id, and one saved context, that of the last call
of `resume`.  A context is modelled by what runs when it is loaded.  Loading a context
whose frames are gone, and indexing `routines` with id 0, is undefined.

## Main definitions

* `Routine`, `Ordinator`, `Ordinator.create` — the data of a thread.
* `Thread` — the ordinator, the body that runs, and what the calls have given.
* `Execution.step` — a call of `create`, `resume` or `yield`, or the end of a body.
-/

namespace TpAdvanced

namespace Coroutine

variable {F E : Type*}

/-- A body on its way: the id that `entry` has read, its function, and the number of
the segment that runs next. -/
structure Activation (F : Type*) where
  id : ℕ
  func : F
  segment : ℕ
  deriving DecidableEq, Repr

/-- The context of a routine. -/
inductive Context (F : Type*)
  /-- As `makecontext` leaves it. -/
  | entry
  /-- Saved by `yield`. -/
  | suspended (a : Activation F)
  /-- Loaded since; its frames are in use or gone. -/
  | loaded
  deriving DecidableEq, Repr

structure Routine (F E : Type*) where
  func : Option F
  finished : Bool := false
  ctx : Context F := .entry
  exception : Option E := none
  deriving DecidableEq, Repr

/-- `reset`. -/
def Routine.reset (r : Routine F E) (f : Option F) : Routine F E :=
  { r with func := f, finished := false, exception := none, ctx := .entry }

/-- A call of `resume` that has switched to its routine.  `caller` is the body it was
made in, if any, and `before` the value of `current()` just before the call. -/
structure ResumeCall (F : Type*) where
  caller : Option (Activation F)
  id : ℕ
  before : ℕ
  deriving DecidableEq, Repr

/-- `Ordinator`.  `ctx` is the call whose context is saved, until it is loaded. -/
structure Ordinator (F E : Type*) where
  routines : List (Routine F E) := []
  finished : List ℕ := []
  current : ℕ := 0
  ctx : Option (ResumeCall F) := none
  deriving DecidableEq, Repr

namespace Ordinator

/-- The routine `routines[id - 1]`. -/
def routine? (o : Ordinator F E) (id : ℕ) : Option (Routine F E) :=
  if id = 0 then none else o.routines[id - 1]?

/-- An assignment to `routines[id - 1]`. -/
def modify (o : Ordinator F E) (id : ℕ) (f : Routine F E → Routine F E) : Ordinator F E :=
  { o with routines := o.routines.modify (id - 1) f }

/-- `create`. -/
def create (o : Ordinator F E) (f : Option F) : ℕ × Ordinator F E :=
  match o.finished with
  | [] => (o.routines.length + 1, { o with routines := o.routines ++ [{ func := f }] })
  | id :: rest => (id, { o.modify id (·.reset f) with finished := rest })

end Ordinator

/-- What a call leads to. -/
inductive Observation (F E : Type*)
  /-- `create` returned this id. -/
  | created (id : ℕ)
  /-- `resume` runs a segment of a function. -/
  | ran (id : ℕ) (func : F) (segment : ℕ)
  /-- The call of `resume` for this id returned. -/
  | returned (id : ℕ) (suspended : Bool)
  /-- The call of `resume` for this id threw. -/
  | threw (id : ℕ) (e : E)
  deriving DecidableEq, Repr

/-- A thread: the body that runs, if any, and the calls of `resume` that have not
returned, innermost first. -/
structure Thread (F E : Type*) where
  ordinator : Ordinator F E := {}
  running : Option (Activation F) := none
  calls : List (ResumeCall F) := []
  log : List (Observation F E) := []
  deriving DecidableEq, Repr

inductive Execution (F E : Type*)
  | defined (t : Thread F E)
  | undefined
  deriving DecidableEq, Repr

/-- What a thread does next. -/
inductive ThreadEvent (F E : Type*)
  /-- `create`; a `std::function` may be empty. -/
  | create (f : Option F)
  /-- `resume`, and whether `swapcontext` succeeds. -/
  | resume (id : ℕ) (switches : Bool)
  | yield
  /-- The body returns. -/
  | finish
  /-- An exception escapes the body. -/
  | throw (e : E)
  deriving DecidableEq, Repr

namespace Thread

def create (t : Thread F E) (f : Option F) : Thread F E :=
  { t with
    ordinator := (t.ordinator.create f).2
    log := t.log ++ [.created (t.ordinator.create f).1] }

/-- The end of the call `k` of `resume`, behind its `swapcontext`. -/
def outcome (t : Thread F E) (k : ResumeCall F) : Observation F E :=
  match (t.ordinator.routine? k.id).bind (·.exception) with
  | some e => .threw k.id e
  | none => .returned k.id !((t.ordinator.routine? k.id).any (·.finished))

/-- The saved context is loaded: control is back in the call that saved it. -/
def loadMain (t : Thread F E) : Execution F E :=
  match t.ordinator.ctx with
  | none => .undefined
  | some k => .defined
    { ordinator := { t.ordinator with ctx := none }
      running := k.caller
      calls := t.calls.tail
      log := t.log ++ [t.outcome k] }

/-- The end of `entry`.  Its context goes on with the saved one. -/
def finish (t : Thread F E) (id : ℕ) (exception : Option E) : Execution F E :=
  let o := t.ordinator.modify id fun r =>
    { r with exception := exception.or r.exception, finished := true }
  loadMain { t with ordinator := { o with current := 0, finished := o.finished ++ [id] } }

/-- A call of `resume` that returns without having switched. -/
def refuse (t : Thread F E) (id : ℕ) : Thread F E :=
  { t with log := t.log ++ [.returned id false] }

/-- `resume` up to its `swapcontext`: the current id is set, its own context saved,
and that of the routine used up. -/
def saveMain (t : Thread F E) (id : ℕ) : Thread F E :=
  let k : ResumeCall F := ⟨t.running, id, t.ordinator.current⟩
  let o := t.ordinator.modify id fun r => { r with ctx := .loaded }
  { t with ordinator := { o with current := id, ctx := some k }, calls := k :: t.calls }

/-- A body runs on. -/
def runOn (t : Thread F E) (a : Activation F) : Thread F E :=
  { t with running := some a, log := t.log ++ [.ran a.id a.func a.segment] }

/-- `resume` after its checks, with what the context of the routine leads to. -/
def switchTo (t : Thread F E) (id : ℕ) (r : Routine F E) : Execution F E :=
  match r.ctx, r.func with
  | .entry, none => (t.saveMain id).finish id none
  | .entry, some f => .defined ((t.saveMain id).runOn ⟨id, f, 0⟩)
  | .suspended a, _ => .defined ((t.saveMain id).runOn a)
  | .loaded, _ => .undefined

/-- `resume`. -/
def resume (t : Thread F E) (id : ℕ) (switches : Bool) : Execution F E :=
  match t.ordinator.routine? id with
  | none => .defined (t.refuse id)
  | some r =>
    if r.finished then .defined (t.refuse id)
    else if switches then t.switchTo id r
    -- what a failing `swapcontext` has saved is not to be relied on
    else .defined (refuse { t with ordinator := { t.ordinator with current := 0, ctx := none } } id)

/-- `yield`. -/
def yield (t : Thread F E) : Execution F E :=
  let id := t.ordinator.current
  match t.running, t.ordinator.routine? id with
  | some a, some _ =>
    let o := t.ordinator.modify id fun r =>
      { r with ctx := .suspended { a with segment := a.segment + 1 } }
    loadMain { t with ordinator := { o with current := 0 } }
  | _, _ => .undefined

end Thread

namespace Execution

/-- A thread before its first call. -/
def start : Execution F E := .defined {}

/-- **A step of a thread.**  Nothing is said about what follows undefined behaviour. -/
def step : Execution F E → ThreadEvent F E → Option (Execution F E)
  | .undefined, _ => none
  | .defined t, .create f => some (.defined (t.create f))
  | .defined t, .resume id switches => some (t.resume id switches)
  | .defined t, .yield => some t.yield
  | .defined t, .finish => t.running.map fun a => t.finish a.id none
  | .defined t, .throw e => t.running.map fun a => t.finish a.id (some e)

end Execution

/-! ### The routines of an ordinator -/

namespace Ordinator

open Function (update)

variable (o : Ordinator F E) (id j : ℕ) (f : Routine F E → Routine F E)

@[simp] theorem current_modify : (o.modify id f).current = o.current := rfl

@[simp] theorem finished_modify : (o.modify id f).finished = o.finished := rfl

@[simp] theorem ctx_modify : (o.modify id f).ctx = o.ctx := rfl

/-- The routines do not depend on the other fields. -/
@[simp] theorem routine?_mk (q : List ℕ) (c : ℕ) (k : Option (ResumeCall F)) :
    routine? ⟨o.routines, q, c, k⟩ j = o.routine? j := rfl

variable {id j}

theorem routine?_modify (h : id ≠ 0) :
    (o.modify id f).routine? = update o.routine? id ((o.routine? id).map f) := by
  funext j
  by_cases hj : j = id
  · rw [hj, Function.update_self, routine?, routine?, if_neg h, if_neg h, modify,
      List.getElem?_modify_eq]
    rfl
  · rw [Function.update_of_ne hj]
    by_cases h0 : j = 0
    · rw [routine?, routine?, if_pos h0, if_pos h0]
    · have hne : id - 1 ≠ j - 1 := by omega
      rw [routine?, routine?, if_neg h0, if_neg h0, modify, List.getElem?_modify_ne _ _ hne]

theorem ne_zero_of_routine? {r : Routine F E} (h : o.routine? id = some r) : id ≠ 0 := by
  intro h0
  rw [routine?, if_pos h0] at h
  cases h

/-- The id of a new slot is not in use. -/
theorem routine?_length_add_one : o.routine? (o.routines.length + 1) = none := by
  rw [routine?, if_neg (Nat.succ_ne_zero _), Nat.add_sub_cancel,
    List.getElem?_eq_none (Nat.le_refl _)]

theorem routine?_append (r : Routine F E) :
    Ordinator.routine? { o with routines := o.routines ++ [r] } =
      update o.routine? (o.routines.length + 1) (some r) := by
  funext j
  rw [Function.update_apply]
  unfold routine?
  by_cases h0 : j = 0
  · rw [if_pos h0, if_pos h0, if_neg (by omega)]
  · rw [if_neg h0, if_neg h0, List.getElem?_append]
    by_cases hlt : j - 1 < o.routines.length
    · rw [if_pos hlt, if_neg (by omega)]
    · rw [if_neg hlt]
      by_cases hj : j = o.routines.length + 1
      · rw [if_pos hj, hj, Nat.add_sub_cancel, Nat.sub_self]
        rfl
      · have hout : o.routines[j - 1]? = none := List.getElem?_eq_none_iff.mpr (by omega)
        rw [if_neg hj, hout, List.getElem?_eq_none_iff, List.length_singleton]
        omega

variable {o}

/-- `create` makes a new routine. -/
theorem create_of_nil (f : Option F) (h : o.finished = []) :
    o.create f = (o.routines.length + 1,
      { o with routines := o.routines ++ [{ func := f }] }) := by
  rw [create, h]

/-- `create` uses the slot of a finished routine again. -/
theorem create_of_cons (f : Option F) {rest : List ℕ} (h : o.finished = id :: rest) :
    o.create f = (id, { o.modify id (·.reset f) with finished := rest }) := by
  rw [create, h]

variable (o)

/-- The queue holds the ids of the finished routines, each once. -/
structure Queued : Prop where
  nodup : o.finished.Nodup
  mem_finished : ∀ id, id ∈ o.finished ↔ ∃ r, o.routine? id = some r ∧ r.finished = true

namespace Queued

variable {o} {o' : Ordinator F E} {r r' : Routine F E}

theorem start : Queued ({} : Ordinator F E) where
  nodup := List.nodup_nil
  mem_finished := by
    intro id
    simp [routine?]

theorem not_mem (h : o.Queued) (hr : o.routine? id = some r) (hunfinished : r.finished = false) :
    id ∉ o.finished := by
  intro hmem
  obtain ⟨r', hr', hfinished⟩ := (h.mem_finished id).mp hmem
  cases hr.symm.trans hr'
  cases hunfinished.symm.trans hfinished

/-- An assignment to a routine that has not finished and does not finish. -/
theorem update_unfinished (h : o.Queued) (hr : o.routine? id = some r)
    (hunfinished : r.finished = false) (hunfinished' : r'.finished = false)
    (hroutine : o'.routine? = update o.routine? id (some r')) (hq : o'.finished = o.finished) :
    o'.Queued where
  nodup := hq ▸ h.nodup
  mem_finished := by
    intro j
    rw [hq, hroutine, Function.update_apply]
    by_cases hj : j = id
    · rw [if_pos hj, hj]
      simp [hunfinished', h.not_mem hr hunfinished]
    · rw [if_neg hj]
      exact h.mem_finished j

/-- A routine finishes. -/
theorem update_finished (h : o.Queued) (hr : o.routine? id = some r)
    (hunfinished : r.finished = false) (hfinished : r'.finished = true)
    (hroutine : o'.routine? = update o.routine? id (some r'))
    (hq : o'.finished = o.finished ++ [id]) : o'.Queued where
  nodup := by
    rw [hq, List.nodup_append]
    refine ⟨h.nodup, List.pairwise_singleton _ _, ?_⟩
    rintro a ha b hb rfl
    rw [List.mem_singleton] at hb
    exact h.not_mem hr hunfinished (hb ▸ ha)
  mem_finished := by
    intro j
    rw [hq, hroutine, Function.update_apply, List.mem_append, List.mem_singleton]
    by_cases hj : j = id
    · rw [if_pos hj]
      simp [hj, hfinished]
    · rw [if_neg hj, h.mem_finished j]
      simp [hj]

/-- What `create` does, to a new slot or to a finished one. -/
theorem create_cases (h : o.Queued) (f : Option F) :
    (o.create f).1 ≠ 0 ∧
    (∀ r, o.routine? (o.create f).1 = some r → r.finished = true) ∧
    (o.create f).2.routine? = update o.routine? (o.create f).1 (some { func := f }) ∧
    (o.create f).2.current = o.current ∧ (o.create f).2.ctx = o.ctx ∧
    (o.create f).2.Queued := by
  cases hq : o.finished with
  | nil =>
    -- a new routine, behind the others
    have hroutine := o.routine?_append { func := f }
    have hfree : ∀ r, o.routine? (o.routines.length + 1) = some r → r.finished = true := by
      intro r hr
      cases o.routine?_length_add_one.symm.trans hr
    rw [create_of_nil f hq]
    refine ⟨Nat.succ_ne_zero _, hfree, hroutine, rfl, rfl, ?_, ?_⟩
    · change o.finished.Nodup
      exact h.nodup
    · intro j
      change j ∈ o.finished ↔ _
      rw [hroutine, Function.update_apply, h.mem_finished]
      by_cases hj : j = o.routines.length + 1
      · rw [if_pos hj, hj, o.routine?_length_add_one]
        simp
      · rw [if_neg hj]
  | cons id rest =>
    -- the slot of a finished routine is used again
    obtain ⟨r, hr, hfinished⟩ := (h.mem_finished id).mp (by rw [hq]; exact List.mem_cons_self)
    have h0 := o.ne_zero_of_routine? hr
    have hroutine := o.routine?_modify (·.reset f) h0
    rw [hr] at hroutine
    have hnodup := h.nodup
    rw [hq, List.nodup_cons] at hnodup
    rw [create_of_cons f hq]
    refine ⟨h0, ?_, hroutine, rfl, rfl, hnodup.2, ?_⟩
    · intro r' hr'
      cases hr.symm.trans hr'
      exact hfinished
    · intro j
      change j ∈ rest ↔ ∃ r, (o.modify id (·.reset f)).routine? j = some r ∧ _
      rw [hroutine, Function.update_apply]
      by_cases hj : j = id
      · rw [if_pos hj, hj]
        simp [hnodup.1, Routine.reset]
      · rw [if_neg hj, ← h.mem_finished, hq]
        simp [hj]

end Queued

end Ordinator

/-! ### What the calls do -/

/-- What the call of `resume` gives whose routine has ended. -/
def ended (id : ℕ) : Option E → Observation F E
  | none => .returned id false
  | some e => .threw id e

namespace Thread

open Function (update)

variable {t : Thread F E} {k : ResumeCall F} {r : Routine F E} {a : Activation F}

theorem routine?_saveMain {id : ℕ} (hr : t.ordinator.routine? id = some r) :
    (t.saveMain id).ordinator.routine? =
      update t.ordinator.routine? id (some { r with ctx := .loaded }) := by
  have hroutine := t.ordinator.routine?_modify (fun r => { r with ctx := .loaded })
    (t.ordinator.ne_zero_of_routine? hr)
  rw [hr, Option.map_some] at hroutine
  exact hroutine

/-- The end of a body, where the saved context is that of the call that runs it. -/
theorem finish_cases (exception : Option E) (hctx : t.ordinator.ctx = some k)
    (hr : t.ordinator.routine? k.id = some r) (hexception : r.exception = none) :
    ∃ o, t.finish k.id exception =
        .defined ⟨o, k.caller, t.calls.tail, t.log ++ [ended k.id exception]⟩ ∧
      o.routine? = update t.ordinator.routine? k.id
        (some { r with exception := exception, finished := true }) ∧
      o.finished = t.ordinator.finished ++ [k.id] ∧ o.current = 0 ∧ o.ctx = none := by
  let f := fun r : Routine F E => { r with exception := exception.or r.exception, finished := true }
  have hroutine := t.ordinator.routine?_modify f (t.ordinator.ne_zero_of_routine? hr)
  simp only [hr, Option.map_some, f, hexception, Option.or_none] at hroutine
  refine ⟨{ t.ordinator.modify k.id f with
    current := 0, finished := t.ordinator.finished ++ [k.id], ctx := none }, ?_, hroutine, rfl, rfl,
    rfl⟩
  simp only [finish, loadMain, Ordinator.ctx_modify, hctx, outcome, Ordinator.routine?_mk,
    hroutine, Function.update_self]
  cases exception <;> rfl

/-- `yield`, where the saved context is that of the call that runs the body. -/
theorem yield_cases (hrun : t.running = some a) (hcurrent : t.ordinator.current = a.id)
    (hctx : t.ordinator.ctx = some k) (hid : k.id = a.id)
    (hr : t.ordinator.routine? a.id = some r) (hfinished : r.finished = false)
    (hexception : r.exception = none) :
    ∃ o, t.yield =
        .defined ⟨o, k.caller, t.calls.tail, t.log ++ [.returned a.id true]⟩ ∧
      o.routine? = update t.ordinator.routine? a.id
        (some { r with ctx := .suspended { a with segment := a.segment + 1 } }) ∧
      o.finished = t.ordinator.finished ∧ o.current = 0 ∧ o.ctx = none := by
  let f := fun r : Routine F E => { r with ctx := .suspended { a with segment := a.segment + 1 } }
  have hroutine := t.ordinator.routine?_modify f (t.ordinator.ne_zero_of_routine? hr)
  simp only [hr, Option.map_some, f] at hroutine
  refine ⟨{ t.ordinator.modify a.id f with current := 0, ctx := none }, ?_, hroutine, rfl, rfl, rfl⟩
  simp only [yield, hrun, hcurrent, hr, loadMain, Ordinator.ctx_modify, hctx, outcome,
    Ordinator.routine?_mk, hroutine, hid, Function.update_self, Option.bind_some, hexception,
    Option.any_some, hfinished, Bool.not_false]
  rfl

/-! ### No routine is ever dropped -/

variable {t' : Thread F E}

theorem routines_of_loadMain (h : t.loadMain = .defined t') :
    t'.ordinator.routines = t.ordinator.routines := by
  unfold loadMain at h
  split at h
  · cases h
  · cases h
    rfl

theorem length_of_finish {id : ℕ} {exception : Option E} (h : t.finish id exception = .defined t') :
    t'.ordinator.routines.length = t.ordinator.routines.length := by
  rw [routines_of_loadMain h]
  exact List.length_modify _ _ _

theorem length_of_yield (h : t.yield = .defined t') :
    t'.ordinator.routines.length = t.ordinator.routines.length := by
  unfold yield at h
  dsimp only at h
  split at h
  · rw [routines_of_loadMain h]
    exact List.length_modify _ _ _
  · cases h

theorem length_of_resume {id : ℕ} {switches : Bool} (h : t.resume id switches = .defined t') :
    t'.ordinator.routines.length = t.ordinator.routines.length := by
  have hsave : (t.saveMain id).ordinator.routines.length = t.ordinator.routines.length :=
    List.length_modify _ _ _
  unfold resume at h
  split at h
  · cases h
    rfl
  · split at h
    · cases h
      rfl
    · split at h
      · unfold switchTo at h
        split at h
        · rw [length_of_finish h, hsave]
        · cases h
          exact hsave
        · cases h
          exact hsave
        · cases h
      · cases h
        rfl

end Thread

end Coroutine

end TpAdvanced
