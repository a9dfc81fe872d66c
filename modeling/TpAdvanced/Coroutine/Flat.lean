import TpAdvanced.Coroutine.Ordinator

/-!
# Routines that do not resume each other

While bodies call `create` and `yield` but never `resume`, the ordinator does what
coroutines are for: a slot keeps its function and the place where the function goes
on, and a call of `resume` runs it from there to the next `yield` or to its end.

## Main definitions

* `Slots`, `Slots.Step` — what the routines are for.
* `Thread.slots` — the slots that a thread holds.
* `Flat` — the invariant.

## Main results

* `Flat.step` — a step of the thread is a step of its slots.
* `flat_run` — **the log of a run is a run of the slots**.
-/

namespace TpAdvanced

namespace Coroutine

open Machine

variable {F E : Type*}

/-! ### What the routines are for -/

/-- The routines that can be resumed, each with its function and the number of its
next segment, and the body that runs. -/
structure Slots (F : Type*) where
  waiting : ℕ → Option (Option F × ℕ)
  running : Option (Activation F)

namespace Slots

open Function (update)

def empty : Slots F := ⟨fun _ => none, none⟩

/-- A call, or the end of a body, and what it leads to. -/
inductive Step : Slots F → ThreadEvent F E → Observation F E → Slots F → Prop
  | create {s : Slots F} {id : ℕ} {f : Option F} (h0 : id ≠ 0) (hwaiting : s.waiting id = none)
      (hrunning : ∀ a, s.running = some a → a.id ≠ id) :
      Step s (.create f) (.created id) { s with waiting := update s.waiting id (some (f, 0)) }
  | refuse {s : Slots F} {id : ℕ} (hout : s.running = none) (hwaiting : s.waiting id = none) :
      Step s (.resume id true) (.returned id false) s
  | resume {s : Slots F} {id n : ℕ} {f : F} (hout : s.running = none)
      (hwaiting : s.waiting id = some (some f, n)) :
      Step s (.resume id true) (.ran id f n) ⟨update s.waiting id none, some ⟨id, f, n⟩⟩
  /-- An empty function finishes at once. -/
  | resumeEmpty {s : Slots F} {id n : ℕ} (hout : s.running = none)
      (hwaiting : s.waiting id = some (none, n)) :
      Step s (.resume id true) (.returned id false) ⟨update s.waiting id none, none⟩
  | yield {s : Slots F} {a : Activation F} (hrun : s.running = some a) :
      Step s .yield (.returned a.id true)
        ⟨update s.waiting a.id (some (some a.func, a.segment + 1)), none⟩
  | finish {s : Slots F} {a : Activation F} (hrun : s.running = some a) :
      Step s .finish (.returned a.id false) ⟨s.waiting, none⟩
  | throw {s : Slots F} {a : Activation F} {e : E} (hrun : s.running = some a) :
      Step s (.throw e) (.threw a.id e) ⟨s.waiting, none⟩

/-- A run, with what each step led to. -/
inductive Run : Slots F → List (ThreadEvent F E × Observation F E) → Slots F → Prop
  | nil {s : Slots F} : Run s [] s
  | concat {s s' s'' : Slots F} {l : List (ThreadEvent F E × Observation F E)}
      {e : ThreadEvent F E} {o : Observation F E} (hrun : Run s l s') (hstep : Step s' e o s'') :
      Run s (l ++ [(e, o)]) s''

end Slots

/-! ### The slots of a thread -/

/-- What the slot of a routine holds. -/
def Routine.slot (r : Routine F E) : Option (Option F × ℕ) :=
  if r.finished then none
  else match r.ctx with
    | .entry => some (r.func, 0)
    | .suspended a => some (r.func, a.segment)
    | .loaded => none

def Thread.slots (t : Thread F E) : Slots F where
  waiting := (·.bind Routine.slot) ∘ t.ordinator.routine?
  running := t.running

/-- Bodies do not call `resume`, and `swapcontext` succeeds. -/
def BodiesDoNotResume : Execution F E → ThreadEvent F E → Bool
  | .defined t, .resume _ switches => t.running.isNone && switches
  | _, _ => true

/-- The context of a routine that has not finished is one to go on from. -/
def Context.Fits (running : Option (Activation F)) (id : ℕ) (func : Option F) : Context F → Prop
  | .entry => True
  | .suspended a => a.id = id ∧ func = some a.func
  | .loaded => ∃ a, running = some a ∧ a.id = id

/-- **The invariant**, with a body running or not. -/
structure Flat (t : Thread F E) : Prop where
  queued : t.ordinator.Queued
  fits : ∀ id r, t.ordinator.routine? id = some r → r.finished = false →
    r.exception = none ∧ r.ctx.Fits t.running id r.func
  outside : t.running = none → t.ordinator.current = 0
  inside : ∀ a, t.running = some a → t.ordinator.current = a.id ∧
    t.ordinator.ctx = some ⟨none, a.id, 0⟩ ∧
    ∃ r, t.ordinator.routine? a.id = some r ∧ r.finished = false ∧ r.ctx = .loaded ∧
      r.func = some a.func

/-! ### What a step keeps -/

namespace Flat

open Function (update)

variable {t : Thread F E} {id : ℕ} {r' : Routine F E}

theorem start : Flat ({} : Thread F E) where
  queued := .start
  fits := by
    intro id r hr
    simp [Ordinator.routine?] at hr
  outside := fun _ => rfl
  inside := nofun

/-- A step that assigns to one routine. -/
theorem of_update (h : Flat t) (t' : Thread F E)
    (hroutine : t'.ordinator.routine? = update t.ordinator.routine? id (some r'))
    (hqueued : t'.ordinator.Queued)
    (hfits : r'.finished = false → r'.exception = none ∧ r'.ctx.Fits t'.running id r'.func)
    (hothers : ∀ a, t.running = some a → a.id = id ∨ t'.running = some a)
    (houtside : t'.running = none → t'.ordinator.current = 0)
    (hinside : ∀ a, t'.running = some a → t'.ordinator.current = a.id ∧
      t'.ordinator.ctx = some ⟨none, a.id, 0⟩ ∧
      ∃ r, t'.ordinator.routine? a.id = some r ∧ r.finished = false ∧ r.ctx = .loaded ∧
        r.func = some a.func) : Flat t' where
  queued := hqueued
  fits := by
    intro j r hr hunfinished
    rw [hroutine, Function.update_apply] at hr
    by_cases hj : j = id
    · rw [if_pos hj] at hr
      cases hr
      rw [hj]
      exact hfits hunfinished
    · rw [if_neg hj] at hr
      obtain ⟨hexception, hctx⟩ := h.fits j r hr hunfinished
      refine ⟨hexception, ?_⟩
      -- a loaded context belongs to the body that runs, whose id is not `j` if it stops
      cases hc : r.ctx with
      | entry => trivial
      | suspended a =>
        rw [hc] at hctx
        exact hctx
      | loaded =>
        rw [hc] at hctx
        obtain ⟨a, hrun, ha⟩ := hctx
        rcases hothers a hrun with hid | hrun'
        · exact absurd (ha.symm.trans hid) hj
        · exact ⟨a, hrun', ha⟩
  outside := houtside
  inside := hinside

end Flat

/-- The slots behind an assignment to one routine. -/
theorem waiting_update {t : Thread F E} (t' : Thread F E) {id : ℕ} {r' : Routine F E}
    (h : t'.ordinator.routine? = Function.update t.ordinator.routine? id (some r')) :
    t'.slots.waiting = Function.update t.slots.waiting id r'.slot := by
  rw [Thread.slots, Thread.slots, h, Function.comp_update]
  rfl

theorem waiting_eq {t : Thread F E} {id : ℕ} {r : Routine F E}
    (h : t.ordinator.routine? id = some r) : t.slots.waiting id = r.slot := by
  simp only [Thread.slots, Function.comp_apply, h, Option.bind_some]

/-! ### One lemma for each event -/

section

open Function (update)

variable {t : Thread F E}

/-- What a step of the thread has to be. -/
def Simulates (t : Thread F E) (e : ThreadEvent F E) (x : Execution F E) : Prop :=
  ∃ t' o, x = .defined t' ∧ t'.log = t.log ++ [o] ∧ Slots.Step t.slots e o t'.slots ∧ Flat t'

theorem Flat.create (h : Flat t) (f : Option F) :
    Simulates t (.create f) (.defined (t.create f)) := by
  obtain ⟨h0, hfree, hroutine, hcurrent, hctx, hqueued⟩ := h.queued.create_cases f
  have hroutine' : (t.create f).ordinator.routine? =
      update t.ordinator.routine? (t.ordinator.create f).1 (some { func := f }) := hroutine
  refine ⟨_, _, rfl, rfl, ?_, ?_⟩
  · have hslots : (t.create f).slots =
        { t.slots with
          waiting := update t.slots.waiting (t.ordinator.create f).1 (some (f, 0)) } := by
      have hwaiting := waiting_update (t.create f) hroutine'
      rw [Slots.mk.injEq]
      exact ⟨hwaiting, rfl⟩
    rw [hslots]
    refine .create h0 ?_ ?_
    · simp only [Thread.slots, Function.comp_apply, Option.bind_eq_none_iff]
      intro r hr
      rw [Routine.slot, if_pos (hfree r hr)]
    · intro a ha hid
      obtain ⟨-, -, r, hr, hunfinished, -⟩ := h.inside a ha
      rw [hid] at hr
      rw [hfree r hr] at hunfinished
      cases hunfinished
  · refine h.of_update (t.create f) hroutine' hqueued (fun _ => ⟨rfl, trivial⟩)
      (fun _ ha => .inr ha) ?_ ?_
    · intro hout
      exact hcurrent.trans (h.outside hout)
    · intro a ha
      obtain ⟨ha', hctx', r, hr, hunfinished, hrest⟩ := h.inside a ha
      refine ⟨hcurrent.trans ha', hctx.trans hctx', r, ?_, hunfinished, hrest⟩
      have hne : a.id ≠ (t.ordinator.create f).1 := by
        rintro hid
        rw [hid] at hr
        rw [hfree r hr] at hunfinished
        cases hunfinished
      rw [hroutine', Function.update_of_ne hne]
      exact hr

/-- A call that refuses changes the log only. -/
theorem Flat.refuse (h : Flat t) {id : ℕ} (hout : t.running = none)
    (hwaiting : t.slots.waiting id = none) :
    Simulates t (.resume id true) (.defined (t.refuse id)) :=
  ⟨_, _, rfl, rfl, .refuse hout hwaiting,
    ⟨h.queued, h.fits, h.outside, h.inside⟩⟩

/-- A body ends that runs, or would run if its function were not empty. -/
theorem Flat.ended {k : ResumeCall F} {r : Routine F E} (h : Flat t) (t₁ : Thread F E)
    (hk : k.caller = none) (hlog : t₁.log = t.log)
    (hctx : t₁.ordinator.ctx = some k) (hfinished : t₁.ordinator.finished = t.ordinator.finished)
    {r₀ : Routine F E} (hr₀ : t.ordinator.routine? k.id = some r₀)
    (hunfinished : r₀.finished = false)
    (hroutine : t₁.ordinator.routine? = update t.ordinator.routine? k.id (some r))
    (hexception : r.exception = none) (hothers : ∀ a, t.running = some a → a.id = k.id)
    (exception : Option E) :
    ∃ t', t₁.finish k.id exception = .defined t' ∧ t'.log = t.log ++ [ended k.id exception] ∧
      t'.slots = ⟨update t.slots.waiting k.id none, none⟩ ∧ Flat t' := by
  have hr : t₁.ordinator.routine? k.id = some r := by rw [hroutine, Function.update_self]
  obtain ⟨o, hfinish, hroutine', hq, hcurrent, -⟩ :=
    Thread.finish_cases (t := t₁) exception hctx hr hexception
  rw [hroutine, Function.update_idem] at hroutine'
  let t' : Thread F E := ⟨o, k.caller, t₁.calls.tail, t₁.log ++ [Coroutine.ended k.id exception]⟩
  refine ⟨t', hfinish, by rw [← hlog], ?_, ?_⟩
  · have hwaiting := waiting_update t' hroutine'
    rw [Slots.mk.injEq]
    exact ⟨hwaiting, hk⟩
  · have hqueued : o.Queued :=
      h.queued.update_finished hr₀ hunfinished rfl hroutine' (by rw [hq, hfinished])
    refine h.of_update t' hroutine' hqueued nofun (fun a ha => .inl (hothers a ha))
      (fun _ => hcurrent) ?_
    intro a ha
    cases hk.symm.trans ha

/-- A body that goes on where the slot says. -/
theorem Flat.runOn (h : Flat t) {r : Routine F E} {a : Activation F} (hout : t.running = none)
    (hr : t.ordinator.routine? a.id = some r) (hunfinished : r.finished = false)
    (hfunc : r.func = some a.func) (hslot : r.slot = some (some a.func, a.segment)) :
    Simulates t (.resume a.id true) (.defined ((t.saveMain a.id).runOn a)) := by
  have hroutine : ((t.saveMain a.id).runOn a).ordinator.routine? =
      update t.ordinator.routine? a.id (some { r with ctx := .loaded }) :=
    Thread.routine?_saveMain hr
  have hwaiting := waiting_update ((t.saveMain a.id).runOn a) hroutine
  refine ⟨_, _, rfl, rfl, ?_, ?_⟩
  · have hslots : ((t.saveMain a.id).runOn a).slots =
        ⟨update t.slots.waiting a.id none, some a⟩ := by
      rw [Slots.mk.injEq]
      refine ⟨hwaiting.trans ?_, rfl⟩
      rw [Routine.slot]
      simp
    rw [hslots]
    exact .resume hout ((waiting_eq hr).trans hslot)
  · have hqueued : ((t.saveMain a.id).runOn a).ordinator.Queued :=
      h.queued.update_unfinished hr hunfinished (by exact hunfinished) hroutine rfl
    refine h.of_update _ hroutine hqueued (fun _ => ⟨(h.fits a.id r hr hunfinished).1, a, rfl, rfl⟩)
      (fun b hb => nomatch hout.symm.trans hb) nofun ?_
    · rintro b hb
      cases hb
      have hctx : (t.saveMain a.id).ordinator.ctx =
          some ⟨t.running, a.id, t.ordinator.current⟩ := rfl
      rw [hout, h.outside hout] at hctx
      exact ⟨rfl, hctx, _, (congrFun hroutine a.id).trans (Function.update_self ..), hunfinished,
        rfl, hfunc⟩

/-- `resume` from outside, behind its checks. -/
theorem Flat.switchTo (h : Flat t) {id : ℕ} {r : Routine F E} (hout : t.running = none)
    (hr : t.ordinator.routine? id = some r) (hunfinished : r.finished = false) :
    Simulates t (.resume id true) (t.switchTo id r) := by
  obtain ⟨hexception, hfits⟩ := h.fits id r hr hunfinished
  unfold Thread.switchTo
  cases hc : r.ctx with
  | entry =>
    have hslot : r.slot = some (r.func, 0) := by rw [Routine.slot, hc, hunfinished]; rfl
    cases hf : r.func with
    | none =>
      obtain ⟨t', hfinish, hlog, hslots, hflat⟩ := h.ended (t.saveMain id)
        (k := ⟨t.running, id, t.ordinator.current⟩) hout rfl rfl rfl hr hunfinished
        (Thread.routine?_saveMain hr) hexception
        (fun a ha => nomatch hout.symm.trans ha) none
      refine ⟨t', _, hfinish, hlog, ?_, hflat⟩
      rw [hslots]
      exact .resumeEmpty hout ((waiting_eq hr).trans (hslot.trans (by rw [hf])))
    | some f => exact h.runOn (a := ⟨id, f, 0⟩) hout hr hunfinished hf (by rw [hslot, hf])
  | suspended a =>
    rw [hc] at hfits
    obtain ⟨rfl, hfunc⟩ := hfits
    exact h.runOn hout hr hunfinished hfunc (by rw [Routine.slot, hc, hunfinished, hfunc]; rfl)
  | loaded =>
    rw [hc] at hfits
    obtain ⟨a, ha, -⟩ := hfits
    cases hout.symm.trans ha

theorem Flat.resume (h : Flat t) (id : ℕ) (hout : t.running = none) :
    Simulates t (.resume id true) (t.resume id true) := by
  unfold Thread.resume
  cases hr : t.ordinator.routine? id with
  | none => exact h.refuse hout (by simp [Thread.slots, hr])
  | some r =>
    dsimp only
    by_cases hfinished : r.finished
    · rw [if_pos hfinished]
      exact h.refuse hout (by rw [waiting_eq hr, Routine.slot, if_pos hfinished])
    · rw [if_neg hfinished, if_pos rfl]
      exact h.switchTo hout hr (Bool.eq_false_iff.mpr hfinished)

theorem Flat.yield (h : Flat t) {a : Activation F} (hrun : t.running = some a) :
    Simulates t .yield t.yield := by
  obtain ⟨hcurrent, hctx, r, hr, hunfinished, -, hfunc⟩ := h.inside a hrun
  have hexception := (h.fits a.id r hr hunfinished).1
  obtain ⟨o, hyield, hroutine, hq, hcurrent', -⟩ :=
    Thread.yield_cases hrun hcurrent hctx rfl hr hunfinished hexception
  let t' : Thread F E := ⟨o, none, t.calls.tail, t.log ++ [.returned a.id true]⟩
  refine ⟨t', _, hyield, rfl, ?_, ?_⟩
  · have hslots : t'.slots =
        ⟨update t.slots.waiting a.id (some (some a.func, a.segment + 1)), none⟩ := by
      rw [Slots.mk.injEq]
      refine ⟨(waiting_update t' hroutine).trans ?_, rfl⟩
      rw [Routine.slot, hfunc]
      simp [hunfinished]
    rw [hslots]
    exact .yield hrun
  · have hqueued : o.Queued :=
      h.queued.update_unfinished hr hunfinished (by exact hunfinished) hroutine hq
    refine h.of_update t' hroutine hqueued (fun _ => ⟨hexception, rfl, hfunc⟩) ?_
      (fun _ => hcurrent') nofun
    intro b hb
    cases hrun.symm.trans hb
    exact .inl rfl

theorem Flat.finish (h : Flat t) {a : Activation F} (hrun : t.running = some a)
    (exception : Option E) :
    ∃ t', t.finish a.id exception = .defined t' ∧
      t'.log = t.log ++ [Coroutine.ended a.id exception] ∧
      t'.slots = ⟨t.slots.waiting, none⟩ ∧ Flat t' := by
  obtain ⟨-, hctx, r, hr, hunfinished, hloaded, -⟩ := h.inside a hrun
  obtain ⟨t', hfinish, hlog, hslots, hflat⟩ := h.ended t rfl rfl hctx rfl hr hunfinished
    (Function.update_eq_self_iff.mpr hr.symm).symm (h.fits a.id r hr hunfinished).1
    (by rintro b hb; cases hrun.symm.trans hb; rfl) exception
  refine ⟨t', hfinish, hlog, ?_, hflat⟩
  have hnone : t.slots.waiting a.id = none := by
    rw [waiting_eq hr, Routine.slot, hunfinished, hloaded]
    rfl
  rw [hslots, Slots.mk.injEq]
  exact ⟨Function.update_eq_self_iff.mpr hnone.symm, rfl⟩

end

/-! ### Runs -/

/-- A step, unless it is a `yield` outside of any routine. -/
theorem Flat.step {t : Thread F E} (h : Flat t) {e : ThreadEvent F E} {x : Execution F E}
    (hflat : BodiesDoNotResume (.defined t) e) (hstep : Execution.step (.defined t) e = some x) :
    (x = .undefined ∧ e = .yield ∧ t.running = none) ∨ Simulates t e x := by
  cases e with
  | create f =>
    cases hstep
    exact .inr (h.create f)
  | resume id switches =>
    obtain ⟨hout, rfl⟩ := Bool.and_eq_true_iff.mp hflat
    cases hstep
    exact .inr (h.resume id (Option.isNone_iff_eq_none.mp hout))
  | yield =>
    cases hstep
    cases hrun : t.running with
    | none => exact .inl ⟨by rw [Thread.yield, hrun], rfl, rfl⟩
    | some a => exact .inr (h.yield hrun)
  | finish =>
    obtain ⟨a, hrun, rfl⟩ := Option.map_eq_some_iff.mp hstep
    obtain ⟨t', hfinish, hlog, hslots, hflat'⟩ := h.finish hrun none
    exact .inr ⟨t', _, hfinish, hlog, hslots ▸ .finish hrun, hflat'⟩
  | throw ex =>
    obtain ⟨a, hrun, rfl⟩ := Option.map_eq_some_iff.mp hstep
    obtain ⟨t', hfinish, hlog, hslots, hflat'⟩ := h.finish hrun (some ex)
    exact .inr ⟨t', _, hfinish, hlog, hslots ▸ .throw hrun, hflat'⟩

theorem slots_start : Thread.slots ({} : Thread F E) = Slots.empty := by
  have hnone : ∀ id, ({} : Ordinator F E).routine? id = none := by
    intro id
    simp [Ordinator.routine?]
  rw [Thread.slots, Slots.empty, Slots.mk.injEq]
  refine ⟨?_, rfl⟩
  funext id
  rw [Function.comp_apply, hnone]
  rfl

/-- What is known of a thread after a run. -/
structure Meets (events : List (ThreadEvent F E)) (t : Thread F E) : Prop where
  length : t.log.length = events.length
  slots : Slots.Run .empty (events.zip t.log) t.slots
  flat : Flat t

theorem Meets.concat {events : List (ThreadEvent F E)} {t t' : Thread F E} {e : ThreadEvent F E}
    {o : Observation F E} (h : Meets events t) (hlog : t'.log = t.log ++ [o])
    (hstep : Slots.Step t.slots e o t'.slots) (hflat : Flat t') : Meets (events ++ [e]) t' where
  length := by rw [hlog, List.length_append, List.length_append, h.length]; rfl
  slots := by
    rw [hlog, List.zip_append h.length.symm]
    exact h.slots.concat hstep
  flat := hflat

/-- A run ends as it should, or with a `yield` outside of any routine. -/
theorem meets_run {events : List (ThreadEvent F E)} {x : Execution F E}
    (hflat : Along Execution.step (fun x e _ => BodiesDoNotResume x e) .start events)
    (hrun : run Execution.step .start events = some x) :
    (x = .undefined ∧ ∃ before t, events = before ++ [.yield] ∧
      run Execution.step .start before = some (.defined t) ∧ t.running = none) ∨
    ∃ t, x = .defined t ∧ Meets events t := by
  induction events using List.reverseRecOn generalizing x with
  | nil =>
    cases hrun
    exact .inr ⟨_, rfl, rfl, slots_start ▸ .nil, .start⟩
  | append_singleton events e ih =>
    obtain ⟨x', hrun', hstep⟩ := run_append_eq_some.mp hrun
    rw [run_singleton] at hstep
    obtain ⟨rfl, -⟩ | ⟨t, rfl, hmeets⟩ := ih (hflat.append_left fun _ _ _ _ h => h) hrun'
    · cases hstep
    · obtain ⟨rfl, rfl, hout⟩ | ⟨t', o, rfl, hlog, hslots, hflat'⟩ :=
        hmeets.flat.step (hflat.append_right hrun').1 hstep
      · exact .inl ⟨rfl, events, t, rfl, hrun', hout⟩
      · exact .inr ⟨t', rfl, hmeets.concat hlog hslots hflat'⟩

/-- **The log of a run is a run of the slots**, and outside of the routines the
ordinator has no current id and knows each finished routine once.  The behaviour is
undefined only behind a `yield` outside of any routine. -/
theorem flat_run {events : List (ThreadEvent F E)} {x : Execution F E}
    (hflat : Along Execution.step (fun x e _ => BodiesDoNotResume x e) .start events)
    (hrun : run Execution.step .start events = some x) :
    match x with
    | .undefined => ∃ before t, events = before ++ [.yield] ∧
        run Execution.step .start before = some (.defined t) ∧ t.running = none
    | .defined t =>
        t.log.length = events.length ∧
        Slots.Run .empty (events.zip t.log) t.slots ∧
        (t.running = none →
          t.ordinator.current = 0 ∧ t.ordinator.finished.Nodup ∧
          ∀ id, id ∈ t.ordinator.finished ↔
            ∃ r, t.ordinator.routine? id = some r ∧ r.finished = true) := by
  obtain ⟨rfl, hyield⟩ | ⟨t, rfl, hmeets⟩ := meets_run hflat hrun
  · exact hyield
  · exact ⟨hmeets.length, hmeets.slots,
      fun hout => ⟨hmeets.flat.outside hout, hmeets.flat.queued.nodup,
        hmeets.flat.queued.mem_finished⟩⟩

/-- Routine 1 yields and ends with an exception; its slot serves another function. -/
theorem flat_run_reuse :
    let events : List (ThreadEvent ℕ String) :=
      [.create (some 7), .resume 1 true, .yield, .resume 1 true, .throw "error", .create (some 8),
        .resume 1 true]
    let log : List (Observation ℕ String) :=
      [.created 1, .ran 1 7 0, .returned 1 true, .ran 1 7 1, .threw 1 "error", .created 1,
        .ran 1 8 0]
    ∃ t, run Execution.step .start events = some (.defined t) ∧ t.log = log ∧
      Slots.Run .empty (events.zip log) t.slots := by
  intro events log
  have hflat : Along Execution.step (fun x e _ => BodiesDoNotResume x e) .start events := by
    decide
  obtain ⟨t, hrun, hlog⟩ : ∃ t, run Execution.step .start events = some (.defined t) ∧
      t.log = log := ⟨_, rfl, rfl⟩
  have hmeets := flat_run hflat hrun
  exact ⟨t, hrun, hlog, hlog ▸ hmeets.2.1⟩

end Coroutine

end TpAdvanced
