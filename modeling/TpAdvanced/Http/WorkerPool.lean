import TpAdvanced.Http.WorkerInvariant

/-!
# A pool of workers

The workers of a server accept from one socket, each in a thread of its own, and share
the descriptor numbers of the process: a number that one of them has closed may at once
be given to a connection of another.  So a call of `close` has to find the connection it
is meant for.  The steps of the workers are taken in any order, and a call of `close` is
a step of its own.

## Main definitions

* `Pool`, `Pool.step` — workers over one table of descriptors.
* `Pool.ClosesOwn` — a call of `close` closes an open connection of the worker.
* `Pool.NoneExpired` — a timeout scan finds no handler to end.

## Main results

* `Worker.step_foreign` — a worker leaves the connections of the others alone.
* `Pool.closes_own` — **no worker closes what is not its own**, while no timeout scan
  finds a handler to end.
-/

namespace TpAdvanced

open Machine Coroutine

variable {ι : Type*} [DecidableEq ι]

/-- The workers of a server, and the open connections of the process. -/
structure Pool (ι : Type*) where
  workers : ι → Worker
  descriptors : Descriptors ι

namespace Pool

/-- No worker has accepted anything yet. -/
def start : Pool ι := ⟨fun _ => {}, fun _ => none⟩

/-- **A step of one of the workers.** -/
def step [StdHash] (cfg : WorkerConfig) (p : Pool ι) (e : ι × WorkerEvent) : Option (Pool ι) :=
  (Worker.step cfg e.1 (p.workers e.1, p.descriptors) e.2).map fun r =>
    ⟨Function.update p.workers e.1 r.1, r.2⟩

/-- A call of `close` closes an open connection that the worker has accepted. -/
def ClosesOwn (p : Pool ι) (e : ι × WorkerEvent) : Prop :=
  e.2 = .close → ∀ fd ∈ (p.workers e.1).closing.head?, ∃ s ∈ p.descriptors fd, s.owner = e.1

instance (p : Pool ι) (e : ι × WorkerEvent) : Decidable (p.ClosesOwn e) :=
  inferInstanceAs (Decidable (_ → _))

/-- A timeout scan finds no handler to end. -/
def NoneExpired (cfg : WorkerConfig) (p : Pool ι) (e : ι × WorkerEvent) : Prop :=
  match e.2 with
  | .scan now order =>
    ∀ fd ∈ order, (p.workers e.1).expired cfg.timeoutThreshold now fd = false
  | _ => True

instance (cfg : WorkerConfig) (p : Pool ι) (e : ι × WorkerEvent) :
    Decidable (p.NoneExpired cfg e) := by
  unfold NoneExpired
  split <;> infer_instance

end Pool

/-! ### One worker among others -/

namespace Worker

open Function (update)

variable {i j : ι} {cfg : WorkerConfig} {w : Worker} {d d' : Descriptors ι}
  {r r' : Worker × Descriptors ι} {e : WorkerEvent}

/-- What a worker has still to close: open connections of its own, each once. -/
structure Closing (i : ι) (w : Worker) (d : Descriptors ι) : Prop where
  nodup : w.closing.Nodup
  own : ∀ fd ∈ w.closing, ∃ s, d fd = some s ∧ s.owner = i

omit [DecidableEq ι] in
/-- A worker does not see the connections of the others. -/
theorem Inv.congr (h : Inv i w d) (hd : ∀ fd s, s.owner = i → (d' fd = some s ↔ d fd = some s)) :
    Inv i w d' where
  owns := by
    intro fd c hc
    obtain ⟨hfd, hmem, s, hs, howner⟩ := h.owns fd c hc
    exact ⟨hfd, hmem, s, (hd fd s howner).mpr hs, howner⟩
  fresh := fun fd s hs howner => h.fresh fd s ((hd fd s howner).mp hs) howner
  live := h.live
  agrees := by
    intro hserving fd c s hc hs
    obtain ⟨-, -, s', hs', howner⟩ := h.owns fd c hc
    have hs'' := (hd fd s' howner).mpr hs'
    cases hs.symm.trans hs''
    exact h.agrees hserving fd c s hc hs'

omit [DecidableEq ι] in
theorem Closing.congr (h : Closing i w d)
    (hd : ∀ fd s, s.owner = i → (d' fd = some s ↔ d fd = some s)) : Closing i w d' where
  nodup := h.nodup
  own := by
    intro fd hfd
    obtain ⟨s, hs, howner⟩ := h.own fd hfd
    exact ⟨s, (hd fd s howner).mpr hs, howner⟩

omit [DecidableEq ι] in
theorem Closing.of_nil (hclosing : w.closing = []) : Closing i w d where
  nodup := by
    rw [hclosing]
    exact List.nodup_nil
  own := by
    intro fd hfd
    rw [hclosing] at hfd
    cases hfd

variable [StdHash]

/-- **A worker leaves the connections of the others alone**, if it closes its own. -/
theorem step_foreign (h : Closing j r.1 r.2) (hstep : Worker.step cfg j r e = some r') {fd : ℕ}
    {s : ClientSocket ι} (hs : s.owner ≠ j) : r'.2 fd = some s ↔ r.2 fd = some s := by
  -- a descriptor is free or the worker's own, before and behind the step
  have hupdate : ∀ (fd' : ℕ) (v : Option (ClientSocket ι)), (∀ s ∈ r.2 fd', s.owner = j) →
      (∀ s ∈ v, s.owner = j) → (update r.2 fd' v fd = some s ↔ r.2 fd = some s) := by
    intro fd' v hbefore hbehind
    by_cases hfd : fd = fd'
    · rw [hfd, Function.update_self]
      refine iff_of_false (fun hv => ?_) (fun hd => ?_)
      · exact hs (hbehind s hv)
      · exact hs (hbefore s hd)
    · rw [Function.update_of_ne hfd]
  cases effect_of_step hstep with
  | @accepted fd' _ _ _ _ hfree =>
    apply hupdate fd'
    · intro s hs
      cases hfree.symm.trans hs
    · rintro s ⟨⟩
      rfl
  | @ready fd' _ _ _ _ _ _ hreg _ =>
    obtain ⟨s', hs', howner, -⟩ := hreg
    apply hupdate fd'
    · intro s hs
      cases hs'.symm.trans hs
      exact howner
    · intro s hs
      obtain ⟨s₀, hs₀, rfl⟩ := Option.map_eq_some_iff.mp hs
      cases hs'.symm.trans hs₀
      exact howner
  | scan => exact Iff.rfl
  | stop => exact Iff.rfl
  | destroy => exact Iff.rfl
  | @close fd' rest hclosing =>
    obtain ⟨s', hs', howner⟩ := h.own fd' (by
      rw [hclosing]
      exact List.mem_cons_self)
    apply hupdate fd'
    · intro s hs
      cases hs'.symm.trans hs
      exact howner
    · rintro s ⟨⟩

/-- **What is still to be closed stays the worker's own**, if no handler is ended by a
timeout scan. -/
theorem Closing.step (h : Closing i r.1 r.2) (hinv : Inv i r.1 r.2)
    (hcond : ∀ now order, e = .scan now order →
      ∀ fd ∈ order, r.1.expired cfg.timeoutThreshold now fd = false)
    (hstep : Worker.step cfg i r e = some r') : Closing i r'.1 r'.2 := by
  cases effect_of_step hstep with
  | accepted _ hclosing => exact .of_nil hclosing
  | @ready fd script modified w interests hserving hclosing hreg hres =>
    obtain ⟨s, hs, howner, -⟩ := hreg
    obtain ⟨t, hlive⟩ := hinv.live hserving
    obtain ⟨-, hone⟩ | ⟨c, -, hsame, -⟩ := (handleClient_handles hlive hres).outcome
    · -- the handler is gone: its descriptor is the only one to be closed
      rw [hclosing, List.nil_append] at hone
      refine ⟨?_, ?_⟩
      · show w.closing.Nodup
        rw [hone]
        exact List.nodup_singleton fd
      · intro fd' hmem
        change fd' ∈ w.closing at hmem
        rw [hone, List.mem_singleton] at hmem
        refine ⟨s.update interests script, ?_, howner⟩
        show update r.2 fd ((r.2 fd).map fun s => s.update interests script) fd' = _
        rw [hmem, Function.update_self, hs, Option.map_some]
    · exact .of_nil (hsame.trans hclosing)
  | @scan now order w hserving hclosing horder hres =>
    obtain ⟨t, hlive⟩ := hinv.live hserving
    obtain ⟨-, -, hclosing', -⟩ := scheduleTimeoutHandler_spec order hlive horder.1 hres
    have hnone : order.filter (r.1.expired cfg.timeoutThreshold now) = [] := by
      rw [List.filter_eq_nil_iff]
      intro fd hmem
      rw [hcond now order rfl fd hmem]
      exact Bool.false_ne_true
    apply Closing.of_nil
    rw [hnone, List.flatMap_nil, List.append_nil] at hclosing'
    exact hclosing'.trans hclosing
  | @stop order w hserving hclosing horder hres =>
    obtain ⟨t, hlive⟩ := hinv.live hserving
    have hsame := (shutdown_spec order (hlive.mono fun _ _ => trivial) horder.1 hres).1
    exact .of_nil (hsame.trans hclosing)
  | @destroy order _ hclosing horder =>
    -- each handler puts its own descriptor on the list, once
    have horder' := (hinv.destroy hclosing horder).1
    refine ⟨?_, ?_⟩
    · show (r.1.destroy order).closing.Nodup
      rw [horder']
      exact horder.1
    · intro fd hmem
      change fd ∈ (r.1.destroy order).closing at hmem
      rw [horder'] at hmem
      obtain ⟨c, hc⟩ := horder.mem_iff.mp hmem
      exact (hinv.owns fd c hc).2.2
  | @close fd rest hclosing =>
    have hnodup := h.nodup
    rw [hclosing, List.nodup_cons] at hnodup
    refine ⟨hnodup.2, ?_⟩
    intro fd' hmem
    obtain ⟨s, hs, howner⟩ := h.own fd' (by
      rw [hclosing]
      exact List.mem_cons_of_mem fd hmem)
    refine ⟨s, ?_, howner⟩
    show update r.2 fd none fd' = some s
    rw [Function.update_of_ne]
    · exact hs
    · rintro rfl
      exact hnodup.1 hmem

end Worker

/-! ### All of them -/

namespace Pool

/-- **The invariant** of a pool: that of each worker, over the common table. -/
structure Inv (p : Pool ι) : Prop where
  worker : ∀ i, Worker.Inv i (p.workers i) p.descriptors
  closing : ∀ i, Worker.Closing i (p.workers i) p.descriptors

omit [DecidableEq ι] in
theorem Inv.start : Inv (start : Pool ι) where
  worker := fun i => .start i
  closing := fun _ => .of_nil rfl

variable [StdHash] {cfg : WorkerConfig} {p p' : Pool ι}

theorem Inv.step {e : ι × WorkerEvent} (h : Inv p) (hcond : NoneExpired cfg p e)
    (hstep : Pool.step cfg p e = some p') : Inv p' := by
  obtain ⟨j, e⟩ := e
  obtain ⟨r, hr, rfl⟩ := Option.map_eq_some_iff.mp hstep
  have hcond' : ∀ now order, e = .scan now order →
      ∀ fd ∈ order, (p.workers j).expired cfg.timeoutThreshold now fd = false := by
    rintro now order rfl
    exact hcond
  have hforeign : ∀ i, i ≠ j → ∀ fd s, s.owner = i →
      (r.2 fd = some s ↔ p.descriptors fd = some s) := by
    rintro i hne fd s rfl
    exact Worker.step_foreign (h.closing j) hr hne
  constructor
  · intro i
    change Worker.Inv i (Function.update p.workers j r.1 i) r.2
    by_cases hi : i = j
    · subst hi
      rw [Function.update_self]
      exact (h.worker i).step hr
    · rw [Function.update_of_ne hi]
      exact (h.worker i).congr (hforeign i hi)
  · intro i
    change Worker.Closing i (Function.update p.workers j r.1 i) r.2
    by_cases hi : i = j
    · subst hi
      rw [Function.update_self]
      exact (h.closing i).step (h.worker i) hcond' hr
    · rw [Function.update_of_ne hi]
      exact (h.closing i).congr (hforeign i hi)

omit [DecidableEq ι] [StdHash] in
theorem Inv.closesOwn (h : Inv p) (e : ι × WorkerEvent) : p.ClosesOwn e := by
  intro _ fd hfd
  exact (h.closing e.1).own fd (List.mem_of_mem_head? hfd)

/-- **Every call of `close` closes an open connection of the worker that makes it**, in
any interleaving of the workers, while no timeout scan finds a handler to end. -/
theorem closes_own {es : List (ι × WorkerEvent)}
    (hcond : Along (Pool.step cfg) (fun p e _ => p.NoneExpired cfg e) start es) :
    Along (Pool.step cfg) (fun p e _ => p.ClosesOwn e) start es := by
  suffices h : ∀ (es : List (ι × WorkerEvent)) (p : Pool ι), Inv p →
      Along (Pool.step cfg) (fun p e _ => p.NoneExpired cfg e) p es →
      Along (Pool.step cfg) (fun p e _ => p.ClosesOwn e) p es from h es start .start hcond
  intro es
  induction es with
  | nil => exact fun _ _ _ => trivial
  | cons e es ih =>
    intro p h hcond
    refine ⟨h.closesOwn e, fun p' hp' => ?_⟩
    exact ih p' (h.step hcond.1 hp') (hcond.2 p' hp')

omit [StdHash] in
/-- A number that is closed by one worker and taken by another. -/
theorem closes_own_reuse : letI := polynomialHash
    let es : List (Bool × WorkerEvent) := [(true, .accepted 5 true 0),
      (true, .ready 5 [.readFailed] true), (true, .close), (false, .accepted 5 true 1),
      (true, .scan 90 []), (false, .ready 5 [.readEof] true), (false, .close)]
    (run (Pool.step ⟨3, 100⟩) start es).isSome = true ∧
      Along (Pool.step ⟨3, 100⟩) (fun p e _ => p.ClosesOwn e) start es := by
  let _ := polynomialHash
  exact ⟨by decide +kernel, closes_own (by decide +kernel)⟩

omit [StdHash] in
/-- A timeout scan and the destructor both close descriptor 5, and in between it is given
to a connection of the other worker. -/
theorem closes_foreign :
    ¬ ∀ (_ : StdHash) (cfg : WorkerConfig) (es : List (Bool × WorkerEvent)),
      Along (Pool.step cfg) (fun p e _ => p.ClosesOwn e) start es := by
  intro hall
  have hfalse : letI := polynomialHash
      ¬ Along (Pool.step ⟨3, 100⟩) (fun p e _ => p.ClosesOwn e) start
        [(true, .accepted 5 true 0), (true, .ready 5 [.readAgain 0] true), (true, .scan 100 [5]),
          (true, .close), (false, .accepted 5 true 101), (true, .close)] := by
    decide +kernel
  exact hfalse (hall polynomialHash _ _)

end Pool

end TpAdvanced
