import TpAdvanced.Http.WorkerSteps

/-!
# The invariant of a worker

Handlers, routines and descriptors of a worker fit together: each handler has its own
descriptor and its own routine, the routine is suspended, and what epoll has registered
for the descriptor is what the handler waits for.  Nothing that happens to one
descriptor is seen by the handlers of the others.

## Main definitions

* `Worker.Inv` — handlers, routines and descriptors together.
* `Worker.Consistent` — what holds for one entry of `coroutines`.
* `WorkerEvent.Concerns` — the descriptors that an event is about.

## Main results

* `Worker.Inv.step` — what every step keeps.
* `Worker.consistent_run` — **every entry is consistent, and a step on one descriptor
  changes no other entry.**
-/

namespace TpAdvanced

open Machine Coroutine

namespace Worker

open Function (update)

variable [StdHash] {w w' : Worker} {t : Thread ℕ Thrown} {fd : ℕ} {c : HandlerEntry}
  {script : List HandlerEvent} {threshold now : ℤ} {order : List ℕ}

/-! ### The invariant -/

variable {ι : Type*} {i : ι} {d : Descriptors ι}

omit [StdHash] in
/-- **The invariant**, at every step of a worker: a handler has an open descriptor of
its own, and epoll is told to wait for what it waits for. -/
structure Inv (i : ι) (w : Worker) (d : Descriptors ι) : Prop where
  owns : ∀ fd c, w.handler? fd = some c →
    c.fd = some fd ∧ fd ∉ w.closing ∧ ∃ s, d fd = some s ∧ s.owner = i
  /-- A descriptor without a handler is registered as `registerClients` does. -/
  fresh : ∀ fd s, d fd = some s → s.owner = i → w.handler? fd = none → fd ∉ w.closing →
    s.interests = none ∨ s.interests = some (.ofList [.in_])
  live : w.phase = .serving → ∃ t, LiveOn w t fun _ => True
  agrees : w.phase = .serving → ∀ fd c s, w.handler? fd = some c → d fd = some s →
    s.interests = some c.eventsSet ∧ s.activity = c.lastActivity

omit [StdHash] in
theorem Iterates.mem_iff (h : w.Iterates order) : fd ∈ order ↔ ∃ c, w.handler? fd = some c := by
  rw [← List.mem_toFinset, h.2, Finmap.mem_keys, Finmap.mem_iff]
  rfl

omit [StdHash] in
theorem Inv.start (i : ι) : Inv i {} fun _ => none where
  owns := by
    intro fd c hc
    cases hc
  fresh := by
    intro fd s hs
    cases hs
  live := by
    intro _
    refine ⟨{}, rfl, .start, rfl, ?_, ?_⟩
    · intro fd c _ hc
      cases hc
    · intro fd fd' c c' _ _ hc
      cases hc
  agrees := by
    intro _ fd c s hc
    cases hc

/-- An event of a client keeps the invariant. -/
theorem Inv.ready [DecidableEq ι] {modified : Bool} {interests : Option EventsSet} (h : Inv i w d)
    (hserving : w.phase = .serving) (hclosing : w.closing = []) (hreg : Registered d i fd)
    (hres : w.handleClient fd script modified = some (w', interests)) :
    Inv i w' (update d fd ((d fd).map fun s => s.update interests script)) := by
  obtain ⟨t, hlive⟩ := h.live hserving
  obtain ⟨s, hs, howner, hsome⟩ := hreg
  have hhandles := handleClient_handles hlive hres
  -- what epoll had registered is what the handler waited for
  have hbefore : s.interests =
      some ((w.handler? fd).elim (.ofList [.in_]) HandlerEntry.eventsSet) := by
    cases hc : w.handler? fd with
    | some c => exact (h.agrees hserving fd c s hc hs).1
    | none =>
      obtain hnone | hin := h.fresh fd s hs howner hc (by rw [hclosing]; exact List.not_mem_nil)
      · rw [hnone] at hsome
        cases hsome
      · exact hin
  have hother : ∀ fd' c', fd' ≠ fd → w'.handler? fd' = some c' → w.handler? fd' = some c' ∧
      update d fd ((d fd).map fun s => s.update interests script) fd' = d fd' := by
    intro fd' c' hne hc'
    rw [hhandles.others fd' hne] at hc'
    exact ⟨hc', Function.update_of_ne hne _ _⟩
  have hself : update d fd ((d fd).map fun s => s.update interests script) fd =
      some (s.update interests script) := by
    rw [Function.update_self, hs]
    rfl
  obtain ⟨t', hlive'⟩ := hhandles.live
  refine ⟨?_, ?_, fun _ => ⟨t', hlive'⟩, ?_⟩
  · intro fd' c' hc'
    by_cases hfd : fd' = fd
    · subst hfd
      obtain ⟨n, hwaits⟩ := (hlive'.parked fd' c' trivial hc').waits
      obtain ⟨hgone, -⟩ | ⟨c'', -, hclosing', -⟩ := hhandles.outcome
      · cases hgone.symm.trans hc'
      · refine ⟨hwaits.fd_eq, ?_, _, hself, howner⟩
        rw [hclosing', hclosing]
        exact List.not_mem_nil
    · obtain ⟨hc, hd⟩ := hother fd' c' hfd hc'
      obtain ⟨hcfd, -, hsocket⟩ := h.owns fd' c' hc
      refine ⟨hcfd, ?_, by rw [hd]; exact hsocket⟩
      obtain ⟨-, hclosing'⟩ | ⟨c'', -, hclosing', -⟩ := hhandles.outcome
      · rw [hclosing', hclosing]
        simpa using hfd
      · rw [hclosing', hclosing]
        exact List.not_mem_nil
  · intro fd' s' hs' howner' hnone hmem
    by_cases hfd : fd' = fd
    · subst hfd
      obtain ⟨-, hclosing'⟩ | ⟨c'', hc'', -⟩ := hhandles.outcome
      · refine absurd ?_ hmem
        rw [hclosing']
        exact List.mem_append_right _ List.mem_cons_self
      · cases hnone.symm.trans hc''
    · rw [Function.update_of_ne hfd] at hs'
      rw [hhandles.others fd' hfd] at hnone
      exact h.fresh fd' s' hs' howner' hnone (by rw [hclosing]; exact List.not_mem_nil)
  · intro _ fd' c' s' hc' hs'
    by_cases hfd : fd' = fd
    · subst hfd
      rw [hself] at hs'
      cases hs'
      obtain ⟨hgone, -⟩ | ⟨c'', hc'', -, hactivity, hinterests⟩ := hhandles.outcome
      · cases hgone.symm.trans hc'
      · cases hc''.symm.trans hc'
        constructor
        · change interests.or s.interests = _
          rw [hbefore, ← hinterests]
          cases interests <;> rfl
        · change (script.getLast?.bind HandlerEvent.attemptTime).getD _ = _
          rw [hactivity]
          rfl
    · obtain ⟨hc, hd⟩ := hother fd' c' hfd hc'
      rw [hd] at hs'
      exact h.agrees hserving fd' c' s' hc hs'

/-- The timeout scan keeps the invariant. -/
theorem Inv.scan (h : Inv i w d) (hserving : w.phase = .serving) (hclosing : w.closing = [])
    (horder : w.Iterates order)
    (hres : w.scheduleTimeoutHandler threshold now order = some w') : Inv i w' d := by
  obtain ⟨t, hlive⟩ := h.live hserving
  obtain ⟨hlive', hentries, hclosing', -⟩ := scheduleTimeoutHandler_spec order hlive horder.1 hres
  rw [hclosing, List.nil_append] at hclosing'
  have hkept : ∀ fd c, w'.handler? fd = some c → w.handler? fd = some c ∧ fd ∉ w'.closing := by
    intro fd c hc
    rw [hentries fd] at hc
    split at hc
    · cases hc
    · next hspared =>
      refine ⟨hc, ?_⟩
      rw [hclosing', List.mem_flatMap]
      rintro ⟨fd', hmem, hfd⟩
      have hfd' : fd = fd' := by simpa using hfd
      subst hfd'
      rw [List.mem_filter] at hmem
      exact hspared hmem
  refine ⟨?_, ?_, fun _ => hlive', ?_⟩
  · intro fd c hc
    obtain ⟨hc', hmem⟩ := hkept fd c hc
    obtain ⟨hfd, -, hsocket⟩ := h.owns fd c hc'
    exact ⟨hfd, hmem, hsocket⟩
  · intro fd s hs howner hnone hmem
    refine h.fresh fd s hs howner ?_ (by rw [hclosing]; exact List.not_mem_nil)
    rw [hentries fd] at hnone
    split at hnone
    · next hexpired =>
      refine absurd ?_ hmem
      rw [hclosing', List.mem_flatMap]
      exact ⟨fd, List.mem_filter.mpr hexpired, List.mem_cons_self⟩
    · exact hnone
  · intro _ fd c s hc hs
    exact h.agrees hserving fd c s (hkept fd c hc).1 hs

omit [StdHash] in
/-- The time of the last scan is no matter of the invariant. -/
theorem Inv.withScanned (h : Inv i w d) (scanned : Option ℤ) :
    Inv i { w with scanned := scanned } d where
  owns := h.owns
  fresh := h.fresh
  live := by
    intro hserving
    obtain ⟨t, hlive⟩ := h.live hserving
    exact ⟨t, hlive.execution, hlive.flat, hlive.outside, hlive.parked, hlive.distinct⟩
  agrees := h.agrees

omit [StdHash] in
/-- A connection is accepted, on a free descriptor. -/
theorem Inv.accept {s : ClientSocket ι} (h : Inv i w d) (hfree : d fd = none)
    (hs : s.interests = none ∨ s.interests = some (.ofList [.in_])) :
    Inv i w (update d fd (some s)) := by
  -- a free descriptor has no handler
  have hne : ∀ fd' c, w.handler? fd' = some c → fd' ≠ fd := by
    rintro fd' c hc rfl
    obtain ⟨-, -, s, hs, -⟩ := h.owns fd' c hc
    cases hfree.symm.trans hs
  refine ⟨?_, ?_, h.live, ?_⟩
  · intro fd' c hc
    obtain ⟨hcfd, hmem, hsocket⟩ := h.owns fd' c hc
    refine ⟨hcfd, hmem, ?_⟩
    rw [Function.update_of_ne (hne fd' c hc)]
    exact hsocket
  · intro fd' s' hs' howner hnone hmem
    rw [Function.update_apply] at hs'
    split at hs'
    · cases hs'
      exact hs
    · exact h.fresh fd' s' hs' howner hnone hmem
  · intro hserving fd' c s' hc hs'
    rw [Function.update_of_ne (hne fd' c hc)] at hs'
    exact h.agrees hserving fd' c s' hc hs'

/-- The loop behind the event loop keeps what is left of the invariant. -/
theorem Inv.stop (h : Inv i w d) (hserving : w.phase = .serving) (horder : w.Iterates order)
    (hres : shutdown order w = some w') :
    Inv i { w' with phase := .stopped, scanned := none } d := by
  obtain ⟨t, hlive⟩ := h.live hserving
  obtain ⟨hclosing, hfds⟩ := shutdown_spec order (hlive.mono fun _ _ => trivial) horder.1 hres
  refine ⟨?_, ?_, nofun, nofun⟩
  · intro fd c hc
    have hfd := hfds fd
    change w'.handler? fd = some c at hc
    rw [hc, Option.map_some, eq_comm, Option.map_eq_some_iff] at hfd
    obtain ⟨c₀, hc₀, hcfd⟩ := hfd
    obtain ⟨hc₀fd, hmem, hsocket⟩ := h.owns fd c₀ hc₀
    refine ⟨hcfd.symm.trans hc₀fd, ?_, hsocket⟩
    change fd ∉ w'.closing
    rw [hclosing]
    exact hmem
  · intro fd s hs howner hnone hmem
    have hfd := hfds fd
    change w'.handler? fd = none at hnone
    change fd ∉ w'.closing at hmem
    rw [hnone, Option.map_none, eq_comm, Option.map_eq_none_iff] at hfd
    rw [hclosing] at hmem
    exact h.fresh fd s hs howner hfd hmem

omit [StdHash] in
/-- The destructor leaves no handler. -/
theorem Inv.destroy (h : Inv i w d) (hclosing : w.closing = []) (horder : w.Iterates order) :
    (w.destroy order).closing = order ∧ (∀ fd, (w.destroy order).handler? fd = none) ∧
      Inv i { w.destroy order with phase := .destroyed } d := by
  obtain ⟨hclosing', hentry⟩ := destroy_spec order horder.1 (by
    intro fd hmem
    obtain ⟨c, hc⟩ := horder.mem_iff.mp hmem
    exact ⟨c, hc, (h.owns fd c hc).1⟩)
  rw [hclosing, List.nil_append] at hclosing'
  have hnone : ∀ fd, fd ∉ order → w.handler? fd = none := by
    intro fd hmem
    rw [Option.eq_none_iff_forall_ne_some]
    intro c hc
    exact hmem (horder.mem_iff.mpr ⟨c, hc⟩)
  have hgone : ∀ fd, (w.destroy order).handler? fd = none := by
    intro fd
    rw [hentry fd]
    split
    · rfl
    · exact hnone fd ‹_›
  refine ⟨hclosing', hgone, ?_, ?_, nofun, nofun⟩
  · intro fd c hc
    cases (hgone fd).symm.trans hc
  · intro fd s hs howner _ hmem
    change fd ∉ (w.destroy order).closing at hmem
    rw [hclosing'] at hmem
    exact h.fresh fd s hs howner (hnone fd hmem) (by rw [hclosing]; exact List.not_mem_nil)

omit [StdHash] in
/-- A call of `close` is not on the descriptor of a handler. -/
theorem Inv.close {rest : List ℕ} (h : Inv i w d) (hclosing : w.closing = fd :: rest) :
    Inv i { w with closing := rest } (update d fd none) := by
  have hne : ∀ fd' c, w.handler? fd' = some c → fd' ≠ fd ∧ fd' ∉ rest := by
    intro fd' c hc
    have hmem := (h.owns fd' c hc).2.1
    rwa [hclosing, List.mem_cons, not_or] at hmem
  refine ⟨?_, ?_, fun hserving => ?_, ?_⟩
  · intro fd' c hc
    obtain ⟨hcfd, -, hsocket⟩ := h.owns fd' c hc
    obtain ⟨hfd, hmem⟩ := hne fd' c hc
    refine ⟨hcfd, hmem, ?_⟩
    rw [Function.update_of_ne hfd]
    exact hsocket
  · intro fd' s hs howner hnone hmem
    rw [Function.update_apply] at hs
    split at hs
    · cases hs
    · next hfd =>
      refine h.fresh fd' s hs howner hnone ?_
      rw [hclosing, List.mem_cons, not_or]
      exact ⟨hfd, hmem⟩
  · obtain ⟨t, hlive⟩ := h.live hserving
    exact ⟨t, hlive.execution, hlive.flat, hlive.outside, hlive.parked, hlive.distinct⟩
  · intro hserving fd' c s hc hs
    rw [Function.update_of_ne (hne fd' c hc).1] at hs
    exact h.agrees hserving fd' c s hc hs

/-- **What every step keeps.** -/
theorem Inv.step [DecidableEq ι] {cfg : WorkerConfig} {r r' : Worker × Descriptors ι}
    {e : WorkerEvent} (h : Inv i r.1 r.2) (hstep : Worker.step cfg i r e = some r') :
    Inv i r'.1 r'.2 := by
  cases effect_of_step hstep with
  | @accepted fd added now _ _ hfree =>
    refine (h.accept hfree ?_).withScanned none
    cases added
    · exact .inl rfl
    · exact .inr rfl
  | ready hserving hclosing hreg hres =>
    exact (h.ready hserving hclosing hreg hres).withScanned none
  | scan hserving hclosing horder hres =>
    exact (h.scan hserving hclosing horder hres).withScanned _
  | stop hserving _ horder hres => exact h.stop hserving horder hres
  | destroy _ hclosing horder => exact (h.destroy hclosing horder).2.2
  | close hclosing => exact h.close hclosing

theorem inv_run [DecidableEq ι] {cfg : WorkerConfig} {es : List WorkerEvent}
    {r : Worker × Descriptors ι}
    (hrun : run (Worker.step cfg i) ({}, fun _ => none) es = some r) : Inv i r.1 r.2 :=
  invariant_run (fun r : Worker × Descriptors ι => Inv i r.1 r.2)
    (fun _ _ _ h hstep => h.step hstep) (Inv.start i) hrun

/-! ### Every entry -/

omit [StdHash] in
/-- What holds for an entry of `coroutines`, in the thread `t` and with the sockets `d`. -/
structure Consistent (t : Thread ℕ Thrown) (d : Descriptors ι) (fd : ℕ) (c : HandlerEntry) :
    Prop where
  fd_eq : c.fd = some fd
  timeout : c.isTimeout = false
  /-- The routine is unfinished and suspended, and is the handler's own. -/
  routine : ∃ id r a, c.routineId = some id ∧ t.ordinator.routine? id = some r ∧
    r.finished = false ∧ r.ctx = .suspended a ∧ r.func = some fd
  /-- What epoll has registered is the handler's set, and its last activity is the time
  of its latest suspension. -/
  socket : ∃ s, d fd = some s ∧ s.interests = some c.eventsSet ∧ c.lastActivity = s.activity
  /-- It waits to read in `readRequest` and to write in `writeResponse`. -/
  mask : (∃ parser readIdx, c.state.frame = .readYield parser readIdx ∧
      c.eventsSet = .ofList [.in_]) ∨
    ∃ reply written, c.state.frame = .writeYield reply written ∧ c.eventsSet = .ofList [.out]

omit [StdHash] in
/-- A slot that has been run before is that of a suspended routine. -/
theorem routine_of_waiting {id n : ℕ} {f : Option ℕ} (h : t.slots.waiting id = some (f, n + 1)) :
    ∃ r a, t.ordinator.routine? id = some r ∧ r.finished = false ∧ r.ctx = .suspended a ∧
      r.func = f := by
  obtain ⟨r, hr, hslot⟩ := Option.bind_eq_some_iff.mp h
  rw [Routine.slot] at hslot
  split at hslot
  · cases hslot
  · next hunfinished =>
    cases hctx : r.ctx with
    | entry => simp [hctx] at hslot
    | suspended a =>
      rw [hctx] at hslot
      exact ⟨r, a, hr, Bool.eq_false_iff.mpr hunfinished, hctx,
        congrArg Prod.fst (Option.some.inj hslot)⟩
    | loaded =>
      rw [hctx] at hslot
      cases hslot

omit [StdHash] in
theorem Inv.consistent (h : Inv i w d) (hserving : w.phase = .serving)
    (hlive : LiveOn w t fun _ => True) (hc : w.handler? fd = some c) : Consistent t d fd c := by
  obtain ⟨⟨n, hfd, hmasked, id, hid, hwaiting⟩, hsuspended, htimeout⟩ :=
    hlive.parked fd c trivial hc
  obtain ⟨-, -, s, hs, -⟩ := h.owns fd c hc
  obtain ⟨hinterests, hactivity⟩ := h.agrees hserving fd c s hc hs
  obtain ⟨r, a, hr, hunfinished, hctx, hfunc⟩ := routine_of_waiting hwaiting
  refine ⟨hfd, htimeout, ⟨id, r, a, hid, hr, hunfinished, hctx, hfunc⟩,
    ⟨s, hs, hinterests, hactivity.symm⟩, ?_⟩
  obtain ⟨cfd, cid, ch, f⟩ := c
  cases f with
  | readYield parser readIdx => exact .inl ⟨parser, readIdx, rfl, hmasked⟩
  | writeYield reply written => exact .inr ⟨reply, written, rfl, hmasked⟩
  | _ => cases hsuspended

omit [StdHash] in
/-- The descriptors that an event is about. -/
def Concerns (cfg : WorkerConfig) (w : Worker) : WorkerEvent → ℕ → Prop
  | .accepted fd _ _ => fun fd' => fd' = fd
  | .ready fd _ _ => fun fd' => fd' = fd
  | .scan now _ => fun fd' => w.expired cfg.timeoutThreshold now fd' = true
  | .stop _ => fun _ => True
  | .destroy _ => fun _ => True
  | .close => fun fd' => w.closing.head? = some fd'

/-- **A step leaves alone what it is not about.** -/
theorem step_others [DecidableEq ι] {cfg : WorkerConfig} {r r' : Worker × Descriptors ι}
    {e : WorkerEvent} (h : Inv i r.1 r.2) (hstep : Worker.step cfg i r e = some r') {fd : ℕ}
    (hfd : ¬ Concerns cfg r.1 e fd) : r'.1.handler? fd = r.1.handler? fd ∧ r'.2 fd = r.2 fd := by
  cases effect_of_step hstep with
  | accepted => exact ⟨rfl, Function.update_of_ne hfd _ _⟩
  | ready hserving _ _ hres =>
    obtain ⟨t, hlive⟩ := h.live hserving
    exact ⟨(handleClient_handles hlive hres).others fd hfd, Function.update_of_ne hfd _ _⟩
  | @scan now order w hserving _ horder hres =>
    obtain ⟨t, hlive⟩ := h.live hserving
    obtain ⟨-, hentries, -⟩ := scheduleTimeoutHandler_spec order hlive horder.1 hres
    refine ⟨(hentries fd).trans (if_neg fun hexpired => ?_), rfl⟩
    exact hfd hexpired.2
  | stop => exact absurd trivial hfd
  | destroy => exact absurd trivial hfd
  | @close fd' rest hclosing =>
    refine ⟨rfl, Function.update_of_ne ?_ _ _⟩
    rintro rfl
    exact hfd (congrArg List.head? hclosing)

/-- **Every entry of a serving worker is consistent**, the entries have routines of their
own, and a step on one descriptor, even one whose handler throws, changes no other
entry.  This holds whatever the system calls and the callback answer, and whether or not
`epoll_ctl` changes the interests. -/
theorem consistent_run [DecidableEq ι] {cfg : WorkerConfig} {es : List WorkerEvent}
    {r : Worker × Descriptors ι}
    (hrun : run (Worker.step cfg i) ({}, fun _ => none) es = some r)
    (hserving : r.1.phase = .serving) :
    (∃ t, r.1.execution = .defined t ∧ t.running = none ∧
      ∀ fd c, r.1.handler? fd = some c → Consistent t r.2 fd c) ∧
    (∀ fd fd' c c', r.1.handler? fd = some c → r.1.handler? fd' = some c' →
      c.routineId = c'.routineId → fd = fd') ∧
    ∀ e r', Worker.step cfg i r e = some r' → ∀ fd, ¬ Concerns cfg r.1 e fd →
      r'.1.handler? fd = r.1.handler? fd ∧ r'.2 fd = r.2 fd := by
  have hinv := inv_run hrun
  obtain ⟨t, hlive⟩ := hinv.live hserving
  refine ⟨⟨t, hlive.execution, hlive.outside, ?_⟩, ?_, ?_⟩
  · intro fd c hc
    exact hinv.consistent hserving hlive hc
  · intro fd fd' c c' hc hc'
    exact hlive.distinct fd fd' c c' trivial trivial hc hc'
  · intro e r' hstep fd hfd
    exact step_others hinv hstep hfd

omit [StdHash] in
/-- Two clients, one of which is suspended while it reads; the handler of the other has
thrown. -/
theorem consistent_run_two : letI := polynomialHash
    ∃ r t c, run (Worker.step ⟨3, 100⟩ ()) ({}, fun _ => none)
      [.accepted 5 true 0, .accepted 6 true 0, .ready 5 [.readAgain 7] true,
        .ready 6 [.readFailed] true, .close] = some r ∧
      r.1.handler? 5 = some c ∧ r.1.handler? 6 = none ∧ Consistent t r.2 5 c := by
  let _ := polynomialHash
  have hsome : (run (Worker.step ⟨3, 100⟩ ()) ({}, fun _ => none)
      [.accepted 5 true 0, .accepted 6 true 0, .ready 5 [.readAgain 7] true,
        .ready 6 [.readFailed] true, .close]).any
      (fun r => decide (r.1.phase = .serving) && (r.1.handler? 5).isSome &&
        (r.1.handler? 6).isNone) = true := by
    decide +kernel
  obtain ⟨r, hrun, hr⟩ := (Option.any_eq_true _ _).mp hsome
  simp only [Bool.and_eq_true, decide_eq_true_eq, Option.isNone_iff_eq_none] at hr
  obtain ⟨⟨hserving, hfive⟩, hsix⟩ := hr
  obtain ⟨c, hc⟩ := Option.isSome_iff_exists.mp hfive
  obtain ⟨t, -, -, hconsistent⟩ := (consistent_run hrun hserving).1
  exact ⟨r, t, c, hrun, hc, hsix, hconsistent 5 c hc⟩

end Worker

end TpAdvanced
