import TpAdvanced.Http.WorkerInvariant

/-!
# The end of the event loop

Behind the event loop every handler is told that it has timed out and is resumed once
more.  A handler that waits in `readRequest`, or in `writeResponse` for a response of the
callback, leaves by the `catch` clause for the timeout.  One that waits in the
`writeResponse` of a rejection is in a `catch` clause already: its timeout leaves the
routine, and the loop over the handlers with it.

## Main definitions

* `Frame.rejecting` — suspended in the `writeResponse` of a rejection.
* `Worker.Ended` — told that it has timed out, and at its end.

## Main results

* `runOn_timeout` — how a handler that has timed out gives control back.
* `Worker.shutdown_ends_iff` — **when every handler is ended.**
-/

namespace TpAdvanced

open CText Machine Coroutine

/-- Suspended in the `writeResponse` of a rejection. -/
def Frame.rejecting : Frame → Bool
  | .writeYield .rejection _ => true
  | _ => false

/-- **A handler that has timed out** ends when it is resumed, with an exception if it was
about to reject a request. -/
theorem runOn_timeout [StdHash] {s : HandlerState} (hs : s.frame.suspended = true)
    (htimeout : s.handler.timeout = true) :
    ∃ s' e, s.runOn [] = some (s', e) ∧ s'.handler.timeout = true ∧
      ((s.frame.rejecting = false ∧ e = .finish) ∨
        (s.frame.rejecting = true ∧ ∃ x, e = .throw x)) := by
  obtain ⟨h, f⟩ := s
  have hrunOn : ∀ s', HandlerState.step ⟨h, f⟩ .resumed = some s' →
      HandlerState.runOn ⟨h, f⟩ [] = s'.frame.ending.map fun e => (s', e) := by
    intro s' hs'
    rw [HandlerState.runOn, if_neg List.not_mem_nil, run_singleton, hs', Option.bind_some]
  cases f with
  | readYield parser readIdx =>
    refine ⟨⟨h, .returned⟩, .finish, hrunOn ⟨h, .returned⟩ ?_, htimeout, .inl ⟨rfl, rfl⟩⟩
    simp only [HandlerState.step, show h.timeout = true from htimeout]
    rfl
  | writeYield reply written =>
    cases reply with
    | response shouldClose =>
      refine ⟨⟨h, .returned⟩, .finish, hrunOn ⟨h, .returned⟩ ?_, htimeout, .inl ⟨rfl, rfl⟩⟩
      exact if_pos htimeout
    | rejection =>
      refine ⟨⟨h, .threw (.timeoutException "timeout writeResponse")⟩, _,
        hrunOn ⟨h, .threw (.timeoutException "timeout writeResponse")⟩ ?_, htimeout,
        .inr ⟨rfl, _, rfl⟩⟩
      exact if_pos htimeout
  | _ => cases hs

namespace Worker

open Function (update)

variable {w w' : Worker} {t t' : Thread ℕ Thrown} {fd : ℕ} {c : HandlerEntry} {order : List ℕ}

/-- The handler has been told that it has timed out, and its routine has finished. -/
def Ended (w : Worker) (t : Thread ℕ Thrown) (fd : ℕ) : Prop :=
  ∃ c id r, w.handler? fd = some c ∧ c.isTimeout = true ∧ c.routineId = some id ∧
    t.ordinator.routine? id = some r ∧ r.finished = true

/-! ### Finished routines -/

/-- The id is that of a routine, and there is nothing of it left to run. -/
def Spent (t : Thread ℕ Thrown) (id : ℕ) : Prop :=
  id ≠ 0 ∧ id ≤ t.ordinator.routines.length ∧ t.slots.waiting id = none

theorem Spent.finished {id : ℕ} (h : Spent t id) (hflat : Flat t) (hout : t.running = none) :
    ∃ r, t.ordinator.routine? id = some r ∧ r.finished = true := by
  obtain ⟨h0, hle, hwaiting⟩ := h
  have hlt : id - 1 < t.ordinator.routines.length := by omega
  obtain ⟨r, hr⟩ : ∃ r, t.ordinator.routine? id = some r :=
    ⟨_, (if_neg h0).trans (List.getElem?_eq_getElem hlt)⟩
  refine ⟨r, hr, ?_⟩
  by_contra hunfinished
  have hunfinished' : r.finished = false := Bool.eq_false_iff.mpr hunfinished
  obtain ⟨-, hfits⟩ := hflat.fits id r hr hunfinished'
  rw [waiting_eq hr, Routine.slot, if_neg hunfinished] at hwaiting
  cases hctx : r.ctx with
  | entry => simp [hctx] at hwaiting
  | suspended a => simp [hctx] at hwaiting
  | loaded =>
    rw [hctx, hout] at hfits
    obtain ⟨a, ha, -⟩ := hfits
    cases ha

/-- The id of a routine that waits. -/
theorem valid_of_waiting {id : ℕ} {v : Option ℕ × ℕ} (h : t.slots.waiting id = some v) :
    id ≠ 0 ∧ id ≤ t.ordinator.routines.length := by
  obtain ⟨r, hr, -⟩ := Option.bind_eq_some_iff.mp h
  have h0 := t.ordinator.ne_zero_of_routine? hr
  rw [Ordinator.routine?, if_neg h0] at hr
  have hlt := (List.getElem?_eq_some_iff.mp hr).1
  exact ⟨h0, by omega⟩

/-- Resuming a handler leaves the spent routines of others spent. -/
theorem GivesBack.spent {id n : ℕ} {e : ThreadEvent ℕ Thrown} {result : Except Thrown Bool}
    (h : GivesBack t t' id fd n e result)
    (hlength : t'.ordinator.routines.length = t.ordinator.routines.length)
    {v : Option ℕ × ℕ} (hwaiting : t.slots.waiting id = some v) {id' : ℕ} (hid' : Spent t id') :
    Spent t' id' := by
  obtain ⟨h0, hle, hnone⟩ := hid'
  have hne : id' ≠ id := by
    rintro rfl
    cases hnone.symm.trans hwaiting
  refine ⟨h0, by rw [hlength]; exact hle, ?_⟩
  cases h with
  | yields hupdate => rw [hupdate, Function.update_of_ne hne, hnone]
  | finishes hupdate => rw [hupdate, Function.update_of_ne hne, hnone]
  | throws x hupdate => rw [hupdate, Function.update_of_ne hne, hnone]

/-! ### The loop -/

variable [StdHash]

/-- What the loop has done to one handler. -/
structure Stops (w w₁ : Worker) (t t₁ : Thread ℕ Thrown) (fd : ℕ) (c : HandlerEntry) : Prop where
  entry : ∃ c₁ id, w₁.handler? = update w.handler? fd (some c₁) ∧ c₁.isTimeout = true ∧
    c₁.routineId = some id ∧ Spent t₁ id
  spent : ∀ id, Spent t id → Spent t₁ id

/-- **One round of the loop.** -/
theorem stop_one {P : ℕ → Prop} {id n : ℕ} (h : Resumable w t P fd c id n)
    (hparked : Parked t fd c) :
    ∃ w₁ t₁ result, (w.set fd c.setTimeout).resumeConnection c.setTimeout [] = some (w₁, result) ∧
      LiveOn w₁ t₁ P ∧ Stops w w₁ t t₁ fd c ∧
      ((c.state.frame.rejecting = false ∧ result = .ok false) ∨
        (c.state.frame.rejecting = true ∧ ∃ x, result = .error x)) := by
  obtain ⟨s, e, hrun, htimeout, hends⟩ := @runOn_timeout _ c.setTimeout.state hparked.suspended rfl
  obtain ⟨t₁, result, hresume, hlive, hlength, hgives⟩ := h.setTimeout.resumeConnection hrun
  have hvalid := valid_of_waiting h.waiting
  have hstops : t₁.slots.waiting = update t.slots.waiting id none →
      Stops w ({ w.set fd c.setTimeout with execution := .defined t₁ }.set fd
        (c.setTimeout.withState s)) t t₁ fd c := by
    intro hwaiting
    have hentry := handler?_resumed w (.defined t₁) fd c.setTimeout (c.setTimeout.withState s)
    refine ⟨⟨_, id, hentry, htimeout, h.routineId, hvalid.1, by rw [hlength]; exact hvalid.2, ?_⟩,
      fun id' hid' => hgives.spent hlength h.waiting hid'⟩
    rw [hwaiting, Function.update_self]
  refine ⟨_, t₁, result, hresume, hlive, ?_⟩
  obtain ⟨hquiet, rfl⟩ | ⟨hrejecting, x, rfl⟩ := hends
  · cases hgives with
    | finishes hwaiting => exact ⟨hstops hwaiting, .inl ⟨hquiet, rfl⟩⟩
  · cases hgives with
    | throws _ hwaiting => exact ⟨hstops hwaiting, .inr ⟨hrejecting, x, rfl⟩⟩

/-- What is known of the loop: it comes to its end or to a handler that throws. -/
structure Shuts (w w' : Worker) (t t' : Thread ℕ Thrown) (order : List ℕ) : Prop where
  execution : w'.execution = .defined t'
  flat : Flat t'
  outside : t'.running = none
  others : ∀ fd, fd ∉ order → w'.handler? fd = w.handler? fd
  spent : ∀ id, Spent t id → Spent t' id
  ends_iff : (∀ fd ∈ order, Ended w' t' fd) ↔
    ∀ fd ∈ order.dropLast, ∀ c, w.handler? fd = some c → c.state.frame.rejecting = false

/-- **The loop** over the handlers that are still to be ended. -/
theorem shutdown_shuts (order : List ℕ) : ∀ {w : Worker} {t : Thread ℕ Thrown},
    LiveOn w t (· ∈ order) → order.Nodup → (∀ fd ∈ order, ∃ c, w.handler? fd = some c) →
    ∃ w' t', shutdown order w = some w' ∧ Shuts w w' t t' order := by
  induction order with
  | nil =>
    intro w t h _ _
    refine ⟨w, t, rfl, h.execution, h.flat, h.outside, fun _ _ => rfl, fun _ hid => hid, ?_⟩
    simp
  | cons fd order ih =>
    intro w t h hnodup hentries
    obtain ⟨hfd, hnodup⟩ := List.nodup_cons.mp hnodup
    obtain ⟨c, hc⟩ := hentries fd List.mem_cons_self
    obtain ⟨id, n, hresumable⟩ := @LiveOn.resumable _ _ _ _ _ (· ∈ order) h List.mem_cons_self hc
      fun fd' hmem => ⟨List.mem_cons_of_mem fd hmem, fun heq => hfd (heq ▸ hmem)⟩
    obtain ⟨w₁, t₁, result, hresume, hlive, hstops, hresult⟩ :=
      stop_one hresumable (h.parked fd c List.mem_cons_self hc)
    obtain ⟨c₁, id₁, hentry, htimeout, hid₁, hspent⟩ := hstops.entry
    have hrest : ∀ fd' ∈ order, w₁.handler? fd' = w.handler? fd' := by
      intro fd' hmem
      rw [hentry, Function.update_of_ne]
      rintro rfl
      exact hfd hmem
    have hothers : ∀ fd', fd' ∉ fd :: order → w₁.handler? fd' = w.handler? fd' := by
      intro fd' hmem
      rw [hentry, Function.update_of_ne]
      rintro rfl
      exact hmem List.mem_cons_self
    -- once it is ended a handler stays ended
    have hended : ∀ {w' : Worker} {t' : Thread ℕ Thrown}, Flat t' → t'.running = none →
        w'.handler? fd = w₁.handler? fd → (∀ id, Spent t₁ id → Spent t' id) → Ended w' t' fd := by
      intro w' t' hflat hout hsame hkeep
      obtain ⟨r, hr, hfinished⟩ := (hkeep id₁ hspent).finished hflat hout
      refine ⟨c₁, id₁, r, ?_, htimeout, hid₁, hr, hfinished⟩
      rw [hsame, hentry, Function.update_self]
    rw [shutdown, hc, Option.bind_some, hresume, Option.bind_some]
    obtain ⟨hquiet, rfl⟩ | ⟨hrejecting, x, rfl⟩ := hresult
    · obtain ⟨w', t', hres, hshuts⟩ := ih hlive hnodup (by
        intro fd' hmem
        rw [hrest fd' hmem]
        exact hentries fd' (List.mem_cons_of_mem fd hmem))
      refine ⟨w', t', hres, hshuts.execution, hshuts.flat, hshuts.outside, ?_, ?_, ?_⟩
      · intro fd' hmem
        rw [hshuts.others fd' (fun hmem' => hmem (List.mem_cons_of_mem fd hmem')), hothers fd' hmem]
      · intro id' hid'
        exact hshuts.spent id' (hstops.spent id' hid')
      · have hhead := hended hshuts.flat hshuts.outside (hshuts.others fd hfd) hshuts.spent
        rw [List.forall_mem_cons, and_iff_right hhead, hshuts.ends_iff]
        have hsame : (∀ fd' ∈ order.dropLast, ∀ c, w₁.handler? fd' = some c →
            c.state.frame.rejecting = false) ↔
              ∀ fd' ∈ order.dropLast, ∀ c, w.handler? fd' = some c →
                c.state.frame.rejecting = false := by
          refine forall₂_congr fun fd' hmem => ?_
          rw [hrest fd' (List.mem_of_mem_dropLast hmem)]
        rw [hsame]
        cases order with
        | nil => simp
        | cons fd₁ order =>
          rw [List.dropLast_cons_cons, List.forall_mem_cons]
          refine (and_iff_right ?_).symm
          intro c' hc'
          cases hc.symm.trans hc'
          exact hquiet
    · -- the exception leaves the loop
      refine ⟨w₁, t₁, rfl, hlive.execution, hlive.flat, hlive.outside, hothers, hstops.spent, ?_⟩
      have hhead := hended hlive.flat hlive.outside rfl fun _ hid => hid
      rw [List.forall_mem_cons, and_iff_right hhead]
      cases order with
      | nil => simp
      | cons fd₁ order =>
        refine iff_of_false ?_ ?_
        · intro hall
          obtain ⟨c', -, -, hc', htimeout', -⟩ := hall fd₁ List.mem_cons_self
          rw [hrest fd₁ List.mem_cons_self] at hc'
          have hparked := h.parked fd₁ c' (List.mem_cons_of_mem fd List.mem_cons_self) hc'
          rw [hparked.timeout] at htimeout'
          cases htimeout'
        · intro hall
          have hfalse := hall fd (by rw [List.dropLast_cons_cons]; exact List.mem_cons_self) c hc
          rw [hrejecting] at hfalse
          cases hfalse

/-- **Every handler is told that it has timed out, is resumed and ends** exactly if none
but the last one in the order of the loop waits in the `writeResponse` of a rejection.
The handlers are any that live on routines of their own, suspended anywhere. -/
theorem shutdown_ends_iff (h : LiveOn w t fun _ => True) (horder : w.Iterates order) :
    ∃ w' t', shutdown order w = some w' ∧ w'.execution = .defined t' ∧
      ((∀ fd c, w.handler? fd = some c → Ended w' t' fd) ↔
        ∀ fd ∈ order.dropLast, ∀ c, w.handler? fd = some c → c.state.frame.rejecting = false) := by
  obtain ⟨w', t', hres, hshuts⟩ := shutdown_shuts order (h.mono fun _ _ => trivial) horder.1
    fun _ hmem => horder.mem_iff.mp hmem
  refine ⟨w', t', hres, hshuts.execution, ?_⟩
  rw [← hshuts.ends_iff]
  constructor
  · intro hall fd hmem
    obtain ⟨c, hc⟩ := horder.mem_iff.mp hmem
    exact hall fd c hc
  · intro hall fd c hc
    exact hall fd (horder.mem_iff.mpr ⟨c, hc⟩)

omit [StdHash] in
/-- A reading handler, and then one that cannot get rid of its rejection. -/
theorem shutdown_ends_reading : letI := polynomialHash
    ∃ r w' t', run (Worker.step ⟨3, 100⟩ ()) ({}, fun _ => none)
      [.accepted 5 true 0, .accepted 6 true 0, .ready 5 [.readAgain 1] true,
        .ready 6 [.read (ascii "X \r\n"), .writeAgain 2] true] = some r ∧
      shutdown [5, 6] r.1 = some w' ∧ w'.execution = .defined t' ∧
      ∀ fd c, r.1.handler? fd = some c → Ended w' t' fd := by
  let _ := polynomialHash
  have hsome : (run (Worker.step ⟨3, 100⟩ ()) ({}, fun _ => none)
      [.accepted 5 true 0, .accepted 6 true 0, .ready 5 [.readAgain 1] true,
        .ready 6 [.read (ascii "X \r\n"), .writeAgain 2] true]).any (fun r =>
      decide (r.1.phase = .serving) && decide (r.1.Iterates [5, 6]) &&
        (r.1.handler? 5).all fun c => !c.state.frame.rejecting) = true := by
    decide +kernel
  obtain ⟨r, hrun, hr⟩ := (Option.any_eq_true _ _).mp hsome
  simp only [Bool.and_eq_true, decide_eq_true_eq, Option.all_eq_true, Bool.not_eq_true'] at hr
  obtain ⟨⟨hserving, horder⟩, hquiet⟩ := hr
  obtain ⟨t, hlive⟩ := (inv_run hrun).live hserving
  obtain ⟨w', t', hres, hexecution, hiff⟩ := shutdown_ends_iff hlive horder
  refine ⟨r, w', t', hrun, hres, hexecution, hiff.mpr ?_⟩
  intro fd hmem c hc
  rw [List.mem_singleton.mp hmem] at hc
  exact hquiet c hc

omit [StdHash] in
/-- The other way round: the reading handler is never told. -/
theorem shutdown_leaves_reading :
    ¬ ∀ (_ : StdHash) (w : Worker) (t : Thread ℕ Thrown) (order : List ℕ),
      LiveOn w t (fun _ => True) → w.Iterates order →
      ∃ w' t', shutdown order w = some w' ∧ w'.execution = .defined t' ∧
        ∀ fd c, w.handler? fd = some c → Ended w' t' fd := by
  intro hall
  let _ := polynomialHash
  have hsome : (run (Worker.step ⟨3, 100⟩ ()) ({}, fun _ => none)
      [.accepted 5 true 0, .accepted 6 true 0,
        .ready 5 [.read (ascii "X \r\n"), .writeAgain 1] true,
        .ready 6 [.readAgain 2] true]).any (fun r =>
      decide (r.1.phase = .serving) && decide (r.1.Iterates [5, 6]) && (r.1.handler? 6).isSome &&
        (shutdown [5, 6] r.1).any fun w' => (w'.handler? 6).all fun c => !c.isTimeout) = true := by
    decide +kernel
  obtain ⟨r, hrun, hr⟩ := (Option.any_eq_true _ _).mp hsome
  simp only [Bool.and_eq_true, decide_eq_true_eq, Option.any_eq_true, Option.all_eq_true,
    Bool.not_eq_true'] at hr
  obtain ⟨⟨⟨hserving, horder⟩, hsix⟩, w₁, hw₁, hquiet⟩ := hr
  obtain ⟨t, hlive⟩ := (inv_run hrun).live hserving
  obtain ⟨w', t', hres, -, hended⟩ := hall _ r.1 t [5, 6] hlive horder
  cases hw₁.symm.trans hres
  obtain ⟨c, hc⟩ := Option.isSome_iff_exists.mp hsix
  obtain ⟨c', -, -, hc', htimeout, -⟩ := hended 6 c hc
  rw [hquiet c' hc'] at htimeout
  cases htimeout

end Worker

end TpAdvanced
