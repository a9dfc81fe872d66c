import TpAdvanced.Http.Worker

/-!
# Live handlers

Between two steps of a worker its handlers are suspended, in `readRequest` with the
events to read or in `writeResponse` with those to write, each on a routine of its own.
This file shows what resuming one of them makes of it, of its routine and of the others.

## Main definitions

* `HandlerState.Masked` — the events fit the place where `operator()` stands.
* `Worker.Parked`, `Worker.LiveOn` — suspended handlers and their routines.
* `Worker.Handles` — what an event of a client makes of a worker.

## Main results

* `ranOn_of_runOn` — a handler that has run until it gave control back.
* `Worker.resumeRoutine_of_runOn` — **resuming a routine.**
* `Worker.Resumable.resumeHandler` — **the handler of a client is resumed.**
-/

namespace TpAdvanced

open Machine Coroutine

/-! ### A handler that runs -/

/-- Suspended in `readRequest` or `writeResponse`. -/
def Frame.suspended : Frame → Bool
  | .readYield .. => true
  | .writeYield .. => true
  | _ => false

/-- The events fit the place where `operator()` stands. -/
def HandlerState.Masked (s : HandlerState) : Prop :=
  match s.frame with
  | .created | .reading .. | .readYield .. | .calling .. => s.handler.set = .ofList [.in_]
  | .writing .. | .writeYield .. => s.handler.set = .ofList [.out]
  | .returned | .threw _ => True

section Handler

variable {h : ConnectionHandler} {reply : Reply} {written : ℕ}

/-- The parts of `operator()` that a step may enter, from a handler `h`: they leave the
timeout flag alone and do not suspend, and the events fit. -/
structure Enters (h : ConnectionHandler) (s : HandlerState) : Prop where
  masked : s.Masked
  timeout : s.handler.timeout = h.timeout
  runs : s.frame.suspended = false

theorem enters_finishWrite (hset : h.set = .ofList [.out]) (reply : Reply) (whole : Bool) :
    Enters h (h.finishWrite reply whole) := by
  cases reply with
  | rejection => exact ⟨trivial, rfl, rfl⟩
  | response shouldClose =>
    cases shouldClose with
    | true => cases whole <;> exact ⟨trivial, rfl, rfl⟩
    | false =>
      cases whole with
      | false => exact ⟨trivial, rfl, rfl⟩
      | true =>
        refine ⟨?_, rfl, rfl⟩
        change (h.set.sub .out).add .in_ = .ofList [.in_]
        rw [hset, EventsSet.out_to_in]

theorem enters_continueWrite (hset : h.set = .ofList [.out]) (reply : Reply) (written : ℕ) :
    Enters h (h.continueWrite reply written) := by
  unfold ConnectionHandler.continueWrite
  split
  · exact enters_finishWrite hset reply true
  · exact ⟨hset, rfl, rfl⟩

/-- `writeResponse` is called at the end of reading. -/
theorem enters_beginWrite (hset : h.set = .ofList [.in_]) (reply : Reply)
    (response : HttpResponse) :
    Enters h (h.turnToWriting.beginWrite reply response) := by
  have hout : (h.set.sub .in_).add .out = .ofList [.out] := by rw [hset, EventsSet.in_to_out]
  obtain ⟨hmasked, htimeout, hruns⟩ := @enters_continueWrite
    { h.turnToWriting with writeBuff := response.dump } hout reply 0
  exact ⟨hmasked, htimeout, hruns⟩

theorem enters_catchThrown (hset : h.set = .ofList [.in_]) (e : Thrown) :
    Enters h (h.catchThrown e) := by
  cases e with
  | parsingException message code => exact enters_beginWrite hset _ _
  | _ => exact ⟨trivial, rfl, rfl⟩

/-- `writeResponse` throws nothing that would be answered. -/
theorem enters_throwInWrite (reply : Reply) {e : Thrown}
    (he : ∀ message code, e ≠ .parsingException message code) :
    Enters h (h.throwInWrite reply e) := by
  cases reply with
  | rejection => exact ⟨trivial, rfl, rfl⟩
  | response shouldClose =>
    cases e with
    | parsingException message code => exact absurd rfl (he message code)
    | _ => exact ⟨trivial, rfl, rfl⟩

variable [StdHash]

theorem enters_readStep {parser : HttpRequestParser} {readIdx : ℕ} {x : ReadResult}
    {s' : HandlerState} (hset : h.set = .ofList [.in_])
    (hstep : HandlerState.readStep h parser readIdx x = some s') : Enters h s' := by
  obtain ⟨o, -, rfl⟩ := Option.map_eq_some_iff.mp hstep
  cases o with
  | reading r => exact ⟨hset, rfl, rfl⟩
  | returned request buff =>
    cases request with
    | none => exact ⟨trivial, rfl, rfl⟩
    | some request => exact ⟨hset, rfl, rfl⟩
  | threw e buff =>
    obtain ⟨hmasked, htimeout, hruns⟩ := @enters_catchThrown { h with readBuff := buff } hset e
    exact ⟨hmasked, htimeout, hruns⟩

/-- **What a step of `operator()` can do**: enter a part of it, or suspend behind an
attempt that found nothing. -/
theorem handlerStep_cases {s s' : HandlerState} {e : HandlerEvent} (hs : s.Masked)
    (hstep : s.step e = some s') :
    Enters s.handler s' ∨
      ∃ now, e.attemptTime = some now ∧ s'.handler = s.handler.updateLastActivity now ∧
        s'.Masked := by
  obtain ⟨h, f⟩ := s
  cases HandlerState.rule_of_step hstep with
  | expired ht => exact .inl ⟨trivial, rfl, rfl⟩
  | entered ht => exact .inl ⟨hs, rfl, rfl⟩
  | read parser readIdx d s' hread => exact .inl (enters_readStep hs hread)
  | readAgain parser readIdx now => exact .inr ⟨now, rfl, rfl, hs⟩
  | readEof parser readIdx s' hread => exact .inl (enters_readStep hs hread)
  | readFailed parser readIdx s' hread => exact .inl (enters_readStep hs hread)
  | readResumed parser readIdx s' hread => exact .inl (enters_readStep hs hread)
  | replied request shouldClose response request' => exact .inl (enters_beginWrite hs _ _)
  | repliedThrow request shouldClose x => exact .inl (enters_catchThrown hs x)
  | wrote reply written n hn => exact .inl (enters_continueWrite hs reply _)
  | writeAgain reply written now => exact .inr ⟨now, rfl, rfl, hs⟩
  | writeReset reply written => exact .inl (enters_finishWrite hs reply false)
  | writeFailed reply written reason =>
    exact .inl (enters_throwInWrite reply (fun _ _ => Thrown.noConfusion))
  | writeExpired reply written ht =>
    -- a resumed `writeResponse` throws if it has timed out
    exact .inl (enters_throwInWrite reply (fun _ _ => Thrown.noConfusion))
  | writeResumed reply written ht => exact .inl (enters_continueWrite hs reply written)

theorem masked_run {s s' : HandlerState} {es : List HandlerEvent} (hs : s.Masked)
    (hrun : run HandlerState.step s es = some s') :
    s'.Masked ∧ s'.handler.timeout = s.handler.timeout := by
  refine invariant_run (fun s' => s'.Masked ∧ s'.handler.timeout = s.handler.timeout) ?_
    ⟨hs, rfl⟩ hrun
  rintro s₁ e s₂ ⟨hs₁, htimeout⟩ hstep
  obtain hin | ⟨now, -, hhandler, hmasked⟩ := handlerStep_cases hs₁ hstep
  · exact ⟨hin.masked, hin.timeout.trans htimeout⟩
  · exact ⟨hmasked, by rw [hhandler]; exact htimeout⟩

/-- What a handler has become that has run until it gave control back. -/
structure RanOn (s s' : HandlerState) (script : List HandlerEvent)
    (e : ThreadEvent ℕ Thrown) : Prop where
  masked : s'.Masked
  timeout : s'.handler.timeout = s.handler.timeout
  ending : s'.frame.ending = some e
  /-- A handler that is suspended has noted when. -/
  noted : s'.frame.suspended = true →
    script.getLast?.bind HandlerEvent.attemptTime = some s'.handler.lastActivity

theorem ranOn_of_runOn {s s' : HandlerState} {script : List HandlerEvent} {e : ThreadEvent ℕ Thrown}
    (hs : s.Masked) (h : s.runOn script = some (s', e)) : RanOn s s' script e := by
  unfold HandlerState.runOn at h
  split at h
  · cases h
  obtain ⟨s₁, hrun, hending⟩ := Option.bind_eq_some_iff.mp h
  obtain ⟨e', he', heq⟩ := Option.map_eq_some_iff.mp hending
  cases heq
  obtain ⟨hmasked, htimeout⟩ := masked_run hs hrun
  refine ⟨hmasked, htimeout, he', fun hsuspended => ?_⟩
  -- the last event is the one that suspends
  obtain ⟨es, last, hsplit⟩ : ∃ es last, .resumed :: script = es ++ [last] :=
    ⟨_, _, (List.dropLast_append_getLast (List.cons_ne_nil _ _)).symm⟩
  rw [hsplit, run_append_eq_some] at hrun
  obtain ⟨s₂, hbefore, hlast⟩ := hrun
  rw [run_singleton] at hlast
  obtain hin | ⟨now, hnow, hhandler, -⟩ := handlerStep_cases (masked_run hs hbefore).1 hlast
  · rw [hin.runs] at hsuspended
    cases hsuspended
  · have hend := congrArg List.getLast? hsplit
    rw [List.getLast?_concat] at hend
    have hgetLast : script.getLast? = some last := by
      cases script with
      | nil =>
        cases hend
        cases hnow
      | cons x xs => rwa [List.getLast?_cons_cons] at hend
    rw [hgetLast, Option.bind_some, hnow, hhandler]
    rfl

end Handler

/-! ### The map of handlers -/

namespace Worker

open Function (update)

variable {w w' : Worker} {fd fd' : ℕ} {c : HandlerEntry}

@[simp] theorem handler?_set (w : Worker) (fd : ℕ) (c : HandlerEntry) :
    (w.set fd c).handler? = update w.handler? fd (some c) := by
  funext fd'
  rw [Function.update_apply]
  by_cases h : fd' = fd
  · rw [if_pos h, h]
    exact Finmap.lookup_insert _
  · rw [if_neg h]
    exact Finmap.lookup_insert_of_ne _ h

/-- A handler whose routine has been resumed has what the routine leaves. -/
theorem handler?_resumed (w : Worker) (x : Execution ℕ Thrown) (fd : ℕ) (c c' : HandlerEntry) :
    ({ w.set fd c with execution := x }.set fd c').handler? = update w.handler? fd (some c') := by
  rw [handler?_set]
  show update (w.set fd c).handler? fd _ = _
  rw [handler?_set, Function.update_idem]

theorem handler?_erase (w : Worker) (fd : ℕ) :
    (w.erase fd).handler? = update w.handler? fd none := by
  funext fd'
  rw [Function.update_apply, erase]
  cases hc : w.handler? fd with
  | none =>
    dsimp only
    by_cases h : fd' = fd
    · rw [if_pos h, h, hc]
    · rw [if_neg h]
  | some c =>
    by_cases h : fd' = fd
    · rw [if_pos h, h]
      exact Finmap.lookup_erase _ _
    · rw [if_neg h]
      exact Finmap.lookup_erase_ne h

theorem erase_of_entry (hc : w.handler? fd = some c) :
    w.erase fd = { w with
      coroutines := w.coroutines.erase fd
      closing := w.closing ++ c.fd.toList } := by
  rw [erase, hc]

/-! ### Live handlers -/

/-- The routine of a handler is under its id, to go on with segment `n`. -/
structure Waits (t : Thread ℕ Thrown) (fd : ℕ) (c : HandlerEntry) (n : ℕ) : Prop where
  fd_eq : c.fd = some fd
  masked : c.state.Masked
  routine : ∃ id, c.routineId = some id ∧ t.slots.waiting id = some (some fd, n)

/-- A handler has been run and is suspended, and has not timed out. -/
structure Parked (t : Thread ℕ Thrown) (fd : ℕ) (c : HandlerEntry) : Prop where
  waits : ∃ n, Waits t fd c (n + 1)
  suspended : c.state.frame.suspended = true
  timeout : c.isTimeout = false

/-- Outside of all routines the handlers under the descriptors of `P` are parked, each
on a routine of its own. -/
structure LiveOn (w : Worker) (t : Thread ℕ Thrown) (P : ℕ → Prop) : Prop where
  execution : w.execution = .defined t
  flat : Flat t
  outside : t.running = none
  parked : ∀ fd c, P fd → w.handler? fd = some c → Parked t fd c
  distinct : ∀ fd fd' c c', P fd → P fd' → w.handler? fd = some c → w.handler? fd' = some c' →
    c.routineId = c'.routineId → fd = fd'

variable [StdHash] {t : Thread ℕ Thrown} {id n : ℕ} {script : List HandlerEvent}
  {result : Except Thrown Bool} {s : HandlerState} {e : ThreadEvent ℕ Thrown}

/-- How a resumed routine can give control back. -/
inductive GivesBack (t t' : Thread ℕ Thrown) (id fd n : ℕ) :
    ThreadEvent ℕ Thrown → Except Thrown Bool → Prop
  | yields (h : t'.slots.waiting = update t.slots.waiting id (some (some fd, n + 1))) :
      GivesBack t t' id fd n .yield (.ok true)
  | finishes (h : t'.slots.waiting = update t.slots.waiting id none) :
      GivesBack t t' id fd n .finish (.ok false)
  | throws (e : Thrown) (h : t'.slots.waiting = update t.slots.waiting id none) :
      GivesBack t t' id fd n (.throw e) (.error e)

/-- `resume` switches to the routine of the handler. -/
theorem resumeRoutine_switch (hx : w.execution = .defined t) (hflat : Flat t)
    (hout : t.running = none) (hc : w.handler? fd = some c)
    (hwaiting : t.slots.waiting id = some (some fd, n)) (script : List HandlerEvent) :
    ∃ t₁, Flat t₁ ∧ t₁.slots = ⟨update t.slots.waiting id none, some ⟨id, fd, n⟩⟩ ∧
      t₁.ordinator.routines.length = t.ordinator.routines.length ∧
      w.resumeRoutine id script = (c.state.runOn script).bind fun s =>
        (Execution.step (.defined t₁) s.2).bind fun x' =>
          match lastObservation x' with
          | some (.returned _ suspended) =>
            some ({ w with execution := x' }.set fd (c.withState s.1), .ok suspended)
          | some (.threw _ e) =>
            some ({ w with execution := x' }.set fd (c.withState s.1), .error e)
          | _ => none := by
  obtain ⟨t₁, o, ht₁, hlog, hslots, hflat₁⟩ := hflat.resume id hout
  have hrun : o = .ran id fd n ∧ t₁.slots = ⟨update t.slots.waiting id none, some ⟨id, fd, n⟩⟩ := by
    generalize t₁.slots = slots at hslots
    cases hslots with
    | refuse hout' hnone => cases hwaiting.symm.trans hnone
    | resume hout' hwaiting' =>
      cases hwaiting.symm.trans hwaiting'
      exact ⟨rfl, rfl⟩
    | resumeEmpty hout' hwaiting' => cases hwaiting.symm.trans hwaiting'
  obtain ⟨rfl, hslots₁⟩ := hrun
  have hstep : w.execution.step (.resume id true) = some (.defined t₁) := by
    rw [hx, Execution.step, ht₁]
  have hlast : lastObservation (.defined t₁) = some (.ran id fd n) := by
    rw [lastObservation, hlog, List.getLast?_concat]
  refine ⟨t₁, hflat₁, hslots₁, Thread.length_of_resume ht₁, ?_⟩
  rw [resumeRoutine, hstep, Option.bind_some, hlast]
  show (w.handler? fd).bind _ = _
  rw [hc]
  rfl

theorem ending_of_runOn {s s' : HandlerState} (h : s.runOn script = some (s', e)) :
    s'.frame.ending = some e := by
  unfold HandlerState.runOn at h
  split at h
  · cases h
  obtain ⟨s₁, -, hending⟩ := Option.bind_eq_some_iff.mp h
  obtain ⟨e', he', heq⟩ := Option.map_eq_some_iff.mp hending
  cases heq
  exact he'

/-- **Resuming a routine**: the handler runs on, and its routine is left suspended or
finished. -/
theorem resumeRoutine_of_runOn (hx : w.execution = .defined t) (hflat : Flat t)
    (hout : t.running = none) (hc : w.handler? fd = some c)
    (hwaiting : t.slots.waiting id = some (some fd, n))
    (hrun : c.state.runOn script = some (s, e)) :
    ∃ t' result, w.resumeRoutine id script =
        some ({ w with execution := .defined t' }.set fd (c.withState s), result) ∧
      Flat t' ∧ t'.running = none ∧
      t'.ordinator.routines.length = t.ordinator.routines.length ∧
      GivesBack t t' id fd n e result := by
  obtain ⟨t₁, hflat₁, hslots₁, hlength, hresume⟩ :=
    resumeRoutine_switch hx hflat hout hc hwaiting script
  have hrunning : t₁.running = some ⟨id, fd, n⟩ := congrArg Slots.running hslots₁
  have hwaiting₁ : t₁.slots.waiting = update t.slots.waiting id none :=
    congrArg Slots.waiting hslots₁
  rw [hresume, hrun, Option.bind_some]
  dsimp only
  have hends : ∀ exception : Option Thrown, ∃ t', t₁.finish id exception = .defined t' ∧
      lastObservation (.defined t') = some (ended id exception) ∧ Flat t' ∧ t'.running = none ∧
      t'.ordinator.routines.length = t.ordinator.routines.length ∧
      t'.slots.waiting = update t.slots.waiting id none := by
    intro exception
    obtain ⟨t', hfinish, hlog', hslots', hflat'⟩ := hflat₁.finish hrunning exception
    refine ⟨t', hfinish, ?_, hflat', congrArg Slots.running hslots',
      (Thread.length_of_finish hfinish).trans hlength, ?_⟩
    · rw [lastObservation, hlog', List.getLast?_concat]
    · exact (congrArg Slots.waiting hslots').trans hwaiting₁
  have hending := ending_of_runOn hrun
  cases e with
  | yield =>
    obtain ⟨t', o', hyield, hlog', hslots', hflat'⟩ := hflat₁.yield hrunning
    rw [hslots₁] at hslots'
    have hdone : o' = .returned id true ∧ t'.slots =
        ⟨update t.slots.waiting id (some (some fd, n + 1)), none⟩ := by
      generalize t'.slots = slots at hslots'
      cases hslots' with
      | yield hrun' =>
        cases hrun'
        rw [Function.update_idem]
        exact ⟨rfl, rfl⟩
    obtain ⟨rfl, hslots₂⟩ := hdone
    have hlast' : lastObservation (.defined t') = some (.returned id true) := by
      rw [lastObservation, hlog', List.getLast?_concat]
    refine ⟨t', .ok true, ?_, hflat', congrArg Slots.running hslots₂,
      (Thread.length_of_yield hyield).trans hlength, .yields (congrArg Slots.waiting hslots₂)⟩
    rw [Execution.step, hyield, Option.bind_some, hlast']
  | finish =>
    obtain ⟨t', hfinish, hlast', hflat', hout', hlength', hwaiting'⟩ := hends none
    refine ⟨t', .ok false, ?_, hflat', hout', hlength', .finishes hwaiting'⟩
    rw [Execution.step, hrunning, Option.map_some, hfinish, Option.bind_some, hlast']
    rfl
  | throw exception =>
    obtain ⟨t', hfinish, hlast', hflat', hout', hlength', hwaiting'⟩ := hends (some exception)
    refine ⟨t', .error exception, ?_, hflat', hout', hlength', .throws exception hwaiting'⟩
    rw [Execution.step, hrunning, Option.map_some, hfinish, Option.bind_some, hlast']
    rfl
  | create f => cases hf : s.frame <;> rw [hf] at hending <;> cases hending
  | resume id' switches => cases hf : s.frame <;> rw [hf] at hending <;> cases hending

/-! ### One handler is resumed -/

variable {P : ℕ → Prop}

omit [StdHash] in
theorem LiveOn.mono {Q : ℕ → Prop} (h : LiveOn w t P) (hPQ : ∀ fd, Q fd → P fd) : LiveOn w t Q where
  execution := h.execution
  flat := h.flat
  outside := h.outside
  parked := fun fd c hQ hc => h.parked fd c (hPQ fd hQ) hc
  distinct := fun fd fd' c c' hQ hQ' => h.distinct fd fd' c c' (hPQ fd hQ) (hPQ fd' hQ')

omit [StdHash] in
/-- The routines of the other handlers are left alone. -/
theorem LiveOn.update {t' : Thread ℕ Thrown} (h : LiveOn w t P) (hfd : ¬ P fd)
    (hapart : ∀ fd' c', P fd' → w.handler? fd' = some c' → c'.routineId ≠ some id)
    (hflat : Flat t') (hout : t'.running = none) {v : Option (Option ℕ × ℕ)}
    (hwaiting : t'.slots.waiting = Function.update t.slots.waiting id v) (c' : HandlerEntry) :
    LiveOn ({ w with execution := .defined t' }.set fd c') t' P := by
  have hentry : ∀ fd', P fd' →
      ({ w with execution := .defined t' }.set fd c').handler? fd' = w.handler? fd' := by
    intro fd' hP
    have hne : fd' ≠ fd := by
      rintro rfl
      exact hfd hP
    rw [handler?_set, Function.update_of_ne hne]
    rfl
  refine ⟨rfl, hflat, hout, ?_, ?_⟩
  · intro fd' c' hP hc'
    rw [hentry fd' hP] at hc'
    obtain ⟨⟨m, hfd, hmasked, id', hid', hwaits⟩, hsuspended, htimeout⟩ := h.parked fd' c' hP hc'
    refine ⟨⟨m, hfd, hmasked, id', hid', ?_⟩, hsuspended, htimeout⟩
    have hne : id' ≠ id := by
      rintro rfl
      exact hapart fd' c' hP hc' hid'
    rw [hwaiting, Function.update_of_ne hne]
    exact hwaits
  · intro fd₁ fd₂ c₁ c₂ hP₁ hP₂ hc₁ hc₂
    rw [hentry fd₁ hP₁] at hc₁
    rw [hentry fd₂ hP₂] at hc₂
    exact h.distinct fd₁ fd₂ c₁ c₂ hP₁ hP₂ hc₁ hc₂

/-- A handler whose routine waits, beside handlers on other routines. -/
structure Resumable (w : Worker) (t : Thread ℕ Thrown) (P : ℕ → Prop) (fd : ℕ) (c : HandlerEntry)
    (id n : ℕ) : Prop where
  live : LiveOn w t P
  outside : ¬ P fd
  entry : w.handler? fd = some c
  routineId : c.routineId = some id
  waiting : t.slots.waiting id = some (some fd, n)
  apart : ∀ fd' c', P fd' → w.handler? fd' = some c' → c'.routineId ≠ some id

omit [StdHash] in
/-- A parked handler can be resumed, beside others that are parked. -/
theorem LiveOn.resumable {Q : ℕ → Prop} (h : LiveOn w t P) (hP : P fd) (hc : w.handler? fd = some c)
    (hQ : ∀ fd', Q fd' → P fd' ∧ fd' ≠ fd) : ∃ id n, Resumable w t Q fd c id (n + 1) := by
  obtain ⟨n, -, -, id, hid, hwaiting⟩ := (h.parked fd c hP hc).waits
  refine ⟨id, n, h.mono fun fd' hfd' => (hQ fd' hfd').1, fun hfd => (hQ fd hfd).2 rfl, hc, hid,
    hwaiting, ?_⟩
  intro fd' c' hfd' hc' hid'
  exact (hQ fd' hfd').2
    (h.distinct fd' fd c' c (hQ fd' hfd').1 hP hc' hc (hid'.trans hid.symm))

/-- **A handler is resumed** and runs on, as far as its script goes. -/
theorem Resumable.resumeConnection (h : Resumable w t P fd c id n)
    (hrun : c.state.runOn script = some (s, e)) :
    ∃ t' result, w.resumeConnection c script =
        some ({ w with execution := .defined t' }.set fd (c.withState s), result) ∧
      LiveOn ({ w with execution := .defined t' }.set fd (c.withState s)) t' P ∧
      t'.ordinator.routines.length = t.ordinator.routines.length ∧
      GivesBack t t' id fd n e result := by
  obtain ⟨t', result, hresume, hflat, hout, hlength, hgives⟩ :=
    resumeRoutine_of_runOn h.live.execution h.live.flat h.live.outside h.entry h.waiting hrun
  refine ⟨t', result, ?_, ?_, hlength, hgives⟩
  · rw [Worker.resumeConnection, h.routineId]
    exact hresume
  · cases hgives with
    | yields hwaiting => exact h.live.update h.outside h.apart hflat hout hwaiting _
    | finishes hwaiting => exact h.live.update h.outside h.apart hflat hout hwaiting _
    | throws x hwaiting => exact h.live.update h.outside h.apart hflat hout hwaiting _

/-- There is no other way for `resumeHandler` to come back. -/
theorem Resumable.runOn_of_resumeConnection {r : Worker × Except Thrown Bool}
    (h : Resumable w t P fd c id n) (hr : w.resumeConnection c script = some r) :
    ∃ s e, c.state.runOn script = some (s, e) := by
  obtain ⟨t₁, -, -, -, hresume⟩ := resumeRoutine_switch h.live.execution h.live.flat h.live.outside
    h.entry h.waiting script
  rw [Worker.resumeConnection, h.routineId] at hr
  dsimp only at hr
  rw [hresume] at hr
  obtain ⟨⟨s, e⟩, hrun, -⟩ := Option.bind_eq_some_iff.mp hr
  exact ⟨s, e, hrun⟩

/-- What an event of the client `fd` makes of a worker: the handler is gone and its
descriptor is to be closed, or it is parked again, and epoll is told its events, if they
are not those it had before. -/
structure Handles (w w' : Worker) (fd : ℕ) (before : EventsSet) (script : List HandlerEvent)
    (interests : Option EventsSet) : Prop where
  live : ∃ t', LiveOn w' t' fun _ => True
  others : ∀ fd', fd' ≠ fd → w'.handler? fd' = w.handler? fd'
  phase : w'.phase = w.phase
  outcome : (w'.handler? fd = none ∧ w'.closing = w.closing ++ [fd]) ∨
    ∃ c, w'.handler? fd = some c ∧ w'.closing = w.closing ∧
      script.getLast?.bind HandlerEvent.attemptTime = some c.lastActivity ∧
      interests.getD before = c.eventsSet

omit [StdHash] in
/-- A handler is gone, and the others are live. -/
theorem LiveOn.erase (h : LiveOn w t (· ≠ fd)) (hexecution : w'.execution = w.execution)
    (hentry : w'.handler? = Function.update w.handler? fd none) : LiveOn w' t fun _ => True := by
  have hne : ∀ fd' c', w'.handler? fd' = some c' → fd' ≠ fd ∧ w.handler? fd' = some c' := by
    intro fd' c' hc'
    rw [hentry, Function.update_apply] at hc'
    split at hc'
    · cases hc'
    · exact ⟨‹_›, hc'⟩
  refine ⟨hexecution.trans h.execution, h.flat, h.outside, ?_, ?_⟩
  · intro fd' c' _ hc'
    obtain ⟨hfd', hc'⟩ := hne fd' c' hc'
    exact h.parked fd' c' hfd' hc'
  · intro fd₁ fd₂ c₁ c₂ _ _ hc₁ hc₂
    obtain ⟨hfd₁, hc₁⟩ := hne fd₁ c₁ hc₁
    obtain ⟨hfd₂, hc₂⟩ := hne fd₂ c₂ hc₂
    exact h.distinct fd₁ fd₂ c₁ c₂ hfd₁ hfd₂ hc₁ hc₂

omit [StdHash] in
theorem handles_erase {before : EventsSet} {interests : Option EventsSet} {t' : Thread ℕ Thrown}
    (hlive : LiveOn w' t' (· ≠ fd)) (hc : w'.handler? fd = some c) (hfd : c.fd = some fd)
    (hothers : ∀ fd', fd' ≠ fd → w'.handler? fd' = w.handler? fd') (hphase : w'.phase = w.phase)
    (hclosing : w'.closing = w.closing) :
    Handles w (w'.erase fd) fd before script interests := by
  have hentry := handler?_erase w' fd
  have herase := erase_of_entry hc
  refine ⟨⟨t', hlive.erase (by rw [herase]) hentry⟩, ?_, ?_, .inl ⟨?_, ?_⟩⟩
  · intro fd' hfd'
    rw [hentry, Function.update_of_ne hfd']
    exact hothers fd' hfd'
  · rw [herase]
    exact hphase
  · rw [hentry, Function.update_self]
  · rw [herase, hfd]
    exact congrArg (· ++ [fd]) hclosing

/-- **The handler of a client is resumed.** -/
theorem Resumable.resumeHandler {modified : Bool} {interests : Option EventsSet}
    (h : Resumable w t (· ≠ fd) fd c id n) (hfd : c.fd = some fd) (hmasked : c.state.Masked)
    (htimeout : c.isTimeout = false)
    (hres : w.resumeHandler fd script modified = some (w', interests)) :
    Handles w w' fd c.eventsSet script interests := by
  rw [Worker.resumeHandler, h.entry, Option.bind_some, Option.map_eq_some_iff] at hres
  obtain ⟨r, hr, hres⟩ := hres
  obtain ⟨s, e, hrun⟩ := h.runOn_of_resumeConnection hr
  obtain ⟨t', result, hresume, hlive, -, hgives⟩ := h.resumeConnection hrun
  have hran := ranOn_of_runOn hmasked hrun
  rw [hresume] at hr
  cases hr
  dsimp only at hres
  generalize hw₁ : { w with execution := .defined t' }.set fd (c.withState s) = w₁ at hres hlive
  have hentry : w₁.handler? = Function.update w.handler? fd (some (c.withState s)) := by
    rw [← hw₁, handler?_set]
    rfl
  have hc₁ : w₁.handler? fd = some (c.withState s) := by rw [hentry, Function.update_self]
  have hothers : ∀ fd', fd' ≠ fd → w₁.handler? fd' = w.handler? fd' := by
    intro fd' hne
    rw [hentry, Function.update_of_ne hne]
  have hphase : w₁.phase = w.phase := by rw [← hw₁]; rfl
  have hclosing : w₁.closing = w.closing := by rw [← hw₁]; rfl
  have herase : ∀ interests, Handles w (w₁.erase fd) fd c.eventsSet script interests :=
    fun _ => handles_erase hlive hc₁ hfd hothers hphase hclosing
  cases hgives with
  | finishes hwaiting =>
    cases hres
    exact herase none
  | throws x hwaiting =>
    cases hres
    exact herase none
  | yields hwaiting =>
    simp only [hc₁] at hres
    have hsuspended : s.frame.suspended = true := by
      have hending := hran.ending
      cases hf : s.frame <;> rw [hf] at hending <;> first | rfl | cases hending
    -- the handler is parked again, on its own routine
    have hparked : Parked t' fd (c.withState s) := by
      refine ⟨⟨n, hfd, hran.masked, id, h.routineId, ?_⟩, hsuspended, hran.timeout.trans htimeout⟩
      rw [hwaiting, Function.update_self]
    have hlive' : LiveOn w₁ t' fun _ => True := by
      refine ⟨hlive.execution, hlive.flat, hlive.outside, ?_, ?_⟩
      · intro fd' c' _ hc'
        by_cases hfd' : fd' = fd
        · subst hfd'
          cases hc₁.symm.trans hc'
          exact hparked
        · exact hlive.parked fd' c' hfd' hc'
      · intro fd₁ fd₂ c₁ c₂ _ _ hc₁' hc₂' hsame
        have hother : ∀ fd' c', fd' ≠ fd → w₁.handler? fd' = some c' →
            c'.routineId ≠ (c.withState s).routineId := by
          intro fd' c' hne hc'
          rw [hothers fd' hne] at hc'
          rw [HandlerEntry.withState, h.routineId]
          exact h.apart fd' c' hne hc'
        by_cases hfd₁ : fd₁ = fd
        · subst hfd₁
          cases hc₁.symm.trans hc₁'
          by_contra hfd₂
          exact hother fd₂ c₂ (fun heq => hfd₂ heq.symm) hc₂' hsame.symm
        · by_cases hfd₂ : fd₂ = fd
          · subst hfd₂
            cases hc₁.symm.trans hc₂'
            exact absurd hsame (hother fd₁ c₁ hfd₁ hc₁')
          · exact hlive.distinct fd₁ fd₂ c₁ c₂ hfd₁ hfd₂ hc₁' hc₂' hsame
    have hnoted := hran.noted hsuspended
    split at hres
    · -- the interests have not changed
      cases hres
      exact ⟨⟨t', hlive'⟩, hothers, hphase, .inr ⟨_, hc₁, hclosing, hnoted, ‹_›⟩⟩
    · split at hres
      · cases hres
        exact ⟨⟨t', hlive'⟩, hothers, hphase, .inr ⟨_, hc₁, hclosing, hnoted, rfl⟩⟩
      · cases hres
        exact herase none

end Worker

end TpAdvanced
