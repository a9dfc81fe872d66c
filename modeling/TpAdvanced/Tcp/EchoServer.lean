import TpAdvanced.Tcp.AsyncServerEntries
import TpAdvanced.Tcp.EchoHandler

/-!
# The asynchronous echo server

`async-echo` runs the handler on an `AsyncServer`.  The end of a stream is read in
`handleRead`, which closes the connection; the handler goes on all the same, and if the call
is for output as well and something is left to write, its `write` throws.  The exception is
caught by `accept`, which closes the connection once more: this throws as well, and `accept`
is left.

## Main definitions

* `EchoServer`, `EchoServer.step` — the server with the handlers of its connections.
* `EchoServerEvent.Benign` — no system call fails.
* `CutsOff` — a call that reads the end of the stream too early.

## Main results

* `call_cases` — what a call of the handler comes to.
* `echo_survives_iff` — **a client ends `accept`** exactly when it ends its stream behind
  bytes that have not come back, in a call that is for output as well.
-/

namespace TpAdvanced

open CText Machine AsyncServer

/-! ### The server with its handlers -/

/-- The events with which the handler is called. -/
def EchoEvent.calledWith : EchoEvent → Option EventsSet
  | .ready events => some events
  | .error events _ => some events
  | _ => none

/-- What the handler does with its connection. -/
def EchoEvent.op : EchoEvent → Option HandlerOp
  | .ready _ => none
  | .error _ a => some (.close a)
  | .read _ | .readAgain | .readFailed => some (.read none)
  | .readEof a => some (.read (some a))
  | .wrote _ | .writeAgain | .writeFailed => some .write

/-- The call is at its end. -/
def EchoFrame.ended : EchoFrame → Bool
  | .outside | .threw => true
  | _ => false

namespace EchoState

/-- A call of the handler, from its events to its end. -/
def call (h : EchoState) (first : EchoEvent) (rest : List EchoEvent) :
    Option (EventsSet × EchoState) :=
  first.calledWith.bind fun events =>
    if rest.all fun e => e.calledWith.isNone then
      ((run step h (first :: rest)).filter fun h' => h'.frame.ended).map (events, ·)
    else none

/-- The call as the server has it. -/
def handlerRun (h' : EchoState) (script : List EchoEvent) : HandlerRun where
  ops := script.filterMap EchoEvent.op ++ [.setInterestsSet h'.interestSet]
  throws := h'.frame == .threw

end EchoState

/-- The server, with the connections of the handler that it has. -/
structure EchoServer where
  server : ServerState
  handlers : ℕ → Option EchoState

/-- What the loop of `accept` gets next. -/
inductive EchoServerEvent
  | accepted (fd : ℕ) (a : RegisterAnswers)
  /-- A call of the handler, whether `epoll_ctl` then succeeds, and what closing the
  connection gives. -/
  | client (fd : ℕ) (first : EchoEvent) (rest : List EchoEvent) (modify : Bool)
      (closing : CloseAnswer)
  | acceptFailed
  | waitFailed
  deriving DecidableEq

namespace EchoServer

/-- The server in `main`. -/
def start : EchoServer where
  server := .serving (.start (.ofList [.in_, .out]))
  handlers := fun _ => none

/-- The handler's part of a connection goes with the entry of the server. -/
def kept (st : ServerState) (fd : ℕ) (h : EchoState) : Option EchoState :=
  match st with
  | .serving s => (s.connections fd).map fun _ => h
  | .exited _ => none

/-- **A step of `accept`.** -/
def step (x : EchoServer) : EchoServerEvent → Option EchoServer
  | .accepted fd a =>
    (x.server.step (.accepted fd a)).map fun st =>
      ⟨st, Function.update x.handlers fd (kept st fd ((x.handlers fd).getD .registered))⟩
  | .client fd first rest modify closing =>
    (x.handlers fd).bind fun h =>
      (h.call first rest).bind fun (events, h') =>
        if calls ⟨some fd, h.interestSet⟩ events then
          (x.server.step
            (.client fd events (h'.handlerRun (first :: rest)) modify closing)).map fun st =>
              ⟨st, Function.update x.handlers fd (kept st fd h')⟩
        else none
  | .acceptFailed => (x.server.step .acceptFailed).map fun st => { x with server := st }
  | .waitFailed => (x.server.step .waitFailed).map fun st => { x with server := st }

end EchoServer

/-! ### Without failures of the system -/

/-- Closing succeeds, and no call fails. -/
def EchoEvent.benign : EchoEvent → Bool
  | .error _ a | .readEof a => a.shutdown && a.close
  | .readFailed | .writeFailed => false
  | _ => true

/-- No system call of the event fails, but for those of the server's own descriptors. -/
def EchoServerEvent.benign : EchoServerEvent → Bool
  | .accepted _ a => a.localSockaddr && a.remoteSockaddr && a.add
  | .client _ first rest modify _ => (first :: rest).all EchoEvent.benign && modify
  | _ => true

/-- The end of the stream is read. -/
def EchoEvent.isEof : EchoEvent → Bool
  | .readEof _ => true
  | _ => false

/-- Bytes are read. -/
def EchoEvent.isRead : EchoEvent → Bool
  | .read _ => true
  | _ => false

/-- **The client is cut off**: in a call for output as well, its stream ends behind bytes that
have not come back. -/
def CutsOff (x : EchoServer) : EchoServerEvent → Prop
  | .client fd first rest _ _ => ∃ h events, x.handlers fd = some h ∧ first = .ready events ∧
      events.contains .out = true ∧ rest.any EchoEvent.isEof = true ∧
      (h.hasPending = true ∨ rest.any EchoEvent.isRead = true)
  | _ => False

/-! ### A call of the handler -/

section Calls

namespace EchoState

variable {s s' : EchoState} {rest : List EchoEvent}

/-- Behind the end of a call there is nothing more of it. -/
theorem run_ended (hended : s.frame.ended = true) (hin : rest.all fun e => e.calledWith.isNone)
    (hrun : run step s rest = some s') : rest = [] ∧ s' = s := by
  cases rest with
  | nil =>
    cases hrun
    exact ⟨rfl, rfl⟩
  | cons e rest =>
    obtain ⟨s₁, hs₁, -⟩ := run_cons_eq_some.mp hrun
    rw [List.all_cons, Bool.and_eq_true] at hin
    have hrule := rule_of_step hs₁
    generalize s.frame = f at hended hrule
    cases hrule with
    | readyIn | readyOut | error => cases hin.1
    | _ => cases hended

/-- `handleWrite`, on an open connection. -/
theorem run_writing (hin : rest.all fun e => e.calledWith.isNone)
    (hbenign : rest.all EchoEvent.benign) : ∀ {s s' : EchoState},
    (∀ events, s.frame ≠ .reading events) → s.frame ≠ .threw → s.opened = true →
      run step s rest = some s' → s'.frame.ended = true →
        rest.any EchoEvent.isEof = false ∧ rest.any EchoEvent.isRead = false ∧
          s'.opened = true ∧ s'.frame = .outside := by
  induction rest with
  | nil =>
    intro s s' _ hthrew hopened hrun hended
    cases hrun
    refine ⟨rfl, rfl, hopened, ?_⟩
    cases hf : s.frame with
    | outside => rfl
    | threw => exact absurd hf hthrew
    | _ =>
      rw [hf] at hended
      cases hended
  | cons e rest ih =>
    intro s s' hleaves hthrew hopened hrun hended
    obtain ⟨s₁, hs₁, hrest⟩ := run_cons_eq_some.mp hrun
    rw [List.all_cons, Bool.and_eq_true] at hin hbenign
    have hnext : ∀ {t : EchoState}, t.opened = true → t.Ends s₁ →
        rest.any EchoEvent.isEof = false ∧ rest.any EchoEvent.isRead = false ∧
          s'.opened = true ∧ s'.frame = .outside := by
      intro t hopened' hends
      refine ih hin.2 hbenign.2 hends.leaves (fun h => ?_) (hends.opened.trans hopened') hrest
        hended
      cases hopened'.symm.trans (hends.threw h)
    have hrule := rule_of_step hs₁
    generalize hf : s.frame = f at hrule
    cases hrule with
    | readyIn | readyOut | error => cases hin.1
    | read | readAgain | readEof | readFailed => exact absurd hf (hleaves _)
    | wrote n hpos hn =>
      exact hnext (t := { s with ctx := s.ctx.wrote n hn }) hopened (ends_continueWrite _)
    | writeAgain => exact hnext hopened (ends_endWrite s)
    | writeFailed => cases hbenign.1

theorem frame_endRead_closed (hclosed : s.opened = false) (events : EventsSet) :
    (s.endRead events).frame =
      if events.contains .out = true ∧ s.hasPending = true then .threw else .outside := by
  have hout : ∀ s : EchoState, s.opened = false → (s.handleOut events).frame =
      if events.contains .out = true ∧ s.hasPending = true then .threw else .outside := by
    intro s hclosed
    unfold handleOut continueWrite
    cases hcontains : events.contains .out with
    | false => rfl
    | true =>
      cases hpending : s.hasPending with
      | true => exact if_neg (Bool.eq_false_iff.mp hclosed)
      | false => rfl
  unfold endRead
  split
  · exact hout { s with interestSet := s.interestSet.add .out } hclosed
  · exact hout s hclosed

theorem hasPending_read {d : Bytes} (hne : d ≠ []) (hroom : d.length ≤ s.ctx.room) :
    EchoState.hasPending { s with ctx := s.ctx.read d hroom } = true := by
  have hpos := List.length_pos_of_ne_nil hne
  have hle := s.ctx.writePos_le
  refine decide_eq_true ?_
  change s.ctx.writePos < s.ctx.readPos + d.length
  omega

/-- `handleRead`. -/
theorem run_reading {events : EventsSet} (hin : rest.all fun e => e.calledWith.isNone)
    (hbenign : rest.all EchoEvent.benign) :
    ∀ {s s' : EchoState}, s.frame = .reading events → s.opened = true →
      run step s rest = some s' → s'.frame.ended = true →
        s'.opened = !rest.any EchoEvent.isEof ∧
          s'.frame = if events.contains .out = true ∧ rest.any EchoEvent.isEof = true ∧
            (s.hasPending = true ∨ rest.any EchoEvent.isRead = true) then .threw else .outside := by
  induction rest with
  | nil =>
    intro s s' hf _ hrun hended
    cases hrun
    rw [hf] at hended
    cases hended
  | cons e rest ih =>
    intro s s' hf hopened hrun hended
    obtain ⟨s₁, hs₁, hrest⟩ := run_cons_eq_some.mp hrun
    rw [List.all_cons, Bool.and_eq_true] at hin hbenign
    have hrule := rule_of_step hs₁
    rw [hf] at hrule
    cases hrule with
    | read events d hne hroom =>
      obtain ⟨hopened', hframe'⟩ := ih hin.2 hbenign.2 (s := { s with ctx := s.ctx.read d hroom })
        hf hopened hrest hended
      refine ⟨hopened', hframe'.trans ?_⟩
      have hread : (EchoEvent.read d :: rest).any EchoEvent.isRead = true := rfl
      rw [hasPending_read hne hroom, hread]
      simp only [true_or, or_true, and_true]
      rfl
    | readAgain events =>
      have hends := ends_endRead s events
      have hthrew : (s.endRead events).frame ≠ .threw := fun h => by
        cases hopened.symm.trans (hends.threw h)
      obtain ⟨heof, hread, hopened', hframe'⟩ := run_writing hin.2 hbenign.2 hends.leaves hthrew
        (hends.opened.trans hopened) hrest hended
      have heof' : (EchoEvent.readAgain :: rest).any EchoEvent.isEof = false := heof
      rw [heof']
      exact ⟨hopened', hframe'.trans (if_neg fun h => nomatch h.2.1).symm⟩
    | readEof events a =>
      have ha : (a.shutdown && a.close) = true := hbenign.1
      unfold close at hrest
      rw [if_pos ha] at hrest
      have hends := ends_endRead { s with opened := false } events
      have hframe := frame_endRead_closed (s := { s with opened := false }) rfl events
      obtain ⟨rfl, rfl⟩ := run_ended (by rw [hframe]; split <;> rfl) hin.2 hrest
      refine ⟨hends.opened, hframe.trans ?_⟩
      simp [EchoEvent.isEof, EchoEvent.isRead, hasPending]
    | readFailed events => cases hbenign.1

/-- **What a call of the handler comes to**, if no system call fails. -/
theorem call_cases {h h' : EchoState} {first : EchoEvent} {events : EventsSet}
    (hf : h.frame = .outside) (hbenign : (first :: rest).all EchoEvent.benign)
    (hcall : h.call first rest = some (events, h')) :
    (rest.all fun e => e.calledWith.isNone) ∧
      ((first = .ready events ∧ h'.opened = !rest.any EchoEvent.isEof ∧
          h'.frame = if events.contains .out = true ∧ rest.any EchoEvent.isEof = true ∧
            (h.hasPending = true ∨ rest.any EchoEvent.isRead = true) then .threw else .outside) ∨
        (first = .error events ⟨true, true⟩ ∧ rest = [] ∧ h'.opened = false ∧
          h'.frame = .outside)) := by
  obtain ⟨events', hevents, hcall⟩ := Option.bind_eq_some_iff.mp hcall
  obtain ⟨hin, hcall⟩ := Option.ite_none_right_eq_some.mp hcall
  obtain ⟨h'', hfilter, heq⟩ := Option.map_eq_some_iff.mp hcall
  cases heq
  obtain ⟨hrun, hended⟩ := Option.filter_eq_some_iff.mp hfilter
  obtain ⟨h₁, hh₁, hrest⟩ := run_cons_eq_some.mp hrun
  rw [List.all_cons, Bool.and_eq_true] at hbenign
  refine ⟨hin, ?_⟩
  have hrule := rule_of_step hh₁
  rw [hf] at hrule
  cases hrule with
  | readyIn events hopened hin' =>
    cases hevents
    exact .inl ⟨rfl, @run_reading rest events hin hbenign.2 { h with frame := .reading events } h'
      rfl hopened hrest hended⟩
  | readyOut events hopened hin' =>
    cases hevents
    have hends := ends_handleOut h events
    have hthrew : (h.handleOut events).frame ≠ .threw := fun ht => by
      cases hopened.symm.trans (hends.threw ht)
    obtain ⟨heof, hread, hopened', hframe'⟩ := run_writing hin hbenign.2 hends.leaves hthrew
      (hends.opened.trans hopened) hrest hended
    rw [heof]
    exact .inl ⟨rfl, hopened', hframe'.trans (if_neg fun h => nomatch h.2.1).symm⟩
  | error events a hopened =>
    cases hevents
    obtain ⟨shutdown, close⟩ := a
    obtain ⟨rfl, rfl⟩ := (Bool.and_eq_true _ _).mp hbenign.1
    obtain ⟨rfl, rfl⟩ := @run_ended { h with ctx := .initial, opened := false } h' rest
      (by rw [hf]; rfl) hin hrest
    exact .inr ⟨rfl, rfl, rfl, hf⟩

end EchoState

end Calls

/-! ### The server's part of a call -/

section Server

variable {fd : ℕ} {c : AsyncConnection} {sockets : Sockets} {rest : List EchoEvent}

/-- On a closed connection the rest of a call does nothing. -/
theorem foldl_ops_closed (hfd : c.fd = none) (rest : List EchoEvent) :
    (rest.filterMap EchoEvent.op).foldl HandlerOp.run (c, sockets) = (c, sockets) := by
  have hclose : ∀ a, (c.close sockets a).2 = (c, sockets) := by
    intro a
    unfold AsyncConnection.close
    rw [hfd]
  induction rest with
  | nil => rfl
  | cons e rest ih =>
    cases e with
    | ready events => exact ih
    | error events a | readEof a =>
      change (rest.filterMap EchoEvent.op).foldl HandlerOp.run (c.close sockets a).2 = _
      rw [hclose]
      exact ih
    | _ => exact ih

theorem close_open (hfd : c.fd = some fd) (hsocket : (sockets fd).isSome = true) :
    (c.close sockets ⟨true, true⟩).2 =
      ({ c with fd := none }, Function.update sockets fd none) := by
  unfold AsyncConnection.close
  rw [hfd]
  dsimp only
  rw [hsocket]
  rfl

/-- The end of the stream closes the connection. -/
theorem foldl_ops (hin : rest.all fun e => e.calledWith.isNone)
    (hbenign : rest.all EchoEvent.benign) (hfd : c.fd = some fd)
    (hsocket : (sockets fd).isSome = true) :
    (rest.filterMap EchoEvent.op).foldl HandlerOp.run (c, sockets) =
      if rest.any EchoEvent.isEof then ({ c with fd := none }, Function.update sockets fd none)
      else (c, sockets) := by
  induction rest with
  | nil => rfl
  | cons e rest ih =>
    rw [List.all_cons, Bool.and_eq_true] at hin hbenign
    cases e with
    | ready events => cases hin.1
    | error events a => cases hin.1
    | readEof a =>
      obtain ⟨shutdown, close⟩ := a
      obtain ⟨rfl, rfl⟩ := (Bool.and_eq_true _ _).mp hbenign.1
      change (rest.filterMap EchoEvent.op).foldl HandlerOp.run (c.close sockets ⟨true, true⟩).2 = _
      rw [close_open hfd hsocket]
      exact foldl_ops_closed rfl rest
    | _ => exact ih hin.2 hbenign.2

variable {s : AsyncServer} {h h' : EchoState} {first : EchoEvent} {events : EventsSet}

/-- The connection and the sockets behind a call of the handler. -/
theorem afterHandler_handlerRun (hf : h.frame = .outside)
    (hbenign : (first :: rest).all EchoEvent.benign) (hcall : h.call first rest = some (events, h'))
    (hsocket : (s.sockets fd).isSome = true)
    (hcalls : calls ⟨some fd, h.interestSet⟩ events = true) :
    s.afterHandler ⟨some fd, h.interestSet⟩ events (h'.handlerRun (first :: rest)) =
      if h'.opened then (⟨some fd, h'.interestSet⟩, s.sockets)
      else (⟨none, h'.interestSet⟩, Function.update s.sockets fd none) := by
  have hset : ∀ (ops : List HandlerOp) (c : AsyncConnection) (sockets : Sockets),
      ops.foldl HandlerOp.run (⟨some fd, h.interestSet⟩, s.sockets) = (c, sockets) →
        s.afterHandler ⟨some fd, h.interestSet⟩ events
          ⟨ops ++ [.setInterestsSet h'.interestSet], h'.frame == .threw⟩ =
            ({ c with interestSet := h'.interestSet }, sockets) := by
    intro ops c sockets hops
    rw [afterHandler, if_pos hcalls, List.foldl_append, hops]
    rfl
  obtain ⟨hin, ⟨rfl, hopened, -⟩ | ⟨rfl, rfl, hopened, -⟩⟩ := EchoState.call_cases hf hbenign hcall
  · have hops := foldl_ops (c := ⟨some fd, h.interestSet⟩) hin hbenign rfl hsocket
    rw [hopened]
    cases heof : rest.any EchoEvent.isEof with
    | true =>
      rw [if_pos heof] at hops
      exact hset _ _ _ hops
    | false =>
      rw [if_neg (Bool.eq_false_iff.mp heof)] at hops
      exact hset _ _ _ hops
  · rw [hopened]
    exact hset [.close ⟨true, true⟩] _ _
      (close_open (c := ⟨some fd, h.interestSet⟩) rfl hsocket)

/-- `handleEvent` behind the call of the handler. -/
theorem handleEvent_eq {c' : AsyncConnection} {handler : HandlerRun} {modify : Bool}
    (hc : s.connections fd = some c) (hcalls : calls c events = true)
    (hafter : s.afterHandler c events handler = (c', sockets)) :
    s.handleEvent fd events handler modify =
      let s' := { s with connections := Function.update s.connections fd (some c'), sockets }
      if handler.throws then .error s'
      else if c'.fd.isNone then
        .ok { s' with connections := Function.update s'.connections fd none }
      else if !(c'.interestSet.diff c.interestSet).empty then
        s'.modifyInterests fd c'.interestSet modify
      else .ok s' := by
  unfold handleEvent
  rw [hc]
  dsimp only
  rw [hafter, hcalls]
  rfl

/-- **A call of the handler in the server.** -/
theorem step_client (hc : s.connections fd = some ⟨some fd, h.interestSet⟩)
    (hsocket : s.sockets fd = some ⟨some h.interestSet⟩) (hf : h.frame = .outside)
    (hbenign : (first :: rest).all EchoEvent.benign) (hcall : h.call first rest = some (events, h'))
    (hcalls : calls ⟨some fd, h.interestSet⟩ events = true) (closing : CloseAnswer) :
    ServerState.step (.serving s) (.client fd events (h'.handlerRun (first :: rest)) true closing) =
      some (if h'.frame = .threw then .exited .client
        else if h'.opened then .serving { s with
          connections := Function.update s.connections fd (some ⟨some fd, h'.interestSet⟩)
          sockets := Function.update s.sockets fd (some ⟨some h'.interestSet⟩) }
        else .serving { s with
          connections := Function.update s.connections fd none
          sockets := Function.update s.sockets fd none }) := by
  have hafter := @afterHandler_handlerRun fd rest s h h' first events hf hbenign hcall
    (by rw [hsocket]; rfl) hcalls
  have hthrew : h'.frame = .threw → h'.opened = false := by
    intro hthrew
    obtain ⟨-, ⟨rfl, hopened, hframe⟩ | ⟨rfl, rfl, hopened, -⟩⟩ :=
      EchoState.call_cases hf hbenign hcall
    · by_cases hcut : events.contains .out = true ∧ rest.any EchoEvent.isEof = true ∧
        (h.hasPending = true ∨ rest.any EchoEvent.isRead = true)
      · rw [hopened, hcut.2.1]
        rfl
      · rw [if_neg hcut, hthrew] at hframe
        cases hframe
    · exact hopened
  rw [ServerState.step]
  cases hopened : h'.opened with
  | true =>
    have hframe : h'.frame ≠ .threw := fun hframe => by
      cases hopened.symm.trans (hthrew hframe)
    have hthrows : (h'.handlerRun (first :: rest)).throws = false := beq_eq_false_iff_ne.mpr hframe
    rw [hopened, if_pos rfl] at hafter
    rw [handleEvent_eq hc hcalls hafter, hthrows, if_neg hframe]
    cases hdiff : (h'.interestSet.diff h.interestSet).empty with
    | true =>
      -- the registration is the same
      have hsame : Function.update s.sockets fd (some ⟨some h'.interestSet⟩) = s.sockets := by
        rw [(empty_diff_iff _ _).mp hdiff, ← hsocket, Function.update_eq_self]
      simp [hsame]
    | false => simp [modifyInterests, hsocket]
  | false =>
    rw [hopened, if_neg Bool.false_ne_true] at hafter
    rw [handleEvent_eq hc hcalls hafter]
    by_cases hframe : h'.frame = .threw
    · -- the connection is closed once more
      have hthrows : (h'.handlerRun (first :: rest)).throws = true := beq_iff_eq.mpr hframe
      rw [hthrows, if_pos hframe]
      dsimp only
      rw [if_pos rfl]
      dsimp only
      rw [closeConnection]
      simp [AsyncConnection.close]
    · have hthrows : (h'.handlerRun (first :: rest)).throws = false :=
        beq_eq_false_iff_ne.mpr hframe
      rw [hthrows, if_neg hframe]
      simp

end Server

/-! ### Runs -/

/-- The handlers are those of the registered connections, and wait. -/
structure Attends (s : AsyncServer) (handlers : ℕ → Option EchoState) : Prop where
  default : s.defaultInterestsSet = .ofList [.in_, .out]
  unknown : ∀ fd, handlers fd = none → s.connections fd = none
  known : ∀ fd h, handlers fd = some h → h.frame = .outside ∧
    s.connections fd = some ⟨some fd, h.interestSet⟩ ∧ s.sockets fd = some ⟨some h.interestSet⟩

theorem attends_start : Attends (.start (.ofList [.in_, .out])) fun _ => none :=
  ⟨rfl, fun _ _ => rfl, nofun⟩

section Runs

variable {s s' : AsyncServer} {handlers : ℕ → Option EchoState} {fd : ℕ} {x x' : EchoServer}
  {e : EchoServerEvent}

/-- A connection that goes on. -/
theorem Attends.update (h : Attends s handlers) (fd : ℕ) {c : EchoState} (hf : c.frame = .outside) :
    Attends { s with
      connections := Function.update s.connections fd (some ⟨some fd, c.interestSet⟩)
      sockets := Function.update s.sockets fd (some ⟨some c.interestSet⟩) }
      (Function.update handlers fd (some c)) := by
  refine ⟨h.default, fun fd' hnone => ?_, fun fd' c' hc' => ?_⟩
  · by_cases hfd : fd' = fd
    · rw [hfd, Function.update_self] at hnone
      cases hnone
    · rw [Function.update_of_ne hfd] at hnone
      exact (Function.update_of_ne hfd _ _).trans (h.unknown fd' hnone)
  · by_cases hfd : fd' = fd
    · subst hfd
      rw [Function.update_self] at hc'
      cases hc'
      exact ⟨hf, Function.update_self .., Function.update_self ..⟩
    · rw [Function.update_of_ne hfd] at hc'
      obtain ⟨hf', hc, hs⟩ := h.known fd' c' hc'
      exact ⟨hf', (Function.update_of_ne hfd _ _).trans hc,
        (Function.update_of_ne hfd _ _).trans hs⟩

/-- A connection that is gone. -/
theorem Attends.erase (h : Attends s handlers) (fd : ℕ) :
    Attends { s with
      connections := Function.update s.connections fd none
      sockets := Function.update s.sockets fd none } (Function.update handlers fd none) := by
  refine ⟨h.default, fun fd' hnone => ?_, fun fd' c' hc' => ?_⟩
  · by_cases hfd : fd' = fd
    · rw [hfd]
      exact Function.update_self ..
    · rw [Function.update_of_ne hfd] at hnone
      exact (Function.update_of_ne hfd _ _).trans (h.unknown fd' hnone)
  · by_cases hfd : fd' = fd
    · rw [hfd, Function.update_self] at hc'
      cases hc'
    · rw [Function.update_of_ne hfd] at hc'
      obtain ⟨hf', hc, hs⟩ := h.known fd' c' hc'
      exact ⟨hf', (Function.update_of_ne hfd _ _).trans hc,
        (Function.update_of_ne hfd _ _).trans hs⟩

/-- A client is cut off by a call that throws. -/
theorem cutsOff_iff {c c' : EchoState} {first : EchoEvent} {rest : List EchoEvent}
    {events : EventsSet} {closing : CloseAnswer} {modify : Bool} (hc : x.handlers fd = some c)
    (hf : c.frame = .outside) (hbenign : (first :: rest).all EchoEvent.benign)
    (hcall : c.call first rest = some (events, c')) :
    (CutsOff x (.client fd first rest modify closing) ↔ c'.frame = .threw) ∧
      (c'.frame = .threw ∨ c'.frame = .outside) := by
  obtain ⟨-, ⟨rfl, -, hframe⟩ | ⟨rfl, rfl, -, hframe⟩⟩ := EchoState.call_cases hf hbenign hcall
  · by_cases hcut : events.contains .out = true ∧ rest.any EchoEvent.isEof = true ∧
      (c.hasPending = true ∨ rest.any EchoEvent.isRead = true)
    · rw [if_pos hcut] at hframe
      exact ⟨iff_of_true ⟨c, events, hc, rfl, hcut⟩ hframe, .inl hframe⟩
    · rw [if_neg hcut] at hframe
      refine ⟨iff_of_false ?_ (by rw [hframe]; exact nofun), .inr hframe⟩
      rintro ⟨c₁, events₁, hc₁, ⟨⟩, hcut₁⟩
      cases hc.symm.trans hc₁
      exact hcut hcut₁
  · refine ⟨iff_of_false ?_ (by rw [hframe]; exact nofun), .inr hframe⟩
    rintro ⟨c₁, events₁, -, ⟨⟩, -⟩

/-- **A step of the server**, if no system call fails: it cuts a client off and is exited, or
it goes on, or its own descriptors have failed. -/
theorem echo_step_cases (hserver : x.server = .serving s) (h : Attends s x.handlers)
    (hbenign : e.benign = true) (hstep : x.step e = some x') :
    (x'.server = .exited .client ∧ CutsOff x e) ∨ (¬ CutsOff x e ∧
      (x'.server = .exited .server ∨ ∃ s', x'.server = .serving s' ∧ Attends s' x'.handlers)) := by
  obtain ⟨server, handlers⟩ := x
  subst hserver
  cases e with
  | accepted fd a =>
    obtain ⟨st, hst, rfl⟩ := Option.map_eq_some_iff.mp hstep
    obtain ⟨hfree, hst⟩ := Option.ite_none_right_eq_some.mp hst
    refine .inr ⟨id, .inr ?_⟩
    -- a free descriptor has no connection
    have hnone : handlers fd = none := by
      cases hc : handlers fd with
      | none => rfl
      | some c =>
        rw [(h.known fd c hc).2.2] at hfree
        cases hfree
    have ha : (a.localSockaddr && a.remoteSockaddr && a.add) = true := hbenign
    unfold registerConnection at hst
    rw [if_pos ha, h.unknown fd hnone] at hst
    cases hst
    refine ⟨_, rfl, ?_⟩
    have hkept := h.update fd (c := .registered) rfl
    have hset : s.defaultInterestsSet = EchoState.registered.interestSet := h.default
    dsimp only [EchoServer.kept]
    rw [hset] at hkept ⊢
    rw [hnone, Function.update_self]
    exact hkept
  | client fd first rest modify closing =>
    obtain ⟨hall, rfl⟩ := (Bool.and_eq_true _ _).mp hbenign
    obtain ⟨c, hc, hstep⟩ := Option.bind_eq_some_iff.mp hstep
    obtain ⟨⟨events, c'⟩, hcall, hstep⟩ := Option.bind_eq_some_iff.mp hstep
    obtain ⟨hcalls, hstep⟩ := Option.ite_none_right_eq_some.mp hstep
    obtain ⟨st, hst, rfl⟩ := Option.map_eq_some_iff.mp hstep
    obtain ⟨hf, hentry, hsocket⟩ := h.known fd c hc
    rw [step_client hentry hsocket hf hall hcall hcalls closing] at hst
    cases hst
    obtain ⟨hcut, hframe⟩ := @cutsOff_iff fd ⟨.serving s, handlers⟩ c c' first rest events closing
      true hc hf hall hcall
    by_cases hthrew : c'.frame = .threw
    · exact .inl ⟨if_pos hthrew, hcut.mpr hthrew⟩
    · refine .inr ⟨mt hcut.mp hthrew, .inr ?_⟩
      rw [if_neg hthrew]
      cases hopened : c'.opened with
      | true =>
        refine ⟨_, rfl, ?_⟩
        have hkept := h.update fd (hframe.resolve_left hthrew)
        dsimp only [EchoServer.kept]
        rw [if_pos rfl]
        dsimp only
        rw [Function.update_self]
        exact hkept
      | false =>
        refine ⟨_, rfl, ?_⟩
        have hkept := h.erase fd
        dsimp only [EchoServer.kept]
        rw [if_neg nofun]
        dsimp only
        rw [Function.update_self]
        exact hkept
  | acceptFailed =>
    cases hstep
    exact .inr ⟨id, .inl rfl⟩
  | waitFailed =>
    cases hstep
    exact .inr ⟨id, .inl rfl⟩

theorem run_exitedServer {cause : ExitCause} {events : List EchoServerEvent}
    (hserver : x.server = .exited cause) (hrun : run EchoServer.step x events = some x') :
    events = [] ∧ x' = x := by
  cases events with
  | nil =>
    cases hrun
    exact ⟨rfl, rfl⟩
  | cons e events =>
    obtain ⟨x₁, hx₁, -⟩ := run_cons_eq_some.mp hrun
    obtain ⟨server, handlers⟩ := x
    subst hserver
    cases e with
    | accepted | acceptFailed | waitFailed => cases hx₁
    | client fd first rest modify closing =>
      obtain ⟨c, -, hx₁⟩ := Option.bind_eq_some_iff.mp hx₁
      obtain ⟨⟨events', c'⟩, -, hx₁⟩ := Option.bind_eq_some_iff.mp hx₁
      obtain ⟨-, hx₁⟩ := Option.ite_none_right_eq_some.mp hx₁
      cases hx₁

theorem survives_iff {events : List EchoServerEvent} (hserver : x.server = .serving s)
    (h : Attends s x.handlers) (hbenign : ∀ e ∈ events, e.benign = true)
    (hrun : run EchoServer.step x events = some x') :
    x'.server ≠ .exited .client ↔ Along EchoServer.step (fun x e _ => ¬ CutsOff x e) x events := by
  induction events generalizing x s with
  | nil =>
    cases hrun
    exact iff_of_true (by rw [hserver]; exact nofun) trivial
  | cons e events ih =>
    obtain ⟨x₁, hx₁, hrest⟩ := run_cons_eq_some.mp hrun
    rw [along_cons_of_some hx₁]
    rcases echo_step_cases hserver h (hbenign e List.mem_cons_self) hx₁ with
      ⟨hexit, hcut⟩ | ⟨hcut, hexit | ⟨s₁, hs₁, h₁⟩⟩
    · obtain ⟨-, rfl⟩ := run_exitedServer hexit hrest
      exact iff_of_false (fun hne => hne hexit) fun hboth => hboth.1 hcut
    · obtain ⟨rfl, rfl⟩ := run_exitedServer hexit hrest
      exact iff_of_true (by rw [hexit]; exact nofun) ⟨hcut, trivial⟩
    · rw [ih hs₁ h₁ (fun e he => hbenign e (List.mem_cons_of_mem _ he)) hrest]
      exact (and_iff_right hcut).symm

/-- **A client ends `accept`** exactly when it is cut off: in a call that is for output as
well, its stream ends behind bytes that have not come back.  No system call fails, but maybe
those on the server's own descriptors. -/
theorem echo_survives_iff {events : List EchoServerEvent} {x : EchoServer}
    (hrun : run EchoServer.step .start events = some x)
    (hbenign : ∀ e ∈ events, e.benign = true) :
    x.server ≠ .exited .client ↔
      Along EchoServer.step (fun x e _ => ¬ CutsOff x e) .start events :=
  survives_iff rfl attends_start hbenign hrun

end Runs

/-- A client sends two bytes and ends its stream at once. -/
def sendAndShutdown : List EchoServerEvent :=
  [.accepted 5 ⟨true, true, true, ⟨true, true⟩⟩,
    .client 5 (.ready (.ofList [.in_, .out])) [.read (ascii "hi"), .readEof ⟨true, true⟩] true
      ⟨true, true⟩]

theorem echo_survives_iff_shutdown :
    ∃ x, run EchoServer.step .start sendAndShutdown = some x ∧ x.server = .exited .client := by
  have hsome : (run EchoServer.step .start sendAndShutdown).isSome = true := by decide +kernel
  obtain ⟨x, hrun⟩ := Option.isSome_iff_exists.mp hsome
  refine ⟨x, hrun, ?_⟩
  by_contra hserver
  obtain ⟨-, hrest⟩ := (echo_survives_iff hrun (by decide)).mp hserver
  exact (hrest _ rfl).1 ⟨.registered, .ofList [.in_, .out], rfl, rfl, by decide, rfl, .inr rfl⟩

end TpAdvanced
