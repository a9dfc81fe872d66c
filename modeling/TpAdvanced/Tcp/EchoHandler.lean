import TpAdvanced.Lib.CText
import TpAdvanced.Lib.Machine
import TpAdvanced.Tcp.AsyncServer

/-!
# The handler of the asynchronous echo server

The handler of `async-echo` keeps a `Context` for each connection: what it has read, and how
much of it has been written back.  A call reads until there is nothing more, writes until
there is no room, and is interested in output as long as something is left to write.  The
model cuts a call at its calls to `read` and `write`.

## Main definitions

* `Context` — the buffer of a connection and the positions in it.
* `EchoFrame`, `EchoEvent`, `EchoState.step` — `Handler::operator()` for one connection.
* `EchoState.Rule` — what its steps can do, rule by rule.
* `EchoState.Ends` — what it does behind its loops.
* `EchoState.Fits` — what is left to write is waited for.

## Main results

* `fits_step` — **a step of the handler.**
-/

namespace TpAdvanced

open CText Machine

/-! ### The context of a connection -/

/-- `Context`.  There is always room behind what has been read. -/
structure Context where
  readBuffer : Bytes
  readPos : ℕ
  writePos : ℕ
  writePos_le : writePos ≤ readPos
  readPos_lt : readPos < readBuffer.length
  deriving DecidableEq, Repr

namespace Context

theorem lt_length_initial : 0 < (List.replicate 256 (0 : UInt8)).length := by
  rw [List.length_replicate]
  decide

/-- A new context. -/
def initial : Context where
  readBuffer := List.replicate 256 0
  readPos := 0
  writePos := 0
  writePos_le := Nat.le_refl 0
  readPos_lt := lt_length_initial

/-- The room for a `read`. -/
def room (ctx : Context) : ℕ := ctx.readBuffer.length - ctx.readPos

/-- What has been read. -/
def received (ctx : Context) : Bytes := ctx.readBuffer.take ctx.readPos

/-- What has been written back. -/
def written (ctx : Context) : Bytes := ctx.received.take ctx.writePos

/-- What has been read and is to be written. -/
def pending (ctx : Context) : Bytes := ctx.received.drop ctx.writePos

/-- The buffer with `d` stored at `readPos`; a full one is doubled. -/
def stored (ctx : Context) (d : Bytes) : Bytes :=
  let buffer := ctx.readBuffer.take ctx.readPos ++ d ++
    ctx.readBuffer.drop (ctx.readPos + d.length)
  if buffer.length = ctx.readPos + d.length then
    buffer ++ List.replicate buffer.length 0
  else buffer

theorem length_stored (ctx : Context) {d : Bytes} (h : d.length ≤ ctx.room) :
    ctx.readPos + d.length < (ctx.stored d).length := by
  have hlt := ctx.readPos_lt
  have hlen : (ctx.readBuffer.take ctx.readPos ++ d ++
      ctx.readBuffer.drop (ctx.readPos + d.length)).length = ctx.readBuffer.length := by
    rw [room] at h
    simp only [List.length_append, List.length_take, List.length_drop]
    omega
  rw [room] at h
  unfold stored
  dsimp only
  split
  · rename_i hfull
    rw [List.length_append, List.length_replicate]
    omega
  · rename_i hroom
    omega

/-- `read` has stored `d`. -/
def read (ctx : Context) (d : Bytes) (h : d.length ≤ ctx.room) : Context where
  readBuffer := ctx.stored d
  readPos := ctx.readPos + d.length
  writePos := ctx.writePos
  writePos_le := Nat.le_add_right_of_le ctx.writePos_le
  readPos_lt := ctx.length_stored h

/-- `write` has taken `n` bytes. -/
def wrote (ctx : Context) (n : ℕ) (h : n ≤ ctx.pending.length) : Context where
  readBuffer := ctx.readBuffer
  readPos := ctx.readPos
  writePos := ctx.writePos + n
  writePos_le := by
    have hle := ctx.writePos_le
    have hlt := ctx.readPos_lt
    simp only [pending, received, List.length_drop, List.length_take] at h
    omega
  readPos_lt := ctx.readPos_lt

variable {ctx : Context}

theorem length_received (ctx : Context) : ctx.received.length = ctx.readPos := by
  rw [received, List.length_take, Nat.min_eq_left ctx.readPos_lt.le]

theorem length_pending (ctx : Context) : ctx.pending.length = ctx.readPos - ctx.writePos := by
  rw [pending, List.length_drop, length_received]

/-- Behind a `read` the new bytes follow those received before. -/
@[simp] theorem received_read {d : Bytes} (h : d.length ≤ ctx.room) :
    (ctx.read d h).received = ctx.received ++ d := by
  have hlen : (ctx.received ++ d).length = ctx.readPos + d.length := by
    rw [List.length_append, length_received]
  have hprefix : ctx.received ++ d <+: ctx.stored d := by
    unfold stored
    dsimp only
    split
    · exact (List.prefix_append _ _).trans (List.prefix_append _ _)
    · exact List.prefix_append _ _
  change (ctx.stored d).take (ctx.readPos + d.length) = _
  rw [← hlen]
  exact (List.prefix_iff_eq_take.mp hprefix).symm

@[simp] theorem received_wrote {n : ℕ} (h : n ≤ ctx.pending.length) :
    (ctx.wrote n h).received = ctx.received := rfl

@[simp] theorem written_read {d : Bytes} (h : d.length ≤ ctx.room) :
    (ctx.read d h).written = ctx.written := by
  have hle : ctx.writePos ≤ ctx.received.length := ctx.length_received ▸ ctx.writePos_le
  rw [written, received_read]
  exact List.take_append_of_le_length hle

@[simp] theorem written_wrote {n : ℕ} (h : n ≤ ctx.pending.length) :
    (ctx.wrote n h).written = ctx.written ++ ctx.pending.take n := by
  rw [written, received_wrote, written, pending]
  exact List.take_add

/-- What is left of what has been received. -/
theorem written_append_pending (ctx : Context) : ctx.written ++ ctx.pending = ctx.received :=
  List.take_append_drop _ _

theorem pending_read {d : Bytes} (h : d.length ≤ ctx.room) :
    (ctx.read d h).pending = ctx.pending ++ d := by
  have hle : ctx.writePos ≤ ctx.received.length := ctx.length_received ▸ ctx.writePos_le
  rw [pending, received_read]
  exact List.drop_append_of_le_length hle

theorem pending_wrote {n : ℕ} (h : n ≤ ctx.pending.length) :
    (ctx.wrote n h).pending = ctx.pending.drop n := by
  rw [pending, received_wrote, pending, List.drop_drop]
  rfl

end Context

/-! ### `operator()` -/

/-- Where a call of the handler stands. -/
inductive EchoFrame
  /-- Between two calls. -/
  | outside
  /-- At the `read` in `handleRead`, called with these events. -/
  | reading (events : EventsSet)
  /-- At the `write` in `handleWrite`. -/
  | writing
  | threw
  deriving DecidableEq, Repr

/-- What the handler gets where it stands. -/
inductive EchoEvent
  /-- It is called with these events, and none of them is an error. -/
  | ready (events : EventsSet)
  /-- It is called with an error, and closes the connection. -/
  | error (events : EventsSet) (a : CloseAnswer)
  /-- `read` stored these bytes. -/
  | read (d : Bytes)
  | readAgain
  /-- The end of the stream: `read` closes the connection. -/
  | readEof (a : CloseAnswer)
  | readFailed
  /-- `write` took this many bytes. -/
  | wrote (n : ℕ)
  | writeAgain
  | writeFailed
  deriving DecidableEq, Repr

/-- A connection with its context, and where the handler stands. -/
structure EchoState where
  ctx : Context := .initial
  interestSet : EventsSet
  opened : Bool := true
  frame : EchoFrame := .outside
  deriving DecidableEq, Repr

namespace EchoState

/-- A connection that has been accepted. -/
def registered : EchoState where
  interestSet := .ofList [.in_, .out]

/-- Something is left to write. -/
def hasPending (s : EchoState) : Bool := s.ctx.writePos < s.ctx.readPos

/-- Output is of no more interest when everything is written. -/
def subOut (s : EchoState) : EchoState :=
  if s.hasPending then s else { s with interestSet := s.interestSet.sub .out }

/-- The end of `operator()`. -/
def finish (s : EchoState) : EchoState := { s.subOut with frame := .outside }

/-- The end of `handleWrite`. -/
def endWrite (s : EchoState) : EchoState := s.subOut.finish

/-- The head of the loop in `handleWrite`.  A `write` on a closed connection throws. -/
def continueWrite (s : EchoState) : EchoState :=
  if s.hasPending then { s with frame := if s.opened then .writing else .threw } else s.endWrite

/-- `operator()` behind `handleRead`. -/
def handleOut (s : EchoState) (events : EventsSet) : EchoState :=
  if events.contains .out then s.continueWrite else s.finish

/-- The end of `handleRead`. -/
def endRead (s : EchoState) (events : EventsSet) : EchoState :=
  handleOut (if s.hasPending then { s with interestSet := s.interestSet.add .out } else s) events

/-- The connection is closed, or `close` throws. -/
def close (s : EchoState) (a : CloseAnswer) (next : EchoState → EchoState) : EchoState :=
  if a.shutdown && a.close then next { s with opened := false } else { s with frame := .threw }

/-- **A step of the handler**, from one of its calls to the next. -/
def step (s : EchoState) (e : EchoEvent) : Option EchoState :=
  match s.frame, e with
  | .outside, .ready events =>
    if s.opened && !events.contains .err then
      some (if events.contains .in_ then { s with frame := .reading events }
        else s.handleOut events)
    else none
  | .outside, .error events a =>
    if s.opened && events.contains .err then some ({ s with ctx := .initial }.close a id) else none
  | .reading _, .read d =>
    if h : d ≠ [] ∧ d.length ≤ s.ctx.room then some { s with ctx := s.ctx.read d h.2 } else none
  | .reading events, .readAgain => some (s.endRead events)
  | .reading events, .readEof a => some (s.close a fun s => s.endRead events)
  | .reading _, .readFailed => some { s with frame := .threw }
  | .writing, .wrote n =>
    if h : 0 < n ∧ n ≤ s.ctx.pending.length then
      some { s with ctx := s.ctx.wrote n h.2 }.continueWrite
    else none
  | .writing, .writeAgain => some s.endWrite
  | .writing, .writeFailed => some { s with frame := .threw }
  | _, _ => none

/-- **What a step can do.** -/
inductive Rule (s : EchoState) : EchoFrame → EchoEvent → EchoState → Prop
  | readyIn (events : EventsSet) (hopened : s.opened = true) (hin : events.contains .in_ = true) :
      Rule s .outside (.ready events) { s with frame := .reading events }
  | readyOut (events : EventsSet) (hopened : s.opened = true)
      (hin : events.contains .in_ = false) :
      Rule s .outside (.ready events) (s.handleOut events)
  | error (events : EventsSet) (a : CloseAnswer) (hopened : s.opened = true) :
      Rule s .outside (.error events a) ({ s with ctx := .initial }.close a id)
  | read (events : EventsSet) (d : Bytes) (hne : d ≠ []) (hroom : d.length ≤ s.ctx.room) :
      Rule s (.reading events) (.read d) { s with ctx := s.ctx.read d hroom }
  | readAgain (events : EventsSet) : Rule s (.reading events) .readAgain (s.endRead events)
  | readEof (events : EventsSet) (a : CloseAnswer) :
      Rule s (.reading events) (.readEof a) (s.close a fun s => s.endRead events)
  | readFailed (events : EventsSet) :
      Rule s (.reading events) .readFailed { s with frame := .threw }
  | wrote (n : ℕ) (hpos : 0 < n) (hn : n ≤ s.ctx.pending.length) :
      Rule s .writing (.wrote n) { s with ctx := s.ctx.wrote n hn }.continueWrite
  | writeAgain : Rule s .writing .writeAgain s.endWrite
  | writeFailed : Rule s .writing .writeFailed { s with frame := .threw }

theorem rule_of_step {s s' : EchoState} {e : EchoEvent} (h : s.step e = some s') :
    s.Rule s.frame e s' := by
  obtain ⟨ctx, set, opened, f⟩ := s
  cases f with
  | outside =>
    cases e with
    | ready events =>
      obtain ⟨hc, h⟩ := Option.ite_none_right_eq_some.mp h
      obtain ⟨hopened, -⟩ := (Bool.and_eq_true _ _).mp hc
      cases h
      split
      · exact .readyIn events hopened ‹_›
      · exact .readyOut events hopened (Bool.eq_false_of_not_eq_true ‹_›)
    | error events a =>
      obtain ⟨hc, h⟩ := Option.ite_none_right_eq_some.mp h
      cases h
      exact .error events a ((Bool.and_eq_true _ _).mp hc).1
    | _ => cases h
  | reading events =>
    cases e with
    | read d =>
      obtain ⟨hd, h⟩ := Option.dite_none_right_eq_some.mp h
      cases h
      exact .read events d hd.1 hd.2
    | readAgain =>
      cases h
      exact .readAgain events
    | readEof a =>
      cases h
      exact .readEof events a
    | readFailed =>
      cases h
      exact .readFailed events
    | _ => cases h
  | writing =>
    cases e with
    | wrote n =>
      obtain ⟨hn, h⟩ := Option.dite_none_right_eq_some.mp h
      cases h
      exact .wrote n hn.1 hn.2
    | writeAgain =>
      cases h
      exact .writeAgain
    | writeFailed =>
      cases h
      exact .writeFailed
    | _ => cases h
  | threw => cases h

/-! ### The ends of its loops -/

/-- What the handler does behind a loop: it leaves the context and the connection alone, and
throws only if the connection is closed. -/
structure Ends (s s' : EchoState) : Prop where
  ctx : s'.ctx = s.ctx
  opened : s'.opened = s.opened
  threw : s'.frame = .threw → s.opened = false
  /-- It does not read. -/
  leaves : ∀ events, s'.frame ≠ .reading events

section Ends

variable (s : EchoState) (events : EventsSet)

theorem ends_finish : s.Ends s.finish := by
  unfold finish subOut
  split <;> exact ⟨rfl, rfl, nofun, nofun⟩

theorem ends_endWrite : s.Ends s.endWrite := by
  have hsub : s.subOut.ctx = s.ctx ∧ s.subOut.opened = s.opened := by
    unfold subOut
    split <;> exact ⟨rfl, rfl⟩
  obtain ⟨hctx, hopened, hthrew, hleaves⟩ := ends_finish s.subOut
  exact ⟨hctx.trans hsub.1, hopened.trans hsub.2, fun h => hsub.2.symm.trans (hthrew h), hleaves⟩

theorem ends_continueWrite : s.Ends s.continueWrite := by
  unfold continueWrite
  split
  · cases hopened : s.opened with
    | true => exact ⟨rfl, hopened.symm, nofun, nofun⟩
    | false => exact ⟨rfl, hopened.symm, fun _ => hopened, nofun⟩
  · exact ends_endWrite s

theorem ends_handleOut : s.Ends (s.handleOut events) := by
  unfold handleOut
  split
  · exact ends_continueWrite s
  · exact ends_finish s

theorem ends_endRead : s.Ends (s.endRead events) := by
  unfold endRead
  split
  · obtain ⟨hctx, hopened, hthrew, hleaves⟩ :=
      ends_handleOut { s with interestSet := s.interestSet.add .out } events
    exact ⟨hctx, hopened, hthrew, hleaves⟩
  · exact ends_handleOut s events

end Ends

/-! ### What is left to write -/

/-- A connection is interested in input, and maybe in output. -/
def Interested (s : EchoState) : Prop :=
  s.interestSet = .ofList [.in_] ∨ s.interestSet = .ofList [.in_, .out]

/-- Also in output, if something is left to write. -/
structure Awaits (s : EchoState) : Prop where
  set : s.Interested
  out : s.hasPending = true → s.interestSet = .ofList [.in_, .out]

/-- **What is left to write is waited for**, at the end of a call and in `handleWrite`. -/
structure Fits (s : EchoState) : Prop where
  set : s.Interested
  awaits : s.frame = .outside ∨ s.frame = .writing → s.Awaits
  /-- `write` is called for something. -/
  writes : s.frame = .writing → s.hasPending = true
  /-- `read` and `write` are called on an open connection. -/
  opened : (∃ events, s.frame = .reading events) ∨ s.frame = .writing → s.opened = true

variable {s s' : EchoState} {e : EchoEvent}

theorem fits_registered : registered.Fits where
  set := .inr rfl
  awaits _ := ⟨.inr rfl, fun _ => rfl⟩
  writes := nofun
  opened := by
    rintro (⟨events, ⟨⟩⟩ | ⟨⟨⟩⟩)

theorem Fits.threw (h : s.Interested) : Fits { s with frame := .threw } where
  set := h
  awaits := by
    rintro (⟨⟨⟩⟩ | ⟨⟨⟩⟩)
  writes := nofun
  opened := by
    rintro (⟨events, ⟨⟩⟩ | ⟨⟨⟩⟩)

theorem Awaits.subOut (h : s.Awaits) : s.subOut.Awaits := by
  unfold EchoState.subOut
  split
  · exact h
  · rename_i hnone
    refine ⟨.inl ?_, fun hpending => absurd hpending hnone⟩
    rcases h.set with hset | hset
    · change s.interestSet.sub .out = _
      rw [hset]
      decide
    · change s.interestSet.sub .out = _
      rw [hset]
      decide

theorem Awaits.finish (h : s.Awaits) : s.finish.Fits where
  set := h.subOut.set
  awaits _ := ⟨h.subOut.set, h.subOut.out⟩
  writes := nofun
  opened := by
    rintro (⟨events, ⟨⟩⟩ | ⟨⟨⟩⟩)

theorem Awaits.continueWrite (h : s.Awaits) : s.continueWrite.Fits := by
  unfold EchoState.continueWrite
  split
  · rename_i hpending
    split
    · rename_i hopened
      exact ⟨h.set, fun _ => ⟨h.set, h.out⟩, fun _ => hpending, fun _ => hopened⟩
    · exact .threw h.set
  · exact h.subOut.finish

theorem Awaits.handleOut (h : s.Awaits) (events : EventsSet) : (s.handleOut events).Fits := by
  unfold EchoState.handleOut
  split
  · exact h.continueWrite
  · exact h.finish

/-- What has been read is to be written. -/
theorem Interested.endRead (h : s.Interested) (events : EventsSet) : (s.endRead events).Fits := by
  unfold EchoState.endRead
  split
  · refine Awaits.handleOut ⟨.inr ?_, fun _ => ?_⟩ events
    all_goals
      change s.interestSet.add .out = _
      rcases h with hset | hset
      · rw [hset]
        decide
      · rw [hset]
        decide
  · rename_i hnone
    exact Awaits.handleOut ⟨h, fun hpending => absurd hpending hnone⟩ events

theorem Interested.close {next : EchoState → EchoState} (h : s.Interested) (a : CloseAnswer)
    (hnext : (next { s with opened := false }).Fits) : (s.close a next).Fits := by
  unfold EchoState.close
  split
  · exact hnext
  · exact .threw h

/-- **A step of the handler.** -/
theorem fits_step (h : s.Fits) (hstep : s.step e = some s') : s'.Fits := by
  obtain ⟨ctx, set, opened, f⟩ := s
  cases rule_of_step hstep with
  | readyIn events hopened hin =>
    refine ⟨h.set, ?_, nofun, fun _ => hopened⟩
    rintro (⟨⟨⟩⟩ | ⟨⟨⟩⟩)
  | readyOut events hopened hin => exact (h.awaits (.inl rfl)).handleOut events
  | error events a hopened =>
    refine Interested.close (s := { ctx := .initial, interestSet := set, opened }) h.set a ?_
    refine ⟨h.set, fun _ => ⟨h.set, nofun⟩, nofun, ?_⟩
    rintro (⟨events, ⟨⟩⟩ | ⟨⟨⟩⟩)
  | read events d hne hroom =>
    refine ⟨h.set, ?_, nofun, fun _ => h.opened (.inl ⟨events, rfl⟩)⟩
    rintro (⟨⟨⟩⟩ | ⟨⟨⟩⟩)
  | readAgain events => exact Interested.endRead h.set events
  | readEof events a =>
    refine Interested.close h.set a ?_
    exact Interested.endRead (s := ⟨ctx, set, false, .reading events⟩) h.set events
  | readFailed events => exact .threw h.set
  | wrote n hpos hn =>
    refine Awaits.continueWrite ⟨h.set, fun hpending => (h.awaits (.inr rfl)).out ?_⟩
    -- what is left to write now was so before
    have hlt : ctx.writePos + n < ctx.readPos := of_decide_eq_true hpending
    exact decide_eq_true ((Nat.le_add_right _ _).trans_lt hlt)
  | writeAgain => exact (h.awaits (.inr rfl)).subOut.finish
  | writeFailed => exact .threw h.set

end EchoState

end TpAdvanced
