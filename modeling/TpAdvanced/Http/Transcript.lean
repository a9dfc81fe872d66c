import TpAdvanced.Http.Framing

/-!
# What is written on a connection

Everything a connection is sent is sent by `writeResponse`.  This file gives that
function as a machine of its own, shows that the steps of `operator()` that write are
its steps, and keeps a transcript of a run: the requests `readRequest` has returned,
and for each call of `writeResponse` the request it answers, its response, and the
bytes the kernel has accepted from it.

The handler's timeout flag is set from outside, at any time.

## Main definitions

* `WriteOutcome`, `WriteOutcome.step` — `writeResponse`.
* `WriteCall`, `Transcript`, `recordStep` — a run with its transcript.
* `Transcript.Orderly` — what there is on the wire.

## Main results

* `step_of_writePass` — `operator()` writes by `writeResponse`.
* `orderly_run` — **every request is answered in full and in order**, until a response
  is cut short or a request is rejected, and nothing follows that one.
-/

namespace TpAdvanced

open CText Machine

/-! ### `writeResponse` -/

/-- What one pass of the loop in `writeResponse` gets. -/
inductive WriteResult
  /-- `write` took this many bytes. -/
  | wrote (n : ℕ)
  /-- EAGAIN, and whether the handler had timed out when it was resumed. -/
  | again (timedOut : Bool)
  /-- ECONNRESET. -/
  | reset
  /-- Any other error, or nothing taken. -/
  | failed (reason : String)
  deriving DecidableEq, Repr

/-- What one pass leads to. -/
inductive WriteOutcome
  | writing (written : ℕ)
  | returned (whole : Bool)
  | threw (e : Thrown)
  deriving DecidableEq, Repr

/-- The head of the loop. -/
def WriteOutcome.head (buff : Bytes) (written : ℕ) : WriteOutcome :=
  if written = buff.length then .returned true else .writing written

/-- A pass of the loop.  `write` takes at most what it is given. -/
def WriteOutcome.step (buff : Bytes) (o : WriteOutcome) (x : WriteResult) : Option WriteOutcome :=
  match o, x with
  | .writing written, .wrote n =>
    if 0 < n ∧ written + n ≤ buff.length then some (.head buff (written + n)) else none
  | .writing _, .again true => some (.threw (.timeoutException "timeout writeResponse"))
  | .writing written, .again false => some (.head buff written)
  | .writing _, .reset => some (.returned false)
  | .writing _, .failed reason => some (.threw (.writingException ("writing failed " ++ reason)))
  | _, _ => none

/-- `operator()` takes up what a pass of `writeResponse` leads to. -/
def ConnectionHandler.afterWriteResponse (h : ConnectionHandler) (reply : Reply) :
    WriteOutcome → HandlerState
  | .writing written => ⟨h, .writing reply written⟩
  | .returned whole => h.finishWrite reply whole
  | .threw e => h.throwInWrite reply e

namespace HandlerState

/-- The pass of `writeResponse` that a step makes: what was written before it, and
what it gets. -/
def writePass (s : HandlerState) (e : HandlerEvent) : Option (Reply × ℕ × WriteResult) :=
  match s.frame, e with
  | .writing reply written, .wrote n => some (reply, written, .wrote n)
  | .writing reply written, .writeReset => some (reply, written, .reset)
  | .writing reply written, .writeFailed reason => some (reply, written, .failed reason)
  | .writeYield reply written, .resumed => some (reply, written, .again s.handler.timeout)
  | _, _ => none

/-- The pass of `readRequest` that a step makes, with its outcome. -/
def readPass [StdHash] (s : HandlerState) (e : HandlerEvent) : Option ReadOutcome :=
  match s.frame, e with
  | .reading parser readIdx, .read d => Reading.step ⟨parser, readIdx, s.handler.readBuff⟩ (.data d)
  | .reading parser readIdx, .readEof => Reading.step ⟨parser, readIdx, s.handler.readBuff⟩ .eof
  | .reading parser readIdx, .readFailed =>
    Reading.step ⟨parser, readIdx, s.handler.readBuff⟩ .failed
  | .readYield parser readIdx, .resumed =>
    Reading.step ⟨parser, readIdx, s.handler.readBuff⟩ (.again s.handler.timeout)
  | _, _ => none

end HandlerState

theorem continueWrite_eq (h : ConnectionHandler) (reply : Reply) (written : ℕ) :
    h.continueWrite reply written = h.afterWriteResponse reply (.head h.writeBuff written) := by
  rw [ConnectionHandler.continueWrite, WriteOutcome.head]
  split <;> rfl

section Steps

variable [StdHash]

/-- **The steps of `operator()` that write are the passes of `writeResponse`.** -/
theorem step_of_writePass {s : HandlerState} {e : HandlerEvent} {reply : Reply} {written : ℕ}
    {x : WriteResult} (hx : s.writePass e = some (reply, written, x)) :
    s.step e = (WriteOutcome.step s.handler.writeBuff (.writing written) x).map
      (s.handler.afterWriteResponse reply) := by
  obtain ⟨h, f⟩ := s
  cases f with
  | writing reply written =>
    cases e with
    | wrote n =>
      cases hx
      simp only [HandlerState.step, WriteOutcome.step, continueWrite_eq]
      split <;> rfl
    | writeReset =>
      cases hx
      rfl
    | writeFailed reason =>
      cases hx
      rfl
    | _ => cases hx
  | writeYield reply written =>
    cases e with
    | resumed =>
      cases hx
      simp only [HandlerState.step, continueWrite_eq]
      cases h.timeout <;> rfl
    | _ => cases hx
  | _ => cases e <;> cases hx

theorem step_of_readPass {s : HandlerState} {e : HandlerEvent} {o : ReadOutcome}
    (ho : s.readPass e = some o) : s.step e = some (s.handler.afterReadRequest o) := by
  obtain ⟨h, f⟩ := s
  cases f with
  | reading parser readIdx =>
    cases e with
    | read d => simpa [HandlerState.step, HandlerState.readStep] using ⟨o, ho, rfl⟩
    | readEof =>
      cases ho
      rfl
    | readFailed =>
      cases ho
      rfl
    | _ => cases ho
  | readYield parser readIdx =>
    cases e with
    | resumed => simpa [HandlerState.step, HandlerState.readStep] using ⟨o, ho, rfl⟩
    | _ => cases ho
  | _ => cases e <;> cases ho

end Steps

/-! ### The transcript of a run -/

/-- A call of `writeResponse`: the request it answers, if it is no rejection, its
response, the bytes the kernel has accepted, and where the call stands. -/
structure WriteCall where
  answers : Option HttpRequest
  response : HttpResponse
  accepted : Bytes
  outcome : WriteOutcome
  deriving DecidableEq, Repr

/-- What has happened on a connection: the requests `readRequest` has returned, the
calls of `writeResponse` before the latest one, the latest one, and all bytes the
kernel has accepted. -/
structure Transcript where
  requests : List HttpRequest := []
  earlier : List WriteCall := []
  latest : Option WriteCall := none
  accepted : Bytes := []
  deriving DecidableEq, Repr

namespace Transcript

/-- The calls of `writeResponse`, in order. -/
def calls (t : Transcript) : List WriteCall := t.earlier ++ t.latest.toList

/-- `writeResponse` is called. -/
def newCall (t : Transcript) (answers : Option HttpRequest) (response : HttpResponse) :
    Transcript :=
  { t with
    earlier := t.calls
    latest := some ⟨answers, response, [], .head response.dump 0⟩ }

/-- A pass of `writeResponse`, in which the kernel has accepted `bytes`. -/
def pass (t : Transcript) (bytes : Bytes) (o : WriteOutcome) : Transcript :=
  { t with
    latest := t.latest.map fun c => { c with accepted := c.accepted ++ bytes, outcome := o }
    accepted := t.accepted ++ bytes }

/-- An exception of `readRequest` or the callback: only a parse failure is answered. -/
def catchThrown (t : Transcript) : Thrown → Transcript
  | .parsingException _ code => t.newCall none (HttpResponse.setStatusCode {} code)
  | _ => t

/-- A pass of `readRequest`. -/
def afterReadRequest (t : Transcript) : ReadOutcome → Transcript
  | .returned (some request) _ => { t with requests := t.requests ++ [request] }
  | .threw e _ => t.catchThrown e
  | _ => t

/-- What a step of `operator()` adds. -/
def record [StdHash] (t : Transcript) (s : HandlerState) (e : HandlerEvent) : Transcript :=
  match s.frame, e with
  | .calling request shouldClose, .replied (.ok (response, request')) =>
    t.newCall (some request) (ConnectionHandler.prepareResponse shouldClose response request')
  | .calling _ _, .replied (.error x) => t.catchThrown x
  | _, _ =>
    match s.readPass e, s.writePass e with
    | some o, _ => t.afterReadRequest o
    | none, some (_, written, x) =>
      (WriteOutcome.step s.handler.writeBuff (.writing written) x).elim t (t.pass (s.sentBy e))
    | none, none => t

end Transcript

/-- What happens to a handler: a step of `operator()`, or `setTimeout`. -/
inductive ConnectionEvent
  | handler (e : HandlerEvent)
  | setTimeout
  deriving DecidableEq

/-- `setTimeout`. -/
def ConnectionHandler.setTimeout (h : ConnectionHandler) : ConnectionHandler :=
  { h with timeout := true }

/-- A step, with the transcript. -/
def recordStep [StdHash] (r : HandlerState × Transcript) :
    ConnectionEvent → Option (HandlerState × Transcript)
  | .handler e => (r.1.step e).map fun s => (s, r.2.record r.1 e)
  | .setTimeout => some (⟨r.1.handler.setTimeout, r.1.frame⟩, r.2)

/-! ### Order on the wire -/

/-- The call answers a request, with the whole of its response. -/
structure WriteCall.Whole (c : WriteCall) : Prop where
  answers : c.answers.isSome = true
  accepted : c.accepted = c.response.dump
  outcome : c.outcome = .returned true

/-- `operator()` has ended. -/
def Frame.Over (f : Frame) : Prop := f = .returned ∨ ∃ e, f = .threw e

/-- **What there is on the wire.** -/
structure Transcript.Orderly (t : Transcript) (s : HandlerState) : Prop where
  /-- Nothing but what the calls have sent. -/
  accepted_eq : t.accepted = t.calls.flatMap WriteCall.accepted
  /-- All calls but the latest have sent the answer to a request, and all of it. -/
  whole : ∀ c ∈ t.earlier, c.Whole
  /-- The latest has sent a first part, perhaps all. -/
  part : ∀ c ∈ t.calls, c.accepted <+: c.response.dump
  returned_iff : ∀ c ∈ t.calls, c.outcome = .returned true ↔ c.accepted = c.response.dump
  /-- The requests are answered in their order, each by at most one call, and at most
  the last one has no answer. -/
  in_order : ∃ unanswered, unanswered.length ≤ 1 ∧
    t.requests = t.calls.filterMap WriteCall.answers ++ unanswered
  /-- A call that ends before all is sent ends `operator()`, and so does a rejection. -/
  halted : ∀ c ∈ t.calls, (∀ n, c.outcome ≠ .writing n) → ¬ c.Whole → s.frame.Over

/-! ### The invariant -/

section Invariant

variable {t : Transcript} {h : ConnectionHandler} {c : WriteCall} {unanswered : List HttpRequest}

/-- No response is under way: all calls have sent a whole answer, and there may be a
request that is still to be answered. -/
structure Transcript.Quiet (t : Transcript) (unanswered : List HttpRequest) : Prop where
  accepted_eq : t.accepted = t.calls.flatMap WriteCall.accepted
  whole : ∀ c ∈ t.calls, c.Whole
  requests_eq : t.requests = t.calls.filterMap WriteCall.answers ++ unanswered

/-- A response is under way: `written` bytes of it have been accepted. -/
structure Transcript.Sending (t : Transcript) (h : ConnectionHandler) (reply : Reply) (written : ℕ)
    (c : WriteCall) (unanswered : List HttpRequest) : Prop where
  latest : t.latest = some c
  accepted_eq : t.accepted = t.calls.flatMap WriteCall.accepted
  whole : ∀ c ∈ t.earlier, c.Whole
  requests_eq : t.requests = t.calls.filterMap WriteCall.answers ++ unanswered
  le_one : unanswered.length ≤ 1
  buff : h.writeBuff = c.response.dump
  accepted : c.accepted = h.writeBuff.take written
  lt : written < h.writeBuff.length
  outcome : c.outcome = .writing written
  /-- What is no rejection answers the last request. -/
  answers : ∀ shouldClose, reply = .response shouldClose → c.answers.isSome = true ∧ unanswered = []

/-- Where `operator()` stands, on the transcript. -/
def Transcript.At (t : Transcript) (s : HandlerState) : Prop :=
  match s.frame with
  | .created | .reading .. | .readYield .. => t.Quiet []
  | .calling request _ => t.Quiet [request]
  | .writing reply written | .writeYield reply written =>
    ∃ c unanswered, t.Sending s.handler reply written c unanswered
  | .returned | .threw _ => t.Orderly s

theorem HttpResponse.dump_ne_nil (r : HttpResponse) : r.dump ≠ [] := by
  simp [HttpResponse.dump, crlf]

@[simp] theorem Transcript.calls_newCall (t : Transcript) (answers : Option HttpRequest)
    (response : HttpResponse) :
    (t.newCall answers response).calls =
      t.calls ++ [⟨answers, response, [], .head response.dump 0⟩] := rfl

theorem Transcript.calls_of_latest (hc : t.latest = some c) : t.calls = t.earlier ++ [c] := by
  rw [Transcript.calls, hc]
  rfl

/-- Without a response under way the wire is in order. -/
theorem Transcript.Quiet.orderly (hq : t.Quiet unanswered) (hle : unanswered.length ≤ 1)
    (s : HandlerState) : t.Orderly s where
  accepted_eq := hq.accepted_eq
  whole := fun c hc => hq.whole c (List.mem_append_left _ hc)
  part := by
    intro c hc
    rw [(hq.whole c hc).accepted]
  returned_iff := fun c hc => iff_of_true (hq.whole c hc).outcome (hq.whole c hc).accepted
  in_order := ⟨unanswered, hle, hq.requests_eq⟩
  halted := fun c hc _ hnot => absurd (hq.whole c hc) hnot

theorem Transcript.Sending.orderly {reply : Reply} {written : ℕ}
    (hs : t.Sending h reply written c unanswered) (f : Frame) : t.Orderly ⟨h, f⟩ := by
  have hcalls := Transcript.calls_of_latest hs.latest
  have hpart : c.accepted <+: c.response.dump := by
    rw [hs.accepted, ← hs.buff]
    exact List.take_prefix _ _
  have hshort : c.accepted ≠ c.response.dump := by
    intro heq
    have hlen := congrArg List.length heq
    rw [hs.accepted, ← hs.buff, List.length_take] at hlen
    have := hs.lt
    omega
  -- the earlier calls are whole, and the latest one is neither at its end nor whole
  have hmem : ∀ d ∈ t.calls, d.Whole ∨ d = c := by
    intro d hd
    rw [hcalls, List.mem_append, List.mem_singleton] at hd
    exact hd.imp (hs.whole d) id
  refine ⟨hs.accepted_eq, hs.whole, ?_, ?_, ⟨unanswered, hs.le_one, hs.requests_eq⟩, ?_⟩
  · intro d hd
    rcases hmem d hd with hd | rfl
    · rw [hd.accepted]
    · exact hpart
  · intro d hd
    rcases hmem d hd with hd | rfl
    · exact iff_of_true hd.outcome hd.accepted
    · refine iff_of_false ?_ hshort
      rw [hs.outcome]
      exact WriteOutcome.noConfusion
  · intro d hd hended hnot
    rcases hmem d hd with hd | rfl
    · exact absurd hd hnot
    · exact absurd hs.outcome (hended written)

/-- Where `operator()` stands, the wire is in order. -/
theorem Transcript.At.orderly {s : HandlerState} (ht : t.At s) : t.Orderly s := by
  obtain ⟨h, f⟩ := s
  cases f with
  | created => exact Transcript.Quiet.orderly ht (Nat.zero_le _) _
  | reading parser readIdx => exact Transcript.Quiet.orderly ht (Nat.zero_le _) _
  | readYield parser readIdx => exact Transcript.Quiet.orderly ht (Nat.zero_le _) _
  | calling request shouldClose => exact Transcript.Quiet.orderly ht (Nat.le_refl _) _
  | writing reply written =>
    obtain ⟨c, unanswered, hs⟩ := ht
    exact hs.orderly _
  | writeYield reply written =>
    obtain ⟨c, unanswered, hs⟩ := ht
    exact hs.orderly _
  | returned => exact ht
  | threw e => exact ht

/-! ### What a step keeps -/

/-- `writeResponse` is called: with an answer to the last request, or a rejection. -/
theorem Transcript.Quiet.beginWrite (hq : t.Quiet unanswered) (hle : unanswered.length ≤ 1)
    (answers : Option HttpRequest) (response : HttpResponse) (reply : Reply)
    (hanswers : (unanswered = answers.toList ∧ answers.isSome = true) ∨
      (answers = none ∧ reply = .rejection)) :
    (t.newCall answers response).At (h.beginWrite reply response) := by
  have hpos := List.length_pos_of_ne_nil response.dump_ne_nil
  have hhead : WriteOutcome.head response.dump 0 = .writing 0 := if_neg (Nat.ne_of_lt hpos)
  have hstate : h.beginWrite reply response =
      ⟨{ h with writeBuff := response.dump }, .writing reply 0⟩ := by
    rw [ConnectionHandler.beginWrite, continueWrite_eq, hhead]
    rfl
  rw [hstate]
  have haccepted : (t.newCall answers response).accepted =
      (t.newCall answers response).calls.flatMap WriteCall.accepted := by
    rw [Transcript.calls_newCall, List.flatMap_append, ← hq.accepted_eq]
    simp [Transcript.newCall]
  have hrequests : ∃ rest, rest.length ≤ 1 ∧ (t.newCall answers response).requests =
      (t.newCall answers response).calls.filterMap WriteCall.answers ++ rest ∧
      (answers.isSome = true → rest = []) := by
    rcases hanswers with ⟨rfl, hsome⟩ | ⟨rfl, -⟩
    · obtain ⟨request, rfl⟩ := Option.isSome_iff_exists.mp hsome
      refine ⟨[], Nat.zero_le _, ?_, fun _ => rfl⟩
      rw [Transcript.calls_newCall, List.filterMap_append, List.append_nil]
      exact hq.requests_eq
    · refine ⟨unanswered, hle, ?_, nofun⟩
      rw [Transcript.calls_newCall, List.filterMap_append, List.filterMap_cons_none rfl,
        List.filterMap_nil, List.append_nil]
      exact hq.requests_eq
  obtain ⟨rest, hrest, hrequests, hnil⟩ := hrequests
  refine ⟨_, rest, rfl, haccepted, hq.whole, hrequests, hrest, rfl, rfl, hpos, hhead, ?_⟩
  rintro shouldClose rfl
  rcases hanswers with ⟨-, hsome⟩ | ⟨-, hreply⟩
  · exact ⟨hsome, hnil hsome⟩
  · cases hreply

/-- An exception of `readRequest` or the callback. -/
theorem Transcript.Quiet.catchThrown (hq : t.Quiet unanswered) (hle : unanswered.length ≤ 1)
    (x : Thrown) : (t.catchThrown x).At (h.catchThrown x) := by
  cases x with
  | parsingException message code =>
    exact hq.beginWrite hle none _ .rejection (.inr ⟨rfl, rfl⟩)
  | _ => exact hq.orderly hle _

theorem Transcript.Quiet.afterReadRequest [StdHash] (hq : t.Quiet []) (o : ReadOutcome) :
    (t.afterReadRequest o).At (h.afterReadRequest o) := by
  cases o with
  | reading r => exact hq
  | returned request buff =>
    cases request with
    | none => exact hq.orderly (Nat.zero_le _) _
    | some request =>
      refine ⟨hq.accepted_eq, hq.whole, ?_⟩
      change t.requests ++ [request] = t.calls.filterMap WriteCall.answers ++ [request]
      rw [hq.requests_eq, List.append_nil]
  | threw x buff => exact hq.catchThrown (Nat.zero_le _) x

/-- The bytes a pass of `writeResponse` hands over. -/
def WriteResult.bytes (buff : Bytes) (written : ℕ) : WriteResult → Bytes
  | .wrote n => (buff.drop written).take n
  | _ => []

theorem sentBy_of_writePass {s : HandlerState} {e : HandlerEvent} {reply : Reply} {written : ℕ}
    {x : WriteResult} (hx : s.writePass e = some (reply, written, x)) :
    s.sentBy e = x.bytes s.handler.writeBuff written := by
  obtain ⟨h, f⟩ := s
  cases f with
  | writing reply written => cases e <;> cases hx <;> rfl
  | writeYield reply written =>
    cases e <;> cases hx
    rfl
  | _ => cases e <;> cases hx

/-- A pass adds its bytes to the latest call and to the wire. -/
theorem Transcript.Sending.pass_fields {reply : Reply} {written : ℕ}
    (hs : t.Sending h reply written c unanswered) (bytes : Bytes) (o : WriteOutcome) :
    (t.pass bytes o).calls = t.earlier ++ [⟨c.answers, c.response, c.accepted ++ bytes, o⟩] ∧
      (t.pass bytes o).accepted = (t.pass bytes o).calls.flatMap WriteCall.accepted ∧
      (t.pass bytes o).requests =
        (t.pass bytes o).calls.filterMap WriteCall.answers ++ unanswered := by
  have hcalls : (t.pass bytes o).calls =
      t.earlier ++ [⟨c.answers, c.response, c.accepted ++ bytes, o⟩] := by
    rw [Transcript.calls, Transcript.pass, hs.latest]
    rfl
  have hbefore := Transcript.calls_of_latest hs.latest
  refine ⟨hcalls, ?_, ?_⟩
  · have haccepted := hs.accepted_eq
    rw [hbefore, List.flatMap_append] at haccepted
    rw [hcalls, List.flatMap_append, Transcript.pass, haccepted]
    simp
  · have hrequests := hs.requests_eq
    rw [hbefore, List.filterMap_append] at hrequests
    rw [hcalls, List.filterMap_append, Transcript.pass, hrequests]
    rfl

/-- A pass that ends `operator()` with it, after `n` bytes. -/
theorem Transcript.Sending.orderly_pass {reply : Reply} {written n : ℕ} {bytes : Bytes}
    {o : WriteOutcome} {s : HandlerState} (hs : t.Sending h reply written c unanswered)
    (hbytes : c.accepted ++ bytes = h.writeBuff.take n)
    (hwhole : o = .returned true ↔ h.writeBuff.length ≤ n) (hover : s.frame.Over) :
    (t.pass bytes o).Orderly s := by
  obtain ⟨hcalls, haccepted, hrequests⟩ := hs.pass_fields bytes o
  have hmem : ∀ d ∈ (t.pass bytes o).calls,
      d.Whole ∨ d = ⟨c.answers, c.response, h.writeBuff.take n, o⟩ := by
    intro d hd
    rw [hcalls, hbytes, List.mem_append, List.mem_singleton] at hd
    exact hd.imp (hs.whole d) id
  refine ⟨haccepted, hs.whole, ?_, ?_, ⟨unanswered, hs.le_one, hrequests⟩, fun _ _ _ _ => hover⟩
  · intro d hd
    rcases hmem d hd with hd | rfl
    · rw [hd.accepted]
    · rw [← hs.buff]
      exact List.take_prefix _ _
  · intro d hd
    rcases hmem d hd with hd | rfl
    · exact iff_of_true hd.outcome hd.accepted
    · rw [hwhole, ← hs.buff, List.take_eq_self_iff]

/-- The head of the loop, after `n` bytes. -/
theorem Transcript.Sending.head {reply : Reply} {written n : ℕ} {bytes : Bytes}
    (hs : t.Sending h reply written c unanswered) (hn : n ≤ h.writeBuff.length)
    (hbytes : c.accepted ++ bytes = h.writeBuff.take n) :
    (t.pass bytes (.head h.writeBuff n)).At
      (h.afterWriteResponse reply (.head h.writeBuff n)) := by
  obtain ⟨hcalls, haccepted, hrequests⟩ := hs.pass_fields bytes (.head h.writeBuff n)
  -- the head of the loop: everything has been accepted, or it goes round once more
  by_cases hall : n = h.writeBuff.length
  · have hhead : WriteOutcome.head h.writeBuff n = .returned true := if_pos hall
    have hend : ∀ s : HandlerState, s.frame.Over →
        (t.pass bytes (.head h.writeBuff n)).Orderly s := by
      intro s hover
      exact hs.orderly_pass hbytes (iff_of_true hhead (Nat.le_of_eq hall.symm)) hover
    rw [hhead] at hend haccepted hrequests hcalls ⊢
    cases reply with
    | rejection => exact hend _ (.inl rfl)
    | response shouldClose =>
      cases shouldClose with
      | true => exact hend _ (.inl rfl)
      | false =>
        -- the connection is kept open, with an answer to every request
        obtain ⟨hsome, hnil⟩ := hs.answers false rfl
        rw [hnil] at hrequests
        refine ⟨haccepted, ?_, hrequests⟩
        intro d hd
        rw [hcalls, List.mem_append, List.mem_singleton] at hd
        rcases hd with hd | rfl
        · exact hs.whole d hd
        · refine ⟨hsome, ?_, rfl⟩
          change c.accepted ++ bytes = c.response.dump
          rw [hbytes, hall, List.take_length, hs.buff]
  · have hhead : WriteOutcome.head h.writeBuff n = .writing n := if_neg hall
    rw [hhead] at haccepted hrequests hcalls ⊢
    refine ⟨⟨c.answers, c.response, c.accepted ++ bytes, .writing n⟩, unanswered, ?_, haccepted,
      hs.whole, hrequests, hs.le_one, hs.buff, hbytes, Nat.lt_of_le_of_ne hn hall, rfl, hs.answers⟩
    rw [Transcript.pass, hs.latest]
    rfl

/-- **A pass of `writeResponse`.** -/
theorem Transcript.Sending.pass {reply : Reply} {written : ℕ} {x : WriteResult} {o : WriteOutcome}
    (hs : t.Sending h reply written c unanswered)
    (ho : WriteOutcome.step h.writeBuff (.writing written) x = some o) :
    (t.pass (x.bytes h.writeBuff written) o).At (h.afterWriteResponse reply o) := by
  have hlt := hs.lt
  -- a pass that hands over nothing leaves the call where it was
  have hsame : c.accepted ++ [] = h.writeBuff.take written := by rw [List.append_nil, hs.accepted]
  have hcut : ∀ o : WriteOutcome, o ≠ .returned true → ∀ s : HandlerState, s.frame.Over →
      (t.pass [] o).Orderly s := by
    intro o ho s hover
    refine hs.orderly_pass hsame ?_ hover
    exact iff_of_false ho (by omega)
  cases x with
  | wrote n =>
    simp only [WriteOutcome.step] at ho
    split at ho
    · rename_i hn
      cases ho
      refine hs.head hn.2 ?_
      rw [hs.accepted, WriteResult.bytes, List.take_add]
    · cases ho
  | again timedOut =>
    cases timedOut with
    | true =>
      cases ho
      cases reply with
      | response shouldClose => exact hcut _ WriteOutcome.noConfusion _ (.inl rfl)
      | rejection => exact hcut _ WriteOutcome.noConfusion _ (.inr ⟨_, rfl⟩)
    | false =>
      cases ho
      exact hs.head (Nat.le_of_lt hlt) hsame
  | reset =>
    cases ho
    cases reply with
    | response shouldClose =>
      cases shouldClose <;> exact hcut _ (by decide) _ (.inl rfl)
    | rejection => exact hcut _ (by decide) _ (.inl rfl)
  | failed reason =>
    -- no catch clause of `operator()` takes a `WritingException`
    cases ho
    cases reply with
    | response shouldClose => exact hcut _ WriteOutcome.noConfusion _ (.inr ⟨_, rfl⟩)
    | rejection => exact hcut _ WriteOutcome.noConfusion _ (.inr ⟨_, rfl⟩)

variable [StdHash]

theorem Transcript.record_of_readPass {s : HandlerState} {e : HandlerEvent} {o : ReadOutcome}
    (ho : s.readPass e = some o) : t.record s e = t.afterReadRequest o := by
  obtain ⟨h, f⟩ := s
  cases f with
  | reading parser readIdx => simp only [Transcript.record, ho]
  | readYield parser readIdx => simp only [Transcript.record, ho]
  | _ => cases e <;> cases ho

/-- A step that is a pass of `readRequest`. -/
theorem Transcript.Quiet.readPass {s s' : HandlerState} {e : HandlerEvent} {o : ReadOutcome}
    (hq : t.Quiet []) (ho : s.readPass e = some o) (hstep : s.step e = some s') :
    (t.record s e).At s' := by
  rw [step_of_readPass ho] at hstep
  cases hstep
  rw [Transcript.record_of_readPass ho]
  exact hq.afterReadRequest o

/-- A step that is a pass of `writeResponse`. -/
theorem Transcript.Sending.writePass {s s' : HandlerState} {e : HandlerEvent} {reply : Reply}
    {written : ℕ} {x : WriteResult} (hs : t.Sending s.handler reply written c unanswered)
    (hread : s.readPass e = none) (hx : s.writePass e = some (reply, written, x))
    (hstep : s.step e = some s') : (t.record s e).At s' := by
  rw [step_of_writePass hx] at hstep
  obtain ⟨o, ho, rfl⟩ := Option.map_eq_some_iff.mp hstep
  have hrecord : t.record s e = t.pass (x.bytes s.handler.writeBuff written) o := by
    rw [← sentBy_of_writePass hx]
    obtain ⟨h, f⟩ := s
    cases f with
    | writing reply written => simp only [Transcript.record, hread, hx, ho, Option.elim_some]
    | writeYield reply written => simp only [Transcript.record, hread, hx, ho, Option.elim_some]
    | _ => cases e <;> cases hx
  rw [hrecord]
  exact hs.pass ho

/-- **What a step keeps.** -/
theorem Transcript.At.step {s s' : HandlerState} {e : HandlerEvent} (ht : t.At s)
    (hstep : s.step e = some s') : (t.record s e).At s' := by
  obtain ⟨h, f⟩ := s
  cases HandlerState.rule_of_step hstep with
  | expired =>
    -- timed out before the first `readRequest`: `operator()` returns
    exact Transcript.Quiet.orderly ht (Nat.zero_le _) _
  | entered => exact ht
  | read parser readIdx d s' hread =>
    obtain ⟨o, ho, -⟩ := Option.map_eq_some_iff.mp hread
    exact Transcript.Quiet.readPass ht ho hstep
  | readAgain => exact ht
  | readEof => exact Transcript.Quiet.readPass ht rfl hstep
  | readFailed => exact Transcript.Quiet.readPass ht rfl hstep
  | readResumed parser readIdx s' hread =>
    obtain ⟨o, ho, -⟩ := Option.map_eq_some_iff.mp hread
    exact Transcript.Quiet.readPass ht ho hstep
  | replied request =>
    exact Transcript.Quiet.beginWrite ht (Nat.le_refl _) (some request) _ _ (.inl ⟨rfl, rfl⟩)
  | repliedThrow request shouldClose x =>
    exact Transcript.Quiet.catchThrown ht (Nat.le_refl _) x
  | writeAgain =>
    obtain ⟨c, unanswered, hs⟩ := ht
    exact ⟨c, unanswered, hs.latest, hs.accepted_eq, hs.whole, hs.requests_eq, hs.le_one, hs.buff,
      hs.accepted, hs.lt, hs.outcome, hs.answers⟩
  -- the passes of a call of `writeResponse`
  | wrote | writeReset | writeFailed | writeExpired | writeResumed =>
    obtain ⟨c, unanswered, hs⟩ := ht
    exact Transcript.Sending.writePass (s := ⟨h, _⟩) hs rfl rfl hstep

omit [StdHash] in
/-- The timeout flag is no matter of the wire. -/
theorem Transcript.At.setTimeout {s : HandlerState} (ht : t.At s) :
    t.At ⟨s.handler.setTimeout, s.frame⟩ := by
  obtain ⟨h, f⟩ := s
  cases f with
  | writing reply written =>
    obtain ⟨c, unanswered, hs⟩ := ht
    exact ⟨c, unanswered, hs.latest, hs.accepted_eq, hs.whole, hs.requests_eq, hs.le_one, hs.buff,
      hs.accepted, hs.lt, hs.outcome, hs.answers⟩
  | writeYield reply written =>
    obtain ⟨c, unanswered, hs⟩ := ht
    exact ⟨c, unanswered, hs.latest, hs.accepted_eq, hs.whole, hs.requests_eq, hs.le_one, hs.buff,
      hs.accepted, hs.lt, hs.outcome, hs.answers⟩
  | returned => exact ⟨ht.accepted_eq, ht.whole, ht.part, ht.returned_iff, ht.in_order, ht.halted⟩
  | threw x => exact ⟨ht.accepted_eq, ht.whole, ht.part, ht.returned_iff, ht.in_order, ht.halted⟩
  | _ => exact ht

end Invariant

/-! ### Every run -/

section Runs

variable [StdHash]

/-- **Every request is answered in full and in order**, by every run of `operator()`
with any answers of the system calls and the callback, until a response is cut short
or a request is rejected; and nothing follows that one. -/
theorem orderly_run (h : ConnectionHandler) {es : List ConnectionEvent}
    {r : HandlerState × Transcript} (hrun : run recordStep (⟨h, .created⟩, {}) es = some r) :
    r.2.Orderly r.1 := by
  have hstart : ({} : Transcript).At ⟨h, .created⟩ := by
    refine ⟨rfl, ?_, rfl⟩
    intro c hc
    cases hc
  refine Transcript.At.orderly ?_
  refine invariant_run (fun r : HandlerState × Transcript => r.2.At r.1) ?_ hstart hrun
  intro r e r' ht hstep
  cases e with
  | handler e =>
    obtain ⟨s', hs', rfl⟩ := Option.map_eq_some_iff.mp hstep
    exact ht.step hs'
  | setTimeout =>
    cases hstep
    exact ht.setTimeout

omit [StdHash] in
/-- A response of which ten bytes have been accepted when the handler times out. -/
theorem orderly_run_cut_short :
    letI := polynomialHash
    ∃ r, run recordStep (⟨.new (.ofList [.in_]) 1, .created⟩, {})
      [.handler .resumed, .handler (.read (ascii "GET /k HTTP/1.1\r\nHost: a\r\n\r\n")),
        .handler (.replied (.ok (.build [.setStatusCode .ok, .setBody (ascii "hi")],
          ⟨[], [], [], none, .http1_1, .get⟩))),
        .handler (.wrote 10), .handler (.writeAgain 5), .setTimeout, .handler .resumed] = some r ∧
      r.2.accepted = ascii "HTTP/1.1 2" ∧ r.2.Orderly r.1 := by
  let _ := polynomialHash
  have hsome : (run recordStep (⟨.new (.ofList [.in_]) 1, .created⟩, {})
      [.handler .resumed, .handler (.read (ascii "GET /k HTTP/1.1\r\nHost: a\r\n\r\n")),
        .handler (.replied (.ok (.build [.setStatusCode .ok, .setBody (ascii "hi")],
          ⟨[], [], [], none, .http1_1, .get⟩))),
        .handler (.wrote 10), .handler (.writeAgain 5), .setTimeout, .handler .resumed]).any
      (fun r => r.2.accepted = ascii "HTTP/1.1 2") = true := by
    decide +kernel
  obtain ⟨r, hrun, haccepted⟩ := (Option.any_eq_true _ _).mp hsome
  exact ⟨r, hrun, by simpa using haccepted, orderly_run _ hrun⟩

end Runs

end TpAdvanced
