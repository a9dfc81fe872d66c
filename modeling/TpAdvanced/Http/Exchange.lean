import TpAdvanced.Http.Isolation
import TpAdvanced.Http.KeepAlive
import TpAdvanced.Http.ResponseStream

/-!
# Requests and their answers

From end to end: a client sends requests on a connection it keeps open, and reads responses
from it.  A worker runs the handler of the connection between those of the others, the
handler parses the requests, the callback answers them, the answers go out in pieces, and
the client takes the stream apart again.  It gets the answers to its requests, in their
order.

The callback is a function of the request; what it does to the request it is given is a part
of what it returns.

## Main definitions

* `Callback` — what the user of the server has written.
* `HandlerState.Answers` — the events of a handler give it what the callback answers.
* `HandlerState.Wrote` — what a handler that serves has written.

## Main results

* `wrote_run` — **a handler writes the answers to its requests**, in order.
* `client_reads_answers` — **the client of a worker reads them.**
-/

namespace TpAdvanced

open CText Machine HttpRequestParser

/-! ### Answers -/

/-- What the user of the server has written: the calls on the response, and the request as
it leaves it. -/
abbrev Callback := HttpRequest → List BuilderCall × HttpRequest

/-- What is written for a request on a connection that is kept open. -/
def Callback.answer (callback : Callback) (request : HttpRequest) : HttpResponse :=
  ConnectionHandler.prepareResponse false (.build (callback request).1) (callback request).2

/-- The answers to some requests, one after another. -/
def Callback.answers (callback : Callback) (requests : List HttpRequest) : Bytes :=
  requests.flatMap fun request => (callback.answer request).dump

/-- Where the callback is invoked, the next event is what it answers. -/
def HandlerState.Answers (callback : Callback) (s : HandlerState) (e : HandlerEvent) : Prop :=
  ∀ request ∈ s.frame.invocation,
    e = .replied (.ok (.build (callback request).1, (callback request).2))

instance (callback : Callback) (s : HandlerState) (e : HandlerEvent) :
    Decidable (s.Answers callback e) :=
  inferInstanceAs (Decidable (∀ request ∈ s.frame.invocation, _))

/-- **What a handler that serves has written**: the answers to the requests it has been
through, and a part of the answer to the latest one, if it stands there. -/
def HandlerState.Wrote (callback : Callback) (requests : List HttpRequest) (out : Bytes)
    (s : HandlerState) : Prop :=
  match s.frame with
  | .created | .reading .. | .readYield .. => out = callback.answers requests
  | .calling request _ => ∃ before, requests = before ++ [request] ∧ out = callback.answers before
  | .writing _ written | .writeYield _ written =>
    ∃ before request, requests = before ++ [request] ∧
      s.handler.writeBuff = (callback.answer request).dump ∧ written < s.handler.writeBuff.length ∧
      out = callback.answers before ++ s.handler.writeBuff.take written
  | .returned | .threw _ => True

theorem Callback.answers_concat (callback : Callback) (requests : List HttpRequest)
    (request : HttpRequest) :
    callback.answers (requests ++ [request]) =
      callback.answers requests ++ (callback.answer request).dump := by
  simp [Callback.answers]

section Steps

variable [StdHash] {callback : Callback} {requests before : List HttpRequest}
  {request : HttpRequest} {out : Bytes} {h : ConnectionHandler} {written : ℕ}

omit [StdHash] in
/-- The head of the loop in `writeResponse`. -/
theorem wrote_continueWrite (hrequests : requests = before ++ [request])
    (hbuff : h.writeBuff = (callback.answer request).dump) (hle : written ≤ h.writeBuff.length)
    (hout : out = callback.answers before ++ h.writeBuff.take written) :
    (h.continueWrite (.response false) written).Wrote callback requests out := by
  unfold ConnectionHandler.continueWrite
  split
  · rename_i hall
    change out = callback.answers requests
    rw [hrequests, callback.answers_concat, hout, hall, List.take_length, hbuff]
  · exact ⟨before, request, hrequests, hbuff, Nat.lt_of_le_of_ne hle ‹_›, hout⟩

omit [StdHash] in
theorem not_serving_rejection (h : ConnectionHandler) (written : ℕ) :
    ¬ (h.continueWrite .rejection written).frame.Serving := by
  unfold ConnectionHandler.continueWrite
  split <;> exact id

/-- A pass of `readRequest` writes nothing, and may return a request. -/
theorem wrote_readStep {parser : HttpRequestParser} {readIdx : ℕ} {x : ReadResult}
    {s' : HandlerState} (hout : out = callback.answers requests)
    (hread : HandlerState.readStep h parser readIdx x = some s') (hserving : s'.frame.Serving) :
    s'.Wrote callback (requests ++ s'.frame.invocation) out := by
  obtain ⟨o, -, rfl⟩ := Option.map_eq_some_iff.mp hread
  cases o with
  | reading r =>
    change out = callback.answers (requests ++ [])
    rw [List.append_nil, hout]
  | returned request buff =>
    cases request with
    | none => cases hserving
    | some request => exact ⟨requests, rfl, hout⟩
  | threw e buff =>
    -- an exception ends the handler, or has it write a rejection
    cases e with
    | parsingException message code => exact absurd hserving (not_serving_rejection _ _)
    | _ => cases hserving

/-- **A step of a handler that goes on serving.** -/
theorem wrote_step {s s' : HandlerState} {e : HandlerEvent} (hwrote : s.Wrote callback requests out)
    (hserving : s.frame.Serving) (hserving' : s'.frame.Serving) (hbenign : e.Benign)
    (hanswers : s.Answers callback e) (hstep : s.step e = some s') :
    s'.Wrote callback (requests ++ s'.frame.invocation) (out ++ s.sentBy e) := by
  obtain ⟨h, f⟩ := s
  -- outside of `writeResponse` nothing is written, and only `readRequest` invokes the callback
  have hsame : ∀ {out : Bytes} {s' : HandlerState}, s'.frame.Idle → s'.Wrote callback requests out →
      s'.Wrote callback (requests ++ s'.frame.invocation) out := by
    intro out s' hidle hs'
    rw [invocation_of_idle hidle, List.append_nil]
    exact hs'
  have hquiet : ∀ {requests' : List HttpRequest} {s' : HandlerState}, requests = requests' →
      s'.Wrote callback requests out → s'.Wrote callback requests' (out ++ []) := by
    rintro requests' s' rfl hs'
    rw [List.append_nil]
    exact hs'
  cases HandlerState.rule_of_step hstep with
  | expired ht => cases hserving'
  | entered ht => exact hquiet (List.append_nil requests).symm hwrote
  | read parser readIdx d s' hread =>
    exact (List.append_nil out).symm ▸ wrote_readStep hwrote hread hserving'
  | readAgain parser readIdx now => exact hquiet (List.append_nil requests).symm hwrote
  | readEof parser readIdx s' hread => cases hbenign
  | readFailed parser readIdx s' hread => cases hbenign
  | readResumed parser readIdx s' hread => 
    exact (List.append_nil out).symm ▸ wrote_readStep hwrote hread hserving'
  | replied request shouldClose response request' =>
    obtain ⟨before, hrequests, hout⟩ := hwrote
    cases hanswers request (List.mem_singleton_self request)
    cases shouldClose with
    | true => cases hserving
    | false =>
      refine hsame (idle_continueWrite _ _ _) (wrote_continueWrite hrequests rfl
        (Nat.zero_le _) ?_)
      rw [hout]
      rfl
  | repliedThrow request shouldClose x => cases hbenign
  | wrote reply written n hn =>
    obtain ⟨before, request, hrequests, hbuff, hlt, hout⟩ := hwrote
    obtain rfl := reply_of_serving hserving (.inl rfl)
    refine hsame (idle_continueWrite _ _ _) (wrote_continueWrite hrequests hbuff hn.2 ?_)
    rw [hout, List.append_assoc, List.take_add]
    rfl
  | writeAgain reply written now => exact hquiet (List.append_nil requests).symm hwrote
  | writeReset reply written => cases hbenign
  | writeFailed reply written reason => cases hbenign
  | writeExpired reply written ht =>
    obtain rfl := reply_of_serving hserving (.inr rfl)
    cases hserving'
  | writeResumed reply written ht =>
    obtain ⟨before, request, hrequests, hbuff, hlt, hout⟩ := hwrote
    obtain rfl := reply_of_serving hserving (.inr rfl)
    refine hsame (idle_continueWrite _ _ _) (wrote_continueWrite hrequests hbuff hlt.le ?_)
    rw [hout]
    exact List.append_nil _

/-! ### Runs -/

variable {rs : List RequestText}

/-- What a step keeps of a session in which nothing fails. -/
theorem servingInv_step (hlen : ∀ r ∈ rs, r.LengthAgrees) (hbody : ∀ r ∈ rs, BodyAllowed r)
    (hkeep : ∀ r ∈ rs, shouldCloseAfterResponse r.toRequest = false) {s s' : Session}
    {e : HandlerEvent} {rest : List HandlerEvent} (h : ServingInv rs s (e :: rest))
    (horderly : Orderly rs s e) (hstep : s.step e = some s') : ServingInv rs s' rest := by
  obtain ⟨hinv, hbenign, htimeout, hserving⟩ := h
  rw [readBytes_cons] at hinv
  obtain ⟨hserving', htimeout'⟩ := serving_of_orderly hlen hbody hkeep hinv horderly
    (hbenign e List.mem_cons_self) hstep htimeout hserving
  exact ⟨sessionInv_step hlen hbody hinv horderly hstep,
    fun x hx => hbenign x (List.mem_cons_of_mem e hx), htimeout', hserving'⟩

/-- **A handler writes the answers to its requests**, in order. -/
theorem wrote_run (hlen : ∀ r ∈ rs, r.LengthAgrees) (hbody : ∀ r ∈ rs, BodyAllowed r)
    (hkeep : ∀ r ∈ rs, shouldCloseAfterResponse r.toRequest = false) {events : List HandlerEvent} :
    ∀ {s s' : Session} {out : Bytes}, run Session.step s events = some s' →
      Along Session.step (fun s e _ => Orderly rs s e) s events →
      Along HandlerState.step (fun s e _ => s.Answers callback e) s.state events →
      ServingInv rs s events → s.state.Wrote callback s.invoked out →
      ServingInv rs s' [] ∧ s'.state.Wrote callback s'.invoked (out ++ s.state.sent events) := by
  induction events with
  | nil =>
    intro s s' out hrun _ _ hinv hwrote
    cases hrun
    exact ⟨hinv, (List.append_nil out).symm ▸ hwrote⟩
  | cons e events ih =>
    intro s s' out hrun halong halong' hinv hwrote
    obtain ⟨s₁, hs₁, hrest⟩ := run_cons_eq_some.mp hrun
    have hinv₁ := servingInv_step hlen hbody hkeep hinv halong.1 hs₁
    have hone := halong.2 s₁ hs₁
    obtain ⟨st, hst, rfl⟩ := Option.map_eq_some_iff.mp hs₁
    have hwrote₁ := wrote_step hwrote hinv.2.2.2 hinv₁.2.2.2 (hinv.2.1 e List.mem_cons_self)
      halong'.1 hst
    rw [HandlerState.sent_cons hst, ← List.append_assoc]
    exact ih hrest hone (halong'.2 st hst) hinv₁ hwrote₁

/-- A run of a handler is a session. -/
theorem session_run {events : List HandlerEvent} : ∀ {s : Session} {st : HandlerState},
    run HandlerState.step s.state events = some st →
      ∃ s', run Session.step s events = some s' ∧ s'.state = st ∧
        s'.received = s.received ++ readBytes events := by
  induction events with
  | nil =>
    intro s st hrun
    cases hrun
    exact ⟨s, rfl, rfl, (List.append_nil _).symm⟩
  | cons e events ih =>
    intro s st hrun
    obtain ⟨st₁, hst₁, hrest⟩ := run_cons_eq_some.mp hrun
    have hstep : s.step e =
        some ⟨st₁, s.received ++ e.bytesRead, s.invoked ++ st₁.frame.invocation⟩ := by
      rw [Session.step, hst₁]
      rfl
    obtain ⟨s', hs', hstate, hreceived⟩ :=
      @ih ⟨st₁, s.received ++ e.bytesRead, s.invoked ++ st₁.frame.invocation⟩ st hrest
    refine ⟨s', by rw [run_cons hstep]; exact hs', hstate, ?_⟩
    rw [hreceived, readBytes_cons, List.append_assoc]

/-! ### The client -/

omit [StdHash] in
theorem prefix_completeRequests (rs : List RequestText) : ∀ s, completeRequests rs s <+: rs := by
  induction rs with
  | nil => exact fun _ => List.prefix_refl _
  | cons r rs ih =>
    intro s
    rw [completeRequests]
    split
    · exact List.cons_prefix_cons.mpr ⟨rfl, ih _⟩
    · exact List.nil_prefix

omit [StdHash] in
/-- **The stream of a handler that serves**: whole answers to all its requests, or to all but
the latest one, and then a part of the answer to this one. -/
theorem HandlerState.Wrote.stream {s : HandlerState} (hwrote : s.Wrote callback requests out)
    (hserving : s.frame.Serving) :
    ∃ answered rest part, requests = answered ++ rest ∧ rest.length ≤ 1 ∧
      out = callback.answers answered ++ part ∧
      (part = [] ∨ ∃ next ∈ rest, part <+: (callback.answer next).dump ∧
        part ≠ (callback.answer next).dump) ∧
      ((∃ parser readIdx, s.frame = .readYield parser readIdx) → rest = [] ∧ part = []) := by
  obtain ⟨h, f⟩ := s
  cases f with
  | calling request shouldClose =>
    obtain ⟨before, rfl, rfl⟩ := hwrote
    exact ⟨before, [request], [], rfl, Nat.le_refl _, (List.append_nil _).symm, .inl rfl, nofun⟩
  | writing reply written | writeYield reply written =>
    obtain ⟨before, request, rfl, hbuff, hlt, rfl⟩ := hwrote
    rw [hbuff] at hlt ⊢
    refine ⟨before, [request], _, rfl, Nat.le_refl _, rfl,
      .inr ⟨request, List.mem_singleton_self _, List.take_prefix _ _, fun hall => ?_⟩, nofun⟩
    rw [List.take_eq_self_iff] at hall
    exact absurd hlt (Nat.not_lt.mpr hall)
  | returned | threw e => cases hserving
  | created | reading parser readIdx | readYield parser readIdx =>
    obtain rfl : out = callback.answers requests := hwrote
    exact ⟨requests, [], [], (List.append_nil _).symm, Nat.zero_le _, (List.append_nil _).symm,
      .inl rfl, fun _ => ⟨rfl, rfl⟩⟩

/-- What a worker's handler has written, when the requests of its client can be parsed, keep
the connection open and come one at a time. -/
theorem Worker.wrote_requests {ι : Type*} [DecidableEq ι] {cfg : WorkerConfig} {i : ι}
    {events : List WorkerEvent} {r : Worker × Descriptors ι}
    (hrun : run (Worker.step cfg i) ({}, fun _ => none) events = some r) (fd : ℕ)
    (hlen : ∀ r ∈ rs, r.LengthAgrees) (hbody : ∀ r ∈ rs, BodyAllowed r)
    (hkeep : ∀ r ∈ rs, shouldCloseAfterResponse r.toRequest = false)
    (hstream : readBytes (deliveries fd events) <+: wire rs)
    (hbenign : ∀ e ∈ deliveries fd events, e.Benign)
    (horderly : Along Session.step (fun s e _ => Orderly rs s e)
      (.start HandlerState.registered.handler) (deliveries fd events))
    (hanswers : Along HandlerState.step (fun s e _ => s.Answers callback e) .registered
      (deliveries fd events)) :
    ∃ s : HandlerState, s.frame.Serving ∧ s.Wrote callback
        ((completeRequests rs (readBytes (deliveries fd events))).map RequestText.toRequest)
        (HandlerState.registered.sent (deliveries fd events)) ∧
      (r.1.phase = .serving → ∀ c, r.1.handler? fd = some c → c.state = s) := by
  obtain ⟨st, hst, hhandler⟩ := (Worker.alone_run hrun).runs fd
  obtain ⟨s, hs, rfl, hreceived⟩ :=
    @session_run _ _ (.start HandlerState.registered.handler) _ hst
  have hstart : ServingInv rs (.start HandlerState.registered.handler) (deliveries fd events) :=
    ⟨sessionInv_start _ hstream, hbenign, rfl, trivial⟩
  have hnothing : HandlerState.registered.Wrote callback [] [] := rfl
  obtain ⟨⟨hsession, -, -, hserving⟩, hwrote⟩ :=
    wrote_run hlen hbody hkeep hs horderly hanswers hstart hnothing
  obtain ⟨before, todo, t, rfl, hrec, hinc, hinvoked, -, -⟩ := hsession
  -- the requests that have arrived are those the callback was invoked with
  have hcomplete : completeRequests (before ++ todo) (readBytes (deliveries fd events)) =
      before := by
    rw [show readBytes (deliveries fd events) = s.received from
      (hreceived.trans (List.nil_append _)).symm, hrec, completeRequests_append hinc]
  rw [hinvoked, List.nil_append] at hwrote
  exact ⟨s.state, hserving, hcomplete.symm ▸ hwrote, hhandler⟩

omit [StdHash] in
/-- Answers that can be told apart are read, up to a part of the latest one. -/
theorem readResponses_answers {answered rest : List HttpRequest} {part : Bytes}
    (hcallback : ∀ request ∈ answered ++ rest, (callback.answer request).SelfDelimited)
    (hpart : part = [] ∨ ∃ next ∈ rest, part <+: (callback.answer next).dump ∧
      part ≠ (callback.answer next).dump) :
    readResponses (callback.answers answered ++ part) =
      (answered.map fun request => (callback.answer request).parts, part) := by
  have hall : ∀ r ∈ answered.map callback.answer, r.SelfDelimited := by
    intro r hr
    obtain ⟨request, hrequest, rfl⟩ := List.mem_map.mp hr
    exact hcallback request (List.mem_append_left _ hrequest)
  have hnone : nextResponse part = none := by
    rcases hpart with rfl | ⟨next, hnext, hprefix, hne⟩
    · rfl
    · exact nextResponse_part (hcallback next (List.mem_append_right _ hnext)) hprefix hne
  have hread := readResponses_append hall hnone
  rw [List.flatMap_map, List.map_map] at hread
  exact hread

/-- When all requests have arrived, the steps that answer are in order. -/
theorem orderly_of_answering {events : List HandlerEvent}
    (hevents : ∀ e ∈ events, (∀ d, e ≠ .read d) ∧ e ≠ .resumed) :
    ∀ {s : Session}, s.received = wire rs →
      Along Session.step (fun s e _ => Orderly rs s e) s events := by
  induction events with
  | nil => exact fun _ => trivial
  | cons e events ih =>
    intro s hreceived
    obtain ⟨hread, hresumed⟩ := hevents e List.mem_cons_self
    have hbytes : e.bytesRead = [] := by
      cases e with
      | read d => exact absurd rfl (hread d)
      | _ => rfl
    -- only a pass of `readRequest` has locals
    have hpass : s.state.pass e = none := by
      unfold HandlerState.pass
      split
      · exact absurd rfl (hread _)
      · exact absurd rfl hresumed
      · rfl
    refine ⟨⟨?_, fun r₁ hr₁ => ?_, fun r₁ hr₁ => ?_⟩, fun s₁ hs₁ => ?_⟩
    · rw [hbytes, List.append_nil, hreceived, completeRequests_wire,
        List.take_of_length_le (Nat.le_succ _)]
    · cases hpass.symm.trans hr₁
    · cases hpass.symm.trans hr₁
    · obtain ⟨st, -, rfl⟩ := Option.map_eq_some_iff.mp hs₁
      refine ih (fun e' he' => hevents e' (List.mem_cons_of_mem e he')) ?_
      rw [hbytes, List.append_nil, hreceived]

/-- A request that comes in one piece, and the steps that answer it. -/
theorem orderly_of_one_read {r : RequestText} (hlen : r.LengthAgrees) (hbody : BodyAllowed r)
    {events : List HandlerEvent} (hevents : ∀ e ∈ events, (∀ d, e ≠ .read d) ∧ e ≠ .resumed) :
    Along Session.step (fun s e _ => Orderly [r] s e) (.start HandlerState.registered.handler)
      (.resumed :: .read r.render :: events) := by
  have hcomplete : ∀ r₁, Reading.stored (.start HandlerState.registered.handler.readBuff)
      (.data r.render) = some r₁ → requestOf r₁.text = some r.toRequest := by
    intro r₁ hr₁
    rw [(Reading.stored_spec hr₁ (Nat.zero_le _)).2.1]
    exact requestOf_render hlen hbody
  refine ⟨⟨Nat.zero_le _, nofun, nofun⟩, ?_⟩
  rintro s₁ ⟨⟩
  refine ⟨⟨?_, fun r₁ hr₁ => ?_, fun r₁ hr₁ hnone => ?_⟩, fun s₂ hs₂ => ?_⟩
  · rw [List.take_of_length_le (Nat.le_add_left 1 _), wire_cons, wire_nil, List.append_nil]
    exact Nat.le_refl _
  · exact quiet_of_complete (hcomplete r₁ hr₁) r₁.behind
  · rw [hcomplete r₁ hr₁] at hnone
    cases hnone
  · obtain ⟨st, -, rfl⟩ := Option.map_eq_some_iff.mp hs₂
    exact orderly_of_answering hevents (List.append_nil _).symm

end Steps

/-! ### A client beside another one -/

/-- Everything is answered with two bytes. -/
def greet : Callback := fun _ => ([.setStatusCode .ok, .setBody (ascii "hi")], keptRequest)

/-- A request comes to connection 5 while the client of connection 6 has begun one. -/
def twoClients : List WorkerEvent :=
  [.accepted 5 true 0, .accepted 6 true 0, .ready 6 [.read (ascii "GE"), .readAgain 1] true,
    .ready 5 [.read plainGet.render,
      .replied (.ok (.build [.setStatusCode .ok, .setBody (ascii "hi")], keptRequest)),
      .wrote 39, .readAgain 2] true]

theorem handlers_run_alone_twoClients :
    letI := polynomialHash
    ∃ r, run (Worker.step ⟨3, 100⟩ ()) ({}, fun _ => none) twoClients = some r ∧
      ∃ s, run HandlerState.step .registered
        [.resumed, .read (ascii "GE"), .readAgain 1] = some s ∧
        (r.1.phase = .serving → ∀ c, r.1.handler? 6 = some c → c.state = s) := by
  let _ := polynomialHash
  have hsome : (run (Worker.step ⟨3, 100⟩ ()) ({}, fun _ => none) twoClients).isSome = true := by
    decide +kernel
  obtain ⟨r, hrun⟩ := Option.isSome_iff_exists.mp hsome
  exact ⟨r, hrun, Worker.handlers_run_alone hrun 6⟩

end TpAdvanced
