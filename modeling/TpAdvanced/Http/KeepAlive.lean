import TpAdvanced.Http.ReadRequest
import TpAdvanced.Http.RoundTrip

/-!
# Several requests on one connection

A client writes requests one after another, and the kernel cuts the bytes into
`read` results as it likes.  `readRequest` starts each call with an empty parser
and keeps nothing of the call before, so the bytes of a `read` that reach beyond
the end of a request are dropped; and it looks at one byte more than it received.
As long as neither happens (`Orderly`), the callback is invoked with exactly the
requests that have been received completely.

## Main definitions

* `Session` — a run of `operator()` with what it received and whom it invoked.
* `wire`, `completeRequests` — the bytes of some requests, and the requests
  received completely.
* `Orderly` — the condition on a step.

## Main results

* `standing_complete`, `standing_open` — what a pass of `readRequest` does.
* `sessionInv_step` — an orderly step keeps the invariant of a session.
* `callback_invocations` — **orderly runs invoke the callback with exactly the
  requests received.**
-/

namespace TpAdvanced

open CText Outcome Machine HttpRequestParser

/-! ### Sessions -/

/-- The bytes an event delivers. -/
def HandlerEvent.bytesRead : HandlerEvent → Bytes
  | .read d => d
  | _ => []

/-- The invocation of the callback that leads to this place. -/
def Frame.invocation : Frame → List HttpRequest
  | .calling request _ => [request]
  | _ => []

/-- A run of `operator()`, with the bytes it has received and the requests it has
invoked the callback with. -/
structure Session where
  state : HandlerState
  received : Bytes
  invoked : List HttpRequest
  deriving DecidableEq, Repr

/-- The session of a handler that has not been resumed yet. -/
def Session.start (h : ConnectionHandler) : Session := ⟨⟨h, .created⟩, [], []⟩

def Session.step [StdHash] (s : Session) (e : HandlerEvent) : Option Session :=
  (s.state.step e).map fun state =>
    ⟨state, s.received ++ e.bytesRead, s.invoked ++ state.frame.invocation⟩

/-- The bytes a run delivers. -/
def readBytes (events : List HandlerEvent) : Bytes := events.flatMap HandlerEvent.bytesRead

/-- The requests, one after another. -/
def wire (rs : List RequestText) : Bytes := rs.flatMap RequestText.render

/-- The requests that have arrived completely. -/
def completeRequests : List RequestText → Bytes → List RequestText
  | [], _ => []
  | r :: rs, s =>
    if r.render.isPrefixOf s then r :: completeRequests rs (s.drop r.render.length) else []

/-! ### What has arrived -/

@[simp] theorem wire_nil : wire [] = [] := rfl

@[simp] theorem wire_cons (r : RequestText) (rs : List RequestText) :
    wire (r :: rs) = r.render ++ wire rs := rfl

theorem wire_append (rs rs' : List RequestText) : wire (rs ++ rs') = wire rs ++ wire rs' :=
  List.flatMap_append

theorem render_ne_nil (r : RequestText) : r.render ≠ [] := by
  simp [RequestText.render, crlf]

/-- The bytes `t` are a proper beginning of the next request, or none are to come. -/
def Incomplete (todo : List RequestText) (t : Bytes) : Prop :=
  match todo with
  | [] => t = []
  | r :: _ => t <+: r.render ∧ t ≠ r.render

theorem incomplete_nil (todo : List RequestText) : Incomplete todo [] := by
  cases todo with
  | nil => rfl
  | cons r todo => exact ⟨List.nil_prefix, (render_ne_nil r).symm⟩

/-- The requests in front of an incomplete one are the complete ones. -/
theorem completeRequests_append {todo : List RequestText} {t : Bytes} (ht : Incomplete todo t)
    (before : List RequestText) :
    completeRequests (before ++ todo) (wire before ++ t) = before := by
  induction before with
  | nil =>
    cases todo with
    | nil => rfl
    | cons r todo =>
      obtain ⟨hle, hne⟩ := ht
      have hno : ¬ r.render.isPrefixOf t := by
        intro h
        have hge := (List.isPrefixOf_iff_prefix.mp h).length_le
        exact hne (hle.eq_of_length (le_antisymm hle.length_le hge))
      exact if_neg hno
  | cons r before ih =>
    have hle : r.render.isPrefixOf (wire (r :: before) ++ t) := by
      rw [List.isPrefixOf_iff_prefix, wire_cons, List.append_assoc]
      exact List.prefix_append _ _
    rw [List.cons_append, completeRequests, if_pos hle, wire_cons, List.append_assoc,
      List.drop_left, ih]

theorem completeRequests_wire (rs : List RequestText) : completeRequests rs (wire rs) = rs := by
  have h := completeRequests_append (incomplete_nil []) rs
  rwa [List.append_nil, List.append_nil] at h

variable [StdHash]

/-! ### A pass of `readRequest` -/

/-- The locals of a pass, behind its `read`. -/
def HandlerState.pass (s : HandlerState) (e : HandlerEvent) : Option Reading :=
  match s.frame, e with
  | .reading parser readIdx, .read d =>
    Reading.stored ⟨parser, readIdx, s.handler.readBuff⟩ (.data d)
  | .readYield parser readIdx, .resumed =>
    Reading.stored ⟨parser, readIdx, s.handler.readBuff⟩ (.again s.handler.timeout)
  | _, _ => none

/-- `readRequest` has received `t`, and its parser stands where a fresh one does. -/
structure Standing (r : Reading) (t : Bytes) : Prop where
  text : r.text = t
  idx_le : r.readIdx ≤ r.buff.size
  follows : ∀ future, r.Follows future
  live : r.PathLive

theorem standing_start (buff : ReadBuff) : Standing (.start buff) [] where
  text := by simp [Reading.text, Reading.start]
  idx_le := Nat.zero_le _
  follows := Reading.follows_start buff
  live := .inl rfl

theorem step_of_stored {r r₁ : Reading} {x : ReadResult} (hs : r.stored x = some r₁) :
    r.step x = some r₁.afterRead := by
  cases x with
  | data d =>
    simp only [Reading.stored] at hs
    split at hs
    · rename_i hd
      cases hs
      exact dif_pos hd.symm
    · cases hs
  | again timedOut =>
    cases timedOut with
    | true => cases hs
    | false =>
      cases hs
      rfl
  | eof => cases hs
  | failed => cases hs

/-- On a quiet pass the parser does what a fresh one does to the received bytes. -/
theorem standing_agree {r r₁ : Reading} {x : ReadResult} {t : Bytes} (h : Standing r t)
    (hs : r.stored x = some r₁) (hquiet : Quiet r₁.text r₁.behind) :
    Agree SameContents (r₁.parser.parse (r₁.buff.view (r₁.readIdx + 1)))
      (parse {} ⟨0, t ++ x.bytes, []⟩) := by
  have htext : r₁.text = t ++ x.bytes := by
    rw [← h.text]
    exact (Reading.stored_spec hs h.idx_le).2.1
  have hagree := Reading.afterRead_agree h.idx_le (h.follows (x.bytes ++ [])) hs
  rw [← htext]
  exact hagree.trans sameContents_equivalence (agree_concat_of_quiet hquiet)

/-- A pass that completes a request returns it. -/
theorem standing_complete {r r₁ : Reading} {x : ReadResult} {t : Bytes} (h : Standing r t)
    (hs : r.stored x = some r₁) (hquiet : Quiet r₁.text r₁.behind) {request : HttpRequest}
    (hreq : requestOf (t ++ x.bytes) = some request) :
    r.step x = some (.returned (some request) r₁.buff) := by
  have hagree := standing_agree h hs hquiet
  cases hq : parse {} ⟨0, t ++ x.bytes, []⟩ with
  | error e => simp [requestOf, hq] at hreq
  | ok q =>
    have hdone : q.isDone = true := by
      by_contra hopen
      simp [requestOf, hq, hopen] at hreq
    rw [hq] at hagree
    obtain ⟨p, hp, hsame⟩ := (hagree.symm sameContents_equivalence).exists_ok
    have hpdone : p.isDone = true := by
      rw [isDone, ← hsame.state]
      exact hdone
    have hstorage : p.path.storage = r₁.buff.storage := by
      have hstate : p.state = .done := by simpa [isDone] using hpdone
      have hlive := Reading.pathLive_stored hs h.idx_le h.live
      exact (Reading.storage_of_pathLive hlive hp).resolve_left (by simp [hstate])
    have hbuild := buildRequest_eq hq hdone (sameContents_equivalence.symm hsame) hstorage
    rw [hreq] at hbuild
    rw [step_of_stored hs, Reading.afterRead, hp]
    simp only [hpdone, if_true, ← Option.some.inj hbuild]

/-- A pass that completes nothing goes on reading. -/
theorem standing_open {r r₁ : Reading} {x : ReadResult} {t : Bytes} (h : Standing r t)
    (hs : r.stored x = some r₁) (hquiet : Quiet r₁.text r₁.behind) (hno : ¬ r₁.Regrows)
    {q : HttpRequestParser} (hq : parse {} ⟨0, t ++ x.bytes, []⟩ = .ok q)
    (hopen : q.isDone = false) :
    ∃ r', r.step x = some (.reading r') ∧ Standing r' (t ++ x.bytes) := by
  have hagree := standing_agree h hs hquiet
  rw [hq] at hagree
  obtain ⟨p, hp, hsame⟩ := (hagree.symm sameContents_equivalence).exists_ok
  have hpopen : p.isDone = false := by
    rw [isDone, ← hsame.state]
    exact hopen
  obtain ⟨-, htext, hidx₁, -, -⟩ := Reading.stored_spec hs h.idx_le
  obtain ⟨hgrown, -, hidx₂⟩ := Reading.grown_spec r₁ p hidx₁
  refine ⟨⟨p, r₁.readIdx, r₁.grown⟩, ?_, ?_, hidx₂, fun future => ?_, ?_⟩
  · rcases r₁.afterRead_cases with ⟨e, he, -⟩ | ⟨p', hp', ⟨hdone, -⟩ | ⟨-, ha⟩⟩
    · rw [hp] at he
      cases he
    · rw [hp] at hp'
      cases hp'
      rw [hpopen] at hdone
      cases hdone
    · rw [hp] at hp'
      cases hp'
      rw [step_of_stored hs, ha]
  · rw [hgrown, htext, h.text]
  · exact Reading.follows_of_harmless h.idx_le (h.follows (x.bytes ++ future)) hs (.inl hquiet) hp
      hpopen
  · exact Reading.pathLive_of_not_regrows h.idx_le (h.follows (x.bytes ++ [])) hs
      (Reading.pathLive_stored hs h.idx_le h.live) hno hp

/-! ### What a step of `operator()` can do -/

/-- Nothing goes to the parser. -/
def ReadResult.fails : ReadResult → Bool
  | .eof | .failed | .again true => true
  | _ => false

/-- Neither the socket nor the callback fails, and the client does not hang up. -/
def HandlerEvent.Benign : HandlerEvent → Prop
  | .readEof | .readFailed | .writeReset | .writeFailed _ | .replied (.error _) => False
  | _ => True

/-- The handler is neither reading nor finished. -/
def Frame.Between : Frame → Prop
  | .created | .calling _ _ | .writing _ _ | .writeYield _ _ => True
  | _ => False

/-- The handler has left the request behind: it is answering, about to read the
next one, or finished. -/
def Frame.Idle : Frame → Prop
  | .reading parser readIdx => parser = {} ∧ readIdx = 0
  | .writing _ _ | .writeYield _ _ | .returned | .threw _ => True
  | _ => False

omit [StdHash] in
theorem idle_continueWrite (h : ConnectionHandler) (reply : Reply) (written : ℕ) :
    (h.continueWrite reply written).frame.Idle := by
  unfold ConnectionHandler.continueWrite
  split
  · cases reply with
    | response shouldClose => cases shouldClose <;> simp [ConnectionHandler.finishWrite,
        ConnectionHandler.beginRead, Frame.Idle]
    | rejection => trivial
  · trivial

omit [StdHash] in
theorem idle_catchThrown (h : ConnectionHandler) (e : Thrown) : (h.catchThrown e).frame.Idle := by
  cases e with
  | parsingException message code => exact idle_continueWrite _ _ _
  | _ => trivial

omit [StdHash] in
theorem idle_throwInWrite (h : ConnectionHandler) (reply : Reply) (e : Thrown) :
    (h.throwInWrite reply e).frame.Idle := by
  cases reply with
  | response shouldClose => exact idle_catchThrown h e
  | rejection => trivial

omit [StdHash] in
theorem invocation_of_idle {f : Frame} (h : f.Idle) : f.invocation = [] := by
  cases f with
  | calling request shouldClose => cases h
  | _ => rfl

/-- The handler goes on serving: it is not finished, and not about to be. -/
def Frame.Serving : Frame → Prop
  | .created | .reading _ _ | .readYield _ _ | .calling _ false => True
  | .writing (.response false) _ | .writeYield (.response false) _ => True
  | _ => False

omit [StdHash] in
/-- Only a response that keeps the connection open is written by a serving handler. -/
theorem reply_of_serving {frame : Frame} {reply : Reply} {written : ℕ} (h : frame.Serving)
    (hf : frame = .writing reply written ∨ frame = .writeYield reply written) :
    reply = .response false := by
  rcases hf with rfl | rfl
  all_goals
    cases reply with
    | response shouldClose => cases shouldClose <;> trivial
    | rejection => cases h

omit [StdHash] in
theorem serving_continueWrite (h : ConnectionHandler) (written : ℕ) :
    (h.continueWrite (.response false) written).frame.Serving := by
  unfold ConnectionHandler.continueWrite
  split <;> trivial

omit [StdHash] in
@[simp] theorem continueWrite_timeout (h : ConnectionHandler) (reply : Reply) (written : ℕ) :
    (h.continueWrite reply written).handler.timeout = h.timeout := by
  unfold ConnectionHandler.continueWrite
  split
  · cases reply with
    | response shouldClose => cases shouldClose <;> rfl
    | rejection => rfl
  · rfl

/-- **What a step can do**: a pass of `readRequest`, a suspension there, or a step
outside of it, which reads nothing and leaves the request behind. -/
theorem HandlerState.step_cases {s s' : HandlerState} {e : HandlerEvent} (h : s.step e = some s') :
    (∃ parser readIdx x, (s.frame = .reading parser readIdx ∨ s.frame = .readYield parser readIdx) ∧
        e.bytesRead = x.bytes ∧
        s.pass e = Reading.stored ⟨parser, readIdx, s.handler.readBuff⟩ x ∧
        (x.fails = true → e.Benign → s.handler.timeout = true) ∧
        HandlerState.readStep s.handler parser readIdx x = some s') ∨
      (∃ parser readIdx now, s.frame = .reading parser readIdx ∧ e = .readAgain now ∧
        s' = ⟨s.handler.updateLastActivity now, .readYield parser readIdx⟩) ∨
      (e.bytesRead = [] ∧ s.frame.Between ∧ s'.frame.Idle) := by
  obtain ⟨handler, frame⟩ := s
  cases HandlerState.rule_of_step h with
  | expired ht => exact .inr (.inr ⟨rfl, trivial, trivial⟩)
  | entered ht => exact .inr (.inr ⟨rfl, trivial, rfl, rfl⟩)
  | read parser readIdx d s' hread =>
    exact .inl ⟨parser, readIdx, .data d, .inl rfl, rfl, rfl, by rintro ⟨⟩, hread⟩
  | readAgain parser readIdx now =>
    -- nothing there: the coroutine yields in the loop of `readRequest`
    exact .inr (.inl ⟨parser, readIdx, now, rfl, rfl, rfl⟩)
  | readEof parser readIdx s' hread =>
    exact .inl ⟨parser, readIdx, .eof, .inl rfl, rfl, rfl, fun _ => False.elim, hread⟩
  | readFailed parser readIdx s' hread =>
    exact .inl ⟨parser, readIdx, .failed, .inl rfl, rfl, rfl, fun _ => False.elim, hread⟩
  | readResumed parser readIdx s' hread =>
    refine .inl ⟨parser, readIdx, .again handler.timeout, .inr rfl, rfl, rfl,
      fun hfails _ => ?_, hread⟩
    -- resumed with the flag down, the loop goes on
    cases hto : handler.timeout with
    | true => rfl
    | false =>
      rw [hto] at hfails
      cases hfails
  | replied request shouldClose response request' =>
    exact .inr (.inr ⟨rfl, trivial, idle_continueWrite _ _ _⟩)
  | repliedThrow request shouldClose x =>
    exact .inr (.inr ⟨rfl, trivial, idle_catchThrown handler x⟩)
  | wrote reply written n hn => exact .inr (.inr ⟨rfl, trivial, idle_continueWrite _ _ _⟩)
  | writeAgain reply written now => exact .inr (.inr ⟨rfl, trivial, trivial⟩)
  | writeReset reply written =>
    refine .inr (.inr ⟨rfl, trivial, ?_⟩)
    cases reply with
    | response shouldClose => cases shouldClose <;> trivial
    | rejection => trivial
  | writeFailed reply written reason =>
    exact .inr (.inr ⟨rfl, trivial, idle_throwInWrite handler reply _⟩)
  | writeExpired reply written ht =>
    exact .inr (.inr ⟨rfl, trivial, idle_throwInWrite handler reply _⟩)
  | writeResumed reply written ht => exact .inr (.inr ⟨rfl, trivial, idle_continueWrite _ _ _⟩)

/-! ### The invariant of a session -/

/-- The step keeps to one request: a `read` ends no later than the request it falls
in, the byte behind the received ones is not awaited, and the buffer is not
reallocated behind the request line of an incomplete request. -/
structure Orderly (rs : List RequestText) (s : Session) (e : HandlerEvent) : Prop where
  within : (s.received ++ e.bytesRead).length ≤
    (wire (rs.take ((completeRequests rs s.received).length + 1))).length
  quiet : ∀ r₁, s.state.pass e = some r₁ → Quiet r₁.text r₁.behind
  live : ∀ r₁, s.state.pass e = some r₁ → requestOf r₁.text = none → ¬ r₁.Regrows

/-- The bytes of the request under way, as the handler's place has them. -/
def FrameInv (s : HandlerState) (t : Bytes) : Prop :=
  match s.frame with
  | .reading parser readIdx => Standing ⟨parser, readIdx, s.handler.readBuff⟩ t
  | .readYield parser readIdx => Standing ⟨parser, readIdx, s.handler.readBuff⟩ t
  | .returned => True
  | .threw _ => True
  | _ => t = []

/-- The invariant of a session, `future` being the bytes to come: the requests
received completely are those the callback was invoked with, and the handler stands
within the next one. -/
def SessionInv (rs : List RequestText) (s : Session) (future : Bytes) : Prop :=
  ∃ before todo t, rs = before ++ todo ∧ s.received = wire before ++ t ∧ Incomplete todo t ∧
    s.invoked = before.map RequestText.toRequest ∧ FrameInv s.state t ∧
    s.received ++ future <+: wire rs

theorem between_of_frameInv {s : HandlerState} {t : Bytes} (hf : s.frame.Between)
    (h : FrameInv s t) : t = [] := by
  obtain ⟨handler, frame⟩ := s
  cases frame with
  | created => exact h
  | calling request shouldClose => exact h
  | writing reply written => exact h
  | writeYield reply written => exact h
  | _ => cases hf

theorem frameInv_of_idle {s : HandlerState} (hf : s.frame.Idle) : FrameInv s [] := by
  obtain ⟨handler, frame⟩ := s
  cases frame with
  | reading parser readIdx =>
    obtain ⟨rfl, rfl⟩ := hf
    exact standing_start handler.readBuff
  | writing reply written => rfl
  | writeYield reply written => rfl
  | returned => trivial
  | threw x => trivial
  | _ => cases hf

/-- The bytes `u` are a beginning of the next request. -/
def Within (todo : List RequestText) (u : Bytes) : Prop :=
  match todo with
  | [] => u = []
  | r :: _ => u <+: r.render

/-- What an orderly `read` has led to. -/
inductive PassEffect (todo : List RequestText) (u : Bytes) (x : ReadResult) (s' : HandlerState) :
    Prop
  /-- The request is not complete. -/
  | goesOn (hopen : Incomplete todo u) (hinv : FrameInv s' u)
      (hframe : ∃ parser readIdx, s'.frame = .reading parser readIdx)
  /-- The callback is invoked with the request. -/
  | invokes (r : RequestText) (rest : List RequestText) (htodo : todo = r :: rest)
      (hu : u = r.render)
      (hframe : s'.frame = .calling r.toRequest (shouldCloseAfterResponse r.toRequest))
  /-- The run ends. -/
  | ends (hopen : Incomplete todo u) (hfails : x.fails = true)
      (hframe : s'.frame = .returned ∨ ∃ e, s'.frame = .threw e)

/-- **An orderly pass** stays within the request, or completes it and invokes the
callback with it. -/
theorem passEffect_of_readStep {todo : List RequestText} (hlen : ∀ r ∈ todo, r.LengthAgrees)
    (hbody : ∀ r ∈ todo, BodyAllowed r) {h : ConnectionHandler} {parser : HttpRequestParser}
    {readIdx : ℕ} {t : Bytes} (hst : Standing ⟨parser, readIdx, h.readBuff⟩ t)
    (hinc : Incomplete todo t) {x : ReadResult} (hwithin : Within todo (t ++ x.bytes))
    {s' : HandlerState}
    (hstep : HandlerState.readStep h parser readIdx x = some s')
    (hquiet : ∀ r₁, Reading.stored ⟨parser, readIdx, h.readBuff⟩ x = some r₁ →
      Quiet r₁.text r₁.behind)
    (hlive : ∀ r₁, Reading.stored ⟨parser, readIdx, h.readBuff⟩ x = some r₁ →
      requestOf r₁.text = none → ¬ r₁.Regrows) :
    PassEffect todo (t ++ x.bytes) x s' := by
  cases hs : Reading.stored ⟨parser, readIdx, h.readBuff⟩ x with
  | none =>
    -- nothing goes to the parser: the end of the stream, an error or a timeout
    have hinc' : Incomplete todo (t ++ []) := by rwa [List.append_nil]
    cases x with
    | data d =>
      simp only [Reading.stored] at hs
      split at hs
      · cases hs
      · rename_i hno
        simp [HandlerState.readStep, Reading.step, mt And.symm hno] at hstep
    | again timedOut =>
      cases timedOut with
      | true =>
        cases hstep
        exact .ends hinc' rfl (.inl rfl)
      | false => cases hs
    | eof =>
      cases hstep
      exact .ends hinc' rfl (.inl rfl)
    | failed =>
      cases hstep
      exact .ends hinc' rfl (.inr ⟨_, rfl⟩)
  | some r₁ =>
    have htext : r₁.text = t ++ x.bytes := by
      rw [← hst.text]
      exact (Reading.stored_spec hs hst.idx_le).2.1
    have hgo : ∀ q, parse {} ⟨0, t ++ x.bytes, []⟩ = .ok q → q.isDone = false →
        Incomplete todo (t ++ x.bytes) → PassEffect todo (t ++ x.bytes) x s' := by
      intro q hq hopen hinc'
      have hnone : requestOf r₁.text = none := by
        rw [htext]
        exact requestOf_eq_none_of_open hq hopen
      obtain ⟨r', hr', hst'⟩ := standing_open hst hs (hquiet r₁ hs) (hlive r₁ hs hnone) hq hopen
      rw [HandlerState.readStep, hr'] at hstep
      cases hstep
      exact .goesOn hinc' hst' ⟨_, _, rfl⟩
    cases todo with
    | nil =>
      have hu : t ++ x.bytes = [] := hwithin
      refine hgo {} ?_ rfl hu
      rw [hu]
      exact parse_nil 0 []
    | cons r rest =>
      have hlen' := hlen r List.mem_cons_self
      have hbody' := hbody r List.mem_cons_self
      by_cases hu : t ++ x.bytes = r.render
      · have hreq : requestOf (t ++ x.bytes) = some r.toRequest := by
          rw [hu]
          exact requestOf_render hlen' hbody'
        have hret := standing_complete hst hs (hquiet r₁ hs) hreq
        rw [HandlerState.readStep, hret] at hstep
        cases hstep
        exact .invokes r rest rfl hu rfl
      · obtain ⟨q, hq, hopen⟩ := parse_prefix_render hlen' hbody' hwithin hu
        exact hgo q hq hopen ⟨hwithin, hu⟩

omit [StdHash] in
/-- An orderly `read` of the stream stays within the next request. -/
theorem within_of_orderly {before todo : List RequestText} {t d future : Bytes}
    (ht : Incomplete todo t)
    (hstream : wire before ++ t ++ (d ++ future) <+: wire (before ++ todo))
    (hle : (wire before ++ t ++ d).length ≤
      (wire ((before ++ todo).take (before.length + 1))).length) :
    Within todo (t ++ d) := by
  rw [List.take_length_add_append, wire_append] at hle
  rw [wire_append, List.append_assoc, List.prefix_append_right_inj] at hstream
  have hpre : t ++ d <+: wire todo := by
    refine List.IsPrefix.trans ?_ hstream
    rw [← List.append_assoc]
    exact List.prefix_append _ _
  simp only [List.append_assoc, List.length_append] at hle
  cases todo with
  | nil => exact List.prefix_nil.mp hpre
  | cons r rest =>
    rw [wire_cons] at hpre
    refine List.prefix_of_prefix_length_le hpre (List.prefix_append _ _) ?_
    simpa [wire] using hle

/-- What an orderly pass of a session has led to. -/
theorem passEffect_of_orderly {before todo : List RequestText}
    (hlen : ∀ r ∈ before ++ todo, r.LengthAgrees) (hbody : ∀ r ∈ before ++ todo, BodyAllowed r)
    {s : Session} {t future : Bytes} (hrec : s.received = wire before ++ t)
    (hinc : Incomplete todo t) (hframe : FrameInv s.state t) {e : HandlerEvent}
    (hstream : s.received ++ (e.bytesRead ++ future) <+: wire (before ++ todo))
    (horderly : Orderly (before ++ todo) s e) {parser : HttpRequestParser} {readIdx : ℕ}
    {x : ReadResult}
    (hf : s.state.frame = .reading parser readIdx ∨ s.state.frame = .readYield parser readIdx)
    (hbytes : e.bytesRead = x.bytes)
    (hpass : s.state.pass e = Reading.stored ⟨parser, readIdx, s.state.handler.readBuff⟩ x)
    {st : HandlerState} (hread : HandlerState.readStep s.state.handler parser readIdx x = some st) :
    PassEffect todo (t ++ x.bytes) x st := by
  have hstanding : Standing ⟨parser, readIdx, s.state.handler.readBuff⟩ t := by
    rcases hf with hf | hf <;> simpa only [FrameInv, hf] using hframe
  have hcomplete : completeRequests (before ++ todo) s.received = before := by
    rw [hrec]
    exact completeRequests_append hinc before
  have hwithin : Within todo (t ++ x.bytes) := by
    refine @within_of_orderly before todo t x.bytes future hinc ?_ ?_
    · rw [← hrec, ← hbytes]
      exact hstream
    · have hle := horderly.within
      rwa [hcomplete, hrec, hbytes] at hle
  apply passEffect_of_readStep (fun r hr => hlen r (List.mem_append_right before hr))
    (fun r hr => hbody r (List.mem_append_right before hr)) hstanding hinc hwithin hread
  · intro r₁ hr₁
    exact horderly.quiet r₁ (hpass.trans hr₁)
  · intro r₁ hr₁
    exact horderly.live r₁ (hpass.trans hr₁)

/-- **An orderly step keeps the invariant.** -/
theorem sessionInv_step {rs : List RequestText} (hlen : ∀ r ∈ rs, r.LengthAgrees)
    (hbody : ∀ r ∈ rs, BodyAllowed r) {s s' : Session} {e : HandlerEvent} {future : Bytes}
    (hinv : SessionInv rs s (e.bytesRead ++ future)) (horderly : Orderly rs s e)
    (hstep : s.step e = some s') : SessionInv rs s' future := by
  obtain ⟨before, todo, t, rfl, hrec, hinc, hinvoked, hframe, hstream⟩ := hinv
  obtain ⟨st, hst, rfl⟩ := Option.map_eq_some_iff.mp hstep
  have hstream' : (s.received ++ e.bytesRead) ++ future <+: wire (before ++ todo) := by
    rw [List.append_assoc]
    exact hstream
  rcases HandlerState.step_cases hst with
    ⟨parser, readIdx, x, hf, hbytes, hpass, -, hread⟩ | ⟨parser, readIdx, now, hf, rfl, rfl⟩ |
      ⟨hbytes, hf, hidle⟩
  · -- a pass of `readRequest`
    have heffect := passEffect_of_orderly hlen hbody hrec hinc hframe hstream horderly hf hbytes
      hpass hread
    cases heffect with
    | goesOn hopen hframe' hreading =>
      obtain ⟨parser', readIdx', hreading⟩ := hreading
      refine ⟨before, todo, t ++ x.bytes, rfl, ?_, hopen, ?_, hframe', hstream'⟩
      · rw [hrec, hbytes, List.append_assoc]
      · simp [hreading, Frame.invocation, hinvoked]
    | invokes r rest htodo hu hcall =>
      subst htodo
      refine ⟨before ++ [r], rest, [], by simp, ?_, incomplete_nil rest, ?_, ?_, hstream'⟩
      · rw [hrec, hbytes, List.append_assoc, hu, wire_append]
        simp
      · rw [hinvoked, hcall]
        simp [Frame.invocation]
      · simp [FrameInv, hcall]
    | ends hopen _ hend =>
      refine ⟨before, todo, t ++ x.bytes, rfl, ?_, hopen, ?_, ?_, hstream'⟩
      · rw [hrec, hbytes, List.append_assoc]
      · rcases hend with hend | ⟨x, hend⟩ <;> simp [hend, Frame.invocation, hinvoked]
      · rcases hend with hend | ⟨x, hend⟩ <;> simp [FrameInv, hend]
  · -- nothing has arrived: `readRequest` is suspended with its locals as they are
    refine ⟨before, todo, t, rfl, ?_, hinc, ?_, ?_, hstream'⟩
    · exact (List.append_nil _).trans hrec
    · exact (List.append_nil _).trans hinvoked
    · have hstanding : Standing ⟨parser, readIdx, s.state.handler.readBuff⟩ t := by
        simpa only [FrameInv, hf] using hframe
      exact hstanding
  · -- between two calls of `readRequest` nothing is read
    obtain rfl := between_of_frameInv hf hframe
    refine ⟨before, todo, [], rfl, ?_, hinc, ?_, frameInv_of_idle hidle, hstream'⟩
    · rw [hbytes, List.append_nil]
      exact hrec
    · rw [invocation_of_idle hidle, List.append_nil]
      exact hinvoked

/-! ### Going on -/

/-- Outside of `readRequest` a benign step leaves a serving handler serving. -/
theorem serving_step {s s' : HandlerState} {e : HandlerEvent} (hstep : s.step e = some s')
    (hbenign : e.Benign) (htimeout : s.handler.timeout = false) (hserving : s.frame.Serving)
    (hf : s.frame.Between) : s'.frame.Serving ∧ s'.handler.timeout = false := by
  obtain ⟨handler, frame⟩ := s
  cases HandlerState.rule_of_step hstep with
  | entered ht => exact ⟨trivial, htimeout⟩
  | replied request shouldClose response request' =>
    cases shouldClose with
    | true => cases hserving
    | false => exact ⟨serving_continueWrite _ _, (continueWrite_timeout _ _ _).trans htimeout⟩
  | wrote reply written n hn =>
    obtain rfl := reply_of_serving hserving (.inl rfl)
    exact ⟨serving_continueWrite _ _, (continueWrite_timeout _ _ _).trans htimeout⟩
  | writeAgain reply written now =>
    obtain rfl := reply_of_serving hserving (.inl rfl)
    exact ⟨trivial, htimeout⟩
  | writeResumed reply written ht =>
    obtain rfl := reply_of_serving hserving (.inr rfl)
    exact ⟨serving_continueWrite _ _, (continueWrite_timeout _ _ _).trans htimeout⟩
  -- a handler with the flag up would end
  | expired ht => cases ht.symm.trans htimeout
  | writeExpired reply written ht => cases ht.symm.trans htimeout
  | repliedThrow request shouldClose x => cases hbenign
  | writeReset reply written => cases hbenign
  | writeFailed reply written reason => cases hbenign
  | _ => cases hf

theorem readStep_timeout {h : ConnectionHandler} {parser : HttpRequestParser} {readIdx : ℕ}
    {x : ReadResult} {s' : HandlerState}
    (hread : HandlerState.readStep h parser readIdx x = some s') :
    s'.handler.timeout = h.timeout := by
  obtain ⟨o, -, rfl⟩ := Option.map_eq_some_iff.mp hread
  cases o with
  | reading r => rfl
  | returned request buff => cases request <;> rfl
  | threw e buff =>
    cases e with
    | parsingException message code => exact continueWrite_timeout _ _ _
    | _ => rfl

/-- **An orderly benign step leaves a serving handler serving**, when no request asks
to close the connection. -/
theorem serving_of_orderly {rs : List RequestText} (hlen : ∀ r ∈ rs, r.LengthAgrees)
    (hbody : ∀ r ∈ rs, BodyAllowed r)
    (hkeep : ∀ r ∈ rs, shouldCloseAfterResponse r.toRequest = false) {s s' : Session}
    {e : HandlerEvent} {future : Bytes} (hinv : SessionInv rs s (e.bytesRead ++ future))
    (horderly : Orderly rs s e) (hbenign : e.Benign) (hstep : s.step e = some s')
    (htimeout : s.state.handler.timeout = false) (hserving : s.state.frame.Serving) :
    s'.state.frame.Serving ∧ s'.state.handler.timeout = false := by
  obtain ⟨before, todo, t, rfl, hrec, hinc, -, hframe, hstream⟩ := hinv
  obtain ⟨st, hst, rfl⟩ := Option.map_eq_some_iff.mp hstep
  rcases HandlerState.step_cases hst with
    ⟨parser, readIdx, x, hf, hbytes, hpass, hfail, hread⟩ | ⟨parser, readIdx, now, hf, rfl, rfl⟩ |
      ⟨-, hf, -⟩
  · refine ⟨?_, (readStep_timeout hread).trans htimeout⟩
    have heffect := passEffect_of_orderly hlen hbody hrec hinc hframe hstream horderly hf hbytes
      hpass hread
    cases heffect with
    | goesOn hopen hframe' hreading =>
      obtain ⟨parser', readIdx', hreading⟩ := hreading
      simp [hreading, Frame.Serving]
    | invokes r rest htodo hu hcall =>
      have hr := hkeep r (by simp [htodo])
      simp [hcall, hr, Frame.Serving]
    | ends hopen hfails hend =>
      -- without a failure only a timeout ends a pass, and there is none
      have htrue := hfail hfails hbenign
      rw [htimeout] at htrue
      cases htrue
  · exact ⟨trivial, htimeout⟩
  · exact serving_step hst hbenign htimeout hserving hf

/-! ### The callback's invocations -/

/-- The invariant of a session that nothing fails in. -/
def ServingInv (rs : List RequestText) (s : Session) (rest : List HandlerEvent) : Prop :=
  SessionInv rs s (readBytes rest) ∧ (∀ e ∈ rest, e.Benign) ∧
    s.state.handler.timeout = false ∧ s.state.frame.Serving

theorem sessionInv_start {rs : List RequestText} (h : ConnectionHandler) {future : Bytes}
    (hstream : future <+: wire rs) : SessionInv rs (.start h) future :=
  ⟨[], rs, [], rfl, rfl, incomplete_nil rs, rfl, rfl, hstream⟩

omit [StdHash] in
theorem readBytes_cons (e : HandlerEvent) (events : List HandlerEvent) :
    readBytes (e :: events) = e.bytesRead ++ readBytes events := rfl

/-- **Orderly runs**: the callback is invoked with exactly the requests that have
been received completely, in their order; and where nothing fails and no request
asks to close the connection, the handler goes on serving. -/
theorem callback_invocations {rs : List RequestText} (hlen : ∀ r ∈ rs, r.LengthAgrees)
    (hbody : ∀ r ∈ rs, BodyAllowed r)
    (hkeep : ∀ r ∈ rs, shouldCloseAfterResponse r.toRequest = false) {h : ConnectionHandler}
    {events : List HandlerEvent} {s' : Session}
    (hrun : run Session.step (Session.start h) events = some s')
    (hstream : readBytes events <+: wire rs)
    (horderly : Along Session.step (fun s e _ => Orderly rs s e) (Session.start h) events) :
    s'.invoked = (completeRequests rs s'.received).map RequestText.toRequest ∧
      (s'.received = wire rs → s'.invoked = rs.map RequestText.toRequest) ∧
      (h.timeout = false → (∀ e ∈ events, e.Benign) → s'.state.frame.Serving) := by
  have hstart := sessionInv_start h hstream
  have hall :
      Along Session.step (fun s e _ => Orderly rs s e) (Session.start h) (events ++ []) := by
    rwa [List.append_nil]
  have hinvoked : s'.invoked = (completeRequests rs s'.received).map RequestText.toRequest := by
    have hinv : SessionInv rs s' (readBytes []) := by
      refine invariant_along (fun s rest => SessionInv rs s (readBytes rest)) ?_ ?_ hall hrun
      · intro s e rest s₁ hinv horderly hstep
        rw [readBytes_cons] at hinv
        exact sessionInv_step hlen hbody hinv horderly hstep
      · rwa [List.append_nil]
    obtain ⟨before, todo, t, rfl, hrec, hinc, hinvoked, -, -⟩ := hinv
    rw [hinvoked, hrec, completeRequests_append hinc]
  refine ⟨hinvoked, fun hreceived => ?_, fun htimeout hbenign => ?_⟩
  · rw [hinvoked, hreceived, completeRequests_wire]
  · have hinv : ServingInv rs s' [] := by
      refine invariant_along (ServingInv rs) ?_ ?_ hall hrun
      · rintro s e rest s₁ ⟨hinv, hbenign, htimeout, hserving⟩ horderly hstep
        rw [readBytes_cons] at hinv
        obtain ⟨hserving', htimeout'⟩ := serving_of_orderly hlen hbody hkeep hinv horderly
          (hbenign e List.mem_cons_self) hstep htimeout hserving
        exact ⟨sessionInv_step hlen hbody hinv horderly hstep,
          fun x hx => hbenign x (List.mem_cons_of_mem e hx), htimeout', hserving'⟩
      · rw [List.append_nil]
        exact ⟨hstart, hbenign, htimeout, trivial⟩
    exact hinv.2.2.2

/-! ### Runs -/

/-- `GET /k` with the header lines and the body. -/
def getText (headers : List HeaderField) (body : Bytes) (hne : headers ≠ [])
    (hlt : body.length < 2 ^ 64) : RequestText where
  method := .get
  path := ascii "/k"
  query := none
  version := .http1_1
  headers := headers
  body := body
  path_ne := by decide
  path_clean := by simp [ascii]
  headers_ne := hne
  body_lt := hlt

def hostField : HeaderField :=
  ⟨ascii "Host", ascii "a", true, by simp [ascii], by decide, by decide⟩

def lengthField : HeaderField :=
  ⟨ascii "Content-Length", ascii "1", true, by simp [ascii], by decide, by decide⟩

def plainGet : RequestText := getText [hostField] [] (by decide) length_nil_lt

def getWithBody : RequestText := getText [lengthField] (ascii "x") (by decide) (by decide)

/-- A handler that reads. -/
def freshHandler : ConnectionHandler := .new (.ofList [.in_]) 1

omit [StdHash] in
/-- A request that arrives in one piece, on a connection that stays open. -/
theorem callback_invocations_one_read :
    letI := polynomialHash
    ∃ s', run Session.step (.start freshHandler) [.resumed, .read plainGet.render] = some s' ∧
      s'.invoked = [plainGet.toRequest] ∧ s'.state.frame.Serving := by
  let _ := polynomialHash
  have hsome :
      (run Session.step (.start freshHandler) [.resumed, .read plainGet.render]).isSome := by
    decide +kernel
  obtain ⟨s', hrun⟩ := Option.isSome_iff_exists.mp hsome
  refine ⟨s', hrun, ?_⟩
  have horderly : Along Session.step (fun s e _ => Orderly [plainGet] s e) (.start freshHandler)
      [.resumed, .read plainGet.render] := by
    refine ⟨⟨by decide +kernel, fun r₁ hr₁ => ?_, fun r₁ hr₁ => ?_⟩, ?_⟩
    · cases hr₁
    · cases hr₁
    · rintro s₁ ⟨⟩
      have hcomplete : ∀ r₁, Reading.stored (.start freshHandler.readBuff) (.data plainGet.render) =
          some r₁ → requestOf r₁.text = some plainGet.toRequest := by
        intro r₁ hr₁
        rw [(Reading.stored_spec hr₁ (Nat.zero_le _)).2.1]
        decide +kernel
      refine ⟨⟨by decide +kernel, fun r₁ hr₁ => ?_, fun r₁ hr₁ hnone => ?_⟩, fun _ _ => trivial⟩
      · exact quiet_of_complete (hcomplete r₁ hr₁) r₁.behind
      · rw [hcomplete r₁ hr₁] at hnone
        cases hnone
  have hlen : ∀ r ∈ [plainGet], r.LengthAgrees := List.forall_mem_singleton.mpr (by decide +kernel)
  have hbody : ∀ r ∈ [plainGet], BodyAllowed r := by decide +kernel
  have hkeep : ∀ r ∈ [plainGet], shouldCloseAfterResponse r.toRequest = false := by decide +kernel
  obtain ⟨-, hall, hserving⟩ :=
    callback_invocations hlen hbody hkeep hrun (by decide +kernel) horderly
  have hreceived : (run Session.step (.start freshHandler) [.resumed, .read plainGet.render]).map
      Session.received = some (wire [plainGet]) := by
    decide +kernel
  rw [hrun] at hreceived
  exact ⟨hall (Option.some.inj hreceived), hserving rfl (by simp [HandlerEvent.Benign])⟩

/-- Every benign run invokes the callback with the requests it has received. -/
def InvokesReceived (rs : List RequestText) : Prop :=
  ∀ h events s', run Session.step (.start h) events = some s' → readBytes events <+: wire rs →
    h.timeout = false → (∀ e ∈ events, e.Benign) →
      s'.invoked = (completeRequests rs s'.received).map RequestText.toRequest

omit [StdHash] in
/-- Two requests in one `read`: the second is lost.  And a GET with a body: the
callback is invoked with another request. -/
theorem surplus_bytes_lost :
    letI := polynomialHash
    (plainGet.LengthAgrees ∧ shouldCloseAfterResponse plainGet.toRequest = false ∧
        ¬ InvokesReceived [plainGet, plainGet]) ∧
      getWithBody.LengthAgrees ∧ shouldCloseAfterResponse getWithBody.toRequest = false ∧
        ¬ InvokesReceived [getWithBody] := by
  let _ := polynomialHash
  refine ⟨⟨by decide +kernel, by decide +kernel, fun h => ?_⟩, by decide +kernel,
    by decide +kernel, fun h => ?_⟩
  · have hsome : (run Session.step (.start freshHandler)
        [.resumed, .read (wire [plainGet, plainGet])]).map (fun s => (s.received, s.invoked)) =
        some (wire [plainGet, plainGet], [plainGet.toRequest]) := by
      decide +kernel
    obtain ⟨s', hrun, hs'⟩ := Option.map_eq_some_iff.mp hsome
    obtain ⟨hreceived, hinvoked⟩ := Prod.mk.inj hs'
    have hall := h freshHandler _ s' hrun (by decide +kernel) rfl (by simp [HandlerEvent.Benign])
    rw [hreceived, hinvoked, completeRequests_wire] at hall
    simpa using congrArg List.length hall
  · have hsome : (run Session.step (.start freshHandler)
        [.resumed, .read getWithBody.render]).map (fun s => (s.received, s.invoked)) =
        some (wire [getWithBody], [{ getWithBody.toRequest with body := [] }]) := by
      decide +kernel
    obtain ⟨s', hrun, hs'⟩ := Option.map_eq_some_iff.mp hsome
    obtain ⟨hreceived, hinvoked⟩ := Prod.mk.inj hs'
    have hall := h freshHandler _ s' hrun (by decide +kernel) rfl (by simp [HandlerEvent.Benign])
    rw [hreceived, hinvoked, completeRequests_wire] at hall
    have hbody := congrArg (List.map HttpRequest.body) hall
    exact absurd hbody (by decide +kernel)

end TpAdvanced
