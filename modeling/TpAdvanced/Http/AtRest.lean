import TpAdvanced.Http.HandlerSocket

/-!
# Every request is answered

A client takes turns with a handler: it does not send a request before it has read the
answer to the one before.  It can never be that both wait for each other.  Where neither the
handler can go on nor the client can fetch anything, all requests that the client has sent
completely are answered, and the client has the answers.

## Main definitions

* `TakesTurns` — a client that sends its requests one at a time.
* `Exchanging` — what holds as long as the client does.

## Main results

* `exchanging_run` — the requests and their answers, on their ways.
* `goes_on` — a handler that serves can go on, or waits for the client.
* `answered_at_rest` — **at rest every request is answered.**
-/

namespace TpAdvanced

open CText HttpRequestParser Machine Readiness

/-! ### Taking turns -/

section Turns

variable [StdHash] {callback : Callback} {rs : List RequestText} {x x' : Link HandlerState UInt8}
  {requests : List HttpRequest}

/-- **A client that takes turns**: it sends its requests, but nothing of a request before it
has read the answer to the one before, and it does not hang up.  Of the handler's steps this
asks what `Orderly` does. -/
def TakesTurns (rs : List RequestText) (x : Link HandlerState UInt8) :
    Event HandlerEvent UInt8 → Prop
  | .send d => x.sent ++ d <+: wire rs ∧
      (x.sent ++ d).length ≤ (wire (rs.take ((readResponses x.fetched).1.length + 1))).length
  | .finish => False
  | .fetch _ => True
  | .service e => ∀ r₁, x.service.pass e = some r₁ →
      Quiet r₁.text r₁.behind ∧ (requestOf r₁.text = none → ¬ r₁.Regrows)

/-- **What holds as long as the client takes turns**, the callback having been invoked with
these requests. -/
structure Exchanging (callback : Callback) (rs : List RequestText)
    (x : Link HandlerState UInt8) (requests : List HttpRequest) : Prop where
  balanced : x.Balanced
  running : x.wire.ended = false
  session : SessionInv rs ⟨x.service, x.read, requests⟩ x.wire.inbound
  serving : x.service.frame.Serving
  timeout : x.service.handler.timeout = false
  wrote : x.service.Wrote callback requests x.written
  /-- Nothing has been sent behind the request under way. -/
  within : x.sent.length ≤ (wire (rs.take (requests.length + 1))).length

theorem SessionInv.completeRequests_eq {s : Session} {future : Bytes}
    (h : SessionInv rs s future) :
    s.invoked = (completeRequests rs s.received).map RequestText.toRequest := by
  obtain ⟨before, todo, t, rfl, hrec, hinc, hinvoked, -, -⟩ := h
  rw [hinvoked, hrec, completeRequests_append hinc]

omit [StdHash] in
theorem length_wire_take_mono {m n : ℕ} (h : m ≤ n) (rs : List RequestText) :
    (wire (rs.take m)).length ≤ (wire (rs.take n)).length := by
  obtain ⟨rest, hrest⟩ := List.take_prefix_take_left (l := rs) h
  rw [← hrest, wire_append, List.length_append]
  exact Nat.le_add_right _ _

omit [StdHash] in
/-- The client cannot have read more answers than there are. -/
theorem length_readResponses_le_of_wrote {s : HandlerState} {out fetched : Bytes}
    (hwrote : s.Wrote callback requests out) (hserving : s.frame.Serving)
    (hself : ∀ request ∈ requests, (callback.answer request).SelfDelimited)
    (hfetched : fetched <+: out) : (readResponses fetched).1.length ≤ requests.length := by
  obtain ⟨answered, rest, part, rfl, -, rfl, hpart, -⟩ := hwrote.stream hserving
  have hnone : ∀ piece, piece <+: part → nextResponse piece = none := by
    intro piece hpiece
    rcases hpart with rfl | ⟨next, hnext, hpre, hne⟩
    · rw [List.prefix_nil.mp hpiece]
      rfl
    · refine nextResponse_part (hself next (List.mem_append_right _ hnext))
        (hpiece.trans hpre) ?_
      rintro rfl
      exact hne (hpre.eq_of_length_le hpiece.length_le)
  have hall : ∀ r ∈ answered.map callback.answer, r.SelfDelimited := by
    intro r hr
    obtain ⟨request, hrequest, rfl⟩ := List.mem_map.mp hr
    exact hself request (List.mem_append_left _ hrequest)
  have hstream : callback.answers answered =
      (answered.map callback.answer).flatMap HttpResponse.dump := by
    rw [List.flatMap_map]
    rfl
  rw [hstream] at hfetched
  have hle := length_readResponses_le hall hnone hfetched
  rw [List.length_map] at hle
  rw [List.length_append]
  exact hle.trans (Nat.le_add_right _ _)

/-- Without errors, and as long as the client has not hung up. -/
theorem benign_of_socketCall {s s' : HandlerState} {e : HandlerEvent} {c : Call UInt8}
    (hc : s.socketCall e = some c) (hend : c ≠ .readEnd) (hanswers : s.Answers callback e)
    (hstep : s.step e = some s') : e.Benign := by
  obtain ⟨h, f⟩ := s
  cases HandlerState.rule_of_step hstep with
  | readEof parser readIdx s' hread =>
    cases hc
    exact absurd rfl hend
  | readFailed | writeReset | writeFailed => cases hc
  | repliedThrow request shouldClose x =>
    cases hanswers request (List.mem_singleton_self request)
  | _ => trivial

variable {e : Event HandlerEvent UInt8}

/-- **A step of the handler.** -/
theorem exchanging_service (hlen : ∀ r ∈ rs, r.LengthAgrees) (hbody : ∀ r ∈ rs, BodyAllowed r)
    (hkeep : ∀ r ∈ rs, shouldCloseAfterResponse r.toRequest = false)
    (h : Exchanging callback rs x requests) {e : HandlerEvent} {c : Call UInt8} {w : Wire UInt8}
    {s : HandlerState} (hturns : TakesTurns rs x (.service e))
    (hc : x.service.socketCall e = some c)
    (hw : x.wire.Answers ((HandlerState.service callback).interests x.service) c w)
    (hanswers : x.service.Answers callback e) (hstep : x.service.step e = some s)
    (hbalanced : Link.Balanced { x with
      service := s, wire := w, read := x.read ++ c.bytesRead,
      written := x.written ++ c.bytesWritten }) :
    Exchanging callback rs { x with
      service := s, wire := w, read := x.read ++ c.bytesRead,
      written := x.written ++ c.bytesWritten } (requests ++ s.frame.invocation) := by
  obtain ⟨hread, hwritten⟩ := HandlerState.bytes_socketCall hc
  obtain ⟨hin, -, hended, -, -⟩ := hw.carries
  have hend : c ≠ .readEnd := by
    rintro rfl
    cases hw with
    | readEnd hnil hclosed =>
      rw [h.running] at hclosed
      cases hclosed
  have hbenign := benign_of_socketCall hc hend hanswers hstep
  have hsession := h.session
  rw [hin, hread] at hsession
  have hstep' : Session.step ⟨x.service, x.read, requests⟩ e =
      some ⟨s, x.read ++ e.bytesRead, requests ++ s.frame.invocation⟩ := by
    rw [Session.step, hstep]
    rfl
  -- what is read has been sent, and nothing has been sent behind the request under way
  have horderly : Orderly rs ⟨x.service, x.read, requests⟩ e := by
    refine ⟨?_, fun r₁ hr₁ => (hturns r₁ hr₁).1, fun r₁ hr₁ => (hturns r₁ hr₁).2⟩
    have hcount := congrArg List.length hsession.completeRequests_eq
    rw [List.length_map] at hcount
    rw [← hcount]
    refine le_trans ?_ h.within
    rw [h.balanced.sent, hin, hread, ← List.append_assoc]
    exact (List.prefix_append _ _).length_le
  obtain ⟨hserving, htimeout⟩ := serving_of_orderly hlen hbody hkeep hsession horderly hbenign
    hstep' h.timeout h.serving
  refine ⟨hbalanced, hended.trans h.running, ?_, hserving, htimeout, ?_, ?_⟩
  · rw [hread]
    exact sessionInv_step hlen hbody hsession horderly hstep'
  · rw [hwritten]
    exact wrote_step h.wrote h.serving hserving hbenign hanswers hstep
  · refine h.within.trans (length_wire_take_mono (Nat.succ_le_succ ?_) rs)
    rw [List.length_append]
    exact Nat.le_add_right _ _

/-- **What a step keeps**, of the handler or of the client. -/
theorem exchanging_step (hlen : ∀ r ∈ rs, r.LengthAgrees) (hbody : ∀ r ∈ rs, BodyAllowed r)
    (hkeep : ∀ r ∈ rs, shouldCloseAfterResponse r.toRequest = false)
    (hself : ∀ r ∈ rs, (callback.answer r.toRequest).SelfDelimited)
    (h : Exchanging callback rs x requests) (hturns : TakesTurns rs x e)
    (hstep : x.step (HandlerState.service callback) e = some x') :
    ∃ requests', Exchanging callback rs x' requests' := by
  have hbalanced := Link.balanced_step h.balanced hstep
  cases Link.step_eq_some.mp hstep with
  | send d hne hopen =>
    obtain ⟨hpre, hle⟩ := hturns
    refine ⟨requests, hbalanced, h.running, ?_, h.serving, h.timeout, h.wrote, ?_⟩
    · obtain ⟨before, todo, t, hrs, hrec, hinc, hinvoked, hframe, -⟩ := h.session
      refine ⟨before, todo, t, hrs, hrec, hinc, hinvoked, hframe, ?_⟩
      change x.read ++ (x.wire.inbound ++ d) <+: wire rs
      rw [← List.append_assoc, ← h.balanced.sent]
      exact hpre
    · refine hle.trans (length_wire_take_mono (Nat.succ_le_succ ?_) rs)
      refine length_readResponses_le_of_wrote h.wrote h.serving ?_ ?_
      · intro request hrequest
        rw [show requests = _ from h.session.completeRequests_eq] at hrequest
        obtain ⟨r, hr, rfl⟩ := List.mem_map.mp hrequest
        exact hself r ((prefix_completeRequests rs _).subset hr)
      · rw [h.balanced.written]
        exact List.prefix_append _ _
  | finish hopen => cases hturns
  | fetch n hpos hle =>
    exact ⟨requests, hbalanced, h.running, h.session, h.serving, h.timeout, h.wrote, h.within⟩
  | service e c w s hc hw hs =>
    obtain ⟨hanswers, hst⟩ := service_eq_some.mp hs
    exact ⟨_, exchanging_service hlen hbody hkeep h hturns hc hw hanswers hst hbalanced⟩

/-- **The requests and their answers, on their ways.** -/
theorem exchanging_run (hlen : ∀ r ∈ rs, r.LengthAgrees) (hbody : ∀ r ∈ rs, BodyAllowed r)
    (hkeep : ∀ r ∈ rs, shouldCloseAfterResponse r.toRequest = false)
    (hself : ∀ r ∈ rs, (callback.answer r.toRequest).SelfDelimited) {capacity : ℕ}
    {events : List (Event HandlerEvent UInt8)}
    (hrun : run (Link.step (HandlerState.service callback)) (.start .registered capacity) events =
      some x)
    (hturns : Along (Link.step (HandlerState.service callback)) (fun x e _ => TakesTurns rs x e)
      (.start .registered capacity) events) :
    ∃ requests, Exchanging callback rs x requests := by
  have hstart : ∃ requests, Exchanging callback rs (.start .registered capacity) requests :=
    ⟨[], Link.balanced_start _ _, rfl, sessionInv_start _ List.nil_prefix, trivial, rfl, rfl,
      Nat.zero_le _⟩
  rw [← List.append_nil events] at hturns
  refine invariant_along (C := fun x e _ => TakesTurns rs x e)
    (fun x _ => ∃ requests, Exchanging callback rs x requests) ?_ hstart hturns hrun
  rintro x e _ x' ⟨requests, h⟩ hturn hstep
  exact exchanging_step hlen hbody hkeep hself h hturn hstep

/-! ### At rest -/

/-- **A handler that serves can go on**, unless it sleeps before a `read` and its socket has
nothing for it, as long as the client fetches what is written. -/
theorem goes_on {s : HandlerState} {w : Wire UInt8} {out : Bytes} (hmasked : s.Masked)
    (hroomy : s.Roomy) (hserving : s.frame.Serving) (htimeout : s.handler.timeout = false)
    (hwrote : s.Wrote callback requests out) (hwritable : w.Writable) :
    (¬ w.Readable ∧
      (s.frame = .created ∨ ∃ parser readIdx, s.frame = .readYield parser readIdx)) ∨
      ∃ e c s' w', s.socketCall e = some c ∧ (HandlerState.service callback).step s e = some s' ∧
        w.Answers ((HandlerState.service callback).interests s) c w' := by
  obtain ⟨h, f⟩ := s
  have hin : h.set = .ofList [.in_] → w.Readable →
      w.Ready ((HandlerState.service callback).interests ⟨h, f⟩) := by
    intro hset hreadable
    refine .inl ⟨?_, hreadable⟩
    change h.set.contains .in_ = true
    rw [hset]
    rfl
  have hout : h.set = .ofList [.out] →
      w.Ready ((HandlerState.service callback).interests ⟨h, f⟩) := by
    intro hset
    refine .inr ⟨?_, hwritable⟩
    change h.set.contains .out = true
    rw [hset]
    rfl
  cases f with
  | created =>
    by_cases hreadable : w.Readable
    · exact .inr ⟨.resumed, .woken, _, w, rfl,
        service_of_nil rfl (if_neg (Bool.eq_false_iff.mp htimeout)),
        .woken (hin hmasked hreadable)⟩
    · exact .inl ⟨hreadable, .inl rfl⟩
  | reading parser readIdx =>
    by_cases hreadable : w.Readable
    · cases hinbound : w.inbound with
      | nil =>
        have hended := hreadable.resolve_left fun hne => hne hinbound
        exact .inr ⟨.readEof, .readEnd, _, w, rfl, service_of_nil rfl rfl,
          .readEnd hinbound hended⟩
      | cons b rest =>
        -- the room is for a byte at least
        have hfits : [b] ≠ [] ∧ readIdx + [b].length ≤ h.readBuff.size :=
          ⟨List.cons_ne_nil b [], hroomy⟩
        have hstep : HandlerState.step ⟨h, .reading parser readIdx⟩ (.read [b]) =
            some (h.afterReadRequest
              (Reading.fill ⟨parser, readIdx, h.readBuff⟩ [b] hfits.2).afterRead) := by
          change (Reading.step _ _).map _ = _
          rw [Reading.step, dif_pos hfits]
          rfl
        exact .inr ⟨.read [b], .read [b], _, _, rfl, service_of_nil rfl hstep,
          .read [b] rest hfits.1 hinbound⟩
    · exact .inr ⟨.readAgain 0, .readAgain, _, w, rfl, service_of_nil rfl rfl,
        .readAgain hreadable⟩
  | readYield parser readIdx =>
    by_cases hreadable : w.Readable
    · have hstep : HandlerState.step ⟨h, .readYield parser readIdx⟩ .resumed =
          some (h.afterReadRequest (Reading.afterRead ⟨parser, readIdx, h.readBuff⟩)) := by
        change HandlerState.readStep h parser readIdx (.again h.timeout) = _
        rw [show h.timeout = false from htimeout]
        rfl
      exact .inr ⟨.resumed, .woken, _, w, rfl, service_of_nil rfl hstep,
        .woken (hin hmasked hreadable)⟩
    · exact .inl ⟨hreadable, .inr ⟨parser, readIdx, rfl⟩⟩
  | calling request shouldClose =>
    refine .inr ⟨.replied (.ok (.build (callback request).1, (callback request).2)), .nothing, _, w,
      rfl, service_eq_some.mpr ⟨?_, rfl⟩, .nothing⟩
    intro request' hrequest
    rw [List.mem_singleton.mp hrequest]
  | writing reply written =>
    obtain ⟨before, request, -, -, hlt, -⟩ := hwrote
    have hlen : (HandlerState.sentBy ⟨h, .writing reply written⟩ (.wrote 1)).length = 1 := by
      change ((h.writeBuff.drop written).take 1).length = 1
      rw [List.length_take, List.length_drop]
      exact Nat.min_eq_left (Nat.sub_pos_of_lt hlt)
    refine .inr ⟨.wrote 1, _, _, _, rfl, service_of_nil rfl (if_pos ⟨Nat.one_pos, hlt⟩),
      .wrote _ (List.ne_nil_of_length_eq_add_one hlen) ?_⟩
    rw [hlen]
    exact hwritable
  | writeYield reply written =>
    exact .inr ⟨.resumed, .woken, _, w, rfl,
      service_of_nil rfl (if_neg (Bool.eq_false_iff.mp htimeout)), .woken (hout hmasked)⟩
  | returned => cases hserving
  | threw e => cases hserving

/-- **A handler that serves sleeps before a `read`**, when it is at rest, and its socket has
nothing for it. -/
theorem idle_at_rest (h : Exchanging callback rs x requests) (hmasked : x.service.Masked)
    (hroomy : x.service.Roomy) (hcapacity : 0 < x.wire.capacity)
    (hrest : x.AtRest (HandlerState.service callback)) :
    ¬ x.wire.Readable ∧ (x.service.frame = .created ∨
      ∃ parser readIdx, x.service.frame = .readYield parser readIdx) := by
  have hwritable : x.wire.Writable := by
    rw [Wire.Writable, hrest.fetched]
    exact hcapacity
  rcases goes_on hmasked hroomy h.serving h.timeout h.wrote hwritable with
    hidle | ⟨e, c, s', w', hc, hs, hw⟩
  · exact hidle
  · exact absurd hw (hrest.no_answer hc hs)

theorem fits_run {capacity : ℕ} {events : List (Event HandlerEvent UInt8)}
    (hrun : run (Link.step (HandlerState.service callback)) (.start .registered capacity) events =
      some x) : x.service.Masked ∧ x.service.Roomy ∧ x.wire.capacity = capacity := by
  have hroomy : 0 < (List.replicate initialBufferSize (0 : UInt8)).length := by
    rw [List.length_replicate]
    decide
  refine invariant_run
    (fun x => x.service.Masked ∧ x.service.Roomy ∧ x.wire.capacity = capacity) ?_
    ⟨rfl, hroomy, rfl⟩ hrun
  rintro x e x' ⟨hmasked, hroomy, hcapacity⟩ hstep
  have hkeep : x'.service.Masked ∧ x'.service.Roomy := by
    refine Link.service_step (fun s => s.Masked ∧ s.Roomy) ?_ ⟨hmasked, hroomy⟩ hstep
    rintro s e s' ⟨hmasked, hroomy⟩ hs
    have hs := (service_eq_some.mp hs).2
    exact ⟨masked_step hmasked hs, roomy_step hroomy hs⟩
  exact ⟨hkeep.1, hkeep.2, (Link.capacity_step hstep).trans hcapacity⟩

/-- A handler that sleeps before a `read` is at rest when its socket has nothing for it. -/
theorem atRest_of_readYield {parser : HttpRequestParser} {readIdx : ℕ}
    (hmasked : x.service.Masked) (hframe : x.service.frame = .readYield parser readIdx)
    (hno : ¬ x.wire.Readable) (hfetched : x.wire.outbound = []) :
    x.AtRest (HandlerState.service callback) := by
  refine ⟨fun e => Option.eq_none_iff_forall_ne_some.mpr fun x' hx' => ?_, hfetched⟩
  obtain ⟨⟨h, f⟩, socket, sent, read, written, fetched⟩ := x
  subst hframe
  cases Link.step_eq_some.mp hx' with
  | service e c w s hc hw hs =>
    cases HandlerState.rule_of_step (service_eq_some.mp hs).2 with
    | readResumed parser readIdx s' hread =>
      cases hc
      cases hw with
      | woken hready => exact hno (ready_of_masked hmasked hready)

/-- Nothing is asked of the steps that answer. -/
theorem takesTurns_of_answering {events : List (Event HandlerEvent UInt8)}
    (hevents : ∀ e ∈ events, (∃ n, e = .fetch n) ∨
      ∃ e', e = .service e' ∧ (∀ d, e' ≠ .read d) ∧ e' ≠ .resumed) :
    ∀ {x : Link HandlerState UInt8}, Along (Link.step (HandlerState.service callback))
      (fun x e _ => TakesTurns rs x e) x events := by
  induction events with
  | nil => exact trivial
  | cons e events ih =>
    intro x
    refine ⟨?_, fun x' _ => ih fun e' he' => hevents e' (List.mem_cons_of_mem e he')⟩
    rcases hevents e List.mem_cons_self with ⟨n, rfl⟩ | ⟨e, rfl, hread, hresumed⟩
    · trivial
    · intro r₁ hr₁
      unfold HandlerState.pass at hr₁
      split at hr₁
      · exact absurd rfl (hread _)
      · exact absurd rfl hresumed
      · cases hr₁

/-- A request that is sent in one piece and read in one piece, and the steps that answer it. -/
theorem takesTurns_of_one_read {r : RequestText} (hlen : r.LengthAgrees) (hbody : BodyAllowed r)
    {capacity : ℕ} {events : List (Event HandlerEvent UInt8)}
    (hevents : ∀ e ∈ events, (∃ n, e = .fetch n) ∨
      ∃ e', e = .service e' ∧ (∀ d, e' ≠ .read d) ∧ e' ≠ .resumed) :
    Along (Link.step (HandlerState.service callback)) (fun x e _ => TakesTurns [r] x e)
      (.start .registered capacity)
      (.send r.render :: .service .resumed :: .service (.read r.render) :: events) := by
  have hwire : wire [r] = r.render := by rw [wire_cons, wire_nil, List.append_nil]
  refine ⟨⟨?_, ?_⟩, fun x₁ hx₁ => ?_⟩
  · rw [hwire]
    exact List.prefix_refl _
  · rw [List.take_of_length_le (Nat.le_add_left 1 _), hwire]
    exact Nat.le_refl _
  cases Link.step_eq_some.mp hx₁ with
  | send d hne hopen =>
    refine ⟨nofun, fun x₂ hx₂ => ?_⟩
    cases Link.step_eq_some.mp hx₂ with
    | service e c w s hc hw hs =>
      cases (service_eq_some.mp hs).2
      refine ⟨fun r₁ hr₁ => ?_, fun x₃ _ => takesTurns_of_answering hevents⟩
      have hstored : Reading.stored (.start HandlerState.registered.handler.readBuff)
          (.data r.render) = some r₁ := hr₁
      have hcomplete : requestOf r₁.text = some r.toRequest := by
        rw [(Reading.stored_spec hstored (Nat.zero_le _)).2.1]
        exact requestOf_render hlen hbody
      refine ⟨quiet_of_complete hcomplete r₁.behind, fun hnone => ?_⟩
      rw [hcomplete] at hnone
      cases hnone

end Turns

/-- A request, its answer, and the next attempt to read. -/
def oneExchange : List (Event HandlerEvent UInt8) :=
  [.send plainGet.render, .service .resumed, .service (.read plainGet.render),
    .service (.replied (.ok (.build [.setStatusCode .ok, .setBody (ascii "hi")], keptRequest))),
    .service (.wrote 39), .service (.readAgain 1), .fetch 39]

end TpAdvanced
