import TpAdvanced.Lib.Readiness
import TpAdvanced.Tcp.EchoHandler

/-!
# The echo server and a client

The handler of the echo server at the socket of one of its connections.  What the client
fetches is always the beginning of what it has sent; and as long as the client does not end
its stream, every byte comes back.  The socket does not fail.

## Main definitions

* `EchoState.service` — the handler at the socket.
* `EchoState.work` — what is left to do without the client sending anything.
* `Echoing` — what has been read and written, in the terms of the context.

## Main results

* `not_endless_echo` — the handler and a client cannot go on for ever.
* `echoing_run` — nothing is lost in the context.
* `echo_at_rest` — **what comes back.**
-/

namespace TpAdvanced

open CText Machine Readiness

namespace EchoState

/-- What an event of the handler is to its socket.  Errors are left out. -/
def socketCall (s : EchoState) : EchoEvent → Option (Call UInt8)
  | .ready events => some (.wokenFor ⟨events.contains .in_, events.contains .out⟩)
  | .read d => some (.read d)
  | .readAgain => some .readAgain
  | .readEof a => if a.shutdown && a.close then some .readEnd else none
  | .wrote n => some (.wrote (s.ctx.pending.take n))
  | .writeAgain => some .writeAgain
  | _ => none

/-- **The handler as a service.** -/
def service : Service EchoState EchoEvent UInt8 where
  step := step
  call := socketCall
  interests s := ⟨s.interestSet.contains .in_, s.interestSet.contains .out⟩

/-! ### What is left to do -/

section Work

variable {w w' : Wire UInt8} {s s' : EchoState} {e : EchoEvent} {c : Call UInt8}

/-- What is left to do where the handler stands. -/
def frameWork (w : Wire UInt8) (s : EchoState) : ℕ :=
  match s.frame with
  | .outside =>
    if s.opened then
      (if w.Readable then 2 else 0) +
        if s.interestSet.contains .out = true ∧ w.Writable then 3 else 0
    else 0
  | .reading _ => if w.Readable then 1 else 8
  | .writing => if w.Writable then 1 else 4
  | .threw => 0

/-- **What is left to do** without the client sending anything: every byte is to be read,
written and fetched. -/
def work (w : Wire UInt8) (s : EchoState) : ℕ :=
  20 * w.inbound.length + 8 * s.ctx.pending.length + 4 * w.outbound.length + frameWork w s

/-- Behind `handleWrite` output is of interest only if something is left to write. -/
theorem contains_out_subOut (h : s.Interested) (hnone : s.hasPending = false) :
    s.subOut.interestSet.contains .out = false := by
  unfold subOut
  rw [if_neg (Bool.eq_false_iff.mp hnone)]
  change (s.interestSet.sub .out).contains .out = false
  rcases h with hset | hset
  · rw [hset]
    decide
  · rw [hset]
    decide

theorem frameWork_finish (w : Wire UInt8) (h : s.Interested) : frameWork w s.finish ≤
    (if w.Readable then 2 else 0) + if s.hasPending = true ∧ w.Writable then 3 else 0 := by
  have hout : (if s.subOut.interestSet.contains .out = true ∧ w.Writable then 3 else 0) ≤
      if s.hasPending = true ∧ w.Writable then 3 else 0 := by
    cases hpending : s.hasPending with
    | true =>
      split
      · rename_i hboth
        rw [if_pos ⟨rfl, hboth.2⟩]
      · exact Nat.zero_le _
    | false => rw [contains_out_subOut h hpending, if_neg nofun]
  change (if s.subOut.opened then _ + _ else _) ≤ _
  split
  · exact Nat.add_le_add_left hout _
  · exact Nat.zero_le _

theorem hasPending_subOut (s : EchoState) : s.subOut.hasPending = s.hasPending := by
  unfold subOut
  split <;> rfl

theorem interested_subOut (h : s.Interested) : s.subOut.Interested := by
  unfold subOut
  split
  · exact h
  · refine .inl ?_
    change s.interestSet.sub .out = _
    rcases h with hset | hset
    · rw [hset]
      decide
    · rw [hset]
      decide

theorem frameWork_continueWrite (w : Wire UInt8) (h : s.Interested) :
    frameWork w s.continueWrite ≤
      if s.hasPending then (if w.Writable then 1 else 4) else if w.Readable then 2 else 0 := by
  unfold continueWrite
  split
  · unfold frameWork
    cases s.opened with
    | true => exact Nat.le_refl _
    | false => exact Nat.zero_le _
  · rename_i hnone
    have hle := frameWork_finish w (interested_subOut h)
    rw [hasPending_subOut, if_neg (c := s.hasPending = true ∧ w.Writable) fun hc => hnone hc.1]
      at hle
    exact hle

theorem frameWork_handleOut (w : Wire UInt8) (h : s.Interested) (events : EventsSet) :
    frameWork w (s.handleOut events) ≤ 4 + if w.Readable then 2 else 0 := by
  unfold handleOut
  split
  · refine (frameWork_continueWrite w h).trans ?_
    split <;> split <;> omega
  · refine (frameWork_finish w h).trans ?_
    split <;> split <;> omega

/-- On a closed connection nothing is left to do. -/
theorem frameWork_closed (w : Wire UInt8) (hclosed : s.opened = false) (events : EventsSet) :
    frameWork w (s.endRead events) = 0 := by
  have hsub : ∀ {s : EchoState}, s.opened = false → s.subOut.opened = false := by
    intro s hs
    unfold subOut
    split <;> exact hs
  have hfinish : ∀ {s : EchoState}, s.opened = false → frameWork w s.finish = 0 := by
    intro s hs
    exact if_neg (Bool.eq_false_iff.mp (hsub hs))
  have hout : ∀ {s : EchoState}, s.opened = false → frameWork w (s.handleOut events) = 0 := by
    intro s hs
    unfold handleOut continueWrite
    split
    · split
      · rw [hs]
        rfl
      · exact hfinish (hsub hs)
    · exact hfinish hs
  unfold endRead
  split
  · exact hout hclosed
  · exact hout hclosed

theorem frameWork_reading (w : Wire UInt8) {events : EventsSet} (hf : s.frame = .reading events) :
    0 < frameWork w s ∧ frameWork w s ≤ 8 := by
  unfold frameWork
  rw [hf]
  dsimp only
  split <;> decide

theorem interested_beforeOut (h : s.Interested) :
    (if s.hasPending then { s with interestSet := s.interestSet.add .out } else s).Interested := by
  split
  · refine .inr ?_
    change s.interestSet.add .out = _
    rcases h with hset | hset
    · rw [hset]
      decide
    · rw [hset]
      decide
  · exact h

/-- **A step of the handler leaves less to do.** -/
theorem work_step (hfits : s.Fits) (hc : s.socketCall e = some c)
    (hw : w.Answers (service.interests s) c w') (hstep : s.step e = some s') :
    work w' s' < work w s := by
  have hrule := rule_of_step hstep
  have hset := hfits.set
  generalize hf : s.frame = f at hrule
  unfold work
  cases hrule with
  | readyIn events hopened hin =>
    cases hc
    cases hw with
    | wokenFor ready hreports =>
      have hreadable := (hreports.input hin).2
      refine Nat.add_lt_add_left ?_ _
      unfold frameWork
      rw [hf, if_pos hreadable, if_pos hopened, if_pos hreadable]
      exact Nat.lt_of_lt_of_le Nat.one_lt_two (Nat.le_add_right 2 _)
  | readyOut events hopened hin =>
    cases hc
    cases hw with
    | wokenFor ready hreports =>
      have hout : events.contains .out = true := hreports.nonempty.resolve_left fun h => by
        rw [hin] at h
        cases h
      have hboth : s.interestSet.contains .out = true ∧ w.Writable := hreports.output hout
      rw [handleOut, if_pos hout, (ends_continueWrite _).ctx]
      refine Nat.add_lt_add_left ((frameWork_continueWrite w hset).trans_lt ?_) _
      unfold frameWork
      rw [hf]
      dsimp only
      rw [if_pos hopened, if_pos hboth.2, if_pos hboth]
      split <;> omega
  | error events a hopened => cases hc
  | read events d hne hroom =>
    cases hc
    cases hw with
    | read d rest hne hd =>
      have hpos := List.length_pos_of_ne_nil hne
      have hbefore := frameWork_reading w hf
      have hafter := @frameWork_reading { s with ctx := s.ctx.read d hroom }
        { w with inbound := rest } _ hf
      dsimp only
      rw [Context.pending_read, hd, List.length_append, List.length_append]
      omega
  | readAgain events =>
    cases hc
    cases hw with
    | readAgain hno =>
      have hle := frameWork_handleOut w (interested_beforeOut hset) events
      rw [if_neg hno] at hle
      rw [(ends_endRead _ _).ctx]
      refine Nat.add_lt_add_left (hle.trans_lt ?_) _
      unfold frameWork
      rw [hf]
      dsimp only
      rw [if_neg hno]
      decide
  | readEof events a =>
    obtain ⟨ha, hc⟩ := Option.ite_none_right_eq_some.mp hc
    cases hc
    cases hw with
    | readEnd hnil hended =>
      unfold close
      rw [if_pos ha, (ends_endRead _ _).ctx, frameWork_closed w rfl]
      exact Nat.add_lt_add_left (frameWork_reading w hf).1 _
  | readFailed events => cases hc
  | wrote n hpos hn =>
    cases hc
    cases hw with
    | wrote d hne hroom =>
      have hlen : (s.ctx.pending.take n).length = n := List.length_take_of_le hn
      rw [hlen] at hroom
      have hwritable : w.Writable := by
        rw [Wire.Writable]
        omega
      have hbefore : frameWork w s = 1 := by
        unfold frameWork
        rw [hf]
        exact if_pos hwritable
      have hafter := @frameWork_continueWrite { s with ctx := s.ctx.wrote n hn }
        { w with outbound := w.outbound ++ s.ctx.pending.take n } hset
      rw [(ends_continueWrite _).ctx]
      dsimp only
      rw [Context.pending_wrote, List.length_append, hlen, List.length_drop]
      split at hafter <;> split at hafter <;> omega
  | writeAgain =>
    cases hc
    cases hw with
    | writeAgain hno =>
      have hle := frameWork_finish w (interested_subOut hset)
      rw [if_neg (c := s.subOut.hasPending = true ∧ w.Writable) fun h => hno h.2] at hle
      rw [(ends_endWrite _).ctx]
      refine Nat.add_lt_add_left (hle.trans_lt ?_) _
      unfold frameWork
      rw [hf]
      dsimp only
      rw [if_neg hno]
      split <;> decide
  | writeFailed => cases hc

/-- So does what the client fetches. -/
theorem work_fetch (s : EchoState) {n : ℕ} (hpos : 0 < n) (hle : n ≤ w.outbound.length) :
    work { w with outbound := w.outbound.drop n } s < work w s := by
  -- a byte less in the way can make the socket writable
  have hframe : frameWork { w with outbound := w.outbound.drop n } s ≤ frameWork w s + 3 := by
    unfold frameWork
    cases s.frame with
    | outside =>
      dsimp only
      split
      · rw [Nat.add_assoc]
        refine Nat.add_le_add_left ?_ _
        split <;> omega
      · exact Nat.zero_le _
    | reading events => exact Nat.le_add_right _ _
    | writing =>
      dsimp only
      split <;> split <;> omega
    | threw => exact Nat.zero_le _
  unfold work
  dsimp only
  rw [List.length_drop]
  omega

end Work

end EchoState

open EchoState

variable {x x' : Link EchoState UInt8} {e : Event EchoEvent UInt8}

/-- **The handler and a client cannot go on for ever**, if the client sends nothing more. -/
theorem not_endless_echo (hfits : x.service.Fits) :
    ¬ Endless (Link.step service) Event.Own x := by
  refine not_endless (fun x => x.service.Fits) (fun x => EchoState.work x.wire x.service) ?_ hfits
  intro x e x' hfits hown hstep
  refine ⟨Link.service_step Fits (fun s e s' h hstep => fits_step h hstep) hfits hstep, ?_⟩
  cases Link.step_eq_some.mp hstep with
  | send => cases hown
  | finish => cases hown
  | fetch n hpos hle => exact EchoState.work_fetch _ hpos hle
  | service e c w s hc hw hs => exact EchoState.work_step hfits hc hw hs

/-! ### What comes back -/

/-- **What has been read and written**, in the terms of the context; and a connection is
closed only when the client has ended its stream. -/
structure Echoing (x : Link EchoState UInt8) : Prop where
  balanced : x.Balanced
  fits : x.service.Fits
  read : x.read = x.service.ctx.received
  written : x.written = x.service.ctx.written
  closed : x.service.opened = false → x.wire.ended = true
  threw : x.service.frame = .threw → x.service.opened = false

theorem echoing_start (capacity : ℕ) : Echoing (.start .registered capacity) where
  balanced := Link.balanced_start _ _
  fits := fits_registered
  read := rfl
  written := rfl
  closed := nofun
  threw := nofun

/-- Behind a loop the handler has read and written nothing more. -/
theorem kept_of_ends {s s' : EchoState} {w w' : Wire UInt8} {bytesRead bytesWritten : Bytes}
    (hends : s.Ends s') (hread : bytesRead = s.ctx.received)
    (hwritten : bytesWritten = s.ctx.written)
    (hended : w'.ended = w.ended) (hclosed : s.opened = false → w.ended = true) :
    bytesRead = s'.ctx.received ∧ bytesWritten = s'.ctx.written ∧
      (s'.opened = false → w'.ended = true) ∧ (s'.frame = .threw → s'.opened = false) := by
  rw [hends.ctx, hends.opened, hended]
  exact ⟨hread, hwritten, hclosed, hends.threw⟩

/-- A step of the handler. -/
theorem kept_service (h : Echoing x) {e : EchoEvent} {c : Call UInt8} {w : Wire UInt8}
    {s : EchoState} (hc : x.service.socketCall e = some c)
    (hw : x.wire.Answers (service.interests x.service) c w) (hs : x.service.step e = some s) :
    x.read ++ c.bytesRead = s.ctx.received ∧
      x.written ++ c.bytesWritten = s.ctx.written ∧
      (s.opened = false → w.ended = true) ∧ (s.frame = .threw → s.opened = false) := by
  have hended := hw.carries.2.2.1
  have hread := h.read
  have hwritten := h.written
  have hclosed := h.closed
  have hthrew := h.threw
  generalize x.service = s₀ at *
  have hrule := rule_of_step hs
  generalize hf : s₀.frame = f at hrule
  -- a call of the event loop reads and writes nothing
  have hnothing : c.bytesRead = [] → c.bytesWritten = [] →
      x.read ++ c.bytesRead = s₀.ctx.received ∧
        x.written ++ c.bytesWritten = s₀.ctx.written := by
    intro hnone hnone'
    rw [hnone, hnone', List.append_nil, List.append_nil]
    exact ⟨hread, hwritten⟩
  cases hrule with
  | readyIn events hopened hin =>
    cases hc
    obtain ⟨hread, hwritten⟩ := hnothing rfl rfl
    exact ⟨hread, hwritten, fun h => hended.trans (hclosed h), nofun⟩
  | readyOut events hopened hin =>
    cases hc
    obtain ⟨hread, hwritten⟩ := hnothing rfl rfl
    exact kept_of_ends (ends_handleOut s₀ events) hread hwritten hended hclosed
  | error events a hopened => cases hc
  | read events d hne hroom =>
    cases hc
    refine ⟨?_, ?_, fun h => hended.trans (hclosed h), fun h => nomatch hf.symm.trans h⟩
    · rw [hread]
      exact (Context.received_read hroom).symm
    · rw [hwritten, Context.written_read]
      exact List.append_nil _
  | readAgain events =>
    cases hc
    obtain ⟨hread, hwritten⟩ := hnothing rfl rfl
    exact kept_of_ends (ends_endRead s₀ events) hread hwritten hended hclosed
  | readEof events a =>
    obtain ⟨ha, hc⟩ := Option.ite_none_right_eq_some.mp hc
    cases hc
    obtain ⟨hread, hwritten⟩ := hnothing rfl rfl
    unfold close
    rw [if_pos ha]
    refine kept_of_ends (ends_endRead { s₀ with opened := false } events) hread hwritten hended ?_
    cases hw with
    | readEnd hnil hclosed => exact fun _ => hclosed
  | readFailed events => cases hc
  | wrote n hpos hn =>
    cases hc
    refine kept_of_ends (ends_continueWrite { s₀ with ctx := s₀.ctx.wrote n hn }) ?_ ?_ hended
      hclosed
    · exact (List.append_nil _).trans hread
    · rw [hwritten]
      exact (Context.written_wrote hn).symm
  | writeAgain =>
    cases hc
    obtain ⟨hread, hwritten⟩ := hnothing rfl rfl
    exact kept_of_ends (ends_endWrite s₀) hread hwritten hended hclosed
  | writeFailed => cases hc

/-- **A step**, of the handler or of the client. -/
theorem echoing_step (h : Echoing x) (hstep : x.step service e = some x') : Echoing x' := by
  have hbalanced := Link.balanced_step h.balanced hstep
  have hfits := Link.service_step Fits (fun s e s' h hstep => fits_step h hstep) h.fits hstep
  cases Link.step_eq_some.mp hstep with
  | send d hne hopen =>
    exact ⟨hbalanced, hfits, h.read, h.written, h.closed, h.threw⟩
  | finish hopen => exact ⟨hbalanced, hfits, h.read, h.written, fun _ => rfl, h.threw⟩
  | fetch n hpos hle => exact ⟨hbalanced, hfits, h.read, h.written, h.closed, h.threw⟩
  | service e c w s hc hw hs =>
    obtain ⟨hread, hwritten, hclosed, hthrew⟩ := kept_service h hc hw hs
    exact ⟨hbalanced, hfits, hread, hwritten, hclosed, hthrew⟩

/-- **Nothing is lost in the context**, in any run. -/
theorem echoing_run {capacity : ℕ} {events : List (Event EchoEvent UInt8)}
    (hrun : run (Link.step service) (.start .registered capacity) events = some x) :
    Echoing x ∧ x.wire.capacity = capacity := by
  refine invariant_run (fun x => Echoing x ∧ x.wire.capacity = capacity) ?_
    ⟨echoing_start capacity, rfl⟩ hrun
  rintro x e x' ⟨h, hcapacity⟩ hstep
  exact ⟨echoing_step h hstep, (Link.capacity_step hstep).trans hcapacity⟩

/-- The handler waits, with nothing left to write. -/
def EchoState.Idle (s : EchoState) : Prop :=
  s.frame = .outside ∧ s.opened = true ∧ s.hasPending = false

/-- **The handler can go on**, unless it has closed the connection, or waits with nothing left
to write and its socket has nothing for it, as long as the client fetches what is written. -/
theorem echo_goes_on {s : EchoState} {w : Wire UInt8} (hfits : s.Fits) (hwritable : w.Writable) :
    s.opened = false ∨ s.frame = .threw ∨ (¬ w.Readable ∧ s.Idle) ∨
      ∃ e c s' w', s.socketCall e = some c ∧ s.step e = some s' ∧
        w.Answers (service.interests s) c w' := by
  cases hopened : s.opened with
  | false => exact .inl rfl
  | true =>
    refine .inr ?_
    obtain ⟨ctx, set, opened, f⟩ := s
    cases hopened
    cases f with
    | outside =>
      by_cases hreadable : w.Readable
      · have hinterest : set.contains .in_ = true := by
          rcases hfits.set with hset | hset
          · rw [show set = _ from hset]
            decide
          · rw [show set = _ from hset]
            decide
        exact .inr (.inr ⟨.ready (.ofList [.in_]), _, _, w, rfl, rfl,
          .wokenFor _ ⟨.inl rfl, fun _ => ⟨hinterest, hreadable⟩, nofun⟩⟩)
      · cases hpending : EchoState.hasPending ⟨ctx, set, true, .outside⟩ with
        | false => exact .inr (.inl ⟨hreadable, rfl, rfl, hpending⟩)
        | true =>
          have hset : set = .ofList [.in_, .out] := (hfits.awaits (.inl rfl)).out hpending
          have hinterest : set.contains .out = true := by
            rw [hset]
            decide
          exact .inr (.inr ⟨.ready (.ofList [.out]), _, _, w, rfl, rfl,
            .wokenFor _ ⟨.inr rfl, nofun, fun _ => ⟨hinterest, hwritable⟩⟩⟩)
    | reading events =>
      refine .inr (.inr ?_)
      by_cases hreadable : w.Readable
      · cases hinbound : w.inbound with
        | nil =>
          have hended := hreadable.resolve_left fun hne => hne hinbound
          exact ⟨.readEof ⟨true, true⟩, .readEnd, _, w, rfl, rfl, .readEnd hinbound hended⟩
        | cons b rest =>
          -- the room is for a byte at least
          have hfits : [b] ≠ [] ∧ [b].length ≤ ctx.room :=
            ⟨List.cons_ne_nil b [], Nat.sub_pos_of_lt ctx.readPos_lt⟩
          exact ⟨.read [b], .read [b], _, _, rfl, dif_pos hfits, .read [b] rest hfits.1 hinbound⟩
      · exact ⟨.readAgain, .readAgain, _, w, rfl, rfl, .readAgain hreadable⟩
    | writing =>
      have hpos : 0 < ctx.pending.length := by
        have hlt : ctx.writePos < ctx.readPos := of_decide_eq_true (hfits.writes rfl)
        rw [Context.length_pending]
        exact Nat.sub_pos_of_lt hlt
      have hlen : (ctx.pending.take 1).length = 1 := List.length_take_of_le hpos
      refine .inr (.inr ⟨.wrote 1, _, _, _, rfl, dif_pos ⟨Nat.one_pos, hpos⟩,
        .wrote _ (List.ne_nil_of_length_eq_add_one hlen) ?_⟩)
      rw [hlen]
      exact hwritable
    | threw => exact .inl rfl

/-- **What comes back.**  What a client has fetched is the beginning of what it has sent.  If
the client goes on to fetch what it is sent, and no more, the two come to rest; and wherever
they do, the connection is closed if the client has ended its stream, and else the client
has all back. -/
theorem echo_at_rest {capacity : ℕ} (hcapacity : 0 < capacity)
    {events : List (Event EchoEvent UInt8)}
    (hrun : run (Link.step service) (.start .registered capacity) events = some x) :
    x.fetched <+: x.sent ∧ ¬ Endless (Link.step service) Event.Own x ∧
      (x.AtRest service →
        x.service.opened = !x.wire.ended ∧ (x.wire.ended = false → x.fetched = x.sent)) := by
  obtain ⟨h, rfl⟩ := echoing_run hrun
  have hsent : x.sent = x.fetched ++ (x.wire.outbound ++ (x.service.ctx.pending ++
      x.wire.inbound)) := by
    rw [h.balanced.sent, h.read, ← Context.written_append_pending, ← h.written,
      h.balanced.written]
    simp only [List.append_assoc]
  refine ⟨⟨_, hsent.symm⟩, not_endless_echo h.fits, fun hrest => ?_⟩
  have hwritable : x.wire.Writable := by
    rw [Wire.Writable, hrest.fetched]
    exact hcapacity
  have hclosed : x.service.opened = false → x.service.opened = !x.wire.ended ∧
      (x.wire.ended = false → x.fetched = x.sent) := by
    intro hopened
    rw [hopened, h.closed hopened]
    exact ⟨rfl, nofun⟩
  rcases echo_goes_on h.fits hwritable with hopened | hthrew | ⟨hno, hidle⟩ |
    ⟨e, c, s', w', hc, hs, hw⟩
  · exact hclosed hopened
  · exact hclosed (h.threw hthrew)
  · obtain ⟨-, hopened, hnone⟩ := hidle
    have hended : x.wire.ended = false := Bool.eq_false_of_not_eq_true fun h => hno (.inr h)
    refine ⟨by rw [hopened, hended]; rfl, fun _ => ?_⟩
    -- nothing is on its way
    have hinbound : x.wire.inbound = [] := not_not.mp (not_or.mp hno).1
    have hpending : x.service.ctx.pending = [] := by
      have hle : x.service.ctx.readPos ≤ x.service.ctx.writePos :=
        Nat.not_lt.mp (of_decide_eq_false hnone)
      rw [← List.length_eq_zero_iff, Context.length_pending]
      exact Nat.sub_eq_zero_of_le hle
    rw [hsent, hrest.fetched, hpending, hinbound]
    exact (List.append_nil _).symm
  · exact absurd hw (hrest.no_answer hc hs)

/-- A handler that is not interested in output is at rest when nothing comes. -/
theorem atRest_of_idle (hidle : x.service.Idle)
    (hout : x.service.interestSet.contains .out = false) (hno : ¬ x.wire.Readable)
    (hfetched : x.wire.outbound = []) : x.AtRest service := by
  refine ⟨fun e => Option.eq_none_iff_forall_ne_some.mpr fun x' hx' => ?_, hfetched⟩
  cases Link.step_eq_some.mp hx' with
  | service e c w s hc hw hs =>
    have hrule := rule_of_step hs
    rw [hidle.1] at hrule
    cases hrule with
    | readyIn events hopened hin =>
      cases hc
      cases hw with
      | wokenFor ready hreports => exact hno (hreports.input hin).2
    | readyOut events hopened hin =>
      cases hc
      cases hw with
      | wokenFor ready hreports =>
        rcases hreports.nonempty with hinput | houtput
        · exact hno (hreports.input hinput).2
        · cases hout.symm.trans (hreports.output houtput).1
    | error => cases hc

/-- Two bytes and their way back. -/
def echoOfTwo : List (Event EchoEvent UInt8) :=
  [.send (ascii "hi"), .service (.ready (.ofList [.in_, .out])), .service (.read (ascii "hi")),
    .service .readAgain, .service (.wrote 2), .fetch 2]

theorem echo_at_rest_two :
    ∃ x, run (Link.step service) (.start .registered 64) echoOfTwo = some x ∧
      ¬ Endless (Link.step service) Event.Own x ∧ x.fetched = ascii "hi" := by
  have hsome : (run (Link.step service) (.start .registered 64) echoOfTwo).map (fun x =>
      (x.sent, x.wire, x.service.frame, x.service.opened, x.service.hasPending,
        x.service.interestSet)) =
      some (ascii "hi", ⟨[], false, [], 64⟩, .outside, true, false, .ofList [.in_]) := by
    decide +kernel
  obtain ⟨x, hrun, hx⟩ := Option.map_eq_some_iff.mp hsome
  simp only [Prod.mk.injEq] at hx
  obtain ⟨hsent, hwire, hframe, hopened, hpending, hset⟩ := hx
  obtain ⟨-, hends, hback⟩ := echo_at_rest (by decide) hrun
  refine ⟨x, hrun, hends, ?_⟩
  have hrest : x.AtRest service := by
    refine atRest_of_idle ⟨hframe, hopened, hpending⟩ ?_ ?_ ?_
    · rw [hset]
      decide
    · rw [hwire]
      decide
    · rw [hwire]
  rw [(hback hrest).2 (by rw [hwire]), hsent]

end TpAdvanced
