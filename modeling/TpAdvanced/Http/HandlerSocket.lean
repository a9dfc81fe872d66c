import Mathlib.Data.Prod.Lex
import TpAdvanced.Http.Exchange
import TpAdvanced.Http.ReadRoom
import TpAdvanced.Lib.Readiness

/-!
# A handler at its socket

A handler as a service at a stream socket: it sleeps only when the socket has nothing for it,
and is registered for just what it sleeps for, for input while it reads, for output while it
writes.  With each step something gets done, so if the client does no more than to fetch what
it is sent, the two come to rest.

The socket does not fail, and the handler is not idle for so long that it is ended.

## Main definitions

* `HandlerState.service` — a handler at its socket.
* `HandlerState.Roomy` — where the handler reads, its buffer has room.
* `work` — what is left to do without the client sending anything.

## Main results

* `work_service` — a step of the handler leaves less to do.
* `not_endless_service` — **a handler and its client cannot go on for ever.**
-/

namespace TpAdvanced

open CText HttpRequestParser Machine Readiness

/-! ### A handler at its socket -/

/-- What an event of a handler is to its socket.  Errors are left out. -/
def HandlerState.socketCall (s : HandlerState) : HandlerEvent → Option (Call UInt8)
  | .resumed => some .woken
  | .read d => some (.read d)
  | .readAgain _ => some .readAgain
  | .readEof => some .readEnd
  | .replied _ => some .nothing
  | .wrote n => some (.wrote (s.sentBy (.wrote n)))
  | .writeAgain _ => some .writeAgain
  | _ => none

/-- **A handler as a service** that calls back. -/
def HandlerState.service [StdHash] (callback : Callback) :
    Service HandlerState HandlerEvent UInt8 where
  step s e := if s.Answers callback e then s.step e else none
  call := HandlerState.socketCall
  interests s := ⟨s.handler.set.contains .in_, s.handler.set.contains .out⟩

theorem HandlerState.bytes_socketCall {s : HandlerState} {e : HandlerEvent} {c : Call UInt8}
    (hc : s.socketCall e = some c) : c.bytesRead = e.bytesRead ∧ c.bytesWritten = s.sentBy e := by
  cases e with
  | readFailed | writeReset | writeFailed => cases hc
  | wrote n =>
    cases hc
    exact ⟨rfl, rfl⟩
  | _ =>
    cases hc
    obtain ⟨h, f⟩ := s
    cases f <;> exact ⟨rfl, rfl⟩

/-- Where the handler reads, its buffer has room. -/
def HandlerState.Roomy (s : HandlerState) : Prop :=
  match s.frame with
  | .reading _ readIdx | .readYield _ readIdx => readIdx < s.handler.readBuff.size
  | _ => 0 < s.handler.readBuff.size

theorem HandlerState.Roomy.size_pos {s : HandlerState} (h : s.Roomy) :
    0 < s.handler.readBuff.size := by
  obtain ⟨h', f⟩ := s
  cases f with
  | reading parser readIdx | readYield parser readIdx => exact (Nat.zero_le _).trans_lt h
  | _ => exact h

theorem roomy_of_idle {s : HandlerState} (hidle : s.frame.Idle)
    (hpos : 0 < s.handler.readBuff.size) : s.Roomy := by
  obtain ⟨h, f⟩ := s
  cases f with
  | reading parser readIdx =>
    obtain ⟨-, rfl⟩ := hidle
    exact hpos
  | readYield parser readIdx => cases hidle
  | _ => exact hpos

section Room

variable [StdHash] {h : ConnectionHandler} {s s' : HandlerState} {e : HandlerEvent}

/-- A pass of `readRequest` leaves room, in a larger buffer if need be. -/
theorem roomy_readStep {parser : HttpRequestParser} {readIdx : ℕ} {x : ReadResult}
    (hidx : readIdx < h.readBuff.size)
    (hread : HandlerState.readStep h parser readIdx x = some s') : s'.Roomy := by
  obtain ⟨o, ho, rfl⟩ := Option.map_eq_some_iff.mp hread
  have hpos : 0 < o.buff.size := size_pos_pass ho ((Nat.zero_le _).trans_lt hidx)
  cases o with
  | reading r =>
    rcases step_comes_to ho with ⟨r₁, hs, hr⟩ | ⟨-, ⟨-, ⟨⟩⟩ | ⟨-, ⟨⟩⟩⟩
    rcases r₁.afterRead_cases with ⟨e, -, ha⟩ | ⟨p, -, ⟨-, ha⟩ | ⟨-, ha⟩⟩
    · cases hr.trans ha
    · cases hr.trans ha
    · cases hr.trans ha
      refine Reading.lt_size_grown (Reading.stored_spec hs hidx.le).2.2.1 ?_
      rw [Reading.size_stored hs]
      exact (Nat.zero_le _).trans_lt hidx
  | returned request buff => cases request <;> exact hpos
  | threw e buff =>
    refine roomy_of_idle (idle_catchThrown _ _) ?_
    change 0 < (ConnectionHandler.catchThrown { h with readBuff := buff } e).handler.readBuff.size
    rw [readBuff_catchThrown]
    exact hpos

theorem roomy_step (hroomy : s.Roomy) (hstep : s.step e = some s') : s'.Roomy := by
  rcases HandlerState.step_cases hstep with ⟨parser, readIdx, x, hf, -, -, -, hread⟩ |
    ⟨parser, readIdx, now, hf, -, rfl⟩ | ⟨-, hf, hidle⟩
  · refine roomy_readStep ?_ hread
    rcases hf with hf | hf <;> simpa only [HandlerState.Roomy, hf] using hroomy
  · rw [HandlerState.Roomy, hf] at hroomy
    exact hroomy
  · refine roomy_of_idle hidle ?_
    rw [readBuff_of_between hstep hf]
    exact hroomy.size_pos

theorem masked_step (hmasked : s.Masked) (hstep : s.step e = some s') : s'.Masked := by
  obtain hin | ⟨now, -, -, hmasked'⟩ := handlerStep_cases hmasked hstep
  · exact hin.masked
  · exact hmasked'

end Room

/-! ### What is left to do -/

section Work

variable {w w' : Wire UInt8} {h : ConnectionHandler} {s s' : HandlerState}

/-- What is left to do before the next byte is read. -/
def readWork (w : Wire UInt8) : Frame → ℕ
  | .created | .readYield .. => if w.Readable then 4 else 1
  | .calling .. => 3
  | .writing .. | .writeYield .. => 2
  | .reading .. => if w.Readable then 1 else 2
  | .returned | .threw _ => 0

/-- What is left to do before the response is written. -/
def writeWork (w : Wire UInt8) (s : HandlerState) : ℕ :=
  match s.frame with
  | .writing _ written =>
    4 * (s.handler.writeBuff.length - written) + if w.Writable then 0 else 1
  | .writeYield _ written =>
    4 * (s.handler.writeBuff.length - written) + if w.Writable then 1 else 0
  | _ => 0

/-- **What is left to do** without the client sending anything: a byte that has arrived can
lead to an answer of any length, a byte that is written to its being fetched. -/
def work (w : Wire UInt8) (s : HandlerState) : ℕ ×ₗ ℕ :=
  toLex (5 * w.inbound.length + readWork w s.frame, 2 * w.outbound.length + writeWork w s)

theorem toLex_lt {a b a' b' : ℕ} (h : a' < a ∨ a' ≤ a ∧ b' < b) :
    toLex (a', b') < toLex (a, b) := by
  rw [Prod.Lex.toLex_lt_toLex]
  omega

theorem readWork_reading (w : Wire UInt8) (parser : HttpRequestParser) (readIdx : ℕ) :
    readWork w (.reading parser readIdx) ≤ 2 := by
  change (if w.Readable then 1 else 2) ≤ 2
  split <;> omega

theorem readWork_finishWrite (w : Wire UInt8) (h : ConnectionHandler) (reply : Reply)
    (whole : Bool) : readWork w (h.finishWrite reply whole).frame ≤ 2 := by
  cases reply with
  | response shouldClose =>
    cases shouldClose with
    | true => cases whole <;> exact Nat.zero_le _
    | false =>
      cases whole with
      | true => exact readWork_reading w _ _
      | false => exact Nat.zero_le _
  | rejection => exact Nat.zero_le _

/-- The head of the loop in `writeResponse`: all is written, or the rest of it is left. -/
theorem work_continueWrite (w : Wire UInt8) (h : ConnectionHandler) (reply : Reply)
    (written : ℕ) : readWork w (h.continueWrite reply written).frame ≤ 2 ∧
      (writeWork w (h.continueWrite reply written) = 0 ∨
        writeWork w (h.continueWrite reply written) =
          4 * (h.writeBuff.length - written) + if w.Writable then 0 else 1) := by
  unfold ConnectionHandler.continueWrite
  split
  · refine ⟨readWork_finishWrite w h reply true, .inl ?_⟩
    cases reply with
    | response shouldClose => cases shouldClose <;> rfl
    | rejection => rfl
  · exact ⟨Nat.le_refl 2, .inr rfl⟩

theorem readWork_catchThrown (w : Wire UInt8) (h : ConnectionHandler) (e : Thrown) :
    readWork w (h.catchThrown e).frame ≤ 2 := by
  cases e with
  | parsingException message code => exact (work_continueWrite w _ _ _).1
  | _ => exact Nat.zero_le _

variable [StdHash]

/-- A pass of `readRequest` does not suspend. -/
theorem readWork_readStep (w : Wire UInt8) {parser : HttpRequestParser} {readIdx : ℕ}
    {x : ReadResult} (hread : HandlerState.readStep h parser readIdx x = some s') :
    readWork w s'.frame ≤ 3 := by
  obtain ⟨o, -, rfl⟩ := Option.map_eq_some_iff.mp hread
  cases o with
  | reading r => exact (readWork_reading w _ _).trans (by decide)
  | returned request buff =>
    cases request with
    | none => exact Nat.zero_le _
    | some request => exact Nat.le_refl 3
  | threw e buff => exact (readWork_catchThrown w _ e).trans (by decide)

/-- A handler is woken for what it does. -/
theorem ready_of_masked {callback : Callback} (hmasked : s.Masked)
    (hready : w.Ready ((HandlerState.service callback).interests s)) :
    match s.frame with
    | .created | .reading .. | .readYield .. | .calling .. => w.Readable
    | .writing .. | .writeYield .. => w.Writable
    | .returned | .threw _ => True := by
  obtain ⟨h, f⟩ := s
  have hin : h.set = .ofList [.in_] → w.Readable := by
    intro hset
    rcases hready with ⟨-, hready⟩ | ⟨hout, -⟩
    · exact hready
    · change h.set.contains .out = true at hout
      rw [hset] at hout
      cases hout
  have hout : h.set = .ofList [.out] → w.Writable := by
    intro hset
    rcases hready with ⟨hin, -⟩ | ⟨-, hready⟩
    · change h.set.contains .in_ = true at hin
      rw [hset] at hin
      cases hin
    · exact hready
  cases f with
  | created | reading | readYield | calling => exact hin hmasked
  | writing | writeYield => exact hout hmasked
  | returned | threw => trivial

/-- **A step of the handler leaves less to do.** -/
theorem work_service {callback : Callback} {e : HandlerEvent} {c : Call UInt8}
    (hmasked : s.Masked) (hc : s.socketCall e = some c)
    (hw : w.Answers ((HandlerState.service callback).interests s) c w')
    (hstep : s.step e = some s') : work w' s' < work w s := by
  obtain ⟨h, f⟩ := s
  refine toLex_lt ?_
  dsimp only
  cases HandlerState.rule_of_step hstep with
  | expired ht =>
    cases hc
    cases hw with
    | woken hready =>
      have hready : w.Readable := ready_of_masked hmasked hready
      refine .inl (Nat.add_lt_add_left ?_ _)
      rw [readWork, readWork, if_pos hready]
      decide
  | entered ht =>
    cases hc
    cases hw with
    | woken hready =>
      have hready : w.Readable := ready_of_masked hmasked hready
      refine .inl (Nat.add_lt_add_left ?_ _)
      change (if w.Readable then 1 else 2) < if w.Readable then 4 else 1
      rw [if_pos hready, if_pos hready]
      decide
  | read parser readIdx d s' hread =>
    cases hc
    cases hw with
    | read d rest hne hd =>
      have hless := readWork_readStep { w with inbound := rest } hread
      have hpos := List.length_pos_of_ne_nil hne
      refine .inl ?_
      change 5 * rest.length + _ < _
      rw [hd, List.length_append]
      omega
  | readAgain parser readIdx now =>
    cases hc
    cases hw with
    | readAgain hno =>
      refine .inl (Nat.add_lt_add_left ?_ _)
      change (if w.Readable then 4 else 1) < if w.Readable then 1 else 2
      rw [if_neg hno, if_neg hno]
      decide
  | readEof parser readIdx s' hread =>
    cases hc
    cases hread
    cases hw with
    | readEnd hnil hended =>
      refine .inl (Nat.add_lt_add_left ?_ _)
      change 0 < if w.Readable then 1 else 2
      split <;> decide
  | readFailed parser readIdx s' hread => cases hc
  | readResumed parser readIdx s' hread =>
    cases hc
    cases hw with
    | woken hready =>
      have hready : w.Readable := ready_of_masked hmasked hready
      have hless := readWork_readStep w hread
      refine .inl (Nat.add_lt_add_left ?_ _)
      rw [readWork, if_pos hready]
      exact Nat.lt_succ_of_le hless
  | replied request shouldClose response request' =>
    cases hc
    cases hw with
    | nothing =>
      refine .inl (Nat.add_lt_add_left (Nat.lt_succ_of_le ?_) _)
      exact (work_continueWrite w _ _ _).1
  | repliedThrow request shouldClose e =>
    cases hc
    cases hw with
    | nothing =>
      have hless := readWork_catchThrown w h e
      exact .inl (Nat.add_lt_add_left (Nat.lt_succ_of_le hless) _)
  | wrote reply written n hn =>
    cases hc
    cases hw with
    | wrote d hne hroom =>
      -- what is written is no longer to be written, but to be fetched
      have hlen : (HandlerState.sentBy ⟨h, .writing reply written⟩ (.wrote n)).length = n := by
        change ((h.writeBuff.drop written).take n).length = n
        rw [List.length_take, List.length_drop]
        omega
      generalize HandlerState.sentBy ⟨h, .writing reply written⟩ (.wrote n) = d at hlen
      obtain ⟨hless, hwrite⟩ :=
        work_continueWrite { w with outbound := w.outbound ++ d } h reply (written + n)
      refine .inr ⟨Nat.add_le_add_left hless _, ?_⟩
      change 2 * (w.outbound ++ d).length + _ < _ + (4 * (h.writeBuff.length - written) + _)
      rw [List.length_append, hlen]
      split at hwrite <;> omega
  | writeAgain reply written now =>
    cases hc
    cases hw with
    | writeAgain hno =>
      refine .inr ⟨Nat.le_refl _, Nat.add_lt_add_left (Nat.add_lt_add_left ?_ _) _⟩
      rw [if_neg hno, if_neg hno]
      decide
  | writeReset reply written => cases hc
  | writeFailed reply written reason => cases hc
  | writeExpired reply written ht =>
    cases hc
    cases hw with
    | woken hready =>
      -- the exception ends the handler
      refine .inl (Nat.add_lt_add_left ?_ _)
      cases reply <;> exact Nat.two_pos
  | writeResumed reply written ht =>
    cases hc
    cases hw with
    | woken hready =>
      have hready : w.Writable := ready_of_masked hmasked hready
      obtain ⟨hless, hwrite⟩ := work_continueWrite w h reply written
      refine .inr ⟨Nat.add_le_add_left hless _, Nat.add_lt_add_left ?_ _⟩
      change _ < 4 * (h.writeBuff.length - written) + if w.Writable then 1 else 0
      rw [if_pos hready] at hwrite ⊢
      omega

omit [StdHash] in
/-- So does what the client fetches. -/
theorem work_fetch (s : HandlerState) {n : ℕ} (hpos : 0 < n) (hle : n ≤ w.outbound.length) :
    work { w with outbound := w.outbound.drop n } s < work w s := by
  -- a byte less in the way can turn the writability of the socket
  have hwrite : writeWork { w with outbound := w.outbound.drop n } s ≤ writeWork w s + 1 := by
    obtain ⟨h, f⟩ := s
    cases f with
    | writing | writeYield =>
      change _ + (if _ then _ else _) ≤ _ + (if _ then _ else _) + 1
      split <;> omega
    | _ => exact Nat.zero_le _
  refine toLex_lt (.inr ⟨Nat.le_refl _, ?_⟩)
  change 2 * (w.outbound.drop n).length + _ < _
  rw [List.length_drop]
  omega

theorem service_eq_some {callback : Callback} {e : HandlerEvent} :
    (HandlerState.service callback).step s e = some s' ↔
      s.Answers callback e ∧ s.step e = some s' :=
  Option.ite_none_right_eq_some

/-- Where the callback is not invoked, it need not answer. -/
theorem service_of_nil {callback : Callback} {s s' : HandlerState} {e : HandlerEvent}
    (hnil : s.frame.invocation = []) (hstep : s.step e = some s') :
    (HandlerState.service callback).step s e = some s' := by
  refine service_eq_some.mpr ⟨?_, hstep⟩
  intro request hrequest
  rw [hnil] at hrequest
  cases hrequest

/-- **A handler and its client cannot go on for ever**, if the client sends nothing more. -/
theorem not_endless_service {callback : Callback} {x : Link HandlerState UInt8}
    (hmasked : x.service.Masked) :
    ¬ Endless (Link.step (HandlerState.service callback)) Event.Own x := by
  refine not_endless (fun x => x.service.Masked) (fun x => work x.wire x.service) ?_ hmasked
  intro x e x' hmasked hown hstep
  refine ⟨Link.service_step HandlerState.Masked (fun s e s' hs hstep =>
    masked_step hs (service_eq_some.mp hstep).2) hmasked hstep, ?_⟩
  cases Link.step_eq_some.mp hstep with
  | send => cases hown
  | finish => cases hown
  | fetch n hpos hle => exact work_fetch _ hpos hle
  | service e c w s hc hw hs => exact work_service hmasked hc hw (service_eq_some.mp hs).2

end Work

end TpAdvanced
