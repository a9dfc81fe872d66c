import Mathlib.Data.List.Basic
import TpAdvanced.Lib.Machine

/-!
# Serving a stream socket by its readiness

A service has one end of a stream socket, and calls that do not block: a call that can do
nothing says so.  Between the calls it may sleep until an event loop wakes it, and the loop
does so as long as the socket is ready for something the service is interested in.  The peer
sends, ends its stream and fetches what was written, at any time between two calls.

## Main definitions

* `Wire` — the socket, as the kernel has it, and what its calls can answer.
* `Service`, `Link` — a service, and a service with its socket and its peer.
* `Link.Effect` — what a step of a link can do.
* `Link.AtRest` — neither can the service go on, nor can the peer fetch anything.

## Main results

* `Wire.call_eq_some` — what a call can be.
* `balanced_step` — **nothing is lost or made up on the way.**
-/

namespace Readiness

open Machine

variable {σ ε α : Type*}

/-- A stream socket. -/
structure Wire (α : Type*) where
  /-- What has arrived and has not been read. -/
  inbound : List α := []
  /-- The peer has ended its stream. -/
  ended : Bool := false
  /-- What has been written and has not been fetched. -/
  outbound : List α := []
  /-- How much of this there can be. -/
  capacity : ℕ
  deriving DecidableEq

/-- What a service is to be woken for. -/
structure Interests where
  input : Bool
  output : Bool
  deriving DecidableEq, Repr

/-- What a step of a service does with the socket, and what it is answered. -/
inductive Call (α : Type*)
  | nothing
  /-- The event loop wakes the service. -/
  | woken
  /-- The event loop wakes the service, and tells what for. -/
  | wokenFor (ready : Interests)
  | read (d : List α)
  | readAgain
  | readEnd
  | wrote (d : List α)
  | writeAgain
  deriving DecidableEq

def Call.bytesRead : Call α → List α
  | .read d => d
  | _ => []

def Call.bytesWritten : Call α → List α
  | .wrote d => d
  | _ => []

namespace Wire

def Readable (w : Wire α) : Prop := w.inbound ≠ [] ∨ w.ended = true

def Writable (w : Wire α) : Prop := w.outbound.length < w.capacity

instance [DecidableEq α] (w : Wire α) : Decidable w.Readable := inferInstanceAs (Decidable (_ ∨ _))

instance (w : Wire α) : Decidable w.Writable := inferInstanceAs (Decidable (_ < _))

/-- The socket is ready for something of interest. -/
def Ready (w : Wire α) (i : Interests) : Prop :=
  i.input = true ∧ w.Readable ∨ i.output = true ∧ w.Writable

instance [DecidableEq α] (w : Wire α) (i : Interests) : Decidable (w.Ready i) :=
  inferInstanceAs (Decidable (_ ∨ _))

/-- The socket is ready for all of this, and it is of interest. -/
structure Reports (w : Wire α) (i ready : Interests) : Prop where
  nonempty : ready.input = true ∨ ready.output = true
  input : ready.input = true → i.input = true ∧ w.Readable
  output : ready.output = true → i.output = true ∧ w.Writable

instance [DecidableEq α] (w : Wire α) (i ready : Interests) : Decidable (w.Reports i ready) :=
  decidable_of_iff ((ready.input = true ∨ ready.output = true) ∧
      (ready.input = true → i.input = true ∧ w.Readable) ∧
      (ready.output = true → i.output = true ∧ w.Writable))
    ⟨fun ⟨h₁, h₂, h₃⟩ => ⟨h₁, h₂, h₃⟩, fun ⟨h₁, h₂, h₃⟩ => ⟨h₁, h₂, h₃⟩⟩

/-- **A call**, if the socket can answer it so. -/
def call [DecidableEq α] (w : Wire α) (i : Interests) : Call α → Option (Wire α)
  | .nothing => some w
  | .woken => if w.Ready i then some w else none
  | .wokenFor ready => if w.Reports i ready then some w else none
  | .read d =>
    if d ≠ [] ∧ d <+: w.inbound then some { w with inbound := w.inbound.drop d.length } else none
  | .readAgain => if w.Readable then none else some w
  | .readEnd => if w.inbound = [] ∧ w.ended = true then some w else none
  | .wrote d =>
    if d ≠ [] ∧ w.outbound.length + d.length ≤ w.capacity then
      some { w with outbound := w.outbound ++ d }
    else none
  | .writeAgain => if w.Writable then none else some w

end Wire

/-- **What a call can be.** -/
inductive Wire.Answers (w : Wire α) (i : Interests) : Call α → Wire α → Prop
  | nothing : w.Answers i .nothing w
  | woken (h : w.Ready i) : w.Answers i .woken w
  | wokenFor (ready : Interests) (h : w.Reports i ready) : w.Answers i (.wokenFor ready) w
  | read (d rest : List α) (hne : d ≠ []) (hd : w.inbound = d ++ rest) :
      w.Answers i (.read d) { w with inbound := rest }
  | readAgain (h : ¬ w.Readable) : w.Answers i .readAgain w
  | readEnd (h : w.inbound = []) (hended : w.ended = true) : w.Answers i .readEnd w
  | wrote (d : List α) (hne : d ≠ []) (hd : w.outbound.length + d.length ≤ w.capacity) :
      w.Answers i (.wrote d) { w with outbound := w.outbound ++ d }
  | writeAgain (h : ¬ w.Writable) : w.Answers i .writeAgain w

theorem Wire.call_eq_some [DecidableEq α] {w w' : Wire α} {i : Interests} {c : Call α} :
    w.call i c = some w' ↔ w.Answers i c w' := by
  constructor
  · intro h
    cases c with
    | nothing =>
      cases h
      exact .nothing
    | woken =>
      obtain ⟨hready, ⟨⟩⟩ := Option.ite_none_right_eq_some.mp h
      exact .woken hready
    | wokenFor ready =>
      obtain ⟨hreports, ⟨⟩⟩ := Option.ite_none_right_eq_some.mp h
      exact .wokenFor ready hreports
    | read d =>
      obtain ⟨⟨hne, rest, hrest⟩, ⟨⟩⟩ := Option.ite_none_right_eq_some.mp h
      rw [← hrest, List.drop_left]
      exact .read d rest hne hrest.symm
    | readAgain =>
      obtain ⟨hno, ⟨⟩⟩ := Option.ite_none_left_eq_some.mp h
      exact .readAgain hno
    | readEnd =>
      obtain ⟨⟨hnil, hended⟩, ⟨⟩⟩ := Option.ite_none_right_eq_some.mp h
      exact .readEnd hnil hended
    | wrote d =>
      obtain ⟨⟨hne, hroom⟩, ⟨⟩⟩ := Option.ite_none_right_eq_some.mp h
      exact .wrote d hne hroom
    | writeAgain =>
      obtain ⟨hno, ⟨⟩⟩ := Option.ite_none_left_eq_some.mp h
      exact .writeAgain hno
  · intro h
    cases h with
    | nothing => rfl
    | woken h => exact if_pos h
    | wokenFor ready h => exact if_pos h
    | read d rest hne hd =>
      rw [call, if_pos ⟨hne, rest, hd.symm⟩, hd, List.drop_left]
    | readAgain h => exact if_neg h
    | readEnd h hended => exact if_pos ⟨h, hended⟩
    | wrote d hne hd => exact if_pos ⟨hne, hd⟩
    | writeAgain h => exact if_neg h

/-- **What a call does to the socket**: what is read comes from the front, what is written
goes to the end. -/
theorem Wire.Answers.carries {w w' : Wire α} {i : Interests} {c : Call α} (h : w.Answers i c w') :
    w.inbound = c.bytesRead ++ w'.inbound ∧ w'.outbound = w.outbound ++ c.bytesWritten ∧
      w'.ended = w.ended ∧ w'.capacity = w.capacity ∧
      (w.outbound.length ≤ w.capacity → w'.outbound.length ≤ w'.capacity) := by
  cases h with
  | read d rest hne hd => exact ⟨hd, (List.append_nil _).symm, rfl, rfl, id⟩
  | wrote d hne hd => exact ⟨rfl, rfl, rfl, rfl, fun _ => by rwa [List.length_append]⟩
  | nothing | woken | wokenFor | readAgain | readEnd | writeAgain =>
    exact ⟨rfl, (List.append_nil _).symm, rfl, rfl, id⟩

/-! ### A service and its peer -/

/-- A service: its steps, its part in the calls, which is `none` for an answer that the socket
never gives, and what it is interested in. -/
structure Service (σ ε α : Type*) where
  step : σ → ε → Option σ
  call : σ → ε → Option (Call α)
  interests : σ → Interests

/-- A service, its socket, and what has gone over it so far. -/
structure Link (σ α : Type*) where
  service : σ
  wire : Wire α
  sent : List α := []
  read : List α := []
  written : List α := []
  fetched : List α := []

inductive Event (ε α : Type*)
  /-- The peer sends this. -/
  | send (d : List α)
  /-- The peer ends its stream. -/
  | finish
  /-- The peer fetches so much. -/
  | fetch (n : ℕ)
  | service (e : ε)

/-- The event brings nothing new. -/
def Event.Own : Event ε α → Prop
  | .send _ => False
  | .finish => False
  | .fetch _ => True
  | .service _ => True

namespace Link

variable [DecidableEq α]

/-- A link before anything has happened. -/
def start (s : σ) (capacity : ℕ) : Link σ α := { service := s, wire := { capacity } }

/-- **A step**, of the peer or of the service. -/
def step (S : Service σ ε α) (x : Link σ α) : Event ε α → Option (Link σ α)
  | .send d =>
    if d ≠ [] ∧ x.wire.ended = false then
      some { x with wire.inbound := x.wire.inbound ++ d, sent := x.sent ++ d }
    else none
  | .finish => if x.wire.ended then none else some { x with wire.ended := true }
  | .fetch n =>
    if 0 < n ∧ n ≤ x.wire.outbound.length then
      some { x with
        wire.outbound := x.wire.outbound.drop n
        fetched := x.fetched ++ x.wire.outbound.take n }
    else none
  | .service e =>
    (S.call x.service e).bind fun c =>
      (x.wire.call (S.interests x.service) c).bind fun w =>
        (S.step x.service e).map fun s =>
          { x with
            service := s
            wire := w
            read := x.read ++ c.bytesRead
            written := x.written ++ c.bytesWritten }

/-- Neither can the service go on, nor can the peer fetch anything. -/
structure AtRest (S : Service σ ε α) (x : Link σ α) : Prop where
  service : ∀ e, x.step S (.service e) = none
  fetched : x.wire.outbound = []

/-- What has been sent is read or waits, and what has been written is fetched or waits. -/
structure Balanced (x : Link σ α) : Prop where
  sent : x.sent = x.read ++ x.wire.inbound
  written : x.written = x.fetched ++ x.wire.outbound
  capacity : x.wire.outbound.length ≤ x.wire.capacity

/-- **What a step can do.** -/
inductive Effect (S : Service σ ε α) (x : Link σ α) : Event ε α → Link σ α → Prop
  | send (d : List α) (hne : d ≠ []) (hopen : x.wire.ended = false) :
      Effect S x (.send d) { x with wire.inbound := x.wire.inbound ++ d, sent := x.sent ++ d }
  | finish (hopen : x.wire.ended = false) : Effect S x .finish { x with wire.ended := true }
  | fetch (n : ℕ) (hpos : 0 < n) (hle : n ≤ x.wire.outbound.length) :
      Effect S x (.fetch n) { x with
        wire.outbound := x.wire.outbound.drop n
        fetched := x.fetched ++ x.wire.outbound.take n }
  | service (e : ε) (c : Call α) (w : Wire α) (s : σ) (hc : S.call x.service e = some c)
      (hw : x.wire.Answers (S.interests x.service) c w) (hs : S.step x.service e = some s) :
      Effect S x (.service e) { x with
        service := s
        wire := w
        read := x.read ++ c.bytesRead
        written := x.written ++ c.bytesWritten }

variable {S : Service σ ε α} {x x' : Link σ α} {e : Event ε α}

theorem step_eq_some : x.step S e = some x' ↔ x.Effect S e x' := by
  constructor
  · intro h
    cases e with
    | send d =>
      obtain ⟨⟨hne, hopen⟩, ⟨⟩⟩ := Option.ite_none_right_eq_some.mp h
      exact .send d hne hopen
    | finish =>
      obtain ⟨hopen, ⟨⟩⟩ := Option.ite_none_left_eq_some.mp h
      exact .finish (Bool.eq_false_of_not_eq_true hopen)
    | fetch n =>
      obtain ⟨⟨hpos, hle⟩, ⟨⟩⟩ := Option.ite_none_right_eq_some.mp h
      exact .fetch n hpos hle
    | service e =>
      obtain ⟨c, hc, h⟩ := Option.bind_eq_some_iff.mp h
      obtain ⟨w, hw, h⟩ := Option.bind_eq_some_iff.mp h
      obtain ⟨s, hs, rfl⟩ := Option.map_eq_some_iff.mp h
      exact .service e c w s hc (Wire.call_eq_some.mp hw) hs
  · intro h
    cases h with
    | send d hne hopen => exact if_pos ⟨hne, hopen⟩
    | finish hopen => exact if_neg (Bool.eq_false_iff.mp hopen)
    | fetch n hpos hle => exact if_pos ⟨hpos, hle⟩
    | service e c w s hc hw hs =>
      rw [step, hc, Option.bind_some, Wire.call_eq_some.mpr hw, Option.bind_some, hs]
      rfl

/-- At rest the socket has no answer that the service could go on with. -/
theorem AtRest.no_answer {e : ε} {c : Call α} {w : Wire α} {s : σ} (h : x.AtRest S)
    (hc : S.call x.service e = some c) (hs : S.step x.service e = some s) :
    ¬ x.wire.Answers (S.interests x.service) c w := by
  intro hw
  cases (h.service e).symm.trans (step_eq_some.mpr (.service e c w s hc hw hs))

/-- **What the steps of a service keep, the steps of a link keep.** -/
theorem service_step (Inv : σ → Prop) (hkeep : ∀ s e s', Inv s → S.step s e = some s' → Inv s')
    (hinv : Inv x.service) (hstep : x.step S e = some x') : Inv x'.service := by
  cases step_eq_some.mp hstep with
  | send | finish | fetch => exact hinv
  | service e c w s hc hw hs => exact hkeep _ _ _ hinv hs

theorem capacity_step (hstep : x.step S e = some x') : x'.wire.capacity = x.wire.capacity := by
  cases step_eq_some.mp hstep with
  | send | finish | fetch => rfl
  | service e c w s hc hw hs => exact hw.carries.2.2.2.1

/-! ### What has gone over the socket -/

omit [DecidableEq α] in
theorem balanced_start (s : σ) (capacity : ℕ) : (start s capacity : Link σ α).Balanced :=
  ⟨rfl, rfl, Nat.zero_le _⟩

/-- **Nothing is lost or made up on the way.** -/
theorem balanced_step (h : x.Balanced) (hstep : x.step S e = some x') : x'.Balanced := by
  obtain ⟨hsent, hwritten, hcapacity⟩ := h
  cases step_eq_some.mp hstep with
  | send d hne hopen =>
    exact ⟨by simp only [hsent, List.append_assoc], hwritten, hcapacity⟩
  | finish hopen => exact ⟨hsent, hwritten, hcapacity⟩
  | fetch n hpos hle =>
    refine ⟨hsent, ?_, ?_⟩
    · rw [hwritten, List.append_assoc, List.take_append_drop]
    · rw [List.length_drop]
      exact (Nat.sub_le _ _).trans hcapacity
  | service e c w s hc hw hs =>
    obtain ⟨hin, hout, -, -, hroom⟩ := hw.carries
    refine ⟨?_, ?_, hroom hcapacity⟩
    · change x.sent = (x.read ++ c.bytesRead) ++ w.inbound
      rw [hsent, hin, List.append_assoc]
    · change x.written ++ c.bytesWritten = x.fetched ++ w.outbound
      rw [hwritten, hout, List.append_assoc]

end Link

end Readiness
