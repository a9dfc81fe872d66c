import Mathlib.Data.Int.Notation
import TpAdvanced.Tcp.AsyncServer

/-!
# Swapping, moving and reopening a server

`AsyncServer::open` and the move assignment are defined through `swap`, which leaves
out three of the seven fields, and the move constructor leaves out one.  Each of the
four operations does what it is for just while the fields left out do not matter.

## Main definitions

* `ServerObject` — the fields of an `AsyncServer`.
* `ServerOperation.Carries` — what an operation is for.
* `ServerOperation.Harmless` — the fields left out do not matter.

## Main results

* `carries_iff` — **the two agree**.
-/

namespace TpAdvanced

/-- `Epoller`: the epoll instance with its registrations, none once it has been moved
away, and the size of `events_`. -/
structure Epoller where
  registrations : Option (ℕ → Option EventsSet)
  eventsSize : ℕ

namespace Epoller

/-- `Epoller(events_size)`. -/
def new (eventsSize : ℕ) : Epoller := ⟨some fun _ => none, eventsSize⟩

/-- What the move constructor leaves behind. -/
def movedFrom : Epoller := ⟨none, 0⟩

/-- The poller knows this descriptor. -/
def Knows (p : Epoller) (fd : ℕ) : Prop := ∃ set, (p.registrations.bind fun r => r fd) = some set

end Epoller

/-- The fields of an `AsyncServer`.  A closed server has no descriptor; `Sockinfo{}`
and an empty handler are `none`. -/
structure ServerObject (A H : Type*) where
  poller : Epoller
  fd : Option ℕ
  socket : Option A
  handler : Option H
  connections : ℕ → Option AsyncConnection
  defaultInterestsSet : EventsSet
  timeout : ℤ

namespace ServerObject

variable {A H : Type*}

/-- `POLLER_EVENTS_SIZE`. -/
def pollerEventsSize : ℕ := 256

/-- The constructor, with the socket it has opened. -/
def new (fd : ℕ) (socket : A) (handler : Option H) (set : EventsSet) (timeout : ℤ) :
    ServerObject A H where
  poller := .new pollerEventsSize
  fd := some fd
  socket := some socket
  handler := handler
  connections := fun _ => none
  defaultInterestsSet := set
  timeout := timeout

/-- `swap`, as both servers are behind it. -/
def swap (a b : ServerObject A H) : ServerObject A H × ServerObject A H :=
  ({ a with fd := b.fd, socket := b.socket, timeout := b.timeout, poller := b.poller },
    { b with fd := a.fd, socket := a.socket, timeout := a.timeout, poller := a.poller })

/-- The move constructor, with what it leaves of `other`. -/
def moveConstruct (other : ServerObject A H) : ServerObject A H × ServerObject A H :=
  ({ fd := other.fd
     socket := other.socket
     poller := other.poller
     handler := other.handler
     connections := fun _ => none
     defaultInterestsSet := other.defaultInterestsSet
     timeout := other.timeout },
    { other with
      fd := none, socket := none, defaultInterestsSet := ⟨0⟩, poller := .movedFrom,
      handler := none })

/-- The move assignment. -/
def moveAssign (s other : ServerObject A H) : ServerObject A H × ServerObject A H :=
  let (tmp, other) := other.moveConstruct
  ((s.swap tmp).1, other)

/-- `open`, with the socket it has opened. -/
def reopen (s : ServerObject A H) (fd : ℕ) (socket : A) (set : EventsSet) : ServerObject A H :=
  (s.swap (.new fd socket s.handler set (-1))).1

/-- The target does what the source would have done: it listens on the same socket
with the same handler and interests, and has the connections its poller knows. -/
structure TakesOver (target source : ServerObject A H) : Prop where
  fd : target.fd = source.fd
  socket : target.socket = source.socket
  poller : target.poller = source.poller
  timeout : target.timeout = source.timeout
  handler : target.handler = source.handler
  defaultInterestsSet : target.defaultInterestsSet = source.defaultInterestsSet
  connections : ∀ fd, source.poller.Knows fd → target.connections fd = source.connections fd

end ServerObject

open ServerObject

/-- The four operations; `open` comes with the socket it has opened. -/
inductive ServerOperation (A : Type*)
  | swap
  | moveConstruct
  | moveAssign
  | reopen (fd : ℕ) (socket : A) (set : EventsSet)
  deriving DecidableEq, Repr

namespace ServerOperation

variable {A H : Type*}

/-- **What an operation is for**, on the servers `a` and, where there is another one,
`b`. -/
def Carries (a b : ServerObject A H) : ServerOperation A → Prop
  | .swap => a.swap b = (b, a)
  | .moveConstruct => TakesOver b.moveConstruct.1 b
  | .moveAssign => TakesOver (a.moveAssign b).1 b
  | .reopen fd socket set =>
    (a.reopen fd socket set).defaultInterestsSet = set ∧
      ∀ c, (a.reopen fd socket set).connections c ≠ none → (a.reopen fd socket set).poller.Knows c

/-- **The fields left out do not matter.** -/
def Harmless (a b : ServerObject A H) : ServerOperation A → Prop
  | .swap =>
    a.handler = b.handler ∧ a.connections = b.connections ∧
      a.defaultInterestsSet = b.defaultInterestsSet
  | .moveConstruct => ∀ fd, b.poller.Knows fd → b.connections fd = none
  | .moveAssign =>
    a.handler = b.handler ∧ a.defaultInterestsSet = b.defaultInterestsSet ∧
      ∀ fd, b.poller.Knows fd → a.connections fd = b.connections fd
  | .reopen _ _ set => a.defaultInterestsSet = set ∧ ∀ c, a.connections c = none

theorem swap_carries (a b : ServerObject A H) : Carries a b .swap ↔ Harmless a b .swap := by
  constructor
  · intro h
    have hfirst : (a.swap b).1 = b := congrArg Prod.fst h
    have hhandler := congrArg ServerObject.handler hfirst
    have hconnections := congrArg ServerObject.connections hfirst
    have hset := congrArg ServerObject.defaultInterestsSet hfirst
    exact ⟨hhandler, hconnections, hset⟩
  · rintro ⟨hhandler, hconnections, hset⟩
    cases a
    cases b
    cases hhandler
    cases hconnections
    cases hset
    rfl

theorem moveConstruct_carries (a b : ServerObject A H) :
    Carries a b .moveConstruct ↔ Harmless a b .moveConstruct := by
  constructor
  · intro h fd hknows
    exact (h.connections fd hknows).symm
  · intro h
    exact ⟨rfl, rfl, rfl, rfl, rfl, rfl, fun fd hknows => (h fd hknows).symm⟩

theorem moveAssign_carries (a b : ServerObject A H) :
    Carries a b .moveAssign ↔ Harmless a b .moveAssign := by
  constructor
  · intro h
    exact ⟨h.handler, h.defaultInterestsSet, h.connections⟩
  · rintro ⟨hhandler, hset, hconnections⟩
    exact ⟨rfl, rfl, rfl, rfl, hhandler, hset, hconnections⟩

theorem reopen_carries (a b : ServerObject A H) (fd : ℕ) (socket : A) (set : EventsSet) :
    Carries a b (.reopen fd socket set) ↔ Harmless a b (.reopen fd socket set) := by
  -- the new poller knows no descriptor yet
  have hknows : ∀ c, ¬ (a.reopen fd socket set).poller.Knows c := by
    rintro c ⟨set', hset'⟩
    cases hset'
  refine and_congr Iff.rfl (forall_congr' fun c => ?_)
  constructor
  · intro h
    by_contra hne
    exact hknows c (h hne)
  · intro h hne
    exact absurd h hne

end ServerOperation

open ServerOperation

/-- **The two agree**, for any two servers and each of the four operations. -/
theorem carries_iff {A H : Type*} (a b : ServerObject A H) (op : ServerOperation A) :
    op.Carries a b ↔ op.Harmless a b := by
  cases op with
  | swap => exact swap_carries a b
  | moveConstruct => exact moveConstruct_carries a b
  | moveAssign => exact moveAssign_carries a b
  | reopen fd socket set => exact reopen_carries a b fd socket set

/-- Two servers with a client each: every operation loses something. -/
theorem operations_lose_fields :
    let server (fd client handler : ℕ) : ServerObject ℕ ℕ :=
      { ServerObject.new fd 80 (some handler) (.ofList [.in_]) (-1) with
        poller := ⟨some fun c => if c = client then some (.ofList [.in_]) else none, 256⟩
        connections := fun c => if c = client then some ⟨some client, .ofList [.in_]⟩ else none }
    ∀ op : ServerOperation ℕ, ¬ op.Carries (server 3 5 7) (server 4 6 8) := by
  intro server op h
  cases op with
  | swap =>
    have hhandler := congrArg (fun x => x.1.handler) h
    cases hhandler
  | moveConstruct =>
    have hentry := h.connections 6 ⟨_, rfl⟩
    cases hentry
  | moveAssign => cases h.handler
  | reopen fd socket set =>
    obtain ⟨set', hset'⟩ := h.2 5 nofun
    cases hset'

end TpAdvanced
