import TpAdvanced.Tcp.Events
import Mathlib.Logic.Function.Basic

/-!
# The asynchronous server

`AsyncServer::accept` waits for events, registers new clients, and calls the user's
handler for the events of the others.  What the handler does with its connection and
what the system calls answer comes with the event.  An exception of `handleEvent` is
caught and the connection closed; any other one ends `accept`.

## Main definitions

* `AsyncConnection`, `HandlerOp` — a connection, and what a handler does with it.
* `AsyncServer`, `ServerEvent`, `ServerState.step` — the loop of `accept`.
-/

namespace TpAdvanced

/-- An open socket, with the interests it is registered with. -/
structure Socket where
  interests : Option EventsSet
  deriving DecidableEq, Repr

/-- The open client sockets, under their descriptors. -/
abbrev Sockets := ℕ → Option Socket

/-- `AsyncConnection`; without a descriptor it is closed. -/
structure AsyncConnection where
  fd : Option ℕ
  interestSet : EventsSet
  deriving DecidableEq, Repr

/-- Whether `shutdown` and `close` succeed on an open socket. -/
structure CloseAnswer where
  shutdown : Bool
  close : Bool
  deriving DecidableEq, Repr

namespace AsyncConnection

/-- `close`, and whether it returns.  Both calls fail on a descriptor that is not
open; otherwise `::close` releases it, whatever it answers. -/
def close (c : AsyncConnection) (sockets : Sockets) (a : CloseAnswer) :
    Bool × AsyncConnection × Sockets :=
  match c.fd with
  | none => (false, c, sockets)
  | some fd =>
    if (sockets fd).isSome && a.shutdown then
      (a.close, if a.close then { c with fd := none } else c, Function.update sockets fd none)
    else (false, c, sockets)

def triggersOn (c : AsyncConnection) (events : EventsSet) : Bool :=
  c.interestSet.haveIntersection events

end AsyncConnection

/-- What a handler does with its connection.  The result of a call decides what the
handler does next, which is up to the handler. -/
inductive HandlerOp
  /-- `read`, which closes the connection at the end of the stream. -/
  | read (eof : Option CloseAnswer)
  | write
  | close (a : CloseAnswer)
  | setInterestsSet (set : EventsSet)
  deriving DecidableEq, Repr

/-- What an operation leaves behind. -/
def HandlerOp.run (x : AsyncConnection × Sockets) : HandlerOp → AsyncConnection × Sockets
  | .read none => x
  | .read (some a) => (x.1.close x.2 a).2
  | .write => x
  | .close a => (x.1.close x.2 a).2
  | .setInterestsSet set => ({ x.1 with interestSet := set }, x.2)

/-- A call of the handler: its operations, and whether it throws. -/
structure HandlerRun where
  ops : List HandlerOp
  throws : Bool
  deriving DecidableEq, Repr

/-- What `registerConnection` gets: whether `getsockname`, `getpeername` and the
registration with epoll succeed, and what closing the socket would give. -/
structure RegisterAnswers where
  localSockaddr : Bool
  remoteSockaddr : Bool
  add : Bool
  closing : CloseAnswer
  deriving DecidableEq, Repr

/-- `AsyncServer`, with the sockets of its clients. -/
structure AsyncServer where
  connections : ℕ → Option AsyncConnection
  sockets : Sockets
  defaultInterestsSet : EventsSet

/-- What has ended `accept`: the server's own calls, or a client. -/
inductive ExitCause
  | server
  | client
  deriving DecidableEq, Repr

inductive ServerState
  | serving (s : AsyncServer)
  | exited (cause : ExitCause)

/-- What the loop gets next. -/
inductive ServerEvent
  /-- `accept4` returns this descriptor. -/
  | accepted (fd : ℕ) (a : RegisterAnswers)
  /-- An event on a client's descriptor: what the handler does if it is called,
  whether `epoll_ctl` then succeeds, and what closing the connection gives. -/
  | client (fd : ℕ) (events : EventsSet) (handler : HandlerRun) (modify : Bool)
      (closing : CloseAnswer)
  /-- A critical error of `accept4`. -/
  | acceptFailed
  /-- `epoll_wait` fails or is interrupted. -/
  | waitFailed

namespace AsyncServer

/-- A server without clients. -/
def start (set : EventsSet) : AsyncServer where
  connections := fun _ => none
  sockets := fun _ => none
  defaultInterestsSet := set

/-- The handler is called: the event is of interest, or an error. -/
def calls (c : AsyncConnection) (events : EventsSet) : Bool :=
  c.triggersOn events || events.haveIntersection (.ofList [.hup, .rdhup, .err])

/-- The connection and the sockets behind the call of the handler. -/
def afterHandler (s : AsyncServer) (c : AsyncConnection) (events : EventsSet)
    (handler : HandlerRun) : AsyncConnection × Sockets :=
  if calls c events then handler.ops.foldl HandlerOp.run (c, s.sockets) else (c, s.sockets)

/-- `poller_.modify`.  An error has the state at the throw. -/
def modifyInterests (s : AsyncServer) (fd : ℕ) (set : EventsSet) (ok : Bool) :
    Except AsyncServer AsyncServer :=
  if (s.sockets fd).any (·.interests.isSome) && ok then
    .ok { s with sockets := Function.update s.sockets fd (some ⟨some set⟩) }
  else .error s

/-- `handleEvent`.  An error has the state at the throw. -/
def handleEvent (s : AsyncServer) (fd : ℕ) (events : EventsSet) (handler : HandlerRun)
    (modify : Bool) : Except AsyncServer AsyncServer :=
  match s.connections fd with
  | none => .error s
  | some c =>
    let (c', sockets) := s.afterHandler c events handler
    let s' := { s with connections := Function.update s.connections fd (some c'), sockets }
    if calls c events && handler.throws then .error s'
    else if c'.fd.isNone then
      .ok { s' with connections := Function.update s'.connections fd none }
    else if !(c'.interestSet.diff c.interestSet).empty then
      s'.modifyInterests fd c'.interestSet modify
    else .ok s'

/-- `closeConnection`, called when `handleEvent` has thrown. -/
def closeConnection (s : AsyncServer) (fd : ℕ) (a : CloseAnswer) : ServerState :=
  match s.connections fd with
  | none => .serving s
  | some c =>
    match c.close s.sockets a with
    | (true, _, sockets) =>
      .serving { s with connections := Function.update s.connections fd none, sockets }
    | (false, _, _) => .exited .client

/-- `registerConnection`.  Where the entry exists already, `insert` leaves it alone
and the new connection is destroyed. -/
def registerConnection (s : AsyncServer) (fd : ℕ) (a : RegisterAnswers) : ServerState :=
  if a.localSockaddr && a.remoteSockaddr && a.add then
    let c : AsyncConnection := ⟨some fd, s.defaultInterestsSet⟩
    let sockets := Function.update s.sockets fd (some ⟨some c.interestSet⟩)
    match s.connections fd with
    | none => .serving
        { s with connections := Function.update s.connections fd (some c), sockets }
    | some _ => .serving { s with sockets := (c.close sockets a.closing).2.2 }
  else .exited .client

end AsyncServer

/-- **A step of `accept`**: one result of `accept4`, or one event of a client. -/
def ServerState.step : ServerState → ServerEvent → Option ServerState
  | .serving s, .accepted fd a =>
    if (s.sockets fd).isNone then some (s.registerConnection fd a) else none
  | .serving s, .client fd events handler modify closing =>
    match s.handleEvent fd events handler modify with
    | .ok s' => some (.serving s')
    | .error s' => some (s'.closeConnection fd closing)
  | .serving _, .acceptFailed => some (.exited .server)
  | .serving _, .waitFailed => some (.exited .server)
  | .exited _, _ => none

end TpAdvanced
