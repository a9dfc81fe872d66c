import Mathlib.Data.Finmap
import TpAdvanced.Coroutine.Flat
import TpAdvanced.Http.ConnectionHandler

/-!
# Workers

An `HttpWorker` runs an event loop in a thread of its own: it accepts connections,
has each served by a handler on a coroutine, resumes the handlers on their events and
ends those that have been idle for too long.

Descriptor numbers belong to the process, so the table of open sockets is kept beside
the worker, and a call of `close` is a step of its own: what the worker still has to
close is listed in `closing`, and it does nothing else before that is done.  All that
a worker does besides concerns only itself.

`std::ref(*this)`, the function of a handler's routine, is given by the handler's key.
What the system calls in a handler answer is a script of `HandlerEvent`s.

## Main definitions

* `ClientSocket`, `Descriptors` — what the kernel knows of an accepted connection.
* `HandlerEntry`, `Worker` — the map of handlers and the thread's ordinator.
* `Worker.resumeHandler`, `Worker.createHandler`, `Worker.scheduleTimeoutHandler`,
  `Worker.shutdown`, `Worker.destroy`.
* `Worker.step` — one step of a worker.
-/

namespace TpAdvanced

open Machine Coroutine

/-! ### Descriptors -/

/-- An open connection. -/
structure ClientSocket (ι : Type*) where
  /-- The worker that has accepted it. -/
  owner : ι
  /-- What the owner's epoll has registered. -/
  interests : Option EventsSet
  /-- When it was accepted, or when its handler was last suspended, at once behind an
  attempt to read or write. -/
  activity : ℤ
  deriving DecidableEq, Repr

/-- The open connections of the process, under their descriptors. -/
abbrev Descriptors (ι : Type*) := ℕ → Option (ClientSocket ι)

/-! ### Running a handler -/

/-- How `operator()` gives control back where it stands. -/
def Frame.ending : Frame → Option (ThreadEvent ℕ Thrown)
  | .readYield .. => some .yield
  | .writeYield .. => some .yield
  | .returned => some .finish
  | .threw e => some (.throw e)
  | _ => none

/-- A handler is resumed and runs until it gives control back; the script is what its
calls get. -/
def HandlerState.runOn [StdHash] (s : HandlerState) (script : List HandlerEvent) :
    Option (HandlerState × ThreadEvent ℕ Thrown) :=
  if .resumed ∈ script then none
  else (run HandlerState.step s (.resumed :: script)).bind fun s' =>
    s'.frame.ending.map fun e => (s', e)

/-- When the handler was suspended. -/
def HandlerEvent.attemptTime : HandlerEvent → Option ℤ
  | .readAgain now => some now
  | .writeAgain now => some now
  | _ => none

/-- The latest observation of a thread. -/
def lastObservation : Execution ℕ Thrown → Option (Observation ℕ Thrown)
  | .defined t => t.log.getLast?
  | .undefined => none

/-- An entry of `coroutines`: `fd_` and `routine_id_`, which are `none` for -1, the
other fields, and the place where `operator()` stands. -/
structure HandlerEntry where
  fd : Option ℕ
  routineId : Option ℕ
  state : HandlerState
  deriving DecidableEq, Repr

namespace HandlerEntry

/-- `setTimeout`. -/
def setTimeout (c : HandlerEntry) : HandlerEntry :=
  { c with state.handler.timeout := true }

/-- The entry with its handler run on. -/
def withState (c : HandlerEntry) (s : HandlerState) : HandlerEntry := { c with state := s }

/-- `getEventsSet`. -/
def eventsSet (c : HandlerEntry) : EventsSet := c.state.handler.set

/-- `getLastActivity`. -/
def lastActivity (c : HandlerEntry) : ℤ := c.state.handler.lastActivity

/-- `isTimeout`. -/
def isTimeout (c : HandlerEntry) : Bool := c.state.handler.timeout

end HandlerEntry

/-! ### Workers -/

/-- Where `run_events_loop` stands. -/
inductive WorkerPhase
  | serving
  /-- The thread has ended. -/
  | stopped
  | destroyed
  deriving DecidableEq, Repr

structure WorkerConfig where
  serverFd : ℕ
  timeoutThreshold : ℤ
  deriving DecidableEq, Repr

/-- A worker.  `scanned` is the time of the timeout scan it has just made. -/
structure Worker where
  execution : Execution ℕ Thrown := .start
  coroutines : Finmap fun _ : ℕ => HandlerEntry := ∅
  closing : List ℕ := []
  phase : WorkerPhase := .serving
  scanned : Option ℤ := none

namespace Worker

/-- The entry under a descriptor. -/
def handler? (w : Worker) (fd : ℕ) : Option HandlerEntry := w.coroutines.lookup fd

/-- An entry is written. -/
def set (w : Worker) (fd : ℕ) (c : HandlerEntry) : Worker :=
  { w with coroutines := w.coroutines.insert fd c }

/-- `coroutines.erase(fd)`: the destructor of the handler closes its descriptor. -/
def erase (w : Worker) (fd : ℕ) : Worker :=
  match w.handler? fd with
  | none => w
  | some c =>
    { w with coroutines := w.coroutines.erase fd, closing := w.closing ++ c.fd.toList }

/-- An order in which the handlers can be iterated over. -/
def Iterates (w : Worker) (order : List ℕ) : Prop :=
  order.Nodup ∧ order.toFinset = w.coroutines.keys

instance (w : Worker) (order : List ℕ) : Decidable (w.Iterates order) :=
  inferInstanceAs (Decidable (_ ∧ _))

variable [StdHash]

/-- `Coroutine::resume` on the routine of a handler: what it returns or throws. -/
def resumeRoutine (w : Worker) (id : ℕ) (script : List HandlerEvent) :
    Option (Worker × Except Thrown Bool) :=
  (w.execution.step (.resume id true)).bind fun x =>
    match lastObservation x with
    | some (.returned _ suspended) =>
      if script = [] then some ({ w with execution := x }, .ok suspended) else none
    | some (.ran _ fd _) =>
      (w.handler? fd).bind fun c =>
        (c.state.runOn script).bind fun s =>
          (x.step s.2).bind fun x' =>
            match lastObservation x' with
            | some (.returned _ suspended) =>
              some ({ w with execution := x' }.set fd (c.withState s.1), .ok suspended)
            | some (.threw _ e) =>
              some ({ w with execution := x' }.set fd (c.withState s.1), .error e)
            | _ => none
    | _ => none

/-- `ConnectionHandler::resumeHandler`. -/
def resumeConnection (w : Worker) (c : HandlerEntry) (script : List HandlerEvent) :
    Option (Worker × Except Thrown Bool) :=
  match c.routineId with
  | none => some (w, .ok true)
  | some id => w.resumeRoutine id script

/-- `HttpWorker::resumeHandler`; `modified` tells whether `epoll_ctl` changes the
interests, if it is asked to.  The new interests are returned. -/
def resumeHandler (w : Worker) (fd : ℕ) (script : List HandlerEvent) (modified : Bool) :
    Option (Worker × Option EventsSet) :=
  (w.handler? fd).bind fun c =>
    (w.resumeConnection c script).map fun r =>
      match r.2 with
      | .ok true =>
        match r.1.handler? fd with
        | none => (r.1, none)
        | some c' =>
          if c.eventsSet = c'.eventsSet then (r.1, none)
          else if modified then (r.1, some c'.eventsSet)
          else (r.1.erase fd, none)
      | _ => (r.1.erase fd, none)

/-- `registerHandler`, up to its `resumeHandler`. -/
def createHandler (w : Worker) (fd : ℕ) : Option Worker :=
  (w.execution.step (.create (some fd))).bind fun x =>
    match lastObservation x with
    | some (.created id) =>
      some ({ w with execution := x }.set fd
        ⟨some fd, some id, ⟨.new (.ofList [.in_]) 1, .created⟩⟩)
    | _ => none

/-- `handleEvents`, on an event of a client. -/
def handleClient (w : Worker) (fd : ℕ) (script : List HandlerEvent) (modified : Bool) :
    Option (Worker × Option EventsSet) :=
  match w.handler? fd with
  | none => (w.createHandler fd).bind fun w => w.resumeHandler fd script modified
  | some _ => w.resumeHandler fd script modified

/-- `scheduleTimeoutHandler`, on one handler.  What its routine throws is caught. -/
def timeoutHandler (threshold now : ℤ) (w : Worker) (fd : ℕ) : Option Worker :=
  (w.handler? fd).bind fun c =>
    if threshold ≤ now - c.lastActivity then
      ((w.set fd c.setTimeout).resumeConnection c.setTimeout []).map fun r =>
        { r.1 with closing := r.1.closing ++ [fd] }.erase fd
    else some w

/-- `scheduleTimeoutHandler`. -/
def scheduleTimeoutHandler (threshold now : ℤ) (w : Worker) (order : List ℕ) : Option Worker :=
  order.foldlM (timeoutHandler threshold now) w

/-- The loop behind the event loop.  An exception of a routine leaves it. -/
def shutdown : List ℕ → Worker → Option Worker
  | [], w => some w
  | fd :: order, w =>
    (w.handler? fd).bind fun c =>
      ((w.set fd c.setTimeout).resumeConnection c.setTimeout []).bind fun r =>
        match r.2 with
        | .ok _ => shutdown order r.1
        | .error _ => some r.1

omit [StdHash] in
/-- The destructor of `coroutines`. -/
def destroy (w : Worker) (order : List ℕ) : Worker := order.foldl erase w

end Worker

/-! ### Steps -/

/-- What a worker does next. -/
inductive WorkerEvent
  /-- `accept4` returns a descriptor; `added` tells whether it is registered. -/
  | accepted (fd : ℕ) (added : Bool) (now : ℤ)
  /-- `epoll_wait` reports a client. -/
  | ready (fd : ℕ) (script : List HandlerEvent) (modified : Bool)
  /-- The timeout scan, in some order. -/
  | scan (now : ℤ) (order : List ℕ)
  /-- The event loop ends. -/
  | stop (order : List ℕ)
  | destroy (order : List ℕ)
  /-- The next call of `close`. -/
  | close
  deriving DecidableEq

variable {ι : Type*} [DecidableEq ι]

/-- The epoll of worker `i` reports the descriptor. -/
def Registered (d : Descriptors ι) (i : ι) (fd : ℕ) : Prop :=
  ∃ s, d fd = some s ∧ s.owner = i ∧ s.interests.isSome = true

instance (d : Descriptors ι) (i : ι) (fd : ℕ) : Decidable (Registered d i fd) :=
  decidable_of_iff ((d fd).any fun s => decide (s.owner = i) && s.interests.isSome) (by
    simp [Registered, Option.any_eq_true])

/-- What an event of a client leaves in the table: new interests, and a new time. -/
def ClientSocket.update (s : ClientSocket ι) (interests : Option EventsSet)
    (script : List HandlerEvent) : ClientSocket ι :=
  { s with
    interests := interests.or s.interests
    activity := (script.getLast?.bind HandlerEvent.attemptTime).getD s.activity }

/-- **A step of worker `i`.** -/
def Worker.step [StdHash] (cfg : WorkerConfig) (i : ι) (r : Worker × Descriptors ι) :
    WorkerEvent → Option (Worker × Descriptors ι)
  | .accepted fd added now =>
    if r.1.phase = .serving ∧ r.1.closing = [] ∧ r.2 fd = none ∧ fd ≠ cfg.serverFd then
      some ({ r.1 with scanned := none }, Function.update r.2 fd
        (some ⟨i, if added then some (.ofList [.in_]) else none, now⟩))
    else none
  | .ready fd script modified =>
    if r.1.phase = .serving ∧ r.1.closing = [] ∧ Registered r.2 i fd then
      (r.1.handleClient fd script modified).map fun a =>
        ({ a.1 with scanned := none },
          Function.update r.2 fd ((r.2 fd).map fun s => s.update a.2 script))
    else none
  | .scan now order =>
    if r.1.phase = .serving ∧ r.1.closing = [] ∧ r.1.Iterates order then
      (r.1.scheduleTimeoutHandler cfg.timeoutThreshold now order).map fun w =>
        ({ w with scanned := some now }, r.2)
    else none
  | .stop order =>
    if r.1.phase = .serving ∧ r.1.closing = [] ∧ r.1.Iterates order then
      (Worker.shutdown order r.1).map fun w => ({ w with phase := .stopped, scanned := none }, r.2)
    else none
  | .destroy order =>
    if r.1.phase = .stopped ∧ r.1.closing = [] ∧ r.1.Iterates order then
      some ({ r.1.destroy order with phase := .destroyed }, r.2)
    else none
  | .close =>
    match r.1.closing with
    | [] => none
    | fd :: rest => some ({ r.1 with closing := rest }, Function.update r.2 fd none)

end TpAdvanced
