import TpAdvanced.Lib.Machine
import TpAdvanced.Lib.Ownership
import TpAdvanced.Tcp.AsyncServer
import TpAdvanced.Tcp.Connection

/-!
# Who closes a descriptor

`Connection` and `AsyncConnection` own a descriptor from their construction to their
destruction.  The objects of a program are run here together, with every outcome of
the system calls and with the calls that each descriptor sees.  A descriptor is named
by its turn, since the kernel gives the number of a closed one again.

## Main definitions

* `Object.close`, `Object.read` — the members of the two classes that touch the descriptor.
* `Program.step` — what a program does with its objects; `moveAssign`, `connect` are made of it.
* `Program.Closes` — what the owners are for.
* `Program.Fits` — no call fails that the code has no answer to.

## Main results

* `accounted_step` — a step keeps the account when it fits, and only then.
* `closes_of_fits` — **where all calls fit, every descriptor is closed in time, once
  and last of all**; in a program that destroys its objects, only there.
-/

namespace TpAdvanced

namespace Descriptors

open Function (update)
open Ownership

/-- The system calls on a descriptor. -/
inductive Call
  | connect
  | getsockname
  | getpeername
  | setsockopt
  | read
  | write
  | shutdown
  | close
  deriving DecidableEq, Repr

/-- The two classes. -/
inductive Kind
  | connection
  | asyncConnection
  deriving DecidableEq, Repr

/-- An object of one of the classes, without a descriptor when `fd_` is `FD_CLOSED`. -/
structure Object where
  kind : Kind
  fd : Option ℕ
  deriving DecidableEq, Repr

/-- What a member does: whether it returns, what is behind it, and the calls that the
descriptor sees, the last one first. -/
structure Effect where
  returns : Bool
  object : Object
  calls : List Call
  deriving DecidableEq, Repr

/-- What `::read` gives, and at the end of the stream what closing does. -/
inductive ReadAnswer
  | data
  | again
  | failed
  | eof (a : CloseAnswer)
  deriving DecidableEq, Repr

namespace Object

/-- `close`.  A closed `Connection` returns; `AsyncConnection` does not look, and its
`shutdown(-1)` fails. -/
def close (o : Object) (a : CloseAnswer) : Effect :=
  match o.fd with
  | none => ⟨o.kind = .connection, o, []⟩
  | some _ =>
    if a.shutdown then
      if a.close then ⟨true, { o with fd := none }, [.close, .shutdown]⟩
      else ⟨false, o, [.close, .shutdown]⟩
    else ⟨false, o, [.shutdown]⟩

/-- `read`.  `EAGAIN` is an error to a `Connection`. -/
def read (o : Object) (answer : ReadAnswer) : Effect :=
  match o.fd, answer with
  | none, _ => ⟨false, o, []⟩
  | some _, .data => ⟨true, o, [.read]⟩
  | some _, .again => ⟨o.kind = .asyncConnection, o, [.read]⟩
  | some _, .failed => ⟨false, o, [.read]⟩
  | some _, .eof a => { o.close a with calls := (o.close a).calls ++ [.read] }

/-- `write`. -/
def write (o : Object) (ok : Bool) : Effect :=
  match o.fd with
  | none => ⟨false, o, []⟩
  | some _ => ⟨ok, o, [.write]⟩

/-- `Connection::setTimeout`. -/
def setTimeout (o : Object) (ok : Bool) : Effect :=
  match o.fd with
  | none => ⟨false, o, []⟩
  | some _ => ⟨ok, o, [.setsockopt]⟩

end Object

/-- Whether `getsockname` and `getpeername` succeed. -/
structure NameAnswers where
  sockname : Bool
  peername : Bool
  deriving DecidableEq, Repr

namespace NameAnswers

/-- `get_local_sockaddr` and `get_remote_sockaddr` both return. -/
def ok (a : NameAnswers) : Bool := a.sockname && a.peername

def calls (a : NameAnswers) : List Call :=
  if a.sockname then [.getpeername, .getsockname] else [.getsockname]

end NameAnswers

/-- What becomes of an address that `getaddrinfo` has given. -/
inductive Node
  /-- `socket` fails. -/
  | noSocket
  /-- `::connect` fails. -/
  | refused
  /-- `::connect` succeeds, and then the rest as it is answered. -/
  | connected (names : NameAnswers) (timeout : Bool)
  deriving DecidableEq, Repr

namespace Node

/-- The constructor returns with these addresses. -/
def opens : List Node → Bool
  | [] => false
  | .noSocket :: nodes => opens nodes
  | .refused :: nodes => opens nodes
  | .connected names timeout :: _ => names.ok && timeout

/-- No call fails once a connection is there. -/
def Fit : List Node → Prop
  | [] => True
  | .noSocket :: nodes => Fit nodes
  | .refused :: nodes => Fit nodes
  | .connected names timeout :: _ => names.ok ∧ timeout

instance Fit.decidable : ∀ nodes, Decidable (Fit nodes)
  | [] => isTrue trivial
  | .noSocket :: nodes => Fit.decidable nodes
  | .refused :: nodes => Fit.decidable nodes
  | .connected names timeout :: _ => inferInstanceAs (Decidable (names.ok ∧ timeout))

end Node

/-- The objects of a program, and the descriptors with their calls. -/
structure Program where
  objects : ℕ → Option Object
  ledger : Ledger Call

namespace Program

/-- A program before its first object. -/
def start : Program := ⟨fun _ => none, ⟨fun _ => [], 0⟩⟩

/-- The descriptor that an object has. -/
def holds (p : Program) (x : ℕ) : Option ℕ := (p.objects x).bind Object.fd

/-- A descriptor that a constructor gets, and throws with. -/
def lose (p : Program) (calls : List Call) : Program :=
  { p with ledger := p.ledger.acquire calls }

/-- A descriptor that a constructor gets, and keeps. -/
def keep (p : Program) (kind : Kind) (x : ℕ) (calls : List Call) : Program where
  objects := update p.objects x (some ⟨kind, some p.ledger.count⟩)
  ledger := p.ledger.acquire calls

/-- `Connection(int fd)` and `AsyncConnection(int fd)`. -/
def takeOver (p : Program) (kind : Kind) (x : ℕ) (names : NameAnswers) : Program :=
  if names.ok then p.keep kind x names.calls else p.lose names.calls

/-- `Connection(hostname, port, timeout_sec)`, with the addresses. -/
def construct (p : Program) (x : ℕ) : List Node → Program
  | [] => p
  | .noSocket :: nodes => p.construct x nodes
  | .refused :: nodes => (p.lose [.close, .connect]).construct x nodes
  | .connected names timeout :: _ =>
    if names.ok then
      if timeout then p.keep .connection x (.setsockopt :: names.calls ++ [.connect])
      else p.lose (.setsockopt :: names.calls ++ [.connect])
    else p.lose (names.calls ++ [.connect])

/-- A member is called on an object. -/
def call (p : Program) (x : ℕ) (o : Object) (e : Effect) : Program where
  objects := update p.objects x (some e.object)
  ledger := p.ledger.use o.fd e.calls

/-- The destructor, which swallows what `close` throws. -/
def destroy (p : Program) (x : ℕ) (o : Object) (a : CloseAnswer) : Program where
  objects := update p.objects x none
  ledger := p.ledger.use o.fd (o.close a).calls

/-- The move constructor. -/
def moveConstruct (p : Program) (x y : ℕ) (other : Object) : Program :=
  { p with objects := update (update p.objects x (some { other with fd := none })) y (some other) }

/-- `swap`. -/
def swap (p : Program) (x y : ℕ) (o other : Object) : Program :=
  { p with objects := update (update p.objects x (some other)) y (some o) }

/-- What a program does with its objects. -/
inductive Operation
  /-- A server makes `x` for the descriptor of a client. -/
  | takeOver (kind : Kind) (x : ℕ) (names : NameAnswers)
  | construct (x : ℕ) (nodes : List Node)
  /-- Makes `y` out of `x`. -/
  | moveConstruct (x y : ℕ)
  | swap (x y : ℕ)
  | read (x : ℕ) (answer : ReadAnswer)
  | write (x : ℕ) (ok : Bool)
  | setTimeout (x : ℕ) (ok : Bool)
  | close (x : ℕ) (a : CloseAnswer)
  | destroy (x : ℕ) (a : CloseAnswer)
  deriving DecidableEq, Repr

/-- **A step of a program.**  A constructor needs a new name, and a member an object. -/
def step (p : Program) : Operation → Option Program
  | .takeOver kind x names =>
    if (p.objects x).isNone then some (p.takeOver kind x names) else none
  | .construct x nodes => if (p.objects x).isNone then some (p.construct x nodes) else none
  | .moveConstruct x y =>
    match p.objects x, p.objects y with
    | some other, none => some (p.moveConstruct x y other)
    | _, _ => none
  | .swap x y =>
    match p.objects x, p.objects y with
    | some o, some other => if o.kind = other.kind then some (p.swap x y o other) else none
    | _, _ => none
  | .read x answer => (p.objects x).map fun o => p.call x o (o.read answer)
  | .write x ok => (p.objects x).map fun o => p.call x o (o.write ok)
  | .setTimeout x ok => (p.objects x).bind fun o =>
    if o.kind = .connection then some (p.call x o (o.setTimeout ok)) else none
  | .close x a => (p.objects x).map fun o => p.call x o (o.close a)
  | .destroy x a => (p.objects x).map fun o => p.destroy x o a

/-- `operator=(Connection &&other)`, on `x` from `y`. -/
def moveAssign (x y tmp : ℕ) (a : CloseAnswer) : List Operation :=
  [.moveConstruct y tmp, .swap x tmp, .destroy tmp a]

/-- `Connection::connect`. -/
def connect (x tmp : ℕ) (nodes : List Node) (a : CloseAnswer) : List Operation :=
  .construct tmp nodes :: if Node.opens nodes then [.swap x tmp, .destroy tmp a] else []

/-- **What the owners are for**: each descriptor has an owner that has not closed it, or
it has been closed and not used since. -/
def Closes (p : Program) : Prop := Handled .close p.holds p.ledger

/-- The account that the program keeps when nothing goes wrong. -/
def Accounts (p : Program) : Prop := Accounted .close p.holds p.ledger

/-- **No call fails that the code has no answer to**: none of a constructor on a
descriptor that it has, no `shutdown` of a destructor and no `::close` elsewhere. -/
def Fits (p : Program) : Operation → Prop
  | .takeOver _ _ names => names.ok
  | .construct _ nodes => Node.Fit nodes
  | .read x (.eof a) => p.holds x ≠ none → a.shutdown → a.close
  | .close x a => p.holds x ≠ none → a.shutdown → a.close
  | .destroy x a => p.holds x ≠ none → a.shutdown
  | _ => True

instance (p : Program) : ∀ op, Decidable (p.Fits op)
  | .takeOver _ _ names => inferInstanceAs (Decidable names.ok)
  | .construct _ nodes => Node.Fit.decidable nodes
  | .read x (.eof a) => inferInstanceAs (Decidable (p.holds x ≠ none → a.shutdown → a.close))
  | .close x a => inferInstanceAs (Decidable (p.holds x ≠ none → a.shutdown → a.close))
  | .destroy x a => inferInstanceAs (Decidable (p.holds x ≠ none → a.shutdown))
  | .moveConstruct _ _ => isTrue trivial
  | .swap _ _ => isTrue trivial
  | .read _ .data => isTrue trivial
  | .read _ .again => isTrue trivial
  | .read _ .failed => isTrue trivial
  | .write _ _ => isTrue trivial
  | .setTimeout _ _ => isTrue trivial

/-- The condition along a run. -/
def FitsAlong (p : Program) (ops : List Operation) : Prop :=
  Machine.Along step (fun p op _ => p.Fits op) p ops

end Program

/-! ### The members -/

namespace Object

/-- A member leaves the descriptor or gives it up, and the latter not without a call. -/
structure Respects (o : Object) (e : Effect) : Prop where
  fd : e.object.fd = none ∨ e.object.fd = o.fd
  calls : e.object.fd ≠ o.fd → e.calls ≠ []

/-- What a member must not fail to do: close the descriptor if it gives it up, and only then. -/
def Settles (o : Object) (e : Effect) : Prop :=
  o.fd ≠ none →
    e.object.fd = o.fd ∧ .close ∉ e.calls ∨ e.object.fd = none ∧ Released .close e.calls

variable (o : Object) (a : CloseAnswer) (answer : ReadAnswer) (ok : Bool)

/-- This `close` and the one of the server, on an open socket. -/
theorem close_eq_asyncConnection (c : AsyncConnection) (sockets : Sockets)
    (hopen : ∀ fd, c.fd = some fd → (sockets fd).isSome) :
    (c.close sockets a).1 = (close ⟨.asyncConnection, c.fd⟩ a).returns ∧
      (c.close sockets a).2.1.fd = (close ⟨.asyncConnection, c.fd⟩ a).object.fd := by
  obtain ⟨_ | fd, set⟩ := c
  · exact ⟨rfl, rfl⟩
  · have hfd := hopen fd rfl
    obtain ⟨_ | _, _ | _⟩ := a <;> simp [close, AsyncConnection.close, hfd]

/-- The answers without the texts of the errors. -/
def answerOf : Closing → CloseAnswer
  | .closed => ⟨true, true⟩
  | .shutdownFailed _ => ⟨false, true⟩
  | .closeFailed _ => ⟨true, false⟩

/-- This `close` and the one with the texts of its errors. -/
theorem close_eq_connection (fd : Option ℕ) (x : Closing) :
    (Connection.close ⟨fd.isSome⟩ x).1.isOk =
        (close ⟨.connection, fd⟩ (answerOf x)).returns ∧
      (Connection.close ⟨fd.isSome⟩ x).2.isOpened =
        (close ⟨.connection, fd⟩ (answerOf x)).object.fd.isSome := by
  cases fd <;> cases x <;> exact ⟨rfl, rfl⟩

theorem respects_close : o.Respects (o.close a) := by
  obtain ⟨kind, _ | fd⟩ := o
  · exact ⟨.inl rfl, fun h => absurd rfl h⟩
  · constructor <;> simp only [close] <;> split_ifs <;> simp

theorem settles_close : o.Settles (o.close a) ↔ (o.fd ≠ none → a.shutdown → a.close) := by
  obtain ⟨kind, _ | fd⟩ := o
  · simp [Settles]
  · obtain ⟨_ | _, _ | _⟩ := a <;> simp [Settles, close, Released]

theorem respects_read : o.Respects (o.read answer) := by
  obtain ⟨kind, _ | fd⟩ := o
  · exact ⟨.inl rfl, fun h => absurd rfl h⟩
  · cases answer with
    | eof a => exact ⟨(respects_close _ a).fd, fun _ => by simp [read]⟩
    | _ => exact ⟨.inr rfl, fun h => absurd rfl h⟩

theorem settles_read_eof :
    o.Settles (o.read (.eof a)) ↔ (o.fd ≠ none → a.shutdown → a.close) := by
  obtain ⟨kind, _ | fd⟩ := o
  · simp [Settles]
  · obtain ⟨_ | _, _ | _⟩ := a <;> simp [Settles, read, close, Released]

theorem settles_read (h : ∀ a, answer ≠ .eof a) : o.Settles (o.read answer) := by
  obtain ⟨kind, _ | fd⟩ := o
  · simp [Settles]
  · cases answer with
    | eof a => exact absurd rfl (h a)
    | _ => simp [Settles, read]

theorem respects_write : o.Respects (o.write ok) := by
  obtain ⟨kind, _ | fd⟩ := o <;> exact ⟨.inr rfl, fun h => absurd rfl h⟩

theorem settles_write : o.Settles (o.write ok) := by
  obtain ⟨kind, _ | fd⟩ := o <;> simp [Settles, write]

theorem respects_setTimeout : o.Respects (o.setTimeout ok) := by
  obtain ⟨kind, _ | fd⟩ := o <;> exact ⟨.inr rfl, fun h => absurd rfl h⟩

theorem settles_setTimeout : o.Settles (o.setTimeout ok) := by
  obtain ⟨kind, _ | fd⟩ := o <;> simp [Settles, setTimeout]

/-- What the destructor comes to: it gives the descriptor up in any case. -/
def destroyed (o : Object) (a : CloseAnswer) : Effect :=
  { o.close a with object := { o with fd := none } }

theorem respects_destroyed : o.Respects (o.destroyed a) := by
  obtain ⟨kind, _ | fd⟩ := o
  · exact ⟨.inl rfl, fun h => absurd rfl h⟩
  · refine ⟨.inl rfl, fun _ => ?_⟩
    simp only [destroyed, close]
    split_ifs <;> simp

theorem settles_destroyed : o.Settles (o.destroyed a) ↔ (o.fd ≠ none → a.shutdown) := by
  obtain ⟨kind, _ | fd⟩ := o
  · simp [Settles]
  · obtain ⟨_ | _, _ | _⟩ := a <;> simp [Settles, destroyed, close, Released]

end Object

namespace Program

variable {p p' : Program} {op : Operation} {ops : List Operation} {x y : ℕ} {o other : Object}
  {e : Effect} {kind : Kind} {calls : List Call}

/-! ### One step -/

theorem holds_of_objects (hx : p.objects x = some o) : p.holds x = o.fd := by
  rw [holds, hx, Option.bind_some]

theorem holds_of_isNone (hx : (p.objects x).isNone) : p.holds x = none := by
  rw [holds, Option.isNone_iff_eq_none.mp hx, Option.bind_none]

theorem holds_update (o? : Option Object) (l : Ledger Call) :
    holds ⟨update p.objects x o?, l⟩ = update p.holds x (o?.bind Object.fd) := by
  funext y
  simp only [holds, Function.update_apply]
  split_ifs <;> rfl

/-- A move and a swap are an exchange of the descriptors. -/
theorem holds_exchange (o? o'? : Option Object) (l : Ledger Call)
    (ho : o?.bind Object.fd = p.holds y) (ho' : o'?.bind Object.fd = p.holds x) :
    holds ⟨update (update p.objects x o?) y o'?, l⟩ = p.holds ∘ Equiv.swap y x := by
  rw [Equiv.comp_swap_eq_update, ← ho, ← ho', ← holds_update o? l]
  exact holds_update (p := ⟨update p.objects x o?, l⟩) o'? l

theorem sound_call (hs : Sound p.holds p.ledger) (hx : p.objects x = some o)
    (he : o.Respects e) : Sound (p.call x o e).holds (p.call x o e).ledger := by
  rw [call, holds_update, Option.bind_some, ← holds_of_objects hx]
  exact hs.use (holds_of_objects hx ▸ he.fd)

theorem accounts_call (hs : Sound p.holds p.ledger) (hx : p.objects x = some o)
    (he : o.Respects e) : (p.call x o e).Accounts ↔ p.Accounts ∧ o.Settles e := by
  have hfd := holds_of_objects hx
  rw [Accounts, call, holds_update, Option.bind_some]
  dsimp only
  rw [← hfd]
  exact (accounted_use hs (hfd ▸ he.fd) (hfd ▸ he.calls)).trans (by rw [hfd]; rfl)

/-- The destructor does to the descriptors what a member would that gives its own up. -/
theorem destroy_eq (a : CloseAnswer) :
    (p.destroy x o a).holds = (p.call x o (o.destroyed a)).holds ∧
      (p.destroy x o a).ledger = (p.call x o (o.destroyed a)).ledger := by
  rw [destroy, call, holds_update, holds_update]
  exact ⟨rfl, rfl⟩

theorem sound_keep (hs : Sound p.holds p.ledger) :
    Sound (p.keep kind x calls).holds (p.keep kind x calls).ledger := by
  rw [keep, holds_update]
  exact hs.acquire_update

theorem accounts_keep (hx : (p.objects x).isNone) :
    (p.keep kind x calls).Accounts ↔ p.Accounts ∧ .close ∉ calls := by
  rw [Accounts, keep, holds_update]
  exact accounted_acquire_held (holds_of_isNone hx)

theorem accounts_lose (hs : Sound p.holds p.ledger) :
    (p.lose calls).Accounts ↔ p.Accounts ∧ Released .close calls :=
  accounted_acquire_unheld hs

theorem sound_construct (nodes : List Node) (hs : Sound p.holds p.ledger) :
    Sound (p.construct x nodes).holds (p.construct x nodes).ledger := by
  induction nodes generalizing p with
  | nil => exact hs
  | cons node nodes ih =>
    cases node with
    | noSocket => exact ih hs
    | refused => exact ih (p := p.lose _) hs.acquire
    | connected names timeout =>
      rw [construct]
      split_ifs
      · exact sound_keep hs
      · exact hs.acquire
      · exact hs.acquire

theorem close_not_mem_calls (names : NameAnswers) : .close ∉ names.calls := by
  unfold NameAnswers.calls
  split_ifs <;> simp

/-- What the names saw is not the end of a descriptor. -/
theorem not_released_calls (names : NameAnswers) (cs : List Call) :
    ¬ Released .close (names.calls ++ cs) := by
  unfold NameAnswers.calls
  split_ifs <;> simp [Released]

theorem accounts_takeOver (names : NameAnswers) (hs : Sound p.holds p.ledger)
    (hx : (p.objects x).isNone) :
    (p.takeOver kind x names).Accounts ↔ p.Accounts ∧ names.ok := by
  rw [takeOver]
  split_ifs with hok
  · rw [accounts_keep hx]
    exact and_congr_right' (iff_of_true (close_not_mem_calls names) hok)
  · rw [accounts_lose hs]
    refine and_congr_right' (iff_of_false ?_ hok)
    exact (List.append_nil names.calls) ▸ not_released_calls names []

theorem accounts_construct (nodes : List Node) (hs : Sound p.holds p.ledger)
    (hx : (p.objects x).isNone) :
    (p.construct x nodes).Accounts ↔ p.Accounts ∧ Node.Fit nodes := by
  induction nodes generalizing p with
  | nil => exact (and_iff_left trivial).symm
  | cons node nodes ih =>
    cases node with
    | noSocket => exact ih hs hx
    | refused =>
      have hclosed : Released Call.close [.close, .connect] := ⟨rfl, by simp⟩
      refine (ih (p := p.lose _) hs.acquire hx).trans ?_
      rw [accounts_lose hs, and_iff_left hclosed, Node.Fit]
    | connected names timeout =>
      have hnames := close_not_mem_calls names
      rw [construct, Node.Fit]
      split_ifs with hok htimeout
      · rw [accounts_keep hx]
        exact and_congr_right' (iff_of_true (by simp [hnames]) ⟨hok, htimeout⟩)
      · rw [accounts_lose hs]
        exact and_congr_right' (iff_of_false (by simp [Released]) fun h => htimeout h.2)
      · rw [accounts_lose hs]
        exact and_congr_right' (iff_of_false (not_released_calls names _) fun h => hok h.1)

/-- A member leaves the owners apart, and keeps the account when it settles its own. -/
theorem call_spec (hs : Sound p.holds p.ledger) (hx : p.objects x = some o)
    (he : o.Respects e) : Sound (p.call x o e).holds (p.call x o e).ledger ∧
      ((p.call x o e).Accounts ↔ p.Accounts ∧ o.Settles e) :=
  ⟨sound_call hs hx he, accounts_call hs hx he⟩

/-- **A step leaves the owners apart, and keeps the account when it fits**, and only then. -/
theorem step_spec (hs : Sound p.holds p.ledger) (hstep : p.step op = some p') :
    Sound p'.holds p'.ledger ∧ (p'.Accounts ↔ p.Accounts ∧ p.Fits op) := by
  have hexchange : ∀ x y, p'.holds = p.holds ∘ Equiv.swap x y → p'.ledger = p.ledger →
      Sound p'.holds p'.ledger ∧ (p'.Accounts ↔ p.Accounts ∧ True) := by
    intro x y hholds hledger
    rw [Accounts, hholds, hledger, accounted_comp, and_true]
    exact ⟨hs.comp _, Iff.rfl⟩
  cases op with
  | takeOver kind x names =>
    obtain ⟨hx, ⟨⟩⟩ := Option.ite_none_right_eq_some.mp hstep
    refine ⟨?_, accounts_takeOver names hs hx⟩
    rw [takeOver]
    split_ifs
    · exact sound_keep hs
    · exact hs.acquire
  | construct x nodes =>
    obtain ⟨hx, ⟨⟩⟩ := Option.ite_none_right_eq_some.mp hstep
    exact ⟨sound_construct nodes hs, accounts_construct nodes hs hx⟩
  | moveConstruct x y =>
    simp only [step] at hstep
    split at hstep
    · rename_i other hx hy
      cases hstep
      refine hexchange y x (holds_exchange _ _ _ ?_ (holds_of_objects hx).symm) rfl
      rw [holds, hy]
      rfl
    · cases hstep
  | swap x y =>
    simp only [step] at hstep
    split at hstep
    · rename_i o other hx hy
      obtain ⟨-, ⟨⟩⟩ := Option.ite_none_right_eq_some.mp hstep
      exact hexchange y x
        (holds_exchange _ _ _ (holds_of_objects hy).symm (holds_of_objects hx).symm) rfl
    · cases hstep
  | read x answer =>
    obtain ⟨o, hx, rfl⟩ := Option.map_eq_some_iff.mp hstep
    have h := call_spec hs hx (o.respects_read answer)
    cases answer with
    | eof a => rwa [o.settles_read_eof, ← holds_of_objects hx] at h
    | _ => rwa [and_iff_left (o.settles_read _ (by simp)), ← and_true p.Accounts] at h
  | write x ok =>
    obtain ⟨o, hx, rfl⟩ := Option.map_eq_some_iff.mp hstep
    have h := call_spec hs hx (o.respects_write ok)
    rwa [and_iff_left (o.settles_write ok), ← and_true p.Accounts] at h
  | setTimeout x ok =>
    obtain ⟨o, hx, ho⟩ := Option.bind_eq_some_iff.mp hstep
    obtain ⟨-, ⟨⟩⟩ := Option.ite_none_right_eq_some.mp ho
    have h := call_spec hs hx (o.respects_setTimeout ok)
    rwa [and_iff_left (o.settles_setTimeout ok), ← and_true p.Accounts] at h
  | close x a =>
    obtain ⟨o, hx, rfl⟩ := Option.map_eq_some_iff.mp hstep
    have h := call_spec hs hx (o.respects_close a)
    rwa [o.settles_close, ← holds_of_objects hx] at h
  | destroy x a =>
    obtain ⟨o, hx, rfl⟩ := Option.map_eq_some_iff.mp hstep
    have h := call_spec hs hx (o.respects_destroyed a)
    obtain ⟨hholds, hledger⟩ := destroy_eq (p := p) (x := x) (o := o) a
    rw [o.settles_destroyed, ← holds_of_objects hx, Accounts, ← hholds, ← hledger] at h
    exact h

/-! ### The functions made of several steps -/

section

variable {tmp : ℕ} {nodes : List Node} (a : CloseAnswer)

/-- The move assignment gives `x` what `y` had and closes what `x` had. -/
theorem run_moveAssign (hx : p.objects x = some o) (hy : p.objects y = some other)
    (htmp : p.objects tmp = none) (hkind : o.kind = other.kind) (hxy : x ≠ y) :
    Machine.run step p (moveAssign x y tmp a) = some
      ⟨update (update p.objects x (some other)) y (some { other with fd := none }),
        p.ledger.use o.fd (o.close a).calls⟩ := by
  have hxtmp : x ≠ tmp := by
    rintro rfl
    cases hx.symm.trans htmp
  have hytmp : y ≠ tmp := by
    rintro rfl
    cases hy.symm.trans htmp
  simp only [moveAssign, Machine.run, step, hy, htmp, Option.bind_some, moveConstruct,
    Function.update_of_ne hxtmp, Function.update_of_ne hxy, hx, Function.update_self, hkind,
    if_true, swap, Option.map_some, destroy]
  congr 2
  funext z
  simp only [Function.update_apply]
  split_ifs <;> simp_all

/-- An object that is assigned to itself stays as it is. -/
theorem run_moveAssign_self (hx : p.objects x = some o) (htmp : p.objects tmp = none) :
    Machine.run step p (moveAssign x x tmp a) = some p := by
  have hxtmp : x ≠ tmp := by
    rintro rfl
    cases hx.symm.trans htmp
  simp only [moveAssign, Machine.run, step, hx, htmp, Option.bind_some, moveConstruct,
    Function.update_of_ne hxtmp, Function.update_self, if_true, swap, Option.map_some, destroy,
    Ledger.use_none]
  congr 1
  obtain ⟨objects, ledger⟩ := p
  congr 1
  funext z
  simp only [Function.update_apply]
  split_ifs <;> simp_all

/-- The object is there just when the constructor returns, with the last descriptor. -/
theorem construct_objects (nodes : List Node) : (p.construct x nodes).objects =
    if Node.opens nodes then
      update p.objects x (some ⟨.connection, some ((p.construct x nodes).ledger.count - 1)⟩)
    else p.objects := by
  induction nodes generalizing p with
  | nil => rfl
  | cons node nodes ih =>
    cases node with
    | noSocket => exact ih
    | refused => exact ih (p := p.lose _)
    | connected names timeout =>
      obtain ⟨_ | _, _ | _⟩ := names <;> cases timeout <;> rfl

/-- `connect` puts a new descriptor in the place of the old one and closes that one. -/
theorem run_connect {fd : Option ℕ} (hx : p.objects x = some ⟨.connection, fd⟩)
    (htmp : p.objects tmp = none) (hopens : Node.opens nodes) :
    Machine.run step p (connect x tmp nodes a) = some
      ⟨update p.objects x
          (some ⟨.connection, some ((p.construct tmp nodes).ledger.count - 1)⟩),
        (p.construct tmp nodes).ledger.use fd (Object.close ⟨.connection, fd⟩ a).calls⟩ := by
  have hxtmp : x ≠ tmp := by
    rintro rfl
    cases hx.symm.trans htmp
  have hobjects := construct_objects (p := p) (x := tmp) nodes
  rw [if_pos hopens] at hobjects
  have hx' : (p.construct tmp nodes).objects x = some ⟨.connection, fd⟩ := by
    rw [hobjects, Function.update_of_ne hxtmp, hx]
  have htmp' : (p.construct tmp nodes).objects tmp =
      some ⟨.connection, some ((p.construct tmp nodes).ledger.count - 1)⟩ := by
    rw [hobjects, Function.update_self]
  simp only [connect, hopens, if_true, Machine.run, step, htmp, Option.isNone_none,
    Option.bind_some, hx', htmp', swap, Function.update_self, Option.map_some, destroy]
  congr 2
  rw [hobjects]
  funext z
  simp only [Function.update_apply]
  split_ifs <;> simp_all

/-- A `connect` that throws leaves the object as it was. -/
theorem run_connect_of_not_opens (htmp : p.objects tmp = none) (hopens : ¬ Node.opens nodes) :
    Machine.run step p (connect x tmp nodes a) =
      some ⟨p.objects, (p.construct tmp nodes).ledger⟩ := by
  have hobjects := construct_objects (p := p) (x := tmp) nodes
  rw [if_neg hopens] at hobjects
  simp only [connect, hopens, Machine.run, step, htmp, Option.isNone_none, if_true,
    Option.bind_some, ← hobjects]
  rfl

end

/-! ### Whole programs -/

theorem sound_start : Sound start.holds start.ledger := ⟨nofun, nofun⟩

theorem accounts_start : start.Accounts := nofun

/-- **A run keeps the account when all its steps fit**, and only then. -/
theorem accounts_run (hs : Sound p.holds p.ledger) (hrun : Machine.run step p ops = some p') :
    p'.Accounts ↔ p.Accounts ∧ p.FitsAlong ops := by
  induction ops generalizing p with
  | nil =>
    cases hrun
    exact (and_iff_left trivial).symm
  | cons op ops ih =>
    obtain ⟨p₁, hstep, hrest⟩ := Machine.run_cons_eq_some.mp hrun
    obtain ⟨hs₁, hacc⟩ := step_spec hs hstep
    rw [ih hs₁ hrest, hacc, FitsAlong, FitsAlong, Machine.along_cons_of_some hstep, and_assoc]

/-- **Where all calls fit, every descriptor is closed in time, once and last of all**; in a
program that destroys its objects, only there. -/
theorem closes_of_fits (hrun : Machine.run step start ops = some p) :
    (start.FitsAlong ops → p.Closes) ∧
      ((∀ x, p.objects x = none) → (p.Closes ↔ start.FitsAlong ops)) := by
  have hacc : p.Accounts ↔ start.FitsAlong ops := by
    rw [accounts_run sound_start hrun, and_iff_right accounts_start]
  refine ⟨fun h => (hacc.mpr h).handled, fun hnone => ?_⟩
  rw [← hacc]
  exact handled_iff_accounted fun x => by rw [holds, hnone, Option.bind_none]

/-- The second address answers, and the client is gone before its first `shutdown`. -/
def twoConnections : List Operation :=
  [.construct 0 [.refused, .connected ⟨true, true⟩ true],
    .takeOver .asyncConnection 1 ⟨true, true⟩, .moveConstruct 1 2, .read 2 (.eof ⟨false, true⟩),
    .close 0 ⟨true, true⟩, .destroy 0 ⟨false, false⟩, .destroy 1 ⟨false, false⟩,
    .destroy 2 ⟨true, false⟩]

theorem closes_of_fits_two :
    ∃ p, Machine.run step start twoConnections = some p ∧ p.Closes := by
  have hfits : start.FitsAlong twoConnections := by
    unfold FitsAlong
    decide
  obtain ⟨p, hrun⟩ := Option.isSome_iff_exists.mp
    (rfl : (Machine.run step start twoConnections).isSome)
  exact ⟨p, hrun, (closes_of_fits hrun).1 hfits⟩

/-- The peer is gone when the object is destroyed. -/
theorem destroyed_not_closed : ∃ p, Machine.run step start
    [.takeOver .connection 0 ⟨true, true⟩, .destroy 0 ⟨false, true⟩] = some p ∧
      (∀ x, p.objects x = none) ∧ ¬ p.Closes := by
  have hnone : ∀ x, update (update (fun _ => none) 0 (some (⟨.connection, some 0⟩ : Object))) 0
      none x = none := by
    intro x
    simp only [Function.update_apply]
    split_ifs <;> rfl
  refine ⟨_, rfl, hnone, fun h => ?_⟩
  rcases h 0 Nat.zero_lt_one with ⟨⟨x, hx⟩, -⟩ | ⟨hcall, -⟩
  · cases hx.symm.trans (congrArg (Option.bind · Object.fd) (hnone x))
  · cases hcall

end Program

end Descriptors

end TpAdvanced
