import TpAdvanced.Lib.Transfer

/-!
# Reading and writing a connection

`tcp::Connection` with the answers of its system calls as arguments.

## Main definitions

* `Connection.read`, `Connection.write` — one call of `::read` or `::write`.
* `Connection.readExactPass`, `Connection.writeExactPass` — the loop bodies of
  `readExact` and `writeExact`.
-/

namespace TpAdvanced

/-- What closing a socket gives, with the text for `errno`. -/
inductive Closing
  | closed
  | shutdownFailed (reason : String)
  | closeFailed (reason : String)
  deriving DecidableEq, Repr

/-- What `::read` or `::write` gives, and what closing the descriptor would. -/
inductive IoAnswer
  | result (n : ℕ) (closing : Closing)
  | failed (reason : String)
  deriving DecidableEq, Repr

/-- How many bytes have been transferred. -/
def IoAnswer.moved : IoAnswer → ℕ
  | .result n _ => n
  | .failed _ => 0

/-- What the calls throw. -/
inductive TransferError
  | runtimeError (what : String)
  | socketException (what : String)
  deriving DecidableEq, Repr

/-- `Connection`, whose descriptor is -1 once it is closed. -/
structure Connection where
  isOpened : Bool
  deriving DecidableEq, Repr

namespace Connection

/-- `close`. -/
def close (c : Connection) (x : Closing) : Except TransferError Unit × Connection :=
  if c.isOpened then
    match x with
    | .closed => (.ok (), ⟨false⟩)
    | .shutdownFailed reason =>
      (.error (.socketException ("unable to shutdown socket: " ++ reason)), c)
    | .closeFailed reason => (.error (.socketException ("unable to close socket: " ++ reason)), c)
  else (.ok (), c)

/-- `read`, which closes the connection at the end of the stream. -/
def read (c : Connection) (a : IoAnswer) : Except TransferError ℕ × Connection :=
  if c.isOpened then
    match a with
    | .failed reason =>
      (.error (.socketException ("unable to perform Connection::read " ++ reason)), c)
    | .result got closing =>
      if got = 0 then ((c.close closing).1.map fun _ => got, (c.close closing).2) else (.ok got, c)
  else (.error (.socketException "attempt to read from closed socket"), c)

/-- `write`. -/
def write (c : Connection) (a : IoAnswer) : Except TransferError ℕ × Connection :=
  if c.isOpened then
    match a with
    | .failed reason =>
      (.error (.socketException
        ("fail to perform write() syscall in Connection::write " ++ reason)), c)
    | .result sent _ => (.ok sent, c)
  else (.error (.socketException "attempt to write to closed socket"), c)

/-- A pass of the loop in `readExact`. -/
def readExactPass (c : Connection) (len total : ℕ) (a : IoAnswer) :
    Except TransferError ℕ × Connection :=
  match c.read a with
  | (.error e, c') => (.error e, c')
  | (.ok got, c') =>
    if total ≠ len ∧ got = 0 then
      (.error (.socketException
        ("EOF encountered in readExact method, read " ++ toString total ++ " bytes")), c')
    else (.ok (SizeT.add total got), c')

/-- A pass of the loop in `writeExact`. -/
def writeExactPass (c : Connection) (len total : ℕ) (a : IoAnswer) :
    Except TransferError ℕ × Connection :=
  match c.write a with
  | (.error e, c') => (.error e, c')
  | (.ok sent, c') =>
    if total ≠ len ∧ sent = 0 then
      (.error (.socketException
        ("EOF encountered in writeExact method, wrote " ++ toString total ++ " bytes")), c')
    else (.ok (SizeT.add total sent), c')

end Connection

end TpAdvanced
