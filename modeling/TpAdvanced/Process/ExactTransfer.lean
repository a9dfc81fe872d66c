import TpAdvanced.Tcp.Connection

/-!
# Exact transfers of processes and connections

`Process` and `tcp::Connection` each have a `readExact` and a `writeExact`, written
separately.  Their passes are lawful, so that a byte string written by either of them
is read by either of them as it was, whatever parts the kernel makes of it.

## Main definitions

* `Process.readExactPass`, `Process.writeExactPass` — the loop bodies.
* `Endpoint` — a process or a connection.

## Main results

* `Endpoint.exact_transfer` — **the calls are exact**.
-/

namespace TpAdvanced

open Machine Transfer

namespace Process

/-- `read`. -/
def read : IoAnswer → Except TransferError ℕ
  | .failed reason => .error (.runtimeError ("unable to perform Process::read " ++ reason))
  | .result got _ => .ok got

/-- `write`. -/
def write : IoAnswer → Except TransferError ℕ
  | .failed reason =>
    .error (.runtimeError ("fail to perform write() syscall in Process::write " ++ reason))
  | .result sent _ => .ok sent

/-- A pass of the loop in `readExact`. -/
def readExactPass (len total : ℕ) (a : IoAnswer) : Except TransferError ℕ := do
  let got ← read a
  if total ≠ len ∧ got = 0 then
    throw (.runtimeError
      ("EOF encountered in readExact method, read " ++ toString total ++ " bytes"))
  return SizeT.add total got

/-- A pass of the loop in `writeExact`. -/
def writeExactPass (len total : ℕ) (a : IoAnswer) : Except TransferError ℕ := do
  let sent ← write a
  if total ≠ len ∧ sent = 0 then
    throw (.runtimeError
      ("EOF encountered in writeExact method, wrote " ++ toString total ++ " bytes"))
  return SizeT.add total sent

end Process

/-- An object that bytes are read from and written to. -/
inductive Endpoint
  | process
  | connection (c : Connection)
  deriving DecidableEq, Repr

namespace Endpoint

/-- Only a connection can be found closed before its system call. -/
def Ready : Endpoint → Prop
  | .process => True
  | .connection c => c.isOpened = true

/-- The loop with these bodies. -/
def side (process : ℕ → ℕ → IoAnswer → Except TransferError ℕ)
    (connection : Connection → ℕ → ℕ → IoAnswer → Except TransferError ℕ × Connection) :
    Side Endpoint IoAnswer TransferError where
  pass
    | .process, len, total, a => (process len total a, .process)
    | .connection c, len, total, a =>
      ((connection c len total a).1, .connection (connection c len total a).2)
  moved := IoAnswer.moved

/-- `readExact`. -/
def readExact : Side Endpoint IoAnswer TransferError :=
  side Process.readExactPass Connection.readExactPass

/-- `writeExact`. -/
def writeExact : Side Endpoint IoAnswer TransferError :=
  side Process.writeExactPass Connection.writeExactPass

/-! ### The passes are lawful -/

theorem pass_process_ok {len total n : ℕ} (x : Closing) (hpos : 0 < n) (hsum : total + n < 2 ^ 64) :
    Process.readExactPass len total (.result n x) = .ok (total + n) ∧
      Process.writeExactPass len total (.result n x) = .ok (total + n) := by
  have hne : n ≠ 0 := by omega
  constructor
  · simp [Process.readExactPass, Process.read, hne, SizeT.add_of_lt hsum, bind, Except.bind, pure,
      Except.pure]
  · simp [Process.writeExactPass, Process.write, hne, SizeT.add_of_lt hsum, bind, Except.bind,
      pure, Except.pure]

theorem pass_connection_ok {c : Connection} {len total n : ℕ} (x : Closing)
    (hopen : c.isOpened = true) (hpos : 0 < n) (hsum : total + n < 2 ^ 64) :
    c.readExactPass len total (.result n x) = (.ok (total + n), c) ∧
      c.writeExactPass len total (.result n x) = (.ok (total + n), c) := by
  have hne : n ≠ 0 := by omega
  constructor
  · simp [Connection.readExactPass, Connection.read, hopen, hne, SizeT.add_of_lt hsum]
  · simp [Connection.writeExactPass, Connection.write, hopen, hne, SizeT.add_of_lt hsum]

/-- Where nothing is left to transfer, or something failed, every pass throws. -/
theorem pass_process_error {len total : ℕ} {a : IoAnswer} (hlt : total < len) (ha : a.moved = 0) :
    (∃ e, Process.readExactPass len total a = .error e) ∧
      ∃ e, Process.writeExactPass len total a = .error e := by
  have hne : total ≠ len := by omega
  cases a with
  | failed reason => exact ⟨⟨_, rfl⟩, ⟨_, rfl⟩⟩
  | result n x =>
    obtain rfl : n = 0 := ha
    constructor
    · exact ⟨_, by
        simp [Process.readExactPass, Process.read, hne, bind, Except.bind, throw, throwThe,
          MonadExceptOf.throw]
        rfl⟩
    · exact ⟨_, by simp [Process.writeExactPass, Process.write, hne, bind, Except.bind, throw,
        throwThe, MonadExceptOf.throw]; rfl⟩

theorem pass_connection_closed {c : Connection} (len total : ℕ) (a : IoAnswer)
    (hclosed : ¬ c.isOpened = true) :
    (∃ e, c.readExactPass len total a = (.error e, c)) ∧
      ∃ e, c.writeExactPass len total a = (.error e, c) := by
  constructor
  · exact ⟨_, by simp [Connection.readExactPass, Connection.read, hclosed]; rfl⟩
  · exact ⟨_, by simp [Connection.writeExactPass, Connection.write, hclosed]; rfl⟩

theorem pass_connection_error {c : Connection} {len total : ℕ} {a : IoAnswer} (hlt : total < len)
    (ha : a.moved = 0) :
    (∃ e c', c.readExactPass len total a = (.error e, c')) ∧
      ∃ e c', c.writeExactPass len total a = (.error e, c') := by
  have hne : total ≠ len := by omega
  by_cases hopen : c.isOpened = true
  · cases a with
    | failed reason =>
      constructor
      · exact ⟨_, c, by simp [Connection.readExactPass, Connection.read, hopen]; rfl⟩
      · exact ⟨_, c, by simp [Connection.writeExactPass, Connection.write, hopen]; rfl⟩
    | result n x =>
      obtain rfl : n = 0 := ha
      constructor
      · rw [Connection.readExactPass, Connection.read, if_pos hopen]
        -- closing the connection throws, or else the test of the loop does
        cases x <;> simp [Connection.close, hopen, hne, Except.map]
      · rw [Connection.writeExactPass, Connection.write, if_pos hopen]
        simp [hne]
  · obtain ⟨⟨e, he⟩, ⟨e', he'⟩⟩ := pass_connection_closed len total a hopen
    exact ⟨⟨e, c, he⟩, ⟨e', c, he'⟩⟩

/-- The loop is lawful if both bodies are. -/
theorem side_lawful {p : ℕ → ℕ → IoAnswer → Except TransferError ℕ}
    {q : Connection → ℕ → ℕ → IoAnswer → Except TransferError ℕ × Connection}
    (hp : ∀ len total n x, 0 < n → total + n < 2 ^ 64 →
      p len total (.result n x) = .ok (total + n))
    (hp0 : ∀ len total a, total < len → a.moved = 0 → ∃ e, p len total a = .error e)
    (hq : ∀ c len total n x, c.isOpened = true → 0 < n → total + n < 2 ^ 64 →
      q c len total (.result n x) = (.ok (total + n), c))
    (hq0 : ∀ c len total a, total < len → a.moved = 0 → ∃ e c', q c len total a = (.error e, c'))
    (hclosed : ∀ c len total a, ¬ c.isOpened = true → ∃ e, q c len total a = (.error e, c)) :
    (side p q).Lawful Ready where
  adds := by
    intro s len total a hready hlen hle hpos
    -- something has been moved, so the call has not failed
    obtain ⟨n, x, rfl⟩ : ∃ n x, a = .result n x := by
      cases a with
      | result n x => exact ⟨n, x, rfl⟩
      | failed reason => cases hpos
    have hsum : total + n < 2 ^ 64 := Nat.lt_of_le_of_lt hle hlen
    cases s with
    | process =>
      refine ⟨.process, ?_, trivial⟩
      change (p len total (.result n x), Endpoint.process) = _
      rw [hp len total n x hpos hsum]
      rfl
    | connection c =>
      refine ⟨.connection c, ?_, hready⟩
      change ((q c len total (.result n x)).1, Endpoint.connection _) = _
      rw [hq c len total n x hready hpos hsum]
      rfl
  stops := by
    intro s len total a hlt ha
    cases s with
    | process =>
      obtain ⟨e, he⟩ := hp0 len total a hlt ha
      exact ⟨e, .process, congrArg (·, Endpoint.process) he⟩
    | connection c =>
      obtain ⟨e, c', he⟩ := hq0 c len total a hlt ha
      refine ⟨e, .connection c', ?_⟩
      change ((q c len total a).1, Endpoint.connection _) = _
      rw [he]
  refuses := by
    intro s len total a hready
    cases s with
    | process => exact absurd trivial hready
    | connection c =>
      obtain ⟨e, he⟩ := hclosed c len total a hready
      refine ⟨e, .connection c, ?_⟩
      change ((q c len total a).1, Endpoint.connection _) = _
      rw [he]

theorem readExact_lawful : readExact.Lawful Ready :=
  side_lawful (fun _ _ _ x hpos hsum => (pass_process_ok x hpos hsum).1)
    (fun _ _ _ hlt ha => (pass_process_error hlt ha).1)
    (fun _ _ _ _ x hopen hpos hsum => (pass_connection_ok x hopen hpos hsum).1)
    (fun _ _ _ _ hlt ha => (pass_connection_error hlt ha).1)
    (fun _ _ _ _ hclosed => (pass_connection_closed _ _ _ hclosed).1)

theorem writeExact_lawful : writeExact.Lawful Ready :=
  side_lawful (fun _ _ _ x hpos hsum => (pass_process_ok x hpos hsum).2)
    (fun _ _ _ hlt ha => (pass_process_error hlt ha).2)
    (fun _ _ _ _ x hopen hpos hsum => (pass_connection_ok x hopen hpos hsum).2)
    (fun _ _ _ _ hlt ha => (pass_connection_error hlt ha).2)
    (fun _ _ _ _ hclosed => (pass_connection_closed _ _ _ hclosed).2)

/-- **The calls are exact**, for a process or a connection on either side: in every
run of answers, with the bytes of `d` written and a buffer of that length filled. -/
theorem exact_transfer {α : Type*} (d buffer : List α) (hd : d.length < 2 ^ 64)
    (hbuffer : buffer.length = d.length) (writer reader : Endpoint)
    (events : List (Event IoAnswer IoAnswer))
    (c : Channel α Endpoint Endpoint TransferError TransferError)
    (hrun : run (Channel.step d writeExact readExact) (.start d buffer writer reader) events =
      some c) :
    Exact d writeExact readExact writer.Ready reader.Ready events c :=
  exact_run writeExact_lawful readExact_lawful hd hbuffer hrun

/-- Three bytes go from a process to a connection, in different parts on each side. -/
theorem exact_transfer_three :
    ∃ c, run (Channel.step [7, 8, 9] writeExact readExact)
        (.start [7, 8, 9] [0, 0, 0] .process (.connection ⟨true⟩))
        [.write (.result 2 .closed), .read (.result 1 .closed), .write (.result 1 .closed),
          .read (.result 2 .closed)] = some c ∧
      c.reading = .returned ∧ c.buffer = [7, 8, 9] := by
  have hsome : (run (Channel.step [7, 8, 9] writeExact readExact)
      (.start [7, 8, 9] [0, 0, 0] .process (.connection ⟨true⟩))
      [.write (.result 2 .closed), .read (.result 1 .closed), .write (.result 1 .closed),
        .read (.result 2 .closed)]).any (·.reading = .returned) = true := by
    decide +kernel
  obtain ⟨c, hrun, hreading⟩ := (Option.any_eq_true _ _).mp hsome
  rw [decide_eq_true_eq] at hreading
  exact ⟨c, hrun, hreading,
    (exact_transfer [7, 8, 9] [0, 0, 0] (by decide) rfl _ _ _ c hrun).buffer_eq hreading⟩

end Endpoint

end TpAdvanced
