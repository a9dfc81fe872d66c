import TpAdvanced.Lib.CText
import TpAdvanced.Lib.Search

/-!
# Loggers

A logger prints what is important enough for it, one line for each message, and throws when
its stream has failed.  A stream takes bytes as long as there is room for them; when it has
failed it takes nothing any more.

## Main definitions

* `LogMessage.line` — a message as it is printed.
* `Sink` — a stream.
* `Logger`, `LogCall.run` — what a call does by itself.
* `readLog` — a log is read.

## Main results

* `readLog_lines` — **a log is read back**, if no text has a line end.
* `Sink.write_holding` — what a stream holds.
-/

namespace TpAdvanced.Log

open CText

/-! ### Messages -/

inductive Level
  | error
  | warn
  | info
  | debug
  deriving DecidableEq, Repr

def Level.value : Level → ℕ
  | .debug => 3
  | .info => 2
  | .warn => 1
  | .error => 0

/-- `to_string`. -/
def Level.toString : Level → Bytes
  | .debug => ascii "DEBUG"
  | .info => ascii "INFO"
  | .warn => ascii "WARN"
  | .error => ascii "ERROR"

structure LogMessage where
  level : Level
  text : Bytes
  deriving DecidableEq, Repr

/-- `operator<<`. -/
def LogMessage.print (m : LogMessage) : Bytes :=
  91 :: m.level.toString ++ ascii "]: " ++ m.text

/-- The message with the line end that all loggers put behind it. -/
def LogMessage.line (m : LogMessage) : Bytes := m.print ++ [10]

/-! ### Reading a log -/

/-- The lines that are complete, and what is behind them. -/
def logLines : Bytes → List Bytes × Bytes
  | [] => ([], [])
  | b :: s =>
    if b = 10 then ([] :: (logLines s).1, (logLines s).2)
    else match (logLines s).1 with
      | [] => ([], b :: (logLines s).2)
      | l :: ls => ((b :: l) :: ls, (logLines s).2)

def Level.ofString (s : Bytes) : Option Level :=
  [Level.debug, .info, .warn, .error].find? fun level => level.toString = s

/-- The message of a line. -/
def readMessage : Bytes → Option LogMessage
  | 91 :: rest =>
    match List.cutAt 93 rest with
    | (name, 58 :: 32 :: text) => (Level.ofString name).map fun level => ⟨level, text⟩
    | _ => none
  | _ => none

/-- The messages of a log, and what is behind the last line. -/
def readLog (s : Bytes) : List (Option LogMessage) × Bytes :=
  ((logLines s).1.map readMessage, (logLines s).2)

theorem logLines_of_notMem {s : Bytes} (h : 10 ∉ s) : logLines s = ([], s) := by
  induction s with
  | nil => rfl
  | cons b s ih =>
    rw [List.mem_cons, not_or] at h
    obtain ⟨hb, hs⟩ := h
    rw [logLines, if_neg (Ne.symm hb), ih hs]

theorem logLines_append {l : Bytes} (hl : 10 ∉ l) (t : Bytes) :
    logLines (l ++ 10 :: t) = (l :: (logLines t).1, (logLines t).2) := by
  induction l with
  | nil => rw [List.nil_append, logLines, if_pos rfl]
  | cons b l ih =>
    rw [List.mem_cons, not_or] at hl
    obtain ⟨hb, hl⟩ := hl
    rw [List.cons_append, logLines, if_neg (Ne.symm hb), ih hl]

theorem readMessage_print (m : LogMessage) : readMessage m.print = some m := by
  have hname : (93 : UInt8) ∉ m.level.toString := by cases m.level <;> decide
  have hlevel : Level.ofString m.level.toString = some m.level := by cases m.level <;> decide
  have hprint : m.print = 91 :: (m.level.toString ++ 93 :: (58 :: 32 :: m.text)) := by
    simp [LogMessage.print, ascii]
  rw [hprint, readMessage, List.cutAt_append_cons hname]
  simp [hlevel]

theorem newline_notMem_print {m : LogMessage} (h : 10 ∉ m.text) : 10 ∉ m.print := by
  have hname : (10 : UInt8) ∉ m.level.toString := by cases m.level <;> decide
  simp [LogMessage.print, ascii, hname, h]

/-- **A log is read back**, with what there is of the line that is being written. -/
theorem readLog_lines {ms : List LogMessage} (h : ∀ m ∈ ms, 10 ∉ m.text) {part : Bytes}
    (hpart : 10 ∉ part) :
    readLog (ms.flatMap LogMessage.line ++ part) = (ms.map some, part) := by
  induction ms with
  | nil => rw [readLog, List.flatMap_nil, List.nil_append, logLines_of_notMem hpart]; rfl
  | cons m ms ih =>
    have ih := ih fun m' hm' => h m' (List.mem_cons_of_mem m hm')
    rw [readLog] at ih ⊢
    obtain ⟨hlines, hrest⟩ := Prod.mk.inj ih
    rw [List.flatMap_cons, LogMessage.line, List.append_assoc, List.append_assoc,
      List.singleton_append, logLines_append (newline_notMem_print (h m List.mem_cons_self)),
      List.map_cons, readMessage_print, List.map_cons]
    rw [hlines, hrest]

/-! ### Streams -/

/-- A stream: what it has taken, how much more it can take, if that is limited, and whether
it has failed. -/
structure Sink where
  text : Bytes := []
  room : Option ℕ := none
  failed : Bool := false
  deriving DecidableEq, Repr

namespace Sink

/-- A byte is put into a stream. -/
def put (s : Sink) (b : UInt8) : Sink :=
  if s.failed then s
  else match s.room with
    | none => { s with text := s.text ++ [b] }
    | some 0 => { s with failed := true }
    | some (n + 1) => { s with text := s.text ++ [b], room := some n }

/-- `operator<<`. -/
def write (s : Sink) (bytes : Bytes) : Sink := bytes.foldl put s

/-- A stream with this much room that has been given some bytes. -/
def holding (room : Option ℕ) (bytes : Bytes) : Sink where
  text := room.elim bytes bytes.take
  room := room.map (· - bytes.length)
  failed := room.any (· < bytes.length)

theorem put_holding (room : Option ℕ) (bytes : Bytes) (b : UInt8) :
    (holding room bytes).put b = holding room (bytes ++ [b]) := by
  cases room with
  | none => rfl
  | some n =>
    rw [put, holding, holding]
    simp only [Option.any_some, Option.map_some, Option.elim_some, decide_eq_true_eq,
      List.length_append, List.length_singleton]
    rcases Nat.lt_trichotomy n bytes.length with hlt | rfl | hgt
    · rw [if_pos hlt, List.take_append_of_le_length hlt.le, Nat.sub_eq_zero_of_le hlt.le,
        Nat.sub_eq_zero_of_le (Nat.le_succ_of_le hlt.le), decide_eq_true hlt,
        decide_eq_true (Nat.lt_succ_of_lt hlt)]
    · rw [if_neg (Nat.lt_irrefl _), Nat.sub_self]
      simp
    · rw [if_neg hgt.not_gt]
      obtain ⟨k, hk⟩ := Nat.exists_eq_add_of_lt hgt
      have hroom : n - bytes.length = k + 1 := by omega
      have hless : n - (bytes.length + 1) = k := by omega
      rw [hroom, hless, List.take_of_length_le hgt.le,
        List.take_of_length_le (by rw [List.length_append]; exact hgt), decide_eq_false hgt.not_gt,
        decide_eq_false (by omega)]

theorem write_holding (room : Option ℕ) (bytes more : Bytes) :
    (holding room bytes).write more = holding room (bytes ++ more) := by
  induction more generalizing bytes with
  | nil => rw [List.append_nil]; rfl
  | cons b more ih =>
    rw [List.append_cons, ← ih (bytes ++ [b]), ← put_holding]
    rfl

end Sink

/-! ### Loggers -/

/-- Where a logger prints: `std::cout`, `std::cerr`, or its own stream on the file. -/
inductive Target
  | stdout
  | stderr
  | file (stream : ℕ) (path : String)
  deriving DecidableEq, Repr

/-- `LogError`, and `FileLogError` with its file. -/
structure LogError where
  message : String
  logFile : Option String := none
  deriving DecidableEq, Repr

/-- What is thrown when the stream has failed. -/
def Target.error : Target → LogError
  | .stdout => { message := "unable to write message to stdout" }
  | .stderr => { message := "unable to write message to stderr" }
  | .file _ path => { message := "unable to write message to file", logFile := some path }

/-- A logger: `StdoutLogger`, `StderrLogger` or `FileLogger` by its target, or the class
derived from it that has a mutex. -/
structure Logger where
  /-- The object. -/
  id : ℕ
  target : Target
  level : Level := .error
  threadSafe : Bool
  deriving DecidableEq, Repr

def Logger.willBeLogged (l : Logger) (level : Level) : Bool := level.value ≤ l.level.value

/-- `debug`, `info`, `warn` or `error` of a logger. -/
structure LogCall where
  logger : Logger
  message : LogMessage
  deriving DecidableEq, Repr

namespace LogCall

/-- What a call prints. -/
def printed (c : LogCall) : Bytes :=
  if c.logger.willBeLogged c.message.level then c.message.line else []

/-- `if (!sink)`, behind the printing. -/
def check (c : LogCall) (s : Sink) : Except LogError Unit :=
  if s.failed then .error c.logger.target.error else .ok ()

/-- **What a call does by itself** to the stream, and what it returns or throws. -/
def run (c : LogCall) (s : Sink) : Sink × Except LogError Unit :=
  (s.write c.printed,
    if c.logger.willBeLogged c.message.level then c.check (s.write c.printed) else .ok ())

/-- What some calls print. -/
def allPrinted (cs : List LogCall) : Bytes := cs.flatMap printed

/-- The messages that are printed. -/
def messages (cs : List LogCall) : List LogMessage :=
  (cs.filter fun c => c.logger.willBeLogged c.message.level).map message

theorem allPrinted_eq (cs : List LogCall) :
    allPrinted cs = (messages cs).flatMap LogMessage.line := by
  induction cs with
  | nil => rfl
  | cons c cs ih =>
    rw [allPrinted, List.flatMap_cons, ← allPrinted, ih, printed]
    by_cases h : c.logger.willBeLogged c.message.level = true
    · have hcons : messages (c :: cs) = c.message :: messages cs := by simp [messages, h]
      rw [if_pos h, hcons, List.flatMap_cons]
    · have hcons : messages (c :: cs) = messages cs := by simp [messages, h]
      rw [if_neg h, hcons, List.nil_append]

end LogCall

end TpAdvanced.Log
