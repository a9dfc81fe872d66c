import TpAdvanced.Http.Parser
import TpAdvanced.Http.Response
import TpAdvanced.Lib.Machine
import TpAdvanced.Tcp.Events

/-!
# The connection handler

`ConnectionHandler::operator()` serves one connection on a coroutine: it reads a
request, asks the callback for a response, writes it, and starts over while the
connection is kept alive.  The model cuts it at its calls to `read`, `write` and
the callback and at its suspensions.  `Frame` says where it stands, an event is
the answer it gets there, and `step` runs it to the next such place.

## Main definitions

* `ReadBuff` — the read buffer, whose reallocation ends the life of the views
  into it.
* `Reading` — the locals of `readRequest` with the buffer, and its steps.
* `Frame`, `HandlerEvent`, `HandlerState.step` — `operator()`.
* `HandlerState.Rule` — what its steps can do, rule by rule.
-/

namespace TpAdvanced

open CText

/-! ### The read buffer -/

/-- `read_buff_`: contents, capacity, and the generation of its storage. -/
structure ReadBuff where
  data : Bytes
  capacity : ℕ
  storage : ℕ
  size_le : data.length ≤ capacity
  deriving DecidableEq, Repr

/-- `initial_buffer_size`. -/
def initialBufferSize : ℕ := 1024

namespace ReadBuff

/-- The buffer of a new handler. -/
def initial (storage : ℕ) : ReadBuff where
  data := List.replicate initialBufferSize 0
  capacity := initialBufferSize
  storage := storage
  size_le := by simp

def size (b : ReadBuff) : ℕ := b.data.length

/-- The contents and the NUL behind them. -/
def bytes (b : ReadBuff) : Bytes := b.data ++ [0]

/-- The view of the first `n` bytes. -/
def view (b : ReadBuff) (n : ℕ) : StringView := ⟨b.storage, b.bytes.take n, b.bytes.drop n⟩

/-- The buffer after `read` has stored `d` at position `i`. -/
def store (b : ReadBuff) (i : ℕ) (d : Bytes) (h : i + d.length ≤ b.size) : ReadBuff where
  data := b.data.take i ++ d ++ b.data.drop (i + d.length)
  capacity := b.capacity
  storage := b.storage
  size_le := by
    have hle := b.size_le
    have hsize : b.size = b.data.length := rfl
    simp only [List.length_append, List.length_take, List.length_drop]
    omega

/-- `resize(n)`.  Beyond the capacity it moves to new storage, of at least twice
the capacity. -/
def resize (b : ReadBuff) (n : ℕ) : ReadBuff :=
  if h : n ≤ b.capacity then
    { b with
      data := b.data.take n ++ List.replicate (n - b.size) 0
      size_le := by
        have hsize : b.size = b.data.length := rfl
        simp only [List.length_append, List.length_take, List.length_replicate]
        omega }
  else
    { data := b.data.take n ++ List.replicate (n - b.size) 0
      capacity := max n (2 * b.capacity)
      storage := b.storage + 1
      size_le := by
        have hsize : b.size = b.data.length := rfl
        simp only [List.length_append, List.length_take, List.length_replicate]
        omega }

end ReadBuff

/-! ### `readRequest` -/

/-- The locals of `readRequest`, and the buffer. -/
structure Reading where
  parser : HttpRequestParser
  readIdx : ℕ
  buff : ReadBuff
  deriving DecidableEq, Repr

/-- What one pass of its loop gets. -/
inductive ReadResult
  /-- `read` stored these bytes. -/
  | data (d : Bytes)
  /-- EAGAIN, and whether the handler had timed out when it was resumed. -/
  | again (timedOut : Bool)
  /-- `read` returned 0. -/
  | eof
  /-- Any other error. -/
  | failed
  deriving DecidableEq, Repr

/-- What one pass leads to: another pass, the return value, or an exception. -/
inductive ReadOutcome
  | reading (r : Reading)
  | returned (request : Option HttpRequest) (buff : ReadBuff)
  | threw (e : Thrown) (buff : ReadBuff)
  deriving DecidableEq, Repr

namespace Reading

/-- The locals at the start of a call. -/
def start (buff : ReadBuff) : Reading := ⟨{}, 0, buff⟩

/-- The new bytes are stored and counted. -/
def fill (r : Reading) (d : Bytes) (h : r.readIdx + d.length ≤ r.buff.size) : Reading :=
  { r with readIdx := r.readIdx + d.length, buff := r.buff.store r.readIdx d h }

variable [StdHash]

/-- The rest of the loop behind the `read`: the parser is called, on one byte more
than has been read, and a full buffer is doubled. -/
def afterRead (r : Reading) : ReadOutcome :=
  match r.parser.parse (r.buff.view (r.readIdx + 1)) with
  | .error e => .threw e r.buff
  | .ok p =>
    if p.isDone then .returned (some (p.buildRequest r.buff.storage)) r.buff
    else if r.buff.size ≤ r.readIdx then
      .reading { r with parser := p, buff := r.buff.resize (2 * r.buff.size) }
    else .reading { r with parser := p }

/-- A pass of the loop.  `read` returns at most the room it was given. -/
def step (r : Reading) : ReadResult → Option ReadOutcome
  | .data d =>
    if h : d ≠ [] ∧ r.readIdx + d.length ≤ r.buff.size then some (r.fill d h.2).afterRead else none
  | .again true => some (.threw (.timeoutException "timeout readRequest") r.buff)
  | .again false => some r.afterRead
  | .eof => some (.returned none r.buff)
  | .failed => some (.threw (.readingException "reading failed ") r.buff)

end Reading

/-- `readRequest` as a machine. -/
def ReadOutcome.step [StdHash] (o : ReadOutcome) (x : ReadResult) : Option ReadOutcome :=
  match o with
  | .reading r => r.step x
  | _ => none

/-! ### `operator()` -/

/-- What `writeResponse` is called for: the callback's response, or the rejection
of a request that could not be parsed. -/
inductive Reply
  | response (shouldClose : Bool)
  | rejection
  deriving DecidableEq, Repr

/-- Where `operator()` stands. -/
inductive Frame
  /-- Not yet entered. -/
  | created
  /-- At the `read` in `readRequest`. -/
  | reading (parser : HttpRequestParser) (readIdx : ℕ)
  /-- Suspended in `readRequest`. -/
  | readYield (parser : HttpRequestParser) (readIdx : ℕ)
  /-- At the call of the callback. -/
  | calling (request : HttpRequest) (shouldClose : Bool)
  /-- At the `write` in `writeResponse`. -/
  | writing (reply : Reply) (written : ℕ)
  /-- Suspended in `writeResponse`. -/
  | writeYield (reply : Reply) (written : ℕ)
  | returned
  | threw (e : Thrown)
  deriving DecidableEq, Repr

/-- The answer `operator()` gets where it stands. -/
inductive HandlerEvent
  /-- The coroutine is resumed. -/
  | resumed
  /-- `read` stored these bytes. -/
  | read (d : Bytes)
  /-- `read` found nothing; the time is that of the suspension. -/
  | readAgain (now : ℤ)
  | readEof
  | readFailed
  /-- What the callback answered, with the request as it left it. -/
  | replied (answer : Except Thrown (HttpResponse × HttpRequest))
  /-- `write` took this many bytes. -/
  | wrote (n : ℕ)
  /-- `write` found no room; the time is that of the suspension. -/
  | writeAgain (now : ℤ)
  /-- ECONNRESET. -/
  | writeReset
  /-- Any other error, or nothing taken; `reason` is the text for `errno`. -/
  | writeFailed (reason : String)
  deriving DecidableEq

/-- The fields of a handler that its run uses. -/
structure ConnectionHandler where
  lastActivity : ℤ := 0
  timeout : Bool := false
  set : EventsSet
  readBuff : ReadBuff
  writeBuff : Bytes := []
  deriving DecidableEq, Repr

/-- The handler as constructed. -/
def ConnectionHandler.new (set : EventsSet) (storage : ℕ) : ConnectionHandler where
  set := set
  readBuff := .initial storage

/-- A handler and the place where its `operator()` stands. -/
structure HandlerState where
  handler : ConnectionHandler
  frame : Frame
  deriving DecidableEq, Repr

/-- `shouldCloseAfterResponse`. -/
def shouldCloseAfterResponse [StdHash] (req : HttpRequest) : Bool :=
  match req.version with
  | .http1_0 => req.getHeader (ascii "Connection") != some (ascii "Keep-Alive")
  | .http1_1 => req.getHeader (ascii "Connection") == some (ascii "close")

namespace ConnectionHandler

/-- From reading to writing. -/
def turnToWriting (h : ConnectionHandler) : ConnectionHandler :=
  { h with set := (h.set.sub .in_).add .out }

/-- From writing to reading. -/
def turnToReading (h : ConnectionHandler) : ConnectionHandler :=
  { h with set := (h.set.sub .out).add .in_ }

/-- `updateLastActivity`. -/
def updateLastActivity (h : ConnectionHandler) (now : ℤ) : ConnectionHandler :=
  { h with lastActivity := now }

/-- The next pass of the loop in `operator()`: `readRequest` is called. -/
def beginRead (h : ConnectionHandler) : HandlerState := ⟨h, .reading {} 0⟩

/-- `writeResponse` has returned. -/
def finishWrite (h : ConnectionHandler) : Reply → Bool → HandlerState
  | .response false, true => h.turnToReading.beginRead
  | .response true, true => ⟨h, .returned⟩
  | .response _, false => ⟨h, .returned⟩
  | .rejection, _ => ⟨h, .returned⟩

/-- The head of the loop in `writeResponse`. -/
def continueWrite (h : ConnectionHandler) (reply : Reply) (written : ℕ) : HandlerState :=
  if written = h.writeBuff.length then h.finishWrite reply true else ⟨h, .writing reply written⟩

/-- `writeResponse` is called. -/
def beginWrite (h : ConnectionHandler) (reply : Reply) (response : HttpResponse) : HandlerState :=
  continueWrite { h with writeBuff := response.dump } reply 0

/-- The catch blocks of `operator()`: a timeout ends the run, a request that does
not parse is answered with its status code, the rest passes through. -/
def catchThrown (h : ConnectionHandler) : Thrown → HandlerState
  | .timeoutException _ => ⟨h, .returned⟩
  | .parsingException _ code =>
    h.turnToWriting.beginWrite .rejection (HttpResponse.setStatusCode {} code)
  | e => ⟨h, .threw e⟩

/-- `writeResponse` throws; only the call inside the `try` has its exceptions
caught. -/
def throwInWrite (h : ConnectionHandler) : Reply → Thrown → HandlerState
  | .response _, e => h.catchThrown e
  | .rejection, e => ⟨h, .threw e⟩

/-- What `operator()` makes of the callback's response before it writes it. -/
def prepareResponse (shouldClose : Bool) (response : HttpResponse) (request : HttpRequest) :
    HttpResponse :=
  let response := response.setVersion request.version
  if !shouldClose && request.version == .http1_0 then
    response.addHeader (ascii "Connection") (ascii "keep-alive")
  else response

/-- `operator()` between the callback and `writeResponse`. -/
def afterCallback (h : ConnectionHandler) (shouldClose : Bool) (response : HttpResponse)
    (request : HttpRequest) : HandlerState :=
  h.turnToWriting.beginWrite (.response shouldClose) (prepareResponse shouldClose response request)

variable [StdHash]

/-- `operator()` takes up what a pass of `readRequest` leads to. -/
def afterReadRequest (h : ConnectionHandler) : ReadOutcome → HandlerState
  | .reading r => ⟨{ h with readBuff := r.buff }, .reading r.parser r.readIdx⟩
  | .returned none buff => ⟨{ h with readBuff := buff }, .returned⟩
  | .returned (some request) buff =>
    ⟨{ h with readBuff := buff }, .calling request (shouldCloseAfterResponse request)⟩
  | .threw e buff => catchThrown { h with readBuff := buff } e

end ConnectionHandler

namespace HandlerState

variable [StdHash]

/-- One pass of the loop in `readRequest`. -/
def readStep (h : ConnectionHandler) (parser : HttpRequestParser) (readIdx : ℕ) (x : ReadResult) :
    Option HandlerState :=
  (Reading.step ⟨parser, readIdx, h.readBuff⟩ x).map h.afterReadRequest

/-- **A step of `operator()`**, from one of its calls or suspensions to the next. -/
def step (s : HandlerState) (e : HandlerEvent) : Option HandlerState :=
  match s.frame, e with
  | .created, .resumed =>
    if s.handler.timeout then some ⟨s.handler, .returned⟩ else some s.handler.beginRead
  | .reading parser readIdx, .read d => readStep s.handler parser readIdx (.data d)
  | .reading parser readIdx, .readAgain now =>
    some ⟨s.handler.updateLastActivity now, .readYield parser readIdx⟩
  | .reading parser readIdx, .readEof => readStep s.handler parser readIdx .eof
  | .reading parser readIdx, .readFailed => readStep s.handler parser readIdx .failed
  | .readYield parser readIdx, .resumed =>
    readStep s.handler parser readIdx (.again s.handler.timeout)
  | .calling _ shouldClose, .replied (.ok (response, request)) =>
    some (s.handler.afterCallback shouldClose response request)
  | .calling _ _, .replied (.error e) => some (s.handler.catchThrown e)
  | .writing reply written, .wrote n =>
    if 0 < n ∧ written + n ≤ s.handler.writeBuff.length then
      some (s.handler.continueWrite reply (written + n))
    else none
  | .writing reply written, .writeAgain now =>
    some ⟨s.handler.updateLastActivity now, .writeYield reply written⟩
  | .writing reply _, .writeReset => some (s.handler.finishWrite reply false)
  | .writing reply _, .writeFailed reason =>
    some (s.handler.throwInWrite reply (.writingException ("writing failed " ++ reason)))
  | .writeYield reply written, .resumed =>
    if s.handler.timeout then
      some (s.handler.throwInWrite reply (.timeoutException "timeout writeResponse"))
    else some (s.handler.continueWrite reply written)
  | _, _ => none

/-! ### What a step can do -/

/-- **What a step can do**: where a handler `h` stands, what it gets there, and what it
comes to. -/
inductive Rule (h : ConnectionHandler) : Frame → HandlerEvent → HandlerState → Prop
  | expired (ht : h.timeout = true) : Rule h .created .resumed ⟨h, .returned⟩
  | entered (ht : h.timeout = false) : Rule h .created .resumed h.beginRead
  | read (parser : HttpRequestParser) (readIdx : ℕ) (d : Bytes) (s' : HandlerState)
      (hread : readStep h parser readIdx (.data d) = some s') :
      Rule h (.reading parser readIdx) (.read d) s'
  | readAgain (parser : HttpRequestParser) (readIdx : ℕ) (now : ℤ) :
      Rule h (.reading parser readIdx) (.readAgain now)
        ⟨h.updateLastActivity now, .readYield parser readIdx⟩
  | readEof (parser : HttpRequestParser) (readIdx : ℕ) (s' : HandlerState)
      (hread : readStep h parser readIdx .eof = some s') :
      Rule h (.reading parser readIdx) .readEof s'
  | readFailed (parser : HttpRequestParser) (readIdx : ℕ) (s' : HandlerState)
      (hread : readStep h parser readIdx .failed = some s') :
      Rule h (.reading parser readIdx) .readFailed s'
  | readResumed (parser : HttpRequestParser) (readIdx : ℕ) (s' : HandlerState)
      (hread : readStep h parser readIdx (.again h.timeout) = some s') :
      Rule h (.readYield parser readIdx) .resumed s'
  | replied (request : HttpRequest) (shouldClose : Bool) (response : HttpResponse)
      (request' : HttpRequest) :
      Rule h (.calling request shouldClose) (.replied (.ok (response, request')))
        (h.afterCallback shouldClose response request')
  | repliedThrow (request : HttpRequest) (shouldClose : Bool) (e : Thrown) :
      Rule h (.calling request shouldClose) (.replied (.error e)) (h.catchThrown e)
  | wrote (reply : Reply) (written n : ℕ) (hn : 0 < n ∧ written + n ≤ h.writeBuff.length) :
      Rule h (.writing reply written) (.wrote n) (h.continueWrite reply (written + n))
  | writeAgain (reply : Reply) (written : ℕ) (now : ℤ) :
      Rule h (.writing reply written) (.writeAgain now)
        ⟨h.updateLastActivity now, .writeYield reply written⟩
  | writeReset (reply : Reply) (written : ℕ) :
      Rule h (.writing reply written) .writeReset (h.finishWrite reply false)
  | writeFailed (reply : Reply) (written : ℕ) (reason : String) :
      Rule h (.writing reply written) (.writeFailed reason)
        (h.throwInWrite reply (.writingException ("writing failed " ++ reason)))
  | writeExpired (reply : Reply) (written : ℕ) (ht : h.timeout = true) :
      Rule h (.writeYield reply written) .resumed
        (h.throwInWrite reply (.timeoutException "timeout writeResponse"))
  | writeResumed (reply : Reply) (written : ℕ) (ht : h.timeout = false) :
      Rule h (.writeYield reply written) .resumed (h.continueWrite reply written)

theorem rule_of_step {h : ConnectionHandler} {f : Frame} {e : HandlerEvent} {s' : HandlerState}
    (hstep : step ⟨h, f⟩ e = some s') : Rule h f e s' := by
  cases f with
  | created =>
    cases e with
    | resumed =>
      simp only [step] at hstep
      split at hstep
      · rename_i ht
        cases hstep
        exact .expired ht
      · rename_i ht
        cases hstep
        exact .entered (Bool.eq_false_of_not_eq_true ht)
    | _ => cases hstep
  | reading parser readIdx =>
    cases e with
    | read d => exact .read parser readIdx d s' hstep
    | readAgain now =>
      cases hstep
      exact .readAgain parser readIdx now
    | readEof => exact .readEof parser readIdx s' hstep
    | readFailed => exact .readFailed parser readIdx s' hstep
    | _ => cases hstep
  | readYield parser readIdx =>
    cases e with
    | resumed => exact .readResumed parser readIdx s' hstep
    | _ => cases hstep
  | calling request shouldClose =>
    cases e with
    | replied answer =>
      cases answer with
      | ok reply =>
        cases hstep
        exact .replied request shouldClose reply.1 reply.2
      | error x =>
        cases hstep
        exact .repliedThrow request shouldClose x
    | _ => cases hstep
  | writing reply written =>
    cases e with
    | wrote n =>
      simp only [step] at hstep
      split at hstep
      · rename_i hn
        cases hstep
        exact .wrote reply written n hn
      · cases hstep
    | writeAgain now =>
      cases hstep
      exact .writeAgain reply written now
    | writeReset =>
      cases hstep
      exact .writeReset reply written
    | writeFailed reason =>
      cases hstep
      exact .writeFailed reply written reason
    | _ => cases hstep
  | writeYield reply written =>
    cases e with
    | resumed =>
      simp only [step] at hstep
      split at hstep
      · rename_i ht
        cases hstep
        exact .writeExpired reply written ht
      · rename_i ht
        cases hstep
        exact .writeResumed reply written (Bool.eq_false_of_not_eq_true ht)
    | _ => cases hstep
  | returned => cases e <;> cases hstep
  | threw x => cases e <;> cases hstep

end HandlerState

end TpAdvanced
