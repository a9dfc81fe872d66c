import TpAdvanced.Http.Protocol
import TpAdvanced.Lib.StringView

/-!
# The request parser

`HttpRequestParser::parse` is called with longer and longer prefixes of one
message and restarts behind what it has consumed (`parsed_total_`).  It works in
three blocks, one for each unfinished state: the request line up to the first
CRLF, the header block up to the first CRLFCRLF, and the body.

The views `path_` and `body_` point into the message, so the parser keeps them as
views.  An early `return state_` of the source is a fall-through here: the block
behind it tests the state and does nothing.

## Main definitions

* `HttpRequestParser` — the fields.
* `parseStartLine`, `parseHeaders` — the two text parsers.
* `HttpRequestParser.parse`, `buildRequest`.
-/

namespace TpAdvanced

open CText

inductive HttpRequestState
  | readingRequestLine
  | readingHeaders
  | readingBody
  | done
  | error
  deriving DecidableEq, Repr

structure HttpRequestParser where
  bodyLength : ℕ := 0
  parsedTotal : ℕ := 0
  state : HttpRequestState := .readingRequestLine
  queryParameters : QueryParameters := []
  headers : Headers := []
  body : StringView := ⟨0, [], []⟩
  path : StringView := ⟨0, [], []⟩
  version : HttpVersion := .http1_0
  method : HttpMethod := .get
  deriving DecidableEq, Repr

/-- `substr`, whose range error is an exception. -/
def substr (v : StringView) (pos : ℕ) (n : Option ℕ) : Except Thrown StringView :=
  (v.substr pos n).elim (.error .outOfRange) .ok

/-- `remove_prefix`, undefined beyond the end of the view. -/
def removePrefix (v : StringView) (n : ℕ) : Except Thrown StringView :=
  (v.removePrefix n).elim (.error .undefined) .ok

/-- An unchecked read, undefined beyond the storage. -/
def readByte (b : Option UInt8) : Except Thrown UInt8 := b.elim (.error .undefined) .ok

/-- `std::stoull`. -/
def toLength (s : Bytes) : Except Thrown ℕ :=
  match stoull s with
  | .ok n => .ok n
  | .error .invalidArgument => .error .invalidArgument
  | .error .outOfRange => .error .outOfRange

/-! ### Views of a text in parts -/

/-- The part in front of position `n`. -/
theorem substr_front {v : StringView} {u t : Bytes} (hv : v.text = u ++ t) :
    ∃ w : StringView, substr v 0 (some u.length) = .ok w ∧ w.text = u ∧ w.storage = v.storage ∧
      w.after = t ++ v.after := by
  refine ⟨⟨v.storage, u, t ++ v.after⟩, ?_, rfl, rfl, rfl⟩
  rw [substr, StringView.substr_zero_some, hv, List.take_left, List.drop_left]
  rfl

/-- The part behind position `n`. -/
theorem substr_back {v : StringView} {u t : Bytes} (hv : v.text = u ++ t) :
    ∃ w : StringView, substr v u.length none = .ok w ∧ w.text = t ∧ w.storage = v.storage := by
  have hle : u.length ≤ v.size := by simp [StringView.size, hv]
  refine ⟨⟨v.storage, t, v.after⟩, ?_, rfl, rfl⟩
  rw [substr, StringView.substr_of_le hle, hv, List.drop_left]
  simp

theorem removePrefix_front {v : StringView} {u t : Bytes} (hv : v.text = u ++ t) {n : ℕ}
    (hn : n = u.length) : removePrefix v n = .ok { v with text := t } := by
  have hle : n ≤ v.size := by simp [StringView.size, hv, hn]
  rw [removePrefix, StringView.removePrefix_of_le hle, hv, hn, List.drop_left]
  rfl

section Parsing

variable [StdHash]

/-! ### The request line -/

/-- The loop of `parse_query_parameters`.  Every round removes a byte, so the
size of the query bounds the number of rounds; see `parseQueryParameters`. -/
def parseQueryParametersLoop : ℕ → QueryParameters → StringView → Except Thrown QueryParameters
  | 0, params, _ => .ok params
  | fuel + 1, params, query => do
    let paramEnd := (query.find [38]).getD query.size
    let param ← substr query 0 (some paramEnd)
    match param.find [61] with
    | none => throw (.parsingException "invalid query parameter" .badRequest)
    | some paramDelim =>
      let name ← substr param 0 (some paramDelim)
      let value ← substr param (paramDelim + 1) none
      let params := Headers.insert params name.text value.text
      if query.size = paramEnd then return params
      else do
        let query ← removePrefix query (paramEnd + 1)
        parseQueryParametersLoop fuel params query

namespace HttpRequestParser

/-- `parse_query_parameters`. -/
def parseQueryParameters (p : HttpRequestParser) (query : StringView) :
    Except Thrown HttpRequestParser := do
  let params ← parseQueryParametersLoop (query.size + 1) p.queryParameters query
  return { p with queryParameters := params }

/-- The first half of `parse_url`: the query, when text follows the `?`. -/
def parseQuery (p : HttpRequestParser) (message : StringView) (queryBegin : Option ℕ) :
    Except Thrown HttpRequestParser :=
  match queryBegin with
  | some q =>
    if q + 1 < message.size then do
      let query ← substr message (q + 1) none
      p.parseQueryParameters query
    else .ok p
  | none => .ok p

/-- `parse_url`. -/
def parseUrl (p : HttpRequestParser) (message : StringView) : Except Thrown HttpRequestParser := do
  let p ← p.parseQuery message (message.find [63])
  let path ← substr message 0 (message.find [63])
  if path.size = 0 then throw (.parsingException "invalid resource target" .badRequest)
  else return { p with path := path }

/-- `parse_path`, with the position behind the space. -/
def parsePath (p : HttpRequestParser) (message : StringView) :
    Except Thrown (HttpRequestParser × ℕ) :=
  match message.find [32] with
  | none => throw (.parsingException "expected space after resource target" .badRequest)
  | some pathEnd => do
    let target ← substr message 0 (some pathEnd)
    let p ← p.parseUrl target
    return (p, pathEnd + 1)

/-- `parse_version`. -/
def parseVersion (p : HttpRequestParser) (version : StringView) :
    Except Thrown HttpRequestParser :=
  if version.text = ascii "HTTP/1.1" then .ok { p with version := .http1_1 }
  else if version.text = ascii "HTTP/1.0" then .ok { p with version := .http1_0 }
  else throw (.parsingException "unsupported HTTP version" .httpVersionNotSupported)

/-- `parse_request_token`, with the position behind the space. -/
def parseRequestToken (p : HttpRequestParser) (message : StringView) :
    Except Thrown (HttpRequestParser × ℕ) :=
  match message.find [32] with
  | none => throw (.parsingException "expected single space after request token" .badRequest)
  | some afterToken =>
    if message.startsWith (ascii "GET") then .ok ({ p with method := .get }, afterToken + 1)
    else if message.startsWith (ascii "POST") then
      .ok ({ p with method := .post }, afterToken + 1)
    else if message.startsWith (ascii "DELETE") then
      .ok ({ p with method := .delete }, afterToken + 1)
    else if message.startsWith (ascii "PUT") then .ok ({ p with method := .put }, afterToken + 1)
    else throw (.parsingException "invalid request token" .badRequest)

/-- `parse_start_line`. -/
def parseStartLine (p : HttpRequestParser) (message : StringView) :
    Except Thrown HttpRequestParser := do
  let (p, tokenEnd) ← p.parseRequestToken message
  let message ← removePrefix message tokenEnd
  let (p, pathEnd) ← p.parsePath message
  let message ← removePrefix message pathEnd
  p.parseVersion message

/-! ### The header block -/

/-- `parse_header`.  The test for the optional space reads the byte behind the
colon without asking whether the line ends there. -/
def parseHeader (p : HttpRequestParser) (header : StringView) : Except Thrown HttpRequestParser :=
  match header.find [58] with
  | none => throw (.parsingException "invalid header" .badRequest)
  | some headerDelim =>
    if header.size ≤ headerDelim then throw (.parsingException "invalid header" .badRequest)
    else do
      let next ← readByte (header.read (headerDelim + 1))
      let last ← readByte header.back
      let valueBegin := if next = 32 then headerDelim + 2 else headerDelim + 1
      let headerEnd := if last = 32 then header.size - 1 else header.size
      let name ← substr header 0 (some headerDelim)
      let value ← substr header valueBegin (some headerEnd)
      return { p with headers := p.headers.insert name.text value.text }

/-- The loop of `parse_headers`.  Without a line end in sight `substr` takes all
there is and the sum of `npos` and 2 wraps to 1. -/
def parseHeadersLoop : ℕ → HttpRequestParser → StringView → Except Thrown HttpRequestParser
  | 0, p, _ => .ok p
  | fuel + 1, p, headers =>
    if headers.size = 0 then .ok p
    else do
      let headerLen := headers.find crlf
      let header ← substr headers 0 headerLen
      let p ← p.parseHeader header
      let headers ← removePrefix headers (headerLen.elim 1 (· + 2))
      parseHeadersLoop fuel p headers

/-- `parse_headers`. -/
def parseHeaders (p : HttpRequestParser) (headers : StringView) : Except Thrown HttpRequestParser :=
  parseHeadersLoop headers.size p headers

/-- A round of the loop at a line end: the line is parsed and cut off with its
CRLF. -/
theorem parseHeadersLoop_line (fuel : ℕ) (p : HttpRequestParser) {headers : StringView} {i : ℕ}
    (hi : headers.find crlf = some i) :
    parseHeadersLoop (fuel + 1) p headers =
      p.parseHeader ⟨headers.storage, headers.text.take i, headers.text.drop i ++ headers.after⟩ >>=
        fun p => parseHeadersLoop fuel p { headers with text := headers.text.drop (i + 2) } := by
  have hle : i + 2 ≤ headers.size := List.findSub_add_length_le hi
  rw [parseHeadersLoop, if_neg (by omega)]
  simp only [hi, substr, removePrefix, StringView.substr_zero_some, Option.elim_some,
    StringView.removePrefix_of_le hle]
  rfl

/-! ### The three blocks of `parse` -/

/-- The block for `READING_REQUEST_LINE`. -/
def parseRequestLineBlock (p : HttpRequestParser) (message : StringView) :
    Except Thrown (HttpRequestParser × StringView) :=
  if p.state = .readingRequestLine then
    match message.find crlf with
    | none => .ok (p, message)
    | some reqLineIdx => do
      let line ← substr message 0 (some reqLineIdx)
      let p ← p.parseStartLine line
      let message ← removePrefix message (reqLineIdx + 2)
      return ({ p with state := .readingHeaders, parsedTotal := reqLineIdx + 2 }, message)
  else .ok (p, message)

/-- What follows a complete header block: a body only for the methods that take
one and announce it. -/
def startBody (p : HttpRequestParser) (headersEnd : ℕ) (message : StringView) :
    Except Thrown (HttpRequestParser × StringView) :=
  if p.method = .get ∨ p.method = .delete then .ok ({ p with state := .done }, message)
  else
    match p.headers.find (ascii "Content-Length") with
    | none => .ok ({ p with state := .done }, message)
    | some contentLength => do
      let bodyLength ← toLength contentLength
      let message ← removePrefix message (headersEnd + 4)
      return ({ p with bodyLength := bodyLength, state := .readingBody,
                       parsedTotal := p.parsedTotal + (headersEnd + 4) }, message)

/-- The block for `READING_HEADERS`. -/
def parseHeadersBlock (p : HttpRequestParser) (message : StringView) :
    Except Thrown (HttpRequestParser × StringView) :=
  if p.state = .readingHeaders then
    match message.find crlfcrlf with
    | none => .ok (p, message)
    | some headersEnd => do
      let block ← substr message 0 (some (headersEnd + 2))
      let p ← p.parseHeaders block
      p.startBody headersEnd message
  else .ok (p, message)

/-- The block for `READING_BODY`. -/
def parseBodyBlock (p : HttpRequestParser) (message : StringView) :
    Except Thrown HttpRequestParser :=
  if p.state = .readingBody ∧ p.bodyLength ≤ message.size then do
    let body ← substr message 0 (some p.bodyLength)
    return { p with body := body, state := .done }
  else .ok p

/-- `parse`; the state it returns is the state of the parser it leaves. -/
def parse (p : HttpRequestParser) (message : StringView) : Except Thrown HttpRequestParser := do
  let message ← removePrefix message p.parsedTotal
  let (p, message) ← p.parseRequestLineBlock message
  let (p, message) ← p.parseHeadersBlock message
  p.parseBodyBlock message

/-- The parser has a complete request. -/
def isDone (p : HttpRequestParser) : Bool := decide (p.state = .done)

/-! ### Equations for the blocks -/

theorem parseRequestLineBlock_some {p : HttpRequestParser} (hp : p.state = .readingRequestLine)
    {message : StringView} {i : ℕ} (hi : message.find crlf = some i) :
    p.parseRequestLineBlock message =
      p.parseStartLine
          ⟨message.storage, message.text.take i, message.text.drop i ++ message.after⟩ >>=
        fun p => .ok ({ p with state := .readingHeaders, parsedTotal := i + 2 },
          { message with text := message.text.drop (i + 2) }) := by
  have hle : i + 2 ≤ message.size := List.findSub_add_length_le hi
  simp only [parseRequestLineBlock, if_pos hp, hi, substr, removePrefix,
    StringView.substr_zero_some, Option.elim_some, StringView.removePrefix_of_le hle]
  rfl

theorem parseRequestLineBlock_none {p : HttpRequestParser} {message : StringView}
    (hi : message.find crlf = none) : p.parseRequestLineBlock message = .ok (p, message) := by
  simp [parseRequestLineBlock, hi]

theorem parseRequestLineBlock_of_ne {p : HttpRequestParser} (hp : p.state ≠ .readingRequestLine)
    (message : StringView) : p.parseRequestLineBlock message = .ok (p, message) := by
  simp [parseRequestLineBlock, hp]

theorem parseHeadersBlock_some {p : HttpRequestParser} (hp : p.state = .readingHeaders)
    {message : StringView} {i : ℕ} (hi : message.find crlfcrlf = some i) :
    p.parseHeadersBlock message =
      p.parseHeaders ⟨message.storage, message.text.take (i + 2),
          message.text.drop (i + 2) ++ message.after⟩ >>=
        fun p => p.startBody i message := by
  simp only [parseHeadersBlock, if_pos hp, hi, substr, StringView.substr_zero_some,
    Option.elim_some]
  rfl

theorem parseHeadersBlock_none {p : HttpRequestParser} {message : StringView}
    (hi : message.find crlfcrlf = none) : p.parseHeadersBlock message = .ok (p, message) := by
  simp [parseHeadersBlock, hi]

theorem parseHeadersBlock_of_ne {p : HttpRequestParser} (hp : p.state ≠ .readingHeaders)
    (message : StringView) : p.parseHeadersBlock message = .ok (p, message) := by
  simp [parseHeadersBlock, hp]

omit [StdHash] in
theorem parseBodyBlock_some {p : HttpRequestParser} (hp : p.state = .readingBody)
    {message : StringView} (hlen : p.bodyLength ≤ message.size) :
    p.parseBodyBlock message = .ok { p with
      body := ⟨message.storage, message.text.take p.bodyLength,
        message.text.drop p.bodyLength ++ message.after⟩
      state := .done } := by
  simp only [parseBodyBlock, hp, hlen, and_self, if_true, substr, StringView.substr_zero_some,
    Option.elim_some]
  rfl

omit [StdHash] in
theorem parseBodyBlock_short {p : HttpRequestParser} {message : StringView}
    (hlen : message.size < p.bodyLength) : p.parseBodyBlock message = .ok p := by
  rw [parseBodyBlock, if_neg (by omega)]

omit [StdHash] in
theorem parseBodyBlock_of_ne {p : HttpRequestParser} (hp : p.state ≠ .readingBody)
    (message : StringView) : p.parseBodyBlock message = .ok p := by
  simp [parseBodyBlock, hp]

/-- A call restarts behind what has been consumed. -/
theorem parse_of_le {p : HttpRequestParser} {message : StringView}
    (h : p.parsedTotal ≤ message.size) :
    p.parse message =
      p.parseRequestLineBlock { message with text := message.text.drop p.parsedTotal } >>=
        fun a => a.1.parseHeadersBlock a.2 >>= fun b => b.1.parseBodyBlock b.2 := by
  simp only [parse, removePrefix, StringView.removePrefix_of_le h, Option.elim_some]
  rfl

/-- `buildRequest`, called while `storage` is the live storage: the copy of a view
into an older one has no defined contents. -/
def buildRequest (p : HttpRequestParser) (storage : ℕ) : HttpRequest where
  headers := p.headers
  queryParameters := p.queryParameters
  body := p.body.text
  path := if p.path.storage = storage then some p.path.text else none
  version := p.version
  method := p.method

end HttpRequestParser

end Parsing

end TpAdvanced
