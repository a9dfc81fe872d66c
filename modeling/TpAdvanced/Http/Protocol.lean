import TpAdvanced.Lib.Lines

/-!
# The vocabulary of the HTTP library

Versions, methods and status codes with the texts they print as, the
case-insensitive tables that hold headers and query parameters, the request a
parser builds, and what the library throws.

`Headers` and `QueryParameters` are `std::unordered_map`s under a hash and an
equality of their own.  A lookup finds an entry when the hashes agree and the
equality accepts, and `insert` keeps the entry that is there; `std::hash` itself
is a parameter, `StdHash`.

## Main definitions

* `HttpVersion`, `HttpMethod`, `HttpStatusCode`, `reasonPhraseOf`.
* `caseInsensitiveComparator`, `caseInsensitiveHash`, `Headers`.
* `HttpRequest`, `Thrown`.
-/

namespace TpAdvanced

open CText

/-! ### Versions, methods, status codes -/

inductive HttpVersion
  | http1_0
  | http1_1
  deriving DecidableEq, Repr, Inhabited

/-- How a version prints. -/
def HttpVersion.text : HttpVersion → Bytes
  | .http1_0 => ascii "HTTP/1.0"
  | .http1_1 => ascii "HTTP/1.1"

inductive HttpMethod
  | get
  | post
  | put
  | delete
  deriving DecidableEq, Repr, Inhabited

/-- How a method prints. -/
def HttpMethod.text : HttpMethod → Bytes
  | .get => ascii "GET"
  | .post => ascii "POST"
  | .put => ascii "PUT"
  | .delete => ascii "DELETE"

/-- The enumerators of `HttpStatusCode`, and the other values of its underlying
type, such as the zero of a value-initialised response. -/
inductive HttpStatusCode
  | continue_
  | switchingProtocols
  | ok
  | created
  | accepted
  | noContent
  | partialContent
  | multipleChoices
  | movedPermanently
  | found
  | seeOther
  | useProxy
  | temporaryRedirect
  | badRequest
  | unauthorized
  | paymentRequired
  | forbidden
  | notFound
  | methodNotAllowed
  | notAcceptable
  | proxyAuthenticationRequired
  | requestTimeout
  | conflict
  | gone
  | lengthRequired
  | preconditionFailed
  | requestEntityTooLarge
  | requestUriTooLarge
  | requestedRangeNotSatisfiable
  | expectationFailed
  | internalServerError
  | notImplemented
  | badGateway
  | serviceUnabailable
  | gatewayTimeout
  | httpVersionNotSupported
  /-- A value that names no enumerator. -/
  | other (value : UInt16)
  deriving DecidableEq, Repr

namespace HttpStatusCode

/-- The underlying `uint16_t`. -/
def value : HttpStatusCode → UInt16
  | continue_ => 100
  | switchingProtocols => 101
  | ok => 200
  | created => 201
  | accepted => 202
  | noContent => 204
  | partialContent => 206
  | multipleChoices => 300
  | movedPermanently => 301
  | found => 302
  | seeOther => 303
  | useProxy => 305
  | temporaryRedirect => 307
  | badRequest => 400
  | unauthorized => 401
  | paymentRequired => 402
  | forbidden => 403
  | notFound => 404
  | methodNotAllowed => 405
  | notAcceptable => 406
  | proxyAuthenticationRequired => 407
  | requestTimeout => 408
  | conflict => 409
  | gone => 410
  | lengthRequired => 411
  | preconditionFailed => 412
  | requestEntityTooLarge => 413
  | requestUriTooLarge => 414
  | requestedRangeNotSatisfiable => 416
  | expectationFailed => 417
  | internalServerError => 500
  | notImplemented => 501
  | badGateway => 502
  | serviceUnabailable => 503
  | gatewayTimeout => 504
  | httpVersionNotSupported => 505
  | other v => v

/-- `reason_phrase_of`. -/
def reasonPhraseOf : HttpStatusCode → Bytes
  | ok => ascii "OK"
  | badRequest => ascii "Bad Request"
  | notFound => ascii "Not Found"
  | internalServerError => ascii "Internal Server Error"
  | continue_ => ascii "Continue"
  | switchingProtocols => ascii "Switching Protocols"
  | created => ascii "Created"
  | accepted => ascii "Accepted"
  | noContent => ascii "No Content"
  | partialContent => ascii "Partial Content"
  | multipleChoices => ascii "Multiple Choices"
  | movedPermanently => ascii "Moved Permanently"
  | found => ascii "Found"
  | seeOther => ascii "See Other"
  | useProxy => ascii "User Proxy"
  | temporaryRedirect => ascii "Temporary Redirect"
  | unauthorized => ascii "Unauthorized"
  | paymentRequired => ascii "Payment Required"
  | forbidden => ascii "Forbidden"
  | methodNotAllowed => ascii "Method Not Allowed"
  | notAcceptable => ascii "Not Acceptable"
  | proxyAuthenticationRequired => ascii "Proxy Authentication Requried"
  | requestTimeout => ascii "Request Timeout"
  | conflict => ascii "Conflict"
  | gone => ascii "Gone"
  | lengthRequired => ascii "Length Required"
  | preconditionFailed => ascii "Precondition Failed"
  | requestEntityTooLarge => ascii "Request Entity Too Large"
  | requestUriTooLarge => ascii "Request URI Too Large"
  | requestedRangeNotSatisfiable => ascii "Requested Range Not Satisfiable"
  | expectationFailed => ascii "Expectation Failed"
  | notImplemented => ascii "Not Implemented"
  | badGateway => ascii "Bad Gateway"
  | serviceUnabailable => ascii "Service Unavailable"
  | gatewayTimeout => ascii "Gateway Time-Out"
  | httpVersionNotSupported => ascii "HTTP Version Not Supported"
  | other _ => []

end HttpStatusCode

/-! ### What is thrown -/

/-- The exceptions that travel through the library, and `undefined`, which is
none of them: it marks a call whose precondition does not hold, where the source
has undefined behaviour. -/
inductive Thrown
  | parsingException (message : String) (code : HttpStatusCode)
  | readingException (message : String)
  | writingException (message : String)
  | timeoutException (message : String)
  /-- `std::invalid_argument`. -/
  | invalidArgument
  /-- `std::out_of_range`. -/
  | outOfRange
  /-- Any other `std::exception`. -/
  | stdException (message : String)
  | undefined
  deriving DecidableEq, Repr

/-! ### Case-insensitive tables -/

/-- `std::hash<std::string>`, which the library uses and does not define. -/
class StdHash where
  /-- The hash of a string. -/
  hash : Bytes → ℕ

/-- A hash to evaluate the tables with. -/
@[reducible] def polynomialHash : StdHash := ⟨fun s => s.foldl (fun h b => 31 * h + b.toNat) 7⟩

/-- `CaseInsensitiveComparator`: equality of the two C strings. -/
def caseInsensitiveComparator (left right : Bytes) : Bool := strcasecmpEq left right

/-- `CaseInsensitiveHash`: the hash of the whole lower-cased string, cut to an
`int`. -/
def caseInsensitiveHash [StdHash] (s : Bytes) : BitVec 32 :=
  BitVec.ofNat 32 (StdHash.hash (s.map tolower))

/-- The entries of a case-insensitive `std::unordered_map`. -/
abbrev Headers := List (Bytes × Bytes)

/-- The query parameters are kept in a table of the same kind. -/
abbrev QueryParameters := List (Bytes × Bytes)

section Tables

variable [StdHash]

/-- Whether a lookup of `q` stops at an entry stored under `k`. -/
def sameKey (k q : Bytes) : Bool :=
  caseInsensitiveHash k == caseInsensitiveHash q && caseInsensitiveComparator k q

/-- `find(q)`, giving the mapped value. -/
def Headers.find (h : Headers) (q : Bytes) : Option Bytes :=
  (List.find? (fun e => sameKey e.1 q) h).map Prod.snd

/-- `insert({k, v})`, which leaves an entry with that key alone. -/
def Headers.insert (h : Headers) (k v : Bytes) : Headers :=
  if (h.find k).isSome then h else h ++ [(k, v)]

/-- The table after inserting the pairs one after another. -/
def Headers.insertAll (h : Headers) (ps : List (Bytes × Bytes)) : Headers :=
  ps.foldl (fun m p => m.insert p.1 p.2) h

@[simp] theorem Headers.insertAll_nil (h : Headers) : h.insertAll [] = h := rfl

@[simp] theorem Headers.insertAll_cons (h : Headers) (p : Bytes × Bytes)
    (ps : List (Bytes × Bytes)) :
    h.insertAll (p :: ps) = (h.insert p.1 p.2).insertAll ps := rfl

end Tables

/-! ### Requests -/

/-- A request.  Its strings are copies: `path` is `none` when the view it was
copied from no longer referred to live storage, and its bytes are then
whatever the memory held. -/
structure HttpRequest where
  headers : Headers
  queryParameters : QueryParameters
  body : Bytes
  path : Option Bytes
  version : HttpVersion
  method : HttpMethod
  deriving DecidableEq, Repr

namespace HttpRequest

variable [StdHash]

/-- `getHeader`. -/
def getHeader (r : HttpRequest) (headerName : Bytes) : Option Bytes := r.headers.find headerName

/-- `getQueryParameter`. -/
def getQueryParameter (r : HttpRequest) (paramName : Bytes) : Option Bytes :=
  Headers.find r.queryParameters paramName

end HttpRequest

end TpAdvanced
