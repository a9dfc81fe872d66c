import TpAdvanced.Http.Protocol

/-!
# Responses

`HttpResponse` is filled by builder calls and printed by `dump`.  It keeps its
headers in the order they were added, and `setBody` adds a Content-Length header
of its own each time it is called.

## Main definitions

* `HttpResponse` — the fields, as value-initialised.
* `setVersion`, `setStatusCode`, `addHeader`, `addHeaders`, `setBody`, `dump`.
* `BuilderCall`, `HttpResponse.build` — the response a list of calls leaves.
-/

namespace TpAdvanced

open CText

/-- A response.  The defaults are those of `HttpResponse()`, which zeroes version
and code. -/
structure HttpResponse where
  version : HttpVersion := .http1_0
  code : HttpStatusCode := .other 0
  headers : List (Bytes × Bytes) := []
  body : Bytes := []
  deriving DecidableEq, Repr

/-- A header line without its line end. -/
def headerLine (h : Bytes × Bytes) : Bytes := h.1 ++ 58 :: h.2

namespace HttpResponse

def setVersion (r : HttpResponse) (version : HttpVersion) : HttpResponse :=
  { r with version := version }

def setStatusCode (r : HttpResponse) (code : HttpStatusCode) : HttpResponse :=
  { r with code := code }

def addHeader (r : HttpResponse) (key value : Bytes) : HttpResponse :=
  { r with headers := r.headers ++ [(key, value)] }

def addHeaders (r : HttpResponse) (headers : List (Bytes × Bytes)) : HttpResponse :=
  { r with headers := r.headers ++ headers }

def setBody (r : HttpResponse) (body : Bytes) : HttpResponse :=
  { r with body := body, headers := r.headers ++ [(ascii "Content-Length", decimal body.length)] }

/-- The status line without its line end. -/
def statusLine (r : HttpResponse) : Bytes :=
  r.version.text ++ [32] ++ decimal r.code.value.toNat ++ [32] ++ r.code.reasonPhraseOf

/-- `dump`. -/
def dump (r : HttpResponse) : Bytes :=
  r.statusLine ++ crlf ++ r.headers.flatMap (fun h => headerLine h ++ crlf) ++ crlf ++ r.body

end HttpResponse

/-! ### Builder calls -/

/-- A call on a response under construction. -/
inductive BuilderCall
  | setVersion (version : HttpVersion)
  | setStatusCode (code : HttpStatusCode)
  | addHeader (key value : Bytes)
  | addHeaders (headers : List (Bytes × Bytes))
  | setBody (body : Bytes)
  deriving DecidableEq, Repr

/-- What the call does. -/
def BuilderCall.apply (r : HttpResponse) : BuilderCall → HttpResponse
  | .setVersion version => r.setVersion version
  | .setStatusCode code => r.setStatusCode code
  | .addHeader key value => r.addHeader key value
  | .addHeaders headers => r.addHeaders headers
  | .setBody body => r.setBody body

/-- The response after the calls, in order. -/
def HttpResponse.build (calls : List BuilderCall) : HttpResponse :=
  calls.foldl BuilderCall.apply {}

end TpAdvanced
