import TpAdvanced.Http.ParserProgress

/-!
# Requests as texts

`RequestText` is a request as a client writes it, in the format the parser reads:
a request line, at least one header line, a blank line and a body.  Its fields
carry the conditions under which the text can be taken apart again.  `render` is
the text, and `toRequest` the request a callback is to be given for it.

## Main definitions

* `HeaderField`, `QueryParameter`, `RequestText` — the parts of a request.
* `RequestText.render`, `RequestText.toRequest`.
* `RequestText.LengthAgrees` — the Content-Length header gives the body's length.
-/

namespace TpAdvanced

open CText

/-- A header line: a name, a colon, perhaps a space, and a value. -/
structure HeaderField where
  name : Bytes
  value : Bytes
  spaced : Bool
  name_clean : ∀ b ∈ name, b ≠ 58 ∧ b ≠ 13
  value_clean : 13 ∉ value
  value_head : value.head? ≠ some 32

/-- A parameter `name=value` of a query. -/
structure QueryParameter where
  name : Bytes
  value : Bytes
  name_clean : ∀ b ∈ name, b ≠ 38 ∧ b ≠ 61 ∧ b ≠ 32 ∧ b ≠ 13
  value_clean : ∀ b ∈ value, b ≠ 38 ∧ b ≠ 32 ∧ b ≠ 13

/-- A request as a client writes it. -/
structure RequestText where
  method : HttpMethod
  path : Bytes
  query : Option (List QueryParameter)
  version : HttpVersion
  headers : List HeaderField
  body : Bytes
  path_ne : path ≠ []
  path_clean : ∀ b ∈ path, b ≠ 63 ∧ b ≠ 32 ∧ b ≠ 13
  headers_ne : headers ≠ []
  body_lt : body.length < 2 ^ 64

/-- No body at all is short enough to be announced. -/
theorem length_nil_lt : ([] : Bytes).length < 2 ^ 64 := Nat.two_pow_pos 64

/-! ### The text -/

/-- The line, without its line end. -/
def HeaderField.text (h : HeaderField) : Bytes :=
  h.name ++ 58 :: ((if h.spaced then [32] else []) ++ h.value)

def HeaderField.pair (h : HeaderField) : Bytes × Bytes := (h.name, h.value)

def QueryParameter.text (q : QueryParameter) : Bytes := q.name ++ 61 :: q.value

def QueryParameter.pair (q : QueryParameter) : Bytes × Bytes := (q.name, q.value)

/-- The parameters, joined by `&`. -/
def joinParameters : List QueryParameter → Bytes
  | [] => []
  | [q] => q.text
  | q :: q' :: qs => q.text ++ 38 :: joinParameters (q' :: qs)

namespace RequestText

/-- The request target. -/
def target (r : RequestText) : Bytes := r.path ++ r.query.elim [] fun qs => 63 :: joinParameters qs

/-- The request line, without its line end. -/
def requestLine (r : RequestText) : Bytes :=
  r.method.text ++ 32 :: (r.target ++ 32 :: r.version.text)

/-- The header lines. -/
def headerBlock (r : RequestText) : Bytes := unlines (r.headers.map HeaderField.text)

/-- The text of the request. -/
def render (r : RequestText) : Bytes :=
  r.requestLine ++ crlf ++ (r.headerBlock ++ crlf ++ r.body)

variable [StdHash]

/-- The table of the header lines. -/
def headerTable (r : RequestText) : Headers := Headers.insertAll [] (r.headers.map HeaderField.pair)

/-- The request a callback is to be given. -/
def toRequest (r : RequestText) : HttpRequest where
  headers := r.headerTable
  queryParameters := Headers.insertAll [] ((r.query.getD []).map QueryParameter.pair)
  body := r.body
  path := some r.path
  version := r.version
  method := r.method

/-- The body is as long as the Content-Length header says, and empty without one. -/
def LengthAgrees (r : RequestText) : Prop :=
  match r.headerTable.find (ascii "Content-Length") with
  | none => r.body = []
  | some v => v = decimal r.body.length

instance (r : RequestText) : Decidable r.LengthAgrees :=
  match h : r.headerTable.find (ascii "Content-Length") with
  | none => decidable_of_iff (r.body = []) (by simp [LengthAgrees, h])
  | some v => decidable_of_iff (v = decimal r.body.length) (by simp [LengthAgrees, h])

end RequestText

/-! ### Where the parts end -/

theorem HeaderField.notMem_text (h : HeaderField) : 13 ∉ h.text := by
  have hname : 13 ∉ h.name := fun hmem => (h.name_clean 13 hmem).2 rfl
  cases hs : h.spaced <;> simp [HeaderField.text, hs, hname, h.value_clean]

theorem QueryParameter.notMem_text (q : QueryParameter) :
    38 ∉ q.text ∧ 32 ∉ q.text ∧ 13 ∉ q.text := by
  have hname : ∀ c : UInt8, c = 38 ∨ c = 32 ∨ c = 13 → c ∉ q.name := by
    rintro c hc hmem
    obtain ⟨h1, -, h2, h3⟩ := q.name_clean c hmem
    rcases hc with rfl | rfl | rfl <;> contradiction
  have hvalue : ∀ c : UInt8, c = 38 ∨ c = 32 ∨ c = 13 → c ∉ q.value := by
    rintro c hc hmem
    obtain ⟨h1, h2, h3⟩ := q.value_clean c hmem
    rcases hc with rfl | rfl | rfl <;> contradiction
  simp [QueryParameter.text, hname, hvalue]

theorem notMem_joinParameters (qs : List QueryParameter) :
    32 ∉ joinParameters qs ∧ 13 ∉ joinParameters qs := by
  induction qs with
  | nil => simp [joinParameters]
  | cons q qs ih =>
    cases qs with
    | nil => exact q.notMem_text.2
    | cons q' qs => simp [joinParameters, q.notMem_text.2, ih]

namespace RequestText

theorem notMem_target (r : RequestText) : 32 ∉ r.target ∧ 13 ∉ r.target := by
  have hpath : 32 ∉ r.path ∧ 13 ∉ r.path :=
    ⟨fun h => (r.path_clean 32 h).2.1 rfl, fun h => (r.path_clean 13 h).2.2 rfl⟩
  cases hq : r.query with
  | none => simp [target, hq, hpath]
  | some qs => simp [target, hq, hpath, notMem_joinParameters qs]

theorem notMem_requestLine (r : RequestText) : 13 ∉ r.requestLine := by
  have hmethod : (13 : UInt8) ∉ r.method.text := by cases r.method <;> decide
  have hversion : (13 : UInt8) ∉ r.version.text := by cases r.version <;> decide
  simp [requestLine, hmethod, hversion, r.notMem_target]

/-- The request line ends at the first CRLF. -/
theorem findSub_crlf_render (r : RequestText) :
    List.findSub crlf r.render = some r.requestLine.length :=
  findSub_crlf_append (List.findSub_eq_none_of_notMem r.notMem_requestLine) _

end RequestText

end TpAdvanced
