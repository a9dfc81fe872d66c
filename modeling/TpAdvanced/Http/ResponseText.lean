import TpAdvanced.Http.Framing

/-!
# Reading a response back

`dump` prints a status line, a line for each header, an empty line and the body.  A
reader that cuts the text at these places gets back what was put in, however many
headers there are and whatever the body holds: a status line and a header line are
never empty, and a name without a colon ends at the first one.

## Main definitions

* `ResponseParts`, `HttpResponse.parts` — what a response says.
* `readResponse` — what a reader makes of a text.

## Main results

* `readResponse_dump` — a response is read back from its text.
* `readResponse_build` — **so are all that builder calls leave**, and equal texts come
  from equal responses.
-/

namespace TpAdvanced

open CText

/-- Version, status code, headers in their order, and body. -/
structure ResponseParts where
  version : HttpVersion
  code : ℕ
  headers : List (Bytes × Bytes)
  body : Bytes
  deriving DecidableEq, Repr

def HttpResponse.parts (r : HttpResponse) : ResponseParts :=
  ⟨r.version, r.code.value.toNat, r.headers, r.body⟩

/-- The version that prints like this. -/
def HttpVersion.ofText (s : Bytes) : Option HttpVersion :=
  if s = HttpVersion.text .http1_0 then some .http1_0
  else if s = HttpVersion.text .http1_1 then some .http1_1
  else none

/-- The version and the code of a status line. -/
def readStatusLine (line : Bytes) : Option (HttpVersion × ℕ) :=
  let (version, rest) := List.cutAt 32 line
  (HttpVersion.ofText version).map fun v => (v, digitsValue (List.cutAt 32 rest).1)

/-- The status line up to the first CRLF, lines cut at their first colon up to the first
empty line, and the rest. -/
def readResponse (s : Bytes) : Option ResponseParts :=
  match readHead s with
  | some (status :: lines, body) =>
    (readStatusLine status).map fun x => ⟨x.1, x.2, lines.map (List.cutAt 58), body⟩
  | _ => none

/-- The names that are added have no colon, and no text that is added has a CRLF. -/
def ReadableHeaders (calls : List BuilderCall) : Prop :=
  ∀ call ∈ calls, ∀ h ∈ call.addedHeaders, 58 ∉ h.1 ∧ IsLine h.1 ∧ IsLine h.2

instance (calls : List BuilderCall) : Decidable (ReadableHeaders calls) :=
  inferInstanceAs (Decidable (∀ call ∈ calls, ∀ h ∈ call.addedHeaders, _))

theorem HttpVersion.ofText_text (v : HttpVersion) : ofText v.text = some v := by
  cases v <;> decide

theorem readStatusLine_statusLine (r : HttpResponse) :
    readStatusLine r.statusLine = some (r.version, r.code.value.toNat) := by
  have hversion : (32 : UInt8) ∉ r.version.text := by cases r.version <;> decide
  have hcode : (32 : UInt8) ∉ decimal r.code.value.toNat := fun hmem =>
    absurd (all_isDigit_decimal _ _ hmem) (by decide)
  have hline : r.statusLine =
      r.version.text ++ 32 :: (decimal r.code.value.toNat ++ 32 :: r.code.reasonPhraseOf) := by
    simp [HttpResponse.statusLine]
  rw [hline, readStatusLine, List.cutAt_append_cons hversion]
  simp only [HttpVersion.ofText_text, List.cutAt_append_cons hcode, Option.map_some,
    digitsValue_decimal]

/-- **A response is read back from its text.** -/
theorem readResponse_dump {r : HttpResponse}
    (h : ∀ e ∈ r.headers, 58 ∉ e.1 ∧ IsLine e.1 ∧ IsLine e.2) :
    readResponse r.dump = some r.parts := by
  have hwire : wireLines r.headers = r.headers.map headerLine :=
    wireLines_of_clean fun e he => (h e he).2
  have hdump : r.dump = unlines (r.statusLine :: r.headers.map headerLine) ++ crlf ++ r.body := by
    rw [unlines_cons, ← hwire, unlines_wireLines]
    rfl
  have hlines : ∀ l ∈ r.statusLine :: r.headers.map headerLine, IsLine l := by
    intro l hl
    rcases List.mem_cons.mp hl with rfl | hl
    · exact isLine_statusLine r
    · rw [← hwire] at hl
      exact isLine_of_mem_wireLines hl
  have hne : ∀ l ∈ r.statusLine :: r.headers.map headerLine, l ≠ [] := by
    intro l hl
    rcases List.mem_cons.mp hl with rfl | hl
    · exact statusLine_ne_nil r
    · obtain ⟨e, -, rfl⟩ := List.mem_map.mp hl
      exact headerLine_ne_nil e
  obtain ⟨htake, hbehind⟩ := behindBlank_of_ne hne r.body
  have hcut : (r.headers.map headerLine).map (List.cutAt 58) = r.headers := by
    rw [List.map_map]
    refine (List.map_congr_left fun e he => ?_).trans (List.map_id _)
    exact List.cutAt_append_cons (h e he).1 e.2
  rw [readResponse, hdump, readHead_unlines hlines, htake, hbehind]
  simp only [readStatusLine_statusLine, hcut, Option.map_some]
  rfl

/-- The headers of a response that calls build, in the order of the calls. -/
theorem headers_build (calls : List BuilderCall) :
    (HttpResponse.build calls).headers = calls.flatMap BuilderCall.headers :=
  ((foldl_apply calls {}).1).trans (List.nil_append _)

/-- The header `setBody` adds is readable as well. -/
theorem readable_of_mem_headers {calls : List BuilderCall} (hcalls : ReadableHeaders calls) :
    ∀ e ∈ calls.flatMap BuilderCall.headers, 58 ∉ e.1 ∧ IsLine e.1 ∧ IsLine e.2 := by
  have hclean : CleanHeaders calls := fun call hcall h hh => (hcalls call hcall h hh).2
  intro e he
  refine ⟨?_, isLine_of_mem_headers hclean e he⟩
  obtain ⟨call, hcall, he⟩ := List.mem_flatMap.mp he
  rcases List.mem_append.mp he with he | he
  · exact (hcalls call hcall e he).1
  · obtain ⟨body, -, rfl⟩ := Option.mem_map.mp (Option.mem_toList.mp he)
    exact show (58 : UInt8) ∉ ascii "Content-Length" by decide

/-- **What builder calls leave is read back from its text**, with the headers in the order of
the calls, and no other response has the same text. -/
theorem readResponse_build {calls : List BuilderCall} (hcalls : ReadableHeaders calls) :
    readResponse (HttpResponse.build calls).dump = some (HttpResponse.build calls).parts ∧
      (HttpResponse.build calls).parts.headers = calls.flatMap BuilderCall.headers ∧
      ∀ calls', ReadableHeaders calls' →
        (HttpResponse.build calls').dump = (HttpResponse.build calls).dump →
        (HttpResponse.build calls').parts = (HttpResponse.build calls).parts := by
  have hread : ∀ calls, ReadableHeaders calls →
      readResponse (HttpResponse.build calls).dump = some (HttpResponse.build calls).parts := by
    intro calls hcalls
    refine readResponse_dump fun e he => ?_
    rw [headers_build] at he
    exact readable_of_mem_headers hcalls e he
  refine ⟨hread calls hcalls, headers_build calls, fun calls' hcalls' hdump => ?_⟩
  have hsame := hread calls' hcalls'
  rw [hdump, hread calls hcalls] at hsame
  exact (Option.some.inj hsame).symm

/-- An empty name, an empty value, a colon in a value and a body that starts with an empty
line. -/
theorem readResponse_build_awkward :
    readResponse (HttpResponse.build [.setStatusCode .notFound,
        .addHeaders [([], [58]), (ascii "a", []), (ascii "a", [])],
        .setBody [13, 10, 13, 10]]).dump =
      some ⟨.http1_0, 404, [([], [58]), (ascii "a", []), (ascii "a", []),
        (ascii "Content-Length", [52])], [13, 10, 13, 10]⟩ := by
  have hcalls : ReadableHeaders [.setStatusCode .notFound,
      .addHeaders [([], [58]), (ascii "a", []), (ascii "a", [])],
      .setBody [13, 10, 13, 10]] := by
    decide +kernel
  rw [(readResponse_build hcalls).1]
  decide +kernel

end TpAdvanced
