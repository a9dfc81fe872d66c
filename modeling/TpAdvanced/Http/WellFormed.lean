import TpAdvanced.Http.HeaderTable
import TpAdvanced.Http.RoundTrip

/-!
# Well-formed requests and their components

`WellFormedRequest` is a request with any number of header lines, none included,
whose names differ by more than the case of their letters.  A POST or a PUT sends
the length of its body, the other methods have none.

A text without header lines has its request line and its blank line end at one
CRLF each, and the parser, which has cut off the first of them, waits for two in a
row.  The query goes into a table that does not tell capitals from small letters
and keeps the first entry under a name.

## Main definitions

* `WellFormedRequest`, `WellFormedRequest.text`.
* `WellFormedRequest.ComesBack` — parsing the text gives exactly the components.

## Main results

* `WellFormedRequest.comesBack_iff` — **when the components come back.**
-/

namespace TpAdvanced

open CText Outcome

/-- A request given by its components. -/
structure WellFormedRequest where
  method : HttpMethod
  path : Bytes
  query : Option (List QueryParameter)
  version : HttpVersion
  headers : List HeaderField
  body : Bytes
  path_ne : path ≠ []
  path_clean : ∀ b ∈ path, b ≠ 63 ∧ b ≠ 32 ∧ b ≠ 13
  names_clean : ∀ h ∈ headers, 0 ∉ h.name
  names_distinct : headers.Pairwise fun h k => h.name.map tolower ≠ k.name.map tolower
  length_sent : method = .post ∨ method = .put →
    ∃ h ∈ headers, h.name.map tolower = ascii "content-length" ∧ h.value = decimal body.length
  body_absent : method = .get ∨ method = .delete → body = []
  body_lt : body.length < 2 ^ 64

namespace WellFormedRequest

/-- Request line, header lines, blank line, body. -/
def text (r : WellFormedRequest) : Bytes :=
  r.method.text ++ 32 ::
      (r.path ++ (r.query.elim [] fun qs => 63 :: joinParameters qs) ++ 32 :: r.version.text) ++
    crlf ++ (unlines (r.headers.map HeaderField.text) ++ crlf ++ r.body)

/-- A request with the same components, but for the header lines. -/
def withHeaders (r : WellFormedRequest) (hs : List HeaderField) (hne : hs ≠ []) : RequestText where
  method := r.method
  path := r.path
  query := r.query
  version := r.version
  headers := hs
  body := r.body
  path_ne := r.path_ne
  path_clean := r.path_clean
  headers_ne := hne
  body_lt := r.body_lt

theorem render_withHeaders (r : WellFormedRequest) (hne : r.headers ≠ []) :
    (r.withHeaders r.headers hne).render = r.text := rfl

end WellFormedRequest

variable [StdHash]

/-- A fresh parser is done with the text, and the request it builds has exactly the
components.  The two tables are unordered. -/
def WellFormedRequest.ComesBack (r : WellFormedRequest) : Prop :=
  ∃ p, HttpRequestParser.parse {} ⟨0, r.text, []⟩ = .ok p ∧ p.state = .done ∧
    (p.buildRequest 0).method = r.method ∧ (p.buildRequest 0).path = some r.path ∧
    (p.buildRequest 0).version = r.version ∧ (p.buildRequest 0).body = r.body ∧
    (p.buildRequest 0).headers.Perm (r.headers.map HeaderField.pair) ∧
    (p.buildRequest 0).queryParameters.Perm ((r.query.getD []).map QueryParameter.pair)

namespace WellFormedRequest

/-! ### With header lines -/

theorem headers_distinct (r : WellFormedRequest) :
    (r.headers.map HeaderField.pair).Pairwise fun p q => ¬ sameKey p.1 q.1 := by
  rw [List.pairwise_map]
  refine r.names_distinct.imp_of_mem ?_
  intro h k hh hk hne hsame
  exact hne ((sameKey_iff (r.names_clean h hh) (r.names_clean k hk)).mp hsame)

/-- The Content-Length a POST or a PUT is found to have is the one it sends. -/
theorem lengthAgrees (r : WellFormedRequest) (hne : r.headers ≠ [])
    (hmethod : ¬ (r.method = .get ∨ r.method = .delete)) :
    (r.withHeaders r.headers hne).LengthAgrees := by
  have hpost : r.method = .post ∨ r.method = .put := by
    cases hm : r.method <;> simp [hm] at hmethod ⊢
  obtain ⟨h, hh, hname, hvalue⟩ := r.length_sent hpost
  have hclean : (0 : UInt8) ∉ ascii "Content-Length" := by decide
  have hlower : ascii "content-length" = (ascii "Content-Length").map tolower := by decide
  have htable : (r.withHeaders r.headers hne).headerTable = r.headers.map HeaderField.pair :=
    Headers.insertAll_of_pairwise _ [] r.headers_distinct
  have hsome :
      ((r.withHeaders r.headers hne).headerTable.find (ascii "Content-Length")).isSome := by
    rw [htable, Headers.isSome_find]
    refine ⟨h.pair, List.mem_map_of_mem hh, ?_⟩
    exact (sameKey_iff (r.names_clean h hh) hclean).mpr (hname.trans hlower)
  obtain ⟨v, hv⟩ := Option.isSome_iff_exists.mp hsome
  have hfound := hv
  rw [htable, Headers.find, Option.map_eq_some_iff] at hfound
  obtain ⟨e, hfind, hev⟩ := hfound
  obtain ⟨k, hk, rfl⟩ := List.mem_map.mp (List.mem_of_find?_eq_some hfind)
  have hsame : sameKey k.name (ascii "Content-Length") = true := by
    have := List.find?_some hfind
    exact this
  have hkname : k.name.map tolower = h.name.map tolower := by
    rw [(sameKey_iff (r.names_clean k hk) hclean).mp hsame, hname, hlower]
  -- names differ, so the entry found is the header line sent
  have hkh : k = h := by
    have hsymm : Std.Symm fun h k : HeaderField => h.name.map tolower ≠ k.name.map tolower :=
      ⟨fun _ _ h => h.symm⟩
    by_contra hkh
    exact r.names_distinct.forall hk hh hkh hkname
  rw [RequestText.LengthAgrees, hv, ← hev, hkh]
  exact hvalue

theorem comesBack_of_ne_nil (r : WellFormedRequest) (hne : r.headers ≠ []) :
    r.ComesBack ↔ (r.query.getD []).Pairwise fun p q => ¬ sameKey p.name q.name := by
  obtain ⟨p, hp, hdone, hbuild⟩ := @HttpRequestParser.parse_render _ (r.withHeaders r.headers hne)
    (r.lengthAgrees hne) r.body_absent
  rw [render_withHeaders] at hp
  have hquery := insertAll_perm_iff ((r.query.getD []).map QueryParameter.pair)
  rw [List.pairwise_map] at hquery
  constructor
  · rintro ⟨q, hq, -, -, -, -, -, -, hperm⟩
    cases hp.symm.trans hq
    rw [hbuild] at hperm
    exact hquery.mp hperm
  · intro hdistinct
    refine ⟨p, hp, by simpa [HttpRequestParser.isDone] using hdone, ?_⟩
    rw [hbuild]
    exact ⟨rfl, rfl, rfl, rfl, (insertAll_perm_iff _).mpr r.headers_distinct, hquery.mpr hdistinct⟩

/-! ### Without -/

/-- **Without header lines the parser is not done**: behind the request line a single
CRLF is left. -/
theorem not_comesBack_of_nil (r : WellFormedRequest) (hnil : r.headers = []) : ¬ r.ComesBack := by
  have hbody : r.body = [] := by
    refine r.body_absent ?_
    cases hm : r.method with
    | get => exact .inl rfl
    | delete => exact .inr rfl
    | post =>
      obtain ⟨h, hh, -⟩ := r.length_sent (.inl hm)
      simp [hnil] at hh
    | put =>
      obtain ⟨h, hh, -⟩ := r.length_sent (.inr hm)
      simp [hnil] at hh
  -- any request with this request line will do
  let host : HeaderField := ⟨[], [], false, by simp, by simp, by simp⟩
  let t : RequestText := r.withHeaders [host] (List.cons_ne_nil _ _)
  have htext : r.text = t.requestLine ++ crlf ++ crlf := by
    rw [text, hnil, hbody, List.map_nil, unlines_nil, List.nil_append, List.append_nil]
    rfl
  let m : StringView := ⟨0, r.text, []⟩
  have hline : m.find crlf = some t.requestLine.length := by
    rw [StringView.find, show m.text = r.text from rfl, htext]
    exact findSub_crlf_append (List.findSub_eq_none_of_notMem t.notMem_requestLine) _
  have htake : m.text.take t.requestLine.length = t.requestLine := by
    rw [show m.text = r.text from rfl, htext, List.append_assoc, List.take_left]
  have hdrop : m.text.drop (t.requestLine.length + 2) = crlf := by
    rw [show m.text = r.text from rfl, htext, List.drop_left' (by simp [crlf])]
  obtain ⟨path, -, hstart⟩ := @HttpRequestParser.parseStartLine_render _ {} t
    ⟨0, m.text.take t.requestLine.length, m.text.drop t.requestLine.length ++ []⟩ htake
  have hblank : StringView.find ⟨0, crlf, []⟩ crlfcrlf = none := by decide
  have hparse := HttpRequestParser.parse_fresh_some hline
  rw [hstart, ok_bind, hdrop, HttpRequestParser.parseRest,
    HttpRequestParser.parseHeadersBlock_none hblank, ok_bind,
    HttpRequestParser.parseBodyBlock_of_ne HttpRequestState.noConfusion] at hparse
  rintro ⟨p, hp, hdone, -⟩
  cases hparse.symm.trans hp
  cases hdone

/-! ### The condition -/

/-- **The components of a request come back** exactly if it has a header line and the
table of its query takes no two of the parameters' names for the same. -/
theorem comesBack_iff (r : WellFormedRequest) :
    r.ComesBack ↔ r.headers ≠ [] ∧
      (r.query.getD []).Pairwise fun p q => ¬ sameKey p.name q.name := by
  by_cases hne : r.headers = []
  · exact ⟨fun h => absurd h (r.not_comesBack_of_nil hne), fun h => absurd hne h.1⟩
  · rw [r.comesBack_of_ne_nil hne]
    exact ⟨fun h => ⟨hne, h⟩, fun h => h.2⟩

/-- `GET / HTTP/1.1` and no header. -/
def bareGet : WellFormedRequest where
  method := .get
  path := ascii "/"
  query := none
  version := .http1_1
  headers := []
  body := []
  path_ne := by decide
  path_clean := by simp [ascii]
  names_clean := by simp
  names_distinct := List.Pairwise.nil
  length_sent := by simp
  body_absent := fun _ => rfl
  body_lt := length_nil_lt

omit [StdHash] in
/-- A request without header lines is never done. -/
theorem bareGet_not_done : letI := polynomialHash
    ¬ bareGet.ComesBack := by
  let _ := polynomialHash
  exact bareGet.not_comesBack_of_nil rfl

end WellFormedRequest

end TpAdvanced
