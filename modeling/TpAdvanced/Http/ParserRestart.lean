import TpAdvanced.Http.Parser
import TpAdvanced.Lib.Outcome

/-!
# Restarting the parser

A message arrives in pieces and `parse` is called with each longer prefix.  This
file proves that the pieces do not matter: the parser is a `Resumable` consumer,
ordered by the prefixes of the message text, up to the storage its views point
into (`SameContents`).

The argument follows the three blocks of `parse`.  An occurrence of CRLF or
CRLFCRLF in a prefix is the first occurrence in every longer message, so a block
that has been passed would be passed in the same way again; and the bytes the
parser has consumed are those in front of the position it restarts from.

## Main results

* `parse_agree` — `parse` depends on the text of its message only.
* `sat_parse` — no precondition of a string view is violated.
* `resumable_parse` — **the parser may be interrupted anywhere.**
* `parse_chain` — a chain of calls and one call on the whole message agree.
-/

namespace TpAdvanced

open CText Outcome

/-! ### Text, and parsers with the same contents -/

/-- Views of the same text, into whatever storage. -/
def SameText (v w : StringView) : Prop := v.text = w.text

/-- Parsers that agree in everything but the storage their views point into. -/
structure SameContents (p q : HttpRequestParser) : Prop where
  bodyLength : p.bodyLength = q.bodyLength
  parsedTotal : p.parsedTotal = q.parsedTotal
  state : p.state = q.state
  queryParameters : p.queryParameters = q.queryParameters
  headers : p.headers = q.headers
  body : SameText p.body q.body
  path : SameText p.path q.path
  version : p.version = q.version
  method : p.method = q.method

theorem sameContents_equivalence : Equivalence SameContents where
  refl _ := ⟨rfl, rfl, rfl, rfl, rfl, rfl, rfl, rfl, rfl⟩
  symm h := ⟨h.1.symm, h.2.symm, h.3.symm, h.4.symm, h.5.symm, Eq.symm h.6, Eq.symm h.7,
    h.8.symm, h.9.symm⟩
  trans h h' := ⟨h.1.trans h'.1, h.2.trans h'.2, h.3.trans h'.3, h.4.trans h'.4,
    h.5.trans h'.5, Eq.trans h.6 h'.6, Eq.trans h.7 h'.7, h.8.trans h'.8, h.9.trans h'.9⟩

theorem SameText.size {v w : StringView} (h : SameText v w) : v.size = w.size :=
  congrArg List.length h

theorem SameText.find {v w : StringView} (h : SameText v w) (pat : Bytes) :
    v.find pat = w.find pat := congrArg (List.findSub pat) h

theorem agree_substr {v w : StringView} (h : SameText v w) (pos : ℕ) (n : Option ℕ) :
    Agree SameText (substr v pos n) (substr w pos n) := by
  unfold substr StringView.substr
  rw [h.size, show v.text = w.text from h]
  split
  · exact .ok rfl
  · exact .error _

theorem agree_removePrefix {v w : StringView} (h : SameText v w) (n : ℕ) :
    Agree SameText (removePrefix v n) (removePrefix w n) := by
  unfold removePrefix StringView.removePrefix
  rw [h.size, show v.text = w.text from h]
  split
  · exact .ok rfl
  · exact .error _

variable [StdHash]

/-! ### The request line depends on its text -/

theorem agree_parseQueryParametersLoop (fuel : ℕ) :
    ∀ (params : QueryParameters) {v w : StringView}, SameText v w →
      Agree Eq (parseQueryParametersLoop fuel params v)
        (parseQueryParametersLoop fuel params w) := by
  induction fuel with
  | zero => intro params v w _; exact .ok rfl
  | succ fuel ih =>
    intro params v w h
    unfold parseQueryParametersLoop
    rw [h.find, h.size]
    refine (agree_substr h _ _).bind fun param param' hparam => ?_
    rw [hparam.find]
    cases param'.find [61] with
    | none => exact .error _
    | some paramDelim =>
      refine (agree_substr hparam _ _).bind fun name name' hname => ?_
      refine (agree_substr hparam _ _).bind fun value value' hvalue => ?_
      rw [show name.text = name'.text from hname, show value.text = value'.text from hvalue]
      dsimp only
      split
      · exact .ok rfl
      · exact (agree_removePrefix h _).bind fun _ _ hrest => ih _ hrest

namespace HttpRequestParser

theorem agree_parseQueryParameters {p q : HttpRequestParser} (h : SameContents p q)
    {v w : StringView} (hv : SameText v w) :
    Agree SameContents (p.parseQueryParameters v) (q.parseQueryParameters w) := by
  unfold parseQueryParameters
  rw [h.queryParameters, hv.size]
  refine (agree_parseQueryParametersLoop _ _ hv).bind fun params params' hparams => ?_
  exact .ok { h with queryParameters := hparams }

theorem agree_parseQuery {p q : HttpRequestParser} (h : SameContents p q) {v w : StringView}
    (hv : SameText v w) (queryBegin : Option ℕ) :
    Agree SameContents (p.parseQuery v queryBegin) (q.parseQuery w queryBegin) := by
  unfold parseQuery
  rw [hv.size]
  cases queryBegin with
  | none => exact .ok h
  | some queryBegin =>
    dsimp only
    split
    · exact (agree_substr hv _ _).bind fun _ _ hquery => agree_parseQueryParameters h hquery
    · exact .ok h

theorem agree_parseUrl {p q : HttpRequestParser} (h : SameContents p q) {v w : StringView}
    (hv : SameText v w) : Agree SameContents (p.parseUrl v) (q.parseUrl w) := by
  unfold parseUrl
  rw [hv.find]
  refine (agree_parseQuery h hv _).bind fun p q h => ?_
  refine (agree_substr hv _ _).bind fun path path' hpath => ?_
  rw [hpath.size]
  split
  · exact .error _
  · exact .ok { h with path := hpath }

/-- Agreement of a parser together with a position. -/
theorem agree_parsePath {p q : HttpRequestParser} (h : SameContents p q) {v w : StringView}
    (hv : SameText v w) :
    Agree (fun a b => SameContents a.1 b.1 ∧ a.2 = b.2) (p.parsePath v) (q.parsePath w) := by
  unfold parsePath
  rw [hv.find]
  cases w.find [32] with
  | none => exact .error _
  | some pathEnd =>
    refine (agree_substr hv _ _).bind fun _ _ htarget => ?_
    exact (agree_parseUrl h htarget).bind fun _ _ h' => .ok ⟨h', rfl⟩

omit [StdHash] in
theorem agree_parseVersion {p q : HttpRequestParser} (h : SameContents p q) {v w : StringView}
    (hv : SameText v w) : Agree SameContents (p.parseVersion v) (q.parseVersion w) := by
  unfold parseVersion
  rw [show v.text = w.text from hv]
  split
  · exact .ok { h with version := rfl }
  · split
    · exact .ok { h with version := rfl }
    · exact .error _

omit [StdHash] in
theorem agree_parseRequestToken {p q : HttpRequestParser} (h : SameContents p q)
    {v w : StringView} (hv : SameText v w) :
    Agree (fun a b => SameContents a.1 b.1 ∧ a.2 = b.2)
      (p.parseRequestToken v) (q.parseRequestToken w) := by
  unfold parseRequestToken StringView.startsWith
  rw [hv.find, show v.text = w.text from hv]
  cases w.find [32] with
  | none => exact .error _
  | some afterToken =>
    dsimp only
    split_ifs
    · exact .ok ⟨{ h with method := rfl }, rfl⟩
    · exact .ok ⟨{ h with method := rfl }, rfl⟩
    · exact .ok ⟨{ h with method := rfl }, rfl⟩
    · exact .ok ⟨{ h with method := rfl }, rfl⟩
    · exact .error _

theorem agree_parseStartLine {p q : HttpRequestParser} (h : SameContents p q) {v w : StringView}
    (hv : SameText v w) : Agree SameContents (p.parseStartLine v) (q.parseStartLine w) := by
  unfold parseStartLine
  refine (agree_parseRequestToken h hv).bind fun a b hab => ?_
  obtain ⟨a, tokenEnd⟩ := a
  obtain ⟨b, tokenEnd'⟩ := b
  obtain ⟨hab, rfl⟩ := hab
  refine (agree_removePrefix hv _).bind fun v w hv => ?_
  refine (agree_parsePath hab hv).bind fun a b hab => ?_
  obtain ⟨a, pathEnd⟩ := a
  obtain ⟨b, pathEnd'⟩ := b
  obtain ⟨hab, rfl⟩ := hab
  exact (agree_removePrefix hv _).bind fun v w hv => agree_parseVersion hab hv

end HttpRequestParser

/-! ### The header block depends on its text

The read behind a line that ends with its colon falls on the line's own CR, as
long as the block ends with CRLF. -/

/-- A block of whole lines. -/
def CrlfEnded (s : Bytes) : Prop := s = [] ∨ crlf <:+ s

omit [StdHash] in
/-- A nonempty block of whole lines has a line end. -/
theorem CrlfEnded.exists_findSub {s : Bytes} (h : CrlfEnded s) (hne : s ≠ []) :
    ∃ i, List.findSub crlf s = some i := by
  obtain ⟨u, rfl⟩ := h.resolve_left hne
  have hocc : crlf <+: (u ++ crlf).drop u.length := by simp
  obtain ⟨i, -, hi⟩ := List.exists_findSub_of_prefix_drop (by simp) hocc
  exact ⟨i, hi⟩

omit [StdHash] in
/-- What follows the first line is a block of whole lines again. -/
theorem CrlfEnded.drop_line {s : Bytes} (h : CrlfEnded s) {i : ℕ}
    (hi : List.findSub crlf s = some i) : CrlfEnded (s.drop (i + 2)) := by
  have hlen := List.findSub_add_length_le hi
  have hp := List.prefix_drop_of_findSub hi
  rcases h with rfl | ⟨u, rfl⟩
  · simp [List.findSub, crlf] at hi
  · simp only [crlf, List.length_append, List.length_cons, List.length_nil] at hlen
    rcases Nat.lt_or_ge (i + 1) u.length with hlt | hge
    · refine Or.inr ⟨u.drop (i + 2), ?_⟩
      rw [List.drop_append_of_le_length (by omega)]
    · rcases Nat.eq_or_lt_of_le hge with heq | hgt
      · -- the text left of the CRLF at the end would be the LF of an earlier one
        rw [List.drop_append_of_le_length (by omega)] at hp
        obtain ⟨c, hc⟩ : ∃ c, u.drop i = [c] := List.length_eq_one_iff.mp (by simp; omega)
        rw [hc] at hp
        simp [crlf] at hp
      · left
        simp [crlf]
        omega

omit [StdHash] in
/-- Reads up to the end of a view see its text and the byte behind it. -/
theorem read_congr {v w : StringView} (h : SameText v w) (hafter : v.after.head? = w.after.head?)
    {i : ℕ} (hi : i ≤ v.size) : v.read i = w.read i := by
  have htext : v.text = w.text := h
  unfold StringView.read
  rcases Nat.lt_or_eq_of_le hi with hlt | heq
  · rw [List.getElem?_append_left hlt, htext, List.getElem?_append_left (htext ▸ hlt)]
  · have hv : i = v.text.length := heq
    rw [List.getElem?_append_right hv.ge, List.getElem?_append_right (by rw [← htext]; exact hv.ge),
      ← htext, hv, Nat.sub_self, ← List.head?_eq_getElem?, ← List.head?_eq_getElem?, hafter]

namespace HttpRequestParser

theorem agree_parseHeader {p q : HttpRequestParser} (h : SameContents p q) {v w : StringView}
    (hv : SameText v w) (hafter : v.after.head? = w.after.head?) :
    Agree SameContents (p.parseHeader v) (q.parseHeader w) := by
  unfold parseHeader
  rw [hv.find, hv.size]
  cases hd : w.find [58] with
  | none => exact .error _
  | some headerDelim =>
    have hlt : headerDelim + 1 ≤ v.size := by
      rw [hv.size]
      exact List.findSub_add_length_le hd
    dsimp only
    split
    · exact .error _
    · have hback : v.back = w.back := congrArg List.getLast? hv
      rw [read_congr hv hafter hlt, hback]
      refine (Agree.refl (R := Eq) (fun _ => rfl) _).bind fun next next' hnext => ?_
      subst hnext
      refine (Agree.refl (R := Eq) (fun _ => rfl) _).bind fun last last' hlast => ?_
      subst hlast
      refine (agree_substr hv _ _).bind fun name name' hname => ?_
      refine (agree_substr hv _ _).bind fun value value' hvalue => ?_
      rw [show name.text = name'.text from hname, show value.text = value'.text from hvalue,
        h.headers]
      exact .ok { h with headers := rfl }

theorem agree_parseHeadersLoop (fuel : ℕ) :
    ∀ {p q : HttpRequestParser}, SameContents p q → ∀ {v w : StringView}, SameText v w →
      CrlfEnded v.text →
        Agree SameContents (parseHeadersLoop fuel p v) (parseHeadersLoop fuel q w) := by
  induction fuel with
  | zero => intro p q h v w _ _; exact .ok h
  | succ fuel ih =>
    intro p q h v w hv hend
    by_cases hvne : v.text = []
    · have hwne : w.text = [] := (show v.text = w.text from hv).symm.trans hvne
      rw [parseHeadersLoop, parseHeadersLoop, if_pos (by simp [StringView.size, hvne]),
        if_pos (by simp [StringView.size, hwne])]
      exact .ok h
    · obtain ⟨i, hi⟩ := hend.exists_findSub hvne
      have hwi : w.find crlf = some i := by rw [← hv.find]; exact hi
      have htext : v.text = w.text := hv
      -- the byte behind the line is the CR that ends it
      have hcr : ∀ after : Bytes, (v.text.drop i ++ after).head? = some 13 := by
        intro after
        obtain ⟨t, ht⟩ := List.prefix_drop_of_findSub hi
        rw [← ht]
        rfl
      rw [parseHeadersLoop_line fuel p hi, parseHeadersLoop_line fuel q hwi]
      refine Agree.bind (agree_parseHeader h ?_ ?_) fun p q h => ih h ?_ ?_
      · exact congrArg (List.take i) htext
      · rw [← htext, hcr, hcr]
      · exact congrArg (List.drop (i + 2)) htext
      · exact hend.drop_line hi

theorem agree_parseHeaders {p q : HttpRequestParser} (h : SameContents p q) {v w : StringView}
    (hv : SameText v w) (hend : CrlfEnded v.text) :
    Agree SameContents (p.parseHeaders v) (q.parseHeaders w) := by
  unfold parseHeaders
  rw [hv.size]
  exact agree_parseHeadersLoop _ h hv hend

/-! ### The blocks of `parse` depend on their text -/

omit [StdHash] in
/-- The header block in front of a blank line is a block of whole lines. -/
theorem crlfEnded_take {s : Bytes} {i : ℕ} (hi : List.findSub crlfcrlf s = some i) :
    CrlfEnded (s.take (i + 2)) := by
  obtain ⟨t, ht⟩ := List.prefix_drop_of_findSub hi
  refine Or.inr ⟨s.take i, ?_⟩
  rw [List.take_add, ← ht]
  rfl

/-- What the blocks hand on: a parser and the rest of the message. -/
def SameProgress (a b : HttpRequestParser × StringView) : Prop :=
  SameContents a.1 b.1 ∧ SameText a.2 b.2

theorem agree_parseRequestLineBlock {p q : HttpRequestParser} (h : SameContents p q)
    {v w : StringView} (hv : SameText v w) :
    Agree SameProgress (p.parseRequestLineBlock v) (q.parseRequestLineBlock w) := by
  unfold parseRequestLineBlock
  rw [h.state, hv.find]
  split
  · cases w.find crlf with
    | none => exact .ok ⟨h, hv⟩
    | some reqLineIdx =>
      refine (agree_substr hv _ _).bind fun _ _ hline => ?_
      refine (agree_parseStartLine h hline).bind fun p q h => ?_
      refine (agree_removePrefix hv _).bind fun _ _ hrest => ?_
      exact .ok ⟨{ h with state := rfl, parsedTotal := rfl }, hrest⟩
  · exact .ok ⟨h, hv⟩

theorem agree_startBody {p q : HttpRequestParser} (h : SameContents p q) (headersEnd : ℕ)
    {v w : StringView} (hv : SameText v w) :
    Agree SameProgress (p.startBody headersEnd v) (q.startBody headersEnd w) := by
  unfold startBody
  rw [h.method, h.headers]
  split
  · exact .ok ⟨{ h with state := rfl, headers := rfl, method := rfl }, hv⟩
  · cases Headers.find q.headers (ascii "Content-Length") with
    | none => exact .ok ⟨{ h with state := rfl, headers := rfl, method := rfl }, hv⟩
    | some contentLength =>
      refine (Agree.refl (R := Eq) (fun _ => rfl) (toLength contentLength)).bind fun n n' hn => ?_
      subst hn
      refine (agree_removePrefix hv _).bind fun _ _ hrest => ?_
      rw [h.parsedTotal]
      exact .ok ⟨{ h with bodyLength := rfl, state := rfl, parsedTotal := rfl, headers := rfl,
                          method := rfl }, hrest⟩

theorem agree_parseHeadersBlock {p q : HttpRequestParser} (h : SameContents p q)
    {v w : StringView} (hv : SameText v w) :
    Agree SameProgress (p.parseHeadersBlock v) (q.parseHeadersBlock w) := by
  by_cases hp : p.state = .readingHeaders
  · have hq : q.state = .readingHeaders := h.state ▸ hp
    cases hf : v.find crlfcrlf with
    | none =>
      rw [parseHeadersBlock_none hf, parseHeadersBlock_none (by rw [← hv.find, hf])]
      exact .ok ⟨h, hv⟩
    | some headersEnd =>
      rw [parseHeadersBlock_some hp hf, parseHeadersBlock_some hq (by rw [← hv.find, hf])]
      refine Agree.bind (agree_parseHeaders h ?_ (crlfEnded_take hf))
        fun p q h => agree_startBody h headersEnd hv
      exact congrArg (List.take (headersEnd + 2)) hv
  · rw [parseHeadersBlock_of_ne hp, parseHeadersBlock_of_ne (h.state ▸ hp)]
    exact .ok ⟨h, hv⟩

omit [StdHash] in
theorem agree_parseBodyBlock {p q : HttpRequestParser} (h : SameContents p q) {v w : StringView}
    (hv : SameText v w) : Agree SameContents (p.parseBodyBlock v) (q.parseBodyBlock w) := by
  unfold parseBodyBlock
  rw [h.state, h.bodyLength, hv.size]
  split
  · refine (agree_substr hv _ _).bind fun _ _ hbody => ?_
    exact .ok { h with body := hbody, state := rfl, bodyLength := rfl }
  · exact .ok h

/-- **`parse` depends on the text of its message only.** -/
theorem parse_agree {p q : HttpRequestParser} (h : SameContents p q) {v w : StringView}
    (hv : SameText v w) : Agree SameContents (p.parse v) (q.parse w) := by
  unfold parse
  rw [h.parsedTotal]
  refine (agree_removePrefix hv _).bind fun v w hv => ?_
  refine (agree_parseRequestLineBlock h hv).bind fun a b hab => ?_
  refine (agree_parseHeadersBlock hab.1 hab.2).bind fun a b hab => ?_
  exact agree_parseBodyBlock hab.1 hab.2

/-! ### Growing messages -/

/-- What `parse` does behind the request line. -/
def parseRest (p : HttpRequestParser) (message : StringView) : Except Thrown HttpRequestParser :=
  p.parseHeadersBlock message >>= fun b => b.1.parseBodyBlock b.2

theorem parse_eq_parseRest {p : HttpRequestParser} {message : StringView}
    (hp : p.state ≠ .readingRequestLine) (h : p.parsedTotal ≤ message.size) :
    p.parse message = p.parseRest { message with text := message.text.drop p.parsedTotal } := by
  rw [parse_of_le h, parseRequestLineBlock_of_ne hp]
  rfl

theorem agree_parseRest {p q : HttpRequestParser} (h : SameContents p q) {v w : StringView}
    (hv : SameText v w) : Agree SameContents (p.parseRest v) (q.parseRest w) :=
  (agree_parseHeadersBlock h hv).bind fun _ _ hab => agree_parseBodyBlock hab.1 hab.2

/-- A fresh parser that meets no CRLF is left as it was. -/
theorem parse_fresh_none {m : StringView} (hm : m.find crlf = none) :
    parse {} m = .ok {} := by
  rw [parse_of_le (Nat.zero_le _), List.drop_zero, parseRequestLineBlock_none hm]
  rfl

/-- A fresh parser that meets a CRLF parses the request line and goes on. -/
theorem parse_fresh_some {m : StringView} {i : ℕ} (hi : m.find crlf = some i) :
    parse {} m =
      parseStartLine {} ⟨m.storage, m.text.take i, m.text.drop i ++ m.after⟩ >>= fun p =>
        parseRest { p with state := .readingHeaders, parsedTotal := i + 2 }
          { m with text := m.text.drop (i + 2) } := by
  rw [parse_of_le (Nat.zero_le _), List.drop_zero, parseRequestLineBlock_some rfl hi]
  cases parseStartLine {} ⟨m.storage, m.text.take i, m.text.drop i ++ m.after⟩ <;> rfl

omit [StdHash] in
/-- The same bytes are cut off a text and a longer one. -/
theorem take_eq_take_of_le {s s' : Bytes} (hle : s <+: s') {n : ℕ} (hn : n ≤ s.length) :
    s.take n = s'.take n := by
  obtain ⟨t, rfl⟩ := hle
  rw [List.take_append_of_le_length hn]

/-- Parsing headers fills the table and does nothing else. -/
theorem parseHeader_frame (p : HttpRequestParser) (v : StringView) :
    Sat (fun _ => True) (fun r => ∃ hs, r = { p with headers := hs }) (p.parseHeader v) := by
  unfold parseHeader
  cases v.find [58] with
  | none => trivial
  | some d =>
    dsimp only
    split
    · trivial
    · refine (Sat.any _).bind fun next _ => (Sat.any _).bind fun last _ => ?_
      exact (Sat.any _).bind fun name _ => (Sat.any _).bind fun value _ => ⟨_, rfl⟩

theorem parseHeadersLoop_frame (fuel : ℕ) : ∀ (p : HttpRequestParser) (v : StringView),
    Sat (fun _ => True) (fun r => ∃ hs, r = { p with headers := hs })
      (parseHeadersLoop fuel p v) := by
  induction fuel with
  | zero => intro p v; exact ⟨p.headers, rfl⟩
  | succ fuel ih =>
    intro p v
    unfold parseHeadersLoop
    split
    · exact ⟨p.headers, rfl⟩
    · refine (Sat.any _).bind fun line _ => (parseHeader_frame p line).bind fun p' hp' => ?_
      obtain ⟨hs, rfl⟩ := hp'
      refine (Sat.any _).bind fun rest _ => (ih _ rest).mono fun r hr => ?_
      obtain ⟨hs', rfl⟩ := hr
      exact ⟨hs', rfl⟩

theorem parsedTotal_parseHeaders {p r : HttpRequestParser} {v : StringView}
    (h : p.parseHeaders v = .ok r) : r.parsedTotal = p.parsedTotal := by
  have hframe := parseHeadersLoop_frame v.size p v
  rw [show parseHeadersLoop v.size p v = .ok r from h] at hframe
  obtain ⟨hs, rfl⟩ := hframe
  rfl

/-- Announcing the body, on a message and on a longer one: either the request is
complete, or the head is cut off both. -/
theorem startBody_grow {p q : HttpRequestParser} (h : SameContents p q) {m m' : StringView}
    (hle : m.text <+: m'.text) {i : ℕ} (hi : i + 4 ≤ m.size) :
    Agree (fun a b => SameContents a.1 b.1 ∧
        (a.1.state = .done ∨ a.1.state = .readingBody ∧ a.1.parsedTotal = p.parsedTotal + (i + 4) ∧
          a.2.text = m.text.drop (i + 4) ∧ b.2.text = m'.text.drop (i + 4)))
      (p.startBody i m) (q.startBody i m') := by
  have hi' : i + 4 ≤ m'.size := hi.trans hle.length_le
  unfold startBody
  rw [h.method, h.headers]
  split
  · exact .ok ⟨{ h with state := rfl, headers := rfl, method := rfl }, .inl rfl⟩
  · cases Headers.find q.headers (ascii "Content-Length") with
    | none => exact .ok ⟨{ h with state := rfl, headers := rfl, method := rfl }, .inl rfl⟩
    | some contentLength =>
      refine (Agree.refl (R := Eq) (fun _ => rfl) (toLength contentLength)).bind fun n n' hn => ?_
      subst hn
      simp only [removePrefix, StringView.removePrefix_of_le hi, StringView.removePrefix_of_le hi',
        h.parsedTotal]
      exact .ok ⟨{ h with bodyLength := rfl, state := rfl, parsedTotal := rfl, headers := rfl,
                          method := rfl }, .inr ⟨rfl, rfl, rfl, rfl⟩⟩

/-- **Behind the request line**, a longer message changes nothing that is settled,
and the rest of it can be given to the parser the shorter one left. -/
theorem parseRest_grow {p q : HttpRequestParser} (h : SameContents p q)
    (hp : p.state = .readingHeaders) (m m' : StringView) (hle : m.text <+: m'.text) :
    (Settled isDone (p.parseRest m) ∧ Agree SameContents (p.parseRest m) (q.parseRest m')) ∨
      ∃ r k, p.parseRest m = .ok r ∧ (r.state = .readingHeaders ∨ r.state = .readingBody) ∧
        r.parsedTotal = p.parsedTotal + k ∧ k ≤ m.size ∧
        Agree SameContents (r.parseRest { m' with text := m'.text.drop k }) (q.parseRest m') := by
  have hq : q.state = .readingHeaders := h.state ▸ hp
  cases hi : m.find crlfcrlf with
  | none =>
    refine .inr ⟨p, 0, ?_, .inl hp, rfl, Nat.zero_le _, agree_parseRest h rfl⟩
    rw [parseRest, parseHeadersBlock_none hi]
    exact parseBodyBlock_of_ne (by simp [hp]) m
  | some i =>
    have hi' : m'.find crlfcrlf = some i := List.findSub_of_prefix hle hi
    have hlen : i + 4 ≤ m.size := List.findSub_add_length_le hi
    -- the same header block, so the same headers or the same exception
    have hhead : Agree SameContents
        (p.parseHeaders ⟨m.storage, m.text.take (i + 2), m.text.drop (i + 2) ++ m.after⟩)
        (q.parseHeaders ⟨m'.storage, m'.text.take (i + 2), m'.text.drop (i + 2) ++ m'.after⟩) :=
      agree_parseHeaders h (take_eq_take_of_le hle (by have : m.size = m.text.length := rfl; omega))
        (crlfEnded_take hi)
    rw [parseRest, parseRest, parseHeadersBlock_some hp hi, parseHeadersBlock_some hq hi']
    generalize hx : p.parseHeaders _ = x at hhead ⊢
    generalize q.parseHeaders _ = y at hhead ⊢
    cases hhead with
    | error e => exact .inl ⟨trivial, .error e⟩
    | @ok p₁ q₁ h₁ =>
      have hbody := startBody_grow h₁ hle hlen
      simp only [ok_bind]
      generalize p₁.startBody i m = a at hbody ⊢
      generalize q₁.startBody i m' = b at hbody ⊢
      cases hbody with
      | error e => exact .inl ⟨trivial, .error e⟩
      | @ok a b hab =>
        obtain ⟨hab, hdone | ⟨hstate, htotal, ha, hb⟩⟩ := hab
        · have hdone' : b.1.state = .done := hab.state ▸ hdone
          simp only [ok_bind]
          rw [parseBodyBlock_of_ne (by simp [hdone]), parseBodyBlock_of_ne (by simp [hdone'])]
          exact .inl ⟨by simp [Settled, isDone, hdone], .ok hab⟩
        · have hstate' : b.1.state = .readingBody := hab.state ▸ hstate
          have hle₂ : a.2.text <+: b.2.text := by
            rw [ha, hb]
            exact hle.drop (i + 4)
          simp only [ok_bind]
          rcases Nat.lt_or_ge a.2.size a.1.bodyLength with hshort | hfull
          · -- the body is incomplete: nothing happens, and the longer message is taken up here
            refine .inr ⟨a.1, i + 4, parseBodyBlock_short hshort, .inr hstate, ?_, hlen, ?_⟩
            · rw [htotal, parsedTotal_parseHeaders hx]
            · rw [parseRest, parseHeadersBlock_of_ne (by simp [hstate])]
              exact agree_parseBodyBlock hab hb.symm
          · have hfull' : b.1.bodyLength ≤ b.2.size := by
              rw [← hab.bodyLength]
              exact hfull.trans hle₂.length_le
            rw [parseBodyBlock_some hstate hfull, parseBodyBlock_some hstate' hfull']
            refine .inl ⟨by simp [Settled, isDone], .ok { hab with body := ?_, state := rfl }⟩
            rw [← hab.bodyLength]
            exact take_eq_take_of_le hle₂ hfull

/-- **A longer message changes nothing that is settled**, and what is not can be
taken up where the shorter one left it. -/
theorem parse_grow {m m' : StringView} (hle : m.text <+: m'.text) :
    (Settled isDone (parse {} m) ∧ Agree SameContents (parse {} m) (parse {} m')) ∨
      ∃ p, parse {} m = .ok p ∧ isDone p = false ∧ p.parsedTotal ≤ m.size ∧
        Agree SameContents (p.parse m') (parse {} m') := by
  cases hi : m.find crlf with
  | none =>
    -- without a line end nothing is parsed: the next call starts from the beginning
    refine .inr ⟨{}, parse_fresh_none hi, rfl, Nat.zero_le _, ?_⟩
    exact .refl sameContents_equivalence.refl _
  | some i =>
    -- the request line ends at the same place in the longer text
    have hi' : m'.find crlf = some i := List.findSub_of_prefix hle hi
    have hlen : i + 2 ≤ m.text.length := List.findSub_add_length_le hi
    have hline : Agree SameContents
        (parseStartLine {} ⟨m.storage, m.text.take i, m.text.drop i ++ m.after⟩)
        (parseStartLine {} ⟨m'.storage, m'.text.take i, m'.text.drop i ++ m'.after⟩) :=
      agree_parseStartLine (sameContents_equivalence.refl {})
        (take_eq_take_of_le hle (by omega))
    rw [parse_fresh_some hi, parse_fresh_some hi']
    generalize parseStartLine {} _ = x at hline ⊢
    generalize parseStartLine {} _ = y at hline ⊢
    cases hline with
    | error e => exact .inl ⟨trivial, .error e⟩
    | @ok p q h =>
      let p₁ : HttpRequestParser := { p with state := .readingHeaders, parsedTotal := i + 2 }
      have h₁ : SameContents p₁ { q with state := .readingHeaders, parsedTotal := i + 2 } :=
        { h with state := rfl, parsedTotal := rfl }
      have hle₁ : m.text.drop (i + 2) <+: m'.text.drop (i + 2) := hle.drop (i + 2)
      rcases parseRest_grow h₁ rfl { m with text := m.text.drop (i + 2) }
          { m' with text := m'.text.drop (i + 2) } hle₁ with hset | hgo
      · exact .inl hset
      · obtain ⟨r, k, hr, hstate, htotal, hk, hagree⟩ := hgo
        have hr' : r.parsedTotal = i + 2 + k := htotal
        have hk' : k ≤ m.text.length - (i + 2) := by simpa [StringView.size] using hk
        have hrle : r.parsedTotal ≤ m.size := by
          rw [hr']
          change i + 2 + k ≤ m.text.length
          omega
        refine .inr ⟨r, hr, ?_, hrle, ?_⟩
        · rcases hstate with hs | hs <;> simp [isDone, hs]
        · rw [parse_eq_parseRest (by rcases hstate with hs | hs <;> simp [hs])
            (hrle.trans hle.length_le), hr', ← List.drop_drop]
          exact hagree

/-- **The parser may be interrupted anywhere.** -/
theorem resumable_parse :
    Resumable parse isDone {} (fun m m' => m.text <+: m'.text) SameContents where
  equiv := sameContents_equivalence
  final_congr h := by simp only [isDone, h.state]
  congr m h := parse_agree h rfl
  settled := fun {m m'} hle hset => by
    rcases parse_grow hle with ⟨-, hagree⟩ | ⟨p, hp, hopen, -⟩
    · exact hagree
    · rw [hp, Settled, hopen] at hset
      cases hset
  resume := fun {m m' s} hle hs hopen => by
    rcases parse_grow hle with ⟨hset, -⟩ | ⟨p, hp, -, -, hagree⟩
    · rw [hs, Settled, hopen] at hset
      cases hset
    · rw [hs] at hp
      cases hp
      exact hagree

/-! ### No precondition is violated -/

/-- The error is an exception, not undefined behaviour. -/
def Defined (e : Thrown) : Prop := e ≠ .undefined

omit [StdHash] in
theorem sat_substr (v : StringView) (pos : ℕ) (n : Option ℕ) :
    Sat Defined (fun _ => True) (substr v pos n) := by
  unfold substr
  cases v.substr pos n with
  | none => exact Thrown.noConfusion
  | some w => trivial

omit [StdHash] in
theorem sat_removePrefix {v : StringView} {n : ℕ} (h : n ≤ v.size) :
    Sat Defined (fun _ => True) (removePrefix v n) := by
  simp [removePrefix, StringView.removePrefix_of_le h]

omit [StdHash] in
theorem sat_toLength (s : Bytes) : Sat Defined (fun _ => True) (toLength s) := by
  unfold toLength
  split
  · trivial
  · exact Thrown.noConfusion
  · exact Thrown.noConfusion

theorem sat_parseQueryParametersLoop (fuel : ℕ) : ∀ (params : QueryParameters) (query : StringView),
    Sat Defined (fun _ => True) (parseQueryParametersLoop fuel params query) := by
  induction fuel with
  | zero => intro params query; trivial
  | succ fuel ih =>
    intro params query
    unfold parseQueryParametersLoop
    refine (sat_substr _ _ _).bind fun param _ => ?_
    cases param.find [61] with
    | none => exact Thrown.noConfusion
    | some paramDelim =>
      refine (sat_substr _ _ _).bind fun name _ => (sat_substr _ _ _).bind fun value _ => ?_
      dsimp only
      split
      · trivial
      · rename_i hne
        refine (sat_removePrefix ?_).bind fun rest _ => ih _ rest
        cases hi : query.find [38] with
        | none => simp [hi] at hne
        | some i => exact List.findSub_add_length_le hi

theorem sat_parseQuery (p : HttpRequestParser) (message : StringView) (queryBegin : Option ℕ) :
    Sat Defined (fun _ => True) (p.parseQuery message queryBegin) := by
  unfold parseQuery
  cases queryBegin with
  | none => trivial
  | some queryBegin =>
    dsimp only
    split
    · refine (sat_substr _ _ _).bind fun query _ => ?_
      exact (sat_parseQueryParametersLoop _ _ query).bind fun _ _ => trivial
    · trivial

/-- The position behind the path lies in the message. -/
theorem sat_parsePath (p : HttpRequestParser) (message : StringView) :
    Sat Defined (fun a => a.2 ≤ message.size) (p.parsePath message) := by
  unfold parsePath
  cases hi : message.find [32] with
  | none => exact Thrown.noConfusion
  | some pathEnd =>
    refine (sat_substr _ _ _).bind fun target _ => ?_
    refine Sat.bind (P := fun _ => True) ?_ fun _ _ => List.findSub_add_length_le hi
    refine (sat_parseQuery _ _ _).bind fun p _ => (sat_substr _ _ _).bind fun path _ => ?_
    split
    · exact Thrown.noConfusion
    · trivial

omit [StdHash] in
/-- The position behind the request token lies in the message. -/
theorem sat_parseRequestToken (p : HttpRequestParser) (message : StringView) :
    Sat Defined (fun a => a.2 ≤ message.size) (p.parseRequestToken message) := by
  unfold parseRequestToken
  cases hi : message.find [32] with
  | none => exact Thrown.noConfusion
  | some afterToken =>
    have hle : afterToken + 1 ≤ message.size := List.findSub_add_length_le hi
    dsimp only
    split_ifs
    · exact hle
    · exact hle
    · exact hle
    · exact hle
    · exact Thrown.noConfusion

omit [StdHash] in
theorem sat_parseVersion (p : HttpRequestParser) (version : StringView) :
    Sat Defined (fun _ => True) (p.parseVersion version) := by
  unfold parseVersion
  split_ifs
  · trivial
  · trivial
  · exact Thrown.noConfusion

theorem sat_parseStartLine (p : HttpRequestParser) (message : StringView) :
    Sat Defined (fun _ => True) (p.parseStartLine message) := by
  unfold parseStartLine
  refine (sat_parseRequestToken p message).bind fun a ha => ?_
  refine (sat_removePrefix ha).bind fun message _ => ?_
  refine (sat_parsePath a.1 message).bind fun b hb => ?_
  exact (sat_removePrefix hb).bind fun message _ => sat_parseVersion b.1 message

/-- A header line may be parsed when its storage goes on behind it. -/
theorem sat_parseHeader (p : HttpRequestParser) {header : StringView} (h : header.after ≠ []) :
    Sat Defined (fun _ => True) (p.parseHeader header) := by
  unfold parseHeader
  cases hd : header.find [58] with
  | none => exact Thrown.noConfusion
  | some headerDelim =>
    have hle : headerDelim + 1 ≤ header.text.length := List.findSub_add_length_le hd
    dsimp only
    split
    · exact Thrown.noConfusion
    · have hafter := List.length_pos_of_ne_nil h
      have hnext : headerDelim + 1 < (header.text ++ header.after).length := by
        rw [List.length_append]
        omega
      have hne : header.text ≠ [] := List.ne_nil_of_length_pos (by omega)
      rw [StringView.read, StringView.back, List.getElem?_eq_getElem hnext,
        List.getLast?_eq_getLast_of_ne_nil hne]
      simp only [readByte, Option.elim_some, ok_bind]
      refine (sat_substr _ _ _).bind fun name _ => (sat_substr _ _ _).bind fun value _ => ?_
      trivial

theorem sat_parseHeadersLoop (fuel : ℕ) : ∀ (p : HttpRequestParser) (headers : StringView),
    CrlfEnded headers.text → Sat Defined (fun _ => True) (parseHeadersLoop fuel p headers) := by
  induction fuel with
  | zero => intro p headers _; trivial
  | succ fuel ih =>
    intro p headers hend
    by_cases hne : headers.text = []
    · rw [parseHeadersLoop, if_pos (by simp [StringView.size, hne])]
      trivial
    · obtain ⟨i, hi⟩ := hend.exists_findSub hne
      have hle : i + 2 ≤ headers.text.length := List.findSub_add_length_le hi
      rw [parseHeadersLoop_line fuel p hi]
      refine (sat_parseHeader p ?_).bind fun p _ => ih p _ (hend.drop_line hi)
      -- the line is followed by its CRLF
      refine List.append_ne_nil_of_left_ne_nil (List.ne_nil_of_length_pos ?_) _
      rw [List.length_drop]
      omega

theorem sat_startBody (p : HttpRequestParser) {headersEnd : ℕ} {message : StringView}
    (h : headersEnd + 4 ≤ message.size) :
    Sat Defined (fun _ => True) (p.startBody headersEnd message) := by
  unfold startBody
  split
  · trivial
  · cases p.headers.find (ascii "Content-Length") with
    | none => trivial
    | some contentLength =>
      refine (sat_toLength contentLength).bind fun _ _ => ?_
      exact (sat_removePrefix h).bind fun _ _ => trivial

theorem sat_parseRequestLineBlock (p : HttpRequestParser) (message : StringView) :
    Sat Defined (fun _ => True) (p.parseRequestLineBlock message) := by
  unfold parseRequestLineBlock
  split
  · cases hi : message.find crlf with
    | none => trivial
    | some i =>
      refine (sat_substr _ _ _).bind fun line _ => (sat_parseStartLine p line).bind fun p _ => ?_
      exact (sat_removePrefix (List.findSub_add_length_le hi)).bind fun _ _ => trivial
  · trivial

theorem sat_parseHeadersBlock (p : HttpRequestParser) (message : StringView) :
    Sat Defined (fun _ => True) (p.parseHeadersBlock message) := by
  by_cases hp : p.state = .readingHeaders
  · cases hi : message.find crlfcrlf with
    | none =>
      rw [parseHeadersBlock_none hi]
      trivial
    | some i =>
      rw [parseHeadersBlock_some hp hi]
      refine (sat_parseHeadersLoop _ p _ (crlfEnded_take hi)).bind fun p _ => ?_
      exact sat_startBody p (List.findSub_add_length_le hi)
  · rw [parseHeadersBlock_of_ne hp]
    trivial

omit [StdHash] in
theorem sat_parseBodyBlock (p : HttpRequestParser) (message : StringView) :
    Sat Defined (fun _ => True) (p.parseBodyBlock message) := by
  unfold parseBodyBlock
  split
  · exact (sat_substr _ _ _).bind fun _ _ => trivial
  · trivial

/-- **No call violates a precondition**, when the parser has consumed no more than
the message holds. -/
theorem sat_parse {p : HttpRequestParser} {message : StringView}
    (h : p.parsedTotal ≤ message.size) : Sat Defined (fun _ => True) (p.parse message) := by
  unfold parse
  refine (sat_removePrefix h).bind fun message _ => ?_
  refine (sat_parseRequestLineBlock p message).bind fun a _ => ?_
  exact (sat_parseHeadersBlock a.1 a.2).bind fun b _ => sat_parseBodyBlock b.1 b.2

/-! ### Whole chains of calls -/

/-- A call on an empty message does nothing. -/
theorem parse_nil (storage : ℕ) (after : Bytes) : parse {} ⟨storage, [], after⟩ = .ok {} :=
  parse_fresh_none rfl

omit [StdHash] in
/-- A chain of growing messages may be taken to start with an empty one. -/
theorem isChain_cons_nil {ms : List StringView}
    (hchain : ms.IsChain fun m m' => m.text <+: m'.text) :
    (⟨0, [], []⟩ :: ms : List StringView).IsChain fun m m' => m.text <+: m'.text := by
  cases ms with
  | nil => exact .singleton _
  | cons m ms => exact hchain.cons_cons List.nil_prefix

/-- Every call on a chain of growing messages finds in its message what the
parser has consumed. -/
theorem parsedTotal_le_of_mem_feedCalls {ms : List StringView}
    (hchain : ms.IsChain fun m m' => m.text <+: m'.text) :
    ∀ c ∈ feedCalls parse isDone {} ms, c.1.parsedTotal ≤ c.2.size := by
  have hstep : ∀ {m m' : StringView} {s s' : HttpRequestParser}, m.text <+: m'.text →
      parse {} m = .ok s → isDone s = false → SameContents s' s → s'.parsedTotal ≤ m'.size := by
    intro m m' s s' hle hs hopen hR
    rcases parse_grow hle with ⟨hset, -⟩ | ⟨p, hp, -, htotal, -⟩
    · rw [hs, Settled, hopen] at hset
      cases hset
    · rw [hs] at hp
      cases hp
      rw [hR.parsedTotal]
      exact htotal.trans hle.length_le
  exact resumable_parse.feedCalls_of_reached hstep (isChain_cons_nil hchain) (parse_nil 0 []) rfl
    (sameContents_equivalence.refl {})

/-- **Calling `parse` on longer and longer prefixes of a message, until it is done
or throws, has the outcome of one call on the whole message**, and no call
removes more than its message holds. -/
theorem parse_chain {s : Bytes} {ms : List StringView} (hne : ms ≠ [])
    (hchain : ms.IsChain fun m m' => m.text <+: m'.text) (hlast : (ms.getLast hne).text = s)
    {whole : StringView} (hwhole : whole.text = s) :
    Agree SameContents (feedChain parse isDone {} ms) (parse {} whole) ∧
      ∀ c ∈ feedCalls parse isDone {} ms,
        c.1.parsedTotal ≤ c.2.size ∧ c.1.parse c.2 ≠ .error .undefined := by
  refine ⟨?_, fun c hc => ?_⟩
  · have hreached := resumable_parse.feedChain_of_reached hne (isChain_cons_nil hchain)
      (parse_nil 0 []) rfl (sameContents_equivalence.refl {})
    exact hreached.trans sameContents_equivalence
      (parse_agree (sameContents_equivalence.refl {}) (hlast.trans hwhole.symm))
  · have hle := parsedTotal_le_of_mem_feedCalls hchain c hc
    refine ⟨hle, fun hundef => ?_⟩
    have hdef := sat_parse hle
    rw [hundef] at hdef
    exact hdef rfl

omit [StdHash] in
/-- A request that arrives in three pieces, cut inside the first CRLF and inside
the body. -/
theorem parse_chain_three_pieces :
    letI := polynomialHash
    let pieces : List StringView :=
      [⟨0, ascii "PUT /k HTTP/1.1\r", []⟩,
       ⟨1, ascii "PUT /k HTTP/1.1\r\nContent-Length: 2\r\n\r\nv", []⟩,
       ⟨1, ascii "PUT /k HTTP/1.1\r\nContent-Length: 2\r\n\r\nvw", []⟩]
    let whole : StringView := ⟨2, ascii "PUT /k HTTP/1.1\r\nContent-Length: 2\r\n\r\nvw", []⟩
    Agree SameContents (feedChain parse isDone {} pieces) (parse {} whole) ∧
      ∀ c ∈ feedCalls parse isDone {} pieces,
        c.1.parsedTotal ≤ c.2.size ∧ c.1.parse c.2 ≠ .error .undefined := by
  let _ := polynomialHash
  exact parse_chain (List.cons_ne_nil _ _) (by decide) rfl rfl

end HttpRequestParser

end TpAdvanced
