import TpAdvanced.Http.HeaderTable
import TpAdvanced.Http.RequestText
import TpAdvanced.Lib.While

/-!
# Header blocks

`parse_headers` takes a block of lines apart line by line.  A line needs a colon; what
is in front of the first one is the name, and what is behind it, without the space it
may start with, is the value.  The code means to drop a space at the end of the line
as well, but asks `substr` for so many bytes that it keeps the space.

## Main definitions

* `headerPair` — the name and the value in a line.
* `headersStep` — a round of the loop.

## Main results

* `parseHeaders_eq` — what `parse_headers` does to a block of lines.
* `parseHeaders_first` — **each name is given the value of its first line**, and a line
  without a colon is rejected.
-/

namespace TpAdvanced

open CText Outcome While

/-- The text behind the colon, without the space it may start with. -/
def headerValue : Bytes → Bytes
  | 32 :: value => value
  | value => value

/-- The name and the value in a header line. -/
def headerPair (line : Bytes) : Bytes × Bytes :=
  ((List.cutAt 58 line).1, headerValue (List.cutAt 58 line).2)

/-- How a line without a colon is rejected. -/
def invalidHeader : Thrown := .parsingException "invalid header" .badRequest

theorem headerValue_of_head {value : Bytes} (h : value.head? ≠ some 32) :
    headerValue value = value := by
  unfold headerValue
  split
  · exact absurd rfl h
  · rfl

/-- What the byte behind the colon says about the value.  A line that ends at its colon
is followed by a CR, so that byte is no space. -/
theorem headerValue_of_next {rest after : Bytes} {next : UInt8}
    (hnext : (rest ++ after).head? = some next) (hafter : after.head? = some 13) :
    headerValue rest = (if next = 32 then rest.tail else rest) ∧ (next = 32 → rest ≠ []) := by
  cases rest with
  | nil =>
    obtain rfl : 13 = next := Option.some.inj (hafter.symm.trans hnext)
    exact ⟨rfl, fun h => absurd h (by decide)⟩
  | cons b t =>
    obtain rfl : b = next := Option.some.inj hnext
    refine ⟨?_, fun _ => List.cons_ne_nil b t⟩
    split
    · rename_i hspace
      rw [hspace]
      rfl
    · rename_i hspace
      exact headerValue_of_head fun h => hspace (Option.some.inj h)

theorem HeaderField.headerPair_text (h : HeaderField) : headerPair h.text = h.pair := by
  have hname : 58 ∉ h.name := fun hmem => (h.name_clean 58 hmem).1 rfl
  rw [headerPair, HeaderField.text, List.cutAt_append_cons hname, HeaderField.pair]
  cases h.spaced with
  | true => rfl
  | false =>
    have hvalue := headerValue_of_head h.value_head
    simpa using hvalue

theorem HeaderField.map_headerPair_text (hs : List HeaderField) :
    (hs.map HeaderField.text).map headerPair = hs.map HeaderField.pair := by
  rw [List.map_map]
  exact List.map_congr_left fun h _ => h.headerPair_text

/-- Rendered headers are lines with a colon. -/
theorem HeaderField.lines_map_text (hs : List HeaderField) :
    ∀ l ∈ hs.map HeaderField.text, IsLine l ∧ 58 ∈ l := by
  intro l hl
  obtain ⟨h, -, rfl⟩ := List.mem_map.mp hl
  exact ⟨List.findSub_eq_none_of_notMem h.notMem_text, by simp [HeaderField.text]⟩

namespace HttpRequestParser

variable [StdHash]

/-! ### A line -/

omit [StdHash] in
/-- What `parse_header` finds in a line with a colon that is followed by a CR. -/
theorem header_parts {header : StringView} (hcolon : 58 ∈ header.text)
    (hafter : header.after.head? = some 13) :
    ∃ name rest next last, header.text = name ++ 58 :: rest ∧ 58 ∉ name ∧
      header.read (name.length + 1) = some next ∧ header.back = some last ∧
      headerValue rest = (if next = 32 then rest.tail else rest) ∧
      (if next = 32 then name.length + 2 else name.length + 1) ≤ header.size := by
  obtain ⟨name, rest, hsplit, hname⟩ := List.eq_append_cons_of_mem hcolon
  have hsize := StringView.size_of_text hsplit
  have hread : header.read (name.length + 1) = (rest ++ header.after).head? := by
    rw [StringView.read, hsplit, List.append_assoc, List.getElem?_append_right (by omega),
      Nat.add_sub_cancel_left, List.head?_eq_getElem?]
    rfl
  obtain ⟨next, hnext⟩ : ∃ next, (rest ++ header.after).head? = some next := by
    cases rest with
    | nil => exact ⟨13, hafter⟩
    | cons b t => exact ⟨b, rfl⟩
  have hne : header.text ≠ [] := by rw [hsplit]; simp
  obtain ⟨hvalue, hrest⟩ := headerValue_of_next hnext hafter
  refine ⟨name, rest, next, header.text.getLast hne, hsplit, hname, hread.trans hnext,
    List.getLast?_eq_getLast_of_ne_nil hne, hvalue, ?_⟩
  rw [hsize]
  split
  · rename_i hspace
    have hpos := List.length_pos_of_ne_nil (hrest hspace)
    omega
  · omega

/-- **A line with a colon.**  The space behind the colon is looked for in the storage,
where the line is followed by its CR. -/
theorem parseHeader_accepts (p : HttpRequestParser) {header : StringView}
    (hcolon : 58 ∈ header.text) (hafter : header.after.head? = some 13) :
    p.parseHeader header = .ok { p with
      headers := p.headers.insert (headerPair header.text).1 (headerPair header.text).2 } := by
  obtain ⟨name, rest, next, last, hsplit, hname, hnext, hlast, hvalue, hlebegin⟩ :=
    header_parts hcolon hafter
  have hsize := StringView.size_of_text hsplit
  obtain ⟨view, hview, hvtext, -, -⟩ := substr_front hsplit
  have hbehind : header.text.drop (name.length + 1) = rest := by
    rw [hsplit, ← List.drop_drop, List.drop_left]
    rfl
  have hdrop : header.text.drop (if next = 32 then name.length + 2 else name.length + 1) =
      headerValue rest := by
    rw [hvalue]
    split
    · rw [← hbehind, List.tail_drop]
    · exact hbehind
  have hlen : (headerValue rest).length ≤ rest.length := by
    rw [hvalue]
    split
    · rw [List.length_tail]
      omega
    · exact Nat.le_refl _
  generalize hbegin : (if next = 32 then name.length + 2 else name.length + 1) = valueBegin
    at hlebegin hdrop
  generalize hend : (if last = 32 then header.size - 1 else header.size) = headerEnd
  have hleend : (headerValue rest).length ≤ headerEnd := by
    rw [← hend]
    split <;> omega
  -- the count of bytes asked for reaches beyond the value
  have hsub : substr header valueBegin (some headerEnd) =
      .ok ⟨header.storage, headerValue rest, header.after⟩ := by
    rw [substr, StringView.substr_of_le hlebegin, hdrop, Option.getD_some,
      List.take_of_length_le hleend, List.drop_of_length_le hleend]
    rfl
  have hpair : headerPair header.text = (name, headerValue rest) := by
    rw [headerPair, hsplit, List.cutAt_append_cons hname]
  rw [parseHeader, StringView.find_byte hsplit hname]
  dsimp only
  rw [if_neg (by omega), hnext, hlast]
  simp only [readByte, Option.elim_some, ok_bind, hbegin, hend, hview, hsub, hvtext, hpair]
  rfl

theorem parseHeader_rejects (p : HttpRequestParser) {header : StringView}
    (hcolon : 58 ∉ header.text) : p.parseHeader header = .error invalidHeader := by
  rw [parseHeader, StringView.find_byte_none hcolon]
  rfl

/-! ### A round of the loop -/

/-- The first line of the block is parsed and cut off. -/
def takeHeader (p : HttpRequestParser) (headers : StringView) :
    Except Thrown (HttpRequestParser × StringView) := do
  let headerLen := headers.find crlf
  let header ← substr headers 0 headerLen
  let p ← p.parseHeader header
  let headers ← removePrefix headers (headerLen.elim 1 (· + 2))
  return (p, headers)

/-- The body of the loop in `parse_headers`. -/
def headersStep :
    HttpRequestParser × StringView →
      (HttpRequestParser × StringView) ⊕ Except Thrown HttpRequestParser
  | (p, headers) =>
    if headers.size = 0 then .inr (.ok p)
    else
      match takeHeader p headers with
      | .error e => .inr (.error e)
      | .ok s => .inl s

/-- The loop with a bound on its rounds makes these rounds. -/
theorem parseHeadersLoop_succ (fuel : ℕ) (p : HttpRequestParser) (headers : StringView) :
    parseHeadersLoop (fuel + 1) p headers =
      match headersStep (p, headers) with
      | .inl s => parseHeadersLoop fuel s.1 s.2
      | .inr r => r := by
  rw [parseHeadersLoop, headersStep]
  by_cases hsize : headers.size = 0
  · rw [if_pos hsize, if_pos hsize]
  · rw [if_neg hsize, if_neg hsize]
    simp only [takeHeader]
    cases substr headers 0 (headers.find crlf) with
    | error e => rfl
    | ok header =>
      simp only [ok_bind]
      cases p.parseHeader header with
      | error e => rfl
      | ok p =>
        simp only [ok_bind]
        cases removePrefix headers ((headers.find crlf).elim 1 (· + 2)) <;> rfl

theorem parseHeadersLoop_of_run {fuel : ℕ} : ∀ {s : HttpRequestParser × StringView}
    {r : Except Thrown HttpRequestParser}, run headersStep fuel s = some r →
      parseHeadersLoop fuel s.1 s.2 = r := by
  induction fuel with
  | zero =>
    intro s r h
    cases h
  | succ fuel ih =>
    rintro ⟨p, headers⟩ r h
    rw [parseHeadersLoop_succ]
    cases hstep : headersStep (p, headers) with
    | inl s' =>
      rw [run_succ_of_inl hstep] at h
      exact ih h
    | inr r' =>
      rw [run_succ_of_inr hstep] at h
      exact Option.some.inj h

theorem headersStep_empty (p : HttpRequestParser) {headers : StringView}
    (hh : headers.text = []) : headersStep (p, headers) = .inr (.ok p) :=
  if_pos (List.length_eq_zero_iff.mpr hh)

omit [StdHash] in
/-- The first line of a block, followed by its CR, and what is behind its CRLF. -/
theorem first_line {headers : StringView} {l : Bytes} {ls : List Bytes} (hl : IsLine l)
    (hh : headers.text = unlines (l :: ls)) :
    headers.find crlf = some l.length ∧ l.length + 2 ≤ headers.size ∧
      removePrefix headers (l.length + 2) = .ok { headers with text := unlines ls } ∧
      ∃ header, substr headers 0 (some l.length) = .ok header ∧ header.text = l ∧
        header.after.head? = some 13 := by
  have hfind : headers.find crlf = some l.length := by
    rw [StringView.find, hh, unlines_cons]
    exact findSub_crlf_append hl _
  have hfront : headers.text = l ++ (crlf ++ unlines ls) := by
    rw [hh, unlines_cons, List.append_assoc]
  have hcut : headers.text = (l ++ crlf) ++ unlines ls := by rw [hh, unlines_cons]
  obtain ⟨header, hheader, htext, -, hafter⟩ := substr_front hfront
  refine ⟨hfind, ?_, removePrefix_front hcut (by simp [crlf]), header, hheader, htext, ?_⟩
  · rw [StringView.size, hcut, List.length_append, List.length_append]
    exact Nat.le_add_right _ _
  · rw [hafter]
    rfl

/-- **A round of the loop** parses a line. -/
theorem headersStep_line (p : HttpRequestParser) {headers : StringView} {l : Bytes}
    {ls : List Bytes} (hl : IsLine l) (hh : headers.text = unlines (l :: ls)) :
    headersStep (p, headers) = if 58 ∈ l then
      .inl ({ p with headers := p.headers.insert (headerPair l).1 (headerPair l).2 },
        { headers with text := unlines ls })
      else .inr (.error invalidHeader) := by
  obtain ⟨hfind, hsize, hrest, header, hheader, rfl, hcr⟩ := first_line hl hh
  rw [headersStep, if_neg (by omega), takeHeader, hfind, hheader, ok_bind]
  by_cases hcolon : 58 ∈ header.text
  · rw [if_pos hcolon, parseHeader_accepts p hcolon hcr, ok_bind, Option.elim_some, hrest]
    rfl
  · rw [if_neg hcolon, parseHeader_rejects p hcolon]
    rfl

/-! ### The block -/

/-- What the loop leaves with. -/
def headersResult (p : HttpRequestParser) (ls : List Bytes) : Except Thrown HttpRequestParser :=
  if ∀ l ∈ ls, 58 ∈ l then .ok { p with headers := p.headers.insertAll (ls.map headerPair) }
  else .error invalidHeader

/-- **Every round cuts off a line.** -/
theorem run_headersStep {ls : List Bytes} (hls : ∀ l ∈ ls, IsLine l) : ∀ (p : HttpRequestParser)
    {headers : StringView}, headers.text = unlines ls →
      run headersStep (ls.length + 1) (p, headers) = some (headersResult p ls) := by
  induction ls with
  | nil =>
    intro p headers hh
    rw [List.length_nil, run_succ_of_inr (headersStep_empty p hh)]
    simp [headersResult]
  | cons l ls ih =>
    intro p headers hh
    have hstep := headersStep_line p (hls l List.mem_cons_self) hh
    by_cases hcolon : 58 ∈ l
    · rw [if_pos hcolon] at hstep
      rw [List.length_cons, run_succ_of_inl hstep,
        ih (fun l' hl' => hls l' (List.mem_cons_of_mem l hl')) _ rfl]
      simp [headersResult, hcolon]
    · rw [if_neg hcolon] at hstep
      rw [List.length_cons, run_succ_of_inr hstep]
      simp [headersResult, hcolon]

/-- **What `parse_headers` does to a block of lines.** -/
theorem parseHeaders_eq {ls : List Bytes} (hls : ∀ l ∈ ls, IsLine l) (p : HttpRequestParser)
    {headers : StringView} (hh : headers.text = unlines ls) :
    p.parseHeaders headers = headersResult p ls := by
  cases ls with
  | nil =>
    have hsize : headers.size = 0 := by rw [StringView.size, hh]; rfl
    rw [parseHeaders, hsize]
    simp [parseHeadersLoop, headersResult]
  | cons l ls =>
    have hlen : (l :: ls).length + 1 ≤ headers.size := by
      have hle := two_mul_length_le_unlines (l :: ls)
      rw [StringView.size, hh]
      simp only [List.length_cons] at hle ⊢
      omega
    exact parseHeadersLoop_of_run (run_mono hlen (run_headersStep hls p hh))

/-- **Header lines are parsed to the value of the first line for each name**, and a block
with a line that has no colon is rejected. -/
theorem parseHeaders_first (p : HttpRequestParser) :
    (∀ hs : List HeaderField, (∀ h ∈ hs, 0 ∉ h.name) →
      ∀ headers : StringView, headers.text = unlines (hs.map HeaderField.text) →
        ∃ q, { p with headers := [] }.parseHeaders headers = .ok q ∧
          Returns headersStep ({ p with headers := [] }, headers) (.ok q) ∧
          ∀ storage name, 0 ∉ name → (q.buildRequest storage).getHeader name =
            (hs.find? fun h => h.name.map tolower = name.map tolower).map HeaderField.value) ∧
    ∀ ls : List Bytes, (∀ l ∈ ls, IsLine l) → (∃ l ∈ ls, 58 ∉ l) →
      ∀ headers : StringView, headers.text = unlines ls → ∃ message code,
        { p with headers := [] }.parseHeaders headers = .error (.parsingException message code) ∧
          Returns headersStep ({ p with headers := [] }, headers)
            (.error (.parsingException message code)) := by
  refine ⟨fun hs hclean headers hh => ?_, fun ls hls hbad headers hh => ?_⟩
  · have hls := HeaderField.lines_map_text hs
    have hresult : headersResult { p with headers := [] } (hs.map HeaderField.text) =
        .ok { p with headers := Headers.insertAll [] (hs.map HeaderField.pair) } := by
      rw [headersResult, if_pos fun l hl => (hls l hl).2,
        HeaderField.map_headerPair_text]
    refine ⟨_, (parseHeaders_eq (fun l hl => (hls l hl).1) _ hh).trans hresult, ⟨_,
      (run_headersStep (fun l hl => (hls l hl).1) _ hh).trans (congrArg some hresult)⟩, ?_⟩
    intro storage name hname
    have hnul : ∀ pair ∈ hs.map HeaderField.pair, 0 ∉ pair.1 := by
      intro pair hpair
      obtain ⟨h, hh, rfl⟩ := List.mem_map.mp hpair
      exact hclean h hh
    have hfind := Headers.find_insertAll (hs.map HeaderField.pair) name []
    rw [show Headers.find [] name = none from rfl, Option.none_or,
      Headers.find_eq_of_notMem hnul hname, List.find?_map, Option.map_map] at hfind
    exact hfind
  · have hresult : headersResult { p with headers := [] } ls = .error invalidHeader := by
      obtain ⟨l, hl, hcolon⟩ := hbad
      exact if_neg fun hall => hcolon (hall l hl)
    exact ⟨_, _, (parseHeaders_eq hls _ hh).trans hresult, ⟨_,
      (run_headersStep hls _ hh).trans (congrArg some hresult)⟩⟩

omit [StdHash] in
/-- `A:1` and `a: 2`, of which the second is dropped; and a line that is only `A`. -/
theorem parseHeaders_first_twice : letI := polynomialHash
    (∃ q, ({} : HttpRequestParser).parseHeaders ⟨0, ascii "A:1\r\na: 2\r\n", []⟩ = .ok q ∧
      ∀ storage, (q.buildRequest storage).getHeader (ascii "a") = some (ascii "1")) ∧
    ∃ message code, ({} : HttpRequestParser).parseHeaders ⟨0, ascii "A\r\n", []⟩ =
      .error (.parsingException message code) := by
  let _ := polynomialHash
  let lines : List HeaderField :=
    [⟨ascii "A", ascii "1", false, by simp [ascii], by decide, by decide⟩,
      ⟨ascii "a", ascii "2", true, by simp [ascii], by decide, by decide⟩]
  obtain ⟨haccepts, hrejects⟩ := parseHeaders_first {}
  obtain ⟨q, hq, -, hfind⟩ := haccepts lines (by simp [lines, ascii])
    ⟨0, ascii "A:1\r\na: 2\r\n", []⟩ (by decide)
  obtain ⟨message, code, herror, -⟩ := hrejects [ascii "A"] (by decide) (by decide)
    ⟨0, ascii "A\r\n", []⟩ (by decide)
  exact ⟨⟨q, hq, fun storage => hfind storage (ascii "a") (by decide)⟩, message, code, herror⟩

end HttpRequestParser

end TpAdvanced
