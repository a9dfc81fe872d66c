import TpAdvanced.Http.HeaderBlock
import TpAdvanced.Lib.Logged

/-!
# Accesses to a header block

`parse_headers` walks through its block with operations of `std::string_view` that are
not checked, or throw.  The two functions are written here once more, with a log of
these operations; `result_parseHeader` and `result_takeHeader` say that they are the
same.  The byte behind the colon is read without asking whether the line ends there, and
so a line without a value is read behind its end, where the block has the CR.

## Main definitions

* `Access` — an operation with its position, and the size of the view.
* `Logging.parseHeader`, `Logging.takeHeader` — the functions with their logs.
* `Accesses` — what `parse_headers` does on a block.

## Main results

* `takeHeader_inRange_iff` — a round of the loop.
* `visits_headersStep_iff` — the lines that the loop comes to.
* `accesses_inRange_iff` — **which blocks are parsed with accesses in range.**
-/

namespace TpAdvanced

open CText Outcome While

/-- An operation on a view of some size. -/
inductive Access
  /-- `operator[]`. -/
  | index (i size : ℕ)
  | back (size : ℕ)
  | substr (pos size : ℕ)
  | removePrefix (n size : ℕ)
  deriving DecidableEq, Repr

/-- The operation is used as it is allowed. -/
def Access.InRange : Access → Prop
  | .index i size => i < size
  | .back size => 0 < size
  | .substr pos size => pos ≤ size
  | .removePrefix n size => n ≤ size

instance : ∀ a : Access, Decidable a.InRange
  | .index i size => inferInstanceAs (Decidable (i < size))
  | .back size => inferInstanceAs (Decidable (0 < size))
  | .substr pos size => inferInstanceAs (Decidable (pos ≤ size))
  | .removePrefix n size => inferInstanceAs (Decidable (n ≤ size))

/-! ### The functions with their logs -/

namespace Logging

/-- `operator[]`. -/
def index (v : StringView) (i : ℕ) : Logged Access Thrown UInt8 :=
  .act (.index i v.size) (readByte (v.read i))

/-- `back`. -/
def back (v : StringView) : Logged Access Thrown UInt8 := .act (.back v.size) (readByte v.back)

/-- `substr`. -/
def substr (v : StringView) (pos : ℕ) (n : Option ℕ) : Logged Access Thrown StringView :=
  .act (.substr pos v.size) (TpAdvanced.substr v pos n)

/-- `remove_prefix`. -/
def removePrefix (v : StringView) (n : ℕ) : Logged Access Thrown StringView :=
  .act (.removePrefix n v.size) (TpAdvanced.removePrefix v n)

variable [StdHash]

/-- `parse_header`. -/
def parseHeader (p : HttpRequestParser) (header : StringView) :
    Logged Access Thrown HttpRequestParser :=
  match header.find [58] with
  | none => .fail (.parsingException "invalid header" .badRequest)
  | some headerDelim =>
    if header.size ≤ headerDelim then .fail (.parsingException "invalid header" .badRequest)
    else do
      let next ← index header (headerDelim + 1)
      let last ← back header
      let valueBegin := if next = 32 then headerDelim + 2 else headerDelim + 1
      let headerEnd := if last = 32 then header.size - 1 else header.size
      let name ← substr header 0 (some headerDelim)
      let value ← substr header valueBegin (some headerEnd)
      return { p with headers := p.headers.insert name.text value.text }

/-- The body of the loop in `parse_headers`. -/
def takeHeader (p : HttpRequestParser) (headers : StringView) :
    Logged Access Thrown (HttpRequestParser × StringView) := do
  let headerLen := headers.find crlf
  let header ← substr headers 0 headerLen
  let p ← parseHeader p header
  let headers ← removePrefix headers (headerLen.elim 1 (· + 2))
  return (p, headers)

/-- The log does not change what `parse_header` does. -/
theorem result_parseHeader (p : HttpRequestParser) (header : StringView) :
    (parseHeader p header).result = p.parseHeader header := by
  unfold parseHeader HttpRequestParser.parseHeader
  cases header.find [58] with
  | none => rfl
  | some headerDelim =>
    dsimp only
    split
    · rfl
    · simp only [Logged.result_bind, index, back, substr, Logged.result_act, Logged.result_pure]
      rfl

/-- Nor what a round of the loop does. -/
theorem result_takeHeader (p : HttpRequestParser) (headers : StringView) :
    (takeHeader p headers).result = p.takeHeader headers := by
  simp only [takeHeader, HttpRequestParser.takeHeader, Logged.result_bind, substr, removePrefix,
    Logged.result_act, Logged.result_pure, result_parseHeader]
  rfl

end Logging

/-- What `parse_headers` does on a block: the operations of its rounds. -/
def Accesses [StdHash] (p : HttpRequestParser) (headers : StringView) (a : Access) : Prop :=
  ∃ s, Visits HttpRequestParser.headersStep (p, headers) s ∧ s.2.size ≠ 0 ∧
    a ∈ (Logging.takeHeader s.1 s.2).log

/-! ### A round of the loop -/

namespace Logging

variable [StdHash]

/-- The operations on a line with a colon. -/
theorem log_parseHeader (p : HttpRequestParser) {header : StringView} (hcolon : 58 ∈ header.text)
    (hafter : header.after.head? = some 13) : ∃ valueBegin ≤ header.size,
      (parseHeader p header).log =
        [.index ((List.cutAt 58 header.text).1.length + 1) header.size, .back header.size,
          .substr 0 header.size, .substr valueBegin header.size] := by
  obtain ⟨name, rest, next, last, hsplit, hname, hnext, hlast, -, hle⟩ :=
    HttpRequestParser.header_parts hcolon hafter
  have hsize := StringView.size_of_text hsplit
  obtain ⟨view, hview, -⟩ := substr_front hsplit
  refine ⟨_, hle, ?_⟩
  rw [parseHeader, StringView.find_byte hsplit hname]
  dsimp only
  have hindex : (index header (name.length + 1)).result = .ok next := by
    rw [index, Logged.result_act, hnext]
    rfl
  have hback : (back header).result = .ok last := by
    rw [back, Logged.result_act, hlast]
    rfl
  have hcut : ∀ n, (substr header (if next = 32 then name.length + 2 else name.length + 1)
      n).result = .ok _ := fun n => by
    rw [substr, Logged.result_act, TpAdvanced.substr, StringView.substr_of_le hle]
    rfl
  rw [if_neg (by omega), Logged.log_bind_of_ok hindex, Logged.log_bind_of_ok hback,
    Logged.log_bind_of_ok hview, Logged.log_bind_of_ok (hcut _), hsplit,
    List.cutAt_append_cons hname]
  rfl

/-- The operations of a round on a line with a colon. -/
theorem log_takeHeader (p : HttpRequestParser) {headers : StringView} {l : Bytes}
    {ls : List Bytes} (hl : IsLine l) (hcolon : 58 ∈ l) (hh : headers.text = unlines (l :: ls)) :
    ∃ valueBegin ≤ l.length, (takeHeader p headers).log =
      [.substr 0 headers.size, .index ((List.cutAt 58 l).1.length + 1) l.length, .back l.length,
        .substr 0 l.length, .substr valueBegin l.length,
        .removePrefix (l.length + 2) headers.size] := by
  obtain ⟨hfind, -, hrest, header, hheader, rfl, hcr⟩ := HttpRequestParser.first_line hl hh
  obtain ⟨valueBegin, hle, hlog⟩ := log_parseHeader p hcolon hcr
  refine ⟨valueBegin, hle, ?_⟩
  have hparse := (result_parseHeader p header).trans
    (HttpRequestParser.parseHeader_accepts p hcolon hcr)
  rw [takeHeader, hfind, Logged.log_bind_of_ok hheader, Logged.log_bind_of_ok hparse, hlog,
    Logged.log_bind_of_ok hrest]
  rfl

/-- And on one without. -/
theorem log_takeHeader_invalid (p : HttpRequestParser) {headers : StringView} {l : Bytes}
    {ls : List Bytes} (hl : IsLine l) (hcolon : 58 ∉ l) (hh : headers.text = unlines (l :: ls)) :
    (takeHeader p headers).log = [.substr 0 headers.size] := by
  obtain ⟨hfind, -, hrest, header, hheader, rfl, hcr⟩ := HttpRequestParser.first_line hl hh
  have hparse := (result_parseHeader p header).trans
    (HttpRequestParser.parseHeader_rejects p hcolon)
  rw [takeHeader, hfind, Logged.log_bind_of_ok hheader, Logged.log_bind_of_error hparse,
    parseHeader, StringView.find_byte_none hcolon]
  rfl

/-- **A round of the loop** stays in range unless the line ends at its first colon, and then
it reads the byte behind the line. -/
theorem takeHeader_inRange_iff (p : HttpRequestParser) {headers : StringView} {l : Bytes}
    {ls : List Bytes} (hl : IsLine l) (hh : headers.text = unlines (l :: ls)) :
    (∀ a ∈ (takeHeader p headers).log, a.InRange ∨ a = .index l.length l.length) ∧
      ((∀ a ∈ (takeHeader p headers).log, a.InRange) ↔
        (58 ∈ l → (List.cutAt 58 l).2 ≠ [])) := by
  obtain ⟨-, hsize, -⟩ := HttpRequestParser.first_line hl hh
  by_cases hcolon : 58 ∈ l
  · obtain ⟨name, rest, hsplit, hname⟩ := List.eq_append_cons_of_mem hcolon
    obtain ⟨valueBegin, hle, hlog⟩ := log_takeHeader p hl hcolon hh
    have hlen : l.length = name.length + 1 + rest.length := by
      rw [hsplit, List.length_append, List.length_cons]
      omega
    have hcutAt : List.cutAt 58 l = (name, rest) := by
      rw [hsplit, List.cutAt_append_cons hname]
    have hindex : name.length + 1 < l.length ↔ rest ≠ [] := by
      rw [← List.length_pos_iff]
      omega
    rw [hlog, hcutAt]
    simp only [List.forall_mem_cons, Access.InRange, Access.index.injEq, List.not_mem_nil,
      Nat.zero_le, hle, hsize, hindex, hcolon, false_implies, implies_true, true_implies,
      true_or, true_and, and_true]
    refine ⟨⟨?_, .inl (by omega)⟩, and_iff_left (by omega)⟩
    rw [← hindex]
    omega
  · rw [log_takeHeader_invalid p hl hcolon hh]
    simp [Access.InRange, hcolon]

end Logging

/-! ### The block -/

variable [StdHash] {p : HttpRequestParser} {headers : StringView} {ls : List Bytes}

/-- Where the loop stands when it has taken these lines from the block. -/
def taken (p : HttpRequestParser) (headers : StringView) (before rest : List Bytes) :
    HttpRequestParser × StringView :=
  ({ p with headers := p.headers.insertAll (before.map headerPair) },
    { headers with text := unlines rest })

theorem taken_nil (hh : headers.text = unlines ls) : taken p headers [] ls = (p, headers) := by
  rw [taken, ← hh]
  rfl

theorem headersStep_taken {before rest : List Bytes} {l : Bytes} (hl : IsLine l) :
    HttpRequestParser.headersStep (taken p headers before (l :: rest)) =
      if 58 ∈ l then .inl (taken p headers (before ++ [l]) rest)
      else .inr (.error invalidHeader) := by
  rw [taken, HttpRequestParser.headersStep_line _ hl rfl, taken, List.map_append,
    Headers.insertAll, Headers.insertAll, List.foldl_append]
  rfl

/-- **The lines that the loop comes to** have only lines with a colon in front of them. -/
theorem visits_headersStep_iff (hls : ∀ l ∈ ls, IsLine l) (hh : headers.text = unlines ls)
    (s : HttpRequestParser × StringView) :
    Visits HttpRequestParser.headersStep (p, headers) s ↔
      ∃ before rest, ls = before ++ rest ∧ (∀ l ∈ before, 58 ∈ l) ∧
        s = taken p headers before rest := by
  constructor
  · intro hv
    refine hv.invariant (fun s => ∃ before rest, ls = before ++ rest ∧ (∀ l ∈ before, 58 ∈ l) ∧
      s = taken p headers before rest) ?_ ⟨[], ls, rfl, by simp, (taken_nil hh).symm⟩
    rintro _ s' ⟨before, rest, rfl, hbefore, rfl⟩ hstep
    cases rest with
    | nil =>
      rw [taken, HttpRequestParser.headersStep_empty _ rfl] at hstep
      cases hstep
    | cons l rest =>
      rw [headersStep_taken (hls l (List.mem_append_right before List.mem_cons_self))] at hstep
      split at hstep
      · rename_i hcolon
        cases hstep
        refine ⟨before ++ [l], rest, by simp, ?_, rfl⟩
        rw [List.forall_mem_append, List.forall_mem_singleton]
        exact ⟨hbefore, hcolon⟩
      · cases hstep
  · rintro ⟨before, rest, rfl, hbefore, rfl⟩
    -- the loop takes the lines in front one after another
    induction before using List.reverseRecOn generalizing rest with
    | nil =>
      rw [List.nil_append] at hh
      rw [taken_nil hh]
      exact .start
    | append_singleton before l ih =>
      rw [List.forall_mem_append, List.forall_mem_singleton] at hbefore
      rw [List.append_assoc, List.singleton_append] at hls hh
      refine .pass (ih (l :: rest) hls hh hbefore.1) ?_
      rw [headersStep_taken (hls l (List.mem_append_right before List.mem_cons_self)),
        if_pos hbefore.2]

/-- What is done on a block of lines. -/
theorem accesses_iff (hls : ∀ l ∈ ls, IsLine l) (hh : headers.text = unlines ls) (a : Access) :
    Accesses p headers a ↔ ∃ before l rest, ls = before ++ l :: rest ∧ (∀ l ∈ before, 58 ∈ l) ∧
      a ∈ (Logging.takeHeader (taken p headers before (l :: rest)).1
        (taken p headers before (l :: rest)).2).log := by
  simp only [Accesses, visits_headersStep_iff hls hh]
  constructor
  · rintro ⟨_, ⟨before, rest, rfl, hbefore, rfl⟩, hsize, ha⟩
    cases rest with
    | nil => exact absurd rfl hsize
    | cons l rest => exact ⟨before, l, rest, rfl, hbefore, ha⟩
  · rintro ⟨before, l, rest, rfl, hbefore, ha⟩
    refine ⟨_, ⟨before, l :: rest, rfl, hbefore, rfl⟩, ?_, ha⟩
    have hline := hls l (List.mem_append_right before List.mem_cons_self)
    have htext : (taken p headers before (l :: rest)).2.text = unlines (l :: rest) := rfl
    have hsize := (HttpRequestParser.first_line hline htext).2.1
    omega

/-- A round, where the loop stands. -/
theorem taken_inRange_iff (p : HttpRequestParser) (headers : StringView)
    (before rest : List Bytes) {l : Bytes} (hl : IsLine l) :
    (∀ a ∈ (Logging.takeHeader (taken p headers before (l :: rest)).1
        (taken p headers before (l :: rest)).2).log, a.InRange ∨ a = .index l.length l.length) ∧
      ((∀ a ∈ (Logging.takeHeader (taken p headers before (l :: rest)).1
        (taken p headers before (l :: rest)).2).log, a.InRange) ↔
        (58 ∈ l → (List.cutAt 58 l).2 ≠ [])) :=
  Logging.takeHeader_inRange_iff _ hl rfl

/-- **Header blocks are parsed to the end**, with all accesses in range exactly if no line in
front of the first one without a colon ends at its first colon.  Behind such a line the
byte at its end is read, and nothing else is ever out of range. -/
theorem accesses_inRange_iff (p : HttpRequestParser) (storage : ℕ) (text after : Bytes) :
    (∃ r, Returns HttpRequestParser.headersStep (p, ⟨storage, text ++ crlf, after⟩) r ∧
        p.parseHeaders ⟨storage, text ++ crlf, after⟩ = r) ∧
      (∀ a, Accesses p ⟨storage, text ++ crlf, after⟩ a → a.InRange ∨ ∃ n, a = .index n n) ∧
      ((∀ a, Accesses p ⟨storage, text ++ crlf, after⟩ a → a.InRange) ↔
        ∀ l ∈ (splitLines text).takeWhile (58 ∈ ·), (List.cutAt 58 l).2 ≠ []) := by
  have hls : ∀ l ∈ splitLines text, IsLine l := fun l => isLine_of_mem_splitLines
  have hh : (⟨storage, text ++ crlf, after⟩ : StringView).text = unlines (splitLines text) :=
    (unlines_splitLines text).symm
  generalize (⟨storage, text ++ crlf, after⟩ : StringView) = headers at hh ⊢
  refine ⟨⟨_, ⟨_, HttpRequestParser.run_headersStep hls p hh⟩,
    HttpRequestParser.parseHeaders_eq hls p hh⟩, ?_, ?_⟩
  · intro a ha
    obtain ⟨before, l, rest, heq, -, ha⟩ := (accesses_iff hls hh a).mp ha
    have hl := hls l (heq ▸ List.mem_append_right before List.mem_cons_self)
    exact ((taken_inRange_iff p headers before rest hl).1 a ha).imp_right fun h => ⟨_, h⟩
  · simp only [accesses_iff hls hh, List.mem_takeWhile_iff, decide_eq_true_eq]
    constructor
    · rintro hin l ⟨before, rest, heq, hbefore, hcolon⟩
      have hl := hls l (heq ▸ List.mem_append_right before List.mem_cons_self)
      refine (taken_inRange_iff p headers before rest hl).2.mp (fun a ha => ?_) hcolon
      exact hin a ⟨before, l, rest, heq, hbefore, ha⟩
    · rintro hvalue a ⟨before, l, rest, heq, hbefore, ha⟩
      have hl := hls l (heq ▸ List.mem_append_right before List.mem_cons_self)
      refine (taken_inRange_iff p headers before rest hl).2.mpr (fun hcolon => ?_) a ha
      exact hvalue l ⟨before, rest, heq, hbefore, hcolon⟩

omit [StdHash] in
/-- The line `A:`, of two bytes: the third one is read. -/
theorem empty_value_read_behind :
    ¬ ∀ (_ : StdHash) (p : HttpRequestParser) (storage : ℕ) (text after : Bytes) (a : Access),
      Accesses p ⟨storage, text ++ crlf, after⟩ a → a.InRange := by
  intro h
  let _ := polynomialHash
  have hread : Accesses {} ⟨0, ascii "A:" ++ crlf, crlf⟩ (.index 2 2) :=
    ⟨_, .start, by decide, by decide +kernel⟩
  exact Nat.lt_irrefl 2 (h polynomialHash {} 0 (ascii "A:") crlf (.index 2 2) hread)

end TpAdvanced
