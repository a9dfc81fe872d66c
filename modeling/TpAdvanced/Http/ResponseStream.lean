import TpAdvanced.Http.ResponseText

/-!
# A stream of responses

A connection that is kept open carries one response behind another, and only their
Content-Length headers tell where one ends.  This file gives a client that goes by them, and
shows that it takes the stream apart wherever the bytes it has so far end: it reads those
responses that have arrived completely, and is left with the part of the next one.

## Main definitions

* `nextResponse`, `readResponses` — the client.
* `HttpResponse.SelfDelimited` — what it asks of a response.

## Main results

* `readResponses_stream` — **a stream of responses is read back.**
* `selfDelimited_prepareResponse` — what the callback has to do for it.
-/

namespace TpAdvanced

open CText

/-! ### A client -/

/-- The number that the Content-Length lines give, if there is one line and it is a number. -/
def contentLength (lines : List Bytes) : Option ℕ :=
  match lines.filter isContentLength with
  | [l] =>
    let digits := trimBlank (fieldValue l)
    if digits ≠ [] ∧ digits.all isDigit = true then some (digitsValue digits) else none
  | _ => none

/-- The first response of a stream, if all of it is there, and what follows. -/
def nextResponse (s : Bytes) : Option (ResponseParts × Bytes) :=
  match readHead s with
  | some (status :: lines, rest) =>
    (contentLength lines).bind fun n =>
      if n ≤ rest.length then
        (readStatusLine status).map fun x =>
          (⟨x.1, x.2, lines.map (List.cutAt 58), rest.take n⟩, rest.drop n)
      else none
  | _ => none

/-- At most `fuel` responses. -/
def readResponsesAux : ℕ → Bytes → List ResponseParts × Bytes
  | 0, s => ([], s)
  | fuel + 1, s =>
    match nextResponse s with
    | none => ([], s)
    | some (r, rest) => ((readResponsesAux fuel rest).map (r :: ·) id)

/-- **The responses of a stream**, and what is left: a response takes a byte at least. -/
def readResponses (s : Bytes) : List ResponseParts × Bytes := readResponsesAux s.length s

/-- Header names have no colon, and no header text has a line end. -/
def HttpResponse.Readable (r : HttpResponse) : Prop :=
  ∀ e ∈ r.headers, 58 ∉ e.1 ∧ IsLine e.1 ∧ IsLine e.2

/-- The response can be read, and says how long it is. -/
structure HttpResponse.SelfDelimited (r : HttpResponse) : Prop where
  readable : r.Readable
  framed : WellFramed r

theorem contentLength_eq_some {lines : List Bytes} {n : ℕ} (h : Announces lines n) :
    contentLength lines = some n := by
  obtain ⟨l, hl, hne, hdigits, hvalue⟩ := h
  rw [contentLength, hl]
  dsimp only
  rw [if_pos ⟨hne, List.all_eq_true.mpr hdigits⟩, hvalue]

/-! ### One response -/

section One

variable {r : HttpResponse}

/-- The head of a response. -/
theorem readHead_dump (h : r.Readable) (t : Bytes) :
    readHead (r.dump ++ t) = some (r.statusLine :: r.headers.map headerLine, r.body ++ t) := by
  have hwire : wireLines r.headers = r.headers.map headerLine :=
    wireLines_of_clean fun e he => (h e he).2
  have hdump : r.dump ++ t =
      unlines (r.statusLine :: r.headers.map headerLine) ++ crlf ++ (r.body ++ t) := by
    rw [unlines_cons, ← hwire, unlines_wireLines]
    simp [HttpResponse.dump]
  have hlines : ∀ l ∈ r.statusLine :: r.headers.map headerLine, IsLine l := by
    intro l hl
    rcases List.mem_cons.mp hl with rfl | hl
    · exact isLine_statusLine r
    · rw [← hwire] at hl
      exact isLine_of_mem_wireLines hl
  have hne : ∀ l ∈ r.statusLine :: r.headers.map headerLine, l ≠ [] := by
    intro l hl
    rcases List.mem_cons.mp hl with rfl | hl
    · exact statusLine_ne_nil r
    · obtain ⟨e, -, rfl⟩ := List.mem_map.mp hl
      exact headerLine_ne_nil e
  obtain ⟨htake, hbehind⟩ := behindBlank_of_ne hne (r.body ++ t)
  rw [hdump, readHead_unlines hlines, htake, hbehind]

theorem contentLength_headers (h : r.SelfDelimited) :
    contentLength (r.headers.map headerLine) = some r.body.length :=
  contentLength_eq_some ((wellFramed_of_clean fun e he => (h.readable e he).2).mp h.framed)

/-- **A response at the beginning of a stream** is read back. -/
theorem nextResponse_dump (h : r.SelfDelimited) (t : Bytes) :
    nextResponse (r.dump ++ t) = some (r.parts, t) := by
  have hcut : (r.headers.map headerLine).map (List.cutAt 58) = r.headers := by
    rw [List.map_map]
    refine (List.map_congr_left fun e he => ?_).trans (List.map_id _)
    exact List.cutAt_append_cons (h.readable e he).1 e.2
  rw [nextResponse, readHead_dump h.readable]
  simp only [contentLength_headers h, Option.bind_some]
  rw [if_pos (by simp), readStatusLine_statusLine, Option.map_some, hcut, List.take_left,
    List.drop_left]
  rfl

/-- **A response of which something is missing** is waited for. -/
theorem nextResponse_part (h : r.SelfDelimited) {part : Bytes} (hpart : part <+: r.dump)
    (hne : part ≠ r.dump) : nextResponse part = none := by
  obtain ⟨t, ht⟩ := hpart
  have hpos : t ≠ [] := by
    rintro rfl
    exact hne (by rw [← ht, List.append_nil])
  unfold nextResponse
  split
  · rename_i status lines rest hread
    -- the head is that of the response, and its body is cut off
    have hall := readHead_append hread t
    have hdump := readHead_dump h.readable []
    rw [List.append_nil, List.append_nil] at hdump
    rw [ht, hdump] at hall
    obtain ⟨hlines, hbody⟩ := Prod.mk.inj (Option.some.inj hall)
    cases hlines
    have hshort : ¬ r.body.length ≤ rest.length := by
      have hlen : r.body.length = rest.length + t.length := by rw [hbody, List.length_append]
      have := List.length_pos_of_ne_nil hpos
      omega
    rw [contentLength_headers h, Option.bind_some, if_neg hshort]
  · rfl

/-- **A response that does not say how long it is** is waited for for ever, whatever there is
of it and behind it. -/
theorem nextResponse_unannounced (h : r.Readable)
    (hnone : (r.headers.map headerLine).filter isContentLength = []) {s t : Bytes}
    (hs : s <+: r.dump ++ t) : nextResponse s = none := by
  obtain ⟨t', ht'⟩ := hs
  unfold nextResponse
  split
  · rename_i status lines rest hread
    have hall := readHead_append hread t'
    rw [ht', readHead_dump h] at hall
    obtain ⟨hlines, -⟩ := Prod.mk.inj (Option.some.inj hall)
    cases hlines
    rw [contentLength, hnone]
    rfl
  · rfl

end One

/-! ### What the callback has to do -/

/-- A response that `operator()` writes on a connection it keeps open can be told from what
follows, if the callback sets the body once and its header texts are readable. -/
theorem selfDelimited_prepareResponse {calls : List BuilderCall} (hcalls : ReadableHeaders calls)
    (hone : OneLength calls) (request : HttpRequest) :
    (ConnectionHandler.prepareResponse false (.build calls) request).SelfDelimited where
  readable := by
    have hbuild : ∀ e ∈ (HttpResponse.build calls).headers,
        58 ∉ e.1 ∧ IsLine e.1 ∧ IsLine e.2 := by
      rw [headers_build]
      exact readable_of_mem_headers hcalls
    intro e he
    rcases (prepareResponse_spec (.build calls) request).2 with h | h
    · exact hbuild e (h ▸ he)
    · rw [h] at he
      rcases List.mem_append.mp he with he | he
      · exact hbuild e he
      · obtain rfl : e = (ascii "Connection", ascii "keep-alive") := List.mem_singleton.mp he
        decide
  framed := (wellFramed_build_iff (fun call hcall h hh => (hcalls call hcall h hh).2) request).mpr
    hone

/-! ### All of them -/

theorem length_le_flatMap_dump (rs : List HttpResponse) :
    rs.length ≤ (rs.flatMap HttpResponse.dump).length := by
  induction rs with
  | nil => exact Nat.le_refl 0
  | cons r rs ih =>
    rw [List.flatMap_cons, List.length_append, List.length_cons]
    have hpos : 0 < r.dump.length := by
      simp only [HttpResponse.dump, crlf, List.length_append, List.length_cons]
      omega
    omega

theorem readResponsesAux_stream {rs : List HttpResponse} {part : Bytes}
    (h : ∀ r ∈ rs, r.SelfDelimited) (hpart : nextResponse part = none) :
    ∀ {fuel : ℕ}, rs.length ≤ fuel →
      readResponsesAux fuel (rs.flatMap HttpResponse.dump ++ part) =
        (rs.map HttpResponse.parts, part) := by
  induction rs with
  | nil =>
    intro fuel _
    cases fuel with
    | zero => rfl
    | succ n =>
      rw [readResponsesAux, List.flatMap_nil, List.nil_append, hpart]
      rfl
  | cons r rs ih =>
    intro fuel hfuel
    obtain ⟨n, rfl⟩ := Nat.exists_eq_succ_of_ne_zero (Nat.ne_zero_of_lt hfuel)
    rw [readResponsesAux, List.flatMap_cons, List.append_assoc,
      nextResponse_dump (h r List.mem_cons_self)]
    dsimp only
    rw [ih (fun r' hr' => h r' (List.mem_cons_of_mem r hr')) (Nat.le_of_succ_le_succ hfuel)]
    rfl

/-- Responses in front of something that is not a response, or not yet one. -/
theorem readResponses_append {rs : List HttpResponse} (h : ∀ r ∈ rs, r.SelfDelimited)
    {rest : Bytes} (hrest : nextResponse rest = none) :
    readResponses (rs.flatMap HttpResponse.dump ++ rest) = (rs.map HttpResponse.parts, rest) := by
  refine readResponsesAux_stream h hrest ?_
  rw [List.length_append]
  exact Nat.le_add_right_of_le (length_le_flatMap_dump rs)

theorem length_readResponsesAux_le {rs : List HttpResponse} {rest : Bytes}
    (h : ∀ r ∈ rs, r.SelfDelimited) (hrest : ∀ part, part <+: rest → nextResponse part = none) :
    ∀ {fuel : ℕ} {s : Bytes}, s <+: rs.flatMap HttpResponse.dump ++ rest →
      (readResponsesAux fuel s).1.length ≤ rs.length := by
  induction rs with
  | nil =>
    intro fuel s hs
    cases fuel with
    | zero => exact Nat.le_refl 0
    | succ n =>
      rw [readResponsesAux, hrest s hs]
      exact Nat.le_refl 0
  | cons r rs ih =>
    intro fuel s hs
    cases fuel with
    | zero => exact Nat.zero_le _
    | succ n =>
      rw [List.flatMap_cons, List.append_assoc] at hs
      have hself := h r List.mem_cons_self
      by_cases hdump : r.dump <+: s
      · obtain ⟨s', rfl⟩ := hdump
        rw [readResponsesAux, nextResponse_dump hself]
        exact Nat.succ_le_succ (ih (fun r' hr' => h r' (List.mem_cons_of_mem r hr'))
          ((List.prefix_append_right_inj r.dump).mp hs))
      · have hpart : s <+: r.dump :=
          (List.prefix_or_prefix_of_prefix hs (List.prefix_append _ _)).resolve_right hdump
        rw [readResponsesAux, nextResponse_part hself hpart fun heq => hdump (by rw [heq])]
        exact Nat.zero_le _

/-- **A part of a stream holds no more responses than the stream.** -/
theorem length_readResponses_le {rs : List HttpResponse} {rest s : Bytes}
    (h : ∀ r ∈ rs, r.SelfDelimited) (hrest : ∀ part, part <+: rest → nextResponse part = none)
    (hs : s <+: rs.flatMap HttpResponse.dump ++ rest) : (readResponses s).1.length ≤ rs.length :=
  length_readResponsesAux_le h hrest hs

/-- A response with a body of two bytes. -/
def greeting : HttpResponse :=
  ConnectionHandler.prepareResponse false
    (.build [.setStatusCode .ok, .setBody (ascii "hi")]) keptRequest

end TpAdvanced
