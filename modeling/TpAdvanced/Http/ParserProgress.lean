import TpAdvanced.Http.ParserRestart

/-!
# Where the parser stands

After a text that does not complete a request, a fresh parser waits for the rest
of the request line, of the header block or of the body (`Pending`).  One more
byte changes nothing unless it is the one that ends what the parser waits for
(`Quiet`).

## Main definitions

* `Pending` — what an unfinished parser waits for.
* `Awaits`, `Quiet` — the byte that would end the wait.
* `requestOf` — the request a fresh parser makes of a text.

## Main results

* `pending_of_parse` — an unfinished parser is pending.
* `agree_concat_of_quiet` — **a quiet byte leaves no trace.**
* `requestOf_eq_none_of_prefix` — a prefix of an incomplete text is incomplete.
-/

namespace TpAdvanced

open CText Outcome

namespace HttpRequestParser

/-! ### What an unfinished parser waits for -/

/-- The parser a fresh one has become after the text `s`, not being done. -/
inductive Pending : HttpRequestParser → Bytes → Prop
  | requestLine {s : Bytes} (hnone : List.findSub crlf s = none) : Pending {} s
  | headers {p : HttpRequestParser} {s : Bytes} (hstate : p.state = .readingHeaders)
      (hle : p.parsedTotal ≤ s.length)
      (hnone : List.findSub crlfcrlf (s.drop p.parsedTotal) = none) : Pending p s
  | body {p : HttpRequestParser} {s : Bytes} (hstate : p.state = .readingBody)
      (hle : p.parsedTotal ≤ s.length) (hshort : s.length < p.parsedTotal + p.bodyLength) :
      Pending p s

/-- Behind the text `s`, the byte `x` ends what the parser waits for: the CRLF of
the request line, the blank line, or the last byte of the body. -/
def Awaits (p : HttpRequestParser) (s : Bytes) (x : UInt8) : Prop :=
  match p.state with
  | .readingRequestLine => [13] <:+ s ∧ x = 10
  | .readingHeaders => [13, 10, 13] <:+ s.drop p.parsedTotal ∧ x = 10
  | .readingBody => s.length + 1 = p.parsedTotal + p.bodyLength
  | _ => False

variable [StdHash]

/-- Behind the text `s`, the byte `x` is not what a fresh parser waits for. -/
def Quiet (s : Bytes) (x : UInt8) : Prop :=
  ∀ p, parse {} ⟨0, s, []⟩ = .ok p → ¬ p.Awaits s x

theorem pending_of_parseRest {p r : HttpRequestParser} (hp : p.state = .readingHeaders)
    {m : StringView} {s : Bytes} (hle : p.parsedTotal ≤ s.length)
    (hm : m.text = s.drop p.parsedTotal) (h : p.parseRest m = .ok r) (hopen : r.isDone = false) :
    Pending r s := by
  have hlen : m.size = s.length - p.parsedTotal := by simp [StringView.size, hm]
  cases hi : m.find crlfcrlf with
  | none =>
    -- no blank line yet
    rw [parseRest, parseHeadersBlock_none hi] at h
    have hr : p.parseBodyBlock m = .ok r := h
    rw [parseBodyBlock_of_ne (by simp [hp])] at hr
    cases hr
    exact .headers hp hle (by rw [← hm]; exact hi)
  | some i =>
    -- the header lines are complete, so only the body can be missing
    have hi4 : i + 4 ≤ m.size := List.findSub_add_length_le hi
    rw [parseRest, parseHeadersBlock_some hp hi] at h
    generalize hx : p.parseHeaders _ = x at h
    cases x with
    | error e => cases h
    | ok p₁ =>
      have htotal := parsedTotal_parseHeaders hx
      have hbody := startBody_grow (sameContents_equivalence.refl p₁) (List.prefix_refl m.text) hi4
      simp only [ok_bind] at h
      generalize p₁.startBody i m = a at hbody h
      cases hbody with
      | error e => cases h
      | @ok a b hab =>
        obtain ⟨-, hdone | ⟨hstate, htot, ha, -⟩⟩ := hab
        · simp only [ok_bind] at h
          rw [parseBodyBlock_of_ne (by simp [hdone])] at h
          cases h
          simp [isDone, hdone] at hopen
        · simp only [ok_bind] at h
          have hsize : a.2.size = m.size - (i + 4) := by
            rw [StringView.size, ha, List.length_drop]
            rfl
          rcases Nat.lt_or_ge a.2.size a.1.bodyLength with hshort | hfull
          · rw [parseBodyBlock_short hshort] at h
            cases h
            exact .body hstate (by omega) (by omega)
          · rw [parseBodyBlock_some hstate hfull] at h
            cases h
            simp [isDone] at hopen

/-- **An unfinished parser is pending.** -/
theorem pending_of_parse {m : StringView} {p : HttpRequestParser} (h : parse {} m = .ok p)
    (hopen : p.isDone = false) : Pending p m.text := by
  cases hi : m.find crlf with
  | none =>
    rw [parse_fresh_none hi] at h
    cases h
    exact .requestLine hi
  | some i =>
    have hlen : i + 2 ≤ m.text.length := List.findSub_add_length_le hi
    rw [parse_fresh_some hi] at h
    cases hx : parseStartLine {} ⟨m.storage, m.text.take i, m.text.drop i ++ m.after⟩ with
    | error e =>
      rw [hx] at h
      cases h
    | ok q =>
      rw [hx] at h
      exact pending_of_parseRest (p := { q with state := .readingHeaders, parsedTotal := i + 2 })
        rfl hlen rfl h hopen

/-- A byte that is not awaited changes nothing. -/
theorem parse_of_pending {p : HttpRequestParser} {s : Bytes} (hp : Pending p s) {x : UInt8}
    (hx : ¬ p.Awaits s x) {m : StringView} (hm : m.text = s ++ [x]) : p.parse m = .ok p := by
  cases hp with
  | requestLine hnone =>
    refine parse_fresh_none ?_
    rw [StringView.find, hm]
    exact (isLine_concat_iff hnone x).mpr hx
  | headers hstate hle hnone =>
    have hdrop : m.text.drop p.parsedTotal = s.drop p.parsedTotal ++ [x] := by
      rw [hm, List.drop_append_of_le_length hle]
    have hfind : StringView.find { m with text := m.text.drop p.parsedTotal } crlfcrlf = none := by
      rw [StringView.find, hdrop]
      refine (findSub_crlfcrlf_concat hnone x).mpr ?_
      simpa only [Awaits, hstate] using hx
    rw [parse_eq_parseRest (by simp [hstate]) (by simp [StringView.size, hm]; omega), parseRest,
      parseHeadersBlock_none hfind]
    exact parseBodyBlock_of_ne (by simp [hstate]) _
  | body hstate hle hshort =>
    rw [parse_eq_parseRest (by simp [hstate]) (by simp [StringView.size, hm]; omega), parseRest,
      parseHeadersBlock_of_ne (by simp [hstate])]
    refine parseBodyBlock_short ?_
    have hne : s.length + 1 ≠ p.parsedTotal + p.bodyLength := by
      simpa only [Awaits, hstate] using hx
    simp only [StringView.size, hm, List.length_drop, List.length_append, List.length_singleton]
    omega

/-- Parsing a text alone, or in any view of it. -/
theorem parse_text {m : StringView} {s : Bytes} (hm : m.text = s) :
    Agree SameContents (parse {} ⟨0, s, []⟩) (parse {} m) :=
  parse_agree (sameContents_equivalence.refl {}) hm.symm

/-- **A quiet byte leaves no trace**: a fresh parser does the same to the text with
it and without it. -/
theorem agree_concat_of_quiet {s : Bytes} {x : UInt8} (hq : Quiet s x) :
    Agree SameContents (parse {} ⟨0, s ++ [x], []⟩) (parse {} ⟨0, s, []⟩) := by
  rcases parse_grow (show (⟨0, s, []⟩ : StringView).text <+:
      (⟨0, s ++ [x], []⟩ : StringView).text from List.prefix_append s [x]) with
    ⟨-, hagree⟩ | ⟨p, hp, hopen, -, hagree⟩
  · exact hagree.symm sameContents_equivalence
  · rw [parse_of_pending (pending_of_parse hp hopen) (hq p hp) rfl] at hagree
    rw [hp]
    exact hagree.symm sameContents_equivalence

/-! ### The request of a text -/

/-- The request a fresh parser makes of exactly these bytes. -/
def requestOf (s : Bytes) : Option HttpRequest :=
  match parse {} ⟨0, s, []⟩ with
  | .ok p => if p.isDone then some (p.buildRequest 0) else none
  | .error _ => none

theorem requestOf_eq_none_of_open {s : Bytes} {p : HttpRequestParser}
    (h : parse {} ⟨0, s, []⟩ = .ok p) (hopen : p.isDone = false) : requestOf s = none := by
  simp [requestOf, h, hopen]

/-- A prefix of an incomplete text is incomplete. -/
theorem requestOf_eq_none_of_prefix {s t : Bytes} (hle : s <+: t) {p : HttpRequestParser}
    (ht : parse {} ⟨0, t, []⟩ = .ok p) (hopen : p.isDone = false) : requestOf s = none := by
  rcases parse_grow (show (⟨0, s, []⟩ : StringView).text <+: (⟨0, t, []⟩ : StringView).text
      from hle) with ⟨hset, hagree⟩ | ⟨q, hq, hopen', -⟩
  · cases hs : parse {} ⟨0, s, []⟩ with
    | error e => simp [requestOf, hs]
    | ok q =>
      rw [hs, ht] at hagree
      rw [hs] at hset
      cases hagree with
      | ok h =>
        have hdone := hset
        rw [Settled, isDone, h.state] at hdone
        rw [isDone, hdone] at hopen
        cases hopen
  · exact requestOf_eq_none_of_open hq hopen'

/-! ### Where the path points -/

/-- After a call on a message in `storage`, the path is as it was, or was just set
to point into the message. -/
def KeepsPath (p : HttpRequestParser) (storage : ℕ) (r : HttpRequestParser) : Prop :=
  (r.path = p.path ∧ (r.state = .readingRequestLine ↔ p.state = .readingRequestLine)) ∨
    (p.state = .readingRequestLine ∧ r.state ≠ .readingRequestLine ∧ r.path.storage = storage)

omit [StdHash] in
theorem substr_storage (v : StringView) (pos : ℕ) (n : Option ℕ) :
    Sat (fun _ => True) (fun w => w.storage = v.storage) (substr v pos n) := by
  unfold substr StringView.substr
  split
  · rfl
  · trivial

omit [StdHash] in
theorem removePrefix_storage (v : StringView) (n : ℕ) :
    Sat (fun _ => True) (fun w => w.storage = v.storage) (removePrefix v n) := by
  unfold removePrefix StringView.removePrefix
  split
  · rfl
  · trivial

theorem parseUrl_path (p : HttpRequestParser) (message : StringView) :
    Sat (fun _ => True) (fun r => r.path.storage = message.storage) (p.parseUrl message) := by
  unfold parseUrl
  refine (Sat.any _).bind fun p _ => (substr_storage message _ _).bind fun path hpath => ?_
  split
  · trivial
  · exact hpath

theorem parsePath_path (p : HttpRequestParser) (message : StringView) :
    Sat (fun _ => True) (fun a => a.1.path.storage = message.storage) (p.parsePath message) := by
  unfold parsePath
  cases message.find [32] with
  | none => trivial
  | some pathEnd =>
    refine (substr_storage message _ _).bind fun target htarget => ?_
    exact (parseUrl_path p target).bind fun p hp => hp.trans htarget

omit [StdHash] in
theorem parseVersion_path (p : HttpRequestParser) (version : StringView) :
    Sat (fun _ => True) (fun r => r.path = p.path) (p.parseVersion version) := by
  unfold parseVersion
  split_ifs
  · rfl
  · rfl
  · trivial

theorem parseStartLine_path (p : HttpRequestParser) (message : StringView) :
    Sat (fun _ => True) (fun r => r.path.storage = message.storage) (p.parseStartLine message) := by
  unfold parseStartLine
  refine (Sat.any _).bind fun a _ => (removePrefix_storage message _).bind fun m hm => ?_
  refine (parsePath_path a.1 m).bind fun b hb => (Sat.any _).bind fun version _ => ?_
  exact (parseVersion_path b.1 version).mono fun r hr => by rw [hr, hb, hm]

theorem parseRequestLineBlock_path (p : HttpRequestParser) (message : StringView) :
    Sat (fun _ => True) (fun a => KeepsPath p message.storage a.1)
      (p.parseRequestLineBlock message) := by
  unfold parseRequestLineBlock
  split
  · rename_i hp
    cases message.find crlf with
    | none => exact .inl ⟨rfl, Iff.rfl⟩
    | some i =>
      refine (substr_storage message _ _).bind fun line hline => ?_
      refine (parseStartLine_path p line).bind fun q hq => (Sat.any _).bind fun _ _ => ?_
      exact .inr ⟨hp, HttpRequestState.noConfusion, hq.trans hline⟩
  · exact .inl ⟨rfl, Iff.rfl⟩

theorem startBody_path (p : HttpRequestParser) (headersEnd : ℕ) (message : StringView) :
    Sat (fun _ => True) (fun a => a.1.path = p.path ∧ a.1.state ≠ .readingRequestLine)
      (p.startBody headersEnd message) := by
  unfold startBody
  split
  · exact ⟨rfl, HttpRequestState.noConfusion⟩
  · cases p.headers.find (ascii "Content-Length") with
    | none => exact ⟨rfl, HttpRequestState.noConfusion⟩
    | some contentLength =>
      refine (Sat.any _).bind fun _ _ => (Sat.any _).bind fun _ _ => ?_
      exact ⟨rfl, HttpRequestState.noConfusion⟩

theorem parseHeadersBlock_path (p : HttpRequestParser) (message : StringView) :
    Sat (fun _ => True)
      (fun a => a.1.path = p.path ∧
        (a.1.state = .readingRequestLine ↔ p.state = .readingRequestLine))
      (p.parseHeadersBlock message) := by
  unfold parseHeadersBlock
  split
  · rename_i hp
    cases message.find crlfcrlf with
    | none => exact ⟨rfl, Iff.rfl⟩
    | some i =>
      refine (Sat.any _).bind fun block _ => (parseHeadersLoop_frame _ p block).bind fun q hq => ?_
      obtain ⟨hs, rfl⟩ := hq
      refine (startBody_path _ i message).mono fun a ha => ⟨ha.1, ?_⟩
      simp [ha.2, hp]
  · exact ⟨rfl, Iff.rfl⟩

omit [StdHash] in
theorem parseBodyBlock_path (p : HttpRequestParser) (message : StringView) :
    Sat (fun _ => True)
      (fun r => r.path = p.path ∧ (r.state = .readingRequestLine ↔ p.state = .readingRequestLine))
      (p.parseBodyBlock message) := by
  unfold parseBodyBlock
  split
  · rename_i hp
    refine (Sat.any _).bind fun body _ => ⟨rfl, ?_⟩
    simp [hp.1]
  · exact ⟨rfl, Iff.rfl⟩

/-- A call on a message keeps the path, or sets it to point into the message. -/
theorem parse_path (p : HttpRequestParser) (message : StringView) :
    Sat (fun _ => True) (KeepsPath p message.storage) (p.parse message) := by
  unfold parse
  refine (removePrefix_storage message _).bind fun m hm => ?_
  refine (parseRequestLineBlock_path p m).bind fun a ha => ?_
  refine (parseHeadersBlock_path a.1 a.2).bind fun b hb => ?_
  refine (parseBodyBlock_path b.1 b.2).mono fun r hr => ?_
  rcases ha with ⟨hpath, hstate⟩ | ⟨hp, hne, hstorage⟩
  · exact .inl ⟨by rw [hr.1, hb.1, hpath], by rw [hr.2, hb.2, hstate]⟩
  · exact .inr ⟨hp, by rwa [Ne, hr.2, hb.2], by rw [hr.1, hb.1, hstorage, hm]⟩

/-- A fresh parser's path stays in the storage of its message. -/
theorem path_storage_of_fresh {s : Bytes} {q : HttpRequestParser}
    (hq : parse {} ⟨0, s, []⟩ = .ok q) : q.path.storage = 0 := by
  have hpath := parse_path {} ⟨0, s, []⟩
  rw [hq] at hpath
  rcases hpath with ⟨hpath, -⟩ | ⟨-, -, hstorage⟩
  · exact congrArg StringView.storage hpath
  · exact hstorage

/-- The request line has been read exactly when the message has a CRLF. -/
theorem state_of_parse {m : StringView} {p : HttpRequestParser} (h : parse {} m = .ok p) :
    p.state = .readingRequestLine ↔ m.find crlf = none := by
  cases hi : m.find crlf with
  | none =>
    rw [parse_fresh_none hi] at h
    cases h
    exact ⟨fun _ => rfl, fun _ => rfl⟩
  | some i =>
    rw [parse_fresh_some hi] at h
    cases hx : parseStartLine {} ⟨m.storage, m.text.take i, m.text.drop i ++ m.after⟩ with
    | error e =>
      rw [hx] at h
      cases h
    | ok q =>
      rw [hx, ok_bind, parseRest] at h
      have hrest := (parseHeadersBlock_path
        { q with state := .readingHeaders, parsedTotal := i + 2 }
        { m with text := m.text.drop (i + 2) }).bind fun b hb =>
          (parseBodyBlock_path b.1 b.2).mono fun r hr => hr.2.trans hb.2
      rw [h] at hrest
      have hiff : p.state = .readingRequestLine ↔
          HttpRequestState.readingHeaders = .readingRequestLine := hrest
      simp [hiff]

end HttpRequestParser

end TpAdvanced
