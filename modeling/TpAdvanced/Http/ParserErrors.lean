import TpAdvanced.Http.BodyLength
import TpAdvanced.Http.ConnectionHandler

/-!
# What the parser throws

`parse` throws a `ParsingException` for everything its own code refuses, and
`operator()` answers that with the status code it carries.  But the Content-Length is
read by `std::stoull`, and what `stoull` throws is no `ParsingException`: it leaves
`parse`, and it leaves `operator()` without an answer.

## Main definitions

* `Answered` — `operator()` answers the exception and returns.
* `UnreadableLength` — a complete head whose Content-Length `stoull` refuses.

## Main results

* `parse_error` — what a fresh parser throws.
* `answered_iff` — **which texts can only be rejected with an answer.**
-/

namespace TpAdvanced

open CText Outcome Machine HttpRequestParser

/-! ### The answer -/

/-- The handler that gets this exception from `readRequest` writes a response with its
status code, and returns when that has been written. -/
def Answered [StdHash] (e : Thrown) : Prop :=
  ∃ message code, e = .parsingException message code ∧
    ∀ (h : ConnectionHandler) (buff : ReadBuff) (chunks : List ℕ), (∀ n ∈ chunks, 0 < n) →
      (h.afterReadRequest (.threw e buff)).handler.writeBuff =
          (HttpResponse.setStatusCode {} code).dump ∧
        (chunks.sum = (HttpResponse.setStatusCode {} code).dump.length →
          ∃ h', run HandlerState.step (h.afterReadRequest (.threw e buff))
            (chunks.map HandlerEvent.wrote) = some ⟨h', .returned⟩)

variable [StdHash]

/-- Writing the rest of a rejection. -/
theorem run_wrote (h : ConnectionHandler) (chunks : List ℕ) : (∀ n ∈ chunks, 0 < n) →
    ∀ {written : ℕ}, written + chunks.sum = h.writeBuff.length →
      run HandlerState.step (h.continueWrite .rejection written) (chunks.map HandlerEvent.wrote) =
        some ⟨h, .returned⟩ := by
  induction chunks with
  | nil =>
    intro _ written hsum
    rw [ConnectionHandler.continueWrite, if_pos (by simpa using hsum)]
    rfl
  | cons n chunks ih =>
    intro hpos written hsum
    rw [List.sum_cons] at hsum
    have hn : 0 < n := hpos n List.mem_cons_self
    have hle : written + n ≤ h.writeBuff.length := by omega
    have hopen : h.continueWrite .rejection written = ⟨h, .writing .rejection written⟩ :=
      if_neg (by omega)
    have hstep : HandlerState.step ⟨h, .writing .rejection written⟩ (.wrote n) =
        some (h.continueWrite .rejection (written + n)) := if_pos ⟨hn, hle⟩
    rw [hopen, List.map_cons, run_cons hstep]
    exact ih (fun k hk => hpos k (List.mem_cons_of_mem n hk)) (by omega)

omit [StdHash] in
theorem handler_continueWrite (h : ConnectionHandler) (written : ℕ) :
    (h.continueWrite .rejection written).handler = h := by
  unfold ConnectionHandler.continueWrite
  split <;> rfl

/-- **A `ParsingException` is answered.** -/
theorem answered_parsingException (message : String) (code : HttpStatusCode) :
    Answered (.parsingException message code) := by
  refine ⟨message, code, rfl, fun h buff chunks hpos => ?_⟩
  let dump := (HttpResponse.setStatusCode {} code).dump
  let h' : ConnectionHandler :=
    { ({ h with readBuff := buff }).turnToWriting with writeBuff := dump }
  have hafter : h.afterReadRequest (.threw (.parsingException message code) buff) =
      h'.continueWrite .rejection 0 := rfl
  rw [hafter, handler_continueWrite]
  exact ⟨rfl, fun hsum => ⟨h', run_wrote h' chunks hpos (by rw [Nat.zero_add, hsum])⟩⟩

/-! ### What is thrown -/

/-- The text has a complete head, with a Content-Length that `stoull` refuses. -/
def UnreadableLength (text : Bytes) : Prop :=
  ∃ line ls length rest, text = messageText line ls rest ∧ SendsBody line ls length ∧
    ∀ n, stoull length ≠ .ok n

theorem UnreadableLength.mono {s t : Bytes} (hst : s <+: t) (h : UnreadableLength s) :
    UnreadableLength t := by
  obtain ⟨line, ls, length, rest, rfl, hsends, hbad⟩ := h
  obtain ⟨u, rfl⟩ := hst
  exact ⟨line, ls, length, rest ++ u, by simp [messageText], hsends, hbad⟩

omit [StdHash] in
theorem exists_toLength_error {v : Bytes} (h : ∀ n, stoull v ≠ .ok n) :
    ∃ e, toLength v = .error e := by
  unfold toLength
  split
  · rename_i n hn
    exact absurd hn (h n)
  · exact ⟨_, rfl⟩
  · exact ⟨_, rfl⟩

/-- There is no body to read the length of. -/
theorem startBody_done {p : HttpRequestParser} (h : ¬ ((p.method = .post ∨ p.method = .put) ∧
    ∃ length, p.headers.find (ascii "Content-Length") = some length)) (n : ℕ)
    (message : StringView) :
    p.startBody n message = .ok ({ p with state := .done }, message) := by
  unfold startBody
  split
  · rfl
  · rename_i hget
    have hmethod : p.method = .post ∨ p.method = .put := by
      cases hm : p.method <;> simp_all
    cases hfind : p.headers.find (ascii "Content-Length") with
    | none => rfl
    | some length => exact absurd ⟨hmethod, length, hfind⟩ h

/-- **What is thrown behind a good request line.** -/
theorem parse_messageText_error {line : Bytes} {ls : List Bytes} (hhead : IsHead line ls)
    {m : HttpMethod} {word target : Bytes} {v : HttpVersion} (hbegins : m.text <+: word)
    (hsplit : SplitsInto line word target v.text) (htarget : WellFormedTarget target)
    {rest : Bytes} {storage : ℕ} {after : Bytes} {e : Thrown}
    (h : parse {} ⟨storage, messageText line ls rest, after⟩ = .error e) :
    UnreadableLength (messageText line ls rest) := by
  by_cases hbody : (m = .post ∨ m = .put) ∧
      ∃ length, Headers.find (ls.map headerPair) (ascii "Content-Length") = some length
  · obtain ⟨hm, length, hlength⟩ := hbody
    have hsends : SendsBody line ls length :=
      ⟨hhead, ⟨m, word, target, v, hbegins, hsplit, htarget, hm⟩, hlength⟩
    refine ⟨line, ls, length, rest, rfl, hsends, fun n hn => ?_⟩
    have hread : toLength length = .ok n := by rw [toLength, hn]
    obtain ⟨q, hq, -⟩ := (parse_of_sendsBody hsends rest storage after).2 n hread
    rw [hq] at h
    cases h
  · obtain ⟨n, -, hparse⟩ := parse_messageText hhead rest storage after
    obtain ⟨path, -, -, hline⟩ := @parseStartLine_accepts _ {}
      ⟨storage, line, crlf ++ (unlines ls ++ crlf ++ rest) ++ after⟩ _ _ _ _ hsplit hbegins htarget
    have hfind : Headers.find (Headers.insertAll [] (ls.map headerPair)) (ascii "Content-Length") =
        Headers.find (ls.map headerPair) (ascii "Content-Length") := Headers.find_insertAll ..
    rw [← hfind] at hbody
    rw [hparse, hline, ok_bind, startBody_done hbody, ok_bind, parseBodyBlock_of_ne (by simp)] at h
    cases h

/-- **What a fresh parser throws** is a `ParsingException`, unless it has read a complete
head with a Content-Length that cannot be read. -/
theorem parse_error {m : StringView} {e : Thrown} (h : parse {} m = .error e) :
    (∃ message code, e = .parsingException message code) ∨ UnreadableLength m.text := by
  obtain ⟨storage, text, after⟩ := m
  cases hi : StringView.find ⟨storage, text, after⟩ crlf with
  | none =>
    rw [parse_fresh_none hi] at h
    cases h
  | some i =>
    have hparse := parse_fresh_some hi
    by_cases hgood : ∃ m word target v, HttpMethod.text m <+: word ∧
        SplitsInto (text.take i) word target (HttpVersion.text v) ∧ WellFormedTarget target
    · obtain ⟨method, word, target, v, hbegins, hsplit, htarget⟩ := hgood
      obtain ⟨path, -, -, hline⟩ := @parseStartLine_accepts _ {}
        ⟨storage, text.take i, text.drop i ++ after⟩ _ _ _ _ hsplit hbegins htarget
      rw [hline, ok_bind, parseRest] at hparse
      cases hj : StringView.find ⟨storage, text.drop (i + 2), after⟩ crlfcrlf with
      | none =>
        rw [hparse, parseHeadersBlock_none hj, ok_bind, parseBodyBlock_of_ne (by simp)] at h
        cases h
      | some j =>
        obtain ⟨line, ls, rest, rfl, htake, hisline, hne, hlines, hblock⟩ :=
          exists_messageText hi hj
        rw [htake] at hsplit
        by_cases hcolon : ∀ l ∈ ls, 58 ∈ l
        · exact .inr (parse_messageText_error ⟨hisline, hne, fun l hl => ⟨hlines l hl, hcolon l hl⟩⟩
            hbegins hsplit htarget h)
        · -- a line without a colon
          rw [hparse, parseHeadersBlock_some (by rfl) hj, parseHeaders_eq hlines _ hblock,
            headersResult, if_neg hcolon] at h
          cases h
          exact .inl ⟨_, _, rfl⟩
    · obtain ⟨message, code, hline, -⟩ := @parseStartLine_rejects _ {}
        ⟨storage, text.take i, text.drop i ++ after⟩ hgood
      rw [hparse, hline] at h
      cases h
      exact .inl ⟨message, code, rfl⟩

/-- **A call on growing prefixes** does what a fresh parser does. -/
theorem feedCalls_agree {ms : List StringView}
    (hchain : ms.IsChain fun m m' => m.text <+: m'.text) :
    ∀ c ∈ feedCalls parse isDone {} ms, Agree SameContents (c.1.parse c.2) (parse {} c.2) :=
  resumable_parse.feedCalls_of_reached
    (fun {_ m'} {_ _} hle hs hopen hR =>
      (resumable_parse.congr m' hR).trans sameContents_equivalence
        (resumable_parse.resume hle hs hopen))
    (isChain_cons_nil hchain) (parse_nil 0 []) rfl (sameContents_equivalence.refl {})

/-- **Whatever is refused is answered**, however the text arrives, exactly if the text
has no complete head with a Content-Length that `stoull` refuses. -/
theorem answered_iff (s : Bytes) :
    (∀ ms : List StringView, (ms.IsChain fun m m' => m.text <+: m'.text) →
      (∀ m ∈ ms, m.text <+: s) →
        ∀ c ∈ feedCalls parse isDone {} ms, ∀ e, c.1.parse c.2 = .error e → Answered e) ↔
      ¬ UnreadableLength s := by
  constructor
  · rintro h ⟨line, ls, length, rest, rfl, hsends, hbad⟩
    obtain ⟨e, he⟩ := exists_toLength_error hbad
    have hthrow := (parse_of_sendsBody hsends rest 0 []).1 e he
    obtain ⟨message, code, rfl, -⟩ := h [⟨0, messageText line ls rest, []⟩] (.singleton _)
      (by simp) _ List.mem_cons_self e hthrow
    rcases toLength_error he with he' | he' <;> cases he'
  · intro hread ms hchain hms c hc e he
    have hagree := feedCalls_agree hchain c hc
    rw [he] at hagree
    rcases parse_error hagree.eq_error with ⟨message, code, rfl⟩ | hbad
    · exact answered_parsingException message code
    · exact absurd (hbad.mono (hms c.2 (mem_of_mem_feedCalls hc))) hread

omit [StdHash] in
/-- A length that is no number ends the connection without an answer. -/
theorem worded_length_unanswered :
    ¬ ∀ (_ : StdHash) (s : Bytes) (ms : List StringView),
      (ms.IsChain fun m m' => m.text <+: m'.text) → (∀ m ∈ ms, m.text <+: s) →
        ∀ c ∈ feedCalls parse isDone {} ms, ∀ e, c.1.parse c.2 = .error e → Answered e := by
  intro h
  let _ := polynomialHash
  let s := messageText (ascii "POST /k HTTP/1.1") [ascii "Content-Length: two"] []
  have hthrow : parse {} ⟨0, s, []⟩ = .error .invalidArgument := by decide +kernel
  obtain ⟨message, code, hcode, -⟩ := h polynomialHash s [⟨0, s, []⟩] (.singleton _) (by simp) _
    List.mem_cons_self _ hthrow
  cases hcode

end TpAdvanced
