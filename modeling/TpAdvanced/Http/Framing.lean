import TpAdvanced.Http.ConnectionHandler

/-!
# Where a response ends

On a connection that is kept open a client finds the end of a response by its
Content-Length header.  This file reads the bytes `operator()` writes for a
response the way a client does (`Framed`) and determines which builder calls of
the callback lead to bytes that can be read: the library writes what the calls
put into the response, and adds no length of its own.

## Main definitions

* `Framed` — one Content-Length header, and it gives the length of what follows.
* `HandlerState.sent` — the bytes written in a run.
* `OneLength` — the calls determine the length exactly once.

## Main results

* `sent_response` — a response that is followed by another read was sent whole.
* `framed_dump_iff` — the framing of a response, from its header lines.
* `framed_sent_iff` — **the bytes of a kept connection are framed exactly when the
  builder calls are right.**
-/

namespace TpAdvanced

open CText Machine

/-! ### What a client reads -/

/-- A space or a tab. -/
def isBlank (b : UInt8) : Bool := b == 32 || b == 9

/-- The text without blanks at its ends. -/
def trimBlank (s : Bytes) : Bytes := ((s.dropWhile isBlank).reverse.dropWhile isBlank).reverse

/-- The text is the decimal form of `n`, up to blanks and leading zeros. -/
def Denotes (s : Bytes) (n : ℕ) : Prop :=
  trimBlank s ≠ [] ∧ (∀ b ∈ trimBlank s, isDigit b = true) ∧ digitsValue (trimBlank s) = n

instance (s : Bytes) (n : ℕ) : Decidable (Denotes s n) := inferInstanceAs (Decidable (_ ∧ _ ∧ _))

/-- The line is a Content-Length header. -/
def isContentLength (line : Bytes) : Bool :=
  line.contains 58 && (line.takeWhile (· ≠ 58)).map tolower == ascii "content-length"

/-- The text behind the first colon. -/
def fieldValue (line : Bytes) : Bytes := (line.dropWhile (· ≠ 58)).drop 1

/-- Among the header lines there is one Content-Length, and it says `n`. -/
def Announces (lines : List Bytes) (n : ℕ) : Prop :=
  ∃ l, lines.filter isContentLength = [l] ∧ Denotes (fieldValue l) n

/-- The bytes are a response with exactly one Content-Length header, whose value is
the number of bytes behind the blank line. -/
def Framed (bytes : Bytes) : Prop :=
  ∃ status lines body, readHead bytes = some (status :: lines, body) ∧ Announces lines body.length

/-! ### What `dump` writes -/

/-- The header lines on the wire: a text that holds a CRLF makes several. -/
def wireLines (headers : List (Bytes × Bytes)) : List Bytes :=
  headers.flatMap fun h => splitLines (headerLine h)

theorem unlines_wireLines (headers : List (Bytes × Bytes)) :
    unlines (wireLines headers) = headers.flatMap fun h => headerLine h ++ crlf := by
  induction headers with
  | nil => rfl
  | cons h headers ih =>
    rw [wireLines, List.flatMap_cons, unlines_append, unlines_splitLines, List.flatMap_cons]
    congr 1

theorem isLine_of_mem_wireLines {headers : List (Bytes × Bytes)} {l : Bytes}
    (hl : l ∈ wireLines headers) : IsLine l := by
  obtain ⟨h, -, hl⟩ := List.mem_flatMap.mp hl
  exact isLine_of_mem_splitLines hl

/-- The header lines announce the bytes behind them: those in front of the first
empty one have exactly one Content-Length, which says how many bytes follow. -/
def WellFramed (r : HttpResponse) : Prop :=
  Announces ((wireLines r.headers).takeWhile (· ≠ []))
    (behindBlank (wireLines r.headers) r.body).length

theorem isLine_of_notMem {l : Bytes} (h : 13 ∉ l) : IsLine l :=
  List.findSub_eq_none_of_notMem h

theorem statusLine_ne_nil (r : HttpResponse) : r.statusLine ≠ [] := by
  cases hv : r.version <;> simp [HttpResponse.statusLine, HttpVersion.text, hv, ascii]

theorem isLine_statusLine (r : HttpResponse) : IsLine r.statusLine := by
  have hversion : (13 : UInt8) ∉ r.version.text := by cases r.version <;> decide
  have hreason : (13 : UInt8) ∉ r.code.reasonPhraseOf := by
    cases r.code with
    | other value => exact List.not_mem_nil
    | _ => simp [HttpStatusCode.reasonPhraseOf, ascii]
  have hcode : (13 : UInt8) ∉ decimal r.code.value.toNat := by
    intro hmem
    have := all_isDigit_decimal _ _ hmem
    revert this
    decide
  apply isLine_of_notMem
  simp [HttpResponse.statusLine, hversion, hreason, hcode]

/-- **The framing of a response, from its header lines.** -/
theorem framed_dump_iff (r : HttpResponse) : Framed r.dump ↔ WellFramed r := by
  have hdump : r.dump = unlines (r.statusLine :: wireLines r.headers) ++ crlf ++ r.body := by
    rw [unlines_cons, unlines_wireLines]
    rfl
  have hlines : ∀ l ∈ r.statusLine :: wireLines r.headers, IsLine l := by
    intro l hl
    rcases List.mem_cons.mp hl with rfl | hl
    · exact isLine_statusLine r
    · exact isLine_of_mem_wireLines hl
  have hhead : readHead r.dump = some
      (r.statusLine :: (wireLines r.headers).takeWhile (· ≠ []),
        behindBlank (wireLines r.headers) r.body) := by
    rw [hdump, readHead_unlines hlines,
      List.takeWhile_cons_of_pos (by simpa using statusLine_ne_nil r), behindBlank,
      if_neg (statusLine_ne_nil r)]
  constructor
  · rintro ⟨status, lines, body, hread, hann⟩
    rw [hhead] at hread
    cases hread
    exact hann
  · intro hann
    exact ⟨_, _, _, hhead, hann⟩

/-! ### The bytes of a run -/

/-- The bytes a step hands to the socket. -/
def HandlerState.sentBy (s : HandlerState) (e : HandlerEvent) : Bytes :=
  match s.frame, e with
  | .writing _ written, .wrote n => (s.handler.writeBuff.drop written).take n
  | _, _ => []

/-- The bytes a run hands to the socket. -/
def HandlerState.sent [StdHash] : HandlerState → List HandlerEvent → Bytes
  | _, [] => []
  | s, e :: es => s.sentBy e ++ (s.step e).elim [] fun s' => s'.sent es

/-- The event belongs to `writeResponse`, or resumes the coroutine. -/
def HandlerEvent.isWrite : HandlerEvent → Bool
  | .wrote _ | .writeAgain _ | .writeReset | .writeFailed _ | .resumed => true
  | _ => false

section Runs

variable [StdHash]

theorem HandlerState.sent_cons {s s' : HandlerState} {e : HandlerEvent} {es : List HandlerEvent}
    (h : s.step e = some s') : s.sent (e :: es) = s.sentBy e ++ s'.sent es := by
  rw [HandlerState.sent, h]
  rfl

/-- Nothing is written at a `read`. -/
theorem run_of_reading {h : ConnectionHandler} {parser : HttpRequestParser} {readIdx : ℕ}
    {es : List HandlerEvent} {s' : HandlerState}
    (hrun : run HandlerState.step ⟨h, .reading parser readIdx⟩ es = some s')
    (hes : ∀ e ∈ es, e.isWrite = true) : es = [] := by
  cases es with
  | nil => rfl
  | cons e es =>
    obtain ⟨s₁, hs₁, -⟩ := run_cons_eq_some.mp hrun
    have he := hes e List.mem_cons_self
    cases HandlerState.rule_of_step hs₁ <;> cases he

/-- A run does not leave a state that answers to no event. -/
theorem run_of_stuck {s s' : HandlerState} {es : List HandlerEvent}
    (hstuck : ∀ e, s.step e = none) (hrun : run HandlerState.step s es = some s') : s' = s := by
  cases es with
  | nil =>
    cases hrun
    rfl
  | cons e es =>
    obtain ⟨s₁, hs₁, -⟩ := run_cons_eq_some.mp hrun
    rw [hstuck e] at hs₁
    cases hs₁

theorem step_returned (h : ConnectionHandler) (e : HandlerEvent) :
    HandlerState.step ⟨h, .returned⟩ e = none := by cases e <;> rfl

theorem step_threw (h : ConnectionHandler) (x : Thrown) (e : HandlerEvent) :
    HandlerState.step ⟨h, .threw x⟩ e = none := by cases e <;> rfl

/-- What a run that reads again has sent from here on: the rest of the response, on
a connection that is not to be closed. -/
def SendsRest (s : HandlerState) (es : List HandlerEvent) (shouldClose : Bool) (rest : Bytes) :
    Prop :=
  shouldClose = false ∧ s.sent es = rest

/-- The rest of the response, from the head of the loop in `writeResponse` on. -/
theorem sent_continueWrite {h : ConnectionHandler} {shouldClose : Bool} {written : ℕ}
    {es : List HandlerEvent} {s' : HandlerState}
    (hwriting : run HandlerState.step ⟨h, .writing (.response shouldClose) written⟩ es = some s' →
      SendsRest ⟨h, .writing (.response shouldClose) written⟩ es shouldClose
        (h.writeBuff.drop written))
    (hrun : run HandlerState.step (h.continueWrite (.response shouldClose) written) es = some s')
    (hframe : s'.frame = .reading {} 0) (hes : ∀ e ∈ es, e.isWrite = true) :
    SendsRest (h.continueWrite (.response shouldClose) written) es shouldClose
      (h.writeBuff.drop written) := by
  unfold ConnectionHandler.continueWrite at hrun ⊢
  split at hrun
  · rename_i hall
    rw [if_pos hall]
    cases shouldClose with
    | true =>
      rw [run_of_stuck (step_returned h) hrun] at hframe
      cases hframe
    | false =>
      obtain rfl := run_of_reading hrun hes
      refine ⟨rfl, ?_⟩
      rw [hall, List.drop_length]
      rfl
  · rename_i hmore
    rw [if_neg hmore]
    exact hwriting hrun

/-- **A response that is followed by another read was sent whole.** -/
theorem sent_writing (shouldClose : Bool) (es : List HandlerEvent) :
    ∀ (h : ConnectionHandler) (written : ℕ) (f : Frame) (s' : HandlerState),
    (f = .writing (.response shouldClose) written ∨
      f = .writeYield (.response shouldClose) written) →
    run HandlerState.step ⟨h, f⟩ es = some s' → s'.frame = .reading {} 0 →
    (∀ e ∈ es, e.isWrite = true) → SendsRest ⟨h, f⟩ es shouldClose (h.writeBuff.drop written) := by
  induction es with
  | nil =>
    intro h written f s' hf hrun hframe _
    cases hrun
    rcases hf with rfl | rfl <;> cases hframe
  | cons e es ih =>
    intro h written f s' hf hrun hframe hes
    obtain ⟨s₁, hs₁, hrest⟩ := run_cons_eq_some.mp hrun
    have hes' : ∀ e ∈ es, e.isWrite = true := fun e' he' => hes e' (List.mem_cons_of_mem e he')
    -- from a state that answers to nothing no read is reached
    have hnot : ∀ s, (∀ e, HandlerState.step s e = none) → s.frame ≠ .reading {} 0 →
        s₁ ≠ s := by
      rintro s hstuck hne rfl
      rw [run_of_stuck hstuck hrest] at hframe
      exact hne hframe
    rw [SendsRest, HandlerState.sent_cons hs₁]
    rcases hf with rfl | rfl
    · cases HandlerState.rule_of_step hs₁ with
      | wrote _ _ n hn =>
        obtain ⟨hopen, hsent⟩ := sent_continueWrite
          (fun hrun => ih h _ _ s' (.inl rfl) hrun hframe hes') hrest hframe hes'
        refine ⟨hopen, ?_⟩
        rw [hsent, ← List.drop_drop]
        exact List.take_append_drop n _
      | writeAgain _ _ now => exact ih _ written _ s' (.inr rfl) hrest hframe hes'
      | writeReset =>
        have hret : h.finishWrite (.response shouldClose) false = ⟨h, .returned⟩ := by
          cases shouldClose <;> rfl
        exact absurd hret (hnot _ (step_returned h) Frame.noConfusion)
      | writeFailed _ _ reason =>
        exact absurd rfl (hnot ⟨h, .threw (.writingException ("writing failed " ++ reason))⟩
          (step_threw h _) Frame.noConfusion)
    · cases HandlerState.rule_of_step hs₁ with
      | writeExpired =>
        exact absurd rfl (hnot ⟨h, .returned⟩ (step_returned h) Frame.noConfusion)
      | writeResumed =>
        exact sent_continueWrite (fun hrun => ih h _ _ s' (.inl rfl) hrun hframe hes') hrest
          hframe hes'

/-- What a connection that is kept open was sent for a response of the callback. -/
theorem sent_response {h : ConnectionHandler} {request request' : HttpRequest}
    {response : HttpResponse} {es : List HandlerEvent} {s' : HandlerState}
    (hrun : run HandlerState.step ⟨h, .calling request (shouldCloseAfterResponse request)⟩
      (.replied (.ok (response, request')) :: es) = some s')
    (hframe : s'.frame = .reading {} 0) (hes : ∀ e ∈ es, e.isWrite = true) :
    HandlerState.sent ⟨h, .calling request (shouldCloseAfterResponse request)⟩
      (.replied (.ok (response, request')) :: es) =
        (ConnectionHandler.prepareResponse false response request').dump := by
  generalize shouldCloseAfterResponse request = shouldClose at hrun ⊢
  obtain ⟨s₁, hs₁, hrest⟩ := run_cons_eq_some.mp hrun
  rw [HandlerState.sent_cons hs₁]
  cases hs₁
  obtain ⟨rfl, hsent⟩ := sent_continueWrite
    (fun hrun => sent_writing _ es _ _ _ s' (.inl rfl) hrun hframe hes) hrest hframe hes
  exact hsent

/-! ### Builder calls -/

/-- The headers a call adds by name. -/
def BuilderCall.addedHeaders : BuilderCall → List (Bytes × Bytes)
  | .addHeader key value => [(key, value)]
  | .addHeaders headers => headers
  | _ => []

/-- The body a call sets. -/
def BuilderCall.body? : BuilderCall → Option Bytes
  | .setBody body => some body
  | _ => none

/-- The header `setBody` adds. -/
def lengthHeader (body : Bytes) : Bytes × Bytes := (ascii "Content-Length", decimal body.length)

/-- The headers a call puts into the response. -/
def BuilderCall.headers (call : BuilderCall) : List (Bytes × Bytes) :=
  call.addedHeaders ++ (call.body?.map lengthHeader).toList

/-- The bodies set, in order. -/
def bodies (calls : List BuilderCall) : List Bytes := calls.filterMap BuilderCall.body?

/-- The Content-Length lines added by name. -/
def addedLengths (calls : List BuilderCall) : List Bytes :=
  ((calls.flatMap BuilderCall.addedHeaders).map headerLine).filter isContentLength

/-- The calls determine the length exactly once: by one `setBody` and no added
header, or by one added header, which says 0, and no `setBody`. -/
def OneLength (calls : List BuilderCall) : Prop :=
  (∃ body, bodies calls = [body]) ∧ addedLengths calls = [] ∨
    bodies calls = [] ∧ ∃ line, addedLengths calls = [line] ∧ Denotes (fieldValue line) 0

/-- No header text that is added holds a CRLF. -/
def CleanHeaders (calls : List BuilderCall) : Prop :=
  ∀ call ∈ calls, ∀ h ∈ call.addedHeaders, IsLine h.1 ∧ IsLine h.2

omit [StdHash] in
/-- What the calls leave in the response. -/
theorem foldl_apply (calls : List BuilderCall) : ∀ r : HttpResponse,
    (calls.foldl BuilderCall.apply r).headers = r.headers ++ calls.flatMap BuilderCall.headers ∧
      (calls.foldl BuilderCall.apply r).body = ((bodies calls).getLast?).getD r.body := by
  induction calls with
  | nil => intro r; simp [bodies]
  | cons call calls ih =>
    intro r
    rw [List.foldl_cons]
    obtain ⟨hheaders, hbody⟩ := ih (call.apply r)
    rw [hheaders, hbody]
    cases call with
    | setVersion version => exact ⟨rfl, rfl⟩
    | setStatusCode code => exact ⟨rfl, rfl⟩
    | addHeader key value => exact ⟨List.append_assoc _ _ _, rfl⟩
    | addHeaders headers =>
      refine ⟨?_, rfl⟩
      simp [BuilderCall.apply, HttpResponse.addHeaders, BuilderCall.headers,
        BuilderCall.addedHeaders, BuilderCall.body?]
    | setBody body =>
      refine ⟨List.append_assoc _ _ _, ?_⟩
      have hcons : bodies (.setBody body :: calls) = body :: bodies calls := rfl
      rw [hcons, List.getLast?_cons]
      rfl

end Runs

/-! ### Lines that announce a length -/

theorem trimBlank_of_notMem {s : Bytes} (h : ∀ b ∈ s, isBlank b = false) : trimBlank s = s := by
  have hfix : ∀ t : Bytes, (∀ b ∈ t, isBlank b = false) → t.dropWhile isBlank = t := by
    intro t ht
    cases t with
    | nil => rfl
    | cons b t => rw [List.dropWhile_cons_of_neg (by simp [ht b List.mem_cons_self])]
  rw [trimBlank, hfix s h, hfix s.reverse fun b hb => h b (List.mem_reverse.mp hb),
    List.reverse_reverse]

/-- A printed number denotes itself. -/
theorem denotes_decimal (n : ℕ) : Denotes (decimal n) n := by
  have htrim : trimBlank (decimal n) = decimal n := by
    refine trimBlank_of_notMem fun b hb => ?_
    have hspace := (ne_of_isDigit (all_isDigit_decimal n b hb)).2.1
    rw [isBlank, Bool.or_eq_false_iff, beq_eq_false_iff_ne, beq_eq_false_iff_ne]
    constructor
    · rintro rfl
      exact absurd hspace (by decide)
    · rintro rfl
      exact absurd hspace (by decide)
  rw [Denotes, htrim]
  exact ⟨decimal_ne_nil n, all_isDigit_decimal n, digitsValue_decimal n⟩

/-- The name in front of the colon of a header line. -/
theorem takeWhile_headerLine {k : Bytes} (hk : 58 ∉ k) (v : Bytes) :
    (headerLine (k, v)).takeWhile (· ≠ 58) = k ∧ fieldValue (headerLine (k, v)) = v := by
  have hall : ∀ b ∈ k, decide (b ≠ 58) = true := fun b hb => by
    simp only [ne_eq, decide_not, Bool.not_eq_eq_eq_not, Bool.not_true, decide_eq_false_iff_not]
    rintro rfl
    exact hk hb
  refine ⟨?_, ?_⟩
  · rw [headerLine, List.takeWhile_append_of_pos hall]
    simp
  · rw [fieldValue, headerLine, List.dropWhile_append_of_pos hall]
    simp

theorem isContentLength_lengthHeader (body : Bytes) :
    isContentLength (headerLine (lengthHeader body)) = true := by
  have hname := (takeWhile_headerLine (k := ascii "Content-Length") (by decide)
    (decimal body.length)).1
  rw [isContentLength, lengthHeader, hname]
  simp only [headerLine, List.contains_append, List.contains_cons, BEq.rfl, Bool.true_or,
    Bool.or_true, Bool.true_and]
  decide

/-- The Content-Length lines of the calls. -/
def lengthLines (calls : List BuilderCall) : List Bytes :=
  ((calls.flatMap BuilderCall.headers).map headerLine).filter isContentLength

theorem lengthLines_cons (call : BuilderCall) (calls : List BuilderCall) :
    lengthLines (call :: calls) =
      (call.addedHeaders.map headerLine).filter isContentLength ++
        (call.body?.map fun body => headerLine (lengthHeader body)).toList ++
          lengthLines calls := by
  rw [lengthLines, List.flatMap_cons, BuilderCall.headers, List.map_append, List.filter_append,
    List.map_append, List.filter_append]
  congr 2
  cases call.body? with
  | none => rfl
  | some body => simp [isContentLength_lengthHeader]

theorem addedLengths_cons (call : BuilderCall) (calls : List BuilderCall) :
    addedLengths (call :: calls) =
      (call.addedHeaders.map headerLine).filter isContentLength ++ addedLengths calls := by
  rw [addedLengths, List.flatMap_cons, List.map_append, List.filter_append]
  rfl

theorem bodies_cons (call : BuilderCall) (calls : List BuilderCall) :
    bodies (call :: calls) = call.body?.toList ++ bodies calls := by
  cases call <;> rfl

theorem length_lengthLines (calls : List BuilderCall) :
    (lengthLines calls).length = (addedLengths calls).length + (bodies calls).length := by
  induction calls with
  | nil => rfl
  | cons call calls ih =>
    rw [lengthLines_cons, addedLengths_cons, bodies_cons]
    simp only [List.length_append, Option.length_toList, Option.isSome_map, ih]
    omega

theorem lengthLines_of_bodies {calls : List BuilderCall} (h : bodies calls = []) :
    lengthLines calls = addedLengths calls := by
  induction calls with
  | nil => rfl
  | cons call calls ih =>
    rw [bodies_cons, List.append_eq_nil_iff] at h
    have hbody : call.body? = none := Option.toList_eq_nil_iff.mp h.1
    rw [lengthLines_cons, addedLengths_cons, ih h.2, hbody]
    simp

theorem lengthLines_of_addedLengths {calls : List BuilderCall} (h : addedLengths calls = []) :
    lengthLines calls = (bodies calls).map fun body => headerLine (lengthHeader body) := by
  induction calls with
  | nil => rfl
  | cons call calls ih =>
    rw [addedLengths_cons, List.append_eq_nil_iff] at h
    rw [lengthLines_cons, bodies_cons, ih h.2, h.1, List.map_append]
    cases call.body? <;> rfl

/-- **When the length lines of the calls announce the body they leave.** -/
theorem announces_iff (calls : List BuilderCall) :
    (∃ l, lengthLines calls = [l] ∧
        Denotes (fieldValue l) ((bodies calls).getLast?.getD []).length) ↔ OneLength calls := by
  constructor
  · rintro ⟨l, hl, hdenotes⟩
    have hlen := length_lengthLines calls
    rw [hl, List.length_singleton] at hlen
    cases hb : bodies calls with
    | nil =>
      refine .inr ⟨hb, l, ?_, ?_⟩
      · rw [← lengthLines_of_bodies hb, hl]
      · rwa [hb] at hdenotes
    | cons body rest =>
      rw [hb, List.length_cons] at hlen
      have hrest : rest = [] := List.length_eq_zero_iff.mp (by omega)
      have hadded : addedLengths calls = [] := List.length_eq_zero_iff.mp (by omega)
      exact .inl ⟨⟨body, by rw [hb, hrest]⟩, hadded⟩
  · rintro (⟨⟨body, hbody⟩, hadded⟩ | ⟨hbody, l, hadded, hdenotes⟩)
    · refine ⟨headerLine (lengthHeader body), ?_, ?_⟩
      · rw [lengthLines_of_addedLengths hadded, hbody]
        rfl
      · rw [hbody, lengthHeader, (takeWhile_headerLine (by decide) _).2]
        exact denotes_decimal body.length
    · refine ⟨l, ?_, ?_⟩
      · rw [lengthLines_of_bodies hbody, hadded]
      · rwa [hbody]

/-! ### From the calls to the wire -/

theorem headerLine_ne_nil (h : Bytes × Bytes) : headerLine h ≠ [] := by
  simp [headerLine]

/-- Headers without a CRLF are one line each. -/
theorem wireLines_of_clean {headers : List (Bytes × Bytes)}
    (h : ∀ e ∈ headers, IsLine e.1 ∧ IsLine e.2) : wireLines headers = headers.map headerLine := by
  induction headers with
  | nil => rfl
  | cons e headers ih =>
    obtain ⟨hk, hv⟩ := h e List.mem_cons_self
    have hline : IsLine (headerLine e) := isLine_append_cons hk hv (by decide) (by decide)
    rw [wireLines, List.flatMap_cons, splitLines_of_isLine hline, List.map_cons,
      ← ih fun e' he' => h e' (List.mem_cons_of_mem e he')]
    rfl

theorem wellFramed_of_clean {r : HttpResponse} (h : ∀ e ∈ r.headers, IsLine e.1 ∧ IsLine e.2) :
    WellFramed r ↔ Announces (r.headers.map headerLine) r.body.length := by
  have hne : ∀ l ∈ r.headers.map headerLine, l ≠ [] := by
    intro l hl
    obtain ⟨e, -, rfl⟩ := List.mem_map.mp hl
    exact headerLine_ne_nil e
  obtain ⟨htake, hbehind⟩ := behindBlank_of_ne hne r.body
  rw [WellFramed, wireLines_of_clean h, htake, hbehind]

/-- The headers `operator()` adds to those of the callback. -/
theorem prepareResponse_spec (response : HttpResponse) (request : HttpRequest) :
    (ConnectionHandler.prepareResponse false response request).body = response.body ∧
      ((ConnectionHandler.prepareResponse false response request).headers = response.headers ∨
        (ConnectionHandler.prepareResponse false response request).headers =
          response.headers ++ [(ascii "Connection", ascii "keep-alive")]) := by
  unfold ConnectionHandler.prepareResponse
  dsimp only
  split
  · exact ⟨rfl, .inr rfl⟩
  · exact ⟨rfl, .inl rfl⟩

theorem isLine_of_mem_headers {calls : List BuilderCall} (hclean : CleanHeaders calls) :
    ∀ e ∈ calls.flatMap BuilderCall.headers, IsLine e.1 ∧ IsLine e.2 := by
  intro e he
  obtain ⟨call, hcall, he⟩ := List.mem_flatMap.mp he
  rcases List.mem_append.mp he with he | he
  · exact hclean call hcall e he
  · obtain ⟨body, -, rfl⟩ := Option.mem_map.mp (Option.mem_toList.mp he)
    refine ⟨show IsLine (ascii "Content-Length") by decide, isLine_of_notMem fun hmem => ?_⟩
    exact absurd (ne_of_isDigit (all_isDigit_decimal _ _ hmem)).2.1 (by decide)

/-- **What the builder calls must be** for the response to be framed. -/
theorem wellFramed_build_iff {calls : List BuilderCall} (hclean : CleanHeaders calls)
    (request : HttpRequest) :
    WellFramed (ConnectionHandler.prepareResponse false (.build calls) request) ↔
      OneLength calls := by
  obtain ⟨hbody, hheaders⟩ := prepareResponse_spec (.build calls) request
  obtain ⟨hcalls, hlast⟩ := foldl_apply calls {}
  have hcalls' : (HttpResponse.build calls).headers = calls.flatMap BuilderCall.headers := hcalls
  have hlast' : (HttpResponse.build calls).body = ((bodies calls).getLast?).getD [] := hlast
  have hlines : ∀ e ∈ calls.flatMap BuilderCall.headers ++
      [(ascii "Connection", ascii "keep-alive")], IsLine e.1 ∧ IsLine e.2 := by
    intro e he
    rcases List.mem_append.mp he with he | he
    · exact isLine_of_mem_headers hclean e he
    · obtain rfl : e = (ascii "Connection", ascii "keep-alive") := List.mem_singleton.mp he
      decide
  -- the header for HTTP/1.0 is no Content-Length
  have hfilter : ((ConnectionHandler.prepareResponse false (.build calls) request).headers.map
      headerLine).filter isContentLength = lengthLines calls := by
    rcases hheaders with h | h
    · rw [h, hcalls']
      rfl
    · rw [h, hcalls', List.map_append, List.filter_append]
      exact List.append_nil _
  rw [wellFramed_of_clean, Announces, hfilter, hbody, hlast']
  · exact announces_iff calls
  · intro e he
    refine hlines e ?_
    rcases hheaders with h | h
    · rw [h, hcalls'] at he
      exact List.mem_append_left _ he
    · rwa [h, hcalls'] at he

section Runs

variable [StdHash]

/-- **When the bytes of a kept connection are framed**: exactly when the header lines
of the response announce its body, which, for header texts without a CRLF, they do
exactly when the builder calls determine the length once. -/
theorem framed_sent_iff {h : ConnectionHandler} {request request' : HttpRequest}
    {calls : List BuilderCall} {es : List HandlerEvent} {s' : HandlerState}
    (hrun : run HandlerState.step ⟨h, .calling request (shouldCloseAfterResponse request)⟩
      (.replied (.ok (.build calls, request')) :: es) = some s')
    (hframe : s'.frame = .reading {} 0) (hes : ∀ e ∈ es, e.isWrite = true) :
    (Framed (HandlerState.sent ⟨h, .calling request (shouldCloseAfterResponse request)⟩
        (.replied (.ok (.build calls, request')) :: es)) ↔
      WellFramed (ConnectionHandler.prepareResponse false (.build calls) request')) ∧
    (CleanHeaders calls →
      (Framed (HandlerState.sent ⟨h, .calling request (shouldCloseAfterResponse request)⟩
          (.replied (.ok (.build calls, request')) :: es)) ↔ OneLength calls)) := by
  have hframed := framed_dump_iff (ConnectionHandler.prepareResponse false (.build calls) request')
  rw [sent_response hrun hframe hes]
  exact ⟨hframed, fun hclean => hframed.trans (wellFramed_build_iff hclean request')⟩

end Runs

/-- A request that keeps its connection open. -/
def keptRequest : HttpRequest where
  headers := []
  queryParameters := []
  body := []
  path := some (ascii "/")
  version := .http1_1
  method := .get

/-- A handler at the callback for it. -/
def keptHandler : ConnectionHandler := .new (.ofList [.in_]) 1

/-- A body set once, written in two pieces with a suspension between them. -/
theorem framed_sent_setBody :
    letI := polynomialHash
    Framed (HandlerState.sent
      ⟨keptHandler, .calling keptRequest (shouldCloseAfterResponse keptRequest)⟩
      [.replied (.ok (.build [.setStatusCode .ok, .setBody (ascii "hi")], keptRequest)),
        .wrote 30, .writeAgain 5, .resumed, .wrote 9]) := by
  let _ := polynomialHash
  have hrun : run HandlerState.step
      ⟨keptHandler, .calling keptRequest (shouldCloseAfterResponse keptRequest)⟩
      [.replied (.ok (.build [.setStatusCode .ok, .setBody (ascii "hi")], keptRequest)),
        .wrote 30, .writeAgain 5, .resumed, .wrote 9] =
      some ⟨{ keptHandler with
        lastActivity := 5
        writeBuff := ascii "HTTP/1.1 200 OK\r\nContent-Length:2\r\n\r\nhi" }, .reading {} 0⟩ := by
    decide +kernel
  refine ((framed_sent_iff hrun rfl (by decide)).2 ?_).mpr (.inl ⟨⟨ascii "hi", rfl⟩, rfl⟩)
  simp [CleanHeaders, BuilderCall.addedHeaders]

/-- A response without a body, as for an unknown key: it has no Content-Length. -/
theorem sent_statusOnly_not_framed :
    ¬ ∀ (_ : StdHash) (h : ConnectionHandler) (request request' : HttpRequest)
      (calls : List BuilderCall) (es : List HandlerEvent) (s' : HandlerState),
      run HandlerState.step ⟨h, .calling request (shouldCloseAfterResponse request)⟩
        (.replied (.ok (.build calls, request')) :: es) = some s' →
      s'.frame = .reading {} 0 → (∀ e ∈ es, e.isWrite = true) →
      Framed (HandlerState.sent ⟨h, .calling request (shouldCloseAfterResponse request)⟩
        (.replied (.ok (.build calls, request')) :: es)) := by
  intro hall
  let _ := polynomialHash
  have hrun : run HandlerState.step
      ⟨keptHandler, .calling keptRequest (shouldCloseAfterResponse keptRequest)⟩
      [.replied (.ok (.build [.setStatusCode .notFound], keptRequest)), .wrote 26] =
      some ⟨{ keptHandler with writeBuff := ascii "HTTP/1.1 404 Not Found\r\n\r\n" },
        .reading {} 0⟩ := by
    decide +kernel
  have hframed := hall polynomialHash _ _ _ _ _ _ hrun rfl (by decide)
  rw [sent_response hrun rfl (by decide), framed_dump_iff] at hframed
  obtain ⟨l, hl, -⟩ := hframed
  cases hl

end TpAdvanced
