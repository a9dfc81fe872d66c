import TpAdvanced.Http.HeaderBlock
import TpAdvanced.Http.StartLine

/-!
# Messages with a complete head

A message whose head has arrived is a request line, header lines, a blank line, and so
much of a body as has come in.  A fresh parser takes it apart in this order; what
follows the head it looks at only for a method that takes a body, and only if there is
a Content-Length.

## Main definitions

* `messageText`, `IsHead` — a message in parts.
* `SendsBody` — the head of a message with a body.

## Main results

* `parse_messageText` — what `parse` does to a message with a complete head.
* `parse_of_sendsBody` — **the body is as long as `stoull` says.**
* `exists_messageText` — every text with a complete head is such a message.
-/

namespace TpAdvanced

open CText Outcome

/-- A request line, header lines, a blank line and what follows it. -/
def messageText (line : Bytes) (ls : List Bytes) (rest : Bytes) : Bytes :=
  line ++ crlf ++ (unlines ls ++ crlf ++ rest)

/-- Lines that make a head: at least one header line, and a colon in each. -/
structure IsHead (line : Bytes) (ls : List Bytes) : Prop where
  line : IsLine line
  lines_ne : ls ≠ []
  lines : ∀ l ∈ ls, IsLine l ∧ 58 ∈ l

/-- A line with a colon is not empty. -/
theorem IsHead.lines_ne_nil {line : Bytes} {ls : List Bytes} (h : IsHead line ls) :
    ∀ l ∈ ls, IsLine l ∧ l ≠ [] :=
  fun l hl => ⟨(h.lines l hl).1, List.ne_nil_of_mem (h.lines l hl).2⟩

/-- The head of a POST or a PUT, as far as the parser tells, with the text that its table
of headers has under Content-Length. -/
structure SendsBody [StdHash] (line : Bytes) (ls : List Bytes) (length : Bytes) : Prop where
  head : IsHead line ls
  accepted : ∃ m word target v, HttpMethod.text m <+: word ∧
    SplitsInto line word target (HttpVersion.text v) ∧ WellFormedTarget target ∧
      (m = .post ∨ m = .put)
  length : Headers.find (ls.map headerPair) (ascii "Content-Length") = some length

/-- **Every text with a complete head** is a message in parts. -/
theorem exists_messageText {text : Bytes} {i j : ℕ} (hi : List.findSub crlf text = some i)
    (hj : List.findSub crlfcrlf (text.drop (i + 2)) = some j) :
    ∃ line ls rest, text = messageText line ls rest ∧ text.take i = line ∧ IsLine line ∧
      ls ≠ [] ∧ (∀ l ∈ ls, IsLine l) ∧ (text.drop (i + 2)).take (j + 2) = unlines ls := by
  have htext := List.eq_append_of_findSub hi
  have hblank := List.eq_append_of_findSub hj
  have hblock : (text.drop (i + 2)).take (j + 2) =
      unlines (splitLines ((text.drop (i + 2)).take j)) := by
    obtain ⟨t, ht⟩ := List.prefix_drop_of_findSub hj
    rw [unlines_splitLines, List.take_add, ← ht]
    rfl
  refine ⟨text.take i, splitLines ((text.drop (i + 2)).take j), (text.drop (i + 2)).drop (j + 4),
    ?_, rfl, isLine_take hi, splitLines_ne_nil _, fun l hl => isLine_of_mem_splitLines hl, hblock⟩
  rw [messageText, unlines_splitLines, List.append_assoc, List.append_assoc, List.append_assoc]
  rw [show crlfcrlf = crlf ++ crlf from rfl, List.append_assoc] at hblank
  exact htext.trans (congrArg (fun t => text.take i ++ (crlf ++ t)) hblank)

namespace HttpRequestParser

variable [StdHash]

/-- **A message with a complete head.** -/
theorem parse_messageText {line : Bytes} {ls : List Bytes} (hhead : IsHead line ls) (rest : Bytes)
    (storage : ℕ) (after : Bytes) : ∃ n, n + 4 = (unlines ls ++ crlf).length ∧
      parse {} ⟨storage, messageText line ls rest, after⟩ =
        parseStartLine {} ⟨storage, line, crlf ++ (unlines ls ++ crlf ++ rest) ++ after⟩ >>=
          fun p => startBody { p with
            state := .readingHeaders
            parsedTotal := line.length + 2
            headers := p.headers.insertAll (ls.map headerPair) } n
              ⟨storage, unlines ls ++ crlf ++ rest, after⟩ >>= fun b => b.1.parseBodyBlock b.2 := by
  obtain ⟨n, hlen, hblank⟩ := findSub_crlfcrlf_unlines hhead.lines_ne hhead.lines_ne_nil rest
  refine ⟨n, by rw [List.length_append, hlen]; rfl, ?_⟩
  let m : StringView := ⟨storage, messageText line ls rest, after⟩
  have hline : m.find crlf = some line.length := findSub_crlf_append hhead.line _
  have htake : m.text.take line.length = line := by
    change (line ++ crlf ++ _).take _ = _
    rw [List.append_assoc, List.take_left]
  have hdrop : m.text.drop line.length = crlf ++ (unlines ls ++ crlf ++ rest) := by
    change (line ++ crlf ++ _).drop _ = _
    rw [List.append_assoc, List.drop_left]
  have hdrop₂ : m.text.drop (line.length + 2) = unlines ls ++ crlf ++ rest := by
    rw [← List.drop_drop, hdrop]
    rfl
  have hparse := parse_fresh_some hline
  rw [htake, hdrop, hdrop₂] at hparse
  refine hparse.trans ?_
  congr 1
  funext p
  let m₁ : StringView := ⟨storage, unlines ls ++ crlf ++ rest, after⟩
  have hfind : m₁.find crlfcrlf = some n := hblank
  have htext : m₁.text.take (n + 2) = unlines ls := by
    change (unlines ls ++ crlf ++ rest).take (n + 2) = unlines ls
    rw [← hlen, List.append_assoc, List.take_left]
  have hheaders : ∀ p : HttpRequestParser,
      p.parseHeaders ⟨storage, m₁.text.take (n + 2), m₁.text.drop (n + 2) ++ after⟩ =
        .ok { p with headers := p.headers.insertAll (ls.map headerPair) } := by
    intro p
    rw [parseHeaders_eq (fun l hl => (hhead.lines l hl).1) p htext, headersResult,
      if_pos fun l hl => (hhead.lines l hl).2]
  rw [parseRest, parseHeadersBlock_some rfl hfind, hheaders]
  rfl

/-- Behind the head of a message with a body. -/
theorem startBody_length {p : HttpRequestParser} (hmethod : p.method = .post ∨ p.method = .put)
    {length : Bytes} (hfind : p.headers.find (ascii "Content-Length") = some length)
    {message : StringView} {front rest : Bytes} (hm : message.text = front ++ rest) {n : ℕ}
    (hn : n + 4 = front.length) :
    (∀ e, toLength length = .error e →
      (p.startBody n message >>= fun b => b.1.parseBodyBlock b.2) = .error e) ∧
    ∀ k, toLength length = .ok k →
      ∃ q, (p.startBody n message >>= fun b => b.1.parseBodyBlock b.2) = .ok q ∧
        if k ≤ rest.length then q.state = .done ∧ q.body.text = rest.take k
        else q.state = .readingBody := by
  have hget : ¬ (p.method = .get ∨ p.method = .delete) := by
    rcases hmethod with h | h <;> simp [h]
  rw [startBody, if_neg hget, hfind]
  refine ⟨fun e he => ?_, fun k hk => ?_⟩
  · simp only [he]
    rfl
  · simp only [hk, ok_bind, removePrefix_front hm hn]
    by_cases hle : k ≤ rest.length
    · exact ⟨_, parseBodyBlock_some rfl hle, by rw [if_pos hle]; exact ⟨rfl, rfl⟩⟩
    · exact ⟨_, parseBodyBlock_short (Nat.lt_of_not_le hle), by rw [if_neg hle]⟩

/-- **The body is as long as `stoull` says**, and what `stoull` throws passes through. -/
theorem parse_of_sendsBody {line : Bytes} {ls : List Bytes} {length : Bytes}
    (h : SendsBody line ls length) (rest : Bytes) (storage : ℕ) (after : Bytes) :
    (∀ e, toLength length = .error e →
      parse {} ⟨storage, messageText line ls rest, after⟩ = .error e) ∧
    ∀ k, toLength length = .ok k →
      ∃ q, parse {} ⟨storage, messageText line ls rest, after⟩ = .ok q ∧
        if k ≤ rest.length then q.state = .done ∧ q.body.text = rest.take k
        else q.state = .readingBody := by
  obtain ⟨m, word, target, v, hbegins, hsplit, htarget, hm⟩ := h.accepted
  obtain ⟨n, hn, hparse⟩ := parse_messageText h.head rest storage after
  obtain ⟨path, -, -, hline⟩ := @parseStartLine_accepts _ {}
    ⟨storage, line, crlf ++ (unlines ls ++ crlf ++ rest) ++ after⟩ _ _ _ _ hsplit hbegins htarget
  rw [hparse, hline, ok_bind]
  refine startBody_length hm ?_ (List.append_assoc _ _ _ ▸ rfl) hn
  rw [Headers.find_insertAll]
  exact h.length

end HttpRequestParser

end TpAdvanced
