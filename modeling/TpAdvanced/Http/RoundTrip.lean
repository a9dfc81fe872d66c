import TpAdvanced.Http.MessageHead

/-!
# Parsing what was rendered

A fresh parser that is given the text of a request comes out done, with the
request the text stands for, and comes out unfinished on every proper beginning
of it.  The parser takes no body for a GET or a DELETE, so these are rendered
without one here.

## Main results

* `parseStartLine_render`, `parse_head` — the request line, and the whole head.
* `requestOf_render` — **the request comes back.**
* `parse_prefix_render` — a proper beginning is incomplete.
-/

namespace TpAdvanced

open CText Outcome HttpRequestParser

/-! ### The request line -/

theorem joinParameters_eq (qs : List QueryParameter) :
    joinParameters qs = joinPairs (qs.map QueryParameter.pair) := by
  induction qs with
  | nil => rfl
  | cons q qs ih =>
    cases qs with
    | nil => simp [joinParameters, joinPairs, QueryParameter.text, QueryParameter.pair]
    | cons q' qs =>
      rw [joinParameters, ih]
      simp [joinPairs, QueryParameter.text, QueryParameter.pair]

theorem joinParameters_ne_nil {qs : List QueryParameter} (h : qs ≠ []) :
    joinParameters qs ≠ [] := by
  match qs, h with
  | [q], _ => simp [joinParameters, QueryParameter.text]
  | q :: q' :: qs, _ => simp [joinParameters, QueryParameter.text]

/-- **The parameters of a query come back.** -/
theorem parameters_joinParameters {qs : List QueryParameter} (hne : qs ≠ []) :
    (∀ c ∈ components (joinParameters qs), 61 ∈ c) ∧
      parameters (joinParameters qs) = qs.map QueryParameter.pair := by
  rw [joinParameters_eq]
  refine parameters_joinPairs (by simpa using hne) fun p hp => ?_
  obtain ⟨q, -, rfl⟩ := List.mem_map.mp hp
  exact ⟨fun h => (q.name_clean 38 h).1 rfl, fun h => (q.name_clean 61 h).2.1 rfl,
    fun h => (q.value_clean 38 h).1 rfl⟩

namespace RequestText

/-- The target is cut at the question mark. -/
theorem cutAt_target (r : RequestText) :
    List.cutAt 63 r.target = (r.path, joinParameters (r.query.getD [])) := by
  have hmark : 63 ∉ r.path := fun h => (r.path_clean 63 h).1 rfl
  cases hq : r.query with
  | none => simpa [target, hq, joinParameters] using List.cutAt_of_notMem hmark
  | some qs => simpa [target, hq] using List.cutAt_append_cons hmark (joinParameters qs)

theorem wellFormedTarget (r : RequestText) : WellFormedTarget r.target where
  path_ne := by
    rw [cutAt_target]
    exact r.path_ne
  query := by
    rw [cutAt_target]
    intro hne
    refine (parameters_joinParameters ?_).1
    intro hnil
    rw [hnil] at hne
    exact hne rfl

theorem targetParameters_target (r : RequestText) :
    targetParameters r.target = (r.query.getD []).map QueryParameter.pair := by
  rw [targetParameters, cutAt_target, queryParametersOf]
  by_cases hnil : r.query.getD [] = []
  · rw [hnil]
    rfl
  · rw [if_neg (joinParameters_ne_nil hnil), (parameters_joinParameters hnil).2]

theorem splitsInto (r : RequestText) :
    SplitsInto r.requestLine r.method.text r.target r.version.text :=
  ⟨rfl, r.method.text_clean, r.notMem_target.1⟩

theorem isHead (r : RequestText) : IsHead r.requestLine (r.headers.map HeaderField.text) where
  line := List.findSub_eq_none_of_notMem r.notMem_requestLine
  lines_ne := fun h => r.headers_ne (List.map_eq_nil_iff.mp h)
  lines := HeaderField.lines_map_text r.headers

end RequestText

variable [StdHash]

namespace HttpRequestParser

/-- **The request line comes back.** -/
theorem parseStartLine_render (p : HttpRequestParser) (r : RequestText) {message : StringView}
    (hm : message.text = r.requestLine) :
    ∃ path : StringView, path.text = r.path ∧ p.parseStartLine message = .ok { p with
      method := r.method
      queryParameters :=
        Headers.insertAll p.queryParameters ((r.query.getD []).map QueryParameter.pair)
      path := path
      version := r.version } := by
  have hsplit : SplitsInto message.text r.method.text r.target r.version.text := hm ▸ r.splitsInto
  obtain ⟨path, hpath, -, hparse⟩ :=
    parseStartLine_accepts p hsplit (List.prefix_refl _) r.wellFormedTarget
  rw [r.targetParameters_target] at hparse
  exact ⟨path, by rw [hpath, r.cutAt_target], hparse⟩

/-! ### The whole request -/

/-- The parser takes no body for these methods, and the text has none. -/
def BodyAllowed (r : RequestText) : Prop :=
  r.method = .get ∨ r.method = .delete → r.body = []

instance (r : RequestText) : Decidable (BodyAllowed r) :=
  inferInstanceAs (Decidable (r.method = .get ∨ r.method = .delete → r.body = []))

/-- What follows a complete header block of a rendered request.  Nobody asks for the
length of a body that the method does not have. -/
theorem startBody_render {r : RequestText}
    (hlen : ¬ (r.method = .get ∨ r.method = .delete) → r.LengthAgrees) (hbody : BodyAllowed r)
    {p : HttpRequestParser} (hmethod : p.method = r.method) (hheaders : p.headers = r.headerTable)
    (hfresh : p.body.text = []) {message : StringView} {n : ℕ} {front : Bytes}
    (hm : message.text = front ++ r.body) (hn : n + 4 = front.length) :
    ∃ q, (p.startBody n message >>= fun b => b.1.parseBodyBlock b.2) = .ok q ∧ q.state = .done ∧
      q.headers = r.headerTable ∧ q.queryParameters = p.queryParameters ∧ q.body.text = r.body ∧
      q.path = p.path ∧ q.version = p.version ∧ q.method = r.method := by
  by_cases hget : p.method = .get ∨ p.method = .delete
  · have hnil : r.body = [] := hbody (hmethod ▸ hget)
    refine ⟨{ p with state := .done }, ?_, rfl, hheaders, rfl, by rw [hnil]; exact hfresh, rfl, rfl,
      hmethod⟩
    rw [startBody, if_pos hget, ok_bind]
    exact parseBodyBlock_of_ne (p := { p with state := .done }) (by simp) message
  · have hlen := hlen (hmethod ▸ hget)
    cases hfind : r.headerTable.find (ascii "Content-Length") with
    | none =>
      have hnil : r.body = [] := by simpa only [RequestText.LengthAgrees, hfind] using hlen
      refine ⟨{ p with state := .done }, ?_, rfl, hheaders, rfl, by rw [hnil]; exact hfresh, rfl,
        rfl, hmethod⟩
      have hfind' : p.headers.find (ascii "Content-Length") = none := by rw [hheaders, hfind]
      rw [startBody, if_neg hget, hfind']
      exact parseBodyBlock_of_ne (p := { p with state := .done }) (by simp) message
    | some v =>
      have hv : v = decimal r.body.length := by
        simpa only [RequestText.LengthAgrees, hfind] using hlen
      have hlength : toLength v = .ok r.body.length := by
        rw [toLength, hv, stoull_decimal r.body_lt]
      have hfind' : p.headers.find (ascii "Content-Length") = some v := by rw [hheaders, hfind]
      rw [startBody, if_neg hget, hfind']
      simp only [hlength, ok_bind, removePrefix_front hm hn]
      refine ⟨_, parseBodyBlock_some rfl le_rfl, rfl, hheaders, rfl, ?_, rfl, rfl, hmethod⟩
      exact List.take_length

/-- A rendered request whose body has not arrived completely. -/
theorem startBody_short {r : RequestText} (hlen : r.LengthAgrees) (hbody : BodyAllowed r)
    {p : HttpRequestParser} (hmethod : p.method = r.method) (hheaders : p.headers = r.headerTable)
    {message : StringView} {n : ℕ} {front b : Bytes} (hm : message.text = front ++ b)
    (hn : n + 4 = front.length) (hshort : b.length < r.body.length) :
    ∃ q, (p.startBody n message >>= fun b => b.1.parseBodyBlock b.2) = .ok q ∧
      q.isDone = false := by
  have hne : r.body ≠ [] := List.ne_nil_of_length_pos (by omega)
  have hget : ¬ (p.method = .get ∨ p.method = .delete) := fun h => hne (hbody (hmethod ▸ h))
  cases hfind : r.headerTable.find (ascii "Content-Length") with
  | none =>
    refine absurd ?_ hne
    simpa only [RequestText.LengthAgrees, hfind] using hlen
  | some v =>
    have hv : v = decimal r.body.length := by
      simpa only [RequestText.LengthAgrees, hfind] using hlen
    have hlength : toLength v = .ok r.body.length := by
      rw [toLength, hv, stoull_decimal r.body_lt]
    have hfind' : p.headers.find (ascii "Content-Length") = some v := by rw [hheaders, hfind]
    have hput : p.method = .post ∨ p.method = .put := by
      cases h : p.method <;> simp [h] at hget ⊢
    obtain ⟨q, hq, hstate⟩ := (startBody_length hput hfind' hm hn).2 _ hlength
    rw [if_neg (Nat.not_le_of_lt hshort)] at hstate
    exact ⟨q, hq, by simp [isDone, hstate]⟩

omit [StdHash] in
/-- Where the header block ends, whatever follows it. -/
theorem exists_blank_line (r : RequestText) : ∃ n, n + 4 = (r.headerBlock ++ crlf).length ∧
    ∀ b, List.findSub crlfcrlf (r.headerBlock ++ crlf ++ b) = some n := by
  obtain ⟨n, hblock, hblank⟩ :=
    findSub_crlfcrlf_unlines r.isHead.lines_ne r.isHead.lines_ne_nil []
  have hhead : r.headerBlock.length = n + 2 := hblock
  refine ⟨n, by simp [hhead, crlf], fun b => ?_⟩
  rw [List.append_nil] at hblank
  exact List.findSub_append hblank b

/-- A text that begins with the head of a rendered request: the parser gets to the
body, with the request's parts. -/
theorem parse_head (r : RequestText) (b : Bytes) :
    ∃ (n : ℕ) (p : HttpRequestParser), n + 4 = (r.headerBlock ++ crlf).length ∧
      p.method = r.method ∧ p.headers = r.headerTable ∧
      p.queryParameters = Headers.insertAll [] ((r.query.getD []).map QueryParameter.pair) ∧
      p.path.text = r.path ∧ p.version = r.version ∧ p.body.text = [] ∧
      parse {} ⟨0, r.requestLine ++ crlf ++ (r.headerBlock ++ crlf ++ b), []⟩ =
        p.startBody n ⟨0, r.headerBlock ++ crlf ++ b, []⟩ >>= fun b => b.1.parseBodyBlock b.2 := by
  obtain ⟨n, hn, hparse⟩ := parse_messageText r.isHead b 0 []
  obtain ⟨path, hpath, hstart⟩ := @parseStartLine_render _ {} r ⟨0, r.requestLine, _⟩ rfl
  rw [hstart, ok_bind, HeaderField.map_headerPair_text] at hparse
  exact ⟨n, _, hn, rfl, rfl, rfl, hpath, rfl, rfl, hparse⟩

/-- **A rendered request is parsed completely**, and its parts come back. -/
theorem parse_render {r : RequestText}
    (hlen : ¬ (r.method = .get ∨ r.method = .delete) → r.LengthAgrees) (hbody : BodyAllowed r) :
    ∃ p, parse {} ⟨0, r.render, []⟩ = .ok p ∧ p.isDone = true ∧
      p.buildRequest 0 = r.toRequest := by
  obtain ⟨n, p, hn, hmethod, hheaders, hquery, hpath, hversion, hfresh, hparse⟩ :=
    parse_head r r.body
  obtain ⟨q, hq, hstate, hqheaders, hqquery, hqbody, hqpath, hqversion, hqmethod⟩ :=
    @startBody_render _ r hlen hbody p hmethod hheaders hfresh
      ⟨0, r.headerBlock ++ crlf ++ r.body, []⟩ n (r.headerBlock ++ crlf) rfl hn
  have hrender : parse {} ⟨0, r.render, []⟩ = .ok q := hparse.trans hq
  refine ⟨q, hrender, by simp [isDone, hstate], ?_⟩
  have hpathText : q.path.text = r.path := by rw [hqpath, hpath]
  simp only [buildRequest, path_storage_of_fresh hrender, if_true, hqheaders, hqquery, hquery,
    hqbody, hpathText, hqversion, hversion, hqmethod, RequestText.toRequest]

theorem requestOf_render {r : RequestText} (hlen : r.LengthAgrees) (hbody : BodyAllowed r) :
    requestOf r.render = some r.toRequest := by
  obtain ⟨p, hp, hdone, hbuild⟩ := parse_render (fun _ => hlen) hbody
  simp only [requestOf, hp, hdone, if_true, hbuild]

/-- **A proper beginning of a rendered request is incomplete**, and no error. -/
theorem parse_prefix_render {r : RequestText} (hlen : r.LengthAgrees) (hbody : BodyAllowed r)
    {t : Bytes} (ht : t <+: r.render) (hne : t ≠ r.render) :
    ∃ p, parse {} ⟨0, t, []⟩ = .ok p ∧ p.isDone = false := by
  let m : StringView := ⟨0, t, []⟩
  cases hi : m.find crlf with
  | none => exact ⟨{}, parse_fresh_none hi, rfl⟩
  | some i =>
    have hirender : List.findSub crlf r.render = some i := List.findSub_of_prefix ht hi
    rw [r.findSub_crlf_render] at hirender
    cases hirender
    have hile : r.requestLine.length + 2 ≤ t.length := List.findSub_add_length_le hi
    -- the request line has arrived, so `t` continues into the rest
    obtain ⟨u, rfl⟩ : r.requestLine ++ crlf <+: t := by
      refine List.prefix_of_prefix_length_le (List.prefix_append _ _) ht ?_
      simpa [crlf] using hile
    have hu : u <+: r.headerBlock ++ crlf ++ r.body := by
      have ht' : r.requestLine ++ crlf ++ u <+: r.requestLine ++ crlf ++
        (r.headerBlock ++ crlf ++ r.body) := ht
      exact (List.prefix_append_right_inj _).mp ht'
    obtain ⟨n, hn, hblank⟩ := exists_blank_line r
    cases hj : List.findSub crlfcrlf u with
    | none =>
      have htake : m.text.take r.requestLine.length = r.requestLine := by
        change (r.requestLine ++ crlf ++ u).take _ = _
        rw [List.append_assoc, List.take_left]
      have hdrop : m.text.drop (r.requestLine.length + 2) = u := by
        change (r.requestLine ++ crlf ++ u).drop _ = _
        rw [List.drop_left' (by simp [crlf])]
      obtain ⟨path, -, hstart⟩ := @parseStartLine_render _ {} r
        ⟨0, m.text.take r.requestLine.length, m.text.drop r.requestLine.length ++ []⟩ htake
      have hnone : StringView.find ⟨0, u, []⟩ crlfcrlf = none := hj
      have hparse := parse_fresh_some hi
      rw [hstart, ok_bind, hdrop, parseRest, parseHeadersBlock_none hnone, ok_bind,
        parseBodyBlock_of_ne HttpRequestState.noConfusion] at hparse
      exact ⟨_, hparse, rfl⟩
    | some j =>
      have hjle : j + 4 ≤ u.length := List.findSub_add_length_le hj
      have hjn : some j = some n := (List.findSub_of_prefix hu hj).symm.trans (hblank r.body)
      cases hjn
      obtain ⟨b, rfl⟩ : r.headerBlock ++ crlf <+: u :=
        List.prefix_of_prefix_length_le (List.prefix_append _ _) hu (by omega)
      have hb : b <+: r.body := (List.prefix_append_right_inj _).mp hu
      have hshort : b.length < r.body.length := by
        rcases Nat.lt_or_eq_of_le hb.length_le with hlt | heq
        · exact hlt
        · refine absurd ?_ hne
          rw [hb.eq_of_length heq]
          rfl
      obtain ⟨n', p, hn', hmethod, hheaders, -, -, -, -, hparse⟩ := parse_head r b
      obtain ⟨q, hq, hopen⟩ := @startBody_short _ r hlen hbody p hmethod hheaders
        ⟨0, r.headerBlock ++ crlf ++ b, []⟩ n' (r.headerBlock ++ crlf) b rfl hn' hshort
      exact ⟨q, hparse.trans hq, hopen⟩

end HttpRequestParser

end TpAdvanced
