import TpAdvanced.Http.ConnectionHandler
import TpAdvanced.Http.ParserProgress

/-!
# What `readRequest` returns

`readRequest` hands the parser one byte more than it has received: the byte that
lies behind the received ones in the buffer, left there by an earlier request, or
the terminating NUL.  As long as that byte is not one the parser waits for, or
is the byte that arrives next anyway, it leaves no trace (`Harmless`).  The other
danger is a buffer that is reallocated once the request line has been parsed:
`path_` still points into the old storage (`Regrows`).

## Main definitions

* `received` — the bytes a list of `read` results delivers.
* `ReturnsReceived` — the request returned is the one just received.
* `Harmless`, `Regrows`, `Undisturbed` — the conditions on a pass of the loop.

## Main results

* `afterRead_agree` — the parser stands where a fresh one would.
* `readRequest_iff` — **`readRequest` returns what it received exactly when it is
  undisturbed.**
-/

namespace TpAdvanced

open CText Outcome Machine HttpRequestParser

/-! ### Received bytes -/

/-- The bytes a `read` delivers. -/
def ReadResult.bytes : ReadResult → Bytes
  | .data d => d
  | _ => []

/-- The bytes a list of `read`s delivers. -/
def received (reads : List ReadResult) : Bytes := reads.flatMap ReadResult.bytes

@[simp] theorem received_nil : received [] = [] := rfl

@[simp] theorem received_cons (x : ReadResult) (reads : List ReadResult) :
    received (x :: reads) = x.bytes ++ received reads := rfl

theorem received_append (reads reads' : List ReadResult) :
    received (reads ++ reads') = received reads ++ received reads' := List.flatMap_append

namespace Reading

/-- The received bytes, which lie at the front of the buffer. -/
def text (r : Reading) : Bytes := r.buff.data.take r.readIdx

/-- The byte behind them. -/
def behind (r : Reading) : UInt8 := r.buff.bytes.getD r.readIdx 0

/-- The locals behind the `read`, when it lets the loop go on to the parser. -/
def stored (r : Reading) : ReadResult → Option Reading
  | .data d =>
    if h : r.readIdx + d.length ≤ r.buff.size ∧ d ≠ [] then some (r.fill d h.1) else none
  | .again false => some r
  | _ => none

/-- What the parser is given: the received bytes and the one behind them. -/
theorem view_text {r : Reading} (h : r.readIdx ≤ r.buff.size) :
    (r.buff.view (r.readIdx + 1)).text = r.text ++ [r.behind] := by
  have hlt : r.readIdx < r.buff.bytes.length := by
    rw [ReadBuff.bytes, List.length_append]
    exact Nat.lt_succ_of_le h
  have htake : r.buff.bytes.take r.readIdx = r.text := List.take_append_of_le_length h
  rw [ReadBuff.view, List.take_add_one, htake, behind, List.getD_eq_getElem?_getD,
    List.getElem?_eq_getElem hlt]
  rfl

/-- A full buffer has the terminator behind the received bytes. -/
theorem behind_of_full {r : Reading} (h : r.readIdx = r.buff.size) : r.behind = 0 := by
  simp [behind, ReadBuff.bytes, h, ReadBuff.size]

theorem text_fill (r : Reading) {d : Bytes} (h : r.readIdx + d.length ≤ r.buff.size) :
    (r.fill d h).text = r.text ++ d := by
  have hle : r.readIdx + d.length ≤ r.buff.data.length := h
  have hlen : (r.buff.data.take r.readIdx).length = r.readIdx := by
    rw [List.length_take]
    omega
  have hfront : (r.buff.data.take r.readIdx ++ d).length = r.readIdx + d.length := by
    rw [List.length_append, hlen]
  exact List.take_left' hfront

theorem size_fill (r : Reading) {d : Bytes} (h : r.readIdx + d.length ≤ r.buff.size) :
    (r.fill d h).buff.size = r.buff.size := by
  have hle : r.readIdx + d.length ≤ r.buff.data.length := h
  simp only [fill, ReadBuff.store, ReadBuff.size, List.length_append, List.length_take,
    List.length_drop]
  omega

/-- What `stored` says: the bytes are appended, and nothing else changes. -/
theorem stored_spec {r r₁ : Reading} {x : ReadResult} (h : r.stored x = some r₁)
    (hidx : r.readIdx ≤ r.buff.size) :
    r₁.parser = r.parser ∧ r₁.text = r.text ++ x.bytes ∧ r₁.readIdx ≤ r₁.buff.size ∧
      r₁.buff.storage = r.buff.storage ∧ (x.bytes = [] → r₁ = r) := by
  cases x with
  | data d =>
    simp only [stored] at h
    split at h
    · rename_i hd
      cases h
      refine ⟨rfl, text_fill r hd.1, ?_, rfl, fun hnil => absurd hnil hd.2⟩
      rw [size_fill]
      exact hd.1
    · cases h
  | again timedOut =>
    cases timedOut with
    | true => cases h
    | false =>
      cases h
      exact ⟨rfl, (List.append_nil _).symm, hidx, rfl, fun _ => rfl⟩
  | eof => cases h
  | failed => cases h

variable [StdHash]

/-- Only a pass that reaches the parser goes on or returns a request. -/
theorem step_eq_afterRead {r : Reading} {x : ReadResult} {o : ReadOutcome}
    (h : r.step x = some o) :
    (∃ r₁, r.stored x = some r₁ ∧ o = r₁.afterRead) ∨
      (∃ b, o = .returned none b) ∨ ∃ e b, o = .threw e b := by
  cases x with
  | data d =>
    simp only [step] at h
    split at h
    · rename_i hd
      cases h
      exact .inl ⟨_, by rw [stored, dif_pos hd.symm], rfl⟩
    · cases h
  | again timedOut =>
    cases timedOut with
    | true =>
      cases h
      exact .inr (.inr ⟨_, _, rfl⟩)
    | false =>
      cases h
      exact .inl ⟨r, rfl, rfl⟩
  | eof =>
    cases h
    exact .inr (.inl ⟨_, rfl⟩)
  | failed =>
    cases h
    exact .inr (.inr ⟨_, _, rfl⟩)

/-- The buffer after a pass that goes on: doubled when it is full. -/
def grown (r : Reading) : ReadBuff :=
  if r.buff.size ≤ r.readIdx then r.buff.resize (2 * r.buff.size) else r.buff

/-- The cases of `afterRead`. -/
theorem afterRead_cases (r : Reading) :
    (∃ e, r.parser.parse (r.buff.view (r.readIdx + 1)) = .error e ∧ r.afterRead = .threw e r.buff) ∨
      ∃ p, r.parser.parse (r.buff.view (r.readIdx + 1)) = .ok p ∧
        (p.isDone = true ∧ r.afterRead = .returned (some (p.buildRequest r.buff.storage)) r.buff ∨
          p.isDone = false ∧ r.afterRead = .reading ⟨p, r.readIdx, r.grown⟩) := by
  cases h : r.parser.parse (r.buff.view (r.readIdx + 1)) with
  | error e => exact .inl ⟨e, rfl, by simp only [afterRead, h]⟩
  | ok p =>
    refine .inr ⟨p, rfl, ?_⟩
    cases hdone : p.isDone with
    | true => exact .inl ⟨rfl, by simp only [afterRead, h, hdone, if_true]⟩
    | false =>
      refine .inr ⟨rfl, ?_⟩
      by_cases hfull : r.buff.size ≤ r.readIdx
      · simp [afterRead, h, hdone, grown, hfull]
      · simp [afterRead, h, hdone, grown, hfull]

/-! ### Growing the buffer -/

omit [StdHash] in
/-- Doubling the buffer moves neither the received bytes nor the one behind them. -/
theorem grown_spec (r : Reading) (p : HttpRequestParser) (h : r.readIdx ≤ r.buff.size) :
    (⟨p, r.readIdx, r.grown⟩ : Reading).text = r.text ∧
      (⟨p, r.readIdx, r.grown⟩ : Reading).behind = r.behind ∧ r.readIdx ≤ r.grown.size := by
  by_cases hfull : r.buff.size ≤ r.readIdx
  · have heq : r.readIdx = r.buff.size := le_antisymm h hfull
    have hlen : r.buff.data.length = r.readIdx := heq.symm
    have hdata : r.grown.data = r.buff.data ++ List.replicate r.readIdx 0 := by
      have htake : r.buff.data.take (2 * r.buff.size) = r.buff.data :=
        List.take_of_length_le (by omega)
      have hrep : 2 * r.buff.size - r.buff.size = r.readIdx := by omega
      rw [grown, if_pos hfull, ReadBuff.resize]
      split <;> simp only [htake, hrep]
    refine ⟨?_, ?_, ?_⟩
    · rw [text, text, hdata, List.take_append_of_le_length hlen.ge]
    · rw [behind_of_full heq, behind, ReadBuff.bytes, hdata]
      -- behind the old contents there are zeros up to the terminator
      rw [List.append_assoc, List.getD_eq_getElem?_getD, List.getElem?_append_right hlen.le, hlen,
        Nat.sub_self]
      cases r.readIdx <;> rfl
    · rw [ReadBuff.size, hdata, List.length_append, hlen]
      omega
  · rw [grown, if_neg hfull]
    exact ⟨rfl, rfl, h⟩

/-- The pass reallocates the buffer although the request line has been received. -/
def Regrows (r₁ : Reading) : Prop :=
  r₁.buff.size ≤ r₁.readIdx ∧ r₁.buff.capacity < 2 * r₁.buff.size ∧
    List.findSub crlf r₁.text ≠ none

omit [StdHash] in
theorem storage_grown (r : Reading) :
    r.grown.storage =
      if r.buff.size ≤ r.readIdx ∧ r.buff.capacity < 2 * r.buff.size then r.buff.storage + 1
      else r.buff.storage := by
  unfold grown ReadBuff.resize
  split_ifs <;> first | rfl | omega

/-! ### The parser follows the received bytes -/

/-- The parser stands where a fresh one stands after `t`, the received bytes or
those and the one behind them, a beginning of what is received and to come. -/
def Follows (r : Reading) (future : Bytes) : Prop :=
  ∃ t p, parse {} ⟨0, t, []⟩ = .ok p ∧ p.isDone = false ∧ SameContents r.parser p ∧
    (t = r.text ∨ t = r.text ++ [r.behind]) ∧ t <+: r.text ++ future

theorem follows_start (buff : ReadBuff) (future : Bytes) : (start buff).Follows future :=
  ⟨[], {}, parse_nil 0 [], rfl, sameContents_equivalence.refl {}, .inl (by simp [text, start]),
    List.nil_prefix⟩

/-- **Behind a `read` the parser does what a fresh one does** to the received bytes
and the one behind them. -/
theorem afterRead_agree {r r₁ : Reading} {x : ReadResult} {future : Bytes}
    (hidx : r.readIdx ≤ r.buff.size) (hf : r.Follows (x.bytes ++ future))
    (hs : r.stored x = some r₁) :
    Agree SameContents (r₁.parser.parse (r₁.buff.view (r₁.readIdx + 1)))
      (parse {} ⟨0, r₁.text ++ [r₁.behind], []⟩) := by
  obtain ⟨t, p, hp, hopen, hsame, ht, hle⟩ := hf
  obtain ⟨hparser, htext, hidx₁, -, hnil⟩ := stored_spec hs hidx
  have hview := view_text hidx₁
  have hle₁ : t <+: r₁.text ++ [r₁.behind] := by
    by_cases hx : x.bytes = []
    · rw [hnil hx]
      rcases ht with rfl | rfl
      · exact List.prefix_append _ _
      · exact List.prefix_refl _
    · -- at least one byte has come in, so the shorter text is a beginning of the received one
      refine List.IsPrefix.trans ?_ (List.prefix_append _ _)
      rw [← List.append_assoc, ← htext] at hle
      refine List.prefix_of_prefix_length_le hle (List.prefix_append _ _) ?_
      have hpos := List.length_pos_of_ne_nil hx
      rw [htext, List.length_append]
      rcases ht with rfl | rfl
      · omega
      · rw [List.length_append, List.length_singleton]
        omega
  have hresume := resumable_parse.resume
    (show (⟨0, t, []⟩ : StringView).text <+: (r₁.buff.view (r₁.readIdx + 1)).text by
      rw [hview]; exact hle₁) hp hopen
  have hcongr : Agree SameContents (r₁.parser.parse (r₁.buff.view (r₁.readIdx + 1)))
      (p.parse (r₁.buff.view (r₁.readIdx + 1))) :=
    parse_agree (hparser ▸ hsame) rfl
  exact (hcongr.trans sameContents_equivalence hresume).trans sameContents_equivalence
    ((parse_text hview).symm sameContents_equivalence)

/-- The byte behind the received ones is not awaited, or it is what comes next. -/
def Harmless (r₁ : Reading) (future : Bytes) : Prop :=
  Quiet r₁.text r₁.behind ∨ future.head? = some r₁.behind

/-- A harmless pass that goes on leaves a parser that follows the received bytes. -/
theorem follows_of_harmless {r r₁ : Reading} {x : ReadResult} {future : Bytes}
    (hidx : r.readIdx ≤ r.buff.size) (hf : r.Follows (x.bytes ++ future))
    (hs : r.stored x = some r₁) (hharm : r₁.Harmless future) {p : HttpRequestParser}
    (hp : r₁.parser.parse (r₁.buff.view (r₁.readIdx + 1)) = .ok p) (hopen : p.isDone = false) :
    (⟨p, r₁.readIdx, r₁.grown⟩ : Reading).Follows future := by
  obtain ⟨-, -, hidx₁, -, -⟩ := stored_spec hs hidx
  obtain ⟨htext, hbehind, -⟩ := grown_spec r₁ p hidx₁
  have hagree := afterRead_agree hidx hf hs
  rw [hp] at hagree
  obtain ⟨q, hq, hsame⟩ := hagree.exists_ok
  have hqopen : q.isDone = false := by
    rw [isDone, ← hsame.state]
    exact hopen
  rcases hharm with hquiet | hnext
  · have hquiet' := agree_concat_of_quiet hquiet
    rw [hq] at hquiet'
    obtain ⟨q', hq', hsame'⟩ := hquiet'.exists_ok
    refine ⟨r₁.text, q', hq', ?_, sameContents_equivalence.trans hsame hsame', .inl htext.symm, ?_⟩
    · rw [isDone, ← hsame'.state]
      exact hqopen
    · rw [htext]
      exact List.prefix_append _ _
  · obtain ⟨future', rfl⟩ : ∃ future', future = r₁.behind :: future' := by
      cases future with
      | nil => cases hnext
      | cons b future' => exact ⟨future', by rw [Option.some.inj hnext]⟩
    refine ⟨r₁.text ++ [r₁.behind], q, hq, hqopen, hsame, .inr (by rw [htext, hbehind]), ?_⟩
    rw [htext]
    exact ⟨future', List.append_assoc _ _ _⟩

/-! ### The path stays in live storage -/

/-- The path points into the live storage, once the request line has been read. -/
def PathLive (r : Reading) : Prop :=
  r.parser.state = .readingRequestLine ∨ r.parser.path.storage = r.buff.storage

/-- The path points into storage that is gone. -/
def Dangling (r : Reading) : Prop :=
  r.parser.state ≠ .readingRequestLine ∧ r.parser.path.storage < r.buff.storage

omit [StdHash] in
theorem storage_le_grown (r : Reading) : r.buff.storage ≤ r.grown.storage := by
  rw [storage_grown]
  split <;> omega

/-- The parser is past the request line when the received bytes, and the one behind
them, have a CRLF. -/
theorem state_of_afterRead {r r₁ : Reading} {x : ReadResult} {future : Bytes}
    (hidx : r.readIdx ≤ r.buff.size) (hf : r.Follows (x.bytes ++ future))
    (hs : r.stored x = some r₁) {p : HttpRequestParser}
    (hp : r₁.parser.parse (r₁.buff.view (r₁.readIdx + 1)) = .ok p) :
    p.state = .readingRequestLine ↔ List.findSub crlf (r₁.text ++ [r₁.behind]) = none := by
  have hagree := afterRead_agree hidx hf hs
  rw [hp] at hagree
  obtain ⟨q, hq, hsame⟩ := hagree.exists_ok
  rw [hsame.state, state_of_parse hq]
  rfl

/-- What a call of the parser does to the path. -/
theorem path_of_afterRead {r₁ : Reading} {p : HttpRequestParser}
    (hp : r₁.parser.parse (r₁.buff.view (r₁.readIdx + 1)) = .ok p) :
    KeepsPath r₁.parser r₁.buff.storage p := by
  have hpath := parse_path r₁.parser (r₁.buff.view (r₁.readIdx + 1))
  rwa [hp] at hpath

theorem storage_of_pathLive {r₁ : Reading} (hlive : r₁.PathLive) {p : HttpRequestParser}
    (hp : r₁.parser.parse (r₁.buff.view (r₁.readIdx + 1)) = .ok p) :
    p.state = .readingRequestLine ∨ p.path.storage = r₁.buff.storage := by
  rcases path_of_afterRead hp with ⟨hpath, hstate⟩ | ⟨-, -, hstorage⟩
  · rcases hlive with hline | hlive
    · exact .inl (hstate.mpr hline)
    · exact .inr (hpath ▸ hlive)
  · exact .inr hstorage

theorem storage_of_dangling {r₁ : Reading} (hdangling : r₁.Dangling) {p : HttpRequestParser}
    (hp : r₁.parser.parse (r₁.buff.view (r₁.readIdx + 1)) = .ok p) :
    p.state ≠ .readingRequestLine ∧ p.path.storage < r₁.buff.storage := by
  rcases path_of_afterRead hp with ⟨hpath, hstate⟩ | ⟨hline, -, -⟩
  · exact ⟨fun h => hdangling.1 (hstate.mp h), hpath ▸ hdangling.2⟩
  · exact absurd hline hdangling.1

omit [StdHash] in
theorem storage_of_keepsPath {p r : HttpRequestParser} {storage : ℕ} (h : KeepsPath p storage r)
    (hle : p.path.storage ≤ storage) : r.path.storage ≤ storage := by
  rcases h with ⟨hpath, -⟩ | ⟨-, -, hstorage⟩
  · rwa [hpath]
  · exact hstorage.le

/-- A path that is live stays so in a pass, unless the buffer moves behind the line. -/
theorem pathLive_grown {r₁ : Reading} (hlive : r₁.PathLive) {p : HttpRequestParser}
    (hp : r₁.parser.parse (r₁.buff.view (r₁.readIdx + 1)) = .ok p)
    (hmoves : r₁.buff.size ≤ r₁.readIdx → r₁.buff.capacity < 2 * r₁.buff.size →
      p.state = .readingRequestLine) :
    (⟨p, r₁.readIdx, r₁.grown⟩ : Reading).PathLive := by
  rcases storage_of_pathLive hlive hp with hline | hstorage
  · exact .inl hline
  · by_cases hgrow : r₁.buff.size ≤ r₁.readIdx ∧ r₁.buff.capacity < 2 * r₁.buff.size
    · exact .inl (hmoves hgrow.1 hgrow.2)
    · right
      change p.path.storage = r₁.grown.storage
      rw [storage_grown, if_neg hgrow, hstorage]

/-- When the buffer moves behind the line, it leaves the path behind. -/
theorem dangling_grown {r₁ : Reading} (hle : r₁.parser.path.storage ≤ r₁.buff.storage)
    {p : HttpRequestParser} (hp : r₁.parser.parse (r₁.buff.view (r₁.readIdx + 1)) = .ok p)
    (hfull : r₁.buff.size ≤ r₁.readIdx) (hcap : r₁.buff.capacity < 2 * r₁.buff.size)
    (hstate : p.state ≠ .readingRequestLine) :
    (⟨p, r₁.readIdx, r₁.grown⟩ : Reading).Dangling := by
  refine ⟨hstate, ?_⟩
  change p.path.storage < r₁.grown.storage
  rw [storage_grown, if_pos ⟨hfull, hcap⟩]
  exact Nat.lt_succ_of_le (storage_of_keepsPath (path_of_afterRead hp) hle)

omit [StdHash] in
/-- Bytes that are only stored leave the path where it was. -/
theorem pathLive_stored {r r₁ : Reading} {x : ReadResult} (hs : r.stored x = some r₁)
    (hidx : r.readIdx ≤ r.buff.size) (hlive : r.PathLive) : r₁.PathLive := by
  obtain ⟨hparser, -, -, hstorage, -⟩ := stored_spec hs hidx
  rw [PathLive, hparser, hstorage]
  exact hlive

/-- The path stays live in a pass that does not reallocate behind the request line. -/
theorem pathLive_of_not_regrows {r r₁ : Reading} {x : ReadResult} {future : Bytes}
    (hidx : r.readIdx ≤ r.buff.size) (hf : r.Follows (x.bytes ++ future))
    (hs : r.stored x = some r₁) (hlive : r₁.PathLive) (hno : ¬ r₁.Regrows) {p : HttpRequestParser}
    (hp : r₁.parser.parse (r₁.buff.view (r₁.readIdx + 1)) = .ok p) :
    (⟨p, r₁.readIdx, r₁.grown⟩ : Reading).PathLive := by
  obtain ⟨-, -, hidx₁, -, -⟩ := stored_spec hs hidx
  refine pathLive_grown hlive hp fun hfull hcap => ?_
  -- the buffer is full, so the byte behind is the terminator and completes no CRLF
  have hnone : List.findSub crlf r₁.text = none := by
    by_contra hsome
    exact hno ⟨hfull, hcap, hsome⟩
  rw [state_of_afterRead hidx hf hs hp, behind_of_full (le_antisymm hidx₁ hfull)]
  exact (isLine_concat_iff hnone 0).mpr fun h => by simp at h

/-- A pass that reallocates behind the request line leaves the path dangling. -/
theorem dangling_of_regrows {r r₁ : Reading} {x : ReadResult} {future : Bytes}
    (hidx : r.readIdx ≤ r.buff.size) (hf : r.Follows (x.bytes ++ future))
    (hs : r.stored x = some r₁) (hle : r₁.parser.path.storage ≤ r₁.buff.storage)
    (hregrows : r₁.Regrows) {p : HttpRequestParser}
    (hp : r₁.parser.parse (r₁.buff.view (r₁.readIdx + 1)) = .ok p) :
    (⟨p, r₁.readIdx, r₁.grown⟩ : Reading).Dangling := by
  obtain ⟨hfull, hcap, hsome⟩ := hregrows
  refine dangling_grown hle hp hfull hcap ?_
  rw [Ne, state_of_afterRead hidx hf hs hp]
  intro hnone
  obtain ⟨i, hi⟩ := Option.ne_none_iff_exists'.mp hsome
  rw [List.findSub_append hi] at hnone
  cases hnone

/-! ### A pass of the loop -/

/-- A pass that goes on. -/
theorem reading_of_step {r r' : Reading} {x : ReadResult} (h : r.step x = some (.reading r')) :
    ∃ r₁ p, r.stored x = some r₁ ∧
      r₁.parser.parse (r₁.buff.view (r₁.readIdx + 1)) = .ok p ∧ p.isDone = false ∧
      r' = ⟨p, r₁.readIdx, r₁.grown⟩ := by
  rcases step_eq_afterRead h with ⟨r₁, hs, ho⟩ | ⟨b, ho⟩ | ⟨e, b, ho⟩
  · rcases afterRead_cases r₁ with ⟨e, -, ha⟩ | ⟨p, hp, ⟨-, ha⟩ | ⟨hopen, ha⟩⟩
    · rw [ha] at ho
      cases ho
    · rw [ha] at ho
      cases ho
    · rw [ha] at ho
      cases ho
      exact ⟨r₁, p, hs, hp, hopen, rfl⟩
  · cases ho
  · cases ho

/-- A pass that returns a request. -/
theorem returned_of_step {r : Reading} {x : ReadResult} {request : HttpRequest} {b : ReadBuff}
    (h : r.step x = some (.returned (some request) b)) :
    ∃ r₁ p, r.stored x = some r₁ ∧
      r₁.parser.parse (r₁.buff.view (r₁.readIdx + 1)) = .ok p ∧ p.isDone = true ∧
      request = p.buildRequest r₁.buff.storage ∧ b = r₁.buff := by
  rcases step_eq_afterRead h with ⟨r₁, hs, ho⟩ | ⟨b, ho⟩ | ⟨e, b, ho⟩
  · rcases afterRead_cases r₁ with ⟨e, -, ha⟩ | ⟨p, hp, ⟨hdone, ha⟩ | ⟨-, ha⟩⟩
    · rw [ha] at ho
      cases ho
    · rw [ha] at ho
      cases ho
      exact ⟨r₁, p, hs, hp, hdone, rfl, rfl⟩
    · rw [ha] at ho
      cases ho
  · cases ho
  · cases ho

/-- What every pass keeps: the parser follows the bytes received, those and the
ones to come being `total`. -/
structure Inv (total : Bytes) (r : Reading) (future : Bytes) : Prop where
  idx_le : r.readIdx ≤ r.buff.size
  text_append : r.text ++ future = total
  follows : r.Follows future
  storage_le : r.parser.path.storage ≤ r.buff.storage

/-- **A harmless pass keeps the invariant.** -/
theorem Inv.step {total future : Bytes} {r r₁ : Reading} {x : ReadResult}
    (h : Inv total r (x.bytes ++ future)) (hs : r.stored x = some r₁)
    (hharm : r₁.Harmless future) {p : HttpRequestParser}
    (hp : r₁.parser.parse (r₁.buff.view (r₁.readIdx + 1)) = .ok p) (hopen : p.isDone = false) :
    Inv total ⟨p, r₁.readIdx, r₁.grown⟩ future := by
  obtain ⟨hparser, htext, hidx₁, hstorage, -⟩ := stored_spec hs h.idx_le
  obtain ⟨hgrown, -, hidx₂⟩ := grown_spec r₁ p hidx₁
  have hle : r₁.parser.path.storage ≤ r₁.buff.storage := by
    rw [hparser, hstorage]
    exact h.storage_le
  refine ⟨hidx₂, ?_, follows_of_harmless h.idx_le h.follows hs hharm hp hopen, ?_⟩
  · rw [hgrown, htext, List.append_assoc]
    exact h.text_append
  · exact (storage_of_keepsPath (path_of_afterRead hp) hle).trans (storage_le_grown r₁)

end Reading

/-! ### Whole calls -/

/-- The request is the one a fresh parser makes of exactly the bytes received, and
nothing that had been received before the last `read` was complete. -/
structure ReturnsReceived [StdHash] (reads : List ReadResult) (request : HttpRequest) : Prop where
  complete : requestOf (received reads) = some request
  first : ∀ s, s <+: received reads.dropLast → requestOf s = none

section Calls

variable [StdHash]

/-- The pass is harmless, and does not reallocate the buffer behind the request
line before a later one. -/
def Undisturbed (o : ReadOutcome) (x : ReadResult) (rest : List ReadResult) : Prop :=
  ∀ r r₁, o = .reading r → r.stored x = some r₁ →
    r₁.Harmless (received rest) ∧ (rest = [] ∨ ¬ r₁.Regrows)

/-- The pass is harmless, unless it is the last. -/
def HarmlessBefore (o : ReadOutcome) (x : ReadResult) (rest : List ReadResult) : Prop :=
  rest = [] ∨ ∀ r r₁, o = .reading r → r.stored x = some r₁ → r₁.Harmless (received rest)

/-- The invariant of a call, for the states `readRequest` goes on from. -/
def ReadInv (total : Bytes) (o : ReadOutcome) (rest : List ReadResult) : Prop :=
  ∀ r, o = .reading r → r.Inv total (received rest)

theorem readInv_start (buff : ReadBuff) (reads : List ReadResult) :
    ReadInv (received reads) (.reading (.start buff)) reads := by
  rintro r ⟨⟩
  exact ⟨Nat.zero_le _, by simp [Reading.text, Reading.start], Reading.follows_start _ _,
    Nat.zero_le _⟩

theorem readInv_step {total : Bytes} {o o' : ReadOutcome} {x : ReadResult}
    {rest : List ReadResult} (hinv : ReadInv total o (x :: rest)) (hne : rest ≠ [])
    (hbefore : HarmlessBefore o x rest) (h : o.step x = some o') : ReadInv total o' rest := by
  rintro r' rfl
  cases o with
  | reading r =>
    obtain ⟨r₁, p, hs, hp, hopen, rfl⟩ := Reading.reading_of_step h
    exact (hinv r rfl).step hs (hbefore.resolve_left hne r r₁ rfl hs) hp hopen
  | returned request b => cases h
  | threw e b => cases h

/-- The invariant holds at every pass whose earlier passes were harmless. -/
theorem readInv_of_run {buff : ReadBuff} {before after : List ReadResult} (hne : after ≠ [])
    {o : ReadOutcome}
    (hbefore : Along ReadOutcome.step HarmlessBefore (.reading (.start buff)) (before ++ after))
    (hrun : run ReadOutcome.step (.reading (.start buff)) before = some o) :
    ReadInv (received (before ++ after)) o after := by
  have hinv := invariant_along (fun o rest =>
      rest ≠ [] → ReadInv (received (before ++ after)) o rest)
    (fun o x rest o' hinv hC hstep hrest =>
      readInv_step (hinv (List.cons_ne_nil _ _)) hrest hC hstep)
    (fun _ => readInv_start buff (before ++ after)) hbefore hrun
  exact hinv hne

/-- A request built from live storage is the one a fresh parser makes. -/
theorem buildRequest_eq {s : Bytes} {p q : HttpRequestParser} {storage : ℕ}
    (hq : parse {} ⟨0, s, []⟩ = .ok q) (hdone : q.isDone = true) (hsame : SameContents p q)
    (hlive : p.path.storage = storage) : requestOf s = some (p.buildRequest storage) := by
  have hq0 := path_storage_of_fresh hq
  have hbody : p.body.text = q.body.text := hsame.body
  have hpathText : p.path.text = q.path.text := hsame.path
  simp only [requestOf, hq, hdone, if_true, buildRequest, hq0, hlive, hsame.headers,
    hsame.queryParameters, hbody, hpathText, hsame.version, hsame.method]

/-- The path of such a request is known. -/
theorem path_of_requestOf {s : Bytes} {request : HttpRequest} (h : requestOf s = some request) :
    request.path ≠ none := by
  unfold requestOf at h
  cases hq : parse {} ⟨0, s, []⟩ with
  | error e =>
    rw [hq] at h
    cases h
  | ok q =>
    simp only [hq] at h
    split at h
    · cases h
      simp [buildRequest, path_storage_of_fresh hq]
    · cases h

/-- The last pass of a call: what it was in, and what it stored. -/
theorem exists_last_pass {buff b : ReadBuff} {reads : List ReadResult} {request : HttpRequest}
    (hrun : run ReadOutcome.step (.reading (.start buff)) reads =
      some (.returned (some request) b)) :
    ∃ earlier last r, reads = earlier ++ [last] ∧
      run ReadOutcome.step (.reading (.start buff)) earlier = some (.reading r) ∧
      r.step last = some (.returned (some request) b) := by
  rcases List.eq_nil_or_concat reads with rfl | ⟨earlier, last, rfl⟩
  · cases hrun
  · rw [List.concat_eq_append] at hrun ⊢
    obtain ⟨o, ho, hlast⟩ := run_append_eq_some.mp hrun
    rw [run_singleton] at hlast
    cases o with
    | reading r => exact ⟨earlier, last, r, rfl, ho, hlast⟩
    | returned request b => cases hlast
    | threw e b => cases hlast

/-- What the last pass returns, when the earlier ones were harmless. -/
theorem last_pass_agree {total : Bytes} {r r₁ : Reading} {last : ReadResult}
    (hinv : r.Inv total (received [last])) (hs : r.stored last = some r₁) : r₁.text = total ∧
      Agree SameContents (r₁.parser.parse (r₁.buff.view (r₁.readIdx + 1)))
        (parse {} ⟨0, total ++ [r₁.behind], []⟩) := by
  obtain ⟨-, htext, -⟩ := Reading.stored_spec hs hinv.idx_le
  have htotal : r₁.text = total := by
    rw [htext, ← hinv.text_append]
    simp [received]
  refine ⟨htotal, ?_⟩
  rw [← htotal]
  have hfollows : r.Follows (last.bytes ++ []) := hinv.follows
  exact Reading.afterRead_agree hinv.idx_le hfollows hs

/-- Nothing received before the last pass was complete. -/
theorem requestOf_eq_none_of_inv {total future : Bytes} {r : Reading} (hinv : r.Inv total future)
    {s : Bytes} (hs : s <+: r.text) : requestOf s = none := by
  obtain ⟨t, p, hp, hopen, -, ht, -⟩ := hinv.follows
  refine requestOf_eq_none_of_prefix (hs.trans ?_) hp hopen
  rcases ht with rfl | rfl
  · exact List.prefix_refl _
  · exact List.prefix_append _ _

/-- A byte that is awaited completes an incomplete text. -/
theorem quiet_of_complete {s : Bytes} {request : HttpRequest} (h : requestOf s = some request)
    (x : UInt8) : Quiet s x := by
  intro p hp hawaits
  have hopen : p.isDone = false := by
    by_contra hdone
    have hstate : p.state = .done := by simpa [isDone] using hdone
    simp [Awaits, hstate] at hawaits
  rw [requestOf_eq_none_of_open hp hopen] at h
  cases h

/-! ### The two directions -/

/-- The path is live at every pass of an undisturbed call. -/
theorem pathLive_of_undisturbed {buff : ReadBuff} {before after : List ReadResult}
    (hne : after ≠ []) {r : Reading}
    (hcond : Along ReadOutcome.step Undisturbed (.reading (.start buff)) (before ++ after))
    (hrun : run ReadOutcome.step (.reading (.start buff)) before = some (.reading r)) :
    r.Inv (received (before ++ after)) (received after) ∧ r.PathLive := by
  have hinv := invariant_along (fun o rest => rest ≠ [] →
      ReadInv (received (before ++ after)) o rest ∧ ∀ r, o = .reading r → r.PathLive)
    (fun o x rest o' hinv hC hstep hrest => by
      obtain ⟨hread, hlive⟩ := hinv (List.cons_ne_nil _ _)
      refine ⟨readInv_step hread hrest (.inr fun r r₁ ho hs => (hC r r₁ ho hs).1) hstep, ?_⟩
      rintro r' rfl
      cases o with
      | reading r =>
        obtain ⟨r₁, p, hs, hp, hopen, rfl⟩ := Reading.reading_of_step hstep
        exact Reading.pathLive_of_not_regrows (hread r rfl).idx_le (hread r rfl).follows hs
          (Reading.pathLive_stored hs (hread r rfl).idx_le (hlive r rfl))
          ((hC r r₁ rfl hs).2.resolve_left hrest) hp
      | returned request b => cases hstep
      | threw e b => cases hstep)
    (fun _ => ⟨readInv_start buff (before ++ after), by rintro r ⟨⟩; exact .inl rfl⟩) hcond hrun
  exact ⟨(hinv hne).1 r rfl, (hinv hne).2 r rfl⟩

/-- An undisturbed call returns what it received. -/
theorem returnsReceived_of_undisturbed {buff b : ReadBuff} {reads : List ReadResult}
    {request : HttpRequest}
    (hrun : run ReadOutcome.step (.reading (.start buff)) reads = some (.returned (some request) b))
    (hcond : Along ReadOutcome.step Undisturbed (.reading (.start buff)) reads) :
    ReturnsReceived reads request := by
  obtain ⟨earlier, last, r, rfl, hearlier, hlast⟩ := exists_last_pass hrun
  obtain ⟨hinv, hlive⟩ := pathLive_of_undisturbed (List.cons_ne_nil last []) hcond hearlier
  obtain ⟨r₁, p, hs, hp, hdone, rfl, -⟩ := Reading.returned_of_step hlast
  obtain ⟨htotal, hagree⟩ := last_pass_agree hinv hs
  refine ⟨?_, fun s hs' => requestOf_eq_none_of_inv hinv ?_⟩
  · have hquiet : Quiet r₁.text r₁.behind := by
      rcases ((hcond.append_right hearlier).1 r r₁ rfl hs).1 with hquiet | hnext
      · exact hquiet
      · cases hnext
    rw [htotal] at hquiet
    rw [hp] at hagree
    have hfresh := hagree.trans sameContents_equivalence (agree_concat_of_quiet hquiet)
    obtain ⟨q, hq, hsame⟩ := hfresh.exists_ok
    have hstate : p.state = .done := by simpa [isDone] using hdone
    have hqdone : q.isDone = true := by
      rw [isDone, ← hsame.state]
      exact hdone
    refine buildRequest_eq hq hqdone hsame ?_
    have hlive₁ : r₁.PathLive := Reading.pathLive_stored hs hinv.idx_le hlive
    exact (Reading.storage_of_pathLive hlive₁ hp).resolve_left (by simp [hstate])
  · have hdrop : received (earlier ++ [last]).dropLast = r.text := by
      have htext' := hinv.text_append
      rw [received_append] at htext'
      rw [List.dropLast_concat]
      exact (List.append_cancel_right htext').symm
    rwa [hdrop] at hs'

/-- The path dangles, or it has been lost with the request. -/
def PathLost : ReadOutcome → Prop
  | .reading r => r.readIdx ≤ r.buff.size ∧ r.Dangling
  | .returned (some request) _ => request.path = none
  | .returned none _ => True
  | .threw _ _ => True

theorem pathLost_step {o o' : ReadOutcome} {x : ReadResult} (h : PathLost o)
    (hstep : o.step x = some o') : PathLost o' := by
  cases o with
  | reading r =>
    obtain ⟨hidx, hdangling⟩ := h
    have hstored : ∀ r₁, r.stored x = some r₁ → r₁.Dangling := by
      intro r₁ hs
      obtain ⟨hparser, -, -, hstorage, -⟩ := Reading.stored_spec hs hidx
      rw [Reading.Dangling, hparser, hstorage]
      exact hdangling
    cases o' with
    | reading r' =>
      obtain ⟨r₁, p, hs, hp, -, rfl⟩ := Reading.reading_of_step hstep
      obtain ⟨-, -, hidx₁, -, -⟩ := Reading.stored_spec hs hidx
      obtain ⟨hstate, hlt⟩ := Reading.storage_of_dangling (hstored r₁ hs) hp
      -- growing the buffer again leaves the storage the path points into behind
      exact ⟨(Reading.grown_spec r₁ p hidx₁).2.2, hstate,
        hlt.trans_le (Reading.storage_le_grown r₁)⟩
    | returned request b =>
      cases request with
      | some request =>
        obtain ⟨r₁, p, hs, hp, -, rfl, -⟩ := Reading.returned_of_step hstep
        obtain ⟨-, hlt⟩ := Reading.storage_of_dangling (hstored r₁ hs) hp
        exact if_neg hlt.ne
      | none => trivial
    | threw e b => trivial
  | returned request b => cases hstep
  | threw e b => cases hstep

/-- Once the path dangles, the request returned has none. -/
theorem path_eq_none_of_dangling {reads : List ReadResult} {r : Reading} {b : ReadBuff}
    {request : HttpRequest} (hidx : r.readIdx ≤ r.buff.size) (hdangling : r.Dangling)
    (hrun : run ReadOutcome.step (.reading r) reads = some (.returned (some request) b)) :
    request.path = none := by
  have hlost : PathLost (.reading r) := ⟨hidx, hdangling⟩
  exact invariant_run PathLost (fun _ _ _ => pathLost_step) hlost hrun

/-- A call whose earlier passes were harmless and that returns what it received
was undisturbed. -/
theorem undisturbed_of_returnsReceived {buff b : ReadBuff} {reads : List ReadResult}
    {request : HttpRequest}
    (hrun : run ReadOutcome.step (.reading (.start buff)) reads = some (.returned (some request) b))
    (hbefore : Along ReadOutcome.step HarmlessBefore (.reading (.start buff)) reads)
    (hret : ReturnsReceived reads request) :
    Along ReadOutcome.step Undisturbed (.reading (.start buff)) reads := by
  by_contra hnot
  obtain ⟨before, x, after, o, rfl, hrun₁, hbreak⟩ := exists_of_not_along hnot
  have hinv := readInv_of_run (List.cons_ne_nil x after) hbefore hrun₁
  apply hbreak
  rintro r r₁ rfl hs
  have hread := hinv r rfl
  cases after with
  | nil =>
    -- the last pass: what has been received is complete, so nothing is awaited
    obtain ⟨htotal, -⟩ := last_pass_agree hread hs
    refine ⟨.inl ?_, .inl rfl⟩
    rw [htotal]
    exact quiet_of_complete hret.complete r₁.behind
  | cons y after =>
    have hharm := (hbefore.append_right hrun₁).1.resolve_left (List.cons_ne_nil y after) r r₁ rfl hs
    refine ⟨hharm, .inr fun hregrows => ?_⟩
    -- a later pass returns a request, and its path was lost here
    obtain ⟨o, ho, hrest⟩ := run_append_eq_some.mp hrun
    rw [hrun₁] at ho
    cases ho
    obtain ⟨o₁, hstep, hrest⟩ := run_cons_eq_some.mp hrest
    obtain ⟨o₂, hstep₂, -⟩ := run_cons_eq_some.mp hrest
    cases o₁ with
    | reading r' =>
      obtain ⟨r₂, p, hs₂, hp, hopen, rfl⟩ := Reading.reading_of_step hstep
      rw [hs] at hs₂
      cases hs₂
      obtain ⟨hparser, -, hidx₁, hstorage, -⟩ := Reading.stored_spec hs hread.idx_le
      have hle : r₁.parser.path.storage ≤ r₁.buff.storage := by
        rw [hparser, hstorage]
        exact hread.storage_le
      have hdangling :=
        Reading.dangling_of_regrows hread.idx_le hread.follows hs hle hregrows hp
      have hnone := path_eq_none_of_dangling (Reading.grown_spec r₁ p hidx₁).2.2 hdangling hrest
      exact path_of_requestOf hret.complete hnone
    | returned request b => cases hstep₂
    | threw e b => cases hstep₂

/-- **`readRequest` returns the request it received when it is undisturbed**; and
when every pass but the last was harmless, only then. -/
theorem readRequest_iff {buff b : ReadBuff} {reads : List ReadResult} {request : HttpRequest}
    (hrun : run ReadOutcome.step (.reading (.start buff)) reads =
      some (.returned (some request) b)) :
    (Along ReadOutcome.step Undisturbed (.reading (.start buff)) reads →
        ReturnsReceived reads request) ∧
      (Along ReadOutcome.step HarmlessBefore (.reading (.start buff)) reads →
        (ReturnsReceived reads request ↔
          Along ReadOutcome.step Undisturbed (.reading (.start buff)) reads)) :=
  ⟨returnsReceived_of_undisturbed hrun, fun hbefore =>
    ⟨undisturbed_of_returnsReceived hrun hbefore, returnsReceived_of_undisturbed hrun⟩⟩

end Calls

/-- A request that arrives in one piece. -/
theorem readRequest_one_read :
    letI := polynomialHash
    ReturnsReceived [.data (ascii "GET /k HTTP/1.1\r\nHost: a\r\n\r\n")]
      { headers := [(ascii "Host", ascii "a")], queryParameters := [], body := []
        path := some (ascii "/k"), version := .http1_1, method := .get } := by
  let _ := polynomialHash
  have hrun : run ReadOutcome.step (.reading (.start (.initial 1)))
      [.data (ascii "GET /k HTTP/1.1\r\nHost: a\r\n\r\n")] = some (.returned (some
        { headers := [(ascii "Host", ascii "a")], queryParameters := [], body := []
          path := some (ascii "/k"), version := .http1_1, method := .get })
        ((ReadBuff.initial 1).store 0 (ascii "GET /k HTTP/1.1\r\nHost: a\r\n\r\n")
          (by decide +kernel))) := by
    decide +kernel
  refine (readRequest_iff hrun).1 ⟨?_, fun _ _ => trivial⟩
  rintro r r₁ ⟨⟩ hs
  refine ⟨.inl ?_, .inl rfl⟩
  obtain ⟨-, htext, -⟩ := Reading.stored_spec hs (Nat.zero_le _)
  have hcomplete : requestOf r₁.text = some
      { headers := [(ascii "Host", ascii "a")], queryParameters := [], body := []
        path := some (ascii "/k"), version := .http1_1, method := .get } := by
    rw [htext]
    rfl
  exact quiet_of_complete hcomplete r₁.behind

/-- The header block of a POST, none of its body: the request is returned, with the
NUL that lies behind the block for a body. -/
theorem readRequest_takes_unreceived_byte :
    ¬ ∀ (_ : StdHash) (buff b : ReadBuff) (reads : List ReadResult) (request : HttpRequest),
      run ReadOutcome.step (.reading (.start buff)) reads = some (.returned (some request) b) →
        ReturnsReceived reads request := by
  intro h
  let _ := polynomialHash
  have hret := h polynomialHash (.initial 1)
    ((ReadBuff.initial 1).store 0 (ascii "POST /k HTTP/1.1\r\nContent-Length: 1\r\n\r\n")
      (by decide +kernel))
    [.data (ascii "POST /k HTTP/1.1\r\nContent-Length: 1\r\n\r\n")]
    { headers := [(ascii "Content-Length", ascii "1")], queryParameters := [], body := [0]
      path := some (ascii "/k"), version := .http1_1, method := .post } (by decide +kernel)
  have hnone : @requestOf polynomialHash
      (ascii "POST /k HTTP/1.1\r\nContent-Length: 1\r\n\r\n") = none := rfl
  have hcomplete := hret.complete
  rw [received_cons, received_nil, List.append_nil] at hcomplete
  exact Option.some_ne_none _ (hcomplete.symm.trans hnone)

end TpAdvanced
