import TpAdvanced.Http.ReadRequest

/-!
# The view of the path

`path_` is a view into the read buffer, taken in the call of the parser that sees the end
of the request line; `buildRequest` copies it when the request is complete.  In between
the buffer may be doubled any number of times.  The copy has a path exactly if none of
these moved the buffer to new storage; nothing has to be known about the bytes that the
parser finds behind the received ones.

## Main definitions

* `Outgrows` — a pass moves the buffer behind the request line.
* `KeepsView` — a pass that does not.

## Main results

* `pathLive_of_keepsView`, `dangling_of_outgrows` — the two kinds of passes.
* `path_current_iff` — **when the path is still current.**
-/

namespace TpAdvanced

open CText Outcome Machine HttpRequestParser

namespace Reading

/-- The pass moves the buffer to new storage, and the request line has been parsed, or
ends in the received bytes. -/
def Outgrows (r₁ : Reading) : Prop :=
  r₁.buff.size ≤ r₁.readIdx ∧ r₁.buff.capacity < 2 * r₁.buff.size ∧
    (r₁.parser.state ≠ .readingRequestLine ∨ List.findSub crlf r₁.text ≠ none)

/-- The parser has done nothing before it has the request line, and its path is not newer
than the buffer. -/
structure Started (r : Reading) : Prop where
  idx_le : r.readIdx ≤ r.buff.size
  fresh : r.parser.state = .readingRequestLine → r.parser = {}
  storage_le : r.parser.path.storage ≤ r.buff.storage

theorem started_start (buff : ReadBuff) : (start buff).Started where
  idx_le := Nat.zero_le _
  fresh := fun _ => rfl
  storage_le := Nat.zero_le _

theorem Started.stored {r r₁ : Reading} {x : ReadResult} (h : r.Started)
    (hs : r.stored x = some r₁) : r₁.Started := by
  obtain ⟨hparser, -, hidx, hstorage, -⟩ := stored_spec hs h.idx_le
  exact ⟨hidx, hparser ▸ h.fresh, by rw [hparser, hstorage]; exact h.storage_le⟩

/-- Behind a full buffer there is the terminator, which ends no request line. -/
theorem find_of_full {r₁ : Reading} (hidx : r₁.readIdx ≤ r₁.buff.size)
    (hfull : r₁.buff.size ≤ r₁.readIdx) :
    (r₁.buff.view (r₁.readIdx + 1)).find crlf = none ↔ List.findSub crlf r₁.text = none := by
  rw [StringView.find, view_text hidx, behind_of_full (le_antisymm hidx hfull)]
  constructor
  · intro hnone
    by_contra hsome
    obtain ⟨i, hi⟩ := Option.ne_none_iff_exists'.mp hsome
    rw [List.findSub_append hi] at hnone
    cases hnone
  · intro hnone
    exact (isLine_concat_iff hnone 0).mpr fun h => by simp at h

variable [StdHash]

/-- The parser of a full buffer is still in front of the request line exactly if it was,
and the received bytes do not end the line. -/
theorem state_of_full {r₁ : Reading} (h : r₁.Started) (hfull : r₁.buff.size ≤ r₁.readIdx)
    {p : HttpRequestParser} (hp : r₁.parser.parse (r₁.buff.view (r₁.readIdx + 1)) = .ok p) :
    p.state = .readingRequestLine ↔
      r₁.parser.state = .readingRequestLine ∧ List.findSub crlf r₁.text = none := by
  by_cases hstate : r₁.parser.state = .readingRequestLine
  · rw [h.fresh hstate] at hp
    rw [state_of_parse hp, find_of_full h.idx_le hfull, and_iff_right hstate]
  · rcases path_of_afterRead hp with ⟨-, hiff⟩ | ⟨hline, -, -⟩
    · exact iff_of_false (fun hline => hstate (hiff.mp hline)) fun hline => hstate hline.1
    · exact absurd hline hstate

/-- A parser that goes on without the request line has done nothing. -/
theorem fresh_of_parse {r₁ : Reading} (h : r₁.Started) {p : HttpRequestParser}
    (hp : r₁.parser.parse (r₁.buff.view (r₁.readIdx + 1)) = .ok p)
    (hstate : p.state = .readingRequestLine) : p = {} := by
  rcases path_of_afterRead hp with ⟨-, hiff⟩ | ⟨-, hne, -⟩
  · rw [h.fresh (hiff.mp hstate)] at hp
    rw [parse_fresh_none ((state_of_parse hp).mp hstate)] at hp
    exact (Except.ok.inj hp).symm
  · exact absurd hstate hne

theorem Started.step {r₁ : Reading} (h : r₁.Started) {p : HttpRequestParser}
    (hp : r₁.parser.parse (r₁.buff.view (r₁.readIdx + 1)) = .ok p) :
    (⟨p, r₁.readIdx, r₁.grown⟩ : Reading).Started where
  idx_le := (grown_spec r₁ p h.idx_le).2.2
  fresh := fresh_of_parse h hp
  storage_le := (storage_of_keepsPath (path_of_afterRead hp) h.storage_le).trans
    (storage_le_grown r₁)

/-- **A pass that does not outgrow the view** keeps it current. -/
theorem pathLive_of_keepsView {r₁ : Reading} (h : r₁.Started) (hlive : r₁.PathLive)
    (hno : ¬ r₁.Outgrows) {p : HttpRequestParser}
    (hp : r₁.parser.parse (r₁.buff.view (r₁.readIdx + 1)) = .ok p) :
    (⟨p, r₁.readIdx, r₁.grown⟩ : Reading).PathLive := by
  refine pathLive_grown hlive hp fun hfull hcap => ?_
  rw [state_of_full h hfull hp]
  by_contra hpast
  exact hno ⟨hfull, hcap, not_and_or.mp hpast⟩

/-- **A pass that outgrows the view** leaves it in storage that is gone. -/
theorem dangling_of_outgrows {r₁ : Reading} (h : r₁.Started) (hout : r₁.Outgrows)
    {p : HttpRequestParser} (hp : r₁.parser.parse (r₁.buff.view (r₁.readIdx + 1)) = .ok p) :
    (⟨p, r₁.readIdx, r₁.grown⟩ : Reading).Dangling := by
  obtain ⟨hfull, hcap, hpast⟩ := hout
  refine dangling_grown h.storage_le hp hfull hcap ?_
  rw [Ne, state_of_full h hfull hp]
  exact not_and_or.mpr hpast

end Reading

section Calls

variable [StdHash]

/-- The pass is the last, or does not outgrow the view. -/
def KeepsView (o : ReadOutcome) (x : ReadResult) (rest : List ReadResult) : Prop :=
  rest = [] ∨ ∀ r r₁, o = .reading r → r.stored x = some r₁ → ¬ r₁.Outgrows

/-- Every pass starts from a parser that is fresh or past the request line. -/
theorem started_of_run {buff : ReadBuff} {reads : List ReadResult} {r : Reading}
    (hrun : run ReadOutcome.step (.reading (.start buff)) reads = some (.reading r)) :
    r.Started := by
  have hinv := invariant_run (fun o => ∀ r, o = .reading r → r.Started)
    (fun o x o' hinv hstep => by
      rintro r' rfl
      cases o with
      | reading r =>
        obtain ⟨r₁, p, hs, hp, -, rfl⟩ := Reading.reading_of_step hstep
        exact ((hinv r rfl).stored hs).step hp
      | returned request b => cases hstep
      | threw e b => cases hstep)
    (by rintro r ⟨⟩; exact Reading.started_start buff) hrun
  exact hinv r rfl

/-- The path is current at every pass, when no earlier one has outgrown it. -/
theorem pathLive_of_run {buff : ReadBuff} {before after : List ReadResult} (hne : after ≠ [])
    {r : Reading}
    (hcond : Along ReadOutcome.step KeepsView (.reading (.start buff)) (before ++ after))
    (hrun : run ReadOutcome.step (.reading (.start buff)) before = some (.reading r)) :
    r.PathLive := by
  have hinv := invariant_along (fun o rest =>
      rest ≠ [] → ∀ r, o = .reading r → r.Started ∧ r.PathLive)
    (fun o x rest o' hinv hC hstep hrest => by
      rintro r' rfl
      cases o with
      | reading r =>
        obtain ⟨hstart, hlive⟩ := hinv (List.cons_ne_nil _ _) r rfl
        obtain ⟨r₁, p, hs, hp, -, rfl⟩ := Reading.reading_of_step hstep
        exact ⟨(hstart.stored hs).step hp, Reading.pathLive_of_keepsView (hstart.stored hs)
          (Reading.pathLive_stored hs hstart.idx_le hlive) (hC.resolve_left hrest r r₁ rfl hs) hp⟩
      | returned request b => cases hstep
      | threw e b => cases hstep)
    (by rintro - r ⟨⟩; exact ⟨Reading.started_start buff, .inl rfl⟩) hcond hrun
  exact (hinv hne r rfl).2

/-- **The path still belongs to the storage of the buffer** when it is copied exactly if
no pass but the last has outgrown it. -/
theorem path_current_iff {buff b : ReadBuff} {reads : List ReadResult} {request : HttpRequest}
    (hrun : run ReadOutcome.step (.reading (.start buff)) reads =
      some (.returned (some request) b)) :
    request.path ≠ none ↔ Along ReadOutcome.step KeepsView (.reading (.start buff)) reads := by
  constructor
  · intro hpath
    by_contra hnot
    obtain ⟨before, x, after, o, rfl, hbefore, hbreak⟩ := exists_of_not_along hnot
    rw [KeepsView, not_or] at hbreak
    obtain ⟨hne, hbreak⟩ := hbreak
    push Not at hbreak
    obtain ⟨r, r₁, rfl, hs, hout⟩ := hbreak
    have hstart := (started_of_run hbefore).stored hs
    -- a later pass returns the request, and its path was lost here
    obtain ⟨o, ho, hrest⟩ := run_append_eq_some.mp hrun
    rw [hbefore] at ho
    cases ho
    obtain ⟨o₁, hstep, hrest⟩ := run_cons_eq_some.mp hrest
    obtain ⟨y, after, rfl⟩ := List.exists_cons_of_ne_nil hne
    obtain ⟨o₂, hstep₂, -⟩ := run_cons_eq_some.mp hrest
    cases o₁ with
    | reading r' =>
      obtain ⟨r₂, p, hs₂, hp, -, rfl⟩ := Reading.reading_of_step hstep
      rw [hs] at hs₂
      cases hs₂
      exact hpath (path_eq_none_of_dangling (hstart.step hp).idx_le
        (Reading.dangling_of_outgrows hstart hout hp) hrest)
    | returned request b => cases hstep₂
    | threw e b => cases hstep₂
  · intro hcond
    obtain ⟨earlier, last, r, rfl, hearlier, hlast⟩ := exists_last_pass hrun
    have hlive := pathLive_of_run (List.cons_ne_nil last []) hcond hearlier
    obtain ⟨r₁, p, hs, hp, hdone, rfl, -⟩ := Reading.returned_of_step hlast
    have hlive₁ : r₁.PathLive := Reading.pathLive_stored hs (started_of_run hearlier).idx_le hlive
    have hstate : p.state = .done := by simpa [isDone] using hdone
    have hcurrent := (Reading.storage_of_pathLive hlive₁ hp).resolve_left (by simp [hstate])
    simp [buildRequest, hcurrent]

end Calls

/-- A request that arrives in two pieces. -/
theorem path_current_two_reads :
    letI := polynomialHash
    Along ReadOutcome.step KeepsView (.reading (.start (.initial 1)))
      [.data (ascii "GET /k HTTP/1.1\r\nHost: "), .data (ascii "a\r\n\r\n")] := by
  let _ := polynomialHash
  have hrun : run ReadOutcome.step (.reading (.start (.initial 1)))
      [.data (ascii "GET /k HTTP/1.1\r\nHost: "), .data (ascii "a\r\n\r\n")] =
        some (.returned (some
          { headers := [(ascii "Host", ascii "a")], queryParameters := [], body := []
            path := some (ascii "/k"), version := .http1_1, method := .get })
          (((ReadBuff.initial 1).store 0 (ascii "GET /k HTTP/1.1\r\nHost: ")
            (by decide +kernel)).store 23 (ascii "a\r\n\r\n") (by decide +kernel))) := by
    decide +kernel
  exact (path_current_iff hrun).mp (Option.some_ne_none _)

/-- A head of more than 1024 bytes: the buffer is full when the request line has been
parsed, and moves. -/
theorem path_outgrown :
    ¬ ∀ (_ : StdHash) (buff b : ReadBuff) (reads : List ReadResult) (request : HttpRequest),
      run ReadOutcome.step (.reading (.start buff)) reads = some (.returned (some request) b) →
        request.path ≠ none := by
  intro h
  let _ := polynomialHash
  let reads : List ReadResult :=
    [.data (ascii "GET /k HTTP/1.1\r\nA:" ++ List.replicate 1005 97), .data (ascii "\r\n\r\n")]
  have hrun : run ReadOutcome.step (.reading (.start (.initial 1))) reads =
      some (.returned (some
        { headers := [(ascii "A", List.replicate 1005 97)], queryParameters := [], body := []
          path := none, version := .http1_1, method := .get })
        ((((ReadBuff.initial 1).store 0
          (ascii "GET /k HTTP/1.1\r\nA:" ++ List.replicate 1005 97) (by decide +kernel)).resize
            2048).store 1024 (ascii "\r\n\r\n") (by decide +kernel))) := by
    decide +kernel
  exact h polynomialHash (.initial 1) _ reads _ hrun rfl

end TpAdvanced
