import TpAdvanced.Http.KeepAlive

/-!
# Room for a read

`readRequest` gives `read` the rest of its buffer, from `read_idx` on.  A full buffer
is doubled before the loop comes back to the `read`, so there is always room: a result
of 0 is the end of the stream.  The bytes received in the call stay at the front of the
buffer in every pass, whether it stores bytes, finds none, or moves the buffer.

## Main definitions

* `Reading.room` — how many bytes `read` is asked for.
* `Reading.Kept` — the received bytes lie at the front of the buffer.
* `ReadOutcome.Keeps` — what holds behind every pass.

## Main results

* `keeps_step` — a pass of the loop.
* `size_pos_step` — the buffer of a handler is never empty.
* `reads_have_room` — **every read is asked for something, inside the buffer, and
  nothing received is lost.**
-/

namespace TpAdvanced

open CText Machine

/-- The buffer begins with these bytes. -/
def ReadBuff.Begins (b : ReadBuff) (bytes : Bytes) : Prop :=
  bytes.length ≤ b.size ∧ b.data.take bytes.length = bytes

namespace Reading

/-- The number of bytes that `read` is asked for, at the position `read_idx`. -/
def room (r : Reading) : ℕ := r.buff.size - r.readIdx

/-- The read asks for something, and its range lies in the buffer. -/
structure HasRoom (r : Reading) : Prop where
  room_pos : 0 < r.room
  inside : r.readIdx + r.room ≤ r.buff.size

/-- The bytes received in the call are counted, and lie at the front of the buffer. -/
structure Kept (bytes : Bytes) (r : Reading) : Prop where
  idx_le : r.readIdx ≤ r.buff.size
  idx_eq : r.readIdx = bytes.length
  text : r.text = bytes

variable {r r₁ : Reading} {bytes : Bytes} {x : ReadResult}

theorem hasRoom_iff : r.HasRoom ↔ r.readIdx < r.buff.size := by
  refine ⟨fun h => Nat.lt_of_sub_pos h.room_pos, fun h => ⟨Nat.sub_pos_of_lt h, ?_⟩⟩
  rw [room, Nat.add_sub_cancel' h.le]

theorem kept_start (buff : ReadBuff) : (start buff).Kept [] where
  idx_le := Nat.zero_le _
  idx_eq := rfl
  text := List.take_zero

theorem Kept.begins (h : r.Kept bytes) : r.buff.Begins bytes := by
  rw [ReadBuff.Begins, ← h.idx_eq]
  exact ⟨h.idx_le, h.text⟩

/-- A pass that comes to the parser has stored bytes, or found none. -/
theorem stored_cases (hs : r.stored x = some r₁) :
    (∃ d h, x = .data d ∧ r₁ = r.fill d h) ∨ x = .again false ∧ r₁ = r := by
  cases x with
  | data d =>
    simp only [stored] at hs
    split at hs
    · rename_i hd
      cases hs
      exact .inl ⟨d, hd.1, rfl, rfl⟩
    · cases hs
  | again timedOut =>
    cases timedOut with
    | true => cases hs
    | false =>
      cases hs
      exact .inr ⟨rfl, rfl⟩
  | eof => cases hs
  | failed => cases hs

/-- **Behind a read** the new bytes follow the ones received before. -/
theorem Kept.stored (h : r.Kept bytes) (hs : r.stored x = some r₁) :
    r₁.Kept (bytes ++ x.bytes) := by
  obtain ⟨-, htext, hidx, -, -⟩ := stored_spec hs h.idx_le
  refine ⟨hidx, ?_, by rw [htext, h.text]⟩
  rw [List.length_append, ← h.idx_eq]
  rcases stored_cases hs with ⟨d, -, rfl, rfl⟩ | ⟨rfl, rfl⟩ <;> rfl

theorem size_stored (hs : r.stored x = some r₁) : r₁.buff.size = r.buff.size := by
  rcases stored_cases hs with ⟨d, hd, rfl, rfl⟩ | ⟨rfl, rfl⟩
  · exact size_fill r hd
  · rfl

theorem size_resize (b : ReadBuff) {n : ℕ} (h : b.size ≤ n) : (b.resize n).size = n := by
  have hlen : b.data.length ≤ n := h
  unfold ReadBuff.resize
  split
  all_goals
    simp only [ReadBuff.size, List.length_append, List.length_take, List.length_replicate]
    omega

theorem size_grown (r : Reading) :
    r.grown.size = if r.buff.size ≤ r.readIdx then 2 * r.buff.size else r.buff.size := by
  unfold grown
  split
  · exact size_resize r.buff (by omega)
  · rfl

/-- The buffer that the loop goes on with has room behind the received bytes. -/
theorem lt_size_grown (hidx : r.readIdx ≤ r.buff.size) (hpos : 0 < r.buff.size) :
    r.readIdx < r.grown.size := by
  rw [size_grown]
  split <;> omega

/-- **Where the loop goes on** the received bytes are kept, in a buffer with room. -/
theorem Kept.grown (h : r.Kept bytes) (hpos : 0 < r.buff.size) (p : HttpRequestParser) :
    (⟨p, r.readIdx, r.grown⟩ : Reading).Kept bytes ∧
      (⟨p, r.readIdx, r.grown⟩ : Reading).HasRoom := by
  obtain ⟨htext, -, hidx⟩ := grown_spec r p h.idx_le
  exact ⟨⟨hidx, h.idx_eq, htext.trans h.text⟩, hasRoom_iff.mpr (lt_size_grown h.idx_le hpos)⟩

/-- What `read` may store is what it is asked for. -/
theorem step_data_isSome_iff [StdHash] (hidx : r.readIdx ≤ r.buff.size) (d : Bytes) :
    (r.step (.data d)).isSome ↔ d ≠ [] ∧ d.length ≤ r.room := by
  have hroom : d.length ≤ r.room ↔ r.readIdx + d.length ≤ r.buff.size := by
    rw [room]
    omega
  rw [step, hroom]
  split <;> simp_all

end Reading

/-- **What `readRequest` keeps**: at a read, room for it and the bytes received so far, also
when this read has stored its own; and at the end of the call the bytes received in it. -/
def ReadOutcome.Keeps (bytes : Bytes) : ReadOutcome → Prop
  | .reading r => r.Kept bytes ∧ r.HasRoom ∧
      ∀ x r₁, r.stored x = some r₁ → r₁.Kept (bytes ++ x.bytes)
  | .returned _ b => b.Begins bytes
  | .threw _ b => b.Begins bytes

theorem keeps_reading {r : Reading} {bytes : Bytes} (h : r.Kept bytes) (hroom : r.HasRoom) :
    ReadOutcome.Keeps bytes (.reading r) :=
  ⟨h, hroom, fun _ _ => h.stored⟩

section Calls

variable [StdHash] {bytes : Bytes} {o o' : ReadOutcome} {reads : List ReadResult}

/-- Behind the parser. -/
theorem keeps_afterRead {r : Reading} (h : r.Kept bytes) (hpos : 0 < r.buff.size) :
    r.afterRead.Keeps bytes := by
  rcases r.afterRead_cases with ⟨e, -, ha⟩ | ⟨p, -, ⟨-, ha⟩ | ⟨-, ha⟩⟩
  · rw [ha]
    exact h.begins
  · rw [ha]
    exact h.begins
  · rw [ha]
    exact keeps_reading (h.grown hpos p).1 (h.grown hpos p).2

/-- A pass comes to the parser, or ends the call with the buffer as it is. -/
theorem step_comes_to {r : Reading} {x : ReadResult} (h : r.step x = some o) :
    (∃ r₁, r.stored x = some r₁ ∧ o = r₁.afterRead) ∨
      x.bytes = [] ∧ ((∃ request, o = .returned request r.buff) ∨ ∃ e, o = .threw e r.buff) := by
  cases x with
  | data d =>
    simp only [Reading.step] at h
    split at h
    · rename_i hd
      cases h
      exact .inl ⟨_, by rw [Reading.stored, dif_pos hd.symm], rfl⟩
    · cases h
  | again timedOut =>
    cases timedOut with
    | true =>
      cases h
      exact .inr ⟨rfl, .inr ⟨_, rfl⟩⟩
    | false =>
      cases h
      exact .inl ⟨r, rfl, rfl⟩
  | eof =>
    cases h
    exact .inr ⟨rfl, .inl ⟨_, rfl⟩⟩
  | failed =>
    cases h
    exact .inr ⟨rfl, .inr ⟨_, rfl⟩⟩

/-- **A pass of the loop.** -/
theorem keeps_step {x : ReadResult} (h : o.Keeps bytes) (hstep : o.step x = some o') :
    o'.Keeps (bytes ++ x.bytes) := by
  cases o with
  | reading r =>
    obtain ⟨hkept, hroom, hstored⟩ := h
    rcases step_comes_to hstep with ⟨r₁, hs, rfl⟩ | ⟨hnil, hend⟩
    · have hpos : 0 < r₁.buff.size := by
        rw [Reading.size_stored hs]
        exact (Nat.zero_le _).trans_lt (Reading.hasRoom_iff.mp hroom)
      exact keeps_afterRead (hstored x r₁ hs) hpos
    · rw [hnil, List.append_nil]
      rcases hend with ⟨request, rfl⟩ | ⟨e, rfl⟩
      · exact hkept.begins
      · exact hkept.begins
  | returned request b => cases hstep
  | threw e b => cases hstep

/-- A call from anywhere in its loop. -/
theorem keeps_run (h : o.Keeps bytes) (hrun : run ReadOutcome.step o reads = some o') :
    o'.Keeps (bytes ++ received reads) := by
  induction reads generalizing o bytes with
  | nil =>
    cases hrun
    rw [received_nil, List.append_nil]
    exact h
  | cons x reads ih =>
    obtain ⟨o₁, hstep, hrest⟩ := run_cons_eq_some.mp hrun
    rw [received_cons, ← List.append_assoc]
    exact ih (keeps_step h hstep) hrest

theorem keeps_call {buff : ReadBuff} (hpos : 0 < buff.size)
    (hrun : run ReadOutcome.step (.reading (.start buff)) reads = some o) :
    o.Keeps (received reads) :=
  keeps_run (keeps_reading (Reading.kept_start buff) (Reading.hasRoom_iff.mpr hpos)) hrun

/-! ### The buffer of a handler -/

/-- The buffer that a pass leaves. -/
def ReadOutcome.buff : ReadOutcome → ReadBuff
  | .reading r => r.buff
  | .returned _ b => b
  | .threw _ b => b

/-- A pass leaves no empty buffer behind. -/
theorem size_pos_pass {r : Reading} {x : ReadResult} (h : r.step x = some o)
    (hpos : 0 < r.buff.size) : 0 < o.buff.size := by
  rcases step_comes_to h with ⟨r₁, hs, rfl⟩ | ⟨-, ⟨request, rfl⟩ | ⟨e, rfl⟩⟩
  · rw [← Reading.size_stored hs] at hpos
    rcases r₁.afterRead_cases with ⟨e, -, ha⟩ | ⟨p, -, ⟨-, ha⟩ | ⟨-, ha⟩⟩
    · rwa [ha]
    · rwa [ha]
    · rw [ha, ReadOutcome.buff, Reading.size_grown]
      split <;> omega
  · exact hpos
  · exact hpos

variable {s s' : HandlerState} {e : HandlerEvent} {h : ConnectionHandler}

omit [StdHash] in
theorem readBuff_continueWrite (reply : Reply) (written : ℕ) :
    (h.continueWrite reply written).handler.readBuff = h.readBuff := by
  unfold ConnectionHandler.continueWrite
  split
  · cases reply with
    | response shouldClose => cases shouldClose <;> rfl
    | rejection => rfl
  · rfl

omit [StdHash] in
theorem readBuff_catchThrown (x : Thrown) : (h.catchThrown x).handler.readBuff = h.readBuff := by
  cases x with
  | parsingException message code => exact readBuff_continueWrite _ _
  | _ => rfl

omit [StdHash] in
theorem readBuff_throwInWrite (reply : Reply) (x : Thrown) :
    (h.throwInWrite reply x).handler.readBuff = h.readBuff := by
  cases reply with
  | response shouldClose => exact readBuff_catchThrown x
  | rejection => rfl

theorem readBuff_afterReadRequest : (h.afterReadRequest o).handler.readBuff = o.buff := by
  cases o with
  | reading r => rfl
  | returned request b => cases request <;> rfl
  | threw x b => exact readBuff_catchThrown x

/-- Between two calls of `readRequest` the buffer stays as it is. -/
theorem readBuff_of_between (hstep : s.step e = some s') (hf : s.frame.Between) :
    s'.handler.readBuff = s.handler.readBuff := by
  obtain ⟨handler, frame⟩ := s
  cases HandlerState.rule_of_step hstep with
  | expired ht => rfl
  | entered ht => rfl
  | replied request shouldClose response request' => exact readBuff_continueWrite _ _
  | repliedThrow request shouldClose x => exact readBuff_catchThrown x
  | wrote reply written n hn => exact readBuff_continueWrite _ _
  | writeAgain reply written now => rfl
  | writeReset reply written =>
    cases reply with
    | response shouldClose => cases shouldClose <;> rfl
    | rejection => rfl
  | writeFailed reply written reason => exact readBuff_throwInWrite reply _
  | writeExpired reply written ht => exact readBuff_throwInWrite reply _
  | writeResumed reply written ht => exact readBuff_continueWrite _ _
  | _ => cases hf

/-- **A step of `operator()`** leaves no empty buffer behind. -/
theorem size_pos_step (hpos : 0 < s.handler.readBuff.size) (hstep : s.step e = some s') :
    0 < s'.handler.readBuff.size := by
  rcases HandlerState.step_cases hstep with ⟨parser, readIdx, x, -, -, -, -, hread⟩ |
    ⟨parser, readIdx, now, -, -, rfl⟩ | ⟨-, hf, -⟩
  · obtain ⟨o, ho, rfl⟩ := Option.map_eq_some_iff.mp hread
    rw [readBuff_afterReadRequest]
    exact size_pos_pass ho hpos
  · exact hpos
  · rwa [readBuff_of_between hstep hf]

/-- **Room for every read.**  In every call of `readRequest` with a buffer that is not
empty, each read is asked for a positive number of bytes inside the buffer, and behind
every step the received bytes are the front of the buffer; and `operator()` makes each
of its calls with such a buffer. -/
theorem reads_have_room :
    (∀ (buff : ReadBuff) (reads : List ReadResult) (o : ReadOutcome), 0 < buff.size →
      run ReadOutcome.step (.reading (.start buff)) reads = some o → o.Keeps (received reads)) ∧
    ∀ (set : EventsSet) (storage : ℕ) (events : List HandlerEvent) (s : HandlerState),
      run HandlerState.step ⟨.new set storage, .created⟩ events = some s →
        0 < s.handler.readBuff.size := by
  refine ⟨fun buff reads o hpos hrun => keeps_call hpos hrun, fun set storage events s hrun => ?_⟩
  refine invariant_run (fun s => 0 < s.handler.readBuff.size)
    (fun s e s' hpos hstep => size_pos_step hpos hstep) ?_ hrun
  rw [ConnectionHandler.new, ReadBuff.initial, ReadBuff.size, List.length_replicate]
  decide

end Calls

/-- A buffer of two bytes: two arrive and fill it, then none, then one more. -/
theorem reads_have_room_doubled :
    letI := polynomialHash
    ∃ r : Reading, run ReadOutcome.step (.reading (.start ⟨[0, 0], 2, 1, Nat.le_refl 2⟩))
        [.data [71, 69], .again false, .data [84]] = some (.reading r) ∧ r.buff.size = 4 ∧
      ReadOutcome.Keeps [71, 69, 84] (.reading r) := by
  let _ := polynomialHash
  have hrun : run ReadOutcome.step (.reading (.start ⟨[0, 0], 2, 1, Nat.le_refl 2⟩))
      [.data [71, 69], .again false, .data [84]] =
        some (.reading ⟨{}, 3, ⟨[71, 69, 84, 0], 4, 2, Nat.le_refl 4⟩⟩) := by
    decide +kernel
  exact ⟨_, hrun, rfl, reads_have_room.1 _ _ _ (by decide) hrun⟩

end TpAdvanced
