import Mathlib.Data.List.Induction
import TpAdvanced.Lib.Machine
import TpAdvanced.Lib.SizeT

/-!
# Exact transfers

A channel hands over what was put on it, in the same order.  A call that transfers a
buffer in full does so in parts: it asks for the rest of the buffer, gets some of it,
adds that to its total, and ends when the total is the length of the buffer.  The two
sides of a channel take their parts in any order.

## Main definitions

* `Call`, `Side` — where such a call stands, and the pass of its loop.
* `Channel.step` — both sides of a channel.
* `Side.Lawful` — what a pass makes of the part that was transferred.
* `Call.Exact` — what the calls guarantee.

## Main results

* `exact_run` — **with lawful passes both calls are exact**, whatever the parts.
-/

namespace Transfer

open Machine

/-! ### Both sides of a channel -/

/-- Where a call that transfers a buffer in full stands. -/
inductive Call (ε : Type*)
  | running (total : ℕ)
  | returned
  | threw (e : ε)
  deriving DecidableEq, Repr

/-- The head of the loop. -/
def Call.head {ε : Type*} (len total : ℕ) : Call ε :=
  if total < len then .running total else .returned

/-- How much a pass asks for. -/
def asked (len total : ℕ) : ℕ := SizeT.sub len total

/-- A side of a channel: an object, and the answers of its system call.  A pass takes
the total to the new one, or throws; `moved` is what the answer has transferred. -/
structure Side (σ A ε : Type*) where
  pass : σ → ℕ → ℕ → A → Except ε ℕ × σ
  moved : A → ℕ

/-- A channel with a call on each side.  `put` is all it has ever been given, `inFlight`
what has not been taken yet. -/
structure Channel (α σ τ ε δ : Type*) where
  writer : σ
  writing : Call ε
  put : List α
  inFlight : List α
  reader : τ
  reading : Call δ
  buffer : List α
  deriving DecidableEq, Repr

inductive Event (A B : Type*)
  | write (a : A)
  | read (b : B)
  deriving DecidableEq, Repr

variable {α σ τ ε δ A B : Type*}

/-- Both calls at their start: `d` is to be written, `buffer` to be filled. -/
def Channel.start (d buffer : List α) (writer : σ) (reader : τ) : Channel α σ τ ε δ where
  writer := writer
  writing := .head d.length 0
  put := []
  inFlight := []
  reader := reader
  reading := .head d.length 0
  buffer := buffer

/-- The writer's pass, on the bytes from `total` on. -/
def Channel.write (d : List α) (W : Side σ A ε) (c : Channel α σ τ ε δ) (a : A) :
    Option (Channel α σ τ ε δ) :=
  match c.writing with
  | .running total =>
    if W.moved a ≤ asked d.length total then
      match W.pass c.writer d.length total a with
      | (.ok total', writer) =>
        let part := (d.drop total).take (W.moved a)
        some { c with
          writer, writing := .head d.length total', put := c.put ++ part
          inFlight := c.inFlight ++ part }
      | (.error e, writer) => some { c with writer, writing := .threw e }
    else none
  | _ => none

/-- The reader's pass, into the buffer from `total` on. -/
def Channel.read (d : List α) (R : Side τ B δ) (c : Channel α σ τ ε δ) (b : B) :
    Option (Channel α σ τ ε δ) :=
  match c.reading with
  | .running total =>
    let n := R.moved b
    if n ≤ asked d.length total ∧ n ≤ c.inFlight.length then
      match R.pass c.reader d.length total b with
      | (.ok total', reader) =>
        some { c with
          reader, reading := .head d.length total', inFlight := c.inFlight.drop n
          buffer := c.buffer.take total ++ c.inFlight.take n ++ c.buffer.drop (total + n) }
      | (.error e, reader) => some { c with reader, reading := .threw e }
    else none
  | _ => none

/-- A pass on one of the sides. -/
def Channel.step (d : List α) (W : Side σ A ε) (R : Side τ B δ) (c : Channel α σ τ ε δ) :
    Event A B → Option (Channel α σ τ ε δ)
  | .write a => c.write d W a
  | .read b => c.read d R b

/-! ### Exactness -/

/-- What a pass makes of the part that was transferred: a ready object goes on with
the sum, no part at all makes the pass throw, and so does an object that is not ready. -/
structure Side.Lawful (W : Side σ A ε) (Ready : σ → Prop) : Prop where
  adds : ∀ s len total a, Ready s → len < 2 ^ 64 → total + W.moved a ≤ len → 0 < W.moved a →
    ∃ s', W.pass s len total a = (.ok (total + W.moved a), s') ∧ Ready s'
  stops : ∀ s len total a, total < len → W.moved a = 0 →
    ∃ e s', W.pass s len total a = (.error e, s')
  refuses : ∀ s len total a, ¬ Ready s → ∃ e s', W.pass s len total a = (.error e, s')

/-- What is known of a call for `len` bytes that has transferred `n` of them, in parts
of these sizes. -/
structure Call.Exact (call : Call ε) (len n : ℕ) (parts : List ℕ) (ready : Prop) : Prop where
  /-- A call that runs has something left to ask for, up to the end of the buffer. -/
  within : ∀ total, call = .running total →
    total = n ∧ total < len ∧ total + asked len total = len
  complete : call = .returned → n = len
  /-- A missing part makes the call throw, and nothing else does. -/
  short : 0 ∈ parts → ∃ e, call = .threw e
  threw : ∀ e, call = .threw e → 0 ∈ parts ∨ ¬ ready
  /-- There are no more passes than bytes. -/
  progress : (∀ e, call ≠ .threw e) → parts.length ≤ n

/-- The sizes of the parts that were written. -/
def written (W : Side σ A ε) (events : List (Event A B)) : List ℕ :=
  events.filterMap fun e => match e with
    | .write a => some (W.moved a)
    | .read _ => none

/-- The sizes of the parts that were read. -/
def taken (R : Side τ B δ) (events : List (Event A B)) : List ℕ :=
  events.filterMap fun e => match e with
    | .write _ => none
    | .read b => some (R.moved b)

section Call

variable {call : Call ε} {len n : ℕ} {parts : List ℕ} {ready : Prop}

/-- The head of the loop is exact if the total is. -/
theorem Call.Exact.head (hlen : len < 2 ^ 64) (hn : n ≤ len) (hparts : 0 ∉ parts)
    (hprogress : parts.length ≤ n) : Call.Exact (.head len n : Call ε) len n parts ready := by
  unfold Call.head
  by_cases hlt : n < len
  · rw [if_pos hlt]
    refine ⟨?_, nofun, fun h => absurd h hparts, nofun, fun _ => hprogress⟩
    rintro total ⟨⟩
    refine ⟨rfl, hlt, ?_⟩
    rw [asked, SizeT.sub_of_le hn hlen]
    omega
  · rw [if_neg hlt]
    exact ⟨nofun, fun _ => by omega, fun h => absurd h hparts, nofun, fun _ => hprogress⟩

theorem Call.Exact.start (hlen : len < 2 ^ 64) :
    Call.Exact (.head len 0 : Call ε) len 0 [] ready :=
  .head hlen (Nat.zero_le _) List.not_mem_nil (Nat.le_refl _)

/-- A pass that throws has found no part, or an object that is not ready. -/
theorem Call.Exact.throw {e : ε} {m : ℕ} (hcause : m = 0 ∨ ¬ ready) :
    Call.Exact (.threw e) len n (parts ++ [m]) ready := by
  refine ⟨nofun, nofun, fun _ => ⟨e, rfl⟩, ?_, fun h => absurd rfl (h e)⟩
  rintro _ -
  refine hcause.imp ?_ id
  rintro rfl
  exact List.mem_append_right _ List.mem_cons_self

/-- While a call runs every part has been there. -/
theorem Call.Exact.parts_of_running {total : ℕ} (h : call.Exact len n parts ready)
    (hrun : call = .running total) : 0 ∉ parts := by
  intro hzero
  obtain ⟨e, he⟩ := h.short hzero
  cases hrun.symm.trans he

/-- A pass with a part goes on with the sum. -/
theorem Call.Exact.add {total m : ℕ} (h : call.Exact len n parts ready) (hlen : len < 2 ^ 64)
    (hrun : call = .running total) (hm : total + m ≤ len) (hpos : 0 < m) :
    Call.Exact (.head len (total + m) : Call ε) len (total + m) (parts ++ [m]) ready := by
  have hprogress := h.progress (by rintro e he; cases hrun.symm.trans he)
  obtain ⟨rfl, -⟩ := h.within total hrun
  refine .head hlen hm ?_ ?_
  · rw [List.mem_append, List.mem_singleton, not_or]
    exact ⟨h.parts_of_running hrun, by omega⟩
  · rw [List.length_append, List.length_singleton]
    omega

/-- What is asked for, for a total that fits. -/
theorem Call.Exact.le_of_asked {total m : ℕ} (h : call.Exact len n parts ready)
    (hrun : call = .running total) (hm : m ≤ asked len total) : total + m ≤ len := by
  have := (h.within total hrun).2.2
  omega

end Call

/-! ### Runs -/

/-- **The invariant** of a channel: what was put on it is the beginning of `d`, and
what was taken from it is in the buffer. -/
structure Inv (d : List α) (W : Side σ A ε) (R : Side τ B δ) (w : σ → Prop) (r : τ → Prop)
    (readyW readyR : Prop) (events : List (Event A B)) (c : Channel α σ τ ε δ) : Prop where
  put : c.put <+: d
  got : ∃ got, c.put = got ++ c.inFlight ∧ c.buffer.take got.length = got ∧
    c.reading.Exact d.length got.length (taken R events) readyR
  length : c.buffer.length = d.length
  writing : c.writing.Exact d.length c.put.length (written W events) readyW
  writer : ∀ total, c.writing = .running total → (w c.writer ↔ readyW)
  reader : ∀ total, c.reading = .running total → (r c.reader ↔ readyR)

section Runs

variable {d : List α} {W : Side σ A ε} {R : Side τ B δ} {w : σ → Prop} {r : τ → Prop}
  {readyW readyR : Prop} {events : List (Event A B)} {c c' : Channel α σ τ ε δ}

@[simp] theorem written_write (a : A) :
    written W (events ++ [.write a]) = written W events ++ [W.moved a] := by
  simp [written]

@[simp] theorem written_read (b : B) : written W (events ++ [.read b]) = written W events := by
  simp [written]

@[simp] theorem taken_write (a : A) : taken R (events ++ [.write a]) = taken R events := by
  simp [taken]

@[simp] theorem taken_read (b : B) :
    taken R (events ++ [.read b]) = taken R events ++ [R.moved b] := by
  simp [taken]

/-- A part that has been transferred, or the reason why a pass throws. -/
theorem Side.Lawful.pass_cases {Ready : σ → Prop} (h : W.Lawful Ready) {s : σ} {len total : ℕ}
    {a : A} (hlen : len < 2 ^ 64) (hlt : total < len) (hle : total + W.moved a ≤ len) :
    (∃ s', W.pass s len total a = (.ok (total + W.moved a), s') ∧ Ready s ∧ Ready s' ∧
      0 < W.moved a) ∨
    ∃ e s', W.pass s len total a = (.error e, s') ∧ (W.moved a = 0 ∨ ¬ Ready s) := by
  by_cases hready : Ready s
  · rcases Nat.eq_zero_or_pos (W.moved a) with h0 | hpos
    · obtain ⟨e, s', hpass⟩ := h.stops s len total a hlt h0
      exact .inr ⟨e, s', hpass, .inl h0⟩
    · obtain ⟨s', hpass, hready'⟩ := h.adds s len total a hready hlen hle hpos
      exact .inl ⟨s', hpass, hready, hready', hpos⟩
  · obtain ⟨e, s', hpass⟩ := h.refuses s len total a hready
    exact .inr ⟨e, s', hpass, .inr hready⟩

theorem Inv.write (h : Inv d W R w r readyW readyR events c) (hW : W.Lawful w)
    (hd : d.length < 2 ^ 64) {a : A} (hstep : c.write d W a = some c') :
    Inv d W R w r readyW readyR (events ++ [.write a]) c' := by
  unfold Channel.write at hstep
  cases hrun : c.writing with
  | returned => simp [hrun] at hstep
  | threw e => simp [hrun] at hstep
  | running total =>
    simp only [hrun] at hstep
    by_cases hasked : W.moved a ≤ asked d.length total
    · rw [if_pos hasked] at hstep
      have hle := h.writing.le_of_asked hrun hasked
      obtain ⟨htotal, hlt, -⟩ := h.writing.within total hrun
      obtain ⟨got, hgot, hbuffer, hreading⟩ := h.got
      rcases hW.pass_cases (s := c.writer) hd hlt hle with
        ⟨s', hpass, hready, hready', hpos⟩ | ⟨e, s', hpass, hcause⟩
      · rw [hpass] at hstep
        cases hstep
        have hput : c.put = d.take total := by
          rw [htotal]
          exact List.prefix_iff_eq_take.mp h.put
        -- what is put now follows in `d` on what was put before
        have hput' : c.put ++ (d.drop total).take (W.moved a) = d.take (total + W.moved a) := by
          rw [hput, ← List.take_add]
        have hlength : (d.take (total + W.moved a)).length = total + W.moved a := by
          rw [List.length_take, Nat.min_eq_left hle]
        refine ⟨?_, ?_, h.length, ?_, ?_, h.reader⟩
        · exact hput' ▸ List.take_prefix _ _
        · refine ⟨got, ?_, hbuffer, by rwa [taken_write]⟩
          change c.put ++ _ = got ++ (c.inFlight ++ _)
          rw [hgot, List.append_assoc]
        · change Call.Exact _ _ (c.put ++ _).length _ _
          rw [hput', hlength, written_write]
          exact h.writing.add hd hrun hle hpos
        · intro _ _
          exact ⟨fun _ => (h.writer total hrun).mp hready, fun _ => hready'⟩
      · rw [hpass] at hstep
        cases hstep
        refine ⟨h.put, ⟨got, hgot, hbuffer, by rwa [taken_write]⟩, h.length, ?_, nofun, h.reader⟩
        rw [written_write]
        exact .throw (hcause.imp_right fun hnot => mt (h.writer total hrun).mpr hnot)
    · -- a call is never given more than it has asked for
      rw [if_neg hasked] at hstep
      cases hstep

theorem Inv.read (h : Inv d W R w r readyW readyR events c) (hR : R.Lawful r)
    (hd : d.length < 2 ^ 64) {b : B} (hstep : c.read d R b = some c') :
    Inv d W R w r readyW readyR (events ++ [.read b]) c' := by
  unfold Channel.read at hstep
  cases hrun : c.reading with
  | returned => simp [hrun] at hstep
  | threw e => simp [hrun] at hstep
  | running total =>
    simp only [hrun] at hstep
    by_cases hasked : R.moved b ≤ asked d.length total ∧ R.moved b ≤ c.inFlight.length
    · rw [if_pos hasked] at hstep
      obtain ⟨got, hgot, hbuffer, hreading⟩ := h.got
      have hle := hreading.le_of_asked hrun hasked.1
      obtain ⟨htotal, hlt, -⟩ := hreading.within total hrun
      rcases hR.pass_cases (s := c.reader) hd hlt hle with
        ⟨s', hpass, hready, hready', hpos⟩ | ⟨e, s', hpass, hcause⟩
      · rw [hpass] at hstep
        cases hstep
        subst htotal
        -- what is got now is the front of what is in flight
        have hlength : (got ++ c.inFlight.take (R.moved b)).length = got.length + R.moved b := by
          rw [List.length_append, List.length_take, Nat.min_eq_left hasked.2]
        refine ⟨h.put, ⟨got ++ c.inFlight.take (R.moved b), ?_, ?_, ?_⟩, ?_, ?_, h.writer, ?_⟩
        · change c.put = _ ++ c.inFlight.drop (R.moved b)
          rw [hgot, List.append_assoc, List.take_append_drop]
        · rw [hbuffer, hlength]
          exact List.take_left' hlength
        · rw [hlength, taken_read]
          exact hreading.add hd hrun hle hpos
        · rw [hbuffer, List.length_append, hlength, List.length_drop, h.length]
          omega
        · rw [written_read]
          exact h.writing
        · intro _ _
          exact ⟨fun _ => (h.reader _ hrun).mp hready, fun _ => hready'⟩
      · rw [hpass] at hstep
        cases hstep
        refine ⟨h.put, ⟨got, hgot, hbuffer, ?_⟩, h.length, ?_, h.writer, nofun⟩
        · rw [taken_read]
          exact .throw (hcause.imp_right fun hnot => mt (h.reader total hrun).mpr hnot)
        · rw [written_read]
          exact h.writing
    · rw [if_neg hasked] at hstep
      cases hstep

theorem Inv.start {buffer : List α} {writer : σ} {reader : τ} (hd : d.length < 2 ^ 64)
    (hbuffer : buffer.length = d.length) :
    Inv d W R w r (w writer) (r reader) [] (.start d buffer writer reader : Channel α σ τ ε δ) where
  put := List.nil_prefix
  got := ⟨[], rfl, rfl, .start hd⟩
  length := hbuffer
  writing := .start hd
  writer := fun _ _ => Iff.rfl
  reader := fun _ _ => Iff.rfl

theorem inv_run (hW : W.Lawful w) (hR : R.Lawful r) {buffer : List α} {writer : σ} {reader : τ}
    (hd : d.length < 2 ^ 64) (hbuffer : buffer.length = d.length)
    (hrun : run (Channel.step d W R) (.start d buffer writer reader) events = some c) :
    Inv d W R w r (w writer) (r reader) events c := by
  induction events using List.reverseRecOn generalizing c with
  | nil =>
    cases hrun
    exact .start hd hbuffer
  | append_singleton events e ih =>
    obtain ⟨c', hrun', hstep⟩ := run_append_eq_some.mp hrun
    rw [run_singleton] at hstep
    cases e with
    | write a => exact (ih hrun').write hW hd hstep
    | read b => exact (ih hrun').read hR hd hstep

end Runs

/-- The guarantee: each call is exact, and what was put on the channel, or taken from
it, is what `d` begins with. -/
structure Exact (d : List α) (W : Side σ A ε) (R : Side τ B δ) (readyW readyR : Prop)
    (events : List (Event A B)) (c : Channel α σ τ ε δ) : Prop where
  put : c.put <+: d
  buffer_length : c.buffer.length = d.length
  writing : c.writing.Exact d.length c.put.length (written W events) readyW
  reading : c.reading.Exact d.length (c.put.length - c.inFlight.length) (taken R events) readyR
  put_eq : c.writing = .returned → c.put = d
  buffer_eq : c.reading = .returned → c.buffer = d

/-- **With lawful passes both calls are exact**, in every run. -/
theorem exact_run {d buffer : List α} {W : Side σ A ε} {R : Side τ B δ} {w : σ → Prop}
    {r : τ → Prop} (hW : W.Lawful w) (hR : R.Lawful r) {writer : σ} {reader : τ}
    (hd : d.length < 2 ^ 64) (hbuffer : buffer.length = d.length) {events : List (Event A B)}
    {c : Channel α σ τ ε δ}
    (hrun : run (Channel.step d W R) (.start d buffer writer reader) events = some c) :
    Exact d W R (w writer) (r reader) events c := by
  have hinv := inv_run hW hR hd hbuffer hrun
  obtain ⟨got, hgot, hfilled, hreading⟩ := hinv.got
  have hlength : c.put.length - c.inFlight.length = got.length := by
    rw [hgot, List.length_append]
    omega
  refine ⟨hinv.put, hinv.length, hinv.writing, hlength ▸ hreading, ?_, ?_⟩
  · intro hreturned
    exact hinv.put.eq_of_length (hinv.writing.complete hreturned)
  · intro hreturned
    have hfull := hreading.complete hreturned
    -- the bytes taken are a beginning of `d`, and as many
    have hprefix : got <+: d := (hgot ▸ List.prefix_append got c.inFlight).trans hinv.put
    rw [← hprefix.eq_of_length hfull, ← hfilled, hfull, ← hinv.length, List.take_length]

end Transfer
