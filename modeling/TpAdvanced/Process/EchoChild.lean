import Mathlib.Data.List.Basic
import TpAdvanced.Lib.CText

/-!
# The echo program

`echo` copies its standard input to its standard output, 256 bytes at a time, through the
buffers of the two streams.  `stdin` is read when its buffer is empty, and `stdout` is
written when its buffer is full and there is more, and at the end.  The model cuts the
program at its system calls and at its copies.

## Main definitions

* `Sizes` — the sizes of pipes and buffers.
* `Child`, `ChildEvent`, `Child.step` — the `main` of the program.
* `Child.Rule` — what its steps can do, rule by rule.
* `Child.Fits`, `Child.Blocks` — its invariants.

## Main results

* `held_step` — what is read is written, in order.
* `blocks_step` — up to the end of its input, it writes whole buffers.
* `goes_on` — where the program stops, it waits for one of the two pipes.
-/

namespace TpAdvanced

open CText

namespace ProcessEcho

/-- The sizes of the two pipes, and those of the buffers of the child's streams. -/
structure Sizes where
  stdin : ℕ
  stdout : ℕ
  input : ℕ
  output : ℕ
  stdin_pos : 0 < stdin
  stdout_pos : 0 < stdout
  input_pos : 0 < input
  output_pos : 0 < output

/-- `char buffer[256]`. -/
def bufferSize : ℕ := 256

/-- Where the program stands.  `input` and `output` are in the buffers of the streams. -/
inductive Child
  /-- `fread`, with what `buffer` has so far. -/
  | fread (input buffer output : Bytes)
  /-- `fwrite`, with what is left of `buffer`, and whether `stdout` is being written. -/
  | fwrite (feof : Bool) (input buffer output : Bytes) (flushing : Bool)
  /-- Behind `main`. -/
  | exiting (output : Bytes)
  | exited
  deriving DecidableEq, Repr

inductive ChildEvent
  /-- `stdin` is read. -/
  | read (d : Bytes)
  | readEof
  /-- From the buffer of `stdin` to `buffer`. -/
  | copyIn
  /-- From `buffer` to the buffer of `stdout`. -/
  | copyOut
  /-- So much of the buffer of `stdout` is written. -/
  | write (n : ℕ)
  deriving DecidableEq, Repr

@[simp] def ChildEvent.bytesRead : ChildEvent → Bytes
  | .read d => d
  | _ => []

namespace Child

@[simp] def input : Child → Bytes
  | .fread input _ _ | .fwrite _ input _ _ _ => input
  | .exiting _ | .exited => []

@[simp] def buffer : Child → Bytes
  | .fread _ buffer _ | .fwrite _ _ buffer _ _ => buffer
  | .exiting _ | .exited => []

@[simp] def output : Child → Bytes
  | .fread _ _ output | .fwrite _ _ _ output _ | .exiting output => output
  | .exited => []

/-- `feof(stdin)`. -/
@[simp] def feof : Child → Bool
  | .fread .. => false
  | .fwrite feof .. => feof
  | .exiting _ | .exited => true

/-- What has been read and not written yet. -/
def held (c : Child) : Bytes := c.output ++ c.buffer ++ c.input

@[simp] def bytesWritten (c : Child) : ChildEvent → Bytes
  | .write n => c.output.take n
  | _ => []

/-- Behind the loop. -/
def exit (output : Bytes) : Child := if output = [] then .exited else .exiting output

/-- `while (!feof(stdin))`. -/
def loop (feof : Bool) (input output : Bytes) : Child :=
  if feof then exit output else .fread input [] output

/-- `fwrite` is over when nothing is left to copy. -/
def onWrite (feof : Bool) (input buffer output : Bytes) : Child :=
  if buffer = [] then loop feof input output else .fwrite feof input buffer output false

/-- **A step of the program.** -/
def step (z : Sizes) : Child → ChildEvent → Option Child
  | .fread input buffer output, .read d =>
    if input = [] ∧ d ≠ [] ∧ d.length ≤ z.input then some (.fread d buffer output) else none
  | .fread input buffer output, .readEof =>
    if input = [] then some (onWrite true [] buffer output) else none
  | .fread input buffer output, .copyIn =>
    let n := bufferSize - buffer.length
    if input = [] then none
    else if (buffer ++ input.take n).length = bufferSize then
      some (onWrite false (input.drop n) (buffer ++ input.take n) output)
    else some (.fread (input.drop n) (buffer ++ input.take n) output)
  | .fwrite feof input buffer output flushing, .copyOut =>
    let n := z.output - output.length
    if flushing = false ∧ output.length < z.output then
      some (onWrite feof input (buffer.drop n) (output ++ buffer.take n))
    else none
  | .fwrite feof input buffer output flushing, .write n =>
    if (flushing = true ∨ output.length = z.output) ∧ 0 < n ∧ n ≤ output.length then
      some (.fwrite feof input buffer (output.drop n) (output.drop n ≠ []))
    else none
  | .exiting output, .write n =>
    if 0 < n ∧ n ≤ output.length then some (exit (output.drop n)) else none
  | _, _ => none

/-- **The rules of the program.** -/
inductive Rule (z : Sizes) : Child → ChildEvent → Child → Prop
  | read (d buffer output : Bytes) (hne : d ≠ []) (hle : d.length ≤ z.input) :
      Rule z (.fread [] buffer output) (.read d) (.fread d buffer output)
  | readEof (buffer output : Bytes) :
      Rule z (.fread [] buffer output) .readEof (onWrite true [] buffer output)
  | filled (input buffer output : Bytes) (hne : input ≠ [])
      (hfull : (buffer ++ input.take (bufferSize - buffer.length)).length = bufferSize) :
      Rule z (.fread input buffer output) .copyIn
        (onWrite false (input.drop (bufferSize - buffer.length))
          (buffer ++ input.take (bufferSize - buffer.length)) output)
  | copyIn (input buffer output : Bytes) (hne : input ≠ [])
      (hfull : (buffer ++ input.take (bufferSize - buffer.length)).length ≠ bufferSize) :
      Rule z (.fread input buffer output) .copyIn
        (.fread (input.drop (bufferSize - buffer.length))
          (buffer ++ input.take (bufferSize - buffer.length)) output)
  | copyOut (feof : Bool) (input buffer output : Bytes) (hlt : output.length < z.output) :
      Rule z (.fwrite feof input buffer output false) .copyOut
        (onWrite feof input (buffer.drop (z.output - output.length))
          (output ++ buffer.take (z.output - output.length)))
  | flush (feof : Bool) (input buffer output : Bytes) (flushing : Bool) (n : ℕ)
      (hfull : flushing = true ∨ output.length = z.output) (hpos : 0 < n)
      (hle : n ≤ output.length) :
      Rule z (.fwrite feof input buffer output flushing) (.write n)
        (.fwrite feof input buffer (output.drop n) (output.drop n ≠ []))
  | exit (output : Bytes) (n : ℕ) (hpos : 0 < n) (hle : n ≤ output.length) :
      Rule z (.exiting output) (.write n) (exit (output.drop n))

variable {z : Sizes} {c c' : Child} {e : ChildEvent}

theorem rule_of_step (h : c.step z e = some c') : Rule z c e c' := by
  cases c with
  | fread input buffer output =>
    cases e with
    | read d =>
      obtain ⟨⟨rfl, hne, hle⟩, ⟨⟩⟩ := Option.ite_none_right_eq_some.mp h
      exact .read d buffer output hne hle
    | readEof =>
      obtain ⟨rfl, ⟨⟩⟩ := Option.ite_none_right_eq_some.mp h
      exact .readEof buffer output
    | copyIn =>
      obtain ⟨hne, h⟩ := Option.ite_none_left_eq_some.mp h
      split at h
      · rename_i hfull
        cases h
        exact .filled input buffer output hne hfull
      · rename_i hfull
        cases h
        exact .copyIn input buffer output hne hfull
    | copyOut | write => cases h
  | fwrite feof input buffer output flushing =>
    cases e with
    | copyOut =>
      obtain ⟨⟨rfl, hlt⟩, ⟨⟩⟩ := Option.ite_none_right_eq_some.mp h
      exact .copyOut feof input buffer output hlt
    | write n =>
      obtain ⟨⟨hfull, hpos, hle⟩, ⟨⟩⟩ := Option.ite_none_right_eq_some.mp h
      exact .flush feof input buffer output flushing n hfull hpos hle
    | read | readEof | copyIn => cases h
  | exiting output =>
    cases e with
    | write n =>
      obtain ⟨⟨hpos, hle⟩, ⟨⟩⟩ := Option.ite_none_right_eq_some.mp h
      exact .exit output n hpos hle
    | read | readEof | copyIn | copyOut => cases h
  | exited => cases e <;> cases h

/-! ### What is kept -/

/-- **What is in the buffers fits there**, and `fwrite` has something to copy. -/
inductive Fits (z : Sizes) : Child → Prop
  | fread {input buffer output : Bytes} (hinput : input.length ≤ z.input)
      (hbuffer : buffer.length < bufferSize) (houtput : output.length ≤ z.output) :
      Fits z (.fread input buffer output)
  | fwrite {feof : Bool} {input buffer output : Bytes} {flushing : Bool}
      (hfeof : feof = true → input = []) (hinput : input.length ≤ z.input)
      (hne : buffer ≠ []) (hbuffer : buffer.length ≤ bufferSize)
      (houtput : output.length ≤ z.output) (hflush : flushing = true → output ≠ []) :
      Fits z (.fwrite feof input buffer output flushing)
  | exiting {output : Bytes} (hne : output ≠ []) (houtput : output.length ≤ z.output) :
      Fits z (.exiting output)
  | exited : Fits z .exited

/-- **Whole buffers have been written**, `n` bytes in all, as long as the loop goes on. -/
def Blocks (z : Sizes) (n : ℕ) : Child → Prop
  | .fread .. => z.output ∣ n
  | .fwrite _ _ _ output flushing => z.output ∣ if flushing then n + output.length else n
  | .exiting _ | .exited => True

theorem fits_start : (fread [] [] []).Fits z :=
  .fread (Nat.zero_le _) (by decide) (Nat.zero_le _)

theorem fits_exit {output : Bytes} (h : output.length ≤ z.output) : (exit output).Fits z := by
  unfold exit
  split
  · exact .exited
  · rename_i hne
    exact .exiting hne h

section OnWrite

variable {feof : Bool} {input buffer output : Bytes}

theorem fits_onWrite (hfeof : feof = true → input = []) (hinput : input.length ≤ z.input)
    (hbuffer : buffer.length ≤ bufferSize) (houtput : output.length ≤ z.output) :
    (onWrite feof input buffer output).Fits z := by
  unfold onWrite
  split
  · unfold loop
    split
    · exact fits_exit houtput
    · exact .fread hinput (by decide) houtput
  · rename_i hne
    exact .fwrite hfeof hinput hne hbuffer houtput
      fun h => absurd h Bool.false_ne_true

theorem output_exit (output : Bytes) : (exit output).output = output := by
  unfold exit
  split
  · rename_i h
    exact h.symm
  · rfl

theorem parts_exit (output : Bytes) :
    (exit output).input = [] ∧ (exit output).buffer = [] ∧ (exit output).feof = true := by
  unfold exit
  split <;> exact ⟨rfl, rfl, rfl⟩

/-- Nothing is lost where `fwrite` begins or ends. -/
theorem parts_onWrite (hfeof : feof = true → input = []) :
    (onWrite feof input buffer output).input = input ∧
      (onWrite feof input buffer output).buffer = buffer ∧
      (onWrite feof input buffer output).output = output ∧
      (onWrite feof input buffer output).feof = feof := by
  unfold onWrite
  split
  · rename_i hnil
    unfold loop
    split
    · rename_i hend
      obtain ⟨hinput, hbuffer, heof⟩ := parts_exit output
      exact ⟨hinput.trans (hfeof hend).symm, hbuffer.trans hnil.symm, output_exit output,
        heof.trans hend.symm⟩
    · rename_i hend
      exact ⟨rfl, hnil.symm, rfl, (Bool.eq_false_of_not_eq_true hend).symm⟩
  · exact ⟨rfl, rfl, rfl, rfl⟩

theorem blocks_onWrite {n : ℕ} (h : z.output ∣ n) :
    (onWrite feof input buffer output).Blocks z n := by
  unfold onWrite
  split
  · unfold loop
    split
    · unfold exit
      split <;> trivial
    · exact h
  · exact h

end OnWrite

theorem fits_step (h : c.Fits z) (hstep : c.step z e = some c') : c'.Fits z := by
  cases rule_of_step hstep with
  | read d buffer output hne hle =>
    cases h with
    | fread hinput hbuffer houtput => exact .fread hle hbuffer houtput
  | readEof buffer output =>
    cases h with
    | fread hinput hbuffer houtput =>
      exact fits_onWrite (fun _ => rfl) (Nat.zero_le _) hbuffer.le houtput
  | filled input buffer output hne hfull =>
    cases h with
    | fread hinput hbuffer houtput =>
      exact fits_onWrite (fun h => absurd h Bool.false_ne_true)
        ((List.drop_sublist _ _).length_le.trans hinput) hfull.le houtput
  | copyIn input buffer output hne hfull =>
    cases h with
    | fread hinput hbuffer houtput =>
      refine .fread ((List.drop_sublist _ _).length_le.trans hinput) ?_ houtput
      refine Nat.lt_of_le_of_ne ?_ hfull
      rw [List.length_append, List.length_take]
      omega
  | copyOut feof input buffer output hlt =>
    cases h with
    | fwrite hfeof hinput hne hbuffer houtput hflush =>
      refine fits_onWrite hfeof hinput ((List.drop_sublist _ _).length_le.trans hbuffer) ?_
      rw [List.length_append, List.length_take]
      omega
  | flush feof input buffer output flushing n hfull hpos hle =>
    cases h with
    | fwrite hfeof hinput hne hbuffer houtput hflush =>
      exact .fwrite hfeof hinput hne hbuffer
        ((List.drop_sublist _ _).length_le.trans houtput) of_decide_eq_true
  | exit output n hpos hle =>
    cases h with
    | exiting hne houtput => exact fits_exit ((List.drop_sublist _ _).length_le.trans houtput)

/-- The end of the input is seen where it is read. -/
theorem feof_step (h : c.Fits z) (hstep : c.step z e = some c') (hfeof : c'.feof = true) :
    c.feof = true ∨ e = .readEof := by
  cases rule_of_step hstep with
  | read => cases hfeof
  | readEof => exact .inr rfl
  | filled input buffer output hne hfull =>
    rw [(@parts_onWrite false (input.drop (bufferSize - buffer.length)) _ output
      fun h => absurd h Bool.false_ne_true).2.2.2]
      at hfeof
    cases hfeof
  | copyIn => cases hfeof
  | copyOut feof input buffer output hlt =>
    cases h with
    | fwrite hends =>
      rw [(parts_onWrite hends).2.2.2] at hfeof
      exact .inl hfeof
  | flush => exact .inl hfeof
  | exit => exact .inl rfl

/-- **What is read is written, in order.** -/
theorem held_step (h : c.Fits z) (hstep : c.step z e = some c') :
    c.held ++ e.bytesRead = c.bytesWritten e ++ c'.held := by
  cases rule_of_step hstep with
  | read d buffer output hne hle =>
    exact congrArg (· ++ d) (List.append_nil (output ++ buffer))
  | readEof buffer output =>
    obtain ⟨hin, hbuf, hout, -⟩ :=
      @parts_onWrite true [] buffer output fun _ => rfl
    rw [held, held, hin, hbuf, hout]
    exact List.append_nil _
  | filled input buffer output hne hfull =>
    obtain ⟨hin, hbuf, hout, -⟩ := @parts_onWrite false (input.drop (bufferSize - buffer.length))
      (buffer ++ input.take (bufferSize - buffer.length)) output
      fun h => absurd h Bool.false_ne_true
    rw [held, held, hin, hbuf, hout]
    simp
  | copyIn input buffer output hne hfull =>
    simp [held]
  | copyOut feof input buffer output hlt =>
    cases h with
    | fwrite hfeof =>
      obtain ⟨hin, hbuf, hout, -⟩ := @parts_onWrite feof input
        (buffer.drop (z.output - output.length))
        (output ++ buffer.take (z.output - output.length)) hfeof
      rw [held, held, hin, hbuf, hout]
      simp
  | flush feof input buffer output flushing n hfull hpos hle =>
    simp [held, ← List.append_assoc]
  | exit output n hpos hle =>
    obtain ⟨hin, hbuf, -⟩ := parts_exit (output.drop n)
    rw [held, held, hin, hbuf, output_exit]
    simp

/-- **Up to the end of its input, the program writes whole buffers.** -/
theorem blocks_step {n : ℕ} (h : c.Blocks z n) (hstep : c.step z e = some c') :
    c'.Blocks z (n + (c.bytesWritten e).length) := by
  cases rule_of_step hstep with
  | read => exact h
  | readEof => exact blocks_onWrite h
  | filled => exact blocks_onWrite h
  | copyIn => exact h
  | copyOut => exact blocks_onWrite h
  | flush feof input buffer output flushing m hfull hpos hle =>
    have hsum : m + (output.drop m).length = output.length := by
      rw [List.length_drop]
      omega
    -- the buffer has been full since the writing began
    have hwhole : z.output ∣ n + output.length := by
      cases flushing with
      | true => exact h
      | false =>
        rw [hfull.resolve_left Bool.false_ne_true]
        exact Nat.dvd_add h (Nat.dvd_refl _)
    have hlen : ((fwrite feof input buffer output flushing).bytesWritten (.write m)).length = m :=
      List.length_take_of_le hle
    change z.output ∣ if _ then _ else _
    rw [hlen]
    split
    · rw [Nat.add_assoc, hsum]
      exact hwhole
    · rename_i hnil
      have hnil : output.length ≤ m := by simpa using hnil
      rwa [Nat.le_antisymm hle hnil]
  | exit output m hpos hle =>
    unfold exit
    split <;> trivial

/-- What is left to do with what the program holds, a step for a byte and each of the buffers
in front of it, and one for the end of the input. -/
def work (c : Child) : ℕ :=
  4 * c.input.length + 3 * c.buffer.length + 2 * c.output.length + if c.feof then 0 else 1

theorem work_step (h : c.Fits z) (hstep : c.step z e = some c') :
    c'.work + (c.bytesWritten e).length < c.work + 5 * e.bytesRead.length := by
  cases rule_of_step hstep with
  | read d buffer output hne hle =>
    have hpos := List.length_pos_of_ne_nil hne
    simp [work]
    omega
  | readEof buffer output =>
    obtain ⟨hin, hbuf, hout, heof⟩ := @parts_onWrite true [] buffer output fun _ => rfl
    rw [work, work, hin, hbuf, hout, heof]
    simp
  | filled input buffer output hne hfull =>
    obtain ⟨hin, hbuf, hout, heof⟩ :=
      @parts_onWrite false (input.drop (bufferSize - buffer.length))
        (buffer ++ input.take (bufferSize - buffer.length)) output
        fun h => absurd h Bool.false_ne_true
    rw [work, work, hin, hbuf, hout, heof]
    cases h with
    | fread hinput hbuffer houtput =>
      have hpos := List.length_pos_of_ne_nil hne
      simp
      omega
  | copyIn input buffer output hne hfull =>
    cases h with
    | fread hinput hbuffer houtput =>
      have hpos := List.length_pos_of_ne_nil hne
      simp [work]
      omega
  | copyOut feof input buffer output hlt =>
    cases h with
    | fwrite hfeof hinput hne hbuffer houtput hflush =>
      have hpos := List.length_pos_of_ne_nil hne
      obtain ⟨hin, hbuf, hout, heof⟩ := @parts_onWrite feof input
        (buffer.drop (z.output - output.length))
        (output ++ buffer.take (z.output - output.length)) hfeof
      rw [work, hin, hbuf, hout, heof]
      change 4 * input.length + 3 * (buffer.drop _).length + 2 * (output ++ buffer.take _).length +
          (if feof then 0 else 1) + 0 <
        4 * input.length + 3 * buffer.length + 2 * output.length + (if feof then 0 else 1) + 5 * 0
      rw [List.length_append, List.length_drop, List.length_take]
      omega
  | flush feof input buffer output flushing n hfull hpos hle =>
    change 4 * input.length + 3 * buffer.length + 2 * (output.drop n).length +
        (if feof then 0 else 1) + (output.take n).length <
      4 * input.length + 3 * buffer.length + 2 * output.length + (if feof then 0 else 1) + 5 * 0
    rw [List.length_drop, List.length_take]
    omega
  | exit output n hpos hle =>
    obtain ⟨hin, hbuf, heof⟩ := parts_exit (output.drop n)
    rw [work, work, hin, hbuf, heof, output_exit]
    simp
    omega

theorem length_held_le (h : c.Fits z) :
    c.held.length ≤ z.output + bufferSize + z.input := by
  rw [held, List.length_append, List.length_append]
  cases h with
  | fread hinput hbuffer houtput => exact Nat.add_le_add (Nat.add_le_add houtput hbuffer.le) hinput
  | fwrite hfeof hinput hne hbuffer houtput hflush =>
    exact Nat.add_le_add (Nat.add_le_add houtput hbuffer) hinput
  | exiting hne houtput =>
    exact Nat.add_le_add (Nat.add_le_add houtput (Nat.zero_le _)) (Nat.zero_le _)
  | exited => exact Nat.zero_le _

/-- **Where the program stops, it waits for one of the pipes**: else it copies, or is over.  As
long as its input goes on, it writes when its buffer is full. -/
theorem goes_on (h : c.Fits z) :
    (∃ e c', c.step z e = some c' ∧ e ≠ .readEof ∧ e.bytesRead = [] ∧ c.bytesWritten e = []) ∨
      (∃ buffer output, c = .fread [] buffer output) ∨
      (c.output ≠ [] ∧ (∃ c', c.step z (.write 1) = some c') ∧ (c.feof = false →
        c.buffer ≠ [] ∧ ∀ n, c.Blocks z n → z.output ∣ n + c.output.length)) ∨
      c = .exited := by
  cases h with
  | @fread input buffer output hinput hbuffer houtput =>
    by_cases hnil : input = []
    · subst hnil
      exact .inr (.inl ⟨buffer, output, rfl⟩)
    · refine .inl ⟨.copyIn, ?_⟩
      rw [step, if_neg hnil]
      split <;> exact ⟨_, rfl, (fun he => by cases he), rfl, rfl⟩
  | @fwrite feof input buffer output flushing hfeof hinput hne hbuffer houtput hflush =>
    by_cases hcopy : flushing = false ∧ output.length < z.output
    · exact .inl ⟨.copyOut, _, if_pos hcopy, (fun he => by cases he), rfl, rfl⟩
    · have hfull : flushing = true ∨ output.length = z.output := by
        cases flushing with
        | true => exact .inl rfl
        | false => exact .inr (Nat.le_antisymm houtput (Nat.not_lt.mp fun hlt => hcopy ⟨rfl, hlt⟩))
      have hpos : 0 < output.length := by
        rcases hfull with hflushing | hfull
        · exact List.length_pos_of_ne_nil (hflush hflushing)
        · rw [hfull]
          exact z.output_pos
      refine .inr (.inr (.inl ⟨List.ne_nil_of_length_pos hpos,
        ⟨_, if_pos ⟨hfull, Nat.one_pos, hpos⟩⟩, fun _ => ⟨hne, fun n hblocks => ?_⟩⟩))
      cases flushing with
      | true => exact hblocks
      | false =>
        change z.output ∣ n + output.length
        rw [hfull.resolve_left Bool.false_ne_true]
        exact Nat.dvd_add hblocks (Nat.dvd_refl _)
  | @exiting output hne houtput =>
    exact .inr (.inr (.inl ⟨hne, ⟨_, if_pos ⟨Nat.one_pos, List.length_pos_of_ne_nil hne⟩⟩,
      fun h => absurd h Bool.false_ne_true.symm⟩))
  | exited => exact .inr (.inr (.inr rfl))

end Child

end ProcessEcho

end TpAdvanced
