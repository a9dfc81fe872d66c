import TpAdvanced.Lib.Machine
import TpAdvanced.Lib.Pipe
import TpAdvanced.Process.EchoChild
import TpAdvanced.Process.ExactTransfer

/-!
# The round trip through an echo process

`process-echo` writes to a child that runs `echo`, closes the child's input and reads as much
as it has written.  Nothing is read before all is written, so what has been written has to
find room in the two pipes and in the child.  No system call fails, and a call moves any part
of what there is room for.

## Main definitions

* `RoundTrip`, `RoundTrip.step` — the parent and its child, with the pipes between them.
* `RoundTrip.Inv` — where the bytes are.
* `RoundTrip.work` — what is left to do.

## Main results

* `inv_step` — what a step keeps.
* `not_endless_roundTrip` — the two cannot go on for ever.
* `stands_still` — where they stop.
* `round_trip` — **what has room comes back, and what has none is never written.**
-/

namespace TpAdvanced

open CText Machine

namespace ProcessEcho

/-! ### The parent and its child -/

/-- Where the parent stands. -/
inductive Parent
  /-- `writeExact`, with so much written. -/
  | writing (total : ℕ)
  /-- `readExact`, with so much read. -/
  | reading (total : ℕ)
  | returned
  | threw (e : TransferError)
  deriving DecidableEq, Repr

/-- The parent and its child, with the pipes. -/
structure RoundTrip (z : Sizes) where
  parent : Parent
  received : Bytes
  stdin : Pipe UInt8 z.stdin
  stdinClosed : Bool
  child : Child
  stdout : Pipe UInt8 z.stdout

inductive Event
  /-- The parent writes so much. -/
  | write (n : ℕ)
  /-- The parent reads this. -/
  | read (d : Bytes)
  | readEnd
  | child (e : ChildEvent)
  deriving DecidableEq, Repr

namespace RoundTrip

variable {z : Sizes}

/-- The loop of `readExact`. -/
def continueReading (len : ℕ) (x : RoundTrip z) (total : ℕ) : RoundTrip z :=
  { x with parent := if total < len then .reading total else .returned }

/-- The loop of `writeExact`; behind it, `closeStdin` and `readExact`. -/
def continueWriting (len : ℕ) (x : RoundTrip z) (total : ℕ) : RoundTrip z :=
  if total < len then { x with parent := .writing total }
  else continueReading len { x with stdinClosed := true } 0

/-- A pass of one of the loops, and what comes behind it. -/
def passed (x : RoundTrip z) (pass : Except TransferError ℕ) (next : ℕ → RoundTrip z) :
    RoundTrip z :=
  match pass with
  | .ok total => next total
  | .error e => { x with parent := .threw e }

/-- A new process, and the loop of `writeExact`. -/
def start (d : Bytes) : RoundTrip z :=
  continueWriting d.length
    { parent := .returned
      received := []
      stdin := .empty _ _
      stdinClosed := false
      child := .fread [] [] []
      stdout := .empty _ _ } 0

/-- **A step** of the parent, which writes `d`, or of its child. -/
def step (d : Bytes) (x : RoundTrip z) : Event → Option (RoundTrip z)
  | .write n =>
    match x.parent with
    | .writing total =>
      if 0 < n ∧ n ≤ d.length - total then
        (x.stdin.put ((d.drop total).take n)).map fun stdin =>
          let x := { x with stdin }
          passed x (Process.writeExactPass d.length total (.result n .closed))
            (continueWriting d.length x)
      else none
    | _ => none
  | .read r =>
    match x.parent with
    | .reading total =>
      if r ≠ [] ∧ r.length ≤ d.length - total then
        (x.stdout.get r).map fun stdout =>
          let x := { x with stdout, received := x.received ++ r }
          passed x (Process.readExactPass d.length total (.result r.length .closed))
            (continueReading d.length x)
      else none
    | _ => none
  | .readEnd =>
    match x.parent with
    | .reading total =>
      if x.stdout.contents = [] ∧ x.child = .exited then
        some (passed x (Process.readExactPass d.length total (.result 0 .closed))
          (continueReading d.length x))
      else none
    | _ => none
  | .child e =>
    if e = .readEof ∧ ¬ (x.stdin.contents = [] ∧ x.stdinClosed = true) then none
    else (x.child.step z e).bind fun child =>
      (x.stdin.get e.bytesRead).bind fun stdin =>
        (x.stdout.put (x.child.bytesWritten e)).map fun stdout => { x with child, stdin, stdout }

/-- **What a step can do.** -/
inductive Effect (d : Bytes) (x : RoundTrip z) : Event → RoundTrip z → Prop
  | write (total n : ℕ) (stdin : Pipe UInt8 z.stdin) (hp : x.parent = .writing total)
      (hpos : 0 < n) (hle : n ≤ d.length - total)
      (hput : stdin.contents = x.stdin.contents ++ (d.drop total).take n) :
      Effect d x (.write n) (continueWriting d.length { x with stdin } (total + n))
  | read (total : ℕ) (r : Bytes) (stdout : Pipe UInt8 z.stdout) (hp : x.parent = .reading total)
      (hne : r ≠ []) (hle : r.length ≤ d.length - total)
      (hget : x.stdout.contents = r ++ stdout.contents) :
      Effect d x (.read r) (continueReading d.length
        { x with stdout, received := x.received ++ r } (total + r.length))
  | readEnd (total : ℕ) (hp : x.parent = .reading total) (hnil : x.stdout.contents = [])
      (hexited : x.child = .exited) :
      Effect d x .readEnd (passed x (Process.readExactPass d.length total (.result 0 .closed))
        (continueReading d.length x))
  | child (e : ChildEvent) (c : Child) (stdin : Pipe UInt8 z.stdin) (stdout : Pipe UInt8 z.stdout)
      (heof : e = .readEof → x.stdin.contents = [] ∧ x.stdinClosed = true)
      (hchild : x.child.step z e = some c)
      (hget : x.stdin.contents = e.bytesRead ++ stdin.contents)
      (hput : stdout.contents = x.stdout.contents ++ x.child.bytesWritten e) :
      Effect d x (.child e) { x with child := c, stdin, stdout }

variable {d : Bytes} {x x' : RoundTrip z} {e : Event}

theorem effect_of_step (hd : d.length < 2 ^ 64) (h : x.step d e = some x') : x.Effect d e x' := by
  cases e with
  | write n =>
    cases hp : x.parent with
    | writing total =>
      rw [step, hp] at h
      obtain ⟨⟨hpos, hle⟩, h⟩ := Option.ite_none_right_eq_some.mp h
      obtain ⟨stdin, hput, rfl⟩ := Option.map_eq_some_iff.mp h
      have hpass := (@Endpoint.pass_process_ok d.length total n .closed hpos (by omega)).2
      rw [hpass]
      exact .write total n stdin hp hpos hle (Pipe.put_eq_some.mp hput)
    | reading | returned | threw =>
      rw [step, hp] at h
      cases h
  | read r =>
    cases hp : x.parent with
    | reading total =>
      rw [step, hp] at h
      obtain ⟨⟨hne, hle⟩, h⟩ := Option.ite_none_right_eq_some.mp h
      obtain ⟨stdout, hget, rfl⟩ := Option.map_eq_some_iff.mp h
      have hpos := List.length_pos_of_ne_nil hne
      have hpass := (@Endpoint.pass_process_ok d.length total r.length .closed hpos (by omega)).1
      rw [hpass]
      exact .read total r stdout hp hne hle (Pipe.get_eq_some.mp hget)
    | writing | returned | threw =>
      rw [step, hp] at h
      cases h
  | readEnd =>
    cases hp : x.parent with
    | reading total =>
      rw [step, hp] at h
      obtain ⟨⟨hnil, hexited⟩, ⟨⟩⟩ := Option.ite_none_right_eq_some.mp h
      exact .readEnd total hp hnil hexited
    | writing | returned | threw =>
      rw [step, hp] at h
      cases h
  | child e =>
    obtain ⟨heof, h⟩ := Option.ite_none_left_eq_some.mp h
    obtain ⟨c, hstep, h⟩ := Option.bind_eq_some_iff.mp h
    obtain ⟨stdin, hget, h⟩ := Option.bind_eq_some_iff.mp h
    obtain ⟨stdout, hput, rfl⟩ := Option.map_eq_some_iff.mp h
    exact .child e c stdin stdout (fun he => not_not.mp fun hno => heof ⟨he, hno⟩) hstep
      (Pipe.get_eq_some.mp hget) (Pipe.put_eq_some.mp hput)

/-! ### Where the bytes are -/

/-- How much has been written. -/
def sent (d : Bytes) (x : RoundTrip z) : ℕ :=
  match x.parent with
  | .writing total => total
  | _ => d.length

/-- What the parent has done so far. -/
def Stands (d : Bytes) (x : RoundTrip z) : Prop :=
  match x.parent with
  | .writing total => total < d.length ∧ x.received = [] ∧ x.stdinClosed = false
  | .reading total => total = x.received.length ∧ total < d.length ∧ x.stdinClosed = true
  | .returned => x.received.length = d.length ∧ x.stdinClosed = true
  | .threw _ => False

/-- **Where the bytes are**: what has been written and not read is in the pipes, or the child
holds it. -/
structure Inv (d : Bytes) (x : RoundTrip z) : Prop where
  flow : d.take (x.sent d) =
    x.received ++ (x.stdout.contents ++ (x.child.held ++ x.stdin.contents))
  fits : x.child.Fits z
  blocks : x.child.Blocks z (x.received.length + x.stdout.contents.length)
  ended : x.child.feof = true → x.stdin.contents = [] ∧ x.stdinClosed = true
  stands : x.Stands d

theorem sent_continueReading (x : RoundTrip z) (total : ℕ) :
    (continueReading d.length x total).sent d = d.length := by
  by_cases hlt : total < d.length
  · rw [continueReading, if_pos hlt, sent]
  · rw [continueReading, if_neg hlt, sent]

theorem sent_continueWriting (x : RoundTrip z) {total : ℕ} (h : total ≤ d.length) :
    (continueWriting d.length x total).sent d = total := by
  unfold continueWriting
  split
  · rfl
  · rw [sent_continueReading]
    omega

theorem stands_continueReading {total : ℕ} (htotal : total = x.received.length)
    (hle : total ≤ d.length) (hclosed : x.stdinClosed = true) :
    (continueReading d.length x total).Stands d := by
  by_cases hlt : total < d.length
  · rw [continueReading, if_pos hlt]
    exact ⟨htotal, hlt, hclosed⟩
  · have hlen : x.received.length = d.length := by omega
    rw [continueReading, if_neg hlt]
    exact ⟨hlen, hclosed⟩

theorem stands_continueWriting (hreceived : x.received = []) (hclosed : x.stdinClosed = false)
    (total : ℕ) : (continueWriting d.length x total).Stands d := by
  unfold continueWriting
  split
  · rename_i hlt
    exact ⟨hlt, hreceived, hclosed⟩
  · refine stands_continueReading ?_ (Nat.zero_le _) rfl
    change 0 = x.received.length
    rw [hreceived]
    rfl

theorem inv_continueWriting {total : ℕ} (hle : total ≤ d.length) (hreceived : x.received = [])
    (hclosed : x.stdinClosed = false)
    (hflow : d.take total = x.stdout.contents ++ (x.child.held ++ x.stdin.contents))
    (hfits : x.child.Fits z) (hblocks : x.child.Blocks z x.stdout.contents.length)
    (hfeof : x.child.feof = false) : (continueWriting d.length x total).Inv d := by
  have hsame : (continueWriting d.length x total).received = x.received ∧
      (continueWriting d.length x total).stdin = x.stdin ∧
      (continueWriting d.length x total).child = x.child ∧
      (continueWriting d.length x total).stdout = x.stdout := by
    unfold continueWriting
    split <;> exact ⟨rfl, rfl, rfl, rfl⟩
  obtain ⟨hr, hin, hc, hout⟩ := hsame
  refine ⟨?_, ?_, ?_, ?_, stands_continueWriting hreceived hclosed total⟩
  · rw [sent_continueWriting x hle, hr, hin, hc, hout, hreceived]
    exact hflow
  · rw [hc]
    exact hfits
  · rw [hr, hc, hout, hreceived, List.length_nil, Nat.zero_add]
    exact hblocks
  · rw [hc, hfeof]
    exact fun h => absurd h Bool.false_ne_true

theorem inv_start (d : Bytes) : (start d : RoundTrip z).Inv d :=
  inv_continueWriting (Nat.zero_le _) rfl rfl rfl Child.fits_start (Nat.dvd_zero _) rfl

/-- The child has seen the end of its input only behind `closeStdin`. -/
theorem Inv.feof_of_open (h : x.Inv d) (hclosed : x.stdinClosed = false) :
    x.child.feof = false := by
  cases hfeof : x.child.feof with
  | false => rfl
  | true => cases hclosed.symm.trans (h.ended hfeof).2

/-- The parent is not told the end before it has read all. -/
theorem Inv.not_readEnd {total : ℕ} (h : x.Inv d) (hp : x.parent = .reading total)
    (hnil : x.stdout.contents = []) (hexited : x.child = .exited) : False := by
  have hstands := h.stands
  rw [Stands, hp] at hstands
  obtain ⟨htotal, hlt, -⟩ := hstands
  have hflow := congrArg List.length h.flow
  have hin := (h.ended (by rw [hexited]; rfl)).1
  have hheld : x.child.held = [] := by rw [hexited]; rfl
  rw [sent, hp, hnil, hin, hheld] at hflow
  simp only [List.take_length, List.append_nil] at hflow
  omega

/-- **A step keeps the bytes in their places.** -/
theorem inv_step (hd : d.length < 2 ^ 64) (h : x.Inv d) (hstep : x.step d e = some x') :
    x'.Inv d := by
  obtain ⟨hflow, hfits, hblocks, hended, hstands⟩ := id h
  cases effect_of_step hd hstep with
  | write total n stdin hp hpos hle hput =>
    rw [Stands, hp] at hstands
    obtain ⟨hlt, hreceived, hclosed⟩ := hstands
    rw [sent, hp, hreceived] at hflow
    rw [hreceived, List.length_nil, Nat.zero_add] at hblocks
    refine inv_continueWriting (by omega) hreceived hclosed ?_ hfits hblocks
      (h.feof_of_open hclosed)
    rw [List.take_add, hflow, hput]
    simp only [List.nil_append, List.append_assoc]
  | read total r stdout hp hne hle hget =>
    rw [Stands, hp] at hstands
    obtain ⟨htotal, hlt, hclosed⟩ := hstands
    have hlen : (x.received ++ r).length = total + r.length := by
      rw [List.length_append, htotal]
    refine ⟨?_, hfits, ?_, hended, ?_⟩
    · rw [sent_continueReading]
      change d.take d.length = (x.received ++ r) ++ (stdout.contents ++
        (x.child.held ++ x.stdin.contents))
      rw [sent, hp, hget] at hflow
      exact hflow.trans (by simp only [List.append_assoc])
    · change x.child.Blocks z ((x.received ++ r).length + stdout.contents.length)
      rw [hget, List.length_append, ← Nat.add_assoc] at hblocks
      rwa [List.length_append]
    · exact stands_continueReading hlen.symm (by omega) hclosed
  | readEnd total hp hnil hexited => exact (h.not_readEnd hp hnil hexited).elim
  | child e c stdin stdout heof hchild hget hput =>
    refine ⟨?_, Child.fits_step hfits hchild, ?_, ?_, hstands⟩
    · have hheld := Child.held_step hfits hchild
      change d.take (x.sent d) = x.received ++ (stdout.contents ++ (c.held ++ stdin.contents))
      rw [hflow, hput, hget]
      simp only [List.append_assoc]
      rw [← List.append_assoc x.child.held, hheld, List.append_assoc]
    · have hwhole := Child.blocks_step hblocks hchild
      change c.Blocks z (x.received.length + stdout.contents.length)
      rwa [hput, List.length_append, ← Nat.add_assoc]
    · intro hfeof
      -- nothing can be read any more
      have hnil : x.stdin.contents = [] ∧ x.stdinClosed = true := by
        rcases Child.feof_step hfits hchild hfeof with hseen | he
        · exact hended hseen
        · exact heof he
      rw [hnil.1] at hget
      exact ⟨(List.append_eq_nil_iff.mp hget.symm).2, hnil.2⟩

theorem inv_run (hd : d.length < 2 ^ 64) {events : List Event}
    (hrun : run (step d) (start d) events = some x) : x.Inv d :=
  invariant_run (Inv d) (fun _ _ _ h hstep => inv_step hd h hstep) (inv_start d) hrun

/-! ### What is left to do -/

/-- **What is left to do**: a byte has six places in front of the parent. -/
def work (d : Bytes) (x : RoundTrip z) : ℕ :=
  6 * (d.length - x.sent d) + 5 * x.stdin.contents.length + x.child.work +
    x.stdout.contents.length

theorem work_step (hd : d.length < 2 ^ 64) (h : x.Inv d) (hstep : x.step d e = some x') :
    x'.work d < x.work d := by
  cases effect_of_step hd hstep with
  | write total n stdin hp hpos hle hput =>
    have hwork : (continueWriting d.length { x with stdin } (total + n)).work d =
        6 * (d.length - (total + n)) + 5 * stdin.contents.length + x.child.work +
          x.stdout.contents.length := by
      rw [work, sent_continueWriting _ (by omega)]
      unfold continueWriting
      split <;> rfl
    have hlen : ((d.drop total).take n).length = n := by
      rw [List.length_take, List.length_drop]
      omega
    have hsent : x.sent d = total := by rw [sent, hp]
    rw [hwork, work, hsent, hput, List.length_append, hlen]
    omega
  | read total r stdout hp hne hle hget =>
    have hpos := List.length_pos_of_ne_nil hne
    have hsent : x.sent d = d.length := by rw [sent, hp]
    rw [work, work, hsent, sent_continueReading, hget, List.length_append]
    change 6 * (d.length - d.length) + 5 * x.stdin.contents.length + x.child.work +
      stdout.contents.length < _
    omega
  | readEnd total hp hnil hexited => exact (h.not_readEnd hp hnil hexited).elim
  | child e c stdin stdout heof hchild hget hput =>
    have hwork := Child.work_step h.fits hchild
    change 6 * (d.length - x.sent d) + 5 * stdin.contents.length + c.work +
      stdout.contents.length < _
    rw [work, hget, hput, List.length_append, List.length_append]
    omega

/-- **The parent and its child cannot go on for ever.** -/
theorem not_endless_roundTrip (hd : d.length < 2 ^ 64) (h : x.Inv d) :
    ¬ Endless (step d) (fun _ => True) x :=
  not_endless (Inv d) (work d)
    (fun _ _ _ h _ hstep => ⟨inv_step hd h hstep, work_step hd h hstep⟩) h

/-! ### Where they stop -/

/-- Neither of the two can go on. -/
def AtRest (d : Bytes) (x : RoundTrip z) : Prop := ∀ e, x.step d e = none

/-- Where the parent stops, it is through, or a pipe does not let it go on. -/
theorem parent_rests (h : x.Inv d) (hrest : x.AtRest d) : x.parent = .returned ∨
    (∃ total, x.parent = .writing total ∧ x.stdin.contents.length = z.stdin) ∨
      ∃ total, x.parent = .reading total ∧ x.stdout.contents = [] := by
  have hstands := h.stands
  cases hp : x.parent with
  | writing total =>
    rw [Stands, hp] at hstands
    have hone : 1 ≤ d.length - total := Nat.sub_pos_of_lt hstands.1
    refine .inr (.inl ⟨total, rfl, Pipe.full_of_put (d := (d.drop total).take 1) ?_ ?_⟩)
    · rw [List.length_take, List.length_drop]
      omega
    · have hnone := hrest (.write 1)
      rw [step, hp] at hnone
      dsimp only at hnone
      rw [if_pos ⟨Nat.one_pos, hone⟩] at hnone
      exact Option.map_eq_none_iff.mp hnone
  | reading total =>
    rw [Stands, hp] at hstands
    refine .inr (.inr ⟨total, rfl, ?_⟩)
    by_contra hne
    have hlen := Pipe.length_first hne
    have hnone := hrest (.read (x.stdout.contents.take 1))
    rw [step, hp] at hnone
    dsimp only at hnone
    rw [if_pos ⟨List.ne_nil_of_length_eq_add_one hlen, by omega⟩] at hnone
    exact hne (Pipe.nil_of_get (Option.map_eq_none_iff.mp hnone))
  | returned => exact .inl rfl
  | threw e =>
    rw [Stands, hp] at hstands
    exact hstands.elim

theorem step_child {e : ChildEvent} {c : Child} (hstep : x.child.step z e = some c)
    (heof : e ≠ .readEof) : x.step d (.child e) =
      (x.stdin.get e.bytesRead).bind fun stdin =>
        (x.stdout.put (x.child.bytesWritten e)).map fun stdout =>
          { x with child := c, stdin, stdout } := by
  rw [step, if_neg fun h => heof h.1, hstep, Option.bind_some]

/-- Where the child stops, it waits for input, or for room, or is over. -/
theorem child_rests (h : x.Inv d) (hrest : x.AtRest d) :
    (x.stdin.contents = [] ∧ x.stdinClosed = false) ∨
      (x.stdout.contents.length = z.stdout ∧ x.child.output ≠ [] ∧ (x.child.feof = false →
        x.child.buffer ≠ [] ∧ z.output ∣
          x.received.length + x.stdout.contents.length + x.child.output.length)) ∨
      x.child = .exited := by
  have hget : x.stdin.get [] = some x.stdin := Pipe.get_eq_some.mpr rfl
  have hput : x.stdout.put [] = some x.stdout := Pipe.put_eq_some.mpr (List.append_nil _).symm
  rcases Child.goes_on h.fits with ⟨e, c, hstep, heof, hr, hw⟩ | ⟨buffer, output, hc⟩ |
    ⟨hne, ⟨c, hstep⟩, hblocks⟩ | hexited
  · have hnone := hrest (.child e)
    rw [step_child hstep heof, hr, hw, hget, Option.bind_some, hput] at hnone
    cases hnone
  · have hnil : x.stdin.contents = [] := by
      by_contra hne
      have hlen := Pipe.length_first hne
      have hstep : x.child.step z (.read (x.stdin.contents.take 1)) =
          some (.fread (x.stdin.contents.take 1) buffer output) := by
        rw [hc]
        refine if_pos ⟨rfl, List.ne_nil_of_length_eq_add_one hlen, ?_⟩
        rw [hlen]
        exact z.input_pos
      have hnone := hrest (.child (.read (x.stdin.contents.take 1)))
      rw [step_child hstep (fun he => by cases he)] at hnone
      cases hg : x.stdin.get (x.stdin.contents.take 1) with
      | none => exact hne (Pipe.nil_of_get hg)
      | some stdin =>
        change (x.stdin.get (x.stdin.contents.take 1)).bind
          (fun stdin => (x.stdout.put []).map _) = none at hnone
        rw [hg, Option.bind_some, hput] at hnone
        cases hnone
    refine .inl ⟨hnil, Bool.eq_false_of_not_eq_true fun hclosed => ?_⟩
    have hnone := hrest (.child .readEof)
    rw [step, if_neg fun h => h.2 ⟨hnil, hclosed⟩, hc, Child.step, if_pos rfl, Option.bind_some]
      at hnone
    change (x.stdin.get []).bind (fun stdin => (x.stdout.put []).map _) = none at hnone
    rw [hget, Option.bind_some, hput] at hnone
    cases hnone
  · refine .inr (.inl ⟨?_, hne, fun hfeof => ?_⟩)
    · have hnone := hrest (.child (.write 1))
      rw [step_child hstep (fun he => by cases he)] at hnone
      change (x.stdin.get []).bind
        (fun stdin => (x.stdout.put (x.child.output.take 1)).map _) = none at hnone
      rw [hget, Option.bind_some] at hnone
      refine Pipe.full_of_put ?_ (Option.map_eq_none_iff.mp hnone)
      exact List.length_take_of_le (List.length_pos_of_ne_nil hne)
    · obtain ⟨hbuffer, hall⟩ := hblocks hfeof
      exact ⟨hbuffer, hall _ h.blocks⟩
  · exact .inr (.inr hexited)

theorem block_le {n o s : ℕ} (h : o ∣ n) (hlt : s < n) : (s / o + 1) * o ≤ n := by
  obtain ⟨k, rfl⟩ := h
  rw [Nat.mul_comm o k]
  refine Nat.mul_le_mul_right o ?_
  exact Nat.div_lt_of_lt_mul hlt

/-- **Where the two stop**: all has come back, or the parent has filled the pipes and the
child. -/
theorem stands_still (h : x.Inv d) (hrest : x.AtRest d) :
    (x.parent = .returned ∧ x.received = d) ∨
      ((∃ total, x.parent = .writing total) ∧
        z.stdin + (z.stdout / z.output + 1) * z.output < d.length) := by
  have hflow := h.flow
  have hstands := h.stands
  rcases parent_rests h hrest with hp | ⟨total, hp, hfull⟩ | ⟨total, hp, hnil⟩
  · rw [Stands, hp] at hstands
    rw [sent, hp, List.take_length] at hflow
    have hlen := congrArg List.length hflow
    rw [List.length_append, hstands.1] at hlen
    have hrestnil := List.length_eq_zero_iff.mp (Nat.left_eq_add.mp hlen)
    rw [hrestnil, List.append_nil] at hflow
    exact .inl ⟨hp, hflow.symm⟩
  · rw [Stands, hp] at hstands
    obtain ⟨hlt, hreceived, hclosed⟩ := hstands
    refine .inr ⟨⟨total, hp⟩, ?_⟩
    have hfeof := h.feof_of_open hclosed
    rcases child_rests h hrest with ⟨hnil, -⟩ | ⟨hout, hne, hwhole⟩ | hexited
    · have hpos := z.stdin_pos
      rw [hnil, List.length_nil] at hfull
      omega
    · -- the child holds a buffer that is full, or what is left of it
      obtain ⟨-, hdvd⟩ := hwhole hfeof
      rw [hreceived, List.length_nil, Nat.zero_add, hout] at hdvd
      have hpos := List.length_pos_of_ne_nil hne
      have hblock := block_le hdvd (Nat.lt_add_of_pos_right hpos)
      rw [sent, hp, hreceived] at hflow
      have hlen := congrArg List.length hflow
      simp only [Child.held, List.length_take, List.length_append, List.length_nil] at hlen
      omega
    · rw [hexited] at hfeof
      cases hfeof
  · rw [Stands, hp] at hstands
    obtain ⟨htotal, hlt, hclosed⟩ := hstands
    exfalso
    rcases child_rests h hrest with ⟨-, hopen⟩ | ⟨hout, -⟩ | hexited
    · cases hopen.symm.trans hclosed
    · have hpos := z.stdout_pos
      rw [hnil, List.length_nil] at hout
      omega
    · exact h.not_readEnd hp hnil hexited

/-- What is in the pipes and in the child is bounded by their sizes. -/
theorem length_under_way_le (h : x.Inv d) :
    (x.stdout.contents ++ (x.child.held ++ x.stdin.contents)).length ≤
      z.stdin + z.stdout + z.input + bufferSize + z.output := by
  have hheld := Child.length_held_le h.fits
  have hin := x.stdin.fits
  have hout := x.stdout.fits
  simp only [List.length_append]
  omega

/-- Where there is no room for all of it, the parent goes on writing. -/
theorem stays_writing (hd : d.length < 2 ^ 64)
    (hlong : z.stdin + z.stdout + z.input + bufferSize + z.output < d.length) (h : x.Inv d)
    (hp : ∃ total, x.parent = .writing total) (hstep : x.step d e = some x') :
    ∃ total, x'.parent = .writing total := by
  obtain ⟨total, hp⟩ := hp
  have h' := inv_step hd h hstep
  have hstands := h.stands
  rw [Stands, hp] at hstands
  cases effect_of_step hd hstep with
  | write total' n stdin hp' hpos hle hput =>
    by_cases hlt : total' + n < d.length
    · unfold continueWriting
      rw [if_pos hlt]
      exact ⟨_, rfl⟩
    · -- all would be under way
      exfalso
      have hreceived : (continueWriting d.length { x with stdin } (total' + n)).received = [] := by
        unfold continueWriting
        split <;> exact hstands.2.1
      have hroom := length_under_way_le h'
      have hflow := congrArg List.length h'.flow
      rw [sent_continueWriting _ (by omega), hreceived, List.nil_append, List.length_take] at hflow
      omega
  | read total' r stdout hp' => cases hp.symm.trans hp'
  | readEnd total' hp' => cases hp.symm.trans hp'
  | child e c stdin stdout => exact ⟨total, hp⟩

/-- **What has room comes back, and what has none is never written.**  The parent reads
nothing but the beginning of what it has written, and no call throws.  The parent and its
child cannot go on for ever.  If all fits into the pipe to the child and as many buffers of
the child's output as it takes to block the pipe back, then wherever the two come to rest
the parent has it back; and if it is more than the pipes and the child can hold, the parent
never comes to the end of `writeExact`. -/
theorem round_trip (hd : d.length < 2 ^ 64) {events : List Event}
    (hrun : run (step d) (start d) events = some x) :
    (x.received <+: d ∧ ∀ e, x.parent ≠ .threw e) ∧
      ¬ Endless (step d) (fun _ => True) x ∧
      (d.length ≤ z.stdin + (z.stdout / z.output + 1) * z.output → x.AtRest d →
        x.parent = .returned ∧ x.received = d) ∧
      (z.stdin + z.stdout + z.input + bufferSize + z.output < d.length →
        ∃ total, x.parent = .writing total) := by
  have h := inv_run hd hrun
  refine ⟨⟨?_, fun e hp => ?_⟩, not_endless_roundTrip hd h, fun hroom hrest => ?_, fun hlong => ?_⟩
  · have hpre : x.received <+: d.take (x.sent d) := ⟨_, h.flow.symm⟩
    exact hpre.trans (List.take_prefix _ _)
  · have hstands := h.stands
    rw [Stands, hp] at hstands
    exact hstands
  · exact (stands_still h hrest).resolve_right fun hmore => by omega
  · refine (invariant_run (fun x => x.Inv d ∧ ∃ total, x.parent = .writing total) ?_ ?_ hrun).2
    · rintro x e x' ⟨h, hp⟩ hstep
      exact ⟨inv_step hd h hstep, stays_writing hd hlong h hp hstep⟩
    · refine ⟨inv_start d, 0, ?_⟩
      unfold start continueWriting
      rw [if_pos (by omega)]

theorem atRest_of_exited (hp : x.parent = .returned) (hc : x.child = .exited) : x.AtRest d := by
  intro e
  cases e with
  | write | read | readEnd => rw [step, hp]
  | child e =>
    have hnone : x.child.step z e = none := by
      rw [hc]
      cases e <;> rfl
    rw [step, hnone, Option.bind_none, ite_self]

/-- Pipes and buffers for four bytes each. -/
def fourBytes : Sizes where
  stdin := 4
  stdout := 4
  input := 4
  output := 4
  stdin_pos := Nat.zero_lt_succ 3
  stdout_pos := Nat.zero_lt_succ 3
  input_pos := Nat.zero_lt_succ 3
  output_pos := Nat.zero_lt_succ 3

/-- Two bytes and their way back. -/
def trip : List Event :=
  [.write 2, .child (.read (ascii "hi")), .child .copyIn, .child .readEof, .child .copyOut,
    .child (.write 2), .read (ascii "hi")]

theorem round_trip_two :
    ∃ x : RoundTrip fourBytes, run (step (ascii "hi")) (start (ascii "hi")) trip = some x ∧
      ¬ Endless (step (ascii "hi")) (fun _ => True) x ∧ x.received = ascii "hi" := by
  have hsome : (run (step (ascii "hi")) (start (ascii "hi") : RoundTrip fourBytes) trip).map
      (fun x => (x.parent, x.child)) = some (.returned, .exited) := by
    decide +kernel
  obtain ⟨x, hrun, hx⟩ := Option.map_eq_some_iff.mp hsome
  obtain ⟨hp, hc⟩ := Prod.mk.inj hx
  obtain ⟨-, hends, hback, -⟩ := round_trip (by decide) hrun
  exact ⟨x, hrun, hends, (hback (by decide) (atRest_of_exited hp hc)).2⟩

end RoundTrip

end ProcessEcho

end TpAdvanced
