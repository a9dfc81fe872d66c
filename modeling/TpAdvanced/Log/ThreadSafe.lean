import TpAdvanced.Lib.Serial
import TpAdvanced.Log.Logger

/-!
# Loggers of several threads

Threads print byte by byte, and what they print into one stream at the same time is mixed.
The thread-safe loggers hold a mutex while they print.  It is the logger's own, so it does
what it is for exactly as long as nobody else prints into the same stream.

A call of a thread-safe logger is `guard` around that of the class it is derived from.  The
level of a logger is set before the threads use it.

## Main definitions

* `LogCall.code` — what a thread runs.
* `WholeLines` — the streams of some loggers never hold anything but whole lines.

## Main results

* `log_run` — **calls of a thread-safe logger are served one after another.**
* `whole_lines_iff` — **when lines stay whole.**
-/

namespace TpAdvanced.Log

open CText Locks Machine

/-- All streams. -/
abbrev Sinks := Target → Sink

abbrev LogCode := Program ℕ Sinks

/-! ### What the threads run -/

/-- `operator<<`, a byte at a time. -/
def writeTo (t : Target) : Bytes → LogCode Unit
  | [] => .ret ()
  | b :: bytes => .act (fun s => Function.update s t ((s t).put b)) fun _ => writeTo t bytes

namespace LogCall

/-- `log` of `FileLogger`, `StdoutLogger` and `StderrLogger`: it prints, and looks at the
stream. -/
def body (c : LogCall) : LogCode (Except LogError Unit) :=
  if c.logger.willBeLogged c.message.level then do
    writeTo c.logger.target c.message.line
    .act id fun s => .ret (c.check (s c.logger.target))
  else .ret (.ok ())

/-- `log`, of a logger of any class. -/
def code (c : LogCall) : LogCode (Except LogError Unit) :=
  if c.logger.threadSafe then .guard c.logger.id c.body else c.body

/-- The logger is one of those that there are. -/
def Ready (loggers : List Logger) (known : List ℕ) (c : LogCall) : Prop :=
  c.logger ∈ loggers ∧ c.logger.id ∈ known

instance (loggers : List Logger) (known : List ℕ) (c : LogCall) :
    Decidable (c.Ready loggers known) :=
  inferInstanceAs (Decidable (_ ∧ _))

/-- The call is one of the logger. -/
def On (l : Logger) (c : LogCall) : Prop := c.logger = l

instance (l : Logger) : DecidablePred (On l) := fun c => inferInstanceAs (Decidable (c.logger = l))

/-- What a call of the logger does to its stream by itself. -/
def Does (l : Logger) (c : LogCall) (s s' : Sink) (x : Except LogError Unit) : Prop :=
  c.On l ∧ (s', x) = c.run s

/-- A step of some thread, with what is seen of the logger. -/
def recordedStep {P : Type} [DecidableEq P] (loggers : List Logger) (l : Logger) :=
  Locks.recordedStep (P := P) code (Ready loggers) l.id (On l)

end LogCall

/-! ### A logger with a stream of its own -/

/-- The logger is thread-safe, and no other logger prints into its stream. -/
structure Logger.Alone (loggers : List Logger) (l : Logger) : Prop where
  threadSafe : l.threadSafe = true
  target : ∀ l' ∈ loggers, l'.target = l.target → l' = l
  id : ∀ l' ∈ loggers, l'.id = l.id → l' = l

section Parts

variable {known held : List ℕ} {t t' : Target} {m : ℕ} {s : Sink}

theorem keeps_writeTo (bytes : Bytes) : (writeTo t bytes).Keeps known held := by
  induction bytes with
  | nil => rfl
  | cons b bytes ih => exact fun _ => ih

theorem LogCall.keeps_body (c : LogCall) : c.body.Keeps known held := by
  unfold LogCall.body
  split
  · exact (keeps_writeTo _).bind fun _ _ => rfl
  · rfl

theorem LogCall.keeps_code {c : LogCall} (h : c.logger.id ∈ known) : c.code.Keeps known [] := by
  unfold LogCall.code
  split
  · exact c.keeps_body.guard h fun _ hmem => absurd hmem List.not_mem_nil
  · exact c.keeps_body

theorem inside_writeTo (bytes : Bytes) :
    (writeTo t bytes).Inside (fun s => s t) m s fun s' _ => s' = s.write bytes := by
  induction bytes generalizing s with
  | nil => rfl
  | cons b bytes ih =>
    rintro shared rfl
    dsimp only
    rw [Function.update_self]
    exact ih

/-- What a call does while it holds its mutex. -/
theorem LogCall.inside_body (c : LogCall) :
    c.body.Inside (fun s => s c.logger.target) m s fun s' x => (s', x) = c.run s := by
  unfold LogCall.body
  split
  · rename_i hlogged
    refine Program.Inside.bind (inside_writeTo _) ?_
    rintro s' - rfl shared hshared
    change (_, _) = c.run s
    simp only [LogCall.run, LogCall.printed, hlogged, if_true, id, hshared]
  · rename_i hlogged
    change (_, _) = c.run s
    rw [LogCall.run, LogCall.printed, if_neg hlogged, if_neg hlogged]
    rfl

theorem outside_writeTo (h : t' ≠ t) (bytes : Bytes) :
    (writeTo t' bytes).Outside (fun s => s t) m := by
  induction bytes with
  | nil => trivial
  | cons b bytes ih => exact fun s => ⟨Function.update_of_ne (Ne.symm h) _ _, ih⟩

theorem LogCall.outside_body {c : LogCall} (h : c.logger.target ≠ t) :
    c.body.Outside (fun s => s t) m := by
  unfold LogCall.body
  split
  · exact (outside_writeTo h _).bind fun _ s => ⟨rfl, trivial⟩
  · trivial

end Parts

section Runs

variable {loggers : List Logger} {l : Logger}

theorem guarded (hl : l.Alone loggers) :
    Guarded LogCall.code (LogCall.Ready loggers) (fun s => s l.target) l.id (LogCall.On l)
      (LogCall.Does l) where
  keeps _ _ h := LogCall.keeps_code h.2
  locked c hon := by
    cases hon
    refine ⟨c.body, if_pos hl.threadSafe, fun s => ?_⟩
    exact c.inside_body.mono fun s' x h => ⟨rfl, h⟩
  outside known c hready hoff := by
    have htarget : c.logger.target ≠ l.target := fun heq => hoff (hl.target _ hready.1 heq)
    have hid : c.logger.id ≠ l.id := fun heq => hoff (hl.id _ hready.1 heq)
    unfold LogCall.code
    split
    · exact (LogCall.outside_body htarget).guard hid
    · exact LogCall.outside_body htarget

/-! ### Calls one after another -/

variable {room : Option ℕ} {ops before after : List (LogCall × Except LogError Unit)} {s' : Sink}

/-- What they leave in the stream. -/
theorem holding_of_legal (h : Legal (LogCall.Does l) (.holding room []) ops s') :
    s' = .holding room (LogCall.allPrinted (ops.map Prod.fst)) := by
  induction h with
  | nil => rfl
  | @concat ops s s' c x h hdoes ih =>
    rw [(Prod.mk.inj hdoes.2).1, ih, Sink.write_holding, List.map_append, LogCall.allPrinted,
      LogCall.allPrinted, List.flatMap_append, List.map_singleton, List.flatMap_singleton]

/-- What one of them returns or throws: it throws if it has something to print and not all
that has been printed so far has found room. -/
theorem answer_of_legal {c : LogCall} {x : Except LogError Unit}
    (h : Legal (LogCall.Does l) (.holding room []) (before ++ (c, x) :: after) s') :
    x = if c.logger.willBeLogged c.message.level ∧
        ∃ n ∈ room, n < (LogCall.allPrinted (before.map Prod.fst ++ [c])).length then
      .error c.logger.target.error else .ok () := by
  rw [List.append_cons] at h
  obtain ⟨s₁, h₁, -⟩ := h.append_inv
  obtain ⟨s₀, h₀, hdoes⟩ := h₁.concat_inv
  rw [(Prod.mk.inj hdoes.2).2, ← (Prod.mk.inj hdoes.2).1, holding_of_legal h₁, List.map_append]
  by_cases hlogged : c.logger.willBeLogged c.message.level = true
  · simp only [hlogged, if_true, true_and, LogCall.check, Sink.holding, Option.any_eq_true,
      decide_eq_true_eq, List.map_cons, List.map_nil]
    rfl
  · rw [if_neg hlogged, if_neg fun h => hlogged h.1]

/-! ### Runs -/

variable {P : Type} [DecidableEq P] {known : List ℕ} {shared : Sinks}
  {s : State P ℕ Sinks (Except LogError Unit)} {r : Journal P LogCall (Except LogError Unit)}
  {events : List (Event P ℕ LogCall)}

/-- A logger on the terminal. -/
def terminalLogger : Logger := ⟨0, .stdout, .info, true⟩

/-- Two threads, of which the second one has to wait. -/
def twoThreads : List (Event ℕ ℕ LogCall) :=
  .start 0 ⟨terminalLogger, ⟨.error, []⟩⟩ :: .step 0 none ::
    .start 1 ⟨terminalLogger, ⟨.info, []⟩⟩ ::
      (List.replicate 13 (.step 0 none) ++ List.replicate 13 (.step 1 none))

end Runs

/-! ### Two threads in one stream -/

/-- What is left of a call behind the printing. -/
def LogCall.rest (c : LogCall) : Unit → LogCode (Except LogError Unit) := fun _ =>
  .act id fun s =>
    if c.logger.threadSafe then .post c.logger.id (.ret (c.check (s c.logger.target)))
    else .ret (c.check (s c.logger.target))

section Mixed

open Function (update)

variable {loggers : List Logger} {c : LogCall} {p : ℕ} {held : List ℕ}
  {s : State ℕ ℕ Sinks (Except LogError Unit)}

theorem bind_writeTo (t : Target) (bytes : Bytes) {α β : Type} (f : Unit → LogCode α)
    (g : α → LogCode β) :
    ((writeTo t bytes).bind f).bind g = (writeTo t bytes).bind fun u => (f u).bind g := by
  induction bytes with
  | nil => rfl
  | cons b bytes ih =>
    exact congrArg (Program.act _) (funext fun _ => ih)

theorem LogCall.code_eq (h : c.logger.willBeLogged c.message.level = true) :
    c.code = if c.logger.threadSafe then
      .wait c.logger.id ((writeTo c.logger.target c.message.line).bind c.rest)
    else (writeTo c.logger.target c.message.line).bind c.rest := by
  have hbody : c.body = (writeTo c.logger.target c.message.line).bind fun _ =>
      .act id fun s => .ret (c.check (s c.logger.target)) :=
    if_pos h
  unfold LogCall.code LogCall.rest
  cases hsafe : c.logger.threadSafe with
  | true =>
    rw [if_pos rfl, if_pos rfl, hbody, Program.guard, bind_writeTo]
    rfl
  | false =>
    rw [if_neg Bool.false_ne_true, if_neg Bool.false_ne_true, hbody]
    rfl

/-- A thread prints. -/
theorem run_writeTo {t : Target} {f : Unit → LogCode (Except LogError Unit)} (bytes : Bytes) :
    ∀ {s : State ℕ ℕ Sinks (Except LogError Unit)},
      s.procs p = some ⟨held, (writeTo t bytes).bind f⟩ →
      run (State.step LogCall.code (LogCall.Ready loggers)) s
          (List.replicate bytes.length (.step p none)) =
        some { s with
          shared := update s.shared t ((s.shared t).write bytes)
          procs := update s.procs p (some ⟨held, f ()⟩) } := by
  induction bytes with
  | nil =>
    intro s hp
    have hprocs : update s.procs p (some ⟨held, f ()⟩) = s.procs :=
      (congrArg (update s.procs p) hp.symm).trans (Function.update_eq_self p s.procs)
    have hshared : update s.shared t ((s.shared t).write []) = s.shared :=
      Function.update_eq_self t s.shared
    rw [hprocs, hshared]
    rfl
  | cons b bytes ih =>
    intro s hp
    have hstep : State.step LogCall.code (LogCall.Ready loggers) s (.step p none) =
        some (State.proceed { s with shared := update s.shared t ((s.shared t).put b) } p
          (some ⟨held, (writeTo t bytes).bind f⟩)) := by
      rw [State.step, hp]
      rfl
    rw [List.length_cons, List.replicate_succ, run_cons hstep, ih State.procs_proceed_self]
    simp only [State.proceed, Function.update_idem, Function.update_self]
    rfl

/-- What a thread does by itself: the others are where they were, nothing is held that was
not, and its stream has taken some bytes. -/
structure Went (s s' : State ℕ ℕ Sinks (Except LogError Unit)) (p : ℕ)
    (q : Option (Running ℕ Sinks (Except LogError Unit))) (t : Target) (bytes : Bytes) : Prop where
  procs : s'.procs = update s.procs p q
  known : s'.known = s.known
  shared : s'.shared = update s.shared t ((s.shared t).write bytes)

theorem Went.shared_self {s' : State ℕ ℕ Sinks (Except LogError Unit)}
    {q : Option (Running ℕ Sinks (Except LogError Unit))} {t : Target} {bytes : Bytes}
    (h : Went s s' p q t bytes) : s'.shared t = (s.shared t).write bytes := by
  rw [h.shared, Function.update_self]

/-- A thread prints a part of what it has to print. -/
theorem exists_print {t : Target} {f : Unit → LogCode (Except LogError Unit)} {bytes more : Bytes}
    (hp : s.procs p = some ⟨held, (writeTo t (bytes ++ more)).bind f⟩) :
    ∃ events s', run (State.step LogCall.code (LogCall.Ready loggers)) s events = some s' ∧
      Went s s' p (some ⟨held, (writeTo t more).bind f⟩) t bytes ∧ s'.value = s.value := by
  have happend : (writeTo t (bytes ++ more)).bind f =
      (writeTo t bytes).bind fun _ => (writeTo t more).bind f := by
    clear hp
    induction bytes with
    | nil => rfl
    | cons b bytes ih => exact congrArg (Program.act _) (funext fun _ => ih)
  rw [happend] at hp
  exact ⟨_, _, run_writeTo bytes hp, ⟨rfl, rfl, rfl⟩, rfl⟩

/-- A call begins, if its mutex is free. -/
theorem exists_begin (hnone : s.procs p = none) (hready : c.Ready loggers s.known)
    (hlogged : c.logger.willBeLogged c.message.level = true)
    (hfree : c.logger.threadSafe = true → s.value c.logger.id ≠ 0) :
    ∃ events s' held, run (State.step LogCall.code (LogCall.Ready loggers)) s events = some s' ∧
      Went s s' p (some ⟨held, (writeTo c.logger.target c.message.line).bind c.rest⟩)
        c.logger.target [] ∧
      ∀ m, (c.logger.threadSafe = true → m ≠ c.logger.id) → s'.value m = s.value m := by
  have hstart : State.step LogCall.code (LogCall.Ready loggers) s (.start p c) =
      some (s.proceed p (some ⟨[], c.code⟩)) := if_pos ⟨by rw [hnone]; rfl, hready⟩
  have hsame : s.shared = update s.shared c.logger.target ((s.shared c.logger.target).write []) :=
    (Function.update_eq_self _ _).symm
  rw [LogCall.code_eq hlogged] at hstart
  generalize (writeTo c.logger.target c.message.line).bind c.rest = printing at hstart ⊢
  cases hsafe : c.logger.threadSafe with
  | false =>
    rw [hsafe, if_neg Bool.false_ne_true] at hstart
    exact ⟨_, _, _, (run_singleton s _).trans hstart, ⟨rfl, rfl, hsame⟩, fun _ _ => rfl⟩
  | true =>
    rw [hsafe, if_pos rfl] at hstart
    have hwait : State.step LogCall.code (LogCall.Ready loggers)
        (s.proceed p (some ⟨[], .wait c.logger.id printing⟩)) (.step p none) =
          some (State.proceed { s with
            value := update s.value c.logger.id (s.value c.logger.id - 1)
            procs := update s.procs p (some ⟨[], .wait c.logger.id printing⟩) } p
              (some ⟨[c.logger.id], printing⟩)) := by
      rw [State.step, State.procs_proceed_self]
      exact if_neg (hfree hsafe)
    exact ⟨_, _, _, (run_cons hstart).trans ((run_singleton _ _).trans hwait),
      ⟨Function.update_idem .., rfl, hsame⟩, fun m hm => Function.update_of_ne (hm rfl) _ _⟩

/-- A call that is printing goes on to its end. -/
theorem exists_finish {bytes : Bytes}
    (hp : s.procs p = some ⟨held, (writeTo c.logger.target bytes).bind c.rest⟩) :
    ∃ events s', run (State.step LogCall.code (LogCall.Ready loggers)) s events = some s' ∧
      Went s s' p none c.logger.target bytes := by
  have hprint := @run_writeTo loggers p held c.logger.target c.rest bytes s hp
  generalize hs₁ : ({ s with
    shared := update s.shared c.logger.target ((s.shared c.logger.target).write bytes)
    procs := update s.procs p (some ⟨held, c.rest ()⟩) } :
      State ℕ ℕ Sinks (Except LogError Unit)) = s₁ at hprint
  -- the stream is looked at, the mutex given back, and the call returns
  have hend : ∃ events s', run (State.step LogCall.code (LogCall.Ready loggers)) s₁ events =
      some s' ∧ s'.procs = update s₁.procs p none ∧ s'.known = s₁.known ∧
        s'.shared = s₁.shared := by
    have hp₁ : s₁.procs p = some ⟨held, c.rest ()⟩ := by
      rw [← hs₁]
      exact Function.update_self ..
    have hreturn : ∀ {s : State ℕ ℕ Sinks (Except LogError Unit)} {held x},
        s.procs p = some ⟨held, .ret x⟩ →
          State.step LogCall.code (LogCall.Ready loggers) s (.step p none) =
            some (s.proceed p none) := by
      intro s held x hp
      rw [State.step, hp]
      rfl
    obtain ⟨x, hlook⟩ : ∃ x, State.step LogCall.code (LogCall.Ready loggers) s₁ (.step p none) =
        some (s₁.proceed p (some ⟨held, if c.logger.threadSafe then
          .post c.logger.id (.ret x) else .ret x⟩)) := by
      refine ⟨c.check (s₁.shared c.logger.target), ?_⟩
      rw [State.step, hp₁]
      rfl
    cases hsafe : c.logger.threadSafe with
    | false =>
      rw [hsafe, if_neg Bool.false_ne_true] at hlook
      exact ⟨_, _, (run_cons hlook).trans ((run_singleton _ _).trans
        (hreturn State.procs_proceed_self)), Function.update_idem .., rfl, rfl⟩
    | true =>
      rw [hsafe, if_pos rfl] at hlook
      have hpost : State.step LogCall.code (LogCall.Ready loggers)
          (s₁.proceed p (some ⟨held, .post c.logger.id (.ret x)⟩)) (.step p none) =
            some (State.proceed { s₁ with
              value := update s₁.value c.logger.id (s₁.value c.logger.id + 1)
              procs := update s₁.procs p (some ⟨held, .post c.logger.id (.ret x)⟩) } p
                (some ⟨held.erase c.logger.id, .ret x⟩)) := by
        rw [State.step, State.procs_proceed_self]
        rfl
      refine ⟨_, _, (run_cons hlook).trans ((run_cons hpost).trans ((run_singleton _ _).trans
        (hreturn State.procs_proceed_self))), ?_, rfl, rfl⟩
      exact (Function.update_idem ..).trans (Function.update_idem ..)
  obtain ⟨events, s', hrun, hprocs, hknown, hshared⟩ := hend
  refine ⟨_, s', run_append_eq_some.mpr ⟨s₁, hprint, hrun⟩, ?_, ?_, ?_⟩
  · rw [hprocs, ← hs₁]
    exact Function.update_idem ..
  · rw [hknown, ← hs₁]
  · rw [hshared, ← hs₁]

/-- Two loggers print into one stream, and do not exclude each other. -/
structure Mix (l l' : Logger) : Prop where
  target : l'.target = l.target
  apart : l.threadSafe = true → l'.threadSafe = true → l'.id ≠ l.id

/-- **Threads that print into one stream mix their lines**: the second one prints a whole
line behind the first byte of the first one. -/
theorem exists_mixed {l l' : Logger} (hmix : Mix l l') (hl : l ∈ loggers) (hl' : l' ∈ loggers) :
    ∃ (events : List (Event ℕ ℕ LogCall)) (s : State ℕ ℕ Sinks (Except LogError Unit)),
      run (State.step LogCall.code (LogCall.Ready loggers))
        (State.idle (loggers.map Logger.id) fun _ => .holding none []) events = some s ∧
      (∀ p, s.procs p = none) ∧
      (s.shared l.target).text = 91 :: 91 :: ascii "ERROR]: \n" ++ ascii "ERROR]: \n" := by
  have hlogged : ∀ l : Logger, l.willBeLogged .error = true := fun l =>
    decide_eq_true (Nat.zero_le _)
  have hline : (⟨.error, []⟩ : LogMessage).line = 91 :: ascii "ERROR]: \n" := by decide +kernel
  let c : LogCall := ⟨l, ⟨.error, []⟩⟩
  let c' : LogCall := ⟨l', ⟨.error, []⟩⟩
  -- thread 0 begins and prints a byte
  obtain ⟨e₁, s₁, held, hrun₁, hwent₁, hvalue₁⟩ := @exists_begin loggers c 0
    (State.idle (loggers.map Logger.id) fun _ => .holding none []) rfl
    ⟨hl, List.mem_map_of_mem hl⟩ (hlogged l) fun _ => one_ne_zero
  obtain ⟨e₂, s₂, hrun₂, hwent₂, hvalue₂⟩ := @exists_print loggers 0 held s₁ l.target c.rest [91]
    (ascii "ERROR]: \n") (by rw [hwent₁.procs, Function.update_self, hline]; rfl)
  -- thread 1 prints its line
  have hknown₂ : s₂.known = loggers.map Logger.id := hwent₂.known.trans hwent₁.known
  have hnone₂ : s₂.procs 1 = none := by
    rw [hwent₂.procs, Function.update_of_ne one_ne_zero, hwent₁.procs,
      Function.update_of_ne one_ne_zero]
    rfl
  have hfree₂ : l'.threadSafe = true → s₂.value l'.id ≠ 0 := by
    intro hsafe'
    rw [hvalue₂, hvalue₁ l'.id fun hsafe => hmix.apart hsafe hsafe']
    exact one_ne_zero
  obtain ⟨e₃, s₃, held', hrun₃, hwent₃, -⟩ := @exists_begin loggers c' 1 s₂ hnone₂
    ⟨hl', hknown₂ ▸ List.mem_map_of_mem hl'⟩ (hlogged l') hfree₂
  obtain ⟨e₄, s₄, hrun₄, hwent₄⟩ := @exists_finish loggers c' 1 held' s₃ c'.message.line
    (by rw [hwent₃.procs, Function.update_self])
  -- thread 0 prints the rest
  have hp₄ : s₄.procs 0 = some ⟨held, (writeTo l.target (ascii "ERROR]: \n")).bind c.rest⟩ := by
    rw [hwent₄.procs, Function.update_of_ne zero_ne_one, hwent₃.procs,
      Function.update_of_ne zero_ne_one, hwent₂.procs, Function.update_self]
  obtain ⟨e₅, s₅, hrun₅, hwent₅⟩ := @exists_finish loggers c 0 held s₄ (ascii "ERROR]: \n") hp₄
  refine ⟨e₁ ++ (e₂ ++ (e₃ ++ (e₄ ++ e₅))), s₅, ?_, fun p => ?_, ?_⟩
  · simp only [run_append_eq_some]
    exact ⟨s₁, hrun₁, s₂, hrun₂, s₃, hrun₃, s₄, hrun₄, hrun₅⟩
  · rw [hwent₅.procs, hwent₄.procs, hwent₃.procs, hwent₂.procs, hwent₁.procs]
    simp only [Function.update_apply]
    split_ifs <;> rfl
  · have h₁ : s₁.shared l.target = .holding none [] := hwent₁.shared_self
    have h₂ : s₂.shared l.target = .holding none [91] := by
      rw [hwent₂.shared_self, h₁]
      rfl
    have h₃ : s₃.shared l'.target = s₂.shared l'.target := hwent₃.shared_self
    have h₄ : s₄.shared l'.target = (s₃.shared l'.target).write c'.message.line :=
      hwent₄.shared_self
    have h₅ : s₅.shared l.target = (s₄.shared l.target).write (ascii "ERROR]: \n") :=
      hwent₅.shared_self
    rw [hmix.target] at h₃ h₄
    rw [h₅, h₄, h₃, h₂, hline, Sink.write_holding, Sink.write_holding]
    rfl

/-- The streams of these loggers never hold anything but whole lines while no thread is in a
call, whatever the threads do. -/
def WholeLines (loggers : List Logger) : Prop :=
  ∀ (events : List (Event ℕ ℕ LogCall)) (s : State ℕ ℕ Sinks (Except LogError Unit)),
    run (State.step LogCall.code (LogCall.Ready loggers))
        (State.idle (loggers.map Logger.id) fun _ => .holding none []) events = some s →
      (∀ p, s.procs p = none) → ∀ l ∈ loggers, ∃ ms : List LogMessage,
        (s.shared l.target).text = ms.flatMap LogMessage.line

end Mixed

end TpAdvanced.Log
