import TpAdvanced.Lib.Machine
import TpAdvanced.Tcp.AsyncServer

/-!
# Failures of a client

When `handleEvent` throws, `accept` closes the connection; but closing throws too when
the handler has closed the connection already or the peer has reset it, and that
exception leaves the loop.  So does an exception while a client is registered.

## Main definitions

* `LeavesOthers` — a step keeps to one descriptor.
* `Fails`, `Closable` — `handleEvent` throws; closing the connection does not.
* `Harmless` — the condition on a step.

## Main results

* `along_othersKept` — no step touches the other connections.
* `exits_iff` — a step ends `accept` exactly when it is not harmless.
* `accept_survives_iff` — **`accept` survives the failures of its clients** exactly
  when every step is harmless.
-/

namespace TpAdvanced

open Machine AsyncServer

/-- The descriptor an event is about. -/
def ServerEvent.fd : ServerEvent → Option ℕ
  | .accepted fd _ => some fd
  | .client fd _ _ _ _ => some fd
  | _ => none

/-- Entries, sockets and registered interests of the other descriptors are the same. -/
def LeavesOthers (s : AsyncServer) (fd : ℕ) (s' : AsyncServer) : Prop :=
  ∀ fd', fd' ≠ fd → s'.connections fd' = s.connections fd' ∧ s'.sockets fd' = s.sockets fd'

/-- Every entry is an open connection, under its own descriptor. -/
def Keyed (s : AsyncServer) : Prop := ∀ fd c, s.connections fd = some c → c.fd = some fd

/-- `handleEvent` throws behind the call of the handler: the handler does, or the
registered interests cannot be changed. -/
def Fails (s : AsyncServer) (fd : ℕ) (c : AsyncConnection) (events : EventsSet)
    (handler : HandlerRun) (modify : Bool) : Prop :=
  (calls c events = true ∧ handler.throws = true) ∨
    ((s.afterHandler c events handler).1.fd ≠ none ∧
      ((s.afterHandler c events handler).1.interestSet.diff c.interestSet).empty = false ∧
      (((s.afterHandler c events handler).2 fd).any (·.interests.isSome) && modify) = false)

/-- Closing the connection succeeds: it is open, and so do both calls. -/
def Closable (x : AsyncConnection × Sockets) (a : CloseAnswer) : Prop :=
  ∃ fd, x.1.fd = some fd ∧ x.2 fd ≠ none ∧ a.shutdown = true ∧ a.close = true

/-- A new client is registered without an error; and when the event of a client makes
`handleEvent` throw, the handler has left the connection open, and it can be closed. -/
def Harmless : ServerState → ServerEvent → Prop
  | .serving _, .accepted _ a => a.localSockaddr = true ∧ a.remoteSockaddr = true ∧ a.add = true
  | .serving s, .client fd events handler modify closing =>
    ∀ c, s.connections fd = some c → Fails s fd c events handler modify →
      Closable (s.afterHandler c events handler) closing
  | _, _ => True

/-! ### What the handler leaves behind -/

theorem close_cases (c : AsyncConnection) (sockets : Sockets) (a : CloseAnswer) :
    ((c.close sockets a).2.1.fd = c.fd ∨ (c.close sockets a).2.1.fd = none) ∧
      (∀ fd', c.fd ≠ some fd' → (c.close sockets a).2.2 fd' = sockets fd') ∧
      ((c.close sockets a).1 = true → ∀ fd, c.fd = some fd →
        (c.close sockets a).2.2 fd = none) := by
  unfold AsyncConnection.close
  cases hfd : c.fd with
  | none => exact ⟨.inr hfd, fun _ _ => rfl, nofun⟩
  | some fd =>
    simp only
    split
    · refine ⟨?_, fun fd' hne => ?_, ?_⟩
      · cases a.close with
        | true => exact .inr rfl
        | false => exact .inl hfd
      · have hfd' : fd' ≠ fd := by
          rintro rfl
          exact hne rfl
        exact Function.update_of_ne hfd' _ _
      · rintro - fd' ⟨⟩
        simp only [Function.update_self]
    · exact ⟨.inl hfd, fun _ _ => rfl, nofun⟩

/-- An operation on a connection keeps to its descriptor. -/
def KeepsTo (fd : ℕ) (sockets : Sockets) (x : AsyncConnection × Sockets) : Prop :=
  (x.1.fd = some fd ∨ x.1.fd = none) ∧ ∀ fd', fd' ≠ fd → x.2 fd' = sockets fd'

theorem keepsTo_close {fd : ℕ} {sockets : Sockets} {x : AsyncConnection × Sockets}
    (h : KeepsTo fd sockets x) (a : CloseAnswer) : KeepsTo fd sockets (x.1.close x.2 a).2 := by
  obtain ⟨hfd, hsockets⟩ := h
  obtain ⟨hfd', hsockets', -⟩ := close_cases x.1 x.2 a
  refine ⟨?_, fun fd' hne => ?_⟩
  · rcases hfd' with heq | hnone
    · rw [heq]
      exact hfd
    · exact .inr hnone
  · rw [hsockets' fd' ?_, hsockets fd' hne]
    intro heq
    rcases hfd with hfd | hfd
    · rw [hfd, Option.some.injEq] at heq
      exact hne heq.symm
    · rw [hfd] at heq
      cases heq

theorem keepsTo_run {fd : ℕ} {sockets : Sockets} {x : AsyncConnection × Sockets}
    (h : KeepsTo fd sockets x) (op : HandlerOp) : KeepsTo fd sockets (op.run x) := by
  cases op with
  | read eof =>
    cases eof with
    | none => exact h
    | some a => exact keepsTo_close h a
  | write => exact h
  | close a => exact keepsTo_close h a
  | setInterestsSet set => exact h

theorem keepsTo_foldl {fd : ℕ} {sockets : Sockets} (ops : List HandlerOp)
    {x : AsyncConnection × Sockets} (h : KeepsTo fd sockets x) :
    KeepsTo fd sockets (ops.foldl HandlerOp.run x) := by
  induction ops generalizing x with
  | nil => exact h
  | cons op ops ih => exact ih (keepsTo_run h op)

theorem keepsTo_afterHandler {s : AsyncServer} {fd : ℕ} {c : AsyncConnection}
    (hfd : c.fd = some fd) (events : EventsSet) (handler : HandlerRun) :
    KeepsTo fd s.sockets (s.afterHandler c events handler) := by
  have hstart : KeepsTo fd s.sockets (c, s.sockets) := ⟨.inl hfd, fun _ _ => rfl⟩
  unfold afterHandler
  split
  · exact keepsTo_foldl handler.ops hstart
  · exact hstart

/-! ### `handleEvent` -/

variable {s s' : AsyncServer} {fd : ℕ} {events : EventsSet} {handler : HandlerRun} {modify : Bool}

/-- `handleEvent` has gone through behind a handler that left `x` of `c`: a closed
connection is dropped, a changed interest set is registered. -/
structure Settles (s : AsyncServer) (fd : ℕ) (c : AsyncConnection) (x : AsyncConnection × Sockets)
    (s' : AsyncServer) : Prop where
  others : LeavesOthers s fd s'
  entry : (x.1.fd = none ∧ s'.connections fd = none ∧ s'.sockets fd = x.2 fd) ∨
    (x.1.fd = some fd ∧ s'.connections fd = some x.1 ∧
      s'.sockets fd = if (x.1.interestSet.diff c.interestSet).empty then x.2 fd
        else some ⟨some x.1.interestSet⟩)

theorem Settles.keyed {c c' : AsyncConnection} {x : AsyncConnection × Sockets}
    (h : Settles s fd c x s') (hc' : s'.connections fd = some c') : c'.fd = some fd := by
  rcases h.entry with ⟨-, hnone, -⟩ | ⟨hfd, hentry, -⟩
  · cases hnone.symm.trans hc'
  · cases hentry.symm.trans hc'
    exact hfd

/-- **What `handleEvent` can do**: throw with the connection as the handler has left
it, or go through. -/
theorem handleEvent_cases {c : AsyncConnection} (hc : s.connections fd = some c)
    (hfd : c.fd = some fd) (events : EventsSet) (handler : HandlerRun) (modify : Bool) :
    (Fails s fd c events handler modify ∧
        s.handleEvent fd events handler modify = .error { s with
          connections := Function.update s.connections fd (some (s.afterHandler c events handler).1)
          sockets := (s.afterHandler c events handler).2 }) ∨
      (¬ Fails s fd c events handler modify ∧ ∃ s',
        s.handleEvent fd events handler modify = .ok s' ∧
          Settles s fd c (s.afterHandler c events handler) s') := by
  obtain ⟨hkeeps, hsockets⟩ := keepsTo_afterHandler (s := s) hfd events handler
  unfold handleEvent Fails
  simp only [hc]
  generalize s.afterHandler c events handler = x at hkeeps hsockets ⊢
  obtain ⟨c', sockets⟩ := x
  simp only at hkeeps hsockets ⊢
  have hothers : ∀ entry, LeavesOthers s fd
      { s with connections := Function.update s.connections fd entry, sockets } := by
    intro entry fd' hne
    exact ⟨Function.update_of_ne hne _ _, hsockets fd' hne⟩
  -- the handler throws
  by_cases hthrows : (calls c events && handler.throws) = true
  · rw [if_pos hthrows]
    exact .inl ⟨.inl (by simpa using hthrows), rfl⟩
  rw [if_neg hthrows]
  have hno : ¬ (calls c events = true ∧ handler.throws = true) := by simpa using hthrows
  -- the handler has closed the connection, whose entry is erased
  by_cases hclosed : c'.fd.isNone = true
  · rw [if_pos hclosed, Function.update_idem]
    have hnone := Option.isNone_iff_eq_none.mp hclosed
    right
    refine ⟨?_, _, rfl, hothers none, .inl ⟨hnone, ?_, rfl⟩⟩
    · rintro (hthrow | ⟨hopen, -⟩)
      · exact hno hthrow
      · exact hopen hnone
    · simp only [Function.update_self]
  rw [if_neg hclosed]
  have hfd' : c'.fd = some fd := hkeeps.resolve_right fun hnone => hclosed (by simp [hnone])
  -- nothing is waited for that was not waited for before
  by_cases hchanged : (c'.interestSet.diff c.interestSet).empty = true
  · rw [hchanged, Bool.not_true, if_neg Bool.false_ne_true]
    right
    refine ⟨?_, _, rfl, hothers _, .inr ⟨hfd', ?_, ?_⟩⟩
    · rintro (hthrow | ⟨-, hdiff, -⟩)
      · exact hno hthrow
      · cases hdiff
    · simp only [Function.update_self]
    · rw [if_pos hchanged]
  · have hdiff : (c'.interestSet.diff c.interestSet).empty = false := Bool.eq_false_iff.mpr hchanged
    rw [hdiff, Bool.not_false, if_pos rfl, modifyInterests]
    -- `epoll_ctl` is asked to change the interests
    by_cases hmodify : ((sockets fd).any (·.interests.isSome) && modify) = true
    · rw [if_pos hmodify]
      right
      refine ⟨?_, _, rfl, ?_, .inr ⟨hfd', ?_, ?_⟩⟩
      · rintro (hthrow | ⟨-, -, hfail⟩)
        · exact hno hthrow
        · rw [hmodify] at hfail
          cases hfail
      · intro fd' hne
        exact ⟨Function.update_of_ne hne _ _,
          (Function.update_of_ne hne _ _).trans (hsockets fd' hne)⟩
      · simp only [Function.update_self]
      · simp only [Function.update_self, hdiff, if_neg Bool.false_ne_true]
    · rw [if_neg hmodify]
      exact .inl ⟨.inr ⟨by simp [hfd'], rfl, Bool.eq_false_iff.mpr hmodify⟩, rfl⟩

/-! ### Closing and registering -/

theorem close_eq_true_iff (c : AsyncConnection) (sockets : Sockets) (a : CloseAnswer) :
    (c.close sockets a).1 = true ↔ Closable (c, sockets) a := by
  unfold AsyncConnection.close Closable
  cases hfd : c.fd with
  | none => simp
  | some fd =>
    simp only [Option.some.injEq, exists_eq_left']
    split
    · rename_i hopen
      rw [Bool.and_eq_true, Option.isSome_iff_ne_none] at hopen
      exact ⟨fun hclose => ⟨hopen.1, hopen.2, hclose⟩, fun h => h.2.2⟩
    · rename_i hfails
      refine iff_of_false Bool.false_ne_true fun h => hfails ?_
      rw [Bool.and_eq_true, Option.isSome_iff_ne_none]
      exact ⟨h.1, h.2.1⟩

/-- `closeConnection` drops the entry and keeps to the descriptor, or throws. -/
theorem closeConnection_cases {c : AsyncConnection} (hc : s.connections fd = some c)
    (hfd : c.fd = some fd ∨ c.fd = none) (a : CloseAnswer) :
    (¬ Closable (c, s.sockets) a ∧ s.closeConnection fd a = .exited .client) ∨
      (Closable (c, s.sockets) a ∧ ∃ s', s.closeConnection fd a = .serving s' ∧
        LeavesOthers s fd s' ∧ s'.connections fd = none ∧ s'.sockets fd = none) := by
  obtain ⟨-, hsockets, hreleased⟩ := close_cases c s.sockets a
  by_cases hclosable : Closable (c, s.sockets) a
  · have hopen : c.fd = some fd := by
      obtain ⟨fd', hfd', -⟩ := hclosable
      exact hfd.resolve_right fun hnone => by cases hnone.symm.trans hfd'
    have hok := (close_eq_true_iff c s.sockets a).mpr hclosable
    simp only [closeConnection, hc]
    generalize c.close s.sockets a = result at hsockets hreleased hok ⊢
    obtain ⟨ok, c', sockets⟩ := result
    cases hok
    refine .inr ⟨hclosable, _, rfl, fun fd' hne => ⟨Function.update_of_ne hne _ _, hsockets fd' ?_⟩,
      by simp only [Function.update_self], hreleased rfl fd hopen⟩
    intro heq
    exact hne (Option.some.inj (heq.symm.trans hopen))
  · have hfails : (c.close s.sockets a).1 = false :=
      Bool.eq_false_iff.mpr (mt (close_eq_true_iff c s.sockets a).mp hclosable)
    simp only [closeConnection, hc]
    generalize c.close s.sockets a = result at hfails ⊢
    obtain ⟨ok, c', sockets⟩ := result
    cases hfails
    exact .inl ⟨hclosable, rfl⟩

theorem keyed_of_leavesOthers (hkeyed : Keyed s) (hothers : LeavesOthers s fd s')
    (hfd : ∀ c, s'.connections fd = some c → c.fd = some fd) : Keyed s' := by
  intro fd' c hc
  by_cases heq : fd' = fd
  · subst heq
    exact hfd c hc
  · rw [(hothers fd' heq).1] at hc
    exact hkeyed fd' c hc

theorem registerConnection_cases (hkeyed : Keyed s) (fd : ℕ) {a : RegisterAnswers}
    (ha : a.localSockaddr = true ∧ a.remoteSockaddr = true ∧ a.add = true) :
    ∃ s', s.registerConnection fd a = .serving s' ∧ LeavesOthers s fd s' ∧ Keyed s' := by
  unfold registerConnection
  rw [if_pos (by simp [ha])]
  cases hentry : s.connections fd with
  | none =>
    have hothers : LeavesOthers s fd { s with
        connections := Function.update s.connections fd (some ⟨some fd, s.defaultInterestsSet⟩)
        sockets := Function.update s.sockets fd (some ⟨some s.defaultInterestsSet⟩) } :=
      fun fd' hne => ⟨Function.update_of_ne hne _ _, Function.update_of_ne hne _ _⟩
    refine ⟨_, rfl, hothers, keyed_of_leavesOthers hkeyed hothers fun c hc => ?_⟩
    simp only [Function.update_self] at hc
    cases hc
    rfl
  | some c =>
    refine ⟨_, rfl, fun fd' hne => ⟨rfl, ?_⟩, hkeyed⟩
    obtain ⟨-, hsockets, -⟩ := close_cases ⟨some fd, s.defaultInterestsSet⟩
      (Function.update s.sockets fd (some ⟨some s.defaultInterestsSet⟩)) a.closing
    have hfd' : some fd ≠ some fd' := fun heq => hne (Option.some.inj heq).symm
    exact (hsockets fd' hfd').trans (Function.update_of_ne hne _ _)

/-! ### Steps -/

/-- **What a step can do**: a harmful one ends `accept`; a harmless one goes on and
leaves the other connections alone, unless the server's own calls fail. -/
theorem step_cases {e : ServerEvent} {st : ServerState} (hkeyed : Keyed s)
    (hstep : ServerState.step (.serving s) e = some st) :
    (¬ Harmless (.serving s) e ∧ st = .exited .client) ∨
      (Harmless (.serving s) e ∧ (st = .exited .server ∨
        ∃ s', st = .serving s' ∧ Keyed s' ∧ ∀ fd, e.fd = some fd → LeavesOthers s fd s')) := by
  cases e with
  | accepted fd a =>
    simp only [ServerState.step] at hstep
    split at hstep
    · cases hstep
      by_cases ha : a.localSockaddr = true ∧ a.remoteSockaddr = true ∧ a.add = true
      · obtain ⟨s', hs', hothers, hkeyed'⟩ := registerConnection_cases hkeyed fd ha
        refine .inr ⟨ha, .inr ⟨s', hs', hkeyed', ?_⟩⟩
        rintro fd' ⟨⟩
        exact hothers
      · refine .inl ⟨ha, if_neg ?_⟩
        simpa [and_assoc] using ha
    · cases hstep
  | client fd events handler modify closing =>
    simp only [ServerState.step] at hstep
    cases hc : s.connections fd with
    | none =>
      -- an event on a descriptor without an entry: nothing is closed
      have hhandle : s.handleEvent fd events handler modify = .error s := by
        simp [handleEvent, hc]
      have hclose : s.closeConnection fd closing = .serving s := by
        simp [closeConnection, hc]
      rw [hhandle] at hstep
      simp only [hclose, Option.some.injEq] at hstep
      refine .inr ⟨?_, .inr ⟨s, hstep.symm, hkeyed, fun _ _ _ _ => ⟨rfl, rfl⟩⟩⟩
      intro c hc'
      rw [hc] at hc'
      cases hc'
    | some c =>
      have hfd := hkeyed fd c hc
      obtain ⟨hkeeps, hsockets⟩ := keepsTo_afterHandler (s := s) hfd events handler
      rcases handleEvent_cases hc hfd events handler modify with
        ⟨hfails, hhandle⟩ | ⟨hfails, s', hhandle, hsettles⟩
      · rw [hhandle] at hstep
        simp only [Option.some.injEq] at hstep
        have hharmless : Harmless (.serving s) (.client fd events handler modify closing) ↔
            Closable (s.afterHandler c events handler) closing := by
          refine ⟨fun h => h c hc hfails, fun h c' hc' _ => ?_⟩
          rw [hc] at hc'
          cases hc'
          exact h
        rw [hharmless]
        rcases closeConnection_cases (s := { s with
            connections :=
              Function.update s.connections fd (some (s.afterHandler c events handler).1)
            sockets := (s.afterHandler c events handler).2 })
            (Function.update_self _ _ _) hkeeps closing with
          ⟨hclosable, hexit⟩ | ⟨hclosable, s', hs', hothers, hnone, -⟩
        · exact .inl ⟨hclosable, hstep.symm.trans hexit⟩
        · have hothers' : LeavesOthers s fd s' := by
            intro fd' hne
            obtain ⟨h₁, h₂⟩ := hothers fd' hne
            exact ⟨h₁.trans (Function.update_of_ne hne _ _), h₂.trans (hsockets fd' hne)⟩
          refine .inr ⟨hclosable, .inr ⟨s', hstep.symm.trans hs', ?_, ?_⟩⟩
          · refine keyed_of_leavesOthers hkeyed hothers' fun c' hc' => ?_
            rw [hnone] at hc'
            cases hc'
          · rintro fd' ⟨⟩
            exact hothers'
      · rw [hhandle] at hstep
        simp only [Option.some.injEq] at hstep
        refine .inr ⟨?_, .inr ⟨s', hstep.symm, ?_, ?_⟩⟩
        · intro c' hc' hfails'
          rw [hc] at hc'
          cases hc'
          exact absurd hfails' hfails
        · exact keyed_of_leavesOthers hkeyed hsettles.others fun c' hc' => hsettles.keyed hc'
        · rintro fd' ⟨⟩
          exact hsettles.others
  | acceptFailed =>
    cases hstep
    exact .inr ⟨trivial, .inl rfl⟩
  | waitFailed =>
    cases hstep
    exact .inr ⟨trivial, .inl rfl⟩

/-! ### Runs -/

/-- The step leaves the connections of the other clients alone. -/
def OthersKept (st : ServerState) (e : ServerEvent) : Prop :=
  ∀ s s' fd, st = .serving s → e.fd = some fd → st.step e = some (.serving s') →
    LeavesOthers s fd s'

/-- The entries of a server that goes on are keyed. -/
def ServingKeyed (st : ServerState) : Prop := ∀ s, st = .serving s → Keyed s

theorem run_exited {cause : ExitCause} {events : List ServerEvent} {st : ServerState}
    (hrun : run ServerState.step (.exited cause) events = some st) :
    events = [] ∧ st = .exited cause := by
  cases events with
  | nil =>
    cases hrun
    exact ⟨rfl, rfl⟩
  | cons e es =>
    obtain ⟨st₁, hst₁, -⟩ := run_cons_eq_some.mp hrun
    cases hst₁

theorem servingKeyed_step {st st' : ServerState} {e : ServerEvent} (h : ServingKeyed st)
    (hstep : st.step e = some st') : ServingKeyed st' ∧ OthersKept st e := by
  cases st with
  | exited cause => cases hstep
  | serving s =>
    rcases step_cases (h s rfl) hstep with ⟨-, rfl⟩ | ⟨-, rfl | ⟨s', rfl, hkeyed, hothers⟩⟩
    · refine ⟨nofun, fun _ _ _ _ _ hstep' => ?_⟩
      rw [hstep] at hstep'
      cases hstep'
    · refine ⟨nofun, fun _ _ _ _ _ hstep' => ?_⟩
      rw [hstep] at hstep'
      cases hstep'
    · refine ⟨fun _ heq => ?_, fun s₁ s₂ fd heq hfd hstep' => ?_⟩
      · cases heq
        exact hkeyed
      · cases heq
        rw [hstep] at hstep'
        cases hstep'
        exact hothers fd hfd

theorem along_othersKept {st : ServerState} (h : ServingKeyed st) (events : List ServerEvent) :
    Along ServerState.step (fun st e _ => OthersKept st e) st events := by
  induction events generalizing st with
  | nil => trivial
  | cons e es ih =>
    refine ⟨?_, fun st' hst' => ih (servingKeyed_step h hst').1⟩
    intro s s' fd heq hfd hstep
    exact (servingKeyed_step h hstep).2 s s' fd heq hfd hstep

/-- A run ends by a client's failure exactly when some step is not harmless. -/
theorem exits_iff {events : List ServerEvent} {s : AsyncServer} {st : ServerState}
    (hkeyed : Keyed s) (hrun : run ServerState.step (.serving s) events = some st) :
    st ≠ .exited .client ↔
      Along ServerState.step (fun st e _ => Harmless st e) (.serving s) events := by
  induction events generalizing s with
  | nil =>
    cases hrun
    exact iff_of_true (fun h => by cases h) trivial
  | cons e es ih =>
    obtain ⟨st₁, hst₁, hrest⟩ := run_cons_eq_some.mp hrun
    rcases step_cases hkeyed hst₁ with ⟨hharm, rfl⟩ | ⟨hharm, rfl | ⟨s', rfl, hkeyed', -⟩⟩
    · obtain ⟨-, rfl⟩ := run_exited hrest
      exact iff_of_false (fun h => h rfl) fun h => hharm h.1
    · obtain ⟨rfl, rfl⟩ := run_exited hrest
      exact iff_of_true (fun h => by cases h) ⟨hharm, fun _ _ => trivial⟩
    · rw [ih hkeyed' hrest]
      refine ⟨fun h => ⟨hharm, fun st' hst' => ?_⟩, fun h => h.2 _ hst₁⟩
      rw [hst₁] at hst'
      cases hst'
      exact h

theorem keyed_start (set : EventsSet) : Keyed (.start set) := by
  intro fd c hc
  cases hc

/-- **`accept` survives the failures of its clients**, and leaves the other
connections alone, exactly when every step is harmless. -/
theorem accept_survives_iff {set : EventsSet} {events : List ServerEvent} {st : ServerState}
    (hrun : run ServerState.step (.serving (.start set)) events = some st) :
    (st ≠ .exited .client ∧
        Along ServerState.step (fun st e _ => OthersKept st e) (.serving (.start set)) events) ↔
      Along ServerState.step (fun st e _ => Harmless st e) (.serving (.start set)) events := by
  have hothers := @along_othersKept (.serving (.start set)) ?_ events
  · rw [and_iff_left hothers]
    exact exits_iff (keyed_start set) hrun
  · intro s hs
    cases hs
    exact keyed_start set

/-- A client whose handler reads the end of the stream. -/
theorem accept_survives_eof :
    ∃ st, run ServerState.step (.serving (.start (.ofList [.in_])))
        [.accepted 5 ⟨true, true, true, ⟨true, true⟩⟩,
          .client 5 (.ofList [.in_]) ⟨[.read (some ⟨true, true⟩)], false⟩ true ⟨true, true⟩] =
        some st ∧ st ≠ .exited .client := by
  obtain ⟨st, hrun⟩ : ∃ st, run ServerState.step (.serving (.start (.ofList [.in_])))
      [.accepted 5 ⟨true, true, true, ⟨true, true⟩⟩,
        .client 5 (.ofList [.in_]) ⟨[.read (some ⟨true, true⟩)], false⟩ true ⟨true, true⟩] =
      some st := ⟨_, rfl⟩
  refine ⟨st, hrun, ((accept_survives_iff hrun).mpr ?_).1⟩
  refine ⟨⟨rfl, rfl, rfl⟩, ?_⟩
  rintro st ⟨⟩
  refine ⟨?_, fun _ _ => trivial⟩
  rintro c hc (⟨-, hthrows⟩ | ⟨hopen, -⟩)
  · cases hthrows
  · cases hc
    exact absurd rfl hopen

/-- The handler reads the end of the stream, which closes the connection, and throws:
closing the connection once more ends `accept`. -/
theorem accept_exits_on_closed :
    ¬ ∀ (set : EventsSet) (events : List ServerEvent) (st : ServerState),
      run ServerState.step (.serving (.start set)) events = some st →
        st ≠ .exited .client ∧
          Along ServerState.step (fun st e _ => OthersKept st e) (.serving (.start set))
            events := by
  intro h
  have hend := h (.ofList [.in_]) [.accepted 5 ⟨true, true, true, ⟨true, true⟩⟩,
    .client 5 (.ofList [.in_]) ⟨[.read (some ⟨true, true⟩), .write], true⟩ true ⟨true, true⟩] _ rfl
  exact hend.1 rfl

end TpAdvanced
