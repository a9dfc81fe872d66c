import TpAdvanced.Tcp.AsyncServerFailures

/-!
# Connections and registrations

Each time `accept` goes on, the entries of `connections_` are the registered
descriptors, each with its own descriptor and with the registered interests.  Only a
`::close` that fails behind a successful `shutdown` breaks this: the descriptor is
gone and `fd_` is still set, and if the handler lets it pass the entry stays.

## Main definitions

* `Consistent` — entries and registrations agree.
* `halfCloses` — the handler's operations run into such a failure.
* `NoHalfClose` — the condition on a step.

## Main results

* `consistent_iff` — **they agree whenever `accept` goes on**, exactly while the
  condition holds.
-/

namespace TpAdvanced

open Machine AsyncServer

/-- Entries and registrations agree: every entry is an open connection under its own
descriptor, registered with its interests, and every registration has an entry. -/
structure Consistent (s : AsyncServer) : Prop where
  entry : ∀ fd c, s.connections fd = some c →
    c.fd = some fd ∧ s.sockets fd = some ⟨some c.interestSet⟩
  registered : ∀ fd set, s.sockets fd = some ⟨some set⟩ → ∃ c, s.connections fd = some c

/-- The attempt of an operation to close the connection. -/
def HandlerOp.closing : HandlerOp → Option CloseAnswer
  | .read eof => eof
  | .close a => some a
  | _ => none

/-- The first attempt to close that gets past `shutdown` fails at `::close`. -/
def halfCloses (ops : List HandlerOp) : Prop :=
  (ops.filterMap HandlerOp.closing).find? (·.shutdown) = some ⟨true, false⟩

instance (ops : List HandlerOp) : Decidable (halfCloses ops) :=
  inferInstanceAs (Decidable (_ = _))

/-- **The condition**: a handler that returns normally, with the interests it was
called with, has not run into such a failure. -/
def NoHalfClose : ServerState → ServerEvent → Prop
  | .serving s, .client fd events handler _ _ => ∀ c, s.connections fd = some c →
    calls c events = true → handler.throws = false → halfCloses handler.ops →
      (s.afterHandler c events handler).1.interestSet ≠ c.interestSet
  | _, _ => True

/-- The server that goes on to the next event is consistent. -/
def GoesOnConsistent (st : ServerState) (e : ServerEvent) : Prop :=
  ∀ s', st.step e = some (.serving s') → Consistent s'

/-! ### What the handler leaves behind -/

theorem empty_diff_iff (s t : EventsSet) : (s.diff t).empty = true ↔ s = t := by
  obtain ⟨a⟩ := s
  obtain ⟨b⟩ := t
  simp only [EventsSet.diff, EventsSet.empty, beq_iff_eq, UInt32.xor_eq_zero_iff,
    EventsSet.mk.injEq]
  exact eq_comm

/-- A socket that is gone stays away, and the connection keeps its descriptor. -/
theorem gone_foldl {fd : ℕ} {d : Option ℕ} (hd : d = none ∨ d = some fd) (ops : List HandlerOp)
    {x : AsyncConnection × Sockets} (hfd : x.1.fd = d) (hgone : x.2 fd = none) :
    (ops.foldl HandlerOp.run x).1.fd = d ∧ (ops.foldl HandlerOp.run x).2 fd = none := by
  have hclose : ∀ (x : AsyncConnection × Sockets) (a : CloseAnswer), x.1.fd = d → x.2 fd = none →
      (x.1.close x.2 a).2 = x := by
    intro x a hfd hgone
    unfold AsyncConnection.close
    rcases hd with rfl | rfl
    · rw [hfd]
    · simp [hfd, hgone]
  induction ops generalizing x with
  | nil => exact ⟨hfd, hgone⟩
  | cons op ops ih =>
    cases op with
    | read eof =>
      cases eof with
      | none => exact ih hfd hgone
      | some a =>
        refine ih ?_ ?_ <;> simp only [HandlerOp.run, hclose x a hfd hgone, hfd, hgone]
    | write => exact ih hfd hgone
    | close a =>
      refine ih ?_ ?_ <;> simp only [HandlerOp.run, hclose x a hfd hgone, hfd, hgone]
    | setInterestsSet set => exact ih hfd hgone

/-- What the attempts to close come to. -/
theorem foldl_cases {fd : ℕ} (ops : List HandlerOp) {x : AsyncConnection × Sockets}
    (hfd : x.1.fd = some fd) (hopen : x.2 fd ≠ none) :
    match (ops.filterMap HandlerOp.closing).find? (·.shutdown) with
    | none => (ops.foldl HandlerOp.run x).1.fd = some fd ∧ (ops.foldl HandlerOp.run x).2 fd = x.2 fd
    | some a => (ops.foldl HandlerOp.run x).1.fd = (if a.close then none else some fd) ∧
        (ops.foldl HandlerOp.run x).2 fd = none := by
  induction ops generalizing x with
  | nil => exact ⟨hfd, rfl⟩
  | cons op ops ih =>
    -- an attempt to close gets past `shutdown`, or leaves everything as it was
    have hattempt : ∀ a, op.closing = some a → op.run x = (x.1.close x.2 a).2 →
        match ((op :: ops).filterMap HandlerOp.closing).find? (·.shutdown) with
        | none => ((op :: ops).foldl HandlerOp.run x).1.fd = some fd ∧
            ((op :: ops).foldl HandlerOp.run x).2 fd = x.2 fd
        | some a => ((op :: ops).foldl HandlerOp.run x).1.fd = (if a.close then none else some fd) ∧
            ((op :: ops).foldl HandlerOp.run x).2 fd = none := by
      intro a hclosing hrun
      rw [List.filterMap_cons_some hclosing, List.foldl_cons, hrun]
      cases hshutdown : a.shutdown with
      | true =>
        rw [List.find?_cons_of_pos hshutdown]
        have hclose : (x.1.close x.2 a).2 =
            (if a.close then { x.1 with fd := none } else x.1, Function.update x.2 fd none) := by
          unfold AsyncConnection.close
          simp [hfd, Option.isSome_iff_ne_none.mpr hopen, hshutdown]
        rw [hclose]
        refine gone_foldl ?_ ops ?_ (Function.update_self ..)
        · cases a.close with
          | true => exact .inl rfl
          | false => exact .inr rfl
        · cases a.close with
          | true => rfl
          | false => exact hfd
      | false =>
        have hclose : (x.1.close x.2 a).2 = x := by
          unfold AsyncConnection.close
          simp [hfd, hshutdown]
        rw [List.find?_cons_of_neg (by simp [hshutdown]), hclose]
        exact ih hfd hopen
    cases op with
    | read eof =>
      cases eof with
      | none => exact ih hfd hopen
      | some a => exact hattempt a rfl rfl
    | write => exact ih hfd hopen
    | close a => exact hattempt a rfl rfl
    | setInterestsSet set => exact ih hfd hopen

variable {s s' : AsyncServer} {fd : ℕ} {c : AsyncConnection} {events : EventsSet}
  {handler : HandlerRun}

/-- **What the handler leaves behind**: a descriptor that is gone with `fd_` set, an open
connection, or a closed one. -/
theorem afterHandler_cases (hfd : c.fd = some fd) (hopen : s.sockets fd ≠ none) (events : EventsSet)
    (handler : HandlerRun) :
    ((calls c events = true ∧ halfCloses handler.ops) ∧
        (s.afterHandler c events handler).1.fd = some fd ∧
        (s.afterHandler c events handler).2 fd = none) ∨
      (¬ (calls c events = true ∧ halfCloses handler.ops) ∧
        (((s.afterHandler c events handler).1.fd = some fd ∧
            (s.afterHandler c events handler).2 fd = s.sockets fd) ∨
          ((s.afterHandler c events handler).1.fd = none ∧
            (s.afterHandler c events handler).2 fd = none))) := by
  unfold afterHandler
  by_cases hcalls : calls c events = true
  · rw [if_pos hcalls]
    have hfold := foldl_cases handler.ops (x := (c, s.sockets)) hfd hopen
    unfold halfCloses
    cases hfind : (handler.ops.filterMap HandlerOp.closing).find? (·.shutdown) with
    | none =>
      rw [hfind] at hfold
      exact .inr ⟨nofun, .inl hfold⟩
    | some a =>
      rw [hfind] at hfold
      have hshutdown : a.shutdown = true := by simpa using List.find?_some hfind
      obtain ⟨shutdown, close⟩ := a
      cases hshutdown
      cases close with
      | true => exact .inr ⟨nofun, .inr hfold⟩
      | false => exact .inl ⟨⟨hcalls, rfl⟩, hfold⟩
  · rw [if_neg hcalls]
    exact .inr ⟨fun h => hcalls h.1, .inl ⟨hfd, rfl⟩⟩

/-! ### Steps -/

theorem Consistent.start (set : EventsSet) : Consistent (.start set) := ⟨nofun, nofun⟩

/-- Consistency has to be shown for one descriptor. -/
theorem Consistent.of_leavesOthers (h : Consistent s) (hothers : LeavesOthers s fd s')
    (hentry : ∀ c, s'.connections fd = some c →
      c.fd = some fd ∧ s'.sockets fd = some ⟨some c.interestSet⟩)
    (hregistered : ∀ set, s'.sockets fd = some ⟨some set⟩ → ∃ c, s'.connections fd = some c) :
    Consistent s' where
  entry := by
    intro fd' c hc
    by_cases hfd : fd' = fd
    · subst hfd
      exact hentry c hc
    · rw [(hothers fd' hfd).1] at hc
      rw [(hothers fd' hfd).2]
      exact h.entry fd' c hc
  registered := by
    intro fd' set hset
    by_cases hfd : fd' = fd
    · subst hfd
      exact hregistered set hset
    · rw [(hothers fd' hfd).2] at hset
      rw [(hothers fd' hfd).1]
      exact h.registered fd' set hset

/-- Where neither an entry nor a socket is left. -/
theorem Consistent.of_gone (h : Consistent s) (hothers : LeavesOthers s fd s')
    (hentry : s'.connections fd = none) (hsocket : s'.sockets fd = none) : Consistent s' := by
  refine h.of_leavesOthers hothers ?_ ?_
  · intro c hc
    cases hentry.symm.trans hc
  · intro set hset
    cases hsocket.symm.trans hset

theorem consistent_accepted (h : Consistent s) {a : RegisterAnswers} :
    GoesOnConsistent (.serving s) (.accepted fd a) := by
  intro s' hstep
  simp only [ServerState.step] at hstep
  split at hstep
  · rename_i hfree
    have hnone : s.connections fd = none := by
      by_contra hne
      obtain ⟨c, hc⟩ := Option.ne_none_iff_exists'.mp hne
      have hsocket := (h.entry fd c hc).2
      rw [Option.isNone_iff_eq_none] at hfree
      cases hfree.symm.trans hsocket
    rw [Option.some.injEq, registerConnection] at hstep
    split at hstep
    · simp only [hnone, ServerState.serving.injEq] at hstep
      subst hstep
      have hothers : LeavesOthers s fd { s with
          connections := Function.update s.connections fd (some ⟨some fd, s.defaultInterestsSet⟩)
          sockets := Function.update s.sockets fd (some ⟨some s.defaultInterestsSet⟩) } := by
        intro fd' hne
        exact ⟨Function.update_of_ne hne _ _, Function.update_of_ne hne _ _⟩
      refine h.of_leavesOthers hothers ?_ ?_
      · simp only [Function.update_self]
        rintro c ⟨⟩
        exact ⟨rfl, rfl⟩
      · simp only [Function.update_self]
        exact fun _ _ => ⟨_, rfl⟩
    · cases hstep
  · cases hstep

/-- `handleEvent` goes through: consistency is kept unless the handler has half closed
its connection and left the interests as they were. -/
theorem consistent_settles (h : Consistent s) (hc : s.connections fd = some c) {modify : Bool}
    (hfails : ¬ Fails s fd c events handler modify)
    (hsettles : Settles s fd c (s.afterHandler c events handler) s') :
    Consistent s' ↔ ¬ (calls c events = true ∧ halfCloses handler.ops) := by
  obtain ⟨hfd, hsocket⟩ := h.entry fd c hc
  have hopen : s.sockets fd ≠ none := by
    rw [hsocket]
    nofun
  rcases afterHandler_cases hfd hopen events handler with ⟨hhalf, hkept, hgone⟩ | ⟨hno, hrest⟩
  · refine iff_of_false ?_ (fun hnot => hnot hhalf)
    intro hconsistent
    rcases hsettles.entry with ⟨hnone, -⟩ | ⟨-, hentry, hsocket'⟩
    · cases hkept.symm.trans hnone
    · rw [hgone] at hsocket'
      split at hsocket'
      · cases hsocket'.symm.trans (hconsistent.entry fd _ hentry).2
      · rename_i hdiff
        -- changing the registration fails, for the socket is gone
        refine hfails (.inr ⟨?_, Bool.eq_false_iff.mpr hdiff, ?_⟩)
        · rw [hkept]
          nofun
        · rw [hgone]
          rfl
  · refine iff_of_true ?_ hno
    rcases hrest with ⟨hkept, hsame⟩ | ⟨hclosed, hgone⟩
    · rcases hsettles.entry with ⟨hnone, -⟩ | ⟨-, hentry, hsocket'⟩
      · cases hkept.symm.trans hnone
      · refine h.of_leavesOthers hsettles.others ?_ fun _ _ => ⟨_, hentry⟩
        intro c' hc'
        cases hentry.symm.trans hc'
        refine ⟨hkept, hsocket'.trans ?_⟩
        split
        · rename_i hdiff
          rw [hsame, hsocket, (empty_diff_iff _ _).mp hdiff]
        · rfl
    · rcases hsettles.entry with ⟨-, hentry, hsocket'⟩ | ⟨hkept, -⟩
      · exact h.of_gone hsettles.others hentry (hsocket'.trans hgone)
      · cases hclosed.symm.trans hkept

theorem consistent_client (h : Consistent s) {modify : Bool} {closing : CloseAnswer} :
    GoesOnConsistent (.serving s) (.client fd events handler modify closing) ↔
      NoHalfClose (.serving s) (.client fd events handler modify closing) := by
  unfold GoesOnConsistent
  simp only [ServerState.step]
  cases hc : s.connections fd with
  | none =>
    have hhandle : s.handleEvent fd events handler modify = .error s := by simp [handleEvent, hc]
    have hclose : s.closeConnection fd closing = .serving s := by simp [closeConnection, hc]
    refine iff_of_true ?_ ?_
    · intro s' hs'
      rw [hhandle] at hs'
      simp only [hclose, Option.some.injEq, ServerState.serving.injEq] at hs'
      exact hs' ▸ h
    · intro c hc'
      cases hc.symm.trans hc'
  | some c =>
    have hfd := (h.entry fd c hc).1
    have hcondition : NoHalfClose (.serving s) (.client fd events handler modify closing) ↔
        (calls c events = true → handler.throws = false → halfCloses handler.ops →
          (s.afterHandler c events handler).1.interestSet ≠ c.interestSet) := by
      refine ⟨fun hno => hno c hc, fun hno c' hc' => ?_⟩
      cases hc.symm.trans hc'
      exact hno
    rw [hcondition]
    rcases handleEvent_cases hc hfd events handler modify with
      ⟨hfails, hhandle⟩ | ⟨hfails, s', hhandle, hsettles⟩
    · refine iff_of_true ?_ ?_
      · intro s' hs'
        rw [hhandle] at hs'
        simp only [Option.some.injEq] at hs'
        obtain ⟨hkeeps, hsockets⟩ := keepsTo_afterHandler (s := s) hfd events handler
        rcases closeConnection_cases (s := { s with
            connections :=
              Function.update s.connections fd (some (s.afterHandler c events handler).1)
            sockets := (s.afterHandler c events handler).2 })
            (Function.update_self _ _ _) hkeeps closing with
          ⟨-, hexit⟩ | ⟨-, s₁, hs₁, hothers, hnone, hgone⟩
        · cases hexit.symm.trans hs'
        · cases hs₁.symm.trans hs'
          refine h.of_gone ?_ hnone hgone
          intro fd' hne
          obtain ⟨h₁, h₂⟩ := hothers fd' hne
          exact ⟨h₁.trans (Function.update_of_ne hne _ _), h₂.trans (hsockets fd' hne)⟩
      · intro _ hnormal _ heq
        rcases hfails with ⟨-, hthrows⟩ | ⟨-, hdiff, -⟩
        · cases hnormal.symm.trans hthrows
        · cases hdiff.symm.trans ((empty_diff_iff _ _).mpr heq)
    · rw [hhandle]
      have hiff := consistent_settles h hc hfails hsettles
      constructor
      · intro hgoes hcalls _ hhalf
        exact absurd ⟨hcalls, hhalf⟩ (hiff.mp (hgoes s' rfl))
      · rintro hno s₁ ⟨⟩
        refine hiff.mpr ?_
        rintro ⟨hcalls, hhalf⟩
        -- the handler has not thrown, and its interests are the same or could not be set
        have hnormal : handler.throws = false :=
          Bool.eq_false_iff.mpr fun hthrows => hfails (.inl ⟨hcalls, hthrows⟩)
        have hdiff := mt (empty_diff_iff _ _).mp (hno hcalls hnormal hhalf)
        have hopen : s.sockets fd ≠ none := by
          rw [(h.entry fd c hc).2]
          exact Option.some_ne_none _
        rcases afterHandler_cases hfd hopen events handler with ⟨-, hkept, hgone⟩ | ⟨hnot, -⟩
        · refine hfails (.inr ⟨?_, Bool.eq_false_iff.mpr hdiff, ?_⟩)
          · rw [hkept]
            exact Option.some_ne_none _
          · rw [hgone]
            rfl
        · exact hnot ⟨hcalls, hhalf⟩

theorem goesOnConsistent_iff (h : Consistent s) (e : ServerEvent) :
    GoesOnConsistent (.serving s) e ↔ NoHalfClose (.serving s) e := by
  cases e with
  | accepted fd a => exact iff_of_true (consistent_accepted h) trivial
  | client fd events handler modify closing => exact consistent_client h
  | acceptFailed => exact iff_of_true nofun trivial
  | waitFailed => exact iff_of_true nofun trivial

end TpAdvanced
