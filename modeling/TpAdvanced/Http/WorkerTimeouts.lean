import TpAdvanced.Http.WorkerInvariant

/-!
# Idle connections

A worker ends the connections on which nothing has happened for a while, and closes the
others in its destructor.  Both go through the map of handlers, and a connection gets its
handler with the first event of its descriptor.  One that has no handler, because its
client has not sent anything yet or because its descriptor could not be registered with
epoll, is not seen by either.

## Main definitions

* `Worker.Covered` — no connection without a handler has been idle for too long when the
  timeout scan starts, and there is none when the worker is destroyed.
* `Worker.Prompt` — what is to hold right behind a timeout scan and behind the destructor.

## Main results

* `Worker.prompt_run` — **while all steps are covered no idle connection is left open.**
-/

namespace TpAdvanced

open Machine Coroutine

namespace Worker

open Function (update)

variable {ι : Type*} {i : ι} {cfg : WorkerConfig} {r r' : Worker × Descriptors ι}

/-- The open connections of worker `i` that have no handler have been accepted a short
while ago when the timeout scan starts, and there are none when the worker is destroyed. -/
def Covered (cfg : WorkerConfig) (i : ι) (r : Worker × Descriptors ι) : WorkerEvent → Prop
  | .scan now _ => ∀ fd s, r.2 fd = some s → s.owner = i → r.1.handler? fd = none →
      now - s.activity < cfg.timeoutThreshold
  | .destroy _ => ∀ fd s, r.2 fd = some s → s.owner = i → r.1.handler? fd ≠ none
  | _ => True

/-- Right behind a timeout scan something has happened on every open connection not long
ago, and once the worker is destroyed none is open. -/
structure Prompt (cfg : WorkerConfig) (i : ι) (r : Worker × Descriptors ι) : Prop where
  recent : ∀ now, r.1.scanned = some now → r.1.closing = [] → ∀ fd s, r.2 fd = some s →
    s.owner = i → now - s.activity < cfg.timeoutThreshold
  closed : r.1.phase = .destroyed → r.1.closing = [] → ∀ fd s, r.2 fd = some s → s.owner ≠ i

/-- The same, while there are descriptors that the worker has still to close. -/
structure Pending (cfg : WorkerConfig) (i : ι) (r : Worker × Descriptors ι) : Prop where
  recent : ∀ now, r.1.scanned = some now → ∀ fd s, r.2 fd = some s → s.owner = i →
    fd ∈ r.1.closing ∨ now - s.activity < cfg.timeoutThreshold
  closed : r.1.phase = .destroyed → ∀ fd s, r.2 fd = some s → s.owner = i → fd ∈ r.1.closing

theorem Pending.prompt (h : Pending cfg i r) : Prompt cfg i r where
  recent := by
    intro now hscanned hclosing fd s hs howner
    refine (h.recent now hscanned fd s hs howner).resolve_left ?_
    rw [hclosing]
    exact List.not_mem_nil
  closed := by
    intro hdestroyed hclosing fd s hs howner
    have hmem := h.closed hdestroyed fd s hs howner
    rw [hclosing] at hmem
    cases hmem

/-- Away from a scan and a destruction there is nothing to show. -/
theorem Pending.of_serving (hscanned : r.1.scanned = none) (hphase : r.1.phase ≠ .destroyed) :
    Pending cfg i r where
  recent := by
    intro now hnow
    cases hscanned.symm.trans hnow
  closed := fun hdestroyed => absurd hdestroyed hphase

variable [StdHash]

/-- **The timeout scan**: what is idle is to be closed, if it has a handler. -/
theorem pending_scan {now : ℤ} {order : List ℕ} {w w' : Worker} {d : Descriptors ι}
    (hinv : Inv i w d) (hserving : w.phase = .serving) (horder : w.Iterates order)
    (hcovered : Covered cfg i (w, d) (.scan now order))
    (hres : w.scheduleTimeoutHandler cfg.timeoutThreshold now order = some w') :
    Pending cfg i ({ w' with scanned := some now }, d) := by
  obtain ⟨t, hlive⟩ := hinv.live hserving
  obtain ⟨-, -, hclosing, hphase⟩ := scheduleTimeoutHandler_spec order hlive horder.1 hres
  refine ⟨?_, fun hdestroyed => ?_⟩
  · rintro _ ⟨⟩ fd s hs howner
    cases hc : w.handler? fd with
    | none => exact .inr (hcovered fd s hs howner hc)
    | some c =>
      -- the handler has noted when something happened
      have hactivity := (hinv.agrees hserving fd c s hc hs).2
      by_cases hlate : cfg.timeoutThreshold ≤ now - c.lastActivity
      · left
        have hexpired : w.expired cfg.timeoutThreshold now fd = true := by
          rw [expired, hc, Option.any_some, decide_eq_true hlate]
        change fd ∈ w'.closing
        rw [hclosing, List.mem_append, List.mem_flatMap]
        have hmem := horder.mem_iff.mpr ⟨c, hc⟩
        exact .inr ⟨fd, List.mem_filter.mpr ⟨hmem, hexpired⟩, List.mem_cons_self⟩
      · right
        rw [hactivity]
        omega
  · have hserving' : w'.phase = .serving := hphase.trans hserving
    cases hserving'.symm.trans hdestroyed

/-- **What every covered step keeps.** -/
theorem pending_step [DecidableEq ι] {e : WorkerEvent} (hinv : Inv i r.1 r.2)
    (h : Pending cfg i r) (hcovered : Covered cfg i r e)
    (hstep : Worker.step cfg i r e = some r') : Pending cfg i r' := by
  cases effect_of_step hstep with
  | accepted hserving =>
    refine .of_serving rfl fun hdestroyed => ?_
    cases hserving.symm.trans hdestroyed
  | @ready _ _ _ w _ hserving _ _ hres =>
    obtain ⟨t, hlive⟩ := hinv.live hserving
    have hphase : w.phase = .serving := (handleClient_handles hlive hres).phase.trans hserving
    refine .of_serving rfl fun hdestroyed => ?_
    cases hphase.symm.trans hdestroyed
  | scan hserving _ horder hres => exact pending_scan hinv hserving horder hcovered hres
  | stop => exact .of_serving rfl WorkerPhase.noConfusion
  | @destroy order _ hclosing horder =>
    have horders := (hinv.destroy hclosing horder).1
    -- every open connection has a handler, which closes its descriptor
    have hmem : ∀ fd s, r.2 fd = some s → s.owner = i → fd ∈ (r.1.destroy order).closing := by
      intro fd s hs howner
      obtain ⟨c, hc⟩ := Option.ne_none_iff_exists'.mp (hcovered fd s hs howner)
      rw [horders]
      exact horder.mem_iff.mpr ⟨c, hc⟩
    exact ⟨fun _ _ fd s hs howner => .inl (hmem fd s hs howner), fun _ => hmem⟩
  | @close fd rest hclosing =>
    -- what is open behind the call was open before it, and is closed by a later one
    have hopen : ∀ fd' s, update r.2 fd none fd' = some s → r.2 fd' = some s ∧
        (fd' ∈ r.1.closing → fd' ∈ rest) := by
      intro fd' s hs
      rw [Function.update_apply] at hs
      split at hs
      · cases hs
      · next hne =>
        refine ⟨hs, fun hmem => ?_⟩
        rw [hclosing] at hmem
        exact (List.mem_cons.mp hmem).resolve_left hne
    constructor
    · intro now hscanned fd' s hs howner
      obtain ⟨hs', hmem⟩ := hopen fd' s hs
      exact (h.recent now hscanned fd' s hs' howner).imp hmem id
    · intro hdestroyed fd' s hs howner
      obtain ⟨hs', hmem⟩ := hopen fd' s hs
      exact hmem (h.closed hdestroyed fd' s hs' howner)

/-- **No idle connection is left open** behind a timeout scan, and none at all behind the
destructor, in every run whose steps are all covered. -/
theorem prompt_run [DecidableEq ι] {es : List WorkerEvent}
    (hcovered : Along (Worker.step cfg i) (fun r e _ => Covered cfg i r e) ({}, fun _ => none) es)
    (hrun : run (Worker.step cfg i) ({}, fun _ => none) es = some r) : Prompt cfg i r := by
  have hpending : Inv i r.1 r.2 ∧ Pending cfg i r := by
    rw [← List.append_nil es] at hcovered
    refine invariant_along (fun r _ => Inv i r.1 r.2 ∧ Pending cfg i r) ?_ ?_ hcovered hrun
    · rintro r e es r' ⟨hinv, h⟩ hcovered hstep
      exact ⟨hinv.step hstep, pending_step hinv h hcovered hstep⟩
    · exact ⟨Inv.start i, .of_serving rfl WorkerPhase.noConfusion⟩
  exact hpending.2.prompt

omit [StdHash] in
/-- A client that reads, and one that is accepted shortly before the scan. -/
theorem prompt_run_two : letI := polynomialHash
    ∃ r, run (Worker.step ⟨3, 100⟩ ()) ({}, fun _ => none)
      [.accepted 5 true 0, .ready 5 [.readAgain 10] true, .accepted 6 true 20, .scan 90 [5]] =
        some r ∧ Prompt ⟨3, 100⟩ () r := by
  let _ := polynomialHash
  have hsome : (run (Worker.step ⟨3, 100⟩ ()) ({}, fun _ => none)
      [.accepted 5 true 0, .ready 5 [.readAgain 10] true, .accepted 6 true 20,
        .scan 90 [5]]).isSome = true := by
    decide +kernel
  obtain ⟨r, hrun⟩ := Option.isSome_iff_exists.mp hsome
  have hcovered : Along (Worker.step ⟨3, 100⟩ ()) (fun r e _ => Covered ⟨3, 100⟩ () r e)
      ({}, fun _ => none)
      [.accepted 5 true 0, .ready 5 [.readAgain 10] true, .accepted 6 true 20, .scan 90 [5]] := by
    refine ⟨trivial, fun r₁ hr₁ => ⟨trivial, fun r₂ hr₂ => ⟨trivial, fun r₃ hr₃ => ⟨?_, ?_⟩⟩⟩⟩
    case refine_2 => exact fun _ _ => trivial
    have hrun₂ : run (Worker.step ⟨3, 100⟩ ()) ({}, fun _ => none)
        [.accepted 5 true 0, .ready 5 [.readAgain 10] true] = some r₂ := by
      rw [run_cons hr₁, run_singleton, hr₂]
    have hstate : (run (Worker.step ⟨3, 100⟩ ()) ({}, fun _ => none)
        [.accepted 5 true 0, .ready 5 [.readAgain 10] true, .accepted 6 true 20]).all (fun r =>
          (r.1.handler? 5).isSome &&
            decide (r.2 6 = some ⟨(), some (.ofList [.in_]), 20⟩)) = true := by
      decide +kernel
    rw [run_cons hr₁, run_cons hr₂, run_singleton, hr₃, Option.all_some, Bool.and_eq_true,
      decide_eq_true_eq] at hstate
    intro fd s hs _ hnone
    by_cases hfive : fd = 5
    · rw [← hfive, hnone] at hstate
      cases hstate.1
    · by_cases hsix : fd = 6
      · rw [hsix, hstate.2] at hs
        cases hs
        decide
      · -- no other descriptor has been touched
        rw [(step_others (inv_run hrun₂) hr₃ hsix).2,
          (step_others ((Inv.start ()).step hr₁) hr₂ hfive).2,
          (step_others (Inv.start ()) hr₁ hfive).2] at hs
        cases hs
  exact ⟨r, hrun, prompt_run hcovered hrun⟩

omit [StdHash] in
/-- A client that never sends anything is still connected behind a scan. -/
theorem silent_client_stays : letI := polynomialHash
    ¬ ∀ (es : List WorkerEvent) (r : Worker × Descriptors Unit),
      run (Worker.step ⟨3, 100⟩ ()) ({}, fun _ => none) es = some r → Prompt ⟨3, 100⟩ () r := by
  let _ := polynomialHash
  intro hall
  have hsome : (run (Worker.step ⟨3, 100⟩ ()) ({}, fun _ => none)
      [.accepted 5 true 0, .scan 100 []]).any (fun r =>
        decide (r.1.scanned = some 100) && decide (r.1.closing = []) &&
          decide (r.2 5 = some ⟨(), some (.ofList [.in_]), 0⟩)) = true := by
    decide +kernel
  obtain ⟨r, hrun, hr⟩ := (Option.any_eq_true _ _).mp hsome
  simp only [Bool.and_eq_true, decide_eq_true_eq] at hr
  obtain ⟨⟨hscanned, hclosing⟩, hs⟩ := hr
  have hrecent := (hall _ r hrun).recent 100 hscanned hclosing 5 _ hs rfl
  exact absurd hrecent (by decide)

end Worker

end TpAdvanced
