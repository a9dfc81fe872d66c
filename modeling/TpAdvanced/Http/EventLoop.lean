import Mathlib.Algebra.BigOperators.Group.List.Basic
import Mathlib.Algebra.GroupWithZero.Nat
import Mathlib.Algebra.Order.Group.Nat
import Mathlib.Tactic.Common

/-!
# The clock of the event loop

A pass of `run_events_loop` ends in one of three ways.  When there are events it measures
how long it took and adds that to `time_passed`, cut off to whole milliseconds; the
timeout scan follows when this is `TIMER_TICK` or more.  When the wait times out the scan
follows at once, and `time_passed` stays as it is; when it is interrupted neither happens.
So `time_passed` misses what is cut off, and what goes by outside the measured time, and
no scan makes up for it.

## Main definitions

* `EventLoop`, `LoopPass`, `EventLoop.pass` — the loop and the time it takes.
* `EventLoop.sinceScan` — the passes behind the last scan.
* `counted`, `missed` — the time that `time_passed` has of them, and the rest.
* `LoopPass.KeepsTime` — a pass that misses little of what it counts.

## Main results

* `elapsed_run` — the time since the last scan is counted or missed.
* `run_of_counted_lt` — passes that do not count a tick never lead to a scan.
* `elapsed_lt_of_missed_lt` — two milliseconds may be missed.
* `elapsed_lt_iff` — **when the scan is no more than a millisecond late.**
* `late_of_not_keepsTime` — that passes keep time is no more than is needed.
-/

namespace TpAdvanced

/-- `TIMER_TICK`, in milliseconds. -/
def timerTick : ℕ := 250

/-- A millisecond in nanoseconds. -/
def millisecond : ℕ := 10 ^ 6

/-- How `wait_with_timeout` ends. -/
inductive WaitOutcome
  | timedOut
  | interrupted
  | events
  deriving DecidableEq, Repr

/-- A pass of the loop: how its wait ends, the time between the pass before and `before`,
and the time from there to the end of the pass. -/
structure LoopPass where
  outcome : WaitOutcome
  gap : ℕ
  duration : ℕ
  deriving DecidableEq, Repr

/-- `time_passed`, the clock, and the time of the last call of `scheduleTimeoutHandler`. -/
structure EventLoop where
  timePassed : ℤ
  clock : ℕ
  lastScan : ℕ
  deriving DecidableEq, Repr

/-- All the time of a pass. -/
def LoopPass.time (p : LoopPass) : ℕ := p.gap + p.duration

/-- The milliseconds that a pass adds to `time_passed`. -/
def LoopPass.counted (p : LoopPass) : ℕ :=
  match p.outcome with
  | .events => p.duration / millisecond
  | _ => 0

/-- The time that it does not add. -/
def LoopPass.missed (p : LoopPass) : ℕ :=
  match p.outcome with
  | .events => p.gap + p.duration % millisecond
  | _ => p.gap + p.duration

theorem LoopPass.time_eq (p : LoopPass) : p.time = p.counted * millisecond + p.missed := by
  unfold LoopPass.time LoopPass.counted LoopPass.missed
  have hdiv := Nat.div_add_mod' p.duration millisecond
  cases p.outcome with
  | timedOut => simp only; omega
  | interrupted => simp only; omega
  | events => simp only; omega

/-- A pass that misses nothing, or so little that less than two milliseconds are missed
before a tick is counted. -/
def LoopPass.KeepsTime (p : LoopPass) : Prop :=
  p.missed = 0 ∨ p.missed * (timerTick - 1) < p.counted * (2 * millisecond)

instance (p : LoopPass) : Decidable p.KeepsTime := inferInstanceAs (Decidable (_ ∨ _))

namespace EventLoop

/-- **A pass of the loop.** -/
def pass (s : EventLoop) (p : LoopPass) : EventLoop :=
  let now := s.clock + p.gap + p.duration
  match p.outcome with
  | .timedOut => { s with clock := now, lastScan := now }
  | .interrupted => { s with clock := now }
  | .events =>
    let timePassed := s.timePassed + ((p.duration / millisecond : ℕ) : ℤ)
    if (timerTick : ℤ) ≤ timePassed then { timePassed := 0, clock := now, lastScan := now }
    else { s with timePassed := timePassed, clock := now }

/-- The pass ends with a scan. -/
def Scans (s : EventLoop) (p : LoopPass) : Prop :=
  match p.outcome with
  | .timedOut => True
  | .interrupted => False
  | .events => (timerTick : ℤ) ≤ s.timePassed + p.counted

instance (s : EventLoop) (p : LoopPass) : Decidable (s.Scans p) := by
  unfold Scans
  split <;> infer_instance

/-- The loop after some passes. -/
def run (s : EventLoop) (ps : List LoopPass) : EventLoop := ps.foldl pass s

/-- The passes behind the last scan; there are `recent` ones already. -/
def sinceScan (s : EventLoop) (recent : List LoopPass) : List LoopPass → List LoopPass
  | [] => recent
  | p :: ps => (s.pass p).sinceScan (if s.Scans p then [] else recent ++ [p]) ps

variable {s : EventLoop}

/-- A pass with a scan notes its time. -/
theorem lastScan_of_scans {p : LoopPass} (h : s.Scans p) :
    (s.pass p).lastScan = (s.pass p).clock := by
  unfold Scans at h
  unfold pass
  unfold LoopPass.counted at h
  cases hp : p.outcome with
  | timedOut => rfl
  | interrupted =>
    rw [hp] at h
    cases h
  | events =>
    rw [hp] at h
    dsimp only at h ⊢
    rw [if_pos h]

/-- A pass without a scan only adds to the time passed. -/
theorem pass_of_not_scans {p : LoopPass} (h : ¬ s.Scans p) :
    s.pass p = ⟨s.timePassed + p.counted, s.clock + p.time, s.lastScan⟩ := by
  rw [LoopPass.time, ← Nat.add_assoc, pass]
  unfold Scans at h
  unfold LoopPass.counted at h ⊢
  cases hp : p.outcome with
  | timedOut =>
    rw [hp] at h
    exact absurd trivial h
  | interrupted => simp
  | events =>
    rw [hp] at h
    dsimp only at h ⊢
    rw [if_neg h]

/-- A pass with a scan starts the time anew, or leaves it as it was. -/
theorem timePassed_of_scans {p : LoopPass} (h : s.Scans p) :
    (s.pass p).timePassed = s.timePassed ∨ (s.pass p).timePassed = 0 := by
  unfold Scans at h
  unfold LoopPass.counted at h
  unfold pass
  cases hp : p.outcome with
  | timedOut => exact .inl rfl
  | interrupted => exact .inl rfl
  | events =>
    rw [hp] at h
    dsimp only at h ⊢
    rw [if_pos h]
    exact .inr rfl

/-- The time passed stays below a tick. -/
theorem timePassed_pass_lt (p : LoopPass) (h : s.timePassed < timerTick) :
    (s.pass p).timePassed < timerTick := by
  unfold pass
  cases hp : p.outcome with
  | timedOut => exact h
  | interrupted => exact h
  | events =>
    dsimp only
    split
    · exact Int.natCast_pos.mpr (by decide)
    · rename_i hlt
      exact Int.not_le.mp hlt

/-! ### The time since the last scan -/

/-- The milliseconds that `time_passed` has of these passes. -/
def counted (ps : List LoopPass) : ℕ := (ps.map LoopPass.counted).sum

/-- The time of these passes that it misses. -/
def missed (ps : List LoopPass) : ℕ := (ps.map LoopPass.missed).sum

theorem sum_time (ps : List LoopPass) :
    (ps.map LoopPass.time).sum = counted ps * millisecond + missed ps := by
  induction ps with
  | nil => rfl
  | cons p ps ih =>
    simp only [counted, missed, List.map_cons, List.sum_cons] at ih ⊢
    rw [ih, p.time_eq, Nat.add_mul]
    omega

/-- **The clock has gone on since the last scan** by the time of the passes since then. -/
theorem clock_run (ps : List LoopPass) : ∀ {s : EventLoop} {recent : List LoopPass},
    s.clock = s.lastScan + (recent.map LoopPass.time).sum →
      (s.run ps).clock =
        (s.run ps).lastScan + ((s.sinceScan recent ps).map LoopPass.time).sum := by
  induction ps with
  | nil => exact fun h => h
  | cons p ps ih =>
    intro s recent h
    rw [run, List.foldl_cons, sinceScan]
    refine ih ?_
    by_cases hscan : s.Scans p
    · rw [if_pos hscan, lastScan_of_scans hscan]
      rfl
    · rw [if_neg hscan, pass_of_not_scans hscan, List.map_append, List.sum_append]
      simp only [List.map_cons, List.map_nil, List.sum_singleton]
      omega

/-- What has been counted since the last scan is in `time_passed`. -/
theorem counted_le_run (ps : List LoopPass) : ∀ {s : EventLoop} {recent : List LoopPass},
    (counted recent : ℤ) ≤ s.timePassed → s.timePassed < timerTick →
      (counted (s.sinceScan recent ps) : ℤ) ≤ (s.run ps).timePassed ∧
        (s.run ps).timePassed < timerTick := by
  induction ps with
  | nil => exact fun h hlt => ⟨h, hlt⟩
  | cons p ps ih =>
    intro s recent h hlt
    rw [run, List.foldl_cons, sinceScan]
    refine ih ?_ (timePassed_pass_lt p hlt)
    by_cases hscan : s.Scans p
    · rw [if_pos hscan]
      have hnonneg : 0 ≤ s.timePassed := (Int.natCast_nonneg _).trans h
      rcases timePassed_of_scans hscan with hkept | hzero
      · exact hnonneg.trans_eq hkept.symm
      · exact hzero.ge
    · have hcounted : counted (recent ++ [p]) = counted recent + p.counted := by
        rw [counted, List.map_append, List.sum_append]
        exact congrArg (counted recent + ·) List.sum_singleton
      rw [if_neg hscan, pass_of_not_scans hscan, hcounted, Int.natCast_add]
      exact Int.add_le_add_right h _

/-- The time since the last scan is counted or missed. -/
theorem elapsed_run (h : s.lastScan = s.clock) (ps : List LoopPass) :
    (s.run ps).clock - (s.run ps).lastScan =
      counted (s.sinceScan [] ps) * millisecond + missed (s.sinceScan [] ps) := by
  have hclock := @clock_run ps s [] (by rw [h]; rfl)
  rw [hclock, Nat.add_sub_cancel_left, sum_time]

/-- **Passes that do not count a tick** lead to no scan, however long they take. -/
theorem run_of_counted_lt (ps : List LoopPass) (hevents : ∀ p ∈ ps, p.outcome = .events)
    (h : s.timePassed + counted ps < timerTick) :
    s.run ps = ⟨s.timePassed + counted ps, s.clock + (ps.map LoopPass.time).sum, s.lastScan⟩ := by
  induction ps generalizing s with
  | nil => simp [run, counted]
  | cons p ps ih =>
    have hcons : counted (p :: ps) = p.counted + counted ps := List.sum_cons
    rw [hcons, Int.natCast_add] at h
    have hscan : ¬ s.Scans p := by
      rw [Scans, hevents p List.mem_cons_self]
      dsimp only
      omega
    have hlater := ih (s := ⟨s.timePassed + p.counted, s.clock + p.time, s.lastScan⟩)
      (fun q hq => hevents q (List.mem_cons_of_mem p hq)) (by rw [Int.add_assoc]; exact h)
    rw [run, List.foldl_cons, pass_of_not_scans hscan]
    refine hlater.trans ?_
    rw [hcons, Int.natCast_add, List.map_cons, List.sum_cons, Int.add_assoc, Nat.add_assoc]

/-- Passes of less than a millisecond count nothing. -/
theorem counted_eq_zero {ps : List LoopPass} (h : ∀ p ∈ ps, p.duration < millisecond) :
    counted ps = 0 := by
  refine List.sum_eq_zero fun c hc => ?_
  obtain ⟨p, hp, rfl⟩ := List.mem_map.mp hc
  unfold LoopPass.counted
  split
  · exact Nat.div_eq_of_lt (h p hp)
  · rfl

/-- The passes behind the last scan are passes of the run. -/
theorem mem_of_mem_sinceScan (ps : List LoopPass) {p : LoopPass} :
    ∀ {s : EventLoop} {recent : List LoopPass},
      p ∈ s.sinceScan recent ps → p ∈ recent ∨ p ∈ ps := by
  induction ps with
  | nil => exact .inl
  | cons q ps ih =>
    intro s recent hp
    rw [sinceScan] at hp
    rcases ih hp with hrecent | hlater
    · by_cases hscan : s.Scans q
      · rw [if_pos hscan] at hrecent
        cases hrecent
      · rw [if_neg hscan] at hrecent
        rcases List.mem_append.mp hrecent with hrecent | hq
        · exact .inl hrecent
        · exact .inr (List.mem_singleton.mp hq ▸ List.mem_cons_self)
    · exact .inr (List.mem_cons_of_mem q hlater)

/-- What passes that keep time miss together. -/
theorem missed_of_keepsTime {ps : List LoopPass} (h : ∀ p ∈ ps, p.KeepsTime) :
    missed ps = 0 ∨ missed ps * (timerTick - 1) < counted ps * (2 * millisecond) := by
  induction ps with
  | nil => exact .inl rfl
  | cons p ps ih =>
    have hp := h p List.mem_cons_self
    have hps := ih fun q hq => h q (List.mem_cons_of_mem p hq)
    simp only [LoopPass.KeepsTime, missed, counted, List.map_cons, List.sum_cons, timerTick,
      millisecond] at hp hps ⊢
    omega

/-- Less than a tick has been counted since the last scan. -/
theorem counted_sinceScan_lt (hnonneg : 0 ≤ s.timePassed) (hlt : s.timePassed < timerTick)
    (ps : List LoopPass) : counted (s.sinceScan [] ps) < timerTick := by
  obtain ⟨hcounted, hpassed⟩ := @counted_le_run ps s [] hnonneg hlt
  omega

/-- While less than two milliseconds have been missed, no scan is late. -/
theorem elapsed_lt_of_missed_lt (h : s.lastScan = s.clock) (hnonneg : 0 ≤ s.timePassed)
    (hlt : s.timePassed < timerTick) {ps : List LoopPass}
    (hmissed : missed (s.sinceScan [] ps) < 2 * millisecond) :
    (s.run ps).clock - (s.run ps).lastScan < (timerTick + 1) * millisecond := by
  have hfew := counted_sinceScan_lt hnonneg hlt ps
  rw [elapsed_run h]
  unfold timerTick at hfew ⊢
  unfold millisecond at hmissed ⊢
  omega

/-- **The scan is no more than a millisecond late** exactly if the time that has been
missed since the last one does not make up for the milliseconds left.  When every pass
keeps time it never does. -/
theorem elapsed_lt_iff (h : s.lastScan = s.clock) (ps : List LoopPass) :
    ((s.run ps).clock - (s.run ps).lastScan < (timerTick + 1) * millisecond ↔
      missed (s.sinceScan [] ps) <
        (timerTick + 1 - counted (s.sinceScan [] ps)) * millisecond) ∧
    (0 ≤ s.timePassed → s.timePassed < timerTick → (∀ p ∈ ps, p.KeepsTime) →
      (s.run ps).clock - (s.run ps).lastScan < (timerTick + 1) * millisecond) := by
  refine ⟨?_, fun hnonneg hlt hkeep => ?_⟩
  · rw [elapsed_run h, Nat.sub_mul]
    omega
  · refine elapsed_lt_of_missed_lt h hnonneg hlt ?_
    have hsince : ∀ p ∈ s.sinceScan [] ps, p.KeepsTime := fun p hp =>
      hkeep p ((mem_of_mem_sinceScan ps hp).resolve_left List.not_mem_nil)
    have hmissed := missed_of_keepsTime hsince
    have hfew := counted_sinceScan_lt hnonneg hlt ps
    unfold timerTick at hfew hmissed
    unfold millisecond at hmissed ⊢
    omega

/-- A pass of 200.4 ms, and two of 100.5 ms each. -/
theorem elapsed_one_pass :
    ((⟨0, 0, 0⟩ : EventLoop).run [⟨.events, 0, 200400000⟩]).clock -
        ((⟨0, 0, 0⟩ : EventLoop).run [⟨.events, 0, 200400000⟩]).lastScan <
      (timerTick + 1) * millisecond ∧
    ((⟨0, 0, 0⟩ : EventLoop).run
        [⟨.events, 0, 100500000⟩, ⟨.events, 0, 100500000⟩]).clock -
        ((⟨0, 0, 0⟩ : EventLoop).run
          [⟨.events, 0, 100500000⟩, ⟨.events, 0, 100500000⟩]).lastScan <
      (timerTick + 1) * millisecond :=
  ⟨(elapsed_lt_iff rfl _).1.mpr (by decide),
    (elapsed_lt_iff rfl _).2 (by decide) (by decide) (by decide)⟩

/-- **Keeping time is needed**: passes that count a millisecond each, and do not keep
time, are a millisecond late before the tick. -/
theorem late_of_not_keepsTime {p : LoopPass} (hevents : p.outcome = .events)
    (hone : p.counted = 1) (hkeep : ¬ p.KeepsTime) (hzero : s.timePassed = 0)
    (h : s.lastScan = s.clock) :
    (timerTick + 1) * millisecond ≤ (s.run (List.replicate (timerTick - 1) p)).clock -
      (s.run (List.replicate (timerTick - 1) p)).lastScan := by
  have hcounted : counted (List.replicate (timerTick - 1) p) = timerTick - 1 := by
    rw [counted, List.map_replicate, List.sum_replicate, hone]
    rfl
  have hrun := @run_of_counted_lt s (List.replicate (timerTick - 1) p)
    (fun q hq => List.eq_of_mem_replicate hq ▸ hevents) (by rw [hzero, hcounted]; decide)
  rw [hrun, h, Nat.add_sub_cancel_left, List.map_replicate, List.sum_replicate_nat,
    p.time_eq, hone]
  rw [LoopPass.KeepsTime, hone, not_or] at hkeep
  unfold timerTick millisecond at hkeep ⊢
  omega

/-- 300 passes of a nanosecond less than a millisecond each. -/
theorem scan_postponed :
    ¬ ∀ (s : EventLoop) (ps : List LoopPass), s.timePassed = 0 → s.lastScan = s.clock →
      (∀ p ∈ ps, p.outcome = .events) →
      (s.run ps).clock - (s.run ps).lastScan < (timerTick + 1) * millisecond := by
  intro h
  have hpass : ∀ p ∈ List.replicate 300 (⟨.events, 0, 999999⟩ : LoopPass),
      p.outcome = .events ∧ p.duration < millisecond := by
    intro p hp
    rw [List.eq_of_mem_replicate hp]
    exact ⟨rfl, by decide⟩
  have helapsed := h ⟨0, 0, 0⟩ (List.replicate 300 ⟨.events, 0, 999999⟩) rfl rfl
    fun p hp => (hpass p hp).1
  have htime : ((List.replicate 300 (⟨.events, 0, 999999⟩ : LoopPass)).map LoopPass.time).sum =
      299999700 := by
    rw [List.map_replicate, List.sum_replicate]
    rfl
  have hcounted := counted_eq_zero fun p hp => (hpass p hp).2
  rw [run_of_counted_lt _ (fun p hp => (hpass p hp).1) (by rw [hcounted]; decide), htime]
    at helapsed
  exact absurd helapsed (by decide)

end EventLoop

end TpAdvanced
