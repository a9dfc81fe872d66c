import TpAdvanced.Coroutine.Ordinator

/-!
# Routines that resume each other

There is one current id and one saved context.  A call of `resume` inside of a routine
overwrites both, and when it returns the current id is 0 and the saved context used
up.  So control and the current id are restored as they should be just while the calls
of `resume` that return have been made outside of the routines.

## Main definitions

* `Restores` — what a return has to restore.
* `ReturnsOutside` — the condition.
* `Chain` — the invariant: calls inside of calls, none of which has returned.

## Main results

* `restores_iff` — **the condition is exact**.
-/

namespace TpAdvanced

namespace Coroutine

open Machine

variable {F E : Type*}

/-- The innermost call of `resume` returns to where it was made, with the current id
of before. -/
def Thread.ReturnsTo (t t' : Thread F E) : Prop :=
  ∃ k rest, t.calls = k :: rest ∧ t'.calls = rest ∧ t'.running = k.caller ∧
    t'.ordinator.current = k.before

/-- The routine of the body `a` is suspended behind its `yield`. -/
def Thread.SuspendedAt (t : Thread F E) (a : Activation F) : Prop :=
  (t.ordinator.routine? a.id).map (·.ctx) = some (.suspended { a with segment := a.segment + 1 })

/-- **What a return has to restore.**  A call of `resume` that returns at once leaves
the current id alone; a `yield` suspends the routine that executes it. -/
def Restores : Execution F E → ThreadEvent F E → Prop
  | .defined t, .resume id switches => ∃ t', t.resume id switches = .defined t' ∧
      (t'.calls = t.calls →
        t'.running = t.running ∧ t'.ordinator.current = t.ordinator.current)
  | .defined t, .yield => ∃ a t', t.running = some a ∧ t.yield = .defined t' ∧
      t.ReturnsTo t' ∧ t'.SuspendedAt a
  | .defined t, .finish => ∀ a, t.running = some a →
      ∃ t', t.finish a.id none = .defined t' ∧ t.ReturnsTo t'
  | .defined t, .throw e => ∀ a, t.running = some a →
      ∃ t', t.finish a.id (some e) = .defined t' ∧ t.ReturnsTo t'
  | _, _ => True

/-- A call of `resume` for this id returns at once. -/
def Thread.Refuses (t : Thread F E) (id : ℕ) : Prop :=
  ∀ r, t.ordinator.routine? id = some r → r.finished = true

/-- The routine has something to run, and is not being run. -/
def Thread.CanRun (t : Thread F E) (id : ℕ) : Prop :=
  ∃ r, t.ordinator.routine? id = some r ∧ r.ctx ≠ .loaded ∧ (r.ctx = .entry → r.func ≠ none)

/-- **The condition**: a call of `resume` inside of a routine is refused or runs
another routine, and a routine that yields or ends was resumed outside of any. -/
def ReturnsOutside : Execution F E → ThreadEvent F E → Prop
  | .defined t, .resume id switches =>
    t.running = none ∨ t.Refuses id ∨ (switches = true ∧ t.CanRun id)
  | .defined t, .yield => ∃ k, t.calls = [k]
  | .defined t, .finish => ∃ k, t.calls = [k]
  | .defined t, .throw _ => ∃ k, t.calls = [k]
  | _, _ => True

/-! ### The invariant -/

/-- The value of `current()` in this body. -/
def currentIn (running : Option (Activation F)) : ℕ := (running.map (·.id)).getD 0

/-- Where the calls of `resume` have been made: the outermost one outside, each other
one in a routine. -/
def Nests : List (ResumeCall F) → Prop
  | [] => True
  | [k] => k.caller = none ∧ k.before = 0
  | k :: rest => k.before ≠ 0 ∧ Nests rest

/-- **The invariant**: calls inside of calls, none of which has returned. -/
structure Chain (t : Thread F E) : Prop where
  queued : t.ordinator.Queued
  current : t.ordinator.current = currentIn t.running
  nests : Nests t.calls
  outside : t.running = none → t.calls = []
  inside : ∀ a, t.running = some a → ∃ k rest r, t.calls = k :: rest ∧
    t.ordinator.ctx = some k ∧ k.id = a.id ∧ t.ordinator.routine? a.id = some r ∧
    r.finished = false
  unfinished : ∀ id r, t.ordinator.routine? id = some r → r.finished = false →
    r.exception = none ∧ (∀ a, r.ctx = .suspended a → a.id = id) ∧
    (r.ctx = .loaded → ∃ k ∈ t.calls, k.id = id)

theorem Nests.before_eq_zero {k : ResumeCall F} {rest : List (ResumeCall F)}
    (h : Nests (k :: rest)) : k.before = 0 ↔ rest = [] := by
  cases rest with
  | nil => simp [h.2]
  | cons k' rest => simp [h.1]

theorem Nests.caller_eq_none {k : ResumeCall F} (h : Nests [k]) : k.caller = none := h.1

namespace Chain

open Function (update)

variable {t : Thread F E} {id : ℕ} {r' : Routine F E} {a : Activation F}

theorem start : Chain ({} : Thread F E) where
  queued := .start
  current := rfl
  nests := trivial
  outside := fun _ => rfl
  inside := nofun
  unfinished := by
    intro id r hr
    simp [Ordinator.routine?] at hr

/-- A body that runs has an id. -/
theorem ne_zero (h : Chain t) (hrun : t.running = some a) : a.id ≠ 0 := by
  obtain ⟨k, rest, r, -, -, -, hr, -⟩ := h.inside a hrun
  exact t.ordinator.ne_zero_of_routine? hr

/-- Outside, and only there, the current id is 0. -/
theorem current_eq_zero (h : Chain t) : t.ordinator.current = 0 ↔ t.running = none := by
  rw [h.current, currentIn]
  cases hrun : t.running with
  | none => simp
  | some a => simp [h.ne_zero hrun]

/-- A step that assigns to one routine. -/
theorem of_update (h : Chain t) (t' : Thread F E)
    (hroutine : t'.ordinator.routine? = update t.ordinator.routine? id (some r'))
    (hcalls : ∀ k ∈ t.calls, k.id ≠ id → k ∈ t'.calls)
    (hnew : r'.finished = false → r'.exception = none ∧
      (∀ a, r'.ctx = .suspended a → a.id = id) ∧ (r'.ctx = .loaded → ∃ k ∈ t'.calls, k.id = id))
    (hqueued : t'.ordinator.Queued) (hcurrent : t'.ordinator.current = currentIn t'.running)
    (hnests : Nests t'.calls) (houtside : t'.running = none → t'.calls = [])
    (hinside : ∀ a, t'.running = some a → ∃ k rest r, t'.calls = k :: rest ∧
      t'.ordinator.ctx = some k ∧ k.id = a.id ∧ t'.ordinator.routine? a.id = some r ∧
      r.finished = false) : Chain t' where
  queued := hqueued
  current := hcurrent
  nests := hnests
  outside := houtside
  inside := hinside
  unfinished := by
    intro j r hr hunfinished
    rw [hroutine, Function.update_apply] at hr
    by_cases hj : j = id
    · rw [if_pos hj] at hr
      cases hr
      rw [hj]
      exact hnew hunfinished
    · rw [if_neg hj] at hr
      obtain ⟨hexception, hsuspended, hloaded⟩ := h.unfinished j r hr hunfinished
      refine ⟨hexception, hsuspended, fun hc => ?_⟩
      obtain ⟨k, hk, rfl⟩ := hloaded hc
      exact ⟨k, hcalls k hk hj, rfl⟩

/-! ### The calls -/

theorem create (h : Chain t) (f : Option F) : Chain (t.create f) := by
  obtain ⟨h0, hfree, hroutine, hcurrent, hctx, hqueued⟩ := h.queued.create_cases f
  refine h.of_update (t.create f) hroutine (fun k hk _ => hk) (fun _ => ⟨rfl, nofun, nofun⟩) hqueued
    (hcurrent.trans h.current) h.nests h.outside ?_
  intro a hrun
  obtain ⟨k, rest, r, hcalls, hk, hid, hr, hunfinished⟩ := h.inside a hrun
  refine ⟨k, rest, r, hcalls, hctx.trans hk, hid, ?_, hunfinished⟩
  have hne : a.id ≠ (t.ordinator.create f).1 := by
    intro heq
    rw [heq] at hr
    cases hunfinished.symm.trans (hfree r hr)
  exact (congrFun hroutine a.id).trans ((Function.update_of_ne hne _ _).trans hr)

theorem refuse (h : Chain t) : Chain (t.refuse id) :=
  ⟨h.queued, h.current, h.nests, h.outside, h.inside, h.unfinished⟩

/-- The calls of `resume` behind one more. -/
theorem nests_saveMain (h : Chain t) (id : ℕ) : Nests (t.saveMain id).calls := by
  change Nests (⟨t.running, id, t.ordinator.current⟩ :: t.calls)
  cases hrun : t.running with
  | none =>
    rw [h.outside hrun, h.current_eq_zero.mpr hrun]
    exact ⟨rfl, rfl⟩
  | some a =>
    obtain ⟨k, rest, -, hcalls, -⟩ := h.inside a hrun
    have hne : t.ordinator.current ≠ 0 := by
      rw [Ne, h.current_eq_zero, hrun]
      nofun
    have hnests := h.nests
    rw [hcalls] at hnests ⊢
    exact ⟨hne, hnests⟩

/-- A routine runs on. -/
theorem runOn (h : Chain t) {r : Routine F E} (hr : t.ordinator.routine? a.id = some r)
    (hunfinished : r.finished = false) : Chain ((t.saveMain a.id).runOn a) := by
  have hroutine : ((t.saveMain a.id).runOn a).ordinator.routine? =
      update t.ordinator.routine? a.id (some { r with ctx := .loaded }) :=
    Thread.routine?_saveMain hr
  have hqueued : ((t.saveMain a.id).runOn a).ordinator.Queued :=
    h.queued.update_unfinished hr hunfinished (by exact hunfinished) hroutine rfl
  refine h.of_update _ hroutine (fun k hk _ => List.mem_cons_of_mem _ hk) ?_ hqueued rfl
    (h.nests_saveMain a.id) nofun ?_
  · intro _
    exact ⟨(h.unfinished a.id r hr hunfinished).1, nofun, fun _ => ⟨_, List.mem_cons_self, rfl⟩⟩
  · rintro b hb
    cases hb
    exact ⟨_, _, _, rfl, rfl, rfl, (congrFun hroutine a.id).trans (Function.update_self ..),
      hunfinished⟩

/-- Control is back outside, in the only call of `resume` there was. -/
theorem back {k : ResumeCall F} {r : Routine F E} (h : Chain t)
    (hcaller : k.caller = none) (hcalls : ∀ k' ∈ t.calls, k'.id = id) {o : Ordinator F E}
    {log : List (Observation F E)} (hr : r.finished = false → r.exception = none ∧
      ∃ a, r.ctx = .suspended a ∧ a.id = id)
    (hroutine : o.routine? = update t.ordinator.routine? id (some r)) (hqueued : o.Queued)
    (hcurrent : o.current = 0) : Chain (⟨o, k.caller, [], log⟩ : Thread F E) := by
  refine h.of_update ⟨o, k.caller, [], log⟩ hroutine ?_ ?_ hqueued ?_ trivial (fun _ => rfl) ?_
  · intro k' hk' hne
    exact absurd (hcalls k' hk') hne
  · intro hunfinished
    obtain ⟨hexception, a, ha, hid⟩ := hr hunfinished
    rw [ha]
    refine ⟨hexception, ?_, nofun⟩
    rintro b hb
    cases hb
    exact hid
  · rw [hcurrent, hcaller]
    rfl
  · intro a ha
    cases hcaller.symm.trans ha

/-- A return restores the current id just when its call was the only one. -/
theorem returnsTo_iff (h : Chain t) {k : ResumeCall F} {rest : List (ResumeCall F)}
    (hcalls : t.calls = k :: rest) {o : Ordinator F E} (hcurrent : o.current = 0)
    (log : List (Observation F E)) :
    t.ReturnsTo ⟨o, k.caller, t.calls.tail, log⟩ ↔ rest = [] := by
  have hnests := h.nests
  rw [hcalls] at hnests
  constructor
  · rintro ⟨k', rest', hcalls', -, -, hbefore⟩
    cases hcalls.symm.trans hcalls'
    exact hnests.before_eq_zero.mp (hbefore.symm.trans hcurrent)
  · intro hrest
    exact ⟨k, rest, hcalls, by rw [hcalls]; rfl, rfl,
      hcurrent.trans (hnests.before_eq_zero.mpr hrest).symm⟩

theorem calls_eq_singleton_iff {k : ResumeCall F} {rest : List (ResumeCall F)}
    (hcalls : t.calls = k :: rest) : (∃ k', t.calls = [k']) ↔ rest = [] := by
  rw [hcalls]
  constructor
  · rintro ⟨k', hk'⟩
    cases hk'
    rfl
  · rintro rfl
    exact ⟨k, rfl⟩

theorem yield (h : Chain t) :
    (Restores (.defined t) .yield ↔ ReturnsOutside (.defined t) .yield) ∧
    (ReturnsOutside (.defined t) .yield → ∃ t', t.yield = .defined t' ∧ Chain t') := by
  cases hrun : t.running with
  | none =>
    -- outside of a routine there is no call of `resume` to return from
    have hcalls := h.outside hrun
    have hnot : ¬ ReturnsOutside (.defined t) .yield := by
      rintro ⟨k, hk⟩
      cases hcalls.symm.trans hk
    refine ⟨⟨?_, fun hyes => absurd hyes hnot⟩, fun hyes => absurd hyes hnot⟩
    rintro ⟨a, -, ha, -⟩
    cases hrun.symm.trans ha
  | some a =>
    obtain ⟨k, rest, r, hcalls, hctx, hid, hr, hunfinished⟩ := h.inside a hrun
    have hexception := (h.unfinished a.id r hr hunfinished).1
    have hcurrent : t.ordinator.current = a.id := by rw [h.current, hrun]; rfl
    -- `yield` goes back to the one context there is, that of the latest `resume`
    obtain ⟨o, hyield, hroutine, hq, hcurrent', -⟩ :=
      Thread.yield_cases hrun hcurrent hctx hid hr hunfinished hexception
    have hreturns := h.returnsTo_iff hcalls hcurrent' (t.log ++ [.returned a.id true])
    have hsuspended : Thread.SuspendedAt
        ⟨o, k.caller, t.calls.tail, t.log ++ [.returned a.id true]⟩ a := by
      rw [Thread.SuspendedAt, hroutine, Function.update_self]
      rfl
    refine ⟨?_, ?_⟩
    · refine Iff.trans ⟨?_, ?_⟩ (calls_eq_singleton_iff hcalls).symm
      · rintro ⟨b, t', -, ht', hback, -⟩
        cases hyield.symm.trans ht'
        exact hreturns.mp hback
      · intro hrest
        exact ⟨a, _, hrun, hyield, hreturns.mpr hrest, hsuspended⟩
    · intro hone
      obtain rfl := (calls_eq_singleton_iff hcalls).mp hone
      have hnests := h.nests
      rw [hcalls] at hnests
      rw [hcalls] at hyield
      refine ⟨_, hyield, h.back hnests.caller_eq_none ?_ ?_ hroutine ?_ hcurrent'⟩
      · intro k' hk'
        rw [hcalls, List.mem_singleton] at hk'
        rw [hk', hid]
      · exact fun _ => ⟨hexception, _, rfl, rfl⟩
      · exact h.queued.update_unfinished hr hunfinished (by exact hunfinished) hroutine hq

/-- The end of a body. -/
theorem finish (h : Chain t) (hrun : t.running = some a) (exception : Option E) :
    ((∃ t', t.finish a.id exception = .defined t' ∧ t.ReturnsTo t') ↔ ∃ k, t.calls = [k]) ∧
    ((∃ k, t.calls = [k]) → ∃ t', t.finish a.id exception = .defined t' ∧ Chain t') := by
  obtain ⟨k, rest, r, hcalls, hctx, hid, hr, hunfinished⟩ := h.inside a hrun
  rw [← hid] at hr ⊢
  obtain ⟨o, hfinish, hroutine, hq, hcurrent, -⟩ :=
    Thread.finish_cases exception hctx hr (h.unfinished k.id r hr hunfinished).1
  have hreturns := h.returnsTo_iff hcalls hcurrent (t.log ++ [ended k.id exception])
  refine ⟨?_, ?_⟩
  · rw [calls_eq_singleton_iff hcalls]
    constructor
    · rintro ⟨t', ht', hback⟩
      cases hfinish.symm.trans ht'
      exact hreturns.mp hback
    · intro hrest
      exact ⟨_, hfinish, hreturns.mpr hrest⟩
  · intro hone
    obtain rfl := (calls_eq_singleton_iff hcalls).mp hone
    have hnests := h.nests
    rw [hcalls] at hnests
    rw [hcalls] at hfinish
    refine ⟨_, hfinish, h.back hnests.caller_eq_none ?_ (by nofun) hroutine ?_ hcurrent⟩
    · intro k' hk'
      rw [hcalls, List.mem_singleton] at hk'
      rw [hk']
    · exact h.queued.update_finished hr hunfinished rfl hroutine hq

/-- A switch to the routine `r`. -/
theorem switchTo (h : Chain t) {r : Routine F E} (hr : t.ordinator.routine? id = some r)
    (hunfinished : r.finished = false) :
    ((∃ t', t.switchTo id r = .defined t' ∧ (t'.calls = t.calls →
        t'.running = t.running ∧ t'.ordinator.current = t.ordinator.current)) ↔
      t.running = none ∨ t.CanRun id) ∧
    (t.running = none ∨ t.CanRun id → ∃ t', t.switchTo id r = .defined t' ∧ Chain t') := by
  obtain ⟨hexception, hsuspended, hloaded⟩ := h.unfinished id r hr hunfinished
  have hcanRun : t.CanRun id ↔ r.ctx ≠ .loaded ∧ (r.ctx = .entry → r.func ≠ none) := by
    constructor
    · rintro ⟨r', hr', hcan⟩
      cases hr.symm.trans hr'
      exact hcan
    · exact fun hcan => ⟨r, hr, hcan⟩
  -- a routine that runs on leaves one more call that has not returned
  have hrunOn : ∀ a : Activation F, a.id = id → t.switchTo id r =
      .defined ((t.saveMain id).runOn a) → t.CanRun id →
      ((∃ t', t.switchTo id r = .defined t' ∧ (t'.calls = t.calls →
          t'.running = t.running ∧ t'.ordinator.current = t.ordinator.current)) ↔
        t.running = none ∨ t.CanRun id) ∧
      (t.running = none ∨ t.CanRun id → ∃ t', t.switchTo id r = .defined t' ∧ Chain t') := by
    rintro a rfl hswitch hcan
    refine ⟨⟨fun _ => .inr hcan, fun _ => ⟨_, hswitch, ?_⟩⟩,
      fun _ => ⟨_, hswitch, h.runOn hr hunfinished⟩⟩
    intro hcalls
    exact absurd hcalls (List.cons_ne_self _ _)
  cases hc : r.ctx with
  | entry =>
    cases hf : r.func with
    | none =>
      have hnot : ¬ t.CanRun id := by
        rw [hcanRun]
        exact fun hcan => hcan.2 hc hf
      have hswitch : t.switchTo id r = (t.saveMain id).finish id none := by
        rw [Thread.switchTo, hc, hf]
      have hr' : (t.saveMain id).ordinator.routine? id = some { r with ctx := .loaded } := by
        rw [Thread.routine?_saveMain hr, Function.update_self]
      obtain ⟨o, hfinish, hroutine, hq, hcurrent, -⟩ :=
        Thread.finish_cases (k := ⟨t.running, id, t.ordinator.current⟩) none rfl hr' hexception
      rw [Thread.routine?_saveMain hr, Function.update_idem] at hroutine
      rw [hswitch, hfinish, or_iff_left hnot, ← h.current_eq_zero]
      refine ⟨⟨?_, ?_⟩, ?_⟩
      · rintro ⟨t', ht', hback⟩
        cases ht'
        exact (hback rfl).2.symm.trans hcurrent
      · intro hzero
        exact ⟨_, rfl, fun _ => ⟨rfl, hcurrent.trans hzero.symm⟩⟩
      · intro hzero
        have hout := h.current_eq_zero.mp hzero
        refine ⟨_, rfl, ?_⟩
        have hnil := h.outside hout
        change Chain ⟨o, t.running, t.calls, _⟩
        rw [hnil]
        refine h.back (k := ⟨t.running, id, 0⟩) hout ?_ (by nofun) hroutine ?_ hcurrent
        · rw [hnil]
          nofun
        · exact h.queued.update_finished hr hunfinished rfl hroutine hq
    | some f =>
      refine hrunOn ⟨id, f, 0⟩ rfl (by rw [Thread.switchTo, hc, hf]) (hcanRun.mpr ?_)
      rw [hc, hf]
      exact ⟨nofun, fun _ => nofun⟩
  | suspended a =>
    refine hrunOn a (hsuspended a hc) (by rw [Thread.switchTo, hc]) (hcanRun.mpr ?_)
    rw [hc]
    exact ⟨nofun, nofun⟩
  | loaded =>
    have hnot : ¬ (t.running = none ∨ t.CanRun id) := by
      rintro (hout | hcan)
      · obtain ⟨k, hk, -⟩ := hloaded hc
        rw [h.outside hout] at hk
        cases hk
      · exact (hcanRun.mp hcan).1 hc
    have hswitch : t.switchTo id r = .undefined := by rw [Thread.switchTo, hc]
    refine ⟨⟨?_, fun hyes => absurd hyes hnot⟩, fun hyes => absurd hyes hnot⟩
    rintro ⟨t', ht', -⟩
    cases hswitch.symm.trans ht'

theorem resume (h : Chain t) (id : ℕ) (switches : Bool) :
    (Restores (.defined t) (.resume id switches) ↔
      ReturnsOutside (.defined t) (.resume id switches)) ∧
    (ReturnsOutside (.defined t) (.resume id switches) →
      ∃ t', t.resume id switches = .defined t' ∧ Chain t') := by
  by_cases hrefuses : t.Refuses id
  · have hrefuse : t.resume id switches = .defined (t.refuse id) := by
      rw [Thread.resume]
      cases hr : t.ordinator.routine? id with
      | none => rfl
      | some r => exact if_pos (hrefuses r hr)
    exact ⟨⟨fun _ => .inr (.inl hrefuses), fun _ => ⟨_, hrefuse, fun _ => ⟨rfl, rfl⟩⟩⟩,
      fun _ => ⟨_, hrefuse, h.refuse⟩⟩
  · obtain ⟨r, hr, hnot⟩ : ∃ r, t.ordinator.routine? id = some r ∧ ¬ r.finished = true := by
      simpa [Thread.Refuses] using hrefuses
    have hunfinished : r.finished = false := Bool.eq_false_iff.mpr hnot
    cases switches with
    | true =>
      have hresume : t.resume id true = t.switchTo id r := by
        rw [Thread.resume, hr]
        exact if_neg hnot
      simpa only [Restores, ReturnsOutside, hresume, hrefuses, false_or, true_and] using
        h.switchTo hr hunfinished
    | false =>
      -- the current id is lost, and the context that was saved
      have hresume : t.resume id false = .defined
          (Thread.refuse { t with
            ordinator := { t.ordinator with current := 0, ctx := none } } id) := by
        rw [Thread.resume, hr]
        exact if_neg hnot
      have hout : ReturnsOutside (.defined t) (.resume id false) ↔ t.running = none := by
        simp [ReturnsOutside, hrefuses]
      rw [hout, Restores, hresume]
      refine ⟨?_, ?_⟩
      · rw [← h.current_eq_zero]
        constructor
        · rintro ⟨t', ht', hback⟩
          cases ht'
          exact (hback rfl).2.symm
        · intro hzero
          exact ⟨_, rfl, fun _ => ⟨rfl, hzero.symm⟩⟩
      · intro hrun
        refine ⟨_, rfl, ⟨h.queued.nodup, h.queued.mem_finished⟩, ?_, h.nests, h.outside, ?_,
          h.unfinished⟩
        · change 0 = currentIn t.running
          rw [hrun]
          rfl
        · intro a ha
          cases hrun.symm.trans ha

/-- **A step restores what it has to just when the condition holds**, and then it
keeps the invariant. -/
theorem step (h : Chain t) {e : ThreadEvent F E} {x : Execution F E}
    (hstep : Execution.step (.defined t) e = some x) :
    (Restores (.defined t) e ↔ ReturnsOutside (.defined t) e) ∧
    (ReturnsOutside (.defined t) e → ∃ t', x = .defined t' ∧ Chain t') := by
  cases e with
  | create f =>
    cases hstep
    exact ⟨Iff.rfl, fun _ => ⟨_, rfl, h.create f⟩⟩
  | resume id switches =>
    cases hstep
    exact h.resume id switches
  | yield =>
    cases hstep
    exact h.yield
  | finish =>
    obtain ⟨a, hrun, rfl⟩ := Option.map_eq_some_iff.mp hstep
    obtain ⟨hiff, hkeep⟩ := h.finish hrun none
    refine ⟨Iff.trans ⟨fun hall => hall a hrun, ?_⟩ hiff, hkeep⟩
    rintro hback b hb
    cases hrun.symm.trans hb
    exact hback
  | throw ex =>
    obtain ⟨a, hrun, rfl⟩ := Option.map_eq_some_iff.mp hstep
    obtain ⟨hiff, hkeep⟩ := h.finish hrun (some ex)
    refine ⟨Iff.trans ⟨fun hall => hall a hrun, ?_⟩ hiff, hkeep⟩
    rintro hback b hb
    cases hrun.symm.trans hb
    exact hback

end Chain

/-- **The condition is exact**: in a run every return restores what it has to if and
only if every call of `resume` that returns was made outside of the routines. -/
theorem restores_iff {events : List (ThreadEvent F E)} {x : Execution F E}
    (hrun : run Execution.step .start events = some x) :
    Along Execution.step (fun x e _ => Restores x e) .start events ↔
      Along Execution.step (fun x e _ => ReturnsOutside x e) .start events := by
  refine along_iff (fun x => ∀ t, x = .defined t → Chain t) ?_ ?_ ?_ hrun
  · intro x e _ x' hinv hstep
    cases x with
    | defined t => exact ((hinv t rfl).step hstep).1
    | undefined => cases hstep
  · rintro x e _ x' hinv hstep hreturns t rfl
    cases x with
    | defined t₀ =>
      obtain ⟨t', ht', hchain⟩ := ((hinv t₀ rfl).step hstep).2 hreturns
      cases ht'
      exact hchain
    | undefined => cases hstep
  · rintro t ht
    cases ht
    exact .start

/-- A routine resumes another one, and neither yields. -/
theorem restores_two_deep :
    let events : List (ThreadEvent ℕ String) :=
      [.create (some 7), .create (some 8), .resume 1 true, .resume 2 true]
    (∃ x, run Execution.step .start events = some x) ∧
      Along Execution.step (fun x e _ => Restores x e) .start events := by
  intro events
  obtain ⟨x, hrun⟩ : ∃ x, run Execution.step .start events = some x := ⟨_, rfl⟩
  refine ⟨⟨x, hrun⟩, (restores_iff hrun).mpr ?_⟩
  refine ⟨trivial, ?_⟩
  rintro _ ⟨⟩
  refine ⟨trivial, ?_⟩
  rintro _ ⟨⟩
  refine ⟨.inl rfl, ?_⟩
  rintro _ ⟨⟩
  refine ⟨.inr (.inr ⟨rfl, _, rfl, nofun, fun _ => nofun⟩), ?_⟩
  rintro _ ⟨⟩
  trivial

/-- Routine 1 resumes routine 2, which yields: back in routine 1 the current id is 0. -/
theorem nested_resume_loses_current :
    ¬ ∀ (events : List (ThreadEvent ℕ String)) (x : Execution ℕ String),
      run Execution.step .start events = some x →
        Along Execution.step (fun x e _ => Restores x e) .start events := by
  intro h
  let before : List (ThreadEvent ℕ String) :=
    [.create (some 7), .create (some 8), .resume 1 true, .resume 2 true]
  have halong := h (before ++ [.yield]) _ rfl
  have hlast := (Along.append_right halong rfl).1
  obtain ⟨a, t', ha, ht', ⟨k, rest, hcalls, -, -, hbefore⟩, -⟩ := hlast
  cases ht'
  cases hcalls
  cases hbefore

end Coroutine

end TpAdvanced
