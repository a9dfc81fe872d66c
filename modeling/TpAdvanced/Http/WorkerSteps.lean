import TpAdvanced.Http.LiveHandlers

/-!
# What a worker does to its handlers

Each of the four loops of a worker touches the handlers it is for and no others: an
event of a client concerns its handler, the timeout scan the handlers that have been idle
for too long, and the end of the worker all of them.

## Main definitions

* `Worker.expired` — the timeout scan will end the handler.
* `Worker.Effect` — what each step of a worker comes from and leads to.

## Main results

* `Worker.handleClient_handles` — **an event of a client.**
* `Worker.scheduleTimeoutHandler_spec` — **the timeout scan.**
* `Worker.shutdown_spec`, `Worker.destroy_spec` — the end of a worker.
* `Worker.effect_of_step` — **a step.**
-/

namespace TpAdvanced

open Machine Coroutine

namespace Worker

open Function (update)

variable [StdHash] {w w' : Worker} {t : Thread ℕ Thrown} {fd : ℕ} {c : HandlerEntry}
  {script : List HandlerEvent} {threshold now : ℤ} {order : List ℕ}

/-! ### An event of a client -/

/-- An event of a client resumes its handler, which may have to be made first: then it has
a routine of its own, and stands before its first step. -/
theorem resumable_of_handleClient {modified : Bool} {interests : Option EventsSet}
    (h : LiveOn w t fun _ => True)
    (hres : w.handleClient fd script modified = some (w', interests)) :
    ∃ w₁ t₁ c id n, Resumable w₁ t₁ (· ≠ fd) fd c id n ∧ c.fd = some fd ∧ c.state.Masked ∧
      c.isTimeout = false ∧ w₁.resumeHandler fd script modified = some (w', interests) ∧
      (∀ fd', fd' ≠ fd → w₁.handler? fd' = w.handler? fd') ∧ w₁.phase = w.phase ∧
      w₁.closing = w.closing ∧
      c.state = (w.handler? fd).elim ⟨.new (.ofList [.in_]) 1, .created⟩ HandlerEntry.state := by
  unfold Worker.handleClient at hres
  cases hc : w.handler? fd with
  | some c =>
    rw [hc] at hres
    obtain ⟨id, n, hresumable⟩ := h.resumable trivial hc fun _ hne => ⟨trivial, hne⟩
    obtain ⟨⟨m, hfd, hmasked, -⟩, -, htimeout⟩ := h.parked fd c trivial hc
    exact ⟨w, t, c, id, n + 1, hresumable, hfd, hmasked, htimeout, hres, fun _ _ => rfl, rfl, rfl,
      rfl⟩
  | none =>
    rw [hc] at hres
    obtain ⟨w₁, hcreate, hres⟩ := Option.bind_eq_some_iff.mp hres
    -- the new routine has an id that no other handler has
    obtain ⟨t', o, ht', hlog, hslots, hflat'⟩ := h.flat.create (some fd)
    have hnew : ∃ id, o = .created id ∧ t.slots.waiting id = none ∧ t'.slots =
        { t.slots with waiting := update t.slots.waiting id (some (some fd, 0)) } := by
      generalize t'.slots = slots at hslots
      cases hslots with
      | create h0 hwaiting hrunning => exact ⟨_, rfl, hwaiting, rfl⟩
    obtain ⟨id, rfl, hfree, hslots'⟩ := hnew
    have hwaiting : t'.slots.waiting = update t.slots.waiting id (some (some fd, 0)) :=
      congrArg Slots.waiting hslots'
    have hstep : w.execution.step (.create (some fd)) = some (.defined t') := by
      rw [h.execution, Execution.step, ht']
    have hlast : lastObservation (.defined t') = some (.created id) := by
      rw [lastObservation, hlog, List.getLast?_concat]
    rw [createHandler, hstep, Option.bind_some, hlast] at hcreate
    let c₀ : HandlerEntry := ⟨some fd, some id, ⟨.new (.ofList [.in_]) 1, .created⟩⟩
    have hw₁ : w₁ = { w with execution := .defined t' }.set fd c₀ := (Option.some.inj hcreate).symm
    have hentry : w₁.handler? = update w.handler? fd (some c₀) := by
      rw [hw₁, handler?_set]
      rfl
    have hapart : ∀ fd' c', fd' ≠ fd → w.handler? fd' = some c' → c'.routineId ≠ some id := by
      intro fd' c' _ hc' hid'
      obtain ⟨n, -, -, id', hid'', hwaits⟩ := (h.parked fd' c' trivial hc').waits
      cases hid'.symm.trans hid''
      cases hfree.symm.trans hwaits
    have hlive : LiveOn w₁ t' (· ≠ fd) := by
      have hout : t'.running = none := (congrArg Slots.running hslots').trans h.outside
      rw [hw₁]
      exact (h.mono fun _ _ => trivial).update (fun hne => hne rfl) hapart hflat' hout hwaiting c₀
    have hothers : ∀ fd', fd' ≠ fd → w₁.handler? fd' = w.handler? fd' := by
      intro fd' hne
      rw [hentry, Function.update_of_ne hne]
    refine ⟨w₁, t', c₀, id, 0, ?_, rfl, rfl, rfl, hres, hothers, by rw [hw₁]; rfl,
      by rw [hw₁]; rfl, rfl⟩
    refine ⟨hlive, fun hne => hne rfl, by rw [hentry, Function.update_self], rfl, ?_, ?_⟩
    · rw [hwaiting, Function.update_self]
    · intro fd' c' hne hc'
      rw [hothers fd' hne] at hc'
      exact hapart fd' c' hne hc'

/-- **What an event of a client makes of a worker.** -/
theorem handleClient_handles {modified : Bool} {interests : Option EventsSet}
    (h : LiveOn w t fun _ => True)
    (hres : w.handleClient fd script modified = some (w', interests)) :
    Handles w w' fd ((w.handler? fd).elim (.ofList [.in_]) HandlerEntry.eventsSet) script
      interests := by
  obtain ⟨w₁, t₁, c, id, n, hresumable, hfd, hmasked, htimeout, hres, hothers, hphase, hclosing,
    hstate⟩ := resumable_of_handleClient h hres
  have hset : c.eventsSet =
      (w.handler? fd).elim (.ofList [.in_]) HandlerEntry.eventsSet := by
    rw [HandlerEntry.eventsSet, hstate]
    cases w.handler? fd <;> rfl
  have hhandles := hresumable.resumeHandler hfd hmasked htimeout hres
  rw [hset] at hhandles
  refine ⟨hhandles.live, fun fd' hne => (hhandles.others fd' hne).trans (hothers fd' hne),
    hhandles.phase.trans hphase, ?_⟩
  rw [← hclosing]
  exact hhandles.outcome

/-! ### The timeout scan -/

omit [StdHash] in
/-- The timeout scan will end the handler of `fd`. -/
def expired (threshold now : ℤ) (w : Worker) (fd : ℕ) : Bool :=
  (w.handler? fd).any fun c => threshold ≤ now - c.lastActivity

omit [StdHash] in
theorem LiveOn.set {P : ℕ → Prop} (h : LiveOn w t P) (hfd : ¬ P fd) (c : HandlerEntry) :
    LiveOn (w.set fd c) t P := by
  have hentry : ∀ fd', P fd' → (w.set fd c).handler? fd' = w.handler? fd' := by
    intro fd' hP
    have hne : fd' ≠ fd := by
      rintro rfl
      exact hfd hP
    rw [handler?_set, Function.update_of_ne hne]
  refine ⟨h.execution, h.flat, h.outside, ?_, ?_⟩
  · intro fd' c' hP hc'
    rw [hentry fd' hP] at hc'
    exact h.parked fd' c' hP hc'
  · intro fd₁ fd₂ c₁ c₂ hP₁ hP₂ hc₁ hc₂
    rw [hentry fd₁ hP₁] at hc₁
    rw [hentry fd₂ hP₂] at hc₂
    exact h.distinct fd₁ fd₂ c₁ c₂ hP₁ hP₂ hc₁ hc₂

omit [StdHash] in
/-- A handler that is to time out can still be resumed. -/
theorem Resumable.setTimeout {P : ℕ → Prop} {id n : ℕ} (h : Resumable w t P fd c id n) :
    Resumable (w.set fd c.setTimeout) t P fd c.setTimeout id n where
  live := h.live.set h.outside _
  outside := h.outside
  entry := by rw [handler?_set, Function.update_self]
  routineId := h.routineId
  waiting := h.waiting
  apart := by
    intro fd' c' hP hc'
    have hne : fd' ≠ fd := by
      rintro rfl
      exact h.outside hP
    rw [handler?_set, Function.update_of_ne hne] at hc'
    exact h.apart fd' c' hP hc'

/-- The scan on one handler: it is left alone, or ended and its descriptor closed, by
the scan and by the destructor. -/
theorem timeoutHandler_spec (h : LiveOn w t fun _ => True)
    (hres : timeoutHandler threshold now w fd = some w') :
    (w.expired threshold now fd = false ∧ w' = w) ∨
      (w.expired threshold now fd = true ∧ (∃ t', LiveOn w' t' fun _ => True) ∧
        w'.handler? = update w.handler? fd none ∧ w'.closing = w.closing ++ [fd, fd] ∧
        w'.phase = w.phase) := by
  obtain ⟨c, hc, hres⟩ := Option.bind_eq_some_iff.mp hres
  have hexpired : w.expired threshold now fd = decide (threshold ≤ now - c.lastActivity) := by
    rw [expired, hc, Option.any_some]
  by_cases hlate : threshold ≤ now - c.lastActivity
  · rw [if_pos hlate, Option.map_eq_some_iff] at hres
    obtain ⟨r, hr, hres⟩ := hres
    refine .inr ⟨by rw [hexpired, decide_eq_true hlate], ?_⟩
    obtain ⟨id, n, hresumable⟩ := h.resumable trivial hc fun _ hne => ⟨trivial, hne⟩
    obtain ⟨⟨m, hfd, hmasked, -⟩, -, htimeout⟩ := h.parked fd c trivial hc
    obtain ⟨s, e, hrun⟩ := hresumable.setTimeout.runOn_of_resumeConnection hr
    obtain ⟨t', result, hresume, hlive, -⟩ := hresumable.setTimeout.resumeConnection hrun
    rw [hresume] at hr
    cases hr
    dsimp only at hres
    generalize hw₁ : ({ w.set fd c.setTimeout with execution := .defined t' }.set fd
      (c.setTimeout.withState s)) = w₁ at hres hlive
    have hentry : w₁.handler? = update w.handler? fd (some (c.setTimeout.withState s)) := by
      rw [← hw₁]
      exact handler?_resumed w _ fd _ _
    have hc₁ : ({ w₁ with closing := w₁.closing ++ [fd] } : Worker).handler? fd =
        some (c.setTimeout.withState s) := by
      change w₁.handler? fd = _
      rw [hentry, Function.update_self]
    have herased := handler?_erase { w₁ with closing := w₁.closing ++ [fd] } fd
    change _ = update w₁.handler? fd none at herased
    rw [hres] at herased
    rw [erase_of_entry hc₁] at hres
    -- the scan closes the descriptor, and the destructor of the handler does once more
    refine ⟨⟨t', hlive.erase (by rw [← hres]) herased⟩, ?_, ?_, ?_⟩
    · rw [herased, hentry, Function.update_idem]
    · rw [← hres, ← hw₁]
      change (w.closing ++ [fd]) ++ c.fd.toList = _
      rw [hfd, List.append_assoc]
      rfl
    · rw [← hres, ← hw₁]
      rfl
  · rw [if_neg hlate] at hres
    exact .inl ⟨by rw [hexpired, decide_eq_false hlate], (Option.some.inj hres).symm⟩

/-- **The timeout scan** ends the expired handlers, closing each descriptor twice, and
leaves the others alone. -/
theorem scheduleTimeoutHandler_spec (order : List ℕ) : ∀ {w : Worker} {t : Thread ℕ Thrown},
    LiveOn w t (fun _ => True) → order.Nodup →
    w.scheduleTimeoutHandler threshold now order = some w' →
    (∃ t', LiveOn w' t' fun _ => True) ∧
      (∀ fd, w'.handler? fd =
        if fd ∈ order ∧ w.expired threshold now fd = true then none else w.handler? fd) ∧
      w'.closing =
        w.closing ++ (order.filter (w.expired threshold now)).flatMap (fun fd => [fd, fd]) ∧
      w'.phase = w.phase := by
  induction order with
  | nil =>
    intro w t h _ hres
    cases hres
    refine ⟨⟨t, h⟩, ?_, ?_, rfl⟩
    · intro fd
      rw [if_neg (by simp)]
    · rw [List.filter_nil, List.flatMap_nil, List.append_nil]
  | cons fd order ih =>
    intro w t h hnodup hres
    obtain ⟨hfd, hnodup⟩ := List.nodup_cons.mp hnodup
    rw [scheduleTimeoutHandler, List.foldlM_cons, Option.bind_eq_bind,
      Option.bind_eq_some_iff] at hres
    obtain ⟨w₁, hone, hres⟩ := hres
    obtain ⟨hspared, rfl⟩ | ⟨hexpired, ⟨t₁, h₁⟩, hentry, hclosing, hphase⟩ :=
      timeoutHandler_spec h hone
    · obtain ⟨hlive, hentries, hclosing, hphase⟩ := ih h hnodup hres
      refine ⟨hlive, ?_, ?_, hphase⟩
      · intro fd'
        rw [hentries fd']
        by_cases hfd' : fd' = fd
        · subst hfd'
          rw [if_neg (by simp [hspared]), if_neg (by simp [hspared])]
        · simp [hfd']
      · rw [hclosing, List.filter_cons_of_neg (by simp [hspared])]
    · obtain ⟨hlive, hentries, hclosing', hphase'⟩ := ih h₁ hnodup hres
      -- the rest of the order does not contain the handler that is gone
      have hsame : ∀ fd' ∈ order, w₁.expired threshold now fd' = w.expired threshold now fd' := by
        intro fd' hfd'
        have hne : fd' ≠ fd := by
          rintro rfl
          exact hfd hfd'
        rw [expired, expired, hentry, Function.update_of_ne hne]
      refine ⟨hlive, ?_, ?_, hphase'.trans hphase⟩
      · intro fd'
        rw [hentries fd']
        by_cases hfd' : fd' = fd
        · subst hfd'
          rw [if_neg (fun hmem => hfd hmem.1), if_pos ⟨List.mem_cons_self, hexpired⟩, hentry,
            Function.update_self]
        · rw [hentry, Function.update_of_ne hfd']
          by_cases hmem : fd' ∈ order
          · simp [hmem, hsame fd' hmem]
          · simp [hmem, hfd']
      · rw [hclosing', hclosing, List.filter_congr hsame, List.filter_cons_of_pos hexpired,
          List.flatMap_cons, List.append_assoc]

/-! ### The end of a worker -/

/-- **The loop behind the event loop** closes nothing and erases no handler. -/
theorem shutdown_spec (order : List ℕ) : ∀ {w : Worker} {t : Thread ℕ Thrown},
    LiveOn w t (· ∈ order) → order.Nodup → shutdown order w = some w' →
    w'.closing = w.closing ∧
      ∀ fd, (w'.handler? fd).map HandlerEntry.fd = (w.handler? fd).map HandlerEntry.fd := by
  induction order with
  | nil =>
    intro w t _ _ hres
    cases hres
    exact ⟨rfl, fun _ => rfl⟩
  | cons fd order ih =>
    intro w t h hnodup hres
    obtain ⟨hfd, hnodup⟩ := List.nodup_cons.mp hnodup
    obtain ⟨c, hc, hres⟩ := Option.bind_eq_some_iff.mp hres
    obtain ⟨r, hr, hres⟩ := Option.bind_eq_some_iff.mp hres
    obtain ⟨id, n, hresumable⟩ := @LiveOn.resumable _ _ _ _ _ (· ∈ order) h List.mem_cons_self hc
      fun fd' hmem => ⟨List.mem_cons_of_mem fd hmem, fun heq => hfd (heq ▸ hmem)⟩
    obtain ⟨s, e, hrun⟩ := hresumable.setTimeout.runOn_of_resumeConnection hr
    obtain ⟨t', result, hresume, hlive, -⟩ := hresumable.setTimeout.resumeConnection hrun
    rw [hresume] at hr
    cases hr
    dsimp only at hres
    generalize hw₁ : ({ w.set fd c.setTimeout with execution := .defined t' }.set fd
      (c.setTimeout.withState s)) = w₁ at hres hlive
    -- the entry is another one, with the same descriptor
    have hkept : w₁.closing = w.closing ∧
        ∀ fd', (w₁.handler? fd').map HandlerEntry.fd = (w.handler? fd').map HandlerEntry.fd := by
      rw [← hw₁]
      refine ⟨rfl, fun fd' => ?_⟩
      rw [handler?_resumed, Function.update_apply]
      split
      · next heq =>
        rw [heq, hc]
        rfl
      · rfl
    cases result with
    | error x =>
      -- the exception leaves the loop, and the handlers behind are not resumed
      cases hres
      exact hkept
    | ok suspended =>
      obtain ⟨hclosing, hfds⟩ := ih hlive hnodup hres
      exact ⟨hclosing.trans hkept.1, fun fd' => (hfds fd').trans (hkept.2 fd')⟩

omit [StdHash] in
/-- **The destructor** closes the descriptor of every handler, once. -/
theorem destroy_spec (order : List ℕ) : ∀ {w : Worker}, order.Nodup →
    (∀ fd ∈ order, ∃ c, w.handler? fd = some c ∧ c.fd = some fd) →
    (w.destroy order).closing = w.closing ++ order ∧
      ∀ fd, (w.destroy order).handler? fd = if fd ∈ order then none else w.handler? fd := by
  induction order with
  | nil =>
    intro w _ _
    exact ⟨(List.append_nil _).symm, fun fd => (if_neg List.not_mem_nil).symm⟩
  | cons fd order ih =>
    intro w hnodup hentries
    obtain ⟨hfd, hnodup⟩ := List.nodup_cons.mp hnodup
    obtain ⟨c, hc, hcfd⟩ := hentries fd List.mem_cons_self
    have herased := handler?_erase w fd
    obtain ⟨hclosing, hentry⟩ := @ih (w.erase fd) hnodup (by
      intro fd' hmem
      have hne : fd' ≠ fd := by
        rintro rfl
        exact hfd hmem
      rw [herased, Function.update_of_ne hne]
      exact hentries fd' (List.mem_cons_of_mem fd hmem))
    have hone : (w.erase fd).closing = w.closing ++ [fd] := by
      rw [erase_of_entry hc, hcfd]
      rfl
    refine ⟨?_, fun fd' => ?_⟩
    · change ((w.erase fd).destroy order).closing = _
      rw [hclosing, hone, List.append_assoc]
      rfl
    · change ((w.erase fd).destroy order).handler? fd' = _
      rw [hentry fd', herased]
      by_cases hfd' : fd' = fd
      · simp [hfd']
      · simp [hfd']

/-! ### A step -/

/-- What a step of worker `i` comes from, and what it leads to. -/
inductive Effect {ι : Type*} [DecidableEq ι] (cfg : WorkerConfig) (i : ι)
    (r : Worker × Descriptors ι) : WorkerEvent → Worker × Descriptors ι → Prop
  | accepted {fd : ℕ} {added : Bool} {now : ℤ} (serving : r.1.phase = .serving)
      (closing : r.1.closing = []) (free : r.2 fd = none) :
      Effect cfg i r (.accepted fd added now) ({ r.1 with scanned := none },
        update r.2 fd (some ⟨i, if added then some (.ofList [.in_]) else none, now⟩))
  | ready {fd : ℕ} {script : List HandlerEvent} {modified : Bool} {w : Worker}
      {interests : Option EventsSet} (serving : r.1.phase = .serving) (closing : r.1.closing = [])
      (registered : Registered r.2 i fd)
      (handled : r.1.handleClient fd script modified = some (w, interests)) :
      Effect cfg i r (.ready fd script modified) ({ w with scanned := none },
        update r.2 fd ((r.2 fd).map fun s => s.update interests script))
  | scan {now : ℤ} {order : List ℕ} {w : Worker} (serving : r.1.phase = .serving)
      (closing : r.1.closing = []) (iterates : r.1.Iterates order)
      (scanned : r.1.scheduleTimeoutHandler cfg.timeoutThreshold now order = some w) :
      Effect cfg i r (.scan now order) ({ w with scanned := some now }, r.2)
  | stop {order : List ℕ} {w : Worker} (serving : r.1.phase = .serving)
      (closing : r.1.closing = []) (iterates : r.1.Iterates order)
      (stopped : shutdown order r.1 = some w) :
      Effect cfg i r (.stop order) ({ w with phase := .stopped, scanned := none }, r.2)
  | destroy {order : List ℕ} (stopped : r.1.phase = .stopped) (closing : r.1.closing = [])
      (iterates : r.1.Iterates order) :
      Effect cfg i r (.destroy order) ({ r.1.destroy order with phase := .destroyed }, r.2)
  | close {fd : ℕ} {rest : List ℕ} (closing : r.1.closing = fd :: rest) :
      Effect cfg i r .close ({ r.1 with closing := rest }, update r.2 fd none)

/-- **Every step has one of these effects.** -/
theorem effect_of_step {ι : Type*} [DecidableEq ι] {cfg : WorkerConfig} {i : ι}
    {r r' : Worker × Descriptors ι} {e : WorkerEvent} (h : Worker.step cfg i r e = some r') :
    Effect cfg i r e r' := by
  cases e with
  | accepted fd added now =>
    obtain ⟨⟨hserving, hclosing, hfree, -⟩, heq⟩ := Option.ite_none_right_eq_some.mp h
    cases heq
    exact .accepted hserving hclosing hfree
  | ready fd script modified =>
    obtain ⟨⟨hserving, hclosing, hreg⟩, hmap⟩ := Option.ite_none_right_eq_some.mp h
    obtain ⟨⟨w, interests⟩, hres, rfl⟩ := Option.map_eq_some_iff.mp hmap
    exact .ready hserving hclosing hreg hres
  | scan now order =>
    obtain ⟨⟨hserving, hclosing, horder⟩, hmap⟩ := Option.ite_none_right_eq_some.mp h
    obtain ⟨w, hres, rfl⟩ := Option.map_eq_some_iff.mp hmap
    exact .scan hserving hclosing horder hres
  | stop order =>
    obtain ⟨⟨hserving, hclosing, horder⟩, hmap⟩ := Option.ite_none_right_eq_some.mp h
    obtain ⟨w, hres, rfl⟩ := Option.map_eq_some_iff.mp hmap
    exact .stop hserving hclosing horder hres
  | destroy order =>
    obtain ⟨⟨hstopped, hclosing, horder⟩, heq⟩ := Option.ite_none_right_eq_some.mp h
    cases heq
    exact .destroy hstopped hclosing horder
  | close =>
    simp only [Worker.step] at h
    split at h
    · cases h
    · next hclosing =>
      cases h
      exact .close hclosing

end Worker

end TpAdvanced
