import TpAdvanced.Http.Transcript
import TpAdvanced.Http.WorkerInvariant

/-!
# Clients do not meet

A worker serves many connections in one thread, each by a handler on a coroutine that is
suspended wherever the kernel has nothing for it.  All the same each handler is run as if
the worker had no other: it stands where `operator()` comes to by itself on what has been
delivered to its own connection, however the events of the others fall in between.

A descriptor is used again when a connection is over; what is delivered counts from the
`accept4` that returned the descriptor.

## Main definitions

* `HandlerState.registered` — a handler as `registerHandler` makes it.
* `deliveries` — what a worker has delivered to a connection.

## Main results

* `Worker.handlers_run_alone` — **a handler in a worker is a handler by itself.**
-/

namespace TpAdvanced

open Machine

/-- A handler as `registerHandler` makes it. -/
def HandlerState.registered : HandlerState := ⟨.new (.ofList [.in_]) 1, .created⟩

/-- What an event of a worker adds to what has been delivered to the connection `fd`. -/
def deliver (fd : ℕ) (script : List HandlerEvent) : WorkerEvent → List HandlerEvent
  | .accepted fd' _ _ => if fd' = fd then [] else script
  | .ready fd' new _ => if fd' = fd then script ++ .resumed :: new else script
  | _ => script

/-- **What has been delivered to the connection** `fd`, since it was accepted: the handler is
resumed on each of its events, and its calls get the answers of the script. -/
def deliveries (fd : ℕ) (events : List WorkerEvent) : List HandlerEvent :=
  events.foldl (deliver fd) []

theorem deliveries_concat (fd : ℕ) (events : List WorkerEvent) (e : WorkerEvent) :
    deliveries fd (events ++ [e]) = deliver fd (deliveries fd events) e :=
  List.foldl_concat ..

namespace Worker

open Function (update)

variable [StdHash] {w w' : Worker} {t : Coroutine.Thread ℕ Thrown} {fd : ℕ} {c : HandlerEntry}
  {id n : ℕ} {script : List HandlerEvent} {modified : Bool} {interests : Option EventsSet}

/-! ### One handler -/

/-- A handler that is resumed runs on its script, and stays as that leaves it. -/
theorem Resumable.state_of_resumeHandler (h : Resumable w t (· ≠ fd) fd c id n)
    (hres : w.resumeHandler fd script modified = some (w', interests)) :
    ∃ s, run HandlerState.step c.state (.resumed :: script) = some s ∧
      ∀ c', w'.handler? fd = some c' → c'.state = s := by
  rw [Worker.resumeHandler, h.entry, Option.bind_some, Option.map_eq_some_iff] at hres
  obtain ⟨r, hr, hres⟩ := hres
  obtain ⟨s, e, hrun⟩ := h.runOn_of_resumeConnection hr
  obtain ⟨t', result, hresume, -⟩ := h.resumeConnection hrun
  rw [hresume] at hr
  cases hr
  generalize hw₁ : { w with execution := .defined t' }.set fd (c.withState s) = w₁ at hres
  have hc₁ : w₁.handler? fd = some (c.withState s) := by
    rw [← hw₁, handler?_set, Function.update_self]
  refine ⟨s, ?_, fun c' hc' => ?_⟩
  · unfold HandlerState.runOn at hrun
    split at hrun
    · cases hrun
    obtain ⟨s₁, hsteps, hending⟩ := Option.bind_eq_some_iff.mp hrun
    obtain ⟨e', -, heq⟩ := Option.map_eq_some_iff.mp hending
    cases heq
    exact hsteps
  · -- the handler is still there, or erased
    have hkept : w' = w₁ ∨ w' = w₁.erase fd := by
      dsimp only at hres
      split at hres
      · rw [hc₁] at hres
        dsimp only at hres
        split at hres
        · exact .inl (congrArg Prod.fst hres).symm
        · split at hres
          · exact .inl (congrArg Prod.fst hres).symm
          · exact .inr (congrArg Prod.fst hres).symm
      · exact .inr (congrArg Prod.fst hres).symm
    rcases hkept with rfl | rfl
    · cases hc₁.symm.trans hc'
      rfl
    · rw [handler?_erase, Function.update_self] at hc'
      cases hc'

/-- An event of a client runs its handler, a new one from its start. -/
theorem state_of_handleClient (h : LiveOn w t fun _ => True)
    (hres : w.handleClient fd script modified = some (w', interests)) :
    ∃ s, run HandlerState.step ((w.handler? fd).elim .registered HandlerEntry.state)
        (.resumed :: script) = some s ∧
      ∀ c', w'.handler? fd = some c' → c'.state = s := by
  obtain ⟨w₁, t₁, c, id, n, hresumable, -, -, -, hres, -, -, -, hstate⟩ :=
    resumable_of_handleClient h hres
  obtain ⟨s, hrun, hkept⟩ := hresumable.state_of_resumeHandler hres
  rw [hstate] at hrun
  exact ⟨s, hrun, hkept⟩

/-! ### All of them -/

section Runs

variable {ι : Type*} {i : ι} {d : Descriptors ι} {events : List WorkerEvent}

/-- Each connection has been run on what was delivered to it, and those that are to have a
handler yet have been delivered nothing. -/
structure Alone (i : ι) (w : Worker) (d : Descriptors ι) (events : List WorkerEvent) : Prop where
  runs : ∀ fd, ∃ s, run HandlerState.step .registered (deliveries fd events) = some s ∧
    (w.phase = .serving → ∀ c, w.handler? fd = some c → c.state = s)
  fresh : ∀ fd s, d fd = some s → s.owner = i → w.handler? fd = none → fd ∉ w.closing →
    deliveries fd events = []

theorem alone_start : Alone i {} (fun _ => none) [] where
  runs fd := ⟨.registered, rfl, fun _ c hc => by cases hc⟩
  fresh _ _ _ _ _ _ := rfl

/-- Nothing is delivered, and no handler is new or has been run. -/
theorem Alone.keep {d' : Descriptors ι} {e : WorkerEvent} (h : Alone i w d events)
    (hquiet : ∀ fd script, deliver fd script e = script)
    (hkept : w'.phase = .serving → w.phase = .serving ∧
      ∀ fd c, w'.handler? fd = some c → w.handler? fd = some c)
    (hfresh : ∀ fd s, d' fd = some s → w'.handler? fd = none → fd ∉ w'.closing →
      d fd = some s ∧ w.handler? fd = none ∧ fd ∉ w.closing) :
    Alone i w' d' (events ++ [e]) where
  runs fd := by
    rw [deliveries_concat, hquiet]
    obtain ⟨s, hrun, hstate⟩ := h.runs fd
    exact ⟨s, hrun, fun hserving c hc =>
      hstate (hkept hserving).1 c ((hkept hserving).2 fd c hc)⟩
  fresh fd s hs howner hnone hmem := by
    rw [deliveries_concat, hquiet]
    obtain ⟨hs', hnone', hmem'⟩ := hfresh fd s hs hnone hmem
    exact h.fresh fd s hs' howner hnone' hmem'

/-- A connection is accepted, and nothing has been delivered to it. -/
theorem Alone.accept (hinv : Inv i w d) (h : Alone i w d events) (hfree : d fd = none)
    {s : ClientSocket ι} {added : Bool} {now : ℤ} :
    Alone i { w with scanned := none } (update d fd (some s))
      (events ++ [.accepted fd added now]) where
  runs fd' := by
    rw [deliveries_concat, deliver]
    split
    · rename_i heq
      refine ⟨.registered, rfl, fun _ c hc => ?_⟩
      obtain ⟨-, -, s', hs', -⟩ := hinv.owns fd' c hc
      rw [← heq, hfree] at hs'
      cases hs'
    · exact h.runs fd'
  fresh fd' s' hs' howner hnone hmem := by
    rw [deliveries_concat, deliver]
    split
    · rfl
    · rename_i hne
      rw [Function.update_of_ne (Ne.symm hne)] at hs'
      exact h.fresh fd' s' hs' howner hnone hmem

/-- An event is delivered to its connection and to no other. -/
theorem Alone.ready [DecidableEq ι] (hinv : Inv i w d) (h : Alone i w d events)
    (hserving : w.phase = .serving) (hclosing : w.closing = []) (hreg : Registered d i fd)
    (hres : w.handleClient fd script modified = some (w', interests)) :
    Alone i { w' with scanned := none }
      (update d fd ((d fd).map fun s => s.update interests script))
      (events ++ [.ready fd script modified]) := by
  obtain ⟨t, hlive⟩ := hinv.live hserving
  obtain ⟨s₀, hs₀, howner₀, -⟩ := hreg
  have hhandles := handleClient_handles hlive hres
  obtain ⟨s, hrun, hstate⟩ := state_of_handleClient hlive hres
  -- the handler stands where it comes to by itself, and a new one at its start
  have hbefore : run HandlerState.step .registered (deliveries fd events) =
      some ((w.handler? fd).elim .registered HandlerEntry.state) := by
    obtain ⟨s', hrun', hstate'⟩ := h.runs fd
    cases hc : w.handler? fd with
    | none =>
      rw [h.fresh fd s₀ hs₀ howner₀ hc (by rw [hclosing]; exact List.not_mem_nil)]
      rfl
    | some c =>
      rw [hrun', ← hstate' hserving c hc]
      rfl
  have hother : ∀ fd', fd' ≠ fd →
      deliver fd' (deliveries fd' events) (.ready fd script modified) = deliveries fd' events :=
    fun fd' hne => if_neg (Ne.symm hne)
  refine ⟨fun fd' => ?_, fun fd' s' hs' howner hnone hmem => ?_⟩
  · rw [deliveries_concat]
    by_cases hfd : fd' = fd
    · subst hfd
      refine ⟨s, ?_, fun _ => hstate⟩
      rw [deliver, if_pos rfl, run_append_eq_some]
      exact ⟨_, hbefore, hrun⟩
    · rw [hother fd' hfd]
      obtain ⟨s', hrun', hstate'⟩ := h.runs fd'
      refine ⟨s', hrun', fun _ c hc => hstate' hserving c ?_⟩
      rw [← hhandles.others fd' hfd]
      exact hc
  · rw [deliveries_concat]
    by_cases hfd : fd' = fd
    · subst hfd
      -- a handler that is gone has its descriptor to be closed
      obtain ⟨-, hclosing'⟩ | ⟨c, hc, -⟩ := hhandles.outcome
      · refine absurd ?_ hmem
        change fd' ∈ w'.closing
        rw [hclosing']
        exact List.mem_append_right _ List.mem_cons_self
      · cases hnone.symm.trans hc
    · rw [hother fd' hfd]
      rw [Function.update_of_ne hfd] at hs'
      refine h.fresh fd' s' hs' howner ?_ (by rw [hclosing]; exact List.not_mem_nil)
      rw [← hhandles.others fd' hfd]
      exact hnone

/-- **What every step keeps.** -/
theorem Alone.step [DecidableEq ι] {cfg : WorkerConfig} {r r' : Worker × Descriptors ι}
    {e : WorkerEvent} (hinv : Inv i r.1 r.2) (h : Alone i r.1 r.2 events)
    (hstep : Worker.step cfg i r e = some r') : Alone i r'.1 r'.2 (events ++ [e]) := by
  obtain ⟨w, d⟩ := r
  cases effect_of_step hstep with
  | accepted hserving hclosing hfree => exact h.accept hinv hfree
  | ready hserving hclosing hreg hres => exact h.ready hinv hserving hclosing hreg hres
  | @scan now order w' hserving hclosing horder hres =>
    obtain ⟨t, hlive⟩ := hinv.live hserving
    obtain ⟨-, hentries, hclosing', -⟩ := scheduleTimeoutHandler_spec order hlive horder.1 hres
    have hentry : ∀ fd, w'.handler? fd = w.handler? fd ∨ fd ∈ w'.closing ∧
        w'.handler? fd = none := by
      intro fd
      rw [hentries fd]
      split
      · rename_i hexpired
        refine .inr ⟨?_, rfl⟩
        rw [hclosing', List.mem_append, List.mem_flatMap]
        exact .inr ⟨fd, List.mem_filter.mpr hexpired, List.mem_cons_self⟩
      · exact .inl rfl
    refine h.keep (fun _ _ => rfl) (fun _ => ⟨hserving, fun fd c hc => ?_⟩)
      fun fd s hs hnone hmem => ⟨hs, ?_, by rw [hclosing]; exact List.not_mem_nil⟩
    · rcases hentry fd with hsame | ⟨-, hgone⟩
      · exact hsame.symm.trans hc
      · cases hgone.symm.trans hc
    · rcases hentry fd with hsame | ⟨hclose, -⟩
      · exact hsame.symm.trans hnone
      · exact absurd hclose hmem
  | @stop order w' hserving hclosing horder hres =>
    obtain ⟨t, hlive⟩ := hinv.live hserving
    obtain ⟨hclosing', hfds⟩ := shutdown_spec order (hlive.mono fun _ _ => trivial) horder.1 hres
    refine h.keep (fun _ _ => rfl) nofun fun fd s hs hnone hmem => ⟨hs, ?_, hclosing' ▸ hmem⟩
    have hfd := hfds fd
    change w'.handler? fd = none at hnone
    rw [hnone, Option.map_none, eq_comm, Option.map_eq_none_iff] at hfd
    exact hfd
  | @destroy order hstopped hclosing horder =>
    obtain ⟨hclosing', -, -⟩ := hinv.destroy hclosing horder
    refine h.keep (fun _ _ => rfl) nofun fun fd s hs _ hmem =>
      ⟨hs, ?_, by rw [hclosing]; exact List.not_mem_nil⟩
    change fd ∉ (w.destroy order).closing at hmem
    rw [hclosing'] at hmem
    rw [Option.eq_none_iff_forall_ne_some]
    intro c hc
    exact hmem (horder.mem_iff.mpr ⟨c, hc⟩)
  | @close fd rest hclosing =>
    refine h.keep (fun _ _ => rfl) (fun hserving => ⟨hserving, fun _ _ hc => hc⟩)
      fun fd' s hs hnone hmem => ?_
    change update d fd none fd' = some s at hs
    have hne : fd' ≠ fd := by
      rintro rfl
      rw [Function.update_self] at hs
      cases hs
    rw [Function.update_of_ne hne] at hs
    refine ⟨hs, hnone, ?_⟩
    rw [hclosing, List.mem_cons, not_or]
    exact ⟨hne, hmem⟩

theorem alone_run [DecidableEq ι] {cfg : WorkerConfig} {r : Worker × Descriptors ι}
    (hrun : run (Worker.step cfg i) ({}, fun _ => none) events = some r) :
    Alone i r.1 r.2 events := by
  have h : Inv i r.1 r.2 ∧ Alone i r.1 r.2 events :=
    invariant_past (fun r past => Inv i r.1 r.2 ∧ Alone i r.1 r.2 past)
      (fun _ _ _ _ h hstep => ⟨h.1.step hstep, h.2.step h.1 hstep⟩) ⟨Inv.start i, alone_start⟩ hrun
  exact h.2

/-- **A handler in a worker is a handler by itself.**  Whatever a worker does, what it has
delivered to a connection is a run of `operator()`, and while the worker serves the handler
stands where this run ends. -/
theorem handlers_run_alone [DecidableEq ι] {cfg : WorkerConfig} {r : Worker × Descriptors ι}
    (hrun : run (Worker.step cfg i) ({}, fun _ => none) events = some r) (fd : ℕ) :
    ∃ s, run HandlerState.step .registered (deliveries fd events) = some s ∧
      (r.1.phase = .serving → ∀ c, r.1.handler? fd = some c → c.state = s) :=
  (alone_run hrun).runs fd

end Runs

end Worker

end TpAdvanced
