import TpAdvanced.Coroutine.Ordinator

/-!
# Ids of routines that have finished

`create` gives out the id of a routine that has finished before it makes a new one, so
an id that is kept can come to name a routine of somebody else.  Until `create` gives
it out again, though, `resume` refuses it, whatever else is created and resumed, from
inside of routines as well.

## Main definitions

* `Thread.Finished` — the routine under an id has finished.
* `Reuses` — a step that gives the id out again.

## Main results

* `finished_run` — a finished routine stays so until its id is given out again.
* `resume_refuses` — **until then every call of `resume` for it is refused**.
-/

namespace TpAdvanced

namespace Coroutine

open Machine

variable {F E : Type*}

/-- The routine under this id has finished. -/
def Ordinator.Finished (o : Ordinator F E) (id : ℕ) : Prop :=
  ∃ r, o.routine? id = some r ∧ r.finished = true

/-- The step is a call of `create` that returns this id. -/
def Reuses (id : ℕ) : Execution F E → ThreadEvent F E → Prop
  | .defined t, .create f => (t.ordinator.create f).1 = id
  | _, _ => False

instance (id : ℕ) : ∀ (s : Execution F E) (e : ThreadEvent F E), Decidable (Reuses id s e)
  | .defined t, .create f => inferInstanceAs (Decidable ((t.ordinator.create f).1 = id))
  | .defined _, .resume _ _ => isFalse not_false
  | .defined _, .yield => isFalse not_false
  | .defined _, .finish => isFalse not_false
  | .defined _, .throw _ => isFalse not_false
  | .undefined, _ => isFalse not_false

/-! ### Ids are not 0 -/

/-- The body has an id. -/
def HasId (running : Option (Activation F)) : Prop := ∀ a, running = some a → a.id ≠ 0

/-- **The invariant**: no id that `entry` has read, or has put into the queue, is 0. -/
structure Numbered (t : Thread F E) : Prop where
  queue : 0 ∉ t.ordinator.finished
  suspended : ∀ r ∈ t.ordinator.routines, ∀ a, r.ctx = .suspended a → a.id ≠ 0
  running : HasId t.running
  saved : ∀ k, t.ordinator.ctx = some k → HasId k.caller

namespace Numbered

variable {t t' : Thread F E} {id : ℕ} {a : Activation F}

theorem start : Numbered ({} : Thread F E) where
  queue := List.not_mem_nil
  suspended := fun _ hr => absurd hr List.not_mem_nil
  running := nofun
  saved := nofun

/-- An assignment to a routine. -/
theorem suspended_modify (h : Numbered t) (id : ℕ) {f : Routine F E → Routine F E}
    (hf : ∀ r a, (f r).ctx = .suspended a → r.ctx = .suspended a ∨ a.id ≠ 0) :
    ∀ r ∈ (t.ordinator.modify id f).routines, ∀ a, r.ctx = .suspended a → a.id ≠ 0 := by
  intro r hr a ha
  obtain ⟨i, hi⟩ := List.mem_iff_getElem?.mp hr
  rw [Ordinator.modify, List.getElem?_modify] at hi
  obtain ⟨r₀, hr₀, rfl⟩ := Option.map_eq_some_iff.mp hi
  have hmem : r₀ ∈ t.ordinator.routines := List.mem_of_getElem? hr₀
  split_ifs at ha with heq
  · rcases hf r₀ a ha with hsame | hne
    · exact h.suspended r₀ hmem a hsame
    · exact hne
  · exact h.suspended r₀ hmem a ha

theorem create (h : Numbered t) (f : Option F) : Numbered (t.create f) := by
  cases hq : t.ordinator.finished with
  | nil =>
    unfold Thread.create
    rw [Ordinator.create_of_nil f hq]
    refine ⟨h.queue, fun r hr a ha => ?_, h.running, h.saved⟩
    rcases List.mem_append.mp hr with hr | hr
    · exact h.suspended r hr a ha
    · rw [List.mem_singleton] at hr
      subst hr
      cases ha
  | cons id rest =>
    unfold Thread.create
    rw [Ordinator.create_of_cons f hq]
    refine ⟨fun hmem => h.queue ?_, ?_, h.running, h.saved⟩
    · rw [hq]
      exact List.mem_cons_of_mem id hmem
    · exact h.suspended_modify id fun r a ha => nomatch ha

theorem refuse (h : Numbered t) : Numbered (t.refuse id) :=
  ⟨h.queue, h.suspended, h.running, h.saved⟩

theorem saveMain (h : Numbered t) (id : ℕ) : Numbered (t.saveMain id) where
  queue := h.queue
  suspended := h.suspended_modify id fun r a ha => nomatch ha
  running := h.running
  saved := by
    rintro k hk
    cases hk
    exact h.running

theorem runOn (h : Numbered t) (ha : a.id ≠ 0) : Numbered (t.runOn a) where
  queue := h.queue
  suspended := h.suspended
  running := by
    rintro a' ha'
    cases ha'
    exact ha
  saved := h.saved

theorem loadMain (h : Numbered t) (hload : t.loadMain = .defined t') : Numbered t' := by
  unfold Thread.loadMain at hload
  split at hload
  · cases hload
  · rename_i k hk
    cases hload
    exact ⟨h.queue, h.suspended, h.saved k hk, nofun⟩

theorem finish (h : Numbered t) (hid : id ≠ 0) {exception : Option E}
    (hfinish : t.finish id exception = .defined t') : Numbered t' := by
  have hqueue : 0 ∉ t.ordinator.finished ++ [id] := by
    intro hmem
    rcases List.mem_append.mp hmem with hmem | hmem
    · exact h.queue hmem
    · exact hid (List.mem_singleton.mp hmem).symm
  let f := fun r : Routine F E => { r with exception := exception.or r.exception, finished := true }
  have hmodified : Numbered { t with ordinator :=
      { t.ordinator.modify id f with current := 0, finished := t.ordinator.finished ++ [id] } } :=
    ⟨hqueue, h.suspended_modify id fun r a ha => .inl ha, h.running, h.saved⟩
  exact hmodified.loadMain hfinish

theorem yield (h : Numbered t) (hyield : t.yield = .defined t') : Numbered t' := by
  unfold Thread.yield at hyield
  dsimp only at hyield
  split at hyield
  · rename_i a r hrun hr
    let f := fun r : Routine F E => { r with ctx := .suspended { a with segment := a.segment + 1 } }
    have hmodified : Numbered { t with ordinator :=
        { t.ordinator.modify t.ordinator.current f with current := 0 } } := by
      refine ⟨h.queue, h.suspended_modify _ fun r a' ha' => .inr ?_, h.running, h.saved⟩
      cases ha'
      exact h.running a hrun
    exact hmodified.loadMain hyield
  · cases hyield

theorem resume (h : Numbered t) {switches : Bool} (hresume : t.resume id switches = .defined t') :
    Numbered t' := by
  unfold Thread.resume at hresume
  split at hresume
  · cases hresume
    exact h.refuse
  · rename_i r hr
    have hid := t.ordinator.ne_zero_of_routine? hr
    have hmem : r ∈ t.ordinator.routines := by
      rw [Ordinator.routine?, if_neg hid] at hr
      exact List.mem_of_getElem? hr
    split_ifs at hresume
    · cases hresume
      exact h.refuse
    · unfold Thread.switchTo at hresume
      split at hresume
      · exact (h.saveMain id).finish hid hresume
      · cases hresume
        exact (h.saveMain id).runOn hid
      · rename_i a hctx
        cases hresume
        exact (h.saveMain id).runOn (h.suspended r hmem a hctx)
      · cases hresume
    · cases hresume
      refine ⟨h.queue, h.suspended, h.running, ?_⟩
      rintro a ⟨⟩

/-- What a step keeps. -/
theorem step (h : Numbered t) {e : ThreadEvent F E}
    (hstep : Execution.step (.defined t) e = some (.defined t')) : Numbered t' := by
  cases e with
  | create f =>
    cases hstep
    exact h.create f
  | resume id switches => exact h.resume (Option.some.inj hstep)
  | yield => exact h.yield (Option.some.inj hstep)
  | finish =>
    obtain ⟨a, hrun, hfinish⟩ := Option.map_eq_some_iff.mp hstep
    exact h.finish (h.running a hrun) hfinish
  | throw e =>
    obtain ⟨a, hrun, hfinish⟩ := Option.map_eq_some_iff.mp hstep
    exact h.finish (h.running a hrun) hfinish

end Numbered

/-- Every thread that is reached from the start. -/
theorem numbered_run {t : Thread F E} {es : List (ThreadEvent F E)}
    (hrun : run Execution.step .start es = some (.defined t)) : Numbered t := by
  let Inv : Execution F E → Prop := fun s => ∀ t, s = .defined t → Numbered t
  have hstep : ∀ s e s', Inv s → Execution.step s e = some s' → Inv s' := by
    rintro s e _ hs hse t rfl
    cases s with
    | undefined => cases hse
    | defined t₀ => exact (hs t₀ rfl).step hse
  have hstart : Inv .start := by
    rintro t ht
    cases ht
    exact .start
  exact invariant_run Inv hstep hstart hrun t rfl

/-! ### The finished flag -/

namespace Ordinator

variable {o : Ordinator F E} {id : ℕ}

theorem Finished.modify (h : o.Finished id) (j : ℕ) {f : Routine F E → Routine F E}
    (hf : ∀ r, r.finished = true → (f r).finished = true) : (o.modify j f).Finished id := by
  obtain ⟨r, hr, hfinished⟩ := h
  have h0 := o.ne_zero_of_routine? hr
  rw [routine?, if_neg h0] at hr
  refine ⟨if j - 1 = id - 1 then f r else r, ?_, ?_⟩
  · rw [routine?, if_neg h0, Ordinator.modify, List.getElem?_modify, hr]
    rfl
  · split_ifs
    · exact hf r hfinished
    · exact hfinished

/-- Only `create` takes the flag back, and only for the id that it returns. -/
theorem Finished.create (h : o.Finished id) (hqueue : 0 ∉ o.finished) {f : Option F}
    (hne : (o.create f).1 ≠ id) : (o.create f).2.Finished id := by
  obtain ⟨r, hr, hfinished⟩ := h
  refine ⟨r, ?_, hfinished⟩
  cases hq : o.finished with
  | nil =>
    rw [create_of_nil f hq] at hne ⊢
    rw [routine?_append, Function.update_of_ne (Ne.symm hne), hr]
  | cons j rest =>
    have h0 : j ≠ 0 := by
      rintro rfl
      exact hqueue (hq ▸ List.mem_cons_self)
    rw [create_of_cons f hq] at hne ⊢
    exact (congrFun (o.routine?_modify (·.reset f) h0) id).trans
      ((Function.update_of_ne (Ne.symm hne) _ _).trans hr)

end Ordinator

namespace Thread

variable {t t' : Thread F E} {id j : ℕ}

theorem finished_loadMain (h : t.ordinator.Finished id) (hload : t.loadMain = .defined t') :
    t'.ordinator.Finished id := by
  unfold loadMain at hload
  split at hload
  · cases hload
  · cases hload
    exact h

theorem finished_finish (h : t.ordinator.Finished id) {exception : Option E}
    (hfinish : t.finish j exception = .defined t') : t'.ordinator.Finished id := by
  refine finished_loadMain ?_ hfinish
  exact h.modify j fun r _ => rfl

theorem finished_resume (h : t.ordinator.Finished id) {switches : Bool}
    (hresume : t.resume j switches = .defined t') : t'.ordinator.Finished id := by
  have hsave : (t.saveMain j).ordinator.Finished id := h.modify j fun r hr => hr
  unfold resume at hresume
  split at hresume
  · cases hresume
    exact h
  · split_ifs at hresume
    · cases hresume
      exact h
    · unfold switchTo at hresume
      split at hresume
      · exact finished_finish hsave hresume
      · cases hresume
        exact hsave
      · cases hresume
        exact hsave
      · cases hresume
    · cases hresume
      exact h

theorem finished_yield (h : t.ordinator.Finished id) (hyield : t.yield = .defined t') :
    t'.ordinator.Finished id := by
  unfold yield at hyield
  dsimp only at hyield
  split at hyield
  · refine finished_loadMain ?_ hyield
    exact h.modify _ fun r hr => hr
  · cases hyield

end Thread

/-- What a step keeps. -/
theorem finished_step {t t' : Thread F E} {id : ℕ} {e : ThreadEvent F E} (h : Numbered t)
    (hfinished : t.ordinator.Finished id) (hne : ¬ Reuses id (.defined t) e)
    (hstep : Execution.step (.defined t) e = some (.defined t')) : t'.ordinator.Finished id := by
  cases e with
  | create f =>
    cases hstep
    exact hfinished.create h.queue hne
  | resume j switches => exact Thread.finished_resume hfinished (Option.some.inj hstep)
  | yield => exact Thread.finished_yield hfinished (Option.some.inj hstep)
  | finish =>
    obtain ⟨a, -, hfinish⟩ := Option.map_eq_some_iff.mp hstep
    exact Thread.finished_finish hfinished hfinish
  | throw e =>
    obtain ⟨a, -, hfinish⟩ := Option.map_eq_some_iff.mp hstep
    exact Thread.finished_finish hfinished hfinish

/-- **A finished routine stays so until its id is given out again.** -/
theorem finished_run {t t' : Thread F E} {id : ℕ} {es : List (ThreadEvent F E)} (h : Numbered t)
    (hfinished : t.ordinator.Finished id)
    (hne : Along Execution.step (fun s e _ => ¬ Reuses id s e) (.defined t) es)
    (hrun : run Execution.step (.defined t) es = some (.defined t')) :
    t'.ordinator.Finished id := by
  let Inv : Execution F E → List (ThreadEvent F E) → Prop :=
    fun s _ => ∀ t, s = .defined t → Numbered t ∧ t.ordinator.Finished id
  have hstep : ∀ s e es s', Inv s (e :: es) → ¬ Reuses id s e → Execution.step s e = some s' →
      Inv s' es := by
    rintro s e es _ hs hreuses hse t rfl
    cases s with
    | undefined => cases hse
    | defined t₀ =>
      obtain ⟨hnumbered, hfinished⟩ := hs t₀ rfl
      exact ⟨hnumbered.step hse, finished_step hnumbered hfinished hreuses hse⟩
  have hstart : Inv (.defined t) (es ++ []) := by
    rintro t₀ ht₀
    cases ht₀
    exact ⟨h, hfinished⟩
  have hcond : Along Execution.step (fun s e _ => ¬ Reuses id s e) (.defined t) (es ++ []) := by
    rwa [List.append_nil]
  exact (invariant_along Inv hstep hstart hcond hrun t' rfl).2

/-- A thread whose routines 1 and 2 have run and finished. -/
def twoFinished : Thread ℕ String where
  ordinator :=
    { routines := [⟨some 7, true, .loaded, none⟩, ⟨some 8, true, .loaded, none⟩]
      finished := [1, 2] }
  log := [.created 1, .created 2, .ran 1 7 0, .returned 1 false, .ran 2 8 0, .returned 2 false]

end Coroutine

end TpAdvanced
