import TpAdvanced.Lib.Locks

/-!
# Operations that are served one after another

A part of the state that processes share is guarded by a semaphore: only who holds it
touches that part.  The operations that work on the part hold the semaphore from their
first step to their last.  Then they are served one after another, in the order in which
they give it back, whatever else goes on at the same time: each of them does to the part
what it would do alone, and returns what it would return.

## Main definitions

* `Program.Inside`, `Program.Outside` — code that holds the semaphore, and code that leaves
  the part alone.
* `Guarded` — the operations of a system, with what each of them is to do.
* `Journal`, `recordedStep` — a run with its invocations, services and returns.
* `Legal`, `Calls` — what one may see of them.

## Main results

* `serial_step`, `serial_run` — **operations are served one after another.**
-/

namespace Locks

open Function (update)
open Machine

variable {P L σ τ α β A : Type}

/-! ### Code and the part -/

namespace Program

/-- Code that holds `l`, from a state whose part is `v`: at its end the part and what it
returns satisfy `Q`.  All but the part may be changed by others, at any time. -/
def Inside (part : σ → τ) (l : L) : τ → Program L σ α → (τ → α → Prop) → Prop
  | v, .ret a, Q => Q v a
  | v, .wait l' next, Q => l' ≠ l ∧ Inside part l v next Q
  | v, .post l' next, Q => l' ≠ l ∧ Inside part l v next Q
  | v, .init next, Q => ∀ o, o ≠ some l → Inside part l v (next o) Q
  | v, .act effect next, Q => ∀ s, part s = v → Inside part l (part (effect s)) (next s) Q

/-- Code that neither takes `l` nor touches the part. -/
def Outside (part : σ → τ) (l : L) : Program L σ α → Prop
  | .ret _ => True
  | .wait l' next => l' ≠ l ∧ Outside part l next
  | .post l' next => l' ≠ l ∧ Outside part l next
  | .init next => ∀ o, o ≠ some l → Outside part l (next o)
  | .act effect next => ∀ s, part (effect s) = part s ∧ Outside part l (next s)

variable {part : σ → τ} {l l' : L} {v : τ} {p : Program L σ α} {f : α → Program L σ β}
  {Q Q' : τ → α → Prop} {R : τ → β → Prop}

/-- One program after another. -/
theorem Inside.bind (h : p.Inside part l v Q) (hf : ∀ v a, Q v a → (f a).Inside part l v R) :
    (p >>= f).Inside part l v R := by
  change (p.bind f).Inside part l v R
  induction p generalizing v with
  | ret a => exact hf v a h
  | wait l' next ih => exact ⟨h.1, ih h.2⟩
  | post l' next ih => exact ⟨h.1, ih h.2⟩
  | init next ih => exact fun o ho => ih o (h o ho)
  | act effect next ih => exact fun s hs => ih s (h s hs)

theorem Inside.mono (hQ : ∀ v a, Q v a → Q' v a) (h : p.Inside part l v Q) :
    p.Inside part l v Q' := by
  induction p generalizing v with
  | ret a => exact hQ v a h
  | wait l' next ih => exact ⟨h.1, ih h.2⟩
  | post l' next ih => exact ⟨h.1, ih h.2⟩
  | init next ih => exact fun o ho => ih o (h o ho)
  | act effect next ih => exact fun s hs => ih s (h s hs)

theorem Outside.bind (h : p.Outside part l) (hf : ∀ a, (f a).Outside part l) :
    (p >>= f).Outside part l := by
  change (p.bind f).Outside part l
  induction p with
  | ret a => exact hf a
  | wait l' next ih => exact ⟨h.1, ih h.2⟩
  | post l' next ih => exact ⟨h.1, ih h.2⟩
  | init next ih => exact fun o ho => ih o (h o ho)
  | act effect next ih => exact fun s => ⟨(h s).1, ih s (h s).2⟩

/-- Code that leaves the part alone may as well hold the semaphore. -/
theorem Outside.inside (h : p.Outside part l) (hQ : ∀ a, Q v a) : p.Inside part l v Q := by
  induction p with
  | ret a => exact hQ a
  | wait l' next ih => exact ⟨h.1, ih h.2⟩
  | post l' next ih => exact ⟨h.1, ih h.2⟩
  | init next ih => exact fun o ho => ih o (h o ho)
  | act effect next ih =>
    intro s hs
    rw [(h s).1, hs]
    exact ih s (h s).2

/-- Code behind another semaphore. -/
theorem Outside.guard (hl : l' ≠ l) (h : p.Outside part l) : (guard l' p).Outside part l :=
  ⟨hl, h.bind fun _ => ⟨hl, trivial⟩⟩

/-! ### Code on a field of the state -/

section Zoom

variable {σ' : Type} (get : σ' → σ) (put : σ' → σ → σ')

/-- Code on a field of a larger state. -/
def zoom : Program L σ α → Program L σ' α
  | .ret a => .ret a
  | .wait l next => .wait l next.zoom
  | .post l next => .post l next.zoom
  | .init next => .init fun o => (next o).zoom
  | .act effect next => .act (fun s => put s (effect (get s))) fun s => (next (get s)).zoom

theorem Orderly.zoom [LT L] {known held : List L} {p : Program L σ α} {Q : List L → α → Prop}
    (h : p.Orderly known held Q) : (p.zoom get put).Orderly known held Q := by
  induction p generalizing known held with
  | ret a => exact h
  | wait l next ih => exact ⟨h.1, h.2.1, ih h.2.2⟩
  | post l next ih =>
    obtain ⟨rest, hheld, hnext⟩ := h
    exact ⟨rest, hheld, ih hnext⟩
  | init next ih => exact ⟨ih none h.1, fun l hl => ih (some l) (h.2 l hl)⟩
  | act effect next ih => exact fun s => ih (get s) (h (get s))

/-- A part that the field has nothing to do with is left alone. -/
theorem Outside.zoom {part : σ' → τ} (hput : ∀ s x, part (put s x) = part s)
    (h : p.Outside (fun _ => ()) l) : (p.zoom get put).Outside part l := by
  induction p with
  | ret a => trivial
  | wait l' next ih => exact ⟨h.1, ih h.2⟩
  | post l' next ih => exact ⟨h.1, ih h.2⟩
  | init next ih => exact fun o ho => ih o (h o ho)
  | act effect next ih => exact fun s => ⟨hput _ _, ih (get s) (h (get s)).2⟩

end Zoom

end Program

/-! ### What is seen of a run -/

/-- What is seen of an operation. -/
inductive Mark (A α : Type)
  | invoked (a : A)
  /-- The operation has done its work on the part. -/
  | served (a : A) (x : α)
  | returned (a : A) (x : α)

/-- The operation that each process is in, and what has been seen. -/
structure Journal (P A α : Type) where
  current : P → Option A
  log : List (P × Mark A α)

/-- Before the first operation. -/
def Journal.start : Journal P A α := ⟨fun _ => none, []⟩

/-- The operations that have been served, in their order. -/
def served (log : List (P × Mark A α)) : List (A × α) :=
  log.filterMap fun e => match e.2 with
    | .served a x => some (a, x)
    | _ => none

/-- What has been seen of a process. -/
def marksOf [DecidableEq P] (p : P) (log : List (P × Mark A α)) : List (Mark A α) :=
  log.filterMap fun e => if e.1 = p then some e.2 else none

/-- **Operations one after another**, each of which does to the part what it is to do. -/
inductive Legal (spec : A → τ → τ → α → Prop) (v₀ : τ) : List (A × α) → τ → Prop
  | nil : Legal spec v₀ [] v₀
  | concat {ops : List (A × α)} {v v' : τ} {a : A} {x : α} (h : Legal spec v₀ ops v)
      (hspec : spec a v v' x) : Legal spec v₀ (ops ++ [(a, x)]) v'

/-- **The calls of a process**: each is invoked, served once and returns what it was served,
and then the next one is invoked.  What is left is the call under way. -/
inductive Calls : List (Mark A α) → Option (A × Option α) → Prop
  | nil : Calls [] none
  | invoked {ms : List (Mark A α)} (h : Calls ms none) (a : A) :
      Calls (ms ++ [.invoked a]) (some (a, none))
  | served {ms : List (Mark A α)} {a : A} (h : Calls ms (some (a, none))) (x : α) :
      Calls (ms ++ [.served a x]) (some (a, some x))
  | returned {ms : List (Mark A α)} {a : A} {x : α} (h : Calls ms (some (a, some x))) :
      Calls (ms ++ [.returned a x]) none

section

variable {spec : A → τ → τ → α → Prop} {v₀ v : τ} {ops ops' : List (A × α)}

theorem Legal.append_inv (h : Legal spec v₀ (ops ++ ops') v) :
    ∃ v', Legal spec v₀ ops v' ∧ Legal spec v' ops' v := by
  generalize hall : ops ++ ops' = all at h
  induction h generalizing ops' with
  | nil =>
    obtain ⟨rfl, rfl⟩ := List.append_eq_nil_iff.mp hall
    exact ⟨v₀, .nil, .nil⟩
  | @concat before v v' a x h hspec ih =>
    rcases List.eq_nil_or_concat ops' with rfl | ⟨rest, op, rfl⟩
    · rw [List.append_nil] at hall
      exact ⟨v', hall ▸ h.concat hspec, .nil⟩
    · rw [List.concat_eq_append, ← List.append_assoc] at hall
      obtain ⟨hbefore, hop⟩ := List.append_inj' hall rfl
      cases hop
      obtain ⟨w, hw, hrest⟩ := ih hbefore
      exact ⟨w, hw, List.concat_eq_append ▸ hrest.concat hspec⟩

theorem Legal.concat_inv {a : A} {x : α} (h : Legal spec v₀ (ops ++ [(a, x)]) v) :
    ∃ v', Legal spec v₀ ops v' ∧ spec a v' v x := by
  generalize hall : ops ++ [(a, x)] = all at h
  cases h with
  | nil => exact absurd hall (List.append_ne_nil_of_right_ne_nil _ (List.cons_ne_nil _ _))
  | concat h hspec =>
    obtain ⟨rfl, hop⟩ := List.append_inj' hall rfl
    cases hop
    exact ⟨_, h, hspec⟩

/-- What each of the operations keeps. -/
theorem Legal.invariant (Inv : τ → Prop)
    (hspec : ∀ a x, (a, x) ∈ ops → ∀ v v', Inv v → spec a v v' x → Inv v') (h₀ : Inv v₀)
    (h : Legal spec v₀ ops v) : Inv v := by
  induction h with
  | nil => exact h₀
  | concat _ hs ih =>
    refine hspec _ _ (List.mem_append_right _ (List.mem_singleton_self _)) _ _ (ih ?_) hs
    exact fun a x hmem => hspec a x (List.mem_append_left _ hmem)

end

section

variable {log : List (P × Mark A α)}

theorem served_concat_served (p : P) (a : A) (x : α) :
    served (log ++ [(p, .served a x)]) = served log ++ [(a, x)] := by
  rw [served, List.filterMap_append]
  rfl

theorem served_concat_invoked (p : P) (a : A) : served (log ++ [(p, .invoked a)]) = served log := by
  rw [served, List.filterMap_append]
  exact List.append_nil _

theorem mem_served {a : A} {x : α} : (a, x) ∈ served log ↔ ∃ p, (p, .served a x) ∈ log := by
  refine ⟨fun h => ?_, fun ⟨p, hp⟩ => List.mem_filterMap.mpr ⟨_, hp, rfl⟩⟩
  obtain ⟨⟨p, m⟩, hm, heq⟩ := List.mem_filterMap.mp h
  cases m with
  | invoked a => cases heq
  | served a x =>
    cases heq
    exact ⟨p, hm⟩
  | returned a x => cases heq

theorem served_concat_returned (p : P) (a : A) (x : α) :
    served (log ++ [(p, .returned a x)]) = served log := by
  rw [served, List.filterMap_append]
  exact List.append_nil _

variable [DecidableEq P]

theorem marksOf_concat_self (p : P) (m : Mark A α) :
    marksOf p (log ++ [(p, m)]) = marksOf p log ++ [m] := by
  rw [marksOf, List.filterMap_append]
  simp [marksOf]

theorem marksOf_concat_of_ne {p q : P} (h : q ≠ p) (m : Mark A α) :
    marksOf q (log ++ [(p, m)]) = marksOf q log := by
  rw [marksOf, List.filterMap_append]
  simp [marksOf, Ne.symm h]

end

/-! ### The system -/

/-- **The operations of a system.**  Those that are `On` the part hold `l` throughout, and
do to the part what `spec` says; the others leave it alone. -/
structure Guarded [LT L] (code : A → Program L σ α) (ready : List L → A → Prop) (part : σ → τ)
    (l : L) (On : A → Prop) (spec : A → τ → τ → α → Prop) : Prop where
  keeps : ∀ known a, ready known a → (code a).Keeps known []
  locked : ∀ a, On a → ∃ body, code a = .guard l body ∧ ∀ v, body.Inside part l v (spec a v)
  outside : ∀ known a, ready known a → ¬ On a → (code a).Outside part l

section Recorded

variable [DecidableEq P] [DecidableEq L]

/-- What is seen of a step, of the operations on the part. -/
def Journal.next (l : L) (On : A → Prop) [DecidablePred On] (s : State P L σ α)
    (r : Journal P A α) : Event P L A → Journal P A α
  | .start p a =>
    ⟨update r.current p (some a), if On a then r.log ++ [(p, .invoked a)] else r.log⟩
  | .step p _ =>
    match s.procs p, r.current p with
    | some ⟨_, .ret x⟩, some a =>
      ⟨update r.current p none, if On a then r.log ++ [(p, .returned a x)] else r.log⟩
    | some ⟨_, .post l' (.ret x)⟩, some a =>
      if l' = l ∧ On a then { r with log := r.log ++ [(p, .served a x)] } else r
    | _, _ => r

/-- A step, with what is seen of it. -/
def recordedStep (code : A → Program L σ α) (ready : List L → A → Prop)
    [∀ known a, Decidable (ready known a)] (l : L) (On : A → Prop) [DecidablePred On]
    (s : State P L σ α × Journal P A α) (e : Event P L A) :
    Option (State P L σ α × Journal P A α) :=
  (s.1.step code ready e).map fun s' => (s', s.2.next l On s.1 e)

end Recorded

/-! ### The invariant -/

/-- Where a process stands in its operation. -/
inductive Place (code : A → Program L σ α) (part : σ → τ) (l : L) (On : A → Prop) :
    Option (Running L σ α) → Option A → List (Mark A α) → Prop
  | idle {ms : List (Mark A α)} (h : Calls ms none) : Place code part l On none none ms
  | before {ms : List (Mark A α)} {a : A} (hon : On a) (h : Calls ms (some (a, none))) :
      Place code part l On (some ⟨[], code a⟩) (some a) ms
  | inside {ms : List (Mark A α)} {a : A} {r : Running L σ α} (hon : On a)
      (h : Calls ms (some (a, none))) (hheld : l ∈ r.held) :
      Place code part l On (some r) (some a) ms
  | after {ms : List (Mark A α)} {a : A} {x : α} {held : List L} (hon : On a)
      (h : Calls ms (some (a, some x))) (hheld : l ∉ held) :
      Place code part l On (some ⟨held, .ret x⟩) (some a) ms
  | other {ms : List (Mark A α)} {a : A} {r : Running L σ α} (hoff : ¬ On a) (h : Calls ms none)
      (hout : r.code.Outside part l) (hheld : l ∉ r.held) :
      Place code part l On (some r) (some a) ms

/-- The part is as the operations that have been served have left it, or as the one that is
inside has. -/
def Served (part : σ → τ) (l : L) (spec : A → τ → τ → α → Prop) (v₀ : τ)
    (s : State P L σ α) (r : Journal P A α) : Prop :=
  ∃ v, Legal spec v₀ (served r.log) v ∧ ((∀ p, ¬ s.Holds p l) → part s.shared = v) ∧
    ∀ p q, s.procs p = some q → l ∈ q.held → ∃ (a : A) (body : Program L σ α),
      r.current p = some a ∧ q.code = body.bind (fun x => .post l (.ret x)) ∧
        body.Inside part l (part s.shared) (spec a v)

/-- **The invariant.** -/
structure Serial [DecidableEq P] [LT L] (code : A → Program L σ α) (part : σ → τ) (l : L)
    (On : A → Prop) (spec : A → τ → τ → α → Prop) (v₀ : τ) (s : State P L σ α)
    (r : Journal P A α) : Prop where
  sound : Sound s
  known : l ∈ s.known
  place : ∀ p, Place code part l On (s.procs p) (r.current p) (marksOf p r.log)
  served : Served part l spec v₀ s r

section Steps

variable [LT L] {code : A → Program L σ α} {ready : List L → A → Prop} {part : σ → τ} {l : L}
  {On : A → Prop} {spec : A → τ → τ → α → Prop} {v₀ : τ} {s s' : State P L σ α}
  {r r' : Journal P A α} {p : P} {q : Running L σ α} {made : Option L}

omit [LT L] in
/-- A process that does not hold `l` takes a step on the rest. -/
theorem Served.keep (h : Served part l spec v₀ s r)
    (hp : ∀ q, s.procs p = some q → l ∉ q.held) (hp' : ∀ q, s'.procs p = some q → l ∉ q.held)
    (hprocs : ∀ p', p' ≠ p → s'.procs p' = s.procs p')
    (hcurrent : ∀ p', p' ≠ p → r'.current p' = r.current p')
    (hserved : Locks.served r'.log = Locks.served r.log) (hpart : part s'.shared = part s.shared) :
    Served part l spec v₀ s' r' := by
  obtain ⟨v, hlegal, hfree, hinside⟩ := h
  refine ⟨v, hserved ▸ hlegal, fun hnone => ?_, fun p' q hq hmem => ?_⟩
  · rw [hpart]
    refine hfree fun p' hholds => ?_
    obtain ⟨q, hq, hmem⟩ := hholds
    by_cases hpp : p' = p
    · subst hpp
      exact hp q hq hmem
    · exact hnone p' ⟨q, (hprocs p' hpp).trans hq, hmem⟩
  · have hpp : p' ≠ p := by
      rintro rfl
      exact hp' q hq hmem
    rw [hprocs p' hpp] at hq
    rw [hcurrent p' hpp, hpart]
    exact hinside p' q hq hmem

variable [DecidableEq P]

/-- Only one process takes a step. -/
theorem Serial.of_place (h : Serial code part l On spec v₀ s r) (hsound : Sound s')
    (hknown : l ∈ s'.known) (hprocs : ∀ p', p' ≠ p → s'.procs p' = s.procs p')
    (hcurrent : ∀ p', p' ≠ p → r'.current p' = r.current p')
    (hmarks : ∀ p', p' ≠ p → marksOf p' r'.log = marksOf p' r.log)
    (hplace : Place code part l On (s'.procs p) (r'.current p) (marksOf p r'.log))
    (hserved : Served part l spec v₀ s' r') : Serial code part l On spec v₀ s' r' := by
  refine ⟨hsound, hknown, fun p' => ?_, hserved⟩
  by_cases hp : p' = p
  · rw [hp]
    exact hplace
  · rw [hprocs p' hp, hcurrent p' hp, hmarks p' hp]
    exact h.place p'

omit [LT L] in
/-- A step that is not seen. -/
theorem next_of_quiet [DecidableEq L] [DecidablePred On] (hq : s.procs p = some q)
    (hret : ∀ x, q.code ≠ .ret x) (hpost : ∀ x, q.code ≠ .post l (.ret x)) :
    r.next l On s (.step p made) = r := by
  obtain ⟨held, c⟩ := q
  rw [Journal.next, hq]
  split
  · rename_i x a hcode _
    cases hcode
    exact absurd rfl (hret x)
  · rename_i l' x a hcode _
    cases hcode
    refine if_neg ?_
    rintro ⟨rfl, -⟩
    exact hpost x rfl
  · rfl

open State

omit [LT L] [DecidableEq P] in
theorem Place.of_none {current : Option A} {ms : List (Mark A α)}
    (h : Place code part l On none current ms) : Calls ms none := by
  cases h with
  | idle h => exact h

variable [DecidableEq L] [DecidablePred On]

/-- **An operation begins.** -/
theorem Serial.start (hg : Guarded code ready part l On spec)
    (h : Serial code part l On spec v₀ s r) {a : A} (hnone : s.procs p = none)
    (hready : ready s.known a) (hsound : Sound (s.proceed p (some ⟨[], code a⟩))) :
    Serial code part l On spec v₀ (s.proceed p (some ⟨[], code a⟩))
      (r.next l On s (.start p a)) := by
  have hcalls : Calls (marksOf p r.log) none := (hnone ▸ h.place p).of_none
  have hlog : ∀ p' ≠ p, marksOf p' (r.next l On s (.start p a)).log = marksOf p' r.log := by
    intro p' hp
    simp only [Journal.next]
    split
    · exact marksOf_concat_of_ne hp _
    · rfl
  refine h.of_place hsound h.known (fun p' hp => procs_proceed_of_ne hp)
    (fun p' hp => Function.update_of_ne hp _ _) hlog ?_ ?_
  · simp only [Journal.next, procs_proceed_self, Function.update_self]
    by_cases hon : On a
    · rw [if_pos hon, marksOf_concat_self]
      exact .before hon (hcalls.invoked a)
    · rw [if_neg hon]
      exact .other hon hcalls (hg.outside _ a hready hon) List.not_mem_nil
  · refine h.served.keep (p := p) ?_ ?_ (fun p' hp => procs_proceed_of_ne hp)
      (fun p' hp => Function.update_of_ne hp _ _) ?_ rfl
    · rintro q hq
      cases hnone.symm.trans hq
    · rintro q hq
      cases procs_proceed_self.symm.trans hq
      exact List.not_mem_nil
    · simp only [Journal.next]
      split
      · exact served_concat_invoked p a
      · rfl

/-- **An operation comes to its section.** -/
theorem Serial.enter (hg : Guarded code ready part l On spec)
    (h : Serial code part l On spec v₀ s r) {a : A} (hon : On a)
    (hq : s.procs p = some ⟨[], code a⟩) (hcurrent : r.current p = some a)
    (hcalls : Calls (marksOf p r.log) (some (a, none))) (hsound : Sound s')
    (hstep : s.advance p ⟨[], code a⟩ made = some s') :
    Serial code part l On spec v₀ s' (r.next l On s (.step p made)) := by
  obtain ⟨body, hcode, hbody⟩ := hg.locked a hon
  rw [hcode] at hq hstep
  simp only [State.advance, Program.guard] at hstep
  split_ifs at hstep with hvalue
  cases hstep
  have hfree : ∀ p', ¬ s.Holds p' l :=
    ((h.sound.holder l h.known).resolve_right fun htaken => hvalue htaken.1).2
  rw [next_of_quiet hq nofun nofun]
  refine h.of_place hsound h.known (fun p' hp => procs_proceed_of_ne hp) (fun _ _ => rfl)
    (fun _ _ => rfl) ?_ ?_
  · rw [procs_proceed_self, hcurrent]
    exact .inside hon hcalls List.mem_cons_self
  · obtain ⟨v, hlegal, hpart, -⟩ := h.served
    refine ⟨v, hlegal, fun hnone => ?_, fun p' q hq' hmem => ?_⟩
    · exact absurd ⟨_, procs_proceed_self, List.mem_cons_self⟩ (hnone p)
    · by_cases hp : p' = p
      · subst hp
        cases procs_proceed_self.symm.trans hq'
        refine ⟨a, body, hcurrent, rfl, ?_⟩
        rw [← hpart hfree]
        exact hbody _
      · exact absurd ⟨q, (procs_proceed_of_ne hp).symm.trans hq', hmem⟩ (hfree p')

omit [DecidableEq L] [DecidablePred On] in
/-- A step inside of the section. -/
theorem Serial.move (h : Serial code part l On spec v₀ s r) {a : A} (hon : On a)
    (hholds : s.Holds p l) (hcurrent : r.current p = some a)
    (hcalls : Calls (marksOf p r.log) (some (a, none))) (hsound : Sound s') (hknown : l ∈ s'.known)
    {procs' : Option (Running L σ α)} (hprocs : s'.procs = update s.procs p procs') {v : τ}
    (hlegal : Legal spec v₀ (Locks.served r.log) v) {held : List L} {body : Program L σ α}
    (hq : procs' = some ⟨held, body.bind fun x => .post l (.ret x)⟩) (hheld : l ∈ held)
    (hbody : body.Inside part l (part s'.shared) (spec a v)) :
    Serial code part l On spec v₀ s' r := by
  have hself : s'.procs p = some ⟨held, body.bind fun x => .post l (.ret x)⟩ := by
    rw [hprocs, Function.update_self, hq]
  have hothers : ∀ p', p' ≠ p → s'.procs p' = s.procs p' := fun p' hp => by
    rw [hprocs, Function.update_of_ne hp]
  refine h.of_place hsound hknown hothers (fun _ _ => rfl) (fun _ _ => rfl) ?_ ?_
  · rw [hself, hcurrent]
    exact .inside hon hcalls hheld
  · refine ⟨v, hlegal, fun hnone => absurd ⟨_, hself, hheld⟩ (hnone p), fun p' q hq' hmem => ?_⟩
    by_cases hp : p' = p
    · subst hp
      cases hself.symm.trans hq'
      exact ⟨a, body, hcurrent, rfl, hbody⟩
    · exact absurd (h.sound.unique ⟨q, (hothers p' hp).symm.trans hq', hmem⟩ hholds) hp

/-- **The end of a section.** -/
theorem Serial.leave (h : Serial code part l On spec v₀ s r) {a : A} {x : α} (hon : On a)
    {held : List L} (hq : s.procs p = some ⟨held, .post l (.ret x)⟩) (hheld : l ∈ held)
    (hcurrent : r.current p = some a) (hcalls : Calls (marksOf p r.log) (some (a, none)))
    (hsound : Sound s') (hknown : l ∈ s'.known) {v : τ}
    (hlegal : Legal spec v₀ (Locks.served r.log) v) (hspec : spec a v (part s.shared) x)
    (hshared : s'.shared = s.shared)
    (hprocs : s'.procs = update s.procs p (some ⟨held.erase l, .ret x⟩)) :
    Serial code part l On spec v₀ s' (r.next l On s (.step p made)) := by
  have hnext : r.next l On s (.step p made) = { r with log := r.log ++ [(p, .served a x)] } := by
    simp [Journal.next, hq, hcurrent, hon]
  have hself : s'.procs p = some ⟨held.erase l, .ret x⟩ := by rw [hprocs, Function.update_self]
  have hothers : ∀ p', p' ≠ p → s'.procs p' = s.procs p' := fun p' hp => by
    rw [hprocs, Function.update_of_ne hp]
  have hgone : l ∉ held.erase l := (h.sound.nodup p _ hq).not_mem_erase
  have hfree : ∀ p' q, s'.procs p' = some q → l ∉ q.held := by
    intro p' q hq' hmem
    by_cases hp : p' = p
    · subst hp
      cases hself.symm.trans hq'
      exact hgone hmem
    · exact hp (h.sound.unique ⟨q, (hothers p' hp).symm.trans hq', hmem⟩ ⟨_, hq, hheld⟩)
  rw [hnext]
  refine h.of_place hsound hknown hothers (fun _ _ => rfl)
    (fun p' hp => marksOf_concat_of_ne hp _) ?_ ?_
  · rw [hself, hcurrent, marksOf_concat_self]
    exact .after hon (hcalls.served x) hgone
  · refine ⟨part s.shared, ?_, fun _ => by rw [hshared], fun p' q hq' hmem => ?_⟩
    · rw [served_concat_served]
      exact hlegal.concat hspec
    · exact absurd hmem (hfree p' q hq')

/-- **A step of an operation that is inside.** -/
theorem Serial.inside (h : Serial code part l On spec v₀ s r) {a : A} (hon : On a)
    (hq : s.procs p = some q) (hheld : l ∈ q.held) (hcurrent : r.current p = some a)
    (hcalls : Calls (marksOf p r.log) (some (a, none))) (hsound : Sound s')
    (hstep : s.advance p q made = some s') :
    Serial code part l On spec v₀ s' (r.next l On s (.step p made)) := by
  obtain ⟨v, hlegal, -, hinside⟩ := h.served
  obtain ⟨a', body, ha', hcode, hbody⟩ := hinside p q hq hheld
  cases hcurrent.symm.trans ha'
  have hholds : s.Holds p l := ⟨q, hq, hheld⟩
  obtain ⟨held, c⟩ := q
  obtain rfl : c = body.bind fun x => .post l (.ret x) := hcode
  cases body with
  | ret x =>
    simp only [State.advance, Program.bind] at hstep
    cases hstep
    exact h.leave hon hq hheld hcurrent hcalls hsound h.known hlegal hbody rfl rfl
  | wait l' next =>
    simp only [State.advance, Program.bind] at hstep
    split_ifs at hstep with hvalue
    cases hstep
    rw [next_of_quiet hq nofun nofun]
    exact h.move hon hholds hcurrent hcalls hsound h.known rfl hlegal rfl
      (List.mem_cons_of_mem l' hheld) hbody.2
  | post l' next =>
    simp only [State.advance, Program.bind] at hstep
    cases hstep
    rw [next_of_quiet hq nofun fun x hx => hbody.1 (Program.post.inj hx).1]
    exact h.move hon hholds hcurrent hcalls hsound h.known rfl hlegal rfl
      ((List.mem_erase_of_ne (Ne.symm hbody.1)).mpr hheld) hbody.2
  | init next =>
    simp only [State.advance, Program.bind] at hstep
    rw [next_of_quiet hq nofun nofun]
    cases made with
    | none =>
      cases hstep
      exact h.move hon hholds hcurrent hcalls hsound h.known rfl hlegal rfl hheld
        (hbody none nofun)
    | some l' =>
      simp only at hstep
      split_ifs at hstep with hnew
      cases hstep
      have hne : some l' ≠ some l := by
        rintro ⟨⟩
        exact hnew h.known
      exact h.move hon hholds hcurrent hcalls hsound (List.mem_cons_of_mem l' h.known) rfl hlegal
        rfl hheld (hbody (some l') hne)
  | act effect next =>
    simp only [State.advance, Program.bind] at hstep
    cases hstep
    rw [next_of_quiet hq nofun nofun]
    exact h.move hon hholds hcurrent hcalls hsound h.known rfl hlegal rfl hheld
      (hbody s.shared rfl)

/-- **An operation returns.** -/
theorem Serial.finish (h : Serial code part l On spec v₀ s r) {a : A} {x : α} {held : List L}
    (hq : s.procs p = some ⟨held, .ret x⟩) (hcurrent : r.current p = some a)
    (hheld : l ∉ held) (hsound : Sound (s.proceed p none))
    (hcalls : Calls (marksOf p r.log) (if On a then some (a, some x) else none)) :
    Serial code part l On spec v₀ (s.proceed p none) (r.next l On s (.step p made)) := by
  have hnext : r.next l On s (.step p made) = ⟨update r.current p none,
      if On a then r.log ++ [(p, .returned a x)] else r.log⟩ := by
    simp only [Journal.next, hq, hcurrent]
  rw [hnext]
  refine h.of_place hsound h.known (fun p' hp => procs_proceed_of_ne hp)
    (fun p' hp => Function.update_of_ne hp _ _) (fun p' hp => ?_) ?_ ?_
  · simp only
    split
    · exact marksOf_concat_of_ne hp _
    · rfl
  · simp only [procs_proceed_self, Function.update_self]
    split
    · rename_i hon
      rw [if_pos hon] at hcalls
      rw [marksOf_concat_self]
      exact .idle hcalls.returned
    · rename_i hoff
      rw [if_neg hoff] at hcalls
      exact .idle hcalls
  · refine h.served.keep (p := p) ?_ ?_ (fun p' hp => procs_proceed_of_ne hp)
      (fun p' hp => Function.update_of_ne hp _ _) ?_ rfl
    · rintro q hq'
      cases hq.symm.trans hq'
      exact hheld
    · rintro q hq'
      cases procs_proceed_self.symm.trans hq'
    · simp only
      split
      · exact served_concat_returned p a x
      · rfl

omit [DecidableEq L] [DecidablePred On] in
/-- Another operation goes on. -/
theorem Serial.other (h : Serial code part l On spec v₀ s r) {a : A} (hoff : ¬ On a)
    (hq : s.procs p = some q) (hheld : l ∉ q.held) (hcurrent : r.current p = some a)
    (hcalls : Calls (marksOf p r.log) none) (hsound : Sound s') (hknown : l ∈ s'.known)
    {held : List L} {c : Program L σ α} (hprocs : s'.procs = update s.procs p (some ⟨held, c⟩))
    (hheld' : l ∉ held) (hout : c.Outside part l) (hpart : part s'.shared = part s.shared) :
    Serial code part l On spec v₀ s' r := by
  have hself : s'.procs p = some ⟨held, c⟩ := by rw [hprocs, Function.update_self]
  have hothers : ∀ p', p' ≠ p → s'.procs p' = s.procs p' := fun p' hp => by
    rw [hprocs, Function.update_of_ne hp]
  refine h.of_place hsound hknown hothers (fun _ _ => rfl) (fun _ _ => rfl) ?_ ?_
  · rw [hself, hcurrent]
    exact .other hoff hcalls hout hheld'
  · refine h.served.keep (p := p) ?_ ?_ hothers (fun _ _ => rfl) rfl hpart
    · rintro q' hq'
      cases hq.symm.trans hq'
      exact hheld
    · rintro q' hq'
      cases hself.symm.trans hq'
      exact hheld'

/-- **A step of an operation that leaves the part alone.** -/
theorem Serial.outside (h : Serial code part l On spec v₀ s r) {a : A} (hoff : ¬ On a)
    (hq : s.procs p = some q) (hheld : l ∉ q.held) (hout : q.code.Outside part l)
    (hcurrent : r.current p = some a) (hcalls : Calls (marksOf p r.log) none) (hsound : Sound s')
    (hstep : s.advance p q made = some s') :
    Serial code part l On spec v₀ s' (r.next l On s (.step p made)) := by
  obtain ⟨held, c⟩ := q
  cases c with
  | ret x =>
    simp only [State.advance] at hstep
    cases hstep
    refine h.finish hq hcurrent hheld hsound ?_
    rwa [if_neg hoff]
  | wait l' next =>
    simp only [State.advance] at hstep
    split_ifs at hstep with hvalue
    cases hstep
    rw [next_of_quiet hq nofun nofun]
    refine h.other hoff hq hheld hcurrent hcalls hsound h.known rfl (fun hmem => ?_) hout.2 rfl
    exact (List.mem_cons.mp hmem).elim (fun heq => hout.1 heq.symm) hheld
  | post l' next =>
    simp only [State.advance] at hstep
    cases hstep
    rw [next_of_quiet hq nofun fun x hx => hout.1 (Program.post.inj hx).1]
    exact h.other hoff hq hheld hcurrent hcalls hsound h.known rfl
      (fun hmem => hheld (List.mem_of_mem_erase hmem)) hout.2 rfl
  | init next =>
    simp only [State.advance] at hstep
    rw [next_of_quiet hq nofun nofun]
    cases made with
    | none =>
      cases hstep
      exact h.other hoff hq hheld hcurrent hcalls hsound h.known rfl hheld (hout none nofun) rfl
    | some l' =>
      simp only at hstep
      split_ifs at hstep with hnew
      cases hstep
      have hne : some l' ≠ some l := by
        rintro ⟨⟩
        exact hnew h.known
      exact h.other hoff hq hheld hcurrent hcalls hsound (List.mem_cons_of_mem l' h.known) rfl
        hheld (hout (some l') hne) rfl
  | act effect next =>
    simp only [State.advance] at hstep
    cases hstep
    rw [next_of_quiet hq nofun nofun]
    exact h.other hoff hq hheld hcurrent hcalls hsound h.known rfl hheld (hout s.shared).2
      (hout s.shared).1

/-- **What a step of a process keeps.** -/
theorem Serial.advance (hg : Guarded code ready part l On spec)
    (h : Serial code part l On spec v₀ s r) (hq : s.procs p = some q) (hsound : Sound s')
    (hstep : s.advance p q made = some s') :
    Serial code part l On spec v₀ s' (r.next l On s (.step p made)) := by
  have hplace := h.place p
  rw [hq] at hplace
  generalize hcurrent : r.current p = current at hplace
  generalize hms : marksOf p r.log = ms at hplace
  cases hplace with
  | before hon hcalls => exact h.enter hg hon hq hcurrent (hms ▸ hcalls) hsound hstep
  | inside hon hcalls hheld => exact h.inside hon hq hheld hcurrent (hms ▸ hcalls) hsound hstep
  | @after _ a x held hon hcalls hheld =>
    simp only [State.advance] at hstep
    cases hstep
    refine h.finish hq hcurrent hheld hsound ?_
    rwa [if_pos hon, hms]
  | other hoff hcalls hout hheld =>
    exact h.outside hoff hq hheld hout hcurrent (hms ▸ hcalls) hsound hstep

variable [∀ known a, Decidable (ready known a)]

/-- **What a step keeps.** -/
theorem serial_step (hg : Guarded code ready part l On spec)
    (h : Serial code part l On spec v₀ s r) {e : Event P L A}
    (hstep : recordedStep code ready l On (s, r) e = some (s', r')) :
    Serial code part l On spec v₀ s' r' := by
  obtain ⟨s₁, hs₁, heq⟩ := Option.map_eq_some_iff.mp hstep
  cases heq
  have hsound := sound_step hg.keeps h.sound hs₁
  cases e with
  | start p a =>
    simp only [State.step] at hs₁
    split_ifs at hs₁ with hcond
    cases hs₁
    exact h.start hg (Option.isNone_iff_eq_none.mp hcond.1) hcond.2 hsound
  | step p made =>
    obtain ⟨q, hq, hadvance⟩ := Option.bind_eq_some_iff.mp hs₁
    exact h.advance hg hq hsound hadvance

end Steps

/-! ### Runs -/

/-- Nobody is in an operation, and all semaphores are free. -/
def State.idle (known : List L) (shared : σ) : State P L σ α :=
  ⟨known, fun _ => 1, shared, fun _ => none⟩

section Runs

variable [DecidableEq P] [LT L] {code : A → Program L σ α} {ready : List L → A → Prop}
  {part : σ → τ} {l : L} {On : A → Prop} {spec : A → τ → τ → α → Prop} {known : List L}
  {shared : σ} {s : State P L σ α} {r : Journal P A α} {events : List (Event P L A)}

theorem serial_idle (hl : l ∈ known) :
    Serial code part l On spec (part shared) (State.idle known shared : State P L σ α)
      Journal.start where
  sound := by
    have hnone : ∀ (p : P) (l : L), ¬ (State.idle known shared : State P L σ α).Holds p l := by
      rintro p l ⟨q, hq, -⟩
      cases hq
    exact ⟨nofun, nofun, fun p l hl => absurd hl (hnone p l),
      fun l _ => .inl ⟨rfl, fun p => hnone p l⟩⟩
  known := hl
  place p := .idle .nil
  served := ⟨part shared, .nil, fun _ => rfl, nofun⟩

/-- **Operations are served one after another.**  Each process has its calls in order and
gets what it was served; the calls that were served are, in this order, a sequence of
operations one after another, and lead to what the part is while nobody is in a section. -/
theorem serial_run [DecidableEq L] [DecidablePred On] [∀ known a, Decidable (ready known a)]
    (hg : Guarded code ready part l On spec) (hl : l ∈ known)
    (hrun : run (recordedStep code ready l On) (State.idle known shared, Journal.start) events =
      some (s, r)) : Serial code part l On spec (part shared) s r :=
  invariant_run (fun x : State P L σ α × Journal P A α =>
      Serial code part l On spec (part shared) x.1 x.2)
    (fun _ _ _ h hstep => serial_step hg h hstep) (serial_idle hl) hrun

omit [LT L] in
/-- Every run can be recorded. -/
theorem exists_recorded [DecidableEq L] [DecidablePred On] [∀ known a, Decidable (ready known a)]
    {s₀ : State P L σ α} (hrun : run (State.step code ready) s₀ events = some s) :
    ∀ r₀ : Journal P A α,
      ∃ r, run (recordedStep code ready l On) (s₀, r₀) events = some (s, r) := by
  induction events generalizing s₀ with
  | nil =>
    intro r₀
    cases hrun
    exact ⟨r₀, rfl⟩
  | cons e events ih =>
    intro r₀
    obtain ⟨s₁, hs₁, hrest⟩ := run_cons_eq_some.mp hrun
    obtain ⟨r, hr⟩ := ih hrest (r₀.next l On s₀ e)
    have hstep : recordedStep code ready l On (s₀, r₀) e = some (s₁, r₀.next l On s₀ e) := by
      rw [recordedStep, hs₁]
      rfl
    exact ⟨r, by rw [run_cons hstep]; exact hr⟩

omit [LT L] [DecidableEq P] in
theorem Place.calls {q : Option (Running L σ α)} {current : Option A} {ms : List (Mark A α)}
    (h : Place code part l On q current ms) : ∃ c, Calls ms c := by
  cases h with
  | idle h => exact ⟨_, h⟩
  | before hon h => exact ⟨_, h⟩
  | inside hon h hheld => exact ⟨_, h⟩
  | after hon h hheld => exact ⟨_, h⟩
  | other hoff h hout hheld => exact ⟨_, h⟩

end Runs

end Locks
