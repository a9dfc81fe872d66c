import Mathlib.Logic.Equiv.Basic

/-!
# Resources with an owner

A *ledger* numbers the resources in the order in which they are acquired and keeps
the uses of each.  An owner holds one resource or none, and a use may also end the
holding.  A resource is *accounted for* when somebody holds it and it has not been
released, or nobody does and it was released, last of all and once.

## Main definitions

* `Ledger.acquire`, `Ledger.use` — what happens to a ledger.
* `Sound` — a resource has one holder.
* `Released` — released, and not used since.
* `Accounted`, `Handled` — no resource is lost or used behind its release; the latter
  allows a holder of a released one.
* `Tallied` — resources that are given back with what they were taken with.

## Main results

* `accounted_acquire`, `accounted_use`, `accounted_comp` — **a step keeps the account
  just when it releases what it lets go of, and nothing else**.
* `handled_iff_accounted` — the two are one where nobody holds anything.
* `tallied_acquire`, `tallied_release`, `Tallied.comp` — **what keeps a tally**.
-/

namespace Ownership

open Function (update)

variable {ν υ : Type*}

/-- The resources that have been acquired, by number. -/
structure Ledger (υ : Type*) where
  /-- The uses of a resource, the last one first. -/
  uses : ℕ → List υ
  /-- How many resources there have been. -/
  count : ℕ

namespace Ledger

/-- The next resource, with its uses so far. -/
def acquire (l : Ledger υ) (us : List υ) : Ledger υ where
  uses := update l.uses l.count us
  count := l.count + 1

/-- Further uses of what somebody holds. -/
def use (l : Ledger υ) (held : Option ℕ) (us : List υ) : Ledger υ :=
  match held with
  | none => l
  | some r => { l with uses := update l.uses r (us ++ l.uses r) }

variable (l : Ledger υ) (us : List υ) {r r' : ℕ}

@[simp] theorem acquire_count : (l.acquire us).count = l.count + 1 := rfl

@[simp] theorem acquire_uses_self : (l.acquire us).uses l.count = us :=
  Function.update_self ..

theorem acquire_uses_of_lt (h : r < l.count) : (l.acquire us).uses r = l.uses r :=
  Function.update_of_ne (Nat.ne_of_lt h) ..

@[simp] theorem use_none : l.use none us = l := rfl

@[simp] theorem use_count (held : Option ℕ) : (l.use held us).count = l.count := by
  cases held <;> rfl

@[simp] theorem use_uses_self : (l.use (some r) us).uses r = us ++ l.uses r :=
  Function.update_self ..

theorem use_uses_of_ne (h : r' ≠ r) : (l.use (some r) us).uses r' = l.uses r' :=
  Function.update_of_ne h ..

/-- What is acquired is used at once. -/
theorem acquire_use (us' : List υ) :
    (l.acquire us).use (some l.count) us' = l.acquire (us' ++ us) := by
  rw [use, acquire_uses_self, acquire, acquire, Function.update_idem]

end Ledger

/-- Somebody holds the resource. -/
def Held (holds : ν → Option ℕ) (r : ℕ) : Prop := ∃ x, holds x = some r

/-- A resource has one holder, and has been acquired. -/
structure Sound (holds : ν → Option ℕ) (l : Ledger υ) : Prop where
  unique : ∀ {x y r}, holds x = some r → holds y = some r → x = y
  lt_count : ∀ {x r}, holds x = some r → r < l.count

/-- Released, and not used since. -/
def Released (release : υ) : List υ → Prop
  | [] => False
  | u :: earlier => u = release ∧ release ∉ earlier

/-- A resource is held and not released, or released and not held. -/
def Settled (release : υ) (held : Prop) (us : List υ) : Prop :=
  held ∧ release ∉ us ∨ ¬ held ∧ Released release us

/-- Every resource is settled. -/
def Accounted (release : υ) (holds : ν → Option ℕ) (l : Ledger υ) : Prop :=
  ∀ r < l.count, Settled release (Held holds r) (l.uses r)

/-- Each resource is held and not released, or released and not used since. -/
def Handled (release : υ) (holds : ν → Option ℕ) (l : Ledger υ) : Prop :=
  ∀ r < l.count, Held holds r ∧ release ∉ l.uses r ∨ Released release (l.uses r)

section

variable {release : υ} {holds holds' : ν → Option ℕ} {l : Ledger υ} {us earlier : List υ}
  {x y : ν} {r : ℕ} {h : Option ℕ}

theorem released_append (hus : us ≠ []) :
    Released release (us ++ earlier) ↔ Released release us ∧ release ∉ earlier := by
  obtain ⟨u, us, rfl⟩ := List.exists_cons_of_ne_nil hus
  simp only [List.cons_append, Released, List.mem_append, not_or, and_assoc]

theorem mem_of_released (h : Released release us) : release ∈ us := by
  cases us with
  | nil => cases h
  | cons u us => exact List.mem_cons.mpr (.inl h.1.symm)

theorem Accounted.handled (hacc : Accounted release holds l) : Handled release holds l :=
  fun r hr => (hacc r hr).imp_right And.right

theorem settled_of_held {p : Prop} (hheld : p) :
    Settled release p us ↔ release ∉ us := by
  simp only [Settled, hheld, true_and, not_true_eq_false, false_and, or_false]

theorem settled_of_not_held {p : Prop} (hheld : ¬ p) :
    Settled release p us ↔ Released release us := by
  simp only [Settled, hheld, false_and, not_false_eq_true, true_and, false_or]

/-- **Where nobody holds anything, all is handled when all is accounted for.** -/
theorem handled_iff_accounted (hnone : ∀ x, holds x = none) :
    Handled release holds l ↔ Accounted release holds l := by
  have hheld : ∀ r, ¬ Held holds r := by
    rintro r ⟨x, hx⟩
    cases (hnone x).symm.trans hx
  refine forall₂_congr fun r _ => ?_
  rw [settled_of_not_held (hheld r), or_iff_right fun h => hheld r h.1]

/-! ### Who holds what -/

theorem Sound.acquire (hs : Sound holds l) : Sound holds (l.acquire us) where
  unique := hs.unique
  lt_count hx := Nat.lt_succ_of_lt (hs.lt_count hx)

section

variable [DecidableEq ν]

theorem held_update : Held (update holds x h) r ↔ h = some r ∨ ∃ y, y ≠ x ∧ holds y = some r := by
  constructor
  · rintro ⟨y, hy⟩
    by_cases hyx : y = x
    · subst hyx
      exact .inl (by rwa [Function.update_self] at hy)
    · exact .inr ⟨y, hyx, by rwa [Function.update_of_ne hyx] at hy⟩
  · rintro (hr | ⟨y, hyx, hy⟩)
    · exact ⟨x, by rw [Function.update_self, hr]⟩
    · exact ⟨y, by rw [Function.update_of_ne hyx, hy]⟩

/-- For a resource that `x` neither holds nor gets. -/
theorem held_update_of_ne (hx : holds x ≠ some r) (hh : h ≠ some r) :
    Held (update holds x h) r ↔ Held holds r := by
  rw [held_update, or_iff_right hh]
  refine exists_congr fun y => and_iff_right_of_imp ?_
  rintro hy rfl
  exact hx hy

/-- What `x` holds is held after a change at `x` if `x` keeps it. -/
theorem Sound.held_update_self (hs : Sound holds l) (hx : holds x = some r) :
    Held (update holds x h) r ↔ h = some r := by
  rw [held_update, or_iff_left]
  rintro ⟨y, hyx, hy⟩
  exact hyx (hs.unique hy hx)

theorem Sound.acquire_update (hs : Sound holds l) :
    Sound (update holds x (some l.count)) (l.acquire us) where
  unique {y z r} hy hz := by
    have hnew : ∀ w, holds w ≠ some l.count := fun w hw => Nat.lt_irrefl _ (hs.lt_count hw)
    simp only [Function.update_apply] at hy hz
    split_ifs at hy hz with hyx hzx hzx
    · rw [hyx, hzx]
    · exact absurd (hz.trans hy.symm) (hnew z)
    · exact absurd (hy.trans hz.symm) (hnew y)
    · exact hs.unique hy hz
  lt_count {y r} hy := by
    simp only [Function.update_apply] at hy
    split_ifs at hy
    · cases hy
      exact Nat.lt_succ_self _
    · exact Nat.lt_succ_of_lt (hs.lt_count hy)

/-- A holder keeps what it has or lets go of it. -/
theorem Sound.use (hs : Sound holds l) (hh : h = none ∨ h = holds x) :
    Sound (update holds x h) (l.use (holds x) us) := by
  have hle : ∀ {y r}, update holds x h y = some r → holds y = some r := by
    intro y r hy
    rw [Function.update_apply] at hy
    split_ifs at hy with hyx
    · subst hyx
      rcases hh with rfl | rfl
      · cases hy
      · exact hy
    · exact hy
  refine ⟨fun hy hz => hs.unique (hle hy) (hle hz), fun hy => ?_⟩
  rw [Ledger.use_count]
  exact hs.lt_count (hle hy)

end

theorem Sound.comp (hs : Sound holds l) (e : Equiv.Perm ν) : Sound (holds ∘ e) l where
  unique hx hy := e.injective (hs.unique hx hy)
  lt_count hx := hs.lt_count hx

theorem held_comp (e : Equiv.Perm ν) : Held (holds ∘ e) r ↔ Held holds r :=
  (e.surjective.exists (p := fun x => holds x = some r)).symm

/-! ### What keeps the account -/

/-- The owners change places. -/
theorem accounted_comp (e : Equiv.Perm ν) :
    Accounted release (holds ∘ e) l ↔ Accounted release holds l := by
  simp only [Accounted, held_comp]

/-- A resource is acquired while the others stay with their holders. -/
theorem accounted_acquire (hheld : ∀ r < l.count, Held holds' r ↔ Held holds r) :
    Accounted release holds' (l.acquire us) ↔
      Accounted release holds l ∧ Settled release (Held holds' l.count) us := by
  simp only [Accounted, Ledger.acquire_count, Nat.forall_lt_succ_right, Ledger.acquire_uses_self]
  refine and_congr_left' (forall₂_congr fun r hr => ?_)
  rw [hheld r hr, Ledger.acquire_uses_of_lt _ _ hr]

/-- One that nobody holds must have been released. -/
theorem accounted_acquire_unheld (hs : Sound holds l) :
    Accounted release holds (l.acquire us) ↔
      Accounted release holds l ∧ Released release us := by
  have hnew : ¬ Held holds l.count := fun ⟨x, hx⟩ => Nat.lt_irrefl _ (hs.lt_count hx)
  rw [accounted_acquire fun _ _ => Iff.rfl, settled_of_not_held hnew]

/-- The account, with one resource apart. -/
theorem accounted_iff_at (hr : r < l.count) :
    Accounted release holds l ↔ Settled release (Held holds r) (l.uses r) ∧
      ∀ r' < l.count, r' ≠ r → Settled release (Held holds r') (l.uses r') := by
  refine ⟨fun h => ⟨h r hr, fun r' hr' _ => h r' hr'⟩, fun h r' hr' => ?_⟩
  by_cases hne : r' = r
  · exact hne ▸ h.1
  · exact h.2 r' hr' hne

variable [DecidableEq ν]

/-- One that goes to an owner must not have been. -/
theorem accounted_acquire_held (hx : holds x = none) :
    Accounted release (update holds x (some l.count)) (l.acquire us) ↔
      Accounted release holds l ∧ release ∉ us := by
  have hnew : Held (update holds x (some l.count)) l.count := held_update.mpr (.inl rfl)
  rw [accounted_acquire fun r hr =>
    held_update_of_ne (by rw [hx]; nofun) (by simpa using (Nat.ne_of_lt hr).symm),
    settled_of_held hnew]

/-- **A holder that keeps its resource must not release it, and one that lets it go must.** -/
theorem accounted_use (hs : Sound holds l) (hh : h = none ∨ h = holds x)
    (hus : h ≠ holds x → us ≠ []) :
    Accounted release (update holds x h) (l.use (holds x) us) ↔ Accounted release holds l ∧
      (holds x ≠ none → h = holds x ∧ release ∉ us ∨ h = none ∧ Released release us) := by
  cases hx : holds x with
  | none =>
    have hsame : update holds x h = holds := by
      rw [Function.update_eq_self_iff]
      rcases hh with rfl | rfl
      · exact hx.symm
      · rfl
    simp only [hsame, Ledger.use_none, ne_eq, not_true_eq_false, false_implies, and_true]
  | some r =>
    rw [hx] at hh hus
    have hr := hs.lt_count hx
    have hrest : (∀ r' < l.count, r' ≠ r → Settled release (Held (update holds x h) r')
          ((l.use (some r) us).uses r')) ↔
        ∀ r' < l.count, r' ≠ r → Settled release (Held holds r') (l.uses r') := by
      refine forall₃_congr fun r' _ hne => ?_
      have hheld : Held (update holds x h) r' ↔ Held holds r' := by
        refine held_update_of_ne ?_ ?_
        · simpa only [hx, ne_eq, Option.some.injEq] using hne.symm
        · rcases hh with rfl | rfl
          · nofun
          · simpa only [ne_eq, Option.some.injEq] using hne.symm
      rw [hheld, Ledger.use_uses_of_ne _ _ hne]
    rw [accounted_iff_at (r := r) (by rwa [Ledger.use_count]), Ledger.use_count, hrest,
      accounted_iff_at hr, Ledger.use_uses_self, hs.held_update_self hx,
      settled_of_held (p := Held holds r) ⟨x, hx⟩, and_right_comm]
    refine and_congr_left' ?_
    rcases hh with rfl | rfl
    · rw [settled_of_not_held (by nofun), released_append (hus (by nofun)), and_comm]
      simp
    · rw [settled_of_held rfl, List.mem_append, not_or, and_comm]
      simp

end

/-! ### Resources with a tag -/

section Tags

variable {κ : Type*} {take give : κ → υ} {owned : ν → Option (ℕ × κ)} {l : Ledger υ} {x : ν}
  {r : ℕ} {k : κ}

/-- The resource that is held, without its tag. -/
def untagged (owned : ν → Option (ℕ × κ)) : ν → Option ℕ := Option.map Prod.fst ∘ owned

/-- **Every resource is held with the tag it was taken with**, or has been given back with it,
once, and is not held. -/
structure Tallied (take give : κ → υ) (owned : ν → Option (ℕ × κ)) (l : Ledger υ) : Prop where
  sound : Sound (untagged owned) l
  held : ∀ {x r k}, owned x = some (r, k) → l.uses r = [take k]
  given : ∀ r < l.count, ¬ Held (untagged owned) r → ∃ k, l.uses r = [give k, take k]

theorem untagged_of_owned (hx : owned x = some (r, k)) : untagged owned x = some r := by
  rw [untagged, Function.comp_apply, hx, Option.map_some]

theorem exists_owned (hx : untagged owned x = some r) : ∃ k, owned x = some (r, k) := by
  obtain ⟨⟨r', k⟩, hx', rfl⟩ := Option.map_eq_some_iff.mp hx
  exact ⟨k, hx'⟩

/-- The owners change places. -/
theorem Tallied.comp (h : Tallied take give owned l) (e : Equiv.Perm ν) :
    Tallied take give (owned ∘ e) l where
  sound := h.sound.comp e
  held hx := h.held hx
  given r hr hheld := by
    have hcomp : Held (untagged owned ∘ e) r ↔ Held (untagged owned) r := held_comp e
    exact h.given r hr (hcomp.not.mp hheld)

variable [DecidableEq ν]

theorem untagged_update (o : Option (ℕ × κ)) :
    untagged (update owned x o) = update (untagged owned) x (o.map Prod.fst) :=
  Function.comp_update ..

/-- One more resource goes to an owner that has none. -/
theorem tallied_acquire (h : Tallied take give owned l) (hx : owned x = none) (k : κ) :
    Tallied take give (update owned x (some (l.count, k))) (l.acquire [take k]) where
  sound := by
    rw [untagged_update]
    exact h.sound.acquire_update
  held {y r k'} hy := by
    rw [Function.update_apply] at hy
    split_ifs at hy
    · cases hy
      exact l.acquire_uses_self [take k]
    · rw [Ledger.acquire_uses_of_lt _ _ (h.sound.lt_count (untagged_of_owned hy))]
      exact h.held hy
  given r hr hheld := by
    rw [untagged_update] at hheld
    have hnew : r ≠ l.count := by
      rintro rfl
      exact hheld (held_update.mpr (.inl rfl))
    have hlt : r < l.count := Nat.lt_of_le_of_ne (Nat.lt_succ_iff.mp hr) hnew
    rw [Ledger.acquire_uses_of_lt _ _ hlt]
    refine h.given r hlt fun hh => hheld ?_
    have hx' : untagged owned x ≠ some r := by simp [untagged, hx]
    exact (held_update_of_ne hx' (by simpa using hnew.symm)).mpr hh

/-- An owner gives back what it has, with its tag. -/
theorem tallied_release (h : Tallied take give owned l) (hx : owned x = some (r, k)) :
    Tallied take give (update owned x none) (l.use (some r) [give k]) where
  sound := by
    rw [untagged_update, ← untagged_of_owned hx]
    exact h.sound.use (.inl rfl)
  held {y r' k'} hy := by
    rw [Function.update_apply] at hy
    split_ifs at hy with hyx
    have hne : r' ≠ r := by
      rintro rfl
      exact hyx (h.sound.unique (untagged_of_owned hy) (untagged_of_owned hx))
    rw [Ledger.use_uses_of_ne _ _ hne]
    exact h.held hy
  given r' hr hheld := by
    rw [Ledger.use_count] at hr
    by_cases hne : r' = r
    · rw [hne, Ledger.use_uses_self, h.held hx]
      exact ⟨k, rfl⟩
    · rw [Ledger.use_uses_of_ne _ _ hne]
      refine h.given r' hr fun hh => hheld ?_
      rw [untagged_update]
      refine (held_update_of_ne ?_ (by simp)).mpr hh
      rw [untagged_of_owned hx]
      simpa using Ne.symm hne

end Tags

end Ownership
