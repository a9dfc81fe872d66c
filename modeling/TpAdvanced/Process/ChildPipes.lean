import TpAdvanced.Process.StdinEnds

/-!
# What a child finds at its standard descriptors

The child binds its ends of the two pipes to 0 and 1 and closes their old numbers.
`pipe` gives the lowest free numbers, so the old number of the first end is itself 0 or
1 where one of these is free in the parent, and the end that was bound there is closed.

## Main definitions

* `PipeNumbers.Lowest` — the numbers that `pipe` gives.
* `Table.ChildEnds` — what the child is meant to have.

## Main results

* `childEnds_iff` — **the child has its ends when 0 and 1 are open in the parent**, and
  only then.
-/

namespace TpAdvanced

open Function (update)

namespace Table

/-- The number that the kernel gives next. -/
def LowestFree (t : Table) (fd : ℕ) : Prop := t fd = none ∧ ∀ lower < fd, t lower ≠ none

instance (t : Table) (fd : ℕ) : Decidable (t.LowestFree fd) :=
  inferInstanceAs (Decidable (_ ∧ ∀ lower < fd, t lower ≠ none))

/-- No end of the pipes `id` and `id + 1` is in the table. -/
def WithoutPipes (t : Table) (id : ℕ) : Prop :=
  ∀ fd side, t fd ≠ some (.pipe id side) ∧ t fd ≠ some (.pipe (id + 1) side)

/-- At 0 the read end of the one pipe, at 1 the write end of the other, and no further
end of the two. -/
structure ChildEnds (t : Table) (id : ℕ) : Prop where
  stdin : t 0 = some (.pipe id .reader)
  stdout : t 1 = some (.pipe (id + 1) .writer)
  noOther : ∀ fd side, t fd = some (.pipe id side) ∨ t fd = some (.pipe (id + 1) side) →
    fd = 0 ∨ fd = 1

end Table

/-- Each number is the lowest free one in its turn, the reader of a pipe before its writer. -/
structure PipeNumbers.Lowest (n : PipeNumbers) (t : Table) (id : ℕ) : Prop where
  childRead : t.LowestFree n.childRead
  parentWrite : Table.LowestFree (update t n.childRead (some (.pipe id .reader))) n.parentWrite
  parentRead : (t.makePipe id n.childRead n.parentWrite).LowestFree n.parentRead
  childWrite :
    Table.LowestFree (update (t.makePipe id n.childRead n.parentWrite) n.parentRead
      (some (.pipe (id + 1) .reader))) n.childWrite

namespace Table

variable {t : Table} {fd fd' : ℕ} {f : OpenFile}

/-- The next number that is given is greater, and was free before as well. -/
theorem LowestFree.next (h : t.LowestFree fd) (h' : LowestFree (update t fd (some f)) fd') :
    fd < fd' ∧ t fd' = none := by
  have hne : fd' ≠ fd := by
    rintro rfl
    cases (Function.update_self fd' (some f) t).symm.trans h'.1
  have hfree : t fd' = none := (Function.update_of_ne hne _ _).symm.trans h'.1
  refine ⟨?_, hfree⟩
  by_contra hlt
  exact h.2 fd' (by omega) hfree

end Table

namespace PipeNumbers.Lowest

variable {n : PipeNumbers} {t : Table} {id : ℕ}

/-- The four numbers come in order. -/
theorem sorted (h : n.Lowest t id) : n.childRead < n.parentWrite ∧ n.parentWrite < n.parentRead ∧
    n.parentRead < n.childWrite :=
  ⟨(h.childRead.next h.parentWrite).1, (h.parentWrite.next h.parentRead).1,
    (h.parentRead.next h.childWrite).1⟩

theorem nodup (h : n.Lowest t id) : n.toList.Nodup := by
  obtain ⟨hab, hbc, hcd⟩ := h.sorted
  simp only [toList, List.nodup_cons, List.mem_cons, List.not_mem_nil, or_false, not_or,
    not_false_eq_true, List.nodup_nil, and_true]
  omega

/-- The first number is 0 or 1 when one of these is free. -/
theorem childRead_lt_iff (h : n.Lowest t id) : n.childRead < 2 ↔ t 0 = none ∨ t 1 = none := by
  constructor
  · intro hlt
    rcases (by omega : n.childRead = 0 ∨ n.childRead = 1) with hfd | hfd
    · exact .inl (hfd ▸ h.childRead.1)
    · exact .inr (hfd ▸ h.childRead.1)
  · intro hfree
    by_contra hge
    rcases hfree with hfree | hfree
    · exact h.childRead.2 0 (by omega) hfree
    · exact h.childRead.2 1 (by omega) hfree

end PipeNumbers.Lowest

namespace Process

variable {t : Table} {n : PipeNumbers} {id : ℕ}

/-- The old number of the end that the child reads is closed last but one. -/
theorem childTable_childRead (h : n.childRead ≠ n.childWrite) :
    childTable t n n.childRead = none := by
  unfold childTable
  rw [Table.close_of_ne h.symm]
  exact Function.update_self ..

/-- With numbers above the standard ones the two `bind`s and the two `close`s do not meet. -/
theorem childTable_of_two_le (hn : n.toList.Nodup) (htwo : ∀ fd ∈ n.toList, 2 ≤ fd) (fd : ℕ) :
    childTable (withPipes t id n) n fd =
      if fd = 0 then some (.pipe id .reader)
      else if fd = 1 then some (.pipe (id + 1) .writer)
      else if fd ∈ n.toList then none
      else t fd := by
  have hread := withPipes_childRead (t := t) (k := id) hn
  have hwrite := withPipes_childWrite (t := t) (k := id) (n := n)
  simp only [PipeNumbers.toList, List.nodup_cons, List.mem_cons, List.not_mem_nil, or_false,
    not_or, forall_eq_or_imp, forall_eq] at hn htwo
  obtain ⟨⟨hab, hac, had⟩, ⟨hbc, hbd⟩, hcd, -⟩ := hn
  obtain ⟨ha, hb, hc, hd⟩ := htwo
  have hstdin : ((withPipes t id n).close n.parentWrite).close n.parentRead n.childRead =
      some (.pipe id .reader) := by
    rw [Table.close_of_ne (Ne.symm hac), Table.close_of_ne (Ne.symm hab), hread]
  have hstdout : (((withPipes t id n).close n.parentWrite).close n.parentRead).dup2 n.childRead 0
      n.childWrite = some (.pipe (id + 1) .writer) := by
    rw [Table.dup2_of_ne (by omega), Table.close_of_ne hcd, Table.close_of_ne hbd, hwrite]
  unfold childTable
  rw [Table.dup2, hstdout]
  rw [Table.dup2, hstdin]
  simp only [Table.close, withPipes, Table.makePipe, Function.update_apply, PipeNumbers.toList,
    List.mem_cons, List.not_mem_nil, or_false]
  grind

/-- **The child has its ends when 0 and 1 are open in the parent**, and only then. -/
theorem childEnds_iff (hnew : t.WithoutPipes id) (hn : n.Lowest t id) :
    (childTable (withPipes t id n) n).ChildEnds id ↔ t 0 ≠ none ∧ t 1 ≠ none := by
  obtain ⟨hab, hbc, hcd⟩ := hn.sorted
  constructor
  · intro h
    by_contra hfree
    have hlt : n.childRead < 2 := hn.childRead_lt_iff.mpr (by tauto)
    -- the number that is closed is one of the two that were bound
    have hclosed := childTable_childRead (t := withPipes t id n) (n := n) (by omega)
    rcases (by omega : n.childRead = 0 ∨ n.childRead = 1) with hfd | hfd
    · rw [hfd] at hclosed
      cases hclosed.symm.trans h.stdin
    · rw [hfd] at hclosed
      cases hclosed.symm.trans h.stdout
  · rintro ⟨h0, h1⟩
    have hle : 2 ≤ n.childRead := by
      by_contra hlt
      rcases hn.childRead_lt_iff.mp (by omega) with hfree | hfree
      · exact h0 hfree
      · exact h1 hfree
    have htwo : ∀ fd ∈ n.toList, 2 ≤ fd := by
      simp only [PipeNumbers.toList, List.mem_cons, List.not_mem_nil, or_false]
      omega
    have htable := @childTable_of_two_le t n id hn.nodup htwo
    refine ⟨by simp [htable], by simp [htable], fun fd side hfd => ?_⟩
    by_contra hother
    rw [not_or] at hother
    rw [htable, if_neg hother.1, if_neg hother.2] at hfd
    split_ifs at hfd
    · simp at hfd
    · exact hfd.elim (hnew fd side).1 (hnew fd side).2

/-- A parent with the three standard descriptors. -/
theorem childEnds_standard :
    (childTable (withPipes (fun fd => if fd < 3 then some .other else none) 0 ⟨3, 4, 5, 6⟩)
      ⟨3, 4, 5, 6⟩).ChildEnds 0 := by
  have hnew : Table.WithoutPipes (fun fd => if fd < 3 then some .other else none) 0 := by
    intro fd side
    dsimp only
    split_ifs <;> simp
  have hn : PipeNumbers.Lowest ⟨3, 4, 5, 6⟩ (fun fd => if fd < 3 then some .other else none) 0 := by
    constructor <;> decide
  exact (childEnds_iff hnew hn).mpr ⟨by decide, by decide⟩

/-- A parent without a standard input: the child is left without one as well. -/
theorem childEnds_fails :
    Table.WithoutPipes (fun fd => if fd = 1 ∨ fd = 2 then some .other else none) 0 ∧
      PipeNumbers.Lowest ⟨0, 3, 4, 5⟩ (fun fd => if fd = 1 ∨ fd = 2 then some .other else none) 0 ∧
      ¬ (childTable (withPipes (fun fd => if fd = 1 ∨ fd = 2 then some .other else none) 0
        ⟨0, 3, 4, 5⟩) ⟨0, 3, 4, 5⟩).ChildEnds 0 := by
  refine ⟨fun fd side => ?_, by constructor <;> decide, fun h => ?_⟩
  · dsimp only
    split_ifs <;> simp
  · exact absurd h.stdin (by decide)

end Process

end TpAdvanced
