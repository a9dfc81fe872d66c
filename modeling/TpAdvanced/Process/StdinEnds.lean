import TpAdvanced.Process.Pipes

/-!
# Who can keep a child waiting for the end of its input

A child sees the end of its standard input when nobody holds the write end of the
pipe.  A child that is forked while another object's `writer_` is open gets a copy of
it.  While that does not happen, only the parent ever holds such an end.

## Main definitions

* `NoWriterOpen` — the condition.
* `Apart` — the invariant.

## Main results

* `writers_gone` — **nobody holds an end that the parent has closed**.
-/

namespace TpAdvanced

open Machine Function

/-- No object has its `writer_` open, but at a number that the child overwrites. -/
def NoWriterOpen (s : Processes) : ProcessEvent → Prop
  | .construct _ _ => ∀ i p fd, s.objects i = some p → p.writer = some fd → fd = 0 ∨ fd = 1
  | _ => True

/-- The table has no write end of one of these pipes. -/
def Table.Clean (pipes : ℕ → Prop) (t : Table) : Prop :=
  ∀ fd id, t fd = some (.pipe id .writer) → ¬ pipes id

/-- The pipes that children read. -/
def Processes.IsStdin (s : Processes) (id : ℕ) : Prop := ∃ i p, s.objects i = some p ∧ p.stdin = id

/-- **The invariant**: the children hold no write end of such a pipe, the parent holds
it by the `writer_` of its object. -/
structure Apart (s : Processes) : Prop where
  parent : ∃ t, s.tables 0 = some t ∧ ∀ fd id, t fd = some (.pipe id .writer) → s.IsStdin id →
    ∃ i p, s.objects i = some p ∧ p.writer = some fd ∧ p.stdin = id
  child : ∀ pid t, pid ≠ 0 → s.tables pid = some t → t.Clean s.IsStdin
  fresh : ∀ pid t, s.tables pid = some t → t.Clean (s.nextPipe ≤ ·)
  stdin_lt : ∀ id, s.IsStdin id → id < s.nextPipe
  stdin_inj : ∀ i j p q, s.objects i = some p → s.objects j = some q → p.stdin = q.stdin → i = j
  nextPid_pos : 0 < s.nextPid

/-! ### Tables -/

namespace Table

variable {t : Table} {fd fd' new id k : ℕ} {f : OpenFile} {pipes pipes' : ℕ → Prop}

theorem of_close {d : Descriptor} (h : (t.close d) fd = some f) : d ≠ some fd ∧ t fd = some f := by
  cases d with
  | none => exact ⟨nofun, h⟩
  | some fd' =>
    rw [close, Function.update_apply] at h
    by_cases hfd : fd = fd'
    · rw [if_pos hfd] at h
      cases h
    · rw [if_neg hfd] at h
      exact ⟨fun heq => hfd (Option.some.inj heq).symm, h⟩

theorem close_of_ne (h : fd' ≠ fd) : (t.close fd') fd = t fd := Function.update_of_ne h.symm _ _

theorem of_dup2 (h : (t.dup2 fd' new) fd = some f) :
    (fd = new ∧ t fd' = some f) ∨ ((fd = new → t fd' = none) ∧ t fd = some f) := by
  unfold dup2 at h
  cases hsrc : t fd' with
  | none =>
    rw [hsrc] at h
    exact .inr ⟨fun _ => rfl, h⟩
  | some g =>
    simp only [hsrc, Function.update_apply] at h
    by_cases hfd : fd = new
    · rw [if_pos hfd] at h
      exact .inl ⟨hfd, h⟩
    · rw [if_neg hfd] at h
      exact .inr ⟨fun heq => absurd heq hfd, h⟩

theorem dup2_of_ne (h : fd ≠ new) : (t.dup2 fd' new) fd = t fd := by
  unfold dup2
  cases t fd' with
  | none => rfl
  | some g => exact Function.update_of_ne h _ _

theorem Clean.close (h : t.Clean pipes) (d : Descriptor) : (t.close d).Clean pipes :=
  fun fd id hfd => h fd id (of_close hfd).2

theorem Clean.dup2 (h : t.Clean pipes) (fd new : ℕ) : (t.dup2 fd new).Clean pipes := by
  intro fd' id hfd'
  rcases of_dup2 hfd' with ⟨-, hsrc⟩ | ⟨-, hsame⟩
  · exact h fd id hsrc
  · exact h fd' id hsame

end Table

namespace Process

variable {t : Table} {n : PipeNumbers} {k fd id : ℕ} {f : OpenFile} {pipes : ℕ → Prop}

theorem withPipes_childRead (h : n.toList.Nodup) :
    withPipes t k n n.childRead = some (.pipe k .reader) := by
  simp [PipeNumbers.toList] at h
  simp [withPipes, Table.makePipe, h]

theorem withPipes_childWrite : withPipes t k n n.childWrite = some (.pipe (k + 1) .writer) := by
  simp [withPipes, Table.makePipe]

/-- The write ends in the table before `fork`. -/
theorem writer_of_withPipes (h : withPipes t k n fd = some (.pipe id .writer)) :
    t fd = some (.pipe id .writer) ∨ (fd = n.parentWrite ∧ id = k) ∨
      (fd = n.childWrite ∧ id = k + 1) := by
  simp only [withPipes, Table.makePipe, Function.update_apply] at h
  split_ifs at h with h₁ h₂ h₃ h₄
  · cases h
    exact .inr (.inr ⟨h₁, rfl⟩)
  · cases h
  · cases h
    exact .inr (.inl ⟨h₃, rfl⟩)
  · cases h
  · exact .inl h

/-- Behind the two `bind`s the numbers 0 and 1 are ends of the child's own pipes. -/
theorem writer_of_binds {a e : ℕ} (hread : t a = some (.pipe k .reader))
    (hwrite : t e = some (.pipe (k + 1) .writer))
    (h : (t.dup2 a 0).dup2 e 1 fd = some (.pipe id .writer)) :
    id = k + 1 ∨ (fd ≠ 0 ∧ fd ≠ 1 ∧ t fd = some (.pipe id .writer)) := by
  have hzero : t.dup2 a 0 0 = some (.pipe k .reader) := by
    rw [Table.dup2, hread]
    exact Function.update_self ..
  -- what is bound to 1: the own write end, if 0 has not taken its number
  have hone : t.dup2 a 0 e = some (.pipe k .reader) ∨
      t.dup2 a 0 e = some (.pipe (k + 1) .writer) := by
    by_cases h0 : e = 0
    · rw [h0]
      exact .inl hzero
    · rw [Table.dup2_of_ne h0]
      exact .inr hwrite
  rcases Table.of_dup2 h with ⟨-, hsrc⟩ | ⟨hfd1, h⟩
  · rcases hone with hone | hone
    · cases hone.symm.trans hsrc
    · cases hone.symm.trans hsrc
      exact .inl rfl
  · have h1 : fd ≠ 1 := by
      intro h1
      rcases hone with hone | hone
      · cases hone.symm.trans (hfd1 h1)
      · cases hone.symm.trans (hfd1 h1)
    have h0 : fd ≠ 0 := by
      rintro rfl
      cases hzero.symm.trans h
    rw [Table.dup2_of_ne h0] at h
    exact .inr ⟨h0, h1, h⟩

/-- **A child is left without a write end that another child waits for**, if the ones
in its copy are at the numbers 0 and 1. -/
theorem childTable_clean (hn : n.toList.Nodup) (hk : ¬ pipes (k + 1))
    (hold : ∀ fd id, t fd = some (.pipe id .writer) → pipes id → fd = 0 ∨ fd = 1) :
    (childTable (withPipes t k n) n).Clean pipes := by
  intro fd id hfd hid
  unfold childTable at hfd
  obtain ⟨-, hfd⟩ := Table.of_close hfd
  obtain ⟨-, hfd⟩ := Table.of_close hfd
  have hdistinct := hn
  simp only [PipeNumbers.toList, List.nodup_cons, List.mem_cons, List.not_mem_nil, or_false, not_or]
    at hdistinct
  obtain ⟨⟨hab, hac, -⟩, ⟨-, hbd⟩, hcd, -⟩ := hdistinct
  have hread : ((withPipes t k n).close n.parentWrite).close n.parentRead n.childRead =
      some (.pipe k .reader) := by
    rw [Table.close_of_ne (Ne.symm hac), Table.close_of_ne (Ne.symm hab), withPipes_childRead hn]
  have hwrite : ((withPipes t k n).close n.parentWrite).close n.parentRead n.childWrite =
      some (.pipe (k + 1) .writer) := by
    rw [Table.close_of_ne hcd, Table.close_of_ne hbd, withPipes_childWrite]
  rcases writer_of_binds hread hwrite hfd with rfl | ⟨h0, h1, hfd⟩
  · exact hk hid
  · obtain ⟨-, hfd⟩ := Table.of_close hfd
    obtain ⟨hne, hfd⟩ := Table.of_close hfd
    rcases writer_of_withPipes hfd with hfd | ⟨rfl, -⟩ | ⟨-, rfl⟩
    · exact (hold fd id hfd hid).elim h0 h1
    · exact hne rfl
    · exact hk hid

end Process

/-! ### What a step keeps -/

namespace Apart

variable {s : Processes} {t : Table} {i pid : ℕ} {n : PipeNumbers} {p : Process}

/-- The only table of the start. -/
theorem clean_start {opened : ℕ → Bool} {pipes : ℕ → Prop}
    (ht : (Processes.start opened).tables pid = some t) : t.Clean pipes := by
  intro fd id hfd
  rw [Processes.tables_start, Function.update_apply] at ht
  split_ifs at ht
  cases ht
  dsimp only at hfd
  split_ifs at hfd
  cases hfd

theorem start (opened : ℕ → Bool) : Apart (.start opened) where
  parent := by
    refine ⟨fun fd => if opened fd then some .other else none, ?_, ?_⟩
    · rw [Processes.tables_start, Function.update_self]
    · rintro fd id - ⟨i, p, hi, -⟩
      cases hi
  child := fun _ _ _ ht => clean_start ht
  fresh := fun _ _ ht => clean_start ht
  stdin_lt := by
    rintro id ⟨i, p, hi, -⟩
    cases hi
  stdin_inj := nofun
  nextPid_pos := Nat.one_pos

theorem isStdin_construct (hi : s.objects i = none) {id : ℕ} :
    (s.construct t i n).IsStdin id ↔ s.IsStdin id ∨ id = s.nextPipe := by
  constructor
  · rintro ⟨j, q, hq, rfl⟩
    rw [Processes.objects_construct, Function.update_apply] at hq
    by_cases hj : j = i
    · rw [if_pos hj] at hq
      cases hq
      exact .inr rfl
    · rw [if_neg hj] at hq
      exact .inl ⟨j, q, hq, rfl⟩
  · rintro (⟨j, q, hq, rfl⟩ | rfl)
    · have hj : j ≠ i := by
        rintro rfl
        cases hi.symm.trans hq
      exact ⟨j, q, (Function.update_of_ne hj _ _).trans hq, rfl⟩
    · exact ⟨i, _, Function.update_self .., rfl⟩

/-- A write end in an older table belongs to an older pipe. -/
theorem isStdin_of_construct (h : Apart s) (hi : s.objects i = none) {t' : Table}
    (ht' : s.tables pid = some t') {fd id : ℕ} (hfd : t' fd = some (.pipe id .writer))
    (hid : (s.construct t i n).IsStdin id) : s.IsStdin id := by
  rcases (isStdin_construct hi).mp hid with hid | rfl
  · exact hid
  · exact absurd (Nat.le_refl _) (h.fresh pid t' ht' fd _ hfd)

/-- The tables behind the constructor. -/
theorem tables_construct_cases {t' : Table} (ht' : (s.construct t i n).tables pid = some t') :
    t' = Process.childTable (Process.withPipes t s.nextPipe n) n ∨
      (pid = 0 ∧ t' = Process.parentTable (Process.withPipes t s.nextPipe n) n) ∨
      (pid ≠ 0 ∧ s.tables pid = some t') := by
  rw [Processes.tables_construct, Function.update_apply, Function.update_apply] at ht'
  split_ifs at ht' with h₁ h₂
  · exact .inl (Option.some.inj ht').symm
  · exact .inr (.inl ⟨h₂, (Option.some.inj ht').symm⟩)
  · exact .inr (.inr ⟨h₂, ht'⟩)

theorem fresh_construct (h : Apart s) (ht : s.tables 0 = some t) {t' : Table}
    (ht' : (s.construct t i n).tables pid = some t') : t'.Clean (s.nextPipe + 2 ≤ ·) := by
  have hpipes : (Process.withPipes t s.nextPipe n).Clean (s.nextPipe + 2 ≤ ·) := by
    intro fd id hfd hle
    rcases Process.writer_of_withPipes hfd with hfd | ⟨-, rfl⟩ | ⟨-, rfl⟩
    · exact h.fresh 0 t ht fd id hfd (by omega)
    · omega
    · omega
  rcases tables_construct_cases ht' with rfl | ⟨-, rfl⟩ | ⟨-, ht'⟩
  · unfold Process.childTable
    exact (((((hpipes.close _).close _).dup2 _ _).dup2 _ _).close _).close _
  · unfold Process.parentTable
    exact (hpipes.close _).close _
  · intro fd id hfd hle
    exact h.fresh pid t' ht' fd id hfd (by omega)

theorem construct (h : Apart s) (ht : s.tables 0 = some t) (hfree : n.Free t)
    (hi : s.objects i = none) (hcond : NoWriterOpen s (.construct i n)) :
    Apart (s.construct t i n) := by
  obtain ⟨t', ht', hparent⟩ := h.parent
  cases ht.symm.trans ht'
  have hkept : ∀ j q, s.objects j = some q → (s.construct t i n).objects j = some q := by
    intro j q hq
    refine (Function.update_of_ne ?_ _ _).trans hq
    rintro rfl
    cases hi.symm.trans hq
  have hnext : ¬ (s.construct t i n).IsStdin (s.nextPipe + 1) := by
    rw [isStdin_construct hi]
    rintro (hid | hid)
    · have := h.stdin_lt _ hid
      omega
    · omega
  refine ⟨⟨Process.parentTable (Process.withPipes t s.nextPipe n) n, ?_, ?_⟩, ?_,
    fun pid t' ht' => h.fresh_construct ht ht', ?_, ?_, Nat.succ_pos _⟩
  · rw [Processes.tables_construct, Function.update_of_ne (Nat.ne_of_lt h.nextPid_pos),
      Function.update_self]
  · -- the parent has the new write end as the `writer_` of the object, and no other new one
    intro fd id hfd hid
    unfold Process.parentTable at hfd
    obtain ⟨hne, hfd⟩ := Table.of_close hfd
    obtain ⟨-, hfd⟩ := Table.of_close hfd
    rcases Process.writer_of_withPipes hfd with hfd | ⟨rfl, rfl⟩ | ⟨rfl, -⟩
    · obtain ⟨j, q, hq, hwriter, hstdin⟩ := hparent fd id hfd (h.isStdin_of_construct hi ht hfd hid)
      exact ⟨j, q, hkept j q hq, hwriter, hstdin⟩
    · exact ⟨i, _, Function.update_self .., rfl, rfl⟩
    · exact absurd rfl hne
  · intro pid t' hpid ht'
    rcases tables_construct_cases ht' with rfl | ⟨h0, -⟩ | ⟨-, ht'⟩
    · -- no writer is open, so the child inherits none; it closes its copy of the new one
      refine Process.childTable_clean hfree.1 hnext ?_
      intro fd id hfd hid
      obtain ⟨j, q, hq, hwriter, -⟩ := hparent fd id hfd (h.isStdin_of_construct hi ht hfd hid)
      exact hcond j q fd hq hwriter
    · exact absurd h0 hpid
    · intro fd id hfd hid
      exact h.child pid t' hpid ht' fd id hfd (h.isStdin_of_construct hi ht' hfd hid)
  · intro id hid
    change id < s.nextPipe + 2
    rcases (isStdin_construct hi).mp hid with hid | rfl
    · have := h.stdin_lt id hid
      omega
    · omega
  · -- the pipe is new
    intro j j' q q' hq hq' hstdin
    rw [Processes.objects_construct, Function.update_apply] at hq hq'
    split_ifs at hq hq' with h₁ h₂ h₂
    · rw [h₁, h₂]
    · cases hq
      have := h.stdin_lt q'.stdin ⟨j', q', hq', rfl⟩
      dsimp only at hstdin
      omega
    · cases hq'
      have := h.stdin_lt q.stdin ⟨j, q, hq, rfl⟩
      dsimp only at hstdin
      omega
    · exact h.stdin_inj j j' q q' hq hq' hstdin

theorem isStdin_update {p' : Process} (hp : s.objects i = some p) (hstdin : p'.stdin = p.stdin)
    (tables : ℕ → Option Table) (nextPid id : ℕ) :
    Processes.IsStdin ⟨tables, update s.objects i (some p'), nextPid, s.nextPipe⟩ id ↔
      s.IsStdin id := by
  constructor
  · rintro ⟨j, q, hq, rfl⟩
    simp only [Function.update_apply] at hq
    split_ifs at hq
    · cases hq
      exact ⟨i, p, hp, hstdin.symm⟩
    · exact ⟨j, q, hq, rfl⟩
  · rintro ⟨j, q, hq, rfl⟩
    by_cases hj : j = i
    · subst hj
      cases hp.symm.trans hq
      exact ⟨j, p', Function.update_self .., hstdin⟩
    · exact ⟨j, q, (Function.update_of_ne hj _ _).trans hq, rfl⟩

/-- The parent closes descriptors of an object, among them its `writer_`. -/
theorem closeParent (h : Apart s) (ht : s.tables 0 = some t) (hp : s.objects i = some p)
    {t' : Table} {p' : Process} (hstdin : p'.stdin = p.stdin)
    (hclosed : ∀ fd f, t' fd = some f → p.writer ≠ some fd ∧ t fd = some f) :
    Apart { s with
      tables := update s.tables 0 (some t')
      objects := update s.objects i (some p') } := by
  obtain ⟨t₀, ht₀, hparent⟩ := h.parent
  cases ht.symm.trans ht₀
  have hiff := isStdin_update hp hstdin (update s.tables 0 (some t')) s.nextPid
  refine ⟨⟨t', ?_, ?_⟩, ?_, ?_, ?_, ?_, h.nextPid_pos⟩
  · simp only [Function.update_self]
  · -- what is closed is the write end of this object, and those of the others stay
    intro fd id hfd hid
    obtain ⟨hne, hfd⟩ := hclosed fd _ hfd
    obtain ⟨j, q, hq, hwriter, hid'⟩ := hparent fd id hfd ((hiff id).mp hid)
    refine ⟨j, q, (Function.update_of_ne ?_ _ _).trans hq, hwriter, hid'⟩
    rintro rfl
    cases hp.symm.trans hq
    exact hne hwriter
  · intro pid t₁ hpid ht₁ fd id hfd hid
    exact h.child pid t₁ hpid ((Function.update_of_ne hpid _ _).symm.trans ht₁) fd id hfd
      ((hiff id).mp hid)
  · intro pid t₁ ht₁
    simp only [Function.update_apply] at ht₁
    split_ifs at ht₁
    · cases ht₁
      exact fun fd id hfd => h.fresh 0 t ht fd id (hclosed fd _ hfd).2
    · exact h.fresh pid t₁ ht₁
  · exact fun id hid => h.stdin_lt id ((hiff id).mp hid)
  · intro j j' q q' hq hq' heq
    simp only [Function.update_apply] at hq hq'
    split_ifs at hq hq' with h₁ h₂ h₂
    · rw [h₁, h₂]
    · cases hq
      exact h₁.trans (h.stdin_inj i j' p q' hp hq' (hstdin.symm.trans heq))
    · cases hq'
      exact (h.stdin_inj j i q p hq hp (heq.trans hstdin)).trans h₂.symm
    · exact h.stdin_inj j j' q q' hq hq' heq

/-- Something happens below the parent: every table comes from one that was there. -/
theorem below (h : Apart s) {tables : ℕ → Option Table} {nextPid : ℕ}
    (hzero : tables 0 = s.tables 0) (hpos : 0 < nextPid)
    (hfrom : ∀ pid t, pid ≠ 0 → tables pid = some t → ∃ pid' t', pid' ≠ 0 ∧
      s.tables pid' = some t' ∧ ∀ pipes, t'.Clean pipes → t.Clean pipes) :
    Apart { s with tables := tables, nextPid := nextPid } := by
  obtain ⟨t₀, ht₀, hparent⟩ := h.parent
  refine ⟨⟨t₀, hzero.trans ht₀, hparent⟩, ?_, ?_, h.stdin_lt, h.stdin_inj, hpos⟩
  · intro pid t hpid ht
    obtain ⟨pid', t', hpid', ht', hclean⟩ := hfrom pid t hpid ht
    exact hclean _ (h.child pid' t' hpid' ht')
  · intro pid t ht
    by_cases hpid : pid = 0
    · rw [hpid] at ht
      exact h.fresh 0 t (hzero.symm.trans ht)
    · obtain ⟨pid', t', -, ht', hclean⟩ := hfrom pid t hpid ht
      exact hclean _ (h.fresh pid' t' ht')

/-- A child changes its own table, or leaves one to a process of its own. -/
theorem onChild (h : Apart s) (hpid : pid ≠ 0) (ht : s.tables pid = some t) {pid' nextPid : ℕ}
    (hpid' : pid' ≠ 0) (hpos : 0 < nextPid) {t' : Option Table}
    (hclean : ∀ t₁, t' = some t₁ → ∀ pipes, t.Clean pipes → t₁.Clean pipes) :
    Apart { s with tables := update s.tables pid' t', nextPid := nextPid } := by
  refine h.below (Function.update_of_ne hpid'.symm _ _) hpos ?_
  intro pid₁ t₁ hpid₁ ht₁
  rw [Function.update_apply] at ht₁
  split_ifs at ht₁
  · exact ⟨pid, t, hpid, ht, hclean t₁ ht₁⟩
  · exact ⟨pid₁, t₁, hpid₁, ht₁, fun _ hc => hc⟩

/-- What a step of a child is. -/
theorem onChild_eq_some {f : Table → Processes} {s' : Processes}
    (h : s.onChild pid f = some s') : pid ≠ 0 ∧ ∃ t, s.tables pid = some t ∧ s' = f t := by
  unfold Processes.onChild at h
  split_ifs at h with h0
  obtain ⟨t, ht, rfl⟩ := Option.map_eq_some_iff.mp h
  exact ⟨h0, t, ht, rfl⟩

/-- **A step keeps the invariant**, if it meets the condition. -/
theorem step (h : Apart s) {e : ProcessEvent} {s' : Processes} (hcond : NoWriterOpen s e)
    (hstep : s.step e = some s') : Apart s' := by
  cases e with
  | construct i n =>
    simp only [Processes.step, Option.bind_eq_bind, Option.bind_eq_some_iff] at hstep
    obtain ⟨t, ht, hstep⟩ := hstep
    split_ifs at hstep with hok
    cases hstep
    exact h.construct ht hok.1 (Option.isNone_iff_eq_none.mp hok.2) hcond
  | constructThrows =>
    cases hstep
    exact h
  | closeStdin i =>
    simp only [Processes.step, Option.bind_eq_bind, Option.bind_eq_some_iff] at hstep
    obtain ⟨t, ht, p, hp, hstep⟩ := hstep
    cases hstep
    exact h.closeParent ht hp rfl fun fd f => Table.of_close
  | close i | destroy i =>
    simp only [Processes.step, Option.bind_eq_bind, Option.bind_eq_some_iff] at hstep
    obtain ⟨t, ht, p, hp, hstep⟩ := hstep
    cases hstep
    exact h.closeParent ht hp rfl fun fd f hfd => Table.of_close (Table.of_close hfd).2
  | childForks pid =>
    obtain ⟨hpid, t, ht, rfl⟩ := onChild_eq_some hstep
    -- the table of the child's child is a copy
    refine h.onChild hpid ht (Nat.pos_iff_ne_zero.mp h.nextPid_pos) (Nat.succ_pos _) ?_
    rintro t₁ ⟨⟩ pipes hclean
    exact hclean
  | childCloses pid fd =>
    obtain ⟨hpid, t, ht, rfl⟩ := onChild_eq_some hstep
    refine h.onChild hpid ht hpid h.nextPid_pos ?_
    rintro t₁ ⟨⟩ pipes hclean
    exact hclean.close fd
  | childDups pid fd new =>
    obtain ⟨hpid, t, ht, rfl⟩ := onChild_eq_some hstep
    refine h.onChild hpid ht hpid h.nextPid_pos ?_
    rintro t₁ ⟨⟩ pipes hclean
    exact hclean.dup2 fd new
  | childExits pid =>
    obtain ⟨hpid, t, ht, rfl⟩ := onChild_eq_some hstep
    exact h.onChild hpid ht hpid h.nextPid_pos nofun

/-- Under the invariant a closed `writer_` was the last one of its pipe. -/
theorem not_holds (h : Apart s) (hp : s.objects i = some p) (hclosed : p.writer = none) (pid : ℕ) :
    ¬ s.Holds pid p.stdin := by
  rintro ⟨t, fd, ht, hfd⟩
  have hstdin : s.IsStdin p.stdin := ⟨i, p, hp, rfl⟩
  by_cases hpid : pid = 0
  · obtain ⟨t₀, ht₀, hparent⟩ := h.parent
    rw [hpid] at ht
    cases ht.symm.trans ht₀
    obtain ⟨j, q, hq, hwriter, heq⟩ := hparent fd _ hfd hstdin
    obtain rfl := h.stdin_inj j i q p hq hp heq
    cases hp.symm.trans hq
    cases hclosed.symm.trans hwriter
  · exact h.child pid t hpid ht fd _ hfd hstdin

end Apart

/-! ### Runs -/

/-- Once a `writer_` is closed, at most the child of its object holds such an end. -/
def WritersGone (s : Processes) : Prop :=
  ∀ i p, s.objects i = some p → p.writer = none → ∀ pid, pid ≠ p.childPid → ¬ s.Holds pid p.stdin

/-- **Nobody holds an end that the parent has closed**, not even the child, if no
process is started while another object's `writer_` is open. -/
theorem writers_gone {opened : ℕ → Bool} {events : List ProcessEvent} {s : Processes}
    (hcond : Along Processes.step (fun s e _ => NoWriterOpen s e) (.start opened) events)
    (hrun : run Processes.step (.start opened) events = some s) :
    WritersGone s ∧
      ∀ i p, s.objects i = some p → p.writer = none → ¬ s.Holds p.childPid p.stdin := by
  rw [← List.append_nil events] at hcond
  have hapart : Apart s := by
    refine invariant_along (fun s _ => Apart s) ?_ (.start opened) hcond hrun
    intro s e _ s' h hcond hstep
    exact h.step hcond hstep
  exact ⟨fun i p hp hclosed pid _ => hapart.not_holds hp hclosed pid,
    fun i p hp hclosed => hapart.not_holds hp hclosed p.childPid⟩

/-- A process is started behind the end of another one's input. -/
theorem writers_gone_in_turn :
    ∃ s, run Processes.step (.start (· ≤ 2))
        [.construct 0 ⟨3, 4, 5, 6⟩, .closeStdin 0, .construct 1 ⟨3, 4, 6, 7⟩, .destroy 1] = some s ∧
      WritersGone s := by
  let events : List ProcessEvent :=
    [.construct 0 ⟨3, 4, 5, 6⟩, .closeStdin 0, .construct 1 ⟨3, 4, 6, 7⟩, .destroy 1]
  have hcond : Along Processes.step (fun s e _ => NoWriterOpen s e) (.start (· ≤ 2)) events := by
    refine ⟨nofun, ?_⟩
    rintro _ ⟨⟩
    refine ⟨trivial, ?_⟩
    rintro _ ⟨⟩
    refine ⟨?_, ?_⟩
    · intro i p fd hp hwriter
      by_cases hi : i = 0
      · subst hi
        cases hp
        cases hwriter
      · simp [Processes.construct, Processes.closeStdin, Processes.start, hi] at hp
    · rintro _ ⟨⟩
      exact ⟨trivial, fun _ _ => trivial⟩
  obtain ⟨s, hrun⟩ : ∃ s, run Processes.step (.start (· ≤ 2)) events = some s := ⟨_, rfl⟩
  exact ⟨s, hrun, (writers_gone hcond hrun).1⟩

/-- The second process inherits the write end of the first one's input and keeps it. -/
theorem later_child_holds :
    ¬ ∀ (opened : ℕ → Bool) (events : List ProcessEvent) (s : Processes),
      run Processes.step (.start opened) events = some s → WritersGone s := by
  intro h
  obtain ⟨s, hrun, hs⟩ : ∃ s, run Processes.step (.start (· ≤ 2))
      [.construct 0 ⟨3, 4, 5, 6⟩, .construct 1 ⟨3, 6, 7, 8⟩, .closeStdin 0] = some s ∧
      (s.objects 0 = some ⟨1, some 5, none, 0⟩ ∧
        (s.tables 2).map (· 4) = some (some (.pipe 0 .writer))) := by
    refine ⟨_, rfl, ?_⟩
    decide +kernel
  obtain ⟨t, ht, hfd⟩ := Option.map_eq_some_iff.mp hs.2
  exact h _ _ s hrun 0 _ hs.1 rfl 2 (by decide) ⟨t, 4, ht, hfd⟩

end TpAdvanced
