import TpAdvanced.Http.Protocol

/-!
# The case-insensitive tables

Two keys are the same to a table when their hashes agree and their C strings differ
in case at most.  This is an equivalence, and for keys without a NUL it is equality
up to case.  `insert` keeps the entry that is there, so a table that was filled by
insertions alone answers every lookup with the first pair inserted under that key.

## Main definitions

* `FirstEntries` — a table has one entry for each key, the first one.

## Main results

* `sameKey_iff` — keys without a NUL.
* `find_insertAll` — **a lookup gives the first pair inserted.**
* `insertAll_perm_iff` — when a table holds all that was inserted.
-/

namespace TpAdvanced

open CText

/-- The table has exactly one entry for each key that occurs in the list, up to case:
the first pair with that key. -/
structure FirstEntries (ps : List (Bytes × Bytes)) (table : Headers) : Prop where
  distinct : table.Pairwise fun e e' => e.1.map tolower ≠ e'.1.map tolower
  mem_iff : ∀ e, e ∈ table ↔ ∃ before after, ps = before ++ e :: after ∧
    ∀ p ∈ before, p.1.map tolower ≠ e.1.map tolower

variable [StdHash]

/-! ### The same key -/

omit [StdHash] in
theorem cstr_of_notMem {s : Bytes} (h : 0 ∉ s) : cstr s = s := by
  refine List.takeWhile_eq_self_iff.mpr fun b hb => ?_
  have hne : b ≠ 0 := fun hb0 => h (hb0 ▸ hb)
  simpa using hne

/-- Names without a NUL are the same key if they differ in case only. -/
theorem sameKey_iff {a b : Bytes} (ha : 0 ∉ a) (hb : 0 ∉ b) :
    sameKey a b = true ↔ a.map tolower = b.map tolower := by
  rw [sameKey, caseInsensitiveComparator, strcasecmpEq, cstr_of_notMem ha, cstr_of_notMem hb,
    Bool.and_eq_true, beq_iff_eq, beq_iff_eq]
  refine ⟨fun h => h.2, fun h => ⟨?_, h⟩⟩
  rw [caseInsensitiveHash, caseInsensitiveHash, h]

omit [StdHash] in
theorem tolower_eq_zero_iff (b : UInt8) : tolower b = 0 ↔ b = 0 := by
  unfold tolower
  split
  · rename_i h
    simp only [UInt8.le_iff_toNat_le, ← UInt8.toNat_inj, UInt8.toNat_add, UInt8.reduceToNat] at h ⊢
    omega
  · exact Iff.rfl

/-- Keys that differ in case only are the same, with a NUL or without. -/
theorem sameKey_of_map_eq {a b : Bytes} (h : a.map tolower = b.map tolower) :
    sameKey a b = true := by
  have hcstr : ∀ s : Bytes, (cstr s).map tolower = (s.map tolower).takeWhile (· ≠ 0) := by
    intro s
    rw [cstr, List.takeWhile_map]
    congr 2
    funext b
    simp [tolower_eq_zero_iff]
  rw [sameKey, caseInsensitiveHash, caseInsensitiveHash, caseInsensitiveComparator, strcasecmpEq,
    hcstr, hcstr, h, beq_self_eq_true, beq_self_eq_true, Bool.and_self]

theorem sameKey_comm (a b : Bytes) : sameKey a b = sameKey b a := by
  simp only [sameKey, caseInsensitiveComparator, strcasecmpEq, Bool.beq_comm]

/-- Of two keys that are the same, a lookup may be for either. -/
theorem sameKey_congr {a b : Bytes} (h : sameKey a b = true) (c : Bytes) :
    sameKey a c = sameKey b c := by
  simp only [sameKey, caseInsensitiveComparator, strcasecmpEq, Bool.and_eq_true,
    beq_iff_eq] at h ⊢
  rw [h.1, h.2]

/-! ### Lookups -/

theorem Headers.isSome_find {h : Headers} {k : Bytes} :
    (h.find k).isSome = true ↔ ∃ e ∈ h, sameKey e.1 k = true := by
  simp [Headers.find]

theorem Headers.find_append (h h' : Headers) (q : Bytes) :
    Headers.find (h ++ h') q = (h.find q).or (h'.find q) := by
  rw [Headers.find, Headers.find, Headers.find, List.find?_append, Option.map_or]

theorem Headers.find_congr {a b : Bytes} (hab : sameKey a b = true) (h : Headers) :
    h.find a = h.find b := by
  rw [Headers.find, Headers.find]
  congr 2
  funext e
  rw [sameKey_comm, sameKey_congr hab, sameKey_comm]

theorem Headers.find_insert (h : Headers) (k v q : Bytes) :
    (h.insert k v).find q = (h.find q).or (Headers.find [(k, v)] q) := by
  rw [Headers.insert]
  split
  · rename_i hold
    cases hsame : sameKey k q with
    | true =>
      rw [Headers.find_congr hsame] at hold
      obtain ⟨w, hw⟩ := Option.isSome_iff_exists.mp hold
      rw [hw, Option.some_or]
    | false => simp [Headers.find, hsame]
  · exact Headers.find_append h [(k, v)] q

/-- **A lookup gives what the table held before, or the first pair inserted.** -/
theorem Headers.find_insertAll (ps : List (Bytes × Bytes)) (q : Bytes) : ∀ h : Headers,
    (h.insertAll ps).find q = (h.find q).or (Headers.find ps q) := by
  induction ps with
  | nil =>
    intro h
    rw [Headers.insertAll_nil]
    exact (Option.or_none).symm
  | cons p ps ih =>
    intro h
    rw [Headers.insertAll_cons, ih, Headers.find_insert, Option.or_assoc, ← Headers.find_append]
    rfl

/-- The first pair with this key, for keys without a NUL. -/
theorem Headers.find_eq_of_notMem {ps : List (Bytes × Bytes)} (hps : ∀ p ∈ ps, 0 ∉ p.1) {q : Bytes}
    (hq : 0 ∉ q) :
    Headers.find ps q = (ps.find? fun p => p.1.map tolower = q.map tolower).map Prod.snd := by
  rw [Headers.find]
  congr 1
  induction ps with
  | nil => rfl
  | cons p ps ih =>
    have hsame : sameKey p.1 q = decide (p.1.map tolower = q.map tolower) := by
      rw [Bool.eq_iff_iff, sameKey_iff (hps p List.mem_cons_self) hq, decide_eq_true_eq]
    rw [List.find?_cons, List.find?_cons, hsame,
      ih fun p' hp' => hps p' (List.mem_cons_of_mem p hp')]

/-! ### The entries -/

omit [StdHash] in
/-- One more pair, with a key that occurs before: no new entry. -/
theorem FirstEntries.concat_old {ps : List (Bytes × Bytes)} {table : Headers} {p : Bytes × Bytes}
    (h : FirstEntries ps table) (hold : ∃ q ∈ ps, q.1.map tolower = p.1.map tolower) :
    FirstEntries (ps ++ [p]) table where
  distinct := h.distinct
  mem_iff e := by
    rw [h.mem_iff]
    constructor
    · rintro ⟨before, after, rfl, hnew⟩
      exact ⟨before, after ++ [p], by simp, hnew⟩
    · rintro ⟨before, after, heq, hnew⟩
      rcases List.eq_nil_or_concat after with rfl | ⟨after, a, rfl⟩
      · -- the last pair is not the first one with its key
        obtain ⟨rfl, hpe⟩ := List.append_inj' heq rfl
        obtain ⟨q, hq, hqp⟩ := hold
        rw [List.cons_eq_cons] at hpe
        exact absurd (hpe.1 ▸ hqp) (hnew q hq)
      · refine ⟨before, after, ?_, hnew⟩
        rw [List.concat_eq_append, ← List.cons_append, ← List.append_assoc] at heq
        exact (List.append_inj' heq rfl).1

omit [StdHash] in
/-- One more pair, with a new key: one more entry. -/
theorem FirstEntries.concat_new {ps : List (Bytes × Bytes)} {table : Headers} {p : Bytes × Bytes}
    (h : FirstEntries ps table) (hnew : ∀ q ∈ ps, q.1.map tolower ≠ p.1.map tolower) :
    FirstEntries (ps ++ [p]) (table ++ [p]) where
  distinct := by
    rw [List.pairwise_append]
    refine ⟨h.distinct, List.pairwise_singleton _ _, fun e he q hq => ?_⟩
    obtain ⟨before, after, rfl, -⟩ := (h.mem_iff e).mp he
    obtain rfl := List.mem_singleton.mp hq
    exact hnew e (List.mem_append_right before List.mem_cons_self)
  mem_iff e := by
    rw [List.mem_append, h.mem_iff, List.mem_singleton]
    constructor
    · rintro (⟨before, after, rfl, hfirst⟩ | rfl)
      · exact ⟨before, after ++ [p], by simp, hfirst⟩
      · exact ⟨ps, [], rfl, hnew⟩
    · rintro ⟨before, after, heq, hfirst⟩
      rcases List.eq_nil_or_concat after with rfl | ⟨after, a, rfl⟩
      · obtain ⟨-, hpe⟩ := List.append_inj' heq rfl
        rw [List.cons_eq_cons] at hpe
        exact .inr hpe.1.symm
      · refine .inl ⟨before, after, ?_, hfirst⟩
        rw [List.concat_eq_append, ← List.cons_append, ← List.append_assoc] at heq
        exact (List.append_inj' heq rfl).1

/-- **What a table filled by insertions holds**, for keys without a NUL. -/
theorem firstEntries_insertAll {ps : List (Bytes × Bytes)} (hps : ∀ p ∈ ps, 0 ∉ p.1) :
    FirstEntries ps (Headers.insertAll [] ps) := by
  induction ps using List.reverseRecOn with
  | nil => exact ⟨List.Pairwise.nil, by simp⟩
  | append_singleton ps p ih =>
    have hfront := ih fun q hq => hps q (List.mem_append_left [p] hq)
    have hp : 0 ∉ p.1 := hps p (List.mem_append_right ps (List.mem_singleton.mpr rfl))
    have hold : ((Headers.insertAll [] ps).find p.1).isSome = true ↔
        ∃ q ∈ ps, q.1.map tolower = p.1.map tolower := by
      rw [Headers.find_insertAll, show Headers.find [] p.1 = none from rfl, Option.none_or,
        Headers.isSome_find]
      refine exists_congr fun q => and_congr_right fun hq => ?_
      exact sameKey_iff (hps q (List.mem_append_left [p] hq)) hp
    have hlast : Headers.insertAll [] (ps ++ [p]) = (Headers.insertAll [] ps).insert p.1 p.2 :=
      List.foldl_append
    rw [hlast, Headers.insert]
    split
    · rename_i hsome
      exact hfront.concat_old (hold.mp hsome)
    · rename_i hnone
      rw [hold] at hnone
      refine hfront.concat_new fun q hq hqp => hnone ⟨q, hq, hqp⟩

/-! ### How many entries a table holds -/

theorem Headers.length_insertAll_le (ps : List (Bytes × Bytes)) : ∀ h : Headers,
    (h.insertAll ps).length ≤ h.length + ps.length := by
  induction ps with
  | nil =>
    intro h
    exact Nat.le_refl _
  | cons p ps ih =>
    intro h
    have hle := ih (h.insert p.1 p.2)
    rw [Headers.insertAll_cons, List.length_cons]
    refine hle.trans ?_
    rw [Headers.insert]
    split
    · omega
    · rw [List.length_append, List.length_singleton]
      omega

/-- Pairs with different keys are all kept. -/
theorem Headers.insertAll_of_pairwise (ps : List (Bytes × Bytes)) : ∀ h : Headers,
    (h ++ ps).Pairwise (fun p q => ¬ sameKey p.1 q.1) → h.insertAll ps = h ++ ps := by
  induction ps with
  | nil =>
    intro h _
    rw [Headers.insertAll_nil, List.append_nil]
  | cons p ps ih =>
    intro h hdistinct
    have hnew : ¬ (h.find p.1).isSome = true := by
      rw [Headers.isSome_find]
      rintro ⟨e, he, hsame⟩
      exact (List.pairwise_append.mp hdistinct).2.2 e he p List.mem_cons_self hsame
    have hinsert : h.insert p.1 p.2 = h ++ [p] := by rw [Headers.insert, if_neg hnew]
    rw [Headers.insertAll_cons, hinsert, ih (h ++ [p]) (by simpa using hdistinct)]
    simp

/-- A table that has grown by every pair was given different keys. -/
theorem Headers.pairwise_of_length (ps : List (Bytes × Bytes)) : ∀ h : Headers,
    (h.insertAll ps).length = h.length + ps.length →
      (∀ p ∈ ps, ∀ e ∈ h, ¬ sameKey e.1 p.1) ∧ ps.Pairwise fun p q => ¬ sameKey p.1 q.1 := by
  induction ps with
  | nil =>
    intro h _
    simp
  | cons p ps ih =>
    intro h hlen
    rw [Headers.insertAll_cons, List.length_cons] at hlen
    by_cases hold : (h.find p.1).isSome = true
    · -- this pair is dropped, and the others cannot make up for it
      have hle := Headers.length_insertAll_le ps (h.insert p.1 p.2)
      rw [Headers.insert, if_pos hold] at hle hlen
      omega
    · have hinsert : h.insert p.1 p.2 = h ++ [p] := by rw [Headers.insert, if_neg hold]
      rw [hinsert] at hlen
      obtain ⟨hfar, hrest⟩ := ih (h ++ [p]) (by
        rw [hlen, List.length_append, List.length_singleton]
        omega)
      rw [Headers.isSome_find] at hold
      refine ⟨?_, List.pairwise_cons.mpr ⟨?_, hrest⟩⟩
      · intro q hq e he hsame
        rcases List.mem_cons.mp hq with rfl | hq
        · exact hold ⟨e, he, hsame⟩
        · exact hfar q hq e (List.mem_append_left _ he) hsame
      · intro q hq
        exact hfar q hq p (List.mem_append_right _ (List.mem_singleton.mpr rfl))

/-- **A table holds all that was inserted** if no two of the keys are the same. -/
theorem insertAll_perm_iff (ps : List (Bytes × Bytes)) :
    (Headers.insertAll [] ps).Perm ps ↔ ps.Pairwise fun p q => ¬ sameKey p.1 q.1 := by
  constructor
  · intro hperm
    refine (Headers.pairwise_of_length ps [] ?_).2
    rw [hperm.length_eq, List.length_nil, Nat.zero_add]
  · intro hdistinct
    rw [Headers.insertAll_of_pairwise ps [] hdistinct]
    exact List.Perm.refl ps

end TpAdvanced
