import TpAdvanced.Http.HeaderTable
import TpAdvanced.Http.Parser
import Mathlib.Data.List.Pairwise

/-!
# The hash and the equality of the tables

The equality of `Headers` and `QueryParameters` compares C strings, which end at the
first NUL, and their hash takes the whole strings.  So two names that differ behind a NUL
only are equal and have, in general, different hashes: a table keeps both of them, and a
lookup of one does not find the other.  `std::hash` may be anything; what is said here is
what holds whatever it is.

## Main definitions

* `DiffersBehindNul` — equal up to case as C strings, and not as whole strings.
* `separatingHash` — a hash that tells one string from all others.

## Main results

* `comparator_equivalence` — the equality is one.
* `hashes_agree_iff`, `finds_equal_iff`, `stores_once_iff` — the hashes, the lookups and the
  names stored.
* `keys_fit_iff` — **when the hash and the equality fit together.**
-/

namespace TpAdvanced

open CText

/-- The strings differ in case at most, up to the first NUL of each, and in more behind it. -/
def DiffersBehindNul (a b : Bytes) : Prop :=
  (cstr a).map tolower = (cstr b).map tolower ∧ a.map tolower ≠ b.map tolower

instance (a b : Bytes) : Decidable (DiffersBehindNul a b) :=
  inferInstanceAs (Decidable (_ ∧ _))

theorem comparator_iff (a b : Bytes) :
    caseInsensitiveComparator a b = true ↔ (cstr a).map tolower = (cstr b).map tolower := by
  rw [caseInsensitiveComparator, strcasecmpEq, beq_iff_eq]

/-- `CaseInsensitiveComparator` is an equivalence. -/
theorem comparator_equivalence :
    Equivalence fun a b : Bytes => caseInsensitiveComparator a b = true := by
  simp only [comparator_iff]
  exact ⟨fun _ => rfl, Eq.symm, Eq.trans⟩

theorem not_differsBehindNul_iff (a b : Bytes) :
    ¬ DiffersBehindNul a b ↔
      (caseInsensitiveComparator a b = true → a.map tolower = b.map tolower) := by
  rw [DiffersBehindNul, comparator_iff, not_and, not_not]

/-- One of the strings has a NUL. -/
theorem DiffersBehindNul.mem_zero {a b : Bytes} (h : DiffersBehindNul a b) : 0 ∈ a ∨ 0 ∈ b := by
  by_contra hnone
  rw [not_or] at hnone
  obtain ⟨hc, hne⟩ := h
  rw [cstr_of_notMem hnone.1, cstr_of_notMem hnone.2] at hc
  exact hne hc

/-! ### Telling strings apart -/

/-- A hash that tells one string from all others. -/
@[reducible] def separatingHash (t : Bytes) : StdHash := ⟨fun s => if s = t then 1 else 0⟩

theorem separatingHash_eq_iff (a b : Bytes) : letI := separatingHash (a.map tolower)
    caseInsensitiveHash b = caseInsensitiveHash a ↔ b.map tolower = a.map tolower := by
  change BitVec.ofNat 32 (if b.map tolower = a.map tolower then 1 else 0) =
    BitVec.ofNat 32 (if a.map tolower = a.map tolower then 1 else 0) ↔ _
  rw [if_pos rfl]
  split
  · rename_i h
    exact iff_of_true rfl h
  · rename_i h
    exact iff_of_false (by decide) h

section

variable [StdHash] {a b : Bytes}

theorem comparator_of_sameKey (h : sameKey a b = true) : caseInsensitiveComparator a b = true := by
  rw [sameKey, Bool.and_eq_true] at h
  exact h.2

theorem hash_of_sameKey (h : sameKey a b = true) :
    caseInsensitiveHash a = caseInsensitiveHash b := by
  rw [sameKey, Bool.and_eq_true, beq_iff_eq] at h
  exact h.1

end

/-! ### What a table holds -/

section

variable [StdHash]

theorem Headers.mem_insertAll (ps : List (Bytes × Bytes)) {e : Bytes × Bytes} : ∀ {h : Headers},
    e ∈ h.insertAll ps → e ∈ h ∨ e ∈ ps := by
  induction ps with
  | nil => exact fun he => .inl he
  | cons p ps ih =>
    intro h he
    rw [Headers.insertAll_cons] at he
    rcases ih he with hh | hps
    · rw [Headers.insert] at hh
      split at hh
      · exact .inl hh
      · rcases List.mem_append.mp hh with hh | hp
        · exact .inl hh
        · exact .inr (List.mem_cons.mpr (.inl (List.mem_singleton.mp hp)))
    · exact .inr (List.mem_cons_of_mem p hps)

/-- No two entries of a table are the same to it. -/
theorem Headers.pairwise_insertAll (ps : List (Bytes × Bytes)) : ∀ {h : Headers},
    h.Pairwise (fun e e' => ¬ sameKey e.1 e'.1) →
      (h.insertAll ps).Pairwise fun e e' => ¬ sameKey e.1 e'.1 := by
  induction ps with
  | nil => exact fun hh => hh
  | cons p ps ih =>
    intro h hh
    rw [Headers.insertAll_cons]
    refine ih ?_
    rw [Headers.insert]
    split
    · exact hh
    · rename_i hnew
      rw [Headers.isSome_find] at hnew
      refine List.pairwise_append.mpr ⟨hh, List.pairwise_singleton _ _, fun e he q hq hsame => ?_⟩
      obtain rfl := List.mem_singleton.mp hq
      exact hnew ⟨e, he, hsame⟩

/-- A lookup in a table that was filled by insertions. -/
theorem Headers.isSome_find_insertAll (ps : List (Bytes × Bytes)) (q : Bytes) :
    ((Headers.insertAll [] ps).find q).isSome = true ↔ ∃ p ∈ ps, sameKey p.1 q = true := by
  rw [Headers.find_insertAll, show Headers.find [] q = none from rfl, Option.none_or,
    Headers.isSome_find]

/-- An inserted name has an entry. -/
theorem Headers.exists_entry {ps : List (Bytes × Bytes)} {p : Bytes × Bytes} (hp : p ∈ ps) :
    ∃ e ∈ Headers.insertAll [] ps, sameKey e.1 p.1 = true :=
  Headers.isSome_find.mp ((Headers.isSome_find_insertAll ps p.1).mpr
    ⟨p, hp, sameKey_of_map_eq rfl⟩)

end

/-! ### The hash and the equality -/

/-- **The hashes of equal names** are the same unless they differ behind a NUL only. -/
theorem hashes_agree_iff (a b : Bytes) :
    (∀ _ : StdHash, caseInsensitiveComparator a b = true →
        caseInsensitiveHash a = caseInsensitiveHash b) ↔ ¬ DiffersBehindNul a b := by
  rw [not_differsBehindNul_iff]
  constructor
  · intro h hab
    have hhash := h (separatingHash (a.map tolower)) hab
    exact ((separatingHash_eq_iff a b).mp hhash.symm).symm
  · intro h _ hab
    rw [caseInsensitiveHash, caseInsensitiveHash, h hab]

/-- **A lookup finds an entry exactly for the names that equal an inserted one** if one of
these equals it as a whole. -/
theorem finds_equal_iff (ps : List (Bytes × Bytes)) (q : Bytes) :
    (∀ _ : StdHash, ((Headers.insertAll [] ps).find q).isSome = true ↔
        ∃ p ∈ ps, caseInsensitiveComparator p.1 q = true) ↔
      ((∃ p ∈ ps, caseInsensitiveComparator p.1 q = true) →
        ∃ p ∈ ps, p.1.map tolower = q.map tolower) := by
  constructor
  · intro h hequal
    let _ := separatingHash (q.map tolower)
    obtain ⟨p, hp, hsame⟩ := (Headers.isSome_find_insertAll ps q).mp ((h _).mpr hequal)
    exact ⟨p, hp, (separatingHash_eq_iff q p.1).mp (hash_of_sameKey hsame)⟩
  · intro h _
    rw [Headers.isSome_find_insertAll]
    constructor
    · rintro ⟨p, hp, hsame⟩
      exact ⟨p, hp, comparator_of_sameKey hsame⟩
    · intro hequal
      obtain ⟨p, hp, hwhole⟩ := h hequal
      exact ⟨p, hp, sameKey_of_map_eq hwhole⟩

/-- **No two equal names are stored** if no two of the inserted names differ behind a NUL
only. -/
theorem stores_once_iff (ps : List (Bytes × Bytes)) :
    (∀ _ : StdHash, (Headers.insertAll [] ps).Pairwise fun e e' =>
        ¬ caseInsensitiveComparator e.1 e'.1 = true) ↔
      ∀ p ∈ ps, ∀ p' ∈ ps, ¬ DiffersBehindNul p.1 p'.1 := by
  constructor
  · intro h p hp p' hp' hdiffers
    let _ := separatingHash (p.1.map tolower)
    have hpp' := (comparator_iff p.1 p'.1).mpr hdiffers.1
    obtain ⟨e, he, hep⟩ := Headers.exists_entry hp
    obtain ⟨e', he', hep'⟩ := Headers.exists_entry hp'
    -- the entries of the two names are different, and equal names
    have hne : e ≠ e' := by
      rintro rfl
      have hhash := (hash_of_sameKey hep').symm.trans (hash_of_sameKey hep)
      exact hdiffers.2 ((separatingHash_eq_iff p.1 p'.1).mp hhash).symm
    have hee' := comparator_equivalence.trans (comparator_of_sameKey hep)
      (comparator_equivalence.trans hpp' (comparator_equivalence.symm (comparator_of_sameKey hep')))
    have hsymm : Std.Symm fun e e' : Bytes × Bytes =>
        ¬ caseInsensitiveComparator e.1 e'.1 = true :=
      ⟨fun _ _ hno hyes => hno (comparator_equivalence.symm hyes)⟩
    exact (h _).forall he he' hne hee'
  · intro h _
    refine (Headers.pairwise_insertAll ps List.Pairwise.nil).imp_of_mem ?_
    intro e e' he he' hno hequal
    have hmem : ∀ x ∈ Headers.insertAll [] ps, x ∈ ps := fun x hx =>
      (Headers.mem_insertAll ps hx).resolve_left List.not_mem_nil
    have hwhole := (not_differsBehindNul_iff _ _).mp (h e (hmem e he) e' (hmem e' he')) hequal
    exact hno (sameKey_of_map_eq hwhole)

/-- **The hash and the equality of the tables.**  The equality is an equivalence.  Whatever
`std::hash` is, equal names have one hash, lookups find what equals an inserted name, and
no two equal names are stored, exactly as far as the names do not differ behind a NUL only. -/
theorem keys_fit_iff (a b : Bytes) (ps : List (Bytes × Bytes)) (q : Bytes) :
    (Equivalence fun a b : Bytes => caseInsensitiveComparator a b = true) ∧
      ((∀ _ : StdHash, caseInsensitiveComparator a b = true →
        caseInsensitiveHash a = caseInsensitiveHash b) ↔ ¬ DiffersBehindNul a b) ∧
      ((∀ _ : StdHash, ((Headers.insertAll [] ps).find q).isSome = true ↔
          ∃ p ∈ ps, caseInsensitiveComparator p.1 q = true) ↔
        ((∃ p ∈ ps, caseInsensitiveComparator p.1 q = true) →
          ∃ p ∈ ps, p.1.map tolower = q.map tolower)) ∧
      ((∀ _ : StdHash, (Headers.insertAll [] ps).Pairwise fun e e' =>
          ¬ caseInsensitiveComparator e.1 e'.1 = true) ↔
        ∀ p ∈ ps, ∀ p' ∈ ps, ¬ DiffersBehindNul p.1 p'.1) :=
  ⟨comparator_equivalence, hashes_agree_iff a b, finds_equal_iff ps q, stores_once_iff ps⟩

/-- The query `a\0b=1&a\0c=2`: both names are stored, and they are equal, with different
hashes. -/
theorem equal_names_stored :
    letI := polynomialHash
    ({} : HttpRequestParser).parseQueryParameters
        ⟨0, [97, 0, 98, 61, 49, 38, 97, 0, 99, 61, 50], []⟩ =
      .ok { queryParameters := [([97, 0, 98], [49]), ([97, 0, 99], [50])] } ∧
      ¬ ∀ (_ : StdHash) (a b : Bytes), caseInsensitiveComparator a b = true →
        caseInsensitiveHash a = caseInsensitiveHash b := by
  refine ⟨by decide +kernel, fun h => ?_⟩
  have hhash := h polynomialHash [97, 0, 98] [97, 0, 99] (by decide)
  revert hhash
  decide

end TpAdvanced
