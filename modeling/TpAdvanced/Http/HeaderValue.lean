import TpAdvanced.Http.HeaderBlock

/-!
# Spaces around a header value

`parse_header` computes where the value ends without a space behind it, and then gives
this position to `substr` as a count of bytes.  Counted from the beginning of the value
it reaches to the end of the line in any case, so the space stays.  It does not matter
where the table has a value for the name already and keeps that one.

## Main definitions

* `trimmedPair` — the name and the value in a line, as `header_end` is meant.
* `StoresTrimmed` — `parse_header` stores those.

## Main results

* `storesTrimmed_iff` — **which lines are stored as meant.**
* `parseHeaders_trims_iff` — which blocks are.
-/

namespace TpAdvanced

open CText

/-- A value without the space it may end with. -/
def trimEnd (value : Bytes) : Bytes := if value.getLast? = some 32 then value.dropLast else value

/-- A pair with such a value. -/
def trimValue (pair : Bytes × Bytes) : Bytes × Bytes := (pair.1, trimEnd pair.2)

/-- The name in a line, and the value without a space in front and one behind. -/
def trimmedPair (line : Bytes) : Bytes × Bytes := trimValue (headerPair line)

theorem trimEnd_eq_self_iff (value : Bytes) : trimEnd value = value ↔ value.getLast? ≠ some 32 := by
  unfold trimEnd
  split
  · rename_i hspace
    refine iff_of_false (fun h => ?_) (not_not_intro hspace)
    have hlen := congrArg List.length h
    have hne : value ≠ [] := by
      rintro rfl
      cases hspace
    have hpos := List.length_pos_of_ne_nil hne
    rw [List.length_dropLast] at hlen
    omega
  · rename_i hspace
    exact iff_of_true rfl hspace

variable [StdHash]

/-! ### Tables -/

/-- A value is stored unless the name has one. -/
theorem Headers.insert_eq_insert_iff (h : Headers) (k v v' : Bytes) :
    h.insert k v = h.insert k v' ↔ v = v' ∨ (h.find k).isSome = true := by
  rw [Headers.insert, Headers.insert]
  split
  · rename_i hold
    exact iff_of_true rfl (.inr hold)
  · rename_i hnew
    rw [or_iff_left hnew, List.append_cancel_left_eq]
    simp

theorem Headers.prefix_insertAll (ps : List (Bytes × Bytes)) : ∀ h : Headers,
    h <+: h.insertAll ps := by
  induction ps with
  | nil => exact fun h => List.prefix_refl h
  | cons p ps ih =>
    intro h
    refine List.IsPrefix.trans ?_ (ih (h.insert p.1 p.2))
    rw [Headers.insert]
    split
    · exact List.prefix_refl h
    · exact List.prefix_append h _

/-- **Trimming leaves a table as it is** exactly where it changes no pair that is the first
with its name. -/
theorem Headers.insertAll_trimValue_iff (ps : List (Bytes × Bytes)) : ∀ h : Headers,
    h.insertAll (ps.map trimValue) = h.insertAll ps ↔ ∀ before p after, ps = before ++ p :: after →
      p.2.getLast? ≠ some 32 ∨ ((h.insertAll before).find p.1).isSome = true := by
  induction ps with
  | nil => simp
  | cons p ps ih =>
    intro h
    have hfirst := Headers.insert_eq_insert_iff h p.1 (trimEnd p.2) p.2
    rw [trimEnd_eq_self_iff] at hfirst
    rw [List.forall_append_cons_iff fun before q =>
      q.2.getLast? ≠ some 32 ∨ ((h.insertAll before).find q.1).isSome = true, List.map_cons,
      Headers.insertAll_cons, Headers.insertAll_cons, Headers.insertAll_nil, ← hfirst]
    by_cases hsame : h.insert p.1 (trimEnd p.2) = h.insert p.1 p.2
    · have htrimmed : h.insert (trimValue p).1 (trimValue p).2 = h.insert p.1 p.2 := hsame
      rw [and_iff_right hsame, htrimmed]
      exact ih (h.insert p.1 p.2)
    · -- the tables differ in the new entry, and keep it
      refine iff_of_false (fun heq => hsame ?_) fun hand => hsame hand.1
      have hle := Headers.prefix_insertAll (ps.map trimValue) (h.insert p.1 (trimEnd p.2))
      have hle' := Headers.prefix_insertAll ps (h.insert p.1 p.2)
      refine (List.prefix_of_prefix_length_le hle (heq ▸ hle') ?_).eq_of_length ?_
      all_goals
        rw [Headers.insert, Headers.insert]
        split <;> simp

namespace HttpRequestParser

/-- `parse_header` stores the name and the trimmed value. -/
def StoresTrimmed (p : HttpRequestParser) (header : StringView) : Prop :=
  p.parseHeader header = .ok { p with
    headers := p.headers.insert (trimmedPair header.text).1 (trimmedPair header.text).2 }

/-- **A header line is stored as it is meant** exactly if the value, behind the space that is
removed in front, does not end with a space, or the name has a value already. -/
theorem storesTrimmed_iff (p : HttpRequestParser) (storage : ℕ) {line : Bytes} (after : Bytes)
    (hcolon : 58 ∈ line) :
    p.StoresTrimmed ⟨storage, line, crlf ++ after⟩ ↔
      (headerPair line).2.getLast? ≠ some 32 ∨
        (p.headers.find (headerPair line).1).isSome = true := by
  have hstored := @parseHeader_accepts _ p ⟨storage, line, crlf ++ after⟩ hcolon rfl
  rw [StoresTrimmed, hstored, ← trimEnd_eq_self_iff, eq_comm (a := trimEnd _),
    ← Headers.insert_eq_insert_iff]
  constructor
  · intro h
    exact congrArg HttpRequestParser.headers (Except.ok.inj h)
  · intro h
    exact congrArg (fun table => Except.ok { p with headers := table }) h

omit [StdHash] in
/-- The space in front goes, and there is none behind. -/
theorem storesTrimmed_in_front : letI := polynomialHash
    StoresTrimmed {} ⟨0, ascii "a: b", crlf⟩ := by
  let _ := polynomialHash
  exact (storesTrimmed_iff {} 0 [] (by decide)).mpr (.inl (by decide))

omit [StdHash] in
/-- `a:b` and a space: the space is stored. -/
theorem space_behind_value_stored :
    letI := polynomialHash
    ({} : HttpRequestParser).parseHeader ⟨0, ascii "a:b ", crlf⟩ =
        .ok { headers := [(ascii "a", ascii "b ")] } ∧
      ¬ ∀ (_ : StdHash) (p : HttpRequestParser) (storage : ℕ) (line after : Bytes), 58 ∈ line →
        p.StoresTrimmed ⟨storage, line, crlf ++ after⟩ := by
  refine ⟨by decide +kernel, fun h => ?_⟩
  let _ := polynomialHash
  have hstored := h polynomialHash {} 0 (ascii "a:b ") [] (by decide)
  revert hstored
  unfold StoresTrimmed
  decide +kernel

/-- **A block is stored as it is meant** exactly if that holds of the first line of each
name. -/
theorem parseHeaders_trims_iff (p : HttpRequestParser) {ls : List Bytes}
    (hls : ∀ l ∈ ls, IsLine l ∧ 58 ∈ l) {headers : StringView} (hh : headers.text = unlines ls) :
    p.parseHeaders headers = .ok { p with headers := p.headers.insertAll (ls.map trimmedPair) } ↔
      ∀ before pair after, ls.map headerPair = before ++ pair :: after →
        pair.2.getLast? ≠ some 32 ∨ ((p.headers.insertAll before).find pair.1).isSome = true := by
  have hstored := parseHeaders_eq (fun l hl => (hls l hl).1) p hh
  rw [headersResult, if_pos fun l hl => (hls l hl).2] at hstored
  rw [hstored, ← Headers.insertAll_trimValue_iff, List.map_map, eq_comm]
  constructor
  · intro h
    exact congrArg HttpRequestParser.headers (Except.ok.inj h)
  · intro h
    exact congrArg (fun table => Except.ok { p with headers := table }) h

end HttpRequestParser

end TpAdvanced
