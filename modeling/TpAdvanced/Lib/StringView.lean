import TpAdvanced.Lib.CText
import TpAdvanced.Lib.Search

/-!
# String views

A `std::string_view` is a window into storage it does not own.  The model keeps
the bytes of the window, the bytes the storage holds behind it (an unchecked
read past the end of the window finds those), and the generation of the storage,
so that a view outliving its storage can be told from a live one.

An operation that the standard library checks, or whose precondition it leaves
to the caller, returns `none` where the check fails or the precondition does
not hold.

## Main definitions

* `StringView` — a window into storage.
* `StringView.substr`, `removePrefix`, `find`, `read`, `back` — its operations.
-/

namespace CText

/-- A window into storage. -/
structure StringView where
  /-- Which generation of the storage the window looks into. -/
  storage : ℕ
  /-- The bytes in the window. -/
  text : Bytes
  /-- The bytes the storage holds behind the window. -/
  after : Bytes
  deriving DecidableEq, Repr

namespace StringView

/-- The size of the window. -/
def size (v : StringView) : ℕ := v.text.length

/-- Where a pattern first occurs; `none` stands for `npos`. -/
def find (v : StringView) (pat : Bytes) : Option ℕ := List.findSub pat v.text

/-- `substr(pos, n)`, which throws when `pos` lies past the end; `none` in place
of `n` stands for `npos`. -/
def substr (v : StringView) (pos : ℕ) (n : Option ℕ) : Option StringView :=
  if pos ≤ v.size then
    let rest := v.text.drop pos
    let len := n.getD rest.length
    some ⟨v.storage, rest.take len, rest.drop len ++ v.after⟩
  else none

/-- `remove_prefix(n)`, whose precondition is that the view holds `n` bytes. -/
def removePrefix (v : StringView) (n : ℕ) : Option StringView :=
  if n ≤ v.size then some { v with text := v.text.drop n } else none

/-- `operator[]`, which reads the storage without a check against the size. -/
def read (v : StringView) (i : ℕ) : Option UInt8 := (v.text ++ v.after)[i]?

/-- `back()`, whose precondition is a nonempty view. -/
def back (v : StringView) : Option UInt8 := v.text.getLast?

/-- `starts_with`. -/
def startsWith (v : StringView) (pat : Bytes) : Bool := pat.isPrefixOf v.text

theorem substr_of_le {v : StringView} {pos : ℕ} (h : pos ≤ v.size) (n : Option ℕ) :
    v.substr pos n = some ⟨v.storage, (v.text.drop pos).take (n.getD (v.text.drop pos).length),
      (v.text.drop pos).drop (n.getD (v.text.drop pos).length) ++ v.after⟩ := by
  simp only [substr, if_pos h]

/-- Cutting off the first `n` bytes. -/
theorem substr_zero_some (v : StringView) (n : ℕ) :
    v.substr 0 (some n) = some ⟨v.storage, v.text.take n, v.text.drop n ++ v.after⟩ := by
  simp [substr_of_le]

theorem removePrefix_of_le {v : StringView} {n : ℕ} (h : n ≤ v.size) :
    v.removePrefix n = some { v with text := v.text.drop n } := by
  simp only [removePrefix, if_pos h]

/-- The first occurrence of a byte that the text in front of it does not have. -/
theorem find_byte {v : StringView} {u t : Bytes} {c : UInt8} (hv : v.text = u ++ c :: t)
    (hu : c ∉ u) : v.find [c] = some u.length := by
  have hself := @List.findSub_append_self _ _ c [] u hu t
  rw [find, hv]
  simpa using hself

theorem size_of_text {v : StringView} {u t : Bytes} {c : UInt8} (hv : v.text = u ++ c :: t) :
    v.size = u.length + 1 + t.length := by
  rw [size, hv, List.length_append, List.length_cons]
  omega

theorem find_byte_none {v : StringView} {c : UInt8} (h : c ∉ v.text) :
    v.find [c] = none := List.findSub_eq_none_of_notMem h

end StringView

end CText
