import TpAdvanced.Http.MessageHead

/-!
# The length of a body

The length of a body is what `std::stoull` reads at the start of the Content-Length.
`stoull` skips white space, takes a sign, and stops at the first byte that is no
digit, so it reads lengths that are not written as lengths; what it does refuse, it
refuses with exceptions of its own.  Only a value of digits is framed as its sender
means it.

## Main definitions

* `IsLength` — a decimal number that fits.
* `BodyFramed` — what is to come of a message.

## Main results

* `bodyFramed_iff` — **which messages are framed**, however they arrive.
-/

namespace TpAdvanced

open CText Outcome HttpRequestParser

/-- Decimal digits, of a number below `2 ^ 64`. -/
def IsLength (v : Bytes) : Prop :=
  v ≠ [] ∧ (∀ b ∈ v, isDigit b = true) ∧ digitsValue v < 2 ^ 64

instance (v : Bytes) : Decidable (IsLength v) := inferInstanceAs (Decidable (_ ∧ _ ∧ _))

/-- What is to come of a message with the Content-Length `v`, when `rest` has come in
behind its head. -/
def BodyFramed (v rest : Bytes) : Except Thrown HttpRequestParser → Prop
  | .ok q => IsLength v ∧
    if digitsValue v ≤ rest.length then
      q.state = .done ∧ q.body.text = rest.take (digitsValue v)
    else q.state = .readingBody
  | .error e => ¬ IsLength v ∧ ∃ message code, e = .parsingException message code

theorem BodyFramed.congr {v rest : Bytes} {x y : Except Thrown HttpRequestParser}
    (h : Agree SameContents x y) : BodyFramed v rest x ↔ BodyFramed v rest y := by
  cases h with
  | ok h => rw [BodyFramed, BodyFramed, h.state, show _ = _ from h.body]
  | error e => exact Iff.rfl

/-- A message that is not rejected has a length. -/
theorem BodyFramed.isLength {v rest : Bytes} {x : Except Thrown HttpRequestParser}
    (h : BodyFramed v rest x) (hok : x.toBool = true) : IsLength v := by
  cases x with
  | ok q => exact h.1
  | error e => cases hok

/-- What `stoull` throws is no `ParsingException`. -/
theorem toLength_error {v : Bytes} {e : Thrown} (h : toLength v = .error e) :
    e = .invalidArgument ∨ e = .outOfRange := by
  unfold toLength at h
  split at h
  · cases h
  · cases h
    exact .inl rfl
  · cases h
    exact .inr rfl

/-- The first line under a name is one that the table takes for that name. -/
theorem exists_find_of_first [StdHash] {ps : List (Bytes × Bytes)} {q v : Bytes}
    (hv : (ps.find? fun p => p.1.map tolower = q.map tolower).map Prod.snd = some v) :
    ∃ u, Headers.find ps q = some u := by
  rw [Option.map_eq_some_iff] at hv
  obtain ⟨p, hp, -⟩ := hv
  have hsame : p.1.map tolower = q.map tolower := by simpa using List.find?_some hp
  rw [← Option.isSome_iff_exists, Headers.isSome_find]
  exact ⟨p, List.mem_of_find?_eq_some hp, sameKey_of_map_eq hsame⟩

variable [StdHash]

/-- **A message is framed as its sender means it** exactly if its Content-Length is a
number in digits that fits, and that is also the number of the header the table takes
for its Content-Length: the same one, unless the name of an earlier one has a NUL. -/
theorem bodyFramed_iff {line : Bytes} {ls : List Bytes} {m : HttpMethod} {target v : Bytes}
    {version : HttpVersion} (hhead : IsHead line ls) (hline : IsStartLine line m target version)
    (hm : m = .post ∨ m = .put)
    (hv : ((ls.map headerPair).find? fun p =>
      p.1.map tolower = (ascii "Content-Length").map tolower).map Prod.snd = some v) :
    (∀ (rest : Bytes) (ms : List StringView) (hne : ms ≠ []),
      (ms.IsChain fun m m' => m.text <+: m'.text) →
      (ms.getLast hne).text = messageText line ls rest →
        BodyFramed v rest (feedChain parse isDone {} ms)) ↔
    IsLength v ∧ ∃ u, Headers.find (ls.map headerPair) (ascii "Content-Length") = some u ∧
      toLength u = .ok (digitsValue v) := by
  obtain ⟨u, hu⟩ := exists_find_of_first hv
  have hsends : SendsBody line ls u :=
    ⟨hhead, ⟨m, m.text, target, version, List.prefix_refl _, hline.1, hline.2, hm⟩, hu⟩
  constructor
  · intro h
    have hwhole : ∀ rest, BodyFramed v rest (parse {} ⟨0, messageText line ls rest, []⟩) := by
      intro rest
      have hone := h rest [⟨0, messageText line ls rest, []⟩] (List.cons_ne_nil _ _)
        (.singleton _) rfl
      have hagree := (parse_chain (List.cons_ne_nil ⟨0, messageText line ls rest, []⟩ [])
        (.singleton _) rfl rfl).1
      exact (BodyFramed.congr hagree).mp hone
    cases hlength : toLength u with
    | error e =>
      have hframed := hwhole []
      rw [(parse_of_sendsBody hsends [] 0 []).1 e hlength] at hframed
      obtain ⟨-, message, code, rfl⟩ := hframed
      rcases toLength_error hlength with he | he <;> cases he
    | ok k =>
      -- a text that is as long as the shorter of the two lengths tells them apart
      let rest : Bytes := List.replicate (min k (digitsValue v)) 0
      have hlen : rest.length = min k (digitsValue v) := List.length_replicate
      obtain ⟨q, hq, hbody⟩ := (parse_of_sendsBody hsends rest 0 []).2 k hlength
      have hframed := hwhole rest
      rw [hq] at hframed
      refine ⟨hframed.1, u, hu, ?_⟩
      obtain ⟨-, hframed⟩ := hframed
      rcases Nat.lt_trichotomy k (digitsValue v) with hlt | rfl | hgt
      · rw [if_pos (by omega)] at hbody
        rw [if_neg (by omega), hbody.1] at hframed
        cases hframed
      · exact hlength
      · rw [if_neg (by omega)] at hbody
        rw [if_pos (by omega), hbody] at hframed
        cases hframed.1
  · rintro ⟨hlength, u', hu', hread⟩ rest ms hne hchain hlast
    obtain rfl : u = u' := Option.some.inj (hu.symm.trans hu')
    have hagree := (@parse_chain _ _ ms hne hchain hlast
      ⟨0, messageText line ls rest, []⟩ rfl).1
    rw [BodyFramed.congr hagree]
    obtain ⟨q, hq, hbody⟩ := (parse_of_sendsBody hsends rest 0 []).2 _ hread
    rw [hq]
    exact ⟨hlength, hbody⟩

omit [StdHash] in
/-- A body of two bytes, and one more byte behind it. -/
theorem bodyFramed_two : letI := polynomialHash
    BodyFramed (ascii "2") (ascii "vwx") (feedChain parse isDone {}
      [⟨0, messageText (ascii "PUT /k HTTP/1.1") [ascii "Content-Length: 2"] (ascii "v"), []⟩,
        ⟨0, messageText (ascii "PUT /k HTTP/1.1") [ascii "Content-Length: 2"] (ascii "vwx"), []⟩])
    := by
  have hhead : IsHead (ascii "PUT /k HTTP/1.1") [ascii "Content-Length: 2"] :=
    ⟨by decide, by decide, by decide⟩
  have hline : IsStartLine (ascii "PUT /k HTTP/1.1") .put (ascii "/k") .http1_1 :=
    ⟨⟨rfl, by decide, by decide⟩, by decide, fun hne => absurd (by decide) hne⟩
  have hfirst : (([ascii "Content-Length: 2"].map headerPair).find? fun p =>
      p.1.map tolower = (ascii "Content-Length").map tolower).map Prod.snd = some (ascii "2") := by
    decide +kernel
  have hchain : [(⟨0, messageText (ascii "PUT /k HTTP/1.1") [ascii "Content-Length: 2"]
        (ascii "v"), []⟩ : StringView),
      ⟨0, messageText (ascii "PUT /k HTTP/1.1") [ascii "Content-Length: 2"]
        (ascii "vwx"), []⟩].IsChain fun m m' => m.text <+: m'.text := by
    decide +kernel
  have hall := (@bodyFramed_iff polynomialHash _ _ _ _ _ _ hhead hline (.inr rfl) hfirst).mpr
    ⟨by decide +kernel, ascii "2", by decide +kernel, by decide +kernel⟩
  exact hall (ascii "vwx") _ (List.cons_ne_nil _ _) hchain rfl

omit [StdHash] in
/-- `Content-Length: +1` is taken for the length 1. -/
theorem signed_length_accepted :
    ¬ ∀ (_ : StdHash) (line : Bytes) (ls : List Bytes) (m : HttpMethod) (target v : Bytes)
      (version : HttpVersion), IsHead line ls → IsStartLine line m target version →
      m = .post ∨ m = .put →
      ((ls.map headerPair).find? fun p =>
        p.1.map tolower = (ascii "Content-Length").map tolower).map Prod.snd = some v →
      ∀ (rest : Bytes) (ms : List StringView) (hne : ms ≠ []),
        (ms.IsChain fun m m' => m.text <+: m'.text) →
        (ms.getLast hne).text = messageText line ls rest →
          BodyFramed v rest (feedChain parse isDone {} ms) := by
  intro h
  have hhead : IsHead (ascii "PUT /k HTTP/1.1") [ascii "Content-Length: +1"] :=
    ⟨by decide, by decide, by decide⟩
  have hline : IsStartLine (ascii "PUT /k HTTP/1.1") .put (ascii "/k") .http1_1 :=
    ⟨⟨rfl, by decide, by decide⟩, by decide, fun hne => absurd (by decide) hne⟩
  have hfirst : (([ascii "Content-Length: +1"].map headerPair).find? fun p =>
      p.1.map tolower = (ascii "Content-Length").map tolower).map Prod.snd = some (ascii "+1") := by
    decide +kernel
  have hframed := h polynomialHash _ _ _ _ _ _ hhead hline (.inr rfl) hfirst (ascii "v")
    [⟨0, _, []⟩] (List.cons_ne_nil _ _) (.singleton _) rfl
  exact absurd (hframed.isLength (by decide +kernel)) (by decide)

end TpAdvanced
