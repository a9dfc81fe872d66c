import TpAdvanced.Http.QueryString

/-!
# The request line

A request line is a method, a target and a version with a space behind each of the
first two.  `parse_start_line` finds the two spaces and hands the parts on; it asks
the first word only for a beginning that is a method.

## Main definitions

* `SplitsInto` — a line in three parts.
* `WellFormedTarget`, `IsStartLine` — the grammar.
* `FollowsGrammar` — `parse_start_line` accepts the lines of the grammar, with the
  right parts, and rejects the others with the right code.

## Main results

* `parseStartLine_accepts`, `parseStartLine_cases` — what `parse_start_line` does.
* `followsGrammar_iff` — **it follows the grammar** unless the first word of an
  otherwise good line is longer than the method it begins with.
-/

namespace TpAdvanced

open CText Outcome

/-! ### The grammar -/

/-- The line has these parts, with a space behind the first two. -/
structure SplitsInto (line word target version : Bytes) : Prop where
  eq : line = word ++ 32 :: (target ++ 32 :: version)
  word_clean : 32 ∉ word
  target_clean : 32 ∉ target

/-- Text behind the question mark, if there is any, is a query. -/
def WellFormedQuery (text : Bytes) : Prop := text ≠ [] → ∀ c ∈ components text, 61 ∈ c

/-- The parameters in the text behind the question mark. -/
def queryParametersOf (text : Bytes) : List (Bytes × Bytes) :=
  if text = [] then [] else parameters text

/-- The path is not empty, and text behind the question mark is a query. -/
structure WellFormedTarget (target : Bytes) : Prop where
  path_ne : (List.cutAt 63 target).1 ≠ []
  query : WellFormedQuery (List.cutAt 63 target).2

/-- The parameters in a target. -/
def targetParameters (target : Bytes) : List (Bytes × Bytes) :=
  queryParametersOf (List.cutAt 63 target).2

/-- The line is a method, a target and a version. -/
def IsStartLine (line : Bytes) (m : HttpMethod) (target : Bytes) (v : HttpVersion) : Prop :=
  SplitsInto line m.text target v.text ∧ WellFormedTarget target

/-- The first word is longer than the method it begins with, in a line that has
nothing else wrong. -/
def LongerMethod (line : Bytes) : Prop :=
  ∃ m word target v, m.text <+: word ∧ word ≠ HttpMethod.text m ∧
    SplitsInto line word target (HttpVersion.text v) ∧ WellFormedTarget target

theorem eq_of_append_cons {c : UInt8} {u u' t t' : Bytes} (hu : c ∉ u) (hu' : c ∉ u')
    (h : u ++ c :: t = u' ++ c :: t') : u = u' ∧ t = t' := by
  have hcut := List.cutAt_append_cons hu t
  rw [h, List.cutAt_append_cons hu' t', Prod.mk.injEq] at hcut
  exact ⟨hcut.1.symm, hcut.2.symm⟩

/-- **A line has at most one such decomposition.** -/
theorem SplitsInto.unique {line word word' target target' version version' : Bytes}
    (h : SplitsInto line word target version) (h' : SplitsInto line word' target' version') :
    word = word' ∧ target = target' ∧ version = version' := by
  obtain ⟨hword, hrest⟩ := eq_of_append_cons h.word_clean h'.word_clean (h.eq.symm.trans h'.eq)
  exact ⟨hword, eq_of_append_cons h.target_clean h'.target_clean hrest⟩

theorem HttpMethod.text_clean (m : HttpMethod) : 32 ∉ m.text := by cases m <;> decide

/-- No method begins with another one. -/
theorem HttpMethod.eq_of_prefix {m m' : HttpMethod} (h : m.text <+: m'.text) : m = m' := by
  revert h
  cases m <;> cases m' <;> decide

theorem HttpVersion.text_injective {v v' : HttpVersion} (h : v.text = v'.text) : v = v' := by
  revert h
  cases v <;> cases v' <;> decide

theorem IsStartLine.unique {line : Bytes} {m m' : HttpMethod} {target target' : Bytes}
    {v v' : HttpVersion} (h : IsStartLine line m target v) (h' : IsStartLine line m' target' v') :
    m = m' ∧ target = target' ∧ v = v' := by
  obtain ⟨hword, htarget, hversion⟩ := h.1.unique h'.1
  exact ⟨HttpMethod.eq_of_prefix (hword ▸ List.prefix_refl _), htarget,
    HttpVersion.text_injective hversion⟩

/-- Which prefix a word has does not depend on what is behind the space. -/
theorem prefix_append_cons_iff {c : UInt8} {pat u : Bytes} (hpat : c ∉ pat) (t : Bytes) :
    pat <+: u ++ c :: t ↔ pat <+: u := by
  constructor
  · intro h
    rcases Nat.lt_or_ge u.length pat.length with hlt | hle
    · -- the pattern would reach the space
      have hlong : u ++ [c] <+: pat := by
        refine List.prefix_of_prefix_length_le ⟨t, ?_⟩ h ?_
        · simp
        · simpa using Nat.succ_le_of_lt hlt
      exact absurd (hlong.subset (by simp)) hpat
    · exact List.prefix_of_prefix_length_le h (List.prefix_append _ _) hle
  · intro h
    exact h.trans (List.prefix_append _ _)

/-! ### The parts of the line -/

namespace HttpRequestParser

/-- The first word. -/
theorem parseRequestToken_accepts (p : HttpRequestParser) {message : StringView}
    {word rest : Bytes} {m : HttpMethod} (hm : message.text = word ++ 32 :: rest)
    (hword : 32 ∉ word) (hbegins : m.text <+: word) :
    p.parseRequestToken message = .ok ({ p with method := m }, word.length + 1) := by
  have hstarts : ∀ m' : HttpMethod, message.startsWith m'.text = decide (m' = m) := by
    intro m'
    rw [StringView.startsWith, Bool.eq_iff_iff, List.isPrefixOf_iff_prefix, hm,
      prefix_append_cons_iff m'.text_clean, decide_eq_true_eq]
    constructor
    · intro h
      rcases List.prefix_or_prefix_of_prefix h hbegins with h | h
      · exact HttpMethod.eq_of_prefix h
      · exact (HttpMethod.eq_of_prefix h).symm
    · rintro rfl
      exact hbegins
  have hget := hstarts .get
  have hpost := hstarts .post
  have hdelete := hstarts .delete
  have hput := hstarts .put
  simp only [HttpMethod.text] at hget hpost hdelete hput
  rw [parseRequestToken, StringView.find_byte hm hword]
  simp only [hget, hpost, hdelete, hput]
  cases m <;> simp

theorem parseRequestToken_rejects (p : HttpRequestParser) {message : StringView}
    {word rest : Bytes} (hm : message.text = word ++ 32 :: rest) (hword : 32 ∉ word)
    (hno : ∀ m : HttpMethod, ¬ m.text <+: word) :
    p.parseRequestToken message =
      .error (.parsingException "invalid request token" .badRequest) := by
  have hstarts : ∀ m : HttpMethod, message.startsWith m.text = false := by
    intro m
    rw [StringView.startsWith, ← Bool.not_eq_true, List.isPrefixOf_iff_prefix, hm,
      prefix_append_cons_iff m.text_clean]
    exact hno m
  have hget := hstarts .get
  have hpost := hstarts .post
  have hdelete := hstarts .delete
  have hput := hstarts .put
  simp only [HttpMethod.text] at hget hpost hdelete hput
  rw [parseRequestToken, StringView.find_byte hm hword]
  simp only [hget, hpost, hdelete, hput]
  rfl

theorem parseVersion_text (p : HttpRequestParser) {version : StringView} {v : HttpVersion}
    (hv : version.text = v.text) : p.parseVersion version = .ok { p with version := v } := by
  cases v with
  | http1_0 =>
    rw [parseVersion, hv, if_neg (by decide), if_pos (by rfl)]
  | http1_1 => rw [parseVersion, hv, if_pos (by rfl)]

theorem parseVersion_rejects (p : HttpRequestParser) {version : StringView}
    (hno : ∀ v : HttpVersion, version.text ≠ v.text) :
    p.parseVersion version =
      .error (.parsingException "unsupported HTTP version" .httpVersionNotSupported) := by
  have hnew : version.text ≠ ascii "HTTP/1.1" := hno .http1_1
  have hold : version.text ≠ ascii "HTTP/1.0" := hno .http1_0
  rw [parseVersion, if_neg hnew, if_neg hold]
  rfl

variable [StdHash]

/-- The query behind a question mark. -/
theorem parseQuery_accepts (p : HttpRequestParser) {message : StringView} {path text : Bytes}
    (hm : message.text = path ++ 63 :: text) (hquery : WellFormedQuery text) :
    p.parseQuery message (some path.length) = .ok { p with
      queryParameters := Headers.insertAll p.queryParameters (queryParametersOf text) } := by
  have hsize := StringView.size_of_text hm
  by_cases hnil : text = []
  · rw [parseQuery, if_neg (by rw [hsize, hnil]; simp), queryParametersOf, if_pos hnil]
    rfl
  · have hpos := List.length_pos_of_ne_nil hnil
    have hcut : message.text = (path ++ [63]) ++ text := by rw [hm]; simp
    obtain ⟨view, hview, htext, -⟩ := substr_back hcut
    rw [List.length_append, List.length_singleton] at hview
    rw [parseQuery, if_pos (by omega), hview, ok_bind, parseQueryParameters_eq, htext,
      if_pos (hquery hnil), queryParametersOf, if_neg hnil]

theorem parseQuery_rejects (p : HttpRequestParser) {message : StringView} {path text : Bytes}
    (hm : message.text = path ++ 63 :: text) (hquery : ¬ WellFormedQuery text) :
    p.parseQuery message (some path.length) = .error invalidQueryParameter := by
  have hsize := StringView.size_of_text hm
  obtain ⟨hnil, hbad⟩ := Classical.not_imp.mp hquery
  have hpos := List.length_pos_of_ne_nil hnil
  have hcut : message.text = (path ++ [63]) ++ text := by rw [hm]; simp
  obtain ⟨view, hview, htext, -⟩ := substr_back hcut
  rw [List.length_append, List.length_singleton] at hview
  rw [parseQuery, if_pos (by omega), hview, ok_bind, parseQueryParameters_eq, htext, if_neg hbad]

/-- The target, whose path is what is in front of the first question mark. -/
theorem parseUrl_accepts (p : HttpRequestParser) {message : StringView} {target : Bytes}
    (hm : message.text = target) (h : WellFormedTarget target) :
    ∃ path : StringView, path.text = (List.cutAt 63 target).1 ∧ path.storage = message.storage ∧
      p.parseUrl message = .ok { p with
        queryParameters := Headers.insertAll p.queryParameters (targetParameters target)
        path := path } := by
  by_cases hmark : 63 ∈ target
  · obtain ⟨front, text, rfl, hfront⟩ := List.eq_append_cons_of_mem hmark
    have hcut := List.cutAt_append_cons hfront text
    obtain ⟨hne, hquery⟩ := h
    rw [hcut] at hne hquery
    have hsize : front.length ≠ 0 := fun h => hne (List.length_eq_zero_iff.mp h)
    obtain ⟨path, hpath, htext, hstorage, -⟩ := substr_front hm
    refine ⟨path, by rw [htext, hcut], hstorage, ?_⟩
    rw [parseUrl, StringView.find_byte hm hfront, parseQuery_accepts p hm hquery, ok_bind, hpath,
      ok_bind, if_neg (by rwa [StringView.size, htext]), targetParameters, hcut]
    rfl
  · have hcut : List.cutAt 63 target = (target, []) := List.cutAt_of_notMem hmark
    have hne := h.path_ne
    rw [hcut] at hne
    have hsize : target.length ≠ 0 := fun h => hne (List.length_eq_zero_iff.mp h)
    have hsub : substr message 0 none = .ok message := by simp [substr, StringView.substr]
    refine ⟨message, by rw [hm, hcut], rfl, ?_⟩
    rw [parseUrl, StringView.find_byte_none (by rwa [hm]), parseQuery, ok_bind, hsub, ok_bind,
      if_neg (by rwa [StringView.size, hm]), targetParameters, hcut]
    rfl

theorem parseUrl_rejects (p : HttpRequestParser) {message : StringView} {target : Bytes}
    (hm : message.text = target) (h : ¬ WellFormedTarget target) :
    ∃ text, p.parseUrl message = .error (.parsingException text .badRequest) := by
  by_cases hmark : 63 ∈ target
  · obtain ⟨front, text, rfl, hfront⟩ := List.eq_append_cons_of_mem hmark
    have hcut := List.cutAt_append_cons hfront text
    by_cases hquery : WellFormedQuery text
    · have hnil : front = [] := by
        by_contra hne
        exact h ⟨by rwa [hcut], by rwa [hcut]⟩
      obtain ⟨path, hpath, htext, -, -⟩ := substr_front hm
      refine ⟨"invalid resource target", ?_⟩
      rw [parseUrl, StringView.find_byte hm hfront, parseQuery_accepts p hm hquery, ok_bind, hpath,
        ok_bind, if_pos (by rw [StringView.size, htext, hnil]; rfl)]
      rfl
    · refine ⟨"invalid query parameter", ?_⟩
      rw [parseUrl, StringView.find_byte hm hfront, parseQuery_rejects p hm hquery]
      rfl
  · have hcut : List.cutAt 63 target = (target, []) := List.cutAt_of_notMem hmark
    have hnil : target = [] := by
      by_contra hne
      exact h ⟨by rwa [hcut], by rw [hcut]; exact fun h => absurd rfl h⟩
    have hsub : substr message 0 none = .ok message := by simp [substr, StringView.substr]
    refine ⟨"invalid resource target", ?_⟩
    rw [parseUrl, StringView.find_byte_none (by rwa [hm]), parseQuery, ok_bind, hsub, ok_bind,
      if_pos (by rw [StringView.size, hm, hnil]; rfl)]
    rfl

/-- What `parse_path` finds in front of the version. -/
theorem parsePath_accepts (p : HttpRequestParser) {message : StringView} {target rest : Bytes}
    (hm : message.text = target ++ 32 :: rest) (hclean : 32 ∉ target)
    (h : WellFormedTarget target) :
    ∃ path : StringView, path.text = (List.cutAt 63 target).1 ∧ path.storage = message.storage ∧
      p.parsePath message = .ok ({ p with
        queryParameters := Headers.insertAll p.queryParameters (targetParameters target)
        path := path }, target.length + 1) := by
  obtain ⟨view, hview, htext, hstorage, -⟩ := substr_front hm
  obtain ⟨path, hpath, hlive, hurl⟩ := parseUrl_accepts p htext h
  refine ⟨path, hpath, hlive.trans hstorage, ?_⟩
  rw [parsePath, StringView.find_byte hm hclean]
  simp only [hview, ok_bind, hurl]
  rfl

theorem parsePath_rejects (p : HttpRequestParser) {message : StringView} {target rest : Bytes}
    (hm : message.text = target ++ 32 :: rest) (hclean : 32 ∉ target)
    (h : ¬ WellFormedTarget target) :
    ∃ text, p.parsePath message = .error (.parsingException text .badRequest) := by
  obtain ⟨view, hview, htext, -, -⟩ := substr_front hm
  obtain ⟨text, hurl⟩ := parseUrl_rejects p htext h
  refine ⟨text, ?_⟩
  rw [parsePath, StringView.find_byte hm hclean]
  simp only [hview, ok_bind, hurl]
  rfl

/-! ### The whole line -/

/-- The rest of the line, once its first word has been taken for a method. -/
theorem parseStartLine_word (p : HttpRequestParser) {line : StringView} {word rest : Bytes}
    {m : HttpMethod} (hline : line.text = word ++ 32 :: rest) (hword : 32 ∉ word)
    (hbegins : m.text <+: word) :
    p.parseStartLine line =
      parsePath { p with method := m } { line with text := rest } >>= fun a =>
        removePrefix { line with text := rest } a.2 >>= fun version =>
          a.1.parseVersion version := by
  have hcut : line.text = (word ++ [32]) ++ rest := by rw [hline]; simp
  have hrest : removePrefix line (word.length + 1) = .ok { line with text := rest } :=
    removePrefix_front hcut (by simp)
  rw [parseStartLine, parseRequestToken_accepts p hline hword hbegins]
  simp only [ok_bind, hrest]

/-- **A line whose first word begins with a method is taken for one of that method.** -/
theorem parseStartLine_accepts (p : HttpRequestParser) {line : StringView} {word target : Bytes}
    {m : HttpMethod} {v : HttpVersion} (hsplit : SplitsInto line.text word target v.text)
    (hbegins : m.text <+: word) (htarget : WellFormedTarget target) :
    ∃ path : StringView, path.text = (List.cutAt 63 target).1 ∧ path.storage = line.storage ∧
      p.parseStartLine line = .ok { p with
        method := m
        queryParameters := Headers.insertAll p.queryParameters (targetParameters target)
        path := path
        version := v } := by
  let rest : StringView := { line with text := target ++ 32 :: v.text }
  have hrest : rest.text = (target ++ [32]) ++ v.text := by simp [rest]
  have hversion : removePrefix rest (target.length + 1) = .ok { rest with text := v.text } :=
    removePrefix_front hrest (by simp)
  obtain ⟨path, hpath, hlive, hparse⟩ := @parsePath_accepts _ { p with method := m } rest target
    v.text rfl hsplit.target_clean htarget
  refine ⟨path, hpath, hlive, ?_⟩
  rw [parseStartLine_word p hsplit.eq hsplit.word_clean hbegins, hparse, ok_bind, hversion, ok_bind]
  exact parseVersion_text _ rfl

/-- The line would do but for its version. -/
def VersionAtFault (line : Bytes) : Prop :=
  ∃ m word target version, HttpMethod.text m <+: word ∧ SplitsInto line word target version ∧
    WellFormedTarget target ∧ ∀ v : HttpVersion, version ≠ v.text

/-- **Every other line is rejected**, with the code of the version when that is all
there is to blame. -/
theorem parseStartLine_rejects (p : HttpRequestParser) {line : StringView}
    (hno : ¬ ∃ m word target v, HttpMethod.text m <+: word ∧
      SplitsInto line.text word target (HttpVersion.text v) ∧ WellFormedTarget target) :
    ∃ text code, p.parseStartLine line = .error (.parsingException text code) ∧
      (code = .httpVersionNotSupported ∧ VersionAtFault line.text ∨
        code = .badRequest ∧ ¬ VersionAtFault line.text) := by
  by_cases hspace : 32 ∈ line.text
  · obtain ⟨word, rest, hline, hword⟩ := List.eq_append_cons_of_mem hspace
    by_cases hmethod : ∃ m : HttpMethod, m.text <+: word
    · obtain ⟨m, hbegins⟩ := hmethod
      rw [parseStartLine_word p hline hword hbegins]
      by_cases hspace' : 32 ∈ rest
      · obtain ⟨target, version, rfl, htarget⟩ := List.eq_append_cons_of_mem hspace'
        have hsplit : SplitsInto line.text word target version := ⟨hline, hword, htarget⟩
        by_cases hgood : WellFormedTarget target
        · -- only the version can be at fault
          have hbad : ∀ v : HttpVersion, version ≠ v.text := by
            rintro v rfl
            exact hno ⟨m, word, target, v, hbegins, hsplit, hgood⟩
          let view : StringView := { line with text := target ++ 32 :: version }
          have hview : view.text = (target ++ [32]) ++ version := by simp [view]
          have hversion : removePrefix view (target.length + 1) =
              .ok { view with text := version } := removePrefix_front hview (by simp)
          obtain ⟨path, -, -, hparse⟩ := @parsePath_accepts _ { p with method := m } view target
            version rfl htarget hgood
          refine ⟨"unsupported HTTP version", _, ?_,
            .inl ⟨rfl, m, word, target, version, hbegins, hsplit, hgood, hbad⟩⟩
          rw [hparse, ok_bind, hversion, ok_bind]
          exact parseVersion_rejects _ hbad
        · obtain ⟨text, hparse⟩ := @parsePath_rejects _ { p with method := m }
            { line with text := target ++ 32 :: version } target version rfl htarget hgood
          refine ⟨text, _, ?_, .inr ⟨rfl, ?_⟩⟩
          · rw [hparse]
            rfl
          · rintro ⟨m', word', target', version', -, hsplit', hgood', -⟩
            obtain ⟨-, rfl, -⟩ := hsplit.unique hsplit'
            exact hgood hgood'
      · refine ⟨"expected space after resource target", _, ?_, .inr ⟨rfl, ?_⟩⟩
        · rw [parsePath, StringView.find_byte_none hspace']
          rfl
        · rintro ⟨m', word', target', version', -, hsplit', -, -⟩
          obtain ⟨-, hrest⟩ := eq_of_append_cons hword hsplit'.word_clean
            (hline.symm.trans hsplit'.eq)
          exact hspace' (by rw [hrest]; simp)
    · refine ⟨"invalid request token", _, ?_, .inr ⟨rfl, ?_⟩⟩
      · rw [parseStartLine, parseRequestToken_rejects p hline hword (not_exists.mp hmethod)]
        rfl
      · rintro ⟨m', word', target', version', hbegins', hsplit', -, -⟩
        obtain ⟨rfl, -⟩ := eq_of_append_cons hword hsplit'.word_clean (hline.symm.trans hsplit'.eq)
        exact hmethod ⟨m', hbegins'⟩
  · refine ⟨"expected single space after request token", _, ?_, .inr ⟨rfl, ?_⟩⟩
    · rw [parseStartLine, parseRequestToken, StringView.find_byte_none hspace]
      rfl
    · rintro ⟨m', word', target', version', -, hsplit', -, -⟩
      exact hspace (by rw [hsplit'.eq]; simp)

end HttpRequestParser

/-! ### The grammar and the parser -/

variable [StdHash]

/-- What the parser has taken from the line. -/
structure HasParts (q : HttpRequestParser) (m : HttpMethod) (target : Bytes) (v : HttpVersion) :
    Prop where
  method : q.method = m
  path : q.path.text = (List.cutAt 63 target).1
  queryParameters : q.queryParameters = Headers.insertAll [] (targetParameters target)
  version : q.version = v

/-- The third part of the line is no version. -/
def UnsupportedVersion (line : Bytes) : Prop :=
  ∃ word target version, SplitsInto line word target version ∧ ∀ v : HttpVersion, version ≠ v.text

/-- The line is good but for its version. -/
def OnlyVersionWrong (line : Bytes) : Prop :=
  ∃ m target version, SplitsInto line (HttpMethod.text m) target version ∧
    WellFormedTarget target ∧ ∀ v : HttpVersion, version ≠ v.text

/-- A fresh parser accepts the line if it is of the grammar, and takes its parts; the
exception it throws otherwise has the code for versions only where the version is wrong,
and that for bad requests unless it is all that is wrong. -/
structure FollowsGrammar (line : StringView) : Prop where
  accepts : ∀ m target v, IsStartLine line.text m target v →
    ∃ q, HttpRequestParser.parseStartLine {} line = .ok q ∧ HasParts q m target v
  only : ∀ q, HttpRequestParser.parseStartLine {} line = .ok q →
    ∃ m target v, IsStartLine line.text m target v ∧ HasParts q m target v
  rejects : ∀ e, HttpRequestParser.parseStartLine {} line = .error e →
    ∃ text code, e = .parsingException text code ∧
      (code = .httpVersionNotSupported ∧ UnsupportedVersion line.text ∨
        code = .badRequest ∧ ¬ OnlyVersionWrong line.text)

/-- A line that is accepted, with the parts taken from it. -/
theorem exists_hasParts {line : StringView} {word target : Bytes} {m : HttpMethod} {v : HttpVersion}
    (hbegins : m.text <+: word) (hsplit : SplitsInto line.text word target v.text)
    (htarget : WellFormedTarget target) :
    ∃ q, HttpRequestParser.parseStartLine {} line = .ok q ∧ HasParts q m target v := by
  obtain ⟨path, hpath, -, hparse⟩ :=
    HttpRequestParser.parseStartLine_accepts {} hsplit hbegins htarget
  exact ⟨_, hparse, rfl, hpath, rfl, rfl⟩

/-- **`parse_start_line` follows the grammar** exactly on the lines whose first word is
not a method with more behind it, or that have something else wrong. -/
theorem followsGrammar_iff (line : StringView) :
    (∀ m m' target target' v v', IsStartLine line.text m target v →
      IsStartLine line.text m' target' v' → m = m' ∧ target = target' ∧ v = v') ∧
    (FollowsGrammar line ↔ ¬ LongerMethod line.text) := by
  refine ⟨fun m m' target target' v v' h h' => h.unique h', ?_⟩
  constructor
  · rintro hfollows ⟨m, word, target, v, hbegins, hlonger, hsplit, htarget⟩
    obtain ⟨q, hq, -⟩ := exists_hasParts hbegins hsplit htarget
    obtain ⟨m', target', v', ⟨hsplit', -⟩, -⟩ := hfollows.only q hq
    obtain ⟨rfl, -, -⟩ := hsplit.unique hsplit'
    exact hlonger (by rw [HttpMethod.eq_of_prefix hbegins])
  · intro hno
    refine ⟨?_, ?_, ?_⟩
    · rintro m target v ⟨hsplit, htarget⟩
      exact exists_hasParts (List.prefix_refl _) hsplit htarget
    · intro q hq
      by_cases hgood : ∃ m word target v, HttpMethod.text m <+: word ∧
          SplitsInto line.text word target (HttpVersion.text v) ∧ WellFormedTarget target
      · obtain ⟨m, word, target, v, hbegins, hsplit, htarget⟩ := hgood
        obtain ⟨q', hq', hparts⟩ := exists_hasParts hbegins hsplit htarget
        cases hq.symm.trans hq'
        have hword : word = m.text := by
          by_contra hne
          exact hno ⟨m, word, target, v, hbegins, hne, hsplit, htarget⟩
        exact ⟨m, target, v, ⟨hword ▸ hsplit, htarget⟩, hparts⟩
      · obtain ⟨text, code, herror, -⟩ := HttpRequestParser.parseStartLine_rejects {} hgood
        cases hq.symm.trans herror
    · intro e he
      have hbad : ¬ ∃ m word target v, HttpMethod.text m <+: word ∧
          SplitsInto line.text word target (HttpVersion.text v) ∧ WellFormedTarget target := by
        rintro ⟨m, word, target, v, hbegins, hsplit, htarget⟩
        obtain ⟨q, hq, -⟩ := exists_hasParts hbegins hsplit htarget
        cases he.symm.trans hq
      obtain ⟨text, code, herror, hcode⟩ := HttpRequestParser.parseStartLine_rejects {} hbad
      cases he.symm.trans herror
      refine ⟨text, code, rfl, ?_⟩
      rcases hcode with ⟨hcode, m, word, target, version, -, hsplit, -, hversion⟩ | ⟨hcode, hfault⟩
      · exact .inl ⟨hcode, word, target, version, hsplit, hversion⟩
      · refine .inr ⟨hcode, ?_⟩
        rintro ⟨m, target, version, hsplit, htarget, hversion⟩
        exact hfault ⟨m, m.text, target, version, List.prefix_refl _, hsplit, htarget, hversion⟩

omit [StdHash] in
/-- `GETX / HTTP/1.1` is accepted as a GET. -/
theorem longer_method_accepted : letI := polynomialHash
    ¬ ∀ line : StringView, 13 ∉ line.text → 10 ∉ line.text → FollowsGrammar line := by
  let _ := polynomialHash
  intro h
  have hsplit : SplitsInto (ascii "GETX / HTTP/1.1") (ascii "GETX") (ascii "/")
      (HttpVersion.text .http1_1) := ⟨rfl, by decide, by decide⟩
  obtain ⟨q, hq, -⟩ := @exists_hasParts _ ⟨0, ascii "GETX / HTTP/1.1", []⟩ _ _ .get _ (by decide)
    hsplit ⟨by decide, fun hne => absurd (by decide) hne⟩
  obtain ⟨m, target, v, ⟨hsplit', -⟩, -⟩ :=
    (h ⟨0, ascii "GETX / HTTP/1.1", []⟩ (by decide) (by decide)).only q hq
  have hword : ascii "GETX" = m.text := (hsplit.unique hsplit').1
  cases m <;> revert hword <;> decide

end TpAdvanced
