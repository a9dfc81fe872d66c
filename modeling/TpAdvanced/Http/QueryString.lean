import TpAdvanced.Http.HeaderTable
import TpAdvanced.Http.Parser
import TpAdvanced.Lib.Outcome
import TpAdvanced.Lib.While

/-!
# Query strings

`parse_query_parameters` cuts a query at every `&` and each component at its first
`=`.  It ends because every round cuts off a byte, and it throws at the first
component that has no `=`; empty components are components too.

## Main definitions

* `components`, `parameters` — the query in parts.
* `queryStep` — a round of the loop.

## Main results

* `parseQueryParameters_eq` — what `parse_query_parameters` does to a query.
* `parseQueryParameters_first` — **each name is given the value of its first
  component**, or the query is rejected.
-/

namespace TpAdvanced

open CText Outcome While

/-- The components of a query, the empty ones included. -/
def components (query : Bytes) : List Bytes := query.splitOn 38

/-- The name and the value of a component. -/
def parameter (component : Bytes) : Bytes × Bytes := List.cutAt 61 component

/-- The names and values of a query. -/
def parameters (query : Bytes) : List (Bytes × Bytes) := (components query).map parameter

/-- The pairs, joined with `=` and `&`. -/
def joinPairs (ps : List (Bytes × Bytes)) : Bytes :=
  [38].intercalate (ps.map fun p => p.1 ++ 61 :: p.2)

/-- How a query is rejected. -/
def invalidQueryParameter : Thrown := .parsingException "invalid query parameter" .badRequest

theorem components_of_notMem {query : Bytes} (h : 38 ∉ query) : components query = [query] :=
  List.splitOn_eq_singleton h

theorem components_append_cons {c : Bytes} (h : 38 ∉ c) (rest : Bytes) :
    components (c ++ 38 :: rest) = c :: components rest :=
  List.splitOn_append_cons_self_of_not_mem h rest

/-! ### Joined pairs -/

/-- The parts of joined pairs are the pairs. -/
theorem parameters_joinPairs {ps : List (Bytes × Bytes)} (hne : ps ≠ [])
    (hclean : ∀ p ∈ ps, 38 ∉ p.1 ∧ 61 ∉ p.1 ∧ 38 ∉ p.2) :
    (∀ c ∈ components (joinPairs ps), 61 ∈ c) ∧ parameters (joinPairs ps) = ps := by
  have hcomps : components (joinPairs ps) = ps.map fun p => p.1 ++ 61 :: p.2 := by
    refine List.splitOn_intercalate 38 ?_ (by simpa using hne)
    intro c hc
    obtain ⟨p, hp, rfl⟩ := List.mem_map.mp hc
    obtain ⟨hname, -, hvalue⟩ := hclean p hp
    simp [hname, hvalue]
  refine ⟨?_, ?_⟩
  · rw [hcomps]
    intro c hc
    obtain ⟨p, -, rfl⟩ := List.mem_map.mp hc
    simp
  · rw [parameters, hcomps, List.map_map]
    have hparts : ∀ p ∈ ps, (parameter ∘ fun p : Bytes × Bytes => p.1 ++ 61 :: p.2) p = p := by
      intro p hp
      exact List.cutAt_append_cons (hclean p hp).2.1 p.2
    rw [List.map_congr_left hparts, List.map_id']

/-! ### A round of the loop -/

/-- The parameter in front of position `paramEnd`. -/
def takeParameter (query : StringView) (paramEnd : ℕ) : Except Thrown (Bytes × Bytes) := do
  let param ← substr query 0 (some paramEnd)
  match param.find [61] with
  | none => throw (.parsingException "invalid query parameter" .badRequest)
  | some paramDelim =>
    let name ← substr param 0 (some paramDelim)
    let value ← substr param (paramDelim + 1) none
    return (name.text, value.text)

theorem takeParameter_eq {query : StringView} {c t : Bytes} (hq : query.text = c ++ t) :
    takeParameter query c.length =
      if 61 ∈ c then .ok (parameter c) else .error invalidQueryParameter := by
  obtain ⟨param, hparam, htext, -, -⟩ := substr_front hq
  rw [takeParameter, hparam, ok_bind]
  by_cases hmem : 61 ∈ c
  · obtain ⟨name, value, rfl, hname⟩ := List.eq_append_cons_of_mem hmem
    have htext' : param.text = (name ++ [61]) ++ value := by rw [htext]; simp
    obtain ⟨n, hn, hntext, -, -⟩ := substr_front htext
    obtain ⟨v, hv, hvtext, -⟩ := substr_back htext'
    rw [List.length_append, List.length_singleton] at hv
    rw [StringView.find_byte htext hname]
    simp only [hn, hv, ok_bind, hntext, hvtext, parameter, List.cutAt_append_cons hname,
      if_pos hmem]
    rfl
  · rw [StringView.find_byte_none (by rwa [htext]), if_neg hmem]
    rfl

variable [StdHash]

/-- The body of the loop in `parse_query_parameters`. -/
def queryStep :
    QueryParameters × StringView → (QueryParameters × StringView) ⊕ Except Thrown QueryParameters
  | (params, query) =>
    let paramEnd := (query.find [38]).getD query.size
    match takeParameter query paramEnd with
    | .error e => .inr (.error e)
    | .ok param =>
      let params := Headers.insert params param.1 param.2
      if query.size = paramEnd then .inr (.ok params)
      else
        match removePrefix query (paramEnd + 1) with
        | .error e => .inr (.error e)
        | .ok query => .inl (params, query)

/-- The loop with a bound on its rounds makes these rounds. -/
theorem parseQueryParametersLoop_succ (fuel : ℕ) (params : QueryParameters) (query : StringView) :
    parseQueryParametersLoop (fuel + 1) params query =
      match queryStep (params, query) with
      | .inl s => parseQueryParametersLoop fuel s.1 s.2
      | .inr r => r := by
  rw [parseQueryParametersLoop, queryStep]
  simp only [takeParameter]
  cases substr query 0 (some ((query.find [38]).getD query.size)) with
  | error e => rfl
  | ok param =>
    simp only [ok_bind]
    cases param.find [61] with
    | none => rfl
    | some paramDelim =>
      simp only
      cases substr param 0 (some paramDelim) with
      | error e => rfl
      | ok name =>
        simp only [ok_bind]
        cases substr param (paramDelim + 1) none with
        | error e => rfl
        | ok value =>
          simp only [ok_bind, pure, Except.pure]
          split
          · rfl
          · cases removePrefix query ((query.find [38]).getD query.size + 1) <;> rfl

theorem parseQueryParametersLoop_of_run {fuel : ℕ} : ∀ {s : QueryParameters × StringView}
    {r : Except Thrown QueryParameters}, run queryStep fuel s = some r →
      parseQueryParametersLoop fuel s.1 s.2 = r := by
  induction fuel with
  | zero =>
    intro s r h
    cases h
  | succ fuel ih =>
    rintro ⟨params, query⟩ r h
    rw [parseQueryParametersLoop_succ]
    cases hstep : queryStep (params, query) with
    | inl s' =>
      rw [run_succ_of_inl hstep] at h
      exact ih h
    | inr r' =>
      rw [run_succ_of_inr hstep] at h
      exact Option.some.inj h

/-- The last round. -/
theorem queryStep_last {query : StringView} (hq : 38 ∉ query.text) (params : QueryParameters) :
    queryStep (params, query) = .inr (if 61 ∈ query.text then
      .ok (Headers.insert params (parameter query.text).1 (parameter query.text).2)
      else .error invalidQueryParameter) := by
  have hparam := takeParameter_eq (List.append_nil query.text).symm
  rw [queryStep, StringView.find_byte_none hq, Option.getD_none, StringView.size]
  by_cases hmem : 61 ∈ query.text
  · simp only [hparam, if_pos hmem, if_true]
  · simp only [hparam, if_neg hmem]

/-- A round in front of an `&`. -/
theorem queryStep_more {query : StringView} {c rest : Bytes} (hq : query.text = c ++ 38 :: rest)
    (hc : 38 ∉ c) (params : QueryParameters) :
    queryStep (params, query) = if 61 ∈ c then
      .inl (Headers.insert params (parameter c).1 (parameter c).2, { query with text := rest })
      else .inr (.error invalidQueryParameter) := by
  have hne : query.size ≠ c.length := by
    rw [StringView.size, hq, List.length_append, List.length_cons]
    omega
  have hcut : query.text = (c ++ [38]) ++ rest := by rw [hq]; simp
  have hrest : removePrefix query (c.length + 1) = .ok { query with text := rest } :=
    removePrefix_front hcut (by simp)
  rw [queryStep, StringView.find_byte hq hc, Option.getD_some]
  by_cases hmem : 61 ∈ c
  · simp only [takeParameter_eq hq, if_pos hmem, if_neg hne, hrest]
  · simp only [takeParameter_eq hq, if_neg hmem]

/-! ### The loop -/

/-- What the loop leaves with. -/
def queryResult (params : QueryParameters) (query : Bytes) : Except Thrown QueryParameters :=
  if ∀ c ∈ components query, 61 ∈ c then .ok (Headers.insertAll params (parameters query))
  else .error invalidQueryParameter

/-- **Every round cuts off a byte**, so there are no more of them than bytes. -/
theorem run_queryStep (n : ℕ) : ∀ (params : QueryParameters) (query : StringView),
    query.size < n → run queryStep n (params, query) = some (queryResult params query.text) := by
  induction n with
  | zero =>
    intro params query hn
    omega
  | succ n ih =>
    intro params query hn
    by_cases hmore : 38 ∈ query.text
    · obtain ⟨c, rest, hq, hc⟩ := List.eq_append_cons_of_mem hmore
      have hstep := queryStep_more hq hc params
      have hcomps : components query.text = c :: components rest := by
        rw [hq, components_append_cons hc]
      split at hstep
      · rename_i heq
        have hlen : rest.length < n := by
          rw [StringView.size, hq, List.length_append, List.length_cons] at hn
          omega
        rw [run_succ_of_inl hstep, ih _ { query with text := rest } hlen]
        simp [queryResult, parameters, hcomps, heq]
      · rename_i hne
        rw [run_succ_of_inr hstep]
        simp [queryResult, hcomps, hne]
    · rw [run_succ_of_inr (queryStep_last hmore params)]
      simp [queryResult, parameters, components_of_notMem hmore]

/-- The loop, with a bound that is large enough. -/
theorem parseQueryParametersLoop_eq {fuel : ℕ} {query : StringView} (hfuel : query.size < fuel)
    (params : QueryParameters) :
    parseQueryParametersLoop fuel params query = queryResult params query.text :=
  parseQueryParametersLoop_of_run (run_queryStep fuel params query hfuel)

namespace HttpRequestParser

/-- **What `parse_query_parameters` does.** -/
theorem parseQueryParameters_eq (p : HttpRequestParser) (query : StringView) :
    p.parseQueryParameters query =
      if ∀ c ∈ components query.text, 61 ∈ c then
        .ok { p with
          queryParameters := Headers.insertAll p.queryParameters (parameters query.text) }
      else .error invalidQueryParameter := by
  rw [parseQueryParameters, parseQueryParametersLoop_eq (Nat.lt_succ_self _), queryResult]
  split
  · rfl
  · rfl

/-- **Each name is given the value of its first component**, unless some component has
no `=`.  So pairs that are joined and parsed are found by their names. -/
theorem parseQueryParameters_first (p : HttpRequestParser) :
    (∀ query : StringView, (∀ c ∈ components query.text, 0 ∉ (parameter c).1) →
      (∃ r, Returns queryStep ([], query) r ∧
        { p with queryParameters := [] }.parseQueryParameters query =
          r.map fun table => { p with queryParameters := table }) ∧
      ((∃ message code, { p with queryParameters := [] }.parseQueryParameters query =
          .error (.parsingException message code)) ↔ ∃ c ∈ components query.text, 61 ∉ c) ∧
      ((∀ c ∈ components query.text, 61 ∈ c) → ∃ table,
        { p with queryParameters := [] }.parseQueryParameters query =
            .ok { p with queryParameters := table } ∧
          FirstEntries (parameters query.text) table)) ∧
    ∀ ps : List (Bytes × Bytes),
      (∀ pair ∈ ps, (∀ b ∈ pair.1, b ≠ 38 ∧ b ≠ 61 ∧ b ≠ 0) ∧ 38 ∉ pair.2) →
      ∀ query : StringView, query.text = joinPairs ps → ∀ pair ∈ ps, ∃ q,
        { p with queryParameters := [] }.parseQueryParameters query = .ok q ∧
          ∀ storage, (q.buildRequest storage).getQueryParameter pair.1 =
            (ps.find? fun first => first.1.map tolower = pair.1.map tolower).map Prod.snd := by
  refine ⟨fun query hclean => ⟨?_, ?_, ?_⟩, ?_⟩
  · refine ⟨queryResult [] query.text, ⟨_, run_queryStep _ [] query (Nat.lt_succ_self _)⟩, ?_⟩
    rw [parseQueryParameters, parseQueryParametersLoop_eq (Nat.lt_succ_self _)]
    cases queryResult [] query.text <;> rfl
  · rw [parseQueryParameters_eq]
    by_cases hall : ∀ c ∈ components query.text, 61 ∈ c
    · rw [if_pos hall]
      refine iff_of_false ?_ ?_
      · rintro ⟨message, code, h⟩
        cases h
      · rintro ⟨c, hc, hne⟩
        exact hne (hall c hc)
    · rw [if_neg hall]
      refine iff_of_true ⟨_, _, rfl⟩ ?_
      simpa using hall
  · intro hall
    refine ⟨_, by rw [parseQueryParameters_eq, if_pos hall], ?_⟩
    refine firstEntries_insertAll fun pair hpair => ?_
    obtain ⟨c, hc, rfl⟩ := List.mem_map.mp hpair
    exact hclean c hc
  · intro ps hclean query hquery pair hpair
    obtain ⟨hall, hparameters⟩ := parameters_joinPairs (List.ne_nil_of_mem hpair) fun pair hpair =>
      ⟨fun h => ((hclean pair hpair).1 38 h).1 rfl, fun h => ((hclean pair hpair).1 61 h).2.1 rfl,
        (hclean pair hpair).2⟩
    have hnul : ∀ pair ∈ ps, 0 ∉ pair.1 := fun pair hpair h => ((hclean pair hpair).1 0 h).2.2 rfl
    refine ⟨_, by rw [parseQueryParameters_eq, hquery, if_pos hall, hparameters], fun storage => ?_⟩
    have hfind := Headers.find_insertAll ps pair.1 []
    rw [show Headers.find [] pair.1 = none from rfl, Option.none_or,
      Headers.find_eq_of_notMem hnul (hnul pair hpair)] at hfind
    exact hfind

omit [StdHash] in
/-- `a=1&` is rejected for its empty component, and of `a=1&A=2` the second value is
dropped. -/
theorem parseQueryParameters_first_twice : letI := polynomialHash
    (∃ message code, ({} : HttpRequestParser).parseQueryParameters ⟨0, ascii "a=1&", []⟩ =
      .error (.parsingException message code)) ∧
    ∃ q, ({} : HttpRequestParser).parseQueryParameters ⟨0, ascii "a=1&A=2", []⟩ = .ok q ∧
      ∀ storage, (q.buildRequest storage).getQueryParameter (ascii "A") = some (ascii "1") := by
  let _ := polynomialHash
  obtain ⟨hquery, hjoin⟩ := parseQueryParameters_first {}
  refine ⟨(hquery ⟨0, ascii "a=1&", []⟩ ?_).2.1.mpr ⟨[], ?_, by simp⟩, ?_⟩
  · decide
  · decide
  · exact hjoin [(ascii "a", ascii "1"), (ascii "A", ascii "2")] (by simp [ascii])
      ⟨0, ascii "a=1&A=2", []⟩ rfl (ascii "A", ascii "2") (by simp)

end HttpRequestParser

end TpAdvanced
