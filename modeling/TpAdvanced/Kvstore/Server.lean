import TpAdvanced.Http.Response
import TpAdvanced.Kvstore.Lookup
import TpAdvanced.Lib.Json

/-!
# The server of the store

`HttpKVStoreServer::serveRequest` reads the key off the front of its parameter and
prints a record into a JSON text as it stands.  So it answers for the number that a
text begins with, and what it prints is JSON for the record just when no byte of the
record has a meaning there.

## Main definitions

* `HttpKVStoreServer.serveRequest` — with the number of passes of the lookup.
* `IsKey` — a text that is a key.
* `Answers` — what the server is to answer.

## Main results

* `decodes_jsonText_iff` — **when the text of a record denotes it**.
* `serves_answers_iff` — **when the server answers as it is to**.
-/

namespace TpAdvanced

namespace KvstoreHttp

open CText

/-- The text that is printed for a record. -/
def jsonText (data : Data) : Bytes :=
  ascii "\x7b\"key\":" ++ decimal data.key ++ ascii ",\"value\":\"" ++ data.data ++
    ascii "\"\x7d"

/-- What is answered for what the lookup gives. -/
def response : Option Data → HttpResponse
  | none => ({} : HttpResponse).setStatusCode .notFound
  | some data =>
    ((({} : HttpResponse).addHeader (ascii "Content-Type") (ascii "application/json")
      ).setStatusCode .ok).setBody (jsonText data)

structure HttpKVStoreServer where
  store : KVStore ℕ

namespace HttpKVStoreServer

variable [StdHash]

/-- `serveRequest`, with the number of passes that the lookup is given. -/
def serveRequest (server : HttpKVStoreServer) (request : HttpRequest) (fuel : ℕ) :
    Option HttpResponse :=
  match request.getQueryParameter (ascii "key") with
  | none => some (({} : HttpResponse).setStatusCode .badRequest)
  | some keyStr =>
    match fromChars keyStr with
    | .error _ => some (({} : HttpResponse).setStatusCode .badRequest)
    | .ok (key, _) => (server.store.get key fuel).map response

/-- The server answers this. -/
def Serves (server : HttpKVStoreServer) (request : HttpRequest) (r : HttpResponse) : Prop :=
  ∃ fuel, server.serveRequest request fuel = some r

end HttpKVStoreServer

/-- The text is the decimal form of a 64-bit unsigned number; zeros in front of it do not
matter. -/
def IsKey (text : Bytes) : Prop :=
  text ≠ [] ∧ (∀ b ∈ text, isDigit b) ∧ digitsValue text < 2 ^ 64

/-- The value that a record is to be printed as. -/
def Data.json (data : Data) : Json :=
  .object [(ascii "key", .number data.key), (ascii "value", .string data.data)]

/-- What the server is to answer to a text: 400 to one that is no key, 404 to a key of no
record, and otherwise the record in JSON. -/
structure Answers (f : File) (text : Bytes) (r : HttpResponse) : Prop where
  badRequest : r.code = .badRequest ↔ ¬ IsKey text
  notFound : r.code = .notFound ↔ IsKey text ∧
    ∀ i < f.count Data, Record.key (f.record Data i) ≠ digitsValue text
  ok : IsKey text → ∀ data, f.scan Data (digitsValue text) = some data →
    r.code = .ok ∧ data.key = digitsValue text ∧ Json.Decodes r.body data.json

/-- The text has nothing behind a key, and the record no byte that JSON does not leave
as it is. -/
structure Fits (f : File) (text : Bytes) : Prop where
  digits : IsKey (text.takeWhile isDigit) → ∀ b ∈ text, isDigit b
  data : IsKey text → ∀ data, f.scan Data (digitsValue text) = some data →
    ValidUtf8 data.data ∧ ∀ b ∈ data.data, Json.Plain b

/-! ### The text of a record -/

section

variable {data : Data}

/-- The text, as it is read. -/
theorem jsonText_eq (data : Data) : jsonText data =
    123 :: (ascii "\"key\":" ++ (decimal data.key ++ 44 :: (ascii "\"value\":" ++
      34 :: (data.data ++ [34, 125])))) := by
  simp [jsonText, ascii]

open Json

theorem readMember_key (value : Reader Json) (t : Bytes) :
    readMember value (ascii "\"key\":" ++ t) =
      (value t).map fun p => ((ascii "key", p.1), p.2) := rfl

theorem readMember_value (value : Reader Json) (t : Bytes) :
    readMember value (ascii "\"value\":" ++ t) =
      (value t).map fun p => ((ascii "value", p.1), p.2) := rfl

/-- What is read of the text once its second string is. -/
def readRest (data : Data) (fuel : ℕ) (p : Bytes × Bytes) : Option (Json × Bytes) :=
  match skipBlanks p.2 with
  | [] => none
  | b :: t =>
    if b = 125 then
      some (.object [(ascii "key", .number data.key), (ascii "value", .string p.1)], t)
    else if b = 44 then
      (readElements (readMember (readValue (fuel + 2))) 125 fuel t).map fun q =>
        (.object ((ascii "key", .number data.key) :: (ascii "value", .string p.1) :: q.1), q.2)
    else none

theorem readValue_jsonText (data : Data) (fuel : ℕ) : readValue (fuel + 3) (jsonText data) =
    (characters .plain (data.data ++ [34, 125])).bind (readRest data fuel) := by
  have hend : EndsInteger 44 := by decide
  generalize hvalue : 34 :: (data.data ++ [34, 125]) = value
  have hkey : readMember (readValue (fuel + 2)) (ascii "\"key\":" ++ (decimal data.key ++
      44 :: (ascii "\"value\":" ++ value))) =
        some ((ascii "key", .number data.key), 44 :: (ascii "\"value\":" ++ value)) := by
    rw [readMember_key, readValue_decimal _ _ hend]
    rfl
  rw [jsonText_eq, hvalue]
  change (readElements (readMember (readValue (fuel + 2))) 125 (fuel + 2) _).map _ = _
  rw [readElements_comma (by decide) hkey, readElements, readMember_value, ← hvalue]
  change ((((characters .plain _).map _).map _ |>.bind _).map _).map _ = _
  cases characters .plain (data.data ++ [34, 125]) with
  | none => rfl
  | some p =>
    simp only [Option.map_some, Option.bind_some, readRest]
    cases skipBlanks p.2 with
    | nil => rfl
    | cons b t =>
      simp only
      split_ifs
      · rfl
      · rw [Option.map_map, Option.map_map]
        rfl
      · rfl

theorem validUtf8_jsonText : ValidUtf8 (jsonText data) ↔ ValidUtf8 data.data := by
  have hkey : ∀ b ∈ ascii "\x7b\"key\":", b < 128 := by decide +kernel
  have hvalue : ∀ b ∈ ascii ",\"value\":\"", b < 128 := by decide +kernel
  have hfront : ∀ b ∈ ascii "\x7b\"key\":" ++ decimal data.key ++ ascii ",\"value\":\"",
      b < 128 := by
    intro b hb
    rcases List.mem_append.mp hb with hb | hb
    · rcases List.mem_append.mp hb with hb | hb
      · exact hkey b hb
      · exact lt_of_isDigit (all_isDigit_decimal _ b hb)
    · exact hvalue b hb
  rw [jsonText, validUtf8_append_ascii (by decide +kernel), validUtf8_ascii_append hfront]

/-- **The text of a record denotes it** when the bytes of the record are characters that
stand for themselves, and only then. -/
theorem decodes_jsonText_iff :
    Decodes (jsonText data) data.json ↔ ValidUtf8 data.data ∧ ∀ b ∈ data.data, Plain b := by
  constructor
  · rintro ⟨hutf8, fuel, rest, hread, hrest⟩
    refine ⟨validUtf8_jsonText.mp hutf8, ?_⟩
    have hmore := readValue_mono (Nat.le_add_right fuel 3) hread
    rw [readValue_jsonText, Option.bind_eq_some_iff] at hmore
    obtain ⟨p, hp, hmore⟩ := hmore
    unfold readRest at hmore
    split at hmore
    · cases hmore
    · rename_i b t hskip
      split_ifs at hmore
      · obtain ⟨hvalue, -⟩ : p.1 = data.data ∧ t = rest := by
          simpa [Data.json] using hmore
        have hne : p.2 ≠ [] := by
          intro hnil
          rw [hnil] at hskip
          cases hskip
        have hlen := characters_length hp
        have hpos := List.length_pos_of_ne_nil hne
        simp only [Mode.ahead, List.length_append, List.length_cons, List.length_nil, hvalue]
          at hlen
        have hplain := (plain_of_length hp (by simp [hvalue]; omega)).2
        rwa [hvalue] at hplain
      · -- a third member
        obtain ⟨q, hq, hmembers⟩ := Option.map_eq_some_iff.mp hmore
        have hnil : p.1 = data.data ∧ q.1 = [] := by
          simpa [Data.json] using congrArg Prod.fst hmembers
        exact absurd hnil.2 (readElements_ne_nil hq)
  · rintro ⟨hutf8, hplain⟩
    refine ⟨validUtf8_jsonText.mpr hutf8, 3, [], ?_, rfl⟩
    rw [readValue_jsonText data 0, characters_plain hplain]
    rfl

end

/-! ### The key in the text -/

section

variable {text : Bytes}

theorem fromChars_eq (text : Bytes) :
    fromChars text =
      if text.takeWhile isDigit = [] then .error .invalidArgument
      else if 2 ^ 64 ≤ digitsValue (text.takeWhile isDigit) then .error .outOfRange
      else .ok (digitsValue (text.takeWhile isDigit), text.dropWhile isDigit) := rfl

/-- The conversion refuses a text that does not begin with a key. -/
theorem fromChars_of_not_isKey (h : ¬ IsKey (text.takeWhile isDigit)) :
    ∃ e, fromChars text = .error e := by
  rw [fromChars_eq]
  split_ifs with hnil hlarge
  · exact ⟨_, rfl⟩
  · exact ⟨_, rfl⟩
  · exact absurd ⟨hnil, fun b hb => List.mem_takeWhile_imp hb, Nat.not_le.mp hlarge⟩ h

theorem fromChars_of_isKey (h : IsKey (text.takeWhile isDigit)) :
    fromChars text = .ok (digitsValue (text.takeWhile isDigit), text.dropWhile isDigit) := by
  rw [fromChars_eq, if_neg h.1, if_neg (Nat.not_le.mpr h.2.2)]

theorem IsKey.takeWhile (h : IsKey text) : text.takeWhile isDigit = text :=
  List.takeWhile_eq_self_iff.mpr h.2.1

end

/-! ### The answer -/

section

variable {f : File} {key : ℕ} {data : Data} {text : Bytes}

theorem scan_eq_none_iff : f.scan Data key = none ↔
    ∀ i < f.count Data, Record.key (f.record Data i) ≠ key := by
  simp [File.scan, List.find?_eq_none]

theorem key_of_scan (h : f.scan Data key = some data) : data.key = key := by
  have hkey : Record.key data = key := by simpa using List.find?_some h
  exact hkey

/-- To a text that does not begin with a key. -/
theorem answers_badRequest (hkey : ¬ IsKey text) :
    Answers f text (({} : HttpResponse).setStatusCode .badRequest) where
  badRequest := iff_of_true rfl hkey
  notFound := iff_of_false nofun fun h => hkey h.1
  ok h := absurd h hkey

/-- To a key. -/
theorem answers_response_iff (hkey : IsKey text) :
    Answers f text (response (f.scan Data (digitsValue text))) ↔ Fits f text := by
  have hdigits : IsKey (text.takeWhile isDigit) → ∀ b ∈ text, isDigit b := fun _ => hkey.2.1
  cases hscan : f.scan Data (digitsValue text) with
  | none =>
    refine iff_of_true ⟨iff_of_false nofun (not_not_intro hkey), ?_, ?_⟩ ⟨hdigits, ?_⟩
    · exact iff_of_true rfl ⟨hkey, scan_eq_none_iff.mp hscan⟩
    · intro _ data hdata
      cases hscan.symm.trans hdata
    · intro _ data hdata
      cases hscan.symm.trans hdata
  | some data =>
    constructor
    · intro h
      refine ⟨hdigits, fun _ data' hdata' => ?_⟩
      cases hscan.symm.trans hdata'
      exact decodes_jsonText_iff.mp (h.ok hkey data hscan).2.2
    · intro h
      refine ⟨iff_of_false nofun (not_not_intro hkey), iff_of_false nofun ?_, ?_⟩
      · rintro ⟨-, hnone⟩
        cases hscan.symm.trans (scan_eq_none_iff.mpr hnone)
      · intro _ data' hdata'
        cases hscan.symm.trans hdata'
        exact ⟨rfl, key_of_scan hscan, decodes_jsonText_iff.mpr (h.data hkey data hscan)⟩

variable [StdHash] {server : HttpKVStoreServer} {request : HttpRequest} {r : HttpResponse}

theorem serves_of_not_isKey (htext : request.getQueryParameter (ascii "key") = some text)
    (hkey : ¬ IsKey (text.takeWhile isDigit)) :
    server.Serves request r ↔ r = ({} : HttpResponse).setStatusCode .badRequest := by
  obtain ⟨e, he⟩ := fromChars_of_not_isKey hkey
  simp only [HttpKVStoreServer.Serves, HttpKVStoreServer.serveRequest, htext, he,
    exists_const, Option.some.injEq, eq_comm]

theorem serves_of_isKey (htext : request.getQueryParameter (ascii "key") = some text)
    (hkey : IsKey (text.takeWhile isDigit)) :
    server.Serves request r ↔ ∃ found, r = response found ∧
      server.store.Gets (digitsValue (text.takeWhile isDigit)) found := by
  simp only [HttpKVStoreServer.Serves, HttpKVStoreServer.serveRequest, htext,
    fromChars_of_isKey hkey, Option.map_eq_some_iff, KVStore.Gets]
  constructor
  · rintro ⟨fuel, found, hget, rfl⟩
    exact ⟨found, rfl, fuel, hget⟩
  · rintro ⟨found, rfl, fuel, hget⟩
    exact ⟨fuel, found, hget, rfl⟩

/-- **The server answers as it is to** when nothing is behind a key and no byte of the
record has a meaning in JSON, and only then. -/
theorem serves_answers_iff
    (hlookup : ∀ key < 2 ^ 64, server.store.Gets key (f.scan Data key))
    (htext : request.getQueryParameter (ascii "key") = some text) :
    (∃ r, server.Serves request r) ∧
      ∀ r, server.Serves request r → (Answers f text r ↔ Fits f text) := by
  by_cases hfront : IsKey (text.takeWhile isDigit)
  · have hgets := hlookup _ hfront.2.2
    refine ⟨⟨_, (serves_of_isKey htext hfront).mpr ⟨_, rfl, hgets⟩⟩, fun r hr => ?_⟩
    obtain ⟨found, rfl, hfound⟩ := (serves_of_isKey htext hfront).mp hr
    obtain rfl := hfound.unique hgets
    by_cases hall : ∀ b ∈ text, isDigit b
    · have htake : text.takeWhile isDigit = text := List.takeWhile_eq_self_iff.mpr hall
      rw [htake] at hfront ⊢
      exact answers_response_iff hfront
    · -- the server answers for a text that is no key
      refine iff_of_false (fun h => ?_) fun h => hall (h.digits hfront)
      have hcode := h.badRequest.mpr fun hkey => hall hkey.2.1
      cases hscan : f.scan Data (digitsValue (text.takeWhile isDigit)) <;> rw [hscan] at hcode <;>
        cases hcode
  · have hkey : ¬ IsKey text := fun h => hfront (h.takeWhile.symm ▸ h)
    refine ⟨⟨_, (serves_of_not_isKey htext hfront).mpr rfl⟩, fun r hr => ?_⟩
    rw [(serves_of_not_isKey htext hfront).mp hr]
    exact iff_of_true (answers_badRequest hkey) ⟨fun h => absurd h hfront, fun h => absurd h hkey⟩

end

/-! ### Runs -/

/-- A request with this text as its key. -/
def keyRequest (text : Bytes) : HttpRequest where
  headers := []
  queryParameters := [(ascii "key", text)]
  body := []
  path := some (ascii "/")
  version := .http1_1
  method := .get

/-- One record, with the key 5. -/
def oneRecordServer : HttpKVStoreServer := ⟨pagedStore Data oneRecord 1⟩

theorem gets_oneRecordServer (key : ℕ) :
    oneRecordServer.store.Gets key (oneRecord.scan Data key) := by
  have hcount : oneRecord.count Data = 1 := by decide +kernel
  have hkeys : oneRecord.KeysIncrease Data := by
    intro i j hij hj
    omega
  have hpaged : Paged Data oneRecord 1 := ⟨rfl, hkeys, one_pos, by decide⟩
  have hne : 0 < oneRecord.count Data := by omega
  refine (gets_scan_paged_iff hpaged hne key).mpr (not_misread_one hne fun k => ?_)
  exact (show Record.key (File.zeroRecord Data) = 0 by decide +kernel) ▸ Nat.zero_le k

theorem serves_answers_five : letI := polynomialHash
    ∃ r, oneRecordServer.Serves (keyRequest (ascii "5")) r ∧ Answers oneRecord (ascii "5") r := by
  let _ := polynomialHash
  obtain ⟨⟨r, hr⟩, hall⟩ := @serves_answers_iff oneRecord (ascii "5") _ oneRecordServer
    (keyRequest (ascii "5")) (fun key _ => gets_oneRecordServer key) rfl
  refine ⟨r, hr, (hall r hr).mpr ⟨fun _ => by decide +kernel, fun _ data hdata => ?_⟩⟩
  have hscan : oneRecord.scan Data 5 = some ⟨5, List.replicate 20 120⟩ := by decide +kernel
  cases hscan.symm.trans hdata
  exact ⟨⟨List.replicate 20 'x', by decide +kernel⟩, by decide +kernel⟩

/-- The text `5x` is answered with the record of the key 5. -/
theorem serves_text_behind_key : letI := polynomialHash
    (∀ key < 2 ^ 64, oneRecordServer.store.Gets key (oneRecord.scan Data key)) ∧
      (keyRequest (ascii "5x")).getQueryParameter (ascii "key") = some (ascii "5x") ∧
      ∃ r, oneRecordServer.Serves (keyRequest (ascii "5x")) r ∧
        ¬ Answers oneRecord (ascii "5x") r := by
  let _ := polynomialHash
  have hkey : IsKey ((ascii "5x").takeWhile isDigit) :=
    ⟨by decide +kernel, by decide +kernel, by decide +kernel⟩
  refine ⟨fun key _ => gets_oneRecordServer key, rfl, ?_⟩
  refine ⟨_, (serves_of_isKey rfl hkey).mpr ⟨_, rfl, gets_oneRecordServer _⟩, fun h => ?_⟩
  have hscan : oneRecord.scan Data 5 = some ⟨5, List.replicate 20 120⟩ := by decide +kernel
  have hcode := h.badRequest.mpr fun h => absurd h.2.1 (by decide +kernel)
  change (response (oneRecord.scan Data 5)).code = _ at hcode
  rw [hscan] at hcode
  cases hcode

end KvstoreHttp

end TpAdvanced
