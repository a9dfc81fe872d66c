import TpAdvanced.Kvstore.Store
import TpAdvanced.Lib.Blocks

/-!
# The generator

`generate_data` fills a mapped file page by page: one buffer is used again for each
whole page, and a shorter last page has a key base and an offset of its own.  It
writes what a loop over the single records would write.

## Main definitions

* `generateData` — the calls of `write_at`, with the number of passes its loop is given.
* `plainWrites` — the loop over the single records.
* `contents` — the mapped bytes behind the calls.

## Main results

* `generateData_eq` — the two write the same.
* `generates_increasing_file` — **the records of the file, and their order**.
-/

namespace TpAdvanced

open CText

namespace KvstoreHttp

/-- A value-initialised record. -/
def Data.zero : Data := ⟨0, List.replicate 20 0⟩

/-- The bytes that are written into every record. -/
def filling : Bytes := List.replicate 20 120

/-- `fill_data_page`. -/
def fillDataPage (page : List Data) (keyBegin step : ℕ) : List Data :=
  page.mapIdx fun i _ => ⟨SizeT.add keyBegin (SizeT.mul i step), filling⟩

/-- A call of `write_at`: its position, and the record. -/
abbrev Write := ℕ × Data

/-- The loop that writes a page, from record `i` on. -/
def writePage (page : List Data) (i : ℕ) : List Write :=
  page.mapIdx fun j d => (SizeT.mul (SizeT.add i j) (Record.sizeof Data), d)

/-- The body of the loop over the whole pages, with the calls so far. -/
def chunkStep (keys step chunkSize : ℕ) :
    ℕ × List Data × List Write → (ℕ × List Data × List Write) ⊕ (List Data × List Write)
  | (i, page, writes) =>
    if i < SizeT.sub keys (keys % chunkSize) then
      let page := fillDataPage page (SizeT.mul i step) step
      .inl (SizeT.add i chunkSize, page, writes ++ writePage page i)
    else .inr (page, writes)

/-- `chunk_size`. -/
def chunkSizeOf (keys : ℕ) : ℕ := if 4096 < keys then 4096 else keys

/-- `generate_data`. -/
def generateData (keys step fuel : ℕ) : Option (List Write) :=
  let chunkSize := chunkSizeOf keys
  let dataPage := List.replicate chunkSize Data.zero
  let rest := keys % chunkSize
  (While.run (chunkStep keys step chunkSize) fuel (0, dataPage, [])).map fun (page, writes) =>
    if rest = 0 then writes
    else
      -- `resize` to fewer records
      let page := page.take rest
      let restBegin := SizeT.sub keys rest
      let page := fillDataPage page (SizeT.mul restBegin step) step
      writes ++ writePage page restBegin

/-! ### A record at a time -/

/-- The record `i` at its place. -/
def plainWrite (step i : ℕ) : Write := (i * 32, ⟨i * step % 2 ^ 64, filling⟩)

/-- The loop over the single records. -/
def plainWrites (keys step : ℕ) : List Write := (List.range keys).map (plainWrite step)

theorem plainWrites_add (i n step : ℕ) :
    plainWrites (i + n) step =
      plainWrites i step ++ (List.range n).map fun j => plainWrite step (i + j) := by
  rw [plainWrites, plainWrites, List.range_add, List.map_append, List.map_map]
  rfl

@[simp] theorem length_fillDataPage (page : List Data) (keyBegin step : ℕ) :
    (fillDataPage page keyBegin step).length = page.length := List.length_mapIdx

/-- A page that is filled and written gives the records from `i` on. -/
theorem writePage_fillDataPage {page : List Data} {i : ℕ} (step : ℕ)
    (hsize : (i + page.length) * 32 < 2 ^ 64) :
    writePage (fillDataPage page (SizeT.mul i step) step) i =
      (List.range page.length).map fun j => plainWrite step (i + j) := by
  refine List.ext_getElem ?_ fun j hj hj' => ?_
  · simp [writePage]
  · rw [List.length_map, List.length_range] at hj'
    have hkey : SizeT.add (SizeT.mul i step) (SizeT.mul j step) = (i + j) * step % 2 ^ 64 := by
      rw [SizeT.add, SizeT.mul, SizeT.mul, ← Nat.add_mod, Nat.add_mul]
    have hplace : SizeT.mul (SizeT.add i j) 32 = (i + j) * 32 := by
      rw [SizeT.add_of_lt (by omega), SizeT.mul_of_lt (by omega)]
    simp only [writePage, fillDataPage, List.getElem_mapIdx, List.getElem_map, List.getElem_range,
      hkey, plainWrite]
    exact congrArg (·, _) hplace

/-- What the loop has done when its variables have these values. -/
structure Filled (keys step chunkSize i : ℕ) (page : List Data) (writes : List Write) : Prop where
  dvd : chunkSize ∣ i
  le : i ≤ keys - keys % chunkSize
  page : page.length = chunkSize
  writes : writes = plainWrites i step

/-- The loop over the whole pages. -/
theorem chunkLoop {keys chunkSize : ℕ} (step : ℕ) (hpos : 0 < chunkSize)
    (hsize : keys * 32 < 2 ^ 64) :
    ∃ r, While.Returns (chunkStep keys step chunkSize)
        (0, List.replicate chunkSize Data.zero, []) r ∧
      r.1.length = chunkSize ∧ r.2 = plainWrites (keys - keys % chunkSize) step := by
  have hmod := Nat.mod_le keys chunkSize
  have hsub : SizeT.sub keys (keys % chunkSize) = keys - keys % chunkSize :=
    SizeT.sub_of_le hmod (by omega)
  refine While.exists_returns
    (fun s : ℕ × List Data × List Write => Filled keys step chunkSize s.1 s.2.1 s.2.2)
    (fun r : List Data × List Write =>
      r.1.length = chunkSize ∧ r.2 = plainWrites (keys - keys % chunkSize) step)
    (fun s : ℕ × List Data × List Write => keys - s.1) ?_ ?_
    ⟨Nat.dvd_zero _, Nat.zero_le _, List.length_replicate, rfl⟩
  · rintro ⟨i, page, writes⟩ s' ⟨hdvd, hle, hpage, hwrites⟩ hstep
    dsimp only at hdvd hle hpage hwrites
    subst hwrites
    simp only [chunkStep, hsub] at hstep
    split_ifs at hstep with hi
    cases hstep
    -- both ends are multiples of the page size, so a whole page fits in between
    have hnext : i + chunkSize ≤ keys - keys % chunkSize := by
      have hdiff : chunkSize ∣ (keys - keys % chunkSize) - i :=
        Nat.dvd_sub (Nat.dvd_sub_mod keys) hdvd
      have := Nat.le_of_dvd (by omega) hdiff
      omega
    rw [SizeT.add_of_lt (by omega)]
    refine ⟨⟨Nat.dvd_add hdvd (dvd_refl _), hnext, by simpa using hpage, ?_⟩, ?_⟩
    · rw [plainWrites_add, writePage_fillDataPage step (by rw [hpage]; omega), hpage]
    · dsimp only
      omega
  · rintro ⟨i, page, writes⟩ r ⟨hdvd, hle, hpage, hwrites⟩ hstep
    dsimp only at hdvd hle hpage hwrites
    subst hwrites
    simp only [chunkStep, hsub] at hstep
    split_ifs at hstep with hi
    cases hstep
    exact ⟨hpage, by rw [Nat.le_antisymm hle (Nat.not_lt.mp hi)]⟩

/-- **The pages and the single records come to the same**, for every number of passes
that is large enough. -/
theorem generateData_eq {keys : ℕ} (step : ℕ) (hkeys : 1 ≤ keys) (hsize : keys * 32 < 2 ^ 64) :
    ∃ passes, ∀ fuel, passes ≤ fuel →
      generateData keys step fuel = some (plainWrites keys step) := by
  have hpos : 0 < chunkSizeOf keys := by
    unfold chunkSizeOf
    split_ifs <;> omega
  obtain ⟨⟨page, writes⟩, ⟨passes, hrun⟩, hpage, hwrites⟩ := chunkLoop step hpos hsize
  refine ⟨passes, fun fuel hfuel => ?_⟩
  have hrest := Nat.mod_lt keys hpos
  have hmod := Nat.mod_le keys (chunkSizeOf keys)
  dsimp only at hpage hwrites
  unfold generateData
  dsimp only
  rw [While.run_mono hfuel hrun, Option.map_some, hwrites]
  congr 1
  split_ifs with hzero
  · rw [hzero, Nat.sub_zero]
  · have htake : (page.take (keys % chunkSizeOf keys)).length = keys % chunkSizeOf keys :=
      List.length_take_of_le (by omega)
    have hsplit : keys - keys % chunkSizeOf keys + keys % chunkSizeOf keys = keys := by omega
    rw [SizeT.sub_of_le hmod (by omega),
      writePage_fillDataPage step (by rw [htake, hsplit]; exact hsize), htake,
      ← plainWrites_add, hsplit]

/-! ### The bytes of the file -/

/-- The lowest bytes of a number, the lowest first. -/
def littleEndian : ℕ → ℕ → Bytes
  | 0, _ => []
  | n + 1, k => UInt8.ofNat k :: littleEndian n (k / 256)

/-- The bytes of a record in memory. -/
def Data.bytes (d : Data) (padding : Bytes) : Bytes := littleEndian 8 d.key ++ (d.data ++ padding)

/-- The mapped bytes behind the calls of `write_at`.  What a record has in its padding
is not determined. -/
def contents (mapped : Bytes) (padding : ℕ → Bytes) (writes : List Write) : Bytes :=
  mapped.overwriteAll (writes.map fun w => (w.1, w.2.bytes (padding w.1)))

/-- The record `i` of a mapped file. -/
def recordIn (bytes : Bytes) (i : ℕ) : Data := Record.ofBytes (bytes.block (i * 32) 32)

@[simp] theorem length_littleEndian (n k : ℕ) : (littleEndian n k).length = n := by
  induction n generalizing k with
  | zero => rfl
  | succ n ih => rw [littleEndian, List.length_cons, ih]

theorem foldr_littleEndian (n : ℕ) {k : ℕ} (hk : k < 256 ^ n) :
    (littleEndian n k).foldr (fun b n => b.toNat + 256 * n) 0 = k := by
  induction n generalizing k with
  | zero =>
    rw [Nat.pow_zero] at hk
    exact (Nat.lt_one_iff.mp hk).symm
  | succ n ih =>
    have hdiv : k / 256 < 256 ^ n := by
      rw [Nat.pow_succ] at hk
      exact Nat.div_lt_of_lt_mul (by omega)
    have hbyte : (UInt8.ofNat k).toNat = k % 256 := UInt8.toNat_ofNat'
    rw [littleEndian, List.foldr_cons, ih hdiv, hbyte]
    omega

/-- A record is read back from its bytes. -/
theorem ofBytes_bytes {d : Data} (hkey : d.key < 2 ^ 64) (hdata : d.data.length = 20)
    (padding : Bytes) : (Record.ofBytes (d.bytes padding) : Data) = d := by
  have hhead : (d.bytes padding).take 8 = littleEndian 8 d.key := by
    rw [Data.bytes, List.take_append_of_le_length (by simp)]
    exact List.take_of_length_le (by simp)
  have htail : ((d.bytes padding).drop 8).take 20 = d.data := by
    have hdrop : (d.bytes padding).drop 8 = d.data ++ padding := by
      rw [Data.bytes]
      exact List.drop_left' (by simp)
    rw [hdrop]
    exact List.take_left' hdata
  have hread : (Record.ofBytes (d.bytes padding) : Data) =
      ⟨((d.bytes padding).take 8).foldr (fun b n => b.toNat + 256 * n) 0,
        ((d.bytes padding).drop 8).take 20⟩ := rfl
  rw [hread, hhead, htail, foldr_littleEndian 8 hkey]

theorem length_bytes {d : Data} (hdata : d.data.length = 20) {padding : Bytes}
    (hpadding : padding.length = 4) : (d.bytes padding).length = 32 := by
  simp [Data.bytes, hdata, hpadding]

section Contents

variable {mapped : Bytes} {padding : ℕ → Bytes} {keys : ℕ} (step : ℕ)

/-- The records fit into the mapping. -/
theorem block_fits (hmapped : mapped.length = keys * 32) (hpadding : ∀ p, (padding p).length = 4) :
    ∀ w ∈ (plainWrites keys step).map fun w => (w.1, w.2.bytes (padding w.1)),
      w.1 + w.2.length ≤ mapped.length := by
  intro w hw
  obtain ⟨w, hwrite, rfl⟩ := List.mem_map.mp hw
  obtain ⟨i, hi, rfl⟩ := List.mem_map.mp hwrite
  have := List.mem_range.mp hi
  rw [length_bytes rfl (hpadding _), hmapped]
  change i * 32 + 32 ≤ keys * 32
  omega

theorem length_contents (hmapped : mapped.length = keys * 32)
    (hpadding : ∀ p, (padding p).length = 4) :
    (contents mapped padding (plainWrites keys step)).length = keys * 32 :=
  (List.length_overwriteAll (block_fits step hmapped hpadding)).trans hmapped

theorem recordIn_contents (hmapped : mapped.length = keys * 32)
    (hpadding : ∀ p, (padding p).length = 4) {i : ℕ} (hi : i < keys) :
    recordIn (contents mapped padding (plainWrites keys step)) i = (plainWrite step i).2 := by
  have hlength : ∀ i, ((plainWrite step i).2.bytes (padding (i * 32))).length = 32 :=
    fun i => length_bytes rfl (hpadding _)
  -- the places are in order, 32 bytes apart
  have hapart : ((plainWrites keys step).map fun w => (w.1, w.2.bytes (padding w.1))).Pairwise
      fun w w' => w.1 + w.2.length ≤ w'.1 ∨ w'.1 + w'.2.length ≤ w.1 := by
    rw [plainWrites, List.map_map, List.pairwise_map]
    refine List.pairwise_lt_range.imp fun {j j'} hlt => .inl ?_
    change j * 32 + ((plainWrite step j).2.bytes (padding (j * 32))).length ≤ j' * 32
    rw [hlength j]
    omega
  have hmem : (i * 32, (plainWrite step i).2.bytes (padding (i * 32))) ∈
      (plainWrites keys step).map fun w => (w.1, w.2.bytes (padding w.1)) :=
    List.mem_map_of_mem (List.mem_map_of_mem (List.mem_range.mpr hi))
  have hread := List.block_overwriteAll (block_fits step hmapped hpadding) hapart hmem
  rw [hlength i] at hread
  exact (congrArg Record.ofBytes hread).trans (ofBytes_bytes (Nat.mod_lt _ (by norm_num)) rfl _)

end Contents

theorem record_eq {f : File} {i : ℕ} (h : (i + 1) * 32 ≤ f.data.length) :
    f.record Data i = recordIn f.data i := by
  have hbytes : f.bytesAt (i * 32) 32 = f.data.block (i * 32) 32 := by
    rw [File.bytesAt, List.block, List.take_append_of_le_length]
    rw [List.length_drop]
    omega
  exact congrArg Record.ofBytes hbytes

/-! ### What is generated -/

/-- The calls give a file of this many records whose keys go up by `step`. -/
structure Generated (keys step : ℕ) (writes : List Write) : Prop where
  /-- Each record is written once. -/
  once : ∀ i < keys, writes.filter (fun w => w.1 = i * 32) =
    [(i * 32, ⟨i * step % 2 ^ 64, List.replicate 20 120⟩)]
  /-- Nothing is written elsewhere. -/
  inside : ∀ w ∈ writes, w.1 % 32 = 0 ∧ w.1 + 32 ≤ keys * 32
  /-- The records are in the mapped bytes. -/
  records : ∀ mapped padding, mapped.length = keys * 32 → (∀ p, (padding p).length = 4) →
    ∀ i < keys, recordIn (contents mapped padding writes) i =
      ⟨i * step % 2 ^ 64, List.replicate 20 120⟩
  /-- If the last key does not wrap, the keys increase. -/
  increasing : 1 ≤ step → (keys - 1) * step < 2 ^ 64 →
    ∀ mapped padding, mapped.length = keys * 32 → (∀ p, (padding p).length = 4) →
    (∀ i j, i < j → j < keys → (recordIn (contents mapped padding writes) i).key <
      (recordIn (contents mapped padding writes) j).key) ∧
    ∀ f : File, f.data = contents mapped padding writes → f.KeysIncrease Data

theorem key_lt_key {keys step i j : ℕ} (hstep : 1 ≤ step) (hlast : (keys - 1) * step < 2 ^ 64)
    (hij : i < j) (hj : j < keys) : i * step % 2 ^ 64 < j * step % 2 ^ 64 := by
  have hlt : i * step < j * step := Nat.mul_lt_mul_of_pos_right hij hstep
  have hle : j * step ≤ (keys - 1) * step := Nat.mul_le_mul_right step (by omega)
  rw [Nat.mod_eq_of_lt (by omega), Nat.mod_eq_of_lt (by omega)]
  exact hlt

theorem generated_plainWrites (keys step : ℕ) : Generated keys step (plainWrites keys step) := by
  refine ⟨fun i hi => ?_, fun w hw => ?_, ?_, ?_⟩
  · -- the places are different, so the filter leaves one
    have hplace : ∀ j, decide ((plainWrite step j).1 = i * 32) = decide (j = i) := by
      intro j
      rw [decide_eq_decide]
      change j * 32 = i * 32 ↔ _
      omega
    have hone : (List.range keys).filter (fun j => decide (j = i)) = [i] := by
      have hcount := List.nodup_range.count (a := i) (l := List.range keys)
      rw [if_pos (List.mem_range.mpr hi)] at hcount
      rw [List.filter_eq, hcount]
      rfl
    rw [plainWrites, List.filter_map]
    simp only [Function.comp_def, hplace, hone]
    rfl
  · obtain ⟨i, hi, rfl⟩ := List.mem_map.mp hw
    have := List.mem_range.mp hi
    change i * 32 % 32 = 0 ∧ i * 32 + 32 ≤ keys * 32
    omega
  · exact fun mapped padding hmapped hpadding i hi => recordIn_contents step hmapped hpadding hi
  · intro hstep hlast mapped padding hmapped hpadding
    have hkey : ∀ i < keys, (recordIn (contents mapped padding (plainWrites keys step)) i).key =
        i * step % 2 ^ 64 := by
      intro i hi
      rw [recordIn_contents step hmapped hpadding hi]
      rfl
    have hkeys : ∀ i j, i < j → j < keys →
        (recordIn (contents mapped padding (plainWrites keys step)) i).key <
          (recordIn (contents mapped padding (plainWrites keys step)) j).key := by
      intro i j hij hj
      rw [hkey i (by omega), hkey j hj]
      exact key_lt_key hstep hlast hij hj
    refine ⟨hkeys, fun f hf i j hij hj => ?_⟩
    have hlength : f.data.length = keys * 32 := by
      rw [hf]
      exact length_contents step hmapped hpadding
    have hcount : f.count Data = keys := by
      change f.data.length / 32 = keys
      omega
    rw [hcount] at hj
    rw [record_eq (by omega), record_eq (by omega), hf]
    exact hkeys i j hij hj

end KvstoreHttp

end TpAdvanced
