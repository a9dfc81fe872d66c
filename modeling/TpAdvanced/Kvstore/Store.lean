import TpAdvanced.Lib.CText
import TpAdvanced.Lib.OrderedMap
import TpAdvanced.Lib.SizeT
import TpAdvanced.Lib.While

/-!
# The key-value store

A store is a mapped file of records of one size, in the order of their keys.  Its
index has the first key of every page of the file; a lookup finds the page in the
index and searches it by halving.

## Main definitions

* `Record` — a trivially copyable type with a key.
* `File`, `KVIndex`, `KVStore` — the classes of the same names.
* `File.scan` — the linear scan that a lookup is to agree with.
-/

namespace TpAdvanced

open CText

/-- A type that is read off its bytes, and the key in it. -/
class Record (Key : outParam Type) (Data : Type) where
  sizeof : ℕ
  sizeof_pos : 0 < sizeof
  ofBytes : Bytes → Data
  key : Data → Key

theorem sizeof_pos (Data : Type) {Key : Type} [Record Key Data] : 0 < Record.sizeof Data :=
  Record.sizeof_pos

/-- A mapped file.  A mapping takes up less than half of the address space. -/
structure File where
  data : Bytes
  size_lt : data.length < 2 ^ 63

namespace File

def size (f : File) : ℕ := f.data.length

/-- The bytes from `position` on.  Behind the end of the file there are zeros. -/
def bytesAt (f : File) (position n : ℕ) : Bytes :=
  (f.data.drop position ++ List.replicate n 0).take n

variable {Key Data : Type} [Record Key Data]

/-- `read_at`. -/
def readAt (f : File) (position : ℕ) : Data :=
  Record.ofBytes (f.bytesAt position (Record.sizeof Data))

end File

/-- `KVIndex`: where each page begins, under the first key of the page. -/
structure KVIndex (Key : Type) where
  store : List (Key × ℕ)
  pageSize : ℕ
  lastPageSize : ℕ
  deriving Repr

namespace KVIndex

variable {Key : Type} [LinearOrder Key]

section Construction

variable (Data : Type) [Record Key Data]

/-- The body of the loop in the constructor. -/
def indexStep (file : File) (pageSize : ℕ) :
    ℕ × List (Key × ℕ) → (ℕ × List (Key × ℕ)) ⊕ List (Key × ℕ)
  | (i, store) =>
    if i < file.size then
      let d : Data := file.readAt i
      .inl (SizeT.add i pageSize, OrderedMap.insert store (Record.key d) i)
    else .inr store

/-- `page_size`. -/
def pageBytes (keysPerIndexPage : ℕ) : ℕ := SizeT.mul (Record.sizeof Data) keysPerIndexPage

/-- The constructor, with the number of passes its loop is given. -/
def new (file : File) (keysPerIndexPage fuel : ℕ) : Option (KVIndex Key) :=
  let pageSize := pageBytes Data keysPerIndexPage
  let lastPageSize := file.size % pageSize
  let lastPageSize := if lastPageSize = 0 then pageSize else lastPageSize
  (While.run (indexStep Data file pageSize) fuel (0, [])).map fun store =>
    ⟨store, pageSize, lastPageSize⟩

end Construction

/-- `find_page`.  The comparison with `end()->first` never matches. -/
def findPage (index : KVIndex Key) (key : Key) : Option (ℕ × ℕ) :=
  let itlow := OrderedMap.lowerBound index.store key
  match index.store[itlow]? with
  | some (first, second) =>
    if first = key then some (second, SizeT.add second index.pageSize)
    else if itlow ≠ 0 then
      index.store[itlow - 1]?.map fun e => (e.2, SizeT.add e.2 index.pageSize)
    else none
  | none => index.store[itlow - 1]?.map fun e => (e.2, SizeT.add e.2 index.lastPageSize)

end KVIndex

structure KVStore (Key : Type) where
  file : File
  index : KVIndex Key

namespace KVStore

variable {Key Data : Type} [LinearOrder Key] [Record Key Data]

section

variable (Data)

/-- The constructor. -/
def new (file : File) (keysPerIndexPage fuel : ℕ) : Option (Except String (KVStore Key)) :=
  if file.size % Record.sizeof Data ≠ 0 then
    some (.error "size is not multiply of sizeof(Data)")
  else (KVIndex.new Data file keysPerIndexPage fuel).map fun index => .ok ⟨file, index⟩

/-- The body of the loop in `find_by_key`. -/
def findStep (file : File) (key : Key) : ℕ × ℕ → (ℕ × ℕ) ⊕ Option Data
  | (begin_, end_) =>
    if begin_ ≤ end_ then
      let mid := SizeT.add begin_ (SizeT.sub end_ begin_ / 2)
      let middata : Data := file.readAt (SizeT.mul mid (Record.sizeof Data))
      if Record.key middata = key then .inr (some middata)
      else if key < Record.key middata then .inl (begin_, SizeT.sub mid 1)
      else .inl (SizeT.add mid 1, end_)
    else .inr none

end

/-- `find_by_key`, with the number of passes its loop is given. -/
def findByKey (store : KVStore Key) (key : Key) (offsetBegin offsetEnd fuel : ℕ) :
    Option (Option Data) :=
  While.run (findStep Data store.file key) fuel
    (offsetBegin / Record.sizeof Data, offsetEnd / Record.sizeof Data)

/-- `get`. -/
def get (store : KVStore Key) (key : Key) (fuel : ℕ) : Option (Option Data) :=
  match store.index.findPage key with
  | some (pageBegin, pageEnd) => store.findByKey key pageBegin pageEnd fuel
  | none => some none

end KVStore

/-! ### The example server -/

namespace KvstoreHttp

/-- `Data` of the example server: a 64-bit key and 20 bytes, padded to 32 bytes. -/
structure Data where
  key : ℕ
  data : Bytes
  deriving DecidableEq

/-- The key is stored with its lowest byte first. -/
instance : Record ℕ Data where
  sizeof := 32
  sizeof_pos := by decide
  ofBytes bytes := ⟨(bytes.take 8).foldr (fun b n => b.toNat + 256 * n) 0, (bytes.drop 8).take 20⟩
  key := Data.key

/-- The bytes of a record with a small key, filled with `x`. -/
def recordBytes (key : UInt8) : Bytes :=
  key :: List.replicate 7 0 ++ (List.replicate 20 (120 : UInt8) ++ List.replicate 4 0)

end KvstoreHttp

/-! ### What a lookup is to give -/

namespace File

variable {Key : Type} (Data : Type) [LinearOrder Key] [Record Key Data]

/-- How many records there are. -/
def count (f : File) : ℕ := f.size / Record.sizeof Data

/-- The record at this place. -/
def record (f : File) (i : ℕ) : Data := f.readAt (i * Record.sizeof Data)

/-- A record of zeros. -/
def zeroRecord : Data := Record.ofBytes (List.replicate (Record.sizeof Data) 0)

/-- The keys of the records increase. -/
def KeysIncrease (f : File) : Prop :=
  ∀ i j, i < j → j < f.count Data →
    Record.key (f.record Data i) < Record.key (f.record Data j)

/-- The linear scan. -/
def scan (f : File) (key : Key) : Option Data :=
  ((List.range (f.count Data)).map (f.record Data)).find? fun d => Record.key d = key

end File

end TpAdvanced
