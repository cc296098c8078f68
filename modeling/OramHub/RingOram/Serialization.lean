import OramHub.Lib.Program
import OramHub.Lib.LittleEndian
import OramHub.RingOram.RingBucket

/-! # The binary formats of Ring ORAM

Writers append to a byte vector, readers move an offset through one. All offset arithmetic is
that of `size_t`; a vector that would outgrow `max_size()` is a `std::length_error`.
-/
namespace OramHub.RingOram
open OramHub.Core OramHub.Program OramHub.LittleEndian
set_option autoImplicit false

def appendUint64 (out : Bytes) (value : UInt64) : Bytes := out ++ encodeWord value

def appendBytes (out bytes : Bytes) : Bytes :=
  appendUint64 out (UInt64.ofNat bytes.length) ++ bytes

def appendBoolVector (out : Bytes) (values : List Bool) : Bytes :=
  values.foldl (fun out value => out ++ [if value then 1 else 0])
    (appendUint64 out (UInt64.ofNat values.length))

def appendField (out : Bytes) (field : EncryptedField) : Bytes :=
  appendBytes (appendBytes out field.iv) field.ciphertext

def appendFields (out : Bytes) (fields : List EncryptedField) : Bytes :=
  fields.foldl appendField (appendUint64 out (UInt64.ofNat fields.length))

def appendRingBlock (out : Bytes) (block : RingBlock) : Bytes :=
  appendBytes (appendUint64 (appendUint64 out block.addr) block.leaf) block.data

/-- The finished vector, unless it would have grown past `max_size()`. -/
def checkSize (out : Bytes) : Except Exception Bytes :=
  if vectorMaxSize < out.length then .error (.lengthError "vector::_M_range_insert") else .ok out

def serializeRingBlock (block : RingBlock) : Except Exception Bytes :=
  checkSize (appendRingBlock [] block)

def serializeRingBlocks (blocks : List RingBlock) : Except Exception Bytes :=
  checkSize (blocks.foldl appendRingBlock (appendUint64 [] (UInt64.ofNat blocks.length)))

def appendMetadata (out : Bytes) (metadata : RingBucketMetadata) : Bytes :=
  let out := appendBoolVector (appendUint64 out metadata.count) metadata.valids
  appendFields (appendFields (appendFields out metadata.addrs) metadata.leaves) metadata.ptrs

def serializeRingBucketMetadata (metadata : RingBucketMetadata) : Except Exception Bytes :=
  checkSize (appendMetadata [] metadata)

def serializeEncryptedRingBucket (bucket : EncryptedRingBucket) : Except Exception Bytes :=
  let out := appendBoolVector (appendUint64 [] bucket.count) bucket.valids
  let out := appendFields (appendFields (appendFields out bucket.addrs) bucket.leaves) bucket.ptrs
  checkSize (appendFields out bucket.data)

/-- An allocation a reader asked for, with the number of input bytes left at that moment. -/
structure Allocation where
  elements : Nat
  bytesLeft : Nat
  deriving DecidableEq, Repr

/-- A slice of the input that a reader has cut out after its bounds check. -/
structure Slice where
  start : UInt64
  size : UInt64
  deriving DecidableEq, Repr

/-- `allocations` and `slices` record what the reader has done so far. -/
structure Cursor where
  offset : UInt64 := 0
  allocations : List Allocation := []
  slices : List Slice := []
  deriving DecidableEq, Repr

/-- The reader cuts out `size` bytes and moves on. -/
def Cursor.advance (cursor : Cursor) (size : UInt64) : Cursor :=
  { cursor with offset := cursor.offset + size, slices := cursor.slices ++ [⟨cursor.offset, size⟩] }

abbrev Reader := EStateM Exception Cursor

def readUint64 (bytes : Bytes) : Reader UInt64 := do
  let cursor ← get
  throwIf (UInt64.ofNat bytes.length < cursor.offset + 8)
    (.invalidArgument "Ring ORAM serialized payload is truncated")
  set (cursor.advance 8)
  return decodeWord ((bytes.drop cursor.offset.toNat).take 8)

/-- `size` elements are requested. -/
def Cursor.request (cursor : Cursor) (bytes : Bytes) (size : UInt64) : Cursor :=
  let allocation := ⟨size.toNat, bytes.length - cursor.offset.toNat⟩
  { cursor with allocations := cursor.allocations ++ [allocation] }

/-- A vector of `size` elements of `elementSize` bytes each is requested. -/
def allocate (bytes : Bytes) (elementSize : Nat) (size : UInt64) (what : String) : Reader Unit := do
  modify fun cursor => cursor.request bytes size
  throwIf (vectorMaxSize / elementSize < size.toNat) (.lengthError what)

/-- The next `size` bytes; `what` is thrown when the input is too short for them. -/
def readRange (bytes : Bytes) (size : UInt64) (what : String) : Reader Bytes := do
  let cursor ← get
  throwIf (UInt64.ofNat bytes.length < cursor.offset + size) (.invalidArgument what)
  allocate bytes 1 size "cannot create std::vector larger than max_size()"
  modify fun cursor => cursor.advance size
  return (bytes.drop cursor.offset.toNat).take size.toNat

def readBytes (bytes : Bytes) : Reader Bytes := do
  let size ← readUint64 bytes
  readRange bytes size "Ring ORAM serialized byte vector is truncated"

/-- The number of 64-bit words in which `std::vector<bool>` keeps `size` flags. -/
def wordCount (size : UInt64) : UInt64 := (size + 63) / 64

/-- The next `size` bytes as flags. `std::vector<bool>(size, false)` is not compared with
`max_size()`. -/
def readFlags (bytes : Bytes) (size : UInt64) : Reader (List Bool) := do
  let cursor ← get
  throwIf (UInt64.ofNat bytes.length < cursor.offset + size)
    (.invalidArgument "Ring ORAM serialized bool vector is truncated")
  modify fun cursor => cursor.request bytes size
  -- The loop writes behind the words when `size + 63` has wrapped around, and reads behind the
  -- input when `*offset + size` has.
  throwIf (64 * (wordCount size).toNat < size.toNat) (.undefinedBehavior "result[i]")
  throwIf (bytes.length < cursor.offset.toNat + size.toNat)
    (.undefinedBehavior "bytes[*offset + i]")
  modify fun cursor => cursor.advance size
  return ((bytes.drop cursor.offset.toNat).take size.toNat).map fun byte => byte != 0

def readBoolVector (bytes : Bytes) : Reader (List Bool) := do
  let size ← readUint64 bytes
  readFlags bytes size

def readField (bytes : Bytes) : Reader EncryptedField := do
  let iv ← readBytes bytes
  let ciphertext ← readBytes bytes
  return ⟨iv, ciphertext⟩

/-- `count` items in sequence. -/
def readMany {α : Type} (item : Reader α) : Nat → Reader (List α)
  | 0 => return []
  | count + 1 => do
    let head ← item
    let tail ← readMany item count
    return head :: tail

/-- `elementSize` is what an item takes up in the vector that is reserved for them. -/
def readCounted {α : Type} (bytes : Bytes) (elementSize : Nat)
    (item : Reader α) : Reader (List α) := do
  let size ← readUint64 bytes
  allocate bytes elementSize size "vector::reserve"
  readMany item size.toNat

def readFields (bytes : Bytes) : Reader (List EncryptedField) :=
  readCounted bytes encryptedFieldSize (readField bytes)

def readRingBlockPayload (bytes : Bytes) : Reader RingBlock := do
  let addr ← readUint64 bytes
  let leaf ← readUint64 bytes
  let data ← readBytes bytes
  return ⟨addr, leaf, data⟩

/-- The loop of `DeserializeRingBlocks`. -/
def readRingBlocks (bytes : Bytes) : Reader (List RingBlock) :=
  readCounted bytes ringBlockSize (readRingBlockPayload bytes)

/-- Runs a reader from the first byte and rejects what it leaves over. -/
def readWhole {α : Type} (bytes : Bytes) (reader : Reader α) (trailing : String) :
    Except Exception α :=
  match reader.run {} with
  | .error e _ => .error e
  | .ok value cursor =>
    if cursor.offset ≠ UInt64.ofNat bytes.length then .error
      (.invalidArgument trailing) else .ok value

def deserializeRingBlock (bytes : Bytes) : Except Exception RingBlock :=
  readWhole bytes (readRingBlockPayload bytes) "Ring ORAM block has trailing bytes"

def deserializeRingBlocks (bytes : Bytes) : Except Exception (List RingBlock) :=
  readWhole bytes (readRingBlocks bytes) "Ring ORAM stash has trailing bytes"

def readMetadata (bytes : Bytes) : Reader RingBucketMetadata := do
  let count ← readUint64 bytes
  let valids ← readBoolVector bytes
  let addrs ← readFields bytes
  let leaves ← readFields bytes
  let ptrs ← readFields bytes
  return { count, valids, addrs, leaves, ptrs }

def deserializeRingBucketMetadata (bytes : Bytes) : Except Exception RingBucketMetadata :=
  readWhole bytes (readMetadata bytes) "Ring ORAM bucket metadata has trailing bytes"

def readEncryptedBucket (bytes : Bytes) : Reader EncryptedRingBucket := do
  let count ← readUint64 bytes
  let valids ← readBoolVector bytes
  let addrs ← readFields bytes
  let leaves ← readFields bytes
  let ptrs ← readFields bytes
  let data ← readFields bytes
  return { count, valids, addrs, leaves, ptrs, data }

def deserializeEncryptedRingBucket (bytes : Bytes) : Except Exception EncryptedRingBucket :=
  readWhole bytes (readEncryptedBucket bytes) "Ring ORAM encrypted bucket has trailing bytes"

end OramHub.RingOram
