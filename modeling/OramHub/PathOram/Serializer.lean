import OramHub.Lib.LittleEndian
import OramHub.Lib.Program
import OramHub.PathOram.Config

/-! # The serialized form of blocks and buckets

`memcpy` and the range constructor of `std::vector` do not check the length of their input: a read
past its end is `undefinedBehavior`. A reader returns what it has read and the bytes that follow.
-/
namespace OramHub.PathOram
open OramHub.Core OramHub.Program OramHub.LittleEndian
set_option autoImplicit false

def serializeBlock (block : Block) : Bytes :=
  encodeWord block.id ++ encodeWord (UInt64.ofNat block.data.length) ++ block.data

def serializeBucket (bucket : Bucket) : Bytes :=
  encodeWord (UInt64.ofNat bucket.blocks.length) ++ bucket.blocks.flatMap serializeBlock

/-- `count` bytes from the front. -/
def readRange (bytes : Bytes) (count : Nat) : Except Exception (Bytes × Bytes) :=
  if bytes.length < count then .error (.undefinedBehavior "read past the end of a buffer")
  else .ok (bytes.take count, bytes.drop count)

def readWord (bytes : Bytes) : Except Exception (UInt64 × Bytes) := do
  let (word, rest) ← readRange bytes 8
  return (decodeWord word, rest)

def deserializeBlock (bytes : Bytes) : Except Exception (Block × Bytes) := do
  let (id, rest) ← readWord bytes
  let (size, rest) ← readWord rest
  let (data, rest) ← readRange rest size.toNat
  return (⟨id, data⟩, rest)

/-- The loop of `DeserializeBucket`. -/
def deserializeBlocks (bucket : Bucket) (bytes : Bytes) : Nat → Except Exception Bucket
  | 0 => return bucket
  | count + 1 => do
    let (block, rest) ← deserializeBlock bytes
    deserializeBlocks (bucket.addBlock block) rest count

/-- Bytes that follow the last block are ignored. -/
def deserializeBucket (bytes : Bytes) (capacity : Nat) : Except Exception Bucket := do
  let (count, rest) ← readWord bytes
  deserializeBlocks { capacity := capacity } rest count.toNat

section RoundTrip

variable {block : Block} {rest : Bytes}

theorem readRange_append (bytes rest : Bytes) :
    readRange (bytes ++ rest) bytes.length = .ok (bytes, rest) := by
  rw [readRange, if_neg (by rw [List.length_append]; omega), List.take_left, List.drop_left]

theorem readWord_append (word : UInt64) (rest : Bytes) :
    readWord (encodeWord word ++ rest) = .ok (word, rest) := by
  have hRead := readRange_append (encodeWord word) rest
  rw [length_encodeWord] at hRead
  rw [readWord, hRead]
  change Except.ok (decodeWord (encodeWord word), rest) = _
  rw [decodeWord_encodeWord]

/-- The size field of a block can hold the length of its data. -/
def Block.Sized (block : Block) : Prop := block.data.length < 2 ^ 64

theorem deserializeBlock_append (h : block.Sized) (rest : Bytes) :
    deserializeBlock (serializeBlock block ++ rest) = .ok (block, rest) := by
  have hSize : (UInt64.ofNat block.data.length).toNat = block.data.length :=
    UInt64.toNat_ofNat_of_lt' h
  rw [deserializeBlock, serializeBlock, List.append_assoc, List.append_assoc,
    readWord_append, ok_bind]
  dsimp only
  rw [readWord_append, ok_bind]
  dsimp only
  rw [hSize, readRange_append, ok_bind]
  rfl

theorem deserializeBlocks_append {blocks : List Block} (bucket : Bucket) (rest : Bytes)
    (hSized : ∀ block ∈ blocks, block.Sized)
    (hRoom : bucket.blocks.length + blocks.length ≤ bucket.capacity) :
    deserializeBlocks bucket (blocks.flatMap serializeBlock ++ rest) blocks.length =
      .ok { bucket with blocks := bucket.blocks ++ blocks } := by
  induction blocks generalizing bucket with
  | nil =>
    rw [List.append_nil]
    rfl
  | cons block blocks ih =>
    rw [List.length_cons] at hRoom
    have hAdd : bucket.addBlock block = { bucket with blocks := bucket.blocks ++ [block] } :=
      if_neg (by omega)
    rw [List.flatMap_cons, List.append_assoc, List.length_cons, deserializeBlocks,
      deserializeBlock_append (hSized block List.mem_cons_self)]
    change deserializeBlocks (bucket.addBlock block) _ _ = _
    rw [hAdd, ih _ (fun other hOther => hSized other (List.mem_cons_of_mem _ hOther)) ?_,
      List.append_assoc]
    · rfl
    · rw [List.length_append, List.length_singleton]
      change _ ≤ bucket.capacity
      omega

theorem deserializeBucket_serialize {bucket : Bucket}
    (hSized : ∀ block ∈ bucket.blocks, block.Sized)
    (hRoom : bucket.blocks.length ≤ bucket.capacity) (hCapacity : bucket.capacity < 2 ^ 64) :
    deserializeBucket (serializeBucket bucket) bucket.capacity = .ok bucket := by
  have hCount : (UInt64.ofNat bucket.blocks.length).toNat = bucket.blocks.length :=
    UInt64.toNat_ofNat_of_lt' (hRoom.trans_lt hCapacity)
  rw [deserializeBucket, serializeBucket, readWord_append]
  change deserializeBlocks { capacity := bucket.capacity } (bucket.blocks.flatMap serializeBlock)
    (UInt64.ofNat bucket.blocks.length).toNat = _
  have hRead := @deserializeBlocks_append bucket.blocks { capacity := bucket.capacity } [] hSized
    (by rw [List.length_nil, Nat.zero_add]; exact hRoom)
  rw [List.append_nil] at hRead
  rw [hCount, hRead]
  rfl

theorem length_serializeBlock (block : Block) :
    (serializeBlock block).length = 16 + block.data.length := by
  rw [serializeBlock, List.length_append, List.length_append, length_encodeWord, length_encodeWord]

theorem length_serializeBucket (bucket : Bucket) :
    (serializeBucket bucket).length = 8 +
      (bucket.blocks.map fun block => 16 + block.data.length).sum := by
  rw [serializeBucket, List.length_append, length_encodeWord, List.length_flatMap]
  exact congrArg (fun f => 8 + (bucket.blocks.map f).sum) (funext length_serializeBlock)

end RoundTrip
end OramHub.PathOram
