import OramHub.RingOram.Config

/-! # Ring ORAM blocks and plain buckets -/
namespace OramHub.RingOram
open OramHub.Core
set_option autoImplicit false

def kDummyAddress : UInt64 := 0xFFFFFFFFFFFFFFFF

structure RingBlock where
  addr : UInt64 := kDummyAddress
  leaf : UInt64 := 0
  data : Bytes := []
  deriving DecidableEq, Repr

/-- `sizeof(RingBlock)`: two words and a vector of three pointers. -/
def ringBlockSize : Nat := 40

def RingBlock.isDummy (block : RingBlock) : Bool := block.addr == kDummyAddress

def RingBlock.dummy (blockSize : Nat) : RingBlock :=
  ⟨kDummyAddress, 0, List.replicate blockSize 0⟩

/-- `std::vector::resize(size, 0)`. -/
def resize (data : Bytes) (size : Nat) : Bytes :=
  data.take size ++ List.replicate (size - data.length) 0

@[simp] theorem length_resize (data : Bytes) (size : Nat) : (resize data size).length = size := by
  simp only [resize, List.length_append, List.length_take, List.length_replicate]
  omega

theorem resize_of_length {data : Bytes} {size : Nat}
    (h : data.length = size) : resize data size = data := by
  simp [resize, ← h]

def normalizeBlock (block : RingBlock) (blockSize : Nat) : RingBlock :=
  { block with data := resize block.data blockSize }

structure EncryptedField where
  iv : Bytes
  ciphertext : Bytes
  deriving DecidableEq, Repr

/-- `sizeof(EncryptedField)`: two vectors. -/
def encryptedFieldSize : Nat := 48

structure EncryptedRingBucket where
  count : UInt64 := 0
  valids : List Bool := []
  addrs : List EncryptedField := []
  leaves : List EncryptedField := []
  ptrs : List EncryptedField := []
  data : List EncryptedField := []
  deriving DecidableEq, Repr

structure RingBucketMetadata where
  count : UInt64 := 0
  valids : List Bool := []
  addrs : List EncryptedField := []
  leaves : List EncryptedField := []
  ptrs : List EncryptedField := []
  deriving DecidableEq, Repr

structure RingBucket where
  count : UInt64 := 0
  valids : List Bool := []
  addrs : List UInt64 := []
  leaves : List UInt64 := []
  ptrs : List Nat := []
  data : List RingBlock := []
  z : UInt64 := 0
  s : UInt64 := 0
  blockSize : UInt64 := 0
  deriving DecidableEq, Repr

namespace RingBucket

def slotCount (bucket : RingBucket) : Nat := (bucket.z + bucket.s).toNat

/-- The constructor `RingBucket(z, s, block_size)`. -/
def empty (z s blockSize : UInt64) : RingBucket where
  valids := List.replicate (z + s).toNat true
  addrs := List.replicate z.toNat kDummyAddress
  leaves := List.replicate z.toNat 0
  ptrs := List.range z.toNat
  data := List.replicate (z + s).toNat (RingBlock.dummy blockSize.toNat)
  z := z
  s := s
  blockSize := blockSize

def placeBlock (bucket : RingBucket) (entry : RingBlock × Nat) : RingBucket :=
  let block := normalizeBlock entry.1 bucket.blockSize.toNat
  { bucket with
    addrs := bucket.addrs.set entry.2 block.addr
    leaves := bucket.leaves.set entry.2 block.leaf
    data := bucket.data.set (bucket.ptrs.getD entry.2 0) block }

/-- The bucket before any real block is put in place. -/
def cleared (bucket : RingBucket) (permutation : List Nat) : RingBucket :=
  { bucket with
    count := 0
    valids := List.replicate bucket.valids.length true
    addrs := List.replicate bucket.addrs.length kDummyAddress
    leaves := List.replicate bucket.leaves.length 0
    data := List.replicate bucket.slotCount (RingBlock.dummy bucket.blockSize.toNat)
    ptrs := permutation.take bucket.ptrs.length }

/-- `permutation` is the shuffled vector that `MakePermutation` returns. -/
def resetWithBlocks (bucket : RingBucket) (blocks : List RingBlock) (permutation : List Nat) :
    Except Exception RingBucket :=
  if bucket.z.toNat < blocks.length then
    .error (.invalidArgument "Too many real blocks for Ring ORAM bucket")
  else if blocks.any RingBlock.isDummy then
    .error (.invalidArgument "Ring ORAM bucket real block list contains a dummy")
  else if permutation.length < bucket.ptrs.length then
    .error (.undefinedBehavior "permutation[i]")
  else .ok (blocks.zipIdx.foldl placeBlock (bucket.cleared permutation))

def validReal (bucket : RingBucket) (i : Nat) : Bool :=
  bucket.addrs.getD i kDummyAddress != kDummyAddress &&
    bucket.valids.getD (bucket.ptrs.getD i 0) false

def validRealOffsets (bucket : RingBucket) : List Nat :=
  ((List.range bucket.addrs.length).filter bucket.validReal).map fun i => bucket.ptrs.getD i 0

def validDummyOffsets (bucket : RingBucket) : List Nat :=
  (List.range bucket.valids.length).filter fun offset =>
    bucket.valids.getD offset false && !bucket.validRealOffsets.contains offset

end RingBucket

/-- `MakePermutation` with the outcome of `std::shuffle`. -/
def makePermutation (size : Nat) (shuffle : Equiv.Perm (Fin size)) : List Nat :=
  List.ofFn fun i => (shuffle i).val

end OramHub.RingOram
