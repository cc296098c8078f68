import OramHub.Network.NetIO
import OramHub.RingOram.Serialization

/-! # The Ring ORAM server

One request is handled at a time against the bucket files. A handler that throws keeps what it
has already written, and ends the command loop.
-/
namespace OramHub.RingOram
open OramHub.Core OramHub.Program OramHub.LittleEndian OramHub.Network
set_option autoImplicit false

inductive Request
  | init (nodeCount : UInt64) (buckets : List Bytes)
  | readPathMetadata (leaf : UInt64)
  | xorPathSlots (leaf offsetCount : UInt64) (offsets : List UInt64)
  | readBucket (bucketIdx : UInt64)
  | writeBucket (bucketIdx : UInt64) (bucket : Bytes)
  | readBucketCount (bucketIdx : UInt64)
  | readStats
  deriving DecidableEq, Repr

inductive Response
  | ack
  | pathMetadata (pathSize : UInt64) (metadata : List Bytes)
  | xorPath (aggregate : Bytes) (ivCount : UInt64) (ivs : List Bytes)
  | bucket (bytes : Bytes)
  | bucketCount (count : UInt64)
  | stats (xorPathReadCount lastXorPathSlotCount : UInt64)
  deriving DecidableEq, Repr

/-- The bytes a client sends for a request. -/
def Request.encode : Request → Bytes
  | .init nodeCount buckets => 'I'.toUInt8 :: (encodeWord nodeCount ++ buckets.flatMap sendVec)
  | .readPathMetadata leaf => 'M'.toUInt8 :: encodeWord leaf
  | .xorPathSlots leaf offsetCount offsets =>
    'X'.toUInt8 :: (encodeWord leaf ++ encodeWord offsetCount ++ offsets.flatMap encodeWord)
  | .readBucket bucketIdx => 'B'.toUInt8 :: encodeWord bucketIdx
  | .writeBucket bucketIdx bucket => 'W'.toUInt8 :: (encodeWord bucketIdx ++ sendVec bucket)
  | .readBucketCount bucketIdx => 'T'.toUInt8 :: encodeWord bucketIdx
  | .readStats => ['S'.toUInt8]

/-- The bytes the server sends back. -/
def Response.encode : Response → Bytes
  | .ack => ['K'.toUInt8]
  | .pathMetadata pathSize metadata => encodeWord pathSize ++ metadata.flatMap sendVec
  | .xorPath aggregate ivCount ivs => sendVec aggregate ++ encodeWord ivCount ++ ivs.flatMap sendVec
  | .bucket bytes => sendVec bytes
  | .bucketCount count => encodeWord count
  | .stats xorPathReadCount lastXorPathSlotCount =>
    encodeWord xorPathReadCount ++ encodeWord lastXorPathSlotCount

structure Server where
  /-- Contents of `bucket_<index>.bin` under the tree directory. -/
  files : Nat → Option Bytes := fun _ => none
  nodeCount : UInt64 := 0
  xorPathReadCount : UInt64 := 0
  lastXorPathSlotCount : UInt64 := 0
  running : Bool := true

abbrev ServerM := EStateM Exception Server

def validateConfig (cfg : RuntimeConfig) : Except Exception Unit :=
  if cfg.numBlocks = 0 then .error (.invalidArgument "Ring ORAM requires at least one block")
  else if 63 ≤ cfg.treeDepth then .error (.invalidArgument "Ring ORAM tree depth is too large")
  else if cfg.z = 0 then .error (.invalidArgument "Ring ORAM bucket capacity Z must be positive")
  else if cfg.s = 0 then .error (.invalidArgument "Ring ORAM dummy slot count S must be positive")
  else if cfg.a = 0 then .error (.invalidArgument "Ring ORAM eviction rate A must be positive")
  else if cfg.blockSize = 0 then .error (.invalidArgument "Ring ORAM block size must be positive")
  else .ok ()

section Handlers

variable (cfg : RuntimeConfig)

def validateInitialized : ServerM Unit := do
  let server ← get
  throwIf (server.nodeCount ≠ cfg.numTreeNodes)
    (.runtimeError "Ring ORAM server has not been initialized")

/-- The shape test of `ValidateBucketShape`. -/
def bucketShape (bucket : EncryptedRingBucket) : Prop :=
  bucket.valids.length = cfg.bucketSlots.toNat ∧ bucket.addrs.length = cfg.z.toNat ∧
    bucket.leaves.length = cfg.z.toNat ∧ bucket.ptrs.length = cfg.z.toNat ∧
    bucket.data.length = cfg.bucketSlots.toNat

instance (bucket : EncryptedRingBucket) : Decidable (bucketShape cfg bucket) :=
  inferInstanceAs (Decidable (_ ∧ _))

def validateBucketShape (bucket : EncryptedRingBucket) (context : String) : ServerM Unit :=
  throwIf (¬ bucketShape cfg bucket)
    (.invalidArgument ("Ring ORAM " ++ context ++ " bucket shape mismatch"))

def readBucketFromDisk (bucketIdx : UInt64) : ServerM EncryptedRingBucket := do
  let server ← get
  throwIf (server.nodeCount ≤ bucketIdx) (.outOfRange "Ring ORAM bucket index out of range")
  match server.files bucketIdx.toNat with
  | none => throw (.runtimeError "Ring ORAM bucket file is missing")
  | some bytes =>
    let bucket ← fromExcept (deserializeEncryptedRingBucket bytes)
    validateBucketShape cfg bucket "stored"
    return bucket

def writeBucketToDisk (bucketIdx : UInt64) (bucket : EncryptedRingBucket) : ServerM Unit := do
  let server ← get
  throwIf (server.nodeCount ≤ bucketIdx) (.outOfRange "Ring ORAM bucket index out of range")
  validateBucketShape cfg bucket "stored"
  let bytes ← fromExcept (serializeEncryptedRingBucket bucket)
  modify fun server =>
    { server with files := Function.update server.files bucketIdx.toNat (some bytes) }

def metadataFromBucket (bucket : EncryptedRingBucket) : RingBucketMetadata where
  count := bucket.count
  valids := bucket.valids
  addrs := bucket.addrs
  leaves := bucket.leaves
  ptrs := bucket.ptrs

/-- One round of the loop of `HandleInit`. -/
def initBucket (buckets : List Bytes) (i : Nat) : ServerM Unit := do
  match buckets[i]? with
  | none => throw (.runtimeError "NetIO recv failed")
  | some bytes =>
    let bucket ← fromExcept (deserializeEncryptedRingBucket bytes)
    validateBucketShape cfg bucket "init"
    writeBucketToDisk cfg (UInt64.ofNat i) bucket

def handleInit (nodeCount : UInt64) (buckets : List Bytes) : ServerM Response := do
  throwIf (nodeCount ≠ cfg.numTreeNodes) (.invalidArgument "Ring ORAM init tree size mismatch")
  modify fun server => { server with files := fun _ => none, nodeCount := nodeCount }
  forM (List.range nodeCount.toNat) (initBucket cfg buckets)
  return .ack

/-- One round of the loop of `HandleReadPathMetadata`. -/
def readMetadataOf (sent : List Bytes) (bucketIdx : UInt64) : ServerM (List Bytes) := do
  let bucket ← readBucketFromDisk cfg bucketIdx
  let bytes ← fromExcept (serializeRingBucketMetadata (metadataFromBucket bucket))
  return sent ++ [bytes]

def handleReadPathMetadata (leaf : UInt64) : ServerM Response := do
  validateInitialized cfg
  let path ← fromExcept (cfg.getPathIndices leaf)
  let metadata ← path.foldlM (readMetadataOf cfg) []
  return .pathMetadata (UInt64.ofNat path.length) metadata

def serverXorInto (target source : Bytes) : Except Exception Bytes :=
  if target.length ≠
    source.length then .error (.invalidArgument "Ring ORAM server XOR size mismatch")
  else .ok (target.zipWith (· ^^^ ·) source)

/-- One round of the loop of `HandleXorPathSlots`: the selected slot is added to the
aggregate and invalidated on disk. -/
def xorPathSlot (selected : Bytes × List Bytes) (slot : UInt64 × UInt64) :
    ServerM (Bytes × List Bytes) := do
  let bucket ← readBucketFromDisk cfg slot.1
  let offset := slot.2.toNat
  match bucket.data[offset]?, bucket.valids[offset]? with
  | some field, some valid =>
    throwIf (valid = false) (.runtimeError "Ring ORAM XOR path selected an invalid slot")
    throwIf (field.ciphertext.length ≠ cfg.blockSize.toNat)
      (.runtimeError "Ring ORAM XOR path block size mismatch")
    let aggregate ← fromExcept (serverXorInto selected.1 field.ciphertext)
    writeBucketToDisk cfg slot.1
      { bucket with valids := bucket.valids.set offset false, count := bucket.count + 1 }
    return (aggregate, selected.2 ++ [field.iv])
  | _, _ => throw (.outOfRange "Ring ORAM XOR path slot out of range")

def handleXorPathSlots (leaf offsetCount : UInt64) (offsets : List UInt64) : ServerM Response := do
  validateInitialized cfg
  let path ← fromExcept (cfg.getPathIndices leaf)
  throwIf (offsetCount ≠ UInt64.ofNat path.length)
    (.invalidArgument "Ring ORAM XOR path offset count mismatch")
  let selected ← (path.zip offsets).foldlM (xorPathSlot cfg)
    (List.replicate cfg.blockSize.toNat 0, [])
  modify fun server =>
    { server with
      xorPathReadCount := server.xorPathReadCount + 1
      lastXorPathSlotCount := offsetCount }
  return .xorPath selected.1 (UInt64.ofNat selected.2.length) selected.2

def handleReadBucket (bucketIdx : UInt64) : ServerM Response := do
  validateInitialized cfg
  let bucket ← readBucketFromDisk cfg bucketIdx
  let bytes ← fromExcept (serializeEncryptedRingBucket bucket)
  return .bucket bytes

def handleWriteBucket (bucketIdx : UInt64) (bytes : Bytes) : ServerM Response := do
  validateInitialized cfg
  let bucket ← fromExcept (deserializeEncryptedRingBucket bytes)
  validateBucketShape cfg bucket "write"
  writeBucketToDisk cfg bucketIdx bucket
  return .ack

def handleReadBucketCount (bucketIdx : UInt64) : ServerM Response := do
  validateInitialized cfg
  let bucket ← readBucketFromDisk cfg bucketIdx
  return .bucketCount bucket.count

def handleReadStats : ServerM Response := do
  let server ← get
  return .stats server.xorPathReadCount server.lastXorPathSlotCount

/-- One round of the command loop `HandleRequests`. -/
def handleRequest : Request → ServerM Response
  | .init nodeCount buckets => handleInit cfg nodeCount buckets
  | .readPathMetadata leaf => handleReadPathMetadata cfg leaf
  | .xorPathSlots leaf offsetCount offsets => handleXorPathSlots cfg leaf offsetCount offsets
  | .readBucket bucketIdx => handleReadBucket cfg bucketIdx
  | .writeBucket bucketIdx bytes => handleWriteBucket cfg bucketIdx bytes
  | .readBucketCount bucketIdx => handleReadBucketCount cfg bucketIdx
  | .readStats => handleReadStats

end Handlers
end OramHub.RingOram
