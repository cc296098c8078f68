import OramHub.Crypto.AesCtr
import OramHub.Lib.Program
import OramHub.PathOram.Serializer

/-! # The Path ORAM server

Buckets are stored in the clear, one file each, and encrypted with the shared key on the wire. A
handler that throws keeps what it has already written, and ends the command loop.
-/
namespace OramHub.PathOram
open OramHub.Core OramHub.Program OramHub.Crypto
set_option autoImplicit false

/-- What is fixed for a whole run. Client and server draw from sources of their own. -/
structure Env where
  treeHeight : UInt64
  numBlocks : UInt64
  entropy : Entropy
  serverEntropy : Entropy
  keystream : Bytes → Bytes → Nat → UInt8

def sharedKey : Bytes := List.replicate kKeySize128 0x42

def Env.cipher (env : Env) : AesCtr := ⟨sharedKey, env.keystream⟩

inductive Request
  | readBucket (index : UInt64)
  | writeBucket (index : UInt64) (payload : Bytes)
  | readPath (count : UInt64) (indices : List UInt64)
  | writePath (count : UInt64) (buckets : List (UInt64 × Bytes))
  | quit
  deriving DecidableEq, Repr

/-- `silent` is the answer to a request that is not acknowledged. -/
inductive Response
  | bucket (payload : Bytes)
  | path (count : UInt64) (payloads : List Bytes)
  | ack
  | silent
  deriving DecidableEq, Repr

structure RequestStats where
  readBucketRequests : Nat := 0
  writeBucketRequests : Nat := 0
  readPathRequests : Nat := 0
  writePathRequests : Nat := 0
  deriving DecidableEq, Repr

/-- `ivs` and `rand` count the draws made so far. -/
structure Server where
  numNodes : UInt64 := 0
  numLeaves : UInt64 := 0
  nodeCount : UInt64 := 0
  treeDir : Bool := false
  files : Nat → Option Bytes := fun _ => none
  running : Bool := true
  stats : RequestStats := {}
  ivs : Nat := 0
  rand : Nat := 0

abbrev ServerM := EStateM Exception Server

section Encryption

variable (env : Env)

/-- The IV is sent in front of the ciphertext. -/
def sealBucket (iv : Bytes) (bucket : Bucket) : Except Exception Bytes := do
  let ciphertext ← env.cipher.encrypt (serializeBucket bucket) iv
  return iv ++ ciphertext

/-- `DecryptBucket`, for any `cipher_->Decrypt`. -/
def decryptBucketWith (decrypt : Bytes → Bytes → Except Exception Bytes)
    (payload : Bytes) : Except Exception Bucket :=
  if payload.length < kIVSize then .error (.runtimeError "Invalid encrypted bucket data")
  else do
    let plaintext ← decrypt (payload.drop kIVSize) (payload.take kIVSize)
    deserializeBucket plaintext kBucketSize

def decryptBucket (payload : Bytes) : Except Exception Bucket :=
  decryptBucketWith env.cipher.decrypt payload

def Server.encryptBucket (bucket : Bucket) : ServerM Bytes := do
  let server ← get
  set { server with ivs := server.ivs + 1 }
  fromExcept (sealBucket env (env.serverEntropy.iv server.ivs).toList bucket)

end Encryption

section Disk

def bucketShape (bucket : Bucket) : Prop :=
  bucket.capacity = kBucketSize ∧ bucket.blocks.length ≤ kBucketSize

instance (bucket : Bucket) : Decidable (bucketShape bucket) := inferInstanceAs (Decidable (_ ∧ _))

def validateBucketShape (bucket : Bucket) (context : String) : ServerM Unit :=
  throwIf (¬ bucketShape bucket)
    (.invalidArgument ("Path ORAM " ++ context ++ " bucket shape mismatch"))

def validateInitialized : ServerM Unit := do
  let server ← get
  throwIf (server.nodeCount ≠ server.numNodes ∨ server.treeDir = false)
    (.runtimeError "Path ORAM server has not been initialized")

def readBucketFromDisk (index : UInt64) : ServerM Bucket := do
  let server ← get
  throwIf (server.nodeCount ≤ index) (.outOfRange "Invalid bucket index")
  match server.files index.toNat with
  | none => throw (.runtimeError "Path ORAM bucket file is missing")
  | some bytes =>
    throwIf (bytes.length < 8) (.runtimeError "Path ORAM bucket file is malformed")
    let bucket ← fromExcept (deserializeBucket bytes kBucketSize)
    validateBucketShape bucket "stored"
    return bucket

def writeBucketToDisk (index : UInt64) (bucket : Bucket) : ServerM Unit := do
  let server ← get
  throwIf (server.nodeCount ≤ index) (.outOfRange "Invalid bucket index")
  validateBucketShape bucket "stored"
  modify fun server =>
    { server with
      treeDir := true
      files := Function.update server.files index.toNat (some (serializeBucket bucket)) }

end Disk

section Init

variable (env : Env)

/-- `std::rand() % 256`, `count` times. -/
def randomBytes (count : Nat) : ServerM Bytes := do
  let server ← get
  set { server with rand := server.rand + count }
  return (List.range count).map fun i =>
    UInt8.ofNat (env.serverEntropy.draw (server.rand + i) % 256)

/-- The loop of `FillBucketWithDummies`, with `missing` blocks still to be added. -/
def fillBucketWithDummies (bucket : Bucket) : Nat → ServerM Bucket
  | 0 => return bucket
  | missing + 1 => do
    let data ← randomBytes env kBlockSize
    fillBucketWithDummies (bucket.addBlock ⟨kDummyId, data⟩) missing

/-- A bucket of `Init` before it is filled up: leaf `i` takes block `i`. -/
def initialBucket (blocks : List Block) (leafOffset : UInt64) (index : Nat) : Bucket :=
  let empty : Bucket := { capacity := kBucketSize }
  if leafOffset.toNat ≤ index then
    match blocks[index - leafOffset.toNat]? with
    | some block => empty.addBlock block
    | none => empty
  else empty

/-- One round of the loop of `Init`. -/
def initBucket (blocks : List Block) (leafOffset : UInt64) (index : Nat) : ServerM Unit := do
  let bucket := initialBucket blocks leafOffset index
  let filled ← fillBucketWithDummies env bucket (kBucketSize - bucket.blocks.length)
  writeBucketToDisk (UInt64.ofNat index) filled

def Server.init (blocks : List Block) : ServerM Unit := do
  let server ← get
  throwIf (server.numLeaves.toNat < blocks.length)
    (.invalidArgument "Too many blocks for tree capacity")
  set { server with files := fun _ => none, treeDir := true, nodeCount := server.numNodes }
  let leafOffset ← fromExcept (getLeafOffset env.treeHeight)
  forM (List.range server.numNodes.toNat) (initBucket env blocks leafOffset)

def Server.construct : ServerM Unit := do
  let numNodes ← fromExcept (getNumTreeNodes env.treeHeight)
  let numLeaves ← fromExcept (getNumLeaves env.treeHeight)
  modify fun server => { server with numNodes := numNodes, numLeaves := numLeaves }

end Init

section Handlers

variable (env : Env)

def handleReadBucket (index : UInt64) : ServerM Response := do
  validateInitialized
  modify fun server =>
    { server with stats.readBucketRequests := server.stats.readBucketRequests + 1 }
  let bucket ← readBucketFromDisk index
  let payload ← Server.encryptBucket env bucket
  return .bucket payload

def handleWriteBucket (index : UInt64) (payload : Bytes) : ServerM Response := do
  validateInitialized
  modify fun server =>
    { server with stats.writeBucketRequests := server.stats.writeBucketRequests + 1 }
  let bucket ← fromExcept (decryptBucket env payload)
  writeBucketToDisk index bucket
  return .silent

/-- One round of the second loop of `HandleReadPath`. -/
def sendBucket (sent : List Bytes) (index : UInt64) : ServerM (List Bytes) := do
  let bucket ← readBucketFromDisk index
  let payload ← Server.encryptBucket env bucket
  return sent ++ [payload]

def handleReadPath (count : UInt64) (indices : List UInt64) : ServerM Response := do
  validateInitialized
  throwIf (count ≠ env.treeHeight + 1)
    (.invalidArgument "Path ORAM read path request count mismatch")
  let wanted ← (List.range count.toNat).mapM (recvItem indices)
  modify fun server => { server with stats.readPathRequests := server.stats.readPathRequests + 1 }
  let payloads ← wanted.foldlM (sendBucket env) []
  return .path count payloads

/-- One round of the loop of `HandleWritePath`. -/
def storeBucket (buckets : List (UInt64 × Bytes)) (i : Nat) : ServerM Unit := do
  let (index, payload) ← recvItem buckets i
  let bucket ← fromExcept (decryptBucket env payload)
  writeBucketToDisk index bucket

def handleWritePath (count : UInt64) (buckets : List (UInt64 × Bytes)) : ServerM Response := do
  validateInitialized
  throwIf (count ≠ env.treeHeight + 1)
    (.invalidArgument "Path ORAM write path request count mismatch")
  forM (List.range count.toNat) (storeBucket env buckets)
  modify fun server => { server with stats.writePathRequests := server.stats.writePathRequests + 1 }
  return .ack

/-- One round of the command loop `HandleRequests`. -/
def handleRequest : Request → ServerM Response
  | .readBucket index => handleReadBucket env index
  | .writeBucket index payload => handleWriteBucket env index payload
  | .readPath count indices => handleReadPath env count indices
  | .writePath count buckets => handleWritePath env count buckets
  | .quit => do
    modify fun server => { server with running := false }
    return .silent

end Handlers
end OramHub.PathOram
