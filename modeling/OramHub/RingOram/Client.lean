import OramHub.Crypto.AesCtr
import OramHub.RingOram.Server

/-! # The Ring ORAM client

The client runs against the server through `roundTrip` and keeps its stash in a file.
`World` is everything one client/server pair consists of; `log` records what the server saw and
the bucket files after each request.
-/
namespace OramHub.RingOram
open OramHub.Core OramHub.Program OramHub.LittleEndian OramHub.Crypto
set_option autoImplicit false

/-- What is fixed for a whole run. -/
structure Env where
  cfg : RuntimeConfig
  entropy : Entropy
  keystream : Bytes → Bytes → Nat → UInt8

def fixedClientKey : Bytes := List.replicate kKeySize128 0x52

def Env.cipher (env : Env) : AesCtr := ⟨fixedClientKey, env.keystream⟩

/-- The in-memory stash and the stash file. -/
structure StashState where
  stash : List RingBlock := []
  file : Option Bytes := none
  initialized : Bool := false

structure Event where
  request : Request
  response : Response
  files : Nat → Option Bytes

/-- `prng` and `ivs` count the draws made so far. `fabricated` counts the accesses that made up a
zero block because the address was found nowhere. -/
structure World where
  stash : StashState := {}
  positionMap : UInt64 → Option UInt64 := fun _ => none
  round : Nat := 0
  evictionCounter : UInt64 := 0
  readPathCount : Nat := 0
  earlyReshuffleCount : Nat := 0
  prng : Nat := 0
  ivs : Nat := 0
  fabricated : Nat := 0
  server : Server := {}
  log : List Event := []

abbrev StashM := EStateM Exception StashState
abbrev PrngM := EStateM Exception Nat
abbrev IvM := EStateM Exception Nat
abbrev RingM := EStateM Exception World

def withStash {α : Type} (x : StashM α) : RingM α :=
  zoom World.stash (fun world stash => { world with stash := stash }) x

def withPrng {α : Type} (x : PrngM α) : RingM α :=
  zoom World.prng (fun world prng => { world with prng := prng }) x

def withIvs {α : Type} (x : IvM α) : RingM α :=
  zoom World.ivs (fun world ivs => { world with ivs := ivs }) x

section Network

variable (env : Env)

/-- Sends a request and waits for the answer. A server that has left its command loop has
closed the connection. -/
def roundTrip (request : Request) : RingM Response := fun world =>
  if world.server.running then
    match (handleRequest env.cfg request).run world.server with
    | .ok response server =>
      .ok response
        { world with server := server, log := world.log ++ [⟨request, response, server.files⟩] }
    | .error _ server =>
      .error (.runtimeError "NetIO recv failed")
        { world with server := { server with running := false } }
  else .error (.runtimeError "NetIO send failed") world

def expectAck (response : Response) : RingM Unit :=
  throwIf (response ≠ .ack) (.runtimeError "Unexpected Ring ORAM server acknowledgment")

def deserializeEach (payloads : List Bytes) : Except Exception (List RingBucketMetadata) :=
  payloads.mapM deserializeRingBucketMetadata

def fetchPathMetadata (leaf : UInt64) : RingM (List RingBucketMetadata) := do
  match ← roundTrip env (.readPathMetadata leaf) with
  | .pathMetadata _ payloads => fromExcept (deserializeEach payloads)
  | _ => throw (.runtimeError "NetIO recv failed")

def readEncryptedBucketFromServer (bucketIdx : UInt64) : RingM EncryptedRingBucket := do
  match ← roundTrip env (.readBucket bucketIdx) with
  | .bucket bytes => fromExcept (deserializeEncryptedRingBucket bytes)
  | _ => throw (.runtimeError "NetIO recv failed")

def writeEncryptedBucketToServer (bucketIdx : UInt64)
    (bucket : EncryptedRingBucket) : RingM Unit := do
  let bytes ← fromExcept (serializeEncryptedRingBucket bucket)
  let response ← roundTrip env (.writeBucket bucketIdx bytes)
  expectAck response

def fetchServerBucketCount (bucketIdx : UInt64) : RingM UInt64 := do
  match ← roundTrip env (.readBucketCount bucketIdx) with
  | .bucketCount count => return count
  | _ => throw (.runtimeError "NetIO recv failed")

/-- The two counters of `ServerStats`. -/
def fetchServerStats : RingM (UInt64 × UInt64) := do
  match ← roundTrip env .readStats with
  | .stats xorPathReadCount lastXorPathSlotCount => return (xorPathReadCount, lastXorPathSlotCount)
  | _ => throw (.runtimeError "NetIO recv failed")

end Network

section Randomness

variable (env : Env)

/-- One draw of `uniform_int_distribution(0, size - 1)`. -/
def uniformInt (size : Nat) : PrngM Nat := do
  let tick ← get
  set (tick + 1)
  return env.entropy.draw tick % size

def getRandomLeaf : PrngM UInt64 := do
  let leaf ← uniformInt env env.cfg.numLeaves.toNat
  return UInt64.ofNat leaf

def drawPermutation (size : Nat) : PrngM (List Nat) := do
  let tick ← get
  set (tick + 1)
  return makePermutation size (env.entropy.shuffle tick size)

def generateIV : IvM Bytes := do
  let tick ← get
  set (tick + 1)
  return (env.entropy.iv tick).toList

end Randomness

section Encryption

variable (env : Env)

def encryptBytes (plaintext : Bytes) : IvM EncryptedField := do
  let iv ← generateIV env
  let ciphertext ← fromExcept (env.cipher.encrypt plaintext iv)
  return ⟨iv, ciphertext⟩

def decryptBytes (field : EncryptedField) : Except Exception Bytes :=
  env.cipher.decrypt field.ciphertext field.iv

def bytesToUint64 (bytes : Bytes) : Except Exception UInt64 :=
  if bytes.length ≠ 8 then .error (.invalidArgument "Ring ORAM uint64 field has invalid size")
  else .ok (decodeWord bytes)

def encryptUint64 (value : UInt64) : IvM EncryptedField := encryptBytes env (encodeWord value)

def decryptUint64 (field : EncryptedField) : Except Exception UInt64 := do
  let bytes ← decryptBytes env field
  bytesToUint64 bytes

/-- `reserve` of a vector of encrypted fields. -/
def reserveFields (count : Nat) : IvM Unit :=
  throwIf (vectorMaxSize / encryptedFieldSize < count) (.lengthError "vector::reserve")

def encryptBucket (bucket : RingBucket) : IvM EncryptedRingBucket := do
  reserveFields bucket.addrs.length
  reserveFields bucket.leaves.length
  reserveFields bucket.ptrs.length
  reserveFields bucket.data.length
  let addrs ← bucket.addrs.mapM (encryptUint64 env)
  let leaves ← bucket.leaves.mapM (encryptUint64 env)
  let ptrs ← bucket.ptrs.mapM fun ptr => encryptUint64 env (UInt64.ofNat ptr)
  let data ← bucket.data.mapM fun block =>
    encryptBytes env (resize block.data env.cfg.blockSize.toNat)
  return { count := bucket.count, valids := bucket.valids, addrs, leaves, ptrs, data }

/-- Gives a decrypted slot the address and leaf that the metadata entry `i` records for it. -/
def labelSlot (bucket : RingBucket) (i : Nat) : RingBucket :=
  let offset := bucket.ptrs.getD i 0
  if bucket.addrs.getD i kDummyAddress = kDummyAddress ∨ bucket.data.length ≤ offset then bucket
  else
    { bucket with
      data := bucket.data.modify offset fun block =>
        { block with addr := bucket.addrs.getD i 0, leaf := bucket.leaves.getD i 0 } }

/-- The metadata fields of a bucket with everything in the clear. -/
def decryptFields (metadata : RingBucketMetadata) : Except Exception RingBucket := do
  let addrs ← metadata.addrs.mapM (decryptUint64 env)
  let leaves ← metadata.leaves.mapM (decryptUint64 env)
  let ptrs ← metadata.ptrs.mapM (decryptUint64 env)
  return { RingBucket.empty env.cfg.z env.cfg.s env.cfg.blockSize with
    count := metadata.count
    valids := metadata.valids
    addrs := addrs
    leaves := leaves
    ptrs := ptrs.map UInt64.toNat }

def decryptBucket (encrypted : EncryptedRingBucket) : Except Exception RingBucket :=
  if ¬ bucketShape env.cfg encrypted then
    .error (.invalidArgument "Ring ORAM encrypted bucket shape mismatch")
  else do
    let bucket ← decryptFields env (metadataFromBucket encrypted)
    let payloads ← encrypted.data.mapM (decryptBytes env)
    let data := payloads.map fun payload =>
      { addr := kDummyAddress, leaf := 0,
        data := resize payload env.cfg.blockSize.toNat : RingBlock }
    return (List.range env.cfg.z.toNat).foldl labelSlot { bucket with data := data }

def metadataShape (metadata : RingBucketMetadata) : Prop :=
  metadata.valids.length = env.cfg.bucketSlots.toNat ∧ metadata.addrs.length = env.cfg.z.toNat ∧
    metadata.leaves.length = env.cfg.z.toNat ∧ metadata.ptrs.length = env.cfg.z.toNat

instance (metadata : RingBucketMetadata) : Decidable (metadataShape env metadata) :=
  inferInstanceAs (Decidable (_ ∧ _))

def decryptMetadata (metadata : RingBucketMetadata) : Except Exception RingBucket :=
  if ¬ metadataShape env metadata then
    .error (.invalidArgument "Ring ORAM encrypted metadata shape mismatch")
  else decryptFields env metadata

end Encryption

section Stash

variable (env : Env)

def loadStashFromDisk : StashM Unit := do
  let state ← get
  match state.file with
  | none =>
    throwIf (state.initialized = true) (.runtimeError "Ring ORAM stash file is missing")
    set { state with stash := [] }
  | some bytes =>
    let stash ← fromExcept (deserializeRingBlocks bytes)
    set { state with stash := stash }
    throwIf (∃ block ∈ stash, block.data.length ≠ env.cfg.blockSize.toNat)
      (.runtimeError "Ring ORAM stash block size mismatch")

def saveStashToDisk : StashM Unit := do
  let state ← get
  let bytes ← fromExcept (serializeRingBlocks state.stash)
  set { state with file := some bytes }

def putBlockInStash (block : RingBlock) : StashM Unit :=
  if block.isDummy then return ()
  else do
    loadStashFromDisk env
    modify fun state =>
      { state with
        stash := state.stash.filter (fun stashed => stashed.addr != block.addr) ++ [block] }
    saveStashToDisk

def takeBlockFromStash (addr : UInt64) : StashM (Option RingBlock) := do
  loadStashFromDisk env
  let state ← get
  match state.stash.find? fun block => block.addr == addr with
  | none => return none
  | some block =>
    set { state with stash := state.stash.eraseP fun block => block.addr == addr }
    saveStashToDisk
    return some block

def removeBlockFromStash (addr : UInt64) : StashM Unit := do
  loadStashFromDisk env
  let state ← get
  let kept := state.stash.filter fun block => block.addr != addr
  set { state with stash := kept }
  if kept.length ≠ state.stash.length then saveStashToDisk else return ()

def canResideInBucket (blockLeaf bucketIdx : UInt64) : Except Exception Bool :=
  env.cfg.isBucketOnLeafPath bucketIdx blockLeaf

/-- The loop of `FillBucketFromStash`: at most `room` blocks are moved out of the stash, in
stash order. Returns the selected blocks and the ones that stay. -/
def selectBlocks (bucketIdx : UInt64) :
    Nat → List RingBlock → Except Exception (List RingBlock × List RingBlock)
  | 0, stash => return ([], stash)
  | _ + 1, [] => return ([], [])
  | room + 1, block :: stash => do
    let eligible ← if block.isDummy then .ok false else canResideInBucket env block.leaf bucketIdx
    if eligible then
      let (selected, kept) ← selectBlocks bucketIdx room stash
      return (block :: selected, kept)
    else
      let (selected, kept) ← selectBlocks bucketIdx (room + 1) stash
      return (selected, block :: kept)

def fillBucketFromStash (bucketIdx : UInt64) (bucket : RingBucket) : RingM RingBucket := do
  withStash (loadStashFromDisk env)
  let world ← get
  let (selected, kept) ← fromExcept (selectBlocks env bucketIdx env.cfg.z.toNat world.stash.stash)
  withStash (modify fun state => { state with stash := kept })
  let permutation ← withPrng (drawPermutation env bucket.slotCount)
  let filled ← fromExcept (bucket.resetWithBlocks selected permutation)
  withStash saveStashToDisk
  return filled

end Stash

section Operations

variable (env : Env)

/-- `GetBlockOffset` over any source of uniform draws. -/
def getBlockOffsetWith {m : Type → Type} [Monad m] [MonadExceptOf Exception m]
    (uniformInt : Nat → m Nat) (bucket : RingBucket) (addr : UInt64) : m Nat :=
  match (List.range bucket.addrs.length).find? fun i =>
    bucket.addrs.getD i kDummyAddress == addr &&
      bucket.valids.getD (bucket.ptrs.getD i 0) false with
  | some i => return bucket.ptrs.getD i 0
  | none =>
    if bucket.validDummyOffsets =
      [] then throw (.runtimeError "Ring ORAM bucket has no valid dummy slot")
    else do
      let choice ← uniformInt bucket.validDummyOffsets.length
      return bucket.validDummyOffsets.getD choice 0

def getBlockOffset (bucket : RingBucket) (addr : UInt64) : PrngM Nat :=
  getBlockOffsetWith (uniformInt env) bucket addr

/-- One round of the first loop of `ReadBucket`: a valid real block goes to the stash. -/
def readRealSlot (read : RingBucket × Nat) (i : Nat) : RingM (RingBucket × Nat) := do
  let (bucket, reads) := read
  if bucket.validReal i then
    let offset := bucket.ptrs.getD i 0
    let slot := bucket.data.getD offset {}
    withStash (putBlockInStash env
      { addr := bucket.addrs.getD i 0
        leaf := bucket.leaves.getD i 0
        data := resize slot.data env.cfg.blockSize.toNat })
    return ({ bucket with valids := bucket.valids.set offset false }, reads + 1)
  else return (bucket, reads)

/-- The second loop of `ReadBucket`, with `missing` reads still to be made. -/
def padFullRead (bucket : RingBucket) : Nat → RingM Unit
  | 0 => return ()
  | missing + 1 => do
    throwIf (bucket.validDummyOffsets = [])
      (.runtimeError "Ring ORAM bucket lacks dummy padding for a full read")
    let choice ← withPrng (uniformInt env bucket.validDummyOffsets.length)
    let offset := bucket.validDummyOffsets.getD choice 0
    padFullRead { bucket with valids := bucket.valids.set offset false } missing

def readBucket (bucketIdx : UInt64) : RingM Unit := do
  let encrypted ← readEncryptedBucketFromServer env bucketIdx
  let bucket ← fromExcept (decryptBucket env encrypted)
  let (bucket, reads) ← (List.range bucket.addrs.length).foldlM (readRealSlot env) (bucket, 0)
  padFullRead env bucket (env.cfg.z.toNat - reads)

def writeBucket (bucketIdx : UInt64) : RingM Unit := do
  let bucket ← fillBucketFromStash env bucketIdx
    (RingBucket.empty env.cfg.z env.cfg.s env.cfg.blockSize)
  let encrypted ← withIvs (encryptBucket env bucket)
  writeEncryptedBucketToServer env bucketIdx encrypted

def evictPath : RingM Unit := do
  let world ← get
  let leaf := world.evictionCounter % env.cfg.numLeaves
  modify fun world => { world with evictionCounter := world.evictionCounter + 1 }
  let path ← fromExcept (env.cfg.getPathIndices leaf)
  forM path (readBucket env)
  forM path.reverse (writeBucket env)

/-- One round of the loop of `EarlyReshuffle`. -/
def reshuffleBucket (bucketIdx : UInt64) : RingM Unit := do
  let count ← fetchServerBucketCount env bucketIdx
  if env.cfg.s ≤ count then
    readBucket env bucketIdx
    writeBucket env bucketIdx
    modify fun world => { world with earlyReshuffleCount := world.earlyReshuffleCount + 1 }
  else return ()

def earlyReshuffle (leaf : UInt64) : RingM Unit := do
  let path ← fromExcept (env.cfg.getPathIndices leaf)
  forM path (reshuffleBucket env)

/-- One round of the loop of `ReadPath`: the offset read from a bucket and whether it holds the
wanted block. -/
def selectSlot (addr : UInt64) (selected : List Nat × List Bool) (metadata : RingBucketMetadata) :
    RingM (List Nat × List Bool) := do
  let bucket ← fromExcept (decryptMetadata env metadata)
  let offset ← withPrng (getBlockOffset env bucket addr)
  throwIf (bucket.valids.length ≤ offset) (.outOfRange "Ring ORAM selected slot out of range")
  let selectedTarget := (List.range bucket.addrs.length).any fun i =>
    bucket.addrs.getD i kDummyAddress == addr && bucket.ptrs.getD i 0 == offset &&
      bucket.valids.getD offset false
  return (selected.1 ++ [offset], selected.2 ++ [selectedTarget])

def xorInto (target source : Bytes) : Except Exception Bytes :=
  if target.length ≠
    source.length then .error (.invalidArgument "Ring ORAM XOR target size mismatch")
  else .ok (target.zipWith (· ^^^ ·) source)

/-- One round of the unmasking loop of `FetchXorPath`: a dummy's ciphertext is cancelled, a
target's IV is remembered. -/
def unmaskSlot (unmasked : Bytes × Option Bytes) (slot : Bool × Bytes) :
    Except Exception (Bytes × Option Bytes) := do
  let (targetCiphertext, targetIv) := unmasked
  let (isTarget, iv) := slot
  if isTarget then
    if targetIv.isSome then
      .error (.runtimeError "Ring ORAM read path selected multiple target slots")
    else return (targetCiphertext, some iv)
  else
    let dummyCiphertext ← env.cipher.encrypt (List.replicate env.cfg.blockSize.toNat 0) iv
    let cancelled ← xorInto targetCiphertext dummyCiphertext
    return (cancelled, targetIv)

def fetchXorPath (leaf : UInt64) (offsets : List Nat) (targetFlags : List Bool) :
    RingM (Option Bytes) := do
  throwIf (offsets.length ≠ targetFlags.length)
    (.invalidArgument "Ring ORAM XOR target flag size mismatch")
  match ← roundTrip env
    (.xorPathSlots leaf (UInt64.ofNat offsets.length) (offsets.map UInt64.ofNat)) with
  | .xorPath aggregate ivCount ivs =>
    throwIf (aggregate.length ≠ env.cfg.blockSize.toNat)
      (.runtimeError "Ring ORAM XOR aggregate has invalid size")
    throwIf (ivCount ≠ UInt64.ofNat offsets.length)
      (.runtimeError "Ring ORAM XOR IV count mismatch")
    let (targetCiphertext, targetIv) ←
      fromExcept ((targetFlags.zip ivs).foldlM (unmaskSlot env) (aggregate, none))
    match targetIv with
    | none => return none
    | some iv =>
      let data ← fromExcept (env.cipher.decrypt targetCiphertext iv)
      return some data
  | _ => throw (.runtimeError "NetIO recv failed")

def readPath (leaf addr : UInt64) : RingM (Option Bytes) := do
  let metadata ← fetchPathMetadata env leaf
  throwIf (metadata.length ≠ env.cfg.treeDepth.toNat + 1)
    (.runtimeError "Ring ORAM path metadata length mismatch")
  let (offsets, targetFlags) ← metadata.foldlM (selectSlot env addr) ([], [])
  modify fun world => { world with readPathCount := world.readPathCount + 1 }
  fetchXorPath env leaf offsets targetFlags

/-- The block that `Access` works on once the path has been read. -/
def locateBlock (addr newLeaf : UInt64) (pathData : Option Bytes) : RingM RingBlock := do
  match pathData with
  | some data =>
    withStash (removeBlockFromStash env addr)
    return ⟨addr, newLeaf, data⟩
  | none =>
    match ← withStash (takeBlockFromStash env addr) with
    | some stashed => return { stashed with leaf := newLeaf }
    | none =>
      modify fun world => { world with fabricated := world.fabricated + 1 }
      return ⟨addr, newLeaf, List.replicate env.cfg.blockSize.toNat 0⟩

def evictIfDue : RingM Unit := do
  let world ← get
  if world.round = 0 then evictPath env else return ()

def access (op : Op) (addr : UInt64) (data : Bytes) : RingM Bytes := do
  throwIf (env.cfg.numBlocks ≤ addr) (.outOfRange "Ring ORAM address out of range")
  throwIf (op = .write ∧ data.length ≠ env.cfg.blockSize.toNat)
    (.invalidArgument "Ring ORAM write size does not match block size")
  let world ← get
  match world.positionMap addr with
  | none => throw (.outOfRange "_Map_base::at")
  | some oldLeaf =>
    let newLeaf ← withPrng (getRandomLeaf env)
    modify fun world =>
      { world with positionMap := Function.update world.positionMap addr (some newLeaf) }
    let pathData ← readPath env oldLeaf addr
    let located ← locateBlock env addr newLeaf pathData
    let block : RingBlock :=
      { addr := addr, leaf := newLeaf, data := if op = .write then data else located.data }
    withStash (putBlockInStash env block)
    modify fun world => { world with round := (world.round + 1) % env.cfg.a.toNat }
    evictIfDue env
    earlyReshuffle env oldLeaf
    return block.data

end Operations

section Construction

variable (env : Env)

/-- `stash_.push_back(block)`. -/
def pushStash (block : RingBlock) : StashM Unit := do
  let state ← get
  throwIf (vectorMaxSize / ringBlockSize ≤ state.stash.length)
    (.lengthError "vector::_M_realloc_insert")
  set { state with stash := state.stash ++ [block] }

/-- One round of the loop of the constructor. -/
def addInitialBlock (i : Nat) : RingM Unit := do
  let leaf ← withPrng (getRandomLeaf env)
  let addr := UInt64.ofNat i
  modify fun world =>
    { world with positionMap := Function.update world.positionMap addr (some leaf) }
  withStash (pushStash ⟨addr, leaf, List.replicate env.cfg.blockSize.toNat 0⟩)

/-- One round of the loop of `BuildInitialPlainTree`, for the bucket at `idx`. -/
def fillInitialBucket (tree : List RingBucket) (idx : Nat) : RingM (List RingBucket) := do
  let bucket ← fillBucketFromStash env (UInt64.ofNat idx) (tree.getD idx {})
  return tree.set idx bucket

def buildInitialPlainTree : RingM (List RingBucket) := do
  let nodes := env.cfg.numTreeNodes.toNat
  let tree := List.replicate nodes (RingBucket.empty env.cfg.z env.cfg.s env.cfg.blockSize)
  (List.range nodes).reverse.foldlM (fillInitialBucket env) tree

def sealBucket (bucket : RingBucket) : RingM Bytes := do
  let encrypted ← withIvs (encryptBucket env bucket)
  fromExcept (serializeEncryptedRingBucket encrypted)

def initializeServerStorage : RingM Unit := do
  let tree ← buildInitialPlainTree env
  let payloads ← tree.mapM (sealBucket env)
  let response ← roundTrip env (.init (UInt64.ofNat tree.length) payloads)
  expectAck response

/-- The constructors of server and client. -/
def construct : RingM Unit := do
  fromExcept (validateConfig env.cfg)
  throwIf (env.cfg.numBlocks = 0 ∨ env.cfg.z = 0 ∨ env.cfg.s = 0 ∨ env.cfg.a = 0 ∨
    env.cfg.blockSize = 0 ∨ 63 ≤ env.cfg.treeDepth)
    (.invalidArgument "Invalid Ring ORAM client configuration")
  forM (List.range env.cfg.numBlocks.toNat) (addInitialBlock env)
  withStash saveStashToDisk
  withStash (modify fun state => { state with initialized := true })
  initializeServerStorage env

end Construction
end OramHub.RingOram
