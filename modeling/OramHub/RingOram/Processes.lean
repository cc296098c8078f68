import OramHub.Lib.Correspondence
import OramHub.Network.Processes
import OramHub.RingOram.Wire

/-! # The Ring ORAM client and its server as two processes

Each process runs for itself and knows of the other one only what arrives, byte by byte. Whatever
the order in which they run and whatever the sockets hold at a time, a session ends, and the client
gets the answers of a RAM.
-/
namespace OramHub.RingOram
open OramHub.Core OramHub.Program OramHub.LittleEndian OramHub.Network OramHub.Streams
open OramHub.Dialogue OramHub.Dialogue.TalkM OramHub.Confluence OramHub.Correspondence
set_option autoImplicit false

namespace Process

/-! ## The server -/

section Server

variable (cfg : RuntimeConfig)

abbrev ServerP := TalkM Exception Server UInt8

/-- One round of the loop of `HandleInit`. -/
def initBucket (i : Nat) : ServerP Unit := do
  let bytes ← Process.recvVec
  locally do
    let bucket ← fromExcept (deserializeEncryptedRingBucket bytes)
    validateBucketShape cfg bucket "init"
    writeBucketToDisk cfg (UInt64.ofNat i) bucket

def handleInit : ServerP Unit := do
  let nodeCount ← Process.recvUint64
  locally (throwIf (nodeCount ≠ cfg.numTreeNodes)
    (.invalidArgument "Ring ORAM init tree size mismatch"))
  locally (modify fun server => { server with files := fun _ => none, nodeCount := nodeCount })
  forM (List.range nodeCount.toNat) (initBucket cfg)
  TalkM.send ['K'.toUInt8]

/-- One round of the loop of `HandleReadPathMetadata`. -/
def sendMetadata (bucketIdx : UInt64) : ServerP Unit := do
  let bucket ← locally (readBucketFromDisk cfg bucketIdx)
  let bytes ← locally (fromExcept (serializeRingBucketMetadata (metadataFromBucket bucket)))
  TalkM.send (sendVec bytes)

def handleReadPathMetadata : ServerP Unit := do
  locally (validateInitialized cfg)
  let leaf ← Process.recvUint64
  let path ← locally (fromExcept (cfg.getPathIndices leaf))
  TalkM.send (encodeWord (UInt64.ofNat path.length))
  forM path (sendMetadata cfg)

def handleXorPathSlots : ServerP Unit := do
  locally (validateInitialized cfg)
  let leaf ← Process.recvUint64
  let offsetCount ← Process.recvUint64
  let path ← locally (fromExcept (cfg.getPathIndices leaf))
  locally (throwIf (offsetCount ≠ UInt64.ofNat path.length)
    (.invalidArgument "Ring ORAM XOR path offset count mismatch"))
  let offsets ← TalkM.many Process.recvUint64 offsetCount.toNat
  let selected ← locally
    ((path.zip offsets).foldlM (xorPathSlot cfg) (List.replicate cfg.blockSize.toNat 0, []))
  locally (modify fun server =>
    { server with
      xorPathReadCount := server.xorPathReadCount + 1
      lastXorPathSlotCount := offsetCount })
  TalkM.send (sendVec selected.1)
  TalkM.send (encodeWord (UInt64.ofNat selected.2.length))
  forM selected.2 fun iv => TalkM.send (sendVec iv)

def handleReadBucket : ServerP Unit := do
  locally (validateInitialized cfg)
  let bucketIdx ← Process.recvUint64
  let bucket ← locally (readBucketFromDisk cfg bucketIdx)
  let bytes ← locally (fromExcept (serializeEncryptedRingBucket bucket))
  TalkM.send (sendVec bytes)

def handleWriteBucket : ServerP Unit := do
  locally (validateInitialized cfg)
  let bucketIdx ← Process.recvUint64
  let bytes ← Process.recvVec
  let bucket ← locally (fromExcept (deserializeEncryptedRingBucket bytes))
  locally (validateBucketShape cfg bucket "write")
  locally (writeBucketToDisk cfg bucketIdx bucket)
  TalkM.send ['K'.toUInt8]

def handleReadBucketCount : ServerP Unit := do
  locally (validateInitialized cfg)
  let bucketIdx ← Process.recvUint64
  let bucket ← locally (readBucketFromDisk cfg bucketIdx)
  TalkM.send (encodeWord bucket.count)

def handleReadStats : ServerP Unit := do
  let server ← locally get
  TalkM.send (encodeWord server.xorPathReadCount)
  TalkM.send (encodeWord server.lastXorPathSlotCount)

/-- One round of `HandleRequests`. -/
def handleCommand : ServerP Unit := do
  let command ← Process.recvData 1
  if command = ['Q'.toUInt8] then locally (modify fun server => { server with running := false })
  else if command = ['I'.toUInt8] then handleInit cfg
  else if command = ['M'.toUInt8] then handleReadPathMetadata cfg
  else if command = ['X'.toUInt8] then handleXorPathSlots cfg
  else if command = ['B'.toUInt8] then handleReadBucket cfg
  else if command = ['W'.toUInt8] then handleWriteBucket cfg
  else if command = ['T'.toUInt8] then handleReadBucketCount cfg
  else if command = ['S'.toUInt8] then handleReadStats
  else locally (throw (.runtimeError "Unknown Ring ORAM server command"))

/-- The loop of `HandleRequests`: a command that has thrown is the last one. -/
def nextCommand : EStateM.Result Exception Server Unit →
    Option (Talk UInt8 (EStateM.Result Exception Server Unit))
  | .ok _ server => if server.running then some (handleCommand cfg server) else none
  | .error _ _ => none

end Server

/-! ## The client -/

section Client

variable (env : Env)

/-- What the client keeps. -/
structure Client where
  stash : StashState := {}
  positionMap : UInt64 → Option UInt64 := fun _ => none
  round : Nat := 0
  evictionCounter : UInt64 := 0
  readPathCount : Nat := 0
  earlyReshuffleCount : Nat := 0
  prng : Nat := 0
  ivs : Nat := 0
  fabricated : Nat := 0

def client (w : World) : Client :=
  ⟨w.stash, w.positionMap, w.round, w.evictionCounter, w.readPathCount, w.earlyReshuffleCount,
    w.prng, w.ivs, w.fabricated⟩

def Client.alone (own : Client) : World :=
  ⟨own.stash, own.positionMap, own.round, own.evictionCounter, own.readPathCount,
    own.earlyReshuffleCount, own.prng, own.ivs, own.fabricated, {}, []⟩

/-- What the client has of a state that comprises client and server. The command that ends a session
is no event of the log. -/
def view : View World Client Server (Option Event) where
  own := client
  server := World.server
  log w := w.log.map some
  alone := Client.alone
  own_alone _ := rfl

abbrev ClientP := TalkM Exception Client UInt8

/-- A part of the client that does not use the connection. -/
def onClient {α : Type} (x : RingM α) : ClientP α := Correspondence.onClient view x

/-- `ExpectAck`. -/
def recvAck : ClientP Response := do
  let ack ← Process.recvData 1
  locally (throwIf (ack ≠ ['K'.toUInt8])
    (.runtimeError "Unexpected Ring ORAM server acknowledgment"))
  return .ack

/-- One round of the loop of `FetchPathMetadata`. -/
def recvMetadata : ClientP Bytes := do
  let bytes ← Process.recvVec
  let _ ← locally (fromExcept (deserializeRingBucketMetadata bytes))
  return bytes

/-- What the client reads after it has sent a request. -/
def recvResponse : Request → ClientP Response
  | .init _ _ => recvAck
  | .readPathMetadata _ => do
    let pathSize ← Process.recvUint64
    let metadata ← TalkM.many recvMetadata pathSize.toNat
    return .pathMetadata pathSize metadata
  | .xorPathSlots _ _ offsets => do
    let aggregate ← Process.recvVec
    locally (throwIf (aggregate.length ≠ env.cfg.blockSize.toNat)
      (.runtimeError "Ring ORAM XOR aggregate has invalid size"))
    let ivCount ← Process.recvUint64
    locally (throwIf (ivCount ≠ UInt64.ofNat offsets.length)
      (.runtimeError "Ring ORAM XOR IV count mismatch"))
    let ivs ← TalkM.many Process.recvVec ivCount.toNat
    return .xorPath aggregate ivCount ivs
  | .readBucket _ => do
    let bytes ← Process.recvVec
    return .bucket bytes
  | .writeBucket _ _ => recvAck
  | .readBucketCount _ => do
    let count ← Process.recvUint64
    return .bucketCount count
  | .readStats => do
    let xorPathReadCount ← Process.recvUint64
    let lastXorPathSlotCount ← Process.recvUint64
    return .stats xorPathReadCount lastXorPathSlotCount

def roundTrip (request : Request) : ClientP Response := do
  TalkM.send request.encode
  recvResponse env request

def fetchPathMetadata (leaf : UInt64) : ClientP (List RingBucketMetadata) := do
  match ← roundTrip env (.readPathMetadata leaf) with
  | .pathMetadata _ payloads => onClient (fromExcept (deserializeEach payloads))
  | _ => onClient (throw (.runtimeError "NetIO recv failed"))

def readEncryptedBucketFromServer (bucketIdx : UInt64) : ClientP EncryptedRingBucket := do
  match ← roundTrip env (.readBucket bucketIdx) with
  | .bucket bytes => onClient (fromExcept (deserializeEncryptedRingBucket bytes))
  | _ => onClient (throw (.runtimeError "NetIO recv failed"))

def writeEncryptedBucketToServer (bucketIdx : UInt64)
    (bucket : EncryptedRingBucket) : ClientP Unit := do
  let bytes ← onClient (fromExcept (serializeEncryptedRingBucket bucket))
  let response ← roundTrip env (.writeBucket bucketIdx bytes)
  onClient (expectAck response)

def fetchServerBucketCount (bucketIdx : UInt64) : ClientP UInt64 := do
  match ← roundTrip env (.readBucketCount bucketIdx) with
  | .bucketCount count => return count
  | _ => onClient (throw (.runtimeError "NetIO recv failed"))

def readBucket (bucketIdx : UInt64) : ClientP Unit := do
  let encrypted ← readEncryptedBucketFromServer env bucketIdx
  let bucket ← onClient (fromExcept (decryptBucket env encrypted))
  let (bucket, reads) ← onClient
    ((List.range bucket.addrs.length).foldlM (readRealSlot env) (bucket, 0))
  onClient (padFullRead env bucket (env.cfg.z.toNat - reads))

def writeBucket (bucketIdx : UInt64) : ClientP Unit := do
  let bucket ← onClient
    (fillBucketFromStash env bucketIdx (RingBucket.empty env.cfg.z env.cfg.s env.cfg.blockSize))
  let encrypted ← onClient (withIvs (encryptBucket env bucket))
  writeEncryptedBucketToServer env bucketIdx encrypted

def evictPath : ClientP Unit := do
  let own ← locally get
  let leaf := own.evictionCounter % env.cfg.numLeaves
  onClient (modify fun world => { world with evictionCounter := world.evictionCounter + 1 })
  let path ← onClient (fromExcept (env.cfg.getPathIndices leaf))
  forM path (readBucket env)
  forM path.reverse (writeBucket env)

/-- One round of the loop of `EarlyReshuffle`. -/
def reshuffleBucket (bucketIdx : UInt64) : ClientP Unit := do
  let count ← fetchServerBucketCount env bucketIdx
  if env.cfg.s ≤ count then do
    readBucket env bucketIdx
    writeBucket env bucketIdx
    onClient (modify fun world =>
      { world with earlyReshuffleCount := world.earlyReshuffleCount + 1 })
  else return ()

def earlyReshuffle (leaf : UInt64) : ClientP Unit := do
  let path ← onClient (fromExcept (env.cfg.getPathIndices leaf))
  forM path (reshuffleBucket env)

/-- The part of `FetchXorPath` that works on the answer. -/
def unmask (offsets : List Nat) (targetFlags : List Bool) (aggregate : Bytes)
    (ivCount : UInt64) (ivs : List Bytes) :
    RingM (Option Bytes) := do
  throwIf (aggregate.length ≠ env.cfg.blockSize.toNat)
    (.runtimeError "Ring ORAM XOR aggregate has invalid size")
  throwIf (ivCount ≠ UInt64.ofNat offsets.length)
    (.runtimeError "Ring ORAM XOR IV count mismatch")
  let (targetCiphertext, targetIv) ← fromExcept
    ((targetFlags.zip ivs).foldlM (unmaskSlot env) (aggregate, none))
  match targetIv with
  | none => return none
  | some iv =>
    let data ← fromExcept (env.cipher.decrypt targetCiphertext iv)
    return some data

def fetchXorPath (leaf : UInt64) (offsets : List Nat)
    (targetFlags : List Bool) : ClientP (Option Bytes) := do
  onClient (throwIf (offsets.length ≠ targetFlags.length)
    (.invalidArgument "Ring ORAM XOR target flag size mismatch"))
  match ← roundTrip env
    (.xorPathSlots leaf (UInt64.ofNat offsets.length) (offsets.map UInt64.ofNat)) with
  | .xorPath aggregate ivCount ivs =>
    onClient (unmask env offsets targetFlags aggregate ivCount ivs)
  | _ => onClient (throw (.runtimeError "NetIO recv failed"))

def readPath (leaf addr : UInt64) : ClientP (Option Bytes) := do
  let metadata ← fetchPathMetadata env leaf
  onClient (throwIf (metadata.length ≠ env.cfg.treeDepth.toNat + 1)
    (.runtimeError "Ring ORAM path metadata length mismatch"))
  let (offsets, targetFlags) ← onClient (metadata.foldlM (selectSlot env addr) ([], []))
  onClient (modify fun world => { world with readPathCount := world.readPathCount + 1 })
  fetchXorPath env leaf offsets targetFlags

def evictIfDue : ClientP Unit := do
  let own ← locally get
  if own.round = 0 then evictPath env else return ()

def access (op : Op) (addr : UInt64) (data : Bytes) : ClientP Bytes := do
  onClient (throwIf (env.cfg.numBlocks ≤ addr) (.outOfRange "Ring ORAM address out of range"))
  onClient (throwIf (op = .write ∧ data.length ≠ env.cfg.blockSize.toNat)
    (.invalidArgument "Ring ORAM write size does not match block size"))
  let own ← locally get
  match own.positionMap addr with
  | none => onClient (throw (.outOfRange "_Map_base::at"))
  | some oldLeaf => do
    let newLeaf ← onClient (withPrng (getRandomLeaf env))
    onClient (modify fun world =>
      { world with positionMap := Function.update world.positionMap addr (some newLeaf) })
    let pathData ← readPath env oldLeaf addr
    let located ← onClient (locateBlock env addr newLeaf pathData)
    let block : RingBlock :=
      { addr := addr, leaf := newLeaf, data := if op = .write then data else located.data }
    onClient (withStash (putBlockInStash env block))
    onClient (modify fun world => { world with round := (world.round + 1) % env.cfg.a.toNat })
    evictIfDue env
    earlyReshuffle env oldLeaf
    return block.data

def perform : Action → ClientP (Option Bytes)
  | .access op addr data => do
    let result ← access env op addr data
    return some result
  | .evictPath => do
    evictPath env
    return none
  | .earlyReshuffle leaf => do
    earlyReshuffle env leaf
    return none

def initializeServerStorage : ClientP Unit := do
  let tree ← onClient (buildInitialPlainTree env)
  let payloads ← onClient (tree.mapM (sealBucket env))
  let response ← roundTrip env (.init (UInt64.ofNat tree.length) payloads)
  onClient (expectAck response)

/-- The constructor of the client. -/
def construct : ClientP Unit := do
  onClient (throwIf (env.cfg.numBlocks = 0 ∨ env.cfg.z = 0 ∨ env.cfg.s = 0 ∨ env.cfg.a = 0 ∨
    env.cfg.blockSize = 0 ∨ 63 ≤ env.cfg.treeDepth)
    (.invalidArgument "Invalid Ring ORAM client configuration"))
  onClient (forM (List.range env.cfg.numBlocks.toNat) (addInitialBlock env))
  onClient (withStash saveStashToDisk)
  onClient (withStash (modify fun state => { state with initialized := true }))
  initializeServerStorage env

/-- Construction, actions, and the command that the destructor sends. -/
def session (actions : List Action) : ClientP (List (Option Bytes)) := do
  construct env
  let results ← actions.mapM (perform env)
  TalkM.send ['Q'.toUInt8]
  return results

end Client

/-! ## The server's process does what the server does -/

section Refinement

variable {cfg : RuntimeConfig} {env : Env}

theorem refines_recv {α : Type} {x : ServerP α} {y : RecvM α} (h : Reads x y) :
    Refines Connection.mk x (recv y) :=
  Refines.of_reads (fun _ _ _ => rfl) (fun _ _ _ _ => rfl) h

theorem refines_onServer {α : Type} (x : ServerM α) :
    Refines Connection.mk (locally x) (onServer x) :=
  Refines.of_local (fun _ _ _ => rfl) fun _ _ _ _ => rfl

theorem refines_sendData (bytes : Bytes) :
    Refines Connection.mk (TalkM.send bytes) (sendData bytes) :=
  Refines.send bytes fun _ _ _ => rfl

theorem refines_handleInit : Refines Connection.mk (handleInit cfg) (Wire.handleInit cfg) := by
  refine (refines_recv Process.reads_recvUint64).bind fun nodeCount =>
    (Refines.check _ _).bind fun _ => ?_
  refine (refines_onServer _).bind fun _ => (Refines.forM fun i => ?_).bind fun _ =>
    refines_sendData _
  exact (refines_recv Process.reads_recvVec).bind fun bytes => refines_onServer _

theorem refines_handleReadPathMetadata :
    Refines Connection.mk (handleReadPathMetadata cfg) (Wire.handleReadPathMetadata cfg) := by
  refine (refines_onServer _).bind fun _ =>
    (refines_recv Process.reads_recvUint64).bind fun leaf => ?_
  refine (Refines.fromExcept _).bind fun path => (refines_sendData _).bind fun _ =>
    Refines.forM fun bucketIdx => ?_
  exact (refines_onServer _).bind fun bucket => (Refines.fromExcept _).bind fun bytes =>
    refines_sendData _

theorem refines_handleXorPathSlots :
    Refines Connection.mk (handleXorPathSlots cfg) (Wire.handleXorPathSlots cfg) := by
  refine (refines_onServer _).bind fun _ =>
    (refines_recv Process.reads_recvUint64).bind fun leaf => ?_
  refine (refines_recv Process.reads_recvUint64).bind fun offsetCount =>
    (Refines.fromExcept _).bind fun path => ?_
  refine (Refines.check _ _).bind fun _ =>
    (refines_recv (Process.reads_recvUint64.many offsetCount.toNat)).bind fun offsets => ?_
  refine (refines_onServer _).bind fun selected => (refines_onServer _).bind fun _ => ?_
  exact (refines_sendData _).bind fun _ => (refines_sendData _).bind fun _ =>
    Refines.forM fun iv => refines_sendData _

theorem refines_handleReadBucket :
    Refines Connection.mk (handleReadBucket cfg) (Wire.handleReadBucket cfg) :=
  (refines_onServer _).bind fun _ => (refines_recv Process.reads_recvUint64).bind fun _ =>
    (refines_onServer _).bind fun _ =>
    (Refines.fromExcept _).bind fun _ => refines_sendData _

theorem refines_handleWriteBucket :
    Refines Connection.mk (handleWriteBucket cfg) (Wire.handleWriteBucket cfg) := by
  refine (refines_onServer _).bind fun _ =>
    (refines_recv Process.reads_recvUint64).bind fun bucketIdx => ?_
  refine (refines_recv Process.reads_recvVec).bind fun bytes =>
    (Refines.fromExcept _).bind fun bucket => ?_
  exact (refines_onServer _).bind fun _ => (refines_onServer _).bind fun _ => refines_sendData _

theorem refines_handleReadBucketCount :
    Refines Connection.mk (handleReadBucketCount cfg) (Wire.handleReadBucketCount cfg) :=
  (refines_onServer _).bind fun _ => (refines_recv Process.reads_recvUint64).bind fun _ =>
    (refines_onServer _).bind fun _ =>
    refines_sendData _

theorem refines_handleReadStats : Refines Connection.mk handleReadStats Wire.handleReadStats := by
  intro server incoming outgoing a connection hRun
  exact ((refines_sendData _).bind fun _ => refines_sendData _) server incoming
    outgoing a connection hRun

theorem refines_handleCommand :
    Refines Connection.mk (handleCommand cfg) (Wire.handleCommand cfg) := by
  refine (refines_recv (Process.reads_recvData 1)).bind fun command => ?_
  split_ifs
  · exact refines_onServer _
  · exact refines_handleInit
  · exact refines_handleReadPathMetadata
  · exact refines_handleXorPathSlots
  · exact refines_handleReadBucket
  · exact refines_handleWriteBucket
  · exact refines_handleReadBucketCount
  · exact refines_handleReadStats
  · rintro server incoming outgoing a connection ⟨⟩

theorem polite_handleInit : Polite (handleInit cfg) := by
  refine Process.listens_recvUint64.bind_polite fun nodeCount =>
    (listens_locally _).bind_polite fun _ => ?_
  refine (listens_locally _).bind_polite fun _ => (listens_forM fun i => ?_).bind_polite fun _ =>
    (speaks_send _).polite
  exact Process.listens_recvVec.bind fun bytes => listens_locally _

theorem polite_handleReadPathMetadata : Polite (handleReadPathMetadata cfg) := by
  refine (listens_locally _).bind_polite fun _ => Process.listens_recvUint64.bind_polite fun leaf =>
    Speaks.polite ?_
  refine (speaks_locally _).bind fun path => (speaks_send _).bind fun _ =>
    speaks_forM fun bucketIdx => ?_
  exact (speaks_locally _).bind fun bucket => (speaks_locally _).bind fun bytes => speaks_send _

theorem polite_handleXorPathSlots : Polite (handleXorPathSlots cfg) := by
  refine (listens_locally _).bind_polite fun _ =>
    Process.listens_recvUint64.bind_polite fun leaf => ?_
  refine Process.listens_recvUint64.bind_polite fun offsetCount =>
    (listens_locally _).bind_polite fun path => ?_
  refine (listens_locally _).bind_polite fun _ =>
    (listens_many Process.listens_recvUint64 _).bind_polite fun offsets => ?_
  refine Speaks.polite ((speaks_locally _).bind fun selected => (speaks_locally _).bind fun _ => ?_)
  exact (speaks_send _).bind fun _ => (speaks_send _).bind fun _ =>
    speaks_forM fun iv => speaks_send _

theorem polite_handleReadBucket : Polite (handleReadBucket cfg) := by
  refine (listens_locally _).bind_polite fun _ =>
    Process.listens_recvUint64.bind_polite fun bucketIdx => Speaks.polite ?_
  exact (speaks_locally _).bind fun bucket => (speaks_locally _).bind fun bytes => speaks_send _

theorem polite_handleWriteBucket : Polite (handleWriteBucket cfg) := by
  refine (listens_locally _).bind_polite fun _ =>
    Process.listens_recvUint64.bind_polite fun bucketIdx => ?_
  refine Process.listens_recvVec.bind_polite fun bytes =>
    Speaks.polite ((speaks_locally _).bind fun bucket => ?_)
  exact (speaks_locally _).bind fun _ => (speaks_locally _).bind fun _ => speaks_send _

theorem polite_handleReadBucketCount : Polite (handleReadBucketCount cfg) := by
  refine (listens_locally _).bind_polite fun _ =>
    Process.listens_recvUint64.bind_polite fun bucketIdx => Speaks.polite ?_
  exact (speaks_locally _).bind fun bucket => speaks_send _

theorem speaks_handleReadStats : Speaks handleReadStats :=
  (speaks_locally _).bind fun _ => (speaks_send _).bind fun _ => speaks_send _

theorem polite_handleCommand : Polite (handleCommand cfg) := by
  refine (Process.listens_recvData 1).bind_polite fun command => ?_
  split_ifs
  · exact (listens_locally _).polite
  · exact polite_handleInit
  · exact polite_handleReadPathMetadata
  · exact polite_handleXorPathSlots
  · exact polite_handleReadBucket
  · exact polite_handleWriteBucket
  · exact polite_handleReadBucketCount
  · exact speaks_handleReadStats.polite
  · exact (listens_locally _).polite

/-- What the server takes and answers, its process receives in full before it sends the answer. -/
theorem feeds_handleCommand {server server' : Server} {chunk reply : Bytes}
    (h : Serves (Wire.handleCommand cfg) server chunk reply () server') :
    Talk.Feeds (handleCommand cfg server) chunk (.sending reply (.done (.ok () server'))) := by
  refine refines_handleCommand.feeds ?_ (polite_handleCommand server) h
  rintro _ _ _ _ _ _ ⟨⟩
  exact ⟨rfl, rfl, rfl⟩

theorem reads_recvAck : Reads recvAck RingOram.recvAck :=
  (Process.reads_recvData 1).bind fun _ => (Reads.check _ _).bind fun _ => Reads.pure _

theorem listens_recvAck : Listens recvAck :=
  (Process.listens_recvData 1).bind fun _ => (listens_locally _).bind fun _ => listens_pure _

theorem reads_recvMetadata : Reads recvMetadata RingOram.recvMetadata :=
  Process.reads_recvVec.bind fun bytes => (Reads.fromExcept _).bind fun _ => Reads.pure bytes

theorem listens_recvMetadata : Listens recvMetadata :=
  Process.listens_recvVec.bind fun bytes => (listens_locally _).bind fun _ => listens_pure bytes

theorem reads_recvResponse (request : Request) :
    Reads (recvResponse env request) (RingOram.recvResponse env.cfg request) := by
  cases request with
  | init nodeCount buckets => exact reads_recvAck
  | readPathMetadata leaf =>
    exact Process.reads_recvUint64.bind fun pathSize =>
      (reads_recvMetadata.many pathSize.toNat).bind fun metadata => Reads.pure _
  | xorPathSlots leaf offsetCount offsets =>
    refine Process.reads_recvVec.bind fun aggregate => (Reads.check _ _).bind fun _ => ?_
    refine Process.reads_recvUint64.bind fun ivCount => (Reads.check _ _).bind fun _ => ?_
    exact (Process.reads_recvVec.many ivCount.toNat).bind fun ivs => Reads.pure _
  | readBucket bucketIdx => exact Process.reads_recvVec.bind fun bytes => Reads.pure _
  | writeBucket bucketIdx bytes => exact reads_recvAck
  | readBucketCount bucketIdx => exact Process.reads_recvUint64.bind fun count => Reads.pure _
  | readStats =>
    exact Process.reads_recvUint64.bind fun reads => Process.reads_recvUint64.bind fun slots =>
      Reads.pure _

theorem listens_recvResponse (request : Request) : Listens (recvResponse env request) := by
  cases request with
  | init nodeCount buckets => exact listens_recvAck
  | readPathMetadata leaf =>
    exact Process.listens_recvUint64.bind fun pathSize =>
      (listens_many listens_recvMetadata _).bind fun metadata => listens_pure _
  | xorPathSlots leaf offsetCount offsets =>
    refine Process.listens_recvVec.bind fun aggregate => (listens_locally _).bind fun _ => ?_
    refine Process.listens_recvUint64.bind fun ivCount => (listens_locally _).bind fun _ => ?_
    exact (listens_many Process.listens_recvVec _).bind fun ivs => listens_pure _
  | readBucket bucketIdx => exact Process.listens_recvVec.bind fun bytes => listens_pure _
  | writeBucket bucketIdx bytes => exact listens_recvAck
  | readBucketCount bucketIdx => exact Process.listens_recvUint64.bind fun count => listens_pure _
  | readStats =>
    exact Process.listens_recvUint64.bind fun reads => Process.listens_recvUint64.bind fun slots =>
      listens_pure _

end Refinement

/-! ## The client's process does what the client does -/

section Client

variable {env : Env} {α : Type}

/-- The server handles what a client sends as long as it runs. Its command loop ends with the
session. -/
def protocol (cfg : RuntimeConfig) : Protocol UInt8 Server (Option Event) where
  request
    | some event => event.request.encode
    | none => ['Q'.toUInt8]
  response
    | some event => event.response.encode
    | none => []
  fits
    | some event => event.request.Sent cfg
    | none => True
  handles server event server' := server.running = true ∧ match event with
    | some event =>
      event.request.Sent cfg ∧
      (handleRequest cfg event.request).run server = .ok event.response server'
    | none => server' = { server with running := false }

theorem private_withStash (x : StashM α) : Private view (withStash x) :=
  Private.zoom (fun _ => rfl) (fun _ _ => rfl) (fun _ _ => rfl) fun _ _ => rfl

theorem private_withPrng (x : PrngM α) : Private view (withPrng x) :=
  Private.zoom (fun _ => rfl) (fun _ _ => rfl) (fun _ _ => rfl) fun _ _ => rfl

theorem private_withIvs (x : IvM α) : Private view (withIvs x) :=
  Private.zoom (fun _ => rfl) (fun _ _ => rfl) (fun _ _ => rfl) fun _ _ => rfl

theorem private_fillBucketFromStash (bucketIdx : UInt64) (bucket : RingBucket) :
    Private view (fillBucketFromStash env bucketIdx bucket) := by
  refine (private_withStash _).bind fun _ => Private.get_bind (fun _ => rfl) fun w => ?_
  refine (Private.fromExcept _).bind fun chosen => (private_withStash _).bind fun _ =>
    (private_withPrng _).bind fun permutation => ?_
  exact (Private.fromExcept _).bind fun filled =>
    (private_withStash _).bind fun _ => Private.pure filled

theorem private_readRealSlot (read : RingBucket × Nat) (i : Nat) :
    Private view (readRealSlot env read i) := by
  unfold readRealSlot
  dsimp only
  split
  · exact (private_withStash _).bind fun _ => Private.pure _
  · exact Private.pure _

theorem private_padFullRead (missing : Nat) (bucket : RingBucket) :
    Private view (padFullRead env bucket missing) := by
  induction missing generalizing bucket with
  | zero => exact Private.pure ()
  | succ missing ih =>
    exact (Private.check _ _).bind fun _ => (private_withPrng _).bind fun choice => ih _

theorem private_selectSlot (addr : UInt64) (selected : List Nat × List Bool)
    (metadata : RingBucketMetadata) :
    Private view (selectSlot env addr selected metadata) :=
  (Private.fromExcept _).bind fun _ => (private_withPrng _).bind fun _ =>
    (Private.check _ _).bind fun _ => Private.pure _

theorem private_unmask (offsets : List Nat) (targetFlags : List Bool) (aggregate : Bytes)
    (ivCount : UInt64) (ivs : List Bytes) :
    Private view (unmask env offsets targetFlags aggregate ivCount ivs) := by
  refine (Private.check _ _).bind fun _ => (Private.check _ _).bind fun _ =>
    (Private.fromExcept _).bind ?_
  rintro ⟨targetCiphertext, _ | iv⟩
  · exact Private.pure none
  · exact (Private.fromExcept _).bind fun data => Private.pure (some data)

theorem private_locateBlock (addr newLeaf : UInt64) (pathData : Option Bytes) :
    Private view (locateBlock env addr newLeaf pathData) := by
  cases pathData with
  | some data => exact (private_withStash _).bind fun _ => Private.pure _
  | none =>
    refine (private_withStash _).bind ?_
    rintro (_ | stashed)
    · exact Private.bind (Private.of_modify (fun _ => rfl) (fun _ => rfl) fun _ => rfl) fun _ =>
        Private.pure _
    · exact Private.pure _

theorem private_addInitialBlock (i : Nat) : Private view (addInitialBlock env i) :=
  (private_withPrng _).bind fun _ =>
    Private.bind (Private.of_modify (fun _ => rfl) (fun _ => rfl) fun _ => rfl) fun _ =>
      private_withStash _

theorem private_buildInitialPlainTree : Private view (buildInitialPlainTree env) :=
  Private.foldlM (fun _ _ => (private_fillBucketFromStash _ _).bind fun _ => Private.pure _) _

theorem private_sealBucket (bucket : RingBucket) : Private view (sealBucket env bucket) :=
  (private_withIvs _).bind fun _ => Private.fromExcept _

theorem mirrors_roundTrip (hDepth : env.cfg.depth < 63) (request : Request) :
    Mirrors view (protocol env.cfg) (roundTrip env request) (RingOram.roundTrip env request) := by
  apply Mirrors.exchange
  intro w response w' hRun
  obtain ⟨hRunning, server, hHandled, rfl⟩ := roundTrip_eq_ok hRun
  refine ⟨some ⟨request, response, server.files⟩, recvResponse env request (client w), rfl,
    ?_, ?_, fun hSent => ?_⟩
  · exact List.map_append ..
  · rw [roundTrip, bind_apply, TalkM.send, Talk.bind_sending]
    rfl
  · obtain ⟨hReadable, _⟩ := serves_handleCommand hDepth hSent hHandled
    refine ⟨⟨hRunning, hSent, hHandled⟩, ?_⟩
    exact (reads_recvResponse request).feeds (listens_recvResponse request _)
      (takes_recvResponse env.cfg hReadable)

theorem mirrors_fetchPathMetadata (hDepth : env.cfg.depth < 63) (leaf : UInt64) :
    Mirrors view (protocol env.cfg) (fetchPathMetadata env leaf)
      (RingOram.fetchPathMetadata env leaf) := by
  refine (mirrors_roundTrip hDepth _).bind fun response => ?_
  cases response with
  | pathMetadata pathSize payloads => exact (Private.fromExcept _).mirrors
  | _ => exact Mirrors.throw _ _

theorem mirrors_readEncryptedBucket (hDepth : env.cfg.depth < 63) (bucketIdx : UInt64) :
    Mirrors view (protocol env.cfg) (readEncryptedBucketFromServer env bucketIdx)
      (RingOram.readEncryptedBucketFromServer env bucketIdx) := by
  refine (mirrors_roundTrip hDepth _).bind fun response => ?_
  cases response with
  | bucket bytes => exact (Private.fromExcept _).mirrors
  | _ => exact Mirrors.throw _ _

theorem mirrors_writeEncryptedBucket (hDepth : env.cfg.depth < 63) (bucketIdx : UInt64)
    (bucket : EncryptedRingBucket) :
    Mirrors view (protocol env.cfg) (writeEncryptedBucketToServer env bucketIdx bucket)
      (RingOram.writeEncryptedBucketToServer env bucketIdx bucket) :=
  (Private.fromExcept _).mirrors.bind fun _ => (mirrors_roundTrip hDepth _).bind fun _ =>
    (Private.check _ _).mirrors

theorem mirrors_fetchServerBucketCount (hDepth : env.cfg.depth < 63) (bucketIdx : UInt64) :
    Mirrors view (protocol env.cfg) (fetchServerBucketCount env bucketIdx)
      (RingOram.fetchServerBucketCount env bucketIdx) := by
  refine (mirrors_roundTrip hDepth _).bind fun response => ?_
  cases response with
  | bucketCount count => exact Mirrors.pure count
  | _ => exact Mirrors.throw _ _

theorem mirrors_readBucket (hDepth : env.cfg.depth < 63) (bucketIdx : UInt64) :
    Mirrors view (protocol env.cfg) (readBucket env bucketIdx)
      (RingOram.readBucket env bucketIdx) := by
  refine (mirrors_readEncryptedBucket hDepth bucketIdx).bind fun encrypted =>
    (Private.fromExcept _).mirrors.bind fun bucket => ?_
  exact (Private.foldlM private_readRealSlot _).mirrors.bind fun read =>
    (private_padFullRead _ read.1).mirrors

theorem mirrors_writeBucket (hDepth : env.cfg.depth < 63) (bucketIdx : UInt64) :
    Mirrors view (protocol env.cfg) (writeBucket env bucketIdx)
      (RingOram.writeBucket env bucketIdx) :=
  (private_fillBucketFromStash bucketIdx _).mirrors.bind fun _ =>
    (private_withIvs _).mirrors.bind fun encrypted =>
    mirrors_writeEncryptedBucket hDepth bucketIdx encrypted

theorem mirrors_evictPath (hDepth : env.cfg.depth < 63) :
    Mirrors view (protocol env.cfg) (evictPath env) (RingOram.evictPath env) := by
  refine Mirrors.get_bind fun w =>
    Mirrors.bind (Private.mirrors (Private.of_modify (fun _ => rfl) (fun _ => rfl) fun _ => rfl))
    fun _ => ?_
  refine (Private.fromExcept _).mirrors.bind fun path =>
    (Mirrors.forM (mirrors_readBucket hDepth)).bind fun _ => ?_
  exact Mirrors.forM (mirrors_writeBucket hDepth)

theorem mirrors_reshuffleBucket (hDepth : env.cfg.depth < 63) (bucketIdx : UInt64) :
    Mirrors view (protocol env.cfg) (reshuffleBucket env bucketIdx)
      (RingOram.reshuffleBucket env bucketIdx) := by
  refine (mirrors_fetchServerBucketCount hDepth bucketIdx).bind fun count =>
    Mirrors.ite ?_ (Mirrors.pure ())
  refine (mirrors_readBucket hDepth bucketIdx).bind fun _ =>
    (mirrors_writeBucket hDepth bucketIdx).bind fun _ => ?_
  exact Private.mirrors (Private.of_modify (fun _ => rfl) (fun _ => rfl) fun _ => rfl)

theorem mirrors_earlyReshuffle (hDepth : env.cfg.depth < 63) (leaf : UInt64) :
    Mirrors view (protocol env.cfg) (earlyReshuffle env leaf) (RingOram.earlyReshuffle env leaf) :=
  (Private.fromExcept _).mirrors.bind fun _ => Mirrors.forM (mirrors_reshuffleBucket hDepth)

theorem mirrors_fetchXorPath (hDepth : env.cfg.depth < 63) (leaf : UInt64) (offsets : List Nat)
    (targetFlags : List Bool) :
    Mirrors view (protocol env.cfg) (fetchXorPath env leaf offsets targetFlags)
      (RingOram.fetchXorPath env leaf offsets targetFlags) := by
  refine (Private.check _ _).mirrors.bind fun _ =>
    (mirrors_roundTrip hDepth _).bind fun response => ?_
  cases response with
  | xorPath aggregate ivCount ivs =>
    exact (private_unmask offsets targetFlags aggregate ivCount ivs).mirrors
  | _ => exact Mirrors.throw _ _

theorem mirrors_readPath (hDepth : env.cfg.depth < 63) (leaf addr : UInt64) :
    Mirrors view (protocol env.cfg) (readPath env leaf addr) (RingOram.readPath env leaf addr) := by
  refine (mirrors_fetchPathMetadata hDepth leaf).bind fun metadata =>
    (Private.check _ _).mirrors.bind fun _ => ?_
  refine (Private.foldlM (private_selectSlot addr) _).mirrors.bind fun selected => ?_
  refine Mirrors.bind
    (Private.mirrors (Private.of_modify (fun _ => rfl) (fun _ => rfl) fun _ => rfl)) fun _ => ?_
  exact mirrors_fetchXorPath hDepth leaf selected.1 selected.2

theorem mirrors_access (hDepth : env.cfg.depth < 63) (op : Op) (addr : UInt64) (data : Bytes) :
    Mirrors view (protocol env.cfg) (access env op addr data)
      (RingOram.access env op addr data) := by
  refine (Private.check _ _).mirrors.bind fun _ => (Private.check _ _).mirrors.bind fun _ =>
    Mirrors.get_bind fun w => ?_
  change Mirrors view _ (match w.positionMap addr with | none => _ | some oldLeaf => _) _
  cases w.positionMap addr with
  | none => exact Mirrors.throw _ _
  | some oldLeaf =>
    refine (private_withPrng _).mirrors.bind fun newLeaf => ?_
    refine Mirrors.bind
      (Private.mirrors (Private.of_modify (fun _ => rfl) (fun _ => rfl) fun _ => rfl)) fun _ => ?_
    refine (mirrors_readPath hDepth oldLeaf addr).bind fun pathData =>
      (private_locateBlock addr newLeaf pathData).mirrors.bind fun located => ?_
    refine (private_withStash _).mirrors.bind fun _ => ?_
    refine Mirrors.bind
      (Private.mirrors (Private.of_modify (fun _ => rfl) (fun _ => rfl) fun _ => rfl)) fun _ => ?_
    refine Mirrors.bind ?_ fun _ => (mirrors_earlyReshuffle hDepth oldLeaf).bind fun _ =>
      Mirrors.pure _
    exact Mirrors.get_bind fun w' => Mirrors.ite (mirrors_evictPath hDepth) (Mirrors.pure ())

theorem mirrors_perform (hDepth : env.cfg.depth < 63) (action : Action) :
    Mirrors view (protocol env.cfg) (perform env action) (RingOram.perform env action) := by
  cases action with
  | access op addr data =>
    exact (mirrors_access hDepth op addr data).bind fun result => Mirrors.pure (some result)
  | evictPath => exact (mirrors_evictPath hDepth).bind fun _ => Mirrors.pure none
  | earlyReshuffle leaf =>
    exact (mirrors_earlyReshuffle hDepth leaf).bind fun _ => Mirrors.pure none

theorem mirrors_initializeServerStorage (hDepth : env.cfg.depth < 63) :
    Mirrors view (protocol env.cfg) (initializeServerStorage env)
      (RingOram.initializeServerStorage env) := by
  refine private_buildInitialPlainTree.mirrors.bind fun tree =>
    (Private.mapM private_sealBucket).mirrors.bind fun payloads => ?_
  exact (mirrors_roundTrip hDepth _).bind fun response => (Private.check _ _).mirrors

/-- The server has checked its configuration before the client connects. -/
theorem mirrors_construct (hDepth : env.cfg.depth < 63) :
    Mirrors view (protocol env.cfg) (construct env) (RingOram.construct env) := by
  intro w a w' hRun
  obtain ⟨_, _, hConfig, hRest⟩ := run_bind_eq_ok hRun
  obtain ⟨_, hSame⟩ := run_fromExcept_eq_ok hConfig
  subst hSame
  refine Mirrors.bind (Private.check _ _).mirrors (fun _ => ?_) _ a w' hRest
  refine (Private.forM private_addInitialBlock).mirrors.bind fun _ =>
    (private_withStash _).mirrors.bind fun _ => ?_
  exact (private_withStash _).mirrors.bind fun _ => mirrors_initializeServerStorage hDepth

end Client

/-! ## Sessions -/

section Sessions

variable {env : Env} {bucketFiles : Nat → Option Bytes} {stashFile : Option Bytes} {w w' : World}
  {actions : List Action} {capacity : Nat}

/-- Both processes, with sockets that hold `capacity` bytes in each direction. -/
def setting (env : Env) (ρ : Type) (capacity : Nat) :
    Setting UInt8 ρ (EStateM.Result Exception Server Unit) where
  capacity := capacity
  client _ := none
  server := nextCommand env.cfg

/-- A server and a client that has not met it. Files of earlier runs may be left over on both sides.
-/
def start (env : Env) (stashFile : Option Bytes) (bucketFiles : Nat → Option Bytes)
    (actions : List Action) :
    Dialogue.Connection UInt8 (EStateM.Result Exception Client (List (Option Bytes)))
      (EStateM.Result Exception Server Unit) :=
  ⟨session env actions { stash := { file := stashFile } },
    .done (.ok () { files := bucketFiles }), [], []⟩

/-- Both processes have returned, and nothing is left in the sockets. -/
def finish (results : List (Option Bytes)) (own : Client) (server : Server) :
    Dialogue.Connection UInt8 (EStateM.Result Exception Client (List (Option Bytes)))
      (EStateM.Result Exception Server Unit) :=
  ⟨.done (.ok results own), .done (.ok () server), [], []⟩

theorem session_of_performAll {results : List (Option Bytes)} (h : Session env bucketFiles w)
    (hRun : (actions.mapM (RingOram.perform env)).run w = .ok results w') :
    Session env bucketFiles w' := by
  induction actions generalizing w results with
  | nil =>
    cases hRun
    exact h
  | cons action actions ih =>
    rw [List.mapM_cons] at hRun
    obtain ⟨result, middle, hFirst, hRest⟩ := run_bind_eq_ok hRun
    obtain ⟨_, _, hOthers, hEnd⟩ := run_bind_eq_ok hRest
    cases hEnd
    have hOperate : (operate env (.action action)).run w = .ok () middle := by
      rw [operate, EStateM.run_bind, hFirst]
      rfl
    exact ih (h.returned hOperate) hOthers

theorem sent_of_session (h : Session env bucketFiles w) (hRunning : w.server.running = true) :
    ∀ event ∈ w.log, event.request.Sent env.cfg := by
  intro event hEvent
  obtain ⟨before, after, hLog⟩ := List.append_of_mem hEvent
  obtain ⟨_, _, _, hSent, _⟩ := (h.answered hRunning).split hLog
  exact hSent

theorem nextCommand_serves (hDepth : env.cfg.depth < 63) {server server' : Server}
    {event : Option Event} (h : (protocol env.cfg).handles server event server') :
    nextCommand env.cfg (.ok () server) = some (handleCommand env.cfg server) ∧
      Talk.Feeds (handleCommand env.cfg server) ((protocol env.cfg).request event)
        (.sending ((protocol env.cfg).response event) (.done (.ok () server'))) := by
  obtain ⟨hRunning, hHandled⟩ := h
  refine ⟨if_pos hRunning, feeds_handleCommand ?_⟩
  cases event with
  | some event => exact (serves_handleCommand hDepth hHandled.1 hHandled.2).2
  | none =>
    refine serves_command ?_
    rw [if_pos rfl, hHandled]
    exact Serves.of_server rfl

/-- In whatever order client and server run and however little the sockets hold, neither ever waits
in vain, and the client ends with the answers of a RAM. -/
theorem session_interleaved (hCapacity : 0 < capacity) (hAccepted : env.cfg.Accepted)
    (stashFile : Option Bytes)
    (bucketFiles : Nat → Option Bytes) (hValid : ∀ action ∈ actions, action.Valid env.cfg) :
    ∃ own final total, final.running = false ∧ ∀ count pair,
      Run (Connection.Moves (setting env _ capacity)) count
        (start env stashFile bucketFiles actions) pair →
        ∃ missing, count + missing = total ∧
        Run (Connection.Moves (setting env _ capacity)) missing pair
          (finish (Action.results (Memory.zero env.cfg.blockSize.toNat) actions) own final) := by
  have hDepth := hAccepted.depth
  obtain ⟨_, w, hConstruct, v, hConsistent, _⟩ :=
    returns_iff.mp (construct_spec hAccepted stashFile bucketFiles)
  obtain ⟨_, w', hActions, rfl, v', memory', hFinal⟩ :=
    returns_iff.mp (performAll_spec hAccepted hConsistent hValid)
  have hRunning : w'.server.running = true := hFinal.stored.tree.running
  have hSession : Session env bucketFiles w' :=
    session_of_performAll (.constructed hConstruct) hActions
  have hMirrors : Mirrors view (protocol env.cfg) (construct env >>= fun _ =>
      actions.mapM (perform env))
      (RingOram.construct env >>= fun _ => actions.mapM (RingOram.perform env)) :=
    (mirrors_construct hDepth).bind fun _ => Mirrors.mapM (mirrors_perform hDepth)
  have hRun : (RingOram.construct env >>= fun _ => actions.mapM (RingOram.perform env)).run
      (World.start stashFile bucketFiles) =
      .ok (Action.results (Memory.zero env.cfg.blockSize.toNat) actions) w' := by
    rw [EStateM.run_bind, hConstruct]
    exact hActions
  have hFits : ∀ event ∈ view.log w', (protocol env.cfg).fits event := by
    intro event hEvent
    obtain ⟨answered, hAnswered, rfl⟩ := List.mem_map.mp hEvent
    exact sent_of_session hSession hRunning answered hAnswered
  have hQuit : (protocol env.cfg).handles w'.server none { w'.server with running := false } :=
    ⟨hRunning, rfl⟩
  obtain ⟨events, hTalks⟩ := hMirrors.talks_last hRun hFits hQuit rfl
  rw [bind_assoc] at hTalks
  have hReaches : Reaches (Connection.Moves (setting env _ capacity)) _ _ :=
    hTalks.reaches hCapacity fun _ _ _ => nextCommand_serves hDepth
  obtain ⟨total, hRuns⟩ := complete rfl rfl hReaches
  exact ⟨client w', { w'.server with running := false }, total, rfl, hRuns⟩

/-- Sockets that hold a single byte. -/
theorem session_interleaved_small : ∃ own final total, final.running = false ∧ ∀ count pair,
    Run (Connection.Moves (setting .small _ 1)) count
      (start .small none (fun _ => none) [.access .write 1 [7], .evictPath, .access .read 1 []])
      pair →
    ∃ missing, count + missing = total ∧ Run (Connection.Moves (setting .small _ 1)) missing pair
      (finish [some [7], none, some [7]] own final) :=
  session_interleaved (by decide) accepted_small none (fun _ => none) (by decide)

end Sessions

end Process
end OramHub.RingOram
