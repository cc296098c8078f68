import OramHub.Lib.Duplex
import OramHub.RingOram.Handlers
import OramHub.RingOram.History

/-! # The connection of client and server, byte by byte

Both sides read fields off a byte stream and decide by what they have read how to go on. Each
request is served from exactly the bytes that were sent for it, and its answer is read to the last
byte.
-/
namespace OramHub.RingOram
open OramHub.Core OramHub.Program OramHub.LittleEndian OramHub.Network OramHub.Streams
set_option autoImplicit false

/-! ## The client's side -/

section Client

variable (cfg : RuntimeConfig)

/-- `ExpectAck`. -/
def recvAck : RecvM Response := do
  let ack ← recvData 1
  throwIf (ack ≠ ['K'.toUInt8]) (.runtimeError "Unexpected Ring ORAM server acknowledgment")
  return .ack

/-- One round of the loop of `FetchPathMetadata`. -/
def recvMetadata : RecvM Bytes := do
  let bytes ← recvVec
  let _ ← fromExcept (deserializeRingBucketMetadata bytes)
  return bytes

/-- What the client reads after it has sent a request. -/
def recvResponse : Request → RecvM Response
  | .init _ _ => recvAck
  | .readPathMetadata _ => do
    let pathSize ← recvUint64
    let metadata ← Streams.many recvMetadata pathSize.toNat
    return .pathMetadata pathSize metadata
  | .xorPathSlots _ _ offsets => do
    let aggregate ← recvVec
    throwIf (aggregate.length ≠ cfg.blockSize.toNat)
      (.runtimeError "Ring ORAM XOR aggregate has invalid size")
    let ivCount ← recvUint64
    throwIf (ivCount ≠ UInt64.ofNat offsets.length)
      (.runtimeError "Ring ORAM XOR IV count mismatch")
    let ivs ← Streams.many recvVec ivCount.toNat
    return .xorPath aggregate ivCount ivs
  | .readBucket _ => do
    let bytes ← recvVec
    return .bucket bytes
  | .writeBucket _ _ => recvAck
  | .readBucketCount _ => do
    let count ← recvUint64
    return .bucketCount count
  | .readStats => do
    let xorPathReadCount ← recvUint64
    let lastXorPathSlotCount ← recvUint64
    return .stats xorPathReadCount lastXorPathSlotCount

/-- Answers that the client can read. -/
def Response.Readable (cfg : RuntimeConfig) : Request → Response → Prop
  | .init _ _, .ack => True
  | .readPathMetadata _, .pathMetadata pathSize payloads => pathSize.toNat = payloads.length ∧
      ∀ bytes ∈ payloads, ∃ metadata, metadata.Held ∧
      serializeRingBucketMetadata metadata = .ok bytes
  | .xorPathSlots _ _ offsets, .xorPath aggregate ivCount ivs =>
    aggregate.length = cfg.blockSize.toNat ∧
      aggregate.length ≤ vectorMaxSize ∧ ivCount = UInt64.ofNat offsets.length ∧
      ivCount.toNat = ivs.length ∧
      ∀ iv ∈ ivs, iv.length ≤ vectorMaxSize
  | .readBucket _, .bucket bytes => bytes.length ≤ vectorMaxSize
  | .writeBucket _ _, .ack => True
  | .readBucketCount _, .bucketCount _ => True
  | .readStats, .stats _ _ => True
  | _, _ => False

theorem takes_recvAck : Takes recvAck (Response.encode .ack) .ack :=
  (Takes.take _ ['K'.toUInt8]).bind (Takes.check_bind (not_not.mpr rfl) (Takes.pure _))

theorem takes_recvMetadata {bytes : Bytes}
    (h : ∃ metadata, metadata.Held ∧ serializeRingBucketMetadata metadata = .ok bytes) :
    Takes recvMetadata (sendVec bytes) bytes := by
  obtain ⟨metadata, hHeld, hOk⟩ := h
  obtain ⟨hBytes, hSize⟩ := checkSize_eq_ok hOk
  rw [← List.append_nil (sendVec bytes)]
  apply (takes_recvVec (hBytes ▸ hSize)).bind
  exact Takes.fromExcept_bind (deserializeRingBucketMetadata_serialize hHeld hOk) (Takes.pure bytes)

theorem takes_recvResponse {request : Request} {response : Response}
    (h : response.Readable cfg request) :
    Takes (recvResponse cfg request) response.encode response := by
  cases request with
  | init nodeCount buckets =>
    cases response with
    | ack => exact takes_recvAck
    | _ => exact h.elim
  | readPathMetadata leaf =>
    cases response with
    | pathMetadata pathSize payloads =>
      obtain ⟨hCount, hPayloads⟩ := h
      apply (takes_recvUint64 pathSize).bind
      rw [hCount]
      exact (Takes.many fun bytes hBytes => takes_recvMetadata (hPayloads bytes hBytes)).map
        (Response.pathMetadata pathSize)
    | _ => exact h.elim
  | xorPathSlots leaf offsetCount offsets =>
    cases response with
    | xorPath aggregate ivCount ivs =>
      obtain ⟨hBlock, hSize, hIvCount, hCount, hIvs⟩ := h
      rw [Response.encode, List.append_assoc]
      refine (takes_recvVec hSize).bind (Takes.check_bind (not_not.mpr hBlock) ?_)
      refine (takes_recvUint64 ivCount).bind (Takes.check_bind (not_not.mpr hIvCount) ?_)
      rw [hCount]
      exact (Takes.many fun iv hIv => takes_recvVec (hIvs iv hIv)).map
        (Response.xorPath aggregate ivCount)
    | _ => exact h.elim
  | readBucket bucketIdx =>
    cases response with
    | bucket bytes => exact (takes_recvVec h).map Response.bucket
    | _ => exact h.elim
  | writeBucket bucketIdx bytes =>
    cases response with
    | ack => exact takes_recvAck
    | _ => exact h.elim
  | readBucketCount bucketIdx =>
    cases response with
    | bucketCount count => exact (takes_recvUint64 count).map Response.bucketCount
    | _ => exact h.elim
  | readStats =>
    cases response with
    | stats reads slots =>
      exact (takes_recvUint64 reads).bind ((takes_recvUint64 slots).map (Response.stats reads))
    | _ => exact h.elim

end Client

/-! ## The server's side -/

/-- The server with the bytes that it has not read yet and those that the client has not read yet.
-/
structure Connection where
  server : Server
  incoming : Bytes
  outgoing : Bytes

abbrev ServeM := EStateM Exception Connection

def recv {α : Type} (x : RecvM α) : ServeM α :=
  zoom Connection.incoming (fun connection stream => { connection with incoming := stream }) x

def onServer {α : Type} (x : ServerM α) : ServeM α :=
  zoom Connection.server (fun connection server => { connection with server := server }) x

def sendData (bytes : Bytes) : ServeM Unit :=
  modify fun connection => { connection with outgoing := connection.outgoing ++ bytes }

namespace Wire

variable (cfg : RuntimeConfig)

/-- One round of the loop of `HandleInit`. -/
def initBucket (i : Nat) : ServeM Unit := do
  let bytes ← recv recvVec
  onServer do
    let bucket ← fromExcept (deserializeEncryptedRingBucket bytes)
    validateBucketShape cfg bucket "init"
    writeBucketToDisk cfg (UInt64.ofNat i) bucket

def handleInit : ServeM Unit := do
  let nodeCount ← recv recvUint64
  throwIf (nodeCount ≠ cfg.numTreeNodes) (.invalidArgument "Ring ORAM init tree size mismatch")
  onServer (modify fun server => { server with files := fun _ => none, nodeCount := nodeCount })
  forM (List.range nodeCount.toNat) (initBucket cfg)
  sendData ['K'.toUInt8]

/-- One round of the loop of `HandleReadPathMetadata`. -/
def sendMetadata (bucketIdx : UInt64) : ServeM Unit := do
  let bucket ← onServer (readBucketFromDisk cfg bucketIdx)
  let bytes ← fromExcept (serializeRingBucketMetadata (metadataFromBucket bucket))
  sendData (sendVec bytes)

def handleReadPathMetadata : ServeM Unit := do
  onServer (validateInitialized cfg)
  let leaf ← recv recvUint64
  let path ← fromExcept (cfg.getPathIndices leaf)
  sendData (encodeWord (UInt64.ofNat path.length))
  forM path (sendMetadata cfg)

def handleXorPathSlots : ServeM Unit := do
  onServer (validateInitialized cfg)
  let leaf ← recv recvUint64
  let offsetCount ← recv recvUint64
  let path ← fromExcept (cfg.getPathIndices leaf)
  throwIf (offsetCount ≠ UInt64.ofNat path.length)
    (.invalidArgument "Ring ORAM XOR path offset count mismatch")
  let offsets ← recv (Streams.many recvUint64 offsetCount.toNat)
  let selected ← onServer
    ((path.zip offsets).foldlM (xorPathSlot cfg) (List.replicate cfg.blockSize.toNat 0, []))
  onServer (modify fun server =>
    { server with
      xorPathReadCount := server.xorPathReadCount + 1
      lastXorPathSlotCount := offsetCount })
  sendData (sendVec selected.1)
  sendData (encodeWord (UInt64.ofNat selected.2.length))
  forM selected.2 fun iv => sendData (sendVec iv)

def handleReadBucket : ServeM Unit := do
  onServer (validateInitialized cfg)
  let bucketIdx ← recv recvUint64
  let bucket ← onServer (readBucketFromDisk cfg bucketIdx)
  let bytes ← fromExcept (serializeEncryptedRingBucket bucket)
  sendData (sendVec bytes)

def handleWriteBucket : ServeM Unit := do
  onServer (validateInitialized cfg)
  let bucketIdx ← recv recvUint64
  let bytes ← recv recvVec
  let bucket ← fromExcept (deserializeEncryptedRingBucket bytes)
  onServer (validateBucketShape cfg bucket "write")
  onServer (writeBucketToDisk cfg bucketIdx bucket)
  sendData ['K'.toUInt8]

def handleReadBucketCount : ServeM Unit := do
  onServer (validateInitialized cfg)
  let bucketIdx ← recv recvUint64
  let bucket ← onServer (readBucketFromDisk cfg bucketIdx)
  sendData (encodeWord bucket.count)

def handleReadStats : ServeM Unit := do
  let connection ← get
  sendData (encodeWord connection.server.xorPathReadCount)
  sendData (encodeWord connection.server.lastXorPathSlotCount)

/-- One round of `HandleRequests`: the next byte of the stream decides what is read after it. -/
def handleCommand : ServeM Unit := do
  let command ← recv (recvData 1)
  if command = ['Q'.toUInt8] then onServer (modify fun server => { server with running := false })
  else if command = ['I'.toUInt8] then handleInit cfg
  else if command = ['M'.toUInt8] then handleReadPathMetadata cfg
  else if command = ['X'.toUInt8] then handleXorPathSlots cfg
  else if command = ['B'.toUInt8] then handleReadBucket cfg
  else if command = ['W'.toUInt8] then handleWriteBucket cfg
  else if command = ['T'.toUInt8] then handleReadBucketCount cfg
  else if command = ['S'.toUInt8] then handleReadStats
  else throw (.runtimeError "Unknown Ring ORAM server command")

end Wire

theorem incoming_link : Incoming Connection.mk Connection.incoming fun connection stream =>
    { connection with incoming := stream } :=
  ⟨fun _ _ _ => rfl, fun _ _ _ _ => rfl⟩

theorem own_link : Own Connection.mk Connection.server fun connection server =>
    { connection with server := server } :=
  ⟨fun _ _ _ => rfl, fun _ _ _ _ => rfl⟩

/-- The handler takes `chunk` off the stream, whatever follows it, answers `reply` and returns `a`.
-/
def Serves {α : Type} (x : ServeM α) (server : Server) (chunk reply : Bytes) (a : α)
    (server' : Server) : Prop :=
  ∀ later sent, x.run ⟨server, chunk ++ later, sent⟩ = .ok a ⟨server', later, sent ++ reply⟩

namespace Serves

variable {α β : Type} {server server' server'' : Server}
  {chunk chunk' reply reply' : Bytes} {a : α} {b : β}

theorem bind {x : ServeM α} {f : α → ServeM β} (h : Serves x server chunk reply a server')
    (hNext : Serves (f a) server' chunk' reply' b server'') :
    Serves (x >>= f) server (chunk ++ chunk') (reply ++ reply') b server'' :=
  Streams.Serves.bind h hNext

theorem of_recv {x : RecvM α} (h : Takes x chunk a) : Serves (recv x) server chunk [] a server :=
  Streams.Serves.of_takes incoming_link h

theorem recv_bind {x : RecvM α} {f : α → ServeM β} (h : Takes x chunk a)
    (hNext : Serves (f a) server chunk' reply b server') :
    Serves (recv x >>= f) server (chunk ++ chunk') reply b server' := (of_recv h).bind hNext

theorem of_server {x : ServerM α} (h : x.run server = .ok a server') :
    Serves (onServer x) server [] [] a server' :=
  Streams.Serves.of_run own_link h

theorem onServer_bind {x : ServerM α} {f : α → ServeM β} (h : x.run server = .ok a server')
    (hNext : Serves (f a) server' chunk reply b server'') :
    Serves (onServer x >>= f) server chunk reply b server'' :=
  (of_server h).bind hNext

theorem send (bytes : Bytes) : Serves (sendData bytes) server [] bytes () server := fun _ _ => rfl

theorem send_bind (bytes : Bytes) {f : Unit → ServeM β}
    (hNext : Serves (f ()) server chunk reply b server') :
    Serves (sendData bytes >>= f) server chunk (bytes ++ reply) b server' := (send bytes).bind hNext

theorem check_bind {refused : Prop} [Decidable refused] {e : Exception}
    {f : Unit → ServeM β} (h : ¬ refused) (hNext : Serves (f ()) server chunk reply b server') :
    Serves (throwIf refused e >>= f) server chunk reply b server' :=
  Streams.Serves.check_bind h hNext

theorem fromExcept_bind {x : Except Exception α} {f : α → ServeM β} (h : x = .ok a)
    (hNext : Serves (f a) server chunk reply b server') :
    Serves (fromExcept x >>= f) server chunk reply b server' :=
  Streams.Serves.fromExcept_bind h hNext

theorem pure (a : α) : Serves (Pure.pure a) server [] [] a server :=
  Streams.Serves.pure Connection.mk a server

theorem forM_send {items : List α} (chunkOf : α → Bytes) :
    Serves (forM items fun item => sendData (chunkOf item)) server []
      (items.flatMap chunkOf) () server :=
  Streams.Serves.loop fun item _ => send (chunkOf item)

end Serves

/-- The handler takes `chunk` off the stream, sends nothing and throws `e`. -/
def Refuses {α : Type} (x : ServeM α) (server : Server) (chunk : Bytes) (e : Exception)
    (server' : Server) : Prop :=
  ∀ later sent, x.run ⟨server, chunk ++ later, sent⟩ = .error e ⟨server', later, sent⟩

theorem Serves.refuses_bind {α β : Type} {server server' server'' : Server} {chunk chunk' : Bytes}
    {a : α} {e : Exception}
    {x : ServeM α} {f : α → ServeM β} (h : Serves x server chunk [] a server')
    (hNext : Refuses (f a) server' chunk' e server'') :
    Refuses (x >>= f) server (chunk ++ chunk') e server'' := by
  intro later sent
  rw [List.append_assoc, EStateM.run_bind, h, List.append_nil]
  exact hNext later sent

theorem Refuses.onServer_bind {α β : Type} {server server' : Server} {e : Exception}
    {x : ServerM α} {f : α → ServeM β}
    (h : x.run server = .error e server') : Refuses (onServer x >>= f) server [] e server' := by
  intro later sent
  have hServer : (onServer x).run ⟨server, [] ++ later, sent⟩ =
      .error e ⟨server', later, sent⟩ := by
    simp only [onServer, run_zoom, h, List.nil_append]
  rw [EStateM.run_bind, hServer]

section Handlers

variable {cfg : RuntimeConfig} {server server' : Server} {response : Response}

theorem serves_initBucket {buckets : List Bytes} {i : Nat} {bytes : Bytes}
    (hBytes : buckets[i]? = some bytes)
    (hSize : bytes.length ≤ vectorMaxSize)
    (hRun : (initBucket cfg buckets i).run server = .ok () server') :
    Serves (Wire.initBucket cfg i) server (sendVec bytes) [] () server' := by
  simp only [initBucket, hBytes] at hRun
  rw [← List.append_nil (sendVec bytes)]
  exact Serves.recv_bind (takes_recvVec hSize) (Serves.of_server hRun)

theorem serves_initBuckets {buckets : List Bytes}
    (hSizes : ∀ bytes ∈ buckets, bytes.length ≤ vectorMaxSize) {count : Nat}
    (hCount : count ≤ buckets.length)
    (hRun : (forM (List.range count) (initBucket cfg buckets)).run server = .ok () server') :
    Serves (forM (List.range count) (Wire.initBucket cfg)) server
      ((buckets.take count).flatMap sendVec) [] () server' := by
  refine Streams.Serves.forM_range (fun i bytes server server' hBytes hInit => ?_) hCount hRun
  exact serves_initBucket hBytes (hSizes bytes (List.mem_of_getElem? hBytes)) hInit

theorem serves_handleInit {nodeCount : UInt64} {buckets : List Bytes}
    (hCount : nodeCount.toNat = buckets.length)
    (hSizes : ∀ bytes ∈ buckets, bytes.length ≤ vectorMaxSize)
    (hRun : (handleInit cfg nodeCount buckets).run server = .ok response server') :
    response = .ack ∧
    Serves (Wire.handleInit cfg) server (encodeWord nodeCount ++ buckets.flatMap sendVec)
      (Response.encode .ack) () server' := by
  obtain ⟨hNodes, rfl, hLoop⟩ := handleInit_eq_ok hRun
  have hBuckets := serves_initBuckets hSizes hCount.le hLoop
  rw [hCount, List.take_length, ← hCount] at hBuckets
  refine ⟨rfl, Serves.recv_bind (takes_recvUint64 nodeCount)
    (Serves.check_bind (not_not.mpr hNodes) (Serves.onServer_bind rfl ?_))⟩
  rw [← List.append_nil (buckets.flatMap sendVec)]
  exact hBuckets.bind (Serves.send ['K'.toUInt8])

theorem serves_sendMetadata {path : List UInt64} {sent payloads : List Bytes}
    (hRun : (path.foldlM (readMetadataOf cfg) sent).run server = .ok payloads server') :
    ∃ added, payloads = sent ++ added ∧ added.length = path.length ∧
      (∀ bytes ∈ added, ∃ metadata, metadata.Held ∧
        serializeRingBucketMetadata metadata = .ok bytes) ∧
      Serves (forM path (Wire.sendMetadata cfg)) server [] (added.flatMap sendVec) () server' := by
  induction path generalizing server sent with
  | nil =>
    cases hRun
    exact ⟨[], (List.append_nil payloads).symm, rfl, fun _ hBytes => absurd hBytes List.not_mem_nil,
      Serves.pure ()⟩
  | cons bucketIdx path ih =>
    rw [List.foldlM_cons] at hRun
    obtain ⟨_, _, hHead, hRest⟩ := run_bind_eq_ok hRun
    obtain ⟨bucket, _, hRead, hHead₁⟩ := run_bind_eq_ok hHead
    obtain ⟨bytes, _, hSerialize, hReturn⟩ := run_bind_eq_ok hHead₁
    obtain ⟨hBytes, rfl⟩ := run_fromExcept_eq_ok hSerialize
    cases hReturn
    obtain ⟨_, _, _, stored, _, hBucket⟩ := readBucketFromDisk_eq_ok hRead
    obtain ⟨added, rfl, hLength, hAdded, hServes⟩ := ih hRest
    refine ⟨bytes :: added, by rw [List.append_assoc, List.singleton_append],
      congrArg Nat.succ hLength, ?_, ?_⟩
    · rintro other hOther
      obtain rfl | hOld := List.mem_cons.mp hOther
      · exact ⟨_, (held_of_deserialize hBucket).metadata, hBytes⟩
      · exact hAdded other hOld
    · rw [List.forM_cons]
      have hSend : Serves (Wire.sendMetadata cfg bucketIdx) server [] (sendVec bytes) () _ :=
        Serves.onServer_bind hRead (Serves.fromExcept_bind hBytes (Serves.send _))
      exact hSend.bind hServes

theorem serves_handleReadPathMetadata (hDepth : cfg.depth < 63) {leaf : UInt64}
    (hRun : (handleReadPathMetadata cfg leaf).run server = .ok response server') :
    response.Readable cfg (.readPathMetadata leaf) ∧
      Serves (Wire.handleReadPathMetadata cfg) server (encodeWord leaf)
        response.encode () server' := by
  obtain ⟨hNodes, path, payloads, hPath, hLoop, rfl⟩ := handleReadPathMetadata_eq_ok hRun
  obtain ⟨added, hPayloads, hLength, hAdded, hServes⟩ := serves_sendMetadata hLoop
  have hCount : (UInt64.ofNat path.length).toNat = path.length := toNat_length_path hDepth hPath
  rw [hPayloads, List.nil_append]
  refine ⟨⟨hCount.trans hLength.symm, hAdded⟩, ?_⟩
  rw [← List.append_nil (encodeWord leaf)]
  refine Serves.onServer_bind (validateInitialized_run hNodes)
    (Serves.recv_bind (takes_recvUint64 leaf) (Serves.fromExcept_bind hPath ?_))
  exact Serves.send_bind _ hServes

theorem length_le_of_serialize {bucket : EncryptedRingBucket} {bytes : Bytes}
    (h : serializeEncryptedRingBucket bucket = .ok bytes) :
    bytes.length ≤ vectorMaxSize := by
  rw [serializeEncryptedRingBucket_eq] at h
  obtain ⟨rfl, hSize⟩ := checkSize_eq_ok h
  exact hSize

theorem serves_handleReadBucket {bucketIdx : UInt64}
    (hRun : (handleReadBucket cfg bucketIdx).run server = .ok response server') :
    response.Readable cfg (.readBucket bucketIdx) ∧
      Serves (Wire.handleReadBucket cfg) server (encodeWord bucketIdx)
        response.encode () server' := by
  obtain ⟨hNodes, rfl, bucket, bytes, hRead, hBytes, rfl⟩ := handleReadBucket_eq_ok hRun
  have hSize := length_le_of_serialize hBytes
  refine ⟨hSize, ?_⟩
  rw [← List.append_nil (encodeWord bucketIdx)]
  refine Serves.onServer_bind (validateInitialized_run hNodes)
    (Serves.recv_bind (takes_recvUint64 bucketIdx) ?_)
  exact Serves.onServer_bind hRead (Serves.fromExcept_bind hBytes (Serves.send _))

theorem serves_handleWriteBucket {bucketIdx : UInt64} {bytes : Bytes}
    (hSize : bytes.length ≤ vectorMaxSize)
    (hRun : (handleWriteBucket cfg bucketIdx bytes).run server = .ok response server') :
    response = .ack ∧
    Serves (Wire.handleWriteBucket cfg) server (encodeWord bucketIdx ++ sendVec bytes)
      (Response.encode .ack) () server' := by
  obtain ⟨hNodes, rfl, bucket, hBucket, hShape, hWrite⟩ := handleWriteBucket_eq_ok hRun
  refine ⟨rfl, ?_⟩
  rw [← List.append_nil (sendVec bytes)]
  refine Serves.onServer_bind (validateInitialized_run hNodes)
    (Serves.recv_bind (takes_recvUint64 bucketIdx) ?_)
  refine Serves.recv_bind (takes_recvVec hSize) (Serves.fromExcept_bind hBucket ?_)
  exact Serves.onServer_bind (validateBucketShape_run hShape _)
    (Serves.onServer_bind hWrite (Serves.send _))

theorem serves_handleReadBucketCount {bucketIdx : UInt64}
    (hRun : (handleReadBucketCount cfg bucketIdx).run server = .ok response server') :
    response.Readable cfg (.readBucketCount bucketIdx) ∧
      Serves (Wire.handleReadBucketCount cfg) server (encodeWord bucketIdx)
        response.encode () server' := by
  obtain ⟨hNodes, rfl, bucket, hRead, rfl⟩ := handleReadBucketCount_eq_ok hRun
  refine ⟨trivial, ?_⟩
  rw [← List.append_nil (encodeWord bucketIdx)]
  refine Serves.onServer_bind (validateInitialized_run hNodes)
    (Serves.recv_bind (takes_recvUint64 bucketIdx) ?_)
  exact Serves.onServer_bind hRead (Serves.send _)

theorem serves_handleReadStats (hRun : handleReadStats.run server = .ok response server') :
    response.Readable cfg .readStats ∧
    Serves Wire.handleReadStats server [] response.encode () server' := by
  cases hRun
  refine ⟨trivial, Streams.Serves.iff_returns.mpr fun later sent => Returns.get_bind ?_⟩
  exact Streams.Serves.iff_returns.mp (Serves.send_bind _ (Serves.send _)) later sent

/-- A bucket that can be serialized has no field that a vector could not hold. -/
theorem field_le_of_serialize {bucket : EncryptedRingBucket} {bytes : Bytes}
    (h : serializeEncryptedRingBucket bucket = .ok bytes)
    {field : EncryptedField} (hField : field ∈ bucket.data) :
    field.iv.length ≤ vectorMaxSize ∧ field.ciphertext.length ≤ vectorMaxSize := by
  rw [serializeEncryptedRingBucket_eq] at h
  obtain ⟨_, hSize⟩ := checkSize_eq_ok h
  obtain ⟨first, last, hData⟩ := List.append_of_mem hField
  have hLength := length_fieldBytes field
  simp only [bucketBytes, fieldsBytes, hData, List.length_append, List.flatMap_append,
    List.flatMap_cons] at hSize
  omega

theorem xorPathSlots_eq_ok {slots : List (UInt64 × UInt64)}
    {selected selected' : Bytes × List Bytes}
    (hRun : (slots.foldlM (xorPathSlot cfg) selected).run server = .ok selected' server') :
    selected'.1.length = selected.1.length ∧ (slots ≠ [] → cfg.blockSize.toNat ≤ vectorMaxSize) ∧
      ∃ added, selected'.2 = selected.2 ++ added ∧ added.length = slots.length ∧ ∀ iv ∈ added,
      iv.length ≤ vectorMaxSize := by
  induction slots generalizing server selected with
  | nil =>
    cases hRun
    exact ⟨rfl, fun hNil => absurd rfl hNil, [], (List.append_nil _).symm, rfl, fun _ hIv =>
      absurd hIv List.not_mem_nil⟩
  | cons slot slots ih =>
    rw [List.foldlM_cons] at hRun
    obtain ⟨middle, _, hHead, hRest⟩ := run_bind_eq_ok hRun
    obtain ⟨_, bucket, field, bytes, _, _, hField, _, hBlock, hLength, hIvs, hBytes, rfl⟩ :=
      xorPathSlot_eq_ok hHead
    obtain ⟨hIv, hCiphertext⟩ := field_le_of_serialize hBytes (List.mem_of_getElem? hField)
    obtain ⟨hLength', _, added, hAdded, hCount, hSizes⟩ := ih hRest
    refine ⟨hLength'.trans hLength, fun _ => hBlock ▸ hCiphertext, field.iv :: added, ?_,
      congrArg Nat.succ hCount, ?_⟩
    · rw [hAdded, hIvs, List.append_assoc, List.singleton_append]
    · rintro iv hMem
      obtain rfl | hOld := List.mem_cons.mp hMem
      · exact hIv
      · exact hSizes iv hOld

theorem serves_handleXorPathSlots (hDepth : cfg.depth < 63) {leaf offsetCount : UInt64}
    {offsets : List UInt64} (hOffsets : offsetCount.toNat = offsets.length)
    (hRun : (handleXorPathSlots cfg leaf offsetCount offsets).run server = .ok response server') :
    response.Readable cfg (.xorPathSlots leaf offsetCount offsets) ∧
      Serves (Wire.handleXorPathSlots cfg) server (encodeWord leaf ++ encodeWord offsetCount ++
        offsets.flatMap encodeWord)
        response.encode () server' := by
  obtain ⟨hNodes, path, selected, server₁, hPath, hCount, hLoop, rfl, rfl⟩ :=
    handleXorPathSlots_eq_ok hRun
  obtain ⟨hLength, hBlockSize, added, hIvs, hAdded, hSizes⟩ := xorPathSlots_eq_ok hLoop
  have hPathLength :
      offsets.length = path.length := by rw [← hOffsets, hCount, toNat_length_path hDepth hPath]
  have hSlots : (path.zip offsets).length = path.length := by
    rw [List.length_zip, hPathLength, Nat.min_self]
  have hSome : path.zip offsets ≠ [] := by
    apply List.ne_nil_of_length_pos
    rw [hSlots, length_getPathIndices hPath]
    exact Nat.succ_pos _
  rw [List.nil_append] at hIvs
  rw [List.length_replicate] at hLength
  have hIvLength : selected.2.length = offsets.length := by rw [hIvs, hAdded, hSlots, hPathLength]
  have hBound : offsets.length < 2 ^ 64 := hOffsets ▸ UInt64.toNat_lt offsetCount
  constructor
  · refine ⟨hLength, hLength ▸ hBlockSize hSome, congrArg UInt64.ofNat hIvLength, ?_, hIvs ▸ hSizes⟩
    rw [hIvLength]
    exact UInt64.toNat_ofNat_of_lt' hBound
  · have hTakes : Takes (Streams.many recvUint64 offsetCount.toNat)
        (offsets.flatMap encodeWord) offsets := by
      rw [hOffsets]
      exact Takes.many fun offset _ => takes_recvUint64 offset
    rw [← List.append_nil (offsets.flatMap encodeWord), List.append_assoc,
      Response.encode, List.append_assoc]
    refine Serves.onServer_bind (validateInitialized_run hNodes)
      (Serves.recv_bind (takes_recvUint64 leaf) ?_)
    refine Serves.recv_bind (takes_recvUint64 offsetCount)
      (Serves.fromExcept_bind hPath (Serves.check_bind (not_not.mpr hCount) ?_))
    refine Serves.recv_bind hTakes (Serves.onServer_bind hLoop (Serves.onServer_bind rfl ?_))
    exact Serves.send_bind _ (Serves.send_bind _ (Serves.forM_send sendVec))

theorem FreshBucket.length_le {bytes : Bytes} (h : FreshBucket cfg bytes) :
    bytes.length ≤ vectorMaxSize := by
  obtain ⟨bucket, _, hOk, _⟩ := h
  exact length_le_of_serialize hOk

theorem serves_command {command : UInt8} {body reply : Bytes} {f : Bytes → ServeM Unit}
    (h : Serves (f [command]) server body reply () server') :
    Serves (recv (recvData 1) >>= f) server (command :: body) reply () server' :=
  Serves.recv_bind (Takes.take _ [command]) h

/-- Requests that fit into the fields that announce their size. -/
def Request.Sendable : Request → Prop
  | .init nodeCount buckets =>
    nodeCount.toNat = buckets.length ∧ ∀ bytes ∈ buckets, bytes.length ≤ vectorMaxSize
  | .xorPathSlots _ offsetCount offsets => offsetCount.toNat = offsets.length
  | .writeBucket _ bytes => bytes.length ≤ vectorMaxSize
  | _ => True

theorem Request.Sent.sendable {request : Request} (h : request.Sent cfg) : request.Sendable := by
  cases request with
  | init nodeCount buckets => exact ⟨h.1, fun bytes hBytes => (h.2 bytes hBytes).length_le⟩
  | xorPathSlots leaf offsetCount offsets => exact h
  | writeBucket bucketIdx bytes => exact FreshBucket.length_le h
  | _ => trivial

/-- Whatever the message handler answers, the byte handler answers, from exactly the bytes of the
request. -/
theorem serves_sendable (hDepth : cfg.depth < 63) {request : Request} (hSendable : request.Sendable)
    (hRun : (handleRequest cfg request).run server = .ok response server') :
    response.Readable cfg request ∧
    Serves (Wire.handleCommand cfg) server request.encode response.encode () server' := by
  cases request with
  | init nodeCount buckets =>
    obtain ⟨rfl, hServes⟩ := serves_handleInit hSendable.1 hSendable.2 hRun
    refine ⟨trivial, serves_command ?_⟩
    rw [if_neg (by decide), if_pos rfl]
    exact hServes
  | readPathMetadata leaf =>
    obtain ⟨hReadable, hServes⟩ := serves_handleReadPathMetadata hDepth hRun
    refine ⟨hReadable, serves_command ?_⟩
    rw [if_neg (by decide), if_neg (by decide), if_pos rfl]
    exact hServes
  | xorPathSlots leaf offsetCount offsets =>
    obtain ⟨hReadable, hServes⟩ := serves_handleXorPathSlots hDepth hSendable hRun
    refine ⟨hReadable, serves_command ?_⟩
    rw [if_neg (by decide), if_neg (by decide), if_neg (by decide), if_pos rfl]
    exact hServes
  | readBucket bucketIdx =>
    obtain ⟨hReadable, hServes⟩ := serves_handleReadBucket hRun
    refine ⟨hReadable, serves_command ?_⟩
    rw [if_neg (by decide), if_neg (by decide), if_neg (by decide), if_neg (by decide), if_pos rfl]
    exact hServes
  | writeBucket bucketIdx bytes =>
    obtain ⟨rfl, hServes⟩ := serves_handleWriteBucket hSendable hRun
    refine ⟨trivial, serves_command ?_⟩
    rw [if_neg (by decide), if_neg (by decide), if_neg (by decide), if_neg (by decide),
      if_neg (by decide), if_pos rfl]
    exact hServes
  | readBucketCount bucketIdx =>
    obtain ⟨hReadable, hServes⟩ := serves_handleReadBucketCount hRun
    refine ⟨hReadable, serves_command ?_⟩
    rw [if_neg (by decide), if_neg (by decide), if_neg (by decide), if_neg (by decide),
      if_neg (by decide), if_neg (by decide), if_pos rfl]
    exact hServes
  | readStats =>
    obtain ⟨hReadable, hServes⟩ := serves_handleReadStats hRun
    refine ⟨hReadable, serves_command ?_⟩
    rw [if_neg (by decide), if_neg (by decide), if_neg (by decide), if_neg (by decide),
      if_neg (by decide), if_neg (by decide), if_neg (by decide), if_pos rfl]
    exact hServes

theorem serves_handleCommand (hDepth : cfg.depth < 63) {request : Request}
    (hSent : request.Sent cfg)
    (hRun : (handleRequest cfg request).run server = .ok response server') :
    response.Readable cfg request ∧
    Serves (Wire.handleCommand cfg) server request.encode response.encode () server' :=
  serves_sendable hDepth hSent.sendable hRun

end Handlers

/-! ## Whole sessions -/

section Sessions

variable {env : Env} {bucketFiles : Nat → Option Bytes} {w : World}

/-- One exchange: the client sends a request, the server handles a command, the client reads the
answer. -/
def exchange (cfg : RuntimeConfig) (request : Request) : ServeM Response := do
  modify fun connection => { connection with incoming := connection.incoming ++ request.encode }
  Wire.handleCommand cfg
  zoom Connection.outgoing (fun connection stream => { connection with outgoing := stream })
    (recvResponse cfg request)

def exchanges (cfg : RuntimeConfig) (log : List Event) : ServeM (List Response) :=
  log.mapM fun event => exchange cfg event.request

/-- An answered request. Whatever bytes follow on either side, both are read exactly, with the
values sent. -/
structure Aligned (cfg : RuntimeConfig) (server : Server) (event : Event)
    (server' : Server) : Prop where
  handled : (handleRequest cfg event.request).run server = .ok event.response server'
  served : Serves (Wire.handleCommand cfg) server event.request.encode
    event.response.encode () server'
  received : Takes (recvResponse cfg event.request) event.response.encode event.response

/-- What a session has put on the wire. -/
structure WireAligned (cfg : RuntimeConfig) (start : Server) (w : World) : Prop where
  requests : ∀ before event after, w.log = before ++ event :: after → ∃ server server',
    (exchanges cfg before).run ⟨start, [], []⟩ = .ok (before.map Event.response) ⟨server, [], []⟩ ∧
    Aligned cfg server event server'
  boundary : ∃ server,
    (exchanges cfg w.log).run ⟨start, [], []⟩ = .ok (w.log.map Event.response) ⟨server, [], []⟩ ∧
    (w.server = server ∨ ∃ bucketIdx e, w.server = { server with running := false } ∧
      Refuses (Wire.handleCommand cfg) server (Request.readBucketCount bucketIdx).encode e server)

theorem Aligned.exchange {cfg : RuntimeConfig} {server server' : Server} {event : Event}
    (h : Aligned cfg server event server') :
    (exchange cfg event.request).run ⟨server, [], []⟩ = .ok event.response ⟨server', [], []⟩ := by
  have hServed := Streams.Serves.iff_returns.mp h.served [] []
  have hReceived := Takes.iff_returns.mp h.received []
  rw [List.append_nil, List.nil_append] at hServed
  rw [List.append_nil] at hReceived
  have hReturns : Returns (RingOram.exchange cfg event.request) ⟨server, [], []⟩
      fun response connection =>
      response = event.response ∧ connection = ⟨server', [], []⟩ := by
    refine Returns.modify_bind (hServed.bind ?_)
    rintro _ _ ⟨_, rfl⟩
    refine Returns.zoom (hReceived.mono ?_)
    rintro _ _ ⟨rfl, rfl⟩
    exact ⟨rfl, rfl⟩
  obtain ⟨_, _, hRun, rfl, rfl⟩ := returns_iff.mp hReturns
  exact hRun

theorem aligned_of_sent {cfg : RuntimeConfig} (hDepth : cfg.depth < 63)
    {server server' : Server} {event : Event} (hSent : event.request.Sent cfg)
    (hRun : (handleRequest cfg event.request).run server = .ok event.response server') :
    Aligned cfg server event server' := by
  obtain ⟨hReadable, hServes⟩ := serves_handleCommand hDepth hSent hRun
  exact ⟨hRun, hServes, takes_recvResponse cfg hReadable⟩

theorem History.exchanges {cfg : RuntimeConfig} (hDepth : cfg.depth < 63)
    {start server : Server} {log : List Event} (h : History cfg start log server) :
    (exchanges cfg log).run ⟨start, [], []⟩ = .ok (log.map Event.response) ⟨server, [], []⟩ := by
  have hReturns : Returns (RingOram.exchanges cfg log) ⟨start, [], []⟩ fun responses connection =>
      responses = log.map Event.response ∧ connection = ⟨server, [], []⟩ := by
    induction h with
    | nil => exact Returns.pure ⟨rfl, rfl⟩
    | @snoc log event middle server _ hSent hRun _ ih =>
      have hExchange := (aligned_of_sent hDepth hSent hRun).exchange
      rw [RingOram.exchanges, List.mapM_append]
      apply ih.bind
      rintro _ _ ⟨rfl, rfl⟩
      rw [List.mapM_cons, List.mapM_nil, List.map_append]
      have hLast : Returns (RingOram.exchange cfg event.request) ⟨middle, [], []⟩
          fun response connection =>
          response = event.response ∧ connection = ⟨server, [], []⟩ :=
            Returns.of_run hExchange ⟨rfl, rfl⟩
      refine Returns.bind (Returns.bind hLast ?_) fun _ _ h => Returns.pure h
      rintro _ _ ⟨rfl, rfl⟩
      exact Returns.pure ⟨rfl, rfl⟩
  obtain ⟨_, _, hRun, rfl, rfl⟩ := returns_iff.mp hReturns
  exact hRun

/-- The request for the count of a bucket that does not exist is read in full, and nothing is sent
back. -/
theorem handleCommand_refuses {cfg : RuntimeConfig} {server : Server}
    (hNodes : server.nodeCount = cfg.numTreeNodes)
    {bucketIdx : UInt64} (hRange : cfg.numTreeNodes ≤ bucketIdx) :
    Refuses (Wire.handleCommand cfg) server (Request.readBucketCount bucketIdx).encode
      (.outOfRange "Ring ORAM bucket index out of range") server := by
  have hCommand : Serves (recv (recvData 1)) server ['T'.toUInt8] [] ['T'.toUInt8] server :=
    Serves.of_recv (Takes.take _ _)
  have hIndex : Serves (recv recvUint64) server (encodeWord bucketIdx) [] bucketIdx server :=
    Serves.of_recv (takes_recvUint64 bucketIdx)
  have hHandler : Refuses (Wire.handleReadBucketCount cfg) server (encodeWord bucketIdx)
      (.outOfRange "Ring ORAM bucket index out of range") server := by
    rw [← List.append_nil (encodeWord bucketIdx)]
    refine (Serves.of_server (validateInitialized_run hNodes)).refuses_bind (hIndex.refuses_bind ?_)
    exact Refuses.onServer_bind (readBucketFromDisk_refuses (hNodes ▸ hRange))
  apply Serves.refuses_bind hCommand
  rw [if_neg (by decide), if_neg (by decide), if_neg (by decide), if_neg (by decide),
    if_neg (by decide), if_neg (by decide), if_pos rfl]
  exact hHandler

theorem History.requests {cfg : RuntimeConfig} (hDepth : cfg.depth < 63) {start server : Server}
    {log before after : List Event} {event : Event} (h : History cfg start log server)
    (hLog : log = before ++ event :: after) : ∃ middle server',
      (RingOram.exchanges cfg before).run ⟨start, [], []⟩ =
        .ok (before.map Event.response) ⟨middle, [], []⟩ ∧
        Aligned cfg middle event server' := by
  obtain ⟨middle, server', hHistory, hSent, hRun, _⟩ := h.split hLog
  exact ⟨middle, server', hHistory.exchanges hDepth, aligned_of_sent hDepth hSent hRun⟩

/-- In every session, whatever its operations and their arguments, each request and each answer is
read exactly, and between two requests nothing is left on the wire. -/
theorem wireAligned_of_session (h : Session env bucketFiles w) :
    WireAligned env.cfg { files := bucketFiles } w := by
  have hDepth := h.accepted.depth
  cases h.settled with
  | consistent hConsistent hHistory =>
    constructor
    case requests => exact fun before event after => hHistory.requests hDepth
    case boundary => exact ⟨w.server, hHistory.exchanges hDepth, Or.inl rfl⟩
  | @closed w₀ v memory bucketIdx hConsistent hHistory hRange hServer hLog =>
    rw [← hLog] at hHistory
    constructor
    case requests => exact fun before event after => hHistory.requests hDepth
    case boundary =>
      have hRefuses := handleCommand_refuses hConsistent.stored.tree.nodeCount hRange
      exact ⟨w₀.server, hHistory.exchanges hDepth, Or.inr ⟨bucketIdx, _, hServer, hRefuses⟩⟩

theorem wireAligned_small :
    ∃ start w, (construct .small).run (World.start none fun _ => none) = .ok () start ∧
    (operate .small (.action (.access .write 1 [7]))).run start = .ok () w ∧
    WireAligned Env.small.cfg {} w := by
  obtain ⟨start, w, hConstruct, hRun, hSession⟩ := exists_session_small
  exact ⟨start, w, hConstruct, hRun, wireAligned_of_session hSession⟩

end Sessions
end OramHub.RingOram
