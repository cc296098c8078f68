import OramHub.Lib.CommandLoop
import OramHub.RingOram.Rejection

/-! # The Ring ORAM server on any byte stream

`HandleRequests` answers the requests that the bytes spell and stops at the first command that it
cannot carry out. An 'I' request that is carried out initialises the server, and only one that is
not can undo that.
-/
namespace OramHub.RingOram
open OramHub.Core OramHub.Program OramHub.LittleEndian OramHub.Network OramHub.Streams
set_option autoImplicit false

namespace Wire

/-- The flag that is set when the loop is left. -/
def stop (connection : Connection) : Connection := { connection with server.running := false }

/-- `HandleRequests`, with a bound on the number of rounds. -/
def handleRequests (cfg : RuntimeConfig) (rounds : Nat)
    (connection : Connection) : Option Connection :=
  commandLoop (handleCommand cfg) (fun connection => connection.server.running) stop rounds
    { connection with server.running := true }

end Wire

/-- A byte that is no command is an error, so nothing is skipped. -/
def language : Language Request Response UInt8 where
  wellFormed := Request.Sendable
  encode := Request.encode
  reply := Response.encode
  skipped _ := False
  farewell := ['Q'.toUInt8]

variable {cfg : RuntimeConfig} {server server' : Server}

/-! ## What a handler has read -/

section Handlers

variable {α β : Type} {f : α → ServeM β} {taken : Bytes → β → Server → Prop}

theorem Accepts.recv_bind {x : RecvM α} {encodes : Bytes → α → Prop} {thrown : Exception → Prop}
    (h : Streams.Parses x encodes thrown)
    (hNext : ∀ chunk a, encodes chunk a → Accepts Connection.mk (f a) server fun chunk' b s =>
      taken (chunk ++ chunk') b s) :
    Accepts Connection.mk (recv x >>= f) server taken := by
  refine (Streams.Accepts.of_parses incoming_link h).bind ?_
  rintro chunk a _ ⟨hChunk, rfl⟩
  exact hNext chunk a hChunk

theorem Accepts.onServer_bind {x : ServerM α} (hNext : ∀ a server', x.run server = .ok a server' →
      Accepts Connection.mk (f a) server' taken) :
    Accepts Connection.mk (onServer x >>= f) server taken := by
  refine (Streams.Accepts.of_zoom own_link).bind ?_
  rintro _ a server' ⟨rfl, hRun⟩
  exact hNext a server' hRun

theorem Accepts.send_bind {bytes : Bytes} {f : Unit → ServeM β}
    (hNext : Accepts Connection.mk (f ()) server taken) :
    Accepts Connection.mk (sendData bytes >>= f) server taken := by
  refine (Streams.Accepts.of_serves (Serves.send bytes)).bind ?_
  rintro _ _ _ ⟨rfl, rfl, rfl⟩
  exact hNext

/-- The end of a handler, which only sends. -/
theorem Accepts.of_reply {x : ServeM Unit} {reply : Bytes} {taken : Bytes → Unit → Server → Prop}
    (h : Serves x server [] reply () server) (hTaken : taken [] () server) :
    Accepts Connection.mk x server taken := by
  apply (Streams.Accepts.of_serves h).mono
  rintro _ _ _ ⟨rfl, rfl, rfl⟩
  exact hTaken

/-- What the rounds of the loop of `HandleInit` have read, and that the loop over messages stores
it. -/
structure InitRounds (cfg : RuntimeConfig) (server : Server) (i : Nat) (chunk : Bytes)
    (server' : Server) (buckets : List Bytes) :
    Prop where
  count : buckets.length = i
  chunk : chunk = buckets.flatMap sendVec
  sizes : ∀ bytes ∈ buckets, bytes.length ≤ vectorMaxSize
  runs : ∀ more, (forM (List.range i) (initBucket cfg (buckets ++ more))).run server =
    .ok () server'

theorem accepts_initBuckets (count : Nat) :
    Accepts Connection.mk (forM (List.range count) (Wire.initBucket cfg)) server
    fun chunk _ server' => ∃ buckets, InitRounds cfg server count chunk server' buckets := by
  refine Streams.Accepts.forM_range (fun i chunk s => ∃ buckets,
    InitRounds cfg server i chunk s buckets)
    ⟨[], rfl, rfl, by simp, fun _ => rfl⟩ ?_ count
  rintro i chunk s ⟨buckets, hCount, hChunk, hSizes, hRuns⟩
  refine Accepts.recv_bind parses_recvVec fun _ bytes hBytes => ?_
  apply (Streams.Accepts.of_zoom own_link).mono
  rintro _ _ final ⟨rfl, hInit⟩
  refine ⟨buckets ++ [bytes], by simp [hCount], by simp [hChunk, hBytes.1], ?_, fun more => ?_⟩
  · intro other hOther
    obtain hOld | hNew := List.mem_append.mp hOther
    · exact hSizes other hOld
    · exact List.mem_singleton.mp hNew ▸ hBytes.2
  · rw [List.range_succ, List.forM_append, List.append_assoc]
    apply (run_bind_of_ok (hRuns (bytes :: more))).trans
    have hItem : (buckets ++ bytes :: more)[i]? = some bytes := by simp [← hCount]
    have hRound : (initBucket cfg (buckets ++ bytes :: more) i).run s = .ok () final := by
      rw [initBucket, hItem]
      exact hInit
    exact run_bind_of_ok hRound

theorem accepts_handleInit : Accepts Connection.mk (Wire.handleInit cfg) server fun chunk _ _ =>
    ∃ nodeCount buckets response final, chunk = encodeWord nodeCount ++ buckets.flatMap sendVec ∧
      (Request.init nodeCount buckets).Sendable ∧
      (handleInit cfg nodeCount buckets).run server = .ok response final := by
  refine Accepts.recv_bind parses_recvUint64 fun _ nodeCount hCount =>
    Streams.Accepts.check_bind fun hNodes => ?_
  refine Accepts.onServer_bind fun _ s hModify => (accepts_initBuckets nodeCount.toNat).bind ?_
  rintro chunk _ final ⟨buckets, hBuckets⟩
  refine Accepts.of_reply (Serves.send ['K'.toUInt8]) ⟨nodeCount, buckets, .ack, final, ?_,
    ⟨hBuckets.count.symm, hBuckets.sizes⟩, ?_⟩
  · simp [hCount, hBuckets.chunk]
  · have hLoop := hBuckets.runs []
    rw [List.append_nil] at hLoop
    apply (run_check_bind hNodes).trans
    apply (run_bind_of_ok hModify).trans
    exact run_bind_of_ok hLoop

theorem accepts_sendMetadata (path : List UInt64) :
    Accepts Connection.mk (forM path (Wire.sendMetadata cfg)) server
    fun chunk _ server' => chunk = [] ∧ ∃ payloads,
    (path.foldlM (readMetadataOf cfg) []).run server = .ok payloads server' := by
  refine Streams.Accepts.forM (fun done s => ∃ payloads,
    (done.foldlM (readMetadataOf cfg) []).run server = .ok payloads s) ⟨[], rfl⟩ ?_
  rintro done bucketIdx s ⟨payloads, hDone⟩
  refine Accepts.onServer_bind fun bucket final hRead =>
    Streams.Accepts.fromExcept_bind fun bytes hBytes => ?_
  refine Accepts.of_reply (Serves.send (sendVec bytes)) ⟨rfl, payloads ++ [bytes], ?_⟩
  rw [List.foldlM_append]
  apply (run_bind_of_ok hDone).trans
  rw [List.foldlM_cons]
  have hRound : (readMetadataOf cfg payloads bucketIdx).run s = .ok (payloads ++ [bytes]) final :=
    (run_bind_of_ok hRead).trans (run_fromExcept_bind hBytes)
  exact run_bind_of_ok hRound

theorem accepts_handleReadPathMetadata :
    Accepts Connection.mk (Wire.handleReadPathMetadata cfg) server fun chunk _ _ =>
    ∃ leaf response final, chunk = encodeWord leaf ∧
    (handleReadPathMetadata cfg leaf).run server = .ok response final := by
  refine Accepts.onServer_bind fun _ s hValid =>
    Accepts.recv_bind parses_recvUint64 fun _ leaf hLeaf => ?_
  refine Streams.Accepts.fromExcept_bind fun path hPath =>
    Accepts.send_bind ((accepts_sendMetadata path).mono ?_)
  rintro _ _ final ⟨rfl, payloads, hLoop⟩
  refine ⟨leaf, .pathMetadata (UInt64.ofNat path.length) payloads, final, by simp [hLeaf], ?_⟩
  apply (run_bind_of_ok hValid).trans
  apply (run_fromExcept_bind hPath).trans
  exact run_bind_of_ok hLoop

theorem accepts_handleXorPathSlots :
    Accepts Connection.mk (Wire.handleXorPathSlots cfg) server fun chunk _ _ =>
    ∃ leaf offsetCount offsets response final, chunk = encodeWord leaf ++ encodeWord offsetCount ++
      offsets.flatMap encodeWord ∧
      offsetCount.toNat = offsets.length ∧
      (handleXorPathSlots cfg leaf offsetCount offsets).run server = .ok response final := by
  refine Accepts.onServer_bind fun _ s hValid =>
    Accepts.recv_bind parses_recvUint64 fun _ leaf hLeaf => ?_
  refine Accepts.recv_bind parses_recvUint64 fun _ offsetCount hCount =>
    Streams.Accepts.fromExcept_bind fun path hPath => ?_
  refine Streams.Accepts.check_bind fun hLength => Accepts.recv_bind (parses_recvUint64.many _)
    fun _ offsets hOffsets => ?_
  refine Accepts.onServer_bind fun selected s' hLoop =>
    Accepts.onServer_bind fun _ final hStats => ?_
  apply Accepts.send_bind
  apply Accepts.send_bind
  refine Accepts.of_reply (Serves.forM_send sendVec) ⟨leaf, offsetCount, offsets,
    .xorPath selected.1 (UInt64.ofNat selected.2.length) selected.2, final, ?_, hOffsets.2.symm, ?_⟩
  · simp [hLeaf, hCount, hOffsets.1]
  · apply (run_bind_of_ok hValid).trans
    apply (run_fromExcept_bind hPath).trans
    apply (run_check_bind hLength).trans
    apply (run_bind_of_ok hLoop).trans
    exact run_bind_of_ok hStats

theorem accepts_handleReadBucket :
    Accepts Connection.mk (Wire.handleReadBucket cfg) server fun chunk _ _ =>
    ∃ bucketIdx response final, chunk = encodeWord bucketIdx ∧
    (handleReadBucket cfg bucketIdx).run server = .ok response final := by
  refine Accepts.onServer_bind fun _ s hValid =>
    Accepts.recv_bind parses_recvUint64 fun _ bucketIdx hIndex => ?_
  refine Accepts.onServer_bind fun bucket final hRead =>
    Streams.Accepts.fromExcept_bind fun bytes hBytes => ?_
  refine Accepts.of_reply (Serves.send (sendVec bytes)) ⟨bucketIdx, .bucket bytes, final,
    by simp [hIndex], ?_⟩
  apply (run_bind_of_ok hValid).trans
  apply (run_bind_of_ok hRead).trans
  exact run_fromExcept_bind hBytes

theorem accepts_handleWriteBucket :
    Accepts Connection.mk (Wire.handleWriteBucket cfg) server fun chunk _ _ =>
    ∃ bucketIdx bytes response final, chunk = encodeWord bucketIdx ++ sendVec bytes ∧
    bytes.length ≤ vectorMaxSize ∧
      (handleWriteBucket cfg bucketIdx bytes).run server = .ok response final := by
  refine Accepts.onServer_bind fun _ s hValid =>
    Accepts.recv_bind parses_recvUint64 fun _ bucketIdx hIndex => ?_
  refine Accepts.recv_bind parses_recvVec fun _ bytes hBytes =>
    Streams.Accepts.fromExcept_bind fun bucket hBucket => ?_
  refine Accepts.onServer_bind fun _ s' hShape => Accepts.onServer_bind fun _ final hWrite => ?_
  refine Accepts.of_reply (Serves.send ['K'.toUInt8]) ⟨bucketIdx, bytes, .ack, final,
    by simp [hIndex, hBytes.1], hBytes.2, ?_⟩
  apply (run_bind_of_ok hValid).trans
  apply (run_fromExcept_bind hBucket).trans
  apply (run_bind_of_ok hShape).trans
  exact run_bind_of_ok hWrite

theorem accepts_handleReadBucketCount :
    Accepts Connection.mk (Wire.handleReadBucketCount cfg) server fun chunk _ _ =>
    ∃ bucketIdx response final, chunk = encodeWord bucketIdx ∧
    (handleReadBucketCount cfg bucketIdx).run server = .ok response final := by
  refine Accepts.onServer_bind fun _ s hValid =>
    Accepts.recv_bind parses_recvUint64 fun _ bucketIdx hIndex => ?_
  refine Accepts.onServer_bind fun bucket final hRead => ?_
  refine Accepts.of_reply (Serves.send (encodeWord bucket.count)) ⟨bucketIdx,
    .bucketCount bucket.count, final, by simp [hIndex], ?_⟩
  apply (run_bind_of_ok hValid).trans
  exact run_bind_of_ok hRead

theorem accepts_handleReadStats (cfg : RuntimeConfig) :
    Accepts Connection.mk Wire.handleReadStats server fun chunk _ _ =>
    chunk = [] ∧ ∃ response final, handleReadStats.run server = .ok response final :=
  Accepts.of_reply (@serves_handleReadStats cfg server _ _ rfl).2 ⟨rfl, _, _, rfl⟩

/-- A command that returns has read the command to quit or a request that is answered. -/
theorem accepts_handleCommand :
    Accepts Connection.mk (Wire.handleCommand cfg) server fun chunk _ _ =>
    False ∨ chunk = ['Q'.toUInt8] ∨ ∃ request response final, request.Sendable ∧
    chunk = request.encode ∧
      (handleRequest cfg request).run server = .ok response final := by
  refine Accepts.recv_bind (parses_recvData 1) ?_
  rintro _ command ⟨rfl, hLength⟩
  obtain ⟨byte, rfl⟩ := List.length_eq_one_iff.mp hLength
  split_ifs with hQuit hInit hMetadata hXor hRead hWrite hCount hStats
  · apply (Streams.Accepts.of_zoom own_link).mono
    rintro _ _ _ ⟨rfl, _⟩
    exact .inr (.inl hQuit)
  · apply accepts_handleInit.mono
    rintro _ _ _ ⟨nodeCount, buckets, response, final, rfl, hSendable, hRun⟩
    exact .inr (.inr ⟨.init nodeCount buckets, response, final, hSendable,
      by simp [Request.encode, hInit], hRun⟩)
  · apply accepts_handleReadPathMetadata.mono
    rintro _ _ _ ⟨leaf, response, final, rfl, hRun⟩
    exact .inr (.inr ⟨.readPathMetadata leaf, response, final, trivial,
      by simp [Request.encode, hMetadata], hRun⟩)
  · apply accepts_handleXorPathSlots.mono
    rintro _ _ _ ⟨leaf, offsetCount, offsets, response, final, rfl, hOffsets, hRun⟩
    exact .inr (.inr ⟨.xorPathSlots leaf offsetCount offsets, response, final, hOffsets,
      by simp [Request.encode, hXor], hRun⟩)
  · apply accepts_handleReadBucket.mono
    rintro _ _ _ ⟨bucketIdx, response, final, rfl, hRun⟩
    exact .inr (.inr ⟨.readBucket bucketIdx, response, final, trivial,
      by simp [Request.encode, hRead], hRun⟩)
  · apply accepts_handleWriteBucket.mono
    rintro _ _ _ ⟨bucketIdx, bytes, response, final, rfl, hSize, hRun⟩
    exact .inr (.inr ⟨.writeBucket bucketIdx bytes, response, final, hSize,
      by simp [Request.encode, hWrite], hRun⟩)
  · apply accepts_handleReadBucketCount.mono
    rintro _ _ _ ⟨bucketIdx, response, final, rfl, hRun⟩
    exact .inr (.inr ⟨.readBucketCount bucketIdx, response, final, trivial,
      by simp [Request.encode, hCount], hRun⟩)
  · apply (accepts_handleReadStats cfg).mono
    rintro _ _ _ ⟨rfl, response, final, hRun⟩
    exact .inr (.inr ⟨.readStats, response, final, trivial, by simp [Request.encode, hStats], hRun⟩)
  · exact Streams.Accepts.throw _

end Handlers

/-! ## What a stream can do to the tree -/

section Tree

variable {stream sent : Bytes}

/-- Every command but 'I' leaves an initialised server, also where it fails. -/
theorem handleCommand_maintains (h : Initialised cfg server)
    (hCommand : stream.head? ≠ some 'I'.toUInt8) :
    wp (Wire.handleCommand cfg) ⟨server, stream, sent⟩ (fun _ connection =>
      Initialised cfg connection.server)
      fun _ connection => Initialised cfg connection.server := by
  refine incoming_link.parses_bind (parses_recvData 1) (fun _ _ _ => h) ?_
  rintro command _ rest rfl ⟨rfl, hLength⟩
  have hMaintains {x : ServeM Unit} (hx : Maintains cfg x) : wp x ⟨server, rest, sent⟩
      (fun _ connection => Initialised cfg connection.server) fun _ connection =>
        Initialised cfg connection.server :=
    wp_mono (hx _ h) (fun _ _ hReturned => hReturned.2) fun _ _ => id
  split_ifs with hQuit hInit
  · exact hMaintains (maintains_server (Preserves.modify fun _ h => h.same rfl rfl))
  · rw [hInit] at hCommand
    exact absurd rfl hCommand
  · exact hMaintains maintains_handleReadPathMetadata
  · exact hMaintains maintains_handleXorPathSlots
  · exact hMaintains maintains_handleReadBucket
  · exact hMaintains maintains_handleWriteBucket
  · exact hMaintains maintains_handleReadBucketCount
  · exact hMaintains maintains_handleReadStats
  · exact (wp_throw _).mpr h

/-- The next command carries a bucket that makes the deserializer write out of bounds. -/
def OutOfBounds (cfg : RuntimeConfig) (stream : Bytes) : Prop :=
  ∃ body, (stream = 'I'.toUInt8 :: body ∧ InitWraps cfg body) ∨
    (stream = 'W'.toUInt8 :: body ∧ WriteWraps body)

theorem readBucketFromDisk_outcome (h : Initialised cfg server) (index : UInt64) :
    wp (readBucketFromDisk cfg index) server (fun _ server' => server' = server)
      fun e server' => e.Defined ∧ server' = server := by
  by_cases hRange : cfg.numTreeNodes ≤ index
  case pos =>
    refine wp.get_bind
      (wp.check_bind (fun _ => ⟨by simp [Exception.Defined], rfl⟩) fun hInRange => ?_)
    exact absurd (h.nodeCount ▸ hRange) hInRange
  case neg =>
    obtain ⟨bucket, hStores⟩ := h.stored index (UInt64.not_le.mp hRange)
    exact ((readBucketFromDisk_stored hStores).mono fun _ _ hRead => hRead.2).outcome

theorem defined_of_serialize {bucket : EncryptedRingBucket} {e : Exception}
    (h : serializeEncryptedRingBucket bucket = .error e) :
    e.Defined := defined_of_checkSize ((serializeEncryptedRingBucket_eq bucket).symm.trans h)

/-- Reading a bucket and answering with it. -/
theorem readsBucket_defined (h : Initialised cfg server) (index : UInt64)
    {f : EncryptedRingBucket → ServeM Unit}
    (hNext : ∀ bucket, wp (f bucket) ⟨server, stream, sent⟩ (fun _ _ => True) fun e _ =>
      e.Defined) :
    wp (onServer (readBucketFromDisk cfg index) >>= f) ⟨server, stream, sent⟩ (fun _ _ => True)
      fun e _ => e.Defined := by
  apply own_link.bind (readBucketFromDisk_outcome h index) fun _ _ hError => hError.1
  rintro bucket _ rfl
  exact hNext bucket

theorem sendMetadata_defined (h : Initialised cfg server) (path : List UInt64) (sent : Bytes) :
    wp (forM path (Wire.sendMetadata cfg)) ⟨server, stream, sent⟩ (fun _ _ => True) fun e _ =>
      e.Defined := by
  induction path generalizing sent with
  | nil => exact wp.pure trivial
  | cons index path ih =>
    rw [List.forM_cons, Wire.sendMetadata]
    simp only [bind_assoc]
    refine readsBucket_defined h index fun bucket =>
      wp.fromExcept_bind (fun _ => defined_of_checkSize) fun bytes _ => ?_
    exact wp.modify_bind (ih _)

/-- Nothing that a peer sends to an initialised server is undefined behaviour, except for such a
bucket. -/
theorem handleCommand_defined (hDepth : cfg.depth < 63) (h : Initialised cfg server)
    (hInBounds : ¬ OutOfBounds cfg stream) :
    wp (Wire.handleCommand cfg) ⟨server, stream, sent⟩ (fun _ _ => True) fun e _ => e.Defined := by
  have hValid := validateInitialized_stored h.nodeCount
  refine incoming_link.parses_bind (parses_recvData 1) (fun _ _ => id) ?_
  rintro command _ rest rfl ⟨rfl, hLength⟩
  split_ifs with hQuit hInit hMetadata hXor hRead hWrite hCount hStats
  · exact (wp_zoom _ _ _).mpr ((wp_modify _).mpr trivial)
  · rw [hInit] at hInBounds
    by_cases hBody : ∃ tail, rest = encodeWord cfg.numTreeNodes ++ tail
    case pos =>
      obtain ⟨tail, rfl⟩ := hBody
      apply wp_mono handleInit_outcome (fun _ _ _ => trivial)
      exact fun e _ hError => hError.1 fun hWraps => hInBounds ⟨_, .inl ⟨rfl, hWraps⟩⟩
    case neg =>
      simp only [not_exists] at hBody
      exact wp_mono (handleInit_refuses hBody) (fun _ _ _ => trivial) fun _ _ hError => hError.1
  · refine own_link.same_bind hValid fun _ =>
      incoming_link.parses_bind parses_recvUint64 (fun _ _ => id) ?_
    intro leaf _ _ _ _
    refine wp.fromExcept_bind (fun _ => defined_of_getPathIndices) fun path _ => wp.modify_bind ?_
    exact sendMetadata_defined h path _
  · by_cases hRequest : ∃ path offsets, SlotRequest cfg rest path offsets
    case pos =>
      obtain ⟨path, offsets, hRequest⟩ := hRequest
      exact wp_mono (handleXorPathSlots_outcome hDepth h hRequest) (fun _ _ _ => trivial)
        fun _ _ hError => hError.1
    case neg =>
      simp only [not_exists] at hRequest
      exact wp_mono (handleXorPathSlots_refuses hDepth h.nodeCount hRequest) (fun _ _ => id)
        fun _ _ hError => hError.1
  · refine own_link.same_bind hValid fun _ =>
      incoming_link.parses_bind parses_recvUint64 (fun _ _ => id) ?_
    intro index _ _ _ _
    refine readsBucket_defined h index fun bucket =>
      wp.fromExcept_bind (fun _ => defined_of_serialize) fun bytes _ => ?_
    exact wp.modify_bind (wp.pure trivial)
  · rw [hWrite] at hInBounds
    apply wp_mono (handleWriteBucket_outcome h.nodeCount) (fun _ _ _ => trivial)
    exact fun e _ hError => hError.1.mpr fun hWraps => hInBounds ⟨_, .inr ⟨rfl, hWraps⟩⟩
  · refine own_link.same_bind hValid fun _ =>
      incoming_link.parses_bind parses_recvUint64 (fun _ _ => id) ?_
    intro index _ _ _ _
    exact readsBucket_defined h index fun bucket => wp.modify_bind (wp.pure trivial)
  · exact wp.get_bind (wp.modify_bind (wp.modify_bind (wp.pure trivial)))
  · exact (wp_throw _).mpr (by simp [Exception.Defined])

/-- A request that has been answered leaves an initialised server if it is an 'I' or the server was
initialised before. -/
theorem Initialised.answered (hDepth : cfg.depth < 63) {request : Request} {response : Response}
    (hSendable : request.Sendable)
    (hRun : (handleRequest cfg request).run server = .ok response server')
    (h : Initialised cfg server ∨ ∃ nodeCount buckets, request = .init nodeCount buckets) :
    Initialised cfg server' := by
  have hServed := (serves_sendable hDepth hSendable hRun).2 [] []
  obtain hStart | ⟨nodeCount, buckets, rfl⟩ := h
  · exact @Initialised.command cfg ⟨server, _, _⟩ _ hStart hServed
  · exact (wp_iff.mp handleInit_initialises).1 _ _ (run_handleCommand_init.symm.trans hServed)

end Tree

/-! ## The loop -/

section Loop

variable {stream sent : Bytes}

theorem preserves_running_read (running : Bool) (index : UInt64) :
    Preserves (fun server : Server => server.running = running) (readBucketFromDisk cfg index)
      fun _ => True := by
  refine Preserves.get_bind fun server => (Preserves.check _).bind fun _ _ => ?_
  cases server.files index.toNat with
  | none => exact Preserves.throw _
  | some bytes =>
    refine (Preserves.fromExcept _).bind fun bucket _ => ?_
    exact (Preserves.check _).map _ fun _ _ => trivial

theorem preserves_running_init (running : Bool) (buckets : List Bytes) (i : Nat) :
    Preserves (fun server : Server => server.running = running) (initBucket cfg buckets i) fun _ =>
      True := by
  unfold initBucket
  cases buckets[i]? with
  | none => exact Preserves.throw _
  | some bytes =>
    refine (Preserves.fromExcept _).bind fun bucket _ => (Preserves.check _).bind fun _ _ => ?_
    refine Preserves.get_bind fun server => (Preserves.check _).bind fun _ _ =>
      (Preserves.check _).bind fun _ _ => ?_
    exact (Preserves.fromExcept _).bind fun _ _ => Preserves.modify fun _ h => h

/-- No request stops the server. -/
theorem running_of_answered {request : Request} {response : Response}
    (hRun : (handleRequest cfg request).run server = .ok response server') :
    server'.running = server.running := by
  cases request with
  | init nodeCount buckets =>
    obtain ⟨_, _, hLoop⟩ := handleInit_eq_ok hRun
    have hInits := @Preserves.forM _ _ _ _ (List.range nodeCount.toNat)
      (initBucket cfg buckets) fun i _ =>
      preserves_running_init server.running buckets i
    refine hInits.of_run ?_ (.inl ⟨_, hLoop⟩)
    rfl
  | readPathMetadata leaf =>
    obtain ⟨_, path, payloads, _, hLoop, _⟩ := handleReadPathMetadata_eq_ok hRun
    have hReads := @Preserves.foldlM _ _ _ _ (fun s : Server => s.running = server.running) path
      (readMetadataOf cfg) []
      (fun _ _ => True) trivial fun sent bucketIdx _ _ =>
        (preserves_running_read _ bucketIdx).bind fun bucket _ =>
          (Preserves.fromExcept _).map _ fun _ _ => trivial
    exact hReads.of_run rfl (.inl ⟨_, hLoop⟩)
  | xorPathSlots leaf offsetCount offsets =>
    obtain ⟨_, path, selected, server₁, _, _, hLoop, _, rfl⟩ := handleXorPathSlots_eq_ok hRun
    have hSame := congrArg Server.running (xorPathSlots_frame hLoop)
    exact hSame
  | readBucket bucketIdx =>
    obtain ⟨_, rfl, _⟩ := handleReadBucket_eq_ok hRun
    rfl
  | writeBucket bucketIdx bytes =>
    obtain ⟨_, _, bucket, _, _, hWrite⟩ := handleWriteBucket_eq_ok hRun
    obtain ⟨_, _, _, rfl⟩ := writeBucketToDisk_eq_ok hWrite
    rfl
  | readBucketCount bucketIdx =>
    obtain ⟨_, rfl, _⟩ := handleReadBucketCount_eq_ok hRun
    rfl
  | readStats =>
    cases hRun
    rfl

theorem serves_quit (server : Server) :
    Serves (Wire.handleCommand cfg) server ['Q'.toUInt8] [] ()
      { server with running := false } := by
  apply serves_command
  rw [if_pos rfl]
  exact Serves.of_server rfl

theorem interprets (hDepth : cfg.depth < 63) :
    Interprets language Connection.mk (fun connection => connection.server.running)
    (handleRequest cfg) (fun server => { server with running := false })
      (Wire.handleCommand cfg) := by
  constructor
  case serves => exact fun hSendable hRun => (serves_sendable hDepth hSendable hRun).2
  case skips => exact fun _ => False.elim
  case quits => exact serves_quit
  case accepts => exact fun server => accepts_handleCommand
  case encode_ne =>
    intro request
    cases request <;> simp [language, Request.encode]
  case skipped_ne => exact fun hSkipped => False.elim hSkipped
  case goesOn => exact fun _ _ _ _ _ hRun hRunning => (running_of_answered hRun).trans hRunning
  case keepsRunning => exact fun _ _ _ _ _ => rfl
  case ends => exact fun _ _ _ => rfl

/-- A stream that has been read up to `rest`, with the server as it is before the last command. -/
structure ReadUpTo (cfg : RuntimeConfig) (start : Server) (stream sent : Bytes)
    (exchanges : List (Request × Response))
    (server : Server) (rest sent' : Bytes) : Prop where
  transcript : Transcript language (handleRequest cfg) start stream sent exchanges server rest sent'
  initialised : (Initialised cfg start ∨ ∃ nodeCount buckets response,
    (.init nodeCount buckets, response) ∈ exchanges) →
    Initialised cfg server

theorem initialised_of_handles (hDepth : cfg.depth < 63) {exchanges : List (Request × Response)}
    (hHandles : Handles (handleRequest cfg) server exchanges server')
    (hSendable : ∀ exchange ∈ exchanges, exchange.1.Sendable)
    (h : Initialised cfg server ∨ ∃ nodeCount buckets response,
      (.init nodeCount buckets, response) ∈ exchanges) :
    Initialised cfg server' := by
  induction hHandles with
  | nil => exact h.resolve_right (by simp)
  | @cons server middle final request response exchanges hRun hRest ih =>
    obtain ⟨hHead, hTail⟩ := List.forall_mem_cons.mp hSendable
    refine ih hTail ?_
    obtain hStart | ⟨nodeCount, buckets, answer, hMem⟩ := h
    · exact .inl (Initialised.answered hDepth hHead hRun (.inl hStart))
    · obtain hEq | hLater := List.mem_cons.mp hMem
      · cases hEq
        exact .inl (Initialised.answered hDepth hHead hRun (.inr ⟨nodeCount, buckets, rfl⟩))
      · exact .inr ⟨nodeCount, buckets, answer, hLater⟩

/-- What the last command does to an initialised server: it fails with an exception if it fails, and
only a failing 'I' can have destroyed the tree. -/
structure Bounded (cfg : RuntimeConfig) (server : Server) (rest sent : Bytes)
    (final : Connection) : Prop where
  defined : ∀ e last, (Wire.handleCommand cfg).run ⟨server, rest, sent⟩ = .error e last → e.Defined
  kept : rest.head? ≠ some 'I'.toUInt8 → Initialised cfg final.server

/-- What a stream has done to the server when `HandleRequests` has ended. Where the last command
writes out of bounds, nothing is known of the server. -/
def Served (cfg : RuntimeConfig) (start : Server) (stream sent : Bytes)
    (final : Connection) : Prop :=
  ∃ exchanges server rest sent' last, ReadUpTo cfg start stream sent exchanges server rest sent' ∧
    LastCommand language Connection.mk (handleRequest cfg)
      (fun server => { server with running := false })
      (Wire.handleCommand cfg) server rest sent' last ∧ final = Wire.stop last ∧
    (Initialised cfg server → ¬ OutOfBounds cfg rest → Bounded cfg server rest sent' final)

/-- Whatever bytes a peer sends, `HandleRequests` ends, at the latest with a command that it cannot
carry out. -/
theorem handleRequests_ends (hConfig : validateConfig cfg = .ok ()) (start : Server)
    (stream sent : Bytes) : ∃ final,
    Wire.handleRequests cfg (stream.length + 1) ⟨start, stream, sent⟩ = some final ∧
      Served cfg { start with running := true } stream sent final := by
  have hDepth := depth_of_validateConfig hConfig
  obtain ⟨exchanges, server, rest, sent', last, hTranscript, hLast, hLoop⟩ :=
    (interprets hDepth).loop_ends Wire.stop { start with running := true } stream sent
      (Nat.lt_succ_self _) rfl
  have hReadUpTo := initialised_of_handles hDepth hTranscript.handled hTranscript.wellFormed
  have hKept (hInitialised : Initialised cfg server) (hCommand : rest.head? ≠ some 'I'.toUInt8) :
      Initialised cfg last.server := by
    cases hLast with
    | dismissed rest' _ hFinal => exact hFinal ▸ hInitialised.same rfl rfl
    | failed e reply server' rest' hRun _ _ =>
      exact (wp_iff.mp (handleCommand_maintains hInitialised hCommand)).2 e last hRun
  refine ⟨Wire.stop last, hLoop, exchanges, server, rest, sent', last,
    ⟨hTranscript, hReadUpTo⟩, hLast, rfl, ?_⟩
  intro hInitialised hInBounds
  exact ⟨(wp_iff.mp (handleCommand_defined hDepth hInitialised hInBounds)).2,
    fun hCommand => (hKept hInitialised hCommand).same rfl rfl⟩

/-- The count of the root, a slot of the root and one of its left child, and a 'W' that is cut
short. -/
def smallStream : Bytes :=
  'T'.toUInt8 :: encodeWord 0 ++ ('X'.toUInt8 :: slotsBody 0 1 ++ ('W'.toUInt8 :: encodeWord 3))

theorem handleRequests_ends_small : Initialised Env.small.cfg smallWorld.server ∧ ∃ final,
    Wire.handleRequests Env.small.cfg (smallStream.length + 1) ⟨smallWorld.server,
      smallStream, []⟩ = some final ∧
      Served Env.small.cfg smallWorld.server smallStream [] final :=
  ⟨initialised_small, handleRequests_ends (by decide) smallWorld.server smallStream []⟩

end Loop

end OramHub.RingOram
