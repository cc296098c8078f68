import OramHub.Lib.CommandLoop
import OramHub.PathOram.Rejection

/-! # The Path ORAM server on any byte stream

`HandleRequests` reads whatever a peer sends. It answers the requests that the bytes spell, passes
over bytes that are no command, and stops at the first command that it cannot carry out. No stream
makes it lose a bucket file or leave one that it could not read again.
-/
namespace OramHub.PathOram
open OramHub.Core OramHub.Program OramHub.LittleEndian OramHub.Network OramHub.Streams
set_option autoImplicit false

namespace Wire

/-- The flag that is set when the loop is left. -/
def stop (connection : Connection) : Connection := { connection with server.running := false }

/-- `HandleRequests`, with a bound on the number of rounds. -/
def handleRequests (env : Env) (rounds : Nat) (connection : Connection) : Option Connection :=
  commandLoop (handleCommand env) (fun connection => connection.server.running) stop rounds
    { connection with server.running := true }

end Wire

/-- The bytes between requests that `HandleRequests` reports as unknown commands. -/
def Unknown (chunk : Bytes) : Prop :=
  ∃ byte, chunk = [byte] ∧ byte ∉ ['Q'.toUInt8, 'R'.toUInt8, 'W'.toUInt8, 'P'.toUInt8, 'T'.toUInt8]

def language : Language Request Response UInt8 where
  wellFormed request := request.Sendable ∧ request ≠ .quit
  encode := Request.encode
  reply := Response.encode
  skipped := Unknown
  farewell := ['Q'.toUInt8]

variable {env : Env} {server server' : Server}

/-! ## What a handler has read -/

section Handlers

variable {α β : Type} {f : α → ServeM β} {taken : Bytes → β → Server → Prop}

theorem Accepts.recv_bind {x : RecvM α} {encodes : Bytes → α → Prop} {thrown : Exception → Prop}
    (h : Parses x encodes thrown)
    (hNext : ∀ chunk a, encodes chunk a → Accepts Connection.mk (f a) server fun chunk' b s =>
      taken (chunk ++ chunk') b s) :
    Accepts Connection.mk (recv x >>= f) server taken := by
  refine (Streams.Accepts.of_parses incoming_link h).bind ?_
  rintro chunk a _ ⟨hChunk, rfl⟩
  exact hNext chunk a hChunk

theorem Accepts.onServer_bind {x : ServerM α} (hNext : ∀ a server', x.run server = .ok a server' →
      Accepts Connection.mk (f a) server' taken) :
    Accepts Connection.mk (onServer x >>= f) server taken := by
  refine (Streams.Accepts.of_zoom own_link).bind ?_
  rintro _ a server' ⟨rfl, hRun⟩
  exact hNext a server' hRun

theorem Accepts.send_bind {bytes : Bytes} {f : Unit → ServeM β}
    (hNext : Accepts Connection.mk (f ()) server taken) :
    Accepts Connection.mk (sendData bytes >>= f) server taken := by
  refine (Streams.Accepts.of_serves (serves_send bytes)).bind ?_
  rintro _ _ _ ⟨rfl, rfl, rfl⟩
  exact hNext

theorem accepts_handleReadBucket (index : UInt64) :
    Accepts Connection.mk (Wire.handleReadBucket env index) server
    fun chunk _ _ => chunk = [] ∧ ∃ response final,
    (handleReadBucket env index).run server = .ok response final := by
  refine Accepts.onServer_bind fun _ _ hValid => Accepts.onServer_bind fun _ _ hStats => ?_
  refine Accepts.onServer_bind fun bucket _ hRead =>
    Accepts.onServer_bind fun payload final hEncrypt => ?_
  apply (Streams.Accepts.of_serves (serves_send (sendVec payload))).mono
  rintro _ _ _ ⟨rfl, _, _⟩
  refine ⟨rfl, .bucket payload, final, ?_⟩
  apply (run_bind_of_ok hValid).trans
  apply (run_bind_of_ok hStats).trans
  apply (run_bind_of_ok hRead).trans
  exact run_bind_of_ok hEncrypt

theorem accepts_handleWriteBucket (index : UInt64) :
    Accepts Connection.mk (Wire.handleWriteBucket env index) server
    fun chunk _ _ => ∃ payload response final, chunk = sendVec payload ∧
    payload.length ≤ vectorMaxSize ∧
      (handleWriteBucket env index payload).run server = .ok response final := by
  refine Accepts.onServer_bind fun _ _ hValid => Accepts.onServer_bind fun _ _ hStats => ?_
  refine Accepts.recv_bind (parses_vector _) fun chunk payload hChunk => ?_
  refine Streams.Accepts.fromExcept_bind fun bucket hBucket => ?_
  apply (Streams.Accepts.of_zoom own_link).mono
  rintro _ _ final ⟨rfl, hWrite⟩
  refine ⟨payload, .silent, final, by rw [List.append_nil, hChunk.1], hChunk.2, ?_⟩
  apply (run_bind_of_ok hValid).trans
  apply (run_bind_of_ok hStats).trans
  apply (run_fromExcept_bind hBucket).trans
  exact run_bind_of_ok hWrite

/-- The loop over the buckets of a path has sent one payload for each index so far. -/
theorem accepts_sendBuckets (indices : List UInt64) :
    Accepts Connection.mk (forM indices (Wire.sendBucket env)) server
    fun chunk _ server' => chunk = [] ∧ ∃ payloads,
    (indices.foldlM (sendBucket env) []).run server = .ok payloads server' := by
  refine Streams.Accepts.forM (fun done s => ∃ payloads,
    (done.foldlM (sendBucket env) []).run server = .ok payloads s) ⟨[], rfl⟩ ?_
  rintro done index s ⟨payloads, hDone⟩
  refine Accepts.onServer_bind fun bucket _ hRead =>
    Accepts.onServer_bind fun payload final hEncrypt => ?_
  apply (Streams.Accepts.of_serves (serves_send (sendVec payload))).mono
  rintro _ _ final' ⟨rfl, _, hFinal⟩
  refine ⟨rfl, payloads ++ [payload], ?_⟩
  rw [hFinal]
  rw [List.foldlM_append]
  apply (run_bind_of_ok hDone).trans
  rw [List.foldlM_cons]
  have hSend : (sendBucket env payloads index).run s = .ok (payloads ++ [payload]) final :=
    (run_bind_of_ok hRead).trans (run_bind_of_ok hEncrypt)
  exact run_bind_of_ok hSend

theorem accepts_handleReadPath :
    Accepts Connection.mk (Wire.handleReadPath env) server fun chunk _ _ =>
    ∃ count indices response final, chunk = encodeWord count ++ indices.flatMap encodeWord ∧
    count.toNat = indices.length ∧
      (handleReadPath env count indices).run server = .ok response final := by
  refine Accepts.onServer_bind fun _ s₁ hValid =>
    Accepts.recv_bind parses_recvUint64 fun _ count hCount => ?_
  refine Streams.Accepts.check_bind fun hHeight => Accepts.recv_bind (parses_recvUint64.many _)
    fun _ indices hIndices => ?_
  refine Accepts.onServer_bind fun _ s₂ hStats => Accepts.send_bind ?_
  apply (accepts_sendBuckets indices).mono
  rintro _ _ final ⟨rfl, payloads, hLoop⟩
  refine ⟨count, indices, .path count payloads, final,
    by simp [hCount, hIndices.1], hIndices.2.symm, ?_⟩
  obtain ⟨_, _, hWanted, hReceived, hSame⟩ := returns_iff.mp (@recvItems_spec _ _ s₁ indices)
  rw [hReceived, hSame] at hWanted
  apply (run_bind_of_ok hValid).trans
  apply (run_check_bind hHeight).trans
  rw [← hIndices.2]
  apply (run_bind_of_ok hWanted).trans
  apply (run_bind_of_ok hStats).trans
  exact run_bind_of_ok hLoop

/-- What the rounds of the loop of `HandleWritePath` have read, and that the loop over messages
stores it. -/
structure StoreLoop (env : Env) (server : Server) (i : Nat) (chunk : Bytes) (server' : Server)
    (items : List (UInt64 × Bytes)) : Prop where
  count : items.length = i
  chunk : chunk = items.flatMap encodeEntry
  sizes : ∀ item ∈ items, item.2.length ≤ vectorMaxSize
  runs : ∀ more, (forM (List.range i) (storeBucket env (items ++ more))).run server = .ok () server'

theorem accepts_storeBuckets (count : Nat) :
    Accepts Connection.mk (forM (List.range count) fun _ => Wire.storeBucket env) server
    fun chunk _ server' => ∃ items, StoreLoop env server count chunk server' items := by
  refine Streams.Accepts.forM_range (fun i chunk s => ∃ items, StoreLoop env server i chunk s items)
    ⟨[], rfl, rfl, by simp, fun _ => rfl⟩ ?_ count
  rintro i chunk s ⟨items, hCount, hChunk, hSizes, hRuns⟩
  refine Accepts.recv_bind parses_recvUint64 fun _ index hIndex =>
    Accepts.recv_bind (parses_vector _) fun _ payload hPayload => ?_
  refine Streams.Accepts.fromExcept_bind fun bucket hBucket => ?_
  apply (Streams.Accepts.of_zoom own_link).mono
  rintro _ _ final ⟨rfl, hWrite⟩
  refine ⟨items ++ [(index, payload)], by simp [hCount], ?_, ?_, fun more => ?_⟩
  · simp [hChunk, hIndex, hPayload.1, encodeEntry]
  · intro item hItem
    obtain hOld | hNew := List.mem_append.mp hItem
    · exact hSizes item hOld
    · exact List.mem_singleton.mp hNew ▸ hPayload.2
  · rw [List.range_succ, List.forM_append, List.append_assoc]
    apply (run_bind_of_ok (hRuns ((index, payload) :: more))).trans
    have hItem : (items ++ (index, payload) :: more)[i]? = some (index, payload) := by
      simp [← hCount]
    have hStore : (storeBucket env (items ++ (index, payload) :: more) i).run s = .ok () final := by
      rw [storeBucket, recvItem, hItem]
      exact (run_fromExcept_bind hBucket).trans hWrite
    exact run_bind_of_ok hStore

theorem accepts_handleWritePath :
    Accepts Connection.mk (Wire.handleWritePath env) server fun chunk _ _ =>
    ∃ count items response final, chunk = encodeWord count ++ items.flatMap encodeEntry ∧
    count.toNat = items.length ∧
      (∀ item ∈ items, item.2.length ≤ vectorMaxSize) ∧
      (handleWritePath env count items).run server = .ok response final := by
  refine Accepts.onServer_bind fun _ s₁ hValid =>
    Accepts.recv_bind parses_recvUint64 fun _ count hCount => ?_
  refine Streams.Accepts.check_bind fun hHeight => (accepts_storeBuckets count.toNat).bind ?_
  rintro chunk _ s₂ ⟨items, hItems⟩
  refine Accepts.onServer_bind fun _ final hStats => ?_
  apply (Streams.Accepts.of_serves (serves_send ['A'.toUInt8])).mono
  rintro _ _ _ ⟨rfl, _, _⟩
  refine ⟨count, items, .ack, final, by simp [hCount, hItems.chunk],
    hItems.count.symm, hItems.sizes, ?_⟩
  have hLoop := hItems.runs []
  rw [List.append_nil] at hLoop
  apply (run_bind_of_ok hValid).trans
  apply (run_check_bind hHeight).trans
  apply (run_bind_of_ok hLoop).trans
  exact run_bind_of_ok hStats

/-- A command that returns has read a byte that is no command, the command to quit, or a request
that is answered. -/
theorem accepts_handleCommand :
    Accepts Connection.mk (Wire.handleCommand env) server fun chunk _ _ =>
    Unknown chunk ∨ chunk = ['Q'.toUInt8] ∨ ∃ request response final,
    (request.Sendable ∧ request ≠ .quit) ∧
      chunk = request.encode ∧ (handleRequest env request).run server = .ok response final := by
  refine Accepts.recv_bind (parses_recvData 1) ?_
  rintro _ command ⟨rfl, hLength⟩
  obtain ⟨byte, rfl⟩ := List.length_eq_one_iff.mp hLength
  split_ifs with hQuit hRead hWrite hReadPath hWritePath
  · apply (Streams.Accepts.of_zoom own_link).mono
    rintro _ _ _ ⟨rfl, _⟩
    exact .inr (.inl hQuit)
  · refine Accepts.recv_bind parses_recvUint64 fun _ index hIndex =>
      (accepts_handleReadBucket index).mono ?_
    rintro _ _ _ ⟨rfl, response, final, hRun⟩
    refine .inr (.inr ⟨.readBucket index, response, final, ⟨trivial, nofun⟩, ?_, hRun⟩)
    simp [Request.encode, hRead, hIndex]
  · refine Accepts.recv_bind parses_recvUint64 fun _ index hIndex =>
      (accepts_handleWriteBucket index).mono ?_
    rintro _ _ _ ⟨payload, response, final, rfl, hSize, hRun⟩
    refine .inr (.inr ⟨.writeBucket index payload, response, final, ⟨hSize, nofun⟩, ?_, hRun⟩)
    simp [Request.encode, hWrite, hIndex]
  · apply accepts_handleReadPath.mono
    rintro _ _ _ ⟨count, indices, response, final, rfl, hCount, hRun⟩
    refine .inr (.inr ⟨.readPath count indices, response, final, ⟨hCount, nofun⟩, ?_, hRun⟩)
    simp [Request.encode, hReadPath]
  · apply accepts_handleWritePath.mono
    rintro _ _ _ ⟨count, items, response, final, rfl, hCount, hSizes, hRun⟩
    refine .inr (.inr ⟨.writePath count items, response, final,
      ⟨⟨hCount, hSizes⟩, nofun⟩, ?_, hRun⟩)
    simp [Request.encode, hWritePath]
    rfl
  · refine Streams.Accepts.pure (.inl ⟨byte, by simp, ?_⟩)
    simp only [List.cons.injEq, and_true] at hQuit hRead hWrite hReadPath hWritePath
    simp [hQuit, hRead, hWrite, hReadPath, hWritePath]

end Handlers

/-! ## What no stream can do -/

section Invariants

variable {inv : Server → Prop}

/-- Kept by counting, by drawing an initialization vector and by replacing a bucket file with one
that was received. -/
structure Stable (env : Env) (inv : Server → Prop) : Prop where
  stats : ∀ server stats, inv server → inv { server with stats := stats }
  ivs : ∀ server ivs, inv server → inv { server with ivs := ivs }
  write : ∀ server (index : UInt64) payload bucket, decryptBucket env payload = .ok bucket →
    index < server.nodeCount → inv server →
    inv { server with
      treeDir := true
      files := Function.update server.files index.toNat (some (serializeBucket bucket)) }

/-- Whether it returns or throws, the step keeps what the server keeps. -/
abbrev Keeps {α : Type} (inv : Server → Prop) (x : ServeM α) : Prop :=
  Preserves (fun connection : Connection => inv connection.server) x fun _ => True

theorem keeps_recv {α : Type} (x : RecvM α) : Keeps inv (recv x) := Preserves.zoom' x fun _ _ h => h

theorem keeps_send (bytes : Bytes) : Keeps inv (sendData bytes) := Preserves.modify fun _ h => h

theorem keeps_server {α : Type} {x : ServerM α}
    (h : Preserves inv x fun _ => True) : Keeps inv (onServer x) :=
  Preserves.zoom_view (fun _ _ => rfl) h

theorem preserves_validate : Preserves inv validateInitialized fun _ => True :=
  Preserves.get_bind fun _ => (Preserves.check _).mono fun _ _ => trivial

theorem preserves_readBucketFromDisk (index : UInt64) :
    Preserves inv (readBucketFromDisk index) fun _ => True := by
  refine Preserves.get_bind fun server => (Preserves.check _).bind fun _ _ => ?_
  cases server.files index.toNat with
  | none => exact Preserves.throw _
  | some bytes =>
    refine (Preserves.check _).bind fun _ _ => (Preserves.fromExcept _).bind fun bucket _ => ?_
    exact (Preserves.check _).map _ fun _ _ => trivial

namespace Stable

theorem encryptBucket (h : Stable env inv) (bucket : Bucket) :
    Preserves inv (Server.encryptBucket env bucket) fun _ => True := by
  intro server hServer
  apply wp.get_bind
  apply (wp_bind _ _).mpr
  apply (wp_set _).mpr
  exact (Preserves.fromExcept _).mono (fun _ _ => trivial) _ (h.ivs server _ hServer)

theorem writeBucketToDisk (h : Stable env inv) {payload : Bytes} {bucket : Bucket}
    (hBucket : decryptBucket env payload = .ok bucket)
    (index : UInt64) : Preserves inv (PathOram.writeBucketToDisk index bucket) fun _ => True := by
  intro server hServer
  apply wp.get_bind
  refine wp.check_bind (fun _ => hServer) fun hIndex => ?_
  refine wp.check_bind (fun _ => hServer) fun _ => ?_
  exact (wp_modify _).mpr
    ⟨trivial, h.write server index payload bucket hBucket (UInt64.not_le.mp hIndex) hServer⟩

theorem sendBucket (h : Stable env inv) (index : UInt64) :
    Keeps inv (Wire.sendBucket env index) := by
  apply (keeps_server (preserves_readBucketFromDisk index)).bind
  intro bucket _
  exact (keeps_server (h.encryptBucket bucket)).bind fun _ _ => keeps_send _

theorem storeBucket (h : Stable env inv) : Keeps inv (Wire.storeBucket env) := by
  apply (keeps_recv _).bind
  intro index _
  apply (keeps_recv _).bind
  intro payload _
  exact (Preserves.fromExcept _).bind fun bucket hBucket =>
    keeps_server (h.writeBucketToDisk hBucket index)

theorem handleReadBucket (h : Stable env inv) (index : UInt64) :
    Keeps inv (Wire.handleReadBucket env index) := by
  apply (keeps_server preserves_validate).bind
  intro _ _
  apply (keeps_server (Preserves.modify fun server hServer => h.stats server _ hServer)).bind
  exact fun _ _ => h.sendBucket index

theorem handleWriteBucket (h : Stable env inv) (index : UInt64) :
    Keeps inv (Wire.handleWriteBucket env index) := by
  apply (keeps_server preserves_validate).bind
  intro _ _
  apply (keeps_server (Preserves.modify fun server hServer => h.stats server _ hServer)).bind
  intro _ _
  apply (keeps_recv _).bind
  intro payload _
  exact (Preserves.fromExcept _).bind fun bucket hBucket =>
    keeps_server (h.writeBucketToDisk hBucket index)

theorem handleReadPath (h : Stable env inv) : Keeps inv (Wire.handleReadPath env) := by
  apply (keeps_server preserves_validate).bind
  intro _ _
  apply (keeps_recv _).bind
  intro count _
  apply (Preserves.check _).bind
  intro _ _
  apply (keeps_recv _).bind
  intro indices _
  apply (keeps_server (Preserves.modify fun server hServer => h.stats server _ hServer)).bind
  intro _ _
  apply (keeps_send _).bind
  exact fun _ _ => Preserves.forM fun index _ => h.sendBucket index

theorem handleWritePath (h : Stable env inv) : Keeps inv (Wire.handleWritePath env) := by
  apply (keeps_server preserves_validate).bind
  intro _ _
  apply (keeps_recv _).bind
  intro count _
  apply (Preserves.check _).bind
  intro _ _
  apply (Preserves.forM fun _ _ => h.storeBucket).bind
  intro _ _
  apply (keeps_server (Preserves.modify fun server hServer => h.stats server _ hServer)).bind
  exact fun _ _ => keeps_send _

/-- Every command but 'Q'. -/
theorem handleCommand (h : Stable env inv) {stream sent : Bytes} (hServer : inv server)
    (hCommand : stream.head? ≠ some 'Q'.toUInt8) :
    wp (Wire.handleCommand env) ⟨server, stream, sent⟩ (fun _ connection => inv connection.server)
      fun _ connection => inv connection.server := by
  refine incoming_link.parses_bind (parses_recvData 1) (fun _ _ _ => hServer) ?_
  rintro command _ rest rfl ⟨rfl, hLength⟩
  have hKeeps {x : ServeM Unit} (hx : Keeps inv x) :
      wp x ⟨server, rest, sent⟩ (fun _ connection => inv connection.server)
      fun _ connection => inv connection.server :=
        wp_mono (hx _ hServer) (fun _ _ hReturned => hReturned.2) fun _ _ => id
  split_ifs with hQuit
  · rw [hQuit] at hCommand
    exact absurd rfl hCommand
  · exact hKeeps ((keeps_recv _).bind fun index _ => h.handleReadBucket index)
  · exact hKeeps ((keeps_recv _).bind fun index _ => h.handleWriteBucket index)
  · exact hKeeps h.handleReadPath
  · exact hKeeps h.handleWritePath
  · exact wp.pure hServer

end Stable

theorem stable_running : Stable env fun server => server.running = true :=
  ⟨fun _ _ => id, fun _ _ => id, fun _ _ _ _ _ _ => id⟩

/-- A tree of which every bucket file is there and can be read. -/
structure Intact (server : Server) : Prop where
  validated : Validated server
  stored : ∀ index < server.nodeCount, ∃ bucket : Bucket, bucket.Encodable ∧ bucketShape bucket ∧
    server.files index.toNat = some (serializeBucket bucket)

theorem Intact.readBucketFromDisk (h : Intact server) {index : UInt64}
    (hIndex : index < server.nodeCount) :
    Returns (PathOram.readBucketFromDisk index) server fun bucket server' => bucketShape bucket ∧
    server' = server := by
  obtain ⟨bucket, hEncodable, hShape, hFile⟩ := h.stored index hIndex
  have hLength : ¬ (serializeBucket bucket).length < 8 := by
    rw [length_serializeBucket]
    omega
  have hRead := deserializeBucket_of_encodable hEncodable (hShape.1 ▸ hShape.2)
  rw [hShape.1] at hRead
  refine Returns.get_bind (Returns.check_bind (UInt64.not_le.mpr hIndex) ?_)
  rw [hFile]
  generalize serializeBucket bucket = bytes at hLength hRead
  refine Returns.check_bind hLength (Returns.ok_bind hRead ?_)
  exact Returns.check_bind (not_not.mpr hShape) (Returns.pure ⟨hShape, rfl⟩)

/-- The trees that the client's operations leave are intact. -/
theorem Stored.intact {w : World} {v : Plain} {stored : UInt64 → Option Bytes} (h : Stored env w v)
    (hConsistent : Consistent env v stored) :
    Intact w.server := by
  constructor
  case validated => simp [Validated, h.tree.nodeCount, h.tree.treeDir]
  case stored =>
    intro index hIndex
    have hNode : index.toNat ∈ env.nodes := by
      rw [mem_nodes, ← h.tree.numNodes, ← h.tree.nodeCount]
      exact UInt64.lt_iff_toNat_lt.mp hIndex
    have hFits := hConsistent.fits _ hNode
    exact ⟨toBucket (v.bucket index.toNat), Fits.encodable hFits, ⟨rfl, hFits.room⟩,
      h.tree.files _ hNode⟩

/-- The tree of `start` is intact, and nothing has happened to files outside of it. -/
structure TreeKept (start server : Server) : Prop where
  intact : Intact server
  nodeCount : server.nodeCount = start.nodeCount
  outside : ∀ b, start.nodeCount.toNat ≤ b → server.files b = start.files b

theorem encodable_of_decrypt {payload : Bytes} {bucket : Bucket}
    (h : decryptBucket env payload = .ok bucket) : bucket.Encodable := by
  unfold decryptBucket decryptBucketWith at h
  split at h
  case isTrue => cases h
  case isFalse =>
    obtain ⟨plaintext, _, hBucket⟩ := except_bind_eq_ok h
    obtain ⟨blocks, rest, hAnnounces, rfl⟩ := deserializeBucket_eq_ok_iff.mp hBucket
    constructor
    · exact (List.length_take_le' _ _).trans_lt hAnnounces.count
    · exact fun block hBlock => hAnnounces.sized block (List.mem_of_mem_take hBlock)

theorem stable_treeKept (start : Server) : Stable env (TreeKept start) := by
  constructor
  case stats => exact fun _ _ h => ⟨⟨h.intact.validated, h.intact.stored⟩, h.nodeCount, h.outside⟩
  case ivs => exact fun _ _ h => ⟨⟨h.intact.validated, h.intact.stored⟩, h.nodeCount, h.outside⟩
  case write =>
    intro server index payload bucket hBucket hIndex h
    refine ⟨⟨?_, fun other hOther => ?_⟩, h.nodeCount, fun b hb => ?_⟩
    · have hValid := h.intact.validated
      rw [Validated, not_or, not_not] at hValid ⊢
      exact ⟨hValid.1, by simp⟩
    · obtain rfl | hNe := eq_or_ne other index
      · exact ⟨bucket, encodable_of_decrypt hBucket, bucketShape_of_decrypt hBucket,
          Function.update_self _ _ _⟩
      · obtain ⟨bucket', hEncodable, hShape, hFile⟩ := h.intact.stored other hOther
        refine ⟨bucket', hEncodable, hShape, Eq.trans ?_ hFile⟩
        exact Function.update_of_ne (fun hEq => hNe (UInt64.toNat_inj.mp hEq)) _ _
    · have hNe : b ≠ index.toNat := by
        rw [h.nodeCount, UInt64.lt_iff_toNat_lt] at hIndex
        omega
      exact (Function.update_of_ne hNe _ _).trans (h.outside b hb)

theorem TreeKept.stop {start : Server} (h : TreeKept start server) :
    TreeKept start { server with running := false } :=
  ⟨⟨h.intact.validated, h.intact.stored⟩, h.nodeCount, h.outside⟩

theorem keeps_treeKept (start : Server) : Keeps (TreeKept start) (Wire.handleCommand env) := by
  rintro ⟨server, stream, sent⟩ hServer
  by_cases hCommand : stream.head? = some 'Q'.toUInt8
  case pos =>
    obtain ⟨body, rfl⟩ := List.head?_eq_some_iff.mp hCommand
    apply incoming_link.takes_bind (Takes.take _ ['Q'.toUInt8])
    rw [if_pos rfl]
    exact wp.modify_bind (wp.pure ⟨trivial, hServer.stop⟩)
  case neg =>
    apply wp_mono ((stable_treeKept start).handleCommand hServer hCommand)
    · exact fun _ _ hKept => ⟨trivial, hKept⟩
    · exact fun _ _ => id

end Invariants

/-! ## The loop -/

section Loop

variable {stream sent : Bytes}

theorem serves_unknown {chunk : Bytes} (h : Unknown chunk) (server : Server) :
    Serves (Wire.handleCommand env) server chunk [] () server := by
  obtain ⟨byte, rfl, hByte⟩ := h
  simp only [List.mem_cons, List.not_mem_nil, or_false, not_or] at hByte
  apply serves_command
  simp only [List.cons.injEq, and_true, hByte, if_false]
  exact Serves.pure Connection.mk () server

theorem head_encode {request : Request} (h : request ≠ .quit) :
    request.encode.head? ≠ some 'Q'.toUInt8 := by
  cases request with
  | quit => exact absurd rfl h
  | _ =>
    simp only [Request.encode, List.head?_cons, ne_eq, Option.some.injEq]
    decide

theorem interprets :
    Interprets language Connection.mk (fun connection => connection.server.running)
      (handleRequest env)
    (fun server => { server with running := false }) (Wire.handleCommand env) := by
  constructor
  case serves => exact fun hRequest hRun => serves_handleCommand hRequest.1 hRun
  case skips => exact fun server hChunk => serves_unknown hChunk server
  case quits => exact fun server => @serves_handleCommand env server _ .quit .silent trivial rfl
  case accepts => exact fun server => accepts_handleCommand
  case encode_ne =>
    intro request
    cases request <;> simp [language, Request.encode]
  case skipped_ne =>
    rintro _ ⟨byte, rfl, _⟩
    exact List.cons_ne_nil _ _
  case goesOn =>
    intro request response server server' stream sent stream' sent' hRequest hRun hRunning
    have hServed := serves_handleCommand hRequest.1 hRun [] []
    have hHead : (request.encode ++ []).head? ≠ some 'Q'.toUInt8 := by
      rw [List.append_nil]
      exact head_encode hRequest.2
    have hRuns : server.running = true := hRunning
    have hStillRuns : server'.running = true :=
      (wp_iff.mp (stable_running.handleCommand hRuns hHead)).1 _ _ hServed
    exact hStillRuns
  case keepsRunning => exact fun _ _ _ _ _ => rfl
  case ends => exact fun _ _ _ => rfl

/-- What a stream has done to the server when `HandleRequests` has ended. -/
structure Served (env : Env) (start : Server) (stream sent : Bytes)
    (final : Connection) : Prop where
  transcript : ∃ exchanges server rest sent' last,
    Transcript language (handleRequest env) start stream sent exchanges server rest sent' ∧
    LastCommand language Connection.mk (handleRequest env)
      (fun server => { server with running := false }) (Wire.handleCommand env)
      server rest sent' last ∧ final = Wire.stop last
  kept : Intact start → TreeKept start final.server
  readable : Intact start → ∀ index < start.nodeCount,
    Returns (readBucketFromDisk index) final.server fun bucket server => bucketShape bucket ∧
    server = final.server

/-- Whatever bytes a peer sends, `HandleRequests` ends. -/
theorem handleRequests_served (env : Env) (start : Server) (stream sent : Bytes) : ∃ final,
    Wire.handleRequests env (stream.length + 1) ⟨start, stream, sent⟩ = some final ∧
      Served env { start with running := true } stream sent final := by
  obtain ⟨exchanges, server, rest, sent', last, hTranscript, hLast, hLoop⟩ :=
    (@interprets env).loop_ends Wire.stop { start with running := true } stream sent
      (Nat.lt_succ_self _) rfl
  have hKept (hIntact : Intact { start with running := true }) :
      TreeKept { start with running := true } (Wire.stop last).server := by
    refine commandLoop_preserves (keeps_treeKept _) (fun _ hKept => hKept.stop) ?_ hLoop
    exact ⟨hIntact, rfl, fun _ _ => rfl⟩
  refine ⟨Wire.stop last, hLoop, ⟨exchanges, server, rest, sent', last, hTranscript, hLast, rfl⟩,
    hKept, fun hIntact index hIndex => ?_⟩
  exact (hKept hIntact).intact.readBucketFromDisk ((hKept hIntact).nodeCount ▸ hIndex)

end Loop

end OramHub.PathOram
