import Mathlib.Algebra.Order.BigOperators.Group.List
import OramHub.Lib.Correspondence
import OramHub.Network.Processes
import OramHub.PathOram.Trace
import OramHub.PathOram.Wire

/-! # The Path ORAM client and its server as two processes

Each process runs for itself and knows of the other one only what arrives, byte by byte. Whatever
the order in which they run and whatever the sockets hold at a time, a session ends, and the client
gets the answers of a RAM.
-/
namespace OramHub.PathOram
open OramHub.Core OramHub.Program OramHub.LittleEndian OramHub.Network OramHub.Streams
open OramHub.Dialogue OramHub.Dialogue.TalkM OramHub.Confluence OramHub.Correspondence
set_option autoImplicit false

namespace Process

/-- A size and a vector of that size. -/
def recvPayload {σ : Type} : TalkM Exception σ UInt8 Bytes := do
  let size ← Process.recvUint64
  locally (throwIf (vectorMaxSize < size.toNat)
    (.lengthError "cannot create std::vector larger than max_size()"))
  Process.recvData size.toNat

/-! ## The server -/

section Server

variable (env : Env)

abbrev ServerP := TalkM Exception Server UInt8

def handleReadBucket (index : UInt64) : ServerP Unit := do
  locally validateInitialized
  locally (modify fun server =>
    { server with stats.readBucketRequests := server.stats.readBucketRequests + 1 })
  let bucket ← locally (readBucketFromDisk index)
  let payload ← locally (Server.encryptBucket env bucket)
  TalkM.send (sendVec payload)

def handleWriteBucket (index : UInt64) : ServerP Unit := do
  locally validateInitialized
  locally (modify fun server =>
    { server with stats.writeBucketRequests := server.stats.writeBucketRequests + 1 })
  let payload ← recvPayload
  let bucket ← locally (fromExcept (decryptBucket env payload))
  locally (writeBucketToDisk index bucket)

/-- One round of the second loop of `HandleReadPath`. -/
def sendBucket (index : UInt64) : ServerP Unit := do
  let bucket ← locally (readBucketFromDisk index)
  let payload ← locally (Server.encryptBucket env bucket)
  TalkM.send (sendVec payload)

def handleReadPath : ServerP Unit := do
  locally validateInitialized
  let count ← Process.recvUint64
  locally (throwIf (count ≠ env.treeHeight + 1)
    (.invalidArgument "Path ORAM read path request count mismatch"))
  let indices ← TalkM.many Process.recvUint64 count.toNat
  locally (modify fun server =>
    { server with stats.readPathRequests := server.stats.readPathRequests + 1 })
  TalkM.send (encodeWord count)
  forM indices (sendBucket env)

/-- One round of the loop of `HandleWritePath`. -/
def storeBucket : ServerP Unit := do
  let index ← Process.recvUint64
  let payload ← recvPayload
  let bucket ← locally (fromExcept (decryptBucket env payload))
  locally (writeBucketToDisk index bucket)

def handleWritePath : ServerP Unit := do
  locally validateInitialized
  let count ← Process.recvUint64
  locally (throwIf (count ≠ env.treeHeight + 1)
    (.invalidArgument "Path ORAM write path request count mismatch"))
  forM (List.range count.toNat) fun _ => storeBucket env
  locally (modify fun server =>
    { server with stats.writePathRequests := server.stats.writePathRequests + 1 })
  TalkM.send ['A'.toUInt8]

/-- One round of `HandleRequests`. A command that is not known is reported on the console. -/
def handleCommand : ServerP Unit := do
  let command ← Process.recvData 1
  if command = ['Q'.toUInt8] then locally (modify fun server => { server with running := false })
  else if command = ['R'.toUInt8] then do
    let index ← Process.recvUint64
    handleReadBucket env index
  else if command = ['W'.toUInt8] then do
    let index ← Process.recvUint64
    handleWriteBucket env index
  else if command = ['P'.toUInt8] then handleReadPath env
  else if command = ['T'.toUInt8] then handleWritePath env
  else return ()

/-- The loop of `HandleRequests`: a command that has thrown is the last one. -/
def nextCommand : EStateM.Result Exception Server Unit →
    Option (Talk UInt8 (EStateM.Result Exception Server Unit))
  | .ok _ server => if server.running then some (handleCommand env server) else none
  | .error _ _ => none

end Server

/-! ## The client -/

section Client

variable (env : Env)

/-- What the client keeps. -/
structure Client where
  numLeaves : UInt64 := 0
  stash : List Block := []
  positionMap : List UInt64 := []
  prng : Nat := 0
  ivs : Nat := 0

def client (w : World) : Client := ⟨w.numLeaves, w.stash, w.positionMap, w.prng, w.ivs⟩

def Client.world (client : Client) (server : Server) (log : List Event) : World :=
  ⟨client.numLeaves, client.stash, client.positionMap, client.prng, client.ivs, server, log⟩

abbrev ClientP := TalkM Exception Client UInt8

/-- What the client has of a state that comprises client and server. -/
def view : View World Client Server Event :=
  ⟨client, World.server, World.log, fun own => own.world {} [], fun _ => rfl⟩

/-- A part of the client that does not use the connection. -/
def onClient {α : Type} (x : PathM α) : ClientP α := Correspondence.onClient view x

/-- One round of the loop of `ReadPathFromServer`. -/
def recvBucket : ClientP Bytes := do
  let payload ← recvPayload
  let _ ← locally (fromExcept (decryptBucket env payload))
  return payload

/-- What the client reads after it has sent a request. -/
def recvResponse : Request → ClientP Response
  | .readBucket _ => do
    let payload ← recvBucket env
    return .bucket payload
  | .writeBucket _ _ => return .silent
  | .readPath count _ => do
    let responseCount ← Process.recvUint64
    locally (throwIf (responseCount ≠ count)
      (.runtimeError "Path ORAM read path response count mismatch"))
    let payloads ← TalkM.many (recvBucket env) responseCount.toNat
    return .path responseCount payloads
  | .writePath _ _ => do
    let ack ← Process.recvData 1
    locally (throwIf (ack ≠ ['A'.toUInt8])
      (.runtimeError "Path ORAM write path acknowledgement mismatch"))
    return .ack
  | .quit => return .silent

def roundTrip (request : Request) : ClientP Response := do
  TalkM.send request.encode
  recvResponse env request

def readPathFromServer (path : List UInt64) : ClientP (List Bucket) := do
  match ← roundTrip env (.readPath (UInt64.ofNat path.length) path) with
  | .path responseCount payloads =>
    onClient (throwIf (responseCount ≠ UInt64.ofNat path.length)
      (.runtimeError "Path ORAM read path response count mismatch"))
    onClient (fromExcept (decryptEach env payloads))
  | _ => onClient (throw (.runtimeError "NetIO recv failed"))

def writePathToServer (path : List UInt64) (buckets : List Bucket) : ClientP Unit := do
  onClient (throwIf (path.length ≠ buckets.length)
    (.invalidArgument "Path ORAM write path size mismatch"))
  let payloads ← onClient (buckets.mapM (encryptBucket env))
  let response ← roundTrip env (.writePath (UInt64.ofNat path.length) (path.zip payloads))
  onClient (throwIf (response ≠ .ack)
    (.runtimeError "Path ORAM write path acknowledgement mismatch"))

def readPath (leaf : UInt64) : ClientP Unit := do
  let path ← onClient (fromExcept (getPathIndices env.treeHeight leaf))
  let buckets ← readPathFromServer env path
  onClient (modify fun world => { world with stash := world.stash ++ buckets.flatMap realBlocks })

def writePath (leaf : UInt64) : ClientP Unit := do
  let path ← onClient (fromExcept (getPathIndices env.treeHeight leaf))
  let filled ← onClient
    (evictBlocksToPath leaf (List.replicate path.length { capacity := kBucketSize }))
  writePathToServer env path (filled.map padBucket)

def access (op : Op) (addr : UInt64) (data : Bytes) : ClientP Bytes := do
  let own ← locally get
  let oldLeaf ← onClient (fromExcept (readPosition own.positionMap addr))
  let newLeaf ← onClient (getRandomLeaf env)
  onClient (modify fun world =>
    { world with positionMap := world.positionMap.set addr.toNat newLeaf })
  readPath env oldLeaf
  let own ← locally get
  let (result, stash) := serveFromStash own.stash op addr data
  onClient (modify fun world => { world with stash := stash })
  writePath env oldLeaf
  return result

def performCall (call : Call) : ClientP Bytes := access env call.op call.addr call.data

/-- Construction, accesses, and the command that the destructor sends. -/
def session (initialPositions : Option (List UInt64))
    (calls : List Call) : ClientP (List Bytes) := do
  onClient (construct env)
  match initialPositions with
  | some positions => onClient (initializePositionMap env positions)
  | none => pure ()
  let results ← calls.mapM (performCall env)
  TalkM.send Request.quit.encode
  return results

end Client

/-! ## The server's process does what the server does -/

section Refinement

variable {σ : Type} {env : Env}

theorem reads_recvPayload :
    Reads (recvPayload : TalkM Exception σ UInt8 Bytes) PathOram.recvPayload :=
  Process.reads_recvUint64.bind fun size => (Reads.check _ _).bind fun _ =>
    Process.reads_recvData size.toNat

theorem listens_recvPayload : Listens (recvPayload : TalkM Exception σ UInt8 Bytes) :=
  Process.listens_recvUint64.bind fun size => (listens_locally _).bind fun _ =>
    Process.listens_recvData size.toNat

theorem refines_recv {α : Type} {x : ServerP α} {y : RecvM α} (h : Reads x y) :
    Refines Connection.mk x (recv y) :=
  Refines.of_reads (fun _ _ _ => rfl) (fun _ _ _ _ => rfl) h

theorem refines_onServer {α : Type} (x : ServerM α) :
    Refines Connection.mk (locally x) (onServer x) :=
  Refines.of_local (fun _ _ _ => rfl) fun _ _ _ _ => rfl

theorem refines_sendData (bytes : Bytes) :
    Refines Connection.mk (TalkM.send bytes) (sendData bytes) :=
  Refines.send bytes fun _ _ _ => rfl

theorem refines_handleReadBucket (index : UInt64) :
    Refines Connection.mk (handleReadBucket env index) (Wire.handleReadBucket env index) :=
  (refines_onServer _).bind fun _ => (refines_onServer _).bind fun _ =>
    (refines_onServer _).bind fun _ =>
    (refines_onServer _).bind fun _ => refines_sendData _

theorem refines_handleWriteBucket (index : UInt64) :
    Refines Connection.mk (handleWriteBucket env index) (Wire.handleWriteBucket env index) :=
  (refines_onServer _).bind fun _ => (refines_onServer _).bind fun _ =>
    (refines_recv reads_recvPayload).bind fun _ =>
    (Refines.fromExcept _).bind fun _ => refines_onServer _

theorem refines_handleReadPath :
    Refines Connection.mk (handleReadPath env) (Wire.handleReadPath env) := by
  refine (refines_onServer _).bind fun _ =>
    (refines_recv Process.reads_recvUint64).bind fun count => ?_
  refine (Refines.check _ _).bind fun _ =>
    (refines_recv (Process.reads_recvUint64.many count.toNat)).bind fun indices => ?_
  refine (refines_onServer _).bind fun _ => (refines_sendData _).bind fun _ =>
    Refines.forM fun index => ?_
  exact (refines_onServer _).bind fun _ => (refines_onServer _).bind fun _ => refines_sendData _

theorem refines_handleWritePath :
    Refines Connection.mk (handleWritePath env) (Wire.handleWritePath env) := by
  refine (refines_onServer _).bind fun _ =>
    (refines_recv Process.reads_recvUint64).bind fun count => ?_
  refine (Refines.check _ _).bind fun _ => (Refines.forM fun _ => ?_).bind fun _ => ?_
  · exact (refines_recv Process.reads_recvUint64).bind fun _ =>
      (refines_recv reads_recvPayload).bind fun _ =>
      (Refines.fromExcept _).bind fun _ => refines_onServer _
  · exact (refines_onServer _).bind fun _ => refines_sendData _

theorem refines_handleCommand :
    Refines Connection.mk (handleCommand env) (Wire.handleCommand env) := by
  refine (refines_recv (Process.reads_recvData 1)).bind fun command => ?_
  split
  · exact refines_onServer _
  · split
    · exact (refines_recv Process.reads_recvUint64).bind refines_handleReadBucket
    · split
      · exact (refines_recv Process.reads_recvUint64).bind refines_handleWriteBucket
      · split
        · exact refines_handleReadPath
        · split
          · exact refines_handleWritePath
          · exact Refines.pure ()

theorem speaks_handleReadBucket (index : UInt64) : Speaks (handleReadBucket env index) :=
  (speaks_locally _).bind fun _ => (speaks_locally _).bind fun _ => (speaks_locally _).bind fun _ =>
    (speaks_locally _).bind fun _ => speaks_send _

theorem listens_handleWriteBucket (index : UInt64) : Listens (handleWriteBucket env index) :=
  (listens_locally _).bind fun _ => (listens_locally _).bind fun _ =>
    listens_recvPayload.bind fun _ =>
    (listens_locally _).bind fun _ => listens_locally _

theorem polite_handleReadPath : Polite (handleReadPath env) := by
  refine (listens_locally _).bind_polite fun _ =>
    Process.listens_recvUint64.bind_polite fun count => ?_
  refine (listens_locally _).bind_polite fun _ =>
    (listens_many Process.listens_recvUint64 _).bind_polite fun indices => ?_
  refine Speaks.polite ((speaks_locally _).bind fun _ => (speaks_send _).bind fun _ =>
    speaks_forM fun index => ?_)
  exact (speaks_locally _).bind fun _ => (speaks_locally _).bind fun _ => speaks_send _

theorem polite_handleWritePath : Polite (handleWritePath env) := by
  refine (listens_locally _).bind_polite fun _ =>
    Process.listens_recvUint64.bind_polite fun count => ?_
  refine (listens_locally _).bind_polite fun _ => (listens_forM fun _ => ?_).bind_polite fun _ =>
    Speaks.polite ?_
  · exact Process.listens_recvUint64.bind fun _ => listens_recvPayload.bind fun _ =>
      (listens_locally _).bind fun _ => listens_locally _
  · exact (speaks_locally _).bind fun _ => speaks_send _

theorem polite_handleCommand : Polite (handleCommand env) := by
  refine (Process.listens_recvData 1).bind_polite fun command => ?_
  split
  · exact (listens_locally _).polite
  · split
    · exact Process.listens_recvUint64.bind_polite fun index =>
        (speaks_handleReadBucket index).polite
    · split
      · exact Process.listens_recvUint64.bind_polite fun index =>
          (listens_handleWriteBucket index).polite
      · split
        · exact polite_handleReadPath
        · split
          · exact polite_handleWritePath
          · exact (listens_pure ()).polite

/-- The server's process receives a request that the server accepts in full before it sends the
answer. -/
theorem feeds_handleCommand {server server' : Server} {request : Request} {response : Response}
    (hSendable : request.Sendable)
    (hRun : (handleRequest env request).run server = .ok response server') :
    Talk.Feeds (handleCommand env server) request.encode
      (.sending response.encode (.done (.ok () server'))) := by
  refine refines_handleCommand.feeds ?_ (polite_handleCommand server)
    (serves_handleCommand hSendable hRun)
  rintro _ _ _ _ _ _ ⟨⟩
  exact ⟨rfl, rfl, rfl⟩

theorem reads_recvBucket : Reads (recvBucket env) (PathOram.recvBucket env) :=
  reads_recvPayload.bind fun payload => (Reads.fromExcept _).bind fun _ => Reads.pure payload

theorem listens_recvBucket : Listens (recvBucket env) :=
  listens_recvPayload.bind fun payload => (listens_locally _).bind fun _ => listens_pure payload

theorem reads_recvResponse (request : Request) :
    Reads (recvResponse env request) (PathOram.recvResponse env request) := by
  cases request with
  | readBucket index => exact reads_recvBucket.bind fun payload => Reads.pure _
  | writeBucket index payload => exact Reads.pure _
  | readPath count indices =>
    refine Process.reads_recvUint64.bind fun responseCount => (Reads.check _ _).bind fun _ => ?_
    exact (reads_recvBucket.many responseCount.toNat).bind fun payloads => Reads.pure _
  | writePath count buckets =>
    exact (Process.reads_recvData 1).bind fun ack => (Reads.check _ _).bind fun _ => Reads.pure _
  | quit => exact Reads.pure _

theorem listens_recvResponse (request : Request) : Listens (recvResponse env request) := by
  cases request with
  | readBucket index => exact listens_recvBucket.bind fun payload => listens_pure _
  | writeBucket index payload => exact listens_pure _
  | readPath count indices =>
    refine Process.listens_recvUint64.bind fun responseCount => (listens_locally _).bind fun _ => ?_
    exact (listens_many listens_recvBucket responseCount.toNat).bind fun payloads => listens_pure _
  | writePath count buckets =>
    exact (Process.listens_recvData 1).bind fun ack =>
      (listens_locally _).bind fun _ => listens_pure _
  | quit => exact listens_pure _

theorem feeds_recvResponse {request : Request} {response : Response}
    (h : Response.Readable env request response) (own : Client) :
    Talk.Feeds (recvResponse env request own) response.encode (.done (.ok response own)) :=
  (reads_recvResponse request).feeds (listens_recvResponse request own) (takes_recvResponse h)

end Refinement

/-! ## The client's process does what the client does -/

section Client

variable {env : Env} {α : Type}

/-- Counts announce what follows them, and vectors can hold the payloads. -/
structure Announced (sketch : Sketch) : Prop where
  counts : ∀ count ∈ sketch.counts, count.toNat = sketch.indices.length
  answerCounts : ∀ count ∈ sketch.answerCounts, count.toNat = sketch.received.length
  sent : ∀ size ∈ sketch.sent, size ≤ vectorMaxSize
  received : ∀ size ∈ sketch.received, size ≤ vectorMaxSize

theorem Announced.sendable {event : Event}
    (h : Announced event.sketch) : event.request.Sendable := by
  obtain ⟨request, response⟩ := event
  cases request with
  | readBucket index => trivial
  | writeBucket index payload => exact h.sent _ List.mem_cons_self
  | readPath count indices => exact h.counts _ List.mem_cons_self
  | writePath count buckets =>
    refine ⟨(h.counts _ List.mem_cons_self).trans (List.length_map _), fun item hItem => ?_⟩
    exact h.sent _ (List.mem_map_of_mem (List.mem_map_of_mem hItem))
  | quit => trivial

/-- The server that is running handles requests that fit into the fields that announce their size.
-/
def protocol (env : Env) : Protocol UInt8 Server Event where
  request event := event.request.encode
  response event := event.response.encode
  fits event := Announced event.sketch
  handles server event server' := server.running = true ∧ event.request.Sendable ∧
    (handleRequest env event.request).run server = .ok event.response server'

theorem private_encryptBucket (bucket : Bucket) : Private view (encryptBucket env bucket) := by
  intro w payload w' hRun
  obtain ⟨_, _, hGet, hRun⟩ := run_bind_eq_ok hRun
  cases hGet
  obtain ⟨_, _, hSet, hRun⟩ := run_bind_eq_ok hRun
  cases hSet
  obtain ⟨hSeal, rfl⟩ := run_fromExcept_eq_ok hRun
  refine ⟨rfl, rfl, ?_⟩
  rw [encryptBucket, EStateM.run_bind]
  change (fromExcept (sealBucket env (env.entropy.iv w.ivs).toList bucket)).run _ = _
  rw [hSeal]
  rfl

theorem private_evictBlocksToPath (leaf : UInt64) (buckets : List Bucket) :
    Private view (evictBlocksToPath leaf buckets) := by
  intro w filled w' hRun
  obtain ⟨_, _, hGet, hRun⟩ := run_bind_eq_ok hRun
  cases hGet
  obtain ⟨⟨placed, kept⟩, middle, hPlaced, hEnd⟩ := run_bind_eq_ok hRun
  obtain ⟨hFold, hSame⟩ := run_fromExcept_eq_ok hPlaced
  cases hEnd
  subst hSame
  refine ⟨rfl, rfl, ?_⟩
  change (fromExcept (middle.stash.foldlM (evictBlock middle.positionMap leaf) (buckets, [])) >>=
    _).run _ = _
  rw [hFold]
  rfl

theorem private_getRandomLeaf : Private view (getRandomLeaf env) := by
  rintro w _ _ ⟨⟩
  exact ⟨rfl, rfl, rfl⟩

/-- A request that is answered, sent and read on one side, handled on the other one. -/
theorem talks_roundTrip {request : Request} {response : Response} {w w' : World}
    (hAnswered : request.answered = true)
    (hRun : (PathOram.roundTrip env request).run w = .ok response w') :
    client w' = client w ∧ w'.log = w.log ++ [⟨request, response⟩] ∧
    (request.Sendable → Response.Readable env request response →
      Talks (protocol env) (roundTrip env request (client w)) w.server [⟨request, response⟩]
        (.done (.ok response (client w)))
        w'.server) := by
  obtain ⟨hRunning, server, hHandled, rfl⟩ := roundTrip_eq_ok hAnswered hRun
  refine ⟨rfl, rfl, fun hSendable hReadable => ?_⟩
  have hTalk : roundTrip env request (client w) =
      .sending request.encode (recvResponse env request (client w)) := by
    rw [roundTrip, bind_apply, TalkM.send, Talk.bind_sending]
    rfl
  rw [hTalk]
  exact @Talks.cons _ _ _ (protocol env) _ _ _ _ w.server server server ⟨request, response⟩ []
    ⟨hRunning, hSendable, hHandled⟩ (feeds_recvResponse hReadable (client w)) .nil

/-- A request, where the client goes on only if it has been able to read the answer. -/
theorem mirrors_roundTrip_bind {request : Request} {f : Response → ClientP α}
    {g : Response → PathM α} (hAnswered : request.answered = true)
    (hReadable : ∀ response w a w', (g response).run w = .ok a w' →
      Announced (Event.mk request response).sketch →
      Response.Readable env request response)
    (hNext : ∀ response, Mirrors view (protocol env) (f response) (g response)) :
    Mirrors view (protocol env) (roundTrip env request >>= f)
      (PathOram.roundTrip env request >>= g) := by
  intro w a w' hRun
  obtain ⟨response, middle, hTrip, hRest⟩ := run_bind_eq_ok hRun
  obtain ⟨hClient, hLog, hTalks⟩ := talks_roundTrip hAnswered hTrip
  obtain ⟨events, hLog', hTalks'⟩ := hNext response middle a w' hRest
  refine ⟨⟨request, response⟩ :: events, hLog'.trans ?_, fun hAnnounced => ?_⟩
  · change middle.log ++ events = w.log ++ _
    rw [hLog, List.append_assoc, List.singleton_append]
  have hSketch : Announced (Event.mk request response).sketch := hAnnounced _ List.mem_cons_self
  have hHead := (hTalks hSketch.sendable (hReadable response middle a w' hRest hSketch)).bind
    (resume f)
  rw [show view.own middle = client w from hClient] at hTalks'
  exact hHead.append (hTalks' fun event hEvent => hAnnounced event (List.mem_cons_of_mem _ hEvent))

theorem mirrors_readPathFromServer (path : List UInt64) :
    Mirrors view (protocol env) (readPathFromServer env path)
      (PathOram.readPathFromServer env path) := by
  refine mirrors_roundTrip_bind rfl (fun response w buckets w' hRun hSketch => ?_)
    fun response => ?_
  · cases response with
    | path responseCount payloads =>
      obtain ⟨_, _, hCheck, hDecrypt⟩ := run_bind_eq_ok hRun
      have hCount := not_not.mp (run_throwIf_eq_ok hCheck).1
      have hLength : responseCount.toNat = payloads.length :=
        (hSketch.answerCounts _ List.mem_cons_self).trans (List.length_map _)
      refine ⟨hCount, hCount ▸ hLength, fun payload hPayload =>
        ⟨hSketch.received _ (List.mem_map_of_mem hPayload), ?_⟩⟩
      obtain ⟨i, hi, rfl⟩ := List.getElem_of_mem hPayload
      have hEach := forall₂_of_mapM (run_fromExcept_eq_ok hDecrypt).1
      exact ⟨_, hEach.get hi (hEach.length_eq ▸ hi)⟩
    | bucket payload => cases hRun
    | ack => cases hRun
    | silent => cases hRun
  · cases response with
    | path responseCount payloads =>
      exact (Private.check _ _).mirrors.bind fun _ => (Private.fromExcept _).mirrors
    | bucket payload => exact Mirrors.throw _ _
    | ack => exact Mirrors.throw _ _
    | silent => exact Mirrors.throw _ _

theorem mirrors_writePathToServer (path : List UInt64) (buckets : List Bucket) :
    Mirrors view (protocol env) (writePathToServer env path buckets)
      (PathOram.writePathToServer env path buckets) := by
  refine (Private.check _ _).mirrors.bind fun _ =>
    (Private.mapM private_encryptBucket).mirrors.bind fun payloads => ?_
  refine mirrors_roundTrip_bind rfl (fun response w _ w' hRun _ => ?_) fun response =>
    (Private.check _ _).mirrors
  rw [not_not.mp (run_throwIf_eq_ok hRun).1]
  trivial

theorem mirrors_readPath (leaf : UInt64) :
    Mirrors view (protocol env) (readPath env leaf) (PathOram.readPath env leaf) := by
  refine (Private.fromExcept _).mirrors.bind fun path =>
    (mirrors_readPathFromServer path).bind fun buckets => ?_
  refine Private.mirrors ?_
  rintro w _ _ ⟨⟩
  exact ⟨rfl, rfl, rfl⟩

theorem mirrors_writePath (leaf : UInt64) :
    Mirrors view (protocol env) (writePath env leaf) (PathOram.writePath env leaf) :=
  (Private.fromExcept _).mirrors.bind fun path =>
    (private_evictBlocksToPath leaf _).mirrors.bind fun filled =>
    mirrors_writePathToServer path (filled.map padBucket)

theorem mirrors_access (op : Op) (addr : UInt64) (data : Bytes) :
    Mirrors view (protocol env) (access env op addr data) (PathOram.access env op addr data) := by
  refine Mirrors.get_bind fun w => (Private.fromExcept _).mirrors.bind fun oldLeaf =>
    private_getRandomLeaf.mirrors.bind fun newLeaf => ?_
  refine Mirrors.bind
    (Private.mirrors (Private.of_modify (fun _ => rfl) (fun _ => rfl) fun _ => rfl)) fun _ => ?_
  refine (mirrors_readPath oldLeaf).bind fun _ => Mirrors.get_bind fun w' => ?_
  refine Mirrors.bind
    (Private.mirrors (Private.of_modify (fun _ => rfl) (fun _ => rfl) fun _ => rfl)) fun _ => ?_
  exact (mirrors_writePath oldLeaf).bind fun _ => Mirrors.pure _

theorem mirrors_performCalls (calls : List Call) :
    Mirrors view (protocol env) (calls.mapM (performCall env))
      (calls.mapM (PathOram.performCall env)) :=
  Mirrors.mapM fun call => mirrors_access call.op call.addr call.data

end Client

/-! ## What is sent fits into vectors -/

section Sizes

variable {env : Env} {v : Plain} {w : World} {op : Op}
  {addr oldLeaf newLeaf : UInt64} {data : Bytes}

/-- Four blocks of this size fit into one vector when they are encrypted. -/
def Portable (data : Bytes) : Prop := data.length ≤ 2 ^ 60

instance (data : Bytes) : Decidable (Portable data) := inferInstanceAs (Decidable (_ ≤ _))

structure PortableState (env : Env) (v : Plain) : Prop where
  stash : ∀ block ∈ v.stash, Portable block.data
  bucket : ∀ b ∈ env.nodes, ∀ block ∈ v.bucket b, Portable block.data

theorem payloadSize_le {blocks : List Block} (h : ∀ block ∈ blocks, Portable block.data)
    (hRoom : blocks.length ≤ kBucketSize) :
    payloadSize blocks ≤ vectorMaxSize := by
  have hSum : (blocks.map fun block => 16 + block.data.length).sum ≤
      blocks.length * (16 + 2 ^ 60) := by
    have hEach := List.sum_le_card_nsmul (blocks.map fun block => 16 + block.data.length)
        (16 + 2 ^ 60) fun size hSize => by
      obtain ⟨block, hBlock, rfl⟩ := List.mem_map.mp hSize
      exact Nat.add_le_add_left (h block hBlock) 16
    rwa [List.length_map] at hEach
  have hCount : blocks.length * (16 + 2 ^ 60) ≤ 4 * (16 + 2 ^ 60) := Nat.mul_le_mul_right _ hRoom
  rw [payloadSize, vectorMaxSize]
  omega

theorem portable_padded {blocks : List Block} (h : ∀ block ∈ blocks, Portable block.data) :
    ∀ block ∈ padded blocks, Portable block.data := by
  intro block hBlock
  obtain hOld | rfl := mem_padded hBlock
  · exact h block hOld
  · rw [Portable, dummyBlock, List.length_replicate]
    decide

theorem PortableState.serve (h : PortableState env v) (hLeaf : oldLeaf.toNat < 2 ^ env.height)
    (hData : op = .write → Portable data) :
    PortableState env (v.serve env op addr data oldLeaf newLeaf) := by
  refine ⟨fun block hBlock => ?_, h.bucket⟩
  obtain hRead | ⟨rfl, rfl⟩ := mem_serve hBlock
  · obtain hStash | hPath := List.mem_append.mp hRead
    · exact h.stash block hStash
    · obtain ⟨b, hb, hMem⟩ := List.mem_flatMap.mp hPath
      exact h.bucket b (mem_nodes_of_mem_path hLeaf hb) block (List.mem_filter.mp hMem).1
  · exact hData rfl

theorem PortableState.contents (h : PortableState env v) {positionMap : List UInt64}
    {contents : List (List Block)}
    {kept : List Block}
    (hEvicted : Evicted positionMap oldLeaf (env.height + 1) v.stash contents kept) :
    ∀ blocks ∈ contents, ∀ block ∈ blocks, Portable block.data := fun blocks hBlocks block hBlock =>
  h.stash block (hEvicted.perm.subset
    (List.mem_append_left _ (List.mem_flatten.mpr ⟨blocks, hBlocks, hBlock⟩)))

theorem PortableState.writePath (h : PortableState env v) (hHeight : env.height < 63)
    (hLeaf : oldLeaf.toNat < 2 ^ env.height)
    {positionMap : List UInt64} {contents : List (List Block)} {kept : List Block}
    (hEvicted : Evicted positionMap oldLeaf (env.height + 1) v.stash contents kept) :
    PortableState env (v.writePath env oldLeaf contents kept) := by
  refine ⟨fun block hBlock => h.stash block (hEvicted.perm.subset (List.mem_append_right _ hBlock)),
    fun b hb => ?_⟩
  obtain ⟨_, hSame⟩ | ⟨i, _, _, blocks, hBlocks, _, hNew⟩ :=
    @bucket_writePath_cases env v oldLeaf contents kept hHeight hLeaf hEvicted.length b
  · exact hSame ▸ h.bucket b hb
  · exact hNew ▸ portable_padded (h.contents hEvicted blocks hBlocks)

theorem announced_readPath (hHeight : env.height < 63) {leaf : UInt64} {sizes : List Nat}
    (hLength : sizes.length = env.height + 1)
    (hSizes : ∀ size ∈ sizes, size ≤ vectorMaxSize) : Announced (.readPath env leaf sizes) := by
  have hCount : (UInt64.ofNat (env.height + 1)).toNat = env.height + 1 :=
    UInt64.toNat_ofNat_of_lt' (by rw [UInt64.size]; omega)
  refine ⟨?_, ?_, fun size hSize => absurd hSize List.not_mem_nil, hSizes⟩
  · intro count hMem
    rw [List.mem_singleton.mp hMem, hCount, Sketch.readPath, length_indices]
  · intro count hMem
    rw [List.mem_singleton.mp hMem, hCount, Sketch.readPath, hLength]

theorem announced_writePath (hHeight : env.height < 63) {leaf : UInt64} {sizes : List Nat}
    (hSizes : ∀ size ∈ sizes, size ≤ vectorMaxSize) : Announced (.writePath env leaf sizes) := by
  have hCount : (UInt64.ofNat (env.height + 1)).toNat = env.height + 1 :=
    UInt64.toNat_ofNat_of_lt' (by rw [UInt64.size]; omega)
  refine ⟨?_, fun count hMem => absurd hMem List.not_mem_nil, hSizes, fun size hSize =>
    absurd hSize List.not_mem_nil⟩
  intro count hMem
  rw [List.mem_singleton.mp hMem, hCount, Sketch.writePath, length_indices]

variable {stored : UInt64 → Option Bytes} {calls : List Call}

/-- The accesses answer like a RAM, and everything that is sent fits. -/
theorem performCalls_announced (hHeight : env.height < 63) (hStored : Stored env w v)
    (h : Consistent env v stored)
    (hPortable : PortableState env v) (hAnnounced : ∀ sketch ∈ v.trace, Announced sketch)
    (hValid : ∀ call ∈ calls, ValidCall env call ∧ (call.op = .write → Portable call.data)) :
    Returns (calls.mapM (PathOram.performCall env)) w fun results w' =>
      results = (memoryOf stored).results calls ∧
      w'.server.running = true ∧ ∀ sketch ∈ w'.sketches, Announced sketch := by
  induction calls generalizing w v stored with
  | nil => exact Returns.pure ⟨rfl, hStored.tree.running, by rwa [World.sketches, hStored.trace]⟩
  | cons call calls ih =>
    obtain ⟨hCall, hData⟩ := hValid call List.mem_cons_self
    rw [List.mapM_cons]
    refine (access_spec hHeight hStored h hCall.1 call.op call.data hCall.lt).bind ?_
    rintro _ w' ⟨rfl, oldLeaf, newLeaf, contents, kept, _, hLeaf, hEvicted, hStored', hNext⟩
    have hServed := @PortableState.serve env v call.op call.addr oldLeaf newLeaf call.data
      hPortable hLeaf hData
    have hTrace : ∀ sketch ∈ ((v.serve env call.op call.addr call.data oldLeaf newLeaf).writePath
        env oldLeaf contents kept).trace,
        Announced sketch := by
      intro sketch hSketch
      obtain hRead | hWritten := List.mem_append.mp hSketch
      · obtain hOld | hNew := List.mem_append.mp hRead
        · exact hAnnounced sketch hOld
        · rw [List.mem_singleton.mp hNew]
          refine announced_readPath hHeight (by rw [List.length_map, length_path])
            fun size hSize => ?_
          obtain ⟨b, hb, rfl⟩ := List.mem_map.mp hSize
          have hNode := mem_nodes_of_mem_path hLeaf hb
          exact payloadSize_le (hPortable.bucket b hNode) (h.fits b hNode).room
      · rw [List.mem_singleton.mp hWritten]
        refine announced_writePath hHeight fun size hSize => ?_
        obtain ⟨blocks, hBlocks, rfl⟩ := List.mem_map.mp hSize
        exact payloadSize_le (portable_padded (hServed.contents hEvicted blocks hBlocks))
          (length_padded (hEvicted.room blocks hBlocks)).le
    refine (ih hStored' hNext (hServed.writePath hHeight hLeaf hEvicted) hTrace fun other hOther =>
      hValid other (List.mem_cons_of_mem _ hOther)).bind ?_
    rintro _ w'' ⟨rfl, hRunning, hRest⟩
    rw [memoryOf_storedAfter]
    exact Returns.pure ⟨rfl, hRunning, hRest⟩

end Sizes

/-! ## Sessions -/

section Sessions

variable {env : Env} {blocks : List Block} {initialPositions : Option (List UInt64)}
  {calls : List Call} {capacity : Nat}

/-- Both processes, with sockets that hold `capacity` bytes in each direction. -/
def setting (env : Env) (ρ : Type) (capacity : Nat) :
    Setting UInt8 ρ (EStateM.Result Exception Server Unit) where
  capacity := capacity
  client _ := none
  server := nextCommand env

/-- The server before it waits for commands. -/
def prepareServer (env : Env) (blocks : List Block) : ServerM Unit := do
  Server.construct env
  Server.init env blocks

def start (env : Env) (server : Server) (initialPositions : Option (List UInt64))
    (calls : List Call) :
    Dialogue.Connection UInt8 (EStateM.Result Exception Client (List Bytes))
      (EStateM.Result Exception Server Unit) :=
  ⟨session env initialPositions calls {}, .done (.ok () server), [], []⟩

/-- Both processes have returned, and nothing is left in the sockets. -/
def finish (results : List Bytes) (own : Client) (server : Server) :
    Dialogue.Connection UInt8 (EStateM.Result Exception Client (List Bytes))
      (EStateM.Result Exception Server Unit) :=
  ⟨.done (.ok results own), .done (.ok () server), [], []⟩

theorem nextCommand_serves {server server' : Server} {event : Event}
    (h : (protocol env).handles server event server') :
    nextCommand env (.ok () server) = some (handleCommand env server) ∧
    Talk.Feeds (handleCommand env server)
      ((protocol env).request event)
        (.sending ((protocol env).response event) (.done (.ok () server'))) := by
  obtain ⟨hRunning, hSendable, hRun⟩ := h
  exact ⟨if_pos hRunning, feeds_handleCommand hSendable hRun⟩

theorem private_construct : Private view (construct env) := by
  refine Private.bind (Private.fromExcept _) fun numLeaves => ?_
  refine Private.bind (Private.of_modify (fun _ => rfl) (fun _ => rfl) fun _ => rfl) fun _ => ?_
  refine Private.bind (Private.mapM fun _ => private_getRandomLeaf) fun positionMap => ?_
  exact Private.of_modify (fun _ => rfl) (fun _ => rfl) fun _ => rfl

theorem private_initializePositionMap (positions : List UInt64) :
    Private view (initializePositionMap env positions) :=
  (Private.check _ _).bind fun _ => Private.of_modify (fun _ => rfl) (fun _ => rfl) fun _ => rfl

/-- What is left of the client's process once it has its position map. -/
def serveCalls (env : Env) (calls : List Call) : ClientP (List Bytes) := do
  let results ← calls.mapM (performCall env)
  TalkM.send Request.quit.encode
  return results

theorem session_apply {server : Server} {w : World} (hSetUp : (do
      construct env
      match initialPositions with
      | some positions => initializePositionMap env positions
      | none => return () : PathM Unit).run { server := server } = .ok () w) :
    session env initialPositions calls {} = serveCalls env calls (client w) ∧
    w.server = server := by
  obtain ⟨_, middle, hConstruct, hPositions⟩ := run_bind_eq_ok hSetUp
  have hServer := (private_construct _ _ _ hConstruct).1
  have hFirst (f : Unit → ClientP (List Bytes)) := private_construct.bind_apply hConstruct f
  cases initialPositions with
  | none =>
    cases hPositions
    exact ⟨hFirst _, hServer⟩
  | some positions =>
    have hPrivate := @private_initializePositionMap env positions
    exact ⟨(hFirst _).trans (hPrivate.bind_apply hPositions _),
      (hPrivate _ _ _ hPositions).1.trans hServer⟩

theorem talks_serveCalls {w w' : World} {results : List Bytes}
    (hCalls : (calls.mapM (PathOram.performCall env)).run w = .ok results w')
    (hRunning : w'.server.running = true) (hAnnounced : ∀ sketch ∈ w'.sketches, Announced sketch) :
    ∃ events, Talks (protocol env) (serveCalls env calls (client w)) w.server events
      (.done (.ok results (client w')))
      { w'.server with running := false } := by
  have hFits : ∀ event ∈ w'.log, Announced event.sketch :=
    fun event hEvent => hAnnounced _ (List.mem_map_of_mem hEvent)
  have hQuit : (protocol env).handles w'.server ⟨.quit, .silent⟩
      { w'.server with running := false } := ⟨hRunning, trivial, rfl⟩
  exact (mirrors_performCalls calls).talks_last hCalls hFits hQuit rfl

/-- In whatever order client and server run and however little the sockets hold, neither ever waits
in vain, and the client ends with the answers of a RAM. -/
theorem session_concurrent (hCapacity : 0 < capacity) {w : World}
    (hSetUp : (setUp env blocks initialPositions).run {} = .ok () w)
    (hAgrees : Agrees env blocks w.positionMap)
    (hBlocks : ∀ block ∈ blocks, Portable block.data)
    (hValid : ∀ call ∈ calls, ValidCall env call ∧ (call.op = .write → Portable call.data)) :
    ∃ server own final total, (prepareServer env blocks).run {} = .ok () server ∧
    final.running = false ∧
      ∀ count pair, Run (Connection.Moves (setting env _ capacity)) count
        (start env server initialPositions calls) pair →
        ∃ missing, count + missing = total ∧
        Run (Connection.Moves (setting env _ capacity)) missing pair
          (finish ((memoryOf (initialData blocks)).results calls) own final) := by
  obtain ⟨⟨bucket, hReady⟩, _, _⟩ := setUp_spec.post_of_run hSetUp
  have hConsistent := hReady.consistent hAgrees
  have hTree : PortableState env ⟨[], bucket, w.positionMap, []⟩ := by
    refine ⟨fun block hBlock => absurd hBlock List.not_mem_nil, fun b hb block hBlock => ?_⟩
    obtain hPlaced | hDummy := (hReady.tree b hb).mem hBlock
    · exact hBlocks block (List.mem_of_getElem? (mem_of_mem_placedBlocks hPlaced).2)
    · rw [Portable, hDummy.2]
      decide
  obtain ⟨results, w', hCalls, rfl, hRunning, hAnnounced⟩ :=
    returns_iff.mp (performCalls_announced hReady.height hReady.stored
      hConsistent hTree (fun sketch hSketch => absurd hSketch List.not_mem_nil) hValid)
  obtain ⟨_, _, hConstruct, hRest⟩ := run_bind_eq_ok hSetUp
  obtain ⟨_, hConstructed, rfl⟩ := run_zoom_eq_ok hConstruct
  obtain ⟨_, _, hInit, hClient⟩ := run_bind_eq_ok hRest
  obtain ⟨server, hFilled, rfl⟩ := run_zoom_eq_ok hInit
  have hPrepared : (prepareServer env blocks).run {} = .ok () server := by
    rw [prepareServer, EStateM.run_bind, hConstructed]
    exact hFilled
  obtain ⟨hSession, hServer⟩ := @session_apply env initialPositions calls server w hClient
  obtain ⟨events, hTalks⟩ := talks_serveCalls hCalls hRunning hAnnounced
  rw [hServer] at hTalks
  have hReaches : Reaches (Connection.Moves (setting env _ capacity)) _ _ :=
    hTalks.reaches hCapacity fun _ _ _ => nextCommand_serves
  rw [← hSession] at hReaches
  obtain ⟨total, hRuns⟩ := complete rfl rfl hReaches
  exact ⟨server, client w', { w'.server with running := false }, total, hPrepared, rfl, hRuns⟩

/-- Sockets that hold a single byte. -/
theorem session_concurrent_small :
    ∃ server own final total, (prepareServer .small smallBlocks).run {} = .ok () server ∧
    final.running = false ∧ ∀ count pair,
      Run (Connection.Moves (setting .small _ 1)) count
        (start .small server (some [1, 0, 1]) [⟨.read, 1, []⟩, ⟨.write, 2, [5]⟩, ⟨.read, 2, []⟩])
        pair →
      ∃ missing, count + missing = total ∧ Run (Connection.Moves (setting .small _ 1)) missing pair
        (finish [[7], [5], [5]] own final) := by
  obtain ⟨w, hSetUp, hAgrees⟩ := exists_setUp_small
  exact session_concurrent (by decide) hSetUp hAgrees (by decide) (by decide)

end Sessions

end Process

end OramHub.PathOram
