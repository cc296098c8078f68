import OramHub.Lib.Duplex
import OramHub.Network.NetIO
import OramHub.PathOram.Requests

/-! # The connection of a Path ORAM client and its server, byte by byte

Counts, sizes and acknowledgements are written and read separately on the two sides. Whatever
requests follow one another, each side reads exactly the bytes that the other one has sent.
-/
namespace OramHub.PathOram
open OramHub.Core OramHub.Program OramHub.LittleEndian OramHub.Network OramHub.Streams
set_option autoImplicit false

/-- The bytes a client sends for a request. -/
def Request.encode : Request → Bytes
  | .readBucket index => 'R'.toUInt8 :: encodeWord index
  | .writeBucket index payload => 'W'.toUInt8 :: (encodeWord index ++ sendVec payload)
  | .readPath count indices => 'P'.toUInt8 :: (encodeWord count ++ indices.flatMap encodeWord)
  | .writePath count buckets =>
    'T'.toUInt8 :: (encodeWord count ++ buckets.flatMap fun item =>
      encodeWord item.1 ++ sendVec item.2)
  | .quit => ['Q'.toUInt8]

/-- The bytes the server sends back. -/
def Response.encode : Response → Bytes
  | .bucket payload => sendVec payload
  | .path count payloads => encodeWord count ++ payloads.flatMap sendVec
  | .ack => ['A'.toUInt8]
  | .silent => []

/-- A size and a vector of that size. -/
def recvPayload : RecvM Bytes := do
  let size ← recvUint64
  throwIf (vectorMaxSize < size.toNat)
    (.lengthError "cannot create std::vector larger than max_size()")
  recvData size.toNat

theorem takes_recvPayload {payload : Bytes} (hSize : payload.length ≤ vectorMaxSize) :
    Takes recvPayload (sendVec payload) payload := by
  have hLength : (UInt64.ofNat payload.length).toNat = payload.length := toNat_ofNat_of_le hSize
  apply (takes_recvUint64 _).bind
  rw [hLength]
  exact Takes.check_bind (Nat.not_lt.mpr hSize) (Takes.take _ payload)

/-! ## The client's side -/

section Client

variable (env : Env)

/-- One round of the loop of `ReadPathFromServer`. -/
def recvBucket : RecvM Bytes := do
  let payload ← recvPayload
  let _ ← fromExcept (decryptBucket env payload)
  return payload

/-- What the client reads after it has sent a request. -/
def recvResponse : Request → RecvM Response
  | .readBucket _ => do
    let payload ← recvBucket env
    return .bucket payload
  | .writeBucket _ _ => return .silent
  | .readPath count _ => do
    let responseCount ← recvUint64
    throwIf (responseCount ≠ count) (.runtimeError "Path ORAM read path response count mismatch")
    let payloads ← Streams.many (recvBucket env) responseCount.toNat
    return .path responseCount payloads
  | .writePath _ _ => do
    let ack ← recvData 1
    throwIf (ack ≠ ['A'.toUInt8]) (.runtimeError "Path ORAM write path acknowledgement mismatch")
    return .ack
  | .quit => return .silent

def recvResponses : List Request → RecvM (List Response)
  | [] => return []
  | request :: requests => do
    let response ← recvResponse env request
    let responses ← recvResponses requests
    return response :: responses

/-- A payload that a vector holds and that the client can decode. -/
def Legible (payload : Bytes) : Prop := payload.length ≤ vectorMaxSize ∧ ∃ bucket,
    decryptBucket env payload = .ok bucket

/-- Requests that fit into the fields that announce their size. -/
def Request.Sendable : Request → Prop
  | .readBucket _ => True
  | .writeBucket _ payload => payload.length ≤ vectorMaxSize
  | .readPath count indices => count.toNat = indices.length
  | .writePath count buckets =>
    count.toNat = buckets.length ∧ ∀ item ∈ buckets, item.2.length ≤ vectorMaxSize
  | .quit => True

/-- Answers that the client can read. -/
def Response.Readable : Request → Response → Prop
  | .readBucket _, .bucket payload => Legible env payload
  | .writeBucket _ _, .silent => True
  | .readPath count _, .path responseCount payloads =>
    responseCount = count ∧ count.toNat = payloads.length ∧
    ∀ payload ∈ payloads, Legible env payload
  | .writePath _ _, .ack => True
  | .quit, .silent => True
  | _, _ => False

variable {env} {request : Request} {response : Response} {payload : Bytes}

theorem takes_recvBucket (h : Legible env payload) :
    Takes (recvBucket env) (sendVec payload) payload := by
  obtain ⟨hSize, bucket, hDecrypt⟩ := h
  rw [← List.append_nil (sendVec payload)]
  apply (takes_recvPayload hSize).bind
  exact Takes.fromExcept_bind hDecrypt (Takes.pure payload)

theorem takes_recvResponse (h : Response.Readable env request response) :
    Takes (recvResponse env request) response.encode response := by
  cases request with
  | readBucket index =>
    cases response with
    | bucket payload => exact (takes_recvBucket h).map Response.bucket
    | _ => exact h.elim
  | writeBucket index payload =>
    cases response with
    | silent => exact Takes.pure _
    | _ => exact h.elim
  | readPath count indices =>
    cases response with
    | path responseCount payloads =>
      obtain ⟨rfl, hCount, hPayloads⟩ := h
      apply (takes_recvUint64 responseCount).bind
      apply Takes.check_bind (not_not.mpr rfl)
      rw [hCount]
      have hBuckets :=
        Takes.many fun payload hPayload => takes_recvBucket (hPayloads payload hPayload)
      exact hBuckets.map (Response.path responseCount)
    | _ => exact h.elim
  | writePath count buckets =>
    cases response with
    | ack =>
      exact (Takes.take _ ['A'.toUInt8]).bind (Takes.check_bind (not_not.mpr rfl) (Takes.pure _))
    | _ => exact h.elim
  | quit =>
    cases response with
    | silent => exact Takes.pure _
    | _ => exact h.elim

end Client

/-! ## The server's side -/

/-- The server with the bytes that it has not read yet and those that the client has not read yet.
-/
structure Connection where
  server : Server
  incoming : Bytes
  outgoing : Bytes

abbrev ServeM := EStateM Exception Connection

def recv {α : Type} (x : RecvM α) : ServeM α :=
  zoom Connection.incoming (fun connection stream => { connection with incoming := stream }) x

def onServer {α : Type} (x : ServerM α) : ServeM α :=
  zoom Connection.server (fun connection server => { connection with server := server }) x

def sendData (bytes : Bytes) : ServeM Unit :=
  modify fun connection => { connection with outgoing := connection.outgoing ++ bytes }

namespace Wire

variable (env : Env)

def handleReadBucket (index : UInt64) : ServeM Unit := do
  onServer validateInitialized
  onServer (modify fun server =>
    { server with stats.readBucketRequests := server.stats.readBucketRequests + 1 })
  let bucket ← onServer (readBucketFromDisk index)
  let payload ← onServer (Server.encryptBucket env bucket)
  sendData (sendVec payload)

/-- `HandleWriteBucket`, for any `cipher_->Decrypt`. -/
def handleWriteBucketWith (decrypt : Bytes → Bytes → Except Exception Bytes)
    (index : UInt64) : ServeM Unit := do
  onServer validateInitialized
  onServer (modify fun server =>
    { server with stats.writeBucketRequests := server.stats.writeBucketRequests + 1 })
  let payload ← recv recvPayload
  let bucket ← fromExcept (decryptBucketWith decrypt payload)
  onServer (writeBucketToDisk index bucket)

def handleWriteBucket (index : UInt64) : ServeM Unit :=
  handleWriteBucketWith env.cipher.decrypt index

/-- One round of the second loop of `HandleReadPath`. -/
def sendBucket (index : UInt64) : ServeM Unit := do
  let bucket ← onServer (readBucketFromDisk index)
  let payload ← onServer (Server.encryptBucket env bucket)
  sendData (sendVec payload)

def handleReadPath : ServeM Unit := do
  onServer validateInitialized
  let count ← recv recvUint64
  throwIf (count ≠ env.treeHeight + 1)
    (.invalidArgument "Path ORAM read path request count mismatch")
  let indices ← recv (Streams.many recvUint64 count.toNat)
  onServer (modify fun server =>
    { server with stats.readPathRequests := server.stats.readPathRequests + 1 })
  sendData (encodeWord count)
  forM indices (sendBucket env)

/-- One round of the loop of `HandleWritePath`. -/
def storeBucketWith (decrypt : Bytes → Bytes → Except Exception Bytes) : ServeM Unit := do
  let index ← recv recvUint64
  let payload ← recv recvPayload
  let bucket ← fromExcept (decryptBucketWith decrypt payload)
  onServer (writeBucketToDisk index bucket)

def storeBucket : ServeM Unit := storeBucketWith env.cipher.decrypt

def handleWritePathWith (decrypt : Bytes → Bytes → Except Exception Bytes) : ServeM Unit := do
  onServer validateInitialized
  let count ← recv recvUint64
  throwIf (count ≠ env.treeHeight + 1)
    (.invalidArgument "Path ORAM write path request count mismatch")
  forM (List.range count.toNat) fun _ => storeBucketWith decrypt
  onServer (modify fun server =>
    { server with stats.writePathRequests := server.stats.writePathRequests + 1 })
  sendData ['A'.toUInt8]

def handleWritePath : ServeM Unit := handleWritePathWith env env.cipher.decrypt

/-- One round of `HandleRequests`, for any `cipher_->Decrypt`. A command that is not known is
reported on the console. -/
def handleCommandWith (decrypt : Bytes → Bytes → Except Exception Bytes) : ServeM Unit := do
  let command ← recv (recvData 1)
  if command = ['Q'.toUInt8] then onServer (modify fun server => { server with running := false })
  else if command = ['R'.toUInt8] then do
    let index ← recv recvUint64
    handleReadBucket env index
  else if command = ['W'.toUInt8] then do
    let index ← recv recvUint64
    handleWriteBucketWith decrypt index
  else if command = ['P'.toUInt8] then handleReadPath env
  else if command = ['T'.toUInt8] then handleWritePathWith env decrypt
  else return ()

def handleCommand : ServeM Unit := handleCommandWith env env.cipher.decrypt

def handleCommands : Nat → ServeM Unit
  | 0 => return ()
  | count + 1 => do
    handleCommand env
    handleCommands count

end Wire

theorem incoming_link : Incoming Connection.mk Connection.incoming fun connection stream =>
    { connection with incoming := stream } :=
  ⟨fun _ _ _ => rfl, fun _ _ _ _ => rfl⟩

theorem own_link : Own Connection.mk Connection.server fun connection server =>
    { connection with server := server } :=
  ⟨fun _ _ _ => rfl, fun _ _ _ _ => rfl⟩

abbrev Serves {α : Type} (x : ServeM α) (server : Server) (chunk reply : Bytes) (a : α)
    (server' : Server) : Prop :=
  Streams.Serves Connection.mk x server chunk reply a server'

section Handlers

variable {env : Env} {server server' server'' : Server} {request : Request} {response : Response}
  {chunk chunk' reply : Bytes} {α β : Type} {a : α} {b : β}

theorem serves_send (bytes : Bytes) : Serves (sendData bytes) server [] bytes () server :=
  fun _ _ => rfl

theorem serves_onServer {x : ServerM α} (h : x.run server = .ok a server') :
    Serves (onServer x) server [] [] a server' :=
  Serves.of_run own_link h

theorem serves_recv_bind {x : RecvM α} {f : α → ServeM β} (h : Takes x chunk a)
    (hNext : Serves (f a) server chunk' reply b server') :
    Serves (recv x >>= f) server (chunk ++ chunk') reply b server' :=
  (Serves.of_takes incoming_link h).bind hNext

theorem serves_onServer_bind {x : ServerM α} {f : α → ServeM β} (h : x.run server = .ok a server')
    (hNext : Serves (f a) server' chunk reply b server'') :
    Serves (onServer x >>= f) server chunk reply b server'' :=
  (serves_onServer h).bind hNext

theorem serves_handleReadBucket {index : UInt64}
    (hRun : (handleReadBucket env index).run server = .ok response server') :
    Serves (Wire.handleReadBucket env index) server [] response.encode () server' := by
  obtain ⟨_, _, hValid, hRun⟩ := run_bind_eq_ok hRun
  obtain ⟨_, _, hStats, hRun⟩ := run_bind_eq_ok hRun
  obtain ⟨bucket, _, hRead, hRun⟩ := run_bind_eq_ok hRun
  obtain ⟨payload, _, hEncrypt, hReturn⟩ := run_bind_eq_ok hRun
  cases hReturn
  apply serves_onServer_bind hValid
  apply serves_onServer_bind hStats
  exact serves_onServer_bind hRead (serves_onServer_bind hEncrypt (serves_send _))

theorem serves_handleWriteBucket {index : UInt64} {payload : Bytes}
    (hSize : payload.length ≤ vectorMaxSize)
    (hRun : (handleWriteBucket env index payload).run server = .ok response server') :
    response = .silent ∧
    Serves (Wire.handleWriteBucket env index) server (sendVec payload) [] () server' := by
  obtain ⟨_, _, hValid, hRun⟩ := run_bind_eq_ok hRun
  obtain ⟨_, _, hStats, hRun⟩ := run_bind_eq_ok hRun
  obtain ⟨bucket, _, hDecrypt, hRun⟩ := run_bind_eq_ok hRun
  obtain ⟨_, _, hWrite, hReturn⟩ := run_bind_eq_ok hRun
  cases hReturn
  obtain ⟨hBucket, rfl⟩ := run_fromExcept_eq_ok hDecrypt
  refine ⟨rfl, serves_onServer_bind hValid (serves_onServer_bind hStats ?_)⟩
  rw [← List.append_nil (sendVec payload)]
  exact serves_recv_bind (takes_recvPayload hSize)
    (Serves.fromExcept_bind hBucket (serves_onServer hWrite))

theorem serves_sendBuckets {indices : List UInt64} {sent payloads : List Bytes}
    (hRun : (indices.foldlM (sendBucket env) sent).run server = .ok payloads server') :
    ∃ added, payloads = sent ++ added ∧
      Serves (forM indices (Wire.sendBucket env)) server [] (added.flatMap sendVec) () server' := by
  induction indices generalizing server sent with
  | nil =>
    cases hRun
    exact ⟨[], (List.append_nil payloads).symm, Serves.pure Connection.mk () _⟩
  | cons index indices ih =>
    rw [List.foldlM_cons] at hRun
    obtain ⟨_, _, hHead, hRest⟩ := run_bind_eq_ok hRun
    obtain ⟨bucket, _, hRead, hHead⟩ := run_bind_eq_ok hHead
    obtain ⟨payload, _, hEncrypt, hReturn⟩ := run_bind_eq_ok hHead
    cases hReturn
    obtain ⟨added, rfl, hServes⟩ := ih hRest
    refine ⟨payload :: added, by rw [List.append_assoc, List.singleton_append], ?_⟩
    rw [List.forM_cons]
    have hSend : Serves (Wire.sendBucket env index) server [] (sendVec payload) () _ :=
      serves_onServer_bind hRead (serves_onServer_bind hEncrypt (serves_send _))
    exact hSend.bind hServes

theorem serves_handleReadPath {count : UInt64} {indices : List UInt64}
    (hCount : count.toNat = indices.length)
    (hRun : (handleReadPath env count indices).run server = .ok response server') :
    Serves (Wire.handleReadPath env) server (encodeWord count ++ indices.flatMap encodeWord)
      response.encode ()
      server' := by
  obtain ⟨_, _, hValid, hRun⟩ := run_bind_eq_ok hRun
  obtain ⟨_, _, hCheck, hRun⟩ := run_bind_eq_ok hRun
  obtain ⟨wanted, _, hWanted, hRun⟩ := run_bind_eq_ok hRun
  obtain ⟨_, _, hStats, hRun⟩ := run_bind_eq_ok hRun
  obtain ⟨payloads, _, hLoop, hReturn⟩ := run_bind_eq_ok hRun
  cases hReturn
  obtain ⟨hHeight, rfl⟩ := run_throwIf_eq_ok hCheck
  rw [hCount] at hWanted
  obtain ⟨rfl, rfl⟩ := (recvItems_spec indices).post_of_run hWanted
  obtain ⟨added, rfl, hServes⟩ := serves_sendBuckets hLoop
  have hTakes : Takes (Streams.many recvUint64 count.toNat) (wanted.flatMap encodeWord) wanted := by
    rw [hCount]
    exact Takes.many fun index _ => takes_recvUint64 index
  rw [← List.append_nil (wanted.flatMap encodeWord)]
  refine serves_onServer_bind hValid
    (serves_recv_bind (takes_recvUint64 count) (Serves.check_bind hHeight ?_))
  refine serves_recv_bind hTakes (serves_onServer_bind hStats ?_)
  exact (serves_send (encodeWord count)).bind hServes

theorem serves_storeBucket {buckets : List (UInt64 × Bytes)} {i : Nat} {item : UInt64 × Bytes}
    (hItem : buckets[i]? = some item) (hSize : item.2.length ≤ vectorMaxSize)
    (hRun : (storeBucket env buckets i).run server = .ok () server') :
    Serves (Wire.storeBucket env) server (encodeWord item.1 ++ sendVec item.2) [] () server' := by
  obtain ⟨_, _, hRecv, hRun⟩ := run_bind_eq_ok hRun
  rw [recvItem, hItem] at hRecv
  cases hRecv
  obtain ⟨bucket, _, hDecrypt, hWrite⟩ := run_bind_eq_ok hRun
  obtain ⟨hBucket, rfl⟩ := run_fromExcept_eq_ok hDecrypt
  rw [← List.append_nil (sendVec item.2)]
  refine serves_recv_bind (takes_recvUint64 item.1) (serves_recv_bind (takes_recvPayload hSize) ?_)
  exact Serves.fromExcept_bind hBucket (serves_onServer hWrite)

theorem serves_storeBuckets {buckets : List (UInt64 × Bytes)}
    (hSizes : ∀ item ∈ buckets, item.2.length ≤ vectorMaxSize)
    {count : Nat} (hCount : count ≤ buckets.length)
    (hRun : (forM (List.range count) (storeBucket env buckets)).run server = .ok () server') :
    Serves (forM (List.range count) fun _ => Wire.storeBucket env) server
      ((buckets.take count).flatMap fun item => encodeWord item.1 ++ sendVec item.2) [] ()
        server' := by
  refine Streams.Serves.forM_range (fun i item server server' hItem hStore => ?_) hCount hRun
  exact serves_storeBucket hItem (hSizes item (List.mem_of_getElem? hItem)) hStore

theorem serves_handleWritePath {count : UInt64} {buckets : List (UInt64 × Bytes)}
    (hCount : count.toNat = buckets.length)
    (hSizes : ∀ item ∈ buckets, item.2.length ≤ vectorMaxSize)
    (hRun : (handleWritePath env count buckets).run server = .ok response server') :
    response = .ack ∧ Serves (Wire.handleWritePath env) server
      (encodeWord count ++ buckets.flatMap fun item => encodeWord item.1 ++ sendVec item.2)
        (Response.encode .ack) ()
      server' := by
  obtain ⟨_, _, hValid, hRun⟩ := run_bind_eq_ok hRun
  obtain ⟨_, _, hCheck, hRun⟩ := run_bind_eq_ok hRun
  obtain ⟨_, _, hLoop, hRun⟩ := run_bind_eq_ok hRun
  obtain ⟨_, _, hStats, hReturn⟩ := run_bind_eq_ok hRun
  cases hReturn
  obtain ⟨hHeight, rfl⟩ := run_throwIf_eq_ok hCheck
  have hBuckets := serves_storeBuckets hSizes hCount.le hLoop
  rw [List.take_of_length_le hCount.ge] at hBuckets
  refine ⟨rfl, serves_onServer_bind hValid
    (serves_recv_bind (takes_recvUint64 count) (Serves.check_bind hHeight ?_))⟩
  rw [← List.append_nil (buckets.flatMap _)]
  exact hBuckets.bind (serves_onServer_bind hStats (serves_send ['A'.toUInt8]))

theorem serves_command {command : UInt8} {body : Bytes} {f : Bytes → ServeM Unit}
    (h : Serves (f [command]) server body reply () server') :
    Serves (recv (recvData 1) >>= f) server (command :: body) reply () server' :=
  serves_recv_bind (Takes.take _ [command]) h

/-- Whatever the message handler answers, the byte handler answers, from exactly the bytes of the
request. -/
theorem serves_handleCommand (hSendable : request.Sendable)
    (hRun : (handleRequest env request).run server = .ok response server') :
    Serves (Wire.handleCommand env) server request.encode response.encode () server' := by
  cases request with
  | readBucket index =>
    apply serves_command
    rw [if_neg (by decide), if_pos rfl, ← List.append_nil (encodeWord index)]
    exact serves_recv_bind (takes_recvUint64 index) (serves_handleReadBucket hRun)
  | writeBucket index payload =>
    obtain ⟨rfl, hServes⟩ := serves_handleWriteBucket hSendable hRun
    apply serves_command
    rw [if_neg (by decide), if_neg (by decide), if_pos rfl]
    exact serves_recv_bind (takes_recvUint64 index) hServes
  | readPath count indices =>
    apply serves_command
    rw [if_neg (by decide), if_neg (by decide), if_neg (by decide), if_pos rfl]
    exact serves_handleReadPath hSendable hRun
  | writePath count buckets =>
    obtain ⟨rfl, hServes⟩ := serves_handleWritePath hSendable.1 hSendable.2 hRun
    apply serves_command
    rw [if_neg (by decide), if_neg (by decide), if_neg (by decide), if_neg (by decide), if_pos rfl]
    exact hServes
  | quit =>
    cases hRun
    apply serves_command
    rw [if_pos rfl]
    exact serves_onServer rfl

end Handlers

/-! ## Whole conversations -/

/-- Both sides read exactly what the other one has sent, however far one of them is ahead. -/
structure Aligned (env : Env) (start : Server) (events : List Event) (final : Server) : Prop where
  served : Serves (Wire.handleCommands env events.length) start (events.flatMap fun event =>
    event.request.encode)
    (events.flatMap fun event => event.response.encode) () final
  received : Takes (recvResponses env (events.map Event.request)) (events.flatMap fun event =>
    event.response.encode)
    (events.map Event.response)

structure Event.Transmissible (env : Env) (event : Event) : Prop where
  sendable : event.request.Sendable
  readable : Response.Readable env event.request event.response

theorem Conversation.aligned {env : Env} {start final : Server} {events : List Event}
    (h : Conversation env start events final)
    (hEvents : ∀ event ∈ events, event.Transmissible env) : Aligned env start events final := by
  induction h with
  | nil => exact ⟨Serves.pure Connection.mk () _, Takes.pure []⟩
  | @cons start middle final event events hRun _ ih =>
    obtain ⟨hServed, hReceived⟩ :=
      ih fun other hOther => hEvents other (List.mem_cons_of_mem _ hOther)
    have hEvent := hEvents event List.mem_cons_self
    constructor
    case served => exact (serves_handleCommand hEvent.sendable hRun).bind hServed
    case received =>
      exact (takes_recvResponse hEvent.readable).bind (hReceived.map (List.cons event.response))

end OramHub.PathOram
