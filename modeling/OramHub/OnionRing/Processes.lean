import OramHub.Lib.Correspondence
import OramHub.OnionRing.Frame
import OramHub.OnionRing.Wire

/-! # The Onion Ring client and its server as two processes

Each process runs for itself and knows of the other one only what arrives, byte by byte. A session
that returns where client and server take turns also ends where they do not, whatever the order in
which they run and whatever the sockets hold at a time.
-/
namespace OramHub.OnionRing
open OramHub.Core OramHub.Program OramHub.LittleEndian OramHub.Network OramHub.Dialogue
open OramHub.Dialogue.TalkM OramHub.Confluence OramHub.Correspondence
set_option autoImplicit false

/-! ## What is in the log -/

/-- A request as a client sends it. A bucket comes with all its slots. -/
def Event.Complete (env : Env) (event : Event) : Prop :=
  event.request.Sent env ∧ ∀ slots, event.response = .bucket slots → slots.length = env.cfg.slots

/-- The buckets have all their slots. -/
def Rows (env : Env) (server : Server env.Ciphertext) : Prop :=
  ∀ b < server.treeSize, (server.tree b).length = env.cfg.slots

structure Whole (env : Env) (w : World env.Ciphertext) : Prop where
  rows : Rows env w.server
  log : ∀ event ∈ w.log, event.Complete env

section Log

variable {env : Env}

theorem Rows.setSlot {server : Server env.Ciphertext} (h : Rows env server) (node slot : Nat)
    (ciphertext : env.Ciphertext) : Rows env (server.setSlot node slot ciphertext) := by
  intro b hb
  change (Function.update server.tree node ((server.tree node).set slot ciphertext) b).length = _
  obtain rfl | hNe := eq_or_ne b node
  · rw [Function.update_self, List.length_set]
    exact h b hb
  · rw [Function.update_of_ne hNe]
    exact h b hb

theorem recvSelection_rows (what : String) (selections : List UInt64) (i : Nat) :
    Preserves (Rows env) (recvSelection env what selections i) fun _ => True := by
  apply (preserves_recvItem selections i).bind
  intro selection _
  exact (Preserves.check _).bind fun _ _ => Preserves.pure trivial

theorem clearSlot_rows (path : List Nat) (selections : List UInt64) (i : Nat) :
    Preserves (Rows env) (clearSlot env path selections i) fun _ => True := by
  apply (recvSelection_rows _ selections i).bind
  intro selection _ server h
  refine wp.get_bind (wp.fromExcept_bind (fun _ _ => h) fun _ _ => ?_)
  exact Returns.outcome (Returns.set ⟨trivial, h.setSlot _ _ _⟩)

/-- A handler that answers with a bucket answers with a whole one. -/
theorem handleRequest_rows (request : Request) :
    Preserves (Rows env) (handleRequest env request) fun response =>
      ∀ slots, response = .bucket slots → slots.length = env.cfg.slots := by
  cases request with
  | access leaf selections =>
    apply (Preserves.mapM fun i _ => recvSelection_rows _ selections i).bind
    intro wanted _
    apply Preserves.get_bind
    intro server
    exact (Preserves.fromExcept _).bind fun _ _ => Preserves.pure nofun
  | clearPath leaf selections =>
    apply (Preserves.forM fun i _ => clearSlot_rows _ selections i).bind
    exact fun _ _ => Preserves.pure nofun
  | readBucket bucketIdx =>
    intro server h
    refine wp.get_bind (wp.check_bind (fun _ => h) fun hIndex => wp.pure ⟨?_, h⟩)
    rintro _ ⟨⟩
    rw [List.length_map]
    exact h _ (Nat.lt_of_not_le hIndex)
  | writeSlot bucketIdx slotIdx bytes =>
    intro server h
    refine wp.get_bind (wp.check_bind (fun _ => h) fun _ => ?_)
    exact Returns.outcome (Returns.set_bind (Returns.pure ⟨nofun, h.setSlot _ _ _⟩))
  | quit => exact Preserves.modify_bind (fun _ h => h) (Preserves.pure nofun)

theorem roundTrip_whole {request : Request} (hSent : request.Sent env) :
    Preserves (Whole env) (roundTrip env request) fun _ => True := by
  intro w h
  obtain ⟨hAnswered, hFailed⟩ := wp_iff.mp (handleRequest_rows request w.server h.rows)
  refine wp_roundTrip (fun response server _ hRun => ⟨trivial, ?_⟩) (fun e server _ hRun => ?_)
    fun _ => h
  · obtain ⟨hBucket, hRows⟩ := hAnswered response server hRun
    refine ⟨hRows, fun event hEvent => ?_⟩
    obtain hOld | hNew := List.mem_append.mp hEvent
    · exact h.log event hOld
    · rw [List.mem_singleton.mp hNew]
      exact ⟨hSent, hBucket⟩
  · have hRows : Rows env server := hFailed e server hRun
    exact ⟨hRows, h.log⟩

theorem whole_lasting : Lasting env (Whole env) where
  own _ _ _ _ h := ⟨h.rows, h.log⟩
  exchange _ hSent := roundTrip_whole hSent
  counters _ _ _ h := ⟨h.rows, h.log⟩
  positions _ _ _ h := ⟨h.rows, h.log⟩

theorem Ready.whole {w : World env.Ciphertext} (h : Ready env w) : Whole env w := by
  have hShaped := h.coherent.shaped
  constructor
  case rows => exact fun b hb => hShaped.rows b (mem_nodes.mpr (hShaped.treeSize ▸ hb))
  case log =>
    rw [h.log]
    exact fun _ hEvent => absurd hEvent List.not_mem_nil

end Log

namespace Process

/-! ## The client -/

/-- What the client keeps. -/
structure Client where
  numLeaves : UInt64 := 0
  positionMap : List UInt64 := []
  idMap : Nat → List Int := fun _ => []
  accessCount : UInt64 := 0
  evictionCounter : UInt64 := 0
  prng : Nat := 0
  noise : Nat := 0

def client {C : Type} (w : World C) : Client :=
  ⟨w.numLeaves, w.positionMap, w.idMap, w.accessCount, w.evictionCounter, w.prng, w.noise⟩

def Client.alone {C : Type} (own : Client) : World C :=
  ⟨own.numLeaves, own.positionMap, own.idMap, own.accessCount, own.evictionCounter, own.prng,
    own.noise, {}, []⟩

/-- What the client has of a state that comprises client and server. -/
def view (env : Env) : View (World env.Ciphertext) Client (Server env.Ciphertext) Event where
  own := client
  server := World.server
  log := World.log
  alone := Client.alone
  own_alone _ := rfl

abbrev ClientP := TalkM Exception Client UInt8

section Client

variable (env : Env)

/-- A part of the client that does not use the connection. -/
def onClient {α : Type} (x : OnionM env α) : ClientP α := Correspondence.onClient (view env) x

def recvAck (what : String) : ClientP Response := do
  let ack ← Process.recvData 1
  locally (throwIf (ack ≠ ['K'.toUInt8]) (.runtimeError what))
  return .ack

/-- What the client reads after it has sent a request. -/
def recvResponse : Request → ClientP Response
  | .access _ _ => do
    let bytes ← Process.recvVec
    return .pathSum bytes
  | .clearPath _ _ => recvAck "Unexpected Onion Ring clear-path acknowledgment"
  | .readBucket _ => do
    let slots ← TalkM.many Process.recvVec env.cfg.slots
    return .bucket slots
  | .writeSlot _ _ _ => recvAck "Unexpected Onion Ring write-back acknowledgment"
  | .quit => return .silent

def roundTrip (request : Request) : ClientP Response := do
  TalkM.send request.encode
  recvResponse env request

def fetchPathSum (leaf : UInt64) (selections : List Nat) : ClientP env.Ciphertext := do
  match ← roundTrip env (.access leaf (selections.map UInt64.ofNat)) with
  | .pathSum bytes => return env.tfhe.importSample bytes
  | _ => onClient env (throw (.runtimeError "NetIO recv failed"))

def fetchBucketCiphertexts (bucketIdx : Nat) : ClientP (List env.Ciphertext) := do
  match ← roundTrip env (.readBucket (UInt64.ofNat bucketIdx)) with
  | .bucket slots =>
    let received ← onClient env ((List.range env.cfg.slots).mapM (recvItem slots))
    return received.map env.tfhe.importSample
  | _ => onClient env (throw (.runtimeError "NetIO recv failed"))

def clearPathSlots (leaf : UInt64) (selections : List Nat) : ClientP Unit := do
  let response ← roundTrip env (.clearPath leaf (selections.map UInt64.ofNat))
  onClient env
    (throwIf (response ≠ .ack) (.runtimeError "Unexpected Onion Ring clear-path acknowledgment"))

def writeBackSlot (bucketIdx slotIdx : Nat) (ciphertext : env.Ciphertext) : ClientP Unit := do
  let bytes := env.tfhe.exportSample ciphertext
  let response ← roundTrip env (.writeSlot (UInt64.ofNat bucketIdx) (UInt64.ofNat slotIdx) bytes)
  onClient env
    (throwIf (response ≠ .ack) (.runtimeError "Unexpected Onion Ring write-back acknowledgment"))

def writeBucketCiphertexts (bucketIdx : Nat) (ciphertexts : List env.Ciphertext) :
    ClientP Unit := do
  onClient env (throwIf (ciphertexts.length ≠ env.cfg.slots)
    (.invalidArgument "Bucket ciphertext count mismatch"))
  forM (List.range ciphertexts.length) fun slot => do
    let ciphertext ← onClient env (recvItem ciphertexts slot)
    writeBackSlot env bucketIdx slot ciphertext

def tripletEvict (sourceIdx leftIdx rightIdx : Nat) : ClientP Unit := do
  let parentLevel := getNodeLevel sourceIdx
  let childBitShift := env.cfg.height - parentLevel - 1
  let sourceBucket ← fetchBucketCiphertexts env sourceIdx
  let leftChildBucket ← fetchBucketCiphertexts env leftIdx
  let rightChildBucket ← fetchBucketCiphertexts env rightIdx
  let own ← locally get
  let routed ← onClient env (fromExcept
    (((own.idMap sourceIdx).zip sourceBucket).foldlM
      (routeBlock env own.positionMap childBitShift) ([], [])))
  let leftInput := routed.1 ++ childBlocks env (own.idMap leftIdx) leftChildBucket
  let rightInput := routed.2 ++ childBlocks env (own.idMap rightIdx) rightChildBucket
  onClient env (throwIf (env.cfg.slots < leftInput.length ∨ env.cfg.slots < rightInput.length)
    (.runtimeError "Triplet eviction overflowed child bucket capacity"))
  let leftInput := padSlots env leftInput
  let rightInput := padSlots env rightInput
  let leftPermutation ← onClient env (makeRandomPermutation env env.cfg.slots)
  let rightPermutation ← onClient env (makeRandomPermutation env env.cfg.slots)
  let leftOutput ← onClient env
    (fromExcept (permuteCiphertexts env (leftInput.map Prod.snd) leftPermutation))
  let rightOutput ← onClient env
    (fromExcept (permuteCiphertexts env (rightInput.map Prod.snd) rightPermutation))
  let clearedSource := List.replicate env.cfg.slots env.tfhe.tLweClear
  writeBucketCiphertexts env leftIdx leftOutput
  writeBucketCiphertexts env rightIdx rightOutput
  writeBucketCiphertexts env sourceIdx clearedSource
  onClient env (setIds env sourceIdx ((own.idMap sourceIdx).map fun _ => -1))
  let leftIds ← onClient env
    (fromExcept (applyPermutationToIds (leftInput.map Prod.fst) leftPermutation))
  onClient env (setIds env leftIdx leftIds)
  let rightIds ← onClient env
    (fromExcept (applyPermutationToIds (rightInput.map Prod.fst) rightPermutation))
  onClient env (setIds env rightIdx rightIds)

def leafRefresh (leafBucketIdx : Nat) : ClientP Unit := do
  let bucket ← fetchBucketCiphertexts env leafBucketIdx
  let refreshedInput ← onClient env (bucket.mapM (refreshSlot env))
  let permutation ← onClient env (makeRandomPermutation env env.cfg.slots)
  let own ← locally get
  let currentIds := own.idMap leafBucketIdx
  let refreshedOutput ← onClient env
    (fromExcept (permuteCiphertexts env refreshedInput permutation))
  writeBucketCiphertexts env leafBucketIdx refreshedOutput
  let ids ← onClient env (fromExcept (applyPermutationToIds currentIds permutation))
  onClient env (setIds env leafBucketIdx ids)

def evict : ClientP Unit := do
  let own ← locally get
  let evictionLeaf := reverseBits (own.evictionCounter % own.numLeaves) env.cfg.height
  onClient env (modify fun world => { world with evictionCounter := world.evictionCounter + 1 })
  let path := getPathIndices env.cfg evictionLeaf
  forM (List.range (path.length - 1)) fun depth => do
    let sourceIdx := path.getD depth 0
    tripletEvict env sourceIdx (2 * sourceIdx + 1) (2 * sourceIdx + 2)
  leafRefresh env (path.getLastD 0)

/-- The slot of the root that takes the block. -/
def chooseRootSlot (addr : UInt64) : ClientP Nat := do
  let own ← locally get
  let rootSlot := findSlot (own.idMap 0) (toBlockId addr)
  let rootSlot := if rootSlot = (own.idMap 0).length then findFirstDummySlot
    (own.idMap 0) else rootSlot
  if rootSlot = (own.idMap 0).length then do
    evict env
    let own ← locally get
    return findFirstDummySlot (own.idMap 0)
  else return rootSlot

/-- The part of `Access` that puts the block into the root. -/
def writeBackBlock (addr : UInt64) (block : Bytes) : ClientP Unit := do
  let rootSlot ← chooseRootSlot env addr
  let own ← locally get
  onClient env (throwIf (rootSlot = (own.idMap 0).length)
    (.runtimeError "Root bucket is still full after eviction"))
  let updated ← onClient env (encryptBlock env block)
  writeBackSlot env 0 rootSlot updated
  onClient env (setIds env 0 ((own.idMap 0).set rootSlot (toBlockId addr)))

/-- `Access` without its checks and the eviction at its end. -/
def updateBlock (op : Op) (addr : UInt64) (data : Bytes) : ClientP Bytes := do
  let own ← locally get
  let oldLeaf ← onClient env (fromExcept (readPosition own.positionMap addr.toNat))
  let newLeaf ← onClient env (getRandomLeaf env)
  onClient env (modify fun world =>
    { world with positionMap := world.positionMap.set addr.toNat newLeaf })
  let path := getPathIndices env.cfg oldLeaf
  let selections ← onClient env (fromExcept (selectSlots own.idMap path addr))
  let pathSum ← fetchPathSum env oldLeaf selections
  clearPathSlots env oldLeaf selections
  onClient env (modify fun world =>
    { world with idMap := forget world.idMap (path.zip selections) })
  let block ← onClient env (fromExcept (decryptBlock env.tfhe pathSum env.cfg.blockSize))
  let result := if op = .write then data else block
  writeBackBlock env addr result
  onClient env (modify fun world => { world with accessCount := world.accessCount + 1 })
  return result

def access (op : Op) (addr : UInt64) (data : Bytes) : ClientP Bytes := do
  onClient env (throwIf (env.cfg.numBlocks ≤ addr) (.outOfRange "Address out of range"))
  onClient env (throwIf (op = .write ∧ data.length ≠ env.cfg.blockSize.toNat)
    (.invalidArgument "Write size does not match block size"))
  let result ← updateBlock env op addr data
  let own ← locally get
  if env.cfg.a ≠ 0 ∧ own.accessCount % env.cfg.a = 0 then evict env
  return result

def performCall (call : Call) : ClientP Bytes := access env call.op call.addr call.data

/-- Construction, accesses, and the command that the destructor sends. -/
def session (calls : List Call) : ClientP (List Bytes) := do
  onClient env (construct env)
  let results ← calls.mapM (performCall env)
  TalkM.send Request.quit.encode
  return results

end Client

/-! ## The server's process does what the handlers do -/

section Server

variable {env : Env} {tgsw : Tgsw env.tfhe} {server server' : Server env.Ciphertext}

theorem listens_recvSelection (what : String) : Listens (recvSelection env what) :=
  Process.listens_recvUint64.bind fun _ => (listens_locally _).bind fun _ => listens_pure _

theorem polite_handleAccess : Polite (handleAccess env) := by
  refine Process.listens_recvUint64.bind_polite fun leaf =>
    (listens_many (listens_recvSelection _) _).bind_polite fun selections => Speaks.polite ?_
  exact (speaks_locally _).bind fun server => (speaks_locally _).bind fun accumulator =>
    speaks_send _

theorem polite_handleClearPath : Polite (handleClearPath env) := by
  refine Process.listens_recvUint64.bind_polite fun leaf =>
    (listens_forM fun i => ?_).bind_polite fun _ => (speaks_send _).polite
  exact (listens_recvSelection _).bind fun selection => listens_locally _

theorem polite_handleReadBucket : Polite (handleReadBucket env) := by
  refine Process.listens_recvUint64.bind_polite fun bucketIdx => Speaks.polite ?_
  exact (speaks_locally _).bind fun server => (speaks_locally _).bind fun _ =>
    speaks_forM fun slot => speaks_send _

theorem polite_handleWriteSlot : Polite (handleWriteSlot env) := by
  refine Process.listens_recvUint64.bind_polite fun bucketIdx =>
    Process.listens_recvUint64.bind_polite fun slotIdx => ?_
  refine (listens_locally _).bind_polite fun server => (listens_locally _).bind_polite fun _ => ?_
  exact Process.listens_recvVec.bind_polite fun bytes =>
    Speaks.polite ((speaks_locally _).bind fun _ => speaks_send _)

theorem listens_receiveChildUpdate (sourceIdx childIdx : Nat) :
    Listens (receiveChildUpdate env tgsw sourceIdx childIdx) := by
  refine Process.listens_recvVec.bind fun sourceBytes =>
    Process.listens_recvVec.bind fun childBytes => ?_
  refine (listens_locally _).bind fun sourceSlots => (listens_locally _).bind fun childSlots => ?_
  refine Process.listens_recvUint64.bind fun bitCount => Listens.bind ?_ fun swapBits =>
    listens_locally _
  exact (listens_locally _).bind fun _ => (listens_many Process.listens_recvVec _).bind fun _ =>
    listens_pure _

theorem polite_handleEvictTriplet : Polite (handleEvictTriplet env tgsw) := by
  refine Process.listens_recvUint64.bind_polite fun sourceIdx =>
    Process.listens_recvUint64.bind_polite fun leftIdx => ?_
  refine Process.listens_recvUint64.bind_polite fun rightIdx =>
    (listens_locally _).bind_polite fun server => (listens_locally _).bind_polite fun _ => ?_
  refine (listens_receiveChildUpdate _ _).bind_polite fun _ =>
    (listens_receiveChildUpdate _ _).bind_polite fun _ => Speaks.polite ?_
  exact (speaks_locally _).bind fun _ => speaks_send _

/-- In the midst of 'L' the server listens again. -/
theorem polite_dispatch {command : Bytes} (h : command ≠ ['L'.toUInt8]) :
    Polite (dispatch env tgsw command) := by
  unfold dispatch
  split_ifs
  · exact (listens_locally _).polite
  · exact polite_handleAccess
  · exact polite_handleClearPath
  · exact polite_handleReadBucket
  · exact polite_handleWriteSlot
  · exact polite_handleEvictTriplet
  · exact (listens_locally _).polite

theorem feeds_handleCommand {letter : UInt8} {chunk reply : Bytes} (hLetter : letter ≠ 'L'.toUInt8)
    (h : Answers (handleCommand env tgsw) server (letter :: chunk) reply () server') :
    Talk.Feeds (handleCommand env tgsw server) (letter :: chunk)
      (.sending reply (.done (.ok () server'))) := by
  refine h.feeds_receive rfl (polite_dispatch (fun hEq => hLetter ?_) server)
  exact (List.cons.inj hEq).1

/-- What a client asks for is a command of the server. -/
theorem answers_request (hSizes : ∀ x, (env.tfhe.exportSample x).length ≤ vectorMaxSize)
    {request : Request} {response : Response} (hSent : request.Sent env)
    (hRun : (handleRequest env request).run server = .ok response server') :
    Answers (handleCommand env tgsw) server request.encode response.encode () server' := by
  cases request with
  | access leaf selections =>
    exact @answers_command env tgsw _ _ (.access leaf selections) _ hSent (run_bind_of_ok hRun)
  | clearPath leaf selections =>
    exact @answers_command env tgsw _ _ (.clearPath leaf selections) _ hSent (run_bind_of_ok hRun)
  | readBucket bucketIdx =>
    exact @answers_command env tgsw _ _ (.readBucket bucketIdx) _ hSent (run_bind_of_ok hRun)
  | writeSlot bucketIdx slotIdx bytes =>
    obtain ⟨ciphertext, rfl⟩ := hSent
    exact @answers_command env tgsw _ _ (.writeSlot bucketIdx slotIdx _) _ (hSizes ciphertext)
      (run_bind_of_ok hRun)
  | quit =>
    cases hRun
    exact answers_quit server

theorem feeds_request (hSizes : ∀ x, (env.tfhe.exportSample x).length ≤ vectorMaxSize)
    {request : Request} {response : Response} (hSent : request.Sent env)
    (hRun : (handleRequest env request).run server = .ok response server') :
    Talk.Feeds (handleCommand env tgsw server) request.encode
      (.sending response.encode (.done (.ok () server'))) := by
  have hAnswers : Answers (handleCommand env tgsw) _ _ _ _ _ := answers_request hSizes hSent hRun
  cases request
  all_goals exact feeds_handleCommand (by decide) hAnswers

end Server

/-! ## The client's process does what the client does -/

section Mirrors

variable {env : Env}

/-- The server handles what a client sends as long as it runs. -/
def protocol (env : Env) : Protocol UInt8 (Server env.Ciphertext) Event where
  request event := event.request.encode
  response event := event.response.encode
  fits event := event.Complete env
  handles server event server' := server.running = true ∧ event.request.Sent env ∧
    (handleRequest env event.request).run server = .ok event.response server'

theorem private_getRandomLeaf : Private (view env) (getRandomLeaf env) := by
  rintro w _ _ ⟨⟩
  exact ⟨rfl, rfl, rfl⟩

theorem private_makeRandomPermutation (size : Nat) :
    Private (view env) (makeRandomPermutation env size) := by
  rintro w _ _ ⟨⟩
  exact ⟨rfl, rfl, rfl⟩

theorem private_encryptBlock (block : Bytes) : Private (view env) (encryptBlock env block) := by
  refine (Private.fromExcept _).bind fun poly => ?_
  rintro w _ _ ⟨⟩
  exact ⟨rfl, rfl, rfl⟩

theorem private_refreshSlot (ciphertext : env.Ciphertext) :
    Private (view env) (refreshSlot env ciphertext) :=
  (Private.fromExcept _).bind fun plaintext => private_encryptBlock plaintext

theorem private_setIds (bucketIdx : Nat) (ids : List Int) :
    Private (view env) (setIds env bucketIdx ids) :=
  Private.of_modify (fun _ => rfl) (fun _ => rfl) fun _ => rfl

theorem private_recvItem {α : Type} (items : List α) (i : Nat) :
    Private (view env) (recvItem items i) := by
  rw [recvItem]
  split
  · exact Private.pure _
  · exact Private.throw _

theorem private_construct : Private (view env) (construct env) := by
  refine (Private.fromExcept _).bind fun numNodes => (Private.fromExcept _).bind fun numLeaves => ?_
  refine (Private.check _ _).bind fun _ => (Private.check _ _).bind fun _ =>
    (Private.check _ _).bind fun _ => ?_
  refine Private.bind (Private.of_modify (fun _ => rfl) (fun _ => rfl) fun _ => rfl) fun _ => ?_
  refine (Private.mapM fun _ => private_getRandomLeaf).bind fun positionMap => ?_
  exact Private.of_modify (fun _ => rfl) (fun _ => rfl) fun _ => rfl

theorem listens_recvAck (what : String) : Listens (recvAck what) :=
  (Process.listens_recvData 1).bind fun _ => (listens_locally _).bind fun _ => listens_pure _

theorem listens_recvResponse (request : Request) : Listens (recvResponse env request) := by
  cases request with
  | access leaf selections => exact Process.listens_recvVec.bind fun _ => listens_pure _
  | clearPath leaf selections => exact listens_recvAck _
  | readBucket bucketIdx =>
    exact (listens_many Process.listens_recvVec _).bind fun _ => listens_pure _
  | writeSlot bucketIdx slotIdx bytes => exact listens_recvAck _
  | quit => exact listens_pure _

theorem answers_recvAck (what : String) (own : Client) :
    Answers (recvAck what) own Response.ack.encode [] .ack own := by
  have hAck : Streams.Takes (recvData 1) ['K'.toUInt8] ['K'.toUInt8] :=
    Streams.Takes.take _ ['K'.toUInt8]
  rw [Response.encode, ← List.append_nil ['K'.toUInt8]]
  exact Answers.reads_bind (Process.reads_recvData 1) hAck
    (Answers.check_bind (not_not.mpr rfl) (Answers.pure _ _))

/-- The client reads the answer of the server. -/
theorem answers_recvResponse (hSizes : ∀ x, (env.tfhe.exportSample x).length ≤ vectorMaxSize)
    {event : Event} (hComplete : event.Complete env) {server server' : Server env.Ciphertext}
    (hRun : (handleRequest env event.request).run server = .ok event.response server')
    (own : Client) :
    Answers (recvResponse env event.request) own event.response.encode [] event.response own := by
  obtain ⟨request, response⟩ := event
  obtain ⟨_, hBucket⟩ := hComplete
  dsimp only at hRun hBucket ⊢
  cases request with
  | access leaf selections =>
    obtain ⟨_, _, _, hRest⟩ := run_bind_eq_ok hRun
    obtain ⟨_, _, _, hSum⟩ := run_bind_eq_ok hRest
    obtain ⟨accumulator, _, _, hReturn⟩ := run_bind_eq_ok hSum
    cases hReturn
    rw [Response.encode, ← List.append_nil (sendVec _)]
    exact Answers.reads_bind Process.reads_recvVec (takes_recvVec (hSizes accumulator))
      (Answers.pure _ _)
  | clearPath leaf selections =>
    obtain ⟨_, _, _, hReturn⟩ := run_bind_eq_ok hRun
    cases hReturn
    exact answers_recvAck _ own
  | readBucket bucketIdx =>
    obtain ⟨stored, _, _, hRest⟩ := run_bind_eq_ok hRun
    obtain ⟨_, _, _, hReturn⟩ := run_bind_eq_ok hRest
    cases hReturn
    have hAll : ∀ bytes ∈ (stored.tree bucketIdx.toNat).map env.tfhe.exportSample,
        bytes.length ≤ vectorMaxSize := by
      intro bytes hBytes
      obtain ⟨ciphertext, _, rfl⟩ := List.mem_map.mp hBytes
      exact hSizes ciphertext
    have hSlots := answers_recvVecs (s := own) hAll
    rw [hBucket _ rfl] at hSlots
    rw [Response.encode, ← List.append_nil (List.flatMap _ _)]
    exact hSlots.silent_bind (Answers.pure _ _)
  | writeSlot bucketIdx slotIdx bytes =>
    obtain ⟨_, _, _, hRest⟩ := run_bind_eq_ok hRun
    obtain ⟨_, _, _, hSet⟩ := run_bind_eq_ok hRest
    cases hSet
    exact answers_recvAck _ own
  | quit =>
    cases hRun
    exact Answers.pure _ own

theorem mirrors_roundTrip (hSizes : ∀ x, (env.tfhe.exportSample x).length ≤ vectorMaxSize)
    (request : Request) :
    Mirrors (view env) (protocol env) (roundTrip env request)
      (OnionRing.roundTrip env request) := by
  apply Mirrors.exchange
  intro w response w' hRun
  obtain ⟨hRunning, server, hHandled, rfl⟩ := roundTrip_eq_ok hRun
  refine ⟨⟨request, response⟩, recvResponse env request (client w), rfl, rfl, ?_,
    fun hComplete => ⟨⟨hRunning, hComplete.1, hHandled⟩, ?_⟩⟩
  · rw [roundTrip, bind_apply, TalkM.send, Talk.bind_sending]
    rfl
  · exact (answers_recvResponse hSizes hComplete hHandled (client w)).feeds
      (listens_recvResponse request _).polite

variable (hSizes : ∀ x, (env.tfhe.exportSample x).length ≤ vectorMaxSize)
include hSizes

theorem mirrors_fetchPathSum (leaf : UInt64) (selections : List Nat) :
    Mirrors (view env) (protocol env) (fetchPathSum env leaf selections)
      (OnionRing.fetchPathSum env leaf selections) := by
  refine (mirrors_roundTrip hSizes _).bind fun response => ?_
  cases response with
  | pathSum bytes => exact Mirrors.pure _
  | _ => exact Mirrors.throw _ _

theorem mirrors_fetchBucketCiphertexts (bucketIdx : Nat) :
    Mirrors (view env) (protocol env) (fetchBucketCiphertexts env bucketIdx)
      (OnionRing.fetchBucketCiphertexts env bucketIdx) := by
  refine (mirrors_roundTrip hSizes _).bind fun response => ?_
  cases response with
  | bucket slots =>
    exact (Private.mapM (private_recvItem slots)).mirrors.bind fun received => Mirrors.pure _
  | _ => exact Mirrors.throw _ _

theorem mirrors_clearPathSlots (leaf : UInt64) (selections : List Nat) :
    Mirrors (view env) (protocol env) (clearPathSlots env leaf selections)
      (OnionRing.clearPathSlots env leaf selections) :=
  (mirrors_roundTrip hSizes _).bind fun _ => (Private.check _ _).mirrors

theorem mirrors_writeBackSlot (bucketIdx slotIdx : Nat) (ciphertext : env.Ciphertext) :
    Mirrors (view env) (protocol env) (writeBackSlot env bucketIdx slotIdx ciphertext)
      (OnionRing.writeBackSlot env bucketIdx slotIdx ciphertext) :=
  (mirrors_roundTrip hSizes _).bind fun _ => (Private.check _ _).mirrors

theorem mirrors_writeBucketCiphertexts (bucketIdx : Nat) (ciphertexts : List env.Ciphertext) :
    Mirrors (view env) (protocol env) (writeBucketCiphertexts env bucketIdx ciphertexts)
      (OnionRing.writeBucketCiphertexts env bucketIdx ciphertexts) := by
  refine (Private.check _ _).mirrors.bind fun _ => Mirrors.forM fun slot => ?_
  exact (private_recvItem ciphertexts slot).mirrors.bind fun ciphertext =>
    mirrors_writeBackSlot hSizes bucketIdx slot ciphertext

theorem mirrors_tripletEvict (sourceIdx leftIdx rightIdx : Nat) :
    Mirrors (view env) (protocol env) (tripletEvict env sourceIdx leftIdx rightIdx)
      (OnionRing.tripletEvict env sourceIdx leftIdx rightIdx) := by
  refine (mirrors_fetchBucketCiphertexts hSizes sourceIdx).bind fun sourceBucket =>
    (mirrors_fetchBucketCiphertexts hSizes leftIdx).bind fun leftBucket => ?_
  refine (mirrors_fetchBucketCiphertexts hSizes rightIdx).bind fun rightBucket =>
    Mirrors.get_bind fun w => (Private.fromExcept _).mirrors.bind fun routed => ?_
  refine (Private.check _ _).mirrors.bind fun _ =>
    (private_makeRandomPermutation _).mirrors.bind fun leftPermutation =>
    (private_makeRandomPermutation _).mirrors.bind fun rightPermutation => ?_
  refine (Private.fromExcept _).mirrors.bind fun leftOutput =>
    (Private.fromExcept _).mirrors.bind fun rightOutput => ?_
  refine (mirrors_writeBucketCiphertexts hSizes leftIdx leftOutput).bind fun _ =>
    (mirrors_writeBucketCiphertexts hSizes rightIdx rightOutput).bind fun _ =>
    (mirrors_writeBucketCiphertexts hSizes sourceIdx _).bind fun _ => ?_
  refine (private_setIds sourceIdx _).mirrors.bind fun _ =>
    (Private.fromExcept _).mirrors.bind fun leftIds =>
    (private_setIds leftIdx leftIds).mirrors.bind fun _ => ?_
  exact (Private.fromExcept _).mirrors.bind fun rightIds =>
    (private_setIds rightIdx rightIds).mirrors

theorem mirrors_leafRefresh (leafBucketIdx : Nat) :
    Mirrors (view env) (protocol env) (leafRefresh env leafBucketIdx)
      (OnionRing.leafRefresh env leafBucketIdx) := by
  refine (mirrors_fetchBucketCiphertexts hSizes leafBucketIdx).bind fun bucket =>
    (Private.mapM private_refreshSlot).mirrors.bind fun refreshed => ?_
  refine (private_makeRandomPermutation _).mirrors.bind fun permutation =>
    Mirrors.get_bind fun w => (Private.fromExcept _).mirrors.bind fun output => ?_
  refine (mirrors_writeBucketCiphertexts hSizes leafBucketIdx output).bind fun _ => ?_
  exact (Private.fromExcept _).mirrors.bind fun ids => (private_setIds leafBucketIdx ids).mirrors

theorem mirrors_evict :
    Mirrors (view env) (protocol env) (evict env) (OnionRing.evict env) := by
  refine Mirrors.get_bind fun w => Mirrors.bind
    (Private.mirrors (Private.of_modify (fun _ => rfl) (fun _ => rfl) fun _ => rfl)) fun _ => ?_
  refine (Mirrors.forM fun depth => ?_).bind fun _ => mirrors_leafRefresh hSizes _
  exact mirrors_tripletEvict hSizes _ _ _

theorem mirrors_chooseRootSlot (addr : UInt64) :
    Mirrors (view env) (protocol env) (chooseRootSlot env addr)
      (OnionRing.chooseRootSlot env addr) := by
  refine Mirrors.get_bind fun w => Mirrors.ite ?_ (Mirrors.pure _)
  exact (mirrors_evict hSizes).bind fun _ => Mirrors.get_bind fun w' => Mirrors.pure _

theorem mirrors_writeBackBlock (addr : UInt64) (block : Bytes) :
    Mirrors (view env) (protocol env) (writeBackBlock env addr block)
      (OnionRing.writeBackBlock env addr block) := by
  refine (mirrors_chooseRootSlot hSizes addr).bind fun rootSlot =>
    Mirrors.get_bind fun w => (Private.check _ _).mirrors.bind fun _ => ?_
  refine (private_encryptBlock block).mirrors.bind fun updated =>
    (mirrors_writeBackSlot hSizes 0 rootSlot updated).bind fun _ => ?_
  exact (private_setIds 0 _).mirrors

theorem mirrors_updateBlock (op : Op) (addr : UInt64) (data : Bytes) :
    Mirrors (view env) (protocol env) (updateBlock env op addr data)
      (OnionRing.updateBlock env op addr data) := by
  refine Mirrors.get_bind fun w => (Private.fromExcept _).mirrors.bind fun oldLeaf =>
    private_getRandomLeaf.mirrors.bind fun newLeaf => ?_
  refine Mirrors.bind
    (Private.mirrors (Private.of_modify (fun _ => rfl) (fun _ => rfl) fun _ => rfl)) fun _ => ?_
  refine (Private.fromExcept _).mirrors.bind fun selections =>
    (mirrors_fetchPathSum hSizes oldLeaf selections).bind fun pathSum =>
    (mirrors_clearPathSlots hSizes oldLeaf selections).bind fun _ => ?_
  refine Mirrors.bind
    (Private.mirrors (Private.of_modify (fun _ => rfl) (fun _ => rfl) fun _ => rfl)) fun _ => ?_
  refine (Private.fromExcept _).mirrors.bind fun block =>
    (mirrors_writeBackBlock hSizes addr _).bind fun _ => ?_
  exact Mirrors.bind
    (Private.mirrors (Private.of_modify (fun _ => rfl) (fun _ => rfl) fun _ => rfl))
    fun _ => Mirrors.pure _

theorem mirrors_performCall (call : Call) :
    Mirrors (view env) (protocol env) (performCall env call) (OnionRing.performCall env call) := by
  refine (Private.check _ _).mirrors.bind fun _ => (Private.check _ _).mirrors.bind fun _ => ?_
  refine (mirrors_updateBlock hSizes call.op call.addr call.data).bind fun result =>
    Mirrors.get_bind fun w => Mirrors.ite ?_ (Mirrors.pure result)
  exact (mirrors_evict hSizes).bind fun _ => Mirrors.pure result

end Mirrors

/-! ## Sessions -/

section Sessions

variable {env : Env} {tgsw : Tgsw env.tfhe} {w w' : World env.Ciphertext} {calls : List Call}
  {results : List Bytes} {capacity : Nat}

/-- Both processes, with sockets that hold `capacity` bytes in each direction. -/
def setting (env : Env) (tgsw : Tgsw env.tfhe) (ρ : Type) (capacity : Nat) :
    Setting UInt8 ρ (EStateM.Result Exception (Server env.Ciphertext) Unit) where
  capacity := capacity
  client _ := none
  server := nextCommand env tgsw

/-- A server after `Init` and a client that has not been constructed yet. -/
def start (env : Env) (server : Server env.Ciphertext) (calls : List Call) :
    Dialogue.Connection UInt8 (EStateM.Result Exception Client (List Bytes))
      (EStateM.Result Exception (Server env.Ciphertext) Unit) :=
  ⟨session env calls {}, .done (.ok () server), [], []⟩

/-- Both processes have returned, and nothing is left in the sockets. -/
def finish {env : Env} (results : List Bytes) (own : Client) (server : Server env.Ciphertext) :
    Dialogue.Connection UInt8 (EStateM.Result Exception Client (List Bytes))
      (EStateM.Result Exception (Server env.Ciphertext) Unit) :=
  ⟨.done (.ok results own), .done (.ok () server), [], []⟩

theorem nextCommand_serves (hSizes : ∀ x, (env.tfhe.exportSample x).length ≤ vectorMaxSize)
    {server server' : Server env.Ciphertext} {event : Event}
    (h : (protocol env).handles server event server') :
    nextCommand env tgsw (.ok () server) = some (handleCommand env tgsw server) ∧
      Talk.Feeds (handleCommand env tgsw server) ((protocol env).request event)
        (.sending ((protocol env).response event) (.done (.ok () server'))) := by
  obtain ⟨hRunning, hSent, hHandled⟩ := h
  exact ⟨if_pos hRunning, feeds_request hSizes hSent hHandled⟩

/-- In whatever order client and server run and however little the sockets hold, a session that
returns where they take turns returns, and the client ends with the answers of a RAM. -/
theorem session_converges (hCapacity : 0 < capacity) (hExact : env.tfhe.Exact)
    (hSizes : ∀ x, (env.tfhe.exportSample x).length ≤ vectorMaxSize)
    (hSetUp : (setUp env).run {} = .ok () w)
    (hRun : (calls.mapM (OnionRing.performCall env)).run w = .ok results w') :
    ∃ server own final total, (Server.init env).run {} = .ok () server ∧ final.running = false ∧
      ∀ count pair,
        Run (Connection.Moves (setting env tgsw _ capacity)) count (start env server calls) pair →
        ∃ missing, count + missing = total ∧
          Run (Connection.Moves (setting env tgsw _ capacity)) missing pair
            (finish ((Memory.zero env.cfg.blockSize.toNat).results calls) own final) := by
  have hReady := setUp_spec.post_of_run hSetUp
  obtain ⟨hResults, hCoherent⟩ :=
    (wp_iff.mp (performCalls_spec hReady.feasible hReady.coherent)).1 _ _ hRun
  obtain rfl := hResults hExact
  have hWhole : Whole env w' :=
    (Preserves.mapM fun call _ => performCall_lasting whole_lasting call).of_run hReady.whole
      (.inl ⟨_, hRun⟩)
  obtain ⟨_, connected, hInit, hConstruct⟩ := run_bind_eq_ok hSetUp
  obtain ⟨server, hServer, rfl⟩ := run_zoom_eq_ok hInit
  have hMirrors : Mirrors (view env) (protocol env)
      (onClient env (construct env) >>= fun _ => calls.mapM (performCall env))
      (construct env >>= fun _ => calls.mapM (OnionRing.performCall env)) :=
    private_construct.mirrors.bind fun _ => Mirrors.mapM (mirrors_performCall hSizes)
  have hQuit : (protocol env).handles w'.server ⟨.quit, .silent⟩
      { w'.server with running := false } :=
    ⟨hCoherent.shaped.running, trivial, rfl⟩
  obtain ⟨events, hTalks⟩ :=
    hMirrors.talks_last ((run_bind_of_ok hConstruct).trans hRun) hWhole.log hQuit rfl
  rw [bind_assoc] at hTalks
  have hReaches : Reaches (Connection.Moves (setting env tgsw _ capacity)) _ _ :=
    hTalks.reaches hCapacity fun _ _ _ => nextCommand_serves hSizes
  obtain ⟨total, hRuns⟩ := complete rfl rfl hReaches
  exact ⟨server, client w', { w'.server with running := false }, total, hServer, rfl, hRuns⟩

/-- Four calls with two evictions, and sockets that hold a single byte. -/
theorem session_converges_small : ∃ server own final total,
    (Server.init .small).run {} = .ok () server ∧ final.running = false ∧ ∀ count pair,
      Run (Connection.Moves (setting .small (Tgsw.plain 4) _ 1)) count
        (start .small server smallCalls) pair →
      ∃ missing, count + missing = total ∧
        Run (Connection.Moves (setting .small (Tgsw.plain 4) _ 1)) missing pair
          (finish [[0, 0], [5, 6], [7, 7], [5, 6]] own final) := by
  obtain ⟨w, results, w', hSetUp, hRun⟩ := run_small
  have hSizes (x : Env.small.Ciphertext) : (Env.small.tfhe.exportSample x).length ≤
      vectorMaxSize := by
    change (List.ofFn fun i => UInt8.ofNat (x i).val).length ≤ vectorMaxSize
    rw [List.length_ofFn]
    decide
  exact session_converges (by decide) (Tfhe.plain_exact 4) hSizes hSetUp hRun

end Sessions
end Process
end OramHub.OnionRing
