import OramHub.Lib.Endpoint
import OramHub.Network.Processes
import OramHub.OnionRing.Rejection

/-! # The Onion Ring server, byte by byte

The handlers read their requests field by field and decide by what they have read how to go on. No
request says how many selections it has, the height of the tree does. In the midst of 'L' the server
answers with a bucket and waits for another one.
-/
namespace OramHub.OnionRing
open OramHub.Core OramHub.Program OramHub.LittleEndian OramHub.Network OramHub.Dialogue
open OramHub.Dialogue.TalkM
set_option autoImplicit false

/-! ## The server's process -/

abbrev ServerP (env : Env) := TalkM Exception (Server env.Ciphertext) UInt8

namespace Process

section Handlers

variable (env : Env) (tgsw : Tgsw env.tfhe)

def recvSelection (what : String) : ServerP env UInt64 := do
  let selection ← Process.recvUint64
  locally (throwIf (env.cfg.bucketSlots ≤ selection) (.outOfRange what))
  return selection

def handleAccess : ServerP env Unit := do
  let leaf ← Process.recvUint64
  let path := getPathIndices env.cfg leaf
  let selections ← TalkM.many (recvSelection env "Selection index out of range") path.length
  let server ← locally get
  let accumulator ← locally
    (fromExcept ((path.zip selections).foldlM (accumulate env server.tree) env.tfhe.tLweClear))
  TalkM.send (sendVec (env.tfhe.exportSample accumulator))

/-- The step of `HandleClearPath` that works on the tree. -/
def clearSelected (node : Nat) (selection : UInt64) : ServerM env Unit := do
  let server ← get
  let _ ← fromExcept (readSlot env server.tree node selection.toNat)
  set (server.setSlot node selection.toNat env.tfhe.tLweClear)

/-- One round of the loop of `HandleClearPath`. -/
def clearSlot (path : List Nat) (i : Nat) : ServerP env Unit := do
  let selection ← recvSelection env "Clear-path selection index out of range"
  locally (clearSelected env (path.getD i 0) selection)

def handleClearPath : ServerP env Unit := do
  let leaf ← Process.recvUint64
  let path := getPathIndices env.cfg leaf
  forM (List.range path.length) (clearSlot env path)
  TalkM.send ['K'.toUInt8]

def sendSlots (slots : List env.Ciphertext) : ServerP env Unit :=
  forM slots fun slot => TalkM.send (sendVec (env.tfhe.exportSample slot))

def handleReadBucket : ServerP env Unit := do
  let bucketIdx ← Process.recvUint64
  let server ← locally get
  locally (throwIf (server.treeSize ≤ bucketIdx.toNat)
    (.outOfRange "Read bucket index out of range"))
  sendSlots env (server.tree bucketIdx.toNat)

def handleWriteSlot : ServerP env Unit := do
  let bucketIdx ← Process.recvUint64
  let slotIdx ← Process.recvUint64
  let server ← locally get
  locally (throwIf (server.treeSize ≤ bucketIdx.toNat ∨
    (server.tree bucketIdx.toNat).length ≤ slotIdx.toNat)
    (.outOfRange "Write slot target out of range"))
  let bytes ← Process.recvVec
  locally (set (server.setSlot bucketIdx.toNat slotIdx.toNat (env.tfhe.importSample bytes)))
  TalkM.send ['K'.toUInt8]

def receiveSwapBits (bitCount : UInt64) : ServerP env (List tgsw.Ciphertext) := do
  locally (checkVectorSize bitCount.toNat 16 "vector::reserve")
  let received ← TalkM.many Process.recvVec bitCount.toNat
  return received.map tgsw.importSample

/-- The part of `receive_child_update` that works on the tree. -/
def updateChild (sourceIdx childIdx : Nat) (sourceSlots childSlots : List UInt64)
    (swapBits : List tgsw.Ciphertext) :
    ServerM env Unit := do
  let server ← get
  let assembled ← fromExcept
    (assembleChildSlots env (server.tree sourceIdx) sourceSlots (server.tree childIdx)
      childSlots env.cfg.slots)
  let output ← fromExcept (WaksmanNetwork.evalWaksman tgsw assembled (swapBits.map some))
  replaceBucket env childIdx output

/-- The lambda of `HandleEvictTriplet`. -/
def receiveChildUpdate (sourceIdx childIdx : Nat) : ServerP env Unit := do
  let sourceBytes ← Process.recvVec
  let childBytes ← Process.recvVec
  let sourceSlots ← locally (fromExcept (deserializeUint64Vector sourceBytes))
  let childSlots ← locally (fromExcept (deserializeUint64Vector childBytes))
  let bitCount ← Process.recvUint64
  let swapBits ← receiveSwapBits env tgsw bitCount
  locally (updateChild env tgsw sourceIdx childIdx sourceSlots childSlots swapBits)

def handleEvictTriplet : ServerP env Unit := do
  let sourceIdx ← Process.recvUint64
  let leftIdx ← Process.recvUint64
  let rightIdx ← Process.recvUint64
  let server ← locally get
  locally (throwIf
    (server.treeSize ≤ sourceIdx.toNat ∨ server.treeSize ≤ leftIdx.toNat ∨
      server.treeSize ≤ rightIdx.toNat)
    (.outOfRange "Triplet bucket index out of range"))
  receiveChildUpdate env tgsw sourceIdx.toNat leftIdx.toNat
  receiveChildUpdate env tgsw sourceIdx.toNat rightIdx.toNat
  locally (modify fun server =>
    { server with
      tree := Function.update server.tree sourceIdx.toNat
        ((server.tree sourceIdx.toNat).map fun _ => env.tfhe.tLweClear) })
  TalkM.send ['K'.toUInt8]

/-- The part of `HandleLeafRefresh` that works on the tree. -/
def refreshBucket (bucketIdx : Nat) (slots : List Bytes)
    (swapBits : List tgsw.Ciphertext) : ServerM env Unit := do
  let output ← fromExcept
    (WaksmanNetwork.evalWaksman tgsw (slots.map env.tfhe.importSample) (swapBits.map some))
  replaceBucket env bucketIdx output

def handleLeafRefresh : ServerP env Unit := do
  let bucketIdx ← Process.recvUint64
  let server ← locally get
  locally (throwIf (server.treeSize ≤ bucketIdx.toNat)
    (.outOfRange "Leaf refresh bucket index out of range"))
  TalkM.send ['B'.toUInt8]
  sendSlots env (server.tree bucketIdx.toNat)
  let refreshCommand ← Process.recvData 1
  locally (throwIf (refreshCommand ≠ ['F'.toUInt8])
    (.runtimeError "Expected leaf refresh payload command"))
  let slots ← TalkM.many Process.recvVec env.cfg.slots
  let bitCount ← Process.recvUint64
  let swapBits ← receiveSwapBits env tgsw bitCount
  locally (refreshBucket env tgsw bucketIdx.toNat slots swapBits)
  TalkM.send ['K'.toUInt8]

/-- One round of `HandleRequests` after its first byte, which decides what is read next. -/
def dispatch (command : Bytes) : ServerP env Unit :=
  if command = ['Q'.toUInt8] then locally (modify fun server => { server with running := false })
  else if command = ['A'.toUInt8] then handleAccess env
  else if command = ['C'.toUInt8] then handleClearPath env
  else if command = ['R'.toUInt8] then handleReadBucket env
  else if command = ['U'.toUInt8] then handleWriteSlot env
  else if command = ['T'.toUInt8] then handleEvictTriplet env tgsw
  else if command = ['L'.toUInt8] then handleLeafRefresh env tgsw
  else locally (throw (.runtimeError "Unknown Onion Ring server command"))

def handleCommand : ServerP env Unit := do
  let command ← Process.recvData 1
  dispatch env tgsw command

/-- The loop of `HandleRequests`: a command that has thrown is the last one. -/
def nextCommand : EStateM.Result Exception (Server env.Ciphertext) Unit →
    Option (Talk UInt8 (EStateM.Result Exception (Server env.Ciphertext) Unit))
  | .ok _ server => if server.running then some (handleCommand env tgsw server) else none
  | .error _ _ => none

end Handlers

end Process

/-! ## What the bytes of a command say -/

/-- The commands that the server answers. `leafRefresh` comes with what the peer sends after it has
received the bucket. -/
inductive Command
  | access (leaf : UInt64) (selections : List UInt64)
  | clearPath (leaf : UInt64) (selections : List UInt64)
  | readBucket (bucketIdx : UInt64)
  | writeSlot (bucketIdx slotIdx : UInt64) (bytes : Bytes)
  | evictTriplet (sourceIdx leftIdx rightIdx : UInt64) (left right : ChildUpdate)
  | leafRefresh (bucketIdx : UInt64) (payload : RefreshPayload)

def encodeBits (bitCount : UInt64) (swapBits : List Bytes) : Bytes :=
  encodeWord bitCount ++ swapBits.flatMap sendVec

def ChildUpdate.encode (update : ChildUpdate) : Bytes :=
  sendVec update.sourceBytes ++
    (sendVec update.childBytes ++ encodeBits update.bitCount update.swapBits)

def RefreshPayload.encode (payload : RefreshPayload) : Bytes :=
  [payload.command.toUInt8] ++
    (payload.slots.flatMap sendVec ++ encodeBits payload.bitCount payload.swapBits)

def Command.encode : Command → Bytes
  | .access leaf selections => ['A'.toUInt8] ++ (encodeWord leaf ++ selections.flatMap encodeWord)
  | .clearPath leaf selections =>
    ['C'.toUInt8] ++ (encodeWord leaf ++ selections.flatMap encodeWord)
  | .readBucket bucketIdx => ['R'.toUInt8] ++ encodeWord bucketIdx
  | .writeSlot bucketIdx slotIdx bytes =>
    ['U'.toUInt8] ++ (encodeWord bucketIdx ++ (encodeWord slotIdx ++ sendVec bytes))
  | .evictTriplet sourceIdx leftIdx rightIdx left right =>
    ['T'.toUInt8] ++
      (encodeWord sourceIdx ++
        (encodeWord leftIdx ++ (encodeWord rightIdx ++ (left.encode ++ right.encode))))
  | .leafRefresh bucketIdx payload => ['L'.toUInt8] ++ (encodeWord bucketIdx ++ payload.encode)

/-- The bytes a client sends for a request. -/
def Request.encode : Request → Bytes
  | .access leaf selections => (Command.access leaf selections).encode
  | .clearPath leaf selections => (Command.clearPath leaf selections).encode
  | .readBucket bucketIdx => (Command.readBucket bucketIdx).encode
  | .writeSlot bucketIdx slotIdx bytes => (Command.writeSlot bucketIdx slotIdx bytes).encode
  | .quit => ['Q'.toUInt8]

def Response.encode : Response → Bytes
  | .pathSum bytes => sendVec bytes
  | .bucket slots => slots.flatMap sendVec
  | .ack => ['K'.toUInt8]
  | .silent => []

/-- As many swap bits as announced, each of them in a vector. -/
structure SendableBits (bitCount : UInt64) (swapBits : List Bytes) : Prop where
  count : swapBits.length = bitCount.toNat
  sizes : ∀ bytes ∈ swapBits, bytes.length ≤ vectorMaxSize

structure ChildUpdate.Sendable (update : ChildUpdate) : Prop where
  source : update.sourceBytes.length ≤ vectorMaxSize
  child : update.childBytes.length ≤ vectorMaxSize
  bits : SendableBits update.bitCount update.swapBits

structure RefreshPayload.Sendable (cfg : RuntimeConfig) (payload : RefreshPayload) : Prop where
  command : payload.command = 'F'
  slots : payload.slots.length = cfg.slots
  sizes : ∀ bytes ∈ payload.slots, bytes.length ≤ vectorMaxSize
  bits : SendableBits payload.bitCount payload.swapBits

/-- Commands that have as many fields as the server reads, with payloads that fit into vectors. -/
def Command.Sendable (cfg : RuntimeConfig) : Command → Prop
  | .access _ selections => selections.length = cfg.height + 1
  | .clearPath _ selections => selections.length = cfg.height + 1
  | .readBucket _ => True
  | .writeSlot _ _ bytes => bytes.length ≤ vectorMaxSize
  | .evictTriplet _ _ _ left right => left.Sendable ∧ right.Sendable
  | .leafRefresh _ payload => payload.Sendable cfg

/-- The bytes that the server sends for a command. -/
def answer (env : Env) (tgsw : Tgsw env.tfhe) : Command → ServerM env Bytes
  | .access leaf selections => do
    let response ← handleAccess env leaf selections
    return response.encode
  | .clearPath leaf selections => do
    let response ← handleClearPath env leaf selections
    return response.encode
  | .readBucket bucketIdx => do
    let response ← handleReadBucket env bucketIdx
    return response.encode
  | .writeSlot bucketIdx slotIdx bytes => do
    let response ← handleWriteSlot env bucketIdx slotIdx bytes
    return response.encode
  | .evictTriplet sourceIdx leftIdx rightIdx left right => do
    let response ← handleEvictTriplet env tgsw sourceIdx leftIdx rightIdx left right
    return response.encode
  | .leafRefresh bucketIdx payload => do
    let server ← get
    let response ← handleLeafRefresh env tgsw bucketIdx fun _ => payload
    return ['B'.toUInt8] ++
      (((server.tree bucketIdx.toNat).map env.tfhe.exportSample).flatMap sendVec ++ response.encode)

/-! ## The process answers what the handlers answer -/

section Answers

variable {env : Env} {tgsw : Tgsw env.tfhe} {server server' : Server env.Ciphertext} {leaf : UInt64}
  {selections : List UInt64}
  {response : Response}

theorem answers_recvSelection (what : String) {selection : UInt64}
    (h : selection.toNat < env.cfg.slots) :
    Answers (Process.recvSelection env what) server (encodeWord selection) [] selection server := by
  rw [← List.append_nil (encodeWord selection)]
  refine Answers.reads_bind Process.reads_recvUint64 (takes_recvUint64 selection)
    (Answers.check_bind ?_ (Answers.pure _ _))
  rw [UInt64.le_iff_toNat_le]
  exact Nat.not_le.mpr h

theorem recvSelections_outcome (what : String) {count : Nat} (hLength : selections.length = count) :
    wp ((List.range count).mapM (recvSelection env what selections)) server
      (fun received server' => received = selections ∧
        (∀ selection ∈ selections, selection.toNat < env.cfg.slots) ∧ server' = server)
      fun _ server' => server' = server := by
  have hRound : ∀ i ∈ List.range count, ∀ s, s = server → wp (recvSelection env what selections i) s
      (fun selection s' => (selections[i]? = some selection ∧ selection.toNat < env.cfg.slots) ∧
          s' = server) fun _ s' => s' = server := by
    rintro i _ _ rfl
    exact wp_mono (recvSelection_outcome what) (fun _ _ hReceived =>
      ⟨⟨hReceived.1, hReceived.2.1⟩, hReceived.2.2⟩) fun _ _ h => h.2
  apply wp_mono (wp.mapM (fun s => s = server) _ rfl hRound) ?_ fun _ _ => id
  rintro received _ ⟨hReceived, rfl⟩
  have hCount : received.length = count := by simpa using hReceived.length_eq
  have hGet (i : Nat) (hi : i < received.length) :
      selections[i]? = some received[i] ∧ received[i].toNat < env.cfg.slots := by
    have hRelated := hReceived.get hi (by simpa [hCount] using hi)
    simpa using hRelated
  have hSame : received = selections := by
    apply List.ext_getElem (hCount.trans hLength.symm)
    intro i hi hi'
    have hItem := (hGet i hi).1
    rw [List.getElem?_eq_getElem hi'] at hItem
    exact (Option.some.inj hItem).symm
  subst hSame
  refine ⟨rfl, fun selection hSelection => ?_, rfl⟩
  obtain ⟨i, hi, rfl⟩ := List.getElem_of_mem hSelection
  exact (hGet i hi).2

theorem answers_handleAccess (hLength : selections.length = env.cfg.height + 1)
    (hRun : (handleAccess env leaf selections).run server = .ok response server') :
    Answers (Process.handleAccess env) server (encodeWord leaf ++ selections.flatMap encodeWord)
      response.encode () server' := by
  have hPath : selections.length = (getPathIndices env.cfg leaf).length :=
    hLength.trans (length_getPathIndices _ _).symm
  obtain ⟨wanted, middle, hWanted, hRest⟩ := run_bind_eq_ok hRun
  obtain ⟨rfl, hRange, rfl⟩ :=
    (wp_iff.mp (recvSelections_outcome "Selection index out of range" hPath)).1 _ _ hWanted
  obtain ⟨_, _, hGet, hSum⟩ := run_bind_eq_ok hRest
  cases hGet
  obtain ⟨accumulator, _, hAccumulate, hReturn⟩ := run_bind_eq_ok hSum
  obtain ⟨hAccumulate, rfl⟩ := run_fromExcept_eq_ok hAccumulate
  cases hReturn
  refine Answers.reads_bind Process.reads_recvUint64 (takes_recvUint64 leaf) ?_
  dsimp only
  rw [← hPath, ← List.append_nil (wanted.flatMap encodeWord)]
  refine Answers.silent_bind (Answers.many fun selection hSelection =>
    answers_recvSelection _ (hRange selection hSelection)) ?_
  exact Answers.get_bind (Answers.fromExcept_bind hAccumulate (Answers.send _ _))

theorem answers_clearSlot {path : List Nat} {i : Nat} {selection : UInt64}
    (hItem : selections[i]? = some selection)
    (hRun : (clearSlot env path selections i).run server = .ok () server') :
    Answers (Process.clearSlot env path i) server (encodeWord selection) [] () server' := by
  obtain ⟨received, _, hReceived, hRest⟩ := run_bind_eq_ok hRun
  obtain ⟨hSame, hRange, rfl⟩ :=
    (wp_iff.mp (recvSelection_outcome "Clear-path selection index out of range")).1 _ _ hReceived
  obtain rfl := Option.some.inj (hItem.symm.trans hSame)
  rw [← List.append_nil (encodeWord selection)]
  exact (answers_recvSelection _ hRange).silent_bind (Answers.of_run hRest)

theorem answers_handleClearPath (hLength : selections.length = env.cfg.height + 1)
    (hRun : (handleClearPath env leaf selections).run server = .ok response server') :
    Answers (Process.handleClearPath env) server (encodeWord leaf ++ selections.flatMap encodeWord)
      response.encode () server' := by
  have hPath : (getPathIndices env.cfg leaf).length = selections.length :=
    (length_getPathIndices _ _).trans hLength.symm
  obtain ⟨_, _, hLoop, hReturn⟩ := run_bind_eq_ok hRun
  cases hReturn
  have hSlots := Answers.forM_range (fun i selection s s' hItem hClear =>
    answers_clearSlot hItem hClear) hPath.le hLoop
  rw [hPath, List.take_length, ← hPath] at hSlots
  refine Answers.reads_bind Process.reads_recvUint64 (takes_recvUint64 leaf) ?_
  rw [← List.append_nil (selections.flatMap encodeWord)]
  exact hSlots.silent_bind (Answers.send _ _)

theorem answers_sendSlots (slots : List env.Ciphertext) :
    Answers (Process.sendSlots env slots) server []
      ((slots.map env.tfhe.exportSample).flatMap sendVec) () server := by
  rw [List.flatMap_map]
  exact Answers.forM_send _ server

theorem answers_handleReadBucket {bucketIdx : UInt64}
    (hRun : (handleReadBucket env bucketIdx).run server = .ok response server') :
    Answers (Process.handleReadBucket env) server (encodeWord bucketIdx)
      response.encode () server' := by
  obtain ⟨_, _, hGet, hRest⟩ := run_bind_eq_ok hRun
  cases hGet
  obtain ⟨_, _, hCheck, hReturn⟩ := run_bind_eq_ok hRest
  obtain ⟨hIndex, rfl⟩ := run_throwIf_eq_ok hCheck
  cases hReturn
  rw [← List.append_nil (encodeWord bucketIdx)]
  refine Answers.reads_bind Process.reads_recvUint64 (takes_recvUint64 bucketIdx)
    (Answers.get_bind (Answers.check_bind hIndex ?_))
  exact answers_sendSlots _

theorem answers_handleWriteSlot {bucketIdx slotIdx : UInt64} {bytes : Bytes}
    (hSize : bytes.length ≤ vectorMaxSize)
    (hRun : (handleWriteSlot env bucketIdx slotIdx bytes).run server = .ok response server') :
    Answers (Process.handleWriteSlot env) server
      (encodeWord bucketIdx ++ (encodeWord slotIdx ++ sendVec bytes)) response.encode ()
      server' := by
  obtain ⟨_, _, hGet, hRest⟩ := run_bind_eq_ok hRun
  cases hGet
  obtain ⟨_, _, hCheck, hSet⟩ := run_bind_eq_ok hRest
  obtain ⟨hTarget, rfl⟩ := run_throwIf_eq_ok hCheck
  cases hSet
  refine Answers.reads_bind Process.reads_recvUint64 (takes_recvUint64 bucketIdx) ?_
  refine Answers.reads_bind Process.reads_recvUint64 (takes_recvUint64 slotIdx)
    (Answers.get_bind (Answers.check_bind hTarget ?_))
  rw [← List.append_nil (sendVec bytes)]
  exact Answers.reads_bind Process.reads_recvVec (takes_recvVec hSize)
    (Answers.local_bind rfl (Answers.send _ _))

theorem answers_recvVecs {σ : Type} {s : σ} {items : List Bytes}
    (hSizes : ∀ bytes ∈ items, bytes.length ≤ vectorMaxSize) :
    Answers (TalkM.many Process.recvVec items.length) s (items.flatMap sendVec) [] items s :=
  Answers.many fun bytes hBytes =>
    Answers.of_takes Process.reads_recvVec (takes_recvVec (hSizes bytes hBytes))

theorem answers_receiveSwapBits {bitCount : UInt64} {swapBits : List Bytes}
    {bits : List tgsw.Ciphertext} (hSendable : SendableBits bitCount swapBits)
    (hRun : (receiveSwapBits env tgsw bitCount swapBits).run server = .ok bits server') :
    server' = server ∧
    Answers (Process.receiveSwapBits env tgsw bitCount) server
      (swapBits.flatMap sendVec) [] bits server := by
  obtain ⟨hRoom, _, rfl, rfl⟩ := (wp_iff.mp (receiveSwapBits_outcome bitCount swapBits)).1 _ _ hRun
  refine ⟨rfl, Answers.check_bind (Nat.not_lt.mpr hRoom) ?_⟩
  rw [← hSendable.count, List.take_length, ← List.append_nil (swapBits.flatMap sendVec)]
  exact (answers_recvVecs hSendable.sizes).silent_bind (Answers.pure _ _)

theorem answers_receiveChildUpdate {source child : Nat} {update : ChildUpdate}
    (hSendable : update.Sendable)
    (hRun : (receiveChildUpdate env tgsw source child update).run server = .ok () server') :
    Answers (Process.receiveChildUpdate env tgsw source child) server
      update.encode [] () server' := by
  obtain ⟨sourceSlots, _, hDecode, hAfterSource⟩ := run_bind_eq_ok hRun
  obtain ⟨hSource, rfl⟩ := run_fromExcept_eq_ok hDecode
  obtain ⟨childSlots, _, hDecode', hAfterChild⟩ := run_bind_eq_ok hAfterSource
  obtain ⟨hChild, rfl⟩ := run_fromExcept_eq_ok hDecode'
  obtain ⟨bits, _, hBits, hUpdate⟩ := run_bind_eq_ok hAfterChild
  obtain ⟨rfl, hAnswers⟩ := answers_receiveSwapBits hSendable.bits hBits
  refine Answers.reads_bind Process.reads_recvVec (takes_recvVec hSendable.source) ?_
  refine Answers.reads_bind Process.reads_recvVec (takes_recvVec hSendable.child) ?_
  refine Answers.fromExcept_bind hSource (Answers.fromExcept_bind hChild ?_)
  refine Answers.reads_bind Process.reads_recvUint64 (takes_recvUint64 update.bitCount) ?_
  rw [← List.append_nil (update.swapBits.flatMap sendVec)]
  exact hAnswers.silent_bind (Answers.of_run hUpdate)

theorem answers_handleEvictTriplet {sourceIdx leftIdx rightIdx : UInt64} {left right : ChildUpdate}
    (hLeft : left.Sendable) (hRight : right.Sendable)
    (hRun : (handleEvictTriplet env tgsw sourceIdx leftIdx rightIdx left right).run server =
      .ok response server') :
    Answers (Process.handleEvictTriplet env tgsw) server
      (encodeWord sourceIdx ++
        (encodeWord leftIdx ++ (encodeWord rightIdx ++ (left.encode ++ right.encode))))
        response.encode ()
      server' := by
  obtain ⟨_, _, hGet, hAfterGet⟩ := run_bind_eq_ok hRun
  cases hGet
  obtain ⟨_, _, hCheck, hAfterCheck⟩ := run_bind_eq_ok hAfterGet
  obtain ⟨hNodes, rfl⟩ := run_throwIf_eq_ok hCheck
  obtain ⟨_, middle, hFirst, hAfterFirst⟩ := run_bind_eq_ok hAfterCheck
  obtain ⟨_, final, hSecond, hClear⟩ := run_bind_eq_ok hAfterFirst
  cases hClear
  refine Answers.reads_bind Process.reads_recvUint64 (takes_recvUint64 sourceIdx) ?_
  refine Answers.reads_bind Process.reads_recvUint64 (takes_recvUint64 leftIdx) ?_
  refine Answers.reads_bind Process.reads_recvUint64 (takes_recvUint64 rightIdx)
    (Answers.get_bind (Answers.check_bind hNodes ?_))
  refine (answers_receiveChildUpdate hLeft hFirst).silent_bind ?_
  rw [← List.append_nil right.encode]
  exact (answers_receiveChildUpdate hRight hSecond).silent_bind
    (Answers.local_bind rfl (Answers.send _ _))

theorem answers_handleLeafRefresh {bucketIdx : UInt64} {payload : RefreshPayload}
    (hSendable : payload.Sendable env.cfg)
    (hRun : (handleLeafRefresh env tgsw bucketIdx fun _ => payload).run server =
      .ok response server') :
    Answers (Process.handleLeafRefresh env tgsw) server (encodeWord bucketIdx ++ payload.encode)
      (['B'.toUInt8] ++
        (((server.tree bucketIdx.toNat).map env.tfhe.exportSample).flatMap sendVec ++
          response.encode)) () server' := by
  obtain ⟨_, _, hGet, hAfterGet⟩ := run_bind_eq_ok hRun
  cases hGet
  obtain ⟨_, _, hCheck, hAfterCheck⟩ := run_bind_eq_ok hAfterGet
  obtain ⟨hIndex, rfl⟩ := run_throwIf_eq_ok hCheck
  obtain ⟨_, _, hCheck', hAfterCommand⟩ := run_bind_eq_ok hAfterCheck
  obtain ⟨_, rfl⟩ := run_throwIf_eq_ok hCheck'
  obtain ⟨slots, _, hSlots, hAfterSlots⟩ := run_bind_eq_ok hAfterCommand
  obtain ⟨_, rfl, rfl⟩ := (wp_iff.mp (recvItems_outcome payload.slots env.cfg.slots)).1 _ _ hSlots
  obtain ⟨bits, _, hBits, hAfterBits⟩ := run_bind_eq_ok hAfterSlots
  obtain ⟨rfl, hAnswers⟩ := answers_receiveSwapBits hSendable.bits hBits
  obtain ⟨output, _, hOutput, hReplace⟩ := run_bind_eq_ok hAfterBits
  obtain ⟨_, final, hReplaced, hReturn⟩ := run_bind_eq_ok hReplace
  cases hReturn
  rw [← hSendable.slots, List.take_length] at hOutput
  have hRefresh : (Process.refreshBucket env tgsw bucketIdx.toNat payload.slots bits).run _ =
      .ok () server' :=
    (run_bind_of_ok hOutput).trans hReplaced
  have hCommand : Streams.Takes (recvData 1) [payload.command.toUInt8] [payload.command.toUInt8] :=
    Streams.Takes.take _ [payload.command.toUInt8]
  refine Answers.reads_bind Process.reads_recvUint64 (takes_recvUint64 bucketIdx)
    (Answers.get_bind (Answers.check_bind hIndex ?_))
  refine Answers.send_bind _ (Answers.speaking_bind (answers_sendSlots _) ?_)
  refine Answers.reads_bind (Process.reads_recvData 1) hCommand (Answers.check_bind ?_ ?_)
  · rw [hSendable.command]
    exact not_not.mpr rfl
  · rw [← hSendable.slots]
    refine (answers_recvVecs hSendable.sizes).silent_bind ?_
    refine Answers.reads_bind Process.reads_recvUint64 (takes_recvUint64 payload.bitCount) ?_
    rw [← List.append_nil (payload.swapBits.flatMap sendVec)]
    exact hAnswers.silent_bind (Answers.local_bind hRefresh (Answers.send _ _))

theorem answers_handleCommand {command : UInt8} {chunk reply : Bytes}
    (h : Answers (Process.dispatch env tgsw [command]) server chunk reply () server') :
    Answers (Process.handleCommand env tgsw) server ([command] ++ chunk) reply () server' :=
  Answers.reads_bind (Process.reads_recvData 1) (Streams.Takes.take _ [command]) h

/-- A command that the handlers answer is answered by the process, from exactly the bytes that spell
it. -/
theorem answers_command {command : Command} {reply : Bytes} (hSendable : command.Sendable env.cfg)
    (hRun : (answer env tgsw command).run server = .ok reply server') :
    Answers (Process.handleCommand env tgsw) server command.encode reply () server' := by
  cases command with
  | access leaf selections =>
    obtain ⟨response, _, hHandled, hReturn⟩ := run_bind_eq_ok hRun
    cases hReturn
    exact answers_handleCommand (answers_handleAccess hSendable hHandled)
  | clearPath leaf selections =>
    obtain ⟨response, _, hHandled, hReturn⟩ := run_bind_eq_ok hRun
    cases hReturn
    exact answers_handleCommand (answers_handleClearPath hSendable hHandled)
  | readBucket bucketIdx =>
    obtain ⟨response, _, hHandled, hReturn⟩ := run_bind_eq_ok hRun
    cases hReturn
    exact answers_handleCommand (answers_handleReadBucket hHandled)
  | writeSlot bucketIdx slotIdx bytes =>
    obtain ⟨response, _, hHandled, hReturn⟩ := run_bind_eq_ok hRun
    cases hReturn
    exact answers_handleCommand (answers_handleWriteSlot hSendable hHandled)
  | evictTriplet sourceIdx leftIdx rightIdx left right =>
    obtain ⟨response, _, hHandled, hReturn⟩ := run_bind_eq_ok hRun
    cases hReturn
    exact answers_handleCommand (answers_handleEvictTriplet hSendable.1 hSendable.2 hHandled)
  | leafRefresh bucketIdx payload =>
    obtain ⟨_, _, hGet, hRest⟩ := run_bind_eq_ok hRun
    cases hGet
    obtain ⟨response, _, hHandled, hReturn⟩ := run_bind_eq_ok hRest
    cases hReturn
    exact answers_handleCommand (answers_handleLeafRefresh hSendable hHandled)

theorem answers_quit (server : Server env.Ciphertext) :
    Answers (Process.handleCommand env tgsw) server ['Q'.toUInt8] [] ()
      { server with running := false } :=
  @answers_handleCommand env tgsw server _ 'Q'.toUInt8 [] [] (Answers.of_run rfl)

end Answers
end OramHub.OnionRing
