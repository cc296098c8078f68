import OramHub.OnionRing.Server

/-! # The Onion Ring client

The client alone knows which slot holds which block: `idMap` runs parallel to the tree of the
server. `World` is everything one client/server pair consists of; `log` records what the server saw.
-/
namespace OramHub.OnionRing
open OramHub.Core OramHub.Program
set_option autoImplicit false

structure Event where
  request : Request
  response : Response
  deriving DecidableEq, Repr

/-- `prng` and `noise` count the draws made so far. A dummy slot has the id -1. -/
structure World (C : Type) where
  numLeaves : UInt64 := 0
  positionMap : List UInt64 := []
  idMap : Nat → List Int := fun _ => []
  accessCount : UInt64 := 0
  evictionCounter : UInt64 := 0
  prng : Nat := 0
  noise : Nat := 0
  server : Server C := {}
  log : List Event := []

abbrev OnionM (env : Env) := EStateM Exception (World env.Ciphertext)

section Network

variable (env : Env)

/-- Sends a request and waits for the answer. A server that has left its command loop has
closed the connection. -/
def roundTrip (request : Request) : OnionM env Response := fun world =>
  if world.server.running then
    match (handleRequest env request).run world.server with
    | .ok response server =>
      .ok response { world with server := server, log := world.log ++ [⟨request, response⟩] }
    | .error _ server =>
      .error (.runtimeError "NetIO recv failed")
        { world with server := { server with running := false } }
  else .error (.runtimeError "NetIO send failed") world

def fetchPathSum (leaf : UInt64) (selections : List Nat) : OnionM env env.Ciphertext := do
  match ← roundTrip env (.access leaf (selections.map UInt64.ofNat)) with
  | .pathSum bytes => return env.tfhe.importSample bytes
  | _ => throw (.runtimeError "NetIO recv failed")

def fetchBucketCiphertexts (bucketIdx : Nat) : OnionM env (List env.Ciphertext) := do
  match ← roundTrip env (.readBucket (UInt64.ofNat bucketIdx)) with
  | .bucket slots =>
    let received ← (List.range env.cfg.slots).mapM (recvItem slots)
    return received.map env.tfhe.importSample
  | _ => throw (.runtimeError "NetIO recv failed")

def clearPathSlots (leaf : UInt64) (selections : List Nat) : OnionM env Unit := do
  let response ← roundTrip env (.clearPath leaf (selections.map UInt64.ofNat))
  throwIf (response ≠ .ack) (.runtimeError "Unexpected Onion Ring clear-path acknowledgment")

def writeBackSlot (bucketIdx slotIdx : Nat) (ciphertext : env.Ciphertext) : OnionM env Unit := do
  let bytes := env.tfhe.exportSample ciphertext
  let response ← roundTrip env (.writeSlot (UInt64.ofNat bucketIdx) (UInt64.ofNat slotIdx) bytes)
  throwIf (response ≠ .ack) (.runtimeError "Unexpected Onion Ring write-back acknowledgment")

def writeBucketCiphertexts (bucketIdx : Nat)
    (ciphertexts : List env.Ciphertext) : OnionM env Unit := do
  throwIf (ciphertexts.length ≠ env.cfg.slots) (.invalidArgument "Bucket ciphertext count mismatch")
  forM (List.range ciphertexts.length) fun slot => do
    let ciphertext ← recvItem ciphertexts slot
    writeBackSlot env bucketIdx slot ciphertext

end Network

section Randomness

variable (env : Env)

def getRandomLeaf : OnionM env UInt64 := do
  let world ← get
  set { world with prng := world.prng + 1 }
  return UInt64.ofNat (env.entropy.draw world.prng % world.numLeaves.toNat)

def makeRandomPermutation (size : Nat) : OnionM env (List Nat) := do
  let world ← get
  set { world with prng := world.prng + 1 }
  return List.ofFn fun dest => (env.entropy.shuffle world.prng size dest).val

def encryptBlock (block : Bytes) : OnionM env env.Ciphertext := do
  let poly ← fromExcept (encodeBlock env.cfg.tlweN block)
  let world ← get
  set { world with noise := world.noise + 1 }
  return env.tfhe.tLweSymEncrypt world.noise poly

end Randomness

section Permutation

variable {α : Type}

/-- `items[permutation[dest]]` for every `dest`. -/
def permute (what : Exception) (items : List α)
    (permutation : List Nat) : Except Exception (List α) :=
  permutation.mapM fun source =>
    match items[source]? with
    | some item => .ok item
    | none => .error what

def applyPermutationToIds (ids : List Int) (permutation : List Nat) : Except Exception (List Int) :=
  if ids.length ≠ permutation.length then .error
    (.invalidArgument "ID vector and permutation size mismatch")
  else permute (.outOfRange "Permutation index out of range") ids permutation

end Permutation

section Eviction

variable (env : Env)

def readPosition (positionMap : List UInt64) (i : Nat) : Except Exception UInt64 :=
  match positionMap[i]? with
  | some leaf => .ok leaf
  | none => .error (.undefinedBehavior "pos_map_[i]")

/-- A slot: the id in `idMap` and the ciphertext of the server. -/
abbrev Slot := Int × env.Ciphertext

/-- One round of the first loop of `TripletEvict`, which fills the left and the right input. -/
def routeBlock (positionMap : List UInt64) (childBitShift : Nat)
    (inputs : List (Slot env) × List (Slot env))
    (slot : Slot env) : Except Exception (List (Slot env) × List (Slot env)) :=
  if slot.1 < 0 then .ok inputs
  else do
    let leaf ← readPosition positionMap slot.1.toNat
    if pathBit leaf childBitShift ≠
      0 then return (inputs.1, inputs.2 ++ [(slot.1, env.tfhe.tLweCopy slot.2)])
    else return (inputs.1 ++ [(slot.1, env.tfhe.tLweCopy slot.2)], inputs.2)

/-- The blocks that a child bucket already holds. -/
def childBlocks (ids : List Int) (bucket : List env.Ciphertext) : List (Slot env) :=
  ((ids.zip bucket).filter fun slot => 0 ≤ slot.1).map fun slot =>
    (slot.1, env.tfhe.tLweCopy slot.2)

def padSlots (input : List (Slot env)) : List (Slot env) :=
  input ++ List.replicate (env.cfg.slots - input.length) (-1, env.tfhe.tLweClear)

def permuteCiphertexts (input : List env.Ciphertext) (permutation : List Nat) :
    Except Exception (List env.Ciphertext) := do
  let output ← permute (.undefinedBehavior "ciphertexts[permutation[dest]]") input permutation
  return output.map env.tfhe.tLweCopy

def setIds (bucketIdx : Nat) (ids : List Int) : OnionM env Unit :=
  modify fun world => { world with idMap := Function.update world.idMap bucketIdx ids }

def tripletEvict (sourceIdx leftIdx rightIdx : Nat) : OnionM env Unit := do
  let parentLevel := getNodeLevel sourceIdx
  let childBitShift := env.cfg.height - parentLevel - 1
  let sourceBucket ← fetchBucketCiphertexts env sourceIdx
  let leftChildBucket ← fetchBucketCiphertexts env leftIdx
  let rightChildBucket ← fetchBucketCiphertexts env rightIdx
  let world ← get
  let routed ← fromExcept
    (((world.idMap sourceIdx).zip sourceBucket).foldlM
      (routeBlock env world.positionMap childBitShift) ([], []))
  let leftInput := routed.1 ++ childBlocks env (world.idMap leftIdx) leftChildBucket
  let rightInput := routed.2 ++ childBlocks env (world.idMap rightIdx) rightChildBucket
  throwIf (env.cfg.slots < leftInput.length ∨ env.cfg.slots < rightInput.length)
    (.runtimeError "Triplet eviction overflowed child bucket capacity")
  let leftInput := padSlots env leftInput
  let rightInput := padSlots env rightInput
  let leftPermutation ← makeRandomPermutation env env.cfg.slots
  let rightPermutation ← makeRandomPermutation env env.cfg.slots
  let leftOutput ← fromExcept (permuteCiphertexts env (leftInput.map Prod.snd) leftPermutation)
  let rightOutput ← fromExcept (permuteCiphertexts env (rightInput.map Prod.snd) rightPermutation)
  let clearedSource := List.replicate env.cfg.slots env.tfhe.tLweClear
  writeBucketCiphertexts env leftIdx leftOutput
  writeBucketCiphertexts env rightIdx rightOutput
  writeBucketCiphertexts env sourceIdx clearedSource
  setIds env sourceIdx ((world.idMap sourceIdx).map fun _ => -1)
  let leftIds ← fromExcept (applyPermutationToIds (leftInput.map Prod.fst) leftPermutation)
  setIds env leftIdx leftIds
  let rightIds ← fromExcept (applyPermutationToIds (rightInput.map Prod.fst) rightPermutation)
  setIds env rightIdx rightIds

/-- One round of the first loop of `LeafRefresh`. -/
def refreshSlot (ciphertext : env.Ciphertext) : OnionM env env.Ciphertext := do
  let plaintext ← fromExcept (decryptBlock env.tfhe ciphertext env.cfg.blockSize)
  encryptBlock env plaintext

def leafRefresh (leafBucketIdx : Nat) : OnionM env Unit := do
  let bucket ← fetchBucketCiphertexts env leafBucketIdx
  let refreshedInput ← bucket.mapM (refreshSlot env)
  let permutation ← makeRandomPermutation env env.cfg.slots
  let world ← get
  let currentIds := world.idMap leafBucketIdx
  let refreshedOutput ← fromExcept (permuteCiphertexts env refreshedInput permutation)
  writeBucketCiphertexts env leafBucketIdx refreshedOutput
  let ids ← fromExcept (applyPermutationToIds currentIds permutation)
  setIds env leafBucketIdx ids

def evict : OnionM env Unit := do
  let world ← get
  let evictionLeaf := reverseBits (world.evictionCounter % world.numLeaves) env.cfg.height
  modify fun world => { world with evictionCounter := world.evictionCounter + 1 }
  let path := getPathIndices env.cfg evictionLeaf
  forM (List.range (path.length - 1)) fun depth => do
    let sourceIdx := path.getD depth 0
    tripletEvict env sourceIdx (2 * sourceIdx + 1) (2 * sourceIdx + 2)
  leafRefresh env (path.getLastD 0)

end Eviction

section Access

variable (env : Env)

/-- One round of the selection loop of `Access`. -/
def selectSlot (ids : List Int) (addr : UInt64) : Except Exception Nat :=
  let slot := findSlot ids (toBlockId addr)
  let slot := if slot = ids.length then findFirstDummySlot ids else slot
  if slot = ids.length then .error
    (.runtimeError "No available slot for access-only Onion Ring path") else .ok slot

def selectSlots (idMap : Nat → List Int) (path : List Nat) (addr : UInt64) :
    Except Exception (List Nat) :=
  path.mapM fun bucketIdx => selectSlot (idMap bucketIdx) addr

/-- `id_map_[path[i]][selections[i]] = -1` for every `i`. -/
def forget (idMap : Nat → List Int) (selected : List (Nat × Nat)) : Nat → List Int :=
  selected.foldl (fun idMap slot => Function.update idMap slot.1 ((idMap slot.1).set slot.2 (-1)))
    idMap

/-- The slot of the root that takes the block. -/
def chooseRootSlot (addr : UInt64) : OnionM env Nat := do
  let world ← get
  let rootSlot := findSlot (world.idMap 0) (toBlockId addr)
  let rootSlot := if rootSlot = (world.idMap 0).length then findFirstDummySlot
    (world.idMap 0) else rootSlot
  if rootSlot = (world.idMap 0).length then do
    evict env
    let world ← get
    return findFirstDummySlot (world.idMap 0)
  else return rootSlot

/-- The part of `Access` that puts the block into the root. -/
def writeBackBlock (addr : UInt64) (block : Bytes) : OnionM env Unit := do
  let rootSlot ← chooseRootSlot env addr
  let world ← get
  throwIf (rootSlot = (world.idMap 0).length)
    (.runtimeError "Root bucket is still full after eviction")
  let updated ← encryptBlock env block
  writeBackSlot env 0 rootSlot updated
  setIds env 0 ((world.idMap 0).set rootSlot (toBlockId addr))

/-- `Access` without its checks and the eviction at its end. -/
def updateBlock (op : Op) (addr : UInt64) (data : Bytes) : OnionM env Bytes := do
  let world ← get
  let oldLeaf ← fromExcept (readPosition world.positionMap addr.toNat)
  let newLeaf ← getRandomLeaf env
  modify fun world => { world with positionMap := world.positionMap.set addr.toNat newLeaf }
  let path := getPathIndices env.cfg oldLeaf
  let selections ← fromExcept (selectSlots world.idMap path addr)
  let pathSum ← fetchPathSum env oldLeaf selections
  clearPathSlots env oldLeaf selections
  modify fun world => { world with idMap := forget world.idMap (path.zip selections) }
  let block ← fromExcept (decryptBlock env.tfhe pathSum env.cfg.blockSize)
  let result := if op = .write then data else block
  writeBackBlock env addr result
  modify fun world => { world with accessCount := world.accessCount + 1 }
  return result

def access (op : Op) (addr : UInt64) (data : Bytes) : OnionM env Bytes := do
  throwIf (env.cfg.numBlocks ≤ addr) (.outOfRange "Address out of range")
  throwIf (op = .write ∧ data.length ≠ env.cfg.blockSize.toNat)
    (.invalidArgument "Write size does not match block size")
  let result ← updateBlock env op addr data
  let world ← get
  if env.cfg.a ≠ 0 ∧ world.accessCount % env.cfg.a = 0 then evict env
  return result

end Access

section Construction

variable (env : Env)

def withServer {α : Type} (x : ServerM env α) : OnionM env α :=
  zoom World.server (fun world server => { world with server := server }) x

def construct : OnionM env Unit := do
  let numNodes ← fromExcept env.cfg.numTreeNodes
  let numLeaves ← fromExcept env.cfg.numLeaves
  checkVectorSize env.cfg.numBlocks.toNat 8 tooLarge
  checkVectorSize env.cfg.slots 8 tooLarge
  checkVectorSize numNodes.toNat 24 tooLarge
  modify fun world =>
    { world with
      numLeaves := numLeaves
      idMap := fun b => if b < numNodes.toNat then List.replicate env.cfg.slots (-1) else [] }
  let positionMap ← (List.range env.cfg.numBlocks.toNat).mapM fun _ => getRandomLeaf env
  modify fun world => { world with positionMap := positionMap }

/-- A server after `Init` and a client. -/
def setUp : OnionM env Unit := do
  withServer env (Server.init env)
  construct env

end Construction
end OramHub.OnionRing
