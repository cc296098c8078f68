import OramHub.PathOram.Server

/-! # The Path ORAM client

`World` is everything one client/server pair consists of; `log` records what the server saw. The
position map is a vector that the code indexes without a check.
-/
namespace OramHub.PathOram
open OramHub.Core OramHub.Program
set_option autoImplicit false

structure Event where
  request : Request
  response : Response
  deriving DecidableEq, Repr

/-- `prng` and `ivs` count the draws made so far. -/
structure World where
  numLeaves : UInt64 := 0
  stash : List Block := []
  positionMap : List UInt64 := []
  prng : Nat := 0
  ivs : Nat := 0
  server : Server := {}
  log : List Event := []

abbrev PathM := EStateM Exception World

def withServer {α : Type} (x : ServerM α) : PathM α :=
  zoom World.server (fun world server => { world with server := server }) x

section Network

variable (env : Env)

/-- The client waits for an answer to this request. -/
def Request.answered : Request → Bool
  | .readBucket _ => true
  | .writeBucket _ _ => false
  | .readPath _ _ => true
  | .writePath _ _ => true
  | .quit => false

/-- Sends a request and waits for the answer, if there is one. A server that has left its command
loop has closed the connection. -/
def roundTrip (request : Request) : PathM Response := fun world =>
  if world.server.running then
    match (handleRequest env request).run world.server with
    | .ok response server =>
      .ok response { world with server := server, log := world.log ++ [⟨request, response⟩] }
    | .error _ server =>
      let closed := { world with server := { server with running := false } }
      if request.answered then .error (.runtimeError "NetIO recv failed") closed
        else .ok .silent closed
  else .error (.runtimeError "NetIO send failed") world

def encryptBucket (bucket : Bucket) : PathM Bytes := do
  let world ← get
  set { world with ivs := world.ivs + 1 }
  fromExcept (sealBucket env (env.entropy.iv world.ivs).toList bucket)

def readBucketFromServer (index : UInt64) : PathM Bucket := do
  match ← roundTrip env (.readBucket index) with
  | .bucket payload => fromExcept (decryptBucket env payload)
  | _ => throw (.runtimeError "NetIO recv failed")

def writeBucketToServer (index : UInt64) (bucket : Bucket) : PathM Unit := do
  let payload ← encryptBucket env bucket
  let _ ← roundTrip env (.writeBucket index payload)

def decryptEach (payloads : List Bytes) : Except Exception (List Bucket) :=
  payloads.mapM (decryptBucket env)

def readPathFromServer (path : List UInt64) : PathM (List Bucket) := do
  match ← roundTrip env (.readPath (UInt64.ofNat path.length) path) with
  | .path responseCount payloads =>
    throwIf (responseCount ≠ UInt64.ofNat path.length)
      (.runtimeError "Path ORAM read path response count mismatch")
    fromExcept (decryptEach env payloads)
  | _ => throw (.runtimeError "NetIO recv failed")

def writePathToServer (path : List UInt64) (buckets : List Bucket) : PathM Unit := do
  throwIf (path.length ≠ buckets.length) (.invalidArgument "Path ORAM write path size mismatch")
  let payloads ← buckets.mapM (encryptBucket env)
  let response ← roundTrip env (.writePath (UInt64.ofNat path.length) (path.zip payloads))
  throwIf (response ≠ .ack) (.runtimeError "Path ORAM write path acknowledgement mismatch")

end Network

section Eviction

def readPosition (positionMap : List UInt64) (id : UInt64) : Except Exception UInt64 :=
  match positionMap[id.toNat]? with
  | some leaf => .ok leaf
  | none => .error (.undefinedBehavior "position_map_[id]")

/-- The first bucket, from the leaf up, that has room for a block of `blockLeaf`. -/
def findBucket (buckets : List Bucket) (blockLeaf leaf : UInt64) : Option Nat :=
  (List.range buckets.length).find? fun i =>
    decide ((buckets.getD i { capacity := 0 }).blocks.length < kBucketSize) &&
      canPlaceInBucket blockLeaf leaf i

/-- One round of the loop of `EvictBlocksToPath`: a block goes to a bucket or back to the stash. -/
def evictBlock (positionMap : List UInt64) (leaf : UInt64)
    (placed : List Bucket × List Block) (block : Block) :
    Except Exception (List Bucket × List Block) := do
  let blockLeaf ← readPosition positionMap block.id
  match findBucket placed.1 blockLeaf leaf with
  | some i => return (placed.1.modify i fun bucket => bucket.addBlock block, placed.2)
  | none => return (placed.1, placed.2 ++ [block])

def evictBlocksToPath (leaf : UInt64) (buckets : List Bucket) : PathM (List Bucket) := do
  let world ← get
  let (filled, stash) ← fromExcept
    (world.stash.foldlM (evictBlock world.positionMap leaf) (buckets, []))
  modify fun world => { world with stash := stash }
  return filled

def dummyBlock : Block := ⟨kDummyId, List.replicate kBlockSize 0⟩

/-- The padding loop of `WritePath`. -/
def padBucket (bucket : Bucket) : Bucket :=
  (List.range (kBucketSize - bucket.blocks.length)).foldl (fun bucket _ =>
    bucket.addBlock dummyBlock) bucket

end Eviction

section Operations

variable (env : Env)

def getRandomLeaf : PathM UInt64 := do
  let world ← get
  set { world with prng := world.prng + 1 }
  return UInt64.ofNat (env.entropy.draw world.prng % world.numLeaves.toNat)

def realBlocks (bucket : Bucket) : List Block :=
  bucket.blocks.filter fun block => block.id != kDummyId

def readPath (leaf : UInt64) : PathM Unit := do
  let path ← fromExcept (getPathIndices env.treeHeight leaf)
  let buckets ← readPathFromServer env path
  modify fun world => { world with stash := world.stash ++ buckets.flatMap realBlocks }

def writePath (leaf : UInt64) : PathM Unit := do
  let path ← fromExcept (getPathIndices env.treeHeight leaf)
  let filled ← evictBlocksToPath leaf (List.replicate path.length { capacity := kBucketSize })
  writePathToServer env path (filled.map padBucket)

def findBlockInStash (stash : List Block) (id : UInt64) : Option Block :=
  stash.find? fun block => block.id == id

def removeBlockFromStash (stash : List Block) (id : UInt64) : List Block :=
  stash.filter fun block => block.id != id

/-- Step 4 of `Access`: the result and the new stash. -/
def serveFromStash (stash : List Block) (op : Op) (addr : UInt64)
    (data : Bytes) : Bytes × List Block :=
  match op with
  | .read =>
    match findBlockInStash stash addr with
    | some block => (block.data, stash)
    | none => (List.replicate kBlockSize 0, stash)
  | .write =>
    let kept := if (findBlockInStash stash addr).isSome then removeBlockFromStash
      stash addr else stash
    (data, kept ++ [⟨addr, data⟩])

def access (op : Op) (addr : UInt64) (data : Bytes) : PathM Bytes := do
  let world ← get
  let oldLeaf ← fromExcept (readPosition world.positionMap addr)
  let newLeaf ← getRandomLeaf env
  modify fun world => { world with positionMap := world.positionMap.set addr.toNat newLeaf }
  readPath env oldLeaf
  let world ← get
  let (result, stash) := serveFromStash world.stash op addr data
  modify fun world => { world with stash := stash }
  writePath env oldLeaf
  return result

end Operations

section Construction

variable (env : Env)

def construct : PathM Unit := do
  let numLeaves ← fromExcept (getNumLeaves env.treeHeight)
  modify fun world => { world with numLeaves := numLeaves }
  let positionMap ← (List.range env.numBlocks.toNat).mapM fun _ => getRandomLeaf env
  modify fun world => { world with positionMap := positionMap }

def initializePositionMap (initialPositions : List UInt64) : PathM Unit := do
  throwIf (initialPositions.length ≠ env.numBlocks.toNat)
    (.invalidArgument "Position map size mismatch")
  modify fun world => { world with positionMap := initialPositions }

/-- A server with its initial tree and a client, whose position map may then be replaced. -/
def setUp (blocks : List Block) (initialPositions : Option (List UInt64)) : PathM Unit := do
  withServer (Server.construct env)
  withServer (Server.init env blocks)
  construct env
  match initialPositions with
  | some positions => initializePositionMap env positions
  | none => return ()

end Construction
end OramHub.PathOram
