import OramHub.Lib.LittleEndian
import OramHub.OnionRing.WaksmanNetwork
import OramHub.OnionRing.Eviction

/-! # Evictions on the server

Two handlers move blocks without the key. The client of this repository never sends their requests:
it rebuilds buckets itself.
-/
namespace OramHub.OnionRing
open OramHub.Core OramHub.Program OramHub.LittleEndian
set_option autoImplicit false

def serializeUint64Vector (values : List UInt64) : Bytes := values.flatMap encodeWord

def readWords : Nat → Bytes → List UInt64
  | 0, _ => []
  | count + 1, bytes => decodeWord (bytes.take 8) :: readWords count (bytes.drop 8)

def deserializeUint64Vector (bytes : Bytes) : Except Exception (List UInt64) :=
  if bytes.length % 8 ≠ 0 then .error (.invalidArgument "Serialized uint64 vector has invalid size")
  else .ok (readWords (bytes.length / 8) bytes)

theorem deserializeUint64Vector_serialize (values : List UInt64) :
    deserializeUint64Vector (serializeUint64Vector values) = .ok values := by
  have hLength : (serializeUint64Vector values).length = values.length * 8 := by
    simp [serializeUint64Vector, List.length_flatMap]
  have hRead : readWords values.length (serializeUint64Vector values) = values := by
    clear hLength
    induction values with
    | nil => rfl
    | cons value values ih =>
      rw [serializeUint64Vector, List.flatMap_cons, List.length_cons, readWords,
        List.take_left' (length_encodeWord value), List.drop_left' (length_encodeWord value),
        decodeWord_encodeWord]
      exact congrArg (value :: ·) ih
  rw [deserializeUint64Vector, hLength, Nat.mul_mod_left, Nat.mul_div_cancel _ (by decide), hRead]
  exact if_neg (by decide)

/-- What the server receives for one child. The bytes of the swap bits follow their number. -/
structure ChildUpdate where
  sourceBytes : Bytes
  childBytes : Bytes
  bitCount : UInt64
  swapBits : List Bytes

/-- What the server receives in reply to a leaf bucket. -/
structure RefreshPayload where
  command : Char
  slots : List Bytes
  bitCount : UInt64
  swapBits : List Bytes

section Handlers

variable (env : Env) (tgsw : Tgsw env.tfhe)

/-- The samples of a `std::vector` of swap bits, which has room for all of them. -/
def receiveSwapBits (bitCount : UInt64) (swapBits : List Bytes) :
    ServerM env (List tgsw.Ciphertext) := do
  checkVectorSize bitCount.toNat 16 "vector::reserve"
  let received ← (List.range bitCount.toNat).mapM (recvItem swapBits)
  return received.map tgsw.importSample

/-- Copies of the named slots of a bucket. -/
def copySlots (what : String) (bucket : List env.Ciphertext) (slots : List UInt64) :
    Except Exception (List env.Ciphertext) :=
  slots.mapM fun slotIdx =>
    match bucket[slotIdx.toNat]? with
    | some ciphertext => .ok (env.tfhe.tLweCopy ciphertext)
    | none => .error (.outOfRange what)

def assembleChildSlots (sourceBucket : List env.Ciphertext) (sourceSlots : List UInt64)
    (childBucket : List env.Ciphertext)
    (childSlots : List UInt64) (bucketSlots : Nat) : Except Exception (List env.Ciphertext) := do
  let fromSource ← copySlots env "Source slot index out of range" sourceBucket sourceSlots
  let fromChild ← copySlots env "Child slot index out of range" childBucket childSlots
  let assembled := fromSource ++ fromChild
  return assembled ++ List.replicate (bucketSlots - assembled.length) env.tfhe.tLweClear

def replaceBucket (bucketIdx : Nat) (contents : List env.Ciphertext) : ServerM env Unit := do
  let server ← get
  throwIf ((server.tree bucketIdx).length ≠ contents.length)
    (.invalidArgument "Bucket replacement size mismatch")
  set { server with tree := Function.update server.tree bucketIdx (contents.map env.tfhe.tLweCopy) }

/-- The lambda of `HandleEvictTriplet`. -/
def receiveChildUpdate (sourceIdx childIdx : Nat) (update : ChildUpdate) : ServerM env Unit := do
  let sourceSlots ← fromExcept (deserializeUint64Vector update.sourceBytes)
  let childSlots ← fromExcept (deserializeUint64Vector update.childBytes)
  let swapBits ← receiveSwapBits env tgsw update.bitCount update.swapBits
  let server ← get
  let assembled ← fromExcept
    (assembleChildSlots env (server.tree sourceIdx) sourceSlots (server.tree childIdx)
      childSlots env.cfg.slots)
  let output ← fromExcept (WaksmanNetwork.evalWaksman tgsw assembled (swapBits.map some))
  replaceBucket env childIdx output

def handleEvictTriplet (sourceIdx leftIdx rightIdx : UInt64)
    (left right : ChildUpdate) : ServerM env Response := do
  let server ← get
  throwIf (server.treeSize ≤ sourceIdx.toNat ∨ server.treeSize ≤ leftIdx.toNat ∨
    server.treeSize ≤ rightIdx.toNat)
    (.outOfRange "Triplet bucket index out of range")
  receiveChildUpdate env tgsw sourceIdx.toNat leftIdx.toNat left
  receiveChildUpdate env tgsw sourceIdx.toNat rightIdx.toNat right
  modify fun server =>
    { server with
      tree := Function.update server.tree sourceIdx.toNat
        ((server.tree sourceIdx.toNat).map fun _ => env.tfhe.tLweClear) }
  return .ack

/-- The server sends the bucket, and `answer` is what the peer sends back. -/
def handleLeafRefresh (bucketIdx : UInt64)
    (answer : List Bytes → RefreshPayload) : ServerM env Response := do
  let server ← get
  throwIf (server.treeSize ≤ bucketIdx.toNat) (.outOfRange "Leaf refresh bucket index out of range")
  let payload := answer ((server.tree bucketIdx.toNat).map env.tfhe.exportSample)
  throwIf (payload.command ≠ 'F') (.runtimeError "Expected leaf refresh payload command")
  let received ← (List.range env.cfg.slots).mapM (recvItem payload.slots)
  let refreshed := received.map env.tfhe.importSample
  let swapBits ← receiveSwapBits env tgsw payload.bitCount payload.swapBits
  let output ← fromExcept (WaksmanNetwork.evalWaksman tgsw refreshed (swapBits.map some))
  replaceBucket env bucketIdx.toNat output
  return .ack

end Handlers
end OramHub.OnionRing
