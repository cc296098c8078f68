import OramHub.OnionRing.Config
import OramHub.OnionRing.TfheAdapter

/-! # The Onion Ring server

The server keeps TLWE ciphertexts and adds them up without the key. A handler that throws keeps what
it has already written, and ends the command loop.
-/
namespace OramHub.OnionRing
open OramHub.Core OramHub.Program
set_option autoImplicit false

/-- What is fixed for a whole run. -/
structure Env where
  cfg : RuntimeConfig
  entropy : Entropy
  tfhe : Tfhe cfg.tlweN

abbrev Env.Ciphertext (env : Env) : Type := env.tfhe.Ciphertext

inductive Request
  | access (leaf : UInt64) (selections : List UInt64)
  | clearPath (leaf : UInt64) (selections : List UInt64)
  | readBucket (bucketIdx : UInt64)
  | writeSlot (bucketIdx slotIdx : UInt64) (bytes : Bytes)
  | quit
  deriving DecidableEq, Repr

inductive Response
  | pathSum (bytes : Bytes)
  | bucket (slots : List Bytes)
  | ack
  | silent
  deriving DecidableEq, Repr

/-- `treeSize` is the number of buckets that `Init` has created. -/
structure Server (C : Type) where
  tree : Nat → List C := fun _ => []
  treeSize : Nat := 0
  running : Bool := true

abbrev ServerM (env : Env) := EStateM Exception (Server env.Ciphertext)

/-- The text for a `std::vector` that is constructed with its size. -/
def tooLarge : String := "cannot create std::vector larger than max_size()"

/-- The check of `std::vector::max_size()` for elements of `elementSize` bytes. -/
def checkVectorSize {σ : Type} (count elementSize : Nat)
    (what : String) : EStateM Exception σ Unit :=
  throwIf (vectorMaxSize / elementSize < count) (.lengthError what)

section Handlers

variable (env : Env)

/-- The constructor and `Init`. -/
def Server.init : ServerM env Unit := do
  let numNodes ← fromExcept env.cfg.numTreeNodes
  checkVectorSize numNodes.toNat 24 "vector::reserve"
  checkVectorSize env.cfg.slots 40 "vector::reserve"
  modify fun server =>
    { server with
      tree := fun b =>
        if b < numNodes.toNat then List.replicate env.cfg.slots env.tfhe.tLweClear else []
      treeSize := numNodes.toNat }

def recvSelection (what : String) (selections : List UInt64) (i : Nat) : ServerM env UInt64 := do
  let selection ← recvItem selections i
  throwIf (env.cfg.bucketSlots ≤ selection) (.outOfRange what)
  return selection

/-- `tree_[node][slot]`. -/
def readSlot (tree : Nat → List env.Ciphertext) (node slot : Nat) :
    Except Exception env.Ciphertext :=
  match (tree node)[slot]? with
  | some ciphertext => .ok ciphertext
  | none => .error (.outOfRange "vector::_M_range_check")

/-- One round of the second loop of `HandleAccess`. -/
def accumulate (tree : Nat → List env.Ciphertext) (accumulator : env.Ciphertext)
    (selected : Nat × UInt64) :
    Except Exception env.Ciphertext := do
  let ciphertext ← readSlot env tree selected.1 selected.2.toNat
  return env.tfhe.tLweAddTo accumulator ciphertext

def handleAccess (leaf : UInt64) (selections : List UInt64) : ServerM env Response := do
  let path := getPathIndices env.cfg leaf
  let wanted ← (List.range path.length).mapM
    (recvSelection env "Selection index out of range" selections)
  let server ← get
  let accumulator ← fromExcept
    ((path.zip wanted).foldlM (accumulate env server.tree) env.tfhe.tLweClear)
  return .pathSum (env.tfhe.exportSample accumulator)

/-- `tree_[node][slot] = ciphertext`. -/
def Server.setSlot {C : Type} (server : Server C) (node slot : Nat) (ciphertext : C) : Server C :=
  { server with tree := Function.update server.tree node ((server.tree node).set slot ciphertext) }

/-- One round of the loop of `HandleClearPath`. -/
def clearSlot (path : List Nat) (selections : List UInt64) (i : Nat) : ServerM env Unit := do
  let selection ← recvSelection env "Clear-path selection index out of range" selections i
  let node := path.getD i 0
  let server ← get
  let _ ← fromExcept (readSlot env server.tree node selection.toNat)
  set (server.setSlot node selection.toNat env.tfhe.tLweClear)

def handleClearPath (leaf : UInt64) (selections : List UInt64) : ServerM env Response := do
  let path := getPathIndices env.cfg leaf
  forM (List.range path.length) (clearSlot env path selections)
  return .ack

def handleReadBucket (bucketIdx : UInt64) : ServerM env Response := do
  let server ← get
  throwIf (server.treeSize ≤ bucketIdx.toNat) (.outOfRange "Read bucket index out of range")
  return .bucket ((server.tree bucketIdx.toNat).map env.tfhe.exportSample)

def handleWriteSlot (bucketIdx slotIdx : UInt64) (bytes : Bytes) : ServerM env Response := do
  let server ← get
  throwIf (server.treeSize ≤ bucketIdx.toNat ∨ (server.tree bucketIdx.toNat).length ≤ slotIdx.toNat)
    (.outOfRange "Write slot target out of range")
  set (server.setSlot bucketIdx.toNat slotIdx.toNat (env.tfhe.importSample bytes))
  return .ack

/-- One round of the command loop `HandleRequests`. -/
def handleRequest : Request → ServerM env Response
  | .access leaf selections => handleAccess env leaf selections
  | .clearPath leaf selections => handleClearPath env leaf selections
  | .readBucket bucketIdx => handleReadBucket env bucketIdx
  | .writeSlot bucketIdx slotIdx bytes => handleWriteSlot env bucketIdx slotIdx bytes
  | .quit => do
    modify fun server => { server with running := false }
    return .silent

end Handlers
end OramHub.OnionRing
