import Mathlib.Data.Finset.Range
import OramHub.Core.Machine
import OramHub.Lib.HeapTree

/-! # Onion Ring ORAM configuration and tree navigation

Node indices are natural numbers: a tree whose node count does not overflow has none above 2^63.
-/
namespace OramHub.OnionRing
open OramHub.Core
set_option autoImplicit false

/-- `tlweN` is the ring dimension, which TFHE requires to be positive. -/
structure RuntimeConfig where
  z : UInt64 := 254
  s : UInt64 := 254
  a : UInt64 := 249
  treeHeight : UInt64 := 10
  numBlocks : UInt64 := 1024
  blockSize : UInt64 := 256
  tlweN : Nat := 1024
  deriving DecidableEq, Repr

namespace RuntimeConfig

variable (cfg : RuntimeConfig)

def bucketSlots : UInt64 := cfg.z + cfg.s

def numTreeNodes : Except Exception UInt64 := do
  let power ← shiftOne (cfg.treeHeight + 1)
  return power - 1

def numLeaves : Except Exception UInt64 := shiftOne cfg.treeHeight

def height : Nat := cfg.treeHeight.toNat

def slots : Nat := cfg.bucketSlots.toNat

/-- The indices of the buckets. -/
def nodes : Finset Nat := Finset.range (HeapTree.nodeCount cfg.height)

/-- The nodes from the root down to a leaf. -/
def path (leaf : UInt64) : List Nat := HeapTree.path cfg.height leaf.toNat

end RuntimeConfig

/-- `(leaf >> shift) & 1`. -/
def pathBit (leaf : UInt64) (shift : Nat) : Nat := ((leaf >>> UInt64.ofNat shift) &&& 1).toNat

/-- The loop of `GetPathIndices` with `levels` rounds to go. -/
def descend (leaf : UInt64) (node : Nat) : Nat → List Nat
  | 0 => [node]
  | levels + 1 => node :: descend leaf (2 * node + 1 + pathBit leaf levels) levels

def getPathIndices (cfg : RuntimeConfig) (leaf : UInt64) : List Nat := descend leaf 0 cfg.height

/-- The loop of `GetNodeLevel`, which has at most `rounds` rounds. -/
def climb (bucketIdx : Nat) : Nat → Nat
  | 0 => 0
  | rounds + 1 => if bucketIdx = 0 then 0 else climb ((bucketIdx - 1) / 2) rounds + 1

def getNodeLevel (bucketIdx : Nat) : Nat := climb bucketIdx bucketIdx

def reverseBits (value : UInt64) (numBits : Nat) : UInt64 :=
  (List.range numBits).foldl (fun reversed i =>
    (reversed <<< 1) ||| ((value >>> UInt64.ofNat i) &&& 1)) 0

/-- The first slot with this id, or the number of slots. -/
def findSlot (ids : List Int) (blockId : Int) : Nat := ids.idxOf blockId

def findFirstDummySlot (ids : List Int) : Nat := findSlot ids (-1)

/-- `static_cast<int64_t>(addr)`. -/
def toBlockId (addr : UInt64) : Int :=
  if addr.toNat < 2 ^ 63 then addr.toNat else addr.toNat - 2 ^ 64

section Navigation

variable {cfg : RuntimeConfig} {leaf : UInt64}

theorem numTreeNodes_eq_ok {nodes leaves : UInt64} (hNodes : cfg.numTreeNodes = .ok nodes)
    (hLeaves : cfg.numLeaves = .ok leaves) :
    cfg.height < 63 ∧ nodes.toNat = HeapTree.nodeCount cfg.height ∧
    leaves.toNat = 2 ^ cfg.height := by
  obtain ⟨hSmall, hLeavesEq⟩ := shiftOne_eq_ok hLeaves
  cases hPower : shiftOne (cfg.treeHeight + 1) with
  | error e =>
    rw [RuntimeConfig.numTreeNodes, hPower] at hNodes
    cases hNodes
  | ok power =>
    rw [RuntimeConfig.numTreeNodes, hPower] at hNodes
    cases hNodes
    obtain ⟨hLt, hEq⟩ := shiftOne_eq_ok hPower
    rw [UInt64.toNat_add, UInt64.toNat_one] at hLt hEq
    have hHeight : cfg.treeHeight.toNat < 63 := by omega
    rw [Nat.mod_eq_of_lt (by omega)] at hEq
    have hPos : 0 < 2 ^ (cfg.treeHeight.toNat + 1) := Nat.pow_pos (by decide)
    refine ⟨hHeight, ?_, hLeavesEq⟩
    rw [UInt64.toNat_sub_of_le _ _ (by rw [UInt64.le_iff_toNat_le, hEq]; exact hPos),
      hEq, UInt64.toNat_one]
    rfl

theorem pathBit_eq (leaf : UInt64) {shift : Nat} (h : shift < 64) :
    pathBit leaf shift = leaf.toNat / 2 ^ shift % 2 := by
  have hShift : (UInt64.ofNat shift).toNat % 64 = shift := by
    rw [UInt64.toNat_ofNat_of_lt' (by rw [UInt64.size]; omega), Nat.mod_eq_of_lt h]
  rw [pathBit, UInt64.toNat_and, UInt64.toNat_shiftRight, hShift,
    UInt64.toNat_one, Nat.and_one_is_mod, Nat.shiftRight_eq_div_pow]

theorem node_succ_pathBit (hHeight : cfg.height < 64) {level : Nat} (hLevel : level < cfg.height) :
    HeapTree.node cfg.height leaf.toNat (level + 1) =
      2 * HeapTree.node cfg.height leaf.toNat level + 1 +
        pathBit leaf (cfg.height - (level + 1)) := by
  rw [HeapTree.node_succ _ hLevel, pathBit_eq leaf (by omega)]

theorem descend_node (hHeight : cfg.height < 64) {levels : Nat} (hLevels : levels ≤ cfg.height) :
    descend leaf (HeapTree.node cfg.height leaf.toNat (cfg.height - levels)) levels =
      (List.range' (cfg.height - levels) (levels + 1)).map
        (HeapTree.node cfg.height leaf.toNat) := by
  induction levels with
  | zero => rfl
  | succ levels ih =>
    have hNode := @node_succ_pathBit cfg leaf hHeight (cfg.height - (levels + 1)) (by omega)
    have hNext : cfg.height - (levels + 1) + 1 = cfg.height - levels := by omega
    rw [hNext, Nat.sub_sub_self (by omega)] at hNode
    rw [descend, ← hNode, ih (by omega)]
    conv_rhs => rw [List.range'_succ, List.map_cons, hNext]

theorem getPathIndices_eq (hHeight : cfg.height < 64) (hLeaf : leaf.toNat < 2 ^ cfg.height) :
    getPathIndices cfg leaf = cfg.path leaf := by
  have hRoot := HeapTree.node_zero hLeaf
  have hDescend := @descend_node cfg leaf hHeight cfg.height le_rfl
  rw [Nat.sub_self, hRoot] at hDescend
  rw [getPathIndices, hDescend, RuntimeConfig.path, HeapTree.path, List.range_eq_range']

theorem length_descend (leaf : UInt64) (node levels : Nat) :
    (descend leaf node levels).length = levels + 1 := by
  induction levels generalizing node with
  | zero => rfl
  | succ levels ih => rw [descend, List.length_cons, ih]

theorem length_getPathIndices (cfg : RuntimeConfig) (leaf : UInt64) :
    (getPathIndices cfg leaf).length = cfg.height + 1 :=
  length_descend leaf 0 cfg.height

theorem climb_node (hLeaf : leaf.toNat < 2 ^ cfg.height) {level rounds : Nat}
    (hLevel : level ≤ cfg.height) (hRounds : level ≤ rounds) :
    climb (HeapTree.node cfg.height leaf.toNat level) rounds = level := by
  induction level generalizing rounds with
  | zero =>
    rw [HeapTree.node_zero hLeaf]
    cases rounds <;> rfl
  | succ level ih =>
    obtain ⟨rounds, rfl⟩ :=
      Nat.exists_eq_add_of_le' (Nat.one_le_iff_ne_zero.mpr (by omega : rounds ≠ 0))
    have hNe : HeapTree.node cfg.height leaf.toNat (level + 1) ≠ 0 := by
      rw [HeapTree.node_succ _ hLevel]
      omega
    rw [climb, if_neg hNe, HeapTree.parent_node _ hLevel, ih (by omega) (by omega)]

theorem getNodeLevel_node (hLeaf : leaf.toNat < 2 ^ cfg.height) {level : Nat}
    (hLevel : level ≤ cfg.height) :
    getNodeLevel (HeapTree.node cfg.height leaf.toNat level) = level := by
  have hLower := HeapTree.le_node cfg.height leaf.toNat level
  have hPow : level < 2 ^ level := Nat.lt_two_pow_self
  exact climb_node hLeaf hLevel (by omega)

theorem reverseBits_lt (value : UInt64) {numBits : Nat} (h : numBits ≤ 64) :
    (reverseBits value numBits).toNat < 2 ^ numBits := by
  induction numBits with
  | zero => exact Nat.one_pos
  | succ numBits ih =>
    have hPrev := ih (by omega)
    rw [reverseBits, List.range_succ, List.foldl_append, List.foldl_cons,
      List.foldl_nil, ← reverseBits, UInt64.toNat_or]
    refine Nat.or_lt_two_pow ?_ ?_
    · rw [UInt64.toNat_shiftLeft, UInt64.toNat_one, Nat.shiftLeft_eq, Nat.pow_one, Nat.pow_succ]
      exact (Nat.mod_le _ _).trans_lt (Nat.mul_lt_mul_of_pos_right hPrev (by decide))
    · rw [UInt64.toNat_and, UInt64.toNat_one, Nat.and_one_is_mod]
      exact (Nat.mod_lt _ (by decide)).trans_le (Nat.le_self_pow (Nat.succ_ne_zero _) 2)

theorem toBlockId_of_lt {addr : UInt64} (h : addr.toNat < 2 ^ 63) : toBlockId addr = addr.toNat :=
  if_pos h

theorem findSlot_lt_iff {ids : List Int} {blockId : Int} :
    findSlot ids blockId < ids.length ↔ blockId ∈ ids :=
  List.idxOf_lt_length_iff

theorem findSlot_ne_length {ids : List Int} {blockId : Int} :
    findSlot ids blockId ≠ ids.length ↔ blockId ∈ ids := by
  have hLe : findSlot ids blockId ≤ ids.length := List.idxOf_le_length
  rw [← findSlot_lt_iff]
  omega

theorem getElem?_findSlot {ids : List Int} {blockId : Int} (h : blockId ∈ ids) :
    ids[findSlot ids blockId]? = some blockId :=
  List.getElem?_idxOf h

end Navigation
end OramHub.OnionRing
