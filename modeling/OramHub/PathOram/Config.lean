import OramHub.Core.Machine

/-! # Path ORAM blocks, buckets and tree navigation

Paths are listed from the leaf up.
-/
namespace OramHub.PathOram
open OramHub.Core
set_option autoImplicit false

structure Block where
  id : UInt64
  data : Bytes
  deriving DecidableEq, Repr

/-- The id of a dummy block. -/
def kDummyId : UInt64 := 0xFFFFFFFFFFFFFFFF

structure Bucket where
  capacity : Nat
  blocks : List Block := []
  deriving DecidableEq, Repr

/-- A full bucket takes no block and reports no error. -/
def Bucket.addBlock (bucket : Bucket) (block : Block) : Bucket :=
  if bucket.capacity ≤
    bucket.blocks.length then bucket else { bucket with blocks := bucket.blocks ++ [block] }

def kBucketSize : Nat := 4
def kBlockSize : Nat := 256

def getNumTreeNodes (height : UInt64) : Except Exception UInt64 := do
  let power ← shiftOne (height + 1)
  return power - 1

def getNumLeaves (height : UInt64) : Except Exception UInt64 := shiftOne height

def getLeafOffset (height : UInt64) : Except Exception UInt64 := do
  let power ← shiftOne height
  return power - 1

/-- The nodes from `current` up to the root. -/
def climb (current : Nat) : List Nat :=
  if current = 0 then [0] else current :: climb ((current - 1) / 2)
decreasing_by omega

def getPathIndices (height leaf : UInt64) : Except Exception (List UInt64) := do
  let leafOffset ← getLeafOffset height
  return (climb (leafOffset + leaf).toNat).map UInt64.ofNat

/-- Level 0 is the leaf level. -/
def canPlaceInBucket (blockLeaf targetLeaf : UInt64) (level : Nat) : Bool :=
  blockLeaf >>> UInt64.ofNat level == targetLeaf >>> UInt64.ofNat level

section Navigation

variable {height leaf : UInt64}

/-- A tree whose node count is defined and not zero has a height below 63. -/
theorem getNumTreeNodes_eq_ok {nodes : UInt64} (h : getNumTreeNodes height = .ok nodes)
    (hHeight : height.toNat < 64) :
    height.toNat < 63 ∧ nodes.toNat = HeapTree.nodeCount height.toNat := by
  cases hPower : shiftOne (height + 1) with
  | error e =>
    rw [getNumTreeNodes, hPower] at h
    cases h
  | ok power =>
    rw [getNumTreeNodes, hPower] at h
    cases h
    obtain ⟨hLt, hEq⟩ := shiftOne_eq_ok hPower
    rw [UInt64.toNat_add, UInt64.toNat_one] at hLt hEq
    have hSmall : height.toNat < 63 := by omega
    rw [Nat.mod_eq_of_lt (by omega)] at hEq
    have hPos : 0 < 2 ^ (height.toNat + 1) := Nat.pow_pos (by decide)
    refine ⟨hSmall, ?_⟩
    rw [UInt64.toNat_sub_of_le _ _ (by rw [UInt64.le_iff_toNat_le, hEq]; exact hPos),
      hEq, HeapTree.nodeCount, UInt64.toNat_one]

theorem exists_getNumTreeNodes (hHeight : height.toNat < 63) :
    ∃ nodes, getNumTreeNodes height = .ok nodes := by
  have hNat : (height + 1).toNat = height.toNat + 1 := by
    rw [UInt64.toNat_add, UInt64.toNat_one]
    exact Nat.mod_eq_of_lt (by omega)
  obtain ⟨power, hPower⟩ := shiftOne_of_lt (show (height + 1).toNat < 64 by omega)
  refine ⟨power - 1, ?_⟩
  rw [getNumTreeNodes, hPower]
  rfl

theorem climb_node {h leaf level : Nat} (hLeaf : leaf < 2 ^ h) (hLevel : level ≤ h) :
    climb (HeapTree.node h leaf level) =
      ((List.range (level + 1)).map (HeapTree.node h leaf)).reverse := by
  induction level with
  | zero =>
    rw [HeapTree.node_zero hLeaf, climb, if_pos rfl]
    simp [HeapTree.node_zero hLeaf]
  | succ level ih =>
    have hNe : HeapTree.node h leaf (level + 1) ≠ 0 := by
      rw [HeapTree.node_succ leaf hLevel]
      omega
    rw [climb, if_neg hNe, HeapTree.parent_node leaf hLevel, ih (by omega),
      List.range_succ (n := level + 1), List.map_append, List.reverse_append]
    rfl

theorem getPathIndices_eq_ok (hHeight : height.toNat < 63) (hLeaf : leaf.toNat < 2 ^ height.toNat) :
    ∃ path, getPathIndices height leaf = .ok path ∧
      path.map UInt64.toNat = (HeapTree.path height.toNat leaf.toNat).reverse := by
  obtain ⟨power, hPower⟩ := shiftOne_of_lt (show height.toNat < 64 by omega)
  obtain ⟨_, hEq⟩ := shiftOne_eq_ok hPower
  have hPos : 0 < 2 ^ height.toNat := Nat.pow_pos (by decide)
  have hBound : 2 ^ height.toNat ≤ 2 ^ 62 := Nat.pow_le_pow_right (by decide) (by omega)
  have hOffset : (power - 1).toNat = 2 ^ height.toNat - 1 := by
    rw [UInt64.toNat_sub_of_le _ _ (by rw [UInt64.le_iff_toNat_le, hEq]; exact hPos),
      hEq, UInt64.toNat_one]
  have hNode : (power - 1 + leaf).toNat = HeapTree.node height.toNat leaf.toNat height.toNat := by
    rw [UInt64.toNat_add, hOffset, HeapTree.node_height, Nat.mod_eq_of_lt (by omega)]
  refine ⟨(climb (power - 1 + leaf).toNat).map UInt64.ofNat, ?_, ?_⟩
  · rw [getPathIndices, getLeafOffset, hPower]
    rfl
  · rw [hNode, climb_node hLeaf le_rfl, ← HeapTree.path, List.map_map]
    refine (List.map_congr_left fun node hMem => ?_).trans (List.map_id _)
    have hLt := HeapTree.lt_nodeCount_of_mem_path hLeaf (List.mem_reverse.mp hMem)
    rw [HeapTree.nodeCount] at hLt
    have hPow : 2 ^ (height.toNat + 1) ≤ 2 ^ 63 := Nat.pow_le_pow_right (by decide) (by omega)
    exact UInt64.toNat_ofNat_of_lt' (by rw [UInt64.size]; omega)

theorem canPlaceInBucket_iff_div {blockLeaf : UInt64} {level : Nat} (hLevel : level < 64) :
    canPlaceInBucket blockLeaf leaf level = true ↔
      blockLeaf.toNat / 2 ^ level = leaf.toNat / 2 ^ level := by
  have hShift : (UInt64.ofNat level).toNat % 64 = level := by
    rw [UInt64.toNat_ofNat_of_lt' (by rw [UInt64.size]; omega), Nat.mod_eq_of_lt hLevel]
  rw [canPlaceInBucket, beq_iff_eq, ← UInt64.toNat_inj, UInt64.toNat_shiftRight,
    UInt64.toNat_shiftRight, hShift, Nat.shiftRight_eq_div_pow, Nat.shiftRight_eq_div_pow]

/-- A block may lie in the bucket `level` steps above a leaf exactly when its own path goes through
it. -/
theorem canPlaceInBucket_iff {blockLeaf : UInt64} {h level : Nat} (hHeight : h < 63)
    (hLevel : level ≤ h) :
    canPlaceInBucket blockLeaf leaf level = true ↔
      HeapTree.node h blockLeaf.toNat (h - level) = HeapTree.node h leaf.toNat (h - level) := by
  rw [canPlaceInBucket_iff_div (by omega), HeapTree.node_eq_iff, Nat.sub_sub_self hLevel]

end Navigation
end OramHub.PathOram
