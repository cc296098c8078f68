import OramHub.Core.Machine

/-! # Ring ORAM configuration and tree navigation

`size_t` and `uint64_t` are `UInt64`, so every sum and shift wraps as in the source.
Client and server carry the same navigation code; it is modelled once.
-/
namespace OramHub.RingOram
open OramHub.Core
set_option autoImplicit false

structure RuntimeConfig where
  numBlocks : UInt64 := 1024
  treeDepth : UInt64 := 10
  z : UInt64 := 4
  s : UInt64 := 4
  a : UInt64 := 8
  blockSize : UInt64 := 256
  deriving DecidableEq, Repr

namespace RuntimeConfig

def bucketSlots (cfg : RuntimeConfig) : UInt64 := cfg.z + cfg.s
def numLeaves (cfg : RuntimeConfig) : UInt64 := 1 <<< cfg.treeDepth
def numTreeNodes (cfg : RuntimeConfig) : UInt64 := (1 <<< (cfg.treeDepth + 1)) - 1
def leafOffset (cfg : RuntimeConfig) : UInt64 := (1 <<< cfg.treeDepth) - 1

/-- One step down from `node` towards `leaf`. -/
def descend (cfg : RuntimeConfig) (leaf node : UInt64) (depth : Nat) : UInt64 :=
  let bit := (leaf >>> (cfg.treeDepth - 1 - UInt64.ofNat depth)) &&& 1
  2 * node + 1 + bit

def getBucketIndex (cfg : RuntimeConfig) (leaf : UInt64) (level : Nat) : Except Exception UInt64 :=
  if cfg.numLeaves ≤ leaf then .error (.outOfRange "Ring ORAM leaf index out of range")
  else if cfg.treeDepth.toNat < level then .error (.outOfRange "Ring ORAM level out of range")
  else .ok ((List.range level).foldl (cfg.descend leaf) 0)

/-- The loop of `GetNodeLevel`: parents are taken until the root is reached. -/
def nodeLevel (index : Nat) : Nat :=
  if index = 0 then 0 else nodeLevel ((index - 1) / 2) + 1
decreasing_by omega

def getNodeLevel (cfg : RuntimeConfig) (bucketIdx : UInt64) : Except Exception Nat :=
  if cfg.numTreeNodes ≤ bucketIdx then .error (.outOfRange "Ring ORAM bucket index out of range")
  else .ok (nodeLevel bucketIdx.toNat)

def isBucketOnLeafPath (cfg : RuntimeConfig) (bucketIdx leaf : UInt64) : Except Exception Bool := do
  let level ← cfg.getNodeLevel bucketIdx
  let node ← cfg.getBucketIndex leaf level
  return node == bucketIdx

def getPathIndices (cfg : RuntimeConfig) (leaf : UInt64) : Except Exception (List UInt64) :=
  if cfg.numLeaves ≤ leaf then .error (.outOfRange "Ring ORAM leaf index out of range")
  else .ok ((List.range cfg.treeDepth.toNat).scanl (cfg.descend leaf) 0)

def depth (cfg : RuntimeConfig) : Nat := cfg.treeDepth.toNat

@[simp] theorem toNat_treeDepth (cfg : RuntimeConfig) : cfg.treeDepth.toNat = cfg.depth := rfl

section Navigation

variable {cfg : RuntimeConfig} (hDepth : cfg.depth < 63)
include hDepth

theorem toNat_numLeaves : cfg.numLeaves.toNat = 2 ^ cfg.depth := by
  have hPow : 2 ^ cfg.depth < 2 ^ 64 := Nat.pow_lt_pow_right (by decide) (by omega)
  rw [numLeaves, UInt64.toNat_shiftLeft, toNat_treeDepth,
    Nat.mod_eq_of_lt (by omega : cfg.depth < 64),
    Nat.shiftLeft_eq, UInt64.toNat_one, Nat.one_mul, Nat.mod_eq_of_lt hPow]

theorem toNat_numTreeNodes : cfg.numTreeNodes.toNat = HeapTree.nodeCount cfg.depth := by
  have hPow : 2 ^ (cfg.depth + 1) < 2 ^ 64 := Nat.pow_lt_pow_right (by decide) (by omega)
  have hPos : 0 < 2 ^ (cfg.depth + 1) := Nat.pow_pos (by decide)
  have hSucc : (cfg.treeDepth + 1).toNat = cfg.depth + 1 := by
    rw [UInt64.toNat_add, toNat_treeDepth, UInt64.toNat_one]
    omega
  have hShift : ((1 : UInt64) <<< (cfg.treeDepth + 1)).toNat = 2 ^ (cfg.depth + 1) := by
    rw [UInt64.toNat_shiftLeft, hSucc, Nat.mod_eq_of_lt (by omega : cfg.depth + 1 < 64),
      Nat.shiftLeft_eq, UInt64.toNat_one, Nat.one_mul, Nat.mod_eq_of_lt hPow]
  rw [numTreeNodes, UInt64.toNat_sub_of_le _ _ (by rw [UInt64.le_iff_toNat_le, hShift]; exact hPos),
    hShift, HeapTree.nodeCount, UInt64.toNat_one]

theorem numLeaves_le_iff {leaf : UInt64} : cfg.numLeaves ≤ leaf ↔ 2 ^ cfg.depth ≤ leaf.toNat := by
  rw [UInt64.le_iff_toNat_le, toNat_numLeaves hDepth]

theorem toNat_descend {leaf node : UInt64} {level : Nat} (hLeaf : leaf.toNat < 2 ^ cfg.depth)
    (hLevel : level < cfg.depth) (hNode : node.toNat = HeapTree.node cfg.depth leaf.toNat level) :
    (cfg.descend leaf node level).toNat = HeapTree.node cfg.depth leaf.toNat (level + 1) :=
  toNat_child hDepth hLeaf hLevel hNode

theorem toNat_descent {leaf : UInt64} (hLeaf : leaf.toNat < 2 ^ cfg.depth) {level : Nat}
    (hLevel : level ≤ cfg.depth) :
    ((List.range level).foldl (cfg.descend leaf) 0).toNat =
      HeapTree.node cfg.depth leaf.toNat level := by
  induction level with
  | zero => exact (HeapTree.node_zero hLeaf).symm
  | succ level ih =>
    rw [List.range_succ, List.foldl_append]
    exact toNat_descend hDepth hLeaf hLevel (ih (by omega))

theorem getBucketIndex_eq_ok {leaf : UInt64} (hLeaf : leaf.toNat < 2 ^ cfg.depth) {level : Nat}
    (hLevel : level ≤ cfg.depth) :
    ∃ index, cfg.getBucketIndex leaf level = .ok index ∧
      index.toNat = HeapTree.node cfg.depth leaf.toNat level := by
  refine ⟨_, ?_, toNat_descent hDepth hLeaf hLevel⟩
  rw [getBucketIndex, toNat_treeDepth, if_neg (by rw [numLeaves_le_iff hDepth]; omega),
    if_neg (by omega)]

theorem getPathIndices_eq_ok {leaf : UInt64} (hLeaf : leaf.toNat < 2 ^ cfg.depth) :
    ∃ path, cfg.getPathIndices leaf = .ok path ∧
      path.map UInt64.toNat = HeapTree.path cfg.depth leaf.toNat := by
  refine ⟨(List.range cfg.depth).scanl (cfg.descend leaf) 0, ?_, ?_⟩
  · rw [getPathIndices, toNat_treeDepth, if_neg (by rw [numLeaves_le_iff hDepth]; omega)]
  · apply List.ext_getElem?
    intro level
    rw [List.getElem?_map, List.getElem?_scanl, HeapTree.path, List.getElem?_map, List.length_range]
    by_cases hLevel : level ≤ cfg.depth
    · rw [if_pos hLevel, List.getElem?_range (by omega), List.take_range, Nat.min_eq_left hLevel]
      exact congrArg some (toNat_descent hDepth hLeaf hLevel)
    · rw [if_neg hLevel, List.getElem?_eq_none (by rw [List.length_range]; omega)]
      rfl

end Navigation

theorem nodeLevel_node {height leaf level : Nat} (hLeaf : leaf < 2 ^ height)
    (hLevel : level ≤ height) :
    nodeLevel (HeapTree.node height leaf level) = level := by
  induction level with
  | zero => rw [HeapTree.node_zero hLeaf, nodeLevel, if_pos rfl]
  | succ level ih =>
    have hNe : HeapTree.node height leaf (level + 1) ≠ 0 := by
      rw [HeapTree.node_succ leaf hLevel]
      omega
    rw [nodeLevel, if_neg hNe, HeapTree.parent_node leaf hLevel, ih (by omega)]

theorem isBucketOnLeafPath_eq_ok {cfg : RuntimeConfig} (hDepth : cfg.depth < 63)
    {bucketIdx leaf : UInt64} (hBucket : bucketIdx.toNat < HeapTree.nodeCount cfg.depth)
    (hLeaf : leaf.toNat < 2 ^ cfg.depth) :
    cfg.isBucketOnLeafPath bucketIdx leaf =
      .ok (decide (bucketIdx.toNat ∈ HeapTree.path cfg.depth leaf.toNat)) := by
  obtain ⟨other, level, hOther, hLevel, hNode⟩ := HeapTree.exists_node hBucket
  have hNodes : ¬ cfg.numTreeNodes ≤ bucketIdx := by
    rw [UInt64.le_iff_toNat_le, toNat_numTreeNodes hDepth]
    omega
  have hGet : cfg.getNodeLevel bucketIdx = .ok level := by
    rw [getNodeLevel, if_neg hNodes, ← hNode, nodeLevel_node hOther hLevel]
  obtain ⟨index, hIndex, hIndexNode⟩ := getBucketIndex_eq_ok hDepth hLeaf hLevel
  have hIff : index = bucketIdx ↔ bucketIdx.toNat ∈ HeapTree.path cfg.depth leaf.toNat := by
    rw [← UInt64.toNat_inj, hIndexNode, ← hNode, HeapTree.node_mem_path_iff hOther hLeaf hLevel]
  rw [isBucketOnLeafPath, hGet]
  change (do let node ← cfg.getBucketIndex leaf level; return node == bucketIdx) = _
  rw [hIndex]
  change Except.ok (index == bucketIdx) = _
  rw [beq_eq_decide, decide_eq_decide.mpr hIff]

end RuntimeConfig
end OramHub.RingOram
