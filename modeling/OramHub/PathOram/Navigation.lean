import OramHub.PathOram.Config

/-! # Three notions of a path

`GetPathIndices` climbs from a leaf, `GetBucketIndex` descends from the root, and `CanPlaceInBucket`
compares shifted leaves.
-/
namespace OramHub.PathOram
open OramHub.Core OramHub.Program
set_option autoImplicit false

/-- One round of the loop of `GetBucketIndex`. -/
def descend (height leaf node : UInt64) (level : Nat) : Except Exception UInt64 :=
  let amount := height - 1 - UInt64.ofNat level
  if 64 ≤ amount then .error (.undefinedBehavior "shift exponent is too large")
  else .ok (2 * node + 1 + ((leaf >>> amount) &&& 1))

/-- Level 0 is the root. -/
def getBucketIndex (height leaf level : UInt64) : Except Exception UInt64 :=
  (List.range level.toNat).foldlM (descend height leaf) 0

/-- A path that has one entry for each level, from the leaf up, and stays in the tree. -/
structure PathOf (height leaf : UInt64) (path : List UInt64) : Prop where
  climbs : getPathIndices height leaf = .ok path
  length : path.length = height.toNat + 1
  root : path.getLast? = some 0
  descends : ∀ i index, path[i]? = some index →
    getBucketIndex height leaf (height - UInt64.ofNat i) = .ok index
  inTree : ∃ numNodes, getNumTreeNodes height = .ok numNodes ∧ ∀ index ∈ path, index < numNodes

/-- Blocks of the first leaf may be placed on the second path exactly where the two paths meet, and
from there on upwards. -/
structure Meet (height a b : UInt64) (pathA pathB : List UInt64) : Prop where
  place : ∀ i ≤ height.toNat, canPlaceInBucket a b i = true ↔ pathA[i]? = pathB[i]?
  upwards : ∀ i j, i ≤ j → j ≤ height.toNat → canPlaceInBucket a b i = true →
    canPlaceInBucket a b j = true

variable {height leaf a b : UInt64} {path pathA pathB : List UInt64}

theorem descend_eq (hHeight : height.toNat < 63) {level : Nat}
    (hLevel : level < height.toNat) (node : UInt64) :
    descend height leaf node level =
      .ok (2 * node + 1 + ((leaf >>> (height - 1 - UInt64.ofNat level)) &&& 1)) := by
  apply if_neg
  rw [UInt64.le_iff_toNat_le, toNat_shiftAmount hLevel, show (64 : UInt64).toNat = 64 from rfl]
  omega

theorem foldlM_descend (hHeight : height.toNat < 63) (hLeaf : leaf.toNat < 2 ^ height.toNat)
    {level : Nat} (hLevel : level ≤ height.toNat) :
    ∃ index, (List.range level).foldlM (descend height leaf) 0 = .ok index ∧
      index.toNat = HeapTree.node height.toNat leaf.toNat level := by
  induction level with
  | zero => exact ⟨0, rfl, (HeapTree.node_zero hLeaf).symm⟩
  | succ level ih =>
    obtain ⟨node, hFold, hNode⟩ := ih (by omega)
    refine ⟨_, ?_, toNat_child hHeight hLeaf hLevel hNode⟩
    rw [List.range_succ, List.foldlM_append, hFold, ok_bind, List.foldlM_cons,
      descend_eq hHeight hLevel, ok_bind]
    rfl

theorem getBucketIndex_eq (hHeight : height.toNat < 63)
    (hLeaf : leaf.toNat < 2 ^ height.toNat) {i : Nat} (hi : i ≤ height.toNat) :
    ∃ index, getBucketIndex height leaf (height - UInt64.ofNat i) = .ok index ∧
      index.toNat = HeapTree.node height.toNat leaf.toNat (height.toNat - i) := by
  have hOfNat : (UInt64.ofNat i).toNat = i :=
    UInt64.toNat_ofNat_of_lt' (hi.trans_lt (UInt64.toNat_lt height))
  have hLe : UInt64.ofNat i ≤ height := by
    rw [UInt64.le_iff_toNat_le, hOfNat]
    exact hi
  rw [getBucketIndex, UInt64.toNat_sub_of_le _ _ hLe, hOfNat]
  exact foldlM_descend hHeight hLeaf (Nat.sub_le _ _)

theorem getElem?_of_map_toNat
    (hPath : path.map UInt64.toNat = (HeapTree.path height.toNat leaf.toNat).reverse) {i : Nat}
    (hi : i ≤ height.toNat) :
    path[i]?.map UInt64.toNat =
      some (HeapTree.node height.toNat leaf.toNat (height.toNat - i)) := by
  have hLength := HeapTree.length_path height.toNat leaf.toNat
  rw [← List.getElem?_map, hPath, List.getElem?_reverse (by omega), hLength,
    HeapTree.path, List.getElem?_map, List.getElem?_range (by omega)]
  simp

theorem pathOf (hHeight : height.toNat < 63) (hLeaf : leaf.toNat < 2 ^ height.toNat) :
    ∃ path, PathOf height leaf path ∧
    path.map UInt64.toNat = (HeapTree.path height.toNat leaf.toNat).reverse := by
  obtain ⟨path, hPath, hNodes⟩ := getPathIndices_eq_ok hHeight hLeaf
  have hLength : path.length = height.toNat + 1 := by
    simpa using congrArg List.length hNodes
  refine ⟨path, ?_, hNodes⟩
  constructor
  case climbs => exact hPath
  case length => exact hLength
  case root =>
    have hRoot := @getElem?_of_map_toNat height leaf path hNodes height.toNat le_rfl
    rw [Nat.sub_self, HeapTree.node_zero hLeaf] at hRoot
    obtain ⟨index, hIndex, hZero⟩ := Option.map_eq_some_iff.mp hRoot
    rw [List.getLast?_eq_getElem?, hLength, Nat.add_sub_cancel, hIndex,
      UInt64.toNat_inj.mp (hZero.trans UInt64.toNat_zero.symm)]
  case descends =>
    intro i index hIndex
    have hi : i < path.length := (List.getElem?_eq_some_iff.mp hIndex).1
    have hNode := @getElem?_of_map_toNat height leaf path hNodes i (by omega)
    obtain ⟨index', hBucket, hIndex'⟩ := @getBucketIndex_eq height leaf hHeight hLeaf i (by omega)
    rw [hIndex, Option.map_some, Option.some_inj, ← hIndex', UInt64.toNat_inj] at hNode
    rw [hBucket, hNode]
  case inTree =>
    obtain ⟨numNodes, hNumNodes⟩ := exists_getNumTreeNodes hHeight
    refine ⟨numNodes, hNumNodes, fun index hIndex => ?_⟩
    rw [UInt64.lt_iff_toNat_lt, (getNumTreeNodes_eq_ok hNumNodes (by omega)).2]
    apply HeapTree.lt_nodeCount_of_mem_path hLeaf
    rw [← List.mem_reverse, ← hNodes]
    exact List.mem_map_of_mem hIndex

theorem meet (hHeight : height.toNat < 63)
    (hA : pathA.map UInt64.toNat = (HeapTree.path height.toNat a.toNat).reverse)
    (hB : pathB.map UInt64.toNat = (HeapTree.path height.toNat b.toNat).reverse) :
    Meet height a b pathA pathB := by
  constructor
  case place =>
    intro i hi
    have hNodeA := getElem?_of_map_toNat hA hi
    have hNodeB := getElem?_of_map_toNat hB hi
    obtain ⟨indexA, hIndexA, hEqA⟩ := Option.map_eq_some_iff.mp hNodeA
    obtain ⟨indexB, hIndexB, hEqB⟩ := Option.map_eq_some_iff.mp hNodeB
    rw [canPlaceInBucket_iff hHeight hi, hIndexA, hIndexB, Option.some_inj,
      ← UInt64.toNat_inj, hEqA, hEqB]
  case upwards =>
    intro i j hij hj hPlace
    rw [canPlaceInBucket_iff hHeight (hij.trans hj)] at hPlace
    rw [canPlaceInBucket_iff hHeight hj]
    exact HeapTree.node_eq_of_le (by omega) (Nat.sub_le _ _) hPlace

/-- The three notions agree on every tree that the index type can hold. -/
theorem paths_agree (hHeight : height.toNat < 63) (hA : a.toNat < 2 ^ height.toNat)
    (hB : b.toNat < 2 ^ height.toNat) :
    ∃ pathA pathB, PathOf height a pathA ∧ PathOf height b pathB ∧ Meet height a b pathA pathB := by
  obtain ⟨pathA, hPathA, hNodesA⟩ := pathOf hHeight hA
  obtain ⟨pathB, hPathB, hNodesB⟩ := pathOf hHeight hB
  exact ⟨pathA, pathB, hPathA, hPathB, meet hHeight hNodesA hNodesB⟩

/-- The leaves 2 and 3 of four share their parent. -/
theorem paths_agree_small :
    ∃ pathA pathB, PathOf 2 2 pathA ∧ PathOf 2 3 pathB ∧ Meet 2 2 3 pathA pathB :=
  paths_agree (by decide) (by decide) (by decide)

end OramHub.PathOram
