import OramHub.RingOram.Runs

/-! # Tree navigation

The halving loop, the descent and the paths of Ring ORAM invert each other. A bucket lies on the
paths of a range of leaves.
-/
namespace OramHub.RingOram
open OramHub.Core OramHub.Program OramHub.RingOram.RuntimeConfig
set_option autoImplicit false

section Statement

variable (env : Env)

/-- The path of a leaf, seen through each of the functions. No index wraps around. -/
structure LeafPath (leaf : UInt64) (path : List UInt64) : Prop where
  eq : env.cfg.getPathIndices leaf = .ok path
  length : path.length = env.cfg.depth + 1
  level : ∀ k ≤ env.cfg.depth, ∃ index, env.cfg.getBucketIndex leaf k = .ok index ∧
    env.cfg.getNodeLevel index = .ok k ∧
    path[k]? = some index ∧ index.toNat = 2 ^ k - 1 + leaf.toNat / 2 ^ (env.cfg.depth - k)
  inTree : ∀ index ∈ path, index < env.cfg.numTreeNodes
  last : path.getLast? = some (env.cfg.leafOffset + leaf)
  member : ∀ bucketIdx < env.cfg.numTreeNodes, ∃ onPath,
    env.cfg.isBucketOnLeafPath bucketIdx leaf = .ok onPath ∧
    canResideInBucket env leaf bucketIdx = .ok onPath ∧ (onPath = true ↔ bucketIdx ∈ path)

/-- A bucket at level `k` and the leaves below it, which start with `first`. -/
structure Covers (bucketIdx : UInt64) (k first : Nat) : Prop where
  level : env.cfg.getNodeLevel bucketIdx = .ok k
  level_le : k ≤ env.cfg.depth
  range : first + 2 ^ (env.cfg.depth - k) ≤ env.cfg.numLeaves.toNat
  leaves : ∀ leaf < env.cfg.numLeaves, ∀ path, env.cfg.getPathIndices leaf = .ok path →
    (bucketIdx ∈ path ↔ first ≤ leaf.toNat ∧ leaf.toNat < first + 2 ^ (env.cfg.depth - k))

structure Navigable : Prop where
  paths : ∀ leaf < env.cfg.numLeaves, ∃ path, LeafPath env leaf path
  buckets : ∀ bucketIdx < env.cfg.numTreeNodes, ∃ k first, Covers env bucketIdx k first

end Statement

variable {env : Env} {leaf bucketIdx : UInt64} {path : List UInt64}

theorem leaf_lt_iff (hDepth : env.cfg.depth < 63) :
    leaf < env.cfg.numLeaves ↔ leaf.toNat < 2 ^ env.cfg.depth := by
  rw [UInt64.lt_iff_toNat_lt, toNat_numLeaves hDepth]

theorem bucketIdx_lt_iff (hDepth : env.cfg.depth < 63) :
    bucketIdx < env.cfg.numTreeNodes ↔ bucketIdx.toNat < HeapTree.nodeCount env.cfg.depth := by
  rw [UInt64.lt_iff_toNat_lt, toNat_numTreeNodes hDepth]

theorem toNat_leafOffset_add (hDepth : env.cfg.depth < 63)
    (hLeaf : leaf.toNat < 2 ^ env.cfg.depth) :
    (env.cfg.leafOffset + leaf).toNat = HeapTree.node env.cfg.depth leaf.toNat env.cfg.depth := by
  have hLeaves := toNat_numLeaves hDepth
  have hPos : 0 < 2 ^ env.cfg.depth := Nat.pow_pos (by decide)
  have hPow : 2 ^ env.cfg.depth ≤ 2 ^ 62 := Nat.pow_le_pow_right (by decide) (by omega)
  have hOne : (1 : UInt64) ≤ env.cfg.numLeaves := by
    rw [UInt64.le_iff_toNat_le, hLeaves]
    exact hPos
  have hOffset : env.cfg.leafOffset.toNat = 2 ^ env.cfg.depth - 1 := by
    rw [← hLeaves]
    exact UInt64.toNat_sub_of_le _ _ hOne
  rw [UInt64.toNat_add, hOffset, HeapTree.node_height]
  omega

theorem getNodeLevel_eq (hDepth : env.cfg.depth < 63) (hLeaf : leaf.toNat < 2 ^ env.cfg.depth)
    {k : Nat} (hk : k ≤ env.cfg.depth)
    (hNode : bucketIdx.toNat = HeapTree.node env.cfg.depth leaf.toNat k) :
    env.cfg.getNodeLevel bucketIdx = .ok k := by
  have hInTree : ¬ env.cfg.numTreeNodes ≤ bucketIdx := by
    rw [UInt64.not_le, bucketIdx_lt_iff hDepth, hNode]
    exact HeapTree.node_lt_nodeCount hLeaf hk
  rw [getNodeLevel, if_neg hInTree, hNode, nodeLevel_node hLeaf hk]

theorem mem_iff_toNat_mem
    (hNodes : path.map UInt64.toNat = HeapTree.path env.cfg.depth leaf.toNat) :
    bucketIdx ∈ path ↔ bucketIdx.toNat ∈ HeapTree.path env.cfg.depth leaf.toNat := by
  rw [← hNodes]
  exact (List.mem_map_of_injective fun _ _ => UInt64.toNat_inj.mp).symm

theorem leafPath (hDepth : env.cfg.depth < 63) (hLeaf : leaf.toNat < 2 ^ env.cfg.depth) :
    ∃ path, LeafPath env leaf path := by
  obtain ⟨path, hPath, hNodes⟩ := getPathIndices_eq_ok hDepth hLeaf
  have hLength : path.length = env.cfg.depth + 1 := by
    simpa using congrArg List.length hNodes
  have hGet {k : Nat} (hk : k ≤ env.cfg.depth) :
      path[k]?.map UInt64.toNat = some (HeapTree.node env.cfg.depth leaf.toNat k) := by
    rw [← List.getElem?_map, hNodes, HeapTree.path, List.getElem?_map,
      List.getElem?_range (by omega)]
    rfl
  refine ⟨path, ?_⟩
  constructor
  case eq => exact hPath
  case length => exact hLength
  case level =>
    intro k hk
    obtain ⟨index, hBucket, hIndex⟩ := getBucketIndex_eq_ok hDepth hLeaf hk
    obtain ⟨index', hAt, hIndex'⟩ := Option.map_eq_some_iff.mp (hGet hk)
    obtain rfl := UInt64.toNat_inj.mp (hIndex'.trans hIndex.symm)
    exact ⟨index', hBucket, getNodeLevel_eq hDepth hLeaf hk hIndex, hAt, hIndex⟩
  case inTree =>
    intro index hIndex
    rw [bucketIdx_lt_iff hDepth]
    exact HeapTree.lt_nodeCount_of_mem_path hLeaf ((mem_iff_toNat_mem hNodes).mp hIndex)
  case last =>
    obtain ⟨index, hAt, hIndex⟩ := Option.map_eq_some_iff.mp (hGet le_rfl)
    rw [List.getLast?_eq_getElem?, hLength, Nat.add_sub_cancel, hAt,
      UInt64.toNat_inj.mp (hIndex.trans (toNat_leafOffset_add hDepth hLeaf).symm)]
  case member =>
    intro bucketIdx hBucket
    have hOnPath := isBucketOnLeafPath_eq_ok hDepth ((bucketIdx_lt_iff hDepth).mp hBucket) hLeaf
    refine ⟨_, hOnPath, hOnPath, ?_⟩
    rw [decide_eq_true_iff, mem_iff_toNat_mem hNodes]

theorem covers (hDepth : env.cfg.depth < 63)
    (hBucket : bucketIdx.toNat < HeapTree.nodeCount env.cfg.depth) :
    ∃ k first, Covers env bucketIdx k first := by
  obtain ⟨below, k, hBelow, hk, hNode⟩ := HeapTree.exists_node hBucket
  have hPlace := HeapTree.div_lt_of_level hBelow hk
  have hBelowNat : (UInt64.ofNat below).toNat = below := by
    have hPow : 2 ^ env.cfg.depth ≤ 2 ^ 62 := Nat.pow_le_pow_right (by decide) (by omega)
    exact UInt64.toNat_ofNat_of_lt' (by rw [UInt64.size]; omega)
  refine ⟨k, below / 2 ^ (env.cfg.depth - k) * 2 ^ (env.cfg.depth - k), ?_⟩
  constructor
  case level =>
    apply @getNodeLevel_eq env (UInt64.ofNat below) bucketIdx hDepth _ k hk
    · rw [hBelowNat, hNode]
    · rwa [hBelowNat]
  case level_le => exact hk
  case range =>
    rw [toNat_numLeaves hDepth]
    exact HeapTree.range_place_le hk hPlace
  case leaves =>
    intro leaf hLeaf path hPath
    rw [leaf_lt_iff hDepth] at hLeaf
    obtain ⟨path', hPath', hNodes⟩ := getPathIndices_eq_ok hDepth hLeaf
    obtain rfl := Except.ok.inj (hPath.symm.trans hPath')
    rw [mem_iff_toNat_mem hNodes, ← hNode, HeapTree.node,
      HeapTree.place_mem_path_iff_range hLeaf hk hPlace]

/-- Every tree with indices of 64 bits can be navigated. -/
theorem navigable (hDepth : env.cfg.depth < 63) : Navigable env := by
  constructor
  case paths =>
    intro leaf hLeaf
    exact leafPath hDepth ((leaf_lt_iff hDepth).mp hLeaf)
  case buckets =>
    intro bucketIdx hBucket
    exact covers hDepth ((bucketIdx_lt_iff hDepth).mp hBucket)

theorem navigable_small : Navigable .small := navigable (by decide)

end OramHub.RingOram
