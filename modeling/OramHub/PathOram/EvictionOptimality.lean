import Mathlib.Data.Finset.Max
import Mathlib.Order.Lattice.Nat
import OramHub.Lib.Packing
import OramHub.PathOram.Eviction

/-! # Evictions leave as little as possible in the stash

Each block goes as deep as there is room when its turn comes, so it lies above a bucket of its own
only if that bucket is full. No other placement then leaves less in the stash, whatever the order of
the blocks is.
-/
namespace OramHub.PathOram
open OramHub.Core OramHub.Program OramHub.Packing
set_option autoImplicit false

/-- The buckets and the stash hold the blocks of `stash`, and every bucket holds blocks whose own
path goes through it. Bucket `i` is the one `i` steps above the leaf. -/
structure PathPlacement (positionMap : List UInt64) (height leaf : UInt64) (stash : List Block)
    (contents : List (List Block)) (kept : List Block) : Prop where
  length : contents.length = height.toNat + 1
  perm : (contents.flatten ++ kept).Perm stash
  room : ∀ blocks ∈ contents, blocks.length ≤ kBucketSize
  onPath : ∀ i, ∀ block ∈ contents.getD i [], ∃ blockLeaf own target bucketIdx,
    positionMap[block.id.toNat]? = some blockLeaf ∧ getPathIndices height blockLeaf = .ok own ∧
    getPathIndices height leaf = .ok target ∧ target[i]? = some bucketIdx ∧ bucketIdx ∈ own

/-- The index of the deepest bucket that the path of the block shares with the path of `leaf`. -/
def deepestCommon (positionMap : List UInt64) (height leaf : UInt64) (block : Block) : Nat :=
  match positionMap[block.id.toNat]? with
  | some blockLeaf =>
    ((List.range (height.toNat + 1)).find? fun i => canPlaceInBucket blockLeaf leaf i).getD
      (height.toNat + 1)
  | none => height.toNat + 1

/-- How many of the blocks whose paths meet the path of `leaf` at index `k` or above do not fit
there. -/
def surplus (positionMap : List UInt64) (height leaf : UInt64)
    (stash : List Block) (k : Nat) : Nat :=
  stash.countP (fun block => k ≤ deepestCommon positionMap height leaf block) - kBucketSize *
    (height.toNat + 1 - k)

/-- The block may lie in the bucket `i` steps above the leaf. -/
def MayLie (positionMap : List UInt64) (leaf : UInt64) (block : Block) (i : Nat) : Prop :=
  ∃ blockLeaf, positionMap[block.id.toNat]? = some blockLeaf ∧
    canPlaceInBucket blockLeaf leaf i = true

/-- A block lies above a bucket of its own only if that bucket is full. -/
structure Deepest (positionMap : List UInt64) (leaf : UInt64)
    (contents : List (List Block)) : Prop where
  deeper : ∀ i, ∀ block ∈ contents.getD i [], ∀ j < i, MayLie positionMap leaf block j →
    kBucketSize ≤ (contents.getD j []).length

variable {positionMap : List UInt64} {height leaf : UInt64} {stash kept : List Block}
  {contents : List (List Block)}
  {block : Block}

section Rounds

theorem Deepest.step (h : Deepest positionMap leaf contents)
    {contents' : List (List Block)} {kept' : List Block}
    (hPlaces : Places positionMap leaf block contents kept contents' kept') :
    Deepest positionMap leaf contents' := by
  cases hPlaces with
  | stash => exact h
  | @bucket i blockLeaf hPosition hi _ _ hFirst =>
    constructor
    intro k other hOther j hj hMay
    have hGrows := length_getD_modify_append hi block j
    rw [getD_modify_append _ hi] at hOther
    split at hOther
    · rename_i hEq
      subst hEq
      obtain hOld | hNew := List.mem_append.mp hOther
      · exact (h.deeper i other hOld j hj hMay).trans hGrows
      · obtain ⟨otherLeaf, hOtherLeaf, hPlace⟩ := hMay
        rw [List.mem_singleton.mp hNew, hPosition] at hOtherLeaf
        cases hOtherLeaf
        exact (hFirst j hj hPlace).trans hGrows
    · exact (h.deeper k other hOther j hj hMay).trans hGrows

theorem deepest_empty (positionMap : List UInt64) (leaf : UInt64) (levels : Nat) :
    Deepest positionMap leaf (List.replicate levels []) := by
  constructor
  intro i block hBlock
  rw [List.getD_eq_getElem?_getD, List.getElem?_replicate] at hBlock
  split at hBlock <;> cases hBlock

theorem evictBlocksToPath_deepest {w : World} (levels : Nat)
    (hMapped : ∀ block ∈ w.stash, block.id.toNat < w.positionMap.length) :
    Returns (evictBlocksToPath leaf (List.replicate levels { capacity := kBucketSize })) w
      fun filled w' =>
      ∃ contents kept, filled = contents.map toBucket ∧ w' = { w with stash := kept } ∧
        Evicted w.positionMap leaf levels w.stash contents kept ∧
        Deepest w.positionMap leaf contents := by
  obtain ⟨contents, kept, hFold, hEvicted, hDeepest⟩ := evictBlocks_run
    (fun visited contents kept => Evicted w.positionMap leaf levels visited contents kept ∧
      Deepest w.positionMap leaf contents)
    (fun h hPlaces => ⟨h.1.step hPlaces, h.2.step hPlaces⟩) hMapped
    ⟨evicted_empty w.positionMap leaf levels, deepest_empty w.positionMap leaf levels⟩
  rw [List.map_replicate, List.nil_append] at *
  refine Returns.get_bind (Returns.ok_bind hFold ?_)
  exact Returns.modify_bind (Returns.pure ⟨contents, kept, rfl, rfl, hEvicted, hDeepest⟩)

end Rounds

section Chain

variable {blockLeaf : UInt64} {i j : Nat}

/-- Paths that meet stay together up to the root. -/
theorem canPlaceInBucket_mono (hPlace : canPlaceInBucket blockLeaf leaf i = true)
    (hLe : i ≤ j) (hj : j < 64) :
    canPlaceInBucket blockLeaf leaf j = true := by
  obtain ⟨d, rfl⟩ := Nat.exists_eq_add_of_le hLe
  rw [canPlaceInBucket_iff_div (by omega)] at *
  rw [Nat.pow_add, ← Nat.div_div_eq_div_mul, ← Nat.div_div_eq_div_mul, hPlace]

/-- The buckets of a path are ordered from the root, which has the highest index, down to the leaf.
-/
theorem hierarchy_path (positionMap : List UInt64) (leaf : UInt64) {levels : Nat}
    (hLevels : levels ≤ 64) :
    Hierarchy (MayLie positionMap leaf) (fun i j => j ≤ i) (Finset.range levels) := by
  constructor
  case refl => exact fun i => le_rfl
  case trans => exact fun i j k hji hkj => hkj.trans hji
  case inherits =>
    rintro i hi j _ hLe block ⟨blockLeaf, hPosition, hPlace⟩
    have hLt := Finset.mem_range.mp hi
    exact ⟨blockLeaf, hPosition, canPlaceInBucket_mono hPlace hLe (by omega)⟩
  case chain => exact fun _ i _ j _ _ _ => Nat.le_total j i

theorem canPlaceInBucket_iff_mem_path (hHeight : height.toNat < 63)
    (hLeaf : leaf.toNat < 2 ^ height.toNat)
    (hBlockLeaf : blockLeaf.toNat < 2 ^ height.toNat) (hi : i ≤ height.toNat) :
    canPlaceInBucket blockLeaf leaf i = true ↔
      ∃ own target bucketIdx, getPathIndices height blockLeaf = .ok own ∧
      getPathIndices height leaf = .ok target ∧ target[i]? = some bucketIdx ∧ bucketIdx ∈ own := by
  obtain ⟨own, hOwn, hOwnNodes⟩ := getPathIndices_eq_ok hHeight hBlockLeaf
  obtain ⟨target, hTarget, hTargetNodes⟩ := getPathIndices_eq_ok hHeight hLeaf
  have hNode : (target.map UInt64.toNat)[i]? =
      some (HeapTree.node height.toNat leaf.toNat (height.toNat - i)) := by
    rw [hTargetNodes, List.getElem?_reverse (by rw [HeapTree.length_path]; omega),
      HeapTree.length_path, HeapTree.path, List.getElem?_map, List.getElem?_range (by omega)]
    exact congrArg (fun level => some (HeapTree.node height.toNat leaf.toNat level)) (by omega)
  rw [List.getElem?_map] at hNode
  obtain ⟨bucketIdx, hGet, hIndex⟩ := Option.map_eq_some_iff.mp hNode
  rw [canPlaceInBucket_iff hHeight hi]
  constructor
  · intro hSame
    refine ⟨own, target, bucketIdx, hOwn, hTarget, hGet, ?_⟩
    have hMem : bucketIdx.toNat ∈ own.map UInt64.toNat := by
      rw [hOwnNodes, List.mem_reverse, hIndex, ← hSame]
      exact HeapTree.node_mem_path _ (Nat.sub_le _ _)
    obtain ⟨other, hOther, hEq⟩ := List.mem_map.mp hMem
    exact UInt64.toNat_inj.mp hEq ▸ hOther
  · rintro ⟨own', target', bucketIdx', hOwn', hTarget', hGet', hMem⟩
    cases hOwn.symm.trans hOwn'
    cases hTarget.symm.trans hTarget'
    cases hGet.symm.trans hGet'
    have hNodes := List.mem_map_of_mem (f := UInt64.toNat) hMem
    rw [hOwnNodes, List.mem_reverse, hIndex] at hNodes
    exact (HeapTree.node_mem_path_iff hLeaf hBlockLeaf (Nat.sub_le _ _)).mp hNodes

end Chain

section Packing

variable {levels : Nat}

/-- The contents of the buckets, by index. -/
def rows (contents : List (List Block)) (i : Nat) : Multiset Block := contents.getD i []

theorem inventory_rows (hLength : contents.length = levels)
    (hPerm : (contents.flatten ++ kept).Perm stash) :
    Inventory.inventory (kept : Multiset Block) (rows contents) (Finset.range levels) = stash := by
  have hSum : ∑ i ∈ Finset.range levels, rows contents i = (contents.flatten : Multiset Block) :=
    hLength ▸ Inventory.sum_getD contents
  rw [Inventory.inventory, hSum, add_comm, Multiset.coe_add]
  exact Multiset.coe_eq_coe.mpr hPerm

theorem card_rows_le (hLength : contents.length = levels)
    (hRoom : ∀ blocks ∈ contents, blocks.length ≤ kBucketSize) :
    ∀ i ∈ Finset.range levels, (rows contents i).card ≤ kBucketSize := by
  intro i hi
  have hLt : i < contents.length := hLength ▸ Finset.mem_range.mp hi
  rw [rows, List.getD_eq_getElem _ _ hLt]
  exact hRoom _ (List.getElem_mem hLt)

theorem Evicted.placement (h : Evicted positionMap leaf levels stash contents kept) :
    Placement (MayLie positionMap leaf) kBucketSize (Finset.range levels) stash
      kept (rows contents) :=
  ⟨inventory_rows h.length h.perm, card_rows_le h.length h.room, fun i _ block hBlock =>
    h.placed i block hBlock⟩

theorem Evicted.stable (h : Evicted positionMap leaf levels stash contents kept)
    (hDeepest : Deepest positionMap leaf contents) :
    Stable (MayLie positionMap leaf) (fun i j => j ≤ i) kBucketSize (Finset.range levels) kept
      (rows contents) := by
  constructor
  case stash =>
    rintro block hBlock i hi ⟨blockLeaf, hPosition, hPlace⟩
    obtain ⟨otherLeaf, hOther, hFull⟩ := h.greedy block hBlock
    cases hPosition.symm.trans hOther
    exact hFull i (Finset.mem_range.mp hi) hPlace
  case contents =>
    intro i _ block hBlock j _ hMay hNotAbove
    exact hDeepest.deeper i block hBlock j (Nat.not_le.mp hNotAbove) hMay

theorem mayLie_iff_onPath (hHeight : height.toNat < 63) (hLeaf : leaf.toNat < 2 ^ height.toNat)
    (hLeaves : ∀ other ∈ positionMap, other.toNat < 2 ^ height.toNat) {i : Nat}
    (hi : i ≤ height.toNat) :
    MayLie positionMap leaf block i ↔ ∃ blockLeaf own target bucketIdx,
    positionMap[block.id.toNat]? = some blockLeaf ∧
      getPathIndices height blockLeaf = .ok own ∧ getPathIndices height leaf = .ok target ∧
      target[i]? = some bucketIdx ∧ bucketIdx ∈ own := by
  constructor
  · rintro ⟨blockLeaf, hPosition, hPlace⟩
    have hBlockLeaf := hLeaves blockLeaf (List.mem_of_getElem? hPosition)
    obtain ⟨own, target, bucketIdx, hShared⟩ :=
      (canPlaceInBucket_iff_mem_path hHeight hLeaf hBlockLeaf hi).mp hPlace
    exact ⟨blockLeaf, own, target, bucketIdx, hPosition, hShared⟩
  · rintro ⟨blockLeaf, own, target, bucketIdx, hPosition, hShared⟩
    have hBlockLeaf := hLeaves blockLeaf (List.mem_of_getElem? hPosition)
    exact ⟨blockLeaf, hPosition,
      (canPlaceInBucket_iff_mem_path hHeight hLeaf hBlockLeaf hi).mpr
        ⟨own, target, bucketIdx, hShared⟩⟩

theorem Evicted.pathPlacement (hHeight : height.toNat < 63) (hLeaf : leaf.toNat < 2 ^ height.toNat)
    (hLeaves : ∀ other ∈ positionMap, other.toNat < 2 ^ height.toNat)
    (h : Evicted positionMap leaf (height.toNat + 1) stash contents kept) :
    PathPlacement positionMap height leaf stash contents kept := by
  refine ⟨h.length, h.perm, h.room, fun i block hBlock => ?_⟩
  have hLt : i < contents.length := by
    by_contra hNot
    rw [List.getD_eq_default _ _ (Nat.not_lt.mp hNot)] at hBlock
    cases hBlock
  rw [h.length] at hLt
  exact (mayLie_iff_onPath hHeight hLeaf hLeaves (by omega)).mp (h.placed i block hBlock)

theorem PathPlacement.placement (hHeight : height.toNat < 63)
    (hLeaf : leaf.toNat < 2 ^ height.toNat)
    (hLeaves : ∀ other ∈ positionMap, other.toNat < 2 ^ height.toNat)
    (h : PathPlacement positionMap height leaf stash contents kept) :
    Placement (MayLie positionMap leaf) kBucketSize (Finset.range (height.toNat + 1)) stash kept
      (rows contents) := by
  refine ⟨inventory_rows h.length h.perm, card_rows_le h.length h.room, fun i hi block hBlock => ?_⟩
  have hLt := Finset.mem_range.mp hi
  exact (mayLie_iff_onPath hHeight hLeaf hLeaves (by omega)).mpr (h.onPath i block hBlock)

end Packing

section Formula

variable {i k : Nat}

theorem le_getD_find?_iff {p : Nat → Bool} {n : Nat} (hk : k ≤ n) :
    k ≤ ((List.range n).find? p).getD n ↔ ∀ i < n, p i = true → k ≤ i := by
  cases hFind : (List.range n).find? p with
  | none =>
    have hNone := List.find?_eq_none.mp hFind
    exact ⟨fun _ i hi hp => absurd hp (hNone i (List.mem_range.mpr hi)), fun _ => hk⟩
  | some first =>
    obtain ⟨hp, hMem, hBefore⟩ := List.find?_range_eq_some.mp hFind
    rw [Option.getD_some]
    constructor
    · intro hLe i _ hpi
      by_contra hLt
      have hNot := hBefore i (by omega)
      rw [hpi] at hNot
      cases hNot
    · intro hAll
      exact hAll first (List.mem_range.mp hMem) hp

/-- A block is confined to the buckets from `k` up exactly when its path meets the target path no
deeper. -/
theorem confined_iff (hMapped : block.id.toNat < positionMap.length) (hk : k ≤ height.toNat + 1) :
    Confined (MayLie positionMap leaf) (Finset.range (height.toNat + 1))
      (Finset.Ico k (height.toNat + 1)) block ↔
      k ≤ deepestCommon positionMap height leaf block := by
  have hPosition : positionMap[block.id.toNat]? = some positionMap[block.id.toNat] :=
    List.getElem?_eq_getElem hMapped
  rw [deepestCommon, hPosition]
  dsimp only
  rw [le_getD_find?_iff hk]
  constructor
  · intro hConfined i hi hPlace
    exact (Finset.mem_Ico.mp (hConfined i (Finset.mem_range.mpr hi) ⟨_, hPosition, hPlace⟩)).1
  · rintro hAll i hi ⟨blockLeaf, hOther, hPlace⟩
    cases hPosition.symm.trans hOther
    have hLt := Finset.mem_range.mp hi
    exact Finset.mem_Ico.mpr ⟨hAll i hLt hPlace, hLt⟩

theorem countP_confined
    [DecidablePred (Confined (MayLie positionMap leaf) (Finset.range (height.toNat + 1))
      (Finset.Ico k (height.toNat + 1)))] (hMapped : ∀ block ∈ stash,
        block.id.toNat < positionMap.length)
    (hk : k ≤ height.toNat + 1) :
    (stash : Multiset Block).countP
      (Confined (MayLie positionMap leaf) (Finset.range (height.toNat + 1))
        (Finset.Ico k (height.toNat + 1))) =
      stash.countP fun block => k ≤ deepestCommon positionMap height leaf block := by
  rw [Multiset.coe_countP]
  apply List.countP_congr
  intro block hBlock
  rw [decide_eq_true_eq, decide_eq_true_eq]
  exact confined_iff (hMapped block hBlock) hk

theorem deepestCommon_le (hLeaf : leaf.toNat < 2 ^ height.toNat) (hHeight : height.toNat < 63)
    (hLeaves : ∀ other ∈ positionMap, other.toNat < 2 ^ height.toNat)
    (hMapped : block.id.toNat < positionMap.length) :
    ¬ height.toNat + 1 ≤ deepestCommon positionMap height leaf block := by
  have hBlockLeaf := hLeaves _ (List.getElem_mem hMapped)
  rw [deepestCommon, List.getElem?_eq_getElem hMapped]
  dsimp only
  rw [le_getD_find?_iff le_rfl]
  intro hAll
  have hRoot : canPlaceInBucket positionMap[block.id.toNat] leaf height.toNat = true := by
    rw [canPlaceInBucket_iff_div (by omega), Nat.div_eq_of_lt hBlockLeaf, Nat.div_eq_of_lt hLeaf]
  have hLe := hAll height.toNat (Nat.lt_succ_self _) hRoot
  omega

theorem upward_eq_Ico {n : Nat} {closed : Finset Nat} (hSub : closed ⊆ Finset.range n)
    (hUp : ∀ j ∈ closed, ∀ i, j ≤ i → i < n → i ∈ closed) : ∃ k ≤ n, closed = Finset.Ico k n := by
  rcases closed.eq_empty_or_nonempty with rfl | hNonempty
  · exact ⟨n, le_rfl, (Finset.Ico_self n).symm⟩
  · have hMin := closed.min'_mem hNonempty
    refine ⟨closed.min' hNonempty, (Finset.mem_range.mp (hSub hMin)).le, ?_⟩
    ext i
    rw [Finset.mem_Ico]
    constructor
    · exact fun hi => ⟨closed.min'_le i hi, Finset.mem_range.mp (hSub hi)⟩
    · exact fun hi => hUp _ hMin i hi.1 hi.2

/-- No placement leaves less than a surplus in the stash. -/
theorem surplus_le (hMapped : ∀ block ∈ stash, block.id.toNat < positionMap.length)
    (h : Placement (MayLie positionMap leaf) kBucketSize (Finset.range (height.toNat + 1)) stash
      kept (rows contents))
    (hk : k ≤ height.toNat + 1) : surplus positionMap height leaf stash k ≤ kept.length := by
  classical
  have hSub : Finset.Ico k (height.toNat + 1) ⊆ Finset.range (height.toNat + 1) := fun i hi =>
    Finset.mem_range.mpr (Finset.mem_Ico.mp hi).2
  have hBound := h.countP_le hSub
  rw [countP_confined hMapped hk, Nat.card_Ico, Multiset.coe_card, Nat.mul_comm] at hBound
  rw [surplus]
  omega

/-- A stable placement leaves exactly the largest surplus in the stash. -/
theorem length_kept_eq (hHeight : height.toNat < 63) (hLeaf : leaf.toNat < 2 ^ height.toNat)
    (hLeaves : ∀ other ∈ positionMap, other.toNat < 2 ^ height.toNat)
    (hMapped : ∀ block ∈ stash, block.id.toNat < positionMap.length)
    (h : Placement (MayLie positionMap leaf) kBucketSize (Finset.range (height.toNat + 1)) stash
      kept (rows contents))
    (hStable : Stable (MayLie positionMap leaf) (fun i j => j ≤ i) kBucketSize
      (Finset.range (height.toNat + 1)) kept (rows contents)) :
    kept.length = (Finset.range (height.toNat + 1)).sup
      (surplus positionMap height leaf stash) := by
  classical
  apply Nat.le_antisymm
  · obtain ⟨closed, hSub, hUp, hTight⟩ :=
      hStable.exists_tight (hierarchy_path positionMap leaf (by omega)) h
    obtain ⟨k, hk, rfl⟩ := upward_eq_Ico hSub fun j hj i hLe hi =>
      hUp j hj i (Finset.mem_range.mpr hi) hLe
    have hCount := (countP_confined hMapped hk).symm.trans hTight
    rw [Nat.card_Ico, Multiset.coe_card, Nat.mul_comm] at hCount
    rcases Nat.lt_or_ge k (height.toNat + 1) with hLt | hGe
    · have hSurplus : surplus positionMap height leaf stash k = kept.length := by
        rw [surplus]
        omega
      exact hSurplus ▸ Finset.le_sup (Finset.mem_range.mpr hLt)
    · obtain rfl := Nat.le_antisymm hk hGe
      have hNone : stash.countP
          (fun block => height.toNat + 1 ≤ deepestCommon positionMap height leaf block) = 0 := by
        rw [List.countP_eq_zero]
        intro block hBlock
        rw [decide_eq_true_eq]
        exact deepestCommon_le hLeaf hHeight hLeaves (hMapped block hBlock)
      omega
  · apply Finset.sup_le
    intro k hk
    exact surplus_le hMapped h (Finset.mem_range.mp hk).le

end Formula

section Optimality

variable {w : World}

/-- Evicting the same blocks in another order fills every bucket to the same extent. -/
theorem fills_eq {levels : Nat} (hLevels : levels ≤ 64) {stash' kept' : List Block}
    {contents' : List (List Block)}
    (hPerm : stash'.Perm stash) (h : Evicted positionMap leaf levels stash contents kept)
    (hDeepest : Deepest positionMap leaf contents)
    (h' : Evicted positionMap leaf levels stash' contents' kept')
    (hDeepest' : Deepest positionMap leaf contents') :
    kept'.length = kept.length ∧ contents'.map List.length = contents.map List.length := by
  have hItems : (stash' : Multiset Block) = stash := Multiset.coe_eq_coe.mpr hPerm
  have hPlaced' := h'.placement
  rw [hItems] at hPlaced'
  have hSums : ∀ k ≤ levels, ∑ i ∈ Finset.range k, (rows contents' i).card = ∑ i ∈ Finset.range k,
      (rows contents i).card := by
    intro k hk
    apply (h'.stable hDeepest').sum_card_eq (hierarchy_path positionMap leaf hLevels) hPlaced'
      h.placement (h.stable hDeepest)
    · exact Finset.range_subset_range.mpr hk
    · intro i hi j _ hLe
      exact Finset.mem_range.mpr (Nat.lt_of_le_of_lt hLe (Finset.mem_range.mp hi))
  have hRows : ∀ i < levels, (rows contents' i).card = (rows contents i).card := by
    intro i hi
    have hNext := hSums (i + 1) hi
    rw [Finset.sum_range_succ, Finset.sum_range_succ, hSums i hi.le] at hNext
    exact Nat.add_left_cancel hNext
  constructor
  · have hTotal := hPlaced'.card_items
    rw [h.placement.card_items, hSums levels le_rfl] at hTotal
    exact (Nat.add_right_cancel hTotal).symm
  · apply List.ext_getElem
    · rw [List.length_map, List.length_map, h.length, h'.length]
    · intro i hi hi'
      rw [List.length_map] at hi hi'
      have hSame := hRows i (h'.length ▸ hi)
      rw [rows, rows, List.getD_eq_getElem _ _ hi, List.getD_eq_getElem _ _ hi'] at hSame
      rw [List.getElem_map, List.getElem_map]
      exact hSame

/-- An eviction keeps every block, puts blocks on their own paths, and leaves as few blocks in the
stash as any placement can. How many these are, and how full the buckets get, does not depend on the
order of the stash. -/
theorem evictBlocksToPath_optimal (hHeight : height.toNat < 63)
    (hLeaf : leaf.toNat < 2 ^ height.toNat)
    (hLeaves : ∀ other ∈ w.positionMap, other.toNat < 2 ^ height.toNat)
    (hMapped : ∀ block ∈ w.stash, block.id.toNat < w.positionMap.length) :
    ∃ contents kept,
    (evictBlocksToPath leaf (List.replicate (height.toNat + 1) { capacity := kBucketSize })).run w =
        .ok (contents.map toBucket) { w with stash := kept } ∧
      PathPlacement w.positionMap height leaf w.stash contents kept ∧
      (∀ contents' kept', PathPlacement w.positionMap height leaf w.stash contents' kept' →
        kept.length ≤ kept'.length) ∧
      kept.length = (Finset.range (height.toNat + 1)).sup
        (surplus w.positionMap height leaf w.stash) ∧
      ∀ stash', stash'.Perm w.stash → ∃ (contents' : List (List Block)) (kept' : List Block),
        (evictBlocksToPath leaf (List.replicate (height.toNat + 1) { capacity := kBucketSize })).run
          { w with stash := stash' } = .ok (contents'.map toBucket) { w with stash := kept' } ∧
        kept'.length = kept.length ∧ contents'.map List.length = contents.map List.length := by
  have hRun : ∀ stash', stash'.Perm w.stash → ∃ contents kept,
      (evictBlocksToPath leaf (List.replicate (height.toNat + 1) { capacity := kBucketSize })).run
        { w with stash := stash' } =
        .ok (contents.map toBucket) { w with stash := kept } ∧
      Evicted w.positionMap leaf (height.toNat + 1) stash' contents kept ∧
      Deepest w.positionMap leaf contents := by
    intro stash' hPerm
    obtain ⟨_, _, hRun, contents, kept, rfl, rfl, hEvicted⟩ := returns_iff.mp
      (@evictBlocksToPath_deepest leaf { w with stash := stash' } (height.toNat + 1)
        fun block hBlock => hMapped block (hPerm.subset hBlock))
    exact ⟨contents, kept, hRun, hEvicted⟩
  obtain ⟨contents, kept, hEviction, hEvicted, hDeepest⟩ := hRun w.stash (List.Perm.refl _)
  have hStable := hEvicted.stable hDeepest
  refine ⟨contents, kept, hEviction, hEvicted.pathPlacement hHeight hLeaf hLeaves, ?_, ?_, ?_⟩
  · intro contents' kept' hOther
    exact hStable.card_stash_le (hierarchy_path _ leaf (by omega)) hEvicted.placement
      (hOther.placement hHeight hLeaf hLeaves)
  · exact length_kept_eq hHeight hLeaf hLeaves hMapped hEvicted.placement hStable
  · intro stash' hPerm
    obtain ⟨contents', kept', hEviction', hEvicted', hDeepest'⟩ := hRun stash' hPerm
    exact ⟨contents', kept', hEviction',
      fills_eq (by omega) hPerm hEvicted hDeepest hEvicted' hDeepest'⟩

/-- Two leaves, and ten blocks of which nine map to the first. -/
def crowded : World where
  positionMap := [0, 1]
  stash := ⟨1, [7]⟩ :: List.replicate 9 ⟨0, []⟩

theorem evictBlocksToPath_crowded : ∃ contents kept,
    (evictBlocksToPath 0 (List.replicate 2 { capacity := kBucketSize })).run crowded =
      .ok (contents.map toBucket) { crowded with stash := kept } ∧
    PathPlacement crowded.positionMap 1 0 crowded.stash contents kept ∧ kept.length = 2 := by
  have hAll : crowded.positionMap.all (fun leaf => leaf.toNat < 2 ^ 1) = true := by decide
  have hLeaves : ∀ leaf ∈ crowded.positionMap, leaf.toNat < 2 ^ 1 := by
    simpa only [List.all_eq_true, decide_eq_true_eq] using hAll
  obtain ⟨contents, kept, hRun, hPlaced, _, hLength, _⟩ :=
    @evictBlocksToPath_optimal 1 0 crowded (by decide) (by decide) hLeaves (by decide)
  have hSurplus : (Finset.range 2).sup (surplus crowded.positionMap 1 0 crowded.stash) = 2 := by
    decide
  exact ⟨contents, kept, hRun, hPlaced, hLength.trans hSurplus⟩

end Optimality
end OramHub.PathOram
