import Mathlib.Data.List.FinRange
import OramHub.RingOram.LiveBlocks

/-! # Freshly filled buckets

`ResetWithBlocks` puts the blocks at the first positions of a permutation of the slots, so that
the bucket's live blocks are exactly the blocks it was given.
-/
namespace OramHub.RingOram
open OramHub.Core
set_option autoImplicit false

/-- A block that may be stored under `cfg`. -/
structure Storable (cfg : RuntimeConfig) (block : RingBlock) : Prop where
  addr : block.addr ≠ kDummyAddress
  data : block.data.length = cfg.blockSize.toNat

namespace RingBucket

structure Fresh (cfg : RuntimeConfig) (blocks : List RingBlock) (bucket : RingBucket) : Prop where
  wellFormed : bucket.WellFormed cfg
  valids : bucket.valids = List.replicate cfg.slots true
  live : bucket.liveBlocks = blocks

/-- The bucket in the middle of the loop of `ResetWithBlocks`, when `blocks` are in place. -/
structure Placed (cfg : RuntimeConfig) (permutation : List Nat) (blocks : List RingBlock)
    (bucket : RingBucket) : Prop where
  count : bucket.count = 0
  valids : bucket.valids = List.replicate cfg.slots true
  addrs : bucket.addrs = blocks.map RingBlock.addr ++
    List.replicate (cfg.z.toNat - blocks.length) kDummyAddress
  leaves : bucket.leaves = blocks.map RingBlock.leaf ++
    List.replicate (cfg.z.toNat - blocks.length) 0
  ptrs : bucket.ptrs = permutation.take cfg.z.toNat
  blockSize : bucket.blockSize = cfg.blockSize
  data_length : bucket.data.length = cfg.slots
  block_length : ∀ block ∈ bucket.data, block.data.length = cfg.blockSize.toNat
  real : blocks = (List.range blocks.length).map bucket.entry
  unused : ∀ offset < cfg.slots, offset ∉ (List.range blocks.length).map bucket.ptr →
    bucket.payload offset = List.replicate cfg.blockSize.toNat 0

variable {cfg : RuntimeConfig} {permutation : List Nat}

theorem makePermutation_perm (size : Nat) (shuffle : Equiv.Perm (Fin size)) :
    (makePermutation size shuffle).Nodup ∧
    (∀ offset ∈ makePermutation size shuffle, offset < size) ∧
      (makePermutation size shuffle).length = size := by
  refine ⟨?_, ?_, List.length_ofFn⟩
  · rw [makePermutation, List.nodup_ofFn]
    intro i j hEq
    exact shuffle.injective (Fin.val_injective hEq)
  · intro offset hOffset
    obtain ⟨i, rfl⟩ := List.mem_ofFn.mp hOffset
    exact (shuffle i).isLt

theorem slotCount_empty (hSlots : cfg.slots < 2 ^ 64) :
    (empty cfg.z cfg.s cfg.blockSize).slotCount = cfg.slots := by
  rw [slotCount]
  exact (UInt64.toNat_add _ _).trans (Nat.mod_eq_of_lt hSlots)

theorem getD_map {α β : Type} (f : α → β) (l : List α) {i : Nat}
    (h : i < l.length) (d : α) (d' : β) :
    (l.map f).getD i d' = f (l.getD i d) := by
  rw [List.getD_eq_getElem _ _ (by rwa [List.length_map]), List.getElem_map,
    List.getD_eq_getElem _ _ h]

theorem placed_cleared (hSlots : cfg.slots < 2 ^ 64) :
    Placed cfg permutation [] ((empty cfg.z cfg.s cfg.blockSize).cleared permutation) := by
  have hCount : (cfg.z + cfg.s).toNat = cfg.slots := slotCount_empty hSlots
  refine ⟨rfl, ?_, ?_, ?_, ?_, rfl, ?_, ?_, rfl, ?_⟩
  · simp [cleared, empty, hCount]
  · simp [cleared, empty]
  · simp [cleared, empty]
  · simp [cleared, empty]
  · simp [cleared, empty, slotCount, hCount]
  · intro block hBlock
    rw [(List.mem_replicate.mp hBlock).2]
    exact List.length_replicate
  · intro offset hOffset _
    change ((List.replicate _ (RingBlock.dummy cfg.blockSize.toNat)).getD offset {}).data = _
    rw [slotCount_empty hSlots, List.getD_eq_getElem _ _ (by rwa [List.length_replicate]),
      List.getElem_replicate]
    rfl

section Labels

variable {β : Type} {label : RingBlock → β} {unlabelled : β} {blocks : List RingBlock}
  {block : RingBlock} {size : Nat}

/-- The metadata entries of a bucket with one more block in it. -/
theorem set_labels (hRoom : blocks.length < size) :
    (blocks.map label ++ List.replicate (size - blocks.length) unlabelled).set
      blocks.length (label block) =
      (blocks ++ [block]).map label ++
        List.replicate (size - (blocks ++ [block]).length) unlabelled := by
  have hReplicate : List.replicate (size - blocks.length) unlabelled =
      unlabelled :: List.replicate (size - (blocks ++ [block]).length) unlabelled := by
    rw [← List.replicate_succ, List.length_append, List.length_singleton]
    congr 1
    omega
  rw [List.set_append_right _ _ (by simp), hReplicate]
  simp

theorem getD_labels_of_lt {rest rest' : List β} {i : Nat} (hi : i < blocks.length) :
    ((blocks ++ [block]).map label ++ rest').getD i unlabelled =
      (blocks.map label ++ rest).getD i unlabelled := by
  rw [List.getD_append _ _ _ _ (by simp; omega), List.getD_append _ _ _ _ (by simpa using hi),
    List.map_append, List.getD_append _ _ _ _ (by simpa using hi)]

theorem getD_labels_length {rest : List β} :
    ((blocks ++ [block]).map label ++ rest).getD blocks.length unlabelled = label block := by
  rw [List.getD_append _ _ _ _ (by simp), List.map_append, List.getD_append_right _ _ _ _ (by simp)]
  simp

end Labels

section Placing

variable {blocks : List RingBlock} {bucket : RingBucket} {block : RingBlock}

theorem Placed.length_ptrs (h : Placed cfg permutation blocks bucket)
    (hLength : permutation.length = cfg.slots) :
    bucket.ptrs.length = cfg.z.toNat := by
  rw [h.ptrs, List.length_take, hLength, RuntimeConfig.slots]
  omega

theorem Placed.ptr_lt (h : Placed cfg permutation blocks bucket)
    (hLt : ∀ offset ∈ permutation, offset < cfg.slots)
    (hLength : permutation.length = cfg.slots) {i : Nat} (hi : i < cfg.z.toNat) :
    bucket.ptr i < bucket.data.length := by
  have hMem : bucket.ptr i ∈ bucket.ptrs := by
    rw [ptr, List.getD_eq_getElem _ _ (by rwa [h.length_ptrs hLength])]
    exact List.getElem_mem _
  rw [h.ptrs] at hMem
  exact h.data_length ▸ hLt _ (List.mem_of_mem_take hMem)

theorem Placed.placeBlock_eq (h : Placed cfg permutation blocks bucket)
    (hBlock : Storable cfg block) :
    bucket.placeBlock (block, blocks.length) =
      { bucket with
        addrs := bucket.addrs.set blocks.length block.addr
        leaves := bucket.leaves.set blocks.length block.leaf
        data := bucket.data.set (bucket.ptr blocks.length) block } := by
  have hNormal : normalizeBlock block bucket.blockSize.toNat = block := by
    rw [normalizeBlock, h.blockSize, resize_of_length hBlock.data]
  simp only [RingBucket.placeBlock, hNormal]
  rfl

theorem payload_setData (addrs leaves : List UInt64) {slot : Nat}
    (hSlot : slot < bucket.data.length) (offset : Nat) :
    ({ bucket with addrs := addrs, leaves := leaves, data := bucket.data.set slot block } :
      RingBucket).payload offset =
      if offset = slot then block.data else bucket.payload offset := by
  rw [payload, payload, List.getD_eq_getElem?_getD, List.getElem?_set]
  by_cases hEq : slot = offset
  · rw [if_pos hEq, if_pos (hEq ▸ hSlot), if_pos hEq.symm]
    rfl
  · rw [if_neg hEq, if_neg (Ne.symm hEq), List.getD_eq_getElem?_getD]

theorem Placed.placeBlock (h : Placed cfg permutation blocks bucket) (hNodup : permutation.Nodup)
    (hLt : ∀ offset ∈ permutation, offset < cfg.slots) (hLength : permutation.length = cfg.slots)
    (hRoom : blocks.length < cfg.z.toNat) (hBlock : Storable cfg block) :
    Placed cfg permutation (blocks ++ [block]) (bucket.placeBlock (block, blocks.length)) := by
  have hPtrs := h.length_ptrs hLength
  have hPtrNodup : bucket.ptrs.Nodup := h.ptrs ▸ hNodup.sublist (List.take_sublist _ _)
  have hPlaced := h.placeBlock_eq hBlock
  have hPayload : ∀ offset, (bucket.placeBlock (block, blocks.length)).payload offset =
      if offset = bucket.ptr blocks.length then block.data else bucket.payload offset := by
    rw [hPlaced]
    exact payload_setData _ _ (h.ptr_lt hLt hLength hRoom)
  have hPtr : (bucket.placeBlock (block, blocks.length)).ptr = bucket.ptr := by rw [hPlaced]; rfl
  have hAddrs : (bucket.placeBlock (block, blocks.length)).addrs =
      (blocks ++ [block]).map RingBlock.addr ++
        List.replicate (cfg.z.toNat - (blocks ++ [block]).length) kDummyAddress := by
    rw [hPlaced, ← set_labels hRoom, ← h.addrs]
  have hLeaves : (bucket.placeBlock (block, blocks.length)).leaves =
      (blocks ++ [block]).map RingBlock.leaf ++
        List.replicate (cfg.z.toNat - (blocks ++ [block]).length) 0 := by
    rw [hPlaced, ← set_labels hRoom, ← h.leaves]
  have hOld : ∀ i < blocks.length,
      (bucket.placeBlock (block, blocks.length)).entry i = bucket.entry i := by
    intro i hi
    have hNe : bucket.ptr i ≠ bucket.ptr blocks.length := fun hEq =>
      hi.ne (getD_injective hPtrNodup (by omega) (by omega) hEq)
    rw [entry, entry, hPtr, hPayload, if_neg hNe, hAddrs, hLeaves, h.addrs, h.leaves]
    exact congrArg₂ (RingBlock.mk · · _) (getD_labels_of_lt hi) (getD_labels_of_lt hi)
  have hNew : (bucket.placeBlock (block, blocks.length)).entry blocks.length = block := by
    rw [entry, hPtr, hPayload, if_pos rfl, hAddrs, hLeaves, getD_labels_length, getD_labels_length]
  constructor
  case count => rw [hPlaced]; exact h.count
  case valids => rw [hPlaced]; exact h.valids
  case addrs => exact hAddrs
  case leaves => exact hLeaves
  case ptrs => rw [hPlaced]; exact h.ptrs
  case blockSize => rw [hPlaced]; exact h.blockSize
  case data_length => rw [hPlaced]; exact (List.length_set).trans h.data_length
  case block_length =>
    rw [hPlaced]
    intro other hOther
    obtain hMem | rfl := List.mem_or_eq_of_mem_set hOther
    · exact h.block_length other hMem
    · exact hBlock.data
  case real =>
    rw [List.length_append, List.length_singleton, List.range_succ, List.map_append,
      List.map_singleton, hNew]
    congr 1
    rw [List.map_congr_left fun i hi => hOld i (List.mem_range.mp hi)]
    exact h.real
  case unused =>
    intro offset hOffset hUnused
    rw [List.length_append, List.length_singleton, List.range_succ,
      List.map_append, List.mem_append,
      not_or, List.map_singleton, List.mem_singleton, hPtr] at hUnused
    rw [hPayload, if_neg hUnused.2]
    exact h.unused offset hOffset hUnused.1

end Placing

theorem placed_foldl (hSlots : cfg.slots < 2 ^ 64) (hNodup : permutation.Nodup)
    (hLt : ∀ offset ∈ permutation, offset < cfg.slots) (hLength : permutation.length = cfg.slots)
    (blocks : List RingBlock) (hRoom : blocks.length ≤ cfg.z.toNat)
    (hBlocks : ∀ block ∈ blocks, Storable cfg block) :
    Placed cfg permutation blocks
      (blocks.zipIdx.foldl placeBlock ((empty cfg.z cfg.s cfg.blockSize).cleared permutation)) := by
  induction blocks using List.reverseRecOn with
  | nil => exact placed_cleared hSlots
  | append_singleton blocks block ih =>
    rw [List.length_append, List.length_singleton] at hRoom
    have hPlaced := ih (by omega) fun other hOther => hBlocks other (List.mem_append_left _ hOther)
    rw [List.zipIdx_append, List.foldl_append, Nat.zero_add]
    exact hPlaced.placeBlock hNodup hLt hLength (by omega) (hBlocks block (by simp))

theorem Placed.liveIndices {blocks : List RingBlock} {bucket : RingBucket}
    (h : Placed cfg permutation blocks bucket) (hLt : ∀ offset ∈ permutation, offset < cfg.slots)
    (hLength : permutation.length = cfg.slots) (hRoom : blocks.length ≤ cfg.z.toNat)
    (hBlocks : ∀ block ∈ blocks, Storable cfg block) :
    bucket.liveIndices = List.range blocks.length := by
  have hPtrs := h.length_ptrs hLength
  have hAddrs : bucket.addrs.length = blocks.length + (cfg.z.toNat - blocks.length) := by
    rw [h.addrs, List.length_append, List.length_map, List.length_replicate]
  have hUsed : ∀ i ∈ List.range blocks.length, bucket.validReal i = true := by
    intro i hi
    rw [List.mem_range] at hi
    refine validReal_iff.mpr ⟨?_, ?_⟩
    · rw [h.addrs, List.getD_append _ _ _ _ (by simpa using hi),
        List.getD_eq_getElem _ _ (by simpa using hi), List.getElem_map]
      exact (hBlocks _ (List.getElem_mem hi)).addr
    · have hMem : bucket.ptr i ∈ bucket.ptrs := by
        rw [ptr, List.getD_eq_getElem _ _ (by omega)]
        exact List.getElem_mem _
      rw [h.ptrs] at hMem
      have hPtr : bucket.ptr i < cfg.slots := hLt _ (List.mem_of_mem_take hMem)
      rw [h.valids, List.getD_eq_getElem _ _ (by rwa [List.length_replicate]),
        List.getElem_replicate]
  have hFree : ∀ i ∈ (List.range (cfg.z.toNat - blocks.length)).map (blocks.length + ·),
      ¬ bucket.validReal i = true := by
    intro i hi
    obtain ⟨k, hk, rfl⟩ := List.mem_map.mp hi
    rw [List.mem_range] at hk
    rw [validReal_iff, not_and_or, not_not]
    left
    rw [h.addrs, List.getD_append_right _ _ _ _ (by simp),
      List.getD_eq_getElem _ _ (by simpa using hk), List.getElem_replicate]
  rw [RingBucket.liveIndices, hAddrs, List.range_add, List.filter_append,
    List.filter_eq_self.mpr hUsed, List.filter_eq_nil_iff.mpr hFree, List.append_nil]

theorem Placed.fresh {blocks : List RingBlock} {bucket : RingBucket}
    (h : Placed cfg permutation blocks bucket) (hNodup : permutation.Nodup)
    (hLt : ∀ offset ∈ permutation, offset < cfg.slots) (hLength : permutation.length = cfg.slots)
    (hRoom : blocks.length ≤ cfg.z.toNat) (hBlocks : ∀ block ∈ blocks, Storable cfg block) :
    Fresh cfg blocks bucket := by
  have hLive := h.liveIndices hLt hLength hRoom hBlocks
  refine ⟨⟨?_, ?_, ?_, ?_, h.data_length, ?_, ?_, h.block_length, ?_, ?_⟩, h.valids, ?_⟩
  · rw [h.valids, List.length_replicate]
  · rw [h.addrs, List.length_append, List.length_map, List.length_replicate]
    omega
  · rw [h.leaves, List.length_append, List.length_map, List.length_replicate]
    omega
  · exact h.length_ptrs hLength
  · exact h.ptrs ▸ hNodup.sublist (List.take_sublist _ _)
  · intro offset hOffset
    exact hLt offset (List.mem_of_mem_take (h.ptrs ▸ hOffset))
  · intro offset hOffset
    obtain ⟨hValid, hOther⟩ := mem_validDummyOffsets.mp hOffset
    refine h.unused offset ?_ ?_
    · have hBound := lt_of_valid hValid
      rwa [h.valids, List.length_replicate] at hBound
    · rw [← hLive, List.mem_map]
      rintro ⟨i, hi, hEq⟩
      exact hOther i hi hEq
  · rw [h.count, h.valids, List.count_replicate]
    rfl
  · rw [liveBlocks, hLive]
    exact h.real.symm

theorem isDummy_eq_false {block : RingBlock}
    (h : block.addr ≠ kDummyAddress) : block.isDummy = false := by
  rw [RingBlock.isDummy, beq_eq_false_iff_ne]
  exact h

theorem not_any_isDummy {blocks : List RingBlock}
    (h : ∀ block ∈ blocks, block.addr ≠ kDummyAddress) :
    ¬ blocks.any RingBlock.isDummy = true := by
  rw [List.any_eq_true]
  rintro ⟨block, hBlock, hIs⟩
  rw [isDummy_eq_false (h block hBlock)] at hIs
  cases hIs

/-- Once the blocks are accepted, the assignments need a pointer for each entry. -/
theorem resetWithBlocks_eq_ok {bucket : RingBucket} {blocks : List RingBlock}
    (hRoom : blocks.length ≤ bucket.z.toNat) (hReal : ∀ block ∈ blocks, block.addr ≠ kDummyAddress)
    (hEnough : bucket.ptrs.length ≤ permutation.length) :
    bucket.resetWithBlocks blocks permutation =
      .ok (blocks.zipIdx.foldl placeBlock (bucket.cleared permutation)) := by
  rw [resetWithBlocks, if_neg (Nat.not_lt.mpr hRoom), if_neg (not_any_isDummy hReal),
    if_neg (Nat.not_lt.mpr hEnough)]

theorem resetWithBlocks_placed (hSlots : cfg.slots < 2 ^ 64) {blocks : List RingBlock}
    (hRoom : blocks.length ≤ cfg.z.toNat) (hBlocks : ∀ block ∈ blocks, Storable cfg block)
    (shuffle : Equiv.Perm (Fin (empty cfg.z cfg.s cfg.blockSize).slotCount)) :
    ∃ bucket, (empty cfg.z cfg.s cfg.blockSize).resetWithBlocks blocks (makePermutation _ shuffle) =
      .ok bucket ∧
      Placed cfg (makePermutation _ shuffle) blocks bucket ∧ Fresh cfg blocks bucket := by
  have hCount := slotCount_empty hSlots
  obtain ⟨hNodup, hBound, hSize⟩ := makePermutation_perm _ shuffle
  have hLength : (makePermutation _ shuffle).length = cfg.slots := hSize.trans hCount
  have hLt : ∀ offset ∈ makePermutation _ shuffle, offset < cfg.slots := fun offset hOffset =>
    (hBound offset hOffset).trans_eq hCount
  have hPlaced := placed_foldl hSlots hNodup hLt hLength blocks hRoom hBlocks
  refine ⟨_, ?_, hPlaced, hPlaced.fresh hNodup hLt hLength hRoom hBlocks⟩
  have hPtrs : (empty cfg.z cfg.s cfg.blockSize).ptrs.length = cfg.z.toNat := List.length_range
  apply resetWithBlocks_eq_ok hRoom fun block hBlock => (hBlocks block hBlock).addr
  rw [hPtrs, hLength, RuntimeConfig.slots]
  omega

theorem resetWithBlocks_fresh (hSlots : cfg.slots < 2 ^ 64) {blocks : List RingBlock}
    (hRoom : blocks.length ≤ cfg.z.toNat) (hBlocks : ∀ block ∈ blocks, Storable cfg block)
    (shuffle : Equiv.Perm (Fin (empty cfg.z cfg.s cfg.blockSize).slotCount)) :
    ∃ bucket, (empty cfg.z cfg.s cfg.blockSize).resetWithBlocks blocks
      (makePermutation _ shuffle) = .ok bucket ∧ Fresh cfg blocks bucket := by
  obtain ⟨bucket, hReset, _, hFresh⟩ := resetWithBlocks_placed hSlots hRoom hBlocks shuffle
  exact ⟨bucket, hReset, hFresh⟩

end RingBucket
end OramHub.RingOram
