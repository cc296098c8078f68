import Mathlib.Logic.Equiv.Fin.Rotate
import OramHub.Lib.Updates
import OramHub.RingOram.Reset

/-! # Resetting a bucket in place

`ResetWithBlocks` checks the blocks before it writes anything. The number of slots is a sum of two
sizes, which may wrap around.
-/
namespace OramHub.RingOram
open OramHub.Core OramHub.Program OramHub.Updates
set_option autoImplicit false

namespace RingBucket

/-- `ptrs[i] = permutation[i]`. -/
def setPtr (permutation : List Nat) (i : Nat) : EStateM Exception RingBucket Unit :=
  match permutation[i]? with
  | some offset => modify fun bucket => { bucket with ptrs := bucket.ptrs.set i offset }
  | none => throw (.undefinedBehavior "permutation[i]")

/-- `ResetWithBlocks`, assignment by assignment. -/
def reset (blocks : List RingBlock)
    (permutation : List Nat) : EStateM Exception RingBucket Unit := do
  let bucket ← get
  throwIf (bucket.z.toNat < blocks.length)
    (.invalidArgument "Too many real blocks for Ring ORAM bucket")
  throwIf (blocks.any RingBlock.isDummy)
    (.invalidArgument "Ring ORAM bucket real block list contains a dummy")
  modify fun bucket =>
    { bucket with
      count := 0
      valids := List.replicate bucket.valids.length true
      addrs := List.replicate bucket.addrs.length kDummyAddress
      leaves := List.replicate bucket.leaves.length 0
      data := List.replicate bucket.slotCount (RingBlock.dummy bucket.blockSize.toNat) }
  forM (List.range bucket.ptrs.length) (setPtr permutation)
  forM blocks.zipIdx fun entry => modify fun bucket => bucket.placeBlock entry

section Statement

variable (z s blockSize : UInt64)

/-- The shape that the constructor gives a bucket. The sum is one of 64 bits. -/
structure Shaped (bucket : RingBucket) : Prop where
  z_eq : bucket.z = z
  s_eq : bucket.s = s
  blockSize_eq : bucket.blockSize = blockSize
  valids : bucket.valids.length = (z + s).toNat
  addrs : bucket.addrs.length = z.toNat
  leaves : bucket.leaves.length = z.toNat
  ptrs : bucket.ptrs.length = z.toNat
  data : bucket.data.length = (z + s).toNat

structure Acceptable (blocks : List RingBlock) : Prop where
  room : blocks.length ≤ z.toNat
  real : ∀ block ∈ blocks, block.addr ≠ kDummyAddress

/-- The blocks lie at the slots that the pointers name, and dummies everywhere else. -/
structure Refilled (blocks : List RingBlock) (bucket : RingBucket) : Prop where
  count : bucket.count = 0
  valids : bucket.valids = List.replicate (z.toNat + s.toNat) true
  ptrs_length : bucket.ptrs.length = z.toNat
  ptrs_nodup : bucket.ptrs.Nodup
  ptrs_lt : ∀ offset ∈ bucket.ptrs, offset < z.toNat + s.toNat
  data_length : bucket.data.length = z.toNat + s.toNat
  placed : ∀ (i : Nat) (block : RingBlock), blocks[i]? = some block →
    ∃ offset, bucket.ptrs[i]? = some offset ∧ bucket.addrs[i]? = some block.addr ∧
    bucket.leaves[i]? = some block.leaf ∧
    bucket.data[offset]? = some { block with data := resize block.data blockSize.toNat }
  dummies : ∀ offset < z.toNat + s.toNat, offset ∉ bucket.ptrs.take blocks.length →
    bucket.data[offset]? = some (RingBlock.dummy blockSize.toNat)
  real : bucket.validRealOffsets = bucket.ptrs.take blocks.length
  partition : (bucket.validRealOffsets ++ bucket.validDummyOffsets).Perm
    (List.range (z.toNat + s.toNat))

/-- A list of blocks is refused and changes nothing, or the bucket is filled anew. -/
def Resets (bucket : RingBucket) (blocks : List RingBlock) (permutation : List Nat) : Prop :=
  wp (reset blocks permutation) bucket (fun _ bucket' => Acceptable z blocks ∧
    Refilled z s blockSize blocks bucket')
    fun e bucket' => ¬ Acceptable z blocks ∧ e.Defined ∧ bucket' = bucket

end Statement

variable {z s blockSize : UInt64} {bucket : RingBucket} {blocks : List RingBlock}
  {permutation : List Nat}

/-! ## Assignment by assignment -/

section Assignments

theorem forM_modify {σ β : Type} (f : σ → β → σ) (items : List β) (state : σ) :
    Returns (forM items fun item => (modify fun state => f state item : EStateM Exception σ PUnit))
      state fun _ state' =>
      state' = items.foldl f state := by
  induction items generalizing state with
  | nil => exact Returns.pure rfl
  | cons item items ih =>
    rw [List.forM_cons]
    exact Returns.modify_bind (ih (f state item))

theorem setPtrs_outcome : wp (forM (List.range bucket.ptrs.length) (setPtr permutation)) bucket
    (fun _ bucket' => bucket.ptrs.length ≤ permutation.length ∧
      bucket' = { bucket with ptrs := permutation.take bucket.ptrs.length })
    fun e _ => permutation.length < bucket.ptrs.length ∧
    e = .undefinedBehavior "permutation[i]" := by
  apply wp_mono (wp.forM_range (fun i bucket' => i ≤ permutation.length ∧
    bucket' = { bucket with ptrs := permutation.take i ++ bucket.ptrs.drop i }) ?start ?round) ?done
      fun _ _ => id
  case start => exact ⟨Nat.zero_le _, rfl⟩
  case round =>
    rintro i hi _ ⟨_, rfl⟩
    rw [setPtr]
    by_cases hItem : i < permutation.length
    · rw [List.getElem?_eq_getElem hItem]
      refine (Returns.modify ⟨hItem, ?_⟩).outcome
      rw [set_take_append_drop hItem hi]
    · rw [List.getElem?_eq_none (Nat.not_lt.mp hItem)]
      exact (wp_throw _).mpr ⟨(Nat.not_lt.mp hItem).trans_lt hi, rfl⟩
  case done =>
    rintro _ _ ⟨hLength, rfl⟩
    rw [List.drop_length, List.append_nil]
    exact ⟨hLength, rfl⟩

/-- The assignments compute the same bucket, and a check that fails comes before all of them. -/
theorem reset_outcome : wp (reset blocks permutation) bucket
    (fun _ bucket' => bucket.resetWithBlocks blocks permutation = .ok bucket')
    fun e bucket' => bucket.resetWithBlocks blocks permutation = .error e ∧
    (e.Defined → bucket' = bucket) := by
  refine wp.get_bind (wp.check_bind (fun hMany => ⟨if_pos hMany, fun _ => rfl⟩) fun hRoom => ?_)
  refine wp.check_bind (fun hDummy => ⟨?_, fun _ => rfl⟩) fun hReal => ?_
  · rw [resetWithBlocks, if_neg hRoom, if_pos hDummy]
  rw [resetWithBlocks, if_neg hRoom, if_neg hReal]
  apply wp.modify_bind
  apply wp.bind (wp_mono (@setPtrs_outcome { bucket with
    count := 0
    valids := List.replicate bucket.valids.length true
    addrs := List.replicate bucket.addrs.length kDummyAddress
    leaves := List.replicate bucket.leaves.length 0
    data := List.replicate bucket.slotCount (RingBlock.dummy bucket.blockSize.toNat) } permutation)
      (fun _ _ => id) ?overrun)
  case overrun =>
    rintro e _ ⟨hShort, rfl⟩
    exact ⟨if_pos hShort, fun hDefined => absurd rfl (hDefined _)⟩
  rintro _ _ ⟨hEnough, rfl⟩
  apply ((forM_modify placeBlock blocks.zipIdx _).mono ?_).outcome
  rintro _ _ rfl
  exact if_neg (Nat.not_lt.mpr hEnough)

end Assignments

/-! ## What the slots hold -/

section Slots

variable {base : RingBucket} {block : RingBlock}

/-- The slots of a bucket after some blocks have been placed in it. -/
structure Spread (base : RingBucket) (blocks : List RingBlock) (bucket : RingBucket) : Prop where
  ptrs : bucket.ptrs = base.ptrs
  blockSize : bucket.blockSize = base.blockSize
  length : bucket.data.length = base.data.length
  stored : ∀ i, (hi : i < blocks.length) →
    bucket.data[base.ptr i]? = some (normalizeBlock blocks[i] base.blockSize.toNat)
  others : ∀ offset, offset ∉ base.ptrs.take blocks.length →
    bucket.data[offset]? = base.data[offset]?

theorem Spread.placeBlock (h : Spread base blocks bucket) (hNodup : base.ptrs.Nodup)
    (hLt : ∀ offset ∈ base.ptrs, offset < base.data.length)
    (hRoom : blocks.length < base.ptrs.length) :
    Spread base (blocks ++ [block]) (bucket.placeBlock (block, blocks.length)) := by
  have hPtr : bucket.ptrs.getD blocks.length 0 = base.ptrs[blocks.length] := by
    rw [h.ptrs, List.getD_eq_getElem _ _ hRoom]
  have hOffset : base.ptrs[blocks.length] < bucket.data.length := by
    rw [h.length]
    exact hLt _ (List.getElem_mem hRoom)
  have hData : (bucket.placeBlock (block, blocks.length)).data =
      bucket.data.set base.ptrs[blocks.length] (normalizeBlock block base.blockSize.toNat) := by
    rw [← hPtr, ← h.blockSize]
    rfl
  constructor
  case ptrs => exact h.ptrs
  case blockSize => exact h.blockSize
  case length =>
    rw [hData, List.length_set]
    exact h.length
  case stored =>
    intro i hi
    rw [List.length_append, List.length_singleton] at hi
    have hSlot : base.ptr i = base.ptrs[i] := List.getD_eq_getElem _ _ (by omega)
    rw [hData, hSlot]
    by_cases hLast : i = blocks.length
    · subst hLast
      rw [List.getElem?_set_self hOffset]
      simp
    · have hOld : i < blocks.length := by omega
      have hNe : base.ptrs[blocks.length] ≠ base.ptrs[i] :=
        fun hEq => hLast (hNodup.getElem_inj_iff.mp hEq).symm
      rw [List.getElem?_set_ne hNe, List.getElem_append_left hOld, ← hSlot]
      exact h.stored i hOld
  case others =>
    intro offset hOther
    rw [List.length_append, List.length_singleton, List.take_add_one, List.mem_append, not_or,
      List.getElem?_eq_getElem hRoom] at hOther
    have hNe : base.ptrs[blocks.length] ≠ offset := by
      rintro rfl
      exact hOther.2 List.mem_cons_self
    rw [hData, List.getElem?_set_ne hNe]
    exact h.others offset hOther.1

theorem spread_foldl (hNodup : base.ptrs.Nodup)
    (hLt : ∀ offset ∈ base.ptrs, offset < base.data.length)
    (blocks : List RingBlock) (hRoom : blocks.length ≤ base.ptrs.length) :
    Spread base blocks (blocks.zipIdx.foldl placeBlock base) := by
  induction blocks using List.reverseRecOn with
  | nil =>
    constructor
    case ptrs => rfl
    case blockSize => rfl
    case length => rfl
    case stored =>
      intro i hi
      cases hi
    case others => exact fun _ _ => rfl
  | append_singleton blocks block ih =>
    rw [List.length_append, List.length_singleton] at hRoom
    rw [List.zipIdx_append, List.foldl_append, Nat.zero_add]
    exact (ih (by omega)).placeBlock hNodup hLt hRoom

end Slots

/-! ## The old contents do not matter -/

section Reduction

theorem shaped_empty (z s blockSize : UInt64) : Shaped z s blockSize (empty z s blockSize) := by
  constructor
  case z_eq => rfl
  case s_eq => rfl
  case blockSize_eq => rfl
  case valids => exact List.length_replicate
  case addrs => exact List.length_replicate
  case leaves => exact List.length_replicate
  case ptrs => exact List.length_range
  case data => exact List.length_replicate

theorem Shaped.slotCount (h : Shaped z s blockSize bucket) : bucket.slotCount = (z + s).toNat := by
  rw [RingBucket.slotCount, h.z_eq, h.s_eq]

theorem Shaped.cleared_eq (h : Shaped z s blockSize bucket) (permutation : List Nat) :
    bucket.cleared permutation = (empty z s blockSize).cleared permutation := by
  have hEmpty := shaped_empty z s blockSize
  simp only [cleared, h.valids, h.addrs, h.leaves, h.ptrs, h.slotCount,
    h.blockSize_eq, h.z_eq, h.s_eq,
    hEmpty.valids, hEmpty.addrs, hEmpty.leaves, hEmpty.ptrs, hEmpty.slotCount, hEmpty.blockSize_eq,
    hEmpty.z_eq, hEmpty.s_eq]

theorem normalizeBlock_normalizeBlock (block : RingBlock) (size : Nat) :
    normalizeBlock (normalizeBlock block size) size = normalizeBlock block size := by
  rw [normalizeBlock, normalizeBlock, resize_of_length (length_resize _ _)]

/-- Blocks may be brought to their size before they are placed. -/
theorem foldl_placeBlock_normalized (entries : List (RingBlock × Nat))
    (h : bucket.blockSize = blockSize) :
    (entries.map (Prod.map (normalizeBlock · blockSize.toNat) id)).foldl placeBlock bucket =
      entries.foldl placeBlock bucket := by
  induction entries generalizing bucket with
  | nil => rfl
  | cons entry entries ih =>
    have hHead : bucket.placeBlock (Prod.map (normalizeBlock · blockSize.toNat) id entry) =
        bucket.placeBlock entry := by
      rw [placeBlock, placeBlock, h]
      dsimp only [Prod.map]
      rw [normalizeBlock_normalizeBlock]
      rfl
    rw [List.map_cons, List.foldl_cons, List.foldl_cons, hHead]
    exact ih h

end Reduction

/-! ## Resets without overflow -/

section Refilling

variable {cfg : RuntimeConfig} {base : RingBucket}

theorem map_ptr_range (n : Nat) (h : n ≤ bucket.ptrs.length) :
    (List.range n).map bucket.ptr = bucket.ptrs.take n := by
  apply List.ext_getElem
  · rw [List.length_map, List.length_range, List.length_take_of_le h]
  · intro i hi hi'
    rw [List.length_map, List.length_range] at hi
    rw [List.getElem_map, List.getElem_range, List.getElem_take]
    exact List.getD_eq_getElem _ _ (hi.trans_le h)

/-- Each slot is offered as a real block or as a dummy, and never twice. -/
theorem partition_offsets {slots count : Nat} (hValids : bucket.valids = List.replicate slots true)
    (hReal : bucket.validRealOffsets = bucket.ptrs.take count) (hNodup : bucket.ptrs.Nodup)
    (hLt : ∀ offset ∈ bucket.ptrs, offset < slots) :
    (bucket.validRealOffsets ++ bucket.validDummyOffsets).Perm (List.range slots) := by
  have hMem (offset : Nat) :
      offset ∈ bucket.validDummyOffsets ↔ offset < slots ∧ offset ∉ bucket.validRealOffsets := by
    rw [validDummyOffsets, hValids, List.length_replicate, List.mem_filter, List.mem_range]
    refine and_congr_right fun hOffset => ?_
    rw [List.getD_eq_getElem _ _ (by rwa [List.length_replicate]), List.getElem_replicate]
    simp
  have hRealNodup : bucket.validRealOffsets.Nodup := by
    rw [hReal]
    exact hNodup.sublist (List.take_sublist _ _)
  have hAppend : (bucket.validRealOffsets ++ bucket.validDummyOffsets).Nodup := by
    rw [List.nodup_append']
    refine ⟨hRealNodup, List.nodup_range.filter _, ?_⟩
    intro offset hOffset hDummy
    exact ((hMem offset).mp hDummy).2 hOffset
  apply (List.perm_ext_iff_of_nodup hAppend List.nodup_range).mpr
  intro offset
  rw [List.mem_append, hMem, List.mem_range]
  constructor
  · rintro (hOffset | hOffset)
    · rw [hReal] at hOffset
      exact hLt offset (List.mem_of_mem_take hOffset)
    · exact hOffset.1
  · intro hOffset
    by_cases hIs : offset ∈ bucket.validRealOffsets
    · exact Or.inl hIs
    · exact Or.inr ⟨hOffset, hIs⟩

theorem getElem?_labels {β : Type} (label : RingBlock → β) {rest : List β}
    {i : Nat} {block : RingBlock}
    (h : blocks[i]? = some block) : (blocks.map label ++ rest)[i]? = some (label block) := by
  have hi : i < blocks.length := (List.getElem?_eq_some_iff.mp h).1
  rw [List.getElem?_append_left (by rwa [List.length_map]), List.getElem?_map, h, Option.map_some]

theorem spread_cleared (hSlots : cfg.slots < 2 ^ 64) (hNodup : permutation.Nodup)
    (hLt : ∀ offset ∈ permutation, offset < cfg.slots)
    (hLength : permutation.length = cfg.slots) (hRoom : blocks.length ≤ cfg.z.toNat) :
    Spread ((empty cfg.z cfg.s cfg.blockSize).cleared permutation) blocks
      (blocks.zipIdx.foldl placeBlock ((empty cfg.z cfg.s cfg.blockSize).cleared permutation)) := by
  have hBase := @placed_cleared cfg permutation hSlots
  apply spread_foldl
  · exact hBase.ptrs ▸ hNodup.sublist (List.take_sublist _ _)
  · intro offset hOffset
    rw [hBase.data_length]
    exact hLt offset (List.mem_of_mem_take (hBase.ptrs ▸ hOffset))
  · exact hRoom.trans_eq (hBase.length_ptrs hLength).symm

/-- A block lies with its labels at its index, and brought to its size at the slot of its pointer.
-/
theorem Placed.entry_of_block
    (h : Placed cfg permutation (blocks.map (normalizeBlock · cfg.blockSize.toNat)) bucket)
    (hSpread : Spread base (blocks.map (normalizeBlock · cfg.blockSize.toNat)) bucket)
    (hSize : base.blockSize = cfg.blockSize)
    (hRoom : blocks.length ≤ bucket.ptrs.length) {i : Nat} {block : RingBlock}
    (hBlock : blocks[i]? = some block) :
    ∃ offset, bucket.ptrs[i]? = some offset ∧ bucket.addrs[i]? = some block.addr ∧
    bucket.leaves[i]? = some block.leaf ∧
      bucket.data[offset]? = some { block with data := resize block.data cfg.blockSize.toNat } := by
  have hi : i < blocks.length := (List.getElem?_eq_some_iff.mp hBlock).1
  have hPtr : i < bucket.ptrs.length := hi.trans_le hRoom
  have hNormal : (blocks.map (normalizeBlock · cfg.blockSize.toNat))[i]? =
      some (normalizeBlock block cfg.blockSize.toNat) := by
    rw [List.getElem?_map, hBlock, Option.map_some]
  have hStored := hSpread.stored i (by rwa [List.length_map])
  rw [ptr, ← hSpread.ptrs, List.getD_eq_getElem _ _ hPtr] at hStored
  refine ⟨_, List.getElem?_eq_getElem hPtr, ?_, ?_, ?_⟩
  · rw [h.addrs]
    exact (getElem?_labels RingBlock.addr hNormal).trans rfl
  · rw [h.leaves]
    exact (getElem?_labels RingBlock.leaf hNormal).trans rfl
  · rw [hStored, (List.getElem?_eq_some_iff.mp hNormal).2, hSize, normalizeBlock_normalizeBlock]
    rfl

theorem refilled_of_acceptable (hSlots : cfg.slots < 2 ^ 64) (h : Acceptable cfg.z blocks)
    (hNodup : permutation.Nodup)
    (hLt : ∀ offset ∈ permutation, offset < cfg.slots) (hLength : permutation.length = cfg.slots) :
    Refilled cfg.z cfg.s cfg.blockSize blocks
      (blocks.zipIdx.foldl placeBlock ((empty cfg.z cfg.s cfg.blockSize).cleared permutation)) := by
  let base := (empty cfg.z cfg.s cfg.blockSize).cleared permutation
  let normalized := blocks.map (normalizeBlock · cfg.blockSize.toNat)
  have hSame : normalized.length = blocks.length := List.length_map _
  have hRoom : normalized.length ≤ cfg.z.toNat := hSame.trans_le h.room
  have hStorable : ∀ block ∈ normalized, Storable cfg block := by
    intro block hBlock
    obtain ⟨given, hGiven, rfl⟩ := List.mem_map.mp hBlock
    exact ⟨h.real given hGiven, length_resize _ _⟩
  have hPlaced := placed_foldl hSlots hNodup hLt hLength normalized hRoom hStorable
  have hSpread := spread_cleared hSlots hNodup hLt hLength hRoom
  -- The blocks may as well have their size from the beginning.
  have hFold : normalized.zipIdx.foldl placeBlock base = blocks.zipIdx.foldl placeBlock base := by
    rw [List.zipIdx_map]
    exact foldl_placeBlock_normalized blocks.zipIdx rfl
  rw [hFold] at hPlaced hSpread
  have hFresh := hPlaced.fresh hNodup hLt hLength hRoom hStorable
  have hPtrs := hPlaced.length_ptrs hLength
  have hReal : validRealOffsets (blocks.zipIdx.foldl placeBlock base) =
      (blocks.zipIdx.foldl placeBlock base).ptrs.take blocks.length := by
    rw [← map_ptr_range _ (hPtrs.symm ▸ h.room), ← hSame,
      ← hPlaced.liveIndices hLt hLength hRoom hStorable]
    rfl
  constructor
  case count => exact hPlaced.count
  case valids => exact hPlaced.valids
  case ptrs_length => exact hPtrs
  case ptrs_nodup => exact hFresh.wellFormed.ptrs_nodup
  case ptrs_lt => exact hFresh.wellFormed.ptrs_lt
  case data_length => exact hPlaced.data_length
  case placed =>
    exact fun i block hBlock => hPlaced.entry_of_block hSpread rfl (hPtrs.symm ▸ h.room) hBlock
  case dummies =>
    intro offset hOffset hOther
    have hData : base.data = List.replicate cfg.slots (RingBlock.dummy cfg.blockSize.toNat) :=
      congrArg (List.replicate · _) (slotCount_empty hSlots)
    rw [hSpread.ptrs, ← hSame] at hOther
    rw [hSpread.others offset hOther, hData]
    exact List.getElem?_replicate_of_lt hOffset
  case real => exact hReal
  case partition =>
    exact partition_offsets hPlaced.valids hReal hFresh.wellFormed.ptrs_nodup
      hFresh.wellFormed.ptrs_lt

theorem resetWithBlocks_refilled (h : Shaped z s blockSize bucket)
    (hFits : z.toNat + s.toNat < 2 ^ 64)
    (hAcceptable : Acceptable z blocks) (hNodup : permutation.Nodup)
    (hLt : ∀ offset ∈ permutation, offset < bucket.slotCount)
    (hLength : permutation.length = bucket.slotCount) :
    ∃ bucket', bucket.resetWithBlocks blocks permutation = .ok bucket' ∧
    Refilled z s blockSize blocks bucket' := by
  let cfg : RuntimeConfig := { z := z, s := s, blockSize := blockSize }
  have hSlots : bucket.slotCount = cfg.slots :=
    h.slotCount.trans ((UInt64.toNat_add z s).trans (Nat.mod_eq_of_lt hFits))
  rw [hSlots] at hLt hLength
  have hEnough : bucket.ptrs.length ≤ permutation.length := by
    rw [h.ptrs, hLength]
    exact Nat.le_add_right _ _
  have hReset := resetWithBlocks_eq_ok (h.z_eq.symm ▸ hAcceptable.room) hAcceptable.real hEnough
  rw [h.cleared_eq] at hReset
  exact ⟨_, hReset,
    @refilled_of_acceptable blocks permutation cfg hFits hAcceptable hNodup hLt hLength⟩

end Refilling

/-! ## All resets -/

section Outcomes

theorem resetWithBlocks_refused (h : ¬ Acceptable bucket.z blocks) :
    ∃ what, bucket.resetWithBlocks blocks permutation = .error (.invalidArgument what) := by
  by_cases hRoom : bucket.z.toNat < blocks.length
  · exact ⟨_, if_pos hRoom⟩
  have hDummy : blocks.any RingBlock.isDummy = true := by
    by_contra hNone
    rw [List.any_eq_true] at hNone
    exact h ⟨Nat.not_lt.mp hRoom, fun block hBlock hIs => hNone ⟨block, hBlock, beq_iff_eq.mpr hIs⟩⟩
  exact ⟨_, (if_neg hRoom).trans (if_pos hDummy)⟩

theorem resetWithBlocks_overrun (h : Shaped z s blockSize bucket)
    (hAcceptable : Acceptable z blocks)
    (hWraps : ¬ z.toNat + s.toNat < 2 ^ 64) (hLength : permutation.length = bucket.slotCount) :
    bucket.resetWithBlocks blocks permutation = .error (.undefinedBehavior "permutation[i]") := by
  have hShort : permutation.length < bucket.ptrs.length := by
    have hZ := UInt64.toNat_lt z
    have hS := UInt64.toNat_lt s
    rw [hLength, h.slotCount, h.ptrs, UInt64.toNat_add]
    omega
  rw [resetWithBlocks, if_neg (by rw [h.z_eq]; exact Nat.not_lt.mpr hAcceptable.room),
    if_neg (not_any_isDummy hAcceptable.real), if_pos hShort]

theorem fits_of_resets (h : Shaped z s blockSize bucket)
    (hLength : permutation.length = bucket.slotCount)
    (hResets : Resets z s blockSize bucket blocks permutation) (hAcceptable : Acceptable z blocks) :
    z.toNat + s.toNat < 2 ^ 64 := by
  by_contra hWraps
  have hOverrun := resetWithBlocks_overrun h hAcceptable hWraps hLength
  have hOutcome := wp_iff.mp (@reset_outcome bucket blocks permutation)
  cases hRun : (reset blocks permutation).run bucket with
  | ok _ bucket' =>
    have hOk := hOutcome.1 _ _ hRun
    rw [hOverrun] at hOk
    cases hOk
  | error e bucket' => exact ((wp_iff.mp hResets).2 e bucket' hRun).1 hAcceptable

/-- From every state and for every shuffle, unless the number of slots of a list that would be
accepted wraps around. -/
theorem resets_iff (h : Shaped z s blockSize bucket) (blocks : List RingBlock)
    (shuffle : Equiv.Perm (Fin bucket.slotCount)) :
    Resets z s blockSize bucket blocks (makePermutation bucket.slotCount shuffle) ↔
      (Acceptable z blocks → z.toNat + s.toNat < 2 ^ 64) := by
  obtain ⟨hNodup, hLt, hLength⟩ := makePermutation_perm bucket.slotCount shuffle
  constructor
  · exact fits_of_resets h hLength
  · intro hFits
    by_cases hAcceptable : Acceptable z blocks
    · obtain ⟨refilled, hReset, hRefilled⟩ :=
        resetWithBlocks_refilled h (hFits hAcceptable) hAcceptable hNodup hLt hLength
      apply wp_mono reset_outcome
      · intro _ bucket' hOk
        rw [hReset] at hOk
        exact ⟨hAcceptable, Except.ok.inj hOk ▸ hRefilled⟩
      · rintro e bucket' ⟨hError, _⟩
        rw [hReset] at hError
        cases hError
    · obtain ⟨what, hRefused⟩ :=
        @resetWithBlocks_refused bucket blocks (makePermutation bucket.slotCount shuffle)
        (h.z_eq.symm ▸ hAcceptable)
      have hDefined : (Exception.invalidArgument what).Defined := by
        rintro _ ⟨⟩
      apply wp_mono reset_outcome
      · intro _ bucket' hOk
        rw [hRefused] at hOk
        cases hOk
      · rintro e bucket' ⟨hError, hSame⟩
        rw [hRefused] at hError
        obtain rfl := Except.error.inj hError
        exact ⟨hAcceptable, hDefined, hSame hDefined⟩

/-- A bucket of which two slots have been read. -/
def usedBucket : RingBucket where
  z := 2
  s := 1
  blockSize := 4
  count := 2
  valids := [false, true, false]
  addrs := [3, 9]
  leaves := [1, 0]
  ptrs := [2, 0]
  data := [⟨9, 0, [1, 1, 1, 1]⟩, RingBlock.dummy 4, ⟨3, 1, [2, 2, 2, 2]⟩]

theorem shaped_usedBucket : Shaped 2 1 4 usedBucket := ⟨rfl, rfl, rfl, rfl, rfl, rfl, rfl, rfl⟩

/-- Two blocks in rotated slots, one of which is too short. -/
theorem resets_small :
    Resets 2 1 4 usedBucket [⟨7, 0, [9]⟩, ⟨8, 1, [6, 6, 6, 6]⟩]
      (makePermutation usedBucket.slotCount (finRotate 3)) ∧
    ∃ bucket, (reset [⟨7, 0, [9]⟩, ⟨8, 1, [6, 6, 6, 6]⟩]
      (makePermutation usedBucket.slotCount (finRotate 3))).run usedBucket =
      .ok () bucket ∧ bucket.ptrs = [1, 2] ∧
      bucket.data = [RingBlock.dummy 4, ⟨7, 0, [9, 0, 0, 0]⟩, ⟨8, 1, [6, 6, 6, 6]⟩] :=
  ⟨(resets_iff shaped_usedBucket _ (finRotate 3)).mpr fun _ => by decide, _, rfl, rfl, rfl⟩

/-- Four pointers and two slots. -/
theorem reset_overruns_permutation :
    Shaped 4 0xFFFFFFFFFFFFFFFE 16 (empty 4 0xFFFFFFFFFFFFFFFE 16) ∧
    ¬ Resets 4 0xFFFFFFFFFFFFFFFE 16 (empty 4 0xFFFFFFFFFFFFFFFE 16) []
      (makePermutation (empty 4 0xFFFFFFFFFFFFFFFE 16).slotCount (Equiv.refl _)) := by
  have hShaped := shaped_empty 4 0xFFFFFFFFFFFFFFFE 16
  refine ⟨hShaped, fun hResets => ?_⟩
  have hAcceptable : Acceptable 4 [] :=
    ⟨Nat.zero_le _, fun block hBlock => absurd hBlock List.not_mem_nil⟩
  exact absurd (fits_of_resets hShaped (makePermutation_perm _ _).2.2 hResets hAcceptable)
    (by decide)

end Outcomes

end RingBucket
end OramHub.RingOram
