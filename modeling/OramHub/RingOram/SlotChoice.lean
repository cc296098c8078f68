import OramHub.Lib.Chance
import OramHub.RingOram.Sealing

/-! # The slots that touches reveal

A bucket is filled under a uniformly random permutation and then touched. Relabelling the slots of
the permutation relabels the revealed offsets, so the offsets are uniform whatever is asked for.
-/
namespace OramHub.RingOram
open OramHub.Core OramHub.Chance
set_option autoImplicit false

/-- `GetBlockOffset` with draws that are uniform and independent. -/
noncomputable def chooseOffset (bucket : RingBucket) (addr : UInt64) : Random Exception Nat :=
  getBlockOffsetWith (fun size => ExceptT.lift (uniformIndex size)) bucket addr

/-- Touches of one bucket. The server invalidates every slot that it hands out. -/
noncomputable def touchSlots (bucket : RingBucket) : List UInt64 → Random Exception (List Nat)
  | [] => return []
  | addr :: addrs => do
    let offset ← chooseOffset bucket addr
    let offsets ← touchSlots (bucket.touch offset) addrs
    return offset :: offsets

/-- A bucket filled under one outcome of `std::shuffle`, then touched. -/
noncomputable def touchFilled (cfg : RuntimeConfig) (blocks : List RingBlock) (addrs : List UInt64)
    (shuffle : Equiv.Perm (Fin (RingBucket.empty cfg.z cfg.s cfg.blockSize).slotCount)) :
    Random Exception (List Nat) := do
  let bucket ← settle ((RingBucket.empty cfg.z cfg.s cfg.blockSize).resetWithBlocks blocks
    (makePermutation _ shuffle))
  touchSlots bucket addrs

/-- The offsets revealed by touches of a bucket that has just been filled with `blocks`. -/
noncomputable def revealedOffsets (cfg : RuntimeConfig) (blocks : List RingBlock)
    (addrs : List UInt64) :
    Random Exception (List Nat) := do
  let shuffle ← ExceptT.lift (PMF.uniformOfFintype
    (Equiv.Perm (Fin (RingBucket.empty cfg.z cfg.s cfg.blockSize).slotCount)))
  touchFilled cfg blocks addrs shuffle

variable {cfg : RuntimeConfig} {bucket other : RingBucket} {blocks : List RingBlock}
  {addrs : List UInt64}

section Distinct

theorem chooseOffset_surely (hWell : bucket.WellFormed cfg)
    (hCount : bucket.count.toNat < cfg.s.toNat) (addr : UInt64) :
    Surely (chooseOffset bucket addr) fun offset => bucket.valids.getD offset false = true := by
  rw [chooseOffset, getBlockOffsetWith]
  split
  · rename_i i hFind
    have hProp := List.find?_some hFind
    rw [Bool.and_eq_true] at hProp
    exact Surely.pure hProp.2
  · have hDummies := RingBucket.exists_dummy hWell hCount
    have hPos := List.length_pos_iff.mpr hDummies
    rw [if_neg hDummies]
    refine (Surely.lift fun choice => lt_of_mem_support_uniformIndex hPos).bind
      fun choice hChoice => ?_
    refine Surely.pure (RingBucket.mem_validDummyOffsets.mp ?_).1
    rw [List.getD_eq_getElem _ _ hChoice]
    exact List.getElem_mem hChoice

theorem touchSlots_surely (hWell : bucket.WellFormed cfg)
    (hCount : bucket.count.toNat + addrs.length ≤ cfg.s.toNat) :
    Surely (touchSlots bucket addrs) fun offsets => offsets.length = addrs.length ∧ offsets.Nodup ∧
      ∀ offset ∈ offsets, bucket.valids.getD offset false = true := by
  induction addrs generalizing bucket with
  | nil => exact Surely.pure ⟨rfl, List.nodup_nil, fun _ hOffset => absurd hOffset List.not_mem_nil⟩
  | cons addr addrs ih =>
    rw [List.length_cons] at hCount
    have hLt := UInt64.toNat_lt cfg.s
    apply (chooseOffset_surely hWell (by omega) addr).bind
    intro offset hValid
    have hTouched := hWell.touch hValid (by omega)
    have hNext : (bucket.touch offset).count.toNat + addrs.length ≤ cfg.s.toNat := by
      have hTouch := RingBucket.count_touch hValid
      have hBefore := hWell.count
      have hAfter := hTouched.count
      omega
    refine (ih hTouched hNext).bind ?_
    rintro offsets ⟨hLength, hNodup, hOffsets⟩
    have hRest : ∀ later ∈ offsets, bucket.valids.getD later false = true ∧ later ≠ offset := by
      intro later hLater
      have hLaterValid : (bucket.valids.set offset false).getD later false = true :=
        hOffsets later hLater
      rwa [getD_set_false, Bool.and_eq_true, bne_iff_ne] at hLaterValid
    refine Surely.pure ⟨congrArg (· + 1) hLength, ?_, ?_⟩
    · exact List.nodup_cons.mpr ⟨fun hMem => (hRest offset hMem).2 rfl, hNodup⟩
    · exact List.forall_mem_cons.mpr ⟨hValid, fun later hLater => (hRest later hLater).1⟩

theorem touchFilled_surely (hSlots : cfg.slots < 2 ^ 64) (hRoom : blocks.length ≤ cfg.z.toNat)
    (hBlocks : ∀ block ∈ blocks, Storable cfg block) (hTouches : addrs.length ≤ cfg.s.toNat)
    (shuffle : Equiv.Perm (Fin (RingBucket.empty cfg.z cfg.s cfg.blockSize).slotCount)) :
    Surely (touchFilled cfg blocks addrs shuffle) fun offsets =>
      offsets ∈ distinct cfg.slots addrs.length := by
  obtain ⟨bucket, hReset, hPlaced, hFresh⟩ :=
    RingBucket.resetWithBlocks_placed hSlots hRoom hBlocks shuffle
  have hCount : bucket.count.toNat + addrs.length ≤ cfg.s.toNat := by
    rw [hPlaced.count, UInt64.toNat_zero, Nat.zero_add]
    exact hTouches
  rw [touchFilled, hReset, settle_ok_bind]
  refine (@touchSlots_surely cfg bucket addrs hFresh.wellFormed hCount).mono ?_
  rintro offsets ⟨hLength, hNodup, hOffsets⟩
  refine mem_distinct.mpr ⟨hLength, hNodup, fun offset hOffset => ?_⟩
  exact hFresh.wellFormed.valids ▸ RingBucket.lt_of_valid (hOffsets offset hOffset)

theorem revealedOffsets_surely (hSlots : cfg.slots < 2 ^ 64) (hRoom : blocks.length ≤ cfg.z.toNat)
    (hBlocks : ∀ block ∈ blocks, Storable cfg block) (hTouches : addrs.length ≤ cfg.s.toNat) :
    Surely (revealedOffsets cfg blocks addrs) fun offsets =>
      offsets ∈ distinct cfg.slots addrs.length :=
  Surely.bind (Surely.lift fun _ _ => trivial) fun shuffle _ =>
    touchFilled_surely hSlots hRoom hBlocks hTouches shuffle

end Distinct

section Relabelling

/-- `other` is `bucket` with its slots renamed by `σ`, as far as `GetBlockOffset` looks. -/
structure Relabels (σ : Equiv.Perm Nat) (bucket other : RingBucket) : Prop where
  addrs : other.addrs = bucket.addrs
  ptrs : other.ptrs = bucket.ptrs.map σ
  length : bucket.ptrs.length = bucket.addrs.length
  size : other.valids.length = bucket.valids.length
  valids : ∀ offset, other.valids.getD (σ offset) false = bucket.valids.getD offset false

variable {σ : Equiv.Perm Nat}

theorem Relabels.ptr (h : Relabels σ bucket other) {i : Nat} (hi : i < bucket.addrs.length) :
    other.ptrs.getD i 0 = σ (bucket.ptrs.getD i 0) := by
  rw [h.ptrs]
  exact RingBucket.getD_map σ bucket.ptrs (h.length ▸ hi) 0 0

theorem Relabels.valid_ptr (h : Relabels σ bucket other) {i : Nat} (hi : i < bucket.addrs.length) :
    other.valids.getD (other.ptrs.getD i 0) false =
      bucket.valids.getD (bucket.ptrs.getD i 0) false := by
  rw [h.ptr hi, h.valids]

theorem Relabels.touch (h : Relabels σ bucket other) (offset : Nat) :
    Relabels σ (bucket.touch offset) (other.touch (σ offset)) := by
  refine ⟨h.addrs, h.ptrs, h.length, ?_, fun later => ?_⟩
  · exact List.length_set.trans (h.size.trans List.length_set.symm)
  · change (other.valids.set (σ offset) false).getD (σ later) false =
      (bucket.valids.set offset false).getD later false
    rw [getD_set_false, getD_set_false, h.valids]
    by_cases hEq : later = offset
    · rw [hEq, bne_self_eq_false, bne_self_eq_false]
    · rw [bne_iff_ne.mpr hEq, bne_iff_ne.mpr (σ.injective.ne hEq)]

theorem Relabels.liveIndices (h : Relabels σ bucket other) :
    other.liveIndices = bucket.liveIndices := by
  rw [RingBucket.liveIndices, RingBucket.liveIndices, h.addrs]
  apply List.filter_congr
  intro i hi
  rw [RingBucket.validReal, RingBucket.validReal, h.valid_ptr (List.mem_range.mp hi), h.addrs]

theorem Relabels.validDummyOffsets (h : Relabels σ bucket other) :
    (bucket.validDummyOffsets.map σ).Perm other.validDummyOffsets := by
  have hNodup := (RingBucket.nodup_validDummyOffsets bucket).map σ.injective
  rw [List.perm_ext_iff_of_nodup hNodup (RingBucket.nodup_validDummyOffsets other)]
  have hIff : ∀ offset, offset ∈ bucket.validDummyOffsets ↔ σ offset ∈ other.validDummyOffsets := by
    intro offset
    rw [RingBucket.mem_validDummyOffsets, RingBucket.mem_validDummyOffsets, h.valids, h.liveIndices]
    refine and_congr_right fun _ => forall₂_congr fun i hi => ?_
    have hPtr : other.ptr i = σ (bucket.ptr i) := h.ptr (RingBucket.mem_liveIndices.mp hi).1
    rw [hPtr, σ.injective.ne_iff]
  intro offset
  rw [List.mem_map, ← σ.apply_symm_apply offset, ← hIff]
  constructor
  · rintro ⟨other', hMem, hEq⟩
    rwa [← σ.injective hEq]
  · exact fun hMem => ⟨_, hMem, rfl⟩

theorem Relabels.chooseOffset (h : Relabels σ bucket other) (addr : UInt64) :
    chooseOffset other addr = σ <$> chooseOffset bucket addr := by
  have hFind : ((List.range other.addrs.length).find? fun i =>
      other.addrs.getD i kDummyAddress == addr && other.valids.getD (other.ptrs.getD i 0) false) =
      (List.range bucket.addrs.length).find? fun i =>
        bucket.addrs.getD i kDummyAddress == addr &&
            bucket.valids.getD (bucket.ptrs.getD i 0) false := by
    rw [h.addrs]
    refine List.find?_congr fun i hi => ?_
    rw [h.valid_ptr (List.mem_range.mp hi)]
  have hPerm := h.validDummyOffsets
  rw [RingOram.chooseOffset, RingOram.chooseOffset, getBlockOffsetWith, getBlockOffsetWith, hFind]
  split
  · rename_i i hSome
    rw [h.ptr (List.mem_range.mp (List.mem_of_find?_eq_some hSome)), map_pure]
  · by_cases hNil : bucket.validDummyOffsets = []
    · rw [hNil, List.map_nil, List.nil_perm] at hPerm
      rw [if_pos hNil, if_pos hPerm, map_throw]
    · have hNe : bucket.validDummyOffsets.map σ ≠ [] :=
        fun hMap => hNil (List.map_eq_nil_iff.mp hMap)
      have hNil' : other.validDummyOffsets ≠ [] := fun hEq => hNe (List.perm_nil.mp (hEq ▸ hPerm))
      have hNodup := (RingBucket.nodup_validDummyOffsets bucket).map σ.injective
      have hDraw := uniformIndex_getD_perm hPerm hNodup hNe (σ 0) 0
      have hGet : (fun i => (bucket.validDummyOffsets.map σ).getD i (σ 0)) =
          σ ∘ fun i => bucket.validDummyOffsets.getD i 0 := funext fun i => List.getD_map _ _ _
      rw [if_neg hNil, if_neg hNil', lift_bind_pure, lift_bind_pure, map_lift,
        PMF.map_comp, ← hGet, ← hDraw, List.length_map]

theorem Relabels.touchSlots (h : Relabels σ bucket other) (addrs : List UInt64) :
    touchSlots other addrs = List.map σ <$> touchSlots bucket addrs := by
  induction addrs generalizing bucket other with
  | nil =>
    rw [RingOram.touchSlots, RingOram.touchSlots, map_pure, List.map_nil]
  | cons addr addrs ih =>
    rw [RingOram.touchSlots, RingOram.touchSlots, h.chooseOffset, bind_map_left, map_bind]
    apply bind_congr
    intro offset
    rw [ih (h.touch offset), bind_map_left, map_bind]
    apply bind_congr
    intro offsets
    rw [map_pure, List.map_cons]

theorem makePermutation_mul {size : Nat} (relabelling shuffle : Equiv.Perm (Fin size)) :
    makePermutation size (relabelling * shuffle) =
      (makePermutation size shuffle).map (relabel relabelling) := by
  rw [makePermutation, makePermutation, List.map_ofFn]
  exact congrArg List.ofFn (funext fun i => (relabel_val relabelling (shuffle i)).symm)

theorem relabels_of_placed {permutation : List Nat} {σ : Equiv.Perm Nat}
    (hPermutation : cfg.z.toNat ≤ permutation.length) (hRoom : blocks.length ≤ cfg.z.toNat)
    (hσ : ∀ offset, σ offset < cfg.slots ↔ offset < cfg.slots)
    (h : RingBucket.Placed cfg permutation blocks bucket)
    (h' : RingBucket.Placed cfg (permutation.map σ) blocks other) : Relabels σ bucket other := by
  refine ⟨by rw [h.addrs, h'.addrs], by rw [h.ptrs, h'.ptrs, List.map_take], ?_,
    by rw [h.valids, h'.valids], ?_⟩
  · rw [h.ptrs, h.addrs, List.length_take, List.length_append, List.length_map,
      List.length_replicate]
    omega
  · intro offset
    rw [h.valids, h'.valids, List.getD_eq_getElem?_getD, List.getD_eq_getElem?_getD,
      List.getElem?_replicate, List.getElem?_replicate, if_congr (hσ offset) rfl rfl]

theorem touchFilled_mul (hSlots : cfg.slots < 2 ^ 64) (hRoom : blocks.length ≤ cfg.z.toNat)
    (hBlocks : ∀ block ∈ blocks, Storable cfg block) (addrs : List UInt64) (relabelling shuffle :
      Equiv.Perm (Fin (RingBucket.empty cfg.z cfg.s cfg.blockSize).slotCount)) :
    touchFilled cfg blocks addrs (relabelling * shuffle) =
      List.map (relabel relabelling) <$> touchFilled cfg blocks addrs shuffle := by
  obtain ⟨bucket, hReset, hPlaced, _⟩ :=
    RingBucket.resetWithBlocks_placed hSlots hRoom hBlocks shuffle
  obtain ⟨other, hReset', hPlaced', _⟩ :=
    RingBucket.resetWithBlocks_placed hSlots hRoom hBlocks (relabelling * shuffle)
  have hCount := RingBucket.slotCount_empty hSlots
  have hRelabels : Relabels (relabel relabelling) bucket other := by
    rw [makePermutation_mul] at hPlaced'
    refine relabels_of_placed ?_ hRoom (fun offset => ?_) hPlaced hPlaced'
    · rw [(RingBucket.makePermutation_perm _ shuffle).2.2, hCount, RuntimeConfig.slots]
      omega
    · rw [← hCount, relabel_lt_iff]
  rw [touchFilled, touchFilled, hReset, hReset', settle_ok_bind, settle_ok_bind,
    hRelabels.touchSlots]

end Relabelling

theorem map_revealedOffsets (hSlots : cfg.slots < 2 ^ 64) (hRoom : blocks.length ≤ cfg.z.toNat)
    (hBlocks : ∀ block ∈ blocks, Storable cfg block) (addrs : List UInt64)
    (relabelling : Equiv.Perm (Fin (RingBucket.empty cfg.z cfg.s cfg.blockSize).slotCount)) :
    List.map (relabel relabelling) <$> revealedOffsets cfg blocks addrs =
      revealedOffsets cfg blocks addrs := by
  have hShuffle := uniformOfFintype_map_equiv (Equiv.mulLeft relabelling)
  rw [revealedOffsets, map_bind]
  conv_rhs => rw [← hShuffle, ← lift_bind_pure, bind_assoc]
  apply bind_congr
  intro shuffle
  rw [pure_bind, Equiv.coe_mulLeft, touchFilled_mul hSlots hRoom hBlocks]

/-- At most `s` touches of a freshly filled bucket reveal uniformly distributed distinct slots, for
every choice of blocks and every pattern of wanted addresses. -/
theorem revealedOffsets_uniform (hAccepted : cfg.Accepted) (hRoom : blocks.length ≤ cfg.z.toNat)
    (hBlocks : ∀ block ∈ blocks, Storable cfg block) (hTouches : addrs.length ≤ cfg.s.toNat) :
    (revealedOffsets cfg blocks addrs).run =
      (PMF.uniformOfFinset (distinct cfg.slots addrs.length)
        (distinct_nonempty (hTouches.trans (Nat.le_add_left _ _)))).map Except.ok ∧
    ∀ offsets ∈ distinct cfg.slots addrs.length,
      (revealedOffsets cfg blocks addrs).run (.ok offsets) =
        ((cfg.slots.descFactorial addrs.length : Nat) : ENNReal)⁻¹ := by
  have hCount := RingBucket.slotCount_empty hAccepted.slots
  have hSurely := revealedOffsets_surely hAccepted.slots hRoom hBlocks hTouches
  rw [← hCount] at hSurely
  have hLength : addrs.length ≤ (RingBucket.empty cfg.z cfg.s cfg.blockSize).slotCount := by
    rw [hCount, RuntimeConfig.slots]
    omega
  have hUniform :=
    run_eq_uniform hLength hSurely (map_revealedOffsets hAccepted.slots hRoom hBlocks addrs)
  simp only [hCount] at hUniform
  refine ⟨hUniform, fun offsets hOffsets => ?_⟩
  rw [hUniform, map_injective_apply fun _ _ hEq => Except.ok.inj hEq,
    PMF.uniformOfFinset_apply_of_mem _ hOffsets, card_distinct]

/-- Buckets with one real slot and two dummies. -/
def threeSlots : RuntimeConfig :=
  { numBlocks := 2, treeDepth := 0, z := 1, s := 2, a := 1, blockSize := 1 }

/-- Reading the stored block and then a dummy reveals each pair of slots with probability 1/6. -/
theorem revealedOffsets_threeSlots :
    (revealedOffsets threeSlots [⟨1, 0, [5]⟩] [1, 0]).run (.ok [2, 0]) =
      ((6 : Nat) : ENNReal)⁻¹ := by
  have hAccepted : threeSlots.Accepted :=
    ⟨⟨by decide, by decide, by decide, by decide, by decide, by decide, by decide,
      by decide, by decide⟩, by decide, by decide⟩
  have hBlocks : ∀ block ∈ [(⟨1, 0, [5]⟩ : RingBlock)], Storable threeSlots block := by
    intro block hBlock
    rw [List.mem_singleton.mp hBlock]
    exact ⟨by decide, by decide⟩
  exact (@revealedOffsets_uniform threeSlots _ [1, 0] hAccepted (by decide) hBlocks (by decide)).2
    [2, 0]
    (mem_distinct.mpr (by decide))

end OramHub.RingOram
