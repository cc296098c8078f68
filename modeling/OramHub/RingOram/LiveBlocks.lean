import Mathlib.Data.Multiset.AddSub
import Mathlib.Data.List.GetD
import Mathlib.Data.Bool.Count
import Mathlib.Data.List.Perm.Basic
import OramHub.RingOram.RingBucket

/-! # The live blocks of a plain bucket

A metadata entry is live while it names an address and its slot is valid. Touching a slot
removes the block that lives there, or consumes a dummy; nothing else changes.
-/
namespace OramHub.RingOram
open OramHub.Core
set_option autoImplicit false

def RuntimeConfig.slots (cfg : RuntimeConfig) : Nat := cfg.z.toNat + cfg.s.toNat

theorem getD_set_false (valids : List Bool) (offset other : Nat) :
    (valids.set offset false).getD other false = (valids.getD other false && other != offset) := by
  rw [List.getD_eq_getElem?_getD, List.getElem?_set, List.getD_eq_getElem?_getD]
  by_cases h : offset = other
  · subst h
    by_cases hLt : offset < valids.length <;> simp [hLt]
  · simp [h, Ne.symm h]

theorem getD_injective {l : List Nat} (h : l.Nodup) {i j : Nat}
    (hi : i < l.length) (hj : j < l.length) (hEq : l.getD i 0 = l.getD j 0) : i = j := by
  rw [List.getD_eq_getElem _ _ hi, List.getD_eq_getElem _ _ hj] at hEq
  exact (h.getElem_inj_iff).mp hEq

namespace RingBucket

def ptr (bucket : RingBucket) (i : Nat) : Nat := bucket.ptrs.getD i 0

def payload (bucket : RingBucket) (offset : Nat) : Bytes := (bucket.data.getD offset {}).data

/-- The block that metadata entry `i` stands for. -/
def entry (bucket : RingBucket) (i : Nat) : RingBlock where
  addr := bucket.addrs.getD i 0
  leaf := bucket.leaves.getD i 0
  data := bucket.payload (bucket.ptr i)

def liveIndices (bucket : RingBucket) : List Nat :=
  (List.range bucket.addrs.length).filter bucket.validReal

def liveBlocks (bucket : RingBucket) : List RingBlock := bucket.liveIndices.map bucket.entry

/-- The server has handed out a slot. -/
def touch (bucket : RingBucket) (offset : Nat) : RingBucket :=
  { bucket with valids := bucket.valids.set offset false, count := bucket.count + 1 }

/-- The slots that may be read from a bucket when looking for `addr`, and whether the slot is the
wanted one. -/
inductive Selects (bucket : RingBucket) (addr : UInt64) : Nat → Bool → Prop
  | target {i : Nat} : i ∈ bucket.liveIndices → (bucket.entry i).addr = addr →
      Selects bucket addr (bucket.ptr i) true
  | dummy {offset : Nat} : (∀ i ∈ bucket.liveIndices, (bucket.entry i).addr ≠ addr) →
      offset ∈ bucket.validDummyOffsets → Selects bucket addr offset false

/-- The live blocks at a slot. -/
def found (bucket : RingBucket) (offset : Nat) : List RingBlock :=
  (bucket.liveIndices.filter fun i => bucket.ptr i == offset).map bucket.entry

structure WellFormed (cfg : RuntimeConfig) (bucket : RingBucket) : Prop where
  valids : bucket.valids.length = cfg.slots
  addrs : bucket.addrs.length = cfg.z.toNat
  leaves : bucket.leaves.length = cfg.z.toNat
  ptrs : bucket.ptrs.length = cfg.z.toNat
  data : bucket.data.length = cfg.slots
  ptrs_nodup : bucket.ptrs.Nodup
  ptrs_lt : ∀ offset ∈ bucket.ptrs, offset < cfg.slots
  payload : ∀ block ∈ bucket.data, block.data.length = cfg.blockSize.toNat
  dummies : ∀ offset ∈ bucket.validDummyOffsets,
    bucket.payload offset = List.replicate cfg.blockSize.toNat 0
  count : bucket.count.toNat = bucket.valids.count false

section Lemmas

variable {cfg : RuntimeConfig} {bucket : RingBucket}

theorem mem_liveIndices {i : Nat} :
    i ∈ bucket.liveIndices ↔ i < bucket.addrs.length ∧ bucket.validReal i = true := by
  simp [liveIndices]

theorem nodup_liveIndices (bucket : RingBucket) : bucket.liveIndices.Nodup :=
  List.nodup_range.filter _

theorem validReal_iff {i : Nat} : bucket.validReal i = true ↔
    bucket.addrs.getD i kDummyAddress ≠ kDummyAddress ∧
    bucket.valids.getD (bucket.ptr i) false = true := by
  simp [validReal, ptr]

theorem entry_addr_eq {i : Nat} (h : i ∈ bucket.liveIndices) (default : UInt64) :
    (bucket.entry i).addr = bucket.addrs.getD i default := by
  have hLt := (mem_liveIndices.mp h).1
  rw [entry, List.getD_eq_getElem _ _ hLt, List.getD_eq_getElem _ _ hLt]

theorem length_liveIndices_le (bucket : RingBucket) :
    bucket.liveIndices.length ≤ bucket.addrs.length := by
  have := List.length_filter_le bucket.validReal (List.range bucket.addrs.length)
  rwa [List.length_range] at this

theorem mem_validRealOffsets {offset : Nat} :
    offset ∈ bucket.validRealOffsets ↔ ∃ i ∈ bucket.liveIndices, bucket.ptr i = offset := by
  simp only [validRealOffsets, List.mem_map]
  rfl

theorem mem_validDummyOffsets {offset : Nat} :
    offset ∈ bucket.validDummyOffsets ↔
      bucket.valids.getD offset false = true ∧ ∀ i ∈ bucket.liveIndices, bucket.ptr i ≠ offset := by
  have hLt : bucket.valids.getD offset false = true → offset < bucket.valids.length := by
    intro h
    by_contra hGe
    rw [List.getD_eq_default _ _ (by omega)] at h
    cases h
  simp only [validDummyOffsets, List.mem_filter, List.mem_range,
    Bool.and_eq_true, Bool.not_eq_true',
    List.contains_eq_mem, decide_eq_false_iff_not, mem_validRealOffsets, not_exists, not_and]
  exact ⟨fun h => h.2, fun h => ⟨hLt h.1, h⟩⟩

theorem ptr_injective (h : bucket.WellFormed cfg) {i j : Nat} (hi : i ∈ bucket.liveIndices)
    (hj : j ∈ bucket.liveIndices) (hEq : bucket.ptr i = bucket.ptr j) : i = j := by
  have hi' := (mem_liveIndices.mp hi).1
  have hj' := (mem_liveIndices.mp hj).1
  rw [h.addrs, ← h.ptrs] at hi' hj'
  exact getD_injective h.ptrs_nodup hi' hj' hEq

theorem payload_length (h : bucket.WellFormed cfg) {offset : Nat} (hOffset : offset < cfg.slots) :
    (bucket.payload offset).length = cfg.blockSize.toNat := by
  have hLt : offset < bucket.data.length := by rwa [h.data]
  rw [RingBucket.payload, List.getD_eq_getElem _ _ hLt]
  exact h.payload _ (List.getElem_mem hLt)

/-- A touched slot is valid, so a selection is always in range. -/
theorem Selects.valid {addr : UInt64} {offset : Nat} {target : Bool}
    (h : bucket.Selects addr offset target) :
    bucket.valids.getD offset false = true := by
  cases h with
  | target hi _ => exact (validReal_iff.mp (mem_liveIndices.mp hi).2).2
  | dummy _ hOffset => exact (mem_validDummyOffsets.mp hOffset).1

theorem lt_of_valid {offset : Nat} (h : bucket.valids.getD offset false = true) :
    offset < bucket.valids.length := by
  by_contra hGe
  rw [List.getD_eq_default _ _ (by omega)] at h
  cases h

theorem valid_ptr {i : Nat} (h : i ∈ bucket.liveIndices) :
    bucket.valids.getD (bucket.ptr i) false = true :=
  (validReal_iff.mp (mem_liveIndices.mp h).2).2

/-! ## Touching a slot -/

@[simp] theorem touch_entry (bucket : RingBucket) (offset : Nat) :
    (bucket.touch offset).entry = bucket.entry := rfl

@[simp] theorem touch_ptr (bucket : RingBucket) (offset : Nat) :
    (bucket.touch offset).ptr = bucket.ptr := rfl

theorem validReal_touch (bucket : RingBucket) (offset i : Nat) :
    (bucket.touch offset).validReal i = (bucket.validReal i && bucket.ptr i != offset) := by
  change (_ && (bucket.valids.set offset false).getD (bucket.ptr i) false) = _
  rw [getD_set_false, ← Bool.and_assoc]
  rfl

theorem liveIndices_touch (bucket : RingBucket) (offset : Nat) :
    (bucket.touch offset).liveIndices = bucket.liveIndices.filter fun i =>
      bucket.ptr i != offset := by
  rw [liveIndices, liveIndices, List.filter_filter]
  apply List.filter_congr
  intro i _
  rw [validReal_touch, Bool.and_comm]

/-- Touching a slot takes away the block that lives there, and no other. -/
theorem liveBlocks_touch (bucket : RingBucket) (offset : Nat) :
    (bucket.liveBlocks : Multiset RingBlock) =
      (bucket.found offset : Multiset RingBlock) +
        ((bucket.touch offset).liveBlocks : Multiset RingBlock) := by
  rw [liveBlocks, found, liveBlocks, touch_entry, liveIndices_touch,
    Multiset.coe_add, Multiset.coe_eq_coe, ← List.map_append]
  exact (List.filter_append_perm (fun i => bucket.ptr i == offset) bucket.liveIndices).symm.map _

theorem Selects.found_target (h : bucket.WellFormed cfg) {addr : UInt64} {offset : Nat}
    (hSelects : bucket.Selects addr offset true) :
    ∃ i ∈ bucket.liveIndices, bucket.found offset = [bucket.entry i] ∧
    (bucket.entry i).addr = addr ∧
      (bucket.entry i).data = bucket.payload offset := by
  cases hSelects with
  | @target i hi hAddr =>
    refine ⟨i, hi, ?_, hAddr, rfl⟩
    have hFilter : (bucket.liveIndices.filter fun j => bucket.ptr j == bucket.ptr i) =
        bucket.liveIndices.filter (· == i) := by
      apply List.filter_congr
      intro j hj
      rw [Bool.eq_iff_iff, beq_iff_eq, beq_iff_eq]
      exact ⟨ptr_injective h hj hi, congrArg _⟩
    rw [found, hFilter, List.filter_beq, List.count_eq_one_of_mem (nodup_liveIndices bucket) hi]
    rfl

theorem Selects.absent {addr : UInt64} {offset : Nat}
    (hSelects : bucket.Selects addr offset false) :
    ∀ i ∈ bucket.liveIndices, (bucket.entry i).addr ≠ addr := by
  cases hSelects with
  | dummy hOther _ => exact hOther

theorem Selects.offset_mem {addr : UInt64} {offset : Nat}
    (hSelects : bucket.Selects addr offset false) :
    offset ∈ bucket.validDummyOffsets := by
  cases hSelects with
  | dummy _ hOffset => exact hOffset

theorem Selects.found_dummy {addr : UInt64} {offset : Nat}
    (hSelects : bucket.Selects addr offset false) :
    bucket.found offset = [] := by
  cases hSelects with
  | dummy _ hOffset =>
    rw [found, List.map_eq_nil_iff, List.filter_eq_nil_iff]
    intro i hi
    simpa using (mem_validDummyOffsets.mp hOffset).2 i hi

theorem mem_validDummyOffsets_touch {offset other : Nat} :
    other ∈ (bucket.touch offset).validDummyOffsets ↔
      other ∈ bucket.validDummyOffsets ∧ other ≠ offset := by
  have hValid : (bucket.touch offset).valids.getD other false =
      (bucket.valids.getD other false && other != offset) := getD_set_false _ _ _
  rw [mem_validDummyOffsets, mem_validDummyOffsets, hValid, liveIndices_touch, touch_ptr]
  simp only [Bool.and_eq_true, bne_iff_ne, List.mem_filter]
  constructor
  · rintro ⟨⟨hOther, hNe⟩, hReal⟩
    refine ⟨⟨hOther, fun i hi hEq => ?_⟩, hNe⟩
    exact hReal i ⟨hi, hEq ▸ hNe⟩ hEq
  · rintro ⟨⟨hOther, hReal⟩, hNe⟩
    exact ⟨⟨hOther, hNe⟩, fun i hi => hReal i hi.1⟩

theorem validDummyOffsets_congr {other : RingBucket}
    (hLength : bucket.valids.length = other.valids.length)
    (h : ∀ offset, offset ∈ bucket.validDummyOffsets ↔ offset ∈ other.validDummyOffsets) :
    bucket.validDummyOffsets = other.validDummyOffsets := by
  rw [validDummyOffsets, validDummyOffsets, hLength]
  apply List.filter_congr
  intro offset hOffset
  have hIff := h offset
  rw [validDummyOffsets, validDummyOffsets, hLength, List.mem_filter, List.mem_filter] at hIff
  rw [Bool.eq_iff_iff]
  exact ⟨fun hLeft => (hIff.mp ⟨hOffset, hLeft⟩).2, fun hRight => (hIff.mpr ⟨hOffset, hRight⟩).2⟩

theorem validDummyOffsets_touch_real {i : Nat} (hi : i ∈ bucket.liveIndices) :
    (bucket.touch (bucket.ptr i)).validDummyOffsets = bucket.validDummyOffsets := by
  apply validDummyOffsets_congr List.length_set
  intro offset
  rw [mem_validDummyOffsets_touch]
  refine ⟨And.left, fun hOffset => ⟨hOffset, ?_⟩⟩
  rintro rfl
  exact (mem_validDummyOffsets.mp hOffset).2 i hi rfl

theorem nodup_validDummyOffsets (bucket : RingBucket) : bucket.validDummyOffsets.Nodup :=
  List.nodup_range.filter _

theorem length_validDummyOffsets_touch {offset : Nat} (h : offset ∈ bucket.validDummyOffsets) :
    (bucket.touch offset).validDummyOffsets.length + 1 = bucket.validDummyOffsets.length := by
  have hPerm : (bucket.touch offset).validDummyOffsets.Perm
      (bucket.validDummyOffsets.erase offset) := by
    rw [List.perm_ext_iff_of_nodup (nodup_validDummyOffsets _)
      ((nodup_validDummyOffsets _).erase _)]
    intro other
    rw [mem_validDummyOffsets_touch, (nodup_validDummyOffsets _).mem_erase_iff, and_comm]
  have hPos := List.length_pos_of_mem h
  rw [hPerm.length_eq, List.length_erase_of_mem h]
  omega

theorem count_touch {offset : Nat} (h : bucket.valids.getD offset false = true) :
    (bucket.touch offset).valids.count false = bucket.valids.count false + 1 := by
  have hLt := lt_of_valid h
  rw [List.getD_eq_getElem _ _ hLt] at h
  change (bucket.valids.set offset false).count false = _
  rw [List.count_set hLt, h]
  simp

theorem WellFormed.touch (h : bucket.WellFormed cfg) {offset : Nat}
    (hValid : bucket.valids.getD offset false = true) (hCount : bucket.count.toNat + 1 < 2 ^ 64) :
    (bucket.touch offset).WellFormed cfg where
  valids := (List.length_set).trans h.valids
  addrs := h.addrs
  leaves := h.leaves
  ptrs := h.ptrs
  data := h.data
  ptrs_nodup := h.ptrs_nodup
  ptrs_lt := h.ptrs_lt
  payload := h.payload
  dummies other hOther := h.dummies other (mem_validDummyOffsets_touch.mp hOther).1
  count := by
    rw [count_touch hValid, ← h.count]
    change (bucket.count + 1).toNat = _
    rw [UInt64.toNat_add, UInt64.toNat_one, Nat.mod_eq_of_lt hCount]

/-! ## The slot budget -/

theorem length_validDummyOffsets (h : bucket.WellFormed cfg) :
    bucket.validDummyOffsets.length + bucket.liveIndices.length +
      bucket.valids.count false = cfg.slots := by
  have hReal : (bucket.validRealOffsets).Nodup := by
    refine List.Nodup.map_on ?_ (nodup_liveIndices bucket)
    intro i hi j hj hEq
    exact ptr_injective h hi hj hEq
  have hPerm : bucket.validRealOffsets.Perm ((List.range bucket.valids.length).filter fun offset =>
      bucket.valids.getD offset false && bucket.validRealOffsets.contains offset) := by
    rw [List.perm_ext_iff_of_nodup hReal (List.nodup_range.filter _)]
    intro offset
    simp only [List.mem_filter, List.mem_range, Bool.and_eq_true,
      List.contains_eq_mem, decide_eq_true_eq]
    refine ⟨fun hOffset => ?_, fun hOffset => hOffset.2.2⟩
    obtain ⟨i, hi, rfl⟩ := mem_validRealOffsets.mp hOffset
    exact ⟨lt_of_valid (valid_ptr hi), valid_ptr hi, hOffset⟩
  have hLive : bucket.liveIndices.length = bucket.validRealOffsets.length :=
    (List.length_map _).symm
  have hSplit : ((List.range bucket.valids.length).filter fun offset =>
      bucket.valids.getD offset false).length =
      bucket.validRealOffsets.length + bucket.validDummyOffsets.length := by
    rw [hPerm.length_eq, validDummyOffsets, List.length_eq_length_filter_add
      (fun offset => bucket.validRealOffsets.contains offset),
      List.filter_filter, List.filter_filter]
    congr 2
    · exact List.filter_congr fun offset _ => Bool.and_comm _ _
    · exact List.filter_congr fun offset _ => Bool.and_comm _ _
  have hValid : ((List.range bucket.valids.length).filter fun offset =>
      bucket.valids.getD offset false).length = bucket.valids.count true := by
    have hMap : (List.range bucket.valids.length).map
        (fun offset => bucket.valids.getD offset false) =
        bucket.valids := by
      apply List.ext_getElem (by simp)
      intro offset hLeft hRight
      rw [List.getElem_map, List.getElem_range, List.getD_eq_getElem _ _ hRight]
    rw [← List.countP_eq_length_filter, List.count_eq_countP]
    conv_rhs => rw [← hMap]
    rw [List.countP_map]
    congr 1
    funext offset
    simp
  have hTotal : bucket.valids.count true + bucket.valids.count false = bucket.valids.length :=
    List.count_true_add_count_false bucket.valids
  rw [h.valids] at hTotal
  omega

/-- A bucket touched at most `s` times can still be read in full. -/
theorem dummies_cover (h : bucket.WellFormed cfg) (hCount : bucket.count.toNat ≤ cfg.s.toNat) :
    cfg.z.toNat - bucket.liveIndices.length ≤ bucket.validDummyOffsets.length := by
  have hBudget := length_validDummyOffsets h
  have := h.count
  rw [RuntimeConfig.slots] at hBudget
  omega

theorem exists_dummy (h : bucket.WellFormed cfg) (hCount : bucket.count.toNat < cfg.s.toNat) :
    bucket.validDummyOffsets ≠ [] := by
  have hBudget := length_validDummyOffsets h
  have hLive := length_liveIndices_le bucket
  have hAddrs := h.addrs
  have := h.count
  rw [RuntimeConfig.slots] at hBudget
  rw [← List.length_pos_iff]
  omega

end Lemmas
end RingBucket
end OramHub.RingOram
