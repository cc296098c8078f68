import Mathlib.Tactic.Abel
import OramHub.Lib.Inventory
import OramHub.OnionRing.Exchange

/-! # Where the client places blocks

Every address is recorded in at most one slot, and that slot lies on the path of the leaf that the
position map gives.
-/
namespace OramHub.OnionRing
open OramHub.Core OramHub.Program OramHub.Updates OramHub.Inventory
set_option autoImplicit false

/-- The ids of the blocks in a bucket. -/
def recorded (ids : List Int) : Multiset Int := ids.filter fun id => 0 ≤ id

/-- The ids of all blocks in the tree. -/
def placedIds (cfg : RuntimeConfig) (idMap : Nat → List Int) : Multiset Int :=
  inventory 0 (fun b => recorded (idMap b)) cfg.nodes

structure Placement (cfg : RuntimeConfig) (idMap : Nat → List Int)
    (positionMap : List UInt64) : Prop where
  rows : ∀ b ∈ cfg.nodes, (idMap b).length = cfg.slots
  placed : ∀ b ∈ cfg.nodes, ∀ id ∈ idMap b,
    id = -1 ∨ 0 ≤ id ∧ ∃ leaf, positionMap[id.toNat]? = some leaf ∧ b ∈ cfg.path leaf
  once : (placedIds cfg idMap).Nodup
  positions : positionMap.length = cfg.numBlocks.toNat
  leaves : ∀ leaf ∈ positionMap, leaf.toNat < 2 ^ cfg.height

/-- The block is in no slot. -/
def Unplaced (cfg : RuntimeConfig) (idMap : Nat → List Int) (addr : UInt64) : Prop :=
  ∀ b ∈ cfg.nodes, (addr.toNat : Int) ∉ idMap b

section Recorded

variable {ids : List Int} {slot : Nat} {id id' : Int}

theorem mem_recorded : id ∈ recorded ids ↔ id ∈ ids ∧ 0 ≤ id := by
  rw [recorded, Multiset.mem_coe, List.mem_filter, decide_eq_true_eq]

theorem recorded_append (ids ids' : List Int) :
    recorded (ids ++ ids') = recorded ids + recorded ids' := by
  rw [recorded, recorded, recorded, List.filter_append, Multiset.coe_add]

theorem recorded_cons (id : Int) (ids : List Int) :
    recorded (id :: ids) = recorded [id] + recorded ids :=
  recorded_append [id] ids

theorem recorded_dummies (count : Nat) : recorded (List.replicate count (-1)) = 0 := by
  rw [recorded, List.filter_eq_nil_iff.mpr fun id hId =>
    by rw [(List.mem_replicate.mp hId).2]; decide]
  rfl

theorem recorded_dummy : recorded [-1] = 0 := rfl

theorem recorded_block (hId : 0 ≤ id) : recorded [id] = {id} :=
  congrArg Multiset.ofList (List.filter_cons_of_pos (decide_eq_true hId))

theorem recorded_perm {ids' : List Int} (h : ids.Perm ids') : recorded ids = recorded ids' :=
  Multiset.coe_eq_coe.mpr (h.filter _)

theorem recorded_set (h : ids[slot]? = some id) (id' : Int) :
    recorded (ids.set slot id') + recorded [id] = recorded ids + recorded [id'] := by
  obtain ⟨hLt, hGet⟩ := List.getElem?_eq_some_iff.mp h
  have hSplit : ids = ids.take slot ++ ([id] ++ ids.drop (slot + 1)) := by
    rw [List.singleton_append, ← hGet, ← List.drop_eq_getElem_cons hLt, List.take_append_drop]
  have hSet : ids.set slot id' = ids.take slot ++ ([id'] ++ ids.drop (slot + 1)) := by
    rw [List.set_eq_take_append_cons_drop, if_pos hLt]
    rfl
  rw [hSet]
  conv_rhs => rw [hSplit]
  simp only [recorded_append]
  abel

theorem recorded_set_dummy_le (h : ids[slot]? = some id) :
    recorded (ids.set slot (-1)) ≤ recorded ids := by
  have hSum := recorded_set h (-1)
  rw [recorded_dummy, add_zero] at hSum
  exact hSum ▸ Multiset.le_add_right _ _

end Recorded

section Uniqueness

variable {cfg : RuntimeConfig} {idMap : Nat → List Int} {positionMap : List UInt64}
  {b b' slot slot' : Nat} {id : Int}

theorem mem_placedIds : id ∈ placedIds cfg idMap ↔ ∃ b ∈ cfg.nodes, id ∈ idMap b ∧ 0 ≤ id := by
  rw [placedIds, Inventory.mem_inventory]
  simp only [Multiset.notMem_zero, false_or, mem_recorded]

theorem nodup_map_id (h : (placedIds cfg idMap).Nodup) :
    ((placedIds cfg idMap).map fun id => id).Nodup := by
  rwa [Multiset.map_id']

theorem Placement.bucket_unique (h : Placement cfg idMap positionMap) (hb : b ∈ cfg.nodes)
    (hb' : b' ∈ cfg.nodes)
    (hId : 0 ≤ id) (hMem : id ∈ idMap b) (hMem' : id ∈ idMap b') : b = b' := by
  by_contra hNe
  exact contents_disjoint (nodup_map_id h.once) hb hb' hNe (mem_recorded.mpr ⟨hMem, hId⟩)
    (mem_recorded.mpr ⟨hMem', hId⟩) rfl

theorem Placement.nodup_recorded (h : Placement cfg idMap positionMap) (hb : b ∈ cfg.nodes) :
    (recorded (idMap b)).Nodup :=
  Multiset.nodup_of_le (@contents_le_inventory _ _ 0 (fun b => recorded (idMap b)) _ _ _ hb) h.once

theorem Placement.not_mem_set (h : Placement cfg idMap positionMap)
    (hb : b ∈ cfg.nodes) (hId : 0 ≤ id)
    (hGet : (idMap b)[slot]? = some id) : id ∉ (idMap b).set slot (-1) := by
  intro hMem
  have hSum := recorded_set hGet (-1)
  rw [recorded_dummy, add_zero, recorded_block hId] at hSum
  have hNodup := h.nodup_recorded hb
  rw [← hSum, Multiset.nodup_add] at hNodup
  exact (Multiset.disjoint_left.mp hNodup.2.2) (mem_recorded.mpr ⟨hMem, hId⟩)
    (Multiset.mem_singleton_self id)

theorem Placement.mapped (h : Placement cfg idMap positionMap) {addr : UInt64}
    (hAddr : addr < cfg.numBlocks) :
    ∃ leaf, positionMap[addr.toNat]? = some leaf ∧ leaf.toNat < 2 ^ cfg.height := by
  have hLt : addr.toNat < positionMap.length := h.positions ▸ UInt64.lt_iff_toNat_lt.mp hAddr
  exact ⟨_, List.getElem?_eq_getElem hLt, h.leaves _ (List.getElem_mem hLt)⟩

theorem Placement.id_lt (h : Placement cfg idMap positionMap) (hb : b ∈ cfg.nodes)
    (hMem : id ∈ idMap b) :
    id.toNat < 2 ^ 64 := by
  obtain rfl | ⟨_, leaf, hLeaf, _⟩ := h.placed b hb id hMem
  · decide
  · have hLt := (List.getElem?_eq_some_iff.mp hLeaf).1
    rw [h.positions] at hLt
    exact hLt.trans (UInt64.toNat_lt _)

theorem card_le_of_nodup {ids : Multiset Int} (hNodup : ids.Nodup) {addrs : Finset Nat}
    (h : ∀ id ∈ ids, 0 ≤ id ∧ id.toNat ∈ addrs) : ids.card ≤ addrs.card := by
  rw [← Multiset.toFinset_card_of_nodup hNodup]
  apply Finset.card_le_card_of_injOn Int.toNat
    (fun id hId => (h id (Multiset.mem_toFinset.mp hId)).2)
  intro id hId id' hId' hEq
  have hNonneg := (h id (Multiset.mem_toFinset.mp hId)).1
  have hNonneg' := (h id' (Multiset.mem_toFinset.mp hId')).1
  omega

theorem Placement.lt_numBlocks (h : Placement cfg idMap positionMap) (hb : b ∈ cfg.nodes)
    (hMem : id ∈ idMap b) (hId : 0 ≤ id) : id.toNat < cfg.numBlocks.toNat := by
  obtain rfl | ⟨_, leaf, hLeaf, _⟩ := h.placed b hb id hMem
  · exact absurd hId (by decide)
  · exact h.positions ▸ (List.getElem?_eq_some_iff.mp hLeaf).1

theorem Placement.card_le (h : Placement cfg idMap positionMap) :
    (placedIds cfg idMap).card ≤ cfg.numBlocks.toNat := by
  refine (card_le_of_nodup h.once fun id hId => ?_).trans (Finset.card_range _).le
  obtain ⟨b, hb, hMem, hNonneg⟩ := mem_placedIds.mp hId
  exact ⟨hNonneg, Finset.mem_range.mpr (h.lt_numBlocks hb hMem hNonneg)⟩

theorem Placement.mem_path (h : Placement cfg idMap positionMap) {addr leaf : UInt64}
    (hPosition : positionMap[addr.toNat]? = some leaf) (hb : b ∈ cfg.nodes)
    (hMem : (addr.toNat : Int) ∈ idMap b) :
    b ∈ cfg.path leaf := by
  obtain hDummy | ⟨_, other, hOther, hPath⟩ := h.placed b hb _ hMem
  · omega
  · rw [Int.toNat_natCast, hPosition, Option.some_inj] at hOther
    exact hOther ▸ hPath

end Uniqueness

section Selection

variable {cfg : RuntimeConfig} {idMap : Nat → List Int} {positionMap : List UInt64} {ids : List Int}
  {addr leaf : UInt64} {slot : Nat} {path selections : List Nat}

theorem selectSlot_eq_ok (hAddr : addr.toNat < 2 ^ 63) (h : selectSlot ids addr = .ok slot) :
    ids[slot]? = some (if (addr.toNat : Int) ∈ ids then (addr.toNat : Int) else -1) := by
  rw [selectSlot, toBlockId_of_lt hAddr] at h
  by_cases hMem : (addr.toNat : Int) ∈ ids
  · have hNe := findSlot_ne_length.mpr hMem
    simp only [if_neg hNe] at h
    cases h
    rw [if_pos hMem]
    exact getElem?_findSlot hMem
  · have hEq : findSlot ids addr.toNat = ids.length :=
      not_not.mp fun hNe => hMem (findSlot_ne_length.mp hNe)
    simp only [hEq, if_true] at h
    split at h
    · cases h
    · rename_i hNe
      cases h
      rw [if_neg hMem]
      exact getElem?_findSlot (findSlot_ne_length.mp hNe)

theorem selectSlots_eq_ok (h : selectSlots idMap path addr = .ok selections) :
    selections.length = path.length ∧ ∀ b slot, (b, slot) ∈ path.zip selections →
    selectSlot (idMap b) addr = .ok slot := by
  have hAll := forall₂_of_mapM h
  exact ⟨hAll.length_eq.symm, fun b slot hMem => (List.forall₂_iff_zip.mp hAll).2 hMem⟩

theorem forget_eq (hNodup : path.Nodup) (hLength : selections.length = path.length) :
    (∀ b ∉ path, forget idMap (path.zip selections) b = idMap b) ∧
      ∀ b slot, (b, slot) ∈ path.zip selections →
      forget idMap (path.zip selections) b = (idMap b).set slot (-1) := by
  have hKeys : (path.zip selections).map Prod.fst = path := List.map_fst_zip hLength.ge
  refine ⟨fun b hb => ?_, fun b slot hMem => ?_⟩
  · exact @updateAll_of_not_mem _ _ _ _ (fun ids slot => ids.set slot (-1))
      idMap _ b (by rwa [hKeys])
  · exact @updateAll_of_mem _ _ _ _ (fun ids slot => ids.set slot (-1)) idMap _ b
      (by rwa [hKeys]) slot hMem

theorem clearTree_eq {env : Env} {tree : Nat → List env.Ciphertext} (hNodup : path.Nodup)
    (hLength : selections.length = path.length) :
    (∀ b ∉ path, clearTree env tree (path.zip selections) b = tree b) ∧
      ∀ b slot, (b, slot) ∈ path.zip selections →
        clearTree env tree (path.zip selections) b = (tree b).set slot env.tfhe.tLweClear := by
  have hKeys : (path.zip selections).map Prod.fst = path := List.map_fst_zip hLength.ge
  refine ⟨fun b hb => updateAll_of_not_mem (by rwa [hKeys]), fun b slot hMem => ?_⟩
  exact updateAll_of_mem (by rwa [hKeys]) hMem

theorem exists_selection (hLength : selections.length = path.length) {b : Nat} (hb : b ∈ path) :
    ∃ slot, (b, slot) ∈ path.zip selections := by
  have hKeys : (path.zip selections).map Prod.fst = path := List.map_fst_zip hLength.ge
  rw [← hKeys] at hb
  obtain ⟨⟨_, slot⟩, hMem, rfl⟩ := List.mem_map.mp hb
  exact ⟨slot, hMem⟩

theorem nodup_path (hLeaf : leaf.toNat < 2 ^ cfg.height) : (cfg.path leaf).Nodup :=
  HeapTree.nodup_path hLeaf

theorem forget_cases (hNodup : path.Nodup) (hAddr : addr.toNat < 2 ^ 63)
    (hSelect : selectSlots idMap path addr = .ok selections) (b : Nat) :
    (b ∉ path ∧ forget idMap (path.zip selections) b = idMap b) ∨
      ∃ slot, (b, slot) ∈ path.zip selections ∧
      forget idMap (path.zip selections) b = (idMap b).set slot (-1) ∧
        (idMap b)[slot]? =
          some (if (addr.toNat : Int) ∈ idMap b then (addr.toNat : Int) else -1) := by
  obtain ⟨hLength, hSlots⟩ := selectSlots_eq_ok hSelect
  obtain ⟨hOff, hOn⟩ := @forget_eq idMap path selections hNodup hLength
  by_cases hb : b ∈ path
  · obtain ⟨slot, hMem⟩ := exists_selection hLength hb
    exact Or.inr ⟨slot, hMem, hOn b slot hMem, selectSlot_eq_ok hAddr (hSlots b slot hMem)⟩
  · exact Or.inl ⟨hb, hOff b hb⟩

theorem Placement.unplaced_forget (h : Placement cfg idMap positionMap)
    (hAddr : addr.toNat < 2 ^ 63)
    (hPosition : positionMap[addr.toNat]? = some leaf) (hLeaf : leaf.toNat < 2 ^ cfg.height)
    (hSelect : selectSlots idMap (cfg.path leaf) addr = .ok selections) :
    Unplaced cfg (forget idMap ((cfg.path leaf).zip selections)) addr := by
  intro b hb hMem
  obtain ⟨hOff, hSame⟩ | ⟨slot, _, hSet, hGet⟩ := forget_cases (nodup_path hLeaf) hAddr hSelect b
  · rw [hSame] at hMem
    exact hOff (h.mem_path hPosition hb hMem)
  · rw [hSet] at hMem
    by_cases hOld : (addr.toNat : Int) ∈ idMap b
    · rw [if_pos hOld] at hGet
      exact h.not_mem_set hb (Int.natCast_nonneg _) hGet hMem
    · obtain hMem | hEq := List.mem_or_eq_of_mem_set hMem
      · exact hOld hMem
      · omega

theorem mem_set_of_ne {ids : List Int} {id old new : Int} (hMem : id ∈ ids)
    (hGet : ids[slot]? = some old) (hNe : id ≠ old) :
    id ∈ ids.set slot new := by
  obtain ⟨i, hi⟩ := List.mem_iff_getElem?.mp hMem
  have hOther : slot ≠ i := by
    rintro rfl
    exact hNe (Option.some_inj.mp (hi.symm.trans hGet))
  exact List.mem_iff_getElem?.mpr ⟨i, (List.getElem?_set_ne hOther).trans hi⟩

theorem mem_forget (hNodup : path.Nodup) (hAddr : addr.toNat < 2 ^ 63)
    (hSelect : selectSlots idMap path addr = .ok selections) {id : Int} (hId : 0 ≤ id)
    (hNe : id ≠ addr.toNat) {b : Nat}
    (hMem : id ∈ idMap b) : id ∈ forget idMap (path.zip selections) b := by
  obtain ⟨_, hSame⟩ | ⟨slot, _, hSet, hGet⟩ := forget_cases hNodup hAddr hSelect b
  · exact hSame ▸ hMem
  · rw [hSet]
    apply mem_set_of_ne hMem hGet
    split
    · exact hNe
    · omega

theorem forget_le (hNodup : path.Nodup) (hAddr : addr.toNat < 2 ^ 63)
    (hSelect : selectSlots idMap path addr = .ok selections) :
    placedIds cfg (forget idMap (path.zip selections)) ≤ placedIds cfg idMap := by
  refine add_le_add_right (Finset.sum_le_sum fun b hb => ?_) 0
  obtain ⟨_, hSame⟩ | ⟨slot, _, hSet, hGet⟩ := forget_cases hNodup hAddr hSelect b
  · rw [hSame]
  · rw [hSet]
    exact recorded_set_dummy_le hGet

/-- Forgetting the selected slots and remapping the block keeps everything else in place. -/
theorem Placement.forget (h : Placement cfg idMap positionMap) (hAddr : addr.toNat < 2 ^ 63)
    (hPosition : positionMap[addr.toNat]? = some leaf) (hLeaf : leaf.toNat < 2 ^ cfg.height)
    (hSelect : selectSlots idMap (cfg.path leaf) addr = .ok selections) {newLeaf : UInt64}
    (hNewLeaf : newLeaf.toNat < 2 ^ cfg.height) :
    Placement cfg (forget idMap ((cfg.path leaf).zip selections))
      (positionMap.set addr.toNat newLeaf) := by
  have hUnplaced := h.unplaced_forget hAddr hPosition hLeaf hSelect
  have hCases := forget_cases (nodup_path hLeaf) hAddr hSelect
  constructor
  case rows =>
    intro b hb
    obtain ⟨_, hSame⟩ | ⟨slot, _, hSet, _⟩ := hCases b
    · rw [hSame, h.rows b hb]
    · rw [hSet, List.length_set, h.rows b hb]
  case placed =>
    intro b hb id hId
    have hOld : id ∈ idMap b ∨ id = -1 := by
      obtain ⟨_, hSame⟩ | ⟨slot, _, hSet, _⟩ := hCases b
      · exact Or.inl (hSame ▸ hId)
      · exact List.mem_or_eq_of_mem_set (hSet ▸ hId)
    obtain hOld | rfl := hOld
    · apply (h.placed b hb id hOld).imp_right
      rintro ⟨hNonneg, other, hOther, hPath⟩
      have hNe : addr.toNat ≠ id.toNat := by
        intro hEq
        apply hUnplaced b hb
        rwa [hEq, Int.toNat_of_nonneg hNonneg]
      exact ⟨hNonneg, other, (List.getElem?_set_ne hNe).trans hOther, hPath⟩
    · exact Or.inl rfl
  case once => exact Multiset.nodup_of_le (forget_le (nodup_path hLeaf) hAddr hSelect) h.once
  case positions => exact List.length_set.trans h.positions
  case leaves =>
    intro other hMem
    obtain hOld | rfl := List.mem_or_eq_of_mem_set hMem
    · exact h.leaves other hOld
    · exact hNewLeaf

end Selection

section Rebuild

variable {cfg : RuntimeConfig} {idMap : Nat → List Int} {positionMap : List UInt64}
  {ids : List Int} {b slot : Nat}
  {addr leaf : UInt64}

theorem root_mem_path (hLeaf : leaf.toNat < 2 ^ cfg.height) : 0 ∈ cfg.path leaf :=
  HeapTree.mem_path.mpr ⟨0, Nat.zero_le _, HeapTree.node_zero hLeaf⟩

theorem root_mem_nodes (cfg : RuntimeConfig) : 0 ∈ cfg.nodes :=
  mem_nodes.mpr (Nat.sub_pos_of_lt (Nat.one_lt_two_pow (Nat.succ_ne_zero _)))

theorem placedIds_update (hb : b ∈ cfg.nodes) (ids : List Int) :
    placedIds cfg (Function.update idMap b ids) + recorded (idMap b) =
      placedIds cfg idMap + recorded ids := by
  have hRest : inventory 0 (fun b' => recorded (Function.update idMap b ids b'))
      (cfg.nodes.erase b) =
      inventory 0 (fun b' => recorded (idMap b')) (cfg.nodes.erase b) :=
    inventory_congr fun b' hb' => by rw [Function.update_of_ne (Finset.ne_of_mem_erase hb')]
  rw [placedIds, placedIds, inventory_erase hb, inventory_erase hb, hRest, Function.update_self]
  abel

theorem placedIds_place (hb : b ∈ cfg.nodes) (hGet : (idMap b)[slot]? = some (-1)) (addr : UInt64) :
    placedIds cfg (Function.update idMap b ((idMap b).set slot addr.toNat)) =
    (addr.toNat : Int) ::ₘ placedIds cfg idMap := by
  have hUpdate := @placedIds_update cfg idMap b hb ((idMap b).set slot addr.toNat)
  have hSet := recorded_set hGet addr.toNat
  rw [recorded_dummy, add_zero, recorded_block (Int.natCast_nonneg _)] at hSet
  rw [hSet, ← add_assoc, add_right_comm, add_left_inj] at hUpdate
  rw [hUpdate, Multiset.add_comm, Multiset.singleton_add]

theorem Placement.place (h : Placement cfg idMap positionMap) (hUnplaced : Unplaced cfg idMap addr)
    (hPosition : positionMap[addr.toNat]? = some leaf) (hGet : (idMap 0)[slot]? = some (-1)) :
    Placement cfg (Function.update idMap 0 ((idMap 0).set slot addr.toNat)) positionMap := by
  have hRoot := root_mem_nodes cfg
  constructor
  case rows =>
    intro b hb
    rcases eq_or_ne b 0 with rfl | hNe
    · rw [Function.update_self, List.length_set, h.rows 0 hb]
    · rw [Function.update_of_ne hNe, h.rows b hb]
  case placed =>
    intro b hb id hId
    rcases eq_or_ne b 0 with rfl | hNe
    · rw [Function.update_self] at hId
      obtain hOld | rfl := List.mem_or_eq_of_mem_set hId
      · exact h.placed 0 hb id hOld
      · refine Or.inr ⟨Int.natCast_nonneg _, leaf, hPosition, root_mem_path (h.leaves leaf ?_)⟩
        exact List.mem_of_getElem? hPosition
    · rw [Function.update_of_ne hNe] at hId
      exact h.placed b hb id hId
  case once =>
    rw [placedIds_place hRoot hGet, Multiset.nodup_cons]
    refine ⟨fun hMem => ?_, h.once⟩
    obtain ⟨b, hb, hId, _⟩ := mem_placedIds.mp hMem
    exact hUnplaced b hb hId
  case positions => exact h.positions
  case leaves => exact h.leaves

end Rebuild
end OramHub.OnionRing
