import OramHub.OnionRing.Placement

/-! # What the ciphertexts hold

A slot that records a block holds an encryption of the data of the block, every other slot an
encryption of zero. A path sum therefore decrypts to the one block it was asked for.
-/
namespace OramHub.OnionRing
open OramHub.Core OramHub.Program OramHub.Updates OramHub.Inventory
set_option autoImplicit false

def zeroBlock (cfg : RuntimeConfig) : Bytes := List.replicate cfg.blockSize.toNat 0

/-- What a slot with this id decrypts to. -/
def content (n : Nat) (memory : Memory) (id : Int) : Message n :=
  if 0 ≤ id then message n (memory (UInt64.ofNat id.toNat)) else 0

/-- A slot holds what its id says, provided that ciphertexts decrypt exactly. -/
def Matches (env : Env) (memory : Memory) (slot : Slot env) : Prop :=
  env.tfhe.Exact → env.tfhe.tLweSymDecrypt slot.2 = content env.cfg.tlweN memory slot.1

def Holds (env : Env) (memory : Memory) (ids : List Int) (row : List env.Ciphertext) : Prop :=
  ∀ slot ∈ ids.zip row, Matches env memory slot

/-- Client and server together hold the memory. -/
structure Coherent (env : Env) (w : World env.Ciphertext) (memory : Memory) : Prop where
  shaped : Shaped env w.server
  leaves : w.numLeaves.toNat = 2 ^ env.cfg.height
  placement : Placement env.cfg w.idMap w.positionMap
  holds : ∀ b ∈ env.cfg.nodes, Holds env memory (w.idMap b) (w.server.tree b)
  sizes : ∀ addr, (memory addr).length = env.cfg.blockSize.toNat
  absent : ∀ addr, Unplaced env.cfg w.idMap addr → memory addr = zeroBlock env.cfg
  fits : placedIds env.cfg w.idMap ≠ 0 → env.cfg.blockSize.toNat ≤ env.cfg.tlweN

section Content

variable {env : Env} {memory : Memory} {ids : List Int} {row : List env.Ciphertext}
  {addr : UInt64} {id : Int}
  {slot n : Nat}

theorem content_dummy (n : Nat) (memory : Memory) : content n memory (-1) = 0 := rfl

theorem content_addr (n : Nat) (memory : Memory) (addr : UInt64) :
    content n memory addr.toNat = message n (memory addr) := by
  rw [content, if_pos (Int.natCast_nonneg _), Int.toNat_natCast, UInt64.ofNat_toNat]

theorem content_update_of_ne (hId : id.toNat < 2 ^ 64) (hNe : id ≠ addr.toNat) (data : Bytes) :
    content n (Function.update memory addr data) id = content n memory id := by
  rw [content, content]
  split
  · rename_i hNonneg
    have hAddr : UInt64.ofNat id.toNat ≠ addr := by
      rintro rfl
      rw [UInt64.toNat_ofNat_of_lt' hId, Int.toNat_of_nonneg hNonneg] at hNe
      exact hNe rfl
    rw [Function.update_of_ne hAddr]
  · rfl

theorem exists_content (hSizes : ∀ addr, (memory addr).length = env.cfg.blockSize.toNat)
    (id : Int) :
    ∃ block, block.length = env.cfg.blockSize.toNat ∧ content n memory id = message n block := by
  by_cases hId : 0 ≤ id
  · exact ⟨_, hSizes _, if_pos hId⟩
  · refine ⟨zeroBlock env.cfg, List.length_replicate, ?_⟩
    rw [content, if_neg hId, zeroBlock, message_zeros]

theorem Holds.set (h : Holds env memory ids row) {ciphertext : env.Ciphertext}
    (hContent : Matches env memory (id, ciphertext)) :
    Holds env memory (ids.set slot id) (row.set slot ciphertext) := by
  rintro ⟨id', ciphertext'⟩ hMem
  obtain ⟨i, hGet⟩ := List.mem_iff_getElem?.mp hMem
  obtain ⟨hId, hRow⟩ := List.getElem?_zip_eq_some.mp hGet
  rcases eq_or_ne slot i with rfl | hNe
  · have hLt := (List.getElem?_eq_some_iff.mp hId).1
    have hLtRow := (List.getElem?_eq_some_iff.mp hRow).1
    rw [List.length_set] at hLt hLtRow
    rw [List.getElem?_set_self hLt] at hId
    rw [List.getElem?_set_self hLtRow] at hRow
    cases hId
    cases hRow
    exact hContent
  · rw [List.getElem?_set_ne hNe] at hId hRow
    exact h _ (List.mem_iff_getElem?.mpr ⟨i, List.getElem?_zip_eq_some.mpr ⟨hId, hRow⟩⟩)

theorem Holds.update (h : Holds env memory ids row) (hIds : ∀ id ∈ ids, id.toNat < 2 ^ 64)
    (hAddr : (addr.toNat : Int) ∉ ids) (data : Bytes) :
    Holds env (Function.update memory addr data) ids row := by
  intro slot hSlot
  have hId := (List.of_mem_zip hSlot).1
  rw [Matches, content_update_of_ne (hIds _ hId) fun hEq => hAddr (hEq ▸ hId)]
  exact h slot hSlot

theorem Holds.transmitted (h : Holds env memory ids row) :
    Holds env memory ids (row.map env.tfhe.transmit) := by
  intro slot hSlot hExact
  rw [List.zip_map_right] at hSlot
  obtain ⟨old, hOld, rfl⟩ := List.mem_map.mp hSlot
  exact (congrArg env.tfhe.tLweSymDecrypt (hExact.transmit_eq old.2)).trans (h old hOld hExact)

theorem matches_clear (env : Env) (memory : Memory) : Matches env memory (-1, env.tfhe.tLweClear) :=
  fun hExact =>
  hExact.decrypt_clear.trans (content_dummy _ memory).symm

theorem Holds.getD (hExact : env.tfhe.Exact) (h : Holds env memory ids row)
    (hLength : ids.length = row.length) (hId : ids[slot]? = some id) :
    env.tfhe.tLweSymDecrypt (row.getD slot env.tfhe.tLweClear) =
      content env.cfg.tlweN memory id := by
  have hLt : slot < row.length := hLength ▸ (List.getElem?_eq_some_iff.mp hId).1
  rw [List.getD_eq_getElem _ _ hLt]
  exact h (id, row[slot]) (List.mem_iff_getElem?.mpr
    ⟨slot, List.getElem?_zip_eq_some.mpr ⟨hId, List.getElem?_eq_getElem hLt⟩⟩) hExact

end Content

section Unplaced

variable {cfg : RuntimeConfig} {idMap : Nat → List Int} {addr : UInt64}

theorem unplaced_iff : Unplaced cfg idMap addr ↔ (addr.toNat : Int) ∉ placedIds cfg idMap := by
  rw [mem_placedIds, not_exists]
  constructor
  · rintro h b ⟨hb, hMem, _⟩
    exact h b hb hMem
  · intro h b hb hMem
    exact h b ⟨hb, hMem, Int.natCast_nonneg _⟩

end Unplaced

variable {env : Env} {w w' : World env.Ciphertext} {memory : Memory} {addr leaf newLeaf : UInt64}
  {selections : List Nat}

section PathSum

theorem Coherent.lengths (h : Coherent env w memory) {b : Nat} (hb : b ∈ env.cfg.nodes) :
    (w.idMap b).length = (w.server.tree b).length :=
  (h.placement.rows b hb).trans (h.shaped.rows b hb).symm

/-- The selected slot of a bucket decrypts to the wanted block if the bucket has it, and to zero
otherwise. -/
theorem Coherent.decrypt_selected (hExact : env.tfhe.Exact) (h : Coherent env w memory)
    (hAddr : addr.toNat < 2 ^ 63) (hLeaf : leaf.toNat < 2 ^ env.cfg.height)
    (hSelect : selectSlots w.idMap (env.cfg.path leaf) addr = .ok selections)
    {slot : Nat × Nat} (hSlot : slot ∈ (env.cfg.path leaf).zip selections) :
    env.tfhe.tLweSymDecrypt (slotAt env w.server.tree slot) =
      if (addr.toNat : Int) ∈ w.idMap slot.1 then message env.cfg.tlweN (memory addr) else 0 := by
  have hNode := mem_nodes_of_mem_path hLeaf (List.of_mem_zip hSlot).1
  have hId := selectSlot_eq_ok hAddr ((selectSlots_eq_ok hSelect).2 slot.1 slot.2 hSlot)
  rw [slotAt, (h.holds _ hNode).getD hExact (h.lengths hNode) hId]
  split
  · exact content_addr _ memory addr
  · exact content_dummy _ memory

theorem sum_single {M : Type} [AddCommMonoid M] {path : List Nat} (hNodup : path.Nodup)
    {present : Nat → Prop} [DecidablePred present] {b : Nat} (hb : b ∈ path) (hPresent : present b)
    (hOnly : ∀ b' ∈ path, present b' → b' = b) (value : M) :
    (path.map fun b => if present b then value else 0).sum = value := by
  rw [← List.sum_toFinset _ hNodup, Finset.sum_eq_single b, if_pos hPresent]
  · intro b' hb' hNe
    exact if_neg fun hPresent' => hNe (hOnly b' (List.mem_toFinset.mp hb') hPresent')
  · intro hNot
    exact absurd (List.mem_toFinset.mpr hb) hNot

/-- A path sum decrypts to the block at the address. -/
theorem Coherent.decrypt_pathSum (hExact : env.tfhe.Exact) (h : Coherent env w memory)
    (hAddr : addr.toNat < 2 ^ 63)
    (hPosition : w.positionMap[addr.toNat]? = some leaf) (hLeaf : leaf.toNat < 2 ^ env.cfg.height)
    (hSelect : selectSlots w.idMap (env.cfg.path leaf) addr = .ok selections) :
    env.tfhe.tLweSymDecrypt
      ((((env.cfg.path leaf).zip selections).map (slotAt env w.server.tree)).foldl
        env.tfhe.tLweAddTo env.tfhe.tLweClear) = message env.cfg.tlweN (memory addr) := by
  have hKeys : ((env.cfg.path leaf).zip selections).map Prod.fst = env.cfg.path leaf :=
    List.map_fst_zip (selectSlots_eq_ok hSelect).1.ge
  have hTerms : (((env.cfg.path leaf).zip selections).map (slotAt env w.server.tree)).map
      env.tfhe.tLweSymDecrypt =
      (env.cfg.path leaf).map fun b =>
        if (addr.toNat : Int) ∈ w.idMap b then message env.cfg.tlweN (memory addr) else 0 := by
    conv_rhs => rw [← hKeys]
    rw [List.map_map, List.map_map]
    exact List.map_congr_left fun slot hSlot => h.decrypt_selected hExact hAddr hLeaf hSelect hSlot
  rw [hExact.decrypt_foldl, hExact.decrypt_clear, zero_add, hTerms]
  by_cases hPlaced : ∃ b ∈ env.cfg.path leaf, (addr.toNat : Int) ∈ w.idMap b
  · obtain ⟨b, hb, hMem⟩ := hPlaced
    refine sum_single (nodup_path hLeaf) hb hMem (fun b' hb' hMem' => ?_) _
    exact h.placement.bucket_unique (mem_nodes_of_mem_path hLeaf hb')
      (mem_nodes_of_mem_path hLeaf hb)
      (Int.natCast_nonneg _) hMem' hMem
  · have hAbsent : memory addr = zeroBlock env.cfg := h.absent addr fun b hb hMem =>
      hPlaced ⟨b, h.placement.mem_path hPosition hb hMem, hMem⟩
    rw [hAbsent, zeroBlock, message_zeros]
    apply List.sum_eq_zero
    intro term hTerm
    obtain ⟨b, _, rfl⟩ := List.mem_map.mp hTerm
    exact ite_self 0

end PathSum

section Changes

theorem Coherent.of_eq (h : Coherent env w memory) (hServer : w'.server = w.server)
    (hLeaves : w'.numLeaves = w.numLeaves) (hIdMap : w'.idMap = w.idMap)
    (hPositions : w'.positionMap = w.positionMap) :
    Coherent env w' memory := by
  refine ⟨hServer ▸ h.shaped, hLeaves ▸ h.leaves, ?_, ?_, h.sizes, ?_, ?_⟩
  · rw [hIdMap, hPositions]
    exact h.placement
  · rw [hIdMap, hServer]
    exact h.holds
  · rw [hIdMap]
    exact h.absent
  · rw [hIdMap]
    exact h.fits

theorem Coherent.id_lt (h : Coherent env w memory) {b : Nat} (hb : b ∈ env.cfg.nodes) {id : Int}
    (hId : id ∈ w.idMap b) : id.toNat < 2 ^ 64 := h.placement.id_lt hb hId

/-- Moving blocks between buckets changes nothing that the memory says. -/
theorem Coherent.rearrange (h : Coherent env w memory) (hShaped : Shaped env w'.server)
    (hLeaves : w'.numLeaves = w.numLeaves) (hPlacement : Placement env.cfg w'.idMap w'.positionMap)
    (hIds : placedIds env.cfg w'.idMap = placedIds env.cfg w.idMap)
    (hHolds : ∀ b ∈ env.cfg.nodes, Holds env memory (w'.idMap b) (w'.server.tree b)) :
    Coherent env w' memory := by
  refine ⟨hShaped, hLeaves ▸ h.leaves, hPlacement, hHolds, h.sizes, fun addr hUnplaced =>
    ?_, fun hPlaced => ?_⟩
  · rw [unplaced_iff, hIds] at hUnplaced
    exact h.absent addr (unplaced_iff.mpr hUnplaced)
  · exact h.fits (hIds ▸ hPlaced)

/-- The path has been cleared on both sides and the block remapped: the block is nowhere. -/
theorem Coherent.clear (h : Coherent env w memory) (hAddr : addr.toNat < 2 ^ 63)
    (hPosition : w.positionMap[addr.toNat]? = some leaf) (hLeaf : leaf.toNat < 2 ^ env.cfg.height)
    (hSelect : selectSlots w.idMap (env.cfg.path leaf) addr = .ok selections)
    (hNewLeaf : newLeaf.toNat < 2 ^ env.cfg.height)
    (hServer : w'.server =
      { w.server with tree := clearTree env w.server.tree ((env.cfg.path leaf).zip selections) })
    (hLeaves : w'.numLeaves = w.numLeaves)
    (hIdMap : w'.idMap = forget w.idMap ((env.cfg.path leaf).zip selections))
    (hPositions : w'.positionMap = w.positionMap.set addr.toNat newLeaf) :
    Coherent env w' (Function.update memory addr (zeroBlock env.cfg)) := by
  have hPlacement := h.placement.forget hAddr hPosition hLeaf hSelect hNewLeaf
  have hUnplaced := h.placement.unplaced_forget hAddr hPosition hLeaf hSelect
  have hTree : w'.server.tree =
      clearTree env w.server.tree ((env.cfg.path leaf).zip selections) := by rw [hServer]
  have hClear := @clearTree_eq _ _ env w.server.tree (nodup_path hLeaf)
    (selectSlots_eq_ok hSelect).1
  constructor
  case shaped =>
    rw [hServer]
    exact h.shaped.withTree fun b _ => length_clearTree _ _ b
  case leaves => exact hLeaves ▸ h.leaves
  case placement =>
    rw [hIdMap, hPositions]
    exact hPlacement
  case holds =>
    intro b hb
    rw [hIdMap, hTree]
    refine Holds.update ?_ (fun id hId => hPlacement.id_lt hb hId) (hUnplaced b hb) _
    obtain ⟨hOff, hSame⟩ | ⟨slot, hSlot, hSet, _⟩ := forget_cases (nodup_path hLeaf) hAddr hSelect b
    · rw [hSame, hClear.1 b hOff]
      exact h.holds b hb
    · rw [hSet, hClear.2 b slot hSlot]
      exact (h.holds b hb).set (matches_clear env memory)
  case sizes =>
    intro other
    rcases eq_or_ne other addr with rfl | hNe
    · rw [Function.update_self, zeroBlock, List.length_replicate]
    · rw [Function.update_of_ne hNe]
      exact h.sizes other
  case absent =>
    intro other hOther
    rcases eq_or_ne other addr with rfl | hNe
    · rw [Function.update_self]
    · rw [Function.update_of_ne hNe]
      refine h.absent other fun b hb hMem => hOther b hb ?_
      rw [hIdMap]
      refine mem_forget (nodup_path hLeaf) hAddr hSelect (Int.natCast_nonneg _)
        (fun hEq => hNe ?_) hMem
      exact UInt64.toNat_inj.mp (Int.ofNat_inj.mp hEq)
  case fits =>
    intro hPlaced
    refine h.fits fun hNone => hPlaced (Multiset.le_zero.mp ?_)
    rw [hIdMap, ← hNone]
    exact forget_le (nodup_path hLeaf) hAddr hSelect

theorem Coherent.place (h : Coherent env w memory) (hUnplaced : Unplaced env.cfg w.idMap addr)
    (hPosition : w.positionMap[addr.toNat]? = some leaf) {slot : Nat}
    (hGet : (w.idMap 0)[slot]? = some (-1))
    {data : Bytes} (hLength : data.length = env.cfg.blockSize.toNat)
    (hSize : env.cfg.blockSize.toNat ≤ env.cfg.tlweN)
    {ciphertext : env.Ciphertext}
    (hData : env.tfhe.Exact → env.tfhe.tLweSymDecrypt ciphertext = message env.cfg.tlweN data)
    (hServer : w'.server = { w.server with
      tree := Function.update w.server.tree 0 ((w.server.tree 0).set slot ciphertext) })
    (hLeaves : w'.numLeaves = w.numLeaves) (hPositions : w'.positionMap = w.positionMap)
    (hIdMap : w'.idMap = Function.update w.idMap 0 ((w.idMap 0).set slot addr.toNat)) :
    Coherent env w' (Function.update memory addr data) := by
  have hPlacement := h.placement.place hUnplaced hPosition hGet
  have hIds := placedIds_place (root_mem_nodes env.cfg) hGet addr
  have hTree : w'.server.tree =
      Function.update w.server.tree 0 ((w.server.tree 0).set slot ciphertext) := by rw [hServer]
  constructor
  case shaped =>
    rw [hServer]
    exact h.shaped.update (List.length_set.trans (h.shaped.rows 0 (root_mem_nodes env.cfg)))
  case leaves => exact hLeaves ▸ h.leaves
  case placement =>
    rw [hIdMap, hPositions]
    exact hPlacement
  case holds =>
    intro b hb
    have hOld : Holds env (Function.update memory addr data) (w.idMap b) (w.server.tree b) :=
      (h.holds b hb).update (fun id hId => h.id_lt hb hId) (hUnplaced b hb) data
    rw [hIdMap, hTree]
    rcases eq_or_ne b 0 with rfl | hNe
    · rw [Function.update_self, Function.update_self]
      refine hOld.set fun hExact => (hData hExact).trans ?_
      rw [content_addr, Function.update_self]
    · rw [Function.update_of_ne hNe, Function.update_of_ne hNe]
      exact hOld
  case sizes =>
    intro other
    rcases eq_or_ne other addr with rfl | hNe
    · rw [Function.update_self, hLength]
    · rw [Function.update_of_ne hNe, h.sizes other]
  case absent =>
    intro other hOther
    rw [unplaced_iff, hIdMap, hIds, Multiset.mem_cons, not_or] at hOther
    have hNe : other ≠ addr := fun hEq => hOther.1 (by rw [hEq])
    rw [Function.update_of_ne hNe]
    exact h.absent other (unplaced_iff.mpr hOther.2)
  case fits => exact fun _ => hSize

end Changes
end OramHub.OnionRing
