import OramHub.OnionRing.Eviction

/-! # Accesses

An access reads and clears one path, then puts the block into the root. The root has a free slot by
then, so an access itself never evicts to make room.
-/
namespace OramHub.OnionRing
open OramHub.Core OramHub.Program OramHub.Updates OramHub.Inventory
set_option autoImplicit false

/-- The sizes that a constructor accepts. -/
structure Feasible (cfg : RuntimeConfig) : Prop where
  height_lt : cfg.height < 63
  blocks_lt : cfg.numBlocks.toNat < 2 ^ 63

def noSlot : Exception := .runtimeError "No available slot for access-only Onion Ring path"

def blockTooLarge : Exception :=
  .invalidArgument "Requested block size exceeds TLWE polynomial dimension"

/-- The leaf that the next draw gives. -/
def drawnLeaf (env : Env) (w : World env.Ciphertext) : UInt64 :=
  UInt64.ofNat (env.entropy.draw w.prng % w.numLeaves.toNat)

def placeInRoot (idMap : Nat → List Int) (addr : UInt64) : Nat → List Int :=
  Function.update idMap 0 ((idMap 0).set (findFirstDummySlot (idMap 0)) addr.toNat)

/-- The messages of an access, as far as they name places. -/
def accessEvents (leaf : UInt64) (selections : List Nat) (rootSlot : Nat)
    (responses : Response × Response × Response) (bytes : Bytes) : List Event :=
  [⟨.access leaf (selections.map UInt64.ofNat), responses.1⟩,
    ⟨.clearPath leaf (selections.map UInt64.ofNat), responses.2.1⟩,
    ⟨.writeSlot 0 (UInt64.ofNat rootSlot) bytes, responses.2.2⟩]

variable {env : Env} {w w' : World env.Ciphertext} {memory : Memory}
  {addr oldLeaf leaf : UInt64} {op : Op}
  {data : Bytes} {selections : List Nat}

/-- What an access has done before the eviction at its end. -/
structure Updated (env : Env) (w w' : World env.Ciphertext) (memory : Memory)
    (addr oldLeaf : UInt64) (selections : List Nat) : Prop where
  coherent : Coherent env w' memory
  sized : env.cfg.blockSize.toNat ≤ env.cfg.tlweN
  numLeaves : w'.numLeaves = w.numLeaves
  positionMap : w'.positionMap = w.positionMap.set addr.toNat (drawnLeaf env w)
  idMap : w'.idMap = placeInRoot (forget w.idMap ((env.cfg.path oldLeaf).zip selections)) addr
  accessCount : w'.accessCount = w.accessCount + 1
  log : ∃ responses bytes, w'.log = w.log ++ accessEvents oldLeaf selections
    (findFirstDummySlot (forget w.idMap ((env.cfg.path oldLeaf).zip selections) 0)) responses bytes

section Selection

variable {idMap : Nat → List Int} {path : List Nat} {positionMap : List UInt64}
  {ids : List Int} {e : Exception}

theorem selectSlot_error (h : selectSlot ids addr = .error e) : e = noSlot := by
  simp only [selectSlot] at h
  split_ifs at h
  all_goals cases h
  all_goals rfl

theorem selectSlots_error (h : selectSlots idMap path addr = .error e) : e = noSlot := by
  rw [selectSlots] at h
  induction path with
  | nil => cases h
  | cons b path ih =>
    rw [List.mapM_cons] at h
    cases hHead : selectSlot (idMap b) addr with
    | error e' =>
      rw [hHead] at h
      cases h
      exact selectSlot_error hHead
    | ok slot =>
      rw [hHead, ok_bind] at h
      cases hTail : path.mapM fun b => selectSlot (idMap b) addr with
      | error e' =>
        rw [hTail] at h
        cases h
        exact ih hTail
      | ok rest =>
        rw [hTail] at h
        cases h

theorem selections_lt {cfg : RuntimeConfig} (h : Placement cfg idMap positionMap)
    (hLeaf : leaf.toNat < 2 ^ cfg.height) (hAddr : addr.toNat < 2 ^ 63)
    (hSelect : selectSlots idMap (cfg.path leaf) addr = .ok selections) :
    ∀ slot ∈ selections, slot < cfg.slots := by
  obtain ⟨hLength, hSlots⟩ := selectSlots_eq_ok hSelect
  intro slot hSlot
  have hKeys : ((cfg.path leaf).zip selections).map Prod.snd = selections :=
    List.map_snd_zip hLength.le
  rw [← hKeys] at hSlot
  obtain ⟨⟨b, slot⟩, hMem, rfl⟩ := List.mem_map.mp hSlot
  have hGet := selectSlot_eq_ok hAddr (hSlots b slot hMem)
  rw [← h.rows b (mem_nodes_of_mem_path hLeaf (List.of_mem_zip hMem).1)]
  exact (List.getElem?_eq_some_iff.mp hGet).1

theorem dummy_mem_root (hLeaf : leaf.toNat < 2 ^ env.cfg.height) (hAddr : addr.toNat < 2 ^ 63)
    (hSelect : selectSlots idMap (env.cfg.path leaf) addr = .ok selections) :
    -1 ∈ forget idMap ((env.cfg.path leaf).zip selections) 0 := by
  obtain ⟨hOff, _⟩ | ⟨slot, _, hSet, hGet⟩ := forget_cases (nodup_path hLeaf) hAddr hSelect 0
  · exact absurd (root_mem_path hLeaf) hOff
  · rw [hSet]
    exact List.mem_of_getElem? (List.getElem?_set_self (List.getElem?_eq_some_iff.mp hGet).1)

end Selection

section WriteBack

theorem getRandomLeaf_spec : Returns (getRandomLeaf env) w fun leaf w' =>
    leaf = drawnLeaf env w ∧ w' = { w with prng := w.prng + 1 } :=
  Returns.get_bind (Returns.set_bind (Returns.pure ⟨rfl, rfl⟩))

theorem drawnLeaf_lt (hLeaves : w.numLeaves.toNat = 2 ^ env.cfg.height) :
    (drawnLeaf env w).toNat < 2 ^ env.cfg.height := by
  have hPos : 0 < w.numLeaves.toNat := hLeaves ▸ Nat.pow_pos (by decide)
  have hLt : env.entropy.draw w.prng % w.numLeaves.toNat < w.numLeaves.toNat := Nat.mod_lt _ hPos
  rw [drawnLeaf, UInt64.toNat_ofNat_of_lt' (hLt.trans (UInt64.toNat_lt _)), ← hLeaves]
  exact hLt

/-- With a free slot in the root, no eviction is needed. -/
theorem chooseRootSlot_spec (hAddr : addr.toNat < 2 ^ 63)
    (hUnplaced : (addr.toNat : Int) ∉ w.idMap 0)
    (hFree : -1 ∈ w.idMap 0) :
    Returns (chooseRootSlot env addr) w fun slot w' => slot = findFirstDummySlot (w.idMap 0) ∧
    w' = w := by
  have hMissing : findSlot (w.idMap 0) (toBlockId addr) = (w.idMap 0).length := by
    rw [toBlockId_of_lt hAddr]
    exact not_not.mp fun hNe => hUnplaced (findSlot_ne_length.mp hNe)
  have hFound : findFirstDummySlot (w.idMap 0) ≠ (w.idMap 0).length := findSlot_ne_length.mpr hFree
  apply Returns.get_bind
  dsimp only
  rw [if_pos hMissing, if_neg hFound]
  exact Returns.pure ⟨rfl, rfl⟩

/-- The block that is written stands for `data` if ciphertexts decrypt exactly. -/
theorem writeBackBlock_spec (hFeasible : Feasible env.cfg) (h : Coherent env w memory)
    (hAddr : addr.toNat < 2 ^ 63) (hUnplaced : Unplaced env.cfg w.idMap addr)
    (hFree : -1 ∈ w.idMap 0) (hPosition : w.positionMap[addr.toNat]? = some leaf)
    (hSize : env.cfg.blockSize.toNat ≤ env.cfg.tlweN)
    {block : Bytes} (hBlock : block.length = env.cfg.blockSize.toNat)
    (hLength : data.length = env.cfg.blockSize.toNat)
    (hSame : env.tfhe.Exact → block = data) :
    Returns (writeBackBlock env addr block) w fun _ w' =>
      Coherent env w' (Function.update memory addr data) ∧ w'.idMap = placeInRoot w.idMap addr ∧
      w'.numLeaves = w.numLeaves ∧ w'.positionMap = w.positionMap ∧ w'.accessCount = w.accessCount ∧
      ∃ response bytes, w'.log =
        w.log ++ [⟨.writeSlot 0 (UInt64.ofNat (findFirstDummySlot (w.idMap 0))) bytes,
          response⟩] := by
  have hRoot := root_mem_nodes env.cfg
  have hNe : findFirstDummySlot (w.idMap 0) ≠ (w.idMap 0).length := findSlot_ne_length.mpr hFree
  have hGet : (w.idMap 0)[findFirstDummySlot (w.idMap 0)]? = some (-1) := getElem?_findSlot hFree
  have hSlot : findFirstDummySlot (w.idMap 0) < env.cfg.slots := by
    rw [← h.placement.rows 0 hRoot]
    exact (List.getElem?_eq_some_iff.mp hGet).1
  apply (chooseRootSlot_spec hAddr (hUnplaced 0 hRoot) hFree).bind
  rintro _ _ ⟨rfl, rfl⟩
  refine Returns.get_bind
    (Returns.check_bind hNe ((encryptBlock_spec (hBlock.trans_le hSize)).bind ?_))
  rintro ciphertext _ ⟨hData, rfl⟩
  apply Returns.bind (writeBackSlot_spec hFeasible.height_lt ?shaped hRoot hSlot ciphertext)
  case shaped => exact h.shaped
  rintro _ _ ⟨bytes, response, rfl⟩
  apply Returns.modify
  rw [toBlockId_of_lt hAddr]
  have hSent : env.tfhe.Exact → env.tfhe.tLweSymDecrypt (env.tfhe.transmit ciphertext) =
      message env.cfg.tlweN data := fun hExact => by
    rw [hExact.transmit_eq, hData hExact, hSame hExact]
  exact ⟨h.place hUnplaced hPosition hGet hLength hSize hSent rfl rfl rfl rfl, rfl, rfl, rfl, rfl,
    response, bytes, rfl⟩

end WriteBack

section Update

theorem result_eq (memory : Memory) (op : Op) (addr : UInt64) (data : Bytes) :
    (if op = .write then data else memory addr) = memory.result op addr data := by
  cases op with
  | read => rfl
  | write => exact (memory.result_write addr data).symm

/-- An access that finds a slot in every bucket of the path. -/
theorem updateBlock_of_selected (hFeasible : Feasible env.cfg) (h : Coherent env w memory)
    (hAddr : addr < env.cfg.numBlocks) (hData : op = .write → data.length = env.cfg.blockSize.toNat)
    (hPosition : w.positionMap[addr.toNat]? = some oldLeaf)
    (hSelect : selectSlots w.idMap (env.cfg.path oldLeaf) addr = .ok selections) :
    wp (updateBlock env op addr data) w
      (fun result w' => (env.tfhe.Exact → result = memory.result op addr data) ∧
        Updated env w w' (memory.store op addr data) addr oldLeaf selections)
      (fun e w' => e = blockTooLarge ∧ env.cfg.tlweN < env.cfg.blockSize.toNat ∧
        Coherent env w' memory) := by
  have hSmall : addr.toNat < 2 ^ 63 := (UInt64.lt_iff_toNat_lt.mp hAddr).trans hFeasible.blocks_lt
  have hLeaf := h.placement.leaves oldLeaf (List.mem_of_getElem? hPosition)
  have hNewLeaf := drawnLeaf_lt h.leaves
  have hHeight := hFeasible.height_lt
  have hLength : selections.length = env.cfg.height + 1 :=
    (selectSlots_eq_ok hSelect).1.trans (length_path _ _)
  have hLt := selections_lt h.placement hLeaf hSmall hSelect
  have hRead : readPosition w.positionMap addr.toNat = .ok oldLeaf := by
    rw [readPosition, hPosition]
  refine wp.get_bind (wp.ok_bind hRead (Returns.outcome_bind getRandomLeaf_spec ?_))
  rintro _ _ ⟨rfl, rfl⟩
  apply wp.modify_bind
  dsimp only
  rw [getPathIndices_eq (by omega) hLeaf]
  apply wp.ok_bind hSelect
  apply Returns.outcome_bind (fetchPathSum_spec hHeight ?shaped hLeaf hLength hLt)
  case shaped => exact h.shaped
  rintro _ _ ⟨rfl, response, rfl⟩
  apply Returns.outcome_bind (clearPathSlots_spec hHeight ?shaped hLeaf hLength hLt)
  case shaped => exact h.shaped
  rintro _ _ ⟨response', rfl⟩
  apply wp.modify_bind
  have hUnplaced := h.placement.unplaced_forget hSmall hPosition hLeaf hSelect
  by_cases hSize : env.cfg.blockSize.toNat ≤ env.cfg.tlweN
  · apply wp.ok_bind (decryptBlock_eq_ok hSize)
    have hLengthResult : (memory.result op addr data).length = env.cfg.blockSize.toNat := by
      cases op with
      | read => exact h.sizes addr
      | write => exact (congrArg List.length (memory.result_write addr data)).trans (hData rfl)
    generalize hBlock : decodeBlock (env.tfhe.tLweSymDecrypt _) env.cfg.blockSize.toNat = block
    have hResult : env.tfhe.Exact →
        (if op = .write then data else block) = memory.result op addr data := by
      intro hExact
      rw [← result_eq, ← hBlock, hExact.transmit_eq,
        h.decrypt_pathSum hExact hSmall hPosition hLeaf hSelect,
        decodeBlock_message (h.sizes addr) hSize]
    have hLengthBlock : (if op = .write then data else block).length = env.cfg.blockSize.toNat := by
      split
      · rename_i hWrite
        exact hData hWrite
      · rw [← hBlock, length_decodeBlock]
    dsimp only
    refine Returns.outcome_bind
      (@writeBackBlock_spec env _ (Function.update memory addr (zeroBlock env.cfg)) addr
        (drawnLeaf env w) _ hFeasible ?cleared hSmall ?unplaced ?free ?position hSize _ hLengthBlock
        hLengthResult hResult) ?_
    case cleared => exact h.clear hSmall hPosition hLeaf hSelect hNewLeaf rfl rfl rfl rfl
    case unplaced => exact hUnplaced
    case free => exact dummy_mem_root hLeaf hSmall hSelect
    case position => exact List.getElem?_set_self (List.getElem?_eq_some_iff.mp hPosition).1
    rintro _ w' ⟨hCoherent, hIdMap, hLeaves, hPositions, hCount, last, bytes, hLog⟩
    refine wp.modify_bind (wp.pure ⟨hResult, ?_⟩)
    rw [Function.update_idem, ← Memory.store_eq_update] at hCoherent
    refine ⟨hCoherent.of_eq rfl rfl rfl rfl, hSize, hLeaves, hPositions, hIdMap,
      congrArg (· + 1) hCount, (response, response', last), bytes, ?_⟩
    exact hLog.trans
      (by simp only [World.served, accessEvents, List.append_assoc,
        List.cons_append, List.nil_append])
  · -- No block has ever been stored, so nothing is lost.
    have hNone : memory addr = zeroBlock env.cfg := by
      refine h.absent addr (unplaced_iff.mpr ?_)
      rw [not_not.mp (mt h.fits hSize)]
      exact Multiset.notMem_zero _
    have hCleared : Function.update memory addr (zeroBlock env.cfg) = memory := by
      rw [← hNone, Function.update_eq_self]
    refine wp.fromExcept_bind (fun e hError => ?_) fun block hBlock => ?_
    · rw [decryptBlock, if_pos (Nat.not_le.mp hSize)] at hError
      cases hError
      refine ⟨rfl, Nat.not_le.mp hSize, ?_⟩
      rw [← hCleared]
      exact h.clear hSmall hPosition hLeaf hSelect hNewLeaf rfl rfl rfl rfl
    · rw [decryptBlock, if_pos (Nat.not_le.mp hSize)] at hBlock
      cases hBlock

/-- An access that finds no slot in some bucket has remapped the block by then. -/
theorem updateBlock_of_unselected (hFeasible : Feasible env.cfg) (h : Coherent env w memory)
    (hPosition : w.positionMap[addr.toNat]? = some oldLeaf) {e : Exception}
    (hSelect : selectSlots w.idMap (env.cfg.path oldLeaf) addr = .error e) :
    wp (updateBlock env op addr data) w (fun _ _ => False) (fun e' w' => e' = noSlot ∧ w' = { w with
      prng := w.prng + 1
      positionMap := w.positionMap.set addr.toNat (drawnLeaf env w) }) := by
  have hLeaf := h.placement.leaves oldLeaf (List.mem_of_getElem? hPosition)
  have hRead : readPosition w.positionMap addr.toNat = .ok oldLeaf := by
    rw [readPosition, hPosition]
  refine wp.get_bind (wp.ok_bind hRead (Returns.outcome_bind getRandomLeaf_spec ?_))
  rintro _ _ ⟨rfl, rfl⟩
  apply wp.modify_bind
  dsimp only
  rw [getPathIndices_eq (hFeasible.height_lt.trans (by decide)) hLeaf]
  refine wp.fromExcept_bind (fun e' hError => ?_) fun selections hOk => ?_
  · rw [hSelect] at hError
    cases hError
    exact ⟨selectSlots_error hSelect, rfl⟩
  · rw [hSelect] at hOk
    cases hOk

end Update

section Outcomes

/-- Arguments that an access takes. -/
def ValidCall (cfg : RuntimeConfig) (call : Call) : Prop :=
  call.addr < cfg.numBlocks ∧ (call.op = .write → call.data.length = cfg.blockSize.toNat)

/-- Whether the eviction at the end of an access is due. -/
def EvictionDue (cfg : RuntimeConfig) (accessCount : UInt64) : Prop :=
  cfg.a ≠ 0 ∧ accessCount % cfg.a = 0

/-- What an access that returns has done. -/
structure Accessed (env : Env) (w : World env.Ciphertext) (memory : Memory)
    (call : Call) (result : Bytes) (w' : World env.Ciphertext) : Prop where
  valid : ValidCall env.cfg call
  result_eq : env.tfhe.Exact → result = memory.result call.op call.addr call.data
  coherent : Coherent env w' (memory.store call.op call.addr call.data)
  updated : ∃ oldLeaf selections, w.positionMap[call.addr.toNat]? = some oldLeaf ∧
    selectSlots w.idMap (env.cfg.path oldLeaf) call.addr = .ok selections ∧
    (¬ EvictionDue env.cfg (w.accessCount + 1) →
      Updated env w w' (memory.store call.op call.addr call.data) call.addr oldLeaf selections)

/-- How an access throws, and what it leaves behind. -/
inductive Failed (env : Env) (w : World env.Ciphertext) (memory : Memory) (call : Call) :
    Exception → World env.Ciphertext → Prop
  | refused {e : Exception} : ¬ ValidCall env.cfg call → e ≠ noSlot → e ≠ evictionOverflow →
    Failed env w memory call e w
  | unselected {oldLeaf : UInt64} :
    ValidCall env.cfg call → w.positionMap[call.addr.toNat]? = some oldLeaf →
      (∀ selections, selectSlots w.idMap (env.cfg.path oldLeaf) call.addr ≠ .ok selections) →
      Failed env w memory call noSlot { w with
        prng := w.prng + 1
        positionMap := w.positionMap.set call.addr.toNat (drawnLeaf env w) }
  | tooLarge {w' : World env.Ciphertext} :
    env.cfg.tlweN < env.cfg.blockSize.toNat → Coherent env w' memory →
      Failed env w memory call blockTooLarge w'
  | overflow {w' : World env.Ciphertext} :
    ValidCall env.cfg call → env.cfg.slots < env.cfg.numBlocks.toNat →
      Coherent env w' (memory.store call.op call.addr call.data) →
      Failed env w memory call evictionOverflow w'

/-- Every way an access can end. -/
theorem access_spec (hFeasible : Feasible env.cfg) (h : Coherent env w memory) (call : Call) :
    wp (access env call.op call.addr call.data) w (Accessed env w memory call)
      (Failed env w memory call) := by
  refine wp.check_bind (fun hRange => Failed.refused (fun hValid => ?_) (by decide) (by decide))
    fun hRange => ?_
  · exact absurd (UInt64.lt_iff_toNat_lt.mp hValid.1)
      (Nat.not_lt.mpr (UInt64.le_iff_toNat_le.mp hRange))
  refine wp.check_bind
    (fun hSize => Failed.refused (fun hValid => hSize.2 (hValid.2 hSize.1)) (by decide) (by decide))
    fun hSize => ?_
  have hAddr : call.addr < env.cfg.numBlocks :=
    UInt64.lt_iff_toNat_lt.mpr (Nat.not_le.mp fun hLe => hRange (UInt64.le_iff_toNat_le.mpr hLe))
  have hValid : ValidCall env.cfg call :=
    ⟨hAddr, fun hWrite => not_not.mp fun hNe => hSize ⟨hWrite, hNe⟩⟩
  obtain ⟨oldLeaf, hPosition, _⟩ := h.placement.mapped hAddr
  cases hSelect : selectSlots w.idMap (env.cfg.path oldLeaf) call.addr with
  | error e =>
    refine wp.bind (wp_mono (updateBlock_of_unselected hFeasible h hPosition hSelect)
      (fun _ _ => False.elim) ?_)
      fun _ _ => False.elim
    rintro _ _ ⟨rfl, rfl⟩
    exact Failed.unselected hValid hPosition fun selections hOk => by rw [hSelect] at hOk; cases hOk
  | ok selections =>
    refine wp.bind (wp_mono (updateBlock_of_selected hFeasible h hAddr hValid.2 hPosition hSelect)
      (fun _ _ => id) ?_) ?_
    · rintro _ _ ⟨rfl, hLarge, hCoherent⟩
      exact Failed.tooLarge hLarge hCoherent
    rintro result w' ⟨hResult, hUpdated⟩
    apply wp.get_bind
    by_cases hDue : EvictionDue env.cfg (w.accessCount + 1)
    · rw [if_pos (by rw [hUpdated.accessCount]; exact hDue)]
      refine wp.bind (wp_mono (evict_spec hFeasible.height_lt hUpdated.sized hUpdated.coherent)
        (fun _ _ => id) ?_) ?_
      · rintro _ _ ⟨rfl, hSlots, hCoherent⟩
        exact Failed.overflow hValid hSlots hCoherent
      · intro _ w'' hCoherent
        exact wp.pure ⟨hValid, hResult, hCoherent, oldLeaf, selections, hPosition, hSelect,
          fun hNot => absurd hDue hNot⟩
    · rw [if_neg (by rw [hUpdated.accessCount]; exact hDue)]
      exact wp.pure ⟨hValid, hResult, hUpdated.coherent, oldLeaf, selections, hPosition,
        hSelect, fun _ => hUpdated⟩

end Outcomes
end OramHub.OnionRing
