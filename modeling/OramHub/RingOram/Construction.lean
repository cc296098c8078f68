import OramHub.RingOram.Access

/-! # Construction

The constructors fill the tree from a stash with one zero block for every address. They return
exactly under the configurations `Accepted` describes.
-/
namespace OramHub.RingOram
open OramHub.Core OramHub.Program OramHub.LittleEndian OramHub.Network OramHub.Packing
set_option autoImplicit false

/-- A client and a server before their constructors run. Files of earlier runs may be left over. -/
def World.start (stashFile : Option Bytes) (bucketFiles : Nat → Option Bytes) : World where
  stash := { file := stashFile }
  server := { files := bucketFiles }

variable {env : Env} {w : World}

section InitialBlocks

def initialBlocks (cfg : RuntimeConfig) (positionMap : UInt64 → Option UInt64)
    (count : Nat) : List RingBlock :=
  (List.range count).map fun i =>
    ⟨UInt64.ofNat i, (positionMap (UInt64.ofNat i)).getD 0, List.replicate cfg.blockSize.toNat 0⟩

theorem coe_initialBlocks (cfg : RuntimeConfig) (positionMap : UInt64 → Option UInt64) :
    (initialBlocks cfg positionMap cfg.numBlocks.toNat : Multiset RingBlock) =
      blocksOf cfg positionMap (Memory.zero cfg.blockSize.toNat) := rfl

def Mapped (cfg : RuntimeConfig) (positionMap : UInt64 → Option UInt64) (count : Nat) : Prop :=
  ∀ i < count, ∃ leaf, positionMap (UInt64.ofNat i) = some leaf ∧ leaf.toNat < 2 ^ cfg.depth

theorem pushStash_spec (block : RingBlock) (state : StashState) :
    ReturnsIf (state.stash.length < vectorMaxSize / ringBlockSize) (pushStash block) state
      fun _ state' =>
      state.stash.length < vectorMaxSize / ringBlockSize ∧
      state' = { state with stash := state.stash ++ [block] } :=
  ReturnsIf.get_bind (ReturnsIf.check_bind Nat.not_lt.mpr fun hRoom =>
    Returns.returnsIf (Returns.set ⟨Nat.not_le.mp hRoom, rfl⟩))

theorem addInitialBlocks_spec (hDepth : env.cfg.depth < 63) (count : Nat) (hCount : count < 2 ^ 64)
    (hStash : w.stash.stash = []) :
    ReturnsIf (count ≤ vectorMaxSize / ringBlockSize)
      (forM (List.range count) (addInitialBlock env)) w fun _ w' =>
      count ≤ vectorMaxSize / ringBlockSize ∧ ∃ positionMap prng,
        w' = { w with
          stash := { w.stash with stash := initialBlocks env.cfg positionMap count }
          positionMap := positionMap
          prng := prng } ∧ Mapped env.cfg positionMap count := by
  induction count with
  | zero =>
    refine ReturnsIf.pure ⟨Nat.zero_le _, w.positionMap, w.prng, ?_, fun i hi =>
      absurd hi (Nat.not_lt_zero i)⟩
    rw [initialBlocks, List.range_zero, List.map_nil, ← hStash]
  | succ count ih =>
    rw [List.range_succ, List.forM_append]
    apply ((ih (by omega)).weaken Nat.le_of_succ_le).bind
    rintro _ _ ⟨_, positionMap, prng, rfl, hMapped⟩
    change ReturnsIf _ (addInitialBlock env count >>= pure) _ _
    rw [bind_pure]
    apply ReturnsIf.zoom_bind (Returns.returnsIf (getRandomLeaf_spec hDepth _))
    intro leaf prng' hLeaf
    apply ReturnsIf.modify_bind
    have hLength : (initialBlocks env.cfg positionMap count).length = count := by
      rw [initialBlocks, List.length_map, List.length_range]
    have hPush := pushStash_spec ⟨UInt64.ofNat count, leaf,
      List.replicate env.cfg.blockSize.toNat 0⟩
      { w.stash with stash := initialBlocks env.cfg positionMap count }
    simp only [hLength] at hPush
    refine (wp_zoom _ _ _).mpr (hPush.mono ?_)
    rintro _ _ ⟨hRoom, rfl⟩
    have hNe : ∀ i < count, UInt64.ofNat i ≠ UInt64.ofNat count := by
      intro i hi hEq
      have hNat := congrArg UInt64.toNat hEq
      rw [UInt64.toNat_ofNat_of_lt' (by rw [UInt64.size]; omega),
        UInt64.toNat_ofNat_of_lt' (by rw [UInt64.size]; omega)] at hNat
      omega
    refine ⟨hRoom, Function.update positionMap (UInt64.ofNat count) (some leaf), prng', ?_, ?_⟩
    · have hBlocks : initialBlocks env.cfg
          (Function.update positionMap (UInt64.ofNat count) (some leaf))
          (count + 1) = initialBlocks env.cfg positionMap count ++
            [⟨UInt64.ofNat count, leaf, List.replicate env.cfg.blockSize.toNat 0⟩] := by
        rw [initialBlocks, List.range_succ, List.map_append, List.map_singleton,
          Function.update_self, Option.getD_some]
        congr 1
        apply List.map_congr_left
        intro i hi
        rw [Function.update_of_ne (hNe i (List.mem_range.mp hi))]
      rw [hBlocks]
    · intro i hi
      rcases eq_or_ne i count with rfl | hNeCount
      · exact ⟨leaf, Function.update_self _ _ _, hLeaf⟩
      · have hLt : i < count := by omega
        rw [Function.update_of_ne (hNe i hLt)]
        exact hMapped i hLt

theorem stashOk_initialBlocks {cfg : RuntimeConfig} {positionMap : UInt64 → Option UInt64}
    (hMapped : Mapped cfg positionMap cfg.numBlocks.toNat) :
    StashOk cfg (initialBlocks cfg positionMap cfg.numBlocks.toNat) := by
  refine ⟨?_, fun block hBlock => ?_⟩
  · rw [← Multiset.coe_nodup, ← Multiset.map_coe, coe_initialBlocks]
    exact nodup_addr_blocksOf _ _ _
  · have hMem : block ∈ blocksOf cfg positionMap (Memory.zero cfg.blockSize.toNat) := by
      rw [← coe_initialBlocks]
      exact Multiset.mem_coe.mpr hBlock
    obtain ⟨hEq, hAddr⟩ := mem_blocksOf hMem
    obtain ⟨leaf, hLeaf, hBound⟩ := hMapped block.addr.toNat (UInt64.lt_iff_toNat_lt.mp hAddr)
    rw [UInt64.ofNat_toNat] at hLeaf
    rw [hEq, hLeaf]
    exact ⟨hAddr, hBound, List.length_replicate⟩

end InitialBlocks

section InitialTree

theorem RingBucket.wellFormed_empty {cfg : RuntimeConfig} (hSlots : cfg.slots < 2 ^ 64) :
    (RingBucket.empty cfg.z cfg.s cfg.blockSize).WellFormed cfg := by
  have hCount : (cfg.z + cfg.s).toNat = cfg.slots := RingBucket.slotCount_empty hSlots
  refine ⟨?_, List.length_replicate, List.length_replicate, List.length_range, ?_,
    List.nodup_range, ?_, ?_, ?_, ?_⟩
  · rw [RingBucket.empty, List.length_replicate, hCount]
  · rw [RingBucket.empty, List.length_replicate, hCount]
  · intro offset hOffset
    have hLt := List.mem_range.mp hOffset
    rw [RuntimeConfig.slots]
    omega
  · intro block hBlock
    rw [(List.mem_replicate.mp hBlock).2]
    exact List.length_replicate
  · intro offset hOffset
    have hLt := RingBucket.lt_of_valid (RingBucket.mem_validDummyOffsets.mp hOffset).1
    have hValids : (RingBucket.empty cfg.z cfg.s cfg.blockSize).valids.length =
        (cfg.z + cfg.s).toNat :=
      List.length_replicate
    have hData : offset < (RingBucket.empty cfg.z cfg.s cfg.blockSize).data.length :=
      (hLt.trans_eq hValids).trans_eq
        (@List.length_replicate _ _ (RingBlock.dummy cfg.blockSize.toNat)).symm
    rw [RingBucket.payload, List.getD_eq_getElem _ _ hData]
    exact congrArg RingBlock.data (List.getElem_replicate _)
  · change 0 = (List.replicate _ true).count false
    rw [List.count_replicate]
    rfl

theorem RingBucket.liveBlocks_empty (z s blockSize : UInt64) :
    (RingBucket.empty z s blockSize).liveBlocks = [] := by
  rw [RingBucket.liveBlocks, List.map_eq_nil_iff, List.eq_nil_iff_forall_not_mem]
  intro i hi
  obtain ⟨hLt, hReal⟩ := RingBucket.mem_liveIndices.mp hi
  apply (RingBucket.validReal_iff.mp hReal).1
  rw [List.getD_eq_getElem _ _ hLt]
  exact List.getElem_replicate _

/-- The plain state that a tree in the client's hands stands for. -/
def treePlain (positionMap : UInt64 → Option UInt64) (stash : List RingBlock)
    (tree : List RingBucket) : Plain where
  stash := stash
  bucket b := tree.getD b {}
  positionMap := positionMap
  round := 0
  evictionCounter := 0
  fabricated := 0
  trace := []

theorem getD_set (tree : List RingBucket) {idx : Nat} (hIdx : idx < tree.length)
    (bucket : RingBucket) :
    (fun b => (tree.set idx bucket).getD b {}) =
      Function.update (fun b => tree.getD b {}) idx bucket := by
  funext b
  rw [List.getD_eq_getElem?_getD, List.getElem?_set]
  rcases eq_or_ne idx b with rfl | hNe
  · rw [if_pos rfl, if_pos hIdx, Function.update_self]
    rfl
  · rw [if_neg hNe, Function.update_of_ne hNe.symm, List.getD_eq_getElem?_getD]

/-- A tree under construction, when the buckets `rest` are still to be filled. -/
structure Building (cfg : RuntimeConfig) (positionMap : UInt64 → Option UInt64)
    (blocks : Multiset RingBlock)
    (tree : List RingBucket) (stash : List RingBlock) (rest : List Nat) : Prop where
  length : tree.length = HeapTree.nodeCount cfg.depth
  pending : rest.Nodup ∧ ∀ i ∈ rest, i ∈ cfg.nodes ∧
    tree.getD i {} = RingBucket.empty cfg.z cfg.s cfg.blockSize
  valid : (treePlain positionMap stash tree).Valid cfg
  counts : ∀ b, (tree.getD b {}).count = 0
  inventory : (treePlain positionMap stash tree).inventory cfg.nodes = blocks

theorem Building.fill {cfg : RuntimeConfig} {positionMap : UInt64 → Option UInt64}
    {blocks : Multiset RingBlock}
    {tree : List RingBucket} {stash selected kept : List RingBlock} {idx : Nat} {rest : List Nat}
    {bucket : RingBucket} (h : Building cfg positionMap blocks tree stash (idx :: rest))
    (hPerm : (selected ++ kept).Perm stash) (hPath : ∀ block ∈ selected, idx ∈ cfg.path block.leaf)
    (hFresh : bucket.Fresh cfg selected) :
    Building cfg positionMap blocks (tree.set idx bucket) kept rest := by
  obtain ⟨hNodup, hPending⟩ := h.pending
  obtain ⟨hIdx, hEmpty⟩ := hPending idx List.mem_cons_self
  rw [List.nodup_cons] at hNodup
  have hLt : idx < tree.length := h.length ▸ mem_nodes.mp hIdx
  have hPlain : treePlain positionMap kept (tree.set idx bucket) =
      { treePlain positionMap stash tree with
        stash := kept
        bucket := Function.update (treePlain positionMap stash tree).bucket idx bucket } :=
    congrArg (fun buckets => Plain.mk kept buckets positionMap 0 0 0 []) (getD_set tree hLt bucket)
  have hRefills : (treePlain positionMap stash tree).Refills cfg idx
      (treePlain positionMap kept (tree.set idx bucket)) := by
    rw [hPlain]
    exact .intro hPerm hPath hFresh
  have hContents : (treePlain positionMap stash tree).contents idx = 0 := by
    change ((tree.getD idx {}).liveBlocks : Multiset RingBlock) = 0
    rw [hEmpty, RingBucket.liveBlocks_empty]
    rfl
  refine ⟨(List.length_set).trans h.length, ⟨hNodup.2, fun i hi => ?_⟩,
    hRefills.valid h.valid, fun b => ?_, ?_⟩
  · have hNe : i ≠ idx := fun hEq => hNodup.1 (hEq ▸ hi)
    have hOld := hPending i (List.mem_cons_of_mem _ hi)
    refine ⟨hOld.1, (congrFun (getD_set tree hLt bucket) i).trans ?_⟩
    rw [Function.update_of_ne hNe]
    exact hOld.2
  · rw [congrFun (getD_set tree hLt bucket) b]
    rcases eq_or_ne b idx with rfl | hNe
    · rw [Function.update_self, Plain.count_of_fresh hFresh]
    · rw [Function.update_of_ne hNe]
      exact h.counts b
  · have hFill := hRefills.inventory_eq (Finset.notMem_erase idx cfg.nodes)
    rw [Finset.insert_erase hIdx] at hFill
    rw [hFill, ← h.inventory, Plain.inventory, Plain.inventory,
      Inventory.inventory_erase hIdx, hContents, Multiset.zero_add]

theorem building_empty {cfg : RuntimeConfig} (hShaped : cfg.Shaped)
    {positionMap : UInt64 → Option UInt64} {stash : List RingBlock} (hStash : StashOk cfg stash) :
    Building cfg positionMap (stash : Multiset RingBlock)
      (List.replicate cfg.numTreeNodes.toNat (RingBucket.empty cfg.z cfg.s cfg.blockSize)) stash
      (List.range cfg.numTreeNodes.toNat).reverse := by
  have hCount := RuntimeConfig.toNat_numTreeNodes hShaped.depth
  have hGet : ∀ b ∈ cfg.nodes, (List.replicate cfg.numTreeNodes.toNat
      (RingBucket.empty cfg.z cfg.s cfg.blockSize)).getD b {} =
        RingBucket.empty cfg.z cfg.s cfg.blockSize := by
    intro b hb
    rw [List.getD_eq_getElem _ _ (by rw [List.length_replicate, hCount]; exact mem_nodes.mp hb),
      List.getElem_replicate]
  have hContents :
      ∀ b ∈ cfg.nodes, (treePlain positionMap stash (List.replicate cfg.numTreeNodes.toNat
        (RingBucket.empty cfg.z cfg.s cfg.blockSize))).contents b = 0 := by
    intro b hb
    change (RingBucket.liveBlocks ((List.replicate _ _).getD b {}) : Multiset RingBlock) = 0
    rw [hGet b hb, RingBucket.liveBlocks_empty]
    rfl
  refine ⟨by rw [List.length_replicate, hCount],
    ⟨List.nodup_reverse.mpr List.nodup_range, fun i hi => ?_⟩,
    ⟨hStash, fun b hb => ?_, fun b hb => ?_, fun b hb block hBlock => ?_,
      fun b hb block hBlock => ?_⟩,
    fun b => ?_, ?_⟩
  · have hNode : i ∈ cfg.nodes := by
      rw [mem_nodes, ← hCount]
      exact List.mem_range.mp (List.mem_reverse.mp hi)
    exact ⟨hNode, hGet i hNode⟩
  · change RingBucket.WellFormed cfg ((List.replicate _ _).getD b {})
    rw [hGet b hb]
    exact RingBucket.wellFormed_empty hShaped.slots
  · change (RingBucket.count ((List.replicate _ _).getD b {})).toNat ≤ _
    rw [hGet b hb]
    exact Nat.zero_le _
  · rw [hContents b hb] at hBlock
    exact absurd hBlock (Multiset.notMem_zero _)
  · rw [hContents b hb] at hBlock
    exact absurd hBlock (Multiset.notMem_zero _)
  · by_cases hb : b ∈ cfg.nodes
    · rw [hGet b hb]
      rfl
    · rw [List.getD_eq_default _ _ (by
        rw [List.length_replicate, hCount]
        exact Nat.not_lt.mp fun hLt => hb (mem_nodes.mpr hLt))]
  · rw [Plain.inventory, Inventory.inventory, Finset.sum_eq_zero hContents, add_zero]
    rfl

/-- The contents of a tree in the client's hands, by index. -/
def treeContents (tree : List RingBucket) (b : Nat) : Multiset RingBlock :=
  (tree.getD b {}).liveBlocks

theorem treeContents_set {tree : List RingBucket} {idx : Nat} (hIdx : idx < tree.length)
    (bucket : RingBucket) :
    treeContents (tree.set idx bucket) = Function.update (treeContents tree) idx
    (bucket.liveBlocks : Multiset RingBlock) := by
  funext b
  rw [treeContents, congrFun (getD_set tree hIdx bucket) b]
  rcases eq_or_ne b idx with rfl | hNe
  · rw [Function.update_self, Function.update_self]
  · rw [Function.update_of_ne hNe, Function.update_of_ne hNe]
    rfl

/-- The tree is filled from the highest index down, each bucket with as much as it can take. -/
theorem buildInitialPlainTree_fill (hShaped : env.cfg.Shaped) (positionMap : UInt64 → Option UInt64)
    {stash : List RingBlock} (hStash : StashOk env.cfg stash) (hSynced : Synced w.stash stash) :
    Returns (buildInitialPlainTree env) w fun tree w' =>
      ∃ (kept : List RingBlock) (state : StashState) (prng : Nat),
      Building env.cfg positionMap (stash : Multiset RingBlock) tree kept [] ∧
      Filled (MayReside env.cfg) env.cfg.z.toNat (treeContents tree) kept
        (List.range env.cfg.numTreeNodes.toNat).reverse
        stash ∧ Synced state kept ∧ w' = { w with stash := state, prng := prng } := by
  have hLoop := @Returns.foldlM Exception World Nat (List RingBucket) w
    (List.range env.cfg.numTreeNodes.toNat).reverse (fillInitialBucket env)
    (List.replicate env.cfg.numTreeNodes.toNat
      (RingBucket.empty env.cfg.z env.cfg.s env.cfg.blockSize))
    (fun tree rest w' =>
      ∃ (kept : List RingBlock) (state : StashState) (prng : Nat) (done : List Nat),
      Building env.cfg positionMap (stash : Multiset RingBlock) tree kept rest ∧
      done ++ rest = (List.range env.cfg.numTreeNodes.toNat).reverse ∧
      Filled (MayReside env.cfg) env.cfg.z.toNat (treeContents tree) kept done stash ∧
      Synced state kept ∧
      w' = { w with stash := state, prng := prng })
    ⟨stash, w.stash, w.prng, [], building_empty hShaped hStash, rfl, .nil, hSynced, rfl⟩ (by
      rintro tree idx rest _ ⟨kept, state, prng, done, hBuilding, hOrder, hFilled, hState, rfl⟩
      obtain ⟨hIdx, hEmpty⟩ := hBuilding.pending.2 idx List.mem_cons_self
      have hLt : idx < tree.length := hBuilding.length ▸ mem_nodes.mp hIdx
      have hIndex : (UInt64.ofNat idx).toNat = idx := by
        have hBound := mem_nodes.mp hIdx
        rw [← RuntimeConfig.toNat_numTreeNodes hShaped.depth] at hBound
        exact UInt64.toNat_ofNat_of_lt' (hBound.trans (UInt64.toNat_lt _))
      have hFresh : idx ∉ done := by
        have hNodup : (done ++ idx :: rest).Nodup :=
        hOrder ▸ List.nodup_reverse.mpr List.nodup_range
        exact fun hMem => (List.nodup_append.mp hNodup).2.2 idx hMem idx List.mem_cons_self rfl
      rw [fillInitialBucket, hEmpty]
      apply (fillBucketFromStash_fill hShaped (by rwa [hIndex]) hState hBuilding.valid.stash).bind
      rintro bucket _ ⟨selected, kept', state', prng', hFill, hBucket, hSaved, rfl⟩
      rw [hIndex] at hFill
      have hContents := treeContents_set hLt bucket
      refine Returns.pure ⟨kept', state', prng', done ++ [idx], hBuilding.fill (Fill.perm hFill)
        (fun block hBlock => (hFill.allowed block hBlock).2) hBucket, ?_, ?_, hSaved, rfl⟩
      · rw [List.append_assoc, List.singleton_append]
        exact hOrder
      · have hOld : Filled (MayReside env.cfg) env.cfg.z.toNat (treeContents (tree.set idx bucket))
          kept done stash := by
          apply hFilled.congr
          intro b hb
          rw [hContents, Function.update_of_ne (fun hEq : b = idx => hFresh (hEq ▸ hb))]
        refine hOld.snoc ?_
        rw [hContents, Function.update_self, hBucket.live]
        exact hFill)
  apply hLoop.mono
  rintro tree w' ⟨kept, state, prng, done, hBuilding, hOrder, hFilled, hRest⟩
  rw [List.append_nil] at hOrder
  exact ⟨kept, state, prng, hBuilding, hOrder ▸ hFilled, hRest⟩

theorem buildInitialPlainTree_spec (hShaped : env.cfg.Shaped) {positionMap : UInt64 → Option UInt64}
    {stash : List RingBlock} (hStash : StashOk env.cfg stash) (hSynced : Synced w.stash stash) :
    Returns (buildInitialPlainTree env) w fun tree w' => ∃ kept state prng,
      Building env.cfg positionMap (stash : Multiset RingBlock) tree kept [] ∧ Synced state kept ∧
      w' = { w with stash := state, prng := prng } := by
  apply (buildInitialPlainTree_fill hShaped positionMap hStash hSynced).mono
  rintro tree w' ⟨kept, state, prng, hBuilding, _, hRest⟩
  exact ⟨kept, state, prng, hBuilding, hRest⟩

end InitialTree

section Sealing

theorem sealBucket_spec (hAccepted : env.cfg.Accepted) {plain : RingBucket}
    (hWell : plain.WellFormed env.cfg) :
    Returns (sealBucket env plain) w fun bytes w' => ∃ encrypted ivs,
    bytes = bucketBytes encrypted ∧
      Seals env encrypted plain ∧ w' = { w with ivs := ivs } := by
  apply withIvs_bind (encryptBucket_spec (hWell.sealable hAccepted.slotsFit) hWell.payload _)
  intro encrypted ivs hSeals
  exact Returns.fromExcept (serialize_sealed hAccepted hSeals hWell) ⟨encrypted,
    ivs, rfl, hSeals, rfl⟩

theorem sealTree_spec (hAccepted : env.cfg.Accepted) {tree : List RingBucket}
    (hWell : ∀ plain ∈ tree, plain.WellFormed env.cfg) :
    Returns (tree.mapM (sealBucket env)) w fun payloads w' => ∃ sealed ivs,
      payloads = sealed.map bucketBytes ∧ List.Forall₂ (Seals env) sealed tree ∧
      w' = { w with ivs := ivs } := by
  refine (@Returns.mapM _ _ _ _ w tree (sealBucket env) (fun w' => ∃ ivs,
    w' = { w with ivs := ivs })
    (fun bytes plain => ∃ encrypted, bytes = bucketBytes encrypted ∧ Seals env encrypted plain)
    ⟨w.ivs, rfl⟩ ?_).mono ?_
  · rintro plain hPlain _ ⟨ivs, rfl⟩
    apply (sealBucket_spec hAccepted (hWell plain hPlain)).mono
    rintro _ _ ⟨encrypted, ivs', rfl, hSeals, rfl⟩
    exact ⟨⟨encrypted, rfl, hSeals⟩, ivs', rfl⟩
  · rintro payloads _ ⟨hPayloads, ivs, rfl⟩
    have hSealed : ∃ sealed, payloads = sealed.map bucketBytes ∧
        List.Forall₂ (Seals env) sealed tree := by
      clear hWell
      induction hPayloads with
      | nil => exact ⟨[], rfl, .nil⟩
      | cons hHead _ ih =>
        obtain ⟨encrypted, rfl, hSeals⟩ := hHead
        obtain ⟨sealed, rfl, hTail⟩ := ih
        exact ⟨encrypted :: sealed, rfl, .cons hSeals hTail⟩
    obtain ⟨sealed, hEq, hAll⟩ := hSealed
    exact ⟨sealed, ivs, hEq, hAll, rfl⟩

theorem initSketch_eq {sealed : List EncryptedRingBucket} {tree : List RingBucket}
    (hSeals : List.Forall₂ (Seals env) sealed tree)
    (hWell : ∀ plain ∈ tree, plain.WellFormed env.cfg)
    (hCounts : ∀ plain ∈ tree, plain.count = 0) (files : Nat → Option Bytes) :
    Event.sketch ⟨.init env.cfg.numTreeNodes (sealed.map bucketBytes), .ack, files⟩ =
      .init env.cfg tree.length env.cfg.bucketSize := by
  have hEach : ∀ bytes ∈ sealed.map bucketBytes,
      bytes.length = env.cfg.bucketSize ∧ countField bytes = encodeWord 0 := by
    intro bytes hBytes
    obtain ⟨encrypted, hMem, rfl⟩ := List.mem_map.mp hBytes
    obtain ⟨i, hi, rfl⟩ := List.getElem_of_mem hMem
    have hSealed := hSeals.get hi (hSeals.length_eq ▸ hi)
    have hPlain : tree.get ⟨i, hSeals.length_eq ▸ hi⟩ ∈ tree := List.get_mem _ _
    exact ⟨hSealed.length_bucket (hWell _ hPlain),
      by rw [← hCounts _ hPlain]; exact countField_bucket hSealed⟩
  have hCount : (sealed.map bucketBytes).map countField =
      List.replicate tree.length (encodeWord 0) := by
    rw [List.eq_replicate_iff, List.length_map, List.length_map, hSeals.length_eq]
    refine ⟨rfl, fun field hField => ?_⟩
    obtain ⟨bytes, hBytes, rfl⟩ := List.mem_map.mp hField
    exact (hEach bytes hBytes).2
  have hLengths : (sealed.map bucketBytes).map List.length =
      List.replicate tree.length env.cfg.bucketSize := by
    rw [List.eq_replicate_iff, List.length_map, List.length_map, hSeals.length_eq]
    refine ⟨rfl, fun size hSize => ?_⟩
    obtain ⟨bytes, hBytes, rfl⟩ := List.mem_map.mp hSize
    exact (hEach bytes hBytes).1
  have hSend := length_flatMap_sendVec fun bytes hBytes => (hEach bytes hBytes).1
  rw [List.length_map, hSeals.length_eq] at hSend
  simp only [Event.sketch, Sketch.init, Sketch.word, Request.encode,
    Request.fields, Request.buckets,
    Response.encode, Response.fields, Response.buckets, Response.masked,
    List.append_nil, List.length_cons,
    List.length_append, hSend, hCount, hLengths, length_encodeWord,
    List.length_nil, List.take_succ_cons, List.take_zero, Sketch.mk.injEq, true_and, and_true]
  omega

/-- The schedule of a pair that has just been constructed. -/
def Schedule.start (cfg : RuntimeConfig) : Schedule where
  trace := [.init cfg (HeapTree.nodeCount cfg.depth) cfg.bucketSize]

theorem initializeServerStorage_spec (hAccepted : env.cfg.Accepted) {stash : List RingBlock}
    (hStash : StashOk env.cfg stash) (hSynced : Synced w.stash stash)
    (hRunning : w.server.running = true)
    (hRound : w.round = 0) (hEvictions : w.evictionCounter = 0) (hFabricated : w.fabricated = 0)
    (hLog : w.log = []) :
    Returns (initializeServerStorage env) w fun _ w' => ∃ v, Stored env w' v ∧
      v.inventory env.cfg.nodes = stash ∧ v.positionMap = w.positionMap ∧ v.fabricated = 0 ∧
      v.schedule = Schedule.start env.cfg := by
  have hNodes := RuntimeConfig.toNat_numTreeNodes hAccepted.depth
  apply (@buildInitialPlainTree_spec env w hAccepted.toShaped w.positionMap
    stash hStash hSynced).bind
  rintro tree _ ⟨kept, state, prng, hBuilding, hState, rfl⟩
  have hBucket : ∀ plain ∈ tree, ∃ b ∈ env.cfg.nodes, plain = tree.getD b {} := by
    intro plain hPlain
    obtain ⟨b, hb, rfl⟩ := List.getElem_of_mem hPlain
    exact ⟨b, mem_nodes.mpr (hBuilding.length ▸ hb), (List.getD_eq_getElem _ _ hb).symm⟩
  have hWell : ∀ plain ∈ tree, plain.WellFormed env.cfg := by
    intro plain hPlain
    obtain ⟨b, hb, rfl⟩ := hBucket plain hPlain
    exact hBuilding.valid.wellFormed b hb
  have hCounts : ∀ plain ∈ tree, plain.count = 0 := by
    intro plain hPlain
    obtain ⟨b, hb, rfl⟩ := hBucket plain hPlain
    exact hBuilding.counts b
  apply (sealTree_spec hAccepted hWell).bind
  rintro _ _ ⟨sealed, ivs, rfl, hSeals, rfl⟩
  have hLength : tree.length = env.cfg.numTreeNodes.toNat := hBuilding.length.trans hNodes.symm
  rw [hLength, UInt64.ofNat_toNat]
  obtain ⟨_, server, hRun, rfl, hHolds⟩ :=
    returns_iff.mp (handleInit_spec hAccepted hRunning hSeals hWell hLength)
  have hTrip := @roundTrip_run env { w with stash := state, prng := prng, ivs := ivs }
    (.init env.cfg.numTreeNodes (sealed.map bucketBytes)) _ server hRunning hRun
  refine (Returns.of_run hTrip ⟨rfl, rfl⟩ : Returns _ _ fun response w' =>
    response = .ack ∧ w' = _).bind ?_
  rintro _ _ ⟨rfl, rfl⟩
  apply expectAck_spec.mono
  rintro _ _ rfl
  have hValid : Plain.Valid env.cfg { treePlain w.positionMap kept tree with
      trace := [.init env.cfg tree.length env.cfg.bucketSize] } :=
    ⟨hBuilding.valid.stash, hBuilding.valid.wellFormed, hBuilding.valid.counts,
      hBuilding.valid.held, hBuilding.valid.placed⟩
  refine ⟨{ treePlain w.positionMap kept
    tree with trace := [.init env.cfg tree.length env.cfg.bucketSize] },
    ⟨hValid, hHolds, hState.memory, hState.disk, rfl, hRound, hEvictions, hFabricated, ?_, ?_⟩,
    hBuilding.inventory, rfl, rfl, ?_⟩
  · rw [hLog]
    exact congrArg (fun sketch => [sketch]) (initSketch_eq hSeals hWell hCounts _)
  · intro event hEvent
    rw [hLog, List.nil_append, List.mem_singleton] at hEvent
    rw [hEvent]
    exact hHolds.snapshot hAccepted hValid.wellFormed hValid.counts
  · have hZero : (fun b => (tree.getD b {}).count) = fun _ => 0 := funext hBuilding.counts
    rw [Schedule.start, ← hBuilding.length]
    exact congrArg (fun counts => Schedule.mk counts 0 0 _) hZero

theorem construct_spec (hAccepted : env.cfg.Accepted) (stashFile : Option Bytes)
    (bucketFiles : Nat → Option Bytes) :
    Returns (construct env) (World.start stashFile bucketFiles) fun _ w => ∃ v,
      Consistent env w v (Memory.zero env.cfg.blockSize.toNat) ∧
      v.schedule = Schedule.start env.cfg := by
  have hDepth : ¬ 63 ≤ env.cfg.treeDepth := by
    rw [UInt64.le_iff_toNat_le]
    exact Nat.not_le.mpr hAccepted.depth
  have hConfig : validateConfig env.cfg = .ok () := by
    rw [validateConfig, if_neg hAccepted.numBlocks, if_neg hDepth,
      if_neg hAccepted.z, if_neg hAccepted.s, if_neg hAccepted.a, if_neg hAccepted.blockSize]
  refine Returns.ok_bind hConfig (Returns.check_bind ?_ ?_)
  · simp only [not_or]
    exact ⟨hAccepted.numBlocks, hAccepted.z, hAccepted.s, hAccepted.a, hAccepted.blockSize, hDepth⟩
  apply ((addInitialBlocks_spec hAccepted.depth env.cfg.numBlocks.toNat
    (UInt64.toNat_lt _) rfl).returns
    hAccepted.blocksFit).bind
  rintro _ _ ⟨_, positionMap, prng, rfl, hMapped⟩
  have hStash := stashOk_initialBlocks hMapped
  apply withStash_bind (saveStashToDisk_spec (hStash.keepable hAccepted.toShaped))
  intro _ state hSaved
  have hModify : Returns (modify fun state : StashState =>
      { state with initialized := true } : StashM Unit) state
      fun _ state' => Synced state' (initialBlocks env.cfg positionMap env.cfg.numBlocks.toNat) :=
    Returns.modify ⟨hSaved.memory, hSaved.disk⟩
  apply withStash_bind hModify
  intro _ state' hSynced
  apply (initializeServerStorage_spec hAccepted hStash hSynced rfl rfl rfl rfl rfl).mono
  rintro _ w ⟨v, hStored, hInventory, hPositions, hFabricated, hSchedule⟩
  refine ⟨v, ⟨hStored, ?_, ?_, ?_, hFabricated⟩, hSchedule⟩
  · rw [hInventory, hPositions, ← coe_initialBlocks]
  · intro b _ _
    rw [hSchedule]
    exact toNat_pos hAccepted.s
  · intro addr hAddr
    rw [hPositions]
    obtain ⟨leaf, hLeaf, hBound⟩ := hMapped addr.toNat (UInt64.lt_iff_toNat_lt.mp hAddr)
    rw [UInt64.ofNat_toNat] at hLeaf
    exact ⟨leaf, hLeaf, hBound⟩

end Sealing

section Acceptance

/-- A bucket whose slot count has wrapped around cannot be filled. -/
theorem slots_of_reset {cfg : RuntimeConfig} {blocks : List RingBlock} {permutation : List Nat}
    {bucket : RingBucket}
    (hLength : permutation.length = (RingBucket.empty cfg.z cfg.s cfg.blockSize).slotCount)
    (h : (RingBucket.empty cfg.z cfg.s cfg.blockSize).resetWithBlocks blocks permutation =
      .ok bucket)
    (hS : cfg.s ≠ 0) : cfg.slots < 2 ^ 64 := by
  have hPtrs : (RingBucket.empty cfg.z cfg.s cfg.blockSize).ptrs.length = cfg.z.toNat :=
    List.length_range
  have hCount : (RingBucket.empty cfg.z cfg.s cfg.blockSize).slotCount = cfg.slots % 2 ^ 64 :=
    UInt64.toNat_add _ _
  have hPos := toNat_pos hS
  have hZ := UInt64.toNat_lt cfg.z
  have hLt := UInt64.toNat_lt cfg.s
  rw [RingBucket.resetWithBlocks] at h
  split at h
  · cases h
  split at h
  · cases h
  split at h
  · cases h
  rename_i hEnough
  rw [hPtrs, hLength, hCount, RuntimeConfig.slots] at hEnough
  rw [RuntimeConfig.slots]
  omega

theorem slots_of_fill {idx : UInt64} {w' : World} {bucket : RingBucket} (hS : env.cfg.s ≠ 0)
    (h : (fillBucketFromStash env idx
      (RingBucket.empty env.cfg.z env.cfg.s env.cfg.blockSize)).run w =
      .ok bucket w') : env.cfg.slots < 2 ^ 64 := by
  obtain ⟨_, _, _, h⟩ := run_bind_eq_ok h
  obtain ⟨_, _, _, h⟩ := run_bind_eq_ok h
  obtain ⟨⟨selected, kept⟩, _, _, h⟩ := run_bind_eq_ok h
  obtain ⟨_, _, _, h⟩ := run_bind_eq_ok h
  obtain ⟨permutation, _, hDraw, h⟩ := run_bind_eq_ok h
  obtain ⟨_, _, hReset, _⟩ := run_bind_eq_ok h
  obtain ⟨_, hShuffle, _⟩ := run_zoom_eq_ok hDraw
  obtain ⟨shuffle, rfl⟩ := (drawPermutation_spec env _ _).post_of_run hShuffle
  exact slots_of_reset List.length_ofFn (run_fromExcept_eq_ok hReset).1 hS

theorem slots_of_build {w' : World} {tree : List RingBucket} (hDepth : env.cfg.depth < 63)
    (hS : env.cfg.s ≠ 0)
    (h : (buildInitialPlainTree env).run w = .ok tree w') : env.cfg.slots < 2 ^ 64 := by
  have hPos : 0 < env.cfg.numTreeNodes.toNat := by
    have hPow : 2 ≤ 2 ^ (env.cfg.depth + 1) := Nat.le_self_pow (by omega) 2
    rw [RuntimeConfig.toNat_numTreeNodes hDepth, HeapTree.nodeCount]
    omega
  obtain ⟨last, hLast⟩ := Nat.exists_eq_add_of_le' hPos
  rw [buildInitialPlainTree, hLast, List.range_succ, List.reverse_append, List.reverse_singleton,
    List.singleton_append, List.foldlM_cons] at h
  obtain ⟨_, _, hFill, _⟩ := run_bind_eq_ok h
  obtain ⟨_, _, hBucket, _⟩ := run_bind_eq_ok hFill
  rw [List.getD_eq_getElem _ _ (by rw [List.length_replicate]; omega),
    List.getElem_replicate] at hBucket
  exact slots_of_fill hS hBucket

theorem sealable_of_encrypt {bucket : RingBucket}
    {encrypted : EncryptedRingBucket} {tick tick' : Nat}
    (h : (encryptBucket env bucket).run tick = .ok encrypted tick') : bucket.Sealable := by
  obtain ⟨_, _, hAddrs, h⟩ := run_bind_eq_ok h
  obtain ⟨_, _, hLeaves, h⟩ := run_bind_eq_ok h
  obtain ⟨_, _, hPtrs, h⟩ := run_bind_eq_ok h
  obtain ⟨_, _, hData, _⟩ := run_bind_eq_ok h
  exact ⟨Nat.not_lt.mp (run_throwIf_eq_ok hAddrs).1, Nat.not_lt.mp (run_throwIf_eq_ok hLeaves).1,
    Nat.not_lt.mp (run_throwIf_eq_ok hPtrs).1, Nat.not_lt.mp (run_throwIf_eq_ok hData).1⟩

/-- The constructors return only under a configuration whose stash file and buckets fit. -/
theorem accepted_of_construct {stashFile : Option Bytes} {bucketFiles : Nat → Option Bytes}
    (h : (construct env).run (World.start stashFile bucketFiles) = .ok () w) :
    env.cfg.Accepted := by
  obtain ⟨_, _, hConfig, h⟩ := run_bind_eq_ok h
  obtain ⟨_, rfl⟩ := run_fromExcept_eq_ok hConfig
  obtain ⟨_, _, hCheck, h⟩ := run_bind_eq_ok h
  obtain ⟨hChecks, rfl⟩ := run_throwIf_eq_ok hCheck
  simp only [not_or] at hChecks
  obtain ⟨hBlocks, hZ, hS, hA, hSize, hTooDeep⟩ := hChecks
  have hDepth : env.cfg.depth < 63 := by
    rw [UInt64.le_iff_toNat_le] at hTooDeep
    exact Nat.not_le.mp hTooDeep
  obtain ⟨_, _, hLoop, h⟩ := run_bind_eq_ok h
  obtain ⟨hBlocksFit, positionMap, prng, rfl, hMapped⟩ :=
    (addInitialBlocks_spec hDepth env.cfg.numBlocks.toNat (UInt64.toNat_lt _) rfl).post_of_run hLoop
  obtain ⟨_, _, hSave, h⟩ := run_bind_eq_ok h
  obtain ⟨state, hSaved, rfl⟩ := run_zoom_eq_ok hSave
  obtain ⟨_, _, hGet, hStore⟩ := run_bind_eq_ok hSaved
  cases hGet
  obtain ⟨_, _, hSerialize, hSet⟩ := run_bind_eq_ok hStore
  obtain ⟨hBytes, rfl⟩ := run_fromExcept_eq_ok hSerialize
  rw [serializeRingBlocks_eq] at hBytes
  obtain ⟨rfl, hFits⟩ := checkSize_eq_ok hBytes
  cases hSet
  have hStash := stashOk_initialBlocks hMapped
  have hStashFits : env.cfg.stashSize ≤ vectorMaxSize := by
    have hLength := length_stashBytes (initialBlocks env.cfg positionMap env.cfg.numBlocks.toNat)
      fun block hBlock => (hStash.held block hBlock).data
    rw [initialBlocks, List.length_map, List.length_range, ← initialBlocks] at hLength
    rw [RuntimeConfig.stashSize, ← hLength]
    exact hFits
  obtain ⟨_, _, hMark, h⟩ := run_bind_eq_ok h
  obtain ⟨marked, hMarked, rfl⟩ := run_zoom_eq_ok hMark
  cases hMarked
  obtain ⟨tree, _, hBuild, h⟩ := run_bind_eq_ok h
  have hShaped : env.cfg.Shaped :=
    ⟨hBlocks, hDepth, hZ, hS, hA, hSize, slots_of_build hDepth hS hBuild, hStashFits, hBlocksFit⟩
  obtain ⟨kept, state, prng', hBuilding, _, _⟩ :=
    (@buildInitialPlainTree_spec env _ hShaped positionMap _ hStash ⟨rfl, rfl⟩).post_of_run hBuild
  obtain ⟨payloads, _, hSealAll, _⟩ := run_bind_eq_ok h
  have hNode : 0 ∈ env.cfg.nodes := by
    rw [mem_nodes, HeapTree.nodeCount]
    exact Nat.sub_pos_of_lt (Nat.one_lt_two_pow (Nat.succ_ne_zero _))
  cases tree with
  | nil => exact absurd (mem_nodes.mp hNode) (by rw [← hBuilding.length]; exact Nat.lt_irrefl 0)
  | cons plain rest =>
    have hWell : plain.WellFormed env.cfg := hBuilding.valid.wellFormed 0 hNode
    rw [List.mapM_cons] at hSealAll
    obtain ⟨bytes, _, hSeal, _⟩ := run_bind_eq_ok hSealAll
    obtain ⟨encrypted, _, hEncrypt, hWrite⟩ := run_bind_eq_ok hSeal
    obtain ⟨_, hSealed, _⟩ := run_zoom_eq_ok hEncrypt
    have hSealable := sealable_of_encrypt hSealed
    have hSeals := (encryptBucket_spec hSealable hWell.payload _).post_of_run hSealed
    have hSerialized := (run_fromExcept_eq_ok hWrite).1
    rw [serializeEncryptedRingBucket_eq] at hSerialized
    exact ⟨hShaped, hSeals.length_bucket hWell ▸ (checkSize_eq_ok hSerialized).2,
      hWell.data ▸ hSealable.data⟩

end Acceptance
end OramHub.RingOram
