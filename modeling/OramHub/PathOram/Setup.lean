import OramHub.PathOram.Access

/-! # Initial trees

`Server::Init` puts block `i` into the bucket of leaf `i` and fills every bucket up with random
dummies. With a position map that agrees, the result is a consistent state.
-/
namespace OramHub.PathOram
open OramHub.Core OramHub.Program OramHub.Inventory
set_option autoImplicit false

variable {env : Env}

section Fill

/-- The blocks of an initial tree that lie in a bucket. -/
def placedBlocks (blocks : List Block) (leafOffset index : Nat) : List Block :=
  if leafOffset ≤ index then (blocks[index - leafOffset]?).toList else []

/-- A bucket filled up with random dummies. -/
structure Filled (placed contents : List Block) : Prop where
  eq : ∃ dummies, contents = placed ++ dummies ∧ ∀ block ∈ dummies, block.id = kDummyId ∧
    block.data.length = kBlockSize
  length : contents.length = kBucketSize

theorem length_placedBlocks (blocks : List Block) (leafOffset index : Nat) :
    (placedBlocks blocks leafOffset index).length ≤ 1 := by
  unfold placedBlocks
  split
  · cases blocks[index - leafOffset]? <;> simp
  · simp

theorem initialBucket_eq (blocks : List Block) (leafOffset : UInt64) (index : Nat) :
    initialBucket blocks leafOffset index =
      toBucket (placedBlocks blocks leafOffset.toNat index) := by
  unfold initialBucket placedBlocks
  split
  · cases blocks[index - leafOffset.toNat]? <;> rfl
  · rfl

theorem randomBytes_spec (server : Server) (count : Nat) :
    Returns (randomBytes env count) server fun data server' =>
      data.length = count ∧ ∃ rand, server' = { server with rand := rand } :=
  Returns.get_bind
    (Returns.set_bind (Returns.pure ⟨by rw [List.length_map, List.length_range], _, rfl⟩))

theorem fillBucketWithDummies_spec {server : Server} {placed contents : List Block} {missing : Nat}
    (hLength : contents.length + missing = kBucketSize)
    (hDummies : ∃ dummies, contents = placed ++ dummies ∧
      ∀ block ∈ dummies, block.id = kDummyId ∧ block.data.length = kBlockSize) :
    Returns (fillBucketWithDummies env (toBucket contents) missing) server fun bucket server' =>
      (∃ filled, bucket = toBucket filled ∧ Filled placed filled) ∧ ∃ rand,
      server' = { server with rand := rand } := by
  induction missing generalizing server contents with
  | zero => exact Returns.pure ⟨⟨contents, rfl, hDummies, hLength⟩, server.rand, rfl⟩
  | succ missing ih =>
    refine (randomBytes_spec server kBlockSize).bind ?_
    rintro data _ ⟨hData, rand, rfl⟩
    obtain ⟨dummies, hContents, hOld⟩ := hDummies
    rw [addBlock_toBucket (by omega)]
    refine (ih ?_ ⟨dummies ++ [⟨kDummyId, data⟩], by rw [hContents, List.append_assoc], ?_⟩).mono ?_
    · rw [List.length_append, List.length_singleton]
      omega
    · intro block hBlock
      obtain hMem | hNew := List.mem_append.mp hBlock
      · exact hOld block hMem
      · rw [List.mem_singleton.mp hNew]
        exact ⟨rfl, hData⟩
    · rintro bucket _ ⟨hFilled, rand, rfl⟩
      exact ⟨hFilled, rand, rfl⟩

theorem initBucket_spec {server : Server} {blocks : List Block} {leafOffset : UInt64} {index : Nat}
    (hIndex : index < server.nodeCount.toNat) (hTreeDir : server.treeDir = true) :
    Returns (initBucket env blocks leafOffset index) server fun _ server' => ∃ contents rand,
      Filled (placedBlocks blocks leafOffset.toNat index) contents ∧
      server' = { server with
        rand := rand
        files := Function.update server.files index
          (some (serializeBucket (toBucket contents))) } := by
  have hNat : (UInt64.ofNat index).toNat = index :=
    UInt64.toNat_ofNat_of_lt' (hIndex.trans (UInt64.toNat_lt _))
  have hLength := length_placedBlocks blocks leafOffset.toNat index
  rw [initBucket, initialBucket_eq]
  refine (@fillBucketWithDummies_spec env server (placedBlocks blocks leafOffset.toNat index) _ _ ?_
    ⟨[], (List.append_nil _).symm, fun _ hMem => absurd hMem List.not_mem_nil⟩).bind ?_
  · change _ + (kBucketSize - (placedBlocks blocks leafOffset.toNat index).length) = _
    have hSize : kBucketSize = 4 := rfl
    omega
  · rintro _ _ ⟨⟨contents, rfl, hFilled⟩, rand, rfl⟩
    have hInRange : ¬ server.nodeCount ≤ UInt64.ofNat index := by
      rw [UInt64.le_iff_toNat_le, hNat]
      exact Nat.not_le.mpr hIndex
    apply (@writeBucketToDisk_run { server with rand := rand } _ hInRange _ hFilled.length.le).mono
    rintro _ _ rfl
    rw [hNat]
    refine ⟨contents, rand, hFilled, ?_⟩
    rw [← hTreeDir]

end Fill

section Init

/-- The tree that `Init` stores. -/
def InitialTree (env : Env) (blocks : List Block) (bucket : Nat → List Block) : Prop :=
  ∀ b ∈ env.nodes, Filled (placedBlocks blocks (2 ^ env.height - 1) b) (bucket b)

theorem shiftOne_height (hHeight : env.height < 63) :
    ∃ power, shiftOne env.treeHeight = .ok power :=
  shiftOne_of_lt (show env.height < 64 by omega)

theorem Server.construct_spec :
    ReturnsIf (env.height < 63) (Server.construct env) ({} : Server) fun _ server =>
      env.height < 63 ∧
      ∃ numNodes numLeaves : UInt64, numNodes.toNat = HeapTree.nodeCount env.height ∧
      numLeaves.toNat = 2 ^ env.height ∧
        server = { ({} : Server) with numNodes := numNodes, numLeaves := numLeaves } := by
  refine ReturnsIf.fromExcept_bind (fun e hError hHeight => ?_) fun numNodes hNodes =>
    ReturnsIf.fromExcept_bind (fun e hError hHeight => ?_) fun numLeaves hLeaves => ?_
  · obtain ⟨nodes, hOk⟩ := exists_getNumTreeNodes hHeight
    rw [hOk] at hError
    cases hError
  · obtain ⟨power, hOk⟩ := shiftOne_height hHeight
    rw [getNumLeaves, hOk] at hError
    cases hError
  · obtain ⟨hLt, hLeavesEq⟩ := shiftOne_eq_ok hLeaves
    obtain ⟨hHeight, hNodesEq⟩ := getNumTreeNodes_eq_ok hNodes hLt
    exact ReturnsIf.modify ⟨hHeight, numNodes, numLeaves, hNodesEq, hLeavesEq, rfl⟩

theorem getLeafOffset_spec (hHeight : env.height < 63) :
    ∃ leafOffset, getLeafOffset env.treeHeight = .ok leafOffset ∧
    leafOffset.toNat = 2 ^ env.height - 1 := by
  obtain ⟨power, hPower⟩ := shiftOne_height hHeight
  obtain ⟨_, hEq⟩ := shiftOne_eq_ok hPower
  have hPos : 0 < 2 ^ env.treeHeight.toNat := Nat.pow_pos (by decide)
  refine ⟨power - 1, by rw [getLeafOffset, hPower, ok_bind]; rfl, ?_⟩
  rw [UInt64.toNat_sub_of_le _ _ (by rw [UInt64.le_iff_toNat_le, hEq]; exact hPos),
    hEq, UInt64.toNat_one]
  rfl

theorem Server.init_spec {blocks : List Block} {server : Server} (hHeight : env.height < 63)
    (hRunning : server.running = true)
    (hNodes : server.numNodes.toNat = HeapTree.nodeCount env.height)
    (hLeaves : server.numLeaves.toNat = 2 ^ env.height) :
    ReturnsIf (blocks.length ≤ 2 ^ env.height) (Server.init env blocks) server fun _ server' =>
      blocks.length ≤ 2 ^ env.height ∧ ∃ bucket, Holds env server' bucket ∧
      InitialTree env blocks bucket := by
  refine ReturnsIf.get_bind (ReturnsIf.check_bind (fun hFull => ?_) fun hRoom =>
    ReturnsIf.set_bind ?_)
  · rw [hLeaves] at hFull
    exact Nat.not_le.mpr hFull
  rw [hLeaves] at hRoom
  obtain ⟨leafOffset, hOffset, hOffsetEq⟩ := getLeafOffset_spec hHeight
  have hLoop := @Returns.forM_range Exception Server
    { server with files := fun _ => none, treeDir := true, nodeCount := server.numNodes }
    server.numNodes.toNat (initBucket env blocks leafOffset)
    (fun i server' => server'.running = true ∧ server'.treeDir = true ∧
      server'.nodeCount = server.numNodes ∧
      server'.numNodes = server.numNodes ∧ ∃ bucket : Nat → List Block, ∀ b < i,
        server'.files b = some (serializeBucket (toBucket (bucket b))) ∧
        Filled (placedBlocks blocks (2 ^ env.height - 1) b) (bucket b))
    ⟨hRunning, rfl, rfl, rfl, fun _ => [], fun b hb => absurd hb (Nat.not_lt_zero b)⟩ (by
      rintro i hi server' ⟨hRun, hDir, hCount, hNum, bucket, hFiles⟩
      apply (@initBucket_spec env server' blocks leafOffset i (hCount ▸ hi) hDir).mono
      rintro _ _ ⟨contents, rand, hFilled, rfl⟩
      refine ⟨hRun, hDir, hCount, hNum, Function.update bucket i contents, fun b hb => ?_⟩
      rcases eq_or_ne b i with rfl | hNe
      · rw [Function.update_self, ← hOffsetEq]
        exact ⟨Function.update_self _ _ _, hFilled⟩
      · rw [Function.update_of_ne hNe]
        exact ⟨(Function.update_of_ne hNe _ _).trans (hFiles b (by omega)).1,
          (hFiles b (by omega)).2⟩)
  refine Returns.returnsIf (Returns.ok_bind hOffset (hLoop.mono ?_))
  rintro _ server' ⟨hRun, hDir, hCount, hNum, bucket, hFiles⟩
  rw [hNodes] at hFiles
  refine ⟨Nat.not_lt.mp hRoom, bucket,
    ⟨hRun, hDir, hCount.trans hNum.symm, hNum ▸ hNodes, fun b hb => ?_⟩, fun b hb => ?_⟩
  · exact (hFiles b (mem_nodes.mp hb)).1
  · exact (hFiles b (mem_nodes.mp hb)).2

end Init

section Client

variable {w : World} {blocks : List Block} {initialPositions : Option (List UInt64)}

theorem construct_spec (hHeight : env.height < 63) :
    Returns (construct env) w fun _ w' => ∃ numLeaves positionMap prng,
      w' = { w with numLeaves := numLeaves, positionMap := positionMap, prng := prng } ∧
      numLeaves.toNat = 2 ^ env.height ∧ positionMap.length = env.numBlocks.toNat ∧
      ∀ leaf ∈ positionMap, leaf.toNat < 2 ^ env.height := by
  obtain ⟨numLeaves, hLeaves⟩ := shiftOne_height hHeight
  obtain ⟨_, hEq⟩ := shiftOne_eq_ok hLeaves
  refine Returns.ok_bind hLeaves (Returns.modify_bind ?_)
  refine (@Returns.mapM _ _ _ _ { w with numLeaves := numLeaves } (List.range env.numBlocks.toNat)
    (fun _ => getRandomLeaf env) (fun w' => ∃ prng,
      w' = { w with numLeaves := numLeaves, prng := prng })
    (fun leaf _ => leaf.toNat < 2 ^ env.height) ⟨w.prng, rfl⟩ ?_).bind ?_
  · rintro _ _ _ ⟨prng, rfl⟩
    apply (getRandomLeaf_spec (by exact hEq)).mono
    rintro leaf _ ⟨hLeaf, rfl⟩
    exact ⟨hLeaf, prng + 1, rfl⟩
  · rintro positionMap _ ⟨hPositions, prng, rfl⟩
    refine Returns.modify ⟨numLeaves, positionMap, prng, rfl, hEq, ?_, fun leaf hLeaf => ?_⟩
    · rw [hPositions.length_eq, List.length_range]
    · obtain ⟨i, hi, rfl⟩ := List.getElem_of_mem hLeaf
      exact hPositions.get hi (hPositions.length_eq ▸ hi)

/-- What a client and a server know after they have been set up. -/
structure Ready (env : Env) (blocks : List Block) (w : World)
    (bucket : Nat → List Block) : Prop where
  height : env.height < 63
  room : blocks.length ≤ 2 ^ env.height
  tree : InitialTree env blocks bucket
  stored : Stored env w ⟨[], bucket, w.positionMap, []⟩
  positions : w.positionMap.length = env.numBlocks.toNat

/-- The arguments under which nothing throws. -/
structure Accepted (env : Env) (blocks : List Block)
    (initialPositions : Option (List UInt64)) : Prop where
  height : env.height < 63
  room : blocks.length ≤ 2 ^ env.height
  positions : ∀ positions, initialPositions = some positions →
    positions.length = env.numBlocks.toNat

theorem setUp_spec :
    ReturnsIf (Accepted env blocks initialPositions) (setUp env blocks initialPositions)
      ({} : World) fun _ w =>
      (∃ bucket, Ready env blocks w bucket) ∧
      (∀ positions, initialPositions = some positions → w.positionMap = positions) ∧
      (initialPositions = none → ∀ leaf ∈ w.positionMap, leaf.toNat < 2 ^ env.height) := by
  refine ReturnsIf.zoom_bind (Server.construct_spec.weaken Accepted.height) ?_
  rintro _ _ ⟨hHeight, numNodes, numLeaves, hNodes, hLeaves, rfl⟩
  apply ReturnsIf.zoom_bind ((Server.init_spec hHeight rfl hNodes hLeaves).weaken Accepted.room)
  rintro _ server ⟨hRoom, bucket, hHolds, hTree⟩
  apply (construct_spec hHeight).returnsIf.bind
  rintro _ _ ⟨numLeaves, positionMap, prng, rfl, hNumLeaves, hLength, hBound⟩
  cases initialPositions with
  | none =>
    refine ReturnsIf.pure ⟨⟨bucket, hHeight, hRoom, hTree, ?_, hLength⟩, ?_, fun _ => hBound⟩
    · exact ⟨hHolds, hNumLeaves, rfl, rfl, rfl⟩
    · rintro positions ⟨⟩
  | some positions =>
    refine ReturnsIf.check_bind (fun hRefused hAccepted =>
      hRefused (hAccepted.positions positions rfl))
      fun hPositions => ReturnsIf.modify ⟨⟨bucket, hHeight, hRoom, hTree, ?_, ?_⟩, ?_, ?_⟩
    · exact ⟨hHolds, hNumLeaves, rfl, rfl, rfl⟩
    · exact not_not.mp hPositions
    · rintro _ ⟨⟩
      rfl
    · intro hNone
      cases hNone

end Client

section Consistency

variable {blocks : List Block} {bucket : Nat → List Block} {positionMap : List UInt64}

/-- Initial blocks that the position map sends to the leaves of their buckets. -/
structure Agrees (env : Env) (blocks : List Block) (positionMap : List UInt64) : Prop where
  distinct : (blocks.map Block.id).Nodup
  bounded : ∀ block ∈ blocks, block.id < env.numBlocks
  sized : ∀ block ∈ blocks, block.data.length ≤ vectorMaxSize
  placed : ∀ i block, blocks[i]? = some block → positionMap[block.id.toNat]? = some (UInt64.ofNat i)
  leaves : ∀ leaf ∈ positionMap, leaf.toNat < 2 ^ env.height

def initialData (blocks : List Block) (addr : UInt64) : Option Bytes :=
  (blocks.find? fun block => block.id == addr).map Block.data

theorem initialData_eq_some (hDistinct : (blocks.map Block.id).Nodup) (block : Block) :
    initialData blocks block.id = some block.data ↔ block ∈ blocks := by
  rw [initialData, Option.map_eq_some_iff]
  constructor
  · rintro ⟨found, hFind, hData⟩
    have hId : found.id = block.id := by simpa using List.find?_some hFind
    have hEq : found = block := by
      cases found
      cases block
      exact congrArg₂ Block.mk hId hData
    exact hEq ▸ List.mem_of_find?_eq_some hFind
  · intro hBlock
    obtain ⟨found, hFind⟩ :
        ∃ found, blocks.find? (fun other => other.id == block.id) = some found :=
      Option.isSome_iff_exists.mp (List.find?_isSome.mpr ⟨block, hBlock, beq_self_eq_true _⟩)
    have hId : found.id = block.id := by simpa using List.find?_some hFind
    have hEq := List.inj_on_of_nodup_map hDistinct (List.mem_of_find?_eq_some hFind) hBlock hId
    exact ⟨found, hFind, congrArg Block.data hEq⟩

theorem sum_toList_getElem? {n : Nat} (h : blocks.length ≤ n) :
    ∑ i ∈ Finset.range n, ((blocks[i]?).toList : Multiset Block) = blocks := by
  induction blocks generalizing n with
  | nil => exact Finset.sum_eq_zero fun i _ => rfl
  | cons block blocks ih =>
    obtain ⟨m, rfl⟩ := Nat.exists_eq_add_of_le' ((Nat.succ_pos _).trans_le h)
    rw [Finset.sum_range_succ']
    have hRest := ih (Nat.le_of_succ_le_succ h)
    simp only [List.getElem?_cons_succ, hRest, List.getElem?_cons_zero]
    exact Multiset.coe_eq_coe.mpr List.perm_append_comm

theorem Filled.mem {placed contents : List Block} (h : Filled placed contents) {block : Block}
    (hBlock : block ∈ contents) :
    block ∈ placed ∨ block.id = kDummyId ∧ block.data.length = kBlockSize := by
  obtain ⟨dummies, rfl, hDummies⟩ := h.eq
  exact (List.mem_append.mp hBlock).imp_right (hDummies block)

theorem Filled.reals {placed contents : List Block} (h : Filled placed contents)
    (hPlaced : ∀ block ∈ placed, block.id ≠ kDummyId) : reals contents = placed := by
  obtain ⟨dummies, rfl, hDummies⟩ := h.eq
  have hNone : PathOram.reals dummies = [] := List.filter_eq_nil_iff.mpr fun block hBlock => by
    rw [(hDummies block hBlock).1]
    decide
  rw [PathOram.reals, List.filter_append]
  exact congrArg₂ (· ++ ·) (reals_eq_self hPlaced) hNone |>.trans (List.append_nil _)

theorem mem_of_mem_placedBlocks {leafOffset index : Nat} {block : Block}
    (h : block ∈ placedBlocks blocks leafOffset index) :
    leafOffset ≤ index ∧ blocks[index - leafOffset]? = some block := by
  unfold placedBlocks at h
  split at h
  · rename_i hLe
    exact ⟨hLe, Option.mem_toList.mp h⟩
  · cases h

theorem inventory_initialTree (hTree : InitialTree env blocks bucket)
    (hRoom : blocks.length ≤ 2 ^ env.height)
    (hBounded : ∀ block ∈ blocks, block.id < env.numBlocks) :
    (⟨[], bucket, positionMap, []⟩ : Plain).inventory env.nodes = blocks := by
  have hContents : ∀ b ∈ env.nodes, (⟨[], bucket, positionMap, []⟩ : Plain).contents b =
      (placedBlocks blocks (2 ^ env.height - 1) b : Multiset Block) := fun b hb =>
    congrArg _ ((hTree b hb).reals fun block hBlock => ne_dummy_of_lt (hBounded block
      (List.mem_of_getElem? (mem_of_mem_placedBlocks hBlock).2)))
  have hNodes : env.nodes = Finset.range (2 ^ env.height - 1 + 2 ^ env.height) := by
    have hPos : 0 < 2 ^ env.height := Nat.pow_pos (by decide)
    rw [Env.nodes, HeapTree.nodeCount, Nat.pow_succ]
    congr 1
    omega
  have hInner : ∑ b ∈ Finset.range (2 ^ env.height - 1),
      (placedBlocks blocks (2 ^ env.height - 1) b : Multiset Block) = 0 :=
    Finset.sum_eq_zero fun b hb => congrArg _ (if_neg (Nat.not_le.mpr (Finset.mem_range.mp hb)))
  have hLeaves : ∀ i,
      (placedBlocks blocks (2 ^ env.height - 1) (2 ^ env.height - 1 + i) : Multiset Block) =
      ((blocks[i]?).toList : Multiset Block) := fun i => by
    rw [placedBlocks, if_pos (Nat.le_add_right _ _), Nat.add_sub_cancel_left]
  rw [Plain.inventory, Inventory.inventory_congr hContents, Inventory.inventory, hNodes,
    Finset.sum_range_add,
    hInner, Finset.sum_congr rfl fun i _ => hLeaves i, sum_toList_getElem? hRoom, zero_add]
  exact zero_add _

theorem Ready.consistent {w : World} (h : Ready env blocks w bucket)
    (hAgrees : Agrees env blocks w.positionMap) :
    Consistent env ⟨[], bucket, w.positionMap, []⟩ (initialData blocks) := by
  have hInventory : (⟨[], bucket, w.positionMap, []⟩ : Plain).inventory env.nodes = blocks :=
    inventory_initialTree h.tree h.room hAgrees.bounded
  have hSized : ∀ b ∈ env.nodes, ∀ block ∈ bucket b, block.Sized := by
    intro b hb block hBlock
    obtain hPlaced | ⟨_, hDummy⟩ := (h.tree b hb).mem hBlock
    · have hLe := hAgrees.sized block (List.mem_of_getElem? (mem_of_mem_placedBlocks hPlaced).2)
      rw [vectorMaxSize] at hLe
      rw [Block.Sized]
      omega
    · rw [Block.Sized, hDummy]
      decide
  constructor
  case fits => exact fun b hb => ⟨(h.tree b hb).length.le, hSized b hb⟩
  case full => exact fun b hb => (h.tree b hb).length
  case sized => exact fun block hBlock => absurd hBlock List.not_mem_nil
  case inventory =>
    intro block
    rw [hInventory, initialData_eq_some hAgrees.distinct, Multiset.mem_coe]
  case distinct =>
    rw [hInventory]
    exact Multiset.coe_nodup.mpr hAgrees.distinct
  case bounded =>
    intro addr hAddr
    obtain ⟨data, hData⟩ := Option.ne_none_iff_exists'.mp hAddr
    exact hAgrees.bounded ⟨addr, data⟩
      ((initialData_eq_some hAgrees.distinct ⟨addr, data⟩).mp hData)
  case placed =>
    intro b hb block hBlock
    have hMem : block ∈ placedBlocks blocks (2 ^ env.height - 1) b := by
      have hReal := (List.mem_filter.mp (Multiset.mem_coe.mp hBlock))
      exact ((h.tree b hb).mem hReal.1).resolve_right fun hDummy => bne_iff_ne.mp hReal.2 hDummy.1
    obtain ⟨hLe, hGet⟩ := mem_of_mem_placedBlocks hMem
    refine ⟨_, hAgrees.placed _ block hGet, List.mem_reverse.mpr ?_⟩
    have hLt := (List.getElem?_eq_some_iff.mp hGet).1
    have hRoom := h.room
    have hPow : 2 ^ env.height ≤ 2 ^ 62 :=
      Nat.pow_le_pow_right (by decide) (by have := h.height; omega)
    have hNat : (UInt64.ofNat (b - (2 ^ env.height - 1))).toNat = b - (2 ^ env.height - 1) :=
      UInt64.toNat_ofNat_of_lt' (by rw [UInt64.size]; omega)
    refine HeapTree.mem_path.mpr ⟨env.height, le_rfl, ?_⟩
    rw [hNat, HeapTree.node_height, Nat.add_sub_cancel' hLe]
  case positions => exact h.positions
  case leaves => exact hAgrees.leaves

end Consistency
end OramHub.PathOram
