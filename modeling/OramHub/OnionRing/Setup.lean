import OramHub.OnionRing.Access

/-! # Setting up a server and a client

A tree in which every ciphertext is clear and every slot is free holds the zero memory.
-/
namespace OramHub.OnionRing
open OramHub.Core OramHub.Program OramHub.Updates OramHub.Inventory
set_option autoImplicit false

/-- The sizes for which neither the server nor the client throws. -/
structure Accepted (cfg : RuntimeConfig) : Prop where
  height_lt : cfg.height < 63
  nodes_le : HeapTree.nodeCount cfg.height ≤ vectorMaxSize / 24
  slots_le : cfg.slots ≤ vectorMaxSize / 40
  blocks_le : cfg.numBlocks.toNat ≤ vectorMaxSize / 8

/-- A client that has made no access yet. -/
structure Ready (env : Env) (w : World env.Ciphertext) : Prop where
  feasible : Feasible env.cfg
  coherent : Coherent env w (Memory.zero env.cfg.blockSize.toNat)
  empty : ∀ b ∈ env.cfg.nodes, w.idMap b = List.replicate env.cfg.slots (-1)
  accessCount : w.accessCount = 0
  log : w.log = []

variable {env : Env} {w : World env.Ciphertext}

theorem numTreeNodes_of_lt {cfg : RuntimeConfig} (h : cfg.height < 63) :
    ∃ nodes leaves, cfg.numTreeNodes = .ok nodes ∧ cfg.numLeaves = .ok leaves := by
  have hHeight : cfg.treeHeight.toNat < 63 := h
  have hNext : (cfg.treeHeight + 1).toNat = cfg.treeHeight.toNat + 1 := by
    rw [UInt64.toNat_add, UInt64.toNat_one, Nat.mod_eq_of_lt (by omega)]
  obtain ⟨power, hPower⟩ :=
    shiftOne_of_lt (hNext.trans_lt (by omega : cfg.treeHeight.toNat + 1 < 64))
  obtain ⟨leaves, hLeaves⟩ := shiftOne_of_lt (by omega : cfg.treeHeight.toNat < 64)
  refine ⟨power - 1, leaves, ?_, hLeaves⟩
  rw [RuntimeConfig.numTreeNodes, hPower]
  rfl

theorem coherent_empty (hShaped : Shaped env w.server)
    (hLeaves : w.numLeaves.toNat = 2 ^ env.cfg.height)
    (hTree : ∀ b ∈ env.cfg.nodes, w.server.tree b = List.replicate env.cfg.slots env.tfhe.tLweClear)
    (hEmpty : ∀ b ∈ env.cfg.nodes, w.idMap b = List.replicate env.cfg.slots (-1))
    (hPositions : w.positionMap.length = env.cfg.numBlocks.toNat)
    (hMapped : ∀ leaf ∈ w.positionMap, leaf.toNat < 2 ^ env.cfg.height) :
    Coherent env w (Memory.zero env.cfg.blockSize.toNat) := by
  have hNone : placedIds env.cfg w.idMap = 0 := by
    apply Multiset.eq_zero_of_forall_notMem
    intro id hId
    obtain ⟨b, hb, hMem, hNonneg⟩ := mem_placedIds.mp hId
    rw [hEmpty b hb] at hMem
    rw [List.eq_of_mem_replicate hMem] at hNonneg
    exact absurd hNonneg (by decide)
  constructor
  case shaped => exact hShaped
  case leaves => exact hLeaves
  case placement =>
    refine ⟨fun b hb => ?_, fun b hb id hId => ?_, ?_, hPositions, hMapped⟩
    · rw [hEmpty b hb, List.length_replicate]
    · rw [hEmpty b hb] at hId
      exact Or.inl (List.eq_of_mem_replicate hId)
    · rw [hNone]
      exact Multiset.nodup_zero
  case holds =>
    intro b hb slot hSlot
    rw [hEmpty b hb, hTree b hb, List.zip_replicate'] at hSlot
    rw [List.eq_of_mem_replicate hSlot]
    exact matches_clear env _
  case sizes => exact fun _ => List.length_replicate
  case absent => exact fun _ _ => rfl
  case fits => exact fun hPlaced => absurd hNone hPlaced

theorem checkVectorSize_bind {σ α : Type} {s : σ} {condition : Prop} {count elementSize : Nat}
    {what : String} {f : Unit → EStateM Exception σ α} {post : α → σ → Prop}
    (hFits : condition → count ≤ vectorMaxSize / elementSize)
    (hf : count ≤ vectorMaxSize / elementSize → ReturnsIf condition (f ()) s post) :
    ReturnsIf condition (checkVectorSize count elementSize what >>= f) s post :=
  ReturnsIf.check_bind (fun hRefused hCondition =>
    absurd (hFits hCondition) (Nat.not_le.mpr hRefused)) fun hNot =>
    hf (Nat.not_lt.mp hNot)

def initialServer (env : Env) (numNodes : UInt64) : Server env.Ciphertext where
  tree := fun b =>
    if b < numNodes.toNat then List.replicate env.cfg.slots env.tfhe.tLweClear else []
  treeSize := numNodes.toNat

theorem init_spec : ReturnsIf (Accepted env.cfg) (Server.init env) {} fun _ server =>
    ∃ numNodes, env.cfg.numTreeNodes = .ok numNodes ∧ server = initialServer env numNodes := by
  refine ReturnsIf.fromExcept_bind (fun e hError hAccepted => ?_) fun numNodes hNodes => ?_
  · obtain ⟨_, _, hOk, _⟩ := numTreeNodes_of_lt hAccepted.height_lt
    rw [hOk] at hError
    cases hError
  refine checkVectorSize_bind (fun hAccepted => ?_) fun _ => ?_
  · obtain ⟨_, _, hOk, hLeaves⟩ := numTreeNodes_of_lt hAccepted.height_lt
    rw [hOk] at hNodes
    cases hNodes
    rw [(numTreeNodes_eq_ok hOk hLeaves).2.1]
    exact hAccepted.nodes_le
  apply checkVectorSize_bind Accepted.slots_le
  intro _
  exact ReturnsIf.modify ⟨numNodes, hNodes, rfl⟩

theorem drawPositions_spec (hLeaves : w.numLeaves.toNat = 2 ^ env.cfg.height) (count : Nat) :
    Returns ((List.range count).mapM fun _ => getRandomLeaf env) w fun positions w' =>
      positions.length = count ∧ (∀ leaf ∈ positions, leaf.toNat < 2 ^ env.cfg.height) ∧
        ∃ prng, w' = { w with prng := prng } := by
  refine (@Returns.mapM _ _ _ _ w (List.range count) (fun _ => getRandomLeaf env)
    (fun w' => ∃ prng, w' = { w with prng := prng }) (fun leaf _ => leaf.toNat < 2 ^ env.cfg.height)
      ⟨_, rfl⟩ ?_).mono ?_
  · rintro _ _ _ ⟨prng, rfl⟩
    apply getRandomLeaf_spec.mono
    rintro _ _ ⟨rfl, rfl⟩
    exact ⟨drawnLeaf_lt hLeaves, _, rfl⟩
  · rintro positions w' ⟨hPositions, hWorld⟩
    refine ⟨hPositions.length_eq.trans List.length_range, fun leaf hLeaf => ?_, hWorld⟩
    obtain ⟨i, hLt, rfl⟩ := List.mem_iff_getElem.mp hLeaf
    exact hPositions.get hLt (hPositions.length_eq ▸ hLt)

theorem setUp_spec : ReturnsIf (Accepted env.cfg) (setUp env) {} fun _ w => Ready env w := by
  refine ReturnsIf.zoom_bind init_spec ?_
  rintro _ _ ⟨numNodes, hNodes, rfl⟩
  refine ReturnsIf.fromExcept_bind (fun e hError => ?_) fun numNodes' hNodes' => ?_
  · rw [hNodes] at hError
    cases hError
  rw [hNodes] at hNodes'
  cases hNodes'
  refine ReturnsIf.fromExcept_bind (fun e hError hAccepted => ?_) fun numLeaves hLeaves => ?_
  · obtain ⟨_, _, _, hOk⟩ := numTreeNodes_of_lt hAccepted.height_lt
    rw [hOk] at hError
    cases hError
  obtain ⟨hHeight, hNodeCount, hLeafCount⟩ := numTreeNodes_eq_ok hNodes hLeaves
  apply checkVectorSize_bind Accepted.blocks_le
  intro hBlocks
  apply checkVectorSize_bind (fun hAccepted => hAccepted.slots_le.trans (by decide))
  intro _
  apply checkVectorSize_bind (fun hAccepted => hNodeCount.trans_le hAccepted.nodes_le)
  intro _
  apply ReturnsIf.modify_bind
  apply ReturnsIf.bind (drawPositions_spec ?leaves _).returnsIf
  case leaves => exact hLeafCount
  rintro positions _ ⟨hLength, hMapped, prng, rfl⟩
  refine ReturnsIf.modify ⟨⟨hHeight, ?_⟩,
    coherent_empty ⟨rfl, hNodeCount, fun b hb => ?_⟩ hLeafCount (fun b hb => ?_)
    (fun b hb => ?_) hLength hMapped, fun b hb => ?_, rfl, rfl⟩
  · exact hBlocks.trans_lt (by decide)
  all_goals have hLt : b < numNodes.toNat := hNodeCount ▸ mem_nodes.mp hb
  · exact (congrArg List.length (if_pos hLt)).trans List.length_replicate
  all_goals exact if_pos hLt

end OramHub.OnionRing
