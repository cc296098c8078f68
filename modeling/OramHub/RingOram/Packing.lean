import OramHub.RingOram.Invariants

/-! # Evictions and the first filling leave as little as possible in the stash

A bucket takes the first blocks of the stash that belong on its way. Since buckets are filled from
below, no other placement on a path, or in the whole tree, leaves fewer blocks in the stash.
-/
namespace OramHub.RingOram
open OramHub.Core OramHub.Program OramHub.Packing
set_option autoImplicit false

/-- The real blocks in the valid slots of bucket `b` of the server's disk. -/
def World.contents (env : Env) (w : World) (b : Nat) : Multiset RingBlock :=
  match w.bucket env b with
  | .ok bucket => bucket.liveBlocks
  | .error _ => 0

/-- The bucket lies on the block's own path. -/
def OnOwnPath (cfg : RuntimeConfig) (block : RingBlock) (b : Nat) : Prop :=
  cfg.isBucketOnLeafPath (UInt64.ofNat b) block.leaf = .ok true

/-- The blocks are in the stash or in buckets of `sites` on their own paths, at most `z` in each. -/
abbrev TreePlacement (cfg : RuntimeConfig) (sites : Finset Nat) (blocks stash : Multiset RingBlock)
    (contents : Nat → Multiset RingBlock) : Prop :=
  Placement (OnOwnPath cfg) cfg.z.toNat sites blocks stash contents

/-- `EvictPath` places the blocks of the stash and of the path, and no placement leaves fewer in the
stash. -/
def EvictsOptimally (env : Env) (w : World) : Prop :=
  ∃ w' path, (evictPath env).run w = .ok () w' ∧
    env.cfg.getPathIndices (w.evictionCounter % env.cfg.numLeaves) = .ok path ∧
    TreePlacement env.cfg (path.map UInt64.toNat).toFinset
      (w.stash.stash + ∑ b ∈ (path.map UInt64.toNat).toFinset, w.contents env b)
        w'.stash.stash (w'.contents env) ∧
    ∀ stash' contents', TreePlacement env.cfg (path.map UInt64.toNat).toFinset
      (w.stash.stash + ∑ b ∈ (path.map UInt64.toNat).toFinset, w.contents env b) stash' contents' →
      w'.stash.stash.length ≤ stash'.card

/-- `BuildInitialPlainTree` places the blocks in the whole tree, and no placement leaves fewer in
the stash. -/
def BuildsOptimally (env : Env) (w : World) (stash : List RingBlock) : Prop :=
  ∃ tree w', (buildInitialPlainTree env).run w = .ok tree w' ∧
    tree.length = env.cfg.numTreeNodes.toNat ∧
    TreePlacement env.cfg (Finset.range env.cfg.numTreeNodes.toNat) stash w'.stash.stash
      (treeContents tree) ∧
    ∀ stash' contents',
    TreePlacement env.cfg (Finset.range env.cfg.numTreeNodes.toNat) stash stash' contents' →
      w'.stash.stash.length ≤ stash'.card

section Hierarchy

variable {cfg : RuntimeConfig} {sites : Finset Nat} {blocks stash : Multiset RingBlock}
  {contents : Nat → Multiset RingBlock} {order : List Nat}

theorem onOwnPath_iff (hDepth : cfg.depth < 63) {block : RingBlock} {b : Nat} (hb : b ∈ cfg.nodes) :
    OnOwnPath cfg block b ↔ MayReside cfg block b := by
  have hNode := mem_nodes.mp hb
  have hIndex : (UInt64.ofNat b).toNat = b := by
    rw [← RuntimeConfig.toNat_numTreeNodes hDepth] at hNode
    exact UInt64.toNat_ofNat_of_lt' (hNode.trans (UInt64.toNat_lt _))
  by_cases hLeaf : block.leaf.toNat < 2 ^ cfg.depth
  · rw [OnOwnPath, RuntimeConfig.isBucketOnLeafPath_eq_ok hDepth (hIndex.symm ▸ hNode) hLeaf,
      hIndex]
    constructor
    · exact fun hOk => ⟨hLeaf, of_decide_eq_true (Except.ok.inj hOk)⟩
    · exact fun hMay => congrArg Except.ok (decide_eq_true hMay.2)
  · constructor
    · intro hOk
      obtain ⟨level, _, hRest⟩ := except_bind_eq_ok hOk
      obtain ⟨node, hIndexed, _⟩ := except_bind_eq_ok hRest
      rw [RuntimeConfig.getBucketIndex,
        if_pos ((RuntimeConfig.numLeaves_le_iff hDepth).mpr (Nat.not_lt.mp hLeaf))] at hIndexed
      cases hIndexed
    · exact fun hMay => absurd hMay.1 hLeaf

theorem treePlacement_iff (hDepth : cfg.depth < 63) (hSites : sites ⊆ cfg.nodes) :
    TreePlacement cfg sites blocks stash contents ↔
      Placement (MayReside cfg) cfg.z.toNat sites blocks stash contents := by
  constructor
  · intro h
    exact ⟨h.all, h.room, fun b hb block hBlock =>
      (onOwnPath_iff hDepth (hSites hb)).mp (h.allowed b hb block hBlock)⟩
  · intro h
    exact ⟨h.all, h.room, fun b hb block hBlock =>
      (onOwnPath_iff hDepth (hSites hb)).mpr (h.allowed b hb block hBlock)⟩

/-- Filling from below places the blocks, and no placement leaves fewer of them in the stash. -/
theorem filled_optimal (hDepth : cfg.depth < 63) (hNodup : order.Nodup)
    (hOrder : order.Pairwise (· ≥ ·))
    (hNodes : ∀ b ∈ order, b ∈ cfg.nodes)
    (h : Filled (MayReside cfg) cfg.z.toNat contents stash order blocks) :
    TreePlacement cfg order.toFinset blocks stash contents ∧
      ∀ stash' contents', TreePlacement cfg order.toFinset blocks stash' contents' →
      stash.card ≤ stash'.card := by
  have hSites : order.toFinset ⊆ cfg.nodes := fun b hb => hNodes b (List.mem_toFinset.mp hb)
  have hPlaced := h.placement hNodup
  have hStable := h.stable (hierarchy_tree cfg _) (pairwise_above hOrder hNodes)
  refine ⟨(treePlacement_iff hDepth hSites).mpr hPlaced, fun stash' contents' hOther => ?_⟩
  exact hStable.card_stash_le (hierarchy_tree cfg _) hPlaced
    ((treePlacement_iff hDepth hSites).mp hOther)

end Hierarchy

section Eviction

variable {env : Env} {w w' : World} {v v' : Plain} {path : List Nat}

theorem Stored.contents (hAccepted : env.cfg.Accepted) (h : Stored env w v) {b : Nat}
    (hb : b ∈ env.cfg.nodes) :
    w.contents env b = v.contents b := by
  obtain ⟨bucket, hBucket, hSame, hPayload⟩ := h.bucket hAccepted hb
  rw [World.contents, hBucket]
  change (bucket.liveIndices.map bucket.entry : Multiset RingBlock) = v.contents b
  rw [hSame.liveIndices, hSame.entry hPayload]
  rfl

theorem evictPath_optimal (h : Reachable env w) : EvictsOptimally env w := by
  obtain ⟨hAccepted, v, memory, hConsistent⟩ := h.consistent
  have hStored := hConsistent.stored
  obtain ⟨_, w', hRun, v', hStored', _, hRepacked⟩ :=
    returns_iff.mp (evictPath_repacks hAccepted hStored hConsistent.distinct)
  have hLeaf := toNat_mod_numLeaves hAccepted.depth w.evictionCounter
  have hNodes : ∀ b ∈ (env.cfg.path (w.evictionCounter % env.cfg.numLeaves)).reverse,
      b ∈ env.cfg.nodes := fun b hb =>
    mem_nodes_of_mem_path hLeaf (List.mem_reverse.mp hb)
  rw [← hStored.evictionCounter] at hRepacked
  have hNodup := List.nodup_reverse.mpr (@nodup_path env.cfg _ hLeaf)
  have hSites : ∀ b ∈ (env.cfg.path (w.evictionCounter % env.cfg.numLeaves)).toFinset,
      b ∈ env.cfg.nodes := fun b hb =>
    hNodes b (List.mem_reverse.mpr (List.mem_toFinset.mp hb))
  have hOptimal :=
    filled_optimal hAccepted.depth hNodup (pairwise_ge_path hLeaf) hNodes hRepacked.filled
  rw [List.toFinset_reverse] at hOptimal
  refine ⟨w', _, hRun, getPathIndices_indices hAccepted.depth hLeaf, ?_⟩
  rw [map_toNat_indices hAccepted.depth hLeaf, hStored.stash, hStored'.stash,
    Finset.sum_congr rfl fun b hb => hStored.contents hAccepted (hSites b hb)]
  exact ⟨hOptimal.1.congr fun b hb => hStored'.contents hAccepted (hSites b hb), hOptimal.2⟩

end Eviction

section Construction

variable {env : Env} {w : World} {stash : List RingBlock}

theorem buildInitialPlainTree_optimal (hShaped : env.cfg.Shaped) (hStash : StashOk env.cfg stash)
    (hSynced : Synced w.stash stash) : BuildsOptimally env w stash := by
  obtain ⟨tree, w', hRun, kept, state, prng, hBuilding, hFilled, hState, rfl⟩ :=
    returns_iff.mp (buildInitialPlainTree_fill hShaped (fun _ => none) hStash hSynced)
  have hCount := RuntimeConfig.toNat_numTreeNodes hShaped.depth
  have hOrder : (List.range env.cfg.numTreeNodes.toNat).reverse.Pairwise (· ≥ ·) :=
    List.pairwise_reverse.mpr (List.pairwise_lt_range.imp fun hLt => hLt.le)
  have hNodes : ∀ b ∈ (List.range env.cfg.numTreeNodes.toNat).reverse, b ∈ env.cfg.nodes := by
    intro b hb
    rw [mem_nodes, ← hCount]
    exact List.mem_range.mp (List.mem_reverse.mp hb)
  have hOptimal :=
    filled_optimal hShaped.depth (List.nodup_reverse.mpr List.nodup_range) hOrder hNodes hFilled
  rw [List.toFinset_reverse, List.toFinset_range, ← hState.memory] at hOptimal
  exact ⟨tree, _, hRun, hBuilding.length.trans hCount.symm, hOptimal.1, hOptimal.2⟩

/-- Greedy placement is optimal, on the path of every eviction and in the whole tree at the start.
-/
theorem greedy_placement_optimal (hAccepted : env.cfg.Accepted) :
    (∀ w, Reachable env w → EvictsOptimally env w) ∧
    ∀ w stash, StashOk env.cfg stash → Synced w.stash stash → BuildsOptimally env w stash :=
  ⟨fun _ hReachable => evictPath_optimal hReachable,
    fun _ _ hStash hSynced => buildInitialPlainTree_optimal hAccepted.toShaped hStash hSynced⟩

theorem greedy_placement_small : ∃ w w', Reachable .small w ∧ EvictsOptimally .small w ∧
    StashOk Env.small.cfg w'.stash.stash ∧ w'.stash.stash.length = 2 ∧
    BuildsOptimally .small w' w'.stash.stash := by
  obtain ⟨hEvicts, hBuilds⟩ := @greedy_placement_optimal .small accepted_small
  obtain ⟨_, w, hConstruct, _⟩ := returns_iff.mp (construct_spec accepted_small none fun _ => none)
  have hStash : StashOk Env.small.cfg [⟨0, 0, [0]⟩, ⟨1, 0, [0]⟩] := by
    constructor
    case nodup => decide
    case held =>
      intro block hBlock
      obtain rfl | rfl := List.mem_pair.mp hBlock
      · exact ⟨by decide, by decide, rfl⟩
      · exact ⟨by decide, by decide, rfl⟩
  exact ⟨w, { w with stash := { stash := _, file := some (stashBytes _) } }, .start hConstruct,
    hEvicts w (.start hConstruct), hStash, rfl, hBuilds _ _ hStash ⟨rfl, rfl⟩⟩

end Construction
end OramHub.RingOram
