import OramHub.RingOram.Refinement
import OramHub.RingOram.Schedule

/-! # Path evictions and early reshuffles

Both move live blocks between buckets and stash without losing or copying one, and both follow the
schedule.
-/
namespace OramHub.RingOram
open OramHub.Core OramHub.Program OramHub.Packing
set_option autoImplicit false

/-- The plain state `v'` has the live blocks of `v`; only their places have changed. -/
structure Plain.Keeps (cfg : RuntimeConfig) (v v' : Plain) (schedule : Schedule) : Prop where
  inventory : v'.inventory cfg.nodes = v.inventory cfg.nodes
  positionMap : v'.positionMap = v.positionMap
  fabricated : v'.fabricated = v.fabricated
  schedule : v'.schedule = schedule

/-- So it has, and the stash has not grown. -/
structure Plain.Tidies (cfg : RuntimeConfig) (v v' : Plain) (schedule : Schedule) : Prop extends
    v.Keeps cfg v' schedule where
  stash : v'.stash.length ≤ v.stash.length

def Plain.Distinct (cfg : RuntimeConfig) (v : Plain) : Prop :=
  ((v.inventory cfg.nodes).map RingBlock.addr).Nodup

variable {cfg : RuntimeConfig} {env : Env} {w : World} {v : Plain} {index leaf : UInt64}

namespace Plain

theorem schedule_read (v : Plain) (index : UInt64) :
    ((v.observe (.readBucket index (v.bucket index.toNat).count env.cfg.bucketSize)).read
      index.toNat).schedule =
      v.schedule.readBucket env.cfg index := rfl

theorem Refills.schedule {v' : Plain} (h : v.Refills env.cfg index.toNat v') :
    (v'.observe (.writeBucket index env.cfg.bucketSize)).schedule =
      v.schedule.writeBucket env.cfg index := by
  cases h with
  | @intro selected kept bucket _ _ hFresh =>
    have hCounts : (fun b => (Function.update v.bucket index.toNat bucket b).count) =
        Function.update (fun b => (v.bucket b).count) index.toNat 0 := by
      funext b
      rcases eq_or_ne b index.toNat with rfl | hNe
      · rw [Function.update_self, Function.update_self, count_of_fresh hFresh]
      · rw [Function.update_of_ne hNe, Function.update_of_ne hNe]
    exact congrArg (fun counts => Schedule.mk counts v.round v.evictionCounter _) hCounts

theorem Keeps.trans {v' v'' : Plain} {s s' : Schedule} (h : v.Keeps env.cfg v' s)
    (h' : v'.Keeps env.cfg v'' s') :
    v.Keeps env.cfg v'' s' :=
  ⟨h'.inventory.trans h.inventory, h'.positionMap.trans h.positionMap,
    h'.fabricated.trans h.fabricated, h'.schedule⟩

theorem Tidies.trans {v' v'' : Plain} {s s' : Schedule} (h : v.Tidies env.cfg v' s)
    (h' : v'.Tidies env.cfg v'' s') :
    v.Tidies env.cfg v'' s' :=
  ⟨h.toKeeps.trans h'.toKeeps, h'.stash.trans h.stash⟩

theorem Keeps.distinct {v' : Plain} {s : Schedule} (h : v.Keeps env.cfg v' s)
    (hDistinct : v.Distinct env.cfg) :
    v'.Distinct env.cfg := by
  rw [Distinct, h.inventory]
  exact hDistinct

end Plain

section Hierarchy

variable {sites : Finset Nat} {order : List Nat}

theorem hierarchy_tree (cfg : RuntimeConfig) (sites : Finset Nat) :
    Hierarchy (MayReside cfg) (HeapTree.Above cfg.depth) sites := by
  constructor
  case refl => exact fun _ _ _ => id
  case trans => exact fun i j k hij hjk leaf hLeaf hMem => hij leaf hLeaf (hjk leaf hLeaf hMem)
  case inherits => exact fun i _ j _ hAbove block hMay => ⟨hMay.1, hAbove _ hMay.1 hMay.2⟩
  case chain =>
    intro block i _ j _ hi hj
    exact (Nat.le_total i j).imp (HeapTree.above_of_le hi.1 hi.2 hj.2)
      (HeapTree.above_of_le hi.1 hj.2 hi.2)

/-- Buckets in descending order of their indices are ordered from below. -/
theorem pairwise_above (hOrder : order.Pairwise (· ≥ ·)) (hNodes : ∀ b ∈ order, b ∈ cfg.nodes) :
    order.Pairwise fun i j => HeapTree.Above cfg.depth i j → HeapTree.Above cfg.depth j i := by
  apply hOrder.imp_of_mem
  intro i j _ hj hLe hAbove
  exact hAbove.symm_of_le (mem_nodes.mp (hNodes j hj)) hLe

theorem pairwise_ge_path {leaf : UInt64} (hLeaf : leaf.toNat < 2 ^ env.cfg.depth) :
    (env.cfg.path leaf).reverse.Pairwise (· ≥ ·) :=
  List.pairwise_reverse.mpr ((HeapTree.pairwise_path hLeaf).imp fun hLt => hLt.le)

/-- A valid state is a placement of the blocks in the stash and in any buckets. -/
theorem Plain.Valid.placement (h : v.Valid cfg) (hSites : sites ⊆ cfg.nodes) :
    Placement (MayReside cfg) cfg.z.toNat sites ((v.stash : Multiset RingBlock) + ∑ b ∈ sites,
      v.contents b) v.stash
      v.contents := by
  constructor
  case all => rfl
  case room =>
    intro b hb
    have hLive := (v.bucket b).length_liveIndices_le
    rw [(h.wellFormed b (hSites hb)).addrs] at hLive
    exact (List.length_map ..).trans_le hLive
  case allowed =>
    intro b hb block hBlock
    exact ⟨(h.held b (hSites hb) block hBlock).leaf, h.placed b (hSites hb) block hBlock⟩

end Hierarchy

section Eviction

variable {path : List Nat} {rest : List UInt64}

/-- The first loop of `EvictPath`: buckets are emptied into the stash one after the other. -/
theorem readPathBuckets_spec (hAccepted : env.cfg.Accepted) {active : Finset Nat}
    (hActive : active ⊆ env.cfg.nodes) (hNodup : (rest.map UInt64.toNat).Nodup)
    (hRest : ∀ index ∈ rest, index.toNat ∈ active)
    (h : Stored env w v) (hDistinct : ((v.inventory active).map RingBlock.addr).Nodup) :
    Returns (forM rest (readBucket env)) w fun _ w' => ∃ v', Stored env w' v' ∧
      (v'.stash : Multiset RingBlock) = v.stash + ∑ b ∈ (rest.map UInt64.toNat).toFinset,
      v.contents b ∧
      v'.bucket = v.bucket ∧ v'.positionMap = v.positionMap ∧ v'.fabricated = v.fabricated ∧
      v'.schedule = rest.foldl (Schedule.readBucket env.cfg) v.schedule := by
  induction rest generalizing w v active with
  | nil => exact Returns.pure ⟨v, h, (add_zero _).symm, rfl, rfl, rfl, rfl⟩
  | cons index rest ih =>
    rw [List.forM_cons]
    rw [List.map_cons, List.nodup_cons] at hNodup
    have hMem := hRest index List.mem_cons_self
    have hErase : ∀ other ∈ rest, other.toNat ∈ active.erase index.toNat := fun other hOther =>
      Finset.mem_erase.mpr ⟨fun hEq => hNodup.1 (hEq ▸ List.mem_map_of_mem hOther),
        hRest other (List.mem_cons_of_mem _ hOther)⟩
    apply (readBucket_spec hAccepted h (hActive hMem)).bind
    intro _ w' hStored
    have hStash := Plain.stash_read hMem hDistinct
    refine (ih ((Finset.erase_subset _ _).trans hActive) hNodup.2 hErase hStored ?_).mono ?_
    · change (Multiset.map _ ((v.read index.toNat).inventory _)).Nodup
      rwa [Plain.inventory_read hMem hDistinct]
    · rintro _ w'' ⟨v', hFinal, hMore, hBucket, hMap, hFabricated, hSchedule⟩
      refine ⟨v', hFinal, hMore.trans ?_, hBucket, hMap, hFabricated, hSchedule⟩
      rw [List.map_cons, List.toFinset_cons,
        Finset.sum_insert (by rw [List.mem_toFinset]; exact hNodup.1), ← add_assoc]
      exact congrArg (· + _) hStash

/-- The second loop of `EvictPath`: the emptied buckets are refilled, each with as much as it can
take. -/
theorem writePathBuckets_spec (hAccepted : env.cfg.Accepted)
    (hNodup : (rest.map UInt64.toNat).Nodup)
    (hRest : ∀ index ∈ rest, index.toNat ∈ env.cfg.nodes) (h : Stored env w v) :
    Returns (forM rest (writeBucket env)) w fun _ w' => ∃ v', Stored env w' v' ∧
      Filled (MayReside env.cfg) env.cfg.z.toNat v'.contents v'.stash
        (rest.map UInt64.toNat) v.stash ∧
      (∀ b ∉ rest.map UInt64.toNat, v'.bucket b = v.bucket b) ∧
      v'.positionMap = v.positionMap ∧ v'.fabricated = v.fabricated ∧
      v'.schedule = rest.foldl (Schedule.writeBucket env.cfg) v.schedule := by
  induction rest generalizing w v with
  | nil => exact Returns.pure ⟨v, h, .nil, fun _ _ => rfl, rfl, rfl, rfl⟩
  | cons index rest ih =>
    rw [List.forM_cons]
    rw [List.map_cons, List.nodup_cons] at hNodup
    apply (writeBucket_fill hAccepted h (hRest index List.mem_cons_self)).bind
    rintro _ w' ⟨selected, kept, bucket, hFill, hFresh, hStored⟩
    refine (ih hNodup.2 (fun other hOther => hRest other (List.mem_cons_of_mem _ hOther))
      hStored).mono ?_
    rintro _ w'' ⟨v', hFinal, hFilled, hOther, hMap, hFabricated, hSchedule⟩
    have hRefills : v.Refills env.cfg index.toNat
        { v with stash := kept, bucket := Function.update v.bucket index.toNat bucket } :=
      .intro (Fill.perm hFill) (fun block hBlock => (hFill.allowed block hBlock).2) hFresh
    refine ⟨v', hFinal, ?_, ?_, hMap, hFabricated, hSchedule.trans ?_⟩
    · have hOwn : v'.contents index.toNat = selected := by
        rw [Plain.contents, hOther _ hNodup.1]
        exact congrArg Multiset.ofList
          ((congrArg RingBucket.liveBlocks (Function.update_self ..)).trans hFresh.live)
      exact .cons (hOwn ▸ hFill) hFilled
    · intro b hb
      rw [List.map_cons, List.mem_cons, not_or] at hb
      exact (hOther b hb.2).trans (Function.update_of_ne hb.1 _ _)
    · rw [hRefills.schedule, List.foldl_cons]

/-- The blocks on a path and in the stash have been packed into the path again, from the leaf up. -/
structure Plain.Repacked (cfg : RuntimeConfig) (v : Plain) (path : List Nat)
    (v' : Plain) : Prop where
  filled : Filled (MayReside cfg) cfg.z.toNat v'.contents v'.stash path.reverse
    ((v.stash : Multiset RingBlock) + ∑ b ∈ path.toFinset, v.contents b)
  frame : ∀ b ∉ path, v'.bucket b = v.bucket b

theorem Plain.Repacked.inventory {v' : Plain} {path : List Nat} (h : v.Repacked env.cfg path v')
    (hNodup : path.Nodup) (hPath : ∀ b ∈ path, b ∈ env.cfg.nodes) :
    v'.inventory env.cfg.nodes = v.inventory env.cfg.nodes := by
  have hSub : path.toFinset ⊆ env.cfg.nodes := fun b hb => hPath b (List.mem_toFinset.mp hb)
  have hPlaced := (h.filled.placement (List.nodup_reverse.mpr hNodup)).all
  rw [List.toFinset_reverse, Inventory.inventory] at hPlaced
  have hRest : ∀ b ∈ env.cfg.nodes \ path.toFinset, v'.contents b = v.contents b := by
    intro b hb
    rw [Plain.contents, h.frame b fun hMem =>
      (Finset.mem_sdiff.mp hb).2 (List.mem_toFinset.mpr hMem)]
    rfl
  rw [Plain.inventory, Plain.inventory, Inventory.inventory, Inventory.inventory,
    ← Finset.sum_sdiff hSub,
    ← Finset.sum_sdiff hSub (f := v.contents), Finset.sum_congr rfl hRest, add_left_comm,
    hPlaced, add_left_comm]

/-- The blocks were placed with the old stash already, and filling from the leaf up leaves no larger
one. -/
theorem Plain.Repacked.stash_le {v' : Plain} {path : List Nat} (h : v.Repacked env.cfg path v')
    (hValid : v.Valid env.cfg) (hNodup : path.Nodup) (hOrder : path.reverse.Pairwise (· ≥ ·))
    (hPath : ∀ b ∈ path, b ∈ env.cfg.nodes) :
    v'.stash.length ≤ v.stash.length := by
  have hSub : path.toFinset ⊆ env.cfg.nodes := fun b hb => hPath b (List.mem_toFinset.mp hb)
  have hPlaced := h.filled.placement (List.nodup_reverse.mpr hNodup)
  have hStable := h.filled.stable (hierarchy_tree _ _)
    (pairwise_above hOrder fun b hb => hPath b (List.mem_reverse.mp hb))
  rw [List.toFinset_reverse] at hPlaced hStable
  exact hStable.card_stash_le (hierarchy_tree _ _) hPlaced (hValid.placement hSub)

theorem evictPath_repacks (hAccepted : env.cfg.Accepted) (h : Stored env w v)
    (hDistinct : v.Distinct env.cfg) :
    Returns (evictPath env) w fun _ w' => ∃ v', Stored env w' v' ∧
      v.Keeps env.cfg v' (v.schedule.evictPath env.cfg) ∧
      v.Repacked env.cfg (env.cfg.path (v.evictionCounter % env.cfg.numLeaves)) v' := by
  have hLeaf := toNat_mod_numLeaves hAccepted.depth v.evictionCounter
  have hIndices := map_toNat_indices hAccepted.depth hLeaf
  have hNodup := @nodup_path env.cfg _ hLeaf
  have hPath : ∀ b ∈ env.cfg.path (v.evictionCounter % env.cfg.numLeaves), b ∈ env.cfg.nodes :=
    fun b => mem_nodes_of_mem_path hLeaf
  have hMem : ∀ index ∈ env.cfg.indices (v.evictionCounter % env.cfg.numLeaves),
      index.toNat ∈ env.cfg.nodes := by
    intro index hIndex
    apply hPath
    rw [← hIndices]
    exact List.mem_map_of_mem hIndex
  apply Returns.get_bind
  rw [h.evictionCounter]
  refine Returns.modify_bind (Returns.ok_bind (getPathIndices_indices hAccepted.depth hLeaf) ?_)
  have hStored : Stored env { w with evictionCounter := w.evictionCounter + 1 }
      { v with evictionCounter := v.evictionCounter + 1 } :=
    ⟨⟨h.valid.stash, h.valid.wellFormed, h.valid.counts, h.valid.held, h.valid.placed⟩,
      h.tree, h.stash,
      h.file, h.positionMap, h.round, congrArg (· + 1) h.evictionCounter, h.fabricated,
      h.trace, h.snapshots⟩
  apply (readPathBuckets_spec hAccepted (Finset.Subset.refl _) (hIndices ▸ hNodup) hMem
    hStored hDistinct).bind
  rintro _ w' ⟨v', hRead, hStash, hBucket, hMap, hFabricated, hSchedule⟩
  refine (writePathBuckets_spec hAccepted
    (by rw [List.map_reverse, hIndices]; exact List.nodup_reverse.mpr hNodup)
    (fun index hIndex => hMem index (List.mem_reverse.mp hIndex)) hRead).mono ?_
  rintro _ w'' ⟨v'', hFinal, hFilled, hOther, hMap', hFabricated', hSchedule'⟩
  rw [List.map_reverse, hIndices] at hFilled hOther
  rw [hStash, hIndices] at hFilled
  have hRepacked : v.Repacked env.cfg (env.cfg.path (v.evictionCounter % env.cfg.numLeaves)) v'' :=
    ⟨hFilled, fun b hb =>
      (hOther b fun hRev => hb (List.mem_reverse.mp hRev)).trans (congrFun hBucket b)⟩
  refine ⟨v'', hFinal,
    ⟨hRepacked.inventory hNodup hPath, hMap'.trans hMap, hFabricated'.trans hFabricated, ?_⟩,
    hRepacked⟩
  rw [hSchedule', hSchedule]
  rfl

theorem evictPath_spec (hAccepted : env.cfg.Accepted) (h : Stored env w v)
    (hDistinct : v.Distinct env.cfg) :
    Returns (evictPath env) w fun _ w' => ∃ v', Stored env w' v' ∧
      v.Tidies env.cfg v' (v.schedule.evictPath env.cfg) := by
  have hLeaf := toNat_mod_numLeaves hAccepted.depth v.evictionCounter
  apply (evictPath_repacks hAccepted h hDistinct).mono
  rintro _ w' ⟨v', hStored, hKeeps, hRepacked⟩
  refine ⟨v', hStored, hKeeps,
    hRepacked.stash_le h.valid (nodup_path hLeaf) (pairwise_ge_path hLeaf) ?_⟩
  exact fun b => mem_nodes_of_mem_path hLeaf

end Eviction

section Reshuffle

/-- A single bucket that is read and filled again has been repacked. -/
theorem Plain.repacked_bucket {b : Nat} {selected kept : List RingBlock} {bucket : RingBucket}
    (hDistinct : v.Distinct cfg) (hb : b ∈ cfg.nodes)
    (hFill : Fill (MayReside cfg) cfg.z.toNat b ((v.read b).stash : Multiset RingBlock)
      selected kept)
    (hFresh : bucket.Fresh cfg selected) :
    v.Repacked cfg [b] { v with stash := kept, bucket := Function.update v.bucket b bucket } := by
  rw [Plain.stash_read hb hDistinct] at hFill
  have hOwn : Plain.contents { v with stash := kept, bucket := Function.update v.bucket b bucket }
      b = selected :=
    congrArg Multiset.ofList
      ((congrArg RingBucket.liveBlocks (Function.update_self ..)).trans hFresh.live)
  constructor
  case filled =>
    rw [List.toFinset_cons, List.toFinset_nil, insert_empty_eq, Finset.sum_singleton]
    exact .cons (hOwn ▸ hFill) .nil
  case frame => exact fun c hc => Function.update_of_ne (List.ne_of_not_mem_cons hc) _ _

theorem reshuffleBucket_spec (hAccepted : env.cfg.Accepted) (h : Stored env w v)
    (hDistinct : v.Distinct env.cfg) (hIndex : index.toNat ∈ env.cfg.nodes) :
    Returns (reshuffleBucket env index) w fun _ w' => ∃ v', Stored env w' v' ∧
      v.Tidies env.cfg v' (v.schedule.reshuffleBucket env.cfg index) := by
  apply (fetchServerBucketCount_spec hAccepted h hIndex).bind
  rintro count w' ⟨rfl, hAsked⟩
  by_cases hFull : env.cfg.s ≤ (v.bucket index.toNat).count
  · rw [if_pos hFull]
    apply (readBucket_spec hAccepted hAsked hIndex).bind
    intro _ w'' hRead
    apply (writeBucket_fill hAccepted hRead hIndex).bind
    rintro _ w₃ ⟨selected, kept, bucket, hFill, hFresh, hStored⟩
    have hRepacked :=
      @Plain.repacked_bucket env.cfg v index.toNat selected kept bucket
        hDistinct hIndex hFill hFresh
    have hPath : ∀ b ∈ [index.toNat], b ∈ env.cfg.nodes :=
      fun b hb => List.mem_singleton.mp hb ▸ hIndex
    have hSchedule := Plain.Refills.schedule
      (.intro (Fill.perm hFill) (fun block hBlock => (hFill.allowed block hBlock).2) hFresh)
    refine Returns.modify
      ⟨_, ⟨hStored.valid, hStored.tree, hStored.stash, hStored.file, hStored.positionMap,
          hStored.round, hStored.evictionCounter, hStored.fabricated, hStored.trace,
          hStored.snapshots⟩,
        ⟨hRepacked.inventory (List.nodup_singleton _) hPath, rfl, rfl, hSchedule.trans ?_⟩,
        hRepacked.stash_le h.valid (List.nodup_singleton _) (List.pairwise_singleton _ _) hPath⟩
    rw [Plain.schedule_read, Schedule.reshuffleBucket]
    exact (if_pos hFull).symm
  · rw [if_neg hFull]
    refine Returns.pure ⟨_, hAsked, ⟨rfl, rfl, rfl, ?_⟩, le_rfl⟩
    rw [Schedule.reshuffleBucket]
    exact (if_neg hFull).symm

theorem reshuffleBuckets_spec (hAccepted : env.cfg.Accepted)
    {rest : List UInt64} (h : Stored env w v)
    (hDistinct : v.Distinct env.cfg) (hRest : ∀ index ∈ rest, index.toNat ∈ env.cfg.nodes) :
    Returns (forM rest (reshuffleBucket env)) w fun _ w' => ∃ v', Stored env w' v' ∧
      v.Tidies env.cfg v' (rest.foldl (Schedule.reshuffleBucket env.cfg) v.schedule) := by
  induction rest generalizing w v with
  | nil => exact Returns.pure ⟨v, h, ⟨rfl, rfl, rfl, rfl⟩, le_rfl⟩
  | cons index rest ih =>
    rw [List.forM_cons]
    apply (reshuffleBucket_spec hAccepted h hDistinct (hRest index List.mem_cons_self)).bind
    rintro _ w' ⟨v', hStored, hTidies⟩
    refine (ih hStored (hTidies.distinct hDistinct) fun other hOther =>
      hRest other (List.mem_cons_of_mem _ hOther)).mono ?_
    rintro _ w'' ⟨v'', hFinal, hTail⟩
    rw [hTidies.schedule] at hTail
    exact ⟨v'', hFinal, hTidies.trans hTail⟩

theorem earlyReshuffle_spec (hAccepted : env.cfg.Accepted) (h : Stored env w v)
    (hDistinct : v.Distinct env.cfg) (hLeaf : leaf.toNat < 2 ^ env.cfg.depth) :
    Returns (earlyReshuffle env leaf) w fun _ w' => ∃ v', Stored env w' v' ∧
      v.Tidies env.cfg v' (v.schedule.earlyReshuffle env.cfg leaf) := by
  apply Returns.ok_bind (getPathIndices_indices hAccepted.depth hLeaf)
  apply reshuffleBuckets_spec hAccepted h hDistinct
  intro index hIndex
  apply mem_nodes_of_mem_path hLeaf
  rw [← map_toNat_indices hAccepted.depth hLeaf]
  exact List.mem_map_of_mem hIndex

end Reshuffle
end OramHub.RingOram
