import OramHub.RingOram.PathRead

/-! # Accesses

Between two operations the live blocks are exactly the contents of a RAM under the leaves of the
position map. An access reads or replaces one of them and gives it a new leaf.
-/
namespace OramHub.RingOram
open OramHub.Core OramHub.Program
set_option autoImplicit false

/-- One block for every address, with the leaf and the data it should have. -/
def blocksOf (cfg : RuntimeConfig) (positionMap : UInt64 → Option UInt64) (memory : Memory) :
    Multiset RingBlock :=
  (Multiset.range cfg.numBlocks.toNat).map fun i =>
    ⟨UInt64.ofNat i, (positionMap (UInt64.ofNat i)).getD 0, memory (UInt64.ofNat i)⟩

/-- The state between two operations. -/
structure Consistent (env : Env) (w : World) (v : Plain) (memory : Memory) : Prop where
  stored : Stored env w v
  inventory : v.inventory env.cfg.nodes = blocksOf env.cfg v.positionMap memory
  calm : v.schedule.Calm env.cfg []
  mapped : ∀ addr < env.cfg.numBlocks, ∃ leaf, v.positionMap addr = some leaf ∧
    leaf.toNat < 2 ^ env.cfg.depth
  fabricated : v.fabricated = 0

section Blocks

variable {cfg : RuntimeConfig} {positionMap : UInt64 → Option UInt64}
  {memory : Memory} {addr : UInt64}

theorem mem_blocksOf {block : RingBlock} (h : block ∈ blocksOf cfg positionMap memory) :
    block = ⟨block.addr, (positionMap block.addr).getD 0, memory block.addr⟩ ∧
    block.addr < cfg.numBlocks := by
  obtain ⟨i, hi, rfl⟩ := Multiset.mem_map.mp h
  have hLt := Multiset.mem_range.mp hi
  refine ⟨rfl, ?_⟩
  rw [UInt64.lt_iff_toNat_lt, UInt64.toNat_ofNat_of_lt' (hLt.trans (UInt64.toNat_lt _))]
  exact hLt

theorem blocksOf_mem (h : addr < cfg.numBlocks) :
    ⟨addr, (positionMap addr).getD 0, memory addr⟩ ∈ blocksOf cfg positionMap memory := by
  refine Multiset.mem_map.mpr ⟨addr.toNat, Multiset.mem_range.mpr (UInt64.lt_iff_toNat_lt.mp h), ?_⟩
  rw [UInt64.ofNat_toNat]

theorem nodup_addr_blocksOf (cfg : RuntimeConfig) (positionMap : UInt64 → Option UInt64)
    (memory : Memory) :
    ((blocksOf cfg positionMap memory).map RingBlock.addr).Nodup := by
  rw [blocksOf, Multiset.map_map]
  refine Multiset.Nodup.map_on ?_ (Multiset.nodup_range _)
  intro i hi j hj hEq
  have hi' := (Multiset.mem_range.mp hi).trans (UInt64.toNat_lt _)
  have hj' := (Multiset.mem_range.mp hj).trans (UInt64.toNat_lt _)
  have hNat := congrArg UInt64.toNat hEq
  simp only [Function.comp_apply] at hNat
  rwa [UInt64.toNat_ofNat_of_lt' hi', UInt64.toNat_ofNat_of_lt' hj'] at hNat

theorem blocksOf_update {rest : Multiset RingBlock}
    (h : blocksOf cfg positionMap memory = ⟨addr, (positionMap addr).getD 0, memory addr⟩ ::ₘ rest)
    (leaf : UInt64) (data : Bytes) :
    blocksOf cfg (Function.update positionMap addr (some leaf)) (Function.update memory addr data) =
      ⟨addr, leaf, data⟩ ::ₘ rest := by
  have hAddr : addr < cfg.numBlocks :=
    (mem_blocksOf (h ▸ Multiset.mem_cons_self (⟨addr, _, _⟩ : RingBlock) rest)).2
  have hRange : addr.toNat ∈ Multiset.range cfg.numBlocks.toNat :=
    Multiset.mem_range.mpr (UInt64.lt_iff_toNat_lt.mp hAddr)
  rw [blocksOf, ← Multiset.cons_erase hRange, Multiset.map_cons, UInt64.ofNat_toNat,
    Multiset.cons_inj_right] at h
  rw [blocksOf, ← Multiset.cons_erase hRange, Multiset.map_cons, UInt64.ofNat_toNat,
    Function.update_self, Function.update_self, Option.getD_some, ← h]
  congr 1
  apply Multiset.map_congr rfl
  intro i hi
  have hNe : UInt64.ofNat i ≠ addr := by
    rintro hEq
    have hLt := (Multiset.mem_range.mp (Multiset.mem_of_mem_erase hi)).trans (UInt64.toNat_lt _)
    rw [Multiset.Nodup.mem_erase_iff (Multiset.nodup_range _), ← hEq,
      UInt64.toNat_ofNat_of_lt' hLt] at hi
    exact hi.1 rfl
  rw [Function.update_of_ne hNe, Function.update_of_ne hNe]

end Blocks

theorem store_eq_update (memory : Memory) (op : Op) (addr : UInt64) (data : Bytes) :
    memory.store op addr data = Function.update memory addr (memory.result op addr data) := by
  cases op with
  | read => exact (Function.update_eq_self addr memory).symm
  | write =>
    rw [Memory.result_write]
    rfl

variable {env : Env} {w : World} {v : Plain} {addr leaf : UInt64} {memory : Memory}

theorem Consistent.distinct (h : Consistent env w v memory) : v.Distinct env.cfg := by
  rw [Plain.Distinct, h.inventory]
  exact nodup_addr_blocksOf _ _ _

theorem Consistent.held (h : Consistent env w v memory) :
    ∀ block ∈ v.inventory env.cfg.nodes, Held env.cfg block := by
  intro block hBlock
  obtain hStash | ⟨b, hb, hBucket⟩ := Inventory.mem_inventory.mp hBlock
  · exact h.stored.valid.stash.held block (Multiset.mem_coe.mp hStash)
  · exact h.stored.valid.held b hb block hBucket

section PathRead

/-- The plain effect of `ReadPath`. -/
def Plain.readPath (cfg : RuntimeConfig) (v : Plain) (leaf : UInt64) (picks : List Pick) : Plain :=
  ((v.touchAll picks).observe
    (.readPathMetadata leaf ((cfg.path leaf).map v.schedule.counts) cfg.metadataSize)).observe
      (.xorPathSlots leaf (cfg.depth + 1) cfg.blockSize.toNat)

theorem touchAll_observe (v : Plain) (sketch : Sketch) (picks : List Pick) :
    (v.observe sketch).touchAll picks = (v.touchAll picks).observe sketch := by
  induction picks generalizing v with
  | nil => rfl
  | cons pick picks ih => exact ih (v.touch pick)

theorem readPath_eq (cfg : RuntimeConfig) (v : Plain) (leaf : UInt64) (picks : List Pick) :
    v.readPath cfg leaf picks =
      { v with
        bucket := (v.touchAll picks).bucket
        trace := (v.trace ++
          [.readPathMetadata leaf ((cfg.path leaf).map v.schedule.counts) cfg.metadataSize]) ++
          [.xorPathSlots leaf (cfg.depth + 1) cfg.blockSize.toNat] } := by
  rw [Plain.readPath, Plain.touchAll_eq]
  rfl

theorem schedule_readPath {picks : List Pick} (hNodup : (picks.map Pick.node).Nodup)
    (hPath : picks.map Pick.node = env.cfg.path leaf) :
    (v.readPath env.cfg leaf picks).schedule = v.schedule.readPath env.cfg leaf := by
  have hCounts : (fun b => ((v.touchAll picks).bucket b).count) =
      fun b => if b ∈ env.cfg.path leaf then v.schedule.counts b + 1 else v.schedule.counts b := by
    funext b
    by_cases hb : b ∈ env.cfg.path leaf
    · have hMem := hb
      rw [← hPath] at hMem
      obtain ⟨pick, hPick, rfl⟩ := List.mem_map.mp hMem
      rw [if_pos hb, Plain.touchAll_bucket_of_mem hNodup hPick]
      rfl
    · rw [if_neg hb, Plain.touchAll_bucket_of_not_mem (hPath ▸ hb)]
      rfl
  rw [readPath_eq]
  exact congrArg (fun counts => Schedule.mk counts v.round v.evictionCounter _) hCounts

theorem readPath_spec (hAccepted : env.cfg.Accepted) (h : Stored env w v)
    (hDistinct : v.Distinct env.cfg)
    (hCalm : v.schedule.Calm env.cfg []) (hLeaf : leaf.toNat < 2 ^ env.cfg.depth)
    (hAddr : addr ≠ kDummyAddress) :
    Returns (readPath env leaf addr) w fun data w' => ∃ picks : List Pick,
      v.Picks env.cfg addr picks ∧ picks.map Pick.node = env.cfg.path leaf ∧
      data = (v.found picks).head?.map RingBlock.data ∧
      Stored env w' (v.readPath env.cfg leaf picks) := by
  have hNodes : ∀ b ∈ env.cfg.path leaf, b ∈ env.cfg.nodes := fun b => mem_nodes_of_mem_path hLeaf
  apply (fetchPathMetadata_spec hAccepted h hLeaf).bind
  rintro metadata w₁ ⟨hMetadata, hStored⟩
  refine Returns.check_bind ?_ ?_
  · rw [hMetadata.length_eq, length_path]
    exact not_not.mpr rfl
  refine (selectSlots_spec hAccepted hMetadata (fun b hb => h.valid.wellFormed b (hNodes b hb))
    (fun b hb => hCalm b (hNodes b hb) List.not_mem_nil) hAddr ([], [])).bind ?_
  rintro _ _ ⟨picks, prng, hPath, hSelects, rfl, rfl⟩
  have hMem : ∀ pick ∈ picks, pick.node ∈ env.cfg.path leaf := fun pick hPick =>
    hPath ▸ List.mem_map_of_mem hPick
  have hPicks : v.Picks env.cfg addr picks :=
    ⟨hPath ▸ nodup_path hLeaf, fun pick hPick => hNodes _ (hMem pick hPick), hSelects,
      fun pick hPick => hCalm _ (hNodes _ (hMem pick hPick)) List.not_mem_nil⟩
  have hFound := hPicks.length_found_le h.valid hDistinct
  apply Returns.modify_bind
  have hReady : Stored env { w₁ with prng := prng, readPathCount := w₁.readPathCount + 1 }
      (v.observe (.readPathMetadata leaf ((env.cfg.path leaf).map v.schedule.counts)
        env.cfg.metadataSize)) :=
    ⟨hStored.valid, hStored.tree, hStored.stash, hStored.file, hStored.positionMap, hStored.round,
      hStored.evictionCounter, hStored.fabricated, hStored.trace, hStored.snapshots⟩
  rw [List.nil_append, List.nil_append]
  refine (@fetchXorPath_spec env _ _ leaf addr picks hAccepted hReady
    ⟨hPicks.nodup, hPicks.nodes, hPicks.selects, hPicks.calm⟩ hLeaf hPath hFound).mono ?_
  rintro data w₂ ⟨hData, hFinal⟩
  rw [touchAll_observe] at hFinal
  exact ⟨picks, hPicks, hPath, hData, hFinal⟩

end PathRead

section Access

theorem eraseP_perm {α : Type} {l : List α} {p : α → Bool} {x : α} (h : l.find? p = some x) :
    l.Perm (x :: l.eraseP p) := by
  obtain ⟨hx, before, after, rfl, hBefore⟩ := List.find?_eq_some_iff_append.mp h
  rw [List.eraseP_append_right _ fun y hy => by simpa using hBefore y hy,
    List.eraseP_cons_of_pos hx]
  exact List.perm_middle

theorem Plain.Distinct.eq_of_addr (hDistinct : v.Distinct env.cfg) {block other : RingBlock}
    (h : block ∈ v.inventory env.cfg.nodes) (h' : other ∈ v.inventory env.cfg.nodes)
    (hAddr : block.addr = other.addr) : block = other :=
  Multiset.inj_on_of_nodup_map hDistinct block h other h' hAddr

/-- A block that a path read does not find lies in the stash. -/
theorem mem_stash_of_not_found {picks : List Pick} {oldLeaf : UInt64}
    (hPicks : v.Picks env.cfg addr picks)
    (hPath : picks.map Pick.node = env.cfg.path oldLeaf) (hValid : v.Valid env.cfg)
    (hFound : v.found picks = []) {block : RingBlock} (hBlock : block ∈ v.inventory env.cfg.nodes)
    (hAddr : block.addr = addr) (hLeaf : block.leaf = oldLeaf) : block ∈ v.stash := by
  obtain hStash | ⟨b, hb, hBucket⟩ := Inventory.mem_inventory.mp hBlock
  · exact Multiset.mem_coe.mp hStash
  · have hPlaced := hValid.placed b hb block hBucket
    rw [hLeaf, ← hPath] at hPlaced
    obtain ⟨pick, hPick, rfl⟩ := List.mem_map.mp hPlaced
    exact absurd hAddr (hPicks.not_mem_of_found_eq_nil hValid hFound hPick hBucket)

theorem find_stash_eq_some (hDistinct : v.Distinct env.cfg) {block : RingBlock}
    (hBlock : block ∈ v.inventory env.cfg.nodes)
    (hMem : block ∈ v.stash) (hAddr : block.addr = addr) :
    v.stash.find? (fun stashed => stashed.addr == addr) = some block := by
  cases hSearch : v.stash.find? fun stashed => stashed.addr == addr with
  | none =>
    have hNot := List.find?_eq_none.mp hSearch block hMem
    rw [hAddr, beq_self_eq_true] at hNot
    exact absurd rfl hNot
  | some other =>
    have hOther : other.addr = addr := by simpa using List.find?_some hSearch
    have hIn : other ∈ v.inventory env.cfg.nodes := Multiset.mem_of_le Inventory.stash_le_inventory
      (Multiset.mem_coe.mpr (List.mem_of_find?_eq_some hSearch))
    rw [hDistinct.eq_of_addr hIn hBlock (hOther.trans hAddr.symm)]

/-- After the path read and the stash lookup the wanted block is in hand and nowhere else. -/
theorem locateBlock_spec (hAccepted : env.cfg.Accepted) {picks : List Pick} {oldLeaf : UInt64}
    (hPicks : v.Picks env.cfg addr picks) (hPath : picks.map Pick.node = env.cfg.path oldLeaf)
    (hValid : v.Valid env.cfg) (h : Stored env w (v.readPath env.cfg oldLeaf picks))
    (hDistinct : v.Distinct env.cfg) {block : RingBlock}
    (hBlock : block ∈ v.inventory env.cfg.nodes)
    (hAddr : block.addr = addr) (hLeaf : block.leaf = oldLeaf) (newLeaf : UInt64) :
    Returns (locateBlock env addr newLeaf ((v.found picks).head?.map RingBlock.data)) w
      fun located w' => located.data = block.data ∧ ∃ stash, StashOk env.cfg stash ∧
        stash.length ≤ v.stash.length ∧
        Stored env w' { v.readPath env.cfg oldLeaf picks with stash := stash } ∧
        v.inventory env.cfg.nodes = block ::ₘ
          Plain.inventory { v.readPath env.cfg oldLeaf picks with stash := stash }
            env.cfg.nodes := by
  have hInventory : v.inventory env.cfg.nodes = (v.found picks : Multiset RingBlock) +
      (v.readPath env.cfg oldLeaf picks).inventory env.cfg.nodes :=
    Plain.inventory_touchAll hPicks.nodup hPicks.nodes
  have hStash : (v.readPath env.cfg oldLeaf picks).stash = v.stash := by rw [readPath_eq]
  have hOk := h.valid.stash
  have hFew := hPicks.length_found_le hValid hDistinct
  cases hFound : v.found picks with
  | nil =>
    have hMem := mem_stash_of_not_found hPicks hPath hValid hFound hBlock hAddr hLeaf
    have hFind := find_stash_eq_some hDistinct hBlock hMem hAddr
    apply withStash_bind (takeBlockFromStash_spec h.synced (hOk.keepable hAccepted.toShaped) addr)
    rintro _ state ⟨rfl, hSynced⟩
    rw [hStash, hFind]
    rw [hStash] at hSynced hOk
    have hKept : StashOk env.cfg (v.stash.eraseP fun stashed => stashed.addr == addr) :=
      hOk.sublist List.eraseP_sublist
    refine Returns.pure ⟨rfl, _, hKept, List.length_eraseP_le, h.withStash hSynced hKept, ?_⟩
    rw [hInventory, hFound, Multiset.coe_nil, Multiset.zero_add, Plain.inventory, hStash,
      Multiset.coe_eq_coe.mpr (eraseP_perm hFind), ← Multiset.cons_coe, ← Multiset.singleton_add,
      Inventory.inventory_add, Multiset.singleton_add]
    rfl
  | cons other others =>
    rw [hFound, List.length_cons] at hFew
    have hNil : others = [] := List.length_eq_zero_iff.mp (by omega)
    have hOther : other = block := by
      have hIn : other ∈ v.inventory env.cfg.nodes := by
        rw [hInventory, hFound]
        exact Multiset.mem_add.mpr (Or.inl (Multiset.mem_coe.mpr List.mem_cons_self))
      refine hDistinct.eq_of_addr hIn hBlock (Eq.trans ?_ hAddr.symm)
      exact hPicks.addr_of_found hValid (hFound ▸ List.mem_cons_self)
    have hTake : v.inventory env.cfg.nodes =
        block ::ₘ (v.readPath env.cfg oldLeaf picks).inventory env.cfg.nodes := by
      rw [hInventory, hFound, hNil, hOther, Multiset.coe_singleton, Multiset.singleton_add]
    have hFresh : v.stash.filter (fun stashed => stashed.addr != addr) = v.stash := by
      rw [List.filter_eq_self]
      intro stashed hStashed
      rw [bne_iff_ne, ← hAddr]
      have hKeys := hDistinct
      rw [Plain.Distinct, hTake, Multiset.map_cons, Multiset.nodup_cons] at hKeys
      intro hEq
      refine hKeys.1 (hEq ▸ Multiset.mem_map_of_mem _ ?_)
      refine Multiset.mem_of_le Inventory.stash_le_inventory (Multiset.mem_coe.mpr ?_)
      rwa [hStash]
    have hRemove := removeBlockFromStash_spec h.synced (hOk.keepable hAccepted.toShaped) addr
    rw [hStash, hFresh, ← hStash] at hRemove
    apply withStash_bind hRemove
    intro _ state hSynced
    exact Returns.pure ⟨by rw [hOther], _, hOk, (congrArg List.length hStash).le,
      h.withStash hSynced hOk, hTake⟩

theorem getRandomLeaf_spec (hDepth : env.cfg.depth < 63) (tick : Nat) :
    Returns (getRandomLeaf env) tick fun leaf _ => leaf.toNat < 2 ^ env.cfg.depth := by
  have hLeaves := RuntimeConfig.toNat_numLeaves hDepth
  have hPos : 0 < env.cfg.numLeaves.toNat := by
    rw [hLeaves]
    exact Nat.pow_pos (by decide)
  refine (uniformInt_spec env _ tick hPos).bind fun leaf tick' hLeaf => Returns.pure ?_
  rw [UInt64.toNat_ofNat_of_lt' (hLeaf.trans (UInt64.toNat_lt _))]
  exact hLeaves ▸ hLeaf

theorem evictIfDue_spec (hAccepted : env.cfg.Accepted) (h : Stored env w v)
    (hDistinct : v.Distinct env.cfg) :
    Returns (evictIfDue env) w fun _ w' => ∃ v', Stored env w' v' ∧
      v.Tidies env.cfg v' (v.schedule.evictIfDue env.cfg) := by
  have hRound : v.schedule.round = v.round := rfl
  apply Returns.get_bind
  rw [h.round, Schedule.evictIfDue, hRound]
  by_cases hDue : v.round = 0
  · rw [if_pos hDue, if_pos hDue]
    exact evictPath_spec hAccepted h hDistinct
  · rw [if_neg hDue, if_neg hDue]
    exact Returns.pure ⟨v, h, ⟨rfl, rfl, rfl, rfl⟩, le_rfl⟩

/-- The second half of an access: the new block goes to the stash, then the tree is maintained. -/
theorem finishAccess_spec (hAccepted : env.cfg.Accepted) (h : Stored env w v) {block : RingBlock}
    (hHeld : Held env.cfg block)
    (hDistinct : ((block ::ₘ v.inventory env.cfg.nodes).map RingBlock.addr).Nodup)
    (hLeaf : leaf.toNat < 2 ^ env.cfg.depth) :
    Returns (do
      withStash (putBlockInStash env block)
      modify fun world => { world with round := (world.round + 1) % env.cfg.a.toNat }
      evictIfDue env
      earlyReshuffle env leaf
      return block.data) w fun result w' => result = block.data ∧ ∃ v', Stored env w' v' ∧
        v'.inventory env.cfg.nodes = block ::ₘ v.inventory env.cfg.nodes ∧
        v'.stash.length ≤ v.stash.length + 1 ∧ v'.positionMap = v.positionMap ∧
        v'.fabricated = v.fabricated ∧
        v'.schedule = Schedule.earlyReshuffle env.cfg (Schedule.evictIfDue env.cfg
          { v.schedule with round := (v.round + 1) % env.cfg.a.toNat }) leaf := by
  have hFresh : put v.stash block = v.stash ++ [block] := by
    apply put_of_fresh
    intro stashed hStashed hEq
    rw [Multiset.map_cons, Multiset.nodup_cons] at hDistinct
    refine hDistinct.1 (hEq ▸ Multiset.mem_map_of_mem _ ?_)
    exact Multiset.mem_of_le Inventory.stash_le_inventory (Multiset.mem_coe.mpr hStashed)
  have hOk := h.valid.stash
  apply withStash_bind
    (putBlockInStash_spec h.synced (hOk.keepable hAccepted.toShaped) hHeld.addr_ne_dummy
      ((hOk.put hHeld).keepable hAccepted.toShaped))
  intro _ state hSynced
  have hPut := h.withStash hSynced (hOk.put hHeld)
  have hInventory : Plain.inventory { v with
      stash := put v.stash block, round := (v.round + 1) % env.cfg.a.toNat } env.cfg.nodes =
        block ::ₘ v.inventory env.cfg.nodes := by
    rw [Plain.inventory, hFresh, ← Multiset.coe_add, Multiset.coe_singleton, add_comm,
      Inventory.inventory_add, Multiset.singleton_add]
    rfl
  apply Returns.modify_bind
  have hRound : Stored env
      { w with stash := state, round := (w.round + 1) % env.cfg.a.toNat }
      { v with stash := put v.stash block, round := (v.round + 1) % env.cfg.a.toNat } :=
    ⟨⟨hPut.valid.stash, hPut.valid.wellFormed, hPut.valid.counts, hPut.valid.held,
      hPut.valid.placed⟩, hPut.tree,
      hPut.stash, hPut.file, hPut.positionMap,
      congrArg (fun round => (round + 1) % env.cfg.a.toNat) h.round,
      hPut.evictionCounter, hPut.fabricated, hPut.trace, hPut.snapshots⟩
  have hKeys : Plain.Distinct env.cfg
      { v with stash := put v.stash block, round := (v.round + 1) % env.cfg.a.toNat } := by
    rw [Plain.Distinct, hInventory]
    exact hDistinct
  apply (evictIfDue_spec hAccepted hRound hKeys).bind
  rintro _ w₁ ⟨v₁, hEvicted, hTidies⟩
  apply (earlyReshuffle_spec hAccepted hEvicted (hTidies.distinct hKeys) hLeaf).bind
  rintro _ w₂ ⟨v₂, hFinal, hTidies'⟩
  rw [hTidies.schedule] at hTidies'
  have hBoth := hTidies.trans hTidies'
  have hLength : v₂.stash.length ≤ v.stash.length + 1 := by
    refine hBoth.stash.trans_eq ?_
    rw [hFresh, List.length_append, List.length_singleton]
  exact Returns.pure ⟨rfl, v₂, hFinal, hBoth.inventory.trans hInventory, hLength,
    hBoth.positionMap, hBoth.fabricated, hBoth.schedule⟩

/-- An access answers like a RAM and leaves a state that holds the RAM's new contents. -/
theorem access_spec (hAccepted : env.cfg.Accepted) (h : Consistent env w v memory)
    (hAddr : addr < env.cfg.numBlocks) (op : Op) (data : Bytes)
    (hData : op = .write → data.length = env.cfg.blockSize.toNat) :
    Returns (access env op addr data) w fun result w' => result = memory.result op addr data ∧
      ∃ v' leaf, Consistent env w' v' (memory.store op addr data) ∧ leaf.toNat < 2 ^ env.cfg.depth ∧
        v'.schedule = v.schedule.access env.cfg leaf ∧ v'.stash.length ≤ v.stash.length + 1 := by
  obtain ⟨oldLeaf, hMap, hOldLeaf⟩ := h.mapped addr hAddr
  have hOld : (⟨addr, oldLeaf, memory addr⟩ : RingBlock) ∈ v.inventory env.cfg.nodes := by
    have hMem := @blocksOf_mem env.cfg v.positionMap memory addr hAddr
    rwa [hMap, ← h.inventory] at hMem
  have hHeldOld : Held env.cfg ⟨addr, oldLeaf, memory addr⟩ := h.held _ hOld
  refine Returns.check_bind (UInt64.not_le.mpr hAddr) (Returns.check_bind ?_ (Returns.get_bind ?_))
  · exact fun hWrite => hWrite.2 (hData hWrite.1)
  rw [h.stored.positionMap, hMap]
  apply withPrng_bind (getRandomLeaf_spec hAccepted.depth _)
  intro newLeaf prng hNewLeaf
  apply Returns.modify_bind
  have hRemapped : Stored env
      { w with prng := prng, positionMap := Function.update w.positionMap addr (some newLeaf) }
      { v with positionMap := Function.update v.positionMap addr (some newLeaf) } :=
    ⟨⟨h.stored.valid.stash, h.stored.valid.wellFormed, h.stored.valid.counts, h.stored.valid.held,
      h.stored.valid.placed⟩, h.stored.tree, h.stored.stash, h.stored.file,
      congrArg (fun map => Function.update map addr (some newLeaf)) h.stored.positionMap,
      h.stored.round,
      h.stored.evictionCounter, h.stored.fabricated, h.stored.trace, h.stored.snapshots⟩
  apply (readPath_spec hAccepted hRemapped h.distinct h.calm hOldLeaf hHeldOld.addr_ne_dummy).bind
  rintro _ w₁ ⟨picks, hPicks, hPath, rfl, hRead⟩
  apply (locateBlock_spec hAccepted hPicks hPath hRemapped.valid hRead h.distinct hOld
    rfl rfl newLeaf).bind
  rintro located w₂ ⟨hLocated, stash, hStash, hLess, hTaken, hInventory⟩
  have hBlock : (if op = .write then data else located.data) = memory.result op addr data := by
    cases op with
    | read => exact hLocated
    | write => exact (Memory.result_write memory addr data).symm
  have hUpdate := @blocksOf_update env.cfg v.positionMap memory addr
    (Plain.inventory { Plain.readPath env.cfg _ oldLeaf picks with stash := stash } env.cfg.nodes)
    (by rw [hMap, ← h.inventory]; exact hInventory) newLeaf (memory.result op addr data)
  rw [← store_eq_update] at hUpdate
  have hHeld : Held env.cfg ⟨addr, newLeaf, memory.result op addr data⟩ := by
    refine ⟨hAddr, hNewLeaf, ?_⟩
    cases op with
    | read => exact hHeldOld.data
    | write =>
      rw [Memory.result_write]
      exact hData rfl
  rw [hBlock]
  apply (finishAccess_spec hAccepted hTaken hHeld (hUpdate ▸ nodup_addr_blocksOf _ _ _)
    hOldLeaf).mono
  rintro _ w' ⟨rfl, v', hFinal, hContents, hLength, hMap', hFabricated, hSchedule⟩
  have hPositions : v'.positionMap = Function.update v.positionMap addr (some newLeaf) := by
    rw [hMap', readPath_eq]
  have hAccess : v'.schedule = v.schedule.access env.cfg oldLeaf := by
    have hTouched : Plain.schedule { Plain.readPath env.cfg
        { v with positionMap := Function.update v.positionMap addr (some newLeaf) }
          oldLeaf picks with
          stash := stash } = v.schedule.readPath env.cfg oldLeaf :=
          schedule_readPath hPicks.nodup hPath
    have hRound := congrArg Schedule.round hTouched
    rw [hSchedule, hTouched]
    exact congrArg (fun round => Schedule.earlyReshuffle env.cfg (Schedule.evictIfDue env.cfg
      { v.schedule.readPath env.cfg oldLeaf with round := (round + 1) % env.cfg.a.toNat })
        oldLeaf) hRound
  refine ⟨rfl, v', oldLeaf, ⟨hFinal, ?_, ?_, ?_, ?_⟩, hOldLeaf, hAccess,
    hLength.trans (Nat.succ_le_succ hLess)⟩
  · rw [hContents, ← hUpdate, hPositions]
  · rw [hAccess]
    exact h.calm.access hAccepted.depth hAccepted.s hOldLeaf
  · intro other hOther
    rw [hPositions]
    rcases eq_or_ne other addr with rfl | hNe
    · exact ⟨newLeaf, Function.update_self _ _ _, hNewLeaf⟩
    · rw [Function.update_of_ne hNe]
      exact h.mapped other hOther
  · rw [hFabricated, readPath_eq]
    exact h.fabricated

end Access
end OramHub.RingOram
