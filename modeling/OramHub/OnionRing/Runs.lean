import OramHub.OnionRing.Setup

/-! # Runs of Onion Ring ORAM

Every run that does not throw answers like a RAM of zero blocks. If each bucket could take all
blocks, no run throws.
-/
namespace OramHub.OnionRing
open OramHub.Core OramHub.Program
set_option autoImplicit false

def performCall (env : Env) (call : Call) : OnionM env Bytes :=
  access env call.op call.addr call.data

instance (cfg : RuntimeConfig) (call : Call) : Decidable (ValidCall cfg call) :=
  inferInstanceAs (Decidable (_ ∧ _))

variable {env : Env} {start w w' : World env.Ciphertext} {memory : Memory} {calls : List Call}
  {results : List Bytes}

section Correctness

theorem performCalls_spec (hFeasible : Feasible env.cfg) (h : Coherent env w memory) :
    wp (calls.mapM (performCall env)) w
      (fun results w' => (env.tfhe.Exact → results = memory.results calls) ∧
        Coherent env w' (memory.after calls))
      (fun _ _ => True) := by
  induction calls generalizing w memory with
  | nil => exact wp.pure ⟨fun _ => rfl, h⟩
  | cons call calls ih =>
    rw [List.mapM_cons]
    refine wp.bind (wp_mono (access_spec hFeasible h call) (fun _ _ => id) fun _ _ _ => trivial) ?_
    intro result w' hAccess
    apply wp.bind (ih hAccess.coherent)
    rintro results w'' ⟨hResults, hCoherent⟩
    refine wp.pure ⟨fun hExact => ?_, hCoherent⟩
    rw [hAccess.result_eq hExact, hResults hExact, Memory.results]

theorem coherent_of_run (hSetUp : (setUp env).run {} = .ok () start)
    (hRun : (calls.mapM (performCall env)).run start = .ok results w) :
    Coherent env w ((Memory.zero env.cfg.blockSize.toNat).after calls) := by
  have hReady := setUp_spec.post_of_run hSetUp
  exact ((wp_iff.mp (performCalls_spec hReady.feasible hReady.coherent)).1 _ _ hRun).2

end Correctness

section Agreement

/-- The id map, the position map and the tree of the server agree. -/
structure MapsAgree (env : Env) (w : World env.Ciphertext) (memory : Memory) : Prop where
  once : ∀ b ∈ env.cfg.nodes, ∀ b' ∈ env.cfg.nodes, ∀ (slot slot' : Nat) (id : Int), 0 ≤ id →
    (w.idMap b)[slot]? = some id →
    (w.idMap b')[slot']? = some id → b = b' ∧ slot = slot'
  block : ∀ b ∈ env.cfg.nodes, ∀ (slot : Nat) (id : Int), 0 ≤ id → (w.idMap b)[slot]? = some id →
    (∃ leaf, w.positionMap[id.toNat]? = some leaf ∧ b ∈ getPathIndices env.cfg leaf) ∧
      decryptBlock env.tfhe (slotAt env w.server.tree (b, slot)) env.cfg.blockSize =
        .ok (memory (UInt64.ofNat id.toNat))
  free : ∀ b ∈ env.cfg.nodes, ∀ slot : Nat, (w.idMap b)[slot]? = some (-1) →
    env.tfhe.tLweSymDecrypt (slotAt env w.server.tree (b, slot)) = 0
  rootFree : ∀ call, ValidCall env.cfg call → ∀ oldLeaf selections,
    w.positionMap[call.addr.toNat]? = some oldLeaf →
    selectSlots w.idMap (getPathIndices env.cfg oldLeaf) call.addr = .ok selections →
    ∀ cleared : World env.Ciphertext,
    cleared.idMap = forget w.idMap ((getPathIndices env.cfg oldLeaf).zip selections) →
    findFirstDummySlot (cleared.idMap 0) ≠ (cleared.idMap 0).length ∧
      (chooseRootSlot env call.addr).run cleared =
        .ok (findFirstDummySlot (cleared.idMap 0)) cleared

theorem slot_unique {ids : List Int} {slot slot' : Nat} {id : Int}
    (hNodup : (recorded ids).Nodup) (hId : 0 ≤ id)
    (hGet : ids[slot]? = some id) (hGet' : ids[slot']? = some id) : slot = slot' := by
  by_contra hNe
  have hCleared := recorded_set hGet (-1)
  have hKept : id ∈ ids.set slot (-1) :=
    List.mem_of_getElem? ((List.getElem?_set_ne hNe).trans hGet')
  rw [recorded_dummy, add_zero, recorded_block hId] at hCleared
  rw [← hCleared, Multiset.nodup_add] at hNodup
  exact Multiset.disjoint_left.mp hNodup.2.2 (mem_recorded.mpr ⟨hKept, hId⟩)
    (Multiset.mem_singleton_self id)

theorem Coherent.mapsAgree (hExact : env.tfhe.Exact) (hFeasible : Feasible env.cfg)
    (h : Coherent env w memory) :
    MapsAgree env w memory := by
  constructor
  case once =>
    intro b hb b' hb' slot slot' id hId hGet hGet'
    obtain rfl := h.placement.bucket_unique hb hb' hId (List.mem_of_getElem? hGet)
      (List.mem_of_getElem? hGet')
    exact ⟨rfl, slot_unique (h.placement.nodup_recorded hb) hId hGet hGet'⟩
  case block =>
    intro b hb slot id hId hGet
    have hMem := List.mem_of_getElem? hGet
    constructor
    · obtain rfl | ⟨_, leaf, hLeaf, hPath⟩ := h.placement.placed b hb id hMem
      · exact absurd hId (by decide)
      · have hLt := h.placement.leaves leaf (List.mem_of_getElem? hLeaf)
        exact ⟨leaf, hLeaf, by rwa [getPathIndices_eq (hFeasible.height_lt.trans (by decide)) hLt]⟩
    · have hPlaced : id ∈ placedIds env.cfg w.idMap := mem_placedIds.mpr ⟨b, hb, hMem, hId⟩
      have hSize := h.fits fun hNone => Multiset.notMem_zero id (hNone ▸ hPlaced)
      have hDecrypt := (h.holds b hb).getD hExact (h.lengths hb) hGet
      rw [decryptBlock_eq_ok hSize, slotAt, hDecrypt, content, if_pos hId,
        decodeBlock_message (h.sizes _) hSize]
  case free =>
    intro b hb slot hGet
    exact ((h.holds b hb).getD hExact (h.lengths hb) hGet).trans (content_dummy _ memory)
  case rootFree =>
    intro call hValid oldLeaf selections hPosition hSelect cleared hIdMap
    have hSmall : call.addr.toNat < 2 ^ 63 :=
      (UInt64.lt_iff_toNat_lt.mp hValid.1).trans hFeasible.blocks_lt
    have hLeaf := h.placement.leaves oldLeaf (List.mem_of_getElem? hPosition)
    rw [getPathIndices_eq (hFeasible.height_lt.trans (by decide)) hLeaf] at hSelect hIdMap
    have hUnplaced := h.placement.unplaced_forget hSmall hPosition hLeaf hSelect
    have hFree := dummy_mem_root hLeaf hSmall hSelect
    rw [← hIdMap] at hUnplaced hFree
    refine ⟨findSlot_ne_length.mpr hFree, ?_⟩
    obtain ⟨_, _, hRun, rfl, rfl⟩ :=
      returns_iff.mp (@chooseRootSlot_spec env cleared call.addr hSmall
        (hUnplaced 0 (root_mem_nodes _)) hFree)
    exact hRun

end Agreement

section Capacity

variable {addr leaf : UInt64} {ids : List Int}

theorem selectSlot_of_mem (hAddr : addr.toNat < 2 ^ 63) (h : (addr.toNat : Int) ∈ ids ∨ -1 ∈ ids) :
    ∃ slot, selectSlot ids addr = .ok slot := by
  by_cases hMem : (addr.toNat : Int) ∈ ids
  · have hFound : findSlot ids addr.toNat ≠ ids.length := findSlot_ne_length.mpr hMem
    refine ⟨findSlot ids addr.toNat, ?_⟩
    simp only [selectSlot, toBlockId_of_lt hAddr, if_neg hFound]
  · have hMissing : findSlot ids addr.toNat = ids.length :=
      not_not.mp fun hNe => hMem (findSlot_ne_length.mp hNe)
    have hFree : findFirstDummySlot ids ≠ ids.length := findSlot_ne_length.mpr (h.resolve_left hMem)
    refine ⟨findFirstDummySlot ids, ?_⟩
    simp only [selectSlot, toBlockId_of_lt hAddr, if_pos hMissing, if_neg hFree]

/-- A bucket without a free slot holds as many blocks as it has slots. -/
theorem Placement.mem_or_free {cfg : RuntimeConfig} {idMap : Nat → List Int}
    {positionMap : List UInt64}
    (h : Placement cfg idMap positionMap) (hCapacity : cfg.numBlocks ≤ cfg.bucketSlots)
    (hAddr : addr < cfg.numBlocks)
    {b : Nat} (hb : b ∈ cfg.nodes) : (addr.toNat : Int) ∈ idMap b ∨ -1 ∈ idMap b := by
  by_contra hNone
  rw [not_or] at hNone
  have hLive : ∀ id ∈ idMap b, 0 ≤ id := fun id hId =>
    (h.placed b hb id hId).elim (fun hDummy => absurd (hDummy ▸ hId) hNone.2) And.left
  have hAll : recorded (idMap b) = idMap b :=
    congrArg Multiset.ofList (List.filter_eq_self.mpr fun id hId => decide_eq_true (hLive id hId))
  have hCard : (recorded (idMap b)).card ≤
      ((Finset.range cfg.numBlocks.toNat).erase addr.toNat).card := by
    apply card_le_of_nodup (h.nodup_recorded hb)
    intro id hId
    obtain ⟨hMem, hId⟩ := mem_recorded.mp hId
    refine ⟨hId, Finset.mem_erase.mpr ⟨fun hEq => hNone.1 ?_,
      Finset.mem_range.mpr (h.lt_numBlocks hb hMem hId)⟩⟩
    rwa [← hEq, Int.toNat_of_nonneg hId]
  have hAddrLt := UInt64.lt_iff_toNat_lt.mp hAddr
  have hSlots : cfg.numBlocks.toNat ≤ cfg.slots := UInt64.le_iff_toNat_le.mp hCapacity
  rw [hAll, Multiset.coe_card, h.rows b hb, Finset.card_erase_of_mem (Finset.mem_range.mpr hAddrLt),
    Finset.card_range] at hCard
  omega

theorem access_returns (hFeasible : Feasible env.cfg) (h : Coherent env w memory)
    (hCapacity : env.cfg.numBlocks ≤ env.cfg.bucketSlots)
    (hSize : env.cfg.blockSize.toNat ≤ env.cfg.tlweN) {call : Call}
    (hValid : ValidCall env.cfg call) :
    Returns (performCall env call) w (Accessed env w memory call) := by
  apply wp_mono (access_spec hFeasible h call) (fun _ _ => id)
  intro e w' hFailed
  have hSmall : call.addr.toNat < 2 ^ 63 :=
    (UInt64.lt_iff_toNat_lt.mp hValid.1).trans hFeasible.blocks_lt
  cases hFailed with
  | refused hInvalid => exact hInvalid hValid
  | unselected _ hPosition hNone =>
    have hLeaf := h.placement.leaves _ (List.mem_of_getElem? hPosition)
    obtain ⟨selections, hSelect⟩ :=
      exists_mapM_eq_ok (f := fun b => selectSlot (w.idMap b) call.addr) fun b hb =>
      selectSlot_of_mem hSmall
        (h.placement.mem_or_free hCapacity hValid.1 (mem_nodes_of_mem_path hLeaf hb))
    exact hNone selections hSelect
  | tooLarge hLarge => exact absurd hSize (Nat.not_le.mpr hLarge)
  | overflow _ hSlots => exact absurd (UInt64.le_iff_toNat_le.mp hCapacity) (Nat.not_le.mpr hSlots)

theorem performCalls_return (hFeasible : Feasible env.cfg) (h : Coherent env w memory)
    (hCapacity : env.cfg.numBlocks ≤ env.cfg.bucketSlots)
    (hSize : env.cfg.blockSize.toNat ≤ env.cfg.tlweN)
    (hValid : ∀ call ∈ calls, ValidCall env.cfg call) :
    ∃ results w', (calls.mapM (performCall env)).run w = .ok results w' := by
  suffices hReturns : Returns (calls.mapM (performCall env)) w fun _ _ => True by
    obtain ⟨results, w', hRun, _⟩ := returns_iff.mp hReturns
    exact ⟨results, w', hRun⟩
  induction calls generalizing w memory with
  | nil => exact Returns.pure trivial
  | cons call calls ih =>
    rw [List.mapM_cons]
    apply (access_returns hFeasible h hCapacity hSize (hValid call List.mem_cons_self)).bind
    intro result w' hAccess
    refine (ih hAccess.coherent fun other hOther =>
      hValid other (List.mem_cons_of_mem _ hOther)).bind fun _ _ _ => ?_
    exact Returns.pure trivial

end Capacity

section Small

/-- Two leaves, three slots in a bucket, three blocks and an eviction after every other access. -/
def Env.small : Env where
  cfg := { z := 2, s := 1, a := 2, treeHeight := 1, numBlocks := 3, blockSize := 2, tlweN := 4 }
  entropy := ⟨fun tick => tick, fun _ _ => Equiv.refl _, fun _ => Vector.replicate 16 0⟩
  tfhe := Tfhe.plain 4

theorem setUp_small : ∃ start, (setUp .small).run {} = .ok () start := by
  have hAccepted : Accepted Env.small.cfg := ⟨by decide, by decide, by decide, by decide⟩
  obtain ⟨_, start, hRun, _⟩ := returns_iff.mp (setUp_spec.returns hAccepted)
  exact ⟨start, hRun⟩

def smallCalls : List Call :=
  [⟨.read, 1, []⟩, ⟨.write, 0, [5, 6]⟩, ⟨.write, 2, [7, 7]⟩, ⟨.read, 0, []⟩]

theorem run_small : ∃ start results w, (setUp .small).run {} = .ok () start ∧
    (smallCalls.mapM (performCall .small)).run start = .ok results w := by
  obtain ⟨start, hSetUp⟩ := setUp_small
  have hReady := setUp_spec.post_of_run hSetUp
  obtain ⟨results, w, hRun⟩ :=
    @performCalls_return _ _ _ smallCalls hReady.feasible hReady.coherent (by decide)
      (by decide) (by decide)
  exact ⟨start, results, w, hSetUp, hRun⟩

end Small

section Results

/-- A run that does not throw answers like a RAM. -/
theorem results_eq_of_run (hExact : env.tfhe.Exact) (hSetUp : (setUp env).run {} = .ok () start)
    (hRun : (calls.mapM (performCall env)).run start = .ok results w) :
    results = (Memory.zero env.cfg.blockSize.toNat).results calls := by
  have hReady := setUp_spec.post_of_run hSetUp
  exact ((wp_iff.mp (performCalls_spec hReady.feasible hReady.coherent)).1 _ _ hRun).1 hExact

theorem results_eq_small : ∃ start results w, (setUp .small).run {} = .ok () start ∧
    (smallCalls.mapM (performCall .small)).run start = .ok results w ∧
    results = [[0, 0], [5, 6], [7, 7], [5, 6]] := by
  obtain ⟨start, results, w, hSetUp, hRun⟩ := run_small
  exact ⟨start, results, w, hSetUp, hRun, results_eq_of_run (Tfhe.plain_exact 4) hSetUp hRun⟩

/-- The maps agree after every run that does not throw. -/
theorem mapsAgree_of_run (hExact : env.tfhe.Exact) (hSetUp : (setUp env).run {} = .ok () start)
    (hRun : (calls.mapM (performCall env)).run start = .ok results w) :
    MapsAgree env w ((Memory.zero env.cfg.blockSize.toNat).after calls) :=
  (coherent_of_run hSetUp hRun).mapsAgree hExact (setUp_spec.post_of_run hSetUp).feasible

theorem mapsAgree_small : ∃ start results w, (setUp .small).run {} = .ok () start ∧
    (smallCalls.mapM (performCall .small)).run start = .ok results w ∧
    MapsAgree .small w ((Memory.zero 2).after smallCalls) := by
  obtain ⟨start, results, w, hSetUp, hRun⟩ := run_small
  exact ⟨start, results, w, hSetUp, hRun, mapsAgree_of_run (Tfhe.plain_exact 4) hSetUp hRun⟩

/-- If a bucket can take all blocks, no access ever throws. -/
theorem run_returns (hSetUp : (setUp env).run {} = .ok () start)
    (hCapacity : env.cfg.numBlocks ≤ env.cfg.bucketSlots)
    (hSize : env.cfg.blockSize.toNat ≤ env.cfg.tlweN)
    (hValid : ∀ call ∈ calls, ValidCall env.cfg call) :
    ∃ results w, (calls.mapM (performCall env)).run start = .ok results w := by
  have hReady := setUp_spec.post_of_run hSetUp
  exact performCalls_return hReady.feasible hReady.coherent hCapacity hSize hValid

theorem run_returns_small : ∃ start, (setUp .small).run {} = .ok () start ∧
    ∃ results w, (smallCalls.mapM (performCall .small)).run start = .ok results w := by
  obtain ⟨start, hSetUp⟩ := setUp_small
  exact ⟨start, hSetUp, run_returns hSetUp (by decide) (by decide) (by decide)⟩

end Results
end OramHub.OnionRing
