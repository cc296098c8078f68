import OramHub.RingOram.Runs

/-! # What holds in every reachable state

Every address has one live copy, where the position map says it is, and no bucket can run out of
slots.
-/
namespace OramHub.RingOram
open OramHub.Core OramHub.Program
set_option autoImplicit false

variable {env : Env} {w : World} {v : Plain} {memory : Memory}

section Copies

/-- Bucket `b` of the server's disk, decrypted. -/
def World.bucket (env : Env) (w : World) (b : Nat) : Except Exception RingBucket :=
  match w.server.files b with
  | none => .error (.runtimeError "Ring ORAM bucket file is missing")
  | some bytes => do
    let encrypted ← deserializeEncryptedRingBucket bytes
    decryptBucket env encrypted

/-- A place that can hold a block: a stash entry, or a metadata entry of a bucket. -/
inductive Location
  | stash (k : Nat)
  | slot (b i : Nat)
  deriving DecidableEq, Repr

/-- A live copy of a block. -/
inductive World.Copy (env : Env) (w : World) : Location → RingBlock → Prop
  | stash {k : Nat} {block : RingBlock} :
    w.stash.stash[k]? = some block → w.Copy env (.stash k) block
  | slot {b i : Nat} {bucket : RingBucket} :
    b < env.cfg.numTreeNodes.toNat → w.bucket env b = .ok bucket →
      i < bucket.addrs.length → bucket.valids.getD (bucket.ptrs.getD i 0) false = true →
      w.Copy env (.slot b i) (bucket.entry i)

/-- A bucket lies on the way to `leaf`; the stash has no place in the tree. -/
def Location.OnPath (cfg : RuntimeConfig) (leaf : UInt64) : Location → Prop
  | .stash _ => True
  | .slot b _ => cfg.isBucketOnLeafPath (UInt64.ofNat b) leaf = .ok true

structure SingleLocation (env : Env) (w : World) : Prop where
  stash : ∃ bytes, w.stash.file = some bytes ∧ deserializeRingBlocks bytes = .ok w.stash.stash
  buckets : ∀ b < env.cfg.numTreeNodes.toNat, ∃ bucket, w.bucket env b = .ok bucket
  copies : ∀ addr < env.cfg.numBlocks, ∃ leaf location block, w.positionMap addr = some leaf ∧
    w.Copy env location block ∧ block.addr = addr ∧ block.leaf = leaf ∧
    block.data.length = env.cfg.blockSize.toNat ∧ location.OnPath env.cfg leaf ∧
    ∀ other copy, w.Copy env other copy → copy.addr = addr → other = location

theorem lt_numTreeNodes_iff (hAccepted : env.cfg.Accepted) {b : Nat} :
    b < env.cfg.numTreeNodes.toNat ↔ b ∈ env.cfg.nodes := by
  rw [RuntimeConfig.toNat_numTreeNodes hAccepted.depth, mem_nodes]

theorem Stored.bucket (hAccepted : env.cfg.Accepted) (h : Stored env w v) {b : Nat}
    (hb : b ∈ env.cfg.nodes) :
    ∃ bucket, w.bucket env b = .ok bucket ∧ bucket.SameMetadata (v.bucket b) ∧
      bucket.payload = (v.bucket b).payload := by
  obtain ⟨encrypted, hFile, hSeals⟩ := h.tree.files b hb
  have hWell := h.valid.wellFormed b hb
  obtain ⟨bucket, hDecrypt, hSame⟩ := decryptBucket_spec hSeals hWell hAccepted.slots
  refine ⟨bucket, ?_, hSame⟩
  rw [World.bucket, hFile]
  change (deserializeEncryptedRingBucket (bucketBytes encrypted) >>= decryptBucket env) = _
  rw [deserialize_sealed hAccepted hSeals hWell]
  exact hDecrypt

/-- The places of live blocks in the plain state. -/
inductive Plain.At (cfg : RuntimeConfig) (v : Plain) : Location → RingBlock → Prop
  | stash {k : Nat} {block : RingBlock} : v.stash[k]? = some block → v.At cfg (.stash k) block
  | slot {b i : Nat} : b ∈ cfg.nodes → i ∈ (v.bucket b).liveIndices →
      v.At cfg (.slot b i) ((v.bucket b).entry i)

theorem Stored.copy (hAccepted : env.cfg.Accepted) (h : Stored env w v)
    {location : Location} {block : RingBlock}
    (hAt : v.At env.cfg location block) : w.Copy env location block := by
  cases hAt with
  | stash hGet =>
    refine .stash ?_
    rw [h.stash]
    exact hGet
  | @slot b i hb hi =>
    obtain ⟨bucket, hBucket, hSame, hPayload⟩ := h.bucket hAccepted hb
    rw [← hSame.entry hPayload]
    rw [← hSame.liveIndices, RingBucket.mem_liveIndices] at hi
    exact .slot ((lt_numTreeNodes_iff hAccepted).mpr hb) hBucket hi.1
      (RingBucket.validReal_iff.mp hi.2).2

theorem Stored.at_of_copy (hAccepted : env.cfg.Accepted) (h : Stored env w v) {location : Location}
    {block : RingBlock} (hCopy : w.Copy env location block)
    (hAddr : block.addr < env.cfg.numBlocks) :
    v.At env.cfg location block := by
  cases hCopy with
  | stash hGet =>
    refine .stash ?_
    rw [← h.stash]
    exact hGet
  | @slot b i bucket hb hBucket hi hValid =>
    have hNode := (lt_numTreeNodes_iff hAccepted).mp hb
    obtain ⟨other, hOther, hSame, hPayload⟩ := h.bucket hAccepted hNode
    rw [hBucket] at hOther
    cases hOther
    have hReal : bucket.addrs.getD i kDummyAddress ≠ kDummyAddress := by
      have hNe := ne_dummy_of_lt hAddr
      rw [RingBucket.entry, List.getD_eq_getElem _ _ hi] at hNe
      rwa [List.getD_eq_getElem _ _ hi]
    rw [hSame.entry hPayload]
    refine .slot hNode ?_
    rw [← hSame.liveIndices, RingBucket.mem_liveIndices]
    exact ⟨hi, RingBucket.validReal_iff.mpr ⟨hReal, hValid⟩⟩

theorem Plain.exists_at {block : RingBlock} (h : block ∈ v.inventory env.cfg.nodes) :
    ∃ location, v.At env.cfg location block := by
  obtain hStash | ⟨b, hb, hBucket⟩ := Inventory.mem_inventory.mp h
  · obtain ⟨k, hk⟩ := List.getElem?_of_mem (Multiset.mem_coe.mp hStash)
    exact ⟨.stash k, .stash hk⟩
  · obtain ⟨i, hi, rfl⟩ := List.mem_map.mp (Multiset.mem_coe.mp hBucket)
    exact ⟨.slot b i, .slot hb hi⟩

/-- With distinct addresses, the address of a block decides its place. -/
theorem Plain.Distinct.location_eq (hDistinct : v.Distinct env.cfg) {location other : Location}
    {block copy : RingBlock} (h : v.At env.cfg location block) (h' : v.At env.cfg other copy)
    (hAddr : block.addr = copy.addr) : location = other := by
  cases h with
  | @stash k block hGet =>
    cases h' with
    | @stash k' copy hGet' =>
      have hNodup : (v.stash.map RingBlock.addr).Nodup := by
        rw [← Multiset.coe_nodup, ← Multiset.map_coe]
        exact Inventory.nodup_of_le hDistinct Inventory.stash_le_inventory
      have hLt : k < v.stash.length := (List.getElem?_eq_some_iff.mp hGet).1
      refine congrArg Location.stash ((List.getElem?_inj (by rwa [List.length_map]) hNodup).mp ?_)
      rw [List.getElem?_map, List.getElem?_map, hGet, hGet', Option.map_some,
        Option.map_some, hAddr]
    | slot hb hi =>
      refine absurd hAddr (Inventory.not_mem_contents hDistinct hb
        (Multiset.mem_coe.mpr (List.mem_of_getElem? hGet)) ?_)
      exact Multiset.mem_coe.mpr (List.mem_map_of_mem hi)
  | @slot b i hb hi =>
    have hMem : (v.bucket b).entry i ∈ v.contents b := Multiset.mem_coe.mpr (List.mem_map_of_mem hi)
    cases h' with
    | stash hGet =>
      exact absurd hAddr.symm (Inventory.not_mem_contents hDistinct hb
        (Multiset.mem_coe.mpr (List.mem_of_getElem? hGet)) hMem)
    | @slot b' i' hb' hi' =>
      rcases eq_or_ne b b' with rfl | hNe
      · have hNodup : ((v.contents b).map RingBlock.addr).Nodup :=
          Inventory.nodup_of_le hDistinct (Inventory.contents_le_inventory hb)
        have hKeys : ((v.bucket b).liveIndices.map fun i => ((v.bucket b).entry i).addr).Nodup := by
          rw [Plain.contents, Multiset.map_coe, Multiset.coe_nodup, RingBucket.liveBlocks,
            List.map_map] at hNodup
          exact hNodup
        rw [List.inj_on_of_nodup_map hKeys hi hi' hAddr]
      · have hMem' : (v.bucket b').entry i' ∈ v.contents b' :=
          Multiset.mem_coe.mpr (List.mem_map_of_mem hi')
        exact absurd hAddr (Inventory.contents_disjoint hDistinct hb hb' hNe hMem hMem')

theorem Plain.At.onPath (hAccepted : env.cfg.Accepted) (hValid : v.Valid env.cfg)
    {location : Location}
    {block : RingBlock} (h : v.At env.cfg location block) : location.OnPath env.cfg block.leaf := by
  cases h with
  | stash => exact trivial
  | @slot b i hb hi =>
    have hMem : (v.bucket b).entry i ∈ v.contents b := Multiset.mem_coe.mpr (List.mem_map_of_mem hi)
    have hIndex := toNat_ofNat_node hAccepted hb
    rw [Location.OnPath, RuntimeConfig.isBucketOnLeafPath_eq_ok hAccepted.depth
      (by rw [hIndex]; exact mem_nodes.mp hb) (hValid.held b hb _ hMem).leaf, hIndex]
    exact congrArg Except.ok (decide_eq_true (hValid.placed b hb _ hMem))

theorem Consistent.singleLocation (hAccepted : env.cfg.Accepted) (h : Consistent env w v memory) :
    SingleLocation env w := by
  refine ⟨⟨_, h.stored.file, ?_⟩, fun b hb => ?_, fun addr hAddr => ?_⟩
  · rw [h.stored.stash]
    exact (h.stored.valid.stash.keepable hAccepted.toShaped).deserialize
  · obtain ⟨bucket, hBucket, _⟩ := h.stored.bucket hAccepted ((lt_numTreeNodes_iff hAccepted).mp hb)
    exact ⟨bucket, hBucket⟩
  · obtain ⟨leaf, hMap, _⟩ := h.mapped addr hAddr
    have hMem : (⟨addr, leaf, memory addr⟩ : RingBlock) ∈ v.inventory env.cfg.nodes := by
      have hBlock := @blocksOf_mem env.cfg v.positionMap memory addr hAddr
      rwa [hMap, ← h.inventory] at hBlock
    obtain ⟨location, hAt⟩ := Plain.exists_at hMem
    refine ⟨leaf, location, _, by rw [h.stored.positionMap, hMap],
      h.stored.copy hAccepted hAt, rfl, rfl,
      (h.held _ hMem).data, hAt.onPath hAccepted h.stored.valid, fun other copy hCopy hSame => ?_⟩
    exact h.distinct.location_eq (h.stored.at_of_copy hAccepted hCopy (hSame ▸ hAddr)) hAt hSame

end Copies

/-- In every reachable state each address has exactly one live copy, labelled with the leaf that the
position map holds and stored on the way to it. -/
theorem singleLocation_of_reachable (h : Reachable env w) : SingleLocation env w := by
  obtain ⟨hAccepted, v, memory, hConsistent⟩ := h.consistent
  exact hConsistent.singleLocation hAccepted

theorem exists_reachable_small :
    ∃ start result w, (construct .small).run (World.start none fun _ => none) = .ok () start ∧
    (perform .small (.access .write 1 [7])).run start = .ok result w ∧ Reachable .small w := by
  obtain ⟨_, w, hConstruct, _⟩ := returns_iff.mp (construct_spec accepted_small none fun _ => none)
  obtain ⟨_, v, memory, hConsistent⟩ := (Reachable.start hConstruct).consistent
  have hValid : (Action.access .write 1 [7]).Valid Env.small.cfg := by decide
  obtain ⟨result, w', hRun, _⟩ := returns_iff.mp (perform_spec accepted_small hConsistent hValid)
  exact ⟨w, result, w', hConstruct, hRun, .step (.start hConstruct) hValid hRun⟩

theorem singleLocation_small :
    ∃ start result w, (construct .small).run (World.start none fun _ => none) = .ok () start ∧
    (perform .small (.access .write 1 [7])).run start = .ok result w ∧ SingleLocation .small w := by
  obtain ⟨start, result, w, hConstruct, hRun, hReachable⟩ := exists_reachable_small
  exact ⟨start, result, w, hConstruct, hRun, singleLocation_of_reachable hReachable⟩

section SlotBudget

/-- Between operations every stored bucket counts its touched slots and can be touched once more. -/
def SlotsLeft (env : Env) (w : World) : Prop :=
  ∀ b < env.cfg.numTreeNodes.toNat, ∃ bytes bucket, w.server.files b = some bytes ∧
    deserializeEncryptedRingBucket bytes = .ok bucket ∧
    bucket.count.toNat = bucket.valids.count false ∧
    bucket.count.toNat ≤ env.cfg.s.toNat - 1

theorem Consistent.slotsLeft (hAccepted : env.cfg.Accepted)
    (h : Consistent env w v memory) : SlotsLeft env w := by
  intro b hb
  have hNode := (lt_numTreeNodes_iff hAccepted).mp hb
  obtain ⟨encrypted, hFile, hSeals⟩ := h.stored.tree.files b hNode
  have hWell := h.stored.valid.wellFormed b hNode
  refine ⟨_, encrypted, hFile, deserialize_sealed hAccepted hSeals hWell, ?_, ?_⟩
  · rw [hSeals.count, hSeals.valids, hWell.count]
  · rw [hSeals.count]
    exact Nat.le_sub_one_of_lt (h.calm b hNode List.not_mem_nil)

end SlotBudget

/-- In every reachable state each bucket has a slot to spare, and whatever is done next returns: no
check on either side fails, and after no message has a bucket been touched more than `s` times. -/
theorem slotsLeft_of_reachable (h : Reachable env w) :
    SlotsLeft env w ∧ ∀ action : Action, action.Valid env.cfg →
      Returns (perform env action) w fun _ w' => w'.server.running = true ∧ SlotsLeft env w' ∧
        ∀ event ∈ w'.log, SnapshotOk env.cfg event.files := by
  obtain ⟨hAccepted, v, memory, hConsistent⟩ := h.consistent
  refine ⟨hConsistent.slotsLeft hAccepted, fun action hValid => ?_⟩
  apply (perform_spec hAccepted hConsistent hValid).mono
  rintro _ w' ⟨_, v', hNext, _⟩
  exact ⟨hNext.stored.tree.running, hNext.slotsLeft hAccepted, hNext.stored.snapshots⟩

theorem slotsLeft_small :
    ∃ start result w, (construct .small).run (World.start none fun _ => none) = .ok () start ∧
    (perform .small (.access .write 1 [7])).run start = .ok result w ∧ SlotsLeft .small w ∧
    Returns (perform .small (.access .read 1 [])) w fun _ w' => w'.server.running = true ∧
    SlotsLeft .small w' ∧
      ∀ event ∈ w'.log, SnapshotOk Env.small.cfg event.files := by
  obtain ⟨start, result, w, hConstruct, hRun, hReachable⟩ := exists_reachable_small
  exact ⟨start, result, w, hConstruct, hRun, (slotsLeft_of_reachable hReachable).1,
    (slotsLeft_of_reachable hReachable).2 (.access .read 1 []) (by decide)⟩

end OramHub.RingOram
