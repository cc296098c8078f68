import OramHub.PathOram.PathTransfer

/-! # Accesses

Between two accesses the real blocks of stash and tree are the blocks that have been stored so far,
each under one id and on the path of its leaf.
-/
namespace OramHub.PathOram
open OramHub.Core OramHub.Program OramHub.Inventory
set_option autoImplicit false

variable {env : Env} {w : World} {v : Plain} {addr oldLeaf newLeaf : UInt64}
  {op : Op} {data : Bytes}

namespace Plain

/-- The state after the path of `oldLeaf` has been read and the stash has been served. -/
def serve (env : Env) (v : Plain) (op : Op) (addr : UInt64) (data : Bytes)
    (oldLeaf newLeaf : UInt64) : Plain :=
  { v.readPath env oldLeaf with
    positionMap := v.positionMap.set addr.toNat newLeaf
    stash := (serveFromStash (v.readPath env oldLeaf).stash op addr data).2 }

def contents (v : Plain) (b : Nat) : Multiset Block := reals (v.bucket b)

/-- All real blocks of the stash and the active buckets. -/
def inventory (v : Plain) (active : Finset Nat) : Multiset Block :=
  Inventory.inventory v.stash v.contents active

end Plain

theorem getRandomLeaf_spec (hLeaves : w.numLeaves.toNat = 2 ^ env.height) :
    Returns (getRandomLeaf env) w fun leaf w' =>
      leaf.toNat < 2 ^ env.height ∧ w' = { w with prng := w.prng + 1 } := by
  have hPos : 0 < w.numLeaves.toNat := hLeaves ▸ Nat.pow_pos (by decide)
  refine Returns.get_bind (Returns.set_bind (Returns.pure ⟨?_, rfl⟩))
  have hLt : env.entropy.draw w.prng % w.numLeaves.toNat < w.numLeaves.toNat := Nat.mod_lt _ hPos
  rw [UInt64.toNat_ofNat_of_lt' (hLt.trans (UInt64.toNat_lt _)), ← hLeaves]
  exact hLt

/-- An access reads a path, serves the call from the stash and then writes the path back. -/
theorem access_served (hHeight : env.height < 63) (h : Stored env w v)
    (hFits : ∀ b ∈ env.nodes, Fits (v.bucket b))
    (hPosition : v.positionMap[addr.toNat]? = some oldLeaf) (hLeaf : oldLeaf.toNat < 2 ^ env.height)
    {post : Bytes → World → Prop} {raised : Exception → World → Prop}
    (hNext : ∀ newLeaf w', newLeaf.toNat < 2 ^ env.height →
      Stored env w' (v.serve env op addr data oldLeaf newLeaf) →
      wp (writePath env oldLeaf) w'
        (fun _ => post (serveFromStash (v.readPath env oldLeaf).stash op addr data).1) raised) :
    wp (access env op addr data) w post raised := by
  have hRead : readPosition w.positionMap addr = .ok oldLeaf := by
    rw [readPosition, h.positionMap, hPosition]
  refine wp.get_bind (wp.ok_bind hRead ((getRandomLeaf_spec h.numLeaves).outcome_bind ?_))
  rintro newLeaf _ ⟨hNewLeaf, rfl⟩
  apply wp.modify_bind
  have hRemapped : Stored env
      { w with prng := w.prng + 1, positionMap := w.positionMap.set addr.toNat newLeaf }
      { v with positionMap := v.positionMap.set addr.toNat newLeaf } :=
    ⟨h.tree, h.numLeaves, h.stash,
      congrArg (fun positions => positions.set addr.toNat newLeaf) h.positionMap, h.trace⟩
  apply (readPath_spec hHeight hRemapped hFits hLeaf).outcome_bind
  rintro _ w' hStored
  apply wp.get_bind
  rw [hStored.stash]
  apply wp.modify_bind
  have hReady : Stored env
      { w' with stash := (serveFromStash (v.readPath env oldLeaf).stash op addr data).2 }
      (v.serve env op addr data oldLeaf newLeaf) :=
    ⟨hStored.tree, hStored.numLeaves, rfl, hStored.positionMap, hStored.trace⟩
  exact wp.bind (hNext newLeaf _ hNewLeaf hReady) fun _ _ => wp.pure

theorem access_run (hHeight : env.height < 63) (h : Stored env w v)
    (hFits : ∀ b ∈ env.nodes, Fits (v.bucket b))
    (hPosition : v.positionMap[addr.toNat]? = some oldLeaf) (hLeaf : oldLeaf.toNat < 2 ^ env.height)
    (hServed : ∀ newLeaf, ∀ block ∈ (v.serve env op addr data oldLeaf newLeaf).stash,
      block.id.toNat < v.positionMap.length ∧ block.Sized) :
    Returns (access env op addr data) w fun result w' => ∃ newLeaf contents kept,
      result = (serveFromStash (v.readPath env oldLeaf).stash op addr data).1 ∧
      newLeaf.toNat < 2 ^ env.height ∧
      Evicted (v.positionMap.set addr.toNat newLeaf) oldLeaf (env.height + 1)
        (v.serve env op addr data oldLeaf newLeaf).stash contents kept ∧
      Stored env w' ((v.serve env op addr data oldLeaf newLeaf).writePath env
        oldLeaf contents kept) := by
  refine access_served hHeight h hFits hPosition hLeaf fun newLeaf w' hNewLeaf hReady => ?_
  refine (writePath_spec hHeight hReady (fun block hBlock => ?_) (fun block hBlock =>
    (hServed _ _ hBlock).2) hLeaf).mono ?_
  · rw [Plain.serve, List.length_set]
    exact (hServed newLeaf _ hBlock).1
  · rintro _ w'' ⟨contents, kept, hEvicted, hFinal⟩
    exact ⟨newLeaf, contents, kept, rfl, hNewLeaf, hEvicted, hFinal⟩

section Transfer

variable {leaf : UInt64} {contents : List (List Block)} {kept : List Block}
  {positionMap : List UInt64}

theorem bucket_writePath_of_not_mem (hHeight : env.height < 63)
    (hLeaf : leaf.toNat < 2 ^ env.height) {b : Nat} (hb : b ∉ env.path leaf) :
    (v.writePath env leaf contents kept).bucket b = v.bucket b := by
  refine replaceBuckets_of_not_mem fun hMem => hb ?_
  obtain ⟨write, hWrite, rfl⟩ := List.mem_map.mp hMem
  rw [← map_toNat_indices hHeight hLeaf]
  exact List.mem_map_of_mem (List.of_mem_zip hWrite).1

theorem map_bucket_writePath (hHeight : env.height < 63) (hLeaf : leaf.toNat < 2 ^ env.height)
    (hLength : contents.length = env.height + 1) :
    (env.path leaf).map (v.writePath env leaf contents kept).bucket = contents.map padded := by
  have hPath := map_toNat_indices hHeight hLeaf
  have hNodup := nodup_path hLeaf
  have hSame : (env.indices leaf).length = (contents.map padded).length := by
    rw [length_indices, List.length_map, hLength]
  rw [← hPath] at hNodup ⊢
  rw [List.map_map]
  exact map_replaceBuckets hNodup hSame

theorem getElem?_path (env : Env) (leaf : UInt64) {i : Nat} (hi : i ≤ env.height) :
    (env.path leaf)[i]? = some (HeapTree.node env.height leaf.toNat (env.height - i)) := by
  have hLength := HeapTree.length_path env.height leaf.toNat
  rw [Env.path, List.getElem?_reverse (by omega), hLength, HeapTree.path, List.getElem?_map,
    List.getElem?_range (by omega)]
  exact congrArg (fun level => some (HeapTree.node env.height leaf.toNat level)) (by omega)

/-- A path write leaves a bucket alone or fills it with evicted blocks and dummies. -/
theorem bucket_writePath_cases (hHeight : env.height < 63) (hLeaf : leaf.toNat < 2 ^ env.height)
    (hLength : contents.length = env.height + 1) (b : Nat) :
    b ∉ env.path leaf ∧ (v.writePath env leaf contents kept).bucket b = v.bucket b ∨
      ∃ i ≤ env.height, b = HeapTree.node env.height leaf.toNat (env.height - i) ∧
      ∃ blocks ∈ contents,
        contents.getD i [] = blocks ∧
        (v.writePath env leaf contents kept).bucket b = padded blocks := by
  by_cases hb : b ∈ env.path leaf
  · right
    obtain ⟨i, hi, rfl⟩ := List.getElem_of_mem hb
    have hPath := length_path env leaf
    have hi' : i < contents.length := by omega
    have hNode := @getElem?_path env leaf i (by omega)
    rw [List.getElem?_eq_getElem hi, Option.some_inj] at hNode
    refine ⟨i, by omega, hNode, contents[i], List.getElem_mem hi', List.getD_eq_getElem _ _ hi', ?_⟩
    have hMap := congrArg (fun buckets => buckets[i]?)
      (@map_bucket_writePath env v leaf contents kept hHeight hLeaf hLength)
    simp only [List.getElem?_map, List.getElem?_eq_getElem hi,
      List.getElem?_eq_getElem hi', Option.map_some, Option.some_inj] at hMap
    exact hMap
  · exact Or.inl ⟨hb, bucket_writePath_of_not_mem hHeight hLeaf hb⟩

theorem reals_eq_self {blocks : List Block}
    (h : ∀ block ∈ blocks, block.id ≠ kDummyId) : reals blocks = blocks :=
  List.filter_eq_self.mpr fun block hBlock => bne_iff_ne.mpr (h block hBlock)

theorem reals_padded (blocks : List Block) : reals (padded blocks) = reals blocks := by
  rw [padded, reals, List.filter_append, reals]
  refine (congrArg _ (List.filter_eq_nil_iff.mpr fun block hBlock => ?_)).trans (List.append_nil _)
  rw [(List.mem_replicate.mp hBlock).2]
  decide

theorem Plain.inventory_readPath (hLeaf : leaf.toNat < 2 ^ env.height) :
    Inventory.inventory (v.readPath env leaf).stash v.contents
      (env.nodes \ (env.path leaf).toFinset) =
      v.inventory env.nodes := by
  have hSubset : (env.path leaf).toFinset ⊆ env.nodes := fun b hb =>
    mem_nodes_of_mem_path hLeaf (List.mem_toFinset.mp hb)
  rw [Plain.inventory, ← inventory_takeAll hSubset, Plain.readPath, ← Multiset.coe_add,
    coe_flatMap _ (nodup_path hLeaf)]
  rfl

theorem Plain.inventory_writePath (hHeight : env.height < 63) (hLeaf : leaf.toNat < 2 ^ env.height)
    (hEvicted : Evicted positionMap leaf (env.height + 1) v.stash contents kept)
    (hReal : ∀ block ∈ v.stash, block.id ≠ kDummyId) :
    (v.writePath env leaf contents kept).inventory env.nodes =
      Inventory.inventory v.stash v.contents (env.nodes \ (env.path leaf).toFinset) := by
  have hSubset : (env.path leaf).toFinset ⊆ env.nodes := fun b hb =>
    mem_nodes_of_mem_path hLeaf (List.mem_toFinset.mp hb)
  have hOff : ∀ b ∈ env.nodes \ (env.path leaf).toFinset,
      (v.writePath env leaf contents kept).contents b = v.contents b := by
    intro b hb
    rw [Finset.mem_sdiff, List.mem_toFinset] at hb
    rw [Plain.contents, bucket_writePath_of_not_mem hHeight hLeaf hb.2]
    rfl
  have hOn : (env.path leaf).flatMap
      (fun b => reals ((v.writePath env leaf contents kept).bucket b)) =
      contents.flatten := by
    have hMap := congrArg (fun buckets => (buckets.map reals).flatten)
      (@map_bucket_writePath env v leaf contents kept hHeight hLeaf hEvicted.length)
    simp only [List.map_map] at hMap
    refine hMap.trans
      (congrArg List.flatten ((List.map_congr_left fun blocks hBlocks => ?_).trans (List.map_id _)))
    refine (reals_padded blocks).trans (reals_eq_self fun block hBlock => hReal block ?_)
    exact hEvicted.perm.subset
      (List.mem_append_left _ (List.mem_flatten.mpr ⟨blocks, hBlocks, hBlock⟩))
  have hMoved : ((v.writePath env leaf contents kept).stash : Multiset Block) +
      ∑ b ∈ (env.path leaf).toFinset,
      (v.writePath env leaf contents kept).contents b = v.stash := by
    have hSum := coe_flatMap (fun b => reals ((v.writePath env leaf contents kept).bucket b))
      (nodup_path hLeaf)
    rw [hOn] at hSum
    change (kept : Multiset Block) + ∑ b ∈ (env.path leaf).toFinset, _ = _
    rw [← Multiset.coe_eq_coe.mpr hEvicted.perm, ← Multiset.coe_add, hSum, add_comm]
    rfl
  rw [Plain.inventory, ← inventory_takeAll hSubset, inventory_congr hOff, hMoved]

end Transfer

/-- The state between two accesses, when `stored` tells which data is stored under which id. -/
structure Consistent (env : Env) (v : Plain) (stored : UInt64 → Option Bytes) : Prop where
  fits : ∀ b ∈ env.nodes, Fits (v.bucket b)
  full : ∀ b ∈ env.nodes, (v.bucket b).length = kBucketSize
  sized : ∀ block ∈ v.stash, block.Sized
  inventory : ∀ block, block ∈ v.inventory env.nodes ↔ stored block.id = some block.data
  distinct : ((v.inventory env.nodes).map Block.id).Nodup
  bounded : ∀ addr, stored addr ≠ none → addr < env.numBlocks
  placed : ∀ b ∈ env.nodes, ∀ block ∈ v.contents b, ∃ leaf,
    v.positionMap[block.id.toNat]? = some leaf ∧ b ∈ env.path leaf
  positions : v.positionMap.length = env.numBlocks.toNat
  leaves : ∀ leaf ∈ v.positionMap, leaf.toNat < 2 ^ env.height

/-- What a RAM holds when only `stored` has been stored. -/
def memoryOf (stored : UInt64 → Option Bytes) : Memory :=
  fun addr => (stored addr).getD (List.replicate kBlockSize 0)

def storedAfter (stored : UInt64 → Option Bytes) (op : Op) (addr : UInt64)
    (data : Bytes) : UInt64 → Option Bytes :=
  match op with
  | .read => stored
  | .write => Function.update stored addr (some data)

/-- The blocks of the inventory after an access. -/
def itemsAfter (items : Multiset Block) (op : Op) (addr : UInt64) (data : Bytes) : Multiset Block :=
  match op with
  | .read => items
  | .write => ⟨addr, data⟩ ::ₘ items.filter fun block => block.id ≠ addr

theorem mem_itemsAfter {items : Multiset Block} {stored : UInt64 → Option Bytes}
    (h : ∀ block, block ∈ items ↔ stored block.id = some block.data) (op : Op)
    (addr : UInt64) (data : Bytes) (block : Block) :
    block ∈ itemsAfter items op addr data ↔
      storedAfter stored op addr data block.id = some block.data := by
  cases op with
  | read => exact h block
  | write =>
    rw [itemsAfter, storedAfter, Multiset.mem_cons, Multiset.mem_filter, h]
    rcases eq_or_ne block.id addr with hId | hNe
    · rw [hId, Function.update_self, Option.some_inj]
      refine ⟨fun hMem => ?_, fun hData => Or.inl ?_⟩
      · rw [hMem.resolve_right fun hOld => hOld.2 rfl]
      · rw [hData, ← hId]
    · rw [Function.update_of_ne hNe]
      refine ⟨fun hMem => (hMem.resolve_left ?_).1, fun hOld => Or.inr ⟨hOld, hNe⟩⟩
      rintro rfl
      exact hNe rfl

theorem nodup_itemsAfter {items : Multiset Block} (h : (items.map Block.id).Nodup)
    (op : Op) (addr : UInt64)
    (data : Bytes) : ((itemsAfter items op addr data).map Block.id).Nodup := by
  cases op with
  | read => exact h
  | write =>
    rw [itemsAfter, Multiset.map_cons, Multiset.nodup_cons]
    refine ⟨fun hMem => ?_, Multiset.nodup_of_le (Multiset.map_le_map (Multiset.filter_le _ _)) h⟩
    obtain ⟨block, hBlock, hId⟩ := Multiset.mem_map.mp hMem
    exact (Multiset.mem_filter.mp hBlock).2 hId

theorem memoryOf_storedAfter (stored : UInt64 → Option Bytes) (op : Op)
    (addr : UInt64) (data : Bytes) :
    memoryOf (storedAfter stored op addr data) = (memoryOf stored).store op addr data := by
  cases op with
  | read => rfl
  | write =>
    funext other
    rcases eq_or_ne other addr with rfl | hNe
    · simp [memoryOf, storedAfter, Memory.store]
    · simp [memoryOf, storedAfter, Memory.store, hNe]

theorem ne_dummy_of_lt {addr bound : UInt64} (h : addr < bound) : addr ≠ kDummyId := by
  intro hEq
  have hLt := UInt64.lt_iff_toNat_lt.mp h
  have hSize := UInt64.toNat_lt bound
  rw [hEq, show kDummyId.toNat = 2 ^ 64 - 1 from rfl] at hLt
  omega

namespace Consistent

variable {stored : UInt64 → Option Bytes}

theorem mapped (h : Consistent env v stored) (hAddr : addr < env.numBlocks) :
    ∃ leaf, v.positionMap[addr.toNat]? = some leaf ∧ leaf.toNat < 2 ^ env.height := by
  have hLt : addr.toNat < v.positionMap.length := h.positions ▸ UInt64.lt_iff_toNat_lt.mp hAddr
  exact ⟨_, List.getElem?_eq_getElem hLt, h.leaves _ (List.getElem_mem hLt)⟩

theorem lt_of_mem (h : Consistent env v stored) {block : Block}
    (hBlock : block ∈ v.inventory env.nodes) :
    block.id < env.numBlocks := by
  apply h.bounded _
  rw [(h.inventory block).mp hBlock]
  exact Option.some_ne_none _

/-- Once its path has been read, a block of the tree is in the stash. -/
theorem not_mem_rest (h : Consistent env v stored)
    (hPosition : v.positionMap[addr.toNat]? = some oldLeaf) {b : Nat}
    (hb : b ∈ env.nodes \ (env.path oldLeaf).toFinset) {block : Block}
    (hBlock : block ∈ v.contents b) :
    block.id ≠ addr := by
  rw [Finset.mem_sdiff, List.mem_toFinset] at hb
  rintro rfl
  obtain ⟨leaf, hLeaf, hPath⟩ := h.placed b hb.1 block hBlock
  rw [hPosition, Option.some_inj] at hLeaf
  exact hb.2 (hLeaf ▸ hPath)

theorem mem_readPath (h : Consistent env v stored)
    (hPosition : v.positionMap[addr.toNat]? = some oldLeaf)
    (hLeaf : oldLeaf.toNat < 2 ^ env.height) {block : Block} (hId : block.id = addr) :
    block ∈ (v.readPath env oldLeaf).stash ↔ stored addr = some block.data := by
  rw [← hId, ← h.inventory block, ← Plain.inventory_readPath hLeaf,
    Inventory.mem_inventory, Multiset.mem_coe]
  refine ⟨Or.inl, fun hMem => hMem.resolve_right ?_⟩
  rintro ⟨b, hb, hBlock⟩
  exact h.not_mem_rest hPosition hb hBlock hId

theorem find_readPath (h : Consistent env v stored)
    (hPosition : v.positionMap[addr.toNat]? = some oldLeaf)
    (hLeaf : oldLeaf.toNat < 2 ^ env.height) :
    findBlockInStash (v.readPath env oldLeaf).stash addr = (stored addr).map fun data =>
      ⟨addr, data⟩ := by
  cases hFind : findBlockInStash (v.readPath env oldLeaf).stash addr with
  | some block =>
    have hId : block.id = addr := by simpa using List.find?_some hFind
    rw [(h.mem_readPath hPosition hLeaf hId).mp (List.mem_of_find?_eq_some hFind),
      Option.map_some, ← hId]
  | none =>
    cases hStored : stored addr with
    | none => rfl
    | some found =>
      have hMem := (@mem_readPath env v addr oldLeaf stored h hPosition hLeaf ⟨addr, found⟩ rfl).mpr
        hStored
      exact absurd (beq_self_eq_true addr) (List.find?_eq_none.mp hFind _ hMem)

theorem result_eq (h : Consistent env v stored)
    (hPosition : v.positionMap[addr.toNat]? = some oldLeaf)
    (hLeaf : oldLeaf.toNat < 2 ^ env.height) (op : Op) (data : Bytes) :
    (serveFromStash (v.readPath env oldLeaf).stash op addr data).1 =
      (memoryOf stored).result op addr data := by
  cases op with
  | read =>
    rw [serveFromStash, h.find_readPath hPosition hLeaf, Memory.result_read, memoryOf]
    cases stored addr <;> rfl
  | write => exact (Memory.result_write _ _ _).symm

theorem stash_write (h : Consistent env v stored)
    (hPosition : v.positionMap[addr.toNat]? = some oldLeaf)
    (hLeaf : oldLeaf.toNat < 2 ^ env.height) (data : Bytes) (newLeaf : UInt64) :
    (v.serve env .write addr data oldLeaf newLeaf).stash =
      removeBlockFromStash (v.readPath env oldLeaf).stash addr ++ [⟨addr, data⟩] := by
  rw [Plain.serve, serveFromStash, h.find_readPath hPosition hLeaf]
  cases hStored : stored addr with
  | some found => rfl
  | none =>
    refine congrArg (· ++ [_]) (List.filter_eq_self.mpr fun block hBlock =>
      bne_iff_ne.mpr fun hId => ?_).symm
    have hSome := (h.mem_readPath hPosition hLeaf hId).mp hBlock
    rw [hStored] at hSome
    cases hSome

theorem inventory_serve (h : Consistent env v stored)
    (hPosition : v.positionMap[addr.toNat]? = some oldLeaf)
    (hLeaf : oldLeaf.toNat < 2 ^ env.height) (op : Op) (data : Bytes) (newLeaf : UInt64) :
    Inventory.inventory (v.serve env op addr data oldLeaf newLeaf).stash v.contents
        (env.nodes \ (env.path oldLeaf).toFinset) =
      itemsAfter (v.inventory env.nodes) op addr data := by
  cases op with
  | read =>
    rw [← Plain.inventory_readPath hLeaf, Plain.serve, serveFromStash]
    cases findBlockInStash (v.readPath env oldLeaf).stash addr <;> rfl
  | write =>
    have hRest : ∀ block ∈ ∑ b ∈ env.nodes \ (env.path oldLeaf).toFinset, v.contents b,
        block.id ≠ addr := by
      intro block hBlock
      obtain ⟨b, hb, hMem⟩ := Multiset.mem_sum.mp hBlock
      exact h.not_mem_rest hPosition hb hMem
    have hFilter : (removeBlockFromStash (v.readPath env oldLeaf).stash addr : Multiset Block) =
        ((v.readPath env oldLeaf).stash : Multiset Block).filter fun block => block.id ≠ addr := by
      rw [Multiset.filter_coe, removeBlockFromStash]
      exact congrArg _ (List.filter_congr fun block _ =>
        by by_cases hEq : block.id = addr <;> simp [hEq])
    rw [itemsAfter]
    rw [h.stash_write hPosition hLeaf, ← Plain.inventory_readPath hLeaf,
      Inventory.inventory, Inventory.inventory,
      Multiset.filter_add, Multiset.filter_eq_self.mpr hRest, ← hFilter, ← Multiset.cons_add]
    exact congrArg (· + _) (Multiset.coe_eq_coe.mpr List.perm_append_comm)

theorem sized_of_mem (h : Consistent env v stored) {block : Block}
    (hBlock : block ∈ v.inventory env.nodes) :
    block.Sized := by
  obtain hStash | ⟨b, hb, hMem⟩ := Inventory.mem_inventory.mp hBlock
  · exact h.sized block (Multiset.mem_coe.mp hStash)
  · exact (h.fits b hb).sized block (List.mem_filter.mp (Multiset.mem_coe.mp hMem)).1

/-- What an access finds in the stash when it evicts it. -/
theorem served (h : Consistent env v stored) (hAddr : addr < env.numBlocks)
    (hPosition : v.positionMap[addr.toNat]? = some oldLeaf) (hLeaf : oldLeaf.toNat < 2 ^ env.height)
    (hData : op = .write → data.length < 2 ^ 64) (newLeaf : UInt64) :
    ∀ block ∈ (v.serve env op addr data oldLeaf newLeaf).stash,
    block.id < env.numBlocks ∧ block.Sized := by
  intro block hBlock
  have hMem : block ∈ itemsAfter (v.inventory env.nodes) op addr data := by
    rw [← h.inventory_serve hPosition hLeaf op data newLeaf]
    exact Inventory.mem_inventory.mpr (Or.inl (Multiset.mem_coe.mpr hBlock))
  cases op with
  | read => exact ⟨h.lt_of_mem hMem, h.sized_of_mem hMem⟩
  | write =>
    obtain rfl | hOld := Multiset.mem_cons.mp hMem
    · exact ⟨hAddr, hData rfl⟩
    · have hOld := (Multiset.mem_filter.mp hOld).1
      exact ⟨h.lt_of_mem hOld, h.sized_of_mem hOld⟩

theorem writePath (hHeight : env.height < 63) (h : Consistent env v stored)
    (hAddr : addr < env.numBlocks)
    (hPosition : v.positionMap[addr.toNat]? = some oldLeaf) (hLeaf : oldLeaf.toNat < 2 ^ env.height)
    (hNewLeaf : newLeaf.toNat < 2 ^ env.height) (hData : op = .write → data.length < 2 ^ 64)
    {contents : List (List Block)} {kept : List Block}
    (hEvicted : Evicted (v.positionMap.set addr.toNat newLeaf) oldLeaf (env.height + 1)
      (v.serve env op addr data oldLeaf newLeaf).stash contents kept) :
    Consistent env ((v.serve env op addr data oldLeaf newLeaf).writePath env oldLeaf contents kept)
      (storedAfter stored op addr data) := by
  have hServed := h.served hAddr hPosition hLeaf hData newLeaf
  have hInventory := (Plain.inventory_writePath hHeight hLeaf hEvicted fun block hBlock =>
    ne_dummy_of_lt (hServed block hBlock).1).trans (h.inventory_serve hPosition
      hLeaf op data newLeaf)
  have hCases := @bucket_writePath_cases env (v.serve env op addr data oldLeaf newLeaf)
    oldLeaf contents kept
    hHeight hLeaf hEvicted.length
  have hEvictedMem : ∀ blocks ∈ contents, ∀ block ∈ blocks, block.Sized :=
    fun blocks hBlocks block hBlock =>
    (hServed block (hEvicted.perm.subset
      (List.mem_append_left _ (List.mem_flatten.mpr ⟨blocks, hBlocks, hBlock⟩)))).2
  constructor
  case fits =>
    intro b hb
    obtain ⟨_, hSame⟩ | ⟨i, _, _, blocks, hBlocks, _, hNew⟩ := hCases b
    · exact hSame ▸ h.fits b hb
    · exact hNew ▸ fits_padded (hEvicted.room blocks hBlocks) (hEvictedMem blocks hBlocks)
  case full =>
    intro b hb
    obtain ⟨_, hSame⟩ | ⟨i, _, _, blocks, hBlocks, _, hNew⟩ := hCases b
    · exact (congrArg List.length hSame).trans (h.full b hb)
    · exact (congrArg List.length hNew).trans (length_padded (hEvicted.room blocks hBlocks))
  case sized =>
    exact fun block hBlock =>
      (hServed block (hEvicted.perm.subset (List.mem_append_right _ hBlock))).2
  case inventory =>
    intro block
    rw [hInventory]
    exact mem_itemsAfter h.inventory op addr data block
  case distinct =>
    rw [hInventory]
    exact nodup_itemsAfter h.distinct op addr data
  case bounded =>
    intro other hOther
    cases op with
    | read => exact h.bounded other hOther
    | write =>
      rcases eq_or_ne other addr with rfl | hNe
      · exact hAddr
      · exact h.bounded other (by rwa [storedAfter, Function.update_of_ne hNe] at hOther)
  case placed =>
    intro b hb block hBlock
    obtain ⟨hOff, hSame⟩ | ⟨i, hi, rfl, blocks, hBlocks, hGet, hNew⟩ := hCases b
    · rw [Plain.contents, hSame] at hBlock
      obtain ⟨leaf, hBlockLeaf, hPath⟩ := h.placed b hb block hBlock
      have hRest : b ∈ env.nodes \ (env.path oldLeaf).toFinset :=
        Finset.mem_sdiff.mpr ⟨hb, fun hMem => hOff (List.mem_toFinset.mp hMem)⟩
      have hNe : addr.toNat ≠ block.id.toNat := fun hEq =>
        h.not_mem_rest hPosition hRest hBlock (UInt64.toNat_inj.mp hEq.symm)
      exact ⟨leaf, (List.getElem?_set_ne hNe).trans hBlockLeaf, hPath⟩
    · rw [Plain.contents, hNew, reals_padded] at hBlock
      have hMem := (List.mem_filter.mp (Multiset.mem_coe.mp hBlock)).1
      rw [← hGet] at hMem
      obtain ⟨leaf, hBlockLeaf, hPlace⟩ := hEvicted.placed i block hMem
      refine ⟨leaf, hBlockLeaf, List.mem_reverse.mpr ?_⟩
      rw [← (canPlaceInBucket_iff hHeight hi).mp hPlace]
      exact HeapTree.node_mem_path leaf.toNat (Nat.sub_le _ _)
  case positions => exact List.length_set.trans h.positions
  case leaves =>
    intro leaf hMem
    obtain hOld | rfl := List.mem_or_eq_of_mem_set hMem
    · exact h.leaves leaf hOld
    · exact hNewLeaf

end Consistent

/-- An access answers like a RAM and leaves a consistent state behind. -/
theorem access_spec (hHeight : env.height < 63) (hStored : Stored env w v)
    {stored : UInt64 → Option Bytes}
    (h : Consistent env v stored) (hAddr : addr < env.numBlocks) (op : Op) (data : Bytes)
    (hData : op = .write → data.length < 2 ^ 64) :
    Returns (access env op addr data) w fun result w' =>
      result = (memoryOf stored).result op addr data ∧
      ∃ oldLeaf newLeaf contents kept, v.positionMap[addr.toNat]? = some oldLeaf ∧
      oldLeaf.toNat < 2 ^ env.height ∧
        Evicted (v.positionMap.set addr.toNat newLeaf) oldLeaf (env.height + 1)
          (v.serve env op addr data oldLeaf newLeaf).stash contents kept ∧
        Stored env w' ((v.serve env op addr data oldLeaf newLeaf).writePath env
          oldLeaf contents kept) ∧
        Consistent env ((v.serve env op addr data oldLeaf newLeaf).writePath env
          oldLeaf contents kept)
          (storedAfter stored op addr data) := by
  obtain ⟨oldLeaf, hPosition, hLeaf⟩ := h.mapped hAddr
  have hServed : ∀ newLeaf, ∀ block ∈ (v.serve env op addr data oldLeaf newLeaf).stash,
      block.id.toNat < v.positionMap.length ∧ block.Sized := by
    intro newLeaf block hBlock
    obtain ⟨hLt, hSized⟩ := h.served hAddr hPosition hLeaf hData newLeaf block hBlock
    exact ⟨h.positions ▸ UInt64.lt_iff_toNat_lt.mp hLt, hSized⟩
  apply (access_run hHeight hStored h.fits hPosition hLeaf hServed).mono
  rintro result w' ⟨newLeaf, contents, kept, hResult, hNewLeaf, hEvicted, hFinal⟩
  refine ⟨hResult.trans (h.result_eq hPosition hLeaf op data), oldLeaf, newLeaf, contents,
    kept, hPosition, hLeaf, hEvicted, hFinal, ?_⟩
  exact h.writePath hHeight hAddr hPosition hLeaf hNewLeaf hData hEvicted

end OramHub.PathOram
