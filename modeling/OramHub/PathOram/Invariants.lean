import OramHub.PathOram.Runs

/-! # What holds in every reachable state

Every block that was initially present or has been written is stored exactly once, in the stash or
on the path of its leaf, and every bucket is full.
-/
namespace OramHub.PathOram
open OramHub.Core OramHub.Program OramHub.Inventory
set_option autoImplicit false

variable {env : Env} {w : World} {v : Plain} {stored : UInt64 → Option Bytes}
  {blocks : List Block} {calls : List Call}

section Copies

/-- Bucket `b` of the server's disk. -/
def World.bucket (w : World) (b : Nat) : Except Exception Bucket :=
  match w.server.files b with
  | none => .error (.runtimeError "Path ORAM bucket file is missing")
  | some bytes => deserializeBucket bytes kBucketSize

def World.bucketBlocks (w : World) (b : Nat) : List Block :=
  match w.bucket b with
  | .ok bucket => bucket.blocks
  | .error _ => []

/-- The ids in the stash together with all server buckets, without the dummies. -/
def World.ids (w : World) : List UInt64 :=
  (reals (w.stash ++ (List.range w.server.numNodes.toNat).flatMap w.bucketBlocks)).map Block.id

/-- Bucket `b` lies on the path of the leaf that the position map has for `id`. -/
def World.OnPath (env : Env) (w : World) (b : Nat) (id : UInt64) : Prop :=
  ∃ leaf path, readPosition w.positionMap id = .ok leaf ∧
    getPathIndices env.treeHeight leaf = .ok path ∧
    b ∈ path.map UInt64.toNat

/-- The ids that were initially present or have been written. -/
def Present (blocks : List Block) (calls : List Call) (id : UInt64) : Prop :=
  (∃ block ∈ blocks, block.id = id) ∨ ∃ call ∈ calls, call.op = .write ∧ call.addr = id

structure StoredOnce (env : Env) (w : World) (expected : UInt64 → Prop) : Prop where
  once : w.ids.Nodup
  present : ∀ id, id ∈ w.ids ↔ expected id
  stash : ∀ block ∈ w.stash, block.id ≠ kDummyId
  buckets : ∀ b < w.server.numNodes.toNat, ∃ bucket, w.bucket b = .ok bucket ∧
    bucket.blocks.length = kBucketSize ∧
    ∀ block ∈ bucket.blocks, block.id = kDummyId ∨ expected block.id ∧ w.OnPath env b block.id

theorem Stored.bucket_eq_ok (h : Stored env w v) (hConsistent : Consistent env v stored) {b : Nat}
    (hb : b ∈ env.nodes) :
    w.bucket b = .ok (toBucket (v.bucket b)) := by
  rw [World.bucket, h.tree.files b hb]
  exact deserialize_toBucket (hConsistent.fits b hb)

theorem Consistent.id_ne_dummy (h : Consistent env v stored) {block : Block}
    (hBlock : block ∈ v.inventory env.nodes) :
    block.id ≠ kDummyId := ne_dummy_of_lt (h.lt_of_mem hBlock)

theorem Consistent.mem_of_stash (h : Consistent env v stored) {block : Block}
    (hBlock : block ∈ v.stash) : block.id ≠ kDummyId :=
  h.id_ne_dummy (mem_inventory.mpr (Or.inl hBlock))

theorem Stored.ids (h : Stored env w v) (hConsistent : Consistent env v stored) :
    (w.ids : Multiset UInt64) = (v.inventory env.nodes).map Block.id := by
  have hBuckets : (List.range (HeapTree.nodeCount env.height)).flatMap
      (fun b => reals (w.bucketBlocks b)) =
      (List.range (HeapTree.nodeCount env.height)).flatMap fun b => reals (v.bucket b) := by
    apply List.flatMap_congr
    intro b hb
    rw [World.bucketBlocks, h.bucket_eq_ok hConsistent (mem_nodes.mpr (List.mem_range.mp hb))]
    rfl
  have hStash : reals v.stash = v.stash := reals_eq_self fun block => hConsistent.mem_of_stash
  have hRange : (List.range (HeapTree.nodeCount env.height)).toFinset = env.nodes :=
    Multiset.toFinset_range _
  rw [World.ids, h.tree.numNodes, h.stash, reals, List.filter_append, List.filter_flatMap]
  change (List.map Block.id (reals v.stash ++ (List.range _).flatMap fun b =>
    reals (w.bucketBlocks b)) : Multiset UInt64) = _
  rw [hStash, hBuckets, ← Multiset.map_coe, ← Multiset.coe_add,
    coe_flatMap _ List.nodup_range, hRange]
  rfl

theorem Stored.storedOnce (h : Stored env w v) (hConsistent : Consistent env v stored)
    (hHeight : env.height < 63)
    {expected : UInt64 → Prop} (hExpected : ∀ id, stored id ≠ none ↔ expected id) :
    StoredOnce env w expected := by
  have hIds := h.ids hConsistent
  have hMem : ∀ block ∈ v.inventory env.nodes, expected block.id := by
    intro block hBlock
    rw [← hExpected, (hConsistent.inventory block).mp hBlock]
    exact Option.some_ne_none _
  constructor
  case once =>
    rw [← Multiset.coe_nodup, hIds]
    exact hConsistent.distinct
  case present =>
    intro id
    rw [← Multiset.mem_coe, hIds, Multiset.mem_map]
    constructor
    · rintro ⟨block, hBlock, rfl⟩
      exact hMem block hBlock
    · intro hId
      obtain ⟨data, hData⟩ := Option.ne_none_iff_exists'.mp ((hExpected id).mpr hId)
      exact ⟨⟨id, data⟩, (hConsistent.inventory ⟨id, data⟩).mpr hData, rfl⟩
  case stash =>
    rw [h.stash]
    exact fun block => hConsistent.mem_of_stash
  case buckets =>
    intro b hb
    have hNode : b ∈ env.nodes := mem_nodes.mpr (h.tree.numNodes ▸ hb)
    refine ⟨_, h.bucket_eq_ok hConsistent hNode, hConsistent.full b hNode, fun block hBlock => ?_⟩
    by_cases hDummy : block.id = kDummyId
    · exact Or.inl hDummy
    · have hReal : block ∈ v.contents b :=
        Multiset.mem_coe.mpr (List.mem_filter.mpr ⟨hBlock, bne_iff_ne.mpr hDummy⟩)
      obtain ⟨leaf, hLeaf, hPath⟩ := hConsistent.placed b hNode block hReal
      obtain ⟨path, hIndices, hNodes⟩ :=
        getPathIndices_eq_ok hHeight (hConsistent.leaves leaf (List.mem_of_getElem? hLeaf))
      refine Or.inr ⟨hMem block (mem_inventory.mpr (Or.inr ⟨b, hNode, hReal⟩)), leaf,
        path, ?_, hIndices, ?_⟩
      · rw [readPosition, h.positionMap, hLeaf]
      · rw [hNodes]
        exact hPath

end Copies

section Reachability

/-- The position map sends every initial block to the leaf of its bucket, and no id outside of the
tree. -/
structure Matches (env : Env) (blocks : List Block) (positionMap : List UInt64) : Prop where
  sized : ∀ block ∈ blocks, block.data.length ≤ vectorMaxSize
  placed : ∀ i block, blocks[i]? = some block → positionMap[block.id.toNat]? = some (UInt64.ofNat i)
  leaves : ∀ leaf ∈ positionMap, leaf.toNat < 2 ^ env.height

/-- The states that accesses lead to from an initial tree. -/
inductive Reachable (env : Env) (blocks : List Block) : List Call → World → Prop
  | start {initialPositions : Option (List UInt64)} {w : World} :
    (setUp env blocks initialPositions).run {} = .ok () w →
      Matches env blocks w.positionMap → Reachable env blocks [] w
  | access {calls : List Call} {call : Call} {result : Bytes} {w w' : World} :
    Reachable env blocks calls w →
      ValidCall env call → (performCall env call).run w = .ok result w' →
      Reachable env blocks (calls ++ [call]) w'

theorem Matches.agrees {bucket : Nat → List Block} (hReady : Ready env blocks w bucket)
    (h : Matches env blocks w.positionMap) :
    Agrees env blocks w.positionMap := by
  have hLt : ∀ i < blocks.length, i < 2 ^ 64 := fun i hi =>
    (hi.trans_le hReady.room).trans
      (Nat.pow_lt_pow_right (by decide) (hReady.height.trans (by decide)))
  have hIndex : ∀ (i j : Nat) (block other : Block), blocks[i]? = some block →
      blocks[j]? = some other → block.id = other.id → i = j := by
    intro i j block other hBlock hOther hId
    have hBlockLeaf := h.placed i block hBlock
    rw [hId, h.placed j other hOther, Option.some_inj, ← UInt64.toNat_inj,
      UInt64.toNat_ofNat_of_lt' (hLt j (List.getElem?_eq_some_iff.mp hOther).1),
      UInt64.toNat_ofNat_of_lt' (hLt i (List.getElem?_eq_some_iff.mp hBlock).1)] at hBlockLeaf
    exact hBlockLeaf.symm
  constructor
  case distinct =>
    rw [List.nodup_iff_getElem?_ne_getElem?]
    intro i j hij hj hEq
    rw [List.length_map] at hj
    rw [List.getElem?_map, List.getElem?_map, List.getElem?_eq_getElem hj,
      List.getElem?_eq_getElem (hij.trans hj)] at hEq
    exact hij.ne (hIndex i j _ _ (List.getElem?_eq_getElem _) (List.getElem?_eq_getElem hj)
      (Option.some.inj hEq))
  case bounded =>
    intro block hBlock
    obtain ⟨i, hi⟩ := List.mem_iff_getElem?.mp hBlock
    rw [UInt64.lt_iff_toNat_lt, ← hReady.positions]
    exact (List.getElem?_eq_some_iff.mp (h.placed i block hi)).1
  case sized => exact h.sized
  case placed => exact h.placed
  case leaves => exact h.leaves

theorem storedAfter_ne_none (op : Op) (addr : UInt64) (data : Bytes) (id : UInt64) :
    storedAfter stored op addr data id ≠ none ↔ stored id ≠ none ∨ op = .write ∧ addr = id := by
  cases op with
  | read => simp [storedAfter]
  | write =>
    by_cases hId : addr = id
    · simp [storedAfter, hId]
    · simp [storedAfter, hId, Function.update_of_ne (Ne.symm hId)]

theorem initialData_ne_none (blocks : List Block) (id : UInt64) :
    initialData blocks id ≠ none ↔ ∃ block ∈ blocks, block.id = id := by
  simp [initialData, List.find?_eq_none]

theorem Reachable.consistent (h : Reachable env blocks calls w) :
    env.height < 63 ∧ ∃ v stored, Stored env w v ∧
    Consistent env v stored ∧ ∀ id, stored id ≠ none ↔ Present blocks calls id := by
  induction h with
  | start hSetUp hMatches =>
    obtain ⟨⟨bucket, hReady⟩, _, _⟩ := setUp_spec.post_of_run hSetUp
    refine ⟨hReady.height, _, _, hReady.stored, hReady.consistent (hMatches.agrees hReady),
      fun id => ?_⟩
    simp [Present, initialData_ne_none]
  | @access calls call result w w' _ hValid hRun ih =>
    obtain ⟨hHeight, v, stored, hStored, hConsistent, hPresent⟩ := ih
    have hSpec := access_spec hHeight hStored hConsistent hValid.1 call.op call.data hValid.lt
    obtain ⟨_, _, _, _, _, _, _, _, hStored', hConsistent'⟩ := hSpec.post_of_run hRun
    refine ⟨hHeight, _, _, hStored', hConsistent', fun id => ?_⟩
    rw [storedAfter_ne_none, hPresent]
    simp [Present, or_and_right, exists_or, or_assoc]

end Reachability

/-- In every reachable state each id has at most one copy, and a copy in a bucket lies on the path
of its leaf. -/
theorem storedOnce_of_reachable (h : Reachable env blocks calls w) :
    StoredOnce env w (Present blocks calls) := by
  obtain ⟨hHeight, v, stored, hStored, hConsistent, hPresent⟩ := h.consistent
  exact hStored.storedOnce hConsistent hHeight hPresent

theorem exists_reachable_small :
    ∃ w, Reachable .small smallBlocks [⟨.read, 1, []⟩, ⟨.write, 2, [5]⟩] w := by
  obtain ⟨w, hSetUp, hAgrees⟩ := exists_setUp_small
  have hMatches : Matches .small smallBlocks w.positionMap :=
    ⟨hAgrees.sized, hAgrees.placed, hAgrees.leaves⟩
  have hStart : Reachable .small smallBlocks [] w := .start hSetUp hMatches
  obtain ⟨hHeight, v, stored, hStored, hConsistent, _⟩ := hStart.consistent
  have hRead : ValidCall .small ⟨.read, 1, []⟩ := by decide
  obtain ⟨_, w', hRun, _, _, _, _, _, _, _, _, hStored', hConsistent'⟩ :=
    returns_iff.mp (access_spec hHeight hStored hConsistent hRead.1 .read [] hRead.lt)
  have hWrite : ValidCall .small ⟨.write, 2, [5]⟩ := by decide
  obtain ⟨_, w'', hRun', _⟩ :=
    returns_iff.mp (access_spec hHeight hStored' hConsistent' hWrite.1 .write [5] hWrite.lt)
  exact ⟨w'', .access (.access hStart hRead hRun) hWrite hRun'⟩

theorem storedOnce_small : ∃ w, Reachable .small smallBlocks [⟨.read, 1, []⟩, ⟨.write, 2, [5]⟩] w ∧
    StoredOnce .small w (Present smallBlocks [⟨.read, 1, []⟩, ⟨.write, 2, [5]⟩]) :=
  exists_reachable_small.imp fun _ hReachable => ⟨hReachable, storedOnce_of_reachable hReachable⟩

end OramHub.PathOram
