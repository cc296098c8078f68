import OramHub.PathOram.Runs

/-! # What the server learns from a run

A bucket on the wire is as long as the data of its blocks. Runs that follow the same leaves
therefore look the same if, and only if, everything that is written has the size of a dummy.
-/
namespace OramHub.PathOram
open OramHub.Core OramHub.Program
set_option autoImplicit false

def World.sketches (w : World) : List Sketch := w.log.map Event.sketch

/-- One access, which reveals the leaf that its address is mapped to. -/
def revealCall (env : Env) (call : Call) : PathM UInt64 := do
  let world ← get
  let _ ← performCall env call
  return world.positionMap.getD call.addr.toNat 0

/-- A complete run on a tree without real blocks, with the leaves that it reveals. -/
def session (env : Env) (initialPositions : Option (List UInt64))
    (calls : List Call) : PathM (List UInt64) := do
  setUp env [] initialPositions
  calls.mapM (revealCall env)

/-- The size on the wire of a bucket that holds blocks of the size of a dummy. -/
def bucketPayloadSize : Nat := 24 + kBucketSize * (16 + kBlockSize)

/-- What an access shows when all buckets have the same size. -/
def accessTrace (env : Env) (leaf : UInt64) : List Sketch :=
  [.readPath env leaf (List.replicate (env.height + 1) bucketPayloadSize),
    .writePath env leaf (List.replicate (env.height + 1) bucketPayloadSize)]

variable {env : Env} {w : World} {v : Plain} {stored : UInt64 → Option Bytes} {calls : List Call}

section Uniform

/-- All blocks have the size of a dummy. -/
def Uniform (blocks : List Block) : Prop := ∀ block ∈ blocks, block.data.length = kBlockSize

structure Plain.Uniform (env : Env) (v : Plain) : Prop where
  stash : PathOram.Uniform v.stash
  bucket : ∀ b ∈ env.nodes, PathOram.Uniform (v.bucket b)

theorem payloadSize_of_uniform {blocks : List Block} (h : Uniform blocks)
    (hFull : blocks.length = kBucketSize) :
    payloadSize blocks = bucketPayloadSize := by
  have hSizes : (blocks.map fun block => 16 + block.data.length) =
      List.replicate kBucketSize (16 + kBlockSize) := by
    rw [← hFull]
    refine List.eq_replicate_iff.mpr ⟨List.length_map _, fun size hSize => ?_⟩
    obtain ⟨block, hBlock, rfl⟩ := List.mem_map.mp hSize
    rw [h block hBlock]
  rw [payloadSize, hSizes, List.sum_replicate_nat, bucketPayloadSize]

theorem uniform_padded {blocks : List Block} (h : Uniform blocks) : Uniform (padded blocks) := by
  intro block hBlock
  obtain hOld | rfl := mem_padded hBlock
  · exact h block hOld
  · exact List.length_replicate

variable {op : Op} {addr oldLeaf newLeaf : UInt64} {data : Bytes}

theorem mem_serve {block : Block} (h : block ∈ (v.serve env op addr data oldLeaf newLeaf).stash) :
    block ∈ (v.readPath env oldLeaf).stash ∨ op = .write ∧ block = ⟨addr, data⟩ := by
  cases op with
  | read =>
    rw [Plain.serve, serveFromStash] at h
    cases hFind : findBlockInStash (v.readPath env oldLeaf).stash addr <;>
      rw [hFind] at h <;> exact Or.inl h
  | write =>
    obtain hKept | hNew := List.mem_append.mp h
    · left
      split at hKept
      · exact (List.mem_filter.mp hKept).1
      · exact hKept
    · exact Or.inr ⟨rfl, List.mem_singleton.mp hNew⟩

theorem Plain.Uniform.serve (h : v.Uniform env) (hLeaf : oldLeaf.toNat < 2 ^ env.height)
    (hData : op = .write → data.length = kBlockSize) :
    PathOram.Uniform (v.serve env op addr data oldLeaf newLeaf).stash := by
  intro block hBlock
  obtain hRead | ⟨rfl, rfl⟩ := mem_serve hBlock
  · obtain hStash | hPath := List.mem_append.mp hRead
    · exact h.stash block hStash
    · obtain ⟨b, hb, hMem⟩ := List.mem_flatMap.mp hPath
      exact h.bucket b (mem_nodes_of_mem_path hLeaf hb) block (List.mem_filter.mp hMem).1
  · exact hData rfl

theorem Plain.Uniform.writePath (h : v.Uniform env) (hHeight : env.height < 63)
    {positionMap : List UInt64}
    (hLeaf : oldLeaf.toNat < 2 ^ env.height) {contents : List (List Block)} {kept : List Block}
    (hEvicted : Evicted positionMap oldLeaf (env.height + 1) v.stash contents kept) :
    (v.writePath env oldLeaf contents kept).Uniform env ∧ ∀ blocks ∈ contents,
    PathOram.Uniform blocks := by
  have hContents : ∀ blocks ∈ contents, PathOram.Uniform blocks :=
    fun blocks hBlocks block hBlock =>
    h.stash block (hEvicted.perm.subset
      (List.mem_append_left _ (List.mem_flatten.mpr ⟨blocks, hBlocks, hBlock⟩)))
  refine ⟨⟨fun block hBlock => ?_, fun b hb => ?_⟩, hContents⟩
  · exact h.stash block (hEvicted.perm.subset (List.mem_append_right _ hBlock))
  · obtain ⟨_, hSame⟩ | ⟨i, _, _, blocks, hBlocks, _, hNew⟩ :=
      @bucket_writePath_cases env v oldLeaf contents kept hHeight hLeaf hEvicted.length b
    · exact hSame ▸ h.bucket b hb
    · exact hNew ▸ uniform_padded (hContents blocks hBlocks)

end Uniform

section Runs

theorem readPath_trace_of_uniform (h : v.Uniform env)
    (hFull : ∀ b ∈ env.nodes, (v.bucket b).length = kBucketSize)
    {leaf : UInt64} (hLeaf : leaf.toNat < 2 ^ env.height) :
    (env.path leaf).map (fun b => payloadSize (v.bucket b)) =
      List.replicate (env.height + 1) bucketPayloadSize := by
  refine List.eq_replicate_iff.mpr ⟨by rw [List.length_map, length_path], fun size hSize => ?_⟩
  obtain ⟨b, hb, rfl⟩ := List.mem_map.mp hSize
  have hNode := mem_nodes_of_mem_path hLeaf hb
  exact payloadSize_of_uniform (h.bucket b hNode) (hFull b hNode)

theorem writePath_trace_of_uniform {contents : List (List Block)}
    (h : ∀ blocks ∈ contents, Uniform blocks)
    (hRoom : ∀ blocks ∈ contents, blocks.length ≤ kBucketSize)
    (hLength : contents.length = env.height + 1) :
    contents.map (fun blocks => payloadSize (padded blocks)) =
      List.replicate (env.height + 1) bucketPayloadSize := by
  refine List.eq_replicate_iff.mpr ⟨by rw [List.length_map, hLength], fun size hSize => ?_⟩
  obtain ⟨blocks, hBlocks, rfl⟩ := List.mem_map.mp hSize
  exact payloadSize_of_uniform (uniform_padded (h blocks hBlocks))
    (length_padded (hRoom blocks hBlocks))

theorem revealCalls_spec (hHeight : env.height < 63) (hStored : Stored env w v)
    (h : Consistent env v stored)
    (hUniform : v.Uniform env) (hValid : ∀ call ∈ calls, ValidCall env call)
    (hData : ∀ call ∈ calls, call.op = .write → call.data.length = kBlockSize) :
    Returns (calls.mapM (revealCall env)) w fun leaves w' =>
      w'.sketches = v.trace ++ leaves.flatMap (accessTrace env) := by
  induction calls generalizing w v stored with
  | nil => exact Returns.pure (hStored.trace.trans (List.append_nil _).symm)
  | cons call calls ih =>
    have hCall := hValid call List.mem_cons_self
    have hSize := hData call List.mem_cons_self
    rw [List.mapM_cons]
    have hReveal : Returns (revealCall env call) w fun leaf w' => ∃ v' stored', Stored env w' v' ∧
        Consistent env v' stored' ∧ v'.Uniform env ∧
        v'.trace = v.trace ++ accessTrace env leaf := by
      refine Returns.get_bind
        ((access_spec hHeight hStored h hCall.1 call.op call.data hCall.lt).bind ?_)
      rintro _ w' ⟨_, oldLeaf, newLeaf, contents, kept, hPosition, hLeaf, hEvicted, hStored', hNext⟩
      have hServed := @Plain.Uniform.serve env v call.op call.addr oldLeaf newLeaf
        call.data hUniform hLeaf hSize
      have hReady : (v.serve env call.op call.addr call.data oldLeaf newLeaf).Uniform env :=
        ⟨hServed, hUniform.bucket⟩
      obtain ⟨hFinal, hContents⟩ := hReady.writePath hHeight hLeaf hEvicted
      have hRevealed : w.positionMap.getD call.addr.toNat 0 = oldLeaf := by
        rw [hStored.positionMap, List.getD_eq_getElem?_getD, hPosition, Option.getD_some]
      refine Returns.pure ⟨_, _, hStored', hNext, hFinal, ?_⟩
      rw [hRevealed]
      have hTrace := congrArg₂
        (fun read written => (v.trace ++ [Sketch.readPath env oldLeaf read]) ++
          [Sketch.writePath env oldLeaf written])
        (readPath_trace_of_uniform hUniform h.full hLeaf)
        (writePath_trace_of_uniform hContents hEvicted.room hEvicted.length)
      exact hTrace.trans (List.append_assoc _ _ _)
    refine hReveal.bind ?_
    rintro leaf w' ⟨v', stored', hStored', hNext, hFinal, hTrace⟩
    refine (ih hStored' hNext hFinal (fun other hOther =>
      hValid other (List.mem_cons_of_mem _ hOther))
      fun other hOther => hData other (List.mem_cons_of_mem _ hOther)).bind ?_
    intro leaves w'' hRest
    refine Returns.pure ?_
    rw [hRest, hTrace, List.flatMap_cons, List.append_assoc]

theorem uniform_initialTree {bucket : Nat → List Block} {positionMap : List UInt64}
    (hTree : InitialTree env [] bucket) : (⟨[], bucket, positionMap, []⟩ : Plain).Uniform env := by
  refine ⟨fun block hBlock => absurd hBlock List.not_mem_nil, fun b hb block hBlock => ?_⟩
  obtain hPlaced | hDummy := (hTree b hb).mem hBlock
  · cases (mem_of_mem_placedBlocks hPlaced).2
  · exact hDummy.2

/-- Initial positions that are leaves. -/
def ValidPositions (env : Env) (initialPositions : Option (List UInt64)) : Prop :=
  ∀ positions, initialPositions = some positions → ∀ leaf ∈ positions, leaf.toNat < 2 ^ env.height

theorem agrees_of_validPositions {initialPositions : Option (List UInt64)}
    (hSetUp : (setUp env [] initialPositions).run {} = .ok () w)
    (hPositions : ValidPositions env initialPositions) :
    Agrees env [] w.positionMap := by
  obtain ⟨_, hSome, hNone⟩ := setUp_spec.post_of_run hSetUp
  refine ⟨List.nodup_nil, ?_, ?_, ?_, ?_⟩
  · exact fun block hBlock => absurd hBlock List.not_mem_nil
  · exact fun block hBlock => absurd hBlock List.not_mem_nil
  · intro i block hBlock
    cases hBlock
  · cases initialPositions with
    | none => exact hNone rfl
    | some positions =>
      rw [hSome positions rfl]
      exact hPositions positions rfl

/-- The trace of a run is a function of the leaves it reveals, if everything written has the size of
a dummy. -/
theorem session_spec {initialPositions : Option (List UInt64)} {leaves : List UInt64}
    (hPositions : ValidPositions env initialPositions) (hValid : ∀ call ∈ calls, ValidCall env call)
    (hData : ∀ call ∈ calls, call.op = .write → call.data.length = kBlockSize)
    (hRun : (session env initialPositions calls).run {} = .ok leaves w) :
    w.sketches = leaves.flatMap (accessTrace env) := by
  obtain ⟨_, w', hSetUp, hCalls⟩ := run_bind_eq_ok hRun
  obtain ⟨⟨bucket, hReady⟩, _, _⟩ := setUp_spec.post_of_run hSetUp
  have hConsistent := hReady.consistent (agrees_of_validPositions hSetUp hPositions)
  exact (revealCalls_spec hReady.height hReady.stored hConsistent
    (uniform_initialTree hReady.tree) hValid
    hData).post_of_run hCalls

end Runs

section Flat

/-- A tree that is a single bucket. -/
def Env.flat : Env where
  treeHeight := 0
  numBlocks := 1
  entropy := ⟨fun _ => 0, fun _ _ => Equiv.refl _, fun _ => Vector.replicate 16 0⟩
  serverEntropy := ⟨fun _ => 0, fun _ _ => Equiv.refl _, fun _ => Vector.replicate 16 1⟩
  keystream := fun _ _ position => UInt8.ofNat position

/-- The size of the bucket that a first access writes to a tree of height 0. -/
def flatPayloadSize : Call → Nat
  | ⟨.read, _, _⟩ => bucketPayloadSize
  | ⟨.write, _, data⟩ => bucketPayloadSize - kBlockSize + data.length

variable {op : Op} {addr oldLeaf newLeaf : UInt64} {data : Bytes}

theorem Consistent.readPath_eq_nil (h : Consistent env v (initialData []))
    (hLeaf : oldLeaf.toNat < 2 ^ env.height) : (v.readPath env oldLeaf).stash = [] := by
  rw [List.eq_nil_iff_forall_not_mem]
  intro block hBlock
  have hMem : block ∈ v.inventory env.nodes := by
    rw [← Plain.inventory_readPath hLeaf]
    exact Inventory.mem_inventory.mpr (Or.inl (Multiset.mem_coe.mpr hBlock))
  cases (h.inventory block).mp hMem

theorem Consistent.serve_initial (h : Consistent env v (initialData []))
    (hPosition : v.positionMap[addr.toNat]? = some oldLeaf)
    (hLeaf : oldLeaf.toNat < 2 ^ env.height) :
    (v.serve env op addr data oldLeaf newLeaf).stash =
      match op with
      | .read => []
      | .write => [⟨addr, data⟩] := by
  have hRead := h.readPath_eq_nil hLeaf
  cases op with
  | read =>
    rw [Plain.serve, hRead]
    rfl
  | write =>
    rw [h.stash_write hPosition hLeaf, hRead]
    rfl

theorem payloadSize_padded_singleton (block : Block) :
    payloadSize (padded [block]) = bucketPayloadSize - kBlockSize + block.data.length := by
  have hDummy : dummyBlock.data.length = kBlockSize := List.length_replicate
  have hPadded : padded [block] = [block, dummyBlock, dummyBlock, dummyBlock] := rfl
  rw [hPadded, payloadSize, bucketPayloadSize]
  simp only [List.map_cons, List.map_nil, List.sum_cons, List.sum_nil, hDummy,
    kBlockSize, kBucketSize]
  omega

theorem payloadSize_flat {call : Call} {blocks : List Block} (h : blocks.Perm (match call.op with
      | .read => []
      | .write =>
        [⟨call.addr, call.data⟩])) : payloadSize (padded blocks) = flatPayloadSize call := by
  obtain ⟨op, addr, data⟩ := call
  cases op with
  | read =>
    rw [List.Perm.eq_nil h]
    exact payloadSize_of_uniform (uniform_padded fun block hBlock => absurd hBlock List.not_mem_nil)
      (length_padded (Nat.zero_le _))
  | write =>
    rw [List.perm_singleton.mp h]
    exact payloadSize_padded_singleton _

theorem Evicted.flat {positionMap : List UInt64} {stash kept : List Block}
    {contents : List (List Block)}
    (h : Evicted positionMap 0 1 stash contents kept) (hLeaves : ∀ leaf ∈ positionMap, leaf = 0)
    (hStash : stash.length ≤ 1) : ∃ blocks, contents = [blocks] ∧ blocks.Perm stash := by
  obtain ⟨blocks, rfl⟩ := List.length_eq_one_iff.mp h.length
  have hPerm := h.perm
  rw [List.flatten_cons, List.flatten_nil, List.append_nil] at hPerm
  have hKept : kept = [] := by
    rw [List.eq_nil_iff_forall_not_mem]
    intro block hBlock
    obtain ⟨blockLeaf, hBlockLeaf, hFull⟩ := h.greedy block hBlock
    rw [hLeaves blockLeaf (List.mem_of_getElem? hBlockLeaf)] at hFull
    have hFour : kBucketSize ≤ blocks.length := hFull 0 Nat.one_pos rfl
    have hLength := hPerm.length_eq
    rw [List.length_append] at hLength
    rw [kBucketSize] at hFour
    omega
  rw [hKept, List.append_nil] at hPerm
  exact ⟨blocks, rfl, hPerm⟩

theorem eq_zero_of_flat {leaf : UInt64} (h : leaf.toNat < 2 ^ Env.flat.height) : leaf = 0 :=
  UInt64.toNat_inj.mp (Nat.lt_one_iff.mp h)

theorem validPositions_none (env : Env) : ValidPositions env none :=
  fun positions hSome => by cases hSome

/-- A run of one access on a tree of height 0 shows how many bytes it has written. -/
theorem session_flat {call : Call} (hValid : ValidCall .flat call) :
    ∃ w, (session .flat none [call]).run {} = .ok [0] w ∧
      w.sketches = [.readPath .flat 0 [bucketPayloadSize],
        .writePath .flat 0 [flatPayloadSize call]] := by
  have hAccepted : Accepted .flat [] none :=
    ⟨by decide, Nat.zero_le _, fun positions hSome => by cases hSome⟩
  obtain ⟨_, w, hSetUp, ⟨bucket, hReady⟩, _⟩ := returns_iff.mp (setUp_spec.returns hAccepted)
  have hConsistent :=
    hReady.consistent (agrees_of_validPositions hSetUp (validPositions_none .flat))
  have hReveal : Returns (revealCall .flat call) w fun leaf w' => leaf = 0 ∧
      w'.sketches = [.readPath .flat 0 [bucketPayloadSize],
        .writePath .flat 0 [flatPayloadSize call]] := by
    have hAccess := access_spec hReady.height hReady.stored hConsistent hValid.1
      call.op call.data hValid.lt
    refine Returns.get_bind (hAccess.bind ?_)
    rintro _ w' ⟨_, oldLeaf, newLeaf, contents, kept, hPosition, hLeaf, hEvicted, hStored, hNext⟩
    have hServe := @Consistent.serve_initial .flat _ call.op call.addr oldLeaf newLeaf
      call.data hConsistent
      hPosition hLeaf
    have hRead := readPath_trace_of_uniform
      (@uniform_initialTree .flat bucket w.positionMap hReady.tree)
      hConsistent.full hLeaf
    obtain rfl := eq_zero_of_flat hLeaf
    have hPositions : ∀ leaf ∈ w.positionMap.set call.addr.toNat newLeaf, leaf = 0 :=
      fun leaf hMem =>
      eq_zero_of_flat (hNext.leaves leaf hMem)
    rw [hServe] at hEvicted
    obtain ⟨blocks, rfl, hPerm⟩ := hEvicted.flat hPositions (by cases call.op <;> simp)
    refine Returns.pure ⟨?_, ?_⟩
    · rw [List.getD_eq_getElem?_getD, hPosition, Option.getD_some]
    · have hTrace := congrArg₂
        (fun read written => [Sketch.readPath .flat 0 read, Sketch.writePath .flat 0 [written]])
        hRead (payloadSize_flat hPerm)
      exact hStored.trace.trans hTrace
  obtain ⟨_, w', hRun, rfl, hSketches⟩ := returns_iff.mp hReveal
  refine ⟨w', ?_, hSketches⟩
  have hCalls : ([call].mapM (revealCall .flat)).run w = .ok [0] w' := by
    rw [List.mapM_cons, List.mapM_nil, EStateM.run_bind, hRun]
    rfl
  rw [session, EStateM.run_bind, hSetUp]
  exact hCalls

end Flat

/-- Runs that write data of these sizes only look the same as soon as they follow the same leaves.
-/
def Oblivious (sizes : Nat → Prop) : Prop :=
  ∀ (env env' : Env) (positions positions' : Option (List UInt64)) (calls calls' :
    List Call) (leaves : List UInt64)
    (w w' : World), env.treeHeight = env'.treeHeight →
    ValidPositions env positions → ValidPositions env' positions' →
    (∀ call ∈ calls, ValidCall env call ∧ (call.op = .write → sizes call.data.length)) →
    (∀ call ∈ calls', ValidCall env' call ∧ (call.op = .write → sizes call.data.length)) →
    (session env positions calls).run {} = .ok leaves w →
    (session env' positions' calls').run {} = .ok leaves w' → w.sketches = w'.sketches

/-- The trace depends on nothing but the leaves exactly when all data has the size of a dummy. -/
theorem oblivious_iff (sizes : Nat → Prop) :
    Oblivious sizes ↔ ∀ n ≤ vectorMaxSize, sizes n → n = kBlockSize := by
  constructor
  · intro hOblivious n hn hSize
    let data : Bytes := List.replicate n 0
    have hLength : data.length = n := List.length_replicate
    have hWrite : ValidCall .flat ⟨.write, 0, data⟩ :=
      ⟨show (0 : UInt64) < 1 by decide, fun _ => hLength.trans_le hn⟩
    have hRead : ValidCall .flat ⟨.read, 0, []⟩ := by decide
    obtain ⟨w, hRun, hSketches⟩ := session_flat hWrite
    obtain ⟨w', hRun', hSketches'⟩ := session_flat hRead
    have hSame := hOblivious .flat .flat none none [_] [_] [0] w w' rfl (validPositions_none _)
      (validPositions_none _)
      (by simpa [hWrite, hLength] using hSize) (by simpa using hRead) hRun hRun'
    rw [hSketches, hSketches'] at hSame
    have hSizes : flatPayloadSize ⟨.write, 0, data⟩ = flatPayloadSize ⟨.read, 0, []⟩ := by
      simpa [Sketch.writePath] using hSame
    rw [flatPayloadSize, flatPayloadSize, hLength, bucketPayloadSize, kBucketSize,
      kBlockSize] at hSizes
    rw [kBlockSize]
    omega
  · intro hSizes env env' positions positions' calls calls' leaves w w' hHeight hPositions
      hPositions' hCalls hCalls'
      hRun hRun'
    have hData : ∀ {env : Env} {calls : List Call},
        (∀ call ∈ calls, ValidCall env call ∧ (call.op = .write → sizes call.data.length)) →
        ∀ call ∈ calls, call.op = .write → call.data.length = kBlockSize :=
        fun h call hCall hWrite =>
      hSizes _ ((h call hCall).1.2 hWrite) ((h call hCall).2 hWrite)
    rw [session_spec hPositions (fun call hCall => (hCalls call hCall).1) (hData hCalls) hRun,
      session_spec hPositions' (fun call hCall => (hCalls' call hCall).1) (hData hCalls') hRun']
    have hTrace : accessTrace env = accessTrace env' := by
      funext leaf
      unfold accessTrace Sketch.readPath Sketch.writePath Env.indices Env.path Env.height
      rw [hHeight]
    rw [hTrace]

/-- Writing nothing and reading look different. -/
theorem sketches_ne_flat : ∃ w w', (session .flat none [⟨.write, 0, []⟩]).run {} = .ok [0] w ∧
    (session .flat none [⟨.read, 0, []⟩]).run {} = .ok [0] w' ∧ w.sketches ≠ w'.sketches := by
  have hWrite : ValidCall .flat ⟨.write, 0, []⟩ := by decide
  have hRead : ValidCall .flat ⟨.read, 0, []⟩ := by decide
  obtain ⟨w, hRun, hSketches⟩ := session_flat hWrite
  obtain ⟨w', hRun', hSketches'⟩ := session_flat hRead
  refine ⟨w, w', hRun, hRun', ?_⟩
  rw [hSketches, hSketches']
  decide

end OramHub.PathOram
