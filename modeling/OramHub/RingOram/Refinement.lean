import OramHub.Lib.Packing
import OramHub.RingOram.StoredTree

/-! # The client refines the plain machine

`Stored` relates one client/server pair to the plain state it stands for. Each client function
has one specification: it returns, and its effect is a step of the plain machine.
-/
namespace OramHub.RingOram
open OramHub.Core OramHub.Program OramHub.LittleEndian OramHub.Network OramHub.Packing
set_option autoImplicit false

structure Stored (env : Env) (w : World) (v : Plain) : Prop where
  valid : v.Valid env.cfg
  tree : Holds env w.server v.bucket
  stash : w.stash.stash = v.stash
  file : w.stash.file = some (stashBytes v.stash)
  positionMap : w.positionMap = v.positionMap
  round : w.round = v.round
  evictionCounter : w.evictionCounter = v.evictionCounter
  fabricated : w.fabricated = v.fabricated
  trace : w.log.map Event.sketch = v.trace
  snapshots : ∀ event ∈ w.log, SnapshotOk env.cfg event.files

/-- The stash file holds the stash. -/
structure Synced (state : StashState) (stash : List RingBlock) : Prop where
  memory : state.stash = stash
  disk : state.file = some (stashBytes stash)

variable {env : Env} {w : World} {v : Plain}

theorem Stored.synced (h : Stored env w v) : Synced w.stash v.stash := ⟨h.stash, h.file⟩

theorem Stored.withStash (h : Stored env w v) {state : StashState} {stash : List RingBlock}
    (hSynced : Synced state stash) (hStash : StashOk env.cfg stash) :
    Stored env { w with stash := state } { v with stash := stash } :=
  ⟨h.valid.withStash hStash, h.tree, hSynced.memory, hSynced.disk, h.positionMap, h.round,
    h.evictionCounter, h.fabricated, h.trace, h.snapshots⟩

theorem Stored.withPrng (h : Stored env w v) (prng : Nat) : Stored env { w with prng := prng } v :=
  ⟨h.valid, h.tree, h.stash, h.file, h.positionMap, h.round, h.evictionCounter,
    h.fabricated, h.trace, h.snapshots⟩

theorem Stored.withIvs (h : Stored env w v) (ivs : Nat) : Stored env { w with ivs := ivs } v :=
  ⟨h.valid, h.tree, h.stash, h.file, h.positionMap, h.round, h.evictionCounter,
    h.fabricated, h.trace, h.snapshots⟩

theorem roundTrip_run {request : Request} {response : Response} {server : Server}
    (hRunning : w.server.running = true)
    (hRun : (handleRequest env.cfg request).run w.server = .ok response server) :
    (roundTrip env request).run w = .ok response
      { w with server := server, log := w.log ++ [⟨request, response, server.files⟩] } := by
  change roundTrip env request w = _
  unfold roundTrip
  rw [if_pos hRunning, hRun]

/-- Where a request is answered, where its handler throws, and where the connection is closed. -/
theorem wp_roundTrip {request : Request} {post : Response → World → Prop}
    {raised : Exception → World → Prop} (hAnswered : ∀ response server, w.server.running = true →
      (handleRequest env.cfg request).run w.server = .ok response server →
      post response { w with
        server := server
        log := w.log ++ [⟨request, response, server.files⟩] })
    (hFailed : ∀ e server, w.server.running = true →
      (handleRequest env.cfg request).run w.server = .error e server →
      raised (.runtimeError "NetIO recv failed")
        { w with server := { server with running := false } })
    (hClosed : w.server.running = false → raised (.runtimeError "NetIO send failed") w) :
    wp (roundTrip env request) w post raised := by
  simp only [wp, roundTrip, EStateM.run]
  cases hRunning : w.server.running with
  | false => exact hClosed hRunning
  | true =>
    cases hRun : handleRequest env.cfg request w.server with
    | ok response server => exact hAnswered response server hRunning hRun
    | error e server => exact hFailed e server hRunning hRun

theorem roundTrip_eq_ok {request : Request} {response : Response} {w' : World}
    (h : (roundTrip env request).run w = .ok response w') :
    w.server.running = true ∧ ∃ server,
      (handleRequest env.cfg request).run w.server = .ok response server ∧
      w' = { w with server := server, log := w.log ++ [⟨request, response, server.files⟩] } := by
  have hOutcome : wp (roundTrip env request) w (fun response w' => w.server.running = true ∧
      ∃ server, (handleRequest env.cfg request).run w.server = .ok response server ∧
        w' = { w with
          server := server
          log := w.log ++ [⟨request, response, server.files⟩] }) fun _ _ => True :=
    wp_roundTrip (fun _ server hRunning hRun => ⟨hRunning, server, hRun, rfl⟩)
      (fun _ _ _ _ => trivial) fun _ => trivial
  exact (wp_iff.mp hOutcome).1 response w' h

/-- A request whose handler turns the stored buckets of `v` into those of `v'`. -/
theorem roundTrip_spec (hAccepted : env.cfg.Accepted) (h : Stored env w v) (request : Request)
    (sketch : Sketch) {bucket : Nat → RingBucket} {answer : Response → Prop}
    (hHandler : Returns (handleRequest env.cfg request) w.server fun response server =>
      answer response ∧ Holds env server bucket)
    (hValid : Plain.Valid env.cfg { v with bucket := bucket })
    (hSketch : ∀ response files, answer response →
      Event.sketch ⟨request, response, files⟩ = sketch) :
    Returns (roundTrip env request) w fun response w' =>
      answer response ∧ Stored env w' (({ v with bucket := bucket } : Plain).observe sketch) := by
  obtain ⟨response, server, hRun, hAnswer, hHolds⟩ := returns_iff.mp hHandler
  refine Returns.of_run (roundTrip_run h.tree.running hRun) ⟨hAnswer, ?_⟩
  · refine ⟨hValid.observe sketch, hHolds, h.stash, h.file, h.positionMap, h.round,
      h.evictionCounter, h.fabricated, ?_, ?_⟩
    · rw [List.map_append, h.trace]
      exact congrArg (v.trace ++ [·]) (hSketch response server.files hAnswer)
    · intro event hEvent
      obtain hOld | hNew := List.mem_append.mp hEvent
      · exact h.snapshots event hOld
      · rw [List.mem_singleton.mp hNew]
        exact hHolds.snapshot hAccepted hValid.wellFormed hValid.counts

section Components

variable {α β : Type} {post : β → World → Prop}

theorem withStash_bind {x : StashM α} {f : α → RingM β} {mid : α → StashState → Prop}
    (h : Returns x w.stash mid)
    (hf : ∀ a state, mid a state → Returns (f a) { w with stash := state } post) :
    Returns (withStash x >>= f) w post := Returns.zoom_bind h hf

theorem withPrng_bind {x : PrngM α} {f : α → RingM β} {mid : α → Nat → Prop}
    (h : Returns x w.prng mid)
    (hf : ∀ a prng, mid a prng → Returns (f a) { w with prng := prng } post) :
    Returns (withPrng x >>= f) w post := Returns.zoom_bind h hf

theorem withIvs_bind {x : IvM α} {f : α → RingM β} {mid : α → Nat → Prop} (h : Returns x w.ivs mid)
    (hf : ∀ a ivs, mid a ivs → Returns (f a) { w with ivs := ivs } post) :
    Returns (withIvs x >>= f) w post := Returns.zoom_bind h hf

theorem uniformInt_spec (env : Env) (size tick : Nat) (hSize : 0 < size) :
    Returns (uniformInt env size) tick fun choice _ => choice < size :=
  Returns.get_bind (Returns.set_bind (Returns.pure (Nat.mod_lt _ hSize)))

theorem drawPermutation_spec (env : Env) (size tick : Nat) :
    Returns (drawPermutation env size) tick fun permutation _ =>
      ∃ shuffle, permutation = makePermutation size shuffle :=
  Returns.get_bind (Returns.set_bind (Returns.pure ⟨_, rfl⟩))

end Components

/-! ## The stash -/

section Stash

variable {state : StashState} {stash : List RingBlock} {block : RingBlock}

theorem length_stashBytes (stash : List RingBlock) {size : Nat}
    (h : ∀ block ∈ stash, block.data.length = size) :
    (stashBytes stash).length = 8 + stash.length * (24 + size) := by
  have hFlat : (stash.flatMap ringBlockBytes).length = stash.length * (24 + size) :=
    length_flatMap_of_length fun block hBlock => by rw [length_ringBlockBytes, h block hBlock]
  rw [stashBytes, List.length_append, length_encodeWord, hFlat]

/-- A stash that can be kept, in memory and in its file. -/
structure Keepable (cfg : RuntimeConfig) (stash : List RingBlock) : Prop where
  data : ∀ block ∈ stash, block.data.length = cfg.blockSize.toNat
  vector : Holdable ringBlockSize stash
  file : (stashBytes stash).length ≤ vectorMaxSize

theorem StashOk.keepable (hStash : StashOk env.cfg stash)
    (hShaped : env.cfg.Shaped) : Keepable env.cfg stash := by
  constructor
  case data => exact fun block hBlock => (hStash.held block hBlock).data
  case vector => exact hStash.length_le.trans hShaped.blocksFit
  case file =>
    have hLength := length_stashBytes stash fun block hBlock => (hStash.held block hBlock).data
    have hMul := Nat.mul_le_mul_right (24 + env.cfg.blockSize.toNat) hStash.length_le
    have hFits := hShaped.stashFits
    rw [RuntimeConfig.stashSize] at hFits
    omega

theorem Keepable.subperm {kept : List RingBlock} (h : Keepable env.cfg stash)
    (hKept : kept.Subperm stash) :
    Keepable env.cfg kept := by
  have hData : ∀ block ∈ kept, block.data.length = env.cfg.blockSize.toNat :=
    fun block hBlock => h.data block (hKept.subset hBlock)
  constructor
  case data => exact hData
  case vector => exact hKept.length_le.trans h.vector
  case file =>
    have hMul := Nat.mul_le_mul_right (24 + env.cfg.blockSize.toNat) hKept.length_le
    have hFile := h.file
    rw [length_stashBytes stash h.data] at hFile
    rw [length_stashBytes kept hData]
    omega

theorem Keepable.serialize (h : Keepable env.cfg stash) :
    serializeRingBlocks stash = .ok (stashBytes stash) := by
  rw [serializeRingBlocks_eq, checkSize_of_le h.file]

theorem Keepable.deserialize (h : Keepable env.cfg stash) :
    deserializeRingBlocks (stashBytes stash) = .ok stash :=
  deserializeRingBlocks_serialize h.vector h.serialize

theorem saveStashToDisk_spec (hStash : Keepable env.cfg state.stash) :
    Returns saveStashToDisk state fun _ state' => Synced state' state.stash :=
  Returns.get_bind (Returns.ok_bind hStash.serialize (Returns.set ⟨rfl, rfl⟩))

theorem loadStashFromDisk_spec (hSynced : Synced state stash) (hStash : Keepable env.cfg stash) :
    Returns (loadStashFromDisk env) state fun _ state' => Synced state' stash := by
  apply Returns.get_bind
  rw [hSynced.disk]
  apply Returns.ok_bind hStash.deserialize
  refine Returns.set_bind (Returns.throwIf ?_ ⟨rfl, rfl⟩)
  rintro ⟨block, hBlock, hLength⟩
  exact hLength (hStash.data block hBlock)

theorem putBlockInStash_spec (hSynced : Synced state stash) (hStash : Keepable env.cfg stash)
    (hAddr : block.addr ≠ kDummyAddress) (hPut : Keepable env.cfg (put stash block)) :
    Returns (putBlockInStash env block) state fun _ state' => Synced state' (put stash block) := by
  rw [putBlockInStash, if_neg (by rw [RingBucket.isDummy_eq_false hAddr]; simp)]
  apply (loadStashFromDisk_spec hSynced hStash).bind
  intro _ state' hLoaded
  apply Returns.modify_bind
  have hEq : state'.stash.filter (fun stashed => stashed.addr != block.addr) ++
      [block] = put stash block := by
    rw [hLoaded.memory, put]
  rw [hEq]
  exact saveStashToDisk_spec hPut

theorem removeBlockFromStash_spec (hSynced : Synced state stash)
    (hStash : Keepable env.cfg stash) (addr : UInt64) :
    Returns (removeBlockFromStash env addr) state fun _ state' =>
      Synced state' (stash.filter fun block => block.addr != addr) := by
  have hSub : (stash.filter fun block => block.addr != addr).Sublist stash := List.filter_sublist
  apply (loadStashFromDisk_spec hSynced hStash).bind
  intro _ state' hLoaded
  apply Returns.get_bind
  rw [hLoaded.memory]
  apply Returns.set_bind
  split
  · exact saveStashToDisk_spec (hStash.subperm hSub.subperm)
  · rename_i hLength
    refine Returns.pure ⟨rfl, ?_⟩
    rw [hSub.eq_of_length (not_not.mp hLength)]
    exact hLoaded.disk

theorem takeBlockFromStash_spec (hSynced : Synced state stash)
    (hStash : Keepable env.cfg stash) (addr : UInt64) :
    Returns (takeBlockFromStash env addr) state fun taken state' =>
      taken = stash.find? (fun block => block.addr == addr) ∧
        Synced state' (stash.eraseP fun block => block.addr == addr) := by
  apply (loadStashFromDisk_spec hSynced hStash).bind
  intro _ state' hLoaded
  apply Returns.get_bind
  rw [hLoaded.memory]
  cases hFind : stash.find? fun block => block.addr == addr with
  | none =>
    refine Returns.pure ⟨rfl, hLoaded.memory.trans ?_, ?_⟩
    · exact (List.eraseP_of_forall_not (List.find?_eq_none.mp hFind)).symm
    · rw [List.eraseP_of_forall_not (List.find?_eq_none.mp hFind)]
      exact hLoaded.disk
  | some block =>
    apply Returns.set_bind
    apply (saveStashToDisk_spec (hStash.subperm List.eraseP_sublist.subperm)).bind
    intro _ _ hSaved
    exact Returns.pure ⟨rfl, hSaved⟩

end Stash

/-! ## Whole buckets -/

section Buckets

variable {index : UInt64}

/-- The block may lie in bucket `b`. -/
def MayReside (cfg : RuntimeConfig) (block : RingBlock) (b : Nat) : Prop :=
  block.leaf.toNat < 2 ^ cfg.depth ∧ b ∈ cfg.path block.leaf

/-- The block is no dummy and may lie in bucket `b`. -/
def MayEnter (cfg : RuntimeConfig) (block : RingBlock) (b : Nat) : Prop :=
  block.addr ≠ kDummyAddress ∧ MayReside cfg block b

/-- A block that is no dummy belongs to a leaf of the tree. -/
def OnTree (cfg : RuntimeConfig) (block : RingBlock) : Prop := block.addr ≠ kDummyAddress →
    block.leaf.toNat < 2 ^ cfg.depth

/-- Selection takes blocks that belong on the way of the bucket until it is full or no such block is
left. -/
theorem selectBlocks_fill (hShaped : env.cfg.Shaped) (hIndex : index.toNat ∈ env.cfg.nodes)
    (room : Nat) {stash : List RingBlock} (hStash : ∀ block ∈ stash, OnTree env.cfg block) :
    ∃ selected kept : List RingBlock, selectBlocks env index room stash = .ok (selected, kept) ∧
      Fill (MayEnter env.cfg) room index.toNat (stash : Multiset RingBlock) selected kept := by
  induction stash generalizing room with
  | nil =>
    refine ⟨[], [], ?_, rfl, Nat.zero_le _, fun _ hBlock => absurd hBlock (Multiset.notMem_zero _),
      Or.inr fun _ hBlock => absurd hBlock (Multiset.notMem_zero _)⟩
    cases room <;> rfl
  | cons block stash ih =>
    cases room with
    | zero =>
      exact ⟨[], block :: stash, rfl, rfl, Nat.le_refl _, fun _ hBlock =>
        absurd hBlock (Multiset.notMem_zero _), Or.inl rfl⟩
    | succ room =>
      have hTail : ∀ other ∈ stash, OnTree env.cfg other := fun other hOther =>
        hStash other (List.mem_cons_of_mem _ hOther)
      -- A dummy and a block of another path stay behind.
      have hPassed (hNot : ¬ MayEnter env.cfg block index.toNat) {selected kept : List RingBlock}
          (hFill : Fill (MayEnter env.cfg) (room + 1) index.toNat
            (stash : Multiset RingBlock) selected kept) :
          Fill (MayEnter env.cfg) (room + 1) index.toNat
            ((block :: stash : List RingBlock) : Multiset RingBlock)
            selected ((block :: kept : List RingBlock) : Multiset RingBlock) := by
        refine ⟨?_, hFill.room, hFill.allowed, hFill.greedy.imp_right fun hNone other hOther => ?_⟩
        · rw [← Multiset.cons_coe, Multiset.add_cons, hFill.split, Multiset.cons_coe]
        · obtain rfl | hMem := List.mem_cons.mp hOther
          · exact hNot
          · exact hNone other hMem
      by_cases hDummy : block.addr = kDummyAddress
      · obtain ⟨selected, kept, hSelect, hFill⟩ := ih (room + 1) hTail
        refine ⟨selected, block :: kept, ?_, hPassed (fun hMay => hMay.1 hDummy) hFill⟩
        have hIs : block.isDummy = true := decide_eq_true hDummy
        simp only [selectBlocks, hIs, if_true, bind, Except.bind, pure, Except.pure,
          Bool.false_eq_true, if_false, hSelect]
      have hLeaf := hStash block List.mem_cons_self hDummy
      have hReside := RuntimeConfig.isBucketOnLeafPath_eq_ok hShaped.depth
        (mem_nodes.mp hIndex) hLeaf
      rw [selectBlocks, RingBucket.isDummy_eq_false hDummy, canResideInBucket, hReside]
      by_cases hPath : index.toNat ∈ HeapTree.path env.cfg.depth block.leaf.toNat
      · obtain ⟨selected, kept, hSelect, hFill⟩ := ih room hTail
        refine ⟨block :: selected, kept, ?_, ?_, Nat.succ_le_succ hFill.room, ?_, ?_⟩
        · simp only [Bool.false_eq_true, if_false, decide_eq_true hPath, bind,
            Except.bind, if_true, hSelect]
          rfl
        · exact congrArg (block ::ₘ ·) hFill.split
        · intro other hOther
          obtain rfl | hMem := List.mem_cons.mp hOther
          · exact ⟨hDummy, hLeaf, hPath⟩
          · exact hFill.allowed other hMem
        · exact hFill.greedy.imp_left (congrArg (· + 1))
      · obtain ⟨selected, kept, hSelect, hFill⟩ := ih (room + 1) hTail
        refine ⟨selected, block :: kept, ?_, hPassed (fun hMay => hPath hMay.2.2) hFill⟩
        simp only [Bool.false_eq_true, if_false, decide_eq_false hPath, bind, Except.bind, hSelect]
        rfl

theorem Fill.perm {may : RingBlock → Nat → Prop} {room b : Nat}
    {stash selected kept : List RingBlock}
    (h : Fill may room b (stash : Multiset RingBlock) selected kept) :
    (selected ++ kept).Perm stash :=
  Multiset.coe_eq_coe.mp h.split

/-- Filling an empty bucket: as many blocks as it can take leave the stash and its file for the
bucket. -/
theorem fillBucketFromStash_spec (hShaped : env.cfg.Shaped) (hIndex : index.toNat ∈ env.cfg.nodes)
    {stash : List RingBlock} (hSynced : Synced w.stash stash) (hStash : Keepable env.cfg stash)
    (hBlocks : ∀ block ∈ stash, OnTree env.cfg block) :
    Returns (fillBucketFromStash env index
      (RingBucket.empty env.cfg.z env.cfg.s env.cfg.blockSize)) w
      fun bucket w' => ∃ (selected kept : List RingBlock) (state : StashState) (prng : Nat),
        Fill (MayEnter env.cfg) env.cfg.z.toNat index.toNat
        (stash : Multiset RingBlock) selected kept ∧
        bucket.Fresh env.cfg selected ∧ Synced state kept ∧
        w' = { w with stash := state, prng := prng } := by
  obtain ⟨selected, kept, hSelect, hFill⟩ :=
    selectBlocks_fill hShaped hIndex env.cfg.z.toNat hBlocks
  have hPerm := Fill.perm hFill
  have hSelected : ∀ block ∈ selected, Storable env.cfg block := fun block hBlock =>
    ⟨(hFill.allowed block hBlock).1,
      hStash.data block (hPerm.subset (List.mem_append_left _ hBlock))⟩
  have hKept : Keepable env.cfg kept :=
    hStash.subperm ((List.sublist_append_right _ _).subperm.trans hPerm.subperm)
  apply withStash_bind (loadStashFromDisk_spec hSynced hStash)
  intro _ state hLoaded
  apply Returns.get_bind
  rw [hLoaded.memory]
  apply Returns.ok_bind hSelect
  have hModify : Returns (modify fun state : StashState =>
      { state with stash := kept } : StashM Unit) state
      fun _ state' => state'.stash = kept := Returns.modify rfl
  apply withStash_bind hModify
  intro _ state' hState'
  apply withPrng_bind (drawPermutation_spec env _ _)
  rintro _ prng ⟨shuffle, rfl⟩
  obtain ⟨bucket, hReset, hFresh⟩ :=
    RingBucket.resetWithBlocks_fresh hShaped.slots hFill.room hSelected shuffle
  apply Returns.ok_bind hReset
  have hSave := @saveStashToDisk_spec env state' (hState' ▸ hKept)
  rw [hState'] at hSave
  apply withStash_bind hSave
  intro _ state'' hSaved
  exact Returns.pure ⟨selected, kept, state'', prng, hFill, hFresh, hSaved, rfl⟩

/-- The stash of a running client has no dummies. -/
theorem fillBucketFromStash_fill (hShaped : env.cfg.Shaped) (hIndex : index.toNat ∈ env.cfg.nodes)
    {stash : List RingBlock} (hSynced : Synced w.stash stash) (hStash : StashOk env.cfg stash) :
    Returns (fillBucketFromStash env index
      (RingBucket.empty env.cfg.z env.cfg.s env.cfg.blockSize)) w
      fun bucket w' => ∃ (selected kept : List RingBlock) (state : StashState) (prng : Nat),
        Fill (MayReside env.cfg) env.cfg.z.toNat index.toNat
        (stash : Multiset RingBlock) selected kept ∧
        bucket.Fresh env.cfg selected ∧ Synced state kept ∧
        w' = { w with stash := state, prng := prng } := by
  have hBlocks : ∀ block ∈ stash, OnTree env.cfg block :=
    fun block hBlock _ => (hStash.held block hBlock).leaf
  apply (fillBucketFromStash_spec hShaped hIndex hSynced (hStash.keepable hShaped) hBlocks).mono
  rintro bucket w' ⟨selected, kept, state, prng, hFill, hRest⟩
  refine ⟨selected, kept, state, prng, hFill.congr fun block hBlock => ?_, hRest⟩
  exact and_iff_right (hStash.held block hBlock).addr_ne_dummy

theorem expectAck_spec : Returns (expectAck .ack) w fun _ w' => w' = w :=
  Returns.throwIf (not_not.mpr rfl) rfl

theorem sendBucket_spec (hAccepted : env.cfg.Accepted) (h : Stored env w v)
    (hIndex : index.toNat ∈ env.cfg.nodes) {bucket : RingBucket} {selected : List RingBlock}
    (hFresh : bucket.Fresh env.cfg selected) (hValid : Plain.Valid env.cfg
      { v with bucket := Function.update v.bucket index.toNat bucket }) :
    Returns (withIvs (encryptBucket env bucket) >>= writeEncryptedBucketToServer env index) w
      fun _ w' => Stored env w' (({ v with bucket := Function.update v.bucket index.toNat bucket } :
        Plain).observe (.writeBucket index env.cfg.bucketSize)) := by
  have hSealable := hFresh.wellFormed.sealable hAccepted.slotsFit
  apply withIvs_bind (encryptBucket_spec hSealable hFresh.wellFormed.payload _)
  intro encrypted ivs hSeals
  apply Returns.ok_bind (serialize_sealed hAccepted hSeals hFresh.wellFormed)
  have hHandler := handleWriteBucket_spec hAccepted h.tree hIndex hSeals hFresh.wellFormed
  refine (roundTrip_spec hAccepted (h.withIvs ivs) (.writeBucket index (bucketBytes encrypted))
    (.writeBucket index env.cfg.bucketSize) hHandler hValid ?_).bind ?_
  · rintro _ files rfl
    have hCount : countField (bucketBytes encrypted) = encodeWord 0 := by
      rw [countField_bucket hSeals, Plain.count_of_fresh hFresh]
    have hSize := hSeals.length_bucket hFresh.wellFormed
    simp [Event.sketch, Sketch.writeBucket, Sketch.word, Request.encode,
      Request.fields, Request.buckets,
      Response.encode, Response.fields, Response.buckets, Response.masked, sendVec, hCount, hSize]
    omega
  · rintro _ w' ⟨rfl, hFinal⟩
    apply expectAck_spec.mono
    rintro _ _ rfl
    exact hFinal

/-- A bucket write moves as many blocks as the bucket can take out of the stash. -/
theorem writeBucket_fill (hAccepted : env.cfg.Accepted) (h : Stored env w v)
    (hIndex : index.toNat ∈ env.cfg.nodes) :
    Returns (writeBucket env index) w fun _ w' =>
      ∃ (selected kept : List RingBlock) (bucket : RingBucket),
      Fill (MayReside env.cfg) env.cfg.z.toNat index.toNat
      (v.stash : Multiset RingBlock) selected kept ∧
      bucket.Fresh env.cfg selected ∧
      Stored env w' (({ v with
        stash := kept
        bucket := Function.update v.bucket index.toNat bucket } : Plain).observe
        (.writeBucket index env.cfg.bucketSize)) := by
  apply (fillBucketFromStash_fill hAccepted.toShaped hIndex h.synced h.valid.stash).bind
  rintro bucket _ ⟨selected, kept, state, prng, hFill, hFresh, hSynced, rfl⟩
  have hRefills : v.Refills env.cfg index.toNat
      { v with stash := kept, bucket := Function.update v.bucket index.toNat bucket } :=
    .intro (Fill.perm hFill) (fun block hBlock => (hFill.allowed block hBlock).2) hFresh
  have hValid := hRefills.valid h.valid
  have hStored := (h.withStash hSynced hValid.stash).withPrng prng
  apply (sendBucket_spec hAccepted hStored hIndex hFresh hValid).mono
  intro _ w' hFinal
  exact ⟨selected, kept, bucket, hFill, hFresh, hFinal⟩

/-- The first loop of `ReadBucket`: the valid blocks among the remaining indices go to the stash. -/
theorem readRealSlots_spec {bucket : RingBucket} {rest : List Nat}
    (hPtrs : bucket.ptrs.Nodup) (hLength : bucket.addrs.length = bucket.ptrs.length)
    (hRest : rest.Nodup) (hLt : ∀ i ∈ rest, i < bucket.addrs.length)
    (hStorable : ∀ i ∈ rest, bucket.validReal i = true → Storable env.cfg (bucket.entry i))
    {stash : List RingBlock} (hSynced : Synced w.stash stash)
    (hKeepable : ∀ blocks, blocks <+: (rest.filter bucket.validReal).map bucket.entry →
      Keepable env.cfg (blocks.foldl put stash)) (reads : Nat) :
    Returns (rest.foldlM (readRealSlot env) (bucket, reads)) w fun read w' =>
      (∃ state, Synced state (((rest.filter bucket.validReal).map bucket.entry).foldl put stash) ∧
        w' = { w with stash := state }) ∧
      read.1.validDummyOffsets = bucket.validDummyOffsets ∧
      read.2 = reads + (rest.filter bucket.validReal).length := by
  induction rest generalizing bucket reads w stash with
  | nil => exact Returns.pure ⟨⟨w.stash, hSynced, rfl⟩, rfl, rfl⟩
  | cons i rest ih =>
    rw [List.nodup_cons] at hRest
    have hTail : ∀ j ∈ rest, j < bucket.addrs.length :=
      fun j hj => hLt j (List.mem_cons_of_mem _ hj)
    rw [List.foldlM_cons, readRealSlot]
    cases hReal : bucket.validReal i with
    | false =>
      rw [List.filter_cons_of_neg (by rw [hReal]; simp)] at hKeepable ⊢
      exact ih hPtrs hLength hRest.2 hTail (fun j hj => hStorable j (List.mem_cons_of_mem _ hj))
        hSynced hKeepable reads
    | true =>
      have hi := hLt i List.mem_cons_self
      have hEntry := hStorable i List.mem_cons_self hReal
      have hBlock : RingBlock.mk (bucket.addrs.getD i 0) (bucket.leaves.getD i 0)
          (resize (bucket.data.getD (bucket.ptrs.getD i 0) {}).data env.cfg.blockSize.toNat) =
            bucket.entry i := congrArg (RingBlock.mk _ _) (resize_of_length hEntry.data)
      have hSame : ∀ j ∈ rest, (bucket.touch (bucket.ptr i)).validReal j = bucket.validReal j := by
        intro j hj
        have hNe : bucket.ptr j ≠ bucket.ptr i := fun hEq =>
          hRest.1 (getD_injective hPtrs (hLength ▸ hTail j hj) (hLength ▸ hi) hEq ▸ hj)
        rw [RingBucket.validReal_touch, bne_iff_ne.mpr hNe, Bool.and_true]
      rw [List.filter_cons_of_pos hReal, List.map_cons] at hKeepable ⊢
      rw [List.foldl_cons, List.length_cons]
      have hFirst := hKeepable [bucket.entry i] ⟨_, rfl⟩
      have hPut := putBlockInStash_spec hSynced (hKeepable [] List.nil_prefix) hEntry.addr hFirst
      rw [← hBlock] at hPut
      simp only [if_true, bind_assoc]
      apply withStash_bind hPut
      intro _ state hNext
      rw [hBlock] at hNext
      have hFilter : rest.filter (RingBucket.validReal
          { bucket with valids := bucket.valids.set (bucket.ptr i) false }) =
            rest.filter bucket.validReal :=
        List.filter_congr hSame
      have hLoop := @ih { w with stash := state }
        { bucket with valids := bucket.valids.set (bucket.ptr i) false }
        hPtrs hLength hRest.2 hTail (by
          intro j hj hValid
          exact hStorable j (List.mem_cons_of_mem _ hj) ((hSame j hj).symm.trans hValid))
            _ hNext (by
          intro blocks hBlocks
          rw [hFilter] at hBlocks
          exact hKeepable (bucket.entry i :: blocks)
            (List.prefix_cons_iff.mpr (Or.inr ⟨blocks, rfl, hBlocks⟩))) (reads + 1)
      apply hLoop.mono
      rintro read _ ⟨⟨state', hFinal, rfl⟩, hDummies, hReads⟩
      rw [hFilter] at hFinal hReads
      refine ⟨⟨state', hFinal, rfl⟩, hDummies.trans ?_, by omega⟩
      exact RingBucket.validDummyOffsets_touch_real (RingBucket.mem_liveIndices.mpr ⟨hi, hReal⟩)

/-- The second loop of `ReadBucket` never lacks a dummy. -/
theorem padFullRead_spec (bucket : RingBucket) (missing : Nat)
    (hMissing : missing ≤ bucket.validDummyOffsets.length) :
    Returns (padFullRead env bucket missing) w fun _ w' => ∃ prng,
    w' = { w with prng := prng } := by
  induction missing generalizing bucket w with
  | zero => exact Returns.pure ⟨w.prng, rfl⟩
  | succ missing ih =>
    have hPos : 0 < bucket.validDummyOffsets.length := by omega
    rw [padFullRead]
    apply Returns.check_bind (List.length_pos_iff.mp hPos)
    apply withPrng_bind (uniformInt_spec env _ _ hPos)
    intro choice prng hChoice
    have hMem : bucket.validDummyOffsets.getD choice 0 ∈ bucket.validDummyOffsets := by
      rw [List.getD_eq_getElem _ _ hChoice]
      exact List.getElem_mem hChoice
    have hLength := RingBucket.length_validDummyOffsets_touch hMem
    refine (ih { bucket with
      valids := bucket.valids.set (bucket.validDummyOffsets.getD choice 0) false } ?_).mono ?_
    · change missing ≤
        (bucket.touch (bucket.validDummyOffsets.getD choice 0)).validDummyOffsets.length
      omega
    · rintro _ w' ⟨final, rfl⟩
      exact ⟨final, rfl⟩

theorem fetchServerBucketCount_spec (hAccepted : env.cfg.Accepted) (h : Stored env w v)
    (hIndex : index.toNat ∈ env.cfg.nodes) :
    Returns (fetchServerBucketCount env index) w fun count w' =>
      count = (v.bucket index.toNat).count ∧
      Stored env w' (v.observe (.readBucketCount index (v.bucket index.toNat).count)) := by
  have hHandler : Returns (handleRequest env.cfg (.readBucketCount index)) w.server
      fun response server =>
      response = .bucketCount (v.bucket index.toNat).count ∧ Holds env server v.bucket := by
    apply (handleReadBucketCount_spec hAccepted h.tree h.valid hIndex).mono
    rintro response server ⟨rfl, hResponse⟩
    exact ⟨hResponse, h.tree⟩
  refine (roundTrip_spec hAccepted h _
    (.readBucketCount index (v.bucket index.toNat).count) hHandler
    h.valid ?_).bind ?_
  · rintro _ files rfl
    simp [Event.sketch, Sketch.readBucketCount, Sketch.word, Request.encode,
      Request.fields, Request.buckets,
      Response.encode, Response.fields, Response.buckets, Response.masked]
  · rintro _ w' ⟨rfl, hFinal⟩
    exact Returns.pure ⟨rfl, hFinal⟩

theorem readEncryptedBucket_spec (hAccepted : env.cfg.Accepted) (h : Stored env w v)
    (hIndex : index.toNat ∈ env.cfg.nodes) :
    Returns (readEncryptedBucketFromServer env index) w fun encrypted w' =>
      Seals env encrypted (v.bucket index.toNat) ∧
      Stored env w' (v.observe
        (.readBucket index (v.bucket index.toNat).count env.cfg.bucketSize)) := by
  have hWell := h.valid.wellFormed _ hIndex
  have hHandler : Returns (handleRequest env.cfg (.readBucket index)) w.server
      fun response server =>
      (∃ encrypted, response = .bucket (bucketBytes encrypted) ∧
        Seals env encrypted (v.bucket index.toNat)) ∧
        Holds env server v.bucket := by
    apply (handleReadBucket_spec hAccepted h.tree h.valid hIndex).mono
    rintro response server ⟨rfl, hResponse⟩
    exact ⟨hResponse, h.tree⟩
  refine (roundTrip_spec hAccepted h _
    (.readBucket index (v.bucket index.toNat).count env.cfg.bucketSize)
    hHandler h.valid ?_).bind ?_
  · rintro _ files ⟨encrypted, rfl, hSeals⟩
    simp [Event.sketch, Sketch.readBucket, Sketch.word, Request.encode,
      Request.fields, Request.buckets,
      Response.encode, Response.fields, Response.buckets, Response.masked, sendVec,
      countField_bucket hSeals, hSeals.length_bucket hWell]
  · rintro _ w' ⟨⟨encrypted, rfl, hSeals⟩, hFinal⟩
    exact Returns.fromExcept (deserialize_sealed hAccepted hSeals hWell) ⟨hSeals, hFinal⟩

/-- Once a bucket has arrived, its live blocks go to the stash and the padding finds enough dummies.
-/
theorem emptyBucket_spec (hAccepted : env.cfg.Accepted)
    {encrypted : EncryptedRingBucket} {plain : RingBucket}
    (hSeals : Seals env encrypted plain) (hWell : plain.WellFormed env.cfg)
    (hCount : plain.count.toNat ≤ env.cfg.s.toNat)
    (hStorable : ∀ block ∈ plain.liveBlocks, Storable env.cfg block) {stash : List RingBlock}
    (hSynced : Synced w.stash stash) (hKeepable : ∀ blocks, blocks <+: plain.liveBlocks →
      Keepable env.cfg (blocks.foldl put stash)) :
    Returns (do
      let bucket ← fromExcept (decryptBucket env encrypted)
      let (bucket, reads) ← (List.range bucket.addrs.length).foldlM (readRealSlot env) (bucket, 0)
      padFullRead env bucket (env.cfg.z.toNat - reads)) w fun _ w' => ∃ state prng,
        Synced state (plain.liveBlocks.foldl put stash) ∧
        w' = { w with stash := state, prng := prng } := by
  obtain ⟨bucket, hDecrypt, hSame, hPayload⟩ := decryptBucket_spec hSeals hWell hAccepted.slots
  have hEntry := hSame.entry hPayload
  have hBlocks : (List.filter bucket.validReal (List.range bucket.addrs.length)).map bucket.entry =
      plain.liveBlocks := by
    rw [RingBucket.liveBlocks, ← hSame.liveIndices, ← hEntry]
    rfl
  have hEntries : ∀ i ∈ List.range bucket.addrs.length, bucket.validReal i = true →
      Storable env.cfg (bucket.entry i) := by
    intro i hi hReal
    apply hStorable
    rw [← hBlocks]
    exact List.mem_map_of_mem (List.mem_filter.mpr ⟨hi, hReal⟩)
  apply Returns.ok_bind hDecrypt
  refine (readRealSlots_spec (hSame.ptrs ▸ hWell.ptrs_nodup)
    (by rw [hSame.addrs, hSame.ptrs, hWell.addrs, hWell.ptrs]) List.nodup_range
    (fun i hi => List.mem_range.mp hi) hEntries hSynced (hBlocks ▸ hKeepable) 0).bind ?_
  rintro ⟨read, reads⟩ _ ⟨⟨state, hFinal, rfl⟩, hDummies, hReads⟩
  have hCover := RingBucket.dummies_cover hWell hCount
  have hLive : reads = plain.liveIndices.length := by
    rw [← hSame.liveIndices]
    exact hReads.trans (Nat.zero_add _)
  refine (padFullRead_spec read _ ?_).mono ?_
  · rw [show read.validDummyOffsets = bucket.validDummyOffsets from hDummies,
      hSame.validDummyOffsets]
    omega
  · rintro _ _ ⟨prng, rfl⟩
    exact ⟨state, prng, hBlocks ▸ hFinal, rfl⟩

/-- A bucket is read in full: its live blocks go to the stash. -/
theorem readBucket_spec (hAccepted : env.cfg.Accepted) (h : Stored env w v)
    (hIndex : index.toNat ∈ env.cfg.nodes) :
    Returns (readBucket env index) w fun _ w' =>
      Stored env w' ((v.observe
        (.readBucket index (v.bucket index.toNat).count env.cfg.bucketSize)).read
        index.toNat) := by
  have hHeld := h.valid.held _ hIndex
  apply (readEncryptedBucket_spec hAccepted h hIndex).bind
  rintro encrypted w' ⟨hSeals, hStored⟩
  have hKeepable : ∀ blocks, blocks <+: (v.bucket index.toNat).liveBlocks →
      Keepable env.cfg (blocks.foldl put v.stash) := fun blocks hBlocks =>
    (h.valid.stash.foldl_put fun block hBlock => hHeld block (hBlocks.subset hBlock)).keepable
      hAccepted.toShaped
  apply (emptyBucket_spec hAccepted hSeals (h.valid.wellFormed _ hIndex) (h.valid.counts _ hIndex)
    (fun block hBlock => (hHeld block hBlock).storable) hStored.synced hKeepable).mono
  rintro _ _ ⟨state, prng, hSynced, rfl⟩
  exact (hStored.withStash hSynced (h.valid.stash.foldl_put hHeld)).withPrng prng

end Buckets

end OramHub.RingOram
