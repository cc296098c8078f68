import OramHub.Lib.Tape
import OramHub.RingOram.Handlers
import OramHub.RingOram.Trace

/-! # Where the Ring ORAM client reads its draws

The client draws leaves, dummy slots and permutations from one generator, so the tick at which a
leaf is drawn depends on what has been drawn before. The budgets count how far each operation may
get.
-/
namespace OramHub.RingOram
open OramHub.Core OramHub.Program OramHub.Tape
set_option autoImplicit false

/-- The draws of the client, listed on a tape. -/
def Env.drawing (env : Env) (tape : Nat → Nat) : Env :=
  { env with entropy := { env.entropy with draw := tape } }

/-- A part of the state that only the remapping of an address and the requests that reveal a leaf
change. -/
structure Framed {υ : Type} (view : World → υ) : Prop where
  stash : ∀ (w : World) stash, view { w with stash := stash } = view w
  round : ∀ (w : World) round, view { w with round := round } = view w
  evictionCounter : ∀ (w : World) counter, view { w with evictionCounter := counter } = view w
  readPathCount : ∀ (w : World) count, view { w with readPathCount := count } = view w
  earlyReshuffleCount : ∀ (w : World) count, view { w with earlyReshuffleCount := count } = view w
  fabricated : ∀ (w : World) count, view { w with fabricated := count } = view w
  prng : ∀ (w : World) prng, view { w with prng := prng } = view w
  ivs : ∀ (w : World) ivs, view { w with ivs := ivs } = view w
  server : ∀ (w : World) server, view { w with server := server } = view w
  log : ∀ (w : World) event, Event.leaf? event = none →
    view { w with log := w.log ++ [event] } = view w

variable {env : Env} {υ : Type} {view : World → υ}

/-! Operations in which the draws play no part. -/
section Drawing

variable (env : Env) (tape : Nat → Nat)

@[simp] theorem Env.drawing_cfg : (env.drawing tape).cfg = env.cfg := rfl
@[simp] theorem decryptMetadata_drawing :
    decryptMetadata (env.drawing tape) = decryptMetadata env := rfl
@[simp] theorem decryptBucket_drawing : decryptBucket (env.drawing tape) = decryptBucket env := rfl
@[simp] theorem encryptBucket_drawing : encryptBucket (env.drawing tape) = encryptBucket env := rfl
@[simp] theorem loadStashFromDisk_drawing :
    loadStashFromDisk (env.drawing tape) = loadStashFromDisk env := rfl
@[simp] theorem putBlockInStash_drawing :
    putBlockInStash (env.drawing tape) = putBlockInStash env := rfl
@[simp] theorem locateBlock_drawing : locateBlock (env.drawing tape) = locateBlock env := rfl
@[simp] theorem drawPermutation_drawing :
    drawPermutation (env.drawing tape) = drawPermutation env := rfl
@[simp] theorem readRealSlot_drawing : readRealSlot (env.drawing tape) = readRealSlot env := rfl
@[simp] theorem readEncryptedBucketFromServer_drawing :
    readEncryptedBucketFromServer (env.drawing tape) = readEncryptedBucketFromServer env := rfl
@[simp] theorem writeEncryptedBucketToServer_drawing :
    writeEncryptedBucketToServer (env.drawing tape) = writeEncryptedBucketToServer env := rfl
@[simp] theorem fetchServerBucketCount_drawing :
    fetchServerBucketCount (env.drawing tape) = fetchServerBucketCount env := rfl
@[simp] theorem fetchPathMetadata_drawing :
    fetchPathMetadata (env.drawing tape) = fetchPathMetadata env := rfl
@[simp] theorem fetchXorPath_drawing : fetchXorPath (env.drawing tape) = fetchXorPath env := rfl

@[simp] theorem selectBlocks_drawing : selectBlocks (env.drawing tape) = selectBlocks env := by
  funext bucketIdx room stash
  induction stash generalizing room with
  | nil => cases room <;> rfl
  | cons block stash ih =>
    cases room with
    | zero => rfl
    | succ room =>
      rw [selectBlocks, selectBlocks, ih, ih]
      rfl

end Drawing

section Randomness

theorem uniformInt_reads (size : Nat) :
    Reads id (fun _ => ()) 1 fun tape => uniformInt (env.drawing tape) size where
  forward _ tick := Nat.le_succ tick
  bounded _ _ := le_rfl
  kept _ _ := rfl
  decided tape tape' tick hSame := by
    have hDraw : tape' tick = tape tick := hSame tick (Nat.lt_succ_self tick)
    change EStateM.Result.ok (tape' tick % size) (tick + 1) =
      EStateM.Result.ok (tape tick % size) (tick + 1)
    rw [hDraw]

theorem getRandomLeaf_reads :
    Reads id (fun _ => ()) 1 fun tape => getRandomLeaf (env.drawing tape) := by
  simp only [getRandomLeaf, Env.drawing_cfg]
  exact (uniformInt_reads _).map UInt64.ofNat

theorem drawPermutation_reads (size : Nat) :
    Reads id (fun _ => ()) 1 fun _ : Nat → Nat => drawPermutation env size where
  forward _ tick := Nat.le_succ tick
  bounded _ _ := le_rfl
  kept _ _ := rfl
  decided _ _ _ _ := rfl

theorem getBlockOffset_reads (bucket : RingBucket) (addr : UInt64) :
    Reads id (fun _ => ()) 1 fun tape => getBlockOffset (env.drawing tape) bucket addr := by
  simp only [getBlockOffset, getBlockOffsetWith]
  split
  · exact (blind_pure _).reads
  · split
    · exact (blind_throw _).reads
    · exact (uniformInt_reads _).map _

end Randomness

section Requests

variable (hFramed : Framed view)
include hFramed

theorem withPrng_reads {α : Type} {budget : Nat} {x : (Nat → Nat) → PrngM α}
    (h : Reads id (fun _ => ()) budget x) :
    Reads World.prng view budget fun tape => withPrng (x tape) := by
  simp only [withPrng]
  exact Reads.zoom (fun _ => rfl) (fun _ _ => rfl) hFramed.prng h

theorem withStash_blind {α : Type} (x : StashM α) : Blind World.prng view (withStash x) :=
  @blind_zoom _ _ _ _ _ _ view World.stash (fun world stash => { world with stash := stash })
    (fun _ _ => rfl) hFramed.stash x

theorem withIvs_blind {α : Type} (x : IvM α) : Blind World.prng view (withIvs x) :=
  @blind_zoom _ _ _ _ _ _ view World.ivs (fun world ivs => { world with ivs := ivs })
    (fun _ _ => rfl) hFramed.ivs x

/-- A request that reveals no leaf. -/
theorem roundTrip_blind {request : Request}
    (hQuiet : ∀ response files, Event.leaf? ⟨request, response, files⟩ = none) :
    Blind World.prng view (roundTrip env request) := by
  intro w
  simp only [roundTrip, EStateM.run]
  split
  · split
    · rename_i response server _
      exact ⟨rfl, (hFramed.log { w with server := server } _ (hQuiet response server.files)).trans
        (hFramed.server w server)⟩
    · exact ⟨rfl, hFramed.server w _⟩
  · exact ⟨rfl, rfl⟩

theorem readEncryptedBucketFromServer_reads (bucketIdx : UInt64) :
    Reads World.prng view 0 fun _ : Nat → Nat => readEncryptedBucketFromServer env bucketIdx := by
  apply Reads.blind_bind (roundTrip_blind hFramed fun _ _ => rfl)
  intro response
  cases response <;> first | exact (blind_fromExcept _).reads | exact (blind_throw _).reads

theorem writeEncryptedBucketToServer_reads (bucketIdx : UInt64) (bucket : EncryptedRingBucket) :
    Reads World.prng view 0 fun _ : Nat → Nat =>
      writeEncryptedBucketToServer env bucketIdx bucket := by
  apply Reads.fromExcept_bind
  intro bytes _
  apply Reads.blind_bind (roundTrip_blind hFramed fun _ _ => rfl)
  intro response
  exact (blind_throwIf _ _).reads

theorem fetchServerBucketCount_reads (bucketIdx : UInt64) :
    Reads World.prng view 0 fun _ : Nat → Nat => fetchServerBucketCount env bucketIdx := by
  apply Reads.blind_bind (roundTrip_blind hFramed fun _ _ => rfl)
  intro response
  cases response <;> first | exact (blind_pure _).reads | exact (blind_throw _).reads

theorem fetchXorPath_reads (leaf : UInt64) (offsets : List Nat) (targetFlags : List Bool) :
    Reads World.prng view 0 fun _ : Nat → Nat => fetchXorPath env leaf offsets targetFlags := by
  apply Reads.check_bind
  intro _
  apply Reads.blind_bind (roundTrip_blind hFramed fun _ _ => rfl)
  intro response
  cases response with
  | xorPath aggregate ivCount ivs =>
    apply Reads.check_bind
    intro _
    apply Reads.check_bind
    intro _
    apply Reads.fromExcept_bind
    rintro ⟨targetCiphertext, targetIv⟩ _
    cases targetIv with
    | none => exact (blind_pure _).reads
    | some iv =>
      apply Reads.fromExcept_bind
      intro data _
      exact (blind_pure _).reads
  | _ => exact (blind_throw _).reads

end Requests

section Buckets

variable (hFramed : Framed view)
include hFramed

theorem readRealSlot_reads (read : RingBucket × Nat) (i : Nat) :
    Reads World.prng view 0 fun _ : Nat → Nat => readRealSlot env read i := by
  simp only [readRealSlot]
  split
  · apply Reads.blind_bind (withStash_blind hFramed _)
    intro _
    exact (blind_pure _).reads
  · exact (blind_pure _).reads

theorem padFullRead_reads (bucket : RingBucket) (missing : Nat) :
    Reads World.prng view missing fun tape => padFullRead (env.drawing tape) bucket missing := by
  induction missing generalizing bucket with
  | zero => exact (blind_pure _).reads
  | succ missing ih =>
    refine Reads.mono ?_ (Nat.add_comm 1 missing).le
    apply Reads.check_bind
    intro _
    exact (withPrng_reads hFramed (uniformInt_reads _)).bind fun choice => ih _

theorem readBucket_reads (bucketIdx : UInt64) :
    Reads World.prng view env.cfg.z.toNat fun tape => readBucket (env.drawing tape) bucketIdx := by
  simp only [readBucket, readEncryptedBucketFromServer_drawing, decryptBucket_drawing,
    readRealSlot_drawing, Env.drawing_cfg]
  refine Reads.mono ?_ (show 0 + (bucketIdx.toNat * 0 + env.cfg.z.toNat) ≤ env.cfg.z.toNat by omega)
  apply (readEncryptedBucketFromServer_reads hFramed bucketIdx).bind
  intro encrypted
  apply Reads.fromExcept_bind
  intro bucket _
  have hSlots := @Reads.foldlM _ _ _ _ _ _ World.prng view 0 (List.range bucket.addrs.length)
    (fun _ : Nat → Nat => readRealSlot env) (bucket, 0) fun read i _ =>
      readRealSlot_reads hFramed read i
  apply hSlots.bind
  rintro ⟨bucket, reads⟩
  exact (padFullRead_reads hFramed bucket _).mono (Nat.sub_le _ _)

theorem fillBucketFromStash_reads (bucketIdx : UInt64) (bucket : RingBucket) :
    Reads World.prng view 1 fun tape =>
      fillBucketFromStash (env.drawing tape) bucketIdx bucket := by
  simp only [fillBucketFromStash, loadStashFromDisk_drawing, selectBlocks_drawing, Env.drawing_cfg,
    drawPermutation_drawing]
  apply Reads.blind_bind (withStash_blind hFramed _)
  intro _
  apply Reads.get_bind
  intro world
  apply Reads.fromExcept_bind
  rintro ⟨selected, kept⟩ _
  apply Reads.blind_bind (withStash_blind hFramed _)
  intro _
  change Reads World.prng view (1 + 0) _
  apply (withPrng_reads hFramed (drawPermutation_reads _)).bind
  intro permutation
  apply Reads.fromExcept_bind
  intro filled _
  apply Reads.blind_bind (withStash_blind hFramed _)
  intro _
  exact (blind_pure _).reads

theorem writeBucket_reads (bucketIdx : UInt64) :
    Reads World.prng view 1 fun tape => writeBucket (env.drawing tape) bucketIdx := by
  simp only [writeBucket, encryptBucket_drawing, writeEncryptedBucketToServer_drawing,
    Env.drawing_cfg]
  change Reads World.prng view (1 + 0) _
  apply (fillBucketFromStash_reads hFramed bucketIdx _).bind
  intro bucket
  apply Reads.blind_bind (withIvs_blind hFramed _)
  intro encrypted
  exact writeEncryptedBucketToServer_reads hFramed bucketIdx encrypted

/-- The number of buckets on a path. -/
def pathLength (cfg : RuntimeConfig) : Nat := cfg.depth + 1

theorem evictPath_reads :
    Reads World.prng view (pathLength env.cfg * (env.cfg.z.toNat + 1)) fun tape =>
      evictPath (env.drawing tape) := by
  simp only [evictPath, Env.drawing_cfg]
  apply Reads.get_bind
  intro world
  refine Reads.modify_bind ?_ ?_ ?_
  · exact fun _ => rfl
  · exact fun _ => hFramed.evictionCounter _ _
  apply Reads.fromExcept_bind
  intro path hPath
  rw [pathLength, ← length_getPathIndices hPath, Nat.mul_add]
  apply (Reads.forM fun bucketIdx _ => readBucket_reads hFramed bucketIdx).bind
  intro _
  rw [← List.length_reverse]
  exact Reads.forM fun bucketIdx _ => writeBucket_reads hFramed bucketIdx

theorem reshuffleBucket_reads (bucketIdx : UInt64) :
    Reads World.prng view (env.cfg.z.toNat + 1) fun tape =>
      reshuffleBucket (env.drawing tape) bucketIdx := by
  change Reads World.prng view _ fun tape => fetchServerBucketCount env bucketIdx >>= fun count =>
    if env.cfg.s ≤ count then (do
      readBucket (env.drawing tape) bucketIdx
      writeBucket (env.drawing tape) bucketIdx
      modify fun world => { world with earlyReshuffleCount := world.earlyReshuffleCount + 1 })
    else return ()
  rw [← Nat.zero_add (env.cfg.z.toNat + 1)]
  apply (fetchServerBucketCount_reads hFramed bucketIdx).bind
  intro count
  by_cases hFull : env.cfg.s ≤ count
  · simp only [if_pos hFull]
    apply (readBucket_reads hFramed bucketIdx).bind
    intro _
    change Reads World.prng view (1 + 0) _
    apply (writeBucket_reads hFramed bucketIdx).bind
    intro _
    refine Blind.reads (blind_modify ?_ ?_)
    · exact fun _ => rfl
    · exact fun _ => hFramed.earlyReshuffleCount _ _
  · simp only [if_neg hFull]
    exact (blind_pure _).reads

theorem earlyReshuffle_reads (leaf : UInt64) :
    Reads World.prng view (pathLength env.cfg * (env.cfg.z.toNat + 1))
      fun tape => earlyReshuffle (env.drawing tape) leaf := by
  simp only [earlyReshuffle, Env.drawing_cfg]
  apply Reads.fromExcept_bind
  intro path hPath
  rw [pathLength, ← length_getPathIndices hPath]
  exact Reads.forM fun bucketIdx _ => reshuffleBucket_reads hFramed bucketIdx

theorem evictIfDue_reads :
    Reads World.prng view (pathLength env.cfg * (env.cfg.z.toNat + 1)) fun tape =>
      evictIfDue (env.drawing tape) := by
  simp only [evictIfDue]
  apply Reads.get_bind
  intro world
  by_cases hDue : world.round = 0
  · simp only [if_pos hDue]
    exact evictPath_reads hFramed
  · simp only [if_neg hDue]
    exact (blind_pure _).reads

end Buckets

section Access

/-- The draws of an access, besides the one for the new leaf. -/
def accessBudget (cfg : RuntimeConfig) : Nat :=
  pathLength cfg + 2 * (pathLength cfg * (cfg.z.toNat + 1))

variable (hFramed : Framed view)
include hFramed

theorem selectSlot_reads (addr : UInt64) (selected : List Nat × List Bool)
    (metadata : RingBucketMetadata) :
    Reads World.prng view 1 fun tape => selectSlot (env.drawing tape) addr selected metadata := by
  simp only [selectSlot, decryptMetadata_drawing]
  apply Reads.fromExcept_bind
  intro bucket _
  change Reads World.prng view (1 + 0) _
  apply (withPrng_reads hFramed (getBlockOffset_reads bucket addr)).bind
  intro offset
  apply Reads.check_bind
  intro _
  exact (blind_pure _).reads

/-- What `ReadPath` does once it has the metadata of the path. -/
def readSlots (env : Env) (leaf addr : UInt64)
    (metadata : List RingBucketMetadata) : RingM (Option Bytes) := do
  throwIf (metadata.length ≠ env.cfg.treeDepth.toNat + 1)
    (.runtimeError "Ring ORAM path metadata length mismatch")
  let (offsets, targetFlags) ← metadata.foldlM (selectSlot env addr) ([], [])
  modify fun world => { world with readPathCount := world.readPathCount + 1 }
  fetchXorPath env leaf offsets targetFlags

theorem readSlots_reads (leaf addr : UInt64) (metadata : List RingBucketMetadata) :
    Reads World.prng view (pathLength env.cfg) fun tape =>
      readSlots (env.drawing tape) leaf addr metadata := by
  simp only [readSlots, fetchXorPath_drawing, Env.drawing_cfg]
  apply Reads.check_bind
  intro hLength
  have hSlots := @Reads.foldlM _ _ _ _ _ _ World.prng view 1 metadata
    (fun tape => selectSlot (env.drawing tape) addr) ([], []) fun selected item _ =>
      selectSlot_reads hFramed addr selected item
  rw [Nat.mul_one, not_not.mp hLength] at hSlots
  change Reads World.prng view (pathLength env.cfg + 0) _
  apply hSlots.bind
  rintro ⟨offsets, targetFlags⟩
  refine Reads.modify_bind ?_ ?_ ?_
  · exact fun _ => rfl
  · exact fun _ => hFramed.readPathCount _ _
  · exact fetchXorPath_reads hFramed leaf offsets targetFlags

theorem locateBlock_blind (addr newLeaf : UInt64) (pathData : Option Bytes) :
    Reads World.prng view 0 fun _ : Nat → Nat => locateBlock env addr newLeaf pathData := by
  cases pathData with
  | some data =>
    apply Reads.blind_bind (withStash_blind hFramed _)
    intro _
    exact (blind_pure _).reads
  | none =>
    apply Reads.blind_bind (withStash_blind hFramed _)
    intro stashed
    cases stashed with
    | some block => exact (blind_pure _).reads
    | none =>
      refine Reads.modify_bind ?_ ?_ ?_
      · exact fun _ => rfl
      · exact fun _ => hFramed.fabricated _ _
      · exact (blind_pure _).reads

/-- What an access does once it has the metadata of the path. -/
def finishAccess (env : Env) (op : Op) (addr : UInt64) (data : Bytes) (oldLeaf newLeaf : UInt64)
    (metadata : List RingBucketMetadata) : RingM Bytes := do
  let pathData ← readSlots env oldLeaf addr metadata
  let located ← locateBlock env addr newLeaf pathData
  let block : RingBlock :=
    { addr := addr, leaf := newLeaf, data := if op = .write then data else located.data }
  withStash (putBlockInStash env block)
  modify fun world => { world with round := (world.round + 1) % env.cfg.a.toNat }
  evictIfDue env
  earlyReshuffle env oldLeaf
  return block.data

theorem finishAccess_reads (op : Op) (addr : UInt64) (data : Bytes) (oldLeaf newLeaf : UInt64)
    (metadata : List RingBucketMetadata) :
    Reads World.prng view (accessBudget env.cfg)
      fun tape => finishAccess (env.drawing tape) op addr data oldLeaf newLeaf metadata := by
  simp only [finishAccess, locateBlock_drawing, putBlockInStash_drawing, Env.drawing_cfg]
  have hBudget : pathLength env.cfg + (0 + (pathLength env.cfg * (env.cfg.z.toNat + 1) +
      pathLength env.cfg * (env.cfg.z.toNat + 1))) ≤ accessBudget env.cfg := by
    rw [accessBudget]
    omega
  refine Reads.mono ?_ hBudget
  apply (readSlots_reads hFramed oldLeaf addr metadata).bind
  intro pathData
  apply (locateBlock_blind hFramed addr newLeaf pathData).bind
  intro located
  apply Reads.blind_bind (withStash_blind hFramed _)
  intro _
  refine Reads.modify_bind ?_ ?_ ?_
  · exact fun _ => rfl
  · exact fun _ => hFramed.round _ _
  apply (evictIfDue_reads hFramed).bind
  intro _
  exact (earlyReshuffle_reads hFramed oldLeaf).map _

omit hFramed in
/-- An access draws the new leaf, asks for the metadata of the old path and finishes. -/
theorem access_eq (op : Op) (addr : UInt64) (data : Bytes) : access env op addr data = (do
    throwIf (env.cfg.numBlocks ≤ addr) (.outOfRange "Ring ORAM address out of range")
    throwIf (op = .write ∧ data.length ≠ env.cfg.blockSize.toNat)
      (.invalidArgument "Ring ORAM write size does not match block size")
    let world ← get
    match world.positionMap addr with
    | none => throw (.outOfRange "_Map_base::at")
    | some oldLeaf =>
      let newLeaf ← withPrng (getRandomLeaf env)
      modify fun world =>
        { world with positionMap := Function.update world.positionMap addr (some newLeaf) }
      let metadata ← fetchPathMetadata env oldLeaf
      finishAccess env op addr data oldLeaf newLeaf metadata) := by
  rw [access]
  refine bind_congr fun _ => bind_congr fun _ => bind_congr fun world => ?_
  cases world.positionMap addr with
  | none => rfl
  | some oldLeaf => simp only [readPath, finishAccess, readSlots, bind_assoc]

end Access
end OramHub.RingOram
