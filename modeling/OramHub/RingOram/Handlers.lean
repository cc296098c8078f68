import OramHub.RingOram.Codec
import OramHub.RingOram.Server

/-! # What a handler that returns has done

Inversion of the server's functions, one lemma each.
-/
namespace OramHub.RingOram
open OramHub.Core OramHub.Program
set_option autoImplicit false

variable {cfg : RuntimeConfig} {server server' : Server} {bucketIdx : UInt64}
  {bucket : EncryptedRingBucket}

theorem run_get_bind_eq_ok {ε σ α : Type} {f : σ → EStateM ε σ α} {s s' : σ} {a : α}
    (h : (get >>= f).run s = .ok a s') :
    (f s).run s = .ok a s' := h

theorem validateInitialized_eq_ok (h : (validateInitialized cfg).run server = .ok () server') :
    server.nodeCount = cfg.numTreeNodes ∧ server' = server := by
  have hCheck : (throwIf (server.nodeCount ≠ cfg.numTreeNodes)
      (Exception.runtimeError "Ring ORAM server has not been initialized")).run server =
        .ok () server' := h
  obtain ⟨hNodes, rfl⟩ := run_throwIf_eq_ok hCheck
  exact ⟨not_not.mp hNodes, rfl⟩

theorem validateInitialized_run (hNodes : server.nodeCount = cfg.numTreeNodes) :
    (validateInitialized cfg).run server = .ok () server := by
  change (throwIf (server.nodeCount ≠ cfg.numTreeNodes) _).run server = _
  rw [throwIf, if_neg (not_not.mpr hNodes)]
  rfl

theorem validateBucketShape_run (hShape : bucketShape cfg bucket) (context : String) :
    (validateBucketShape cfg bucket context).run server = .ok () server := by
  rw [validateBucketShape, throwIf, if_neg (not_not.mpr hShape)]
  rfl

theorem readBucketFromDisk_refuses (hRange : server.nodeCount ≤ bucketIdx) :
    (readBucketFromDisk cfg bucketIdx).run server =
      .error (.outOfRange "Ring ORAM bucket index out of range") server := by
  change (throwIf (server.nodeCount ≤ bucketIdx) _ >>= _).run server = _
  rw [throwIf, if_pos hRange]
  rfl

theorem readBucketFromDisk_eq_ok
    (h : (readBucketFromDisk cfg bucketIdx).run server = .ok bucket server') :
    server' = server ∧ bucketIdx < server.nodeCount ∧ bucketShape cfg bucket ∧
      ∃ bytes, server.files bucketIdx.toNat = some bytes ∧
      deserializeEncryptedRingBucket bytes = .ok bucket := by
  obtain ⟨_, _, hRange, hRead⟩ := run_bind_eq_ok (run_get_bind_eq_ok h)
  obtain ⟨hInRange, rfl⟩ := run_throwIf_eq_ok hRange
  split at hRead
  case h_1 => cases hRead
  case h_2 bytes hFile =>
    obtain ⟨_, _, hParse, hChecked⟩ := run_bind_eq_ok hRead
    obtain ⟨hBucket, rfl⟩ := run_fromExcept_eq_ok hParse
    obtain ⟨_, _, hCheck, hReturn⟩ := run_bind_eq_ok hChecked
    obtain ⟨hShape, rfl⟩ := run_throwIf_eq_ok hCheck
    cases hReturn
    exact ⟨rfl, UInt64.not_le.mp hInRange, not_not.mp hShape, bytes, hFile, hBucket⟩

theorem writeBucketToDisk_eq_ok
    (h : (writeBucketToDisk cfg bucketIdx bucket).run server = .ok () server') :
    bucketIdx < server.nodeCount ∧ ∃ bytes, serializeEncryptedRingBucket bucket = .ok bytes ∧
      server' = { server with
        files := Function.update server.files bucketIdx.toNat (some bytes) } := by
  obtain ⟨_, _, hRange, hWrite⟩ := run_bind_eq_ok (run_get_bind_eq_ok h)
  obtain ⟨hInRange, rfl⟩ := run_throwIf_eq_ok hRange
  obtain ⟨_, _, hCheck, hStore⟩ := run_bind_eq_ok hWrite
  obtain ⟨_, rfl⟩ := run_throwIf_eq_ok hCheck
  obtain ⟨bytes, _, hSerialize, hModify⟩ := run_bind_eq_ok hStore
  obtain ⟨hBytes, rfl⟩ := run_fromExcept_eq_ok hSerialize
  cases hModify
  exact ⟨UInt64.not_le.mp hInRange, bytes, hBytes, rfl⟩

theorem length_getPathIndices {leaf : UInt64} {path : List UInt64}
    (h : cfg.getPathIndices leaf = .ok path) :
    path.length = cfg.depth + 1 := by
  unfold RuntimeConfig.getPathIndices at h
  split at h
  · cases h
  · cases h
    rw [List.length_scanl, List.length_range]
    rfl

theorem toNat_length_path (hDepth : cfg.depth < 63) {leaf : UInt64} {path : List UInt64}
    (h : cfg.getPathIndices leaf = .ok path) :
    (UInt64.ofNat path.length).toNat = path.length := by
  rw [length_getPathIndices h]
  apply UInt64.toNat_ofNat_of_lt'
  rw [UInt64.size]
  omega

theorem toNat_lt_of_getPathIndices (hDepth : cfg.depth < 63) {leaf : UInt64} {path : List UInt64}
    (h : cfg.getPathIndices leaf = .ok path) : leaf.toNat < 2 ^ cfg.depth := by
  unfold RuntimeConfig.getPathIndices at h
  split at h
  case isTrue => cases h
  case isFalse hLeaf =>
    exact Nat.not_le.mp fun hRange => hLeaf ((RuntimeConfig.numLeaves_le_iff hDepth).mpr hRange)

/-- One slot that has been read and invalidated. -/
def SlotRead (cfg : RuntimeConfig) (server : Server) (selected : Bytes × List Bytes)
    (slot : UInt64 × UInt64) (selected' : Bytes × List Bytes) (server' : Server) : Prop :=
  ∃ stored bucket field bytes, server.files slot.1.toNat = some stored ∧
    deserializeEncryptedRingBucket stored = .ok bucket ∧ bucket.data[slot.2.toNat]? = some field ∧
    bucket.valids[slot.2.toNat]? = some true ∧ field.ciphertext.length = cfg.blockSize.toNat ∧
    selected'.1.length = selected.1.length ∧ selected'.2 = selected.2 ++ [field.iv] ∧
    serializeEncryptedRingBucket
      { bucket with valids := bucket.valids.set slot.2.toNat false, count := bucket.count + 1 } =
        .ok bytes ∧
    server' = { server with files := Function.update server.files slot.1.toNat (some bytes) }

theorem xorPathSlot_eq_ok {selected selected' : Bytes × List Bytes} {slot : UInt64 × UInt64}
    (h : (xorPathSlot cfg selected slot).run server = .ok selected' server') :
    SlotRead cfg server selected slot selected' server' := by
  obtain ⟨bucket, _, hRead, hSelect⟩ := run_bind_eq_ok h
  obtain ⟨rfl, _, _, stored, hFile, hBucket⟩ := readBucketFromDisk_eq_ok hRead
  dsimp only at hSelect
  split at hSelect
  case h_1 field valid hField hValid =>
    obtain ⟨_, _, hCheck, hSelect₁⟩ := run_bind_eq_ok hSelect
    obtain ⟨hIsValid, rfl⟩ := run_throwIf_eq_ok hCheck
    obtain ⟨_, _, hCheck', hSelect₂⟩ := run_bind_eq_ok hSelect₁
    obtain ⟨hBlock, rfl⟩ := run_throwIf_eq_ok hCheck'
    obtain ⟨aggregate, _, hXor, hSelect₃⟩ := run_bind_eq_ok hSelect₂
    obtain ⟨hAggregate, rfl⟩ := run_fromExcept_eq_ok hXor
    obtain ⟨_, _, hWrite, hReturn⟩ := run_bind_eq_ok hSelect₃
    obtain ⟨_, bytes, hBytes, rfl⟩ := writeBucketToDisk_eq_ok hWrite
    cases hReturn
    have hLength : aggregate.length = selected.1.length := by
      unfold serverXorInto at hAggregate
      split at hAggregate
      · cases hAggregate
      · rename_i hSame
        cases hAggregate
        rw [List.length_zipWith, ← not_not.mp hSame, Nat.min_self]
    rw [Bool.not_eq_false] at hIsValid
    rw [hIsValid] at hValid
    exact ⟨stored, bucket, field, bytes, hFile, hBucket, hField, hValid, not_not.mp hBlock,
      hLength, rfl, hBytes, rfl⟩
  case h_2 => cases hSelect

/-- Reading slots changes nothing but bucket files. -/
theorem xorPathSlots_frame {slots : List (UInt64 × UInt64)}
    {selected selected' : Bytes × List Bytes}
    (hRun : (slots.foldlM (xorPathSlot cfg) selected).run server = .ok selected' server') :
    server' = { server with files := server'.files } := by
  induction slots generalizing server selected with
  | nil =>
    cases hRun
    rfl
  | cons slot slots ih =>
    rw [List.foldlM_cons] at hRun
    obtain ⟨middle, _, hHead, hRest⟩ := run_bind_eq_ok hRun
    obtain ⟨_, _, _, _, _, _, _, _, _, _, _, _, rfl⟩ := xorPathSlot_eq_ok hHead
    exact (ih hRest).trans rfl

section Requests

variable {response : Response} {leaf offsetCount : UInt64} {offsets : List UInt64} {bytes : Bytes}

theorem handleXorPathSlots_eq_ok (h : (handleXorPathSlots cfg leaf offsetCount offsets).run server =
    .ok response server') :
    server.nodeCount = cfg.numTreeNodes ∧ ∃ path selected server₁,
    cfg.getPathIndices leaf = .ok path ∧
      offsetCount = UInt64.ofNat path.length ∧
      ((path.zip offsets).foldlM (xorPathSlot cfg) (List.replicate cfg.blockSize.toNat 0, [])).run
        server = .ok selected server₁ ∧
      response = .xorPath selected.1 (UInt64.ofNat selected.2.length) selected.2 ∧
      server' = { server₁ with
        xorPathReadCount := server₁.xorPathReadCount + 1
        lastXorPathSlotCount := offsetCount } := by
  obtain ⟨_, _, hInitialized, hRun₁⟩ := run_bind_eq_ok h
  obtain ⟨hNodes, rfl⟩ := validateInitialized_eq_ok hInitialized
  obtain ⟨path, _, hIndices, hRun₂⟩ := run_bind_eq_ok hRun₁
  obtain ⟨hPath, rfl⟩ := run_fromExcept_eq_ok hIndices
  obtain ⟨_, _, hCheck, hRun₃⟩ := run_bind_eq_ok hRun₂
  obtain ⟨hCount, rfl⟩ := run_throwIf_eq_ok hCheck
  obtain ⟨selected, server₁, hLoop, hRun₄⟩ := run_bind_eq_ok hRun₃
  obtain ⟨_, _, hModify, hReturn⟩ := run_bind_eq_ok hRun₄
  cases hModify
  cases hReturn
  exact ⟨hNodes, path, selected, server₁, hPath, not_not.mp hCount, hLoop, rfl, rfl⟩

theorem handleInit_eq_ok {nodeCount : UInt64} {buckets : List Bytes}
    (h : (handleInit cfg nodeCount buckets).run server = .ok response server') :
    nodeCount = cfg.numTreeNodes ∧ response = .ack ∧
    (forM (List.range nodeCount.toNat) (initBucket cfg buckets)).run
      { server with files := fun _ => none, nodeCount := nodeCount } = .ok () server' := by
  obtain ⟨_, _, hCheck, hRun₁⟩ := run_bind_eq_ok h
  obtain ⟨hNodes, rfl⟩ := run_throwIf_eq_ok hCheck
  obtain ⟨_, _, hModify, hRun₂⟩ := run_bind_eq_ok hRun₁
  cases hModify
  obtain ⟨_, _, hLoop, hReturn⟩ := run_bind_eq_ok hRun₂
  cases hReturn
  exact ⟨not_not.mp hNodes, rfl, hLoop⟩

theorem handleReadPathMetadata_eq_ok
    (h : (handleReadPathMetadata cfg leaf).run server = .ok response server') :
    server.nodeCount = cfg.numTreeNodes ∧ ∃ path payloads, cfg.getPathIndices leaf = .ok path ∧
      (path.foldlM (readMetadataOf cfg) []).run server = .ok payloads server' ∧
      response = .pathMetadata (UInt64.ofNat path.length) payloads := by
  obtain ⟨_, _, hInitialized, hRun₁⟩ := run_bind_eq_ok h
  obtain ⟨hNodes, rfl⟩ := validateInitialized_eq_ok hInitialized
  obtain ⟨path, _, hIndices, hRun₂⟩ := run_bind_eq_ok hRun₁
  obtain ⟨hPath, rfl⟩ := run_fromExcept_eq_ok hIndices
  obtain ⟨payloads, _, hLoop, hReturn⟩ := run_bind_eq_ok hRun₂
  cases hReturn
  exact ⟨hNodes, path, payloads, hPath, hLoop, rfl⟩

theorem handleReadBucket_eq_ok
    (h : (handleReadBucket cfg bucketIdx).run server = .ok response server') :
    server.nodeCount = cfg.numTreeNodes ∧ server' = server ∧ ∃ bucket bytes,
      (readBucketFromDisk cfg bucketIdx).run server = .ok bucket server ∧
      serializeEncryptedRingBucket bucket = .ok bytes ∧
      response = .bucket bytes := by
  obtain ⟨_, _, hInitialized, hRun₁⟩ := run_bind_eq_ok h
  obtain ⟨hNodes, rfl⟩ := validateInitialized_eq_ok hInitialized
  obtain ⟨bucket, _, hRead, hRun₂⟩ := run_bind_eq_ok hRun₁
  obtain ⟨rfl, _⟩ := readBucketFromDisk_eq_ok hRead
  obtain ⟨bytes, _, hSerialize, hReturn⟩ := run_bind_eq_ok hRun₂
  obtain ⟨hBytes, rfl⟩ := run_fromExcept_eq_ok hSerialize
  cases hReturn
  exact ⟨hNodes, rfl, bucket, bytes, hRead, hBytes, rfl⟩

theorem handleReadBucketCount_eq_ok
    (h : (handleReadBucketCount cfg bucketIdx).run server = .ok response server') :
    server.nodeCount = cfg.numTreeNodes ∧ server' = server ∧ ∃ bucket,
      (readBucketFromDisk cfg bucketIdx).run server = .ok bucket server ∧
      response = .bucketCount bucket.count := by
  obtain ⟨_, _, hInitialized, hRun₁⟩ := run_bind_eq_ok h
  obtain ⟨hNodes, rfl⟩ := validateInitialized_eq_ok hInitialized
  obtain ⟨bucket, _, hRead, hReturn⟩ := run_bind_eq_ok hRun₁
  obtain ⟨rfl, _⟩ := readBucketFromDisk_eq_ok hRead
  cases hReturn
  exact ⟨hNodes, rfl, bucket, hRead, rfl⟩

theorem handleWriteBucket_eq_ok
    (h : (handleWriteBucket cfg bucketIdx bytes).run server = .ok response server') :
    server.nodeCount = cfg.numTreeNodes ∧ response = .ack ∧ ∃ bucket,
    deserializeEncryptedRingBucket bytes = .ok bucket ∧
      bucketShape cfg bucket ∧
      (writeBucketToDisk cfg bucketIdx bucket).run server = .ok () server' := by
  obtain ⟨_, _, hInitialized, hRun₁⟩ := run_bind_eq_ok h
  obtain ⟨hNodes, rfl⟩ := validateInitialized_eq_ok hInitialized
  obtain ⟨bucket, _, hParse, hRun₂⟩ := run_bind_eq_ok hRun₁
  obtain ⟨hBucket, rfl⟩ := run_fromExcept_eq_ok hParse
  obtain ⟨_, _, hCheck, hRun₃⟩ := run_bind_eq_ok hRun₂
  obtain ⟨hShape, rfl⟩ := run_throwIf_eq_ok hCheck
  obtain ⟨_, _, hWrite, hReturn⟩ := run_bind_eq_ok hRun₃
  cases hReturn
  exact ⟨hNodes, rfl, bucket, hBucket, not_not.mp hShape, hWrite⟩

end Requests

end OramHub.RingOram
