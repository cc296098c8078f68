import OramHub.PathOram.Storage

/-! # What the bucket decoder accepts

The decoder reads the blocks that the count field announces, wherever the input ends, and keeps as
many of them as fit. It rejects nothing: an input that is too short is read past its end.
-/
namespace OramHub.PathOram
open OramHub.Core OramHub.Program OramHub.LittleEndian OramHub.Crypto
set_option autoImplicit false

variable {bytes rest : Bytes} {block : Block} {bucket : Bucket} {count capacity : Nat}

section Inversion

theorem readRange_eq_ok_iff {chunk : Bytes} : readRange bytes count = .ok (chunk, rest) ↔
    chunk.length = count ∧ bytes = chunk ++ rest := by
  unfold readRange
  constructor
  · intro h
    split at h
    case isTrue => cases h
    case isFalse hLength =>
      cases h
      exact ⟨List.length_take_of_le (Nat.not_lt.mp hLength), (List.take_append_drop _ _).symm⟩
  · rintro ⟨rfl, rfl⟩
    exact readRange_append chunk rest

theorem readWord_eq_ok_iff {word : UInt64} :
    readWord bytes = .ok (word, rest) ↔ bytes = encodeWord word ++ rest := by
  constructor
  · intro h
    obtain ⟨⟨chunk, rest'⟩, hRange, hReturn⟩ := except_bind_eq_ok h
    obtain ⟨hLength, rfl⟩ := readRange_eq_ok_iff.mp hRange
    cases hReturn
    rw [encodeWord_decodeWord hLength]
  · rintro rfl
    exact readWord_append word rest

theorem deserializeBlock_eq_ok_iff :
    deserializeBlock bytes = .ok (block, rest) ↔
      block.Sized ∧ bytes = serializeBlock block ++ rest := by
  constructor
  · intro h
    obtain ⟨⟨id, rest₁⟩, hId, h₁⟩ := except_bind_eq_ok h
    obtain ⟨⟨size, rest₂⟩, hSize, h₂⟩ := except_bind_eq_ok h₁
    obtain ⟨⟨data, rest₃⟩, hData, hReturn⟩ := except_bind_eq_ok h₂
    cases hReturn
    obtain rfl := readWord_eq_ok_iff.mp hId
    obtain rfl := readWord_eq_ok_iff.mp hSize
    obtain ⟨hLength, rfl⟩ := readRange_eq_ok_iff.mp hData
    have hSized : data.length < 2 ^ 64 := hLength ▸ size.toNat_lt
    have hField : UInt64.ofNat data.length = size := by rw [hLength, UInt64.ofNat_toNat]
    refine ⟨hSized, ?_⟩
    rw [serializeBlock, hField, List.append_assoc, List.append_assoc]
  · rintro ⟨hSized, rfl⟩
    exact deserializeBlock_append hSized rest

theorem foldl_addBlock_eq (blocks : List Block) (hRoom : bucket.blocks.length ≤ bucket.capacity) :
    blocks.foldl Bucket.addBlock bucket =
      { bucket with blocks := (bucket.blocks ++ blocks).take bucket.capacity } := by
  induction blocks generalizing bucket with
  | nil =>
    rw [List.append_nil, List.take_of_length_le hRoom]
    rfl
  | cons block blocks ih =>
    rw [List.foldl_cons]
    by_cases hFull : bucket.capacity ≤ bucket.blocks.length
    · have hKept : bucket.addBlock block = bucket := if_pos hFull
      have hLength : bucket.blocks.length = bucket.capacity := Nat.le_antisymm hRoom hFull
      rw [hKept, ih hRoom, ← hLength, List.take_left, List.take_left]
    · have hAdded : bucket.addBlock block = { bucket with blocks := bucket.blocks ++ [block] } :=
        if_neg hFull
      have hRoom' : (bucket.blocks ++ [block]).length ≤ bucket.capacity := by
        rw [List.length_append, List.length_singleton]
        omega
      rw [hAdded, ih hRoom', List.append_assoc]
      rfl

theorem deserializeBlocks_eq_ok_iff {result : Bucket} :
    deserializeBlocks bucket bytes count = .ok result ↔
    ∃ (blocks : List Block) (rest : Bytes), blocks.length = count ∧
    (∀ block ∈ blocks, block.Sized) ∧ bytes = blocks.flatMap serializeBlock ++ rest ∧
      result = blocks.foldl Bucket.addBlock bucket := by
  induction count generalizing bucket bytes with
  | zero =>
    constructor
    · intro h
      cases h
      exact ⟨[], bytes, rfl, fun _ hBlock => absurd hBlock List.not_mem_nil, rfl, rfl⟩
    · rintro ⟨blocks, rest, hLength, _, _, rfl⟩
      obtain rfl := List.length_eq_zero_iff.mp hLength
      rfl
  | succ count ih =>
    constructor
    · intro h
      obtain ⟨⟨block, rest₁⟩, hBlock, hRest⟩ := except_bind_eq_ok h
      obtain ⟨hSized, rfl⟩ := deserializeBlock_eq_ok_iff.mp hBlock
      obtain ⟨blocks, rest, rfl, hAll, rfl, rfl⟩ := ih.mp hRest
      refine ⟨block :: blocks, rest, rfl, List.forall_mem_cons.mpr ⟨hSized, hAll⟩, ?_, rfl⟩
      rw [List.flatMap_cons, List.append_assoc]
    · rintro ⟨blocks, rest, hLength, hAll, rfl, rfl⟩
      cases blocks with
      | nil => cases hLength
      | cons block blocks =>
        obtain ⟨hSized, hAll'⟩ := List.forall_mem_cons.mp hAll
        rw [List.flatMap_cons, List.append_assoc, deserializeBlocks,
          deserializeBlock_append hSized, ok_bind]
        exact ih.mpr ⟨blocks, rest, Nat.succ_injective hLength, hAll', rfl, rfl⟩

end Inversion

section Overruns

variable {α β : Type}

/-- The only way to fail is to read past the end. -/
def OnlyOverruns (x : Except Exception α) : Prop := ∀ e, x = .error e →
    e = .undefinedBehavior "read past the end of a buffer"

theorem OnlyOverruns.pure (a : α) : OnlyOverruns (Pure.pure a) := by
  rintro e ⟨⟩

theorem OnlyOverruns.bind {x : Except Exception α} {f : α → Except Exception β} (h : OnlyOverruns x)
    (hNext : ∀ a, OnlyOverruns (f a)) : OnlyOverruns (x >>= f) := by
  intro e hError
  obtain hFirst | ⟨a, _, hSecond⟩ := except_bind_eq_error hError
  · exact h e hFirst
  · exact hNext a e hSecond

theorem onlyOverruns_readRange (bytes : Bytes) (count : Nat) :
    OnlyOverruns (readRange bytes count) := by
  intro e hError
  unfold readRange at hError
  split at hError
  · cases hError
    rfl
  · cases hError

theorem onlyOverruns_readWord (bytes : Bytes) : OnlyOverruns (readWord bytes) :=
  (onlyOverruns_readRange bytes 8).bind fun _ => OnlyOverruns.pure _

theorem onlyOverruns_deserializeBlock (bytes : Bytes) : OnlyOverruns (deserializeBlock bytes) := by
  refine (onlyOverruns_readWord bytes).bind fun id =>
    (onlyOverruns_readWord id.2).bind fun size => ?_
  exact (onlyOverruns_readRange size.2 size.1.toNat).bind fun _ => OnlyOverruns.pure _

theorem onlyOverruns_deserializeBlocks (bucket : Bucket) (bytes : Bytes) (count : Nat) :
    OnlyOverruns (deserializeBlocks bucket bytes count) := by
  induction count generalizing bucket bytes with
  | zero => exact OnlyOverruns.pure bucket
  | succ count ih => exact (onlyOverruns_deserializeBlock bytes).bind fun block => ih _ block.2

theorem onlyOverruns_deserializeBucket (bytes : Bytes) (capacity : Nat) :
    OnlyOverruns (deserializeBucket bytes capacity) :=
  (onlyOverruns_readWord bytes).bind fun count => onlyOverruns_deserializeBlocks _ count.2 _

end Overruns

section Buckets

/-- A count field, as many blocks as it says, each as long as its size field says, and whatever
follows. -/
structure Announces (bytes : Bytes) (blocks : List Block) (rest : Bytes) : Prop where
  count : blocks.length < 2 ^ 64
  sized : ∀ block ∈ blocks, block.Sized
  bytes : bytes = encodeWord (UInt64.ofNat blocks.length) ++ (blocks.flatMap serializeBlock ++ rest)

/-- What does not fit into the bucket and what follows the last block is dropped. -/
theorem deserializeBucket_eq_ok_iff : deserializeBucket bytes capacity = .ok bucket ↔
    ∃ blocks rest, Announces bytes blocks rest ∧
    bucket = { capacity := capacity, blocks := blocks.take capacity } := by
  have hFold (blocks : List Block) : blocks.foldl Bucket.addBlock { capacity := capacity } =
      { capacity := capacity, blocks := blocks.take capacity } :=
    @foldl_addBlock_eq { capacity := capacity } blocks (Nat.zero_le _)
  constructor
  · intro h
    obtain ⟨⟨count, rest₁⟩, hCount, hBlocks⟩ := except_bind_eq_ok h
    obtain rfl := readWord_eq_ok_iff.mp hCount
    obtain ⟨blocks, rest, hLength, hSized, rfl, rfl⟩ := deserializeBlocks_eq_ok_iff.mp hBlocks
    refine ⟨blocks, rest, ⟨hLength ▸ count.toNat_lt, hSized, ?_⟩, hFold blocks⟩
    rw [hLength, UInt64.ofNat_toNat]
  · rintro ⟨blocks, rest, ⟨hCount, hSized, rfl⟩, rfl⟩
    rw [deserializeBucket, readWord_append, ok_bind]
    refine deserializeBlocks_eq_ok_iff.mpr ⟨blocks, rest, ?_, hSized, rfl, (hFold blocks).symm⟩
    exact (UInt64.toNat_ofNat_of_lt' hCount).symm

/-- A bucket whose sizes its fields can hold. -/
structure Bucket.Encodable (bucket : Bucket) : Prop where
  count : bucket.blocks.length < 2 ^ 64
  sized : ∀ block ∈ bucket.blocks, block.Sized

/-- No read past the end, and exactly the image of the encoder is accepted. -/
structure DecodesExactly (bytes : Bytes) (capacity : Nat) : Prop where
  inBounds : ∀ what, deserializeBucket bytes capacity ≠ .error (.undefinedBehavior what)
  accepts : ∀ bucket : Bucket, deserializeBucket bytes capacity = .ok bucket ↔
    bucket.Encodable ∧ bucket.capacity = capacity ∧ bucket.blocks.length ≤ capacity ∧
    bytes = serializeBucket bucket

/-- Nothing but the announced blocks, and no more than fit. -/
def WellFormed (bytes : Bytes) (capacity : Nat) : Prop :=
  ∃ blocks, Announces bytes blocks [] ∧ blocks.length ≤ capacity

theorem Announces.serializeBucket {blocks : List Block} (h : Announces bytes blocks []) :
    bytes = PathOram.serializeBucket { capacity := capacity, blocks := blocks } := by
  rw [h.bytes, List.append_nil]
  rfl

theorem Bucket.Encodable.announces (h : bucket.Encodable) :
    Announces (serializeBucket bucket) bucket.blocks [] := by
  refine ⟨h.count, h.sized, ?_⟩
  rw [List.append_nil]
  rfl

theorem deserializeBucket_of_encodable (h : bucket.Encodable)
    (hRoom : bucket.blocks.length ≤ bucket.capacity) :
    deserializeBucket (serializeBucket bucket) bucket.capacity = .ok bucket := by
  refine deserializeBucket_eq_ok_iff.mpr ⟨bucket.blocks, [], h.announces, ?_⟩
  rw [List.take_of_length_le hRoom]

theorem decodesExactly_iff (bytes : Bytes) (capacity : Nat) :
    DecodesExactly bytes capacity ↔ WellFormed bytes capacity := by
  constructor
  · intro h
    cases hDecode : deserializeBucket bytes capacity with
    | error e =>
      obtain rfl := onlyOverruns_deserializeBucket bytes capacity e hDecode
      exact absurd hDecode (h.inBounds _)
    | ok bucket =>
      obtain ⟨hEncodable, _, hRoom, rfl⟩ := (h.accepts bucket).mp hDecode
      exact ⟨bucket.blocks, hEncodable.announces, hRoom⟩
  · rintro ⟨blocks, hAnnounces, hRoom⟩
    have hDecode : deserializeBucket bytes capacity =
        .ok { capacity := capacity, blocks := blocks } := by
      refine deserializeBucket_eq_ok_iff.mpr ⟨blocks, [], hAnnounces, ?_⟩
      rw [List.take_of_length_le hRoom]
    constructor
    case inBounds =>
      intro what hError
      rw [hDecode] at hError
      cases hError
    case accepts =>
      intro bucket
      constructor
      · intro hOk
        obtain rfl : _ = bucket := Except.ok.inj (hDecode.symm.trans hOk)
        exact ⟨⟨hAnnounces.count, hAnnounces.sized⟩, rfl, hRoom, hAnnounces.serializeBucket⟩
      · rintro ⟨hEncodable, rfl, hRoom', rfl⟩
        exact deserializeBucket_of_encodable hEncodable hRoom'

/-- Five empty blocks, for a bucket of four. -/
def overfullBucket : Bytes := serializeBucket { capacity := 5, blocks := List.replicate 5 ⟨0, []⟩ }

theorem overfullBucket_truncated :
    deserializeBucket overfullBucket kBucketSize =
      .ok { capacity := kBucketSize, blocks := List.replicate 4 ⟨0, []⟩ } ∧
      ¬ DecodesExactly overfullBucket kBucketSize := by
  have hDecode : deserializeBucket overfullBucket kBucketSize =
      .ok { capacity := kBucketSize, blocks := List.replicate 4 ⟨0, []⟩ } := by decide
  refine ⟨hDecode, fun h => ?_⟩
  have hBytes := congrArg List.length ((h.accepts _).mp hDecode).2.2.2
  revert hBytes
  decide

end Buckets

section Requests

variable {env : Env} {server : Server} {payload : Bytes} {index : UInt64} {blocks : List Block}

/-- The shape test passes for whatever the decoder returns. -/
theorem bucketShape_of_deserialize (h : deserializeBucket bytes kBucketSize = .ok bucket) :
    bucketShape bucket := by
  obtain ⟨blocks, _, _, rfl⟩ := deserializeBucket_eq_ok_iff.mp h
  exact ⟨rfl, List.length_take_le _ _⟩

theorem decryptBucket_eq (hLength : kIVSize ≤ payload.length) : decryptBucket env payload =
    deserializeBucket (env.cipher.cipherOperation (payload.drop kIVSize) (payload.take kIVSize))
      kBucketSize := by
  have hIv : (payload.take kIVSize).length = kIVSize := List.length_take_of_le hLength
  rw [decryptBucket, decryptBucketWith, if_neg (Nat.not_lt.mpr hLength), AesCtr.decrypt,
    AesCtr.encrypt_eq_ok _ _ hIv, ok_bind]

/-- A `W` request with too many blocks, or with bytes behind them, is carried out. -/
theorem handleWriteBucket_truncates (hInitialized : server.nodeCount = server.numNodes)
    (hDir : server.treeDir = true)
    (hIndex : index < server.nodeCount) (hLength : kIVSize ≤ payload.length) (hAnnounces : Announces
      (env.cipher.cipherOperation (payload.drop kIVSize) (payload.take kIVSize)) blocks rest) :
    Returns (handleWriteBucket env index payload) server fun response server' =>
      response = .silent ∧
      server'.files = Function.update server.files index.toNat
        (some (serializeBucket (toBucket (blocks.take kBucketSize)))) := by
  have hDecode : decryptBucket env payload = .ok (toBucket (blocks.take kBucketSize)) := by
    rw [decryptBucket_eq hLength]
    exact deserializeBucket_eq_ok_iff.mpr ⟨blocks, rest, hAnnounces, rfl⟩
  have hReady : ¬ (server.nodeCount ≠ server.numNodes ∨ server.treeDir = false) := by
    rw [not_or, not_not, Bool.not_eq_false]
    exact ⟨hInitialized, hDir⟩
  have hValidate : Returns validateInitialized server fun _ server' => server' = server :=
    Returns.get_bind (Returns.throwIf hReady rfl)
  refine hValidate.bind ?_
  rintro _ _ rfl
  refine Returns.modify_bind (Returns.ok_bind hDecode ?_)
  refine Returns.bind (writeBucketToDisk_run ?_ (List.length_take_le _ _)) ?_
  · exact UInt64.not_le.mpr hIndex
  · rintro _ _ rfl
    exact Returns.pure ⟨rfl, rfl⟩

end Requests
end OramHub.PathOram
