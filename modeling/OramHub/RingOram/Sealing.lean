import Mathlib.Data.List.Forall2
import OramHub.RingOram.Codec
import OramHub.RingOram.Plain

/-! # Sealed buckets

What the server stores is the field-by-field encryption of a plain bucket. All sealed buckets of
a configuration have one length, and decryption gives the plain bucket back.
-/
namespace OramHub.RingOram
open OramHub.Core OramHub.Program OramHub.LittleEndian OramHub.Crypto
set_option autoImplicit false

namespace RuntimeConfig

def fieldsSize (count plain : Nat) : Nat := 8 + count * (32 + plain)

def metadataSize (cfg : RuntimeConfig) : Nat := 8 + (8 + cfg.slots) + 3 * fieldsSize cfg.z.toNat 8

def bucketSize (cfg : RuntimeConfig) : Nat :=
  cfg.metadataSize + fieldsSize cfg.slots cfg.blockSize.toNat

/-- The length of a stash file with every block in it. -/
def stashSize (cfg : RuntimeConfig) : Nat := 8 + cfg.numBlocks.toNat * (24 + cfg.blockSize.toNat)

/-- What the constructors check or find out before they seal a bucket. -/
structure Shaped (cfg : RuntimeConfig) : Prop where
  numBlocks : cfg.numBlocks ≠ 0
  depth : cfg.depth < 63
  z : cfg.z ≠ 0
  s : cfg.s ≠ 0
  a : cfg.a ≠ 0
  blockSize : cfg.blockSize ≠ 0
  slots : cfg.slots < 2 ^ 64
  stashFits : cfg.stashSize ≤ vectorMaxSize
  blocksFit : cfg.numBlocks.toNat ≤ vectorMaxSize / ringBlockSize

/-- The configurations with which the constructors return. -/
structure Accepted (cfg : RuntimeConfig) : Prop extends Shaped cfg where
  bucketFits : cfg.bucketSize ≤ vectorMaxSize
  slotsFit : cfg.slots ≤ vectorMaxSize / encryptedFieldSize

end RuntimeConfig

structure Sealed (env : Env) (field : EncryptedField) (plaintext : Bytes) : Prop where
  iv : field.iv.length = kIVSize
  ciphertext : field.ciphertext = env.cipher.cipherOperation plaintext field.iv

def SealedAll (env : Env) : List EncryptedField → List Bytes → Prop := List.Forall₂ (Sealed env)

structure Seals (env : Env) (encrypted : EncryptedRingBucket) (bucket : RingBucket) : Prop where
  count : encrypted.count = bucket.count
  valids : encrypted.valids = bucket.valids
  addrs : SealedAll env encrypted.addrs (bucket.addrs.map encodeWord)
  leaves : SealedAll env encrypted.leaves (bucket.leaves.map encodeWord)
  ptrs : SealedAll env encrypted.ptrs (bucket.ptrs.map fun ptr => encodeWord (UInt64.ofNat ptr))
  data : SealedAll env encrypted.data (bucket.data.map RingBlock.data)

/-- Two buckets that no client operation tells apart. -/
structure RingBucket.SameMetadata (bucket other : RingBucket) : Prop where
  addrs : bucket.addrs = other.addrs
  leaves : bucket.leaves = other.leaves
  ptrs : bucket.ptrs = other.ptrs
  valids : bucket.valids = other.valids

section Fields

variable {env : Env} {field : EncryptedField} {fields : List EncryptedField} {plaintext : Bytes}

theorem Sealed.decrypt (h : Sealed env field plaintext) :
    decryptBytes env field = .ok plaintext := by
  rw [decryptBytes, h.ciphertext, AesCtr.decrypt_cipherOperation _ _ h.iv]

theorem Sealed.length (h : Sealed env field plaintext) :
    field.ciphertext.length = plaintext.length := by
  rw [h.ciphertext, AesCtr.length_cipherOperation]

theorem Sealed.decryptUint64 {value : UInt64} (h : Sealed env field (encodeWord value)) :
    decryptUint64 env field = .ok value := by
  rw [RingOram.decryptUint64, h.decrypt]
  change bytesToUint64 (encodeWord value) = _
  rw [bytesToUint64, if_neg (not_not.mpr (length_encodeWord value)), decodeWord_encodeWord]

theorem SealedAll.length {plaintexts : List Bytes} (h : SealedAll env fields plaintexts) :
    fields.length = plaintexts.length := List.Forall₂.length_eq h

theorem SealedAll.decrypt {plaintexts : List Bytes} (h : SealedAll env fields plaintexts) :
    fields.mapM (decryptBytes env) = .ok plaintexts :=
  mapM_eq_ok (List.Forall₂.imp (fun _ _ => Sealed.decrypt) h)

theorem SealedAll.decryptUint64 {values : List UInt64}
    (h : SealedAll env fields (values.map encodeWord)) :
    fields.mapM (RingOram.decryptUint64 env) = .ok values :=
  mapM_eq_ok ((List.forall₂_map_right_iff.mp h).imp fun _ _ => Sealed.decryptUint64)

theorem SealedAll.length_fieldsBytes {plaintexts : List Bytes} {size : Nat}
    (h : SealedAll env fields plaintexts) (hSize : ∀ plain ∈ plaintexts, plain.length = size) :
    (fieldsBytes fields).length = RuntimeConfig.fieldsSize plaintexts.length size := by
  have hField : ∀ field ∈ fields, (fieldBytes field).length = 32 + size := by
    intro field hMem
    obtain ⟨i, hi, rfl⟩ := List.getElem_of_mem hMem
    have hSealed := List.Forall₂.get h hi (h.length ▸ hi)
    have hPlain := hSize _ (List.get_mem plaintexts ⟨i, h.length ▸ hi⟩)
    rw [length_fieldBytes]
    have hIv := hSealed.iv
    have hCipher := hSealed.length
    rw [List.get_eq_getElem] at hIv hCipher
    rw [hIv, hCipher, hPlain, kIVSize]
  have hFlat : (fields.flatMap fieldBytes).length = plaintexts.length * (32 + size) :=
    (length_flatMap_of_length hField).trans (by rw [h.length])
  rw [fieldsBytes, List.length_append, length_encodeWord, hFlat, RuntimeConfig.fieldsSize]

theorem encryptBytes_spec (env : Env) (plaintext : Bytes) (tick : Nat) :
    Returns (encryptBytes env plaintext) tick fun field _ => Sealed env field plaintext := by
  have hIv : Returns (generateIV env) tick fun iv _ => iv.length = kIVSize :=
    Returns.of_run rfl (@Vector.length_toList _ _ (env.entropy.iv tick))
  apply hIv.bind
  intro iv tick' hLength
  exact Returns.ok_bind (AesCtr.encrypt_eq_ok _ _ hLength) (Returns.pure ⟨hLength, rfl⟩)

end Fields

section Buckets

variable {env : Env} {encrypted : EncryptedRingBucket} {bucket : RingBucket}

theorem reserveFields_bind {α : Type} {count tick : Nat} {f : Unit → IvM α} {post : α → Nat → Prop}
    (h : count ≤ vectorMaxSize / encryptedFieldSize) (hf : Returns (f ()) tick post) :
    Returns (reserveFields count >>= f) tick post := Returns.check_bind (Nat.not_lt.mpr h) hf

/-- The bucket has no more entries and slots than a vector can hold of their encryption. -/
structure RingBucket.Sealable (bucket : RingBucket) : Prop where
  addrs : bucket.addrs.length ≤ vectorMaxSize / encryptedFieldSize
  leaves : bucket.leaves.length ≤ vectorMaxSize / encryptedFieldSize
  ptrs : bucket.ptrs.length ≤ vectorMaxSize / encryptedFieldSize
  data : bucket.data.length ≤ vectorMaxSize / encryptedFieldSize

theorem RingBucket.WellFormed.sealable (h : bucket.WellFormed env.cfg)
    (hSlots : env.cfg.slots ≤ vectorMaxSize / encryptedFieldSize) : bucket.Sealable := by
  have hEntries : env.cfg.z.toNat ≤ env.cfg.slots := Nat.le_add_right _ _
  exact ⟨by rw [h.addrs]; omega, by rw [h.leaves]; omega, by rw [h.ptrs]; omega,
    h.data.trans_le hSlots⟩

theorem Seals.held (h : Seals env encrypted bucket)
    (hBucket : bucket.Sealable) : encrypted.Held := by
  constructor
  case addrs => exact (h.addrs.length.trans (List.length_map _)).trans_le hBucket.addrs
  case leaves => exact (h.leaves.length.trans (List.length_map _)).trans_le hBucket.leaves
  case ptrs => exact (h.ptrs.length.trans (List.length_map _)).trans_le hBucket.ptrs
  case data => exact (h.data.length.trans (List.length_map _)).trans_le hBucket.data

theorem encryptBucket_spec (hBucket : bucket.Sealable)
    (hData : ∀ block ∈ bucket.data, block.data.length = env.cfg.blockSize.toNat) (tick : Nat) :
    Returns (encryptBucket env bucket) tick fun encrypted _ => Seals env encrypted bucket := by
  have hWords : ∀ {α : Type} (values : List α) (word : α → UInt64) (tick : Nat),
      Returns (values.mapM fun value => encryptUint64 env (word value)) tick fun fields _ =>
        SealedAll env fields (values.map fun value => encodeWord (word value)) := by
    intro α values word tick
    have hFields := @Returns.mapM _ _ EncryptedField α tick values
      (fun value => encryptUint64 env (word value)) (fun _ => True)
      (fun field value => Sealed env field (encodeWord (word value))) trivial
      fun value _ tick _ => (encryptBytes_spec env _ tick).mono fun _ _ h => ⟨h, trivial⟩
    exact hFields.mono fun fields _ h => List.forall₂_map_right_iff.mpr h.1
  refine reserveFields_bind hBucket.addrs (reserveFields_bind hBucket.leaves ?_)
  refine reserveFields_bind hBucket.ptrs (reserveFields_bind hBucket.data ?_)
  apply (hWords bucket.addrs id tick).bind
  intro addrs _ hAddrs
  apply (hWords bucket.leaves id _).bind
  intro leaves _ hLeaves
  apply (hWords bucket.ptrs UInt64.ofNat _).bind
  intro ptrs tick' hPtrs
  have hBlocks := @Returns.mapM _ _ EncryptedField RingBlock tick' bucket.data
    (fun block => encryptBytes env (resize block.data env.cfg.blockSize.toNat)) (fun _ => True)
    (fun field block => Sealed env field block.data) trivial
    fun block hBlock tick _ => by
      rw [resize_of_length (hData block hBlock)]
      exact (encryptBytes_spec env _ tick).mono fun _ _ h => ⟨h, trivial⟩
  apply hBlocks.bind
  intro data _ hData
  exact Returns.pure ⟨rfl, rfl, hAddrs, hLeaves, hPtrs, List.forall₂_map_right_iff.mpr hData.1⟩

theorem Seals.shape (h : Seals env encrypted bucket) (hWell : bucket.WellFormed env.cfg)
    (hSlots : env.cfg.slots < 2 ^ 64) : bucketShape env.cfg encrypted := by
  have hCount : env.cfg.bucketSlots.toNat = env.cfg.slots :=
    (UInt64.toNat_add _ _).trans (Nat.mod_eq_of_lt hSlots)
  refine ⟨?_, ?_, ?_, ?_, ?_⟩
  · rw [h.valids, hWell.valids, hCount]
  · rw [h.addrs.length, List.length_map, hWell.addrs]
  · rw [h.leaves.length, List.length_map, hWell.leaves]
  · rw [h.ptrs.length, List.length_map, hWell.ptrs]
  · rw [h.data.length, List.length_map, hWell.data, hCount]

theorem length_words {α : Type} (values : List α) (word : α → UInt64) :
    ∀ plain ∈ values.map fun value => encodeWord (word value), plain.length = 8 := by
  intro plain hPlain
  obtain ⟨value, _, rfl⟩ := List.mem_map.mp hPlain
  exact length_encodeWord _

theorem Seals.length_metadata (h : Seals env encrypted bucket) (hWell : bucket.WellFormed env.cfg) :
    (metadataBytes (metadataFromBucket encrypted)).length = env.cfg.metadataSize := by
  have hAddrs := h.addrs.length_fieldsBytes (length_words bucket.addrs id)
  have hLeaves := h.leaves.length_fieldsBytes (length_words bucket.leaves id)
  have hPtrs := h.ptrs.length_fieldsBytes (length_words bucket.ptrs UInt64.ofNat)
  rw [List.length_map, hWell.addrs] at hAddrs
  rw [List.length_map, hWell.leaves] at hLeaves
  rw [List.length_map, hWell.ptrs] at hPtrs
  simp only [metadataBytes_eq, metadataFromBucket, List.length_append, length_boolBytes,
    length_encodeWord, hAddrs, hLeaves, hPtrs, h.valids, hWell.valids, RuntimeConfig.metadataSize]
  omega

theorem Seals.length_bucket (h : Seals env encrypted bucket) (hWell : bucket.WellFormed env.cfg) :
    (bucketBytes encrypted).length = env.cfg.bucketSize := by
  have hMetadata := h.length_metadata hWell
  have hData := h.data.length_fieldsBytes fun plain hPlain => by
    obtain ⟨block, hBlock, rfl⟩ := List.mem_map.mp hPlain
    exact hWell.payload block hBlock
  rw [List.length_map, hWell.data] at hData
  rw [metadataBytes_eq] at hMetadata
  simp only [metadataFromBucket, List.length_append, length_boolBytes,
    length_encodeWord] at hMetadata
  simp only [bucketBytes, List.length_append, length_boolBytes, length_encodeWord, hData,
    RuntimeConfig.bucketSize]
  omega

theorem countField_bucket (h : Seals env encrypted bucket) :
    countField (bucketBytes encrypted) = encodeWord bucket.count := by
  rw [countField, bucketBytes, h.count, List.take_left' (length_encodeWord _)]

theorem countField_metadata (h : Seals env encrypted bucket) :
    countField (metadataBytes (metadataFromBucket encrypted)) = encodeWord bucket.count := by
  rw [countField, metadataBytes_eq, metadataFromBucket, h.count,
    List.take_left' (length_encodeWord _)]

/-! ## Decryption -/

theorem toNat_ofNat_ptrs (hWell : bucket.WellFormed env.cfg) (hSlots : env.cfg.slots < 2 ^ 64) :
    (bucket.ptrs.map UInt64.ofNat).map UInt64.toNat = bucket.ptrs := by
  rw [List.map_map]
  refine (List.map_congr_left fun ptr hPtr => ?_).trans (List.map_id _)
  exact UInt64.toNat_ofNat_of_lt' ((hWell.ptrs_lt ptr hPtr).trans hSlots)

theorem decryptFields_spec (h : Seals env encrypted bucket) (hWell : bucket.WellFormed env.cfg)
    (hSlots : env.cfg.slots < 2 ^ 64) :
    ∃ plain, decryptFields env (metadataFromBucket encrypted) = .ok plain ∧
    plain.SameMetadata bucket := by
  have hPtrs : SealedAll env encrypted.ptrs ((bucket.ptrs.map UInt64.ofNat).map encodeWord) := by
    rw [List.map_map]
    exact h.ptrs
  rw [decryptFields, metadataFromBucket, h.addrs.decryptUint64,
    h.leaves.decryptUint64, hPtrs.decryptUint64]
  refine ⟨_, rfl, rfl, rfl, toNat_ofNat_ptrs hWell hSlots, h.valids⟩

theorem decryptMetadata_spec (h : Seals env encrypted bucket) (hWell : bucket.WellFormed env.cfg)
    (hSlots : env.cfg.slots < 2 ^ 64) :
    ∃ plain, decryptMetadata env (metadataFromBucket encrypted) = .ok plain ∧
    plain.SameMetadata bucket := by
  have hShape := h.shape hWell hSlots
  rw [decryptMetadata, if_neg (not_not.mpr ⟨hShape.1, hShape.2.1, hShape.2.2.1, hShape.2.2.2.1⟩)]
  exact decryptFields_spec h hWell hSlots

theorem map_data_modify (blocks : List RingBlock) (offset : Nat) (addr leaf : UInt64) :
    (blocks.modify offset fun block => { block with addr := addr, leaf := leaf }).map
      RingBlock.data =
      blocks.map RingBlock.data := by
  apply List.ext_getElem?
  intro i
  rw [List.getElem?_map, List.getElem?_modify, List.getElem?_map]
  cases blocks[i]? with
  | none => rfl
  | some block => by_cases hi : offset = i <;> simp [hi]

theorem foldl_labelSlot (indices : List Nat) (bucket : RingBucket) :
    ∃ data, indices.foldl labelSlot bucket = { bucket with data := data } ∧
      data.map RingBlock.data = bucket.data.map RingBlock.data := by
  induction indices generalizing bucket with
  | nil => exact ⟨bucket.data, rfl, rfl⟩
  | cons i indices ih =>
    obtain ⟨data, hFold, hData⟩ := ih (labelSlot bucket i)
    rw [List.foldl_cons, hFold]
    simp only [labelSlot] at hData ⊢
    split at hData <;> rename_i hSkip
    · exact ⟨data, by rw [if_pos hSkip], hData⟩
    · exact ⟨data, by rw [if_neg hSkip], hData.trans (map_data_modify _ _ _ _)⟩

theorem payload_eq (bucket : RingBucket) (offset : Nat) :
    bucket.payload offset = (bucket.data.map RingBlock.data).getD offset [] := by
  rw [RingBucket.payload, List.getD_eq_getElem?_getD, List.getD_eq_getElem?_getD, List.getElem?_map]
  cases bucket.data[offset]? <;> rfl

theorem decryptBucket_spec (h : Seals env encrypted bucket) (hWell : bucket.WellFormed env.cfg)
    (hSlots : env.cfg.slots < 2 ^ 64) :
    ∃ plain, decryptBucket env encrypted = .ok plain ∧ plain.SameMetadata bucket ∧
      plain.payload = bucket.payload := by
  obtain ⟨metadata, hMetadata, hSame⟩ := decryptFields_spec h hWell hSlots
  rw [decryptBucket, if_neg (not_not.mpr (h.shape hWell hSlots)), hMetadata, h.data.decrypt]
  refine ⟨_, rfl, ?_⟩
  obtain ⟨data, hFold, hData⟩ := foldl_labelSlot (List.range env.cfg.z.toNat)
    { metadata with
      data := (bucket.data.map RingBlock.data).map fun payload =>
        { addr := kDummyAddress, leaf := 0, data := resize payload env.cfg.blockSize.toNat } }
  rw [hFold]
  refine ⟨⟨hSame.addrs, hSame.leaves, hSame.ptrs, hSame.valids⟩, ?_⟩
  have hPayloads : data.map RingBlock.data = bucket.data.map RingBlock.data := by
    rw [hData, List.map_map, List.map_map]
    exact List.map_congr_left fun block hBlock => resize_of_length (hWell.payload block hBlock)
  funext offset
  rw [payload_eq, payload_eq]
  exact congrArg (fun payloads => payloads.getD offset []) hPayloads

end Buckets

namespace RingBucket.SameMetadata

variable {bucket other : RingBucket}

theorem validReal (h : bucket.SameMetadata other) : bucket.validReal = other.validReal := by
  funext i
  rw [RingBucket.validReal, RingBucket.validReal, h.addrs, h.ptrs, h.valids]

theorem ptr (h : bucket.SameMetadata other) : bucket.ptr = other.ptr := by
  funext i
  rw [RingBucket.ptr, RingBucket.ptr, h.ptrs]

theorem liveIndices (h : bucket.SameMetadata other) : bucket.liveIndices = other.liveIndices := by
  rw [RingBucket.liveIndices, RingBucket.liveIndices, h.addrs, h.validReal]

theorem validDummyOffsets (h : bucket.SameMetadata other) :
    bucket.validDummyOffsets = other.validDummyOffsets := by
  rw [RingBucket.validDummyOffsets, RingBucket.validDummyOffsets, RingBucket.validRealOffsets,
    RingBucket.validRealOffsets, h.addrs, h.valids, h.ptrs, h.validReal]

theorem entry (h : bucket.SameMetadata other) (hPayload : bucket.payload = other.payload) :
    bucket.entry = other.entry := by
  funext i
  rw [RingBucket.entry, RingBucket.entry, h.addrs, h.leaves, h.ptr, hPayload]

end RingBucket.SameMetadata
end OramHub.RingOram
