import OramHub.RingOram.Serialization

/-! # Round trips of the Ring ORAM formats

`Parses reader chunk value`: wherever `chunk` stands in an input that a vector can hold, the
reader consumes exactly `chunk` and returns `value`.
-/
namespace OramHub.RingOram
open OramHub.Core OramHub.Program OramHub.LittleEndian
set_option autoImplicit false

variable {α β : Type}

def Parses (reader : Bytes → Reader α) (chunk : Bytes) (value : α) : Prop :=
  ∀ before after cursor, (before ++ chunk ++ after).length ≤ vectorMaxSize →
    cursor.offset = UInt64.ofNat before.length →
    Returns (reader (before ++ chunk ++ after)) cursor
      fun result cursor' => result = value ∧ cursor'.offset = UInt64.ofNat (before ++ chunk).length

theorem Parses.pure (value : α) : Parses (fun _ => Pure.pure value) [] value := by
  intro before after cursor _ hOffset
  exact Returns.pure ⟨rfl, by rw [List.append_nil, hOffset]⟩

theorem Parses.bind {reader : Bytes → Reader α} {next : α → Bytes → Reader β} {chunk chunk' : Bytes}
    {value : α} {value' : β} (h : Parses reader chunk value)
    (h' : Parses (next value) chunk' value') :
    Parses (fun bytes => reader bytes >>= fun result => next result bytes)
      (chunk ++ chunk') value' := by
  intro before after cursor hSize hOffset
  have hLeft : before ++ (chunk ++ chunk') ++ after = before ++ chunk ++
      (chunk' ++ after) := by simp
  have hRight : before ++ (chunk ++ chunk') ++ after = before ++ chunk ++ chunk' ++ after := by simp
  rw [hLeft] at hSize ⊢
  apply (h before (chunk' ++ after) cursor hSize hOffset).bind
  rintro result cursor' ⟨rfl, hOffset'⟩
  rw [← hLeft, hRight] at hSize ⊢
  apply (h' (before ++ chunk) after cursor' hSize hOffset').mono
  rintro result' cursor'' ⟨rfl, hOffset''⟩
  exact ⟨rfl, by rw [hOffset'', List.append_assoc]⟩

theorem Parses.returning {reader : Bytes → Reader α} {chunk : Bytes} {value : α}
    (h : Parses reader chunk value) (f : α → β) :
    Parses (fun bytes => reader bytes >>= fun result => Pure.pure (f result)) chunk (f value) := by
  rw [← List.append_nil chunk]
  exact h.bind (Parses.pure (f value))

theorem parses_readUint64 (value : UInt64) : Parses readUint64 (encodeWord value) value := by
  intro before after cursor hSize hOffset
  have hSize' := hSize
  simp only [List.length_append, length_encodeWord] at hSize'
  have hBefore : (UInt64.ofNat before.length).toNat = before.length := toNat_ofNat_of_le (by omega)
  have hNext : UInt64.ofNat before.length + 8 =
      UInt64.ofNat (before ++ encodeWord value).length := by
    rw [List.length_append, length_encodeWord, UInt64.ofNat_add]
    rfl
  have hFits : ¬ UInt64.ofNat (before ++ encodeWord value ++ after).length <
      UInt64.ofNat (before ++ encodeWord value).length := by
    rw [UInt64.lt_iff_toNat_lt, toNat_ofNat_of_le hSize, toNat_ofNat_of_le (by simp; omega)]
    simp
  have hTake : List.take 8 (encodeWord value ++ after) = encodeWord value :=
    List.take_left' (length_encodeWord value)
  simp only [Returns, readUint64, Cursor.advance, wp_bind, wp_get, wp_throwIf, wp_set,
    wp_pure, hOffset, hNext]
  refine ⟨fun h => hFits h, fun _ => ⟨?_, trivial⟩⟩
  rw [hBefore, List.append_assoc, List.drop_left, hTake, decodeWord_encodeWord]

theorem allocate_spec {bytes : Bytes} {elementSize : Nat} {size : UInt64} {cursor : Cursor}
    (h : size.toNat ≤ vectorMaxSize / elementSize) (what : String) :
    Returns (allocate bytes elementSize size what) cursor fun _ cursor' =>
      cursor' = cursor.request bytes size :=
  Returns.modify_bind (Returns.throwIf (Nat.not_lt.mpr h) rfl)

theorem parses_allocate {elementSize : Nat} {size : UInt64}
    (h : size.toNat ≤ vectorMaxSize / elementSize)
    (what : String) : Parses (fun bytes => allocate bytes elementSize size what) [] () := by
  intro before after cursor _ hOffset
  apply (allocate_spec h what).mono
  rintro _ _ rfl
  rw [List.append_nil]
  exact ⟨rfl, hOffset⟩

/-- What a check of a length compares, where the chunk of that length is there. -/
theorem not_lt_chunk {before chunk after : Bytes}
    (hSize : (before ++ chunk ++ after).length ≤ vectorMaxSize) :
    ¬ UInt64.ofNat (before ++ chunk ++ after).length < UInt64.ofNat before.length +
      UInt64.ofNat chunk.length := by
  rw [← UInt64.ofNat_add, ← List.length_append, UInt64.lt_iff_toNat_lt, toNat_ofNat_of_le hSize,
    toNat_ofNat_of_le (by rw [List.length_append] at hSize; omega), List.length_append]
  exact Nat.not_lt.mpr (Nat.le_add_right _ _)

theorem parses_readRange (chunk : Bytes) (what : String) :
    Parses (fun bytes => readRange bytes (UInt64.ofNat chunk.length) what) chunk chunk := by
  intro before after cursor hSize hOffset
  have hSize' := hSize
  simp only [List.length_append] at hSize'
  have hBefore : (UInt64.ofNat before.length).toNat = before.length := toNat_ofNat_of_le (by omega)
  have hChunk : (UInt64.ofNat chunk.length).toNat = chunk.length := toNat_ofNat_of_le (by omega)
  refine Returns.get_bind (Returns.check_bind (hOffset ▸ not_lt_chunk hSize) ?_)
  apply (allocate_spec (by rw [hChunk, Nat.div_one]; omega) _).bind
  rintro _ _ rfl
  refine Returns.modify_bind (Returns.pure ⟨?_, ?_⟩)
  · rw [hOffset, hBefore, hChunk, List.append_assoc, List.drop_left, List.take_left]
  · change cursor.offset + _ = _
    rw [hOffset, List.length_append, UInt64.ofNat_add]

theorem appendBytes_eq (out bytes : Bytes) :
    appendBytes out bytes = out ++ (encodeWord (UInt64.ofNat bytes.length) ++ bytes) := by
  simp [appendBytes, appendUint64]

theorem parses_readBytes (bytes : Bytes) :
    Parses readBytes (encodeWord (UInt64.ofNat bytes.length) ++ bytes) bytes :=
  (parses_readUint64 _).bind (parses_readRange bytes _)

/-- The bytes that stand for flags. -/
def boolBytes (values : List Bool) : Bytes := values.map fun value => if value then 1 else 0

@[simp] theorem length_boolBytes (values : List Bool) : (boolBytes values).length = values.length :=
  List.length_map _

theorem appendBoolVector_eq (out : Bytes) (values : List Bool) :
    appendBoolVector out values =
      out ++ (encodeWord (UInt64.ofNat values.length) ++ boolBytes values) := by
  have hFold : ∀ (out : Bytes) (values : List Bool),
      values.foldl (fun out value => out ++ [if value then 1 else 0]) out =
        out ++ values.map fun value => if value then 1 else 0 := by
    intro out values
    induction values generalizing out with
    | nil => simp
    | cons value values ih => rw [List.foldl_cons, ih, List.map_cons, List.append_assoc]; rfl
  rw [appendBoolVector, hFold, appendUint64, List.append_assoc, boolBytes]

/-- A vector that is there has words for all its flags. -/
theorem le_wordCount {size : UInt64} (h : size.toNat ≤ vectorMaxSize) :
    ¬ 64 * (wordCount size).toNat < size.toNat := by
  have hSum : (size + 63).toNat = size.toNat + 63 := by
    rw [UInt64.toNat_add]
    apply Nat.mod_eq_of_lt
    rw [vectorMaxSize] at h
    exact Nat.lt_of_le_of_lt (Nat.add_le_add_right h 63) (by decide)
  have hWords : (wordCount size).toNat = (size.toNat + 63) / 64 := by
    rw [wordCount, UInt64.toNat_div, hSum]
    rfl
  rw [hWords]
  omega

theorem parses_readBoolVector (values : List Bool) :
    Parses readBoolVector (encodeWord (UInt64.ofNat values.length) ++ boolBytes values) values := by
  have hFlags : (boolBytes values).map (fun byte => byte != 0) = values := by
    rw [boolBytes, List.map_map]
    refine List.map_id'' ?_ values
    rintro ⟨⟩ <;> rfl
  have hLength := length_boolBytes values
  apply (parses_readUint64 _).bind
  intro before after cursor hSize hOffset
  have hSize' := hSize
  simp only [List.length_append, hLength] at hSize'
  have hBefore : (UInt64.ofNat before.length).toNat = before.length := toNat_ofNat_of_le (by omega)
  have hValues : (UInt64.ofNat values.length).toNat = values.length := toNat_ofNat_of_le (by omega)
  refine Returns.get_bind
    (Returns.check_bind (by rw [hOffset, ← hLength]; exact not_lt_chunk hSize) ?_)
  refine Returns.modify_bind (Returns.check_bind (le_wordCount (by omega)) ?_)
  refine Returns.check_bind ?_ (Returns.modify_bind (Returns.pure ⟨?_, ?_⟩))
  · rw [hOffset, hBefore, hValues, List.length_append, List.length_append, hLength]
    omega
  · rw [hOffset, hBefore, hValues, ← hLength, List.append_assoc, List.drop_left,
      List.take_left, hFlags]
  · change cursor.offset + _ = _
    rw [hOffset, ← hLength, List.length_append, UInt64.ofNat_add]

/-- What `AppendField` adds to its output. -/
def fieldBytes (field : EncryptedField) : Bytes := appendField [] field

theorem appendField_eq (out : Bytes) (field : EncryptedField) :
    appendField out field = out ++ fieldBytes field := by
  simp [appendField, fieldBytes, appendBytes_eq]

theorem fieldBytes_eq (field : EncryptedField) :
    fieldBytes field = (encodeWord (UInt64.ofNat field.iv.length) ++ field.iv) ++
      (encodeWord (UInt64.ofNat field.ciphertext.length) ++ field.ciphertext) := by
  simp [fieldBytes, appendField, appendBytes_eq]

theorem parses_readField (field : EncryptedField) : Parses readField (fieldBytes field) field := by
  rw [fieldBytes_eq]
  unfold readField
  apply (parses_readBytes field.iv).bind
  exact (parses_readBytes field.ciphertext).returning _

theorem parses_readMany {item : Bytes → Reader α} {chunkOf : α → Bytes} (items : List α)
    (h : ∀ x ∈ items, Parses item (chunkOf x) x) :
    Parses (fun bytes => readMany (item bytes) items.length) (items.flatMap chunkOf) items := by
  induction items with
  | nil => exact Parses.pure []
  | cons head tail ih =>
    have hTail := (ih fun x hx => h x (List.mem_cons_of_mem _ hx)).returning (List.cons head)
    exact (h head List.mem_cons_self).bind hTail

theorem length_flatMap_of_length {chunkOf : α → Bytes} {items : List α} {size : Nat}
    (h : ∀ item ∈ items, (chunkOf item).length = size) :
    (items.flatMap chunkOf).length = items.length * size := by
  induction items with
  | nil => simp
  | cons head tail ih =>
    rw [List.flatMap_cons, List.length_append, h head List.mem_cons_self,
      ih fun item hItem => h item (List.mem_cons_of_mem _ hItem), List.length_cons,
      Nat.succ_mul, Nat.add_comm]

/-- A vector of elements of `elementSize` bytes can hold the items. -/
def Holdable (elementSize : Nat) (items : List α) : Prop :=
  items.length ≤ vectorMaxSize / elementSize

instance (elementSize : Nat) (items : List α) : Decidable (Holdable elementSize items) :=
  inferInstanceAs (Decidable (_ ≤ _))

theorem parses_readCounted {elementSize : Nat} {item : Bytes → Reader α}
    {chunkOf : α → Bytes} {items : List α}
    (hHoldable : Holdable elementSize items) (h : ∀ x ∈ items, Parses item (chunkOf x) x) :
    Parses (fun bytes => readCounted bytes elementSize (item bytes))
      (encodeWord (UInt64.ofNat items.length) ++ items.flatMap chunkOf) items := by
  have hCount : (UInt64.ofNat items.length).toNat = items.length :=
    toNat_ofNat_of_le (Nat.le_trans hHoldable (Nat.div_le_self _ _))
  have hMany := parses_readMany items h
  rw [← hCount] at hMany
  apply (parses_readUint64 _).bind
  rw [← List.nil_append (items.flatMap chunkOf)]
  exact (parses_allocate (hCount.trans_le hHoldable) _).bind hMany

theorem foldl_append_flatMap {append : Bytes → α → Bytes} {chunkOf : α → Bytes}
    (h : ∀ out x, append out x = out ++ chunkOf x) (items : List α) (out : Bytes) :
    items.foldl append out = out ++ items.flatMap chunkOf := by
  induction items generalizing out with
  | nil => simp
  | cons head tail ih => rw [List.foldl_cons, ih, h, List.flatMap_cons, List.append_assoc]

/-- What `AppendFields` adds to its output. -/
def fieldsBytes (fields : List EncryptedField) : Bytes :=
  encodeWord (UInt64.ofNat fields.length) ++ fields.flatMap fieldBytes

theorem appendFields_eq (out : Bytes) (fields : List EncryptedField) :
    appendFields out fields = out ++ fieldsBytes fields := by
  rw [appendFields, foldl_append_flatMap appendField_eq, appendUint64,
    fieldsBytes, List.append_assoc]

theorem length_fieldBytes (field : EncryptedField) :
    (fieldBytes field).length = 16 + field.iv.length + field.ciphertext.length := by
  simp [fieldBytes, appendField, appendBytes_eq]
  omega

theorem parses_readFields {fields : List EncryptedField} (h : Holdable encryptedFieldSize fields) :
    Parses readFields (fieldsBytes fields) fields :=
  parses_readCounted h fun field _ => parses_readField field

/-- What `AppendRingBlock` adds to its output. -/
def ringBlockBytes (block : RingBlock) : Bytes := appendRingBlock [] block

theorem appendRingBlock_eq (out : Bytes) (block : RingBlock) :
    appendRingBlock out block = out ++ ringBlockBytes block := by
  simp [appendRingBlock, ringBlockBytes, appendBytes_eq, appendUint64]

theorem length_ringBlockBytes (block : RingBlock) :
    (ringBlockBytes block).length = 24 + block.data.length := by
  simp [ringBlockBytes, appendRingBlock, appendBytes_eq, appendUint64]
  omega

theorem ringBlockBytes_eq (block : RingBlock) :
    ringBlockBytes block = encodeWord block.addr ++ (encodeWord block.leaf ++
      (encodeWord (UInt64.ofNat block.data.length) ++ block.data)) := by
  simp [ringBlockBytes, appendRingBlock, appendBytes_eq, appendUint64]

theorem parses_readRingBlockPayload (block : RingBlock) :
    Parses readRingBlockPayload (ringBlockBytes block) block := by
  rw [ringBlockBytes_eq]
  unfold readRingBlockPayload
  apply (parses_readUint64 block.addr).bind
  apply (parses_readUint64 block.leaf).bind
  exact (parses_readBytes block.data).returning _

theorem readWhole_of_parses {reader : Bytes → Reader α} {chunk : Bytes} {value : α}
    (h : Parses reader chunk value) (hSize : chunk.length ≤ vectorMaxSize) (trailing : String) :
    readWhole chunk (reader chunk) trailing = .ok value := by
  have h' := h [] [] {} (by simpa using hSize) rfl
  rw [List.nil_append, List.append_nil] at h'
  obtain ⟨result, cursor, hRun, rfl, hOffset⟩ := returns_iff.mp h'
  have hRun' : (reader chunk).run {} = .ok result cursor := hRun
  rw [readWhole, hRun']
  exact if_neg (not_not.mpr hOffset)

theorem checkSize_eq_ok {out bytes : Bytes} (h : checkSize out = .ok bytes) :
    bytes = out ∧ out.length ≤ vectorMaxSize := by
  unfold checkSize at h
  split at h
  · cases h
  · cases h
    exact ⟨rfl, by omega⟩

theorem checkSize_of_le {out : Bytes} (h : out.length ≤ vectorMaxSize) : checkSize out = .ok out :=
  if_neg (by omega)

/-- The bytes of a stash file. -/
def stashBytes (blocks : List RingBlock) : Bytes :=
  encodeWord (UInt64.ofNat blocks.length) ++ blocks.flatMap ringBlockBytes

theorem serializeRingBlocks_eq (blocks : List RingBlock) :
    serializeRingBlocks blocks = checkSize (stashBytes blocks) := by
  rw [serializeRingBlocks, foldl_append_flatMap appendRingBlock_eq, appendUint64, stashBytes,
    List.nil_append]

theorem deserializeRingBlocks_serialize {blocks : List RingBlock} {bytes : Bytes}
    (hHoldable : Holdable ringBlockSize blocks) (h : serializeRingBlocks blocks = .ok bytes) :
    deserializeRingBlocks bytes = .ok blocks := by
  rw [serializeRingBlocks_eq] at h
  obtain ⟨rfl, hSize⟩ := checkSize_eq_ok h
  exact readWhole_of_parses (parses_readCounted hHoldable fun block _ =>
    parses_readRingBlockPayload block) hSize _

/-- The vectors of the metadata can hold what is in them. -/
structure RingBucketMetadata.Held (metadata : RingBucketMetadata) : Prop where
  addrs : Holdable encryptedFieldSize metadata.addrs
  leaves : Holdable encryptedFieldSize metadata.leaves
  ptrs : Holdable encryptedFieldSize metadata.ptrs

structure EncryptedRingBucket.Held (bucket : EncryptedRingBucket) : Prop where
  addrs : Holdable encryptedFieldSize bucket.addrs
  leaves : Holdable encryptedFieldSize bucket.leaves
  ptrs : Holdable encryptedFieldSize bucket.ptrs
  data : Holdable encryptedFieldSize bucket.data

theorem EncryptedRingBucket.Held.metadata {bucket : EncryptedRingBucket} (h : bucket.Held) :
    RingBucketMetadata.Held ⟨bucket.count, bucket.valids, bucket.addrs,
      bucket.leaves, bucket.ptrs⟩ :=
  ⟨h.addrs, h.leaves, h.ptrs⟩

def metadataBytes (metadata : RingBucketMetadata) : Bytes := appendMetadata [] metadata

theorem metadataBytes_eq (metadata : RingBucketMetadata) :
    metadataBytes metadata = encodeWord metadata.count ++
      ((encodeWord (UInt64.ofNat metadata.valids.length) ++ boolBytes metadata.valids) ++
        (fieldsBytes metadata.addrs ++
          (fieldsBytes metadata.leaves ++ fieldsBytes metadata.ptrs))) := by
  simp only [metadataBytes, appendMetadata, appendFields_eq, appendBoolVector_eq, appendUint64,
    List.nil_append, List.append_assoc]

theorem deserializeRingBucketMetadata_serialize {metadata : RingBucketMetadata} {bytes : Bytes}
    (hHeld : metadata.Held) (h : serializeRingBucketMetadata metadata = .ok bytes) :
    deserializeRingBucketMetadata bytes = .ok metadata := by
  obtain ⟨rfl, hSize⟩ := checkSize_eq_ok h
  have hParse : Parses readMetadata (metadataBytes metadata) metadata := by
    rw [metadataBytes_eq]
    unfold readMetadata
    apply (parses_readUint64 metadata.count).bind
    apply (parses_readBoolVector metadata.valids).bind
    apply (parses_readFields hHeld.addrs).bind
    apply (parses_readFields hHeld.leaves).bind
    exact (parses_readFields hHeld.ptrs).returning _
  exact readWhole_of_parses hParse hSize _

def bucketBytes (bucket : EncryptedRingBucket) : Bytes :=
  encodeWord bucket.count ++
    ((encodeWord (UInt64.ofNat bucket.valids.length) ++ boolBytes bucket.valids) ++
      (fieldsBytes bucket.addrs ++ (fieldsBytes bucket.leaves ++
        (fieldsBytes bucket.ptrs ++ fieldsBytes bucket.data))))

theorem serializeEncryptedRingBucket_eq (bucket : EncryptedRingBucket) :
    serializeEncryptedRingBucket bucket = checkSize (bucketBytes bucket) := by
  simp only [serializeEncryptedRingBucket, appendFields_eq, appendBoolVector_eq, appendUint64,
    List.nil_append, List.append_assoc, bucketBytes]

theorem deserializeEncryptedRingBucket_bytes {bucket : EncryptedRingBucket} (hHeld : bucket.Held)
    (hSize : (bucketBytes bucket).length ≤ vectorMaxSize) :
    deserializeEncryptedRingBucket (bucketBytes bucket) = .ok bucket := by
  have hParse : Parses readEncryptedBucket (bucketBytes bucket) bucket := by
    unfold bucketBytes readEncryptedBucket
    apply (parses_readUint64 bucket.count).bind
    apply (parses_readBoolVector bucket.valids).bind
    apply (parses_readFields hHeld.addrs).bind
    apply (parses_readFields hHeld.leaves).bind
    apply (parses_readFields hHeld.ptrs).bind
    exact (parses_readFields hHeld.data).returning _
  exact readWhole_of_parses hParse hSize _

section Readers

variable {cursor : Cursor}

theorem readMany_length {item : Reader α} (count : Nat) :
    wp (readMany item count) cursor (fun items _ => items.length = count) fun _ _ => True := by
  induction count generalizing cursor with
  | zero => exact wp.pure rfl
  | succ count ih =>
    refine wp.bind (wp_trivial _ _) fun head _ _ => wp.bind ih fun tail _ hTail => wp.pure ?_
    rw [List.length_cons, hTail]

/-- A reader never returns more items than it has reserved memory for. -/
theorem readCounted_holdable (bytes : Bytes) (elementSize : Nat) (item : Reader α) :
    wp (readCounted bytes elementSize item) cursor (fun items _ => Holdable elementSize items)
      fun _ _ => True := by
  refine wp.bind (wp_trivial _ _) fun size _ _ => ?_
  have hAllocate (cursor : Cursor) : wp (allocate bytes elementSize size "vector::reserve") cursor
      (fun _ _ => ¬ vectorMaxSize / elementSize < size.toNat) fun _ _ => True :=
    wp.modify_bind ((wp_throwIf _ _).mpr ⟨fun _ => trivial, id⟩)
  refine wp.bind (hAllocate _) fun _ _ hRoom => ?_
  refine wp_mono (readMany_length size.toNat) (fun items _ hLength => ?_) fun _ _ => id
  exact hLength.trans_le (Nat.not_lt.mp hRoom)

theorem readEncryptedBucket_held (bytes : Bytes) :
    wp (readEncryptedBucket bytes) cursor (fun bucket _ => bucket.Held) fun _ _ => True := by
  refine wp.bind (wp_trivial _ _) fun count _ _ => wp.bind (wp_trivial _ _) fun valids _ _ => ?_
  refine wp.bind (readCounted_holdable _ _ _) fun addrs _ hAddrs => ?_
  refine wp.bind (readCounted_holdable _ _ _) fun leaves _ hLeaves => ?_
  refine wp.bind (readCounted_holdable _ _ _) fun ptrs _ hPtrs => ?_
  exact wp.bind (readCounted_holdable _ _ _) fun data _ hData =>
    wp.pure ⟨hAddrs, hLeaves, hPtrs, hData⟩

theorem held_of_deserialize {bytes : Bytes} {bucket : EncryptedRingBucket}
    (h : deserializeEncryptedRingBucket bytes = .ok bucket) : bucket.Held := by
  have hHeld := (wp_iff.mp (@readEncryptedBucket_held {} bytes)).1
  unfold deserializeEncryptedRingBucket readWhole at h
  split at h
  case h_1 => cases h
  case h_2 value cursor hRun =>
    split at h
    · cases h
    · obtain rfl := Except.ok.inj h
      exact hHeld value cursor hRun

end Readers

theorem deserializeEncryptedRingBucket_serialize {bucket : EncryptedRingBucket} {bytes : Bytes}
    (hHeld : bucket.Held) (h : serializeEncryptedRingBucket bucket = .ok bytes) :
    deserializeEncryptedRingBucket bytes = .ok bucket := by
  rw [serializeEncryptedRingBucket_eq] at h
  obtain ⟨rfl, hSize⟩ := checkSize_eq_ok h
  exact deserializeEncryptedRingBucket_bytes hHeld hSize

end OramHub.RingOram
