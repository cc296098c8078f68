import OramHub.RingOram.Scanning

/-! # Nothing but the encoder's image is accepted

`Exact reader encodes`: wherever the reader stops, what it has consumed encodes the value that it
returns.
-/
namespace OramHub.RingOram
open OramHub.Core OramHub.Program OramHub.LittleEndian OramHub.Layouts
set_option autoImplicit false

variable {α β : Type}

/-- Where a reader may have stopped. -/
def Consumed (before rest : Bytes) (encodes : Bytes → α → Prop) (value : α)
    (cursor : Cursor) : Prop :=
  ∃ chunk rest', rest = chunk ++ rest' ∧ encodes chunk value ∧
    cursor.offset = UInt64.ofNat (before ++ chunk).length

def Exact (reader : Bytes → Reader α) (encodes : Bytes → α → Prop) : Prop :=
  ∀ before rest cursor, (before ++ rest).length ≤ vectorMaxSize →
    cursor.offset = UInt64.ofNat before.length →
    wp (reader (before ++ rest)) cursor (Consumed before rest encodes) fun _ _ => True

section Combinators

theorem Exact.mono {reader : Bytes → Reader α} {encodes encodes' : Bytes → α → Prop}
    (h : Exact reader encodes)
    (hEncodes : ∀ chunk value, encodes chunk value → encodes' chunk value) : Exact
      reader encodes' := by
  intro before rest cursor hSize hOffset
  refine wp_mono (h before rest cursor hSize hOffset) ?_ fun _ _ => id
  rintro value cursor' ⟨chunk, rest', hRest, hChunk, hOffset'⟩
  exact ⟨chunk, rest', hRest, hEncodes chunk value hChunk, hOffset'⟩

theorem Exact.bind {reader : Bytes → Reader α} {next : α → Bytes → Reader β}
    {encodes : Bytes → α → Prop} {encodes' : α → Bytes → β → Prop} (h : Exact reader encodes)
    (hNext : ∀ a, Exact (next a) (encodes' a)) :
    Exact (fun bytes => reader bytes >>= fun a => next a bytes) fun chunk value =>
      ∃ first a second, chunk = first ++ second ∧ encodes first a ∧ encodes' a second value := by
  intro before rest cursor hSize hOffset
  apply wp.bind (h before rest cursor hSize hOffset)
  rintro a cursor' ⟨first, rest', rfl, hFirst, hOffset'⟩
  rw [← List.append_assoc] at hSize ⊢
  refine wp_mono (hNext a (before ++ first) rest' cursor' hSize hOffset') ?_ fun _ _ => id
  rintro value cursor'' ⟨second, rest'', rfl, hSecond, hOffset''⟩
  refine ⟨first ++ second, rest'', (List.append_assoc first second rest'').symm,
    ⟨first, a, second, rfl, hFirst, hSecond⟩, ?_⟩
  rw [hOffset'', List.append_assoc]

theorem Exact.returning {reader : Bytes → Reader α} {encodes : Bytes → α → Prop}
    (h : Exact reader encodes) (f : α → β) :
    Exact (fun bytes => reader bytes >>= fun a => Pure.pure (f a)) fun chunk value => ∃ a,
    encodes chunk a ∧ value = f a := by
  intro before rest cursor hSize hOffset
  apply wp.bind (h before rest cursor hSize hOffset)
  rintro a cursor' ⟨chunk, rest', hRest, hChunk, hOffset'⟩
  exact wp.pure ⟨chunk, rest', hRest, ⟨a, hChunk, rfl⟩, hOffset'⟩

end Combinators

section Words

theorem length_le_of_check {before rest : Bytes} {size : UInt64}
    (hSize : (before ++ rest).length ≤ vectorMaxSize)
    (hCheck : ¬ UInt64.ofNat (before ++ rest).length < UInt64.ofNat before.length + size)
    (hSmall : size.toNat ≤ vectorMaxSize) :
    size.toNat ≤ rest.length := by
  have hMax : vectorMaxSize = 2 ^ 63 - 1 := rfl
  have hLength : before.length + rest.length ≤ vectorMaxSize := by rwa [List.length_append] at hSize
  rw [UInt64.lt_iff_toNat_lt, toNat_ofNat_of_le hSize, UInt64.toNat_add,
    toNat_ofNat_of_le (by omega), List.length_append] at hCheck
  omega

theorem consumed_take {before rest : Bytes} {encodes : Bytes → α → Prop} {value : α}
    {cursor : Cursor} {size : UInt64}
    (hLe : size.toNat ≤ rest.length) (hOffset : cursor.offset = UInt64.ofNat before.length)
    (hEncodes : encodes (rest.take size.toNat) value) :
    Consumed before rest encodes value (cursor.advance size) := by
  refine ⟨rest.take size.toNat, rest.drop size.toNat, (List.take_append_drop _ rest).symm,
    hEncodes, ?_⟩
  change cursor.offset + size = _
  rw [List.length_append, List.length_take, Nat.min_eq_left hLe, UInt64.ofNat_add,
    hOffset, UInt64.ofNat_toNat]

theorem exact_readUint64 : Exact readUint64 fun chunk value => chunk = encodeWord value := by
  intro before rest cursor hSize hOffset
  refine wp.get_bind (wp.check_bind (fun _ => trivial) fun hCheck => ?_)
  rw [hOffset] at hCheck
  have hLe : (8 : UInt64).toNat ≤ rest.length := length_le_of_check hSize hCheck (by decide)
  have hLength : before.length ≤ vectorMaxSize := by
    rw [List.length_append] at hSize
    omega
  refine Returns.outcome (Returns.set_bind (Returns.pure (consumed_take hLe hOffset ?_)))
  have hEight : (rest.take 8).length = 8 := by
    rw [List.length_take]
    exact Nat.min_eq_left hLe
  rw [hOffset, toNat_ofNat_of_le hLength, List.drop_left]
  exact (encodeWord_decodeWord hEight).symm

/-- A length for which the sum wraps around never yields a value. -/
theorem exact_readRange (size : UInt64) (what : String) :
    Exact (fun bytes => readRange bytes size what) fun chunk value => chunk.length = size.toNat ∧
    value = chunk := by
  intro before rest cursor hSize hOffset
  refine wp.get_bind (wp.check_bind (fun _ => trivial) fun hCheck => ?_)
  rw [hOffset] at hCheck
  refine wp.bind (wp_mono (allocate_outcome _ 1 size _ cursor) (fun _ _ => id) fun _ _ _ =>
    trivial) ?_
  rintro _ _ ⟨rfl, hSmall⟩
  rw [Nat.div_one] at hSmall
  have hLe : size.toNat ≤ rest.length := length_le_of_check hSize hCheck hSmall
  have hLength : before.length ≤ vectorMaxSize := by
    rw [List.length_append] at hSize
    omega
  refine wp.modify_bind (wp.pure ?_)
  rw [hOffset, toNat_ofNat_of_le hLength, List.drop_left]
  exact consumed_take hLe hOffset ⟨by rw [List.length_take, Nat.min_eq_left hLe], rfl⟩

/-- Every flag byte other than 0 counts as set. -/
theorem exact_readFlags (size : UInt64) :
    Exact (fun bytes => readFlags bytes size) fun chunk values =>
    chunk.length = size.toNat ∧ values = chunk.map fun byte => byte != 0 := by
  intro before rest cursor hSize hOffset
  refine wp.get_bind (wp.check_bind (fun _ => trivial) fun _ => wp.modify_bind ?_)
  refine wp.check_bind (fun _ => trivial) fun _ => wp.check_bind (fun _ => trivial) fun hThere => ?_
  have hLength : before.length ≤ vectorMaxSize := by
    rw [List.length_append] at hSize
    omega
  rw [hOffset, toNat_ofNat_of_le hLength, List.length_append] at hThere
  have hLe : size.toNat ≤ rest.length := by omega
  refine wp.modify_bind (wp.pure ?_)
  rw [hOffset, toNat_ofNat_of_le hLength, List.drop_left]
  exact @consumed_take _ before rest _ _ (cursor.request _ size) size hLe hOffset
    ⟨by rw [List.length_take, Nat.min_eq_left hLe], rfl⟩

end Words

section Formats

/-- The bytes behind their own length. -/
def prefixed (bytes : Bytes) : Bytes := encodeWord (UInt64.ofNat bytes.length) ++ bytes

theorem exact_readBytes : Exact readBytes fun chunk value => chunk = prefixed value := by
  refine (exact_readUint64.bind fun size => exact_readRange size _).mono ?_
  rintro chunk value ⟨first, size, second, rfl, rfl, hLength, rfl⟩
  rw [prefixed, hLength, UInt64.ofNat_toNat]

theorem exact_readBoolVector : Exact readBoolVector fun chunk values =>
    ∃ flags, chunk = prefixed flags ∧ values = flags.map fun byte => byte != 0 := by
  refine (exact_readUint64.bind exact_readFlags).mono ?_
  rintro chunk values ⟨first, size, second, rfl, rfl, hLength, rfl⟩
  exact ⟨second, by rw [prefixed, hLength, UInt64.ofNat_toNat], rfl⟩

theorem exact_readField : Exact readField fun chunk field => chunk = fieldBytes field := by
  refine (exact_readBytes.bind fun iv => exact_readBytes.returning fun ciphertext =>
    EncryptedField.mk iv ciphertext).mono ?_
  rintro chunk field ⟨first, iv, second, rfl, rfl, ciphertext, rfl, rfl⟩
  rw [fieldBytes_eq, prefixed, prefixed]

theorem exact_readMany {item : Bytes → Reader α} {chunkOf : α → Bytes}
    (h : Exact item fun chunk value => chunk = chunkOf value)
    (count : Nat) : Exact (fun bytes => readMany (item bytes) count) fun chunk values =>
      values.length = count ∧ chunk = values.flatMap chunkOf := by
  induction count with
  | zero =>
    intro before rest cursor _ hOffset
    refine wp.pure ⟨[], rest, rfl, ⟨rfl, rfl⟩, ?_⟩
    rw [List.append_nil, hOffset]
  | succ count ih =>
    refine (h.bind fun head => ih.returning fun tail => head :: tail).mono ?_
    rintro chunk values ⟨first, head, second, rfl, rfl, tail, ⟨rfl, rfl⟩, rfl⟩
    exact ⟨rfl, rfl⟩

theorem exact_allocate (elementSize : Nat) (size : UInt64) (what : String) :
    Exact (fun bytes => allocate bytes elementSize size what) fun chunk _ =>
      chunk = [] ∧ size.toNat ≤ vectorMaxSize / elementSize := by
  intro before rest cursor _ hOffset
  refine wp_mono (allocate_outcome _ elementSize size what cursor) ?_ fun _ _ _ => trivial
  rintro _ _ ⟨rfl, hSmall⟩
  refine ⟨[], rest, rfl, ⟨rfl, hSmall⟩, ?_⟩
  rw [List.append_nil]
  exact hOffset

theorem exact_readCounted {item : Bytes → Reader α} {chunkOf : α → Bytes}
    (h : Exact item fun chunk value => chunk = chunkOf value) (elementSize : Nat) :
    Exact (fun bytes => readCounted bytes elementSize (item bytes)) fun chunk values =>
      chunk = encodeWord (UInt64.ofNat values.length) ++ values.flatMap chunkOf ∧
      Holdable elementSize values := by
  refine (exact_readUint64.bind fun size => (exact_allocate elementSize size _).bind fun _ =>
    exact_readMany h size.toNat).mono ?_
  rintro chunk values ⟨first, size, second, rfl, rfl, _, _, body, rfl, ⟨rfl, hSmall⟩, hLength, rfl⟩
  refine ⟨?_, hLength.trans_le hSmall⟩
  rw [hLength, UInt64.ofNat_toNat, List.nil_append]

theorem exact_readFields : Exact readFields fun chunk fields =>
    chunk = fieldsBytes fields ∧ Holdable encryptedFieldSize fields :=
  exact_readCounted exact_readField encryptedFieldSize

theorem exact_readRingBlockPayload :
    Exact readRingBlockPayload fun chunk block => chunk = ringBlockBytes block := by
  refine (exact_readUint64.bind fun addr => exact_readUint64.bind fun leaf =>
    exact_readBytes.returning fun data => RingBlock.mk addr leaf data).mono ?_
  rintro chunk block ⟨first, addr, second, rfl, rfl, third, leaf, fourth, rfl, rfl, data, rfl, rfl⟩
  rw [ringBlockBytes_eq, prefixed]

theorem exact_readRingBlocks : Exact readRingBlocks fun chunk blocks =>
    chunk = stashBytes blocks ∧ Holdable ringBlockSize blocks :=
  exact_readCounted exact_readRingBlockPayload ringBlockSize

theorem exact_readMetadata : Exact readMetadata fun chunk metadata =>
    (∃ flags, metadata.valids = flags.map (fun byte => byte != 0) ∧
      chunk = encodeWord metadata.count ++ (prefixed flags ++
        (fieldsBytes metadata.addrs ++
          (fieldsBytes metadata.leaves ++ fieldsBytes metadata.ptrs)))) ∧
    metadata.Held := by
  refine (exact_readUint64.bind fun count => exact_readBoolVector.bind fun valids =>
    exact_readFields.bind fun addrs => exact_readFields.bind fun leaves =>
      exact_readFields.returning fun ptrs =>
      RingBucketMetadata.mk count valids addrs leaves ptrs).mono ?_
  rintro chunk metadata ⟨_, count, _, rfl, rfl, _, _, _, rfl, ⟨flags, rfl, rfl⟩, _, addrs,
    _, rfl, ⟨rfl, hAddrs⟩, _, leaves, _, rfl, ⟨rfl, hLeaves⟩, ptrs, ⟨rfl, hPtrs⟩, rfl⟩
  exact ⟨⟨flags, rfl, rfl⟩, hAddrs, hLeaves, hPtrs⟩

theorem exact_readEncryptedBucket : Exact readEncryptedBucket fun chunk bucket =>
    (∃ flags, bucket.valids = flags.map (fun byte => byte != 0) ∧
      chunk = encodeWord bucket.count ++ (prefixed flags ++ (fieldsBytes bucket.addrs ++
        (fieldsBytes bucket.leaves ++ (fieldsBytes bucket.ptrs ++ fieldsBytes bucket.data))))) ∧
    bucket.Held := by
  refine (exact_readUint64.bind fun count => exact_readBoolVector.bind fun valids =>
    exact_readFields.bind fun addrs => exact_readFields.bind fun leaves =>
      exact_readFields.bind fun ptrs =>
      exact_readFields.returning fun data =>
        EncryptedRingBucket.mk count valids addrs leaves ptrs data).mono ?_
  rintro chunk bucket ⟨_, count, _, rfl, rfl, _, _, _, rfl, ⟨flags, rfl, rfl⟩, _, addrs,
    _, rfl, ⟨rfl, hAddrs⟩,
    _, leaves, _, rfl, ⟨rfl, hLeaves⟩, _, ptrs, _, rfl, ⟨rfl, hPtrs⟩, data, ⟨rfl, hData⟩, rfl⟩
  exact ⟨⟨flags, rfl, rfl⟩, hAddrs, hLeaves, hPtrs, hData⟩

/-- The bytes that a bucket format reads as flags. -/
def flagBytes (bytes : Bytes) : Bytes := (bytes.drop 16).take (lengthPrefix (bytes.drop 8))

def CanonicalFlags (bytes : Bytes) : Prop := ∀ flag ∈ flagBytes bytes, flag = 0 ∨ flag = 1

theorem flagBytes_eq {count : UInt64} {flags rest : Bytes} (h : flags.length ≤ vectorMaxSize) :
    flagBytes (encodeWord count ++ (prefixed flags ++ rest)) = flags := by
  have hWord := length_encodeWord count
  have hDrop : (encodeWord count ++ (prefixed flags ++ rest)).drop 8 = prefixed flags ++ rest :=
    List.drop_left' hWord
  have hLengthWord := length_encodeWord (UInt64.ofNat flags.length)
  rw [flagBytes, show (16 : Nat) = 8 + 8 from rfl, ← List.drop_drop, hDrop, prefixed,
    List.append_assoc, List.drop_left' hLengthWord,
    lengthPrefix, List.take_left' hLengthWord, decodeWord_encodeWord,
    toNat_ofNat_of_le h, List.take_left]

theorem map_flags {flags : Bytes} (h : ∀ flag ∈ flags, flag = 0 ∨ flag = 1) :
    boolBytes (flags.map fun byte => byte != 0) = flags := by
  rw [boolBytes, List.map_map]
  refine (List.map_congr_left ?_).trans (List.map_id flags)
  intro flag hFlag
  obtain rfl | rfl := h flag hFlag
  · rfl
  · rfl

end Formats

section Main

theorem encodes_of_readWhole {reader : Bytes → Reader α} {encodes : Bytes → α → Prop}
    (h : Exact reader encodes) {bytes : Bytes}
    (hFits : bytes.length ≤ vectorMaxSize) {value : α} {trailing : String}
    (hAccepted : readWhole bytes (reader bytes) trailing = .ok value) : encodes bytes value := by
  have hReads := (wp_iff.mp (h [] bytes {} hFits rfl)).1
  rw [List.nil_append] at hReads
  unfold readWhole at hAccepted
  split at hAccepted
  case h_1 => cases hAccepted
  case h_2 value' cursor hRun =>
    split at hAccepted
    · cases hAccepted
    · rename_i hOffset
      cases hAccepted
      obtain ⟨chunk, rest', rfl, hChunk, hEnd⟩ := hReads value cursor hRun
      rw [not_not.mp hOffset, List.nil_append] at hEnd
      have hLengths := congrArg UInt64.toNat hEnd
      have hChunkFits : chunk.length ≤ vectorMaxSize := by
        rw [List.length_append] at hFits
        omega
      rw [toNat_ofNat_of_le hFits, toNat_ofNat_of_le hChunkFits, List.length_append] at hLengths
      obtain rfl : rest' = [] := List.eq_nil_of_length_eq_zero (by omega)
      rwa [List.append_nil]

/-- A format that round-trips in both directions. `held` says that the vectors of a value hold what
is in them, `size` is the length of the encoding and `canonical` what an input must satisfy to be
compared with it. -/
structure RoundTrips (serialize : α → Except Exception Bytes)
    (deserialize : Bytes → Except Exception α)
    (held : α → Prop) (size : α → Nat) (canonical : Bytes → Prop) : Prop where
  writes : ∀ value, held value → size value ≤ vectorMaxSize →
    ∃ bytes, serialize value = .ok bytes ∧ deserialize bytes = .ok value
  exact : ∀ (input : ByteVector) (value : α), canonical input.bytes →
    deserialize input.bytes = .ok value →
    serialize value = .ok input.bytes
  injective : ∀ (input input' : ByteVector) (value : α), canonical input.bytes →
    canonical input'.bytes →
    deserialize input.bytes = .ok value → deserialize input'.bytes = .ok value →
    input.bytes = input'.bytes
  holds : ∀ (input : ByteVector) (value : α), deserialize input.bytes = .ok value → held value

theorem roundTrips_of {serialize : α → Except Exception Bytes}
    {deserialize : Bytes → Except Exception α}
    {held : α → Prop} {canonical : Bytes → Prop} {bytesOf : α → Bytes}
    (hSerialize : ∀ value, serialize value = checkSize (bytesOf value))
    (hWrites : ∀ {value bytes}, held value → serialize value = .ok bytes →
      deserialize bytes = .ok value)
    (hExact : ∀ (input : ByteVector) (value : α), deserialize input.bytes = .ok value →
      (canonical input.bytes → input.bytes = bytesOf value) ∧ held value) :
    RoundTrips serialize deserialize held (fun value => (bytesOf value).length) canonical := by
  constructor
  case writes =>
    intro value hHeld hSize
    have hOk : serialize value = .ok (bytesOf value) := by rw [hSerialize, checkSize_of_le hSize]
    exact ⟨bytesOf value, hOk, hWrites hHeld hOk⟩
  case exact =>
    intro input value hCanonical hAccepted
    have hBytes := (hExact input value hAccepted).1 hCanonical
    rw [hSerialize, ← hBytes, checkSize_of_le input.fits]
  case injective =>
    intro input input' value hCanonical hCanonical' hAccepted hAccepted'
    have hBytes := (hExact input value hAccepted).1 hCanonical
    exact hBytes.trans ((hExact input' value hAccepted').1 hCanonical').symm
  case holds => exact fun input value hAccepted => (hExact input value hAccepted).2

/-- Canonical flags are the flags that the encoder writes. -/
theorem canonical_bytes {input : ByteVector} {count : UInt64}
    {flags rest : Bytes} {valids : List Bool} (hValids : valids = flags.map fun byte => byte != 0)
    (hBytes : input.bytes = encodeWord count ++ (prefixed flags ++ rest))
    (hCanonical : CanonicalFlags input.bytes) :
    input.bytes = encodeWord count ++
      ((encodeWord (UInt64.ofNat valids.length) ++ boolBytes valids) ++ rest) := by
  have hFlags : flags.length ≤ vectorMaxSize := by
    have hFits := input.fits
    simp only [hBytes, prefixed, List.length_append] at hFits
    omega
  rw [CanonicalFlags, hBytes, flagBytes_eq hFlags] at hCanonical
  rw [hBytes, hValids, map_flags hCanonical, List.length_map, prefixed]

theorem ringBlock_roundTrips : RoundTrips serializeRingBlock deserializeRingBlock (fun _ => True)
    (fun block => (ringBlockBytes block).length) fun _ => True := by
  refine roundTrips_of (fun _ => rfl) ?_ ?_
  · intro block bytes _ hOk
    obtain ⟨rfl, hSize⟩ := checkSize_eq_ok hOk
    exact readWhole_of_parses (parses_readRingBlockPayload block) hSize _
  · intro input block hAccepted
    exact ⟨fun _ => encodes_of_readWhole exact_readRingBlockPayload input.fits hAccepted, trivial⟩

theorem ringBlocks_roundTrips :
    RoundTrips serializeRingBlocks deserializeRingBlocks (Holdable ringBlockSize)
    (fun blocks => (stashBytes blocks).length) fun _ => True := by
  apply roundTrips_of serializeRingBlocks_eq deserializeRingBlocks_serialize
  intro input blocks hAccepted
  obtain ⟨hBytes, hHeld⟩ := encodes_of_readWhole exact_readRingBlocks input.fits hAccepted
  exact ⟨fun _ => hBytes, hHeld⟩

theorem metadata_roundTrips : RoundTrips serializeRingBucketMetadata deserializeRingBucketMetadata
    RingBucketMetadata.Held (fun metadata => (metadataBytes metadata).length) CanonicalFlags := by
  refine roundTrips_of (fun _ => rfl) deserializeRingBucketMetadata_serialize ?_
  intro input metadata hAccepted
  obtain ⟨⟨flags, hValids, hBytes⟩, hHeld⟩ :=
    encodes_of_readWhole exact_readMetadata input.fits hAccepted
  refine ⟨fun hCanonical => ?_, hHeld⟩
  rw [metadataBytes_eq]
  exact canonical_bytes hValids hBytes hCanonical

theorem encryptedBucket_roundTrips :
    RoundTrips serializeEncryptedRingBucket deserializeEncryptedRingBucket
    EncryptedRingBucket.Held (fun bucket => (bucketBytes bucket).length) CanonicalFlags := by
  apply roundTrips_of serializeEncryptedRingBucket_eq deserializeEncryptedRingBucket_serialize
  intro input bucket hAccepted
  obtain ⟨⟨flags, hValids, hBytes⟩, hHeld⟩ :=
    encodes_of_readWhole exact_readEncryptedBucket input.fits hAccepted
  refine ⟨fun hCanonical => ?_, hHeld⟩
  rw [bucketBytes]
  exact canonical_bytes hValids hBytes hCanonical

/-- Every format of the client's stash file and of the network round-trips in both directions. -/
theorem formats_roundTrip :
    RoundTrips serializeRingBlock deserializeRingBlock (fun _ => True)
      (fun block => (ringBlockBytes block).length)
      (fun _ => True) ∧
    RoundTrips serializeRingBlocks deserializeRingBlocks (Holdable ringBlockSize)
      (fun blocks => (stashBytes blocks).length) (fun _ => True) ∧
    RoundTrips serializeEncryptedRingBucket deserializeEncryptedRingBucket EncryptedRingBucket.Held
      (fun bucket => (bucketBytes bucket).length) CanonicalFlags ∧
    RoundTrips serializeRingBucketMetadata deserializeRingBucketMetadata RingBucketMetadata.Held
      (fun metadata => (metadataBytes metadata).length) CanonicalFlags :=
  ⟨ringBlock_roundTrips, ringBlocks_roundTrips, encryptedBucket_roundTrips, metadata_roundTrips⟩

end Main
end OramHub.RingOram
