import OramHub.RingOram.RoundTrip
import OramHub.RingOram.Scanning
import OramHub.RingOram.StoredTree
import OramHub.RingOram.Wire
import OramHub.RingOram.XorRead

/-! # Requests that the server rejects

A handler that throws keeps what it has written so far. `HandleWriteBucket` checks before it writes.
`HandleInit` throws the old tree away before it has seen the new one, and `HandleXorPathSlots`
checks and writes bucket by bucket.
-/
namespace OramHub.RingOram
open OramHub.Core OramHub.Program OramHub.LittleEndian OramHub.Network OramHub.Streams
set_option autoImplicit false

/-- A server that has completed an 'I' request: every bucket has a file of the configured shape. -/
structure Initialised (cfg : RuntimeConfig) (server : Server) : Prop where
  nodeCount : server.nodeCount = cfg.numTreeNodes
  stored : ∀ index, index < cfg.numTreeNodes → ∃ bucket, Stores cfg server index bucket

/-- If the next command fails, it fails with an exception, and all bucket files and the node count
are as before. -/
def LeavesTree (cfg : RuntimeConfig) (server : Server) (incoming outgoing : Bytes) : Prop :=
  ∀ e connection, (Wire.handleCommand cfg).run ⟨server, incoming, outgoing⟩ = .error e connection →
    e.Defined ∧ connection.server.files = server.files ∧
    connection.server.nodeCount = server.nodeCount

/-- A serialized bucket of the configured shape. -/
def Acceptable (cfg : RuntimeConfig) (bytes : Bytes) : Prop :=
  bytes.length ≤ vectorMaxSize ∧ ∃ bucket, deserializeEncryptedRingBucket bytes = .ok bucket ∧
    bucketShape cfg bucket

/-- A node count that is right is followed by as many acceptable buckets. -/
def InitCompletes (cfg : RuntimeConfig) (body : Bytes) : Prop :=
  ∀ rest, body = encodeWord cfg.numTreeNodes ++ rest → ∃ (buckets : List Bytes) (after : Bytes),
    rest = buckets.flatMap sendVec ++ after ∧
    buckets.length = cfg.numTreeNodes.toNat ∧ ∀ bytes ∈ buckets, Acceptable cfg bytes

/-- A slot that is in range, valid and of the block size. -/
def Selectable (cfg : RuntimeConfig) (bucket : EncryptedRingBucket) (offset : UInt64) : Prop :=
  bucket.valids[offset.toNat]? = some true ∧
    ∃ field, bucket.data[offset.toNat]? = some field ∧ field.ciphertext.length = cfg.blockSize.toNat

/-- The slot can be selected in the stored bucket. -/
def Offers (cfg : RuntimeConfig) (server : Server) (slot : UInt64 × UInt64) : Prop :=
  ∃ bucket, Stores cfg server slot.1 bucket ∧ Selectable cfg bucket slot.2

/-- The body of an 'X' request for the slots `offsets` of the buckets `path`, with one offset for
each of them. -/
def SlotRequest (cfg : RuntimeConfig) (body : Bytes) (path offsets : List UInt64) : Prop :=
  ∃ leaf rest, cfg.getPathIndices leaf = .ok path ∧ offsets.length = path.length ∧
    body = encodeWord leaf ++
      (encodeWord (UInt64.ofNat path.length) ++ (offsets.flatMap encodeWord ++ rest))

/-- If the slot of the root can be selected, all slots of the request can. -/
def XorCompletes (cfg : RuntimeConfig) (server : Server) (body : Bytes) : Prop :=
  ∀ path offsets, SlotRequest cfg body path offsets →
    (∀ slot ∈ (path.zip offsets).head?, Offers cfg server slot) → ∀ slot ∈ path.zip offsets,
    Offers cfg server slot

/-- The body of a 'W' request whose bucket has so many flags that the deserializer writes out of
bounds. -/
def WriteWraps (body : Bytes) : Prop :=
  ∃ index payload rest, body = encodeWord index ++ (sendVec payload ++ rest) ∧
    payload.length ≤ vectorMaxSize ∧ FlagsWrap payload

/-- Requests whose rejection leaves the tree intact. -/
structure Spared (cfg : RuntimeConfig) (server : Server) (command : UInt8)
    (body : Bytes) : Prop where
  init : command = 'I'.toUInt8 → InitCompletes cfg body
  xor : command = 'X'.toUInt8 → XorCompletes cfg server body
  write : command = 'W'.toUInt8 → ¬ WriteWraps body

variable {cfg : RuntimeConfig} {server : Server} {body sent : Bytes}

/-! ## Single buckets -/

section Buckets

variable {index offset : UInt64} {bucket : EncryptedRingBucket} {selected : Bytes × List Bytes}

theorem Acceptable.fits {bytes : Bytes} (hSize : bytes.length ≤ vectorMaxSize)
    (h : deserializeEncryptedRingBucket bytes = .ok bucket) :
    (bucketBytes bucket).length ≤ vectorMaxSize := by
  obtain ⟨⟨flags, hValids, hBytes⟩, _⟩ := encodes_of_readWhole exact_readEncryptedBucket hSize h
  have hLength : (bucketBytes bucket).length = bytes.length := by
    simp [bucketBytes, length_boolBytes, hBytes, hValids, prefixed]
  exact hLength ▸ hSize

theorem defined_of_checkSize {out : Bytes} {e : Exception}
    (h : checkSize out = .error e) : e.Defined := by
  unfold checkSize at h
  split at h
  · cases h
    simp [Exception.Defined]
  · cases h

theorem defined_of_getPathIndices {leaf : UInt64} {e : Exception}
    (h : cfg.getPathIndices leaf = .error e) : e.Defined := by
  unfold RuntimeConfig.getPathIndices at h
  split at h
  · cases h
    simp [Exception.Defined]
  · cases h

theorem validateBucketShape_outcome (bucket : EncryptedRingBucket) (context : String) :
    wp (validateBucketShape cfg bucket context) server (fun _ server' => bucketShape cfg bucket ∧
      server' = server)
      fun e server' => e.Defined ∧ server' = server :=
  (wp_throwIf _ _).mpr ⟨fun _ => ⟨by simp [Exception.Defined], rfl⟩, fun hShape =>
    ⟨not_not.mp hShape, rfl⟩⟩

theorem writeBucketToDisk_outcome (index : UInt64) (hHeld : bucket.Held) :
    wp (writeBucketToDisk cfg index bucket) server
      (fun _ server' => Stores cfg server' index bucket ∧ server' = { server with
        files := Function.update server.files index.toNat (some (bucketBytes bucket)) })
      fun e server' => e.Defined ∧ server' = server := by
  apply wp.get_bind
  refine wp.check_bind (fun _ => ⟨by simp [Exception.Defined], rfl⟩) fun hRange => ?_
  refine wp.check_bind (fun _ => ⟨by simp [Exception.Defined], rfl⟩) fun hShape => ?_
  rw [serializeEncryptedRingBucket_eq]
  refine wp.fromExcept_bind (fun _ hError => ⟨defined_of_checkSize hError, rfl⟩)
    fun bytes hBytes => ?_
  obtain ⟨rfl, hFits⟩ := checkSize_eq_ok hBytes
  apply Returns.outcome
  exact Returns.modify ⟨⟨hRange, Function.update_self _ _ _, hHeld, hFits, not_not.mp hShape⟩, rfl⟩

theorem xorPathSlot_refused (h : Stores cfg server index bucket)
    (hRefused : ¬ Selectable cfg bucket offset) :
    wp (xorPathSlot cfg selected (index, offset)) server (fun _ _ => False)
      fun e server' => e.Defined ∧ server' = server := by
  apply (readBucketFromDisk_stored h).outcome_bind
  rintro bucket server ⟨rfl, rfl⟩
  cases hField : bucket.data[offset.toNat]? with
  | none => simp [hField, Exception.Defined]
  | some field =>
    cases hFlag : bucket.valids[offset.toNat]? with
    | none => simp [hField, hFlag, Exception.Defined]
    | some flag =>
      simp only [hField, hFlag]
      refine wp.check_bind (fun _ => ⟨by simp [Exception.Defined], rfl⟩) fun hValid => ?_
      refine wp.check_bind (fun _ => ⟨by simp [Exception.Defined], rfl⟩) fun hSize => ?_
      have hSelectable : Selectable cfg bucket offset :=
        ⟨by simp_all, field, hField, not_not.mp hSize⟩
      exact absurd hSelectable hRefused

theorem stores_update_iff {other : UInt64} (hNe : index ≠ other) (bytes : Option Bytes) :
    Stores cfg { server with files := Function.update server.files other.toNat bytes } index
      bucket ↔ Stores cfg server index bucket := by
  have hToNat : index.toNat ≠ other.toNat := fun hEq => hNe (UInt64.toNat_inj.mp hEq)
  constructor
  · intro h
    exact ⟨h.inRange, by simpa [hToNat] using h.file, h.held, h.fits, h.shape⟩
  · intro h
    exact ⟨h.inRange, by simpa [hToNat] using h.file, h.held, h.fits, h.shape⟩

theorem Stores.unique {bucket' : EncryptedRingBucket} (h : Stores cfg server index bucket)
    (h' : Stores cfg server index bucket') :
    bucket = bucket' := by
  have hBytes : bucketBytes bucket = bucketBytes bucket' := by
    have hFile := h.file.symm.trans h'.file
    simpa using hFile
  have hRead := deserializeEncryptedRingBucket_bytes h.held h.fits
  rw [hBytes, deserializeEncryptedRingBucket_bytes h'.held h'.fits] at hRead
  simpa using hRead.symm

theorem bucketBytes_touch_ne (hHeld : bucket.Held)
    (hFits : (bucketBytes bucket).length ≤ vectorMaxSize)
    (hFlag : bucket.valids[offset.toNat]? = some true) :
    bucketBytes (bucket.touch offset.toNat) ≠ bucketBytes bucket := by
  intro hEq
  have hRead := deserializeEncryptedRingBucket_bytes hHeld hFits
  rw [← hEq, deserializeEncryptedRingBucket_bytes (held_touch hHeld _)
    ((length_bucketBytes_touch bucket _).trans_le hFits)] at hRead
  have hValids : bucket.valids.set offset.toNat false = bucket.valids :=
    congrArg EncryptedRingBucket.valids (Except.ok.inj hRead)
  have hLt := List.getElem?_eq_some_iff.mp hFlag
  have hCleared : bucket.valids[offset.toNat]? = some false := by
    rw [← hValids]
    simp [hLt.1]
  simp [hFlag] at hCleared

end Buckets

/-! ## The slots of a path -/

section Slots

variable {index offset : UInt64} {bucket : EncryptedRingBucket} {selected : Bytes × List Bytes}
  {slot : UInt64 × UInt64}
  {slots : List (UInt64 × UInt64)}

/-- The node count and the files outside of the path are as before. -/
structure Outside (slots : List (UInt64 × UInt64)) (server server' : Server) : Prop where
  nodeCount : server'.nodeCount = server.nodeCount
  files : ∀ b, (∀ slot ∈ slots, slot.1.toNat ≠ b) → server'.files b = server.files b

/-- How the loop over the slots has failed: where the first slot could be selected, its file has
changed. -/
structure SlotsRefused (cfg : RuntimeConfig) (slots : List (UInt64 × UInt64))
    (server server' : Server) : Prop where
  refused : ¬ ∀ slot ∈ slots, Offers cfg server slot
  outside : Outside slots server server'
  untouched : (∀ slot ∈ slots.head?, ¬ Offers cfg server slot) → server' = server
  touched : ∀ slot ∈ slots.head?, Offers cfg server slot →
    server'.files slot.1.toNat ≠ server.files slot.1.toNat

theorem offers_iff (h : Stores cfg server slot.1 bucket) :
    Offers cfg server slot ↔ Selectable cfg bucket slot.2 := by
  constructor
  · rintro ⟨bucket', hStores, hSelectable⟩
    exact h.unique hStores ▸ hSelectable
  · exact fun hSelectable => ⟨bucket, h, hSelectable⟩

theorem offers_update_iff {other : UInt64} (hNe : slot.1 ≠ other) (bytes : Option Bytes) :
    Offers cfg { server with files := Function.update server.files other.toNat bytes } slot ↔
      Offers cfg server slot :=
  exists_congr fun _ => and_congr_left' (stores_update_iff hNe bytes)

/-- The loop goes on after a slot that could be selected, in a tree that differs in its file only.
-/
theorem SlotsRefused.cons {touched : Bytes} {server' : Server} (hHead : Offers cfg server slot)
    (hNotMem : slot.1 ∉ slots.map Prod.fst) (hTouched : server.files slot.1.toNat ≠ some touched)
    (h : SlotsRefused cfg slots
      { server with files := Function.update server.files slot.1.toNat (some touched) } server') :
    SlotsRefused cfg (slot :: slots) server server' := by
  have hNe : ∀ other ∈ slots, other.1 ≠ slot.1 :=
    fun other hOther hEq => hNotMem (hEq ▸ List.mem_map_of_mem hOther)
  constructor
  case refused =>
    intro hAll
    apply h.refused
    intro other hOther
    exact (offers_update_iff (hNe other hOther) _).mpr (hAll other (List.mem_cons_of_mem _ hOther))
  case outside =>
    constructor
    · exact h.outside.nodeCount
    · intro b hb
      have hFile := h.outside.files b fun other hOther => hb other (List.mem_cons_of_mem _ hOther)
      have hOther : b ≠ slot.1.toNat := (hb slot List.mem_cons_self).symm
      simpa [hOther] using hFile
  case untouched => simp [hHead]
  case touched =>
    have hFile := h.outside.files slot.1.toNat fun other hOther hEq =>
      hNe other hOther (UInt64.toNat_inj.mp hEq)
    simp at hFile
    simp [hFile, hTouched.symm]

/-- The slots are selected one after the other, as long as they can be. -/
theorem xorPathSlots_outcome (hStored : ∀ slot ∈ slots, ∃ bucket, Stores cfg server slot.1 bucket)
    (hNodup : (slots.map Prod.fst).Nodup) (hSelected : selected.1.length = cfg.blockSize.toNat) :
    wp (slots.foldlM (xorPathSlot cfg) selected) server (fun _ _ => ∀ slot ∈ slots,
      Offers cfg server slot)
      fun e server' => e.Defined ∧ SlotsRefused cfg slots server server' := by
  induction slots generalizing server selected with
  | nil => exact wp.pure (by simp)
  | cons slot slots ih =>
    obtain ⟨bucket, hStores⟩ := hStored slot List.mem_cons_self
    rw [List.map_cons, List.nodup_cons] at hNodup
    rw [List.foldlM_cons]
    by_cases hSelectable : Selectable cfg bucket slot.2
    case pos =>
      have hHead : Offers cfg server slot := (offers_iff hStores).mpr hSelectable
      obtain ⟨hFlag, field, hField, hSize⟩ := hSelectable
      apply (xorPathSlot_stored hStores hField hFlag hSize hSelected).outcome_bind
      rintro _ _ ⟨rfl, rfl⟩
      have hNe : ∀ other ∈ slots, other.1 ≠ slot.1 :=
        fun other hOther hEq => hNodup.1 (hEq ▸ List.mem_map_of_mem hOther)
      apply wp_mono (ih ?_ hNodup.2 (XorBytes.length_xor hSelected hSize))
      · intro _ _ hRest other hOther
        obtain rfl | hOther := List.mem_cons.mp hOther
        · exact hHead
        · exact (offers_update_iff (hNe other hOther) _).mp (hRest other hOther)
      · rintro _ server' ⟨hDefined, hSlots⟩
        refine ⟨hDefined, hSlots.cons hHead hNodup.1 ?_⟩
        rw [hStores.file]
        simpa using (bucketBytes_touch_ne hStores.held hStores.fits hFlag).symm
      · intro other hOther
        obtain ⟨bucket', hOld⟩ := hStored other (List.mem_cons_of_mem _ hOther)
        exact ⟨bucket', (stores_update_iff (hNe other hOther) _).mpr hOld⟩
    case neg =>
      have hHead : ¬ Offers cfg server slot :=
        fun hOffers => hSelectable ((offers_iff hStores).mp hOffers)
      apply wp.bind (wp_mono (xorPathSlot_refused hStores hSelectable) (fun _ _ => False.elim) _)
      · exact fun _ _ => False.elim
      · rintro _ _ ⟨hDefined, rfl⟩
        refine ⟨hDefined, fun hAll => hHead (hAll slot List.mem_cons_self),
          ⟨rfl, fun _ _ => rfl⟩, fun _ => rfl, ?_⟩
        simp [hHead]

end Slots

/-! ## Commands -/

section Commands

variable {rest : Bytes} {post : Unit → Connection → Prop} {raised : Exception → Connection → Prop}

theorem run_handleCommand_init : (Wire.handleCommand cfg).run ⟨server, 'I'.toUInt8 :: body, sent⟩ =
    (Wire.handleInit cfg).run ⟨server, body, sent⟩ := rfl

theorem run_handleCommand_xor : (Wire.handleCommand cfg).run ⟨server, 'X'.toUInt8 :: body, sent⟩ =
    (Wire.handleXorPathSlots cfg).run ⟨server, body, sent⟩ := rfl

theorem run_handleCommand_write : (Wire.handleCommand cfg).run ⟨server, 'W'.toUInt8 :: body, sent⟩ =
    (Wire.handleWriteBucket cfg).run ⟨server, body, sent⟩ := rfl

/-- A 'W' request writes one file or none, and fails with an exception unless its bucket wraps. -/
theorem handleWriteBucket_outcome (hNodes : server.nodeCount = cfg.numTreeNodes) :
    wp (Wire.handleWriteBucket cfg) ⟨server, body, sent⟩ (fun _ _ => ¬ WriteWraps body)
      fun e connection => (e.Defined ↔ ¬ WriteWraps body) ∧ connection.server = server := by
  refine own_link.same_bind (validateInitialized_stored hNodes) fun _ => ?_
  by_cases hBody : ∃ index bytes rest, body = encodeWord index ++ (sendVec bytes ++ rest) ∧
      bytes.length ≤ vectorMaxSize
  case pos =>
    obtain ⟨index, bytes, rest, rfl, hSize⟩ := hBody
    have hWraps : WriteWraps (encodeWord index ++ (sendVec bytes ++ rest)) ↔ FlagsWrap bytes := by
      constructor
      · rintro ⟨index', bytes', rest', hStream, hSize', hFlags⟩
        obtain ⟨_, hPayload⟩ := (takes_recvUint64 index).unique (takes_recvUint64 index') hStream
        obtain ⟨rfl, _⟩ := (takes_recvVec hSize).unique (takes_recvVec hSize') hPayload
        exact hFlags
      · exact fun hFlags => ⟨index, bytes, rest, rfl, hSize, hFlags⟩
    rw [hWraps]
    obtain ⟨hAccepted, hRefused⟩ := deserializeEncryptedRingBucket_outcome hSize
    apply incoming_link.takes_bind (takes_recvUint64 index)
    apply incoming_link.takes_bind (takes_recvVec hSize)
    refine wp.fromExcept_bind (fun e hError => ⟨hRefused e hError, rfl⟩) fun bucket hBucket => ?_
    have hFlags := hAccepted bucket hBucket
    refine own_link.bind (validateBucketShape_outcome bucket "write")
      (fun _ _ h => ⟨iff_of_true h.1 hFlags, h.2⟩) ?_
    rintro _ _ ⟨_, rfl⟩
    refine own_link.bind (writeBucketToDisk_outcome index (held_of_deserialize hBucket)) ?_ ?_
    · exact fun _ _ h => ⟨iff_of_true h.1 hFlags, h.2⟩
    · exact fun _ _ _ => wp.modify_bind (wp.pure hFlags)
  case neg =>
    have hNone : ¬ WriteWraps body := fun ⟨index, bytes, rest, hStream, hSize, _⟩ =>
      hBody ⟨index, bytes, rest, hStream, hSize⟩
    refine incoming_link.parses_bind parses_recvUint64 (fun _ _ hDefined =>
      ⟨iff_of_true hDefined hNone, rfl⟩) ?_
    rintro index _ rest hStream rfl
    refine incoming_link.parses_bind parses_recvVec (fun _ _ hDefined =>
      ⟨iff_of_true hDefined hNone, rfl⟩) ?_
    rintro bytes _ rest' hRest ⟨rfl, hSize⟩
    refine absurd ⟨index, bytes, rest', ?_, hSize⟩ hBody
    exact hStream.trans (congrArg _ hRest)

/-- A body has no second reading as a request for slots. -/
theorem SlotRequest.unique {path path' offsets offsets' : List UInt64}
    (h : SlotRequest cfg body path offsets)
    (h' : SlotRequest cfg body path' offsets') : path = path' ∧ offsets = offsets' := by
  obtain ⟨leaf, rest, hPath, hOffsets, rfl⟩ := h
  obtain ⟨leaf', rest', hPath', hOffsets', hBody⟩ := h'
  obtain ⟨rfl, hCounted⟩ := (takes_recvUint64 leaf).unique (takes_recvUint64 leaf') hBody
  obtain rfl : path = path' := Except.ok.inj (hPath.symm.trans hPath')
  obtain ⟨_, hListed⟩ := (takes_recvUint64 _).unique (takes_recvUint64 _) hCounted
  have hTakes := Takes.many fun (offset : UInt64) (_ : offset ∈ offsets) => takes_recvUint64 offset
  have hTakes' := Takes.many fun (offset : UInt64) (_ : offset ∈ offsets') =>
    takes_recvUint64 offset
  rw [hOffsets] at hTakes
  rw [hOffsets'] at hTakes'
  exact ⟨rfl, (hTakes.unique hTakes' hListed).1⟩

/-- A path in an initialised tree has a stored bucket at each of its nodes, none of them twice. -/
theorem Initialised.path (hDepth : cfg.depth < 63) (h : Initialised cfg server) {leaf : UInt64}
    {path offsets : List UInt64}
    (hPath : cfg.getPathIndices leaf = .ok path) (hOffsets : offsets.length = path.length) :
    (∀ slot ∈ path.zip offsets, ∃ bucket, Stores cfg server slot.1 bucket) ∧
    ((path.zip offsets).map Prod.fst).Nodup := by
  have hLeaf := toNat_lt_of_getPathIndices hDepth hPath
  obtain ⟨path', hOk, hNodes⟩ := RuntimeConfig.getPathIndices_eq_ok hDepth hLeaf
  obtain rfl : path = path' := Except.ok.inj (hPath.symm.trans hOk)
  have hFst : (path.zip offsets).map Prod.fst = path := List.map_fst_zip hOffsets.ge
  constructor
  · intro slot hSlot
    have hIndex : slot.1 ∈ path := hFst ▸ List.mem_map_of_mem hSlot
    apply h.stored
    rw [UInt64.lt_iff_toNat_lt, RuntimeConfig.toNat_numTreeNodes hDepth]
    apply HeapTree.lt_nodeCount_of_mem_path hLeaf
    rw [← hNodes]
    exact List.mem_map_of_mem hIndex
  · rw [hFst]
    apply List.Nodup.of_map UInt64.toNat
    rw [hNodes]
    exact HeapTree.nodup_path hLeaf

theorem sends_outcome {α : Type} {done : Prop} (h : done) (items : List α) (chunkOf : α → Bytes)
    (connection : Connection) :
    wp (forM items fun item => sendData (chunkOf item)) connection (fun _ _ => done) raised := by
  induction items generalizing connection with
  | nil => exact wp.pure h
  | cons item items ih =>
    rw [List.forM_cons]
    exact wp.modify_bind (ih _)

theorem handleXorPathSlots_outcome (hDepth : cfg.depth < 63) (h : Initialised cfg server)
    {path offsets : List UInt64} (hRequest : SlotRequest cfg body path offsets) :
    wp (Wire.handleXorPathSlots cfg) ⟨server, body, sent⟩ (fun _ _ => ∀ slot ∈ path.zip offsets,
      Offers cfg server slot)
      fun e connection => e.Defined ∧
      SlotsRefused cfg (path.zip offsets) server connection.server := by
  obtain ⟨leaf, rest, hPath, hOffsets, rfl⟩ := hRequest
  obtain ⟨hStored, hNodup⟩ := h.path hDepth hPath hOffsets
  have hTakes : Takes (Streams.many recvUint64 (UInt64.ofNat path.length).toNat)
      (offsets.flatMap encodeWord) offsets := by
    rw [toNat_length_path hDepth hPath, ← hOffsets]
    exact Takes.many fun offset _ => takes_recvUint64 offset
  refine own_link.same_bind (validateInitialized_stored h.nodeCount) fun _ => ?_
  apply incoming_link.takes_bind (takes_recvUint64 leaf)
  apply incoming_link.takes_bind (takes_recvUint64 _)
  apply wp.ok_bind hPath
  refine wp.check_bind (fun hCount => absurd rfl hCount) fun _ => ?_
  apply incoming_link.takes_bind hTakes
  refine own_link.bind (xorPathSlots_outcome hStored hNodup List.length_replicate)
    (fun _ _ hRefused => hRefused) ?_
  intro selected server' hOffers
  apply wp.modify_bind
  apply wp.modify_bind
  apply wp.modify_bind
  exact sends_outcome hOffers selected.2 sendVec _

/-- A request that is cut short, names no leaf or has another number of slots is refused at once. -/
theorem handleXorPathSlots_refuses (hDepth : cfg.depth < 63)
    (hNodes : server.nodeCount = cfg.numTreeNodes)
    (hRequest : ∀ path offsets, ¬ SlotRequest cfg body path offsets) :
    wp (Wire.handleXorPathSlots cfg) ⟨server, body, sent⟩ (fun _ _ => True)
      fun e connection => e.Defined ∧ connection.server = server := by
  refine own_link.same_bind (validateInitialized_stored hNodes) fun _ => ?_
  refine incoming_link.parses_bind parses_recvUint64 (fun _ _ hDefined => ⟨hDefined, rfl⟩)
    fun leaf _ rest hBody hLeaf => ?_
  refine incoming_link.parses_bind parses_recvUint64 (fun _ _ hDefined => ⟨hDefined, rfl⟩)
    fun offsetCount _ rest' hRest hCount => ?_
  refine wp.fromExcept_bind (fun _ hError => ⟨defined_of_getPathIndices hError, rfl⟩)
    fun path hPath => ?_
  refine wp.check_bind (fun _ => ⟨by simp [Exception.Defined], rfl⟩) fun hLength => ?_
  refine incoming_link.parses_bind (parses_recvUint64.many _) (fun _ _ hDefined => ⟨hDefined, rfl⟩)
    fun offsets _ rest'' hOffsets hChunk => ?_
  obtain ⟨rfl, hMany⟩ := hChunk
  rw [not_not.mp hLength] at hCount hMany
  rw [toNat_length_path hDepth hPath] at hMany
  exact absurd ⟨leaf, rest'', hPath, hMany, by rw [hBody, hLeaf, hRest, hCount, hOffsets]⟩
    (hRequest path offsets)

theorem leavesTree_xor_iff (hDepth : cfg.depth < 63) (h : Initialised cfg server) :
    LeavesTree cfg server ('X'.toUInt8 :: body) sent ↔ XorCompletes cfg server body := by
  constructor
  · intro hLeaves path offsets hRequest hHead
    by_contra hSlots
    have hOutcome := wp_iff.mp (@handleXorPathSlots_outcome _ _ _ sent hDepth h _ _ hRequest)
    cases hRun : (Wire.handleXorPathSlots cfg).run ⟨server, body, sent⟩ with
    | ok _ connection => exact hSlots (hOutcome.1 _ _ hRun)
    | error e connection =>
      obtain ⟨_, hRefused⟩ := hOutcome.2 e connection hRun
      have hSame := (hLeaves e connection (run_handleCommand_xor.trans hRun)).2.1
      cases hSlot : (path.zip offsets).head? with
      | none => simp [List.head?_eq_none_iff.mp hSlot] at hSlots
      | some slot =>
        apply hRefused.touched slot hSlot (hHead slot hSlot)
        rw [hSame]
  · intro hCompletes e connection hRun
    rw [run_handleCommand_xor] at hRun
    have hSame : e.Defined ∧ connection.server = server := by
      by_cases hRequest : ∃ path offsets, SlotRequest cfg body path offsets
      case pos =>
        obtain ⟨path, offsets, hRequest⟩ := hRequest
        have hOutcome := wp_iff.mp (@handleXorPathSlots_outcome _ _ _ sent hDepth h _ _ hRequest)
        obtain ⟨hDefined, hRefused⟩ := hOutcome.2 e connection hRun
        refine ⟨hDefined, hRefused.untouched ?_⟩
        intro slot hSlot hOffers
        apply hRefused.refused
        apply hCompletes path offsets hRequest
        rintro other hOther
        obtain rfl : slot = other := Option.some_injective _ (hSlot.symm.trans hOther)
        exact hOffers
      case neg =>
        simp only [not_exists] at hRequest
        exact (wp_iff.mp (handleXorPathSlots_refuses hDepth h.nodeCount hRequest)).2 e
          connection hRun
    simp [hSame.1, hSame.2]

/-- The stream goes on with a bucket that has too many flags. -/
def NextWraps (stream : Bytes) : Prop :=
  ∃ payload rest, stream = sendVec payload ++ rest ∧
    payload.length ≤ vectorMaxSize ∧ FlagsWrap payload

theorem initBucket_outcome (i : Nat) :
    wp (Wire.initBucket cfg i) ⟨server, body, sent⟩
      (fun _ connection => ∃ bytes bucket, body = sendVec bytes ++ connection.incoming ∧
        Acceptable cfg bytes ∧
        Stores cfg connection.server (UInt64.ofNat i) bucket ∧ connection.server = { server with
          files := Function.update server.files (UInt64.ofNat i).toNat
            (some (bucketBytes bucket)) })
      fun e connection => (¬ NextWraps body → e.Defined) ∧ connection.server = server := by
  refine incoming_link.parses_bind parses_recvVec (fun _ _ hDefined => ⟨fun _ => hDefined, rfl⟩) ?_
  rintro bytes _ rest hBody ⟨rfl, hSize⟩
  apply (wp_zoom _ _ _).mpr
  refine wp.fromExcept_bind (fun e hError => ⟨fun hNone => ?_, rfl⟩) fun bucket hBucket => ?_
  · apply ((deserializeEncryptedRingBucket_outcome hSize).2 e hError).mpr
    exact fun hFlags => hNone ⟨bytes, rest, hBody, hSize, hFlags⟩
  refine wp.bind (wp_mono (validateBucketShape_outcome bucket "init") (fun _ _ => id) fun _ _ h =>
    ⟨fun _ => h.1, h.2⟩) ?_
  rintro _ _ ⟨hShape, rfl⟩
  apply wp_mono (writeBucketToDisk_outcome (UInt64.ofNat i) (held_of_deserialize hBucket))
  · rintro _ _ ⟨hStores, rfl⟩
    exact ⟨bytes, bucket, hBody, ⟨hSize, bucket, hBucket, hShape⟩, hStores, rfl⟩
  · exact fun _ _ h => ⟨fun _ => h.1, h.2⟩

/-- After `i` rounds of the loop of `HandleInit` as many buckets have been received and stored, the
others are missing. -/
structure InitLoop (cfg : RuntimeConfig) (rest : Bytes) (i : Nat)
    (connection : Connection) : Prop where
  received : ∃ buckets : List Bytes, rest = buckets.flatMap sendVec ++ connection.incoming ∧
    buckets.length = i ∧
    ∀ bytes ∈ buckets, Acceptable cfg bytes
  nodeCount : connection.server.nodeCount = cfg.numTreeNodes
  stored : ∀ index : UInt64, index.toNat < i → ∃ bucket, Stores cfg connection.server index bucket
  missing : ∀ b, i ≤ b → connection.server.files b = none

theorem InitLoop.step {i : Nat} {connection : Connection} (hi : i < 2 ^ 64)
    (h : InitLoop cfg rest i connection) :
    wp (Wire.initBucket cfg i) connection (fun _ connection' =>
      InitLoop cfg rest (i + 1) connection')
      fun e connection' => (¬ NextWraps connection.incoming → e.Defined) ∧
      connection'.server = connection.server := by
  have hIndex : (UInt64.ofNat i).toNat = i := UInt64.toNat_ofNat_of_lt' hi
  apply wp_mono (initBucket_outcome i) ?_ fun _ _ => id
  rintro _ connection' ⟨bytes, bucket, hStream, hBytes, hStores, hServer⟩
  constructor
  case received =>
    obtain ⟨buckets, hRest, hLength, hBuckets⟩ := h.received
    refine ⟨buckets ++ [bytes], by simp [hRest, hStream], by simp [hLength], ?_⟩
    intro other hOther
    obtain hOld | hNew := List.mem_append.mp hOther
    · exact hBuckets other hOld
    · exact List.mem_singleton.mp hNew ▸ hBytes
  case nodeCount => simp [hServer, h.nodeCount]
  case stored =>
    intro index hLt
    obtain rfl | hNe := eq_or_ne index (UInt64.ofNat i)
    · exact ⟨bucket, hStores⟩
    · have hOld : index.toNat < i := by
        have hNeNat : index.toNat ≠ i :=
          fun hEq => hNe (UInt64.toNat_inj.mp (hEq.trans hIndex.symm))
        omega
      obtain ⟨bucket', hStores'⟩ := h.stored index hOld
      exact ⟨bucket', hServer ▸ (stores_update_iff hNe _).mpr hStores'⟩
  case missing =>
    intro b hb
    have hNe : b ≠ i := Nat.ne_of_gt hb
    simp [hServer, hIndex, hNe, h.missing b (Nat.le_of_succ_le hb)]

theorem handleInit_refuses (hBody : ∀ rest, body ≠ encodeWord cfg.numTreeNodes ++ rest) :
    wp (Wire.handleInit cfg) ⟨server, body, sent⟩ (fun _ _ => False)
      fun e connection => e.Defined ∧ connection.server = server := by
  refine incoming_link.parses_bind parses_recvUint64 (fun _ _ hDefined => ⟨hDefined, rfl⟩)
    fun nodeCount _ rest hStream hCount => ?_
  refine wp.check_bind (fun _ => ⟨by simp [Exception.Defined], rfl⟩) fun hNodes => ?_
  rw [not_not.mp hNodes] at hCount
  exact absurd (hCount ▸ hStream) (hBody rest)

/-- The body of an 'I' request whose buckets are acceptable up to one that has too many flags. -/
def InitWraps (cfg : RuntimeConfig) (body : Bytes) : Prop :=
  ∃ (buckets : List Bytes) (tail : Bytes), body = encodeWord cfg.numTreeNodes ++
    (buckets.flatMap sendVec ++ tail) ∧
    buckets.length < cfg.numTreeNodes.toNat ∧ (∀ bytes ∈ buckets, Acceptable cfg bytes) ∧
    NextWraps tail

/-- The loop of `HandleInit` reaches its end with a file for every bucket, or the last bucket has no
file. -/
theorem handleInit_outcome :
    wp (Wire.handleInit cfg) ⟨server, encodeWord cfg.numTreeNodes ++ rest, sent⟩
      (fun _ connection => InitLoop cfg rest cfg.numTreeNodes.toNat connection)
      fun e connection => (¬ InitWraps cfg (encodeWord cfg.numTreeNodes ++ rest) → e.Defined) ∧
        connection.server.files (cfg.numTreeNodes.toNat - 1) = none := by
  apply incoming_link.takes_bind (takes_recvUint64 _)
  refine wp.check_bind (fun hNodes => absurd rfl hNodes) fun _ => ?_
  apply wp.modify_bind
  apply wp.bind (wp.forM_range (InitLoop cfg rest) ?_ ?_)
  · intro _ connection h
    exact wp.modify_bind (wp.pure ⟨h.received, h.nodeCount, h.stored, h.missing⟩)
  · exact ⟨⟨[], rfl, rfl, by simp⟩, rfl, fun _ hLt => absurd hLt (Nat.not_lt_zero _),
      fun _ _ => rfl⟩
  · intro i hi connection h
    apply wp_mono (h.step (hi.trans (UInt64.toNat_lt _))) (fun _ _ => id)
    rintro e connection' ⟨hDefined, hSame⟩
    rw [hSame]
    refine ⟨fun hNone => hDefined fun hNext => hNone ?_, h.missing _ (Nat.le_sub_one_of_lt hi)⟩
    obtain ⟨buckets, hRest, hLength, hBuckets⟩ := h.received
    exact ⟨buckets, connection.incoming, congrArg _ hRest, hLength ▸ hi, hBuckets, hNext⟩

theorem handleInit_completes {buckets : List Bytes} {after : Bytes}
    (hLength : buckets.length = cfg.numTreeNodes.toNat)
    (hBuckets : ∀ bytes ∈ buckets, Acceptable cfg bytes) :
    ∃ connection, (Wire.handleInit cfg).run ⟨server, encodeWord cfg.numTreeNodes ++
      (buckets.flatMap sendVec ++ after), sent⟩ =
      .ok () connection := by
  have hReturns : Returns (handleInit cfg cfg.numTreeNodes buckets) server fun _ _ => True := by
    apply Returns.check_bind (not_not.mpr rfl)
    apply Returns.modify_bind
    apply Returns.bind
      (Returns.forM_range (fun _ server => server.nodeCount = cfg.numTreeNodes) rfl ?_)
    · exact fun _ _ _ => Returns.pure trivial
    · intro i hi server hNodes
      rw [← hLength] at hi
      obtain ⟨hSize, bucket, hBucket, hShape⟩ := hBuckets _ (List.getElem_mem hi)
      rw [initBucket, List.getElem?_eq_getElem hi]
      apply Returns.ok_bind hBucket
      apply Returns.check_bind (not_not.mpr hShape)
      have hRange : ¬ server.nodeCount ≤ UInt64.ofNat i := by
        rw [hNodes, UInt64.le_iff_toNat_le,
          UInt64.toNat_ofNat_of_lt' ((hLength ▸ hi).trans (UInt64.toNat_lt _)), ← hLength]
        exact Nat.not_le.mpr hi
      apply (writeBucketToDisk_stored hRange (Acceptable.fits hSize hBucket) hShape).mono
      rintro _ _ rfl
      exact hNodes
  obtain ⟨response, server', hRun, _⟩ := returns_iff.mp hReturns
  obtain ⟨_, hServes⟩ :=
    serves_handleInit hLength.symm (fun bytes hBytes => (hBuckets bytes hBytes).1) hRun
  rw [← List.append_assoc]
  exact ⟨_, hServes after sent⟩

theorem leavesTree_init_iff (hDepth : cfg.depth < 63) (h : Initialised cfg server) :
    LeavesTree cfg server ('I'.toUInt8 :: body) sent ↔ InitCompletes cfg body := by
  constructor
  · rintro hLeaves rest rfl
    have hOutcome := wp_iff.mp (@handleInit_outcome cfg server sent rest)
    cases hRun : (Wire.handleInit cfg).run ⟨server, encodeWord cfg.numTreeNodes ++ rest, sent⟩ with
    | ok _ connection =>
      obtain ⟨buckets, hBuckets⟩ := (hOutcome.1 _ _ hRun).received
      exact ⟨buckets, connection.incoming, hBuckets⟩
    | error e connection =>
      have hNone := (hOutcome.2 e connection hRun).2
      have hPos : 0 < cfg.numTreeNodes.toNat := by
        rw [RuntimeConfig.toNat_numTreeNodes hDepth, HeapTree.nodeCount]
        have hPow := Nat.pow_le_pow_right (by decide : 0 < 2)
          (Nat.succ_le_succ (Nat.zero_le cfg.depth))
        omega
      have hOne : (1 : UInt64) ≤ cfg.numTreeNodes := UInt64.le_iff_toNat_le.mpr hPos
      have hLast : (cfg.numTreeNodes - 1).toNat = cfg.numTreeNodes.toNat - 1 :=
        UInt64.toNat_sub_of_le _ _ hOne
      have hLt : cfg.numTreeNodes - 1 < cfg.numTreeNodes := by
        rw [UInt64.lt_iff_toNat_lt, hLast]
        omega
      obtain ⟨bucket, hStores⟩ := h.stored _ hLt
      have hFile := hStores.file
      rw [hLast, ← (hLeaves e connection (run_handleCommand_init.trans hRun)).2.1, hNone] at hFile
      cases hFile
  · intro hCompletes e connection hRun
    rw [run_handleCommand_init] at hRun
    have hSame : e.Defined ∧ connection.server = server := by
      by_cases hBody : ∃ rest, body = encodeWord cfg.numTreeNodes ++ rest
      case pos =>
        obtain ⟨rest, rfl⟩ := hBody
        obtain ⟨buckets, after, rfl, hLength, hBuckets⟩ := hCompletes rest rfl
        obtain ⟨_, hOk⟩ := @handleInit_completes cfg server sent buckets after hLength hBuckets
        rw [hOk] at hRun
        cases hRun
      case neg =>
        simp only [not_exists] at hBody
        exact (wp_iff.mp (handleInit_refuses hBody)).2 e connection hRun
    simp [hSame.1, hSame.2]

theorem leavesTree_write_iff (h : Initialised cfg server) :
    LeavesTree cfg server ('W'.toUInt8 :: body) sent ↔ ¬ WriteWraps body := by
  have hOutcome := wp_iff.mp (@handleWriteBucket_outcome cfg server body sent h.nodeCount)
  constructor
  · intro hLeaves
    cases hRun : (Wire.handleWriteBucket cfg).run ⟨server, body, sent⟩ with
    | ok _ connection => exact hOutcome.1 _ connection hRun
    | error e connection =>
      have hDefined := (hLeaves e connection (run_handleCommand_write.trans hRun)).1
      exact (hOutcome.2 e connection hRun).1.mp hDefined
  · intro hWraps e connection hRun
    obtain ⟨hDefined, hSame⟩ := hOutcome.2 e connection (run_handleCommand_write.symm.trans hRun)
    exact ⟨hDefined.mpr hWraps, congrArg Server.files hSame, congrArg Server.nodeCount hSame⟩

end Commands

/-! ## Servers that are initialised -/

section Reachable

variable {α : Type}

/-- Whether it returns or throws, the step leaves an initialised server. -/
abbrev Maintains (cfg : RuntimeConfig) (x : ServeM α) : Prop :=
  Preserves (fun connection : Connection => Initialised cfg connection.server) x fun _ => True

theorem Initialised.update (h : Initialised cfg server) {index : UInt64}
    {bucket : EncryptedRingBucket} {bytes : Option Bytes}
    (hStores : Stores cfg { server with files := Function.update server.files index.toNat bytes }
      index bucket) :
    Initialised cfg { server with files := Function.update server.files index.toNat bytes } := by
  constructor
  case nodeCount => exact h.nodeCount
  case stored =>
    intro other hOther
    obtain rfl | hNe := eq_or_ne other index
    · exact ⟨bucket, hStores⟩
    · obtain ⟨bucket', hOld⟩ := h.stored other hOther
      exact ⟨bucket', (stores_update_iff hNe bytes).mpr hOld⟩

theorem Initialised.same {server' : Server} (h : Initialised cfg server)
    (hFiles : server'.files = server.files)
    (hNodes : server'.nodeCount = server.nodeCount) : Initialised cfg server' := by
  constructor
  case nodeCount => exact hNodes.trans h.nodeCount
  case stored =>
    intro index hIndex
    obtain ⟨bucket, hStores⟩ := h.stored index hIndex
    exact ⟨bucket, hNodes ▸ hStores.inRange, hFiles ▸ hStores.file, hStores.held,
      hStores.fits, hStores.shape⟩

theorem preserves_write (index : UInt64) {bucket : EncryptedRingBucket} (hHeld : bucket.Held) :
    Preserves (Initialised cfg) (writeBucketToDisk cfg index bucket) fun _ => True := by
  intro server h
  apply wp_mono (writeBucketToDisk_outcome index hHeld)
  · rintro _ _ ⟨hStores, rfl⟩
    exact ⟨trivial, h.update hStores⟩
  · rintro _ _ ⟨_, rfl⟩
    exact h

theorem preserves_read (index : UInt64) :
    Preserves (Initialised cfg) (readBucketFromDisk cfg index) EncryptedRingBucket.Held := by
  apply Preserves.get_bind
  intro server
  apply (Preserves.check _).bind
  intro _ _
  cases server.files index.toNat with
  | none => exact Preserves.throw _
  | some bytes =>
    apply (Preserves.fromExcept _).bind
    intro bucket hBucket
    exact (Preserves.check _).map _ fun _ _ => held_of_deserialize hBucket

theorem preserves_xorPathSlot (selected : Bytes × List Bytes) (slot : UInt64 × UInt64) :
    Preserves (Initialised cfg) (xorPathSlot cfg selected slot) fun _ => True := by
  apply (preserves_read slot.1).bind
  intro bucket hHeld
  dsimp only
  split
  · apply (Preserves.check _).bind
    intro _ _
    apply (Preserves.check _).bind
    intro _ _
    apply (Preserves.fromExcept _).bind
    intro aggregate _
    exact (preserves_write _ (held_touch hHeld _)).map _ fun _ _ => trivial
  · exact Preserves.throw _

theorem preserves_validate :
    Preserves (Initialised cfg) (validateInitialized cfg) fun _ => True := by
  apply Preserves.get_bind
  intro server
  exact (Preserves.check _).mono fun _ _ => trivial

theorem maintains_recv (x : RecvM α) : Maintains cfg (recv x) := Preserves.zoom' x fun _ _ h => h

theorem maintains_send (bytes : Bytes) : Maintains cfg (sendData bytes) :=
  Preserves.modify fun _ h => h

theorem maintains_server {x : ServerM α} {returned : α → Prop}
    (h : Preserves (Initialised cfg) x returned) :
    Maintains cfg (onServer x) := Preserves.zoom_view (fun _ _ => rfl) (h.mono fun _ _ => trivial)

theorem maintains_handleReadPathMetadata : Maintains cfg (Wire.handleReadPathMetadata cfg) := by
  apply (maintains_server preserves_validate).bind
  intro _ _
  apply (maintains_recv _).bind
  intro leaf _
  apply (Preserves.fromExcept _).bind
  intro path _
  apply (maintains_send _).bind
  intro _ _
  apply Preserves.forM
  intro bucketIdx _
  apply (maintains_server (preserves_read bucketIdx)).bind
  intro bucket _
  apply (Preserves.fromExcept _).bind
  exact fun _ _ => maintains_send _

theorem maintains_handleXorPathSlots : Maintains cfg (Wire.handleXorPathSlots cfg) := by
  apply (maintains_server preserves_validate).bind
  intro _ _
  apply (maintains_recv _).bind
  intro leaf _
  apply (maintains_recv _).bind
  intro offsetCount _
  apply (Preserves.fromExcept _).bind
  intro path _
  apply (Preserves.check _).bind
  intro _ _
  apply (maintains_recv _).bind
  intro offsets _
  have hSlots := @Preserves.foldlM Exception Server _ _ (Initialised cfg)
    (path.zip offsets) (xorPathSlot cfg)
    (List.replicate cfg.blockSize.toNat 0, []) (fun _ _ => True) trivial fun selected slot _ _ =>
      preserves_xorPathSlot selected slot
  apply (maintains_server hSlots).bind
  intro selected _
  apply Preserves.bind
  · exact maintains_server (Preserves.modify fun _ h => h.same rfl rfl)
  · intro _ _
    apply (maintains_send _).bind
    intro _ _
    apply (maintains_send _).bind
    intro _ _
    exact Preserves.forM fun _ _ => maintains_send _

theorem maintains_handleReadBucket : Maintains cfg (Wire.handleReadBucket cfg) := by
  apply (maintains_server preserves_validate).bind
  intro _ _
  apply (maintains_recv _).bind
  intro bucketIdx _
  apply (maintains_server (preserves_read bucketIdx)).bind
  intro bucket _
  apply (Preserves.fromExcept _).bind
  exact fun _ _ => maintains_send _

theorem maintains_handleWriteBucket : Maintains cfg (Wire.handleWriteBucket cfg) := by
  apply (maintains_server preserves_validate).bind
  intro _ _
  apply (maintains_recv _).bind
  intro bucketIdx _
  apply (maintains_recv _).bind
  intro bytes _
  apply (Preserves.fromExcept _).bind
  intro bucket hBucket
  apply (maintains_server ((Preserves.check _).mono fun _ _ => trivial)).bind
  intro _ _
  apply (maintains_server (preserves_write bucketIdx (held_of_deserialize hBucket))).bind
  exact fun _ _ => maintains_send _

theorem maintains_handleReadBucketCount : Maintains cfg (Wire.handleReadBucketCount cfg) := by
  apply (maintains_server preserves_validate).bind
  intro _ _
  apply (maintains_recv _).bind
  intro bucketIdx _
  apply (maintains_server (preserves_read bucketIdx)).bind
  exact fun _ _ => maintains_send _

theorem maintains_handleReadStats : Maintains cfg Wire.handleReadStats := by
  apply Preserves.get_bind
  intro connection
  apply (maintains_send _).bind
  exact fun _ _ => maintains_send _

theorem handleInit_initialises :
    wp (Wire.handleInit cfg) ⟨server, body, sent⟩ (fun _ connection =>
      Initialised cfg connection.server) fun _ _ => True := by
  by_cases hBody : ∃ rest, body = encodeWord cfg.numTreeNodes ++ rest
  case pos =>
    obtain ⟨rest, rfl⟩ := hBody
    apply wp_mono handleInit_outcome ?_ fun _ _ _ => trivial
    exact fun _ connection h =>
      ⟨h.nodeCount, fun index hIndex => h.stored index (UInt64.lt_iff_toNat_lt.mp hIndex)⟩
  case neg =>
    simp only [not_exists] at hBody
    exact wp_mono (handleInit_refuses hBody) (fun _ _ => False.elim) fun _ _ _ => trivial

theorem Initialised.command {connection connection' : Connection}
    (h : Initialised cfg connection.server)
    (hRun : (Wire.handleCommand cfg).run connection = .ok () connection') :
    Initialised cfg connection'.server := by
  have hOutcome : wp (Wire.handleCommand cfg) connection (fun _ connection' =>
      Initialised cfg connection'.server)
      fun _ _ => True := by
    refine incoming_link.parses_bind (parses_recvData 1) (fun _ _ _ => trivial)
      fun command _ rest _ _ => ?_
    have hMaintains {x : ServeM Unit} (hx : Maintains cfg x) :
        wp x ⟨connection.server, rest, connection.outgoing⟩
        (fun _ connection' => Initialised cfg connection'.server) fun _ _ => True :=
      wp_mono (hx _ h) (fun _ _ hReturned => hReturned.2) fun _ _ _ => trivial
    split_ifs
    · exact hMaintains (maintains_server (Preserves.modify fun _ h => h.same rfl rfl))
    · exact handleInit_initialises
    · exact hMaintains maintains_handleReadPathMetadata
    · exact hMaintains maintains_handleXorPathSlots
    · exact hMaintains maintains_handleReadBucket
    · exact hMaintains maintains_handleWriteBucket
    · exact hMaintains maintains_handleReadBucketCount
    · exact hMaintains maintains_handleReadStats
    · exact (wp_throw _).mpr trivial
  exact (wp_iff.mp hOutcome).1 () connection' hRun

/-- Once initialised, the server stays so as long as its command loop runs. -/
theorem Initialised.commands {connection connection' : Connection}
    (h : Initialised cfg connection.server)
    (hRun : Relation.ReflTransGen (fun c c' => (Wire.handleCommand cfg).run c = .ok () c')
      connection connection') :
    Initialised cfg connection'.server := by
  induction hRun with
  | refl => exact h
  | tail _ hLast ih => exact ih.command hLast

end Reachable

/-- A request is sure to leave the tree intact when it is rejected exactly if it is a 'W' whose
flags do not wrap around, an 'I' whose buckets are all acceptable once its node count is, or an 'X'
whose slots can all be selected once the first of them can. -/
theorem leavesTree_iff (hConfig : validateConfig cfg = .ok ())
    (h : Initialised cfg server) {command : UInt8}
    (hCommand : command ∈ ['I'.toUInt8, 'X'.toUInt8, 'W'.toUInt8]) (body sent : Bytes) :
    LeavesTree cfg server (command :: body) sent ↔ Spared cfg server command body := by
  have hDepth := depth_of_validateConfig hConfig
  simp only [List.mem_cons, List.not_mem_nil, or_false] at hCommand
  obtain rfl | rfl | rfl := hCommand
  · rw [leavesTree_init_iff hDepth h]
    exact ⟨fun hCompletes => ⟨fun _ => hCompletes, nofun, nofun⟩, fun hSpared => hSpared.init rfl⟩
  · rw [leavesTree_xor_iff hDepth h]
    exact ⟨fun hCompletes => ⟨nofun, fun _ => hCompletes, nofun⟩, fun hSpared => hSpared.xor rfl⟩
  · rw [leavesTree_write_iff h]
    exact ⟨fun hWraps => ⟨nofun, nofun, fun _ => hWraps⟩, fun hSpared => hSpared.write rfl⟩

section Small

theorem stores_small {index : UInt64} (hIndex : index < 3) :
    Stores Env.small.cfg smallWorld.server index (smallBucket 7) := by
  constructor
  case inRange => exact UInt64.not_le.mpr hIndex
  case file => rfl
  case held => exact held_smallBucket 7
  case fits => decide +kernel
  case shape => decide

theorem initialised_small : Initialised Env.small.cfg smallWorld.server :=
  ⟨by decide, fun _ hIndex => ⟨smallBucket 7, stores_small hIndex⟩⟩

theorem offers_small {index : UInt64} (hIndex : index < 3) :
    Offers Env.small.cfg smallWorld.server (index, 0) :=
  (offers_iff (stores_small hIndex)).mpr ⟨rfl, _, rfl, rfl⟩

theorem not_offers_small {index : UInt64} (hIndex : index < 3) :
    ¬ Offers Env.small.cfg smallWorld.server (index, 5) := by
  rw [offers_iff (stores_small hIndex)]
  have hMissing : ¬ (smallBucket 7).valids[(5 : UInt64).toNat]? = some true := by decide
  exact fun hSelectable => hMissing hSelectable.1

/-- The slots `offset` of the root and `offset'` of its left child. -/
def slotsBody (offset offset' : UInt64) : Bytes :=
  encodeWord 0 ++ (encodeWord 2 ++ (encodeWord offset ++ encodeWord offset'))

theorem slotRequest_small (offset offset' : UInt64) :
    SlotRequest Env.small.cfg (slotsBody offset offset') [0, 1] [offset, offset'] :=
  ⟨0, [], by decide, rfl, by simp [slotsBody]⟩

/-- The root has no slot 5, which is found before any slot has been cleared. -/
theorem leavesTree_small : Initialised Env.small.cfg smallWorld.server ∧
    LeavesTree Env.small.cfg smallWorld.server ('X'.toUInt8 :: slotsBody 5 0) [] := by
  refine ⟨initialised_small,
    (leavesTree_iff (by decide) initialised_small (by decide) _ _).mpr ⟨nofun, fun _ => ?_, nofun⟩⟩
  intro path offsets hRequest hHead
  obtain ⟨rfl, rfl⟩ := hRequest.unique (slotRequest_small 5 0)
  exact absurd (hHead (0, 5) rfl) (not_offers_small (by decide))

/-- The slot of the root is read and cleared on disk before the offset 5 is found to be out of
range. -/
theorem xor_leaves_half : Initialised Env.small.cfg smallWorld.server ∧
    ¬ LeavesTree Env.small.cfg smallWorld.server ('X'.toUInt8 :: slotsBody 0 5) [] := by
  refine ⟨initialised_small, fun hLeaves => ?_⟩
  have hCompletes := (leavesTree_xor_iff (by decide) initialised_small).mp hLeaves
  apply not_offers_small (by decide : (1 : UInt64) < 3)
  apply hCompletes [0, 1] [0, 5] (slotRequest_small 0 5)
  · rintro slot hSlot
    obtain rfl : (0, 0) = slot := Option.some_injective _ hSlot
    exact offers_small (by decide)
  · simp

end Small

end OramHub.RingOram
