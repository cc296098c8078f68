import OramHub.Lib.XorBytes
import OramHub.RingOram.Sealing

/-! # What the server's handlers do to the stored tree

`Holds` says that the bucket files are the sealed form of a family of plain buckets. Every request
of the client returns and has on the plain buckets the effect it stands for.
-/
namespace OramHub.RingOram
open OramHub.Core OramHub.Program
set_option autoImplicit false

variable {env : Env}

structure Holds (env : Env) (server : Server) (bucket : Nat → RingBucket) : Prop where
  running : server.running = true
  nodeCount : server.nodeCount = env.cfg.numTreeNodes
  files : ∀ b ∈ env.cfg.nodes, ∃ encrypted, server.files b = some (bucketBytes encrypted) ∧
    Seals env encrypted (bucket b)

/-- The files a server may hold at any moment: no bucket has been touched more often than it has
dummies to spare. -/
def SnapshotOk (cfg : RuntimeConfig) (files : Nat → Option Bytes) : Prop :=
  ∀ b ∈ cfg.nodes, ∃ bytes bucket, files b = some bytes ∧
    deserializeEncryptedRingBucket bytes = .ok bucket ∧
    bucket.count.toNat = bucket.valids.count false ∧ bucket.count.toNat ≤ cfg.s.toNat

/-- The file of bucket `index` holds this bucket. -/
structure Stores (cfg : RuntimeConfig) (server : Server) (index : UInt64)
    (bucket : EncryptedRingBucket) : Prop where
  inRange : ¬ server.nodeCount ≤ index
  file : server.files index.toNat = some (bucketBytes bucket)
  held : bucket.Held
  fits : (bucketBytes bucket).length ≤ vectorMaxSize
  shape : bucketShape cfg bucket

/-- The bucket with a slot invalidated. -/
def EncryptedRingBucket.touch (bucket : EncryptedRingBucket) (offset : Nat) : EncryptedRingBucket :=
  { bucket with valids := bucket.valids.set offset false, count := bucket.count + 1 }

section Disk

variable {cfg : RuntimeConfig} {server : Server} {bucket : Nat → RingBucket}
  {encrypted : EncryptedRingBucket} {index : UInt64}

theorem length_bucketBytes_touch (bucket : EncryptedRingBucket) (offset : Nat) :
    (bucketBytes (bucket.touch offset)).length = (bucketBytes bucket).length := by
  simp [bucketBytes, EncryptedRingBucket.touch]

theorem held_touch (h : encrypted.Held) (offset : Nat) : (encrypted.touch offset).Held :=
  ⟨h.addrs, h.leaves, h.ptrs, h.data⟩

theorem bucketShape_touch (h : bucketShape cfg encrypted) (offset : Nat) :
    bucketShape cfg (encrypted.touch offset) :=
  ⟨List.length_set.trans h.1, h.2⟩

theorem readBucketFromDisk_stored (h : Stores cfg server index encrypted) :
    Returns (readBucketFromDisk cfg index) server fun encrypted' server' => encrypted' = encrypted ∧
    server' = server := by
  apply Returns.get_bind
  apply Returns.check_bind h.inRange
  rw [h.file]
  apply Returns.ok_bind (deserializeEncryptedRingBucket_bytes h.held h.fits)
  apply Returns.check_bind (not_not.mpr h.shape)
  exact Returns.pure ⟨rfl, rfl⟩

theorem writeBucketToDisk_stored (hRange : ¬ server.nodeCount ≤ index)
    (hFits : (bucketBytes encrypted).length ≤ vectorMaxSize) (hShape : bucketShape cfg encrypted) :
    Returns (writeBucketToDisk cfg index encrypted) server fun _ server' =>
      server' = { server with
        files := Function.update server.files index.toNat (some (bucketBytes encrypted)) } := by
  apply Returns.get_bind
  apply Returns.check_bind hRange
  apply Returns.check_bind (not_not.mpr hShape)
  apply Returns.ok_bind ((serializeEncryptedRingBucket_eq encrypted).trans (checkSize_of_le hFits))
  exact Returns.modify rfl

theorem validateInitialized_stored (hNodes : server.nodeCount = cfg.numTreeNodes) :
    Returns (validateInitialized cfg) server fun _ server' => server' = server :=
  Returns.get_bind (Returns.throwIf (not_not.mpr hNodes) rfl)

theorem handleReadBucket_stored (hNodes : server.nodeCount = cfg.numTreeNodes)
    (h : Stores cfg server index encrypted) :
    Returns (handleReadBucket cfg index) server fun response server' =>
      response = .bucket (bucketBytes encrypted) ∧ server' = server := by
  apply (validateInitialized_stored hNodes).bind
  rintro _ server rfl
  apply (readBucketFromDisk_stored h).bind
  rintro encrypted server ⟨rfl, rfl⟩
  apply Returns.ok_bind ((serializeEncryptedRingBucket_eq encrypted).trans (checkSize_of_le h.fits))
  exact Returns.pure ⟨rfl, rfl⟩

theorem handleWriteBucket_stored (hNodes : server.nodeCount = cfg.numTreeNodes)
    (hRange : ¬ server.nodeCount ≤ index)
    (hHeld : encrypted.Held) (hFits : (bucketBytes encrypted).length ≤ vectorMaxSize)
    (hShape : bucketShape cfg encrypted) :
    Returns (handleWriteBucket cfg index (bucketBytes encrypted)) server fun response server' =>
      response = .ack ∧ server' = { server with
        files := Function.update server.files index.toNat (some (bucketBytes encrypted)) } := by
  apply (validateInitialized_stored hNodes).bind
  rintro _ server rfl
  apply Returns.ok_bind (deserializeEncryptedRingBucket_bytes hHeld hFits)
  apply Returns.check_bind (not_not.mpr hShape)
  apply (writeBucketToDisk_stored hRange hFits hShape).bind
  rintro _ _ rfl
  exact Returns.pure ⟨rfl, rfl⟩

/-- A valid slot of the block size is read and invalidated. -/
theorem xorPathSlot_stored {offset : UInt64} {field : EncryptedField}
    {selected : Bytes × List Bytes}
    (h : Stores cfg server index encrypted) (hField : encrypted.data[offset.toNat]? = some field)
    (hFlag : encrypted.valids[offset.toNat]? = some true)
    (hCipher : field.ciphertext.length = cfg.blockSize.toNat)
    (hSelected : selected.1.length = cfg.blockSize.toNat) :
    Returns (xorPathSlot cfg selected (index, offset)) server fun selected' server' =>
      selected' = (XorBytes.xor selected.1 field.ciphertext, selected.2 ++ [field.iv]) ∧
      server' = { server with
        files := Function.update server.files index.toNat
          (some (bucketBytes (encrypted.touch offset.toNat))) } := by
  have hXor : serverXorInto selected.1 field.ciphertext =
      .ok (XorBytes.xor selected.1 field.ciphertext) :=
    if_neg (not_not.mpr (hSelected.trans hCipher.symm))
  apply (readBucketFromDisk_stored h).bind
  rintro encrypted server ⟨rfl, rfl⟩
  simp only [hField, hFlag]
  refine Returns.check_bind (by simp)
    (Returns.check_bind (not_not.mpr hCipher) (Returns.ok_bind hXor ?_))
  have hFits := (length_bucketBytes_touch encrypted offset.toNat).trans_le h.fits
  apply (writeBucketToDisk_stored h.inRange hFits (bucketShape_touch h.shape _)).bind
  rintro _ _ rfl
  exact Returns.pure ⟨rfl, rfl⟩

theorem bucketBytes_fits (hAccepted : env.cfg.Accepted) {plain : RingBucket}
    (h : Seals env encrypted plain) (hWell : plain.WellFormed env.cfg) :
    (bucketBytes encrypted).length ≤ vectorMaxSize :=
  (h.length_bucket hWell).trans_le hAccepted.bucketFits

theorem held_sealed (hAccepted : env.cfg.Accepted) {plain : RingBucket}
    (h : Seals env encrypted plain) (hWell : plain.WellFormed env.cfg) : encrypted.Held :=
  h.held (hWell.sealable hAccepted.slotsFit)

theorem serialize_sealed (hAccepted : env.cfg.Accepted) {plain : RingBucket}
    (h : Seals env encrypted plain) (hWell : plain.WellFormed env.cfg) :
    serializeEncryptedRingBucket encrypted = .ok (bucketBytes encrypted) := by
  rw [serializeEncryptedRingBucket_eq, checkSize_of_le (bucketBytes_fits hAccepted h hWell)]

theorem deserialize_sealed (hAccepted : env.cfg.Accepted) {plain : RingBucket}
    (h : Seals env encrypted plain) (hWell : plain.WellFormed env.cfg) :
    deserializeEncryptedRingBucket (bucketBytes encrypted) = .ok encrypted :=
  deserializeEncryptedRingBucket_bytes (held_sealed hAccepted h hWell)
    (bucketBytes_fits hAccepted h hWell)

theorem lt_nodeCount (hAccepted : env.cfg.Accepted)
    (hNodes : server.nodeCount = env.cfg.numTreeNodes)
    (hIndex : index.toNat ∈ env.cfg.nodes) : ¬ server.nodeCount ≤ index := by
  rw [hNodes, UInt64.le_iff_toNat_le, RuntimeConfig.toNat_numTreeNodes hAccepted.depth]
  exact Nat.not_le.mpr (mem_nodes.mp hIndex)

theorem Holds.snapshot (h : Holds env server bucket) (hAccepted : env.cfg.Accepted)
    (hWell : ∀ b ∈ env.cfg.nodes, (bucket b).WellFormed env.cfg)
    (hCounts : ∀ b ∈ env.cfg.nodes, (bucket b).count.toNat ≤ env.cfg.s.toNat) :
    SnapshotOk env.cfg server.files := by
  intro b hb
  obtain ⟨encrypted, hFile, hSeals⟩ := h.files b hb
  refine ⟨_, encrypted, hFile, deserialize_sealed hAccepted hSeals (hWell b hb), ?_, ?_⟩
  · rw [hSeals.count, hSeals.valids, (hWell b hb).count]
  · rw [hSeals.count]
    exact hCounts b hb

theorem validateInitialized_spec (h : Holds env server bucket) :
    Returns (validateInitialized env.cfg) server fun _ server' => server' = server :=
  validateInitialized_stored h.nodeCount

theorem Holds.stores (hAccepted : env.cfg.Accepted) (h : Holds env server bucket)
    (hIndex : index.toNat ∈ env.cfg.nodes) (hWell : (bucket index.toNat).WellFormed env.cfg) :
    ∃ encrypted, Stores env.cfg server index encrypted ∧
    Seals env encrypted (bucket index.toNat) := by
  obtain ⟨encrypted, hFile, hSeals⟩ := h.files _ hIndex
  exact ⟨encrypted,
    ⟨lt_nodeCount hAccepted h.nodeCount hIndex, hFile, held_sealed hAccepted hSeals hWell,
      bucketBytes_fits hAccepted hSeals hWell, hSeals.shape hWell hAccepted.slots⟩, hSeals⟩

theorem readBucketFromDisk_spec (hAccepted : env.cfg.Accepted) (h : Holds env server bucket)
    (hIndex : index.toNat ∈ env.cfg.nodes) (hWell : (bucket index.toNat).WellFormed env.cfg) :
    Returns (readBucketFromDisk env.cfg index) server fun encrypted server' =>
      server' = server ∧ Seals env encrypted (bucket index.toNat) := by
  obtain ⟨encrypted, hStores, hSeals⟩ := h.stores hAccepted hIndex hWell
  apply (readBucketFromDisk_stored hStores).mono
  rintro _ _ ⟨rfl, rfl⟩
  exact ⟨rfl, hSeals⟩

theorem writeBucketToDisk_spec (hAccepted : env.cfg.Accepted)
    (hNodes : server.nodeCount = env.cfg.numTreeNodes) (hIndex : index.toNat ∈ env.cfg.nodes)
    {plain : RingBucket} (hSeals : Seals env encrypted plain) (hWell : plain.WellFormed env.cfg) :
    Returns (writeBucketToDisk env.cfg index encrypted) server fun _ server' =>
      server' = { server with
        files := Function.update server.files index.toNat (some (bucketBytes encrypted)) } :=
  writeBucketToDisk_stored (lt_nodeCount hAccepted hNodes hIndex)
    (bucketBytes_fits hAccepted hSeals hWell)
    (hSeals.shape hWell hAccepted.slots)

theorem Holds.update (h : Holds env server bucket) {b : Nat} {plain : RingBucket}
    (hSeals : Seals env encrypted plain) :
    Holds env { server with files := Function.update server.files b (some (bucketBytes encrypted)) }
      (Function.update bucket b plain) := by
  refine ⟨h.running, h.nodeCount, fun c hc => ?_⟩
  rcases eq_or_ne c b with rfl | hNe
  · exact ⟨encrypted, Function.update_self _ _ _, by rwa [Function.update_self]⟩
  · obtain ⟨other, hFile, hOther⟩ := h.files c hc
    exact ⟨other, (Function.update_of_ne hNe _ _).trans hFile, by rwa [Function.update_of_ne hNe]⟩

end Disk

section Requests

variable {server : Server} {v : Plain} {index leaf : UInt64}

theorem handleReadBucket_spec (hAccepted : env.cfg.Accepted) (h : Holds env server v.bucket)
    (hValid : v.Valid env.cfg) (hIndex : index.toNat ∈ env.cfg.nodes) :
    Returns (handleReadBucket env.cfg index) server fun response server' =>
      server' = server ∧ ∃ encrypted, response = .bucket (bucketBytes encrypted) ∧
        Seals env encrypted (v.bucket index.toNat) := by
  obtain ⟨encrypted, hStores, hSeals⟩ := h.stores hAccepted hIndex (hValid.wellFormed _ hIndex)
  apply (handleReadBucket_stored h.nodeCount hStores).mono
  rintro _ _ ⟨rfl, rfl⟩
  exact ⟨rfl, encrypted, rfl, hSeals⟩

theorem handleReadBucketCount_spec (hAccepted : env.cfg.Accepted) (h : Holds env server v.bucket)
    (hValid : v.Valid env.cfg) (hIndex : index.toNat ∈ env.cfg.nodes) :
    Returns (handleReadBucketCount env.cfg index) server fun response server' =>
      server' = server ∧ response = .bucketCount (v.bucket index.toNat).count := by
  apply (validateInitialized_spec h).bind
  rintro _ server rfl
  apply (readBucketFromDisk_spec hAccepted h hIndex (hValid.wellFormed _ hIndex)).bind
  rintro encrypted server ⟨rfl, hSeals⟩
  exact Returns.pure ⟨rfl, by rw [hSeals.count]⟩

theorem handleWriteBucket_spec (hAccepted : env.cfg.Accepted) (h : Holds env server v.bucket)
    (hIndex : index.toNat ∈ env.cfg.nodes) {encrypted : EncryptedRingBucket} {plain : RingBucket}
    (hSeals : Seals env encrypted plain) (hWell : plain.WellFormed env.cfg) :
    Returns (handleWriteBucket env.cfg index (bucketBytes encrypted)) server fun response server' =>
      response = .ack ∧ Holds env server' (Function.update v.bucket index.toNat plain) := by
  apply (handleWriteBucket_stored h.nodeCount (lt_nodeCount hAccepted h.nodeCount hIndex)
    (held_sealed hAccepted hSeals hWell) (bucketBytes_fits hAccepted hSeals hWell)
      (hSeals.shape hWell hAccepted.slots)).mono
  rintro _ _ ⟨rfl, rfl⟩
  exact ⟨rfl, h.update hSeals⟩

/-- A payload that carries the metadata of a bucket. -/
def Describes (env : Env) (payload : Bytes) (plain : RingBucket) : Prop :=
  ∃ encrypted, payload = metadataBytes (metadataFromBucket encrypted) ∧ Seals env encrypted plain

theorem handleReadPathMetadata_spec (hAccepted : env.cfg.Accepted) (h : Holds env server v.bucket)
    (hValid : v.Valid env.cfg) (hLeaf : leaf.toNat < 2 ^ env.cfg.depth) :
    Returns (handleReadPathMetadata env.cfg leaf) server fun response server' =>
      server' = server ∧ ∃ payloads,
      response = .pathMetadata (UInt64.ofNat (env.cfg.depth + 1)) payloads ∧
        List.Forall₂ (fun payload b => Describes env payload (v.bucket b)) payloads
          (env.cfg.path leaf) := by
  obtain ⟨path, hPath, hNodes⟩ := RuntimeConfig.getPathIndices_eq_ok hAccepted.depth hLeaf
  apply (validateInitialized_spec h).bind
  rintro _ server rfl
  apply Returns.ok_bind hPath
  have hLength : path.length = env.cfg.depth + 1 := by
    rw [← @List.length_map _ _ path UInt64.toNat, hNodes, HeapTree.length_path]
  have hMem : ∀ index ∈ path, index.toNat ∈ env.cfg.nodes := by
    intro index hIndex
    apply mem_nodes_of_mem_path hLeaf
    rw [RuntimeConfig.path, ← hNodes]
    exact List.mem_map_of_mem hIndex
  -- The payloads sent so far describe the buckets visited so far.
  have hLoop := @Returns.foldlM Exception Server UInt64 (List Bytes) server path
    (readMetadataOf env.cfg) []
    (fun sent rest server' => server' = server ∧ ∃ visited, visited ++ rest = path ∧
      List.Forall₂ (fun payload index => Describes env payload (v.bucket index.toNat)) sent visited)
    ⟨rfl, [], rfl, .nil⟩ (by
      rintro sent index rest server ⟨rfl, visited, rfl, hSent⟩
      have hIndex := hMem index (by simp)
      have hWell := hValid.wellFormed _ hIndex
      apply (readBucketFromDisk_spec hAccepted h hIndex hWell).bind
      rintro encrypted server ⟨rfl, hSeals⟩
      have hSerialize : serializeRingBucketMetadata (metadataFromBucket encrypted) =
          .ok (metadataBytes (metadataFromBucket encrypted)) := by
        apply checkSize_of_le
        change (metadataBytes (metadataFromBucket encrypted)).length ≤ _
        rw [hSeals.length_metadata hWell]
        exact le_trans (Nat.le_add_right _ _) hAccepted.bucketFits
      refine Returns.ok_bind hSerialize (Returns.pure ⟨rfl, visited ++ [index], by simp, ?_⟩)
      exact List.rel_append hSent (.cons ⟨encrypted, rfl, hSeals⟩ .nil))
  apply hLoop.bind
  rintro payloads _ ⟨rfl, visited, hVisited, hPayloads⟩
  rw [List.append_nil] at hVisited
  subst hVisited
  refine Returns.pure ⟨rfl, payloads, by rw [hLength], ?_⟩
  rw [RuntimeConfig.path, ← hNodes, List.forall₂_map_right_iff]
  exact hPayloads

theorem Seals.touch {encrypted : EncryptedRingBucket} {plain : RingBucket}
    (h : Seals env encrypted plain) (offset : Nat) :
    Seals env (encrypted.touch offset) (plain.touch offset) :=
  ⟨congrArg (· + 1) h.count, congrArg (fun valids => valids.set offset false) h.valids,
    h.addrs, h.leaves, h.ptrs, h.data⟩

theorem Seals.slot {encrypted : EncryptedRingBucket} {plain : RingBucket}
    (h : Seals env encrypted plain) {offset : Nat} (hOffset : offset < plain.data.length) :
    ∃ field, encrypted.data[offset]? = some field ∧ Sealed env field (plain.payload offset) := by
  have hData := List.forall₂_map_right_iff.mp h.data
  have hLt : offset < encrypted.data.length := hData.length_eq ▸ hOffset
  refine ⟨encrypted.data[offset], List.getElem?_eq_getElem hLt, ?_⟩
  rw [RingBucket.payload, List.getD_eq_getElem _ _ hOffset]
  exact hData.get hLt hOffset

def slotsOf (picks : List Pick) : List (UInt64 × UInt64) :=
  picks.map fun pick => (UInt64.ofNat pick.node, UInt64.ofNat pick.offset)

theorem toNat_ofNat_node (hAccepted : env.cfg.Accepted) {b : Nat} (hb : b ∈ env.cfg.nodes) :
    (UInt64.ofNat b).toNat = b := by
  have hLt := mem_nodes.mp hb
  have hPow : 2 ^ (env.cfg.depth + 1) ≤ 2 ^ 63 := Nat.pow_le_pow_right (by decide) hAccepted.depth
  rw [HeapTree.nodeCount] at hLt
  exact UInt64.toNat_ofNat_of_lt' (by rw [UInt64.size]; omega)

variable {addr : UInt64} {pick : Pick} {picks : List Pick}

theorem xorPathSlot_spec (hAccepted : env.cfg.Accepted) (h : Holds env server v.bucket)
    (hValid : v.Valid env.cfg) (hPicks : v.Picks env.cfg addr (pick :: picks))
    (selected : Bytes × List Bytes) (hSelected : selected.1.length = env.cfg.blockSize.toNat) :
    Returns (xorPathSlot env.cfg selected (UInt64.ofNat pick.node, UInt64.ofNat pick.offset)) server
      fun selected' server' => Holds env server' (v.touch pick).bucket ∧
        ∃ field, Sealed env field ((v.bucket pick.node).payload pick.offset) ∧
          selected' = (XorBytes.xor selected.1 field.ciphertext, selected.2 ++ [field.iv]) := by
  have hMem : pick ∈ pick :: picks := List.mem_cons_self
  have hNode := hPicks.nodes pick hMem
  have hWell := hValid.wellFormed _ hNode
  have hIndex : (UInt64.ofNat pick.node).toNat = pick.node := toNat_ofNat_node hAccepted hNode
  have hSelects := hPicks.selects pick hMem
  have hOffsetLt : pick.offset < env.cfg.slots :=
    hWell.valids ▸ RingBucket.lt_of_valid hSelects.valid
  have hOffset : (UInt64.ofNat pick.offset).toNat = pick.offset :=
    UInt64.toNat_ofNat_of_lt' (hOffsetLt.trans hAccepted.slots)
  have hNode' : (UInt64.ofNat pick.node).toNat ∈ env.cfg.nodes := by rwa [hIndex]
  obtain ⟨encrypted, hStores, hSeals⟩ := h.stores hAccepted hNode' (by rwa [hIndex])
  rw [hIndex] at hSeals
  obtain ⟨field, hField, hSealed⟩ := hSeals.slot (hWell.data ▸ hOffsetLt)
  have hFlag : encrypted.valids[pick.offset]? = some true := by
    have hLt : pick.offset < (v.bucket pick.node).valids.length :=
      RingBucket.lt_of_valid hSelects.valid
    have hTrue := hSelects.valid
    rw [List.getD_eq_getElem _ _ hLt] at hTrue
    rw [hSeals.valids, List.getElem?_eq_getElem hLt, hTrue]
  have hCipher : field.ciphertext.length = env.cfg.blockSize.toNat := by
    rw [hSealed.length, RingBucket.payload_length hWell hOffsetLt]
  apply (xorPathSlot_stored hStores (hOffset.symm ▸ hField) (hOffset.symm ▸ hFlag)
    hCipher hSelected).mono
  rintro _ _ ⟨rfl, rfl⟩
  rw [hOffset, hIndex]
  exact ⟨h.update (hSeals.touch pick.offset), field, hSealed, rfl⟩

theorem xorPathSlots_loop (hAccepted : env.cfg.Accepted) (h : Holds env server v.bucket)
    (hValid : v.Valid env.cfg) (hPicks : v.Picks env.cfg addr picks) (selected : Bytes × List Bytes)
    (hSelected : selected.1.length = env.cfg.blockSize.toNat) :
    Returns ((slotsOf picks).foldlM (xorPathSlot env.cfg) selected) server fun selected' server' =>
      Holds env server' (v.touchAll picks).bucket ∧ ∃ fields,
        SealedAll env fields (picks.map fun pick => (v.bucket pick.node).payload pick.offset) ∧
        selected' = ((fields.map EncryptedField.ciphertext).foldl XorBytes.xor selected.1,
          selected.2 ++ fields.map EncryptedField.iv) := by
  induction picks generalizing v server selected with
  | nil => exact Returns.pure ⟨h, [], .nil, by simp⟩
  | cons pick picks ih =>
    rw [slotsOf, List.map_cons, List.foldlM_cons]
    apply (xorPathSlot_spec hAccepted h hValid hPicks selected hSelected).bind
    rintro _ server' ⟨hHolds, field, hSealed, rfl⟩
    have hMem : pick ∈ pick :: picks := List.mem_cons_self
    have hNext := hValid.touch (hPicks.selects pick hMem) (hPicks.calm pick hMem)
    have hLength : field.ciphertext.length = env.cfg.blockSize.toNat := by
      have hWell := hValid.wellFormed _ (hPicks.nodes pick hMem)
      have hLt := hWell.valids ▸ RingBucket.lt_of_valid (hPicks.selects pick hMem).valid
      rw [hSealed.length, RingBucket.payload_length hWell hLt]
    refine (ih hHolds hNext hPicks.tail _ (XorBytes.length_xor hSelected hLength)).mono ?_
    rintro _ server'' ⟨hFinal, fields, hFields, rfl⟩
    refine ⟨hFinal, field :: fields, ?_, by simp⟩
    refine .cons hSealed ?_
    have hSame : (picks.map fun other => ((v.touch pick).bucket other.node).payload other.offset) =
        picks.map fun other => (v.bucket other.node).payload other.offset := by
      apply List.map_congr_left
      intro other hOther
      have hNodup := hPicks.nodup
      rw [List.map_cons, List.nodup_cons] at hNodup
      rw [Plain.touch_bucket_of_ne]
      exact fun hEq => hNodup.1 (hEq ▸ List.mem_map_of_mem hOther)
    rwa [← hSame]

/-- The request that `FetchXorPath` sends for a list of picks. -/
def xorRequest (cfg : RuntimeConfig) (leaf : UInt64) (picks : List Pick) : Request :=
  .xorPathSlots leaf (UInt64.ofNat (cfg.depth + 1)) (picks.map fun pick => UInt64.ofNat pick.offset)

theorem handleXorPathSlots_spec (hAccepted : env.cfg.Accepted) (h : Holds env server v.bucket)
    (hValid : v.Valid env.cfg) (hPicks : v.Picks env.cfg addr picks)
    (hLeaf : leaf.toNat < 2 ^ env.cfg.depth) (hPath : picks.map Pick.node = env.cfg.path leaf) :
    Returns (handleRequest env.cfg (xorRequest env.cfg leaf picks)) server fun response server' =>
      Holds env server' (v.touchAll picks).bucket ∧ ∃ fields,
        SealedAll env fields (picks.map fun pick => (v.bucket pick.node).payload pick.offset) ∧
        response = .xorPath
          (XorBytes.total env.cfg.blockSize.toNat (fields.map EncryptedField.ciphertext))
          (UInt64.ofNat (env.cfg.depth + 1)) (fields.map EncryptedField.iv) := by
  obtain ⟨path, hIndices, hNodes⟩ := RuntimeConfig.getPathIndices_eq_ok hAccepted.depth hLeaf
  have hLength : path.length = env.cfg.depth + 1 := by
    rw [← @List.length_map _ _ path UInt64.toNat, hNodes, HeapTree.length_path]
  have hCount : picks.length = env.cfg.depth + 1 := by
    rw [← @List.length_map _ _ picks Pick.node, hPath, RuntimeConfig.path, HeapTree.length_path]
  have hOfNat : path = picks.map fun pick => UInt64.ofNat pick.node := by
    have hBack : (path.map UInt64.toNat).map UInt64.ofNat = path := by
      rw [List.map_map]
      exact (List.map_congr_left fun index _ => UInt64.ofNat_toNat).trans (List.map_id _)
    rw [← hBack, hNodes, ← RuntimeConfig.path, ← hPath, List.map_map]
    rfl
  have hZip : path.zip (picks.map fun pick => UInt64.ofNat pick.offset) = slotsOf picks := by
    rw [hOfNat, List.zip_map']
    rfl
  change Returns (handleXorPathSlots env.cfg leaf _ _) server _
  apply (validateInitialized_spec h).bind
  rintro _ server rfl
  refine Returns.ok_bind hIndices (Returns.check_bind (by rw [hLength]; exact not_not.mpr rfl) ?_)
  rw [hZip]
  apply (xorPathSlots_loop hAccepted h hValid hPicks _ List.length_replicate).bind
  rintro _ server' ⟨hHolds, fields, hFields, rfl⟩
  refine Returns.modify_bind
    (Returns.pure ⟨⟨hHolds.running, hHolds.nodeCount, hHolds.files⟩, fields, hFields, ?_⟩)
  have hIvs : fields.length = env.cfg.depth + 1 := by
    rw [hFields.length, List.length_map, hCount]
  simp [XorBytes.total, XorBytes.zero, hIvs]

end Requests

section Init

variable {server : Server}

theorem handleInit_spec (hAccepted : env.cfg.Accepted) (hRunning : server.running = true)
    {sealed : List EncryptedRingBucket} {tree : List RingBucket}
    (hSeals : List.Forall₂ (Seals env) sealed tree)
    (hWell : ∀ plain ∈ tree, plain.WellFormed env.cfg)
    (hLength : tree.length = env.cfg.numTreeNodes.toNat) :
    Returns (handleInit env.cfg env.cfg.numTreeNodes (sealed.map bucketBytes)) server
      fun response server' => response = .ack ∧ Holds env server' fun b => tree.getD b {} := by
  have hCount := RuntimeConfig.toNat_numTreeNodes hAccepted.depth
  refine Returns.check_bind (by simp) (Returns.modify_bind ?_)
  -- The buckets that are no longer to be visited have their file.
  have hLoop := @Returns.forM Exception Server Nat
    { server with files := fun _ => none, nodeCount := env.cfg.numTreeNodes }
    (List.range env.cfg.numTreeNodes.toNat) (initBucket env.cfg (sealed.map bucketBytes))
    (fun rest server' => server'.running = true ∧ server'.nodeCount = env.cfg.numTreeNodes ∧
      (∀ i ∈ rest, i ∈ env.cfg.nodes) ∧
      ∀ b ∈ env.cfg.nodes, b ∉ rest → ∃ encrypted, server'.files b = some (bucketBytes encrypted) ∧
        Seals env encrypted (tree.getD b {}))
    ⟨hRunning, rfl, fun i hi => mem_nodes.mpr (by rw [← hCount]; exact List.mem_range.mp hi),
      fun b hb hRest =>
        absurd (List.mem_range.mpr (by rw [hCount]; exact mem_nodes.mp hb)) hRest⟩ (by
      rintro i rest server' ⟨hRun, hNodes, hRest, hFiles⟩
      have hi := hRest i List.mem_cons_self
      have hLt : i < tree.length := by
        rw [hLength, hCount]
        exact mem_nodes.mp hi
      have hLt' : i < sealed.length := hSeals.length_eq ▸ hLt
      have hPlain : tree.getD i {} = tree[i] := List.getD_eq_getElem _ _ hLt
      have hBucket : Seals env sealed[i] (tree.getD i {}) := hPlain ▸ hSeals.get hLt' hLt
      have hShape : (tree.getD i {}).WellFormed env.cfg := hPlain ▸ hWell _ (List.getElem_mem hLt)
      have hIndex := toNat_ofNat_node hAccepted hi
      have hGet : (sealed.map bucketBytes)[i]? = some (bucketBytes sealed[i]) := by
        rw [List.getElem?_map, List.getElem?_eq_getElem hLt']
        rfl
      rw [initBucket, hGet]
      apply Returns.ok_bind (deserialize_sealed hAccepted hBucket hShape)
      apply Returns.check_bind (not_not.mpr (hBucket.shape hShape hAccepted.slots))
      apply (writeBucketToDisk_spec hAccepted hNodes (by rwa [hIndex]) hBucket hShape).mono
      rintro _ _ rfl
      refine ⟨hRun, hNodes, fun j hj => hRest j (List.mem_cons_of_mem _ hj), fun b hb hNotMem => ?_⟩
      rw [hIndex]
      rcases eq_or_ne b i with rfl | hNe
      · exact ⟨sealed[b], Function.update_self _ _ _, hBucket⟩
      · obtain ⟨encrypted, hFile, hOther⟩ := hFiles b hb (by simp [hNe, hNotMem])
        exact ⟨encrypted, (Function.update_of_ne hNe _ _).trans hFile, hOther⟩)
  apply hLoop.bind
  rintro _ server' ⟨hRun, hNodes, _, hFiles⟩
  exact Returns.pure ⟨rfl, hRun, hNodes, fun b hb => hFiles b hb List.not_mem_nil⟩

end Init
end OramHub.RingOram
