import Mathlib.Logic.Equiv.Fin.Rotate
import OramHub.RingOram.Invariants
import OramHub.RingOram.XorRead

/-! # A bucket is written, read from and read back

Path reads use up slots of a stored bucket. Reading it back returns every block whose slot has not
been used, with the address, the leaf and the data it was written with.
-/
namespace OramHub.RingOram
open OramHub.Core OramHub.Program
set_option autoImplicit false

namespace RingBucket

/-- Slots have been read one after the other, each while it was valid. -/
inductive Touched : RingBucket → List Nat → RingBucket → Prop
  | nil {bucket : RingBucket} : Touched bucket [] bucket
  | cons {bucket bucket' : RingBucket} {offset : Nat} {offsets : List Nat} :
      bucket.valids.getD offset false = true → Touched (bucket.touch offset) offsets bucket' →
      Touched bucket (offset :: offsets) bucket'

/-- The live blocks at some of the slots. -/
def foundAmong (bucket : RingBucket) (offsets : List Nat) : List RingBlock :=
  (bucket.liveIndices.filter fun i => offsets.contains (bucket.ptr i)).map bucket.entry

variable {cfg : RuntimeConfig} {bucket bucket' bucket'' : RingBucket} {offsets offsets' : List Nat}

theorem Touched.append (h : Touched bucket offsets bucket')
    (h' : Touched bucket' offsets' bucket'') :
    Touched bucket (offsets ++ offsets') bucket'' := by
  induction h with
  | nil => exact h'
  | cons hValid _ ih => exact .cons hValid (ih h')

theorem Touched.wellFormed (h : Touched bucket offsets bucket') (hWell : bucket.WellFormed cfg)
    (hCount : bucket.count.toNat + offsets.length ≤ cfg.s.toNat) :
    bucket'.WellFormed cfg ∧ bucket'.count.toNat = bucket.count.toNat + offsets.length := by
  induction h with
  | nil => exact ⟨hWell, rfl⟩
  | @cons bucket bucket' offset offsets hValid _ ih =>
    rw [List.length_cons] at hCount
    have hLt := UInt64.toNat_lt cfg.s
    have hNext : (bucket.touch offset).count.toNat = bucket.count.toNat + 1 := by
      change (bucket.count + 1).toNat = _
      rw [UInt64.toNat_add, UInt64.toNat_one, Nat.mod_eq_of_lt (by omega)]
    obtain ⟨hFinal, hTotal⟩ := ih (hWell.touch hValid (by omega)) (by omega)
    refine ⟨hFinal, ?_⟩
    rw [hTotal, hNext, List.length_cons]
    omega

theorem Touched.entry (h : Touched bucket offsets bucket') : bucket'.entry = bucket.entry := by
  induction h with
  | nil => rfl
  | cons _ _ ih => exact ih

theorem Touched.liveIndices (h : Touched bucket offsets bucket') :
    bucket'.liveIndices = bucket.liveIndices.filter fun i => !offsets.contains (bucket.ptr i) := by
  induction h with
  | nil => simp
  | @cons bucket bucket' offset offsets _ _ ih =>
    rw [ih, touch_ptr, liveIndices_touch, List.filter_filter]
    apply List.filter_congr
    intro i _
    rw [List.contains_cons, Bool.not_or, Bool.and_comm]
    rfl

theorem Touched.liveBlocks (h : Touched bucket offsets bucket') :
    (bucket'.liveBlocks : Multiset RingBlock) + (bucket.foundAmong offsets : Multiset RingBlock) =
      bucket.liveBlocks := by
  rw [RingBucket.liveBlocks, h.liveIndices, h.entry, foundAmong,
    RingBucket.liveBlocks, Multiset.coe_add, Multiset.coe_eq_coe, ← List.map_append]
  apply List.Perm.map
  exact List.perm_append_comm.trans
    (List.filter_append_perm (fun i => offsets.contains (bucket.ptr i)) bucket.liveIndices)

theorem Touched.sublist (h : Touched bucket offsets bucket') :
    bucket'.liveBlocks.Sublist bucket.liveBlocks := by
  rw [RingBucket.liveBlocks, h.liveIndices, h.entry]
  exact List.filter_sublist.map _

theorem SameMetadata.foundAmong (h : bucket.SameMetadata bucket')
    (hPayload : bucket.payload = bucket'.payload) :
    bucket.foundAmong offsets = bucket'.foundAmong offsets := by
  have hPtr : bucket.ptr = bucket'.ptr := by
    funext i
    rw [RingBucket.ptr, RingBucket.ptr, h.ptrs]
  rw [RingBucket.foundAmong, RingBucket.foundAmong, h.liveIndices, h.entry hPayload, hPtr]

theorem SameMetadata.liveBlocks (h : bucket.SameMetadata bucket')
    (hPayload : bucket.payload = bucket'.payload) :
    bucket.liveBlocks = bucket'.liveBlocks := by
  rw [RingBucket.liveBlocks, RingBucket.liveBlocks, h.liveIndices, h.entry hPayload]

theorem Touched.valid (h : Touched bucket offsets bucket') {offset : Nat}
    (hOffset : offset ∉ offsets) (hValid : bucket.valids.getD offset false = true) :
    bucket'.valids.getD offset false = true := by
  induction h with
  | nil => exact hValid
  | @cons bucket bucket' other offsets _ _ ih =>
    rw [List.mem_cons, not_or] at hOffset
    apply ih hOffset.2
    change (bucket.valids.set other false).getD offset false = true
    rw [getD_set_false, hValid, bne_iff_ne.mpr hOffset.1]
    rfl

end RingBucket

/-- The file of bucket `index` is a sealed form of `bucket`. -/
def HoldsBucket (env : Env) (server : Server) (index : UInt64) (bucket : RingBucket) : Prop :=
  ∃ encrypted, Stores env.cfg server index encrypted ∧ Seals env encrypted bucket

/-- The stash, in memory and in its file, and one bucket. The other buckets may be anything. -/
structure HasBucket (env : Env) (w : World) (index : UInt64) (stash : List RingBlock)
    (bucket : RingBucket) : Prop where
  running : w.server.running = true
  nodeCount : w.server.nodeCount = env.cfg.numTreeNodes
  synced : Synced w.stash stash
  stored : HoldsBucket env w.server index bucket

/-- A stash in memory that has been saved to its file. -/
structure Saved (state : StashState) (stash : List RingBlock) : Prop where
  memory : state.stash = stash
  vector : Holdable ringBlockSize stash
  disk : ∃ bytes, serializeRingBlocks stash = .ok bytes ∧ state.file = some bytes

theorem Saved.synced {state : StashState} {stash : List RingBlock}
    (h : Saved state stash) : Synced state stash := by
  obtain ⟨bytes, hBytes, hFile⟩ := h.disk
  rw [serializeRingBlocks_eq] at hBytes
  exact ⟨h.memory, (checkSize_eq_ok hBytes).1 ▸ hFile⟩

theorem Saved.keepable {cfg : RuntimeConfig} {state : StashState} {stash : List RingBlock}
    (h : Saved state stash)
    (hData : ∀ block ∈ stash, block.data.length = cfg.blockSize.toNat) : Keepable cfg stash := by
  obtain ⟨bytes, hBytes, _⟩ := h.disk
  rw [serializeRingBlocks_eq] at hBytes
  exact ⟨hData, h.vector, (checkSize_eq_ok hBytes).2⟩

/-- Path reads that the server answers, and the slots that they select in bucket `b`. -/
inductive PathReads (env : Env) (b : Nat) : World → List Nat → World → Prop
  | nil {w : World} : PathReads env b w [] w
  | cons {w w' w'' : World} {leaf offsetCount : UInt64} {offsets path : List UInt64}
    {response : Response} {rest : List Nat} :
      (roundTrip env (.xorPathSlots leaf offsetCount offsets)).run w = .ok response w' →
      env.cfg.getPathIndices leaf = .ok path → PathReads env b w' rest w'' →
      PathReads env b w
        (((path.zip offsets).filter fun slot => slot.1.toNat == b).map (fun slot => slot.2.toNat) ++
          rest) w''

variable {env : Env} {w w' : World} {server server' : Server} {index : UInt64} {bucket : RingBucket}
  {stash : List RingBlock}
  {offsets : List Nat}

section Reads

variable {selected selected' : Bytes × List Bytes}

theorem HoldsBucket.slotRead {slot : UInt64 × UInt64} (h : HoldsBucket env server index bucket)
    (hRead : SlotRead env.cfg server selected slot selected' server') :
    ∃ bucket', bucket.Touched (if slot.1.toNat = index.toNat then [slot.2.toNat] else []) bucket' ∧
      HoldsBucket env server' index bucket' := by
  obtain ⟨encrypted, hStores, hSeals⟩ := h
  obtain ⟨stored, other, field, bytes, hFile, hBucket, _, hValid, _, _, _, hBytes, rfl⟩ := hRead
  by_cases hSame : slot.1.toNat = index.toNat
  case pos =>
    rw [hSame, hStores.file] at hFile
    cases hFile
    rw [deserializeEncryptedRingBucket_bytes hStores.held hStores.fits] at hBucket
    cases hBucket
    rw [if_pos hSame]
    refine ⟨bucket.touch slot.2.toNat, .cons ?_ .nil,
      encrypted.touch slot.2.toNat, ?_, hSeals.touch _⟩
    · rw [← hSeals.valids, List.getD_eq_getElem?_getD, hValid]
      rfl
    · have hFits := (length_bucketBytes_touch encrypted slot.2.toNat).trans_le hStores.fits
      have hSerialized :=
        (serializeEncryptedRingBucket_eq (encrypted.touch slot.2.toNat)).trans
          (checkSize_of_le hFits)
      cases Except.ok.inj (hBytes.symm.trans hSerialized)
      exact ⟨hStores.inRange, hSame ▸ Function.update_self _ _ _, held_touch hStores.held _, hFits,
        bucketShape_touch hStores.shape _⟩
  case neg =>
    rw [if_neg hSame]
    exact ⟨bucket, .nil, encrypted,
      ⟨hStores.inRange, (Function.update_of_ne (Ne.symm hSame) _ _).trans hStores.file,
        hStores.held, hStores.fits, hStores.shape⟩, hSeals⟩

theorem HoldsBucket.xorPathSlots {slots : List (UInt64 × UInt64)}
    (h : HoldsBucket env server index bucket)
    (hRun : (slots.foldlM (xorPathSlot env.cfg) selected).run server = .ok selected' server') :
    ∃ bucket', bucket.Touched
      ((slots.filter fun slot => slot.1.toNat == index.toNat).map fun slot =>
        slot.2.toNat) bucket' ∧
      HoldsBucket env server' index bucket' := by
  induction slots generalizing server selected bucket with
  | nil =>
    cases hRun
    exact ⟨bucket, .nil, h⟩
  | cons slot slots ih =>
    rw [List.foldlM_cons] at hRun
    obtain ⟨middle, _, hHead, hRest⟩ := run_bind_eq_ok hRun
    obtain ⟨bucket₁, hTouched, hNext⟩ := h.slotRead (xorPathSlot_eq_ok hHead)
    obtain ⟨bucket₂, hMore, hFinal⟩ := ih hNext hRest
    refine ⟨bucket₂, ?_, hFinal⟩
    by_cases hSame : slot.1.toNat = index.toNat
    case pos =>
      rw [if_pos hSame] at hTouched
      rw [List.filter_cons_of_pos (by rw [hSame, beq_self_eq_true])]
      exact hTouched.append hMore
    case neg =>
      rw [if_neg hSame] at hTouched
      rw [List.filter_cons_of_neg (by rwa [beq_iff_eq])]
      exact hTouched.append hMore

theorem PathReads.hasBucket (hReads : PathReads env index.toNat w offsets w')
    (h : HasBucket env w index stash bucket) :
    ∃ bucket', bucket.Touched offsets bucket' ∧ HasBucket env w' index stash bucket' := by
  induction hReads generalizing bucket with
  | nil => exact ⟨bucket, .nil, h⟩
  | cons hRun hPath _ ih =>
    obtain ⟨_, server, hHandle, rfl⟩ := roundTrip_eq_ok hRun
    obtain ⟨_, path, _, middle, hPath', _, hLoop, _, rfl⟩ := handleXorPathSlots_eq_ok hHandle
    rw [hPath] at hPath'
    cases hPath'
    obtain ⟨bucket₁, hTouched, hNext⟩ := h.stored.xorPathSlots hLoop
    have hFrame := xorPathSlots_frame hLoop
    obtain ⟨encrypted, hStores, hSeals⟩ := hNext
    obtain ⟨bucket₂, hMore, hFinal⟩ :=
      @ih bucket₁ ⟨(congrArg Server.running hFrame).trans h.running,
        (congrArg Server.nodeCount hFrame).trans h.nodeCount, h.synced, encrypted,
        ⟨hStores.inRange, hStores.file, hStores.held, hStores.fits, hStores.shape⟩, hSeals⟩
    exact ⟨bucket₂, hTouched.append hMore, hFinal⟩

end Reads

section RoundTrip

variable {selected kept : List RingBlock}

theorem writeBucket_hasBucket (hAccepted : env.cfg.Accepted) (hIndex : index.toNat ∈ env.cfg.nodes)
    (hRunning : w.server.running = true) (hNodes : w.server.nodeCount = env.cfg.numTreeNodes)
    (hSynced : Synced w.stash stash) (hStash : Keepable env.cfg stash)
    (hBlocks : ∀ block ∈ stash, OnTree env.cfg block) :
    Returns (writeBucket env index) w fun _ w' => ∃ selected kept bucket,
    (selected ++ kept).Perm stash ∧
      (∀ block ∈ selected, Storable env.cfg block) ∧ bucket.Fresh env.cfg selected ∧
      HasBucket env w' index kept bucket := by
  apply (fillBucketFromStash_spec hAccepted.toShaped hIndex hSynced hStash hBlocks).bind
  rintro bucket _ ⟨selected, kept, state, prng, hFill, hFresh, hKept, rfl⟩
  have hPerm := Fill.perm hFill
  have hSealable := hFresh.wellFormed.sealable hAccepted.slotsFit
  apply withIvs_bind (encryptBucket_spec hSealable hFresh.wellFormed.payload _)
  intro encrypted ivs hSeals
  have hHeld := hSeals.held hSealable
  have hFits := bucketBytes_fits hAccepted hSeals hFresh.wellFormed
  have hShape := hSeals.shape hFresh.wellFormed hAccepted.slots
  have hRange := lt_nodeCount hAccepted hNodes hIndex
  apply Returns.ok_bind (serialize_sealed hAccepted hSeals hFresh.wellFormed)
  obtain ⟨_, server, hRun, rfl, rfl⟩ :=
    returns_iff.mp (handleWriteBucket_stored hNodes hRange hHeld hFits hShape)
  have hTrip := @roundTrip_run env { w with stash := state, prng := prng, ivs := ivs }
    (.writeBucket index (bucketBytes encrypted))
    _ _ hRunning hRun
  apply (Returns.of_run hTrip ⟨rfl, rfl⟩ : Returns _ _ fun response w' =>
    response = _ ∧ w' = _).bind
  rintro _ _ ⟨rfl, rfl⟩
  apply expectAck_spec.mono
  rintro _ _ rfl
  refine ⟨selected, kept, bucket, hPerm, fun block hBlock => ?_, hFresh, hRunning,
    hNodes, hKept, encrypted, ⟨hRange, Function.update_self _ _ _, hHeld, hFits, hShape⟩, hSeals⟩
  exact ⟨(hFill.allowed block hBlock).1,
    hStash.data block (hPerm.subset (List.mem_append_left _ hBlock))⟩

theorem HasBucket.readBucket (hAccepted : env.cfg.Accepted) (h : HasBucket env w index stash bucket)
    (hWell : bucket.WellFormed env.cfg) (hCount : bucket.count.toNat ≤ env.cfg.s.toNat)
    (hStorable : ∀ block ∈ bucket.liveBlocks, Storable env.cfg block)
    (hStash : Keepable env.cfg (stash ++ bucket.liveBlocks))
    (hDistinct : ((stash ++ bucket.liveBlocks).map RingBlock.addr).Nodup) :
    Returns (readBucket env index) w fun _ w' => w'.stash.stash = stash ++ bucket.liveBlocks := by
  obtain ⟨encrypted, hStores, hSeals⟩ := h.stored
  obtain ⟨_, server, hRun, rfl, _⟩ := returns_iff.mp (handleReadBucket_stored h.nodeCount hStores)
  have hTrip := @roundTrip_run env w (.readBucket index) _ _ h.running hRun
  have hFetch : Returns (readEncryptedBucketFromServer env index) w fun encrypted' w' =>
      encrypted' = encrypted ∧ w'.stash = w.stash := by
    apply (Returns.of_run hTrip ⟨rfl, rfl⟩ : Returns _ _ fun response w' => response = _ ∧
      w'.stash = w.stash).bind
    rintro _ w' ⟨rfl, hSame⟩
    exact Returns.fromExcept (deserializeEncryptedRingBucket_bytes hStores.held hStores.fits)
      ⟨rfl, hSame⟩
  apply hFetch.bind
  rintro _ w' ⟨rfl, hSame⟩
  have hSynced : Synced w'.stash stash := hSame ▸ h.synced
  have hKeepable :
      ∀ blocks, blocks <+: bucket.liveBlocks → Keepable env.cfg (blocks.foldl put stash) := by
    intro blocks hBlocks
    have hSub := hBlocks.sublist.append_left stash
    rw [foldl_put (hDistinct.sublist (hSub.map _))]
    exact hStash.subperm hSub.subperm
  apply (emptyBucket_spec hAccepted hSeals hWell hCount hStorable hSynced hKeepable).mono
  rintro _ _ ⟨state, prng, hFinal, rfl⟩
  exact hFinal.memory.trans (foldl_put hDistinct)

/-- The round of the server's loop that selects a slot of the bucket. -/
theorem HasBucket.select (h : HasBucket env w index stash bucket)
    (hWell : bucket.WellFormed env.cfg) (hSlots : env.cfg.slots < 2 ^ 64) {offset : Nat}
    (hValid : bucket.valids.getD offset false = true)
    {selected : Bytes × List Bytes} (hSelected : selected.1.length = env.cfg.blockSize.toNat) :
    Returns (xorPathSlot env.cfg selected (index, UInt64.ofNat offset)) w.server
      fun _ _ => True := by
  obtain ⟨encrypted, hStores, hSeals⟩ := h.stored
  have hLt := RingBucket.lt_of_valid hValid
  have hOffset : offset < env.cfg.slots := hWell.valids ▸ hLt
  have hIndex : (UInt64.ofNat offset).toNat = offset :=
    UInt64.toNat_ofNat_of_lt' (hOffset.trans hSlots)
  obtain ⟨field, hField, hSealed⟩ := hSeals.slot (hWell.data ▸ hOffset)
  have hFlag : encrypted.valids[offset]? = some true := by
    rw [List.getD_eq_getElem _ _ hLt] at hValid
    rw [hSeals.valids, List.getElem?_eq_getElem hLt, hValid]
  have hCipher : field.ciphertext.length = env.cfg.blockSize.toNat := by
    rw [hSealed.length, RingBucket.payload_length hWell hOffset]
  exact (xorPathSlot_stored hStores (hIndex.symm ▸ hField) (hIndex.symm ▸ hFlag) hCipher
    hSelected).mono fun _ _ _ => trivial

end RoundTrip

/-- A bucket that is written, read from at most `s` times and read back leaves the stash as it was
before, without the blocks at the slots that have been read. Until then every other slot of it can
be read. -/
theorem touch_roundTrip (hAccepted : env.cfg.Accepted) (hIndex : index < env.cfg.numTreeNodes)
    (hRunning : w.server.running = true) (hNodes : w.server.nodeCount = env.cfg.numTreeNodes)
    (hSaved : Saved w.stash stash) (hDistinct : (stash.map RingBlock.addr).Nodup)
    (hData : ∀ block ∈ stash, block.data.length = env.cfg.blockSize.toNat)
    (hBlocks : ∀ block ∈ stash, OnTree env.cfg block) :
    Returns (writeBucket env index) w fun _ w₁ => ∃ bucket, w₁.bucket env index.toNat = .ok bucket ∧
      (w₁.stash.stash : Multiset RingBlock) + (bucket.liveBlocks : Multiset RingBlock) = stash ∧
      ∀ offsets w₂, PathReads env index.toNat w₁ offsets w₂ → offsets.length ≤ env.cfg.s.toNat →
        (∀ offset < env.cfg.slots, offset ∉ offsets →
          ∀ selected, selected.1.length = env.cfg.blockSize.toNat →
          Returns (xorPathSlot env.cfg selected (index, UInt64.ofNat offset)) w₂.server fun _ _ =>
            True) ∧
        Returns (readBucket env index) w₂ fun _ w₃ =>
          (w₃.stash.stash : Multiset RingBlock) + (bucket.foundAmong offsets : Multiset RingBlock) =
            stash := by
  have hNode := (lt_numTreeNodes_iff hAccepted).mp (UInt64.lt_iff_toNat_lt.mp hIndex)
  have hStash := hSaved.keepable hData
  apply (writeBucket_hasBucket hAccepted hNode hRunning hNodes hSaved.synced hStash hBlocks).mono
  rintro _ w₁ ⟨selected, kept, bucket, hPerm, hSelected, hFresh, hHas⟩
  obtain ⟨encrypted, hStores, hSeals⟩ := hHas.stored
  obtain ⟨stored, hDecrypt, hSame, hPayload⟩ :=
    decryptBucket_spec hSeals hFresh.wellFormed hAccepted.slots
  have hBucket : w₁.bucket env index.toNat = .ok stored := by
    rw [World.bucket, hStores.file]
    change (deserializeEncryptedRingBucket (bucketBytes encrypted) >>= decryptBucket env) = _
    rw [deserializeEncryptedRingBucket_bytes hStores.held hStores.fits]
    exact hDecrypt
  have hAll : (kept : Multiset RingBlock) + (bucket.liveBlocks : Multiset RingBlock) = stash := by
    rw [hFresh.live, Multiset.coe_add, Multiset.coe_eq_coe]
    exact List.perm_append_comm.trans hPerm
  refine ⟨stored, hBucket, ?_, fun offsets w₂ hReads hCount => ?_⟩
  · rw [hHas.synced.memory, hSame.liveBlocks hPayload, hAll]
  · obtain ⟨bucket₂, hTouched, hHas₂⟩ := hReads.hasBucket hHas
    have hZero : bucket.count.toNat = 0 := by
      rw [Plain.count_of_fresh hFresh]
      rfl
    obtain ⟨hWell, hTotal⟩ := hTouched.wellFormed hFresh.wellFormed (by omega)
    constructor
    · intro offset hOffset hNew selected hSelected
      apply hHas₂.select hWell hAccepted.slots (hTouched.valid hNew ?_) hSelected
      rw [hFresh.valids, List.getD_eq_getElem?_getD, List.getElem?_replicate, if_pos hOffset]
      rfl
    · have hSub : (kept ++ bucket₂.liveBlocks).Sublist (kept ++ selected) := by
        rw [← hFresh.live]
        exact hTouched.sublist.append_left kept
      have hBack : (kept ++ selected).Perm stash := List.perm_append_comm.trans hPerm
      have hStorable : ∀ block ∈ bucket₂.liveBlocks, Storable env.cfg block := fun block hBlock =>
        hSelected block (hFresh.live ▸ hTouched.sublist.subset hBlock)
      have hKeys := ((hBack.map RingBlock.addr).nodup_iff.mpr hDistinct).sublist (hSub.map _)
      apply (hHas₂.readBucket hAccepted hWell (by omega) hStorable
        (hStash.subperm (hSub.subperm.trans hBack.subperm)) hKeys).mono
      rintro _ w₃ hFinal
      rw [hFinal, hSame.foundAmong hPayload, ← Multiset.coe_add, add_assoc,
        hTouched.liveBlocks, hAll]

section Small

/-- Buckets of two blocks and one dummy, and a shuffle that moves every slot on. -/
def rotating : Env where
  cfg := { numBlocks := 2, treeDepth := 1, z := 2, s := 1, a := 1, blockSize := 1 }
  entropy := ⟨fun tick => tick, fun _ size => finRotate size, fun _ => Vector.replicate 16 0⟩
  keystream := fun _ _ position => UInt8.ofNat position

/-- A bucket of that shape. -/
def spareBucket : EncryptedRingBucket where
  count := 0
  valids := [true, true, true]
  addrs := List.replicate 2 ⟨List.replicate 16 0, List.replicate 8 0⟩
  leaves := List.replicate 2 ⟨List.replicate 16 0, List.replicate 8 0⟩
  ptrs := List.replicate 2 ⟨List.replicate 16 0, List.replicate 8 0⟩
  data := List.replicate 3 ⟨List.replicate 16 0, [0]⟩

/-- A client with these blocks in its stash, before three buckets. -/
def clientWith (stash : List RingBlock) : World where
  stash := { stash := stash, file := some (stashBytes stash) }
  server := { files := fun _ => some (bucketBytes spareBucket), nodeCount := 3 }

/-- One of the addresses is none of the RAM. -/
def threeBlocks : List RingBlock := [⟨1, 0, [9]⟩, ⟨0, 1, [5]⟩, ⟨7, 0, [6]⟩]

theorem accepted_rotating : rotating.cfg.Accepted :=
  ⟨⟨by decide, by decide, by decide, by decide, by decide, by decide, by decide, by decide,
    by decide⟩, by decide, by decide⟩

theorem saved_clientWith {stash : List RingBlock} (hVector : Holdable ringBlockSize stash)
    (hFile : (stashBytes stash).length ≤ vectorMaxSize) : Saved (clientWith stash).stash stash :=
  ⟨rfl, hVector, _, (serializeRingBlocks_eq stash).trans (checkSize_of_le hFile), rfl⟩

/-- The root takes two of the blocks, one of which is read before the root is read back. -/
theorem touch_roundTrip_small :
    ∃ w₁ w₂ w₃ bucket, (writeBucket rotating 0).run (clientWith threeBlocks) = .ok () w₁ ∧
    w₁.bucket rotating 0 = .ok bucket ∧ PathReads rotating 0 w₁ [1] w₂ ∧
    (readBucket rotating 0).run w₂ = .ok () w₃ ∧
    (w₃.stash.stash : Multiset RingBlock) + (bucket.foundAmong [1] : Multiset RingBlock) =
      threeBlocks := by
  obtain ⟨_, w₁, hWrite, bucket, hBucket, _, hRead⟩ := returns_iff.mp
    (@touch_roundTrip rotating (clientWith threeBlocks) 0 threeBlocks accepted_rotating
      (by decide) rfl (by decide)
      (saved_clientWith (by decide) (by decide)) (by decide) (by decide) fun block hBlock _ => by
        simp only [threeBlocks, List.mem_cons, List.not_mem_nil, or_false] at hBlock
        obtain rfl | rfl | rfl := hBlock <;> decide)
  have hAnswered :
      succeeds (do writeBucket rotating 0; roundTrip rotating (.xorPathSlots 0 2 [1, 0]))
      (clientWith threeBlocks) = true := by
    decide +kernel
  obtain ⟨response, w₂, hRun⟩ := succeeds_iff.mp hAnswered
  obtain ⟨_, w', hWrite', hTrip⟩ := run_bind_eq_ok hRun
  cases hWrite.symm.trans hWrite'
  have hPath : rotating.cfg.getPathIndices 0 = .ok [0, 1] := by decide
  have hReads : PathReads rotating 0 w₁ [1] w₂ := .cons hTrip hPath .nil
  obtain ⟨_, w₃, hBack, hFinal⟩ := returns_iff.mp (hRead [1] w₂ hReads (by decide)).2
  exact ⟨w₁, w₂, w₃, bucket, hWrite, hBucket, hReads, hBack, hFinal⟩

/-- A stash block of a leaf that the tree does not have. -/
theorem writeBucket_refuses_leaf : Saved (clientWith [⟨1, 9, [9]⟩]).stash [⟨1, 9, [9]⟩] ∧
    (∀ block ∈ [(⟨1, 9, [9]⟩ : RingBlock)], block.data.length = rotating.cfg.blockSize.toNat) ∧
    ¬ Returns (writeBucket rotating 0) (clientWith [⟨1, 9, [9]⟩]) fun _ _ => True := by
  refine ⟨saved_clientWith (by decide) (by decide), by decide, fun hReturns => ?_⟩
  have hFails : succeeds (writeBucket rotating 0) (clientWith [⟨1, 9, [9]⟩]) = false := by
    decide +kernel
  obtain ⟨_, w₁, hRun, _⟩ := returns_iff.mp hReturns
  have hSucceeds := succeeds_iff.mpr ⟨_, w₁, hRun⟩
  rw [hFails] at hSucceeds
  cases hSucceeds

end Small

end OramHub.RingOram
