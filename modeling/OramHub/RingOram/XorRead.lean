import OramHub.Lib.Updates
import OramHub.RingOram.Handlers
import OramHub.RingOram.Runs

/-! # The XOR of a path is as good as the slot itself

The server adds up the selected slots of a path, the client takes the dummies out of the sum again.
What is left is the slot that a plain download would have brought, whatever the tree and the place
of the slot are.
-/
namespace OramHub.RingOram
open OramHub.Core OramHub.Program OramHub.Crypto
set_option autoImplicit false

/-- A slot that a path read selects in one bucket of the path. -/
structure PathSlot where
  index : UInt64
  bucket : EncryptedRingBucket
  offset : Nat
  field : EncryptedField
  target : Bool

/-- The server holds the bucket, which is one that can be held. The slot is valid and has the block
size; unless it is the target, it is an encryption of zeros under its own IV. -/
structure PathSlot.Readable (env : Env) (server : Server) (slot : PathSlot) : Prop where
  stored : ∃ bytes, server.files slot.index.toNat = some bytes ∧
    serializeEncryptedRingBucket slot.bucket = .ok bytes
  held : slot.bucket.Held
  shape : bucketShape env.cfg slot.bucket
  field : slot.bucket.data[slot.offset]? = some slot.field
  valid : slot.bucket.valids[slot.offset]? = some true
  size : slot.field.ciphertext.length = env.cfg.blockSize.toNat
  dummy : slot.target = false →
    env.cipher.encrypt (List.replicate env.cfg.blockSize.toNat 0) slot.field.iv =
      .ok slot.field.ciphertext

/-- One slot for each bucket of the path of `leaf`, at most one of them the target. -/
structure Selection (env : Env) (server : Server) (leaf : UInt64)
    (slots : List PathSlot) : Prop where
  path : env.cfg.getPathIndices leaf = .ok (slots.map PathSlot.index)
  readable : ∀ slot ∈ slots, slot.Readable env server
  target : (slots.filter PathSlot.target).length ≤ 1

/-- The bucket of a slot is downloaded and the slot decrypted under its IV. -/
def downloadSlot (env : Env) (slot : PathSlot) : RingM Bytes := do
  let bucket ← readEncryptedBucketFromServer env slot.index
  match bucket.data[slot.offset]? with
  | none => throw (.outOfRange "vector::_M_range_check")
  | some field => fromExcept (decryptBytes env field)

/-- The plain read of the flagged slot. -/
def downloadTarget (env : Env) (slots : List PathSlot) : RingM (Option Bytes) :=
  match slots.find? PathSlot.target with
  | none => return none
  | some slot => do
    let data ← downloadSlot env slot
    return some data

/-- The selected slots are invalid and counted in their buckets. Other buckets are as before, and so
is the rest of the server but for its statistics. -/
structure SlotsRead (server : Server) (slots : List PathSlot) (server' : Server) : Prop where
  touched : ∀ slot ∈ slots, ∃ bytes, server'.files slot.index.toNat = some bytes ∧
    serializeEncryptedRingBucket { slot.bucket with
      valids := slot.bucket.valids.set slot.offset false
      count := slot.bucket.count + 1 } = .ok bytes
  others : ∀ b, (∀ slot ∈ slots, slot.index.toNat ≠ b) → server'.files b = server.files b
  rest : server' = { server with
    files := server'.files
    xorPathReadCount := server.xorPathReadCount + 1
    lastXorPathSlotCount := UInt64.ofNat slots.length }

/-- Of the client's side nothing changes; the request is logged. -/
structure PathRead (w : World) (slots : List PathSlot) (w' : World) : Prop where
  server : SlotsRead w.server slots w'.server
  client : ∃ event, w' = { w with server := w'.server, log := w.log ++ [event] }

variable {env : Env} {server : Server} {w : World} {leaf : UInt64} {slot : PathSlot}
  {slots : List PathSlot}

theorem depth_of_validateConfig {cfg : RuntimeConfig}
    (h : validateConfig cfg = .ok ()) : cfg.depth < 63 := by
  unfold validateConfig at h
  split at h
  case isTrue => cases h
  case isFalse =>
    split at h
    case isTrue => cases h
    case isFalse hDepth => exact UInt64.lt_iff_toNat_lt.mp (UInt64.not_le.mp hDepth)

section Server

theorem PathSlot.Readable.stores (h : slot.Readable env server)
    (hRange : ¬ server.nodeCount ≤ slot.index) :
    Stores env.cfg server slot.index slot.bucket := by
  obtain ⟨bytes, hFile, hBytes⟩ := h.stored
  rw [serializeEncryptedRingBucket_eq] at hBytes
  obtain ⟨rfl, hFits⟩ := checkSize_eq_ok hBytes
  exact ⟨hRange, hFile, h.held, hFits, h.shape⟩

theorem PathSlot.Readable.toNat_offset (h : slot.Readable env server) :
    (UInt64.ofNat slot.offset).toNat = slot.offset := by
  have hLt := (List.getElem?_eq_some_iff.mp h.valid).1
  rw [h.shape.1] at hLt
  exact UInt64.toNat_ofNat_of_lt' (hLt.trans (UInt64.toNat_lt _))

theorem PathSlot.Readable.congr (h : slot.Readable env server) {server' : Server}
    (hFile : server'.files slot.index.toNat = server.files slot.index.toNat) :
    slot.Readable env server' :=
  ⟨hFile ▸ h.stored, h.held, h.shape, h.field, h.valid, h.size, h.dummy⟩

/-- The files once the slots have been read. -/
def filesAfter (files : Nat → Option Bytes) (slots : List PathSlot) : Nat → Option Bytes :=
  Updates.updateAll (fun _ file => file) files
    (slots.map fun slot => (slot.index.toNat, some (bucketBytes (slot.bucket.touch slot.offset))))

theorem xorPathSlots_run (hNodup : (slots.map fun slot => slot.index.toNat).Nodup)
    (hRange : ∀ slot ∈ slots, ¬ server.nodeCount ≤ slot.index)
    (hReadable : ∀ slot ∈ slots, slot.Readable env server)
    (selected : Bytes × List Bytes) (hSelected : selected.1.length = env.cfg.blockSize.toNat) :
    Returns ((slots.map fun slot => (slot.index, UInt64.ofNat slot.offset)).foldlM
      (xorPathSlot env.cfg) selected) server
      fun selected' server' =>
        selected' = ((slots.map fun slot => slot.field.ciphertext).foldl XorBytes.xor selected.1,
          selected.2 ++ slots.map fun slot => slot.field.iv) ∧
        server' = { server with files := filesAfter server.files slots } := by
  induction slots generalizing server selected with
  | nil => exact Returns.pure ⟨by simp, rfl⟩
  | cons slot slots ih =>
    rw [List.map_cons, List.foldlM_cons]
    rw [List.map_cons, List.nodup_cons] at hNodup
    have hMem : slot ∈ slot :: slots := List.mem_cons_self
    have hTail : ∀ other ∈ slots, other ∈ slot :: slots :=
      fun other hOther => List.mem_cons_of_mem _ hOther
    have hSlot := hReadable slot hMem
    have hOffset := hSlot.toNat_offset
    apply (xorPathSlot_stored (hSlot.stores (hRange slot hMem)) (hOffset.symm ▸ hSlot.field)
      (hOffset.symm ▸ hSlot.valid)
      hSlot.size hSelected).bind
    rintro _ _ ⟨rfl, rfl⟩
    have hOthers : ∀ other ∈ slots, other.Readable env { server with
        files := Function.update server.files slot.index.toNat
          (some (bucketBytes (slot.bucket.touch slot.offset))) } := by
      intro other hOther
      apply (hReadable other (hTail other hOther)).congr
      apply Function.update_of_ne
      exact fun hEq => hNodup.1 (List.mem_map.mpr ⟨other, hOther, hEq⟩)
    rw [hOffset]
    refine (ih hNodup.2 ?_ hOthers _ (XorBytes.length_xor hSelected hSlot.size)).mono ?_
    · exact fun other hOther => hRange other (hTail other hOther)
    · rintro _ _ ⟨rfl, rfl⟩
      exact ⟨by simp, rfl⟩

theorem filesAfter_of_mem (hNodup : (slots.map fun slot => slot.index.toNat).Nodup)
    {files : Nat → Option Bytes}
    (hSlot : slot ∈ slots) :
    filesAfter files slots slot.index.toNat =
      some (bucketBytes (slot.bucket.touch slot.offset)) := by
  refine Updates.updateAll_of_mem ?_ (List.mem_map_of_mem hSlot)
  rwa [List.map_map]

theorem filesAfter_of_not_mem {files : Nat → Option Bytes} {b : Nat}
    (h : ∀ slot ∈ slots, slot.index.toNat ≠ b) :
    filesAfter files slots b = files b := by
  apply Updates.updateAll_of_not_mem
  rw [List.map_map, List.mem_map]
  rintro ⟨slot, hSlot, hEq⟩
  exact h slot hSlot hEq

theorem slotsRead_filesAfter (hNodup : (slots.map fun slot => slot.index.toNat).Nodup)
    (hReadable : ∀ slot ∈ slots, slot.Readable env server) :
    SlotsRead server slots { server with
      files := filesAfter server.files slots
      xorPathReadCount := server.xorPathReadCount + 1
      lastXorPathSlotCount := UInt64.ofNat slots.length } := by
  constructor
  case touched =>
    intro slot hSlot
    obtain ⟨_, _, hBytes⟩ := (hReadable slot hSlot).stored
    rw [serializeEncryptedRingBucket_eq] at hBytes
    have hFits := (length_bucketBytes_touch slot.bucket slot.offset).trans_le
      (checkSize_eq_ok hBytes).2
    exact ⟨_, filesAfter_of_mem hNodup hSlot,
      (serializeEncryptedRingBucket_eq _).trans (checkSize_of_le hFits)⟩
  case others => exact fun b hOther => filesAfter_of_not_mem hOther
  case rest => rfl

end Server

section Selection

theorem Selection.nodes (hDepth : env.cfg.depth < 63) (h : Selection env server leaf slots) :
    (slots.map fun slot => slot.index.toNat) = HeapTree.path env.cfg.depth leaf.toNat ∧
      leaf.toNat < 2 ^ env.cfg.depth := by
  have hLeaf := toNat_lt_of_getPathIndices hDepth h.path
  obtain ⟨path, hPath, hNodes⟩ := RuntimeConfig.getPathIndices_eq_ok hDepth hLeaf
  rw [h.path] at hPath
  cases hPath
  rw [List.map_map] at hNodes
  exact ⟨hNodes, hLeaf⟩

theorem Selection.inRange (hDepth : env.cfg.depth < 63)
    (hNodes : server.nodeCount = env.cfg.numTreeNodes)
    (h : Selection env server leaf slots) : ∀ slot ∈ slots, ¬ server.nodeCount ≤ slot.index := by
  obtain ⟨hPath, hLeaf⟩ := h.nodes hDepth
  intro slot hSlot
  have hNode : slot.index.toNat ∈ HeapTree.path env.cfg.depth leaf.toNat :=
    hPath ▸ List.mem_map_of_mem hSlot
  rw [hNodes, UInt64.le_iff_toNat_le, RuntimeConfig.toNat_numTreeNodes hDepth]
  exact Nat.not_le.mpr (mem_nodes.mp (mem_nodes_of_mem_path hLeaf hNode))

/-- What the server answers to the selection, and how it changes. -/
theorem handleXorPathSlots_selection (hDepth : env.cfg.depth < 63)
    (hNodes : server.nodeCount = env.cfg.numTreeNodes) (h : Selection env server leaf slots) :
    Returns (handleRequest env.cfg (.xorPathSlots leaf (UInt64.ofNat slots.length)
      (slots.map fun slot => UInt64.ofNat slot.offset))) server fun response server' =>
        response = .xorPath
          (XorBytes.total env.cfg.blockSize.toNat (slots.map fun slot => slot.field.ciphertext))
          (UInt64.ofNat slots.length) (slots.map fun slot => slot.field.iv) ∧
          SlotsRead server slots server' := by
  obtain ⟨hPath, hLeaf⟩ := h.nodes hDepth
  have hNodup : (slots.map fun slot => slot.index.toNat).Nodup := hPath ▸ HeapTree.nodup_path hLeaf
  have hRange := h.inRange hDepth hNodes
  have hZip : (slots.map PathSlot.index).zip (slots.map fun slot => UInt64.ofNat slot.offset) =
      slots.map fun slot => (slot.index, UInt64.ofNat slot.offset) := List.zip_map' ..
  change Returns (handleXorPathSlots env.cfg leaf _ _) server _
  apply (validateInitialized_stored hNodes).bind
  rintro _ server rfl
  apply Returns.ok_bind h.path
  refine Returns.check_bind (by rw [List.length_map]; exact not_not.mpr rfl) ?_
  rw [hZip]
  apply (xorPathSlots_run hNodup hRange h.readable _ List.length_replicate).bind
  rintro _ _ ⟨rfl, rfl⟩
  refine Returns.modify_bind (Returns.pure ⟨?_, slotsRead_filesAfter hNodup h.readable⟩)
  simp [XorBytes.total, XorBytes.zero]

/-- What the flagged slot decrypts to. -/
def targetData (env : Env) (slots : List PathSlot) : Except Exception (Option Bytes) :=
  match slots.find? PathSlot.target with
  | none => return none
  | some slot => do
    let data ← env.cipher.decrypt slot.field.ciphertext slot.field.iv
    return some data

theorem unmask_selection (h : Selection env server leaf slots) : ∃ ciphertext iv,
    ((slots.map PathSlot.target).zip (slots.map fun slot => slot.field.iv)).foldlM (unmaskSlot env)
      (XorBytes.total env.cfg.blockSize.toNat (slots.map fun slot => slot.field.ciphertext), none) =
        .ok (ciphertext, iv) ∧
    targetData env slots = match iv with
      | none => return none
      | some iv => do
        let data ← env.cipher.decrypt ciphertext iv
        return some data := by
  have hUnmask := unmask_total PathSlot.field PathSlot.target slots (fun slot hSlot =>
    (h.readable slot hSlot).size)
    (fun slot hSlot => (h.readable slot hSlot).dummy) h.target
  rw [List.zip_map', hUnmask]
  refine ⟨_, _, rfl, ?_⟩
  have hFirst : slots.find? PathSlot.target = (slots.filter PathSlot.target).head? :=
    List.head?_filter.symm
  rw [targetData, hFirst]
  match hTargets : slots.filter PathSlot.target with
  | [] => rfl
  | [slot] =>
    have hSlot : slot ∈ slots := List.mem_of_mem_filter (hTargets ▸ List.mem_singleton_self slot)
    have hOne : XorBytes.total env.cfg.blockSize.toNat [slot.field.ciphertext] =
        slot.field.ciphertext :=
      XorBytes.zero_xor (h.readable slot hSlot).size
    simp only [List.map_singleton, hOne, List.head?_cons]
  | slot :: other :: rest =>
    have hTarget := h.target
    rw [hTargets] at hTarget
    simp at hTarget

theorem fetchXorPath_outcome (hDepth : env.cfg.depth < 63) (hRunning : w.server.running = true)
    (hNodes : w.server.nodeCount = env.cfg.numTreeNodes) (h : Selection env w.server leaf slots) :
    wp (fetchXorPath env leaf (slots.map PathSlot.offset) (slots.map PathSlot.target)) w
      (fun data w' => targetData env slots = .ok data ∧ PathRead w slots w')
      fun e w' => targetData env slots = .error e ∧ PathRead w slots w' := by
  obtain ⟨_, server, hRun, rfl, hRead⟩ :=
    returns_iff.mp (handleXorPathSlots_selection hDepth hNodes h)
  obtain ⟨ciphertext, iv, hUnmask, hData⟩ := unmask_selection h
  have hPathRead : ∀ event, PathRead w slots { w with server := server, log := w.log ++ [event] } :=
    fun event => ⟨hRead, event, rfl⟩
  have hTotal : (XorBytes.total env.cfg.blockSize.toNat (slots.map fun slot =>
      slot.field.ciphertext)).length =
      env.cfg.blockSize.toNat := by
    apply XorBytes.length_total
    intro string hString
    obtain ⟨slot, hSlot, rfl⟩ := List.mem_map.mp hString
    exact (h.readable slot hSlot).size
  have hRequest : Request.xorPathSlots leaf (UInt64.ofNat (slots.map PathSlot.offset).length)
      ((slots.map PathSlot.offset).map UInt64.ofNat) =
        .xorPathSlots leaf (UInt64.ofNat slots.length) (slots.map fun slot =>
          UInt64.ofNat slot.offset) := by
    rw [List.length_map, List.map_map]
    rfl
  apply wp.check_bind
  · exact fun hLengths => absurd (by rw [List.length_map, List.length_map]) hLengths
  intro _
  rw [hRequest]
  apply (Returns.of_run (roundTrip_run hRunning hRun) ⟨rfl, rfl⟩ :
    Returns _ _ fun response w' => response = _ ∧ w' = _).outcome_bind
  rintro _ _ ⟨rfl, rfl⟩
  apply wp.check_bind
  · exact fun hSize => absurd hTotal hSize
  intro _
  apply wp.check_bind
  · exact fun hCount => absurd (by rw [List.length_map]) hCount
  intro _
  apply wp.ok_bind hUnmask
  rw [hData]
  cases iv with
  | none => exact wp.pure ⟨rfl, hPathRead _⟩
  | some iv =>
    apply wp.fromExcept_bind
    · intro e hError
      refine ⟨?_, hPathRead _⟩
      simp only [hError]
      rfl
    · intro data hOk
      refine wp.pure ⟨?_, hPathRead _⟩
      simp only [hOk]
      rfl

end Selection

section Download

theorem downloadSlot_outcome (hRunning : w.server.running = true)
    (hNodes : w.server.nodeCount = env.cfg.numTreeNodes)
    (hSlot : slot.Readable env w.server) (hRange : ¬ w.server.nodeCount ≤ slot.index) :
    wp (downloadSlot env slot) w
      (fun data _ => env.cipher.decrypt slot.field.ciphertext slot.field.iv = .ok data)
      fun e _ => env.cipher.decrypt slot.field.ciphertext slot.field.iv = .error e := by
  have hStores := hSlot.stores hRange
  obtain ⟨_, server, hRun, rfl, _⟩ := returns_iff.mp (handleReadBucket_stored hNodes hStores)
  have hRead : Returns (readEncryptedBucketFromServer env slot.index) w fun bucket _ =>
      bucket = slot.bucket := by
    have hTrip := @roundTrip_run env w (.readBucket slot.index) _ _ hRunning hRun
    apply (Returns.of_run hTrip rfl : Returns _ _ fun response _ => response = _).bind
    rintro _ _ rfl
    exact Returns.fromExcept (deserializeEncryptedRingBucket_bytes hStores.held hStores.fits) rfl
  apply hRead.outcome_bind
  rintro _ w' rfl
  simp only [hSlot.field]
  change wp (fromExcept (env.cipher.decrypt slot.field.ciphertext slot.field.iv)) w' _ _
  cases env.cipher.decrypt slot.field.ciphertext slot.field.iv with
  | ok data => exact (wp_fromExcept_ok data).mpr rfl
  | error e => exact (wp_fromExcept_error e).mpr rfl

theorem downloadTarget_outcome (hDepth : env.cfg.depth < 63) (hRunning : w.server.running = true)
    (hNodes : w.server.nodeCount = env.cfg.numTreeNodes) (h : Selection env w.server leaf slots) :
    wp (downloadTarget env slots) w (fun data _ => targetData env slots = .ok data)
      fun e _ => targetData env slots = .error e := by
  rw [downloadTarget, targetData]
  cases hFind : slots.find? PathSlot.target with
  | none => exact wp.pure rfl
  | some slot =>
    have hSlot := List.mem_of_find?_eq_some hFind
    refine wp.bind (wp_mono
      (downloadSlot_outcome hRunning hNodes (h.readable slot hSlot)
        (h.inRange hDepth hNodes slot hSlot))
      (fun _ _ => id) ?_) ?_
    · intro e _ hError
      simp only [hError]
      rfl
    · intro data _ hOk
      simp only [hOk]
      exact wp.pure rfl

end Download

/-- Reading a path by XOR gives what downloading the flagged slot and decrypting it gives, or
nothing if no slot is flagged, and uses up one slot of each bucket of the path. -/
theorem fetchXorPath_eq_download (hConfig : validateConfig env.cfg = .ok ())
    (hRunning : w.server.running = true)
    (hNodes : w.server.nodeCount = env.cfg.numTreeNodes) (h : Selection env w.server leaf slots) :
    wp (fetchXorPath env leaf (slots.map PathSlot.offset) (slots.map PathSlot.target)) w
      (fun data w' => (∃ w'', (downloadTarget env slots).run w = .ok data w'') ∧
        PathRead w slots w')
      fun e w' => (∃ w'', (downloadTarget env slots).run w = .error e w'') ∧
      PathRead w slots w' := by
  have hDepth := depth_of_validateConfig hConfig
  obtain ⟨hOk, hError⟩ := run_of_outcome (downloadTarget_outcome hDepth hRunning hNodes h)
  apply wp_mono (fetchXorPath_outcome hDepth hRunning hNodes h)
  · exact fun data w' hRead => ⟨hOk data hRead.1, hRead.2⟩
  · exact fun e w' hRead => ⟨hError e hRead.1, hRead.2⟩

section Small

/-- A bucket with one block and one dummy, both under the IV of zeros. -/
def smallBucket (data : UInt8) : EncryptedRingBucket where
  count := 0
  valids := [true, true]
  addrs := [⟨List.replicate 16 0, List.replicate 8 0⟩]
  leaves := [⟨List.replicate 16 0, List.replicate 8 0⟩]
  ptrs := [⟨List.replicate 16 0, List.replicate 8 0⟩]
  data := [⟨List.replicate 16 0, [data]⟩, ⟨List.replicate 16 0, [0]⟩]

theorem held_smallBucket (data : UInt8) : (smallBucket data).Held := by
  refine ⟨?_, ?_, ?_, ?_⟩ <;> exact Nat.le_of_ble_eq_true rfl

/-- Three such buckets. -/
def smallWorld : World where
  server := { files := fun _ => some (bucketBytes (smallBucket 7)), nodeCount := 3 }

/-- The dummy of the root and the block below it. -/
def smallSlots : List PathSlot :=
  [⟨0, smallBucket 7, 1, ⟨List.replicate 16 0, [0]⟩, false⟩,
    ⟨1, smallBucket 7, 0, ⟨List.replicate 16 0, [7]⟩, true⟩]

theorem selection_small : Selection .small smallWorld.server 0 smallSlots := by
  have hStored : ∀ b, ∃ bytes, smallWorld.server.files b = some bytes ∧
      serializeEncryptedRingBucket (smallBucket 7) = .ok bytes := fun _ =>
    ⟨_, rfl, (serializeEncryptedRingBucket_eq _).trans (checkSize_of_le (by decide +kernel))⟩
  constructor
  case path => decide
  case readable =>
    intro slot hSlot
    obtain rfl | rfl := List.mem_pair.mp hSlot
    · exact ⟨hStored _, held_smallBucket 7, by decide, rfl, rfl, rfl, fun _ => rfl⟩
    · exact ⟨hStored _, held_smallBucket 7, by decide, rfl, rfl, rfl, nofun⟩
  case target => decide

theorem fetchXorPath_eq_download_small :
    wp (fetchXorPath .small 0 [1, 0] [false, true]) smallWorld
      (fun data w' => (∃ w'', (downloadTarget .small smallSlots).run smallWorld = .ok data w'') ∧
        PathRead smallWorld smallSlots w')
      fun e w' => (∃ w'', (downloadTarget .small smallSlots).run smallWorld = .error e w'') ∧
        PathRead smallWorld smallSlots w' :=
  fetchXorPath_eq_download (by decide) rfl (by decide) selection_small

/-- The buckets are not all that changes: the server also counts the read and its slots. -/
theorem statistics_change : Selection .small smallWorld.server 0 smallSlots ∧ ∃ data w',
    (fetchXorPath .small 0 [1, 0] [false, true]).run smallWorld = .ok data w' ∧
      w'.server.xorPathReadCount ≠ smallWorld.server.xorPathReadCount := by
  refine ⟨selection_small, ?_⟩
  have hOutcome := wp_iff.mp (fetchXorPath_outcome (by decide) rfl (by decide) selection_small)
  have hData : targetData .small smallSlots = .ok (some [7]) := by decide
  cases hRun : (fetchXorPath .small 0 [1, 0] [false, true]).run smallWorld with
  | ok data w' =>
    have hCount := congrArg Server.xorPathReadCount (hOutcome.1 data w' hRun).2.server.rest
    refine ⟨data, w', rfl, ?_⟩
    rw [hCount]
    exact (by decide : (1 : UInt64) ≠ 0)
  | error e w' =>
    have hError := (hOutcome.2 e w' hRun).1
    rw [hData] at hError
    cases hError

end Small

end OramHub.RingOram
