import OramHub.RingOram.History

/-! # No slot is read twice

Between two writes of a bucket the server invalidates exactly the slots that have been read, so that
each can be read once, and the schedule stops the reads after `s` of them.
-/
namespace OramHub.RingOram
open OramHub.Core OramHub.Program
set_option autoImplicit false

section Events

variable (cfg : RuntimeConfig)

/-- The offsets that an `X` request selects in bucket `b`. -/
def Event.touches (b : Nat) (event : Event) : List Nat :=
  match event.request with
  | .xorPathSlots leaf _ offsets =>
    match cfg.getPathIndices leaf with
    | .ok path =>
      ((path.zip offsets).filter fun slot => slot.1.toNat == b).map fun slot => slot.2.toNat
    | .error _ => []
  | _ => []

/-- An `X` request for a path through bucket `b`. -/
def Event.visits (b : Nat) (event : Event) : Bool :=
  match event.request with
  | .xorPathSlots leaf _ _ =>
    match cfg.getPathIndices leaf with
    | .ok path => path.any fun node => node.toNat == b
    | .error _ => false
  | _ => false

/-- The initial upload, or a `W` request for bucket `b`. -/
def Event.writes (b : Nat) (event : Event) : Bool :=
  match event.request with
  | .init _ _ => true
  | .writeBucket bucketIdx _ => bucketIdx.toNat == b
  | _ => false

/-- The offsets read in bucket `b` since its last write. -/
def readSinceWrite (b : Nat) (log : List Event) : List Nat :=
  log.foldl (fun read event => if event.writes b then [] else read ++ event.touches cfg b) []

def storedBucket (files : Nat → Option Bytes) (b : Nat) : Option EncryptedRingBucket :=
  match files b with
  | none => none
  | some bytes => (deserializeEncryptedRingBucket bytes).toOption

/-- The bucket files that a request meets. -/
def filesBefore (bucketFiles : Nat → Option Bytes) (log : List Event) : Nat → Option Bytes :=
  match log.getLast? with
  | none => bucketFiles
  | some event => event.files

/-- The slots of bucket `b` that have been read are the invalid ones, and `count` counts them. -/
structure Used (files : Nat → Option Bytes) (b : Nat) (read : List Nat) : Prop where
  nodup : read.Nodup
  lt : ∀ offset ∈ read, offset < cfg.bucketSlots.toNat
  stored : ∃ bucket, storedBucket files b = some bucket ∧ bucket.count = UInt64.ofNat read.length ∧
    bucket.valids.length = cfg.bucketSlots.toNat ∧
    ∀ offset < cfg.bucketSlots.toNat, bucket.valids[offset]? = some (decide (offset ∉ read))

end Events

variable {cfg : RuntimeConfig} {server server' : Server} {response : Response}
  {b : Nat} {read : List Nat}

section Buckets

variable {files : Nat → Option Bytes}

theorem storedBucket_eq {bytes : Bytes} {bucket : EncryptedRingBucket}
    (hFile : files b = some bytes) (hBucket : deserializeEncryptedRingBucket bytes = .ok bucket) :
    storedBucket files b = some bucket := by
  rw [storedBucket, hFile]
  exact congrArg Except.toOption hBucket

theorem Used.congr {files' : Nat → Option Bytes} (h : Used cfg files b read)
    (hFiles : files' b = files b) : Used cfg files' b read := by
  refine ⟨h.nodup, h.lt, ?_⟩
  rw [storedBucket, hFiles]
  exact h.stored

theorem used_of_fresh {bytes : Bytes} (hFresh : FreshBucket cfg bytes)
    (hFile : files b = some bytes) : Used cfg files b [] := by
  obtain ⟨bucket, hHeld, hBytes, hCount, hValids⟩ := hFresh
  refine ⟨List.nodup_nil, fun _ hOffset => absurd hOffset List.not_mem_nil, bucket, ?_, hCount, ?_,
    fun offset hOffset => ?_⟩
  · exact storedBucket_eq hFile (deserializeEncryptedRingBucket_serialize hHeld hBytes)
  · rw [hValids, List.length_replicate]
  · rw [hValids, List.getElem?_replicate, if_pos hOffset, decide_eq_true List.not_mem_nil]

theorem Used.slotRead {selected selected' : Bytes × List Bytes} {slot : UInt64 × UInt64}
    (h : Used cfg server.files b read)
    (hRead : SlotRead cfg server selected slot selected' server') :
    Used cfg server'.files b (read ++ if slot.1.toNat = b then [slot.2.toNat] else []) := by
  obtain ⟨stored, bucket, field, bytes, hFile, hBucket, _, hValid, _, _, _, hBytes, rfl⟩ := hRead
  by_cases hSame : slot.1.toNat = b
  · subst hSame
    obtain ⟨other, hOther, hCount, hLength, hValids⟩ := h.stored
    obtain rfl : bucket = other :=
      Option.some.inj ((storedBucket_eq hFile hBucket).symm.trans hOther)
    have hLt : slot.2.toNat < cfg.bucketSlots.toNat :=
      hLength ▸ (List.getElem?_eq_some_iff.mp hValid).1
    have hFreshOffset : slot.2.toNat ∉ read := by
      rw [hValids _ hLt] at hValid
      exact of_decide_eq_true (Option.some.inj hValid)
    have hHeld := held_touch (held_of_deserialize hBucket) slot.2.toNat
    rw [if_pos rfl]
    refine ⟨?_, ?_, _, storedBucket_eq (Function.update_self _ _ _)
      (deserializeEncryptedRingBucket_serialize hHeld hBytes), ?_, ?_, ?_⟩
    · exact List.nodup_append.mpr ⟨h.nodup, List.nodup_singleton _,
        fun offset hOffset other hOther hEq =>
        hFreshOffset (List.mem_singleton.mp hOther ▸ hEq ▸ hOffset)⟩
    · intro offset hOffset
      obtain hOld | hNew := List.mem_append.mp hOffset
      · exact h.lt offset hOld
      · exact List.mem_singleton.mp hNew ▸ hLt
    · change bucket.count + 1 = _
      rw [hCount, List.length_append, UInt64.ofNat_add]
      rfl
    · exact List.length_set.trans hLength
    · intro offset hOffset
      change (bucket.valids.set slot.2.toNat false)[offset]? = _
      rw [List.getElem?_set]
      by_cases hEq : slot.2.toNat = offset
      · rw [if_pos hEq, if_pos (hLength ▸ hLt), ← hEq,
          decide_eq_false (fun hNot => hNot (List.mem_append_right _ List.mem_cons_self))]
      · rw [if_neg hEq, hValids offset hOffset]
        have hIff : offset ∉ read ++ [slot.2.toNat] ↔ offset ∉ read := by
          rw [List.mem_append, List.mem_singleton, not_or]
          exact and_iff_left (Ne.symm hEq)
        rw [decide_eq_decide.mpr hIff]
  · rw [if_neg hSame, List.append_nil]
    exact h.congr (Function.update_of_ne (Ne.symm hSame) _ _)

theorem Used.xorPathSlots {slots : List (UInt64 × UInt64)} {selected selected' : Bytes × List Bytes}
    (h : Used cfg server.files b read)
    (hRun : (slots.foldlM (xorPathSlot cfg) selected).run server = .ok selected' server') :
    Used cfg server'.files b (read ++ (slots.filter fun slot => slot.1.toNat == b).map fun slot =>
      slot.2.toNat) := by
  induction slots generalizing server selected read with
  | nil =>
    cases hRun
    rwa [List.filter_nil, List.map_nil, List.append_nil]
  | cons slot slots ih =>
    rw [List.foldlM_cons] at hRun
    obtain ⟨middle, _, hHead, hRest⟩ := run_bind_eq_ok hRun
    have hTail := ih (h.slotRead (xorPathSlot_eq_ok hHead)) hRest
    rw [List.append_assoc] at hTail
    by_cases hSame : slot.1.toNat = b
    · rw [List.filter_cons_of_pos (by rw [hSame, beq_self_eq_true]), List.map_cons]
      rwa [if_pos hSame, List.singleton_append] at hTail
    · rw [List.filter_cons_of_neg (by rwa [beq_iff_eq])]
      rwa [if_neg hSame, List.nil_append] at hTail

end Buckets

section Requests

theorem readMetadata_unchanged {path : List UInt64} {sent payloads : List Bytes}
    (hRun : (path.foldlM (readMetadataOf cfg) sent).run server = .ok payloads server') : server' =
      server := by
  induction path generalizing sent with
  | nil =>
    cases hRun
    rfl
  | cons bucketIdx path ih =>
    rw [List.foldlM_cons] at hRun
    obtain ⟨_, _, hHead, hRest⟩ := run_bind_eq_ok hRun
    obtain ⟨bucket, _, hRead, hHead₁⟩ := run_bind_eq_ok hHead
    obtain ⟨rfl, _⟩ := readBucketFromDisk_eq_ok hRead
    obtain ⟨bytes, _, hSerialize, hReturn⟩ := run_bind_eq_ok hHead₁
    obtain ⟨_, rfl⟩ := run_fromExcept_eq_ok hSerialize
    cases hReturn
    exact ih hRest

theorem freshBucket_of_store {bytes : Bytes} {bucket : EncryptedRingBucket} {bucketIdx : UInt64}
    (hFresh : FreshBucket cfg bytes) (hBucket : deserializeEncryptedRingBucket bytes = .ok bucket)
    (hWrite : (writeBucketToDisk cfg bucketIdx bucket).run server = .ok () server') :
    ∃ stored, FreshBucket cfg stored ∧
      server' = { server with
        files := Function.update server.files bucketIdx.toNat (some stored) } := by
  obtain ⟨original, hHeld, hBytes, hHeader⟩ := hFresh
  obtain rfl : original = bucket :=
    Except.ok.inj ((deserializeEncryptedRingBucket_serialize hHeld hBytes).symm.trans hBucket)
  obtain ⟨_, stored, hStored, rfl⟩ := writeBucketToDisk_eq_ok hWrite
  exact ⟨stored, ⟨original, hHeld, hStored, hHeader⟩, rfl⟩

theorem initBuckets_used {buckets : List Bytes} (hFresh : ∀ bytes ∈ buckets, FreshBucket cfg bytes)
    (count : Nat) (hCount : count ≤ 2 ^ 64)
    (hRun : (forM (List.range count) (initBucket cfg buckets)).run server = .ok () server') :
    server'.nodeCount = server.nodeCount ∧ ∀ i < count, Used cfg server'.files i [] := by
  induction count generalizing server' with
  | zero =>
    cases hRun
    exact ⟨rfl, fun i hi => absurd hi (Nat.not_lt_zero i)⟩
  | succ count ih =>
    rw [List.range_succ, List.forM_append] at hRun
    obtain ⟨_, middle, hFirst, hLast⟩ := run_bind_eq_ok hRun
    obtain ⟨hNodes, hUsed⟩ := ih (Nat.le_of_succ_le hCount) hFirst
    obtain ⟨_, _, hOne, hNil⟩ := run_bind_eq_ok hLast
    cases hNil
    unfold initBucket at hOne
    split at hOne
    case h_1 => cases hOne
    case h_2 bytes hGet =>
      obtain ⟨bucket, _, hParse, hOne₁⟩ := run_bind_eq_ok hOne
      obtain ⟨hBucket, rfl⟩ := run_fromExcept_eq_ok hParse
      obtain ⟨_, _, hCheck, hWrite⟩ := run_bind_eq_ok hOne₁
      obtain ⟨_, rfl⟩ := run_throwIf_eq_ok hCheck
      obtain ⟨stored, hStored, rfl⟩ :=
        freshBucket_of_store (hFresh bytes (List.mem_of_getElem? hGet)) hBucket hWrite
      have hIndex : (UInt64.ofNat count).toNat = count := UInt64.toNat_ofNat_of_lt' hCount
      refine ⟨hNodes, fun i hi => ?_⟩
      rcases eq_or_ne i count with rfl | hNe
      · apply used_of_fresh hStored
        change Function.update _ _ _ i = _
        rw [hIndex, Function.update_self]
      · apply (hUsed i (by omega)).congr
        change Function.update _ _ _ i = _
        rw [hIndex, Function.update_of_ne hNe]

/-- What the server knows of the reads in `log`. -/
structure Tracked (cfg : RuntimeConfig) (log : List Event) (server : Server) : Prop where
  uninitialized : server.nodeCount ≠ cfg.numTreeNodes → ∀ b, readSinceWrite cfg b log = []
  used : server.nodeCount = cfg.numTreeNodes → ∀ b < cfg.numTreeNodes.toNat,
    Used cfg server.files b (readSinceWrite cfg b log)

theorem readSinceWrite_append (cfg : RuntimeConfig) (b : Nat) (log : List Event) (event : Event) :
    readSinceWrite cfg b (log ++ [event]) = if event.writes b then [] else readSinceWrite cfg b
      log ++ event.touches cfg b :=
  List.foldl_append

theorem Tracked.of_unchanged {log : List Event} {event : Event} (h : Tracked cfg log server)
    (hWrites : ∀ b, event.writes b = false) (hTouches : ∀ b, event.touches cfg b = []) :
    Tracked cfg (log ++ [event]) server := by
  have hSame : ∀ b, readSinceWrite cfg b (log ++ [event]) = readSinceWrite cfg b log := by
    intro b
    rw [readSinceWrite_append, hWrites, hTouches, List.append_nil]
    rfl
  constructor
  case uninitialized => exact fun hNodes b => (hSame b).trans (h.uninitialized hNodes b)
  case used =>
    intro hNodes b hb
    rw [hSame]
    exact h.used hNodes b hb

theorem Tracked.handle {log : List Event} {event : Event} (h : Tracked cfg log server)
    (hSent : event.request.Sent cfg)
    (hRun : (handleRequest cfg event.request).run server = .ok event.response server') :
    Tracked cfg (log ++ [event]) server' := by
  obtain ⟨request, response, files⟩ := event
  cases request with
  | init nodeCount buckets =>
    obtain ⟨hNodes, _, hLoop⟩ := handleInit_eq_ok hRun
    obtain ⟨hCount, hUsed⟩ := initBuckets_used hSent.2 _ (UInt64.toNat_lt nodeCount).le hLoop
    have hNodeCount : server'.nodeCount = cfg.numTreeNodes := hCount.trans hNodes
    constructor
    case uninitialized => exact fun hNot => absurd hNodeCount hNot
    case used =>
      intro _ b hb
      rw [readSinceWrite_append]
      exact hUsed b (hNodes ▸ hb)
  | readPathMetadata leaf =>
    obtain ⟨_, path, payloads, _, hLoop, _⟩ := handleReadPathMetadata_eq_ok hRun
    obtain rfl := readMetadata_unchanged hLoop
    exact h.of_unchanged (fun _ => rfl) fun _ => rfl
  | xorPathSlots leaf offsetCount offsets =>
    obtain ⟨hNodes, path, selected, server₁, hPath, _, hLoop, _, rfl⟩ :=
      handleXorPathSlots_eq_ok hRun
    constructor
    case uninitialized =>
      exact fun hNot =>
        absurd ((congrArg Server.nodeCount (xorPathSlots_frame hLoop)).trans hNodes) hNot
    case used =>
      intro _ b hb
      have hTouches (answer : Response) :
          Event.touches cfg b ⟨.xorPathSlots leaf offsetCount offsets, answer, files⟩ =
          ((path.zip offsets).filter fun slot => slot.1.toNat == b).map fun slot =>
            slot.2.toNat := by
        simp only [Event.touches, hPath]
      rw [readSinceWrite_append, hTouches]
      have hUsed := (h.used hNodes b hb).xorPathSlots hLoop
      exact hUsed
  | readBucket bucketIdx =>
    obtain ⟨_, rfl, _⟩ := handleReadBucket_eq_ok hRun
    exact h.of_unchanged (fun _ => rfl) fun _ => rfl
  | writeBucket bucketIdx bytes =>
    obtain ⟨hNodes, rfl, bucket, hBucket, _, hWrite⟩ := handleWriteBucket_eq_ok hRun
    obtain ⟨stored, hStored, rfl⟩ := freshBucket_of_store hSent hBucket hWrite
    constructor
    case uninitialized => exact fun hNot => absurd hNodes hNot
    case used =>
      intro _ b hb
      have hWrites : Event.writes b ⟨.writeBucket bucketIdx bytes, .ack, files⟩ =
          (bucketIdx.toNat == b) := rfl
      rw [readSinceWrite_append, hWrites]
      by_cases hSame : bucketIdx.toNat = b
      · rw [if_pos (beq_iff_eq.mpr hSame)]
        apply used_of_fresh hStored
        change Function.update _ bucketIdx.toNat _ b = _
        rw [hSame, Function.update_self]
      · rw [if_neg (fun hEq => hSame (beq_iff_eq.mp hEq)), Event.touches, List.append_nil]
        exact (h.used hNodes b hb).congr (Function.update_of_ne (Ne.symm hSame) _ _)
  | readBucketCount bucketIdx =>
    obtain ⟨_, rfl, _⟩ := handleReadBucketCount_eq_ok hRun
    exact h.of_unchanged (fun _ => rfl) fun _ => rfl
  | readStats =>
    cases hRun
    exact h.of_unchanged (fun _ => rfl) fun _ => rfl

end Requests

section Runs

variable {env : Env} {bucketFiles : Nat → Option Bytes} {start : Server}
  {log before segment : List Event} {event : Event} {w : World}

theorem History.tracked (hNodes : start.nodeCount ≠ cfg.numTreeNodes)
    (h : History cfg start log server) : Tracked cfg log server := by
  induction h with
  | nil =>
    constructor
    case uninitialized => exact fun _ _ => rfl
    case used => exact fun hEq => absurd hEq hNodes
  | snoc _ hSent hRun _ ih => exact ih.handle hSent hRun

/-- Without a write, what has been read grows by what the requests touch. -/
theorem readSinceWrite_segment (cfg : RuntimeConfig) (before : List Event)
    (hQuiet : ∀ event ∈ segment, event.writes b = false) :
    readSinceWrite cfg b (before ++ segment) = readSinceWrite cfg b before ++
      segment.flatMap (Event.touches cfg b) := by
  induction segment using List.reverseRecOn with
  | nil => rw [List.append_nil, List.flatMap_nil, List.append_nil]
  | append_singleton segment event ih =>
    have hLast : event.writes b = false := hQuiet event (List.mem_append_right _ List.mem_cons_self)
    rw [← List.append_assoc, readSinceWrite_append, hLast, ih fun other hOther =>
      hQuiet other (List.mem_append_left _ hOther),
      List.flatMap_append, List.flatMap_singleton, ← List.append_assoc]
    rfl

theorem Used.length_lt (h : Used cfg server.files b read) : read.length < 2 ^ 64 := by
  have hBound : read.length ≤ cfg.bucketSlots.toNat := by
    have hSubset : read.toFinset ⊆ Finset.range cfg.bucketSlots.toNat := fun offset hOffset =>
      Finset.mem_range.mpr (h.lt offset (List.mem_toFinset.mp hOffset))
    calc
      read.length = read.toFinset.card := (List.toFinset_card_of_nodup h.nodup).symm
      _ ≤ (Finset.range cfg.bucketSlots.toNat).card := Finset.card_le_card hSubset
      _ = cfg.bucketSlots.toNat := Finset.card_range _
  exact hBound.trans_lt (UInt64.toNat_lt _)

theorem Used.length_le (h : Used cfg server.files b read) (hSnapshot : SnapshotOk cfg server.files)
    (hb : b ∈ cfg.nodes) :
    read.length ≤ cfg.s.toNat := by
  obtain ⟨bytes, bucket, hFile, hBucket, _, hCount⟩ := hSnapshot b hb
  obtain ⟨other, hOther, hLength, _⟩ := h.stored
  obtain rfl : bucket = other := Option.some.inj ((storedBucket_eq hFile hBucket).symm.trans hOther)
  rwa [hLength, UInt64.toNat_ofNat_of_lt' h.length_lt] at hCount

/-- An `X` request selects one slot in each bucket of its path, and none elsewhere. -/
theorem length_touches (hDepth : cfg.depth < 63) (hSent : event.request.Sent cfg)
    (hRun : (handleRequest cfg event.request).run server = .ok event.response server') :
    (event.touches cfg b).length = if event.visits cfg b then 1 else 0 := by
  obtain ⟨request, response, files⟩ := event
  cases request with
  | xorPathSlots leaf offsetCount offsets =>
    obtain ⟨_, path, _, _, hPath, hCount, _⟩ := handleXorPathSlots_eq_ok hRun
    have hLengths : path.length ≤ offsets.length := by
      rw [← toNat_length_path hDepth hPath, ← hCount]
      exact hSent.le
    have hNodup : (path.map UInt64.toNat).Nodup := by
      have hLeaf : leaf.toNat < 2 ^ cfg.depth := toNat_lt_of_getPathIndices hDepth hPath
      obtain ⟨path', hPath', hNodes⟩ := RuntimeConfig.getPathIndices_eq_ok hDepth hLeaf
      obtain rfl : path = path' := Except.ok.inj (hPath.symm.trans hPath')
      rw [hNodes]
      exact HeapTree.nodup_path hLeaf
    have hVisits : Event.visits cfg b ⟨.xorPathSlots leaf offsetCount offsets, response, files⟩ =
        path.any fun node => node.toNat == b := by
      simp only [Event.visits, hPath]
    have hTouches : Event.touches cfg b ⟨.xorPathSlots leaf offsetCount offsets, response, files⟩ =
        ((path.zip offsets).filter fun slot => slot.1.toNat == b).map fun slot => slot.2.toNat := by
      simp only [Event.touches, hPath]
    rw [hVisits, hTouches, List.length_map, ← List.countP_eq_length_filter]
    calc
      (path.zip offsets).countP (fun slot => slot.1.toNat == b)
        = ((path.zip offsets).map Prod.fst).countP fun node => node.toNat == b := by
          rw [List.countP_map]; rfl
      _ = path.countP fun node => node.toNat == b := by rw [List.map_fst_zip hLengths]
      _ = (path.map UInt64.toNat).count b := by rw [List.count, List.countP_map]; rfl
      _ = if b ∈ path.map UInt64.toNat then 1 else 0 := hNodup.count
      _ = if path.any fun node => node.toNat == b then 1 else 0 := by simp [List.any_eq_true]
  | _ => rfl

/-- No slot of a bucket is read twice between two writes of the bucket. -/
structure SlotsUsedOnce (cfg : RuntimeConfig) (bucketFiles : Nat → Option Bytes)
    (log : List Event) : Prop where
  /-- An `X` request for a path through the bucket selects one slot of it. -/
  single : ∀ b, ∀ event ∈ log, (event.touches cfg b).length = if event.visits cfg b then 1 else 0
  few : ∀ b < cfg.numTreeNodes.toNat, ∀ before segment after, log = before ++ segment ++ after →
    (∀ event ∈ segment, event.writes b = false) →
    (segment.filter (Event.visits cfg b)).length ≤ cfg.s.toNat
  distinct : ∀ b < cfg.numTreeNodes.toNat, ∀ before segment after,
    log = before ++ segment ++ after →
    (∀ event ∈ segment, event.writes b = false) → (segment.flatMap (Event.touches cfg b)).Nodup
  valid : ∀ b < cfg.numTreeNodes.toNat, ∀ before event after, log = before ++ event :: after →
    ∀ offset ∈ event.touches cfg b, offset < cfg.z.toNat + cfg.s.toNat ∧
      ∃ bucket, storedBucket (filesBefore bucketFiles before) b = some bucket ∧
      bucket.valids[offset]? = some true
  resets : ∀ event ∈ log, ∀ bucketIdx bytes, event.request = .writeBucket bucketIdx bytes →
    bucketIdx < cfg.numTreeNodes ∧
    ∃ bucket, storedBucket event.files bucketIdx.toNat = some bucket ∧ bucket.count = 0 ∧
      bucket.valids = List.replicate (cfg.z.toNat + cfg.s.toNat) true

theorem History.length_le (hNodes : start.nodeCount ≠ cfg.numTreeNodes) (hDepth : cfg.depth < 63)
    (h : History cfg start log server)
    (hSnapshots : ∀ event ∈ log, SnapshotOk cfg event.files) (hb : b < cfg.numTreeNodes.toNat) :
    (readSinceWrite cfg b log).length ≤ cfg.s.toNat := by
  have hTracked := h.tracked hNodes
  by_cases hInitialized : server.nodeCount = cfg.numTreeNodes
  · cases log using List.reverseRecOn with
    | nil => exact Nat.zero_le _
    | append_singleton log event =>
      have hSnapshot := hSnapshots event (List.mem_append_right _ List.mem_cons_self)
      rw [h.files_eq] at hSnapshot
      rw [RuntimeConfig.toNat_numTreeNodes hDepth] at hb
      exact (hTracked.used hInitialized b (RuntimeConfig.toNat_numTreeNodes hDepth ▸ hb)).length_le
        hSnapshot (mem_nodes.mpr hb)
  · rw [hTracked.uninitialized hInitialized]
    exact Nat.zero_le _

theorem History.nodup (hNodes : start.nodeCount ≠ cfg.numTreeNodes)
    (h : History cfg start log server)
    (hb : b < cfg.numTreeNodes.toNat) : (readSinceWrite cfg b log).Nodup := by
  have hTracked := h.tracked hNodes
  by_cases hInitialized : server.nodeCount = cfg.numTreeNodes
  · exact (hTracked.used hInitialized b hb).nodup
  · rw [hTracked.uninitialized hInitialized]
    exact List.nodup_nil

theorem History.read_lt (hNodes : start.nodeCount ≠ cfg.numTreeNodes)
    (h : History cfg start log server)
    (hb : b < cfg.numTreeNodes.toNat) {offset : Nat} (hOffset : offset ∈ readSinceWrite cfg b log) :
    offset < cfg.bucketSlots.toNat := by
  have hTracked := h.tracked hNodes
  by_cases hInitialized : server.nodeCount = cfg.numTreeNodes
  · exact (hTracked.used hInitialized b hb).lt offset hOffset
  · rw [hTracked.uninitialized hInitialized] at hOffset
    cases hOffset

theorem History.filesBefore_eq (h : History cfg { files := bucketFiles } log server) :
    filesBefore bucketFiles log = server.files := by
  cases log using List.reverseRecOn with
  | nil =>
    generalize hLog : ([] : List Event) = log at h
    cases h with
    | nil => rfl
    | snoc => exact absurd hLog (by simp)
  | append_singleton log event =>
    rw [filesBefore, List.getLast?_concat]
    exact h.files_eq

/-- Requests that touch a bucket, counted by the slots they select. -/
theorem length_filter_visits {touched : List Event} (hSingle : ∀ event ∈ touched,
      (event.touches cfg b).length = if event.visits cfg b then 1 else 0) :
    (touched.filter (Event.visits cfg b)).length =
      (touched.flatMap (Event.touches cfg b)).length := by
  induction touched with
  | nil => rfl
  | cons event touched ih =>
    have hHead := hSingle event List.mem_cons_self
    rw [List.flatMap_cons, List.length_append, hHead, ← ih fun other hOther =>
      hSingle other (List.mem_cons_of_mem _ hOther)]
    by_cases hVisits : event.visits cfg b
    · rw [List.filter_cons_of_pos hVisits, List.length_cons, if_pos hVisits, Nat.add_comm]
    · rw [List.filter_cons_of_neg hVisits, if_neg hVisits, Nat.zero_add]

theorem touches_nodeCount
    (hRun : (handleRequest cfg event.request).run server = .ok event.response server')
    (hTouches : event.touches cfg b ≠ []) : server.nodeCount = cfg.numTreeNodes := by
  obtain ⟨request, response, files⟩ := event
  cases request with
  | xorPathSlots leaf offsetCount offsets =>
    exact (handleXorPathSlots_eq_ok hRun).1
  | _ => exact absurd rfl hTouches

theorem event_writes_eq_false (hTouches : event.touches cfg b ≠ []) : event.writes b = false := by
  obtain ⟨request, response, files⟩ := event
  cases request with
  | xorPathSlots leaf offsetCount offsets => rfl
  | _ => exact absurd rfl hTouches

theorem slotsUsedOnce_of_history (hAccepted : cfg.Accepted)
    (h : History cfg { files := bucketFiles } log server)
    (hSnapshots : ∀ event ∈ log, SnapshotOk cfg event.files) :
    SlotsUsedOnce cfg bucketFiles log := by
  have hSlots : cfg.bucketSlots.toNat = cfg.z.toNat + cfg.s.toNat :=
    (UInt64.toNat_add _ _).trans (Nat.mod_eq_of_lt hAccepted.slots)
  have hNodes : ({ files := bucketFiles } : Server).nodeCount ≠ cfg.numTreeNodes := by
    intro hEq
    have hZero : cfg.numTreeNodes.toNat = 0 := congrArg UInt64.toNat hEq.symm
    rw [RuntimeConfig.toNat_numTreeNodes hAccepted.depth] at hZero
    exact Nat.not_lt_zero _
      (hZero ▸ HeapTree.node_lt_nodeCount (Nat.pow_pos Nat.two_pos) (Nat.zero_le _))
  have hSingle : ∀ b, ∀ event ∈ log,
      (event.touches cfg b).length = if event.visits cfg b then 1 else 0 := by
    intro b event hEvent
    obtain ⟨before, after, hLog⟩ := List.append_of_mem hEvent
    obtain ⟨middle, server', _, hSent, hRun, _⟩ := h.split hLog
    exact length_touches hAccepted.depth hSent hRun
  constructor
  case single => exact hSingle
  case few =>
    rintro b hb before segment after rfl hQuiet
    obtain ⟨middle, hMiddle⟩ := h.beginning rfl
    have hLength := hMiddle.length_le hNodes hAccepted.depth (fun event hEvent =>
      hSnapshots event (List.mem_append_left _ hEvent)) hb
    rw [readSinceWrite_segment cfg before hQuiet, List.length_append] at hLength
    rw [length_filter_visits fun event hEvent =>
      hSingle b event (List.mem_append_left _ (List.mem_append_right _ hEvent))]
    exact (Nat.le_add_left _ _).trans hLength
  case distinct =>
    rintro b hb before segment after rfl hQuiet
    obtain ⟨middle, hMiddle⟩ := h.beginning rfl
    have hNodup := hMiddle.nodup hNodes hb
    rw [readSinceWrite_segment cfg before hQuiet] at hNodup
    exact (List.nodup_append.mp hNodup).2.1
  case valid =>
    rintro b hb before event after hLog offset hOffset
    obtain ⟨middle, server', hBefore, hSent, hRun, hFiles⟩ := h.split hLog
    have hTouches : event.touches cfg b ≠ [] := List.ne_nil_of_mem hOffset
    have hRead : readSinceWrite cfg b (before ++ [event]) = readSinceWrite cfg b before ++
        event.touches cfg b := by
      rw [readSinceWrite_append, event_writes_eq_false hTouches]
      rfl
    have hAfter := hBefore.snoc hSent hRun hFiles
    have hLt : offset < cfg.bucketSlots.toNat :=
      hAfter.read_lt hNodes hb (hRead ▸ List.mem_append_right _ hOffset)
    have hUnread : offset ∉ readSinceWrite cfg b before := fun hOld =>
      (List.nodup_append.mp (hRead ▸ hAfter.nodup hNodes hb)).2.2 offset hOld offset hOffset rfl
    obtain ⟨bucket, hStored, _, _, hValids⟩ :=
      ((hBefore.tracked hNodes).used (touches_nodeCount hRun hTouches) b hb).stored
    refine ⟨hSlots ▸ hLt, bucket, hBefore.filesBefore_eq ▸ hStored, ?_⟩
    rw [hValids offset hLt, decide_eq_true hUnread]
  case resets =>
    rintro ⟨_, response, files⟩ hEvent bucketIdx bytes rfl
    obtain ⟨before, after, hLog⟩ := List.append_of_mem hEvent
    obtain ⟨middle, server', hBefore, hSent, hRun, rfl⟩ := h.split hLog
    obtain ⟨hInitialized, _, bucket, hBucket, _, hWrite⟩ := handleWriteBucket_eq_ok hRun
    have hRange : bucketIdx < cfg.numTreeNodes := hInitialized ▸ (writeBucketToDisk_eq_ok hWrite).1
    obtain ⟨stored, ⟨fresh, hHeld, hBytes, hCount, hValids⟩, rfl⟩ :=
      freshBucket_of_store hSent hBucket hWrite
    rw [hSlots] at hValids
    refine ⟨hRange, fresh, ?_, hCount, hValids⟩
    exact storedBucket_eq (Function.update_self _ _ _)
      (deserializeEncryptedRingBucket_serialize hHeld hBytes)

theorem Settled.history {start : Server} (h : Settled env start w) :
    ∃ server, History env.cfg start w.log server ∧ ∀ event ∈ w.log,
    SnapshotOk env.cfg event.files := by
  cases h with
  | consistent hConsistent hHistory => exact ⟨_, hHistory, hConsistent.stored.snapshots⟩
  | closed hConsistent hHistory _ _ hLog =>
    rw [hLog]
    exact ⟨_, hHistory, hConsistent.stored.snapshots⟩

theorem slotsUsedOnce_of_session (h : Session env bucketFiles w) :
    SlotsUsedOnce env.cfg bucketFiles w.log := by
  obtain ⟨server, hHistory, hSnapshots⟩ := h.settled.history
  exact slotsUsedOnce_of_history h.accepted hHistory hSnapshots

theorem slotsUsedOnce_small :
    ∃ start w, (construct .small).run (World.start none fun _ => none) = .ok () start ∧
    (operate .small (.action (.access .write 1 [7]))).run start = .ok () w ∧
    SlotsUsedOnce Env.small.cfg (fun _ => none) w.log := by
  obtain ⟨start, w, hConstruct, hRun, hSession⟩ := exists_session_small
  exact ⟨start, w, hConstruct, hRun, slotsUsedOnce_of_session hSession⟩

end Runs
end OramHub.RingOram
