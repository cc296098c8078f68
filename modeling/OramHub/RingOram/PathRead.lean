import OramHub.RingOram.Maintenance

/-! # Reading a path

One slot of every bucket on the path is selected, the server answers with the XOR of their
ciphertexts, and cancelling the dummies leaves the wanted block.
-/
namespace OramHub.RingOram
open OramHub.Core OramHub.Program OramHub.LittleEndian OramHub.Network OramHub.Crypto
set_option autoImplicit false

variable {env : Env} {w : World} {v : Plain} {leaf addr : UInt64} {picks : List Pick}

section Metadata

/-- Metadata that a bucket of the tree has been sent as. -/
def DescribedBy (env : Env) (metadata : RingBucketMetadata) (bucket : RingBucket) : Prop :=
  ∃ encrypted, metadata = metadataFromBucket encrypted ∧ Seals env encrypted bucket

theorem metadata_fits (hAccepted : env.cfg.Accepted) {encrypted : EncryptedRingBucket}
    {bucket : RingBucket} (h : Seals env encrypted bucket) (hWell : bucket.WellFormed env.cfg) :
    serializeRingBucketMetadata (metadataFromBucket encrypted) =
      .ok (metadataBytes (metadataFromBucket encrypted)) := by
  apply checkSize_of_le
  change (metadataBytes (metadataFromBucket encrypted)).length ≤ _
  rw [h.length_metadata hWell]
  exact le_trans (Nat.le_add_right _ _) hAccepted.bucketFits

theorem length_flatMap_sendVec {payloads : List Bytes} {size : Nat}
    (h : ∀ payload ∈ payloads, payload.length = size) :
    (payloads.flatMap sendVec).length = payloads.length * (8 + size) :=
  length_flatMap_of_length fun payload hPayload => by
    rw [sendVec, List.length_append, length_encodeWord, h payload hPayload]

theorem fetchPathMetadata_spec (hAccepted : env.cfg.Accepted) (h : Stored env w v)
    (hLeaf : leaf.toNat < 2 ^ env.cfg.depth) :
    Returns (fetchPathMetadata env leaf) w fun metadata w' =>
      List.Forall₂ (fun metadata b => DescribedBy env metadata (v.bucket b)) metadata
        (env.cfg.path leaf) ∧
      Stored env w' (v.observe (.readPathMetadata leaf ((env.cfg.path leaf).map v.schedule.counts)
        env.cfg.metadataSize)) := by
  have hWell : ∀ b ∈ env.cfg.path leaf, (v.bucket b).WellFormed env.cfg := fun b hb =>
    h.valid.wellFormed b (mem_nodes_of_mem_path hLeaf hb)
  have hHandler : Returns (handleRequest env.cfg (.readPathMetadata leaf)) w.server
      fun response server =>
      (∃ payloads, response = .pathMetadata (UInt64.ofNat (env.cfg.depth + 1)) payloads ∧
        List.Forall₂ (fun payload b => Describes env payload (v.bucket b)) payloads
          (env.cfg.path leaf)) ∧
        Holds env server v.bucket := by
    apply (handleReadPathMetadata_spec hAccepted h.tree h.valid hLeaf).mono
    rintro response server ⟨rfl, hResponse⟩
    exact ⟨hResponse, h.tree⟩
  refine (roundTrip_spec hAccepted h _
    (.readPathMetadata leaf ((env.cfg.path leaf).map v.schedule.counts)
      env.cfg.metadataSize) hHandler h.valid ?_).bind ?_
  · rintro _ files ⟨payloads, rfl, hPayloads⟩
    have hLength : payloads.length = env.cfg.depth + 1 := by rw [hPayloads.length_eq, length_path]
    have hSizes : ∀ payload ∈ payloads, payload.length = env.cfg.metadataSize := by
      intro payload hPayload
      obtain ⟨i, hi, rfl⟩ := List.getElem_of_mem hPayload
      obtain ⟨encrypted, hEq, hSeals⟩ := hPayloads.get hi (hPayloads.length_eq ▸ hi)
      rw [List.get_eq_getElem] at hEq
      rw [hEq]
      exact hSeals.length_metadata (hWell _ (List.getElem_mem _))
    have hCounts : payloads.map countField =
        ((env.cfg.path leaf).map v.schedule.counts).map encodeWord := by
      rw [List.map_map]
      refine List.forall₂_eq_eq_eq ▸
        List.forall₂_map_left_iff.mpr (List.forall₂_map_right_iff.mpr ?_)
      apply hPayloads.imp
      rintro _ b ⟨encrypted, rfl, hSeals⟩
      exact countField_metadata hSeals
    have hLengths : payloads.map List.length =
        List.replicate ((env.cfg.path leaf).map v.schedule.counts).length env.cfg.metadataSize := by
      rw [List.eq_replicate_iff, List.length_map, List.length_map, length_path, hLength]
      refine ⟨rfl, fun size hSize => ?_⟩
      obtain ⟨payload, hPayload, rfl⟩ := List.mem_map.mp hSize
      exact hSizes payload hPayload
    simp [Event.sketch, Sketch.readPathMetadata, Sketch.word, Request.encode,
      Request.fields, Request.buckets,
      Response.encode, Response.fields, Response.buckets, Response.masked, hCounts,
      hLengths, length_path, length_flatMap_sendVec hSizes, hLength]
  · rintro _ w' ⟨⟨payloads, rfl, hPayloads⟩, hFinal⟩
    have hEach : ∃ metadata, payloads.mapM deserializeRingBucketMetadata = .ok metadata ∧
        List.Forall₂ (fun metadata b => DescribedBy env metadata (v.bucket b)) metadata
          (env.cfg.path leaf) := by
      clear hHandler hFinal
      generalize env.cfg.path leaf = path at hPayloads hWell
      induction hPayloads with
      | nil => exact ⟨[], rfl, .nil⟩
      | @cons payload b payloads path hHead _ ih =>
        obtain ⟨metadata, hMetadata, hTail⟩ :=
          ih fun other hOther => hWell other (List.mem_cons_of_mem _ hOther)
        obtain ⟨encrypted, rfl, hSeals⟩ := hHead
        have hParse := deserializeRingBucketMetadata_serialize
          (held_sealed hAccepted hSeals (hWell b List.mem_cons_self)).metadata
            (metadata_fits hAccepted hSeals (hWell b List.mem_cons_self))
        refine ⟨metadataFromBucket encrypted :: metadata, ?_, .cons ⟨encrypted, rfl, hSeals⟩ hTail⟩
        rw [List.mapM_cons, hParse, hMetadata]
        rfl
    obtain ⟨metadata, hMetadata, hAll⟩ := hEach
    exact Returns.fromExcept hMetadata ⟨hAll, hFinal⟩

end Metadata

section Selection

theorem getBlockOffset_spec {plain bucket : RingBucket} (hSame : plain.SameMetadata bucket)
    (hAddr : addr ≠ kDummyAddress) (hDummies : bucket.validDummyOffsets ≠ []) (tick : Nat) :
    Returns (getBlockOffset env plain addr) tick fun offset _ => ∃ target,
    bucket.Selects addr offset target := by
  have hLiveOf : ∀ i < plain.addrs.length, plain.addrs.getD i kDummyAddress = addr →
      plain.valids.getD (plain.ptrs.getD i 0) false = true → i ∈ bucket.liveIndices := by
    intro i hi hEq hValid
    rw [← hSame.liveIndices, RingBucket.mem_liveIndices, RingBucket.validReal_iff]
    exact ⟨hi, hEq ▸ hAddr, hValid⟩
  rw [getBlockOffset, getBlockOffsetWith]
  split
  · rename_i i hFind
    have hProp := List.find?_some hFind
    rw [Bool.and_eq_true, beq_iff_eq] at hProp
    have hi := List.mem_range.mp (List.mem_of_find?_eq_some hFind)
    have hLive := hLiveOf i hi hProp.1 hProp.2
    refine Returns.pure ⟨true, ?_⟩
    have hEntry : (bucket.entry i).addr = addr := by
      rw [RingBucket.entry_addr_eq hLive kDummyAddress, ← hSame.addrs]
      exact hProp.1
    have hSelects := RingBucket.Selects.target hLive hEntry
    rwa [← hSame.ptr] at hSelects
  · rename_i hFind
    have hNone := List.find?_eq_none.mp hFind
    have hOther : ∀ i ∈ bucket.liveIndices, (bucket.entry i).addr ≠ addr := by
      intro i hi hEq
      have hi' := hi
      rw [← hSame.liveIndices, RingBucket.mem_liveIndices, RingBucket.validReal_iff] at hi'
      apply hNone i (List.mem_range.mpr hi'.1)
      rw [Bool.and_eq_true, beq_iff_eq, hSame.addrs, ← RingBucket.entry_addr_eq hi]
      exact ⟨hEq, hi'.2.2⟩
    rw [hSame.validDummyOffsets, if_neg hDummies]
    apply (uniformInt_spec env _ _ (List.length_pos_iff.mpr hDummies)).bind
    intro choice tick' hChoice
    refine Returns.pure ⟨false, .dummy hOther ?_⟩
    rw [List.getD_eq_getElem _ _ hChoice]
    exact List.getElem_mem hChoice

/-- The test with which `ReadPath` recognises the wanted slot is right. -/
theorem selectedTarget_eq {bucket : RingBucket} (hAddr : addr ≠ kDummyAddress) {offset : Nat}
    {target : Bool} (h : bucket.Selects addr offset target) :
    ((List.range bucket.addrs.length).any fun i =>
      bucket.addrs.getD i kDummyAddress == addr && bucket.ptrs.getD i 0 == offset &&
        bucket.valids.getD offset false) = target := by
  cases h with
  | @target i hi hEq =>
    rw [List.any_eq_true]
    refine ⟨i, List.mem_range.mpr (RingBucket.mem_liveIndices.mp hi).1, ?_⟩
    simp only [Bool.and_eq_true, beq_iff_eq]
    refine ⟨⟨?_, rfl⟩, RingBucket.valid_ptr hi⟩
    rw [← RingBucket.entry_addr_eq hi, hEq]
  | dummy hOther hOffset =>
    rw [List.any_eq_false]
    intro i hi hTest
    simp only [Bool.and_eq_true, beq_iff_eq] at hTest
    have hPtr : bucket.ptr i = offset := hTest.1.2
    have hLive : i ∈ bucket.liveIndices := by
      rw [RingBucket.mem_liveIndices, RingBucket.validReal_iff, hPtr]
      exact ⟨List.mem_range.mp hi, hTest.1.1 ▸ hAddr, hTest.2⟩
    exact (RingBucket.mem_validDummyOffsets.mp hOffset).2 i hLive hPtr

theorem selectSlot_spec (hAccepted : env.cfg.Accepted) {metadata : RingBucketMetadata}
    {bucket : RingBucket}
    (hMetadata : DescribedBy env metadata bucket) (hWell : bucket.WellFormed env.cfg)
    (hCount : bucket.count.toNat < env.cfg.s.toNat) (hAddr : addr ≠ kDummyAddress)
    (selected : List Nat × List Bool) :
    Returns (selectSlot env addr selected metadata) w fun selected' w' => ∃ offset target prng,
      bucket.Selects addr offset target ∧
      selected' = (selected.1 ++ [offset], selected.2 ++ [target]) ∧
      w' = { w with prng := prng } := by
  obtain ⟨encrypted, rfl, hSeals⟩ := hMetadata
  obtain ⟨plain, hDecrypt, hSame⟩ := decryptMetadata_spec hSeals hWell hAccepted.slots
  apply Returns.ok_bind hDecrypt
  apply withPrng_bind (getBlockOffset_spec hSame hAddr (RingBucket.exists_dummy hWell hCount) _)
  rintro offset prng ⟨target, hSelects⟩
  have hLt : offset < plain.valids.length := by
    rw [hSame.valids]
    exact RingBucket.lt_of_valid hSelects.valid
  have hTarget := selectedTarget_eq hAddr hSelects
  rw [← hSame.addrs, ← hSame.ptrs, ← hSame.valids] at hTarget
  refine Returns.check_bind (Nat.not_le.mpr hLt)
    (Returns.pure ⟨offset, target, prng, hSelects, ?_, rfl⟩)
  rw [hTarget]

theorem selectSlots_spec (hAccepted : env.cfg.Accepted) {metadata : List RingBucketMetadata}
    {path : List Nat}
    (hMetadata : List.Forall₂ (fun metadata b => DescribedBy env metadata (v.bucket b))
      metadata path)
    (hWell : ∀ b ∈ path, (v.bucket b).WellFormed env.cfg)
    (hCalm : ∀ b ∈ path, (v.bucket b).count.toNat < env.cfg.s.toNat) (hAddr : addr ≠ kDummyAddress)
    (selected : List Nat × List Bool) :
    Returns (metadata.foldlM (selectSlot env addr) selected) w fun selected' w' =>
      ∃ (picks : List Pick) (prng : Nat),
      picks.map Pick.node = path ∧
      (∀ pick ∈ picks, (v.bucket pick.node).Selects addr pick.offset pick.target) ∧
      selected' = (selected.1 ++ picks.map Pick.offset, selected.2 ++ picks.map Pick.target) ∧
      w' = { w with prng := prng } := by
  induction hMetadata generalizing w selected with
  | nil => exact Returns.pure ⟨[], w.prng, rfl, by simp, by simp, rfl⟩
  | @cons metadata b rest path hHead _ ih =>
    rw [List.foldlM_cons]
    refine (selectSlot_spec hAccepted hHead (hWell b List.mem_cons_self)
      (hCalm b List.mem_cons_self) hAddr
      selected).bind ?_
    rintro _ _ ⟨offset, target, prng, hSelects, rfl, rfl⟩
    refine (ih (fun c hc => hWell c (List.mem_cons_of_mem _ hc))
      (fun c hc => hCalm c (List.mem_cons_of_mem _ hc)) _).mono ?_
    rintro _ _ ⟨picks, prng', hNodes, hPicks, rfl, rfl⟩
    refine ⟨⟨b, offset, target⟩ :: picks, prng', by rw [List.map_cons, hNodes], ?_, by simp, rfl⟩
    intro pick hPick
    obtain rfl | hMem := List.mem_cons.mp hPick
    · exact hSelects
    · exact hPicks pick hMem

end Selection

section Unmasking

section Slots

variable {α : Type} (field : α → EncryptedField) (target : α → Bool) (items : List α)

/-- The ciphertexts of the dummies are taken out, the IV of the target is kept. -/
theorem unmaskSlots_eq (hSizes : ∀ item ∈ items,
    (field item).ciphertext.length = env.cfg.blockSize.toNat)
    (hDummy : ∀ item ∈ items, target item = false →
      env.cipher.encrypt (List.replicate env.cfg.blockSize.toNat 0) (field item).iv =
        .ok (field item).ciphertext)
    (ciphertext : Bytes) (hLength : ciphertext.length = env.cfg.blockSize.toNat) (iv : Option Bytes)
    (hOne : iv.toList.length + (items.filter target).length ≤ 1) :
    (items.map fun item => (target item, (field item).iv)).foldlM
      (unmaskSlot env) (ciphertext, iv) =
      .ok (((items.filter fun item => !target item).map fun item => (field item).ciphertext).foldl
        XorBytes.xor
          ciphertext,
        (iv.toList ++ (items.filter target).map fun item => (field item).iv).head?) := by
  induction items generalizing ciphertext iv with
  | nil => cases iv <;> rfl
  | cons item items ih =>
    have hTail : ∀ other ∈ items, other ∈ item :: items :=
      fun other hOther => List.mem_cons_of_mem _ hOther
    have ih' := ih (fun other hOther => hSizes other (hTail other hOther)) fun other hOther =>
      hDummy other (hTail other hOther)
    have hSize := hSizes item List.mem_cons_self
    rw [List.map_cons, List.foldlM_cons, unmaskSlot]
    cases hTarget : target item with
    | true =>
      simp only [List.filter_cons, hTarget, if_true, List.length_cons,
        Bool.not_true, Bool.false_eq_true, if_false, List.map_cons] at hOne ⊢
      cases iv with
      | some iv =>
        simp only [Option.toList_some, List.length_singleton] at hOne
        omega
      | none => exact ih' ciphertext hLength (some (field item).iv) (by simpa using hOne)
    | false =>
      have hXor : xorInto ciphertext (field item).ciphertext =
          .ok (XorBytes.xor ciphertext (field item).ciphertext) :=
        if_neg (not_not.mpr (hLength.trans hSize.symm))
      simp only [List.filter_cons, hTarget, Bool.false_eq_true, if_false, Bool.not_false,
        if_true, List.map_cons, List.foldl_cons] at hOne ⊢
      rw [hDummy item List.mem_cons_self hTarget]
      simp only [bind, Except.bind, hXor]
      exact ih' _ (XorBytes.length_xor hLength hSize) iv hOne

/-- The aggregate of all slots without the dummies is the ciphertext of the target. -/
theorem unmask_total (hSizes : ∀ item ∈ items,
    (field item).ciphertext.length = env.cfg.blockSize.toNat)
    (hDummy : ∀ item ∈ items, target item = false →
      env.cipher.encrypt (List.replicate env.cfg.blockSize.toNat 0) (field item).iv =
        .ok (field item).ciphertext)
    (hOne : (items.filter target).length ≤ 1) :
    (items.map fun item => (target item, (field item).iv)).foldlM (unmaskSlot env)
        (XorBytes.total env.cfg.blockSize.toNat (items.map fun item => (field item).ciphertext),
          none) =
      .ok (XorBytes.total env.cfg.blockSize.toNat ((items.filter target).map fun item =>
        (field item).ciphertext),
        ((items.filter target).map fun item => (field item).iv).head?) := by
  have hAll : ∀ string ∈ items.map fun item => (field item).ciphertext,
      string.length = env.cfg.blockSize.toNat := by
    intro string hString
    obtain ⟨item, hItem, rfl⟩ := List.mem_map.mp hString
    exact hSizes item hItem
  have hUnmask := unmaskSlots_eq field target items hSizes hDummy _
    (XorBytes.length_total hAll) none
    ((Nat.zero_add _).trans_le hOne)
  rwa [XorBytes.foldl_xor _ (XorBytes.length_total hAll) (fun string hString => by
    obtain ⟨item, hItem, rfl⟩ := List.mem_map.mp hString
    exact hSizes item (List.mem_of_mem_filter hItem)),
    XorBytes.total_cancel _ _ items hSizes] at hUnmask

end Slots

theorem map_data_found (hPicks : v.Picks env.cfg addr picks) (hValid : v.Valid env.cfg) :
    (v.found picks).map RingBlock.data =
      (picks.filter Pick.target).map fun pick => (v.bucket pick.node).payload pick.offset := by
  induction picks with
  | nil => rfl
  | cons pick picks ih =>
    have hRest : v.Picks env.cfg addr picks :=
      ⟨(List.nodup_cons.mp hPicks.nodup).2, fun other hOther =>
        hPicks.nodes other (List.mem_cons_of_mem _ hOther),
        fun other hOther => hPicks.selects other (List.mem_cons_of_mem _ hOther),
        fun other hOther => hPicks.calm other (List.mem_cons_of_mem _ hOther)⟩
    have hSelects := hPicks.selects pick List.mem_cons_self
    rw [Plain.found, List.flatMap_cons, List.map_append]
    change _ ++ (v.found picks).map RingBlock.data = _
    rw [ih hRest]
    cases hTarget : pick.target with
    | true =>
      rw [hTarget] at hSelects
      obtain ⟨i, _, hFound, _, hData⟩ :=
        hSelects.found_target (hValid.wellFormed _ (hPicks.nodes pick List.mem_cons_self))
      rw [hFound, List.filter_cons_of_pos hTarget, List.map_cons, List.map_cons, hData]
      rfl
    | false =>
      rw [hTarget] at hSelects
      rw [hSelects.found_dummy, List.filter_cons_of_neg (by rw [hTarget]; simp)]
      rfl

theorem length_payload_of_pick (hPicks : v.Picks env.cfg addr picks)
    (hValid : v.Valid env.cfg) {pick : Pick} (hPick : pick ∈ picks) :
    ((v.bucket pick.node).payload pick.offset).length = env.cfg.blockSize.toNat := by
  have hWell := hValid.wellFormed _ (hPicks.nodes pick hPick)
  exact RingBucket.payload_length hWell
    (hWell.valids ▸ RingBucket.lt_of_valid (hPicks.selects pick hPick).valid)

theorem length_ciphertexts (hPicks : v.Picks env.cfg addr picks) (hValid : v.Valid env.cfg)
    {fields : List EncryptedField} (hFields : SealedAll env fields (picks.map fun pick =>
      (v.bucket pick.node).payload pick.offset)) :
    ∀ string ∈ fields.map EncryptedField.ciphertext, string.length = env.cfg.blockSize.toNat := by
  intro string hString
  obtain ⟨field, hField, rfl⟩ := List.mem_map.mp hString
  obtain ⟨i, hi, rfl⟩ := List.getElem_of_mem hField
  have hPlain := List.forall₂_map_right_iff.mp hFields
  have hSealed := hPlain.get hi (hPlain.length_eq ▸ hi)
  exact hSealed.length.trans (length_payload_of_pick hPicks hValid (List.getElem_mem _))

theorem xorSketch_eq (hPicks : v.Picks env.cfg addr picks) (hValid : v.Valid env.cfg)
    {fields : List EncryptedField} (hFields : SealedAll env fields (picks.map fun pick =>
      (v.bucket pick.node).payload pick.offset))
    (hCount : picks.length = env.cfg.depth + 1) (files : Nat → Option Bytes) :
    Event.sketch ⟨xorRequest env.cfg leaf picks,
      .xorPath (XorBytes.total env.cfg.blockSize.toNat (fields.map EncryptedField.ciphertext))
        (UInt64.ofNat (env.cfg.depth + 1)) (fields.map EncryptedField.iv), files⟩ =
      .xorPathSlots leaf (env.cfg.depth + 1) env.cfg.blockSize.toNat := by
  have hTotal := XorBytes.length_total (length_ciphertexts hPicks hValid hFields)
  have hFieldCount : fields.length = env.cfg.depth + 1 := by
    rw [hFields.length, List.length_map, hCount]
  have hIvs : ∀ iv ∈ fields.map EncryptedField.iv, iv.length = 16 := by
    intro iv hIv
    obtain ⟨field, hField, rfl⟩ := List.mem_map.mp hIv
    obtain ⟨i, hi, rfl⟩ := List.getElem_of_mem hField
    have hPlain := List.forall₂_map_right_iff.mp hFields
    exact (hPlain.get hi (hPlain.length_eq ▸ hi)).iv
  have hIvLengths :
      (fields.map EncryptedField.iv).map List.length = List.replicate (env.cfg.depth + 1) 16 := by
    rw [List.eq_replicate_iff, List.length_map, List.length_map, hFieldCount]
    refine ⟨rfl, fun size hSize => ?_⟩
    obtain ⟨iv, hIv, rfl⟩ := List.mem_map.mp hSize
    exact hIvs iv hIv
  have hOffsets : ((picks.map fun pick => UInt64.ofNat pick.offset).flatMap encodeWord).length =
      (env.cfg.depth + 1) * 8 := by
    rw [length_flatMap_of_length fun offset _ => length_encodeWord offset, List.length_map, hCount]
  simp [Event.sketch, Sketch.xorPathSlots, Sketch.word, xorRequest, Request.encode, Request.fields,
    Request.buckets, Response.encode, Response.fields, Response.buckets,
    Response.masked, hIvLengths, hTotal,
    sendVec, length_flatMap_sendVec hIvs, hFieldCount, hOffsets]
  omega

/-- What is left of the aggregate decrypts to the found block. -/
theorem unmask_picks (hPicks : v.Picks env.cfg addr picks) (hValid : v.Valid env.cfg)
    {fields : List EncryptedField} (hFields : SealedAll env fields (picks.map fun pick =>
      (v.bucket pick.node).payload pick.offset))
    (hFound : (v.found picks).length ≤ 1) :
    ∃ ciphertext targetIv,
    ((picks.map Pick.target).zip (fields.map EncryptedField.iv)).foldlM (unmaskSlot env)
        (XorBytes.total env.cfg.blockSize.toNat (fields.map EncryptedField.ciphertext), none) =
          .ok (ciphertext, targetIv) ∧
      match targetIv with
      | none => v.found picks = []
      | some iv =>
        ∃ block, v.found picks = [block] ∧ env.cipher.decrypt ciphertext iv = .ok block.data := by
  have hPlain := List.forall₂_map_right_iff.mp hFields
  have hLength := hPlain.length_eq
  have hFst : (fields.zip picks).map Prod.fst = fields := List.map_fst_zip hLength.le
  have hSnd : (fields.zip picks).map Prod.snd = picks := List.map_snd_zip hLength.ge
  have hSealed : ∀ item ∈ fields.zip picks,
      Sealed env item.1 ((v.bucket item.2.node).payload item.2.offset) := fun item hItem =>
    List.forall₂_zip hPlain hItem
  generalize fields.zip picks = items at hFst hSnd hSealed
  have hMem : ∀ item ∈ items, item.2 ∈ picks := fun item hItem => hSnd ▸ List.mem_map_of_mem hItem
  have hSizes : ∀ item ∈ items, item.1.ciphertext.length = env.cfg.blockSize.toNat :=
    fun item hItem =>
    (hSealed item hItem).length.trans (length_payload_of_pick hPicks hValid (hMem item hItem))
  have hDummy : ∀ item ∈ items, item.2.target = false →
      env.cipher.encrypt (List.replicate env.cfg.blockSize.toNat 0) item.1.iv =
        .ok item.1.ciphertext := by
    intro item hItem hTarget
    have hSelects := hPicks.selects _ (hMem item hItem)
    have hWell := hValid.wellFormed _ (hPicks.nodes _ (hMem item hItem))
    rw [hTarget] at hSelects
    rw [AesCtr.encrypt_eq_ok _ _ (hSealed item hItem).iv, (hSealed item hItem).ciphertext,
      hWell.dummies _ hSelects.offset_mem]
  have hFoundData :
      (v.found picks).map RingBlock.data = (items.filter fun item => item.2.target).map
      fun item => (v.bucket item.2.node).payload item.2.offset := by
    rw [map_data_found hPicks hValid, ← hSnd, List.filter_map, List.map_map]
    rfl
  have hCountFound : (items.filter fun item => item.2.target).length = (v.found picks).length := by
    rw [← @List.length_map _ _ (v.found picks) RingBlock.data, hFoundData, List.length_map]
  have hZip : (picks.map Pick.target).zip (fields.map EncryptedField.iv) =
      items.map fun item => (item.2.target, item.1.iv) := by
    rw [← hSnd, ← hFst, List.map_map, List.map_map, List.zip_map']
    rfl
  have hCiphertexts :
      fields.map EncryptedField.ciphertext = items.map fun item => item.1.ciphertext := by
    rw [← hFst, List.map_map]
    rfl
  have hUnmask := unmask_total (fun item => item.1) (fun item => item.2.target) items hSizes hDummy
    (hCountFound.trans_le hFound)
  rw [hZip, hCiphertexts]
  match hTargets : items.filter fun item => item.2.target with
  | [] =>
    rw [hTargets] at hUnmask hFoundData
    exact ⟨_, none, hUnmask, List.map_eq_nil_iff.mp hFoundData⟩
  | [item] =>
    have hItem : item ∈ items := List.mem_of_mem_filter (hTargets ▸ List.mem_singleton_self item)
    rw [hTargets, List.map_singleton] at hFoundData
    rw [hTargets, List.map_singleton] at hUnmask
    obtain ⟨block, hBlock, hData⟩ := List.map_eq_singleton_iff.mp hFoundData
    have hOne : XorBytes.total env.cfg.blockSize.toNat [item.1.ciphertext] = item.1.ciphertext :=
      XorBytes.zero_xor (hSizes item hItem)
    refine ⟨_, some item.1.iv, hUnmask, block, hBlock, ?_⟩
    rw [hOne, hData]
    exact (hSealed item hItem).decrypt
  | item :: other :: rest =>
    rw [hTargets, List.length_cons, List.length_cons] at hCountFound
    omega

theorem fetchXorPath_spec (hAccepted : env.cfg.Accepted) (h : Stored env w v)
    (hPicks : v.Picks env.cfg addr picks) (hLeaf : leaf.toNat < 2 ^ env.cfg.depth)
    (hPath : picks.map Pick.node = env.cfg.path leaf) (hFound : (v.found picks).length ≤ 1) :
    Returns (fetchXorPath env leaf (picks.map Pick.offset) (picks.map Pick.target)) w fun data w' =>
      data = (v.found picks).head?.map RingBlock.data ∧
      Stored env w' ((v.touchAll picks).observe
        (.xorPathSlots leaf (env.cfg.depth + 1) env.cfg.blockSize.toNat)) := by
  have hCount : picks.length = env.cfg.depth + 1 := by
    rw [← @List.length_map _ _ picks Pick.node, hPath, length_path]
  have hRequest : Request.xorPathSlots leaf (UInt64.ofNat (picks.map Pick.offset).length)
      ((picks.map Pick.offset).map UInt64.ofNat) = xorRequest env.cfg leaf picks := by
    rw [xorRequest, List.length_map, hCount, List.map_map]
    rfl
  have hHandler : Returns (handleRequest env.cfg (xorRequest env.cfg leaf picks)) w.server
      fun response server => (∃ fields,
        SealedAll env fields (picks.map fun pick => (v.bucket pick.node).payload pick.offset) ∧
        response = .xorPath
          (XorBytes.total env.cfg.blockSize.toNat (fields.map EncryptedField.ciphertext))
          (UInt64.ofNat (env.cfg.depth + 1)) (fields.map EncryptedField.iv)) ∧
        Holds env server (v.touchAll picks).bucket := by
    apply (handleXorPathSlots_spec hAccepted h.tree h.valid hPicks hLeaf hPath).mono
    exact fun response server hAnswer => hAnswer.symm
  have hTouched : Plain.Valid env.cfg { v with bucket := (v.touchAll picks).bucket } := by
    rw [← Plain.touchAll_eq]
    exact hPicks.valid h.valid
  rw [fetchXorPath]
  apply Returns.check_bind (by simp)
  rw [hRequest]
  refine (roundTrip_spec hAccepted h _
    (.xorPathSlots leaf (env.cfg.depth + 1) env.cfg.blockSize.toNat)
    hHandler hTouched ?_).bind ?_
  · rintro _ files ⟨fields, hFields, rfl⟩
    exact xorSketch_eq hPicks h.valid hFields hCount files
  rintro _ w' ⟨⟨fields, hFields, rfl⟩, hStored⟩
  rw [← Plain.touchAll_eq] at hStored
  have hTotal := XorBytes.length_total (length_ciphertexts hPicks h.valid hFields)
  refine Returns.check_bind (not_not.mpr hTotal) (Returns.check_bind ?_ ?_)
  · rw [List.length_map, hCount]
    exact not_not.mpr rfl
  obtain ⟨ciphertext, targetIv, hUnmask, hData⟩ := unmask_picks hPicks h.valid hFields hFound
  apply Returns.ok_bind hUnmask
  cases targetIv with
  | none => exact Returns.pure ⟨by rw [hData]; rfl, hStored⟩
  | some iv =>
    obtain ⟨block, hBlock, hDecrypt⟩ := hData
    exact Returns.ok_bind hDecrypt (Returns.pure ⟨by rw [hBlock]; rfl, hStored⟩)

end Unmasking
end OramHub.RingOram
