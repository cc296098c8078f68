import Mathlib.Logic.Equiv.Fin.Rotate
import OramHub.OnionRing.Runs
import OramHub.OnionRing.ServerEviction

/-! # The two ways to evict agree

Ciphertexts are compared by what they decrypt to. The client permutes the slots that it has fetched,
the server those that the client names, by the swap bits of the same permutation.
-/
namespace OramHub.OnionRing
open OramHub.Core OramHub.Program OramHub.OnionRing.WaksmanNetwork
set_option autoImplicit false

/-- `GenerateSwapBits` of a network of the right size. -/
def swapBitsFor (size : Nat) (permutation : List Nat) : Except Exception (List Bool) := do
  let network ← WaksmanNetwork.construct size
  network.generateSwapBits permutation

/-- A `std::vector<RGSWCiphertext>`. -/
structure SwapBits {n : Nat} {tfhe : Tfhe n} (tgsw : Tgsw tfhe) where
  bits : List tgsw.Ciphertext
  fits : bits.length ≤ vectorMaxSize / 16

/-- The permutation that the client draws next when its generator has made `tick` draws. -/
def permutationAt (env : Env) (tick : Nat) : List Nat :=
  List.ofFn fun dest => (env.entropy.shuffle tick env.cfg.slots dest).val

/-- The slots whose id passes a test, in slot order. -/
def slotsWhere (keep : Int → Bool) (ids : List Int) : List Nat :=
  (List.range ids.length).filter fun slot => keep (ids.getD slot (-1))

def routesTo (positionMap : List UInt64) (shift : Nat) (right : Bool) (id : Int) : Bool :=
  goesRight positionMap shift id == right && decide (0 ≤ id)

section Requests

variable (env : Env) (tgsw : Tgsw env.tfhe)

/-- What a client with this state sends for one child. -/
def childUpdate (w : World env.Ciphertext) (shift source child : Nat) (right : Bool)
    (swapBits : SwapBits tgsw) :
    ChildUpdate where
  sourceBytes := serializeUint64Vector
    ((slotsWhere (routesTo w.positionMap shift right) (w.idMap source)).map UInt64.ofNat)
  childBytes := serializeUint64Vector
    ((slotsWhere (fun id => 0 ≤ id) (w.idMap child)).map UInt64.ofNat)
  bitCount := UInt64.ofNat swapBits.bits.length
  swapBits := swapBits.bits.map tgsw.exportSample

def refreshPayload (slots : List env.Ciphertext) (swapBits : SwapBits tgsw) : RefreshPayload where
  command := 'F'
  slots := slots.map env.tfhe.exportSample
  bitCount := UInt64.ofNat swapBits.bits.length
  swapBits := swapBits.bits.map tgsw.exportSample

/-- A fresh encryption of the block in a slot. -/
def ReEncrypts (new old : env.Ciphertext) : Prop := ∃ noise, new =
  env.tfhe.tLweSymEncrypt noise
    (message env.cfg.tlweN (decodeBlock (env.tfhe.tLweSymDecrypt old) env.cfg.blockSize.toNat))

end Requests

section Plaintexts

variable {env : Env} {permutation : List Nat} {items row row' : List env.Ciphertext}

def plaintexts (env : Env) (row : List env.Ciphertext) : List (Message env.cfg.tlweN) :=
  row.map env.tfhe.tLweSymDecrypt

/-- Slot `dest` has the plaintext of slot `permutation[dest]`. -/
def Permuted (env : Env) (permutation : List Nat) (items row : List env.Ciphertext) : Prop :=
  ∀ dest : Nat, (plaintexts env row)[dest]? = permutation[dest]?.bind fun source =>
    (plaintexts env items)[source]?

theorem Permuted.plaintexts_eq (h : Permuted env permutation items row)
    (h' : Permuted env permutation items row') :
    plaintexts env row = plaintexts env row' :=
  List.ext_getElem? fun dest => (h dest).trans (h' dest).symm

theorem plaintexts_copy (hExact : env.tfhe.Exact) (row : List env.Ciphertext) :
    plaintexts env (row.map env.tfhe.tLweCopy) = plaintexts env row := by
  rw [plaintexts, List.map_map]
  exact List.map_congr_left fun x _ => hExact.decrypt_copy x

theorem map_transmit (hExact : env.tfhe.Exact) (row : List env.Ciphertext) :
    row.map env.tfhe.transmit = row := by
  rw [List.map_congr_left fun x _ => hExact.transmit_eq x]
  exact List.map_id row

/-- Each slot of the new row is a copy of the slot that the permutation names. -/
theorem permuteCiphertexts_eq_ok (h : permuteCiphertexts env items permutation = .ok row) :
    ∃ output, row = output.map env.tfhe.tLweCopy ∧
      List.Forall₂ (fun source item => items[source]? = some item) permutation output := by
  obtain ⟨output, hOutput, hCopy⟩ := except_bind_eq_ok h
  cases hCopy
  refine ⟨output, rfl, (forall₂_of_mapM hOutput).imp fun source item hRead => ?_⟩
  split at hRead
  · rename_i item' hItem
    cases hRead
    exact hItem
  · cases hRead

theorem permuted_of_permute (hExact : env.tfhe.Exact)
    (h : permuteCiphertexts env items permutation = .ok row) :
    Permuted env permutation items row := by
  obtain ⟨output, rfl, hRead⟩ := permuteCiphertexts_eq_ok h
  intro dest
  rw [plaintexts_copy hExact, plaintexts, plaintexts, List.getElem?_map]
  by_cases hDest : dest < permutation.length
  · have hOutput : dest < output.length := hRead.length_eq ▸ hDest
    have hItem : items[permutation[dest]]? = some output[dest] := hRead.get hDest hOutput
    rw [List.getElem?_eq_getElem hDest, List.getElem?_eq_getElem hOutput, Option.map_some,
      Option.bind_some, List.getElem?_map, hItem, Option.map_some]
  · rw [List.getElem?_eq_none (Nat.not_lt.mp hDest),
      List.getElem?_eq_none (hRead.length_eq ▸ Nat.not_lt.mp hDest)]
    rfl

theorem perm_permutationAt (env : Env) (tick : Nat) :
    (permutationAt env tick).Perm (List.range env.cfg.slots) := by
  have hPerm := Equiv.Perm.ofFn_comp_perm (env.entropy.shuffle tick env.cfg.slots) Fin.val
  have hRange : List.ofFn (Fin.val : Fin env.cfg.slots → Nat) = List.range env.cfg.slots := by
    rw [List.ofFn_eq_map, List.map_coe_finRange_eq_range]
  exact hRange ▸ hPerm

theorem swapBitsFor_eq_ok {size : Nat} (hTwo : 2 ≤ size)
    (hPermutation : permutation.Perm (List.range size)) :
    ∃ swapBits, swapBitsFor size permutation = .ok swapBits ∧
    swapBits.length = (buildNetwork size).length ∧
      applySwapBits (buildNetwork size) swapBits (List.range size) = permutation := by
  rw [swapBitsFor, WaksmanNetwork.construct, if_neg (Nat.not_lt.mpr hTwo), ok_bind]
  exact generateSwapBits_eq_ok hPermutation

/-- The network permutes like the client. -/
theorem permuted_of_eval (hExact : env.tfhe.Exact) {tgsw : Tgsw env.tfhe} (hTgsw : tgsw.Exact)
    {swapBits : List Bool} {bits : List tgsw.Ciphertext} (hTwo : 2 ≤ items.length)
    (hPermutation : permutation.Perm (List.range items.length))
    (hBits : swapBitsFor items.length permutation = .ok swapBits)
    (hEncrypted : EncryptsBits tgsw bits swapBits) :
    ∃ output, evalWaksman tgsw items (bits.map some) = .ok output ∧ output.length = items.length ∧
      Permuted env permutation items output := by
  obtain ⟨_, hBits', hCount, hReplay⟩ := swapBitsFor_eq_ok hTwo hPermutation
  rw [hBits] at hBits'
  cases hBits'
  obtain ⟨output, hEval, hOutput⟩ := evalWaksman_eq_ok hExact hTgsw hEncrypted hTwo hCount
  refine ⟨output, hEval, ?_, fun dest => ?_⟩
  · have hLength := congrArg List.length hOutput
    simpa using hLength
  rw [plaintexts, hOutput]
  exact getElem?_applySwapBits (by rwa [List.length_map]) dest

end Plaintexts

section Assembly

variable {env : Env} {ids childIds : List Int} {bucket childBucket : List env.Ciphertext}
  {keep : Int → Bool}

theorem copySlots_slotsWhere (what : String) (hIds : ids.length = env.cfg.slots)
    (hBucket : bucket.length = env.cfg.slots) (keep : Int → Bool) :
    copySlots env what bucket ((slotsWhere keep ids).map UInt64.ofNat) =
      .ok (((ids.zip bucket).filter fun slot => keep slot.1).map fun slot =>
        env.tfhe.tLweCopy slot.2) := by
  have hZip : ids.zip bucket =
      (List.range ids.length).map fun slot =>
        (ids.getD slot (-1), bucket.getD slot env.tfhe.tLweClear) := by
    apply List.ext_getElem (by simp [hIds, hBucket])
    intro i hi _
    rw [List.length_zip] at hi
    rw [List.getElem_zip, List.getElem_map, List.getElem_range, List.getD_eq_getElem _ _ (by omega),
      List.getD_eq_getElem _ _ (by omega)]
  have hFilter : (ids.zip bucket).filter (fun slot => keep slot.1) =
      (slotsWhere keep ids).map fun slot =>
        (ids.getD slot (-1), bucket.getD slot env.tfhe.tLweClear) := by
    rw [hZip, List.filter_map]
    rfl
  rw [hFilter, List.map_map]
  apply mapM_eq_ok
  rw [List.forall₂_map_left_iff, List.forall₂_map_right_iff, List.forall₂_same]
  intro slot hSlot
  have hLt : slot < env.cfg.slots := hIds ▸ List.mem_range.mp (List.mem_filter.mp hSlot).1
  rw [toNat_ofNat_slot hLt, List.getElem?_eq_getElem (hBucket ▸ hLt)]
  exact congrArg (fun x => Except.ok (env.tfhe.tLweCopy x))
    (List.getD_eq_getElem _ _ (hBucket ▸ hLt)).symm

theorem routedTo_eq (positionMap : List UInt64) (shift : Nat) (right : Bool)
    (slots : List (Slot env)) :
    (routedTo env positionMap shift right slots).map Prod.snd =
      (slots.filter fun slot => routesTo positionMap shift right slot.1).map fun slot =>
        env.tfhe.tLweCopy slot.2 := by
  rw [routedTo, liveSlots, List.filter_filter, List.map_map]
  rfl

theorem childBlocks_eq (ids : List Int) (bucket : List env.Ciphertext) :
    (childBlocks env ids bucket).map Prod.snd =
      ((ids.zip bucket).filter fun slot => decide (0 ≤ slot.1)).map fun slot =>
        env.tfhe.tLweCopy slot.2 := by
  rw [childBlocks, List.map_map]
  rfl

/-- The server assembles the slots that the client pads. -/
theorem assembleChildSlots_eq_ok (hIds : ids.length = env.cfg.slots)
    (hBucket : bucket.length = env.cfg.slots) (hChildIds : childIds.length = env.cfg.slots)
    (hChildBucket : childBucket.length = env.cfg.slots)
    (positionMap : List UInt64) (shift : Nat) (right : Bool) :
    assembleChildSlots env bucket
      ((slotsWhere (routesTo positionMap shift right) ids).map UInt64.ofNat) childBucket
        ((slotsWhere (fun id => 0 ≤ id) childIds).map UInt64.ofNat) env.cfg.slots =
      .ok ((padSlots env (routedTo env positionMap shift right (ids.zip bucket) ++
        childBlocks env childIds childBucket)).map Prod.snd) := by
  rw [assembleChildSlots, copySlots_slotsWhere _ hIds hBucket, ok_bind,
    copySlots_slotsWhere _ hChildIds hChildBucket,
    ok_bind, ← routedTo_eq, ← childBlocks_eq, padSlots, List.map_append,
    List.map_append, List.map_replicate,
    List.length_append, ← @List.length_map _ _ (routedTo _ _ _ _ _) Prod.snd,
    ← @List.length_map _ _ (childBlocks _ _ _) Prod.snd, ← List.length_append]
  rfl

end Assembly

section Server

variable {env : Env} {tgsw : Tgsw env.tfhe} {server : Server env.Ciphertext} {swapBits : List Bool}

theorem receiveSwapBits_spec (hTgsw : tgsw.Exact) (bits : SwapBits tgsw) :
    Returns (receiveSwapBits env tgsw (UInt64.ofNat bits.bits.length)
      (bits.bits.map tgsw.exportSample)) server
      fun received server' => received = bits.bits ∧ server' = server := by
  have hFits := bits.fits
  have hCount : (UInt64.ofNat bits.bits.length).toNat = bits.bits.length := by
    apply UInt64.toNat_ofNat_of_lt'
    rw [vectorMaxSize] at hFits
    rw [UInt64.size]
    omega
  have hReceived :=
    @recvItems_spec (Server env.Ciphertext) _ server (bits.bits.map tgsw.exportSample)
  rw [List.length_map] at hReceived
  rw [receiveSwapBits, hCount]
  refine Returns.check_bind (Nat.not_lt.mpr hFits) (hReceived.bind ?_)
  rintro _ _ ⟨rfl, rfl⟩
  refine Returns.pure ⟨?_, rfl⟩
  rw [List.map_map]
  exact (List.map_congr_left fun x _ => hTgsw.import_export x).trans (List.map_id _)

theorem replaceBucket_spec {b : Nat} {contents : List env.Ciphertext}
    (hLength : (server.tree b).length = contents.length) :
    Returns (replaceBucket env b contents) server fun _ server' =>
      server' = { server with
        tree := Function.update server.tree b (contents.map env.tfhe.tLweCopy) } :=
  Returns.get_bind (Returns.check_bind (not_not.mpr hLength) (Returns.set rfl))

/-- One child on the server. The first child may already have been replaced. -/
theorem receiveChildUpdate_spec (hExact : env.tfhe.Exact) (hTgsw : tgsw.Exact)
    (hTwo : 2 ≤ env.cfg.slots) {w : World env.Ciphertext} {shift source child : Nat} {right : Bool}
    (hSourceIds : (w.idMap source).length = env.cfg.slots)
    (hChildIds : (w.idMap child).length = env.cfg.slots)
    (hSourceRow : (w.server.tree source).length = env.cfg.slots)
    (hChildRow : (w.server.tree child).length = env.cfg.slots)
    (hFits : (childInput env w shift source child right).length ≤ env.cfg.slots)
    (hSource : server.tree source = w.server.tree source)
    (hChild : server.tree child = w.server.tree child)
    {permutation : List Nat} (hPermutation : permutation.Perm (List.range env.cfg.slots))
    (hBits : swapBitsFor env.cfg.slots permutation = .ok swapBits) {bits : SwapBits tgsw}
    (hEncrypted : EncryptsBits tgsw bits.bits swapBits) :
    Returns (receiveChildUpdate env tgsw source child
      (childUpdate env tgsw w shift source child right bits)) server
      fun _ server' => ∃ row,
      Permuted env permutation
        ((padSlots env (childInput env w shift source child right)).map Prod.snd)
        row ∧ server' = { server with tree := Function.update server.tree child row } := by
  have hInput : assembleChildSlots env (server.tree source)
      ((slotsWhere (routesTo w.positionMap shift right) (w.idMap source)).map UInt64.ofNat)
        (server.tree child)
      ((slotsWhere (fun id => 0 ≤ id) (w.idMap child)).map UInt64.ofNat) env.cfg.slots =
      .ok ((padSlots env (childInput env w shift source child right)).map Prod.snd) := by
    rw [hSource, hChild, childInput, map_transmit hExact, map_transmit hExact]
    exact assembleChildSlots_eq_ok hSourceIds hSourceRow hChildIds hChildRow _ _ _
  have hLength : ((padSlots env (childInput env w shift source child right)).map Prod.snd).length =
      env.cfg.slots := by
    rw [List.length_map, length_padSlots hFits]
  obtain ⟨output, hEval, hOutput, hPermuted⟩ :=
    @permuted_of_eval env permutation _ hExact tgsw hTgsw swapBits bits.bits
    (hLength.symm ▸ hTwo) (hLength.symm ▸ hPermutation) (hLength.symm ▸ hBits) hEncrypted
  refine Returns.ok_bind (deserializeUint64Vector_serialize _)
    (Returns.ok_bind (deserializeUint64Vector_serialize _) ?_)
  apply (receiveSwapBits_spec hTgsw bits).bind
  rintro _ _ ⟨rfl, rfl⟩
  refine Returns.get_bind (Returns.ok_bind hInput (Returns.ok_bind hEval ?_))
  apply (replaceBucket_spec (by rw [hChild, hChildRow, hOutput, hLength])).mono
  rintro _ _ rfl
  refine ⟨_, ?_, rfl⟩
  rwa [Permuted, plaintexts_copy hExact]

end Server

section Client

variable {env : Env} {w w' : World env.Ciphertext} {level source : Nat}
  {positionMap : List UInt64} {shift : Nat}

/-- The routing loop returns only if every block is in the position map. -/
theorem mapped_of_routeBlock {slots : List (Slot env)}
    {inputs routed : List (Slot env) × List (Slot env)}
    (h : slots.foldlM (routeBlock env positionMap shift) inputs = .ok routed) :
    ∀ slot ∈ slots, 0 ≤ slot.1 → slot.1.toNat < positionMap.length := by
  induction slots generalizing inputs with
  | nil => simp
  | cons slot slots ih =>
    rw [List.foldlM_cons] at h
    cases hStep : routeBlock env positionMap shift inputs slot with
    | error e =>
      rw [hStep] at h
      cases h
    | ok next =>
      rw [hStep] at h
      refine List.forall_mem_cons.mpr ⟨fun hId => ?_, ih h⟩
      rw [routeBlock, if_neg (Int.not_lt.mpr hId), readPosition] at hStep
      by_contra hNot
      rw [List.getElem?_eq_none (Nat.not_lt.mp hNot)] at hStep
      cases hStep

theorem makeRandomPermutation_run :
    Returns (makeRandomPermutation env env.cfg.slots) w fun permutation w' =>
      permutation = permutationAt env w.prng ∧ w' = { w with prng := w.prng + 1 } :=
  Returns.get_bind (Returns.set_bind (Returns.pure ⟨rfl, rfl⟩))

theorem length_permuteCiphertexts {items row : List env.Ciphertext} {tick : Nat}
    (h : permuteCiphertexts env items (permutationAt env tick) = .ok row) :
    row.length = env.cfg.slots := by
  obtain ⟨output, rfl, hRead⟩ := permuteCiphertexts_eq_ok h
  rw [List.length_map, ← hRead.length_eq, permutationAt, List.length_ofFn]

/-- The tree after a triplet eviction of the client. -/
def TripletReplaced (env : Env) (w : World env.Ciphertext) (level source : Nat)
    (tree : Nat → List env.Ciphertext) : Prop :=
  ∃ rows : Bool → List env.Ciphertext,
    (∀ right, (childInput env w (env.cfg.height - level - 1) source (child source right)
      right).length ≤ env.cfg.slots ∧
      permuteCiphertexts env
        ((padSlots env (childInput env w (env.cfg.height - level - 1) source (child source right)
          right)).map Prod.snd)
        (permutationAt env (w.prng + right.toNat)) = .ok (rows right)) ∧
    tree = replaceTriplet w.server.tree source
      ((List.replicate env.cfg.slots env.tfhe.tLweClear).map env.tfhe.transmit) fun right =>
        (rows right).map env.tfhe.transmit

/-- What a triplet eviction that returns does to the tree, whatever the buckets hold. -/
theorem tripletEvict_tree (hHeight : env.cfg.height < 63) (hShaped : Shaped env w.server)
    (hInner : Inner env.cfg level source)
    (hRun : (tripletEvict env source (2 * source + 1) (2 * source + 2)).run w = .ok () w') :
    TripletReplaced env w level source w'.server.tree := by
  suffices hSpec : wp (tripletEvict env source (2 * source + 1) (2 * source + 2)) w
      (fun _ w' => TripletReplaced env w level source w'.server.tree)
        (fun _ _ => True) from (wp_iff.mp hSpec).1 _ _ hRun
  have hSource := hInner.mem_nodes
  have hLeft := hInner.child_mem_nodes false
  have hRight := hInner.child_mem_nodes true
  unfold tripletEvict
  rw [hInner.getNodeLevel_eq]
  apply Returns.outcome_bind (fetchBucketCiphertexts_spec hHeight hShaped hSource)
  rintro _ _ ⟨rfl, first, rfl⟩
  refine Returns.outcome_bind (fetchBucketCiphertexts_spec hHeight hShaped hLeft) ?_
  rintro _ _ ⟨rfl, second, rfl⟩
  refine Returns.outcome_bind (fetchBucketCiphertexts_spec hHeight hShaped hRight) ?_
  rintro _ _ ⟨rfl, third, rfl⟩
  apply wp.get_bind
  rw [World.served_served, World.served_served]
  generalize first ++ (second ++ third) = events
  apply wp.fromExcept_bind (fun _ _ => trivial)
  intro routed hRouted
  have hRoute := @routeBlock_foldlM env w.positionMap (env.cfg.height - level - 1)
    ((w.idMap source).zip ((w.server.tree source).map env.tfhe.transmit))
      (mapped_of_routeBlock hRouted) ([], [])
  obtain rfl := Except.ok.inj (hRouted.symm.trans hRoute)
  apply wp.check_bind (fun _ => trivial)
  intro hFits
  rw [not_or, Nat.not_lt, Nat.not_lt] at hFits
  apply Returns.outcome_bind makeRandomPermutation_run
  rintro _ _ ⟨rfl, rfl⟩
  apply Returns.outcome_bind makeRandomPermutation_run
  rintro _ _ ⟨rfl, rfl⟩
  apply wp.fromExcept_bind (fun _ _ => trivial)
  intro leftRow hLeftRow
  apply wp.fromExcept_bind (fun _ _ => trivial)
  intro rightRow hRightRow
  have hLeftLength := length_permuteCiphertexts hLeftRow
  have hRightLength := length_permuteCiphertexts hRightRow
  have hShaped' :=
    hShaped.update (b := child source false) ((List.length_map env.tfhe.transmit).trans hLeftLength)
  have hShaped'' :=
    hShaped'.update (b := child source true)
      ((List.length_map env.tfhe.transmit).trans hRightLength)
  apply Returns.outcome_bind (writeBucketCiphertexts_spec hHeight ?shaped hLeft hLeftLength)
  case shaped => exact hShaped
  rintro _ _ ⟨fourth, rfl⟩
  apply Returns.outcome_bind (writeBucketCiphertexts_spec hHeight ?shaped hRight hRightLength)
  case shaped => exact hShaped'
  rintro _ _ ⟨fifth, rfl⟩
  apply Returns.outcome_bind
    (writeBucketCiphertexts_spec hHeight ?shaped hSource List.length_replicate)
  case shaped => exact hShaped''
  rintro _ _ ⟨sixth, rfl⟩
  have hTree : TripletReplaced env w level source
      (Function.update (Function.update (Function.update w.server.tree
        (child source false) (leftRow.map env.tfhe.transmit)) (child source true)
        (rightRow.map env.tfhe.transmit)) source
        ((List.replicate env.cfg.slots env.tfhe.tLweClear).map env.tfhe.transmit)) := by
    refine ⟨fun right => bif right then rightRow else leftRow, ?_, ?_⟩
    · intro right
      cases right with
      | false => exact ⟨hFits.1, hLeftRow⟩
      | true => exact ⟨hFits.2, hRightRow⟩
    · rw [replaceTriplet_eq]
      congr
      funext right
      cases right with
      | false => rfl
      | true => rfl
  refine wp.modify_bind (wp.fromExcept_bind (fun _ _ => trivial) fun leftIds _ => ?_)
  refine wp.modify_bind (wp.fromExcept_bind (fun _ _ => trivial) fun rightIds _ => ?_)
  exact Returns.outcome (Returns.modify hTree)

theorem refreshSlot_reEncrypts (ciphertext : env.Ciphertext) :
    wp (refreshSlot env ciphertext) w (fun refreshed w' => ReEncrypts env refreshed ciphertext ∧
      ∃ noise, w' = { w with noise := noise }) (fun _ _ => True) := by
  apply wp.fromExcept_bind (fun _ _ => trivial)
  intro plaintext hDecrypt
  apply wp.fromExcept_bind (fun _ _ => trivial)
  intro poly hEncode
  refine wp.get_bind (Returns.outcome (Returns.set_bind (Returns.pure ⟨⟨w.noise, ?_⟩, _, rfl⟩)))
  rw [decryptBlock] at hDecrypt
  rw [encodeBlock] at hEncode
  split at hDecrypt
  · cases hDecrypt
  · cases hDecrypt
    split at hEncode
    · cases hEncode
    · cases hEncode
      rfl

/-- The tree after a leaf refresh of the client. -/
def LeafReplaced (env : Env) (w : World env.Ciphertext) (b : Nat)
    (tree : Nat → List env.Ciphertext) : Prop :=
  ∃ refreshed row,
    List.Forall₂ (ReEncrypts env) refreshed ((w.server.tree b).map env.tfhe.transmit) ∧
    permuteCiphertexts env refreshed (permutationAt env w.prng) = .ok row ∧
    tree = Function.update w.server.tree b (row.map env.tfhe.transmit)

theorem leafRefresh_tree {b : Nat} (hHeight : env.cfg.height < 63) (hShaped : Shaped env w.server)
    (hb : b ∈ env.cfg.nodes)
    (hRun : (leafRefresh env b).run w = .ok () w') : LeafReplaced env w b w'.server.tree := by
  suffices hSpec :
      wp (leafRefresh env b) w (fun _ w' => LeafReplaced env w b w'.server.tree)
        (fun _ _ => True) from
    (wp_iff.mp hSpec).1 _ _ hRun
  apply Returns.outcome_bind (fetchBucketCiphertexts_spec hHeight hShaped hb)
  rintro _ _ ⟨rfl, events, rfl⟩
  refine wp.bind (wp.mapM (fun w' => ∃ noise,
    w' = { w.served w.server.tree events with noise := noise })
    (ReEncrypts env) ⟨_, rfl⟩ ?step) ?_
  case step =>
    rintro ciphertext _ _ ⟨noise, rfl⟩
    refine wp_mono (refreshSlot_reEncrypts ciphertext) ?_ fun _ _ => id
    rintro _ _ ⟨hRefreshed, noise', rfl⟩
    exact ⟨hRefreshed, _, rfl⟩
  rintro refreshed _ ⟨hRefreshed, noise, rfl⟩
  apply Returns.outcome_bind makeRandomPermutation_run
  rintro _ _ ⟨rfl, rfl⟩
  refine wp.get_bind (wp.fromExcept_bind (fun _ _ => trivial) fun row hRow => ?_)
  apply Returns.outcome_bind
    (writeBucketCiphertexts_spec hHeight ?shaped hb (length_permuteCiphertexts hRow))
  case shaped => exact hShaped
  rintro _ _ ⟨events', rfl⟩
  apply wp.fromExcept_bind (fun _ _ => trivial)
  intro ids _
  exact Returns.outcome (Returns.modify ⟨refreshed, row, hRefreshed, hRow, rfl⟩)

end Client

section Agreement

variable {env : Env} {tgsw : Tgsw env.tfhe} {w w' : World env.Ciphertext} {level source b : Nat}

/-- Two trees that decrypt to the same. -/
def SameTree (env : Env) (tree tree' : Nat → List env.Ciphertext) : Prop :=
  ∀ b, plaintexts env (tree b) = plaintexts env (tree' b)

theorem SameTree.holds_iff {tree tree' : Nat → List env.Ciphertext}
    (h : SameTree env tree tree') (memory : Memory) (ids : List Int) (b : Nat) :
    Holds env memory ids (tree b) ↔ Holds env memory ids (tree' b) := by
  have hHolds : ∀ row, Holds env memory ids row ↔ env.tfhe.Exact →
      ∀ slot ∈ ids.zip (plaintexts env row), slot.2 = content env.cfg.tlweN memory slot.1 := by
    intro row
    rw [plaintexts, List.zip_map_right]
    simp only [Holds, Matches, List.forall_mem_map, Prod.map]
    exact ⟨fun h hExact slot hSlot => h slot hSlot hExact,
      fun h slot hSlot hExact => h hExact slot hSlot⟩
  rw [hHolds, hHolds, h b]

theorem handleEvictTriplet_agrees (hExact : env.tfhe.Exact) (hTgsw : tgsw.Exact)
    (hHeight : env.cfg.height < 63) (hTwo : 2 ≤ env.cfg.slots) (hShaped : Shaped env w.server)
    (hIds : ∀ b ∈ env.cfg.nodes, (w.idMap b).length = env.cfg.slots)
    (hInner : Inner env.cfg level source)
    {tree : Nat → List env.Ciphertext} (hTree : TripletReplaced env w level source tree)
    {swapBits : Bool → List Bool} {bits : Bool → SwapBits tgsw}
    (hBits : ∀ right, swapBitsFor env.cfg.slots (permutationAt env (w.prng + right.toNat)) =
      .ok (swapBits right))
    (hEncrypted : ∀ right, EncryptsBits tgsw (bits right).bits (swapBits right)) :
    Returns (handleEvictTriplet env tgsw (UInt64.ofNat source) (UInt64.ofNat (2 * source + 1))
      (UInt64.ofNat (2 * source + 2))
      (childUpdate env tgsw w (env.cfg.height - level - 1) source
        (2 * source + 1) false (bits false))
      (childUpdate env tgsw w (env.cfg.height - level - 1) source (2 * source + 2) true
        (bits true))) w.server
      fun response server => response = .ack ∧ SameTree env server.tree tree := by
  obtain ⟨rows, hRows, rfl⟩ := hTree
  have hSource := hInner.mem_nodes
  have hLeft : 2 * source + 1 ∈ env.cfg.nodes := hInner.child_mem_nodes false
  have hRight : 2 * source + 2 ∈ env.cfg.nodes := hInner.child_mem_nodes true
  have hInside : ∀ {b}, b ∈ env.cfg.nodes → ¬ w.server.treeSize ≤ b := by
    intro b hb
    rw [hShaped.treeSize]
    exact Nat.not_le.mpr (mem_nodes.mp hb)
  apply Returns.get_bind
  rw [toNat_ofNat_node hHeight hSource, toNat_ofNat_node hHeight hLeft,
    toNat_ofNat_node hHeight hRight]
  refine Returns.check_bind
    (not_or.mpr ⟨hInside hSource, not_or.mpr ⟨hInside hLeft, hInside hRight⟩⟩) ?_
  refine (receiveChildUpdate_spec hExact hTgsw hTwo (hIds _ hSource) (hIds _ hLeft)
    (hShaped.rows _ hSource)
    (hShaped.rows _ hLeft) (hRows false).1 rfl rfl (perm_permutationAt env _) (hBits false)
      (hEncrypted false)).bind ?_
  rintro _ _ ⟨leftRow, hLeftRow, rfl⟩
  have hSourceKept :
      Function.update w.server.tree (2 * source + 1) leftRow source = w.server.tree source :=
    Function.update_of_ne (source_ne_child source false) _ _
  have hRightKept :
      Function.update w.server.tree (2 * source + 1) leftRow (2 * source + 2) =
        w.server.tree (2 * source + 2) :=
    Function.update_of_ne (left_ne_right source).symm _ _
  refine (receiveChildUpdate_spec hExact hTgsw hTwo (hIds _ hSource) (hIds _ hRight)
    (hShaped.rows _ hSource)
    (hShaped.rows _ hRight) (hRows true).1 hSourceKept hRightKept
      (perm_permutationAt env _) (hBits true)
    (hEncrypted true)).bind ?_
  rintro _ _ ⟨rightRow, hRightRow, rfl⟩
  refine Returns.modify_bind (Returns.pure ⟨rfl, fun b => ?_⟩)
  have hSourceKept' :
      Function.update (Function.update w.server.tree (2 * source + 1) leftRow)
        (2 * source + 2) rightRow source =
      w.server.tree source :=
      (Function.update_of_ne (source_ne_child source true) _ _).trans hSourceKept
  dsimp only
  rw [hSourceKept', List.map_const', hShaped.rows _ hSource]
  have hReplaced :=
    replaceTriplet_eq w.server.tree source (List.replicate env.cfg.slots env.tfhe.tLweClear)
      leftRow rightRow
  rw [show child source false = 2 * source + 1 from rfl,
    show child source true = 2 * source + 2 from rfl] at hReplaced
  rw [hReplaced]
  have hCleared : (List.replicate env.cfg.slots env.tfhe.tLweClear).map env.tfhe.transmit =
      List.replicate env.cfg.slots env.tfhe.tLweClear := map_transmit hExact _
  obtain ⟨right, _, hRow, hRow'⟩ | ⟨_, hRow, hRow'⟩ | ⟨hRow, hRow'⟩ :=
    replaceTriplet_cases w.server.tree w.server.tree source
    (List.replicate env.cfg.slots env.tfhe.tLweClear) _
      (fun side => bif side then rightRow else leftRow)
    (fun right => (rows right).map env.tfhe.transmit) b
  · rw [hRow, hRow', map_transmit hExact]
    have hPermuted := permuted_of_permute hExact (hRows right).2
    cases right with
    | false => exact hLeftRow.plaintexts_eq hPermuted
    | true => exact hRightRow.plaintexts_eq hPermuted
  · rw [hRow, hRow', hCleared]
  · rw [hRow, hRow']

theorem handleLeafRefresh_agrees (hExact : env.tfhe.Exact) (hTgsw : tgsw.Exact)
    (hHeight : env.cfg.height < 63)
    (hTwo : 2 ≤ env.cfg.slots) (hShaped : Shaped env w.server) (hb : b ∈ env.cfg.nodes)
    {tree : Nat → List env.Ciphertext}
    (hTree : LeafReplaced env w b tree) {swapBits : List Bool} {bits : SwapBits tgsw}
    (hBits : swapBitsFor env.cfg.slots (permutationAt env w.prng) = .ok swapBits)
    (hEncrypted : EncryptsBits tgsw bits.bits swapBits) {slots : List env.Ciphertext}
    (hSlots : List.Forall₂ (ReEncrypts env) slots (w.server.tree b)) :
    Returns (handleLeafRefresh env tgsw (UInt64.ofNat b) fun _ =>
      refreshPayload env tgsw slots bits) w.server
      fun response server => response = .ack ∧ SameTree env server.tree tree := by
  obtain ⟨refreshed, row, hRefreshed, hRow, rfl⟩ := hTree
  rw [map_transmit hExact] at hRefreshed
  have hLength : slots.length = env.cfg.slots :=
    (List.Forall₂.length_eq hSlots).trans (hShaped.rows b hb)
  have hSame : plaintexts env slots = plaintexts env refreshed := by
    clear hRow hLength
    generalize w.server.tree b = old at hSlots hRefreshed
    induction hSlots generalizing refreshed with
    | nil =>
      cases hRefreshed
      rfl
    | cons hHead _ ih =>
      obtain ⟨noise, rfl⟩ := hHead
      cases hRefreshed with
      | cons hHead' hTail' =>
        obtain ⟨noise', rfl⟩ := hHead'
        rw [plaintexts, List.map_cons, hExact.decrypt_encrypt]
        rw [plaintexts, List.map_cons, hExact.decrypt_encrypt]
        exact congrArg _ (ih _ hTail')
  obtain ⟨output, hEval, hOutput, hPermuted⟩ :=
    @permuted_of_eval env (permutationAt env w.prng) slots hExact tgsw hTgsw swapBits
    bits.bits (hLength.symm ▸ hTwo) (hLength.symm ▸ perm_permutationAt env _)
      (hLength.symm ▸ hBits) hEncrypted
  apply Returns.get_bind
  rw [toNat_ofNat_node hHeight hb, hShaped.treeSize]
  refine Returns.check_bind (Nat.not_le.mpr (mem_nodes.mp hb))
    (Returns.check_bind (not_not.mpr rfl) ?_)
  have hReceived :=
    @recvItems_spec (Server env.Ciphertext) _ w.server (slots.map env.tfhe.exportSample)
  rw [List.length_map, hLength] at hReceived
  apply hReceived.bind
  rintro _ _ ⟨rfl, rfl⟩
  apply (receiveSwapBits_spec hTgsw bits).bind
  rintro _ _ ⟨rfl, rfl⟩
  have hImported : (slots.map env.tfhe.exportSample).map env.tfhe.importSample = slots := by
    rw [List.map_map]
    exact map_transmit hExact slots
  rw [hImported]
  refine Returns.ok_bind hEval
    ((replaceBucket_spec (by rw [hShaped.rows b hb, hOutput, hLength])).bind ?_)
  rintro _ _ rfl
  refine Returns.pure ⟨rfl, fun other => ?_⟩
  dsimp only
  rcases eq_or_ne other b with rfl | hNe
  · rw [Function.update_self, Function.update_self, plaintexts_copy hExact, map_transmit hExact]
    have hClient := permuted_of_permute hExact hRow
    rw [Permuted, ← hSame] at hClient
    exact hPermuted.plaintexts_eq hClient
  · rw [Function.update_of_ne hNe, Function.update_of_ne hNe]

/-- The evictions of the server leave what those of the client leave, so that the id map describes
either tree. -/
theorem serverEviction_agrees (hExact : env.tfhe.Exact) (hTgsw : tgsw.Exact)
    (hHeight : env.cfg.height < 63) (hTwo : 2 ≤ env.cfg.slots) (hShaped : Shaped env w.server)
    (hIds : ∀ b ∈ env.cfg.nodes, (w.idMap b).length = env.cfg.slots) :
    (∀ level source w', Inner env.cfg level source →
      (tripletEvict env source (2 * source + 1) (2 * source + 2)).run w = .ok () w' →
      ∀ (swapBits : Bool → List Bool) (bits : Bool → SwapBits tgsw),
        (∀ right, swapBitsFor env.cfg.slots (permutationAt env (w.prng + right.toNat)) =
          .ok (swapBits right)) →
        (∀ right, EncryptsBits tgsw (bits right).bits (swapBits right)) →
        ∃ server, (handleEvictTriplet env tgsw (UInt64.ofNat source) (UInt64.ofNat (2 * source + 1))
            (UInt64.ofNat (2 * source + 2))
            (childUpdate env tgsw w (env.cfg.height - level - 1) source
              (2 * source + 1) false (bits false))
            (childUpdate env tgsw w (env.cfg.height - level - 1) source (2 * source + 2) true
              (bits true))).run w.server =
            .ok .ack server ∧
          SameTree env server.tree w'.server.tree ∧ ∀ memory b,
            Holds env memory (w'.idMap b) (server.tree b) ↔
              Holds env memory (w'.idMap b) (w'.server.tree b)) ∧
    ∀ b w', b ∈ env.cfg.nodes → (leafRefresh env b).run w = .ok () w' →
      ∀ (swapBits : List Bool) (bits : SwapBits tgsw) (slots : List env.Ciphertext),
        swapBitsFor env.cfg.slots (permutationAt env w.prng) = .ok swapBits →
        EncryptsBits tgsw bits.bits swapBits →
        List.Forall₂ (ReEncrypts env) slots (w.server.tree b) →
        ∃ server, (handleLeafRefresh env tgsw (UInt64.ofNat b) fun _ =>
          refreshPayload env tgsw slots bits).run w.server =
            .ok .ack server ∧
          SameTree env server.tree w'.server.tree ∧ ∀ memory b,
            Holds env memory (w'.idMap b) (server.tree b) ↔
              Holds env memory (w'.idMap b) (w'.server.tree b) := by
  constructor
  · intro level source w' hInner hRun swapBits bits hBits hEncrypted
    have hTree := tripletEvict_tree hHeight hShaped hInner hRun
    obtain ⟨_, server, hHandler, rfl, hSame⟩ := returns_iff.mp
      (handleEvictTriplet_agrees hExact hTgsw hHeight hTwo hShaped hIds hInner
        hTree hBits hEncrypted)
    exact ⟨server, hHandler, hSame, fun memory b => hSame.holds_iff memory _ b⟩
  · intro b w' hb hRun swapBits bits slots hBits hEncrypted hSlots
    have hTree := leafRefresh_tree hHeight hShaped hb hRun
    obtain ⟨_, server, hHandler, rfl, hSame⟩ := returns_iff.mp
      (handleLeafRefresh_agrees hExact hTgsw hHeight hTwo hShaped hb hTree hBits hEncrypted hSlots)
    exact ⟨server, hHandler, hSame, fun memory b => hSame.holds_iff memory _ b⟩

/-- Encryptions of some bits under one noise. -/
def plainSwapBits (swapBits : List Bool)
    (hFits : swapBits.length ≤ vectorMaxSize / 16) : SwapBits (Tgsw.plain 4) :=
  ⟨swapBits.map (encryptBit (Tgsw.plain 4) 0), by rwa [List.length_map]⟩

theorem encryptsBits_plain (swapBits : List Bool) (hFits : swapBits.length ≤ vectorMaxSize / 16) :
    EncryptsBits (Tgsw.plain 4) (plainSwapBits swapBits hFits).bits swapBits := by
  rw [plainSwapBits, EncryptsBits, List.forall₂_map_left_iff, List.forall₂_same]
  exact fun _ _ => ⟨0, rfl⟩

/-- Two leaves, three slots in a bucket, three blocks and an eviction after every third access.
Every shuffle rotates. -/
def Env.rotating : Env where
  cfg := { z := 2, s := 1, a := 3, treeHeight := 1, numBlocks := 3, blockSize := 2, tlweN := 4 }
  entropy := ⟨fun tick => tick, fun _ size => finRotate size, fun _ => Vector.replicate 16 0⟩
  tfhe := Tfhe.plain 4

def rotatingCalls : List Call :=
  [⟨.write, 0, [5, 6]⟩, ⟨.write, 1, [7, 7]⟩, ⟨.write, 2, [8, 9]⟩,
    ⟨.write, 0, [1, 2]⟩, ⟨.read, 1, []⟩]

/-- The id rows of the three buckets. -/
def idRows (w : World Env.rotating.Ciphertext) : List (List Int) := (List.range 3).map w.idMap

/-- The id rows after a computation that does not throw. -/
def idRowsAfter {α : Type} (x : OnionM .rotating α)
    (w : World Env.rotating.Ciphertext) : Option (List (List Int)) :=
  match x.run w with
  | .ok _ w' => some (idRows w')
  | .error _ _ => none

theorem idRows_of_run {α : Type} {x : OnionM .rotating α}
    {w w' : World Env.rotating.Ciphertext} {a : α}
    (hRun : x.run w = .ok a w') {rows : List (List Int)}
    (hRows : idRowsAfter x w = some rows) : idRows w' = rows := by
  rw [idRowsAfter, hRun] at hRows
  exact Option.some_inj.mp hRows

theorem exists_swapBits (tick : Nat) :
    ∃ swapBits, swapBitsFor 3 (permutationAt .rotating tick) = .ok swapBits ∧
    swapBits.length ≤ vectorMaxSize / 16 := by
  obtain ⟨swapBits, hSwapBits, hLength, _⟩ :=
    swapBitsFor_eq_ok (by decide) (perm_permutationAt .rotating tick)
  exact ⟨swapBits, hSwapBits, hLength.trans_le (by decide)⟩

theorem run_rotating : ∃ start results w, (setUp .rotating).run {} = .ok () start ∧
    (rotatingCalls.mapM (performCall .rotating)).run start = .ok results w ∧
    Feasible Env.rotating.cfg ∧
    Coherent .rotating w ((Memory.zero 2).after rotatingCalls) := by
  have hAccepted : Accepted Env.rotating.cfg := ⟨by decide, by decide, by decide, by decide⟩
  obtain ⟨_, start, hSetUp, hReady⟩ := returns_iff.mp (setUp_spec.returns hAccepted)
  obtain ⟨results, w, hCalls⟩ :=
    @performCalls_return _ _ _ rotatingCalls hReady.feasible hReady.coherent (by decide)
      (by decide) (by decide)
  exact ⟨start, results, w, hSetUp, hCalls, hReady.feasible, coherent_of_run hSetUp hCalls⟩

/-- Both blocks of the root are routed, one of them to a leaf that already holds a block and is
refreshed afterwards. -/
theorem serverEviction_agrees_small :
    ∃ start results w w₁ w₂ leftBits rightBits server₁ bits slots server₂,
    (setUp .rotating).run {} = .ok () start ∧
    (rotatingCalls.mapM (performCall .rotating)).run start = .ok results w ∧
    idRows w = [[0, 1, -1], [-1, -1, -1], [2, -1, -1]] ∧
    (tripletEvict .rotating 0 1 2).run w = .ok () w₁ ∧
    (handleEvictTriplet .rotating (Tgsw.plain 4) 0 1 2
      (childUpdate .rotating (Tgsw.plain 4) w 0 0 1 false leftBits)
      (childUpdate .rotating (Tgsw.plain 4) w 0 0 2 true rightBits)).run w.server =
        .ok .ack server₁ ∧
    SameTree .rotating server₁.tree w₁.server.tree ∧
    idRows w₁ = [[-1, -1, -1], [-1, -1, 1], [2, -1, 0]] ∧
    (leafRefresh .rotating 2).run w₁ = .ok () w₂ ∧
    (handleLeafRefresh .rotating (Tgsw.plain 4) 2 fun _ =>
      refreshPayload .rotating (Tgsw.plain 4) slots bits).run w₁.server = .ok .ack server₂ ∧
    SameTree .rotating server₂.tree w₂.server.tree ∧
    idRows w₂ = [[-1, -1, -1], [-1, -1, 1], [-1, 0, 2]] := by
  obtain ⟨start, results, w, hSetUp, hCalls, hFeasible, hCoherent⟩ := run_rotating
  have hInner : Inner Env.rotating.cfg 0 0 := ⟨by decide, 0, by decide, by decide⟩
  have hEvicts : Returns (tripletEvict .rotating 0 1 2) w fun _ w₁ => Coherent .rotating w₁ _ :=
    wp_mono (tripletEvict_spec hFeasible.height_lt hCoherent hInner) (fun _ _ h => h) fun _ _ h =>
      absurd h.2.1 (by decide)
  obtain ⟨_, w₁, hEvict, hCoherent₁⟩ := returns_iff.mp hEvicts
  have hLeaf : 2 ∈ Env.rotating.cfg.nodes := by decide
  obtain ⟨_, w₂, hRefresh, _⟩ := returns_iff.mp
    (leafRefresh_spec hFeasible.height_lt (by decide) hCoherent₁ hLeaf)
  choose swapBits hSwapBits hFits using exists_swapBits
  obtain ⟨server₁, hHandler₁, hSame₁, _⟩ :=
    (@serverEviction_agrees .rotating (Tgsw.plain 4) w (Tfhe.plain_exact 4)
      (Tgsw.plain_exact 4) hFeasible.height_lt (by decide) hCoherent.shaped
      hCoherent.placement.rows).1 0 0 w₁ hInner hEvict
      (fun right => swapBits (w.prng + right.toNat))
      (fun right => plainSwapBits (swapBits (w.prng + right.toNat)) (hFits _))
      (fun right => hSwapBits _) fun right => encryptsBits_plain _ (hFits _)
  obtain ⟨server₂, hHandler₂, hSame₂, _⟩ :=
    (@serverEviction_agrees .rotating (Tgsw.plain 4) w₁ (Tfhe.plain_exact 4)
      (Tgsw.plain_exact 4) hFeasible.height_lt (by decide) hCoherent₁.shaped
      hCoherent₁.placement.rows).2 2 w₂ hLeaf hRefresh
      (swapBits w₁.prng) (plainSwapBits (swapBits w₁.prng) (hFits _))
      ((w₁.server.tree 2).map fun old => Env.rotating.tfhe.tLweSymEncrypt 0
        (message 4 (decodeBlock (Env.rotating.tfhe.tLweSymDecrypt old) 2)))
      (hSwapBits _) (encryptsBits_plain _ (hFits _))
      (List.forall₂_map_left_iff.mpr (List.forall₂_same.mpr fun _ _ => ⟨0, rfl⟩))
  have hRun : (do
      setUp .rotating
      rotatingCalls.mapM (performCall .rotating)).run {} = .ok results w :=
      (run_bind_of_ok hSetUp).trans hCalls
  have hRun₁ : (do
      setUp .rotating
      let _ ← rotatingCalls.mapM (performCall .rotating)
      tripletEvict .rotating 0 1 2).run {} = .ok () w₁ :=
    (run_bind_of_ok hSetUp).trans ((run_bind_of_ok hCalls).trans hEvict)
  have hRun₂ : (do
      setUp .rotating
      let _ ← rotatingCalls.mapM (performCall .rotating)
      tripletEvict .rotating 0 1 2
      leafRefresh .rotating 2).run {} = .ok () w₂ :=
    (run_bind_of_ok hSetUp).trans
      ((run_bind_of_ok hCalls).trans ((run_bind_of_ok hEvict).trans hRefresh))
  exact ⟨start, results, w, w₁, w₂, _, _, server₁, _, _, server₂, hSetUp, hCalls,
    idRows_of_run hRun (by decide +kernel), hEvict, hHandler₁, hSame₁,
    idRows_of_run hRun₁ (by decide +kernel),
    hRefresh, hHandler₂, hSame₂, idRows_of_run hRun₂ (by decide +kernel)⟩

end Agreement
end OramHub.OnionRing
