import Mathlib.Data.List.TakeWhile
import OramHub.Lib.Preservation
import OramHub.OnionRing.Runs
import OramHub.OnionRing.ServerEviction

/-! # Requests that the Onion Ring server rejects

`HandleAccess` and `HandleLeafRefresh` change the tree, if at all, in their last step.
`HandleClearPath` clears each slot as soon as it has been named, and `HandleEvictTriplet` replaces
the left child before it looks at the update of the right one.
-/
namespace OramHub.OnionRing
open OramHub.Core OramHub.Program OramHub.Updates
set_option autoImplicit false

/-- The requests that work on the tree: 'A', 'C', 'U', 'T' and 'L'. -/
inductive TreeRequest
  | access (leaf : UInt64) (selections : List UInt64)
  | clearPath (leaf : UInt64) (selections : List UInt64)
  | writeSlot (bucketIdx slotIdx : UInt64) (bytes : Bytes)
  | evictTriplet (sourceIdx leftIdx rightIdx : UInt64) (left right : ChildUpdate)
  | leafRefresh (bucketIdx : UInt64) (answer : List Bytes → RefreshPayload)

section Statement

variable (env : Env) (tgsw : Tgsw env.tfhe)

def handleTreeRequest : TreeRequest → ServerM env Response
  | .access leaf selections => handleAccess env leaf selections
  | .clearPath leaf selections => handleClearPath env leaf selections
  | .writeSlot bucketIdx slotIdx bytes => handleWriteSlot env bucketIdx slotIdx bytes
  | .evictTriplet sourceIdx leftIdx rightIdx left right =>
    handleEvictTriplet env tgsw sourceIdx leftIdx rightIdx left right
  | .leafRefresh bucketIdx answer => handleLeafRefresh env tgsw bucketIdx answer

/-- If the request is rejected, every slot of the tree holds what it held before. -/
def LeavesTree (server : Server env.Ciphertext) (request : TreeRequest) : Prop :=
  ∀ e server', (handleTreeRequest env tgsw request).run server = .error e server' →
    server'.tree = server.tree

/-- The slots that a request to clear a path names before the first one that is missing or out of
range. -/
def namedSlots (leaf : UInt64) (selections : List UInt64) : List (Nat × Nat) :=
  ((getPathIndices env.cfg leaf).zip (selections.map UInt64.toNat)).takeWhile fun slot =>
    decide (slot.2 < env.cfg.slots)

/-- Both lists name existing slots, no more of them than the bucket has, and there is a swap bit for
every gate. -/
structure ChildUpdate.Acceptable (update : ChildUpdate) : Prop where
  slots : ∃ sourceSlots childSlots, deserializeUint64Vector update.sourceBytes = .ok sourceSlots ∧
    deserializeUint64Vector update.childBytes = .ok childSlots ∧
    sourceSlots.length + childSlots.length ≤ env.cfg.slots ∧
    ∀ slotIdx ∈ sourceSlots ++ childSlots, slotIdx.toNat < env.cfg.slots
  size : 2 ≤ env.cfg.slots
  bits : update.bitCount.toNat = (WaksmanNetwork.buildNetwork env.cfg.slots).length
  room : update.bitCount.toNat ≤ vectorMaxSize / 16
  received : update.bitCount.toNat ≤ update.swapBits.length

/-- The copy of a slot. -/
def slotCopy (bucket : List env.Ciphertext) (slotIdx : UInt64) : env.Ciphertext :=
  env.tfhe.tLweCopy (bucket.getD slotIdx.toNat env.tfhe.tLweClear)

/-- What enters the network: the named slots of the source, then those of the child, then clear
ones. -/
def networkInputs (source child : List env.Ciphertext) (sourceSlots childSlots : List UInt64) :
    List env.Ciphertext :=
  let named := sourceSlots.map (slotCopy env source) ++ childSlots.map (slotCopy env child)
  named ++ List.replicate (env.cfg.slots - named.length) env.tfhe.tLweClear

/-- What the gates make of it, one after the other. -/
def networkOutputs (update : ChildUpdate) (inputs : List env.Ciphertext) : List env.Ciphertext :=
  let swapBits := (update.swapBits.take update.bitCount.toNat).map tgsw.importSample
  (WaksmanNetwork.buildNetwork inputs.length).foldl (WaksmanNetwork.evalGate tgsw swapBits) inputs

/-- The network brings to every slot of the child the ciphertext that the slot holds. -/
def ChildUpdate.Restores (source child : List env.Ciphertext) (update : ChildUpdate) : Prop :=
  ∀ sourceSlots childSlots, deserializeUint64Vector update.sourceBytes = .ok sourceSlots →
    deserializeUint64Vector update.childBytes = .ok childSlots →
    (networkOutputs env tgsw update (networkInputs env source child sourceSlots childSlots)).map
      env.tfhe.tLweCopy = child

/-- Requests whose rejection leaves the tree intact. -/
def Spared (tree : Nat → List env.Ciphertext) : TreeRequest → Prop
  | .clearPath leaf selections => (namedSlots env leaf selections).length < env.cfg.height + 1 →
      ∀ slot ∈ namedSlots env leaf selections, slotAt env tree slot = env.tfhe.tLweClear
  | .evictTriplet sourceIdx leftIdx rightIdx left right =>
      (∀ index ∈ [sourceIdx, leftIdx, rightIdx], index.toNat ∈ env.cfg.nodes) →
      left.Acceptable env →
      ¬ right.Acceptable env →
      left.Restores env tgsw (tree sourceIdx.toNat) (tree leftIdx.toNat)
  | _ => True

end Statement

variable {env : Env} {server : Server env.Ciphertext}

/-! ## Single steps -/

section Steps

variable {tgsw : Tgsw env.tfhe} {what : String} {bucket : List env.Ciphertext} {slots : List UInt64}

theorem copySlots_eq_ok {copies : List env.Ciphertext}
    (h : copySlots env what bucket slots = .ok copies) :
    copies = slots.map (slotCopy env bucket) ∧
      ∀ slotIdx ∈ slots, slotIdx.toNat < bucket.length := by
  have hCopies := forall₂_of_mapM h
  clear h
  induction hCopies with
  | nil => exact ⟨rfl, fun _ hSlot => absurd hSlot List.not_mem_nil⟩
  | @cons slotIdx copy slots copies hCopy _ ih =>
    obtain ⟨rfl, hRange⟩ := ih
    split at hCopy
    · rename_i ciphertext hGet
      cases hCopy
      obtain ⟨hLt, rfl⟩ := List.getElem?_eq_some_iff.mp hGet
      refine ⟨?_, List.forall_mem_cons.mpr ⟨hLt, hRange⟩⟩
      rw [List.map_cons, slotCopy, List.getD_eq_getElem _ _ hLt]
    · cases hCopy

theorem exists_copySlots (h : ∀ slotIdx ∈ slots, slotIdx.toNat < bucket.length) :
    ∃ copies, copySlots env what bucket slots = .ok copies := by
  apply exists_mapM_eq_ok
  intro slotIdx hSlot
  have hRange := h slotIdx hSlot
  exact ⟨env.tfhe.tLweCopy bucket[slotIdx.toNat], by rw [List.getElem?_eq_getElem hRange]⟩

theorem length_evalGate (bits : List tgsw.Ciphertext) (data : List env.Ciphertext)
    (gate : WaksmanGate) :
    (WaksmanNetwork.evalGate tgsw bits data gate).length = data.length := by
  unfold WaksmanNetwork.evalGate
  split
  · simp
  · rfl

theorem length_networkInputs (source child : List env.Ciphertext)
    (sourceSlots childSlots : List UInt64) :
    (networkInputs env source child sourceSlots childSlots).length =
      max env.cfg.slots (sourceSlots.length + childSlots.length) := by
  simp [networkInputs]
  omega

theorem assembled_eq {source child assembled : List env.Ciphertext}
    {sourceSlots childSlots : List UInt64}
    (h : assembleChildSlots env source sourceSlots child childSlots env.cfg.slots = .ok assembled) :
    assembled = networkInputs env source child sourceSlots childSlots ∧
      (∀ slotIdx ∈ sourceSlots, slotIdx.toNat < source.length) ∧ ∀ slotIdx ∈ childSlots,
      slotIdx.toNat < child.length := by
  obtain ⟨fromSource, hSource, hRest⟩ := except_bind_eq_ok h
  obtain ⟨fromChild, hChild, hReturn⟩ := except_bind_eq_ok hRest
  cases hReturn
  obtain ⟨rfl, hSourceRange⟩ := copySlots_eq_ok hSource
  obtain ⟨rfl, hChildRange⟩ := copySlots_eq_ok hChild
  exact ⟨rfl, hSourceRange, hChildRange⟩

theorem exists_assembled {source child : List env.Ciphertext} {sourceSlots childSlots : List UInt64}
    (hSource : ∀ slotIdx ∈ sourceSlots, slotIdx.toNat < source.length)
    (hChild : ∀ slotIdx ∈ childSlots, slotIdx.toNat < child.length) :
    ∃ assembled, assembleChildSlots env source sourceSlots child childSlots env.cfg.slots =
      .ok assembled := by
  obtain ⟨fromSource, hFromSource⟩ :=
    @exists_copySlots env "Source slot index out of range" _ _ hSource
  obtain ⟨fromChild, hFromChild⟩ := @exists_copySlots env "Child slot index out of range" _ _ hChild
  rw [assembleChildSlots, hFromSource, ok_bind, hFromChild, ok_bind]
  exact ⟨_, rfl⟩

/-- The network has a gate for each swap bit. -/
def BitsFit (bits : List tgsw.Ciphertext) (data : List env.Ciphertext) : Prop :=
  2 ≤ data.length ∧ bits.length = (WaksmanNetwork.buildNetwork data.length).length

theorem evalWaksman_fits {bits : List tgsw.Ciphertext} {data : List env.Ciphertext}
    (h : BitsFit bits data) :
    ∃ output, WaksmanNetwork.evalWaksman tgsw data (bits.map some) = .ok output := by
  rw [WaksmanNetwork.evalWaksman_eq, if_neg (Nat.not_lt.mpr h.1), if_neg (not_not.mpr h.2)]
  exact ⟨_, rfl⟩

theorem fits_of_evalWaksman {bits : List tgsw.Ciphertext} {data output : List env.Ciphertext}
    (h : WaksmanNetwork.evalWaksman tgsw data (bits.map some) = .ok output) :
    BitsFit bits data ∧ output =
      (WaksmanNetwork.buildNetwork data.length).foldl (WaksmanNetwork.evalGate tgsw bits) data := by
  rw [WaksmanNetwork.evalWaksman_eq] at h
  split at h
  case isTrue => cases h
  case isFalse hTwo =>
    split at h
    case isTrue => cases h
    case isFalse hCount =>
      exact ⟨⟨Nat.le_of_not_lt hTwo, not_not.mp hCount⟩, (Except.ok.inj h).symm⟩

theorem length_networkOutputs (update : ChildUpdate) (inputs : List env.Ciphertext) :
    (networkOutputs env tgsw update inputs).length = inputs.length := by
  unfold networkOutputs
  generalize WaksmanNetwork.buildNetwork inputs.length = gates
  induction gates generalizing inputs with
  | nil => rfl
  | cons gate gates ih => exact (ih _).trans (length_evalGate _ inputs gate)

theorem receiveSwapBits_outcome (bitCount : UInt64) (swapBits : List Bytes) :
    wp (receiveSwapBits env tgsw bitCount swapBits) server
      (fun received server' => bitCount.toNat ≤ vectorMaxSize / 16 ∧
        bitCount.toNat ≤ swapBits.length ∧
        received = (swapBits.take bitCount.toNat).map tgsw.importSample ∧ server' = server)
      fun _ server' => ¬ (bitCount.toNat ≤ vectorMaxSize / 16 ∧ bitCount.toNat ≤ swapBits.length) ∧
      server' = server := by
  refine wp.check_bind (fun hRoom => ⟨by omega, rfl⟩) fun hRoom => ?_
  apply wp.bind (wp_mono (recvItems_outcome swapBits bitCount.toNat) (fun _ _ => id) _)
  · rintro received _ ⟨hCount, rfl, rfl⟩
    exact wp.pure ⟨Nat.le_of_not_lt hRoom, hCount, rfl, rfl⟩
  · rintro _ _ ⟨hShort, rfl⟩
    exact ⟨by omega, rfl⟩

theorem replaceBucket_outcome (b : Nat) (contents : List env.Ciphertext) :
    wp (replaceBucket env b contents) server
      (fun _ server' => (server.tree b).length = contents.length ∧
        server' = { server with
          tree := Function.update server.tree b (contents.map env.tfhe.tLweCopy) })
      fun _ server' => (server.tree b).length ≠ contents.length ∧ server' = server := by
  refine wp.get_bind (wp.check_bind (fun hNe => ⟨hNe, rfl⟩) fun hLength => ?_)
  exact Returns.outcome (Returns.set ⟨not_not.mp hLength, rfl⟩)

end Steps

/-! ## Updates of a child -/

section ChildUpdates

variable {tgsw : Tgsw env.tfhe} {update : ChildUpdate} {source child : Nat}

/-- Slot lists that do not decode are not acceptable, and those that do are the ones the condition
is about. -/
theorem ChildUpdate.Acceptable.slots_of_eq {sourceSlots childSlots : List UInt64}
    (h : update.Acceptable env)
    (hSource : deserializeUint64Vector update.sourceBytes = .ok sourceSlots)
    (hChild : deserializeUint64Vector update.childBytes = .ok childSlots) :
    sourceSlots.length + childSlots.length ≤ env.cfg.slots ∧ ∀ slotIdx ∈ sourceSlots ++ childSlots,
    slotIdx.toNat < env.cfg.slots := by
  obtain ⟨sourceSlots', childSlots', hSource', hChild', hSlots⟩ := h.slots
  obtain rfl := Except.ok.inj (hSource.symm.trans hSource')
  obtain rfl := Except.ok.inj (hChild.symm.trans hChild')
  exact hSlots

theorem ChildUpdate.Acceptable.assembles {sourceSlots childSlots : List UInt64}
    (h : update.Acceptable env)
    (hSource : deserializeUint64Vector update.sourceBytes = .ok sourceSlots)
    (hChild : deserializeUint64Vector update.childBytes = .ok childSlots)
    (hSourceRow : (server.tree source).length = env.cfg.slots)
    (hChildRow : (server.tree child).length = env.cfg.slots) :
    ∃ assembled, assembleChildSlots env (server.tree source) sourceSlots (server.tree child)
      childSlots env.cfg.slots = .ok assembled := by
  have hRange := (h.slots_of_eq hSource hChild).2
  apply exists_assembled
  · exact fun slotIdx hSlot => hSourceRow.symm ▸ hRange slotIdx (List.mem_append_left _ hSlot)
  · exact fun slotIdx hSlot => hChildRow.symm ▸ hRange slotIdx (List.mem_append_right _ hSlot)

theorem ChildUpdate.Acceptable.bitsFit {assembled : List env.Ciphertext} (h : update.Acceptable env)
    (hLength : assembled.length = env.cfg.slots) :
    BitsFit ((update.swapBits.take update.bitCount.toNat).map tgsw.importSample) assembled := by
  refine ⟨hLength.symm ▸ h.size, ?_⟩
  rw [List.length_map, List.length_take_of_le h.received, hLength, h.bits]

theorem ChildUpdate.acceptable_of_fits {sourceSlots childSlots : List UInt64}
    {assembled : List env.Ciphertext}
    (hSource : deserializeUint64Vector update.sourceBytes = .ok sourceSlots)
    (hChild : deserializeUint64Vector update.childBytes = .ok childSlots)
    (hRoom : update.bitCount.toNat ≤ vectorMaxSize / 16)
    (hReceived : update.bitCount.toNat ≤ update.swapBits.length)
    (hRange : ∀ slotIdx ∈ sourceSlots ++ childSlots, slotIdx.toNat < env.cfg.slots)
    (hFew : sourceSlots.length + childSlots.length ≤ env.cfg.slots)
    (hLength : assembled.length = env.cfg.slots)
    (hFits : BitsFit ((update.swapBits.take update.bitCount.toNat).map tgsw.importSample)
      assembled) :
    update.Acceptable env := by
  obtain ⟨hSize, hBits⟩ := hFits
  constructor
  case slots => exact ⟨sourceSlots, childSlots, hSource, hChild, hFew, hRange⟩
  case size => exact hLength ▸ hSize
  case bits => rwa [List.length_map, List.length_take_of_le hReceived, hLength] at hBits
  case room => exact hRoom
  case received => exact hReceived

/-- An update is refused before anything is written, or the child is replaced. -/
theorem receiveChildUpdate_outcome (hSourceRow : (server.tree source).length = env.cfg.slots)
    (hChildRow : (server.tree child).length = env.cfg.slots) :
    wp (receiveChildUpdate env tgsw source child update) server
      (fun _ server' => update.Acceptable env ∧ ∃ contents, contents.length = env.cfg.slots ∧
        (update.Restores env tgsw (server.tree source) (server.tree child) ↔
          contents = server.tree child) ∧
        server' = { server with tree := Function.update server.tree child contents })
      fun _ server' => ¬ update.Acceptable env ∧ server' = server := by
  refine wp.fromExcept_bind (fun e hError => ⟨?_, rfl⟩) fun sourceSlots hSource => ?_
  · intro h
    obtain ⟨sourceSlots, _, hOk, _⟩ := h.slots
    simp [hError] at hOk
  refine wp.fromExcept_bind (fun e hError => ⟨?_, rfl⟩) fun childSlots hChild => ?_
  · intro h
    obtain ⟨_, childSlots, _, hOk, _⟩ := h.slots
    simp [hError] at hOk
  apply wp.bind
    (wp_mono (receiveSwapBits_outcome update.bitCount update.swapBits) (fun _ _ => id) _)
  · rintro _ current ⟨hRoom, hReceived, rfl, rfl⟩
    apply wp.get_bind
    refine wp.fromExcept_bind (fun e hError => ⟨?_, rfl⟩) fun assembled hAssembled => ?_
    · intro h
      obtain ⟨assembled, hOk⟩ := h.assembles hSource hChild hSourceRow hChildRow
      rw [hError] at hOk
      cases hOk
    obtain ⟨rfl, hSourceRange, hChildRange⟩ := assembled_eq hAssembled
    have hLength := @length_networkInputs env (current.tree source) (current.tree child) sourceSlots
      childSlots
    have hFull (h : update.Acceptable env) :=
      hLength.trans (max_eq_left (h.slots_of_eq hSource hChild).1)
    refine wp.fromExcept_bind (fun e hError => ⟨?_, rfl⟩) fun output hOutput => ?_
    · intro h
      obtain ⟨output, hOk⟩ := evalWaksman_fits (h.bitsFit (hFull h))
      rw [hError] at hOk
      cases hOk
    obtain ⟨hFits, hGates⟩ := fits_of_evalWaksman hOutput
    obtain rfl : output = networkOutputs env tgsw update _ := hGates
    have hOutputLength := @length_networkOutputs env tgsw update
      (networkInputs env (current.tree source) (current.tree child) sourceSlots childSlots)
    apply wp_mono (replaceBucket_outcome child _)
    · rintro _ _ ⟨hSame, rfl⟩
      rw [hChildRow, hOutputLength] at hSame
      constructor
      · apply ChildUpdate.acceptable_of_fits hSource hChild hRoom hReceived ?_ (by omega)
          hSame.symm hFits
        intro slotIdx hSlot
        obtain hSlot | hSlot := List.mem_append.mp hSlot
        · exact hSourceRow ▸ hSourceRange slotIdx hSlot
        · exact hChildRow ▸ hChildRange slotIdx hSlot
      · refine ⟨_, by rw [List.length_map, hOutputLength, ← hSame], ?_, rfl⟩
        refine ⟨fun hRestores => hRestores _ _ hSource hChild, fun hContents => ?_⟩
        intro sourceSlots' childSlots' hSource' hChild'
        obtain rfl := Except.ok.inj (hSource.symm.trans hSource')
        obtain rfl := Except.ok.inj (hChild.symm.trans hChild')
        exact hContents
    · rintro _ _ ⟨hNe, rfl⟩
      refine ⟨fun h => hNe ?_, rfl⟩
      rw [hChildRow, hOutputLength, hFull h]
  · rintro _ _ ⟨hBits, rfl⟩
    exact ⟨fun h => hBits ⟨h.room, h.received⟩, rfl⟩

end ChildUpdates

/-! ## Clearing a path -/

section ClearPath

variable {leaf : UInt64} {selections : List UInt64} {i : Nat}

theorem takeWhile_next {α : Type} {p : α → Bool} {items : List α} {x : α}
    (hi : i ≤ (items.takeWhile p).length)
    (hGet : items[i]? = some x) (hx : p x) : (items.takeWhile p)[i]? = some x := by
  induction items generalizing i with
  | nil => simp at hGet
  | cons item items ih =>
    cases i with
    | zero =>
      obtain rfl : item = x := by simpa using hGet
      simp [hx]
    | succ i =>
      cases hItem : p item with
      | false => simp [hItem] at hi
      | true =>
        simp only [hItem, List.takeWhile_cons_of_pos, List.length_cons, Nat.add_le_add_iff_right,
          List.getElem?_cons_succ] at *
        exact ih hi hGet

theorem takeWhile_stop {α : Type} {p : α → Bool} {items : List α}
    (hi : i ≤ (items.takeWhile p).length)
    (h : ∀ x, items[i]? = some x → ¬ p x) : (items.takeWhile p).length = i := by
  apply le_antisymm _ hi
  by_contra hLt
  have hRange : i < (items.takeWhile p).length := Nat.lt_of_not_le hLt
  have hItem := List.getElem?_eq_getElem hRange
  have hGet : items[i]? = some (items.takeWhile p)[i] := by
    have hSplit := congrArg (fun l => l[i]?) (@List.takeWhile_append_dropWhile _ p items)
    rw [← hSplit, List.getElem?_append_left hRange, hItem]
  exact h _ hGet (List.mem_takeWhile_imp (List.getElem_mem hRange))

/-- Only the low bits of a leaf matter, so that every leaf has a path. -/
theorem lt_of_mem_descend {node levels b : Nat} (h : b ∈ descend leaf node levels) :
    b + 1 < (node + 2) * 2 ^ levels := by
  induction levels generalizing node with
  | zero =>
    obtain rfl := List.mem_singleton.mp h
    omega
  | succ levels ih =>
    have hPow : 0 < 2 ^ levels := Nat.pow_pos (by decide)
    rw [Nat.pow_succ]
    obtain rfl | hRest := List.mem_cons.mp h
    · have hFactor : (b + 2) * 1 ≤ (b + 2) * (2 ^ levels * 2) := Nat.mul_le_mul_left _ (by omega)
      omega
    · have hBit : pathBit leaf levels ≤ 1 := by
        rw [pathBit, UInt64.toNat_and, UInt64.toNat_one]
        exact Nat.and_le_right
      have hStep : (2 * node + 1 + pathBit leaf levels + 2) * 2 ^ levels ≤
          (2 * (node + 2)) * 2 ^ levels :=
        Nat.mul_le_mul_right _ (by omega)
      have hSame : (2 * (node + 2)) * 2 ^ levels = (node + 2) * (2 ^ levels * 2) := by ring
      exact (ih hRest).trans_le (hStep.trans hSame.le)

theorem mem_nodes_of_getPathIndices {cfg : RuntimeConfig} {b : Nat}
    (h : b ∈ getPathIndices cfg leaf) : b ∈ cfg.nodes := by
  have hLt := lt_of_mem_descend h
  rw [mem_nodes, HeapTree.nodeCount, Nat.pow_succ]
  omega

theorem recvSelection_outcome (what : String) :
    wp (recvSelection env what selections i) server
      (fun selection server' => selections[i]? = some selection ∧
        selection.toNat < env.cfg.slots ∧ server' = server)
      fun _ server' =>
        (∀ selection, selections[i]? = some selection → ¬ selection.toNat < env.cfg.slots) ∧
        server' = server := by
  unfold recvSelection recvItem
  cases hItem : selections[i]? with
  | none => exact (wp_throw _).mpr ⟨by simp, rfl⟩
  | some selection =>
    refine wp.check_bind (fun hRange => ⟨?_, rfl⟩) fun hRange => wp.pure ⟨rfl, ?_, rfl⟩
    · rintro _ ⟨⟩
      exact Nat.not_lt.mpr (UInt64.le_iff_toNat_le.mp hRange)
    · exact UInt64.lt_iff_toNat_lt.mp (UInt64.not_le.mp hRange)

theorem namedSlots_next (hi : i ≤ (namedSlots env leaf selections).length)
    (hPath : i < (getPathIndices env.cfg leaf).length)
    {selection : UInt64} (hItem : selections[i]? = some selection)
    (hRange : selection.toNat < env.cfg.slots) :
    (namedSlots env leaf selections)[i]? =
      some ((getPathIndices env.cfg leaf).getD i 0, selection.toNat) := by
  apply takeWhile_next hi
  · rw [List.getElem?_zip_eq_some, List.getElem?_map, hItem, List.getD_eq_getElem _ _ hPath]
    exact ⟨List.getElem?_eq_getElem hPath, rfl⟩
  · simpa using hRange

theorem namedSlots_stop (hi : i ≤ (namedSlots env leaf selections).length)
    (hItem : ∀ selection, selections[i]? = some selection → ¬ selection.toNat < env.cfg.slots) :
    (namedSlots env leaf selections).length = i := by
  apply takeWhile_stop hi
  rintro ⟨node, slot⟩ hGet
  rw [List.getElem?_zip_eq_some, List.getElem?_map] at hGet
  obtain ⟨selection, hSelection, rfl⟩ := Option.map_eq_some_iff.mp hGet.2
  simpa using hItem selection hSelection

theorem length_namedSlots_le : (namedSlots env leaf selections).length ≤ env.cfg.height + 1 := by
  apply (List.takeWhile_prefix _).length_le.trans
  rw [List.length_zip, length_getPathIndices]
  exact Nat.min_le_left _ _

/-- Slots are cleared up to the first selection that is missing or out of range. -/
theorem handleClearPath_outcome (h : Shaped env server) :
    wp (handleClearPath env leaf selections) server
      (fun _ server' => (namedSlots env leaf selections).length = env.cfg.height + 1 ∧
        server' = { server with
          tree := clearTree env server.tree (namedSlots env leaf selections) })
      fun _ server' => (namedSlots env leaf selections).length < env.cfg.height + 1 ∧
        server' = { server with
          tree := clearTree env server.tree (namedSlots env leaf selections) } := by
  have hPath := length_getPathIndices env.cfg leaf
  have hLe := @length_namedSlots_le env leaf selections
  apply wp.bind (wp.forM_range (fun i server' => i ≤ (namedSlots env leaf selections).length ∧
    server' = { server with
      tree := clearTree env server.tree ((namedSlots env leaf selections).take i) }) ?_ ?_)
  · rintro _ _ ⟨hi, rfl⟩
    rw [hPath] at hi
    have hLength : (namedSlots env leaf selections).length = env.cfg.height + 1 :=
      le_antisymm hLe hi
    refine wp.pure ⟨hLength, ?_⟩
    rw [hPath, List.take_of_length_le hLength.le]
  · exact ⟨Nat.zero_le _, rfl⟩
  · rintro i hi _ ⟨hNamed, rfl⟩
    apply wp.bind (wp_mono (recvSelection_outcome "Clear-path selection index out of range")
      (fun _ _ => id) _)
    · rintro selection _ ⟨hItem, hRange, rfl⟩
      have hNext := namedSlots_next hNamed hi hItem hRange
      have hNode : (getPathIndices env.cfg leaf).getD i 0 ∈ env.cfg.nodes := by
        rw [List.getD_eq_getElem _ _ hi]
        exact mem_nodes_of_getPathIndices (List.getElem_mem hi)
      have hRow : selection.toNat <
          (clearTree env server.tree ((namedSlots env leaf selections).take i)
            ((getPathIndices env.cfg leaf).getD i 0)).length := by
        rw [length_clearTree, h.rows _ hNode]
        exact hRange
      apply wp.get_bind
      apply wp.ok_bind (@readSlot_eq env _ (_, selection.toNat) hRow)
      apply Returns.outcome
      refine Returns.set ⟨(List.getElem?_eq_some_iff.mp hNext).1, ?_⟩
      rw [clearTree, clearTree, updateAll, updateAll, List.take_add_one, hNext, List.foldl_append]
      rfl
    · rintro _ _ ⟨hItem, rfl⟩
      have hLength := namedSlots_stop hNamed hItem
      rw [List.take_of_length_le hLength.le]
      exact ⟨by omega, rfl⟩

theorem slotAt_clearTree_of_clear {tree : Nat → List env.Ciphertext} {slot : Nat × Nat}
    (selected : List (Nat × Nat))
    (hSlot : slotAt env tree slot = env.tfhe.tLweClear) :
    slotAt env (clearTree env tree selected) slot = env.tfhe.tLweClear := by
  apply @updateAll_keeps _ _ _ _ _ _ selected slot.1
    (fun row : List env.Ciphertext => row.getD slot.2 env.tfhe.tLweClear = env.tfhe.tLweClear) _
      hSlot
  intro row cleared hRow
  rw [List.getD_eq_getElem?_getD, List.getElem?_set]
  split
  · split <;> rfl
  · rwa [← List.getD_eq_getElem?_getD]

theorem slotAt_clearTree_of_mem {tree : Nat → List env.Ciphertext}
    {selected : List (Nat × Nat)} {slot : Nat × Nat}
    (h : slot ∈ selected) : slotAt env (clearTree env tree selected) slot = env.tfhe.tLweClear := by
  induction selected generalizing tree with
  | nil => cases h
  | cons cleared selected ih =>
    obtain rfl | hRest := List.mem_cons.mp h
    · apply slotAt_clearTree_of_clear selected
      dsimp only
      rw [slotAt, Function.update_self, List.getD_eq_getElem?_getD, List.getElem?_set_self']
      cases (tree slot.1)[slot.2]? with
      | none => rfl
      | some _ => rfl
    · exact ih hRest

theorem set_clear_of_clear {row : List env.Ciphertext} {i : Nat}
    (h : row.getD i env.tfhe.tLweClear = env.tfhe.tLweClear) :
    row.set i env.tfhe.tLweClear = row := by
  by_cases hi : i < row.length
  · rw [List.getD_eq_getElem _ _ hi] at h
    rw [← h, List.set_getElem_self]
  · exact List.set_eq_of_length_le (Nat.le_of_not_lt hi)

theorem clearTree_eq_self_iff {tree : Nat → List env.Ciphertext} {selected : List (Nat × Nat)} :
    clearTree env tree selected = tree ↔
      ∀ slot ∈ selected, slotAt env tree slot = env.tfhe.tLweClear := by
  constructor
  · intro hEq slot hSlot
    have hClear := @slotAt_clearTree_of_mem env tree selected slot hSlot
    rwa [hEq] at hClear
  · intro h
    induction selected with
    | nil => rfl
    | cons slot selected ih =>
      obtain ⟨hSlot, hRest⟩ := List.forall_mem_cons.mp h
      change clearTree env
        (Function.update tree slot.1 ((tree slot.1).set slot.2 env.tfhe.tLweClear)) selected = tree
      rw [set_clear_of_clear hSlot, Function.update_eq_self]
      exact ih hRest

end ClearPath

/-! ## Whole requests -/

section Requests

variable {tgsw : Tgsw env.tfhe}

theorem handleAccess_unchanged (leaf : UInt64) (selections : List UInt64) :
    Preserves (· = server) (handleAccess env leaf selections) fun _ => True := by
  have hRound (i : Nat) :
      Preserves (· = server) (recvSelection env "Selection index out of range" selections i)
        fun _ => True := by
    rintro _ rfl
    exact wp_mono (recvSelection_outcome _) (fun _ _ hReceived => ⟨trivial, hReceived.2.2⟩)
      fun _ _ hStopped => hStopped.2
  apply (Preserves.mapM fun i _ => hRound i).bind
  intro wanted _
  apply Preserves.get_bind
  intro read
  apply (Preserves.fromExcept _).bind
  intro _ _
  exact Preserves.pure trivial

theorem handleWriteSlot_outcome (h : Shaped env server)
    (bucketIdx slotIdx : UInt64) (bytes : Bytes) :
    wp (handleWriteSlot env bucketIdx slotIdx bytes) server (fun _ server' => Shaped env server')
      fun _ server' => server' = server := by
  refine wp.get_bind (wp.check_bind (fun _ => rfl) fun hChecked => ?_)
  rw [not_or, h.treeSize] at hChecked
  apply Returns.outcome
  apply Returns.set_bind
  apply Returns.pure
  apply h.update
  rw [List.length_set]
  exact h.rows _ (mem_nodes.mpr (Nat.lt_of_not_le hChecked.1))

theorem handleLeafRefresh_outcome (h : Shaped env server) (bucketIdx : UInt64)
    (answer : List Bytes → RefreshPayload) :
    wp (handleLeafRefresh env tgsw bucketIdx answer) server (fun _ server' => Shaped env server')
      fun _ server' => server' = server := by
  refine wp.get_bind (wp.check_bind (fun _ => rfl) fun hNode =>
    wp.check_bind (fun _ => rfl) fun _ => ?_)
  rw [h.treeSize] at hNode
  apply wp.bind (wp_mono (recvItems_outcome _ _) (fun _ _ => id) fun _ _ hShort => hShort.2)
  rintro received _ ⟨_, rfl, rfl⟩
  apply wp.bind
    (wp_mono (receiveSwapBits_outcome _ _) (fun _ _ => id) fun _ _ hRefused => hRefused.2)
  rintro swapBits _ ⟨_, _, rfl, rfl⟩
  refine wp.fromExcept_bind (fun _ _ => rfl) fun output _ => ?_
  apply wp.bind (wp_mono (replaceBucket_outcome _ _) (fun _ _ => id) fun _ _ hRefused => hRefused.2)
  rintro _ _ ⟨hRow, rfl⟩
  apply wp.pure
  apply h.update
  rw [List.length_map, ← hRow]
  exact h.rows _ (mem_nodes.mpr (Nat.lt_of_not_le hNode))

section Triplet

variable {sourceIdx leftIdx rightIdx : UInt64} {left right : ChildUpdate}

/-- What a rejected eviction leaves behind: the left child is replaced as soon as its own update has
been received. -/
inductive TripletRefused (env : Env) (tgsw : Tgsw env.tfhe) (server : Server env.Ciphertext)
    (sourceIdx leftIdx rightIdx : UInt64) (left right : ChildUpdate) : Server env.Ciphertext → Prop
  | early (h : ¬ ((∀ index ∈ [sourceIdx, leftIdx, rightIdx], index.toNat ∈ env.cfg.nodes) ∧
        left.Acceptable env)) :
      TripletRefused env tgsw server sourceIdx leftIdx rightIdx left right server
  | late {contents : List env.Ciphertext} (hLength : contents.length = env.cfg.slots)
      (hContents : left.Restores env tgsw (server.tree sourceIdx.toNat)
        (server.tree leftIdx.toNat) ↔ contents = server.tree leftIdx.toNat)
      (hNodes : ∀ index ∈ [sourceIdx, leftIdx, rightIdx], index.toNat ∈ env.cfg.nodes)
      (hLeft : left.Acceptable env)
      (hRight : ¬ right.Acceptable env) :
      TripletRefused env tgsw server sourceIdx leftIdx rightIdx left right
        { server with tree := Function.update server.tree leftIdx.toNat contents }

theorem handleEvictTriplet_outcome (h : Shaped env server) :
    wp (handleEvictTriplet env tgsw sourceIdx leftIdx rightIdx left right) server
      (fun _ server' => right.Acceptable env ∧ Shaped env server')
      fun _ server' =>
        TripletRefused env tgsw server sourceIdx leftIdx rightIdx left right server' := by
  have hNodes : (∀ index ∈ [sourceIdx, leftIdx, rightIdx], index.toNat ∈ env.cfg.nodes) ↔
      ¬ (server.treeSize ≤ sourceIdx.toNat ∨
        server.treeSize ≤ leftIdx.toNat ∨ server.treeSize ≤ rightIdx.toNat) := by
    simp [h.treeSize, mem_nodes]
  refine wp.get_bind (wp.check_bind (fun hOut => ?_) fun hIn => ?_)
  · exact .early fun hBoth => hNodes.mp hBoth.1 hOut
  have hTree := hNodes.mpr hIn
  have hSource := hTree sourceIdx (by simp)
  have hLeft := hTree leftIdx (by simp)
  have hRight := hTree rightIdx (by simp)
  apply wp.bind (wp_mono (receiveChildUpdate_outcome (h.rows _ hSource) (h.rows _ hLeft))
    (fun _ _ => id) _)
  · rintro _ _ ⟨hLeftOk, contents, hLength, hContents, rfl⟩
    have hShaped := @Shaped.update env server h leftIdx.toNat contents hLength
    apply wp.bind (wp_mono
      (receiveChildUpdate_outcome (hShaped.rows _ hSource) (hShaped.rows _ hRight))
      (fun _ _ => id) _)
    · rintro _ _ ⟨hRightOk, contents', hLength', _, rfl⟩
      have hShaped' := @Shaped.update env _ hShaped rightIdx.toNat contents' hLength'
      apply wp.modify_bind
      apply wp.pure
      refine ⟨hRightOk, hShaped'.update ?_⟩
      rw [List.length_map]
      exact hShaped'.rows _ hSource
    · rintro _ _ ⟨hRefused, rfl⟩
      exact .late hLength hContents hTree hLeftOk hRefused
  · rintro _ _ ⟨hRefused, rfl⟩
    exact .early fun hBoth => hRefused hBoth.2

theorem leavesTree_evictTriplet_iff (h : Shaped env server) :
    LeavesTree env tgsw server (.evictTriplet sourceIdx leftIdx rightIdx left right) ↔
      Spared env tgsw server.tree (.evictTriplet sourceIdx leftIdx rightIdx left right) := by
  have hOutcome :=
    wp_iff.mp (@handleEvictTriplet_outcome env server tgsw sourceIdx leftIdx rightIdx left right h)
  constructor
  · intro hLeaves hNodes hLeft hRight
    cases hRun : (handleEvictTriplet env tgsw sourceIdx leftIdx rightIdx left right).run server with
    | ok _ _ => exact absurd (hOutcome.1 _ _ hRun).1 hRight
    | error e server' =>
      have hSame := hLeaves e server' hRun
      cases hOutcome.2 e server' hRun with
      | early hEarly => exact absurd ⟨hNodes, hLeft⟩ hEarly
      | late hLength hContents =>
        have hRow := congrFun hSame leftIdx.toNat
        dsimp only at hRow
        rw [Function.update_self] at hRow
        exact hContents.mpr hRow
  · intro hSpared e server' hRun
    cases hOutcome.2 e server' hRun with
    | early _ => rfl
    | late hLength hContents hNodes hLeft hRight =>
      rw [hContents.mp (hSpared hNodes hLeft hRight)]
      exact Function.update_eq_self _ _

end Triplet

theorem leavesTree_clearPath_iff (h : Shaped env server) {leaf : UInt64}
    {selections : List UInt64} :
    LeavesTree env tgsw server (.clearPath leaf selections) ↔
      Spared env tgsw server.tree (.clearPath leaf selections) := by
  have hOutcome := wp_iff.mp (@handleClearPath_outcome env server leaf selections h)
  constructor
  · intro hLeaves hShort
    cases hRun : (handleClearPath env leaf selections).run server with
    | ok _ _ => exact absurd (hOutcome.1 _ _ hRun).1 hShort.ne
    | error e server' =>
      obtain ⟨_, rfl⟩ := hOutcome.2 e server' hRun
      exact clearTree_eq_self_iff.mp (hLeaves e _ hRun)
  · intro hSpared e server' hRun
    obtain ⟨hShort, rfl⟩ := hOutcome.2 e server' hRun
    exact clearTree_eq_self_iff.mpr (hSpared hShort)

theorem handleTreeRequest_shaped (request : TreeRequest) :
    Preserves (Shaped env) (handleTreeRequest env tgsw request) fun _ => True := by
  intro server h
  cases request with
  | access leaf selections =>
    apply wp_mono (handleAccess_unchanged leaf selections server rfl)
    · rintro _ _ ⟨_, rfl⟩
      exact ⟨trivial, h⟩
    · rintro _ _ rfl
      exact h
  | clearPath leaf selections =>
    have hCleared := @Shaped.withTree env server h
      (clearTree env server.tree (namedSlots env leaf selections)) fun b _ => length_clearTree _ _ b
    apply wp_mono (handleClearPath_outcome h)
    · rintro _ _ ⟨_, rfl⟩
      exact ⟨trivial, hCleared⟩
    · rintro _ _ ⟨_, rfl⟩
      exact hCleared
  | writeSlot bucketIdx slotIdx bytes =>
    apply wp_mono (handleWriteSlot_outcome h bucketIdx slotIdx bytes)
    · exact fun _ _ hShaped => ⟨trivial, hShaped⟩
    · rintro _ _ rfl
      exact h
  | evictTriplet sourceIdx leftIdx rightIdx left right =>
    apply wp_mono (handleEvictTriplet_outcome h)
    · exact fun _ _ hReturned => ⟨trivial, hReturned.2⟩
    · rintro _ _ (_ | ⟨hLength, _⟩)
      · exact h
      · exact h.update hLength
  | leafRefresh bucketIdx answer =>
    apply wp_mono (handleLeafRefresh_outcome h bucketIdx answer)
    · exact fun _ _ hShaped => ⟨trivial, hShaped⟩
    · rintro _ _ rfl
      exact h

theorem requestLeavesTree_iff (h : Shaped env server) (request : TreeRequest) :
    LeavesTree env tgsw server request ↔ Spared env tgsw server.tree request := by
  cases request with
  | access leaf selections =>
    refine iff_of_true (fun e server' hRun => ?_) trivial
    rw [(handleAccess_unchanged leaf selections).of_run rfl (Or.inr ⟨e, hRun⟩)]
  | clearPath leaf selections => exact leavesTree_clearPath_iff h
  | writeSlot bucketIdx slotIdx bytes =>
    refine iff_of_true (fun e server' hRun => ?_) trivial
    rw [(wp_iff.mp (handleWriteSlot_outcome h bucketIdx slotIdx bytes)).2 e server' hRun]
  | evictTriplet sourceIdx leftIdx rightIdx left right => exact leavesTree_evictTriplet_iff h
  | leafRefresh bucketIdx answer =>
    refine iff_of_true (fun e server' hRun => ?_) trivial
    rw [(wp_iff.mp (handleLeafRefresh_outcome h bucketIdx answer)).2 e server' hRun]

end Requests

section Small

/-- A tree of three buckets of three slots that are not clear. -/
def fullServer : Server Env.small.Ciphertext where
  tree := fun b => if b < 3 then List.replicate 3 (1 : Message 4) else []
  treeSize := 3

theorem shaped_fullServer : Shaped .small fullServer := by
  constructor
  case running => rfl
  case treeSize => rfl
  case rows =>
    intro b hb
    have hLt : b < 3 := mem_nodes.mp hb
    exact congrArg List.length (if_pos hLt)

/-- Each slot of the child in its own place. -/
def keepingUpdate : ChildUpdate :=
  ⟨serializeUint64Vector [], serializeUint64Vector [0, 1, 2], 3, [[0], [0], [0]]⟩

theorem restores_keepingUpdate : keepingUpdate.Restores .small (Tgsw.plain 4)
    (fullServer.tree 0) (fullServer.tree 1) := by
  intro sourceSlots childSlots hSource hChild
  obtain rfl := Except.ok.inj ((deserializeUint64Vector_serialize []).symm.trans hSource)
  obtain rfl := Except.ok.inj ((deserializeUint64Vector_serialize [0, 1, 2]).symm.trans hChild)
  rfl

/-- A first selection that is out of range, and an update of the right child that has half a word
after one of the left child that moves nothing. -/
theorem requestLeavesTree_small :
    LeavesTree .small (Tgsw.plain 4) fullServer (.clearPath 0 [5, 0]) ∧
    LeavesTree .small (Tgsw.plain 4) fullServer
      (.evictTriplet 0 1 2 keepingUpdate ⟨[0, 0, 0, 0], [], 0, []⟩) := by
  have hNamed : namedSlots Env.small 0 [5, 0] = [] := by decide
  constructor
  · refine (requestLeavesTree_iff shaped_fullServer _).mpr fun _ slot hSlot => ?_
    rw [hNamed] at hSlot
    cases hSlot
  · exact (requestLeavesTree_iff shaped_fullServer _).mpr fun _ _ _ => restores_keepingUpdate

/-- The slot of the root is cleared before the slot 5 of its child is found to be out of range. -/
theorem clearPath_leaves_half : Shaped .small fullServer ∧
    ¬ LeavesTree .small (Tgsw.plain 4) fullServer (.clearPath 0 [0, 5]) := by
  refine ⟨shaped_fullServer, fun hLeaves => ?_⟩
  have hClear : slotAt .small fullServer.tree (0, 0) = (Tfhe.plain 4).tLweClear :=
    (leavesTree_clearPath_iff shaped_fullServer).mp hLeaves (by decide) (0, 0) (by decide)
  exact absurd (congrFun hClear 0) (by decide)

end Small
end OramHub.OnionRing
