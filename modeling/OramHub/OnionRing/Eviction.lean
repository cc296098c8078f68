import Mathlib.Data.List.OfFn
import Mathlib.Data.List.FinRange
import OramHub.OnionRing.Coherence

/-! # Evictions and refreshes

An eviction rebuilds the two children of a bucket from the blocks of all three. Ids and ciphertexts
are permuted separately, by the same permutation.
-/
namespace OramHub.OnionRing
open OramHub.Core OramHub.Program OramHub.Updates OramHub.Inventory
set_option autoImplicit false

section Permutation

variable {α : Type}

/-- Reading a list through a permutation of its indices, before or after a map. -/
theorem permute_eq_ok {items : List α} {size : Nat} (hLength : items.length = size)
    (σ : Equiv.Perm (Fin size)) :
    ∃ output : List α, output.Perm items ∧ ∀ {β : Type} (f : α → β) (what : Exception),
      permute what (items.map f) (List.ofFn fun dest => (σ dest).val) = .ok (output.map f) := by
  subst hLength
  refine ⟨List.ofFn (items.get ∘ σ), ?_, fun f what => mapM_eq_ok ?_⟩
  · exact (Equiv.Perm.ofFn_comp_perm σ items.get).trans (List.Perm.of_eq (List.ofFn_get items))
  · rw [List.ofFn_eq_map, List.ofFn_eq_map, List.map_map, List.forall₂_map_left_iff,
      List.forall₂_map_right_iff, List.forall₂_same]
    intro dest _
    rw [List.getElem?_map, List.getElem?_eq_getElem (σ dest).isLt]
    rfl

end Permutation

section Rebuild

variable {env : Env} {memory : Memory} {input : List (Slot env)} {ids : List Int}
  {row : List env.Ciphertext}

/-- A bucket that has been rebuilt from some slots. -/
structure Rebuilt (env : Env) (memory : Memory) (input : List (Slot env)) (ids : List Int)
    (row : List env.Ciphertext) : Prop where
  ids_length : ids.length = env.cfg.slots
  row_length : row.length = env.cfg.slots
  recorded : recorded ids = recorded (input.map Prod.fst)
  only : ∀ id ∈ ids, id = -1 ∨ id ∈ input.map Prod.fst
  holds : Holds env memory ids row

theorem Rebuilt.transmitted (h : Rebuilt env memory input ids row) :
    Rebuilt env memory input ids (row.map env.tfhe.transmit) :=
  ⟨h.ids_length, (List.length_map _).trans h.row_length, h.recorded, h.only, h.holds.transmitted⟩

theorem length_padSlots (hLength : input.length ≤ env.cfg.slots) :
    (padSlots env input).length = env.cfg.slots := by
  rw [padSlots, List.length_append, List.length_replicate, Nat.add_sub_cancel' hLength]

theorem mem_padSlots {slot : Slot env} (h : slot ∈ padSlots env input) :
    slot ∈ input ∨ slot = (-1, env.tfhe.tLweClear) :=
  (List.mem_append.mp h).imp_right List.eq_of_mem_replicate

theorem rebuild (hLength : input.length ≤ env.cfg.slots)
    (hInput : ∀ slot ∈ input, Matches env memory slot) (σ : Equiv.Perm (Fin env.cfg.slots)) :
    ∃ ids row, Rebuilt env memory input ids row ∧
      applyPermutationToIds ((padSlots env input).map Prod.fst) (List.ofFn fun dest =>
        (σ dest).val) = .ok ids ∧
      permuteCiphertexts env ((padSlots env input).map Prod.snd) (List.ofFn fun dest =>
        (σ dest).val) = .ok row := by
  obtain ⟨output, hPerm, hPermute⟩ := permute_eq_ok (length_padSlots hLength) σ
  have hOutput : output.length = env.cfg.slots := hPerm.length_eq.trans (length_padSlots hLength)
  refine ⟨output.map Prod.fst, (output.map Prod.snd).map env.tfhe.tLweCopy, ?_, ?_, ?_⟩
  · constructor
    case ids_length => rw [List.length_map, hOutput]
    case row_length => rw [List.length_map, List.length_map, hOutput]
    case recorded =>
      rw [recorded_perm (hPerm.map Prod.fst), padSlots, List.map_append,
        recorded_append, List.map_replicate, recorded_dummies, add_zero]
    case only =>
      intro id hId
      obtain ⟨slot, hSlot, rfl⟩ := List.mem_map.mp hId
      obtain hOld | rfl := mem_padSlots (hPerm.subset hSlot)
      · exact Or.inr (List.mem_map_of_mem hOld)
      · exact Or.inl rfl
    case holds =>
      intro slot hSlot hExact
      rw [List.map_map, List.zip_map'] at hSlot
      obtain ⟨old, hOld, rfl⟩ := List.mem_map.mp hSlot
      apply (hExact.decrypt_copy old.2).trans
      obtain hOld | rfl := mem_padSlots (hPerm.subset hOld)
      · exact hInput old hOld hExact
      · exact matches_clear env memory hExact
  · rw [applyPermutationToIds, if_neg, hPermute]
    rw [List.length_map, List.length_ofFn, length_padSlots hLength]
    exact not_not.mpr rfl
  · rw [permuteCiphertexts, hPermute]
    rfl

end Rebuild

section Routing

variable {env : Env} {memory : Memory} {positionMap : List UInt64} {shift : Nat} {right : Bool}
  {slots : List (Slot env)} {ids : List Int} {bucket : List env.Ciphertext}

def copySlot (env : Env) (slot : Slot env) : Slot env := (slot.1, env.tfhe.tLweCopy slot.2)

/-- The blocks among some slots. -/
def liveSlots (env : Env) (slots : List (Slot env)) : List (Slot env) :=
  slots.filter fun slot => 0 ≤ slot.1

def goesRight (positionMap : List UInt64) (shift : Nat) (id : Int) : Bool :=
  pathBit (positionMap.getD id.toNat 0) shift ≠ 0

/-- The blocks that a source bucket sends to one of its children. -/
def routedTo (env : Env) (positionMap : List UInt64) (shift : Nat) (right : Bool)
    (slots : List (Slot env)) :
    List (Slot env) :=
  ((liveSlots env slots).filter fun slot => goesRight positionMap shift slot.1 == right).map
    (copySlot env)

/-- The blocks that a child gets: those of the source, then its own. -/
def childInput (env : Env) (w : World env.Ciphertext) (shift source child : Nat)
    (right : Bool) : List (Slot env) :=
  routedTo env w.positionMap shift right
    ((w.idMap source).zip ((w.server.tree source).map env.tfhe.transmit)) ++
    childBlocks env (w.idMap child) ((w.server.tree child).map env.tfhe.transmit)

theorem routedTo_cons (slot : Slot env) : routedTo env positionMap shift right (slot :: slots) =
    (if 0 ≤ slot.1 ∧ goesRight positionMap shift slot.1 = right then [copySlot env slot] else []) ++
      routedTo env positionMap shift right slots := by
  rw [routedTo, liveSlots, List.filter_cons]
  by_cases hId : 0 ≤ slot.1
  · rw [if_pos (decide_eq_true hId), List.filter_cons]
    by_cases hRight : goesRight positionMap shift slot.1 = right
    · rw [if_pos (beq_iff_eq.mpr hRight), if_pos ⟨hId, hRight⟩]
      rfl
    · rw [if_neg (mt beq_iff_eq.mp hRight), if_neg fun h => hRight h.2]
      rfl
  · rw [if_neg (mt of_decide_eq_true hId), if_neg fun h => hId h.1]
    rfl

theorem routeBlock_foldlM (hMapped : ∀ slot ∈ slots, 0 ≤ slot.1 → slot.1.toNat < positionMap.length)
    (inputs : List (Slot env) × List (Slot env)) :
    slots.foldlM (routeBlock env positionMap shift) inputs =
      .ok (inputs.1 ++ routedTo env positionMap shift false slots,
        inputs.2 ++ routedTo env positionMap shift true slots) := by
  induction slots generalizing inputs with
  | nil => exact congrArg Except.ok (Prod.ext (List.append_nil _).symm (List.append_nil _).symm)
  | cons slot slots ih =>
    have ih := ih fun other hOther => hMapped other (List.mem_cons_of_mem _ hOther)
    rw [List.foldlM_cons, routedTo_cons, routedTo_cons]
    by_cases hId : 0 ≤ slot.1
    · have hLt := hMapped slot List.mem_cons_self hId
      have hRead : readPosition positionMap slot.1.toNat =
          .ok (positionMap.getD slot.1.toNat 0) := by
        rw [readPosition, List.getElem?_eq_getElem hLt, List.getD_eq_getElem _ _ hLt]
      rw [routeBlock, if_neg (Int.not_lt.mpr hId), hRead, ok_bind]
      by_cases hBit : pathBit (positionMap.getD slot.1.toNat 0) shift ≠ 0
      · have hRight : goesRight positionMap shift slot.1 = true := decide_eq_true hBit
        rw [if_pos hBit, if_neg (by rw [hRight]; exact fun h => Bool.noConfusion h.2),
          if_pos ⟨hId, hRight⟩]
        exact (ih _).trans (by rw [List.nil_append, List.append_assoc]; rfl)
      · have hLeft : goesRight positionMap shift slot.1 = false := decide_eq_false hBit
        rw [if_neg hBit, if_pos ⟨hId, hLeft⟩,
          if_neg (by rw [hLeft]; exact fun h => Bool.noConfusion h.2)]
        exact (ih _).trans (by rw [List.nil_append, List.append_assoc]; rfl)
    · rw [routeBlock, if_pos (Int.not_le.mp hId), if_neg fun h => hId h.1, if_neg fun h => hId h.1]
      exact ih _

theorem mem_routedTo {slot : Slot env} (h : slot ∈ routedTo env positionMap shift right slots) :
    ∃ old ∈ slots, 0 ≤ old.1 ∧ goesRight positionMap shift old.1 = right ∧
    slot = copySlot env old := by
  obtain ⟨old, hOld, rfl⟩ := List.mem_map.mp h
  obtain ⟨hLive, hRight⟩ := List.mem_filter.mp hOld
  obtain ⟨hMem, hId⟩ := List.mem_filter.mp hLive
  exact ⟨old, hMem, of_decide_eq_true hId, beq_iff_eq.mp hRight, rfl⟩

theorem mem_childBlocks {slot : Slot env} (h : slot ∈ childBlocks env ids bucket) :
    ∃ old ∈ ids.zip bucket, 0 ≤ old.1 ∧ slot = copySlot env old := by
  obtain ⟨old, hOld, rfl⟩ := List.mem_map.mp h
  obtain ⟨hMem, hId⟩ := List.mem_filter.mp hOld
  exact ⟨old, hMem, of_decide_eq_true hId, rfl⟩

theorem recorded_fst (slots : List (Slot env)) :
    recorded (slots.map Prod.fst) = ((liveSlots env slots).map Prod.fst : List Int) := by
  rw [recorded, List.filter_map]
  rfl

theorem liveSlots_of_all (h : ∀ slot ∈ slots, 0 ≤ slot.1) : liveSlots env slots = slots :=
  List.filter_eq_self.mpr fun slot hSlot => decide_eq_true (h slot hSlot)

theorem recorded_routedTo (slots : List (Slot env)) :
    recorded ((routedTo env positionMap shift false slots).map Prod.fst) +
      recorded ((routedTo env positionMap shift true slots).map Prod.fst) =
        recorded (slots.map Prod.fst) := by
  induction slots with
  | nil => rfl
  | cons slot slots ih =>
    rw [routedTo_cons, routedTo_cons, List.map_append, List.map_append,
      recorded_append, recorded_append,
      add_add_add_comm, ih, List.map_cons, recorded_cons, add_left_inj]
    by_cases hId : 0 ≤ slot.1
    · cases hRight : goesRight positionMap shift slot.1 with
      | false =>
        rw [if_pos ⟨hId, rfl⟩, if_neg fun h => Bool.noConfusion h.2]
        exact add_zero _
      | true =>
        rw [if_neg fun h => Bool.noConfusion h.2, if_pos ⟨hId, rfl⟩]
        exact zero_add _
    · have hNone : recorded [slot.1] = 0 :=
        congrArg Multiset.ofList (List.filter_cons_of_neg (mt of_decide_eq_true hId))
      rw [if_neg fun h => hId h.1, if_neg fun h => hId h.1, hNone]
      rfl

theorem recorded_childBlocks (hLength : ids.length = bucket.length) :
    recorded ((childBlocks env ids bucket).map Prod.fst) = recorded ids := by
  have hIds : (ids.zip bucket).map Prod.fst = ids := List.map_fst_zip hLength.le
  conv_rhs => rw [← hIds]
  have hLive : ∀ slot ∈ childBlocks env ids bucket, 0 ≤ slot.1 := by
    intro slot hSlot
    obtain ⟨old, _, hId, rfl⟩ := mem_childBlocks hSlot
    exact hId
  rw [recorded_fst, recorded_fst, liveSlots_of_all hLive, childBlocks, List.map_map]
  rfl

end Routing

section Children

variable {cfg : RuntimeConfig} {leaf other : UInt64} {level source : Nat}

def child (source : Nat) (right : Bool) : Nat := 2 * source + 1 + right.toNat

/-- An inner bucket at its level. -/
structure Inner (cfg : RuntimeConfig) (level source : Nat) : Prop where
  level_lt : level < cfg.height
  on_path : ∃ leaf : UInt64, leaf.toNat < 2 ^ cfg.height ∧
    HeapTree.node cfg.height leaf.toNat level = source

theorem Inner.mem_nodes (h : Inner cfg level source) : source ∈ cfg.nodes := by
  obtain ⟨hLevel, leaf, hLeaf, rfl⟩ := h
  exact mem_nodes_of_mem_path hLeaf (HeapTree.node_mem_path _ hLevel.le)

theorem Inner.child_mem_nodes (h : Inner cfg level source) (right : Bool) :
    child source right ∈ cfg.nodes := by
  obtain ⟨hLevel, leaf, hLeaf, rfl⟩ := h
  have hLt := HeapTree.node_lt hLeaf hLevel.le
  have hPow : 2 ^ (level + 1 + 1) ≤ 2 ^ (cfg.height + 1) :=
    Nat.pow_le_pow_right (by decide) (by omega)
  have hRight : right.toNat ≤ 1 := Bool.toNat_le right
  rw [OnionRing.mem_nodes, HeapTree.nodeCount, child]
  omega

theorem Inner.getNodeLevel_eq (h : Inner cfg level source) : getNodeLevel source = level := by
  obtain ⟨hLevel, leaf, hLeaf, rfl⟩ := h
  exact getNodeLevel_node hLeaf hLevel.le

/-- A block of an inner bucket may sink into the child that one bit of its leaf selects. -/
theorem Inner.child_mem_path (hHeight : cfg.height < 63) (h : Inner cfg level source)
    (hOther : other.toNat < 2 ^ cfg.height) (hMem : source ∈ cfg.path other) {right : Bool}
    (hRight : decide (pathBit other (cfg.height - level - 1) ≠ 0) = right) :
    child source right ∈ cfg.path other := by
  obtain ⟨hLevel, leaf, hLeaf, rfl⟩ := h
  have hNode := (HeapTree.node_mem_path_iff hLeaf hOther hLevel.le).mp hMem
  have hSucc := @node_succ_pathBit cfg other (by omega) level hLevel
  have hBit : pathBit other (cfg.height - (level + 1)) = right.toNat := by
    rw [← hRight, Nat.sub_sub]
    rw [pathBit_eq other (by omega)]
    rcases Nat.mod_two_eq_zero_or_one
      (other.toNat / 2 ^ (cfg.height - (level + 1))) with hZero | hOne
    · rw [hZero]
      rfl
    · rw [hOne]
      rfl
  rw [hBit, hNode] at hSucc
  exact HeapTree.mem_path.mpr ⟨level + 1, hLevel, hSucc⟩

end Children

section Triplet

variable {env : Env} {w w' : World env.Ciphertext} {memory : Memory} {level source : Nat}

/-- What a child gets matches the memory and may be stored there. -/
theorem Coherent.childInput_ok (hHeight : env.cfg.height < 63) (h : Coherent env w memory)
    (hInner : Inner env.cfg level source) {right : Bool} {slot : Slot env}
    (hSlot : slot ∈ childInput env w (env.cfg.height - level - 1) source
      (child source right) right) :
    Matches env memory slot ∧ 0 ≤ slot.1 ∧
      ∃ leaf, w.positionMap[slot.1.toNat]? = some leaf ∧
      child source right ∈ env.cfg.path leaf := by
  obtain hSlot | hSlot := List.mem_append.mp hSlot
  · obtain ⟨old, hOld, hId, hRight, rfl⟩ := mem_routedTo hSlot
    refine ⟨fun hExact => (hExact.decrypt_copy old.2).trans
      ((h.holds _ hInner.mem_nodes).transmitted old hOld hExact), hId, ?_⟩
    obtain hDummy | ⟨_, leaf, hLeaf, hPath⟩ :=
      h.placement.placed _ hInner.mem_nodes old.1 (List.of_mem_zip hOld).1
    · rw [hDummy] at hId
      exact absurd hId (by decide)
    · refine ⟨leaf, hLeaf,
        hInner.child_mem_path hHeight
          (h.placement.leaves leaf (List.mem_of_getElem? hLeaf)) hPath ?_⟩
      rw [goesRight, List.getD_eq_getElem?_getD, hLeaf, Option.getD_some] at hRight
      exact hRight
  · obtain ⟨old, hOld, hId, rfl⟩ := mem_childBlocks hSlot
    have hNode := hInner.child_mem_nodes right
    refine ⟨fun hExact =>
      (hExact.decrypt_copy old.2).trans ((h.holds _ hNode).transmitted old hOld hExact), hId, ?_⟩
    obtain hDummy | ⟨_, hPlaced⟩ := h.placement.placed _ hNode old.1 (List.of_mem_zip hOld).1
    · rw [hDummy] at hId
      exact absurd hId (by decide)
    · exact hPlaced

theorem Coherent.lengths_transmitted (h : Coherent env w memory) {b : Nat}
    (hb : b ∈ env.cfg.nodes) :
    (w.idMap b).length = ((w.server.tree b).map env.tfhe.transmit).length :=
  (h.lengths hb).trans (List.length_map _).symm

/-- The children together get every block of the three buckets. -/
theorem Coherent.recorded_childInput (h : Coherent env w memory)
    (hInner : Inner env.cfg level source) :
    recorded ((childInput env w (env.cfg.height - level - 1) source (child source false) false).map
      Prod.fst) +
        recorded ((childInput env w (env.cfg.height - level - 1) source (child source true)
          true).map Prod.fst) =
      recorded (w.idMap source) +
        (recorded (w.idMap (child source false)) + recorded (w.idMap (child source true))) := by
  have hSource : ((w.idMap source).zip ((w.server.tree source).map env.tfhe.transmit)).map
      Prod.fst = w.idMap source :=
    List.map_fst_zip (h.lengths_transmitted hInner.mem_nodes).le
  rw [childInput, childInput, List.map_append, List.map_append, recorded_append,
    recorded_append, add_add_add_comm,
    recorded_routedTo, hSource,
    recorded_childBlocks (h.lengths_transmitted (hInner.child_mem_nodes false)),
    recorded_childBlocks (h.lengths_transmitted (hInner.child_mem_nodes true))]

/-- Three buckets replaced: a function that has been updated at a source, then at its children. -/
def replaceTriplet {α : Type} (f : Nat → α) (source : Nat) (cleared : α)
    (rebuilt : Bool → α) : Nat → α :=
  Function.update (Function.update (Function.update f source cleared)
    (child source false) (rebuilt false))
    (child source true) (rebuilt true)

theorem left_ne_right (source : Nat) : child source false ≠ child source true := by
  rw [child, child]
  exact fun hEq => absurd (Nat.add_left_cancel hEq) (by decide)

theorem source_ne_child (source : Nat) (right : Bool) : source ≠ child source right := by
  rw [child]
  omega

theorem replaceTriplet_child {α : Type} (f : Nat → α) (source : Nat) (cleared : α)
    (rebuilt : Bool → α) (right : Bool) :
    replaceTriplet f source cleared rebuilt (child source right) = rebuilt right := by
  cases right with
  | true => exact Function.update_self _ _ _
  | false =>
    exact (Function.update_of_ne (left_ne_right source) _ _).trans (Function.update_self _ _ _)

theorem replaceTriplet_eq {α : Type} (f : Nat → α) (source : Nat) (cleared left right : α) :
    Function.update (Function.update (Function.update f (child source false) left)
      (child source true) right) source
      cleared = replaceTriplet f source cleared fun side => bif side then right else left := by
  rw [replaceTriplet, Function.update_comm (source_ne_child source true).symm,
    Function.update_comm (source_ne_child source false).symm]
  rfl

theorem replaceTriplet_cases {α β : Type} (f : Nat → α) (g : Nat → β) (source : Nat)
    (cleared : α) (cleared' : β) (rebuilt : Bool → α) (rebuilt' : Bool → β) (b : Nat) :
    (∃ right, b = child source right ∧ replaceTriplet f source cleared rebuilt b = rebuilt right ∧
        replaceTriplet g source cleared' rebuilt' b = rebuilt' right) ∨
      (b = source ∧ replaceTriplet f source cleared rebuilt b = cleared ∧
        replaceTriplet g source cleared' rebuilt' b = cleared') ∨
      replaceTriplet f source cleared rebuilt b = f b ∧
      replaceTriplet g source cleared' rebuilt' b = g b := by
  rcases eq_or_ne b (child source true) with rfl | hRight
  · exact Or.inl ⟨true, rfl, Function.update_self _ _ _, Function.update_self _ _ _⟩
  · rw [replaceTriplet, replaceTriplet, Function.update_of_ne hRight, Function.update_of_ne hRight]
    rcases eq_or_ne b (child source false) with rfl | hLeft
    · exact Or.inl ⟨false, rfl, Function.update_self _ _ _, Function.update_self _ _ _⟩
    · rw [Function.update_of_ne hLeft, Function.update_of_ne hLeft]
      rcases eq_or_ne b source with rfl | hNe
      · exact Or.inr (Or.inl ⟨rfl, Function.update_self _ _ _, Function.update_self _ _ _⟩)
      · exact Or.inr (Or.inr ⟨Function.update_of_ne hNe _ _, Function.update_of_ne hNe _ _⟩)

theorem placedIds_replaceTriplet {cfg : RuntimeConfig} {idMap : Nat → List Int}
    (hSource : source ∈ cfg.nodes)
    (hChild : ∀ right, child source right ∈ cfg.nodes) {count : Nat} {ids : Bool → List Int}
    (hIds : recorded (ids false) + recorded (ids true) =
      recorded (idMap source) +
        (recorded (idMap (child source false)) + recorded (idMap (child source true)))) :
    placedIds cfg (replaceTriplet idMap source (List.replicate count (-1)) ids) =
      placedIds cfg idMap := by
  have hFirst := @placedIds_update cfg idMap source hSource (List.replicate count (-1))
  have hSecond := @placedIds_update cfg (Function.update idMap source (List.replicate count (-1))) _
    (hChild false)
    (ids false)
  have hThird := @placedIds_update cfg
    (Function.update (Function.update idMap source (List.replicate count (-1)))
      (child source false) (ids false)) _ (hChild true) (ids true)
  rw [recorded_dummies, add_zero] at hFirst
  rw [Function.update_of_ne (source_ne_child source false).symm] at hSecond
  rw [Function.update_of_ne (left_ne_right source).symm,
    Function.update_of_ne (source_ne_child source true).symm] at hThird
  rw [replaceTriplet]
  generalize placedIds cfg
    (Function.update (Function.update (Function.update idMap source _) _ _) _ _) = last at hThird ⊢
  generalize placedIds cfg (Function.update (Function.update idMap source _) _ _) =
    second at hSecond hThird
  generalize placedIds cfg (Function.update idMap source _) = first at hFirst hSecond
  -- Adding up the three changes, the blocks that move cancel out.
  apply add_right_cancel (b := recorded (ids false) + recorded (ids true))
  calc last + (recorded (ids false) + recorded (ids true))
      = last + recorded (idMap (child source true)) +
          (recorded (idMap source) + recorded (idMap (child source false))) := by rw [hIds]; abel
    _ = second + recorded (idMap (child source false)) +
      (recorded (idMap source) + recorded (ids true)) := by
        rw [hThird]; abel
    _ = first + recorded (idMap source) + (recorded (ids false) + recorded (ids true)) := by
      rw [hSecond]; abel
    _ = placedIds cfg idMap + (recorded (ids false) + recorded (ids true)) := by rw [hFirst]

/-- What a triplet eviction leaves behind still holds the memory. -/
theorem Coherent.evicted (h : Coherent env w memory) (hInner : Inner env.cfg level source)
    {inputs : Bool → List (Slot env)} {ids : Bool → List Int} {rows : Bool → List env.Ciphertext}
    (hRebuilt : ∀ right, Rebuilt env memory (inputs right) (ids right) (rows right))
    (hOnPath : ∀ right, ∀ slot ∈ inputs right, 0 ≤ slot.1 ∧
      ∃ leaf, w.positionMap[slot.1.toNat]? = some leaf ∧ child source right ∈ env.cfg.path leaf)
    (hIds : recorded ((inputs false).map Prod.fst) + recorded ((inputs true).map Prod.fst) =
      recorded (w.idMap source) +
      (recorded (w.idMap (child source false)) + recorded (w.idMap (child source true))))
    (hServer : w'.server = { w.server with
      tree := replaceTriplet w.server.tree source
        ((List.replicate env.cfg.slots env.tfhe.tLweClear).map env.tfhe.transmit) rows })
    (hLeaves : w'.numLeaves = w.numLeaves) (hPositions : w'.positionMap = w.positionMap)
    (hIdMap : w'.idMap = replaceTriplet w.idMap source (List.replicate env.cfg.slots (-1)) ids) :
    Coherent env w' memory := by
  have hTree : w'.server.tree =
      replaceTriplet w.server.tree source
        ((List.replicate env.cfg.slots env.tfhe.tLweClear).map env.tfhe.transmit)
        rows := by rw [hServer]
  have hCases := replaceTriplet_cases w.idMap w.server.tree source
    (List.replicate env.cfg.slots (-1))
    ((List.replicate env.cfg.slots env.tfhe.tLweClear).map env.tfhe.transmit) ids rows
  rw [← hIdMap, ← hTree] at hCases
  have hPlaced : placedIds env.cfg w'.idMap = placedIds env.cfg w.idMap := by
    rw [hIdMap]
    apply placedIds_replaceTriplet hInner.mem_nodes hInner.child_mem_nodes
    rw [(hRebuilt false).recorded, (hRebuilt true).recorded, hIds]
  refine h.rearrange ?_ hLeaves ?_ hPlaced ?_
  · rw [hServer, ← hTree]
    apply h.shaped.withTree
    intro b hb
    rw [h.shaped.rows b hb]
    obtain ⟨right, _, _, hRow⟩ | ⟨_, _, hRow⟩ | ⟨_, hRow⟩ := hCases b
    · rw [hRow, (hRebuilt right).row_length]
    · rw [hRow, List.length_map, List.length_replicate]
    · rw [hRow, h.shaped.rows b hb]
  · constructor
    case rows =>
      intro b hb
      obtain ⟨right, _, hRow, _⟩ | ⟨_, hRow, _⟩ | ⟨hRow, _⟩ := hCases b
      · rw [hRow, (hRebuilt right).ids_length]
      · rw [hRow, List.length_replicate]
      · rw [hRow, h.placement.rows b hb]
    case placed =>
      intro b hb id hId
      rw [hPositions]
      obtain ⟨right, rfl, hRow, _⟩ | ⟨_, hRow, _⟩ | ⟨hRow, _⟩ := hCases b
      · rw [hRow] at hId
        apply ((hRebuilt right).only id hId).imp_right
        intro hInput
        obtain ⟨slot, hSlot, rfl⟩ := List.mem_map.mp hInput
        exact hOnPath right slot hSlot
      · rw [hRow] at hId
        exact Or.inl (List.eq_of_mem_replicate hId)
      · rw [hRow] at hId
        exact h.placement.placed b hb id hId
    case once => exact hPlaced ▸ h.placement.once
    case positions => exact hPositions ▸ h.placement.positions
    case leaves => exact hPositions ▸ h.placement.leaves
  · intro b hb
    obtain ⟨right, _, hRow, hRow'⟩ | ⟨_, hRow, hRow'⟩ | ⟨hRow, hRow'⟩ := hCases b
    · rw [hRow, hRow']
      exact (hRebuilt right).holds
    · rw [hRow, hRow']
      apply Holds.transmitted
      intro slot hSlot
      rw [List.zip_replicate'] at hSlot
      rw [List.eq_of_mem_replicate hSlot]
      exact matches_clear env memory
    · rw [hRow, hRow']
      exact h.holds b hb

theorem Coherent.length_childInput_le (hHeight : env.cfg.height < 63)
    (h : Coherent env w memory) (hInner : Inner env.cfg level source) (right : Bool) :
    (childInput env w (env.cfg.height - level - 1) source (child source right) right).length ≤
      env.cfg.numBlocks.toNat := by
  have hMoved := @placedIds_replaceTriplet source _ w.idMap hInner.mem_nodes
    hInner.child_mem_nodes 0
    (fun right => (childInput env w (env.cfg.height - level - 1) source
      (child source right) right).map Prod.fst)
    (h.recorded_childInput hInner)
  have hLe := @contents_le_inventory _ _ 0
    (fun b => recorded (replaceTriplet w.idMap source (List.replicate 0 (-1))
      (fun right => (childInput env w (env.cfg.height - level - 1) source (child source right)
        right).map Prod.fst) b))
    _ _ _ (hInner.child_mem_nodes right)
  rw [replaceTriplet_child, ← placedIds, hMoved, recorded_fst,
    liveSlots_of_all fun slot hSlot => (h.childInput_ok hHeight hInner hSlot).2.1] at hLe
  have hCard := (Multiset.card_le_card hLe).trans h.placement.card_le
  rwa [Multiset.coe_card, List.length_map] at hCard

def evictionOverflow : Exception :=
  .runtimeError "Triplet eviction overflowed child bucket capacity"

theorem makeRandomPermutation_spec (size : Nat) :
    Returns (makeRandomPermutation env size) w fun permutation w' =>
      (∃ σ : Equiv.Perm (Fin size), permutation = List.ofFn fun dest => (σ dest).val) ∧
        w' = { w with prng := w.prng + 1 } :=
  Returns.get_bind (Returns.set_bind (Returns.pure ⟨⟨_, rfl⟩, rfl⟩))

/-- A triplet eviction keeps the memory, also when it overflows. -/
theorem tripletEvict_spec (hHeight : env.cfg.height < 63) (h : Coherent env w memory)
    (hInner : Inner env.cfg level source) :
    wp (tripletEvict env source (2 * source + 1) (2 * source + 2)) w
      (fun _ w' => Coherent env w' memory)
      (fun e w' => e = evictionOverflow ∧ env.cfg.slots < env.cfg.numBlocks.toNat ∧
        Coherent env w' memory) := by
  have hSource := hInner.mem_nodes
  have hLeft := hInner.child_mem_nodes false
  have hRight := hInner.child_mem_nodes true
  have hRoute := @routeBlock_foldlM env w.positionMap (env.cfg.height - level - 1)
    ((w.idMap source).zip ((w.server.tree source).map env.tfhe.transmit)) (fun slot hSlot hId => by
      rw [h.placement.positions]
      exact h.placement.lt_numBlocks hSource (List.of_mem_zip hSlot).1 hId) ([], [])
  unfold tripletEvict
  rw [hInner.getNodeLevel_eq]
  apply Returns.outcome_bind (fetchBucketCiphertexts_spec hHeight h.shaped hSource)
  rintro _ _ ⟨rfl, first, rfl⟩
  refine Returns.outcome_bind (fetchBucketCiphertexts_spec hHeight h.shaped hLeft) ?_
  rintro _ _ ⟨rfl, second, rfl⟩
  refine Returns.outcome_bind (fetchBucketCiphertexts_spec hHeight h.shaped hRight) ?_
  rintro _ _ ⟨rfl, third, rfl⟩
  apply wp.get_bind
  rw [World.served_served, World.served_served]
  generalize first ++ (second ++ third) = events
  refine wp.ok_bind hRoute (wp.check_bind (fun hOverflow => ?_) fun hFits => Returns.outcome ?_)
  · refine ⟨rfl, ?_, h.of_eq rfl rfl rfl rfl⟩
    have hShort := h.length_childInput_le hHeight hInner
    exact hOverflow.elim (fun hLt => hLt.trans_le (hShort false)) fun hLt =>
      hLt.trans_le (hShort true)
  · rw [not_or, Nat.not_lt, Nat.not_lt] at hFits
    have hInput : ∀ right,
        ∀ slot ∈ childInput env w (env.cfg.height - level - 1) source (child source right) right,
        Matches env memory slot := fun right slot hSlot => (h.childInput_ok hHeight hInner hSlot).1
    apply (makeRandomPermutation_spec env.cfg.slots).bind
    rintro _ _ ⟨⟨σ, rfl⟩, rfl⟩
    apply (makeRandomPermutation_spec env.cfg.slots).bind
    rintro _ _ ⟨⟨τ, rfl⟩, rfl⟩
    obtain ⟨leftIds, leftRow, hLeftBuilt, hLeftIds, hLeftRow⟩ := rebuild hFits.1 (hInput false) σ
    obtain ⟨rightIds, rightRow, hRightBuilt, hRightIds, hRightRow⟩ :=
      rebuild hFits.2 (hInput true) τ
    refine Returns.ok_bind hLeftRow (Returns.ok_bind hRightRow ?_)
    have hShaped := h.shaped.update (b := child source false) hLeftBuilt.transmitted.row_length
    have hShaped' := hShaped.update (b := child source true) hRightBuilt.transmitted.row_length
    apply Returns.bind (writeBucketCiphertexts_spec hHeight ?shaped hLeft hLeftBuilt.row_length)
    case shaped => exact h.shaped
    rintro _ _ ⟨fourth, rfl⟩
    apply Returns.bind (writeBucketCiphertexts_spec hHeight ?shaped hRight hRightBuilt.row_length)
    case shaped => exact hShaped
    rintro _ _ ⟨fifth, rfl⟩
    apply Returns.bind (writeBucketCiphertexts_spec hHeight ?shaped hSource List.length_replicate)
    case shaped => exact hShaped'
    rintro _ _ ⟨sixth, rfl⟩
    refine Returns.modify_bind
      (Returns.ok_bind hLeftIds (Returns.modify_bind (Returns.ok_bind hRightIds ?_)))
    refine Returns.modify (@Coherent.evicted env w _ memory level source h hInner
      (fun right => childInput env w (env.cfg.height - level - 1) source (child source right) right)
      (fun right => bif right then rightIds else leftIds)
      (fun right => bif right then rightRow.map env.tfhe.transmit
        else leftRow.map env.tfhe.transmit)
      ?rebuilt (fun right slot hSlot => (h.childInput_ok hHeight hInner hSlot).2)
      (h.recorded_childInput hInner) ?server rfl rfl ?idMap)
    case rebuilt =>
      rintro (_ | _)
      · exact hLeftBuilt.transmitted
      · exact hRightBuilt.transmitted
    case server =>
      exact congrArg (fun tree => { w.server with tree := tree }) (replaceTriplet_eq _ source _ _ _)
    case idMap =>
      have hCleared : (w.idMap source).map (fun _ => (-1 : Int)) =
          List.replicate env.cfg.slots (-1) := by
        rw [List.map_const', h.placement.rows source hSource]
      exact congrArg (fun cleared =>
        Function.update (Function.update (Function.update w.idMap source cleared)
          (child source false) leftIds) (child source true) rightIds) hCleared

end Triplet

section Refresh

variable {env : Env} {w w' : World env.Ciphertext} {memory : Memory} {b : Nat}

theorem encryptBlock_spec {block : Bytes} (hLength : block.length ≤ env.cfg.tlweN) :
    Returns (encryptBlock env block) w fun ciphertext w' =>
      (env.tfhe.Exact → env.tfhe.tLweSymDecrypt ciphertext = message env.cfg.tlweN block) ∧
        w' = { w with noise := w.noise + 1 } :=
  Returns.ok_bind (encodeBlock_eq_ok hLength)
    (Returns.get_bind
      (Returns.set_bind (Returns.pure ⟨fun hExact => hExact.decrypt_encrypt _ _, rfl⟩)))

/-- A ciphertext that decrypts to the same block. -/
def Refreshed (env : Env) (new old : env.Ciphertext) : Prop :=
  env.tfhe.Exact → ∀ block : Bytes, block.length = env.cfg.blockSize.toNat →
    env.tfhe.tLweSymDecrypt old = message env.cfg.tlweN block →
    env.tfhe.tLweSymDecrypt new = message env.cfg.tlweN block

theorem refreshSlot_spec (hSize : env.cfg.blockSize.toNat ≤ env.cfg.tlweN)
    (ciphertext : env.Ciphertext) :
    Returns (refreshSlot env ciphertext) w fun refreshed w' =>
      Refreshed env refreshed ciphertext ∧ w' = { w with noise := w.noise + 1 } := by
  have hLength := length_decodeBlock (env.tfhe.tLweSymDecrypt ciphertext) env.cfg.blockSize.toNat
  refine Returns.ok_bind (decryptBlock_eq_ok hSize)
    ((encryptBlock_spec (hLength.trans_le hSize)).mono ?_)
  rintro refreshed _ ⟨hRefreshed, rfl⟩
  refine ⟨fun hExact block hBlock hOld => ?_, rfl⟩
  rw [hRefreshed hExact, hOld, message_decodeBlock hBlock hSize]

theorem Coherent.refreshed (h : Coherent env w memory) (hb : b ∈ env.cfg.nodes)
    {input : List (Slot env)}
    {ids : List Int} {row : List env.Ciphertext} (hRebuilt : Rebuilt env memory input ids row)
    (hInput : input.map Prod.fst = w.idMap b)
    (hServer : w'.server = { w.server with tree := Function.update w.server.tree b row })
    (hLeaves : w'.numLeaves = w.numLeaves) (hPositions : w'.positionMap = w.positionMap)
    (hIdMap : w'.idMap = Function.update w.idMap b ids) : Coherent env w' memory := by
  have hTree : w'.server.tree = Function.update w.server.tree b row := by rw [hServer]
  have hPlaced : placedIds env.cfg w'.idMap = placedIds env.cfg w.idMap := by
    have hUpdate := @placedIds_update env.cfg w.idMap b hb ids
    rw [hRebuilt.recorded, hInput, add_left_inj] at hUpdate
    rw [hIdMap, hUpdate]
  refine h.rearrange (hServer ▸ h.shaped.update hRebuilt.row_length) hLeaves ?_ hPlaced ?_
  · constructor
    case rows =>
      intro b' hb'
      rw [hIdMap]
      rcases eq_or_ne b' b with rfl | hNe
      · rw [Function.update_self, hRebuilt.ids_length]
      · rw [Function.update_of_ne hNe, h.placement.rows b' hb']
    case placed =>
      intro b' hb' id hId
      rw [hPositions]
      rw [hIdMap] at hId
      rcases eq_or_ne b' b with rfl | hNe
      · rw [Function.update_self] at hId
        obtain rfl | hOld := hRebuilt.only id hId
        · exact Or.inl rfl
        · exact h.placement.placed b' hb' id (hInput ▸ hOld)
      · rw [Function.update_of_ne hNe] at hId
        exact h.placement.placed b' hb' id hId
    case once => exact hPlaced ▸ h.placement.once
    case positions => exact hPositions ▸ h.placement.positions
    case leaves => exact hPositions ▸ h.placement.leaves
  · intro b' hb'
    rw [hIdMap, hTree]
    rcases eq_or_ne b' b with rfl | hNe
    · rw [Function.update_self, Function.update_self]
      exact hRebuilt.holds
    · rw [Function.update_of_ne hNe, Function.update_of_ne hNe]
      exact h.holds b' hb'

theorem Holds.refreshed {ids : List Int} {bucket new : List env.Ciphertext}
    (h : Holds env memory ids bucket)
    (hSizes : ∀ addr, (memory addr).length = env.cfg.blockSize.toNat)
    (hRefreshed : List.Forall₂ (Refreshed env) new bucket) : Holds env memory ids new := by
  rintro ⟨id, ciphertext⟩ hMem hExact
  obtain ⟨i, hGet⟩ := List.mem_iff_getElem?.mp hMem
  obtain ⟨hId, hNew⟩ := List.getElem?_zip_eq_some.mp hGet
  obtain ⟨hLt, rfl⟩ := List.getElem?_eq_some_iff.mp hNew
  have hLt' : i < bucket.length := hRefreshed.length_eq ▸ hLt
  have hOld := h (id, bucket[i]) (List.mem_iff_getElem?.mpr
    ⟨i, List.getElem?_zip_eq_some.mpr ⟨hId, List.getElem?_eq_getElem hLt'⟩⟩) hExact
  obtain ⟨block, hLength, hBlock⟩ := @exists_content env memory env.cfg.tlweN hSizes id
  exact (hRefreshed.get hLt hLt' hExact block hLength (hOld.trans hBlock)).trans hBlock.symm

theorem leafRefresh_spec (hHeight : env.cfg.height < 63)
    (hSize : env.cfg.blockSize.toNat ≤ env.cfg.tlweN)
    (h : Coherent env w memory) (hb : b ∈ env.cfg.nodes) :
    Returns (leafRefresh env b) w fun _ w' => Coherent env w' memory := by
  apply (fetchBucketCiphertexts_spec hHeight h.shaped hb).bind
  rintro _ _ ⟨rfl, events, rfl⟩
  refine (@Returns.mapM _ _ _ _ (w.served w.server.tree events)
    ((w.server.tree b).map env.tfhe.transmit)
    (refreshSlot env) (fun w' => ∃ noise,
      w' = { w.served w.server.tree events with noise := noise })
    (Refreshed env) ⟨_, rfl⟩ ?step).bind ?_
  case step =>
    rintro ciphertext _ _ ⟨noise, rfl⟩
    apply (refreshSlot_spec hSize ciphertext).mono
    rintro _ _ ⟨hRefreshed, rfl⟩
    exact ⟨hRefreshed, _, rfl⟩
  rintro refreshed _ ⟨hSame, noise, rfl⟩
  have hLength : refreshed.length = env.cfg.slots :=
    hSame.length_eq.trans ((List.length_map _).trans (h.shaped.rows b hb))
  have hIds : (w.idMap b).length = env.cfg.slots := h.placement.rows b hb
  have hFst : ((w.idMap b).zip refreshed).map Prod.fst = w.idMap b :=
    List.map_fst_zip (hIds.trans hLength.symm).le
  have hSnd : ((w.idMap b).zip refreshed).map Prod.snd = refreshed :=
    List.map_snd_zip (hLength.trans hIds.symm).le
  have hZip : ((w.idMap b).zip refreshed).length = env.cfg.slots := by
    rw [List.length_zip, hIds, hLength, Nat.min_self]
  have hPadded : padSlots env ((w.idMap b).zip refreshed) = (w.idMap b).zip refreshed := by
    rw [padSlots, hZip, Nat.sub_self]
    exact List.append_nil _
  apply (makeRandomPermutation_spec env.cfg.slots).bind
  rintro _ _ ⟨⟨σ, rfl⟩, rfl⟩
  obtain ⟨ids, row, hRebuilt, hNewIds, hRow⟩ :=
    rebuild hZip.le ((h.holds b hb).transmitted.refreshed h.sizes hSame) σ
  rw [hPadded, hFst] at hNewIds
  rw [hPadded, hSnd] at hRow
  refine Returns.get_bind (Returns.ok_bind hRow ?_)
  apply Returns.bind (writeBucketCiphertexts_spec hHeight ?shaped hb hRebuilt.row_length)
  case shaped => exact h.shaped
  rintro _ _ ⟨events', rfl⟩
  exact Returns.ok_bind hNewIds
    (Returns.modify (h.refreshed hb hRebuilt.transmitted hFst rfl rfl rfl rfl))

end Refresh

section Evict

variable {env : Env} {w : World env.Ciphertext} {memory : Memory} {leaf : UInt64} {depth : Nat}

theorem getD_path {cfg : RuntimeConfig} (hDepth : depth ≤ cfg.height) :
    (cfg.path leaf).getD depth 0 = HeapTree.node cfg.height leaf.toNat depth := by
  have hLt : depth < (cfg.path leaf).length := by
    rw [length_path]
    omega
  rw [List.getD_eq_getElem _ _ hLt]
  exact (List.getElem_map _).trans (congrArg _ (List.getElem_range _))

theorem getLastD_path_mem (cfg : RuntimeConfig) (leaf : UInt64) :
    (cfg.path leaf).getLastD 0 ∈ cfg.path leaf := by
  have hNe : cfg.path leaf ≠ [] := List.ne_nil_of_length_pos (by rw [length_path]; omega)
  rw [List.getLastD_eq_getLast?, List.getLast?_eq_some_getLast hNe, Option.getD_some]
  exact List.getLast_mem hNe

/-- An eviction keeps the memory, also when it overflows half-way down. -/
theorem evict_spec (hHeight : env.cfg.height < 63) (hSize : env.cfg.blockSize.toNat ≤ env.cfg.tlweN)
    (h : Coherent env w memory) :
    wp (evict env) w (fun _ w' => Coherent env w' memory)
      (fun e w' => e = evictionOverflow ∧ env.cfg.slots < env.cfg.numBlocks.toNat ∧
        Coherent env w' memory) := by
  refine wp.get_bind (wp.modify_bind ?_)
  have hLeaf := reverseBits_lt (w.evictionCounter % w.numLeaves) (by omega : env.cfg.height ≤ 64)
  generalize reverseBits (w.evictionCounter % w.numLeaves) env.cfg.height = leaf at hLeaf
  dsimp only
  rw [getPathIndices_eq (by omega) hLeaf, length_path, Nat.add_sub_cancel]
  refine wp.bind (wp.forM_range (fun _ w' => Coherent env w' memory)
    (h.of_eq rfl rfl rfl rfl) ?_) ?_
  · intro depth hDepth w' h'
    rw [getD_path hDepth.le]
    exact tripletEvict_spec hHeight h' ⟨hDepth, leaf, hLeaf, rfl⟩
  · intro _ w' h'
    have hNode := mem_nodes_of_mem_path hLeaf (getLastD_path_mem env.cfg leaf)
    exact (leafRefresh_spec hHeight hSize h' hNode).outcome

end Evict
end OramHub.OnionRing
