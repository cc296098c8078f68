import Mathlib.Data.List.GetD
import OramHub.Lib.Updates
import OramHub.OnionRing.Client

/-! # What requests do to the tree of the server

Every request of a client that asks for existing slots is answered. A request changes the slots it
names and nothing else.
-/
namespace OramHub.OnionRing
open OramHub.Core OramHub.Program OramHub.Updates
set_option autoImplicit false

/-- A server that runs and holds a tree of full size. -/
structure Shaped (env : Env) (server : Server env.Ciphertext) : Prop where
  running : server.running = true
  treeSize : server.treeSize = HeapTree.nodeCount env.cfg.height
  rows : ∀ b ∈ env.cfg.nodes, (server.tree b).length = env.cfg.slots

/-- The ciphertext in a slot. -/
def slotAt (env : Env) (tree : Nat → List env.Ciphertext) (slot : Nat × Nat) : env.Ciphertext :=
  (tree slot.1).getD slot.2 env.tfhe.tLweClear

/-- The tree after some slots have been cleared. -/
def clearTree (env : Env) (tree : Nat → List env.Ciphertext) (selected : List (Nat × Nat)) :
    Nat → List env.Ciphertext :=
  updateAll (fun row slot => row.set slot env.tfhe.tLweClear) tree selected

variable {env : Env} {server : Server env.Ciphertext}

section Bounds

theorem mem_nodes {cfg : RuntimeConfig} {b : Nat} :
    b ∈ cfg.nodes ↔ b < HeapTree.nodeCount cfg.height :=
  Finset.mem_range

theorem mem_nodes_of_mem_path {cfg : RuntimeConfig} {leaf : UInt64}
    (hLeaf : leaf.toNat < 2 ^ cfg.height) {b : Nat} (h : b ∈ cfg.path leaf) : b ∈ cfg.nodes :=
  mem_nodes.mpr (HeapTree.lt_nodeCount_of_mem_path hLeaf h)

theorem length_path (cfg : RuntimeConfig) (leaf : UInt64) :
    (cfg.path leaf).length = cfg.height + 1 :=
  HeapTree.length_path _ _

theorem slots_lt (cfg : RuntimeConfig) : cfg.slots < 2 ^ 64 := UInt64.toNat_lt _

theorem toNat_ofNat_slot {cfg : RuntimeConfig} {slot : Nat} (h : slot < cfg.slots) :
    (UInt64.ofNat slot).toNat = slot :=
  UInt64.toNat_ofNat_of_lt' (h.trans (slots_lt cfg))

theorem toNat_ofNat_node {cfg : RuntimeConfig} (hHeight : cfg.height < 63) {b : Nat}
    (h : b ∈ cfg.nodes) :
    (UInt64.ofNat b).toNat = b := by
  have hLt := mem_nodes.mp h
  have hPow : 2 ^ (cfg.height + 1) ≤ 2 ^ 63 := Nat.pow_le_pow_right (by decide) (by omega)
  rw [HeapTree.nodeCount] at hLt
  exact UInt64.toNat_ofNat_of_lt' (by rw [UInt64.size]; omega)

theorem length_clearTree (tree : Nat → List env.Ciphertext)
    (selected : List (Nat × Nat)) (b : Nat) :
    (clearTree env tree selected b).length = (tree b).length :=
  @updateAll_keeps _ _ _ _ _ _ selected b (fun row : List env.Ciphertext =>
    row.length = (tree b).length)
    (fun _ _ hRow => List.length_set.trans hRow) rfl

end Bounds

section Handlers

variable {leaf : UInt64} {selections : List Nat}

theorem recvSelection_spec (what : String)
    (hLt : ∀ slot ∈ selections, slot < env.cfg.slots) {i : Nat}
    (hi : i < (selections.map UInt64.ofNat).length) :
    Returns (recvSelection env what (selections.map UInt64.ofNat) i) server fun selection server' =>
      selection = (selections.map UInt64.ofNat)[i] ∧ server' = server := by
  apply (recvItem_spec hi).bind
  rintro _ _ ⟨rfl, rfl⟩
  refine Returns.check_bind ?_ (Returns.pure ⟨rfl, rfl⟩)
  rw [List.length_map] at hi
  have hSlot := hLt _ (List.getElem_mem hi)
  rw [List.getElem_map, UInt64.le_iff_toNat_le, toNat_ofNat_slot hSlot]
  exact Nat.not_le.mpr hSlot

theorem readSlot_eq {tree : Nat → List env.Ciphertext} {slot : Nat × Nat}
    (h : slot.2 < (tree slot.1).length) :
    readSlot env tree slot.1 slot.2 = .ok (slotAt env tree slot) := by
  rw [readSlot, List.getElem?_eq_getElem h, slotAt, List.getD_eq_getElem?_getD,
    List.getElem?_eq_getElem h]
  rfl

theorem accumulate_foldlM {tree : Nat → List env.Ciphertext} {selected : List (Nat × Nat)}
    (h : ∀ slot ∈ selected, slot.2 < (tree slot.1).length ∧ slot.2 < env.cfg.slots)
    (accumulator : env.Ciphertext) :
    (selected.map (Prod.map id UInt64.ofNat)).foldlM (accumulate env tree) accumulator =
      .ok ((selected.map (slotAt env tree)).foldl env.tfhe.tLweAddTo accumulator) := by
  induction selected generalizing accumulator with
  | nil => rfl
  | cons slot selected ih =>
    obtain ⟨hRow, hSlot⟩ := h slot List.mem_cons_self
    have hRead : accumulate env tree accumulator (slot.1, UInt64.ofNat slot.2) =
        .ok (env.tfhe.tLweAddTo accumulator (slotAt env tree slot)) := by
      rw [accumulate, toNat_ofNat_slot hSlot, readSlot_eq hRow]
      rfl
    rw [List.map_cons, List.foldlM_cons]
    change (accumulate env tree accumulator (slot.1, UInt64.ofNat slot.2) >>= _) = _
    rw [hRead, ok_bind, ih fun other hOther => h other (List.mem_cons_of_mem _ hOther),
      List.map_cons, List.foldl_cons]

theorem selected_lt (h : Shaped env server) (hLeaf : leaf.toNat < 2 ^ env.cfg.height)
    (hLt : ∀ slot ∈ selections, slot < env.cfg.slots) :
    ∀ slot ∈ (env.cfg.path leaf).zip selections, slot.2 < (server.tree slot.1).length ∧
    slot.2 < env.cfg.slots := by
  intro slot hSlot
  obtain ⟨hNode, hSelection⟩ := List.of_mem_zip hSlot
  have hSlotLt := hLt _ hSelection
  rw [h.rows _ (mem_nodes_of_mem_path hLeaf hNode)]
  exact ⟨hSlotLt, hSlotLt⟩

theorem handleAccess_spec (hHeight : env.cfg.height < 63) (h : Shaped env server)
    (hLeaf : leaf.toNat < 2 ^ env.cfg.height) (hLength : selections.length = env.cfg.height + 1)
    (hLt : ∀ slot ∈ selections, slot < env.cfg.slots) :
    Returns (handleAccess env leaf (selections.map UInt64.ofNat)) server fun response server' =>
      server' = server ∧
      response = .pathSum (env.tfhe.exportSample ((((env.cfg.path leaf).zip selections).map
        (slotAt env server.tree)).foldl env.tfhe.tLweAddTo env.tfhe.tLweClear)) := by
  have hRounds : (env.cfg.path leaf).length = (selections.map UInt64.ofNat).length := by
    rw [length_path, List.length_map, hLength]
  rw [handleAccess, getPathIndices_eq (by omega) hLeaf, hRounds]
  refine (receiveAll_spec fun i hi => recvSelection_spec _ hLt hi).bind ?_
  rintro _ _ ⟨rfl, rfl⟩
  apply Returns.get_bind
  rw [List.zip_map_right]
  exact Returns.ok_bind (accumulate_foldlM (selected_lt h hLeaf hLt) _) (Returns.pure ⟨rfl, rfl⟩)

theorem handleClearPath_spec (hHeight : env.cfg.height < 63) (h : Shaped env server)
    (hLeaf : leaf.toNat < 2 ^ env.cfg.height) (hLength : selections.length = env.cfg.height + 1)
    (hLt : ∀ slot ∈ selections, slot < env.cfg.slots) :
    Returns (handleClearPath env leaf (selections.map UInt64.ofNat)) server
      fun response server' => response = .ack ∧ server' = { server with
        tree := clearTree env server.tree ((env.cfg.path leaf).zip selections) } := by
  have hPath := length_path env.cfg leaf
  rw [handleClearPath, getPathIndices_eq (by omega) hLeaf]
  have hLoop := @Returns.forM_range Exception (Server env.Ciphertext) server
    (env.cfg.path leaf).length
    (clearSlot env (env.cfg.path leaf) (selections.map UInt64.ofNat))
    (fun i server' => server' = { server with
      tree := clearTree env server.tree (((env.cfg.path leaf).zip selections).take i) }) rfl (by
      rintro i hi _ rfl
      have hi' : i < selections.length := by omega
      have hZip : i < ((env.cfg.path leaf).zip selections).length := by
        rw [List.length_zip]
        omega
      apply (recvSelection_spec _ hLt (by rwa [List.length_map])).bind
      rintro _ _ ⟨rfl, rfl⟩
      have hSlot : selections[i] < env.cfg.slots := hLt _ (List.getElem_mem hi')
      have hNode : (env.cfg.path leaf)[i] ∈ env.cfg.nodes :=
      mem_nodes_of_mem_path hLeaf (List.getElem_mem hi)
      have hRow : selections[i] <
        (clearTree env server.tree (((env.cfg.path leaf).zip selections).take i)
          (env.cfg.path leaf)[i]).length := by
        rw [length_clearTree, h.rows _ hNode]
        exact hSlot
      apply Returns.get_bind
      rw [List.getD_eq_getElem _ _ hi, List.getElem_map, toNat_ofNat_slot hSlot]
      refine Returns.ok_bind (@readSlot_eq env _ ((env.cfg.path leaf)[i], selections[i]) hRow)
        (Returns.set ?_)
      rw [clearTree, clearTree, updateAll, updateAll, List.take_add_one,
        List.getElem?_eq_getElem hZip, List.foldl_append, List.getElem_zip]
      rfl)
  apply hLoop.bind
  rintro _ _ rfl
  rw [List.take_of_length_le (by rw [List.length_zip]; omega)]
  exact Returns.pure ⟨rfl, rfl⟩

theorem handleReadBucket_spec (hHeight : env.cfg.height < 63) (h : Shaped env server) {b : Nat}
    (hb : b ∈ env.cfg.nodes) :
    Returns (handleReadBucket env (UInt64.ofNat b)) server fun response server' =>
      server' = server ∧
      response = .bucket ((server.tree b).map env.tfhe.exportSample) := by
  have hNat := toNat_ofNat_node hHeight hb
  refine Returns.get_bind (Returns.check_bind ?_ (Returns.pure ⟨rfl, ?_⟩))
  · rw [hNat, h.treeSize]
    exact Nat.not_le.mpr (mem_nodes.mp hb)
  · rw [hNat]

theorem handleWriteSlot_spec (hHeight : env.cfg.height < 63) (h : Shaped env server) {b slot : Nat}
    (hb : b ∈ env.cfg.nodes) (hSlot : slot < env.cfg.slots) (bytes : Bytes) :
    Returns (handleWriteSlot env (UInt64.ofNat b) (UInt64.ofNat slot) bytes) server
      fun response server' =>
      response = .ack ∧ server' = server.setSlot b slot (env.tfhe.importSample bytes) := by
  have hNat := toNat_ofNat_node hHeight hb
  have hNatSlot := toNat_ofNat_slot hSlot
  refine Returns.get_bind (Returns.check_bind ?_ (Returns.set_bind (Returns.pure ⟨rfl, ?_⟩)))
  · rw [hNat, hNatSlot, h.treeSize, h.rows b hb, not_or]
    exact ⟨Nat.not_le.mpr (mem_nodes.mp hb), Nat.not_le.mpr hSlot⟩
  · rw [hNat, hNatSlot]

end Handlers
end OramHub.OnionRing
