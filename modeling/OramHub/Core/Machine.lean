import Mathlib.Data.List.Forall2
import OramHub.Core.Ram
import OramHub.Lib.HeapTree
import OramHub.Lib.Program

/-! # Shifts and received items

Shifts by 64 or more are undefined in C++ and raise `undefinedBehavior` here.
-/
namespace OramHub.Core
open OramHub.Program
set_option autoImplicit false

/-- `1ULL << amount`. -/
def shiftOne (amount : UInt64) : Except Exception UInt64 :=
  if 64 ≤ amount then .error (.undefinedBehavior "shift exponent is too large")
    else .ok (1 <<< amount)

theorem shiftOne_eq_ok {amount power : UInt64} (h : shiftOne amount = .ok power) :
    amount.toNat < 64 ∧ power.toNat = 2 ^ amount.toNat := by
  rw [shiftOne] at h
  split at h
  · cases h
  · rename_i hLt
    cases h
    have hSmall : amount.toNat < 64 := Nat.not_le.mp fun hLe => hLt (UInt64.le_iff_toNat_le.mpr hLe)
    have hPow : 2 ^ amount.toNat < 2 ^ 64 := Nat.pow_lt_pow_right (by decide) hSmall
    rw [UInt64.toNat_shiftLeft, Nat.mod_eq_of_lt hSmall, Nat.shiftLeft_eq,
      UInt64.toNat_one, Nat.one_mul, Nat.mod_eq_of_lt hPow]
    exact ⟨hSmall, rfl⟩

theorem shiftOne_of_lt {amount : UInt64} (h : amount.toNat < 64) :
    ∃ power, shiftOne amount = .ok power := by
  refine ⟨1 <<< amount, if_neg fun hLe => ?_⟩
  exact absurd (UInt64.le_iff_toNat_le.mp hLe) (Nat.not_le.mpr h)

section Descent

variable {height leaf node : UInt64} {level : Nat}

theorem toNat_shiftAmount (hLevel : level < height.toNat) :
    (height - 1 - UInt64.ofNat level).toNat = height.toNat - (level + 1) := by
  have hOfNat : (UInt64.ofNat level).toNat = level :=
    UInt64.toNat_ofNat_of_lt' (hLevel.trans (UInt64.toNat_lt height))
  have hOne : (1 : UInt64) ≤ height := by
    rw [UInt64.le_iff_toNat_le, UInt64.toNat_one]
    omega
  have hPred : (height - 1).toNat = height.toNat - 1 := UInt64.toNat_sub_of_le _ _ hOne
  have hLevelLe : UInt64.ofNat level ≤ height - 1 := by
    rw [UInt64.le_iff_toNat_le, hOfNat, hPred]
    omega
  rw [UInt64.toNat_sub_of_le _ _ hLevelLe, hPred, hOfNat]
  omega

/-- The child of a node on the way to a leaf, chosen by the bit of the leaf for the level. -/
theorem toNat_child (hHeight : height.toNat < 63) (hLeaf : leaf.toNat < 2 ^ height.toNat)
    (hLevel : level < height.toNat)
    (hNode : node.toNat = HeapTree.node height.toNat leaf.toNat level) :
    (2 * node + 1 + ((leaf >>> (height - 1 - UInt64.ofNat level)) &&& 1)).toNat =
      HeapTree.node height.toNat leaf.toNat (level + 1) := by
  have hBit : ((leaf >>> (height - 1 - UInt64.ofNat level)) &&& 1).toNat =
      leaf.toNat / 2 ^ (height.toNat - (level + 1)) % 2 := by
    rw [UInt64.toNat_and, UInt64.toNat_shiftRight, toNat_shiftAmount hLevel,
      UInt64.toNat_one, Nat.and_one_is_mod,
      Nat.mod_eq_of_lt (by omega : height.toNat - (level + 1) < 64), Nat.shiftRight_eq_div_pow]
  have hSucc := HeapTree.node_succ leaf.toNat hLevel
  have hLt := HeapTree.node_lt_nodeCount hLeaf (show level + 1 ≤ height.toNat from hLevel)
  have hPow : 2 ^ (height.toNat + 1) ≤ 2 ^ 63 := Nat.pow_le_pow_right (by decide) (by omega)
  rw [HeapTree.nodeCount] at hLt
  rw [UInt64.toNat_add, UInt64.toNat_add, UInt64.toNat_mul, hBit, hNode, UInt64.toNat_one,
    show (2 : UInt64).toNat = 2 from rfl]
  omega

end Descent

/-- A leaf of the tree as the code represents it. -/
def leafOf {bound : Nat} (leaf : Fin bound) : UInt64 := UInt64.ofNat leaf.val

/-- The next item of a request, which the client may fail to send. -/
def recvItem {σ α : Type} (items : List α) (i : Nat) : EStateM Exception σ α :=
  match items[i]? with
  | some item => return item
  | none => throw (.runtimeError "NetIO recv failed")

theorem recvItem_spec {σ α : Type} {s : σ} {items : List α} {i : Nat} (hi : i < items.length) :
    Returns (recvItem items i) s fun item s' => item = items[i] ∧ s' = s := by
  rw [recvItem, List.getElem?_eq_getElem hi]
  exact Returns.pure ⟨rfl, rfl⟩

/-- A loop that receives item `i` in round `i` receives all items, in order. -/
theorem receiveAll_spec {σ α : Type} {s : σ} {items : List α}
    {receive : Nat → EStateM Exception σ α}
    (h : ∀ i (hi : i < items.length), Returns (receive i) s fun item s' =>
      item = items[i] ∧ s' = s) :
    Returns ((List.range items.length).mapM receive) s fun received s' =>
      received = items ∧ s' = s := by
  refine (@Returns.mapM _ _ _ _ s (List.range items.length) receive (fun s' => s' = s)
    (fun item i => items[i]? = some item) rfl ?_).mono ?_
  · rintro i hi _ rfl
    have hLt := List.mem_range.mp hi
    refine (h i hLt).mono ?_
    rintro _ _ ⟨rfl, rfl⟩
    exact ⟨List.getElem?_eq_getElem hLt, rfl⟩
  · rintro received _ ⟨hReceived, rfl⟩
    refine ⟨?_, rfl⟩
    have hLength : received.length = items.length := by
      rw [hReceived.length_eq, List.length_range]
    apply List.ext_getElem hLength
    intro i hi hi'
    have hItem := hReceived.get hi (by rwa [List.length_range])
    rw [List.get_eq_getElem, List.get_eq_getElem, List.getElem_range, List.getElem?_eq_getElem hi',
      Option.some_inj] at hItem
    exact hItem.symm

theorem recvItems_spec {σ α : Type} {s : σ} (items : List α) :
    Returns ((List.range items.length).mapM (recvItem items)) s fun received s' =>
      received = items ∧ s' = s :=
  receiveAll_spec fun _ hi => recvItem_spec hi

theorem recvItems_outcome {σ α : Type} {s : σ} (items : List α) (count : Nat) :
    wp ((List.range count).mapM (recvItem items)) s
      (fun received s' => count ≤ items.length ∧ received = items.take count ∧ s' = s)
      fun _ s' => items.length < count ∧ s' = s := by
  have hRound : ∀ i ∈ List.range count, ∀ s', s' = s →
      wp (recvItem items i) s' (fun item s'' => items[i]? = some item ∧ s'' = s) fun _ s'' =>
        items.length < count ∧ s'' = s := by
    rintro i hi _ rfl
    unfold recvItem
    cases hItem : items[i]? with
    | some item => exact wp.pure ⟨rfl, rfl⟩
    | none =>
      exact (wp_throw _).mpr
        ⟨(List.getElem?_eq_none_iff.mp hItem).trans_lt (List.mem_range.mp hi), rfl⟩
  apply wp_mono (wp.mapM (fun s' => s' = s) (fun item i => items[i]? = some item) rfl hRound) ?_
    fun _ _ => id
  rintro received _ ⟨hReceived, rfl⟩
  have hLength : received.length = count := by simpa using hReceived.length_eq
  have hGet : ∀ i, i < count → items[i]? = received[i]? := by
    intro i hi
    have hLt : i < received.length := hLength ▸ hi
    have hItem := hReceived.get hLt (by simpa using hi)
    rw [List.getElem?_eq_getElem hLt]
    simpa using hItem
  have hLe : count ≤ items.length := by
    by_contra hLt
    have hLast := hGet (count - 1) (by omega)
    rw [List.getElem?_eq_none (by omega), List.getElem?_eq_getElem (by omega)] at hLast
    cases hLast
  refine ⟨hLe, ?_, rfl⟩
  apply List.ext_getElem?
  intro i
  by_cases hi : i < count
  · rw [List.getElem?_take_of_lt hi, hGet i hi]
  · rw [List.getElem?_eq_none (by omega), List.getElem?_eq_none (by simp; omega)]

end OramHub.Core
