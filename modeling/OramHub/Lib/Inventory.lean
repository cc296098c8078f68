import Mathlib.Algebra.BigOperators.Group.Finset.Basic
import Mathlib.Algebra.Order.Group.Multiset
import Mathlib.Data.Multiset.Bind

/-! # What a stash and a family of containers hold together

Items move between a stash and containers. The inventory counts the stash and the active
containers; a container that has been emptied into the stash is inactive until it is refilled.
-/
namespace OramHub.Inventory
set_option autoImplicit false

variable {ι α κ : Type}

def inventory (stash : Multiset α) (contents : ι → Multiset α) (active : Finset ι) : Multiset α :=
  stash + ∑ i ∈ active, contents i

variable {stash : Multiset α} {contents contents' : ι → Multiset α} {active : Finset ι} {i : ι}

theorem mem_inventory {x : α} :
    x ∈ inventory stash contents active ↔ x ∈ stash ∨ ∃ i ∈ active, x ∈ contents i := by
  rw [inventory, Multiset.mem_add, Multiset.mem_sum]

theorem inventory_congr (h : ∀ i ∈ active, contents i = contents' i) :
    inventory stash contents active = inventory stash contents' active := by
  rw [inventory, inventory, Finset.sum_congr rfl h]

theorem inventory_add (extra : Multiset α) :
    inventory (extra + stash) contents active = extra + inventory stash contents active := by
  rw [inventory, inventory, add_assoc]

theorem stash_le_inventory : stash ≤ inventory stash contents active := Multiset.le_add_right _ _

theorem nodup_of_le {items : Multiset α} {key : α → κ}
    (hNodup : ((inventory stash contents active).map key).Nodup)
    (h : items ≤ inventory stash contents active) : (items.map key).Nodup :=
  Multiset.nodup_of_le (Multiset.map_le_map h) hNodup

variable [DecidableEq ι]

theorem inventory_erase (h : i ∈ active) :
    inventory stash contents active = contents i + inventory stash contents (active.erase i) := by
  rw [inventory, inventory, ← Finset.add_sum_erase active contents h, add_left_comm]

theorem inventory_take (h : i ∈ active) :
    inventory (stash + contents i) contents (active.erase i) = inventory stash contents active := by
  rw [inventory_erase h, add_comm stash, inventory_add]

theorem inventory_takeAll {moved : Finset ι} (h : moved ⊆ active) :
    inventory (stash + ∑ i ∈ moved, contents i) contents (active \ moved) =
      inventory stash contents active := by
  rw [inventory, inventory, add_assoc, add_comm (∑ i ∈ moved, contents i), Finset.sum_sdiff h]

theorem coe_flatMap (items : ι → List α) {indices : List ι} (h : indices.Nodup) :
    (indices.flatMap items : Multiset α) = ∑ i ∈ indices.toFinset, (items i : Multiset α) := by
  rw [List.sum_toFinset _ h]
  clear h
  induction indices with
  | nil => rfl
  | cons i indices ih =>
    rw [List.flatMap_cons, ← Multiset.coe_add, ih, List.map_cons, List.sum_cons]

theorem sum_getD (rows : List (List α)) :
    ∑ i ∈ Finset.range rows.length,
    (rows.getD i [] : Multiset α) = (rows.flatten : Multiset α) := by
  induction rows with
  | nil => rfl
  | cons row rows ih =>
    rw [List.length_cons, Finset.sum_range_succ', List.flatten_cons,
      ← Multiset.coe_add, ← ih, add_comm]
    rfl

theorem inventory_fill (filled : Multiset α) (h : i ∉ active) :
    inventory stash (Function.update contents i filled) (insert i active) =
      inventory (filled + stash) contents active := by
  have hSame : ∀ j ∈ active, Function.update contents i filled j = contents j := fun j hj =>
    Function.update_of_ne (ne_of_mem_of_not_mem hj h) _ _
  rw [inventory_add, inventory_erase (Finset.mem_insert_self i active), Function.update_self,
    Finset.erase_insert h, inventory_congr hSame]

theorem inventory_update {removed left : Multiset α} (h : i ∈ active)
    (hContents : contents i = removed + left) :
    inventory stash contents active =
      removed + inventory stash (Function.update contents i left) active := by
  have hSame : ∀ j ∈ active.erase i, Function.update contents i left j = contents j := fun j hj =>
    Function.update_of_ne (Finset.ne_of_mem_erase hj) _ _
  rw [inventory_erase h, inventory_erase h, Function.update_self, inventory_congr hSame, hContents,
    add_assoc]

theorem contents_le_inventory (h : i ∈ active) : contents i ≤ inventory stash contents active := by
  rw [inventory_erase h]
  exact Multiset.le_add_right _ _

section Keys

variable {key : α → κ}

/-- With distinct keys, an item of the stash is in no active container. -/
theorem not_mem_contents (hNodup : ((inventory stash contents active).map key).Nodup)
    (hi : i ∈ active)
    {x y : α} (hx : x ∈ stash) (hy : y ∈ contents i) : key x ≠ key y := by
  rw [inventory_erase hi, inventory, add_left_comm, Multiset.map_add, Multiset.nodup_add] at hNodup
  intro hEq
  refine (Multiset.disjoint_left.mp hNodup.2.2) (Multiset.mem_map_of_mem key hx) ?_
  rw [hEq, Multiset.map_add, Multiset.mem_add]
  exact Or.inl (Multiset.mem_map_of_mem key hy)

/-- With distinct keys, two active containers share no key. -/
theorem contents_disjoint (hNodup : ((inventory stash contents active).map key).Nodup) {j : ι}
    (hi : i ∈ active) (hj : j ∈ active) (hNe : i ≠ j) {x y : α} (hx : x ∈ contents i)
    (hy : y ∈ contents j) : key x ≠ key y := by
  rw [inventory_erase hi, inventory_erase (Finset.mem_erase.mpr ⟨hNe.symm, hj⟩), Multiset.map_add,
    Multiset.nodup_add] at hNodup
  intro hEq
  refine (Multiset.disjoint_left.mp hNodup.2.2) (Multiset.mem_map_of_mem key hx) ?_
  rw [hEq, Multiset.map_add, Multiset.mem_add]
  exact Or.inl (Multiset.mem_map_of_mem key hy)

end Keys
end OramHub.Inventory
