import Mathlib.Algebra.BigOperators.Group.Finset.Basic
import Mathlib.Algebra.Order.BigOperators.Group.Finset
import Mathlib.Algebra.Order.Group.Nat
import Mathlib.Data.Multiset.Filter
import OramHub.Lib.Inventory

/-! # Packing items into sites of bounded capacity

`may x i` says that item `x` may lie at site `i`, and `above i j` that site `i` is at or above site
`j`. The sites of an item form a chain, as the nodes of a tree on the way to a leaf do. A placement
is stable if an item lies above a site of its own, or in the stash, only because that site is full.
Stable placements leave as little in the stash as any placement can: the full sites below which
nothing is free hold only items that fit nowhere else.
-/
namespace OramHub.Packing
open OramHub.Inventory
set_option autoImplicit false

variable {ι α : Type}

/-- The items are spread over a stash and the sites. -/
structure Placement (may : α → ι → Prop) (capacity : Nat) (sites : Finset ι)
    (items stash : Multiset α) (contents : ι → Multiset α) : Prop where
  all : inventory stash contents sites = items
  room : ∀ i ∈ sites, (contents i).card ≤ capacity
  allowed : ∀ i ∈ sites, ∀ x ∈ contents i, may x i

/-- A site admits what the sites below it admit, and the sites of an item form a chain. -/
structure Hierarchy (may : α → ι → Prop) (above : ι → ι → Prop) (sites : Finset ι) : Prop where
  refl : ∀ i, above i i
  trans : ∀ i j k, above i j → above j k → above i k
  inherits : ∀ i ∈ sites, ∀ j ∈ sites, above i j → ∀ x, may x j → may x i
  chain : ∀ x, ∀ i ∈ sites, ∀ j ∈ sites, may x i → may x j → above i j ∨ above j i

structure Stable (may : α → ι → Prop) (above : ι → ι → Prop) (capacity : Nat)
    (sites : Finset ι) (stash : Multiset α) (contents : ι → Multiset α) : Prop where
  stash : ∀ x ∈ stash, ∀ i ∈ sites, may x i → capacity ≤ (contents i).card
  contents : ∀ i ∈ sites, ∀ x ∈ contents i, ∀ j ∈ sites, may x j → ¬ above j i →
    capacity ≤ (contents j).card

/-- All sites of the item are among `closed`. -/
def Confined (may : α → ι → Prop) (sites closed : Finset ι) (x : α) : Prop :=
  ∀ i ∈ sites, may x i → i ∈ closed

variable {may : α → ι → Prop} {above : ι → ι → Prop} {capacity : Nat}
  {sites closed lower : Finset ι}
  {items stash stash' : Multiset α} {contents contents' : ι → Multiset α}

theorem Placement.congr (h : Placement may capacity sites items stash contents)
    (hSame : ∀ i ∈ sites, contents' i = contents i) :
    Placement may capacity sites items stash contents' :=
  ⟨(inventory_congr hSame).trans h.all, fun i hi => hSame i hi ▸ h.room i hi, fun i hi =>
    hSame i hi ▸ h.allowed i hi⟩

section Bound

variable [DecidablePred (Confined may sites closed)]

theorem countP_inventory (p : α → Prop) [DecidablePred p] :
    (inventory stash contents sites).countP p = stash.countP p + ∑ i ∈ sites,
    (contents i).countP p := by
  rw [inventory, Multiset.countP_add]
  exact congrArg _ (map_sum (Multiset.countPAddMonoidHom p) contents sites)

theorem Placement.countP_outside (h : Placement may capacity sites items stash contents)
    {i : ι} (hi : i ∈ sites)
    (hOutside : i ∉ closed) : (contents i).countP (Confined may sites closed) = 0 := by
  rw [Multiset.countP_eq_zero]
  intro x hx hConfined
  exact hOutside (hConfined i hi (h.allowed i hi x hx))

theorem Placement.countP_items (h : Placement may capacity sites items stash contents)
    (hSub : closed ⊆ sites) :
    items.countP (Confined may sites closed) =
      stash.countP (Confined may sites closed) + ∑ i ∈ closed,
      (contents i).countP (Confined may sites closed) := by
  rw [← h.all, countP_inventory]
  congr 1
  exact (Finset.sum_subset hSub fun i hi hOutside => h.countP_outside hi hOutside).symm

/-- Items confined to some sites overflow these into the stash. -/
theorem Placement.countP_le (h : Placement may capacity sites items stash contents)
    (hSub : closed ⊆ sites) :
    items.countP (Confined may sites closed) ≤ stash.card + closed.card * capacity := by
  rw [h.countP_items hSub]
  apply Nat.add_le_add (Multiset.countP_le_card _ _)
  apply Finset.sum_le_card_nsmul
  exact fun i hi => (Multiset.countP_le_card _ _).trans (h.room i (hSub hi))

theorem Placement.countP_eq (h : Placement may capacity sites items stash contents)
    (hSub : closed ⊆ sites) (hStash : ∀ x ∈ stash, Confined may sites closed x)
    (hFull : ∀ i ∈ closed, capacity ≤ (contents i).card)
    (hContents : ∀ i ∈ closed, ∀ x ∈ contents i, Confined may sites closed x) :
    items.countP (Confined may sites closed) = stash.card + closed.card * capacity := by
  rw [h.countP_items hSub, Multiset.countP_eq_card.mpr hStash]
  congr 1
  apply Finset.sum_const_nat
  intro i hi
  rw [Multiset.countP_eq_card.mpr (hContents i hi)]
  exact Nat.le_antisymm (h.room i (hSub hi)) (hFull i hi)

end Bound

section Optimality

open scoped Classical in
/-- The sites at and above which everything is full. -/
noncomputable def saturated (above : ι → ι → Prop) (capacity : Nat) (sites : Finset ι)
    (contents : ι → Multiset α) :
    Finset ι :=
  sites.filter fun j => ∀ i ∈ sites, above i j → capacity ≤ (contents i).card

theorem mem_saturated {j : ι} : j ∈ saturated above capacity sites contents ↔
    j ∈ sites ∧ ∀ i ∈ sites, above i j → capacity ≤ (contents i).card := by
  simp only [saturated, Finset.mem_filter]

theorem saturated_upward (hHierarchy : Hierarchy may above sites) {i j : ι}
    (hj : j ∈ saturated above capacity sites contents) (hi : i ∈ sites) (hAbove : above i j) :
    i ∈ saturated above capacity sites contents := by
  rw [mem_saturated] at *
  exact ⟨hi, fun k hk hAbove' => hj.2 k hk (hHierarchy.trans k i j hAbove' hAbove)⟩

theorem Stable.confined_stash (hHierarchy : Hierarchy may above sites)
    (h : Stable may above capacity sites stash contents) {x : α} (hx : x ∈ stash) :
    Confined may sites (saturated above capacity sites contents) x := by
  intro j hj hMay
  refine mem_saturated.mpr ⟨hj, fun i hi hAbove => ?_⟩
  exact h.stash x hx i hi (hHierarchy.inherits i hi j hj hAbove x hMay)

theorem Stable.confined_contents (hHierarchy : Hierarchy may above sites)
    (hPlaced : Placement may capacity sites items stash contents)
    (h : Stable may above capacity sites stash contents) {i : ι}
    (hi : i ∈ saturated above capacity sites contents) {x : α} (hx : x ∈ contents i) :
    Confined may sites (saturated above capacity sites contents) x := by
  obtain ⟨hSite, hFull⟩ := mem_saturated.mp hi
  have hOwn := hPlaced.allowed i hSite x hx
  intro j hj hMay
  refine mem_saturated.mpr ⟨hj, fun k hk hAbove => ?_⟩
  by_cases hHigher : above k i
  · exact hFull k hk hHigher
  · exact h.contents i hSite x hx k hk (hHierarchy.inherits k hk j hj hAbove x hMay) hHigher

/-- In a stable placement some upward closed set of full sites accounts for the whole stash. -/
theorem Stable.exists_tight (hHierarchy : Hierarchy may above sites)
    (hPlaced : Placement may capacity sites items stash contents)
    (h : Stable may above capacity sites stash contents) : ∃ closed ⊆ sites,
      (∀ j ∈ closed, ∀ i ∈ sites, above i j → i ∈ closed) ∧
      ∀ [DecidablePred (Confined may sites closed)],
        items.countP (Confined may sites closed) = stash.card + closed.card * capacity := by
  refine ⟨saturated above capacity sites contents, fun j hj => (mem_saturated.mp hj).1, ?_, ?_⟩
  · exact fun j hj i hi hAbove => saturated_upward hHierarchy hj hi hAbove
  · intro _
    apply hPlaced.countP_eq (fun j hj => (mem_saturated.mp hj).1)
    · exact fun x hx => h.confined_stash hHierarchy hx
    · exact fun j hj => (mem_saturated.mp hj).2 j (mem_saturated.mp hj).1 (hHierarchy.refl j)
    · exact fun j hj x hx => h.confined_contents hHierarchy hPlaced hj hx

/-- A stable placement leaves no more in the stash than any other placement of the same items. -/
theorem Stable.card_stash_le (hHierarchy : Hierarchy may above sites)
    (hPlaced : Placement may capacity sites items stash contents)
    (h : Stable may above capacity sites stash contents)
    (hOther : Placement may capacity sites items stash' contents') :
    stash.card ≤ stash'.card := by
  classical
  obtain ⟨closed, hSub, _, hTight⟩ := h.exists_tight hHierarchy hPlaced
  have hBound := hOther.countP_le hSub
  rw [hTight] at hBound
  exact Nat.le_of_add_le_add_right hBound

end Optimality

theorem Hierarchy.restrict (h : Hierarchy may above sites)
    (hSub : lower ⊆ sites) : Hierarchy may above lower :=
  ⟨h.refl, h.trans, fun i hi j hj => h.inherits i (hSub hi) j (hSub hj), fun x i hi j hj =>
    h.chain x i (hSub hi) j (hSub hj)⟩

theorem Placement.card_items (h : Placement may capacity sites items stash contents) :
    items.card = stash.card + ∑ i ∈ sites, (contents i).card := by
  rw [← h.all, inventory, Multiset.card_add, Multiset.card_sum]

section Restriction

variable [DecidableEq ι]

/-- With a site of `lower`, all sites below it are in `lower`. -/
def Downward (above : ι → ι → Prop) (sites lower : Finset ι) : Prop :=
  ∀ i ∈ lower, ∀ j ∈ sites, above i j → j ∈ lower

/-- The other sites count as part of the stash. -/
theorem Placement.restrict (h : Placement may capacity sites items stash contents)
    (hSub : lower ⊆ sites) :
    Placement may capacity lower items (stash + ∑ i ∈ sites \ lower, contents i) contents := by
  constructor
  case all =>
    have hTake := @inventory_takeAll _ _ stash contents sites _ (sites \ lower) Finset.sdiff_subset
    rw [Finset.sdiff_sdiff_eq_self hSub] at hTake
    rw [hTake, h.all]
  case room => exact fun i hi => h.room i (hSub hi)
  case allowed => exact fun i hi => h.allowed i (hSub hi)

theorem Stable.restrict (h : Stable may above capacity sites stash contents) (hSub : lower ⊆ sites)
    (hDown : Downward above sites lower) :
    Stable may above capacity lower (stash + ∑ i ∈ sites \ lower, contents i) contents := by
  constructor
  case stash =>
    intro x hx j hj hMay
    obtain hStash | hRest := Multiset.mem_add.mp hx
    · exact h.stash x hStash j (hSub hj) hMay
    · obtain ⟨i, hi, hContents⟩ := Multiset.mem_sum.mp hRest
      obtain ⟨hSite, hOutside⟩ := Finset.mem_sdiff.mp hi
      exact h.contents i hSite x hContents j (hSub hj) hMay fun hAbove =>
        hOutside (hDown j hj i hSite hAbove)
  case contents => exact fun i hi x hx j hj => h.contents i (hSub hi) x hx j (hSub hj)

/-- Stable placements of the same items fill every downward closed set of sites to the same extent.
-/
theorem Stable.sum_card_eq (hHierarchy : Hierarchy may above sites)
    (hPlaced : Placement may capacity sites items stash contents)
    (h : Stable may above capacity sites stash contents)
    (hPlaced' : Placement may capacity sites items stash' contents')
    (h' : Stable may above capacity sites stash' contents') (hSub : lower ⊆ sites)
    (hDown : Downward above sites lower) :
    ∑ i ∈ lower, (contents i).card = ∑ i ∈ lower, (contents' i).card := by
  have hLe := (h.restrict hSub hDown).card_stash_le (hHierarchy.restrict hSub)
    (hPlaced.restrict hSub) (hPlaced'.restrict hSub)
  have hGe := (h'.restrict hSub hDown).card_stash_le (hHierarchy.restrict hSub)
    (hPlaced'.restrict hSub) (hPlaced.restrict hSub)
  have hItems := (hPlaced.restrict hSub).card_items
  have hItems' := (hPlaced'.restrict hSub).card_items
  omega

end Restriction

/-! ## Filling the sites one after the other -/

section Filling

/-- A site takes items out of the stash until it is full or nothing in the stash may lie there. -/
structure Fill (may : α → ι → Prop) (capacity : Nat) (i : ι)
    (stash taken kept : Multiset α) : Prop where
  split : taken + kept = stash
  room : taken.card ≤ capacity
  allowed : ∀ x ∈ taken, may x i
  greedy : taken.card = capacity ∨ ∀ x ∈ kept, ¬ may x i

/-- Only the items at hand matter. -/
theorem Fill.congr {may' : α → ι → Prop} {i : ι} {taken kept : Multiset α}
    (h : Fill may capacity i stash taken kept)
    (hSame : ∀ x ∈ stash, may x i ↔ may' x i) : Fill may' capacity i stash taken kept := by
  have hTaken : ∀ x ∈ taken, x ∈ stash := fun x hx => h.split ▸ Multiset.mem_add.mpr (Or.inl hx)
  have hKept : ∀ x ∈ kept, x ∈ stash := fun x hx => h.split ▸ Multiset.mem_add.mpr (Or.inr hx)
  constructor
  case split => exact h.split
  case room => exact h.room
  case allowed => exact fun x hx => (hSame x (hTaken x hx)).mp (h.allowed x hx)
  case greedy =>
    exact h.greedy.imp_right fun hNone x hx hMay => hNone x hx ((hSame x (hKept x hx)).mpr hMay)

/-- The sites have been filled in this order. -/
inductive Filled (may : α → ι → Prop) (capacity : Nat) (contents : ι → Multiset α)
    (kept : Multiset α) :
    List ι → Multiset α → Prop
  | nil : Filled may capacity contents kept [] kept
  | cons {i : ι} {order : List ι} {stash left : Multiset α} :
    Fill may capacity i stash (contents i) left →
      Filled may capacity contents kept order left →
      Filled may capacity contents kept (i :: order) stash

variable {i : ι} {order : List ι} {kept : Multiset α}

theorem Fill.full (h : Fill may capacity i stash items kept) {x : α}
    (hx : x ∈ kept) (hMay : may x i) :
    capacity ≤ items.card := by
  obtain hFull | hNone := h.greedy
  · exact hFull.ge
  · exact absurd hMay (hNone x hx)

theorem Filled.kept_le (h : Filled may capacity contents kept order stash) : kept ≤ stash := by
  induction h with
  | nil => exact le_rfl
  | cons hFill _ ih => exact ih.trans (hFill.split ▸ Multiset.le_add_left _ _)

theorem Filled.contents_le (h : Filled may capacity contents kept order stash)
    (hi : i ∈ order) : contents i ≤ stash := by
  induction h with
  | nil => cases hi
  | cons hFill _ ih =>
    obtain rfl | hRest := List.mem_cons.mp hi
    · exact hFill.split ▸ Multiset.le_add_right _ _
    · exact (ih hRest).trans (hFill.split ▸ Multiset.le_add_left _ _)

theorem Filled.congr (h : Filled may capacity contents kept order stash)
    (hSame : ∀ i ∈ order, contents i = contents' i) :
    Filled may capacity contents' kept order stash := by
  induction h with
  | nil => exact .nil
  | @cons i order stash left hFill _ ih =>
    rw [hSame i List.mem_cons_self] at hFill
    exact .cons hFill (ih fun j hj => hSame j (List.mem_cons_of_mem _ hj))

theorem Filled.snoc (h : Filled may capacity contents kept order stash)
    (hFill : Fill may capacity i kept (contents i) stash') :
    Filled may capacity contents stash' (order ++ [i]) stash := by
  induction h with
  | nil => exact .cons hFill .nil
  | cons hFirst _ ih => exact .cons hFirst ih

variable [DecidableEq ι]

theorem Filled.placement (h : Filled may capacity contents kept order stash)
    (hNodup : order.Nodup) :
    Placement may capacity order.toFinset stash kept contents := by
  induction h with
  | nil =>
    exact ⟨add_zero _, fun i hi => absurd hi (Finset.notMem_empty i), fun i hi =>
      absurd hi (Finset.notMem_empty i)⟩
  | @cons i order stash left hFill _ ih =>
    obtain ⟨hFresh, hRest⟩ := List.nodup_cons.mp hNodup
    have hPlaced := ih hRest
    rw [List.toFinset_cons]
    constructor
    case all =>
      rw [inventory_erase (Finset.mem_insert_self i _),
        Finset.erase_insert (by rwa [List.mem_toFinset]), hPlaced.all, hFill.split]
    case room => exact (Finset.forall_mem_insert _ _ _).mpr ⟨hFill.room, hPlaced.room⟩
    case allowed => exact (Finset.forall_mem_insert _ _ _).mpr ⟨hFill.allowed, hPlaced.allowed⟩

/-- Filling from below gives a stable placement: no site is above one that is filled later. -/
theorem Filled.stable (hHierarchy : Hierarchy may above order.toFinset)
    (h : Filled may capacity contents kept order stash)
    (hOrder : order.Pairwise fun i j => above i j → above j i) :
    Stable may above capacity order.toFinset kept contents := by
  induction h with
  | nil =>
    exact ⟨fun x _ i hi => absurd hi (Finset.notMem_empty i), fun i hi =>
      absurd hi (Finset.notMem_empty i)⟩
  | @cons i order stash left hFill hFilled ih =>
    obtain ⟨hFirst, hRest⟩ := List.pairwise_cons.mp hOrder
    have hSub : order.toFinset ⊆ (i :: order).toFinset := by
      rw [List.toFinset_cons]
      exact Finset.subset_insert _ _
    have hStable := ih (hHierarchy.restrict hSub) hRest
    have hChain := hHierarchy.chain
    simp only [List.toFinset_cons] at hChain ⊢
    constructor
    case stash =>
      intro x hx j hj hMay
      obtain rfl | hOther := Finset.mem_insert.mp hj
      · exact hFill.full (Multiset.mem_of_le hFilled.kept_le hx) hMay
      · exact hStable.stash x hx j hOther hMay
    case contents =>
      intro k hk x hx j hj hMay hNotAbove
      obtain rfl | hkRest := Finset.mem_insert.mp hk
      · obtain rfl | hjRest := Finset.mem_insert.mp hj
        · exact absurd (hHierarchy.refl _) hNotAbove
        -- the site filled first is not strictly above a later one
        · obtain hBelow | hAbove := hChain x k hk j hj (hFill.allowed x hx) hMay
          · exact absurd (hFirst j (List.mem_toFinset.mp hjRest) hBelow) hNotAbove
          · exact absurd hAbove hNotAbove
      · obtain rfl | hjRest := Finset.mem_insert.mp hj
        · exact hFill.full
            (Multiset.mem_of_le (hFilled.contents_le (List.mem_toFinset.mp hkRest)) hx) hMay
        · exact hStable.contents k hkRest x hx j hjRest hMay hNotAbove

end Filling
end OramHub.Packing
