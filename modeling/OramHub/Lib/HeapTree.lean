import Mathlib.Data.List.Nodup
import Mathlib.Tactic.Ring
import Mathlib.Algebra.Order.Ring.Nat
import Mathlib.Order.Interval.Finset.Nat

/-! # Root-to-leaf paths in a complete binary tree stored as an array

The node at level `k` on the way to a leaf of a tree of height `h` has the closed form `2 ^ k - 1 +
leaf / 2 ^ (h - k)`; the root has index 0 and node `n` has children `2 n + 1`, `2 n + 2`.
-/
namespace OramHub.HeapTree
set_option autoImplicit false

def node (height leaf level : Nat) : Nat := 2 ^ level - 1 + leaf / 2 ^ (height - level)

/-- The nodes from the root down to the leaf. -/
def path (height leaf : Nat) : List Nat := (List.range (height + 1)).map (node height leaf)

def nodeCount (height : Nat) : Nat := 2 ^ (height + 1) - 1

theorem node_zero {height leaf : Nat} (h : leaf < 2 ^ height) : node height leaf 0 = 0 := by
  simp [node, Nat.div_eq_of_lt h]

theorem node_height (height leaf : Nat) : node height leaf height = 2 ^ height - 1 + leaf := by
  simp [node]

theorem div_pow_pred (leaf k : Nat) :
    leaf / 2 ^ k = 2 * (leaf / 2 ^ (k + 1)) + leaf / 2 ^ k % 2 := by
  rw [Nat.pow_succ, ← Nat.div_div_eq_div_mul]
  omega

theorem node_succ {height level : Nat} (leaf : Nat) (h : level < height) :
    node height leaf (level + 1) =
      2 * node height leaf level + 1 + leaf / 2 ^ (height - (level + 1)) % 2 := by
  have hSub : height - level = height - (level + 1) + 1 := by omega
  have hPos : 0 < 2 ^ level := Nat.pow_pos (by decide)
  have hDiv := div_pow_pred leaf (height - (level + 1))
  simp only [node, hSub, Nat.pow_succ] at *
  omega

theorem div_lt_of_level {height leaf level : Nat} (hLeaf : leaf < 2 ^ height)
    (hLevel : level ≤ height) : leaf / 2 ^ (height - level) < 2 ^ level := by
  apply Nat.div_lt_of_lt_mul
  rwa [← Nat.pow_add, Nat.sub_add_cancel hLevel]

theorem le_node (height leaf level : Nat) : 2 ^ level - 1 ≤ node height leaf level :=
  Nat.le_add_right _ _

theorem node_lt {height leaf level : Nat} (hLeaf : leaf < 2 ^ height) (hLevel : level ≤ height) :
    node height leaf level < 2 ^ (level + 1) - 1 := by
  have hDiv := div_lt_of_level hLeaf hLevel
  have hPos : 0 < 2 ^ level := Nat.pow_pos (by decide)
  rw [node, Nat.pow_succ]
  omega

theorem node_lt_nodeCount {height leaf level : Nat} (hLeaf : leaf < 2 ^ height)
    (hLevel : level ≤ height) : node height leaf level < nodeCount height := by
  have hLt := node_lt hLeaf hLevel
  have hPow : 2 ^ (level + 1) ≤ 2 ^ (height + 1) := Nat.pow_le_pow_right (by decide) (by omega)
  rw [nodeCount]
  omega

theorem level_eq_of_node_eq {height leaf leaf' level level' : Nat} (hLeaf : leaf < 2 ^ height)
    (hLeaf' : leaf' < 2 ^ height) (hLevel : level ≤ height) (hLevel' : level' ≤ height)
    (h : node height leaf level = node height leaf' level') : level = level' := by
  have key : ∀ {x y a b : Nat}, x < 2 ^ height → a ≤ height → node height x a = node height y b →
      b ≤ a := by
    intro x y a b hx ha hEq
    by_contra hLt
    have hUpper := node_lt hx ha
    have hLower := le_node height y b
    have hPow : 2 ^ (a + 1) ≤ 2 ^ b := Nat.pow_le_pow_right (by decide) (by omega)
    omega
  exact Nat.le_antisymm (key hLeaf' hLevel' h.symm) (key hLeaf hLevel h)

theorem node_eq_iff {height leaf leaf' level : Nat} :
    node height leaf level = node height leaf' level ↔
      leaf / 2 ^ (height - level) = leaf' / 2 ^ (height - level) := by
  simp [node]

@[simp] theorem length_path (height leaf : Nat) : (path height leaf).length = height + 1 := by
  simp [path]

theorem mem_path {height leaf index : Nat} :
    index ∈ path height leaf ↔ ∃ level ≤ height, node height leaf level = index := by
  simp only [path, List.mem_map, List.mem_range, Nat.lt_succ_iff]

theorem node_mem_path {height level : Nat} (leaf : Nat) (h : level ≤ height) :
    node height leaf level ∈ path height leaf := mem_path.mpr ⟨level, h, rfl⟩

theorem lt_nodeCount_of_mem_path {height leaf index : Nat} (hLeaf : leaf < 2 ^ height)
    (h : index ∈ path height leaf) : index < nodeCount height := by
  obtain ⟨level, hLevel, rfl⟩ := mem_path.mp h
  exact node_lt_nodeCount hLeaf hLevel

theorem nodup_path {height leaf : Nat} (hLeaf : leaf < 2 ^ height) : (path height leaf).Nodup := by
  apply List.Nodup.map_on _ List.nodup_range
  intro level hLevel level' hLevel' hEq
  simp only [List.mem_range, Nat.lt_succ_iff] at hLevel hLevel'
  exact level_eq_of_node_eq hLeaf hLeaf hLevel hLevel' hEq

/-- The node at its own level decides whether an index lies on a path. -/
theorem node_mem_path_iff {height leaf leaf' level : Nat} (hLeaf : leaf < 2 ^ height)
    (hLeaf' : leaf' < 2 ^ height) (hLevel : level ≤ height) :
    node height leaf level ∈ path height leaf' ↔
      node height leaf' level = node height leaf level := by
  constructor
  · intro h
    obtain ⟨level', hLevel', hEq⟩ := mem_path.mp h
    have hSame := level_eq_of_node_eq hLeaf' hLeaf hLevel' hLevel hEq
    rwa [hSame] at hEq
  · intro h
    exact mem_path.mpr ⟨level, hLevel, h⟩

theorem exists_node {height index : Nat} (h : index < nodeCount height) :
    ∃ leaf level, leaf < 2 ^ height ∧ level ≤ height ∧ node height leaf level = index := by
  have hPos : index + 1 ≠ 0 := by omega
  have hLower : 2 ^ Nat.log2 (index + 1) ≤ index + 1 := Nat.log2_self_le hPos
  have hUpper : index + 1 < 2 ^ (Nat.log2 (index + 1) + 1) := Nat.lt_log2_self
  generalize Nat.log2 (index + 1) = level at hLower hUpper
  have hLevel : level ≤ height := by
    by_contra hLt
    have hPow : 2 ^ (height + 1) ≤ 2 ^ level := Nat.pow_le_pow_right (by decide) (by omega)
    rw [nodeCount] at h
    omega
  refine ⟨(index + 1 - 2 ^ level) * 2 ^ (height - level), level, ?_, hLevel, ?_⟩
  · have hSplit : 2 ^ height = 2 ^ level * 2 ^ (height - level) := by
      rw [← Nat.pow_add, Nat.add_sub_cancel' hLevel]
    rw [hSplit]
    apply Nat.mul_lt_mul_of_pos_right _ (Nat.pow_pos (by decide))
    rw [Nat.pow_succ] at hUpper
    omega
  · rw [node, Nat.mul_div_cancel _ (Nat.pow_pos (by decide))]
    have hPowPos : 0 < 2 ^ level := Nat.pow_pos (by decide)
    omega

/-- The parent of a node one level down is the node above it on the same path. -/
theorem parent_node {height level : Nat} (leaf : Nat) (h : level < height) :
    (node height leaf (level + 1) - 1) / 2 = node height leaf level := by
  rw [node_succ leaf h]
  omega

theorem node_lt_node {height leaf leaf' level level' : Nat} (hLeaf : leaf < 2 ^ height)
    (hLevel : level < level')
    (hLe : level' ≤ height) : node height leaf level < node height leaf' level' := by
  have hUpper := node_lt hLeaf (show level ≤ height by omega)
  have hLower := le_node height leaf' level'
  have hPow : 2 ^ (level + 1) ≤ 2 ^ level' := Nat.pow_le_pow_right (by decide) hLevel
  omega

theorem pairwise_path {height leaf : Nat} (hLeaf : leaf < 2 ^ height) :
    (path height leaf).Pairwise (· < ·) := by
  rw [path, List.pairwise_map]
  refine List.Pairwise.imp_of_mem ?_ List.pairwise_lt_range
  intro level level' _ hMem hLt
  exact node_lt_node hLeaf hLt (Nat.lt_succ_iff.mp (List.mem_range.mp hMem))

/-- Paths that meet at a node are the same above it. -/
theorem node_eq_of_le {height leaf leaf' level level' : Nat} (hLevel : level ≤ level')
    (hLe : level' ≤ height) (h : node height leaf level' = node height leaf' level') :
    node height leaf level = node height leaf' level := by
  obtain ⟨d, rfl⟩ := Nat.exists_eq_add_of_le hLevel
  rw [node_eq_iff] at *
  have hSplit : height - level = height - (level + d) + d := by omega
  rw [hSplit, Nat.pow_add, ← Nat.div_div_eq_div_mul, ← Nat.div_div_eq_div_mul, h]

/-- Every path through node `j` goes through node `i`. -/
def Above (height i j : Nat) : Prop :=
  ∀ leaf < 2 ^ height, j ∈ path height leaf → i ∈ path height leaf

theorem above_of_le {height leaf i j : Nat} (hLeaf : leaf < 2 ^ height) (hi : i ∈ path height leaf)
    (hj : j ∈ path height leaf) (hLe : i ≤ j) : Above height i j := by
  obtain ⟨level, hLevel, rfl⟩ := mem_path.mp hi
  obtain ⟨level', hLevel', rfl⟩ := mem_path.mp hj
  have hOrder : level ≤ level' := by
    by_contra hLt
    have hNode := @node_lt_node height leaf leaf _ _ hLeaf (Nat.not_le.mp hLt) hLevel
    omega
  intro other hOther hMem
  have hSame := (node_mem_path_iff hLeaf hOther hLevel').mp hMem
  rw [← node_eq_of_le hOrder hLevel' hSame]
  exact node_mem_path other hLevel

/-- A node above another has no higher index. -/
theorem Above.symm_of_le {height i j : Nat} (h : Above height i j)
    (hj : j < nodeCount height) (hLe : j ≤ i) :
    Above height j i := by
  obtain ⟨leaf, level, hLeaf, hLevel, rfl⟩ := exists_node hj
  have hMem := node_mem_path leaf hLevel
  exact above_of_le hLeaf hMem (h leaf hLeaf hMem) hLe

/-- The nodes of a level. -/
def level (k : Nat) : Finset Nat := Finset.Ico (2 ^ k - 1) (2 ^ (k + 1) - 1)

/-- Each node of a level has its place in the level, counted from the left. -/
theorem mem_level_iff {k index : Nat} :
    index ∈ level k ↔ ∃ place < 2 ^ k, 2 ^ k - 1 + place = index := by
  have hPos : 0 < 2 ^ k := Nat.pow_pos (by decide)
  rw [level, Finset.mem_Ico, Nat.pow_succ]
  constructor
  · intro h
    exact ⟨index - (2 ^ k - 1), by omega, by omega⟩
  · rintro ⟨place, hPlace, rfl⟩
    omega

/-- The highest bits of a leaf are the place of the node on its path. -/
theorem place_mem_path_iff {height leaf k place : Nat} (hLeaf : leaf < 2 ^ height)
    (hLevel : k ≤ height) (hPlace : place < 2 ^ k) :
    2 ^ k - 1 + place ∈ path height leaf ↔ leaf / 2 ^ (height - k) = place := by
  rw [mem_path]
  constructor
  · rintro ⟨level, hLe, hNode⟩
    have hPos : 0 < 2 ^ (height - k) := Nat.pow_pos (by decide)
    have hSelf : place * 2 ^ (height - k) / 2 ^ (height - k) = place := Nat.mul_div_cancel _ hPos
    have hSplit : 2 ^ height = 2 ^ k * 2 ^ (height - k) := by
      rw [← Nat.pow_add, Nat.add_sub_cancel' hLevel]
    have hOwn : place * 2 ^ (height - k) < 2 ^ height :=
      hSplit ▸ Nat.mul_lt_mul_of_pos_right hPlace hPos
    have hEq : node height (place * 2 ^ (height - k)) k = 2 ^ k - 1 + place := by rw [node, hSelf]
    obtain rfl := level_eq_of_node_eq hLeaf hOwn hLe hLevel (hNode.trans hEq.symm)
    rw [← hEq, node_eq_iff, hSelf] at hNode
    exact hNode
  · intro hDiv
    exact ⟨k, hLevel, by rw [node, hDiv]⟩

/-- The paths through a node end in a contiguous range of leaves. -/
theorem place_mem_path_iff_range {height leaf k place : Nat} (hLeaf : leaf < 2 ^ height)
    (hLevel : k ≤ height) (hPlace : place < 2 ^ k) : 2 ^ k - 1 + place ∈ path height leaf ↔
      place * 2 ^ (height - k) ≤ leaf ∧ leaf < place * 2 ^ (height - k) + 2 ^ (height - k) := by
  have hPos : 0 < 2 ^ (height - k) := Nat.pow_pos (by decide)
  rw [place_mem_path_iff hLeaf hLevel hPlace, Nat.div_eq_iff hPos]
  omega

theorem range_place_le {height k place : Nat} (hLevel : k ≤ height) (hPlace : place < 2 ^ k) :
    place * 2 ^ (height - k) + 2 ^ (height - k) ≤ 2 ^ height := by
  have hSplit : 2 ^ height = 2 ^ k * 2 ^ (height - k) := by
    rw [← Nat.pow_add, Nat.add_sub_cancel' hLevel]
  have hNext : (place + 1) * 2 ^ (height - k) ≤ 2 ^ k * 2 ^ (height - k) :=
    Nat.mul_le_mul_right _ hPlace
  rwa [hSplit, ← Nat.succ_mul]

end OramHub.HeapTree
