import Mathlib.Data.Finset.Card
import Mathlib.Data.Nat.ModEq
import Mathlib.Tactic.Ring

/-! # Bit reversal

`reverse n x` reads the lowest `n` bits of `x` from the lowest to the highest. Its highest bits come
from the lowest bits of `x`, so a counter visits every prefix once in each window of the right
length.
-/
namespace OramHub.BitReversal
set_option autoImplicit false

def reverse : Nat → Nat → Nat
  | 0, _ => 0
  | n + 1, x => 2 * reverse n x + x / 2 ^ n % 2

theorem reverse_lt (n x : Nat) : reverse n x < 2 ^ n := by
  induction n with
  | zero => exact Nat.one_pos
  | succ n ih =>
    rw [reverse, Nat.pow_succ]
    omega

/-- The highest `k` bits of the reversal are the reversal of the lowest `k` bits. -/
theorem reverse_div {n k : Nat} (h : k ≤ n) (x : Nat) :
    reverse n x / 2 ^ (n - k) = reverse k x := by
  induction n, h using Nat.le_induction with
  | base => simp
  | succ n hLe ih =>
    have hHalf : (2 * reverse n x + x / 2 ^ n % 2) / 2 = reverse n x := by omega
    rw [Nat.succ_sub hLe, reverse, Nat.pow_succ', ← Nat.div_div_eq_div_mul, hHalf, ih]

theorem reverse_mod {n m : Nat} (h : n ≤ m) (x : Nat) : reverse n (x % 2 ^ m) = reverse n x := by
  induction n with
  | zero => rfl
  | succ n ih =>
    have hBit : x % 2 ^ m / 2 ^ n % 2 = x / 2 ^ n % 2 := by
      obtain ⟨d, rfl⟩ := Nat.exists_eq_add_of_le h
      rw [Nat.add_assoc, Nat.pow_add, Nat.mod_mul_right_div_self, Nat.pow_add,
        Nat.mod_mul_right_mod, Nat.pow_one]
    rw [reverse, reverse, ih (by omega), hBit]

theorem mod_eq_of_reverse_eq {n x y : Nat}
    (h : reverse n x = reverse n y) : x % 2 ^ n = y % 2 ^ n := by
  induction n with
  | zero => simp [Nat.mod_one]
  | succ n ih =>
    rw [reverse, reverse] at h
    have hRest : reverse n x = reverse n y := by omega
    have hBit : x / 2 ^ n % 2 = y / 2 ^ n % 2 := by omega
    rw [Nat.mod_pow_succ, Nat.mod_pow_succ, ih hRest, hBit]

/-- Two members of a window of length `n` that agree modulo `n` are the same. -/
theorem eq_of_window_mod_eq {n start i j : Nat} (hi : i < n) (hj : j < n)
    (h : (start + i) % n = (start + j) % n) :
    i = j := by
  have hMod : i % n = j % n := Nat.ModEq.add_left_cancel' start h
  rwa [Nat.mod_eq_of_lt hi, Nat.mod_eq_of_lt hj] at hMod

/-- A map that does not repeat within `n` values below `n` takes each of them once. -/
theorem existsUnique_of_injOn {n : Nat} {f : Nat → Nat} (hMaps : ∀ i < n, f i < n)
    (hInj : ∀ i < n, ∀ j < n, f i = f j → i = j) {target : Nat} (h : target < n) :
    ∃! i, i < n ∧ f i = target := by
  have hSurj : Set.SurjOn f (Finset.range n) (Finset.range n) := by
    apply Finset.surjOn_of_injOn_of_card_le f _ _ le_rfl
    · intro i hi
      exact Finset.mem_coe.mpr
        (Finset.mem_range.mpr (hMaps i (Finset.mem_range.mp (Finset.mem_coe.mp hi))))
    · intro i hi j hj hEq
      exact hInj i (Finset.mem_range.mp (Finset.mem_coe.mp hi)) j
        (Finset.mem_range.mp (Finset.mem_coe.mp hj)) hEq
  obtain ⟨i, hi, rfl⟩ := hSurj (Finset.mem_coe.mpr (Finset.mem_range.mpr h))
  have hLt := Finset.mem_range.mp (Finset.mem_coe.mp hi)
  exact ⟨i, ⟨hLt, rfl⟩, fun j hj => hInj j hj.1 i hLt hj.2⟩

/-- In each window of length `2 ^ k` every prefix of `k` bits is visited once. -/
theorem existsUnique_reverse {k target : Nat} (start : Nat) (h : target < 2 ^ k) :
    ∃! i, i < 2 ^ k ∧ reverse k (start + i) = target := by
  apply existsUnique_of_injOn (fun i _ => reverse_lt k (start + i)) _ h
  intro i hi j hj hEq
  exact eq_of_window_mod_eq hi hj (mod_eq_of_reverse_eq hEq)

/-! ## Counting without the reversal -/

/-- The highest `k` of `n` bits of a counter. -/
def highest (n k x : Nat) : Nat := x % 2 ^ n / 2 ^ (n - k)

/-- The windows of length `2 ^ k` in which an unreversed counter visits every prefix of `k` bits
once. -/
def EvenWindow (n k start : Nat) : Prop := k = 0 ∨ k = n ∨ k = 1 ∧ 2 ^ (n - 1) ∣ start + 1

theorem highest_eq {n k : Nat} (h : k ≤ n) (x : Nat) : highest n k x = x / 2 ^ (n - k) % 2 ^ k := by
  have hSplit : 2 ^ n = 2 ^ (n - k) * 2 ^ k := by rw [← Nat.pow_add, Nat.sub_add_cancel h]
  rw [highest, hSplit, Nat.mod_mul_right_div_self]

theorem highest_lt {n k : Nat} (h : k ≤ n) (x : Nat) : highest n k x < 2 ^ k := by
  rw [highest_eq h]
  exact Nat.mod_lt _ (Nat.pow_pos (by decide))

/-- Two successive counters have different highest bits only if a carry reaches these. -/
theorem dvd_of_highest_ne {n k x : Nat} (h : k ≤ n) (hNe : highest n k x ≠ highest n k (x + 1)) :
    2 ^ (n - k) ∣ x + 1 := by
  by_contra hNot
  apply hNe
  rw [highest_eq h, highest_eq h, Nat.succ_div_of_not_dvd hNot]

theorem evenWindow_of_injOn {n k start : Nat} (h : k ≤ n)
    (hInj : ∀ i < 2 ^ k, ∀ j < 2 ^ k, highest n k (start + i) = highest n k (start + j) → i = j) :
    EvenWindow n k start := by
  rw [EvenWindow, or_iff_not_imp_left, or_iff_not_imp_left]
  intro hPos hLt
  have hStep : ∀ i, i + 1 < 2 ^ k → 2 ^ (n - k) ∣ start + i + 1 := by
    intro i hi
    apply dvd_of_highest_ne h
    intro hEq
    have hSame := hInj i (by omega) (i + 1) hi hEq
    omega
  have hTwo : 2 ^ 1 ≤ 2 ^ k := Nat.pow_le_pow_right (by decide) (by omega)
  have hFirst : 2 ^ (n - k) ∣ start + 1 := hStep 0 (by omega)
  suffices hOne : k = 1 by exact ⟨hOne, hOne ▸ hFirst⟩
  by_contra hNe
  have hFour : 2 ^ 2 ≤ 2 ^ k := Nat.pow_le_pow_right (by decide) (by omega)
  have hUnit : 2 ^ (n - k) ∣ 1 := (Nat.dvd_add_right hFirst).mp (hStep 1 (by omega))
  have hLarge : 2 ^ 1 ≤ 2 ^ (n - k) := Nat.pow_le_pow_right (by decide) (by omega)
  have hSmall := Nat.le_of_dvd Nat.one_pos hUnit
  omega

theorem injOn_of_evenWindow {n k start i j : Nat} (h : k ≤ n)
    (hEven : EvenWindow n k start) (hi : i < 2 ^ k)
    (hj : j < 2 ^ k) (hEq : highest n k (start + i) = highest n k (start + j)) : i = j := by
  rcases hEven with rfl | rfl | ⟨rfl, multiple, hMultiple⟩
  · rw [Nat.pow_zero] at hi hj
    omega
  · rw [highest_eq h, highest_eq h, Nat.sub_self, Nat.pow_zero, Nat.div_one, Nat.div_one] at hEq
    exact eq_of_window_mod_eq hi hj hEq
  · have hPos : 0 < 2 ^ (n - 1) := Nat.pow_pos (by decide)
    have hCarry : (start + 1) / 2 ^ (n - 1) = start / 2 ^ (n - 1) + 1 :=
      Nat.succ_div_of_dvd ⟨multiple, hMultiple⟩
    rw [highest_eq h, highest_eq h, Nat.pow_one] at hEq
    rw [Nat.pow_one] at hi hj
    have hCases : ∀ x < 2, (start + x) / 2 ^ (n - 1) = start / 2 ^ (n - 1) + x := by
      intro x hx
      obtain rfl | rfl : x = 0 ∨ x = 1 := by omega
      · rfl
      · exact hCarry
    rw [hCases i hi, hCases j hj] at hEq
    omega

/-- Without the reversal, a window visits every prefix once only if it is even. -/
theorem existsUnique_highest_iff {n k : Nat} (h : k ≤ n) (start : Nat) :
    (∀ target < 2 ^ k, ∃! i, i < 2 ^ k ∧ highest n k (start + i) = target) ↔
      EvenWindow n k start := by
  constructor
  · intro hUnique
    apply evenWindow_of_injOn h
    intro i hi j hj hEq
    exact (hUnique _ (highest_lt h (start + j))).unique ⟨hi, hEq⟩ ⟨hj, rfl⟩
  · intro hEven target hTarget
    apply existsUnique_of_injOn (fun i _ => highest_lt h (start + i)) _ hTarget
    exact fun i hi j hj hEq => injOn_of_evenWindow h hEven hi hj hEq

end OramHub.BitReversal
