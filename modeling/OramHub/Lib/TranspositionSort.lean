import Mathlib.Algebra.BigOperators.Intervals
import Mathlib.Algebra.Order.BigOperators.Group.Finset
import Mathlib.Algebra.Order.Ring.Nat
import Mathlib.Order.MinMax

/-! # Odd-even transposition sort

`n` phases put `n` wires in order. For a threshold `v`, the height of a wire is the number of wires
from it on that carry at least `v`. An exchange changes one height, and raises it as far as the
heights of the two neighbours allow.
-/
namespace OramHub.TranspositionSort
set_option autoImplicit false

variable {α : Type} [LinearOrder α] {wires wires' : Nat → α} {v : α} {n k t i p q : Nat}

/-- Puts two neighbours in order. -/
def exchange (wires : Nat → α) (i : Nat) : Nat → α := fun p =>
  if p = i then min (wires i) (wires (i + 1))
  else if p = i + 1 then max (wires i) (wires (i + 1))
  else wires p

/-- The lower wires of the exchanges of a phase. -/
def phase (n t : Nat) : List Nat := List.range' (t % 2) ((n - t % 2) / 2) 2

theorem mem_phase : i ∈ phase n t ↔ i % 2 = t % 2 ∧ i + 1 < n := by
  rw [phase, List.mem_range']
  constructor
  · rintro ⟨j, hj, rfl⟩
    omega
  · rintro ⟨hParity, hi⟩
    exact ⟨(i - t % 2) / 2, by omega, by omega⟩

def runPhase (n : Nat) (wires : Nat → α) (t : Nat) : Nat → α := (phase n t).foldl exchange wires

/-- The lower wires of all exchanges. -/
def exchanges (n phases : Nat) : List Nat := (List.range phases).flatMap (phase n)

section Height

def height (v : α) (wires : Nat → α) (n q : Nat) : Nat :=
  ∑ p ∈ Finset.Ico q n, if v ≤ wires p then 1 else 0

theorem height_of_le (hq : n ≤ q) : height v wires n q = 0 := by
  simp [height, Finset.Ico_eq_empty_of_le hq]

theorem height_of_lt (hq : q < n) :
    height v wires n q = (if v ≤ wires q then 1 else 0) + height v wires n (q + 1) :=
  Finset.sum_eq_sum_Ico_succ_bot hq _

theorem height_congr (h : ∀ p, q ≤ p → wires p = wires' p) :
    height v wires n q = height v wires' n q := by
  apply Finset.sum_congr rfl
  intro p hp
  rw [h p (Finset.mem_Ico.mp hp).1]

theorem height_succ_le (q : Nat) : height v wires n (q + 1) ≤ height v wires n q := by
  by_cases hq : q < n
  · rw [height_of_lt hq]
    exact Nat.le_add_left _ _
  · rw [height_of_le (by omega)]
    exact Nat.zero_le _

theorem height_le_succ (q : Nat) : height v wires n q ≤ height v wires n (q + 1) + 1 := by
  by_cases hq : q < n
  · rw [height_of_lt hq]
    split <;> omega
  · rw [height_of_le (by omega)]
    exact Nat.zero_le _

theorem height_antitone (hpq : p ≤ q) : height v wires n q ≤ height v wires n p := by
  induction hpq with
  | refl => exact le_rfl
  | step _ ih => exact (height_succ_le _).trans ih

theorem height_le (q : Nat) : height v wires n q ≤ n - q := by
  rw [height, ← Nat.card_Ico, Finset.card_eq_sum_ones]
  apply Finset.sum_le_sum
  intro p _
  split <;> omega

theorem height_zero_le (q : Nat) : height v wires n 0 ≤ height v wires n q + q := by
  induction q with
  | zero => exact le_rfl
  | succ q ih =>
    have hStep := @height_le_succ α _ wires v n q
    omega

theorem height_exchange_self (hi : i + 1 < n) :
    height v (exchange wires i) n (i + 1) =
      min (height v wires n i) (height v wires n (i + 2) + 1) := by
  have hAbove : height v (exchange wires i) n (i + 2) = height v wires n (i + 2) := by
    apply height_congr
    intro p hp
    rw [exchange, if_neg (by omega), if_neg (by omega)]
  have hUpper : exchange wires i (i + 1) = max (wires i) (wires (i + 1)) := by simp [exchange]
  have hLower := @height_of_lt α _ wires v n i (by omega)
  have hMiddle : height v wires n (i + 1) = (if v ≤ wires (i + 1) then 1 else 0) +
      height v wires n (i + 2) :=
    height_of_lt hi
  rw [height_of_lt hi, hAbove, hUpper, hLower, hMiddle]
  simp only [le_max_iff]
  by_cases hFirst : v ≤ wires i <;> by_cases hSecond :
      v ≤ wires (i + 1) <;> simp [hFirst, hSecond] <;> omega

theorem height_exchange_of_ne (hi : i + 1 < n) (hq : q ≠ i + 1) :
    height v (exchange wires i) n q = height v wires n q := by
  have hAbove : ∀ p, i + 2 ≤ p → exchange wires i p = wires p := by
    intro p hp
    rw [exchange, if_neg (by omega), if_neg (by omega)]
  by_cases hBelow : i + 2 ≤ q
  · exact height_congr fun p hp => hAbove p (hBelow.trans hp)
  · -- From the lower wire downwards, the exchange permutes what is counted.
    obtain ⟨d, hd⟩ : ∃ d, q + d = i := ⟨i - q, by omega⟩
    clear hBelow hq
    induction d generalizing q with
    | zero =>
      obtain rfl : q = i := hd
      have hLower : exchange wires q q = min (wires q) (wires (q + 1)) := by simp [exchange]
      have hUpper : exchange wires q (q + 1) = max (wires q) (wires (q + 1)) := by simp [exchange]
      rw [height_of_lt (by omega), height_of_lt hi, height_congr hAbove, hLower, hUpper,
        @height_of_lt α _ wires v n q (by omega), @height_of_lt α _ wires v n (q + 1) hi]
      simp only [le_min_iff, le_max_iff]
      by_cases hFirst : v ≤ wires q <;> by_cases hSecond :
          v ≤ wires (q + 1) <;> simp [hFirst, hSecond]
    | succ d ih =>
      have hSame : exchange wires i q = wires q := by
        rw [exchange, if_neg (by omega), if_neg (by omega)]
      rw [height_of_lt (by omega), hSame, ih (by omega), ← height_of_lt (by omega)]

theorem height_le_exchange (hi : i + 1 < n) (q : Nat) :
    height v wires n q ≤ height v (exchange wires i) n q := by
  by_cases hq : q = i + 1
  · subst hq
    rw [height_exchange_self hi]
    exact le_min (height_succ_le i) (height_le_succ (i + 1))
  · exact (height_exchange_of_ne hi hq).ge

end Height

section Bound

/-- The least height of `q` after `t` phases, if `k` wires carry at least the threshold. The sum of
the first two terms is even. -/
def leastHeight (n k t q : Nat) : Nat := min k (min (n - q) ((k + k % 2 + t - q) / 2))

theorem leastHeight_succ_of_even (hq : q % 2 = t % 2) :
    leastHeight n k (t + 1) q = leastHeight n k t q := by
  unfold leastHeight
  omega

theorem leastHeight_exchange (i : Nat) :
    leastHeight n k (t + 1) (i + 1) ≤
      min (leastHeight n k t i) (leastHeight n k t (i + 2) + 1) := by
  have hShift : k + k % 2 + (t + 1) - (i + 1) = k + k % 2 + t - i := by omega
  have hNext : (k + k % 2 + t - i) / 2 ≤ (k + k % 2 + t - (i + 2)) / 2 + 1 := by omega
  unfold leastHeight
  rw [hShift]
  apply le_min
  · exact min_le_min_left k (min_le_min_right _ (Nat.sub_le_sub_left (Nat.le_succ i) n))
  · rw [← min_add_add_right, ← min_add_add_right]
    exact min_le_min (Nat.le_succ k) (min_le_min (by omega) hNext)

/-- What is known after some phases. -/
structure Raised (v : α) (n k t : Nat) (wires : Nat → α) : Prop where
  total : height v wires n 0 = k
  least : ∀ q, leastHeight n k t q ≤ height v wires n q

theorem raised_start : Raised v n (height v wires n 0) 0 wires := by
  constructor
  case total => rfl
  case least =>
    intro q
    have hTotal := @height_zero_le α _ wires v n q
    unfold leastHeight
    cases q with
    | zero => exact min_le_left _ _
    | succ q => omega

theorem Raised.exchange (h : Raised v n k t wires) (hi : i + 1 < n) :
    Raised v n k t (exchange wires i) := by
  constructor
  case total => rw [height_exchange_of_ne hi (by omega), h.total]
  case least => exact fun q => (h.least q).trans (height_le_exchange hi q)

theorem Raised.foldl {is : List Nat} (h : Raised v n k t wires) (hIs : ∀ i ∈ is, i + 1 < n) :
    Raised v n k t (is.foldl TranspositionSort.exchange wires) ∧
      (∀ q, height v wires n q ≤ height v (is.foldl TranspositionSort.exchange wires) n q) ∧
      ∀ i ∈ is, leastHeight n k (t + 1) (i + 1) ≤
        height v (is.foldl TranspositionSort.exchange wires) n (i + 1) := by
  induction is generalizing wires with
  | nil => exact ⟨h, fun _ => le_rfl, by simp⟩
  | cons i is ih =>
    have hi := hIs i List.mem_cons_self
    obtain ⟨hRaised, hMono, hDone⟩ :=
      ih (h.exchange hi) fun other hOther => hIs other (List.mem_cons_of_mem _ hOther)
    refine ⟨hRaised, fun q => (height_le_exchange hi q).trans (hMono q), ?_⟩
    rw [List.forall_mem_cons]
    constructor
    · have hLifted : leastHeight n k (t + 1) (i + 1) ≤
          height v (TranspositionSort.exchange wires i) n (i + 1) := by
        rw [height_exchange_self hi]
        have hStep := @leastHeight_exchange n k t i
        have hLower := h.least i
        have hUpper := h.least (i + 2)
        omega
      exact hLifted.trans (hMono _)
    · exact hDone

/-- A phase keeps the bound ahead: it visits every second wire, and for the others the bound is the
same. -/
theorem Raised.runPhase (h : Raised v n k t wires) : Raised v n k (t + 1) (runPhase n wires t) := by
  obtain ⟨hRaised, _, hDone⟩ := h.foldl fun i hi => (mem_phase.mp hi).2
  constructor
  case total => exact hRaised.total
  case least =>
    intro q
    by_cases hParity : q % 2 = t % 2
    · exact (leastHeight_succ_of_even hParity).trans_le (hRaised.least q)
    · cases q with
      | zero => exact (min_le_left _ _).trans hRaised.total.ge
      | succ q =>
        by_cases hq : q + 1 < n
        · exact hDone q (mem_phase.mpr ⟨by omega, hq⟩)
        · unfold leastHeight
          omega

end Bound

section Order

theorem foldl_exchanges (n phases : Nat) (wires : Nat → α) :
    (exchanges n phases).foldl exchange wires = (List.range phases).foldl (runPhase n) wires := by
  rw [exchanges, List.foldl_flatMap]
  rfl

theorem raised_run (phases : Nat) :
    Raised v n (height v wires n 0) phases ((List.range phases).foldl (runPhase n) wires) := by
  induction phases with
  | zero => exact raised_start
  | succ phases ih =>
    rw [List.range_succ, List.foldl_append]
    exact ih.runPhase

/-- After `n` phases the wires are in order. -/
theorem sorted_exchanges (hpq : p < q) (hq : q < n) :
    (exchanges n n).foldl exchange wires p ≤ (exchanges n n).foldl exchange wires q := by
  rw [foldl_exchanges]
  set sorted := (List.range n).foldl (runPhase n) wires
  by_contra hGreater
  -- The threshold is what the lower wire carries: then too few wires from `q` on carry as much.
  have hRaised : Raised (sorted p) n (height (sorted p) wires n 0) n sorted := raised_run n
  have hLeast := hRaised.least q
  have hTotal := hRaised.total
  have hHere : height (sorted p) sorted n q = height (sorted p) sorted n (q + 1) := by
    rw [height_of_lt hq, if_neg hGreater, zero_add]
  have hAbove := @height_le α _ sorted (sorted p) n (q + 1)
  have hLower : height (sorted p) sorted n p = 1 + height (sorted p) sorted n (p + 1) := by
    rw [height_of_lt (hpq.trans hq), if_pos le_rfl]
  have hBetween := @height_antitone α _ sorted (sorted p) n (p + 1) q hpq
  have hBelow := @height_antitone α _ sorted (sorted p) n 0 p (Nat.zero_le p)
  unfold leastHeight at hLeast
  omega

end Order
end OramHub.TranspositionSort
