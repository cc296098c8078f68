import Mathlib.Data.List.GetD
import Mathlib.Data.List.Sort
import OramHub.Lib.TranspositionSort
import OramHub.OnionRing.HomOps

/-! # The swap network

The network compares neighbours in a fixed order, whatever the permutation: it is an odd-even
transposition sort. The swap bits of a permutation are the decisions of that sort on the
destinations of the indices.
-/
namespace OramHub.OnionRing
open OramHub.Core OramHub.Program OramHub.TranspositionSort
set_option autoImplicit false

structure WaksmanGate where
  i : Nat
  j : Nat
  bitIdx : Nat
  deriving DecidableEq, Repr

structure WaksmanNetwork where
  size : Nat
  gates : List WaksmanGate

namespace WaksmanNetwork

/-- `gates_.push_back(WaksmanGate{i, i + 1, bit_idx++})`, with the gates and `bit_idx` so far. -/
def pushGate (built : List WaksmanGate × Nat) (i : Nat) : List WaksmanGate × Nat :=
  (built.1 ++ [⟨i, i + 1, built.2⟩], built.2 + 1)

def buildNetwork (size : Nat) : List WaksmanGate :=
  ((List.range size).foldl (fun built round => (phase size round).foldl pushGate built) ([], 0)).1

def construct (size : Nat) : Except Exception WaksmanNetwork :=
  if size < 2 then .error (.invalidArgument "WaksmanNetwork size must be at least 2") else .ok
    ⟨size, buildNetwork size⟩

/-- `std::swap(items[i], items[j])`. -/
def swapAt {α : Type} (items : List α) (i j : Nat) : List α :=
  match items[i]?, items[j]? with
  | some x, some y => (items.set i y).set j x
  | _, _ => items

def notEachOnce : Exception := .invalidArgument "Permutation must contain each index exactly once"

/-- One round of the first loop of `GenerateSwapBits`, with `seen` and `rank` and with an index and
its destination. -/
def recordRank (size : Nat) (recorded : List Bool × List Nat) (entry : Nat × Nat) :
    Except Exception (List Bool × List Nat) :=
  if size ≤ entry.1 ∨ recorded.1.getD entry.1 false = true then .error notEachOnce
  else .ok (recorded.1.set entry.1 true, recorded.2.set entry.1 entry.2)

/-- One round of the loop over the gates, with `current` and `swap_bits`. -/
def route (rank : List Nat) (routed : List Nat × List Bool)
    (gate : WaksmanGate) : List Nat × List Bool :=
  let shouldSwap : Bool :=
    rank.getD (routed.1.getD gate.j 0) 0 < rank.getD (routed.1.getD gate.i 0) 0
  (if shouldSwap then swapAt routed.1 gate.i gate.j else routed.1,
    routed.2.set gate.bitIdx shouldSwap)

def generateSwapBits (network : WaksmanNetwork) (permutation : List Nat) :
    Except Exception (List Bool) :=
  if permutation.length ≠ network.size then .error (.invalidArgument "Permutation size mismatch")
  else do
    let recorded ← permutation.zipIdx.foldlM (recordRank network.size)
      (List.replicate network.size false, List.replicate network.size 0)
    let routed := network.gates.foldl (route recorded.2)
      (List.range network.size, List.replicate network.gates.length false)
    if routed.1 ≠ permutation then
      .error (.runtimeError "Failed to synthesize permutation with fixed swap network")
    else .ok routed.2

/-- Swaps where the bit of the gate is set. -/
def swapGate {α : Type} (swapBits : List Bool) (items : List α) (gate : WaksmanGate) : List α :=
  if swapBits.getD gate.bitIdx false then swapAt items gate.i gate.j else items

/-- The swap bits replayed over the gates in order. -/
def applySwapBits {α : Type} (gates : List WaksmanGate) (swapBits : List Bool)
    (items : List α) : List α :=
  gates.foldl (swapGate swapBits) items

section Evaluation

variable {n : Nat} {tfhe : Tfhe n}

/-- One round of the loop of `EvalWaksman`. -/
def evalGate (tgsw : Tgsw tfhe) (swapBits : List tgsw.Ciphertext) (data : List tfhe.Ciphertext)
    (gate : WaksmanGate) :
    List tfhe.Ciphertext :=
  match swapBits[gate.bitIdx]?, data[gate.i]?, data[gate.j]? with
  | some bit, some x, some y =>
    let left := cMux tgsw bit y x
    let right := cMux tgsw bit x y
    (data.set gate.i (tfhe.tLweCopy left)).set gate.j (tfhe.tLweCopy right)
  | _, _, _ => data

/-- A null pointer is `none`. The samples in `data` are distinct objects, as in all callers. -/
def evalWaksman (tgsw : Tgsw tfhe) (data : List tfhe.Ciphertext)
    (swapBits : List (Option tgsw.Ciphertext)) :
    Except Exception (List tfhe.Ciphertext) :=
  if data.length < 2 then .error (.invalidArgument "EvalWaksman requires at least two elements")
  else do
    let bits ← swapBits.mapM fun bit =>
      match bit with
      | some bit => .ok bit
      | none => .error (.invalidArgument "Swap bit ciphertext pointer cannot be null")
    let network ← construct data.length
    if bits.length ≠ network.gates.length then
      .error (.invalidArgument "Swap bit count does not match network gate count")
    else .ok (network.gates.foldl (evalGate tgsw bits) data)

end Evaluation

section Swap

variable {α β : Type} {items : List α} {i j : Nat}

theorem swapAt_map (f : α → β) (items : List α) (i j : Nat) :
    swapAt (items.map f) i j = (swapAt items i j).map f := by
  unfold swapAt
  simp only [List.getElem?_map]
  cases items[i]? with
  | none => rfl
  | some x =>
    cases items[j]? with
    | none => rfl
    | some y => simp [List.map_set]

theorem swapAt_eq (hi : i < items.length) (hj : j < items.length) :
    swapAt items i j = (items.set i items[j]).set j items[i] := by
  unfold swapAt
  rw [List.getElem?_eq_getElem hi, List.getElem?_eq_getElem hj]

@[simp] theorem length_swapAt (items : List α) (i j : Nat) :
    (swapAt items i j).length = items.length := by
  unfold swapAt
  split <;> simp

theorem getD_swapAt (default : α) (hj : i + 1 < items.length) (p : Nat) :
    (swapAt items i (i + 1)).getD p default =
      if p = i then items.getD (i + 1) default else if p = i +
        1 then items.getD i default else items.getD p default := by
  have hi : i < items.length := by omega
  rw [swapAt_eq hi hj]
  simp only [List.getD_eq_getElem?_getD, List.getElem?_set, List.length_set, hi, hj, if_true]
  by_cases hLower : p = i
  · subst hLower
    simp [hj]
  · by_cases hUpper : p = i + 1
    · subst hUpper
      simp [hi]
    · simp [hLower, hUpper, Ne.symm hLower, Ne.symm hUpper]

theorem swapAt_perm (hi : i < items.length) (hj : j < items.length) :
    (swapAt items i j).Perm items := by
  rw [swapAt_eq hi hj]
  exact List.set_set_perm hi hj

end Swap

section Gates

/-- The gates for some exchanges, with bit indices from `start` on. -/
def gatesFrom (start : Nat) (is : List Nat) : List WaksmanGate :=
  (is.zipIdx start).map fun entry => ⟨entry.1, entry.1 + 1, entry.2⟩

@[simp] theorem gatesFrom_cons (start i : Nat) (is : List Nat) :
    gatesFrom start (i :: is) = ⟨i, i + 1, start⟩ :: gatesFrom (start + 1) is := rfl

@[simp] theorem length_gatesFrom (start : Nat) (is : List Nat) :
    (gatesFrom start is).length = is.length := by
  simp [gatesFrom]

theorem pushGate_foldl (is : List Nat) (gates : List WaksmanGate) (bitIdx : Nat) :
    is.foldl pushGate (gates, bitIdx) = (gates ++ gatesFrom bitIdx is, bitIdx + is.length) := by
  induction is generalizing gates bitIdx with
  | nil => simp [gatesFrom]
  | cons i is ih =>
    rw [List.foldl_cons, pushGate, ih, gatesFrom_cons, List.append_assoc, List.length_cons]
    simp [Nat.add_comm, Nat.add_left_comm]

theorem buildNetwork_eq (size : Nat) : buildNetwork size = gatesFrom 0 (exchanges size size) := by
  rw [buildNetwork, ← List.foldl_flatMap, ← exchanges, pushGate_foldl]
  rfl

end Gates

section Replay

variable {α β : Type} {gates : List WaksmanGate} {swapBits : List Bool}

theorem applySwapBits_map (f : α → β) (items : List α) :
    applySwapBits gates swapBits (items.map f) = (applySwapBits gates swapBits items).map f := by
  unfold applySwapBits
  induction gates generalizing items with
  | nil => rfl
  | cons gate gates ih =>
    have hGate : swapGate swapBits (items.map f) gate = (swapGate swapBits items gate).map f := by
      unfold swapGate
      split
      · exact swapAt_map f items gate.i gate.j
      · rfl
    rw [List.foldl_cons, List.foldl_cons, hGate, ih]

@[simp] theorem length_applySwapBits (items : List α) :
    (applySwapBits gates swapBits items).length = items.length := by
  unfold applySwapBits
  induction gates generalizing items with
  | nil => rfl
  | cons gate gates ih =>
    rw [List.foldl_cons, ih, swapGate]
    split
    · exact length_swapAt items gate.i gate.j
    · rfl

end Replay

section Synthesis

variable {rank current routed : List Nat} {is : List Nat} {i : Nat}

/-- The destinations of the indices on the wires. -/
def destinations (rank current : List Nat) (p : Nat) : Nat := rank.getD (current.getD p 0) 0

/-- A routed gate exchanges two destinations that are out of order. -/
theorem destinations_route (hi : i + 1 < current.length) (swapBits : List Bool) (bitIdx : Nat) :
    destinations rank (route rank (current, swapBits) ⟨i, i + 1, bitIdx⟩).1 =
      exchange (destinations rank current) i := by
  funext p
  by_cases hSwap : destinations rank current (i + 1) < destinations rank current i
  · have hRoute : (route rank (current, swapBits) ⟨i, i + 1, bitIdx⟩).1 =
        swapAt current i (i + 1) :=
      if_pos (decide_eq_true hSwap)
    rw [hRoute, destinations, getD_swapAt 0 hi, exchange, min_eq_right hSwap.le,
      max_eq_left hSwap.le]
    split
    · rfl
    · split
      · rfl
      · rfl
  · have hRoute : (route rank (current, swapBits) ⟨i, i + 1, bitIdx⟩).1 = current :=
      if_neg fun h => hSwap (of_decide_eq_true h)
    rw [hRoute, exchange, min_eq_left (Nat.not_lt.mp hSwap), max_eq_right (Nat.not_lt.mp hSwap)]
    split
    case isTrue hLower => rw [hLower]
    case isFalse =>
      split
      case isTrue hUpper => rw [hUpper]
      case isFalse => rfl

/-- The loop over the gates sorts the destinations, and its bits replay what it has done. -/
theorem route_foldl (hIs : ∀ i ∈ is, i + 1 < current.length) (before : List Bool) :
    ∃ routed decided,
    (gatesFrom before.length is).foldl (route rank) (current,
      before ++ List.replicate is.length false) =
        (routed, before ++ decided) ∧
      decided.length = is.length ∧ routed.Perm current ∧
      destinations rank routed = is.foldl exchange (destinations rank current) ∧
      applySwapBits (gatesFrom before.length is) (before ++ decided) current = routed := by
  induction is generalizing current before with
  | nil => exact ⟨current, [], rfl, rfl, List.Perm.refl _, rfl, rfl⟩
  | cons i is ih =>
    have hi := hIs i List.mem_cons_self
    let bit : Bool := destinations rank current (i + 1) < destinations rank current i
    let next := if bit then swapAt current i (i + 1) else current
    have hPerm : next.Perm current := by
      unfold next
      split
      · exact swapAt_perm (by omega) hi
      · exact List.Perm.refl _
    have hRoute : route rank (current, before ++ List.replicate (is.length + 1) false)
        ⟨i, i + 1, before.length⟩ =
        (next, (before ++ [bit]) ++ List.replicate is.length false) := by
      have hSet : (before ++ List.replicate (is.length + 1) false).set before.length bit =
          (before ++ [bit]) ++ List.replicate is.length false := by
        rw [List.set_append_right _ _ le_rfl, Nat.sub_self, List.replicate_succ,
          List.set_cons_zero, List.append_assoc]
        rfl
      exact Prod.ext rfl hSet
    obtain ⟨routed, decided, hFold, hLength, hRouted, hSorted, hReplay⟩ := @ih next
      (fun other hOther => hPerm.length_eq ▸ hIs other (List.mem_cons_of_mem _ hOther))
        (before ++ [bit])
    rw [List.length_append, List.length_singleton] at hFold hReplay
    refine ⟨routed, bit :: decided, ?_, by simp [hLength], hRouted.trans hPerm, ?_, ?_⟩
    · rw [gatesFrom_cons, List.foldl_cons, List.length_cons, hRoute, hFold, List.append_assoc]
      rfl
    · have hStep := @destinations_route rank current i hi
        (before ++ List.replicate (is.length + 1) false) before.length
      rw [hRoute] at hStep
      rw [hSorted, List.foldl_cons, ← hStep]
    · have hBit : (before ++ bit :: decided).getD before.length false = bit := by simp
      rw [List.append_assoc] at hReplay
      rw [gatesFrom_cons, applySwapBits, List.foldl_cons, swapGate, hBit]
      exact hReplay

end Synthesis

section Ranks

variable {size dest : Nat} {permutation rank : List Nat} {seen : List Bool}

/-- The first loop inverts what has each index at most once. -/
theorem recordRank_foldlM (hNodup : permutation.Nodup)
    (hFresh : ∀ index ∈ permutation, index < size ∧ seen.getD index false = false)
    (hRank : rank.length = size) :
    ∃ seen' rank', (permutation.zipIdx dest).foldlM (recordRank size) (seen, rank) =
      .ok (seen', rank') ∧
      (∀ i index, permutation[i]? = some index → rank'.getD index 0 = dest + i) ∧
      ∀ index, index ∉ permutation → rank'.getD index 0 = rank.getD index 0 := by
  induction permutation generalizing dest seen rank with
  | nil => exact ⟨seen, rank, rfl, by simp, fun _ _ => rfl⟩
  | cons index permutation ih =>
    obtain ⟨hNot, hTail⟩ := List.nodup_cons.mp hNodup
    obtain ⟨hLt, hSeen⟩ := hFresh index List.mem_cons_self
    have hStep : recordRank size (seen, rank) (index, dest) =
        .ok (seen.set index true, rank.set index dest) :=
      if_neg (not_or.mpr ⟨Nat.not_le.mpr hLt, Bool.not_eq_true _ ▸ hSeen⟩)
    have hLater : ∀ other ∈ permutation, other < size ∧
        (seen.set index true).getD other false = false := by
      intro other hOther
      obtain ⟨hOtherLt, hOtherSeen⟩ := hFresh other (List.mem_cons_of_mem _ hOther)
      refine ⟨hOtherLt, ?_⟩
      have hNe : index ≠ other := fun h => hNot (h ▸ hOther)
      rwa [List.getD_eq_getElem?_getD, List.getElem?_set_ne hNe, ← List.getD_eq_getElem?_getD]
    obtain ⟨seen', rank', hFold, hFound, hOthers⟩ :=
      @ih (dest + 1) (rank.set index dest) (seen.set index true) hTail hLater
      (List.length_set.trans hRank)
    refine ⟨seen', rank', ?_, ?_, ?_⟩
    · rw [List.zipIdx_cons, List.foldlM_cons, hStep]
      exact hFold
    · intro i other hOther
      cases i with
      | zero =>
        obtain rfl : index = other := by simpa using hOther
        rw [hOthers index hNot, List.getD_eq_getElem?_getD, List.getElem?_set_self (hRank ▸ hLt)]
        rfl
      | succ i =>
        rw [hFound i other (by simpa using hOther), Nat.add_assoc, Nat.add_comm 1 i]
    · intro other hOther
      have hNe : index ≠ other := fun h => hOther (h ▸ List.mem_cons_self)
      rw [hOthers other fun h => hOther (List.mem_cons_of_mem _ h), List.getD_eq_getElem?_getD,
        List.getElem?_set_ne hNe, ← List.getD_eq_getElem?_getD]

/-- The first loop throws on everything else. -/
theorem recordRank_foldlM_error (hSeen : seen.length = size)
    (h : ¬ (permutation.Nodup ∧ ∀ index ∈ permutation, index < size ∧
      seen.getD index false = false)) :
    (permutation.zipIdx dest).foldlM (recordRank size) (seen, rank) = .error notEachOnce := by
  induction permutation generalizing dest seen rank with
  | nil => exact absurd ⟨List.nodup_nil, by simp⟩ h
  | cons index permutation ih =>
    rw [List.zipIdx_cons, List.foldlM_cons]
    by_cases hStop : size ≤ index ∨ seen.getD index false = true
    · rw [recordRank, if_pos hStop]
      rfl
    · rw [recordRank, if_neg hStop]
      rw [not_or, Nat.not_le, Bool.not_eq_true] at hStop
      apply @ih (dest + 1) (rank.set index dest) (seen.set index true) (List.length_set.trans hSeen)
      rintro ⟨hTail, hLater⟩
      have hNot : index ∉ permutation := by
        intro hMem
        have hFalse := (hLater index hMem).2
        rw [List.getD_eq_getElem?_getD, List.getElem?_set_self (hSeen ▸ hStop.1)] at hFalse
        cases hFalse
      refine h ⟨List.nodup_cons.mpr ⟨hNot, hTail⟩,
        List.forall_mem_cons.mpr ⟨hStop, fun other hOther => ?_⟩⟩
      obtain ⟨hLt, hOtherSeen⟩ := hLater other hOther
      have hNe : index ≠ other := fun h => hNot (h ▸ hOther)
      rw [List.getD_eq_getElem?_getD, List.getElem?_set_ne hNe,
        ← List.getD_eq_getElem?_getD] at hOtherSeen
      exact ⟨hLt, hOtherSeen⟩

theorem perm_range_iff (hLength : permutation.length = size) :
    permutation.Perm (List.range size) ↔ permutation.Nodup ∧
    ∀ index ∈ permutation, index < size := by
  constructor
  · intro hPerm
    exact ⟨hPerm.nodup_iff.mpr List.nodup_range, fun index hIndex =>
      List.mem_range.mp (hPerm.mem_iff.mp hIndex)⟩
  · rintro ⟨hNodup, hLt⟩
    apply (List.subperm_of_subset hNodup fun index hIndex =>
      List.mem_range.mpr (hLt index hIndex)).perm_of_length_le
    rw [List.length_range, hLength]

end Ranks

section Permutations

variable {size : Nat} {permutation rank routed : List Nat}

/-- Indices sorted by destination are the permutation. -/
theorem eq_permutation_of_sorted (hPermutation : permutation.Perm (List.range size))
    (hRank : ∀ i index, permutation[i]? = some index → rank.getD index 0 = i)
    (hRouted : routed.Perm (List.range size))
    (hSorted : ∀ p q, p < q → q < size → destinations rank routed p ≤ destinations rank routed q) :
    routed = permutation := by
  have hLength : permutation.length = size := hPermutation.length_eq.trans List.length_range
  have hRoutedLength : routed.length = size := hRouted.length_eq.trans List.length_range
  have hDestinations : permutation.map (rank.getD · 0) = List.range size := by
    apply List.ext_getElem (by simp [hLength])
    intro i hi _
    rw [List.getElem_map, List.getElem_range]
    exact hRank i _ (List.getElem?_eq_getElem (by simpa using hi))
  have hInOrder : routed.map (rank.getD · 0) = List.range size := by
    have hPerm := (hRouted.trans hPermutation.symm).map (rank.getD · 0)
    rw [hDestinations] at hPerm
    apply List.Perm.eq_of_pairwise' ?_ List.pairwise_le_range hPerm
    rw [List.pairwise_iff_getElem]
    intro p q hp hq hpq
    rw [List.length_map] at hp hq
    have h := hSorted p q hpq (hRoutedLength ▸ hq)
    rw [destinations, destinations, List.getD_eq_getElem routed _ hp,
      List.getD_eq_getElem routed _ hq] at h
    rw [List.getElem_map, List.getElem_map]
    exact h
  have hInverse : ∀ index ∈ routed, permutation.getD (rank.getD index 0) 0 = index := by
    intro index hIndex
    obtain ⟨i, hi⟩ :=
      List.mem_iff_getElem?.mp (hPermutation.mem_iff.mpr (hRouted.mem_iff.mp hIndex))
    rw [hRank i index hi, List.getD_eq_getElem?_getD, hi]
    rfl
  calc routed = (routed.map (rank.getD · 0)).map (permutation.getD · 0) := by
        rw [List.map_map]
        exact (List.map_id routed).symm.trans
          (List.map_congr_left fun index hIndex => (hInverse index hIndex).symm)
    _ = permutation := by
        rw [hInOrder]
        apply List.ext_getElem (by simp [hLength])
        intro i hi hi'
        rw [List.getElem_map, List.getElem_range, List.getD_eq_getElem _ _ hi']

theorem generateSwapBits_eq_ok (hPermutation : permutation.Perm (List.range size)) :
    ∃ swapBits, generateSwapBits ⟨size, buildNetwork size⟩ permutation = .ok swapBits ∧
      swapBits.length = (buildNetwork size).length ∧
      applySwapBits (buildNetwork size) swapBits (List.range size) = permutation := by
  have hLength : permutation.length = size := hPermutation.length_eq.trans List.length_range
  obtain ⟨hNodup, hLt⟩ := (perm_range_iff hLength).mp hPermutation
  have hFresh : ∀ index ∈ permutation, index < size ∧
      (List.replicate size false).getD index false = false := by
    intro index hIndex
    simp [hLt index hIndex, List.getD_eq_getElem?_getD]
  obtain ⟨seen, rank, hRecord, hRank, _⟩ :=
    @recordRank_foldlM size 0 permutation (List.replicate size 0) _ hNodup hFresh
    List.length_replicate
  have hIs : ∀ i ∈ exchanges size size, i + 1 < (List.range size).length := by
    intro i hi
    obtain ⟨t, _, hPhase⟩ := List.mem_flatMap.mp hi
    rw [List.length_range]
    exact (mem_phase.mp hPhase).2
  obtain ⟨routed, swapBits, hFold, hBits, hRouted, hSorted, hReplay⟩ := @route_foldl rank _ _ hIs []
  rw [List.length_nil, ← buildNetwork_eq, List.nil_append, List.nil_append] at hFold
  rw [List.length_nil, ← buildNetwork_eq, List.nil_append] at hReplay
  have hEq : routed = permutation := by
    apply eq_permutation_of_sorted hPermutation _ hRouted
    · intro p q hpq hq
      rw [hSorted]
      exact sorted_exchanges hpq hq
    · intro i index hIndex
      rw [hRank i index hIndex, Nat.zero_add]
  have hGates : (buildNetwork size).length = (exchanges size size).length := by
    rw [buildNetwork_eq, length_gatesFrom]
  refine ⟨swapBits, ?_, hBits.trans hGates.symm, hReplay.trans hEq⟩
  rw [generateSwapBits, if_neg (not_not.mpr hLength), hRecord]
  dsimp only
  rw [ok_bind, hGates, hFold, if_neg (not_not.mpr hEq)]

theorem generateSwapBits_error (hLength : permutation.length = size)
    (h : ¬ permutation.Perm (List.range size)) :
    generateSwapBits ⟨size, buildNetwork size⟩ permutation = .error notEachOnce := by
  rw [generateSwapBits, if_neg (not_not.mpr hLength), recordRank_foldlM_error List.length_replicate]
  · rfl
  · rintro ⟨hNodup, hFresh⟩
    exact h ((perm_range_iff hLength).mpr ⟨hNodup, fun index hIndex => (hFresh index hIndex).1⟩)

/-- What the bits of a permutation do to any items. -/
theorem getElem?_applySwapBits {α : Type} {gates : List WaksmanGate}
    {swapBits : List Bool} {items : List α}
    (h : applySwapBits gates swapBits (List.range items.length) = permutation) (dest : Nat) :
    (applySwapBits gates swapBits items)[dest]? = permutation[dest]?.bind fun source =>
      items[source]? := by
  have hItems : items.map some = (List.range items.length).map fun source => items[source]? := by
    apply List.ext_getElem (by simp)
    intro i hi _
    simp
  have hMap := @applySwapBits_map _ _ gates swapBits some items
  rw [hItems, applySwapBits_map, h] at hMap
  have hGet := congrArg (fun found => found[dest]?) hMap
  simp only [List.getElem?_map] at hGet
  cases hSource : permutation[dest]? with
  | none =>
    rw [hSource] at hGet
    simpa using hGet.symm
  | some source =>
    rw [hSource, Option.map_some] at hGet
    cases hItem : (applySwapBits gates swapBits items)[dest]? with
    | none =>
      rw [hItem] at hGet
      cases hGet
    | some item =>
      rw [hItem, Option.map_some, Option.some.injEq] at hGet
      exact hGet.symm

end Permutations

section Homomorphic

variable {n : Nat} {tfhe : Tfhe n} {tgsw : Tgsw tfhe} {bits : List tgsw.Ciphertext}
  {swapBits : List Bool}

/-- Encryptions of some bits. -/
def EncryptsBits (tgsw : Tgsw tfhe) (bits : List tgsw.Ciphertext) (swapBits : List Bool) : Prop :=
  List.Forall₂ (fun ciphertext bit => ∃ noise, ciphertext = encryptBit tgsw noise bit) bits swapBits

theorem EncryptsBits.getElem? (h : EncryptsBits tgsw bits swapBits) (i : Nat) :
    (bits[i]? = none ∧ swapBits[i]? = none) ∨
      ∃ noise bit, bits[i]? = some (encryptBit tgsw noise bit) ∧ swapBits[i]? = some bit := by
  have hLength := List.Forall₂.length_eq h
  by_cases hi : i < bits.length
  · obtain ⟨noise, hNoise⟩ := List.Forall₂.get h hi (hLength ▸ hi)
    refine Or.inr ⟨noise, swapBits.get ⟨i, hLength ▸ hi⟩, ?_, List.getElem?_eq_getElem _⟩
    rw [← hNoise]
    exact List.getElem?_eq_getElem hi
  · exact Or.inl ⟨List.getElem?_eq_none (Nat.not_lt.mp hi),
      List.getElem?_eq_none (hLength ▸ Nat.not_lt.mp hi)⟩

theorem decrypt_evalGate (hExact : tfhe.Exact) (hTgsw : tgsw.Exact)
    (hBits : EncryptsBits tgsw bits swapBits) (data : List tfhe.Ciphertext) (gate : WaksmanGate) :
    (evalGate tgsw bits data gate).map tfhe.tLweSymDecrypt =
      swapGate swapBits (data.map tfhe.tLweSymDecrypt) gate := by
  unfold evalGate swapGate swapAt
  simp only [List.getD_eq_getElem?_getD, List.getElem?_map]
  obtain ⟨hNone, hNone'⟩ | ⟨noise, bit, hSome, hSome'⟩ := hBits.getElem? gate.bitIdx
  · rw [hNone, hNone']
    rfl
  · rw [hSome, hSome']
    cases hFirst : data[gate.i]? with
    | none => simp
    | some x =>
      cases hSecond : data[gate.j]? with
      | none => simp
      | some y =>
        have hLeft := decrypt_cMux hExact hTgsw noise bit y x
        have hRight := decrypt_cMux hExact hTgsw noise bit x y
        simp only [List.map_set, hExact.decrypt_copy, hLeft, hRight]
        cases bit with
        | true => simp
        | false =>
          -- Without a swap, both samples keep their message.
          obtain ⟨hi, rfl⟩ := List.getElem?_eq_some_iff.mp hFirst
          obtain ⟨hj, rfl⟩ := List.getElem?_eq_some_iff.mp hSecond
          have hKeep : ∀ k (hk : k < data.length),
              (data.map tfhe.tLweSymDecrypt).set k (tfhe.tLweSymDecrypt data[k]) =
                data.map tfhe.tLweSymDecrypt := by
            intro k hk
            rw [← List.map_set, List.set_getElem_self]
          simp [hKeep]

theorem evalWaksman_eq (bits : List tgsw.Ciphertext) (data : List tfhe.Ciphertext) :
    evalWaksman tgsw data (bits.map some) =
      if data.length < 2 then .error (.invalidArgument "EvalWaksman requires at least two elements")
      else if bits.length ≠ (buildNetwork data.length).length then
        .error (.invalidArgument "Swap bit count does not match network gate count")
      else .ok ((buildNetwork data.length).foldl (evalGate tgsw bits) data) := by
  have hGet : (bits.map some).mapM (fun bit => match bit with
      | some bit => Except.ok bit
      | none =>
        .error (Exception.invalidArgument "Swap bit ciphertext pointer cannot be null")) =
            .ok bits := by
    apply mapM_eq_ok
    rw [List.forall₂_map_left_iff, List.forall₂_same]
    exact fun _ _ => rfl
  unfold evalWaksman
  split
  case isTrue => rfl
  case isFalse hTwo => rw [hGet, ok_bind, construct, if_neg hTwo, ok_bind]

/-- `EvalWaksman` applies the encrypted swap bits to the encrypted blocks. -/
theorem evalWaksman_eq_ok (hExact : tfhe.Exact) (hTgsw : tgsw.Exact)
    (hBits : EncryptsBits tgsw bits swapBits) {data : List tfhe.Ciphertext} (hTwo : 2 ≤ data.length)
    (hCount : swapBits.length = (buildNetwork data.length).length) :
    ∃ output, evalWaksman tgsw data (bits.map some) = .ok output ∧
      output.map tfhe.tLweSymDecrypt = applySwapBits (buildNetwork data.length) swapBits
        (data.map tfhe.tLweSymDecrypt) := by
  refine ⟨(buildNetwork data.length).foldl (evalGate tgsw bits) data, ?_, ?_⟩
  · rw [evalWaksman_eq, if_neg (Nat.not_lt.mpr hTwo),
      if_neg (not_not.mpr ((List.Forall₂.length_eq hBits).trans hCount))]
  · generalize buildNetwork data.length = gates
    clear hCount hTwo
    unfold applySwapBits
    induction gates generalizing data with
    | nil => rfl
    | cons gate gates ih =>
      rw [List.foldl_cons, List.foldl_cons, ih, decrypt_evalGate hExact hTgsw hBits]

end Homomorphic

section Results

/-- The network realises every permutation, in the clear and under encryption. -/
theorem generateSwapBits_realises {size : Nat} (hSize : 2 ≤ size) :
    ∃ network, construct size = .ok network ∧ ∀ permutation : List Nat, permutation.length = size →
      ((∃ what, network.generateSwapBits permutation = .error (.invalidArgument what)) ↔
        ¬ permutation.Perm (List.range size)) ∧
      (permutation.Perm (List.range size) →
        ∃ swapBits, network.generateSwapBits permutation = .ok swapBits ∧
        (∀ (α : Type) (items : List α), items.length = size → ∀ dest : Nat,
          (applySwapBits network.gates swapBits items)[dest]? = permutation[dest]?.bind
            fun source => items[source]?) ∧
        ∀ (n : Nat) (tfhe : Tfhe n) (tgsw : Tgsw tfhe), tfhe.Exact → tgsw.Exact →
          ∀ data bits, data.length = size → EncryptsBits tgsw bits swapBits →
            ∃ output, evalWaksman tgsw data (bits.map some) = .ok output ∧ ∀ dest : Nat,
              (output.map tfhe.tLweSymDecrypt)[dest]? =
                permutation[dest]?.bind fun source => (data.map tfhe.tLweSymDecrypt)[source]?) := by
  refine ⟨⟨size, buildNetwork size⟩, if_neg (Nat.not_lt.mpr hSize),
    fun permutation hLength => ⟨?_, ?_⟩⟩
  · constructor
    · rintro ⟨what, hThrows⟩ hPermutation
      obtain ⟨swapBits, hBits, _⟩ := generateSwapBits_eq_ok hPermutation
      rw [hBits] at hThrows
      cases hThrows
    · intro hNot
      exact ⟨_, generateSwapBits_error hLength hNot⟩
  · intro hPermutation
    obtain ⟨swapBits, hBits, hCount, hReplay⟩ := generateSwapBits_eq_ok hPermutation
    refine ⟨swapBits, hBits, ?_, ?_⟩
    · rintro α items rfl dest
      exact getElem?_applySwapBits hReplay dest
    · rintro n tfhe tgsw hExact hTgsw data bits rfl hEncrypted
      obtain ⟨output, hEval, hOutput⟩ := evalWaksman_eq_ok hExact hTgsw hEncrypted hSize hCount
      refine ⟨output, hEval, fun dest => ?_⟩
      rw [hOutput]
      exact getElem?_applySwapBits (by rwa [List.length_map]) dest

/-- Four one-byte blocks. -/
def fourBlocks : List (Message 1) := [[1], [2], [3], [4]].map (message 1)

theorem generateSwapBits_realises_four : ∃ network swapBits output, construct 4 = .ok network ∧
    network.generateSwapBits [2, 0, 3, 1] = .ok swapBits ∧
    evalWaksman (Tgsw.plain 1) fourBlocks ((swapBits.map (encryptBit (Tgsw.plain 1) 0)).map some) =
      .ok output ∧
    ∀ dest : Nat, (output.map (Tfhe.plain 1).tLweSymDecrypt)[dest]? =
      [2, 0, 3, 1][dest]?.bind fun source =>
        (fourBlocks.map (Tfhe.plain 1).tLweSymDecrypt)[source]? := by
  obtain ⟨network, hConstruct, hNetwork⟩ := @generateSwapBits_realises 4 (by decide)
  obtain ⟨swapBits, hBits, _, hEval⟩ := (hNetwork [2, 0, 3, 1] rfl).2 (by decide)
  have hEncrypted :
      EncryptsBits (Tgsw.plain 1) (swapBits.map (encryptBit (Tgsw.plain 1) 0)) swapBits := by
    rw [EncryptsBits, List.forall₂_map_left_iff, List.forall₂_same]
    exact fun _ _ => ⟨0, rfl⟩
  obtain ⟨output, hOutput, hBlocks⟩ :=
    hEval 1 (Tfhe.plain 1) (Tgsw.plain 1) (Tfhe.plain_exact 1) (Tgsw.plain_exact 1)
      fourBlocks _ rfl hEncrypted
  exact ⟨network, swapBits, output, hConstruct, hBits, hOutput, hBlocks⟩

end Results
end WaksmanNetwork
end OramHub.OnionRing
