import Mathlib.Data.List.GetD
import OramHub.PathOram.Storage

/-! # Eviction

`EvictBlocksToPath` moves every block of the stash to a bucket on its own path or back to the
stash. No block is lost and no bucket overflows.
-/
namespace OramHub.PathOram
open OramHub.Core OramHub.Program
set_option autoImplicit false

/-- Buckets on the path of `leaf`, leaf first, and a stash that together hold the blocks of `stash`.
A block is kept only if every bucket that may take it is full. -/
structure Evicted (positionMap : List UInt64) (leaf : UInt64) (levels : Nat) (stash : List Block)
    (contents : List (List Block)) (kept : List Block) : Prop where
  length : contents.length = levels
  perm : (contents.flatten ++ kept).Perm stash
  room : ∀ blocks ∈ contents, blocks.length ≤ kBucketSize
  placed : ∀ i, ∀ block ∈ contents.getD i [], ∃ blockLeaf,
    positionMap[block.id.toNat]? = some blockLeaf ∧
    canPlaceInBucket blockLeaf leaf i = true
  greedy : ∀ block ∈ kept, ∃ blockLeaf, positionMap[block.id.toNat]? = some blockLeaf ∧
    ∀ i < levels, canPlaceInBucket blockLeaf leaf i = true →
    kBucketSize ≤ (contents.getD i []).length

/-- What one round does: the block goes to the first bucket with room that may take it, or back to
the stash. -/
inductive Places (positionMap : List UInt64) (leaf : UInt64) (block : Block)
    (contents : List (List Block))
    (kept : List Block) : List (List Block) → List Block → Prop
  | bucket {i : Nat} {blockLeaf : UInt64} :
    positionMap[block.id.toNat]? = some blockLeaf → i < contents.length →
      (contents.getD i []).length < kBucketSize → canPlaceInBucket blockLeaf leaf i = true →
      (∀ j < i, canPlaceInBucket blockLeaf leaf j = true →
        kBucketSize ≤ (contents.getD j []).length) →
      Places positionMap leaf block contents kept (contents.modify i (· ++ [block])) kept
  | stash {blockLeaf : UInt64} : positionMap[block.id.toNat]? = some blockLeaf →
      (∀ i < contents.length, canPlaceInBucket blockLeaf leaf i = true →
        kBucketSize ≤ (contents.getD i []).length) →
      Places positionMap leaf block contents kept contents (kept ++ [block])

section Contents

variable {contents : List (List Block)} {i : Nat} {block : Block}

theorem getD_modify_append (contents : List (List Block)) (hi : i < contents.length)
    (block : Block) (j : Nat) :
    (contents.modify i (· ++ [block])).getD j [] =
      if i = j then contents.getD j [] ++ [block] else contents.getD j [] := by
  rw [List.getD_eq_getElem?_getD, List.getElem?_modify, List.getD_eq_getElem?_getD]
  by_cases hEq : i = j
  · subst hEq
    simp [List.getElem?_eq_getElem hi]
  · simp [hEq]

theorem flatten_modify_append (hi : i < contents.length) (block : Block) :
    (contents.modify i (· ++ [block])).flatten.Perm (contents.flatten ++ [block]) := by
  induction contents generalizing i with
  | nil => cases hi
  | cons blocks rest ih =>
    cases i with
    | zero =>
      change ((blocks ++ [block]) ++ rest.flatten).Perm ((blocks ++ rest.flatten) ++ [block])
      rw [List.append_assoc, List.append_assoc]
      exact List.perm_append_comm.append_left blocks
    | succ i =>
      change (blocks ++ (rest.modify i (· ++ [block])).flatten).Perm
        ((blocks ++ rest.flatten) ++ [block])
      rw [List.append_assoc]
      exact (ih (Nat.lt_of_succ_lt_succ hi)).append_left blocks

theorem addBlock_toBucket {blocks : List Block} (h : blocks.length < kBucketSize) (block : Block) :
    (toBucket blocks).addBlock block = toBucket (blocks ++ [block]) := if_neg (Nat.not_le.mpr h)

theorem modify_map_toBucket (hi : i < contents.length)
    (hRoom : (contents.getD i []).length < kBucketSize)
    (block : Block) :
    (contents.map toBucket).modify i (fun bucket => bucket.addBlock block) =
      (contents.modify i (· ++ [block])).map toBucket := by
  apply List.ext_getElem?
  intro j
  rw [List.getElem?_modify, List.getElem?_map, List.getElem?_map, List.getElem?_modify]
  by_cases hEq : i = j
  · subst hEq
    rw [List.getD_eq_getElem _ _ hi] at hRoom
    simp [List.getElem?_eq_getElem hi, addBlock_toBucket hRoom]
  · simp [hEq]

theorem findBucket_eq_some {blockLeaf leaf : UInt64}
    (h : findBucket (contents.map toBucket) blockLeaf leaf = some i) :
    i < contents.length ∧ (contents.getD i []).length < kBucketSize ∧
    canPlaceInBucket blockLeaf leaf i = true := by
  have hProp := List.find?_some h
  have hLt := List.mem_range.mp (List.mem_of_find?_eq_some h)
  rw [List.length_map] at hLt
  rw [Bool.and_eq_true, decide_eq_true_eq, List.getD_eq_getElem _ _ (by rwa [List.length_map]),
    List.getElem_map] at hProp
  rw [List.getD_eq_getElem _ _ hLt]
  exact ⟨hLt, hProp⟩

theorem findBucket_first {blockLeaf leaf : UInt64}
    (h : findBucket (contents.map toBucket) blockLeaf leaf = some i) {j : Nat}
    (hj : j < i) (hPlace : canPlaceInBucket blockLeaf leaf j = true) :
    kBucketSize ≤ (contents.getD j []).length := by
  obtain ⟨hLt, _⟩ := findBucket_eq_some h
  have hProp := (List.find?_range_eq_some.mp h).2.2 j hj
  rw [hPlace, Bool.and_true, Bool.not_eq_true', decide_eq_false_iff_not,
    List.getD_eq_getElem _ _ (by rw [List.length_map]; omega), List.getElem_map] at hProp
  rw [List.getD_eq_getElem _ _ (by omega)]
  exact Nat.not_lt.mp hProp

theorem findBucket_eq_none {blockLeaf leaf : UInt64}
    (h : findBucket (contents.map toBucket) blockLeaf leaf = none)
    (hi : i < contents.length) (hPlace : canPlaceInBucket blockLeaf leaf i = true) :
    kBucketSize ≤ (contents.getD i []).length := by
  have hProp := List.find?_eq_none.mp h i (List.mem_range.mpr (by rwa [List.length_map]))
  rw [hPlace, Bool.and_true, decide_eq_true_eq, List.getD_eq_getElem _ _ (by rwa [List.length_map]),
    List.getElem_map] at hProp
  rw [List.getD_eq_getElem _ _ hi]
  exact Nat.not_lt.mp hProp

theorem length_getD_modify_append (hi : i < contents.length) (block : Block) (j : Nat) :
    (contents.getD j []).length ≤ ((contents.modify i (· ++ [block])).getD j []).length := by
  rw [getD_modify_append contents hi block]
  split
  · rw [List.length_append]
    exact Nat.le_add_right _ _
  · exact le_rfl

end Contents

section Loop

variable {positionMap : List UInt64} {leaf : UInt64} {levels : Nat} {visited kept : List Block}
  {contents : List (List Block)} {block : Block}

theorem evictBlock_places (hMapped : block.id.toNat < positionMap.length) :
    ∃ contents' kept', evictBlock positionMap leaf (contents.map toBucket, kept) block =
      .ok (contents'.map toBucket, kept') ∧
      Places positionMap leaf block contents kept contents' kept' := by
  have hPosition : positionMap[block.id.toNat]? = some positionMap[block.id.toNat] :=
    List.getElem?_eq_getElem hMapped
  have hRead : readPosition positionMap block.id = .ok positionMap[block.id.toNat] := by
    rw [readPosition, hPosition]
  rw [evictBlock, hRead, ok_bind]
  cases hFind : findBucket (contents.map toBucket) positionMap[block.id.toNat] leaf with
  | none =>
    exact ⟨contents, kept ++ [block], rfl, .stash hPosition fun i hi => findBucket_eq_none hFind hi⟩
  | some i =>
    obtain ⟨hi, hRoom, hPlace⟩ := findBucket_eq_some hFind
    refine ⟨contents.modify i (· ++ [block]), kept, ?_, .bucket hPosition hi hRoom hPlace fun j =>
      findBucket_first hFind⟩
    exact congrArg (fun buckets => Except.ok (buckets, kept)) (modify_map_toBucket hi hRoom block)

/-- An invariant of the rounds holds after all of them. -/
theorem evictBlocks_run (inv : List Block → List (List Block) → List Block → Prop)
    (hStep : ∀ {visited contents kept block contents' kept'}, inv visited contents kept →
      Places positionMap leaf block contents kept contents' kept' →
      inv (visited ++ [block]) contents' kept')
    {rest : List Block} (hMapped : ∀ block ∈ rest, block.id.toNat < positionMap.length)
    (h : inv visited contents kept) :
    ∃ contents' kept', rest.foldlM (evictBlock positionMap leaf) (contents.map toBucket, kept) =
      .ok (contents'.map toBucket, kept') ∧ inv (visited ++ rest) contents' kept' := by
  induction rest generalizing visited contents kept with
  | nil =>
    rw [List.append_nil]
    exact ⟨contents, kept, rfl, h⟩
  | cons block rest ih =>
    obtain ⟨contents', kept', hRound, hPlaces⟩ :=
      @evictBlock_places _ leaf kept contents _ (hMapped block List.mem_cons_self)
    obtain ⟨final, kept'', hFold, hFinal⟩ :=
      ih (fun other hOther => hMapped other (List.mem_cons_of_mem _ hOther)) (hStep h hPlaces)
    rw [List.append_assoc, List.singleton_append] at hFinal
    rw [List.foldlM_cons, hRound, ok_bind]
    exact ⟨final, kept'', hFold, hFinal⟩

theorem Evicted.step (h : Evicted positionMap leaf levels visited contents kept)
    {contents' : List (List Block)}
    {kept' : List Block} (hPlaces : Places positionMap leaf block contents kept contents' kept') :
    Evicted positionMap leaf levels (visited ++ [block]) contents' kept' := by
  cases hPlaces with
  | @stash blockLeaf hPosition hFull =>
    refine ⟨h.length, ?_, h.room, h.placed, fun other hOther => ?_⟩
    · rw [← List.append_assoc]
      exact h.perm.append_right [block]
    · obtain hOld | hNew := List.mem_append.mp hOther
      · exact h.greedy other hOld
      · rw [List.mem_singleton.mp hNew]
        exact ⟨blockLeaf, hPosition, fun i hi => hFull i (h.length ▸ hi)⟩
  | @bucket i blockLeaf hPosition hi hRoom hPlace =>
    refine ⟨(List.length_modify ..).trans h.length, ?_, ?_, ?_, ?_⟩
    · refine ((flatten_modify_append hi block).append_right kept).trans ?_
      rw [List.append_assoc]
      refine (List.perm_append_comm.append_left contents.flatten).trans ?_
      rw [← List.append_assoc]
      exact h.perm.append_right [block]
    · intro blocks hBlocks
      obtain ⟨j, hj, rfl⟩ := List.getElem_of_mem hBlocks
      rw [← List.getD_eq_getElem _ [] hj, getD_modify_append _ hi]
      rw [List.length_modify] at hj
      split
      · rename_i hEq
        subst hEq
        rw [List.length_append, List.length_singleton]
        exact hRoom
      · rw [List.getD_eq_getElem _ _ hj]
        exact h.room _ (List.getElem_mem hj)
    · intro j other hOther
      rw [getD_modify_append _ hi] at hOther
      split at hOther
      · rename_i hEq
        subst hEq
        obtain hOld | hNew := List.mem_append.mp hOther
        · exact h.placed i other hOld
        · rw [List.mem_singleton.mp hNew]
          exact ⟨_, hPosition, hPlace⟩
      · exact h.placed j other hOther
    · intro other hOther
      obtain ⟨blockLeaf, hOtherLeaf, hFull⟩ := h.greedy other hOther
      exact ⟨blockLeaf, hOtherLeaf, fun j hj hOtherPlace =>
        (hFull j hj hOtherPlace).trans (length_getD_modify_append hi block j)⟩

theorem evicted_empty (positionMap : List UInt64) (leaf : UInt64) (levels : Nat) :
    Evicted positionMap leaf levels [] (List.replicate levels []) [] := by
  refine ⟨List.length_replicate, ?_, ?_, ?_, fun block hBlock => absurd hBlock List.not_mem_nil⟩
  · rw [List.append_nil, List.flatten_replicate_nil]
  · intro blocks hBlocks
    rw [(List.mem_replicate.mp hBlocks).2]
    exact Nat.zero_le _
  · intro i block hBlock
    rw [List.getD_eq_getElem?_getD, List.getElem?_replicate] at hBlock
    split at hBlock <;> cases hBlock

theorem evictBlocksToPath_spec {w : World} (levels : Nat)
    (hMapped : ∀ block ∈ w.stash, block.id.toNat < w.positionMap.length) :
    Returns (evictBlocksToPath leaf (List.replicate levels { capacity := kBucketSize })) w
      fun filled w' =>
      ∃ contents kept, filled = contents.map toBucket ∧ w' = { w with stash := kept } ∧
        Evicted w.positionMap leaf levels w.stash contents kept := by
  obtain ⟨contents, kept, hFold, hEvicted⟩ :=
    evictBlocks_run (Evicted w.positionMap leaf levels) (fun h hPlaces => h.step hPlaces) hMapped
      (evicted_empty w.positionMap leaf levels)
  rw [List.map_replicate, List.nil_append] at *
  refine Returns.get_bind (Returns.ok_bind hFold ?_)
  exact Returns.modify_bind (Returns.pure ⟨contents, kept, rfl, rfl, hEvicted⟩)

end Loop

section Padding

/-- A bucket filled up with dummies. -/
def padded (blocks : List Block) : List Block :=
  blocks ++ List.replicate (kBucketSize - blocks.length) dummyBlock

theorem foldl_addBlock {blocks : List Block} {count : Nat}
    (h : blocks.length + count ≤ kBucketSize) :
    (List.range count).foldl (fun bucket _ => bucket.addBlock dummyBlock) (toBucket blocks) =
      toBucket (blocks ++ List.replicate count dummyBlock) := by
  induction count with
  | zero => rw [List.range_zero, List.foldl_nil, List.replicate_zero, List.append_nil]
  | succ count ih =>
    have hRoom : (blocks ++ List.replicate count dummyBlock).length < kBucketSize := by
      rw [List.length_append, List.length_replicate]
      omega
    rw [List.range_succ, List.foldl_append, ih (by omega), List.foldl_cons, List.foldl_nil,
      addBlock_toBucket hRoom, List.append_assoc, ← List.replicate_succ']

theorem padBucket_toBucket {blocks : List Block} (h : blocks.length ≤ kBucketSize) :
    padBucket (toBucket blocks) = toBucket (padded blocks) :=
  foldl_addBlock (by change blocks.length + (kBucketSize - blocks.length) ≤ _; omega)

theorem length_padded {blocks : List Block} (h : blocks.length ≤ kBucketSize) :
    (padded blocks).length = kBucketSize := by
  rw [padded, List.length_append, List.length_replicate]
  omega

theorem mem_padded {blocks : List Block} {block : Block} (h : block ∈ padded blocks) :
    block ∈ blocks ∨ block = dummyBlock :=
  (List.mem_append.mp h).imp_right fun hDummy => (List.mem_replicate.mp hDummy).2

end Padding
end OramHub.PathOram
