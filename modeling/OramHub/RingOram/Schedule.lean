import OramHub.RingOram.Sealing

/-! # The schedule of a run

Which buckets are read and written, and when, is decided by the touch counts, the round and the
eviction counter alone. `Schedule` is this part of the state; it moves on with the leaf that an
access reveals and with nothing else.
-/
namespace OramHub.RingOram
open OramHub.Core OramHub.LittleEndian
set_option autoImplicit false

structure Schedule where
  counts : Nat → UInt64 := fun _ => 0
  round : Nat := 0
  evictionCounter : UInt64 := 0
  trace : List Sketch := []

/-- The leaf that a path read reveals. -/
def Sketch.leaf? (sketch : Sketch) : Option UInt64 :=
  if sketch.command = Sketch.word 'M' then sketch.fields.head? else none

/-- The leaf that an event reveals. -/
def Event.leaf? (event : Event) : Option UInt64 :=
  match event.request with
  | .readPathMetadata leaf => some leaf
  | _ => none

def RuntimeConfig.indices (cfg : RuntimeConfig) (leaf : UInt64) : List UInt64 :=
  (cfg.path leaf).map UInt64.ofNat

def Plain.schedule (v : Plain) : Schedule where
  counts b := (v.bucket b).count
  round := v.round
  evictionCounter := v.evictionCounter
  trace := v.trace

namespace Schedule

def observe (s : Schedule) (sketch : Sketch) : Schedule := { s with trace := s.trace ++ [sketch] }

variable (cfg : RuntimeConfig)

def readBucket (s : Schedule) (index : UInt64) : Schedule :=
  s.observe (.readBucket index (s.counts index.toNat) cfg.bucketSize)

def writeBucket (s : Schedule) (index : UInt64) : Schedule :=
  { s with counts := Function.update s.counts index.toNat 0 }.observe
    (.writeBucket index cfg.bucketSize)

def evictPath (s : Schedule) : Schedule :=
  let indices := cfg.indices (s.evictionCounter % cfg.numLeaves)
  let next := { s with evictionCounter := s.evictionCounter + 1 }
  indices.reverse.foldl (writeBucket cfg) (indices.foldl (readBucket cfg) next)

def reshuffleBucket (s : Schedule) (index : UInt64) : Schedule :=
  let asked := s.observe (.readBucketCount index (s.counts index.toNat))
  if cfg.s ≤ s.counts index.toNat then writeBucket cfg (readBucket cfg asked index) index else asked

def earlyReshuffle (s : Schedule) (leaf : UInt64) : Schedule :=
  (cfg.indices leaf).foldl (reshuffleBucket cfg) s

def readPath (s : Schedule) (leaf : UInt64) : Schedule :=
  let asked := s.observe (.readPathMetadata leaf ((cfg.path leaf).map s.counts) cfg.metadataSize)
  { asked with counts := fun b => if b ∈ cfg.path leaf then s.counts b + 1 else s.counts b }.observe
    (.xorPathSlots leaf (cfg.depth + 1) cfg.blockSize.toNat)

def evictIfDue (s : Schedule) : Schedule := if s.round = 0 then evictPath cfg s else s

def access (s : Schedule) (leaf : UInt64) : Schedule :=
  let touched := readPath cfg s leaf
  let next := { touched with round := (touched.round + 1) % cfg.a.toNat }
  earlyReshuffle cfg (evictIfDue cfg next) leaf

/-- Every bucket outside `except` can be touched once more. -/
def Calm (s : Schedule) (except : List Nat) : Prop :=
  ∀ b ∈ cfg.nodes, b ∉ except → (s.counts b).toNat < cfg.s.toNat

end Schedule

variable {cfg : RuntimeConfig} {leaf : UInt64}

section Indices

theorem map_toNat_indices (hDepth : cfg.depth < 63) (hLeaf : leaf.toNat < 2 ^ cfg.depth) :
    (cfg.indices leaf).map UInt64.toNat = cfg.path leaf := by
  obtain ⟨path, _, hNodes⟩ := RuntimeConfig.getPathIndices_eq_ok hDepth hLeaf
  rw [RuntimeConfig.indices, RuntimeConfig.path, ← hNodes, List.map_map, List.map_map]
  exact List.map_congr_left fun index _ => by simp

theorem getPathIndices_indices (hDepth : cfg.depth < 63) (hLeaf : leaf.toNat < 2 ^ cfg.depth) :
    cfg.getPathIndices leaf = .ok (cfg.indices leaf) := by
  obtain ⟨path, hPath, hNodes⟩ := RuntimeConfig.getPathIndices_eq_ok hDepth hLeaf
  rw [hPath, RuntimeConfig.indices, RuntimeConfig.path, ← hNodes, List.map_map]
  exact congrArg Except.ok (by simp [Function.comp_def])

theorem nodup_path (hLeaf : leaf.toNat < 2 ^ cfg.depth) : (cfg.path leaf).Nodup :=
  HeapTree.nodup_path hLeaf

theorem length_path (cfg : RuntimeConfig) (leaf : UInt64) :
    (cfg.path leaf).length = cfg.depth + 1 :=
  HeapTree.length_path _ _

theorem toNat_mod_numLeaves (hDepth : cfg.depth < 63) (counter : UInt64) :
    (counter % cfg.numLeaves).toNat < 2 ^ cfg.depth := by
  rw [UInt64.toNat_mod, RuntimeConfig.toNat_numLeaves hDepth]
  exact Nat.mod_lt _ (Nat.pow_pos (by decide))

theorem toNat_pos {x : UInt64} (h : x ≠ 0) : 0 < x.toNat :=
  Nat.pos_of_ne_zero fun hZero => h (UInt64.toNat_inj.mp hZero)

end Indices

namespace Schedule

variable {s : Schedule}

theorem counts_foldl_readBucket (indices : List UInt64) (s : Schedule) :
    (indices.foldl (readBucket cfg) s).counts = s.counts := by
  induction indices generalizing s with
  | nil => rfl
  | cons index indices ih => exact ih (readBucket cfg s index)

theorem counts_foldl_writeBucket (indices : List UInt64) (s : Schedule) (b : Nat) :
    (indices.foldl (writeBucket cfg) s).counts b = if b ∈
      indices.map UInt64.toNat then 0 else s.counts b := by
  induction indices generalizing s with
  | nil => simp
  | cons index indices ih =>
    have hHead : (writeBucket cfg s index).counts b = if b = index.toNat then 0 else s.counts b :=
      Function.update_apply _ _ _ _
    rw [List.foldl_cons, ih, hHead]
    by_cases hTail : b ∈ indices.map UInt64.toNat
    · rw [if_pos hTail, List.map_cons, if_pos (List.mem_cons_of_mem _ hTail)]
    · rw [if_neg hTail]
      exact if_congr (by rw [List.map_cons, List.mem_cons, or_iff_left hTail]) rfl rfl

theorem counts_evictPath (hDepth : cfg.depth < 63) (s : Schedule) (b : Nat) :
    (evictPath cfg s).counts b =
      if b ∈ cfg.path (s.evictionCounter % cfg.numLeaves) then 0 else s.counts b := by
  rw [evictPath, counts_foldl_writeBucket, counts_foldl_readBucket, List.map_reverse,
    map_toNat_indices hDepth (toNat_mod_numLeaves hDepth _)]
  exact if_congr List.mem_reverse rfl rfl

theorem unchanged_foldl {α : Type} {project : Schedule → α} {step : Schedule → UInt64 → Schedule}
    (h : ∀ s index, project (step s index) = project s) (indices : List UInt64) (s : Schedule) :
    project (indices.foldl step s) = project s := by
  induction indices generalizing s with
  | nil => rfl
  | cons index indices ih => exact (ih (step s index)).trans (h s index)

theorem evictionCounter_evictPath (s : Schedule) :
    (evictPath cfg s).evictionCounter = s.evictionCounter + 1 := by
  rw [evictPath, @unchanged_foldl _ evictionCounter (writeBucket cfg) fun _ _ => rfl,
    @unchanged_foldl _ evictionCounter (readBucket cfg) fun _ _ => rfl]

theorem Calm.evictPath (hDepth : cfg.depth < 63) (hS : cfg.s ≠ 0) {except : List Nat}
    (h : Calm cfg s except) :
    Calm cfg (evictPath cfg s) except := by
  have hPos : 0 < cfg.s.toNat := toNat_pos hS
  intro b hb hNot
  rw [counts_evictPath hDepth]
  split
  · exact hPos
  · exact h b hb hNot

theorem Calm.reshuffleBucket (hS : cfg.s ≠ 0) {index : UInt64} {rest : List Nat}
    (h : Calm cfg s (index.toNat :: rest)) : Calm cfg (reshuffleBucket cfg s index) rest := by
  have hPos : 0 < cfg.s.toNat := toNat_pos hS
  intro b hb hNot
  rw [Schedule.reshuffleBucket]
  split
  · change (Function.update s.counts index.toNat 0 b).toNat < _
    rcases eq_or_ne b index.toNat with rfl | hNe
    · rwa [Function.update_self]
    · rw [Function.update_of_ne hNe]
      exact h b hb (by simp [hNe, hNot])
  · rename_i hCount
    rcases eq_or_ne b index.toNat with rfl | hNe
    · rw [UInt64.le_iff_toNat_le] at hCount
      exact Nat.not_le.mp hCount
    · exact h b hb (by simp [hNe, hNot])

theorem Calm.foldl_reshuffleBucket (hS : cfg.s ≠ 0) {indices : List UInt64}
    (h : Calm cfg s (indices.map UInt64.toNat)) :
    Calm cfg (indices.foldl (Schedule.reshuffleBucket cfg) s) [] := by
  induction indices generalizing s with
  | nil => exact h
  | cons index indices ih => exact ih (Calm.reshuffleBucket hS h)

/-- An early reshuffle of a path leaves no bucket of it without a spare dummy. -/
theorem Calm.earlyReshuffle (hDepth : cfg.depth < 63) (hS : cfg.s ≠ 0)
    (hLeaf : leaf.toNat < 2 ^ cfg.depth)
    (h : Calm cfg s (cfg.path leaf)) : Calm cfg (earlyReshuffle cfg s leaf) [] :=
  Calm.foldl_reshuffleBucket hS (by rwa [map_toNat_indices hDepth hLeaf])

theorem Calm.weaken {except other : List Nat} (h : Calm cfg s except)
    (hSub : ∀ b ∈ except, b ∈ other) :
    Calm cfg s other := fun b hb hNot => h b hb fun hMem => hNot (hSub b hMem)

theorem Calm.readPath (h : Calm cfg s []) : Calm cfg (readPath cfg s leaf) (cfg.path leaf) := by
  intro b hb hNot
  change (if b ∈ cfg.path leaf then s.counts b + 1 else s.counts b).toNat < _
  rw [if_neg hNot]
  exact h b hb List.not_mem_nil

/-- After every access each bucket can be touched once more. -/
theorem Calm.access (h : Calm cfg s []) (hDepth : cfg.depth < 63) (hS : cfg.s ≠ 0)
    (hLeaf : leaf.toNat < 2 ^ cfg.depth) : Calm cfg (Schedule.access cfg s leaf) [] := by
  have hTouched : Calm cfg { Schedule.readPath cfg s leaf with
      round := ((Schedule.readPath cfg s leaf).round + 1) % cfg.a.toNat } (cfg.path leaf) :=
      Calm.readPath h
  refine Calm.earlyReshuffle hDepth hS hLeaf ?_
  rw [evictIfDue]
  split
  · exact Calm.evictPath hDepth hS hTouched
  · exact hTouched

/-! ## The revealed leaves -/

def leaves (s : Schedule) : List UInt64 := s.trace.filterMap Sketch.leaf?

theorem leaves_observe (s : Schedule) (sketch : Sketch) :
    (s.observe sketch).leaves = s.leaves ++ sketch.leaf?.toList := by
  rw [leaves, leaves, observe, List.filterMap_append]
  cases hLeaf : sketch.leaf? <;> simp [hLeaf]

theorem leaves_readBucket (s : Schedule) (index : UInt64) :
    (readBucket cfg s index).leaves = s.leaves := by
  rw [readBucket, leaves_observe]
  exact List.append_nil _

theorem leaves_writeBucket (s : Schedule) (index : UInt64) :
    (writeBucket cfg s index).leaves = s.leaves := by
  rw [writeBucket, leaves_observe]
  exact List.append_nil _

theorem leaves_evictPath (s : Schedule) : (evictPath cfg s).leaves = s.leaves := by
  rw [evictPath, @unchanged_foldl _ leaves _ leaves_writeBucket,
    @unchanged_foldl _ leaves _ leaves_readBucket]
  rfl

theorem leaves_reshuffleBucket (s : Schedule) (index : UInt64) :
    (reshuffleBucket cfg s index).leaves = s.leaves := by
  have hAsked : (s.observe (.readBucketCount index (s.counts index.toNat))).leaves = s.leaves := by
    rw [leaves_observe]
    exact List.append_nil _
  rw [reshuffleBucket]
  split
  · rw [leaves_writeBucket, leaves_readBucket, hAsked]
  · exact hAsked

theorem leaves_readPath (s : Schedule) (leaf : UInt64) :
    (readPath cfg s leaf).leaves = s.leaves ++ [leaf] := by
  rw [readPath, leaves_observe]
  exact (List.append_nil _).trans (leaves_observe s _)

/-- An access reveals one leaf, the one its path read asks for. -/
theorem leaves_access (s : Schedule) (leaf : UInt64) :
    (access cfg s leaf).leaves = s.leaves ++ [leaf] := by
  have hEvict : ∀ s : Schedule, (evictIfDue cfg s).leaves = s.leaves := by
    intro s
    rw [evictIfDue]
    split
    · exact leaves_evictPath s
    · rfl
  rw [access, earlyReshuffle, @unchanged_foldl _ leaves _ leaves_reshuffleBucket, hEvict]
  exact leaves_readPath s leaf

theorem leaves_foldl_access (leaves : List UInt64) (s : Schedule) :
    (leaves.foldl (access cfg) s).leaves = s.leaves ++ leaves := by
  induction leaves generalizing s with
  | nil => exact (List.append_nil _).symm
  | cons leaf leaves ih =>
    rw [List.foldl_cons, ih, leaves_access, List.append_assoc]
    rfl

end Schedule

theorem Event.sketch_leaf (event : Event) : event.sketch.leaf? = event.leaf? := by
  obtain ⟨request, response, files⟩ := event
  cases request <;> rfl

end OramHub.RingOram
