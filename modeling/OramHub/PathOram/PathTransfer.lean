import OramHub.PathOram.Eviction
import OramHub.PathOram.Requests

/-! # Reading and writing a path

`Plain` is a client/server pair without encryption, files or sockets. A path read copies the real
blocks of a path to the stash; a path write evicts the stash to new buckets on the path.
-/
namespace OramHub.PathOram
open OramHub.Core OramHub.Program
set_option autoImplicit false

/-- What is left of a message and its answer when ciphertexts are reduced to their lengths. -/
structure Sketch where
  command : UInt8
  counts : List UInt64
  indices : List UInt64
  sent : List Nat
  answerCounts : List UInt64
  received : List Nat
  deriving DecidableEq, Repr

def Request.command : Request → UInt8
  | .readBucket _ => 'R'.toUInt8
  | .writeBucket _ _ => 'W'.toUInt8
  | .readPath _ _ => 'P'.toUInt8
  | .writePath _ _ => 'T'.toUInt8
  | .quit => 'Q'.toUInt8

def Request.counts : Request → List UInt64
  | .readPath count _ => [count]
  | .writePath count _ => [count]
  | _ => []

def Request.indices : Request → List UInt64
  | .readBucket index => [index]
  | .writeBucket index _ => [index]
  | .readPath _ indices => indices
  | .writePath _ buckets => buckets.map Prod.fst
  | .quit => []

def Request.payloads : Request → List Bytes
  | .writeBucket _ payload => [payload]
  | .writePath _ buckets => buckets.map Prod.snd
  | _ => []

def Response.counts : Response → List UInt64
  | .path count _ => [count]
  | _ => []

def Response.payloads : Response → List Bytes
  | .bucket payload => [payload]
  | .path _ payloads => payloads
  | _ => []

def Event.sketch (event : Event) : Sketch where
  command := event.request.command
  counts := event.request.counts
  indices := event.request.indices
  sent := event.request.payloads.map List.length
  answerCounts := event.response.counts
  received := event.response.payloads.map List.length

def Env.indices (env : Env) (leaf : UInt64) : List UInt64 := (env.path leaf).map UInt64.ofNat

namespace Sketch

def readPath (env : Env) (leaf : UInt64) (sizes : List Nat) : Sketch where
  command := 'P'.toUInt8
  counts := [UInt64.ofNat (env.height + 1)]
  indices := env.indices leaf
  sent := []
  answerCounts := [UInt64.ofNat (env.height + 1)]
  received := sizes

def writePath (env : Env) (leaf : UInt64) (sizes : List Nat) : Sketch where
  command := 'T'.toUInt8
  counts := [UInt64.ofNat (env.height + 1)]
  indices := env.indices leaf
  sent := sizes
  answerCounts := []
  received := []

end Sketch

structure Plain where
  stash : List Block
  bucket : Nat → List Block
  positionMap : List UInt64
  trace : List Sketch

structure Stored (env : Env) (w : World) (v : Plain) : Prop where
  tree : Holds env w.server v.bucket
  numLeaves : w.numLeaves.toNat = 2 ^ env.height
  stash : w.stash = v.stash
  positionMap : w.positionMap = v.positionMap
  trace : w.log.map Event.sketch = v.trace

def reals (blocks : List Block) : List Block := blocks.filter fun block => block.id != kDummyId

namespace Plain

def observe (v : Plain) (sketch : Sketch) : Plain := { v with trace := v.trace ++ [sketch] }

def readPath (env : Env) (v : Plain) (leaf : UInt64) : Plain :=
  { v with
    stash := v.stash ++ (env.path leaf).flatMap fun b => reals (v.bucket b)
    trace := v.trace ++
      [.readPath env leaf ((env.path leaf).map fun b => payloadSize (v.bucket b))] }

/-- The outcome of a path write that has evicted `contents` and kept the rest. -/
def writePath (env : Env) (v : Plain) (leaf : UInt64) (contents : List (List Block))
    (kept : List Block) : Plain :=
  { v with
    stash := kept
    bucket := replaceBuckets v.bucket ((env.indices leaf).zip (contents.map padded))
    trace := v.trace ++
      [.writePath env leaf (contents.map fun blocks => payloadSize (padded blocks))] }

end Plain

variable {env : Env} {w : World} {v : Plain} {leaf : UInt64}

section Indices

theorem map_toNat_indices (hHeight : env.height < 63) (hLeaf : leaf.toNat < 2 ^ env.height) :
    (env.indices leaf).map UInt64.toNat = env.path leaf := by
  obtain ⟨path, _, hNodes⟩ := getPathIndices_eq_ok hHeight hLeaf
  have hPath : path.map UInt64.toNat = env.path leaf := hNodes
  rw [Env.indices, ← hPath, List.map_map, List.map_map]
  exact List.map_congr_left fun index _ => by simp

theorem getPathIndices_indices (hHeight : env.height < 63) (hLeaf : leaf.toNat < 2 ^ env.height) :
    getPathIndices env.treeHeight leaf = .ok (env.indices leaf) := by
  obtain ⟨path, hPath, hNodes⟩ := getPathIndices_eq_ok hHeight hLeaf
  have hNodes' : path.map UInt64.toNat = env.path leaf := hNodes
  rw [hPath, Env.indices, ← hNodes', List.map_map]
  exact congrArg Except.ok (by simp [Function.comp_def])

theorem length_indices (env : Env) (leaf : UInt64) :
    (env.indices leaf).length = env.height + 1 := by
  rw [Env.indices, List.length_map, length_path]

theorem mem_nodes_of_mem_indices (hHeight : env.height < 63) (hLeaf : leaf.toNat < 2 ^ env.height) :
    ∀ index ∈ env.indices leaf, index.toNat ∈ env.nodes := by
  intro index hIndex
  apply mem_nodes_of_mem_path hLeaf
  rw [← map_toNat_indices hHeight hLeaf]
  exact List.mem_map_of_mem hIndex

theorem batch_indices (hHeight : env.height < 63) (hLeaf : leaf.toNat < 2 ^ env.height) :
    Batch env (env.indices leaf) :=
  ⟨length_indices env leaf, mem_nodes_of_mem_indices hHeight hLeaf⟩

end Indices

/-- The request leaves the stash and the position map alone. -/
theorem Stored.exchanged {w' : World} {event : Event}
    {bucket : Nat → List Block} (h : Stored env w v)
    (hExchanged : Exchanged env w [event] w') (hTree : Holds env w'.server bucket) :
    Stored env w' (({ v with bucket := bucket } : Plain).observe event.sketch) := by
  obtain ⟨ivs, hWorld⟩ := hExchanged.world
  generalize w'.server = server at hWorld hTree
  subst hWorld
  refine ⟨hTree, h.numLeaves, h.stash, h.positionMap, ?_⟩
  rw [List.map_append, h.trace]
  rfl

section ReadPath

theorem map_length_of_opens {payloads : List Bytes} {indices : List UInt64}
    (h : List.Forall₂ (fun payload index => Opens env payload (v.bucket index.toNat))
      payloads indices) :
    payloads.map List.length = indices.map fun index => payloadSize (v.bucket index.toNat) := by
  induction h with
  | nil => rfl
  | cons hHead _ ih => rw [List.map_cons, List.map_cons, hHead.length, ih]

theorem readPathFromServer_spec (hHeight : env.height < 63) (h : Stored env w v)
    (hFits : ∀ b ∈ env.nodes, Fits (v.bucket b)) (hLeaf : leaf.toNat < 2 ^ env.height) :
    Returns (readPathFromServer env (env.indices leaf)) w fun buckets w' =>
      buckets = (env.path leaf).map (fun b => toBucket (v.bucket b)) ∧
      Stored env w' (v.observe
        (.readPath env leaf ((env.path leaf).map fun b => payloadSize (v.bucket b)))) := by
  have hLength := length_indices env leaf
  have hPath := map_toNat_indices hHeight hLeaf
  have hBatch := batch_indices hHeight hLeaf
  refine (readPathFromServer_run h.tree.serving hBatch fun index hIndex =>
    ⟨h.tree.files _ (hBatch.nodes index hIndex), hFits _ (hBatch.nodes index hIndex)⟩).mono ?_
  rintro _ w' ⟨rfl, hServing, payloads, hPayloads, hExchanged⟩
  have hFinal := h.exchanged hExchanged (hServing.holds h.tree.files)
  have hSizes := map_length_of_opens hPayloads
  have hSketch : Event.sketch
      ⟨.readPath (UInt64.ofNat (env.indices leaf).length) (env.indices leaf),
        .path (UInt64.ofNat (env.indices leaf).length) payloads⟩ =
        .readPath env leaf ((env.path leaf).map fun b => payloadSize (v.bucket b)) := by
    rw [← hPath, List.map_map]
    simp only [Event.sketch, Sketch.readPath, Request.command, Request.counts,
      Request.indices, Request.payloads,
      Response.counts, Response.payloads, hLength, hSizes, List.map_nil]
    rfl
  rw [hSketch] at hFinal
  refine ⟨?_, hFinal⟩
  rw [← hPath, List.map_map]
  rfl

theorem readPath_spec (hHeight : env.height < 63) (h : Stored env w v)
    (hFits : ∀ b ∈ env.nodes, Fits (v.bucket b))
    (hLeaf : leaf.toNat < 2 ^ env.height) :
    Returns (readPath env leaf) w fun _ w' => Stored env w' (v.readPath env leaf) := by
  apply Returns.ok_bind (getPathIndices_indices hHeight hLeaf)
  apply (readPathFromServer_spec hHeight h hFits hLeaf).bind
  rintro _ w' ⟨rfl, hStored⟩
  refine Returns.modify ⟨hStored.tree, hStored.numLeaves, ?_, hStored.positionMap, hStored.trace⟩
  change w'.stash ++ _ = v.stash ++ _
  rw [hStored.stash, List.flatMap_map]
  rfl

end ReadPath

section WritePath

theorem map_length_encloses {payloads : List Bytes} {contents : List (List Block)}
    (h : List.Forall₂ (Encloses env) payloads (contents.map toBucket)) :
    payloads.map List.length = contents.map payloadSize := by
  rw [List.forall₂_map_right_iff] at h
  induction h with
  | nil => rfl
  | cons hHead _ ih =>
    rw [List.map_cons, List.map_cons, hHead.length, ih]
    rfl

theorem writePathToServer_spec (hHeight : env.height < 63) (h : Stored env w v)
    {contents : List (List Block)}
    (hLength : contents.length = env.height + 1) (hFits : ∀ blocks ∈ contents, Fits blocks)
    (hLeaf : leaf.toNat < 2 ^ env.height) :
    Returns (writePathToServer env (env.indices leaf) (contents.map toBucket)) w fun _ w' =>
      Stored env w' (({ v with bucket := replaceBuckets v.bucket ((env.indices leaf).zip contents) }
        : Plain).observe
        (.writePath env leaf (contents.map payloadSize))) := by
  have hIndices := length_indices env leaf
  have hSame : (env.indices leaf).length = (contents.map toBucket).length := by
    rw [hIndices, List.length_map, hLength]
  have hBuckets : ∀ bucket ∈ contents.map toBucket, bucket.Encodable := by
    intro bucket hBucket
    obtain ⟨blocks, hBlocks, rfl⟩ := List.mem_map.mp hBucket
    exact Fits.encodable (hFits blocks hBlocks)
  have hReceived : (contents.map toBucket).map received = contents := by
    rw [List.map_map]
    refine (List.map_congr_left fun blocks hBlocks => ?_).trans (List.map_id _)
    exact @received_of_fits (toBucket blocks) (hFits blocks hBlocks)
  apply (writePathToServer_run h.tree.serving (batch_indices hHeight hLeaf) hSame hBuckets).mono
  rintro _ w' ⟨hServing, payloads, hPayloads, hExchanged⟩
  rw [hReceived] at hServing
  have hFinal := h.exchanged hExchanged (hServing.holds fun b hb =>
    contains_storeBuckets fun _ => h.tree.files b hb)
  have hSketch :
      Event.sketch ⟨.writePath (UInt64.ofNat (env.indices leaf).length)
        ((env.indices leaf).zip payloads), .ack⟩ =
      .writePath env leaf (contents.map payloadSize) := by
    have hFst : ((env.indices leaf).zip payloads).map Prod.fst = env.indices leaf :=
      List.map_fst_zip (by rw [hPayloads.length_eq, hSame])
    have hSnd : ((env.indices leaf).zip payloads).map Prod.snd = payloads :=
      List.map_snd_zip (by rw [hPayloads.length_eq, hSame])
    simp only [Event.sketch, Sketch.writePath, Request.command, Request.counts,
      Request.indices, Request.payloads,
      Response.counts, Response.payloads, hIndices, hFst, hSnd,
      map_length_encloses hPayloads, List.map_nil]
  rw [hSketch] at hFinal
  exact hFinal

theorem fits_padded {blocks : List Block} (hRoom : blocks.length ≤ kBucketSize)
    (hSized : ∀ block ∈ blocks, block.Sized) : Fits (padded blocks) := by
  refine ⟨(length_padded hRoom).le, fun block hBlock => ?_⟩
  obtain hOld | rfl := mem_padded hBlock
  · exact hSized block hOld
  · change (List.replicate kBlockSize (0 : UInt8)).length < 2 ^ 64
    rw [List.length_replicate]
    decide

theorem writePath_spec (hHeight : env.height < 63) (h : Stored env w v)
    (hMapped : ∀ block ∈ v.stash, block.id.toNat < v.positionMap.length)
    (hSized : ∀ block ∈ v.stash, block.Sized) (hLeaf : leaf.toNat < 2 ^ env.height) :
    Returns (writePath env leaf) w fun _ w' => ∃ contents kept,
      Evicted v.positionMap leaf (env.height + 1) v.stash contents kept ∧
      Stored env w' (v.writePath env leaf contents kept) := by
  apply Returns.ok_bind (getPathIndices_indices hHeight hLeaf)
  rw [length_indices]
  apply (@evictBlocksToPath_spec leaf w (env.height + 1) (by rwa [h.stash, h.positionMap])).bind
  rintro _ _ ⟨contents, kept, rfl, rfl, hEvicted⟩
  rw [h.stash, h.positionMap] at hEvicted
  have hPad : (contents.map toBucket).map padBucket = (contents.map padded).map toBucket := by
    rw [List.map_map, List.map_map]
    exact List.map_congr_left fun blocks hBlocks =>
      padBucket_toBucket (hEvicted.room blocks hBlocks)
  have hFits : ∀ blocks ∈ contents.map padded, Fits blocks := by
    intro blocks hBlocks
    obtain ⟨evicted, hMem, rfl⟩ := List.mem_map.mp hBlocks
    refine fits_padded (hEvicted.room evicted hMem) fun block hBlock => hSized block ?_
    refine hEvicted.perm.subset (List.mem_append_left _ ?_)
    exact List.mem_flatten.mpr ⟨evicted, hMem, hBlock⟩
  have hReady : Stored env { w with stash := kept } { v with stash := kept } :=
    ⟨h.tree, h.numLeaves, rfl, h.positionMap, h.trace⟩
  rw [hPad]
  apply (writePathToServer_spec hHeight hReady (by rw [List.length_map, hEvicted.length]) hFits
    hLeaf).mono
  intro _ w' hFinal
  refine ⟨contents, kept, hEvicted, ?_⟩
  rw [List.map_map] at hFinal
  exact hFinal

end WritePath
end OramHub.PathOram
