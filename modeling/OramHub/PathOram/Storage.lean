import OramHub.Lib.Inventory
import OramHub.Lib.Updates
import OramHub.PathOram.Client

/-! # What the server's handlers do to the stored tree

`Holds` says which blocks the bucket files contain. The handlers of path requests read and replace
these blocks.
-/
namespace OramHub.PathOram
open OramHub.Core OramHub.Program OramHub.Crypto OramHub.Updates
set_option autoImplicit false

namespace Env

def height (env : Env) : Nat := env.treeHeight.toNat

/-- The indices of the bucket files. -/
def nodes (env : Env) : Finset Nat := Finset.range (HeapTree.nodeCount env.height)

/-- The nodes from a leaf up to the root. -/
def path (env : Env) (leaf : UInt64) : List Nat := (HeapTree.path env.height leaf.toNat).reverse

end Env

/-- The blocks of a bucket that fits. -/
structure Fits (blocks : List Block) : Prop where
  room : blocks.length ≤ kBucketSize
  sized : ∀ block ∈ blocks, block.Sized

def toBucket (blocks : List Block) : Bucket := { capacity := kBucketSize, blocks := blocks }

/-- The number of bytes that a bucket takes on the wire. -/
def payloadSize (blocks : List Block) : Nat :=
  24 + (blocks.map fun block => 16 + block.data.length).sum

structure Opens (env : Env) (payload : Bytes) (blocks : List Block) : Prop where
  decrypt : decryptBucket env payload = .ok (toBucket blocks)
  length : payload.length = payloadSize blocks

/-- An initialised server that listens, and its bucket files. -/
structure Serving (env : Env) (server : Server) (files : Nat → Option Bytes) : Prop where
  running : server.running = true
  treeDir : server.treeDir = true
  nodeCount : server.nodeCount = server.numNodes
  numNodes : server.numNodes.toNat = HeapTree.nodeCount env.height
  files : server.files = files

def Contains (files : Nat → Option Bytes) (b : Nat) (blocks : List Block) : Prop :=
  files b = some (serializeBucket (toBucket blocks))

structure Holds (env : Env) (server : Server) (bucket : Nat → List Block) : Prop where
  running : server.running = true
  treeDir : server.treeDir = true
  nodeCount : server.nodeCount = server.numNodes
  numNodes : server.numNodes.toNat = HeapTree.nodeCount env.height
  files : ∀ b ∈ env.nodes, server.files b = some (serializeBucket (toBucket (bucket b)))

variable {env : Env}

theorem mem_nodes {b : Nat} : b ∈ env.nodes ↔ b < HeapTree.nodeCount env.height := Finset.mem_range

theorem length_path (env : Env) (leaf : UInt64) : (env.path leaf).length = env.height + 1 := by
  rw [Env.path, List.length_reverse, HeapTree.length_path]

theorem nodup_path {leaf : UInt64} (hLeaf : leaf.toNat < 2 ^ env.height) : (env.path leaf).Nodup :=
  List.nodup_reverse.mpr (HeapTree.nodup_path hLeaf)

theorem mem_nodes_of_mem_path {leaf : UInt64} (hLeaf : leaf.toNat < 2 ^ env.height) {b : Nat}
    (h : b ∈ env.path leaf) : b ∈ env.nodes :=
  mem_nodes.mpr (HeapTree.lt_nodeCount_of_mem_path hLeaf (List.mem_reverse.mp h))

section Buckets

variable {blocks : List Block} {iv : Bytes}

theorem deserialize_toBucket (h : Fits blocks) :
    deserializeBucket (serializeBucket (toBucket blocks)) kBucketSize = .ok (toBucket blocks) :=
  deserializeBucket_serialize h.sized h.room (show kBucketSize < 2 ^ 64 by decide)

theorem sealBucket_eq (bucket : Bucket) (hIv : iv.length = kIVSize) :
    sealBucket env iv bucket =
      .ok (iv ++ env.cipher.cipherOperation (serializeBucket bucket) iv) := by
  rw [sealBucket, env.cipher.encrypt_eq_ok _ hIv]
  rfl

theorem decryptBucket_seal (bytes : Bytes) (hIv : iv.length = kIVSize) :
    decryptBucket env (iv ++ env.cipher.cipherOperation bytes iv) =
      deserializeBucket bytes kBucketSize := by
  have hEnough : ¬ (iv ++ env.cipher.cipherOperation bytes iv).length < kIVSize := by
    rw [List.length_append, hIv]
    omega
  rw [decryptBucket, decryptBucketWith, if_neg hEnough, ← hIv, List.drop_left, List.take_left]
  rw [AesCtr.decrypt_cipherOperation _ _ hIv, ok_bind]

theorem length_seal (bucket : Bucket) (hIv : iv.length = kIVSize) :
    (iv ++ env.cipher.cipherOperation (serializeBucket bucket) iv).length =
      payloadSize bucket.blocks := by
  rw [List.length_append, AesCtr.length_cipherOperation, length_serializeBucket, hIv, payloadSize]
  exact (Nat.add_assoc 16 8 _).symm

theorem sealBucket_opens (h : Fits blocks) (hIv : iv.length = kIVSize) :
    ∃ payload, sealBucket env iv (toBucket blocks) = .ok payload ∧ Opens env payload blocks := by
  refine ⟨_, sealBucket_eq (toBucket blocks) hIv, ?_, length_seal (toBucket blocks) hIv⟩
  rw [decryptBucket_seal _ hIv]
  exact deserialize_toBucket h

theorem length_iv (iv : Vector UInt8 16) : iv.toList.length = kIVSize := Vector.length_toList

theorem Server.encryptBucket_spec (server : Server) (h : Fits blocks) :
    Returns (Server.encryptBucket env (toBucket blocks)) server fun payload server' =>
      Opens env payload blocks ∧ server' = { server with ivs := server.ivs + 1 } := by
  obtain ⟨payload, hSeal, hOpens⟩ :=
    @sealBucket_opens env _ _ h (length_iv (env.serverEntropy.iv server.ivs))
  exact Returns.get_bind (Returns.set_bind (Returns.fromExcept hSeal ⟨hOpens, rfl⟩))

end Buckets

section Disk

variable {server : Server} {files : Nat → Option Bytes} {index : UInt64}

theorem Serving.withIvs (h : Serving env server files) (ivs : Nat) :
    Serving env { server with ivs := ivs } files :=
  ⟨h.running, h.treeDir, h.nodeCount, h.numNodes, h.files⟩

theorem Serving.withStats (h : Serving env server files) (stats : RequestStats) :
    Serving env { server with stats := stats } files :=
  ⟨h.running, h.treeDir, h.nodeCount, h.numNodes, h.files⟩

theorem Serving.inRange (h : Serving env server files) (hIndex : index.toNat ∈ env.nodes) :
    ¬ server.nodeCount ≤ index := by
  rw [h.nodeCount, UInt64.le_iff_toNat_le, h.numNodes]
  exact Nat.not_le.mpr (mem_nodes.mp hIndex)

theorem Serving.height_lt (h : Serving env server files) : env.height < 64 := by
  have hBound := UInt64.toNat_lt server.numNodes
  rw [h.numNodes, HeapTree.nodeCount] at hBound
  have hPower : 2 ^ (env.height + 1) ≤ 2 ^ 64 := by omega
  exact (Nat.pow_le_pow_iff_right (by decide)).mp hPower

theorem validateInitialized_spec (h : Serving env server files) :
    Returns validateInitialized server fun _ server' => server' = server := by
  refine Returns.get_bind (Returns.throwIf ?_ rfl)
  rintro (hCount | hDir)
  · exact hCount h.nodeCount
  · rw [h.treeDir] at hDir
    cases hDir

theorem readBucketFromDisk_spec (h : Serving env server files) (hIndex : index.toNat ∈ env.nodes)
    {blocks : List Block} (hFile : Contains files index.toNat blocks) (hFits : Fits blocks) :
    Returns (readBucketFromDisk index) server fun read server' => read = toBucket blocks ∧
    server' = server := by
  refine Returns.get_bind (Returns.check_bind (h.inRange hIndex) ?_)
  rw [h.files, hFile]
  have hLength : ¬ (serializeBucket (toBucket blocks)).length < 8 := by
    rw [length_serializeBucket]
    omega
  have hRead := deserialize_toBucket hFits
  generalize serializeBucket (toBucket blocks) = bytes at hLength hRead
  refine Returns.check_bind hLength (Returns.ok_bind hRead ?_)
  exact Returns.check_bind (not_not.mpr ⟨rfl, hFits.room⟩) (Returns.pure ⟨rfl, rfl⟩)

theorem writeBucketToDisk_run (hIndex : ¬ server.nodeCount ≤ index) {blocks : List Block}
    (hRoom : blocks.length ≤ kBucketSize) :
    Returns (writeBucketToDisk index (toBucket blocks)) server fun _ server' =>
      server' = { server with
        treeDir := true
        files := Function.update server.files index.toNat
          (some (serializeBucket (toBucket blocks))) } :=
  Returns.get_bind
    (Returns.check_bind hIndex (Returns.check_bind (not_not.mpr ⟨rfl, hRoom⟩) (Returns.modify rfl)))

/-- The files after the buckets of `written` have been replaced one by one. -/
def storeBuckets (files : Nat → Option Bytes) (written : List (UInt64 × List Block)) : Nat →
    Option Bytes :=
  written.foldl (fun files write =>
    Function.update files write.1.toNat (some (serializeBucket (toBucket write.2)))) files

theorem writeBucketToDisk_spec (h : Serving env server files) (hIndex : index.toNat ∈ env.nodes)
    {blocks : List Block} (hRoom : blocks.length ≤ kBucketSize) :
    Returns (writeBucketToDisk index (toBucket blocks)) server fun _ server' =>
      Serving env server' (storeBuckets files [(index, blocks)]) := by
  apply (writeBucketToDisk_run (h.inRange hIndex) hRoom).mono
  rintro _ _ rfl
  exact ⟨h.running, rfl, h.nodeCount, h.numNodes, by rw [h.files]; rfl⟩

end Disk

section Requests

variable {server : Server} {files : Nat → Option Bytes} {index : UInt64} {indices : List UInt64}
  {content : Nat → List Block}

theorem handleReadBucket_spec (h : Serving env server files) (hIndex : index.toNat ∈ env.nodes)
    {blocks : List Block} (hFile : Contains files index.toNat blocks) (hFits : Fits blocks) :
    Returns (handleReadBucket env index) server fun response server' =>
      Serving env server' files ∧ ∃ payload, response = .bucket payload ∧
      Opens env payload blocks := by
  apply (validateInitialized_spec h).bind
  rintro _ server rfl
  refine Returns.modify_bind ((readBucketFromDisk_spec (h.withStats _) hIndex hFile hFits).bind ?_)
  rintro _ _ ⟨rfl, rfl⟩
  apply (Server.encryptBucket_spec _ hFits).bind
  rintro payload _ ⟨hOpens, rfl⟩
  exact Returns.pure ⟨(h.withStats _).withIvs _, payload, rfl, hOpens⟩

theorem handleWriteBucket_spec (h : Serving env server files)
    (hIndex : index.toNat ∈ env.nodes) {payload : Bytes}
    {blocks : List Block} (hDecrypt : decryptBucket env payload = .ok (toBucket blocks))
    (hRoom : blocks.length ≤ kBucketSize) :
    Returns (handleWriteBucket env index payload) server fun response server' =>
      response = .silent ∧ Serving env server' (storeBuckets files [(index, blocks)]) := by
  apply (validateInitialized_spec h).bind
  rintro _ server rfl
  refine Returns.modify_bind
    (Returns.ok_bind hDecrypt ((writeBucketToDisk_spec (h.withStats _) hIndex hRoom).bind ?_))
  exact fun _ server' hServing => Returns.pure ⟨rfl, hServing⟩

theorem Serving.count (h : Serving env server files) {count : Nat}
    (hCount : count = env.height + 1) :
    (UInt64.ofNat count).toNat = count ∧ UInt64.ofNat count = env.treeHeight + 1 := by
  have hHeight := h.height_lt
  have hToNat : (UInt64.ofNat count).toNat = count :=
    UInt64.toNat_ofNat_of_lt' (by rw [hCount, UInt64.size]; omega)
  refine ⟨hToNat, ?_⟩
  rw [← UInt64.toNat_inj, hToNat, hCount, UInt64.toNat_add, UInt64.toNat_one]
  exact (Nat.mod_eq_of_lt (show env.height + 1 < 2 ^ 64 by omega)).symm

theorem handleReadPath_spec (h : Serving env server files)
    (hLength : indices.length = env.height + 1)
    (hIndices : ∀ index ∈ indices, index.toNat ∈ env.nodes)
    (hFiles : ∀ index ∈ indices, Contains files index.toNat (content index.toNat) ∧
      Fits (content index.toNat)) :
    Returns (handleReadPath env (UInt64.ofNat indices.length) indices) server
      fun response server' =>
      Serving env server' files ∧ ∃ payloads,
      response = .path (UInt64.ofNat indices.length) payloads ∧
        List.Forall₂ (fun payload index => Opens env payload (content index.toNat))
          payloads indices := by
  obtain ⟨hCount, hHeightCount⟩ := h.count hLength
  apply (validateInitialized_spec h).bind
  rintro _ server rfl
  apply Returns.check_bind (not_not.mpr hHeightCount)
  rw [hCount]
  apply (recvItems_spec indices).bind
  rintro _ server ⟨hWanted, rfl⟩
  rw [hWanted]
  apply Returns.modify_bind
  have hLoop := @Returns.foldlM Exception Server UInt64 (List Bytes)
    { server with stats.readPathRequests := server.stats.readPathRequests + 1 }
      indices (sendBucket env) []
    (fun sent rest server' => Serving env server' files ∧ ∃ visited, visited ++ rest = indices ∧
      List.Forall₂ (fun payload index => Opens env payload (content index.toNat)) sent visited)
    ⟨h.withStats _, [], rfl, .nil⟩ (by
      rintro sent index rest server' ⟨hServing, visited, rfl, hSent⟩
      have hMem : index ∈ visited ++ index :: rest := by simp
      obtain ⟨hFile, hFits⟩ := hFiles index hMem
      apply (readBucketFromDisk_spec hServing (hIndices index hMem) hFile hFits).bind
      rintro _ server' ⟨rfl, rfl⟩
      apply (Server.encryptBucket_spec server' hFits).bind
      rintro payload _ ⟨hOpens, rfl⟩
      exact Returns.pure ⟨hServing.withIvs _, visited ++ [index], by simp,
        List.rel_append hSent (.cons hOpens .nil)⟩)
  apply hLoop.bind
  rintro payloads server' ⟨hServing, visited, hVisited, hPayloads⟩
  rw [List.append_nil] at hVisited
  subst hVisited
  exact Returns.pure ⟨hServing, payloads, rfl, hPayloads⟩

/-- The items of a request, and the blocks that the server takes from them. -/
def Delivers (env : Env) (sent : List (UInt64 × Bytes))
    (written : List (UInt64 × List Block)) : Prop :=
  List.Forall₂ (fun item write => item.1 = write.1 ∧
    decryptBucket env item.2 = .ok (toBucket write.2)) sent written

theorem handleWritePath_spec (h : Serving env server files) {sent : List (UInt64 × Bytes)}
    {written : List (UInt64 × List Block)} (hDelivers : Delivers env sent written)
    (hLength : sent.length = env.height + 1)
    (hIndices : ∀ write ∈ written, write.1.toNat ∈ env.nodes)
    (hRoom : ∀ write ∈ written, write.2.length ≤ kBucketSize) :
    Returns (handleWritePath env (UInt64.ofNat sent.length) sent) server fun response server' =>
      response = .ack ∧ Serving env server' (storeBuckets files written) := by
  obtain ⟨hCount, hHeightCount⟩ := h.count hLength
  apply (validateInitialized_spec h).bind
  rintro _ server rfl
  apply Returns.check_bind (not_not.mpr hHeightCount)
  rw [hCount]
  -- The buckets visited so far have been replaced.
  have hLoop := @Returns.forM_range Exception Server server sent.length (storeBucket env sent)
    (fun i server' => Serving env server' (storeBuckets files (written.take i))) h (by
      intro i hLt server' hServing
      have hLt' : i < written.length := hDelivers.length_eq ▸ hLt
      obtain ⟨hIndex, hDecrypt⟩ := hDelivers.get hLt hLt'
      rw [List.get_eq_getElem, List.get_eq_getElem] at hIndex hDecrypt
      apply (recvItem_spec hLt).bind
      rintro ⟨index, payload⟩ server' ⟨hItem, rfl⟩
      rw [← hItem] at hIndex hDecrypt
      have hMem : written[i] ∈ written := List.getElem_mem hLt'
      have hNode : index.toNat ∈ env.nodes := by
        rw [show index = _ from hIndex]
        exact hIndices _ hMem
      apply Returns.ok_bind hDecrypt
      apply (writeBucketToDisk_spec hServing hNode (hRoom _ hMem)).mono
      intro _ server'' hNext
      rw [show index = _ from hIndex] at hNext
      rw [storeBuckets, List.take_add_one, List.getElem?_eq_getElem hLt', List.foldl_append]
      exact hNext)
  apply hLoop.bind
  intro _ server' hServing
  rw [List.take_of_length_le hDelivers.length_eq.ge] at hServing
  exact Returns.modify_bind (Returns.pure ⟨rfl, hServing.withStats _⟩)

end Requests

/-! The blocks of the tree, apart from the form in which the files hold them. -/
section Tree

variable {server : Server} {files : Nat → Option Bytes} {bucket : Nat → List Block}

theorem Holds.serving (h : Holds env server bucket) : Serving env server server.files :=
  ⟨h.running, h.treeDir, h.nodeCount, h.numNodes, rfl⟩

theorem Serving.holds (h : Serving env server files)
    (hFiles : ∀ b ∈ env.nodes, Contains files b (bucket b)) :
    Holds env server bucket :=
  ⟨h.running, h.treeDir, h.nodeCount, h.numNodes, fun b hb =>
    (congrFun h.files b).trans (hFiles b hb)⟩

/-- The tree after the buckets at `indices` have been replaced one by one. -/
def replaceBuckets (bucket : Nat → List Block) (written : List (UInt64 × List Block)) : Nat →
    List Block :=
  written.foldl (fun bucket write => Function.update bucket write.1.toNat write.2) bucket

/-- The places of the tree that a write request names. -/
def places (written : List (UInt64 × List Block)) : List (Nat × List Block) :=
  written.map fun write => (write.1.toNat, write.2)

variable {written : List (UInt64 × List Block)} {b : Nat}

theorem replaceBuckets_eq (bucket : Nat → List Block) (written : List (UInt64 × List Block)) :
    replaceBuckets bucket written = updateAll (fun _ blocks => blocks) bucket (places written) := by
  rw [updateAll, places, List.foldl_map]
  rfl

theorem storeBuckets_eq (files : Nat → Option Bytes) (written : List (UInt64 × List Block)) :
    storeBuckets files written =
      updateAll (fun _ blocks => some (serializeBucket (toBucket blocks))) files
        (places written) := by
  rw [updateAll, places, List.foldl_map]
  rfl

theorem map_fst_places (written : List (UInt64 × List Block)) :
    (places written).map Prod.fst = written.map fun write => write.1.toNat := List.map_map

theorem replaceBuckets_of_not_mem (h : b ∉ written.map fun write => write.1.toNat) :
    replaceBuckets bucket written b = bucket b := by
  rw [replaceBuckets_eq]
  exact updateAll_of_not_mem (map_fst_places written ▸ h)

theorem storeBuckets_of_not_mem (h : b ∉ written.map fun write => write.1.toNat) :
    storeBuckets files written b = files b := by
  rw [storeBuckets_eq]
  exact updateAll_of_not_mem (map_fst_places written ▸ h)

theorem map_toNat_zip {indices : List UInt64} {contents : List (List Block)}
    (hLength : indices.length = contents.length) :
    ((indices.zip contents).map fun write => write.1.toNat) = indices.map UInt64.toNat := by
  rw [← List.map_fst_zip hLength.le, List.map_map, List.map_fst_zip hLength.le]
  rfl

/-- On distinct indices every bucket that is written is found again. -/
theorem map_replaceBuckets {indices : List UInt64} {contents : List (List Block)}
    (hNodup : (indices.map UInt64.toNat).Nodup) (hLength : indices.length = contents.length) :
    (indices.map fun index => replaceBuckets bucket (indices.zip contents) index.toNat) =
      contents := by
  have hPlaces : ((places (indices.zip contents)).map Prod.fst).Nodup := by
    rwa [map_fst_places, map_toNat_zip hLength]
  apply List.ext_getElem
  · rw [List.length_map, hLength]
  · intro i hIndex hContent
    have hZip : i < (indices.zip contents).length := by
      rw [List.length_zip, hLength, Nat.min_self]
      exact hContent
    have hMem : (indices[i].toNat, contents[i]) ∈ places (indices.zip contents) := by
      refine List.mem_map.mpr ⟨(indices.zip contents)[i], List.getElem_mem hZip, ?_⟩
      rw [List.getElem_zip]
    rw [List.getElem_map]
    exact (congrFun (replaceBuckets_eq _ _) _).trans (updateAll_of_mem hPlaces hMem)

/-- A bucket is in the form of a file wherever it has been written, or was so before. -/
theorem contains_storeBuckets (h : b ∉ written.map (fun write => write.1.toNat) →
    Contains files b (bucket b)) :
    Contains (storeBuckets files written) b (replaceBuckets bucket written b) := by
  induction written generalizing files bucket with
  | nil => exact h List.not_mem_nil
  | cons write written ih =>
    apply @ih (Function.update files _ _) (Function.update bucket _ _)
    intro hRest
    rcases eq_or_ne b write.1.toNat with rfl | hNe
    · simp only [Contains, Function.update_self]
    · simp only [Contains, Function.update_of_ne hNe]
      exact h (List.not_mem_cons_of_ne_of_not_mem hNe hRest)

end Tree
end OramHub.PathOram
