import OramHub.PathOram.Runs

/-! # Buckets come back as they were stored

A bucket is serialized and encrypted on either side of the connection and serialized once more for
its file. Together the encoders and decoders are the identity, on single buckets and on whole paths.
-/
namespace OramHub.PathOram
open OramHub.Core OramHub.Program
set_option autoImplicit false

/-- A bucket on its way from the client to the disk of the server and back. -/
def storeAndLoad (env : Env) (index : UInt64) (bucket : Bucket) : PathM Bucket := do
  let sent ← encryptBucket env bucket
  let decrypted ← fromExcept (decryptBucket env sent)
  withServer (writeBucketToDisk index decrypted)
  let stored ← withServer (readBucketFromDisk index)
  let answer ← withServer (Server.encryptBucket env stored)
  fromExcept (decryptBucket env answer)

def writeAndReadPath (env : Env) (path : List UInt64)
    (buckets : List Bucket) : PathM (List Bucket) := do
  writePathToServer env path buckets
  readPathFromServer env path

/-- As many buckets of the tree as lie on a path, each of them once. -/
structure IsPath (env : Env) (path : List UInt64) : Prop extends Batch env path where
  nodup : path.Nodup

/-- Whatever the IVs are, every bucket survives its way through the server. -/
structure BucketsSurvive (env : Env) (w : World) : Prop where
  bucket : ∀ (index : UInt64) (bucket : Bucket), index.toNat ∈ env.nodes → Fits bucket.blocks →
    Returns (storeAndLoad env index bucket) w fun result _ => result = toBucket bucket.blocks
  path : ∀ (path : List UInt64) (buckets : List Bucket), IsPath env path →
    buckets.length = path.length →
    (∀ bucket ∈ buckets, Fits bucket.blocks) →
    Returns (writeAndReadPath env path buckets) w fun results w' =>
      results = buckets.map (fun bucket => toBucket bucket.blocks) ∧
        ∀ b, b ∉ path.map UInt64.toNat → w'.server.files b = w.server.files b

variable {env : Env} {w : World} {files : Nat → Option Bytes} {index leaf : UInt64}
  {bucket : Bucket} {path : List UInt64}
  {buckets : List Bucket}

theorem isPath_indices (hHeight : env.height < 63) (hLeaf : leaf.toNat < 2 ^ env.height) :
    IsPath env (env.indices leaf) := by
  refine ⟨batch_indices hHeight hLeaf, ?_⟩
  apply List.Nodup.of_map UInt64.toNat
  rw [map_toNat_indices hHeight hLeaf]
  exact nodup_path hLeaf

theorem IsPath.nodup_map (h : IsPath env path) : (path.map UInt64.toNat).Nodup :=
  h.nodup.map fun _ _ hEq => UInt64.toNat_inj.mp hEq

theorem storeAndLoad_spec (h : Serving env w.server files) (hIndex : index.toNat ∈ env.nodes)
    (hFits : Fits bucket.blocks) :
    Returns (storeAndLoad env index bucket) w fun result _ => result = toBucket bucket.blocks := by
  apply (encryptBucket_spec hFits.encodable).bind
  intro sent middle ⟨hEncloses, hSealed⟩
  have hServing : Serving env middle.server files := hSealed.server_eq ▸ h
  have hDecrypt := hEncloses.decrypt
  rw [received_of_fits hFits] at hDecrypt
  refine Returns.ok_bind hDecrypt
    (Returns.zoom_bind (writeBucketToDisk_spec hServing hIndex hFits.room) ?_)
  intro _ server hStored
  have hFile : Contains (storeBuckets files [(index, bucket.blocks)]) index.toNat bucket.blocks :=
    Function.update_self _ _ _
  apply Returns.zoom_bind (readBucketFromDisk_spec hStored hIndex hFile hFits)
  rintro _ _ ⟨rfl, rfl⟩
  apply Returns.zoom_bind (Server.encryptBucket_spec _ hFits)
  rintro answer _ ⟨hOpens, _⟩
  exact Returns.fromExcept hOpens.decrypt rfl

theorem writeAndReadPath_spec (h : Serving env w.server files) (hPath : IsPath env path)
    (hLength : buckets.length = path.length) (hFits : ∀ bucket ∈ buckets, Fits bucket.blocks) :
    Returns (writeAndReadPath env path buckets) w fun results w' =>
      results = buckets.map (fun bucket => toBucket bucket.blocks) ∧
        ∀ b, b ∉ path.map UInt64.toNat → w'.server.files b = files b := by
  have hReceived : buckets.map received = buckets.map Bucket.blocks :=
    List.map_congr_left fun bucket hBucket => received_of_fits (hFits bucket hBucket)
  have hSame : path.length = (buckets.map Bucket.blocks).length := by rw [List.length_map, hLength]
  have hBuckets : ∀ bucket ∈ buckets, bucket.Encodable :=
    fun bucket hBucket => (hFits bucket hBucket).encodable
  apply (writePathToServer_run h hPath.toBatch hLength.symm hBuckets).bind
  rintro _ middle ⟨hServing, -⟩
  rw [hReceived] at hServing
  -- Every bucket of the path has just been written, so what its file held before does not matter.
  let content := replaceBuckets (fun _ => []) (path.zip (buckets.map Bucket.blocks))
  have hContent : path.map (fun index => content index.toNat) = buckets.map Bucket.blocks :=
    map_replaceBuckets hPath.nodup_map hSame
  have hFiles : ∀ index ∈ path,
      Contains (storeBuckets files (path.zip (buckets.map Bucket.blocks))) index.toNat
      (content index.toNat) ∧ Fits (content index.toNat) := by
    intro index hIndex
    constructor
    · apply contains_storeBuckets
      rw [map_toNat_zip hSame]
      exact fun hNot => absurd (List.mem_map_of_mem hIndex) hNot
    · have hMem : content index.toNat ∈ buckets.map Bucket.blocks :=
        hContent ▸ List.mem_map_of_mem hIndex
      obtain ⟨bucket, hBucket, hBlocks⟩ := List.mem_map.mp hMem
      exact hBlocks ▸ hFits bucket hBucket
  apply (readPathFromServer_run hServing hPath.toBatch hFiles).mono
  rintro _ w' ⟨rfl, hFinal, -⟩
  constructor
  · have hMap := congrArg (List.map toBucket) hContent
    rwa [List.map_map, List.map_map] at hMap
  · intro b hb
    rw [hFinal.files]
    apply storeBuckets_of_not_mem
    rwa [map_toNat_zip hSame]

theorem buckets_survive (h : Serving env w.server files) : BucketsSurvive env w := by
  constructor
  case bucket => exact fun index bucket hIndex hFits => storeAndLoad_spec h hIndex hFits
  case path =>
    intro path buckets hPath hLength hFits
    have hRun := writeAndReadPath_spec h hPath hLength hFits
    rwa [← h.files] at hRun

/-- Two blocks of different lengths, one of them empty. -/
def unevenBucket : Bucket := { capacity := 9, blocks := [⟨3, [1, 2]⟩, ⟨kDummyId, []⟩] }

theorem buckets_survive_small : ∃ w, (setUp .small smallBlocks (some [1, 0, 1])).run {} = .ok () w ∧
    Returns (storeAndLoad .small 1 unevenBucket) w (fun result _ =>
      result = toBucket unevenBucket.blocks) ∧
    Returns (writeAndReadPath .small (Env.small.indices 1) [unevenBucket, { capacity := 4 }]) w
      fun results w' =>
      results = [toBucket unevenBucket.blocks, toBucket []] ∧
        ∀ b, b ∉ (Env.small.indices 1).map UInt64.toNat → w'.server.files b = w.server.files b := by
  obtain ⟨w, hSetUp, _⟩ := exists_setUp_small
  obtain ⟨⟨bucket, hReady⟩, _, _⟩ := setUp_spec.post_of_run hSetUp
  have hSurvive := buckets_survive hReady.stored.tree.serving
  have hUneven : Fits unevenBucket.blocks := by
    constructor
    · decide
    · simp [unevenBucket, Block.Sized]
  refine ⟨w, hSetUp, hSurvive.bucket 1 unevenBucket (by decide) hUneven, ?_⟩
  apply hSurvive.path _ [unevenBucket, { capacity := 4 }]
    (isPath_indices (by decide) (by decide)) rfl
  intro other hOther
  obtain rfl | hEmpty := List.mem_cons.mp hOther
  · exact hUneven
  · rw [List.mem_singleton.mp hEmpty]
    exact ⟨by decide, fun block hBlock => absurd hBlock List.not_mem_nil⟩

end OramHub.PathOram
