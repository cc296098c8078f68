import Mathlib.Algebra.Group.Action.Defs
import Mathlib.Algebra.Order.BigOperators.Group.List
import OramHub.PathOram.Runs
import OramHub.PathOram.Wire

/-! # Batched requests

A path request has the effect of the single requests for its buckets, one after another. Both kinds
leave nothing on the wire, so requests of one kind may follow requests of the other in any order.
-/
namespace OramHub.PathOram
open OramHub.Core OramHub.Program
set_option autoImplicit false

/-- A use of one of the four request functions of the client. -/
inductive Transfer
  | readBucket (index : UInt64)
  | writeBucket (index : UInt64) (bucket : Bucket)
  | readPath (path : List UInt64)
  | writePath (path : List UInt64) (buckets : List Bucket)
  deriving DecidableEq, Repr

/-- An encrypted bucket that a vector can hold. -/
def Bucket.Sendable (bucket : Bucket) : Prop := payloadSize bucket.blocks ≤ vectorMaxSize

namespace Transfer

/-- What the function returns, as a list of buckets. -/
def perform (env : Env) : Transfer → PathM (List Bucket)
  | .readBucket index => do
    let bucket ← readBucketFromServer env index
    return [bucket]
  | .writeBucket index bucket => do
    writeBucketToServer env index bucket
    return []
  | .readPath path => readPathFromServer env path
  | .writePath path buckets => do
    writePathToServer env path buckets
    return []

def performAll (env : Env) : List Transfer → PathM (List Bucket)
  | [] => return []
  | transfer :: transfers => do
    let buckets ← transfer.perform env
    let rest ← performAll env transfers
    return buckets ++ rest

/-- The single requests that a path request stands for. -/
def singles : Transfer → List Transfer
  | .readPath path => path.map .readBucket
  | .writePath path buckets => (path.zip buckets).map fun write => .writeBucket write.1 write.2
  | transfer => [transfer]

def Valid (env : Env) : Transfer → Prop
  | .readBucket index => index.toNat ∈ env.nodes
  | .writeBucket index bucket => index.toNat ∈ env.nodes ∧ bucket.Sendable
  | .readPath path => Batch env path
  | .writePath path buckets =>
    Batch env path ∧ path.length = buckets.length ∧ ∀ bucket ∈ buckets, bucket.Sendable

def read : Transfer → List UInt64
  | .readBucket index => [index]
  | .readPath path => path
  | _ => []

def written : Transfer → List (UInt64 × List Block)
  | .writeBucket index bucket => [(index, received bucket)]
  | .writePath path buckets => path.zip (buckets.map received)
  | _ => []

/-- What a sequence of transfers returns on a tree with these buckets. -/
def answers (bucket : Nat → List Block) : List Transfer → List Bucket
  | [] => []
  | transfer :: transfers => transfer.read.map (fun index => toBucket (bucket index.toNat)) ++
    answers (replaceBuckets bucket transfer.written) transfers

end Transfer

/-- Bucket files that hold these blocks and can be sent. -/
structure Stocked (env : Env) (files : Nat → Option Bytes) (bucket : Nat → List Block) : Prop where
  contains : ∀ b ∈ env.nodes, Contains files b (bucket b)
  room : ∀ b ∈ env.nodes, (bucket b).length ≤ kBucketSize
  sendable : ∀ b ∈ env.nodes, (toBucket (bucket b)).Sendable

/-- The server listens, and its tree holds a bucket at every node. -/
def Initialised (env : Env) (server : Server) : Prop :=
  Serving env server server.files ∧ ∃ bucket, Stocked env server.files bucket

/-- All that has been sent on the way from `w` to `w'` has been read, on both sides. -/
def Drained (env : Env) (w w' : World) : Prop :=
  ∃ events, w'.log = w.log ++ events ∧ Aligned env w.server events w'.server

open OramHub.PathOram.Transfer in
/-- Whatever is sent in batches may be sent bucket by bucket instead. -/
structure BatchesAgree (env : Env) (w : World) : Prop where
  reads : ∀ path, Batch env path → ∃ buckets w₁ w₂,
    (readPathFromServer env path).run w = .ok buckets w₁ ∧
    (path.mapM (readBucketFromServer env)).run w = .ok buckets w₂ ∧
    w₁.server.files = w.server.files ∧ w₂.server.files = w.server.files ∧
    Drained env w w₁ ∧ Drained env w w₂
  writes : ∀ path buckets, Batch env path → path.length = buckets.length →
    (∀ bucket ∈ buckets, bucket.Sendable) → ∃ w₁ w₂,
    (writePathToServer env path buckets).run w = .ok () w₁ ∧
    (forM (path.zip buckets) fun write => writeBucketToServer env write.1 write.2).run w =
      .ok () w₂ ∧
    w₁.server.files = w₂.server.files ∧ Drained env w w₁ ∧ Drained env w w₂
  mixed : ∀ transfers : List Transfer, (∀ transfer ∈ transfers, transfer.Valid env) →
    ∃ buckets w₁ w₂,
    (performAll env transfers).run w = .ok buckets w₁ ∧
    (performAll env (transfers.flatMap singles)).run w = .ok buckets w₂ ∧
    w₁.server.files = w₂.server.files ∧ Drained env w w₁ ∧ Drained env w w₂

variable {env : Env} {w w' : World} {files : Nat → Option Bytes} {bucket : Nat → List Block}
  {transfer : Transfer}
  {transfers : List Transfer}

section Sizes

theorem payloadSize_append (blocks blocks' : List Block) :
    payloadSize (blocks ++ blocks') = payloadSize blocks +
      (blocks'.map fun block => 16 + block.data.length).sum := by
  rw [payloadSize, payloadSize, List.map_append, List.sum_append, Nat.add_assoc]

theorem Bucket.Sendable.encodable {bucket : Bucket} (h : bucket.Sendable) : bucket.Encodable := by
  have hSize : vectorMaxSize < 2 ^ 64 := by decide
  have hTotal : 24 + (bucket.blocks.map fun block => 16 + block.data.length).sum ≤
      vectorMaxSize := h
  constructor
  case count =>
    have hPositive : ∀ size ∈ bucket.blocks.map fun block => 16 + block.data.length, 1 ≤ size := by
      intro size hMem
      obtain ⟨block, _, rfl⟩ := List.mem_map.mp hMem
      omega
    have hCount := List.length_le_sum_of_one_le _ hPositive
    rw [List.length_map] at hCount
    omega
  case sized =>
    intro block hBlock
    have hLe := List.le_sum_of_mem
      (List.mem_map_of_mem (f := fun block : Block => 16 + block.data.length) hBlock)
    unfold Block.Sized
    omega

theorem Bucket.Sendable.received {bucket : Bucket} (h : bucket.Sendable) :
    (toBucket (received bucket)).Sendable := by
  have hSplit := payloadSize_append (bucket.blocks.take kBucketSize)
    (bucket.blocks.drop kBucketSize)
  rw [List.take_append_drop] at hSplit
  have hTotal : payloadSize bucket.blocks ≤ vectorMaxSize := h
  change payloadSize (bucket.blocks.take kBucketSize) ≤ vectorMaxSize
  omega

end Sizes

section Trees

theorem storeBuckets_append (files : Nat → Option Bytes)
    (written written' : List (UInt64 × List Block)) :
    storeBuckets files (written ++ written') = storeBuckets (storeBuckets files written) written' :=
  List.foldl_append

theorem replaceBuckets_append (bucket : Nat → List Block)
    (written written' : List (UInt64 × List Block)) :
    replaceBuckets bucket (written ++ written') =
      replaceBuckets (replaceBuckets bucket written) written' :=
  List.foldl_append

/-- Every bucket of the new tree is an old one or one that has been written. -/
theorem replaceBuckets_keeps {keeps : List Block → Prop}
    {written : List (UInt64 × List Block)} {b : Nat}
    (hOld : keeps (bucket b)) (hNew : ∀ write ∈ written, keeps write.2) :
    keeps (replaceBuckets bucket written b) := by
  induction written generalizing bucket with
  | nil => exact hOld
  | cons write written ih =>
    refine @ih (Function.update bucket _ _) ?_ fun other hOther =>
      hNew other (List.mem_cons_of_mem _ hOther)
    rcases eq_or_ne b write.1.toNat with rfl | hNe
    · rw [Function.update_self]
      exact hNew write List.mem_cons_self
    · rwa [Function.update_of_ne hNe]

theorem Stocked.fits (h : Stocked env files bucket) {b : Nat}
    (hb : b ∈ env.nodes) : Fits (bucket b) :=
  ⟨h.room b hb, (h.sendable b hb).encodable.sized⟩

theorem Stocked.legible (h : Stocked env files bucket) {b : Nat}
    (hb : b ∈ env.nodes) {payload : Bytes}
    (hOpens : Opens env payload (bucket b)) : Legible env payload :=
  ⟨hOpens.length ▸ h.sendable b hb, _, hOpens.decrypt⟩

theorem Stocked.store (h : Stocked env files bucket) {written : List (UInt64 × List Block)}
    (hWritten : ∀ write ∈ written, write.2.length ≤ kBucketSize ∧ (toBucket write.2).Sendable) :
    Stocked env (storeBuckets files written) (replaceBuckets bucket written) := by
  constructor
  case contains => exact fun b hb => contains_storeBuckets fun _ => h.contains b hb
  case room =>
    intro b hb
    apply @replaceBuckets_keeps _ (fun blocks => blocks.length ≤ kBucketSize)
    · exact h.room b hb
    · exact fun write hWrite => (hWritten write hWrite).1
  case sendable =>
    intro b hb
    apply @replaceBuckets_keeps _ (fun blocks => (toBucket blocks).Sendable)
    · exact h.sendable b hb
    · exact fun write hWrite => (hWritten write hWrite).2

end Trees

section Transfers

/-- Some transmissible messages, and nothing else, have been exchanged. -/
def Transmitted (env : Env) (w w' : World) : Prop :=
  ∃ events, Exchanged env w events w' ∧ ∀ event ∈ events, event.Transmissible env

theorem Transmitted.trans {w'' : World} (h : Transmitted env w w')
    (hNext : Transmitted env w' w'') :
    Transmitted env w w'' := by
  obtain ⟨events, hExchanged, hEvents⟩ := h
  obtain ⟨events', hExchanged', hEvents'⟩ := hNext
  refine ⟨events ++ events', hExchanged.trans hExchanged', fun event hEvent => ?_⟩
  obtain hOld | hNew := List.mem_append.mp hEvent
  · exact hEvents event hOld
  · exact hEvents' event hNew

theorem Transmitted.single {event : Event} (h : Exchanged env w [event] w')
    (hEvent : event.Transmissible env) :
    Transmitted env w w' :=
  ⟨[event], h, fun _ hMem => List.mem_singleton.mp hMem ▸ hEvent⟩

theorem Transmitted.drained (h : Transmitted env w w') : Drained env w w' := by
  obtain ⟨events, hExchanged, hEvents⟩ := h
  obtain ⟨ivs, hWorld⟩ := hExchanged.world
  exact ⟨events, congrArg World.log hWorld, hExchanged.conversation.aligned hEvents⟩

theorem written_of_valid (h : transfer.Valid env) {write : UInt64 × List Block}
    (hWrite : write ∈ transfer.written) :
    write.2.length ≤ kBucketSize ∧ (toBucket write.2).Sendable := by
  cases transfer with
  | readBucket index => cases hWrite
  | readPath path => cases hWrite
  | writeBucket index bucket =>
    rw [List.mem_singleton.mp hWrite]
    exact ⟨length_received bucket, h.2.received⟩
  | writePath path buckets =>
    obtain ⟨bucket, hBucket, hBlocks⟩ := List.mem_map.mp (List.of_mem_zip hWrite).2
    rw [← hBlocks]
    exact ⟨length_received bucket, (h.2.2 bucket hBucket).received⟩

theorem Encloses.length_le {payload : Bytes} {sealed : Bucket} (h : Encloses env payload sealed)
    (hSendable : sealed.Sendable) : payload.length ≤ vectorMaxSize := h.length ▸ hSendable

theorem perform_spec (h : Serving env w.server files) (hTree : Stocked env files bucket)
    (hValid : transfer.Valid env) :
    Returns (transfer.perform env) w fun results w' =>
      results = transfer.read.map (fun index => toBucket (bucket index.toNat)) ∧
        Serving env w'.server (storeBuckets files transfer.written) ∧ Transmitted env w w' := by
  cases transfer with
  | readBucket index =>
    have hIndex : index.toNat ∈ env.nodes := hValid
    apply (readBucketFromServer_run h hIndex (hTree.contains _ hIndex) (hTree.fits hIndex)).bind
    rintro _ w' ⟨rfl, hServing, payload, hOpens, hExchanged⟩
    exact Returns.pure ⟨rfl, hServing, .single hExchanged ⟨trivial, hTree.legible hIndex hOpens⟩⟩
  | writeBucket index bucket =>
    apply (writeBucketToServer_run h hValid.1 hValid.2.encodable).bind
    rintro _ w' ⟨hServing, payload, hEncloses, hExchanged⟩
    exact Returns.pure ⟨rfl, hServing, .single hExchanged ⟨hEncloses.length_le hValid.2, trivial⟩⟩
  | readPath path =>
    have hBatch : Batch env path := hValid
    have hCount : (UInt64.ofNat path.length).toNat = path.length := (h.count hBatch.length).1
    refine (readPathFromServer_run h hBatch fun index hIndex =>
      ⟨hTree.contains _ (hBatch.nodes index hIndex),
        hTree.fits (hBatch.nodes index hIndex)⟩).mono ?_
    rintro _ w' ⟨rfl, hServing, payloads, hPayloads, hExchanged⟩
    refine ⟨rfl, hServing,
      .single hExchanged ⟨hCount, rfl, hCount.trans hPayloads.length_eq.symm, ?_⟩⟩
    intro payload hPayload
    obtain ⟨i, hi, rfl⟩ := List.getElem_of_mem hPayload
    exact hTree.legible (hBatch.nodes _ (List.get_mem _ _))
      (hPayloads.get hi (hPayloads.length_eq ▸ hi))
  | writePath path buckets =>
    obtain ⟨hBatch, hLength, hSendable⟩ := hValid
    have hCount : (UInt64.ofNat path.length).toNat = path.length := (h.count hBatch.length).1
    refine (writePathToServer_run h hBatch hLength fun bucket hBucket =>
      (hSendable bucket hBucket).encodable).bind ?_
    rintro _ w' ⟨hServing, payloads, hPayloads, hExchanged⟩
    have hItems : (path.zip payloads).length = path.length := by
      rw [List.length_zip, hPayloads.length_eq, hLength, Nat.min_self]
    refine Returns.pure ⟨rfl, hServing,
      .single hExchanged ⟨⟨hCount.trans hItems.symm, ?_⟩, trivial⟩⟩
    intro item hItem
    obtain ⟨i, hi, hPayload⟩ := List.getElem_of_mem (List.of_mem_zip hItem).2
    rw [← hPayload]
    exact (hPayloads.get hi (hPayloads.length_eq ▸ hi)).length_le (hSendable _ (List.get_mem _ _))

theorem performAll_spec (h : Serving env w.server files) (hTree : Stocked env files bucket)
    (hValid : ∀ transfer ∈ transfers, transfer.Valid env) :
    Returns (Transfer.performAll env transfers) w fun results w' =>
      results = Transfer.answers bucket transfers ∧
      Serving env w'.server (storeBuckets files (transfers.flatMap Transfer.written)) ∧
      Transmitted env w w' := by
  induction transfers generalizing w files bucket with
  | nil =>
    exact Returns.pure ⟨rfl, h, [], Exchanged.withIvs w w.ivs, fun _ hEvent =>
      absurd hEvent List.not_mem_nil⟩
  | cons transfer transfers ih =>
    have hHead := hValid transfer List.mem_cons_self
    apply (perform_spec h hTree hHead).bind
    rintro _ middle ⟨rfl, hServing, hTransmitted⟩
    have hStored := hTree.store fun write hWrite => written_of_valid hHead hWrite
    refine (ih hServing hStored fun other hOther =>
      hValid other (List.mem_cons_of_mem _ hOther)).bind ?_
    rintro _ w' ⟨rfl, hFinal, hNext⟩
    refine Returns.pure ⟨rfl, ?_, hTransmitted.trans hNext⟩
    rwa [List.flatMap_cons, storeBuckets_append]

end Transfers

/-! A path request and its single requests read and write the same buckets in the same order. -/
section Singles

open OramHub.PathOram.Transfer

theorem answers_append (bucket : Nat → List Block) (transfers transfers' : List Transfer) :
    answers bucket (transfers ++ transfers') =
      answers bucket transfers ++
        answers (replaceBuckets bucket (transfers.flatMap written)) transfers' := by
  induction transfers generalizing bucket with
  | nil => rfl
  | cons transfer transfers ih =>
    rw [List.cons_append, answers, ih, answers, List.append_assoc, List.flatMap_cons,
      replaceBuckets_append]

theorem written_singles (transfer : Transfer) :
    transfer.singles.flatMap written = transfer.written := by
  cases transfer with
  | readBucket index => rfl
  | writeBucket index bucket => rfl
  | readPath path =>
    rw [singles, List.flatMap_map]
    exact List.flatMap_eq_nil_iff.mpr fun _ _ => rfl
  | writePath path buckets =>
    rw [singles, List.flatMap_map, written, List.zip_map_right]
    exact List.flatMap_pure_eq_map _ _

theorem answers_singles (bucket : Nat → List Block) (transfer : Transfer) :
    answers bucket transfer.singles = transfer.read.map fun index =>
      toBucket (bucket index.toNat) := by
  cases transfer with
  | readBucket index => rfl
  | writeBucket index bucket => rfl
  | readPath path =>
    rw [singles, Transfer.read]
    induction path with
    | nil => rfl
    | cons index path ih => exact congrArg (List.cons _) ih
  | writePath path buckets =>
    rw [singles]
    generalize path.zip buckets = writes
    induction writes generalizing bucket with
    | nil => rfl
    | cons write writes ih => exact ih _

theorem answers_flatMap_singles (bucket : Nat → List Block) (transfers : List Transfer) :
    answers bucket (transfers.flatMap singles) = answers bucket transfers := by
  induction transfers generalizing bucket with
  | nil => rfl
  | cons transfer transfers ih =>
    rw [List.flatMap_cons, answers_append, answers_singles, written_singles, ih, answers]

theorem valid_singles (h : transfer.Valid env) {single : Transfer}
    (hSingle : single ∈ transfer.singles) :
    single.Valid env := by
  cases transfer with
  | readBucket index => exact List.mem_singleton.mp hSingle ▸ h
  | writeBucket index bucket => exact List.mem_singleton.mp hSingle ▸ h
  | readPath path =>
    obtain ⟨index, hIndex, rfl⟩ := List.mem_map.mp hSingle
    exact Batch.nodes h index hIndex
  | writePath path buckets =>
    obtain ⟨write, hWrite, rfl⟩ := List.mem_map.mp hSingle
    exact ⟨h.1.nodes _ (List.of_mem_zip hWrite).1, h.2.2 _ (List.of_mem_zip hWrite).2⟩

theorem performAll_readPath (env : Env) (path : List UInt64) :
    performAll env [.readPath path] = readPathFromServer env path := by
  simp [performAll, perform]

theorem performAll_readBuckets (env : Env) (path : List UInt64) :
    performAll env (path.map .readBucket) = path.mapM (readBucketFromServer env) := by
  induction path with
  | nil => rfl
  | cons index path ih =>
    rw [List.map_cons, performAll, ih, List.mapM_cons]
    simp [perform]

theorem performAll_writePath (env : Env) (path : List UInt64) (buckets : List Bucket) :
    performAll env [.writePath path buckets] = writePathToServer env path buckets >>=
    fun _ => pure [] := by
  simp [performAll, perform]

theorem performAll_writeBuckets (env : Env) (writes : List (UInt64 × Bucket)) :
    performAll env (writes.map fun write => .writeBucket write.1 write.2) =
      (forM writes fun write => writeBucketToServer env write.1 write.2) >>= fun _ => pure [] := by
  induction writes with
  | nil => rfl
  | cons write writes ih =>
    rw [List.map_cons, performAll, ih, List.forM_cons]
    simp [perform]

/-- Both runs return what the tree holds and leave the files that the writes leave. -/
theorem runs_agree (h : Initialised env w.server)
    (hValid : ∀ transfer ∈ transfers, transfer.Valid env) : ∃ buckets w₁ w₂,
    (performAll env transfers).run w = .ok buckets w₁ ∧
    (performAll env (transfers.flatMap singles)).run w = .ok buckets w₂ ∧
    w₁.server.files = storeBuckets w.server.files (transfers.flatMap written) ∧
    w₂.server.files = storeBuckets w.server.files (transfers.flatMap written) ∧ Drained env w w₁ ∧
    Drained env w w₂ := by
  obtain ⟨hServing, bucket, hTree⟩ := h
  have hSingles : ∀ single ∈ transfers.flatMap singles, single.Valid env := by
    intro single hSingle
    obtain ⟨transfer, hTransfer, hMem⟩ := List.mem_flatMap.mp hSingle
    exact valid_singles (hValid transfer hTransfer) hMem
  have hWritten : (transfers.flatMap singles).flatMap written = transfers.flatMap written := by
    rw [List.flatMap_assoc]
    exact List.flatMap_congr fun transfer _ => written_singles transfer
  obtain ⟨_, w₁, hRun₁, rfl, hFinal₁, hTransmitted₁⟩ :=
    returns_iff.mp (performAll_spec hServing hTree hValid)
  obtain ⟨_, w₂, hRun₂, rfl, hFinal₂, hTransmitted₂⟩ :=
    returns_iff.mp (performAll_spec hServing hTree hSingles)
  rw [answers_flatMap_singles] at hRun₂
  rw [hWritten] at hFinal₂
  exact ⟨_, w₁, w₂, hRun₁, hRun₂, hFinal₁.files, hFinal₂.files, hTransmitted₁.drained,
    hTransmitted₂.drained⟩

/-- On every initialised tree a path request does what its single requests do, and nothing is left
on the wire. -/
theorem batches_agree (h : Initialised env w.server) : BatchesAgree env w := by
  constructor
  case reads =>
    intro path hBatch
    have hValid : ∀ transfer ∈ [Transfer.readPath path], transfer.Valid env :=
      fun transfer hTransfer => List.mem_singleton.mp hTransfer ▸ hBatch
    obtain ⟨buckets, w₁, w₂, hRun₁, hRun₂, hRest⟩ := runs_agree h hValid
    rw [performAll_readPath] at hRun₁
    rw [List.flatMap_singleton, singles, performAll_readBuckets] at hRun₂
    exact ⟨buckets, w₁, w₂, hRun₁, hRun₂, hRest⟩
  case writes =>
    intro path buckets hBatch hLength hSendable
    have hValid : ∀ transfer ∈ [Transfer.writePath path buckets], transfer.Valid env :=
      fun transfer hTransfer => List.mem_singleton.mp hTransfer ▸ ⟨hBatch, hLength, hSendable⟩
    obtain ⟨_, w₁, w₂, hRun₁, hRun₂, hFiles₁, hFiles₂, hDrained⟩ := runs_agree h hValid
    rw [performAll_writePath] at hRun₁
    rw [List.flatMap_singleton, singles, performAll_writeBuckets] at hRun₂
    obtain ⟨_, _, hWrite₁, hReturn₁⟩ := run_bind_eq_ok hRun₁
    obtain ⟨_, _, hWrite₂, hReturn₂⟩ := run_bind_eq_ok hRun₂
    cases hReturn₁
    cases hReturn₂
    exact ⟨w₁, w₂, hWrite₁, hWrite₂, hFiles₁.trans hFiles₂.symm, hDrained⟩
  case mixed =>
    intro transfers hValid
    obtain ⟨buckets, w₁, w₂, hRun₁, hRun₂, hFiles₁, hFiles₂, hDrained⟩ := runs_agree h hValid
    exact ⟨buckets, w₁, w₂, hRun₁, hRun₂, hFiles₁.trans hFiles₂.symm, hDrained⟩

end Singles

section Initial

theorem sendable_of_data_le {blocks : List Block} (hRoom : blocks.length ≤ kBucketSize)
    (hData : ∀ block ∈ blocks, block.data.length ≤ 2 ^ 60) : (toBucket blocks).Sendable := by
  have hSizes : ∀ size ∈ blocks.map fun block => 16 + block.data.length, size ≤ 16 + 2 ^ 60 := by
    intro size hMem
    obtain ⟨block, hBlock, rfl⟩ := List.mem_map.mp hMem
    exact Nat.add_le_add_left (hData block hBlock) 16
  have hSum := List.sum_le_card_nsmul _ _ hSizes
  rw [List.length_map, smul_eq_mul] at hSum
  have hFour : kBucketSize = 4 := rfl
  have hMax : vectorMaxSize = 2 ^ 63 - 1 := rfl
  change 24 + (blocks.map fun block => 16 + block.data.length).sum ≤ vectorMaxSize
  omega

theorem Ready.initialised {blocks : List Block} (h : Ready env blocks w bucket)
    (hData : ∀ block ∈ blocks, block.data.length ≤ 2 ^ 60) : Initialised env w.server := by
  refine ⟨h.stored.tree.serving, bucket, h.stored.tree.files, fun b hb =>
    (h.tree b hb).length.le, fun b hb => ?_⟩
  apply sendable_of_data_le (h.tree b hb).length.le
  intro block hBlock
  obtain hPlaced | hDummy := (h.tree b hb).mem hBlock
  · exact hData block (List.mem_of_getElem? (mem_of_mem_placedBlocks hPlaced).2)
  · rw [hDummy.2]
    decide

theorem batches_agree_small : ∃ w, (setUp .small smallBlocks (some [1, 0, 1])).run {} = .ok () w ∧
    ∃ buckets w₁ w₂,
      (Transfer.performAll .small [.readPath [2, 2], .writeBucket 0 (toBucket [⟨7, [1]⟩])]).run w =
        .ok buckets w₁ ∧
      (Transfer.performAll .small [.readBucket 2, .readBucket 2,
        .writeBucket 0 (toBucket [⟨7, [1]⟩])]).run w =
        .ok buckets w₂ ∧
      w₁.server.files = w₂.server.files ∧ Drained .small w w₁ ∧ Drained .small w w₂ := by
  obtain ⟨w, hSetUp, _⟩ := exists_setUp_small
  obtain ⟨⟨bucket, hReady⟩, _, _⟩ := setUp_spec.post_of_run hSetUp
  have hData : ∀ block ∈ smallBlocks, block.data.length ≤ 2 ^ 60 := by simp [smallBlocks]
  refine ⟨w, hSetUp, (batches_agree (hReady.initialised hData)).mixed _ ?_⟩
  intro transfer hTransfer
  obtain rfl | hLast := List.mem_cons.mp hTransfer
  · refine ⟨rfl, fun index hIndex => ?_⟩
    obtain rfl : index = 2 := by simpa using hIndex
    decide
  · rw [List.mem_singleton.mp hLast]
    exact ⟨by decide, by simp [Bucket.Sendable, payloadSize, toBucket, vectorMaxSize]⟩

end Initial
end OramHub.PathOram
