import OramHub.Lib.Preservation
import OramHub.RingOram.Handlers
import OramHub.RingOram.Runs

/-! # The history of a connection

The log of every session is a sequence of answered requests, each of the form that the client sends.
What an operation does to the connection, it does through `roundTrip`.
-/
namespace OramHub.RingOram
open OramHub.Core OramHub.Program
set_option autoImplicit false

section Requests

/-- The bytes of a bucket that has not been read from. -/
def FreshBucket (cfg : RuntimeConfig) (bytes : Bytes) : Prop :=
  ∃ bucket, bucket.Held ∧ serializeEncryptedRingBucket bucket = .ok bytes ∧ bucket.count = 0 ∧
    bucket.valids = List.replicate cfg.bucketSlots.toNat true

/-- What a client sends. -/
def Request.Sent (cfg : RuntimeConfig) : Request → Prop
  | .init nodeCount buckets =>
    nodeCount.toNat = buckets.length ∧ ∀ bytes ∈ buckets, FreshBucket cfg bytes
  | .xorPathSlots _ offsetCount offsets => offsetCount.toNat = offsets.length
  | .writeBucket _ bytes => FreshBucket cfg bytes
  | .readPathMetadata _ => True
  | .readBucket _ => True
  | .readBucketCount _ => True
  | .readStats => True

/-- The requests that a server has answered, in order, on its way from `start`. -/
inductive History (cfg : RuntimeConfig) (start : Server) : List Event → Server → Prop
  | nil : History cfg start [] start
  | snoc {log : List Event} {event : Event} {server server' : Server} :
    History cfg start log server →
      event.request.Sent cfg →
      (handleRequest cfg event.request).run server = .ok event.response server' →
      event.files = server'.files → History cfg start (log ++ [event]) server'

end Requests

section Splitting

variable {cfg : RuntimeConfig} {start server : Server} {log : List Event}

theorem History.split {before after : List Event} {event : Event}
    (h : History cfg start log server) (hLog : log = before ++ event :: after) :
    ∃ middle server', History cfg start before middle ∧
      event.request.Sent cfg ∧
      (handleRequest cfg event.request).run middle = .ok event.response server' ∧
      event.files = server'.files := by
  induction h generalizing after with
  | nil => exact absurd hLog (by simp)
  | @snoc log last middle server' hHistory hSent hRun hFiles ih =>
    rcases List.eq_nil_or_concat after with rfl | ⟨rest, other, rfl⟩
    · obtain ⟨rfl, hLast⟩ := List.append_inj' hLog rfl
      cases hLast
      exact ⟨middle, server', hHistory, hSent, hRun, hFiles⟩
    · rw [List.concat_eq_append, ← List.cons_append, ← List.append_assoc] at hLog
      obtain ⟨rfl, _⟩ := List.append_inj' hLog rfl
      exact ih rfl

theorem History.beginning {before after : List Event} (h : History cfg start log server)
    (hLog : log = before ++ after) :
    ∃ middle, History cfg start before middle := by
  cases after with
  | nil =>
    rw [List.append_nil] at hLog
    exact ⟨server, hLog ▸ h⟩
  | cons event after =>
    obtain ⟨middle, _, hBefore, _⟩ := h.split hLog
    exact ⟨middle, hBefore⟩

theorem History.files_eq {event : Event} (h : History cfg start (log ++ [event]) server) :
    event.files = server.files := by
  generalize hLog : log ++ [event] = whole at h
  cases h with
  | nil => exact absurd hLog (by simp)
  | snoc _ _ _ hFiles =>
    cases (List.append_inj' hLog rfl).2
    exact hFiles

end Splitting

variable {α β : Type} {env : Env} {inv : World → Prop}

/-- Only the connection matters to `inv`. -/
def OfConnection (inv : World → Prop) : Prop :=
  ∀ w w' : World, w'.server = w.server → w'.log = w.log → inv w → inv w'

/-- An invariant that survives every request of the client, answered or not. -/
structure Lasting (env : Env) (inv : World → Prop) : Prop where
  ofConnection : OfConnection inv
  roundTrip : ∀ request : Request, request.Sent env.cfg →
    Preserves inv (roundTrip env request) fun _ => True

section Steps

theorem preserves_withStash (h : OfConnection inv) (x : StashM α) :
    Preserves inv (withStash x) fun _ => True :=
  Preserves.zoom' x fun w _ => h w _ rfl rfl

theorem preserves_withPrng (h : OfConnection inv) (x : PrngM α) :
    Preserves inv (withPrng x) fun _ => True :=
  Preserves.zoom' x fun w _ => h w _ rfl rfl

theorem preserves_bookkeeping (h : OfConnection inv) {g : World → World}
    (hServer : ∀ w, (g w).server = w.server)
    (hLog : ∀ w, (g w).log = w.log) : Preserves inv (modify g : RingM PUnit) fun _ => True :=
  Preserves.modify fun w => h w _ (hServer w) (hLog w)

theorem preserves_bookkeeping_bind (h : OfConnection inv) {g : World → World} {f : PUnit → RingM α}
    {returned : α → Prop} (hServer : ∀ w, (g w).server = w.server) (hLog : ∀ w, (g w).log = w.log)
    (hNext : Preserves inv (f ⟨⟩) returned) :
    Preserves inv (modify g >>= f) returned :=
  (preserves_bookkeeping h hServer hLog).bind fun _ _ => hNext

theorem preserves_expectAck (response : Response) :
    Preserves inv (expectAck response) fun _ => True :=
  (Preserves.check _).mono fun _ _ => trivial

theorem preserves_readEncryptedBucket (h : Lasting env inv) (bucketIdx : UInt64) :
    Preserves inv (readEncryptedBucketFromServer env bucketIdx) fun _ => True := by
  apply (h.roundTrip (.readBucket bucketIdx) trivial).bind
  intro response _
  cases response with
  | bucket bytes => exact (Preserves.fromExcept _).mono fun _ _ => trivial
  | _ => exact Preserves.throw _

theorem preserves_fetchPathMetadata (h : Lasting env inv) (leaf : UInt64) :
    Preserves inv (fetchPathMetadata env leaf) fun _ => True := by
  apply (h.roundTrip (.readPathMetadata leaf) trivial).bind
  intro response _
  cases response with
  | pathMetadata _ payloads => exact (Preserves.fromExcept _).mono fun _ _ => trivial
  | _ => exact Preserves.throw _

theorem preserves_fetchServerBucketCount (h : Lasting env inv) (bucketIdx : UInt64) :
    Preserves inv (fetchServerBucketCount env bucketIdx) fun _ => True := by
  apply (h.roundTrip (.readBucketCount bucketIdx) trivial).bind
  intro response _
  cases response with
  | bucketCount count => exact Preserves.pure trivial
  | _ => exact Preserves.throw _

theorem preserves_fetchServerStats (h : Lasting env inv) :
    Preserves inv (fetchServerStats env) fun _ => True := by
  apply (h.roundTrip .readStats trivial).bind
  intro response _
  cases response with
  | stats reads slots => exact Preserves.pure trivial
  | _ => exact Preserves.throw _

theorem preserves_writeEncryptedBucket (h : Lasting env inv) (bucketIdx : UInt64)
    {bucket : EncryptedRingBucket} (hHeld : bucket.Held) (hCount : bucket.count = 0)
    (hValids : bucket.valids = List.replicate env.cfg.bucketSlots.toNat true) :
    Preserves inv (writeEncryptedBucketToServer env bucketIdx bucket) fun _ => True := by
  apply (Preserves.fromExcept _).bind
  intro bytes hBytes
  exact (h.roundTrip (.writeBucket bucketIdx bytes) ⟨bucket, hHeld, hBytes, hCount, hValids⟩).bind
    fun response _ =>
    preserves_expectAck response

theorem encryptBucket_header (bucket : RingBucket) (ivs : Nat) :
    wp (encryptBucket env bucket) ivs
      (fun encrypted _ => encrypted.Held ∧ encrypted.count = bucket.count ∧
        encrypted.valids = bucket.valids)
      fun _ _ => True := by
  have hEach {β : Type} (items : List β) (f : β → IvM EncryptedField) (ivs : Nat)
      (hRoom : ¬ vectorMaxSize / encryptedFieldSize < items.length) :
      wp (items.mapM f) ivs (fun fields _ => Holdable encryptedFieldSize fields)
        fun _ _ => True := by
    have hAll := @wp.mapM _ _ _ _ ivs (fun _ _ => True) items f (fun _ => True)
      (fun _ _ => True) trivial
      fun item _ ivs' _ =>
        wp_mono (wp_trivial (f item) ivs') (fun _ _ _ => ⟨trivial, trivial⟩) fun _ _ => id
    exact wp_mono hAll (fun fields _ h => h.1.length_eq.trans_le (Nat.not_lt.mp hRoom))
      fun _ _ => id
  refine wp.check_bind (fun _ => trivial) fun hAddrs =>
    wp.check_bind (fun _ => trivial) fun hLeaves => ?_
  refine wp.check_bind (fun _ => trivial) fun hPtrs =>
    wp.check_bind (fun _ => trivial) fun hData => ?_
  refine wp.bind (hEach _ _ _ hAddrs) fun addrs _ hAddrs =>
    wp.bind (hEach _ _ _ hLeaves) fun leaves _ hLeaves => ?_
  refine wp.bind (hEach _ _ _ hPtrs) fun ptrs _ hPtrs =>
    wp.bind (hEach _ _ _ hData) fun data _ hData => ?_
  exact wp.pure ⟨⟨hAddrs, hLeaves, hPtrs, hData⟩, rfl, rfl⟩

/-- Buckets with nothing read from them. -/
def RingBucket.Unread (cfg : RuntimeConfig) (bucket : RingBucket) : Prop :=
  bucket.count = 0 ∧ bucket.valids = List.replicate cfg.bucketSlots.toNat true

theorem RingBucket.unread_empty (cfg : RuntimeConfig) :
    (RingBucket.empty cfg.z cfg.s cfg.blockSize).Unread cfg := ⟨rfl, rfl⟩

theorem RingBucket.foldl_placeBlock_header (entries : List (RingBlock × Nat))
    (bucket : RingBucket) :
    (entries.foldl placeBlock bucket).count = bucket.count ∧
    (entries.foldl placeBlock bucket).valids = bucket.valids := by
  induction entries generalizing bucket with
  | nil => exact ⟨rfl, rfl⟩
  | cons entry entries ih => exact ih (bucket.placeBlock entry)

theorem RingBucket.Unread.reset {cfg : RuntimeConfig} {bucket filled : RingBucket}
    (h : bucket.Unread cfg) {blocks : List RingBlock} {permutation : List Nat}
    (hReset : bucket.resetWithBlocks blocks permutation = .ok filled) : filled.Unread cfg := by
  unfold RingBucket.resetWithBlocks at hReset
  split at hReset
  · cases hReset
  split at hReset
  · cases hReset
  split at hReset
  · cases hReset
  cases hReset
  obtain ⟨hCount, hValids⟩ := foldl_placeBlock_header blocks.zipIdx (bucket.cleared permutation)
  refine ⟨hCount, hValids.trans ?_⟩
  change List.replicate bucket.valids.length true = _
  rw [h.2, List.length_replicate]

end Steps

section Operations

theorem preserves_fillBucketFromStash (h : OfConnection inv) (bucketIdx : UInt64)
    {bucket : RingBucket} (hUnread : bucket.Unread env.cfg) :
    Preserves inv (fillBucketFromStash env bucketIdx bucket) fun filled =>
      filled.Unread env.cfg := by
  refine (preserves_withStash h _).bind fun _ _ => Preserves.get_bind fun w =>
    (Preserves.fromExcept _).bind ?_
  rintro ⟨selected, kept⟩ _
  refine (preserves_withStash h _).bind fun _ _ =>
    (preserves_withPrng h _).bind fun permutation _ => ?_
  apply (Preserves.fromExcept _).bind
  intro filled hReset
  exact (preserves_withStash h _).bind fun _ _ => Preserves.pure (hUnread.reset hReset)

theorem preserves_encryptBucket (h : OfConnection inv) {bucket : RingBucket}
    (hUnread : bucket.Unread env.cfg) :
    Preserves inv (withIvs (encryptBucket env bucket)) fun encrypted =>
      encrypted.Held ∧ encrypted.count = 0 ∧
      encrypted.valids = List.replicate env.cfg.bucketSlots.toNat true := by
  refine Preserves.zoom (fun w _ => h w _ rfl rfl) fun ivs => ?_
  refine wp_mono (encryptBucket_header bucket ivs) ?_ fun _ _ => id
  rintro encrypted _ ⟨hHeld, hCount, hValids⟩
  exact ⟨hHeld, hCount.trans hUnread.1, hValids.trans hUnread.2⟩

theorem preserves_writeBucket (h : Lasting env inv) (bucketIdx : UInt64) :
    Preserves inv (writeBucket env bucketIdx) fun _ => True := by
  apply (preserves_fillBucketFromStash h.ofConnection bucketIdx
    (RingBucket.unread_empty env.cfg)).bind
  intro filled hUnread
  apply (preserves_encryptBucket h.ofConnection hUnread).bind
  intro encrypted hHeader
  exact preserves_writeEncryptedBucket h bucketIdx hHeader.1 hHeader.2.1 hHeader.2.2

theorem preserves_padFullRead (h : OfConnection inv) (missing : Nat) (bucket : RingBucket) :
    Preserves inv (padFullRead env bucket missing) fun _ => True := by
  induction missing generalizing bucket with
  | zero => exact Preserves.pure trivial
  | succ missing ih =>
    exact (Preserves.check _).bind fun _ _ => (preserves_withPrng h _).bind fun choice _ => ih _

theorem preserves_readRealSlot (h : OfConnection inv) (read : RingBucket × Nat) (i : Nat) :
    Preserves inv (readRealSlot env read i) fun _ => True := by
  obtain ⟨bucket, reads⟩ := read
  change Preserves inv (if bucket.validReal i = true then _ else _) _
  split
  · apply (preserves_withStash h _).bind
    intro _ _
    exact Preserves.pure trivial
  · exact Preserves.pure trivial

theorem preserves_readBucket (h : Lasting env inv) (bucketIdx : UInt64) :
    Preserves inv (readBucket env bucketIdx) fun _ => True := by
  refine (preserves_readEncryptedBucket h bucketIdx).bind fun encrypted _ =>
    (Preserves.fromExcept _).bind fun bucket _ => ?_
  refine (Preserves.foldlM (fun _ _ => True) trivial fun read i _ _ =>
    preserves_readRealSlot h.ofConnection read i).bind ?_
  rintro ⟨bucket', reads⟩ _
  exact preserves_padFullRead h.ofConnection _ bucket'

theorem preserves_evictPath (h : Lasting env inv) :
    Preserves inv (evictPath env) fun _ => True := by
  refine Preserves.get_bind fun w =>
    preserves_bookkeeping_bind h.ofConnection (fun _ => rfl) (fun _ => rfl) ?_
  apply (Preserves.fromExcept _).bind
  intro path _
  refine (Preserves.forM fun bucketIdx _ => preserves_readBucket h bucketIdx).bind fun _ _ => ?_
  exact Preserves.forM fun bucketIdx _ => preserves_writeBucket h bucketIdx

theorem preserves_earlyReshuffle (h : Lasting env inv) (leaf : UInt64) :
    Preserves inv (earlyReshuffle env leaf) fun _ => True := by
  refine (Preserves.fromExcept _).bind fun path _ => Preserves.forM fun bucketIdx _ => ?_
  apply (preserves_fetchServerBucketCount h bucketIdx).bind
  intro count _
  split
  · refine (preserves_readBucket h bucketIdx).bind fun _ _ =>
      (preserves_writeBucket h bucketIdx).bind fun _ _ => ?_
    exact preserves_bookkeeping h.ofConnection (fun _ => rfl) fun _ => rfl
  · exact Preserves.pure trivial

/-- One offset for every bucket that metadata has come for. -/
theorem preserves_selectSlots (h : OfConnection inv) (addr : UInt64)
    (metadata : List RingBucketMetadata) :
    Preserves inv (metadata.foldlM (selectSlot env addr) ([], [])) fun selected =>
      selected.1.length = metadata.length := by
  refine (Preserves.foldlM (fun selected rest => selected.1.length + rest.length = metadata.length)
    ?_ ?_).mono ?_
  · rw [List.length_nil, Nat.zero_add]
  · rintro ⟨offsets, flags⟩ item rest hLength
    refine (Preserves.fromExcept _).bind fun bucket _ =>
      (preserves_withPrng h _).bind fun offset _ => ?_
    refine (Preserves.check _).bind fun _ _ => Preserves.pure ?_
    rw [List.length_cons] at hLength
    rw [List.length_append, List.length_singleton]
    omega
  · intro selected hLength
    rwa [List.length_nil, Nat.add_zero] at hLength

theorem preserves_fetchXorPath (h : Lasting env inv) (leaf : UInt64) {offsets : List Nat}
    (hLength : offsets.length < 2 ^ 64) (targetFlags : List Bool) :
    Preserves inv (fetchXorPath env leaf offsets targetFlags) fun _ => True := by
  have hSent : Request.Sent env.cfg
      (.xorPathSlots leaf (UInt64.ofNat offsets.length) (offsets.map UInt64.ofNat)) := by
    change (UInt64.ofNat offsets.length).toNat = _
    rw [UInt64.toNat_ofNat_of_lt' hLength, List.length_map]
  refine (Preserves.check _).bind fun _ _ => (h.roundTrip _ hSent).bind fun response _ => ?_
  cases response with
  | xorPath aggregate ivCount ivs =>
    refine (Preserves.check _).bind fun _ _ => (Preserves.check _).bind fun _ _ =>
      (Preserves.fromExcept _).bind ?_
    rintro ⟨targetCiphertext, targetIv⟩ _
    cases targetIv with
    | none => exact Preserves.pure trivial
    | some iv => exact (Preserves.fromExcept _).bind fun _ _ => Preserves.pure trivial
  | _ => exact Preserves.throw _

theorem preserves_readPath (h : Lasting env inv) (hDepth : env.cfg.depth < 63)
    (leaf addr : UInt64) :
    Preserves inv (readPath env leaf addr) fun _ => True := by
  refine (preserves_fetchPathMetadata h leaf).bind fun metadata _ =>
    (Preserves.check _).bind fun _ hCheck => ?_
  apply (preserves_selectSlots h.ofConnection addr metadata).bind
  rintro ⟨offsets, targetFlags⟩ hLength
  refine preserves_bookkeeping_bind h.ofConnection (fun _ => rfl) (fun _ => rfl) ?_
  refine preserves_fetchXorPath h leaf ?_ targetFlags
  have hPath : metadata.length = env.cfg.depth + 1 := not_not.mp hCheck
  change offsets.length = metadata.length at hLength
  omega

theorem preserves_locateBlock (h : OfConnection inv) (addr newLeaf : UInt64)
    (pathData : Option Bytes) :
    Preserves inv (locateBlock env addr newLeaf pathData) fun _ => True := by
  cases pathData with
  | some data =>
    apply (preserves_withStash h _).bind
    intro _ _
    exact Preserves.pure trivial
  | none =>
    apply (preserves_withStash h _).bind
    intro stashed _
    cases stashed with
    | some block => exact Preserves.pure trivial
    | none =>
      exact preserves_bookkeeping_bind h (fun _ => rfl) (fun _ => rfl) (Preserves.pure trivial)

theorem preserves_access (h : Lasting env inv) (hDepth : env.cfg.depth < 63) (op : Op)
    (addr : UInt64) (data : Bytes) :
    Preserves inv (access env op addr data) fun _ => True := by
  have hBlind := h.ofConnection
  refine (Preserves.check _).bind fun _ _ => (Preserves.check _).bind fun _ _ =>
    Preserves.get_bind fun w => ?_
  cases w.positionMap addr with
  | none => exact Preserves.throw _
  | some oldLeaf =>
    apply (preserves_withPrng hBlind _).bind
    intro newLeaf _
    refine preserves_bookkeeping_bind hBlind (fun _ => rfl) (fun _ => rfl) ?_
    apply (preserves_readPath h hDepth oldLeaf addr).bind
    intro pathData _
    apply (preserves_locateBlock hBlind addr newLeaf pathData).bind
    intro located _
    apply (preserves_withStash hBlind _).bind
    intro _ _
    refine preserves_bookkeeping_bind hBlind (fun _ => rfl) (fun _ => rfl) ?_
    have hEvict : Preserves inv (evictIfDue env) fun _ => True := by
      apply Preserves.get_bind
      intro w
      split
      · exact preserves_evictPath h
      · exact Preserves.pure trivial
    exact hEvict.bind fun _ _ => (preserves_earlyReshuffle h oldLeaf).bind fun _ _ =>
      Preserves.pure trivial

end Operations

section Construction

theorem preserves_buildInitialPlainTree (h : OfConnection inv) :
    Preserves inv (buildInitialPlainTree env) fun tree =>
    tree.length = env.cfg.numTreeNodes.toNat ∧ ∀ bucket ∈ tree, bucket.Unread env.cfg := by
  refine Preserves.foldlM (fun tree rest =>
    (tree.length = env.cfg.numTreeNodes.toNat ∧ ∀ bucket ∈ tree, bucket.Unread env.cfg) ∧
    ∀ idx ∈ rest, idx < tree.length) ?_ ?_ |>.mono fun tree hTree => hTree.1
  · refine ⟨⟨List.length_replicate, fun bucket hBucket => ?_⟩, fun idx hIdx => ?_⟩
    · rw [(List.mem_replicate.mp hBucket).2]
      exact RingBucket.unread_empty env.cfg
    · rw [List.length_replicate]
      exact List.mem_range.mp (List.mem_reverse.mp hIdx)
  · rintro tree idx rest ⟨⟨hLength, hUnread⟩, hRest⟩
    have hIdx := hRest idx List.mem_cons_self
    have hBucket : (tree.getD idx {}).Unread env.cfg := by
      rw [List.getD_eq_getElem _ _ hIdx]
      exact hUnread _ (List.getElem_mem hIdx)
    refine (preserves_fillBucketFromStash h (UInt64.ofNat idx) hBucket).bind fun filled hFilled =>
      Preserves.pure ?_
    refine ⟨⟨List.length_set.trans hLength, fun bucket hMem => ?_⟩, fun other hOther => ?_⟩
    · obtain hOld | rfl := List.mem_or_eq_of_mem_set hMem
      · exact hUnread bucket hOld
      · exact hFilled
    · rw [List.length_set]
      exact hRest other (List.mem_cons_of_mem _ hOther)

theorem preserves_sealBucket (h : OfConnection inv) {bucket : RingBucket}
    (hUnread : bucket.Unread env.cfg) :
    Preserves inv (sealBucket env bucket) fun bytes => FreshBucket env.cfg bytes := by
  apply (preserves_encryptBucket h hUnread).bind
  intro encrypted hHeader
  exact (Preserves.fromExcept _).mono fun bytes hBytes => ⟨encrypted, hHeader.1, hBytes, hHeader.2⟩

theorem preserves_initializeServerStorage (h : Lasting env inv) :
    Preserves inv (initializeServerStorage env) fun _ => True := by
  apply (preserves_buildInitialPlainTree h.ofConnection).bind
  rintro tree ⟨hLength, hUnread⟩
  have hSeal : Preserves inv (tree.mapM (sealBucket env)) fun payloads =>
      List.Forall₂ (fun bytes _ => FreshBucket env.cfg bytes) payloads tree :=
    Preserves.mapM fun bucket hBucket =>
      preserves_sealBucket h.ofConnection (hUnread bucket hBucket)
  apply hSeal.bind
  intro payloads hPayloads
  have hSent : Request.Sent env.cfg (.init (UInt64.ofNat tree.length) payloads) := by
    refine ⟨?_, fun bytes hBytes => ?_⟩
    · rw [hPayloads.length_eq, hLength, UInt64.ofNat_toNat]
    · obtain ⟨i, hi, rfl⟩ := List.getElem_of_mem hBytes
      exact (List.forall₂_iff_get.mp hPayloads).2 i hi (hPayloads.length_eq ▸ hi)
  exact (h.roundTrip _ hSent).bind fun response _ => preserves_expectAck response

theorem preserves_construct (h : Lasting env inv) :
    Preserves inv (construct env) fun _ => True := by
  have hBlind := h.ofConnection
  refine (Preserves.fromExcept _).bind fun _ _ => (Preserves.check _).bind fun _ _ => ?_
  have hBlocks : Preserves inv (forM (List.range env.cfg.numBlocks.toNat) (addInitialBlock env))
      fun _ => True := by
    refine Preserves.forM fun i _ => (preserves_withPrng hBlind _).bind fun leaf _ => ?_
    exact preserves_bookkeeping_bind hBlind (fun _ => rfl) (fun _ => rfl)
      (preserves_withStash hBlind _)
  refine hBlocks.bind fun _ _ => (preserves_withStash hBlind _).bind fun _ _ => ?_
  exact (preserves_withStash hBlind _).bind fun _ _ => preserves_initializeServerStorage h

end Construction

/-! ## Sessions -/

/-- What a client can be asked to do, with any arguments. -/
inductive Operation
  | action (action : Action)
  | serverBucketCount (bucketIdx : UInt64)
  | serverStats
  deriving DecidableEq, Repr

def operate (env : Env) : Operation → RingM Unit
  | .action action => do
    let _ ← perform env action
    return ()
  | .serverBucketCount bucketIdx => do
    let _ ← fetchServerBucketCount env bucketIdx
    return ()
  | .serverStats => do
    let _ ← fetchServerStats env
    return ()

/-- The states that operations lead to from construction. An operation may throw, and another follow
it. -/
inductive Session (env : Env) (bucketFiles : Nat → Option Bytes) : World → Prop
  | constructed {stashFile : Option Bytes} {w : World} :
      (construct env).run (World.start stashFile bucketFiles) = .ok () w → Session env bucketFiles w
  | returned {operation : Operation} {w w' : World} : Session env bucketFiles w →
      (operate env operation).run w = .ok () w' → Session env bucketFiles w'
  | threw {operation : Operation} {e : Exception} {w w' : World} : Session env bucketFiles w →
      (operate env operation).run w = .error e w' → Session env bucketFiles w'

section Sessions

variable {bucketFiles : Nat → Option Bytes} {w : World}

theorem preserves_operate (h : Lasting env inv) (hDepth : env.cfg.depth < 63)
    (operation : Operation) :
    Preserves inv (operate env operation) fun _ => True := by
  cases operation with
  | action action =>
    have hPerform : Preserves inv (perform env action) fun _ => True := by
      cases action with
      | access op addr data =>
        exact (preserves_access h hDepth op addr data).bind fun _ _ => Preserves.pure trivial
      | evictPath => exact (preserves_evictPath h).bind fun _ _ => Preserves.pure trivial
      | earlyReshuffle leaf =>
        exact (preserves_earlyReshuffle h leaf).bind fun _ _ => Preserves.pure trivial
    exact hPerform.bind fun _ _ => Preserves.pure trivial
  | serverBucketCount bucketIdx =>
    exact (preserves_fetchServerBucketCount h bucketIdx).bind fun _ _ => Preserves.pure trivial
  | serverStats => exact (preserves_fetchServerStats h).bind fun _ _ => Preserves.pure trivial

theorem Session.accepted (h : Session env bucketFiles w) : env.cfg.Accepted := by
  induction h with
  | constructed hConstruct => exact accepted_of_construct hConstruct
  | returned _ _ ih => exact ih
  | threw _ _ ih => exact ih

/-- As long as the server runs, it has answered exactly the requests of the log. -/
def Answered (env : Env) (start : Server) (w : World) : Prop :=
  w.server.running = true → History env.cfg start w.log w.server

theorem lasting_answered (start : Server) : Lasting env (Answered env start) := by
  constructor
  case ofConnection =>
    intro w w' hServer hLog h
    rw [Answered, hServer, hLog]
    exact h
  case roundTrip =>
    intro request hSent w h
    refine wp_roundTrip (fun response server hRunning hHandler => ⟨trivial, fun _ => ?_⟩) ?_
      fun _ => h
    · exact .snoc (h hRunning) hSent hHandler rfl
    · intro e server _ _ hRunning
      exact absurd hRunning Bool.false_ne_true

theorem lasting_closed {server : Server} (hClosed : server.running = false) (log : List Event) :
    Lasting env fun w => w.server = server ∧ w.log = log := by
  constructor
  case ofConnection =>
    rintro w w' hServer hLog ⟨rfl, rfl⟩
    exact ⟨hServer, hLog⟩
  case roundTrip =>
    rintro request _ w ⟨rfl, rfl⟩
    refine wp_roundTrip (fun response server hRunning => ?_) (fun e server hRunning => ?_)
      fun _ => ⟨rfl, rfl⟩
    · rw [hClosed] at hRunning
      cases hRunning
    · rw [hClosed] at hRunning
      cases hRunning

theorem Session.answered (h : Session env bucketFiles w) :
    Answered env { files := bucketFiles } w := by
  have hLasting := @lasting_answered env { files := bucketFiles }
  induction h with
  | constructed hConstruct =>
    refine Preserves.of_run (preserves_construct hLasting) (fun _ => ?_) (Or.inl ⟨_, hConstruct⟩)
    exact .nil
  | returned hSession hRun ih =>
    exact Preserves.of_run (preserves_operate hLasting hSession.accepted.depth _)
      ih (Or.inl ⟨_, hRun⟩)
  | threw hSession hRun ih =>
    exact Preserves.of_run (preserves_operate hLasting hSession.accepted.depth _)
      ih (Or.inr ⟨_, hRun⟩)

end Sessions

section Liveness

variable {bucketFiles : Nat → Option Bytes} {w w' : World} {v : Plain} {memory : Memory}

theorem Consistent.observe {sketch : Sketch} (h : Consistent env w v memory)
    (hStored : Stored env w' (v.observe sketch)) :
    Consistent env w' (v.observe sketch) memory :=
  @Consistent.keeps env w v memory w' (v.observe sketch) (v.observe sketch).schedule h hStored
    ⟨rfl, rfl, rfl, rfl⟩ h.calm

theorem perform_invalid {action : Action} (h : ¬ action.Valid env.cfg) (w : World) :
    wp (perform env action) w (fun _ _ => False) fun _ w' => w' = w := by
  cases action with
  | access op addr data =>
    refine wp.bind ?_ fun _ _ => False.elim
    refine wp.check_bind (fun _ => rfl) fun hAddr => wp.check_bind (fun _ => rfl) fun hData => ?_
    refine absurd ⟨UInt64.not_le.mp hAddr, fun hWrite => ?_⟩ h
    exact not_not.mp fun hLength => hData ⟨hWrite, hLength⟩
  | evictPath => exact absurd trivial h
  | earlyReshuffle leaf =>
    have hLeaf : env.cfg.numLeaves ≤ leaf := UInt64.not_lt.mp h
    have hPath : env.cfg.getPathIndices leaf =
        .error (.outOfRange "Ring ORAM leaf index out of range") := if_pos hLeaf
    refine wp.bind (wp.fromExcept_bind (fun _ _ => rfl) fun path hOk => ?_) fun _ _ => False.elim
    rw [hPath] at hOk
    cases hOk

/-- A server that is asked for the count of a bucket it does not have leaves its command loop. -/
def ClosedBy (env : Env) (bucketIdx : UInt64) (w w' : World) : Prop :=
  env.cfg.numTreeNodes ≤ bucketIdx ∧ w' = { w with server := { w.server with running := false } }

theorem handleReadBucketCount_refuses {server : Server}
    (hNodes : server.nodeCount = env.cfg.numTreeNodes) {bucketIdx : UInt64}
    (hRange : env.cfg.numTreeNodes ≤ bucketIdx) :
    (handleRequest env.cfg (.readBucketCount bucketIdx)).run server =
      .error (.outOfRange "Ring ORAM bucket index out of range") server := by
  change (validateInitialized env.cfg >>= fun _ => readBucketFromDisk env.cfg bucketIdx >>=
    _).run server = _
  rw [EStateM.run_bind, validateInitialized_run hNodes]
  change (readBucketFromDisk env.cfg bucketIdx >>= _).run server = _
  rw [EStateM.run_bind, readBucketFromDisk_refuses (hNodes ▸ hRange)]

theorem operate_outcome (hAccepted : env.cfg.Accepted) (h : Consistent env w v memory)
    (operation : Operation) :
    wp (operate env operation) w (fun _ w' => ∃ v' memory', Consistent env w' v' memory')
      fun _ w' =>
      w' = w ∨ ∃ bucketIdx, operation = .serverBucketCount bucketIdx ∧
      ClosedBy env bucketIdx w w' := by
  cases operation with
  | action action =>
    by_cases hValid : action.Valid env.cfg
    · refine Returns.outcome ((perform_spec hAccepted h hValid).bind ?_)
      rintro _ w' ⟨_, v', hNext, _⟩
      exact Returns.pure ⟨v', _, hNext⟩
    · refine wp.bind (wp_mono (perform_invalid hValid w) (fun _ _ => id) ?_) fun _ _ => False.elim
      exact fun _ _ hSame => Or.inl hSame
  | serverBucketCount bucketIdx =>
    by_cases hRange : env.cfg.numTreeNodes ≤ bucketIdx
    · have hHandler := handleReadBucketCount_refuses h.stored.tree.nodeCount hRange
      have hTrip : wp (roundTrip env (.readBucketCount bucketIdx)) w (fun _ _ => False) fun _ w' =>
          w' = w ∨ ∃ other, Operation.serverBucketCount bucketIdx = .serverBucketCount other ∧
              ClosedBy env other w w' := by
        refine wp_roundTrip (fun response server _ hRun => ?_) (fun e server _ hRun => ?_)
          fun hClosed => ?_
        · rw [hHandler] at hRun
          cases hRun
        · rw [hHandler] at hRun
          cases hRun
          exact Or.inr ⟨bucketIdx, rfl, hRange, rfl⟩
        · rw [h.stored.tree.running] at hClosed
          cases hClosed
      exact wp.bind (wp.bind hTrip fun _ _ => False.elim) fun _ _ => False.elim
    · have hIndex : bucketIdx.toNat ∈ env.cfg.nodes := by
        rw [mem_nodes, ← RuntimeConfig.toNat_numTreeNodes hAccepted.depth]
        exact UInt64.lt_iff_toNat_lt.mp (UInt64.not_le.mp hRange)
      refine Returns.outcome ((fetchServerBucketCount_spec hAccepted h.stored hIndex).bind ?_)
      rintro _ w' ⟨_, hStored⟩
      exact Returns.pure ⟨_, memory, h.observe hStored⟩
  | serverStats =>
    have hHandler : Returns (handleRequest env.cfg .readStats) w.server fun response server =>
        response = .stats w.server.xorPathReadCount w.server.lastXorPathSlotCount ∧
          Holds env server v.bucket :=
      Returns.get_bind (Returns.pure ⟨rfl, h.stored.tree⟩)
    refine Returns.outcome ((Returns.bind (roundTrip_spec hAccepted h.stored .readStats
      (Event.sketch ⟨.readStats, .stats w.server.xorPathReadCount w.server.lastXorPathSlotCount,
        fun _ => none⟩) hHandler
      h.stored.valid ?_) ?_).bind fun _ w' hNext => Returns.pure hNext)
    · rintro _ files rfl
      rfl
    · rintro _ w' ⟨rfl, hStored⟩
      exact Returns.pure ⟨_, memory, h.observe hStored⟩

/-- Between operations the state is consistent, until the server is asked for a bucket that it does
not have. -/
inductive Settled (env : Env) (start : Server) (w : World) : Prop
  | consistent {v : Plain} {memory : Memory} :
    Consistent env w v memory → History env.cfg start w.log w.server → Settled env start w
  | closed {w₀ : World} {v : Plain} {memory : Memory}
    {bucketIdx : UInt64} : Consistent env w₀ v memory →
      History env.cfg start w₀.log w₀.server → env.cfg.numTreeNodes ≤ bucketIdx →
      w.server = { w₀.server with running := false } → w.log = w₀.log → Settled env start w

theorem Settled.operate {start : Server} (hAccepted : env.cfg.Accepted) (h : Settled env start w)
    {operation : Operation} (hRun : (∃ a, (operate env operation).run w = .ok a w') ∨
      ∃ e, (operate env operation).run w = .error e w')
    (hAnswered : Answered env start w') : Settled env start w' := by
  cases h with
  | consistent hConsistent hHistory =>
    obtain ⟨hReturned, hThrew⟩ := wp_iff.mp (operate_outcome hAccepted hConsistent operation)
    obtain ⟨_, hRun⟩ | ⟨_, hRun⟩ := hRun
    · obtain ⟨v', memory', hNext⟩ := hReturned _ _ hRun
      exact .consistent hNext (hAnswered hNext.stored.tree.running)
    · obtain rfl | ⟨bucketIdx, _, hRange, rfl⟩ := hThrew _ _ hRun
      · exact .consistent hConsistent hHistory
      · exact .closed hConsistent hHistory hRange rfl rfl
  | closed hConsistent hHistory hRange hServer hLog =>
    have hClosed : w.server.running = false := by rw [hServer]
    have hLasting := @lasting_closed env w.server hClosed w.log
    obtain ⟨hServer', hLog'⟩ :=
      Preserves.of_run (preserves_operate hLasting hAccepted.depth operation) ⟨rfl, rfl⟩ hRun
    exact .closed hConsistent hHistory hRange (hServer'.trans hServer) (hLog'.trans hLog)

theorem Session.settled (h : Session env bucketFiles w) :
    Settled env { files := bucketFiles } w := by
  induction h with
  | constructed hConstruct =>
    obtain ⟨_, v, hConsistent⟩ := consistent_of_construct hConstruct
    exact .consistent hConsistent
      ((Session.constructed hConstruct).answered hConsistent.stored.tree.running)
  | returned hSession hRun ih =>
    exact ih.operate hSession.accepted (Or.inl ⟨_, hRun⟩) (hSession.returned hRun).answered
  | threw hSession hRun ih =>
    exact ih.operate hSession.accepted (Or.inr ⟨_, hRun⟩) (hSession.threw hRun).answered

theorem exists_session_small :
    ∃ start w, (construct .small).run (World.start none fun _ => none) = .ok () start ∧
    (operate .small (.action (.access .write 1 [7]))).run start = .ok () w ∧
    Session .small (fun _ => none) w := by
  obtain ⟨_, w, hConstruct, v, hConsistent, _⟩ :=
    returns_iff.mp (construct_spec accepted_small none fun _ => none)
  have hValid : (Action.access .write 1 [7]).Valid Env.small.cfg := by decide
  have hOperate : Returns (operate .small (.action (.access .write 1 [7]))) w fun _ _ => True :=
    (perform_spec accepted_small hConsistent hValid).bind fun _ _ _ => Returns.pure trivial
  obtain ⟨_, w', hRun, _⟩ := returns_iff.mp hOperate
  exact ⟨w, w', hConstruct, hRun, .returned (.constructed hConstruct) hRun⟩

end Liveness
end OramHub.RingOram
