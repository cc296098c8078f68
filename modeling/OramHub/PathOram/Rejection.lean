import OramHub.Crypto.Evp
import OramHub.Lib.Updates
import OramHub.PathOram.Decoding
import OramHub.PathOram.Runs
import OramHub.PathOram.Wire

/-! # Path writes that the server rejects

`HandleWritePath` receives, decodes and stores one entry after the other. Where an entry is bad, the
ones before it have already been stored.
-/
namespace OramHub.PathOram
open OramHub.Core OramHub.Program OramHub.Crypto OramHub.LittleEndian OramHub.Network
open OramHub.Streams OramHub.Updates
set_option autoImplicit false

/-- What `ValidateInitialized` checks. -/
def Validated (server : Server) : Prop :=
  ¬ (server.nodeCount ≠ server.numNodes ∨ server.treeDir = false)

/-- A bucket index with a size and a payload of that size. -/
def encodeEntry (item : UInt64 × Bytes) : Bytes := encodeWord item.1 ++ sendVec item.2

/-- A function that stands for `cipher_->Decrypt`. -/
abbrev Decryption := Bytes → Bytes → Except Exception Bytes

/-- The bucket that the payload decrypts to is in its file. -/
def Deposits (decrypt : Decryption) (item : UInt64 × Bytes) (file : Option Bytes) : Prop :=
  ∃ bucket, decryptBucketWith decrypt item.2 = .ok bucket ∧ file = some (serializeBucket bucket)

/-- Every listed bucket is in its file, the last one where an index is listed twice. Other files are
as before. -/
abbrev AllStored (decrypt : Decryption) (entries : List (UInt64 × Bytes))
    (files files' : Nat → Option Bytes) : Prop :=
  LastWins (fun item => item.1.toNat) (Deposits decrypt) entries files files'

/-- The outcome of a 'T' request: all of its buckets are stored and acknowledged, or it is rejected
with an exception and all files are as before. -/
def AllOrNothing (decrypt : Decryption) (env : Env) (server : Server) (body sent : Bytes) : Prop :=
  wp (Wire.handleCommandWith env decrypt) ⟨server, 'T'.toUInt8 :: body, sent⟩
    (fun _ connection => connection.outgoing = sent ++ ['A'.toUInt8] ∧ ∃ count entries rest,
      body = encodeWord count ++ (entries.flatMap encodeEntry ++ rest) ∧
      entries.length = count.toNat ∧
        AllStored decrypt entries server.files connection.server.files)
    fun e connection => e.Defined ∧ connection.server.files = server.files

/-- An entry that a server with this many nodes stores. -/
structure Storable (decrypt : Decryption) (nodeCount : UInt64) (item : UInt64 × Bytes) : Prop where
  size : item.2.length ≤ vectorMaxSize
  index : item.1 < nodeCount
  payload : ∃ bucket, decryptBucketWith decrypt item.2 = .ok bucket

/-- The next entry is missing, cut short or bad. -/
def Blocked (decrypt : Decryption) (nodeCount : UInt64) (stream : Bytes) : Prop :=
  ∀ item rest, stream = encodeEntry item ++ rest → ¬ Storable decrypt nodeCount item

/-- The next entry makes the decoder read past the end of the plaintext. -/
def Overruns (decrypt : Decryption) (stream : Bytes) : Prop :=
  ∃ item rest what, stream = encodeEntry item ++ rest ∧ item.2.length ≤ vectorMaxSize ∧
    decryptBucketWith decrypt item.2 = .error (.undefinedBehavior what)

/-- Where an entry of a request with the right count is bad, the entries before it hold what is
already stored, and the bad one does not make the decoder read past the end. -/
def Harmless (decrypt : Decryption) (env : Env) (server : Server) (body : Bytes) : Prop :=
  ∀ entries tail, body = encodeWord (env.treeHeight + 1) ++ (entries.flatMap encodeEntry ++ tail) →
    entries.length < (env.treeHeight + 1).toNat →
    (∀ item ∈ entries, Storable decrypt server.nodeCount item) →
    Blocked decrypt server.nodeCount tail → AllStored decrypt entries server.files server.files ∧
    ¬ Overruns decrypt tail

variable {decrypt : Decryption} {env : Env} {server : Server} {body stream sent : Bytes}

theorem validateInitialized_validated (h : Validated server) :
    Returns validateInitialized server fun _ server' => server' = server :=
  Returns.get_bind (Returns.throwIf h rfl)

/-! ## Single entries -/

section Entries

variable {nodeCount : UInt64} {item item' : UInt64 × Bytes} {rest rest' : Bytes}

theorem encodeEntry_unique (hSize : item.2.length ≤ vectorMaxSize)
    (hSize' : item'.2.length ≤ vectorMaxSize)
    (h : encodeEntry item ++ rest = encodeEntry item' ++ rest') : item = item' ∧ rest = rest' := by
  simp only [encodeEntry, List.append_assoc] at h
  obtain ⟨hIndex, hPayload⟩ := (takes_recvUint64 item.1).unique (takes_recvUint64 item'.1) h
  obtain ⟨hData, hRest⟩ := (takes_recvPayload hSize).unique (takes_recvPayload hSize') hPayload
  exact ⟨Prod.ext hIndex hData, hRest⟩

/-- Why an entry is not stored. -/
structure Refused (decrypt : Decryption) (nodeCount : UInt64) (stream : Bytes)
    (e : Exception) : Prop where
  blocked : Blocked decrypt nodeCount stream
  defined : e.Defined ↔ ¬ Overruns decrypt stream

theorem refused_of_missing {e : Exception} (hDefined : e.Defined)
    (hMissing : ¬ ∃ item rest, stream = encodeEntry item ++ rest ∧ item.2.length ≤ vectorMaxSize) :
    Refused decrypt nodeCount stream e := by
  constructor
  case blocked =>
    exact fun item rest hStream hStorable => hMissing ⟨item, rest, hStream, hStorable.size⟩
  case defined =>
    apply iff_of_true hDefined
    rintro ⟨item, rest, _, hStream, hSize, _⟩
    exact hMissing ⟨item, rest, hStream, hSize⟩

theorem refused_of_payload {e : Exception} (hSize : item.2.length ≤ vectorMaxSize)
    (hError : decryptBucketWith decrypt item.2 = .error e) :
    Refused decrypt nodeCount (encodeEntry item ++ rest) e := by
  constructor
  case blocked =>
    intro item' rest' hStream hStorable
    obtain ⟨rfl, _⟩ := encodeEntry_unique hSize hStorable.size hStream
    obtain ⟨bucket, hOk⟩ := hStorable.payload
    simp [hError] at hOk
  case defined =>
    constructor
    · rintro hDefined ⟨item', rest', what, hStream, hSize', hOverrun⟩
      obtain ⟨rfl, _⟩ := encodeEntry_unique hSize hSize' hStream
      rw [hError] at hOverrun
      exact hDefined what (Except.error.inj hOverrun)
    · rintro hNot what rfl
      exact hNot ⟨item, rest, what, rfl, hSize, hError⟩

theorem refused_of_index {bucket : Bucket} (hSize : item.2.length ≤ vectorMaxSize)
    (hOk : decryptBucketWith decrypt item.2 = .ok bucket) (hIndex : nodeCount ≤ item.1) :
    Refused decrypt nodeCount (encodeEntry item ++ rest) (.outOfRange "Invalid bucket index") := by
  constructor
  case blocked =>
    intro item' rest' hStream hStorable
    obtain ⟨rfl, _⟩ := encodeEntry_unique hSize hStorable.size hStream
    exact absurd hStorable.index (UInt64.not_lt.mpr hIndex)
  case defined =>
    apply iff_of_true (by simp [Exception.Defined])
    rintro ⟨item', rest', what, hStream, hSize', hOverrun⟩
    obtain ⟨rfl, _⟩ := encodeEntry_unique hSize hSize' hStream
    simp [hOk] at hOverrun

theorem bucketShape_of_decrypt {payload : Bytes} {bucket : Bucket}
    (h : decryptBucketWith decrypt payload = .ok bucket) : bucketShape bucket := by
  unfold decryptBucketWith at h
  split at h
  case isTrue => cases h
  case isFalse =>
    obtain ⟨plaintext, _, hBucket⟩ := except_bind_eq_ok h
    exact bucketShape_of_deserialize hBucket

theorem storeBucket_outcome :
    wp (Wire.storeBucketWith decrypt) ⟨server, stream, sent⟩
      (fun _ connection => ∃ item bucket, stream = encodeEntry item ++ connection.incoming ∧
        Storable decrypt server.nodeCount item ∧ decryptBucketWith decrypt item.2 = .ok bucket ∧
        connection.outgoing = sent ∧
        connection.server = { server with
          treeDir := true
          files := Function.update server.files item.1.toNat (some (serializeBucket bucket)) })
      fun e connection => connection.server = server ∧
      Refused decrypt server.nodeCount stream e := by
  by_cases hEntry : ∃ item rest, stream = encodeEntry item ++ rest ∧ item.2.length ≤ vectorMaxSize
  case pos =>
    obtain ⟨item, rest, rfl, hSize⟩ := hEntry
    have hStream : encodeEntry item ++ rest = encodeWord item.1 ++ (sendVec item.2 ++ rest) := by
      simp [encodeEntry]
    rw [hStream]
    apply incoming_link.takes_bind (takes_recvUint64 item.1)
    apply incoming_link.takes_bind (takes_recvPayload hSize)
    rw [← hStream]
    refine wp.fromExcept_bind (fun e hError => ⟨rfl, refused_of_payload hSize hError⟩)
      fun bucket hOk => ?_
    apply (wp_zoom _ _ _).mpr
    apply wp.get_bind
    refine wp.check_bind (fun hIndex => ⟨rfl, refused_of_index hSize hOk hIndex⟩) fun hIndex => ?_
    refine wp.check_bind (fun hShape => absurd (bucketShape_of_decrypt hOk) hShape) fun _ => ?_
    apply Returns.outcome
    exact Returns.modify ⟨item, bucket, rfl, ⟨hSize, UInt64.not_le.mp hIndex, bucket, hOk⟩,
      hOk, rfl, rfl⟩
  case neg =>
    refine incoming_link.parses_bind parses_recvUint64 (fun e _ hDefined =>
      ⟨rfl, refused_of_missing hDefined hEntry⟩) ?_
    intro index _ rest hStream hIndex
    refine incoming_link.parses_bind (parses_vector _) (fun e _ hDefined =>
      ⟨rfl, refused_of_missing hDefined hEntry⟩) ?_
    rintro payload _ rest' hRest ⟨rfl, hSize⟩
    refine absurd ⟨(index, payload), rest', ?_, hSize⟩ hEntry
    simp [encodeEntry, hStream, hIndex, hRest]

end Entries

/-! ## Whole requests -/

section Requests

variable {rest : Bytes}

/-- After `i` rounds of the loop of `HandleWritePath` as many entries have been stored. -/
structure WriteLoop (decrypt : Decryption) (server : Server) (sent rest : Bytes) (i : Nat)
    (entries : List (UInt64 × Bytes))
    (connection : Connection) : Prop where
  received : rest = entries.flatMap encodeEntry ++ connection.incoming
  count : entries.length = i
  storable : ∀ item ∈ entries, Storable decrypt server.nodeCount item
  stored : AllStored decrypt entries server.files connection.server.files
  nodeCount : connection.server.nodeCount = server.nodeCount
  silent : connection.outgoing = sent

theorem WriteLoop.step {i : Nat} {entries : List (UInt64 × Bytes)} {connection : Connection}
    (h : WriteLoop decrypt server sent rest i entries connection) :
    wp (Wire.storeBucketWith decrypt) connection
      (fun _ connection' => ∃ item,
        WriteLoop decrypt server sent rest (i + 1) (entries ++ [item]) connection')
      fun e connection' => connection'.server = connection.server ∧
      Refused decrypt server.nodeCount connection.incoming e := by
  have hOutcome :=
    @storeBucket_outcome decrypt connection.server connection.incoming connection.outgoing
  rw [h.nodeCount] at hOutcome
  apply wp_mono hOutcome ?_ fun _ _ => id
  rintro _ connection' ⟨item, bucket, hStream, hStorable, hBucket, hSent, hServer⟩
  refine ⟨item, ?_⟩
  constructor
  case received => simp [h.received, hStream]
  case count => simp [h.count]
  case storable =>
    intro other hOther
    obtain hOld | hNew := List.mem_append.mp hOther
    · exact h.storable other hOld
    · exact List.mem_singleton.mp hNew ▸ hStorable
  case stored =>
    rw [hServer]
    exact h.stored.snoc ⟨bucket, hBucket, rfl⟩
  case nodeCount => simp [hServer]
  case silent => exact hSent.trans h.silent

/-- The loop of `HandleWritePath` was stopped by a bad entry, with the entries before it stored. -/
def Stopped (decrypt : Decryption) (env : Env) (server : Server) (rest : Bytes) (e : Exception)
    (files : Nat → Option Bytes) : Prop :=
  ∃ entries tail, rest = entries.flatMap encodeEntry ++ tail ∧
    entries.length < (env.treeHeight + 1).toNat ∧
    (∀ item ∈ entries, Storable decrypt server.nodeCount item) ∧
    AllStored decrypt entries server.files files ∧
    Refused decrypt server.nodeCount tail e

/-- A request with the right count stores its entries up to the first bad one. -/
theorem handleWritePath_outcome (h : Validated server) :
    wp (Wire.handleWritePathWith env decrypt) ⟨server,
      encodeWord (env.treeHeight + 1) ++ rest, sent⟩
      (fun _ connection => connection.outgoing = sent ++ ['A'.toUInt8] ∧ ∃ entries after,
        rest = entries.flatMap encodeEntry ++ after ∧ entries.length = (env.treeHeight + 1).toNat ∧
          (∀ item ∈ entries, Storable decrypt server.nodeCount item) ∧
          AllStored decrypt entries server.files connection.server.files)
      fun e connection => Stopped decrypt env server rest e connection.server.files := by
  refine own_link.same_bind (validateInitialized_validated h) fun _ => ?_
  apply incoming_link.takes_bind (takes_recvUint64 _)
  refine wp.check_bind (fun hCount => absurd rfl hCount) fun _ => ?_
  apply wp.bind (wp.forM_range (fun i connection => ∃ entries,
    WriteLoop decrypt server sent rest i entries connection) ?_ ?_)
  · rintro _ connection ⟨entries, hLoop⟩
    apply wp.modify_bind
    apply Returns.outcome
    apply Returns.modify
    refine ⟨?_, entries, connection.incoming, hLoop.received, hLoop.count,
      hLoop.storable, hLoop.stored⟩
    simp [hLoop.silent]
  · exact ⟨[], rfl, rfl, by simp, .nil, rfl, rfl⟩
  · rintro i hi connection ⟨entries, hLoop⟩
    apply wp_mono hLoop.step
    · rintro _ connection' ⟨item, hNext⟩
      exact ⟨_, hNext⟩
    · rintro e connection' ⟨hServer, hRefused⟩
      refine ⟨entries, connection.incoming, hLoop.received, hLoop.count ▸ hi,
        hLoop.storable, ?_, hRefused⟩
      rw [hServer]
      exact hLoop.stored

theorem handleWritePath_refuses (h : Validated server)
    (hBody : ∀ rest, body ≠ encodeWord (env.treeHeight + 1) ++ rest) :
    wp (Wire.handleWritePathWith env decrypt) ⟨server, body, sent⟩ (fun _ _ => False)
      fun e connection => e.Defined ∧ connection.server.files = server.files := by
  refine own_link.same_bind (validateInitialized_validated h) fun _ => ?_
  refine incoming_link.parses_bind parses_recvUint64 (fun _ _ hDefined => ⟨hDefined, rfl⟩)
    fun count _ rest hStream hCount => ?_
  refine wp.check_bind (fun _ => ⟨by simp [Exception.Defined], rfl⟩) fun hHeight => ?_
  rw [not_not.mp hHeight] at hCount
  exact absurd (hCount ▸ hStream) (hBody rest)

/-- No other reading of the bytes gets past the first bad entry. -/
theorem entries_prefix {nodeCount : UInt64} {entries entries' : List (UInt64 × Bytes)}
    {tail tail' : Bytes}
    (hStorable : ∀ item ∈ entries, Storable decrypt nodeCount item)
    (hStorable' : ∀ item ∈ entries', Storable decrypt nodeCount item)
    (hBlocked : Blocked decrypt nodeCount tail)
    (h : entries.flatMap encodeEntry ++ tail = entries'.flatMap encodeEntry ++ tail') :
    ∃ more, entries = entries' ++ more ∧ tail' = more.flatMap encodeEntry ++ tail := by
  induction entries' generalizing entries with
  | nil => exact ⟨entries, rfl, h.symm⟩
  | cons item' entries' ih =>
    have hHead' := hStorable' item' List.mem_cons_self
    cases entries with
    | nil =>
      simp only [List.flatMap_nil, List.nil_append, List.flatMap_cons, List.append_assoc] at h
      exact absurd hHead' (hBlocked item' _ h)
    | cons item entries =>
      simp only [List.flatMap_cons, List.append_assoc] at h
      obtain ⟨rfl, hRest⟩ :=
        encodeEntry_unique (hStorable item List.mem_cons_self).size hHead'.size h
      obtain ⟨more, rfl, hTail⟩ :=
        ih (fun other hOther => hStorable other (List.mem_cons_of_mem _ hOther))
        (fun other hOther => hStorable' other (List.mem_cons_of_mem _ hOther)) hRest
      exact ⟨more, rfl, hTail⟩

theorem deposits_unique (item : UInt64 × Bytes) (file file' : Option Bytes)
    (h : Deposits decrypt item file) (h' : Deposits decrypt item file') : file = file' := by
  obtain ⟨bucket, hBucket, rfl⟩ := h
  obtain ⟨bucket', hBucket', rfl⟩ := h'
  rw [hBucket] at hBucket'
  rw [Except.ok.inj hBucket']

theorem run_handleCommand_writePath :
    (Wire.handleCommandWith env decrypt).run ⟨server, 'T'.toUInt8 :: body, sent⟩ =
    (Wire.handleWritePathWith env decrypt).run ⟨server, body, sent⟩ := rfl

/-- With the right count, the request is all-or-nothing unless its first bad entry comes too late or
overruns. -/
theorem allOrNothing_iff_of_count (h : Validated server) :
    AllOrNothing decrypt env server (encodeWord (env.treeHeight + 1) ++ rest) sent ↔
      Harmless decrypt env server (encodeWord (env.treeHeight + 1) ++ rest) := by
  have hOutcome := wp_iff.mp (@handleWritePath_outcome decrypt env server sent rest h)
  constructor
  · intro hAll entries tail hBody hLength hStorable hBlocked
    have hRest : rest = entries.flatMap encodeEntry ++ tail := List.append_cancel_left hBody
    cases hRun : (Wire.handleWritePathWith env decrypt).run ⟨server,
      encodeWord (env.treeHeight + 1) ++ rest, sent⟩ with
    | ok _ connection =>
      obtain ⟨_, entries', after, hRest', hLength', hStorable', _⟩ := hOutcome.1 () connection hRun
      obtain ⟨more, rfl, _⟩ :=
        entries_prefix hStorable hStorable' hBlocked (hRest.symm.trans hRest')
      rw [List.length_append] at hLength
      omega
    | error e connection =>
      obtain ⟨hDefined, hSame⟩ :=
        (wp_iff.mp hAll).2 e connection (run_handleCommand_writePath.trans hRun)
      obtain ⟨entries', tail', hRest', _, hStorable', hStored, hRefused⟩ :=
        hOutcome.2 e connection hRun
      obtain ⟨more, rfl, rfl⟩ :=
        entries_prefix hStorable hStorable' hBlocked (hRest.symm.trans hRest')
      cases more with
      | nil =>
        simp only [List.append_nil, List.flatMap_nil, List.nil_append] at hRefused ⊢
        exact ⟨hSame ▸ hStored, hRefused.defined.mp hDefined⟩
      | cons item more =>
        have hItem := hStorable item (by simp)
        refine absurd hItem (hRefused.blocked item (more.flatMap encodeEntry ++ tail) ?_)
        simp
  · intro hHarmless
    apply wp_iff.mpr
    rw [run_handleCommand_writePath]
    constructor
    · intro _ connection hRun
      obtain ⟨hSent, entries, after, rfl, hLength, _, hStored⟩ := hOutcome.1 () connection hRun
      exact ⟨hSent, _, entries, after, rfl, hLength, hStored⟩
    · intro e connection hRun
      obtain ⟨entries, tail, rfl, hLength, hStorable, hStored, hRefused⟩ :=
        hOutcome.2 e connection hRun
      obtain ⟨hSame, hInBounds⟩ := hHarmless entries tail rfl hLength hStorable hRefused.blocked
      exact ⟨hRefused.defined.mpr hInBounds, hStored.unique deposits_unique hSame⟩

theorem allOrNothing_iff_harmless (h : Validated server) (body sent : Bytes) :
    AllOrNothing decrypt env server body sent ↔ Harmless decrypt env server body := by
  by_cases hBody : ∃ rest, body = encodeWord (env.treeHeight + 1) ++ rest
  case pos =>
    obtain ⟨rest, rfl⟩ := hBody
    exact allOrNothing_iff_of_count h
  case neg =>
    simp only [not_exists] at hBody
    apply iff_of_true
    · apply wp_iff.mpr
      rw [run_handleCommand_writePath]
      have hOutcome := wp_iff.mp (@handleWritePath_refuses decrypt env server body sent h hBody)
      exact ⟨fun _ connection hRun => (hOutcome.1 () connection hRun).elim, hOutcome.2⟩
    · intro entries tail hRequest
      exact absurd hRequest (hBody _)

/-- A request whose entries are all good. -/
theorem harmless_of_storable {entries : List (UInt64 × Bytes)}
    (hLength : entries.length = (env.treeHeight + 1).toNat)
    (hStorable : ∀ item ∈ entries, Storable decrypt server.nodeCount item) :
    Harmless decrypt env server
      (encodeWord (env.treeHeight + 1) ++ (entries.flatMap encodeEntry ++ rest)) := by
  intro entries' tail hBody hLength' hStorable' hBlocked
  obtain ⟨more, rfl, _⟩ :=
    entries_prefix hStorable' hStorable hBlocked (List.append_cancel_left hBody).symm
  rw [List.length_append] at hLength'
  omega

/-- A request whose first entry is bad. -/
theorem harmless_of_blocked (hBlocked : Blocked decrypt server.nodeCount rest)
    (hInBounds : ¬ Overruns decrypt rest) :
    Harmless decrypt env server (encodeWord (env.treeHeight + 1) ++ rest) := by
  intro entries tail hBody _ hStorable _
  obtain rfl := List.append_cancel_left hBody
  cases entries with
  | nil => exact ⟨.nil, hInBounds⟩
  | cons item entries =>
    refine absurd (hStorable item List.mem_cons_self)
      (hBlocked item (entries.flatMap encodeEntry ++ tail) ?_)
    simp

end Requests

/-! ## The server's cipher -/

/-- `cipher_`. -/
def sharedCipher : CtrCipher := ⟨sharedKey, .aes128Ctr, rfl⟩

section Cipher

variable {evp : Evp} {keystream : Bytes → Bytes → Nat → UInt8} {payload : Bytes}

/-- Below 2 GiB, `DecryptBucket` is the function that clients and servers rely on. -/
theorem decryptBucketWith_eq (hEvp : evp.CounterMode env.keystream)
    (hShort : payload.length < 2 ^ 31)
    (hCompletes : evp.Completes sharedCipher (payload.take kIVSize)) :
    decryptBucketWith (sharedCipher.decrypt evp) payload = decryptBucket env payload := by
  have hDropped : (payload.drop kIVSize).length < 2 ^ 31 := by
    rw [List.length_drop]
    omega
  rw [decryptBucket, decryptBucketWith, decryptBucketWith, CtrCipher.decrypt,
    encrypt_eq_aesCtr hEvp hDropped hCompletes]
  rfl

/-- A payload whose length turns negative in the conversion to `int` is refused. -/
theorem not_storable_of_negative (hEvp : evp.CounterMode keystream) {nodeCount index : UInt64}
    (hNegative : 2 ^ 31 ≤ (payload.length - kIVSize) % 2 ^ 32) :
    ¬ Storable (sharedCipher.decrypt evp) nodeCount (index, payload) := by
  rintro ⟨hSize, _, bucket, hBucket⟩
  dsimp only at hSize hBucket
  have hLe : kIVSize ≤ payload.length := by
    by_contra hShort
    rw [Nat.sub_eq_zero_of_le (by omega)] at hNegative
    omega
  have hDropped : (payload.drop kIVSize).length < 2 ^ 64 := by
    rw [List.length_drop]
    simp only [vectorMaxSize] at hSize
    omega
  have hIv : (payload.take kIVSize).length = kIVSize := List.length_take_of_le hLe
  obtain ⟨e, hThrows⟩ := @cipherOperation_throws evp keystream sharedCipher
    (List.replicate (payload.drop kIVSize).length 0) _ (payload.take kIVSize) hEvp hDropped
    (Or.inl (by rwa [List.length_drop]))
  rw [decryptBucketWith, if_neg (Nat.not_lt.mpr hLe), CtrCipher.decrypt,
    encrypt_eq_cipherOperation hIv, hThrows] at hBucket
  cases hBucket

/-- A path write is all-or-nothing exactly if nothing that it stores ahead of a bad entry makes a
difference, and the bad entry does not make the decoder read past the end. -/
theorem allOrNothing_iff (evp : Evp) (h : Validated server) (body sent : Bytes) :
    AllOrNothing (sharedCipher.decrypt evp) env server body sent ↔
      Harmless (sharedCipher.decrypt evp) env server body :=
  allOrNothing_iff_harmless h body sent

end Cipher

/-! ## A tree of three buckets -/

section Small

/-- Every bucket is full of dummies. -/
def smallTree : Server where
  numNodes := 3
  numLeaves := 2
  nodeCount := 3
  treeDir := true
  files := fun _ =>
    some (serializeBucket (toBucket (List.replicate 4 ⟨kDummyId, List.replicate kBlockSize 0⟩)))

/-- A library with the keystream of `Env.small`. -/
def smallEvp : Evp := .xorWith Env.small.keystream

/-- The encryption of a bucket under the IV of zeros. -/
def smallPayload (blocks : List Block) : Bytes :=
  List.replicate kIVSize 0 ++ Env.small.cipher.cipherOperation (serializeBucket (toBucket blocks))
    (List.replicate kIVSize 0)

theorem validated_smallTree : Validated smallTree := by simp [Validated, smallTree]

theorem counterMode_smallEvp : smallEvp.CounterMode Env.small.keystream := counterMode_xorWith _

theorem decryptBucketWith_smallPayload {blocks : List Block} (hFits : Fits blocks)
    (hSize : (smallPayload blocks).length < 2 ^ 31) :
    decryptBucketWith (sharedCipher.decrypt smallEvp) (smallPayload blocks) =
      .ok (toBucket blocks) := by
  rw [decryptBucketWith_eq counterMode_smallEvp hSize ⟨_, rfl, rfl⟩, smallPayload,
    decryptBucket_seal _ (by decide)]
  exact deserialize_toBucket hFits

theorem storable_smallPayload {blocks : List Block} {nodeCount index : UInt64} (hFits : Fits blocks)
    (hSize : (smallPayload blocks).length < 2 ^ 31) (hIndex : index < nodeCount) :
    Storable (sharedCipher.decrypt smallEvp) nodeCount (index, smallPayload blocks) :=
  ⟨by simp only [vectorMaxSize]; omega, hIndex, _, decryptBucketWith_smallPayload hFits hSize⟩

theorem refused_smallPayload {blocks : List Block} {nodeCount index : UInt64} (hFits : Fits blocks)
    (hSize : (smallPayload blocks).length < 2 ^ 31) (hIndex : nodeCount ≤ index) (rest : Bytes) :
    Refused (sharedCipher.decrypt smallEvp) nodeCount
      (encodeEntry (index, smallPayload blocks) ++ rest)
      (.outOfRange "Invalid bucket index") :=
  refused_of_index (by simp only [vectorMaxSize]; omega)
    (decryptBucketWith_smallPayload hFits hSize) hIndex

theorem fits_smallEntries : Fits [⟨2, [7]⟩] ∧ Fits [] := by
  refine ⟨⟨by decide, ?_⟩, ⟨by decide, by simp⟩⟩
  intro block hBlock
  obtain rfl := List.mem_singleton.mp hBlock
  exact show 1 < 2 ^ 64 by decide

/-- A leaf and the root are replaced. -/
def smallBatch : Bytes :=
  encodeWord 2 ++ ([(1, smallPayload [⟨2, [7]⟩]), (0, smallPayload [])].flatMap encodeEntry ++ [])

/-- A request that is acknowledged, and one whose first index is out of range. -/
theorem allOrNothing_small : Validated smallTree ∧
    (∃ connection, (Wire.handleCommandWith .small (sharedCipher.decrypt smallEvp)).run
      ⟨smallTree, 'T'.toUInt8 :: smallBatch, []⟩ = .ok () connection) ∧
    AllOrNothing (sharedCipher.decrypt smallEvp) .small smallTree smallBatch [] ∧
    AllOrNothing (sharedCipher.decrypt smallEvp) .small smallTree
      (encodeWord 2 ++ (encodeEntry (9, smallPayload []) ++ encodeEntry (0, smallPayload [])))
        [] := by
  obtain ⟨hBlock, hNone⟩ := fits_smallEntries
  refine ⟨validated_smallTree, ⟨_, rfl⟩, ?_, ?_⟩
  · apply (allOrNothing_iff smallEvp validated_smallTree _ _).mpr
    apply @harmless_of_storable _ .small smallTree [] _ (by decide)
    intro item hItem
    simp only [List.mem_cons, List.not_mem_nil, or_false] at hItem
    obtain rfl | rfl := hItem
    · exact storable_smallPayload hBlock (by decide) (by decide)
    · exact storable_smallPayload hNone (by decide) (by decide)
  · apply (allOrNothing_iff smallEvp validated_smallTree _ _).mpr
    have hRefused :=
      @refused_smallPayload [] 3 9 hNone (by decide) (by decide) (encodeEntry (0, smallPayload []))
    exact @harmless_of_blocked _ .small smallTree _ hRefused.blocked
      (hRefused.defined.mp (by simp [Exception.Defined]))

/-- The root is replaced before the index 9 is found to be out of range. -/
theorem writePath_leaves_half : Validated smallTree ∧
    ¬ AllOrNothing (sharedCipher.decrypt smallEvp) .small smallTree
      (encodeWord 2 ++ (encodeEntry (0, smallPayload []) ++ encodeEntry (9, smallPayload [])))
        [] := by
  obtain ⟨_, hNone⟩ := fits_smallEntries
  refine ⟨validated_smallTree, fun hAll => ?_⟩
  have hHarmless := (@allOrNothing_iff_of_count _ .small smallTree [] _ validated_smallTree).mp hAll
  have hStorable : ∀ item ∈ [((0 : UInt64), smallPayload [])],
      Storable (sharedCipher.decrypt smallEvp) 3 item := by
    intro item hItem
    obtain rfl := List.mem_singleton.mp hItem
    exact storable_smallPayload hNone (by decide) (by decide)
  have hRefused := @refused_smallPayload [] 3 9 hNone (by decide) (by decide) []
  rw [List.append_nil] at hRefused
  obtain ⟨hSame, _⟩ :=
    hHarmless _ (encodeEntry (9, smallPayload [])) (by simp) (by decide) hStorable hRefused.blocked
  obtain ⟨bucket, hBucket, hFile⟩ := hSame.listed [] _ [] rfl (by simp)
  obtain rfl := Except.ok.inj
    ((decryptBucketWith_smallPayload hNone (by decide)).symm.trans hBucket)
  have hLength := congrArg List.length (Option.some.inj hFile)
  rw [length_serializeBucket, length_serializeBucket] at hLength
  simp [toBucket] at hLength

end Small

end OramHub.PathOram
