import OramHub.PathOram.Decoding

/-! # Requests to an initialised server

What the client's four request functions return, which files they leave behind and which messages
they exchange with the server, for any buckets of the tree in any order.
-/
namespace OramHub.PathOram
open OramHub.Core OramHub.Program OramHub.Crypto
set_option autoImplicit false

/-- Requests that a server has answered one after another. -/
inductive Conversation (env : Env) : Server → List Event → Server → Prop
  | nil {server : Server} : Conversation env server [] server
  | cons {server middle final : Server} {event : Event} {events : List Event} :
      (handleRequest env event.request).run server = .ok event.response middle →
      Conversation env middle events final → Conversation env server (event :: events) final

/-- Nothing but these messages has been exchanged on the way from `w` to `w'`. -/
structure Exchanged (env : Env) (w : World) (events : List Event) (w' : World) : Prop where
  conversation : Conversation env w.server events w'.server
  world : ∃ ivs, w' = { w with ivs := ivs, server := w'.server, log := w.log ++ events }

/-- The blocks that the server takes from a bucket. -/
def received (bucket : Bucket) : List Block := bucket.blocks.take kBucketSize

structure Encloses (env : Env) (payload : Bytes) (bucket : Bucket) : Prop where
  decrypt : decryptBucket env payload = .ok (toBucket (received bucket))
  length : payload.length = payloadSize bucket.blocks

/-- Indices for a path request: as many as a path has, of buckets of the tree. -/
structure Batch (env : Env) (path : List UInt64) : Prop where
  length : path.length = env.height + 1
  nodes : ∀ index ∈ path, index.toNat ∈ env.nodes

variable {env : Env} {w w' w'' : World} {files : Nat → Option Bytes} {events events' : List Event}

theorem Conversation.append {server middle final : Server}
    (h : Conversation env server events middle) (hNext : Conversation env middle events' final) :
    Conversation env server (events ++ events') final := by
  induction h with
  | nil => exact hNext
  | cons hRun _ ih => exact .cons hRun (ih hNext)

theorem Exchanged.trans (h : Exchanged env w events w') (hNext : Exchanged env w' events' w'') :
    Exchanged env w (events ++ events') w'' := by
  obtain ⟨hConversation, ivs, hWorld⟩ := h
  obtain ⟨hConversation', ivs', hWorld'⟩ := hNext
  refine ⟨hConversation.append hConversation', ivs', hWorld'.trans ?_⟩
  rw [hWorld, List.append_assoc]

theorem Exchanged.withIvs (w : World) (ivs : Nat) : Exchanged env w [] { w with ivs := ivs } :=
  ⟨.nil, ivs, by rw [List.append_nil]⟩

theorem Exchanged.server_eq (h : Exchanged env w [] w') : w'.server = w.server := by
  generalize hServer : w'.server = server
  have hConversation := hServer ▸ h.conversation
  cases hConversation
  rfl

/-- Where a request is handled, where its handler throws, and where the connection is closed. -/
theorem wp_roundTrip {request : Request} {post : Response → World → Prop}
    {raised : Exception → World → Prop} (hHandled : ∀ response server, w.server.running = true →
      (handleRequest env request).run w.server = .ok response server →
      post response { w with server := server, log := w.log ++ [⟨request, response⟩] })
    (hFailed : ∀ e server, w.server.running = true →
      (handleRequest env request).run w.server = .error e server → request.answered = true →
      raised (.runtimeError "NetIO recv failed")
        { w with server := { server with running := false } })
    (hSilent : ∀ e server, w.server.running = true →
      (handleRequest env request).run w.server = .error e server → request.answered = false →
      post .silent { w with server := { server with running := false } })
    (hClosed : w.server.running = false → raised (.runtimeError "NetIO send failed") w) :
    wp (roundTrip env request) w post raised := by
  simp only [wp, roundTrip, EStateM.run]
  cases hRunning : w.server.running with
  | false => exact hClosed hRunning
  | true =>
    cases hRun : handleRequest env request w.server with
    | ok response server => exact hHandled response server hRunning hRun
    | error e server =>
      cases hAnswered : request.answered with
      | true => exact hFailed e server hRunning hRun hAnswered
      | false => exact hSilent e server hRunning hRun hAnswered

theorem roundTrip_eq_ok {request : Request} {response : Response}
    (hAnswered : request.answered = true) (h : (roundTrip env request).run w = .ok response w') :
    w.server.running = true ∧ ∃ server,
      (handleRequest env request).run w.server = .ok response server ∧
      w' = { w with server := server, log := w.log ++ [⟨request, response⟩] } := by
  have hOutcome : wp (roundTrip env request) w (fun response w' => w.server.running = true ∧
      ∃ server, (handleRequest env request).run w.server = .ok response server ∧
        w' = { w with server := server, log := w.log ++ [⟨request, response⟩] })
      fun _ _ => True := by
    refine wp_roundTrip (fun _ server hRunning hRun => ⟨hRunning, server, hRun, rfl⟩)
      (fun _ _ _ _ _ => trivial) (fun _ _ _ _ hUnanswered => ?_) fun _ => trivial
    rw [hAnswered] at hUnanswered
    cases hUnanswered
  exact (wp_iff.mp hOutcome).1 response w' h

theorem roundTrip_run (request : Request) {post : Response → Server → Prop}
    (hRunning : w.server.running = true)
    (hHandler : Returns (handleRequest env request) w.server post) :
    Returns (roundTrip env request) w fun response w' =>
      post response w'.server ∧ Exchanged env w [⟨request, response⟩] w' := by
  obtain ⟨hPost, hNever⟩ := wp_iff.mp hHandler
  refine wp_roundTrip (fun response server _ hRun => ?_)
    (fun e server _ hRun _ => hNever e server hRun)
    (fun e server _ hRun _ => (hNever e server hRun).elim) fun hClosed => ?_
  · exact ⟨hPost response server hRun, .cons hRun .nil, w.ivs, rfl⟩
  · rw [hRunning] at hClosed
    cases hClosed

section Encryption

variable {bucket : Bucket} {buckets : List Bucket} {payloads : List Bytes}

theorem Fits.encodable (h : Fits bucket.blocks) : bucket.Encodable :=
  ⟨lt_of_le_of_lt h.room (by decide), h.sized⟩

theorem received_of_fits (h : Fits bucket.blocks) : received bucket = bucket.blocks :=
  List.take_of_length_le h.room

theorem length_received (bucket : Bucket) : (received bucket).length ≤ kBucketSize :=
  List.length_take_le _ _

theorem encryptBucket_spec (h : bucket.Encodable) :
    Returns (encryptBucket env bucket) w fun payload w' => Encloses env payload bucket ∧
    Exchanged env w [] w' := by
  have hIv := length_iv (env.entropy.iv w.ivs)
  apply Returns.get_bind
  apply Returns.set_bind
  refine Returns.fromExcept (sealBucket_eq bucket hIv) ⟨⟨?_, length_seal bucket hIv⟩, ?_⟩
  · rw [decryptBucket_seal _ hIv]
    exact deserializeBucket_eq_ok_iff.mpr ⟨bucket.blocks, [], h.announces, rfl⟩
  · exact Exchanged.withIvs w _

theorem encryptBuckets_spec (h : ∀ bucket ∈ buckets, bucket.Encodable) :
    Returns (buckets.mapM (encryptBucket env)) w fun payloads w' =>
      List.Forall₂ (Encloses env) payloads buckets ∧ Exchanged env w [] w' := by
  apply Returns.mapM (Exchanged env w []) (Encloses env) (Exchanged.withIvs w w.ivs)
  intro bucket hBucket w' hExchanged
  apply (encryptBucket_spec (h bucket hBucket)).mono
  exact fun payload w'' hNext => ⟨hNext.1, hExchanged.trans hNext.2⟩

theorem delivers_zip {path : List UInt64} (h : List.Forall₂ (Encloses env) payloads buckets)
    (hLength : path.length = buckets.length) :
    Delivers env (path.zip payloads) (path.zip (buckets.map received)) := by
  induction h generalizing path with
  | nil =>
    rw [List.map_nil, List.zip_nil_right, List.zip_nil_right]
    exact .nil
  | cons hHead _ ih =>
    cases path with
    | nil => cases hLength
    | cons index path =>
      rw [List.map_cons, List.zip_cons_cons, List.zip_cons_cons]
      exact .cons ⟨rfl, hHead.decrypt⟩ (ih (Nat.succ_injective hLength))

end Encryption

section Buckets

variable {index : UInt64}

theorem readBucketFromServer_run (h : Serving env w.server files) (hIndex : index.toNat ∈ env.nodes)
    {blocks : List Block} (hFile : Contains files index.toNat blocks) (hFits : Fits blocks) :
    Returns (readBucketFromServer env index) w fun bucket w' => bucket = toBucket blocks ∧
    Serving env w'.server files ∧
      ∃ payload, Opens env payload blocks ∧
      Exchanged env w [⟨.readBucket index, .bucket payload⟩] w' := by
  apply (roundTrip_run (.readBucket index) h.running
    (handleReadBucket_spec h hIndex hFile hFits)).bind
  rintro _ w' ⟨⟨hServing, payload, rfl, hOpens⟩, hExchanged⟩
  exact Returns.fromExcept hOpens.decrypt ⟨rfl, hServing, payload, hOpens, hExchanged⟩

theorem writeBucketToServer_run (h : Serving env w.server files)
    (hIndex : index.toNat ∈ env.nodes) {bucket : Bucket} (hBucket : bucket.Encodable) :
    Returns (writeBucketToServer env index bucket) w fun _ w' =>
      Serving env w'.server (storeBuckets files [(index, received bucket)]) ∧
        ∃ payload, Encloses env payload bucket ∧
        Exchanged env w [⟨.writeBucket index payload, .silent⟩] w' := by
  apply (encryptBucket_spec hBucket).bind
  intro payload middle ⟨hEncloses, hSealed⟩
  have hServing : Serving env middle.server files := hSealed.server_eq ▸ h
  have hHandler := handleWriteBucket_spec hServing hIndex hEncloses.decrypt (length_received bucket)
  apply (roundTrip_run (.writeBucket index payload) hServing.running hHandler).bind
  rintro _ w' ⟨⟨rfl, hStored⟩, hExchanged⟩
  exact Returns.pure ⟨hStored, payload, hEncloses, hSealed.trans hExchanged⟩

end Buckets

section Paths

variable {path : List UInt64}

theorem decryptEach_spec {payloads : List Bytes} {content : Nat → List Block}
    (h : List.Forall₂ (fun payload index => Opens env payload (content index.toNat))
      payloads path) :
    decryptEach env payloads = .ok (path.map fun index => toBucket (content index.toNat)) := by
  apply mapM_eq_ok
  rw [List.forall₂_map_right_iff]
  exact h.imp fun _ _ hOpens => hOpens.decrypt

theorem readPathFromServer_run (h : Serving env w.server files) (hPath : Batch env path)
    {content : Nat → List Block}
    (hFiles : ∀ index ∈ path, Contains files index.toNat (content index.toNat) ∧
      Fits (content index.toNat)) :
    Returns (readPathFromServer env path) w fun buckets w' =>
      buckets = path.map (fun index => toBucket (content index.toNat)) ∧
      Serving env w'.server files ∧
        ∃ payloads, List.Forall₂ (fun payload index => Opens env payload (content index.toNat))
          payloads path ∧
          Exchanged env w [⟨.readPath (UInt64.ofNat path.length) path,
            .path (UInt64.ofNat path.length) payloads⟩] w' := by
  apply (roundTrip_run (.readPath _ path) h.running
    (handleReadPath_spec h hPath.length hPath.nodes hFiles)).bind
  rintro _ w' ⟨⟨hServing, payloads, rfl, hPayloads⟩, hExchanged⟩
  refine Returns.check_bind (not_not.mpr rfl) (Returns.fromExcept (decryptEach_spec hPayloads) ?_)
  exact ⟨rfl, hServing, payloads, hPayloads, hExchanged⟩

theorem writePathToServer_run (h : Serving env w.server files) (hPath : Batch env path)
    {buckets : List Bucket}
    (hSame : path.length = buckets.length) (hBuckets : ∀ bucket ∈ buckets, bucket.Encodable) :
    Returns (writePathToServer env path buckets) w fun _ w' =>
      Serving env w'.server (storeBuckets files (path.zip (buckets.map received))) ∧
        ∃ payloads, List.Forall₂ (Encloses env) payloads buckets ∧
          Exchanged env w [⟨.writePath (UInt64.ofNat path.length) (path.zip payloads), .ack⟩]
            w' := by
  apply Returns.check_bind (not_not.mpr hSame)
  apply (encryptBuckets_spec hBuckets).bind
  intro payloads middle ⟨hPayloads, hSealed⟩
  have hServing : Serving env middle.server files := hSealed.server_eq ▸ h
  have hSent : (path.zip payloads).length = path.length := by
    rw [List.length_zip, hPayloads.length_eq, hSame, Nat.min_self]
  have hHandler : Returns
      (handleRequest env (.writePath (UInt64.ofNat path.length) (path.zip payloads))) middle.server
      fun response server =>
        response = .ack ∧
            Serving env server (storeBuckets files (path.zip (buckets.map received))) := by
    rw [← hSent]
    apply handleWritePath_spec hServing (delivers_zip hPayloads hSame) (hSent.trans hPath.length)
    · exact fun write hWrite => hPath.nodes _ (List.of_mem_zip hWrite).1
    · intro write hWrite
      obtain ⟨bucket, _, hBucket⟩ := List.mem_map.mp (List.of_mem_zip hWrite).2
      exact hBucket ▸ length_received bucket
  apply (roundTrip_run _ hServing.running hHandler).bind
  rintro _ w' ⟨⟨rfl, hStored⟩, hExchanged⟩
  exact Returns.throwIf (not_not.mpr rfl) ⟨hStored, payloads, hPayloads, hSealed.trans hExchanged⟩

end Paths
end OramHub.PathOram
