import OramHub.OnionRing.Storage

/-! # What the client's messages do

A message changes the tree of the server and the log, and nothing that the client keeps.
-/
namespace OramHub.OnionRing
open OramHub.Core OramHub.Program OramHub.Updates
set_option autoImplicit false

variable {env : Env} {w : World env.Ciphertext}

/-- The world after some messages. -/
def World.served {C : Type} (w : World C) (tree : Nat → List C) (events : List Event) : World C :=
  { w with server := { w.server with tree := tree }, log := w.log ++ events }

theorem World.served_served {C : Type} (w : World C) (tree tree' : Nat → List C)
    (events events' : List Event) :
    (w.served tree events).served tree' events' = w.served tree' (events ++ events') := by
  rw [World.served, World.served, World.served, List.append_assoc]

theorem World.served_self {C : Type} (w : World C) : w.served w.server.tree [] = w := by
  rw [World.served, List.append_nil]

theorem Shaped.withTree {server : Server env.Ciphertext} (h : Shaped env server)
    {tree : Nat → List env.Ciphertext}
    (hRows : ∀ b ∈ env.cfg.nodes, (tree b).length = (server.tree b).length) :
    Shaped env { server with tree := tree } :=
  ⟨h.running, h.treeSize, fun b hb => (hRows b hb).trans (h.rows b hb)⟩

theorem Shaped.update {server : Server env.Ciphertext} (h : Shaped env server) {b : Nat}
    {row : List env.Ciphertext} (hLength : row.length = env.cfg.slots) :
    Shaped env { server with tree := Function.update server.tree b row } := by
  apply h.withTree
  intro other hOther
  rcases eq_or_ne other b with rfl | hNe
  · rw [Function.update_self, hLength, h.rows other hOther]
  · rw [Function.update_of_ne hNe]

/-- Where a request is answered, where its handler throws, and where the connection is closed. -/
theorem wp_roundTrip {request : Request} {post : Response → World env.Ciphertext → Prop}
    {raised : Exception → World env.Ciphertext → Prop}
    (hAnswered : ∀ response server, w.server.running = true →
      (handleRequest env request).run w.server = .ok response server →
      post response { w with server := server, log := w.log ++ [⟨request, response⟩] })
    (hFailed : ∀ e server, w.server.running = true →
      (handleRequest env request).run w.server = .error e server →
      raised (.runtimeError "NetIO recv failed")
        { w with server := { server with running := false } })
    (hClosed : w.server.running = false → raised (.runtimeError "NetIO send failed") w) :
    wp (roundTrip env request) w post raised := by
  simp only [wp, roundTrip, EStateM.run]
  cases hRunning : w.server.running with
  | false => exact hClosed hRunning
  | true =>
    cases hRun : handleRequest env request w.server with
    | ok response server => exact hAnswered response server hRunning hRun
    | error e server => exact hFailed e server hRunning hRun

theorem roundTrip_eq_ok {request : Request} {response : Response} {w' : World env.Ciphertext}
    (h : (roundTrip env request).run w = .ok response w') :
    w.server.running = true ∧ ∃ server,
      (handleRequest env request).run w.server = .ok response server ∧
      w' = { w with server := server, log := w.log ++ [⟨request, response⟩] } := by
  have hOutcome : wp (roundTrip env request) w (fun response w' => w.server.running = true ∧
      ∃ server, (handleRequest env request).run w.server = .ok response server ∧
        w' = { w with server := server, log := w.log ++ [⟨request, response⟩] }) fun _ _ => True :=
    wp_roundTrip (fun _ server hRunning hRun => ⟨hRunning, server, hRun, rfl⟩)
      (fun _ _ _ _ => trivial) fun _ => trivial
  exact (wp_iff.mp hOutcome).1 response w' h

theorem roundTrip_spec (hRunning : w.server.running = true) (request : Request)
    {answer : Response → Server env.Ciphertext → Prop}
    (hHandler : Returns (handleRequest env request) w.server answer) :
    Returns (roundTrip env request) w fun response w' => ∃ server, answer response server ∧
      w' = { w with server := server, log := w.log ++ [⟨request, response⟩] } := by
  obtain ⟨hAnswer, hNever⟩ := wp_iff.mp hHandler
  refine wp_roundTrip (fun response server _ hRun => ⟨server, hAnswer response server hRun, rfl⟩)
    (fun e server _ hRun => hNever e server hRun) fun hClosed => ?_
  rw [hRunning] at hClosed
  cases hClosed

section PathMessages

variable {leaf : UInt64} {selections : List Nat}

theorem fetchPathSum_spec (hHeight : env.cfg.height < 63) (h : Shaped env w.server)
    (hLeaf : leaf.toNat < 2 ^ env.cfg.height) (hLength : selections.length = env.cfg.height + 1)
    (hLt : ∀ slot ∈ selections, slot < env.cfg.slots) :
    Returns (fetchPathSum env leaf selections) w fun pathSum w' =>
      pathSum = env.tfhe.transmit
        ((((env.cfg.path leaf).zip selections).map (slotAt env w.server.tree)).foldl
          env.tfhe.tLweAddTo env.tfhe.tLweClear) ∧
      ∃ response, w' =
        w.served w.server.tree [⟨.access leaf (selections.map UInt64.ofNat), response⟩] := by
  apply (roundTrip_spec h.running (.access leaf _)
    (handleAccess_spec hHeight h hLeaf hLength hLt)).bind
  rintro _ _ ⟨_, ⟨rfl, rfl⟩, rfl⟩
  exact Returns.pure ⟨rfl, _, rfl⟩

theorem clearPathSlots_spec (hHeight : env.cfg.height < 63) (h : Shaped env w.server)
    (hLeaf : leaf.toNat < 2 ^ env.cfg.height) (hLength : selections.length = env.cfg.height + 1)
    (hLt : ∀ slot ∈ selections, slot < env.cfg.slots) :
    Returns (clearPathSlots env leaf selections) w fun _ w' => ∃ response,
      w' = w.served (clearTree env w.server.tree ((env.cfg.path leaf).zip selections))
        [⟨.clearPath leaf (selections.map UInt64.ofNat), response⟩] := by
  apply (roundTrip_spec h.running (.clearPath leaf _)
    (handleClearPath_spec hHeight h hLeaf hLength hLt)).bind
  rintro _ _ ⟨_, ⟨rfl, rfl⟩, rfl⟩
  exact Returns.throwIf (not_not.mpr rfl) ⟨_, rfl⟩

end PathMessages

section BucketMessages

variable {b : Nat}

theorem fetchBucketCiphertexts_spec (hHeight : env.cfg.height < 63) (h : Shaped env w.server)
    (hb : b ∈ env.cfg.nodes) :
    Returns (fetchBucketCiphertexts env b) w fun bucket w' =>
      bucket = (w.server.tree b).map env.tfhe.transmit ∧
      ∃ events, w' = w.served w.server.tree events := by
  apply (roundTrip_spec h.running (.readBucket _) (handleReadBucket_spec hHeight h hb)).bind
  rintro _ _ ⟨_, ⟨rfl, rfl⟩, rfl⟩
  dsimp only
  have hReceived := @recvItems_spec (World env.Ciphertext) _ { w with
    server := w.server
    log := w.log ++ [⟨.readBucket (UInt64.ofNat b),
      .bucket ((w.server.tree b).map env.tfhe.exportSample)⟩] }
    ((w.server.tree b).map env.tfhe.exportSample)
  rw [List.length_map, h.rows b hb] at hReceived
  apply hReceived.bind
  rintro _ _ ⟨rfl, rfl⟩
  exact Returns.pure ⟨List.map_map, _, rfl⟩

theorem writeBackSlot_spec (hHeight : env.cfg.height < 63) (h : Shaped env w.server)
    (hb : b ∈ env.cfg.nodes)
    {slot : Nat} (hSlot : slot < env.cfg.slots) (ciphertext : env.Ciphertext) :
    Returns (writeBackSlot env b slot ciphertext) w fun _ w' => ∃ bytes response,
      w' = w.served (Function.update w.server.tree b
        ((w.server.tree b).set slot (env.tfhe.transmit ciphertext)))
        [⟨.writeSlot (UInt64.ofNat b) (UInt64.ofNat slot) bytes, response⟩] := by
  apply (roundTrip_spec h.running (.writeSlot _ _ _)
    (handleWriteSlot_spec hHeight h hb hSlot _)).bind
  rintro _ _ ⟨_, ⟨rfl, rfl⟩, rfl⟩
  exact Returns.throwIf (not_not.mpr rfl) ⟨_, _, rfl⟩

theorem writeBucketCiphertexts_spec (hHeight : env.cfg.height < 63) (h : Shaped env w.server)
    (hb : b ∈ env.cfg.nodes) {ciphertexts : List env.Ciphertext}
    (hLength : ciphertexts.length = env.cfg.slots) :
    Returns (writeBucketCiphertexts env b ciphertexts) w fun _ w' => ∃ events,
      w' = w.served (Function.update w.server.tree b (ciphertexts.map env.tfhe.transmit))
        events := by
  have hRow := h.rows b hb
  have hSent : (ciphertexts.map env.tfhe.transmit).length = ciphertexts.length := List.length_map _
  apply Returns.check_bind (not_not.mpr hLength)
  -- The slots visited so far hold the new ciphertexts.
  refine (@Returns.forM_range Exception (World env.Ciphertext) w ciphertexts.length _
    (fun i w' => ∃ events, w' = w.served (Function.update w.server.tree b
      ((ciphertexts.map env.tfhe.transmit).take i ++ (w.server.tree b).drop i))
        events) ?_ ?_).mono ?_
  · refine ⟨[], ?_⟩
    rw [List.take_zero, List.drop_zero, List.nil_append, Function.update_eq_self, World.served_self]
  · rintro i hi _ ⟨events, rfl⟩
    have hShaped : Shaped env (w.served (Function.update w.server.tree b
        ((ciphertexts.map env.tfhe.transmit).take i ++ (w.server.tree b).drop i))
          events).server := by
      apply h.update
      rw [List.length_append, List.length_take, List.length_drop]
      omega
    apply (recvItem_spec hi).bind
    rintro _ _ ⟨rfl, rfl⟩
    apply (writeBackSlot_spec hHeight hShaped hb (hLength ▸ hi) _).mono
    rintro _ _ ⟨bytes, response, rfl⟩
    rw [World.served_served]
    refine ⟨_, congrArg (fun tree => w.served tree _) ?_⟩
    change Function.update (Function.update w.server.tree b _) b
      ((Function.update w.server.tree b _ b).set i (env.tfhe.transmit ciphertexts[i])) = _
    have hItem := set_take_append_drop (hSent ▸ hi) (show i < (w.server.tree b).length by omega)
    rw [List.getElem_map] at hItem
    rw [Function.update_idem, Function.update_self, hItem]
  · rintro _ _ ⟨events, rfl⟩
    refine ⟨events, ?_⟩
    rw [List.take_of_length_le hSent.le, List.drop_of_length_le (hRow.trans hLength.symm).le,
      List.append_nil]

end BucketMessages
end OramHub.OnionRing
