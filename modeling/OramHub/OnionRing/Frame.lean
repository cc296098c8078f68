import OramHub.Lib.Preservation
import OramHub.OnionRing.Runs

/-! # What evictions and accesses leave alone

A message changes the server and the log, an eviction also the id map and the draws. An invariant
that allows for these changes survives evictions and accesses, whether they return or throw.
-/
namespace OramHub.OnionRing
open OramHub.Core OramHub.Program
set_option autoImplicit false

/-- The buckets that the eviction with this counter passes. -/
def evictionPath (cfg : RuntimeConfig) (numLeaves counter : UInt64) : List Nat :=
  getPathIndices cfg (reverseBits (counter % numLeaves) cfg.height)

/-- The loop of `Evict`. -/
def tripletEvicts (env : Env) (path : List Nat) : OnionM env Unit :=
  forM (List.range (path.length - 1)) fun depth => do
    let sourceIdx := path.getD depth 0
    tripletEvict env sourceIdx (2 * sourceIdx + 1) (2 * sourceIdx + 2)

/-- An eviction along a path. -/
def evictAlong (env : Env) (path : List Nat) : OnionM env Unit := do
  tripletEvicts env path
  leafRefresh env (path.getLastD 0)

/-- What a client asks for: one selection for each level, and slots that it has exported. -/
def Request.Sent (env : Env) : Request → Prop
  | .access _ selections => selections.length = env.cfg.height + 1
  | .clearPath _ selections => selections.length = env.cfg.height + 1
  | .readBucket _ => True
  | .writeSlot _ _ bytes => ∃ ciphertext, env.tfhe.exportSample ciphertext = bytes
  | .quit => True

/-- The invariant survives what a client asks for, draws and placements. -/
structure Framed (env : Env) (inv : World env.Ciphertext → Prop) : Prop where
  own : ∀ w idMap prng noise, inv w → inv { w with idMap := idMap, prng := prng, noise := noise }
  exchange : ∀ request, request.Sent env → Preserves inv (roundTrip env request) fun _ => True

/-- The invariant survives whole accesses. -/
structure Lasting (env : Env) (inv : World env.Ciphertext → Prop) : Prop extends
    Framed env inv where
  counters : ∀ w accessCount evictionCounter, inv w →
    inv { w with accessCount := accessCount, evictionCounter := evictionCounter }
  positions : ∀ w addr leaf, inv w → inv { w with positionMap := w.positionMap.set addr leaf }

section Frame

variable {env : Env} {inv : World env.Ciphertext → Prop}

/-- An invariant that depends neither on the server nor on what is added to the log. -/
theorem framed_of_world (h : ∀ w idMap prng noise server events, inv w →
    inv { w with
      idMap := idMap
      prng := prng
      noise := noise
      server := server
      log := w.log ++ events }) : Framed env inv := by
  have hSilent (w : World env.Ciphertext) (idMap prng noise server) (hInv : inv w) :
      inv { w with idMap := idMap, prng := prng, noise := noise, server := server } := by
    have hSame := h w idMap prng noise server [] hInv
    rwa [List.append_nil] at hSame
  constructor
  case own => exact fun w idMap prng noise hInv => hSilent w idMap prng noise w.server hInv
  case exchange =>
    intro request _ w hInv
    refine wp_roundTrip (fun response server _ _ => ⟨trivial, ?_⟩) (fun e server _ _ => ?_)
      fun _ => hInv
    · exact h w w.idMap w.prng w.noise server [⟨request, response⟩] hInv
    · exact hSilent w w.idMap w.prng w.noise { server with running := false } hInv

theorem preserves_recvItem {σ α : Type} {inv : σ → Prop} (items : List α) (i : Nat) :
    Preserves inv (recvItem items i) fun _ => True := by
  rw [recvItem]
  split
  · exact Preserves.pure trivial
  · exact Preserves.throw _

variable (hFramed : Framed env inv)
include hFramed

theorem fetchBucketCiphertexts_framed (b : Nat) :
    Preserves inv (fetchBucketCiphertexts env b) fun _ => True := by
  apply (hFramed.exchange (.readBucket _) trivial).bind
  intro response _
  cases response with
  | bucket slots =>
    exact (Preserves.mapM fun slot _ => preserves_recvItem slots slot).map _ fun _ _ => trivial
  | pathSum => exact Preserves.throw _
  | ack => exact Preserves.throw _
  | silent => exact Preserves.throw _

theorem writeBackSlot_framed (b slot : Nat) (ciphertext : env.Ciphertext) :
    Preserves inv (writeBackSlot env b slot ciphertext) fun _ => True := by
  apply (hFramed.exchange (.writeSlot _ _ _) ⟨ciphertext, rfl⟩).bind
  intro response _
  exact (Preserves.check _).mono fun _ _ => trivial

theorem writeBucketCiphertexts_framed (b : Nat) (ciphertexts : List env.Ciphertext) :
    Preserves inv (writeBucketCiphertexts env b ciphertexts) fun _ => True := by
  apply (Preserves.check _).bind
  intro _ _
  apply Preserves.forM
  intro slot _
  apply (preserves_recvItem ciphertexts slot).bind
  intro ciphertext _
  exact writeBackSlot_framed hFramed b slot ciphertext

theorem fetchPathSum_framed (leaf : UInt64) {selections : List Nat}
    (hLength : selections.length = env.cfg.height + 1) :
    Preserves inv (fetchPathSum env leaf selections) fun _ => True := by
  apply (hFramed.exchange (.access leaf _) ((List.length_map _).trans hLength)).bind
  intro response _
  cases response with
  | pathSum => exact Preserves.pure trivial
  | bucket => exact Preserves.throw _
  | ack => exact Preserves.throw _
  | silent => exact Preserves.throw _

theorem clearPathSlots_framed (leaf : UInt64) {selections : List Nat}
    (hLength : selections.length = env.cfg.height + 1) :
    Preserves inv (clearPathSlots env leaf selections) fun _ => True := by
  apply (hFramed.exchange (.clearPath leaf _) ((List.length_map _).trans hLength)).bind
  intro response _
  exact (Preserves.check _).mono fun _ _ => trivial

theorem getRandomLeaf_framed : Preserves inv (getRandomLeaf env) fun _ => True := by
  intro w hInv
  apply Returns.outcome
  exact Returns.get_bind (Returns.set_bind (Returns.pure ⟨trivial, hFramed.own _ _ _ _ hInv⟩))

theorem makeRandomPermutation_framed (size : Nat) :
    Preserves inv (makeRandomPermutation env size) fun _ => True := by
  intro w hInv
  apply Returns.outcome
  exact Returns.get_bind (Returns.set_bind (Returns.pure ⟨trivial, hFramed.own _ _ _ _ hInv⟩))

theorem setIds_framed (b : Nat) (ids : List Int) :
    Preserves inv (setIds env b ids) fun _ => True :=
  Preserves.modify fun _ hInv => hFramed.own _ _ _ _ hInv

theorem tripletEvict_framed (sourceIdx leftIdx rightIdx : Nat) :
    Preserves inv (tripletEvict env sourceIdx leftIdx rightIdx) fun _ => True := by
  apply (fetchBucketCiphertexts_framed hFramed _).bind
  intro sourceBucket _
  apply (fetchBucketCiphertexts_framed hFramed _).bind
  intro leftBucket _
  apply (fetchBucketCiphertexts_framed hFramed _).bind
  intro rightBucket _
  apply Preserves.get_bind
  intro world
  apply (Preserves.fromExcept _).bind
  intro routed _
  apply (Preserves.check _).bind
  intro _ _
  apply (makeRandomPermutation_framed hFramed _).bind
  intro leftPermutation _
  apply (makeRandomPermutation_framed hFramed _).bind
  intro rightPermutation _
  apply (Preserves.fromExcept _).bind
  intro leftOutput _
  apply (Preserves.fromExcept _).bind
  intro rightOutput _
  apply (writeBucketCiphertexts_framed hFramed _ _).bind
  intro _ _
  apply (writeBucketCiphertexts_framed hFramed _ _).bind
  intro _ _
  apply (writeBucketCiphertexts_framed hFramed _ _).bind
  intro _ _
  apply (setIds_framed hFramed _ _).bind
  intro _ _
  apply (Preserves.fromExcept _).bind
  intro leftIds _
  apply (setIds_framed hFramed _ _).bind
  intro _ _
  apply (Preserves.fromExcept _).bind
  intro rightIds _
  exact setIds_framed hFramed _ _

theorem encryptBlock_framed (block : Bytes) :
    Preserves inv (encryptBlock env block) fun _ => True := by
  apply (Preserves.fromExcept _).bind
  intro poly _ w hInv
  apply Returns.outcome
  exact Returns.get_bind (Returns.set_bind (Returns.pure ⟨trivial, hFramed.own _ _ _ _ hInv⟩))

theorem refreshSlot_framed (ciphertext : env.Ciphertext) :
    Preserves inv (refreshSlot env ciphertext) fun _ => True := by
  apply (Preserves.fromExcept _).bind
  intro plaintext _
  exact encryptBlock_framed hFramed plaintext

theorem leafRefresh_framed (b : Nat) : Preserves inv (leafRefresh env b) fun _ => True := by
  apply (fetchBucketCiphertexts_framed hFramed _).bind
  intro bucket _
  apply (Preserves.mapM fun ciphertext _ => refreshSlot_framed hFramed ciphertext).bind
  intro refreshed _
  apply (makeRandomPermutation_framed hFramed _).bind
  intro permutation _
  apply Preserves.get_bind
  intro world
  apply (Preserves.fromExcept _).bind
  intro output _
  apply (writeBucketCiphertexts_framed hFramed _ _).bind
  intro _ _
  apply (Preserves.fromExcept _).bind
  intro ids _
  exact setIds_framed hFramed _ _

theorem tripletEvicts_framed (path : List Nat) :
    Preserves inv (tripletEvicts env path) fun _ => True :=
  Preserves.forM fun _ _ => tripletEvict_framed hFramed _ _ _

theorem evictAlong_framed (path : List Nat) :
    Preserves inv (evictAlong env path) fun _ => True := by
  apply (tripletEvicts_framed hFramed path).bind
  intro _ _
  exact leafRefresh_framed hFramed _

end Frame

/-- An eviction moves the counter on, then goes down the path that the old counter gives. -/
theorem evict_run {env : Env} (w : World env.Ciphertext) : (evict env).run w =
    (evictAlong env (evictionPath env.cfg w.numLeaves w.evictionCounter)).run
      { w with evictionCounter := w.evictionCounter + 1 } := rfl

section Accesses

variable {env : Env} {inv : World env.Ciphertext → Prop} (hLasting : Lasting env inv)
include hLasting

theorem evict_lasting : Preserves inv (evict env) fun _ => True := by
  apply Preserves.get_bind
  intro world
  dsimp only
  apply Preserves.modify_bind
  · exact fun w hInv => hLasting.counters w w.accessCount _ hInv
  exact evictAlong_framed hLasting.toFramed
    (evictionPath env.cfg world.numLeaves world.evictionCounter)

theorem chooseRootSlot_lasting (addr : UInt64) :
    Preserves inv (chooseRootSlot env addr) fun _ => True := by
  apply Preserves.get_bind
  intro world
  dsimp only
  split_ifs
  · apply (evict_lasting hLasting).bind
    intro _ _
    exact Preserves.get_bind fun _ => Preserves.pure trivial
  · exact Preserves.pure trivial
  · exact Preserves.pure trivial

theorem writeBackBlock_lasting (addr : UInt64) (block : Bytes) :
    Preserves inv (writeBackBlock env addr block) fun _ => True := by
  apply (chooseRootSlot_lasting hLasting addr).bind
  intro rootSlot _
  apply Preserves.get_bind
  intro world
  apply (Preserves.check _).bind
  intro _ _
  apply (encryptBlock_framed hLasting.toFramed block).bind
  intro updated _
  apply (writeBackSlot_framed hLasting.toFramed 0 rootSlot updated).bind
  intro _ _
  exact setIds_framed hLasting.toFramed _ _

theorem updateBlock_lasting (op : Op) (addr : UInt64) (data : Bytes) :
    Preserves inv (updateBlock env op addr data) fun _ => True := by
  apply Preserves.get_bind
  intro world
  apply (Preserves.fromExcept _).bind
  intro oldLeaf _
  apply (getRandomLeaf_framed hLasting.toFramed).bind
  intro newLeaf _
  apply Preserves.modify_bind
  · exact fun w hInv => hLasting.positions w _ _ hInv
  apply (Preserves.fromExcept _).bind
  intro selections hSelect
  have hLength : selections.length = env.cfg.height + 1 :=
    (selectSlots_eq_ok hSelect).1.trans (length_getPathIndices _ _)
  apply (fetchPathSum_framed hLasting.toFramed oldLeaf hLength).bind
  intro pathSum _
  apply (clearPathSlots_framed hLasting.toFramed oldLeaf hLength).bind
  intro _ _
  apply Preserves.modify_bind
  · exact fun w hInv => hLasting.own w _ w.prng w.noise hInv
  apply (Preserves.fromExcept _).bind
  intro block _
  apply (writeBackBlock_lasting hLasting addr _).bind
  intro _ _
  apply Preserves.modify_bind
  · exact fun w hInv => hLasting.counters w _ w.evictionCounter hInv
  exact Preserves.pure trivial

theorem performCall_lasting (call : Call) :
    Preserves inv (performCall env call) fun _ => True := by
  apply (Preserves.check _).bind
  intro _ _
  apply (Preserves.check _).bind
  intro _ _
  apply (updateBlock_lasting hLasting call.op call.addr call.data).bind
  intro result _
  apply Preserves.get_bind
  intro world
  dsimp only
  split
  · apply (evict_lasting hLasting).bind
    intro _ _
    exact Preserves.pure trivial
  · exact Preserves.pure trivial

end Accesses

end OramHub.OnionRing
