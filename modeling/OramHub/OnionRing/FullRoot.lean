import OramHub.OnionRing.Failures
import OramHub.OnionRing.Frame

/-! # Accesses that meet a full root

`Access` makes room in the root when it writes its block back. But it has to select a slot of the
root before that, and gives up when there is none, so the eviction that would make room never
starts.
-/
namespace OramHub.OnionRing
open OramHub.Core OramHub.Program
set_option autoImplicit false

/-- Every slot of the root holds a block, and none holds this one. -/
structure FullRoot (env : Env) (w : World env.Ciphertext) (addr : UInt64) : Prop where
  slots : (w.idMap 0).length = env.cfg.slots
  real : ∀ id ∈ w.idMap 0, 0 ≤ id
  other : toBlockId addr ∉ w.idMap 0

section Positions

variable {env : Env} {inv : World env.Ciphertext → Prop} {start w : World env.Ciphertext}
  {memory : Memory} {n : Nat}

/-- The position map covers `n` blocks. -/
def Covers (env : Env) (n : Nat) (w : World env.Ciphertext) : Prop := w.positionMap.length = n

theorem covers_lasting : Lasting env (Covers env n) where
  toFramed := framed_of_world fun _ _ _ _ _ _ hCovers => hCovers
  counters _ _ _ hCovers := hCovers
  positions _ _ _ hCovers := List.length_set.trans hCovers

theorem attempt_covers {call : Call} (h : Covers env n w) :
    Covers env n (attempt env call w).2 := by
  have hAccess := performCall_lasting (@covers_lasting env n) call
  rw [attempt]
  split
  · rename_i hRun
    exact hAccess.of_run h (Or.inl ⟨_, hRun⟩)
  · rename_i hRun
    exact hAccess.of_run h (Or.inr ⟨_, hRun⟩)

theorem Reached.covers {allowed : World env.Ciphertext → Call → Prop} (hStart : Covers env n start)
    (h : Reached env allowed start w memory) : Covers env n w := by
  induction h with
  | start => exact hStart
  | attempt call _ _ ih => exact attempt_covers ih

end Positions

section Failure

variable {env : Env} {start w : World env.Ciphertext} {memory : Memory} {call : Call}
  {addr : UInt64}

theorem getPathIndices_eq_cons (cfg : RuntimeConfig) (leaf : UInt64) :
    ∃ rest, getPathIndices cfg leaf = 0 :: rest := by
  rw [getPathIndices]
  cases cfg.height with
  | zero => exact ⟨[], rfl⟩
  | succ levels => exact ⟨_, rfl⟩

theorem FullRoot.selectSlots_eq (h : FullRoot env w addr) (leaf : UInt64) :
    selectSlots w.idMap (getPathIndices env.cfg leaf) addr = .error noSlot := by
  obtain ⟨rest, hPath⟩ := getPathIndices_eq_cons env.cfg leaf
  have hMissing : findSlot (w.idMap 0) (toBlockId addr) = (w.idMap 0).length :=
    not_not.mp fun hNe => h.other (findSlot_ne_length.mp hNe)
  have hFull : findFirstDummySlot (w.idMap 0) = (w.idMap 0).length :=
    not_not.mp fun hNe => absurd (h.real _ (findSlot_ne_length.mp hNe)) (by decide)
  have hRoot : selectSlot (w.idMap 0) addr = .error noSlot := by
    simp only [selectSlot, hMissing, hFull, if_true]
    rfl
  rw [selectSlots, hPath, List.mapM_cons, hRoot]
  rfl

/-- With a full root the access stops before it sends anything. -/
theorem FullRoot.access_eq (h : FullRoot env w call.addr)
    (hCovers : Covers env env.cfg.numBlocks.toNat w) (hValid : ValidCall env.cfg call) :
    attempt env call w = (.error noSlot, { w with
      prng := w.prng + 1
      positionMap := w.positionMap.set call.addr.toNat (drawnLeaf env w) }) := by
  have hLt : call.addr.toNat < w.positionMap.length := hCovers ▸ UInt64.lt_iff_toNat_lt.mp hValid.1
  have hRead : readPosition w.positionMap call.addr.toNat = .ok w.positionMap[call.addr.toNat] := by
    rw [readPosition, List.getElem?_eq_getElem hLt]
  have hRun : (performCall env call).run w = .error noSlot { w with
      prng := w.prng + 1
      positionMap := w.positionMap.set call.addr.toNat (drawnLeaf env w) } := by
    suffices hThrows : wp (performCall env call) w (fun _ _ => False) fun e w' =>
        e = noSlot ∧ w' = { w with
          prng := w.prng + 1
          positionMap := w.positionMap.set call.addr.toNat (drawnLeaf env w) } by
      obtain ⟨hReturned, hThrew⟩ := wp_iff.mp hThrows
      cases hRun : (performCall env call).run w with
      | ok result w' => exact (hReturned _ _ hRun).elim
      | error e w' =>
        obtain ⟨rfl, rfl⟩ := hThrew _ _ hRun
        rfl
    apply wp.check_bind
    · exact fun hLarge => absurd hValid.1 (UInt64.not_lt.mpr hLarge)
    intro _
    apply wp.check_bind
    · exact fun hBad => absurd (hValid.2 hBad.1) hBad.2
    intro _
    apply wp.bind _ fun _ _ => False.elim
    refine wp.get_bind (wp.ok_bind hRead (Returns.outcome_bind getRandomLeaf_spec ?_))
    rintro _ _ ⟨rfl, rfl⟩
    apply wp.modify_bind
    apply wp.fromExcept_bind
    · intro e hError
      rw [h.selectSlots_eq] at hError
      cases hError
      exact ⟨rfl, rfl⟩
    · intro selections hOk
      rw [h.selectSlots_eq] at hOk
      cases hOk
  rw [attempt, hRun]

/-- A full root is never made room in: the access throws, and no eviction starts. -/
theorem access_throws_of_fullRoot {allowed : World env.Ciphertext → Call → Prop}
    (hSetUp : (setUp env).run {} = .ok () start)
    (h : Reached env allowed start w memory) (hValid : ValidCall env.cfg call)
    (hFull : FullRoot env w call.addr) :
    (attempt env call w).1 = .error noSlot ∧
    (attempt env call w).2.evictionCounter = w.evictionCounter ∧
      (attempt env call w).2.log = w.log ∧
      ¬ ∃ w', attempt env call w = (.ok (memory.result call.op call.addr call.data), w') := by
  have hCovers := h.covers (setUp_spec.post_of_run hSetUp).coherent.placement.positions
  rw [hFull.access_eq hCovers hValid]
  refine ⟨rfl, rfl, rfl, ?_⟩
  rintro ⟨w', hReturned⟩
  cases hReturned

end Failure

section Small

/-- Two leaves, two slots in a bucket, three blocks, and evictions only to make room. -/
def Env.cramped : Env where
  cfg := { z := 1, s := 1, a := 0, treeHeight := 1, numBlocks := 3, blockSize := 1, tlweN := 1 }
  entropy := ⟨fun tick => tick, fun _ _ => Equiv.refl _, fun _ => Vector.replicate 16 0⟩
  tfhe := Tfhe.plain 1

/-- Two blocks fill the root. -/
def fullState : World Env.cramped.Ciphertext × Memory :=
  afterAttempts .cramped (startOf .cramped, Memory.zero Env.cramped.cfg.blockSize.toNat)
    [⟨.write, 0, [7]⟩, ⟨.write, 1, [8]⟩]

theorem setUp_cramped : (setUp .cramped).run {} = .ok () (startOf .cramped) :=
  setUp_run ⟨by decide, by decide, by decide, by decide⟩

theorem reached_fullState :
    Reached .cramped (fun _ _ => True) (startOf .cramped) fullState.1 fullState.2 :=
  Reached.afterAttempts (fun _ _ => trivial) .start _

theorem fullRoot_fullState : FullRoot .cramped fullState.1 2 := by
  have hIds : fullState.1.idMap 0 = [0, 1] := by decide +kernel
  constructor
  case slots =>
    rw [hIds]
    rfl
  case real =>
    rw [hIds]
    decide
  case other =>
    rw [hIds]
    decide

theorem access_throws_cramped : (setUp .cramped).run {} = .ok () (startOf .cramped) ∧
    Reached .cramped (fun _ _ => True) (startOf .cramped) fullState.1 fullState.2 ∧
    FullRoot .cramped fullState.1 2 ∧
    (attempt .cramped ⟨.read, 2, []⟩ fullState.1).1 = .error noSlot := by
  have hThrows := access_throws_of_fullRoot setUp_cramped reached_fullState
    (show ValidCall Env.cramped.cfg ⟨.read, 2, []⟩ by decide) fullRoot_fullState
  exact ⟨setUp_cramped, reached_fullState, fullRoot_fullState, hThrows.1⟩

/-- An eviction would make room, but the access throws before it. -/
theorem fullRoot_not_recovered : (setUp .cramped).run {} = .ok () (startOf .cramped) ∧
    Reached .cramped (fun _ _ => True) (startOf .cramped) fullState.1 fullState.2 ∧
    FullRoot .cramped fullState.1 2 ∧
    (∃ w', (evict .cramped).run fullState.1 = .ok () w' ∧ w'.idMap 0 = [-1, -1]) ∧
    ¬ ∃ result w', attempt .cramped ⟨.read, 2, []⟩ fullState.1 = (.ok result, w') := by
  refine ⟨setUp_cramped, reached_fullState, fullRoot_fullState, ?_, ?_⟩
  · have hEmpty : (match (evict .cramped).run fullState.1 with
        | .ok _ w' => w'.idMap 0
        | .error _ _ => []) = [-1, -1] := by decide +kernel
    cases hRun : (evict .cramped).run fullState.1 with
    | ok _ w' =>
      rw [hRun] at hEmpty
      exact ⟨w', rfl, hEmpty⟩
    | error e w' =>
      rw [hRun] at hEmpty
      cases hEmpty
  · have hThrew : (attempt .cramped ⟨.read, 2, []⟩ fullState.1).1 = .error noSlot := by
      decide +kernel
    rintro ⟨result, w', hReturned⟩
    rw [hReturned] at hThrew
    cases hThrew

end Small
end OramHub.OnionRing
