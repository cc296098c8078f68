import OramHub.OnionRing.Runs

/-! # Runs in which accesses throw

A caller may catch what an access throws and go on. Everything survives that, except an access that
finds no slot: it has already given its block another leaf.
-/
namespace OramHub.OnionRing
open OramHub.Core OramHub.Program
set_option autoImplicit false

/-- An access whose exception is caught. -/
def attempt (env : Env) (call : Call) (w : World env.Ciphertext) :
    Except Exception Bytes × World env.Ciphertext :=
  match (performCall env call).run w with
  | .ok result w' => (.ok result, w')
  | .error e w' => (.error e, w')

/-- What has been written after an attempt. An overflow comes after the block has been written. -/
def attempted (memory : Memory) (call : Call) : Except Exception Bytes → Memory
  | .ok _ => memory.store call.op call.addr call.data
  | .error e => if e = evictionOverflow then memory.store call.op call.addr call.data else memory

/-- The states that attempts lead to, with what has been written by then. -/
inductive Reached (env : Env) (allowed : World env.Ciphertext → Call → Prop)
    (start : World env.Ciphertext) :
    World env.Ciphertext → Memory → Prop
  | start : Reached env allowed start start (Memory.zero env.cfg.blockSize.toNat)
  | attempt {w : World env.Ciphertext} {memory : Memory} (call : Call) :
    Reached env allowed start w memory →
      allowed w call →
      Reached env allowed start (attempt env call w).2
        (attempted memory call (attempt env call w).1)

/-- Placement survives: blocks are where they can be found, a read that returns gives what was
written last, and an attempt that finds no slot changes nothing. -/
structure Survives (env : Env) (allowed : World env.Ciphertext → Call → Prop)
    (w : World env.Ciphertext) (memory : Memory) : Prop where
  placed : ∀ b ∈ env.cfg.nodes, ∀ id ∈ w.idMap b, 0 ≤ id →
    ∃ leaf, w.positionMap[id.toNat]? = some leaf ∧ b ∈ getPathIndices env.cfg leaf
  reads : ∀ addr bytes, (attempt env ⟨.read, addr, []⟩ w).1 = .ok bytes → bytes = memory addr
  unchanged : ∀ call, allowed w call → (attempt env call w).1 = .error noSlot →
    (attempt env call w).2.positionMap = w.positionMap ∧ (attempt env call w).2.idMap = w.idMap ∧
      (attempt env call w).2.server.tree = w.server.tree

/-- Every bucket of the path has a slot to select, or the block happens to keep its leaf. -/
def KeepsLeaf (env : Env) (w : World env.Ciphertext) (call : Call) : Prop :=
  ValidCall env.cfg call → ∀ oldLeaf, w.positionMap[call.addr.toNat]? = some oldLeaf →
    (∃ selections, selectSlots w.idMap (getPathIndices env.cfg oldLeaf) call.addr =
      .ok selections) ∨
      drawnLeaf env w = oldLeaf

variable {env : Env} {start w : World env.Ciphertext} {memory : Memory} {call : Call}

section Steps

/-- An attempt ends in one of the ways that `access_spec` lists. -/
theorem attempt_cases (hFeasible : Feasible env.cfg) (h : Coherent env w memory) (call : Call) :
    (∃ result w', attempt env call w = (.ok result, w') ∧ Accessed env w memory call result w') ∨
      ∃ e w', attempt env call w = (.error e, w') ∧ Failed env w memory call e w' := by
  have hSpec := wp_iff.mp (access_spec hFeasible h call)
  rw [attempt, performCall]
  cases hRun : (access env call.op call.addr call.data).run w with
  | ok result w' => exact Or.inl ⟨result, w', rfl, hSpec.1 _ _ hRun⟩
  | error e w' => exact Or.inr ⟨e, w', rfl, hSpec.2 _ _ hRun⟩

theorem set_self_of_getElem? {positionMap : List UInt64} {i : Nat} {leaf : UInt64}
    (h : positionMap[i]? = some leaf) :
    positionMap.set i leaf = positionMap := by
  obtain ⟨hLt, rfl⟩ := List.getElem?_eq_some_iff.mp h
  exact List.set_getElem_self hLt

theorem KeepsLeaf.drawn_eq (hFeasible : Feasible env.cfg) (h : Coherent env w memory)
    (hKeeps : KeepsLeaf env w call) (hValid : ValidCall env.cfg call) {oldLeaf : UInt64}
    (hPosition : w.positionMap[call.addr.toNat]? = some oldLeaf)
    (hNone : ∀ selections, selectSlots w.idMap (env.cfg.path oldLeaf) call.addr ≠ .ok selections) :
    w.positionMap.set call.addr.toNat (drawnLeaf env w) = w.positionMap := by
  have hLeaf := h.placement.leaves oldLeaf (List.mem_of_getElem? hPosition)
  obtain ⟨selections, hSelect⟩ | hSame := hKeeps hValid oldLeaf hPosition
  · rw [getPathIndices_eq (hFeasible.height_lt.trans (by decide)) hLeaf] at hSelect
    exact absurd hSelect (hNone selections)
  · rw [hSame]
    exact set_self_of_getElem? hPosition

theorem Coherent.attempt (hFeasible : Feasible env.cfg) (h : Coherent env w memory)
    (hKeeps : KeepsLeaf env w call) :
    Coherent env (attempt env call w).2 (attempted memory call (attempt env call w).1) := by
  obtain ⟨result, w', hAttempt, hAccess⟩ | ⟨e, w', hAttempt, hFailed⟩ :=
    attempt_cases hFeasible h call
  · rw [hAttempt]
    exact hAccess.coherent
  · rw [hAttempt, attempted]
    cases hFailed with
    | refused _ _ hNe =>
      rw [if_neg hNe]
      exact h
    | unselected hValid hPosition hNone =>
      rw [if_neg (by decide)]
      exact h.of_eq rfl rfl rfl (hKeeps.drawn_eq hFeasible h hValid hPosition hNone)
    | tooLarge _ hCoherent =>
      rw [if_neg (by decide)]
      exact hCoherent
    | overflow _ _ hCoherent =>
      rw [if_pos rfl]
      exact hCoherent

/-- The condition is exact: an attempt that finds no slot changes nothing only if the block keeps
its leaf. -/
theorem keepsLeaf_of_unchanged (hFeasible : Feasible env.cfg) (h : Coherent env w memory)
    (hNone : (OnionRing.attempt env call w).1 = .error noSlot)
    (hSame : (OnionRing.attempt env call w).2.positionMap = w.positionMap) :
    KeepsLeaf env w call := by
  intro hValid oldLeaf hOld
  obtain ⟨result, w', hAttempt, _⟩ | ⟨e, w', hAttempt, hFailed⟩ := attempt_cases hFeasible h call
  · rw [hAttempt] at hNone
    cases hNone
  · rw [hAttempt] at hNone hSame
    have hRaised := Except.error.inj hNone
    cases hFailed with
    | refused hInvalid => exact absurd hValid hInvalid
    | tooLarge => exact absurd hRaised (by decide)
    | overflow => exact absurd hRaised (by decide)
    | unselected _ hPosition _ =>
      right
      have hSet := congrArg (fun positionMap => positionMap[call.addr.toNat]?) hSame
      rw [hPosition] at hOld
      cases hOld
      rw [hPosition, List.getElem?_set_self (List.getElem?_eq_some_iff.mp hPosition).1] at hSet
      exact Option.some_inj.mp hSet

theorem Coherent.survives (hExact : env.tfhe.Exact) (hFeasible : Feasible env.cfg)
    (h : Coherent env w memory) :
    Survives env (KeepsLeaf env) w memory := by
  constructor
  case placed =>
    intro b hb id hMem hId
    obtain rfl | ⟨_, leaf, hLeaf, hPath⟩ := h.placement.placed b hb id hMem
    · exact absurd hId (by decide)
    · have hLt := h.placement.leaves leaf (List.mem_of_getElem? hLeaf)
      exact ⟨leaf, hLeaf, by rwa [getPathIndices_eq (hFeasible.height_lt.trans (by decide)) hLt]⟩
  case reads =>
    intro addr bytes hRead
    obtain ⟨result, w', hAttempt, hAccess⟩ | ⟨e, w', hAttempt, _⟩ :=
      attempt_cases hFeasible h ⟨.read, addr, []⟩
    · rw [hAttempt] at hRead
      cases hRead
      exact hAccess.result_eq hExact
    · rw [hAttempt] at hRead
      cases hRead
  case unchanged =>
    intro call hKeeps hNone
    obtain ⟨result, w', hAttempt, _⟩ | ⟨e, w', hAttempt, hFailed⟩ := attempt_cases hFeasible h call
    · rw [hAttempt] at hNone
      cases hNone
    · rw [hAttempt] at hNone ⊢
      have hRaised := Except.error.inj hNone
      cases hFailed with
      | refused _ hNe => exact absurd hRaised hNe
      | tooLarge => exact absurd hRaised (by decide)
      | overflow => exact absurd hRaised (by decide)
      | unselected hValid hPosition hUnselected =>
        exact ⟨hKeeps.drawn_eq hFeasible h hValid hPosition hUnselected, rfl, rfl⟩

end Steps

section Runs

/-- The world after `setUp`, whether it throws or not. -/
def startOf (env : Env) : World env.Ciphertext :=
  match (setUp env).run {} with
  | .ok _ w => w
  | .error _ w => w

theorem setUp_run (h : Accepted env.cfg) : (setUp env).run {} = .ok () (startOf env) := by
  obtain ⟨_, w, hRun, _⟩ := returns_iff.mp (setUp_spec.returns h)
  rw [startOf, hRun]

theorem Reached.coherent (hFeasible : Feasible env.cfg)
    (hStart : Coherent env start (Memory.zero env.cfg.blockSize.toNat))
    (h : Reached env (KeepsLeaf env) start w memory) : Coherent env w memory := by
  induction h with
  | start => exact hStart
  | attempt call _ hKeeps ih => exact ih.attempt hFeasible hKeeps

/-- In a run whose attempts all find slots or keep the leaf, placement survives. -/
theorem survives_of_reached (hExact : env.tfhe.Exact) (hSetUp : (setUp env).run {} = .ok () start)
    (h : Reached env (KeepsLeaf env) start w memory) : Survives env (KeepsLeaf env) w memory := by
  have hReady := setUp_spec.post_of_run hSetUp
  exact (h.coherent hReady.feasible hReady.coherent).survives hExact hReady.feasible

theorem survives_small : ∃ w memory, Reached .small (KeepsLeaf .small) (startOf .small) w memory ∧
    memory 0 = [5, 6] ∧ Survives .small (KeepsLeaf .small) w memory := by
  have hRefused : KeepsLeaf .small (startOf .small) ⟨.read, 7, []⟩ :=
    fun hValid => absurd hValid (by decide)
  have hFirst := Reached.start.attempt _ hRefused
  have hPosition : (attempt .small ⟨.read, 7, []⟩ (startOf .small)).2.positionMap[0]? = some 0 := by
    decide +kernel
  have hSelect : selectSlots (attempt .small ⟨.read, 7, []⟩ (startOf .small)).2.idMap
      (getPathIndices Env.small.cfg 0) 0 = .ok [0, 0] := by decide +kernel
  have hKeeps : KeepsLeaf .small (attempt .small ⟨.read, 7, []⟩ (startOf .small)).2
      ⟨.write, 0, [5, 6]⟩ := by
    intro _ oldLeaf hOld
    cases Option.some_inj.mp (hPosition.symm.trans hOld)
    exact Or.inl ⟨[0, 0], hSelect⟩
  have hReached := hFirst.attempt _ hKeeps
  refine ⟨_, _, hReached, ?_, ?_⟩
  · decide +kernel
  · exact survives_of_reached (Tfhe.plain_exact 4)
      (setUp_run ⟨by decide, by decide, by decide, by decide⟩) hReached

end Runs

section Stranded

/-- Two leaves, two slots in a bucket, three blocks of one byte. -/
def Env.stranded : Env where
  cfg := { z := 1, s := 1, a := 3, treeHeight := 1, numBlocks := 3, blockSize := 1, tlweN := 1 }
  entropy := ⟨fun tick => if tick = 10 ∨ tick = 11 then 1 else 0, fun _ _ => Equiv.refl _,
    fun _ => Vector.replicate 16 0⟩
  tfhe := Tfhe.plain 1

/-- Block 0 sinks into a leaf, two other blocks fill the root, and the next read of block 0 finds no
slot. -/
def strandingCalls : List Call :=
  [⟨.write, 0, [9]⟩, ⟨.write, 0, [9]⟩, ⟨.write, 0, [9]⟩, ⟨.write, 1, [1]⟩,
    ⟨.write, 2, [2]⟩, ⟨.read, 0, []⟩, ⟨.read, 1, []⟩]

/-- The state and the memory after some attempts. -/
def afterAttempts (env : Env) (state : World env.Ciphertext × Memory) (calls : List Call) :
    World env.Ciphertext × Memory :=
  calls.foldl (fun state call =>
    ((attempt env call state.1).2, attempted state.2 call (attempt env call state.1).1)) state

theorem Reached.afterAttempts {allowed : World env.Ciphertext → Call → Prop}
    (hAll : ∀ w call, allowed w call) (h : Reached env allowed start w memory) (calls : List Call) :
    Reached env allowed start (afterAttempts env (w, memory) calls).1
      (afterAttempts env (w, memory) calls).2 := by
  induction calls generalizing w memory with
  | nil => exact h
  | cons call calls ih => exact ih (h.attempt call (hAll w call))

def strandedState : World Env.stranded.Ciphertext × Memory :=
  afterAttempts .stranded (startOf .stranded, Memory.zero Env.stranded.cfg.blockSize.toNat)
    strandingCalls

theorem reached_strandedState :
    Reached .stranded (fun _ _ => True) (startOf .stranded) strandedState.1 strandedState.2 :=
  Reached.afterAttempts (fun _ _ => trivial) .start strandingCalls

/-- A read that finds no slot strands its block: later on the block is off its path and reads as
zero. -/
theorem stranded_not_survives : (setUp .stranded).run {} = .ok () (startOf .stranded) ∧
    Reached .stranded (fun _ _ => True) (startOf .stranded) strandedState.1 strandedState.2 ∧
    (0 ∈ strandedState.1.idMap 1 ∧ strandedState.1.positionMap[0]? = some 1 ∧
      1 ∉ getPathIndices Env.stranded.cfg 1) ∧
    ((attempt .stranded ⟨.read, 0, []⟩ strandedState.1).1 = .ok [0] ∧ strandedState.2 0 = [9]) ∧
    ¬ Survives .stranded (fun _ _ => True) strandedState.1 strandedState.2 := by
  have hRead : (attempt .stranded ⟨.read, 0, []⟩ strandedState.1).1 = .ok [0] := by decide +kernel
  have hWritten : strandedState.2 0 = [9] := by decide +kernel
  refine ⟨setUp_run ⟨by decide, by decide, by decide, by decide⟩, reached_strandedState,
    ?_, ⟨hRead, hWritten⟩, fun hSurvives => ?_⟩
  · exact ⟨by decide +kernel, by decide +kernel, by decide⟩
  · have hSame := hSurvives.reads 0 [0] hRead
    rw [hWritten] at hSame
    exact absurd hSame (by decide)

end Stranded
end OramHub.OnionRing
