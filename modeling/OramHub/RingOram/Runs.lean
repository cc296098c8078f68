import OramHub.RingOram.Construction

/-! # Runs of Ring ORAM

Every run of accesses, evictions and reshuffles from construction returns, answers like a RAM, and
keeps one copy of every block and a spare dummy in every bucket.
-/
namespace OramHub.RingOram
open OramHub.Core OramHub.Program
set_option autoImplicit false

/-- The public operations of a client. -/
inductive Action
  | access (op : Op) (addr : UInt64) (data : Bytes)
  | evictPath
  | earlyReshuffle (leaf : UInt64)
  deriving DecidableEq, Repr

namespace Action

def Valid (cfg : RuntimeConfig) : Action → Prop
  | .access op addr data => addr < cfg.numBlocks ∧ (op = .write → data.length = cfg.blockSize.toNat)
  | .evictPath => True
  | .earlyReshuffle leaf => leaf < cfg.numLeaves

instance (cfg : RuntimeConfig) : (action : Action) → Decidable (action.Valid cfg)
  | .access _ _ _ => inferInstanceAs (Decidable (_ ∧ _))
  | .evictPath => inferInstanceAs (Decidable True)
  | .earlyReshuffle _ => inferInstanceAs (Decidable (_ < _))

/-- What the action does to a RAM. -/
def store (memory : Memory) : Action → Memory
  | .access op addr data => memory.store op addr data
  | .evictPath => memory
  | .earlyReshuffle _ => memory

/-- What the action returns on a RAM. -/
def result (memory : Memory) : Action → Option Bytes
  | .access op addr data => some (memory.result op addr data)
  | .evictPath => none
  | .earlyReshuffle _ => none

/-- The results of a RAM that runs the actions in order. -/
def results (memory : Memory) : List Action → List (Option Bytes)
  | [] => []
  | action :: actions => action.result memory :: results (action.store memory) actions

/-- How many accesses the action is. -/
def accesses : Action → Nat
  | .access _ _ _ => 1
  | .evictPath => 0
  | .earlyReshuffle _ => 0

end Action

def perform (env : Env) : Action → RingM (Option Bytes)
  | .access op addr data => do
    let result ← access env op addr data
    return some result
  | .evictPath => do
    evictPath env
    return none
  | .earlyReshuffle leaf => do
    earlyReshuffle env leaf
    return none

/-- The states that actions lead to from construction. -/
inductive Reachable (env : Env) : World → Prop
  | start {stashFile : Option Bytes} {bucketFiles : Nat → Option Bytes} {w : World} :
    (construct env).run (World.start stashFile bucketFiles) = .ok () w → Reachable env w
  | step {w w' : World} {action : Action} {result : Option Bytes} :
    Reachable env w → action.Valid env.cfg →
    (perform env action).run w = .ok result w' → Reachable env w'

variable {env : Env} {w : World} {v : Plain} {memory : Memory}

section Steps

theorem Consistent.keeps {w' : World} {v' : Plain} {schedule : Schedule}
    (h : Consistent env w v memory)
    (hStored : Stored env w' v') (hKeeps : v.Keeps env.cfg v' schedule)
    (hCalm : schedule.Calm env.cfg []) :
    Consistent env w' v' memory := by
  refine ⟨hStored, ?_, by rwa [hKeeps.schedule], ?_, hKeeps.fabricated.trans h.fabricated⟩
  · rw [hKeeps.inventory, h.inventory, hKeeps.positionMap]
  · rw [hKeeps.positionMap]
    exact h.mapped

theorem perform_spec (hAccepted : env.cfg.Accepted)
    (h : Consistent env w v memory) {action : Action} (hValid : action.Valid env.cfg) :
    Returns (perform env action) w fun result w' => result = action.result memory ∧
      ∃ v', Consistent env w' v' (action.store memory) ∧
      v'.stash.length ≤ v.stash.length + action.accesses := by
  cases action with
  | access op addr data =>
    apply (access_spec hAccepted h hValid.1 op data hValid.2).bind
    rintro _ w' ⟨rfl, v', _, hConsistent, _, _, hLength⟩
    exact Returns.pure ⟨rfl, v', hConsistent, hLength⟩
  | evictPath =>
    apply (evictPath_spec hAccepted h.stored h.distinct).bind
    rintro _ w' ⟨v', hStored, hTidies⟩
    exact Returns.pure ⟨rfl, v',
      h.keeps hStored hTidies.toKeeps (h.calm.evictPath hAccepted.depth hAccepted.s), hTidies.stash⟩
  | earlyReshuffle leaf =>
    have hLeaf : leaf.toNat < 2 ^ env.cfg.depth := by
      rw [← RuntimeConfig.toNat_numLeaves hAccepted.depth]
      exact UInt64.lt_iff_toNat_lt.mp hValid
    apply (earlyReshuffle_spec hAccepted h.stored h.distinct hLeaf).bind
    rintro _ w' ⟨v', hStored, hTidies⟩
    have hCalm := (h.calm.weaken fun _ hMem => absurd hMem List.not_mem_nil).earlyReshuffle
      hAccepted.depth
      hAccepted.s hLeaf
    exact Returns.pure ⟨rfl, v', h.keeps hStored hTidies.toKeeps hCalm, hTidies.stash⟩

theorem performAll_spec (hAccepted : env.cfg.Accepted) (h : Consistent env w v memory)
    {actions : List Action} (hValid : ∀ action ∈ actions, action.Valid env.cfg) :
    Returns (actions.mapM (perform env)) w fun results w' =>
      results = Action.results memory actions ∧
      ∃ v' memory', Consistent env w' v' memory' := by
  induction actions generalizing w v memory with
  | nil => exact Returns.pure ⟨rfl, v, memory, h⟩
  | cons action actions ih =>
    rw [List.mapM_cons]
    apply (perform_spec hAccepted h (hValid action List.mem_cons_self)).bind
    rintro _ w' ⟨rfl, v', hNext, _⟩
    refine (ih hNext fun other hOther => hValid other (List.mem_cons_of_mem _ hOther)).bind ?_
    rintro _ w'' ⟨rfl, v'', memory', hFinal⟩
    exact Returns.pure ⟨rfl, v'', memory', hFinal⟩

theorem consistent_of_construct {stashFile : Option Bytes} {bucketFiles : Nat → Option Bytes}
    (h : (construct env).run (World.start stashFile bucketFiles) = .ok () w) :
    env.cfg.Accepted ∧ ∃ v, Consistent env w v (Memory.zero env.cfg.blockSize.toNat) := by
  have hAccepted := accepted_of_construct h
  obtain ⟨v, hConsistent, _⟩ := (construct_spec hAccepted stashFile bucketFiles).post_of_run h
  exact ⟨hAccepted, v, hConsistent⟩

theorem Reachable.consistent (h : Reachable env w) :
    env.cfg.Accepted ∧ ∃ v memory, Consistent env w v memory := by
  induction h with
  | start hConstruct =>
    obtain ⟨hAccepted, v, hConsistent⟩ := consistent_of_construct hConstruct
    exact ⟨hAccepted, v, _, hConsistent⟩
  | step _ hValid hRun ih =>
    obtain ⟨hAccepted, v, memory, hConsistent⟩ := ih
    obtain ⟨_, v', hNext, _⟩ := (perform_spec hAccepted hConsistent hValid).post_of_run hRun
    exact ⟨hAccepted, v', _, hNext⟩

end Steps

/-- A pair of client and server is a RAM: every run returns the results of a RAM that starts with
zero blocks, and no access makes a block up. -/
theorem run_results_eq {stashFile : Option Bytes} {bucketFiles : Nat → Option Bytes}
    (hConstruct : (construct env).run (World.start stashFile bucketFiles) = .ok () w)
    {actions : List Action}
    (hValid : ∀ action ∈ actions, action.Valid env.cfg) :
    Returns (actions.mapM (perform env)) w fun results w' =>
      results = Action.results (Memory.zero env.cfg.blockSize.toNat) actions ∧
      w'.fabricated = 0 := by
  obtain ⟨hAccepted, v, hConsistent⟩ := consistent_of_construct hConstruct
  apply (performAll_spec hAccepted hConsistent hValid).mono
  rintro results w' ⟨hResults, v', memory', hFinal⟩
  exact ⟨hResults, hFinal.stored.fabricated.trans hFinal.fabricated⟩

/-- A pair with two blocks, three buckets and a maintenance step after every access. -/
def Env.small : Env where
  cfg := { numBlocks := 2, treeDepth := 1, z := 1, s := 1, a := 1, blockSize := 1 }
  entropy := ⟨fun tick => tick, fun _ _ => Equiv.refl _, fun _ => Vector.replicate 16 0⟩
  keystream := fun _ _ position => UInt8.ofNat position

theorem accepted_small : Env.small.cfg.Accepted :=
  ⟨⟨by decide, by decide, by decide, by decide, by decide, by decide, by decide, by decide,
    by decide⟩, by decide, by decide⟩

theorem run_results_eq_small :
    ∃ w, (construct .small).run (World.start none fun _ => none) = .ok () w ∧
    Returns ([.access .write 1 [7], .evictPath, .access .read 0 [], .earlyReshuffle 1,
      .access .read 1 []].mapM
      (perform .small)) w fun results w' =>
        results = [some [7], none, some [0], none, some [7]] ∧ w'.fabricated = 0 := by
  obtain ⟨_, w, hConstruct, _⟩ := returns_iff.mp (construct_spec accepted_small none fun _ => none)
  exact ⟨w, hConstruct, run_results_eq hConstruct (by decide)⟩

end OramHub.RingOram
