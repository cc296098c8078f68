import OramHub.PathOram.Setup

/-! # Runs of Path ORAM

Every run of accesses on an initial tree returns and answers like a RAM that starts with the
initial blocks.
-/
namespace OramHub.PathOram
open OramHub.Core OramHub.Program
set_option autoImplicit false

def performCall (env : Env) (call : Call) : PathM Bytes := access env call.op call.addr call.data

/-- Data of every length is accepted. -/
def ValidCall (env : Env) (call : Call) : Prop :=
  call.addr < env.numBlocks ∧ (call.op = .write → call.data.length ≤ vectorMaxSize)

instance (env : Env) (call : Call) : Decidable (ValidCall env call) :=
  inferInstanceAs (Decidable (_ ∧ _))

variable {env : Env} {w : World} {v : Plain} {stored : UInt64 → Option Bytes} {calls : List Call}

theorem ValidCall.lt {call : Call} (h : ValidCall env call) (hWrite : call.op = .write) :
    call.data.length < 2 ^ 64 := by
  have hLe := h.2 hWrite
  rw [vectorMaxSize] at hLe
  omega

theorem performCalls_spec (hHeight : env.height < 63) (hStored : Stored env w v)
    (h : Consistent env v stored) (hValid : ∀ call ∈ calls, ValidCall env call) :
    Returns (calls.mapM (performCall env)) w fun results _ =>
      results = (memoryOf stored).results calls := by
  induction calls generalizing w v stored with
  | nil => exact Returns.pure rfl
  | cons call calls ih =>
    have hCall := hValid call List.mem_cons_self
    rw [List.mapM_cons]
    refine (access_spec hHeight hStored h hCall.1 call.op call.data hCall.lt).bind ?_
    rintro _ w' ⟨rfl, oldLeaf, newLeaf, contents, kept, _, _, _, hStored', hNext⟩
    refine (ih hStored' hNext fun other hOther =>
      hValid other (List.mem_cons_of_mem _ hOther)).bind ?_
    rintro _ w'' rfl
    rw [memoryOf_storedAfter]
    exact Returns.pure rfl

/-- A pair of client and server that has been set up is a RAM. -/
theorem run_results_eq_memory {blocks : List Block} {initialPositions : Option (List UInt64)}
    (hSetUp : (setUp env blocks initialPositions).run {} = .ok () w)
    (hAgrees : Agrees env blocks w.positionMap)
    (hValid : ∀ call ∈ calls, ValidCall env call) :
    Returns (calls.mapM (performCall env)) w fun results _ =>
      results = (memoryOf (initialData blocks)).results calls := by
  obtain ⟨⟨bucket, hReady⟩, _, _⟩ := setUp_spec.post_of_run hSetUp
  exact performCalls_spec hReady.height hReady.stored (hReady.consistent hAgrees) hValid

/-- Two leaves and three addresses, the first two with a block of their own. -/
def Env.small : Env where
  treeHeight := 1
  numBlocks := 3
  entropy := ⟨fun tick => tick, fun _ _ => Equiv.refl _, fun _ => Vector.replicate 16 0⟩
  serverEntropy := ⟨fun tick => tick, fun _ _ => Equiv.refl _, fun _ => Vector.replicate 16 1⟩
  keystream := fun _ _ position => UInt8.ofNat position

def smallBlocks : List Block := [⟨1, [7]⟩, ⟨0, [8, 9]⟩]

theorem exists_setUp_small : ∃ w, (setUp .small smallBlocks (some [1, 0, 1])).run {} = .ok () w ∧
    Agrees .small smallBlocks w.positionMap := by
  have hAccepted : Accepted .small smallBlocks (some [1, 0, 1]) := by
    refine ⟨by decide, by decide, ?_⟩
    rintro _ ⟨⟩
    rfl
  obtain ⟨_, w, hSetUp, _, hPositions, _⟩ := returns_iff.mp (setUp_spec.returns hAccepted)
  refine ⟨w, hSetUp, ?_⟩
  rw [hPositions _ rfl]
  have hLeaves : [1, 0, 1].all (fun leaf : UInt64 => leaf.toNat < 2 ^ Env.small.height) = true := by
    decide
  refine ⟨by decide, by decide, by decide, ?_,
    by simpa only [List.all_eq_true, decide_eq_true_eq] using hLeaves⟩
  intro i block hBlock
  match i with
  | 0 | 1 =>
    cases hBlock
    rfl
  | i + 2 => cases hBlock

theorem run_results_eq_memory_small :
    ∃ w, (setUp .small smallBlocks (some [1, 0, 1])).run {} = .ok () w ∧
    Returns ([⟨.read, 1, []⟩, ⟨.write, 0, [5]⟩, ⟨.read, 0, []⟩,
      ⟨.write, 2, []⟩, ⟨.read, 2, []⟩].mapM
      (performCall .small)) w fun results _ => results = [[7], [5], [5], [], []] := by
  obtain ⟨w, hSetUp, hAgrees⟩ := exists_setUp_small
  exact ⟨w, hSetUp, run_results_eq_memory hSetUp hAgrees (by decide)⟩

end OramHub.PathOram
