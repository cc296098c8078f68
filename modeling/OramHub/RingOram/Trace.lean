import OramHub.RingOram.Runs

/-! # What the server learns from a run

The leaves that a run reveals decide every other field and every length that the server sees.
-/
namespace OramHub.RingOram
open OramHub.Core OramHub.Program
set_option autoImplicit false

def ValidCall (cfg : RuntimeConfig) (call : Call) : Prop :=
  call.addr < cfg.numBlocks ∧ (call.op = .write → call.data.length = cfg.blockSize.toNat)

instance (cfg : RuntimeConfig) (call : Call) : Decidable (ValidCall cfg call) :=
  inferInstanceAs (Decidable (_ ∧ _))

/-- A complete run: construction followed by accesses. -/
def session (env : Env) (calls : List Call) : RingM (List Bytes) := do
  construct env
  calls.mapM fun call => access env call.op call.addr call.data

def World.leaves (w : World) : List UInt64 := w.log.filterMap Event.leaf?

def World.sketches (w : World) : List Sketch := w.log.map Event.sketch

variable {env : Env} {w : World} {v : Plain} {memory : Memory}

theorem accesses_spec (hAccepted : env.cfg.Accepted)
    (h : Consistent env w v memory) {calls : List Call}
    (hValid : ∀ call ∈ calls, ValidCall env.cfg call) :
    Returns (calls.mapM fun call => access env call.op call.addr call.data) w fun _ w' =>
      ∃ v' memory', ∃ leaves : List UInt64, Consistent env w' v' memory' ∧
      leaves.length = calls.length ∧
        (∀ leaf ∈ leaves, leaf.toNat < 2 ^ env.cfg.depth) ∧
        v'.schedule = leaves.foldl (Schedule.access env.cfg) v.schedule := by
  induction calls generalizing w v memory with
  | nil =>
    exact Returns.pure ⟨v, memory, [], h, rfl, fun _ hLeaf => absurd hLeaf List.not_mem_nil, rfl⟩
  | cons call calls ih =>
    obtain ⟨hAddr, hData⟩ := hValid call List.mem_cons_self
    rw [List.mapM_cons]
    apply (access_spec hAccepted h hAddr call.op call.data hData).bind
    rintro _ w' ⟨_, v', leaf, hNext, hLeaf, hSchedule, _⟩
    refine (ih hNext fun other hOther => hValid other (List.mem_cons_of_mem _ hOther)).bind ?_
    rintro _ w'' ⟨v'', memory', leaves, hFinal, hLength, hLeaves, hRest⟩
    refine Returns.pure ⟨v'', memory', leaf :: leaves, hFinal, congrArg (· + 1) hLength, ?_, ?_⟩
    · rintro other hOther
      obtain rfl | hMem := List.mem_cons.mp hOther
      · exact hLeaf
      · exact hLeaves other hMem
    · rw [hRest, hSchedule, List.foldl_cons]

/-- The trace of a complete run is a function of the configuration and the revealed leaves. -/
theorem session_spec (hAccepted : env.cfg.Accepted) (stashFile : Option Bytes)
    (bucketFiles : Nat → Option Bytes)
    {calls : List Call} (hValid : ∀ call ∈ calls, ValidCall env.cfg call) :
    Returns (session env calls) (World.start stashFile bucketFiles) fun _ w =>
      w.leaves.length = calls.length ∧ (∀ leaf ∈ w.leaves, leaf.toNat < 2 ^ env.cfg.depth) ∧
      w.sketches = (w.leaves.foldl (Schedule.access env.cfg) (.start env.cfg)).trace := by
  apply (construct_spec hAccepted stashFile bucketFiles).bind
  rintro _ w ⟨v, hConsistent, hStart⟩
  apply (accesses_spec hAccepted hConsistent hValid).mono
  rintro _ w' ⟨v', memory, leaves, hFinal, hLength, hBound, hSchedule⟩
  rw [hStart] at hSchedule
  have hSketches : w'.sketches = v'.schedule.trace := hFinal.stored.trace
  have hLeaves : w'.leaves = leaves := by
    have hTrace : v'.schedule.leaves = leaves := by
      rw [hSchedule, Schedule.leaves_foldl_access]
      exact List.nil_append _
    rw [World.leaves, ← hTrace, Schedule.leaves, ← hSketches, World.sketches, List.filterMap_map]
    exact congrArg (fun f => w'.log.filterMap f) (funext fun event =>
      (Event.sketch_leaf event).symm)
  rw [hLeaves]
  exact ⟨hLength, hBound, hSketches.trans (congrArg Schedule.trace hSchedule)⟩

theorem accepted_of_session {stashFile : Option Bytes}
    {bucketFiles : Nat → Option Bytes} {calls : List Call} {results : List Bytes}
    (h : (session env calls).run (World.start stashFile bucketFiles) = .ok results w) :
    env.cfg.Accepted := by
  obtain ⟨_, _, hConstruct, _⟩ := run_bind_eq_ok h
  exact accepted_of_construct hConstruct

/-- Two complete runs that reveal the same leaves look the same up to slot offsets and ciphertexts.
-/
theorem sketches_eq_of_leaves_eq {env' : Env} (hCfg : env.cfg = env'.cfg) {calls calls' : List Call}
    (hValid : ∀ call ∈ calls, ValidCall env.cfg call)
    (hValid' : ∀ call ∈ calls', ValidCall env'.cfg call)
    {stashFile stashFile' : Option Bytes} {bucketFiles bucketFiles' : Nat → Option Bytes}
    {results results' : List Bytes} {w w' : World}
    (hRun : (session env calls).run (World.start stashFile bucketFiles) = .ok results w)
    (hRun' : (session env' calls').run (World.start stashFile' bucketFiles') = .ok results' w')
    (hLeaves : w.leaves = w'.leaves) : w.sketches = w'.sketches := by
  obtain ⟨_, _, hTrace⟩ :=
    (session_spec (accepted_of_session hRun) stashFile bucketFiles hValid).post_of_run hRun
  obtain ⟨_, _, hTrace'⟩ :=
    (session_spec (accepted_of_session hRun') stashFile' bucketFiles' hValid').post_of_run hRun'
  rw [hTrace, hTrace', hLeaves, hCfg]

/-- A tree that is a single bucket. -/
def flatConfig : RuntimeConfig :=
  { numBlocks := 2, treeDepth := 0, z := 1, s := 1, a := 1, blockSize := 1 }

def Env.flat (seed : Nat) : Env where
  cfg := flatConfig
  entropy := ⟨fun tick => seed + tick, fun _ _ => Equiv.refl _,
    fun _ => Vector.replicate 16 (UInt8.ofNat seed)⟩
  keystream := fun _ _ position => UInt8.ofNat (seed + position)

theorem accepted_flatConfig : flatConfig.Accepted :=
  ⟨⟨by decide, by decide, by decide, by decide, by decide, by decide, by decide, by decide,
    by decide⟩, by decide, by decide⟩

theorem leaves_flat {leaves : List UInt64} {calls : List Call}
    (hLength : leaves.length = calls.length)
    (hBound : ∀ leaf ∈ leaves, leaf.toNat < 2 ^ flatConfig.depth) :
    leaves = List.replicate calls.length 0 :=
  List.eq_replicate_iff.mpr ⟨hLength, fun leaf hLeaf =>
    UInt64.toNat_inj.mp (Nat.lt_one_iff.mp (hBound leaf hLeaf))⟩

theorem sketches_eq_flat : ∃ w w',
    (∃ results, (session (.flat 0) [⟨.write, 1, [7]⟩, ⟨.read, 1, []⟩]).run
      (World.start none fun _ => none) =
      .ok results w) ∧
    (∃ results, (session (.flat 1) [⟨.read, 0, []⟩, ⟨.write, 1, [9]⟩]).run
      (World.start (some []) fun _ => none) =
      .ok results w') ∧ w.leaves = w'.leaves ∧ w.sketches = w'.sketches := by
  have hValid : ∀ call ∈ [(⟨.write, 1, [7]⟩ : Call), ⟨.read, 1, []⟩],
      ValidCall flatConfig call := by decide
  have hValid' : ∀ call ∈ [(⟨.read, 0, []⟩ : Call), ⟨.write, 1, [9]⟩],
      ValidCall flatConfig call := by decide
  obtain ⟨results, w, hRun, hLength, hBound, _⟩ := returns_iff.mp
    (@session_spec (.flat 0) accepted_flatConfig none (fun _ => none) _ hValid)
  obtain ⟨results', w', hRun', hLength', hBound', _⟩ := returns_iff.mp
    (@session_spec (.flat 1) accepted_flatConfig (some []) (fun _ => none) _ hValid')
  have hLeaves : w.leaves = w'.leaves :=
    (leaves_flat hLength hBound).trans (leaves_flat hLength' hBound').symm
  exact ⟨w, w', ⟨results, hRun⟩, ⟨results', hRun'⟩, hLeaves,
    @sketches_eq_of_leaves_eq (.flat 0) (.flat 1) rfl _ _ hValid hValid' _ _ _ _ _ _ _
      _ hRun hRun' hLeaves⟩

end OramHub.RingOram
