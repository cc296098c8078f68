import OramHub.Lib.BitReversal
import OramHub.RingOram.Trace

/-! # The order of path evictions

The eviction counter is the next leaf as it stands, so successive evictions pass neighbouring
leaves. A window of `2 ^ k` evictions passes each bucket of level `k` once only at the two ends of
the tree, or when a carry happens to fall into a window of two.
-/
namespace OramHub.RingOram
open OramHub.Core OramHub.Program OramHub.BitReversal
set_option autoImplicit false

/-- Bucket `b` lies on the path of the eviction with this counter. -/
def OnEvictedPath (cfg : RuntimeConfig) (counter : UInt64) (b : Nat) : Prop :=
  ∃ path, cfg.getPathIndices (counter % cfg.numLeaves) = .ok path ∧ b ∈ path.map UInt64.toNat

/-- The bucket that a request writes. -/
def Sketch.written? (sketch : Sketch) : Option UInt64 :=
  if sketch.command = Sketch.word 'W' then sketch.fields.head? else none

/-- The next eviction writes bucket `b`. -/
def Rewrites (env : Env) (w : World) (b : Nat) : Prop :=
  ∃ w' seen, (evictPath env).run w = .ok () w' ∧ w'.sketches = w.sketches ++ seen ∧
    b ∈ (seen.filterMap Sketch.written?).map UInt64.toNat

/-- Evictions from the first worlds in turn, with nothing in between that evicts. -/
def ConsecutiveEvictions (env : Env) (worlds : Nat → World) (count : Nat) : Prop :=
  ∀ i < count, Reachable env (worlds i) ∧ ∃ w', (evictPath env).run (worlds i) = .ok () w' ∧
    (worlds (i + 1)).evictionCounter = w'.evictionCounter

section Paths

variable {cfg : RuntimeConfig} {counter : UInt64} {b k : Nat}

theorem onEvictedPath_iff (hDepth : cfg.depth < 63) :
    OnEvictedPath cfg counter b ↔ b ∈ HeapTree.path cfg.depth (counter.toNat % 2 ^ cfg.depth) := by
  have hLeaf := toNat_mod_numLeaves hDepth counter
  have hPath := getPathIndices_indices hDepth hLeaf
  have hMod : (counter % cfg.numLeaves).toNat = counter.toNat % 2 ^ cfg.depth := by
    rw [UInt64.toNat_mod, RuntimeConfig.toNat_numLeaves hDepth]
  have hNodes : (cfg.indices (counter % cfg.numLeaves)).map UInt64.toNat =
      HeapTree.path cfg.depth (counter.toNat % 2 ^ cfg.depth) := by
    rw [map_toNat_indices hDepth hLeaf, RuntimeConfig.path, hMod]
  rw [← hNodes]
  constructor
  · rintro ⟨path, hOk, hMem⟩
    cases hPath.symm.trans hOk
    exact hMem
  · intro hMem
    exact ⟨_, hPath, hMem⟩

theorem mod_window {start : UInt64} {i n : Nat} (hn : n ≤ 64) (hi : i < 2 ^ 64) :
    (start + UInt64.ofNat i).toNat % 2 ^ n = (start.toNat + i) % 2 ^ n := by
  rw [UInt64.toNat_add, UInt64.toNat_ofNat_of_lt' hi]
  exact Nat.mod_mod_of_dvd _ (Nat.pow_dvd_pow 2 hn)

/-- A window passes each bucket of a level once only if it is even. -/
theorem existsUnique_onEvictedPath_iff (hDepth : cfg.depth < 63)
    (hLevel : k ≤ cfg.depth) (start : UInt64) :
    (∀ b ∈ HeapTree.level k, ∃! i, i < 2 ^ k ∧ OnEvictedPath cfg (start + UInt64.ofNat i) b) ↔
      EvenWindow cfg.depth k start.toNat := by
  have hPow : 2 ^ k ≤ 2 ^ 63 := Nat.pow_le_pow_right (by decide) (by omega)
  rw [← existsUnique_highest_iff hLevel]
  have hPlace : ∀ place < 2 ^ k, ∀ i < 2 ^ k,
      OnEvictedPath cfg (start + UInt64.ofNat i) (2 ^ k - 1 + place) ↔
        highest cfg.depth k (start.toNat + i) = place := by
    intro place hPlace i hi
    rw [onEvictedPath_iff hDepth, mod_window (by omega) (by omega),
      HeapTree.place_mem_path_iff (Nat.mod_lt _ (Nat.pow_pos (by decide))) hLevel hPlace, highest]
  constructor
  · intro h place hLt
    have hUnique := h _ (HeapTree.mem_level_iff.mpr ⟨place, hLt, rfl⟩)
    exact (existsUnique_congr fun i => and_congr_right (hPlace place hLt i)).mp hUnique
  · intro h b hb
    obtain ⟨place, hLt, rfl⟩ := HeapTree.mem_level_iff.mp hb
    exact (existsUnique_congr fun i => and_congr_right (hPlace place hLt i)).mpr (h place hLt)

end Paths

section Writes

variable {cfg : RuntimeConfig} {s : Schedule}

theorem trace_foldl_readBucket (indices : List UInt64) (s : Schedule) :
    (indices.foldl (Schedule.readBucket cfg) s).trace =
      s.trace ++ indices.map fun index =>
        .readBucket index (s.counts index.toNat) cfg.bucketSize := by
  induction indices generalizing s with
  | nil => exact (List.append_nil _).symm
  | cons index indices ih => rw [List.foldl_cons, ih, List.map_cons, List.append_cons]; rfl

theorem trace_foldl_writeBucket (indices : List UInt64) (s : Schedule) :
    (indices.foldl (Schedule.writeBucket cfg) s).trace =
      s.trace ++ indices.map fun index => .writeBucket index cfg.bucketSize := by
  induction indices generalizing s with
  | nil => exact (List.append_nil _).symm
  | cons index indices ih => rw [List.foldl_cons, ih, List.map_cons, List.append_cons]; rfl

/-- What the server sees of an eviction: a path that is read, then written from the leaf to the
root. -/
def evictionTrace (cfg : RuntimeConfig) (s : Schedule) : List Sketch :=
  let indices := cfg.indices (s.evictionCounter % cfg.numLeaves)
  (indices.map fun index => .readBucket index (s.counts index.toNat) cfg.bucketSize) ++
    indices.reverse.map fun index => .writeBucket index cfg.bucketSize

theorem trace_evictPath (s : Schedule) :
    (s.evictPath cfg).trace = s.trace ++ evictionTrace cfg s := by
  rw [Schedule.evictPath, trace_foldl_writeBucket, trace_foldl_readBucket, List.append_assoc]
  rfl

theorem written_evictionTrace (s : Schedule) :
    (evictionTrace cfg s).filterMap Sketch.written? =
      (cfg.indices (s.evictionCounter % cfg.numLeaves)).reverse := by
  have hReads : (Sketch.written? ∘ fun index =>
      Sketch.readBucket index (s.counts index.toNat) cfg.bucketSize) =
      fun _ => none := rfl
  have hWrites : (Sketch.written? ∘ fun index => Sketch.writeBucket index cfg.bucketSize) =
      some := rfl
  rw [evictionTrace, List.filterMap_append, List.filterMap_map, List.filterMap_map, hReads, hWrites,
    List.filterMap_none, List.filterMap_some, List.nil_append]

variable {env : Env} {w w' : World} {b : Nat}

/-- An eviction from a reachable state returns, and writes the buckets of its path. -/
theorem Reachable.evictPath (h : Reachable env w) : ∃ w' seen, (evictPath env).run w = .ok () w' ∧
    Reachable env w' ∧ w'.evictionCounter = w.evictionCounter + 1 ∧
    w'.sketches = w.sketches ++ seen ∧
    seen.filterMap Sketch.written? =
      (env.cfg.indices (w.evictionCounter % env.cfg.numLeaves)).reverse := by
  obtain ⟨hAccepted, v, memory, hConsistent⟩ := h.consistent
  have hStored := hConsistent.stored
  obtain ⟨_, w', hRun, v', hStored', hKeeps⟩ :=
    returns_iff.mp (evictPath_spec hAccepted hStored hConsistent.distinct)
  have hPerform : (perform env .evictPath).run w = .ok none w' := by
    rw [perform, EStateM.run_bind, hRun]
    rfl
  have hCounter : w'.evictionCounter = w.evictionCounter + 1 := by
    rw [hStored'.evictionCounter, hStored.evictionCounter]
    exact (congrArg Schedule.evictionCounter hKeeps.schedule).trans
      (Schedule.evictionCounter_evictPath v.schedule)
  refine ⟨w', evictionTrace env.cfg v.schedule, hRun,
    h.step (show Action.evictPath.Valid env.cfg from trivial) hPerform, hCounter, ?_, ?_⟩
  · rw [World.sketches, World.sketches, hStored.trace, hStored'.trace]
    exact (congrArg Schedule.trace hKeeps.schedule).trans (trace_evictPath v.schedule)
  · rw [written_evictionTrace, hStored.evictionCounter]
    rfl

theorem rewrites_iff (h : Reachable env w) :
    Rewrites env w b ↔ OnEvictedPath env.cfg w.evictionCounter b := by
  obtain ⟨w', seen, hRun, _, _, hSketches, hWritten⟩ := h.evictPath
  have hPath := getPathIndices_indices h.consistent.1.depth
    (toNat_mod_numLeaves h.consistent.1.depth w.evictionCounter)
  constructor
  · rintro ⟨w'', seen', hRun', hSketches', hMem⟩
    cases hRun.symm.trans hRun'
    obtain rfl := List.append_cancel_left (hSketches.symm.trans hSketches')
    rw [hWritten, List.map_reverse, List.mem_reverse] at hMem
    exact ⟨_, hPath, hMem⟩
  · rintro ⟨path, hOk, hMem⟩
    cases hPath.symm.trans hOk
    refine ⟨w', seen, hRun, hSketches, ?_⟩
    rw [hWritten, List.map_reverse, List.mem_reverse]
    exact hMem

end Writes

section Windows

variable {env : Env} {worlds : Nat → World} {count k : Nat}

theorem ConsecutiveEvictions.counter (h : ConsecutiveEvictions env worlds count)
    {i : Nat} (hi : i ≤ count) :
    (worlds i).evictionCounter = (worlds 0).evictionCounter + UInt64.ofNat i := by
  induction i with
  | zero => exact (UInt64.add_zero _).symm
  | succ i ih =>
    obtain ⟨hReachable, w', hRun, hNext⟩ := h i hi
    obtain ⟨w'', _, hRun', _, hCounter, _⟩ := hReachable.evictPath
    cases hRun.symm.trans hRun'
    rw [hNext, hCounter, ih (by omega), UInt64.add_assoc]
    exact congrArg _ (UInt64.ofNat_add i 1).symm

theorem existsUnique_rewrites_iff (hDepth : env.cfg.depth < 63) (hLevel : k ≤ env.cfg.depth)
    (h : ConsecutiveEvictions env worlds (2 ^ k)) :
    (∀ b ∈ HeapTree.level k, ∃! i, i < 2 ^ k ∧ Rewrites env (worlds i) b) ↔
      EvenWindow env.cfg.depth k (worlds 0).evictionCounter.toNat := by
  rw [← existsUnique_onEvictedPath_iff hDepth hLevel]
  have hSame : ∀ b i, i < 2 ^ k → (Rewrites env (worlds i) b ↔
      OnEvictedPath env.cfg ((worlds 0).evictionCounter + UInt64.ofNat i) b) := by
    intro b i hi
    rw [rewrites_iff (h i hi).1, h.counter hi.le]
  exact forall_congr' fun b => imp_congr_right fun _ =>
    existsUnique_congr fun i => and_congr_right (hSame b i)

/-- The world after an eviction. -/
def evicted (env : Env) (w : World) : World :=
  match (evictPath env).run w with
  | .ok _ w' => w'
  | .error _ w' => w'

/-- Evictions can follow each other for ever. -/
theorem consecutiveEvictions_iterate {w : World} (h : Reachable env w) (count : Nat) :
    ConsecutiveEvictions env (fun i => (evicted env)^[i] w) count := by
  have hNext : ∀ w, Reachable env w → (evictPath env).run w = .ok () (evicted env w) ∧
      Reachable env (evicted env w) := by
    intro w hReachable
    obtain ⟨w', _, hRun, hReachable', _⟩ := hReachable.evictPath
    rw [evicted, hRun]
    exact ⟨rfl, hReachable'⟩
  have hReachable : ∀ i, Reachable env ((evicted env)^[i] w) := by
    intro i
    induction i with
    | zero => exact h
    | succ i ih =>
      rw [Function.iterate_succ_apply']
      exact (hNext _ ih).2
  intro i _
  refine ⟨hReachable i, _, (hNext _ (hReachable i)).1, ?_⟩
  beta_reduce
  rw [Function.iterate_succ_apply']

theorem exists_start (hAccepted : env.cfg.Accepted) :
    ∃ w, Reachable env w ∧ w.evictionCounter = 0 := by
  obtain ⟨_, w, hConstruct, v, hConsistent, hStart⟩ :=
    returns_iff.mp (construct_spec hAccepted none fun _ => none)
  refine ⟨w, .start hConstruct, ?_⟩
  rw [hConsistent.stored.evictionCounter]
  exact congrArg Schedule.evictionCounter hStart

/-- The evictions of a window pass each bucket of a level once if and only if the window is even:
the level is the root or the leaves, or it is the level below the root and a carry falls between the
two evictions. -/
theorem evictions_even_iff (hAccepted : env.cfg.Accepted) (hLevel : k ≤ env.cfg.depth) :
    (∀ start : UInt64,
      (∀ b ∈ HeapTree.level k, ∃! i, i < 2 ^ k ∧ OnEvictedPath env.cfg (start + UInt64.ofNat i) b) ↔
      k = 0 ∨ k = env.cfg.depth ∨ k = 1 ∧ 2 ^ (env.cfg.depth - 1) ∣ start.toNat + 1) ∧
    ∀ worlds : Nat → World, ConsecutiveEvictions env worlds (2 ^ k) →
      ((∀ b ∈ HeapTree.level k, ∃! i, i < 2 ^ k ∧ Rewrites env (worlds i) b) ↔
        k = 0 ∨ k = env.cfg.depth ∨ k = 1 ∧
        2 ^ (env.cfg.depth - 1) ∣ (worlds 0).evictionCounter.toNat + 1) :=
  ⟨existsUnique_onEvictedPath_iff hAccepted.depth hLevel,
    fun _ hEvictions => existsUnique_rewrites_iff hAccepted.depth hLevel hEvictions⟩

theorem evictions_even_small : ∃ w, Reachable .small w ∧ w.evictionCounter = 0 ∧
    ∀ b ∈ HeapTree.level 1, ∃! i, i < 2 ∧ Rewrites .small ((evicted .small)^[i] w) b := by
  obtain ⟨w, hReachable, hCounter⟩ := @exists_start .small accepted_small
  have hEven := (@evictions_even_iff .small 1 accepted_small le_rfl).2
    (fun i => (evicted .small)^[i] w)
    (consecutiveEvictions_iterate hReachable (2 ^ 1))
  exact ⟨w, hReachable, hCounter, hEven.mpr (Or.inr (Or.inl rfl))⟩

/-- A tree of seven buckets. -/
def Env.deeper : Env where
  cfg := { numBlocks := 2, treeDepth := 2, z := 1, s := 1, a := 1, blockSize := 1 }
  entropy := ⟨fun tick => tick, fun _ _ => Equiv.refl _, fun _ => Vector.replicate 16 0⟩
  keystream := fun _ _ position => UInt8.ofNat position

theorem accepted_deeper : Env.deeper.cfg.Accepted :=
  ⟨⟨by decide, by decide, by decide, by decide, by decide, by decide, by decide, by decide,
    by decide⟩, by decide, by decide⟩

/-- The first two evictions both pass the left child of the root. -/
theorem evictions_uneven : ∃ w, Reachable .deeper w ∧ w.evictionCounter = 0 ∧
    ConsecutiveEvictions .deeper (fun i => (evicted .deeper)^[i] w) 2 ∧
    ¬ ∀ b ∈ HeapTree.level 1, ∃! i, i < 2 ∧ Rewrites .deeper ((evicted .deeper)^[i] w) b := by
  obtain ⟨w, hReachable, hCounter⟩ := @exists_start .deeper accepted_deeper
  have hWindow := consecutiveEvictions_iterate hReachable (2 ^ 1)
  refine ⟨w, hReachable, hCounter, hWindow, fun hAll => ?_⟩
  have hEven := (@existsUnique_rewrites_iff .deeper _ 1 (by decide) (by decide) hWindow).mp hAll
  rw [Function.iterate_zero, id_eq, hCounter] at hEven
  revert hEven
  rw [EvenWindow]
  decide

end Windows
end OramHub.RingOram
