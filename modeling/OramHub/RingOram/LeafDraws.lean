import OramHub.RingOram.TapeReads

/-! # The leaves that are drawn and the leaves that are revealed

Every access exchanges an entry of the position map for a fresh draw and reveals the old entry,
though when the draw is made depends on the dummy slots that have been drawn before. With uniform
words on the tape, the revealed leaves and the map that is left are uniform and independent, so the
shape of a trace can be simulated.
-/
namespace OramHub.RingOram
open OramHub.Core OramHub.Program OramHub.Exchange OramHub.Tape
set_option autoImplicit false

/-- The position map and the leaves that have been revealed. -/
def World.mapState (w : World) : (UInt64 → Option UInt64) × List UInt64 := (w.positionMap, w.leaves)

theorem framed_mapState : Framed World.mapState := by
  refine ⟨fun _ _ => rfl, fun _ _ => rfl, fun _ _ => rfl, fun _ _ => rfl, fun _ _ => rfl,
    fun _ _ => rfl, fun _ _ => rfl, fun _ _ => rfl, fun _ _ => rfl, fun w event hQuiet => ?_⟩
  refine Prod.ext rfl ?_
  change (w.log ++ [event]).filterMap Event.leaf? = w.log.filterMap Event.leaf?
  rw [List.filterMap_append, List.filterMap_cons_none hQuiet, List.filterMap_nil, List.append_nil]

theorem framed_unit : Framed fun _ => () := by
  constructor <;> intros <;> rfl

/-- The leaf that a tape gives at a tick. -/
def leafDrawn (cfg : RuntimeConfig) (tape : Nat → Nat) (tick : Nat) : UInt64 :=
  UInt64.ofNat (tape tick % cfg.numLeaves.toNat)

variable {env : Env} {w w' : World} {tape tape' : Nat → Nat} {calls : List Call}

section Access

theorem getRandomLeaf_drawn {tick : Nat} :
    Returns (getRandomLeaf (env.drawing tape)) tick fun leaf tick' =>
    leaf = leafDrawn env.cfg tape tick ∧ tick' = tick + 1 :=
  Returns.of_run rfl ⟨rfl, rfl⟩

theorem fetchPathMetadata_reveals (leaf : UInt64) :
    wp (fetchPathMetadata env leaf) w (fun _ w' => w'.prng = w.prng ∧
      w'.positionMap = w.positionMap ∧
      w'.leaves = w.leaves ++ [leaf]) fun _ _ => True := by
  have hTrip : wp (roundTrip env (.readPathMetadata leaf)) w (fun _ w' => w'.prng = w.prng ∧
      w'.positionMap = w.positionMap ∧ w'.leaves = w.leaves ++ [leaf]) fun _ _ => True :=
    wp_roundTrip (fun _ _ _ _ => ⟨rfl, rfl, List.filterMap_append⟩) (fun _ _ _ _ => trivial)
      fun _ => trivial
  apply wp.bind hTrip
  intro response w' hRevealed
  cases response with
  | pathMetadata count payloads =>
    change wp (fromExcept (deserializeEach payloads)) w' _ _
    cases deserializeEach payloads with
    | ok metadata => exact wp.pure hRevealed
    | error e => exact (wp_throw e).mpr trivial
  | _ => exact (wp_throw _).mpr trivial

/-- An access replaces the entry of its address by the next draw and reveals the old entry. -/
theorem access_exchanges (op : Op) (addr : UInt64) (data : Bytes) :
    wp (access (env.drawing tape) op addr data) w (fun _ w' => w.prng < w'.prng ∧ ∃ oldLeaf,
      w.positionMap addr = some oldLeaf ∧ w'.leaves = w.leaves ++ [oldLeaf] ∧
      w'.positionMap = Function.update w.positionMap addr (some (leafDrawn env.cfg tape w.prng)))
        fun _ _ => True := by
  rw [access_eq]
  refine wp.check_bind (fun _ => trivial) fun _ => wp.check_bind (fun _ => trivial) fun _ =>
    wp.get_bind ?_
  cases hPosition : w.positionMap addr with
  | none => exact (wp_throw _).mpr trivial
  | some oldLeaf =>
    have hDrawn : wp (getRandomLeaf (env.drawing tape)) w.prng (fun leaf tick =>
        leaf = leafDrawn env.cfg tape w.prng ∧ tick = w.prng + 1) fun _ _ => False :=
        getRandomLeaf_drawn
    apply wp.zoom_bind hDrawn fun _ _ => False.elim
    rintro newLeaf _ ⟨rfl, rfl⟩
    apply wp.modify_bind
    apply wp.bind (fetchPathMetadata_reveals oldLeaf)
    rintro metadata w₁ ⟨hPrng, hMap, hLeaves⟩
    have hRest := (@finishAccess_reads env _ _ framed_mapState op addr data oldLeaf
      (leafDrawn env.cfg tape w.prng) metadata).wp_kept tape w₁
    refine wp_mono hRest ?_ fun _ _ _ => trivial
    rintro _ w₂ ⟨hForward, hKept⟩
    refine ⟨?_, oldLeaf, rfl, (congrArg Prod.snd hKept).trans hLeaves,
      (congrArg Prod.fst hKept).trans hMap⟩
    rw [hPrng] at hForward
    exact hForward

theorem fetchPathMetadata_reads (leaf : UInt64) :
    Reads World.prng (fun _ => ()) 0 fun _ : Nat → Nat => fetchPathMetadata env leaf := by
  have hTrip : Blind World.prng (fun _ => ()) (roundTrip env (.readPathMetadata leaf)) := by
    intro w
    simp only [roundTrip, EStateM.run]
    split
    · split <;> exact ⟨rfl, trivial⟩
    · exact ⟨rfl, trivial⟩
  apply Reads.blind_bind hTrip
  intro response
  cases response <;> first | exact (blind_fromExcept _).reads | exact (blind_throw _).reads

theorem access_reads (op : Op) (addr : UInt64) (data : Bytes) :
    Reads World.prng (fun _ => ()) (1 + accessBudget env.cfg) fun tape =>
      access (env.drawing tape) op addr data := by
  simp only [access_eq, Env.drawing_cfg, fetchPathMetadata_drawing]
  apply Reads.check_bind
  intro _
  apply Reads.check_bind
  intro _
  apply Reads.get_bind
  intro world
  cases world.positionMap addr with
  | none => exact (blind_throw _).reads
  | some oldLeaf =>
    apply (withPrng_reads framed_unit getRandomLeaf_reads).bind
    intro newLeaf
    refine Reads.modify_bind (fun _ => rfl) (fun _ => rfl) ?_
    rw [← Nat.zero_add (accessBudget env.cfg)]
    apply (fetchPathMetadata_reads oldLeaf).bind
    intro metadata
    exact finishAccess_reads framed_unit op addr data oldLeaf newLeaf metadata

end Access

section Construction

theorem addInitialBlocks_draw (count : Nat) (hCount : count ≤ 2 ^ 64) :
    wp (forM (List.range count) (addInitialBlock (env.drawing tape))) w (fun _ w' =>
      w'.prng = w.prng + count ∧ w'.leaves = w.leaves ∧
        ∀ i < count, w'.positionMap (UInt64.ofNat i) = some (leafDrawn env.cfg tape (w.prng + i)))
      fun _ _ => True := by
  refine wp.forM_range (fun i (w' : World) => w'.prng = w.prng + i ∧ w'.leaves = w.leaves ∧
    ∀ j < i, w'.positionMap (UInt64.ofNat j) = some (leafDrawn env.cfg tape (w.prng + j)))
    ⟨rfl, rfl, fun j hj => absurd hj (Nat.not_lt_zero j)⟩ ?_
  rintro i hi w' ⟨hPrng, hLeaves, hMap⟩
  refine wp.zoom_bind getRandomLeaf_drawn (fun _ _ => False.elim) ?_
  rintro leaf tick ⟨rfl, rfl⟩
  refine wp.modify_bind
    ((wp_zoom _ _ _).mpr (wp_mono (wp_trivial _ _) (fun _ _ _ => ?_) fun _ _ => id))
  refine ⟨congrArg (· + 1) hPrng, hLeaves, fun j hj => ?_⟩
  rcases eq_or_ne j i with rfl | hNe
  · rw [← hPrng]
    exact Function.update_self _ _ _
  · have hIndex : UInt64.ofNat j ≠ UInt64.ofNat i := by
      intro hEq
      have hNat := congrArg UInt64.toNat hEq
      rw [UInt64.toNat_ofNat_of_lt' (by rw [UInt64.size]; omega),
        UInt64.toNat_ofNat_of_lt' (by rw [UInt64.size]; omega)] at hNat
      exact hNe hNat
    exact (Function.update_of_ne hIndex _ _).trans (hMap j (by omega))

theorem fillInitialBucket_reads {υ : Type} {view : World → υ} (hFramed : Framed view)
    (tree : List RingBucket) (idx : Nat) :
    Reads World.prng view 1 fun tape => fillInitialBucket (env.drawing tape) tree idx :=
  (fillBucketFromStash_reads hFramed _ _).map _

theorem initializeServerStorage_reads {υ : Type} {view : World → υ} (hFramed : Framed view) :
    Reads World.prng view env.cfg.numTreeNodes.toNat fun tape =>
      initializeServerStorage (env.drawing tape) := by
  have hBuild := @Reads.foldlM _ _ _ _ _ _ World.prng view 1
    (List.range env.cfg.numTreeNodes.toNat).reverse
    (fun tape => fillInitialBucket (env.drawing tape))
    (List.replicate env.cfg.numTreeNodes.toNat
      (RingBucket.empty env.cfg.z env.cfg.s env.cfg.blockSize))
    fun tree idx _ => fillInitialBucket_reads hFramed tree idx
  rw [List.length_reverse, List.length_range, Nat.mul_one] at hBuild
  change Reads World.prng view (env.cfg.numTreeNodes.toNat + 0) fun tape =>
    buildInitialPlainTree (env.drawing tape) >>= fun tree => (do
      let payloads ← tree.mapM (sealBucket env)
      let response ← roundTrip env (.init (UInt64.ofNat tree.length) payloads)
      expectAck response)
  apply hBuild.bind
  intro tree
  have hSeal (bucket : RingBucket) :
      Reads World.prng view 0 fun _ : Nat → Nat => sealBucket env bucket := by
    apply Reads.blind_bind (withIvs_blind hFramed _)
    intro encrypted
    exact (blind_fromExcept _).reads
  change Reads World.prng view (tree.length * 0 + 0) _
  apply (Reads.mapM fun bucket _ => hSeal bucket).bind
  intro payloads
  apply Reads.blind_bind (roundTrip_blind hFramed fun _ _ => rfl)
  intro response
  exact (blind_throwIf _ _).reads

/-- The draws of the constructors. -/
def constructionBudget (cfg : RuntimeConfig) : Nat := cfg.numBlocks.toNat + cfg.numTreeNodes.toNat

theorem construct_reads :
    Reads World.prng (fun _ => ()) (constructionBudget env.cfg) fun tape =>
      construct (env.drawing tape) := by
  simp only [construct, Env.drawing_cfg]
  apply Reads.fromExcept_bind
  intro _ _
  apply Reads.check_bind
  intro _
  have hInitial (i : Nat) :
      Reads World.prng (fun _ => ()) 1 fun tape => addInitialBlock (env.drawing tape) i := by
    simp only [addInitialBlock, Env.drawing_cfg]
    change Reads World.prng _ (1 + 0) _
    apply (withPrng_reads framed_unit getRandomLeaf_reads).bind
    intro leaf
    exact Reads.modify_bind (fun _ => rfl) (fun _ => rfl)
      (Blind.reads (withStash_blind framed_unit _))
  have hBlocks := @Reads.forM _ _ _ _ _ World.prng (fun _ => ()) 1
    (List.range env.cfg.numBlocks.toNat)
    (fun tape => addInitialBlock (env.drawing tape)) fun i _ => hInitial i
  rw [List.length_range, Nat.mul_one] at hBlocks
  apply hBlocks.bind
  intro _
  apply Reads.blind_bind (withStash_blind framed_unit _)
  intro _
  apply Reads.blind_bind (withStash_blind framed_unit _)
  intro _
  exact initializeServerStorage_reads framed_unit

theorem construct_draws {stashFile : Option Bytes} {bucketFiles : Nat → Option Bytes} :
    wp (construct (env.drawing tape)) (World.start stashFile bucketFiles) (fun _ w =>
      env.cfg.numBlocks.toNat ≤ w.prng ∧ w.leaves = [] ∧
        ∀ i < env.cfg.numBlocks.toNat,
        w.positionMap (UInt64.ofNat i) = some (leafDrawn env.cfg tape i)) fun _ _ => True := by
  refine wp.fromExcept_bind (fun _ _ => trivial) fun _ _ =>
    wp.check_bind (fun _ => trivial) fun _ => ?_
  apply wp.bind (addInitialBlocks_draw _ (UInt64.toNat_lt _).le)
  rintro _ w ⟨hPrng, hLeaves, hMap⟩
  have hStash {α : Type} (x : StashM α) (w : World) :
      wp (withStash x) w (fun _ w' => w'.prng = w.prng ∧ w'.mapState = w.mapState)
        fun _ _ => True := by
    rw [wp_iff]
    refine ⟨fun a w' hRun => ?_, fun _ _ _ => trivial⟩
    have hBlind := withStash_blind framed_mapState x w
    rwa [hRun] at hBlind
  apply wp.bind (hStash _ w)
  rintro _ w₁ ⟨hPrng₁, hState₁⟩
  apply wp.bind (hStash _ w₁)
  rintro _ w₂ ⟨hPrng₂, hState₂⟩
  have hServer := (@initializeServerStorage_reads env _ _ framed_mapState).wp_kept tape w₂
  refine wp_mono hServer ?_ fun _ _ _ => trivial
  rintro _ w₃ ⟨hForward, hKept⟩
  have hState : w₃.mapState = w.mapState := hKept.trans (hState₂.trans hState₁)
  rw [hPrng₂, hPrng₁, hPrng] at hForward
  refine ⟨(Nat.le_add_left _ _).trans hForward, (congrArg Prod.snd hState).trans hLeaves,
    fun i hi => ?_⟩
  have hAt := hMap i hi
  rw [World.start, Nat.zero_add] at hAt
  exact (congrFun (congrArg Prod.fst hState) _).trans hAt

end Construction

section Runs

/-- The accesses of a run as programs on a tape. -/
def accessPrograms (env : Env) (calls : List Call) : List ((Nat → Nat) → RingM Bytes) :=
  calls.map fun call tape => access (env.drawing tape) call.op call.addr call.data

/-- The position map as a list. -/
def World.positions (cfg : RuntimeConfig) (w : World) : List (Option UInt64) :=
  (List.range cfg.numBlocks.toNat).map fun i => w.positionMap (UInt64.ofNat i)

theorem positions_update {cfg : RuntimeConfig} {addr : UInt64} {leaf : UInt64}
    (h : w'.positionMap = Function.update w.positionMap addr (some leaf)) :
    w'.positions cfg = (w.positions cfg).set addr.toNat (some leaf) := by
  refine List.ext_getElem ?_ fun i hi hi' => ?_
  · simp only [World.positions, List.length_set, List.length_map]
  · have hLt : i < cfg.numBlocks.toNat := by simpa [World.positions] using hi
    have hNat : (UInt64.ofNat i).toNat = i :=
      UInt64.toNat_ofNat_of_lt' (hLt.trans (UInt64.toNat_lt _))
    rw [List.getElem_set]
    simp only [World.positions, List.getElem_map, List.getElem_range, h]
    split
    · rename_i hEq
      rw [← hEq, UInt64.ofNat_toNat, Function.update_self]
    · rename_i hNe
      refine Function.update_of_ne (fun hEq => hNe ?_) _ _
      rw [← hEq, hNat]

theorem getElem?_positions {cfg : RuntimeConfig} {addr : UInt64} (hAddr : addr < cfg.numBlocks) :
    (w.positions cfg)[addr.toNat]? = some (w.positionMap addr) := by
  rw [World.positions, List.getElem?_map, List.getElem?_range (UInt64.lt_iff_toNat_lt.mp hAddr),
    Option.map_some, UInt64.ofNat_toNat]

theorem accesses_exchange (hValid : ∀ call ∈ calls, call.addr < env.cfg.numBlocks)
    {results : List Bytes}
    (hRun : (calls.mapM fun call => access (env.drawing tape) call.op call.addr call.data).run w =
      .ok results w') :
    ∃ revealed : List UInt64, w'.leaves = w.leaves ++ revealed ∧
      (revealed.map some, w'.positions env.cfg) =
        exchange (w.positions env.cfg) ((addresses calls).zip
          ((marks World.prng tape (accessPrograms env calls) w).map fun tick =>
            some (leafDrawn env.cfg tape tick))) ∧
      (marks World.prng tape (accessPrograms env calls) w).Pairwise (· < ·) ∧
      ∀ tick ∈ marks World.prng tape (accessPrograms env calls) w, w.prng ≤ tick := by
  induction calls generalizing w results with
  | nil =>
    cases hRun
    exact ⟨[], (List.append_nil _).symm, rfl, .nil, fun _ hTick => absurd hTick List.not_mem_nil⟩
  | cons call calls ih =>
    rw [List.mapM_cons] at hRun
    obtain ⟨result, w₁, hFirst, hRest⟩ := run_bind_eq_ok hRun
    obtain ⟨rest, w₂, hCalls, hFinal⟩ := run_bind_eq_ok hRest
    cases hFinal
    obtain ⟨hForward, oldLeaf, hPosition, hLeaves, hMap⟩ :=
      (wp_iff.mp (access_exchanges call.op call.addr call.data)).1 _ _ hFirst
    obtain ⟨revealed, hRevealed, hExchange, hPairwise, hLow⟩ :=
      ih (fun other hOther => hValid other (List.mem_cons_of_mem _ hOther)) hCalls
    have hMarks : marks World.prng tape (accessPrograms env (call :: calls)) w =
        w.prng :: marks World.prng tape (accessPrograms env calls) w₁ := by
      change w.prng :: marks World.prng tape (accessPrograms env calls)
        (finalState ((access (env.drawing tape) call.op call.addr call.data).run w)) = _
      rw [hFirst]
      rfl
    have hEntry := getElem?_positions (w := w) (hValid call List.mem_cons_self)
    rw [hPosition] at hEntry
    rw [hMarks]
    refine ⟨oldLeaf :: revealed, ?_, ?_, ?_, ?_⟩
    · rw [hRevealed, hLeaves, List.append_assoc, List.singleton_append]
    · rw [addresses_cons, List.map_cons, List.map_cons, List.zip_cons_cons, exchange_cons hEntry,
        ← positions_update hMap, ← hExchange]
    · exact List.pairwise_cons.mpr ⟨fun tick hTick =>
        hForward.trans_le (hLow tick hTick), hPairwise⟩
    · intro tick hTick
      obtain rfl | hMem := List.mem_cons.mp hTick
      · exact le_rfl
      · exact hForward.le.trans (hLow tick hMem)

end Runs

section Distribution

variable {stashFile : Option Bytes} {bucketFiles : Nat → Option Bytes}

/-- What the server has seen after a run on a fresh pair of client and server, and the position map
then. -/
def outcome (env : Env) (start : World) (calls : List Call) : List Sketch × List (Option UInt64) :=
  match (session env calls).run start with
  | .ok _ w => (w.sketches, w.positions env.cfg)
  | .error _ w => (w.sketches, w.positions env.cfg)

/-- The tick at which leaf `j` of a run is drawn. -/
def leafTick (env : Env) (start : World) (calls : List Call) (tape : Nat → Nat) (j : Nat) : Nat :=
  if j < env.cfg.numBlocks.toNat then j
  else (marks World.prng tape (accessPrograms env calls)
    (finalState ((construct (env.drawing tape)).run start))).getD (j - env.cfg.numBlocks.toNat) 0

/-- What the server sees of accesses to these leaves. -/
def simulatedTrace (cfg : RuntimeConfig) (leaves : List UInt64) : List Sketch :=
  (leaves.foldl (Schedule.access cfg) (.start cfg)).trace

/-- The draws of a run with this many accesses. -/
def runBudget (cfg : RuntimeConfig) (count : Nat) : Nat :=
  constructionBudget cfg + count * (1 + accessBudget cfg)

/-- Leaf `j` of a run. -/
def runLeaf (env : Env) (start : World) (calls : List Call) (tape : Nat → Nat) (j : Nat) : UInt64 :=
  leafDrawn env.cfg tape (leafTick env start calls tape j)

/-- A run returns, its trace is simulated from the leaves that it reveals, and these are, with the
position map that is left, an exchange of the leaves that it draws. -/
theorem session_exchange (hAccepted : env.cfg.Accepted)
    (hValid : ∀ call ∈ calls, ValidCall env.cfg call)
    (tape : Nat → Nat) : ∃ leaves : List UInt64, ∃ positions : List (Option UInt64),
      outcome (env.drawing tape) (World.start stashFile bucketFiles) calls =
        (simulatedTrace env.cfg leaves, positions) ∧
      (leaves.map some, positions) = exchange
        ((List.range env.cfg.numBlocks.toNat).map fun j =>
          some (runLeaf env (World.start stashFile bucketFiles) calls tape j))
        ((addresses calls).zip ((List.range calls.length).map fun j =>
          some (runLeaf env (World.start stashFile bucketFiles) calls tape
            (env.cfg.numBlocks.toNat + j)))) ∧
      ∀ i j, i < j → j < env.cfg.numBlocks.toNat + calls.length →
        leafTick env (World.start stashFile bucketFiles) calls tape i <
          leafTick env (World.start stashFile bucketFiles) calls tape j := by
  obtain ⟨results, w, hRun, _, _, hTrace⟩ := returns_iff.mp
    (@session_spec (env.drawing tape) hAccepted stashFile bucketFiles calls hValid)
  obtain ⟨_, w₀, hConstruct, hCalls⟩ := run_bind_eq_ok hRun
  obtain ⟨hPrng, hEmpty, hMap⟩ := (wp_iff.mp construct_draws).1 _ _ hConstruct
  obtain ⟨revealed, hLeaves, hExchange, hPairwise, hLow⟩ :=
    accesses_exchange (fun call hCall => (hValid call hCall).1) hCalls
  rw [hEmpty, List.nil_append] at hLeaves
  have hTick (j : Nat) : leafTick env (World.start stashFile bucketFiles) calls tape j =
      if j < env.cfg.numBlocks.toNat then j
      else (marks World.prng tape (accessPrograms env calls) w₀).getD
          (j - env.cfg.numBlocks.toNat) 0 := by
    rw [leafTick, hConstruct]
    rfl
  have hMarks : (marks World.prng tape (accessPrograms env calls) w₀).length = calls.length :=
    length_marks.trans (List.length_map _)
  refine ⟨w.leaves, w.positions env.cfg, ?_, ?_, ?_⟩
  · rw [outcome, hRun]
    exact Prod.ext hTrace rfl
  · rw [hLeaves, hExchange]
    congr 1
    · refine List.map_congr_left fun j hj => ?_
      have hj' := List.mem_range.mp hj
      rw [hMap j hj', runLeaf, hTick, if_pos hj']
    · refine congrArg (List.zip (addresses calls)) (List.ext_getElem ?_ fun j hj _ => ?_)
      · rw [List.length_map, hMarks, List.length_map, List.length_range]
      · rw [List.length_map] at hj
        rw [List.getElem_map, List.getElem_map, List.getElem_range, runLeaf, hTick,
          if_neg (Nat.not_lt.mpr (Nat.le_add_right _ _)), Nat.add_sub_cancel_left,
          List.getD_eq_getElem _ _ hj]
  · intro i j hij hj
    rw [hTick, hTick]
    split
    · split
      · exact hij
      · have hLt : j - env.cfg.numBlocks.toNat <
            (marks World.prng tape (accessPrograms env calls) w₀).length := by omega
        rw [List.getD_eq_getElem _ _ hLt]
        have hLower := hLow _ (List.getElem_mem hLt)
        omega
    · rw [if_neg (by omega), List.getD_eq_getElem _ _ (by omega),
        List.getD_eq_getElem _ _ (by omega)]
      exact List.pairwise_iff_getElem.mp hPairwise _ _ _ _ (by omega)

variable {start : World} {size : Nat} {j : Nat}

theorem accessPrograms_reads : ∀ x ∈ accessPrograms env calls,
    Reads World.prng (fun _ => ()) (1 + accessBudget env.cfg) x := by
  intro x hx
  obtain ⟨call, _, rfl⟩ := List.mem_map.mp hx
  exact access_reads call.op call.addr call.data

theorem leafTick_lt (hStart : start.prng = 0) (hj : j < env.cfg.numBlocks.toNat + calls.length) :
    leafTick env start calls tape j < runBudget env.cfg calls.length := by
  rw [leafTick, runBudget]
  split
  · rw [constructionBudget]
    omega
  · have hBound := (@construct_reads env).bounded tape start
    have hMark := (@marks_bounds _ _ _ _ _ World.prng (fun _ => ()) _ _ tape
      (finalState ((construct (env.drawing tape)).run start)) (j - env.cfg.numBlocks.toNat)
      (@accessPrograms_reads env calls) (by rw [accessPrograms, List.length_map]; omega)).2
    have hIndex : (j - env.cfg.numBlocks.toNat + 1) * (1 + accessBudget env.cfg) ≤
        calls.length * (1 + accessBudget env.cfg) := Nat.mul_le_mul_right _ (by omega)
    rw [Nat.succ_mul] at hIndex
    omega

theorem leafTick_decided (hj : j < env.cfg.numBlocks.toNat + calls.length)
    (hSame : ∀ t < leafTick env start calls tape j, tape' t = tape t) :
    leafTick env start calls tape' j = leafTick env start calls tape j := by
  rw [leafTick] at hSame ⊢
  rw [leafTick]
  split
  · rfl
  · rename_i hLate
    rw [if_neg hLate] at hSame
    have hj' : j - env.cfg.numBlocks.toNat < (accessPrograms env calls).length := by
      rw [accessPrograms, List.length_map]
      omega
    have hLow := (@marks_bounds _ _ _ _ _ World.prng (fun _ => ()) _ _ tape
      (finalState ((construct (env.drawing tape)).run start)) _
        (@accessPrograms_reads env calls) hj').1
    rw [construct_reads.decided tape tape' start fun t ht => hSame t (ht.trans_le hLow)]
    exact marks_decided accessPrograms_reads hj' hSame

/-- The place of the tape from which leaf `j` of a run is drawn. -/
def leafPlace (env : Env) (calls : List Call) (hStart : start.prng = 0)
    (hSize : runBudget env.cfg calls.length ≤ size) (tape : Fin size → Fin (2 ^ 64))
    (j : Fin (env.cfg.numBlocks.toNat + calls.length)) : Fin size :=
  ⟨leafTick env start calls (extend tape) j, (leafTick_lt hStart j.isLt).trans_le hSize⟩

theorem adaptive_leafPlace (hAccepted : env.cfg.Accepted)
    (hValid : ∀ call ∈ calls, ValidCall env.cfg call)
    (hSize : runBudget env.cfg calls.length ≤ size) :
    Adaptive (leafPlace env calls (show (World.start stashFile bucketFiles).prng = 0 from rfl)
      hSize) where
  increasing tape i j hLt := by
    obtain ⟨_, _, _, _, hIncreasing⟩ :=
      @session_exchange env calls stashFile bucketFiles hAccepted hValid (extend tape)
    exact hIncreasing i j hLt j.isLt
  decided tape tape' j hSame := by
    refine Fin.ext (leafTick_decided j.isLt fun t ht => ?_)
    have hLt : t < size := ht.trans (leafPlace env calls rfl hSize tape j).isLt
    rw [extend_of_lt ⟨t, hLt⟩, extend_of_lt ⟨t, hLt⟩, hSame ⟨t, hLt⟩ ht]

theorem runLeaf_extend (hDepth : env.cfg.depth < 63) (hStart : start.prng = 0)
    (hSize : runBudget env.cfg calls.length ≤ size)
    (tape : Fin size → Fin (2 ^ 64)) (j : Fin (env.cfg.numBlocks.toNat + calls.length)) :
    runLeaf env start calls (extend tape) j =
      leafOf (remainder (tape (leafPlace env calls hStart hSize tape j)) :
        Fin (2 ^ env.cfg.depth)) := by
  have hWord : extend tape (leafTick env start calls (extend tape) j) =
      (tape (leafPlace env calls hStart hSize tape j)).val :=
    extend_of_lt (leafPlace env calls hStart hSize tape j)
  rw [runLeaf, leafDrawn, RuntimeConfig.toNat_numLeaves hDepth, hWord]
  rfl

/-- The run on a tape, when the leaves that it draws are listed. -/
theorem outcome_extend (hAccepted : env.cfg.Accepted)
    (hValid : ∀ call ∈ calls, ValidCall env.cfg call)
    (hSize : runBudget env.cfg calls.length ≤ size) (tape : Fin size → Fin (2 ^ 64))
    {drawn : List (Fin (2 ^ env.cfg.depth))}
    (hDrawn : drawn = List.ofFn fun j => remainder (tape (leafPlace env calls
      (show (World.start stashFile bucketFiles).prng = 0 from rfl) hSize tape j))) :
    outcome (env.drawing (extend tape)) (World.start stashFile bucketFiles) calls =
      (fun y : List (Fin (2 ^ env.cfg.depth)) × List (Fin (2 ^ env.cfg.depth)) =>
        (simulatedTrace env.cfg (y.1.map leafOf), y.2.map fun leaf => some (leafOf leaf)))
      (exchange (drawn.take env.cfg.numBlocks.toNat)
        ((addresses calls).zip (drawn.drop env.cfg.numBlocks.toNat))) := by
  obtain ⟨leaves, positions, hOutcome, hExchange, _⟩ :=
    @session_exchange env calls stashFile bucketFiles hAccepted hValid (extend tape)
  have hLength : drawn.length = env.cfg.numBlocks.toNat + calls.length := hDrawn ▸ List.length_ofFn
  have hLeaf (j : Nat) (hj : j < drawn.length) :
      some (runLeaf env (World.start stashFile bucketFiles) calls (extend tape) j) =
        some (leafOf drawn[j]) := by
    have hRun := @runLeaf_extend env calls (World.start stashFile bucketFiles) size
      hAccepted.depth rfl hSize tape
      ⟨j, hLength ▸ hj⟩
    simp only [hDrawn, List.getElem_ofFn]
    exact congrArg some hRun
  have hTable : ((List.range env.cfg.numBlocks.toNat).map fun j =>
      some (runLeaf env (World.start stashFile bucketFiles) calls (extend tape) j)) =
        (drawn.take env.cfg.numBlocks.toNat).map fun leaf => some (leafOf leaf) := by
    refine List.ext_getElem (by simp [hLength]) fun j hj hj' => ?_
    rw [List.length_map, List.length_range] at hj
    rw [List.getElem_map, List.getElem_range, List.getElem_map,
      List.getElem_take, hLeaf j (by omega)]
  have hFresh : ((List.range calls.length).map fun j =>
      some (runLeaf env (World.start stashFile bucketFiles) calls (extend tape)
        (env.cfg.numBlocks.toNat + j))) =
        (drawn.drop env.cfg.numBlocks.toNat).map fun leaf => some (leafOf leaf) := by
    refine List.ext_getElem (by simp [hLength]) fun j hj hj' => ?_
    rw [List.length_map, List.length_range] at hj
    rw [List.getElem_map, List.getElem_range, List.getElem_map,
      List.getElem_drop, hLeaf _ (by omega)]
  rw [hTable, hFresh, List.zip_map_right, exchange_map, Prod.mk.injEq] at hExchange
  obtain ⟨hRead, hLeft⟩ := hExchange
  have hLeaves : leaves = (exchange (drawn.take env.cfg.numBlocks.toNat)
      ((addresses calls).zip (drawn.drop env.cfg.numBlocks.toNat))).1.map leafOf := by
    refine (Option.some_injective _).list_map ?_
    rw [hRead, List.map_map]
    rfl
  rw [hOutcome, hLeaves, hLeft]

/-- What the server sees of a run with uniform and independent words can be simulated, up to slot
offsets and ciphertexts, from the configuration and the number of accesses, and the position map is
uniform given what the server has seen. -/
theorem outcome_simulated (hAccepted : env.cfg.Accepted)
    (hValid : ∀ call ∈ calls, ValidCall env.cfg call)
    (hSize : runBudget env.cfg calls.length ≤ size) :
    (PMF.uniformOfFintype (Fin size → Fin (2 ^ 64))).map
        (fun tape => outcome (env.drawing (extend tape))
          (World.start stashFile bucketFiles) calls) =
      (PMF.uniformOfFintype ((Fin calls.length → Fin (2 ^ env.cfg.depth)) ×
          (Fin env.cfg.numBlocks.toNat → Fin (2 ^ env.cfg.depth)))).map
        fun x => (simulatedTrace env.cfg ((List.ofFn x.1).map leafOf),
          (List.ofFn x.2).map fun leaf => some (leafOf leaf)) := by
  have hDivides : 2 ^ env.cfg.depth ∣ 2 ^ 64 :=
    Nat.pow_dvd_pow 2 (by have := hAccepted.depth; omega)
  have hLabels := labels_uniform
    (@adaptive_leafPlace env calls stashFile bucketFiles size hAccepted hValid hSize)
    (balanced_remainder hDivides)
  have hAddresses : ∀ i ∈ addresses calls, i < env.cfg.numBlocks.toNat := by
    intro i hi
    obtain ⟨call, hCall, rfl⟩ := List.mem_map.mp hi
    exact UInt64.lt_iff_toNat_lt.mp (hValid call hCall).1
  have hUniform :=
    @exchange_uniform (Fin (2 ^ env.cfg.depth)) env.cfg.numBlocks.toNat _ _ _ calls.length
    (List.length_map _) hAddresses
  rw [← hLabels] at hUniform
  have hMapped := congrArg
    (PMF.map fun y : List (Fin (2 ^ env.cfg.depth)) × List (Fin (2 ^ env.cfg.depth)) =>
      (simulatedTrace env.cfg (y.1.map leafOf), y.2.map fun leaf => some (leafOf leaf))) hUniform
  rw [PMF.map_comp, PMF.map_comp, PMF.map_comp] at hMapped
  exact Eq.trans (congrArg (fun f => PMF.map f _) (funext fun tape =>
    outcome_extend hAccepted hValid hSize tape rfl)) hMapped

/-- Two accesses on a tape of 200 words. -/
theorem outcome_simulated_small :
    (PMF.uniformOfFintype (Fin 200 → Fin (2 ^ 64))).map (fun tape =>
        outcome (Env.small.drawing (extend tape)) (World.start none fun _ => none)
          [⟨.write, 1, [7]⟩, ⟨.read, 0, []⟩]) =
      (PMF.uniformOfFintype ((Fin 2 → Fin (2 ^ 1)) × (Fin 2 → Fin (2 ^ 1)))).map fun x =>
        (simulatedTrace Env.small.cfg ((List.ofFn x.1).map leafOf), (List.ofFn x.2).map fun leaf =>
          some (leafOf leaf)) :=
  @outcome_simulated .small [⟨.write, 1, [7]⟩, ⟨.read, 0, []⟩] none (fun _ => none) 200
    accepted_small (by decide) (by decide)

end Distribution
end OramHub.RingOram
