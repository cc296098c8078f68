import OramHub.Lib.Exchange
import OramHub.Lib.Preservation
import OramHub.PathOram.Trace

/-! # The leaves that are drawn and the leaves that are revealed

Every access exchanges an entry of the position map for a fresh draw and follows the path of the old
entry. What the server sees of a run is therefore distributed like paths to leaves chosen at random,
whatever is accessed.
-/
namespace OramHub.PathOram
open OramHub.Core OramHub.Program OramHub.Exchange
set_option autoImplicit false

/-- What only `getRandomLeaf` and the remapping of an address change. -/
def World.mapState (w : World) : UInt64 × List UInt64 × Nat := (w.numLeaves, w.positionMap, w.prng)

/-- The leaf that draw `tick` gives. -/
def leafDrawn (env : Env) (numLeaves : UInt64) (tick : Nat) : UInt64 :=
  UInt64.ofNat (env.entropy.draw tick % numLeaves.toNat)

variable {env : Env} {w : World} {state : UInt64 × List UInt64 × Nat} {numLeaves : UInt64}
  {positions : List UInt64}
  {tick : Nat} {calls : List Call}

section Frame

theorem roundTrip_mapState (request : Request) :
    Preserves (fun w : World => w.mapState = state) (roundTrip env request) fun _ => True := by
  intro w hState
  exact wp_roundTrip (fun _ _ _ _ => ⟨trivial, hState⟩) (fun _ _ _ _ _ => hState)
    (fun _ _ _ _ _ => ⟨trivial, hState⟩) fun _ => hState

theorem encryptBucket_mapState (bucket : Bucket) :
    Preserves (fun w : World => w.mapState = state) (encryptBucket env bucket) fun _ => True := by
  intro w hState
  refine wp.get_bind ((wp_bind _ _).mpr ((wp_set _).mpr ?_))
  exact (Preserves.fromExcept _).mono (fun _ _ => trivial) _ hState

theorem readPathFromServer_mapState (path : List UInt64) :
    Preserves (fun w : World => w.mapState = state) (readPathFromServer env path) fun _ =>
      True := by
  apply (roundTrip_mapState _).bind
  intro response _
  cases response with
  | path responseCount payloads =>
    apply (Preserves.check _).bind
    intro _ _
    exact (Preserves.fromExcept _).mono fun _ _ => trivial
  | bucket => exact Preserves.throw _
  | ack => exact Preserves.throw _
  | silent => exact Preserves.throw _

theorem writePathToServer_mapState (path : List UInt64) (buckets : List Bucket) :
    Preserves (fun w : World => w.mapState = state) (writePathToServer env path buckets) fun _ =>
      True := by
  apply (Preserves.check _).bind
  intro _ _
  apply (Preserves.mapM fun bucket _ => encryptBucket_mapState bucket).bind
  intro payloads _
  apply (roundTrip_mapState _).bind
  intro response _
  exact (Preserves.check _).mono fun _ _ => trivial

theorem readPath_mapState (leaf : UInt64) :
    Preserves (fun w : World => w.mapState = state) (readPath env leaf) fun _ => True := by
  apply (Preserves.fromExcept _).bind
  intro path _
  apply (readPathFromServer_mapState path).bind
  intro buckets _
  exact Preserves.modify fun _ => id

theorem evictBlocksToPath_mapState (leaf : UInt64) (buckets : List Bucket) :
    Preserves (fun w : World => w.mapState = state) (evictBlocksToPath leaf buckets) fun _ =>
      True := by
  apply Preserves.get_bind
  intro world
  apply (Preserves.fromExcept _).bind
  intro placed _
  exact Preserves.modify_bind (fun _ => id) (Preserves.pure trivial)

theorem writePath_mapState (leaf : UInt64) :
    Preserves (fun w : World => w.mapState = state) (writePath env leaf) fun _ => True := by
  apply (Preserves.fromExcept _).bind
  intro path _
  apply (evictBlocksToPath_mapState leaf _).bind
  intro filled _
  exact writePathToServer_mapState path _

end Frame

section Runs

theorem getRandomLeaf_drawn : Returns (getRandomLeaf env) w fun leaf w' =>
    leaf = leafDrawn env w.numLeaves w.prng ∧ w' = { w with prng := w.prng + 1 } :=
  Returns.get_bind (Returns.set_bind (Returns.pure ⟨rfl, rfl⟩))

theorem drawLeaves_drawn (items : List Nat) :
    Returns (items.mapM fun _ => getRandomLeaf env) w fun leaves w' =>
      leaves = (List.range' w.prng items.length).map (leafDrawn env w.numLeaves) ∧
        w' = { w with prng := w.prng + items.length } := by
  induction items generalizing w with
  | nil => exact Returns.pure ⟨rfl, rfl⟩
  | cons item items ih =>
    rw [List.mapM_cons]
    apply getRandomLeaf_drawn.bind
    rintro leaf _ ⟨rfl, rfl⟩
    apply ih.bind
    rintro leaves _ ⟨rfl, rfl⟩
    refine Returns.pure ⟨?_, ?_⟩
    · rw [List.length_cons, List.range'_succ, List.map_cons]
    · rw [List.length_cons, Nat.add_assoc, Nat.add_comm 1]

/-- An access replaces the entry of its address by the next draw. -/
theorem access_mapState (hState : w.mapState = (numLeaves, positions, tick)) (op : Op)
    (addr : UInt64) (data : Bytes) :
    wp (access env op addr data) w
      (fun _ w' => w'.mapState =
        (numLeaves, positions.set addr.toNat (leafDrawn env numLeaves tick), tick + 1))
      fun _ _ => True := by
  obtain ⟨rfl, rfl, rfl⟩ : w.numLeaves = numLeaves ∧ w.positionMap = positions ∧ w.prng = tick := by
    simpa [World.mapState] using hState
  refine wp.get_bind (wp.fromExcept_bind (fun _ _ => trivial) fun oldLeaf _ =>
    getRandomLeaf_drawn.outcome_bind ?_)
  rintro newLeaf _ ⟨rfl, rfl⟩
  apply wp.modify_bind
  refine wp.bind (wp_mono (readPath_mapState oldLeaf _ rfl) (fun _ _ h => h.2) fun _ _ _ => trivial)
    fun _ w' hRead => ?_
  refine wp.get_bind (wp.modify_bind ?_)
  refine wp.bind (wp_mono (writePath_mapState oldLeaf _ hRead) (fun _ _ h => h.2) fun _ _ _ =>
    trivial) ?_
  exact fun _ w'' hWritten => wp.pure hWritten

theorem revealCall_mapState (hState : w.mapState = (numLeaves, positions, tick)) (call : Call) :
    wp (revealCall env call) w (fun leaf w' => leaf = positions.getD call.addr.toNat 0 ∧
      w'.mapState = (numLeaves,
        positions.set call.addr.toNat (leafDrawn env numLeaves tick), tick + 1))
      fun _ _ => True := by
  refine wp.get_bind (wp.bind (access_mapState hState call.op call.addr call.data) fun _ w' hNext =>
    wp.pure ⟨?_, hNext⟩)
  exact congrArg (fun state => state.2.1.getD call.addr.toNat 0) hState

theorem revealCalls_exchange (hState : w.mapState = (numLeaves, positions, tick))
    (hAddr : ∀ call ∈ calls, call.addr.toNat < positions.length) :
    wp (calls.mapM (revealCall env)) w
      (fun leaves w' => (leaves, w'.positionMap) = exchange positions
        ((addresses calls).zip ((List.range' tick calls.length).map (leafDrawn env numLeaves))))
      fun _ _ => True := by
  induction calls generalizing w positions tick with
  | nil =>
    have hPositions : w.positionMap = positions := congrArg (fun state => state.2.1) hState
    exact wp.pure (congrArg (Prod.mk []) hPositions)
  | cons call calls ih =>
    have hCall := hAddr call List.mem_cons_self
    rw [List.mapM_cons]
    apply wp.bind (revealCall_mapState hState call)
    rintro _ w' ⟨rfl, hNext⟩
    refine wp.bind (ih hNext fun other hOther =>
      List.length_set.symm ▸ hAddr other (List.mem_cons_of_mem _ hOther)) ?_
    intro leaves w'' hRest
    apply wp.pure
    rw [List.length_cons, List.range'_succ, List.map_cons, addresses_cons, List.zip_cons_cons,
      exchange_cons (List.getElem?_eq_getElem hCall), ← hRest, List.getD_eq_getElem _ _ hCall]

theorem setUp_mapState :
    wp (setUp env [] none) {}
      (fun _ w => ∃ numLeaves, getNumLeaves env.treeHeight = .ok numLeaves ∧
        w.mapState = (numLeaves, (List.range env.numBlocks.toNat).map (leafDrawn env numLeaves),
          env.numBlocks.toNat))
      fun _ _ => True := by
  refine wp.zoom_bind (wp_trivial _ _) (fun _ _ _ => trivial) fun _ server _ => ?_
  refine wp.zoom_bind (wp_trivial _ _) (fun _ _ _ => trivial) fun _ server' _ => ?_
  refine wp.bind (wp.fromExcept_bind (fun _ _ => trivial) fun numLeaves hLeaves =>
    wp.modify_bind ?_) fun _ _ => wp.pure
  apply (drawLeaves_drawn _).outcome_bind
  rintro positions _ ⟨rfl, rfl⟩
  refine (wp_modify _).mpr ⟨numLeaves, hLeaves, ?_⟩
  rw [World.mapState, List.length_range, List.range_eq_range', Nat.zero_add]

end Runs

section Distribution

/-- The draws of the client, listed. -/
def Env.drawing (env : Env) (draws : List Nat) : Env :=
  { env with entropy := { env.entropy with draw := fun tick => draws.getD tick 0 } }

/-- The commands, counts, indices and byte sizes that the server has seen after a run on a fresh
pair of client and server, and the position map then. -/
def outcome (env : Env) (calls : List Call) : List Sketch × List UInt64 :=
  match (session env none calls).run {} with
  | .ok _ w => (w.sketches, w.positionMap)
  | .error _ w => (w.sketches, w.positionMap)

/-- A run reveals leaves that are, with the position map after it, an exchange of the draws. -/
theorem session_exchange (hHeight : env.height < 63) (hValid : ∀ call ∈ calls, ValidCall env call)
    (hData : ∀ call ∈ calls, call.op = .write → call.data.length = kBlockSize) :
    ∃ leaves w, (session env none calls).run {} = .ok leaves w ∧
    w.sketches = leaves.flatMap (accessTrace env) ∧
      ∃ numLeaves : UInt64, numLeaves.toNat = 2 ^ env.height ∧ (leaves, w.positionMap) =
        exchange ((List.range env.numBlocks.toNat).map (leafDrawn env numLeaves)) ((addresses
          calls).zip ((List.range' env.numBlocks.toNat calls.length).map
            (leafDrawn env numLeaves))) := by
  have hAccepted : Accepted env [] none :=
    ⟨hHeight, Nat.zero_le _, fun positions hSome => by cases hSome⟩
  obtain ⟨_, w, hSetUp, ⟨bucket, hReady⟩, _⟩ := returns_iff.mp (setUp_spec.returns hAccepted)
  obtain ⟨numLeaves, hLeaves, hState⟩ := (wp_iff.mp setUp_mapState).1 _ _ hSetUp
  have hConsistent := hReady.consistent (agrees_of_validPositions hSetUp (validPositions_none env))
  obtain ⟨leaves, w', hCalls, hTrace⟩ := returns_iff.mp
    (revealCalls_spec hHeight hReady.stored hConsistent
      (uniform_initialTree hReady.tree) hValid hData)
  have hAddr : ∀ call ∈ calls,
      call.addr.toNat <
        ((List.range env.numBlocks.toNat).map (leafDrawn env numLeaves)).length := by
    intro call hCall
    rw [List.length_map, List.length_range]
    exact UInt64.lt_iff_toNat_lt.mp (hValid call hCall).1
  have hExchange := (wp_iff.mp (revealCalls_exchange hState hAddr)).1 _ _ hCalls
  refine ⟨leaves, w', ?_, hTrace, numLeaves, (shiftOne_eq_ok hLeaves).2, hExchange⟩
  rw [session, EStateM.run_bind, hSetUp]
  exact hCalls

theorem leafDrawn_drawing {draws : List (Fin (2 ^ env.height))}
    (hLeaves : numLeaves.toNat = 2 ^ env.height)
    (hTick : tick < draws.length) :
    leafDrawn (env.drawing (draws.map Fin.val)) numLeaves tick = leafOf draws[tick] := by
  have hDraw : (env.drawing (draws.map Fin.val)).entropy.draw tick = draws[tick].val := by
    refine (List.getD_eq_getElem _ _ ?_).trans (List.getElem_map _)
    rwa [List.length_map]
  rw [leafDrawn, hDraw, hLeaves, Nat.mod_eq_of_lt draws[tick].isLt, leafOf]

theorem map_leafDrawn_range' {draws : List (Fin (2 ^ env.height))}
    (hLeaves : numLeaves.toNat = 2 ^ env.height)
    {count : Nat} (hCount : tick + count ≤ draws.length) :
    (List.range' tick count).map (leafDrawn (env.drawing (draws.map Fin.val)) numLeaves) =
      ((draws.drop tick).take count).map leafOf := by
  refine List.ext_getElem ?_ fun i hi _ => ?_
  · rw [List.length_map, List.length_range', List.length_map, List.length_take, List.length_drop]
    omega
  · rw [List.length_map, List.length_range'] at hi
    rw [List.getElem_map, List.getElem_range', List.getElem_map,
      List.getElem_take, List.getElem_drop, leafDrawn_drawing hLeaves (by omega)]
    simp only [Nat.one_mul]

theorem outcome_drawing (hHeight : env.height < 63) (hValid : ∀ call ∈ calls, ValidCall env call)
    (hData : ∀ call ∈ calls, call.op = .write → call.data.length = kBlockSize)
    {draws : List (Fin (2 ^ env.height))}
    (hDraws : draws.length = env.numBlocks.toNat + calls.length) :
    outcome (env.drawing (draws.map Fin.val)) calls =
      Prod.map (List.flatMap (accessTrace env) ∘ List.map leafOf) (List.map leafOf)
      (exchange (draws.take env.numBlocks.toNat)
        ((addresses calls).zip (draws.drop env.numBlocks.toNat))) := by
  obtain ⟨leaves, w, hRun, hTrace, numLeaves, hLeaves, hExchange⟩ :=
    @session_exchange (env.drawing (draws.map Fin.val)) calls hHeight hValid hData
  have hTable := @map_leafDrawn_range' env numLeaves 0 draws hLeaves env.numBlocks.toNat (by omega)
  have hFresh := @map_leafDrawn_range' env numLeaves env.numBlocks.toNat draws hLeaves
    calls.length hDraws.ge
  rw [← List.range_eq_range', List.drop_zero] at hTable
  rw [List.take_of_length_le (by rw [List.length_drop]; omega)] at hFresh
  have hSteps (fresh : List (Fin (2 ^ env.height))) :
      (addresses calls).zip (fresh.map leafOf) =
        ((addresses calls).zip fresh).map (Prod.map id leafOf) := by
    rw [List.zip_map_right]
  have hMapped : (leaves, w.positionMap) = _ := hExchange.trans (congrArg₂
    (fun table fresh => exchange table ((addresses calls).zip fresh)) hTable hFresh)
  rw [hSteps, exchange_map, Prod.mk.injEq] at hMapped
  rw [outcome, hRun, Prod.map_apply', ← hMapped.2]
  refine Prod.ext (hTrace.trans ?_) rfl
  rw [hMapped.1]
  rfl

/-- What the server sees of a run with uniform and independent draws can be simulated from the
height and the number of accesses, and the position map is uniform given what the server has seen.
-/
theorem outcome_distribution (hHeight : env.height < 63)
    (hValid : ∀ call ∈ calls, ValidCall env call)
    (hData : ∀ call ∈ calls, call.op = .write → call.data.length = kBlockSize) :
    (PMF.uniformOfFintype (Fin (env.numBlocks.toNat + calls.length) → Fin (2 ^ env.height))).map
        (fun draws => outcome (env.drawing ((List.ofFn draws).map Fin.val)) calls) =
      (PMF.uniformOfFintype ((Fin calls.length → Fin (2 ^ env.height)) ×
          (Fin env.numBlocks.toNat → Fin (2 ^ env.height)))).map
        fun x => (((List.ofFn x.1).map leafOf).flatMap (accessTrace env),
          (List.ofFn x.2).map leafOf) := by
  have hAddresses : ∀ i ∈ addresses calls, i < env.numBlocks.toNat := by
    intro i hi
    obtain ⟨call, hCall, rfl⟩ := List.mem_map.mp hi
    exact UInt64.lt_iff_toNat_lt.mp (hValid call hCall).1
  have hUniform := @exchange_uniform (Fin (2 ^ env.height)) env.numBlocks.toNat _ _ _ calls.length
    (List.length_map _) hAddresses
  have hMapped := congrArg
    (PMF.map (Prod.map (List.flatMap (accessTrace env) ∘ List.map leafOf) (List.map leafOf)))
    hUniform
  rw [PMF.map_comp, PMF.map_comp] at hMapped
  refine Eq.trans (congrArg (fun f => PMF.map f _) (funext fun draws => ?_)) hMapped
  exact outcome_drawing hHeight hValid hData List.length_ofFn

/-- Two accesses to a tree with two leaves and three addresses. -/
theorem outcome_distribution_small :
    (PMF.uniformOfFintype (Fin (3 + 2) → Fin (2 ^ 1))).map (fun draws => outcome
        (Env.small.drawing ((List.ofFn draws).map Fin.val)) [⟨.read, 2, []⟩,
          ⟨.write, 0, List.replicate kBlockSize 5⟩]) =
      (PMF.uniformOfFintype ((Fin 2 → Fin (2 ^ 1)) × (Fin 3 → Fin (2 ^ 1)))).map
        fun x => (((List.ofFn x.1).map leafOf).flatMap (accessTrace .small),
          (List.ofFn x.2).map leafOf) := by
  refine @outcome_distribution .small [⟨.read, 2, []⟩, ⟨.write, 0, List.replicate kBlockSize 5⟩]
    (by decide) ?_ ?_
  · intro call hCall
    obtain rfl | rfl := List.mem_pair.mp hCall
    · exact ⟨show (2 : UInt64) < 3 by decide, fun hWrite => nomatch hWrite⟩
    · exact ⟨show (0 : UInt64) < 3 by decide, fun _ => List.length_replicate.trans_le (by decide)⟩
  · intro call hCall hWrite
    obtain rfl | rfl := List.mem_pair.mp hCall
    · cases hWrite
    · exact List.length_replicate

end Distribution
end OramHub.PathOram
