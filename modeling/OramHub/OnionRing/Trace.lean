import OramHub.Lib.Renaming
import OramHub.OnionRing.Runs

/-! # What the server learns before the first eviction

Until something is evicted, the root holds the blocks in the order in which they were first
accessed, and every other bucket is free. The slot that an access selects in the root tells which
earlier accesses had the same address.
-/
namespace OramHub.OnionRing
open OramHub.Core OramHub.Program OramHub.Renaming
set_option autoImplicit false

/-- A request as the server sees it, without the ciphertext in it. -/
inductive Sketch
  | access (leaf : UInt64) (selections : List UInt64)
  | clearPath (leaf : UInt64) (selections : List UInt64)
  | readBucket (bucketIdx : UInt64)
  | writeSlot (bucketIdx slotIdx : UInt64)
  | quit
  deriving DecidableEq, Repr

def Request.sketch : Request → Sketch
  | .access leaf selections => .access leaf selections
  | .clearPath leaf selections => .clearPath leaf selections
  | .readBucket bucketIdx => .readBucket bucketIdx
  | .writeSlot bucketIdx slotIdx _ => .writeSlot bucketIdx slotIdx
  | .quit => .quit

/-- The leaf that a request reveals. -/
def Sketch.leaf? : Sketch → Option UInt64
  | .access leaf _ => some leaf
  | _ => none

def sketches {C : Type} (w : World C) : List Sketch := w.log.map fun event => event.request.sketch

def leaves {C : Type} (w : World C) : List UInt64 := (sketches w).filterMap Sketch.leaf?

/-- Construction and accesses. -/
def session (env : Env) (calls : List Call) : OnionM env (List Bytes) := do
  setUp env
  calls.mapM (performCall env)

/-- No eviction is due after this many accesses. -/
def BeforeEviction (cfg : RuntimeConfig) (count : Nat) : Prop := cfg.a = 0 ∨ count < cfg.a.toNat

section Root

variable {seen : List UInt64} {addr : UInt64} {slots : Nat}

/-- The ids in the root, if some blocks have been accessed. -/
def rootIds (slots : Nat) (seen : List UInt64) : List Int :=
  (seen.map fun addr => (addr.toNat : Int)) ++ List.replicate (slots - seen.length) (-1)

theorem idOf_injOn (items : Set UInt64) :
    Set.InjOn (fun addr : UInt64 => (addr.toNat : Int)) items :=
  fun _ _ _ _ hEq => UInt64.toNat_inj.mp (Int.ofNat_inj.mp hEq)

theorem mem_ids : (addr.toNat : Int) ∈ (seen.map fun addr => (addr.toNat : Int)) ↔ addr ∈ seen :=
  @mem_map_iff UInt64 Int _ seen addr (idOf_injOn _)

theorem not_dummy_mem_ids (seen : List UInt64) :
    -1 ∉ (seen.map fun addr => (addr.toNat : Int)) := by
  intro h
  obtain ⟨addr, _, hEq⟩ := List.mem_map.mp h
  omega

theorem addr_mem_rootIds : (addr.toNat : Int) ∈ rootIds slots seen ↔ addr ∈ seen := by
  rw [rootIds, List.mem_append, mem_ids]
  apply or_iff_left
  intro hDummy
  have hEq := List.eq_of_mem_replicate hDummy
  omega

theorem findSlot_rootIds (hMem : addr ∈ seen) :
    findSlot (rootIds slots seen) addr.toNat = seen.idxOf addr := by
  rw [findSlot, rootIds, List.idxOf_append_of_mem (mem_ids.mpr hMem)]
  exact @Renaming.idxOf_map UInt64 Int _ _ seen _ addr (idOf_injOn _)

theorem findFirstDummySlot_rootIds (hRoom : seen.length < slots) :
    findFirstDummySlot (rootIds slots seen) = seen.length := by
  obtain ⟨count, hCount⟩ := Nat.exists_eq_succ_of_ne_zero (Nat.sub_ne_zero_of_lt hRoom)
  rw [findFirstDummySlot, findSlot, rootIds,
    List.idxOf_append_of_notMem (not_dummy_mem_ids seen), hCount,
    List.replicate_succ, List.idxOf_cons_self, List.length_map, Nat.add_zero]

theorem length_rootIds (hRoom : seen.length ≤ slots) : (rootIds slots seen).length = slots := by
  rw [rootIds, List.length_append, List.length_map, List.length_replicate,
    Nat.add_sub_cancel' hRoom]

theorem selectSlot_rootIds (hSmall : addr.toNat < 2 ^ 63) (hRoom : seen.length ≤ slots) {slot : Nat}
    (h : selectSlot (rootIds slots seen) addr = .ok slot) :
    slot = seen.idxOf addr ∧ slot < slots := by
  have hGet := selectSlot_eq_ok hSmall h
  have hLt := (List.getElem?_eq_some_iff.mp hGet).1
  rw [length_rootIds hRoom] at hLt
  refine ⟨?_, hLt⟩
  by_cases hMem : addr ∈ seen
  · have hFound : findSlot (rootIds slots seen) addr.toNat ≠ (rootIds slots seen).length :=
      findSlot_ne_length.mpr (addr_mem_rootIds.mpr hMem)
    simp only [selectSlot, toBlockId_of_lt hSmall, if_neg hFound] at h
    rw [← findSlot_rootIds hMem]
    exact (Except.ok.inj h).symm
  · have hMissing : findSlot (rootIds slots seen) addr.toNat = (rootIds slots seen).length :=
      not_not.mp fun hNe => hMem (addr_mem_rootIds.mp (findSlot_ne_length.mp hNe))
    rw [if_neg (mt addr_mem_rootIds.mp hMem)] at hGet
    have hFree : seen.length < slots := by
      apply lt_of_le_of_ne hRoom
      intro hFull
      have hDummy := List.mem_of_getElem? hGet
      rw [rootIds, hFull, Nat.sub_self, List.replicate_zero, List.append_nil] at hDummy
      exact not_dummy_mem_ids seen hDummy
    simp only [selectSlot, toBlockId_of_lt hSmall, if_pos hMissing] at h
    split_ifs at h
    rw [← Except.ok.inj h, findFirstDummySlot_rootIds hFree, List.idxOf_eq_length hMem]

theorem idxOf_set_self {ids : List Int} {slot : Nat} {id : Int} (hLt : slot < ids.length)
    (hBefore : id ∉ ids.take slot) :
    (ids.set slot id).idxOf id = slot := by
  rw [List.set_eq_take_append_cons_drop, if_pos hLt, List.idxOf_append_of_notMem hBefore,
    List.idxOf_cons_self, List.length_take_of_le hLt.le, Nat.add_zero]

/-- Clearing the selected slot and putting the block back changes the order of no blocks. -/
theorem rootIds_placed (hRoom : seen.length ≤ slots) (hSlot : seen.idxOf addr < slots) :
    findFirstDummySlot ((rootIds slots seen).set (seen.idxOf addr) (-1)) = seen.idxOf addr ∧
      ((rootIds slots seen).set (seen.idxOf addr) (-1)).set (seen.idxOf addr) addr.toNat =
        rootIds slots (visit seen addr) := by
  constructor
  · apply idxOf_set_self (by rwa [length_rootIds hRoom])
    intro hMem
    rw [rootIds, List.take_append_of_le_length
      (by rw [List.length_map]; exact List.idxOf_le_length)] at hMem
    exact not_dummy_mem_ids seen (List.mem_of_mem_take hMem)
  · rw [List.set_set, visit]
    by_cases hMem : addr ∈ seen
    · rw [if_pos hMem]
      have hGet := getElem?_findSlot (@addr_mem_rootIds seen addr slots |>.mpr hMem)
      rw [findSlot_rootIds hMem] at hGet
      obtain ⟨hLt, hEq⟩ := List.getElem?_eq_some_iff.mp hGet
      rw [← hEq, List.set_getElem_self]
    · rw [if_neg hMem]
      rw [List.idxOf_eq_length hMem] at hSlot ⊢
      obtain ⟨count, hCount⟩ := Nat.exists_eq_succ_of_ne_zero (Nat.sub_ne_zero_of_lt hSlot)
      have hRest : slots - (seen ++ [addr]).length = count := by
        rw [List.length_append, List.length_singleton]
        omega
      rw [rootIds, rootIds, hRest, hCount, List.set_append_right _ _ (List.length_map _).le,
        List.length_map,
        Nat.sub_self, List.replicate_succ, List.set_cons_zero, List.map_append, List.append_assoc]
      rfl

theorem selectSlot_dummies (hSmall : addr.toNat < 2 ^ 63) {slot : Nat}
    (h : selectSlot (List.replicate slots (-1)) addr = .ok slot) : slot = 0 := by
  have hRoot := @selectSlot_rootIds [] addr slots hSmall (Nat.zero_le _) slot
  exact (hRoot h).1

end Root

section Steps

variable {env : Env} {w w' : World env.Ciphertext} {seen : List UInt64}
  {addr leaf : UInt64} {count : Nat}
  {selections : List Nat} {call : Call} {result : Bytes}

/-- Nothing has been evicted yet. -/
structure Fresh (env : Env) (w : World env.Ciphertext) (seen : List UInt64)
    (count : Nat) : Prop where
  coherent : ∃ memory, Coherent env w memory
  room : seen.length ≤ env.cfg.slots
  root : w.idMap 0 = rootIds env.cfg.slots seen
  rest : ∀ b ∈ env.cfg.nodes, b ≠ 0 → w.idMap b = List.replicate env.cfg.slots (-1)
  accessCount : w.accessCount = UInt64.ofNat count

def selectionsFor (cfg : RuntimeConfig) (rank : Nat) : List Nat :=
  rank :: List.replicate cfg.height 0

/-- What the server sees of an access before the first eviction. -/
def accessTrace (cfg : RuntimeConfig) (leaf : UInt64) (rank : Nat) : List Sketch :=
  [.access leaf ((selectionsFor cfg rank).map UInt64.ofNat),
    .clearPath leaf ((selectionsFor cfg rank).map UInt64.ofNat), .writeSlot 0 (UInt64.ofNat rank)]

theorem path_eq_cons {cfg : RuntimeConfig} (hLeaf : leaf.toNat < 2 ^ cfg.height) :
    ∃ tail, cfg.path leaf = 0 :: tail ∧ tail.length = cfg.height ∧ ∀ b ∈ tail,
    b ∈ cfg.nodes ∧ b ≠ 0 := by
  refine ⟨((List.range cfg.height).map Nat.succ).map (HeapTree.node cfg.height leaf.toNat),
    ?_, ?_, ?_⟩
  · rw [RuntimeConfig.path, HeapTree.path, List.range_succ_eq_map, List.map_cons,
      HeapTree.node_zero hLeaf]
  · rw [List.length_map, List.length_map, List.length_range]
  · intro b hb
    obtain ⟨_, hLevel, rfl⟩ := List.mem_map.mp hb
    obtain ⟨level, hRange, rfl⟩ := List.mem_map.mp hLevel
    have hLt := List.mem_range.mp hRange
    refine ⟨mem_nodes_of_mem_path hLeaf (HeapTree.node_mem_path _ hLt), ?_⟩
    rw [HeapTree.node_succ _ hLt]
    omega

theorem Fresh.selections_eq (h : Fresh env w seen count)
    (hAddr : addr.toNat < 2 ^ 63) (hLeaf : leaf.toNat < 2 ^ env.cfg.height)
    (hSelect : selectSlots w.idMap (env.cfg.path leaf) addr = .ok selections) :
    selections = selectionsFor env.cfg (seen.idxOf addr) ∧ seen.idxOf addr < env.cfg.slots := by
  obtain ⟨tail, hPath, hTail, hRest⟩ := @path_eq_cons leaf env.cfg hLeaf
  obtain ⟨hLength, hSlots⟩ := selectSlots_eq_ok hSelect
  rw [hPath] at hLength hSlots
  cases selections with
  | nil => cases hLength
  | cons slot slots =>
    have hRoot := hSlots 0 slot List.mem_cons_self
    rw [h.root] at hRoot
    obtain ⟨rfl, hLt⟩ := selectSlot_rootIds hAddr h.room hRoot
    refine ⟨congrArg _ (List.eq_replicate_iff.mpr ⟨?_, fun other hOther => ?_⟩), hLt⟩
    · rw [← hTail]
      exact Nat.succ_injective hLength
    · have hKeys : (tail.zip slots).map Prod.snd = slots :=
        List.map_snd_zip (Nat.succ_injective hLength).le
      rw [← hKeys] at hOther
      obtain ⟨⟨b, other⟩, hMem, rfl⟩ := List.mem_map.mp hOther
      obtain ⟨hb, hNe⟩ := hRest b (List.of_mem_zip hMem).1
      have hSlot := hSlots b other (List.mem_cons_of_mem _ hMem)
      rw [h.rest b hb hNe] at hSlot
      exact selectSlot_dummies hAddr hSlot

theorem Fresh.forget_eq (h : Fresh env w seen count) (hAddr : addr.toNat < 2 ^ 63)
    (hLeaf : leaf.toNat < 2 ^ env.cfg.height)
    (hSelect : selectSlots w.idMap (env.cfg.path leaf) addr = .ok selections) :
    forget w.idMap ((env.cfg.path leaf).zip selections) 0 =
        (rootIds env.cfg.slots seen).set (seen.idxOf addr) (-1) ∧
      ∀ b ∈ env.cfg.nodes, b ≠ 0 →
        forget w.idMap ((env.cfg.path leaf).zip selections) b =
          List.replicate env.cfg.slots (-1) := by
  obtain ⟨hLength, hSlots⟩ := selectSlots_eq_ok hSelect
  obtain ⟨hOff, hOn⟩ :=
    @OnionRing.forget_eq w.idMap (env.cfg.path leaf) selections (nodup_path hLeaf) hLength
  constructor
  · obtain ⟨slot, hMem⟩ := exists_selection hLength (root_mem_path hLeaf)
    have hRoot := hSlots 0 slot hMem
    rw [h.root] at hRoot
    obtain ⟨rfl, _⟩ := selectSlot_rootIds hAddr h.room hRoot
    rw [hOn 0 _ hMem, h.root]
  · intro b hb hNe
    by_cases hPath : b ∈ env.cfg.path leaf
    · obtain ⟨slot, hMem⟩ := exists_selection hLength hPath
      rw [hOn b slot hMem, h.rest b hb hNe, List.set_replicate_self]
    · rw [hOff b hPath, h.rest b hb hNe]

theorem not_due {cfg : RuntimeConfig} {accessCount : UInt64}
    (hCount : accessCount = UInt64.ofNat count)
    (hBefore : BeforeEviction cfg (count + 1)) : ¬ EvictionDue cfg (accessCount + 1) := by
  rintro ⟨hPeriod, hZero⟩
  have hLt := hBefore.resolve_left hPeriod
  have hSmall : cfg.a.toNat < 2 ^ 64 := UInt64.toNat_lt _
  have hNext : (accessCount + 1).toNat = count + 1 := by
    rw [UInt64.toNat_add, UInt64.toNat_one, hCount,
      UInt64.toNat_ofNat_of_lt' (by rw [UInt64.size]; omega), Nat.mod_eq_of_lt (by omega)]
  have hMod := congrArg UInt64.toNat hZero
  rw [UInt64.toNat_mod, hNext, Nat.mod_eq_of_lt hLt] at hMod
  exact absurd hMod (Nat.succ_ne_zero count)

/-- One access before the first eviction. -/
theorem Fresh.access (hFeasible : Feasible env.cfg) (h : Fresh env w seen count)
    (hBefore : BeforeEviction env.cfg (count + 1))
    (hRun : (performCall env call).run w = .ok result w') :
    ∃ leaf, Fresh env w' (visit seen call.addr) (count + 1) ∧ seen.idxOf call.addr < env.cfg.slots ∧
      sketches w' = sketches w ++ accessTrace env.cfg leaf (seen.idxOf call.addr) := by
  obtain ⟨memory, hCoherent⟩ := h.coherent
  have hAccess := (wp_iff.mp (access_spec hFeasible hCoherent call)).1 _ _ hRun
  have hSmall : call.addr.toNat < 2 ^ 63 :=
    (UInt64.lt_iff_toNat_lt.mp hAccess.valid.1).trans hFeasible.blocks_lt
  obtain ⟨leaf, selections, hPosition, hSelect, hUpdated⟩ := hAccess.updated
  have hLeaf := hCoherent.placement.leaves leaf (List.mem_of_getElem? hPosition)
  obtain ⟨rfl, hLt⟩ := h.selections_eq hSmall hLeaf hSelect
  obtain ⟨hRoot, hRest⟩ := h.forget_eq hSmall hLeaf hSelect
  obtain ⟨hFree, hPlaced⟩ := rootIds_placed h.room hLt
  have hUpdated := hUpdated (not_due h.accessCount hBefore)
  have hIdMap := hUpdated.idMap
  obtain ⟨responses, bytes, hLog⟩ := hUpdated.log
  rw [placeInRoot, hRoot, hFree, hPlaced] at hIdMap
  rw [hRoot, hFree] at hLog
  refine ⟨leaf, ⟨⟨_, hUpdated.coherent⟩, ?_, ?_, fun b hb hNe => ?_, ?_⟩, hLt, ?_⟩
  · rw [visit]
    split
    · exact h.room
    · rename_i hNew
      rw [List.idxOf_eq_length hNew] at hLt
      rw [List.length_append, List.length_singleton]
      exact hLt
  · rw [hIdMap, Function.update_self]
  · rw [hIdMap, Function.update_of_ne hNe, hRest b hb hNe]
  · rw [hUpdated.accessCount, h.accessCount, UInt64.ofNat_add]
    rfl
  · rw [sketches, hLog, List.map_append]
    rfl

theorem BeforeEviction.mono {cfg : RuntimeConfig} {count' : Nat} (h : BeforeEviction cfg count')
    (hLe : count ≤ count') :
    BeforeEviction cfg count := h.imp_right hLe.trans_lt

end Steps

section Runs

variable {env env' : Env} {w w' : World env.Ciphertext} {seen : List UInt64} {count k : Nat}
  {calls calls' : List Call}
  {results results' : List Bytes}

/-- What the server sees of several accesses. -/
def accessTraces (cfg : RuntimeConfig) (leaves : List UInt64) (ranks : List Nat) : List Sketch :=
  (List.zipWith (accessTrace cfg) leaves ranks).flatten

theorem Fresh.accesses (hFeasible : Feasible env.cfg) (h : Fresh env w seen count)
    (hBefore : BeforeEviction env.cfg (count + calls.length))
    (hRun : (calls.mapM (performCall env)).run w = .ok results w') :
    ∃ leaves : List UInt64, leaves.length = calls.length ∧
      (∀ rank ∈ ranks seen (calls.map Call.addr), rank < env.cfg.slots) ∧
      sketches w' = sketches w ++
        accessTraces env.cfg leaves (ranks seen (calls.map Call.addr)) := by
  induction calls generalizing w seen count results with
  | nil =>
    cases hRun
    exact ⟨[], rfl, fun rank hRank => absurd hRank List.not_mem_nil, (List.append_nil _).symm⟩
  | cons call calls ih =>
    rw [List.mapM_cons] at hRun
    obtain ⟨result, middle, hFirst, hRest⟩ := run_bind_eq_ok hRun
    obtain ⟨rest, final, hCalls, hFinal⟩ := run_bind_eq_ok hRest
    cases hFinal
    rw [List.length_cons] at hBefore
    obtain ⟨leaf, hNext, hLt, hTrace⟩ := h.access hFeasible (hBefore.mono (by omega)) hFirst
    obtain ⟨leaves, hLength, hRanks, hTraces⟩ := ih hNext (by rwa [Nat.add_right_comm]) hCalls
    refine ⟨leaf :: leaves, congrArg (· + 1) hLength, ?_, ?_⟩
    · intro rank hRank
      rw [List.map_cons, ranks, List.mem_cons] at hRank
      exact hRank.elim (fun hEq => hEq ▸ hLt) (hRanks rank)
    · rw [hTraces, hTrace, List.append_assoc]
      rfl

theorem leaves_accessTraces {cfg : RuntimeConfig} {leaves : List UInt64} {ranks : List Nat}
    (hLength : leaves.length = ranks.length) :
    (accessTraces cfg leaves ranks).filterMap Sketch.leaf? = leaves := by
  induction leaves generalizing ranks with
  | nil => rfl
  | cons leaf leaves ih =>
    cases ranks with
    | nil => cases hLength
    | cons rank ranks => exact congrArg (leaf :: ·) (ih (Nat.succ_injective hLength))

/-- The traces of two runs with the same leaves differ if the ranks do. -/
theorem accessTraces_inj {cfg : RuntimeConfig} {leaves : List UInt64} {ranks ranks' : List Nat}
    (hLength : leaves.length = ranks.length) (hLength' : leaves.length = ranks'.length)
    (hBound : ∀ rank ∈ ranks, rank < cfg.slots) (hBound' : ∀ rank ∈ ranks', rank < cfg.slots)
    (h : accessTraces cfg leaves ranks = accessTraces cfg leaves ranks') : ranks = ranks' := by
  induction leaves generalizing ranks ranks' with
  | nil =>
    rw [List.length_eq_zero_iff.mp hLength.symm, List.length_eq_zero_iff.mp hLength'.symm]
  | cons leaf leaves ih =>
    cases ranks with
    | nil => cases hLength
    | cons rank ranks =>
      cases ranks' with
      | nil => cases hLength'
      | cons rank' ranks' =>
        obtain ⟨hHead, hTail⟩ :=
          List.append_inj (show accessTrace cfg leaf rank ++ accessTraces cfg leaves ranks =
            accessTrace cfg leaf rank' ++ accessTraces cfg leaves ranks' from h) rfl
        have hSlot : UInt64.ofNat rank = UInt64.ofNat rank' := by
          injection hHead with hAccess
          injection hAccess with _ hSelections
          injection hSelections
        have hRank : rank = rank' := by
          rw [← toNat_ofNat_slot (hBound rank List.mem_cons_self), hSlot,
            toNat_ofNat_slot (hBound' rank' List.mem_cons_self)]
        rw [hRank, ih (Nat.succ_injective hLength) (Nat.succ_injective hLength')
          (fun other hOther => hBound other (List.mem_cons_of_mem _ hOther))
          (fun other hOther => hBound' other (List.mem_cons_of_mem _ hOther)) hTail]

theorem Ready.fresh (h : Ready env w) : Fresh env w [] 0 := by
  refine ⟨⟨_, h.coherent⟩, Nat.zero_le _, ?_, fun b hb _ => h.empty b hb, h.accessCount⟩
  exact h.empty 0 (root_mem_nodes env.cfg)

theorem session_spec (hBefore : BeforeEviction env.cfg calls.length)
    (hRun : (session env calls).run {} = .ok results w) :
    sketches w = accessTraces env.cfg (leaves w) (ranks [] (calls.map Call.addr)) ∧
      (leaves w).length = calls.length ∧ ∀ rank ∈ ranks [] (calls.map Call.addr),
      rank < env.cfg.slots := by
  obtain ⟨_, start, hSetUp, hCalls⟩ := run_bind_eq_ok hRun
  have hReady := setUp_spec.post_of_run hSetUp
  obtain ⟨revealed, hLength, hRanks, hTrace⟩ :=
    hReady.fresh.accesses hReady.feasible (by rwa [Nat.zero_add]) hCalls
  have hStart : sketches start = [] := by rw [sketches, hReady.log, List.map_nil]
  have hSame : revealed.length = (ranks [] (calls.map Call.addr)).length := by
    rw [hLength, length_ranks, List.length_map]
  rw [hStart, List.nil_append] at hTrace
  have hLeaves : leaves w = revealed := by rw [leaves, hTrace, leaves_accessTraces hSame]
  rw [hLeaves]
  exact ⟨hTrace, hLength, hRanks⟩

def finalWorld (env : Env) (calls : List Call) : World env.Ciphertext :=
  match (session env calls).run {} with
  | .ok _ w => w
  | .error _ w => w

theorem session_returns (hAccepted : Accepted env.cfg)
    (hCapacity : env.cfg.numBlocks ≤ env.cfg.bucketSlots)
    (hSize : env.cfg.blockSize.toNat ≤ env.cfg.tlweN)
    (hValid : ∀ call ∈ calls, ValidCall env.cfg call) :
    ∃ results, (session env calls).run {} = .ok results (finalWorld env calls) := by
  obtain ⟨_, start, hSetUp, hReady⟩ := returns_iff.mp (setUp_spec.returns hAccepted)
  obtain ⟨results, w, hCalls⟩ :=
    performCalls_return hReady.feasible hReady.coherent hCapacity hSize hValid
  have hRun : (session env calls).run {} = .ok results w := by
    rw [session, EStateM.run_bind, hSetUp]
    exact hCalls
  refine ⟨results, ?_⟩
  rw [finalWorld, hRun]

/-- Before the first eviction, two runs that reveal the same leaves look the same if, and only if,
they repeat addresses in the same places. -/
theorem sketches_eq_iff (hCfg : env.cfg = env'.cfg) (hLength : calls.length = k)
    (hLength' : calls'.length = k) (hBefore : BeforeEviction env.cfg k) {w' : World env'.Ciphertext}
    (hRun : (session env calls).run {} = .ok results w)
    (hRun' : (session env' calls').run {} = .ok results' w')
    (hLeaves : leaves w = leaves w') :
    sketches w = sketches w' ↔ Renamed (calls.map Call.addr) (calls'.map Call.addr) := by
  obtain ⟨hTrace, hCount, hRanks⟩ := session_spec (hLength ▸ hBefore) hRun
  obtain ⟨hTrace', hCount', hRanks'⟩ := session_spec (hLength' ▸ hCfg ▸ hBefore) hRun'
  rw [hTrace, hTrace', ← hLeaves, ← hCfg, ← ranks_eq_iff]
  refine ⟨accessTraces_inj ?_ ?_ hRanks (hCfg ▸ hRanks'), congrArg _⟩
  · rw [hCount, length_ranks, List.length_map]
  · rw [hCount, hLength, ← hLength', length_ranks, List.length_map]

/-- One bucket, two blocks and an eviction after every third access. -/
def Env.quiet : Env where
  cfg := { z := 2, s := 1, a := 3, treeHeight := 0, numBlocks := 2, blockSize := 1, tlweN := 1 }
  entropy := ⟨fun tick => tick, fun _ _ => Equiv.refl _, fun _ => Vector.replicate 16 0⟩
  tfhe := Tfhe.plain 1

theorem session_quiet (hValid : ∀ call ∈ calls, ValidCall Env.quiet.cfg call) :
    ∃ results, (session .quiet calls).run {} = .ok results (finalWorld .quiet calls) :=
  session_returns ⟨by decide, by decide, by decide, by decide⟩ (by decide) (by decide) hValid

theorem sketches_eq_iff_quiet :
    sketches (finalWorld .quiet [⟨.write, 0, [5]⟩, ⟨.read, 0, []⟩]) =
        sketches (finalWorld .quiet [⟨.read, 1, []⟩, ⟨.read, 1, []⟩]) ↔
          Renamed [(0 : UInt64), 0] [(1 : UInt64), 1] := by
  obtain ⟨_, hRun⟩ := @session_quiet [⟨.write, 0, [5]⟩, ⟨.read, 0, []⟩] (by decide)
  obtain ⟨_, hRun'⟩ := @session_quiet [⟨.read, 1, []⟩, ⟨.read, 1, []⟩] (by decide)
  have hBefore : BeforeEviction Env.quiet.cfg 2 := Or.inr (by decide)
  exact @sketches_eq_iff .quiet .quiet _ 2 [⟨.write, 0, [5]⟩, ⟨.read, 0, []⟩] [⟨.read, 1, []⟩,
    ⟨.read, 1, []⟩] _ _ rfl rfl rfl
    hBefore _ hRun hRun' (by decide +kernel)

/-- Two runs of two reads that reveal the same leaves. -/
theorem sketches_ne_quiet : ∃ results results', BeforeEviction Env.quiet.cfg 2 ∧
    (session .quiet [⟨.read, 0, []⟩, ⟨.read, 0, []⟩]).run {} =
      .ok results (finalWorld .quiet [⟨.read, 0, []⟩, ⟨.read, 0, []⟩]) ∧
    (session .quiet [⟨.read, 0, []⟩, ⟨.read, 1, []⟩]).run {} =
      .ok results' (finalWorld .quiet [⟨.read, 0, []⟩, ⟨.read, 1, []⟩]) ∧
    leaves (finalWorld .quiet [⟨.read, 0, []⟩, ⟨.read, 0, []⟩]) =
      leaves (finalWorld .quiet [⟨.read, 0, []⟩, ⟨.read, 1, []⟩]) ∧
    sketches (finalWorld .quiet [⟨.read, 0, []⟩, ⟨.read, 0, []⟩]) ≠
      sketches (finalWorld .quiet [⟨.read, 0, []⟩, ⟨.read, 1, []⟩]) := by
  obtain ⟨results, hRun⟩ := @session_quiet [⟨.read, 0, []⟩, ⟨.read, 0, []⟩] (by decide)
  obtain ⟨results', hRun'⟩ := @session_quiet [⟨.read, 0, []⟩, ⟨.read, 1, []⟩] (by decide)
  exact ⟨results, results', Or.inr (by decide), hRun, hRun', by decide +kernel, by decide +kernel⟩

end Runs
end OramHub.OnionRing
