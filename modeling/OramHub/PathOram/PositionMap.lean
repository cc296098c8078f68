import OramHub.PathOram.Invariants

/-! # Uses of the position map

The client looks up the address of a call and the ids of the blocks that it evicts. It checks
neither.
-/
namespace OramHub.PathOram
open OramHub.Core OramHub.Program
set_option autoImplicit false

section Statement

variable (env : Env) (w : World) (call : Call)

/-- The state after a call has returned or thrown. -/
def attempt : World :=
  match (performCall env call).run w with
  | .ok _ w' => w'
  | .error _ w' => w'

/-- An id in range, or the one that is never looked up. -/
def Known (id : UInt64) : Prop := id = kDummyId ∨ id < env.numBlocks

/-- The address is in range, and so are the ids of the blocks that the call reads. -/
structure Legal : Prop where
  addr : call.addr < env.numBlocks
  path : w.server.running = true → ∀ leaf, w.positionMap[call.addr.toNat]? = some leaf →
    leaf.toNat < 2 ^ env.height →
    ∀ b ∈ env.path leaf, ∀ block ∈ w.bucketBlocks b, Known env block.id

/-- The call throws and changes neither the position map nor the stash nor a file. -/
def Rejected : Prop :=
  wp (performCall env call) w (fun _ _ => False) fun e w' =>
    e.Defined ∧ w'.positionMap = w.positionMap ∧ w'.stash = w.stash ∧
      w'.server.files = w.server.files

/-- The position map has an entry for each address, no lookup is outside of it, and what would be is
rejected. -/
structure Indexed : Prop where
  length : w.positionMap.length = env.numBlocks.toNat
  inRange : ∀ w', (performCall env call).run w ≠ .error (.undefinedBehavior "position_map_[id]") w'
  rejects : ¬ Legal env w call → Rejected env w call

/-- The states that calls lead to from an initial tree, whether they return or throw. -/
inductive Attempted (blocks : List Block) : World → Prop
  | start {initialPositions : Option (List UInt64)} {w : World} :
    (setUp env blocks initialPositions).run {} = .ok () w →
      Attempted blocks w
  | attempt {call : Call} {w : World} :
    Attempted blocks w → call.data.length ≤ vectorMaxSize → Legal env w call →
      Attempted blocks (attempt env w call)

/-- The position map has its full size, and everything that waits for eviction is in range. -/
structure Sound (blocks : List Block) : Prop where
  height : env.height < 63
  numLeaves : w.numLeaves.toNat = 2 ^ env.height
  positions : w.positionMap.length = env.numBlocks.toNat
  stash : ∀ block ∈ w.stash, block.id < env.numBlocks ∧ block.Sized
  tree : w.server.running = true → ∃ bucket, Holds env w.server bucket ∧
    ∀ b ∈ env.nodes, Fits (bucket b) ∧ ∀ block ∈ bucket b, Known env block.id ∨ block ∈ blocks

end Statement

variable {env : Env} {w : World} {call : Call} {blocks : List Block} {bucket : Nat → List Block}
  {leaf oldLeaf : UInt64}

/-! ## Paths that the server refuses -/

section Refused

/-- A climb of many steps starts low in the tree. -/
theorem pow_length_climb_le (n : Nat) : 2 ^ ((climb n).length - 1) ≤ n + 1 := by
  induction n using Nat.strong_induction_on with
  | h n ih =>
    rw [climb]
    split
    case isTrue hRoot => simp
    case isFalse hNe =>
      have hPow := ih ((n - 1) / 2) (by omega)
      cases hLength : (climb ((n - 1) / 2)).length with
      | zero => simp [hLength]
      | succ k =>
        simp only [List.length_cons, hLength, Nat.add_sub_cancel] at *
        rw [Nat.pow_succ]
        omega

theorem climb_eq_cons (n : Nat) : ∃ rest, climb n = n :: rest := by
  rw [climb]
  split
  case isTrue hRoot => exact ⟨[], by rw [hRoot]⟩
  case isFalse => exact ⟨_, rfl⟩

theorem getPathIndices_outside (hHeight : env.height < 63) (hLeaf : ¬ leaf.toNat < 2 ^ env.height) :
    ∃ index rest, getPathIndices env.treeHeight leaf = .ok (index :: rest) ∧
    (index :: rest).length < 2 ^ 64 ∧
      ((index :: rest).length = env.height + 1 → index.toNat ∉ env.nodes) := by
  obtain ⟨leafOffset, hOffset, hEq⟩ := getLeafOffset_spec hHeight
  obtain ⟨rest, hRest⟩ := climb_eq_cons (leafOffset + leaf).toNat
  have hPow := pow_length_climb_le (leafOffset + leaf).toNat
  have hSize := UInt64.toNat_lt (leafOffset + leaf)
  have hLength : ((leafOffset + leaf) :: rest.map UInt64.ofNat).length =
      (climb (leafOffset + leaf).toNat).length := by
    rw [hRest, List.length_cons, List.length_cons, List.length_map]
  refine ⟨leafOffset + leaf, rest.map UInt64.ofNat, ?_, ?_, fun hSame hNode => hLeaf ?_⟩
  · rw [getPathIndices, hOffset, ok_bind, hRest, List.map_cons, UInt64.ofNat_toNat]
    rfl
  · have hShort : (climb (leafOffset + leaf).toNat).length - 1 ≤ 64 := by
      apply (Nat.pow_le_pow_iff_right (by decide : 1 < 2)).mp
      omega
    omega
  · have hLt := mem_nodes.mp hNode
    rw [HeapTree.nodeCount, Nat.pow_succ] at hLt
    rw [hLength] at hSame
    rw [hSame, Nat.add_sub_cancel] at hPow
    have hLeafLt := UInt64.toNat_lt leaf
    have hBound : 2 ^ env.height ≤ 2 ^ 62 := Nat.pow_le_pow_right (by decide) (by omega)
    rw [UInt64.toNat_add, hEq] at hPow hLt
    omega

theorem handleReadPath_refuses {server : Server} {files : Nat → Option Bytes}
    (h : Serving env server files) {index : UInt64}
    {rest : List UInt64} (hSize : (index :: rest).length < 2 ^ 64)
    (hBad : (index :: rest).length = env.height + 1 → index.toNat ∉ env.nodes) :
    wp (handleReadPath env (UInt64.ofNat (index :: rest).length) (index :: rest)) server
      (fun _ _ => False) fun _ _ => True := by
  have hCount : (UInt64.ofNat (index :: rest).length).toNat = (index :: rest).length :=
    UInt64.toNat_ofNat_of_lt' hSize
  apply (validateInitialized_spec h).outcome_bind
  rintro _ server rfl
  refine wp.check_bind (fun _ => trivial) fun hSame => ?_
  have hLength : (index :: rest).length = env.height + 1 := by
    have hNext : (env.treeHeight + 1).toNat = env.height + 1 := by
      have hHeight := h.height_lt
      rw [UInt64.toNat_add, UInt64.toNat_one]
      exact Nat.mod_eq_of_lt (show env.height + 1 < 2 ^ 64 by omega)
    rw [← hCount, not_not.mp hSame, hNext]
  rw [hCount]
  apply (recvItems_spec (index :: rest)).outcome_bind
  rintro _ server ⟨hWanted, rfl⟩
  rw [hWanted]
  apply wp.modify_bind
  have hOut : server.nodeCount ≤ index := by
    have hNode := hBad hLength
    rw [mem_nodes, ← h.numNodes, ← h.nodeCount] at hNode
    exact UInt64.le_iff_toNat_le.mpr (Nat.not_lt.mp hNode)
  have hDisk (server' : Server) (hSame : server'.nodeCount = server.nodeCount) :
      wp (readBucketFromDisk index) server' (fun _ _ => False) fun _ _ => True :=
    wp.get_bind (wp.check_bind (fun _ => trivial) fun hIn => absurd (hSame ▸ hOut) hIn)
  have hSend (server' : Server) (hSame : server'.nodeCount = server.nodeCount) :
      wp (sendBucket env [] index) server' (fun _ _ => False) fun _ _ => True :=
    wp.bind (hDisk server' hSame) fun _ _ => False.elim
  apply wp.bind _ fun _ _ => False.elim
  rw [List.foldlM_cons]
  exact wp.bind (hSend _ rfl) fun _ _ => False.elim

/-- A refused request ends the connection and does nothing else to the client. -/
theorem readPath_refused (hHeight : env.height < 63)
    (h : w.server.running = true → ¬ leaf.toNat < 2 ^ env.height ∧
      Serving env w.server w.server.files) :
    wp (readPath env leaf) w (fun _ _ => False) fun e w' =>
      e.Defined ∧ w'.server.running = false ∧ w' = { w with server := w'.server } := by
  have hDefined (what : String) : (Exception.runtimeError what).Defined := by
    rintro _ ⟨⟩
  have hTrip (request : Request) (hAnswered : request.answered = true)
      (hHandler : w.server.running = true →
        wp (handleRequest env request) w.server (fun _ _ => False) fun _ _ => True) :
      wp (roundTrip env request) w (fun _ _ => False) fun e w' =>
        e.Defined ∧ w'.server.running = false ∧ w' = { w with server := w'.server } := by
    refine wp_roundTrip (fun response server hRunning hRun => ?_)
      (fun _ _ _ _ _ => ⟨hDefined _, rfl, rfl⟩) (fun _ _ _ _ hUnanswered => ?_)
      fun hClosed => ⟨hDefined _, hClosed, rfl⟩
    · exact (wp_iff.mp (hHandler hRunning)).1 response server hRun
    · rw [hAnswered] at hUnanswered
      cases hUnanswered
  by_cases hLeaf : leaf.toNat < 2 ^ env.height
  case pos =>
    apply wp.ok_bind (getPathIndices_indices hHeight hLeaf)
    apply wp.bind (wp.bind (hTrip _ rfl fun hRunning => absurd hLeaf (h hRunning).1) fun _ _ =>
      False.elim) fun _ _ => False.elim
  case neg =>
    obtain ⟨index, rest, hIndices, hSize, hBad⟩ := getPathIndices_outside hHeight hLeaf
    apply wp.ok_bind hIndices
    apply wp.bind (wp.bind (hTrip _ rfl fun hRunning => ?_) fun _ _ => False.elim)
      fun _ _ => False.elim
    exact handleReadPath_refuses (h hRunning).2 hSize hBad

end Refused

/-! ## What an access evicts -/

section Served

variable {v : Plain} {addr newLeaf : UInt64} {op : Op} {data : Bytes} {block : Block}

theorem mem_serveFromStash {stash : List Block}
    (h : block ∈ (serveFromStash stash op addr data).2) :
    block ∈ stash ∨ block = ⟨addr, data⟩ := by
  cases op with
  | read =>
    rw [serveFromStash] at h
    split at h <;> exact Or.inl h
  | write =>
    obtain hKept | hNew := List.mem_append.mp h
    · split at hKept
      · exact Or.inl (List.mem_filter.mp hKept).1
      · exact Or.inl hKept
    · exact Or.inr (List.mem_singleton.mp hNew)

/-- A call replaces no block but that of its own address. -/
theorem mem_serveFromStash_of_ne {stash : List Block} (h : block ∈ stash) (hNe : block.id ≠ addr) :
    block ∈ (serveFromStash stash op addr data).2 := by
  cases op with
  | read =>
    rw [serveFromStash]
    split <;> exact h
  | write =>
    apply List.mem_append_left
    split
    · exact List.mem_filter.mpr ⟨h, bne_iff_ne.mpr hNe⟩
    · exact h

theorem mem_stash_readPath : block ∈ (v.readPath env oldLeaf).stash ↔
    block ∈ v.stash ∨ ∃ b ∈ env.path oldLeaf, block ∈ v.bucket b ∧ block.id ≠ kDummyId := by
  simp [Plain.readPath, reals]

theorem foldlM_evictBlock_unmapped {positionMap : List UInt64} {stash : List Block}
    (placed : List Bucket × List Block) (h : ∃ block ∈ stash, positionMap.length ≤ block.id.toNat) :
    stash.foldlM (evictBlock positionMap leaf) placed =
      .error (.undefinedBehavior "position_map_[id]") := by
  induction stash generalizing placed with
  | nil => simp at h
  | cons block stash ih =>
    rw [List.foldlM_cons, evictBlock, readPosition]
    by_cases hMapped : block.id.toNat < positionMap.length
    case neg =>
      rw [List.getElem?_eq_none (Nat.not_lt.mp hMapped)]
      rfl
    case pos =>
      have hRest : ∃ block ∈ stash, positionMap.length ≤ block.id.toNat := by
        obtain ⟨other, hOther, hOut⟩ := h
        obtain rfl | hMem := List.mem_cons.mp hOther
        · omega
        · exact ⟨other, hMem, hOut⟩
      rw [List.getElem?_eq_getElem hMapped, ok_bind]
      split <;> exact ih _ hRest

theorem writePath_unmapped (hHeight : env.height < 63) (hLeaf : leaf.toNat < 2 ^ env.height)
    (h : ∃ block ∈ w.stash, w.positionMap.length ≤ block.id.toNat) :
    wp (writePath env leaf) w (fun _ _ => False) fun e _ =>
      e = .undefinedBehavior "position_map_[id]" := by
  apply wp.ok_bind (getPathIndices_indices hHeight hLeaf)
  apply wp.bind _ fun _ _ => False.elim
  refine wp.get_bind (wp.fromExcept_bind (fun e hError => ?_) fun filled hOk => ?_)
  · rw [foldlM_evictBlock_unmapped _ h] at hError
    exact (Except.error.inj hError).symm
  · rw [foldlM_evictBlock_unmapped _ h] at hOk
    cases hOk

end Served

/-! ## Runs -/

section Runs

theorem Holds.bucketBlocks (h : Holds env w.server bucket) {b : Nat} (hb : b ∈ env.nodes)
    (hFits : Fits (bucket b)) :
    w.bucketBlocks b = bucket b := by
  rw [World.bucketBlocks, World.bucket, h.files b hb]
  dsimp only
  rw [deserialize_toBucket hFits]
  rfl

/-- The memory of a sound state without encryption, files or sockets. -/
def World.plain (w : World) (bucket : Nat → List Block) : Plain :=
  ⟨w.stash, bucket, w.positionMap, w.log.map Event.sketch⟩

theorem Sound.stored (h : Sound env w blocks) (hTree : Holds env w.server bucket) :
    Stored env w (w.plain bucket) :=
  ⟨hTree, h.numLeaves, rfl, rfl, rfl⟩

theorem Sound.lookup (h : Sound env w blocks) {addr : UInt64} (hAddr : addr < env.numBlocks) :
    ∃ leaf, w.positionMap[addr.toNat]? = some leaf :=
  ⟨_, List.getElem?_eq_getElem (h.positions ▸ UInt64.lt_iff_toNat_lt.mp hAddr)⟩

/-- Everything that a legal call evicts is in range. -/
theorem Sound.served (h : Sound env w blocks) (hLegal : Legal env w call)
    (hData : call.data.length ≤ vectorMaxSize)
    (hRunning : w.server.running = true) (hTree : Holds env w.server bucket)
    (hFits : ∀ b ∈ env.nodes, Fits (bucket b))
    (hPosition : w.positionMap[call.addr.toNat]? = some leaf) (hLeaf : leaf.toNat < 2 ^ env.height)
    (newLeaf : UInt64) :
    ∀ block ∈ ((w.plain bucket).serve env call.op call.addr call.data leaf newLeaf).stash,
      block.id < env.numBlocks ∧ block.Sized := by
  intro block hBlock
  obtain hRead | rfl := mem_serveFromStash hBlock
  · obtain hStash | ⟨b, hb, hMem, hNe⟩ := mem_stash_readPath.mp hRead
    · exact h.stash block hStash
    · have hNode := mem_nodes_of_mem_path hLeaf hb
      have hKnown := hLegal.path hRunning leaf hPosition hLeaf b hb block
      rw [hTree.bucketBlocks hNode (hFits b hNode)] at hKnown
      exact ⟨(hKnown hMem).resolve_left hNe, (hFits b hNode).sized block hMem⟩
  · refine ⟨hLegal.addr, ?_⟩
    rw [vectorMaxSize] at hData
    exact hData.trans_lt (by decide)

theorem Sound.evicted {w' : World} {newLeaf : UInt64} {contents : List (List Block)}
    {kept : List Block} (h : Sound env w blocks)
    (hLeaf : leaf.toNat < 2 ^ env.height)
    (hBuckets : ∀ b ∈ env.nodes, Fits (bucket b) ∧ ∀ block ∈ bucket b,
      Known env block.id ∨ block ∈ blocks)
    (hServed : ∀ block ∈ ((w.plain bucket).serve env call.op call.addr
      call.data leaf newLeaf).stash, block.id < env.numBlocks ∧ block.Sized)
    (hEvicted : Evicted (w.positionMap.set call.addr.toNat newLeaf) leaf (env.height + 1)
      ((w.plain bucket).serve env call.op call.addr call.data leaf newLeaf).stash contents kept)
    (hFinal : Stored env w'
      (((w.plain bucket).serve env call.op call.addr call.data leaf newLeaf).writePath env
        leaf contents kept)) :
    Sound env w' blocks := by
  constructor
  case height => exact h.height
  case numLeaves => exact hFinal.numLeaves
  case positions =>
    rw [hFinal.positionMap]
    exact List.length_set.trans h.positions
  case stash =>
    intro block hBlock
    rw [hFinal.stash] at hBlock
    exact hServed block (hEvicted.perm.subset (List.mem_append_right _ hBlock))
  case tree =>
    intro _
    refine ⟨_, hFinal.tree, fun b hb => ?_⟩
    obtain ⟨_, hSame⟩ | ⟨i, _, _, evicted, hMem, _, hNew⟩ :=
  bucket_writePath_cases h.height hLeaf hEvicted.length b
    · rw [hSame]
      exact hBuckets b hb
    · have hEach (block : Block) (hBlock : block ∈ evicted) :
      block.id < env.numBlocks ∧ block.Sized :=
        hServed block (hEvicted.perm.subset
          (List.mem_append_left _ (List.mem_flatten.mpr ⟨evicted, hMem, hBlock⟩)))
      rw [hNew]
      refine ⟨fits_padded (hEvicted.room evicted hMem) fun block hBlock => (hEach block hBlock).2,
        fun block hBlock => ?_⟩
      obtain hOld | rfl := mem_padded hBlock
      · exact Or.inl (Or.inr (hEach block hOld).1)
      · exact Or.inl (Or.inl rfl)

theorem Sound.closed {w' : World} (h : Sound env w blocks) (hNumLeaves : w'.numLeaves = w.numLeaves)
    (hPositions : w'.positionMap.length = w.positionMap.length) (hStash : w'.stash = w.stash)
    (hClosed : w'.server.running = false) :
    Sound env w' blocks := by
  constructor
  case height => exact h.height
  case numLeaves => exact hNumLeaves ▸ h.numLeaves
  case positions => exact hPositions.trans h.positions
  case stash => exact hStash ▸ h.stash
  case tree =>
    intro hRunning
    rw [hClosed] at hRunning
    cases hRunning

theorem Sound.step (h : Sound env w blocks) (hLegal : Legal env w call)
    (hData : call.data.length ≤ vectorMaxSize) :
    wp (performCall env call) w (fun _ w' => Sound env w' blocks) fun e w' => e.Defined ∧
    Sound env w' blocks := by
  obtain ⟨leaf, hPosition⟩ := h.lookup hLegal.addr
  by_cases hAnswered : w.server.running = true ∧ leaf.toNat < 2 ^ env.height
  case pos =>
    obtain ⟨hRunning, hLeaf⟩ := hAnswered
    obtain ⟨bucket, hTree, hBuckets⟩ := h.tree hRunning
    have hServed := h.served hLegal hData hRunning hTree
      (fun b hb => (hBuckets b hb).1) hPosition hLeaf
    apply wp_mono (access_run h.height (h.stored hTree) (fun b hb => (hBuckets b hb).1) hPosition
      hLeaf ?mapped) _ fun _ _ => False.elim
    case mapped =>
      intro newLeaf block hBlock
      obtain ⟨hId, hSized⟩ := hServed newLeaf block hBlock
      exact ⟨h.positions.symm ▸ UInt64.lt_iff_toNat_lt.mp hId, hSized⟩
    rintro _ w' ⟨newLeaf, contents, kept, _, _, hEvicted, hFinal⟩
    exact h.evicted hLeaf hBuckets (hServed newLeaf) hEvicted hFinal
  case neg =>
    have hRead : readPosition w.positionMap call.addr = .ok leaf := by rw [readPosition, hPosition]
    refine wp.get_bind (wp.ok_bind hRead ((getRandomLeaf_spec h.numLeaves).outcome_bind ?_))
    rintro newLeaf _ ⟨_, rfl⟩
    apply wp.modify_bind
    apply wp.bind (wp_mono (readPath_refused h.height ?refused) (fun _ _ => False.elim) ?closed)
      fun _ _ => False.elim
    case refused =>
      intro hRunning
      obtain ⟨bucket, hTree, _⟩ := h.tree hRunning
      exact ⟨fun hLeaf => hAnswered ⟨hRunning, hLeaf⟩, hTree.serving⟩
    case closed =>
      rintro e w' ⟨hDefined, hClosed, hSame⟩
      refine ⟨hDefined, h.closed ?_ ?_ ?_ hClosed⟩
      · rw [hSame]
      · rw [hSame]
        exact List.length_set
      · rw [hSame]

theorem Sound.attempt (h : Sound env w blocks) (hLegal : Legal env w call)
    (hData : call.data.length ≤ vectorMaxSize) :
    Sound env (attempt env w call) blocks := by
  have hCall := wp_iff.mp (h.step hLegal hData)
  rw [PathOram.attempt]
  cases hRun : (performCall env call).run w with
  | ok _ w' => exact hCall.1 _ _ hRun
  | error e w' => exact (hCall.2 e w' hRun).2

theorem Attempted.sound (hBlocks : ∀ block ∈ blocks, block.data.length ≤ vectorMaxSize)
    (h : Attempted env blocks w) :
    Sound env w blocks := by
  induction h with
  | start hSetUp =>
    obtain ⟨⟨bucket, hReady⟩, _, _⟩ := setUp_spec.post_of_run hSetUp
    constructor
    case height => exact hReady.height
    case numLeaves => exact hReady.stored.numLeaves
    case positions => exact hReady.positions
    case stash =>
      rw [hReady.stored.stash]
      exact fun block hBlock => absurd hBlock List.not_mem_nil
    case tree =>
      refine fun _ => ⟨bucket, hReady.stored.tree, fun b hb =>
        ⟨⟨(hReady.tree b hb).length.le, ?_⟩, ?_⟩⟩
      · intro block hBlock
        obtain hPlaced | ⟨_, hDummy⟩ := (hReady.tree b hb).mem hBlock
        · have hLe := hBlocks block (List.mem_of_getElem? (mem_of_mem_placedBlocks hPlaced).2)
          rw [vectorMaxSize] at hLe
          exact hLe.trans_lt (by decide)
        · rw [Block.Sized, hDummy]
          decide
      · intro block hBlock
        obtain hPlaced | ⟨hDummy, _⟩ := (hReady.tree b hb).mem hBlock
        · exact Or.inr (List.mem_of_getElem? (mem_of_mem_placedBlocks hPlaced).2)
        · exact Or.inl (Or.inl hDummy)
  | attempt _ hData hLegal ih => exact ih.attempt hLegal hData

theorem Sound.overruns (h : Sound env w blocks) (hLegal : ¬ Legal env w call) :
    wp (performCall env call) w (fun _ _ => False) fun e _ =>
      e = .undefinedBehavior "position_map_[id]" := by
  by_cases hAddr : call.addr < env.numBlocks
  case neg =>
    have hOut : w.positionMap.length ≤ call.addr.toNat := by
      rw [h.positions]
      exact UInt64.le_iff_toNat_le.mp (UInt64.not_lt.mp hAddr)
    refine wp.get_bind (wp.fromExcept_bind (fun e hError => ?_) fun leaf hOk => ?_)
    · rw [readPosition, List.getElem?_eq_none hOut] at hError
      exact (Except.error.inj hError).symm
    · rw [readPosition, List.getElem?_eq_none hOut] at hOk
      cases hOk
  case pos =>
    have hPath : ∃ leaf b block, w.server.running = true ∧
        w.positionMap[call.addr.toNat]? = some leaf ∧
        leaf.toNat < 2 ^ env.height ∧ b ∈ env.path leaf ∧ block ∈ w.bucketBlocks b ∧
        ¬ Known env block.id := by
      by_contra hNone
      refine hLegal ⟨hAddr, fun hRunning leaf hPosition hLeaf b hb block hBlock => ?_⟩
      by_contra hUnknown
      exact hNone ⟨leaf, b, block, hRunning, hPosition, hLeaf, hb, hBlock, hUnknown⟩
    obtain ⟨leaf, b, block, hRunning, hPosition, hLeaf, hb, hBlock, hUnknown⟩ := hPath
    obtain ⟨bucket, hTree, hBuckets⟩ := h.tree hRunning
    have hNode := mem_nodes_of_mem_path hLeaf hb
    rw [hTree.bucketBlocks hNode (hBuckets b hNode).1] at hBlock
    rw [Known, not_or] at hUnknown
    refine access_served h.height (h.stored hTree) (fun b hb => (hBuckets b hb).1) hPosition hLeaf
      fun newLeaf w' _ hStored => ?_
    apply wp_mono (writePath_unmapped h.height hLeaf ⟨block, ?stash, ?out⟩) (fun _ _ => False.elim)
      fun _ _ => id
    case stash =>
      rw [hStored.stash]
      apply mem_serveFromStash_of_ne (mem_stash_readPath.mpr (Or.inr ⟨b, hb, hBlock, hUnknown.1⟩))
      rintro hEq
      exact hUnknown.2 (hEq ▸ hAddr)
    case out =>
      rw [hStored.positionMap, Plain.serve, List.length_set]
      exact h.positions.le.trans (UInt64.le_iff_toNat_le.mp (UInt64.not_lt.mp hUnknown.2))

theorem Sound.indexed_iff (h : Sound env w blocks) (hData : call.data.length ≤ vectorMaxSize) :
    Indexed env w call ↔ Legal env w call := by
  constructor
  · intro hIndexed
    by_contra hLegal
    have hOverruns := wp_iff.mp (h.overruns hLegal)
    cases hRun : (performCall env call).run w with
    | ok _ w' => exact hOverruns.1 _ w' hRun
    | error e w' =>
      rw [hOverruns.2 e w' hRun] at hRun
      exact hIndexed.inRange w' hRun
  · intro hLegal
    constructor
    case length => exact h.positions
    case inRange =>
      intro w' hRun
      exact ((wp_iff.mp (h.step hLegal hData)).2 _ w' hRun).1 _ rfl
    case rejects => exact fun hNot => absurd hLegal hNot

/-- If all initial blocks are in range, only the address of a call matters. -/
theorem Sound.legal_iff (h : Sound env w blocks) (hKnown : ∀ block ∈ blocks, Known env block.id) :
    Legal env w call ↔ call.addr < env.numBlocks := by
  refine ⟨Legal.addr, fun hAddr => ⟨hAddr, fun hRunning leaf _ hLeaf b hb block hBlock => ?_⟩⟩
  obtain ⟨bucket, hTree, hBuckets⟩ := h.tree hRunning
  have hNode := mem_nodes_of_mem_path hLeaf hb
  obtain ⟨hFits, hEach⟩ := hBuckets b hNode
  rw [hTree.bucketBlocks hNode hFits] at hBlock
  exact (hEach block hBlock).elim id (hKnown block)

end Runs

/-- In every run of legal calls, the next call is served correctly if and only if it is legal too.
-/
theorem indexed_iff_legal (hBlocks : ∀ block ∈ blocks, block.data.length ≤ vectorMaxSize)
    (h : Attempted env blocks w)
    (hData : call.data.length ≤ vectorMaxSize) : Indexed env w call ↔ Legal env w call :=
  (h.sound hBlocks).indexed_iff hData

section Small

theorem exists_attempted_small :
    ∃ w, Attempted .small smallBlocks w ∧ Sound .small w smallBlocks := by
  obtain ⟨w, hSetUp, _⟩ := exists_setUp_small
  have hStart : Attempted .small smallBlocks w := .start hSetUp
  exact ⟨w, hStart, hStart.sound (by decide)⟩

theorem indexed_small :
    ∃ w, Attempted .small smallBlocks w ∧ Indexed .small w ⟨.write, 2, [5]⟩ := by
  obtain ⟨w, hAttempted, hSound⟩ := exists_attempted_small
  have hKnown : ∀ block ∈ smallBlocks, Known .small block.id := by
    intro block hBlock
    refine Or.inr ?_
    revert block
    decide
  exact ⟨w, hAttempted,
    (indexed_iff_legal (by decide) hAttempted (by decide)).mpr
      ((hSound.legal_iff hKnown).mpr (by decide))⟩

/-- The addresses end at 2. -/
theorem read_overruns_positionMap :
    ∃ w, Attempted .small smallBlocks w ∧ ¬ Indexed .small w ⟨.read, 3, []⟩ := by
  obtain ⟨w, hAttempted, hSound⟩ := exists_attempted_small
  refine ⟨w, hAttempted, fun hIndexed => ?_⟩
  exact absurd ((hSound.indexed_iff (by decide)).mp hIndexed).addr (by decide)

end Small

end OramHub.PathOram
