import Mathlib.Algebra.BigOperators.Group.Finset.Piecewise
import OramHub.RingOram.Trace

/-! # What a run costs

An access reads one slot of each bucket on a path and asks for the count of each of them. Buckets
are transferred in full when a path is evicted, which every `a`-th access does, and when a bucket
has been touched `s` times since it was last written. The touches that no rewriting has paid for yet
are the potential: an access adds one for each level of the tree.
-/
namespace OramHub.RingOram
open OramHub.Core OramHub.Program
set_option autoImplicit false

/-- What an event of each kind costs. -/
structure Tariff where
  metadata : Nat
  slots : Nat
  read : Nat
  write : Nat
  count : Nat

/-- Events after the construction have the prices of the tariff, whatever their leaves, buckets and
counts are. -/
structure Priced (cfg : RuntimeConfig) (price : Sketch → Nat) (tariff : Tariff) : Prop where
  metadata : ∀ leaf counts, counts.length = cfg.depth + 1 →
    price (.readPathMetadata leaf counts cfg.metadataSize) = tariff.metadata
  slots : ∀ leaf, price (.xorPathSlots leaf (cfg.depth + 1) cfg.blockSize.toNat) = tariff.slots
  read : ∀ index count, price (.readBucket index count cfg.bucketSize) = tariff.read
  write : ∀ index, price (.writeBucket index cfg.bucketSize) = tariff.write
  count : ∀ index count, price (.readBucketCount index count) = tariff.count

namespace Schedule

def total (price : Sketch → Nat) (s : Schedule) : Nat := (s.trace.map price).sum

/-- The touches of all buckets since they were last written. -/
def load (cfg : RuntimeConfig) (s : Schedule) : Nat := ∑ b ∈ cfg.nodes, (s.counts b).toNat

/-- From `s` to `s'` this many paths were read, counts asked for, and buckets read and written in
full. -/
def Spends (cfg : RuntimeConfig) (s s' : Schedule) (paths asked reads writes : Nat) : Prop :=
  ∀ price tariff, Priced cfg price tariff →
    s'.total price = s.total price + paths * (tariff.metadata + tariff.slots) +
    asked * tariff.count + reads * tariff.read + writes * tariff.write

variable {cfg : RuntimeConfig} {s s' s'' : Schedule} {leaf index : UInt64}

section Spending

variable {paths asked reads writes paths' asked' reads' writes' : Nat}

theorem total_observe (price : Sketch → Nat) (s : Schedule) (sketch : Sketch) :
    (s.observe sketch).total price = s.total price + price sketch := by
  simp [total, observe]

theorem Spends.refl (cfg : RuntimeConfig) (s : Schedule) : Spends cfg s s 0 0 0 0 := by
  intro price tariff _
  simp

theorem Spends.trans (h : Spends cfg s s' paths asked reads writes)
    (hNext : Spends cfg s' s'' paths' asked' reads' writes') :
    Spends cfg s s'' (paths + paths') (asked + asked') (reads + reads') (writes + writes') := by
  intro price tariff hPriced
  rw [hNext price tariff hPriced, h price tariff hPriced]
  ring

theorem Spends.foldl {step : Schedule → UInt64 → Schedule}
    (h : ∀ s index, Spends cfg s (step s index) paths asked reads writes)
    (indices : List UInt64) (s : Schedule) :
    Spends cfg s (indices.foldl step s) (indices.length * paths)
      (indices.length * asked) (indices.length * reads) (indices.length * writes) := by
  induction indices generalizing s with
  | nil =>
    simp only [List.length_nil, Nat.zero_mul]
    exact .refl cfg s
  | cons index indices ih =>
    have hBoth := (h s index).trans (ih (step s index))
    rw [List.foldl_cons, List.length_cons]
    simp only [Nat.add_mul, Nat.one_mul, Nat.add_comm _ paths, Nat.add_comm _ asked,
      Nat.add_comm _ reads, Nat.add_comm _ writes]
    exact hBoth

theorem spends_readBucket (s : Schedule) (index : UInt64) :
    Spends cfg s (readBucket cfg s index) 0 0 1 0 := by
  intro price tariff hPriced
  rw [readBucket, total_observe, hPriced.read]
  simp

theorem spends_writeBucket (s : Schedule) (index : UInt64) :
    Spends cfg s (writeBucket cfg s index) 0 0 0 1 := by
  intro price tariff hPriced
  rw [writeBucket, total_observe, hPriced.write]
  simp [total]

theorem length_indices (cfg : RuntimeConfig) (leaf : UInt64) :
    (cfg.indices leaf).length = cfg.depth + 1 := by
  rw [RuntimeConfig.indices, List.length_map, length_path]

theorem spends_evictPath (s : Schedule) :
    Spends cfg s (evictPath cfg s) 0 0 (cfg.depth + 1) (cfg.depth + 1) := by
  have hReads := Spends.foldl (@spends_readBucket cfg)
    (cfg.indices (s.evictionCounter % cfg.numLeaves))
    { s with evictionCounter := s.evictionCounter + 1 }
  have hWrites := Spends.foldl (@spends_writeBucket cfg)
    (cfg.indices (s.evictionCounter % cfg.numLeaves)).reverse
    ((cfg.indices (s.evictionCounter % cfg.numLeaves)).foldl (readBucket cfg)
      { s with evictionCounter := s.evictionCounter + 1 })
  have hBoth := hReads.trans hWrites
  simp only [List.length_reverse, length_indices, Nat.mul_zero, Nat.mul_one, Nat.zero_add,
    Nat.add_zero] at hBoth
  exact hBoth

theorem spends_readPath (s : Schedule) (leaf : UInt64) :
    Spends cfg s (readPath cfg s leaf) 1 0 0 0 := by
  intro price tariff hPriced
  have hLength : ((cfg.path leaf).map s.counts).length = cfg.depth + 1 := by
    rw [List.length_map, length_path]
  rw [readPath, total_observe, hPriced.slots]
  have hAsked := total_observe price s
    (.readPathMetadata leaf ((cfg.path leaf).map s.counts) cfg.metadataSize)
  rw [hPriced.metadata leaf _ hLength] at hAsked
  simp only [Nat.one_mul, Nat.zero_mul, Nat.add_zero, ← Nat.add_assoc, ← hAsked]
  rfl

end Spending

/-! ## The load -/

section Load

theorem load_writeBucket (hIndex : index.toNat ∈ cfg.nodes) :
    load cfg (writeBucket cfg s index) + (s.counts index.toNat).toNat = load cfg s := by
  have hRest : ∑ b ∈ cfg.nodes.erase index.toNat, (Function.update s.counts index.toNat 0 b).toNat =
      ∑ b ∈ cfg.nodes.erase index.toNat, (s.counts b).toNat := by
    apply Finset.sum_congr rfl
    intro b hb
    rw [Function.update_of_ne (Finset.ne_of_mem_erase hb)]
  have hNew := Finset.sum_erase_add cfg.nodes
    (fun b => (Function.update s.counts index.toNat 0 b).toNat) hIndex
  have hOld := Finset.sum_erase_add cfg.nodes (fun b => (s.counts b).toNat) hIndex
  rw [hRest, Function.update_self] at hNew
  have hZero : (0 : UInt64).toNat = 0 := rfl
  change ∑ b ∈ cfg.nodes, (Function.update s.counts index.toNat 0 b).toNat + _ = ∑ b ∈ cfg.nodes,
    (s.counts b).toNat
  omega

theorem load_evictPath (hDepth : cfg.depth < 63) (s : Schedule) :
    load cfg (evictPath cfg s) ≤ load cfg s := by
  apply Finset.sum_le_sum
  intro b _
  rw [counts_evictPath hDepth]
  split_ifs
  · exact Nat.zero_le _
  · exact le_rfl

theorem load_readPath (s : Schedule) (leaf : UInt64) :
    load cfg (readPath cfg s leaf) ≤ load cfg s + (cfg.depth + 1) := by
  have hTouch : ∀ b ∈ cfg.nodes, ((readPath cfg s leaf).counts b).toNat ≤ (s.counts b).toNat +
      if b ∈ cfg.path leaf then 1 else 0 := by
    intro b _
    change (if b ∈ cfg.path leaf then s.counts b + 1 else s.counts b).toNat ≤ _
    split_ifs
    · rw [UInt64.toNat_add]
      exact Nat.mod_le _ _
    · exact le_rfl
  have hPath : cfg.nodes.filter (· ∈ cfg.path leaf) ⊆ (cfg.path leaf).toFinset := by
    intro b hb
    exact List.mem_toFinset.mpr (Finset.mem_filter.mp hb).2
  calc load cfg (readPath cfg s leaf)
      ≤ ∑ b ∈ cfg.nodes, ((s.counts b).toNat + if b ∈ cfg.path leaf then 1 else 0) :=
        Finset.sum_le_sum hTouch
    _ = load cfg s + (cfg.nodes.filter (· ∈ cfg.path leaf)).card := by
      rw [Finset.sum_add_distrib, Finset.card_filter]; rfl
    _ ≤ load cfg s + (cfg.path leaf).toFinset.card :=
      Nat.add_le_add_left (Finset.card_le_card hPath) _
    _ ≤ load cfg s + (cfg.path leaf).length := Nat.add_le_add_left (List.toFinset_card_le _) _
    _ = load cfg s + (cfg.depth + 1) := by rw [length_path]

end Load

/-! ## Reshuffles -/

section Reshuffles

/-- Buckets that were rewritten early, with the touches that each of them had. -/
structure Rewrites (cfg : RuntimeConfig) (s s' : Schedule) (asked rewrites : Nat) : Prop where
  spends : Spends cfg s s' 0 asked rewrites rewrites
  load : cfg.s.toNat * rewrites + load cfg s' ≤ load cfg s
  round : s'.round = s.round

theorem rewrites_reshuffleBucket (s : Schedule) (hIndex : index.toNat ∈ cfg.nodes) :
    ∃ rewrites, Rewrites cfg s (reshuffleBucket cfg s index) 1 rewrites := by
  have hAsked : Spends cfg s (s.observe (.readBucketCount index (s.counts index.toNat))) 0
      1 0 0 := by
    intro price tariff hPriced
    rw [total_observe, hPriced.count]
    simp
  rw [reshuffleBucket]
  split_ifs with hFull
  · have hRewrite := (hAsked.trans (spends_readBucket _ index)).trans (spends_writeBucket _ index)
    refine ⟨1, hRewrite, ?_, rfl⟩
    have hLoad := @load_writeBucket cfg
      (readBucket cfg (s.observe (.readBucketCount index (s.counts index.toNat))) index)
      index hIndex
    have hTouched : cfg.s.toNat ≤ (s.counts index.toNat).toNat := UInt64.le_iff_toNat_le.mp hFull
    change _ + (s.counts index.toNat).toNat = load cfg s at hLoad
    omega
  · refine ⟨0, hAsked, ?_, rfl⟩
    rw [Nat.mul_zero, Nat.zero_add]
    exact le_rfl

theorem rewrites_foldl {indices : List UInt64}
    (hIndices : ∀ index ∈ indices, index.toNat ∈ cfg.nodes) (s : Schedule) :
    ∃ rewrites, Rewrites cfg s (indices.foldl (reshuffleBucket cfg) s) indices.length rewrites := by
  induction indices generalizing s with
  | nil => exact ⟨0, .refl cfg s, by simp, rfl⟩
  | cons index indices ih =>
    obtain ⟨first, hFirst⟩ := rewrites_reshuffleBucket s (hIndices index List.mem_cons_self)
    obtain ⟨rest, hRest⟩ :=
      ih (fun other hOther => hIndices other (List.mem_cons_of_mem _ hOther))
        (reshuffleBucket cfg s index)
    refine ⟨first + rest, ?_, ?_, hRest.round.trans hFirst.round⟩
    · rw [List.length_cons, Nat.add_comm indices.length]
      exact hFirst.spends.trans hRest.spends
    · have hLoad := hFirst.load
      have hLoad' := hRest.load
      rw [List.foldl_cons, Nat.mul_add]
      omega

theorem rewrites_earlyReshuffle (hDepth : cfg.depth < 63) (hLeaf : leaf.toNat < 2 ^ cfg.depth)
    (s : Schedule) :
    ∃ rewrites, Rewrites cfg s (earlyReshuffle cfg s leaf) (cfg.depth + 1) rewrites := by
  have hIndices : ∀ index ∈ cfg.indices leaf, index.toNat ∈ cfg.nodes := by
    intro index hIndex
    apply mem_nodes_of_mem_path hLeaf
    rw [← map_toNat_indices hDepth hLeaf]
    exact List.mem_map_of_mem hIndex
  rw [← length_indices cfg leaf]
  exact rewrites_foldl hIndices s

end Reshuffles

/-! ## The bill of a run -/

section Bills

/-- What accesses, evictions and reshuffles cost: `due` evictions came with an access, `forced` ones
were asked for. -/
structure Bill (cfg : RuntimeConfig) (s s' : Schedule)
    (accesses due forced reshuffles rewrites : Nat) : Prop where
  spends : Spends cfg s s' accesses ((accesses + reshuffles) * (cfg.depth + 1))
    ((due + forced) * (cfg.depth + 1) + rewrites) ((due + forced) * (cfg.depth + 1) + rewrites)
  load : cfg.s.toNat * rewrites + load cfg s' ≤ load cfg s + accesses * (cfg.depth + 1)
  round : cfg.a.toNat * due + s'.round = s.round + accesses
  round_lt : s.round < cfg.a.toNat → s'.round < cfg.a.toNat

variable {accesses due forced reshuffles rewrites accesses' due' forced'
  reshuffles' rewrites' : Nat}

theorem Bill.refl (cfg : RuntimeConfig) (s : Schedule) : Bill cfg s s 0 0 0 0 0 := by
  refine ⟨?_, by simp, by simp, id⟩
  simp only [Nat.zero_add, Nat.zero_mul]
  exact .refl cfg s

theorem Bill.trans (h : Bill cfg s s' accesses due forced reshuffles rewrites)
    (hNext : Bill cfg s' s'' accesses' due' forced' reshuffles' rewrites') :
    Bill cfg s s'' (accesses + accesses') (due + due') (forced + forced') (reshuffles + reshuffles')
      (rewrites + rewrites') := by
  refine ⟨?_, ?_, ?_, fun hRound => hNext.round_lt (h.round_lt hRound)⟩
  · intro price tariff hPriced
    rw [(h.spends.trans hNext.spends) price tariff hPriced]
    ring
  · have hFirst := h.load
    have hSecond := hNext.load
    rw [Nat.mul_add, Nat.add_mul]
    omega
  · have hFirst := h.round
    have hSecond := hNext.round
    rw [Nat.mul_add]
    omega

theorem bill_evictPath (hDepth : cfg.depth < 63) (s : Schedule) :
    Bill cfg s (evictPath cfg s) 0 0 1 0 0 := by
  have hRound : (evictPath cfg s).round = s.round := by
    rw [evictPath, @unchanged_foldl _ Schedule.round (writeBucket cfg) fun _ _ => rfl,
      @unchanged_foldl _ Schedule.round (readBucket cfg) fun _ _ => rfl]
  refine ⟨?_, ?_, by simp [hRound], by simp [hRound]⟩
  · simp only [Nat.zero_add, Nat.zero_mul, Nat.one_mul, Nat.add_zero]
    exact spends_evictPath s
  · rw [Nat.mul_zero, Nat.zero_add, Nat.zero_mul]
    exact load_evictPath hDepth s

theorem bill_earlyReshuffle (hDepth : cfg.depth < 63) (hLeaf : leaf.toNat < 2 ^ cfg.depth)
    (s : Schedule) :
    ∃ rewrites, Bill cfg s (earlyReshuffle cfg s leaf) 0 0 0 1 rewrites := by
  obtain ⟨rewrites, hSpends, hLoad, hRound⟩ := rewrites_earlyReshuffle hDepth hLeaf s
  refine ⟨rewrites, ?_, ?_, by simp [hRound], by simp [hRound]⟩
  · simp only [Nat.zero_add, Nat.zero_mul, Nat.one_mul]
    exact hSpends
  · rw [Nat.zero_mul]
    exact hLoad

/-- The path read of an access touches one bucket for each level, and every `a`-th one is due to
evict. -/
theorem bill_access (hDepth : cfg.depth < 63) (hA : cfg.a ≠ 0) (hLeaf : leaf.toNat < 2 ^ cfg.depth)
    (hRound : s.round < cfg.a.toNat) :
    ∃ due rewrites, Bill cfg s (access cfg s leaf) 1 due 0 0 rewrites := by
  have hPos : 0 < cfg.a.toNat := toNat_pos hA
  set touched := readPath cfg s leaf with hTouched
  set next : Schedule := { touched with round := (touched.round + 1) % cfg.a.toNat } with hNext
  have hRead : Spends cfg s next 1 0 0 0 := spends_readPath s leaf
  have hLoad : load cfg next ≤ load cfg s + (cfg.depth + 1) := load_readPath s leaf
  have hNextRound : next.round = (s.round + 1) % cfg.a.toNat := rfl
  obtain ⟨due, hEvicted⟩ : ∃ due, Bill cfg next (evictIfDue cfg next) 0 0 due 0 0 ∧
      cfg.a.toNat * due + next.round = s.round + 1 := by
    rw [evictIfDue]
    split_ifs with hDue
    · refine ⟨1, bill_evictPath hDepth next, ?_⟩
      have hLast : s.round + 1 = cfg.a.toNat := by
        by_contra hNot
        rw [hNextRound, Nat.mod_eq_of_lt (by omega)] at hDue
        omega
      omega
    · refine ⟨0, .refl cfg next, ?_⟩
      have hNot : s.round + 1 ≠ cfg.a.toNat := by
        intro hLast
        exact hDue (by rw [hNextRound, hLast, Nat.mod_self])
      rw [hNextRound, Nat.mod_eq_of_lt (by omega), Nat.mul_zero, Nat.zero_add]
  obtain ⟨rewrites, hReshuffled⟩ := bill_earlyReshuffle hDepth hLeaf (evictIfDue cfg next)
  have hBoth := hEvicted.1.trans hReshuffled
  refine ⟨due, rewrites, ?_, ?_, ?_, ?_⟩
  · have hSpends := hRead.trans hBoth.spends
    simp only [Nat.zero_add, Nat.add_zero, Nat.one_mul] at hSpends ⊢
    exact hSpends
  · have hBothLoad := hBoth.load
    simp only [Nat.zero_add, Nat.zero_mul, Nat.add_zero, Nat.one_mul] at hBothLoad ⊢
    exact hBothLoad.trans hLoad
  · have hBothRound := hBoth.round
    simp only [Nat.mul_zero, Nat.zero_add, Nat.add_zero] at hBothRound
    change cfg.a.toNat * due + (earlyReshuffle cfg (evictIfDue cfg next) leaf).round = _
    rw [hBothRound]
    exact hEvicted.2
  · intro _
    exact hBoth.round_lt (Nat.mod_lt _ hPos)

end Bills
end Schedule

namespace Action

/-- How many evictions the action asks for. -/
def evictions : Action → Nat
  | .access _ _ _ => 0
  | .evictPath => 1
  | .earlyReshuffle _ => 0

/-- How many early reshuffles the action asks for. -/
def reshuffles : Action → Nat
  | .access _ _ _ => 0
  | .evictPath => 0
  | .earlyReshuffle _ => 1

end Action

/-- How many requests with this command the server has answered. -/
def World.requests (w : World) (command : Char) : Nat :=
  w.log.countP fun event => event.request.encode.take 1 == Sketch.word command

/-- The bytes that have passed between the client and the server. -/
def World.traffic (w : World) : Nat :=
  (w.log.map fun event => event.request.encode.length + event.response.encode.length).sum

/-- The requests and the bytes that remain to a run once it is known how many buckets it rewrote
early. -/
structure World.Costs (cfg : RuntimeConfig) (w : World)
    (accesses evictions reshuffles rewrites : Nat) : Prop where
  metadata : w.requests 'M' = accesses
  slots : w.requests 'X' = accesses
  count : w.requests 'T' = (accesses + reshuffles) * (cfg.depth + 1)
  read : w.requests 'B' = evictions * (cfg.depth + 1) + rewrites
  write : w.requests 'W' = evictions * (cfg.depth + 1) + rewrites
  traffic : w.traffic = 10 + HeapTree.nodeCount cfg.depth * (8 + cfg.bucketSize) +
    accesses * (50 + cfg.blockSize.toNat + (cfg.depth + 1) * (40 + cfg.metadataSize)) +
    (accesses + reshuffles) * (cfg.depth + 1) * 17 + (evictions * (cfg.depth + 1) + rewrites) *
      (35 + 2 * cfg.bucketSize)

/-- The price of counting the requests with a command. -/
def Sketch.requests (command : Char) (sketch : Sketch) : Nat :=
  if sketch.command = Sketch.word command then 1 else 0

/-- The price of counting the bytes. -/
def Sketch.traffic (sketch : Sketch) : Nat := sketch.requestLength + sketch.responseLength

section Prices

variable {cfg : RuntimeConfig} {env : Env} {w : World} {v : Plain} {memory : Memory}

theorem World.requests_eq (h : w.log.map Event.sketch = v.trace) (command : Char) :
    w.requests command = v.schedule.total (Sketch.requests command) := by
  change _ = (v.trace.map (Sketch.requests command)).sum
  rw [← h, World.requests]
  induction w.log with
  | nil => rfl
  | cons event log ih =>
    rw [List.countP_cons, ih, List.map_cons, List.map_cons, List.sum_cons, Nat.add_comm]
    simp [Sketch.requests, Event.sketch]

theorem World.traffic_eq (h : w.log.map Event.sketch = v.trace) :
    w.traffic = v.schedule.total Sketch.traffic := by
  change _ = (v.trace.map Sketch.traffic).sum
  rw [← h, List.map_map]
  rfl

theorem priced_requests (cfg : RuntimeConfig) (command : Char) :
    Priced cfg (Sketch.requests command) ⟨if Sketch.word 'M' = Sketch.word command then 1 else 0,
      if Sketch.word 'X' = Sketch.word command then 1 else 0,
      if Sketch.word 'B' = Sketch.word command then 1 else 0,
      if Sketch.word 'W' = Sketch.word command then 1 else 0,
      if Sketch.word 'T' = Sketch.word command then 1 else 0⟩ :=
  ⟨fun _ _ _ => rfl, fun _ => rfl, fun _ _ => rfl, fun _ => rfl, fun _ _ => rfl⟩

theorem priced_traffic (cfg : RuntimeConfig) : Priced cfg Sketch.traffic
    ⟨9 + (8 + (cfg.depth + 1) * (8 + cfg.metadataSize)),
      17 + (cfg.depth + 1) * 8 + (16 + cfg.blockSize.toNat + (cfg.depth + 1) * 24),
      9 + (8 + cfg.bucketSize), 17 + cfg.bucketSize + 1, 17⟩ := by
  refine ⟨?_, fun _ => rfl, fun _ _ => rfl, fun _ => rfl, fun _ _ => rfl⟩
  intro leaf counts hLength
  simp only [← hLength]
  exact rfl

theorem costs_of_bill (hStored : w.log.map Event.sketch = v.trace)
    {accesses due forced reshuffles rewrites : Nat}
    (h : Schedule.Bill cfg (.start cfg) v.schedule accesses due forced reshuffles rewrites) :
    w.Costs cfg accesses (due + forced) reshuffles rewrites := by
  have hCount := fun command =>
    (World.requests_eq hStored command).trans (h.spends _ _ (priced_requests cfg command))
  have hTraffic := (World.traffic_eq hStored).trans (h.spends _ _ (priced_traffic cfg))
  have hStart : (Schedule.start cfg).total Sketch.traffic = 9 + HeapTree.nodeCount cfg.depth *
      (8 + cfg.bucketSize) + 1 := rfl
  refine ⟨(hCount 'M').trans ?_, (hCount 'X').trans ?_, (hCount 'T').trans ?_,
    (hCount 'B').trans ?_, (hCount 'W').trans ?_, ?_⟩
  case refine_6 =>
    rw [hTraffic, hStart]
    ring
  all_goals
    simp +decide [Schedule.total, Schedule.start, Sketch.requests, Sketch.init]

end Prices

section Runs

variable {env : Env} {w : World} {v : Plain} {memory : Memory}

theorem perform_bill (hAccepted : env.cfg.Accepted) (h : Consistent env w v memory)
    (hRound : v.schedule.round < env.cfg.a.toNat)
    {action : Action} (hValid : action.Valid env.cfg) :
    Returns (perform env action) w fun _ w' => ∃ v' memory' due rewrites,
    Consistent env w' v' memory' ∧
      Schedule.Bill env.cfg v.schedule v'.schedule action.accesses due action.evictions
        action.reshuffles rewrites := by
  cases action with
  | access op addr data =>
    apply (access_spec hAccepted h hValid.1 op data hValid.2).bind
    rintro result w' ⟨_, v', leaf, hConsistent, hLeaf, hSchedule, _⟩
    obtain ⟨due, rewrites, hBill⟩ := Schedule.bill_access hAccepted.depth hAccepted.a hLeaf hRound
    rw [← hSchedule] at hBill
    exact Returns.pure ⟨v', _, due, rewrites, hConsistent, hBill⟩
  | evictPath =>
    apply (evictPath_spec hAccepted h.stored h.distinct).bind
    rintro _ w' ⟨v', hStored, hTidies⟩
    have hConsistent :=
      h.keeps hStored hTidies.toKeeps (h.calm.evictPath hAccepted.depth hAccepted.s)
    have hBill := Schedule.bill_evictPath hAccepted.depth v.schedule
    rw [← hTidies.schedule] at hBill
    exact Returns.pure ⟨v', _, 0, 0, hConsistent, hBill⟩
  | earlyReshuffle leaf =>
    have hLeaf : leaf.toNat < 2 ^ env.cfg.depth := by
      rw [← RuntimeConfig.toNat_numLeaves hAccepted.depth]
      exact UInt64.lt_iff_toNat_lt.mp hValid
    apply (earlyReshuffle_spec hAccepted h.stored h.distinct hLeaf).bind
    rintro _ w' ⟨v', hStored, hTidies⟩
    have hCalm := (h.calm.weaken fun _ hMem => absurd hMem List.not_mem_nil).earlyReshuffle
      hAccepted.depth
      hAccepted.s hLeaf
    obtain ⟨rewrites, hBill⟩ := Schedule.bill_earlyReshuffle hAccepted.depth hLeaf v.schedule
    rw [← hTidies.schedule] at hBill
    exact Returns.pure ⟨v', _, 0, rewrites, h.keeps hStored hTidies.toKeeps hCalm, hBill⟩

theorem performAll_bill (hAccepted : env.cfg.Accepted) (h : Consistent env w v memory)
    (hRound : v.schedule.round < env.cfg.a.toNat)
    {actions : List Action} (hValid : ∀ action ∈ actions, action.Valid env.cfg) :
    Returns (actions.mapM (perform env)) w fun _ w' => ∃ v' memory' due rewrites,
    Consistent env w' v' memory' ∧
      Schedule.Bill env.cfg v.schedule v'.schedule (actions.map Action.accesses).sum due
        (actions.map Action.evictions).sum
        (actions.map Action.reshuffles).sum rewrites := by
  induction actions generalizing w v memory with
  | nil => exact Returns.pure ⟨v, memory, 0, 0, h, .refl env.cfg v.schedule⟩
  | cons action actions ih =>
    rw [List.mapM_cons]
    apply (perform_bill hAccepted h hRound (hValid action List.mem_cons_self)).bind
    rintro _ w' ⟨v', memory', due, rewrites, hNext, hBill⟩
    refine (ih hNext (hBill.round_lt hRound) fun other hOther =>
      hValid other (List.mem_cons_of_mem _ hOther)).bind ?_
    rintro _ w'' ⟨v'', memory'', due', rewrites', hFinal, hRest⟩
    exact Returns.pure ⟨v'', memory'', due + due', rewrites + rewrites', hFinal, hBill.trans hRest⟩

end Runs

/-- What a run costs from construction on. A bucket is rewritten early only after `s` touches, so
the early rewritings of a run number at most a share of `1 / s` in the buckets that its accesses
touch. -/
theorem run_costs {env : Env} (hAccepted : env.cfg.Accepted) (stashFile : Option Bytes)
    (bucketFiles : Nat → Option Bytes)
    {actions : List Action} (hValid : ∀ action ∈ actions, action.Valid env.cfg) :
    Returns (construct env >>= fun _ => actions.mapM (perform env))
      (World.start stashFile bucketFiles) fun _ w =>
      ∃ rewrites, env.cfg.s.toNat * rewrites ≤ (actions.map Action.accesses).sum *
        (env.cfg.depth + 1) ∧
        w.Costs env.cfg (actions.map Action.accesses).sum
          ((actions.map Action.accesses).sum / env.cfg.a.toNat + (actions.map Action.evictions).sum)
          (actions.map Action.reshuffles).sum rewrites := by
  have hPos : 0 < env.cfg.a.toNat := toNat_pos hAccepted.a
  apply (construct_spec hAccepted stashFile bucketFiles).bind
  rintro _ w ⟨v, hConsistent, hStart⟩
  have hRound : v.schedule.round = 0 := congrArg Schedule.round hStart
  apply (performAll_bill hAccepted hConsistent (by rwa [hRound]) hValid).mono
  rintro _ w' ⟨v', memory', due, rewrites, hFinal, hBill⟩
  rw [hStart] at hBill
  have hLoad : Schedule.load env.cfg (.start env.cfg) = 0 := Finset.sum_eq_zero fun _ _ => rfl
  have hDue : (actions.map Action.accesses).sum / env.cfg.a.toNat = due := by
    have hAccesses := hBill.round
    rw [show (Schedule.start env.cfg).round = 0 from rfl, Nat.zero_add] at hAccesses
    rw [← hAccesses, Nat.mul_add_div hPos, Nat.div_eq_of_lt (hBill.round_lt hPos), Nat.add_zero]
  refine ⟨rewrites, ?_, ?_⟩
  · have hPaid := hBill.load
    omega
  · rw [hDue]
    exact costs_of_bill hFinal.stored.trace hBill

theorem run_costs_small :
    Returns (construct .small >>= fun _ =>
      [Action.access .write 1 [7], .evictPath, .access .read 0 [],
        .earlyReshuffle 1].mapM (perform .small))
      (World.start none fun _ => none) fun _ w => ∃ rewrites, 1 * rewrites ≤ 2 * 2 ∧
      w.Costs Env.small.cfg 2 3 1 rewrites :=
  run_costs accepted_small none (fun _ => none) (by decide)

end OramHub.RingOram
