import OramHub.Lib.BitReversal
import OramHub.OnionRing.EvictionAgreement
import OramHub.OnionRing.Frame

/-! # The order of evictions

The eviction counter, read backwards, is the next leaf. So the evictions pass the buckets of every
level in turn, whatever the counter starts at.
-/
namespace OramHub.OnionRing
open OramHub.Core OramHub.Program OramHub.BitReversal
set_option autoImplicit false

/-- The last bucket on the path of the next eviction. -/
def nextLeaf (env : Env) (w : World env.Ciphertext) : Nat :=
  (evictionPath env.cfg w.numLeaves w.evictionCounter).getLastD 0

/-- The messages that overwrite the slots of a bucket. -/
def writeMessages (env : Env) (b : Nat) (row : List env.Ciphertext) : List Event :=
  row.mapIdx fun slot ciphertext =>
    ⟨.writeSlot (UInt64.ofNat b) (UInt64.ofNat slot) (env.tfhe.exportSample ciphertext), .ack⟩

/-- The messages of a refresh: a bucket is read, and its slots are overwritten with fresh
encryptions of the blocks that were read, in the order of a permutation. -/
def RefreshMessages (env : Env) (b : Nat) (events : List Event) : Prop :=
  ∃ slots refreshed permutation row, permutation.Perm (List.range env.cfg.slots) ∧
    List.Forall₂ (ReEncrypts env) refreshed ((slots.take env.cfg.slots).map env.tfhe.importSample) ∧
    permuteCiphertexts env refreshed permutation = .ok row ∧
    events = ⟨.readBucket (UInt64.ofNat b), .bucket slots⟩ :: writeMessages env b row

/-- The next eviction ends with the refresh of bucket `b`. -/
def Refreshes (env : Env) (w : World env.Ciphertext) (b : Nat) : Prop :=
  ∃ w' before events, (evict env).run w = .ok () w' ∧ w'.log = w.log ++ (before ++ events) ∧
    RefreshMessages env b events

/-- The leaf of the eviction with this counter. -/
def evictionLeaf (cfg : RuntimeConfig) (counter : UInt64) : Nat := reverse cfg.height counter.toNat

section Paths

variable {cfg : RuntimeConfig} {numLeaves counter : UInt64} {b k : Nat}

theorem toNat_reverseBits (value : UInt64) {numBits : Nat} (h : numBits ≤ 64) :
    (reverseBits value numBits).toNat = reverse numBits value.toNat := by
  induction numBits with
  | zero => rfl
  | succ numBits ih =>
    have hPrev : (reverseBits value numBits).toNat = reverse numBits value.toNat := ih (by omega)
    have hSmall : 2 * reverse numBits value.toNat < 2 ^ 64 := by
      have hLt := reverse_lt numBits value.toNat
      have hPow : 2 ^ (numBits + 1) ≤ 2 ^ 64 := Nat.pow_le_pow_right (by decide) h
      omega
    have hBit : (value >>> UInt64.ofNat numBits &&& 1).toNat = value.toNat / 2 ^ numBits % 2 :=
      pathBit_eq value (by omega)
    have hShift : (reverseBits value numBits <<< 1).toNat = reverse numBits value.toNat <<< 1 := by
      rw [UInt64.toNat_shiftLeft, UInt64.toNat_one, hPrev, Nat.shiftLeft_eq]
      exact Nat.mod_eq_of_lt (show reverse numBits value.toNat * 2 ^ 1 < 2 ^ 64 by omega)
    rw [reverseBits, List.range_succ, List.foldl_append, List.foldl_cons,
      List.foldl_nil, ← reverseBits,
      UInt64.toNat_or, hBit, hShift, ← Nat.shiftLeft_add_eq_or_of_lt (by omega),
      Nat.shiftLeft_eq, reverse]
    omega

theorem numLeaves_of_height (hHeight : cfg.height < 64) :
    ∃ numLeaves, cfg.numLeaves = .ok numLeaves ∧ numLeaves.toNat = 2 ^ cfg.height := by
  obtain ⟨numLeaves, hLeaves⟩ := shiftOne_of_lt hHeight
  exact ⟨numLeaves, hLeaves, (shiftOne_eq_ok hLeaves).2⟩

theorem toNat_evictionLeaf (hHeight : cfg.height < 64)
    (hLeaves : numLeaves.toNat = 2 ^ cfg.height) :
    (reverseBits (counter % numLeaves) cfg.height).toNat = evictionLeaf cfg counter := by
  rw [toNat_reverseBits _ (by omega), UInt64.toNat_mod, hLeaves, reverse_mod le_rfl, evictionLeaf]

theorem evictionPath_eq (hHeight : cfg.height < 64) (hLeaves : numLeaves.toNat = 2 ^ cfg.height) :
    evictionPath cfg numLeaves counter = HeapTree.path cfg.height (evictionLeaf cfg counter) := by
  have hLeaf : (reverseBits (counter % numLeaves) cfg.height).toNat = evictionLeaf cfg counter :=
    toNat_evictionLeaf hHeight hLeaves
  have hLt : (reverseBits (counter % numLeaves) cfg.height).toNat < 2 ^ cfg.height :=
    hLeaf ▸ reverse_lt _ _
  rw [evictionPath, getPathIndices_eq hHeight hLt, RuntimeConfig.path, hLeaf]

theorem reverse_window {start : UInt64} {i : Nat} (hLevel : k ≤ 64) (hi : i < 2 ^ 64) :
    reverse k (start + UInt64.ofNat i).toNat = reverse k (start.toNat + i) := by
  have hSum : (start + UInt64.ofNat i).toNat = (start.toNat + i) % 2 ^ 64 := by
    rw [UInt64.toNat_add, UInt64.toNat_ofNat_of_lt' hi]
  rw [hSum, reverse_mod hLevel]

/-- The buckets of a level are passed in turn. -/
theorem existsUnique_evictionPath (hHeight : cfg.height < 64)
    (hLeaves : numLeaves.toNat = 2 ^ cfg.height)
    (hLevel : k ≤ cfg.height) (start : UInt64) (hb : b ∈ HeapTree.level k) :
    ∃! i, i < 2 ^ k ∧ b ∈ evictionPath cfg numLeaves (start + UInt64.ofNat i) := by
  obtain ⟨place, hPlace, rfl⟩ := HeapTree.mem_level_iff.mp hb
  have hPow : 2 ^ k ≤ 2 ^ 63 := Nat.pow_le_pow_right (by decide) (by omega)
  refine (existsUnique_congr fun i => and_congr_right fun hi => ?_).mpr
    (existsUnique_reverse start.toNat hPlace)
  rw [evictionPath_eq hHeight hLeaves, evictionLeaf,
    HeapTree.place_mem_path_iff (reverse_lt _ _) hLevel hPlace,
    reverse_div hLevel, reverse_window (by omega) (by omega)]

theorem getLastD_path (height leaf : Nat) :
    (HeapTree.path height leaf).getLastD 0 = 2 ^ height - 1 + leaf := by
  rw [HeapTree.path, List.range_succ, List.map_append, List.map_singleton, List.getLastD_concat,
    HeapTree.node_height]

theorem existsUnique_refreshed (hHeight : cfg.height < 64)
    (hLeaves : numLeaves.toNat = 2 ^ cfg.height)
    (start : UInt64) (hb : b ∈ HeapTree.level cfg.height) :
    ∃! i, i < 2 ^ cfg.height ∧
    (evictionPath cfg numLeaves (start + UInt64.ofNat i)).getLastD 0 = b := by
  obtain ⟨place, hPlace, rfl⟩ := HeapTree.mem_level_iff.mp hb
  have hPow : 2 ^ cfg.height ≤ 2 ^ 63 := Nat.pow_le_pow_right (by decide) (by omega)
  refine (existsUnique_congr fun i => and_congr_right fun hi => ?_).mpr
    (existsUnique_reverse start.toNat hPlace)
  rw [evictionPath_eq hHeight hLeaves, getLastD_path, evictionLeaf,
    reverse_window (by omega) (by omega)]
  omega

end Paths

section Counter

variable {env : Env} {counter numLeaves : UInt64}

/-- What an eviction leaves alone once it has moved the counter on. -/
def Ticked (counter numLeaves : UInt64) (w : World env.Ciphertext) : Prop :=
  w.evictionCounter = counter ∧ w.numLeaves = numLeaves

theorem ticked_framed : Framed env (@Ticked env counter numLeaves) :=
  framed_of_world fun _ _ _ _ _ _ hTicked => hTicked

theorem evict_ticked {w w' : World env.Ciphertext} (hRun : (evict env).run w = .ok () w') :
    Ticked (w.evictionCounter + 1) w.numLeaves w' := by
  rw [evict_run] at hRun
  have hStart : Ticked (w.evictionCounter + 1) w.numLeaves
      { w with evictionCounter := w.evictionCounter + 1 } := ⟨rfl, rfl⟩
  exact (evictAlong_framed ticked_framed _).of_run hStart (Or.inl ⟨(), hRun⟩)

end Counter

section Messages

variable {env : Env} {w w' : World env.Ciphertext} {b : Nat}

theorem roundTrip_log (request : Request) : wp (roundTrip env request) w
    (fun response w' => ∃ server,
      w' = { w with server := server, log := w.log ++ [⟨request, response⟩] })
    fun _ _ => True :=
  wp_roundTrip (fun _ server _ _ => ⟨server, rfl⟩) (fun _ _ _ _ => trivial) fun _ => trivial

theorem fetchBucketCiphertexts_log : wp (fetchBucketCiphertexts env b) w
    (fun bucket w' => ∃ slots server,
      bucket = (slots.take env.cfg.slots).map env.tfhe.importSample ∧
      w' = { w with
        server := server
        log := w.log ++ [⟨.readBucket (UInt64.ofNat b), .bucket slots⟩] })
    fun _ _ => True := by
  apply wp.bind (roundTrip_log _)
  rintro response _ ⟨server, rfl⟩
  cases response with
  | bucket slots =>
    apply wp.bind (wp_mono (recvItems_outcome slots env.cfg.slots) (fun _ _ => id)
      fun _ _ _ => trivial)
    rintro received _ ⟨_, rfl, rfl⟩
    exact wp.pure ⟨slots, server, rfl, rfl⟩
  | pathSum => exact (wp_throw _).mpr trivial
  | ack => exact (wp_throw _).mpr trivial
  | silent => exact (wp_throw _).mpr trivial

theorem writeBackSlot_log (slot : Nat) (ciphertext : env.Ciphertext) :
    wp (writeBackSlot env b slot ciphertext) w
    (fun _ w' => ∃ server, w' = { w with
      server := server
      log := w.log ++ [⟨.writeSlot (UInt64.ofNat b) (UInt64.ofNat slot)
        (env.tfhe.exportSample ciphertext), .ack⟩] })
    fun _ _ => True := by
  apply wp.bind (roundTrip_log _)
  rintro response _ ⟨server, rfl⟩
  refine (wp_throwIf _ _).mpr ⟨fun _ => trivial, fun hAck => ?_⟩
  obtain rfl := not_not.mp hAck
  exact ⟨server, rfl⟩

theorem writeMessages_take_succ (row : List env.Ciphertext) {i : Nat} (hi : i < row.length) :
    writeMessages env b (row.take (i + 1)) = writeMessages env b (row.take i) ++
      [⟨.writeSlot (UInt64.ofNat b) (UInt64.ofNat i) (env.tfhe.exportSample row[i]), .ack⟩] := by
  rw [List.take_succ_eq_append_getElem hi, writeMessages, List.mapIdx_append,
    List.length_take_of_le hi.le, writeMessages]
  simp

theorem writeBucketCiphertexts_log (row : List env.Ciphertext) :
    wp (writeBucketCiphertexts env b row) w
    (fun _ w' => ∃ server,
      w' = { w with server := server, log := w.log ++ writeMessages env b row })
    fun _ _ => True := by
  refine wp.check_bind (fun _ => trivial) fun _ => ?_
  -- The slots visited so far have been written.
  apply wp_mono (wp.forM_range (fun i w' => ∃ server,
    w' = { w with server := server, log := w.log ++ writeMessages env b (row.take i) }) ?_ ?_) ?_
      fun _ _ => id
  · refine ⟨w.server, ?_⟩
    rw [List.take_zero, writeMessages, List.mapIdx_nil, List.append_nil]
  · rintro i hi _ ⟨server, rfl⟩
    apply Returns.outcome_bind (recvItem_spec hi)
    rintro _ _ ⟨rfl, rfl⟩
    apply wp_mono (writeBackSlot_log i row[i]) ?_ fun _ _ => id
    rintro _ _ ⟨server', rfl⟩
    refine ⟨server', ?_⟩
    rw [writeMessages_take_succ row hi, List.append_assoc]
  · rintro _ _ ⟨server, rfl⟩
    exact ⟨server, by rw [List.take_length]⟩

/-- Whatever the server answers, a refresh that returns has sent the messages of one. -/
theorem leafRefresh_log (hRun : (leafRefresh env b).run w = .ok () w') :
    ∃ events, w'.log = w.log ++ events ∧ RefreshMessages env b events := by
  suffices hSpec : wp (leafRefresh env b) w
      (fun _ w' => ∃ events, w'.log = w.log ++ events ∧ RefreshMessages env b events)
      fun _ _ => True from (wp_iff.mp hSpec).1 _ _ hRun
  apply wp.bind fetchBucketCiphertexts_log
  rintro _ _ ⟨slots, server, rfl, rfl⟩
  apply wp.bind (wp.mapM (fun w' => ∃ noise, w' = { w with
      server := server
      log := w.log ++ [⟨.readBucket (UInt64.ofNat b), .bucket slots⟩]
      noise := noise }) (ReEncrypts env) ⟨_, rfl⟩ ?step)
  case step =>
    rintro ciphertext _ _ ⟨noise, rfl⟩
    apply wp_mono (refreshSlot_reEncrypts ciphertext) ?_ fun _ _ => id
    rintro _ _ ⟨hRefreshed, noise', rfl⟩
    exact ⟨hRefreshed, _, rfl⟩
  rintro refreshed _ ⟨hRefreshed, noise, rfl⟩
  apply Returns.outcome_bind makeRandomPermutation_run
  rintro _ _ ⟨rfl, rfl⟩
  refine wp.get_bind (wp.fromExcept_bind (fun _ _ => trivial) fun row hRow => ?_)
  apply wp.bind (writeBucketCiphertexts_log row)
  rintro _ _ ⟨server', rfl⟩
  refine wp.fromExcept_bind (fun _ _ => trivial) fun ids _ => Returns.outcome (Returns.modify ?_)
  refine ⟨_, List.append_assoc _ _ _, slots, refreshed, _, row, perm_permutationAt env _,
    hRefreshed, hRow, rfl⟩

/-- Messages are only added to the log. -/
theorem grows_framed (events : List Event) :
    Framed env fun w : World env.Ciphertext => events <+: w.log :=
  framed_of_world fun _ _ _ _ _ _ hPrefix => hPrefix.trans (List.prefix_append _ _)

theorem refreshes_nextLeaf (hRun : (evict env).run w = .ok () w') :
    Refreshes env w (nextLeaf env w) := by
  obtain ⟨_, middle, hTriplets, hRefresh⟩ := run_bind_eq_ok ((evict_run w).symm.trans hRun)
  obtain ⟨events, hLog, hMessages⟩ := leafRefresh_log hRefresh
  have hStart : w.log <+: { w with evictionCounter := w.evictionCounter + 1 }.log :=
    List.prefix_refl _
  obtain ⟨before, hBefore⟩ :=
    (tripletEvicts_framed (grows_framed w.log) _).of_run hStart (Or.inl ⟨_, hTriplets⟩)
  refine ⟨w', before, events, hRun, ?_, hMessages⟩
  rw [hLog, ← hBefore, List.append_assoc]

theorem RefreshMessages.length {events : List Event} (h : RefreshMessages env b events) :
    events.length = env.cfg.slots + 1 := by
  obtain ⟨slots, refreshed, permutation, row, hPerm, _, hRow, rfl⟩ := h
  obtain ⟨output, rfl, hRead⟩ := permuteCiphertexts_eq_ok hRow
  rw [List.length_cons, writeMessages, List.length_mapIdx, List.length_map, ← hRead.length_eq,
    hPerm.length_eq, List.length_range]

theorem RefreshMessages.unique {b' : Nat} {events : List Event} (h : RefreshMessages env b events)
    (h' : RefreshMessages env b' events) (hb : b < 2 ^ 64) (hb' : b' < 2 ^ 64) : b = b' := by
  obtain ⟨slots, refreshed, permutation, row, _, _, _, rfl⟩ := h
  obtain ⟨slots', refreshed', permutation', row', _, _, _, hEvents⟩ := h'
  have hHead := congrArg (fun event : Event => event.request) (List.cons.inj hEvents).1
  have hIndex := congrArg UInt64.toNat (Request.readBucket.inj hHead)
  rwa [UInt64.toNat_ofNat_of_lt' hb, UInt64.toNat_ofNat_of_lt' hb'] at hIndex

/-- An eviction refreshes no other bucket. -/
theorem refreshes_iff (hRun : (evict env).run w = .ok () w') (hb : b < 2 ^ 64)
    (hLeaf : nextLeaf env w < 2 ^ 64) :
    Refreshes env w b ↔ nextLeaf env w = b := by
  have hRefreshes := refreshes_nextLeaf hRun
  constructor
  · rintro ⟨w₁, before, events, hRun₁, hLog, hMessages⟩
    obtain ⟨w₂, before', events', hRun₂, hLog', hMessages'⟩ := hRefreshes
    cases hRun.symm.trans hRun₁
    cases hRun.symm.trans hRun₂
    have hSame := List.append_cancel_left (hLog'.symm.trans hLog)
    have hEvents := List.append_inj_right' hSame (hMessages'.length.trans hMessages.length.symm)
    exact RefreshMessages.unique hMessages' (hEvents ▸ hMessages) hLeaf hb
  · rintro rfl
    exact hRefreshes

end Messages

section Windows

variable {env : Env} {worlds : Nat → World env.Ciphertext} {count : Nat}

/-- Evictions from the first worlds in turn, with nothing in between that evicts. -/
def ConsecutiveEvictions (env : Env) (worlds : Nat → World env.Ciphertext) (count : Nat) : Prop :=
  ∀ i < count, ∃ w', (evict env).run (worlds i) = .ok () w' ∧
    Ticked w'.evictionCounter w'.numLeaves (worlds (i + 1))

theorem ConsecutiveEvictions.ticked (h : ConsecutiveEvictions env worlds count)
    {i : Nat} (hi : i ≤ count) :
    Ticked ((worlds 0).evictionCounter + UInt64.ofNat i) (worlds 0).numLeaves (worlds i) := by
  induction i with
  | zero => exact ⟨(UInt64.add_zero _).symm, rfl⟩
  | succ i ih =>
    obtain ⟨w', hRun, hCounter, hLeaves⟩ := h i hi
    obtain ⟨hCounter', hLeaves'⟩ := evict_ticked hRun
    obtain ⟨hBefore, hBeforeLeaves⟩ := ih (by omega)
    constructor
    · rw [hCounter, hCounter', hBefore, UInt64.add_assoc]
      exact congrArg _ (UInt64.ofNat_add i 1).symm
    · rw [hLeaves, hLeaves', hBeforeLeaves]

theorem lt_size_of_mem_level {k b : Nat} (hLevel : k ≤ 63)
    (hb : b ∈ HeapTree.level k) : b < 2 ^ 64 := by
  obtain ⟨place, hPlace, rfl⟩ := HeapTree.mem_level_iff.mp hb
  have hPow : 2 ^ k ≤ 2 ^ 63 := Nat.pow_le_pow_right (by decide) hLevel
  omega

/-- The schedule is even: the buckets of a level are passed in turn, and the leaves are refreshed in
turn. -/
theorem evictions_spread_evenly (hHeight : env.cfg.height < 64) :
    ∃ numLeaves, env.cfg.numLeaves = .ok numLeaves ∧ numLeaves.toNat = 2 ^ env.cfg.height ∧
      (∀ k ≤ env.cfg.height, ∀ start : UInt64, ∀ b ∈ HeapTree.level k, ∃! i, i < 2 ^ k ∧
        b ∈ getPathIndices env.cfg
          (reverseBits ((start + UInt64.ofNat i) % numLeaves) env.cfg.height)) ∧
      ∀ worlds : Nat → World env.Ciphertext, (worlds 0).numLeaves = numLeaves →
        ConsecutiveEvictions env worlds (2 ^ env.cfg.height) → ∀ b ∈ HeapTree.level env.cfg.height,
          ∃! i, i < 2 ^ env.cfg.height ∧ Refreshes env (worlds i) b := by
  obtain ⟨numLeaves, hLeaves, hPow⟩ := numLeaves_of_height hHeight
  refine ⟨numLeaves, hLeaves, hPow, ?_, ?_⟩
  · intro k hLevel start b hb
    exact existsUnique_evictionPath hHeight hPow hLevel start hb
  · intro worlds hStart hEvictions b hb
    refine (existsUnique_congr fun i => and_congr_right fun hi => ?_).mpr
      (existsUnique_refreshed hHeight hPow (worlds 0).evictionCounter hb)
    obtain ⟨hCounter, hSame⟩ := hEvictions.ticked hi.le
    obtain ⟨w', hRun, _⟩ := hEvictions i hi
    have hNext : nextLeaf env (worlds i) < 2 ^ 64 := by
      rw [nextLeaf, hSame, hStart, evictionPath_eq hHeight hPow, getLastD_path, evictionLeaf]
      have hLt := reverse_lt env.cfg.height (worlds i).evictionCounter.toNat
      have hPow' : 2 ^ env.cfg.height ≤ 2 ^ 63 := Nat.pow_le_pow_right (by decide) (by omega)
      omega
    rw [refreshes_iff hRun (lt_size_of_mem_level (by omega) hb) hNext, nextLeaf,
      hCounter, hSame, hStart]

/-- The world after an eviction. -/
def evicted (env : Env) (w : World env.Ciphertext) : World env.Ciphertext :=
  match (evict env).run w with
  | .ok _ w' => w'
  | .error _ w' => w'

theorem evict_run_evicted {w : World env.Ciphertext} {memory : Memory}
    (hFeasible : Feasible env.cfg)
    (h : Coherent env w memory) (hCapacity : env.cfg.numBlocks ≤ env.cfg.bucketSlots)
    (hSize : env.cfg.blockSize.toNat ≤ env.cfg.tlweN) :
    (evict env).run w = .ok () (evicted env w) ∧ Coherent env (evicted env w) memory := by
  obtain ⟨hReturned, hThrew⟩ := wp_iff.mp (evict_spec hFeasible.height_lt hSize h)
  rw [evicted]
  cases hRun : (evict env).run w with
  | ok _ w' => exact ⟨rfl, hReturned _ _ hRun⟩
  | error e w' =>
    have hSlots := (hThrew _ _ hRun).2.1
    exact absurd (UInt64.le_iff_toNat_le.mp hCapacity) (Nat.not_le.mpr hSlots)

/-- If a bucket can take all blocks, evictions can follow each other for ever. -/
theorem consecutiveEvictions_iterate {w : World env.Ciphertext} {memory : Memory}
    (hFeasible : Feasible env.cfg)
    (h : Coherent env w memory) (hCapacity : env.cfg.numBlocks ≤ env.cfg.bucketSlots)
    (hSize : env.cfg.blockSize.toNat ≤ env.cfg.tlweN) (count : Nat) :
    ConsecutiveEvictions env (fun i => (evicted env)^[i] w) count := by
  have hCoherent : ∀ i, Coherent env ((evicted env)^[i] w) memory := by
    intro i
    induction i with
    | zero => exact h
    | succ i ih =>
      rw [Function.iterate_succ_apply']
      exact (evict_run_evicted hFeasible ih hCapacity hSize).2
  intro i _
  refine ⟨_, (evict_run_evicted hFeasible (hCoherent i) hCapacity hSize).1, ?_⟩
  beta_reduce
  rw [Function.iterate_succ_apply']
  exact ⟨rfl, rfl⟩

theorem evictions_spread_small : ∃ start results w, (setUp .rotating).run {} = .ok () start ∧
    (rotatingCalls.mapM (performCall .rotating)).run start = .ok results w ∧
    ∀ b ∈ HeapTree.level 1, ∃! i, i < 2 ∧ Refreshes .rotating ((evicted .rotating)^[i] w) b := by
  obtain ⟨start, results, w, hSetUp, hCalls, hFeasible, hCoherent⟩ := run_rotating
  obtain ⟨numLeaves, hLeaves, hPow, _, hRefreshed⟩ := @evictions_spread_evenly .rotating (by decide)
  refine ⟨start, results, w, hSetUp, hCalls, hRefreshed (fun i => (evicted .rotating)^[i] w) ?_ ?_⟩
  · exact UInt64.toNat_inj.mp (hCoherent.leaves.trans hPow.symm)
  · exact consecutiveEvictions_iterate hFeasible hCoherent (by decide) (by decide) 2

end Windows
end OramHub.OnionRing
