import OramHub.Lib.Inventory
import OramHub.RingOram.Reset
import OramHub.RingOram.Client

/-! # Ring ORAM in the clear

`Plain` is one client/server pair without encryption, files or sockets. Buckets are read into the
stash, refilled from it and touched; the inventory follows every live block through these steps.
-/
namespace OramHub.RingOram
open OramHub.Core OramHub.Inventory OramHub.LittleEndian
set_option autoImplicit false

/-- What is left of a message and its answer without slot offsets, validity bytes, IVs and
ciphertexts. `counts` are the count fields of the buckets sent. -/
structure Sketch where
  command : List UInt8
  fields : List UInt64
  answer : List UInt64
  counts : List Bytes
  payloadLengths : List Nat
  requestLength : Nat
  responseLength : Nat
  deriving DecidableEq, Repr

def countField (payload : Bytes) : Bytes := payload.take 8

def Request.fields : Request → List UInt64
  | .init nodeCount _ => [nodeCount]
  | .readPathMetadata leaf => [leaf]
  | .xorPathSlots leaf offsetCount _ => [leaf, offsetCount]
  | .readBucket bucketIdx => [bucketIdx]
  | .writeBucket bucketIdx _ => [bucketIdx]
  | .readBucketCount bucketIdx => [bucketIdx]
  | .readStats => []

def Request.buckets : Request → List Bytes
  | .init _ buckets => buckets
  | .writeBucket _ bucket => [bucket]
  | _ => []

def Response.fields : Response → List UInt64
  | .pathMetadata pathSize _ => [pathSize]
  | .xorPath _ ivCount _ => [ivCount]
  | .bucketCount count => [count]
  | .stats xorPathReadCount lastXorPathSlotCount => [xorPathReadCount, lastXorPathSlotCount]
  | _ => []

def Response.buckets : Response → List Bytes
  | .pathMetadata _ metadata => metadata
  | .bucket bytes => [bytes]
  | _ => []

def Response.masked : Response → List Bytes
  | .xorPath aggregate _ ivs => aggregate :: ivs
  | _ => []

def Event.sketch (event : Event) : Sketch where
  command := event.request.encode.take 1
  fields := event.request.fields
  answer := event.response.fields
  counts := (event.request.buckets ++ event.response.buckets).map countField
  payloadLengths :=
    (event.request.buckets ++ event.response.buckets ++ event.response.masked).map List.length
  requestLength := event.request.encode.length
  responseLength := event.response.encode.length

namespace Sketch

def word (c : Char) : List UInt8 := [c.toUInt8]

def init (cfg : RuntimeConfig) (nodes bucketSize : Nat) : Sketch where
  command := word 'I'
  fields := [cfg.numTreeNodes]
  answer := []
  counts := List.replicate nodes (encodeWord 0)
  payloadLengths := List.replicate nodes bucketSize
  requestLength := 9 + nodes * (8 + bucketSize)
  responseLength := 1

def readPathMetadata (leaf : UInt64) (counts : List UInt64) (metadataSize : Nat) : Sketch where
  command := word 'M'
  fields := [leaf]
  answer := [UInt64.ofNat counts.length]
  counts := counts.map encodeWord
  payloadLengths := List.replicate counts.length metadataSize
  requestLength := 9
  responseLength := 8 + counts.length * (8 + metadataSize)

def xorPathSlots (leaf : UInt64) (levels blockSize : Nat) : Sketch where
  command := word 'X'
  fields := [leaf, UInt64.ofNat levels]
  answer := [UInt64.ofNat levels]
  counts := []
  payloadLengths := blockSize :: List.replicate levels 16
  requestLength := 17 + levels * 8
  responseLength := 16 + blockSize + levels * 24

def readBucket (bucketIdx count : UInt64) (bucketSize : Nat) : Sketch where
  command := word 'B'
  fields := [bucketIdx]
  answer := []
  counts := [encodeWord count]
  payloadLengths := [bucketSize]
  requestLength := 9
  responseLength := 8 + bucketSize

def writeBucket (bucketIdx : UInt64) (bucketSize : Nat) : Sketch where
  command := word 'W'
  fields := [bucketIdx]
  answer := []
  counts := [encodeWord 0]
  payloadLengths := [bucketSize]
  requestLength := 17 + bucketSize
  responseLength := 1

def readBucketCount (bucketIdx count : UInt64) : Sketch where
  command := word 'T'
  fields := [bucketIdx]
  answer := [count]
  counts := []
  payloadLengths := []
  requestLength := 9
  responseLength := 8

end Sketch

/-- A real block of a RAM with `cfg.numBlocks` addresses. -/
structure Held (cfg : RuntimeConfig) (block : RingBlock) : Prop where
  addr : block.addr < cfg.numBlocks
  leaf : block.leaf.toNat < 2 ^ cfg.depth
  data : block.data.length = cfg.blockSize.toNat

structure StashOk (cfg : RuntimeConfig) (stash : List RingBlock) : Prop where
  nodup : (stash.map RingBlock.addr).Nodup
  held : ∀ block ∈ stash, Held cfg block

/-- The effect of `PutBlockInStash` on the stash. -/
def put (stash : List RingBlock) (block : RingBlock) : List RingBlock :=
  stash.filter (fun stashed => stashed.addr != block.addr) ++ [block]

structure Plain where
  stash : List RingBlock
  bucket : Nat → RingBucket
  positionMap : UInt64 → Option UInt64
  round : Nat
  evictionCounter : UInt64
  fabricated : Nat
  trace : List Sketch

/-- A slot that `ReadPath` selects. -/
structure Pick where
  node : Nat
  offset : Nat
  target : Bool
  deriving DecidableEq, Repr

def RuntimeConfig.nodes (cfg : RuntimeConfig) : Finset Nat :=
  Finset.range (HeapTree.nodeCount cfg.depth)

def RuntimeConfig.path (cfg : RuntimeConfig) (leaf : UInt64) : List Nat :=
  HeapTree.path cfg.depth leaf.toNat

section Blocks

variable {cfg : RuntimeConfig} {block : RingBlock}

theorem ne_dummy_of_lt {addr bound : UInt64} (h : addr < bound) : addr ≠ kDummyAddress := by
  intro hEq
  have hLt := UInt64.lt_iff_toNat_lt.mp h
  have hSize := UInt64.toNat_lt bound
  rw [hEq, show kDummyAddress.toNat = 2 ^ 64 - 1 from rfl] at hLt
  omega

theorem Held.addr_ne_dummy (h : Held cfg block) : block.addr ≠ kDummyAddress :=
  ne_dummy_of_lt h.addr

theorem Held.storable (h : Held cfg block) : Storable cfg block := ⟨h.addr_ne_dummy, h.data⟩

theorem mem_nodes {b : Nat} : b ∈ cfg.nodes ↔ b < HeapTree.nodeCount cfg.depth := Finset.mem_range

theorem mem_nodes_of_mem_path {leaf : UInt64} (hLeaf : leaf.toNat < 2 ^ cfg.depth) {b : Nat}
    (h : b ∈ cfg.path leaf) : b ∈ cfg.nodes :=
  mem_nodes.mpr (HeapTree.lt_nodeCount_of_mem_path hLeaf h)

end Blocks

section Stash

variable {cfg : RuntimeConfig} {stash : List RingBlock} {block : RingBlock}

theorem put_of_fresh (h : ∀ stashed ∈ stash, stashed.addr ≠ block.addr) :
    put stash block = stash ++ [block] := by
  rw [put, List.filter_eq_self.mpr]
  intro stashed hStashed
  rw [bne_iff_ne]
  exact h stashed hStashed

theorem foldl_put {blocks : List RingBlock} (h : ((stash ++ blocks).map RingBlock.addr).Nodup) :
    blocks.foldl put stash = stash ++ blocks := by
  induction blocks generalizing stash with
  | nil => simp
  | cons block blocks ih =>
    have hFresh : ∀ stashed ∈ stash, stashed.addr ≠ block.addr := by
      intro stashed hStashed
      rw [List.map_append, List.nodup_append] at h
      exact h.2.2 _ (List.mem_map_of_mem hStashed) _ (List.mem_map_of_mem List.mem_cons_self)
    rw [List.foldl_cons, put_of_fresh hFresh, ih (by simpa using h), List.append_assoc]
    rfl

theorem StashOk.sublist {kept : List RingBlock} (h : StashOk cfg stash)
    (hSub : kept.Sublist stash) :
    StashOk cfg kept :=
  ⟨h.nodup.sublist (hSub.map _), fun block hBlock => h.held block (hSub.subset hBlock)⟩

theorem StashOk.perm {other : List RingBlock} (h : StashOk cfg stash) (hPerm : other.Perm stash) :
    StashOk cfg other :=
  ⟨(hPerm.map _).nodup_iff.mpr h.nodup, fun block hBlock => h.held block (hPerm.subset hBlock)⟩

theorem StashOk.put (h : StashOk cfg stash) (hBlock : Held cfg block) :
    StashOk cfg (put stash block) := by
  refine ⟨?_, ?_⟩
  · rw [RingOram.put, List.map_append, List.nodup_append]
    refine ⟨h.nodup.sublist (List.filter_sublist.map _), List.nodup_singleton _, ?_⟩
    rintro addr hAddr other hOther rfl
    obtain ⟨stashed, hStashed, rfl⟩ := List.mem_map.mp hAddr
    have hNe := (List.mem_filter.mp hStashed).2
    rw [bne_iff_ne] at hNe
    exact hNe (by simpa using hOther)
  · intro stashed hStashed
    obtain hOld | hNew := List.mem_append.mp hStashed
    · exact h.held stashed (List.mem_filter.mp hOld).1
    · exact List.mem_singleton.mp hNew ▸ hBlock

theorem StashOk.foldl_put {blocks : List RingBlock} (h : StashOk cfg stash)
    (hBlocks : ∀ block ∈ blocks, Held cfg block) :
    StashOk cfg (blocks.foldl RingOram.put stash) := by
  induction blocks generalizing stash with
  | nil => exact h
  | cons block blocks ih =>
    refine ih (h.put (hBlocks block List.mem_cons_self)) ?_
    exact fun other hOther => hBlocks other (List.mem_cons_of_mem _ hOther)

theorem StashOk.length_le (h : StashOk cfg stash) : stash.length ≤ cfg.numBlocks.toNat := by
  have hNodup : (stash.map fun block => block.addr.toNat).Nodup := by
    have hComp := h.nodup.map fun _ _ => UInt64.toNat_inj.mp
    rwa [List.map_map] at hComp
  have hSub : (stash.map fun block => block.addr.toNat) ⊆ List.range cfg.numBlocks.toNat := by
    intro addr hAddr
    obtain ⟨block, hBlock, rfl⟩ := List.mem_map.mp hAddr
    exact List.mem_range.mpr (UInt64.lt_iff_toNat_lt.mp (h.held block hBlock).addr)
  have hLe := (hNodup.subperm hSub).length_le
  rwa [List.length_map, List.length_range] at hLe

end Stash

namespace Plain

variable {cfg : RuntimeConfig}

def contents (v : Plain) (b : Nat) : Multiset RingBlock := (v.bucket b).liveBlocks

/-- All live blocks of the stash and the active buckets. -/
def inventory (v : Plain) (active : Finset Nat) : Multiset RingBlock :=
  Inventory.inventory v.stash v.contents active

def observe (v : Plain) (sketch : Sketch) : Plain := { v with trace := v.trace ++ [sketch] }

def read (v : Plain) (b : Nat) : Plain :=
  { v with stash := (v.bucket b).liveBlocks.foldl put v.stash }

def touch (v : Plain) (pick : Pick) : Plain :=
  { v with
    bucket := Function.update v.bucket pick.node ((v.bucket pick.node).touch pick.offset) }

def touchAll (v : Plain) (picks : List Pick) : Plain := picks.foldl touch v

/-- The blocks that a path read takes out of the tree. -/
def found (v : Plain) (picks : List Pick) : List RingBlock :=
  picks.flatMap fun pick => (v.bucket pick.node).found pick.offset

/-- A bucket has been refilled with some blocks of the stash that belong on its way. -/
inductive Refills (cfg : RuntimeConfig) (v : Plain) (b : Nat) : Plain → Prop
  | intro {selected kept : List RingBlock} {bucket : RingBucket} :
      (selected ++ kept).Perm v.stash →
      (∀ block ∈ selected, b ∈ cfg.path block.leaf) →
      bucket.Fresh cfg selected →
      Refills cfg v b { v with stash := kept, bucket := Function.update v.bucket b bucket }

structure Valid (cfg : RuntimeConfig) (v : Plain) : Prop where
  stash : StashOk cfg v.stash
  wellFormed : ∀ b ∈ cfg.nodes, (v.bucket b).WellFormed cfg
  counts : ∀ b ∈ cfg.nodes, (v.bucket b).count.toNat ≤ cfg.s.toNat
  held : ∀ b ∈ cfg.nodes, ∀ block ∈ v.contents b, Held cfg block
  placed : ∀ b ∈ cfg.nodes, ∀ block ∈ v.contents b, b ∈ cfg.path block.leaf

section Steps

variable {v v' : Plain} {b : Nat}

theorem Valid.withStash (h : v.Valid cfg) {stash : List RingBlock} (hStash : StashOk cfg stash) :
    Valid cfg { v with stash := stash } :=
  ⟨hStash, h.wellFormed, h.counts, h.held, h.placed⟩

theorem Valid.observe (h : v.Valid cfg) (sketch : Sketch) : (v.observe sketch).Valid cfg :=
  ⟨h.stash, h.wellFormed, h.counts, h.held, h.placed⟩

@[simp] theorem read_stash (v : Plain) (b : Nat) :
    (v.read b).stash = (v.bucket b).liveBlocks.foldl put v.stash := rfl

/-- With distinct addresses a bucket that is read is added to the stash. -/
theorem stash_read {active : Finset Nat} (hb : b ∈ active)
    (hNodup : ((v.inventory active).map RingBlock.addr).Nodup) :
    ((v.read b).stash : Multiset RingBlock) = v.stash + v.contents b := by
  have hTake : Inventory.inventory ((v.stash : Multiset RingBlock) + v.contents b) v.contents
      (active.erase b) = v.inventory active := inventory_take hb
  have hKeys : ((v.stash ++ (v.bucket b).liveBlocks).map RingBlock.addr).Nodup := by
    rw [← Multiset.coe_nodup, ← Multiset.map_coe, ← Multiset.coe_add]
    exact Multiset.nodup_of_le (Multiset.map_le_map (hTake ▸ stash_le_inventory)) hNodup
  rw [read_stash, foldl_put hKeys, ← Multiset.coe_add]
  rfl

theorem inventory_read {active : Finset Nat} (hb : b ∈ active)
    (hNodup : ((v.inventory active).map RingBlock.addr).Nodup) :
    (v.read b).inventory (active.erase b) = v.inventory active := by
  rw [inventory, stash_read hb hNodup]
  exact inventory_take hb

theorem contents_update (v : Plain) (b : Nat) (bucket : RingBucket) (stash : List RingBlock) :
    ({ v with stash := stash, bucket := Function.update v.bucket b bucket } : Plain).contents =
      Function.update v.contents b (bucket.liveBlocks : Multiset RingBlock) := by
  funext c
  by_cases hc : c = b
  · subst hc
    simp [contents]
  · simp [contents, hc]

theorem Refills.inventory_eq (h : v.Refills cfg b v') {active : Finset Nat} (hb : b ∉ active) :
    v'.inventory (insert b active) = v.inventory active := by
  cases h with
  | @intro selected kept bucket hPerm _ hFresh =>
    rw [inventory, contents_update, inventory_fill _ hb, hFresh.live, Multiset.coe_add,
      Multiset.coe_eq_coe.mpr hPerm]
    rfl

theorem count_of_fresh {bucket : RingBucket} {blocks : List RingBlock}
    (h : bucket.Fresh cfg blocks) :
    bucket.count = 0 := by
  rw [← UInt64.toNat_inj, h.wellFormed.count, h.valids, List.count_replicate]
  rfl

theorem Refills.valid (h : v.Refills cfg b v') (hValid : v.Valid cfg) : v'.Valid cfg := by
  cases h with
  | @intro selected kept bucket hPerm hPath hFresh =>
    have hSelected := (hValid.stash.perm hPerm).held
    refine ⟨(hValid.stash.perm hPerm).sublist (List.sublist_append_right _ _), ?_, ?_, ?_, ?_⟩
    · intro c hc
      rcases eq_or_ne c b with rfl | hNe
      · simpa using hFresh.wellFormed
      · simpa [hNe] using hValid.wellFormed c hc
    · intro c hc
      rcases eq_or_ne c b with rfl | hNe
      · simp [count_of_fresh hFresh]
      · simpa [hNe] using hValid.counts c hc
    · intro c hc block hBlock
      rw [contents_update] at hBlock
      rcases eq_or_ne c b with rfl | hNe
      · rw [Function.update_self, hFresh.live] at hBlock
        exact hSelected block (List.mem_append_left _ hBlock)
      · rw [Function.update_of_ne hNe] at hBlock
        exact hValid.held c hc block hBlock
    · intro c hc block hBlock
      rw [contents_update] at hBlock
      rcases eq_or_ne c b with rfl | hNe
      · rw [Function.update_self, hFresh.live] at hBlock
        exact hPath block hBlock
      · rw [Function.update_of_ne hNe] at hBlock
        exact hValid.placed c hc block hBlock

end Steps

section Touch

variable {v : Plain} {addr : UInt64} {pick : Pick} {picks : List Pick}

theorem contents_touch (v : Plain) (pick : Pick) :
    (v.touch pick).contents = Function.update v.contents pick.node
      (((v.bucket pick.node).touch pick.offset).liveBlocks : Multiset RingBlock) :=
  contents_update v pick.node _ v.stash

theorem inventory_touch {active : Finset Nat} (hNode : pick.node ∈ active) :
    v.inventory active =
      ((v.bucket pick.node).found pick.offset : Multiset RingBlock) +
        (v.touch pick).inventory active := by
  rw [inventory, inventory, contents_touch]
  exact inventory_update hNode (RingBucket.liveBlocks_touch _ _)

theorem touch_bucket_of_ne {b : Nat} (h : b ≠ pick.node) : (v.touch pick).bucket b = v.bucket b :=
  Function.update_of_ne h _ _

theorem touch_bucket_self :
    (v.touch pick).bucket pick.node = (v.bucket pick.node).touch pick.offset :=
  Function.update_self _ _ _

theorem found_congr {v w : Plain} (h : ∀ pick ∈ picks, v.bucket pick.node = w.bucket pick.node) :
    v.found picks = w.found picks :=
  List.flatMap_congr fun pick hPick => by rw [h pick hPick]

/-- A path read removes exactly the found blocks from the tree. -/
theorem inventory_touchAll {active : Finset Nat} (hNodup : (picks.map Pick.node).Nodup)
    (hNodes : ∀ pick ∈ picks, pick.node ∈ active) :
    v.inventory active = (v.found picks : Multiset RingBlock) +
      (v.touchAll picks).inventory active := by
  induction picks generalizing v with
  | nil => exact (Multiset.zero_add _).symm
  | cons pick picks ih =>
    rw [List.map_cons, List.nodup_cons] at hNodup
    have hSame : (v.touch pick).found picks = v.found picks := by
      refine found_congr fun other hOther => touch_bucket_of_ne ?_
      rintro hEq
      exact hNodup.1 (hEq ▸ List.mem_map_of_mem hOther)
    have hTail := @ih (v.touch pick) hNodup.2 fun other hOther =>
      hNodes other (List.mem_cons_of_mem _ hOther)
    rw [inventory_touch (hNodes pick List.mem_cons_self), hTail, hSame, ← Multiset.add_assoc,
      Multiset.coe_add]
    rfl

theorem touchAll_bucket_of_not_mem {b : Nat} (h : b ∉ picks.map Pick.node) :
    (v.touchAll picks).bucket b = v.bucket b := by
  induction picks generalizing v with
  | nil => rfl
  | cons pick picks ih =>
    rw [List.map_cons, List.mem_cons, not_or] at h
    exact (ih h.2).trans (touch_bucket_of_ne h.1)

theorem touchAll_bucket_of_mem (hNodup : (picks.map Pick.node).Nodup) (h : pick ∈ picks) :
    (v.touchAll picks).bucket pick.node = (v.bucket pick.node).touch pick.offset := by
  induction picks generalizing v with
  | nil => cases h
  | cons head picks ih =>
    rw [List.map_cons, List.nodup_cons] at hNodup
    obtain rfl | hMem := List.mem_cons.mp h
    · exact (touchAll_bucket_of_not_mem hNodup.1).trans touch_bucket_self
    · have hNe : pick.node ≠ head.node := fun hEq => hNodup.1 (hEq ▸ List.mem_map_of_mem hMem)
      exact (ih hNodup.2 hMem).trans (by rw [touch_bucket_of_ne hNe])

theorem touchAll_eq (v : Plain) (picks : List Pick) :
    v.touchAll picks = { v with bucket := (v.touchAll picks).bucket } := by
  induction picks generalizing v with
  | nil => rfl
  | cons pick picks ih => exact ih (v.touch pick)

theorem count_touch_toNat (hCount : (v.bucket pick.node).count.toNat < cfg.s.toNat) :
    ((v.bucket pick.node).touch pick.offset).count.toNat =
      (v.bucket pick.node).count.toNat + 1 := by
  have hLt := UInt64.toNat_lt cfg.s
  change ((v.bucket pick.node).count + 1).toNat = _
  rw [UInt64.toNat_add, UInt64.toNat_one, Nat.mod_eq_of_lt (by omega)]

theorem contents_touch_le (v : Plain) (pick : Pick) (b : Nat) :
    (v.touch pick).contents b ≤ v.contents b := by
  rw [contents_touch]
  rcases eq_or_ne b pick.node with rfl | hNe
  · rw [Function.update_self]
    exact (Multiset.le_add_left _ _).trans_eq (RingBucket.liveBlocks_touch _ pick.offset).symm
  · rw [Function.update_of_ne hNe]

theorem Valid.touch (h : v.Valid cfg)
    (hSelects : (v.bucket pick.node).Selects addr pick.offset pick.target)
    (hCount : (v.bucket pick.node).count.toNat < cfg.s.toNat) : (v.touch pick).Valid cfg := by
  have hNext := count_touch_toNat hCount
  have hLt := UInt64.toNat_lt cfg.s
  refine ⟨h.stash, ?_, ?_, ?_, ?_⟩
  · intro b hb
    rcases eq_or_ne b pick.node with rfl | hNe
    · rw [touch_bucket_self]
      exact (h.wellFormed _ hb).touch hSelects.valid (by omega)
    · rw [touch_bucket_of_ne hNe]
      exact h.wellFormed b hb
  · intro b hb
    rcases eq_or_ne b pick.node with rfl | hNe
    · rw [touch_bucket_self]
      omega
    · rw [touch_bucket_of_ne hNe]
      exact h.counts b hb
  · intro b hb block hBlock
    exact h.held b hb block (Multiset.mem_of_le (contents_touch_le v pick b) hBlock)
  · intro b hb block hBlock
    exact h.placed b hb block (Multiset.mem_of_le (contents_touch_le v pick b) hBlock)

/-- What `ReadPath` may do to a valid state. -/
structure Picks (cfg : RuntimeConfig) (v : Plain) (addr : UInt64) (picks : List Pick) : Prop where
  nodup : (picks.map Pick.node).Nodup
  nodes : ∀ pick ∈ picks, pick.node ∈ cfg.nodes
  selects : ∀ pick ∈ picks, (v.bucket pick.node).Selects addr pick.offset pick.target
  calm : ∀ pick ∈ picks, (v.bucket pick.node).count.toNat < cfg.s.toNat

theorem Picks.tail (h : Picks cfg v addr (pick :: picks)) :
    Picks cfg (v.touch pick) addr picks := by
  have hNodup := h.nodup
  rw [List.map_cons, List.nodup_cons] at hNodup
  have hSame : ∀ other ∈ picks, (v.touch pick).bucket other.node = v.bucket other.node := by
    intro other hOther
    apply touch_bucket_of_ne
    intro hEq
    exact hNodup.1 (hEq ▸ List.mem_map_of_mem hOther)
  refine ⟨hNodup.2, ?_, ?_, ?_⟩
  · exact fun other hOther => h.nodes other (List.mem_cons_of_mem _ hOther)
  · intro other hOther
    rw [hSame other hOther]
    exact h.selects other (List.mem_cons_of_mem _ hOther)
  · intro other hOther
    rw [hSame other hOther]
    exact h.calm other (List.mem_cons_of_mem _ hOther)

theorem Picks.valid (h : Picks cfg v addr picks) (hValid : v.Valid cfg) :
    (v.touchAll picks).Valid cfg := by
  induction picks generalizing v with
  | nil => exact hValid
  | cons pick picks ih =>
    have hMem : pick ∈ pick :: picks := List.mem_cons_self
    exact ih h.tail (hValid.touch (h.selects pick hMem) (h.calm pick hMem))

theorem Picks.addr_of_found (h : Picks cfg v addr picks) (hValid : v.Valid cfg) {block : RingBlock}
    (hBlock : block ∈ v.found picks) : block.addr = addr := by
  obtain ⟨⟨node, offset, target⟩, hPick, hFound⟩ := List.mem_flatMap.mp hBlock
  have hSelects := h.selects _ hPick
  cases target with
  | true =>
    obtain ⟨i, _, hEq, hAddr, _⟩ := hSelects.found_target (hValid.wellFormed _ (h.nodes _ hPick))
    rw [hEq, List.mem_singleton] at hFound
    rw [hFound, hAddr]
  | false =>
    rw [hSelects.found_dummy] at hFound
    cases hFound

/-- With distinct addresses in the system a path read finds at most one block. -/
theorem Picks.length_found_le (h : Picks cfg v addr picks) (hValid : v.Valid cfg)
    (hNodup : ((v.inventory cfg.nodes).map RingBlock.addr).Nodup) : (v.found picks).length ≤ 1 := by
  have hLe : (v.found picks : Multiset RingBlock) ≤ v.inventory cfg.nodes := by
    rw [inventory_touchAll h.nodup h.nodes]
    exact Multiset.le_add_right _ _
  have hKeys : ((v.found picks).map RingBlock.addr).Nodup := by
    rw [← Multiset.coe_nodup, ← Multiset.map_coe]
    exact Multiset.nodup_of_le (Multiset.map_le_map hLe) hNodup
  have hAll : (v.found picks).map RingBlock.addr = List.replicate (v.found picks).length addr := by
    rw [List.eq_replicate_iff, List.length_map]
    refine ⟨rfl, fun other hOther => ?_⟩
    obtain ⟨block, hBlock, rfl⟩ := List.mem_map.mp hOther
    exact h.addr_of_found hValid hBlock
  rw [hAll, List.nodup_replicate] at hKeys
  exact hKeys

/-- A path read that finds nothing proves that the path does not hold the address. -/
theorem Picks.not_mem_of_found_eq_nil (h : Picks cfg v addr picks) (hValid : v.Valid cfg)
    (hFound : v.found picks = []) (hMem : pick ∈ picks) {block : RingBlock}
    (hBlock : block ∈ v.contents pick.node) : block.addr ≠ addr := by
  have hNil : (v.bucket pick.node).found pick.offset = [] :=
    List.flatMap_eq_nil_iff.mp hFound pick hMem
  have hSelects := h.selects pick hMem
  obtain ⟨i, hi, rfl⟩ := List.mem_map.mp (Multiset.mem_coe.mp hBlock)
  cases hTarget : pick.target with
  | true =>
    rw [hTarget] at hSelects
    obtain ⟨_, _, hEq, _⟩ := hSelects.found_target (hValid.wellFormed _ (h.nodes _ hMem))
    rw [hEq] at hNil
    cases hNil
  | false =>
    rw [hTarget] at hSelects
    exact hSelects.absent i hi

end Touch

end Plain
end OramHub.RingOram
