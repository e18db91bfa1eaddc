import Vllm.Lib.Run
import Vllm.Proofs.Core.PoolRun
import Vllm.Proofs.Core.Tables

/-!
# `Vllm.Proofs.Core.TableRun`: the block pool under the managers

The operations of a run are those the managers of the groups issue to the shared pool, for any
requests and in any order: taking a prefix hit, allocating, caching, dropping skipped blocks,
freeing, evicting and resetting.

* `tableInv_init`, `tableInv_step`: the pool and the block tables agree in a fresh coordinator
  and every operation keeps that, unless a prefix hit lists a block twice.
* `partitioned_of_run`: hence every block of the pool is either free and once in the free
  list, or held and counted; and the null block is never cached, unless a call of
  `cache_blocks` reaches a null entry of the table.
* `null_block_cached`: a call that does reach one, after two accepted draft tokens have moved a
  chunked-local request over a chunk boundary.
-/

set_option autoImplicit false

namespace Vllm.Proofs.Core

open Vllm.Lib Vllm.V1 Vllm.V1.Core KVCacheCoordinator
open Vllm.V1.Core.BlockPool

/-- The operations that the managers issue to the pool. `group` is the index of a manager. -/
inductive KVOp where
  /-- `touch` and `save_new_computed_blocks` on the prefix hit of all groups. -/
  | allocateNewComputedBlocks (requestId : String) (newComputedBlocks : List (List BlockRef))
  | allocateNewBlocks (group : Nat) (requestId : String) (numTokens : Int)
  | cacheBlocks (group : Nat) (request : Request) (numTokens : Int)
  | removeSkippedBlocks (group : Nat) (requestId : String) (numComputedTokens : Int)
  | free (group : Nat) (requestId : String)
  | evictBlocks (blockIds : List Nat)
  | resetPrefixCache

/-- Runs an operation of one manager on the shared pool. -/
def onManager (c : KVCacheCoordinator) (group : Nat)
    (f : SingleTypeKVCacheManager → BlockPool →
      Except PyError (SingleTypeKVCacheManager × BlockPool)) :
    Except PyError KVCacheCoordinator :=
  match c.singleTypeManagers[group]? with
  | none => .error (.indexError "tuple index out of range")
  | some m => do
      let (m, pool) ← f m c.blockPool
      return { c with singleTypeManagers := c.singleTypeManagers.set group m, blockPool := pool }

/-- Runs one operation. -/
def kvStep (c : KVCacheCoordinator) : KVOp → Except PyError KVCacheCoordinator
  | .allocateNewComputedBlocks requestId newComputedBlocks => do
      let pool ← c.blockPool.touch newComputedBlocks
      { c with blockPool := pool }.saveNewComputedBlocks requestId newComputedBlocks
  | .allocateNewBlocks group requestId numTokens =>
    onManager c group fun m pool => do
      let (_, m, pool) ← m.allocateNewBlocks pool requestId numTokens
      return (m, pool)
  | .cacheBlocks group request numTokens =>
    onManager c group fun m pool => m.cacheBlocks pool request numTokens
  | .removeSkippedBlocks group requestId numComputedTokens =>
    onManager c group fun m pool => m.removeSkippedBlocks pool requestId numComputedTokens
  | .free group requestId => onManager c group fun m pool => m.free pool requestId
  | .evictBlocks blockIds => do
      let pool ← c.blockPool.evictBlocks blockIds
      return { c with blockPool := pool }
  | .resetPrefixCache => .ok { c with blockPool := c.blockPool.resetPrefixCache.2 }

/-- What the callers promise: a prefix hit has one list for each group, of blocks that are null
or that have a hash. -/
def KVOpIssued (c : KVCacheCoordinator) : KVOp → Prop
  | .allocateNewComputedBlocks _ newComputedBlocks =>
    newComputedBlocks.length = c.singleTypeManagers.length ∧
      ∀ bs ∈ newComputedBlocks, ∀ b ∈ bs,
        b = c.blockPool.nullBlock ∨ (c.blockPool.deref b).blockHash.isSome = true
  | _ => True

instance (c : KVCacheCoordinator) : (op : KVOp) → Decidable (KVOpIssued c op)
  | .allocateNewComputedBlocks _ newComputedBlocks =>
    inferInstanceAs (Decidable (newComputedBlocks.length = c.singleTypeManagers.length ∧
      ∀ bs ∈ newComputedBlocks, ∀ b ∈ bs,
        b = c.blockPool.nullBlock ∨ (c.blockPool.deref b).blockHash.isSome = true))
  | .allocateNewBlocks .. => isTrue trivial
  | .cacheBlocks .. => isTrue trivial
  | .removeSkippedBlocks .. => isTrue trivial
  | .free .. => isTrue trivial
  | .evictBlocks _ => isTrue trivial
  | .resetPrefixCache => isTrue trivial

/-- A prefix hit lists no block twice, other than the null block. Two blocks of one hit have
the hashes of two blocks of one request, so this fails on a hash collision only. -/
def HitDistinct (c : KVCacheCoordinator) : KVOp → Prop
  | .allocateNewComputedBlocks _ newComputedBlocks =>
    ∀ bs ∈ newComputedBlocks, (bs.filter fun b => b ≠ c.blockPool.nullBlock).Nodup
  | _ => True

/-- The blocks that `cache_blocks` is about to cache are not null. -/
def CachesNoNull (c : KVCacheCoordinator) : KVOp → Prop
  | .cacheBlocks group request numTokens =>
    ∀ m ∈ c.singleTypeManagers[group]?,
      c.blockPool.nullBlock ∉ newFullBlocks m request numTokens
  | _ => True

instance (c : KVCacheCoordinator) : (op : KVOp) → Decidable (HitDistinct c op)
  | .allocateNewComputedBlocks _ newComputedBlocks =>
    inferInstanceAs (Decidable (∀ bs ∈ newComputedBlocks,
      (bs.filter fun b => b ≠ c.blockPool.nullBlock).Nodup))
  | .allocateNewBlocks .. => isTrue trivial
  | .cacheBlocks .. => isTrue trivial
  | .removeSkippedBlocks .. => isTrue trivial
  | .free .. => isTrue trivial
  | .evictBlocks _ => isTrue trivial
  | .resetPrefixCache => isTrue trivial

instance (c : KVCacheCoordinator) : (op : KVOp) → Decidable (CachesNoNull c op)
  | .cacheBlocks group request numTokens =>
    inferInstanceAs (Decidable (∀ m ∈ c.singleTypeManagers[group]?,
      c.blockPool.nullBlock ∉ newFullBlocks m request numTokens))
  | .allocateNewComputedBlocks .. => isTrue trivial
  | .allocateNewBlocks .. => isTrue trivial
  | .removeSkippedBlocks .. => isTrue trivial
  | .free .. => isTrue trivial
  | .evictBlocks _ => isTrue trivial
  | .resetPrefixCache => isTrue trivial

/-- The pool and the tables of a coordinator agree. -/
def CoordInv (c : KVCacheCoordinator) : Prop :=
  ∃ L, TableInv c.blockPool c.singleTypeManagers L

section Init

theorem initManagers_spec (pool : BlockPool) (dcp pcp : ℕ+) (i : Nat) (gs : List KVCacheSpec) :
    (∀ m ∈ initManagers pool dcp pcp i gs,
        m.nullBlock = pool.nullBlock ∧ m.reqToBlocks = PyDict.empty) ∧
      (initManagers pool dcp pcp i gs).length = gs.length := by
  induction gs generalizing i with
  | nil => exact ⟨by simp [initManagers], rfl⟩
  | cons g gs ih =>
    obtain ⟨hall, hlen⟩ := ih (i + 1)
    refine ⟨?_, ?_⟩
    · intro m hm
      rcases List.mem_cons.mp hm with rfl | hm
      · exact ⟨rfl, rfl⟩
      · exact hall m hm
    · simp [initManagers, hlen]

/-- Managers without a table hold no block. -/
theorem holders_of_empty {ms : List SingleTypeKVCacheManager}
    (h : ∀ m ∈ ms, m.reqToBlocks = PyDict.empty) (r : BlockRef) : holders ms r = 0 := by
  unfold holders
  refine List.sum_eq_zero_iff_forall_eq_nat.mpr ?_
  intro n hn
  obtain ⟨m, hm, rfl⟩ := List.mem_map.mp hn
  unfold tableCount
  rw [h m hm]
  rfl

end Init

variable {groups : List KVCacheSpec} {hashBlockSize : Nat}

/-- Whichever class `get_kv_cache_coordinator` chooses, the pool is fresh and the managers have
no table. -/
theorem getKvCacheCoordinator_eq_ok {numBlocks : Nat} {maxModelLen : Nat}
    {eagle caching events ints : Bool} {dcp pcp : ℕ+} {c : KVCacheCoordinator}
    (h : getKvCacheCoordinator numBlocks groups maxModelLen eagle caching events
      ints dcp pcp hashBlockSize = .ok c) :
    BlockPool.init numBlocks caching hashBlockSize events ints = .ok c.blockPool ∧
      c.singleTypeManagers = initManagers c.blockPool dcp pcp 0 groups ∧
      c.enableCaching = caching := by
  obtain ⟨pool, hpool, hrest⟩ := bind_ok h
  rw [hpool]
  split at hrest
  · cases hrest
    exact ⟨rfl, rfl, rfl⟩
  · split at hrest
    · obtain ⟨u, -, hret⟩ := bind_ok hrest
      cases hret
      exact ⟨rfl, rfl, rfl⟩
    · obtain ⟨u1, -, hrest⟩ := bind_ok hrest
      obtain ⟨u2, -, hrest⟩ := bind_ok hrest
      obtain ⟨u3, -, hrest⟩ := bind_ok hrest
      obtain ⟨gs, -, hret⟩ := bind_ok hrest
      cases hret
      exact ⟨rfl, rfl, rfl⟩

/-- A fresh coordinator: every block but the null block is free, no table holds a block. -/
theorem tableInv_init {numBlocks : Nat} {maxModelLen : Nat} {eagle caching events ints : Bool}
    {dcp pcp : ℕ+} {c : KVCacheCoordinator}
    (h : getKvCacheCoordinator numBlocks groups maxModelLen eagle caching events
      ints dcp pcp hashBlockSize = .ok c) :
    CoordInv c := by
  obtain ⟨hpool, hms, -⟩ := getKvCacheCoordinator_eq_ok h
  obtain ⟨hfree, -, -, hcnt, -⟩ := freeInv_init hpool
  obtain ⟨hall, -⟩ := initManagers_spec c.blockPool dcp pcp 0 groups
  rw [← hms] at hall
  have hempty : ∀ m ∈ c.singleTypeManagers, m.reqToBlocks = PyDict.empty :=
    fun m hm => (hall m hm).2
  refine ⟨_, hfree, poolAgree_init hpool, fun m hm => (hall m hm).1, ?_, ?_, ?_⟩
  · intro r _ _
    rw [hcnt r, holders_of_empty hempty r]
    rfl
  · intro m hm t ht
    rw [hempty m hm] at ht
    simp [PyDict.values, PyDict.empty] at ht
  · intro m hm t ht
    rw [hempty m hm] at ht
    simp [PyDict.values, PyDict.empty] at ht

section Step
variable {c c' : KVCacheCoordinator}

/-- An operation of one manager works on that manager and the pool. -/
theorem onManager_eq_ok {group : Nat}
    {f : SingleTypeKVCacheManager → BlockPool →
      Except PyError (SingleTypeKVCacheManager × BlockPool)}
    (h : onManager c group f = .ok c') :
    ∃ A m B m', c.singleTypeManagers = A ++ m :: B ∧ c.singleTypeManagers[group]? = some m ∧
      f m c.blockPool = .ok (m', c'.blockPool) ∧ c'.singleTypeManagers = A ++ m' :: B := by
  unfold onManager at h
  split at h
  · cases h
  · rename_i m hget
    obtain ⟨⟨m', pool⟩, hf, hret⟩ := bind_ok h
    cases hret
    obtain ⟨hlt, hm⟩ := List.getElem?_eq_some_iff.mp hget
    have hsplit : c.singleTypeManagers
        = c.singleTypeManagers.take group ++ m :: c.singleTypeManagers.drop (group + 1) := by
      rw [← hm, ← List.drop_eq_getElem_cons hlt, List.take_append_drop]
    refine ⟨_, m, _, m', hsplit, hget, hf, ?_⟩
    show c.singleTypeManagers.set group m' = _
    rw [List.set_eq_take_append_cons_drop, if_pos hlt]

/-- Every operation keeps the pool and the tables in agreement, when no prefix hit lists a
block twice. It gives the null block a hash only when `cache_blocks` reaches it. -/
theorem tableInv_step {op : KVOp} (h : CoordInv c) (hi : KVOpIssued c op)
    (hd : HitDistinct c op) (hstep : kvStep c op = .ok c') :
    CoordInv c' ∧ c'.blockPool.nullBlock = c.blockPool.nullBlock ∧
      (CachesNoNull c op → hashOf c.blockPool c.blockPool.nullBlock = none →
        hashOf c'.blockPool c.blockPool.nullBlock = none) := by
  obtain ⟨L, hL⟩ := h
  unfold kvStep at hstep
  cases op with
  | allocateNewComputedBlocks requestId lists =>
    obtain ⟨pool, htouch, hrest⟩ := bind_ok hstep
    obtain ⟨ms, hsave, hret⟩ := bind_ok hrest
    cases hret
    obtain ⟨hlen, hblocks⟩ := hi
    -- A block with a hash is a block of the pool.
    have hin : ∀ bs ∈ lists, ∀ b ∈ bs, InPool c.blockPool.numGpuBlocks b = true := by
      intro bs hbs b hb
      rcases hblocks bs hbs b hb with rfl | hhash
      · exact hL.free.null_inPool
      · obtain ⟨k, hk⟩ := Option.isSome_iff_exists.mp hhash
        exact inPool_iff.mpr (hL.agree.real b k hk)
    obtain ⟨hinv, hs⟩ := tableInv_touch_save hL hlen hin hd htouch hsave
    refine ⟨⟨_, hinv⟩, hs.nullBlock, fun _ hnone => ?_⟩
    show hashOf pool _ = none
    rw [hs.hash]
    exact hnone
  | allocateNewBlocks group requestId numTokens =>
    obtain ⟨A, m, B, m', hms, -, hf, hms'⟩ := onManager_eq_ok hstep
    obtain ⟨⟨X, m1, pool₁⟩, hrun, hret⟩ := bind_ok hf
    obtain ⟨rfl, hpool⟩ := Prod.mk.inj (Except.ok.inj hret)
    subst hpool
    rw [hms] at hL
    obtain ⟨hinv, -, hhash, hconf⟩ := tableInv_allocateNewBlocks hL hrun
    refine ⟨⟨_, hms' ▸ hinv⟩, (TableInv.of_conf_eq hconf).2, fun _ hnone => hhash _ hnone⟩
  | cacheBlocks group request numTokens =>
    obtain ⟨A, m, B, m', hms, hget, hf, hms'⟩ := onManager_eq_ok hstep
    rw [hms] at hL
    obtain ⟨hinv, hq, hout⟩ := tableInv_cacheBlocks hL hf
    refine ⟨⟨_, hms' ▸ hinv⟩, hq.nullBlock, fun hno hnone => ?_⟩
    rw [hout _ (hno m hget)]
    exact hnone
  | removeSkippedBlocks group requestId numComputedTokens =>
    obtain ⟨A, m, B, m', hms, -, hf, hms'⟩ := onManager_eq_ok hstep
    rw [hms] at hL
    obtain ⟨⟨L', hinv⟩, hs⟩ := tableInv_removeSkippedBlocks hL hf
    refine ⟨⟨_, hms' ▸ hinv⟩, hs.nullBlock, fun _ hnone => ?_⟩
    rw [hs.hash]
    exact hnone
  | free group requestId =>
    obtain ⟨A, m, B, m', hms, -, hf, hms'⟩ := onManager_eq_ok hstep
    rw [hms] at hL
    obtain ⟨⟨L', hinv⟩, hs⟩ := tableInv_free hL hf
    refine ⟨⟨_, hms' ▸ hinv⟩, hs.nullBlock, fun _ hnone => ?_⟩
    rw [hs.hash]
    exact hnone
  | evictBlocks ids =>
    obtain ⟨pool, hev, hret⟩ := bind_ok hstep
    cases hret
    obtain ⟨hq, hagree, hhash⟩ := evictBlocks_spec hL.agree hev
    refine ⟨⟨L, hL.of_sameQueue hq hagree⟩, hq.nullBlock, fun _ hnone => ?_⟩
    rcases hhash c.blockPool.nullBlock with hr | hr
    · exact hr.trans hnone
    · exact hr
  | resetPrefixCache =>
    cases hstep
    obtain ⟨hq, hagree, hhash⟩ := resetPrefixCache_spec hL.agree
    refine ⟨⟨L, hL.of_sameQueue hq hagree⟩, hq.nullBlock, fun _ hnone => ?_⟩
    rcases hhash c.blockPool.nullBlock with hr | hr
    · exact hr.trans hnone
    · exact hr

end Step

/-- The blocks met from the fake head to the fake tail. A walk of more blocks than the pool
has would never end. -/
def freeWalk (p : BlockPool) : List BlockRef :=
  walk p.freeBlockQueue.next .fakeTail (p.numGpuBlocks + 1) .fakeHead

/-- The blocks met from the fake tail back to the fake head. -/
def freeWalkBack (p : BlockPool) : List BlockRef :=
  walk p.freeBlockQueue.prev .fakeHead (p.numGpuBlocks + 1) .fakeTail

/-- Every block of the pool is free or held, and the two are told apart everywhere alike. -/
structure Partitioned (c : KVCacheCoordinator) : Prop where
  /-- A block is free, without a reference and once in the free list, or it is held, not in
  the free list and counted once for each place of a table that holds it. -/
  block : ∀ i, i < c.blockPool.numGpuBlocks → .block i ≠ c.blockPool.nullBlock →
    ((c.blockPool.deref (.block i)).refCnt = 0 ∧
        (freeWalk c.blockPool).count (.block i) = 1) ∨
      (0 < (c.blockPool.deref (.block i)).refCnt ∧ .block i ∉ freeWalk c.blockPool ∧
        (c.blockPool.deref (.block i)).refCnt = holders c.singleTypeManagers (.block i))
  /-- The links of the free list agree in both directions, from one fake end to the other. -/
  chain : DList c.blockPool.freeBlockQueue.next c.blockPool.freeBlockQueue.prev
    (.fakeHead :: freeWalk c.blockPool ++ [.fakeTail])
  /-- The counter of the free list is its length. -/
  count : c.blockPool.freeBlockQueue.numFreeBlocks = (freeWalk c.blockPool).length
  /-- Walking backwards meets the same blocks in reverse. -/
  back : freeWalkBack c.blockPool = (freeWalk c.blockPool).reverse
  /-- The null block is not in the free list. -/
  null_not_free : c.blockPool.nullBlock ∉ freeWalk c.blockPool
  /-- The null block is not in the hash map, under any key. -/
  null_not_cached : ∀ k,
    c.blockPool.nullBlock ∉ collection c.blockPool.cachedBlockHashToBlock k

section Partition
variable {c : KVCacheCoordinator} {L : List BlockRef}

variable {p : BlockPool}

theorem length_free_le (h : FreeInv p L) : L.length ≤ p.numGpuBlocks := by
  have hsub : L ⊆ (List.range p.numGpuBlocks).map BlockRef.block := by
    intro r hr
    obtain ⟨i, hi, rfl⟩ := inPool_iff.mp ((h.mem_iff r).mp hr).1
    exact List.mem_map.mpr ⟨i, List.mem_range.mpr hi, rfl⟩
  have hle := h.list.nodup_list.length_le_of_subset hsub
  simpa using hle

/-- The walk along the free list meets exactly the blocks it holds. -/
theorem freeWalk_eq (h : FreeInv p L) : freeWalk p = L :=
  h.list.walk_next (Nat.lt_succ_of_le (length_free_le h))

theorem freeWalkBack_eq (h : FreeInv p L) : freeWalkBack p = L.reverse :=
  h.list.walk_prev (Nat.lt_succ_of_le (length_free_le h))

/-- The agreement of the pool and the tables, in terms of the pointers and the map. -/
theorem partitioned_of_inv (h : CoordInv c)
    (hnull : hashOf c.blockPool c.blockPool.nullBlock = none) : Partitioned c := by
  obtain ⟨L, hL⟩ := h
  have hwalk := freeWalk_eq hL.free
  refine ⟨?_, ?_, ?_, ?_, ?_, ?_⟩
  · intro i hi hne
    have hin : InPool c.blockPool.numGpuBlocks (.block i) = true := inPool_iff.mpr ⟨i, hi, rfl⟩
    have hmem := hL.free.mem_iff (.block i)
    have hnonneg := hL.free.nonneg _ hin hne
    rw [hwalk]
    by_cases h0 : refCntOf c.blockPool (.block i) = 0
    · left
      exact ⟨h0, List.count_eq_one_of_mem hL.free.list.nodup_list (hmem.mpr ⟨hin, hne, h0⟩)⟩
    · right
      have hpos : 0 < refCntOf c.blockPool (.block i) := by omega
      exact ⟨hpos, fun hin' => h0 (hmem.mp hin').2.2, hL.refCnt _ hin hne⟩
  · rw [hwalk]
    exact hL.free.list.chain
  · rw [hwalk]
    exact hL.free.list.count
  · rw [hwalk, freeWalkBack_eq hL.free]
  · rw [hwalk]
    exact fun hmem => ((hL.free.mem_iff _).mp hmem).2.1 rfl
  · intro k hmem
    have hholds := (mem_collection_iff_holds hL.agree _ k).mp hmem
    have hsome := (hL.agree.holds_iff _ k).mpr hholds
    rw [hnull] at hsome
    cases hsome

end Partition

/-- In every state of a run in which no prefix hit lists a block twice and no call of
`cache_blocks` reaches a null entry, every block of the pool is free or held. -/
theorem partitioned_of_run {numBlocks : Nat} {groups : List KVCacheSpec} {maxModelLen : Nat}
    {eagle caching events ints : Bool} {dcp pcp : ℕ+} {hashBlockSize : Nat}
    {c₀ c : KVCacheCoordinator}
    (hinit : getKvCacheCoordinator numBlocks groups maxModelLen eagle caching
      events ints dcp pcp hashBlockSize = .ok c₀)
    (hrun : Run kvStep (fun c op => KVOpIssued c op ∧ HitDistinct c op ∧ CachesNoNull c op)
      c₀ c) : Partitioned c := by
  have hstart : CoordInv c₀ ∧ hashOf c₀.blockPool c₀.blockPool.nullBlock = none := by
    refine ⟨tableInv_init hinit, ?_⟩
    obtain ⟨hpool, -, -⟩ := getKvCacheCoordinator_eq_ok hinit
    exact hashOf_init hpool _
  have hinv : CoordInv c ∧ hashOf c.blockPool c.blockPool.nullBlock = none := by
    refine hrun.invariant (fun c => CoordInv c ∧
      hashOf c.blockPool c.blockPool.nullBlock = none) hstart ?_
    rintro c op c' ⟨h, hnone⟩ ⟨hi, hd, hno⟩ hstep
    obtain ⟨h', hnb, hkeep⟩ := tableInv_step h hi hd hstep
    refine ⟨h', ?_⟩
    rw [hnb]
    exact hkeep hno hnone
  exact partitioned_of_inv hinv.1 hinv.2

/-- Two requests share a prefix of two blocks through a sliding window group: the second one
takes them from the free list, and drops the first one again when it leaves the window. -/
theorem partitioned_shared_prefix : ∃ c₀ c : KVCacheCoordinator,
    getKvCacheCoordinator 6 [.slidingWindow 2 3] 100 false true false false 1 1 2 = .ok c₀ ∧
      Run kvStep (fun c op => KVOpIssued c op ∧ HitDistinct c op ∧ CachesNoNull c op) c₀ c ∧
      c.getBlocks "b" = [[.block 0, .block 2, .block 3]] ∧ Partitioned c := by
  obtain ⟨c₀, c, hinit, hrun, hblocks⟩ := exists_run_of_check kvStep
    (fun c op => KVOpIssued c op ∧ HitDistinct c op ∧ CachesNoNull c op)
    (fun c => c.getBlocks "b" = [[.block 0, .block 2, .block 3]])
    (getKvCacheCoordinator 6 [.slidingWindow 2 3] 100 false true false false 1 1 2)
    [.allocateNewBlocks 0 "a" 4,
      .cacheBlocks 0 { requestId := "a", blockHashes := [[1], [2]] } 4,
      .free 0 "a",
      .allocateNewComputedBlocks "b" [[.block 1, .block 2]],
      .allocateNewBlocks 0 "b" 5,
      .removeSkippedBlocks 0 "b" 5] (by decide +kernel)
  exact ⟨c₀, c, hinit, hrun, hblocks, partitioned_of_run hinit hrun⟩

/-- The condition on `cache_blocks` is needed. A chunked-local group with blocks and chunks of
two tokens: a request of three tokens is scheduled with two draft tokens, both are accepted,
and the block that the draft tokens filled is dropped before it is cached. -/
theorem null_block_cached : ¬ ∀ (numBlocks : Nat) (groups : List KVCacheSpec)
    (maxModelLen : Nat) (eagle caching events ints : Bool) (dcp pcp : ℕ+) (hashBlockSize : Nat)
    (c₀ c : KVCacheCoordinator),
    getKvCacheCoordinator numBlocks groups maxModelLen eagle caching events
      ints dcp pcp hashBlockSize = .ok c₀ →
    Run kvStep KVOpIssued c₀ c → Partitioned c := by
  intro hall
  obtain ⟨c₀, c, hinit, hrun, hcached⟩ := exists_run_of_check kvStep KVOpIssued
    (fun c => c.blockPool.nullBlock ∈
      collection c.blockPool.cachedBlockHashToBlock (makeBlockHashWithGroupId [2] 0))
    (getKvCacheCoordinator 6 [.chunkedLocalAttention 2 2] 100 false true false false 1 1 2)
    [ -- The prompt of two tokens.
      .allocateNewBlocks 0 "a" 2,
      .cacheBlocks 0 { requestId := "a", blockHashes := [[1]] } 2,
      -- Three tokens, two of them computed, and two draft tokens.
      .removeSkippedBlocks 0 "a" 2,
      .allocateNewBlocks 0 "a" 5,
      .cacheBlocks 0 { requestId := "a", blockHashes := [[1]] } 3,
      -- Both draft tokens were accepted: six tokens, five of them computed.
      .removeSkippedBlocks 0 "a" 5,
      .allocateNewBlocks 0 "a" 6,
      .cacheBlocks 0 { requestId := "a", blockHashes := [[1], [2], [3]] } 6]
    (by decide +kernel)
  have hpart := hall 6 [.chunkedLocalAttention 2 2] 100 false true false false 1 1 2 c₀ c hinit
    hrun
  exact hpart.null_not_cached _ hcached

end Vllm.Proofs.Core
