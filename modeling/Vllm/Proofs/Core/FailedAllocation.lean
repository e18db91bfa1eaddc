import Vllm.Proofs.Core.EmptyEntries
import Vllm.Proofs.Core.Window

/-!
# `Vllm.Proofs.Core.FailedAllocation`: a call of `allocate_slots` that returns `None`

Before it can fail, `allocate_slots` has freed the blocks that the window of the request has
passed, and `get_num_blocks_to_allocate` has read the table of the request in every group. The
first is what the call may do. The second leaves an empty entry behind for a request that has
none, and `get_num_common_prefix_blocks` compares reference counts with the number of entries.

* `SkippedOnly`: what the call may change in one group.
* `Harmless`: what it may change at all, including what later calls can tell.
* `harmless_iff`: a call that returns `None` is harmless exactly when the request already has
  an entry in every full attention group.
* `commonPrefix_lost`: otherwise a prefix that all requests share is not found again.
-/

set_option autoImplicit false

namespace Vllm.Proofs.Core

open Vllm.Lib Vllm.V1 Vllm.V1.Core List
open Vllm.V1.Core.BlockPool Vllm.V1.Core.KVCacheCoordinator

/-! ### What the call may change -/

/-- Place `p` of a table of blocks with `B` tokens lies before the window of the token at
position `numComputedTokens`, and so before the windows of all later tokens. -/
def BeforeWindow (spec : KVCacheSpec) (B : ℕ+) (numComputedTokens : Int) (p : Nat) : Prop :=
  ∀ q t : Int, numComputedTokens ≤ q → t < ((p : Int) + 1) * (B : Nat) → ¬ InWindow spec q t

/-- A group is as before, but places of the table of the request that lie before its window
may be null now. -/
structure SkippedOnly (requestId : String) (numComputedTokens : Int)
    (m m' : SingleTypeKVCacheManager) : Prop where
  spec : KeepsSpec m m'
  numCachedBlock : m'.numCachedBlock = m.numCachedBlock
  others : ∀ otherId, otherId ≠ requestId → m'.table otherId = m.table otherId
  length : (m'.table requestId).length = (m.table requestId).length
  place : ∀ p : Nat, (m'.table requestId)[p]? = (m.table requestId)[p]? ∨
    ((m'.table requestId)[p]? = some m.nullBlock ∧
      BeforeWindow m.kvCacheSpec m.blockSize numComputedTokens p)

/-- A block that a place of the table of the request no longer has. -/
def Dropped (requestId : String) (ms ms' : List SingleTypeKVCacheManager)
    (block : BlockRef) : Prop :=
  ∃ x ∈ ms.zip ms', ∃ p : Nat, (x.1.table requestId)[p]? = some block ∧
    (x.2.table requestId)[p]? ≠ some block

/-- What a call for `request` may do to the state `k`:

* `tables`: in every group only places before the window have changed;
* `pool`, `refCnt`, `numFreeBlocks`: the hashes and the hash map are the same, a block keeps its
  reference count unless it was dropped, and no free block was taken;
* `counted`: full attention groups count as many requests as before;
* `later`: no sequence of later calls can tell the state from the one in which only the
  skipped blocks were freed. -/
structure Harmless (k k' : KVCacheManager) (request : Request) : Prop where
  tables : List.Forall₂ (SkippedOnly request.requestId request.numComputedTokens)
    k.coordinator.singleTypeManagers k'.coordinator.singleTypeManagers
  pool : SameHash k.coordinator.blockPool k'.coordinator.blockPool
  refCnt : ∀ block, ¬ Dropped request.requestId k.coordinator.singleTypeManagers
      k'.coordinator.singleTypeManagers block →
    refCntOf k'.coordinator.blockPool block = refCntOf k.coordinator.blockPool block
  numFreeBlocks : k.coordinator.blockPool.getNumFreeBlocks ≤
    k'.coordinator.blockPool.getNumFreeBlocks
  counted : List.Forall₂ (fun m m' : SingleTypeKVCacheManager =>
      m.kvCacheSpec.isFullAttention = true → m'.reqToBlocks.size = m.reqToBlocks.size)
    k.coordinator.singleTypeManagers k'.coordinator.singleTypeManagers
  later : ∃ c, k.coordinator.removeSkippedBlocks request.requestId request.numComputedTokens =
      .ok c ∧
    ∀ calls, transcript managerCall { k with coordinator := c } calls =
      transcript managerCall k' calls

/-! ### Freeing the skipped blocks -/

section Skip

theorem numFreeBlocks_appendNLoop (X : List BlockRef) (last : BlockRef)
    (q : FreeKVCacheBlockQueue) :
    (FreeKVCacheBlockQueue.appendNLoop X last q).2.numFreeBlocks = q.numFreeBlocks := by
  induction X generalizing q last with
  | nil => rfl
  | cons x X ih => exact ih x _

/-- `free_blocks`, whatever state the free list is in. -/
theorem freeBlocks_counts {p p' : BlockPool} {bs : List BlockRef} (h : p.freeBlocks bs = .ok p') :
    (∀ r, refCntOf p' r = refCntOf p r - bs.count r) ∧
      p.getNumFreeBlocks ≤ p'.getNumFreeBlocks := by
  obtain ⟨hr, -, -, hnum⟩ := decRefCnts_spec (p := p) bs
  obtain ⟨q, hq, hret⟩ := bind_ok h
  cases hret
  refine ⟨fun r => ?_, ?_⟩
  · rw [refCntOf_withQueue _ (sameData_appendN hq)]
    exact hr r
  · show p.freeBlockQueue.numFreeBlocks ≤ q.numFreeBlocks
    rw [← hnum]
    unfold FreeKVCacheBlockQueue.appendN at hq
    split at hq
    · cases hq
      exact Int.le_refl _
    · split at hq
      · cases hq
      · rename_i last _
        cases hq
        have hloop := numFreeBlocks_appendNLoop
          (bs.filter fun b => ((p.decRefCnts bs).deref b).refCnt = 0 ∧
            ((p.decRefCnts bs).deref b).isNull = false) last (p.decRefCnts bs).freeBlockQueue
        simp only [numFreeBlocks_setNext, numFreeBlocks_setPrev, hloop]
        omega

variable {m m' : SingleTypeKVCacheManager} {pool pool' : BlockPool} {requestId : String}
  {numComputedTokens : Int}

theorem SkippedOnly.refl (m : SingleTypeKVCacheManager) :
    SkippedOnly requestId numComputedTokens m m :=
  ⟨KeepsSpec.refl m, rfl, fun _ _ => rfl, rfl, fun _ => .inl rfl⟩

/-- The places below the number of skipped blocks lie before the window. -/
theorem beforeWindow_of_lt {p : Nat}
    (h : p < (Int.fdiv (m.getNumSkippedTokens numComputedTokens) m.blockSize).toNat) :
    BeforeWindow m.kvCacheSpec m.blockSize numComputedTokens p := by
  intro q t hq ht hwindow
  have hB : (0 : Int) < (m.blockSize : Nat) := by exact_mod_cast m.blockSize.pos
  have hmono := windowStart_mono m.kvCacheSpec hq
  rw [← getNumSkippedTokens_eq] at hmono
  rw [Int.fdiv_eq_ediv_of_nonneg _ hB.le] at h
  -- The block at this place ends at or before the first token that is not skipped.
  have hend : ((p : Int) + 1) * (m.blockSize : Nat) ≤ m.getNumSkippedTokens numComputedTokens := by
    have hdiv : (p : Int) + 1 ≤
        m.getNumSkippedTokens numComputedTokens / (m.blockSize : Nat) := by omega
    exact (Int.mul_le_mul_of_nonneg_right hdiv hB.le).trans (Int.ediv_mul_le _ hB.ne')
  have hstart := hwindow.1
  omega

/-- A group of the same kind, the same manager when it has full attention. -/
structure FullKept (m m' : SingleTypeKVCacheManager) : Prop where
  spec : m'.kvCacheSpec = m.kvCacheSpec
  full : m.kvCacheSpec.isFullAttention = true → m' = m

/-- `remove_skipped_blocks` on one group: the places it overwrites, and the reference counts
of the blocks that stay. -/
theorem removeSkippedBlocks_skippedOnly
    (h : m.removeSkippedBlocks pool requestId numComputedTokens = .ok (m', pool')) :
    SkippedOnly requestId numComputedTokens m m' ∧ SameHash pool pool' ∧
      pool.getNumFreeBlocks ≤ pool'.getNumFreeBlocks ∧
      (∀ block, (∀ p : Nat, (m.table requestId)[p]? = some block →
          (m'.table requestId)[p]? = some block) →
        refCntOf pool' block = refCntOf pool block) ∧
      FullKept m m' := by
  rcases removeSkippedBlocks_eq_ok h with ⟨-, rfl, rfl⟩ |
    ⟨hpos, blocks', P, Y, Q, -, hsk, hfree, rfl⟩
  · exact ⟨SkippedOnly.refl _, SameHash.refl _, Int.le_refl _, fun _ _ => rfl, rfl,
      fun _ => rfl⟩
  · obtain ⟨hcount, hnum⟩ := freeBlocks_counts hfree
    have htable : ((m.reqBlocks requestId).2.setTable requestId blocks').table requestId =
        blocks' := table_setTable _ _ _
    have hYlt : ∀ {p}, P.length ≤ p → p < P.length + Y.length →
        blocks'[p]? = some m.nullBlock := by
      intro p hle hlt
      rw [hsk.result, append_assoc, getElem?_append_right hle,
        getElem?_append_left (by rw [length_replicate]; omega),
        getElem?_replicate, if_pos (by omega)]
    refine ⟨⟨⟨rfl, rfl, rfl⟩, rfl, fun otherId hne => ?_, ?_, fun p => ?_⟩,
      sameHash_freeBlocks hfree, hnum, fun block hstay => ?_, rfl, fun hfull => ?_⟩
    · rw [table_setTable_of_ne _ _ hne, table_reqBlocks]
    · rw [htable, hsk.result, hsk.split]
      simp
    · rw [htable]
      by_cases hY : P.length ≤ p ∧ p < P.length + Y.length
      · refine .inr ⟨hYlt hY.1 hY.2, beforeWindow_of_lt ?_⟩
        rw [← hsk.length_eq, length_append]
        exact hY.2
      · -- A place outside the removed blocks keeps its block.
        left
        rw [hsk.result, hsk.split]
        by_cases hp : p < P.length
        · rw [append_assoc, append_assoc, getElem?_append_left hp,
            getElem?_append_left hp]
        · rw [getElem?_append_right (by simp; omega),
            getElem?_append_right (by simp; omega)]
          simp
    · rw [hcount block, count_reverse]
      have hnot : block ∉ Y := by
        intro hmem
        obtain ⟨i, hi, hget⟩ := getElem_of_mem hmem
        have hbefore : (m.table requestId)[P.length + i]? = some block := by
          rw [hsk.split, append_assoc, getElem?_append_right (by omega),
            getElem?_append_left (by omega), Nat.add_sub_cancel_left,
            getElem?_eq_getElem hi, hget]
        have hafter := hstay _ hbefore
        rw [htable, hYlt (by omega) (by omega)] at hafter
        exact hsk.ne_null block hmem (Option.some.inj hafter).symm
      rw [count_eq_zero.mpr hnot]
      simp
    · -- A full attention group skips nothing.
      unfold SingleTypeKVCacheManager.getNumSkippedTokens at hpos
      unfold KVCacheSpec.isFullAttention at hfull
      split at hpos <;> simp_all

/-- `remove_skipped_blocks` on all groups. -/
theorem removeSkippedAll_skippedOnly {ms ms' : List SingleTypeKVCacheManager}
    (h : forManagers (fun m pool => m.removeSkippedBlocks pool requestId numComputedTokens)
      ms pool = .ok (ms', pool')) :
    List.Forall₂ (SkippedOnly requestId numComputedTokens) ms ms' ∧ SameHash pool pool' ∧
      pool.getNumFreeBlocks ≤ pool'.getNumFreeBlocks ∧
      (∀ block, ¬ Dropped requestId ms ms' block →
        refCntOf pool' block = refCntOf pool block) ∧
      List.Forall₂ FullKept ms ms' := by
  induction ms generalizing pool ms' with
  | nil =>
    cases h
    exact ⟨.nil, SameHash.refl _, Int.le_refl _, fun _ _ => rfl, .nil⟩
  | cons m ms ih =>
    obtain ⟨⟨m1, pool₁⟩, hone, hrest⟩ := bind_ok h
    obtain ⟨⟨ms1, pool₂⟩, hall, hret⟩ := bind_ok hrest
    cases hret
    obtain ⟨hskip, hsame, hnum, hcount, hfull⟩ := removeSkippedBlocks_skippedOnly hone
    obtain ⟨hskips, hsame', hnum', hcount', hfulls⟩ := ih hall
    refine ⟨.cons hskip hskips, hsame.trans hsame', hnum.trans hnum', fun block hnot => ?_,
      .cons hfull hfulls⟩
    -- A block that is dropped in no group is dropped neither in the first nor in the rest.
    have hhead : ∀ p : Nat, (m.table requestId)[p]? = some block →
        (m1.table requestId)[p]? = some block := by
      intro p hp
      by_contra hne
      exact hnot ⟨(m, m1), mem_cons_self, p, hp, hne⟩
    have htail : ¬ Dropped requestId ms ms1 block := by
      rintro ⟨x, hx, p, hp, hne⟩
      exact hnot ⟨x, mem_cons_of_mem _ hx, p, hp, hne⟩
    rw [hcount' block htail, hcount block hhead]

end Skip

/-! ### The call that fails -/

section Fail
variable {k k' : KVCacheManager} {request : Request}

/-- The loop of `get_num_blocks_to_allocate` reads the table of the request in every group. -/
theorem sumBlocksToAllocate_managers {pool : BlockPool} {requestId : String}
    {numTokens numEncoderTokens n : Int} {ms ms' : List SingleTypeKVCacheManager}
    {hits : List (List BlockRef)}
    (h : sumBlocksToAllocate pool requestId numTokens numEncoderTokens ms hits = .ok (n, ms')) :
    ms' = ms.map fun m => (m.reqBlocks requestId).2 := by
  induction ms generalizing hits n ms' with
  | nil => exact (Prod.mk.inj (Except.ok.inj h)).2.symm
  | cons m ms ih =>
    unfold sumBlocksToAllocate at h
    obtain ⟨⟨n1, m1⟩, hone, hrest⟩ := bind_ok h
    obtain ⟨⟨n2, ms1⟩, hall, hret⟩ := bind_ok hrest
    cases hret
    have hm1 : m1 = (m.reqBlocks requestId).2 := by
      split at hone
      · exact (Prod.mk.inj (Except.ok.inj hone)).2.symm
      · split at hone
        · cases hone
        · exact (Prod.mk.inj (Except.ok.inj hone)).2.symm
    rw [hm1, ih hall, map_cons]

/-- A call that returns `None` has freed the skipped blocks and read the tables. -/
theorem allocateSlots_eq_none {numNewTokens numNewComputedTokens : Int}
    {newComputedBlocks : Option KVCacheBlocks} {numLookaheadTokens numEncoderTokens : Int}
    {delayCacheBlocks : Bool}
    (h : k.allocateSlots request numNewTokens numNewComputedTokens newComputedBlocks
      numLookaheadTokens delayCacheBlocks numEncoderTokens = .ok (none, k')) :
    ∃ c, k.coordinator.removeSkippedBlocks request.requestId request.numComputedTokens = .ok c ∧
      k' = { k with
        coordinator := { c with
          singleTypeManagers :=
            c.singleTypeManagers.map fun m => (m.reqBlocks request.requestId).2 } } := by
  unfold KVCacheManager.allocateSlots at h
  split at h
  · cases h
  · obtain ⟨c, hskip, h⟩ := bind_ok h
    obtain ⟨⟨n, c1⟩, hsum, h⟩ := bind_ok h
    obtain ⟨⟨n1, ms⟩, hall, hret⟩ := bind_ok hsum
    cases hret
    refine ⟨c, hskip, ?_⟩
    dsimp only at h
    split at h
    · rw [← sumBlocksToAllocate_managers hall]
      exact (Prod.mk.inj (Except.ok.inj h)).2.symm
    · obtain ⟨x, -, hret⟩ := bind_ok h
      cases (Prod.mk.inj (Except.ok.inj hret)).1

theorem reqBlocks_of_contains {m : SingleTypeKVCacheManager} {requestId : String}
    (h : m.reqToBlocks.contains requestId = true) : (m.reqBlocks requestId).2 = m := by
  obtain ⟨blocks, hget⟩ := Option.isSome_iff_exists.mp h
  have htable : m.table requestId = blocks := by
    unfold SingleTypeKVCacheManager.table
    rw [hget]
    rfl
  show m.setTable requestId (m.table requestId) = m
  unfold SingleTypeKVCacheManager.setTable
  rw [htable, PyDict.insert_of_get? hget]

/-- An entry that was read for the first time is counted. -/
theorem size_reqBlocks_of_not_contains {m : SingleTypeKVCacheManager} {requestId : String}
    (h : m.reqToBlocks.contains requestId = false) :
    (m.reqBlocks requestId).2.reqToBlocks.size = m.reqToBlocks.size + 1 := by
  show (m.reqToBlocks.insert requestId _).size = _
  rw [PyDict.size_insert, h]
  rfl

theorem SkippedOnly.reqBlocks {m m' : SingleTypeKVCacheManager} {requestId : String}
    {numComputedTokens : Int} (h : SkippedOnly requestId numComputedTokens m m') :
    SkippedOnly requestId numComputedTokens m (m'.reqBlocks requestId).2 where
  __ := h
  spec := ⟨h.spec.kvCacheSpec, h.spec.blockSize, h.spec.nullBlock⟩
  others otherId hne := by rw [table_reqBlocks, h.others otherId hne]
  length := by rw [table_reqBlocks, h.length]
  place p := by
    rw [table_reqBlocks]
    exact h.place p

section Entries
variable {ms ms' : List SingleTypeKVCacheManager} {requestId : String}

/-- The full attention groups count as many requests as before exactly when the request had
an entry in each of them. -/
theorem counted_iff (h : List.Forall₂ FullKept ms ms') :
    List.Forall₂ (fun m m' : SingleTypeKVCacheManager =>
        m.kvCacheSpec.isFullAttention = true → m'.reqToBlocks.size = m.reqToBlocks.size)
      ms (ms'.map fun m => (m.reqBlocks requestId).2) ↔
    ∀ m ∈ ms, m.kvCacheSpec.isFullAttention = true →
      m.reqToBlocks.contains requestId = true := by
  induction h with
  | nil => simp
  | @cons m m' ms ms' hm _ ih =>
    have hhead : (m.kvCacheSpec.isFullAttention = true →
          (m'.reqBlocks requestId).2.reqToBlocks.size = m.reqToBlocks.size) ↔
        (m.kvCacheSpec.isFullAttention = true →
          m.reqToBlocks.contains requestId = true) := by
      refine imp_congr_right fun hfull => ?_
      rw [hm.full hfull]
      cases hcontains : m.reqToBlocks.contains requestId with
      | true => simp [reqBlocks_of_contains hcontains]
      | false => simp [size_reqBlocks_of_not_contains hcontains]
    rw [map_cons, forall₂_cons, ih, hhead, forall_mem_cons]

/-- Then reading the table of the request shows to no caller. -/
theorem sameTables_reqBlocks (h : List.Forall₂ FullKept ms ms')
    (hentry : ∀ m ∈ ms, m.kvCacheSpec.isFullAttention = true →
      m.reqToBlocks.contains requestId = true) :
    List.Forall₂ SameTables ms' (ms'.map fun m => (m.reqBlocks requestId).2) := by
  induction h with
  | nil => exact .nil
  | @cons m m' ms ms' hm _ ih =>
    refine .cons (SameTables.of_reqBlocks m' requestId fun hfull => ?_)
      (ih fun m1 hm1 => hentry m1 (mem_cons_of_mem _ hm1))
    rw [hm.spec] at hfull
    rw [hm.full hfull]
    exact reqBlocks_of_contains (hentry m mem_cons_self hfull)

end Entries

theorem dropped_map_reqBlocks {requestId : String} {ms ms' : List SingleTypeKVCacheManager}
    {block : BlockRef} (h : Dropped requestId ms ms' block) :
    Dropped requestId ms (ms'.map fun m => (m.reqBlocks requestId).2) block := by
  obtain ⟨⟨m, m'⟩, hx, p, hp, hne⟩ := h
  refine ⟨(m, (m'.reqBlocks requestId).2), ?_, p, hp, ?_⟩
  · rw [zip_map_right]
    exact mem_map_of_mem hx
  · rw [table_reqBlocks]
    exact hne

/-- A harmless call was for a request with an entry in every full attention group. -/
theorem entry_of_harmless {c : KVCacheCoordinator}
    (hskip : k.coordinator.removeSkippedBlocks request.requestId request.numComputedTokens = .ok c)
    (hk' : k' = { k with
      coordinator := { c with
        singleTypeManagers :=
          c.singleTypeManagers.map fun m => (m.reqBlocks request.requestId).2 } })
    (h : Harmless k k' request) :
    ∀ m ∈ k.coordinator.singleTypeManagers, m.kvCacheSpec.isFullAttention = true →
      m.reqToBlocks.contains request.requestId = true := by
  obtain ⟨⟨ms, pool⟩, hall, hret⟩ := bind_ok hskip
  cases hret
  obtain ⟨-, -, -, -, hfulls⟩ := removeSkippedAll_skippedOnly hall
  subst hk'
  exact (counted_iff hfulls).mp h.counted

/-- A call of `allocate_slots` that returns `None`, in any state: it is harmless exactly when
the request already has an entry in every full attention group. -/
theorem harmless_iff {numNewTokens numNewComputedTokens : Int}
    {newComputedBlocks : Option KVCacheBlocks} {numLookaheadTokens numEncoderTokens : Int}
    {delayCacheBlocks : Bool}
    (h : k.allocateSlots request numNewTokens numNewComputedTokens newComputedBlocks
      numLookaheadTokens delayCacheBlocks numEncoderTokens = .ok (none, k')) :
    Harmless k k' request ↔
      ∀ m ∈ k.coordinator.singleTypeManagers, m.kvCacheSpec.isFullAttention = true →
        m.reqToBlocks.contains request.requestId = true := by
  obtain ⟨c, hskip, hk'⟩ := allocateSlots_eq_none h
  refine ⟨entry_of_harmless hskip hk', fun hentry => ?_⟩
  obtain ⟨⟨ms, pool⟩, hall, hret⟩ := bind_ok hskip
  cases hret
  obtain ⟨hskips, hsame, hnum, hcount, hfulls⟩ := removeSkippedAll_skippedOnly hall
  subst hk'
  exact {
    tables := List.forall₂_map_right_iff.mpr (hskips.imp fun _ _ hm => hm.reqBlocks)
    pool := hsame
    refCnt := fun block hnot => hcount block (mt dropped_map_reqBlocks hnot)
    numFreeBlocks := hnum
    counted := (counted_iff hfulls).mpr hentry
    later := ⟨_, hskip, transcript_of_sameTables (sameTables_reqBlocks hfulls hentry)⟩ }

end Fail

/-! ### One request runs, another does not fit -/

/-- One full attention group with blocks of two tokens, four blocks of which one is the null
block, prefix caching on. -/
def smallCacheInit : Except PyError KVCacheManager :=
  KVCacheManager.init 4 [.fullAttention 2] 16 2 true false false false 1 1

/-- The manager of that cache. -/
def smallCache : KVCacheManager := smallCacheInit.toOption.get (by decide +kernel)

/-- A request with a prompt of one token. -/
def fittingRequest : Request :=
  { requestId := "a"
    promptTokenIds := some [1]
    numPromptTokens := 1
    allTokenIds := [1] }

/-- That request after its first step, with seven generated tokens still to be computed. -/
def grownRequest : Request :=
  { fittingRequest with
    outputTokenIds := [2, 3, 4, 5, 6, 7, 8]
    allTokenIds := [1, 2, 3, 4, 5, 6, 7, 8]
    numComputedTokens := 1 }

/-- A request with a prompt of eight tokens, which is more than the cache holds. -/
def largeRequest : Request :=
  { requestId := "b"
    promptTokenIds := some [1, 2, 3, 4, 5, 6, 7, 8]
    numPromptTokens := 8
    allTokenIds := [1, 2, 3, 4, 5, 6, 7, 8] }

/-- The result of a call that does not raise. -/
def resultOf (call : Except PyError (Option KVCacheBlocks × KVCacheManager))
    (h : call.toOption.isSome = true) : Option KVCacheBlocks × KVCacheManager :=
  call.toOption.get h

theorem resultOf_spec (call : Except PyError (Option KVCacheBlocks × KVCacheManager))
    (h : call.toOption.isSome = true) : call = .ok (resultOf call h) := by
  cases call with
  | error e => cases h
  | ok x => rfl

/-- The first request got its block. -/
def oneRunning : KVCacheManager :=
  (resultOf (smallCache.allocateSlots fittingRequest 1 0 none 0 false 0) (by decide +kernel)).2

/-- Then the request that does not fit was refused. -/
def oneRefused : KVCacheManager :=
  (resultOf (oneRunning.allocateSlots largeRequest 8 0 none 0 false 0) (by decide +kernel)).2

theorem oneRunning_spec : smallCacheInit = .ok smallCache ∧
      ∃ blocks, smallCache.allocateSlots fittingRequest 1 0 none 0 false 0 =
        .ok (some blocks, oneRunning) := by
  refine ⟨rfl, ?_⟩
  have hsome : (resultOf (smallCache.allocateSlots fittingRequest 1 0 none 0 false 0)
      (by decide +kernel)).1.isSome = true := by decide +kernel
  obtain ⟨blocks, hblocks⟩ := Option.isSome_iff_exists.mp hsome
  refine ⟨blocks, (resultOf_spec _ (by decide +kernel)).trans ?_⟩
  exact congrArg Except.ok (Prod.ext hblocks rfl)

/-- The request that does not fit leaves an entry behind. The block of the other request was
common to all requests and is not found any more. -/
theorem commonPrefix_lost : (smallCacheInit = .ok smallCache ∧
      ∃ blocks, smallCache.allocateSlots fittingRequest 1 0 none 0 false 0 =
        .ok (some blocks, oneRunning)) ∧
    oneRunning.allocateSlots largeRequest 8 0 none 0 false 0 = .ok (none, oneRefused) ∧
    (oneRunning.getNumCommonPrefixBlocks "a").1 = [1] ∧
    (oneRefused.getNumCommonPrefixBlocks "a").1 = [0] ∧
    ¬ Harmless oneRunning oneRefused largeRequest := by
  have hcall : oneRunning.allocateSlots largeRequest 8 0 none 0 false 0 =
      .ok (none, oneRefused) := by
    have hnone : (resultOf (oneRunning.allocateSlots largeRequest 8 0 none 0 false 0)
        (by decide +kernel)).1.isNone = true := by decide +kernel
    refine (resultOf_spec _ (by decide +kernel)).trans ?_
    exact congrArg Except.ok (Prod.ext (Option.isNone_iff_eq_none.mp hnone) rfl)
  refine ⟨oneRunning_spec, hcall, by decide +kernel, by decide +kernel, fun hharmless => ?_⟩
  obtain ⟨c, hskip, hk'⟩ := allocateSlots_eq_none hcall
  have hentry := entry_of_harmless hskip hk' hharmless
  have hnot : ¬ ∀ m ∈ oneRunning.coordinator.singleTypeManagers,
      m.kvCacheSpec.isFullAttention = true → m.reqToBlocks.contains "b" = true := by
    decide +kernel
  exact hnot hentry

/-- The running request asks for more than the cache holds: it has an entry, so that call is
harmless. -/
theorem harmless_iff_running :
    ∃ k', oneRunning.allocateSlots grownRequest 7 0 none 0 false 0 = .ok (none, k') ∧
      Harmless oneRunning k' grownRequest := by
  have hnone : (resultOf (oneRunning.allocateSlots grownRequest 7 0 none 0 false 0)
      (by decide +kernel)).1.isNone = true := by decide +kernel
  have hcall : oneRunning.allocateSlots grownRequest 7 0 none 0 false 0 =
      .ok (none, (resultOf (oneRunning.allocateSlots grownRequest 7 0 none 0 false 0)
        (by decide +kernel)).2) := by
    refine (resultOf_spec _ (by decide +kernel)).trans ?_
    exact congrArg Except.ok (Prod.ext (Option.isNone_iff_eq_none.mp hnone) rfl)
  exact ⟨_, hcall, (harmless_iff hcall).mpr (by decide +kernel)⟩

end Vllm.Proofs.Core
