import Vllm.V1.Core.KVCacheManager
import Vllm.Proofs.Core.TableRun
import Mathlib.Data.List.Forall2

/-!
# `Vllm.Proofs.Core.Slots`: `allocate_slots` and its estimate

`allocate_slots` first asks every group how many blocks it needs and compares the sum with the
free blocks; then it takes the blocks group by group. A group that has more blocks than it
needs contributes a negative number to the sum, but takes nothing back.

* `groupNeed` is the contribution of a group, without its evictable hits.
* `removeSkipped_spec`, `sumBlocksToAllocate_spec`, `saveAll_ok`, `allocateAll_spec`: what the
  steps of the call do to the tables and to the free list, and when they succeed.
* `allocatesWithinEstimate_iff`: the call stays within its estimate exactly when it is refused
  or no group has a surplus.
-/

set_option autoImplicit false

namespace Vllm.Proofs.Core

open Vllm.Lib Vllm.V1 Vllm.V1.Core SingleTypeKVCacheManager List
open Vllm.V1.Core.BlockPool Vllm.V1.Core.KVCacheCoordinator

/-! ### Need and surplus of a group -/

/-- The number of tokens that a group needs slots for. -/
def groupTokens (m : SingleTypeKVCacheManager) (numTokens numEncoderTokens : Int) : Int :=
  if m.kvCacheSpec.isCrossAttention then numEncoderTokens else numTokens

/-- The blocks that a group needs on top of its table and its prefix hit; a negative number is
a surplus. -/
def groupNeed (requestId : String) (numTokens numEncoderTokens : Int)
    (m : SingleTypeKVCacheManager) (hit : List BlockRef) : Int :=
  blocksMissing m requestId (groupTokens m numTokens numEncoderTokens) - hit.length

/-- The blocks of a prefix hit that are in the free list. -/
def evictableHits (pool : BlockPool) (hit : List BlockRef) : Nat :=
  hit.countP fun b => (pool.deref b).refCnt = 0 ∧ (pool.deref b).isNull = false

/-- What no step of `allocate_slots` before the allocation changes in a manager. -/
structure KeepsShape (requestId : String) (m m' : SingleTypeKVCacheManager) : Prop where
  kvCacheSpec : m'.kvCacheSpec = m.kvCacheSpec
  blockSize : m'.blockSize = m.blockSize
  numCachedBlock : m'.numCachedBlock = m.numCachedBlock
  length_table : (m'.table requestId).length = (m.table requestId).length

namespace KeepsShape

variable {requestId : String} {m m' m'' : SingleTypeKVCacheManager}

theorem refl (requestId : String) (m : SingleTypeKVCacheManager) : KeepsShape requestId m m :=
  ⟨rfl, rfl, rfl, rfl⟩

theorem reqBlocks (requestId : String) (m : SingleTypeKVCacheManager) :
    KeepsShape requestId m (m.reqBlocks requestId).2 :=
  ⟨rfl, rfl, rfl, congrArg List.length (table_setTable m requestId (m.table requestId))⟩

theorem groupNeed_eq (h : KeepsShape requestId m m') (numTokens numEncoderTokens : Int)
    (hit : List BlockRef) :
    groupNeed requestId numTokens numEncoderTokens m' hit =
      groupNeed requestId numTokens numEncoderTokens m hit := by
  unfold groupNeed blocksMissing groupTokens addSpeculativeTokens
  rw [h.kvCacheSpec, h.blockSize, h.length_table]

end KeepsShape

/-! ### Dropping the skipped blocks -/

section Skip
variable {requestId : String}

/-- `get_num_skipped_tokens` is at most the number of computed tokens. -/
theorem getNumSkippedTokens_le (m : SingleTypeKVCacheManager) (numComputedTokens : Int)
    (hpos : 0 < m.getNumSkippedTokens numComputedTokens) :
    m.getNumSkippedTokens numComputedTokens ≤ numComputedTokens := by
  unfold getNumSkippedTokens at hpos ⊢
  split
  · rename_i window _
    have hw : (0 : Int) < (window : Nat) := by exact_mod_cast window.pos
    omega
  · rename_i chunk _
    have hc : (0 : Int) < (chunk : Nat) := by exact_mod_cast chunk.pos
    rw [Int.fdiv_eq_ediv_of_nonneg _ hc.le]
    exact Int.ediv_mul_le _ hc.ne'
  · rename_i hspec _
    simp_all

variable {numComputedTokens : Int}

/-- A table that covers the computed tokens covers the skipped blocks. -/
theorem skippedBlocks_le_length {m : SingleTypeKVCacheManager}
    (h : m.kvCacheSpec.isCrossAttention = true ∨
      numComputedTokens ≤ (m.table requestId).length * (m.blockSize : Nat)) :
    (Int.fdiv (m.getNumSkippedTokens numComputedTokens) m.blockSize).toNat ≤
      (m.table requestId).length := by
  have hB : (0 : Int) < (m.blockSize : Nat) := by exact_mod_cast m.blockSize.pos
  rw [Int.fdiv_eq_ediv_of_nonneg _ hB.le]
  rcases Int.lt_or_le 0 (m.getNumSkippedTokens numComputedTokens) with hpos | hneg
  · have hle := getNumSkippedTokens_le m numComputedTokens hpos
    rcases h with hcross | hcover
    · unfold getNumSkippedTokens at hpos
      unfold KVCacheSpec.isCrossAttention at hcross
      split at hpos <;> simp_all
    · have hdiv := Int.ediv_le_ediv hB (hle.trans hcover)
      rw [Int.mul_ediv_cancel _ hB.ne'] at hdiv
      omega
  · have hdiv := Int.ediv_le_ediv hB hneg
    rw [Int.zero_ediv] at hdiv
    omega

/-- The loop of `remove_skipped_blocks` over the managers, on tables that cover the computed
tokens. -/
theorem removeSkipped_spec {pool : BlockPool} {ms : List SingleTypeKVCacheManager}
    {A : List SingleTypeKVCacheManager} {L : List BlockRef} (h : TableInv pool (A ++ ms) L)
    (hcover : ∀ m ∈ ms, m.kvCacheSpec.isCrossAttention = true ∨
      numComputedTokens ≤ (m.table requestId).length * (m.blockSize : Nat)) :
    ∃ ms' pool' L', forManagers
        (fun m pool => m.removeSkippedBlocks pool requestId numComputedTokens) ms pool =
          .ok (ms', pool') ∧
      TableInv pool' (A ++ ms') L' ∧ SameHash pool pool' ∧
      List.Forall₂ (KeepsShape requestId) ms ms' := by
  induction ms generalizing pool A L with
  | nil => exact ⟨[], pool, L, rfl, h, SameHash.refl pool, .nil⟩
  | cons m ms ih =>
    obtain ⟨⟨m1, pool₁⟩, hrun⟩ :=
      removeSkippedBlocks_ok h (skippedBlocks_le_length (hcover m mem_cons_self))
    obtain ⟨⟨L₁, hinv⟩, hsame⟩ := tableInv_removeSkippedBlocks h hrun
    have hshape : KeepsShape requestId m m1 := by
      rcases removeSkippedBlocks_eq_ok hrun with ⟨-, rfl, -⟩ | ⟨-, blocks', P, Y, Q, -, hsk, -, rfl⟩
      · exact KeepsShape.refl requestId _
      · refine ⟨rfl, rfl, rfl, ?_⟩
        rw [table_setTable, hsk.result, hsk.split]
        simp
    rw [append_cons] at hinv
    obtain ⟨ms', pool', L', hrest, hinv', hsame', hshapes⟩ :=
      ih hinv (fun m' hm' => hcover m' (mem_cons_of_mem m hm'))
    refine ⟨m1 :: ms', pool', L', ?_, ?_, hsame.trans hsame', .cons hshape hshapes⟩
    · refine bind_eq_ok_iff.mpr ⟨(m1, pool₁), hrun, ?_⟩
      exact bind_eq_ok_iff.mpr ⟨(ms', pool'), hrest, rfl⟩
    · rwa [append_cons]

end Skip

/-! ### The estimate -/

variable {ms : List SingleTypeKVCacheManager}

/-- The estimate is the sum of the needs and of the evictable hits. -/
theorem sumBlocksToAllocate_spec (pool : BlockPool) (requestId : String)
    (numTokens numEncoderTokens : Int) {hits : List (List BlockRef)}
    (hlen : hits.length = ms.length)
    (hcross : ∀ p ∈ ms.zip hits, p.1.kvCacheSpec.isCrossAttention = true → p.2 = []) :
    sumBlocksToAllocate pool requestId numTokens numEncoderTokens ms hits =
      .ok ((List.zipWith (groupNeed requestId numTokens numEncoderTokens) ms hits).sum +
          (hits.map (evictableHits pool)).sum,
        ms.map fun m => (m.reqBlocks requestId).2) := by
  induction ms generalizing hits with
  | nil =>
    obtain rfl := length_eq_zero_iff.mp hlen
    rfl
  | cons m ms ih =>
    cases hits with
    | nil => cases hlen
    | cons hit hits =>
      have hrest := ih (Nat.succ.inj hlen)
        (fun p hp => hcross p (mem_cons_of_mem _ hp))
      have hhead : m.kvCacheSpec.isCrossAttention = true → hit = [] :=
        hcross (m, hit) mem_cons_self
      have hone : (if m.kvCacheSpec.isCrossAttention then
            .ok (m.getNumBlocksToAllocate pool requestId numEncoderTokens [])
          else .ok (m.getNumBlocksToAllocate pool requestId numTokens hit) :
            Except PyError (Int × SingleTypeKVCacheManager)) =
          .ok (groupNeed requestId numTokens numEncoderTokens m hit +
            evictableHits pool hit, (m.reqBlocks requestId).2) := by
        unfold groupNeed groupTokens blocksMissing evictableHits
          SingleTypeKVCacheManager.getNumBlocksToAllocate
        split
        · rename_i hc
          rw [hhead hc]
          simp [SingleTypeKVCacheManager.reqBlocks]
        · simp only [SingleTypeKVCacheManager.reqBlocks]
          refine congrArg Except.ok (Prod.ext ?_ rfl)
          show _ - _ - _ + _ = _ - _ - _ + _
          omega
      unfold sumBlocksToAllocate
      dsimp only
      rw [hone, except_ok_bind, tail_cons, hrest, except_ok_bind]
      refine congrArg Except.ok (Prod.ext ?_ rfl)
      simp only [zipWith_cons_cons, sum_cons, map_cons]
      omega

/-! ### Taking the blocks -/

/-- The blocks that a group takes from the free list. -/
def groupTakes (requestId : String) (numTokens numEncoderTokens : Int)
    (m : SingleTypeKVCacheManager) : Nat :=
  (blocksMissing m requestId (groupTokens m numTokens numEncoderTokens)).toNat

/-- The table of the request has a block for every token of the group. -/
def TableCovers (requestId : String) (numTokens numEncoderTokens : Int)
    (m : SingleTypeKVCacheManager) : Prop :=
  cdiv (groupTokens m numTokens numEncoderTokens) m.blockSize ≤ (m.table requestId).length

/-- The `ValueError` of `get_new_blocks`. -/
def notEnough (n : Nat) : PyError :=
  .valueError ("Cannot get " ++ toString n ++ " free blocks from the pool")

theorem cdiv_mono {a b : Int} (B : ℕ+) (h : a ≤ b) : cdiv a (B : Nat) ≤ cdiv b (B : Nat) := by
  have hB : (0 : Int) < (B : Nat) := by exact_mod_cast B.pos
  have hdiv : ∀ x : Int, cdiv x (B : Nat) = -((-x) / (B : Nat)) := by
    intro x
    unfold cdiv
    rw [← Int.neg_fdiv_neg, Int.neg_neg, Int.fdiv_eq_ediv_of_nonneg _ hB.le]
  rw [hdiv, hdiv]
  have := Int.ediv_le_ediv hB (Int.neg_le_neg h)
  omega

theorem le_addSpeculativeTokens (m : SingleTypeKVCacheManager) (numTokens : Int) :
    numTokens ≤ m.addSpeculativeTokens numTokens := by
  unfold addSpeculativeTokens
  split
  · split
    · rename_i blockSize n _ _
      have hmul : (0 : Int) ≤ ((blockSize : Nat) : Int) * (n : Int) :=
        Int.mul_nonneg (Int.natCast_nonneg _) (Int.natCast_nonneg _)
      omega
    · exact Int.le_refl _
  · exact Int.le_refl _

variable {pool : BlockPool} {A : List SingleTypeKVCacheManager}

/-- `allocate_new_blocks` of one group takes what is missing, or finds too few free blocks. -/
theorem allocateNewBlocks_spec {B : List SingleTypeKVCacheManager} {m : SingleTypeKVCacheManager}
    {L : List BlockRef} (h : TableInv pool (A ++ m :: B) L) (requestId : String) (tokens : Int) :
    ((blocksMissing m requestId tokens).toNat ≤ L.length ∧ ∃ X m' pool',
        m.allocateNewBlocks pool requestId tokens = .ok (X, m', pool') ∧
        TableInv pool' (A ++ m' :: B) (L.drop (blocksMissing m requestId tokens).toNat) ∧
        m'.kvCacheSpec = m.kvCacheSpec ∧ m'.blockSize = m.blockSize ∧
        cdiv (m.addSpeculativeTokens tokens) m.blockSize ≤ (m'.table requestId).length) ∨
      (L.length < (blocksMissing m requestId tokens).toNat ∧
        m.allocateNewBlocks pool requestId tokens =
          .error (notEnough (blocksMissing m requestId tokens).toNat)) := by
  have hbody : m.allocateNewBlocks pool requestId tokens =
      (if blocksMissing m requestId tokens ≤ 0 then
        .ok ([], (m.reqBlocks requestId).2, pool)
      else pool.getNewBlocks (blocksMissing m requestId tokens).toNat >>= fun x =>
        .ok (x.1, (m.reqBlocks requestId).2.setTable requestId
          (m.table requestId ++ x.1), x.2)) := rfl
  have hcount := h.free.list.count
  rcases (Int.lt_or_le 0 (blocksMissing m requestId tokens)).symm with hle | hpos
  · have hrun := hbody
    rw [if_pos hle] at hrun
    refine .inl ⟨by omega, [], _, pool, hrun, ?_⟩
    obtain ⟨hinv, -⟩ := tableInv_allocateNewBlocks h hrun
    refine ⟨hinv, rfl, rfl, ?_⟩
    rw [show ((m.reqBlocks requestId).2.table requestId) = m.table requestId from
      table_setTable m requestId (m.table requestId)]
    unfold blocksMissing at hle
    omega
  · rw [if_neg (by omega)] at hbody
    by_cases henough : (blocksMissing m requestId tokens).toNat ≤ L.length
    · obtain ⟨pool', hnew, -⟩ := getNewBlocks_spec h.free h.agree henough
      have hrun := hbody
      rw [hnew, except_ok_bind] at hrun
      refine .inl ⟨henough, _, _, pool', hrun, ?_⟩
      obtain ⟨hinv, -⟩ := tableInv_allocateNewBlocks h hrun
      refine ⟨hinv, rfl, rfl, ?_⟩
      rw [table_setTable, length_append, length_take]
      unfold blocksMissing at hpos henough ⊢
      omega
    · refine .inr ⟨by omega, ?_⟩
      rw [hbody]
      unfold BlockPool.getNewBlocks BlockPool.getNumFreeBlocks
      rw [if_pos (by omega)]
      rfl

/-- `allocate_new_blocks` over the groups: the free list is long enough for all that is
missing, or a group finds too few free blocks. -/
theorem allocateAll_spec {L : List BlockRef} (h : TableInv pool (A ++ ms) L) (requestId : String)
    (numTokens numEncoderTokens : Int) :
    ((ms.map (groupTakes requestId numTokens numEncoderTokens)).sum ≤ L.length ∧
        ∃ X ms' pool', allocateAll requestId numTokens numEncoderTokens ms pool =
            .ok (X, ms', pool') ∧
          TableInv pool' (A ++ ms')
            (L.drop (ms.map (groupTakes requestId numTokens numEncoderTokens)).sum) ∧
          ∀ m' ∈ ms', TableCovers requestId numTokens numEncoderTokens m') ∨
      (L.length < (ms.map (groupTakes requestId numTokens numEncoderTokens)).sum ∧
        ∃ n, allocateAll requestId numTokens numEncoderTokens ms pool = .error (notEnough n)) := by
  induction ms generalizing pool A L with
  | nil => exact .inl ⟨Nat.zero_le _, [], [], pool, rfl, h, by simp⟩
  | cons m ms ih =>
    rcases allocateNewBlocks_spec h requestId (groupTokens m numTokens numEncoderTokens) with
      ⟨hle, X, m1, pool₁, hrun, hinv, hspec, hsize, hcov⟩ | ⟨hlt, hrun⟩
    · rw [append_cons] at hinv
      have hcover : TableCovers requestId numTokens numEncoderTokens m1 := by
        unfold TableCovers groupTokens
        rw [hspec, hsize]
        exact (cdiv_mono m.blockSize (le_addSpeculativeTokens m _)).trans hcov
      rcases ih hinv with ⟨hsum, Y, ms', pool', hrest, hinv', hall⟩ | ⟨hsum, n, hrest⟩
      · rw [length_drop] at hsum
        refine .inl ⟨?_, X :: Y, m1 :: ms', pool', ?_, ?_, ?_⟩
        · rw [map_cons, sum_cons]
          unfold groupTakes at hsum ⊢
          omega
        · refine bind_eq_ok_iff.mpr ⟨(X, m1, pool₁), hrun, ?_⟩
          exact bind_eq_ok_iff.mpr ⟨(Y, ms', pool'), hrest, rfl⟩
        · rw [map_cons, sum_cons, ← drop_drop, append_cons]
          exact hinv'
        · intro m' hm'
          rcases mem_cons.mp hm' with rfl | hm'
          · exact hcover
          · exact hall m' hm'
      · rw [length_drop] at hsum
        refine .inr ⟨?_, n, ?_⟩
        · rw [map_cons, sum_cons]
          unfold groupTakes at hsum ⊢
          omega
        · show (m.allocateNewBlocks pool requestId _ >>= _) = _
          rw [show m.allocateNewBlocks pool requestId
            (if m.kvCacheSpec.isCrossAttention then numEncoderTokens else numTokens) = _
            from hrun, except_ok_bind]
          dsimp only
          rw [hrest]
          rfl
    · refine .inr ⟨?_,
        (blocksMissing m requestId (groupTokens m numTokens numEncoderTokens)).toNat, ?_⟩
      · rw [map_cons, sum_cons]
        unfold groupTakes
        omega
      · show (m.allocateNewBlocks pool requestId _ >>= _) = _
        rw [show m.allocateNewBlocks pool requestId
          (if m.kvCacheSpec.isCrossAttention then numEncoderTokens else numTokens) = _
          from hrun]
        rfl

/-! ### The prefix hit -/

/-- A manager after it saved the prefix hit of a request. -/
def savedManager (requestId : String) (m : SingleTypeKVCacheManager) (hit : List BlockRef) :
    SingleTypeKVCacheManager :=
  { (m.reqBlocks requestId).2.setTable requestId (m.table requestId ++ hit) with
    numCachedBlock := m.numCachedBlock.insert requestId hit.length }

theorem saveNewComputedBlocks_ok {requestId : String} {m : SingleTypeKVCacheManager}
    (hnew : m.numCachedBlock.contains requestId = false) (hempty : m.table requestId = [])
    (hspec : m.kvCacheSpec.isCrossAttention = false) (hit : List BlockRef) :
    m.saveNewComputedBlocks requestId hit = .ok (savedManager requestId m hit) := by
  have hassert : pyAssert (m.table requestId).isEmpty "len(req_blocks) == 0" = .ok () :=
    pyAssert_eq_ok_iff.mpr (isEmpty_iff.mpr hempty)
  unfold SingleTypeKVCacheManager.saveNewComputedBlocks
  rw [if_neg (by simp [hspec]), if_pos hnew]
  exact bind_eq_ok_iff.mpr ⟨(), hassert, rfl⟩

theorem blocksMissing_savedManager {requestId : String} {m : SingleTypeKVCacheManager}
    (hempty : m.table requestId = []) (hit : List BlockRef)
    (numTokens numEncoderTokens : Int) :
    blocksMissing (savedManager requestId m hit) requestId
        (groupTokens (savedManager requestId m hit) numTokens numEncoderTokens) =
      groupNeed requestId numTokens numEncoderTokens m hit := by
  have htable : (savedManager requestId m hit).table requestId = hit := by
    show ((m.reqBlocks requestId).2.setTable requestId
      (m.table requestId ++ hit)).table requestId = hit
    rw [table_setTable, hempty, nil_append]
  have hrequired : blocksMissing (savedManager requestId m hit) requestId
      (groupTokens (savedManager requestId m hit) numTokens numEncoderTokens) =
      cdiv (m.addSpeculativeTokens (groupTokens m numTokens numEncoderTokens)) m.blockSize -
        ((savedManager requestId m hit).table requestId).length := rfl
  rw [hrequired, htable]
  unfold groupNeed blocksMissing
  rw [hempty, length_nil]
  omega

/-- Saving a prefix hit for a request without blocks gives every group its part of the hit. -/
theorem saveAll_ok {requestId : String} {hits : List (List BlockRef)}
    (hlen : hits.length = ms.length)
    (hfresh : ∀ m ∈ ms, m.numCachedBlock.contains requestId = false ∧ m.table requestId = [] ∧
      m.kvCacheSpec.isCrossAttention = false) :
    saveAll requestId ms hits = .ok (List.zipWith (savedManager requestId) ms hits) := by
  induction ms generalizing hits with
  | nil => rfl
  | cons m ms ih =>
    cases hits with
    | nil => cases hlen
    | cons hit hits =>
      obtain ⟨hnew, hempty, hspec⟩ := hfresh m mem_cons_self
      have hone := saveNewComputedBlocks_ok hnew hempty hspec hit
      have hrest := ih (Nat.succ.inj hlen)
        (fun m' hm' => hfresh m' (mem_cons_of_mem m hm'))
      refine bind_eq_ok_iff.mpr ⟨_, hone, ?_⟩
      exact bind_eq_ok_iff.mpr ⟨_, hrest, rfl⟩

/-- A block is evictable when it is in the free list. -/
theorem evictable_iff {L : List BlockRef} (h : FreeInv pool L) {b : BlockRef}
    (hin : InPool pool.numGpuBlocks b = true) :
    ((pool.deref b).refCnt = 0 ∧ (pool.deref b).isNull = false) ↔ b ∈ L := by
  have hn : (pool.deref b).isNull = decide (b = pool.nullBlock) := h.isNull b
  rw [h.mem_iff b, hn]
  simp only [hin, true_and, decide_eq_false_iff_not]
  exact And.comm

/-- Taking the hit out of the free list shortens the list by the number of evictable hits. -/
theorem length_filter_notMem {L : List BlockRef} (h : FreeInv pool L)
    {hits : List (List BlockRef)} (hin : ∀ b ∈ hits.flatten, InPool pool.numGpuBlocks b = true)
    (hnd : (hits.flatten.filter fun b => b ≠ pool.nullBlock).Nodup) :
    (L.filter fun r => r ∉ hits.flatten).length + (hits.map (evictableHits pool)).sum =
      L.length := by
  have hev : (hits.map (evictableHits pool)).sum = (hits.flatten.filter fun b => b ∈ L).length := by
    have hcount : (hits.map (evictableHits pool)).sum = evictableHits pool hits.flatten := by
      unfold evictableHits
      rw [countP_flatten]
    rw [hcount, evictableHits, ← countP_eq_length_filter]
    refine countP_congr (fun b hb => ?_)
    simpa using evictable_iff h (hin b hb)
  have hL : L.Nodup := by
    have hnodes := h.list.nodup
    exact ((nodup_cons.mp hnodes).2).sublist (sublist_append_left _ _)
  -- both filters list the free blocks of the hit, once each
  have hperm : (L.filter fun r => r ∈ hits.flatten).Perm (hits.flatten.filter fun b => b ∈ L) := by
    refine (perm_ext_iff_of_nodup (hL.filter _) ?_).mpr (fun b => ?_)
    · have hsub : (hits.flatten.filter fun b => b ∈ L) =
          (hits.flatten.filter fun b => b ≠ pool.nullBlock).filter fun b => b ∈ L := by
        rw [filter_filter]
        refine filter_congr (fun b _ => ?_)
        by_cases hb : b ∈ L
        · have hne := ((h.mem_iff b).mp hb).2.1
          simp [hb, hne]
        · simp [hb]
      rw [hsub]
      exact hnd.filter _
    · rw [mem_filter, mem_filter, decide_eq_true_iff, decide_eq_true_iff]
      exact And.comm
  have hsplit := length_eq_length_filter_add (l := L) (fun r => decide (r ∈ hits.flatten))
  rw [hev, ← hperm.length_eq]
  have hneg : (L.filter fun r => r ∉ hits.flatten) =
      L.filter fun r => !decide (r ∈ hits.flatten) := by
    exact filter_congr (fun r _ => decide_not)
  rw [hneg]
  omega

/-! ### The whole call -/

/-- What the scheduler promises about a call: the prefix hit has a list for every group, of
null blocks and of distinct blocks with a hash; only a request without blocks comes with a
hit, and not to a cross-attention group; the tables cover the computed tokens. -/
structure ScheduledCall (k : KVCacheManager) (request : Request) (hits : KVCacheBlocks) :
    Prop where
  length_hits : hits.length = k.coordinator.singleTypeManagers.length
  cached : ∀ b ∈ hits.flatten, b = k.coordinator.blockPool.nullBlock ∨
    (k.coordinator.blockPool.deref b).blockHash.isSome = true
  distinct : (hits.flatten.filter fun b => b ≠ k.coordinator.blockPool.nullBlock).Nodup
  fresh : hits.isEmptyBlocks = false → k.enableCaching = true ∧
    ∀ m ∈ k.coordinator.singleTypeManagers,
      m.numCachedBlock.contains request.requestId = false ∧
      m.table request.requestId = [] ∧ m.kvCacheSpec.isCrossAttention = false
  covered : ∀ m ∈ k.coordinator.singleTypeManagers, m.kvCacheSpec.isCrossAttention = true ∨
    request.numComputedTokens ≤ (m.table request.requestId).length * (m.blockSize : Nat)

/-- The sum of the needs of all groups and of the evictable hits. -/
def estimate (c : KVCacheCoordinator) (requestId : String) (numTokens numEncoderTokens : Int)
    (hits : KVCacheBlocks) : Int :=
  (List.zipWith (groupNeed requestId numTokens numEncoderTokens) c.singleTypeManagers hits).sum
    + (hits.map (evictableHits c.blockPool)).sum

theorem flatten_eq_nil_of_isEmptyBlocks {hits : KVCacheBlocks}
    (h : hits.isEmptyBlocks = true) : hits.flatten = [] := by
  rw [flatten_eq_nil_iff]
  intro hit hmem
  exact isEmpty_iff.mp (all_eq_true.mp h hit hmem)

section Reserve
variable {k : KVCacheManager} {c : KVCacheCoordinator} {L : List BlockRef} {requestId : String}
  {numTokens numEncoderTokens : Int} {hits : KVCacheBlocks}

variable {ms : List SingleTypeKVCacheManager}

/-- With no hit at all, what a group needs is what its table misses. -/
theorem map_groupTakes_of_isEmptyBlocks (hlen : hits.length = ms.length)
    (hempty : hits.isEmptyBlocks = true) :
    ms.map (groupTakes requestId numTokens numEncoderTokens) =
      (List.zipWith (groupNeed requestId numTokens numEncoderTokens) ms hits).map Int.toNat := by
  induction ms generalizing hits with
  | nil => rfl
  | cons m ms ih =>
    cases hits with
    | nil => cases hlen
    | cons hit hits =>
      have hboth : (hit.isEmpty && hits.all List.isEmpty) = true := hempty
      obtain ⟨hhead, htail⟩ := Bool.and_eq_true_iff.mp hboth
      obtain rfl := isEmpty_iff.mp hhead
      rw [map_cons, zipWith_cons_cons, map_cons,
        ih (Nat.succ.inj hlen) htail]
      unfold groupTakes groupNeed
      simp

/-- After the hit was saved, what a group needs is what its table misses. -/
theorem map_groupTakes_savedManager (hempty : ∀ m ∈ ms, m.table requestId = []) :
    (List.zipWith (savedManager requestId) ms hits).map
        (groupTakes requestId numTokens numEncoderTokens) =
      (List.zipWith (groupNeed requestId numTokens numEncoderTokens) ms hits).map Int.toNat := by
  induction ms generalizing hits with
  | nil => rfl
  | cons m ms ih =>
    cases hits with
    | nil => rfl
    | cons hit hits =>
      have hone := blocksMissing_savedManager (hempty m mem_cons_self) hit numTokens
        numEncoderTokens
      rw [zipWith_cons_cons, zipWith_cons_cons, map_cons, map_cons,
        ih (fun m' hm' => hempty m' (mem_cons_of_mem m hm'))]
      unfold groupTakes
      rw [hone]

/-- The prefix hit leaves the free list, and the groups miss what they needed on top of it. -/
theorem takeComputedBlocks_spec (numTokens numEncoderTokens : Int)
    (h : TableInv c.blockPool c.singleTypeManagers L)
    (hlen : hits.length = c.singleTypeManagers.length)
    (hin : ∀ b ∈ hits.flatten, InPool c.blockPool.numGpuBlocks b = true)
    (hnd : (hits.flatten.filter fun b => b ≠ c.blockPool.nullBlock).Nodup)
    (hfresh : hits.isEmptyBlocks = false → k.enableCaching = true ∧
      ∀ m ∈ c.singleTypeManagers, m.numCachedBlock.contains requestId = false ∧
        m.table requestId = [] ∧ m.kvCacheSpec.isCrossAttention = false) :
    ∃ c1 L₁, k.takeComputedBlocks c requestId hits = .ok c1 ∧
      TableInv c1.blockPool c1.singleTypeManagers L₁ ∧
      L₁.length + (hits.map (evictableHits c.blockPool)).sum = L.length ∧
      c1.singleTypeManagers.map (groupTakes requestId numTokens numEncoderTokens) =
        (List.zipWith (groupNeed requestId numTokens numEncoderTokens)
          c.singleTypeManagers hits).map Int.toNat := by
  have hfree := length_filter_notMem h.free hin hnd
  cases hempty : hits.isEmptyBlocks with
  | true =>
    have hflat := flatten_eq_nil_of_isEmptyBlocks hempty
    have htouch : c.blockPool.touch hits = .ok c.blockPool := by
      unfold BlockPool.touch
      rw [hflat]
      rfl
    refine ⟨c, L, ?_, h, ?_, map_groupTakes_of_isEmptyBlocks hlen hempty⟩
    · unfold KVCacheManager.takeComputedBlocks
      rw [htouch, hempty]
      split <;> rfl
    · rw [hflat] at hfree
      simpa using hfree
  | false =>
    obtain ⟨hcaching, hall⟩ := hfresh hempty
    obtain ⟨pool, htouch, -⟩ := touch_spec h.free hin
    have hsave := saveAll_ok hlen hall
    have hnds : ∀ hit ∈ hits, (hit.filter fun b => b ≠ c.blockPool.nullBlock).Nodup :=
      fun hit hmem => hnd.sublist ((sublist_flatten_of_mem hmem).filter _)
    obtain ⟨hinv, -⟩ := tableInv_touch_save h hlen
      (fun hit hmem b hb => hin b (mem_flatten.mpr ⟨hit, hmem, hb⟩)) hnds htouch hsave
    refine ⟨{ c with
      blockPool := pool
      singleTypeManagers := List.zipWith (savedManager requestId) c.singleTypeManagers hits },
      _, ?_, hinv, hfree, map_groupTakes_savedManager (fun m hm => (hall m hm).2.1)⟩
    unfold KVCacheManager.takeComputedBlocks
    rw [if_pos hcaching, hempty]
    refine bind_eq_ok_iff.mpr ⟨pool, htouch, ?_⟩
    exact bind_eq_ok_iff.mpr ⟨_, hsave, rfl⟩

/-- `reserveSlots` takes the evictable hits and the positive needs from the free list, or the
free list is too short and it raises. -/
theorem reserveSlots_spec (h : TableInv c.blockPool c.singleTypeManagers L)
    (hlen : hits.length = c.singleTypeManagers.length)
    (hin : ∀ b ∈ hits.flatten, InPool c.blockPool.numGpuBlocks b = true)
    (hnd : (hits.flatten.filter fun b => b ≠ c.blockPool.nullBlock).Nodup)
    (hfresh : hits.isEmptyBlocks = false → k.enableCaching = true ∧
      ∀ m ∈ c.singleTypeManagers, m.numCachedBlock.contains requestId = false ∧
        m.table requestId = [] ∧ m.kvCacheSpec.isCrossAttention = false)
    {takes : Nat}
    (htakes : takes = ((List.zipWith (groupNeed requestId numTokens numEncoderTokens)
        c.singleTypeManagers hits).map Int.toNat).sum
      + (hits.map (evictableHits c.blockPool)).sum) :
    (takes ≤ L.length ∧ ∃ newBlocks c',
        k.reserveSlots c requestId numTokens hits numEncoderTokens = .ok (newBlocks, c') ∧
        c'.blockPool.getNumFreeBlocks = (L.length : Int) - takes ∧
        ∀ m ∈ c'.singleTypeManagers, TableCovers requestId numTokens numEncoderTokens m) ∨
      (L.length < takes ∧ ∃ n,
        k.reserveSlots c requestId numTokens hits numEncoderTokens = .error (notEnough n)) := by
  obtain ⟨c1, L₁, hcomputed, hinv, hlenL, hneeds⟩ :=
    takeComputedBlocks_spec numTokens numEncoderTokens h hlen hin hnd hfresh
  have hinv' : TableInv c1.blockPool ([] ++ c1.singleTypeManagers) L₁ := hinv
  rcases allocateAll_spec hinv' requestId numTokens numEncoderTokens with
    ⟨hsum, X, ms', pool', hall, hinv2, hcover⟩ | ⟨hsum, n, hall⟩
  · rw [hneeds] at hsum hinv2
    have hcount := hinv2.free.list.count
    rw [length_drop] at hcount
    refine .inl ⟨by omega, X,
      { c1 with singleTypeManagers := ms', blockPool := pool' }, ?_, ?_, hcover⟩
    · refine bind_eq_ok_iff.mpr ⟨c1, hcomputed, ?_⟩
      exact bind_eq_ok_iff.mpr ⟨(X, ms', pool'), hall, rfl⟩
    · show pool'.freeBlockQueue.numFreeBlocks = _
      omega
  · rw [hneeds] at hsum
    refine .inr ⟨by omega, n, ?_⟩
    unfold KVCacheManager.reserveSlots KVCacheCoordinator.allocateNewBlocks
    rw [hcomputed, except_ok_bind, hall]
    rfl

end Reserve

/-! ### The whole call, from a reachable state -/

/-- Reading the table of a request in every group leaves empty tables behind. -/
theorem tableInv_map_reqBlocks {L : List BlockRef} (h : TableInv pool (A ++ ms) L)
    (requestId : String) :
    TableInv pool (A ++ ms.map fun m => (m.reqBlocks requestId).2) L := by
  induction ms generalizing A with
  | nil => exact h
  | cons m ms ih =>
    have hone := h.reqBlocks requestId
    rw [append_cons] at hone
    have hrest := ih hone
    rw [map_cons, append_cons]
    exact hrest

variable {ms' : List SingleTypeKVCacheManager}

/-- Managers of the same shape have the same needs. -/
theorem zipWith_groupNeed_congr {requestId : String}
    (h : List.Forall₂ (KeepsShape requestId) ms ms') (numTokens numEncoderTokens : Int)
    (hits : KVCacheBlocks) :
    List.zipWith (groupNeed requestId numTokens numEncoderTokens) ms' hits =
      List.zipWith (groupNeed requestId numTokens numEncoderTokens) ms hits := by
  induction h generalizing hits with
  | nil => rfl
  | cons hshape _ ih =>
    cases hits with
    | nil => rfl
    | cons hit hits =>
      rw [zipWith_cons_cons, zipWith_cons_cons, ih, hshape.groupNeed_eq]

theorem forall₂_keepsShape_reqBlocks (requestId : String) (ms : List SingleTypeKVCacheManager) :
    List.Forall₂ (KeepsShape requestId) ms (ms.map fun m => (m.reqBlocks requestId).2) := by
  exact forall₂_map_right_iff.mpr
    (forall₂_same.mpr (fun m _ => KeepsShape.reqBlocks requestId m))

/-- A request without blocks has none after a step that keeps the shape of the tables. -/
theorem fresh_of_keepsShape {requestId : String} (h : List.Forall₂ (KeepsShape requestId) ms ms')
    (hfresh : ∀ m ∈ ms, m.numCachedBlock.contains requestId = false ∧ m.table requestId = [] ∧
      m.kvCacheSpec.isCrossAttention = false) :
    ∀ m ∈ ms', m.numCachedBlock.contains requestId = false ∧
      m.table requestId = [] ∧ m.kvCacheSpec.isCrossAttention = false := by
  induction h with
  | nil => exact fun m hm => by cases hm
  | @cons m m' ms ms' hshape _ ih =>
    intro q hq
    rcases mem_cons.mp hq with rfl | hq
    · obtain ⟨hnew, hempty, hspec⟩ := hfresh m mem_cons_self
      refine ⟨hshape.numCachedBlock ▸ hnew, ?_, hshape.kvCacheSpec ▸ hspec⟩
      have hlen := hshape.length_table
      rw [hempty] at hlen
      exact length_eq_zero_iff.mp hlen
    · exact ih (fun x hx => hfresh x (mem_cons_of_mem m hx)) q hq

/-- Only groups that are not cross-attention groups have a hit. -/
theorem hit_eq_nil_of_cross {hits : KVCacheBlocks} {requestId : String}
    (hfresh : hits.isEmptyBlocks = false → ∀ m ∈ ms, m.numCachedBlock.contains requestId =
      false ∧ m.table requestId = [] ∧ m.kvCacheSpec.isCrossAttention = false) :
    ∀ p ∈ ms.zip hits, p.1.kvCacheSpec.isCrossAttention = true → p.2 = [] := by
  intro p hp hcross
  obtain ⟨hm, hhit⟩ := of_mem_zip hp
  cases hempty : hits.isEmptyBlocks with
  | true => exact isEmpty_iff.mp (all_eq_true.mp hempty p.2 hhit)
  | false =>
    have hspec := (hfresh hempty p.1 hm).2.2
    rw [hspec] at hcross
    cases hcross

/-- The number of slots that a call asks for. -/
def tokensNeedSlot (k : KVCacheManager) (request : Request)
    (numNewTokens numNewComputedTokens numLookaheadTokens : Int) : Int :=
  min (request.numComputedTokens + numNewComputedTokens + numNewTokens + numLookaheadTokens)
    k.maxModelLen

/-- `allocate_slots` up to the comparison with the free blocks: the skipped blocks are given
back, and the estimate is the sum of the needs and of the evictable hits. -/
theorem allocateSlots_prepare {k : KVCacheManager} {request : Request} {hits : KVCacheBlocks}
    (hinv : CoordInv k.coordinator) (hcall : ScheduledCall k request hits)
    (numTokens numEncoderTokens : Int) :
    ∃ c1 c2 L, k.coordinator.removeSkippedBlocks request.requestId request.numComputedTokens =
        .ok c1 ∧
      c1.getNumBlocksToAllocate request.requestId numTokens hits numEncoderTokens =
        .ok (estimate c1 request.requestId numTokens numEncoderTokens hits, c2) ∧
      TableInv c2.blockPool c2.singleTypeManagers L ∧ c2.blockPool = c1.blockPool ∧
      List.Forall₂ (KeepsShape request.requestId) k.coordinator.singleTypeManagers
        c1.singleTypeManagers ∧
      List.Forall₂ (KeepsShape request.requestId) c1.singleTypeManagers c2.singleTypeManagers ∧
      SameHash k.coordinator.blockPool c1.blockPool := by
  obtain ⟨L, hL⟩ := hinv
  have hL' : TableInv k.coordinator.blockPool ([] ++ k.coordinator.singleTypeManagers) L := hL
  obtain ⟨ms, pool, L₁, hskip, hinv1, hsame, hshape⟩ := removeSkipped_spec hL' hcall.covered
  have hlen : hits.length = ms.length := hcall.length_hits.trans hshape.length_eq
  have hcross := hit_eq_nil_of_cross (fun hempty =>
    fresh_of_keepsShape hshape (hcall.fresh hempty).2)
  have hsum := sumBlocksToAllocate_spec pool request.requestId numTokens numEncoderTokens
    hlen hcross
  refine ⟨{ k.coordinator with singleTypeManagers := ms, blockPool := pool },
    { k.coordinator with
      singleTypeManagers := ms.map fun m => (m.reqBlocks request.requestId).2
      blockPool := pool },
    L₁, ?_, ?_, tableInv_map_reqBlocks (A := []) hinv1 request.requestId, rfl, hshape,
    forall₂_keepsShape_reqBlocks request.requestId ms, hsame⟩
  · exact bind_eq_ok_iff.mpr ⟨(ms, pool), hskip, rfl⟩
  · exact bind_eq_ok_iff.mpr ⟨_, hsum, rfl⟩

/-- The call is refused, or it reserves its blocks, takes no more of them from the free list
than it estimated and leaves every group with a table that covers its tokens. -/
def AllocatesWithinEstimate (k : KVCacheManager) (request : Request)
    (numNewTokens numNewComputedTokens : Int) (newComputedBlocks : Option KVCacheBlocks)
    (numLookaheadTokens : Int) (delayCacheBlocks : Bool) (numEncoderTokens : Int) : Prop :=
  let numTokens := tokensNeedSlot k request numNewTokens numNewComputedTokens numLookaheadTokens
  let hits := newComputedBlocks.getD k.emptyKvCacheBlocks
  (∃ k', k.allocateSlots request numNewTokens numNewComputedTokens newComputedBlocks
      numLookaheadTokens delayCacheBlocks numEncoderTokens = .ok (none, k')) ∨
    ∃ c₁ est c₂ newBlocks c₃,
      k.coordinator.removeSkippedBlocks request.requestId request.numComputedTokens = .ok c₁ ∧
      c₁.getNumBlocksToAllocate request.requestId numTokens hits numEncoderTokens = .ok (est, c₂) ∧
      est ≤ c₂.blockPool.getNumFreeBlocks ∧
      k.reserveSlots c₂ request.requestId numTokens hits numEncoderTokens = .ok (newBlocks, c₃) ∧
      c₂.blockPool.getNumFreeBlocks - c₃.blockPool.getNumFreeBlocks ≤ est ∧
      ∀ m ∈ c₃.singleTypeManagers,
        TableCovers request.requestId numTokens numEncoderTokens m

/-- A sum of integers is the sum of their positive parts only if none is negative. -/
theorem sum_toNat_le_iff (xs : List Int) :
    ((xs.map Int.toNat).sum : Int) ≤ xs.sum ↔ ∀ x ∈ xs, 0 ≤ x := by
  have hge : ∀ ys : List Int, ys.sum ≤ ((ys.map Int.toNat).sum : Int) := by
    intro ys
    induction ys with
    | nil => simp
    | cons y ys ih =>
      rw [map_cons, sum_cons, sum_cons]
      omega
  induction xs with
  | nil => simp
  | cons x xs ih =>
    have hxs := hge xs
    simp only [map_cons, sum_cons, forall_mem_cons, ← ih]
    constructor
    · intro hle
      constructor <;> omega
    · rintro ⟨hx, hle⟩
      omega

/-- `allocate_slots` after `allocateSlots_prepare`. -/
theorem allocateSlots_eq {k : KVCacheManager} {request : Request}
    {numNewTokens numNewComputedTokens : Int} {newComputedBlocks : Option KVCacheBlocks}
    {numLookaheadTokens numEncoderTokens est : Int} {c1 c2 : KVCacheCoordinator}
    (delayCacheBlocks : Bool) (hnew : numNewTokens ≠ 0)
    (hskip : k.coordinator.removeSkippedBlocks request.requestId request.numComputedTokens = .ok c1)
    (hest : c1.getNumBlocksToAllocate request.requestId
      (tokensNeedSlot k request numNewTokens numNewComputedTokens numLookaheadTokens)
      (newComputedBlocks.getD k.emptyKvCacheBlocks) numEncoderTokens = .ok (est, c2)) :
    k.allocateSlots request numNewTokens numNewComputedTokens newComputedBlocks
        numLookaheadTokens delayCacheBlocks numEncoderTokens =
      if c2.blockPool.getNumFreeBlocks < est then .ok (none, { k with coordinator := c2 })
      else (k.takeSlots c2 request (request.numComputedTokens + numNewComputedTokens) numNewTokens
        (tokensNeedSlot k request numNewTokens numNewComputedTokens numLookaheadTokens)
        (newComputedBlocks.getD k.emptyKvCacheBlocks) delayCacheBlocks numEncoderTokens) >>=
          fun x => .ok (some x.1, x.2) := by
  unfold tokensNeedSlot at hest ⊢
  unfold KVCacheManager.allocateSlots
  rw [if_neg hnew, hskip, except_ok_bind]
  dsimp only
  rw [hest, except_ok_bind]
  rfl

/-- From every reachable state and for every call of the scheduler: the call stays within its
estimate exactly when the estimate is too large for the free blocks (and the call is refused)
or no group has a surplus. A call that is not refused raises the `ValueError` of
`get_new_blocks` exactly when the evictable hits and the positive needs exceed the free
blocks. -/
theorem allocatesWithinEstimate_iff (numBlocks : Nat) (groups : List KVCacheSpec)
    (maxModelLen : Nat) (eagle caching events ints : Bool) (dcp pcp : ℕ+) (hashBlockSize : Nat)
    (c₀ : KVCacheCoordinator)
    (hinit : getKvCacheCoordinator numBlocks groups maxModelLen eagle caching events ints dcp
      pcp hashBlockSize = .ok c₀)
    (k : KVCacheManager)
    (hrun : Run kvStep (fun c op => KVOpIssued c op ∧ HitDistinct c op) c₀ k.coordinator)
    (request : Request) (numNewTokens numNewComputedTokens : Int)
    (newComputedBlocks : Option KVCacheBlocks) (numLookaheadTokens : Int)
    (delayCacheBlocks : Bool) (numEncoderTokens : Int) (hnew : numNewTokens ≠ 0)
    (hcall : ScheduledCall k request (newComputedBlocks.getD k.emptyKvCacheBlocks)) :
    let numTokens := tokensNeedSlot k request numNewTokens numNewComputedTokens
      numLookaheadTokens
    let hits := newComputedBlocks.getD k.emptyKvCacheBlocks
    let needs := List.zipWith (groupNeed request.requestId numTokens numEncoderTokens)
      k.coordinator.singleTypeManagers hits
    ∃ c₁, k.coordinator.removeSkippedBlocks request.requestId request.numComputedTokens = .ok c₁ ∧
      (AllocatesWithinEstimate k request numNewTokens numNewComputedTokens newComputedBlocks
          numLookaheadTokens delayCacheBlocks numEncoderTokens ↔
        c₁.blockPool.getNumFreeBlocks < needs.sum + (hits.map (evictableHits c₁.blockPool)).sum ∨
          ∀ n ∈ needs, 0 ≤ n) ∧
      ∀ est c₂, c₁.getNumBlocksToAllocate request.requestId numTokens hits numEncoderTokens =
          .ok (est, c₂) →
        ((∃ n, k.reserveSlots c₂ request.requestId numTokens hits numEncoderTokens =
            .error (notEnough n)) ↔
          c₁.blockPool.getNumFreeBlocks < (needs.map Int.toNat).sum +
            (hits.map (evictableHits c₁.blockPool)).sum) := by
  intro numTokens hits needs
  have hinv : CoordInv k.coordinator := hrun.invariant CoordInv (tableInv_init hinit)
      (fun s o s' h hC hs => (tableInv_step h hC.1 hC.2 hs).1)
  obtain ⟨c₁, c₂, L, hskip, hest, hinv₂, hpool, hshape₁, hshape₂, hsame⟩ :=
    allocateSlots_prepare hinv hcall numTokens numEncoderTokens
  have hneeds₁ : List.zipWith (groupNeed request.requestId numTokens numEncoderTokens)
      c₁.singleTypeManagers hits = needs := zipWith_groupNeed_congr hshape₁ _ _ _
  have hneeds₂ : List.zipWith (groupNeed request.requestId numTokens numEncoderTokens)
      c₂.singleTypeManagers hits = needs :=
    (zipWith_groupNeed_congr hshape₂ _ _ _).trans hneeds₁
  have hcount : c₂.blockPool.getNumFreeBlocks = L.length := hinv₂.free.list.count
  -- the hit lies in the pool: null, or a block with a hash
  have hin : ∀ b ∈ hits.flatten, InPool c₂.blockPool.numGpuBlocks b = true := by
    obtain ⟨L₀, hL₀⟩ := hinv
    intro b hb
    rw [hpool, hsame.numGpuBlocks]
    rcases hcall.cached b hb with rfl | hhash
    · exact hL₀.free.null_inPool
    · obtain ⟨key, hkey⟩ := Option.isSome_iff_exists.mp hhash
      exact inPool_iff.mpr (hL₀.agree.real b key hkey)
  have hnd : (hits.flatten.filter fun b => b ≠ c₂.blockPool.nullBlock).Nodup := by
    rw [hpool, hsame.nullBlock]
    exact hcall.distinct
  have hreserve := reserveSlots_spec (k := k) hinv₂
    (hcall.length_hits.trans (hshape₁.length_eq.trans hshape₂.length_eq)) hin hnd
    (fun hempty => ⟨(hcall.fresh hempty).1,
      fresh_of_keepsShape hshape₂ (fresh_of_keepsShape hshape₁ (hcall.fresh hempty).2)⟩)
    (Eq.refl (((List.zipWith (groupNeed request.requestId numTokens numEncoderTokens)
        c₂.singleTypeManagers hits).map Int.toNat).sum
      + (hits.map (evictableHits c₂.blockPool)).sum))
  rw [hneeds₂] at hreserve
  have hestimate : estimate c₁ request.requestId numTokens numEncoderTokens hits =
      needs.sum + (hits.map (evictableHits c₁.blockPool)).sum := by
    unfold estimate
    rw [hneeds₁]
  rw [hestimate] at hest
  rw [← hpool] at hest
  have hcalls := allocateSlots_eq delayCacheBlocks hnew hskip hest
  have hsum := sum_toNat_le_iff needs
  refine ⟨c₁, hskip, ?_, ?_⟩
  · rw [← hpool, hcount]
    constructor
    · rintro (⟨k', hnone⟩ | ⟨d₁, est, d₂, newBlocks, d₃, hskip', hest', hfits, hres, htaken, -⟩)
      · -- the call was refused
        rw [hcalls] at hnone
        split at hnone
        · rename_i hlt
          exact .inl (hcount ▸ hlt)
        · obtain ⟨x, -, hret⟩ := bind_ok hnone
          cases hret
      · -- the call took its blocks
        cases hskip.symm.trans hskip'
        cases hest.symm.trans hest'
        refine .inr (hsum.mp ?_)
        rcases hreserve with ⟨hle, nb, c', hok, hfree, -⟩ | ⟨-, n, herr⟩
        · cases hok.symm.trans hres
          omega
        · cases herr.symm.trans hres
    · rintro (hlt | hall)
      · refine .inl ⟨{ k with coordinator := c₂ }, ?_⟩
        rw [hcalls, if_pos (hcount ▸ hlt)]
      · have hle := hsum.mpr hall
        by_cases hlt : c₂.blockPool.getNumFreeBlocks <
            needs.sum + (hits.map (evictableHits c₂.blockPool)).sum
        · refine .inl ⟨{ k with coordinator := c₂ }, ?_⟩
          rw [hcalls, if_pos hlt]
        · rcases hreserve with ⟨hfit, nb, c', hok, hfree, hcover⟩ | ⟨hshort, -⟩
          · exact .inr ⟨c₁, _, c₂, nb, c', hskip, hest, by omega, hok, by omega, hcover⟩
          · omega
  · intro est d₂ hest'
    cases hest.symm.trans hest'
    rw [← hpool, hcount]
    rcases hreserve with ⟨hle, nb, c', hok, -⟩ | ⟨hlt, n, herr⟩
    · refine ⟨?_, fun hlt => by omega⟩
      rintro ⟨n, herr⟩
      cases hok.symm.trans herr
    · exact ⟨fun _ => by omega, fun _ => ⟨n, herr⟩⟩

/-! ### An encoder-decoder model -/

/-- A group of decoder layers and a group of cross-attention layers, blocks of two tokens,
four blocks of which one is the null block. Prefix caching is off. -/
def encoderDecoderInit : Except PyError KVCacheManager :=
  KVCacheManager.init 4 [.fullAttention 2, .crossAttention 2] 16 2 false false false false 1 1

/-- The manager of that model. -/
def encoderDecoder : KVCacheManager := encoderDecoderInit.toOption.get (by decide +kernel)

/-- A request with a prompt of two tokens. -/
def shortRequest : Request :=
  { requestId := "r"
    promptTokenIds := some [1, 2]
    numPromptTokens := 2
    allTokenIds := [1, 2] }

/-- The first call of a request with four encoder tokens stays within its estimate: the
decoder group needs one block and the cross-attention group needs two. -/
theorem allocatesWithinEstimate_first_call : encoderDecoderInit = .ok encoderDecoder ∧
      AllocatesWithinEstimate encoderDecoder shortRequest 2 0 none 0 false 4 := by
  obtain ⟨c₁, hskip, hiff, -⟩ := allocatesWithinEstimate_iff 4
    [.fullAttention 2, .crossAttention 2] 16 false false false false 1 1 2
    encoderDecoder.coordinator rfl encoderDecoder .start shortRequest 2 0 none 0 false 4
    (by decide)
    ⟨rfl, by decide +kernel, by decide +kernel, by decide +kernel, by decide +kernel⟩
  exact ⟨rfl, hiff.mpr (.inr (by decide +kernel))⟩

/-- The request after its first step, with one generated token. -/
def runningRequest : Request :=
  { shortRequest with
    outputTokenIds := [3]
    allTokenIds := [1, 2, 3]
    numComputedTokens := 2 }

/-- Whether a result is the `ValueError` of `get_new_blocks` for `n` blocks. -/
def raisesNotEnough {α : Type} (n : Nat) : Except PyError α → Bool
  | .ok _ => false
  | .error e => e = notEnough n

/-- Whether the call for the second step raises after the first one was served. -/
def raisesInSecondStep : Bool :=
  match encoderDecoder.allocateSlots shortRequest 2 0 none 0 false 4 with
  | .ok (some _, k) => raisesNotEnough 1 (k.allocateSlots runningRequest 1 0 none 0 false 0)
  | _ => false

/-- In the next step the decoder group needs a block and there is none; but the scheduler
passes no encoder tokens for a running request, so the two blocks of the cross-attention
group count as a surplus, and the call is not refused. -/
theorem allocateSlots_raises_for_running_request :
    ∃ newBlocks k, encoderDecoderInit = .ok encoderDecoder ∧
      encoderDecoder.allocateSlots shortRequest 2 0 none 0 false 4 = .ok (some newBlocks, k) ∧
      k.allocateSlots runningRequest 1 0 none 0 false 0 = .error (notEnough 1) := by
  have hcheck : raisesInSecondStep = true := by decide +kernel
  unfold raisesInSecondStep at hcheck
  split at hcheck
  · rename_i newBlocks k hfirst
    refine ⟨newBlocks, k, rfl, hfirst, ?_⟩
    unfold raisesNotEnough at hcheck
    split at hcheck
    · cases hcheck
    · rename_i e herr
      rw [herr, of_decide_eq_true hcheck]
  · cases hcheck

end Vllm.Proofs.Core
