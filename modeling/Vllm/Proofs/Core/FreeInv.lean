import Vllm.Proofs.Core.BlockPool

/-!
# `Vllm.Proofs.Core.FreeInv`: the free list holds the blocks without a reference

`FreeInv p L` says that the free list of the pool `p` is `L` and that a block of the pool,
other than the null block, is in it exactly when its reference count is zero. The
operations that take and return blocks are specified on it: none of them raises, and the
reference counts change by the number of times a block is given.

* `getNewBlocks_spec`: takes blocks off the front of the free list.
* `touch_spec`: takes the given blocks out of the free list.
* `freeBlocks_spec`: puts those at its end that lose their last reference.
* `freeInv_init`: the free list of a fresh pool.
-/

set_option autoImplicit false

namespace Vllm.Proofs.Core

open Vllm.Lib Vllm.V1 Vllm.V1.Core List
open Vllm.V1.Core.FreeKVCacheBlockQueue Vllm.V1.Core.BlockPool

/-- The free list of the pool is `L`, and it holds the blocks without a reference. -/
structure FreeInv (p : BlockPool) (L : List BlockRef) : Prop where
  list : FreeList p.freeBlockQueue L
  isNull : ∀ r, isNullOf p r = decide (r = p.nullBlock)
  null_inPool : InPool p.numGpuBlocks p.nullBlock = true
  mem_iff : ∀ r, r ∈ L ↔ InPool p.numGpuBlocks r = true ∧ r ≠ p.nullBlock ∧ refCntOf p r = 0
  nonneg : ∀ r, InPool p.numGpuBlocks r = true → r ≠ p.nullBlock → 0 ≤ refCntOf p r

namespace FreeInv

variable {p p' : BlockPool} {L : List BlockRef}

/-- Writes to the hashes keep the free list. -/
theorem of_sameQueue (h : FreeInv p L) (hq : SameQueue p p') : FreeInv p' L where
  list := hq.freeList h.list
  isNull := by
    rw [hq.isNull, hq.nullBlock]
    exact h.isNull
  null_inPool := by
    rw [hq.numGpuBlocks, hq.nullBlock]
    exact h.null_inPool
  mem_iff := by
    rw [hq.numGpuBlocks, hq.nullBlock, hq.refCnt]
    exact h.mem_iff
  nonneg := by
    rw [hq.numGpuBlocks, hq.nullBlock, hq.refCnt]
    exact h.nonneg

end FreeInv

section GetNewBlocks
variable {p : BlockPool} {L : List BlockRef}

/-- `get_new_blocks` takes the first blocks of the free list, when it has as many. -/
theorem getNewBlocks_spec {n : Nat} (h : FreeInv p L) (ha : PoolAgree p) (hn : n ≤ L.length) :
    ∃ p', p.getNewBlocks n = .ok (L.take n, p') ∧ FreeInv p' (L.drop n) ∧
      (∀ r, refCntOf p' r = refCntOf p r + (if r ∈ L.take n then 1 else 0)) ∧
      PoolAgree p' ∧ confOf p' = confOf p ∧
      (∀ r, hashOf p r = none → hashOf p' r = none) := by
  have hsplit : FreeList p.freeBlockQueue (L.take n ++ L.drop n) := by
    rw [take_append_drop]
    exact h.list
  have hlen : (L.take n).length = n := length_take_of_le hn
  obtain ⟨q, hpop, hq⟩ := popleftN_spec hsplit
  rw [hlen] at hpop
  have hdata := sameData_popleftN hpop
  let p1 : BlockPool := { p with freeBlockQueue := q }
  have hs : SameHash p p1 := sameHash_withQueue p hdata
  have hr1 : refCntOf p1 = refCntOf p := refCntOf_withQueue p hdata
  have hnd : (L.take n).Nodup := (take_sublist n L).nodup h.list.nodup_list
  have hzero : ∀ r ∈ L.take n, refCntOf p1 r = 0 := by
    intro r hr
    rw [hr1]
    exact ((h.mem_iff r).mp (mem_of_mem_take hr)).2.2
  obtain ⟨p', hloop⟩ := getNewBlocksLoop_ok (hs.poolAgree ha) hnd hzero
  have hnew := getNewBlocksLoop_spec (hs.poolAgree ha) hloop
  have hcnt : ∀ r, refCntOf p' r = refCntOf p r + (if r ∈ L.take n then 1 else 0) := by
    intro r
    by_cases hr : r ∈ L.take n
    · obtain ⟨h0, h1⟩ := hnew.refCnt_new hnd r hr
      rw [h1, ← hr1, h0, if_pos hr]
      rfl
    · rw [hnew.refCnt_other r hr, hr1, if_neg hr, Int.add_zero]
  have hconf : confOf p' = confOf p := hnew.conf.trans hs.conf
  have hgpu : p'.numGpuBlocks = p.numGpuBlocks := (Prod.mk.inj hconf).1
  have hnull : p'.nullBlock = p.nullBlock := congrArg (fun c => c.2.2.2.1) hconf
  refine ⟨p', ?_, ?_, hcnt, hnew.agree, hconf, ?_⟩
  · have hfree : ¬ p.getNumFreeBlocks < n := by
      show ¬ p.freeBlockQueue.numFreeBlocks < n
      rw [h.list.count]
      omega
    unfold BlockPool.getNewBlocks
    rw [if_neg hfree, hpop, except_ok_bind]
    show (getNewBlocksLoop (L.take n) p1 >>= _) = _
    rw [hloop]
    rfl
  · refine ⟨hq.of_links_eq hnew.next hnew.prev hnew.count, ?_, ?_, ?_, ?_⟩
    · rw [hnull, hnew.isNull, hs.isNull]
      exact h.isNull
    · rw [hgpu, hnull]
      exact h.null_inPool
    · intro r
      rw [hgpu, hnull, hcnt r]
      have hiff := h.mem_iff r
      rw [← take_append_drop n L, mem_append] at hiff
      have hdisj : r ∈ L.take n → r ∉ L.drop n := by
        intro ht hd
        have hnodup := h.list.nodup_list
        rw [← take_append_drop n L] at hnodup
        exact (nodup_append.mp hnodup).2.2 r ht r hd rfl
      by_cases hr : r ∈ L.take n
      · have hr0 := (h.mem_iff r).mp (mem_of_mem_take hr)
        simp [hdisj hr, hr, hr0.2.2]
      · simp only [hr, false_or, if_false, Int.add_zero] at hiff ⊢
        exact hiff
    · intro r hin hne
      rw [hgpu] at hin
      rw [hnull] at hne
      have := h.nonneg r hin hne
      rw [hcnt r]
      split <;> omega
  · intro r hr
    refine hnew.hash_none r ?_
    rw [hs.hash]
    exact hr

/-- `get_new_blocks` only succeeds when the free list has as many blocks. -/
theorem length_le_of_getNewBlocks {n : Nat} {X : List BlockRef} {p' : BlockPool}
    (h : FreeList p.freeBlockQueue L) (hrun : p.getNewBlocks n = .ok (X, p')) :
    n ≤ L.length := by
  unfold BlockPool.getNewBlocks at hrun
  split at hrun
  · cases hrun
  · rename_i hlt
    have hcount : ¬ p.freeBlockQueue.numFreeBlocks < n := hlt
    rw [h.count] at hcount
    omega

end GetNewBlocks

section Touch
variable {p : BlockPool} {L : List BlockRef}

/-- One round of `touch`: the block leaves the free list, if it was there, and gets a
reference. -/
theorem touchOne_spec {b : BlockRef} (h : FreeInv p L) (hb : InPool p.numGpuBlocks b = true) :
    ∃ p', p.touchOne b = .ok p' ∧ FreeInv p' (L.filter fun r => r ≠ b) ∧
      refCntOf p' = Function.update (refCntOf p) b (refCntOf p b + 1) := by
  -- The queue after the first statement of the loop body.
  obtain ⟨q, hq, hL, hdata⟩ : ∃ q, (if (p.deref b).refCnt = 0 ∧ (p.deref b).isNull = false then
        p.freeBlockQueue.remove b else .ok p.freeBlockQueue) = .ok q ∧
      FreeList q (L.filter fun r => r ≠ b) ∧ SameData p.freeBlockQueue q := by
    have hnull : (p.deref b).isNull = decide (b = p.nullBlock) := h.isNull b
    by_cases hmem : b ∈ L
    · obtain ⟨-, hne, h0⟩ := (h.mem_iff b).mp hmem
      obtain ⟨A, B, rfl⟩ := append_of_mem hmem
      obtain ⟨q, hrun, hq⟩ := remove_spec h.list
      have hcond : (p.deref b).refCnt = 0 ∧ (p.deref b).isNull = false :=
        ⟨h0, by rw [hnull]; exact decide_eq_false hne⟩
      refine ⟨q, by rw [if_pos hcond]; exact hrun, ?_, sameData_remove hrun⟩
      have hnd := h.list.nodup_list
      have hA : b ∉ A := fun hA => (nodup_append.mp hnd).2.2 b hA b (by simp) rfl
      have hB : b ∉ B := (nodup_cons.mp (nodup_append.mp hnd).2.1).1
      have hfilter : ∀ l : List BlockRef, b ∉ l → l.filter (fun r => r ≠ b) = l := by
        intro l hl
        refine filter_eq_self.mpr ?_
        intro r hr
        exact decide_eq_true (fun hrb => hl (hrb ▸ hr))
      rw [filter_append, filter_cons_of_neg (by simp), hfilter A hA, hfilter B hB]
      exact hq
    · have hcond : ¬ ((p.deref b).refCnt = 0 ∧ (p.deref b).isNull = false) := by
        rintro ⟨h0, hn⟩
        rw [hnull] at hn
        exact hmem ((h.mem_iff b).mpr ⟨hb, of_decide_eq_false hn, h0⟩)
      refine ⟨p.freeBlockQueue, by rw [if_neg hcond], ?_, SameData.refl _⟩
      rw [filter_eq_self.mpr ?_]
      · exact h.list
      · intro r hr
        exact decide_eq_true (fun hrb => hmem (hrb ▸ hr))
  let p1 : BlockPool := { p with freeBlockQueue := q }
  have hr1 : refCntOf p1 = refCntOf p := refCntOf_withQueue p hdata
  have hs1 : SameHash p p1 := sameHash_withQueue p hdata
  have hs2 := sameHash_modify_refCnt p1 b (· + 1)
  have hr2 := refCntOf_modify_refCnt p1 b (· + 1)
  rw [hr1] at hr2
  have hconf := hs2.conf.trans hs1.conf
  refine ⟨p1.modify b fun b => { b with refCnt := b.refCnt + 1 }, ?_, ?_, hr2⟩
  · unfold BlockPool.touchOne
    rw [hq]
    rfl
  · refine ⟨freeList_modify_refCnt p1 b (· + 1) hL, ?_, h.null_inPool, ?_, ?_⟩
    · rw [hs2.isNull, hs1.isNull]
      exact h.isNull
    · intro r
      rw [hr2, mem_filter, h.mem_iff r]
      show _ ↔ InPool p.numGpuBlocks r = true ∧ r ≠ p.nullBlock ∧ _
      by_cases hrb : r = b
      · subst hrb
        have : r ≠ p.nullBlock → refCntOf p r + 1 ≠ 0 := fun hne => by
          have := h.nonneg r hb hne
          omega
        simp only [ne_eq, not_true_eq_false, decide_false, Bool.false_eq_true, and_false,
          Function.update_self, false_iff, not_and]
        exact fun _ hne => this hne
      · simp [hrb]
    · intro r hin hne
      rw [hr2]
      by_cases hrb : r = b
      · subst hrb
        have := h.nonneg r hin hne
        simp only [Function.update_self]
        omega
      · rw [Function.update_of_ne hrb]
        exact h.nonneg r hin hne

/-- `touch` takes the given blocks out of the free list and counts one reference for each
time a block is given. -/
theorem touch_spec {bs : List BlockRef} (h : FreeInv p L)
    (hbs : ∀ b ∈ bs, InPool p.numGpuBlocks b = true) :
    ∃ p', bs.foldlM touchOne p = .ok p' ∧ FreeInv p' (L.filter fun r => r ∉ bs) ∧
      ∀ r, refCntOf p' r = refCntOf p r + bs.count r := by
  induction bs generalizing p L with
  | nil => exact ⟨p, rfl, by simpa using h, by simp⟩
  | cons b bs ih =>
    obtain ⟨p1, hrun1, h1, hr1⟩ := touchOne_spec h (hbs b (by simp))
    have hgpu : p1.numGpuBlocks = p.numGpuBlocks := (sameHash_touchOne hrun1).numGpuBlocks
    obtain ⟨p', hrun, h', hr⟩ := ih h1 (fun b' hb' => by rw [hgpu]; exact hbs b' (by simp [hb']))
    refine ⟨p', ?_, ?_, ?_⟩
    · rw [foldlM_cons, hrun1]
      exact hrun
    · rw [filter_filter] at h'
      have heq : (fun r => decide (r ∉ bs) && decide (r ≠ b)) = fun r => decide (r ∉ b :: bs) := by
        funext r
        by_cases hrb : r = b <;> simp [hrb]
      rw [heq] at h'
      exact h'
    · intro r
      rw [hr r, hr1, count_cons]
      by_cases hrb : r = b
      · subst hrb
        simp only [Function.update_self, BEq.rfl, if_true]
        omega
      · have : (b == r) = false := beq_eq_false_iff_ne.mpr (Ne.symm hrb)
        rw [Function.update_of_ne hrb, this]
        simp

end Touch

section Free
variable {p : BlockPool} {L : List BlockRef}

/-- The first loop of `free_blocks`. -/
theorem decRefCnts_spec (bs : List BlockRef) :
    (∀ r, refCntOf (p.decRefCnts bs) r = refCntOf p r - bs.count r) ∧
      (p.decRefCnts bs).freeBlockQueue.next = p.freeBlockQueue.next ∧
      (p.decRefCnts bs).freeBlockQueue.prev = p.freeBlockQueue.prev ∧
      (p.decRefCnts bs).freeBlockQueue.numFreeBlocks = p.freeBlockQueue.numFreeBlocks := by
  unfold decRefCnts
  induction bs generalizing p with
  | nil => simp
  | cons b bs ih =>
    rw [foldl_cons]
    let p1 := p.modify b fun b => { b with refCnt := b.refCnt - 1 }
    obtain ⟨hr, hn, hp, hc⟩ := ih (p := p1)
    have hr1 : refCntOf p1 = Function.update (refCntOf p) b (refCntOf p b - 1) :=
      refCntOf_modify_refCnt p b (· - 1)
    refine ⟨?_, hn.trans (next_modify_refCnt p b (· - 1)),
      hp.trans (prev_modify_refCnt p b (· - 1)), hc⟩
    intro r
    rw [hr r, hr1, count_cons]
    by_cases hrb : r = b
    · subst hrb
      simp only [Function.update_self, BEq.rfl, if_true]
      omega
    · have : (b == r) = false := beq_eq_false_iff_ne.mpr (Ne.symm hrb)
      rw [Function.update_of_ne hrb, this]
      simp

/-- `free_blocks` on blocks that have a reference for each time they are given, no block but
the null block more than once: those that lose their last reference are put at the end of the
free list. -/
theorem freeBlocks_spec (bs : List BlockRef) (h : FreeInv p L)
    (hbs : ∀ b ∈ bs, InPool p.numGpuBlocks b = true)
    (hnd : (bs.filter fun b => b ≠ p.nullBlock).Nodup)
    (hpos : ∀ b ∈ bs, b ≠ p.nullBlock → 0 < refCntOf p b) :
    ∃ p', p.freeBlocks bs = .ok p' ∧
      FreeInv p' (L ++ bs.filter fun b => b ≠ p.nullBlock ∧ refCntOf p b = 1) ∧
      ∀ r, refCntOf p' r = refCntOf p r - bs.count r := by
  obtain ⟨hr, hn, hp, hc⟩ := decRefCnts_spec (p := p) bs
  have hs := sameHash_decRefCnts (p := p) bs
  have hcount : ∀ b ∈ bs, b ≠ p.nullBlock → bs.count b = 1 := by
    intro b hb hne
    have hmem : b ∈ bs.filter fun b => b ≠ p.nullBlock :=
      mem_filter.mpr ⟨hb, decide_eq_true hne⟩
    have hfilter : (bs.filter fun b => b ≠ p.nullBlock).count b = bs.count b :=
      count_filter (by simpa using hne)
    rw [← hfilter]
    exact count_eq_one_of_mem hnd hmem
  -- The blocks that the list comprehension keeps.
  have hfilter : (bs.filter fun b => ((p.decRefCnts bs).deref b).refCnt = 0 ∧
        ((p.decRefCnts bs).deref b).isNull = false)
      = bs.filter fun b => b ≠ p.nullBlock ∧ refCntOf p b = 1 := by
    refine filter_congr ?_
    intro b hb
    have hnull : ((p.decRefCnts bs).deref b).isNull = decide (b = p.nullBlock) :=
      (congrFun hs.isNull b).trans (h.isNull b)
    have hcnt : ((p.decRefCnts bs).deref b).refCnt = refCntOf p b - bs.count b := hr b
    rw [hnull, hcnt]
    by_cases hne : b = p.nullBlock
    · simp [hne]
    · rw [hcount b hb hne]
      simp only [hne, decide_false, and_true, not_false_eq_true, true_and, ne_eq]
      refine decide_eq_decide.mpr ?_
      omega
  have hL : FreeList (p.decRefCnts bs).freeBlockQueue L := h.list.of_links_eq hn hp hc
  obtain ⟨q, hrun, hq⟩ := appendN_spec
    (X := bs.filter fun b => b ≠ p.nullBlock ∧ refCntOf p b = 1) hL
    (by
      refine List.Nodup.sublist ?_ hnd
      have hand : (fun b => decide (b ≠ p.nullBlock ∧ refCntOf p b = 1))
          = fun b => decide (refCntOf p b = 1) && decide (b ≠ p.nullBlock) := by
        funext b
        rw [Bool.and_comm, Bool.decide_and]
      rw [hand, ← filter_filter]
      exact filter_sublist)
    (by
      intro x hx
      obtain ⟨i, -, hi⟩ := inPool_iff.mp (hbs x (mem_filter.mp hx).1)
      exact ⟨i, hi⟩)
    (by
      intro x hx hxL
      have h1 := (of_decide_eq_true (mem_filter.mp hx).2).2
      have h0 := ((h.mem_iff x).mp hxL).2.2
      omega)
  have hdata := sameData_appendN hrun
  have hs' : SameHash p { p.decRefCnts bs with freeBlockQueue := q } :=
    hs.trans (sameHash_withQueue _ hdata)
  have hcnt' : ∀ r, refCntOf { p.decRefCnts bs with freeBlockQueue := q } r
      = refCntOf p r - bs.count r := by
    intro r
    rw [refCntOf_withQueue _ hdata]
    exact hr r
  refine ⟨{ p.decRefCnts bs with freeBlockQueue := q }, ?_, ?_, hcnt'⟩
  · unfold BlockPool.freeBlocks
    dsimp only
    rw [hfilter, hrun]
    rfl
  · refine ⟨hq, ?_, ?_, ?_, ?_⟩
    · rw [hs'.isNull, hs'.nullBlock]
      exact h.isNull
    · rw [hs'.numGpuBlocks, hs'.nullBlock]
      exact h.null_inPool
    · intro r
      rw [hs'.numGpuBlocks, hs'.nullBlock, hcnt' r, mem_append, h.mem_iff r,
        mem_filter]
      by_cases hin : InPool p.numGpuBlocks r = true
      · by_cases hne : r = p.nullBlock
        · simp [hne]
        · have h0 := h.nonneg r hin hne
          by_cases hrb : r ∈ bs
          · have h1 := hcount r hrb hne
            have hp1 := hpos r hrb hne
            simp only [hin, hrb, ne_eq, hne, not_false_eq_true, true_and, h1,
              decide_eq_true_eq]
            omega
          · have hz : bs.count r = 0 := count_eq_zero.mpr hrb
            simp [hin, hrb, hne, hz]
      · have hrb : r ∉ bs := fun hrb => hin (hbs r hrb)
        simp [hin, hrb]
    · intro r hin hne
      rw [hs'.numGpuBlocks] at hin
      rw [hs'.nullBlock] at hne
      rw [hcnt' r]
      have h0 := h.nonneg r hin hne
      by_cases hrb : r ∈ bs
      · have h1 := hcount r hrb hne
        have hp1 := hpos r hrb hne
        omega
      · have hz : bs.count r = 0 := count_eq_zero.mpr hrb
        omega

end Free

/-- The free list of a fresh pool holds every block but the first, which is the null block. -/
theorem freeInv_init {n : Nat} {caching : Bool} {hashBlockSize : Nat} {events ints : Bool}
    {p : BlockPool} (h : BlockPool.init n caching hashBlockSize events ints = .ok p) :
    FreeInv p ((List.range (n - 1)).map fun i => .block (i + 1)) ∧
      p.nullBlock = .block 0 ∧ p.numGpuBlocks = n ∧ (∀ r, refCntOf p r = 0) ∧
      p.enableCaching = caching := by
  obtain ⟨u, hn, h⟩ := bind_ok h
  obtain ⟨⟨nullBlock, q⟩, hpop, h⟩ := bind_ok h
  obtain rfl := Except.ok.inj h
  have hpos : 0 < n := of_decide_eq_true (pyAssert_eq_ok_iff.mp hn)
  obtain ⟨k, rfl⟩ : ∃ k, n = k + 1 := ⟨n - 1, by omega⟩
  have hlist := freeList_init (k + 1)
  rw [range_succ_eq_map, map_cons, map_map] at hlist
  obtain ⟨q', hpop', hq'⟩ := popleft_spec hlist
  rw [hpop'] at hpop
  obtain ⟨rfl, rfl⟩ := Prod.mk.inj (Except.ok.inj hpop)
  have hdata := sameData_popleft hpop'
  have hfresh : ∀ r, ((FreeKVCacheBlockQueue.init (k + 1)).heap r).refCnt = 0 ∧
      ((FreeKVCacheBlockQueue.init (k + 1)).heap r).isNull = false := by
    intro r
    cases r with
    | block i =>
      simp only [FreeKVCacheBlockQueue.init]
      split <;> exact ⟨rfl, rfl⟩
    | fakeHead => exact ⟨rfl, rfl⟩
    | fakeTail => exact ⟨rfl, rfl⟩
  have hcnt : ∀ r, (q'.heap r).refCnt = 0 := fun r => (hdata.refCnt r).trans (hfresh r).1
  have hnull : ∀ r, (q'.heap r).isNull = false := fun r => (hdata.isNull r).trans (hfresh r).2
  -- The last statement of `__init__` marks the popped block; it keeps links and counts.
  generalize hP : BlockPool.mk (k + 1) caching hashBlockSize q' {} (.block 0) events ints [] = P
  have hheap : ∀ r, P.deref r = q'.heap r := fun r => by rw [← hP]; rfl
  have hPn : (P.modify (.block 0) fun b => { b with isNull := true }).nullBlock = .block 0 := by
    rw [← hP]
    rfl
  have hPg : (P.modify (.block 0) fun b => { b with isNull := true }).numGpuBlocks = k + 1 := by
    rw [← hP]
    rfl
  have hcntP : ∀ r, refCntOf (P.modify (.block 0) fun b => { b with isNull := true }) r = 0 := by
    intro r
    unfold refCntOf
    rw [deref_modify]
    split
    · rw [hheap]
      exact hcnt _
    · rw [hheap]
      exact hcnt r
  refine ⟨⟨?_, ?_, ?_, ?_, ?_⟩, ?_, ?_, hcntP, ?_⟩
  · have hmap : (List.range (k + 1 - 1)).map (fun i => BlockRef.block (i + 1))
        = (List.range k).map (BlockRef.block ∘ Nat.succ) := rfl
    rw [hmap]
    refine hq'.of_links_eq ?_ ?_ ?_
    · funext r
      show ((P.modify _ _).deref r).nextFreeBlock = _
      rw [deref_modify]
      split
      · rename_i hr
        rw [hr, hheap]
        rfl
      · rw [hheap]
        rfl
    · funext r
      show ((P.modify _ _).deref r).prevFreeBlock = _
      rw [deref_modify]
      split
      · rename_i hr
        rw [hr, hheap]
        rfl
      · rw [hheap]
        rfl
    · rw [← hP]
      rfl
  · intro r
    unfold isNullOf
    rw [deref_modify, hPn]
    split
    · rename_i hr
      simp [hr]
    · rename_i hr
      rw [hheap, hnull r]
      simp [hr]
  · rw [hPn, hPg]
    simp [InPool]
  · intro r
    rw [hcntP r, hPn, hPg, Nat.add_sub_cancel]
    cases r with
    | block i =>
      simp only [InPool, mem_map, mem_range, decide_eq_true_eq,
        BlockRef.block.injEq, ne_eq, and_true]
      constructor
      · rintro ⟨j, hj, rfl⟩
        omega
      · rintro ⟨h1, h2⟩
        exact ⟨i - 1, by omega, by omega⟩
    | fakeHead => simp [InPool]
    | fakeTail => simp [InPool]
  · intro r _ _
    exact Int.le_of_eq (hcntP r).symm
  · exact hPn
  · exact hPg
  · rw [← hP]
    rfl

end Vllm.Proofs.Core
