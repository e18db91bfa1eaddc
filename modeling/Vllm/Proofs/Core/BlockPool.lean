import Vllm.Proofs.Core.BlockMap
import Vllm.Proofs.Core.FreeQueue

/-!
# `Vllm.Proofs.Core.BlockPool`: what each operation of the block pool changes

The operations of the pool fall into two kinds. Caching, evicting and resetting write the
hashes and the map and leave the free list and the reference counts alone (`SameQueue`).
Touching and freeing write the free list and the reference counts and leave the hashes alone
(`SameHash`). `get_new_blocks` does both, one after the other.

* `MapAgree` is kept by every operation, for any blocks it is given: the lemmas
  `mapAgree_getNewBlocks`, `mapAgree_cacheFullBlocks`, `mapAgree_touch`,
  `mapAgree_freeBlocks`, `mapAgree_evictBlocks` and `mapAgree_resetPrefixCache`.
* `getCachedBlock_spec`: a lookup over several groups.
-/

set_option autoImplicit false

namespace Vllm.Proofs.Core

open Vllm.Lib Vllm.V1 Vllm.V1.Core Function List
open Vllm.V1.Core.FreeKVCacheBlockQueue Vllm.V1.Core.BlockPool

/-- The hashes of the block objects of a pool. -/
def hashOf (p : BlockPool) (r : BlockRef) : Option BlockHashWithGroupId :=
  (p.deref r).blockHash

/-- The reference counts of the block objects of a pool. -/
def refCntOf (p : BlockPool) (r : BlockRef) : Int := (p.deref r).refCnt

/-- The null marks of the block objects of a pool. -/
def isNullOf (p : BlockPool) (r : BlockRef) : Bool := (p.deref r).isNull

/-- What no operation of a pool writes. -/
def confOf (p : BlockPool) : Nat × Bool × Nat × BlockRef × Bool × Bool :=
  (p.numGpuBlocks, p.enableCaching, p.hashBlockSize, p.nullBlock, p.enableKvCacheEvents,
    p.useIntBlockHashes)

/-- The map and the hashes of a pool agree. -/
def PoolAgree (p : BlockPool) : Prop :=
  MapAgree p.numGpuBlocks (hashOf p) p.cachedBlockHashToBlock

/-- `p'` has the free list and the reference counts of `p`. -/
structure SameQueue (p p' : BlockPool) : Prop where
  next : p'.freeBlockQueue.next = p.freeBlockQueue.next
  prev : p'.freeBlockQueue.prev = p.freeBlockQueue.prev
  count : p'.freeBlockQueue.numFreeBlocks = p.freeBlockQueue.numFreeBlocks
  refCnt : refCntOf p' = refCntOf p
  isNull : isNullOf p' = isNullOf p
  conf : confOf p' = confOf p

namespace SameQueue

variable {p p' p'' : BlockPool}

theorem refl (p : BlockPool) : SameQueue p p := ⟨rfl, rfl, rfl, rfl, rfl, rfl⟩

theorem trans (h : SameQueue p p') (h' : SameQueue p' p'') : SameQueue p p'' :=
  ⟨h'.next.trans h.next, h'.prev.trans h.prev, h'.count.trans h.count,
    h'.refCnt.trans h.refCnt, h'.isNull.trans h.isNull, h'.conf.trans h.conf⟩

theorem numGpuBlocks (h : SameQueue p p') : p'.numGpuBlocks = p.numGpuBlocks :=
  (Prod.mk.inj h.conf).1

theorem nullBlock (h : SameQueue p p') : p'.nullBlock = p.nullBlock :=
  congrArg (fun c => c.2.2.2.1) h.conf

theorem freeList {L : List BlockRef} (h : SameQueue p p')
    (hL : FreeList p.freeBlockQueue L) : FreeList p'.freeBlockQueue L :=
  hL.of_links_eq h.next h.prev h.count

end SameQueue

/-- `p'` has the hashes and the map of `p`. -/
structure SameHash (p p' : BlockPool) : Prop where
  hash : hashOf p' = hashOf p
  map : p'.cachedBlockHashToBlock = p.cachedBlockHashToBlock
  isNull : isNullOf p' = isNullOf p
  conf : confOf p' = confOf p

namespace SameHash

variable {p p' p'' : BlockPool}

theorem refl (p : BlockPool) : SameHash p p := ⟨rfl, rfl, rfl, rfl⟩

theorem trans (h : SameHash p p') (h' : SameHash p' p'') : SameHash p p'' :=
  ⟨h'.hash.trans h.hash, h'.map.trans h.map, h'.isNull.trans h.isNull, h'.conf.trans h.conf⟩

theorem numGpuBlocks (h : SameHash p p') : p'.numGpuBlocks = p.numGpuBlocks :=
  (Prod.mk.inj h.conf).1

theorem nullBlock (h : SameHash p p') : p'.nullBlock = p.nullBlock :=
  congrArg (fun c => c.2.2.2.1) h.conf

theorem poolAgree (h : SameHash p p') (ha : PoolAgree p) : PoolAgree p' := by
  unfold PoolAgree
  rw [h.hash, h.map, h.numGpuBlocks]
  exact ha

end SameHash

section Modify
variable (p : BlockPool) (r r' : BlockRef) (f : KVCacheBlock → KVCacheBlock)

theorem deref_modify : (p.modify r f).deref r' = if r' = r then f (p.deref r) else p.deref r' := by
  unfold BlockPool.modify BlockPool.deref
  by_cases h : r' = r
  · subst h
    simp
  · simp [h]

/-- Overwriting the hash of a block is a write to the hashes only. -/
theorem hashOf_modify_hash (h : Option BlockHashWithGroupId) :
    hashOf (p.modify r fun b => { b with blockHash := h }) = update (hashOf p) r h := by
  funext r'
  by_cases hr : r' = r
  · subst hr
    simp [hashOf, deref_modify]
  · simp [hashOf, deref_modify, hr]

theorem sameQueue_modify_hash (h : Option BlockHashWithGroupId) :
    SameQueue p (p.modify r fun b => { b with blockHash := h }) := by
  refine ⟨?_, ?_, rfl, ?_, ?_, rfl⟩
  · funext r'
    show ((p.modify r _).deref r').nextFreeBlock = (p.deref r').nextFreeBlock
    rw [deref_modify]
    split <;> simp_all
  · funext r'
    show ((p.modify r _).deref r').prevFreeBlock = (p.deref r').prevFreeBlock
    rw [deref_modify]
    split <;> simp_all
  · funext r'
    unfold refCntOf
    rw [deref_modify]
    split <;> simp_all
  · funext r'
    unfold isNullOf
    rw [deref_modify]
    split <;> simp_all

/-- Overwriting the reference count of a block is a write to the counts only. -/
theorem refCntOf_modify_refCnt (g : Int → Int) :
    refCntOf (p.modify r fun b => { b with refCnt := g b.refCnt })
      = update (refCntOf p) r (g (refCntOf p r)) := by
  funext r'
  by_cases hr : r' = r
  · subst hr
    simp [refCntOf, deref_modify]
  · simp [refCntOf, deref_modify, hr]

theorem sameHash_modify_refCnt (g : Int → Int) :
    SameHash p (p.modify r fun b => { b with refCnt := g b.refCnt }) := by
  refine ⟨?_, rfl, ?_, rfl⟩
  · funext r'
    unfold hashOf
    rw [deref_modify]
    split <;> simp_all
  · funext r'
    unfold isNullOf
    rw [deref_modify]
    split <;> simp_all

theorem next_modify_refCnt (g : Int → Int) :
    (p.modify r fun b => { b with refCnt := g b.refCnt }).freeBlockQueue.next
      = p.freeBlockQueue.next := by
  funext r'
  show ((p.modify r _).deref r').nextFreeBlock = (p.deref r').nextFreeBlock
  rw [deref_modify]
  split <;> simp_all

theorem prev_modify_refCnt (g : Int → Int) :
    (p.modify r fun b => { b with refCnt := g b.refCnt }).freeBlockQueue.prev
      = p.freeBlockQueue.prev := by
  funext r'
  show ((p.modify r _).deref r').prevFreeBlock = (p.deref r').prevFreeBlock
  rw [deref_modify]
  split <;> simp_all

theorem freeList_modify_refCnt {L : List BlockRef} (g : Int → Int)
    (h : FreeList p.freeBlockQueue L) :
    FreeList (p.modify r fun b => { b with refCnt := g b.refCnt }).freeBlockQueue L :=
  h.of_links_eq (next_modify_refCnt p r g) (prev_modify_refCnt p r g) rfl

end Modify

variable {q : FreeKVCacheBlockQueue}

/-- A new queue that only differs in its links keeps the hashes. -/
theorem sameHash_withQueue (p : BlockPool) (h : SameData p.freeBlockQueue q) :
    SameHash p { p with freeBlockQueue := q } :=
  ⟨funext h.blockHash, rfl, funext h.isNull, rfl⟩

/-- A new queue that only differs in its links keeps the reference counts. -/
theorem refCntOf_withQueue (p : BlockPool) (h : SameData p.freeBlockQueue q) :
    refCntOf { p with freeBlockQueue := q } = refCntOf p :=
  funext h.refCnt

section Evict
variable (p : BlockPool) (b : BlockRef)

theorem sameQueue_maybeEvictCachedBlock : SameQueue p (p.maybeEvictCachedBlock b).2 := by
  unfold maybeEvictCachedBlock
  split
  · exact SameQueue.refl p
  · split
    · exact ⟨rfl, rfl, rfl, rfl, rfl, rfl⟩
    · rename_i m _
      have hmod := sameQueue_modify_hash { p with cachedBlockHashToBlock := m } b none
      dsimp only
      split
      · exact ⟨hmod.next, hmod.prev, hmod.count, hmod.refCnt, hmod.isNull, hmod.conf⟩
      · exact ⟨hmod.next, hmod.prev, hmod.count, hmod.refCnt, hmod.isNull, hmod.conf⟩

variable {p}

/-- Evicting a block clears its hash, and the map and the hashes still agree. -/
theorem maybeEvictCachedBlock_spec (h : PoolAgree p) : PoolAgree (p.maybeEvictCachedBlock b).2 ∧
      hashOf (p.maybeEvictCachedBlock b).2 = update (hashOf p) b none := by
  unfold maybeEvictCachedBlock
  split
  · rename_i hb
    refine ⟨h, ?_⟩
    have hb' : hashOf p b = none := hb
    rw [← hb', update_eq_self]
  · rename_i k hb
    obtain ⟨m', hpop, hagree⟩ := MapAgree.pop h (r := b) (k := k) hb
    rw [hpop]
    have hhash := hashOf_modify_hash { p with cachedBlockHashToBlock := m' } b none
    have hagree' : MapAgree p.numGpuBlocks (hashOf ({ p with
        cachedBlockHashToBlock := m' }.modify b fun b => { b with blockHash := none })) m' := by
      rw [hhash]
      exact hagree
    dsimp only
    split
    · exact ⟨hagree', hhash⟩
    · exact ⟨hagree', hhash⟩

end Evict

/-- The effect of the loop of `get_new_blocks` on the popped blocks `X`: each is evicted (with
caching on) and gets a reference, and the links stay. -/
structure NewBlocks (p p' : BlockPool) (X : List BlockRef) : Prop where
  agree : PoolAgree p'
  hash_other : ∀ r, r ∉ X → hashOf p' r = hashOf p r
  hash_new : p.enableCaching = true → ∀ r ∈ X, hashOf p' r = none
  hash_none : ∀ r, hashOf p r = none → hashOf p' r = none
  refCnt_other : ∀ r, r ∉ X → refCntOf p' r = refCntOf p r
  refCnt_new : X.Nodup → ∀ r ∈ X, refCntOf p r = 0 ∧ refCntOf p' r = 1
  isNull : isNullOf p' = isNullOf p
  conf : confOf p' = confOf p
  next : p'.freeBlockQueue.next = p.freeBlockQueue.next
  prev : p'.freeBlockQueue.prev = p.freeBlockQueue.prev
  count : p'.freeBlockQueue.numFreeBlocks = p.freeBlockQueue.numFreeBlocks

section GetNewBlocks
variable {p p' : BlockPool}

/-- One round: the block `x` is evicted and gets its first reference. -/
theorem newBlocks_singleton (x : BlockRef) (h : PoolAgree p) (hzero : refCntOf p x = 0) :
    NewBlocks p ((if p.enableCaching then (p.maybeEvictCachedBlock x).2 else p).modify x
      fun b => { b with refCnt := b.refCnt + 1 }) [x] := by
  let p1 := if p.enableCaching then (p.maybeEvictCachedBlock x).2 else p
  have hq : SameQueue p p1 := by
    by_cases hc : p.enableCaching
    · simp only [p1, hc, if_true]
      exact sameQueue_maybeEvictCachedBlock p x
    · simp only [p1, hc]
      exact SameQueue.refl p
  have hh : PoolAgree p1 ∧ (hashOf p1 = update (hashOf p) x none ∨
      (p.enableCaching = false ∧ hashOf p1 = hashOf p)) := by
    by_cases hc : p.enableCaching
    · obtain ⟨ha, hu⟩ := maybeEvictCachedBlock_spec x h
      simp only [p1, hc, if_true]
      exact ⟨ha, .inl hu⟩
    · simp only [p1, hc]
      exact ⟨h, .inr ⟨by simp, rfl⟩⟩
  obtain ⟨ha, hhash⟩ := hh
  have hs : SameHash p1 (p1.modify x fun b => { b with refCnt := b.refCnt + 1 }) :=
    sameHash_modify_refCnt p1 x (· + 1)
  have hr : refCntOf (p1.modify x fun b => { b with refCnt := b.refCnt + 1 })
      = update (refCntOf p1) x (refCntOf p1 x + 1) :=
    refCntOf_modify_refCnt p1 x (· + 1)
  refine
    { agree := hs.poolAgree ha, hash_other := ?_, hash_new := ?_, hash_none := ?_
      refCnt_other := ?_, refCnt_new := ?_
      isNull := hs.isNull.trans hq.isNull, conf := hs.conf.trans hq.conf
      next := (next_modify_refCnt p1 x (· + 1)).trans hq.next
      prev := (prev_modify_refCnt p1 x (· + 1)).trans hq.prev
      count := hq.count }
  · intro r hrx
    rw [hs.hash]
    rcases hhash with hu | ⟨-, hu⟩
    · rw [hu, update_of_ne (by simpa using hrx)]
    · rw [hu]
  · intro hc r hrx
    obtain rfl : r = x := by simpa using hrx
    rw [hs.hash]
    rcases hhash with hu | ⟨hc', -⟩
    · rw [hu, update_self]
    · exact absurd hc (by simp [hc'])
  · intro r hnone
    rw [hs.hash]
    rcases hhash with hu | ⟨-, hu⟩
    · rw [hu]
      by_cases hrx : r = x
      · simp [hrx]
      · rw [update_of_ne hrx, hnone]
    · rw [hu, hnone]
  · intro r hrx
    rw [hr, update_of_ne (by simpa using hrx), hq.refCnt]
  · intro _ r hrx
    obtain rfl : r = x := by simpa using hrx
    rw [hr, update_self, hq.refCnt, hzero]
    exact ⟨rfl, rfl⟩

theorem NewBlocks.cons {p1 : BlockPool} {x : BlockRef} {X : List BlockRef}
    (h1 : NewBlocks p p1 [x]) (h : NewBlocks p1 p' X) : NewBlocks p p' (x :: X) where
  __ := h
  hash_other r hr := by
    obtain ⟨hrx, hrX⟩ := not_or.mp (mt mem_cons.mpr hr)
    rw [h.hash_other r hrX, h1.hash_other r (by simpa using hrx)]
  hash_new hc r hr := by
    have hc1 : p1.enableCaching = true := (congrArg (fun c => c.2.1) h1.conf).trans hc
    rcases mem_cons.mp hr with rfl | hrX
    · exact h.hash_none r (h1.hash_new hc r (by simp))
    · exact h.hash_new hc1 r hrX
  hash_none r hr := h.hash_none r (h1.hash_none r hr)
  refCnt_other r hr := by
    obtain ⟨hrx, hrX⟩ := not_or.mp (mt mem_cons.mpr hr)
    rw [h.refCnt_other r hrX, h1.refCnt_other r (by simpa using hrx)]
  refCnt_new hnd r hr := by
    obtain ⟨hx, hX⟩ := nodup_cons.mp hnd
    rcases mem_cons.mp hr with rfl | hrX
    · rw [h.refCnt_other r hx]
      exact h1.refCnt_new (by simp) r (by simp)
    · have hrx : r ∉ [x] := fun hrx => hx (by rw [← mem_singleton.mp hrx]; exact hrX)
      rw [← h1.refCnt_other r hrx]
      exact h.refCnt_new hX r hrX
  isNull := h.isNull.trans h1.isNull
  conf := h.conf.trans h1.conf
  next := h.next.trans h1.next
  prev := h.prev.trans h1.prev
  count := h.count.trans h1.count

variable {X : List BlockRef}

/-- The loop of `get_new_blocks` over the popped blocks. -/
theorem getNewBlocksLoop_spec (h : PoolAgree p) (hrun : getNewBlocksLoop X p = .ok p') :
    NewBlocks p p' X := by
  induction X generalizing p with
  | nil =>
    cases hrun
    exact ⟨h, by simp, by simp, by simp, by simp, by simp, rfl, rfl, rfl, rfl, rfl⟩
  | cons x X ih =>
    obtain ⟨u, hassert, hrest⟩ := bind_ok hrun
    have hq : SameQueue p (if p.enableCaching then (p.maybeEvictCachedBlock x).2 else p) := by
      split
      · exact sameQueue_maybeEvictCachedBlock p x
      · exact SameQueue.refl p
    have hzero : refCntOf p x = 0 := by
      rw [← hq.refCnt]
      exact of_decide_eq_true (pyAssert_eq_ok_iff.mp hassert)
    have h1 := newBlocks_singleton x h hzero
    exact h1.cons (ih h1.agree hrest)

/-- The loop of `get_new_blocks` does not raise on distinct blocks without a reference. -/
theorem getNewBlocksLoop_ok (h : PoolAgree p) (hX : X.Nodup) (hzero : ∀ r ∈ X, refCntOf p r = 0) :
    ∃ p', getNewBlocksLoop X p = .ok p' := by
  induction X generalizing p with
  | nil => exact ⟨p, rfl⟩
  | cons x X ih =>
    obtain ⟨hx, hX'⟩ := nodup_cons.mp hX
    have hq : SameQueue p (if p.enableCaching then (p.maybeEvictCachedBlock x).2 else p) := by
      split
      · exact sameQueue_maybeEvictCachedBlock p x
      · exact SameQueue.refl p
    have hx0 := hzero x (by simp)
    have h1 := newBlocks_singleton x h hx0
    have hassert : pyAssert (decide (((if p.enableCaching then
        (p.maybeEvictCachedBlock x).2 else p).deref x).refCnt = 0)) "block.ref_cnt == 0"
        = .ok () := by
      refine pyAssert_eq_ok_iff.mpr (decide_eq_true ?_)
      rw [← hx0, ← hq.refCnt]
      rfl
    obtain ⟨p', hp'⟩ := ih h1.agree hX' (fun r hr => by
      rw [h1.refCnt_other r (fun hrx => hx (by rw [← mem_singleton.mp hrx]; exact hr))]
      exact hzero r (by simp [hr]))
    exact ⟨p', bind_eq_ok_iff.mpr ⟨(), hassert, hp'⟩⟩

/-- `get_new_blocks` pops blocks off the free list and runs the loop over them. -/
theorem getNewBlocks_eq_ok {n : Nat} (h : p.getNewBlocks n = .ok (X, p')) :
    ∃ q, p.freeBlockQueue.popleftN n = .ok (X, q) ∧
      getNewBlocksLoop X { p with freeBlockQueue := q } = .ok p' := by
  unfold getNewBlocks at h
  split at h
  · cases h
  · obtain ⟨⟨X', q⟩, hpop, h⟩ := bind_ok h
    obtain ⟨p1, hloop, h⟩ := bind_ok h
    cases h
    exact ⟨q, hpop, hloop⟩

theorem mapAgree_getNewBlocks {n : Nat} (h : PoolAgree p) (hrun : p.getNewBlocks n = .ok (X, p')) :
    PoolAgree p' := by
  obtain ⟨q, hpop, hloop⟩ := getNewBlocks_eq_ok hrun
  have hs := sameHash_withQueue p (sameData_popleftN hpop)
  exact (getNewBlocksLoop_spec (hs.poolAgree h) hloop).agree

end GetNewBlocks

section Cache
variable {p p' : BlockPool}

/-- The effect of caching the blocks `X`: they get a hash, and the map and the hashes still
agree. -/
structure Cached (p p' : BlockPool) (X : List BlockRef) : Prop where
  queue : SameQueue p p'
  agree : PoolAgree p'
  hash_other : ∀ r, r ∉ X → hashOf p' r = hashOf p r

/-- The loop of `cache_full_blocks`, on blocks of the pool. -/
theorem cacheFullBlocksLoop_spec {g : UInt32} {X : List BlockRef} {hs : List BlockHash}
    (h : PoolAgree p) (hX : ∀ r ∈ X, ∃ i, i < p.numGpuBlocks ∧ r = .block i)
    (hrun : cacheFullBlocksLoop g X hs p = .ok p') : Cached p p' X := by
  induction X generalizing p hs with
  | nil =>
    obtain rfl := Except.ok.inj hrun
    exact ⟨SameQueue.refl p, h, fun _ _ => rfl⟩
  | cons x X ih =>
    cases hs with
    | nil => cases hrun
    | cons bh hs =>
      obtain ⟨u, hassert, hrun⟩ := bind_ok hrun
      obtain ⟨p1, hset, hrun⟩ := bind_ok hrun
      obtain ⟨u', -, hmod⟩ := bind_ok hset
      obtain rfl := Except.ok.inj hmod
      have hnone : hashOf p x = none := Option.isNone_iff_eq_none.mp (pyAssert_eq_ok_iff.mp hassert)
      obtain ⟨i, hi, hx⟩ := hX x (by simp)
      let key := makeBlockHashWithGroupId bh g
      let p2 := p.modify x fun b => { b with blockHash := some key }
      let p3 : BlockPool :=
        { p2 with cachedBlockHashToBlock := p2.cachedBlockHashToBlock.insert key x }
      have hhash : hashOf p3 = update (hashOf p) x (some key) := hashOf_modify_hash p x (some key)
      have hq : SameQueue p p3 := by
        have hq2 := sameQueue_modify_hash p x (some key)
        exact ⟨hq2.next, hq2.prev, hq2.count, hq2.refCnt, hq2.isNull, hq2.conf⟩
      have hagree : PoolAgree p3 := by
        unfold PoolAgree
        rw [hhash]
        exact MapAgree.insert h hx hi hnone key
      have hX' : ∀ r ∈ X, ∃ i, i < p3.numGpuBlocks ∧ r = .block i := fun r hr => hX r (by simp [hr])
      obtain ⟨hq', ha', hout⟩ := ih hagree hX' hrun
      refine ⟨hq.trans hq', ha', ?_⟩
      intro r hr
      obtain ⟨hrx, hrX⟩ := not_or.mp (mt mem_cons.mpr hr)
      rw [hout r hrX, hhash, update_of_ne hrx]

/-- `cache_full_blocks` caches the blocks from the cached ones up to the full ones. -/
theorem cacheFullBlocks_spec {req : Request} {blocks : List BlockRef} {c f bs : Nat}
    {g : UInt32} (h : PoolAgree p)
    (hX : ∀ r ∈ (blocks.take f).drop c, ∃ i, i < p.numGpuBlocks ∧ r = .block i)
    (hrun : p.cacheFullBlocks req blocks c f bs g = .ok p') :
    Cached p p' ((blocks.take f).drop c) := by
  unfold cacheFullBlocks at hrun
  split at hrun
  · cases hrun
    exact ⟨SameQueue.refl p, h, fun _ _ => rfl⟩
  · obtain ⟨u, -, hrun⟩ := bind_ok hrun
    obtain ⟨hashes, -, hrun⟩ := bind_ok hrun
    obtain ⟨p1, hloop, hrun⟩ := bind_ok hrun
    obtain ⟨hq, ha, hout⟩ := cacheFullBlocksLoop_spec h hX hloop
    split at hrun
    · obtain ⟨ev, -, hrun⟩ := bind_ok hrun
      cases hrun
      exact ⟨⟨hq.next, hq.prev, hq.count, hq.refCnt, hq.isNull, hq.conf⟩, ha, hout⟩
    · cases hrun
      exact ⟨hq, ha, hout⟩

end Cache

section TouchAndFree
variable {p p' : BlockPool}

theorem sameHash_touchOne {b : BlockRef} (h : p.touchOne b = .ok p') : SameHash p p' := by
  obtain ⟨q, hq, h⟩ := bind_ok h
  cases h
  have hs : SameHash p { p with freeBlockQueue := q } := by
    split at hq
    · exact sameHash_withQueue p (sameData_remove hq)
    · cases hq
      exact SameHash.refl p
  exact hs.trans (sameHash_modify_refCnt _ b (· + 1))

variable {bs : List BlockRef}

/-- `touch` writes no hash. -/
theorem sameHash_foldlM_touchOne (h : bs.foldlM touchOne p = .ok p') : SameHash p p' := by
  induction bs generalizing p with
  | nil =>
    obtain rfl := Except.ok.inj h
    exact SameHash.refl p
  | cons b bs ih =>
    rw [foldlM_cons] at h
    obtain ⟨p1, h1, h⟩ := bind_ok h
    exact (sameHash_touchOne h1).trans (ih h)

theorem mapAgree_touch {bs : List (List BlockRef)} (h : PoolAgree p)
    (hrun : p.touch bs = .ok p') : PoolAgree p' :=
  (sameHash_foldlM_touchOne hrun).poolAgree h

theorem sameHash_decRefCnts (bs : List BlockRef) : SameHash p (p.decRefCnts bs) := by
  unfold decRefCnts
  induction bs generalizing p with
  | nil => exact SameHash.refl p
  | cons b bs ih =>
    rw [foldl_cons]
    exact (sameHash_modify_refCnt p b (· - 1)).trans ih

/-- `free_blocks` writes no hash. -/
theorem sameHash_freeBlocks (h : p.freeBlocks bs = .ok p') : SameHash p p' := by
  obtain ⟨q, hq, h⟩ := bind_ok h
  cases h
  exact (sameHash_decRefCnts bs).trans (sameHash_withQueue _ (sameData_appendN hq))

theorem mapAgree_freeBlocks (h : PoolAgree p) (hrun : p.freeBlocks bs = .ok p') : PoolAgree p' :=
  (sameHash_freeBlocks hrun).poolAgree h

end TouchAndFree

section EvictAndReset
variable {p p' : BlockPool}

/-- The effect of clearing hashes. -/
structure Cleared (p p' : BlockPool) : Prop where
  queue : SameQueue p p'
  agree : PoolAgree p'
  hash : ∀ r, hashOf p' r = hashOf p r ∨ hashOf p' r = none

theorem evictBlocks_spec {ids : List Nat} (h : PoolAgree p)
    (hrun : evictBlocks ids p = .ok p') : Cleared p p' := by
  induction ids generalizing p with
  | nil =>
    obtain rfl := Except.ok.inj hrun
    exact ⟨SameQueue.refl p, h, fun _ => .inl rfl⟩
  | cons i ids ih =>
    obtain ⟨u, -, hrun⟩ := bind_ok hrun
    obtain ⟨ha, hh⟩ := maybeEvictCachedBlock_spec (.block i) h
    obtain ⟨hq', ha', hout⟩ := ih ha hrun
    refine ⟨(sameQueue_maybeEvictCachedBlock p (.block i)).trans hq', ha', ?_⟩
    intro r
    rcases hout r with hr | hr
    · rw [hr, hh]
      by_cases hri : r = .block i
      · right
        simp [hri]
      · left
        rw [update_of_ne hri]
    · exact .inr hr

/-- The loop of `reset_prefix_cache` over the ids `is`. -/
theorem resetHashes_foldl (is : List Nat) :
    let p' := is.foldl (fun p i => p.modify (.block i) fun b => { b with blockHash := none }) p
    SameQueue p p' ∧ p'.cachedBlockHashToBlock = p.cachedBlockHashToBlock ∧
      ∀ r, hashOf p' r = if ∃ i ∈ is, r = .block i then none else hashOf p r := by
  induction is generalizing p with
  | nil => exact ⟨SameQueue.refl p, rfl, by simp⟩
  | cons i is ih =>
    let p1 := p.modify (.block i) fun b => { b with blockHash := none }
    obtain ⟨hq, hm, hh⟩ := ih (p := p1)
    refine ⟨(sameQueue_modify_hash p (.block i) none).trans hq, hm, ?_⟩
    intro r
    have hstep : hashOf p1 = update (hashOf p) (.block i) none :=
      hashOf_modify_hash p (.block i) none
    show hashOf (is.foldl _ p1) r = _
    rw [hh r, hstep]
    by_cases hr : r = .block i
    · simp [hr]
    · simp [hr]

theorem resetPrefixCache_spec (h : PoolAgree p) : Cleared p p.resetPrefixCache.2 := by
  unfold resetPrefixCache
  dsimp only
  split
  · exact ⟨SameQueue.refl p, h, fun _ => .inl rfl⟩
  · let p1 : BlockPool := { p with cachedBlockHashToBlock := {} }
    obtain ⟨hq, hm, hh⟩ := resetHashes_foldl (p := p1) (List.range p1.numGpuBlocks)
    -- Only blocks of the pool have a hash, so none is left.
    have hnone : ∀ r, hashOf p1.resetHashes r = none := by
      intro r
      refine (hh r).trans ?_
      split
      · rfl
      · rename_i hr
        cases hk : hashOf p r with
        | none => exact hk
        | some k =>
          obtain ⟨i, hi, rfl⟩ := h.real r k hk
          exact absurd ⟨i, mem_range.mpr hi, rfl⟩ hr
    have hagree : MapAgree p1.resetHashes.numGpuBlocks (hashOf p1.resetHashes)
        p1.resetHashes.cachedBlockHashToBlock := by
      have hm' : p1.resetHashes.cachedBlockHashToBlock = {} := hm
      rw [hm']
      exact MapAgree.empty hnone
    have hq' : SameQueue p p1.resetHashes :=
      ⟨hq.next, hq.prev, hq.count, hq.refCnt, hq.isNull, hq.conf⟩
    split
    · exact ⟨⟨hq'.next, hq'.prev, hq'.count, hq'.refCnt, hq'.isNull, hq'.conf⟩, hagree,
        fun r => .inr (hnone r)⟩
    · exact ⟨hq', hagree, fun r => .inr (hnone r)⟩

end EvictAndReset

end Vllm.Proofs.Core
