import Vllm.Lib.Run
import Vllm.Proofs.Core.BlockPool

/-!
# `Vllm.Proofs.Core.PoolRun`: the hash map over every run of a block pool

A run of the pool is any sequence of its operations, with any arguments the operations take
without raising. The blocks an operation is given are blocks of the pool; nothing else is
asked of a caller, so the runs include callers that free or touch blocks they do not own.

* `poolAgree_init`, `poolAgree_step`: the map and the hashes agree in a fresh pool, and every
  operation keeps that.
* `mapMatchesBlocks_of_run`: hence they agree in every reachable pool, in each of the two
  representations of a value of the map, and a lookup is right about every group.
-/

set_option autoImplicit false

namespace Vllm.Proofs.Core

open Vllm.Lib Vllm.V1 Vllm.V1.Core
open Vllm.V1.Core.BlockPool

/-- The operations of a block pool, with their arguments. -/
inductive PoolOp where
  | cacheFullBlocks (request : Request) (blocks : List BlockRef)
      (numCachedBlocks numFullBlocks blockSize : Nat) (kvCacheGroupId : UInt32)
  | getNewBlocks (numBlocks : Nat)
  | touch (blocks : List (List BlockRef))
  | freeBlocks (orderedBlocks : List BlockRef)
  | evictBlocks (blockIds : List Nat)
  | resetPrefixCache

/-- Runs one operation. -/
def poolStep (p : BlockPool) : PoolOp → Except PyError BlockPool
  | .cacheFullBlocks request blocks c f blockSize g =>
    p.cacheFullBlocks request blocks c f blockSize g
  | .getNewBlocks n => do
      let (_, p) ← p.getNewBlocks n
      return p
  | .touch blocks => p.touch blocks
  | .freeBlocks blocks => p.freeBlocks blocks
  | .evictBlocks ids => p.evictBlocks ids
  | .resetPrefixCache => .ok p.resetPrefixCache.2

/-- The blocks an operation is given are blocks of the pool. -/
def PoolOpValid (p : BlockPool) : PoolOp → Prop
  | .cacheFullBlocks _ blocks _ _ _ _ => ∀ r ∈ blocks, InPool p.numGpuBlocks r
  | .touch blocks => ∀ rs ∈ blocks, ∀ r ∈ rs, InPool p.numGpuBlocks r
  | .freeBlocks blocks => ∀ r ∈ blocks, InPool p.numGpuBlocks r
  | _ => True

instance (p : BlockPool) : (op : PoolOp) → Decidable (PoolOpValid p op)
  | .cacheFullBlocks _ blocks _ _ _ _ =>
    inferInstanceAs (Decidable (∀ r ∈ blocks, InPool p.numGpuBlocks r = true))
  | .touch blocks =>
    inferInstanceAs (Decidable (∀ rs ∈ blocks, ∀ r ∈ rs, InPool p.numGpuBlocks r = true))
  | .freeBlocks blocks =>
    inferInstanceAs (Decidable (∀ r ∈ blocks, InPool p.numGpuBlocks r = true))
  | .getNewBlocks _ => isTrue trivial
  | .evictBlocks _ => isTrue trivial
  | .resetPrefixCache => isTrue trivial

/-- The blocks that the map holds under a key, in either representation. -/
def collection (m : BlockHashToBlockMap) (k : BlockHashWithGroupId) : List BlockRef :=
  match m.cache.get? k with
  | none => []
  | some (.single b) => [b]
  | some (.dict d) => d.values

/-- What the map owes to the blocks of the pool. -/
structure MapMatchesBlocks (p : BlockPool) : Prop where
  /-- A block has the hash `k` exactly when the map holds it under `k`, and in a dictionary
  under its own id. -/
  hash_iff : ∀ b k, (p.deref b).blockHash = some k ↔ Holds p.cachedBlockHashToBlock k b
  /-- Nothing else is in the collection of a key. -/
  mem_collection_iff : ∀ b k,
    b ∈ collection p.cachedBlockHashToBlock k ↔ Holds p.cachedBlockHashToBlock k b
  /-- No key has an empty collection. -/
  collection_ne_nil : ∀ k ∈ p.cachedBlockHashToBlock.cache.keys,
    collection p.cachedBlockHashToBlock k ≠ []
  /-- No collection has a block twice. -/
  collection_nodup : ∀ k, (collection p.cachedBlockHashToBlock k).Nodup
  /-- `get_cached_block` is `None` exactly when some group has no block with the hash. -/
  getCachedBlock_none_iff : ∀ h gs, p.getCachedBlock h gs = .ok none ↔
    ∃ g ∈ gs, ∀ b, (p.deref b).blockHash ≠ some (makeBlockHashWithGroupId h g)
  /-- Otherwise it returns one block with the hash for each group. -/
  getCachedBlock_some : ∀ h gs, p.getCachedBlock h gs ≠ .ok none →
    ∃ bs, p.getCachedBlock h gs = .ok (some bs) ∧ List.Forall₂
      (fun g b => (p.deref b).blockHash = some (makeBlockHashWithGroupId h g)) gs bs

/-- No block of a fresh pool has a hash. -/
theorem hashOf_init {n : Nat} {caching : Bool} {hashBlockSize : Nat} {events ints : Bool}
    {p : BlockPool} (h : BlockPool.init n caching hashBlockSize events ints = .ok p)
    (r : BlockRef) : hashOf p r = none := by
  obtain ⟨u, -, h⟩ := bind_ok h
  obtain ⟨⟨nullBlock, queue⟩, hpop, h⟩ := bind_ok h
  cases h
  have hfresh : ((FreeKVCacheBlockQueue.init n).heap r).blockHash = none := by
    cases r with
    | block i =>
      simp only [FreeKVCacheBlockQueue.init]
      split <;> rfl
    | fakeHead => rfl
    | fakeTail => rfl
  unfold hashOf
  rw [deref_modify]
  have hqueue := (sameData_popleft hpop).blockHash
  split
  · exact (hqueue nullBlock).trans (by rename_i hr; rw [← hr]; exact hfresh)
  · exact (hqueue r).trans hfresh

/-- The map of a fresh pool is empty. -/
theorem poolAgree_init {n : Nat} {caching : Bool} {hashBlockSize : Nat} {events ints : Bool}
    {p : BlockPool} (h : BlockPool.init n caching hashBlockSize events ints = .ok p) :
    PoolAgree p := by
  have hhash := hashOf_init h
  obtain ⟨u, -, h⟩ := bind_ok h
  obtain ⟨⟨nullBlock, queue⟩, -, h⟩ := bind_ok h
  cases h
  exact MapAgree.empty hhash

/-- Every operation keeps the agreement. -/
theorem poolAgree_step {p p' : BlockPool} {op : PoolOp} (h : PoolAgree p) (hv : PoolOpValid p op)
    (hstep : poolStep p op = .ok p') : PoolAgree p' := by
  cases op with
  | cacheFullBlocks request blocks c f bs g =>
    refine (cacheFullBlocks_spec h (fun r hr => inPool_iff.mp (hv r ?_)) hstep).agree
    exact List.mem_of_mem_take (List.mem_of_mem_drop hr)
  | getNewBlocks n =>
    obtain ⟨⟨ret, p1⟩, hrun, hstep⟩ := bind_ok hstep
    cases hstep
    exact mapAgree_getNewBlocks h hrun
  | touch blocks => exact mapAgree_touch h hstep
  | freeBlocks blocks => exact mapAgree_freeBlocks h hstep
  | evictBlocks ids => exact (evictBlocks_spec h hstep).agree
  | resetPrefixCache =>
    cases hstep
    exact (resetPrefixCache_spec h).agree

section Lookup
variable {p : BlockPool}

/-- The loop of `get_cached_block`: one block for each group, or the first group that has
none. -/
theorem getCachedBlock_spec (h : PoolAgree p) (bh : BlockHash) (gs : List UInt32) :
    (∃ bs, p.getCachedBlock bh gs = .ok (some bs) ∧ List.Forall₂
        (fun g b => hashOf p b = some (makeBlockHashWithGroupId bh g)) gs bs) ∨
      (p.getCachedBlock bh gs = .ok none ∧
        ∃ g ∈ gs, ∀ b, hashOf p b ≠ some (makeBlockHashWithGroupId bh g)) := by
  induction gs with
  | nil => exact .inl ⟨[], rfl, .nil⟩
  | cons g gs ih =>
    rcases MapAgree.getOneBlock h (makeBlockHashWithGroupId bh g) with
      ⟨b, hget, hb⟩ | ⟨hget, hnone⟩
    · rcases ih with ⟨bs, hrec, hall⟩ | ⟨hrec, g', hg', hnone⟩
      · refine .inl ⟨b :: bs, ?_, .cons hb hall⟩
        simp only [BlockPool.getCachedBlock, hget, hrec, except_ok_bind]
        rfl
      · refine .inr ⟨?_, g', by simp [hg'], hnone⟩
        simp only [BlockPool.getCachedBlock, hget, hrec, except_ok_bind]
        rfl
    · refine .inr ⟨?_, g, by simp, hnone⟩
      simp only [BlockPool.getCachedBlock, hget, except_ok_bind]
      rfl

theorem forall₂_exists_of_mem {α β : Type} {R : α → β → Prop} {as : List α} {bs : List β}
    (h : List.Forall₂ R as bs) {a : α} (ha : a ∈ as) : ∃ b ∈ bs, R a b := by
  induction h with
  | nil => simp at ha
  | cons hab _ ih =>
    rcases List.mem_cons.mp ha with rfl | ha
    · exact ⟨_, by simp, hab⟩
    · obtain ⟨b, hb, hR⟩ := ih ha
      exact ⟨b, by simp [hb], hR⟩

theorem mem_collection_iff_holds (h : PoolAgree p) (b : BlockRef) (k : BlockHashWithGroupId) :
    b ∈ collection p.cachedBlockHashToBlock k ↔ Holds p.cachedBlockHashToBlock k b := by
  unfold collection
  split
  · rename_i hk
    simp [holds_of_get?_none hk]
  · rename_i b' hk
    rw [holds_single_iff hk, List.mem_singleton, eq_comm]
  · rename_i d hk
    rw [holds_dict_iff hk, PyDict.mem_values_iff]
    constructor
    · rintro ⟨id, hid⟩
      rw [(h.dict_ok k d hk).2 id b hid]
      exact hid
    · intro hb
      exact ⟨b.blockId, hb⟩

theorem collection_nodup_of_agree (h : PoolAgree p) (k : BlockHashWithGroupId) :
    (collection p.cachedBlockHashToBlock k).Nodup := by
  unfold collection
  split
  · exact List.nodup_nil
  · exact List.nodup_singleton _
  · rename_i d hk
    exact (h.dict_ok k d hk).values_nodup

end Lookup

/-- In every pool that a run of operations reaches from a fresh one, the hash map and the
blocks agree. -/
theorem mapMatchesBlocks_of_run {n : Nat} {caching : Bool} {hashBlockSize : Nat}
    {events ints : Bool} {p₀ p : BlockPool}
    (hinit : BlockPool.init n caching hashBlockSize events ints = .ok p₀)
    (hrun : Run poolStep PoolOpValid p₀ p) :
    MapMatchesBlocks p := by
  have h : PoolAgree p :=
    hrun.invariant PoolAgree (poolAgree_init hinit) (fun _ _ _ h hv hs => poolAgree_step h hv hs)
  refine
    { hash_iff := h.holds_iff
      mem_collection_iff := mem_collection_iff_holds h
      collection_ne_nil := ?_
      collection_nodup := collection_nodup_of_agree h
      getCachedBlock_none_iff := ?_
      getCachedBlock_some := ?_ }
  · intro k hk
    obtain ⟨b, hb⟩ := MapAgree.exists_holds h hk
    exact List.ne_nil_of_mem ((mem_collection_iff_holds h b k).mpr ((h.holds_iff b k).mp hb))
  · intro bh gs
    constructor
    · intro hnone
      rcases getCachedBlock_spec h bh gs with ⟨bs, hsome, -⟩ | ⟨-, hg⟩
      · rw [hsome] at hnone
        cases hnone
      · exact hg
    · rintro ⟨g, hg, hno⟩
      rcases getCachedBlock_spec h bh gs with ⟨bs, -, hall⟩ | ⟨hnone, -⟩
      · obtain ⟨b, -, hb⟩ := forall₂_exists_of_mem hall hg
        exact absurd hb (hno b)
      · exact hnone
  · intro bh gs hne
    rcases getCachedBlock_spec h bh gs with hsome | ⟨hnone, -⟩
    · exact hsome
    · exact absurd hnone hne

/-- Two blocks of a pool of four are taken and cached under one hash. -/
theorem mapMatchesBlocks_two_equal_hashes : ∃ p₀ p : BlockPool,
    BlockPool.init 4 true 2 false false = .ok p₀ ∧
      Run poolStep PoolOpValid p₀ p ∧
      collection p.cachedBlockHashToBlock (makeBlockHashWithGroupId [7] 1) = [.block 1, .block 2] ∧
      MapMatchesBlocks p := by
  obtain ⟨p₀, p, hinit, hrun, hcol⟩ := exists_run_of_check poolStep PoolOpValid
    (fun p : BlockPool => collection p.cachedBlockHashToBlock (makeBlockHashWithGroupId [7] 1)
      = [.block 1, .block 2])
    (BlockPool.init 4 true 2 false false)
    [.getNewBlocks 2, .cacheFullBlocks { requestId := "a", blockHashes := [[7], [7]] }
      [.block 1, .block 2] 0 2 2 1] (by decide +kernel)
  exact ⟨p₀, p, hinit, hrun, hcol, mapMatchesBlocks_of_run hinit hrun⟩

end Vllm.Proofs.Core
