import Mathlib.Tactic.Tauto
import Vllm.Proofs.Core.FreeInv
import Vllm.V1.Core.KVCacheManager

/-!
# `Vllm.Proofs.Core.Tables`: block tables and reference counts

`TableInv pool ms L` couples the pool with the block tables of all managers: the free list
holds the blocks without a reference, and the reference count of a block is the number of
places in the tables that hold it. Each operation of a manager keeps it; the other managers
of the coordinator stand around the one that works, as `A ++ m :: B`.

* `tableInv_allocateNewBlocks`, `tableInv_removeSkippedBlocks`, `tableInv_free`,
  `tableInv_cacheBlocks`: one lemma for each operation of a manager.
* `tableInv_touch_save`: taking a prefix hit for all groups.
-/

set_option autoImplicit false

namespace Vllm.Proofs.Core

open Vllm.Lib Vllm.V1 Vllm.V1.Core SingleTypeKVCacheManager List
open Vllm.V1.Core.BlockPool Vllm.V1.Core.SingleTypeKVCacheManager

/-- The number of places in the tables of a manager that hold `r`. -/
def tableCount (m : SingleTypeKVCacheManager) (r : BlockRef) : Nat :=
  (m.reqToBlocks.values.map (List.count r)).sum

/-- The number of pairs of a request and a position, over all managers, that hold `r`. -/
def holders (ms : List SingleTypeKVCacheManager) (r : BlockRef) : Nat :=
  (ms.map fun m => tableCount m r).sum

/-- The pool and the block tables of the managers agree; the free list is `L`. -/
structure TableInv (pool : BlockPool) (ms : List SingleTypeKVCacheManager)
    (L : List BlockRef) : Prop where
  free : FreeInv pool L
  agree : PoolAgree pool
  null : ∀ m ∈ ms, m.nullBlock = pool.nullBlock
  refCnt : ∀ r, InPool pool.numGpuBlocks r = true → r ≠ pool.nullBlock →
    refCntOf pool r = holders ms r
  inPool : ∀ m ∈ ms, ∀ t ∈ m.reqToBlocks.values, ∀ r ∈ t,
    InPool pool.numGpuBlocks r = true
  nodup : ∀ m ∈ ms, ∀ t ∈ m.reqToBlocks.values, (t.filter fun r => r ≠ pool.nullBlock).Nodup

section Counts
variable (m : SingleTypeKVCacheManager) (requestId : String) (r : BlockRef)

/-- Overwriting the table of a request exchanges the blocks of the old table for those of the
new one. -/
theorem tableCount_setTable (blocks : List BlockRef) :
    tableCount (m.setTable requestId blocks) r + (m.table requestId).count r
      = tableCount m r + blocks.count r := by
  have h := PyDict.sum_values_insert (List.count r) m.reqToBlocks requestId blocks
  unfold tableCount setTable table
  cases hget : m.reqToBlocks.get? requestId with
  | none =>
    rw [hget] at h
    simpa using h
  | some t =>
    rw [hget] at h
    simpa using h

theorem tableCount_reqBlocks : tableCount (m.reqBlocks requestId).2 r = tableCount m r := by
  have h := tableCount_setTable m requestId r (m.table requestId)
  unfold reqBlocks
  dsimp only
  omega

theorem tableCount_erase : tableCount { m with reqToBlocks := m.reqToBlocks.erase requestId } r
      + (m.table requestId).count r = tableCount m r := by
  have h := PyDict.sum_values_erase (List.count r) m.reqToBlocks requestId
  unfold tableCount table
  cases hget : m.reqToBlocks.get? requestId with
  | none =>
    rw [hget] at h
    simpa using h
  | some t =>
    rw [hget] at h
    simpa using h

theorem holders_append (A B : List SingleTypeKVCacheManager) :
    holders (A ++ m :: B) r = tableCount m r + holders (A ++ B) r := by
  unfold holders
  simp only [map_append, map_cons, sum_append, sum_cons]
  omega

/-- The table of a request is a value of the dictionary, unless the request has none. -/
theorem table_mem_or_nil : m.table requestId ∈ m.reqToBlocks.values ∨ m.table requestId = [] := by
  unfold table
  cases hget : m.reqToBlocks.get? requestId with
  | none => exact .inr rfl
  | some t => exact .inl ((PyDict.mem_values_iff _ t).mpr ⟨requestId, hget⟩)

variable {m requestId}

@[simp] theorem table_setTable (m : SingleTypeKVCacheManager) (requestId : String)
    (blocks : List BlockRef) : (m.setTable requestId blocks).table requestId = blocks := by
  simp [table, setTable]

theorem mem_values_setTable {blocks t : List BlockRef}
    (h : t ∈ (m.setTable requestId blocks).reqToBlocks.values) :
    t = blocks ∨ t ∈ m.reqToBlocks.values :=
  PyDict.mem_values_insert h

end Counts

namespace TableInv

variable {pool pool' : BlockPool} {A B ms : List SingleTypeKVCacheManager}
  {m m' : SingleTypeKVCacheManager} {L L' : List BlockRef}

theorem of_conf_eq (hconf : confOf pool' = confOf pool) :
    pool'.numGpuBlocks = pool.numGpuBlocks ∧ pool'.nullBlock = pool.nullBlock :=
  ⟨(Prod.mk.inj hconf).1, congrArg (fun c => c.2.2.2.1) hconf⟩

/-- The blocks of a table, and of the empty table of a request that has none. -/
theorem table_inPool (h : TableInv pool ms L) (hm : m ∈ ms) (requestId : String) :
    ∀ r ∈ m.table requestId, InPool pool.numGpuBlocks r = true := by
  intro r hr
  rcases table_mem_or_nil m requestId with hmem | hnil
  · exact h.inPool m hm _ hmem r hr
  · rw [hnil] at hr
    cases hr

theorem table_nodup (h : TableInv pool ms L) (hm : m ∈ ms) (requestId : String) :
    ((m.table requestId).filter fun r => r ≠ pool.nullBlock).Nodup := by
  rcases table_mem_or_nil m requestId with hmem | hnil
  · exact h.nodup m hm _ hmem
  · rw [hnil]
    exact nodup_nil

/-- A block in the table of a request has a reference. -/
theorem refCnt_pos (h : TableInv pool ms L) (hm : m ∈ ms) {requestId : String} {r : BlockRef}
    (hr : r ∈ m.table requestId) (hne : r ≠ pool.nullBlock) : 0 < refCntOf pool r := by
  obtain ⟨A, B, rfl⟩ := append_of_mem hm
  have hin := h.table_inPool hm requestId r hr
  have hcount : 0 < (m.table requestId).count r := count_pos_iff.mpr hr
  have herase := tableCount_erase m requestId r
  rw [h.refCnt r hin hne, holders_append]
  omega

/-- One manager works: the reference counts move with its tables, and a new table has
distinct blocks of the pool. -/
theorem replace (h : TableInv pool (A ++ m :: B) L) (hfree : FreeInv pool' L')
    (hagree : PoolAgree pool') (hconf : confOf pool' = confOf pool)
    (hnull : m'.nullBlock = m.nullBlock)
    (hcnt : ∀ r, InPool pool.numGpuBlocks r = true → r ≠ pool.nullBlock →
      refCntOf pool' r + tableCount m r = refCntOf pool r + tableCount m' r)
    (hval : ∀ t ∈ m'.reqToBlocks.values, t ∈ m.reqToBlocks.values ∨
      ((∀ r ∈ t, InPool pool.numGpuBlocks r = true) ∧
        (t.filter fun r => r ≠ pool.nullBlock).Nodup)) :
    TableInv pool' (A ++ m' :: B) L' := by
  obtain ⟨hgpu, hnb⟩ := of_conf_eq hconf
  have hm : m ∈ A ++ m :: B := by simp
  have hold : ∀ m1 ∈ A ++ m' :: B, m1 = m' ∨ m1 ∈ A ++ m :: B := by
    intro m1 hm1
    simp only [mem_append, mem_cons] at hm1 ⊢
    tauto
  refine ⟨hfree, hagree, ?_, ?_, ?_, ?_⟩
  · intro m1 hm1
    rw [hnb]
    rcases hold m1 hm1 with rfl | hm1
    · rw [hnull]
      exact h.null m hm
    · exact h.null m1 hm1
  · intro r hin hne
    rw [hgpu] at hin
    rw [hnb] at hne
    have hr := h.refCnt r hin hne
    have hc := hcnt r hin hne
    rw [holders_append] at hr ⊢
    omega
  · intro m1 hm1 t ht r hr
    rw [hgpu]
    rcases hold m1 hm1 with rfl | hm1
    · rcases hval t ht with hold | ⟨hin, -⟩
      · exact h.inPool m hm t hold r hr
      · exact hin r hr
    · exact h.inPool m1 hm1 t ht r hr
  · intro m1 hm1 t ht
    rw [hnb]
    rcases hold m1 hm1 with rfl | hm1
    · rcases hval t ht with hold | ⟨-, hnd⟩
      · exact h.nodup m hm t hold
      · exact hnd
    · exact h.nodup m1 hm1 t ht

/-- Writes to the hashes keep the reference counts and the tables. -/
theorem of_sameQueue (h : TableInv pool ms L) (hq : SameQueue pool pool')
    (hagree : PoolAgree pool') : TableInv pool' ms L := by
  obtain ⟨hgpu, hnb⟩ := of_conf_eq hq.conf
  refine ⟨h.free.of_sameQueue hq, hagree, ?_, ?_, ?_, ?_⟩
  · rw [hnb]
    exact h.null
  · rw [hgpu, hnb, hq.refCnt]
    exact h.refCnt
  · rw [hgpu]
    exact h.inPool
  · rw [hnb]
    exact h.nodup

/-- Reading `req_to_blocks[request_id]` changes no table. -/
theorem reqBlocks (h : TableInv pool (A ++ m :: B) L) (requestId : String) :
    TableInv pool (A ++ (m.reqBlocks requestId).2 :: B) L := by
  refine h.replace h.free h.agree rfl rfl ?_ ?_
  · intro r _ _
    rw [tableCount_reqBlocks]
  · intro t ht
    have hm : m ∈ A ++ m :: B := by simp
    rcases mem_values_setTable ht with rfl | hold
    · exact .inr ⟨h.table_inPool hm requestId, h.table_nodup hm requestId⟩
    · exact .inl hold

end TableInv

section Allocate
variable {pool pool' : BlockPool} {m m' : SingleTypeKVCacheManager} {requestId : String}
  {numTokens : Int} {X : List BlockRef}

/-- The blocks that `allocate_new_blocks` needs beyond the table of the request. -/
def blocksMissing (m : SingleTypeKVCacheManager) (requestId : String) (numTokens : Int) : Int :=
  cdiv (m.addSpeculativeTokens numTokens) m.blockSize - (m.table requestId).length

/-- `allocate_new_blocks` returns without new blocks, or appends new blocks to the table. -/
theorem allocateNewBlocks_eq_ok
    (h : m.allocateNewBlocks pool requestId numTokens = .ok (X, m', pool')) :
    (blocksMissing m requestId numTokens ≤ 0 ∧ X = [] ∧ m' = (m.reqBlocks requestId).2 ∧
        pool' = pool) ∨
      (0 < blocksMissing m requestId numTokens ∧
        pool.getNewBlocks (blocksMissing m requestId numTokens).toNat = .ok (X, pool') ∧
        m' = (m.reqBlocks requestId).2.setTable requestId (m.table requestId ++ X)) := by
  have hbody : (if blocksMissing m requestId numTokens ≤ 0 then
        (.ok ([], (m.reqBlocks requestId).2, pool) :
          Except PyError (List BlockRef × SingleTypeKVCacheManager × BlockPool))
      else pool.getNewBlocks (blocksMissing m requestId numTokens).toNat >>= fun x =>
        .ok (x.1, (m.reqBlocks requestId).2.setTable requestId (m.table requestId ++ x.1), x.2))
      = .ok (X, m', pool') := h
  split at hbody
  · rename_i hle
    obtain ⟨rfl, hpair⟩ := Prod.mk.inj (Except.ok.inj hbody)
    cases hpair
    exact .inl ⟨hle, rfl, rfl, rfl⟩
  · rename_i hle
    obtain ⟨⟨X', pool₁⟩, hnew, hret⟩ := bind_ok hbody
    obtain ⟨rfl, hpair⟩ := Prod.mk.inj (Except.ok.inj hret)
    cases hpair
    exact .inr ⟨Int.not_le.mp hle, hnew, rfl⟩

variable {A B : List SingleTypeKVCacheManager} {L : List BlockRef}

/-- `allocate_new_blocks` takes its blocks off the front of the free list. -/
theorem tableInv_allocateNewBlocks (h : TableInv pool (A ++ m :: B) L)
    (hrun : m.allocateNewBlocks pool requestId numTokens = .ok (X, m', pool')) :
    TableInv pool' (A ++ m' :: B) (L.drop (blocksMissing m requestId numTokens).toNat) ∧
      X = L.take (blocksMissing m requestId numTokens).toNat ∧
      (∀ r, hashOf pool r = none → hashOf pool' r = none) ∧
      confOf pool' = confOf pool := by
  rcases allocateNewBlocks_eq_ok hrun with ⟨hle, rfl, rfl, rfl⟩ | ⟨hpos, hnew, rfl⟩
  · have hz : (blocksMissing m requestId numTokens).toNat = 0 := by omega
    rw [hz]
    exact ⟨h.reqBlocks requestId, rfl, fun _ => id, rfl⟩
  · have hlen := length_le_of_getNewBlocks h.free.list hnew
    obtain ⟨pool₁, hnew1, hfree, hcnt, hagree, hconf, hhash⟩ :=
      getNewBlocks_spec h.free h.agree hlen
    rw [hnew1] at hnew
    cases hnew
    refine ⟨?_, rfl, hhash, hconf⟩
    -- The new blocks had no reference, so no table holds them yet.
    have hm : m ∈ A ++ m :: B := by simp
    have hnot : ∀ r ∈ L.take (blocksMissing m requestId numTokens).toNat,
        r ∉ m.table requestId := by
      intro r hr hmem
      obtain ⟨-, hne, h0⟩ := (h.free.mem_iff r).mp (mem_of_mem_take hr)
      have := h.refCnt_pos hm hmem hne
      omega
    have hnd : (L.take (blocksMissing m requestId numTokens).toNat).Nodup :=
      (take_sublist _ L).nodup h.free.list.nodup_list
    refine (h.reqBlocks requestId).replace hfree hagree hconf rfl ?_ ?_
    · intro r hin hne
      have hset := tableCount_setTable (m.reqBlocks requestId).2 requestId r
        (m.table requestId ++ L.take (blocksMissing m requestId numTokens).toNat)
      have htab : ((m.reqBlocks requestId).2.table requestId) = m.table requestId :=
        table_setTable m requestId (m.table requestId)
      rw [htab, count_append] at hset
      have hcount : ((L.take (blocksMissing m requestId numTokens).toNat).count r : Int)
          = if r ∈ L.take (blocksMissing m requestId numTokens).toNat then 1 else 0 := by
        split
        · rename_i hr
          rw [count_eq_one_of_mem hnd hr]
          rfl
        · rename_i hr
          rw [count_eq_zero.mpr hr]
          rfl
      rw [hcnt r]
      omega
    · intro t ht
      rcases mem_values_setTable ht with rfl | hold
      · refine .inr ⟨?_, ?_⟩
        · intro r hr
          rcases mem_append.mp hr with hr | hr
          · exact h.table_inPool hm requestId r hr
          · exact ((h.free.mem_iff r).mp (mem_of_mem_take hr)).1
        · rw [filter_append]
          refine nodup_append.mpr ⟨h.table_nodup hm requestId,
            filter_sublist.nodup hnd, ?_⟩
          rintro a ha b hb rfl
          exact hnot a (mem_of_mem_filter hb) (mem_of_mem_filter ha)
      · exact .inl hold

end Allocate

section RemoveSkipped

/-- What the loop of `remove_skipped_blocks` does to a table: the blocks `Y` that end at index
`i` are replaced by null and returned last first. They reach down to a null block or to the
start of the table. -/
structure Skipped (null : BlockRef) (i : Nat) (blocks blocks' : List BlockRef)
    (P Y Q : List BlockRef) : Prop where
  split : blocks = P ++ Y ++ Q
  length_eq : (P ++ Y).length = i
  result : blocks' = P ++ List.replicate Y.length null ++ Q
  ne_null : ∀ y ∈ Y, y ≠ null
  stop : P = [] ∨ P.getLast? = some null

theorem removeSkippedBlocksLoop_spec {null : BlockRef} {i : Nat}
    {blocks removed blocks' removed' : List BlockRef}
    (h : removeSkippedBlocksLoop null i blocks removed = .ok (blocks', removed')) :
    ∃ P Y Q, Skipped null i blocks blocks' P Y Q ∧ removed' = removed ++ Y.reverse := by
  induction i generalizing blocks removed with
  | zero =>
    obtain ⟨rfl, rfl⟩ := Prod.mk.inj (Except.ok.inj h)
    exact ⟨[], [], blocks, ⟨by simp, rfl, by simp, by simp, .inl rfl⟩, by simp⟩
  | succ i ih =>
    unfold removeSkippedBlocksLoop at h
    split at h
    · cases h
    · rename_i b hget
      obtain ⟨hlt, hb⟩ := List.getElem?_eq_some_iff.mp hget
      -- The table around index `i`.
      obtain ⟨C, D, hCD, hC⟩ : ∃ C D, blocks = C ++ b :: D ∧ C.length = i := by
        refine ⟨blocks.take i, blocks.drop (i + 1), ?_, ?_⟩
        · rw [← hb, ← drop_eq_getElem_cons hlt, take_append_drop]
        · exact length_take_of_le (Nat.le_of_lt hlt)
      split at h
      · rename_i hnull
        obtain ⟨rfl, rfl⟩ := Prod.mk.inj (Except.ok.inj h)
        refine ⟨C ++ [b], [], D, ⟨?_, ?_, ?_, by simp, .inr ?_⟩, by simp⟩
        · simp [hCD]
        · simp [hC]
        · simp [hCD]
        · simp [hnull]
      · rename_i hne
        obtain ⟨P, Y, Q, hsk, hrem⟩ := ih h
        have hset : blocks.set i null = C ++ null :: D := by
          rw [hCD, ← hC, set_append]
          simp
        have hsplit := hsk.split
        rw [hset] at hsplit
        obtain ⟨hPY, hQ⟩ := append_inj hsplit (hC.trans hsk.length_eq.symm)
        refine ⟨P, Y ++ [b], D, ⟨?_, ?_, ?_, ?_, hsk.stop⟩, ?_⟩
        · rw [hCD, hPY]
          simp
        · have := hsk.length_eq
          simp only [length_append, length_cons, length_nil] at this ⊢
          omega
        · rw [hsk.result, ← hQ]
          simp [replicate_succ']
        · intro y hy
          rcases mem_append.mp hy with hy | hy
          · exact hsk.ne_null y hy
          · rw [mem_singleton.mp hy]
            exact hne
        · rw [hrem]
          simp

/-- The loop does not index past a table of at least `i` blocks. -/
theorem removeSkippedBlocksLoop_ok {null : BlockRef} {i : Nat} {blocks : List BlockRef}
    (removed : List BlockRef) (h : i ≤ blocks.length) :
    ∃ res, removeSkippedBlocksLoop null i blocks removed = .ok res := by
  induction i generalizing blocks removed with
  | zero => exact ⟨_, rfl⟩
  | succ i ih =>
    have hget : blocks[i]? = some (blocks.get ⟨i, h⟩) := List.getElem?_eq_getElem h
    unfold removeSkippedBlocksLoop
    rw [hget]
    dsimp only
    split
    · exact ⟨_, rfl⟩
    · exact ih _ (by rw [length_set]; omega)

namespace Skipped

variable {null : BlockRef} {i : Nat} {blocks blocks' P Y Q : List BlockRef}

theorem count_eq (h : Skipped null i blocks blocks' P Y Q) {r : BlockRef} (hr : r ≠ null) :
    blocks.count r = blocks'.count r + Y.count r := by
  have hrep : (List.replicate Y.length null).count r = 0 :=
    count_eq_zero.mpr (fun hmem => hr (eq_of_mem_replicate hmem))
  rw [h.split, h.result]
  simp only [count_append, hrep]
  omega

theorem mem_result (h : Skipped null i blocks blocks' P Y Q) {r : BlockRef}
    (hr : r ∈ blocks') : r = null ∨ r ∈ blocks := by
  rw [h.result] at hr
  rw [h.split]
  simp only [mem_append, mem_replicate] at hr ⊢
  tauto

theorem filter_self (h : Skipped null i blocks blocks' P Y Q) : blocks.filter (fun r => r ≠ null)
      = P.filter (fun r => r ≠ null) ++ Y ++ Q.filter (fun r => r ≠ null) := by
  have hY : Y.filter (fun r => r ≠ null) = Y :=
    filter_eq_self.mpr (fun y hy => decide_eq_true (h.ne_null y hy))
  rw [h.split, filter_append, filter_append, hY]

theorem filter_result (h : Skipped null i blocks blocks' P Y Q) : blocks'.filter (fun r => r ≠ null)
      = P.filter (fun r => r ≠ null) ++ Q.filter (fun r => r ≠ null) := by
  have hrep : (List.replicate Y.length null).filter (fun r => r ≠ null) = [] := by
    simp
  rw [h.result, filter_append, filter_append, hrep, append_nil]

theorem nodup_removed (h : Skipped null i blocks blocks' P Y Q)
    (hnd : (blocks.filter fun r => r ≠ null).Nodup) : Y.Nodup := by
  rw [h.filter_self] at hnd
  exact (nodup_append.mp (nodup_append.mp hnd).1).2.1

theorem nodup_result (h : Skipped null i blocks blocks' P Y Q)
    (hnd : (blocks.filter fun r => r ≠ null).Nodup) :
    (blocks'.filter fun r => r ≠ null).Nodup := by
  rw [h.filter_result]
  rw [h.filter_self] at hnd
  refine hnd.sublist (List.Sublist.append ?_ (List.Sublist.refl _))
  exact sublist_append_left _ _

end Skipped

/-- `remove_skipped_blocks` returns at once, or frees what its loop removed from the table. -/
theorem removeSkippedBlocks_eq_ok {pool pool' : BlockPool} {m m' : SingleTypeKVCacheManager}
    {requestId : String} {numComputedTokens : Int}
    (h : m.removeSkippedBlocks pool requestId numComputedTokens = .ok (m', pool')) :
    (m.getNumSkippedTokens numComputedTokens ≤ 0 ∧ m' = m ∧ pool' = pool) ∨
      (0 < m.getNumSkippedTokens numComputedTokens ∧ ∃ blocks' P Y Q,
        removeSkippedBlocksLoop m.nullBlock
          (Int.fdiv (m.getNumSkippedTokens numComputedTokens) m.blockSize).toNat
          (m.table requestId) [] = .ok (blocks', Y.reverse) ∧
        Skipped m.nullBlock (Int.fdiv (m.getNumSkippedTokens numComputedTokens) m.blockSize).toNat
          (m.table requestId) blocks' P Y Q ∧
        pool.freeBlocks Y.reverse = .ok pool' ∧
        m' = (m.reqBlocks requestId).2.setTable requestId blocks') := by
  have hbody : (if m.getNumSkippedTokens numComputedTokens ≤ 0 then
        (.ok (m, pool) : Except PyError (SingleTypeKVCacheManager × BlockPool))
      else removeSkippedBlocksLoop m.nullBlock
          (Int.fdiv (m.getNumSkippedTokens numComputedTokens) m.blockSize).toNat
          (m.table requestId) [] >>= fun x =>
        pool.freeBlocks x.2 >>= fun p =>
        .ok ((m.reqBlocks requestId).2.setTable requestId x.1, p)) = .ok (m', pool') := h
  split at hbody
  · rename_i hle
    cases hbody
    exact .inl ⟨hle, rfl, rfl⟩
  · rename_i hle
    obtain ⟨⟨blocks', removed⟩, hloop, hrest⟩ := bind_ok hbody
    obtain ⟨p, hfree, hret⟩ := bind_ok hrest
    cases hret
    obtain ⟨P, Y, Q, hsk, hrem⟩ := removeSkippedBlocksLoop_spec hloop
    rw [nil_append] at hrem
    subst hrem
    exact .inr ⟨Int.not_le.mp hle, blocks', P, Y, Q, hloop, hsk, hfree, rfl⟩

variable {pool pool' : BlockPool} {m m' : SingleTypeKVCacheManager} {requestId : String}
  {A B : List SingleTypeKVCacheManager} {L : List BlockRef}

/-- The removed blocks are held, so the pool takes them back. -/
theorem freeBlocks_of_skipped (h : TableInv pool (A ++ m :: B) L) {i : Nat}
    {blocks' P Y Q : List BlockRef}
    (hsk : Skipped m.nullBlock i (m.table requestId) blocks' P Y Q) :
    ∃ p', pool.freeBlocks Y.reverse = .ok p' ∧
      FreeInv p' (L ++ Y.reverse.filter fun b => b ≠ pool.nullBlock ∧ refCntOf pool b = 1) ∧
      ∀ r, refCntOf p' r = refCntOf pool r - Y.reverse.count r := by
  have hm : m ∈ A ++ m :: B := by simp
  have hnull : m.nullBlock = pool.nullBlock := h.null m hm
  rw [hnull] at hsk
  have hYmem : ∀ b ∈ Y, b ∈ m.table requestId := by
    intro b hb
    rw [hsk.split]
    simp [hb]
  have hY : Y.Nodup := hsk.nodup_removed (h.table_nodup hm requestId)
  exact freeBlocks_spec Y.reverse h.free
    (fun b hb => h.table_inPool hm requestId b (hYmem b (by simpa using hb)))
    (filter_sublist.nodup (nodup_reverse.mpr hY))
    (fun b hb hne => h.refCnt_pos hm (hYmem b (by simpa using hb)) hne)

/-- `remove_skipped_blocks` returns the removed blocks to the pool. -/
theorem tableInv_removeSkippedBlocks {numComputedTokens : Int} (h : TableInv pool (A ++ m :: B) L)
    (hrun : m.removeSkippedBlocks pool requestId numComputedTokens = .ok (m', pool')) :
    (∃ L', TableInv pool' (A ++ m' :: B) (L ++ L')) ∧ SameHash pool pool' := by
  rcases removeSkippedBlocks_eq_ok hrun with ⟨-, rfl, rfl⟩ | ⟨-, blocks', P, Y, Q, -, hsk, hf, rfl⟩
  · exact ⟨⟨[], by simpa using h⟩, SameHash.refl _⟩
  · have hm : m ∈ A ++ m :: B := by simp
    have hnull : m.nullBlock = pool.nullBlock := h.null m hm
    obtain ⟨pool₁, hf1, hfree, hcnt⟩ := freeBlocks_of_skipped h hsk
    rw [hnull] at hsk
    have hYmem : ∀ b ∈ Y, b ∈ m.table requestId := by
      intro b hb
      rw [hsk.split]
      simp [hb]
    rw [hf1] at hf
    cases hf
    have hs := sameHash_freeBlocks hf1
    refine ⟨⟨_, (h.reqBlocks requestId).replace hfree (hs.poolAgree h.agree) hs.conf rfl ?_ ?_⟩,
      hs⟩
    · intro r hin hne
      have hset := tableCount_setTable (m.reqBlocks requestId).2 requestId r blocks'
      have htab : ((m.reqBlocks requestId).2.table requestId) = m.table requestId :=
        table_setTable m requestId (m.table requestId)
      have hc := hsk.count_eq hne
      have hpos : r ∈ Y → 0 < refCntOf pool r := fun hr => h.refCnt_pos hm (hYmem r hr) hne
      rw [htab] at hset
      rw [hcnt r, count_reverse]
      omega
    · intro t ht
      rcases mem_values_setTable ht with rfl | hold
      · refine .inr ⟨?_, hsk.nodup_result (h.table_nodup hm requestId)⟩
        intro r hr
        rcases hsk.mem_result hr with rfl | hr
        · exact h.free.null_inPool
        · exact h.table_inPool hm requestId r hr
      · exact .inl hold

/-- `remove_skipped_blocks` does not raise on a table that covers the skipped blocks. -/
theorem removeSkippedBlocks_ok {numComputedTokens : Int} (h : TableInv pool (A ++ m :: B) L)
    (hcover : (Int.fdiv (m.getNumSkippedTokens numComputedTokens) m.blockSize).toNat ≤
      (m.table requestId).length) :
    ∃ res, m.removeSkippedBlocks pool requestId numComputedTokens = .ok res := by
  unfold removeSkippedBlocks
  dsimp only
  split
  · exact ⟨_, rfl⟩
  · obtain ⟨⟨blocks', removed⟩, hloop⟩ := @removeSkippedBlocksLoop_ok m.nullBlock _ _ [] hcover
    obtain ⟨P, Y, Q, hsk, hrem⟩ := removeSkippedBlocksLoop_spec hloop
    obtain ⟨p', hfree, -⟩ := freeBlocks_of_skipped h hsk
    rw [nil_append] at hrem
    subst hrem
    refine ⟨((m.reqBlocks requestId).2.setTable requestId blocks', p'), ?_⟩
    refine bind_eq_ok_iff.mpr ⟨(blocks', Y.reverse), hloop, ?_⟩
    exact bind_eq_ok_iff.mpr ⟨p', hfree, rfl⟩

/-- `free` returns the table of a request to the pool. -/
theorem tableInv_free (h : TableInv pool (A ++ m :: B) L)
    (hrun : m.free pool requestId = .ok (m', pool')) :
    (∃ L', TableInv pool' (A ++ m' :: B) (L ++ L')) ∧ SameHash pool pool' := by
  obtain ⟨pool₂, hf, hret⟩ := bind_ok hrun
  cases hret
  have hm : m ∈ A ++ m :: B := by simp
  have hnd := h.table_nodup hm requestId
  obtain ⟨pool₁, hf1, hfree, hcnt⟩ := freeBlocks_spec (m.table requestId).reverse h.free
    (fun b hb => h.table_inPool hm requestId b (by simpa using hb))
    (by rw [filter_reverse]; exact nodup_reverse.mpr hnd)
    (fun b hb hne => h.refCnt_pos hm (by simpa using hb) hne)
  rw [hf1] at hf
  cases hf
  have hs := sameHash_freeBlocks hf1
  refine ⟨⟨_, h.replace hfree (hs.poolAgree h.agree) hs.conf rfl ?_ ?_⟩, hs⟩
  · intro r hin hne
    have herase := tableCount_erase m requestId r
    rw [hcnt r, count_reverse]
    show _ = _ + (tableCount { m with reqToBlocks := m.reqToBlocks.erase requestId } r : Int)
    omega
  · intro t ht
    exact .inl (PyDict.mem_values_erase ht)

/-- What `cache_blocks` hands to the pool: the table of the request from the blocks that are
cached already up to the full ones. -/
def newFullBlocks (m : SingleTypeKVCacheManager) (request : Request) (numTokens : Int) :
    List BlockRef :=
  ((m.table request.requestId).take (Int.fdiv numTokens m.blockSize).toNat).drop
    ((m.numCachedBlock.get? request.requestId).getD 0)

/-- `cache_blocks` returns at once, or caches the new full blocks. -/
theorem cacheBlocks_eq_ok {request : Request} {numTokens : Int}
    (h : m.cacheBlocks pool request numTokens = .ok (m', pool')) :
    (m' = m ∧ pool' = pool) ∨
      (((m.numCachedBlock.get? request.requestId).getD 0 : Int) < Int.fdiv numTokens m.blockSize ∧
        pool.cacheFullBlocks request (m.table request.requestId)
          ((m.numCachedBlock.get? request.requestId).getD 0)
          (Int.fdiv numTokens m.blockSize).toNat m.blockSize m.kvCacheGroupId = .ok pool' ∧
        m' = { (m.reqBlocks request.requestId).2 with
          numCachedBlock := m.numCachedBlock.insert request.requestId
            (Int.fdiv numTokens m.blockSize).toNat }) := by
  unfold cacheBlocks at h
  split at h
  · cases h
  · have hbody : (if Int.fdiv numTokens m.blockSize
            ≤ ((m.numCachedBlock.get? request.requestId).getD 0 : Int) then
          (.ok (m, pool) : Except PyError (SingleTypeKVCacheManager × BlockPool))
        else pool.cacheFullBlocks request (m.table request.requestId)
          ((m.numCachedBlock.get? request.requestId).getD 0)
          (Int.fdiv numTokens m.blockSize).toNat m.blockSize m.kvCacheGroupId >>= fun p =>
          .ok ({ (m.reqBlocks request.requestId).2 with
            numCachedBlock := m.numCachedBlock.insert request.requestId
              (Int.fdiv numTokens m.blockSize).toNat }, p)) = .ok (m', pool') := h
    split at hbody
    · cases hbody
      exact .inl ⟨rfl, rfl⟩
    · rename_i hlt
      obtain ⟨p, hcache, hret⟩ := bind_ok hbody
      cases hret
      exact .inr ⟨Int.not_le.mp hlt, hcache, rfl⟩

/-- `cache_blocks` gives hashes to the new full blocks and changes nothing else. -/
theorem tableInv_cacheBlocks {request : Request} {numTokens : Int}
    (h : TableInv pool (A ++ m :: B) L)
    (hrun : m.cacheBlocks pool request numTokens = .ok (m', pool')) :
    TableInv pool' (A ++ m' :: B) L ∧ SameQueue pool pool' ∧
      ∀ r, r ∉ newFullBlocks m request numTokens → hashOf pool' r = hashOf pool r := by
  rcases cacheBlocks_eq_ok hrun with ⟨rfl, rfl⟩ | ⟨-, hcache, rfl⟩
  · exact ⟨h, SameQueue.refl _, fun _ _ => rfl⟩
  · have hm : m ∈ A ++ m :: B := by simp
    have hin : ∀ r ∈ newFullBlocks m request numTokens,
        ∃ i, i < pool.numGpuBlocks ∧ r = .block i := by
      intro r hr
      exact inPool_iff.mp (h.table_inPool hm request.requestId r
        (mem_of_mem_take (mem_of_mem_drop hr)))
    obtain ⟨hq, hagree, hout⟩ := cacheFullBlocks_spec h.agree hin hcache
    refine ⟨?_, hq, hout⟩
    refine (h.reqBlocks request.requestId).replace (h.free.of_sameQueue hq) hagree hq.conf rfl ?_ ?_
    · intro r _ _
      rw [hq.refCnt]
      rfl
    · intro t ht
      exact .inl ht

end RemoveSkipped

section SaveNewComputed
variable {m m' : SingleTypeKVCacheManager} {requestId : String}

/-- `save_new_computed_blocks` gives the blocks to a request that had none. -/
theorem saveNewComputedBlocks_spec {bs : List BlockRef}
    (h : m.saveNewComputedBlocks requestId bs = .ok m') :
    m'.nullBlock = m.nullBlock ∧ (∀ r, tableCount m' r = tableCount m r + bs.count r) ∧
      ∀ t ∈ m'.reqToBlocks.values, t ∈ m.reqToBlocks.values ∨ t = bs ∨ t = [] := by
  unfold saveNewComputedBlocks at h
  split at h
  · obtain ⟨u, hassert, hret⟩ := bind_ok h
    cases hret
    have hnil : bs = [] := isEmpty_iff.mp (pyAssert_eq_ok_iff.mp hassert)
    subst hnil
    exact ⟨rfl, by simp, fun t ht => .inl ht⟩
  · split at h
    · obtain ⟨u, hassert, hret⟩ := bind_ok h
      cases hret
      have hnil : m.table requestId = [] := isEmpty_iff.mp (pyAssert_eq_ok_iff.mp hassert)
      refine ⟨rfl, ?_, ?_⟩
      · intro r
        have hset := tableCount_setTable (m.reqBlocks requestId).2 requestId r
          ((m.reqBlocks requestId).1 ++ bs)
        have htab : ((m.reqBlocks requestId).2.table requestId) = m.table requestId :=
          table_setTable m requestId (m.table requestId)
        have hfst : (m.reqBlocks requestId).1 = [] := hnil
        rw [htab, hnil, tableCount_reqBlocks, hfst] at hset
        simp only [count_nil, nil_append, Nat.add_zero] at hset
        show tableCount ((m.reqBlocks requestId).2.setTable requestId
          ((m.reqBlocks requestId).1 ++ bs)) r = _
        rw [hfst]
        exact hset
      · intro t ht
        rcases mem_values_setTable (m := (m.reqBlocks requestId).2) ht with rfl | ht
        · rw [hnil]
          exact .inr (.inl rfl)
        · rcases mem_values_setTable ht with rfl | ht
          · exact .inr (.inr hnil)
          · exact .inl ht
    · obtain ⟨u, hassert, hret⟩ := bind_ok h
      cases hret
      have hnil : bs = [] := isEmpty_iff.mp (pyAssert_eq_ok_iff.mp hassert)
      subst hnil
      exact ⟨rfl, by simp, fun t ht => .inl ht⟩

/-- `save_new_computed_blocks` for all groups. -/
theorem saveAll_spec {ms ms' : List SingleTypeKVCacheManager} {lists : List (List BlockRef)}
    (hlen : lists.length = ms.length)
    (h : KVCacheCoordinator.saveAll requestId ms lists = .ok ms') :
    (∀ r, holders ms' r = holders ms r + lists.flatten.count r) ∧
      (∀ m' ∈ ms', ∃ m ∈ ms, m'.nullBlock = m.nullBlock ∧ ∀ t ∈ m'.reqToBlocks.values,
        t ∈ m.reqToBlocks.values ∨ t ∈ lists ∨ t = []) := by
  induction ms generalizing ms' lists with
  | nil =>
    cases h
    have hnil : lists = [] := length_eq_zero_iff.mp hlen
    subst hnil
    exact ⟨by simp, by simp⟩
  | cons m ms ih =>
    cases lists with
    | nil => cases h
    | cons bs lists =>
      obtain ⟨m1, hsave, hrest⟩ := bind_ok h
      obtain ⟨ms1, hall, hret⟩ := bind_ok hrest
      cases hret
      obtain ⟨hnull, hcnt, hval⟩ := saveNewComputedBlocks_spec hsave
      obtain ⟨hcnts, hvals⟩ := ih (Nat.succ.inj hlen) hall
      refine ⟨?_, ?_⟩
      · intro r
        have h1 := hcnt r
        have h2 := hcnts r
        unfold holders at h2 ⊢
        simp only [map_cons, sum_cons, flatten_cons, count_append]
        omega
      · intro m' hm'
        rcases mem_cons.mp hm' with rfl | hm'
        · refine ⟨m, by simp, hnull, ?_⟩
          intro t ht
          rcases hval t ht with ht | rfl | rfl
          · exact .inl ht
          · exact .inr (.inl (by simp))
          · exact .inr (.inr rfl)
        · obtain ⟨m2, hm2, hn, hv⟩ := hvals m' hm'
          refine ⟨m2, by simp [hm2], hn, ?_⟩
          intro t ht
          rcases hv t ht with ht | ht | rfl
          · exact .inl ht
          · exact .inr (.inl (by simp [ht]))
          · exact .inr (.inr rfl)

/-- Taking a prefix hit: the blocks of all groups are touched and become the tables of the
request. -/
theorem tableInv_touch_save {pool pool' : BlockPool} {ms ms' : List SingleTypeKVCacheManager}
    {L : List BlockRef} {lists : List (List BlockRef)} (h : TableInv pool ms L)
    (hlen : lists.length = ms.length)
    (hin : ∀ bs ∈ lists, ∀ b ∈ bs, InPool pool.numGpuBlocks b = true)
    (hnd : ∀ bs ∈ lists, (bs.filter fun b => b ≠ pool.nullBlock).Nodup)
    (htouch : pool.touch lists = .ok pool')
    (hsave : KVCacheCoordinator.saveAll requestId ms lists = .ok ms') :
    TableInv pool' ms' (L.filter fun r => r ∉ lists.flatten) ∧ SameHash pool pool' := by
  have hflat : ∀ b ∈ lists.flatten, InPool pool.numGpuBlocks b = true := by
    intro b hb
    obtain ⟨bs, hbs, hb⟩ := mem_flatten.mp hb
    exact hin bs hbs b hb
  obtain ⟨pool₁, hrun, hfree, hcnt⟩ := touch_spec h.free hflat
  have htouch' : lists.flatten.foldlM touchOne pool = .ok pool' := htouch
  rw [hrun] at htouch'
  cases htouch'
  have hs := sameHash_foldlM_touchOne hrun
  obtain ⟨hhold, hvals⟩ := saveAll_spec hlen hsave
  refine ⟨⟨hfree, hs.poolAgree h.agree, ?_, ?_, ?_, ?_⟩, hs⟩
  · intro m' hm'
    obtain ⟨m, hm, hn, -⟩ := hvals m' hm'
    rw [hn, hs.nullBlock]
    exact h.null m hm
  · intro r hr hne
    rw [hs.numGpuBlocks] at hr
    rw [hs.nullBlock] at hne
    have h1 := h.refCnt r hr hne
    have h2 := hhold r
    rw [hcnt r]
    omega
  · intro m' hm' t ht r hr
    obtain ⟨m, hm, -, hv⟩ := hvals m' hm'
    rw [hs.numGpuBlocks]
    rcases hv t ht with hold | hnew | rfl
    · exact h.inPool m hm t hold r hr
    · exact hin t hnew r hr
    · cases hr
  · intro m' hm' t ht
    obtain ⟨m, hm, -, hv⟩ := hvals m' hm'
    rw [hs.nullBlock]
    rcases hv t ht with hold | hnew | rfl
    · exact h.nodup m hm t hold
    · exact hnd t hnew
    · exact nodup_nil

end SaveNewComputed

end Vllm.Proofs.Core
