import Vllm.Proofs.KVOffload.Backend
import Vllm.V1.KVOffload.LRUManager

/-!
# `Vllm.Proofs.KVOffload.LRU`: what the operations of the LRU manager do

One lemma per loop: the ids of the CPU blocks, and what a lookup in `blocks` sees afterwards.

* `prepareLoadLoop_spec`, `completeLoad_spec`, `touch_spec`: loads and uses.
* `toEvict_spec`, `storeBlocks_spec`: `prepare_store`.
* `storedLoop_spec`, `failedLoop_spec`: `complete_store`.
-/

set_option autoImplicit false

namespace Vllm.Proofs.KVOffload

open Vllm.Lib Vllm.V1 Vllm.V1.KVOffload LRUOffloadingManager List

variable {m m' : LRUOffloadingManager} {h : BlockHash} {block : CPUBlockStatus}

/-! ### What the operations do -/

theorem block_eq_ok_iff : m.block h = .ok block ↔ m.blocks.get? h = some block := by
  unfold LRUOffloadingManager.block
  cases m.blocks.get? h <;> simp

/-- The count of a block is increased by `n`. -/
def addCount (n : Int) (block : CPUBlockStatus) : CPUBlockStatus :=
  { block with refCnt := block.refCnt + n }

@[simp] theorem addCount_zero : addCount 0 block = block := by
  simp [addCount]

/-- The part of the manager that loads and touches leave alone. -/
structure SameBlocks (m m' : LRUOffloadingManager) : Prop where
  backend : m'.backend = m.backend
  events : m'.events = m.events
  perm : (ids m'.blocks).Perm (ids m.blocks)

namespace SameBlocks

theorem refl (m : LRUOffloadingManager) : SameBlocks m m := ⟨rfl, rfl, .refl _⟩

theorem trans {m1 m2 m3 : LRUOffloadingManager} (h : SameBlocks m1 m2) (h' : SameBlocks m2 m3) :
    SameBlocks m1 m3 :=
  ⟨h'.backend.trans h.backend, h'.events.trans h.events, h'.perm.trans h.perm⟩

theorem insert {w : CPUBlockStatus} (hb : m.blocks.get? h = some block)
    (hid : w.blockId = block.blockId) :
    SameBlocks m { m with blocks := m.blocks.insert h w } :=
  ⟨rfl, rfl, ids_insert hb hid⟩

theorem ledger (h : SameBlocks m m') (hl : Ledger m.backend (ids m.blocks)) :
    Ledger m'.backend (ids m'.blocks) := by
  rw [h.backend]
  exact hl.perm h.perm

end SameBlocks

/-- A loop body that adds `d` to the count of a block, then the rest of the loop. -/
theorem addCount_cons {d : Int} {x : BlockHash} {rest : List BlockHash}
    (hb : m.blocks.get? x = some block)
    (hrest : m'.blocks.get? h = ((m.blocks.insert x (addCount d block)).get? h).map
      (addCount (d * rest.count h))) :
    m'.blocks.get? h = (m.blocks.get? h).map (addCount (d * (x :: rest).count h)) := by
  rw [hrest, PyDict.get?_insert]
  by_cases hx : h = x
  · subst hx
    rw [if_pos rfl, hb, count_cons_self]
    simp only [Option.map_some, addCount, Option.some.injEq, CPUBlockStatus.mk.injEq, true_and]
    rw [Int.natCast_add, Int.mul_add]
    omega
  · rw [if_neg hx, count_cons_of_ne (Ne.symm hx)]

variable {hs : List BlockHash}

/-- `prepare_load` adds one load to every block, and the blocks are ready. -/
theorem prepareLoadLoop_spec {blocks : List CPUBlockStatus}
    (hfits : ∀ h ∈ hs, ∀ block, m.blocks.get? h = some block → block.refCnt + hs.count h < 2 ^ 31)
    (hload : m.prepareLoadLoop hs = .ok (blocks, m')) :
    SameBlocks m m' ∧
      (∀ h ∈ hs, ∃ block, m.blocks.get? h = some block ∧ block.isReady = true) ∧
      ∀ h, m'.blocks.get? h = (m.blocks.get? h).map (addCount (hs.count h)) := by
  induction hs generalizing m blocks with
  | nil =>
    cases hload
    refine ⟨.refl _, by simp, fun h => ?_⟩
    cases m'.blocks.get? h <;> simp
  | cons x rest ih =>
    obtain ⟨block, hblock, hload⟩ := bind_ok hload
    obtain ⟨_, hready, hload⟩ := bind_ok hload
    obtain ⟨⟨blocks', m1⟩, hrec, hload⟩ := bind_ok hload
    cases hload
    rw [block_eq_ok_iff] at hblock
    rw [pyAssert_eq_ok_iff] at hready
    have h0 : 0 ≤ block.refCnt := of_decide_eq_true hready
    have hx := hfits x mem_cons_self block hblock
    rw [count_cons_self] at hx
    have hcount : cInt32 (block.refCnt + 1) = block.refCnt + 1 :=
      cInt32_of_lt (by omega) (by push_cast at hx; omega)
    rw [hcount] at hrec
    obtain ⟨hsame, hall, hget⟩ := ih (by
      intro h hh b hb
      rw [PyDict.get?_insert] at hb
      split at hb
      · rename_i heq
        subst heq
        cases hb
        dsimp only
        push_cast at hx
        omega
      · rename_i hne
        have := hfits h (mem_cons_of_mem _ hh) b hb
        rwa [count_cons_of_ne (Ne.symm hne)] at this) hrec
    refine ⟨(SameBlocks.insert (w := addCount 1 block) hblock rfl).trans hsame, fun h hh => ?_,
      fun h => ?_⟩
    · rcases mem_cons.mp hh with rfl | hh
      · exact ⟨block, hblock, hready⟩
      · obtain ⟨b, hb, hr⟩ := hall h hh
        rw [PyDict.get?_insert] at hb
        split at hb
        · rename_i heq
          subst heq
          exact ⟨block, hblock, hready⟩
        · exact ⟨b, hb, hr⟩
    · have hcons := addCount_cons (d := 1) hblock (by
        rw [Int.one_mul]
        exact hget h)
      rwa [Int.one_mul] at hcons

/-- `complete_load` takes one load from every block. -/
theorem completeLoad_spec (hfits : ∀ h block, m.blocks.get? h = some block → block.refCnt < 2 ^ 31)
    (hload : m.completeLoad hs = .ok m') :
    SameBlocks m m' ∧
      ∀ h, m'.blocks.get? h = (m.blocks.get? h).map (addCount (-1 * hs.count h)) := by
  induction hs generalizing m with
  | nil =>
    cases hload
    refine ⟨.refl _, fun h => ?_⟩
    cases m'.blocks.get? h <;> simp
  | cons x rest ih =>
    obtain ⟨block, hblock, hload⟩ := bind_ok hload
    obtain ⟨_, hpos, hload⟩ := bind_ok hload
    rw [block_eq_ok_iff] at hblock
    have h0 : 0 < block.refCnt := of_decide_eq_true (pyAssert_eq_ok_iff.mp hpos)
    have hx := hfits x block hblock
    have hcount : cInt32 (block.refCnt - 1) = block.refCnt + -1 :=
      cInt32_of_lt (by omega) (by omega)
    dsimp only at hload
    rw [hcount] at hload
    obtain ⟨hsame, hget⟩ := ih (by
      intro h b hb
      rw [PyDict.get?_insert] at hb
      split at hb
      · cases hb
        dsimp only
        omega
      · exact hfits h b hb) hload
    exact ⟨(SameBlocks.insert (w := addCount (-1) block) hblock rfl).trans hsame,
      fun h => addCount_cons hblock (hget h)⟩

theorem touch_spec (hs : List BlockHash) :
    SameBlocks m (m.touch hs) ∧ ∀ h, (m.touch hs).blocks.get? h = m.blocks.get? h := by
  have hone : ∀ (m : LRUOffloadingManager) x,
      SameBlocks m { m with blocks := (m.blocks.moveToEnd? x).getD m.blocks } ∧
      ∀ h, ((m.blocks.moveToEnd? x).getD m.blocks).get? h = m.blocks.get? h := by
    intro m x
    cases hx : m.blocks.moveToEnd? x with
    | none => exact ⟨.refl m, fun _ => rfl⟩
    | some d => exact ⟨⟨rfl, rfl, ids_moveToEnd hx⟩, PyDict.get?_moveToEnd hx⟩
  unfold touch
  induction hs.reverse generalizing m with
  | nil => exact ⟨.refl m, fun _ => rfl⟩
  | cons x rest ih =>
    obtain ⟨hsame, hget⟩ := hone m x
    rw [foldl_cons]
    obtain ⟨hsame', hget'⟩ := ih (m := { m with blocks := (m.blocks.moveToEnd? x).getD m.blocks })
    exact ⟨hsame.trans hsame', fun h => (hget' h).trans (hget h)⟩

/-! ### `prepare_store` -/

/-- The blocks to evict: as many as are missing, and no transfer uses one. -/
theorem findBlocksToEvict_spec {n : Nat} {entries : List (BlockHash × CPUBlockStatus)}
    (hfind : findBlocksToEvict n entries = some hs) :
    hs.Sublist (entries.map Prod.fst) ∧ hs.length = n + 1 ∧
      ∀ h ∈ hs, ∃ block, (h, block) ∈ entries ∧ block.refCnt = 0 := by
  induction entries generalizing n hs with
  | nil => cases hfind
  | cons e entries ih =>
    obtain ⟨x, block⟩ := e
    unfold findBlocksToEvict at hfind
    split at hfind
    · rename_i hzero
      split at hfind
      · cases hfind
        refine ⟨by simp, rfl, fun h hh => ?_⟩
        rw [mem_singleton] at hh
        subst hh
        exact ⟨block, mem_cons_self, hzero⟩
      · rename_i n _
        obtain ⟨hs', hrec, rfl⟩ := Option.map_eq_some_iff.mp hfind
        obtain ⟨hsub, hlen, hall⟩ := ih hrec
        refine ⟨hsub.cons_cons x, by rw [length_cons, hlen], fun h hh => ?_⟩
        rcases mem_cons.mp hh with rfl | hh
        · exact ⟨block, mem_cons_self, hzero⟩
        · obtain ⟨b, hb, hz⟩ := hall h hh
          exact ⟨b, mem_cons_of_mem _ hb, hz⟩
    · obtain ⟨hsub, hlen, hall⟩ := ih hfind
      refine ⟨hsub.cons x, hlen, fun h hh => ?_⟩
      obtain ⟨b, hb, hz⟩ := hall h hh
      exact ⟨b, mem_cons_of_mem _ hb, hz⟩

variable {toStore : List BlockHash}

theorem toEvict_spec (hevict : m.toEvict toStore = some hs) :
    hs.Nodup ∧ hs.length = toStore.length - m.backend.getNumFreeBlocks ∧
      ∀ h ∈ hs, ∃ block, m.blocks.get? h = some block ∧ block.refCnt = 0 := by
  unfold toEvict at hevict
  split at hevict
  · rename_i hzero
    cases hevict
    exact ⟨nodup_nil, hzero.symm, by simp⟩
  · rename_i n hn
    obtain ⟨hsub, hlen, hall⟩ := findBlocksToEvict_spec hevict
    refine ⟨hsub.nodup m.blocks.nodup, hlen.trans hn.symm, fun h hh => ?_⟩
    obtain ⟨block, hb, hzero⟩ := hall h hh
    exact ⟨block, (m.blocks.mem_entries_iff h block).mp hb, hzero⟩

/-- The eviction of blocks that are there. -/
theorem evictLoop_spec (hnodup : hs.Nodup) (hin : ∀ h ∈ hs, ∃ block, m.blocks.get? h = some block)
    (hl : Ledger m.backend (ids m.blocks)) :
    ∃ m', m.evictLoop hs = .ok m' ∧ m'.events = m.events ∧
      m'.backend.blockSize = m.backend.blockSize ∧
      m'.backend.numBlocks = m.backend.numBlocks ∧ Ledger m'.backend (ids m'.blocks) ∧
      (ids m'.blocks).length + hs.length = (ids m.blocks).length ∧
      ∀ h, m'.blocks.get? h = if h ∈ hs then none else m.blocks.get? h := by
  induction hs generalizing m with
  | nil => exact ⟨m, rfl, rfl, rfl, rfl, hl, rfl, by simp⟩
  | cons x rest ih =>
    rw [nodup_cons] at hnodup
    obtain ⟨block, hblock⟩ := hin x mem_cons_self
    have herase := ids_erase hblock
    let m1 : LRUOffloadingManager :=
      { m with blocks := m.blocks.erase x, backend := m.backend.free block }
    obtain ⟨m', hok, hevents, hsize, hnum, hledger, hlen, hget⟩ := ih (m := m1) hnodup.2
      (by
        intro h hh
        obtain ⟨b, hb⟩ := hin h (mem_cons_of_mem _ hh)
        refine ⟨b, ?_⟩
        show (m.blocks.erase x).get? h = some b
        have hne : h ≠ x := by
          rintro rfl
          exact hnodup.1 hh
        rw [PyDict.get?_erase_of_ne _ hne, hb]) (hl.free herase)
    refine ⟨m', ?_, hevents, hsize, hnum, hledger, ?_, fun h => ?_⟩
    · unfold evictLoop
      rw [block_eq_ok_iff.mpr hblock]
      exact hok
    · have := herase.length_eq
      rw [length_cons] at this ⊢
      have hlen' : (ids m'.blocks).length + rest.length = (ids (m.blocks.erase x)).length := hlen
      omega
    · rw [hget h]
      show (if h ∈ rest then none else (m.blocks.erase x).get? h) = _
      rw [PyDict.get?_erase]
      by_cases hx : h = x
      · simp [hx]
      · simp [hx]

/-- `prepare_store` with blocks to evict that no transfer uses: it does not raise, the evicted
blocks are gone and the new ones are not ready. -/
theorem storeBlocks_spec (hnodup : toStore.Nodup) (hnew : ∀ h ∈ toStore, m.blocks.get? h = none)
    (hevict : m.toEvict toStore = some hs) (hl : Ledger m.backend (ids m.blocks)) :
    ∃ output m', m.storeBlocks toStore hs = .ok (output, m') ∧
      output.blockHashesToStore = toStore ∧ output.blockHashesEvicted = hs ∧
      m'.events = appendEvent m.events
        { blockHashes := hs, blockSize := m.backend.blockSize, removed := true } ∧
      Ledger m'.backend (ids m'.blocks) ∧
      (∀ h ∉ toStore, m'.blocks.get? h = if h ∈ hs then none else m.blocks.get? h) ∧
      ∀ h ∈ toStore, ∃ block, m'.blocks.get? h = some block ∧ block.refCnt = -1 := by
  obtain ⟨hsnodup, hslen, hzero⟩ := toEvict_spec hevict
  obtain ⟨m1, hloop, hevents, hsize, hnum, hledger, hlen, hget⟩ := evictLoop_spec hsnodup
    (fun h hh => (hzero h hh).imp fun _ hb => hb.1) hl
  have hfree : toStore.length ≤ m1.backend.getNumFreeBlocks := by
    have h1 := hledger.getNumFreeBlocks
    have h0 := hl.getNumFreeBlocks
    omega
  obtain ⟨newIds, backend, halloc, hidslen, hledger', -, -⟩ := hledger.allocateBlocks_ok hfree
  have hblen : (newIds.map fun blockId => ({ blockId } : CPUBlockStatus)).length =
      toStore.length := by
    rw [length_map, hidslen]
  obtain ⟨hfst, hsnd⟩ := zip_newBlocks hidslen
  have hmissing : ∀ h ∈ toStore, h ∉ m1.blocks.keys := by
    intro h hh
    rw [← PyDict.get?_eq_none_iff, hget h, hnew h hh, ite_self]
  have hentries := PyDict.entries_insertAll (d := m1.blocks) (hfst ▸ hnodup) (by
    intro e he
    exact hmissing e.1 (hfst ▸ mem_map_of_mem he))
  refine ⟨{ blockHashesToStore := toStore
            storeSpec := CPUBackend.getLoadStoreSpec (newIds.map fun blockId => { blockId })
            blockHashesEvicted := hs },
    { backend
      blocks := (toStore.zip (newIds.map fun blockId => { blockId })).foldl
        (fun d e => d.insert e.1 e.2) m1.blocks
      events := appendEvent m.events
        { blockHashes := hs, blockSize := m.backend.blockSize, removed := true } },
    ?_, rfl, rfl, rfl, ?_, ?_, ?_⟩
  · unfold storeBlocks
    rw [hloop, except_ok_bind, halloc, except_ok_bind]
    dsimp only
    rw [(pyAssert_eq_ok_iff (u := ())).mpr (decide_eq_true hblen), hevents, hsize]
    rfl
  · refine hledger'.perm (.of_eq ?_)
    show (List.map Prod.snd _).map CPUBlockStatus.blockId = _
    rw [hentries, map_append, hsnd, map_append, map_map]
    simp [ids, PyDict.values, Function.comp_def]
  · intro h hh
    rw [← hget h]
    exact PyDict.get?_insertAll_of_not_mem _ (by rwa [hfst])
  · intro h hh
    rw [← hfst] at hh
    obtain ⟨block, hmem, hblock⟩ := PyDict.get?_insertAll_of_mem m1.blocks hh
    refine ⟨block, hblock, ?_⟩
    obtain ⟨id, -, rfl⟩ := mem_map.mp (hsnd ▸ mem_map_of_mem (f := Prod.snd) hmem)
    rfl

/-! ### `complete_store` -/

/-- After a success the blocks that were not ready are ready. -/
theorem storedLoop_spec {stored : List BlockHash} (hstored : m.storedLoop hs = .ok (stored, m')) :
    SameBlocks m m' ∧
      (∀ h, h ∈ stored ↔ h ∈ hs ∧ ∃ block, m.blocks.get? h = some block ∧
        block.isReady = false) ∧
      ∀ h, m'.blocks.get? h = (m.blocks.get? h).map fun block =>
        if h ∈ hs ∧ block.isReady = false then { block with refCnt := 0 } else block := by
  induction hs generalizing m stored with
  | nil =>
    cases hstored
    refine ⟨.refl _, by simp, fun h => ?_⟩
    cases m'.blocks.get? h <;> simp
  | cons x rest ih =>
    obtain ⟨block, hblock, hstored⟩ := bind_ok hstored
    rw [block_eq_ok_iff] at hblock
    cases hready : block.isReady with
    | true =>
      rw [hready, if_pos rfl] at hstored
      obtain ⟨hsame, hmem, hget⟩ := ih hstored
      refine ⟨hsame, fun h => ?_, fun h => ?_⟩
      · rw [hmem h, mem_cons]
        refine ⟨fun hin => ⟨.inr hin.1, hin.2⟩, ?_⟩
        rintro ⟨rfl | hh, b, hb, hnot⟩
        · rw [hblock] at hb
          cases hb
          rw [hready] at hnot
          cases hnot
        · exact ⟨hh, b, hb, hnot⟩
      · rw [hget h]
        by_cases hx : h = x
        · subst hx
          simp [hblock, hready]
        · simp [hx]
    | false =>
      rw [hready, if_neg Bool.false_ne_true] at hstored
      obtain ⟨⟨stored', m1⟩, hrec, hstored⟩ := bind_ok hstored
      cases hstored
      obtain ⟨hsame, hmem, hget⟩ := ih hrec
      refine ⟨(SameBlocks.insert (w := { block with refCnt := 0 }) hblock rfl).trans hsame,
        fun h => ?_, fun h => ?_⟩
      · rw [mem_cons, hmem h, mem_cons, PyDict.get?_insert]
        by_cases hx : h = x
        · subst hx
          simp [hblock, hready]
        · simp [hx]
      · rw [hget h, PyDict.get?_insert]
        by_cases hx : h = x
        · subst hx
          simp [hblock, hready]
        · simp [hx]

/-- After a failure the blocks that were not ready are gone. -/
theorem failedLoop_spec (hfailed : m.failedLoop hs = .ok m')
    (hl : Ledger m.backend (ids m.blocks)) :
    Ledger m'.backend (ids m'.blocks) ∧ m'.events = m.events ∧
      ∀ h, m'.blocks.get? h = if h ∈ hs then (m.blocks.get? h).filter CPUBlockStatus.isReady
        else m.blocks.get? h := by
  induction hs generalizing m with
  | nil =>
    cases hfailed
    exact ⟨hl, rfl, by simp⟩
  | cons x rest ih =>
    obtain ⟨block, hblock, hfailed⟩ := bind_ok hfailed
    rw [block_eq_ok_iff] at hblock
    cases hready : block.isReady with
    | true =>
      rw [hready, if_pos rfl] at hfailed
      obtain ⟨hledger, hevents, hget⟩ := ih hfailed hl
      refine ⟨hledger, hevents, fun h => ?_⟩
      rw [hget h]
      by_cases hx : h = x
      · subst hx
        simp [hblock, hready, Option.filter]
      · simp [hx]
    | false =>
      rw [hready, if_neg Bool.false_ne_true] at hfailed
      obtain ⟨hledger, hevents, hget⟩ := ih hfailed (hl.free (ids_erase hblock))
      refine ⟨hledger, hevents, fun h => ?_⟩
      rw [hget h, PyDict.get?_erase]
      by_cases hx : h = x
      · subst hx
        simp [hblock, hready, Option.filter]
      · simp [hx]

end Vllm.Proofs.KVOffload
