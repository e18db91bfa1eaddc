import Vllm.Proofs.KVOffload.ARC
import Vllm.Proofs.KVOffload.LRURun

/-!
# `Vllm.Proofs.KVOffload.Protected`: what `prepare_store` evicts

The interface says that the given blocks are protected from eviction until `complete_store` is
called. Both managers filter out the given hashes that are stored already before they pick the
blocks to evict, so these can be picked. The ARC manager evicts one block after the other, and
keeps what it has evicted when it returns `None`.

* `unused`: the hashes that can be evicted, in the order in which they are.
* `LRUProtects`, `ARCProtects`: what a call of `prepare_store` owes to its caller.
* `LRUSpares`, `ARCSpares`: the condition on the state before the call.
* `lru_protects_iff`, `arc_protects_iff`: for every state whose backend handed out no more
  blocks than it has, the two agree.
* `prepareStore_protects_iff`: so they do in every state that calls can reach, also when the
  callers do not keep to the interface.
-/

set_option autoImplicit false

namespace Vllm.Proofs.KVOffload

open Vllm.Lib Vllm.V1 Vllm.V1.KVOffload ARCOffloadingManager List

/-- The hashes of the blocks that no transfer uses, in the order of the dictionary. -/
def unused (t : PyDict BlockHash CPUBlockStatus) : List BlockHash :=
  (t.entries.filter fun e => e.2.refCnt = 0).map Prod.fst

/-! ### The room of the backend -/

/-- No more blocks were handed out than there are. -/
def HasRoom (backend : CPUBackend) : Prop := backend.numAllocatedBlocks ≤ backend.numBlocks

section Backend
variable {backend backend' : CPUBackend} {block : CPUBlockStatus}

theorem hasRoom_free (h : HasRoom backend) : HasRoom (backend.free block) := h

variable {hs : List BlockHash}

theorem hasRoom_allocateBlocks {blocks : List CPUBlockStatus} (h : HasRoom backend)
    (hrun : backend.allocateBlocks hs = .ok (blocks, backend')) :
    HasRoom backend' := by
  obtain ⟨u, -, hret⟩ := bind_ok hrun
  cases hret
  unfold HasRoom at *
  dsimp only
  omega

theorem getNumFreeBlocks_free (h : HasRoom backend) :
    (backend.free block).getNumFreeBlocks = backend.getNumFreeBlocks + 1 := by
  unfold HasRoom at h
  unfold CPUBackend.getNumFreeBlocks CPUBackend.free
  dsimp only
  rw [length_append, length_singleton]
  omega

/-- With enough free blocks every hash gets one. -/
theorem allocateBlocks_of_le (h : HasRoom backend) (hfree : hs.length ≤ backend.getNumFreeBlocks) :
    ∃ blocks backend', backend.allocateBlocks hs = .ok (blocks, backend') ∧
      blocks.length = hs.length := by
  unfold HasRoom at h
  unfold CPUBackend.getNumFreeBlocks at hfree
  unfold CPUBackend.allocateBlocks
  dsimp only
  have hreused : hs.length - min hs.length (backend.numBlocks - backend.numAllocatedBlocks) ≤
      backend.allocatedBlocksFreeList.length := by
    omega
  rw [pyAssert_eq_ok_iff (u := ()) |>.mpr (decide_eq_true hreused)]
  refine ⟨_, _, rfl, ?_⟩
  simp only [length_map, length_append, length_range', length_take,
    length_reverse]
  omega

end Backend

/-! ### The LRU manager -/

section LRU
open LRUOffloadingManager

variable {m m' : LRUOffloadingManager}

/-- The call returns `None` and changes nothing, or it evicts none of the hashes it was given,
and then all of them are stored or being stored. -/
def LRUProtects (m : LRUOffloadingManager) (hs : List BlockHash) : Prop :=
  ∃ result m', m.prepareStore hs = .ok (result, m') ∧
    match result with
    | none => m' = m
    | some output => ∀ h ∈ hs, h ∉ output.blockHashesEvicted ∧ m'.blocks.contains h = true

/-- The number of blocks to evict. -/
def lruNumToEvict (m : LRUOffloadingManager) (hs : List BlockHash) : Nat :=
  (hs.filter fun h => !m.blocks.contains h).length - m.backend.getNumFreeBlocks

/-- There are too few unused blocks, or none of the first ones is given. -/
def LRUSpares (m : LRUOffloadingManager) (hs : List BlockHash) : Prop :=
  lruNumToEvict m hs ≤ (unused m.blocks).length →
    ∀ h ∈ hs, h ∉ (unused m.blocks).take (lruNumToEvict m hs)

theorem findBlocksToEvict_eq (n : Nat) (entries : List (BlockHash × CPUBlockStatus)) :
    findBlocksToEvict n entries =
      if n < (entries.filter fun e => e.2.refCnt = 0).length then
        some (((entries.filter fun e => e.2.refCnt = 0).map Prod.fst).take (n + 1))
      else none := by
  induction entries generalizing n with
  | nil => rfl
  | cons e entries ih =>
    obtain ⟨h, block⟩ := e
    unfold findBlocksToEvict
    by_cases hzero : block.refCnt = 0
    · rw [if_pos hzero, filter_cons_of_pos (by simpa using hzero)]
      cases n with
      | zero => simp
      | succ n =>
        dsimp only
        rw [ih, length_cons, map_cons, take_succ_cons]
        by_cases hlt : n < (entries.filter fun e => e.2.refCnt = 0).length
        · rw [if_pos hlt, if_pos (by omega)]
          rfl
        · rw [if_neg hlt, if_neg (by omega)]
          rfl
    · rw [if_neg hzero, filter_cons_of_neg (by simpa using hzero)]
      exact ih n

/-- The blocks to evict are the first unused ones. -/
theorem toEvict_eq (m : LRUOffloadingManager) (hs : List BlockHash) :
    m.toEvict (hs.filter fun h => !m.blocks.contains h) =
      if lruNumToEvict m hs ≤ (unused m.blocks).length then
        some ((unused m.blocks).take (lruNumToEvict m hs))
      else none := by
  unfold LRUOffloadingManager.toEvict
  unfold lruNumToEvict
  cases (hs.filter fun h => !m.blocks.contains h).length - m.backend.getNumFreeBlocks with
  | zero => simp
  | succ n =>
    dsimp only
    rw [findBlocksToEvict_eq]
    unfold unused
    rw [length_map]
    rfl

variable {hs : List BlockHash}

/-- The eviction of blocks that are there. -/
theorem evictLoop_ok (hnodup : hs.Nodup) (hin : ∀ h ∈ hs, m.blocks.contains h = true)
    (hroom : HasRoom m.backend) :
    ∃ m', m.evictLoop hs = .ok m' ∧ HasRoom m'.backend ∧
      m'.backend.getNumFreeBlocks = m.backend.getNumFreeBlocks + hs.length ∧
      ∀ h, h ∉ hs → m'.blocks.contains h = m.blocks.contains h := by
  induction hs generalizing m with
  | nil => exact ⟨m, rfl, hroom, rfl, fun _ _ => rfl⟩
  | cons x rest ih =>
    rw [nodup_cons] at hnodup
    obtain ⟨block, hblock⟩ := Option.isSome_iff_exists.mp (hin x mem_cons_self)
    have hrest : ∀ h ∈ rest, (m.blocks.erase x).contains h = true := by
      intro h hh
      have hne : h ≠ x := by
        rintro rfl
        exact hnodup.1 hh
      rw [PyDict.contains_erase, hin h (mem_cons_of_mem _ hh)]
      simpa using hne
    obtain ⟨m', hok, hroom', hfree, hget⟩ := ih
      (m := { m with blocks := m.blocks.erase x, backend := m.backend.free block })
      hnodup.2 hrest (hasRoom_free hroom)
    refine ⟨m', ?_, hroom', ?_, fun h hh => ?_⟩
    · unfold LRUOffloadingManager.evictLoop
      rw [block_eq_ok_iff.mpr hblock]
      exact hok
    · rw [hfree, getNumFreeBlocks_free hroom, length_cons]
      omega
    · rw [mem_cons, not_or] at hh
      rw [hget h hh.2]
      show (m.blocks.erase x).contains h = _
      rw [PyDict.contains_erase]
      simp [hh.1]

theorem unused_nodup (t : PyDict BlockHash CPUBlockStatus) : (unused t).Nodup :=
  List.Nodup.sublist (filter_sublist.map _) t.nodup

theorem contains_of_mem_unused {t : PyDict BlockHash CPUBlockStatus} {h : BlockHash}
    (hh : h ∈ unused t) : t.contains h = true := by
  obtain ⟨e, he, rfl⟩ := mem_map.mp hh
  exact (t.contains_eq_true_iff e.1).mpr (mem_map_of_mem (mem_filter.mp he).1)

/-- `prepare_store` with enough unused blocks. -/
theorem prepareStore_of_enough (hroom : HasRoom m.backend)
    (henough : lruNumToEvict m hs ≤ (unused m.blocks).length) :
    ∃ output m', m.prepareStore hs = .ok (some output, m') ∧
      output.blockHashesEvicted = (unused m.blocks).take (lruNumToEvict m hs) ∧
      ∀ h ∈ hs, h ∉ output.blockHashesEvicted → m'.blocks.contains h = true := by
  generalize hevicted : (unused m.blocks).take (lruNumToEvict m hs) = evicted
  have hnodup : evicted.Nodup := hevicted ▸ (unused_nodup m.blocks).take
  have hin : ∀ h ∈ evicted, m.blocks.contains h = true := by
    intro h hh
    rw [← hevicted] at hh
    exact contains_of_mem_unused (mem_of_mem_take hh)
  obtain ⟨m1, hloop, hroom1, hfree, hkept⟩ := evictLoop_ok hnodup hin hroom
  have hlen : evicted.length = lruNumToEvict m hs := by
    rw [← hevicted, length_take, Nat.min_eq_left henough]
  have henoughFree : (hs.filter fun h => !m.blocks.contains h).length ≤
      m1.backend.getNumFreeBlocks := by
    unfold lruNumToEvict at hlen
    omega
  obtain ⟨blocks, backend, halloc, hblocks⟩ := allocateBlocks_of_le hroom1 henoughFree
  have hzip : ((hs.filter fun h => !m.blocks.contains h).zip blocks).map Prod.fst =
      hs.filter fun h => !m.blocks.contains h := map_fst_zip hblocks.ge
  refine ⟨{ blockHashesToStore := hs.filter fun h => !m.blocks.contains h
            storeSpec := CPUBackend.getLoadStoreSpec blocks
            blockHashesEvicted := evicted },
    { backend
      blocks := ((hs.filter fun h => !m.blocks.contains h).zip blocks).foldl
        (fun d e => d.insert e.1 e.2) m1.blocks
      events := appendEvent m1.events
        { blockHashes := evicted, blockSize := m1.backend.blockSize, removed := true } },
    ?_, rfl, fun h hh hnot => ?_⟩
  · unfold LRUOffloadingManager.prepareStore
    dsimp only
    rw [toEvict_eq, if_pos henough, hevicted]
    dsimp only
    unfold LRUOffloadingManager.storeBlocks
    rw [hloop, except_ok_bind, halloc, except_ok_bind]
    dsimp only
    rw [(pyAssert_eq_ok_iff (u := ())).mpr (decide_eq_true hblocks)]
    rfl
  · -- A given hash is new, or it was stored and not evicted.
    dsimp only at hnot ⊢
    by_cases hnew : h ∈ hs.filter fun h => !m.blocks.contains h
    · rw [← hzip] at hnew
      obtain ⟨block, -, hget⟩ := PyDict.get?_insertAll_of_mem m1.blocks hnew
      exact Option.isSome_iff_exists.mpr ⟨block, hget⟩
    · have hstored : m.blocks.contains h = true := by
        simpa [hh] using hnew
      have hout : h ∉ ((hs.filter fun h => !m.blocks.contains h).zip blocks).map Prod.fst := by
        rwa [hzip]
      show (PyDict.get? _ h).isSome = true
      rw [PyDict.get?_insertAll_of_not_mem m1.blocks hout]
      exact (hkept h hnot).trans hstored

/-- The LRU manager protects the given hashes exactly when it spares them. -/
theorem lru_protects_iff (hroom : HasRoom m.backend) : LRUProtects m hs ↔ LRUSpares m hs := by
  by_cases henough : lruNumToEvict m hs ≤ (unused m.blocks).length
  · obtain ⟨output, m', hrun, hevicted, hstored⟩ := prepareStore_of_enough hroom henough
    constructor
    · rintro ⟨result, m2, hrun', hprotects⟩ - h hh
      rw [hrun] at hrun'
      cases hrun'
      rw [← hevicted]
      exact (hprotects h hh).1
    · intro hspares
      have hnot : ∀ h ∈ hs, h ∉ output.blockHashesEvicted := by
        rw [hevicted]
        exact hspares henough
      exact ⟨some output, m', hrun, fun h hh => ⟨hnot h hh, hstored h hh (hnot h hh)⟩⟩
  · refine ⟨fun _ h => absurd h henough, fun _ => ⟨none, m, ?_, rfl⟩⟩
    unfold LRUOffloadingManager.prepareStore
    dsimp only
    rw [toEvict_eq, if_neg henough]
    rfl

end LRU

/-! ### The ARC manager -/

section ARC
open ARCOffloadingManager

variable {m m' : ARCOffloadingManager}

/-- A hash is stored or being stored. -/
def InCache (m : ARCOffloadingManager) (h : BlockHash) : Prop :=
  m.t1.contains h = true ∨ m.t2.contains h = true

/-- The same contract as `LRUProtects`. -/
def ARCProtects (m : ARCOffloadingManager) (hs : List BlockHash) : Prop :=
  ∃ result m', m.prepareStore hs = .ok (result, m') ∧
    match result with
    | none => m' = m
    | some output => ∀ h ∈ hs, h ∉ output.blockHashesEvicted ∧ InCache m' h

/-- The blocks that `n` rounds of the loop evict: first from `t1`, as long as it is its turn,
then from `t2`. -/
def arcEvicts (m : ARCOffloadingManager) (n : Nat) : List BlockHash :=
  (unused m.t1).take (min n (evictableT1 m)) ++ (unused m.t2).take (n - evictableT1 m)

/-- No block at all can be evicted, or there are enough and none of the first ones is given. -/
def ARCSpares (m : ARCOffloadingManager) (hs : List BlockHash) : Prop :=
  evictableT1 m + (unused m.t2).length = 0 ∨
    (numToEvict m hs ≤ evictableT1 m + (unused m.t2).length ∧
      ∀ h ∈ hs, h ∉ arcEvicts m (numToEvict m hs))

variable {t : PyDict BlockHash CPUBlockStatus} {h : BlockHash}

theorem unused_of_oldestUnused {block : CPUBlockStatus} (ho : oldestUnused t = some (h, block)) :
    unused t = h :: unused (t.erase h) := by
  have hnodup := unused_nodup t
  have hhead : (t.entries.filter fun e => e.2.refCnt = 0).head? = some (h, block) := by
    rw [List.head?_filter]
    exact ho
  obtain ⟨l, hl⟩ := List.head?_eq_some_iff.mp hhead
  unfold unused at hnodup ⊢
  rw [hl, map_cons] at hnodup ⊢
  -- The rest does not have the hash, so erasing it keeps the rest.
  have hrest : (t.erase h).entries.filter (fun e => e.2.refCnt = 0) = l := by
    show (t.entries.filter fun e => e.1 ≠ h).filter (fun e => e.2.refCnt = 0) = l
    rw [filter_comm, hl, filter_cons_of_neg (by simp)]
    refine filter_eq_self.mpr fun e he => ?_
    have hmem : e.1 ∈ l.map Prod.fst := mem_map_of_mem he
    have hne : e.1 ≠ h := by
      intro heq
      rw [heq] at hmem
      exact (nodup_cons.mp hnodup).1 hmem
    simpa using hne
  rw [hrest]

theorem unused_of_oldestUnused_none (ho : oldestUnused t = none) : unused t = [] := by
  unfold unused
  rw [filter_eq_nil_iff.mpr fun e he => List.find?_eq_none.mp ho e he]
  rfl

theorem length_unused (t : PyDict BlockHash CPUBlockStatus) : (unused t).length = numUnused t := by
  unfold unused numUnused
  rw [length_map, countP_eq_length_filter]

theorem oldestUnused_of_unusedT1 {e : BlockHash × CPUBlockStatus} (hu : m.unusedT1 = some e) :
    oldestUnused m.t1 = some e := by
  unfold unusedT1 at hu
  split at hu
  · exact hu
  · cases hu

theorem length_arcEvicts (m : ARCOffloadingManager) (n : Nat) : (arcEvicts m n).length =
      min n (evictableT1 m) + min (n - evictableT1 m) (unused m.t2).length := by
  have hle : evictableT1 m ≤ (unused m.t1).length := by
    rw [length_unused]
    unfold evictableT1
    split <;> omega
  unfold arcEvicts
  rw [length_append, length_take, length_take]
  omega

/-- The loop that evicts `hs` leaves the rest of the cache. -/
structure ARCEvicted (m m' : ARCOffloadingManager) (hs : List BlockHash) : Prop where
  room : HasRoom m'.backend
  numFree : m'.backend.getNumFreeBlocks = m.backend.getNumFreeBlocks + hs.length
  same : hs = [] → m' = m
  kept : ∀ h, h ∉ hs → InCache m h → InCache m' h

/-- A block that is evicted before the others. -/
theorem ARCEvicted.cons {block : CPUBlockStatus} {m1 : ARCOffloadingManager}
    {hs : List BlockHash} (he : ARCEvicted m1 m' hs) (hroom : HasRoom m.backend)
    (hbackend : m1.backend = m.backend.free block)
    (hkept : ∀ h', h' ≠ h → InCache m h' → InCache m1 h') :
    ARCEvicted m m' (h :: hs) where
  room := he.room
  numFree := by
    rw [he.numFree, hbackend, getNumFreeBlocks_free hroom, length_cons]
    omega
  same := nofun
  kept h' hh' hin := by
    rw [mem_cons, not_or] at hh'
    exact he.kept h' hh'.2 (hkept h' hh'.1 hin)

theorem evictLoop_zero (m : ARCOffloadingManager) : evictLoop 0 m = (true, [], m) := rfl

/-- What the loop that evicts does. -/
theorem evictLoop_eq (n : Nat) (hroom : HasRoom m.backend) : ∃ m', evictLoop n m =
        (decide (n ≤ evictableT1 m + (unused m.t2).length), arcEvicts m n, m') ∧
      ARCEvicted m m' (arcEvicts m n) := by
  induction n generalizing m with
  | zero =>
    have hnone : arcEvicts m 0 = [] := by simp [arcEvicts]
    refine ⟨m, ?_, ?_⟩
    · rw [hnone]
      simp [evictLoop_zero]
    · rw [hnone]
      exact ⟨hroom, rfl, fun _ => rfl, fun _ _ => id⟩
  | succ n ih =>
    unfold evictLoop evictBlock
    cases hu : m.unusedT1 with
    | some e =>
      -- A block of `t1`.
      obtain ⟨h, block⟩ := e
      obtain ⟨hb, hcount⟩ := evictableT1_pos hu
      have hunused := unused_of_oldestUnused (oldestUnused_of_unusedT1 hu)
      obtain ⟨m', hloop, hevicted⟩ := ih (m := m.evictT1 h block) (hasRoom_free hroom)
      have hlist : arcEvicts m (n + 1) = h :: arcEvicts (m.evictT1 h block) n := by
        unfold arcEvicts
        rw [hcount, Nat.add_min_add_right, hunused, take_succ_cons,
          Nat.add_sub_add_right]
        rfl
      refine ⟨m', ?_, ?_⟩
      · dsimp only
        rw [hloop, hlist, hcount]
        dsimp only
        congr 1
        refine decide_eq_decide.mpr ?_
        show n ≤ _ + (unused m.t2).length ↔ _
        omega
      · rw [hlist]
        refine hevicted.cons hroom rfl fun h' hne hin => hin.imp (fun h1 => ?_) id
        show (m.t1.erase h).contains h' = true
        rw [PyDict.contains_erase, h1]
        simpa using hne
    | none =>
      have hzero := evictableT1_zero hu
      cases ho : oldestUnused m.t2 with
      | none =>
        have hunused := unused_of_oldestUnused_none ho
        have hnone : arcEvicts m (n + 1) = [] := by simp [arcEvicts, hzero, hunused]
        refine ⟨m, ?_, ?_⟩
        · rw [hnone, hzero, hunused]
          simp
        · rw [hnone]
          exact ⟨hroom, rfl, fun _ => rfl, fun _ _ => id⟩
      | some e =>
        -- A block of `t2`; `t1` has none to give, now and later.
        obtain ⟨h, block⟩ := e
        have hunused := unused_of_oldestUnused ho
        have hzero' : evictableT1 (m.evictT2 h block) = 0 := hzero
        obtain ⟨m', hloop, hevicted⟩ := ih (m := m.evictT2 h block) (hasRoom_free hroom)
        have hlist : arcEvicts m (n + 1) = h :: arcEvicts (m.evictT2 h block) n := by
          unfold arcEvicts
          rw [hzero, hzero', hunused]
          simp [evictT2]
        refine ⟨m', ?_, ?_⟩
        · dsimp only
          rw [hloop, hlist, hzero, hzero', hunused]
          dsimp only
          congr 1
          refine decide_eq_decide.mpr ?_
          show n ≤ 0 + (unused (m.t2.erase h)).length ↔ _
          rw [length_cons]
          omega
        · rw [hlist]
          refine hevicted.cons hroom rfl fun h' hne hin => hin.imp id fun h2 => ?_
          show (m.t2.erase h).contains h' = true
          rw [PyDict.contains_erase, h2]
          simpa using hne

/-- New blocks enter the cache and no block leaves it. -/
theorem inCache_insertBlocks (items : List (BlockHash × CPUBlockStatus))
    (hin : InCache m h ∨ h ∈ items.map Prod.fst) : InCache (items.foldl insertBlock m) h := by
  induction items generalizing m with
  | nil => exact hin.resolve_right (by simp)
  | cons e items ih =>
    refine ih (m := m.insertBlock e) ?_
    rw [map_cons, mem_cons, ← or_assoc] at hin
    refine hin.imp (fun hin => ?_) id
    unfold InCache insertBlock
    dsimp only
    rw [PyDict.contains_insert, Bool.or_eq_true, decide_eq_true_iff]
    rcases hin with (h1 | h2) | heq
    · exact .inl (.inr h1)
    · exact .inr h2
    · exact .inl (.inl heq)

/-- `prepare_store`, after enough blocks are evicted. -/
theorem storeBlocks_of_le {toStore : List BlockHash} (evicted : List BlockHash)
    (hroom : HasRoom m.backend)
    (hfree : toStore.length ≤ m.backend.getNumFreeBlocks) :
    ∃ output m', m.storeBlocks toStore evicted = .ok (output, m') ∧
      output.blockHashesEvicted = evicted ∧ ∀ h, InCache m h ∨ h ∈ toStore → InCache m' h := by
  obtain ⟨blocks, backend, halloc, hblocks⟩ := allocateBlocks_of_le hroom hfree
  refine ⟨{ blockHashesToStore := toStore
            storeSpec := CPUBackend.getLoadStoreSpec blocks
            blockHashesEvicted := evicted },
    (toStore.zip blocks).foldl insertBlock
      { m.trimGhosts with
        backend
        events := appendEvent m.events
          { blockHashes := evicted, blockSize := m.backend.blockSize, removed := true } },
    ?_, rfl, fun h hin => ?_⟩
  · unfold storeBlocks
    dsimp only
    rw [show m.trimGhosts.backend = m.backend from rfl, halloc, except_ok_bind]
    dsimp only
    rw [(pyAssert_eq_ok_iff (u := ())).mpr (decide_eq_true hblocks)]
    rfl
  · refine inCache_insertBlocks _ (hin.imp id fun hnew => ?_)
    rwa [map_fst_zip hblocks.ge]

variable {hs : List BlockHash}

theorem inCache_of_not_mem_hashesToStore (hh : h ∈ hs) (hnot : h ∉ m.hashesToStore hs) :
    InCache m h := by
  unfold hashesToStore at hnot
  rw [mem_filter, not_and] at hnot
  have := hnot hh
  unfold InCache
  simp only [Bool.and_eq_true, Bool.not_eq_true', not_and, Bool.not_eq_false] at this
  cases h1 : m.t1.contains h with
  | true => exact .inl rfl
  | false => exact .inr (this h1)

/-- The ARC manager keeps the contract exactly when it spares the given hashes. -/
theorem arc_protects_iff (hroom : HasRoom m.backend) : ARCProtects m hs ↔ ARCSpares m hs := by
  obtain ⟨m1, hloop, hevicted⟩ := evictLoop_eq (m := m) (numToEvict m hs) hroom
  by_cases hnil : m.hashesToStore hs = []
  · -- Every hash is stored, and nothing happens.
    have hzero : numToEvict m hs = 0 := by simp [numToEvict, hnil]
    have hnone : arcEvicts m 0 = [] := by simp [arcEvicts]
    refine ⟨fun _ => .inr ?_, fun _ => ⟨some ⟨[], [], []⟩, m, ?_, ?_⟩⟩
    · rw [hzero, hnone]
      exact ⟨Nat.zero_le _, by simp⟩
    · unfold prepareStore
      dsimp only
      rw [if_pos hnil]
      rfl
    · intro h hh
      exact ⟨by simp, inCache_of_not_mem_hashesToStore hh (by simp [hnil])⟩
  · by_cases henough : numToEvict m hs ≤ evictableT1 m + (unused m.t2).length
    · rw [decide_eq_true henough] at hloop
      have hfree : (m.hashesToStore hs).length ≤ m1.backend.getNumFreeBlocks := by
        have hlen : numToEvict m hs = (m.hashesToStore hs).length -
            m.backend.getNumFreeBlocks := rfl
        rw [hevicted.numFree, length_arcEvicts]
        omega
      obtain ⟨output, m', hstore, hout, hin⟩ :=
        storeBlocks_of_le (arcEvicts m (numToEvict m hs)) hevicted.room hfree
      have hrun : m.prepareStore hs = .ok (some output, m') := by
        unfold prepareStore
        dsimp only
        rw [if_neg hnil, show (m.hashesToStore hs).length - m.backend.getNumFreeBlocks =
          numToEvict m hs from rfl, hloop]
        dsimp only
        rw [hstore]
        rfl
      constructor
      · rintro ⟨result, m2, hrun', hprotects⟩
        rw [hrun] at hrun'
        cases hrun'
        refine .inr ⟨henough, fun h hh => ?_⟩
        rw [← hout]
        exact (hprotects h hh).1
      · intro hspares
        have hnot : ∀ h ∈ hs, h ∉ arcEvicts m (numToEvict m hs) := by
          rcases hspares with hzero | ⟨-, hnot⟩
          · intro h _
            have hlt : evictableT1 m = 0 ∧ (unused m.t2).length = 0 := by omega
            simp [arcEvicts, hlt.1, length_eq_zero_iff.mp hlt.2]
          · exact hnot
        refine ⟨some output, m', hrun, fun h hh => ⟨?_, hin h ?_⟩⟩
        · rw [hout]
          exact hnot h hh
        · by_cases hnew : h ∈ m.hashesToStore hs
          · exact .inr hnew
          · exact .inl (hevicted.kept h (hnot h hh) (inCache_of_not_mem_hashesToStore hh hnew))
    · -- The loop gives up, and the state is the same only if it has evicted nothing.
      rw [decide_eq_false henough] at hloop
      have hrun : m.prepareStore hs = .ok (none, m1) := by
        unfold prepareStore
        dsimp only
        rw [if_neg hnil, show (m.hashesToStore hs).length - m.backend.getNumFreeBlocks =
          numToEvict m hs from rfl, hloop]
        rfl
      constructor
      · rintro ⟨result, m2, hrun', hprotects⟩
        rw [hrun] at hrun'
        cases hrun'
        have hsame : m1 = m := hprotects
        have hnum := hevicted.numFree
        rw [hsame] at hnum
        have hlen := length_arcEvicts m (numToEvict m hs)
        exact .inl (by omega)
      · intro hspares
        rcases hspares with hzero | ⟨hle, -⟩
        · have hlen := length_arcEvicts m (numToEvict m hs)
          have hempty : arcEvicts m (numToEvict m hs) = [] := length_eq_zero_iff.mp (by omega)
          exact ⟨none, m1, hrun, hevicted.same hempty⟩
        · exact absurd hle henough

end ARC

/-! ### Runs -/

section LRURuns
open LRUOffloadingManager

variable {m m' : LRUOffloadingManager}

variable {hs : List BlockHash}

theorem backend_prepareLoadLoop {blocks : List CPUBlockStatus}
    (h : m.prepareLoadLoop hs = .ok (blocks, m')) : m'.backend = m.backend := by
  induction hs generalizing m blocks with
  | nil =>
    cases h
    rfl
  | cons x rest ih =>
    obtain ⟨block, -, h⟩ := bind_ok h
    obtain ⟨u, -, h⟩ := bind_ok h
    obtain ⟨⟨blocks', m1⟩, hrest, hret⟩ := bind_ok h
    cases hret
    have hsame := ih hrest
    exact hsame

theorem backend_completeLoad (h : m.completeLoad hs = .ok m') : m'.backend = m.backend := by
  induction hs generalizing m with
  | nil =>
    cases h
    rfl
  | cons x rest ih =>
    obtain ⟨block, -, h⟩ := bind_ok h
    obtain ⟨u, -, h⟩ := bind_ok h
    have hsame := ih h
    exact hsame

theorem backend_storedLoop {stored : List BlockHash} (h : m.storedLoop hs = .ok (stored, m')) :
    m'.backend = m.backend := by
  induction hs generalizing m stored with
  | nil =>
    cases h
    rfl
  | cons x rest ih =>
    obtain ⟨block, -, h⟩ := bind_ok h
    split at h
    · exact ih h
    · obtain ⟨⟨stored', m1⟩, hrest, hret⟩ := bind_ok h
      cases hret
      have hsame := ih hrest
      exact hsame

theorem hasRoom_failedLoop (hroom : HasRoom m.backend) (h : m.failedLoop hs = .ok m') :
    HasRoom m'.backend := by
  induction hs generalizing m with
  | nil =>
    cases h
    exact hroom
  | cons x rest ih =>
    obtain ⟨block, -, h⟩ := bind_ok h
    split at h
    · exact ih hroom h
    · exact ih (m := { m with blocks := m.blocks.erase x, backend := m.backend.free block })
        (hasRoom_free hroom) h

theorem hasRoom_evictLoop (hroom : HasRoom m.backend) (h : m.evictLoop hs = .ok m') :
    HasRoom m'.backend := by
  induction hs generalizing m with
  | nil =>
    cases h
    exact hroom
  | cons x rest ih =>
    obtain ⟨block, -, h⟩ := bind_ok h
    exact ih (m := { m with blocks := m.blocks.erase x, backend := m.backend.free block })
      (hasRoom_free hroom) h

theorem hasRoom_prepareStore {output : Option PrepareStoreOutput} (hroom : HasRoom m.backend)
    (h : m.prepareStore hs = .ok (output, m')) :
    HasRoom m'.backend := by
  rcases prepareStore_cases h with ⟨-, rfl⟩ | ⟨evicted, out, -, -, hstore⟩
  · exact hroom
  · obtain ⟨m1, hevict, hstore⟩ := bind_ok hstore
    obtain ⟨⟨blocks, backend⟩, halloc, hstore⟩ := bind_ok hstore
    obtain ⟨u, -, hret⟩ := bind_ok hstore
    cases hret
    exact hasRoom_allocateBlocks (hasRoom_evictLoop hroom hevict) halloc

theorem hasRoom_lruStep {s s' : LRUState} {op : LRUOp} (hroom : HasRoom s.manager.backend)
    (h : s.step op = .ok s') : HasRoom s'.manager.backend := by
  cases op with
  | lookup hs =>
    cases h
    exact hroom
  | touch hs =>
    cases h
    show HasRoom (s.manager.touch hs).backend
    rw [(touch_spec hs).1.backend]
    exact hroom
  | prepareLoad hs =>
    obtain ⟨⟨spec, m⟩, hload, hret⟩ := bind_ok h
    obtain ⟨⟨blocks, m1⟩, hloop, hspec⟩ := bind_ok hload
    obtain ⟨-, rfl⟩ := Prod.mk.inj (Except.ok.inj hspec)
    cases hret
    show HasRoom m1.backend
    rw [backend_prepareLoadLoop hloop]
    exact hroom
  | completeLoad prepared hs =>
    obtain ⟨m, hload, hret⟩ := bind_ok h
    cases hret
    show HasRoom m.backend
    rw [backend_completeLoad hload]
    exact hroom
  | prepareStore hs =>
    obtain ⟨⟨output, m⟩, hstore, hret⟩ := bind_ok h
    cases hret
    exact hasRoom_prepareStore hroom hstore
  | completeStore prepared hs success =>
    obtain ⟨m, hstore, hret⟩ := bind_ok h
    cases hret
    show HasRoom m.backend
    unfold LRUOffloadingManager.completeStore at hstore
    split at hstore
    · obtain ⟨⟨stored, m1⟩, hloop, hret⟩ := bind_ok hstore
      cases hret
      show HasRoom m1.backend
      rw [backend_storedLoop hloop]
      exact hroom
    · exact hasRoom_failedLoop hroom hstore
  | takeEvents =>
    cases h
    exact hroom

end LRURuns

section ARCRuns
open ARCOffloadingManager

variable {m m' : ARCOffloadingManager}

theorem backend_setBlock (m : ARCOffloadingManager) (h : BlockHash) (block : CPUBlockStatus) :
    (m.setBlock h block).backend = m.backend := by
  unfold setBlock
  split <;> rfl

theorem backend_touchBlock {h : BlockHash} (hrun : m.touchBlock h = .ok m') :
    m'.backend = m.backend := by
  unfold touchBlock at hrun
  split at hrun
  · dsimp only at hrun
    split at hrun
    · cases hrun
      rfl
    · split at hrun
      · cases hrun
        rfl
      · cases hrun
  · -- The hash is not in `t1`; whichever dictionary has it, only that one and the target change.
    repeat' split at hrun
    all_goals
      cases hrun
      rfl

variable {hs : List BlockHash}

theorem backend_touchLoop (hrun : hs.foldlM touchBlock m = .ok m') : m'.backend = m.backend := by
  induction hs generalizing m with
  | nil =>
    cases hrun
    rfl
  | cons x rest ih =>
    rw [foldlM_cons] at hrun
    obtain ⟨m1, hone, hrest⟩ := bind_ok hrun
    rw [ih hrest, backend_touchBlock hone]

theorem backend_arcPrepareLoadLoop {blocks : List CPUBlockStatus}
    (h : m.prepareLoadLoop hs = .ok (blocks, m')) : m'.backend = m.backend := by
  induction hs generalizing m blocks with
  | nil =>
    cases h
    rfl
  | cons x rest ih =>
    unfold prepareLoadLoop at h
    split at h
    · cases h
    · obtain ⟨u, -, h⟩ := bind_ok h
      obtain ⟨⟨blocks', m1⟩, hrest, hret⟩ := bind_ok h
      cases hret
      rw [ih hrest, backend_setBlock]

theorem backend_arcCompleteLoad (h : m.completeLoad hs = .ok m') : m'.backend = m.backend := by
  induction hs generalizing m with
  | nil =>
    cases h
    rfl
  | cons x rest ih =>
    unfold completeLoad at h
    split at h
    · cases h
    · obtain ⟨u, -, h⟩ := bind_ok h
      rw [ih h, backend_setBlock]

theorem backend_insertBlocks (items : List (BlockHash × CPUBlockStatus))
    (m : ARCOffloadingManager) : (items.foldl insertBlock m).backend = m.backend := by
  induction items generalizing m with
  | nil => rfl
  | cons e items ih =>
    rw [foldl_cons, ih]
    rfl

theorem hasRoom_arcPrepareStore {output : Option PrepareStoreOutput} (hroom : HasRoom m.backend)
    (h : m.prepareStore hs = .ok (output, m')) :
    HasRoom m'.backend := by
  unfold prepareStore at h
  dsimp only at h
  split at h
  · cases h
    exact hroom
  · obtain ⟨m1, hloop, hevicted⟩ := evictLoop_eq (m := m) (numToEvict m hs) hroom
    rw [show (m.hashesToStore hs).length - m.backend.getNumFreeBlocks =
      numToEvict m hs from rfl, hloop] at h
    split at h
    · rename_i hcase
      obtain ⟨-, hcase⟩ := Prod.mk.inj hcase
      cases hcase
      cases h
      exact hevicted.room
    · rename_i hcase
      obtain ⟨-, hcase⟩ := Prod.mk.inj hcase
      cases hcase
      obtain ⟨⟨out, m2⟩, hstore, hret⟩ := bind_ok h
      cases hret
      obtain ⟨⟨blocks, backend⟩, halloc, hstore⟩ := bind_ok hstore
      obtain ⟨u, -, hret⟩ := bind_ok hstore
      cases hret
      rw [backend_insertBlocks]
      exact hasRoom_allocateBlocks hevicted.room halloc

theorem backend_arcStoredLoop (hs : List BlockHash) (m : ARCOffloadingManager) :
    (m.storedLoop hs).2.backend = m.backend := by
  induction hs generalizing m with
  | nil => rfl
  | cons x rest ih =>
    unfold storedLoop
    split
    · exact ih m
    · dsimp only
      split
      · exact ih m
      · rw [ih, backend_setBlock]

theorem hasRoom_arcFailedLoop (hs : List BlockHash) (hroom : HasRoom m.backend) :
    HasRoom (m.failedLoop hs).backend := by
  induction hs generalizing m with
  | nil => exact hroom
  | cons x rest ih =>
    unfold failedLoop
    split
    · exact ih hroom
    · have hpop : ∀ b : Bool, HasRoom (if b then { m with t1 := m.t1.erase x }
          else { m with t2 := m.t2.erase x } : ARCOffloadingManager).backend := by
        intro b
        cases b <;> exact hroom
      dsimp only
      split
      · exact ih (hpop _)
      · exact ih (hasRoom_free (hpop _))

theorem hasRoom_arcStep {op : ARCOp} (hroom : HasRoom m.backend)
    (h : arcStep m op = .ok m') : HasRoom m'.backend := by
  cases op with
  | lookup hs =>
    cases h
    exact hroom
  | touch hs =>
    rw [backend_touchLoop h]
    exact hroom
  | prepareLoad hs =>
    obtain ⟨⟨spec, m1⟩, hload, hret⟩ := bind_ok h
    obtain ⟨⟨blocks, m2⟩, hloop, hspec⟩ := bind_ok hload
    cases hspec
    cases hret
    rw [backend_arcPrepareLoadLoop hloop]
    exact hroom
  | completeLoad hs =>
    rw [backend_arcCompleteLoad h]
    exact hroom
  | prepareStore hs =>
    obtain ⟨⟨output, m1⟩, hstore, hret⟩ := bind_ok h
    cases hret
    exact hasRoom_arcPrepareStore hroom hstore
  | completeStore hs success =>
    cases h
    unfold completeStore
    split
    · show HasRoom (m.storedLoop hs).2.backend
      rw [backend_arcStoredLoop]
      exact hroom
    · exact hasRoom_arcFailedLoop hs hroom

end ARCRuns

/-- A manager that calls of any kind can reach protects the hashes that it is given exactly when
it spares them. -/
theorem prepareStore_protects_iff (blockSize numBlocks : Nat) (enableEvents : Bool)
    (hs : List BlockHash) :
    (∀ s, Run LRUState.step (fun _ _ => True) (LRUState.start blockSize numBlocks enableEvents) s →
      (LRUProtects s.manager hs ↔ LRUSpares s.manager hs)) ∧
    ∀ m, Run arcStep (fun _ _ => True) (init { blockSize, numBlocks } enableEvents) m →
      (ARCProtects m hs ↔ ARCSpares m hs) := by
  constructor
  · intro s hrun
    refine lru_protects_iff ?_
    exact hrun.invariant (fun s => HasRoom s.manager.backend) (Nat.zero_le _)
      fun s op s' hroom _ hstep => hasRoom_lruStep hroom hstep
  · intro m hrun
    refine arc_protects_iff ?_
    exact hrun.invariant (fun m => HasRoom m.backend) (Nat.zero_le _)
      fun m op m' hroom _ hstep => hasRoom_arcStep hroom hstep

instance (m : LRUOffloadingManager) (hs : List BlockHash) : Decidable (LRUSpares m hs) :=
  inferInstanceAs (Decidable (_ → _))

instance (m : ARCOffloadingManager) (hs : List BlockHash) : Decidable (ARCSpares m hs) :=
  inferInstanceAs (Decidable (_ ∨ _))

/-- The LRU manager with two stored blocks spares a hash that is stored, unless its block was
used the longest time ago. -/
theorem prepareStore_protects_recent : ∃ s,
    Run LRUState.step (fun _ _ => True) (LRUState.start 256 2 true) s ∧
      LRUSpares s.manager [[2], [3]] ∧ LRUProtects s.manager [[2], [3]] := by
  obtain ⟨s₀, s, hstart, hrun, hspares⟩ := exists_run_of_check LRUState.step (fun _ _ => True)
    (fun s => LRUSpares s.manager [[2], [3]]) (.ok (LRUState.start 256 2 true))
    [.prepareStore [[1], [2]], .completeStore [[1], [2]] [[1], [2]] true] (by decide +kernel)
  cases hstart
  exact ⟨s, hrun, hspares, ((prepareStore_protects_iff 256 2 true [[2], [3]]).1 s hrun).mpr hspares⟩

/-- Two blocks are stored, and the older one is given again beside a new hash: both managers
evict it. A block that is being stored cannot be evicted, and the ARC manager evicts the other
one before it returns `None`. -/
theorem prepareStore_unprotected :
    (∃ s, Run LRUState.step (fun _ _ => True) (LRUState.start 256 2 true) s ∧
      ¬ LRUProtects s.manager [[1], [3]]) ∧
    (∃ m, Run arcStep (fun _ _ => True) (init { blockSize := 256, numBlocks := 2 } true) m ∧
      ¬ ARCProtects m [[1], [3]]) ∧
    ∃ m, Run arcStep (fun _ _ => True) (init { blockSize := 256, numBlocks := 2 } true) m ∧
      ((m.prepareStore [[3], [4]]).toOption.map fun x => (x.1, x.2.t1.keys)) = some (none, [[2]]) ∧
      m.t1.keys = [[1], [2]] ∧ ¬ ARCProtects m [[3], [4]] := by
  have hroom : ∀ m, Run arcStep (fun _ _ => True)
      (init { blockSize := 256, numBlocks := 2 } true) m →
      HasRoom m.backend := fun m hrun =>
    hrun.invariant (fun m => HasRoom m.backend) (Nat.zero_le _)
      fun m op m' hroom _ hstep => hasRoom_arcStep hroom hstep
  refine ⟨?_, ?_, ?_⟩
  · obtain ⟨s₀, s, hstart, hrun, hnot⟩ := exists_run_of_check LRUState.step (fun _ _ => True)
      (fun s => ¬ LRUSpares s.manager [[1], [3]]) (.ok (LRUState.start 256 2 true))
      [.prepareStore [[1], [2]], .completeStore [[1], [2]] [[1], [2]] true] (by decide +kernel)
    cases hstart
    have hroom := hrun.invariant (fun s => HasRoom s.manager.backend) (Nat.zero_le _)
      fun s op s' hroom _ hstep => hasRoom_lruStep hroom hstep
    exact ⟨s, hrun, fun h => hnot ((lru_protects_iff hroom).mp h)⟩
  · obtain ⟨m₀, m, hstart, hrun, hnot⟩ := exists_run_of_check arcStep (fun _ _ => True)
      (fun m => ¬ ARCSpares m [[1], [3]])
      (.ok (init { blockSize := 256, numBlocks := 2 } true))
      [.prepareStore [[1], [2]], .completeStore [[1], [2]] true] (by decide +kernel)
    cases hstart
    exact ⟨m, hrun, fun h => hnot ((arc_protects_iff (hroom m hrun)).mp h)⟩
  · obtain ⟨m₀, m, hstart, hrun, hresult, hkeys, hnot⟩ := exists_run_of_check arcStep
      (fun _ _ => True)
      (fun m => ((m.prepareStore [[3], [4]]).toOption.map fun x => (x.1, x.2.t1.keys)) =
        some (none, [[2]]) ∧ m.t1.keys = [[1], [2]] ∧ ¬ ARCSpares m [[3], [4]])
      (.ok (init { blockSize := 256, numBlocks := 2 } true))
      [.prepareStore [[1], [2]], .completeStore [[1]] true] (by decide +kernel)
    cases hstart
    exact ⟨m, hrun, hresult, hkeys, fun h => hnot ((arc_protects_iff (hroom m hrun)).mp h)⟩

end Vllm.Proofs.KVOffload
