import Vllm.V1.KVOffload.Backend
import Mathlib.Data.List.Range
import Mathlib.Data.List.Count
import Mathlib.Data.Finset.Basic

/-!
# `Vllm.Proofs.KVOffload.Backend`: the ids of the CPU blocks

The ids that were ever handed out are `0 .. num_allocated_blocks - 1`. `Ledger` says that each
of them is either owned, once, or in the free list, once.

* `Ledger.free`, `Ledger.allocateBlocks`: what the operations do to the owned ids.
* `allocateBlocks_ok`: the assertion holds when there are enough free blocks.
* `replayEvents`: the hashes that a reader of the events holds.
-/

set_option autoImplicit false

namespace Vllm.Proofs.KVOffload

open Vllm.Lib Vllm.V1 Vllm.V1.KVOffload List

@[simp] theorem isReady_zero (blockId : Nat) :
    CPUBlockStatus.isReady { blockId, refCnt := 0 } = true := rfl

/-- The ids in use are the list `owned`. -/
structure Ledger (backend : CPUBackend) (owned : List Nat) : Prop where
  ids : (owned ++ backend.allocatedBlocksFreeList).Perm (List.range backend.numAllocatedBlocks)
  room : backend.numAllocatedBlocks ≤ backend.numBlocks

namespace Ledger

variable {backend backend' : CPUBackend} {owned owned' : List Nat}

theorem perm (h : Ledger backend owned) (hperm : owned'.Perm owned) : Ledger backend owned' :=
  ⟨(hperm.append_right _).trans h.ids, h.room⟩

theorem nodup (h : Ledger backend owned) : owned.Nodup :=
  (nodup_append.mp (h.ids.nodup_iff.mpr nodup_range)).1

/-- The ids that were handed out and not freed. -/
theorem mem_iff (h : Ledger backend owned) (id : Nat) :
    id ∈ owned ↔ id < backend.numAllocatedBlocks ∧ id ∉ backend.allocatedBlocksFreeList := by
  have hall := h.ids.mem_iff (a := id)
  rw [mem_append, mem_range] at hall
  have hdisjoint := (nodup_append.mp (h.ids.nodup_iff.mpr nodup_range)).2.2
  constructor
  · intro ho
    exact ⟨hall.mp (.inl ho), fun hf => hdisjoint id ho id hf rfl⟩
  · rintro ⟨hlt, hf⟩
    exact (hall.mpr hlt).resolve_right hf

/-- The number of ids that were handed out and not freed. -/
theorem numInUse (h : Ledger backend owned) : ((List.range backend.numAllocatedBlocks).filter
      fun id => id ∉ backend.allocatedBlocksFreeList).length = owned.length := by
  refine List.Perm.length_eq ?_
  rw [perm_ext_iff_of_nodup (nodup_range.filter _) h.nodup]
  intro id
  rw [h.mem_iff, mem_filter, mem_range, decide_eq_true_iff]

theorem length (h : Ledger backend owned) :
    owned.length + backend.allocatedBlocksFreeList.length = backend.numAllocatedBlocks := by
  have := h.ids.length_eq
  rwa [length_append, length_range] at this

theorem getNumFreeBlocks (h : Ledger backend owned) :
    backend.getNumFreeBlocks + owned.length = backend.numBlocks := by
  have hlen := h.length
  have hroom := h.room
  unfold CPUBackend.getNumFreeBlocks
  omega

/-- A block that is freed. -/
theorem free {block : CPUBlockStatus} (h : Ledger backend owned)
    (hperm : owned.Perm (block.blockId :: owned')) : Ledger (backend.free block) owned' := by
  refine ⟨?_, h.room⟩
  show (owned' ++ (backend.allocatedBlocksFreeList ++ [block.blockId])).Perm
    (List.range backend.numAllocatedBlocks)
  refine List.Perm.trans ?_ h.ids
  refine .trans ?_ (hperm.symm.append_right _)
  rw [← append_assoc]
  exact perm_append_singleton _ _

/-- `allocate_blocks` hands out ids that no one owns, and does not raise when there are enough
free blocks. -/
theorem allocateBlocks_ok (h : Ledger backend owned) {blockHashes : List BlockHash}
    (hfree : blockHashes.length ≤ backend.getNumFreeBlocks) :
    ∃ ids backend', backend.allocateBlocks blockHashes =
        .ok (ids.map (fun blockId => { blockId }), backend') ∧
      ids.length = blockHashes.length ∧ Ledger backend' (owned ++ ids) ∧
      backend'.numBlocks = backend.numBlocks ∧ backend'.blockSize = backend.blockSize := by
  have hroom := h.room
  unfold CPUBackend.getNumFreeBlocks at hfree
  unfold CPUBackend.allocateBlocks
  generalize hn : min blockHashes.length (backend.numBlocks - backend.numAllocatedBlocks) = n
  dsimp only
  generalize hk : blockHashes.length - n = k
  have hkle : k ≤ backend.allocatedBlocksFreeList.length := by omega
  rw [pyAssert_eq_ok_iff (u := ()) |>.mpr (decide_eq_true hkle)]
  refine ⟨_, _, rfl, ?_, ⟨?_, ?_⟩, rfl, rfl⟩
  · simp only [length_append, length_range', length_take, length_reverse]
    omega
  · -- The freed ids split at the place up to which they are handed out again.
    have hsplit : (backend.allocatedBlocksFreeList.reverse.take k ++
        backend.allocatedBlocksFreeList.take (backend.allocatedBlocksFreeList.length - k)).Perm
        backend.allocatedBlocksFreeList := by
      rw [take_reverse]
      refine ((reverse_perm _).append_right _).trans ?_
      exact perm_append_comm.trans (.of_eq (take_append_drop _ _))
    show (owned ++ (List.range' backend.numAllocatedBlocks n ++ _) ++ _).Perm
      (List.range (backend.numAllocatedBlocks + n))
    have hrange : List.range (backend.numAllocatedBlocks + n) =
        List.range backend.numAllocatedBlocks ++ List.range' backend.numAllocatedBlocks n := by
      have happend := range'_append_1 (s := 0) (m := backend.numAllocatedBlocks) (n := n)
      rw [Nat.zero_add] at happend
      rw [range_eq_range', range_eq_range', happend]
    rw [hrange]
    refine List.Perm.trans ?_ ((h.ids.append_right _))
    rw [append_assoc, append_assoc, append_assoc]
    refine List.Perm.append_left _ ?_
    exact perm_append_comm.trans (hsplit.append_right _)
  · show backend.numAllocatedBlocks + n ≤ backend.numBlocks
    omega

end Ledger

section Ids

variable {d d' : PyDict BlockHash CPUBlockStatus} {k : BlockHash} {v w : CPUBlockStatus}

/-- The ids of the blocks in a dictionary. -/
def ids (d : PyDict BlockHash CPUBlockStatus) : List Nat := d.values.map CPUBlockStatus.blockId

theorem ids_erase (h : d.get? k = some v) : (ids d).Perm (v.blockId :: ids (d.erase k)) :=
  (PyDict.values_perm_erase h).map CPUBlockStatus.blockId

theorem ids_insert_of_not_mem (h : k ∉ d.keys) :
    ids (d.insert k w) = ids d ++ [w.blockId] := by
  unfold ids PyDict.values
  rw [PyDict.entries_insert_of_not_mem _ h]
  simp

/-- The new blocks with the hashes they are for. -/
theorem zip_newBlocks {hs : List BlockHash} {newIds : List Nat}
    (hlen : newIds.length = hs.length) :
    (hs.zip (newIds.map fun blockId => ({ blockId } : CPUBlockStatus))).map Prod.fst = hs ∧
      (hs.zip (newIds.map fun blockId => ({ blockId } : CPUBlockStatus))).map Prod.snd =
        newIds.map fun blockId => { blockId } :=
  ⟨map_fst_zip (by simp [hlen]), map_snd_zip (by simp [hlen])⟩

/-- Another count for a block. -/
theorem ids_insert (h : d.get? k = some v) (hid : w.blockId = v.blockId) :
    (ids (d.insert k w)).Perm (ids d) := by
  refine ((PyDict.values_insert_perm w h).map CPUBlockStatus.blockId).trans ?_
  rw [map_cons, hid]
  exact (ids_erase h).symm

theorem ids_moveToEnd (h : d.moveToEnd? k = some d') : (ids d').Perm (ids d) :=
  (PyDict.values_moveToEnd_perm h).map CPUBlockStatus.blockId

/-- Distinct hashes have distinct ids. -/
theorem hash_eq_of_ids_nodup (h : (ids d).Nodup) {k k' : BlockHash} (hk : d.get? k = some v)
    (hk' : d.get? k' = some w) (hid : v.blockId = w.blockId) : k = k' := by
  have hinj := inj_on_of_nodup_map (f := CPUBlockStatus.blockId ∘ Prod.snd)
    (l := d.entries) (by simpa [ids, PyDict.values] using h)
  have := hinj ((d.mem_entries_iff k v).mpr hk) ((d.mem_entries_iff k' w).mpr hk') hid
  exact congrArg Prod.fst this

theorem mem_ids_iff (id : Nat) : id ∈ ids d ↔ ∃ k v, d.get? k = some v ∧ v.blockId = id := by
  unfold ids
  rw [mem_map]
  constructor
  · rintro ⟨v, hv, hid⟩
    obtain ⟨k, hk⟩ := (d.mem_values_iff v).mp hv
    exact ⟨k, v, hk, hid⟩
  · rintro ⟨k, v, hk, hid⟩
    exact ⟨v, (d.mem_values_iff v).mpr ⟨k, hk⟩, hid⟩

end Ids

/-- The counts of a `c_int32` field stay as they are below `2 ^ 31`. -/
theorem cInt32_of_lt {x : Int} (h0 : 0 ≤ x) (h : x < 2 ^ 31) : cInt32 x = x := by
  unfold cInt32
  rw [Int.bmod_eq_of_le] <;> omega

/-- The hashes that a reader of the events holds. -/
def replayEvents (events : List OffloadingEvent) : Finset BlockHash :=
  events.foldl (fun held event =>
    if event.removed then held \ event.blockHashes.toFinset
    else held ∪ event.blockHashes.toFinset) ∅

theorem replayEvents_concat (events : List OffloadingEvent) (event : OffloadingEvent) :
    replayEvents (events ++ [event]) =
      if event.removed then replayEvents events \ event.blockHashes.toFinset
      else replayEvents events ∪ event.blockHashes.toFinset := by
  simp [replayEvents]

end Vllm.Proofs.KVOffload
