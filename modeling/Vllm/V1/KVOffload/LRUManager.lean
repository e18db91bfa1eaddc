import Vllm.V1.KVOffload.Backend

/-!
# `Vllm.V1.KVOffload.LRUManager`: the LRU manager (`vllm/v1/kv_offload/lru_manager.py`)

`blocks` is ordered by the last use. `prepare_store` first picks the blocks to evict, in that
order and without those that a transfer uses, and changes nothing when there are too few.
-/

set_option autoImplicit false

namespace Vllm.V1.KVOffload

open Vllm.Lib Vllm.V1

/-- `LRUOffloadingManager`. -/
structure LRUOffloadingManager where
  backend : CPUBackend
  blocks : PyDict BlockHash CPUBlockStatus := .empty
  /-- `None` when events are disabled. -/
  events : Option (List OffloadingEvent) := none
deriving DecidableEq

namespace LRUOffloadingManager

/-- `__init__`. -/
def init (backend : CPUBackend) (enableEvents : Bool) : LRUOffloadingManager where
  backend
  events := if enableEvents then some [] else none

/-- `self.blocks[block_hash]`. -/
def block (m : LRUOffloadingManager) (blockHash : BlockHash) : Except PyError CPUBlockStatus :=
  match m.blocks.get? blockHash with
  | none => .error (.keyError "block_hash")
  | some block => .ok block

/-- `lookup`. -/
def lookup (m : LRUOffloadingManager) : List BlockHash → Nat
  | [] => 0
  | blockHash :: rest =>
    match m.blocks.get? blockHash with
    | none => 0
    | some block => if block.isReady then m.lookup rest + 1 else 0

/-- The loop of `prepare_load`. -/
def prepareLoadLoop (m : LRUOffloadingManager) :
    List BlockHash → Except PyError (List CPUBlockStatus × LRUOffloadingManager)
  | [] => .ok ([], m)
  | blockHash :: rest => do
      let block ← m.block blockHash
      pyAssert block.isReady "block.is_ready"
      let block := { block with refCnt := cInt32 (block.refCnt + 1) }
      let (blocks, m) ← { m with blocks := m.blocks.insert blockHash block }.prepareLoadLoop rest
      return (block :: blocks, m)

/-- `prepare_load`. -/
def prepareLoad (m : LRUOffloadingManager) (blockHashes : List BlockHash) :
    Except PyError (List Nat × LRUOffloadingManager) := do
  let (blocks, m) ← m.prepareLoadLoop blockHashes
  return (CPUBackend.getLoadStoreSpec blocks, m)

/-- `touch`. -/
def touch (m : LRUOffloadingManager) (blockHashes : List BlockHash) : LRUOffloadingManager :=
  blockHashes.reverse.foldl (fun m blockHash =>
    { m with blocks := (m.blocks.moveToEnd? blockHash).getD m.blocks }) m

/-- `complete_load`. -/
def completeLoad (m : LRUOffloadingManager) :
    List BlockHash → Except PyError LRUOffloadingManager
  | [] => .ok m
  | blockHash :: rest => do
      let block ← m.block blockHash
      pyAssert (decide (0 < block.refCnt)) "block.ref_cnt > 0"
      let block := { block with refCnt := cInt32 (block.refCnt - 1) }
      { m with blocks := m.blocks.insert blockHash block }.completeLoad rest

/-- The loop of `prepare_store` that builds `to_evict`, with `numBlocksToEvict + 1` blocks to
go; `none` when it reaches the end of the dictionary. -/
def findBlocksToEvict : Nat → List (BlockHash × CPUBlockStatus) → Option (List BlockHash)
  | _, [] => none
  | numBlocksToEvict, (blockHash, block) :: rest =>
    if block.refCnt = 0 then
      match numBlocksToEvict with
      | 0 => some [blockHash]
      | numBlocksToEvict + 1 =>
        (findBlocksToEvict numBlocksToEvict rest).map (blockHash :: ·)
    else findBlocksToEvict numBlocksToEvict rest

/-- `self.backend.free(self.blocks.pop(block_hash))`, for every hash. -/
def evictLoop (m : LRUOffloadingManager) : List BlockHash → Except PyError LRUOffloadingManager
  | [] => .ok m
  | blockHash :: rest => do
      let block ← m.block blockHash
      { m with
        blocks := m.blocks.erase blockHash
        backend := m.backend.free block }.evictLoop rest

/-- The list `to_evict`: `none` when there are not enough blocks. -/
def toEvict (m : LRUOffloadingManager) (blockHashesToStore : List BlockHash) :
    Option (List BlockHash) :=
  match blockHashesToStore.length - m.backend.getNumFreeBlocks with
  | 0 => some []
  | numBlocksToEvict + 1 => findBlocksToEvict numBlocksToEvict m.blocks.entries

/-- `prepare_store`, from the eviction on. -/
def storeBlocks (m : LRUOffloadingManager) (blockHashesToStore toEvict : List BlockHash) :
    Except PyError (PrepareStoreOutput × LRUOffloadingManager) := do
  let m ← m.evictLoop toEvict
  let events := appendEvent m.events
    { blockHashes := toEvict, blockSize := m.backend.blockSize, removed := true }
  let (blocks, backend) ← m.backend.allocateBlocks blockHashesToStore
  pyAssert (decide (blocks.length = blockHashesToStore.length))
    "len(blocks) == len(block_hashes_to_store)"
  let newBlocks := (blockHashesToStore.zip blocks).foldl (fun d e => d.insert e.1 e.2) m.blocks
  return ({ blockHashesToStore
            storeSpec := CPUBackend.getLoadStoreSpec blocks
            blockHashesEvicted := toEvict }, { backend, blocks := newBlocks, events })

/-- `prepare_store`. -/
def prepareStore (m : LRUOffloadingManager) (blockHashes : List BlockHash) :
    Except PyError (Option PrepareStoreOutput × LRUOffloadingManager) := do
  let blockHashesToStore := blockHashes.filter fun h => !m.blocks.contains h
  match m.toEvict blockHashesToStore with
  | none => return (none, m)
  | some toEvict =>
    let (output, m) ← m.storeBlocks blockHashesToStore toEvict
    return (some output, m)

/-- The loop of `complete_store` after a success, with the hashes of the stored blocks. -/
def storedLoop (m : LRUOffloadingManager) :
    List BlockHash → Except PyError (List BlockHash × LRUOffloadingManager)
  | [] => .ok ([], m)
  | blockHash :: rest => do
      let block ← m.block blockHash
      if block.isReady then
        m.storedLoop rest
      else do
        let (stored, m) ← { m with
          blocks := m.blocks.insert blockHash { block with refCnt := 0 } }.storedLoop rest
        return (blockHash :: stored, m)

/-- The loop of `complete_store` after a failure. -/
def failedLoop (m : LRUOffloadingManager) : List BlockHash → Except PyError LRUOffloadingManager
  | [] => .ok m
  | blockHash :: rest => do
      let block ← m.block blockHash
      if block.isReady then
        m.failedLoop rest
      else
        LRUOffloadingManager.failedLoop { m with
          blocks := m.blocks.erase blockHash
          backend := m.backend.free block } rest

/-- `complete_store`. -/
def completeStore (m : LRUOffloadingManager) (blockHashes : List BlockHash) (success : Bool) :
    Except PyError LRUOffloadingManager :=
  if success then do
    let (stored, m) ← m.storedLoop blockHashes
    let event := { blockHashes := stored, blockSize := m.backend.blockSize, removed := false }
    return { m with events := appendEvent m.events event }
  else m.failedLoop blockHashes

/-- `take_events`. -/
def takeEvents (m : LRUOffloadingManager) : List OffloadingEvent × LRUOffloadingManager :=
  (m.events.getD [], { m with events := m.events.map fun _ => [] })

end LRUOffloadingManager

end Vllm.V1.KVOffload
