import Vllm.Lib.PyFloat
import Vllm.V1.KVOffload.Backend

/-!
# `Vllm.V1.KVOffload.ARCManager`: the ARC manager (`vllm/v1/kv_offload/arc_manager.py`)

The blocks are in two dictionaries, `t1` for those used once and `t2` for those used again; the
ghost lists `b1` and `b2` hold hashes that were evicted from them. `target_t1_size` decides
which of the two gives the next block.

`prepare_store` evicts one block after the other. When it runs out of blocks it returns `None`
and what it has evicted stays evicted, so the state is part of that answer too.
-/

set_option autoImplicit false

namespace Vllm.V1.KVOffload

open Vllm.Lib Vllm.V1

/-- `ARCOffloadingManager`. -/
structure ARCOffloadingManager where
  backend : CPUBackend
  targetT1Size : ℚ := 0
  t1 : PyDict BlockHash CPUBlockStatus := .empty
  t2 : PyDict BlockHash CPUBlockStatus := .empty
  b1 : PyDict BlockHash Unit := .empty
  b2 : PyDict BlockHash Unit := .empty
  /-- `None` when events are disabled. -/
  events : Option (List OffloadingEvent) := none
  cacheCapacity : Nat
deriving DecidableEq

namespace ARCOffloadingManager

/-- `__init__`. -/
def init (backend : CPUBackend) (enableEvents : Bool) : ARCOffloadingManager where
  backend
  events := if enableEvents then some [] else none
  cacheCapacity := backend.getNumFreeBlocks

/-- `self.t1.get(block_hash) or self.t2.get(block_hash)`. -/
def getBlock (m : ARCOffloadingManager) (blockHash : BlockHash) : Option CPUBlockStatus :=
  match m.t1.get? blockHash with
  | some block => some block
  | none => m.t2.get? blockHash

/-- A change of the block that `getBlock` returns. -/
def setBlock (m : ARCOffloadingManager) (blockHash : BlockHash) (block : CPUBlockStatus) :
    ARCOffloadingManager :=
  if m.t1.contains blockHash then { m with t1 := m.t1.insert blockHash block }
  else { m with t2 := m.t2.insert blockHash block }

/-- `lookup`. -/
def lookup (m : ARCOffloadingManager) : List BlockHash → Nat
  | [] => 0
  | blockHash :: rest =>
    match m.getBlock blockHash with
    | none => 0
    | some block => if block.isReady then m.lookup rest + 1 else 0

/-- The loop of `prepare_load`. -/
def prepareLoadLoop (m : ARCOffloadingManager) :
    List BlockHash → Except PyError (List CPUBlockStatus × ARCOffloadingManager)
  | [] => .ok ([], m)
  | blockHash :: rest =>
    match m.getBlock blockHash with
    | none => .error (.assertionError "Block not found in cache")
    | some block => do
        pyAssert block.isReady "Block is not ready for reading"
        let block := { block with refCnt := cInt32 (block.refCnt + 1) }
        let (blocks, m) ← (m.setBlock blockHash block).prepareLoadLoop rest
        return (block :: blocks, m)

/-- `prepare_load`. -/
def prepareLoad (m : ARCOffloadingManager) (blockHashes : List BlockHash) :
    Except PyError (List Nat × ARCOffloadingManager) := do
  let (blocks, m) ← m.prepareLoadLoop blockHashes
  return (CPUBackend.getLoadStoreSpec blocks, m)

/-- The body of `touch`. -/
def touchBlock (m : ARCOffloadingManager) (blockHash : BlockHash) :
    Except PyError ARCOffloadingManager :=
  match m.t1.get? blockHash with
  | some block =>
    let t1 := m.t1.erase blockHash
    if block.isReady then
      .ok { m with t1, t2 := m.t2.insert blockHash block }
    else
      match t1.moveToEnd? blockHash with
      | some t1 => .ok { m with t1 }
      | none => .error (.keyError "block_hash")
  | none =>
    match m.t2.moveToEnd? blockHash with
    | some t2 => .ok { m with t2 }
    | none =>
      match m.b1.moveToEnd? blockHash with
      | some b1 =>
        let delta := max 1 (roundDouble (m.b2.size / m.b1.size))
        .ok { m with
          targetT1Size := min (roundDouble (m.targetT1Size + delta)) m.cacheCapacity
          b1 }
      | none =>
        match m.b2.moveToEnd? blockHash with
        | some b2 =>
          let delta := max 1 (roundDouble (m.b1.size / m.b2.size))
          .ok { m with
            targetT1Size := max (roundDouble (m.targetT1Size - delta)) 0
            b2 }
        | none => .ok m

/-- `touch`. -/
def touch (m : ARCOffloadingManager) (blockHashes : List BlockHash) :
    Except PyError ARCOffloadingManager :=
  blockHashes.reverse.foldlM touchBlock m

/-- `complete_load`. -/
def completeLoad (m : ARCOffloadingManager) :
    List BlockHash → Except PyError ARCOffloadingManager
  | [] => .ok m
  | blockHash :: rest =>
    match m.getBlock blockHash with
    | none => .error (.assertionError "Block not found")
    | some block => do
        pyAssert (decide (0 < block.refCnt)) "Block ref_cnt is already 0"
        (m.setBlock blockHash
          { block with refCnt := cInt32 (block.refCnt - 1) }).completeLoad rest

/-- The first block in the order of the dictionary that no transfer uses. -/
def oldestUnused (t : PyDict BlockHash CPUBlockStatus) : Option (BlockHash × CPUBlockStatus) :=
  t.entries.find? fun e => e.2.refCnt = 0

/-- `del self.t1[block_hash]`, `self.b1[block_hash] = None` and `self.backend.free(block)`. -/
def evictT1 (m : ARCOffloadingManager) (blockHash : BlockHash) (block : CPUBlockStatus) :
    ARCOffloadingManager :=
  { m with
    t1 := m.t1.erase blockHash
    b1 := m.b1.insert blockHash ()
    backend := m.backend.free block }

/-- The same for `t2` and `b2`. -/
def evictT2 (m : ARCOffloadingManager) (blockHash : BlockHash) (block : CPUBlockStatus) :
    ARCOffloadingManager :=
  { m with
    t2 := m.t2.erase blockHash
    b2 := m.b2.insert blockHash ()
    backend := m.backend.free block }

/-- The block of `t1` to evict, if it is its turn. -/
def unusedT1 (m : ARCOffloadingManager) : Option (BlockHash × CPUBlockStatus) :=
  if pyInt m.targetT1Size ≤ m.t1.size then oldestUnused m.t1 else none

/-- One round of the loop that evicts: `none` when no block can be evicted. -/
def evictBlock (m : ARCOffloadingManager) : Option (BlockHash × ARCOffloadingManager) :=
  match m.unusedT1 with
  | some (blockHash, block) => some (blockHash, m.evictT1 blockHash block)
  | none =>
    match oldestUnused m.t2 with
    | some (blockHash, block) => some (blockHash, m.evictT2 blockHash block)
    | none => none

/-- The loop that evicts: whether it has evicted enough, the hashes, and the state. -/
def evictLoop : Nat → ARCOffloadingManager → Bool × List BlockHash × ARCOffloadingManager
  | 0, m => (true, [], m)
  | numBlocksToEvict + 1, m =>
    match m.evictBlock with
    | none => (false, [], m)
    | some (blockHash, m) =>
      let (enough, toEvict, m) := evictLoop numBlocksToEvict m
      (enough, blockHash :: toEvict, m)

/-- The bound of the ghost lists. -/
def trimGhosts (m : ARCOffloadingManager) : ARCOffloadingManager :=
  { m with
    b1 := m.b1.popFirst (m.b1.size - m.cacheCapacity)
    b2 := m.b2.popFirst (m.b2.size - m.cacheCapacity) }

/-- A new block in `t1`. -/
def insertBlock (m : ARCOffloadingManager) (e : BlockHash × CPUBlockStatus) :
    ARCOffloadingManager :=
  { m with
    t1 := m.t1.insert e.1 e.2
    b1 := m.b1.erase e.1
    b2 := m.b2.erase e.1 }

/-- `prepare_store`, after enough blocks are evicted. -/
def storeBlocks (m : ARCOffloadingManager) (blockHashesToStore toEvict : List BlockHash) :
    Except PyError (PrepareStoreOutput × ARCOffloadingManager) := do
  let m := m.trimGhosts
  let events := appendEvent m.events
    { blockHashes := toEvict, blockSize := m.backend.blockSize, removed := true }
  let (blocks, backend) ← m.backend.allocateBlocks blockHashesToStore
  pyAssert (decide (blocks.length = blockHashesToStore.length))
    "Backend did not allocate the expected number of blocks"
  return ({ blockHashesToStore
            storeSpec := CPUBackend.getLoadStoreSpec blocks
            blockHashesEvicted := toEvict },
    (blockHashesToStore.zip blocks).foldl insertBlock { m with backend, events })

/-- The hashes of a list that are not in the cache. -/
def hashesToStore (m : ARCOffloadingManager) (blockHashes : List BlockHash) : List BlockHash :=
  blockHashes.filter fun h => !m.t1.contains h && !m.t2.contains h

/-- `prepare_store`. -/
def prepareStore (m : ARCOffloadingManager) (blockHashes : List BlockHash) :
    Except PyError (Option PrepareStoreOutput × ARCOffloadingManager) := do
  let blockHashesToStore := m.hashesToStore blockHashes
  if blockHashesToStore = [] then
    return (some { blockHashesToStore := [], storeSpec := [], blockHashesEvicted := [] }, m)
  else
    let numBlocksToEvict := blockHashesToStore.length - m.backend.getNumFreeBlocks
    match evictLoop numBlocksToEvict m with
    | (false, _, m) => return (none, m)
    | (true, toEvict, m) =>
      let (output, m) ← m.storeBlocks blockHashesToStore toEvict
      return (some output, m)

/-- The loop of `complete_store` after a success, with the hashes of the stored blocks. -/
def storedLoop (m : ARCOffloadingManager) :
    List BlockHash → List BlockHash × ARCOffloadingManager
  | [] => ([], m)
  | blockHash :: rest =>
    match m.getBlock blockHash with
    | none => m.storedLoop rest
    | some block =>
      if block.isReady then m.storedLoop rest
      else
        let (stored, m) := (m.setBlock blockHash { block with refCnt := 0 }).storedLoop rest
        (blockHash :: stored, m)

/-- The loop of `complete_store` after a failure. It pops the block, ready or not. -/
def failedLoop (m : ARCOffloadingManager) : List BlockHash → ARCOffloadingManager
  | [] => m
  | blockHash :: rest =>
    match m.getBlock blockHash with
    | none => m.failedLoop rest
    | some block =>
      let m := if m.t1.contains blockHash then { m with t1 := m.t1.erase blockHash }
        else { m with t2 := m.t2.erase blockHash }
      if block.isReady then m.failedLoop rest
      else { m with backend := m.backend.free block }.failedLoop rest

/-- `complete_store`. -/
def completeStore (m : ARCOffloadingManager) (blockHashes : List BlockHash) (success : Bool) :
    ARCOffloadingManager :=
  if success then
    let (stored, m) := m.storedLoop blockHashes
    let event := { blockHashes := stored, blockSize := m.backend.blockSize, removed := false }
    { m with events := appendEvent m.events event }
  else m.failedLoop blockHashes

end ARCOffloadingManager

end Vllm.V1.KVOffload
