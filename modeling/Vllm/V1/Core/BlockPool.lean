import Vllm.Lib.PyDict
import Vllm.V1.Core.KVCacheUtils

/-!
# `Vllm.V1.Core.BlockPool`: the block pool (`vllm/v1/core/block_pool.py`)

`BlockHashToBlockMap` maps a hash key to one block or to a dictionary of blocks, as the
source's union type does. `BlockPool` owns the block objects, the free queue and that map.
The metrics collector, which only observes, is left out.
-/

set_option autoImplicit false

namespace Vllm.V1.Core

open Vllm.Lib Vllm.V1

/-- A value of `BlockHashToBlockMap._cache`: `KVCacheBlock | dict[int, KVCacheBlock]`. -/
inductive KVCacheBlockOrDict where
  | single (block : BlockRef)
  | dict (blocks : PyDict Int BlockRef)
deriving DecidableEq

/-- `BlockHashToBlockMap`. -/
structure BlockHashToBlockMap where
  cache : PyDict BlockHashWithGroupId KVCacheBlockOrDict := PyDict.empty
deriving DecidableEq

namespace BlockHashToBlockMap

/-- `get_one_block`: the first block with the given key. `next(iter(..))` of an empty
dictionary raises `StopIteration`. -/
def getOneBlock (m : BlockHashToBlockMap) (key : BlockHashWithGroupId) :
    Except PyError (Option BlockRef) :=
  match m.cache.get? key with
  | none => .ok none
  | some (.single block) => .ok (some block)
  | some (.dict blocks) =>
    match blocks.values with
    | [] => .error (.runtimeError "StopIteration")
    | block :: _ => .ok (some block)

/-- `insert`. -/
def insert (m : BlockHashToBlockMap) (key : BlockHashWithGroupId) (block : BlockRef) :
    BlockHashToBlockMap :=
  match m.cache.get? key with
  | none => { cache := m.cache.insert key (.single block) }
  | some (.single b) =>
    -- Merge the original block and the new block into a dict.
    { cache := m.cache.insert key
        (.dict ((PyDict.empty.insert b.blockId b).insert block.blockId block)) }
  | some (.dict blocks) =>
    { cache := m.cache.insert key (.dict (blocks.insert block.blockId block)) }

/-- `pop`. The key is taken out first and put back when blocks are left under it. -/
def pop (m : BlockHashToBlockMap) (key : BlockHashWithGroupId) (blockId : Int) :
    Option BlockRef × BlockHashToBlockMap :=
  match m.cache.get? key with
  | none => (none, m)
  | some (.single b) =>
    let rest := m.cache.erase key
    if b.blockId = blockId then (some b, { cache := rest })
    else (none, { cache := rest.insert key (.single b) })
  | some (.dict blocks) =>
    let rest := m.cache.erase key
    let block := blocks.get? blockId
    let blocks := blocks.erase blockId
    if 0 < blocks.size then (block, { cache := rest.insert key (.dict blocks) })
    else (block, { cache := rest })

end BlockHashToBlockMap

/-- `KVCacheEvent`. The medium of a block event is always `MEDIUM_GPU` here. -/
inductive KVCacheEvent where
  | blockStored (blockHashes : List ExternalBlockHash)
      (parentBlockHash : Option ExternalBlockHash) (tokenIds : List Int) (blockSize : Nat)
      (loraId : Option Nat) (medium : String)
  | blockRemoved (blockHashes : List ExternalBlockHash) (medium : String)
  | allBlocksCleared
deriving DecidableEq

/-- `MEDIUM_GPU`. -/
def mediumGpu : String := "GPU"

/-- `BlockPool`. The blocks `0 .. numGpuBlocks - 1` of the queue's heap are the list
`blocks` of the source. -/
structure BlockPool where
  numGpuBlocks : Nat
  enableCaching : Bool
  hashBlockSize : Nat
  freeBlockQueue : FreeKVCacheBlockQueue
  cachedBlockHashToBlock : BlockHashToBlockMap
  nullBlock : BlockRef
  enableKvCacheEvents : Bool
  useIntBlockHashes : Bool
  kvEventQueue : List KVCacheEvent

namespace BlockPool

/-- The block object at an address. -/
def deref (p : BlockPool) (r : BlockRef) : KVCacheBlock := p.freeBlockQueue.heap r

/-- Overwrites the block object at an address. -/
def modify (p : BlockPool) (r : BlockRef) (f : KVCacheBlock → KVCacheBlock) : BlockPool :=
  { p with freeBlockQueue := { p.freeBlockQueue with
      heap := Function.update p.freeBlockQueue.heap r (f (p.freeBlockQueue.heap r)) } }

/-- `BlockPool.__init__`. -/
def init (numGpuBlocks : Nat) (enableCaching : Bool) (hashBlockSize : Nat)
    (enableKvCacheEvents useIntBlockHashes : Bool) : Except PyError BlockPool := do
  pyAssert (0 < numGpuBlocks) "isinstance(num_gpu_blocks, int) and num_gpu_blocks > 0"
  let (nullBlock, queue) ← (FreeKVCacheBlockQueue.init numGpuBlocks).popleft
  let p : BlockPool :=
    { numGpuBlocks, enableCaching, hashBlockSize
      freeBlockQueue := queue
      cachedBlockHashToBlock := {}
      nullBlock, enableKvCacheEvents, useIntBlockHashes
      kvEventQueue := [] }
  return p.modify nullBlock (fun b => { b with isNull := true })

/-- `get_num_free_blocks`. -/
def getNumFreeBlocks (p : BlockPool) : Int := p.freeBlockQueue.numFreeBlocks

/-- The loop of `get_cached_block`. -/
def getCachedBlock (p : BlockPool) (blockHash : BlockHash) :
    List UInt32 → Except PyError (Option (List BlockRef))
  | [] => .ok (some [])
  | groupId :: groupIds => do
      match ← p.cachedBlockHashToBlock.getOneBlock
          (makeBlockHashWithGroupId blockHash groupId) with
      | none => return none
      | some block =>
        match ← p.getCachedBlock blockHash groupIds with
        | none => return none
        | some blocks => return some (block :: blocks)

/-- The setter of the property `block_hash`. -/
def setBlockHash (p : BlockPool) (blk : BlockRef) (h : BlockHashWithGroupId) :
    Except PyError BlockPool := do
  pyAssert (p.deref blk).blockHash.isNone
    "The block already has a hash. This should not happen."
  return p.modify blk (fun b => { b with blockHash := some h })

/-- One round of the loop of `cache_full_blocks`. The second list is
`new_block_hashes[i:]`. -/
def cacheFullBlocksLoop (kvCacheGroupId : UInt32) :
    List BlockRef → List BlockHash → BlockPool → Except PyError BlockPool
  | [], _, p => .ok p
  | _ :: _, [], _ => .error (.indexError "list index out of range")
  | blk :: blks, blockHash :: blockHashes, p => do
      pyAssert (p.deref blk).blockHash.isNone "blk.block_hash is None"
      -- Update and add the full block to the cache.
      let key := makeBlockHashWithGroupId blockHash kvCacheGroupId
      let p ← p.setBlockHash blk key
      let p := { p with cachedBlockHashToBlock := p.cachedBlockHashToBlock.insert key blk }
      cacheFullBlocksLoop kvCacheGroupId blks blockHashes p

/-- The event that `cache_full_blocks` emits at its end. -/
def blockStoredEvent (p : BlockPool) (request : Request) (blocks : List BlockRef)
    (numCachedBlocks numFullBlocks blockSize : Nat) (newHashes : List BlockHash) :
    Except PyError KVCacheEvent := do
  let parentBlockHash ←
    if numCachedBlocks = 0 then .ok none
    else
      match blocks[numCachedBlocks - 1]? with
      | none => .error (.indexError "list index out of range")
      | some parentBlock =>
        match (p.deref parentBlock).blockHash with
        | none => .error (.assertionError "parent_block.block_hash is not None")
        | some h => .ok (some (maybeConvertBlockHash p.useIntBlockHashes (getBlockHash h)))
  return .blockStored (newHashes.map (maybeConvertBlockHash p.useIntBlockHashes))
    parentBlockHash
    ((request.allTokenIds.take (numFullBlocks * blockSize)).drop (numCachedBlocks * blockSize))
    blockSize (request.loraRequest.map (·.adapterId)) mediumGpu

/-- The block hashes of a request at the granularity of `blockSize`, as `cache_full_blocks`
reads them. -/
def blockHashesFor (p : BlockPool) (request : Request) (blockSize : Nat) :
    Except PyError (List BlockHash) :=
  if blockSize = p.hashBlockSize then .ok request.blockHashes
  else do
    pyAssert (blockSize % p.hashBlockSize = 0) "block_size % self.hash_block_size == 0"
    blockHashListWithBlockSize request.blockHashes p.hashBlockSize blockSize

/-- `cache_full_blocks`. -/
def cacheFullBlocks (p : BlockPool) (request : Request) (blocks : List BlockRef)
    (numCachedBlocks numFullBlocks blockSize : Nat) (kvCacheGroupId : UInt32) :
    Except PyError BlockPool := do
  if numFullBlocks ≤ numCachedBlocks then return p
  let newFullBlocks := (blocks.take numFullBlocks).drop numCachedBlocks
  pyAssert (numFullBlocks ≤ request.blockHashes.length)
    "len(request.block_hashes) >= num_full_blocks"
  let blockHashes ← p.blockHashesFor request blockSize
  let newBlockHashes := blockHashes.drop numCachedBlocks
  let p ← cacheFullBlocksLoop kvCacheGroupId newFullBlocks newBlockHashes p
  if p.enableKvCacheEvents then
    let event ← p.blockStoredEvent request blocks numCachedBlocks numFullBlocks blockSize
      (newBlockHashes.take newFullBlocks.length)
    return { p with kvEventQueue := p.kvEventQueue ++ [event] }
  else return p

/-- `_maybe_evict_cached_block`, with its return value first. -/
def maybeEvictCachedBlock (p : BlockPool) (block : BlockRef) : Bool × BlockPool :=
  match (p.deref block).blockHash with
  | none => (false, p)
  | some blockHash =>
    match p.cachedBlockHashToBlock.pop blockHash block.blockId with
    | (none, m) => (false, { p with cachedBlockHashToBlock := m })
    | (some _, m) =>
      let p := { p with cachedBlockHashToBlock := m }
      let p := p.modify block (fun b => { b with blockHash := none })
      if p.enableKvCacheEvents then
        (true, { p with kvEventQueue := p.kvEventQueue ++ [.blockRemoved
          [maybeConvertBlockHash p.useIntBlockHashes (getBlockHash blockHash)] mediumGpu] })
      else (true, p)

/-- The loop of `get_new_blocks` over the popped blocks. -/
def getNewBlocksLoop : List BlockRef → BlockPool → Except PyError BlockPool
  | [], p => .ok p
  | block :: blocks, p => do
      let p := if p.enableCaching then (p.maybeEvictCachedBlock block).2 else p
      pyAssert ((p.deref block).refCnt = 0) "block.ref_cnt == 0"
      getNewBlocksLoop blocks (p.modify block (fun b => { b with refCnt := b.refCnt + 1 }))

/-- `get_new_blocks`. -/
def getNewBlocks (p : BlockPool) (numBlocks : Nat) :
    Except PyError (List BlockRef × BlockPool) := do
  if p.getNumFreeBlocks < numBlocks then
    .error (.valueError ("Cannot get " ++ toString numBlocks ++ " free blocks from the pool"))
  else
    let (ret, queue) ← p.freeBlockQueue.popleftN numBlocks
    let p ← getNewBlocksLoop ret { p with freeBlockQueue := queue }
    return (ret, p)

/-- One round of `touch`. -/
def touchOne (p : BlockPool) (block : BlockRef) : Except PyError BlockPool := do
  -- `ref_cnt = 0` means that the block is in the free list, so remove it.
  let queue ← (if (p.deref block).refCnt = 0 ∧ (p.deref block).isNull = false then
    p.freeBlockQueue.remove block else .ok p.freeBlockQueue)
  let p := { p with freeBlockQueue := queue }
  return p.modify block (fun b => { b with refCnt := b.refCnt + 1 })

/-- `touch`, on the blocks of all groups one after the other. -/
def touch (p : BlockPool) (blocks : List (List BlockRef)) : Except PyError BlockPool :=
  blocks.flatten.foldlM touchOne p

/-- The first loop of `free_blocks`. -/
def decRefCnts (p : BlockPool) (blocks : List BlockRef) : BlockPool :=
  blocks.foldl (fun p b => p.modify b (fun b => { b with refCnt := b.refCnt - 1 })) p

/-- `free_blocks`. -/
def freeBlocks (p : BlockPool) (orderedBlocks : List BlockRef) : Except PyError BlockPool := do
  let p := p.decRefCnts orderedBlocks
  let queue ← p.freeBlockQueue.appendN
    (orderedBlocks.filter fun b => (p.deref b).refCnt = 0 ∧ (p.deref b).isNull = false)
  return { p with freeBlockQueue := queue }

/-- `evict_blocks`. The ids come from a set, so in some order and without repetition. -/
def evictBlocks : List Nat → BlockPool → Except PyError BlockPool
  | [], p => .ok p
  | blockId :: blockIds, p => do
      pyAssert (blockId < p.numGpuBlocks) ("Invalid block_id " ++ toString blockId
        ++ " >= " ++ toString p.numGpuBlocks ++ ". This indicates a bug in the KV connector"
        ++ " - workers should only report block IDs that were allocated by the scheduler.")
      evictBlocks blockIds (p.maybeEvictCachedBlock (.block blockId)).2

/-- The loop of `reset_prefix_cache`: `reset_hash` on every block of the pool. -/
def resetHashes (p : BlockPool) : BlockPool :=
  (List.range p.numGpuBlocks).foldl
    (fun p i => p.modify (.block i) (fun b => { b with blockHash := none })) p

/-- `reset_prefix_cache`, with its return value first. -/
def resetPrefixCache (p : BlockPool) : Bool × BlockPool :=
  let numUsedBlocks := (p.numGpuBlocks : Int) - p.getNumFreeBlocks
  -- The null block is always marked as used.
  if numUsedBlocks ≠ 1 then (false, p)
  else
    let p := { p with cachedBlockHashToBlock := {} }
    let p := p.resetHashes
    (true, if p.enableKvCacheEvents then
      { p with kvEventQueue := p.kvEventQueue ++ [.allBlocksCleared] } else p)

/-- `take_events`. -/
def takeEvents (p : BlockPool) : List KVCacheEvent × BlockPool :=
  if p.enableKvCacheEvents then (p.kvEventQueue, { p with kvEventQueue := [] })
  else ([], p)

end BlockPool

end Vllm.V1.Core
