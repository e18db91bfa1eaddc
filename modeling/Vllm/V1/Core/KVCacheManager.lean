import Vllm.V1.Core.KVCacheCoordinator

/-!
# `Vllm.V1.Core.KVCacheManager`: slots for requests (`vllm/v1/core/kv_cache_manager.py`)

`allocate_slots` is the one way in which a request gets blocks: it frees the skipped blocks,
checks that the pool has enough, takes the prefix hit and the new blocks, and caches what is
full. The statistics of the prefix cache are left out.

A `KVCacheBlocks` is the list of its groups. The source compares it by identity with the
pre-built empty value, which `create_kv_cache_blocks` returns whenever every group is empty.
-/

set_option autoImplicit false

namespace Vllm.V1.Core

open Vllm.Lib Vllm.V1

/-- `KVCacheBlocks`. -/
abbrev KVCacheBlocks := List (List BlockRef)

/-- The `is self.empty_kv_cache_blocks.blocks` test. -/
def KVCacheBlocks.isEmptyBlocks (blocks : KVCacheBlocks) : Bool := blocks.all List.isEmpty

/-- `KVCacheBlocks.get_block_ids`. -/
def KVCacheBlocks.getBlockIds (blocks : KVCacheBlocks) : List (List Int) :=
  blocks.map fun group => group.map BlockRef.blockId

/-- `KVCacheManager`. -/
structure KVCacheManager where
  maxModelLen : Nat
  enableCaching : Bool
  coordinator : KVCacheCoordinator

namespace KVCacheManager

/-- `KVCacheManager.__init__`. -/
def init (numBlocks : Nat) (kvCacheGroups : List KVCacheSpec) (maxModelLen hashBlockSize : Nat)
    (enableCaching useEagle enableKvCacheEvents useIntBlockHashes : Bool)
    (dcpWorldSize pcpWorldSize : ℕ+) : Except PyError KVCacheManager := do
  let coordinator ← KVCacheCoordinator.getKvCacheCoordinator numBlocks kvCacheGroups
    maxModelLen useEagle enableCaching enableKvCacheEvents useIntBlockHashes dcpWorldSize
    pcpWorldSize hashBlockSize
  return { maxModelLen, enableCaching, coordinator }

/-- `empty_kv_cache_blocks`. -/
def emptyKvCacheBlocks (k : KVCacheManager) : KVCacheBlocks :=
  k.coordinator.singleTypeManagers.map fun _ => []

/-- `get_computed_blocks`. -/
def getComputedBlocks (k : KVCacheManager) (request : Request) :
    Except PyError (KVCacheBlocks × Int) :=
  if k.enableCaching = false ∨ request.skipReadingPrefixCache = true then
    .ok (k.emptyKvCacheBlocks, 0)
  else
    -- When all tokens hit the cache, the last token is recomputed to obtain logits.
    k.coordinator.findLongestCacheHit request.blockHashes ((request.numTokens : Int) - 1)

/-- The part of `allocate_slots` that takes the prefix hit. -/
def takeComputedBlocks (k : KVCacheManager) (c : KVCacheCoordinator) (requestId : String)
    (newComputedBlocks : KVCacheBlocks) : Except PyError KVCacheCoordinator := do
  -- Touch the computed blocks to make sure they won't be evicted.
  let pool ← (if k.enableCaching then c.blockPool.touch newComputedBlocks
    else do
      pyAssert newComputedBlocks.isEmptyBlocks
        "Computed blocks should be empty when prefix caching is disabled"
      .ok c.blockPool)
  let c := { c with blockPool := pool }
  if newComputedBlocks.isEmptyBlocks then .ok c
  else c.saveNewComputedBlocks requestId newComputedBlocks

/-- The part of `allocate_slots` that takes blocks from the pool: the prefix hit and the new
blocks of every group. -/
def reserveSlots (k : KVCacheManager) (c : KVCacheCoordinator) (requestId : String)
    (numTokensNeedSlot : Int) (newComputedBlocks : KVCacheBlocks) (numEncoderTokens : Int) :
    Except PyError (KVCacheBlocks × KVCacheCoordinator) := do
  let c ← k.takeComputedBlocks c requestId newComputedBlocks
  c.allocateNewBlocks requestId numTokensNeedSlot numEncoderTokens

/-- The part of `allocate_slots` after the pool was found to have enough free blocks. -/
def takeSlots (k : KVCacheManager) (c : KVCacheCoordinator) (request : Request)
    (numComputedTokens numNewTokens numTokensNeedSlot : Int)
    (newComputedBlocks : KVCacheBlocks) (delayCacheBlocks : Bool) (numEncoderTokens : Int) :
    Except PyError (KVCacheBlocks × KVCacheManager) := do
  let (newBlocks, c) ← k.reserveSlots c request.requestId numTokensNeedSlot newComputedBlocks
    numEncoderTokens
  if k.enableCaching = false ∨ delayCacheBlocks = true then
    return (newBlocks, { k with coordinator := c })
  else
    -- Only finalized tokens are cached, not draft tokens that could be rejected.
    let numTokensToCache := min (numComputedTokens + numNewTokens) request.numTokens
    let c ← c.cacheBlocks request numTokensToCache
    return (newBlocks, { k with coordinator := c })

/-- `allocate_slots`, with its return value first. -/
def allocateSlots (k : KVCacheManager) (request : Request) (numNewTokens : Int)
    (numNewComputedTokens : Int) (newComputedBlocks : Option KVCacheBlocks)
    (numLookaheadTokens : Int) (delayCacheBlocks : Bool) (numEncoderTokens : Int) :
    Except PyError (Option KVCacheBlocks × KVCacheManager) :=
  if numNewTokens = 0 then
    .error (.valueError "num_new_tokens must be greater than 0")
  else do
    let newComputedBlocks := newComputedBlocks.getD k.emptyKvCacheBlocks
    -- Free the blocks that are skipped during the attention computation.
    let c ← k.coordinator.removeSkippedBlocks request.requestId request.numComputedTokens
    let numComputedTokens := request.numComputedTokens + numNewComputedTokens
    let numTokensNeedSlot :=
      min (numComputedTokens + numNewTokens + numLookaheadTokens) k.maxModelLen
    let (numBlocksToAllocate, c) ← c.getNumBlocksToAllocate request.requestId
      numTokensNeedSlot newComputedBlocks numEncoderTokens
    if c.blockPool.getNumFreeBlocks < numBlocksToAllocate then
      -- Cannot allocate new blocks.
      return (none, { k with coordinator := c })
    else
      let (newBlocks, k) ← k.takeSlots c request numComputedTokens numNewTokens
        numTokensNeedSlot newComputedBlocks delayCacheBlocks numEncoderTokens
      return (some newBlocks, k)

/-- `free`. -/
def free (k : KVCacheManager) (request : Request) : Except PyError KVCacheManager := do
  let c ← k.coordinator.free request.requestId
  return { k with coordinator := c }

/-- `evict_blocks`. -/
def evictBlocks (k : KVCacheManager) (blockIds : List Nat) : Except PyError KVCacheManager := do
  let pool ← k.coordinator.blockPool.evictBlocks blockIds
  return { k with coordinator := { k.coordinator with blockPool := pool } }

/-- `reset_prefix_cache`, with its return value first. -/
def resetPrefixCache (k : KVCacheManager) : Bool × KVCacheManager :=
  let (ok, pool) := k.coordinator.blockPool.resetPrefixCache
  (ok, { k with coordinator := { k.coordinator with blockPool := pool } })

/-- `get_num_common_prefix_blocks`. -/
def getNumCommonPrefixBlocks (k : KVCacheManager) (runningRequestId : String) :
    List Nat × KVCacheManager :=
  let (ns, c) := k.coordinator.getNumCommonPrefixBlocks runningRequestId
  (ns, { k with coordinator := c })

/-- `take_events`. -/
def takeEvents (k : KVCacheManager) : List KVCacheEvent × KVCacheManager :=
  let (events, pool) := k.coordinator.blockPool.takeEvents
  (events, { k with coordinator := { k.coordinator with blockPool := pool } })

/-- `get_blocks`. -/
def getBlocks (k : KVCacheManager) (requestId : String) : KVCacheBlocks :=
  k.coordinator.getBlocks requestId

/-- `cache_blocks`. -/
def cacheBlocks (k : KVCacheManager) (request : Request) (numComputedTokens : Int) :
    Except PyError KVCacheManager :=
  if k.enableCaching then do
    let c ← k.coordinator.cacheBlocks request numComputedTokens
    return { k with coordinator := c }
  else .ok k

end KVCacheManager

end Vllm.V1.Core
