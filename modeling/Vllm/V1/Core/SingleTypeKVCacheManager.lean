import Mathlib.Data.PNat.Basic
import Vllm.V1.Core.BlockPool

/-!
# `Vllm.V1.Core.SingleTypeKVCacheManager`: one KV cache group
(`vllm/v1/core/single_type_kv_cache_manager.py`)

A manager keeps, for one group of layers, the block table of every request. The class of a
manager follows the kind of its `KVCacheSpec`; the methods that the subclasses override are
dispatched on that kind. The managers of all groups share one `BlockPool`, which a method
takes and returns.

`req_to_blocks` is a `defaultdict`: reading a missing key inserts an empty table, and
`SingleTypeKVCacheManager.reqBlocks` does so too.

Of the specs only the fields that the managers read are kept; the shapes and data types of the
layers are left out. Sizes are positive by their type.
-/

set_option autoImplicit false

namespace Vllm.V1.Core

open Vllm.Lib Vllm.V1

/-- `KVCacheSpec` and its subclasses that have a manager. -/
inductive KVCacheSpec where
  | fullAttention (blockSize : ℕ+)
  | mlaAttention (blockSize : ℕ+)
  | slidingWindow (blockSize window : ℕ+)
  | chunkedLocalAttention (blockSize attentionChunkSize : ℕ+)
  | mamba (blockSize : ℕ+) (numSpeculativeBlocks : Nat)
  | crossAttention (blockSize : ℕ+)
deriving DecidableEq

/-- The field `block_size`. -/
def KVCacheSpec.blockSize : KVCacheSpec → ℕ+
  | .fullAttention b => b
  | .mlaAttention b => b
  | .slidingWindow b _ => b
  | .chunkedLocalAttention b _ => b
  | .mamba b _ => b
  | .crossAttention b => b

/-- `isinstance(spec, FullAttentionSpec)`: the MLA spec is a subclass of it. -/
def KVCacheSpec.isFullAttention : KVCacheSpec → Bool
  | .fullAttention _ => true
  | .mlaAttention _ => true
  | _ => false

/-- `isinstance(manager, CrossAttentionManager)`. -/
def KVCacheSpec.isCrossAttention : KVCacheSpec → Bool
  | .crossAttention _ => true
  | _ => false

/-- `SingleTypeKVCacheManager`. -/
structure SingleTypeKVCacheManager where
  blockSize : ℕ+
  kvCacheSpec : KVCacheSpec
  reqToBlocks : PyDict String (List BlockRef)
  numCachedBlock : PyDict String Nat
  kvCacheGroupId : UInt32
  nullBlock : BlockRef
deriving DecidableEq

namespace SingleTypeKVCacheManager

/-- `SingleTypeKVCacheManager.__init__`. -/
def init (kvCacheSpec : KVCacheSpec) (blockPool : BlockPool) (kvCacheGroupId : UInt32)
    (dcpWorldSize pcpWorldSize : ℕ+) : SingleTypeKVCacheManager where
  blockSize :=
    if 1 < dcpWorldSize * pcpWorldSize then
      kvCacheSpec.blockSize * (dcpWorldSize * pcpWorldSize)
    else kvCacheSpec.blockSize
  kvCacheSpec := kvCacheSpec
  reqToBlocks := PyDict.empty
  numCachedBlock := PyDict.empty
  kvCacheGroupId := kvCacheGroupId
  nullBlock := blockPool.nullBlock

/-- The table of a request, empty when it has none. -/
def table (m : SingleTypeKVCacheManager) (requestId : String) : List BlockRef :=
  (m.reqToBlocks.get? requestId).getD []

/-- Overwrites the table of a request. -/
def setTable (m : SingleTypeKVCacheManager) (requestId : String) (blocks : List BlockRef) :
    SingleTypeKVCacheManager :=
  { m with reqToBlocks := m.reqToBlocks.insert requestId blocks }

/-- `self.req_to_blocks[request_id]`, with the entry it leaves behind. -/
def reqBlocks (m : SingleTypeKVCacheManager) (requestId : String) :
    List BlockRef × SingleTypeKVCacheManager :=
  (m.table requestId, m.setTable requestId (m.table requestId))

/-- The tokens a mamba group adds for its speculative blocks. -/
def addSpeculativeTokens (m : SingleTypeKVCacheManager) (numTokens : Int) : Int :=
  match m.kvCacheSpec with
  | .mamba blockSize numSpeculativeBlocks =>
    if 0 < numSpeculativeBlocks then numTokens + blockSize * numSpeculativeBlocks
    else numTokens
  | _ => numTokens

/-- `get_num_blocks_to_allocate`. -/
def getNumBlocksToAllocate (m : SingleTypeKVCacheManager) (pool : BlockPool)
    (requestId : String) (numTokens : Int) (newComputedBlocks : List BlockRef) :
    Int × SingleTypeKVCacheManager :=
  let numRequiredBlocks := cdiv (m.addSpeculativeTokens numTokens) m.blockSize
  let (reqBlocks, m) := m.reqBlocks requestId
  let numNewBlocks := numRequiredBlocks - newComputedBlocks.length - reqBlocks.length
  -- A computed block in the free queue turns from a free block into a computed one.
  let numEvictableComputedBlocks :=
    newComputedBlocks.countP fun b => (pool.deref b).refCnt = 0 ∧ (pool.deref b).isNull = false
  (numNewBlocks + numEvictableComputedBlocks, m)

/-- `save_new_computed_blocks`. -/
def saveNewComputedBlocks (m : SingleTypeKVCacheManager) (requestId : String)
    (newComputedBlocks : List BlockRef) : Except PyError SingleTypeKVCacheManager :=
  if m.kvCacheSpec.isCrossAttention then do
    pyAssert newComputedBlocks.isEmpty "len(new_computed_blocks) == 0"
    return m
  else if m.numCachedBlock.contains requestId = false then do
    -- A new request.
    let (reqBlocks, m) := m.reqBlocks requestId
    pyAssert reqBlocks.isEmpty "len(req_blocks) == 0"
    let m := m.setTable requestId (reqBlocks ++ newComputedBlocks)
    return { m with
      numCachedBlock := m.numCachedBlock.insert requestId newComputedBlocks.length }
  else do
    -- A running request. Should not have new computed blocks.
    pyAssert newComputedBlocks.isEmpty "len(new_computed_blocks) == 0"
    return m

/-- `allocate_new_blocks`, with the new blocks first. -/
def allocateNewBlocks (m : SingleTypeKVCacheManager) (pool : BlockPool) (requestId : String)
    (numTokens : Int) :
    Except PyError (List BlockRef × SingleTypeKVCacheManager × BlockPool) := do
  let (reqBlocks, m) := m.reqBlocks requestId
  let numRequiredBlocks := cdiv (m.addSpeculativeTokens numTokens) m.blockSize
  let numNewBlocks := numRequiredBlocks - reqBlocks.length
  if numNewBlocks ≤ 0 then return ([], m, pool)
  else
    let (newBlocks, pool) ← pool.getNewBlocks numNewBlocks.toNat
    return (newBlocks, m.setTable requestId (reqBlocks ++ newBlocks), pool)

/-- `cache_blocks`. -/
def cacheBlocks (m : SingleTypeKVCacheManager) (pool : BlockPool) (request : Request)
    (numTokens : Int) : Except PyError (SingleTypeKVCacheManager × BlockPool) :=
  if m.kvCacheSpec.isCrossAttention then
    .error (.valueError "Should not be called as prefix caching is disabled.")
  else do
    let numCachedBlocks := (m.numCachedBlock.get? request.requestId).getD 0
    let numFullBlocks := Int.fdiv numTokens m.blockSize
    if numFullBlocks ≤ numCachedBlocks then return (m, pool)
    else
      let (reqBlocks, m) := m.reqBlocks request.requestId
      let pool ← pool.cacheFullBlocks request reqBlocks numCachedBlocks numFullBlocks.toNat
        m.blockSize m.kvCacheGroupId
      return ({ m with
        numCachedBlock := m.numCachedBlock.insert request.requestId numFullBlocks.toNat },
        pool)

/-- `free`. -/
def free (m : SingleTypeKVCacheManager) (pool : BlockPool) (requestId : String) :
    Except PyError (SingleTypeKVCacheManager × BlockPool) := do
  let reqBlocks := m.table requestId
  -- Free blocks in reverse order so that the tail blocks are freed first.
  let pool ← pool.freeBlocks reqBlocks.reverse
  return ({ m with
    reqToBlocks := m.reqToBlocks.erase requestId
    numCachedBlock := m.numCachedBlock.erase requestId }, pool)

/-- `get_num_skipped_tokens`. -/
def getNumSkippedTokens (m : SingleTypeKVCacheManager) (numComputedTokens : Int) : Int :=
  match m.kvCacheSpec with
  | .slidingWindow _ window => numComputedTokens - window + 1
  | .chunkedLocalAttention _ attentionChunkSize =>
    Int.fdiv numComputedTokens attentionChunkSize * attentionChunkSize
  | _ => 0

/-- The loop of `remove_skipped_blocks`, from index `i - 1` down: the new table and the
removed blocks. It stops at the first null block. -/
def removeSkippedBlocksLoop (nullBlock : BlockRef) :
    Nat → List BlockRef → List BlockRef → Except PyError (List BlockRef × List BlockRef)
  | 0, blocks, removed => .ok (blocks, removed)
  | i + 1, blocks, removed =>
    match blocks[i]? with
    | none => .error (.indexError "list index out of range")
    | some block =>
      if block = nullBlock then .ok (blocks, removed)
      else removeSkippedBlocksLoop nullBlock i (blocks.set i nullBlock) (removed ++ [block])

/-- `remove_skipped_blocks`. -/
def removeSkippedBlocks (m : SingleTypeKVCacheManager) (pool : BlockPool)
    (requestId : String) (numComputedTokens : Int) :
    Except PyError (SingleTypeKVCacheManager × BlockPool) := do
  let numSkippedTokens := m.getNumSkippedTokens numComputedTokens
  if numSkippedTokens ≤ 0 then return (m, pool)
  else
    let numSkippedBlocks := Int.fdiv numSkippedTokens m.blockSize
    let (blocks, m) := m.reqBlocks requestId
    let (blocks, removed) ← removeSkippedBlocksLoop m.nullBlock numSkippedBlocks.toNat blocks []
    let pool ← pool.freeBlocks removed
    return (m.setTable requestId blocks, pool)

/-- `get_num_common_prefix_blocks`. -/
def getNumCommonPrefixBlocks (m : SingleTypeKVCacheManager) (pool : BlockPool)
    (runningRequestId : String) : Nat × SingleTypeKVCacheManager :=
  if m.kvCacheSpec.isFullAttention then
    let (blocks, m) := m.reqBlocks runningRequestId
    ((blocks.takeWhile fun b => (pool.deref b).refCnt = m.reqToBlocks.size).length, m)
  else (0, m)

end SingleTypeKVCacheManager

section CacheHits
variable (pool : BlockPool) (kvCacheGroupIds : List UInt32)

/-- `block_pool.get_cached_block(..)` as the walrus conditions of the managers read it: an
empty list counts as a miss. -/
def lookupCachedBlock (blockHash : BlockHash) : Except PyError (Option (List BlockRef)) := do
  match ← pool.getCachedBlock blockHash kvCacheGroupIds with
  | some (b :: bs) => return some (b :: bs)
  | _ => return none

/-- `while block_size != alignment_tokens and ..: computed.pop()`, for at most as many rounds
as the first list has blocks. -/
def popUntilAligned (blockSize alignmentTokens : ℕ+) :
    Nat → List (List BlockRef) → List (List BlockRef)
  | 0, computed => computed
  | n + 1, computed =>
    if blockSize ≠ alignmentTokens ∧
        (computed.headD []).length * blockSize % alignmentTokens ≠ 0 then
      popUntilAligned blockSize alignmentTokens n (computed.map List.dropLast)
    else computed

/-- Extends the computed blocks of every group while the hashes hit the cache. -/
def extendWhileHit : List BlockHash → List (List BlockRef) →
    Except PyError (List (List BlockRef))
  | [], computed => .ok computed
  | blockHash :: blockHashes, computed => do
      match ← lookupCachedBlock pool kvCacheGroupIds blockHash with
      | some cached =>
        extendWhileHit blockHashes (List.zipWith (fun l b => l ++ [b]) computed cached)
      | none => return computed

/-- `FullAttentionManager.find_longest_cache_hit`. -/
def fullAttentionCacheHit (blockHashes : List BlockHash) (maxLength : Int)
    (kvCacheSpec : KVCacheSpec) (useEagle : Bool) (alignmentTokens : ℕ+)
    (dcpWorldSize pcpWorldSize : ℕ+) : Except PyError (List (List BlockRef)) := do
  let blockSize :=
    if 1 < dcpWorldSize * pcpWorldSize then
      kvCacheSpec.blockSize * (dcpWorldSize * pcpWorldSize)
    else kvCacheSpec.blockSize
  let maxNumBlocks := Int.fdiv maxLength blockSize
  if maxNumBlocks < 0 then
    .error (.valueError "Stop argument for islice() must be None or an integer")
  else
    let computed ← extendWhileHit pool kvCacheGroupIds
      (blockHashes.take maxNumBlocks.toNat) (kvCacheGroupIds.map fun _ => [])
    -- Need to drop the last matched block if eagle is enabled.
    let computed := if useEagle && !(computed.headD []).isEmpty
      then computed.map List.dropLast else computed
    return popUntilAligned blockSize alignmentTokens (computed.headD []).length computed

/-- The loop of `SlidingWindowManager.find_longest_cache_hit`, from index `i - 1` down:
the computed blocks, the number of contiguous hits and whether a match was found. -/
def slidingWindowLoop (blockHashes : List BlockHash) (contiguousBlocks : Int)
    (blockSize alignmentTokens : ℕ+) :
    Nat → List (List BlockRef) → Nat → Except PyError (List (List BlockRef) × Nat × Bool)
  | 0, computed, numContiguous => .ok (computed, numContiguous, false)
  | i + 1, computed, numContiguous => do
      match blockHashes[i]? with
      | none => .error (.indexError "list index out of range")
      | some blockHash =>
        match ← lookupCachedBlock pool kvCacheGroupIds blockHash with
        | some cached =>
          -- Skip if the block is not aligned with `alignment_tokens`.
          if numContiguous = 0 ∧ blockSize ≠ alignmentTokens ∧
              (i + 1) * blockSize % alignmentTokens ≠ 0 then
            slidingWindowLoop blockHashes contiguousBlocks blockSize alignmentTokens i
              computed numContiguous
          else
            let computed := List.zipWith (fun l b => l.set i b) computed cached
            if contiguousBlocks ≤ numContiguous + 1 then
              -- Trim the trailing blocks.
              return (computed.map (List.take (i + (numContiguous + 1))),
                numContiguous + 1, true)
            else
              slidingWindowLoop blockHashes contiguousBlocks blockSize alignmentTokens i
                computed (numContiguous + 1)
        | none =>
          slidingWindowLoop blockHashes contiguousBlocks blockSize alignmentTokens i
            computed 0

/-- `SlidingWindowManager.find_longest_cache_hit`. -/
def slidingWindowCacheHit (blockHashes : List BlockHash) (maxLength : Int)
    (blockSize window : ℕ+) (useEagle : Bool) (alignmentTokens : ℕ+)
    (dcpWorldSize pcpWorldSize : ℕ+) : Except PyError (List (List BlockRef)) := do
  pyAssert (dcpWorldSize = 1) "DCP not support sliding window attn now."
  pyAssert (pcpWorldSize = 1) "PCP not support sliding window attn now."
  -- `-1` since the input token itself is also included in the window.
  let contiguousBlocks := cdiv ((window : Int) - 1) blockSize + (if useEagle then 1 else 0)
  let maxNumBlocks := (Int.fdiv maxLength blockSize).toNat
  let computed := kvCacheGroupIds.map fun _ => List.replicate maxNumBlocks pool.nullBlock
  let (computed, numContiguous, matchFound) ← slidingWindowLoop pool kvCacheGroupIds blockHashes
    contiguousBlocks blockSize alignmentTokens maxNumBlocks computed 0
  let computed := if matchFound then computed
    else
      let computed := computed.map (List.take numContiguous)
      popUntilAligned blockSize alignmentTokens (computed.headD []).length computed
  if useEagle && !(computed.headD []).isEmpty then do
    pyAssert (blockSize = alignmentTokens) "aligned_length is not compatible with eagle now"
    return computed.map List.dropLast
  else return computed

/-- The loop of `ChunkedLocalAttentionManager.find_longest_cache_hit`: `n` rounds left, from
index `i` up. -/
def chunkedLocalAttentionLoop (blockHashes : List BlockHash) :
    Nat → Nat → List (List BlockRef) → Except PyError (List (List BlockRef))
  | 0, _, computed => .ok computed
  | n + 1, i, computed => do
      match blockHashes[i]? with
      | none => .error (.indexError "list index out of range")
      | some blockHash =>
        match ← lookupCachedBlock pool kvCacheGroupIds blockHash with
        | some cached =>
          chunkedLocalAttentionLoop blockHashes n (i + 1)
            (List.zipWith (fun l b => l ++ [b]) computed cached)
        | none => return computed

/-- `ChunkedLocalAttentionManager.find_longest_cache_hit`. -/
def chunkedLocalAttentionCacheHit (blockHashes : List BlockHash) (maxLength : Int)
    (blockSize attentionChunkSize : ℕ+) (useEagle : Bool) (alignmentTokens : ℕ+)
    (dcpWorldSize pcpWorldSize : ℕ+) : Except PyError (List (List BlockRef)) := do
  pyAssert (useEagle = false)
    "Hybrid KV cache is not supported for eagle + chunked local attention."
  pyAssert (dcpWorldSize = 1) "DCP not support chunked local attn now."
  pyAssert (pcpWorldSize = 1) "PCP not support chunked local attn now."
  pyAssert (blockSize = alignmentTokens)
    ("KV cache groups with different block sizes are not compatible with "
      ++ "chunked local attention now")
  let maxNumBlocks := (Int.fdiv maxLength blockSize).toNat
  let localAttentionStartIdx :=
    if 0 < maxLength then Int.fdiv maxLength attentionChunkSize * attentionChunkSize else 0
  let startBlockIdx := (Int.fdiv localAttentionStartIdx blockSize).toNat
  -- Blocks out of the window count as computed and are null.
  let computed := kvCacheGroupIds.map fun _ => List.replicate startBlockIdx pool.nullBlock
  chunkedLocalAttentionLoop pool kvCacheGroupIds blockHashes (maxNumBlocks - startBlockIdx)
    startBlockIdx computed

/-- The loop of `MambaManager.find_longest_cache_hit`, from index `i - 1` down. -/
def mambaLoop (blockHashes : List BlockHash) (blockSize alignmentTokens : ℕ+) :
    Nat → Except PyError (List (List BlockRef))
  | 0 => .ok (kvCacheGroupIds.map fun _ => [])
  | i + 1 => do
      match blockHashes[i]? with
      | none => .error (.indexError "list index out of range")
      | some blockHash =>
        match ← lookupCachedBlock pool kvCacheGroupIds blockHash with
        | some cached =>
          if blockSize ≠ alignmentTokens ∧ (i + 1) * blockSize % alignmentTokens ≠ 0 then
            mambaLoop blockHashes blockSize alignmentTokens i
          else return cached.map fun b => List.replicate i pool.nullBlock ++ [b]
        | none => mambaLoop blockHashes blockSize alignmentTokens i

/-- `MambaManager.find_longest_cache_hit`. -/
def mambaCacheHit (blockHashes : List BlockHash) (maxLength : Int)
    (blockSize alignmentTokens : ℕ+) (dcpWorldSize pcpWorldSize : ℕ+) :
    Except PyError (List (List BlockRef)) := do
  pyAssert (dcpWorldSize = 1) "DCP not support mamba now."
  pyAssert (pcpWorldSize = 1) "PCP not support mamba now."
  mambaLoop pool kvCacheGroupIds blockHashes blockSize alignmentTokens
    (Int.fdiv maxLength blockSize).toNat

/-- `find_longest_cache_hit` of the manager class of a spec. -/
def findLongestCacheHit (blockHashes : List BlockHash) (maxLength : Int)
    (kvCacheSpec : KVCacheSpec) (useEagle : Bool) (alignmentTokens : ℕ+)
    (dcpWorldSize pcpWorldSize : ℕ+) : Except PyError (List (List BlockRef)) :=
  match kvCacheSpec with
  | .fullAttention _ | .mlaAttention _ =>
    fullAttentionCacheHit pool kvCacheGroupIds blockHashes maxLength kvCacheSpec useEagle
      alignmentTokens dcpWorldSize pcpWorldSize
  | .slidingWindow blockSize window =>
    slidingWindowCacheHit pool kvCacheGroupIds blockHashes maxLength blockSize window useEagle
      alignmentTokens dcpWorldSize pcpWorldSize
  | .chunkedLocalAttention blockSize attentionChunkSize =>
    chunkedLocalAttentionCacheHit pool kvCacheGroupIds blockHashes maxLength blockSize
      attentionChunkSize useEagle alignmentTokens dcpWorldSize pcpWorldSize
  | .mamba blockSize _ =>
    mambaCacheHit pool kvCacheGroupIds blockHashes maxLength blockSize alignmentTokens
      dcpWorldSize pcpWorldSize
  | .crossAttention _ =>
    .error (.notImplementedError "CrossAttentionManager does not support caching")

end CacheHits

end Vllm.V1.Core
