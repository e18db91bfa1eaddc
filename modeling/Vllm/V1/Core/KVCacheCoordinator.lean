import Vllm.V1.Core.SingleTypeKVCacheManager

/-!
# `Vllm.V1.Core.KVCacheCoordinator`: all KV cache groups
(`vllm/v1/core/kv_cache_coordinator.py`)

The coordinator owns the block pool and one manager per group, and applies each operation to
the managers in the order of the groups. Its three classes differ in
`find_longest_cache_hit` only; `CoordinatorKind` holds what each of them adds.
-/

set_option autoImplicit false

namespace Vllm.V1.Core

open Vllm.Lib Vllm.V1

/-- What `HybridKVCacheCoordinator.verify_and_split_kv_cache_groups` stores. -/
structure HybridGroups where
  fullAttentionGroupIds : List UInt32
  otherGroupIds : List UInt32
  fullAttentionSpec : KVCacheSpec
  otherSpec : KVCacheSpec
  fullAttnFirst : Bool
deriving DecidableEq

/-- `lcm_block_size`. -/
def HybridGroups.lcmBlockSize (h : HybridGroups) : ℕ+ :=
  ⟨Nat.lcm h.fullAttentionSpec.blockSize h.otherSpec.blockSize,
    Nat.lcm_pos h.fullAttentionSpec.blockSize.pos h.otherSpec.blockSize.pos⟩

/-- The class of a coordinator. -/
inductive CoordinatorKind where
  | noPrefixCache
  | unitary (kvCacheSpec : KVCacheSpec) (blockSize : ℕ+)
  | hybrid (groups : HybridGroups)
deriving DecidableEq

/-- `KVCacheCoordinator`. -/
structure KVCacheCoordinator where
  kind : CoordinatorKind
  maxModelLen : Nat
  enableCaching : Bool
  blockPool : BlockPool
  useEagle : Bool
  singleTypeManagers : List SingleTypeKVCacheManager
  dcpWorldSize : ℕ+
  pcpWorldSize : ℕ+
  hashBlockSize : Nat

/-- The loop of `verify_and_split_kv_cache_groups`: the specs seen so far and the ids of the
two kinds of groups. -/
def splitGroups : List KVCacheSpec → Nat → Option KVCacheSpec → Option KVCacheSpec →
    List Nat → List Nat →
    Except PyError (Option KVCacheSpec × Option KVCacheSpec × List Nat × List Nat)
  | [], _, full, other, fullIds, otherIds => .ok (full, other, fullIds, otherIds)
  | g :: gs, i, full, other, fullIds, otherIds =>
    if g.isFullAttention then do
      pyAssert (full.getD g = g) ("HybridKVCacheCoordinator assumes exactly one type of "
        ++ "full attention groups now.")
      splitGroups gs (i + 1) (some g) other (fullIds ++ [i]) otherIds
    else do
      pyAssert (other.getD g = g) ("HybridKVCacheCoordinator assumes "
        ++ "exactly one other type of groups now.")
      splitGroups gs (i + 1) full (some g) fullIds (otherIds ++ [i])

/-- `verify_and_split_kv_cache_groups`. -/
def verifyAndSplitKvCacheGroups (groups : List KVCacheSpec) : Except PyError HybridGroups := do
  let (full, other, fullIds, otherIds) ← splitGroups groups 0 none none [] []
  match full, other with
  | none, _ => .error (.assertionError ("HybridKVCacheCoordinator assumes exactly one type of "
      ++ "full attention groups now."))
  | some _, none => .error (.assertionError
      "HybridKVCacheCoordinator assumes exactly one type of other groups now.")
  | some full, some other =>
    let result (fullAttnFirst : Bool) : HybridGroups :=
      { fullAttentionGroupIds := fullIds.map UInt32.ofNat
        otherGroupIds := otherIds.map UInt32.ofNat
        fullAttentionSpec := full
        otherSpec := other
        fullAttnFirst }
    if fullIds.all fun i => otherIds.all fun j => i < j then return result true
    else if otherIds.all fun i => fullIds.all fun j => i < j then return result false
    else .error (.valueError ("HybridKVCacheCoordinator assumes the full "
      ++ "attention group ids and other attention group ids do not interleave, either full "
      ++ "attention group ids are before other attention group ids or vice versa."
      ++ "This is for simplifying merging hit_blocks_full_attn and "
      ++ "hit_blocks_other_attn to hit_blocks."))

namespace KVCacheCoordinator

/-- The managers of the groups, one after the other. -/
def initManagers (pool : BlockPool) (dcpWorldSize pcpWorldSize : ℕ+) :
    Nat → List KVCacheSpec → List SingleTypeKVCacheManager
  | _, [] => []
  | i, g :: gs =>
    SingleTypeKVCacheManager.init g pool (UInt32.ofNat i) dcpWorldSize pcpWorldSize
      :: initManagers pool dcpWorldSize pcpWorldSize (i + 1) gs

/-- The block size of `UnitaryKVCacheCoordinator`. -/
def unitaryBlockSize (kvCacheSpec : KVCacheSpec) (dcpWorldSize pcpWorldSize : ℕ+) : ℕ+ :=
  let blockSize := if 1 < dcpWorldSize then kvCacheSpec.blockSize * dcpWorldSize
    else kvCacheSpec.blockSize
  if 1 < pcpWorldSize then blockSize * pcpWorldSize else blockSize

/-- `get_kv_cache_coordinator` and the `__init__` of the chosen class. -/
def getKvCacheCoordinator (numBlocks : Nat) (kvCacheGroups : List KVCacheSpec)
    (maxModelLen : Nat) (useEagle enableCaching enableKvCacheEvents useIntBlockHashes : Bool)
    (dcpWorldSize pcpWorldSize : ℕ+) (hashBlockSize : Nat) :
    Except PyError KVCacheCoordinator := do
  let pool ← BlockPool.init numBlocks enableCaching hashBlockSize enableKvCacheEvents
    useIntBlockHashes
  let coordinator (kind : CoordinatorKind) : KVCacheCoordinator :=
    { kind, maxModelLen, enableCaching, blockPool := pool, useEagle
      singleTypeManagers := initManagers pool dcpWorldSize pcpWorldSize 0 kvCacheGroups
      dcpWorldSize, pcpWorldSize, hashBlockSize }
  if enableCaching = false then return coordinator .noPrefixCache
  else
    match kvCacheGroups with
    | [spec] => do
        let blockSize := unitaryBlockSize spec dcpWorldSize pcpWorldSize
        pyAssert (hashBlockSize = blockSize)
          "UnitaryKVCacheCoordinator assumes hash_block_size == block_size"
        return coordinator (.unitary spec blockSize)
    | _ => do
        pyAssert (kvCacheGroups.all fun g => (g.blockSize : Nat) % hashBlockSize = 0)
          "block_size must be divisible by hash_block_size"
        pyAssert (dcpWorldSize = 1) "DCP not support hybrid attn now."
        pyAssert (pcpWorldSize = 1) "PCP not support hybrid attn now."
        let groups ← verifyAndSplitKvCacheGroups kvCacheGroups
        return coordinator (.hybrid groups)

/-- Applies an operation to the managers one after the other, on the shared pool. -/
def forManagers (f : SingleTypeKVCacheManager → BlockPool →
      Except PyError (SingleTypeKVCacheManager × BlockPool)) :
    List SingleTypeKVCacheManager → BlockPool →
    Except PyError (List SingleTypeKVCacheManager × BlockPool)
  | [], pool => .ok ([], pool)
  | m :: ms, pool => do
      let (m, pool) ← f m pool
      let (ms, pool) ← forManagers f ms pool
      return (m :: ms, pool)

/-- `forManagers` on the managers and the pool of a coordinator. -/
def withManagers (c : KVCacheCoordinator)
    (f : SingleTypeKVCacheManager → BlockPool →
      Except PyError (SingleTypeKVCacheManager × BlockPool)) :
    Except PyError KVCacheCoordinator := do
  let (ms, pool) ← forManagers f c.singleTypeManagers c.blockPool
  return { c with singleTypeManagers := ms, blockPool := pool }

/-- The loop of `get_num_blocks_to_allocate`. The last list is `new_computed_blocks[i:]`. -/
def sumBlocksToAllocate (pool : BlockPool) (requestId : String) (numTokens : Int)
    (numEncoderTokens : Int) : List SingleTypeKVCacheManager → List (List BlockRef) →
    Except PyError (Int × List SingleTypeKVCacheManager)
  | [], _ => .ok (0, [])
  | m :: ms, newComputedBlocks => do
      let (n, m) ← (if m.kvCacheSpec.isCrossAttention then
          -- A single static allocation from the number of encoder input tokens.
          .ok (m.getNumBlocksToAllocate pool requestId numEncoderTokens [])
        else
          match newComputedBlocks with
          | [] => .error (.indexError "tuple index out of range")
          | blocks :: _ => .ok (m.getNumBlocksToAllocate pool requestId numTokens blocks))
      let (rest, ms) ← sumBlocksToAllocate pool requestId numTokens numEncoderTokens ms
        newComputedBlocks.tail
      return (n + rest, m :: ms)

/-- `get_num_blocks_to_allocate`. -/
def getNumBlocksToAllocate (c : KVCacheCoordinator) (requestId : String) (numTokens : Int)
    (newComputedBlocks : List (List BlockRef)) (numEncoderTokens : Int) :
    Except PyError (Int × KVCacheCoordinator) := do
  let (n, ms) ← sumBlocksToAllocate c.blockPool requestId numTokens numEncoderTokens
    c.singleTypeManagers newComputedBlocks
  return (n, { c with singleTypeManagers := ms })

/-- The loop of `save_new_computed_blocks`. -/
def saveAll (requestId : String) : List SingleTypeKVCacheManager → List (List BlockRef) →
    Except PyError (List SingleTypeKVCacheManager)
  | [], _ => .ok []
  | _ :: _, [] => .error (.indexError "tuple index out of range")
  | m :: ms, blocks :: newComputedBlocks => do
      let m ← m.saveNewComputedBlocks requestId blocks
      let ms ← saveAll requestId ms newComputedBlocks
      return m :: ms

/-- `save_new_computed_blocks`. -/
def saveNewComputedBlocks (c : KVCacheCoordinator) (requestId : String)
    (newComputedBlocks : List (List BlockRef)) : Except PyError KVCacheCoordinator := do
  let ms ← saveAll requestId c.singleTypeManagers newComputedBlocks
  return { c with singleTypeManagers := ms }

/-- The loop of `allocate_new_blocks`. -/
def allocateAll (requestId : String) (numTokens numEncoderTokens : Int) :
    List SingleTypeKVCacheManager → BlockPool →
    Except PyError (List (List BlockRef) × List SingleTypeKVCacheManager × BlockPool)
  | [], pool => .ok ([], [], pool)
  | m :: ms, pool => do
      let (blocks, m, pool) ← m.allocateNewBlocks pool requestId
        (if m.kvCacheSpec.isCrossAttention then numEncoderTokens else numTokens)
      let (rest, ms, pool) ← allocateAll requestId numTokens numEncoderTokens ms pool
      return (blocks :: rest, m :: ms, pool)

/-- `allocate_new_blocks`. -/
def allocateNewBlocks (c : KVCacheCoordinator) (requestId : String)
    (numTokens numEncoderTokens : Int) :
    Except PyError (List (List BlockRef) × KVCacheCoordinator) := do
  let (blocks, ms, pool) ← allocateAll requestId numTokens numEncoderTokens
    c.singleTypeManagers c.blockPool
  return (blocks, { c with singleTypeManagers := ms, blockPool := pool })

/-- `cache_blocks`. -/
def cacheBlocks (c : KVCacheCoordinator) (request : Request) (numComputedTokens : Int) :
    Except PyError KVCacheCoordinator :=
  c.withManagers fun m pool => m.cacheBlocks pool request numComputedTokens

/-- `free`. -/
def free (c : KVCacheCoordinator) (requestId : String) : Except PyError KVCacheCoordinator :=
  c.withManagers fun m pool => m.free pool requestId

/-- `remove_skipped_blocks`. -/
def removeSkippedBlocks (c : KVCacheCoordinator) (requestId : String)
    (numComputedTokens : Int) : Except PyError KVCacheCoordinator :=
  c.withManagers fun m pool => m.removeSkippedBlocks pool requestId numComputedTokens

/-- The loop of `get_num_common_prefix_blocks`. -/
def commonPrefixAll (pool : BlockPool) (runningRequestId : String) :
    List SingleTypeKVCacheManager → List Nat × List SingleTypeKVCacheManager
  | [] => ([], [])
  | m :: ms =>
    let (n, m) := m.getNumCommonPrefixBlocks pool runningRequestId
    let (ns, ms) := commonPrefixAll pool runningRequestId ms
    (n :: ns, m :: ms)

/-- `get_num_common_prefix_blocks`. -/
def getNumCommonPrefixBlocks (c : KVCacheCoordinator) (runningRequestId : String) :
    List Nat × KVCacheCoordinator :=
  match c.kind with
  | .noPrefixCache => (c.singleTypeManagers.map fun _ => 0, c)
  | _ =>
    let (ns, ms) := commonPrefixAll c.blockPool runningRequestId c.singleTypeManagers
    (ns, { c with singleTypeManagers := ms })

/-- `get_blocks`. -/
def getBlocks (c : KVCacheCoordinator) (requestId : String) : List (List BlockRef) :=
  c.singleTypeManagers.map fun m => m.table requestId

/-- The hashes of a request at the block size of a group of `HybridKVCacheCoordinator`. -/
def groupBlockHashes (c : KVCacheCoordinator) (blockHashes : List BlockHash)
    (blockSize : ℕ+) : Except PyError (List BlockHash) :=
  if (blockSize : Nat) = c.hashBlockSize then .ok blockHashes
  else blockHashListWithBlockSize blockHashes c.hashBlockSize blockSize

/-- `HybridKVCacheCoordinator.find_longest_cache_hit`. -/
def hybridCacheHit (c : KVCacheCoordinator) (g : HybridGroups) (blockHashes : List BlockHash)
    (maxCacheHitLength : Int) : Except PyError (List (List BlockRef) × Int) := do
  -- First, find the longest cache hit for full attention.
  let fullHashes ← c.groupBlockHashes blockHashes g.fullAttentionSpec.blockSize
  let hitFull ← findLongestCacheHit c.blockPool g.fullAttentionGroupIds fullHashes
    maxCacheHitLength g.fullAttentionSpec c.useEagle g.lcmBlockSize 1 1
  let hitLength := (hitFull.headD []).length * (g.fullAttentionSpec.blockSize : Nat)
  -- Next, the hit for the other attention within the hit of full attention.
  let otherHashes ← c.groupBlockHashes blockHashes g.otherSpec.blockSize
  let hitOther ← findLongestCacheHit c.blockPool g.otherGroupIds otherHashes hitLength
    g.otherSpec c.useEagle g.lcmBlockSize 1 1
  let hitLength := (hitOther.headD []).length * (g.otherSpec.blockSize : Nat)
  pyAssert (hitLength % (g.fullAttentionSpec.blockSize : Nat) = 0)
    "hit_length % self.full_attention_block_size == 0"
  -- Truncate the full attention hit to the length of the other one.
  let hitFull := hitFull.map
    (List.take (hitLength / (g.fullAttentionSpec.blockSize : Nat)))
  return (if g.fullAttnFirst then hitFull ++ hitOther else hitOther ++ hitFull, hitLength)

/-- `find_longest_cache_hit`: the hit blocks of every group and the number of hit tokens. -/
def findLongestCacheHit (c : KVCacheCoordinator) (blockHashes : List BlockHash)
    (maxCacheHitLength : Int) : Except PyError (List (List BlockRef) × Int) :=
  match c.kind with
  | .noPrefixCache => .ok (c.singleTypeManagers.map fun _ => [], 0)
  | .unitary spec blockSize => do
      let hit ← Core.findLongestCacheHit c.blockPool [0] blockHashes maxCacheHitLength spec
        c.useEagle blockSize c.dcpWorldSize c.pcpWorldSize
      return (hit, (hit.headD []).length * (blockSize : Nat))
  | .hybrid g => c.hybridCacheHit g blockHashes maxCacheHitLength

end KVCacheCoordinator

end Vllm.V1.Core
