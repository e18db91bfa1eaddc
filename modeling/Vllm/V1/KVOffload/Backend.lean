import Vllm.Lib.PyDict
import Vllm.V1.Request

/-!
# `Vllm.V1.KVOffload.Backend`: blocks of CPU memory (`vllm/v1/kv_offload/backends/cpu.py`)

The CPU backend hands out block ids, fresh ones first and then the ones that were freed. A
block carries its id and the count of `BlockStatus`, which is `-1` until the block is written
and then the number of transfers that read it.

`PrepareStoreOutput` and `OffloadingEvent` are the answers of the offloading managers
(`vllm/v1/kv_offload/abstract.py`). The specs of the transfers are the lists of block ids in
them.
-/

set_option autoImplicit false

namespace Vllm.V1.KVOffload

open Vllm.Lib Vllm.V1

/-- The value of a `ctypes.c_int32` field after an assignment. -/
def cInt32 (x : Int) : Int := Int.bmod x (2 ^ 32)

/-- `CPUBlockStatus`. -/
structure CPUBlockStatus where
  blockId : Nat
  refCnt : Int := -1
deriving DecidableEq

/-- `is_ready`. -/
def CPUBlockStatus.isReady (block : CPUBlockStatus) : Bool := decide (0 ≤ block.refCnt)

/-- `CPUBackend`. -/
structure CPUBackend where
  blockSize : Nat
  numBlocks : Nat
  numAllocatedBlocks : Nat := 0
  allocatedBlocksFreeList : List Nat := []
deriving DecidableEq

namespace CPUBackend

/-- `get_num_free_blocks`. -/
def getNumFreeBlocks (backend : CPUBackend) : Nat :=
  backend.allocatedBlocksFreeList.length + backend.numBlocks - backend.numAllocatedBlocks

/-- `allocate_blocks`. The freed ids are taken from the end of the list. -/
def allocateBlocks (backend : CPUBackend) (blockHashes : List BlockHash) :
    Except PyError (List CPUBlockStatus × CPUBackend) := do
  let numFreshBlocks := min blockHashes.length (backend.numBlocks - backend.numAllocatedBlocks)
  let numReusedBlocks := blockHashes.length - numFreshBlocks
  pyAssert (decide (numReusedBlocks ≤ backend.allocatedBlocksFreeList.length))
    "len(self.allocated_blocks_free_list) >= num_reused_blocks"
  let fresh := List.range' backend.numAllocatedBlocks numFreshBlocks
  let reused := backend.allocatedBlocksFreeList.reverse.take numReusedBlocks
  return ((fresh ++ reused).map fun blockId => { blockId },
    { backend with
      numAllocatedBlocks := backend.numAllocatedBlocks + numFreshBlocks
      allocatedBlocksFreeList := backend.allocatedBlocksFreeList.take
        (backend.allocatedBlocksFreeList.length - numReusedBlocks) })

/-- `free`. -/
def free (backend : CPUBackend) (block : CPUBlockStatus) : CPUBackend :=
  { backend with
    allocatedBlocksFreeList := backend.allocatedBlocksFreeList ++ [block.blockId] }

/-- `get_load_store_spec`. -/
def getLoadStoreSpec (blocks : List CPUBlockStatus) : List Nat :=
  blocks.map CPUBlockStatus.blockId

end CPUBackend

/-- `PrepareStoreOutput`. -/
structure PrepareStoreOutput where
  blockHashesToStore : List BlockHash
  storeSpec : List Nat
  blockHashesEvicted : List BlockHash
deriving DecidableEq

/-- `OffloadingEvent`, of the medium `CPU`. -/
structure OffloadingEvent where
  blockHashes : List BlockHash
  blockSize : Nat
  removed : Bool
deriving DecidableEq

/-- An event at the end of `self.events`, if events are enabled and it names a block. -/
def appendEvent (events : Option (List OffloadingEvent)) (event : OffloadingEvent) :
    Option (List OffloadingEvent) :=
  if event.blockHashes = [] then events else events.map (· ++ [event])

end Vllm.V1.KVOffload
