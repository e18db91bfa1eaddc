import Vllm.Lib.PyError
import Mathlib.Data.PNat.Basic
import Mathlib.Logic.Function.Basic

/-!
# `Vllm.V1.Worker.BlockTable`: the block tables of a worker (`vllm/v1/worker/block_table.py`)

A `BlockTable` holds one row of block ids for each request of the batch, as the attention kernels
read it, and computes the slots that the tokens of a step are written to. With context
parallelism each of the ranks stores a part of the tokens: the table is the same on all of them,
and the slot of a token that another rank stores is `-1`.

* `appendRow`, `addRow`, `moveRow`, `swapRow`: the rows.
* `computeSlotMapping`: the slots, in the order of the tokens of the batch.
* `getDcpLocalSeqLens`: how many tokens of a sequence a rank stores, as the attention backends
  compute it (`vllm/v1/attention/backends/utils.py`).

Arrays are functions of their indices with the sizes beside them. An index outside of them raises
as it does in the source. Device copies are left out.
-/

set_option autoImplicit false

namespace Vllm.V1.Worker

open Vllm.Lib

/-- The ranks of the two groups of context parallelism, and the place of this worker. -/
structure CPGroups where
  pcpWorldSize : ℕ+ := 1
  dcpWorldSize : ℕ+ := 1

namespace CPGroups

/-- `pcp_rank` and `dcp_rank`. -/
abbrev Rank (g : CPGroups) : Type := Fin g.pcpWorldSize × Fin g.dcpWorldSize

/-- `total_cp_world_size`. -/
def totalCpWorldSize (g : CPGroups) : Nat := g.pcpWorldSize * g.dcpWorldSize

/-- `total_cp_rank`. -/
def totalCpRank (g : CPGroups) (rank : g.Rank) : Nat := rank.1 * g.dcpWorldSize + rank.2

end CPGroups

/-- `BlockTable`. -/
structure BlockTable where
  groups : CPGroups := {}
  /-- `block_size`: of the attention kernel. -/
  blockSize : Nat
  blocksPerKvBlock : Nat := 1
  useHybridBlocks : Bool := false
  maxNumReqs : Nat
  maxNumBlocksPerReq : Nat
  maxNumBatchedTokens : Nat
  cpKvCacheInterleaveSize : Nat := 1
  /-- `block_table`: the entry of a row and a column. -/
  blockTable : Nat → Nat → Nat := fun _ _ => 0
  numBlocksPerRow : Nat → Nat := fun _ => 0
  slotMapping : Nat → Int := fun _ => 0

namespace BlockTable

/-- `__init__`. -/
def init (groups : CPGroups) (blockSize maxNumReqs maxNumBlocksPerReq maxNumBatchedTokens
    kernelBlockSize cpKvCacheInterleaveSize : Nat) : Except PyError BlockTable :=
  if kernelBlockSize = blockSize then
    .ok
      { groups
        blockSize
        maxNumReqs
        maxNumBlocksPerReq
        maxNumBatchedTokens
        cpKvCacheInterleaveSize }
  else if blockSize % kernelBlockSize ≠ 0 then
    .error (.valueError (s!"kernel_block_size {kernelBlockSize} must divide " ++
      s!"kv_manager_block_size size {blockSize} evenly"))
  else
    .ok
      { groups
        blockSize := kernelBlockSize
        blocksPerKvBlock := blockSize / kernelBlockSize
        useHybridBlocks := true
        maxNumReqs
        maxNumBlocksPerReq := maxNumBlocksPerReq * (blockSize / kernelBlockSize)
        maxNumBatchedTokens
        cpKvCacheInterleaveSize }

/-- `map_to_kernel_blocks`: each block of the KV cache manager is a number of blocks of the
kernel. -/
def mapToKernelBlocks (kvManagerBlockIds : List Nat) (blocksPerKvBlock : Nat) : List Nat :=
  if blocksPerKvBlock = 1 then kvManagerBlockIds
  else kvManagerBlockIds.flatMap fun b =>
    (List.range blocksPerKvBlock).map fun i => b * blocksPerKvBlock + i

/-- The ids as the kernel has them. -/
def kernelBlockIds (t : BlockTable) (blockIds : List Nat) : List Nat :=
  if t.useHybridBlocks then mapToKernelBlocks blockIds t.blocksPerKvBlock else blockIds

/-- `row[start : start + len(values)] = values`. -/
def writeRow (row : Nat → Nat) (start : Nat) (values : List Nat) : Nat → Nat :=
  fun j => if start ≤ j then (values[j - start]?).getD (row j) else row j

/-- `append_row`. -/
def appendRow (t : BlockTable) (blockIds : List Nat) (rowIdx : Nat) :
    Except PyError BlockTable :=
  if blockIds = [] then .ok t
  else
    let blockIds := t.kernelBlockIds blockIds
    let numBlocks := blockIds.length
    let start := t.numBlocksPerRow rowIdx
    if t.maxNumReqs ≤ rowIdx then
      .error (.indexError "index is out of bounds for axis 0")
    else if t.maxNumBlocksPerReq < start + numBlocks then
      .error (.valueError "could not broadcast input array")
    else .ok { t with
      numBlocksPerRow := Function.update t.numBlocksPerRow rowIdx (start + numBlocks)
      blockTable := Function.update t.blockTable rowIdx
        (writeRow (t.blockTable rowIdx) start blockIds) }

/-- `add_row`. -/
def addRow (t : BlockTable) (blockIds : List Nat) (rowIdx : Nat) : Except PyError BlockTable :=
  if t.maxNumReqs ≤ rowIdx then
    .error (.indexError "index is out of bounds for axis 0")
  else
    appendRow { t with numBlocksPerRow := Function.update t.numBlocksPerRow rowIdx 0 } blockIds
      rowIdx

/-- `move_row`: the entries behind the blocks of the row stay. -/
def moveRow (t : BlockTable) (src tgt : Nat) : BlockTable :=
  let numBlocks := t.numBlocksPerRow src
  { t with
    blockTable := Function.update t.blockTable tgt fun j =>
      if j < numBlocks then t.blockTable src j else t.blockTable tgt j
    numBlocksPerRow := Function.update t.numBlocksPerRow tgt numBlocks }

/-- `swap_row`. -/
def swapRow (t : BlockTable) (src tgt : Nat) : BlockTable :=
  { t with
    numBlocksPerRow := Function.update
      (Function.update t.numBlocksPerRow src (t.numBlocksPerRow tgt)) tgt (t.numBlocksPerRow src)
    blockTable := Function.update
      (Function.update t.blockTable src (t.blockTable tgt)) tgt (t.blockTable src) }

/-- `block_table.np.ravel()[i]`. -/
def ravel (t : BlockTable) (i : Nat) : Except PyError Nat :=
  if i < t.maxNumReqs * t.maxNumBlocksPerReq then
    .ok (t.blockTable (i / t.maxNumBlocksPerReq) (i % t.maxNumBlocksPerReq))
  else .error (.indexError "index is out of bounds for axis 0")

/-- The slot of one token, at a position of the request in a row of the batch. -/
def slot (t : BlockTable) (rank : t.groups.Rank) (reqIndex position : Nat) :
    Except PyError Int := do
  let totalCpWorldSize := t.groups.totalCpWorldSize
  let totalCpRank := t.groups.totalCpRank rank
  let interleave := t.cpKvCacheInterleaveSize
  if 1 < totalCpWorldSize then
    let virtualBlockSize := t.blockSize * totalCpWorldSize
    let blockNumber ← t.ravel (reqIndex * t.maxNumBlocksPerReq + position / virtualBlockSize)
    let virtualBlockOffset := position % virtualBlockSize
    let mask := virtualBlockOffset / interleave % totalCpWorldSize = totalCpRank
    let blockOffset := virtualBlockOffset / (totalCpWorldSize * interleave) * interleave
      + virtualBlockOffset % interleave
    let slotMapping := blockNumber * t.blockSize + blockOffset
    return if mask then (slotMapping : Int) else -1
  else
    let blockNumber ← t.ravel (reqIndex * t.maxNumBlocksPerReq + position / t.blockSize)
    let blockOffset := position % t.blockSize
    return ((blockNumber * t.blockSize + blockOffset : Nat) : Int)

/-- `compute_slot_mapping`, with the elements of `req_indices` and `positions` in pairs. -/
def computeSlotMapping (t : BlockTable) (rank : t.groups.Rank) (tokens : List (Nat × Nat)) :
    Except PyError BlockTable := do
  let slots ← tokens.mapM fun token => t.slot rank token.1 token.2
  if t.maxNumBatchedTokens < tokens.length then
    .error (.valueError "could not broadcast input array")
  else return { t with slotMapping := fun k => (slots[k]?).getD (t.slotMapping k) }

end BlockTable

/-- The entry of `get_dcp_local_seq_lens` for one sequence and one rank. -/
def dcpLocalSeqLen (seqLen dcpSize rank cpKvCacheInterleaveSize : Nat) : Int :=
  let base : Int := seqLen / cpKvCacheInterleaveSize / dcpSize * cpKvCacheInterleaveSize
  let remainder : Int := seqLen - base * dcpSize
  let remainder := min (max (remainder - rank * cpKvCacheInterleaveSize) 0)
    cpKvCacheInterleaveSize
  base + remainder

/-- `get_dcp_local_seq_lens`: one row for each sequence, with one entry for each rank when
`dcp_rank` is not given. -/
def getDcpLocalSeqLens (seqLens : List Nat) (dcpSize : Nat) (dcpRank : Option Nat)
    (cpKvCacheInterleaveSize : Nat) : List (List Int) :=
  let rankOffsets := match dcpRank with
    | none => List.range dcpSize
    | some rank => [rank]
  seqLens.map fun seqLen =>
    rankOffsets.map fun rank => dcpLocalSeqLen seqLen dcpSize rank cpKvCacheInterleaveSize

end Vllm.V1.Worker
