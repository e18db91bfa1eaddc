import Mathlib.Data.Nat.Size
import Vllm.Lib.PyDict
import Vllm.Lib.PyError

/-!
# `Vllm.Distributed.TensorMemoryPool`: a buddy allocator
(`vllm/distributed/kv_transfer/kv_connector/v1/p2p/tensor_memory_pool.py`)

The pool hands out blocks of pinned host memory. The tensors that are copied there are left
out, and the address of the memory is an argument of the constructor. The loops that halve or
double a size have as much fuel as a size has bits.
-/

set_option autoImplicit false

namespace Vllm.Distributed

open Vllm.Lib

/-- `MemoryBlock`. -/
structure MemoryBlock where
  size : Nat
  addr : Int
deriving DecidableEq

/-- `free_lists`: for each size the free blocks, by their address. -/
abbrev FreeLists := PyDict Nat (PyDict Int MemoryBlock)

/-- `TensorMemoryPool`. -/
structure TensorMemoryPool where
  maxBlockSize : Nat
  minBlockSize : Nat
  baseAddress : Int
  freeLists : FreeLists
  allocatedBlocks : PyDict Int MemoryBlock := .empty

/-- `_round_to_power_of_two`. -/
def roundToPowerOfTwo (size : Nat) : Nat := 1 <<< (size - 1).size

namespace FreeLists

/-- `free_lists[size]`. -/
def list (freeLists : FreeLists) (size : Nat) : Except PyError (PyDict Int MemoryBlock) :=
  match freeLists.get? size with
  | some blocks => .ok blocks
  | none => .error (.keyError "size")

/-- `free_lists[size][block.addr] = block`. -/
def put (freeLists : FreeLists) (size : Nat) (block : MemoryBlock) : Except PyError FreeLists := do
  let blocks ← freeLists.list size
  return freeLists.insert size (blocks.insert block.addr block)

/-- `del free_lists[size][addr]`. -/
def del (freeLists : FreeLists) (size : Nat) (addr : Int) : Except PyError FreeLists := do
  let blocks ← freeLists.list size
  if blocks.contains addr then return freeLists.insert size (blocks.erase addr)
  else throw (.keyError "addr")

end FreeLists

/-- The loop of `_initialize_free_lists`. -/
def initializeFreeLists (minBlockSize : Nat) : Nat → Nat → FreeLists → FreeLists
  | 0, _, freeLists => freeLists
  | fuel + 1, size, freeLists =>
    if minBlockSize ≤ size then
      initializeFreeLists minBlockSize fuel (size / 2) (freeLists.insert size .empty)
    else freeLists

/-- `_split_block`: the block keeps its address, and its higher halves become free. -/
def splitBlock (minBlockSize requiredSize : Nat) : Nat → FreeLists → MemoryBlock →
    Except PyError (FreeLists × MemoryBlock)
  | 0, freeLists, block => .ok (freeLists, block)
  | fuel + 1, freeLists, block =>
    if requiredSize < block.size ∧ minBlockSize ≤ block.size / 2 then do
      let buddySize := block.size / 2
      let buddy : MemoryBlock := { size := buddySize, addr := block.addr + buddySize }
      let freeLists ← freeLists.put buddySize buddy
      splitBlock minBlockSize requiredSize fuel freeLists { block with size := buddySize }
    else .ok (freeLists, block)

/-- `MAX_MERGE_DEPTH`. -/
def MAX_MERGE_DEPTH : Nat := 30

/-- The loop of `_merge_buddies`, with the rounds that are left. -/
def mergeBuddies (baseAddress : Int) : Nat → FreeLists → MemoryBlock →
    Except PyError (FreeLists × MemoryBlock)
  | 0, freeLists, block => .ok (freeLists, block)
  | rounds + 1, freeLists, block => do
      let buddyOffset : Int :=
        if (block.addr - baseAddress) % (2 * block.size : Int) = 0 then block.size
        else -block.size
      match (← freeLists.list block.size).get? (block.addr + buddyOffset) with
      | some buddy =>
        let freeLists ← freeLists.del buddy.size buddy.addr
        mergeBuddies baseAddress rounds freeLists
          { size := block.size * 2, addr := min block.addr buddy.addr }
      | none => .ok (freeLists, block)

namespace TensorMemoryPool

/-- `TensorMemoryPool(max_block_size, min_block_size)`, with the address of its memory. -/
def new (maxBlockSize minBlockSize : Int) (baseAddress : Int) :
    Except PyError TensorMemoryPool := do
  if maxBlockSize ≤ 0 ∨ minBlockSize ≤ 0 then
    throw (.valueError "Block sizes must be positive")
  if maxBlockSize < minBlockSize then
    throw (.valueError "Max block size must be greater than min block size")
  let maxSize := roundToPowerOfTwo maxBlockSize.toNat
  let minSize := roundToPowerOfTwo minBlockSize.toNat
  let freeLists := initializeFreeLists minSize maxSize.size maxSize .empty
  let freeLists ← freeLists.put maxSize { size := maxSize, addr := baseAddress }
  return {
    maxBlockSize := maxSize
    minBlockSize := minSize
    baseAddress
    freeLists }

/-- The loop of `allocate`: the size of the first list with a free block. -/
def findSize (freeLists : FreeLists) (maxBlockSize : Nat) : Nat → Nat → Except PyError Nat
  | 0, _ => .error (.valueError "Insufficient memory")
  | fuel + 1, currentSize =>
    if currentSize ≤ maxBlockSize then do
      if (← freeLists.list currentSize).size ≠ 0 then return currentSize
      else findSize freeLists maxBlockSize fuel (currentSize * 2)
    else .error (.valueError "Insufficient memory")

/-- `allocate`. -/
def allocate (pool : TensorMemoryPool) (size : Int) : Except PyError (Int × TensorMemoryPool) := do
  if size ≤ 0 then throw (.valueError "Allocation size must be positive")
  let requiredSize := roundToPowerOfTwo (max size pool.minBlockSize).toNat
  if pool.maxBlockSize < requiredSize then
    throw (.valueError "Requested size exceeds maximum block size")
  let currentSize ← findSize pool.freeLists pool.maxBlockSize (pool.maxBlockSize.size + 1) requiredSize
  -- `popitem` removes the newest block of the list.
  match (← pool.freeLists.list currentSize).entries.getLast? with
  | none => throw (.keyError "popitem(): dictionary is empty")
  | some (addr, block) =>
    let freeLists ← pool.freeLists.del currentSize addr
    let (freeLists, block) ←
      splitBlock pool.minBlockSize requiredSize block.size.size freeLists block
    return (block.addr, { pool with
      freeLists
      allocatedBlocks := pool.allocatedBlocks.insert block.addr block })

/-- `free`. -/
def free (pool : TensorMemoryPool) (addr : Int) : Except PyError TensorMemoryPool := do
  match pool.allocatedBlocks.get? addr with
  | none => throw (.valueError "Invalid address to free")
  | some block =>
    let (freeLists, block) ←
      mergeBuddies pool.baseAddress MAX_MERGE_DEPTH pool.freeLists block
    return { pool with
      freeLists := ← freeLists.put block.size block
      allocatedBlocks := pool.allocatedBlocks.erase addr }

/-- The calls of the pool. -/
inductive Op where
  | allocate (size : Int)
  | free (addr : Int)
deriving DecidableEq

/-- The pool after a call. -/
def step (pool : TensorMemoryPool) : Op → Except PyError TensorMemoryPool
  | .allocate size => (pool.allocate size).map Prod.snd
  | .free addr => pool.free addr

end TensorMemoryPool

end Vllm.Distributed
