import Vllm.V1.Request
import Mathlib.Logic.Function.Basic

/-!
# `Vllm.V1.Core.KVCacheUtils`: blocks and the free queue (`vllm/v1/core/kv_cache_utils.py`)

`KVCacheBlock` objects are mutable and are shared by the pool, the free queue and the block
tables, so they live in a heap. A `BlockRef` is the address of one of them: a block of the
pool, named by its `block_id`, or one of the two fake ends of the free list.

`FreeKVCacheBlockQueue` is the intrusive doubly linked list of the source: its five mutators
write the `prev_free_block` and `next_free_block` attributes of the blocks, one at a time
and in the order of the source.
-/

set_option autoImplicit false

namespace Vllm.V1.Core

open Vllm.Lib Vllm.V1

/-- `BlockHashWithGroupId`: the bytes of a block hash followed by four bytes of group id. -/
abbrev BlockHashWithGroupId := Bytes

/-- `cdiv`: division rounded up, `-(a // -b)`. -/
def cdiv (a b : Int) : Int := -(Int.fdiv a (-b))

/-- `group_id.to_bytes(4, "big", signed=False)`. The source raises for an id of `2 ** 32` or
more, so the group id is a 32-bit value here. -/
def groupIdBytes (groupId : UInt32) : Bytes :=
  [UInt8.ofNat (groupId.toNat / 2 ^ 24), UInt8.ofNat (groupId.toNat / 2 ^ 16),
    UInt8.ofNat (groupId.toNat / 2 ^ 8), UInt8.ofNat groupId.toNat]

/-- `make_block_hash_with_group_id`. -/
def makeBlockHashWithGroupId (blockHash : BlockHash) (groupId : UInt32) :
    BlockHashWithGroupId :=
  blockHash ++ groupIdBytes groupId

/-- `get_block_hash`: everything but the last four bytes. -/
def getBlockHash (key : BlockHashWithGroupId) : BlockHash :=
  key.take (key.length - 4)

/-- `ExternalBlockHash`: `bytes | int`. -/
inductive ExternalBlockHash where
  | bytes (b : Bytes)
  | int (n : Nat)
deriving DecidableEq, Repr

/-- `int.from_bytes(b, byteorder="big")`. -/
def intFromBytesBE (b : Bytes) : Nat := b.foldl (fun acc x => acc * 256 + x.toNat) 0

/-- `maybe_convert_block_hash`; the argument stands for the environment variable
`VLLM_KV_EVENTS_USE_INT_BLOCK_HASHES`. -/
def maybeConvertBlockHash (useIntBlockHashes : Bool) (hashBytes : BlockHash) :
    ExternalBlockHash :=
  if useIntBlockHashes then .int (intFromBytesBE hashBytes % 2 ^ 64) else .bytes hashBytes

/-- The address of a `KVCacheBlock` object. -/
inductive BlockRef where
  /-- The block of the pool with this `block_id`. -/
  | block (blockId : Nat)
  /-- `fake_free_list_head`. -/
  | fakeHead
  /-- `fake_free_list_tail`. -/
  | fakeTail
deriving DecidableEq, Repr

/-- The attribute `block_id`: the two fake blocks carry `-1`. -/
def BlockRef.blockId : BlockRef → Int
  | .block i => i
  | .fakeHead => -1
  | .fakeTail => -1

/-- `KVCacheBlock`. The `block_id` is the address. `ref_cnt` is an `Int`: the source does
not maintain it for the null block, whose count can drop below zero. -/
structure KVCacheBlock where
  refCnt : Int := 0
  blockHash : Option BlockHashWithGroupId := none
  prevFreeBlock : Option BlockRef := none
  nextFreeBlock : Option BlockRef := none
  isNull : Bool := false
deriving DecidableEq, Repr

/-- The block objects, and the counter of `FreeKVCacheBlockQueue`. -/
structure FreeKVCacheBlockQueue where
  heap : BlockRef → KVCacheBlock
  numFreeBlocks : Int

namespace FreeKVCacheBlockQueue

/-- The attribute `next_free_block`. -/
def next (q : FreeKVCacheBlockQueue) (r : BlockRef) : Option BlockRef :=
  (q.heap r).nextFreeBlock

/-- The attribute `prev_free_block`. -/
def prev (q : FreeKVCacheBlockQueue) (r : BlockRef) : Option BlockRef :=
  (q.heap r).prevFreeBlock

/-- `r.next_free_block = v`. -/
def setNext (q : FreeKVCacheBlockQueue) (r : BlockRef) (v : Option BlockRef) :
    FreeKVCacheBlockQueue :=
  { q with heap := Function.update q.heap r { q.heap r with nextFreeBlock := v } }

/-- `r.prev_free_block = v`. -/
def setPrev (q : FreeKVCacheBlockQueue) (r : BlockRef) (v : Option BlockRef) :
    FreeKVCacheBlockQueue :=
  { q with heap := Function.update q.heap r { q.heap r with prevFreeBlock := v } }

/-- The links `__init__` gives to block `i` of `n` consecutive blocks: the loop over
`range(n)` writes the two links of one block in each round, and the first and the last
block are then connected to the fake ends. -/
def initBlock (n i : Nat) : KVCacheBlock where
  prevFreeBlock := if i = 0 then some .fakeHead else some (.block (i - 1))
  nextFreeBlock := if i < n - 1 then some (.block (i + 1)) else some .fakeTail

/-- `FreeKVCacheBlockQueue.__init__` on the blocks `0 .. n - 1`. -/
def init (n : Nat) : FreeKVCacheBlockQueue where
  heap
    | .block i => if i < n then initBlock n i else {}
    | .fakeHead =>
      { nextFreeBlock := if 0 < n then some (.block 0) else some .fakeTail }
    | .fakeTail =>
      { prevFreeBlock := if 0 < n then some (.block (n - 1)) else some .fakeHead }
  numFreeBlocks := n

/-- `popleft`. -/
def popleft (q : FreeKVCacheBlockQueue) : Except PyError (BlockRef × FreeKVCacheBlockQueue) :=
  match q.next .fakeHead with
  | none | some .fakeTail =>
    if q.numFreeBlocks ≠ 0 then
      .error (.assertionError "num_free_blocks is out of sync with the free list.")
    else .error (.valueError "No free blocks available")
  | some firstBlock =>
    match q.next firstBlock with
    | none => .error (.runtimeError
        "Invalid block found in popleft() which doesn't have a valid next_free_block")
    | some second =>
      -- Connect the fake head and the next block of the first one.
      let q := q.setNext .fakeHead (some second)
      let q := q.setPrev second (some .fakeHead)
      -- Remove the block from the linked list.
      let q := (q.setNext firstBlock none).setPrev firstBlock none
      .ok (firstBlock, { q with numFreeBlocks := q.numFreeBlocks - 1 })

/-- The loop of `popleft_n`: `n` rounds left, `curr` is `curr_block`, `ret` the blocks
popped so far. -/
def popleftNLoop : Nat → Option BlockRef → List BlockRef → FreeKVCacheBlockQueue →
    Except PyError (List BlockRef × Option BlockRef × FreeKVCacheBlockQueue)
  | 0, curr, ret, q => .ok (ret, curr, q)
  | _ + 1, none, _, _ => .error (.assertionError "curr_block is not None")
  | n + 1, some lastBlock, ret, q =>
    let curr := q.next lastBlock
    popleftNLoop n curr (ret ++ [lastBlock])
      ((q.setPrev lastBlock none).setNext lastBlock none)

/-- `popleft_n`. -/
def popleftN (n : Nat) (q : FreeKVCacheBlockQueue) :
    Except PyError (List BlockRef × FreeKVCacheBlockQueue) :=
  if n = 0 then .ok ([], q)
  else if q.numFreeBlocks < n then .error (.assertionError "self.num_free_blocks >= n")
  else do
    let q := { q with numFreeBlocks := q.numFreeBlocks - n }
    let (ret, curr, q) ← popleftNLoop n (q.next .fakeHead) [] q
    match curr with
    | none => return (ret, q)
    | some curr =>
      -- The queue is not empty, connect the fake head to the new first block.
      return (ret, (q.setNext .fakeHead (some curr)).setPrev curr (some .fakeHead))

/-- `remove`. -/
def remove (block : BlockRef) (q : FreeKVCacheBlockQueue) :
    Except PyError FreeKVCacheBlockQueue :=
  match q.prev block, q.next block with
  | some p, some n =>
    -- Link the previous block and the next block to each other.
    let q := (q.setNext p (some n)).setPrev n (some p)
    -- Remove the block from the linked list.
    let q := (q.setNext block none).setPrev block none
    .ok { q with numFreeBlocks := q.numFreeBlocks - 1 }
  | _, _ => .error (.runtimeError "remove() called on an invalid block")

/-- `append`. -/
def append (block : BlockRef) (q : FreeKVCacheBlockQueue) :
    Except PyError FreeKVCacheBlockQueue :=
  match q.prev .fakeTail with
  | none => .error (.runtimeError
      "prev_free_block of fake_free_list_tail should always exist")
  | some lastBlock =>
    -- Connect the new block after the last block.
    let q := (q.setNext lastBlock (some block)).setPrev block (some lastBlock)
    -- Connect the fake tail after the new block.
    let q := (q.setNext block (some .fakeTail)).setPrev .fakeTail (some block)
    .ok { q with numFreeBlocks := q.numFreeBlocks + 1 }

/-- The loop of `append_n`: connects each block after `lastBlock`. -/
def appendNLoop : List BlockRef → BlockRef → FreeKVCacheBlockQueue →
    BlockRef × FreeKVCacheBlockQueue
  | [], lastBlock, q => (lastBlock, q)
  | block :: blocks, lastBlock, q =>
    appendNLoop blocks block
      ((q.setPrev block (some lastBlock)).setNext lastBlock (some block))

/-- `append_n`. -/
def appendN (blocks : List BlockRef) (q : FreeKVCacheBlockQueue) :
    Except PyError FreeKVCacheBlockQueue :=
  if blocks.length = 0 then .ok q
  else
    match q.prev .fakeTail with
    | none => .error (.assertionError
        "prev_free_block of fake_free_list_tail should always exist")
    | some lastBlock =>
      let (lastBlock, q) := appendNLoop blocks lastBlock q
      -- Connect the last of the blocks to the fake tail.
      let q := (q.setNext lastBlock (some .fakeTail)).setPrev .fakeTail (some lastBlock)
      .ok { q with numFreeBlocks := q.numFreeBlocks + blocks.length }

/-- The loop of `get_all_free_blocks`: follows `next_free_block` while it is set. -/
def getAllFreeBlocksLoop (q : FreeKVCacheBlockQueue) : Nat → BlockRef → List BlockRef
  | 0, _ => []
  | fuel + 1, curr =>
    match q.next curr with
    | none => []
    | some n => curr :: getAllFreeBlocksLoop q fuel n

/-- `get_all_free_blocks`, for at most `fuel` blocks. -/
def getAllFreeBlocks (q : FreeKVCacheBlockQueue) (fuel : Nat) :
    Except PyError (List BlockRef) :=
  match q.next .fakeHead with
  | none => .error (.runtimeError
      "next_free_block of fake_free_list_head should always exist")
  | some curr => .ok (getAllFreeBlocksLoop q fuel curr)

end FreeKVCacheBlockQueue

/-- `BlockHashListWithBlockSize._get_value_at`: the concatenation of `scaleFactor`
consecutive hashes, from index `idx * scaleFactor`. The source raises when an index is out
of range. -/
def BlockHashListWithBlockSize.getValueAt (blockHashes : List BlockHash) (scaleFactor idx : Nat) :
    Except PyError BlockHash :=
  let base := idx * scaleFactor
  match (blockHashes.drop base).take scaleFactor with
  | [] => .error (.indexError "list index out of range")
  | hs => if hs.length < scaleFactor then .error (.indexError "list index out of range")
      else .ok hs.flatten

/-- The list `BlockHashListWithBlockSize(block_hashes, hash_block_size, target_block_size)`
stands for, as its `__len__`, `__getitem__` and `__iter__` present it. -/
def blockHashListWithBlockSize (blockHashes : List BlockHash)
    (hashBlockSize targetBlockSize : Nat) : Except PyError (List BlockHash) :=
  if targetBlockSize % hashBlockSize ≠ 0 then
    .error (.assertionError "target_block_size % hash_block_size == 0")
  else
    let scaleFactor := targetBlockSize / hashBlockSize
    (List.range (blockHashes.length / scaleFactor)).mapM
      (BlockHashListWithBlockSize.getValueAt blockHashes scaleFactor)

end Vllm.V1.Core
