import Vllm.Lib.PySlice
import Vllm.V1.Core.KVCacheUtils

/-!
# `Vllm.V1.Core.BlockHashList`: items and slices of coarser block hashes

(`vllm/v1/core/kv_cache_utils.py`)
-/

set_option autoImplicit false

namespace Vllm.V1.Core

open Vllm.Lib Vllm.V1

/-- `BlockHashListWithBlockSize`. -/
structure BlockHashListWithBlockSize where
  blockHashes : List BlockHash
  scaleFactor : Nat
deriving DecidableEq

namespace BlockHashListWithBlockSize

/-- `__init__`. -/
def init (blockHashes : List BlockHash) (hashBlockSize targetBlockSize : Nat) :
    Except PyError BlockHashListWithBlockSize := do
  pyAssert (targetBlockSize % hashBlockSize = 0) "target_block_size % hash_block_size == 0"
  return { blockHashes, scaleFactor := targetBlockSize / hashBlockSize }

variable (l : BlockHashListWithBlockSize)

/-- `__len__`. -/
def len : Nat := l.blockHashes.length / l.scaleFactor

/-- `__getitem__` of an integer, which is `_get_value_at`. -/
def getItem (idx : Int) : Except PyError BlockHash := do
  let base := idx * l.scaleFactor
  let hashes ← ((List.range l.scaleFactor).map fun i : Nat => base + i).mapM (pyItem l.blockHashes)
  return hashes.flatten

/-- `__getitem__` of a slice. -/
def getSlice (s : PySlice) : Except PyError (List BlockHash) := do
  let indices ← s.indices l.len
  indices.mapM fun i : Nat => l.getItem i

/-- `list(self)`, by `__iter__`. -/
def iter : Except PyError (List BlockHash) := (List.range l.len).mapM fun i : Nat => l.getItem i

end BlockHashListWithBlockSize

end Vllm.V1.Core
