import Mathlib.Data.PNat.Basic
import Vllm.V1.Core.KVCacheUtils

/-!
# `Vllm.V1.KVCacheInterface`: the memory of a request (`vllm/v1/kv_cache_interface.py`,
`vllm/v1/core/kv_cache_utils.py`)

How much memory the KV cache of a layer needs for a request of `max_model_len` tokens, and the
search for the greatest length that fits. The search writes the length that it tries to the
configuration.
-/

set_option autoImplicit false

namespace Vllm.V1.KVCacheInterface

open Vllm.Lib
open Vllm.V1.Core (cdiv)

/-- The fields of `VllmConfig` that are read. -/
structure VllmConfig where
  maxModelLen : Int
  maxNumBatchedTokens : Int
  maxNumEncoderInputTokens : Int
  decodeContextParallelSize : ℕ+
  prefillContextParallelSize : ℕ+
deriving DecidableEq

/-- The fields of `AttentionSpec`. Of the type, the size of an element. -/
structure AttentionSpec where
  blockSize : ℕ+
  numKvHeads : Nat
  headSize : Nat
  dtypeSize : Nat

/-- `AttentionSpec.page_size_bytes`. -/
def AttentionSpec.pageSizeBytes (spec : AttentionSpec) : Nat :=
  2 * spec.blockSize * spec.numKvHeads * spec.headSize * spec.dtypeSize

/-- The fields of `MambaSpec`. Of the shapes and types, the number of elements and their size. -/
structure MambaSpec where
  blockSize : ℕ+
  states : List (Nat × Nat)
  pageSizePadded : Option Nat

/-- `MambaSpec.page_size_bytes`. -/
def MambaSpec.pageSizeBytes (spec : MambaSpec) : Except PyError Nat := do
  let pageSize := (spec.states.map fun s => s.1 * s.2).sum
  match spec.pageSizePadded with
  | none => return pageSize
  | some padded =>
    pyAssert (pageSize ≤ padded) ""
    return padded

/-- The subclasses of `KVCacheSpec` of single layers. -/
inductive KVCacheSpec where
  | fullAttention (spec : AttentionSpec)
  | mlaAttention (spec : AttentionSpec) (fp8DsMla : Bool)
  | chunkedLocalAttention (spec : AttentionSpec) (attentionChunkSize : Int)
  | slidingWindow (spec : AttentionSpec) (window : Int)
  | mamba (spec : MambaSpec)
  | encoderOnlyAttention (spec : AttentionSpec)
  | crossAttention (spec : AttentionSpec)

/-- `MLAAttentionSpec.page_size_bytes`. -/
def mlaPageSizeBytes (spec : AttentionSpec) (fp8DsMla : Bool) : Nat :=
  if fp8DsMla then spec.blockSize * 656
  else spec.blockSize * spec.numKvHeads * spec.headSize * spec.dtypeSize

/-- The tokens of a request that a rank keeps, in `FullAttentionSpec.max_memory_usage_bytes`. -/
def localTokens (config : VllmConfig) : Int :=
  if 1 < config.decodeContextParallelSize * config.prefillContextParallelSize then
    cdiv config.maxModelLen
      (config.decodeContextParallelSize * config.prefillContextParallelSize : ℕ+).val
  else config.maxModelLen

/-- `max_memory_usage_bytes` of a layer. -/
def KVCacheSpec.maxMemoryUsageBytes (config : VllmConfig) : KVCacheSpec → Except PyError Int
  | fullAttention spec => return cdiv (localTokens config) (spec.blockSize : Nat) * spec.pageSizeBytes
  | mlaAttention spec fp8DsMla =>
    return cdiv (localTokens config) (spec.blockSize : Nat) * mlaPageSizeBytes spec fp8DsMla
  | chunkedLocalAttention spec attentionChunkSize =>
    let numTokens := min (attentionChunkSize + config.maxNumBatchedTokens) config.maxModelLen
    return cdiv numTokens (spec.blockSize : Nat) * spec.pageSizeBytes
  | slidingWindow spec window => do
      pyAssert (config.decodeContextParallelSize = 1) "DCP not support sliding window."
      let numTokens := min (window - 1 + config.maxNumBatchedTokens) config.maxModelLen
      return (cdiv numTokens (spec.blockSize : Nat) + 1) * spec.pageSizeBytes
  | mamba spec => do
      let pageSizeBytes ← spec.pageSizeBytes
      return cdiv config.maxModelLen (spec.blockSize : Nat) * pageSizeBytes
  | encoderOnlyAttention _ => return 0
  | crossAttention spec =>
    return cdiv config.maxNumEncoderInputTokens (spec.blockSize : Nat) * spec.pageSizeBytes

/-- `max_memory_usage_bytes`. -/
def maxMemoryUsageBytes (config : VllmConfig) (kvCacheSpecs : List KVCacheSpec) :
    Except PyError Int := do
  let sizes ← kvCacheSpecs.mapM (KVCacheSpec.maxMemoryUsageBytes config)
  return sizes.sum

/-- `fits_in_memory`. -/
def fitsInMemory (kvCacheSpecs : List KVCacheSpec) (availableMemory : Int) (config : VllmConfig)
    (modelLen : Int) : Except PyError (Bool × VllmConfig) := do
  let config := { config with maxModelLen := modelLen }
  let memoryNeeded ← maxMemoryUsageBytes config kvCacheSpecs
  return (memoryNeeded ≤ availableMemory, config)

/-- The loop of `estimate_max_model_len`. -/
def searchLoop (kvCacheSpecs : List KVCacheSpec) (availableMemory : Int) (left right result : Int)
    (config : VllmConfig) : Except PyError (Int × VllmConfig) :=
  if left ≤ right then do
    let mid := (left + right) / 2
    let (fits, config) ← fitsInMemory kvCacheSpecs availableMemory config mid
    if fits then searchLoop kvCacheSpecs availableMemory (mid + 1) right mid config
    else searchLoop kvCacheSpecs availableMemory left (mid - 1) result config
  else return (result, config)
termination_by (right + 1 - left).toNat

/-- `estimate_max_model_len`, with the configuration that it leaves. -/
def estimateMaxModelLen (config : VllmConfig) (kvCacheSpecs : List KVCacheSpec)
    (availableMemory : Int) : Except PyError (Int × VllmConfig) := do
  let currentMax := config.maxModelLen
  let (fits, config) ← fitsInMemory kvCacheSpecs availableMemory config 1
  if !fits then return (0, config)
  searchLoop kvCacheSpecs availableMemory 1 currentMax 1 config

end Vllm.V1.KVCacheInterface
