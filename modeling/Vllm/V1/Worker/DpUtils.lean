import Vllm.V1.CudagraphDispatcher

/-!
# `Vllm.V1.Worker.DpUtils`: the batches of data-parallel ranks
(`vllm/v1/worker/dp_utils.py`, `vllm/v1/worker/ubatch_utils.py`, `vllm/v1/worker/gpu_model_runner.py`)

Each rank chooses a CUDA graph for its own batch (`chooseGraph`). Then the ranks exchange one column
each (`_run_ar`), agree on their numbers of tokens and on micro-batching, and choose again for the
agreed number (`agree`). `runRanks` runs this on all ranks. Its all-reduce gives every rank the
columns of all, in the order of the ranks.

A rank that raises before the exchange leaves the others waiting, so `runRanks` then has no result.
The statistics that are returned last are left out.
-/

set_option autoImplicit false

namespace Vllm.V1.Worker

open Vllm.Lib Vllm.V1

/-- What a rank reads of the configuration, the same on every rank. -/
structure DpConfig where
  dispatcher : CudagraphDispatcher
  dataParallelSize : Nat
  enableDbo : Bool := false
  dboDecodeTokenThreshold : Nat := 32
  dboPrefillTokenThreshold : Nat := 512
  isEncoderDecoder : Bool := false

namespace DpConfig

/-- `vllm_config`. -/
def vllmConfig (cfg : DpConfig) : VllmConfig := cfg.dispatcher.cfg

/-- `compilation_config.cudagraph_mode`. -/
def cudagraphMode (cfg : DpConfig) : CUDAGraphMode :=
  cfg.vllmConfig.compilationConfig.cudagraphMode

/-- `_pad_for_sequence_parallelism`. -/
def padForSequenceParallelism (cfg : DpConfig) (numScheduledTokens : Nat) : Nat :=
  if cfg.vllmConfig.compilationConfig.enableSp = true ∧ 1 < cfg.vllmConfig.tensorParallelSize then
    roundUp numScheduledTokens cfg.vllmConfig.tensorParallelSize
  else numScheduledTokens

end DpConfig

/-- The arguments of `_determine_batch_execution_and_padding`, but for `force_eager`. `numLoras` is
the length of `lora_id_to_lora_request`. -/
structure Batch where
  numTokens : Nat
  numReqs : Nat
  maxNumScheduledTokens : Nat
  useCascadeAttn : Bool := false
  allowMicrobatching : Bool := true
  forceUniformDecode : Option Bool := none
  forceHasLora : Option Bool := none
  numEncoderReqs : Nat := 0
  numLoras : Nat := 0

namespace Batch
variable (cfg : DpConfig) (batch : Batch)

/-- The tokens of the batch, padded for sequence parallelism. -/
def spTokens : Nat := cfg.padForSequenceParallelism batch.numTokens

/-- `uniform_decode`. -/
def uniformDecode : Bool :=
  match batch.forceUniformDecode with
  | some uniformDecode => uniformDecode
  | none => batch.maxNumScheduledTokens = cfg.vllmConfig.uniformDecodeQueryLen &&
      batch.spTokens cfg = batch.maxNumScheduledTokens * batch.numReqs

/-- `has_lora`. -/
def hasLora : Bool :=
  match batch.forceHasLora with
  | some hasLora => hasLora
  | none => 0 < batch.numLoras

/-- `has_encoder_output`. -/
def hasEncoderOutput : Bool := cfg.isEncoderDecoder && 0 < batch.numEncoderReqs

/-- `dispatch_cudagraph`. -/
def dispatchCudagraph (forceEager : Bool) (numTokens : Nat) (disableFull : Bool) :
    Except PyError (CUDAGraphMode × BatchDescriptor) :=
  if forceEager then .ok (.none, { numTokens })
  else cfg.dispatcher.dispatch numTokens (batch.uniformDecode cfg) batch.hasLora disableFull

end Batch

/-! ### The exchange -/

/-- `check_ubatch_thresholds`. -/
def checkUbatchThresholds (cfg : DpConfig) (numTokens : Nat) (uniformDecode : Bool) : Bool :=
  if cfg.enableDbo = false then false
  else if uniformDecode then cfg.dboDecodeTokenThreshold ≤ numTokens
  else cfg.dboPrefillTokenThreshold ≤ numTokens

/-- `is_second_ubatch_empty`. -/
def isSecondUbatchEmpty (origNumTokens paddedNumTokens : Nat) : Bool :=
  origNumTokens ≤ paddedNumTokens / 2

/-- The column of a rank in the tensor of `_run_ar`. -/
structure Column where
  origNumTokens : Nat
  paddedNumTokens : Nat
  shouldUbatch : Bool
  shouldDpPad : Bool
  cudagraphMode : Nat
deriving DecidableEq

/-- `_post_process_ubatch`. -/
def postProcessUbatch (tensor : List Column) : Bool :=
  if tensor.all (·.shouldUbatch) = false then false
  else !isSecondUbatchEmpty ((tensor.map (·.origNumTokens)).min?.getD 0)
    ((tensor.map (·.paddedNumTokens)).max?.getD 0)

/-- `_post_process_dp_padding`. -/
def postProcessDpPadding (tensor : List Column) (shouldDpPad : Bool) : List Nat :=
  let numTokensAcrossDp := tensor.map (·.paddedNumTokens)
  if shouldDpPad then
    List.replicate numTokensAcrossDp.length (numTokensAcrossDp.max?.getD 0)
  else numTokensAcrossDp

/-- `_post_process_cudagraph_mode`. -/
def postProcessCudagraphMode (tensor : List Column) : Nat :=
  (tensor.map (·.cudagraphMode)).min?.getD 0

/-- What a rank puts into the exchange: `coordinate_batch_across_dp` up to `_run_ar`. -/
def Batch.column (cfg : DpConfig) (batch : Batch) (numTokensPadded : Nat)
    (cudagraphMode : CUDAGraphMode) : Except PyError Column := do
  let shouldUbatch := batch.allowMicrobatching &&
    checkUbatchThresholds cfg batch.numTokens (batch.uniformDecode cfg)
  pyAssert (batch.numTokens ≤ numTokensPadded) "num_tokens_padded >= num_tokens_unpadded"
  return {
    origNumTokens := batch.numTokens
    paddedNumTokens := numTokensPadded
    shouldUbatch
    shouldDpPad := decide (cfg.cudagraphMode ≠ .none)
    cudagraphMode := cudagraphMode.value }

/-- The rest of `_synchronize_dp_ranks`, after `_run_ar`. -/
def synchronizeDpRanks (cfg : DpConfig) (tensor : List Column) :
    Except PyError (Bool × List Nat × Nat) := do
  let shouldDpPad := tensor.all (·.shouldDpPad)
  pyAssert (decide (cfg.cudagraphMode ≠ .none) = shouldDpPad)
    "should_attempt_dp_padding == should_dp_pad"
  let shouldUbatch := postProcessUbatch tensor
  return (shouldUbatch, postProcessDpPadding tensor (shouldDpPad || shouldUbatch),
    postProcessCudagraphMode tensor)

/-! ### A rank -/

/-- The result of `_determine_batch_execution_and_padding`. -/
structure Execution where
  cudagraphMode : CUDAGraphMode
  batchDescriptor : BatchDescriptor
  shouldUbatch : Bool := false
  numTokensAcrossDp : Option (List Nat) := none
deriving DecidableEq

/-- The first choice of a rank. -/
def Batch.chooseGraph (cfg : DpConfig) (forceEager : Bool) (batch : Batch) :
    Except PyError (CUDAGraphMode × BatchDescriptor) :=
  batch.dispatchCudagraph cfg forceEager (batch.spTokens cfg)
    (batch.useCascadeAttn || batch.hasEncoderOutput cfg)

/-- What follows the exchange on the rank `dpRank`. -/
def Batch.agree (cfg : DpConfig) (forceEager : Bool) (tensor : List Column) (batch : Batch)
    (dpRank : Nat) : Except PyError Execution := do
  let (shouldUbatch, numTokensAcrossDp, syncedCudagraphMode) ← synchronizeDpRanks cfg tensor
  match numTokensAcrossDp[dpRank]? with
  | none => .error (.indexError "index out of range")
  | some numTokensPadded => do
      let (cudagraphMode, batchDescriptor) ← batch.dispatchCudagraph cfg forceEager numTokensPadded
        (syncedCudagraphMode ≤ CUDAGraphMode.piecewise.value)
      pyAssert (batchDescriptor.numTokens = numTokensPadded)
        "batch_descriptor.num_tokens == num_tokens_padded"
      return {
        cudagraphMode
        batchDescriptor
        shouldUbatch
        numTokensAcrossDp := some numTokensAcrossDp }

/-- `_determine_batch_execution_and_padding` on every rank. -/
def runRanks (cfg : DpConfig) (forceEager : Bool) (batches : List Batch) :
    Except PyError (List Execution) := do
  let chosen ← batches.mapM fun batch => batch.chooseGraph cfg forceEager
  if 1 < cfg.dataParallelSize then do
    let tensor ← (batches.zip chosen).mapM fun e => e.1.column cfg e.2.2.numTokens e.2.1
    batches.zipIdx.mapM fun e => e.1.agree cfg forceEager tensor e.2
  else return chosen.map fun e => {
    cudagraphMode := e.1
    batchDescriptor := e.2 }

/-- The assertion of `DPMetadata.make`, for the batch that a rank runs. -/
def dpMetadataMake (numTokens : Nat) (numTokensAcrossDp : List Nat) (dpRank : Nat) :
    Except PyError Unit :=
  pyAssert (numTokensAcrossDp[dpRank]? = some numTokens) "num_tokens_across_dp_cpu[dp_rank]"

end Vllm.V1.Worker
