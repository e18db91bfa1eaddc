import Vllm.V1.Core.KVCacheManager

/-!
# `Vllm.V1.Core.Sched.Output`: what the scheduler sends and receives

`SchedulerOutput` goes from the scheduler to the workers (`vllm/v1/core/sched/output.py`),
`ModelRunnerOutput` comes back (`vllm/v1/outputs.py`), and `EngineCoreOutput` goes to the
front-ends. The metadata of the connectors, log probabilities and statistics are left out.
-/

set_option autoImplicit false

namespace Vllm.V1.Core

open Vllm.Lib Vllm.V1

/-- `NewRequestData`. -/
structure NewRequestData where
  reqId : String
  promptTokenIds : Option (List Int)
  mmFeatures : List MultiModalFeatureSpec
  samplingParams : Option SamplingParams
  poolingParams : Option PoolingParams
  blockIds : List (List Int)
  numComputedTokens : Int
  loraRequest : Option LoRARequest
  prefillTokenIds : Option (List Int) := none
deriving DecidableEq

/-- `NewRequestData.from_request`. -/
def NewRequestData.fromRequest (request : Request) (blockIds : List (List Int))
    (prefillTokenIds : Option (List Int)) : NewRequestData :=
  { reqId := request.requestId
    promptTokenIds := request.promptTokenIds
    mmFeatures := request.mmFeatures
    samplingParams := request.samplingParams
    poolingParams := request.poolingParams
    blockIds := blockIds
    numComputedTokens := request.numComputedTokens
    loraRequest := request.loraRequest
    prefillTokenIds := prefillTokenIds }

/-- `CachedRequestData`. -/
structure CachedRequestData where
  reqIds : List String := []
  resumedReqIds : List String := []
  newTokenIds : List (List Int) := []
  allTokenIds : PyDict String (List Int) := PyDict.empty
  newBlockIds : List (Option (List (List Int))) := []
  numComputedTokens : List Int := []
  numOutputTokens : List Int := []
deriving DecidableEq

/-- `SchedulerOutput`. -/
structure SchedulerOutput where
  scheduledNewReqs : List NewRequestData
  scheduledCachedReqs : CachedRequestData
  numScheduledTokens : PyDict String Int
  totalNumScheduledTokens : Int
  scheduledSpecDecodeTokens : PyDict String (List Int)
  scheduledEncoderInputs : PyDict String (List Nat)
  numCommonPrefixBlocks : List Nat
  finishedReqIds : List String
  freeEncoderMmHashes : List String
  preemptedReqIds : List String
  pendingStructuredOutputTokens : Bool := false
deriving DecidableEq

/-- `KVConnectorOutput`. -/
structure KVConnectorOutput where
  finishedSending : List String := []
  finishedRecving : List String := []
  invalidBlockIds : List Int := []
deriving DecidableEq

/-- `ModelRunnerOutput`, with the sampled tokens and the pooler output of a request under its
id in place of its index. -/
structure ModelRunnerOutput where
  reqIds : List String
  sampledTokenIds : String → List Int
  hasPoolerOutput : String → Bool := fun _ => false
  kvConnectorOutput : Option KVConnectorOutput := none

/-- `EngineCoreOutput`. -/
structure EngineCoreOutput where
  requestId : String
  newTokenIds : List Int
  finishReason : Option FinishReason
  stopReason : Option Int
  numCachedTokens : Int
  hasKvTransferParams : Bool := false
deriving DecidableEq

/-- `EngineCoreOutputs`, for one client. -/
structure EngineCoreOutputs where
  outputs : List EngineCoreOutput := []
  finishedRequests : Option (List String) := none
deriving DecidableEq

end Vllm.V1.Core
