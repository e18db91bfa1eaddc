import Vllm.V1.Core.Sched.Update

/-!
# `Vllm.V1.Engine.Core`: the engine core around the scheduler (`vllm/v1/engine/core.py`)

`EngineCore` calls the scheduler in an order that depends on the clients and on the workers:
requests arrive and are aborted at any time, batches are scheduled ahead of their results, and
the results come back in the order of the batches.

* `EngineCore`: the scheduler and the queue of batches without a result.
* `EngineOp`: what can happen next, with the answers of the connectors and the workers.
* `EngineCore.step`: what it does. `step` and `step_with_batch_queue` of the source are runs
  of these operations: the first applies the result of every batch at once, the second lets
  the queue grow up to its size.
-/

set_option autoImplicit false

namespace Vllm.V1.Engine

open Vllm.Lib Vllm.V1 Vllm.V1.Core

/-- A call of `schedule`: its output and, as history, the scheduler before and after. -/
structure ScheduledBatch where
  output : SchedulerOutput
  before : Scheduler
  after : Scheduler

/-- What `EngineCore.__init__` gets. -/
structure EngineConfig where
  scheduler : SchedulerConfig
  numGpuBlocks : Nat
  kvCacheGroups : List KVCacheSpec
  enablePrefixCaching : Bool := false
  enableKvCacheEvents : Bool := false
  useIntBlockHashes : Bool := false
  dcpWorldSize : ℕ+ := 1
  pcpWorldSize : ℕ+ := 1
  /-- The space that `compute_encoder_budget` returns. -/
  encoderCacheSize : Nat := 0
  includeFinishedSet : Bool := false

/-- `EngineCore`, as far as it drives the scheduler. -/
structure EngineCore where
  scheduler : Scheduler
  /-- `batch_queue`: the batches without a result, the oldest first. -/
  batchQueue : List ScheduledBatch := []
  /-- History: all batches, the oldest first. No function reads it. -/
  emitted : List ScheduledBatch := []

/-- What can happen next. -/
inductive EngineOp where
  /-- `add_request`, of a request that `preprocess_add_request` makes of these arguments. -/
  | addRequest (args : Request.InitArgs)
  /-- The grammar of a request is compiled. -/
  | grammarReady (r : ReqRef)
  /-- `schedule`, and the batch enters the queue. -/
  | schedule (connector : Option KVConnector) (ec : Option ECConnector)
  /-- `update_from_output`, with the result of the oldest batch. -/
  | updateFromOutput (connector : Option KVConnector) (modelRunnerOutput : ModelRunnerOutput)
  /-- `finish_requests`, as `abort_requests` calls it. -/
  | finishRequests (connector : Option KVConnector) (requestIds : List String)
      (finishedStatus : RequestStatus)
  /-- `update_draft_token_ids`, as `post_step` calls it. -/
  | updateDraftTokenIds (validate : Request → List Int → List Int)
      (draftTokenIds : List (String × List Int))
  /-- `reset_prefix_cache`. -/
  | resetPrefixCache (resetRunningRequests : Bool)

namespace EngineCore

/-- The engine after `__init__`, which creates the KV cache manager and the scheduler. -/
def start (config : EngineConfig) : Except PyError EngineCore := do
  let kvCacheManager ← KVCacheManager.init config.numGpuBlocks config.kvCacheGroups
    config.scheduler.maxModelLen config.scheduler.blockSize config.enablePrefixCaching
    config.scheduler.useEagle config.enableKvCacheEvents config.useIntBlockHashes
    config.dcpWorldSize config.pcpWorldSize
  return { scheduler := Scheduler.init config.scheduler kvCacheManager config.encoderCacheSize
             config.includeFinishedSet }

/-- One operation. -/
def step (e : EngineCore) : EngineOp → Except PyError EngineCore
  | .addRequest args => do
      let request ← Request.init args e.scheduler.config.blockHasher
      return { e with scheduler := e.scheduler.addRequest request }
  | .grammarReady r =>
    .ok { e with scheduler := e.scheduler.modify r fun request => { request with
      structuredOutputRequest := request.structuredOutputRequest.map fun so =>
        { so with grammarReady := true } } }
  | .schedule connector ec => do
      let (output, scheduler) ← e.scheduler.schedule connector ec
      let batch : ScheduledBatch := { output, before := e.scheduler, after := scheduler }
      return { scheduler
               batchQueue := e.batchQueue ++ [batch]
               emitted := e.emitted ++ [batch] }
  | .updateFromOutput connector modelRunnerOutput =>
    match e.batchQueue with
    | [] => .error (.indexError "pop from an empty deque")
    | batch :: batchQueue => do
        let (_, scheduler) ← e.scheduler.updateFromOutput connector batch.output
          modelRunnerOutput
        return { e with scheduler, batchQueue }
  | .finishRequests connector requestIds finishedStatus => do
      let scheduler ← e.scheduler.finishRequests connector requestIds finishedStatus
      return { e with scheduler }
  | .updateDraftTokenIds validate draftTokenIds =>
    .ok { e with scheduler := e.scheduler.updateDraftTokenIds validate draftTokenIds }
  | .resetPrefixCache resetRunningRequests => do
      let (_, scheduler) ← e.scheduler.resetPrefixCache resetRunningRequests
      return { e with scheduler }

end EngineCore

end Vllm.V1.Engine
