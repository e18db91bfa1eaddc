import Vllm.V1.Core.Sched.Scheduler

/-!
# `Vllm.V1.Core.Sched.Update`: requests in and out (`vllm/v1/core/sched/scheduler.py`)

The other entry points of the scheduler, with what `AsyncScheduler` adds to them
(`vllm/v1/core/sched/async_scheduler.py`) and the helpers of `vllm/v1/core/sched/utils.py`.

* `addRequest`, `finishRequests`: requests that arrive and requests that are aborted.
* `updateFromOutput`: the output of the model for one `SchedulerOutput`. `updateRequest` is
  one pass of its loop.
* `handleInvalidBlocks`: blocks that an external KV load failed to fill.
* `updateDraftTokenIds`, `resetPrefixCache`: draft tokens and the forced reset.

A grammar advances outside the scheduler, so `accept_tokens` and `validate_tokens` do not
appear.
-/

set_option autoImplicit false

namespace Vllm.V1.Core

open Vllm.Lib Vllm.V1

/-- `remove_all`. The items to remove are a set. -/
def removeAll (lst itemsToRemove : List ReqRef) : List ReqRef :=
  match itemsToRemove with
  | [] => lst
  | [item] => lst.erase item
  | _ => lst.filter fun item => item ∉ itemsToRemove

/-- `check_stop`. -/
def checkStop (request : Request) (maxModelLen : Nat) : Except PyError (Bool × Request) :=
  match request.poolingParams, request.samplingParams with
  | some _, _ => .error (.assertionError "not request.pooling_params")
  | none, none => .error (.assertionError "sampling_params is not None")
  | none, some samplingParams =>
    if request.numOutputTokens < samplingParams.minTokens then .ok (false, request)
    else
      match request.outputTokenIds.getLast? with
      | none => .error (.indexError "list index out of range")
      | some lastTokenId =>
        if samplingParams.ignoreEos = false ∧ request.eosTokenId = some lastTokenId then
          .ok (true, { request with status := .finishedStopped })
        else if lastTokenId ∈ samplingParams.stopTokenIds then
          .ok (true, { request with
            status := .finishedStopped
            stopReason := some lastTokenId })
        else if maxModelLen ≤ request.numTokens ∨
            request.maxTokens ≤ request.numOutputTokens then
          .ok (true, { request with status := .finishedLengthCapped })
        else .ok (false, request)

/-- The loop of `_update_request_with_output`: the tokens that were appended, whether the
request stopped, and the request. -/
def appendUntilStop (blockHasher : Option (Request → List BlockHash)) (maxModelLen : Nat) :
    Request → List Int → Except PyError (List Int × Bool × Request)
  | request, [] => .ok ([], false, request)
  | request, outputTokenId :: tokenIds => do
      let (stopped, request) ←
        checkStop (request.appendOutputTokenIds blockHasher [outputTokenId]) maxModelLen
      if stopped then return ([outputTokenId], true, request)
      else
        let (newTokenIds, stopped, request) ←
          appendUntilStop blockHasher maxModelLen request tokenIds
        return (outputTokenId :: newTokenIds, stopped, request)

namespace Scheduler

/-- `add_request`: the object gets a reference of its own. -/
def addRequest (s : Scheduler) (request : Request) : Scheduler :=
  let r := s.numObjects
  let s := { s with
    objects := Function.update s.objects r request
    numObjects := s.numObjects + 1 }
  { s with
    waiting := s.config.policy.addRequest s.lt s.waiting r
    requests := s.requests.insert request.requestId r }

/-! ### The end of a request -/

/-- `_connector_finished`: whether the connector frees the blocks later, and whether there are
`kv_transfer_params`. -/
def connectorFinished (s : Scheduler) (connector : Option KVConnector) (request : Request) :
    Except PyError (Bool × Bool) :=
  match connector with
  | none => .ok (false, false)
  | some connector =>
    let blockIds := (s.kvCacheManager.getBlocks request.requestId).getBlockIds
    if connector.supportsHma then .ok (connector.requestFinished request blockIds)
    else do
      pyAssert (s.config.numKvCacheGroups = 1)
        "len(self.kv_cache_config.kv_cache_groups) == 1"
      return connector.requestFinished request (blockIds.take 1)

/-- `_free_blocks`. -/
def freeBlocks (s : Scheduler) (r : ReqRef) : Except PyError Scheduler := do
  let request := s.objects r
  pyAssert request.isFinished "request.is_finished()"
  let kvCacheManager ← s.kvCacheManager.free request
  if s.requests.contains request.requestId then
    return { s with
      kvCacheManager
      requests := s.requests.erase request.requestId
      freeBlocksCalls := s.freeBlocksCalls ++ [r] }
  else .error (.keyError request.requestId)

/-- The two sets of finished ids. -/
def recordFinished (s : Scheduler) (request : Request) : Scheduler :=
  { s with
    finishedReqIds := s.finishedReqIds.insert request.requestId
    finishedReqIdsDict := s.finishedReqIdsDict.map fun dict =>
      dict.insert request.clientIndex
        (((dict.get? request.clientIndex).getD []).insert request.requestId) }

/-- `_free_request`, with whether there are `kv_transfer_params` first. -/
def freeRequest (s : Scheduler) (connector : Option KVConnector) (r : ReqRef) :
    Except PyError (Bool × Scheduler) := do
  let request := s.objects r
  pyAssert request.isFinished "request.is_finished()"
  let (delayFreeBlocks, hasParams) ← s.connectorFinished connector request
  let encoderCacheManager ← s.encoderCacheManager.free request
  let s := { s with encoderCacheManager, freeRequestCalls := s.freeRequestCalls ++ [r] }
  let s := s.recordFinished request
  let s ← (if delayFreeBlocks then .ok s else s.freeBlocks r)
  return (hasParams, s)

/-- The second pass of `finish_requests`. -/
def finishLoop (connector : Option KVConnector) (finishedStatus : RequestStatus) :
    Scheduler → List ReqRef → Except PyError Scheduler
  | s, [] => .ok s
  | s, r :: rest => do
      let s := s.modify r fun request => { request with status := finishedStatus }
      let (_, s) ← s.freeRequest connector r
      finishLoop connector finishedStatus s rest

/-- The requests that `finish_requests` finishes: those it knows that are not finished. -/
def validRequests (s : Scheduler) (requestIds : List String) : List ReqRef :=
  requestIds.dedup.filterMap fun reqId =>
    (s.requests.get? reqId).filter fun r => (s.objects r).isFinished = false

/-- `finish_requests`. -/
def finishRequests (s : Scheduler) (connector : Option KVConnector) (requestIds : List String)
    (finishedStatus : RequestStatus) : Except PyError Scheduler := do
  pyAssert finishedStatus.isFinished "RequestStatus.is_finished(finished_status)"
  let valid := s.validRequests requestIds
  let runningRequestsToRemove := valid.filter fun r => (s.objects r).status = .running
  let waitingRequestsToRemove := valid.filter fun r => (s.objects r).status ≠ .running
  let s := { s with
    running := removeAll s.running runningRequestsToRemove
    waiting := SchedulingPolicy.removeRequests s.waiting waitingRequestsToRemove }
  finishLoop connector finishedStatus s valid

/-! ### Blocks that failed to load -/

/-- The local variables of `_update_requests_with_invalid_blocks`. -/
structure InvalidPass where
  s : Scheduler
  affectedReqIds : List String := []
  totalAffectedTokens : Int := 0
  blocksToEvict : List Int := []
  markedInvalidBlockIds : List Int := []
  isAffected : Bool := false
  markedInvalidBlock : Bool := false

/-- The loop over the blocks of one request; `reqBlockIds` are the blocks from `idx` on. -/
def invalidBlockLoop (r : ReqRef) (invalidBlockIds : List Int) (evictBlocks : Bool)
    (reqNumComputedTokens : Int) : Nat → Nat → List Int → InvalidPass → InvalidPass
  | 0, _, _, p => p
  | _ + 1, _, [], p => p
  | n + 1, idx, blockId :: reqBlockIds, p =>
    let next := invalidBlockLoop r invalidBlockIds evictBlocks reqNumComputedTokens n
      (idx + 1) reqBlockIds
    if blockId ∉ invalidBlockIds then next p
    else if blockId ∈ p.markedInvalidBlockIds then
      -- The block is shared with a previous request, which recomputes it.
      next { p with isAffected := true }
    else
      let p := { p with
        isAffected := true
        markedInvalidBlockIds := p.markedInvalidBlockIds.insert blockId }
      if p.markedInvalidBlock then next p
      else
        -- Truncate the computed tokens at the first failed block.
        let numComputedTokens : Int := idx * p.s.config.blockSize
        let numAffectedTokens := reqNumComputedTokens - numComputedTokens
        next { p with
          markedInvalidBlock := true
          s := p.s.modify r fun request => { request with
            numComputedTokens
            numExternalComputedTokens :=
              request.numExternalComputedTokens - numAffectedTokens }
          totalAffectedTokens := p.totalAffectedTokens + numAffectedTokens
          blocksToEvict := if evictBlocks then
              p.blocksToEvict.union (blockId :: reqBlockIds)
            else p.blocksToEvict }

/-- One pass of the loop over the requests. -/
def invalidRequestStep (invalidBlockIds : List Int) (evictBlocks : Bool) (p : InvalidPass)
    (r : ReqRef) : Except PyError InvalidPass :=
  let request := p.s.objects r
  let reqId := request.requestId
  match (p.s.kvCacheManager.getBlocks reqId).getBlockIds with
  | [reqBlockIds] =>
    let blockSize : Int := p.s.config.blockSize
    let reqNumComputedTokens := if request.status = .waitingForRemoteKvs then
        if reqId ∈ p.s.failedRecvingKvReqIds then request.numComputedTokens
        else reqBlockIds.length * blockSize
      else request.numCachedTokens
    let reqNumComputedBlocks := (reqNumComputedTokens + blockSize - 1) / blockSize
    let p := invalidBlockLoop r invalidBlockIds evictBlocks reqNumComputedTokens
      reqNumComputedBlocks.toNat 0 reqBlockIds
      { p with isAffected := false, markedInvalidBlock := false }
    if p.isAffected = false then .ok p
    else
      let request := p.s.objects r
      -- All invalid blocks are shared with previous requests.
      let p := if p.markedInvalidBlock then p
        else { p with
          totalAffectedTokens := p.totalAffectedTokens
            + (request.numComputedTokens - request.numCachedTokens)
          s := p.s.modify r fun request =>
            { request with numComputedTokens := request.numCachedTokens } }
      .ok { p with affectedReqIds := p.affectedReqIds.insert reqId }
  | _ => .error (.valueError "too many values to unpack")

/-- `_update_requests_with_invalid_blocks`. -/
def updateRequestsWithInvalidBlocks (s : Scheduler) (requests : List ReqRef)
    (invalidBlockIds : List Int) (evictBlocks : Bool) : Except PyError InvalidPass :=
  requests.foldlM (invalidRequestStep invalidBlockIds evictBlocks) { s := s }

/-- `_handle_invalid_blocks`, with the affected ids first. -/
def handleInvalidBlocks (s : Scheduler) (invalidBlockIds : List Int) :
    Except PyError (List String × Scheduler) := do
  let asyncLoadReqs := s.waiting.filter fun r =>
    (s.objects r).status = .waitingForRemoteKvs
  let asyncPass ← s.updateRequestsWithInvalidBlocks asyncLoadReqs invalidBlockIds false
  let syncPass ← asyncPass.s.updateRequestsWithInvalidBlocks asyncPass.s.running
    invalidBlockIds true
  let s := syncPass.s
  if asyncPass.affectedReqIds.length + syncPass.affectedReqIds.length = 0 then return ([], s)
  else do
    let evicts := !syncPass.blocksToEvict.isEmpty && !s.config.recomputeKvLoadFailures
    let kvCacheManager ← (if evicts then
        s.kvCacheManager.evictBlocks (syncPass.blocksToEvict.map Int.toNat)
      else .ok s.kvCacheManager)
    let s := { s with kvCacheManager }
    if s.config.recomputeKvLoadFailures = false then
      return (asyncPass.affectedReqIds.union syncPass.affectedReqIds, s)
    else
      return (syncPass.affectedReqIds, { s with
        failedRecvingKvReqIds := s.failedRecvingKvReqIds.union asyncPass.affectedReqIds })

/-! ### The output of the model -/

/-- `_update_request_with_output` of `Scheduler`. -/
def appendNewTokens (s : Scheduler) (r : ReqRef) (newTokenIds : List Int) :
    Except PyError (List Int × Bool × Scheduler) := do
  let (newTokenIds, stopped, request) ←
    appendUntilStop s.config.blockHasher s.config.maxModelLen (s.objects r) newTokenIds
  return (newTokenIds, stopped, s.modify r fun _ => request)

/-- `_update_request_with_output` of `AsyncScheduler`. -/
def appendNewTokensAsync (s : Scheduler) (r : ReqRef) (newTokenIds : List Int) :
    Except PyError (List Int × Bool × Scheduler) :=
  if (s.objects r).discardLatestAsyncTokens then
    .ok ([], false, s.modify r fun request => { request with discardLatestAsyncTokens := false })
  else do
    let statusBeforeUpdate := (s.objects r).status
    let (newTokenIds, stopped, s) ← s.appendNewTokens r newTokenIds
    let s := s.modify r fun request => { request with
      numOutputPlaceholders := request.numOutputPlaceholders - newTokenIds.length }
    let request := s.objects r
    pyAssert (0 ≤ request.numOutputPlaceholders) "request.num_output_placeholders >= 0"
    -- Preempted requests are skipped.
    let kvCacheManager ← (if statusBeforeUpdate = .running then
        s.kvCacheManager.cacheBlocks request
          (request.numComputedTokens - request.numOutputPlaceholders)
      else .ok s.kvCacheManager)
    return (newTokenIds, stopped, { s with kvCacheManager })

/-- `_update_request_with_output`. -/
def updateRequestWithOutput (s : Scheduler) (r : ReqRef) (newTokenIds : List Int) :
    Except PyError (List Int × Bool × Scheduler) :=
  if s.config.asyncScheduling then s.appendNewTokensAsync r newTokenIds
  else s.appendNewTokens r newTokenIds

/-- The correction of the counters of a request for the draft tokens that were rejected. -/
def correctRejected (s : Scheduler) (r : ReqRef) (numDraftTokens numGenerated : Nat) :
    Scheduler :=
  if numDraftTokens = 0 then s
  else
    let numAccepted : Int := numGenerated - 1
    let numRejected := numDraftTokens - numAccepted
    s.modify r fun request => { request with
      numComputedTokens := if 0 < request.numComputedTokens then
          request.numComputedTokens - numRejected else request.numComputedTokens
      numOutputPlaceholders := if 0 < request.numOutputPlaceholders then
          request.numOutputPlaceholders - numRejected else request.numOutputPlaceholders }

end Scheduler

/-- The local variables of `update_from_output`. -/
structure UpdatePass where
  s : Scheduler
  outputs : PyDict Nat (List EngineCoreOutput) := PyDict.empty
  stoppedRunningReqs : List ReqRef := []
  stoppedPreemptedReqs : List ReqRef := []

namespace UpdatePass

/-- `outputs[client_index].append(output)`. -/
def addOutput (p : UpdatePass) (clientIndex : Nat) (output : EngineCoreOutput) : UpdatePass :=
  { p with outputs :=
      p.outputs.insert clientIndex ((p.outputs.get? clientIndex).getD [] ++ [output]) }

/-- The tokens that are left and whether the request stopped. -/
def checkOutput (p : UpdatePass) (r : ReqRef) (generatedTokenIds : List Int)
    (hasPoolerOutput : Bool) : Except PyError (List Int × Bool × UpdatePass) :=
  if generatedTokenIds.isEmpty = false then do
    let (newTokenIds, stopped, s) ← p.s.updateRequestWithOutput r generatedTokenIds
    return (newTokenIds, stopped, { p with s })
  else if (p.s.objects r).poolingParams.isSome = true ∧ hasPoolerOutput = true then
    -- Pooling stops as soon as there is output.
    .ok ([], true, { p with
      s := p.s.modify r fun request => { request with status := .finishedStopped } })
  else .ok ([], false, p)

/-- A stopped request is freed and marked for removal from its queue. -/
def stopRequest (connector : Option KVConnector) (statusBeforeStop : RequestStatus)
    (p : UpdatePass) (r : ReqRef) : Except PyError (Bool × UpdatePass) := do
  let (hasParams, s) ← p.s.freeRequest connector r
  if statusBeforeStop = .running then
    return (hasParams, { p with s, stoppedRunningReqs := p.stoppedRunningReqs.insert r })
  else
    return (hasParams, { p with s, stoppedPreemptedReqs := p.stoppedPreemptedReqs.insert r })

/-- One pass of the loop of `update_from_output`, for a request that is known. -/
def updateRequest (connector : Option KVConnector) (schedulerOutput : SchedulerOutput)
    (modelRunnerOutput : ModelRunnerOutput) (reqId : String) (r : ReqRef) (p : UpdatePass) :
    Except PyError UpdatePass :=
  if reqId ∉ modelRunnerOutput.reqIds then .error (.keyError reqId)
  else do
    let generatedTokenIds := modelRunnerOutput.sampledTokenIds reqId
    let hasPoolerOutput := modelRunnerOutput.hasPoolerOutput reqId
    let numDraftTokens :=
      ((schedulerOutput.scheduledSpecDecodeTokens.get? reqId).getD []).length
    let p := { p with
      s := p.s.correctRejected r numDraftTokens generatedTokenIds.length }
    let statusBeforeStop := (p.s.objects r).status
    let (newTokenIds, stopped, p) ← p.checkOutput r generatedTokenIds hasPoolerOutput
    let (hasParams, p) ← (if stopped then p.stopRequest connector statusBeforeStop r
      else .ok (false, p))
    let request := p.s.objects r
    if newTokenIds.isEmpty = false ∨ hasPoolerOutput = true ∨ hasParams = true then
      return p.addOutput request.clientIndex {
        requestId := reqId
        newTokenIds
        finishReason := request.status.getFinishedReason
        stopReason := request.stopReason
        numCachedTokens := request.numCachedTokens
        hasKvTransferParams := hasParams }
    else return p

/-- The loop of `update_from_output`. -/
def updateLoop (connector : Option KVConnector) (schedulerOutput : SchedulerOutput)
    (modelRunnerOutput : ModelRunnerOutput) (failedKvLoadReqIds : List String) :
    List (String × Int) → UpdatePass → Except PyError UpdatePass
  | [], p => .ok p
  | (reqId, numTokensScheduled) :: rest, p => do
      pyAssert (0 < numTokensScheduled) "num_tokens_scheduled > 0"
      let p ← (if reqId ∈ failedKvLoadReqIds then .ok p
        else
          match p.s.requests.get? reqId with
          | none => .ok p
          | some r => updateRequest connector schedulerOutput modelRunnerOutput reqId r p)
      updateLoop connector schedulerOutput modelRunnerOutput failedKvLoadReqIds rest p

/-- The stopped requests leave their queues. -/
def removeStopped (p : UpdatePass) : UpdatePass :=
  { p with
    s.running := removeAll p.s.running p.stoppedRunningReqs
    s.waiting := SchedulingPolicy.removeRequests p.s.waiting p.stoppedPreemptedReqs }

/-- Requests whose KV load failed end with an error. -/
def failRequests (connector : Option KVConnector) (failedKvLoadReqIds : List String)
    (p : UpdatePass) : Except PyError UpdatePass := do
  let requests ← failedKvLoadReqIds.mapM fun reqId =>
    match p.s.requests.get? reqId with
    | none => .error (.keyError reqId)
    | some r => .ok r
  let s ← p.s.finishRequests connector failedKvLoadReqIds .finishedError
  return requests.foldl (fun p r =>
    let request := p.s.objects r
    p.addOutput request.clientIndex {
      requestId := request.requestId
      newTokenIds := []
      finishReason := request.status.getFinishedReason
      stopReason := none
      numCachedTokens := request.numCachedTokens }) { p with s }

end UpdatePass

namespace Scheduler

/-- The loop of `_update_from_kv_xfer_finished` over `finished_sending`. -/
def finishSending : Scheduler → List String → Except PyError Scheduler
  | s, [] => .ok s
  | s, reqId :: rest =>
    match s.requests.get? reqId with
    | none => .error (.assertionError "req_id in self.requests")
    | some r => do
        let s ← s.freeBlocks r
        finishSending s rest

/-- `_update_from_kv_xfer_finished`. -/
def updateFromKvXferFinished (s : Scheduler) (output : KVConnectorOutput) :
    Except PyError Scheduler :=
  let s := { s with
    finishedRecvingKvReqIds := s.finishedRecvingKvReqIds.union output.finishedRecving }
  s.finishSending output.finishedSending

/-- The outputs of every client, with the finished ids. -/
def engineCoreOutputs (s : Scheduler) (outputs : PyDict Nat (List EngineCoreOutput)) :
    PyDict Nat EngineCoreOutputs :=
  let byClient := outputs.entries.foldl
    (fun d (client, outs) => d.insert client { outputs := outs }) PyDict.empty
  ((s.finishedReqIdsDict.map PyDict.entries).getD []).foldl (fun d (client, finished) =>
    d.insert client { ((d.get? client).getD {}) with finishedRequests := some finished })
    byClient

/-- `update_from_output`, with the outputs of every client first. -/
def updateFromOutput (s : Scheduler) (connector : Option KVConnector)
    (schedulerOutput : SchedulerOutput) (modelRunnerOutput : ModelRunnerOutput) :
    Except PyError (PyDict Nat EngineCoreOutputs × Scheduler) := do
  let invalidBlockIds := (modelRunnerOutput.kvConnectorOutput.map
    KVConnectorOutput.invalidBlockIds).getD []
  let (failedKvLoadReqIds, s) ← (if invalidBlockIds.isEmpty then .ok ([], s)
    else s.handleInvalidBlocks invalidBlockIds)
  let p ← UpdatePass.updateLoop connector schedulerOutput modelRunnerOutput failedKvLoadReqIds
    schedulerOutput.numScheduledTokens.entries { s := s }
  let p := p.removeStopped
  let p ← (if failedKvLoadReqIds.isEmpty = false ∧ p.s.config.recomputeKvLoadFailures = false
    then p.failRequests connector failedKvLoadReqIds else .ok p)
  let s ← (match modelRunnerOutput.kvConnectorOutput with
    | none => .ok p.s
    | some output => p.s.updateFromKvXferFinished output)
  let (_, kvCacheManager) := s.kvCacheManager.takeEvents
  return (s.engineCoreOutputs p.outputs, { s with
    kvCacheManager
    finishedReqIdsDict := s.finishedReqIdsDict.map fun _ => PyDict.empty })

/-! ### Draft tokens and the forced reset -/

/-- `update_draft_token_ids`; `validate` is `validate_tokens` of the grammar of a request. -/
def updateDraftTokenIds (s : Scheduler) (validate : Request → List Int → List Int) :
    List (String × List Int) → Scheduler
  | [] => s
  | (reqId, specTokenIds) :: rest =>
    let s := match s.requests.get? reqId with
      | none => s
      | some r =>
        if (s.objects r).isFinished then s
        else s.modify r fun request =>
          { request with specTokenIds := validate request specTokenIds }
    updateDraftTokenIds s validate rest

/-- The loop of `reset_prefix_cache` that preempts the running requests, the last one first. -/
def preemptAll : List ReqRef → Scheduler → Except PyError Scheduler
  | [], s => .ok s
  | r :: rest, s => do
      let s ← { s with running := s.running.dropLast }.preemptRequest r
      let s := s.modify r fun request => { request with
        numOutputPlaceholders := 0
        discardLatestAsyncTokens := true }
      preemptAll rest s

/-- `reset_prefix_cache` without a connector, with its return value first. -/
def resetPrefixCache (s : Scheduler) (resetRunningRequests : Bool) :
    Except PyError (Bool × Scheduler) := do
  let s ← (if resetRunningRequests then do
      let s ← preemptAll s.running.reverse s
      return { s with prevStepScheduledReqIds := [] }
    else .ok s)
  let (resetSuccessful, kvCacheManager) := s.kvCacheManager.resetPrefixCache
  if resetRunningRequests = true ∧ resetSuccessful = false then
    .error (.runtimeError ("Failed to reset KV cache even when all the running requests are "
      ++ "preempted and moved to the waiting queue. This is likely due to "
      ++ "the presence of running requests waiting for remote KV transfer, "
      ++ "which is not supported yet."))
  else return (resetSuccessful, { s with kvCacheManager })

end Scheduler

end Vllm.V1.Core
