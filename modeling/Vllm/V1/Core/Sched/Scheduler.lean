import Mathlib.Logic.Function.Basic
import Vllm.V1.Core.EncoderCacheManager
import Vllm.V1.Core.Sched.Output
import Vllm.V1.Core.Sched.RequestQueue

/-!
# `Vllm.V1.Core.Sched.Scheduler`: `schedule` (`vllm/v1/core/sched/scheduler.py`)

The scheduler and its `schedule` method, with the additions of `AsyncScheduler`
(`vllm/v1/core/sched/async_scheduler.py`).

* `Scheduler`: the state. Request objects live in a heap and are named by references, because
  the source compares requests by identity and finds them by id.
* `SchedulePass`: the local variables of `schedule`.
* `runningLoop`, `waitingLoop`: the two loops, one pass of each in `runningStep` and
  `waitingStep`.
* `schedule`: the loops, the checks, the output and `_update_after_schedule`.

What a connector answers is an argument of the call. Log messages, events, statistics and the
metadata of the connectors are left out.
-/

set_option autoImplicit false

namespace Vllm.V1.Core

open Vllm.Lib Vllm.V1

/-- The configuration that the scheduler reads. -/
structure SchedulerConfig where
  policy : SchedulingPolicy := .fcfs
  maxNumRunningReqs : Nat
  maxNumScheduledTokens : Int
  maxModelLen : Nat
  longPrefillTokenThreshold : Int := 0
  enableChunkedPrefill : Bool := true
  disableChunkedMmInput : Bool := false
  /-- The encoder compute budget. -/
  maxNumEncoderInputTokens : Int := 0
  /-- `scheduler_config.max_num_encoder_input_tokens`. -/
  configMaxNumEncoderInputTokens : Int := 0
  isEncoderDecoder : Bool := false
  useEagle : Bool := false
  numSpecTokens : Nat := 0
  numLookaheadTokens : Int := 0
  /-- `lora_config.max_loras`, when there is a `lora_config`. -/
  maxLoras : Option Nat := none
  blockSize : Nat
  numKvCacheGroups : Nat := 1
  usePp : Bool := false
  useV2ModelRunner : Bool := false
  /-- The class is `AsyncScheduler`. -/
  asyncScheduling : Bool := false
  recomputeKvLoadFailures : Bool := true
  /-- The `block_hasher` of the requests. -/
  blockHasher : Option (Request → List BlockHash) := none

/-- `Scheduler`. -/
structure Scheduler where
  config : SchedulerConfig
  /-- The request objects. -/
  objects : ReqRef → Request := fun _ => { requestId := "" }
  /-- The references below this one are in use. -/
  numObjects : Nat := 0
  requests : PyDict String ReqRef := PyDict.empty
  waiting : List ReqRef := []
  running : List ReqRef := []
  finishedReqIds : List String := []
  /-- The finished ids by client, when the engine has several. -/
  finishedReqIdsDict : Option (PyDict Nat (List String)) := none
  prevStepScheduledReqIds : List String := []
  finishedRecvingKvReqIds : List String := []
  failedRecvingKvReqIds : List String := []
  encoderCacheManager : EncoderCacheManager
  kvCacheManager : KVCacheManager
  /-- History: the requests that `_free_request` was called with. No function reads it. -/
  freeRequestCalls : List ReqRef := []
  /-- History: the requests that `_free_blocks` was called with. No function reads it. -/
  freeBlocksCalls : List ReqRef := []

/-- What the KV connector answers during one call. -/
structure KVConnector where
  /-- The class is a `SupportsHMA`. -/
  supportsHma : Bool := true
  /-- `get_num_new_matched_tokens`. -/
  getNumNewMatchedTokens : Request → Int → Option Int × Bool
  /-- `request_finished`: whether the connector frees the blocks later, and whether there are
  `kv_transfer_params`. -/
  requestFinished : Request → List (List Int) → Bool × Bool

/-- What the encoder-cache connector answers: `has_caches`. -/
abbrev ECConnector := Request → List Bool

namespace Scheduler

/-- `__init__`: `kvCacheManager` is the manager it creates, `encoderCacheSize` the space that
`compute_encoder_budget` returns. -/
def init (config : SchedulerConfig) (kvCacheManager : KVCacheManager) (encoderCacheSize : Nat)
    (includeFinishedSet : Bool) : Scheduler :=
  { config
    finishedReqIdsDict := if includeFinishedSet then some PyDict.empty else none
    encoderCacheManager := .init config.isEncoderDecoder encoderCacheSize
    kvCacheManager }

/-- Writes to the attributes of a request object. -/
def modify (s : Scheduler) (r : ReqRef) (f : Request → Request) : Scheduler :=
  { s with objects := Function.update s.objects r (f (s.objects r)) }

/-- The order of the waiting queue. -/
def lt (s : Scheduler) : ReqRef → ReqRef → Bool := requestLt s.objects

/-- `self.waiting.prepend_request`. -/
def prependWaiting (s : Scheduler) (r : ReqRef) : Scheduler :=
  { s with waiting := s.config.policy.prependRequest s.lt s.waiting r }

/-- `_preempt_request`. -/
def preemptRequest (s : Scheduler) (r : ReqRef) : Except PyError Scheduler := do
  pyAssert ((s.objects r).status = .running) "Only running requests can be preempted"
  let kvCacheManager ← s.kvCacheManager.free (s.objects r)
  let encoderCacheManager ← s.encoderCacheManager.free (s.objects r)
  let s := { s with kvCacheManager, encoderCacheManager }
  let s := s.modify r fun request => { request with
    status := .preempted
    numComputedTokens := 0
    numPreemptions := request.numPreemptions + 1 }
  return s.prependWaiting r

/-- `max(self.running, key=lambda r: (r.priority, r.arrival_time))`: the first of the largest. -/
def lowestPriority (s : Scheduler) : Option ReqRef :=
  match s.running with
  | [] => none
  | r :: rest =>
    let key r := ((s.objects r).priority, (s.objects r).arrivalTime)
    some (rest.foldl (fun best r =>
      if (key best).1 < (key r).1 ∨ ((key best).1 = (key r).1 ∧ (key best).2 < (key r).2)
      then r else best) r)

/-! ### Encoder inputs -/

/-- What `_try_schedule_encoder_inputs` returns. -/
structure EncoderPlan where
  encoderInputsToSchedule : List Nat := []
  numNewTokens : Int
  encoderComputeBudget : Int
  externalLoadEncoderInput : List Nat := []

/-- The local variables of the loop of `_try_schedule_encoder_inputs`. -/
structure EncoderPass where
  encoderCacheManager : EncoderCacheManager
  plan : EncoderPlan
  mmHashesToSchedule : List String := []
  numEmbedsToSchedule : Int := 0

/-- One pass of the loop of `_try_schedule_encoder_inputs`, and whether the loop goes on. -/
def encoderInputStep (config : SchedulerConfig) (remoteCacheHasItem : Option (List Bool))
    (request : Request) (numComputedTokens shiftComputedTokens : Int) (p : EncoderPass)
    (i : Nat) (feature : MultiModalFeatureSpec) : Except PyError (Bool × EncoderPass) := do
  let startPos : Int := feature.mmPosition.offset
  let numEncoderTokens : Int := feature.mmPosition.length
  let numEncoderEmbeds ← feature.mmPosition.getNumEmbeds
  let numNewTokens := p.plan.numNewTokens
  if numComputedTokens + numNewTokens + shiftComputedTokens ≤ startPos then
    -- The encoder input is not needed in this step.
    return (false, p)
  else if config.isEncoderDecoder = true ∧ 0 < numComputedTokens then do
    pyAssert (startPos = 0) ("Encoder input should be processed at the beginning of "
      ++ "the sequence when encoder-decoder models are used.")
    return (true, p)
  else if startPos + numEncoderTokens ≤ numComputedTokens then
    -- The encoder input is already computed and stored in the decoder's KV cache.
    return (true, p)
  else if config.isEncoderDecoder = false ∧ feature.identifier ∈ p.mmHashesToSchedule then
    return (true, p)
  else do
    let (cached, encoderCacheManager) ← (if config.isEncoderDecoder then
        .ok (false, p.encoderCacheManager)
      else p.encoderCacheManager.checkAndUpdateCache request i)
    let p := { p with encoderCacheManager }
    if cached then return (true, p)
    else if config.disableChunkedMmInput = true ∧ numComputedTokens < startPos ∧
        numComputedTokens + numNewTokens < startPos + numEncoderTokens then
      -- Roll back to before the item.
      return (false, { p with plan.numNewTokens := startPos - numComputedTokens })
    else do
      let (can, encoderCacheManager) ← p.encoderCacheManager.canAllocate request i
        p.plan.encoderComputeBudget p.numEmbedsToSchedule
      let p := { p with encoderCacheManager }
      if can = false then
        -- The encoder cache is full or the encoder budget is exhausted.
        let numNewTokens := if numComputedTokens + shiftComputedTokens < startPos then
          startPos - (numComputedTokens + shiftComputedTokens) else 0
        return (false, { p with plan.numNewTokens := numNewTokens })
      else do
        let startIdxRel := max 0 (numComputedTokens - startPos)
        let endIdxRel := min numEncoderTokens (numComputedTokens + numNewTokens - startPos)
        let (currEmbedsStart, currEmbedsEnd) ←
          feature.mmPosition.getEmbedsIndicesInRange startIdxRel endIdxRel
        if currEmbedsEnd - currEmbedsStart = 0 then return (true, p)
        else
          let p := { p with
            numEmbedsToSchedule := p.numEmbedsToSchedule + numEncoderEmbeds
            mmHashesToSchedule := p.mmHashesToSchedule.insert feature.identifier }
          if (remoteCacheHasItem.getD []).getD i false then
            let external := p.plan.externalLoadEncoderInput ++ [i]
            return (true, { p with plan.externalLoadEncoderInput := external })
          else
            let plan := { p.plan with
              encoderComputeBudget := p.plan.encoderComputeBudget - numEncoderEmbeds
              encoderInputsToSchedule := p.plan.encoderInputsToSchedule ++ [i] }
            return (true, { p with plan })

/-- The loop of `_try_schedule_encoder_inputs`. -/
def encoderInputLoop (config : SchedulerConfig) (remoteCacheHasItem : Option (List Bool))
    (request : Request) (numComputedTokens shiftComputedTokens : Int) :
    EncoderPass → Nat → List MultiModalFeatureSpec → Except PyError EncoderPass
  | p, _, [] => .ok p
  | p, i, feature :: features => do
      let (go, p) ← encoderInputStep config remoteCacheHasItem request numComputedTokens
        shiftComputedTokens p i feature
      if go then
        encoderInputLoop config remoteCacheHasItem request numComputedTokens
          shiftComputedTokens p (i + 1) features
      else .ok p

/-- `_try_schedule_encoder_inputs`, for a request with encoder inputs or without. -/
def tryScheduleEncoderInputs (s : Scheduler) (ec : Option ECConnector) (request : Request)
    (numComputedTokens numNewTokens encoderComputeBudget : Int) :
    Except PyError (EncoderPlan × Scheduler) :=
  let plan : EncoderPlan := { numNewTokens, encoderComputeBudget }
  if numNewTokens = 0 ∨ request.hasEncoderInputs = false then .ok (plan, s)
  else do
    let shiftComputedTokens := if s.config.useEagle then 1 else 0
    let p ← encoderInputLoop s.config (ec.map fun hasCaches => hasCaches request) request
      numComputedTokens shiftComputedTokens
      { encoderCacheManager := s.encoderCacheManager, plan } 0 request.mmFeatures
    return (p.plan, { s with encoderCacheManager := p.encoderCacheManager })

/-- `for i in ..: self.encoder_cache_manager.allocate(request, i)`. -/
def allocateEncoderInputs (s : Scheduler) (r : ReqRef) (inputs : List Nat) :
    Except PyError Scheduler := do
  let encoderCacheManager ← inputs.foldlM
    (fun e inputId => e.allocate (s.objects r) inputId) s.encoderCacheManager
  return { s with encoderCacheManager }

end Scheduler

/-- The local variables of `schedule`. -/
structure SchedulePass where
  s : Scheduler
  scheduledNewReqs : List ReqRef := []
  scheduledResumedReqs : List ReqRef := []
  scheduledRunningReqs : List ReqRef := []
  preemptedReqs : List ReqRef := []
  reqToNewBlocks : PyDict String KVCacheBlocks := PyDict.empty
  numScheduledTokens : PyDict String Int := PyDict.empty
  tokenBudget : Int
  scheduledEncoderInputs : PyDict String (List Nat) := PyDict.empty
  encoderComputeBudget : Int
  scheduledSpecDecodeTokens : PyDict String (List Int) := PyDict.empty
  scheduledLoras : List Nat := []
  skippedWaitingRequests : List ReqRef := []
  reqIndex : Nat := 0
  /-- History: the encoder inputs of requests that were scheduled in this call and then
  preempted. No function reads it. -/
  withdrawnEncoderInputs : List Nat := []

namespace SchedulePass

/-! ### The running requests -/

/-- The sum of `get_num_encoder_embeds` over encoder inputs. -/
def sumEncoderEmbeds (request : Request) (inputs : List Nat) : Except PyError Nat :=
  inputs.foldlM (fun n i => do return n + (← request.getNumEncoderEmbeds i)) 0

/-- A request that was scheduled in this call is preempted: its tokens go back to the budget. -/
def withdraw (p : SchedulePass) (victim : ReqRef) : Except PyError SchedulePass :=
  let request := p.s.objects victim
  let reqId := request.requestId
  match p.numScheduledTokens.get? reqId, p.reqToNewBlocks.get? reqId with
  | some numTokens, some _ => do
      let inputs := (p.scheduledEncoderInputs.get? reqId).getD []
      let restored ← sumEncoderEmbeds request inputs
      return { p with
        withdrawnEncoderInputs := p.withdrawnEncoderInputs ++ inputs
        scheduledRunningReqs := p.scheduledRunningReqs.erase victim
        tokenBudget := p.tokenBudget + numTokens
        reqToNewBlocks := p.reqToNewBlocks.erase reqId
        numScheduledTokens := p.numScheduledTokens.erase reqId
        scheduledSpecDecodeTokens := p.scheduledSpecDecodeTokens.erase reqId
        scheduledEncoderInputs := p.scheduledEncoderInputs.erase reqId
        encoderComputeBudget := p.encoderComputeBudget + restored
        reqIndex := p.reqIndex - 1 }
  | _, _ => .error (.keyError reqId)

/-- Takes the request with the lowest priority out of `self.running`. -/
def popLowest (p : SchedulePass) : Except PyError (ReqRef × SchedulePass) :=
  match p.s.config.policy with
  | .priority =>
    match p.s.lowestPriority with
    | none => .error (.valueError "max() iterable argument is empty")
    | some victim => do
        let p := { p with s.running := p.s.running.erase victim }
        let p ← (if victim ∈ p.scheduledRunningReqs then p.withdraw victim else .ok p)
        return (victim, p)
  | .fcfs =>
    match p.s.running.getLast? with
    | none => .error (.indexError "pop from empty list")
    | some victim => .ok (victim, { p with s.running := p.s.running.dropLast })

/-- The loop that allocates slots for a running request and preempts others, or the request
itself, while there are too few. Every pass shortens `self.running`. -/
def allocateLoop (r : ReqRef) (numNewTokens : Int) : Nat → SchedulePass →
    Except PyError (Option KVCacheBlocks × SchedulePass)
  | 0, _ => .error (.indexError "pop from empty list")
  | fuel + 1, p => do
      let (newBlocks, kvCacheManager) ← p.s.kvCacheManager.allocateSlots (p.s.objects r)
        numNewTokens 0 none p.s.config.numLookaheadTokens false 0
      let p := { p with s.kvCacheManager := kvCacheManager }
      if newBlocks.isSome then return (newBlocks, p)
      else do
        let (victim, p) ← p.popLowest
        let s ← p.s.preemptRequest victim
        let p := { p with s := s, preemptedReqs := p.preemptedReqs ++ [victim] }
        if victim = r then return (none, p)
        else allocateLoop r numNewTokens fuel p

/-- The draft tokens of a scheduled request, and the request without them. -/
def takeSpecTokens (p : SchedulePass) (r : ReqRef) (numNewTokens : Int) : SchedulePass :=
  let request := p.s.objects r
  if request.specTokenIds.isEmpty then p
  else
    let numScheduledSpecTokens := numNewTokens + request.numComputedTokens
      - request.numTokens - request.numOutputPlaceholders
    let p := if 0 < numScheduledSpecTokens then
        let specTokenIds := request.specTokenIds.take numScheduledSpecTokens.toNat
        { p with scheduledSpecDecodeTokens :=
            p.scheduledSpecDecodeTokens.insert request.requestId specTokenIds }
      else p
    { p with s := p.s.modify r fun request => { request with specTokenIds := [] } }

/-- The encoder inputs of a scheduled request. -/
def takeEncoderInputs (p : SchedulePass) (r : ReqRef) (plan : Scheduler.EncoderPlan) :
    Except PyError SchedulePass := do
  let reqId := (p.s.objects r).requestId
  let s ← p.s.allocateEncoderInputs r plan.encoderInputsToSchedule
  let s ← s.allocateEncoderInputs r plan.externalLoadEncoderInput
  if plan.encoderInputsToSchedule.isEmpty then return { p with s := s }
  else
    return { p with
      s := s
      scheduledEncoderInputs :=
        p.scheduledEncoderInputs.insert reqId plan.encoderInputsToSchedule
      encoderComputeBudget := plan.encoderComputeBudget }

/-- The number of tokens that a running request asks for. -/
def numNewRunningTokens (p : SchedulePass) (request : Request) : Int :=
  let numNewTokens := (request.numTokensWithSpec : Int) + request.numOutputPlaceholders
    - request.numComputedTokens
  let threshold := p.s.config.longPrefillTokenThreshold
  let numNewTokens := if 0 < threshold ∧ threshold < numNewTokens then threshold
    else numNewTokens
  let numNewTokens := min numNewTokens p.tokenBudget
  min numNewTokens (p.s.config.maxModelLen - 1 - request.numComputedTokens)

/-- A running request enters the tables of this call. -/
def markScheduled (p : SchedulePass) (r : ReqRef) (newBlocks : KVCacheBlocks)
    (numNewTokens : Int) : SchedulePass :=
  let reqId := (p.s.objects r).requestId
  { p with
    scheduledRunningReqs := p.scheduledRunningReqs ++ [r]
    reqToNewBlocks := p.reqToNewBlocks.insert reqId newBlocks
    numScheduledTokens := p.numScheduledTokens.insert reqId numNewTokens
    tokenBudget := p.tokenBudget - numNewTokens
    reqIndex := p.reqIndex + 1 }

/-- A running request is scheduled. -/
def scheduleRunning (p : SchedulePass) (r : ReqRef) (newBlocks : KVCacheBlocks)
    (numNewTokens : Int) (plan : Scheduler.EncoderPlan) : Except PyError SchedulePass :=
  ((p.markScheduled r newBlocks numNewTokens).takeSpecTokens r numNewTokens).takeEncoderInputs
    r plan

/-- One pass of the loop over the running requests, and whether the loop goes on. -/
def runningStep (ec : Option ECConnector) (r : ReqRef) (p : SchedulePass) :
    Except PyError (Bool × SchedulePass) :=
  let request := p.s.objects r
  if 0 < request.numOutputPlaceholders ∧
      (request.numPromptTokens : Int) + request.maxTokens ≤
        request.numComputedTokens + 2 - request.numOutputPlaceholders then
    -- The previous step has reached `max_tokens`.
    .ok (true, { p with reqIndex := p.reqIndex + 1 })
  else do
    let (plan, s) ← p.s.tryScheduleEncoderInputs ec request request.numComputedTokens
      (p.numNewRunningTokens request) p.encoderComputeBudget
    let p := { p with s := s }
    if plan.numNewTokens = 0 then return (true, { p with reqIndex := p.reqIndex + 1 })
    else do
      let (newBlocks, p) ← allocateLoop r plan.numNewTokens (p.s.running.length + 1) p
      match newBlocks with
      | none => return (false, p)
      | some newBlocks => do
          let p ← p.scheduleRunning r newBlocks plan.numNewTokens plan
          return (true, p)

/-- The loop over the running requests. Every pass moves on in `self.running` or shortens it,
so a budget of its length is enough. -/
def runningLoop (ec : Option ECConnector) : Nat → SchedulePass → Except PyError SchedulePass
  | 0, p => .ok p
  | fuel + 1, p =>
    match p.s.running[p.reqIndex]? with
    | none => .ok p
    | some r =>
      if p.tokenBudget ≤ 0 then .ok p
      else do
        let (go, p) ← runningStep ec r p
        if go then runningLoop ec fuel p else return p

/-- The LoRAs of the scheduled running requests. -/
def recordLoras (p : SchedulePass) : Except PyError SchedulePass :=
  match p.s.config.maxLoras with
  | none => .ok p
  | some maxLoras => do
      let loras := (p.scheduledRunningReqs.filterMap fun r =>
        (p.s.objects r).loraRequest.map LoRARequest.loraIntId).dedup
      pyAssert (loras.length ≤ maxLoras) "len(scheduled_loras) <= self.lora_config.max_loras"
      return { p with scheduledLoras := loras }

/-! ### The waiting requests -/

/-- The request at the head of the waiting queue is put aside. -/
def skipWaiting (p : SchedulePass) (r : ReqRef) : SchedulePass :=
  { p with
    s.waiting := p.s.waiting.tail
    skippedWaitingRequests :=
      p.s.config.policy.prependRequest p.s.lt p.skippedWaitingRequests r }

end SchedulePass

/-- `_update_waiting_for_remote_kv`, with its return value first. -/
def Scheduler.updateWaitingForRemoteKv (s : Scheduler) (r : ReqRef) :
    Except PyError (Bool × Scheduler) :=
  let request := s.objects r
  let reqId := request.requestId
  let ready (s : Scheduler) : Bool × Scheduler :=
    (true, { s with finishedRecvingKvReqIds := s.finishedRecvingKvReqIds.erase reqId })
  if reqId ∉ s.finishedRecvingKvReqIds then .ok (false, s)
  else if reqId ∈ s.failedRecvingKvReqIds then do
    let kvCacheManager ← (if request.numComputedTokens ≠ 0 then
        s.kvCacheManager.cacheBlocks request request.numComputedTokens
      else s.kvCacheManager.free request)
    return ready { s with
      kvCacheManager
      failedRecvingKvReqIds := s.failedRecvingKvReqIds.erase reqId }
  else
    match (s.kvCacheManager.getBlocks reqId).getBlockIds with
    | [blockIds] => do
        let numComputedTokens := min ((blockIds.length : Int) * s.config.blockSize)
          request.numTokens
        let numComputedTokens := if numComputedTokens = request.numTokens then
          numComputedTokens - 1 else numComputedTokens
        let kvCacheManager ← s.kvCacheManager.cacheBlocks request numComputedTokens
        return ready ({ s with kvCacheManager }.modify r fun request =>
          { request with numComputedTokens })
    | _ => .error (.valueError "too many values to unpack")

namespace SchedulePass

/-- The checks on the request at the head of the waiting queue before it is looked at: remote
KVs, the grammar, the number of LoRAs. `false` puts the request aside. -/
def checkReady (p : SchedulePass) (r : ReqRef) : Except PyError (Bool × SchedulePass) := do
  let (kvReady, s) ← (if (p.s.objects r).status = .waitingForRemoteKvs then
      p.s.updateWaitingForRemoteKv r
    else .ok (true, p.s))
  if kvReady = false then return (false, { p with s := s })
  else
    let s := if (s.objects r).status = .waitingForRemoteKvs then
        s.modify r fun request => { request with status := .waiting }
      else s
    let grammar := (s.objects r).structuredOutputRequest.any fun so => so.grammarReady
    if (s.objects r).status = .waitingForFsm ∧ grammar = false then
      return (false, { p with s := s })
    else
      let s := if (s.objects r).status = .waitingForFsm then
          s.modify r fun request => { request with status := .waiting }
        else s
      let exceeds := match s.config.maxLoras, (s.objects r).loraRequest with
        | some maxLoras, some lora => decide (p.scheduledLoras.length = maxLoras ∧
            lora.loraIntId ∉ p.scheduledLoras)
        | _, _ => false
      return (!exceeds, { p with s := s })

/-- The tokens of a waiting request that are computed already. -/
structure CachedTokens where
  newComputedBlocks : KVCacheBlocks
  numNewLocalComputedTokens : Int
  numExternalComputedTokens : Int
  loadKvAsync : Bool
  numComputedTokens : Int

/-- The locally and externally cached tokens; `none` when the connector cannot tell yet. -/
def getCachedTokens (connector : Option KVConnector) (p : SchedulePass) (r : ReqRef) :
    Except PyError (Option CachedTokens × SchedulePass) :=
  let request := p.s.objects r
  if request.numComputedTokens = 0 then do
    let (newComputedBlocks, numNewLocal) ← p.s.kvCacheManager.getComputedBlocks request
    match connector with
    | none => return (some {
        newComputedBlocks
        numNewLocalComputedTokens := numNewLocal
        numExternalComputedTokens := 0
        loadKvAsync := false
        numComputedTokens := numNewLocal }, p)
    | some connector =>
      match connector.getNumNewMatchedTokens request numNewLocal with
      | (none, _) => return (none, p)
      | (some extTokens, loadKvAsync) => return (some {
          newComputedBlocks
          numNewLocalComputedTokens := numNewLocal
          numExternalComputedTokens := extTokens
          loadKvAsync
          numComputedTokens := numNewLocal + extTokens },
          { p with s := p.s.modify r fun request =>
              { request with numExternalComputedTokens := extTokens } })
  else
    .ok (some {
      newComputedBlocks := p.s.kvCacheManager.emptyKvCacheBlocks
      numNewLocalComputedTokens := 0
      numExternalComputedTokens := 0
      loadKvAsync := false
      numComputedTokens := request.numComputedTokens }, p)

/-- How many tokens of a waiting request are scheduled; `none` ends the loop. -/
def planWaiting (ec : Option ECConnector) (p : SchedulePass) (r : ReqRef) (t : CachedTokens) :
    Except PyError (Option Scheduler.EncoderPlan × SchedulePass) :=
  let request := p.s.objects r
  if t.loadKvAsync then do
    pyAssert (0 < t.numExternalComputedTokens) "num_external_computed_tokens > 0"
    return (some { numNewTokens := 0, encoderComputeBudget := p.encoderComputeBudget }, p)
  else
    let numNewTokens := (request.numTokens : Int) - t.numComputedTokens
    let threshold := p.s.config.longPrefillTokenThreshold
    let numNewTokens := if 0 < threshold ∧ threshold < numNewTokens then threshold
      else numNewTokens
    if p.s.config.enableChunkedPrefill = false ∧ p.tokenBudget < numNewTokens then
      .ok (none, p)
    else do
      let numNewTokens := min numNewTokens p.tokenBudget
      pyAssert (0 < numNewTokens) "num_new_tokens > 0"
      let (plan, s) ← p.s.tryScheduleEncoderInputs ec request t.numComputedTokens
        numNewTokens p.encoderComputeBudget
      if plan.numNewTokens = 0 then return (none, { p with s := s })
      else return (some plan, { p with s := s })

/-- A waiting request moves to `self.running` and enters the tables of this call. -/
def markRunning (p : SchedulePass) (r : ReqRef) (numComputedTokens numNewTokens : Int) :
    SchedulePass :=
  let request := p.s.objects r
  let reqId := request.requestId
  let p := { p with s.running := p.s.running ++ [r] }
  let p := match p.s.config.maxLoras, request.loraRequest with
    | some _, some lora => { p with scheduledLoras := p.scheduledLoras.insert lora.loraIntId }
    | _, _ => p
  { p with
    reqToNewBlocks := p.reqToNewBlocks.insert reqId (p.s.kvCacheManager.getBlocks reqId)
    numScheduledTokens := p.numScheduledTokens.insert reqId numNewTokens
    tokenBudget := p.tokenBudget - numNewTokens
    s := p.s.modify r fun request => { request with
      status := .running
      numComputedTokens
      numCachedTokens := if request.numCachedTokens < 0 then numComputedTokens
        else request.numCachedTokens } }

/-- A waiting request is scheduled, as a new one or as a resumed one. -/
def startRunning (p : SchedulePass) (r : ReqRef) (t : CachedTokens)
    (plan : Scheduler.EncoderPlan) : Except PyError SchedulePass :=
  let p' := p.markRunning r t.numComputedTokens plan.numNewTokens
  match (p.s.objects r).status with
  | .waiting =>
    { p' with scheduledNewReqs := p'.scheduledNewReqs ++ [r] }.takeEncoderInputs r plan
  | .preempted =>
    { p' with scheduledResumedReqs := p'.scheduledResumedReqs ++ [r] }.takeEncoderInputs r plan
  | _ => .error (.runtimeError "Invalid request status")

/-- A waiting request whose tokens are planned gets its slots. -/
def admitWaiting (p : SchedulePass) (r : ReqRef) (t : CachedTokens)
    (plan : Scheduler.EncoderPlan) : Except PyError (Bool × SchedulePass) := do
  let request := p.s.objects r
  let effectiveLookaheadTokens := if request.numComputedTokens = 0 then 0
    else p.s.config.numLookaheadTokens
  let numEncoderTokens := if p.s.config.isEncoderDecoder = true ∧
    request.hasEncoderInputs = true then p.s.config.configMaxNumEncoderInputTokens else 0
  let (newBlocks, kvCacheManager) ← p.s.kvCacheManager.allocateSlots request
    (plan.numNewTokens + t.numExternalComputedTokens) t.numNewLocalComputedTokens
    (some t.newComputedBlocks) effectiveLookaheadTokens t.loadKvAsync numEncoderTokens
  let p := { p with s.kvCacheManager := kvCacheManager }
  if newBlocks.isNone then return (false, p)
  else if t.loadKvAsync then
    let p := p.skipWaiting r
    return (true, { p with s := p.s.modify r fun request =>
      { request with status := .waitingForRemoteKvs } })
  else do
    let p ← { p with s.waiting := p.s.waiting.tail }.startRunning r t plan
    return (true, p)

/-- One pass of the loop over the waiting requests, and whether the loop goes on. -/
def waitingStep (connector : Option KVConnector) (ec : Option ECConnector) (r : ReqRef)
    (p : SchedulePass) : Except PyError (Bool × SchedulePass) := do
  let (ready, p) ← p.checkReady r
  if ready = false then return (true, p.skipWaiting r)
  else do
    let (cached, p) ← p.getCachedTokens connector r
    match cached with
    | none => return (true, p.skipWaiting r)
    | some t => do
        let (plan, p) ← p.planWaiting ec r t
        match plan with
        | none => return (false, p)
        | some plan => p.admitWaiting r t plan

/-- The loop over the waiting requests. Every pass takes one of them out of the queue, or is
the last one. -/
def waitingLoop (connector : Option KVConnector) (ec : Option ECConnector) :
    Nat → SchedulePass → Except PyError SchedulePass
  | 0, p => .ok p
  | fuel + 1, p =>
    match p.s.waiting with
    | [] => .ok p
    | r :: _ =>
      if p.tokenBudget ≤ 0 then .ok p
      else if p.s.running.length = p.s.config.maxNumRunningReqs then .ok p
      else do
        let (go, p) ← waitingStep connector ec r p
        if go then waitingLoop connector ec fuel p else return p

/-! ### The output -/

/-- `_make_cached_request_data`. -/
def makeCachedRequestData (p : SchedulePass) (runningReqs resumedReqs : List ReqRef) :
    Except PyError CachedRequestData :=
  (runningReqs ++ resumedReqs).zipIdx.foldlM (fun data (r, idx) => do
    let req := p.s.objects r
    let reqId := req.requestId
    match p.numScheduledTokens.get? reqId, p.reqToNewBlocks.get? reqId with
    | some numTokens, some newBlocks => do
        let numTokens := numTokens
          - ((p.scheduledSpecDecodeTokens.get? reqId).getD []).length
        let scheduledInPrevStep := decide (reqId ∈ p.s.prevStepScheduledReqIds)
        let resumed := decide (runningReqs.length ≤ idx)
        pyAssert (!(resumed && scheduledInPrevStep)) "not scheduled_in_prev_step"
        return { data with
          reqIds := data.reqIds ++ [reqId]
          newTokenIds := if p.s.config.usePp then data.newTokenIds ++
              [(req.allTokenIds.drop req.numComputedTokens.toNat).take numTokens.toNat]
            else data.newTokenIds
          resumedReqIds := if resumed then data.resumedReqIds.insert reqId
            else data.resumedReqIds
          allTokenIds := if scheduledInPrevStep then data.allTokenIds
            else data.allTokenIds.insert reqId req.allTokenIds
          newBlockIds := data.newBlockIds ++
            [if newBlocks.isEmptyBlocks then none else some newBlocks.getBlockIds]
          numComputedTokens := data.numComputedTokens ++ [req.numComputedTokens]
          numOutputTokens := data.numOutputTokens ++
            [req.numOutputTokens + req.numOutputPlaceholders] }
    | _, _ => .error (.keyError reqId)) {}

/-- `NewRequestData.from_request` of the new requests. -/
def makeNewRequestData (p : SchedulePass) (reqs : List ReqRef) :
    Except PyError (List NewRequestData) :=
  reqs.mapM fun r =>
    let request := p.s.objects r
    match p.reqToNewBlocks.get? request.requestId with
    | none => .error (.keyError request.requestId)
    | some blocks => .ok (NewRequestData.fromRequest request blocks.getBlockIds
        (if p.s.config.useV2ModelRunner then some request.allTokenIds else none))

end SchedulePass

namespace Scheduler

/-- `_free_encoder_inputs`. -/
def freeEncoderInputs (s : Scheduler) (r : ReqRef) : Except PyError Scheduler := do
  let request := s.objects r
  let encoderCacheManager ← (s.encoderCacheManager.getCachedInputIds request).foldlM
    (fun e inputId => do
      let feature ← request.mmFeature inputId
      if (s.config.isEncoderDecoder = true ∧ 0 < request.numComputedTokens) ∨
          (feature.endPos : Int) ≤ request.numComputedTokens then
        e.freeEncoderInput request inputId
      else .ok e) s.encoderCacheManager
  return { s with encoderCacheManager }

/-- What `AsyncScheduler._update_after_schedule` does to one request, and whether the output
waits for tokens of a grammar. -/
def addPlaceholders (s : Scheduler) (r : ReqRef) (specDecodeTokens : PyDict String (List Int)) :
    Bool × Scheduler :=
  let request := s.objects r
  let pending := request.useStructuredOutput && decide (0 < request.numOutputPlaceholders)
  let curNumSpecTokens := ((specDecodeTokens.get? request.requestId).getD []).length
  if request.numComputedTokens =
      request.numTokens + request.numOutputPlaceholders + curNumSpecTokens then
    (pending, s.modify r fun request => { request with
      numOutputPlaceholders := request.numOutputPlaceholders + 1 + curNumSpecTokens
      specTokenIds := List.replicate s.config.numSpecTokens (-1) })
  else (pending, s)

/-- The loop of `Scheduler._update_after_schedule`. -/
def advanceComputed (s : Scheduler) : List (String × Int) → Except PyError Scheduler
  | [] => .ok s
  | (reqId, numScheduledToken) :: rest =>
    match s.requests.get? reqId with
    | none => .error (.keyError reqId)
    | some r => do
        let s := s.modify r fun request => { request with
          numComputedTokens := request.numComputedTokens + numScheduledToken }
        let s ← (if (s.objects r).hasEncoderInputs then s.freeEncoderInputs r else .ok s)
        advanceComputed s rest

/-- The loop of `AsyncScheduler._update_after_schedule`. -/
def placeholderLoop (specDecodeTokens : PyDict String (List Int)) :
    Bool → Scheduler → List String → Except PyError (Bool × Scheduler)
  | pending, s, [] => .ok (pending, s)
  | pending, s, reqId :: rest =>
    match s.requests.get? reqId with
    | none => .error (.keyError reqId)
    | some r =>
      let (pending', s) := s.addPlaceholders r specDecodeTokens
      placeholderLoop specDecodeTokens (pending || pending') s rest

/-- `_update_after_schedule`, with `pending_structured_output_tokens` first. -/
def updateAfterSchedule (s : Scheduler) (numScheduledTokens : PyDict String Int)
    (specDecodeTokens : PyDict String (List Int)) : Except PyError (Bool × Scheduler) := do
  let s ← s.advanceComputed numScheduledTokens.entries
  let s := { s with finishedReqIds := [] }
  if s.config.asyncScheduling then
    placeholderLoop specDecodeTokens false s numScheduledTokens.keys
  else return (false, s)

end Scheduler

namespace SchedulePass

/-- The part of `schedule` after the loops: the checks, the output, `_update_after_schedule`. -/
def finish (p : SchedulePass) : Except PyError (SchedulerOutput × Scheduler) := do
  let total := p.numScheduledTokens.values.sum
  pyAssert (total ≤ p.s.config.maxNumScheduledTokens)
    "total_num_scheduled_tokens <= self.max_num_scheduled_tokens"
  pyAssert (0 ≤ p.tokenBudget) "token_budget >= 0"
  pyAssert (p.s.running.length ≤ p.s.config.maxNumRunningReqs)
    "len(self.running) <= self.max_num_running_reqs"
  pyAssert (p.scheduledNewReqs.length + p.scheduledResumedReqs.length
      + p.scheduledRunningReqs.length ≤ p.s.running.length)
    "scheduled requests <= len(self.running)"
  let (numCommonPrefixBlocks, kvCacheManager) := match p.s.running with
    | [] => (List.replicate p.s.config.numKvCacheGroups 0, p.s.kvCacheManager)
    | r :: _ => p.s.kvCacheManager.getNumCommonPrefixBlocks (p.s.objects r).requestId
  let p := { p with s.kvCacheManager := kvCacheManager }
  let (newReqs, resumedReqs) := if p.s.config.useV2ModelRunner then
      (p.scheduledNewReqs ++ p.scheduledResumedReqs, [])
    else (p.scheduledNewReqs, p.scheduledResumedReqs)
  let newReqsData ← p.makeNewRequestData newReqs
  let cachedReqsData ← p.makeCachedRequestData p.scheduledRunningReqs resumedReqs
  let (freedMmHashes, encoderCacheManager) := p.s.encoderCacheManager.getFreedMmHashes
  let s := { p.s with
    encoderCacheManager
    prevStepScheduledReqIds := p.numScheduledTokens.keys }
  let (pending, s) ← s.updateAfterSchedule p.numScheduledTokens p.scheduledSpecDecodeTokens
  return ({
    scheduledNewReqs := newReqsData
    scheduledCachedReqs := cachedReqsData
    numScheduledTokens := p.numScheduledTokens
    totalNumScheduledTokens := total
    scheduledSpecDecodeTokens := p.scheduledSpecDecodeTokens
    scheduledEncoderInputs := p.scheduledEncoderInputs
    numCommonPrefixBlocks
    finishedReqIds := p.s.finishedReqIds
    freeEncoderMmHashes := freedMmHashes
    preemptedReqIds := (p.preemptedReqs.map fun r => (p.s.objects r).requestId).dedup
    pendingStructuredOutputTokens := pending }, s)

/-- The skipped requests go back to the head of the waiting queue. -/
def putBackSkipped (p : SchedulePass) : SchedulePass :=
  { p with
    s.waiting := p.s.config.policy.prependRequests p.s.lt p.s.waiting p.skippedWaitingRequests
    skippedWaitingRequests := [] }

end SchedulePass

/-- The loops of `schedule`. -/
def Scheduler.scheduleLoops (s : Scheduler) (connector : Option KVConnector)
    (ec : Option ECConnector) : Except PyError SchedulePass := do
  let p ← SchedulePass.runningLoop ec s.running.length {
    s
    tokenBudget := s.config.maxNumScheduledTokens
    encoderComputeBudget := s.config.maxNumEncoderInputTokens }
  let p ← p.recordLoras
  let p ← (if p.preemptedReqs.isEmpty then
      SchedulePass.waitingLoop connector ec p.s.waiting.length p
    else .ok p)
  return p.putBackSkipped

/-- `schedule`. -/
def Scheduler.schedule (s : Scheduler) (connector : Option KVConnector)
    (ec : Option ECConnector) : Except PyError (SchedulerOutput × Scheduler) := do
  let p ← s.scheduleLoops connector ec
  p.finish

end Vllm.V1.Core
