import Vllm.Lib.PyDict
import Vllm.Lib.PyError
import Vllm.V1.Request

/-!
# `Vllm.Distributed.NixlConnector`: KV blocks that a decode instance reads
(`vllm/distributed/kv_transfer/kv_connector/v1/nixl_connector.py`)

A prefill instance (the producer) keeps the blocks of a finished request until the workers of the
decode instance have read them, or until a deadline. A decode instance (the consumer) reads them
after a handshake with the workers of the producer.

* `NixlConnectorScheduler`: what the scheduler tells its workers (`NixlConnectorMetadata`).
* `NixlConnectorWorker`: handshakes, transfers, notifications and deadlines.
* `WorkerOp`: the calls of a worker and what its background thread does. `workerStep` is one of them.
* `ProducerOp`: a scheduler and one of its workers, with the metadata between them.

NIXL itself is outside: the results of its calls are arguments. A handshake runs on one background
thread. Its result is there first, then its callbacks run one after the other, each of them at any
point of the main thread. In `get_finished` such a point lies between two statements that read and
clear `_failed_recv_reqs`. Time is a number of clock ticks. Descriptors, the copies after a transfer,
the save to a host buffer and statistics are left out.
-/

set_option autoImplicit false

namespace Vllm.Distributed.Nixl

open Vllm.Lib Vllm.V1

/-- `RemoteMeta`. -/
structure RemoteMeta where
  blockIds : List Nat
  host : String := ""
  port : Nat := 0
  engineId : String
  requestId : String
deriving DecidableEq

/-- `ReqMeta`. -/
structure ReqMeta where
  localBlockIds : List Nat
  localPhysicalBlockIds : List Nat
  tpSize : Nat := 1
  remote : Option RemoteMeta := none
deriving DecidableEq

/-- `remote_engine_id`, `remote_request_id`, `remote_host` and `remote_port`. -/
structure RemoteInstance where
  engineId : String
  requestId : String
  host : String := ""
  port : Nat := 0
deriving DecidableEq

/-- `kv_transfer_params`. `remote` is there when all keys of the remote instance are. -/
structure KVTransferParams where
  doRemotePrefill : Bool := false
  doRemoteDecode : Bool := false
  remoteBlockIds : Option (List Nat) := none
  remote : Option RemoteInstance := none
  tpSize : Nat := 1
deriving DecidableEq

/-- `NixlConnectorMetadata`. -/
structure NixlConnectorMetadata where
  reqsToRecv : PyDict String ReqMeta := .empty
  reqsToSend : PyDict String Int := .empty
  reqsInBatch : List String := []
  reqsNotProcessed : List String := []
deriving DecidableEq

/-- `add_new_req_to_recv`. -/
def NixlConnectorMetadata.addNewReqToRecv (m : NixlConnectorMetadata) (requestId : String)
    (localBlockIds : List Nat) (kvTransferParams : KVTransferParams) :
    Except PyError NixlConnectorMetadata :=
  match kvTransferParams.remoteBlockIds, kvTransferParams.remote with
  | none, _ => .error (.keyError "remote_block_ids")
  | _, none => .error (.keyError "remote_engine_id")
  | some blockIds, some remote => .ok { m with
      reqsToRecv := m.reqsToRecv.insert requestId {
        localBlockIds
        localPhysicalBlockIds := localBlockIds
        tpSize := kvTransferParams.tpSize
        remote := some {
          blockIds
          host := remote.host
          port := remote.port
          engineId := remote.engineId
          requestId := remote.requestId } } }

/-! ### The scheduler -/

/-- `NixlConnectorScheduler`. -/
structure NixlConnectorScheduler where
  useHostBuffer : Bool := false
  /-- `VLLM_NIXL_ABORT_REQUEST_TIMEOUT`. -/
  abortRequestTimeout : Int
  reqsNeedRecv : PyDict String (KVTransferParams × List Nat) := .empty
  reqsNeedSend : PyDict String Int := .empty
  reqsInBatch : List String := []
  reqsNotProcessed : List String := []

/-- What the connector reads of a `Request`. -/
structure NixlRequest where
  requestId : String
  status : RequestStatus := .running
  kvTransferParams : Option KVTransferParams := none
deriving DecidableEq

namespace NixlConnectorScheduler

/-- `update_state_after_alloc`, with the parameters of the request after it. -/
def updateStateAfterAlloc (s : NixlConnectorScheduler) (request : NixlRequest)
    (unhashedBlockIds : List Nat) (numExternalTokens : Nat) :
    Except PyError (NixlConnectorScheduler × Option KVTransferParams) :=
  match request.kvTransferParams with
  | none => .ok (s, none)
  | some params =>
    let s := if params.doRemoteDecode then
        { s with reqsInBatch := s.reqsInBatch.insert request.requestId } else s
    if s.useHostBuffer = true ∧ params.doRemoteDecode = true then .ok (s, some params)
    else if params.doRemotePrefill = false then .ok (s, some params)
    else do
      let done := { params with doRemotePrefill := false }
      if (params.remoteBlockIds.getD []).isEmpty then do
        pyAssert (numExternalTokens = 0) "num_external_tokens == 0"
        return (s, some done)
      else if params.remote.isNone then return (s, some done)
      else
        -- A full prefix hit has nothing to read; the worker only notifies the producer.
        let localBlockIds := if 0 < numExternalTokens then unhashedBlockIds else []
        return ({ s with
          reqsNeedRecv := s.reqsNeedRecv.insert request.requestId (done, localBlockIds) },
          some done)

/-- `request_finished`: whether the free is delayed, and the parameters of the request. -/
def requestFinished (s : NixlConnectorScheduler) (request : NixlRequest) (blockIds : List Nat)
    (now : Int) : Bool × NixlConnectorScheduler × Option KVTransferParams :=
  match request.kvTransferParams with
  | none => (false, s, none)
  | some params =>
    if params.doRemotePrefill then
      -- The request has not been scheduled; the worker only notifies the producer.
      let done := { params with doRemotePrefill := false }
      (false, { s with
        reqsNeedRecv := s.reqsNeedRecv.insert request.requestId (done, []) }, some done)
    else if params.doRemoteDecode = false then (false, s, some params)
    else if request.status ≠ .finishedLengthCapped then
      (false, { s with
        reqsNotProcessed := s.reqsNotProcessed.insert request.requestId }, some params)
    else if blockIds.isEmpty then (false, s, some params)
    else
      (true, { s with
        reqsNeedSend := s.reqsNeedSend.insert request.requestId
          (now + s.abortRequestTimeout) }, some params)

/-- The loop of `build_connector_meta`. -/
def addReqsToRecv : List (String × KVTransferParams × List Nat) → NixlConnectorMetadata →
    Except PyError NixlConnectorMetadata
  | [], m => .ok m
  | (reqId, params, blockIds) :: rest, m => do
      let m ← m.addNewReqToRecv reqId blockIds params
      addReqsToRecv rest m

/-- `build_connector_meta`. -/
def buildConnectorMeta (s : NixlConnectorScheduler) :
    Except PyError (NixlConnectorMetadata × NixlConnectorScheduler) := do
  let m ← addReqsToRecv s.reqsNeedRecv.entries {}
  return ({ m with
    reqsToSend := s.reqsNeedSend
    reqsInBatch := s.reqsInBatch
    reqsNotProcessed := s.reqsNotProcessed }, { s with
    reqsNeedRecv := .empty
    reqsNeedSend := .empty
    reqsInBatch := []
    reqsNotProcessed := [] })

end NixlConnectorScheduler

/-! ### The worker -/

/-- A handshake with an engine: the requests that wait for it, and its result when it is there. -/
structure Handshake where
  waiting : List (String × ReqMeta) := []
  result : Option Bool := none
deriving DecidableEq

/-- `NixlConnectorWorker`. -/
structure NixlConnectorWorker where
  blockSize : Nat
  /-- `_physical_blocks_per_logical_kv_block`. -/
  physicalBlocksPerLogical : Nat := 1
  recvingMetadata : PyDict String ReqMeta := .empty
  recvingTransfers : PyDict String (List Nat) := .empty
  reqsToSend : PyDict String Int := .empty
  reqsToProcess : List String := []
  invalidBlockIds : List Nat := []
  failedRecvReqs : List String := []
  readyRequests : List (String × ReqMeta) := []
  handshakeFutures : PyDict String Handshake := .empty
  /-- The callbacks of finished handshakes that have not run yet. -/
  callbacks : List (Bool × String × ReqMeta) := []
  /-- The engines of `_remote_agents`. -/
  remoteAgents : List String := []
  /-- The block sizes of the remote engines. -/
  remoteBlockSize : PyDict String Nat := .empty
  consumerNotificationCounts : PyDict String Nat := .empty
deriving DecidableEq

/-- What a handshake leaves: whether it has succeeded, and the block size of the engine if it came
as far as that. -/
structure HandshakeResult where
  success : Bool
  blockSize : Option Nat
deriving DecidableEq

/-- `check_xfer_state`; `failed` is any other state, or an exception. -/
inductive XferState where
  | done
  | proc
  | failed
deriving DecidableEq

namespace NixlConnectorWorker

/-- `kv_topo.block_size_ratio_from_engine_id`. -/
def blockSizeRatio (w : NixlConnectorWorker) (engineId : String) : Except PyError Nat :=
  match w.remoteBlockSize.get? engineId with
  | none => .error (.keyError engineId)
  | some remoteBlockSize => do
      pyAssert (w.blockSize % remoteBlockSize = 0) "block sizes are not divisible"
      return w.blockSize / remoteBlockSize

/-- `get_mapped_blocks`, and what `_logical_to_kernel_block_ids` does with a ratio. -/
def mapBlocks (ratio : Nat) (blockIds : List Nat) : List Nat :=
  blockIds.flatMap fun b => (List.range ratio).map fun i => b * ratio + i

/-- The callback `request_ready`. -/
def requestReady (w : NixlConnectorWorker) (success : Bool) (reqId : String) (reqMeta : ReqMeta) :
    NixlConnectorWorker :=
  if success then { w with readyRequests := w.readyRequests ++ [(reqId, reqMeta)] }
  else { w with
    invalidBlockIds := match w.recvingMetadata.get? reqId with
      | none => w.invalidBlockIds
      | some m => w.invalidBlockIds.union m.localBlockIds
    failedRecvReqs := w.failedRecvReqs.insert reqId }

/-- The background thread runs the next callbacks. -/
def runCallbacks : Nat → NixlConnectorWorker → NixlConnectorWorker
  | 0, w => w
  | n + 1, w =>
    match w.callbacks with
    | [] => w
    | (success, reqId, reqMeta) :: rest =>
      runCallbacks n ({ w with callbacks := rest }.requestReady success reqId reqMeta)

/-- `_background_nixl_handshake`. A callback of a future that is done runs at once. -/
def backgroundNixlHandshake (w : NixlConnectorWorker) (reqId engineId : String)
    (reqMeta : ReqMeta) : NixlConnectorWorker :=
  match w.handshakeFutures.get? engineId with
  | none => { w with
      handshakeFutures := w.handshakeFutures.insert engineId { waiting := [(reqId, reqMeta)] } }
  | some future =>
    match future.result with
    | none => { w with
        handshakeFutures := w.handshakeFutures.insert engineId
          { future with waiting := future.waiting ++ [(reqId, reqMeta)] } }
    | some success => w.requestReady success reqId reqMeta

/-- `_nixl_handshake` ends on the background thread. -/
def finishHandshake (w : NixlConnectorWorker) (engineId : String) (result : HandshakeResult) :
    NixlConnectorWorker :=
  match w.handshakeFutures.get? engineId with
  | none => w
  | some future => { w with
      remoteBlockSize := match result.blockSize with
        | none => w.remoteBlockSize
        | some blockSize =>
          if (w.remoteBlockSize.get? engineId).isSome then w.remoteBlockSize
          else w.remoteBlockSize.insert engineId blockSize
      handshakeFutures := w.handshakeFutures.insert engineId
        { future with result := some result.success } }

/-- The first callback of a handshake, `done_callback`. The callbacks of the requests come next. -/
def doneCallback (w : NixlConnectorWorker) (engineId : String) : NixlConnectorWorker :=
  match w.handshakeFutures.get? engineId with
  | some ⟨waiting, some success⟩ => { w with
      handshakeFutures := w.handshakeFutures.erase engineId
      remoteAgents := if success then w.remoteAgents.insert engineId else w.remoteAgents
      callbacks := w.callbacks ++ waiting.map fun entry => (success, entry) }
  | _ => w

/-- `_read_blocks_for_req`; `handle` is the transfer that NIXL makes, unless it raises. -/
def readBlocksForReq (w : NixlConnectorWorker) (handle : Option Nat) (reqId : String)
    (reqMeta : ReqMeta) : Except PyError NixlConnectorWorker :=
  match reqMeta.remote with
  | none => .error (.assertionError "meta.remote is not None")
  | some remote => do
      let ratio ← w.blockSizeRatio remote.engineId
      let localBlockIds := if 1 < ratio then
          let mapped := mapBlocks ratio reqMeta.localPhysicalBlockIds
          if remote.blockIds.length < mapped.length then mapped.take remote.blockIds.length
          else mapped
        else reqMeta.localPhysicalBlockIds
      if localBlockIds.length = 0 then
        -- Nothing to read: only a notification.
        if remote.engineId ∈ w.remoteAgents then return w
        else .error (.keyError remote.engineId)
      else do
        pyAssert (localBlockIds.length ≤ remote.blockIds.length)
          "num_local_blocks <= num_remote_blocks"
        match handle with
        | some handle => return { w with
            recvingTransfers := w.recvingTransfers.insert reqId
              ((w.recvingTransfers.get? reqId).getD [] ++ [handle]) }
        | none => return { w with
            invalidBlockIds := match w.recvingMetadata.get? reqId with
              | none => w.invalidBlockIds
              | some m => w.invalidBlockIds.union m.localBlockIds
            failedRecvReqs := w.failedRecvReqs.insert reqId }

/-- The block ids of a request for the kernels. -/
def toPhysical (w : NixlConnectorWorker) (reqMeta : ReqMeta) : ReqMeta :=
  if w.physicalBlocksPerLogical = 1 then
    { reqMeta with localPhysicalBlockIds := reqMeta.localBlockIds }
  else { reqMeta with
    localPhysicalBlockIds := mapBlocks w.physicalBlocksPerLogical reqMeta.localBlockIds
    remote := reqMeta.remote.map fun remote =>
      { remote with blockIds := mapBlocks w.physicalBlocksPerLogical remote.blockIds } }

/-- The loop of `start_load_kv` over the requests to receive. -/
def recvLoop (handles : String → Option Nat) :
    List (String × ReqMeta) → NixlConnectorWorker → Except PyError NixlConnectorWorker
  | [], w => .ok w
  | (reqId, reqMeta) :: rest, w => do
      let reqMeta := w.toPhysical reqMeta
      match reqMeta.remote with
      | none => .error (.assertionError "meta.remote is not None")
      | some remote => do
          let w := { w with recvingMetadata := w.recvingMetadata.insert reqId reqMeta }
          let w ← (if remote.engineId ∈ w.remoteAgents then
              w.readBlocksForReq (handles reqId) reqId reqMeta
            else .ok (w.backgroundNixlHandshake reqId remote.engineId reqMeta))
          recvLoop handles rest w

/-- The loop over the requests whose handshakes have finished. -/
def readyLoop (handles : String → Option Nat) :
    List (String × ReqMeta) → NixlConnectorWorker → Except PyError NixlConnectorWorker
  | [], w => .ok w
  | (reqId, reqMeta) :: rest, w => do
      let w ← { w with readyRequests := rest }.readBlocksForReq (handles reqId) reqId reqMeta
      readyLoop handles rest w

/-- The loop over the requests that are not to be processed. -/
def notProcessedLoop : List String → NixlConnectorWorker → Except PyError NixlConnectorWorker
  | [], w => .ok w
  | reqId :: rest, w => do
      let w := { w with reqsToProcess := w.reqsToProcess.erase reqId }
      pyAssert (!w.reqsToSend.contains reqId) "req_id not in self._reqs_to_send"
      notProcessedLoop rest w

/-- The loop over the requests to send. -/
def sendLoop : List (String × Int) → NixlConnectorWorker → NixlConnectorWorker
  | [], w => w
  | (reqId, expirationTime) :: rest, w =>
    sendLoop rest (if reqId ∈ w.reqsToProcess then
      { w with reqsToSend := w.reqsToSend.insert reqId expirationTime } else w)

/-- `start_load_kv`. -/
def startLoadKv (w : NixlConnectorWorker) (metadata : NixlConnectorMetadata)
    (handles : String → Option Nat) : Except PyError NixlConnectorWorker := do
  let w ← recvLoop handles metadata.reqsToRecv.entries w
  let w ← readyLoop handles w.readyRequests w
  let reqsToProcess := metadata.reqsInBatch.foldl (fun l r => l.insert r) w.reqsToProcess
  let w := { w with reqsToProcess }
  let w ← notProcessedLoop metadata.reqsNotProcessed w
  return sendLoop metadata.reqsToSend.entries w

/-! ### `get_finished` -/

/-- One notification, and the requests that all consumers have read. -/
def notify (w : NixlConnectorWorker) (notifiedReqIds : List String) (reqId : String)
    (tpRatio : Int) : Except PyError (List String × NixlConnectorWorker) :=
  if w.reqsToSend.contains reqId = false ∧ reqId ∉ w.reqsToProcess then .ok (notifiedReqIds, w)
  else
    let count := (w.consumerNotificationCounts.get? reqId).getD 0 + 1
    if (count : Int) = tpRatio then
      if reqId ∈ w.reqsToProcess then
        .ok (notifiedReqIds.insert reqId, { w with
          consumerNotificationCounts := w.consumerNotificationCounts.erase reqId
          reqsToProcess := w.reqsToProcess.erase reqId
          reqsToSend := w.reqsToSend.erase reqId })
      else .error (.keyError reqId)
    else .ok (notifiedReqIds, { w with
      consumerNotificationCounts := w.consumerNotificationCounts.insert reqId count })

/-- `_get_new_notifs`. -/
def getNewNotifs : List (String × Int) → List String → NixlConnectorWorker →
    Except PyError (List String × NixlConnectorWorker)
  | [], notifiedReqIds, w => .ok (notifiedReqIds, w)
  | (reqId, tpRatio) :: notifs, notifiedReqIds, w => do
      let (notifiedReqIds, w) ← w.notify notifiedReqIds reqId tpRatio
      getNewNotifs notifs notifiedReqIds w

/-- `_handle_failed_transfer`. -/
def handleFailedTransfer (w : NixlConnectorWorker) (reqId : String) : NixlConnectorWorker :=
  match w.recvingMetadata.get? reqId with
  | none => w
  | some reqMeta => { w with
      recvingMetadata := w.recvingMetadata.erase reqId
      invalidBlockIds := w.invalidBlockIds.union reqMeta.localBlockIds }

/-- The loop over the transfers of one request, with `in_progress` first. -/
def handleLoop (xferState : Nat → XferState) (reqId : String) :
    List Nat → Bool → NixlConnectorWorker → Bool × NixlConnectorWorker
  | [], inProgress, w => (inProgress, w)
  | handle :: handles, inProgress, w =>
    match xferState handle with
    | .done => handleLoop xferState reqId handles inProgress w
    | .proc => handleLoop xferState reqId handles true w
    | .failed => handleLoop xferState reqId handles false (w.handleFailedTransfer reqId)

/-- `_pop_done_transfers`. -/
def popDoneTransfers (xferState : Nat → XferState) :
    List (String × List Nat) → List String → NixlConnectorWorker →
      List String × NixlConnectorWorker
  | [], doneReqIds, w => (doneReqIds, w)
  | (reqId, handles) :: transfers, doneReqIds, w =>
    match handleLoop xferState reqId handles false w with
    | (true, w) => popDoneTransfers xferState transfers doneReqIds w
    | (false, w) =>
      popDoneTransfers xferState transfers (doneReqIds.insert reqId)
        { w with recvingTransfers := w.recvingTransfers.erase reqId }

/-- The loop of `get_finished` over the requests that are done. -/
def doneLoop : List String → NixlConnectorWorker → Except PyError NixlConnectorWorker
  | [], w => .ok w
  | reqId :: rest, w =>
    match w.recvingMetadata.get? reqId with
    | none => .error (.assertionError (reqId ++ " not found in recving_metadata list"))
    | some reqMeta =>
      match reqMeta.remote with
      | none => .error (.assertionError "meta.remote is not None")
      | some remote => do
          let _ ← w.blockSizeRatio remote.engineId
          doneLoop rest { w with recvingMetadata := w.recvingMetadata.erase reqId }

/-- The loop over the deadlines, from the first entry on. -/
def expireLoop (now : Int) : List (String × Int) → List String → NixlConnectorWorker →
    Except PyError (List String × NixlConnectorWorker)
  | [], doneSending, w => .ok (doneSending, w)
  | (reqId, expires) :: rest, doneSending, w =>
    if now < expires then .ok (doneSending, w)
    else if reqId ∈ w.reqsToProcess then
      expireLoop now rest (doneSending.insert reqId) { w with
        consumerNotificationCounts := w.consumerNotificationCounts.erase reqId
        reqsToProcess := w.reqsToProcess.erase reqId
        reqsToSend := w.reqsToSend.erase reqId }
    else .error (.keyError reqId)

/-- What `get_finished` asks NIXL and the clock: the notifications, the states of the transfers, and
the time. `late` callbacks run after `_failed_recv_reqs` is read and before it is cleared. -/
structure Poll where
  notifs : List (String × Int) := []
  xferState : Nat → XferState := fun _ => .proc
  late : Nat := 0
  now : Int

/-- `get_finished`, with `done_sending` and `done_recving` first. -/
def getFinished (w : NixlConnectorWorker) (poll : Poll) :
    Except PyError (List String × List String × NixlConnectorWorker) := do
  let (doneSending, w) ← getNewNotifs poll.notifs [] w
  let (doneRecving, w) := popDoneTransfers poll.xferState w.recvingTransfers.entries [] w
  let doneRecving := doneRecving.union w.failedRecvReqs
  let w := runCallbacks poll.late w
  let w := { w with failedRecvReqs := [] }
  let w ← doneLoop doneRecving w
  let (doneSending, w) ← expireLoop poll.now w.reqsToSend.entries doneSending w
  return (doneSending, doneRecving, w)

/-- `get_block_ids_with_load_errors`. -/
def getBlockIdsWithLoadErrors (w : NixlConnectorWorker) : List Nat × NixlConnectorWorker :=
  (w.invalidBlockIds, { w with invalidBlockIds := [] })

end NixlConnectorWorker

/-! ### A consumer -/

/-- A worker of a consumer, with what it has returned so far. -/
structure Consumer where
  worker : NixlConnectorWorker
  /-- History: all `done_recving`, in order. No function reads it. -/
  doneRecving : List String := []
  /-- History: all blocks with load errors. No function reads it. -/
  loadErrors : List Nat := []
  /-- History: the requests that `start_load_kv` was given. No function reads it. -/
  given : List (String × ReqMeta) := []

/-- What can happen at a worker. `poll` is a step of the model runner: `get_finished`, and then
`get_block_ids_with_load_errors`. -/
inductive WorkerOp where
  | startLoadKv (metadata : NixlConnectorMetadata) (handles : String → Option Nat)
  | finishHandshake (engineId : String) (result : HandshakeResult)
  | doneCallback (engineId : String)
  | requestReady
  | poll (poll : NixlConnectorWorker.Poll)

/-- One operation. -/
def Consumer.step (c : Consumer) : WorkerOp → Except PyError Consumer
  | .startLoadKv metadata handles => do
      let worker ← c.worker.startLoadKv metadata handles
      return { c with
        worker
        given := c.given ++ metadata.reqsToRecv.entries }
  | .finishHandshake engineId result =>
    .ok { c with worker := c.worker.finishHandshake engineId result }
  | .doneCallback engineId => .ok { c with worker := c.worker.doneCallback engineId }
  | .requestReady => .ok { c with worker := c.worker.runCallbacks 1 }
  | .poll poll => do
      let (_, doneRecving, worker) ← c.worker.getFinished poll
      let (invalidBlockIds, worker) := worker.getBlockIdsWithLoadErrors
      return { c with
        worker
        doneRecving := c.doneRecving ++ doneRecving
        loadErrors := c.loadErrors ++ invalidBlockIds }

/-! ### A producer -/

/-- The connector of a producer in the scheduler and in one of its workers. -/
structure Producer where
  scheduler : NixlConnectorScheduler
  /-- The metadata of the steps that the worker has not begun, the oldest first. -/
  inFlight : List NixlConnectorMetadata := []
  worker : NixlConnectorWorker
  /-- History: the requests of `update_state_after_alloc`. No function reads it. -/
  allocated : List NixlRequest := []
  /-- History: the requests of `request_finished`, with the deadline when the free is delayed. No
  function reads it. -/
  finished : List (String × Option Int) := []
  /-- History: the ids of the notifications so far. No function reads it. -/
  notified : List String := []
  /-- History: all `done_sending`, in order. No function reads it. -/
  doneSending : List String := []
  /-- History: the last time that a clock has shown. No function reads it. -/
  clock : Int := 0

/-- What can happen at a producer. -/
inductive ProducerOp where
  /-- `schedule`, with the requests that get blocks in it. -/
  | schedule (requests : List NixlRequest)
  /-- A request ends in the scheduler. -/
  | requestFinished (request : NixlRequest) (blockIds : List Nat) (now : Int)
  /-- The worker begins the next step. -/
  | startLoadKv
  /-- The worker ends a step. -/
  | getFinished (poll : NixlConnectorWorker.Poll)

namespace Producer

/-- The calls of `update_state_after_alloc` in `schedule`. -/
def allocLoop : List NixlRequest → NixlConnectorScheduler → Except PyError NixlConnectorScheduler
  | [], s => .ok s
  | request :: requests, s => do
      let (s, _) ← s.updateStateAfterAlloc request [] 0
      allocLoop requests s

/-- One operation. -/
def step (p : Producer) : ProducerOp → Except PyError Producer
  | .schedule requests => do
      let scheduler ← allocLoop requests p.scheduler
      let (metadata, scheduler) ← scheduler.buildConnectorMeta
      return { p with
        scheduler
        inFlight := p.inFlight ++ [metadata]
        allocated := p.allocated ++ requests }
  | .requestFinished request blockIds now =>
    let (delayed, scheduler, _) := p.scheduler.requestFinished request blockIds now
    .ok { p with
      scheduler
      finished := p.finished ++ [(request.requestId,
        if delayed then some (now + p.scheduler.abortRequestTimeout) else none)]
      clock := now }
  | .startLoadKv =>
    match p.inFlight with
    | [] => .error (.indexError "pop from an empty deque")
    | metadata :: inFlight => do
        let worker ← p.worker.startLoadKv metadata fun _ => none
        return { p with
          worker
          inFlight }
  | .getFinished poll => do
      let (doneSending, _, worker) ← p.worker.getFinished poll
      return { p with
        worker
        notified := p.notified ++ poll.notifs.map Prod.fst
        doneSending := p.doneSending ++ doneSending
        clock := poll.now }

end Producer

end Vllm.Distributed.Nixl
