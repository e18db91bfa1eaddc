import Vllm.Lib.PyDict
import Vllm.Lib.PyError

/-!
# `Vllm.Distributed.MultiConnector`: several KV connectors behind one
(`vllm/distributed/kv_transfer/kv_connector/v1/multi_connector.py`)

A `MultiConnector` has two instances, one beside the scheduler and one in the worker. When a
request finishes, the scheduler side asks every connector whether it saves the request
asynchronously, and counts those beyond the first one. The count goes to the worker with the
metadata of the next step, and each connector that has saved the request takes one off; the one
that finds no count ends the transfer.

* `getNumNewMatchedTokens`, `updateStateAfterAlloc`, `requestFinished`, `buildConnectorMeta`: the
  scheduler side.
* `bindConnectorMetadata`, `getFinished`: the worker side.
* `MultiSystem`: both sides, with the steps that are on their way to the worker.

The connectors themselves are outside: their answers are arguments, in the order of the list.
Their own metadata is theirs and does not appear.
-/

set_option autoImplicit false

namespace Vllm.Distributed

open Vllm.Lib

/-- What a connector answers to `get_num_new_matched_tokens`. -/
abbrev MatchedTokens := Option Int × Bool

/-- What a connector answers to `get_finished`: the ids it has sent and received, each `None` or
a set. -/
abbrev FinishedReport := Option (List String) × Option (List String)

/-- `MultiKVConnectorMetadata`, without the metadata of the connectors. -/
structure MultiKVConnectorMetadata where
  extraAsyncSaves : Option (PyDict String Nat) := none

/-- `MultiConnector`. -/
structure MultiConnector where
  /-- `len(self._connectors)`. -/
  numConnectors : Nat
  /-- `_requests_to_connector`: the connector chosen to load a request. -/
  requestsToConnector : PyDict String Nat := .empty
  /-- `_extra_async_saves`: the remaining asynchronous saves beyond one. -/
  extraAsyncSaves : PyDict String Nat := .empty

namespace MultiConnector

variable (m : MultiConnector)

/-! ### The scheduler side -/

/-- The loop of `get_num_new_matched_tokens` from connector `i` on. -/
def matchLoop (requestId : String) : Nat → List MatchedTokens → Int × Bool → MultiConnector →
    MatchedTokens × MultiConnector
  | _, [], toReturn, m => ((some toReturn.1, toReturn.2), m)
  | i, (toks, loadAsync) :: answers, toReturn, m =>
    match toks with
    | none => ((none, false), m)
    | some toks =>
      if toReturn.1 = 0 ∧ 0 < toks then
        matchLoop requestId (i + 1) answers (toks, loadAsync)
          { m with requestsToConnector := m.requestsToConnector.insert requestId i }
      else matchLoop requestId (i + 1) answers toReturn m

/-- `get_num_new_matched_tokens`. -/
def getNumNewMatchedTokens (requestId : String) (answers : List MatchedTokens) :
    MatchedTokens × MultiConnector :=
  matchLoop requestId 0 answers (0, false) m

/-- `update_state_after_alloc`: what each connector is called with. `emptyBlocks` stands for
`blocks.new_empty()`. -/
def updateStateAfterAlloc {β : Type} (requestId : String) (blocks emptyBlocks : β)
    (numExternalTokens : Int) : List (β × Int) :=
  (List.range m.numConnectors).map fun i =>
    if m.requestsToConnector.get? requestId = some i then (blocks, numExternalTokens)
    else (emptyBlocks, 0)

/-- `build_connector_meta`. -/
def buildConnectorMeta : MultiKVConnectorMetadata × MultiConnector :=
  if m.extraAsyncSaves.entries = [] then ({}, m)
  else ({ extraAsyncSaves := some m.extraAsyncSaves }, { m with extraAsyncSaves := .empty })

/-- The transfer parameters that `request_finished` returns: at most one connector has them. -/
def txferParams {τ : Type} : List (Bool × Option τ) → Option τ → Except PyError (Option τ)
  | [], kvTxferParams => .ok kvTxferParams
  | (_, none) :: answers, kvTxferParams => txferParams answers kvTxferParams
  | (_, some params) :: answers, none => txferParams answers (some params)
  | (_, some _) :: _, some _ =>
    .error (.runtimeError "Only one connector can produce KV transfer params")

/-- `request_finished`. -/
def requestFinished {τ : Type} (requestId : String) (answers : List (Bool × Option τ)) :
    Except PyError ((Bool × Option τ) × MultiConnector) := do
  let asyncSaves := (answers.filter fun answer => answer.1).length
  let kvTxferParams ← txferParams answers none
  let extraAsyncSaves := if 1 < asyncSaves then
      m.extraAsyncSaves.insert requestId (asyncSaves - 1)
    else m.extraAsyncSaves
  return ((decide (0 < asyncSaves), kvTxferParams), { m with
    extraAsyncSaves
    requestsToConnector := m.requestsToConnector.erase requestId })

/-! ### The worker side -/

/-- `bind_connector_metadata`. -/
def bindConnectorMetadata (connectorMetadata : MultiKVConnectorMetadata) : MultiConnector :=
  match connectorMetadata.extraAsyncSaves with
  | none => m
  | some saves => { m with
      extraAsyncSaves := saves.entries.foldl (fun d e => d.insert e.1 e.2) m.extraAsyncSaves }

/-- One id of `sending`: it is finished when no extra save is left. -/
def sendingStep (st : List String × PyDict String Nat) (reqId : String) :
    Except PyError (List String × PyDict String Nat) :=
  match st.2.get? reqId with
  | none => .ok (st.1.insert reqId, st.2)
  | some extraPending => do
      pyAssert (0 < extraPending) "extra_pending > 0"
      if extraPending = 1 then return (st.1, st.2.erase reqId)
      else return (st.1, st.2.insert reqId (extraPending - 1))

/-- The ids that a connector has sent. -/
def sendingLoop (sending : List String) (st : List String × PyDict String Nat) :
    Except PyError (List String × PyDict String Nat) :=
  sending.foldlM sendingStep st

/-- The loop of `get_finished` over the connectors. -/
def finishedLoop : List FinishedReport → List String → List String → PyDict String Nat →
    Except PyError (List String × List String × PyDict String Nat)
  | [], finishedSending, finishedRecving, saves => .ok (finishedSending, finishedRecving, saves)
  | (sending, recving) :: reports, finishedSending, finishedRecving, saves => do
      let (finishedSending, saves) ← sendingLoop (sending.getD []) (finishedSending, saves)
      finishedLoop reports finishedSending (finishedRecving.union (recving.getD [])) saves

/-- `set or None`. -/
def orNone (ids : List String) : Option (List String) := if ids = [] then none else some ids

/-- `get_finished`. -/
def getFinished (reports : List FinishedReport) :
    Except PyError (FinishedReport × MultiConnector) := do
  let (finishedSending, finishedRecving, saves) ← finishedLoop reports [] [] m.extraAsyncSaves
  return ((orNone finishedSending, orNone finishedRecving), { m with extraAsyncSaves := saves })

end MultiConnector

/-! ### Both sides -/

/-- A step on its way to the worker: what `SchedulerOutput` carries of the finished requests. -/
structure ConnectorStep where
  finishedReqIds : List String
  metadata : MultiKVConnectorMetadata

/-- The two sides and the steps between them. -/
structure MultiSystem where
  scheduler : MultiConnector
  worker : MultiConnector
  /-- The ids that the next step carries. -/
  finishedReqIds : List String := []
  /-- The steps that the worker has not executed, the oldest first. -/
  steps : List ConnectorStep := []
  /-- History: the answers to the latest `get_num_new_matched_tokens` of a request. -/
  lastQuery : String → Option (List MatchedTokens) := fun _ => none
  /-- History: the connectors that save a request and have not reported it. -/
  saving : String → List Nat := fun _ => []
  /-- History: how many requests under an id were finished with an asynchronous save. -/
  savedRequests : String → Nat := fun _ => 0
  /-- History: how often the worker has returned an id in `finished_sending`. -/
  returned : String → Nat := fun _ => 0

/-- What can happen next, with the answers of the connectors. -/
inductive MultiOp where
  | getNumNewMatchedTokens (requestId : String) (answers : List MatchedTokens)
  | updateStateAfterAlloc (requestId : String)
  | requestFinished (requestId : String) (answers : List (Bool × Option Unit))
  /-- `schedule` builds the metadata and emits the step. -/
  | schedule
  /-- The worker binds the metadata of the oldest step and asks the connectors what they have
  finished. -/
  | execute (reports : List FinishedReport)

namespace MultiSystem

/-- Two instances over `numConnectors` connectors. -/
def init (numConnectors : Nat) : MultiSystem where
  scheduler := { numConnectors }
  worker := { numConnectors }

/-- The connectors that answered `True`. -/
def savers (answers : List (Bool × Option Unit)) : List Nat :=
  (List.range answers.length).filter fun i => (answers[i]?).any fun answer => answer.1

/-- The ids that the connector `i` reports as sent. -/
def sentBy (reports : List FinishedReport) (i : Nat) : List String :=
  ((reports[i]?).bind fun report => report.1).getD []

/-- One operation. `update_state_after_alloc` changes the connectors only. -/
def step (s : MultiSystem) : MultiOp → Except PyError MultiSystem
  | .getNumNewMatchedTokens requestId answers =>
    .ok { s with
      scheduler := (s.scheduler.getNumNewMatchedTokens requestId answers).2
      lastQuery := Function.update s.lastQuery requestId (some answers) }
  | .updateStateAfterAlloc _ => .ok s
  | .requestFinished requestId answers => do
      let (_, scheduler) ← s.scheduler.requestFinished requestId answers
      return { s with
        scheduler
        finishedReqIds := s.finishedReqIds.insert requestId
        lastQuery := Function.update s.lastQuery requestId none
        saving := Function.update s.saving requestId (savers answers)
        savedRequests := Function.update s.savedRequests requestId
          (s.savedRequests requestId + if savers answers = [] then 0 else 1) }
  | .schedule =>
    let (metadata, scheduler) := s.scheduler.buildConnectorMeta
    .ok { s with
      scheduler
      finishedReqIds := []
      steps := s.steps ++ [{ finishedReqIds := s.finishedReqIds, metadata }] }
  | .execute reports =>
    match s.steps with
    | [] => .error (.indexError "pop from an empty deque")
    | step :: steps => do
        let (out, worker) ← (s.worker.bindConnectorMetadata step.metadata).getFinished reports
        return { s with
          worker
          steps
          saving := fun reqId => (s.saving reqId).filter fun i =>
            decide (reqId ∉ sentBy reports i)
          returned := fun reqId => s.returned reqId +
            if reqId ∈ out.1.getD [] then 1 else 0 }

end MultiSystem

end Vllm.Distributed
