import Vllm.Lib.PyDict
import Vllm.Lib.PyError
import Mathlib.Data.List.Basic
import Mathlib.Logic.Function.Basic

/-!
# `Vllm.V1.Engine.OutputProcessor`: from engine outputs to request outputs
(`vllm/v1/engine/output_processor.py`, `vllm/v1/engine/parallel_sampling.py`)

The `OutputProcessor` keeps a `RequestState` for each request in the engine and turns the outputs
of the engine core into the outputs of the requests. A request with several completions is fanned
out to child requests that share a `ParentRequest`, and the parent decides what is handed over
when a child has an output.

* `RequestState.makeRequestOutput`: the output of a request, in the three output kinds.
* `ParentRequest.getOutputs`: the outputs of a parent.
* `OutputProcessor.processOutputs`, `abortRequests`: the two ways in which requests end.

A `ParentRequest` is shared by the states of its children and by `parent_requests`, so it lives in
a heap. The detokenizer is an interface here: what it decodes does not matter for the requests.
Statistics, tracing and the LoRA states are left out.
-/

set_option autoImplicit false

namespace Vllm.V1.Engine

open Vllm.Lib

/-- `RequestOutputKind`. -/
inductive RequestOutputKind where
  | cumulative
  | delta
  | finalOnly
deriving DecidableEq, Repr

/-- `FinishReason`. -/
inductive FinishReason where
  | stop
  | length
  | abort
  | error
deriving DecidableEq, Repr

/-- What the processor uses of an `IncrementalDetokenizer`. -/
class Detokenizer (δ : Type) where
  outputTokenIds : δ → List Int
  /-- `update`: the matched stop string, if any. -/
  update : δ → List Int → Bool → Option String × δ
  getNextOutputText : δ → Bool → Bool → String × δ

/-- `IncrementalDetokenizer`, which is used when there is no tokenizer: it only collects. -/
structure IncrementalDetokenizer where
  tokenIds : List Int := []
deriving DecidableEq

instance : Detokenizer IncrementalDetokenizer where
  outputTokenIds d := d.tokenIds
  update d newTokenIds _ := (none, { d with tokenIds := d.tokenIds ++ newTokenIds })
  getNextOutputText d _ _ := ("", d)

/-- `LogprobsProcessor`: the log probabilities of each position so far. -/
structure LogprobsProcessor (lp : Type) where
  logprobs : Option (List lp) := none
  promptLogprobs : Option (List lp) := none
deriving DecidableEq

/-- `CompletionOutput`. -/
structure CompletionOutput (lp : Type) where
  index : Nat
  text : String
  tokenIds : List Int
  logprobs : Option (List lp)
  finishReason : Option FinishReason
  stopReason : Option String
deriving DecidableEq

/-- `CompletionOutput.finished`. -/
def CompletionOutput.finished {lp : Type} (output : CompletionOutput lp) : Bool :=
  output.finishReason.isSome

/-- `RequestOutput`. An entry of `outputs` that no child has filled is `None`. -/
structure RequestOutput (lp : Type) where
  requestId : String
  promptLogprobs : Option (List lp)
  outputs : List (Option (CompletionOutput lp))
  finished : Bool
deriving DecidableEq

/-- `RequestOutput | PoolingRequestOutput`. -/
inductive ProcessedOutput (lp : Type) where
  | request (output : RequestOutput lp)
  | pooling (requestId : String) (finished : Bool)
deriving DecidableEq

/-- `EngineCoreOutput`, as the processor reads it. -/
structure EngineCoreOutput (lp : Type) where
  requestId : String
  newTokenIds : List Int := []
  newLogprobs : Option (List lp) := none
  newPromptLogprobs : Option (List lp) := none
  /-- `pooling_output is not None`. -/
  hasPoolingOutput : Bool := false
  finishReason : Option FinishReason := none
  stopReason : Option String := none

/-- `LogprobsProcessor.update_from_output`. -/
def LogprobsProcessor.updateFromOutput {lp : Type} (p : LogprobsProcessor lp)
    (output : EngineCoreOutput lp) : Except PyError (LogprobsProcessor lp) := do
  let p ← (match output.newLogprobs, p.logprobs with
    | none, _ => .ok p
    | some _, none => .error (.assertionError "self.logprobs is not None")
    | some new, some logprobs => .ok { p with logprobs := some (logprobs ++ new) })
  match output.newPromptLogprobs, p.promptLogprobs with
  | none, _ => .ok p
  | some _, none => .error (.assertionError "self.prompt_logprobs is not None")
  | some new, some logprobs => .ok { p with promptLogprobs := some (logprobs ++ new) }

/-! ### Parents -/

/-- The address of a `ParentRequest`. -/
abbrev ParentRef := Nat

/-- `ParentRequest`, with what `SamplingParams` says about it. -/
structure ParentRequest (lp : Type) where
  requestId : String
  n : Nat
  outputKind : RequestOutputKind
  childRequests : List String := []
  outputAggregator : List (Option (CompletionOutput lp)) := []
  /-- The loop variable of `add_request` of the engine: how many children are added. -/
  added : Nat := 0
  /-- History: the indices of the children that have ended, in order. -/
  ended : List Nat := []
deriving DecidableEq

namespace ParentRequest

variable {lp : Type}

/-- `__init__`. -/
def init (requestId : String) (n : Nat) (outputKind : RequestOutputKind) : ParentRequest lp where
  requestId
  n
  outputKind
  outputAggregator := if outputKind = .finalOnly then List.replicate n none else []

/-- The id of a child. -/
def childReqId (p : ParentRequest lp) (index : Nat) : String := s!"{index}_{p.requestId}"

/-- `get_child_info`, without the sampling parameters of the child. -/
def getChildInfo (p : ParentRequest lp) (index : Nat) : String × ParentRequest lp :=
  (p.childReqId index, { p with childRequests := p.childRequests.insert (p.childReqId index) })

/-- `get_outputs`. -/
def getOutputs (p : ParentRequest lp) (childRequestId : String) (output : CompletionOutput lp) :
    Except PyError (List (Option (CompletionOutput lp)) × Bool × ParentRequest lp) :=
  let alreadyFinishedAndReturned := output.finished ∧ childRequestId ∉ p.childRequests
  let p := if output.finished then
      { p with childRequests := p.childRequests.erase childRequestId }
    else p
  if p.outputKind ≠ .finalOnly then
    .ok (if alreadyFinishedAndReturned then [] else [some output], p.childRequests.isEmpty, p)
  else if p.outputAggregator.length ≤ output.index then
    .error (.indexError "list assignment index out of range")
  else
    let p := { p with outputAggregator := p.outputAggregator.set output.index (some output) }
    .ok (if p.childRequests = [] then p.outputAggregator else [], p.childRequests.isEmpty, p)

end ParentRequest

/-! ### Requests -/

/-- The address of a `RequestOutputCollector`. -/
abbrev QueueRef := Nat

/-- `RequestState`. -/
structure RequestState (δ lp : Type) where
  requestId : String
  parentReq : Option ParentRef := none
  requestIndex : Nat := 0
  outputKind : RequestOutputKind
  logprobsProcessor : Option (LogprobsProcessor lp)
  detokenizer : Option δ
  queue : Option QueueRef := none
  streamInterval : Nat := 1
  sentTokensOffset : Nat := 0
deriving DecidableEq

/-- `l[-k:]`. -/
def lastElements {α : Type} (l : List α) (k : Nat) : List α :=
  if k = 0 then l else l.drop (l.length - k)

namespace RequestState

variable {δ lp : Type} [Detokenizer δ]

/-- `_new_completion_output`. -/
def newCompletionOutput (st : RequestState δ lp) (tokenIds : List Int)
    (finishReason : Option FinishReason) (stopReason : Option String) :
    Except PyError (CompletionOutput lp × RequestState δ lp) :=
  match st.detokenizer, st.logprobsProcessor with
  | none, _ => .error (.assertionError "self.detokenizer is not None")
  | _, none => .error (.assertionError "self.logprobs_processor is not None")
  | some detokenizer, some logprobsProcessor =>
    let finished := finishReason.isSome
    let delta := decide (st.outputKind = .delta)
    let (text, detokenizer) := Detokenizer.getNextOutputText detokenizer finished delta
    let tokenIds := if delta then tokenIds else Detokenizer.outputTokenIds detokenizer
    let logprobs := match logprobsProcessor.logprobs with
      | none => none
      | some logprobs =>
        some (if delta ∧ logprobs ≠ [] then lastElements logprobs tokenIds.length
          else logprobs)
    .ok ({ index := st.requestIndex
           text
           tokenIds
           logprobs
           finishReason
           stopReason := if finished then stopReason else none },
      { st with detokenizer := some detokenizer })

/-- `_new_request_output`, for completions. -/
def newRequestOutput (st : RequestState δ lp) (requestId : String)
    (outputs : List (Option (CompletionOutput lp))) (finished : Bool) :
    Except PyError (RequestOutput lp × RequestState δ lp) :=
  match st.logprobsProcessor with
  | none => .error (.assertionError "self.logprobs_processor is not None")
  | some logprobsProcessor =>
    let output : RequestOutput lp :=
      { requestId
        promptLogprobs := logprobsProcessor.promptLogprobs
        outputs
        finished }
    if st.outputKind = .delta then
      -- `pop_prompt_logprobs`
      let left := logprobsProcessor.promptLogprobs.map fun _ => []
      .ok (output, { st with
        logprobsProcessor := some { logprobsProcessor with promptLogprobs := left } })
    else .ok (output, st)

/-- The tokens that an output carries, unless the stream interval holds it back. -/
def streamedTokens (st : RequestState δ lp) (newTokenIds : List Int) (finished : Bool) :
    Except PyError (Option (List Int) × RequestState δ lp) :=
  if st.streamInterval ≤ 1 then .ok (some newTokenIds, st)
  else
    match st.detokenizer with
    | none => .error (.assertionError "self.detokenizer is not None")
    | some detokenizer =>
      let tokens := Detokenizer.outputTokenIds detokenizer
      if finished = false ∧ st.sentTokensOffset ≠ 0 ∧
          ¬ ((st.streamInterval : Int) ≤ tokens.length - (st.sentTokensOffset : Int)) then
        .ok (none, st)
      else if st.outputKind = .delta then
        .ok (some (tokens.drop st.sentTokensOffset),
          { st with sentTokensOffset := tokens.length })
      else .ok (some newTokenIds, st)

/-- `make_request_output`, with the heap of the parents. -/
def makeRequestOutput (st : RequestState δ lp) (parents : ParentRef → ParentRequest lp)
    (newTokenIds : List Int) (hasPoolingOutput : Bool) (finishReason : Option FinishReason)
    (stopReason : Option String) :
    Except PyError (Option (ProcessedOutput lp) × RequestState δ lp ×
      (ParentRef → ParentRequest lp)) := do
  let finished := finishReason.isSome
  if finished = false ∧ st.outputKind = .finalOnly then return (none, st, parents)
  else
    let (tokens, st) ← st.streamedTokens newTokenIds finished
    match tokens with
    | none => return (none, st, parents)
    | some newTokenIds =>
      if hasPoolingOutput then return (some (.pooling st.requestId finished), st, parents)
      else
        let (output, st) ← st.newCompletionOutput newTokenIds finishReason stopReason
        match st.parentReq with
        | none =>
          let (out, st) ← st.newRequestOutput st.requestId [some output] finished
          return (some (.request out), st, parents)
        | some parentReq =>
          let (outputs, finished, parent) ←
            (parents parentReq).getOutputs st.requestId output
          let parents := Function.update parents parentReq parent
          if outputs = [] then return (none, st, parents)
          else
            let (out, st) ← st.newRequestOutput parent.requestId outputs finished
            return (some (.request out), st, parents)

end RequestState

/-! ### The processor -/

/-- What the processor hands over: into the queue of the request, or to the caller. -/
structure Delivery (lp : Type) where
  parentReq : Option ParentRef
  queue : Option QueueRef
  output : ProcessedOutput lp
deriving DecidableEq

/-- `OutputProcessor`. -/
structure OutputProcessor (δ lp : Type) where
  streamInterval : Nat := 1
  requestStates : PyDict String (RequestState δ lp) := .empty
  parentRequests : PyDict String ParentRef := .empty
  /-- The `ParentRequest` objects. -/
  parents : ParentRef → ParentRequest lp
  numParents : Nat := 0
  /-- History: what was handed over, in order. -/
  delivered : List (Delivery lp) := []

namespace OutputProcessor

variable {δ lp : Type} [Detokenizer δ]

/-- `add_request`. -/
def addRequest (s : OutputProcessor δ lp) (requestId : String) (outputKind : RequestOutputKind)
    (logprobsProcessor : Option (LogprobsProcessor lp)) (detokenizer : Option δ)
    (parentReq : Option ParentRef) (requestIndex : Nat) (queue : Option QueueRef) :
    Except PyError (OutputProcessor δ lp) :=
  if s.requestStates.contains requestId then
    .error (.valueError s!"Request id {requestId} already running.")
  else .ok { s with
    requestStates := s.requestStates.insert requestId
      { requestId
        parentReq
        requestIndex
        outputKind
        logprobsProcessor
        detokenizer
        queue
        streamInterval := s.streamInterval }
    parentRequests := match parentReq with
      | none => s.parentRequests
      | some p => s.parentRequests.insert (s.parents p).requestId p }

/-- The state of a request leaves `request_states`. Its index is noted in the history. -/
def popState (s : OutputProcessor δ lp) (st : RequestState δ lp) : OutputProcessor δ lp :=
  { s with
    requestStates := s.requestStates.erase st.requestId
    parents := match st.parentReq with
      | none => s.parents
      | some p => Function.update s.parents p
          { s.parents p with ended := (s.parents p).ended ++ [st.requestIndex] } }

/-- The output of a request is put into its queue or returned. -/
def deliver (s : OutputProcessor δ lp) (st : RequestState δ lp)
    (output : Option (ProcessedOutput lp)) : OutputProcessor δ lp :=
  match output with
  | none => s
  | some output => { s with
      delivered := s.delivered ++ [{ parentReq := st.parentReq, queue := st.queue, output }] }

/-- The detokenizer and the log probabilities take the new tokens: the finish and the stop reason
are those of the engine, or a stop string. -/
def detokenize (st : RequestState δ lp) (output : EngineCoreOutput lp) :
    Except PyError (Option FinishReason × Option String × RequestState δ lp) :=
  if output.hasPoolingOutput then .ok (output.finishReason, output.stopReason, st)
  else
    match st.detokenizer, st.logprobsProcessor with
    | none, _ => .error (.assertionError "req_state.detokenizer is not None")
    | _, none => .error (.assertionError "req_state.logprobs_processor is not None")
    | some detokenizer, some logprobsProcessor => do
        let (stopString, detokenizer) := Detokenizer.update detokenizer output.newTokenIds
          (decide (output.finishReason = some .stop))
        let logprobsProcessor ← logprobsProcessor.updateFromOutput output
        let st := { st with
          detokenizer := some detokenizer
          logprobsProcessor := some logprobsProcessor }
        match stopString with
        | some stopString =>
          if stopString = "" then return (output.finishReason, output.stopReason, st)
          else return (some .stop, some stopString, st)
        | none => return (output.finishReason, output.stopReason, st)

/-- One iteration of `process_outputs`: the processor and, if the engine has to abort the request,
its id. -/
def processOutput (s : OutputProcessor δ lp) (output : EngineCoreOutput lp) :
    Except PyError (Option String × OutputProcessor δ lp) :=
  match s.requestStates.get? output.requestId with
  | none => .ok (none, s)
  | some st => do
      let (finishReason, stopReason, st) ← detokenize st output
      let (out, st, parents) ← st.makeRequestOutput s.parents output.newTokenIds
        output.hasPoolingOutput finishReason stopReason
      let s := { s with parents, requestStates := s.requestStates.insert output.requestId st }
      let s := s.deliver st out
      if finishReason.isSome then
        let s := s.popState st
        let parentRequests := match st.parentReq with
          | none => s.parentRequests
          | some p =>
            if (s.parents p).childRequests = [] then
              s.parentRequests.erase (s.parents p).requestId
            else s.parentRequests
        let abort := if output.finishReason.isSome then none else some output.requestId
        return (abort, { s with parentRequests })
      else return (none, s)

/-- `process_outputs`: the ids that the engine has to abort. -/
def processOutputs (s : OutputProcessor δ lp) (outputs : List (EngineCoreOutput lp)) :
    Except PyError (List String × OutputProcessor δ lp) :=
  outputs.foldlM (fun (acc : List String × OutputProcessor δ lp) output => do
    let (abort, s) ← acc.2.processOutput output
    return (acc.1 ++ abort.toList, s)) ([], s)

/-- A request in `request_states` is aborted. Without a queue it has no output. -/
def abortState (s : OutputProcessor δ lp) (st : RequestState δ lp) :
    Except PyError (OutputProcessor δ lp) := do
  let s := s.popState st
  match st.queue with
  | none => return s
  | some _ =>
    let (out, st, parents) ← st.makeRequestOutput s.parents [] st.detokenizer.isNone
      (some .abort) none
    return { s with parents }.deliver st out

/-- `list(set)`: the elements in the order in which the set yields them. -/
def setOrder (order : List String → List String) (ids : List String) : List String :=
  if (order ids).isPerm ids then order ids else ids

/-- One iteration of `abort_requests`, with the ids that are aborted. An id that is not running may
be that of a parent, whose children are aborted by a nested call; `fuel` bounds the nesting. -/
def abortRequest (order : List String → List String) :
    Nat → List String × OutputProcessor δ lp → String →
      Except PyError (List String × OutputProcessor δ lp)
  | 0, _, _ => .error (.runtimeError "maximum recursion depth exceeded")
  | fuel + 1, (aborted, s), requestId =>
    match s.requestStates.get? requestId with
    | some st => do
        let s ← s.abortState st
        return (aborted ++ [requestId], s)
    | none =>
      match s.parentRequests.get? requestId with
      | none => .ok (aborted, s)
      | some parent => do
          let children := setOrder order (s.parents parent).childRequests
          let (aborted, s) ← children.foldlM (abortRequest order fuel) (aborted, s)
          return (aborted, { s with parentRequests := s.parentRequests.erase requestId })

/-- `abort_requests`. An id of a child is longer than that of its parent, so calls are not nested
deeper than there are parents. -/
def abortRequests (order : List String → List String) (s : OutputProcessor δ lp)
    (requestIds : List String) : Except PyError (List String × OutputProcessor δ lp) :=
  requestIds.foldlM (abortRequest order (s.parentRequests.size + 2)) ([], s)

end OutputProcessor

/-! ### Runs -/

/-- What can happen next. A call with several outputs or ids is a run of these. -/
inductive OutputOp (δ lp : Type) where
  /-- `add_request` of the engine, for one completion. -/
  | addRequest (requestId : String) (outputKind : RequestOutputKind)
      (logprobsProcessor : Option (LogprobsProcessor lp)) (detokenizer : Option δ)
      (queue : Option QueueRef)
  /-- `add_request` of the engine, for `n` completions: the parent. -/
  | newParent (requestId : String) (n : Nat) (outputKind : RequestOutputKind)
  /-- The next child of the parent. -/
  | addChild (parent : ParentRef) (logprobsProcessor : LogprobsProcessor lp) (detokenizer : δ)
      (queue : Option QueueRef)
  | processOutput (output : EngineCoreOutput lp)
  | abortRequest (order : List String → List String) (requestId : String)

namespace OutputProcessor

variable {δ lp : Type} [Detokenizer δ]

/-- One operation. -/
def step (s : OutputProcessor δ lp) : OutputOp δ lp → Except PyError (OutputProcessor δ lp)
  | .addRequest requestId outputKind logprobsProcessor detokenizer queue =>
    s.addRequest requestId outputKind logprobsProcessor detokenizer none 0 queue
  | .newParent requestId n outputKind =>
    .ok { s with
      parents := Function.update s.parents s.numParents (.init requestId n outputKind)
      numParents := s.numParents + 1 }
  | .addChild parent logprobsProcessor detokenizer queue =>
    let p := s.parents parent
    let (childReqId, p') := p.getChildInfo p.added
    let s := { s with
      parents := Function.update s.parents parent { p' with added := p.added + 1 } }
    s.addRequest childReqId p.outputKind (some logprobsProcessor) (some detokenizer)
      (some parent) p.added queue
  | .processOutput output => do
      let (_, s) ← s.processOutput output
      return s
  | .abortRequest order requestId => do
      let (_, s) ← s.abortRequests order [requestId]
      return s

end OutputProcessor

end Vllm.V1.Engine
