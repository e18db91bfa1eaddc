import Vllm.V1.Sample.LogitsProcessor
import Vllm.V1.Worker.BlockTable

/-!
# `Vllm.V1.Worker.InputBatch`: the persistent batch of a worker
(`vllm/v1/worker/gpu_input_batch.py`)

The `InputBatch` keeps the requests of a step in rows. What it knows of a request is spread over
lists, arrays and dicts by row, and these are changed together when a request is removed or added,
when the rows are condensed and when two rows are swapped.

* `addRequest`, `removeRequest`: a request takes the lowest row that was removed in the step.
* `condense`: the last rows move into the rows that are left empty.
* `swapStates`: two rows change places.
* `refreshMetadata`: the logits processors take the log of the step.
* `rowAt`: all that the batch has in a row.
* `BatchSystem.step`: the operations on the batch, with what belongs to each request beside it.

Arrays are functions of the row. Rows are wide enough for the tokens of a request, whose length is
checked before. Sets and dicts by request id are kept with them, but `sampling_metadata`, the
prompt log probabilities and what asynchronous scheduling caches of the last step are left out.
-/

set_option autoImplicit false

namespace Vllm.V1.Worker

open Vllm.Lib Vllm.V1.Sample Function

/-- `LoRARequest`. -/
structure LoRARequest where
  loraName : String
  loraIntId : Nat
deriving DecidableEq

/-- `PoolingParams`, as the batch reads it. -/
structure PoolingParams where
  requiresTokenIds : Bool := false
deriving DecidableEq

/-- `CachedRequestState`. The embedding of a token is an `ε`, a generator is a `γ`. -/
structure CachedRequestState (ε γ : Type) where
  reqId : String
  promptTokenIds : Option (List Int)
  promptEmbeds : Option (List ε) := none
  samplingParams : Option Sample.SamplingParams := none
  poolingParams : Option PoolingParams := none
  generator : Option γ := none
  blockIds : List (List Nat) := []
  numComputedTokens : Nat := 0
  outputTokenIds : OutputRef
  loraRequest : Option LoRARequest := none
deriving DecidableEq

/-- `length_from_prompt_token_ids_or_embeds`. -/
def lengthFromPromptTokenIdsOrEmbeds {ε : Type} (promptTokenIds : Option (List Int))
    (promptEmbeds : Option (List ε)) : Except PyError Nat :=
  match promptTokenIds, promptEmbeds with
  | none, none =>
    .error (.valueError "Neither prompt_token_ids nor prompt_embeds were defined.")
  | none, some embeds => .ok embeds.length
  | some tokens, none => .ok tokens.length
  | some tokens, some embeds =>
    if embeds.length ≠ tokens.length then
      .error (.valueError ("Prompt token ids and prompt embeds had different lengths" ++
        s!" prompt_token_ids={tokens.length} prompt_embeds={embeds.length}"))
    else .ok tokens.length

/-- The sets of request ids of the batch. -/
inductive RequestSet where
  | greedy
  | random
  | topP
  | topK
  | specDecodeUnsupported
  | frequencyPenalties
  | presencePenalties
  | repetitionPenalties
  | hasAllowedTokenIds
deriving DecidableEq, Repr

/-- `is_spec_decode_unsupported`. -/
def isSpecDecodeUnsupported (params : Sample.SamplingParams) : Bool :=
  decide (params.frequencyPenalty ≠ 0) || decide (params.presencePenalty ≠ 0) ||
    decide (params.repetitionPenalty ≠ 1) || decide (samplingEps < params.minP) ||
    params.logprobs.isSome

/-- `InputBatch`. -/
structure InputBatch (ε γ : Type) where
  isPoolingModel : Bool
  isSpecDecode : Bool := false
  maxNumReqs : Nat
  vocabSize : Nat
  /-- `_req_ids`. -/
  reqIds : List (Option String) := []
  reqIdToIndex : PyDict String Nat := .empty
  reqOutputTokenIds : List (Option OutputRef) := []
  specTokenIds : List (List Int) := List.replicate maxNumReqs []
  tokenIdsCpu : Nat → Nat → Int := fun _ _ => 0
  isTokenIds : Nat → Nat → Bool := fun _ _ => false
  reqPromptEmbeds : PyDict Nat (List ε) := .empty
  numTokens : Nat → Nat := fun _ => 0
  numTokensNoSpec : Nat → Nat := fun _ => 0
  numPromptTokens : Nat → Nat := fun _ => 0
  numComputedTokensCpu : Nat → Nat := fun _ => 0
  /-- `block_table.block_tables`. -/
  blockTables : List BlockTable
  temperatureCpu : Nat → ℚ := fun _ => 0
  topPCpu : Nat → ℚ := fun _ => 0
  topKCpu : Nat → Int := fun _ => 0
  frequencyPenaltiesCpu : Nat → ℚ := fun _ => 0
  presencePenaltiesCpu : Nat → ℚ := fun _ => 0
  repetitionPenaltiesCpu : Nat → ℚ := fun _ => 0
  numAcceptedTokensCpu : Nat → Nat := fun _ => 1
  requestLoraMapping : Nat → Nat := fun _ => 0
  loraIdToRequestIds : PyDict Nat (List String) := .empty
  loraIdToLoraRequest : PyDict Nat LoRARequest := .empty
  generators : PyDict Nat γ := .empty
  numLogprobs : PyDict String Int := .empty
  requestSets : RequestSet → List String := fun _ => []
  batchUpdateBuilder : BatchUpdateBuilder := {}
  /-- The mask of a row says which tokens are not allowed. It is allocated when it is needed. -/
  allowedTokenIdsMaskCpuTensor : Option (Nat → Nat → Bool) := none
  badWordsTokenIds : PyDict Nat (List (List Nat)) := .empty
  logitsProcessingNeedsTokenIds : Nat → Bool := fun _ => false
  poolingParams : PyDict String PoolingParams := .empty
  /-- `logitsprocs`. -/
  minP : MinPLogitsProcessor := {}
  logitBias : LogitBiasLogitsProcessor := {}
  minTokens : MinTokensLogitsProcessor := {}

/-- `row[start : start + len(values)] = values`. -/
def writeSlice {α : Type} (row : Nat → α) (start : Nat) (values : List α) : Nat → α :=
  fun j => if start ≤ j then (values[j - start]?).getD (row j) else row j

/-- `l[i] = v`. -/
def setItem {α : Type} (l : List α) (i : Nat) (v : α) : Except PyError (List α) :=
  if i < l.length then .ok (l.set i v)
  else .error (.indexError "list assignment index out of range")

/-- `l[i]`. -/
def getItem {α : Type} (l : List α) (i : Nat) : Except PyError α :=
  match l[i]? with
  | some v => .ok v
  | none => .error (.indexError "list index out of range")

/-- `a[i1], a[i2] = a[i2], a[i1]`, for numbers. -/
def swapEntries {α : Type} (a : Nat → α) (i1 i2 : Nat) : Nat → α :=
  update (update a i1 (a i2)) i2 (a i1)

/-- `l[i1], l[i2] = l[i2], l[i1]`. -/
def swapItems {α : Type} (l : List α) (i1 i2 : Nat) : Except PyError (List α) := do
  let v1 ← getItem l i1
  let v2 ← getItem l i2
  return (l.set i1 v2).set i2 v1

/-- `d[key] = value` if there is a value, else `d.pop(key, None)`. -/
def putOrPop {ν : Type} (d : PyDict Nat ν) (key : Nat) (value : Option ν) : PyDict Nat ν :=
  match value with
  | some v => d.insert key v
  | none => d.erase key

/-- `swap_dict_values`. -/
def swapDictValues {ν : Type} (d : PyDict Nat ν) (key1 key2 : Nat) : PyDict Nat ν :=
  let v1 := d.get? key1
  let v2 := d.get? key2
  putOrPop (putOrPop d key2 v1) key1 v2

namespace InputBatch

variable {ε γ : Type}

/-- `__init__`. -/
def init (isPoolingModel isSpecDecode : Bool) (maxNumReqs vocabSize : Nat)
    (blockTables : List BlockTable) : InputBatch ε γ where
  isPoolingModel
  isSpecDecode
  maxNumReqs
  vocabSize
  blockTables

/-- `num_reqs`. -/
def numReqs (b : InputBatch ε γ) : Nat := b.reqIdToIndex.size

/-! ### A request is added -/

/-- `_register_add_request`. -/
def registerAddRequest (b : InputBatch ε γ) (request : CachedRequestState ε γ) :
    Except PyError (Nat × InputBatch ε γ) :=
  let (popped, builder) := b.batchUpdateBuilder.popRemoved
  let newReqIndex := popped.getD b.numReqs
  if ¬ newReqIndex < b.maxNumReqs then
    .error (.assertionError "new_req_index < self.max_num_reqs")
  else
    let added := match request.samplingParams with
      | none => builder.added
      | some params => builder.added ++
          [{ index := newReqIndex
             params
             promptTokIds := request.promptTokenIds
             outputTokIds := request.outputTokenIds }]
    .ok (newReqIndex, { b with
      batchUpdateBuilder := { builder with
        batchChanged := true
        added } })

/-- The id and the lists of the row. -/
def addReqId (b : InputBatch ε γ) (request : CachedRequestState ε γ) (reqIndex : Nat) :
    Except PyError (InputBatch ε γ) :=
  if reqIndex = b.reqIds.length then
    .ok { b with
      reqIds := b.reqIds ++ [some request.reqId]
      reqOutputTokenIds := b.reqOutputTokenIds ++ [some request.outputTokenIds]
      specTokenIds := b.specTokenIds ++ [[]]
      reqIdToIndex := b.reqIdToIndex.insert request.reqId reqIndex }
  else do
    let reqIds ← setItem b.reqIds reqIndex (some request.reqId)
    let reqOutputTokenIds ← setItem b.reqOutputTokenIds reqIndex (some request.outputTokenIds)
    let specTokenIds ← setItem b.specTokenIds reqIndex []
    return { b with
      reqIds
      reqOutputTokenIds
      specTokenIds
      reqIdToIndex := b.reqIdToIndex.insert request.reqId reqIndex }

/-- The tokens of the request and their numbers. -/
def addTokens (b : InputBatch ε γ) (request : CachedRequestState ε γ) (outputTokenIds : List Int)
    (numPromptTokens reqIndex : Nat) : InputBatch ε γ :=
  let numTokens := numPromptTokens + outputTokenIds.length
  let tokens := match request.promptTokenIds with
    | some promptTokenIds => writeSlice (b.tokenIdsCpu reqIndex) 0 promptTokenIds
    | none => b.tokenIdsCpu reqIndex
  let isToken := writeSlice (b.isTokenIds reqIndex) 0
    (List.replicate numPromptTokens request.promptTokenIds.isSome)
  { b with
    numPromptTokens := update b.numPromptTokens reqIndex numPromptTokens
    tokenIdsCpu := update b.tokenIdsCpu reqIndex
      (writeSlice tokens numPromptTokens outputTokenIds)
    isTokenIds := update b.isTokenIds reqIndex
      (writeSlice isToken numPromptTokens (List.replicate outputTokenIds.length true))
    reqPromptEmbeds := match request.promptEmbeds with
      | some embeds => b.reqPromptEmbeds.insert reqIndex embeds
      | none => b.reqPromptEmbeds
    numTokens := update b.numTokens reqIndex numTokens
    numTokensNoSpec := update b.numTokensNoSpec reqIndex numTokens
    numComputedTokensCpu :=
      update b.numComputedTokensCpu reqIndex request.numComputedTokens }

/-- `block_table.add_row`. -/
def addBlockRow (blockTables : List BlockTable) (blockIds : List (List Nat)) (reqIndex : Nat) :
    Except PyError (List BlockTable) :=
  match blockTables, blockIds with
  | [], _ => .ok []
  | _ :: _, [] => .error (.indexError "tuple index out of range")
  | table :: tables, ids :: blockIds => do
      let table ← table.addRow ids reqIndex
      let tables ← addBlockRow tables blockIds reqIndex
      return table :: tables

/-- The sets that a sampling request is added to. -/
def requestSetsOf (b : InputBatch ε γ) (params : Sample.SamplingParams) : RequestSet → Bool
  | .greedy => decide (params.samplingType = .greedy)
  | .random => decide (params.samplingType ≠ .greedy)
  | .topP => decide (params.topP < 1)
  | .topK => decide (0 < params.topK ∧ params.topK < b.vocabSize)
  | .specDecodeUnsupported => b.isSpecDecode && isSpecDecodeUnsupported params
  | .frequencyPenalties => decide (params.frequencyPenalty ≠ 0)
  | .presencePenalties => decide (params.presencePenalty ≠ 0)
  | .repetitionPenalties => decide (params.repetitionPenalty ≠ 1)
  | .hasAllowedTokenIds => params.allowedTokenIds.any fun ids => !ids.isEmpty

/-- The mask of a row for a list of allowed tokens. -/
def allowedMask (allowed : List Nat) : Nat → Bool := fun token => decide (token ∉ allowed)

/-- `temperature_cpu` of a request. -/
def storedTemperature (params : Sample.SamplingParams) : ℚ :=
  if params.samplingType = .greedy then 0 else roundSingle params.temperature

/-- `top_k_cpu` of a request. -/
def storedTopK (b : InputBatch ε γ) (params : Sample.SamplingParams) : Int :=
  if 0 < params.topK ∧ params.topK < b.vocabSize then params.topK else b.vocabSize

/-- The sampling parameters. -/
def addSampling (b : InputBatch ε γ) (request : CachedRequestState ε γ)
    (params : Sample.SamplingParams) (reqIndex : Nat) : InputBatch ε γ :=
  { b with
    requestSets := fun set => if b.requestSetsOf params set then
        (b.requestSets set).insert request.reqId
      else b.requestSets set
    temperatureCpu := update b.temperatureCpu reqIndex (storedTemperature params)
    topPCpu := update b.topPCpu reqIndex (roundSingle params.topP)
    topKCpu := update b.topKCpu reqIndex (b.storedTopK params)
    frequencyPenaltiesCpu :=
      update b.frequencyPenaltiesCpu reqIndex (roundSingle params.frequencyPenalty)
    presencePenaltiesCpu :=
      update b.presencePenaltiesCpu reqIndex (roundSingle params.presencePenalty)
    repetitionPenaltiesCpu :=
      update b.repetitionPenaltiesCpu reqIndex (roundSingle params.repetitionPenalty)
    generators := match request.generator with
      | some generator => b.generators.insert reqIndex generator
      | none => b.generators
    numLogprobs := match params.logprobs with
      | some k => b.numLogprobs.insert request.reqId (if k = -1 then b.vocabSize else k)
      | none => b.numLogprobs
    allowedTokenIdsMaskCpuTensor :=
      match params.allowedTokenIds.filter fun ids => !ids.isEmpty with
      | some allowed =>
        let mask := b.allowedTokenIdsMaskCpuTensor.getD fun _ _ => false
        some (update mask reqIndex (allowedMask allowed))
      | none => b.allowedTokenIdsMaskCpuTensor
    badWordsTokenIds :=
      match params.badWordsTokenIds.filter fun words => !words.isEmpty with
      | some words => b.badWordsTokenIds.insert reqIndex words
      | none => b.badWordsTokenIds }

/-- The parameters of the request. -/
def addParams (b : InputBatch ε γ) (request : CachedRequestState ε γ) (reqIndex : Nat) :
    Except PyError (InputBatch ε γ) :=
  match request.samplingParams, request.poolingParams with
  | some params, _ => .ok (b.addSampling request params reqIndex)
  | none, some params => .ok { b with
      poolingParams := b.poolingParams.insert request.reqId params
      logitsProcessingNeedsTokenIds :=
        update b.logitsProcessingNeedsTokenIds reqIndex params.requiresTokenIds }
  | none, none => .error (.notImplementedError "Unrecognized request type")

/-- The adapter of the request. -/
def addLora (b : InputBatch ε γ) (request : CachedRequestState ε γ) (reqIndex : Nat) :
    InputBatch ε γ :=
  match request.loraRequest with
  | some lora => { b with
      requestLoraMapping := update b.requestLoraMapping reqIndex lora.loraIntId
      loraIdToRequestIds := b.loraIdToRequestIds.insert lora.loraIntId
        (((b.loraIdToRequestIds.get? lora.loraIntId).getD []).insert request.reqId)
      loraIdToLoraRequest := b.loraIdToLoraRequest.insert lora.loraIntId lora }
  | none => { b with
      requestLoraMapping := update b.requestLoraMapping reqIndex 0 }

/-- `add_request`, with the heap of the output tokens. -/
def addRequest (b : InputBatch ε γ) (outputs : OutputRef → List Int)
    (request : CachedRequestState ε γ) : Except PyError (Nat × InputBatch ε γ) := do
  let (reqIndex, b) ← b.registerAddRequest request
  let b ← b.addReqId request reqIndex
  let numPromptTokens ←
    lengthFromPromptTokenIdsOrEmbeds request.promptTokenIds request.promptEmbeds
  let b := b.addTokens request (outputs request.outputTokenIds) numPromptTokens reqIndex
  let blockTables ← addBlockRow b.blockTables request.blockIds reqIndex
  let b ← { b with blockTables }.addParams request reqIndex
  let b := { b with
    numAcceptedTokensCpu := update b.numAcceptedTokensCpu reqIndex 1 }
  return (reqIndex, b.addLora request reqIndex)

/-! ### A request is removed -/

/-- The adapter of a row is given back. -/
def removeLora (b : InputBatch ε γ) (reqId : String) (reqIndex : Nat) :
    Except PyError (InputBatch ε γ) :=
  let loraId := b.requestLoraMapping reqIndex
  if loraId = 0 then .ok b
  else
    match b.loraIdToRequestIds.get? loraId with
    | none => .error (.keyError s!"{loraId}")
    | some ids =>
      let ids := ids.erase reqId
      .ok { b with
        loraIdToRequestIds := if ids = [] then b.loraIdToRequestIds.erase loraId
          else b.loraIdToRequestIds.insert loraId ids
        loraIdToLoraRequest := if ids = [] then b.loraIdToLoraRequest.erase loraId
          else b.loraIdToLoraRequest
        requestLoraMapping := update b.requestLoraMapping reqIndex 0 }

/-- What `remove_request` clears for a sampling model. -/
def removeSampling (b : InputBatch ε γ) (reqId : String) (reqIndex : Nat) : InputBatch ε γ :=
  { b with
    requestSets := fun set => (b.requestSets set).erase reqId
    generators := b.generators.erase reqIndex
    numLogprobs := b.numLogprobs.erase reqId
    allowedTokenIdsMaskCpuTensor := b.allowedTokenIdsMaskCpuTensor.map fun mask =>
      update mask reqIndex fun _ => false
    badWordsTokenIds := b.badWordsTokenIds.erase reqIndex }

/-- `remove_request`. -/
def removeRequest (b : InputBatch ε γ) (reqId : String) :
    Except PyError (Option Nat × InputBatch ε γ) :=
  match b.reqIdToIndex.get? reqId with
  | none => .ok (none, b)
  | some reqIndex => do
      let batchUpdateBuilder ← b.batchUpdateBuilder.removedAppend reqIndex
      let reqIds ← setItem b.reqIds reqIndex none
      let reqOutputTokenIds ← setItem b.reqOutputTokenIds reqIndex none
      let specTokenIds ← setItem b.specTokenIds reqIndex []
      let b := { b with
        reqIdToIndex := b.reqIdToIndex.erase reqId
        batchUpdateBuilder
        reqIds
        reqOutputTokenIds
        specTokenIds }
      let b ← b.removeLora reqId reqIndex
      if b.isPoolingModel then
        return (some reqIndex, { b with poolingParams := b.poolingParams.erase reqId })
      else return (some reqIndex, b.removeSampling reqId reqIndex)

/-! ### Two rows are swapped -/

/-- `t[i1], t[i2] = t[i2], t[i1]` for the rows of a tensor. The right side is a pair of views, so
the second row is assigned after the first one has changed. -/
def swapTensorRows (mask : Nat → Nat → Bool) (i1 i2 : Nat) : Nat → Nat → Bool :=
  let mask := update mask i1 (mask i2)
  update mask i2 (mask i1)

/-- The sampling part of `swap_states`. -/
def swapSampling (b : InputBatch ε γ) (i1 i2 : Nat) : InputBatch ε γ :=
  { b with
    batchUpdateBuilder := { b.batchUpdateBuilder with
      moved := b.batchUpdateBuilder.moved ++
        [{ adx := i1
           bdx := i2
           direct := .swap }] }
    temperatureCpu := swapEntries b.temperatureCpu i1 i2
    topPCpu := swapEntries b.topPCpu i1 i2
    topKCpu := swapEntries b.topKCpu i1 i2
    frequencyPenaltiesCpu := swapEntries b.frequencyPenaltiesCpu i1 i2
    presencePenaltiesCpu := swapEntries b.presencePenaltiesCpu i1 i2
    repetitionPenaltiesCpu := swapEntries b.repetitionPenaltiesCpu i1 i2
    numAcceptedTokensCpu := swapEntries b.numAcceptedTokensCpu i1 i2
    generators := swapDictValues b.generators i1 i2
    badWordsTokenIds := swapDictValues b.badWordsTokenIds i1 i2
    allowedTokenIdsMaskCpuTensor := b.allowedTokenIdsMaskCpuTensor.map fun mask =>
      swapTensorRows mask i1 i2 }

/-- What `swap_states` does for all models, besides the ids and the lists. -/
def swapColumns (b : InputBatch ε γ) (i1 i2 : Nat) : InputBatch ε γ :=
  { b with
    numTokens := swapEntries b.numTokens i1 i2
    numTokensNoSpec := swapEntries b.numTokensNoSpec i1 i2
    numPromptTokens := swapEntries b.numPromptTokens i1 i2
    numComputedTokensCpu := swapEntries b.numComputedTokensCpu i1 i2
    tokenIdsCpu := swapEntries b.tokenIdsCpu i1 i2
    isTokenIds := swapEntries b.isTokenIds i1 i2
    reqPromptEmbeds := swapDictValues b.reqPromptEmbeds i1 i2
    blockTables := b.blockTables.map fun table => table.swapRow i1 i2
    requestLoraMapping := swapEntries b.requestLoraMapping i1 i2 }

/-- `swap_states`. -/
def swapStates (b : InputBatch ε γ) (i1 i2 : Nat) : Except PyError (InputBatch ε γ) := do
  let oldIdI1 ← getItem b.reqIds i1
  let oldIdI2 ← getItem b.reqIds i2
  let reqIds ← swapItems b.reqIds i1 i2
  let reqOutputTokenIds ← swapItems b.reqOutputTokenIds i1 i2
  let specTokenIds ← swapItems b.specTokenIds i1 i2
  match oldIdI1, oldIdI2 with
  | some id1, some id2 =>
    match b.reqIdToIndex.get? id1, b.reqIdToIndex.get? id2 with
    | some index1, some index2 =>
      let b := { b.swapColumns i1 i2 with
        reqIds
        reqOutputTokenIds
        specTokenIds
        reqIdToIndex := (b.reqIdToIndex.insert id1 index2).insert id2 index1 }
      return if b.isPoolingModel then b else b.swapSampling i1 i2
    | _, _ => .error (.keyError "req_id_to_index")
  | _, _ => .error (.assertionError "old_id_i1 is not None and old_id_i2 is not None")

/-! ### The rows are condensed -/

/-- `a[empty] = a[last]`. -/
def copyEntry {α : Type} (a : Nat → α) (last empty : Nat) : Nat → α :=
  update a empty (a last)

/-- A row of a dict moves: `v = d.pop(last, None)`, and `d[empty] = v` if there is one. -/
def moveDictValue {ν : Type} (d : PyDict Nat ν) (last empty : Nat) : PyDict Nat ν :=
  match d.get? last with
  | some v => (d.erase last).insert empty v
  | none => d.erase last

/-- `a[empty, :n] = a[last, :n]`. -/
def copyPrefix {α : Type} (a : Nat → Nat → α) (last empty n : Nat) : Nat → Nat → α :=
  update a empty fun j => if j < n then a last j else a empty j

/-- The sampling part of a move of `condense`. -/
def moveSampling (b : InputBatch ε γ) (last empty : Nat) : InputBatch ε γ :=
  { b with
    batchUpdateBuilder := { b.batchUpdateBuilder with
      moved := b.batchUpdateBuilder.moved ++
        [{ adx := last
           bdx := empty
           direct := .unidirectional }] }
    temperatureCpu := copyEntry b.temperatureCpu last empty
    topPCpu := copyEntry b.topPCpu last empty
    topKCpu := copyEntry b.topKCpu last empty
    frequencyPenaltiesCpu := copyEntry b.frequencyPenaltiesCpu last empty
    presencePenaltiesCpu := copyEntry b.presencePenaltiesCpu last empty
    repetitionPenaltiesCpu := copyEntry b.repetitionPenaltiesCpu last empty
    numAcceptedTokensCpu := copyEntry b.numAcceptedTokensCpu last empty
    generators := moveDictValue b.generators last empty
    allowedTokenIdsMaskCpuTensor := b.allowedTokenIdsMaskCpuTensor.map fun mask =>
      copyEntry mask last empty
    badWordsTokenIds := moveDictValue b.badWordsTokenIds last empty }

/-- What a move of `condense` does for all models, besides the ids and the lists. -/
def moveColumns (b : InputBatch ε γ) (last empty : Nat) : InputBatch ε γ :=
  let numTokens := b.numTokens last
  { b with
    tokenIdsCpu := copyPrefix b.tokenIdsCpu last empty numTokens
    isTokenIds := copyPrefix b.isTokenIds last empty numTokens
    reqPromptEmbeds := match b.reqPromptEmbeds.get? last with
      | some embeds => (b.reqPromptEmbeds.erase last).insert empty embeds
      | none => b.reqPromptEmbeds
    numTokens := update b.numTokens empty numTokens
    numTokensNoSpec := copyEntry b.numTokensNoSpec last empty
    numPromptTokens := copyEntry b.numPromptTokens last empty
    numComputedTokensCpu := copyEntry b.numComputedTokensCpu last empty
    blockTables := b.blockTables.map fun table => table.moveRow last empty
    requestLoraMapping := copyEntry b.requestLoraMapping last empty }

/-- One move of `condense`: the last request goes to an empty row. -/
def moveRequest (b : InputBatch ε γ) (last empty : Nat) : Except PyError (InputBatch ε γ) := do
  let reqId ← getItem b.reqIds last
  let outputTokenIds ← getItem b.reqOutputTokenIds last
  match reqId with
  | none => .error (.assertionError "req_id is not None")
  | some id => do
      let reqIds ← setItem b.reqIds empty reqId
      let reqIds ← setItem reqIds last none
      let reqOutputTokenIds ← setItem b.reqOutputTokenIds empty outputTokenIds
      let reqOutputTokenIds ← setItem reqOutputTokenIds last none
      let specTokenIds ← swapItems b.specTokenIds last empty
      let specTokenIds ← setItem specTokenIds last []
      let b := { b.moveColumns last empty with
        reqIds
        reqOutputTokenIds
        specTokenIds
        reqIdToIndex := b.reqIdToIndex.insert id empty }
      return if b.isPoolingModel then b else b.moveSampling last empty

/-- The loop of `condense`, from the last row down. Below row 0 there is no row to move. -/
def condenseLoop : Nat → InputBatch ε γ → Except PyError (InputBatch ε γ)
  | lastReqIndex, b =>
    if b.batchUpdateBuilder.removedIndices = [] then .ok b
    else if lastReqIndex ∈ b.batchUpdateBuilder.removedIndices then
      match lastReqIndex with
      | 0 => .ok b
      | last + 1 => condenseLoop last b
    else
      match b.batchUpdateBuilder.peekRemoved.1 with
      | none => .error (.assertionError "empty_index is not None")
      | some emptyIndex =>
        if lastReqIndex ≤ emptyIndex then .ok b
        else
          match lastReqIndex with
          | 0 => .ok b
          | last + 1 => do
              let b := { b with batchUpdateBuilder := b.batchUpdateBuilder.popRemoved.2 }
              let b ← b.moveRequest (last + 1) emptyIndex
              condenseLoop last b

/-- `condense`. -/
def condense (b : InputBatch ε γ) : Except PyError (InputBatch ε γ) := do
  let numReqs := b.numReqs
  let (emptyReqIndices, batchUpdateBuilder) := b.batchUpdateBuilder.removed
  let b := { b with batchUpdateBuilder }
  if emptyReqIndices = [] then return b
  else if numReqs = 0 then
    return { b with
      reqIds := []
      reqOutputTokenIds := []
      specTokenIds := [] }
  else
    let b ← condenseLoop (numReqs + emptyReqIndices.length - 1) b
    return { b with
      reqIds := b.reqIds.take numReqs
      reqOutputTokenIds := b.reqOutputTokenIds.take numReqs
      specTokenIds := b.specTokenIds.take numReqs }

/-- `refresh_metadata`. -/
def refreshMetadata (b : InputBatch ε γ) (outputs : OutputRef → List Int) : InputBatch ε γ :=
  if b.isPoolingModel then { b with batchUpdateBuilder := b.batchUpdateBuilder.reset.2 }
  else
    let batchUpdate := (b.batchUpdateBuilder.getAndReset b.numReqs).1
    { b with
      batchUpdateBuilder := (b.batchUpdateBuilder.getAndReset b.numReqs).2
      minP := b.minP.updateState batchUpdate
      logitBias := b.logitBias.updateState batchUpdate
      minTokens := b.minTokens.updateState outputs batchUpdate }

/-! ### The worker writes to a row -/

/-- What the worker writes to the row of a request between the operations: the tokens that were
sampled or scheduled, their numbers, and new blocks. -/
structure RowWrite where
  start : Nat := 0
  tokenIds : List Int := []
  numTokensNoSpec : Nat
  numTokens : Nat
  numComputedTokens : Nat
  specTokenIds : List Int := []
  newBlockIds : List (List Nat) := []
  numAcceptedTokens : Nat := 1
deriving DecidableEq

/-- `block_table.append_row`. -/
def appendBlockRow (blockTables : List BlockTable) (blockIds : List (List Nat)) (reqIndex : Nat) :
    Except PyError (List BlockTable) :=
  match blockTables, blockIds with
  | [], _ => .ok []
  | _ :: _, [] => .error (.indexError "tuple index out of range")
  | table :: tables, ids :: blockIds => do
      let table ← table.appendRow ids reqIndex
      let tables ← appendBlockRow tables blockIds reqIndex
      return table :: tables

/-- The worker writes to a row. -/
def writeRow (b : InputBatch ε γ) (reqIndex : Nat) (w : RowWrite) :
    Except PyError (InputBatch ε γ) := do
  let specTokenIds ← setItem b.specTokenIds reqIndex w.specTokenIds
  let blockTables ← (if w.newBlockIds = [] then .ok b.blockTables
    else appendBlockRow b.blockTables w.newBlockIds reqIndex)
  return { b with
    specTokenIds
    blockTables
    tokenIdsCpu := update b.tokenIdsCpu reqIndex
      (writeSlice (b.tokenIdsCpu reqIndex) w.start w.tokenIds)
    isTokenIds := update b.isTokenIds reqIndex
      (writeSlice (b.isTokenIds reqIndex) w.start (List.replicate w.tokenIds.length true))
    numTokensNoSpec := update b.numTokensNoSpec reqIndex w.numTokensNoSpec
    numTokens := update b.numTokens reqIndex w.numTokens
    numComputedTokensCpu := update b.numComputedTokensCpu reqIndex w.numComputedTokens
    numAcceptedTokensCpu := update b.numAcceptedTokensCpu reqIndex w.numAcceptedTokens }

end InputBatch

/-! ### Rows -/

/-- What a row has for a sampling request. -/
structure SamplingRow (γ : Type) where
  temperature : ℚ
  topP : ℚ
  topK : Int
  frequencyPenalty : ℚ
  presencePenalty : ℚ
  repetitionPenalty : ℚ
  generator : Option γ
  allowedMask : List Bool
  badWordsTokenIds : Option (List (List Nat))

/-- What a row has. The tokens are those up to `num_tokens`; a token of a prompt that is given by
its embeddings has no id. -/
@[ext]
structure Row (ε γ : Type) where
  outputTokenIds : Option OutputRef
  specTokenIds : List Int
  tokens : List (Option Int)
  promptEmbeds : Option (List ε)
  numTokens : Nat
  numTokensNoSpec : Nat
  numPromptTokens : Nat
  numComputedTokens : Nat
  blocks : List (List Nat)
  loraId : Nat
  numAcceptedTokens : Nat
  logitsProcessingNeedsTokenIds : Bool
  sampling : Option (SamplingRow γ)

/-- The blocks of a row. -/
def BlockTable.blocksAt (t : BlockTable) (i : Nat) : List Nat :=
  (List.range (t.numBlocksPerRow i)).map (t.blockTable i)

namespace InputBatch

variable {ε γ : Type}

/-- The tokens of a row. -/
def tokensAt (b : InputBatch ε γ) (i : Nat) : List (Option Int) :=
  (List.range (b.numTokens i)).map fun j =>
    if b.isTokenIds i j then some (b.tokenIdsCpu i j) else none

/-- The mask of a row. Before the tensor is allocated all tokens are allowed. -/
def maskAt (b : InputBatch ε γ) (i : Nat) : List Bool :=
  (List.range b.vocabSize).map fun token =>
    match b.allowedTokenIdsMaskCpuTensor with
    | some mask => mask i token
    | none => false

/-- What a row has for sampling. -/
def samplingAt (b : InputBatch ε γ) (i : Nat) : SamplingRow γ where
  temperature := b.temperatureCpu i
  topP := b.topPCpu i
  topK := b.topKCpu i
  frequencyPenalty := b.frequencyPenaltiesCpu i
  presencePenalty := b.presencePenaltiesCpu i
  repetitionPenalty := b.repetitionPenaltiesCpu i
  generator := b.generators.get? i
  allowedMask := b.maskAt i
  badWordsTokenIds := b.badWordsTokenIds.get? i

/-- All that the batch has in a row. -/
def rowAt (b : InputBatch ε γ) (i : Nat) : Row ε γ where
  outputTokenIds := (b.reqOutputTokenIds[i]?).getD none
  specTokenIds := (b.specTokenIds[i]?).getD []
  tokens := b.tokensAt i
  promptEmbeds := b.reqPromptEmbeds.get? i
  numTokens := b.numTokens i
  numTokensNoSpec := b.numTokensNoSpec i
  numPromptTokens := b.numPromptTokens i
  numComputedTokens := b.numComputedTokensCpu i
  blocks := b.blockTables.map fun t => t.blocksAt i
  loraId := b.requestLoraMapping i
  numAcceptedTokens := b.numAcceptedTokensCpu i
  logitsProcessingNeedsTokenIds := b.logitsProcessingNeedsTokenIds i
  sampling := if b.isPoolingModel then none else some (b.samplingAt i)

/-- The length of the prompt of a request. -/
def promptLength (request : CachedRequestState ε γ) : Nat :=
  match request.promptTokenIds, request.promptEmbeds with
  | some tokens, _ => tokens.length
  | none, some embeds => embeds.length
  | none, none => 0

/-- The mask that belongs to a request. -/
def maskOf (b : InputBatch ε γ) (params : Sample.SamplingParams) : List Bool :=
  (List.range b.vocabSize).map fun token =>
    match params.allowedTokenIds.filter fun ids => !ids.isEmpty with
    | some allowed => allowedMask allowed token
    | none => false

/-- What belongs to a request that samples. -/
def samplingOf (b : InputBatch ε γ) (request : CachedRequestState ε γ)
    (params : Sample.SamplingParams) :
    SamplingRow γ where
  temperature := storedTemperature params
  topP := roundSingle params.topP
  topK := b.storedTopK params
  frequencyPenalty := roundSingle params.frequencyPenalty
  presencePenalty := roundSingle params.presencePenalty
  repetitionPenalty := roundSingle params.repetitionPenalty
  generator := request.generator
  allowedMask := b.maskOf params
  badWordsTokenIds := params.badWordsTokenIds.filter fun words => !words.isEmpty

/-- What belongs to a request when it is added. -/
def rowOf (b : InputBatch ε γ) (outputTokenIds : List Int) (request : CachedRequestState ε γ) :
    Row ε γ where
  outputTokenIds := some request.outputTokenIds
  specTokenIds := []
  tokens := (match request.promptTokenIds with
    | some tokens => tokens.map some
    | none => List.replicate (promptLength request) none) ++ outputTokenIds.map some
  promptEmbeds := request.promptEmbeds
  numTokens := promptLength request + outputTokenIds.length
  numTokensNoSpec := promptLength request + outputTokenIds.length
  numPromptTokens := promptLength request
  numComputedTokens := request.numComputedTokens
  blocks := List.zipWith (fun t ids => t.kernelBlockIds ids) b.blockTables request.blockIds
  loraId := match request.loraRequest with
    | some lora => lora.loraIntId
    | none => 0
  numAcceptedTokens := 1
  logitsProcessingNeedsTokenIds := match request.samplingParams, request.poolingParams with
    | none, some params => params.requiresTokenIds
    | _, _ => false
  sampling := if b.isPoolingModel then none
    else request.samplingParams.map fun params => b.samplingOf request params

end InputBatch

/-! ### Runs -/

/-- Where a step is: requests are removed, then added, the rows are condensed, and swapped then. -/
inductive BatchPhase where
  | removing
  | adding
  | condensed
deriving DecidableEq, Repr

/-- What can happen next. -/
inductive BatchOp (ε γ : Type) where
  | removeRequest (reqId : String)
  | addRequest (request : CachedRequestState ε γ)
  | condense
  | swapStates (i1 i2 : Nat)
  | refreshMetadata
  | writeRow (reqId : String) (w : InputBatch.RowWrite)
  /-- The list of the output tokens of a request changes. -/
  | setOutput (ref : OutputRef) (tokens : List Int)

/-- The batch, the lists of output tokens, and the history of the requests. -/
structure BatchSystem (ε γ : Type) where
  batch : InputBatch ε γ
  phase : BatchPhase := .removing
  outputs : OutputRef → List Int := fun _ => []
  /-- History: the request of an id that was added last. -/
  requests : String → Option (CachedRequestState ε γ) := fun _ => none
  /-- History: what belongs to the request of an id. -/
  owned : String → Option (Row ε γ) := fun _ => none
  /-- History: the ids that were added since the last `refresh_metadata`. -/
  added : List String := []
  /-- History: the lists of output tokens at the last `refresh_metadata`. -/
  lastOutputs : OutputRef → List Int := fun _ => []

namespace BatchSystem

variable {ε γ : Type}

/-- One operation. -/
def step (s : BatchSystem ε γ) : BatchOp ε γ → Except PyError (BatchSystem ε γ)
  | .removeRequest reqId => do
      let (_, batch) ← s.batch.removeRequest reqId
      return { s with
        batch
        phase := .removing }
  | .addRequest request => do
      let (_, batch) ← s.batch.addRequest s.outputs request
      return { s with
        batch
        phase := .adding
        requests := update s.requests request.reqId (some request)
        owned := update s.owned request.reqId
          (some (s.batch.rowOf (s.outputs request.outputTokenIds) request))
        added := request.reqId :: s.added }
  | .condense => do
      let batch ← s.batch.condense
      return { s with
        batch
        phase := .condensed }
  | .swapStates i1 i2 => do
      let batch ← s.batch.swapStates i1 i2
      return { s with batch }
  | .refreshMetadata =>
    .ok { s with
      batch := s.batch.refreshMetadata s.outputs
      phase := .removing
      added := []
      lastOutputs := s.outputs }
  | .writeRow reqId w =>
    match s.batch.reqIdToIndex.get? reqId with
    | none => .error (.keyError reqId)
    | some reqIndex => do
        let batch ← s.batch.writeRow reqIndex w
        return { s with
          batch
          owned := update s.owned reqId (some (batch.rowAt reqIndex)) }
  | .setOutput ref tokens => .ok { s with outputs := update s.outputs ref tokens }

end BatchSystem

end Vllm.V1.Worker
