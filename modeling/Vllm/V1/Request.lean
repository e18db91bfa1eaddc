import Vllm.Lib.PyError

/-!
# `Vllm.V1.Request`: requests (`vllm/v1/request.py`)

The data of a request, its status and the operations of the `Request` class that the KV
cache and the scheduler use. A field keeps the name of the source attribute in camel case.

Left out: the observability data (`events`, `trace_headers`, `num_nans_in_logits`), the
payload of a multimodal feature, and the sampling parameters that only the sampler reads.
Token ids are `Int`, since the asynchronous scheduler stores `-1` for a draft token it does
not know yet; `num_computed_tokens` is an `Int`, since the source subtracts rejected draft
tokens from it without a check.
-/

set_option autoImplicit false

namespace Vllm.V1

open Vllm.Lib

/-- The hash of a block: raw bytes. -/
abbrev BlockHash := Bytes

/-- `LoRARequest`. `__post_init__` refuses an id below one. -/
structure LoRARequest where
  loraName : String
  loraIntId : Nat
  loraIntId_pos : 1 ≤ loraIntId
deriving DecidableEq

/-- The property `adapter_id`. -/
def LoRARequest.adapterId (l : LoRARequest) : Nat := l.loraIntId

/-- `PlaceholderRange`: where the placeholder tokens of an item stand in the prompt. -/
structure PlaceholderRange where
  offset : Nat
  length : Nat
  isEmbed : Option (List Bool) := none
deriving DecidableEq, Repr

/-- `MultiModalFeatureSpec`. -/
structure MultiModalFeatureSpec where
  modality : String
  identifier : String
  mmPosition : PlaceholderRange
deriving DecidableEq, Repr

/-- `mm_position.offset + mm_position.length`. -/
def MultiModalFeatureSpec.endPos (f : MultiModalFeatureSpec) : Nat :=
  f.mmPosition.offset + f.mmPosition.length

/-- `prompt_embeds`: one row of raw bytes per prompt token, all rows of one width. -/
structure PromptEmbeds where
  rowBytes : Nat
  rows : List Bytes
  rows_width : ∀ r ∈ rows, r.length = rowBytes
deriving DecidableEq

/-- The fields of `SamplingParams` that the scheduler reads. -/
structure SamplingParams where
  maxTokens : Nat
  minTokens : Nat := 0
  ignoreEos : Bool := false
  stopTokenIds : List Int := []
  skipReadingPrefixCache : Option Bool := none
deriving DecidableEq, Repr

/-- The fields of `PoolingParams` that the scheduler reads. -/
structure PoolingParams where
  skipReadingPrefixCache : Option Bool := none
deriving DecidableEq, Repr

/-- `StructuredOutputRequest`; `grammarReady` is the truth value of the property
`grammar`, which becomes true when the compilation has ended. -/
structure StructuredOutputRequest where
  grammarReady : Bool := false
deriving DecidableEq, Repr

/-- `RequestStatus`. -/
inductive RequestStatus where
  | waiting
  | waitingForFsm
  | waitingForRemoteKvs
  | running
  | preempted
  | finishedStopped
  | finishedLengthCapped
  | finishedAborted
  | finishedIgnored
  | finishedError
deriving DecidableEq, Repr

namespace RequestStatus

/-- The value of the status in the `IntEnum`. -/
def value : RequestStatus → Nat
  | waiting => 1
  | waitingForFsm => 2
  | waitingForRemoteKvs => 3
  | running => 4
  | preempted => 5
  | finishedStopped => 6
  | finishedLengthCapped => 7
  | finishedAborted => 8
  | finishedIgnored => 9
  | finishedError => 10

/-- `RequestStatus.is_finished`: anything after `PREEMPTED` is a finished status. -/
def isFinished (status : RequestStatus) : Bool := decide (preempted.value < status.value)

end RequestStatus

/-- `FinishReason`. -/
inductive FinishReason where
  | stop
  | length
  | abort
  | error
deriving DecidableEq, Repr

/-- `get_finished_reason`. -/
def RequestStatus.getFinishedReason : RequestStatus → Option FinishReason
  | .finishedStopped => some .stop
  | .finishedLengthCapped => some .length
  | .finishedAborted => some .abort
  | .finishedIgnored => some .length
  | .finishedError => some .error
  | _ => none

/-- `Request`. -/
structure Request where
  requestId : String
  clientIndex : Nat := 0
  priority : Int := 0
  samplingParams : Option SamplingParams := none
  poolingParams : Option PoolingParams := none
  eosTokenId : Option Int := none
  loraRequest : Option LoRARequest := none
  structuredOutputRequest : Option StructuredOutputRequest := none
  arrivalTime : Int := 0
  status : RequestStatus := .waiting
  stopReason : Option Int := none
  maxTokens : Nat := 1
  promptTokenIds : Option (List Int) := none
  promptEmbeds : Option PromptEmbeds := none
  numPromptTokens : Nat := 0
  outputTokenIds : List Int := []
  allTokenIds : List Int := []
  numOutputPlaceholders : Int := 0
  discardLatestAsyncTokens : Bool := false
  specTokenIds : List Int := []
  numComputedTokens : Int := 0
  cacheSalt : Option String := none
  mmFeatures : List MultiModalFeatureSpec := []
  numCachedTokens : Int := -1
  numPreemptions : Nat := 0
  numExternalComputedTokens : Int := 0
  blockHashes : List BlockHash := []
  skipReadingPrefixCache : Bool := false
deriving DecidableEq

namespace Request

/-- `num_tokens`. -/
def numTokens (r : Request) : Nat := r.allTokenIds.length

/-- `num_tokens_with_spec`. -/
def numTokensWithSpec (r : Request) : Nat := r.allTokenIds.length + r.specTokenIds.length

/-- `num_output_tokens`. -/
def numOutputTokens (r : Request) : Nat := r.outputTokenIds.length

/-- `has_encoder_inputs`. -/
def hasEncoderInputs (r : Request) : Bool := decide (0 < r.mmFeatures.length)

/-- `use_structured_output`. -/
def useStructuredOutput (r : Request) : Bool := r.structuredOutputRequest.isSome

/-- `is_finished`. -/
def isFinished (r : Request) : Bool := r.status.isFinished

/-- `get_skip_reading_prefix_cache`. -/
def getSkipReadingPrefixCache (r : Request) : Bool :=
  match r.samplingParams.bind (·.skipReadingPrefixCache) with
  | some b => b
  | none =>
    match r.poolingParams.bind (·.skipReadingPrefixCache) with
    | some b => b
    | none => false

/-- `length_from_prompt_token_ids_or_embeds`. -/
def lengthFromPromptTokenIdsOrEmbeds (promptTokenIds : Option (List Int))
    (promptEmbeds : Option PromptEmbeds) : Except PyError Nat :=
  match promptTokenIds, promptEmbeds with
  | none, none =>
    .error (.valueError "Neither prompt_token_ids nor prompt_embeds were defined.")
  | none, some e => .ok e.rows.length
  | some t, none => .ok t.length
  | some t, some e =>
    if e.rows.length ≠ t.length then
      .error (.valueError ("Prompt token ids and prompt embeds had different lengths"
        ++ " prompt_token_ids=" ++ toString t.length
        ++ " prompt_embeds=" ++ toString e.rows.length))
    else .ok t.length

/-- The arguments of `Request.__init__`. -/
structure InitArgs where
  requestId : String
  promptTokenIds : Option (List Int) := none
  samplingParams : Option SamplingParams := none
  poolingParams : Option PoolingParams := none
  eosTokenId : Option Int := none
  clientIndex : Nat := 0
  arrivalTime : Int := 0
  promptEmbeds : Option PromptEmbeds := none
  mmFeatures : List MultiModalFeatureSpec := []
  loraRequest : Option LoRARequest := none
  structuredOutputRequest : Option StructuredOutputRequest := none
  cacheSalt : Option String := none
  priority : Int := 0

/-- `max_tokens` and the first `status` of `Request.__init__`. -/
def initMaxTokensAndStatus (args : InitArgs) : Except PyError (Nat × RequestStatus) :=
  match args.poolingParams, args.samplingParams with
  | some _, _ => .ok (1, .waiting)
  | none, some sp =>
    .ok (sp.maxTokens,
      if args.structuredOutputRequest.isSome then .waitingForFsm else .waiting)
  | none, none =>
    .error (.valueError "sampling_params and pooling_params can't both be unset")

/-- The attributes that `Request.__init__` sets before it calls the block hasher. -/
def beforeHashing (args : InitArgs) (maxTokens : Nat) (status : RequestStatus)
    (numPromptTokens : Nat) : Request :=
  { requestId := args.requestId
    clientIndex := args.clientIndex
    priority := args.priority
    samplingParams := args.samplingParams
    poolingParams := args.poolingParams
    eosTokenId := args.eosTokenId
    loraRequest := args.loraRequest
    structuredOutputRequest := args.structuredOutputRequest
    arrivalTime := args.arrivalTime
    status := status
    maxTokens := maxTokens
    promptTokenIds := args.promptTokenIds
    promptEmbeds := args.promptEmbeds
    numPromptTokens := numPromptTokens
    allTokenIds := args.promptTokenIds.getD (List.replicate numPromptTokens 0)
    cacheSalt := args.cacheSalt
    mmFeatures := args.mmFeatures }

/-- `Request.__init__`. `blockHasher` is the argument `block_hasher`; the source stores it
as `get_hash_new_full_blocks` with the request bound to it. -/
def init (args : InitArgs) (blockHasher : Option (Request → List BlockHash)) :
    Except PyError Request := do
  let (maxTokens, status) ← initMaxTokensAndStatus args
  let numPromptTokens ←
    lengthFromPromptTokenIdsOrEmbeds args.promptTokenIds args.promptEmbeds
  let r := beforeHashing args maxTokens status numPromptTokens
  return { r with
    blockHashes := match blockHasher with
      | none => []
      | some hasher => hasher r
    skipReadingPrefixCache := r.getSkipReadingPrefixCache }

/-- `append_output_token_ids`. A single token of the source is a list of one here. -/
def appendOutputTokenIds (blockHasher : Option (Request → List BlockHash)) (r : Request)
    (tokenIds : List Int) : Request :=
  let r := { r with
    outputTokenIds := r.outputTokenIds ++ tokenIds
    allTokenIds := r.allTokenIds ++ tokenIds }
  match blockHasher with
  | none => r
  | some hasher => { r with blockHashes := r.blockHashes ++ hasher r }

end Request

end Vllm.V1
