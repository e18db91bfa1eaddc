import Vllm.Lib.PyDict
import Vllm.Lib.PyError
import Vllm.Lib.PyFloat
import Mathlib.Data.List.Sort
import Mathlib.Logic.Function.Basic

/-!
# `Vllm.V1.Sample.LogitsProcessor`: the logits processors and the log of the batch
(`vllm/v1/sample/logits_processor/state.py`, `builtin.py`)

A logits processor keeps a state for each row of the batch. The batch tells it once in each step
what has changed: `BatchUpdateBuilder` collects the removed rows, the added requests and the moves,
and `BatchUpdate` is handed to every processor.

* `BatchUpdateBuilder`: the log of a step.
* `processDictUpdates`: the replay of the log on a dict by rows.
* `MinPLogitsProcessor`, `LogitBiasLogitsProcessor`, `MinTokensLogitsProcessor`.

Tensors on the device are left out: they are copies that `update_state` makes of the state here.
The list of output tokens of a request is shared with the worker, so it lives in a heap. Numbers
that the source stores in arrays of 32 bit floats are rounded by `roundSingle`.
-/

set_option autoImplicit false

namespace Vllm.V1.Sample

open Vllm.Lib

/-- `SamplingType`. -/
inductive SamplingType where
  | greedy
  | random
  | randomSeed
deriving DecidableEq, Repr

/-- `SamplingParams`, as far as the batch and the processors read it. -/
structure SamplingParams where
  temperature : ℚ := 1
  topP : ℚ := 1
  topK : Int := 0
  minP : ℚ := 0
  frequencyPenalty : ℚ := 0
  presencePenalty : ℚ := 0
  repetitionPenalty : ℚ := 1
  seed : Option Int := none
  logprobs : Option Int := none
  minTokens : Nat := 0
  logitBias : Option (List (Nat × ℚ)) := none
  allowedTokenIds : Option (List Nat) := none
  badWordsTokenIds : Option (List (List Nat)) := none
  allStopTokenIds : List Nat := []
deriving DecidableEq

/-- `_SAMPLING_EPS`. -/
def samplingEps : ℚ := 1 / 100000

/-- `sampling_type`. -/
def SamplingParams.samplingType (params : SamplingParams) : SamplingType :=
  if params.temperature < samplingEps then .greedy
  else if params.seed.isSome then .randomSeed
  else .random

/-- The address of the list of the output tokens of a request. -/
abbrev OutputRef := Nat

/-! ### The log of a step -/

/-- `MoveDirectionality`. -/
inductive MoveDirectionality where
  | unidirectional
  | swap
deriving DecidableEq, Repr

/-- `AddedRequest`. -/
structure AddedRequest where
  index : Nat
  params : SamplingParams
  promptTokIds : Option (List Int)
  outputTokIds : OutputRef
deriving DecidableEq

/-- `MovedRequest`. -/
structure MovedRequest where
  adx : Nat
  bdx : Nat
  direct : MoveDirectionality
deriving DecidableEq

/-- `BatchUpdate`. -/
structure BatchUpdate where
  batchSize : Nat
  removed : List Nat
  added : List AddedRequest
  moved : List MovedRequest
deriving DecidableEq

/-- `BatchUpdateBuilder`. -/
structure BatchUpdateBuilder where
  /-- `_removed`. -/
  removedIndices : List Nat := []
  isRemovedSorted : Bool := false
  added : List AddedRequest := []
  moved : List MovedRequest := []
  batchChanged : Bool := false
deriving DecidableEq

namespace BatchUpdateBuilder

/-- `_ensure_removed_sorted`. -/
def ensureRemovedSorted (b : BatchUpdateBuilder) : BatchUpdateBuilder :=
  if b.isRemovedSorted then b
  else { b with
    removedIndices := b.removedIndices.insertionSort (· ≥ ·)
    isRemovedSorted := true }

/-- `removed`: the property sorts the list. -/
def removed (b : BatchUpdateBuilder) : List Nat × BatchUpdateBuilder :=
  (b.ensureRemovedSorted.removedIndices, b.ensureRemovedSorted)

/-- `removed_append`. -/
def removedAppend (b : BatchUpdateBuilder) (index : Nat) : Except PyError BatchUpdateBuilder :=
  if b.isRemovedSorted then
    .error (.runtimeError "Cannot register new removed request after self.removed has been read.")
  else .ok { b with
    removedIndices := b.removedIndices ++ [index]
    batchChanged := true }

/-- `has_removed`. -/
def hasRemoved (b : BatchUpdateBuilder) : Bool := !b.removedIndices.isEmpty

/-- `peek_removed`. -/
def peekRemoved (b : BatchUpdateBuilder) : Option Nat × BatchUpdateBuilder :=
  if b.hasRemoved then
    (b.ensureRemovedSorted.removedIndices.getLast?, b.ensureRemovedSorted)
  else (none, b)

/-- `pop_removed`. -/
def popRemoved (b : BatchUpdateBuilder) : Option Nat × BatchUpdateBuilder :=
  if b.hasRemoved then
    let b := b.ensureRemovedSorted
    (b.removedIndices.getLast?, { b with removedIndices := b.removedIndices.dropLast })
  else (none, b)

/-- `reset`. -/
def reset (b : BatchUpdateBuilder) : Bool × BatchUpdateBuilder := (b.batchChanged, {})

/-- `get_and_reset`. -/
def getAndReset (b : BatchUpdateBuilder) (batchSize : Nat) :
    Option BatchUpdate × BatchUpdateBuilder :=
  if b.removedIndices = [] ∧ b.moved = [] ∧ b.added = [] then
    (none, { b with
      isRemovedSorted := false
      batchChanged := false })
  else
    (some
      { batchSize
        removed := b.removedIndices
        moved := b.moved
        added := b.added }, {})

end BatchUpdateBuilder

/-! ### The processors -/

/-- `MinPLogitsProcessor`. -/
structure MinPLogitsProcessor where
  minPCount : Int := 0
  minPCpu : Nat → ℚ := fun _ => 0

namespace MinPLogitsProcessor

/-- An added request. The number is compared and counted as it is in the parameters, and stored
with 32 bits. -/
def addRequest (p : MinPLogitsProcessor) (request : AddedRequest) : MinPLogitsProcessor :=
  let minP := request.params.minP
  let minPBefore := p.minPCpu request.index
  if minPBefore ≠ minP then
    { minPCpu := Function.update p.minPCpu request.index (roundSingle minP)
      minPCount :=
        if minP ≠ 0 ∧ minPBefore = 0 then p.minPCount + 1
        else if minP = 0 ∧ minPBefore ≠ 0 then p.minPCount - 1
        else p.minPCount }
  else p

/-- A removed row. -/
def removeRow (p : MinPLogitsProcessor) (index : Nat) : MinPLogitsProcessor :=
  if p.minPCpu index ≠ 0 then
    { minPCpu := Function.update p.minPCpu index 0
      minPCount := p.minPCount - 1 }
  else p

/-- A move. -/
def moveRow (p : MinPLogitsProcessor) (move : MovedRequest) : MinPLogitsProcessor :=
  let minPA := p.minPCpu move.adx
  let minPB := p.minPCpu move.bdx
  let minPCpu :=
    if minPA ≠ minPB then
      let minPCpu := Function.update p.minPCpu move.bdx minPA
      if move.direct = .swap then Function.update minPCpu move.adx minPB else minPCpu
    else p.minPCpu
  if move.direct = .unidirectional then
    { minPCpu := if minPA ≠ 0 then Function.update minPCpu move.adx 0 else minPCpu
      minPCount := if minPB ≠ 0 then p.minPCount - 1 else p.minPCount }
  else { p with minPCpu }

/-- `update_state`. -/
def updateState (p : MinPLogitsProcessor) (batchUpdate : Option BatchUpdate) :
    MinPLogitsProcessor :=
  match batchUpdate with
  | none => p
  | some update =>
    let p := update.added.foldl addRequest p
    if p.minPCount ≠ 0 then
      let p := update.removed.foldl removeRow p
      update.moved.foldl moveRow p
    else p

end MinPLogitsProcessor

section DictUpdates
variable {τ : Type}

/-- An added request in `process_dict_updates`. The flag says whether something was updated. -/
def addEntry (newState : AddedRequest → Option τ) (acc : Bool × PyDict Nat τ)
    (request : AddedRequest) : Bool × PyDict Nat τ :=
  match newState request with
  | some state => (true, acc.2.insert request.index state)
  | none => (acc.1 || acc.2.contains request.index, acc.2.erase request.index)

/-- A removed row. The flag depends on the truth value of the entry. -/
def removeEntry (truthy : τ → Bool) (acc : Bool × PyDict Nat τ) (index : Nat) :
    Bool × PyDict Nat τ :=
  (acc.1 || (acc.2.get? index).any truthy, acc.2.erase index)

/-- A move. -/
def moveEntry (acc : Bool × PyDict Nat τ) (move : MovedRequest) : Bool × PyDict Nat τ :=
  let aEntry := acc.2.get? move.adx
  let entries := acc.2.erase move.adx
  let bEntry := entries.get? move.bdx
  let entries := entries.erase move.bdx
  let entries := match aEntry with
    | some aEntry => entries.insert move.bdx aEntry
    | none => entries
  let entries := match bEntry with
    | some bEntry =>
      if move.direct = .swap then entries.insert move.adx bEntry else entries
    | none => entries
  (acc.1 || aEntry.isSome || bEntry.isSome, entries)

/-- `process_dict_updates`. -/
def processDictUpdates (truthy : τ → Bool) (newState : AddedRequest → Option τ)
    (reqEntries : PyDict Nat τ) (batchUpdate : Option BatchUpdate) : Bool × PyDict Nat τ :=
  match batchUpdate with
  | none => (false, reqEntries)
  | some update =>
    let acc := update.added.foldl (addEntry newState) (false, reqEntries)
    if acc.2.size = 0 then acc
    else
      let acc := update.removed.foldl (removeEntry truthy) acc
      update.moved.foldl moveEntry acc

end DictUpdates

/-- `LogitBiasLogitsProcessor`. -/
structure LogitBiasLogitsProcessor where
  biases : PyDict Nat (List (Nat × ℚ)) := .empty

namespace LogitBiasLogitsProcessor

/-- `params.logit_bias or None`. -/
def newState (request : AddedRequest) : Option (List (Nat × ℚ)) :=
  request.params.logitBias.filter fun bias => !bias.isEmpty

/-- `update_state`. -/
def updateState (p : LogitBiasLogitsProcessor) (batchUpdate : Option BatchUpdate) :
    LogitBiasLogitsProcessor :=
  { biases := (processDictUpdates (fun bias => !bias.isEmpty) newState p.biases batchUpdate).2 }

end LogitBiasLogitsProcessor

/-- An entry of `min_toks`. -/
structure MinTokensEntry where
  minTokens : Nat
  outputTokIds : OutputRef
  stopTokenIds : List Nat
deriving DecidableEq

/-- `MinTokensLogitsProcessor`. -/
structure MinTokensLogitsProcessor where
  minToks : PyDict Nat MinTokensEntry := .empty

namespace MinTokensLogitsProcessor

/-- `add_request`, with the heap of the output tokens. -/
def addRequest (outputs : OutputRef → List Int) (request : AddedRequest) :
    Option MinTokensEntry :=
  let minTokens := request.params.minTokens
  if minTokens = 0 ∨ minTokens ≤ (outputs request.outputTokIds).length then none
  else some
    { minTokens
      outputTokIds := request.outputTokIds
      stopTokenIds := request.params.allStopTokenIds }

/-- The rows whose requests have their minimum. -/
def reached (outputs : OutputRef → List Int) (minToks : PyDict Nat MinTokensEntry) : List Nat :=
  (minToks.entries.filter fun e => e.2.minTokens ≤ (outputs e.2.outputTokIds).length).map Prod.fst

/-- `update_state`. -/
def updateState (outputs : OutputRef → List Int) (p : MinTokensLogitsProcessor)
    (batchUpdate : Option BatchUpdate) : MinTokensLogitsProcessor :=
  let minToks := (processDictUpdates (fun _ => true) (addRequest outputs) p.minToks batchUpdate).2
  { minToks := (reached outputs minToks).foldl PyDict.erase minToks }

end MinTokensLogitsProcessor

end Vllm.V1.Sample
