import Vllm.Lib.Ragged
import Vllm.V1.Attention.Backends.Utils

/-!
# `Vllm.V1.SpecDecode.Eagle`: the inputs of the draft model (`vllm/v1/spec_decode/eagle.py`)

`EagleProposer.prepare_inputs` takes the rejected tokens out of the batch. The lists have an entry
for each request, and indices of tokens are not negative.
-/

set_option autoImplicit false

namespace Vllm.V1.SpecDecode

open Vllm.Lib Vllm.V1.Attention Vllm.V1.Worker

/-- `np.repeat`. -/
def npRepeat (xs counts : List Int) : Except PyError (List Int) :=
  if counts.any (· < 0) then .error (.valueError "repeats may not contain negative values.")
  else .ok (repeatEach xs (counts.map Int.toNat))

/-- `xs + ys` and `xs - ys` of two arrays, by the operation. -/
def broadcast (op : Int → Int → Int) (xs ys : List Int) : Except PyError (List Int) :=
  if xs.length = ys.length then .ok (List.zipWith op xs ys)
  else .error (.valueError "operands could not be broadcast together")

/-- `num_rejected_tokens`. -/
def numRejectedTokens (sampledTokenIds : List (List Int)) (numDraftTokens : List Nat) : List Int :=
  List.zipWith (fun (n : Nat) (ids : List Int) => if 0 < n then (n : Int) + 1 - ids.length else 0)
    numDraftTokens sampledTokenIds

/-- `EagleProposer.prepare_inputs`. The length of `token_arange_np` is `max_num_tokens`. -/
def prepareInputs (maxNumTokens : Nat) (m : CommonAttentionMetadata)
    (sampledTokenIds : List (List Int)) (numDraftTokens : List Nat) :
    Except PyError (CommonAttentionMetadata × List Int) := do
  let numRejectedTokens := numRejectedTokens sampledTokenIds numDraftTokens
  let newSeqLensCpu ← broadcast (· - ·) m.seqLensCpu numRejectedTokens
  let newQueryLenPerReq := stepDiffs m.queryStartLocCpu
  let newNumTokensPerReq ← broadcast (· - ·) newQueryLenPerReq numRejectedTokens
  let newQueryStartLoc := newNumTokensPerReq.scanl (· + ·) 0
  let totalNumTokens := newQueryStartLoc.getLastD 0
  let newQueryStartLocsExpanded ← npRepeat newQueryStartLoc.dropLast newNumTokensPerReq
  let tokenOffsets ← broadcast (· - ·)
    (((List.range maxNumTokens).take totalNumTokens.toNat).map Int.ofNat) newQueryStartLocsExpanded
  let oldQueryStartLocsExpanded ← npRepeat m.queryStartLocCpu.dropLast newNumTokensPerReq
  let tokenIndices ← broadcast (· + ·) tokenOffsets oldQueryStartLocsExpanded
  return ({
    queryStartLoc := newQueryStartLoc
    queryStartLocCpu := newQueryStartLoc
    seqLens := newSeqLensCpu
    seqLensCpu? := some newSeqLensCpu
    numComputedTokensCpu? := m.numComputedTokensCpu?
    numReqs := m.numReqs
    numActualTokens := totalNumTokens
    maxQueryLen := ← maxItem newQueryLenPerReq
    maxSeqLen := ← maxItem newSeqLensCpu
    blockTableTensor := m.blockTableTensor
    slotMapping := ← tokenIndices.mapM fun i => getItem m.slotMapping i.toNat
    causal := true }, tokenIndices)

end Vllm.V1.SpecDecode
