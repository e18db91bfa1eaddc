import Vllm.Lib.Ragged
import Mathlib.Data.Fin.Basic

/-!
# `Vllm.V1.Sample.RejectionSampler`: drafts are checked against the target model
(`vllm/v1/worker/gpu_model_runner.py`, `vllm/v1/sample/rejection_sampler.py`)

A step runs the target model on the last tokens of all requests, one request after the other, and on
their drafts. The sampler takes the most likely token after each draft and compares.

* `calcSpecDecodeMetadata`: where the logits and the drafts of the requests are in the flat arrays.
* `rejectionGreedySampleKernel`: one program of the kernel, for one request.
* `parseOutput`: the rows of the output without placeholders.
* `verifyDrafts`: the step, for a target model that is given as a function.

An access out of the bounds of an array gives `none`. The kernel of the requests that are not greedy
runs after this one and returns at once for those that are; it is left out, and so are the
probabilities and the processors of logits. The arrays have no negative numbers, since a request
schedules all its drafts and the token before them.
-/

set_option autoImplicit false

namespace Vllm.V1.Sample

open Vllm.Lib

/-- A request in a step. -/
structure SpecRequest where
  /-- The tokens that earlier steps have computed. -/
  computed : List Int
  /-- The tokens of this step before the drafts. -/
  scheduled : List Int
  drafts : List Int
  isGreedy : Bool
  nonempty : scheduled ≠ []

namespace SpecRequest

/-- The tokens that are known. -/
def knownTokens (r : SpecRequest) : List Int := r.computed ++ r.scheduled

/-- The tokens that the model runs on. -/
def inputTokens (r : SpecRequest) : List Int := r.scheduled ++ r.drafts

end SpecRequest

/-- `SpecDecodeMetadata`. -/
structure SpecDecodeMetadata where
  draftTokenIds : List Int
  numDraftTokens : List Nat
  cuNumDraftTokens : List Nat
  targetLogitsIndices : List Nat
  bonusLogitsIndices : List Nat
  logitsIndices : List Nat

/-- `max(self.num_draft_tokens)`. There is a request. -/
def SpecDecodeMetadata.maxSpecLen (m : SpecDecodeMetadata) : Nat := m.numDraftTokens.foldr max 0

/-- `_calc_spec_decode_metadata`. -/
def calcSpecDecodeMetadata (inputIds : List Int) (numDraftTokens cuNumScheduledTokens : List Nat) :
    Option SpecDecodeMetadata := do
  let numSampledTokens := numDraftTokens.map (· + 1)
  let (cuNumSampledTokens, arange) := cumsumAndArange numSampledTokens
  let logitsIndices :=
    addEach (repeatEach (subEach cuNumScheduledTokens numSampledTokens) numSampledTokens) arange
  let bonusLogitsIndices := cuNumSampledTokens.map (· - 1)
  let (cuNumDraftTokens, arange) := cumsumAndArange numDraftTokens
  let targetLogitsIndices :=
    addEach (repeatEach (subEach cuNumSampledTokens numSampledTokens) numDraftTokens) arange
  let draftTokenIds ← gather inputIds logitsIndices
  let draftTokenIds ← gather draftTokenIds (targetLogitsIndices.map (· + 1))
  some {
    draftTokenIds := draftTokenIds
    numDraftTokens := numDraftTokens
    cuNumDraftTokens := cuNumDraftTokens
    targetLogitsIndices := targetLogitsIndices
    bonusLogitsIndices := bonusLogitsIndices
    logitsIndices := logitsIndices }

/-- `PLACEHOLDER_TOKEN_ID`. -/
def placeholderTokenId : Int := -1

/-- `tl.store`. -/
def store (out : List Int) (i : Nat) (x : Int) : Option (List Int) :=
  if i < out.length then some (out.set i x) else none

section Kernel
variable (cuNumDraftTokens : List Nat) (draftTokenIds targetArgmax bonusTokenIds : List Int)

/-- One round of the loop over the drafts of a request: whether a draft was rejected, and the
output. -/
def kernelRound (rowStart startIdx : Nat) (s : Bool × List Int) (pos : Nat) :
    Option (Bool × List Int) :=
  if s.1 then some s
  else do
    let draftTokenId ← draftTokenIds[startIdx + pos]?
    let targetArgmaxId ← targetArgmax[startIdx + pos]?
    let out ← store s.2 (rowStart + pos) targetArgmaxId
    some (decide (draftTokenId ≠ targetArgmaxId), out)

/-- `is_greedy`. The pointer is `None` when all requests are greedy. -/
def loadIsGreedy (isGreedy : Option (List Bool)) (reqIdx : Nat) : Option Bool :=
  match isGreedy with
  | none => some true
  | some flags => flags[reqIdx]?

/-- `start_idx`. -/
def loadStartIdx (reqIdx : Nat) : Option Nat :=
  if reqIdx = 0 then some 0 else cuNumDraftTokens[reqIdx - 1]?

/-- `rejection_greedy_sample_kernel` of a request. -/
def rejectionGreedySampleKernel (isGreedy : Option (List Bool)) (maxSpecLen reqIdx : Nat)
    (out : List Int) : Option (List Int) := do
  let greedy ← loadIsGreedy isGreedy reqIdx
  if greedy then
    let startIdx ← loadStartIdx cuNumDraftTokens reqIdx
    let endIdx ← cuNumDraftTokens[reqIdx]?
    let numDraftTokens := endIdx - startIdx
    let rowStart := reqIdx * (maxSpecLen + 1)
    let (rejected, out) ← (List.range numDraftTokens).foldlM
      (kernelRound draftTokenIds targetArgmax rowStart startIdx) (false, out)
    if rejected then some out
    else do
      let bonusTokenId ← bonusTokenIds[reqIdx]?
      store out (rowStart + numDraftTokens) bonusTokenId
  else some out

/-- The greedy part of `rejection_sample`: the programs of the kernel fill the output. -/
def rejectionSample (isGreedy : Option (List Bool)) (batchSize maxSpecLen : Nat) :
    Option (List Int) :=
  (List.range batchSize).foldlM
    (fun out reqIdx => rejectionGreedySampleKernel cuNumDraftTokens draftTokenIds targetArgmax
      bonusTokenIds isGreedy maxSpecLen reqIdx out)
    (List.replicate (batchSize * (maxSpecLen + 1)) placeholderTokenId)

end Kernel

/-- `output_token_ids[i]`. -/
def outputRow (width : Nat) (out : List Int) (i : Nat) : List Int :=
  (out.drop (i * width)).take width

/-- `parse_output`: the first of its results. -/
def parseOutput (batchSize width vocabSize : Nat) (discardReqIndices : List Nat) (out : List Int) :
    List (List Int) :=
  (List.range batchSize).map fun i =>
    if i ∈ discardReqIndices then []
    else (outputRow width out i).filter fun x =>
      decide (x ≠ placeholderTokenId) && decide (x < (vocabSize : Int))

section Verify
variable {vocabSize : Nat} (target : List Int → Fin vocabSize)

/-- The most likely token after a prefix. -/
def argmaxToken (tokens : List Int) : Int := ((target tokens).val : Int)

/-- The most likely token after each token that the model runs on. -/
def SpecRequest.modelRows (r : SpecRequest) : List Int :=
  (List.range r.inputTokens.length).map fun k =>
    argmaxToken target (r.computed ++ r.inputTokens.take (k + 1))

/-- A step: the model runs, `_calc_spec_decode_metadata` selects the logits, and the tokens are
sampled. -/
def verifyDrafts (reqs : List SpecRequest) (discardReqIndices : List Nat) :
    Option (List (List Int)) := do
  let inputIds := reqs.flatMap SpecRequest.inputTokens
  let metadata ← calcSpecDecodeMetadata inputIds (reqs.map fun r => r.drafts.length)
    (cumsum (reqs.map fun r => r.inputTokens.length))
  let logits ← gather (reqs.flatMap fun r => r.modelRows target) metadata.logitsIndices
  let bonusTokenIds ← gather logits metadata.bonusLogitsIndices
  let targetArgmax ← gather logits metadata.targetLogitsIndices
  let isGreedy := if reqs.all SpecRequest.isGreedy then none
    else some (reqs.map SpecRequest.isGreedy)
  let out ← rejectionSample metadata.cuNumDraftTokens metadata.draftTokenIds targetArgmax
    bonusTokenIds isGreedy reqs.length metadata.maxSpecLen
  some (parseOutput reqs.length (metadata.maxSpecLen + 1) vocabSize discardReqIndices out)

end Verify

end Vllm.V1.Sample
