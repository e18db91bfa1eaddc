import Vllm.Lib.PyError
import Vllm.Lib.Ragged

/-!
# `Vllm.V1.Worker.UbatchUtils`: the batch in two micro-batches (`vllm/v1/worker/ubatch_utils.py`)

* `UBatchSlice`: the requests and the tokens of a micro-batch.
* `maybeCreateUbatchSlices`: the tokens before the split point and the tokens from it on, with the
  requests that they are of. A request that has tokens on both sides is in both.
-/

set_option autoImplicit false

namespace Vllm.V1.Worker

open Vllm.Lib

/-- `slice(start, stop)`, neither of them negative. -/
structure Slice where
  start : Nat
  stop : Nat
deriving DecidableEq, Repr

/-- `xs[slice]`. -/
def Slice.of {α : Type} (s : Slice) (xs : List α) : List α := (xs.drop s.start).take (s.stop - s.start)

/-- `str(slice)`. -/
def Slice.str (s : Slice) : String := s!"slice({s.start}, {s.stop}, None)"

/-- `UBatchSlice`. -/
structure UBatchSlice where
  requestSlice : Slice
  tokenSlice : Slice
deriving DecidableEq, Repr

namespace UBatchSlice

/-- `is_empty`. -/
def isEmpty (u : UBatchSlice) : Bool :=
  decide (u.requestSlice.start = u.requestSlice.stop) ||
    decide (u.tokenSlice.start = u.tokenSlice.stop)

/-- `num_tokens`. -/
def numTokens (u : UBatchSlice) : Int := (u.tokenSlice.stop : Int) - u.tokenSlice.start

/-- `str(ubatch_slice)`. -/
def str (u : UBatchSlice) : String :=
  "UBatchSlice(request_slice=" ++ u.requestSlice.str ++ ", token_slice=" ++ u.tokenSlice.str ++ ")"

end UBatchSlice

/-- `np.searchsorted(a, v, side="left")`, for a sorted array. -/
def searchsortedLeft (a : List Nat) (v : Nat) : Nat := (a.takeWhile (· < v)).length

/-- `np.searchsorted(a, v, side="right")`, for a sorted array. -/
def searchsortedRight (a : List Nat) (v : Nat) : Nat := (a.takeWhile (· ≤ v)).length

/-- `_pad_out_ubatch_slices`. -/
def padOutUbatchSlices (ubatchSlices : List UBatchSlice) (numTotalTokens numReqsPadded : Nat) :
    Except PyError (List UBatchSlice) :=
  match ubatchSlices with
  | first :: second :: _ =>
    .ok [first,
      { requestSlice := ⟨second.requestSlice.start, numReqsPadded⟩
        tokenSlice := ⟨second.tokenSlice.start, numTotalTokens⟩ }]
  | _ => .error (.indexError "list index out of range")

/-- `maybe_create_ubatch_slices`: the slices, and the slices with the padding. -/
def maybeCreateUbatchSlices (shouldUbatch : Bool) (numScheduledTokens : List Nat)
    (numTokensPadded numReqsPadded : Nat) (splitPoint : Option Nat) :
    Except PyError (Option (List UBatchSlice × List UBatchSlice)) := do
  if !shouldUbatch then
    return none
  else
    let splitPoint := splitPoint.getD (numTokensPadded / 2)
    let cuNumTokens := 0 :: cumsum numScheduledTokens
    let firstUbatchTokenSlice : Slice := ⟨0, splitPoint⟩
    let secondUbatchTokenSlice : Slice := ⟨splitPoint, cuNumTokens.getLastD 0⟩
    -- The requests whose tokens overlap `[0, split_point)`.
    let firstUbatchReqStop := searchsortedLeft cuNumTokens splitPoint
    let firstUbatchReqSlice : Slice := ⟨0, firstUbatchReqStop⟩
    -- From the request that has the split point on.
    let secondUbatchReqStart := searchsortedRight cuNumTokens splitPoint - 1
    let secondUbatchReqSlice : Slice := ⟨secondUbatchReqStart, cuNumTokens.length - 1⟩
    let ubatchSlices : List UBatchSlice :=
      [⟨firstUbatchReqSlice, firstUbatchTokenSlice⟩, ⟨secondUbatchReqSlice, secondUbatchTokenSlice⟩]
    let ubatchSlicesPadded ← padOutUbatchSlices ubatchSlices numTokensPadded numReqsPadded
    pyAssert ((ubatchSlicesPadded.map UBatchSlice.numTokens).sum = numTokensPadded)
      "sum(s.num_tokens for s in ubatch_slices_padded) == num_tokens_padded"
    return some (ubatchSlices, ubatchSlicesPadded)

end Vllm.V1.Worker
