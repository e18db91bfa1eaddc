import Vllm.Lib.Ragged
import Vllm.V1.Core.KVCacheUtils
import Vllm.V1.Worker.InputBatch
import Vllm.V1.Worker.UbatchUtils
import Mathlib.Algebra.Order.Group.Unbundled.Int
import Mathlib.Data.List.Sort

/-!
# `Vllm.V1.Attention.Backends.Utils`: the batch as the attention backends see it
(`vllm/v1/attention/backends/utils.py`)

* `CommonAttentionMetadata`: where the tokens of each request are, and how long the requests are.
* `splitAttnMetadata`: the metadata of the micro-batches.
* `makeLocalAttentionVirtualBatches`: each chunk of a request as a request of its own.
* `splitDecodesPrefillsAndExtends`: the boundaries between decode, extend and prefill requests.
* `reorderBatchToSplitDecodesAndPrefills`: the rows of the batch in the order decode, extend,
  prefill.

Tensors are lists of integers and have the shapes that the model runner gives them. The fields of
the metadata for fast prefill, for encoders and for decode context parallelism are left out.
-/

set_option autoImplicit false

namespace Vllm.V1.Attention

open Vllm.Lib Vllm.V1.Core Vllm.V1.Worker

/-- `x[1:] - x[:-1]`. -/
def stepDiffs (x : List Int) : List Int := List.zipWith (· - ·) (x.drop 1) x.dropLast

/-- `CommonAttentionMetadata`. -/
structure CommonAttentionMetadata where
  queryStartLoc : List Int
  queryStartLocCpu : List Int
  seqLens : List Int
  numReqs : Int
  numActualTokens : Int
  maxQueryLen : Int
  maxSeqLen : Int
  blockTableTensor : List (List Int)
  slotMapping : List Int
  causal : Bool := true
  /-- `_seq_lens_cpu`. -/
  seqLensCpu? : Option (List Int) := none
  /-- `_num_computed_tokens_cpu`. -/
  numComputedTokensCpu? : Option (List Int) := none
deriving DecidableEq

namespace CommonAttentionMetadata

/-- The property `seq_lens_cpu`. -/
def seqLensCpu (m : CommonAttentionMetadata) : List Int := m.seqLensCpu?.getD m.seqLens

/-- The property `num_computed_tokens_cpu`. -/
def numComputedTokensCpu (m : CommonAttentionMetadata) : List Int :=
  m.numComputedTokensCpu?.getD (List.zipWith (· - ·) m.seqLensCpu (stepDiffs m.queryStartLocCpu))

end CommonAttentionMetadata

/-! ### The metadata of a micro-batch -/

/-- `slice_query_start_locs`. -/
def sliceQueryStartLocs (queryStartLoc : List Int) (requestSlice : Slice) :
    Except PyError (List Int) := do
  let start ← getItem queryStartLoc requestSlice.start
  return (Slice.of ⟨requestSlice.start, requestSlice.stop + 1⟩ queryStartLoc).map (· - start)

/-- `x[1:] -= v`. -/
def subFromRest (x : List Int) (v : Int) : List Int := x.take 1 ++ (x.drop 1).map (· - v)

/-- `x[-1] -= v`. -/
def subFromLast (x : List Int) (v : Int) : List Int := x.dropLast ++ (x.getLast?.map (· - v)).toList

/-- `int(x.max())`. -/
def maxItem (x : List Int) : Except PyError Int :=
  match x with
  | [] => .error (.runtimeError "max(): Expected reduction dim to be specified for input.numel() == 0.")
  | v :: vs => .ok (vs.foldl max v)

/-- `_make_metadata_with_slice`. -/
def makeMetadataWithSlice (ubatchSlice : UBatchSlice) (m : CommonAttentionMetadata) :
    Except PyError CommonAttentionMetadata := do
  pyAssert (!ubatchSlice.isEmpty) ("Ubatch slice " ++ ubatchSlice.str ++ " is empty")
  let requestSlice := ubatchSlice.requestSlice
  let tokenSlice := ubatchSlice.tokenSlice
  let startLocs := m.queryStartLocCpu
  let firstReq := requestSlice.start
  let firstTok : Int := tokenSlice.start
  let lastTok : Int := (tokenSlice.stop : Int) - 1
  let firstReqStart ← getItem startLocs firstReq
  pyAssert (firstReqStart ≤ firstTok) "Token slice start outside of first request"
  let firstReqStop ← getItem startLocs (firstReq + 1)
  pyAssert (firstTok < firstReqStop) "Token slice start outside of first request"
  let splitsFirstRequest := decide (firstReqStart < firstTok)
  -- `last_req + 1` is the end of the slice.
  let lastReqStop ← getItem startLocs requestSlice.stop
  let splitsLastRequest := decide (lastTok < lastReqStop - 1)
  let queryStartLocCpu ← sliceQueryStartLocs startLocs requestSlice
  let queryStartLoc ← sliceQueryStartLocs m.queryStartLoc requestSlice
  pyAssert (2 ≤ queryStartLoc.length)
    s!"query_start_loc must have at least 2 elements, got {queryStartLoc.length}"
  -- Without a split nothing is skipped.
  let skippedFirst := if splitsFirstRequest then firstTok - firstReqStart else 0
  let queryStartLoc := subFromRest queryStartLoc skippedFirst
  let queryStartLocCpu := subFromRest queryStartLocCpu skippedFirst
  let seqLens := requestSlice.of m.seqLens
  let seqLensCpu := requestSlice.of m.seqLensCpu
  let skippedLast := if splitsLastRequest
    then queryStartLocCpu.getLastD 0 - tokenSlice.stop else 0
  let queryStartLoc := subFromLast queryStartLoc skippedLast
  let queryStartLocCpu := subFromLast queryStartLocCpu skippedLast
  let seqLens := subFromLast seqLens skippedLast
  let seqLensCpu := subFromLast seqLensCpu skippedLast
  let maxSeqLen ← maxItem seqLensCpu
  let numComputedTokensCpu := requestSlice.of m.numComputedTokensCpu
  let maxQueryLen ← maxItem ((stepDiffs queryStartLocCpu).map fun d => |d|)
  -- In a dummy run `query_start_loc_cpu` is full of zeros.
  let maxQueryLen := if maxQueryLen = 0 then m.maxQueryLen else maxQueryLen
  return {
    queryStartLoc
    queryStartLocCpu
    seqLens
    numReqs := (requestSlice.stop : Int) - requestSlice.start
    numActualTokens := ubatchSlice.numTokens
    maxQueryLen
    maxSeqLen
    blockTableTensor := requestSlice.of m.blockTableTensor
    slotMapping := tokenSlice.of m.slotMapping
    seqLensCpu? := some seqLensCpu
    numComputedTokensCpu? := some numComputedTokensCpu }

/-- `split_attn_metadata`. -/
def splitAttnMetadata (ubatchSlices : List UBatchSlice) (m : CommonAttentionMetadata) :
    Except PyError (List CommonAttentionMetadata) :=
  ubatchSlices.mapM fun ubatchSlice => makeMetadataWithSlice ubatchSlice m

/-! ### Chunked local attention -/

/-- `x[mask] = values`: the values go to the places where the mask is set, in order. -/
def assignWhere : List Int → List Bool → List Int → List Int
  | _ :: xs, true :: mask, v :: values => v :: assignWhere xs mask values
  | x :: xs, _ :: mask, values => x :: assignWhere xs mask values
  | xs, _, _ => xs

/-- `x[indices] = values`. -/
def assignAt (xs : List Int) (indices : List Nat) (values : List Int) : List Int :=
  (indices.zip values).foldl (fun xs p => xs.set p.1 p.2) xs

/-- An item of a row of a tensor. A negative index counts from the end. -/
def itemAt (row : List Int) (i : Int) : Except PyError Int :=
  let i := if i < 0 then row.length + i else i
  match if i < 0 then none else row[i.toNat]? with
  | some v => .ok v
  | none => .error (.indexError "index is out of bounds")

/-- `x.view(n, -1)`, for rows of `width` items. -/
def viewRows {α : Type} (x : List α) (n width : Nat) : List (List α) :=
  (List.range n).map fun i => (x.drop (i * width)).take width

/-- `q_tokens_in_first_block`, `tokens_in_last_block` and `local_blocks`. -/
structure LocalBlocks where
  qTokensInFirstBlock : List Int
  tokensInLastBlock : List Int
  localBlocks : List Nat

/-- The number of blocks of each request. The first block may begin in the middle of a chunk, so
the tokens in it are counted apart. -/
def localBlocks (attnChunkSize : ℕ+) (seqLens qSeqlens : List Int) : LocalBlocks :=
  let qTokensInFirstBlock := List.zipWith
    (fun s q => min ((attnChunkSize : Int) - (s - q) % attnChunkSize) q) seqLens qSeqlens
  { qTokensInFirstBlock
    tokensInLastBlock := seqLens.map fun s =>
      (attnChunkSize : Int) + Int.fmod s (-(attnChunkSize : Int))
    -- Each entry is at least 1: these are the counts of the repetitions.
    localBlocks := List.zipWith (fun q first => (1 + cdiv (q - first) attnChunkSize).toNat)
      qSeqlens qTokensInFirstBlock }

/-- `seqlens_q_local`: the first and the last blocks could be partial. -/
def seqlensQLocal (attnChunkSize : ℕ+) (qSeqlens qTokensInFirstBlock : List Int)
    (localBlocks arange : List Nat) : List Int :=
  let seqlensQLocal := repeatEach (List.zipWith (· - ·) qSeqlens qTokensInFirstBlock) localBlocks
  let seqlensQLocal := assignWhere seqlensQLocal (arange.map fun a => decide (a = 0))
    qTokensInFirstBlock
  List.zipWith
    (fun x (a : Nat) => if 0 < a then min (x - attnChunkSize * ((a : Int) - 1)) attnChunkSize
      else x) seqlensQLocal arange

/-- `seqlens_k_local`: a full block for all but the last one of each request. -/
def seqlensKLocal (attnChunkSize : ℕ+) (tokensInLastBlock : List Int) (cuNumBlocks : List Nat) :
    List Int :=
  assignAt (List.replicate (cuNumBlocks.getLastD 0) (attnChunkSize : Int))
    (cuNumBlocks.map (· - 1)) tokensInLastBlock

/-- `k_seqstarts_absolute`. -/
def kSeqstartsAbsolute (attnChunkSize : ℕ+) (seqLens tokensInLastBlock : List Int)
    (localBlocks arange : List Nat) : List Int :=
  let rarange := List.zipWith (fun n a => ((n : Nat) : Int) - (a : Nat) - 1)
    (repeatEach localBlocks localBlocks) arange
  List.zipWith (· - ·) (repeatEach seqLens localBlocks)
    (List.zipWith (fun r last => r * (attnChunkSize : Int) + last) rarange
      (repeatEach tokensInLastBlock localBlocks))

/-- `block_table_local`. -/
def blockTableLocal (blockTable : List (List Int)) (blockStarts : List Int)
    (localBlocks : List Nat) (actualBatchSize virtualBatches pagesPerLocalBatch : Nat) :
    Except PyError (List (List Int)) := do
  let blockIndices := (blockStarts.flatMap fun start =>
    (List.range pagesPerLocalBatch).map fun i => start + ((i : Nat) : Int)).map fun i =>
      min i (((blockTable.headD []).length : Int) - 1)
  let batchIndices := repeatEach (List.range actualBatchSize)
    (localBlocks.map (· * pagesPerLocalBatch))
  let gathered ← (batchIndices.zip blockIndices).mapM fun p => do
    itemAt (← getItem blockTable p.1) p.2
  return viewRows gathered virtualBatches pagesPerLocalBatch

/-- `make_local_attention_virtual_batches`. -/
def makeLocalAttentionVirtualBatches (attnChunkSize : ℕ+) (m : CommonAttentionMetadata)
    (blockSize : Nat) : Except PyError CommonAttentionMetadata := do
  let qSeqlens := stepDiffs m.queryStartLocCpu
  let blocks := localBlocks attnChunkSize m.seqLensCpu qSeqlens
  let (cuNumBlocks, arange) := cumsumAndArange blocks.localBlocks
  if cuNumBlocks = [] then
    .error (.indexError "index -1 is out of bounds for axis 0 with size 0")
  else
    let virtualBatches := cuNumBlocks.getLastD 0
    let seqlensQ := seqlensQLocal attnChunkSize qSeqlens blocks.qTokensInFirstBlock
      blocks.localBlocks arange
    let seqlensK := seqlensKLocal attnChunkSize blocks.tokensInLastBlock cuNumBlocks
    let kSeqstarts := kSeqstartsAbsolute attnChunkSize m.seqLensCpu blocks.tokensInLastBlock
      blocks.localBlocks arange
    if blockSize = 0 then
      .error (.zeroDivisionError "integer modulo by zero")
    else
      pyAssert ((attnChunkSize : Nat) % blockSize = 0)
        (s!"attn_chunk_size {(attnChunkSize : Nat)} is not divisible by block_size " ++
          s!"{blockSize}")
      let blockTable ← blockTableLocal m.blockTableTensor
        (kSeqstarts.map fun k => Int.fdiv k blockSize) blocks.localBlocks m.seqLensCpu.length
        virtualBatches ((attnChunkSize : Nat) / blockSize)
      let maxSeqLen ← maxItem seqlensK
      let maxQueryLen ← maxItem seqlensQ
      return {
        queryStartLoc := seqlensQ.scanl (· + ·) 0
        queryStartLocCpu := seqlensQ.scanl (· + ·) 0
        seqLens := seqlensK
        numReqs := seqlensK.length
        numActualTokens := m.numActualTokens
        maxQueryLen
        maxSeqLen
        blockTableTensor := blockTable
        slotMapping := m.slotMapping
        causal := true
        seqLensCpu? := some seqlensK
        numComputedTokensCpu? := some (List.zipWith (· - ·) seqlensK seqlensQ) }

/-! ### The boundaries between the regions -/

/-- `mask.int().argmax(dim=-1).item()`: the first index of the largest value, so 0 when nothing is
set. -/
def argmax (mask : List Bool) : Except PyError Nat :=
  if mask = [] then
    .error (.indexError "argmax(): Expected reduction dim -1 to have non-zero size.")
  else .ok ((mask.findIdx? id).getD 0)

/-- The result of `split_decodes_prefills_and_extends`. -/
structure RegionSizes where
  numDecodes : Int
  numExtends : Int
  numPrefills : Int
  numDecodeTokens : Int
  numExtendTokens : Int
  numPrefillTokens : Int
deriving DecidableEq, Repr

/-- `split_decodes_prefills_and_extends`. -/
def splitDecodesPrefillsAndExtends (m : CommonAttentionMetadata) (decodeThreshold : Int) :
    Except PyError RegionSizes := do
  if m.maxQueryLen ≤ decodeThreshold then
    return ⟨m.numReqs, 0, 0, m.numActualTokens, 0, 0⟩
  else
    let queryLens := stepDiffs m.queryStartLocCpu
    let isPrefillOrExtend := queryLens.map fun q => decide (decodeThreshold < q)
    let isPrefill := List.zipWith (· && ·)
      (List.zipWith (fun s q => decide (s = q)) m.seqLensCpu queryLens) isPrefillOrExtend
    let firstExtend ← argmax isPrefillOrExtend
    let firstPrefill ← argmax isPrefill
    let numDecodes : Int := firstExtend
    let numDecodeTokens ← getItem m.queryStartLocCpu firstExtend
    if !isPrefillOrExtend.any id then
      return ⟨numDecodes, 0, 0, numDecodeTokens, 0, 0⟩
    else
      let numPrefillsOrExtends := m.numReqs - numDecodes
      let numPrefillOrExtendTokens := m.numActualTokens - numDecodeTokens
      if !isPrefill.any id then
        return ⟨numDecodes, numPrefillsOrExtends, 0, numDecodeTokens, numPrefillOrExtendTokens, 0⟩
      else
        let numExtends := firstPrefill - numDecodes
        let numPrefills := m.numReqs - firstPrefill
        let prefillStart ← getItem m.queryStartLocCpu firstPrefill
        let numPrefillTokens := m.numActualTokens - prefillStart
        let numExtendTokens := numPrefillOrExtendTokens - numPrefillTokens
        return ⟨numDecodes, numExtends, numPrefills, numDecodeTokens, numExtendTokens,
          numPrefillTokens⟩

/-! ### The batch is reordered -/

section Reorder
variable {ε γ : Type}

/-- `scheduler_output.num_scheduled_tokens[id]`. -/
def scheduledOf (numScheduledTokens : PyDict String Nat) (id : Option String) :
    Except PyError Nat :=
  match id.bind numScheduledTokens.get? with
  | some n => .ok n
  | none => .error (.keyError (id.getD "None"))

/-- The region of a row: `0` for decode, `1` for extend, `2` for prefill. -/
def reqRegion (decodeThreshold : Int) (numScheduledTokens numComputedTokens : Nat) : Nat :=
  let isDecode := decide ((numScheduledTokens : Int) ≤ decodeThreshold)
  let isExtend := !isDecode && decide (0 < numComputedTokens)
  let isPrefill := !isDecode && decide (numComputedTokens = 0)
  if isPrefill then 2 else if isExtend then 1 else 0

/-- `target_regions`: the desired order. -/
def targetRegions (numReqs numDecodes numExtends : Nat) : List Nat :=
  (List.range numReqs).map fun i =>
    if i < numDecodes then 0 else if i < numDecodes + numExtends then 1 else 2

/-- The loop `while src != dst`. Without an end after `fuel` rounds there is no result. -/
def swapCycle (src : Nat) :
    Nat → Nat → PyDict Nat Nat → InputBatch ε γ →
      Except PyError (Option (PyDict Nat Nat × InputBatch ε γ))
  | fuel, dst, srcDestMap, b =>
    if src = dst then .ok (some (srcDestMap, b))
    else
      match fuel with
      | 0 => .ok none
      | fuel + 1 => do
          let b ← b.swapStates src dst
          -- Mark `dst` as done by updating its destination to itself.
          let nextDst := (srcDestMap.get? dst).getD dst
          swapCycle src fuel nextDst (srcDestMap.insert dst dst) b

/-- The loop `for src in src_dest_map`. A new key in the loop would make Python stop. -/
def swapCycles (fuel : Nat) :
    List Nat → PyDict Nat Nat → InputBatch ε γ → Except PyError (Option (InputBatch ε γ))
  | [], _, b => .ok (some b)
  | src :: srcs, srcDestMap, b =>
    match srcDestMap.get? src with
    | none => .error (.keyError s!"{src}")
    | some dst => do
        match ← swapCycle src fuel dst srcDestMap b with
        | none => return none
        | some (srcDestMap', b) =>
          if srcDestMap'.size ≠ srcDestMap.size then
            .error (.runtimeError "dictionary changed size during iteration")
          else swapCycles fuel srcs srcDestMap' b

/-- `reorder_batch_to_split_decodes_and_prefills`: whether the batch was modified, and the batch. -/
def reorderBatchToSplitDecodesAndPrefills (b : InputBatch ε γ)
    (numScheduledTokens : PyDict String Nat) (decodeThreshold : Int) (fuel : Nat) :
    Except PyError (Option (Bool × InputBatch ε γ)) := do
  let numReqs := b.reqIds.length
  let numScheduledTokens ← b.reqIds.mapM (scheduledOf numScheduledTokens)
  let numComputedTokens := (List.range numReqs).map b.numComputedTokensCpu
  let reqRegions := List.zipWith (reqRegion decodeThreshold) numScheduledTokens numComputedTokens
  let targetRegions := targetRegions numReqs (reqRegions.count 0) (reqRegions.count 1)
  let needsSwap := List.zipWith (fun r t => decide (r ≠ t)) reqRegions targetRegions
  if !needsSwap.any id then
    return some (false, b)
  else
    -- The indices that need swapping, and the same sorted by target region.
    let origIndices := (List.range numReqs).filter fun i => needsSwap[i]?.getD false
    let srcIndices := origIndices.insertionSort fun i j =>
      reqRegions[i]?.getD 0 ≤ reqRegions[j]?.getD 0
    let srcDestMap : PyDict Nat Nat :=
      (srcIndices.zip origIndices).foldl (fun d e => d.insert e.1 e.2) .empty
    match ← swapCycles fuel srcDestMap.keys srcDestMap b with
    | none => return none
    | some b => return some (true, b)

end Reorder

end Vllm.V1.Attention
