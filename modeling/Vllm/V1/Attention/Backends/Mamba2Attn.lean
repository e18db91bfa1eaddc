import Vllm.V1.Attention.Backends.Utils

/-!
# `Vllm.V1.Attention.Backends.Mamba2Attn`: the chunks of the prefill requests
(`vllm/v1/attention/backends/mamba2_attn.py`)

The part of `Mamba2AttentionMetadataBuilder.build` that cuts the prefill tokens into chunks. The
tensors for the decode requests, the states and the convolution are left out.
-/

set_option autoImplicit false

namespace Vllm.V1.Attention

open Vllm.Lib Vllm.V1.Core Vllm.V1.Worker

/-- The lists that the loop over the prefill requests builds, and `seqlen_pos`. -/
structure PrefillChunks where
  cuChunkSeqlen : List Int := []
  seqIdx : List Nat := []
  lastChunkIndices : List Int := []
  seqlenPos : Int := 0
deriving DecidableEq

/-- A chunk with `chunk_len` tokens of the request. -/
def PrefillChunks.addChunk (reqIdx : Nat) (chunkLen : Int) (s : PrefillChunks) : PrefillChunks :=
  { s with
    seqIdx := s.seqIdx ++ [reqIdx]
    cuChunkSeqlen := s.cuChunkSeqlen ++ [s.seqlenPos]
    seqlenPos := s.seqlenPos + chunkLen }

/-- If computed tokens are not chunk-aligned, use the first chunk to finish it off. With the lists,
`this_new_tokens`. -/
def finishChunk (chunkSize : Int) (reqIdx : Nat) (numComputed newTokens : Int)
    (s : PrefillChunks) : Int × PrefillChunks :=
  if numComputed % chunkSize ≠ 0 then
    let chunkLen := min (cdiv numComputed chunkSize * chunkSize - numComputed) newTokens
    (newTokens - chunkLen, s.addChunk reqIdx chunkLen)
  else (newTokens, s)

/-- `for chunk in range(n_chunks)`. -/
def chunkLoop (chunkSize : Int) (reqIdx : Nat) : Nat → Int → PrefillChunks → Int × PrefillChunks
  | 0, newTokens, s => (newTokens, s)
  | nChunks + 1, newTokens, s =>
    let chunkLen := min chunkSize newTokens
    chunkLoop chunkSize reqIdx nChunks (newTokens - chunkLen) (s.addChunk reqIdx chunkLen)

/-- The chunks of the request `req_idx`. -/
def addRequestChunks (chunkSize : Int) (numComputedTokens queryStartLoc : List Int)
    (s : PrefillChunks) (reqIdx : Nat) : Except PyError PrefillChunks := do
  let thisNumComputed ← getItem numComputedTokens reqIdx
  let stop ← getItem queryStartLoc (reqIdx + 1)
  let start ← getItem queryStartLoc reqIdx
  let first := finishChunk chunkSize reqIdx thisNumComputed (stop - start) s
  let rest := chunkLoop chunkSize reqIdx (cdiv first.1 chunkSize).toNat first.1 first.2
  pyAssert (rest.1 == 0) ""
  return { rest.2 with
    lastChunkIndices := rest.2.lastChunkIndices ++ [(rest.2.cuChunkSeqlen.length : Int) - 1] }

/-- The chunks of the last `num_prefills` requests. -/
def buildPrefillChunks (chunkSize : Int) (m : CommonAttentionMetadata)
    (numPrefills numDecodeTokens : Nat) : Except PyError PrefillChunks := do
  let numComputedTokens :=
    (m.numComputedTokensCpu.take m.numReqs.toNat).drop (m.numReqs - numPrefills).toNat
  let queryStartLoc := (m.queryStartLocCpu.drop (m.queryStartLocCpu.length - (numPrefills + 1))).map
    (· - (numDecodeTokens : Int))
  let s ← (List.range numPrefills).foldlM
    (addRequestChunks chunkSize numComputedTokens queryStartLoc) {}
  return { s with cuChunkSeqlen := s.cuChunkSeqlen ++ [s.seqlenPos] }

end Vllm.V1.Attention
