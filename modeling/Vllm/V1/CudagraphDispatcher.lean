import Vllm.Lib.PyError
import Mathlib.Data.List.Dedup
import Mathlib.Data.List.Sort

/-!
# `Vllm.V1.CudagraphDispatcher`: which CUDA graph a batch runs with
(`vllm/v1/cudagraph_dispatcher.py`, `vllm/forward_context.py`, `vllm/config/compilation.py`)

A CUDA graph is captured for a few numbers of tokens. At runtime a batch is padded to the next of
them, if it fits the largest.

* `CUDAGraphMode`: the modes of the configuration. The first three are also those of a batch.
* `CompilationConfig`: the capture sizes, in ascending order, and the table of padded sizes.
* `CudagraphDispatcher`: the keys of the graphs (`initializeCudagraphKeys`), and the choice among
  them (`dispatch`).

The dispatcher trusts `cudagraph_mode` as the attention backends have resolved it. What is captured
under a key is left out.
-/

set_option autoImplicit false

namespace Vllm.V1

open Vllm.Lib

/-! ### Modes and descriptors -/

/-- `CUDAGraphMode`. -/
inductive CUDAGraphMode where
  | none
  | piecewise
  | full
  | fullDecodeOnly
  | fullAndPiecewise
deriving DecidableEq, Repr

namespace CUDAGraphMode

/-- `separate_routine`: the value is a pair. -/
def separateRoutine : CUDAGraphMode → Bool
  | fullDecodeOnly | fullAndPiecewise => true
  | none | piecewise | full => false

/-- `decode_mode`. -/
def decodeMode : CUDAGraphMode → CUDAGraphMode
  | fullDecodeOnly | fullAndPiecewise => full
  | mode => mode

/-- `mixed_mode`. -/
def mixedMode : CUDAGraphMode → CUDAGraphMode
  | fullDecodeOnly => none
  | fullAndPiecewise => piecewise
  | mode => mode

/-- `has_mode`, for one of the first three modes. -/
def hasMode (self mode : CUDAGraphMode) : Bool := self.decodeMode = mode || self.mixedMode = mode

/-- `value`, for one of the first three modes. -/
def value : CUDAGraphMode → Nat
  | none => 0
  | piecewise => 1
  | full | fullDecodeOnly | fullAndPiecewise => 2

end CUDAGraphMode

/-- `BatchDescriptor`. -/
structure BatchDescriptor where
  numTokens : Nat
  numReqs : Option Nat := none
  uniform : Bool := false
  hasLora : Bool := false
deriving DecidableEq, Repr

/-- `relax_for_mixed_batch_cudagraphs`. -/
def BatchDescriptor.relaxForMixedBatchCudagraphs (desc : BatchDescriptor) : BatchDescriptor where
  numTokens := desc.numTokens
  hasLora := desc.hasLora

/-! ### Capture sizes -/

/-- `round_up`. -/
def roundUp (x y : Nat) : Nat := (x + y - 1) / y * y

/-- `CompilationConfig`, as `_set_cudagraph_sizes` leaves it: `max_cudagraph_capture_size` is the
last of the capture sizes, or 0. A graph of no tokens cannot be captured. -/
structure CompilationConfig where
  cudagraphMode : CUDAGraphMode
  cudagraphCaptureSizes : List Nat
  cudagraphSpecializeLora : Bool := true
  enableSp : Bool := false
  sorted : cudagraphCaptureSizes.Pairwise (· < ·)
  pos : ∀ size ∈ cudagraphCaptureSizes, 0 < size

namespace CompilationConfig

/-- `max_cudagraph_capture_size`. -/
def maxCudagraphCaptureSize (cfg : CompilationConfig) : Nat :=
  cfg.cudagraphCaptureSizes.getLast?.getD 0

/-- The inner loop of `compute_bs_to_padded_graph_size`, over `range(start, end)`. -/
def fillRange (start stop : Nat) (table : List Nat) : List Nat :=
  (List.range' start (stop - start)).foldl
    (fun table bs => table.set bs (if bs = start then start else stop)) table

/-- `compute_bs_to_padded_graph_size`. -/
def bsToPaddedGraphSize (cfg : CompilationConfig) : List Nat :=
  ((cfg.cudagraphCaptureSizes ++ [cfg.maxCudagraphCaptureSize + 1]).zip
      (0 :: cfg.cudagraphCaptureSizes)).foldl
    (fun table e => fillRange e.2 e.1 table) (List.replicate (cfg.maxCudagraphCaptureSize + 1) 0)

/-- `pad_for_cudagraph`. -/
def padForCudagraph (cfg : CompilationConfig) (batchSize : Nat) : Except PyError Nat :=
  match cfg.bsToPaddedGraphSize[batchSize]? with
  | some size => .ok size
  | none => .error (.indexError "list index out of range")

/-- `sorted(set(...))`. -/
def sortedSet (sizes : List Nat) : List Nat := sizes.dedup.insertionSort (· ≤ ·)

theorem sorted_sortedSet (sizes : List Nat) : (sortedSet sizes).Pairwise (· < ·) := by
  have hle := List.pairwise_insertionSort (· ≤ ·) sizes.dedup
  have hnodup : (sortedSet sizes).Nodup :=
    (List.perm_insertionSort (· ≤ ·) sizes.dedup).nodup_iff.mpr sizes.nodup_dedup
  exact (hle.and hnodup).imp fun h => Nat.lt_of_le_of_ne h.1 h.2

/-- The sizes that are left after rounding, in `adjust_cudagraph_sizes_for_spec_decode`. -/
def roundedSizes (cfg : CompilationConfig) (multipleOf : Nat) : List Nat :=
  let rounded := sortedSet ((cfg.cudagraphCaptureSizes.map fun size => roundUp size multipleOf).filter
    fun size => size ≤ cfg.maxCudagraphCaptureSize)
  if rounded.isEmpty ∧ multipleOf ≤ cfg.maxCudagraphCaptureSize then [multipleOf] else rounded

theorem sorted_roundedSizes (cfg : CompilationConfig) (multipleOf : Nat) :
    (cfg.roundedSizes multipleOf).Pairwise (· < ·) := by
  unfold roundedSizes
  dsimp only
  split
  · exact List.pairwise_singleton ..
  · exact sorted_sortedSet _

theorem le_roundUp (x : Nat) {y : Nat} (hy : 0 < y) : x ≤ roundUp x y := by
  unfold roundUp
  have := Nat.lt_div_mul_add hy (a := x + y - 1)
  omega

theorem pos_roundedSizes (cfg : CompilationConfig) {multipleOf : Nat} (hpos : 0 < multipleOf) :
    ∀ size ∈ cfg.roundedSizes multipleOf, 0 < size := by
  intro size hsize
  unfold roundedSizes at hsize
  dsimp only at hsize
  split at hsize
  · rw [List.mem_singleton.mp hsize]
    exact hpos
  · unfold sortedSet at hsize
    rw [List.mem_insertionSort, List.mem_dedup, List.mem_filter] at hsize
    obtain ⟨x, hx, rfl⟩ := List.mem_map.mp hsize.1
    exact Nat.lt_of_lt_of_le (cfg.pos x hx) (le_roundUp x hpos)

/-- The end of `adjust_cudagraph_sizes_for_spec_decode`, with `multiple_of`. -/
def roundCaptureSizes (cfg : CompilationConfig) (multipleOf : Nat) :
    Except PyError CompilationConfig :=
  if hsizes : cfg.cudagraphCaptureSizes.isEmpty ∨ multipleOf ≤ 1 then .ok cfg
  else if (cfg.roundedSizes multipleOf).isEmpty then
    .error (.valueError "No valid cudagraph sizes after rounding")
  else .ok { cfg with
    cudagraphCaptureSizes := cfg.roundedSizes multipleOf
    sorted := cfg.sorted_roundedSizes multipleOf
    pos := cfg.pos_roundedSizes (by omega) }

/-- `adjust_cudagraph_sizes_for_spec_decode`. -/
def adjustCudagraphSizesForSpecDecode (cfg : CompilationConfig)
    (uniformDecodeQueryLen tensorParallelSize : Nat) : Except PyError CompilationConfig :=
  if 1 < tensorParallelSize ∧ cfg.enableSp = true then
    let multipleOf := max uniformDecodeQueryLen tensorParallelSize
    if multipleOf % uniformDecodeQueryLen ≠ 0 ∨ multipleOf % tensorParallelSize ≠ 0 then
      .error (.valueError "Can't determine cudagraph shapes")
    else cfg.roundCaptureSizes multipleOf
  else cfg.roundCaptureSizes uniformDecodeQueryLen

/-- What `_set_cudagraph_sizes` reads. -/
structure SizesConfig where
  /-- There is a model, and it does not have `enforce_eager`. -/
  useCudagraph : Bool := true
  cudagraphMode : CUDAGraphMode
  maxCudagraphCaptureSize : Option Nat := none
  cudagraphCaptureSizes : Option (List Nat) := none
  maxNumSeqs : Nat
  numSpeculativeTokens : Nat := 0
  maxNumBatchedTokens : Nat
  tensorParallelSize : Nat := 1
  enableSp : Bool := false

/-- `range(start, stop, step)`. -/
def pyRange (start stop step : Nat) : List Nat :=
  List.range' start ((stop - start + step - 1) / step) step

/-- 1, 2, 4, then multiples of 8 below 256 and then multiples of 16, up to `max_size`. -/
def defaultSizes (maxSize : Nat) : List Nat :=
  [1, 2, 4].filter (· ≤ maxSize) ++
    (if 8 ≤ maxSize then pyRange 8 (min (maxSize + 1) 256) 8 else []) ++
    if 256 ≤ maxSize then pyRange 256 (maxSize + 1) 16 else []

/-- `_set_cudagraph_sizes`: the capture sizes. -/
def setCudagraphSizes (c : SizesConfig) : Except PyError (List Nat) :=
  if c.useCudagraph = true ∧ c.cudagraphMode ≠ .none then do
    let maxSize := min c.maxNumBatchedTokens (c.maxCudagraphCaptureSize.getD
      (min (c.maxNumSeqs * (1 + c.numSpeculativeTokens) * 2) 512))
    pyAssert (1 ≤ maxSize)
      "Maximum cudagraph size should be greater than or equal to 1 when using cuda graph."
    let sizes ← (match c.cudagraphCaptureSizes with
      | none => .ok (defaultSizes maxSize)
      | some sizes => do
        pyAssert (!sizes.isEmpty)
          "cudagraph_capture_sizes should contain at least one element when using cuda graph."
        return sortedSet (sizes.filter (· ≤ c.maxNumBatchedTokens)))
    let sizes := if 1 < c.tensorParallelSize ∧ c.enableSp = true then
      sizes.filter (· % c.tensorParallelSize = 0) else sizes
    let validMaxSize := sizes.getLast?.getD 0
    if c.cudagraphCaptureSizes.isSome = true ∧
        c.maxCudagraphCaptureSize.any (· ≠ validMaxSize) = true then
      .error (.valueError (s!"customized max_cudagraph_capture_size" ++
        s!"(={c.maxCudagraphCaptureSize.getD 0}) should be consistent with the max value of " ++
        s!"cudagraph_capture_sizes(={validMaxSize})"))
    else return sizes
  else return []

end CompilationConfig

/-! ### The dispatcher -/

/-- What the dispatcher reads of `VllmConfig`. -/
structure VllmConfig where
  compilationConfig : CompilationConfig
  /-- `lora_config` is there. -/
  lora : Bool := false
  /-- `num_speculative_tokens`, or 0 without `speculative_config`. -/
  numSpeculativeTokens : Nat := 0
  maxNumSeqs : Nat
  tensorParallelSize : Nat := 1

namespace VllmConfig

/-- `uniform_decode_query_len`. -/
def uniformDecodeQueryLen (cfg : VllmConfig) : Nat := 1 + cfg.numSpeculativeTokens

/-- `_create_padded_batch_descriptor`. -/
def createPaddedBatchDescriptor (cfg : VllmConfig) (numTokens : Nat)
    (uniformDecode hasLora : Bool) : Except PyError BatchDescriptor := do
  let numTokensPadded ← cfg.compilationConfig.padForCudagraph numTokens
  if uniformDecode && cfg.compilationConfig.cudagraphMode.hasMode .full then do
    pyAssert (numTokensPadded % cfg.uniformDecodeQueryLen = 0)
      "num_tokens_padded % uniform_decode_query_len == 0"
    return {
      numTokens := numTokensPadded
      numReqs := some (numTokensPadded / cfg.uniformDecodeQueryLen)
      uniform := true
      hasLora }
  else return {
    numTokens := numTokensPadded
    numReqs := some (min numTokensPadded cfg.maxNumSeqs)
    hasLora }

/-- The LoRA cases that graphs are specialised on. -/
def loraCases (cfg : VllmConfig) : List Bool :=
  if cfg.lora then
    if cfg.compilationConfig.cudagraphSpecializeLora then [true, false] else [true]
  else [false]

end VllmConfig

/-- `cudagraph_keys`. -/
structure CudagraphKeys where
  piecewise : List BatchDescriptor := []
  full : List BatchDescriptor := []

/-- `add_cudagraph_key`. -/
def CudagraphKeys.add (keys : CudagraphKeys) (mode : CUDAGraphMode) (desc : BatchDescriptor) :
    Except PyError CudagraphKeys :=
  match mode with
  | .piecewise => .ok { keys with piecewise := keys.piecewise.insert desc }
  | .full => .ok { keys with full := keys.full.insert desc }
  | _ => .error (.assertionError "Invalid cudagraph runtime mode for keys")

/-- `CudagraphDispatcher`, after `initialize_cudagraph_keys`. -/
structure CudagraphDispatcher where
  cfg : VllmConfig
  keys : CudagraphKeys

namespace CudagraphDispatcher

/-- A loop over capture sizes and LoRA cases. `desc` makes the descriptor of a key. -/
def addKeys (mode : CUDAGraphMode) (desc : Nat → Bool → Except PyError BatchDescriptor) :
    List (Nat × Bool) → CudagraphKeys → Except PyError CudagraphKeys
  | [], keys => .ok keys
  | (bs, hasLora) :: rest, keys => do
      let desc' ← desc bs hasLora
      let keys ← keys.add mode desc'
      addKeys mode desc rest keys

/-- The capture sizes of graphs that only uniform decode batches use. -/
def decodeSizes (cfg : VllmConfig) : List Nat :=
  cfg.compilationConfig.cudagraphCaptureSizes.filter fun x =>
    x ≤ cfg.uniformDecodeQueryLen * cfg.maxNumSeqs ∧ cfg.uniformDecodeQueryLen ≤ x

/-- `initialize_cudagraph_keys`. -/
def initializeCudagraphKeys (cfg : VllmConfig) : Except PyError CudagraphDispatcher := do
  let mode := cfg.compilationConfig.cudagraphMode
  let keys ← (if mode.mixedMode ≠ .none then
    addKeys mode.mixedMode
      (fun bs hasLora => do
        let desc ← cfg.createPaddedBatchDescriptor bs false hasLora
        return desc.relaxForMixedBatchCudagraphs)
      (cfg.compilationConfig.cudagraphCaptureSizes.product cfg.loraCases) {}
    else .ok {})
  let keys ← (if mode.decodeMode = .full ∧ mode.separateRoutine = true then
    addKeys .full (fun bs hasLora => cfg.createPaddedBatchDescriptor bs true hasLora)
      ((decodeSizes cfg).product cfg.loraCases) keys
    else .ok keys)
  return {
    cfg
    keys }

/-- The end of `_check_and_update_cudagraph_mode`: the sizes are adjusted to speculative decoding
when there are graphs of their own for decoding. -/
def checkAndUpdateCudagraphMode (cfg : VllmConfig) : Except PyError CudagraphDispatcher := do
  let mode := cfg.compilationConfig.cudagraphMode
  let compilationConfig ← (if mode.decodeMode = .full ∧ mode.separateRoutine = true ∧
      1 < cfg.uniformDecodeQueryLen then
    cfg.compilationConfig.adjustCudagraphSizesForSpecDecode cfg.uniformDecodeQueryLen
      cfg.tensorParallelSize
    else .ok cfg.compilationConfig)
  initializeCudagraphKeys { cfg with compilationConfig }

/-- `dispatch`. -/
def dispatch (d : CudagraphDispatcher) (numTokens : Nat) (uniformDecode hasLora disableFull : Bool) :
    Except PyError (CUDAGraphMode × BatchDescriptor) :=
  if d.cfg.compilationConfig.cudagraphMode = .none ∨
      d.cfg.compilationConfig.maxCudagraphCaptureSize < numTokens then
    .ok (.none, { numTokens })
  else do
    let batchDesc ← d.cfg.createPaddedBatchDescriptor numTokens uniformDecode hasLora
    let relaxedBatchDesc := batchDesc.relaxForMixedBatchCudagraphs
    if disableFull = false ∧ batchDesc ∈ d.keys.full then return (.full, batchDesc)
    else if disableFull = false ∧ relaxedBatchDesc ∈ d.keys.full then
      return (.full, relaxedBatchDesc)
    else if relaxedBatchDesc ∈ d.keys.piecewise then return (.piecewise, relaxedBatchDesc)
    else return (.none, { numTokens })

end CudagraphDispatcher

end Vllm.V1
