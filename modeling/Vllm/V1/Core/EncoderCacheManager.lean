import Vllm.Lib.PyDict
import Vllm.V1.Request

/-!
# `Vllm.V1.Core.EncoderCacheManager`: the encoder cache (`vllm/v1/core/encoder_cache_manager.py`)

The bookkeeping of the outputs of multimodal encoders. `EncoderDecoderCacheManager` overrides
every method of `EncoderCacheManager`; the two are one structure here, with the class in a
field and the bodies side by side.

A set of request ids or of input ids is a list without repetition.
-/

set_option autoImplicit false

namespace Vllm.V1

open Vllm.Lib

/-- `embeds_cumsum[i]`, with the negative indices of Python. -/
def cumsumAt (isEmbed : List Bool) (i : Int) : Except PyError Nat :=
  let index := if i < 0 then i + isEmbed.length else i
  if 0 ≤ index ∧ index < isEmbed.length then .ok ((isEmbed.take (index.toNat + 1)).count true)
  else .error (.indexError "index out of range")

/-- `PlaceholderRange.get_num_embeds`. -/
def PlaceholderRange.getNumEmbeds (p : PlaceholderRange) : Except PyError Nat :=
  match p.isEmbed with
  | none => .ok p.length
  | some isEmbed => cumsumAt isEmbed (-1)

/-- `PlaceholderRange.get_embeds_indices_in_range`. -/
def PlaceholderRange.getEmbedsIndicesInRange (p : PlaceholderRange) (startIdx endIdx : Int) :
    Except PyError (Int × Int) :=
  match p.isEmbed with
  | none => .ok (startIdx, endIdx)
  | some isEmbed => do
      let embedsStartIdx ← (if 0 < startIdx then cumsumAt isEmbed (startIdx - 1) else .ok 0)
      let embedsEndIdx ← cumsumAt isEmbed (endIdx - 1)
      return (embedsStartIdx, embedsEndIdx)

/-- `request.mm_features[input_id]`. -/
def Request.mmFeature (r : Request) (inputId : Nat) : Except PyError MultiModalFeatureSpec :=
  match r.mmFeatures[inputId]? with
  | none => .error (.indexError "list index out of range")
  | some feature => .ok feature

/-- `get_num_encoder_embeds`. -/
def Request.getNumEncoderEmbeds (r : Request) (inputId : Nat) : Except PyError Nat := do
  pyAssert (inputId < r.mmFeatures.length) "input_id < len(self.mm_features)"
  let feature ← r.mmFeature inputId
  feature.mmPosition.getNumEmbeds

namespace Core

/-- `EncoderCacheManager` and `EncoderDecoderCacheManager`. -/
structure EncoderCacheManager where
  isEncoderDecoder : Bool
  cacheSize : Nat
  numFreeSlots : Int
  numFreeableSlots : Int
  /-- The hash of an item and the requests that refer to it. -/
  cached : PyDict String (List String) := PyDict.empty
  /-- The hash of an item without a reference and its number of embeddings, oldest first. -/
  freeable : PyDict String Nat := PyDict.empty
  freed : List String := []

namespace EncoderCacheManager

/-- The constructors. -/
def init (isEncoderDecoder : Bool) (cacheSize : Nat) : EncoderCacheManager :=
  { isEncoderDecoder, cacheSize, numFreeSlots := cacheSize, numFreeableSlots := cacheSize }

/-- `check_and_update_cache`. -/
def checkAndUpdateCache (e : EncoderCacheManager) (request : Request) (inputId : Nat) :
    Except PyError (Bool × EncoderCacheManager) :=
  if e.isEncoderDecoder then .ok (false, e)
  else do
    let feature ← request.mmFeature inputId
    match e.cached.get? feature.identifier with
    | none => .ok (false, e)
    | some requestIds =>
      let add (e : EncoderCacheManager) : EncoderCacheManager :=
        let requestIds := requestIds.insert request.requestId
        { e with cached := e.cached.insert feature.identifier requestIds }
      -- Cached but currently not referenced by any request.
      if requestIds.isEmpty then
        match e.freeable.get? feature.identifier with
        | none => .error (.keyError feature.identifier)
        | some numEncoderEmbeds => .ok (true, add { e with
            freeable := e.freeable.erase feature.identifier
            numFreeableSlots := e.numFreeableSlots - numEncoderEmbeds })
      else .ok (true, add e)

/-- The eviction loop of `can_allocate`. Every pass takes an entry out of `freeable`. -/
def evictLoop (numEmbeds : Int) : Nat → EncoderCacheManager → Except PyError EncoderCacheManager
  | 0, _ => .error (.keyError "dictionary is empty")
  | fuel + 1, e =>
    if e.numFreeSlots < numEmbeds then
      match e.freeable.entries with
      | [] => .error (.keyError "dictionary is empty")
      | (mmHash, numFreeEmbeds) :: _ =>
        if e.cached.contains mmHash then
          evictLoop numEmbeds fuel { e with
            freeable := e.freeable.erase mmHash
            cached := e.cached.erase mmHash
            freed := e.freed ++ [mmHash]
            numFreeSlots := e.numFreeSlots + numFreeEmbeds }
        else .error (.keyError mmHash)
    else .ok e

/-- `can_allocate`. -/
def canAllocate (e : EncoderCacheManager) (request : Request) (inputId : Nat)
    (encoderComputeBudget numEmbedsToSchedule : Int) :
    Except PyError (Bool × EncoderCacheManager) := do
  let numEmbeds ← request.getNumEncoderEmbeds inputId
  -- Not enough compute budget.
  if encoderComputeBudget < numEmbeds then return (false, e)
  else
    let needed := (numEmbeds : Int) + numEmbedsToSchedule
    if e.isEncoderDecoder then return (decide (needed ≤ e.numFreeSlots), e)
    else if needed ≤ e.numFreeSlots then return (true, e)
    -- Not enough reclaimable slots.
    else if e.numFreeableSlots < needed then return (false, e)
    else
      let e ← evictLoop needed (e.freeable.size + 1) e
      return (true, e)

/-- `allocate`. -/
def allocate (e : EncoderCacheManager) (request : Request) (inputId : Nat) :
    Except PyError EncoderCacheManager :=
  if e.isEncoderDecoder then do
    let numEncoderEmbeds ← request.getNumEncoderEmbeds inputId
    let feature ← request.mmFeature inputId
    return { e with
      numFreeSlots := e.numFreeSlots - numEncoderEmbeds
      freed := e.freed ++ [feature.identifier] }
  else do
    let feature ← request.mmFeature inputId
    let numEncoderEmbeds ← request.getNumEncoderEmbeds inputId
    pyAssert (numEncoderEmbeds ≤ e.numFreeSlots) "self.num_free_slots >= num_encoder_embeds"
    pyAssert (numEncoderEmbeds ≤ e.numFreeableSlots)
      "self.num_freeable_slots >= num_encoder_embeds"
    let requestIds := (e.cached.get? feature.identifier).getD []
    return { e with
      cached := e.cached.insert feature.identifier (requestIds.insert request.requestId)
      numFreeSlots := e.numFreeSlots - numEncoderEmbeds
      numFreeableSlots := e.numFreeableSlots - numEncoderEmbeds }

/-- `get_cached_input_ids`. -/
def getCachedInputIds (e : EncoderCacheManager) (request : Request) : List Nat :=
  if e.isEncoderDecoder then List.range request.mmFeatures.length
  else (List.range request.mmFeatures.length).filter fun inputId =>
    (request.mmFeatures[inputId]?).any fun feature => e.cached.contains feature.identifier

/-- `free_encoder_input`. -/
def freeEncoderInput (e : EncoderCacheManager) (request : Request) (inputId : Nat) :
    Except PyError EncoderCacheManager :=
  if e.isEncoderDecoder then do
    let numEncoderEmbeds ← request.getNumEncoderEmbeds inputId
    return { e with numFreeSlots := e.numFreeSlots + numEncoderEmbeds }
  else do
    let feature ← request.mmFeature inputId
    match e.cached.get? feature.identifier with
    | none => .ok e
    | some requestIds =>
      if requestIds.isEmpty then .ok e
      else
        let requestIds := requestIds.erase request.requestId
        let e := { e with cached := e.cached.insert feature.identifier requestIds }
        if requestIds.isEmpty then do
          let numEncoderEmbeds ← request.getNumEncoderEmbeds inputId
          return { e with
            freeable := e.freeable.insert feature.identifier numEncoderEmbeds
            numFreeableSlots := e.numFreeableSlots + numEncoderEmbeds }
        else .ok e

/-- `free`. -/
def free (e : EncoderCacheManager) (request : Request) : Except PyError EncoderCacheManager :=
  (e.getCachedInputIds request).foldlM (fun e inputId => e.freeEncoderInput request inputId) e

/-- `get_freed_mm_hashes`. -/
def getFreedMmHashes (e : EncoderCacheManager) : List String × EncoderCacheManager :=
  (e.freed, { e with freed := [] })

end EncoderCacheManager

end Core

end Vllm.V1
