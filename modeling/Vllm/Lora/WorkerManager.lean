import Vllm.Lib.PyDict
import Vllm.Lib.PyError

/-!
# `Vllm.Lora.WorkerManager`: the slots of the adapters
(`vllm/lora/model_manager.py`, `vllm/lora/worker_manager.py`)

A worker keeps adapters in memory (`_registered_adapters`) and some of them in the slots that the
kernels read (`_active_adapters`, `lora_index_to_id`). Both are LRU caches; what one of them drops
frees its slot. The kernels are told once for each mapping in which slots its adapters are.

* `AdapterLRUCache`: a cache of adapters, of which some are pinned.
* `LoRAState`: the two caches, the slots, and what the kernels were told last.
* `addAdapter`, `removeAdapter`, `pinAdapter`, `setActiveAdapters`: the calls of
  `LRUCacheWorkerLoRAManager`. `step` is one of them.

A call that raises leaves what it has changed so far: each function gives the state after it, and
the exception if there was one. The weights of an adapter and its loading are left out; a request
says whether its adapter can be loaded. The order of a cache has the keys of the cache, since `touch`
is only called for keys that are there.
-/

set_option autoImplicit false

namespace Vllm.Lora

open Vllm.Lib

/-- `LoRALRUCache`. The order is from the least to the most recently used adapter. -/
structure AdapterLRUCache where
  order : List Nat := []
  pinned : List Nat := []
deriving DecidableEq

namespace AdapterLRUCache

/-- `touch`, and what a lookup or an assignment does to the order. -/
def touch (c : AdapterLRUCache) (key : Nat) : AdapterLRUCache :=
  { c with order := c.order.filter (· ≠ key) ++ [key] }

/-- `__delitem__`, without the callback. -/
def delItem (c : AdapterLRUCache) (key : Nat) : AdapterLRUCache where
  order := c.order.filter (· ≠ key)
  pinned := c.pinned.filter (· ≠ key)

/-- `pinned_items.add`. -/
def addPin (c : AdapterLRUCache) (key : Nat) : AdapterLRUCache :=
  { c with pinned := if key ∈ c.pinned then c.pinned else c.pinned ++ [key] }

/-- The key that `popitem` removes. -/
def lruKey (c : AdapterLRUCache) : Option Nat := c.order.find? fun key => decide (key ∉ c.pinned)

end AdapterLRUCache

/-- `LoRAMapping`: the adapter of each token and of each prompt, or 0. -/
structure LoRAMapping where
  indexMapping : List Nat
  promptMapping : List Nat
  isPrefill : Bool := false
deriving DecidableEq

/-- What `punica_wrapper` keeps of a mapping: the slots, or -1. -/
structure PunicaMetadata where
  tokenLoraIndices : List Int
  samplerIndices : List Int
deriving DecidableEq

/-- The numbers of slots and of adapters in memory. The configuration checks both bounds. -/
structure LoRAConfig where
  maxLoras : Nat
  maxCpuLoras : Nat
  pos : 1 ≤ maxLoras
  le : maxLoras ≤ maxCpuLoras

/-- `LoRARequest`, and whether `_load_adapter` finds its adapter. -/
structure LoRARequest where
  loraIntId : Nat
  loads : Bool := true
deriving DecidableEq

/-- The state of the manager. -/
structure LoRAState where
  registeredAdapters : AdapterLRUCache := {}
  activeAdapters : AdapterLRUCache := {}
  loraIndexToId : List (Option Nat)
  lastMapping : Option LoRAMapping := none
  /-- What the wrapper was told last. -/
  metadata : Option PunicaMetadata := none
deriving DecidableEq

/-- A state after a call, and the exception that the call has raised. -/
abbrev CallResult := LoRAState × Option PyError

namespace LoRAState

/-- The manager is made. -/
def init (cfg : LoRAConfig) : LoRAState where
  loraIndexToId := List.replicate cfg.maxLoras none

/-- `_deactivate_adapter`. -/
def clearSlot (s : LoRAState) (loraId : Nat) : LoRAState :=
  { s with loraIndexToId := s.loraIndexToId.set (s.loraIndexToId.idxOf (some loraId)) none }

/-- `_active_adapters.pop`, with its callback. -/
def popActive (s : LoRAState) (loraId : Nat) : LoRAState :=
  if loraId ∈ s.activeAdapters.order then
    { s with activeAdapters := s.activeAdapters.delItem loraId }.clearSlot loraId
  else s

/-- `deactivate_adapter`. -/
def deactivateAdapter (s : LoRAState) (adapterId : Nat) : LoRAState :=
  if adapterId ∈ s.activeAdapters.order then (s.clearSlot adapterId).popActive adapterId else s

/-- `_registered_adapters.pop`, with its callback. -/
def popRegistered (s : LoRAState) (adapterId : Nat) : LoRAState :=
  if adapterId ∈ s.registeredAdapters.order then
    { s with registeredAdapters := s.registeredAdapters.delItem adapterId }.deactivateAdapter
      adapterId
  else s

/-- The exception of `popitem`. -/
def allPinned : PyError :=
  .runtimeError "All items are pinned, cannot remove oldest from the cache."

/-- `_active_adapters.remove_oldest`. -/
def removeOldestActive (s : LoRAState) : CallResult :=
  if s.activeAdapters.order = [] then (s, none)
  else
    match s.activeAdapters.lruKey with
    | none => (s, some allPinned)
    | some lruKey => (s.popActive lruKey, none)

/-- `remove_oldest_adapter`. -/
def removeOldestAdapter (s : LoRAState) : CallResult :=
  if s.registeredAdapters.order = [] then (s, none)
  else
    match s.registeredAdapters.lruKey with
    | none => (s, some allPinned)
    | some lruKey => (s.popRegistered lruKey, none)

/-- `LoRAModelManager.activate_adapter`. -/
def activateInSlot (s : LoRAState) (loraId : Nat) : CallResult :=
  if loraId ∈ s.activeAdapters.order then (s, none)
  else if none ∈ s.loraIndexToId then
    let index := s.loraIndexToId.idxOf none
    let s := { s with activeAdapters := s.activeAdapters.touch loraId }
    if loraId ∈ s.registeredAdapters.order then
      ({ s with
        registeredAdapters := s.registeredAdapters.touch loraId
        loraIndexToId := s.loraIndexToId.set index (some loraId) }, none)
    else (s, some (.keyError (toString loraId)))
  else (s, some (.valueError "No free lora slots"))

/-- `activate_adapter`. -/
def activateAdapter (cfg : LoRAConfig) (s : LoRAState) (loraId : Nat) : CallResult :=
  match (if loraId ∉ s.activeAdapters.order ∧ cfg.maxLoras ≤ s.activeAdapters.order.length then
      s.removeOldestActive
    else (s, none)) with
  | (s, some e) => (s, some e)
  | (s, none) =>
    match s.activateInSlot loraId with
    | (s, some e) => (s, some e)
    | (s, none) => ({ s with activeAdapters := s.activeAdapters.touch loraId }, none)

/-- `add_adapter`. -/
def addAdapter (cfg : LoRAConfig) (s : LoRAState) (loraRequest : LoRARequest) : CallResult :=
  if loraRequest.loraIntId ∉ s.registeredAdapters.order then
    if loraRequest.loads = false then (s, some (.valueError "Loading lora failed"))
    else
      match (if cfg.maxCpuLoras < s.registeredAdapters.order.length + 1 then s.removeOldestAdapter
        else (s, none)) with
      | (s, some e) => (s, some e)
      | (s, none) =>
        -- There is room now, so the assignment evicts nothing.
        { s with
          registeredAdapters := s.registeredAdapters.touch loraRequest.loraIntId }.activateAdapter
            cfg loraRequest.loraIntId
  else
    { s with
      registeredAdapters := s.registeredAdapters.touch loraRequest.loraIntId }.activateAdapter cfg
        loraRequest.loraIntId

/-- `remove_adapter`. -/
def removeAdapter (s : LoRAState) (adapterId : Nat) : LoRAState :=
  (s.deactivateAdapter adapterId).popRegistered adapterId

/-- `pin_adapter`. -/
def pinAdapter (cfg : LoRAConfig) (s : LoRAState) (loraId : Nat) : CallResult :=
  if loraId ∈ s.registeredAdapters.order then
    let s := { s with registeredAdapters := s.registeredAdapters.addPin loraId }
    match (if loraId ∈ s.activeAdapters.order then (s, none) else s.activateAdapter cfg loraId) with
    | (s, some e) => (s, some e)
    | (s, none) => ({ s with activeAdapters := s.activeAdapters.addPin loraId }, none)
  else (s, some (.valueError ("Pinning failed. LoRA " ++ toString loraId ++ " is not registered.")))

/-- The slot of an adapter of a mapping: `lora_index_to_id.index(x) if x > 0 else -1`. -/
def slotOf (loraIndexToId : List (Option Nat)) (x : Nat) : Except PyError Int :=
  if 0 < x then
    if some x ∈ loraIndexToId then .ok (loraIndexToId.idxOf (some x))
    else .error (.valueError (toString x ++ " is not in list"))
  else .ok (-1)

/-- `convert_mapping`, as far as it says where the adapters are. -/
def convertMapping (mapping : LoRAMapping) (loraIndexToId : List (Option Nat)) :
    Except PyError PunicaMetadata := do
  let promptMapping ← mapping.promptMapping.mapM (slotOf loraIndexToId)
  let loraIndices ← mapping.indexMapping.mapM (slotOf loraIndexToId)
  .ok {
    tokenLoraIndices := loraIndices
    samplerIndices := promptMapping }

/-- `set_adapter_mapping`. -/
def setAdapterMapping (s : LoRAState) (mapping : LoRAMapping) : CallResult :=
  if s.lastMapping = some mapping then (s, none)
  else
    match convertMapping mapping s.loraIndexToId with
    | .error e => (s, some e)
    | .ok metadata => ({ s with
        metadata := some metadata
        lastMapping := some mapping }, none)

/-- `loras_map`: the last request of each adapter. -/
def lorasMap (loraRequests : List LoRARequest) : PyDict Nat LoRARequest :=
  loraRequests.foldl (fun d r => d.insert r.loraIntId r) .empty

/-- The loop of `_apply_adapters`. -/
def addAdapters (cfg : LoRAConfig) : LoRAState → List LoRARequest → CallResult
  | s, [] => (s, none)
  | s, lora :: loras =>
    match s.addAdapter cfg lora with
    | (s, some e) => (s, some e)
    | (s, none) => addAdapters cfg s loras

/-- `_apply_adapters`. -/
def applyAdapters (cfg : LoRAConfig) (s : LoRAState) (loraRequests : List LoRARequest) :
    CallResult :=
  if cfg.maxLoras < (lorasMap loraRequests).size then
    (s, some (.runtimeError ("Number of requested LoRAs (" ++
      toString (lorasMap loraRequests).size ++
      ") is greater than the number of GPU LoRA slots (" ++ toString cfg.maxLoras ++ ").")))
  else addAdapters cfg s (lorasMap loraRequests).values

/-- `set_active_adapters`. The requests are a set, in any order. -/
def setActiveAdapters (cfg : LoRAConfig) (s : LoRAState) (requests : List LoRARequest)
    (mapping : Option LoRAMapping) : CallResult :=
  match s.applyAdapters cfg requests with
  | (s, some e) => (s, some e)
  | (s, none) =>
    match mapping with
    | none => (s, none)
    | some mapping => s.setAdapterMapping mapping

/-- A call. -/
inductive LoRAOp where
  | addAdapter (loraRequest : LoRARequest)
  | removeAdapter (adapterId : Nat)
  | pinAdapter (adapterId : Nat)
  | setActiveAdapters (requests : List LoRARequest) (mapping : Option LoRAMapping)
deriving DecidableEq

/-- The state and the exception after a call. -/
def call (cfg : LoRAConfig) (s : LoRAState) : LoRAOp → CallResult
  | .addAdapter loraRequest => s.addAdapter cfg loraRequest
  | .removeAdapter adapterId => (s.removeAdapter adapterId, none)
  | .pinAdapter adapterId => s.pinAdapter cfg adapterId
  | .setActiveAdapters requests mapping => s.setActiveAdapters cfg requests mapping

/-- One step. The engine goes on after a call that has raised. -/
def step (cfg : LoRAConfig) (s : LoRAState) (op : LoRAOp) : Except PyError LoRAState :=
  .ok (s.call cfg op).1

end LoRAState

end Vllm.Lora
