import Vllm.Utils.LRUCache

/-!
# `Vllm.Multimodal.ProcessorCache`: the caches of the front-end and of the engine
(`vllm/multimodal/cache.py`)

`MultiModalProcessorSenderCache` stores the size of an item, `MultiModalReceiverCache` the item.
`_merge_mm_kwargs` (`vllm/multimodal/processing.py`) updates the sender cache before the request is
validated (`vllm/v1/engine/input_processor.py`).

The features of a request are sent in the order in which its items were updated.
-/

set_option autoImplicit false

namespace Vllm.Multimodal

open Vllm.Lib Vllm.Utils

/-- `MultiModalProcessorCacheItemMetadata`. -/
structure ItemMetadata (υ : Type) where
  itemSize : Nat
  promptUpdates : υ
deriving DecidableEq

/-- A feature of a request: the hash of the item, and the item where it is sent. -/
structure Feature (ι : Type) where
  identifier : String
  data : Option ι
deriving DecidableEq

/-- An item of a request, as it is processed when it is not in the cache. -/
structure MMItem (ι υ : Type) where
  mmHash : String
  item : ι
  promptUpdates : υ
deriving DecidableEq

variable {ι υ : Type} (lib : Cachetools) (getItemSize : ι → Nat)

/-! ### The sender -/

/-- The cache of the front-end. -/
abbrev SenderCache (υ : Type) := LRUCache (ItemMetadata υ)

namespace SenderCache

/-- `get_and_update_item`. `None` is sent in place of an item that is in the cache. -/
def getAndUpdateItem (c : SenderCache υ) (mmItem : Option (ι × υ)) (mmHash : String) :
    Except Stop (Option ι × υ) × SenderCache υ :=
  match c.get mmHash with
  | (some cachedItem, c) => (.ok (none, cachedItem.promptUpdates), c)
  | (none, c) =>
    match mmItem with
    | none => (.error (.raises (.assertionError "Expected a cached item for mm_hash")), c)
    | some (item, promptUpdates) =>
      match c.setItem lib ItemMetadata.itemSize mmHash
          { itemSize := getItemSize item, promptUpdates } with
      | (.error e, c) => (.error e, c)
      | (.ok (), c) => (.ok (some item, promptUpdates), c)

/-- The updates of `_merge_mm_kwargs`. -/
def updateItems (c : SenderCache υ) :
    List (String × Option (ι × υ)) → Except Stop (List (Feature ι)) × SenderCache υ
  | [] => (.ok [], c)
  | (mmHash, mmItem) :: rest =>
    match getAndUpdateItem lib getItemSize c mmItem mmHash with
    | (.error e, c) => (.error e, c)
    | (.ok (data, _), c) =>
      match updateItems c rest with
      | (.error e, c) => (.error e, c)
      | (.ok features, c) => (.ok ({ identifier := mmHash, data } :: features), c)

/-- What is left to process of the items: those that are in the cache have no data. -/
def missing (c : SenderCache υ) (items : List (MMItem ι υ)) : List (String × Option (ι × υ)) :=
  items.map fun i => (i.mmHash, if c.contains i.mmHash then none else some (i.item, i.promptUpdates))

/-- `_merge_mm_kwargs`: all items are touched and then updated. -/
def mergeMmKwargs (c : SenderCache υ) (items : List (MMItem ι υ)) :
    Except Stop (List (Feature ι)) × SenderCache υ :=
  updateItems lib getItemSize (items.foldl (fun c i => c.touch i.mmHash) c) (c.missing items)

end SenderCache

/-! ### The receiver -/

/-- The cache of the engine. -/
abbrev ReceiverCache (ι : Type) := LRUCache ι

namespace ReceiverCache

/-- `get_and_update_item`. -/
def getAndUpdateItem (c : ReceiverCache ι) (mmItem : Option ι) (mmHash : String) :
    Except Stop ι × ReceiverCache ι :=
  match c.get mmHash with
  | (some cachedItem, c) => (.ok cachedItem, c)
  | (none, c) =>
    match mmItem with
    | none => (.error (.raises (.assertionError "Expected a cached item for mm_hash")), c)
    | some mmItem =>
      match c.setItem lib getItemSize mmHash mmItem with
      | (.error e, c) => (.error e, c)
      | (.ok (), c) => (.ok mmItem, c)

/-- The updates of `get_and_update_features`. -/
def updateFeatures (c : ReceiverCache ι) :
    List (Feature ι) → Except Stop (List ι) × ReceiverCache ι
  | [] => (.ok [], c)
  | feature :: rest =>
    match getAndUpdateItem lib getItemSize c feature.data feature.identifier with
    | (.error e, c) => (.error e, c)
    | (.ok item, c) =>
      match updateFeatures c rest with
      | (.error e, c) => (.error e, c)
      | (.ok items, c) => (.ok (item :: items), c)

/-- `get_and_update_features`. -/
def getAndUpdateFeatures (c : ReceiverCache ι) (features : List (Feature ι)) :
    Except Stop (List ι) × ReceiverCache ι :=
  updateFeatures lib getItemSize (features.foldl (fun c f => c.touch f.identifier) c) features

end ReceiverCache

/-! ### The two processes -/

/-- The caches, and the requests that are forwarded and not yet received. -/
structure MMCaches (ι υ : Type) where
  sender : SenderCache υ
  receiver : ReceiverCache ι
  sent : List (List (Feature ι)) := []
deriving DecidableEq

/-- What happens in the two processes. -/
inductive MMOp (ι υ : Type) where
  /-- The front-end preprocesses a request; `valid` is whether validation accepts it after that. -/
  | processInputs (items : List (MMItem ι υ)) (valid : Bool)
  /-- The engine takes the next request. -/
  | receive
deriving DecidableEq

namespace MMCaches

/-- Both caches are empty, with the same capacity. -/
def start (capacity : Nat) : MMCaches ι υ where
  sender := { capacity }
  receiver := { capacity }

/-- One step. A request that is rejected, or whose processing raises, leaves the cache of the
front-end as it is by then. An exception in the engine ends its input thread. -/
def step (s : MMCaches ι υ) : MMOp ι υ → Except Stop (MMCaches ι υ)
  | .processInputs items valid =>
    match s.sender.mergeMmKwargs lib getItemSize items with
    | (.error .loops, _) => .error .loops
    | (.error (.raises _), sender) => .ok { s with sender }
    | (.ok features, sender) =>
      .ok { s with sender, sent := if valid then s.sent ++ [features] else s.sent }
  | .receive =>
    match s.sent with
    | [] => .ok s
    | features :: sent =>
      match s.receiver.getAndUpdateFeatures lib getItemSize features with
      | (.error e, _) => .error e
      | (.ok _, receiver) => .ok { s with receiver, sent }

end MMCaches

end Vllm.Multimodal
