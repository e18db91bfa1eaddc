import Vllm.Distributed.ShmObjectStorage

/-!
# `Vllm.Multimodal.ShmObjectStoreCache`: the shared-memory cache (`vllm/multimodal/cache.py`)

The front-end (`ShmObjectStoreSenderCache`) puts the items of a request into the object storage
and sends their addresses, the workers (`ShmObjectStoreReceiverCache`) read them there.

`_merge_mm_kwargs` (`vllm/multimodal/processing.py`) touches all items of the request first and
updates them after. `get_and_update_features` does the same in every worker. `step` is one call of
the writer or one access of a reader, so that they interleave in any order.
-/

set_option autoImplicit false

namespace Vllm.Multimodal

open Vllm.Lib Vllm.Distributed

/-- An item that is sent as its address. -/
structure AddressItem where
  address : Int
  monotonicId : Nat
  /-- Whether the item was in the cache when the request came, so that its touch was counted. -/
  cached : Bool
deriving DecidableEq

/-- `get_and_update_item` of the sender cache. `none` is an item that could not be stored and is
sent itself. -/
def getAndUpdateItem (s : SingleWriterShmObjectStorage) (mmItem : Option SerializedObject)
    (mmHash : String) : Except PyError (Option AddressItem) × SingleWriterShmObjectStorage :=
  if s.isCached mmHash then
    match s.getCached mmHash with
    | (.error e, s) => (.error e, s)
    | (.ok (address, monotonicId), s) =>
      (.ok (some { address, monotonicId, cached := mmItem.isNone }), s)
  else
    match mmItem with
    | none => (.error (.assertionError "Expected a cached item for mm_hash"), s)
    | some value =>
      match s.put mmHash value with
      | (.ok (address, monotonicId), s) =>
        (.ok (some { address, monotonicId, cached := false }), s)
      | (.error (.valueError _), s) => (.ok none, s)
      | (.error (.memoryError _), s) => (.ok none, s)
      | (.error e, s) => (.error e, s)

/-- The request that the front-end is at work on: the items that are not yet touched, those that
are not yet updated, and the addresses to send. The items that were in the cache have no data. -/
structure Merge where
  toTouch : List (String × SerializedObject) := []
  toUpdate : List (String × Option SerializedObject) := []
  features : List AddressItem := []
deriving DecidableEq

/-- An access that a reader has been told of. -/
inductive Access where
  | touch (item : AddressItem)
  | get (item : AddressItem)
deriving DecidableEq

/-- `get_and_update_features`: a reader touches all items of a request and then gets them. -/
def accesses (features : List AddressItem) : List Access :=
  features.map .touch ++ features.map .get

/-- The writer with the memory, and the accesses that each reader has not yet performed. -/
structure ShmCache where
  storage : SingleWriterShmObjectStorage
  merge : Option Merge := none
  readers : List (List Access)

/-- What happens in the system. -/
inductive ShmOp where
  /-- The front-end takes up a request with these items. -/
  | takeRequest (items : List (String × SerializedObject))
  /-- The next `touch_sender_cache_item` of the request. -/
  | touch
  /-- The next `get_and_update_item` of the request. -/
  | update
  /-- The request is forwarded to the readers. -/
  | send
  /-- Validation rejects the request. -/
  | reject
  | freeUnused
  /-- The reader performs its next access. -/
  | access (reader : Nat)
deriving DecidableEq

namespace ShmCache

/-- The caches at the start. -/
def start (dataBufferSize : ℕ+) (maxObjectSize nReaders : Nat) : ShmCache where
  storage := { maxObjectSize, nReaders, ringBuffer := { dataBufferSize, isWriter := true } }
  readers := List.replicate nReaders []

/-- The next touch: an item that is cached is not processed again and has no data. -/
def touchNext (c : ShmCache) (m : Merge) : ShmCache :=
  match m.toTouch with
  | [] => c
  | (mmHash, value) :: toTouch =>
    { c with
      storage := c.storage.touchWriter mmHash
      merge := some { m with
        toTouch
        toUpdate := m.toUpdate ++
          [(mmHash, if c.storage.isCached mmHash then none else some value)] } }

/-- The next update. An exception ends the request. -/
def updateNext (c : ShmCache) (m : Merge) : ShmCache :=
  match m.toTouch, m.toUpdate with
  | [], (mmHash, mmItem) :: toUpdate =>
    match getAndUpdateItem c.storage mmItem mmHash with
    | (.error _, storage) => { c with storage, merge := none }
    | (.ok feature, storage) =>
      { c with storage, merge := some { m with
          toUpdate, features := m.features ++ feature.toList } }
  | _, _ => c

/-- The request is forwarded when all items are updated. -/
def sendNext (c : ShmCache) (m : Merge) : ShmCache :=
  match m.toTouch, m.toUpdate with
  | [], [] => { c with
      merge := none
      readers := c.readers.map (· ++ accesses m.features) }
  | _, _ => c

/-- An access of a reader. -/
def perform (s : SingleWriterShmObjectStorage) :
    Access → Except PyError SingleWriterShmObjectStorage
  | .touch item => s.touchReader item.address
  | .get item => return (← s.get item.address item.monotonicId).2

/-- One step. An operation that is not possible changes nothing; an exception in a reader ends
the worker. -/
def step (c : ShmCache) : ShmOp → Except PyError ShmCache
  | .takeRequest items =>
    match c.merge with
    | none => .ok { c with merge := some { toTouch := items } }
    | some _ => .ok c
  | .touch => .ok ((c.merge.map c.touchNext).getD c)
  | .update => .ok ((c.merge.map c.updateNext).getD c)
  | .send => .ok ((c.merge.map c.sendNext).getD c)
  | .reject =>
    match c.merge with
    | some { toTouch := [], toUpdate := [], .. } => .ok { c with merge := none }
    | _ => .ok c
  | .freeUnused => .ok { c with storage := c.storage.freeUnused.2 }
  | .access reader =>
    match c.readers[reader]? with
    | some (access :: rest) => do
        let storage ← perform c.storage access
        return { c with storage, readers := c.readers.set reader rest }
    | _ => .ok c

end ShmCache

end Vllm.Multimodal
