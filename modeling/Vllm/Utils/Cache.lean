import Mathlib.Data.NNRat.Defs
import Mathlib.Algebra.Order.Ring.Rat
import Vllm.Lib.PyDict
import Vllm.Lib.PyError
import Vllm.Lib.While

/-!
# `Vllm.Utils.Cache`: the whole LRU cache (`vllm/utils/cache.py`)

`Vllm.Utils.LRUCache` is the cache as the multi-modal caches use it. Here it has its pinned
items and all of its methods, for any keys, values and sizes.

The class extends `cachetools.LRUCache`, which keeps the order of use, and that one extends
`cachetools.Cache`, which keeps the values and their sizes. Its `__setitem__` refuses a value
that is larger than the cache, and makes room by calling `popitem` while the value does not
fit. `popitem` is overridden here.

A method that raises leaves what it has changed so far: each gives the state after it. The
methods with a loop take fuel, and give `none` when it was not enough. The statistics are left
out.
-/

set_option autoImplicit false

namespace Vllm.Utils

open Vllm.Lib

/-- An exception that a method raises. -/
inductive Raised where
  | error (e : PyError)
  | stopIteration
deriving DecidableEq

/-- `LRUCache`: `data` has the value of a key and its size, `order` the keys from the least to
the most recently used one. -/
structure Cache (κ ν : Type) [DecidableEq κ] where
  capacity : ℚ
  data : PyDict κ (ν × ℚ≥0) := .empty
  currsize : ℚ := 0
  order : PyDict κ Unit := .empty
  pinned : List κ := []

namespace Cache

variable {κ ν : Type} [DecidableEq κ]

/-- `len(self)`. -/
def len (c : Cache κ ν) : Nat := c.data.size

/-- `key in self`. -/
def contains (c : Cache κ ν) (key : κ) : Bool := c.data.contains key

/-- `touch`, and what the base class does to the order of a key that is read or written. -/
def touch (c : Cache κ ν) (key : κ) : Cache κ ν :=
  match c.order.moveToEnd? key with
  | some order => { c with order }
  | none => { c with order := c.order.insert key () }

/-- `__getitem__`. -/
def getItem (c : Cache κ ν) (key : κ) : Except Raised ν × Cache κ ν :=
  match c.data.get? key with
  | some (value, _) => (.ok value, c.touch key)
  | none => (.error (.error (.keyError "key")), c)

/-- `get`, without a default. -/
def get (c : Cache κ ν) (key : κ) : Except Raised (Option ν) × Cache κ ν :=
  if c.contains key then
    match c.getItem key with
    | (.error e, c) => (.error e, c)
    | (.ok value, c) => (.ok (some value), c)
  else (.ok none, c)

/-- `Cache.__delitem__` and `LRUCache.__delitem__` of the base classes. -/
def baseDelItem (c : Cache κ ν) (key : κ) : Except Raised Unit × Cache κ ν :=
  match c.data.get? key with
  | none => (.error (.error (.keyError "key")), c)
  | some (_, size) =>
    let c := { c with data := c.data.erase key, currsize := c.currsize - size }
    if c.order.contains key then (.ok (), { c with order := c.order.erase key })
    else (.error (.error (.keyError "key")), c)

/-- `__delitem__`. -/
def delItem (c : Cache κ ν) (key : κ) : Except Raised Unit × Cache κ ν :=
  match c.getItem key with
  | (.error e, c) => (.error e, c)
  | (.ok _, c) =>
    match c.baseDelItem key with
    | (.error e, c) => (.error e, c)
    | (.ok (), c) => (.ok (), { c with pinned := c.pinned.filter (· ≠ key) })

/-- `pop`, without a default. -/
def pop (c : Cache κ ν) (key : κ) : Except Raised (Option ν) × Cache κ ν :=
  if c.contains key = false then (.ok none, c)
  else
    match c.getItem key with
    | (.error e, c) => (.error e, c)
    | (.ok value, c) =>
      match c.delItem key with
      | (.error e, c) => (.error e, c)
      | (.ok (), c) => (.ok (some value), c)

/-- `pin`. -/
def pin (c : Cache κ ν) (key : κ) : Except Raised Unit × Cache κ ν :=
  if c.contains key = false then
    (.error (.error (.valueError "Cannot pin key: key not in cache.")), c)
  else (.ok (), { c with pinned := if key ∈ c.pinned then c.pinned else c.pinned ++ [key] })

/-- The key that `popitem` removes. -/
def lruKey (c : Cache κ ν) (removePinned : Bool) : Except Raised κ :=
  if removePinned then
    match c.order.keys.head? with
    | some key => .ok key
    | none => .error .stopIteration
  else
    match c.order.keys.find? (· ∉ c.pinned) with
    | some key => .ok key
    | none => .error (.error (.runtimeError
        "All items are pinned, cannot remove oldest from the cache."))

/-- `popitem`. -/
def popitem (c : Cache κ ν) (removePinned : Bool) :
    Except Raised (κ × Option ν) × Cache κ ν :=
  match c.lruKey removePinned with
  | .error e => (.error e, c)
  | .ok lruKey =>
    match c.pop lruKey with
    | (.error e, c) => (.error e, c)
    | (.ok value, c) => (.ok (lruKey, value), c)

/-- `popitem`, when its result is not used. -/
def popitemUnit (c : Cache κ ν) (removePinned : Bool) : Except Raised Unit × Cache κ ν :=
  match c.popitem removePinned with
  | (.error e, c) => (.error e, c)
  | (.ok _, c) => (.ok (), c)

/-- `remove_oldest`. -/
def removeOldest (c : Cache κ ν) (removePinned : Bool) : Except Raised Unit × Cache κ ν :=
  if c.len = 0 then (.ok (), c) else c.popitemUnit removePinned

/-- `clear`. -/
def clear (fuel : Nat) (c : Cache κ ν) : Option (Except Raised Unit × Cache κ ν) :=
  whileLoop (fun c => 0 < c.len) (fun c => c.removeOldest true) fuel c

/-- The loop of `cachetools.Cache.__setitem__` for a value of the given size. -/
def makeRoom (size : ℚ≥0) (fuel : Nat) (c : Cache κ ν) :
    Option (Except Raised Unit × Cache κ ν) :=
  whileLoop (fun c => c.capacity < c.currsize + size) (fun c => c.popitemUnit false) fuel c

/-- The end of `__setitem__`: the value is stored and is the most recently used one. -/
def store (c : Cache κ ν) (key : κ) (value : ν) (size : ℚ≥0) : Cache κ ν :=
  let diffsize : ℚ := match c.data.get? key with
    | some (_, oldSize) => size - oldSize
    | none => size
  { c with
    data := c.data.insert key (value, size)
    currsize := c.currsize + diffsize }.touch key

/-- `key not in self.__data or self.__size[key] < size`. -/
def grows (c : Cache κ ν) (key : κ) (size : ℚ≥0) : Bool :=
  match c.data.get? key with
  | some (_, oldSize) => oldSize < size
  | none => true

variable (getsizeof : ν → ℚ≥0)

/-- `put`, which is `__setitem__`. -/
def put (fuel : Nat) (c : Cache κ ν) (key : κ) (value : ν) :
    Option (Except Raised Unit × Cache κ ν) :=
  let size := getsizeof value
  if c.capacity < size then some (.error (.error (.valueError "value too large")), c)
  else
    match if c.grows key size then c.makeRoom size fuel else some (.ok (), c) with
    | none => none
    | some (.error e, c) => some (.error e, c)
    | some (.ok (), c) => some (.ok (), c.store key value size)

/-- The calls of the cache. -/
inductive Op (κ ν : Type) where
  | get (key : κ)
  | put (key : κ) (value : ν)
  | touch (key : κ)
  | pin (key : κ)
  | pop (key : κ)
  | removeOldest (removePinned : Bool)
  | clear

/-- The state after a call, also after one that raises. `none` when the fuel is not enough. -/
def step (c : Cache κ ν) (fuel : Nat) : Op κ ν → Option (Cache κ ν)
  | .get key => some (c.get key).2
  | .put key value => (put getsizeof fuel c key value).map Prod.snd
  | .touch key => some (c.touch key)
  | .pin key => some (c.pin key).2
  | .pop key => some (c.pop key).2
  | .removeOldest removePinned => some (c.removeOldest removePinned).2
  | .clear => (clear fuel c).map Prod.snd

end Cache

end Vllm.Utils
