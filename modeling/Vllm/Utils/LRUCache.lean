import Vllm.Lib.PyDict
import Vllm.Lib.PyError

/-!
# `Vllm.Utils.LRUCache`: the LRU cache (`vllm/utils/cache.py`)

`LRUCache` extends `cachetools.LRUCache`. The base class stores the values and makes room for a
new one by calling `popitem`, which is overridden here. `Cachetools` is what is left of the base
class: when a value is refused and when there is no room.

`touch` also records keys that are not in the cache. When such a key is the oldest, `popitem`
removes nothing, and the base class calls it again for ever.

No item of a multi-modal cache is ever pinned, so that `pinned_items` is left out.
-/

set_option autoImplicit false

namespace Vllm.Utils

open Vllm.Lib

/-- The comparisons of `cachetools.Cache.__setitem__`, in whole bytes: a value that is not larger
than the cache is not refused, and `popitem` is not called when the value fits. -/
structure Cachetools where
  /-- Whether a value of the given size is refused. -/
  tooLarge : (maxsize size : Nat) → Bool
  /-- Whether `popitem` is called before a value of the given size is stored. -/
  full : (maxsize currsize size : Nat) → Bool
  not_tooLarge : ∀ {maxsize size : Nat}, size ≤ maxsize → tooLarge maxsize size = false
  not_full : ∀ {maxsize currsize size : Nat}, currsize + size ≤ maxsize →
    full maxsize currsize size = false

/-- How a call ends that does not return. -/
inductive Stop where
  | raises (e : PyError)
  | loops
deriving DecidableEq

/-- `LRUCache`. The order is from the least to the most recently used key. -/
structure LRUCache (ν : Type) where
  capacity : Nat
  order : List String := []
  data : PyDict String ν := .empty
deriving DecidableEq

namespace LRUCache

variable {ν : Type}

/-- `key in self`. -/
def contains (c : LRUCache ν) (key : String) : Bool := c.data.contains key

/-- `touch`. -/
def touch (c : LRUCache ν) (key : String) : LRUCache ν :=
  { c with order := c.order.filter (· ≠ key) ++ [key] }

/-- `get`. -/
def get (c : LRUCache ν) (key : String) : Option ν × LRUCache ν :=
  match c.data.get? key with
  | some value => (some value, c.touch key)
  | none => (none, c)

/-- `__delitem__`. -/
def delItem (c : LRUCache ν) (key : String) : LRUCache ν :=
  { c with order := c.order.filter (· ≠ key), data := c.data.erase key }

variable (lib : Cachetools) (getsizeof : ν → Nat)

/-- `currsize`. -/
def currsize (c : LRUCache ν) : Nat := (c.data.values.map getsizeof).sum

/-- The loop of `cachetools.Cache.__setitem__`, with `popitem`. -/
def makeRoom (size : Nat) : List String → LRUCache ν → Except Stop Unit × LRUCache ν
  | order, c =>
    if lib.full c.capacity (c.currsize getsizeof) size = false then (.ok (), c)
    else
      match order with
      | [] => (.error (.raises (.runtimeError
          "All items are pinned, cannot remove oldest from the cache.")), c)
      | lruKey :: order =>
        if c.contains lruKey then makeRoom size order (c.delItem lruKey)
        else (.error .loops, c)

/-- `__setitem__`, for a key that is not in the cache. -/
def setItem (c : LRUCache ν) (key : String) (value : ν) : Except Stop Unit × LRUCache ν :=
  if lib.tooLarge c.capacity (getsizeof value) then
    (.error (.raises (.valueError "value too large")), c)
  else
    match c.makeRoom lib getsizeof (getsizeof value) c.order with
    | (.error e, c) => (.error e, c)
    | (.ok (), c) => (.ok (), { c with data := c.data.insert key value }.touch key)

end LRUCache

end Vllm.Utils
