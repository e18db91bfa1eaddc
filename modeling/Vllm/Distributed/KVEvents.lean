import Vllm.Lib.PyDict
import Vllm.Lib.PyError

/-!
# `Vllm.Distributed.KVEvents`: the events that all workers have (`vllm/distributed/kv_events.py`)

`KVEventAggregator` counts the events of the workers in one `Counter`, which is a dict in the order
of the first occurrences. What an event says does not matter here.
-/

set_option autoImplicit false

namespace Vllm.Distributed

open Vllm.Lib

variable {α : Type} [DecidableEq α]

/-- `KVEventAggregator`. -/
structure KVEventAggregator (α : Type) [DecidableEq α] where
  eventCounter : PyDict α Nat := .empty
  numWorkers : Nat

namespace KVEventAggregator

/-- `__init__`. -/
def init (numWorkers : Int) : Except PyError (KVEventAggregator α) :=
  if numWorkers ≤ 0 then .error (.valueError "num_workers must be greater than zero.")
  else .ok { numWorkers := numWorkers.toNat }

/-- One event of `Counter.update`. -/
def countEvent (counter : PyDict α Nat) (event : α) : PyDict α Nat :=
  counter.insert event ((counter.get? event).getD 0 + 1)

/-- `add_events`. -/
def addEvents (a : KVEventAggregator α) (events : List α) : KVEventAggregator α :=
  { a with eventCounter := events.foldl countEvent a.eventCounter }

/-- `get_common_events`. -/
def getCommonEvents (a : KVEventAggregator α) : List α :=
  (a.eventCounter.entries.filter fun p => p.2 = a.numWorkers).map Prod.fst

end KVEventAggregator

end Vllm.Distributed
