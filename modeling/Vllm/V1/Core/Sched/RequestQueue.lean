import Vllm.V1.Request

/-!
# `Vllm.V1.Core.Sched.RequestQueue`: request queues (`vllm/v1/core/sched/request_queue.py`)

A queue holds references to request objects, the next one to pop first. `FCFSRequestQueue` is a
deque. `PriorityRequestQueue` is a heap; `Request.__lt__` is a strict total order, so what the
heap returns is what a sorted list returns, and the list is kept sorted here.
-/

set_option autoImplicit false

namespace Vllm.V1.Core

open Vllm.V1

/-- A reference to a `Request` object. -/
abbrev ReqRef := Nat

/-- `SchedulingPolicy`. -/
inductive SchedulingPolicy where
  | fcfs
  | priority
deriving DecidableEq, Repr

/-- `Request.__lt__` of the objects behind two references; the references stand for `id`. -/
def requestLt (objects : ReqRef → Request) (r r' : ReqRef) : Bool :=
  let a := objects r
  let b := objects r'
  if a.priority ≠ b.priority then a.priority < b.priority
  else if a.arrivalTime ≠ b.arrivalTime then a.arrivalTime < b.arrivalTime
  else if a.requestId ≠ b.requestId then a.requestId < b.requestId
  else r < r'

/-- `heapq.heappush`. -/
def heapPush (lt : ReqRef → ReqRef → Bool) (r : ReqRef) : List ReqRef → List ReqRef
  | [] => [r]
  | r' :: queue => if lt r r' then r :: r' :: queue else r' :: heapPush lt r queue

namespace SchedulingPolicy

variable (policy : SchedulingPolicy) (lt : ReqRef → ReqRef → Bool)

/-- `add_request`. -/
def addRequest (queue : List ReqRef) (r : ReqRef) : List ReqRef :=
  match policy with
  | .fcfs => queue ++ [r]
  | .priority => heapPush lt r queue

/-- `prepend_request`. -/
def prependRequest (queue : List ReqRef) (r : ReqRef) : List ReqRef :=
  match policy with
  | .fcfs => r :: queue
  | .priority => heapPush lt r queue

/-- `prepend_requests`. -/
def prependRequests (queue requests : List ReqRef) : List ReqRef :=
  match policy with
  | .fcfs => requests ++ queue
  | .priority => requests.foldl (fun queue r => heapPush lt r queue) queue

/-- `remove_requests`. -/
def removeRequests (queue requests : List ReqRef) : List ReqRef :=
  queue.filter fun r => r ∉ requests

end SchedulingPolicy

end Vllm.V1.Core
