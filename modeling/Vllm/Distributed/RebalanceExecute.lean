import Vllm.Lib.PyDict
import Vllm.Lib.PyError
import Mathlib.Logic.Function.Basic

/-!
# `Vllm.Distributed.RebalanceExecute`: the exchange of expert weights
(`vllm/distributed/eplb/rebalance_execute.py`)

Each rank of an expert parallel group has some slots with the weights of experts. When the experts
are placed anew, each rank works out by itself what it sends and what it receives.

* `getEpRanksWithExpert`: the ranks that can send an expert and those that have to receive it.
* `moveToBuffer`: the copies inside the rank, and the messages that it sends and waits for.
* `batchIsendIrecv`: what the receives of a rank get.
* `moveFromBuffer`: the buffer is copied to the slots.

The rows of a weight tensor are values of a type `ω`. Streams are left out: a copy is done when it
is issued, and the source waits for all messages before it reads the buffer. Ranks are those of the
group, so `get_global_rank` is left out too.
-/

set_option autoImplicit false

namespace Vllm.Distributed

open Vllm.Lib

/-- The old and the new indices of a layer, with what `transfer_layer` asserts of their lengths. -/
structure ExpertMaps where
  epSize : Nat
  numLocalExperts : Nat
  oldIndices : List Int
  newIndices : List Int
  oldLength : oldIndices.length = epSize * numLocalExperts
  newLength : newIndices.length = epSize * numLocalExperts

/-- `idx_local_to_global`. -/
def idxLocalToGlobal (localIdx localCnt epRank : Nat) : Nat := epRank * localCnt + localIdx

/-- `global_idx_to_rank`. -/
def globalIdxToRank (globalIdx localCnt : Nat) : Nat := globalIdx / localCnt

/-- `old_indices[local2global(i)]`. For the slots of a rank of the group the index is there. -/
def ExpertMaps.old (m : ExpertMaps) (epRank i : Nat) : Int :=
  m.oldIndices.getD (idxLocalToGlobal i m.numLocalExperts epRank) (-1)

/-- `new_indices[local2global(i)]`. -/
def ExpertMaps.new (m : ExpertMaps) (epRank i : Nat) : Int :=
  m.newIndices.getD (idxLocalToGlobal i m.numLocalExperts epRank) (-1)

/-! ### The ranks of an expert -/

/-- A loop of `get_ep_ranks_with_expert`: the ranks that have the expert, each once. -/
def ranksWithExpert (idx : Int) (numLocalExperts : Nat) (indices : List Int) : List Nat :=
  indices.zipIdx.foldl (fun ranks entry =>
    if entry.1 = idx then
      let rank := globalIdxToRank entry.2 numLocalExperts
      if ranks = [] ∨ ranks.getLast? ≠ some rank then ranks ++ [rank] else ranks
    else ranks) []

/-- `get_ep_ranks_with_expert`. -/
def getEpRanksWithExpert (idx : Int) (m : ExpertMaps) : List Nat × List Nat :=
  let ranksToSend := ranksWithExpert idx m.numLocalExperts m.oldIndices
  let ranksToRecv := ranksWithExpert idx m.numLocalExperts m.newIndices
  (ranksToSend, ranksToRecv.filter fun rank => rank ∉ ranksToSend)

/-- `l.index(x)`. -/
def pyIndex (l : List Nat) (x : Nat) : Except PyError Nat :=
  if x ∈ l then .ok (l.idxOf x) else .error (.valueError s!"{x} is not in list")

/-- `len(ranks_to_recv) // len(ranks_to_send)`. -/
def numDstPerSender (ranksToSend ranksToRecv : List Nat) : Except PyError Nat :=
  if ranksToSend.length = 0 then
    .error (.zeroDivisionError "integer division or modulo by zero")
  else .ok (ranksToRecv.length / ranksToSend.length)

/-- The ranks that a sender sends an expert to. -/
def recvRanks (ranksToSend ranksToRecv : List Nat) (epRank : Nat) : Except PyError (List Nat) := do
  let num ← numDstPerSender ranksToSend ranksToRecv
  let senderPos ← pyIndex ranksToSend epRank
  let recvBegin := senderPos * num
  let recvEnd := recvBegin + num
  let ranks := (ranksToRecv.take recvEnd).drop recvBegin
  let remainderStart := ranksToSend.length * num
  let recverPos := remainderStart + senderPos
  return match ranksToRecv[recverPos]? with
    | some rank => ranks ++ [rank]
    | none => ranks

/-- The rank that a receiver gets an expert from. -/
def srcRank (ranksToSend ranksToRecv : List Nat) (epRank : Nat) : Except PyError Nat := do
  let num ← numDstPerSender ranksToSend ranksToRecv
  let recverPos ← pyIndex ranksToRecv epRank
  let remainderStart := ranksToSend.length * num
  let senderPos := if recverPos < remainderStart then recverPos / num
    else recverPos - remainderStart
  match ranksToSend[senderPos]? with
  | some src => return src
  | none => .error (.indexError "list index out of range")

/-! ### The weights of a rank -/

/-- The rows of the weights of a rank, by weight and slot. -/
abbrev Weights (ω : Type) := Nat → Nat → ω

section Move
variable {ω : Type}

/-- `for weight, buffer in zip(...): buffer[dst].copy_(weight[src])`. -/
def copyRows (numWeights : Nat) (source : Weights ω) (src : Nat) (target : Weights ω) (dst : Nat) :
    Weights ω := fun w i => if w < numWeights ∧ i = dst then source w src else target w i

/-- `P2POp`: a row is sent to a peer or received from it. -/
inductive P2POp where
  | isend (weight slot peer : Nat)
  | irecv (weight slot peer : Nat)
deriving DecidableEq

/-- The state of the copies inside a rank. -/
structure LocalCopies (ω : Type) where
  isReceivedLocally : Nat → Bool
  buffer : Weights ω

/-- `is_unchanged`. -/
def isUnchanged (m : ExpertMaps) (epRank i : Nat) : Bool :=
  decide (m.old epRank i = m.new epRank i)

/-- One round of the loop over the sources and targets of a rank. -/
def copyLocally (m : ExpertMaps) (numWeights epRank : Nat) (weights : Weights ω)
    (copies : LocalCopies ω) (pair : Nat × Nat) : LocalCopies ω :=
  if copies.isReceivedLocally pair.2 then copies
  else if m.old epRank pair.1 = -1 ∨ m.new epRank pair.2 = -1 then copies
  else if m.old epRank pair.1 = m.new epRank pair.2 then
    { isReceivedLocally := Function.update copies.isReceivedLocally pair.2 true
      buffer := copyRows numWeights weights pair.1 copies.buffer pair.2 }
  else copies

/-- The pairs of sources and targets, in the order of the two loops. -/
def slotPairs (numLocalExperts : Nat) : List (Nat × Nat) :=
  (List.range numLocalExperts).flatMap fun src =>
    (List.range numLocalExperts).map fun dst => (src, dst)

/-- The first slot of each expert, among the slots that are not skipped. -/
def firstLocs (experts : Nat → Int) (skip : Nat → Bool) (numLocalExperts : Nat) :
    PyDict Int Nat :=
  (List.range numLocalExperts).foldl (fun locs i =>
    if skip i then locs
    else if experts i = -1 then locs
    else if locs.contains (experts i) then locs
    else locs.insert (experts i) i) .empty

/-- `experts_send_loc`. -/
def expertsSendLoc (m : ExpertMaps) (epRank : Nat) : PyDict Int Nat :=
  firstLocs (m.old epRank) (fun _ => false) m.numLocalExperts

/-- `experts_recv_loc`. -/
def expertsRecvLoc (m : ExpertMaps) (epRank : Nat) (isReceivedLocally : Nat → Bool) :
    PyDict Int Nat :=
  firstLocs (m.new epRank) isReceivedLocally m.numLocalExperts

/-- `sorted(d.items())`. The keys are different, so they alone decide. -/
def sortedItems (d : PyDict Int Nat) : List (Int × Nat) :=
  d.entries.mergeSort fun a b => decide (a.1 ≤ b.1)

/-- The sends of an expert. -/
def sendOps (m : ExpertMaps) (numWeights epRank : Nat) (item : Int × Nat) :
    Except PyError (List P2POp) := do
  let ranks := getEpRanksWithExpert item.1 m
  let dsts ← recvRanks ranks.1 ranks.2 epRank
  return dsts.flatMap fun dst => (List.range numWeights).map fun w => .isend w item.2 dst

/-- The receives of an expert. -/
def recvOps (m : ExpertMaps) (numWeights epRank : Nat) (item : Int × Nat) :
    Except PyError (List P2POp) := do
  let ranks := getEpRanksWithExpert item.1 m
  let src ← srcRank ranks.1 ranks.2 epRank
  return (List.range numWeights).map fun w => .irecv w item.2 src

/-- What `move_to_buffer` gives, with the messages that it hands to `batch_isend_irecv`. -/
structure MoveResult (ω : Type) where
  buffer : Weights ω
  p2pOps : List P2POp
  isUnchanged : Nat → Bool
  isReceivedLocally : Nat → Bool
  expertsRecvLoc : PyDict Int Nat

/-- `move_to_buffer`, up to the messages. -/
def moveToBuffer (m : ExpertMaps) (numWeights epRank : Nat) (weights buffer : Weights ω) :
    Except PyError (MoveResult ω) := do
  let unchanged := isUnchanged m epRank
  let copies := (slotPairs m.numLocalExperts).foldl (copyLocally m numWeights epRank weights)
    { isReceivedLocally := unchanged
      buffer }
  let sends ← (sortedItems (expertsSendLoc m epRank)).mapM (sendOps m numWeights epRank)
  let recvLoc := expertsRecvLoc m epRank copies.isReceivedLocally
  let recvs ← (sortedItems recvLoc).mapM (recvOps m numWeights epRank)
  return {
    buffer := copies.buffer
    p2pOps := sends.flatten ++ recvs.flatten
    isUnchanged := unchanged
    isReceivedLocally := copies.isReceivedLocally
    expertsRecvLoc := recvLoc }

/-- The rows that are sent to a peer, in order. -/
def sendsTo (peer : Nat) (ops : List P2POp) : List (Nat × Nat) :=
  ops.filterMap fun
    | .isend w slot dst => if dst = peer then some (w, slot) else none
    | .irecv .. => none

/-- The rows that are received from a peer, in order. -/
def recvsFrom (peer : Nat) (ops : List P2POp) : List (Nat × Nat) :=
  ops.filterMap fun
    | .isend .. => none
    | .irecv w slot src => if src = peer then some (w, slot) else none

/-- The receives of a rank take the messages of each peer in order. One that finds none waits for
ever. -/
def receive : List P2POp → (Nat → List ω) → Weights ω → Option (Weights ω)
  | [], _, buffer => some buffer
  | .isend .. :: ops, messages, buffer => receive ops messages buffer
  | .irecv w slot src :: ops, messages, buffer =>
    match messages src with
    | [] => none
    | row :: rest =>
      receive ops (Function.update messages src rest)
        (Function.update buffer w (Function.update (buffer w) slot row))

/-- `batch_isend_irecv` on all ranks: what a rank has in its buffer when all its receives have
their message. -/
def batchIsendIrecv (ops : Nat → List P2POp) (weights : Nat → Weights ω) (epRank : Nat)
    (buffer : Weights ω) : Option (Weights ω) :=
  receive (ops epRank) (fun src => (sendsTo epRank (ops src)).map fun e => weights src e.1 e.2) buffer

/-- One round of `move_from_buffer`. -/
def copySlot (m : ExpertMaps) (numWeights epRank : Nat) (result : MoveResult ω)
    (buffer : Weights ω) (weights : Weights ω) (dst : Nat) : Except PyError (Weights ω) :=
  if result.isUnchanged dst then .ok weights
  else if result.isReceivedLocally dst then .ok (copyRows numWeights buffer dst weights dst)
  else
    let expert := m.new epRank dst
    if expert = -1 then .ok weights
    else
      match result.expertsRecvLoc.get? expert with
      | some src => .ok (copyRows numWeights buffer src weights dst)
      | none => .error (.keyError s!"{expert}")

/-- `move_from_buffer`. -/
def moveFromBuffer (m : ExpertMaps) (numWeights epRank : Nat) (result : MoveResult ω)
    (buffer : Weights ω) (weights : Weights ω) : Except PyError (Weights ω) :=
  (List.range m.numLocalExperts).foldlM (copySlot m numWeights epRank result buffer) weights

end Move

end Vllm.Distributed
