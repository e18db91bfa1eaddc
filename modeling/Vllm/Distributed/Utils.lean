import Mathlib.Data.Rat.Defs
import Mathlib.Algebra.Order.Ring.Unbundled.Rat
import Mathlib.Logic.Function.Basic
import Vllm.Lib.PyDict
import Vllm.Lib.PyError

/-!
# `Vllm.Distributed.Utils`: the stateless process group

The ranks of a `StatelessProcessGroup` share nothing but a store of bytes by key. A rank sends an
object under a key with the destination and a counter, and the destination reads the key with a
counter of its own. `get` of a key that is not there blocks.

A call makes one access to the store that the other ranks see, so a step of the system is a whole
call; `all_gather_obj` is a loop of broadcasts, and a step is one turn of it. The world keeps the
exchanged objects in `log`, the newest first. The program does not read it.
-/

set_option autoImplicit false

namespace Vllm.Distributed.ProcessGroup

open Vllm.Lib

variable {α : Type} {n : Nat}

/-- `pickle`, of the objects of a type and `None`. -/
structure Pickle (α : Type) where
  dumps : Option α → Bytes
  loads : Bytes → Except PyError (Option α)
  loads_dumps : ∀ obj, loads (dumps obj) = .ok obj

/-- Why a call does not return: `get` waits for a key, an exception, or the rank is not at a call
of that kind. -/
inductive Halt where
  | blocked (key : String)
  | raised (e : PyError)
  | elsewhere
deriving DecidableEq, Repr

/-- `store.get`. -/
def storeGet (store : PyDict String Bytes) (key : String) : Except Halt Bytes :=
  match store.get? key with
  | some value => .ok value
  | none => .error (.blocked key)

/-- `counters[i]`. -/
def counterOf (counters : PyDict Nat Nat) (i : Nat) : Except Halt Nat :=
  match counters.get? i with
  | some counter => .ok counter
  | none => .error (.raised (.keyError (toString i)))

def sendKey (dst counter : Nat) : String := s!"send_to/{dst}/{counter}"

def broadcastKey (src counter : Nat) : String := s!"broadcast_from/{src}/{counter}"

/-- `{i: 0 for i in range(world_size)}`. -/
def zeroCounters (worldSize : Nat) : PyDict Nat Nat :=
  (List.range worldSize).foldl (fun d i => d.insert i 0) .empty

/-- `StatelessProcessGroup`, without the store and the socket. -/
structure StatelessProcessGroup where
  rank : Nat
  worldSize : Nat
  dataExpirationSeconds : Nat
  sendDstCounter : PyDict Nat Nat
  recvSrcCounter : PyDict Nat Nat
  broadcastSendCounter : Nat
  broadcastRecvSrcCounter : PyDict Nat Nat
  entries : List (String × ℚ)

namespace StatelessProcessGroup

/-- The constructor and `__post_init__`. It asserts that the rank is one of the group. -/
def new {worldSize : Nat} (rank : Fin worldSize) (dataExpirationSeconds : Nat) :
    StatelessProcessGroup where
  rank
  worldSize
  dataExpirationSeconds
  sendDstCounter := zeroCounters worldSize
  recvSrcCounter := zeroCounters worldSize
  broadcastSendCounter := 0
  broadcastRecvSrcCounter := zeroCounters worldSize
  entries := []

/-- The loop of `expire_data`. -/
def expireEntries (seconds : Nat) (now : ℚ) :
    List (String × ℚ) → PyDict String Bytes → List (String × ℚ) × PyDict String Bytes
  | [], store => ([], store)
  | (key, timestamp) :: entries, store =>
    if (seconds : ℚ) < now - timestamp then
      expireEntries seconds now entries (store.erase key)
    else
      ((key, timestamp) :: entries, store)

/-- `expire_data`. -/
def expireData (g : StatelessProcessGroup) (store : PyDict String Bytes) (now : ℚ) :
    StatelessProcessGroup × PyDict String Bytes :=
  let (entries, store) := expireEntries g.dataExpirationSeconds now g.entries store
  ({ g with entries }, store)

/-- `send_obj`. -/
def sendObj (pickle : Pickle α) (g : StatelessProcessGroup) (store : PyDict String Bytes)
    (now : ℚ) (obj : Option α) (dst : Nat) :
    Except Halt (StatelessProcessGroup × PyDict String Bytes) := do
  let (g, store) := g.expireData store now
  let counter ← counterOf g.sendDstCounter dst
  let key := sendKey dst counter
  let g := { g with
    sendDstCounter := g.sendDstCounter.insert dst (counter + 1)
    entries := g.entries ++ [(key, now)] }
  return (g, store.insert key (pickle.dumps obj))

/-- `pickle.loads` of what `get` gives. -/
def loadKey (pickle : Pickle α) (store : PyDict String Bytes) (key : String) :
    Except Halt (Option α) := do
  let value ← storeGet store key
  (pickle.loads value).mapError .raised

/-- `recv_obj`. -/
def recvObj (pickle : Pickle α) (g : StatelessProcessGroup) (store : PyDict String Bytes)
    (src : Nat) : Except Halt (StatelessProcessGroup × Option α) := do
  let counter ← counterOf g.recvSrcCounter src
  let obj ← loadKey pickle store (sendKey g.rank counter)
  let g := { g with recvSrcCounter := g.recvSrcCounter.insert src (counter + 1) }
  return (g, obj)

/-- `broadcast_obj`: the object that it returns is the second component. -/
def broadcastObj (pickle : Pickle α) (g : StatelessProcessGroup) (store : PyDict String Bytes)
    (now : ℚ) (obj : Option α) (src : Nat) :
    Except Halt (StatelessProcessGroup × Option α × PyDict String Bytes) :=
  if g.rank = src then
    let (g, store) := g.expireData store now
    let key := broadcastKey src g.broadcastSendCounter
    let g := { g with
      broadcastSendCounter := g.broadcastSendCounter + 1
      entries := g.entries ++ [(key, now)] }
    return (g, obj, store.insert key (pickle.dumps obj))
  else do
    let counter ← counterOf g.broadcastRecvSrcCounter src
    let key := broadcastKey src counter
    let recvObj ← loadKey pickle store key
    let g := { g with
      broadcastRecvSrcCounter := g.broadcastRecvSrcCounter.insert src (counter + 1) }
    return (g, recvObj, store)

end StatelessProcessGroup

/-! ### The ranks and the store -/

/-- The kinds of exchanges. -/
inductive Kind where
  | send
  | recv
  | broadcast
  | recvBroadcast
deriving DecidableEq, Repr

/-- A rank sent an object to a peer, or got one that it takes for the peer's. The peer of a
broadcast is the rank itself. -/
structure Event (α : Type) where
  kind : Kind
  rank : Nat
  peer : Nat
  obj : Option α
deriving DecidableEq, Repr

/-- A rank in the loop of `all_gather_obj`: its object, the turn, and `gathered_objs`. -/
structure Gather (α : Type) where
  obj : Option α
  i : Nat
  gatheredObjs : List (Option α)
deriving DecidableEq, Repr

/-- The calls of a program, and the next turn of the loop of `all_gather_obj`. -/
inductive Call (α : Type) where
  | sendObj (obj : Option α) (dst : Nat)
  | recvObj (src : Nat)
  | broadcastObj (obj : Option α) (src : Nat)
  | allGatherObj (obj : Option α)
  | nextTurn
deriving DecidableEq, Repr

/-- A call of a rank, and the time at the call. -/
structure Op (α : Type) (n : Nat) where
  rank : Fin n
  call : Call α
  now : ℚ

structure World (α : Type) (n : Nat) where
  groups : Fin n → StatelessProcessGroup
  gathers : Fin n → Option (Gather α)
  /-- What the calls of `all_gather_obj` returned, the newest first. -/
  gathered : Fin n → List (List (Option α))
  store : PyDict String Bytes
  log : List (Event α)

namespace World

/-- Every rank has made its group. -/
def new (dataExpirationSeconds : Fin n → Nat) : World α n where
  groups := fun r => .new r (dataExpirationSeconds r)
  gathers := fun _ => none
  gathered := fun _ => []
  store := .empty
  log := []

/-- `broadcast_obj` of a rank, in a call or in a turn of `all_gather_obj`. -/
def broadcastObj (pickle : Pickle α) (w : World α n) (r : Fin n) (now : ℚ) (obj : Option α)
    (src : Nat) : Except Halt (World α n × Option α) := do
  let (g, obj, store) ← (w.groups r).broadcastObj pickle w.store now obj src
  let kind := if (w.groups r).rank = src then Kind.broadcast else Kind.recvBroadcast
  let w := { w with
    groups := Function.update w.groups r g
    store
    log := ⟨kind, r, src, obj⟩ :: w.log }
  return (w, obj)

/-- One turn of the loop of `all_gather_obj`, or its return. -/
def gatherTurn (pickle : Pickle α) (w : World α n) (r : Fin n) (now : ℚ) (t : Gather α) :
    Except Halt (World α n) := do
  let g := w.groups r
  if t.i < g.worldSize then
    if t.i = g.rank then
      let (w, _) ← w.broadcastObj pickle r now t.obj g.rank
      let t := { t with i := t.i + 1, gatheredObjs := t.gatheredObjs ++ [t.obj] }
      return { w with gathers := Function.update w.gathers r (some t) }
    else
      let (w, recvObj) ← w.broadcastObj pickle r now none t.i
      let t := { t with i := t.i + 1, gatheredObjs := t.gatheredObjs ++ [recvObj] }
      return { w with gathers := Function.update w.gathers r (some t) }
  else
    return { w with
      gathers := Function.update w.gathers r none
      gathered := Function.update w.gathered r (t.gatheredObjs :: w.gathered r) }

/-- One step: a call of a rank, at the store as it is now. -/
def step (pickle : Pickle α) (w : World α n) (op : Op α n) : Except Halt (World α n) := do
  let r := op.rank
  match w.gathers r, op.call with
  | none, .sendObj obj dst =>
    let (g, store) ← (w.groups r).sendObj pickle w.store op.now obj dst
    return { w with
      groups := Function.update w.groups r g
      store
      log := ⟨.send, r, dst, obj⟩ :: w.log }
  | none, .recvObj src =>
    let (g, obj) ← (w.groups r).recvObj pickle w.store src
    return { w with
      groups := Function.update w.groups r g
      log := ⟨.recv, r, src, obj⟩ :: w.log }
  | none, .broadcastObj obj src =>
    let (w, _) ← w.broadcastObj pickle r op.now obj src
    return w
  | none, .allGatherObj obj =>
    return { w with gathers := Function.update w.gathers r (some ⟨obj, 0, []⟩) }
  | some t, .nextTurn => w.gatherTurn pickle r op.now t
  | _, _ => .error .elsewhere

end World

end Vllm.Distributed.ProcessGroup
