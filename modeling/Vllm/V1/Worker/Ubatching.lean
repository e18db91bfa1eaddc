import Mathlib.Data.Fintype.Basic
import Mathlib.Logic.Function.Basic
import Vllm.Lib.PyError

/-!
# `Vllm.V1.Worker.Ubatching`: the threads of the micro-batches

Two threads run the model on a micro-batch each, in a `UBatchContext`, and only one of them at a
time: a thread waits on its own event, and sets the event of the other before it waits again. The
main thread starts them, meets them at a barrier, and sets the first event.

A function of the source is the list of its operations that another thread can see, or that
depend on what another thread does; a thread does them one after the other, and a step of the
system is one operation of one thread. `wait` of an event that is not set, the barrier and `join`
block. An exception inside the `with` leaves through `__exit__`.

The streams are those of the thread, `current_stream()` reads a thread local. The GPU events order
work on the device and are only marked (`gpuEvent`). `segment` and `log` are not in the program:
they number the segments of a thread and say when they begin and end.
-/

set_option autoImplicit false

namespace Vllm.V1.Worker.Ubatching

open Vllm.Lib

variable {φ : Type}

/-- The streams that a thread can be on; `other` is the default one of a new thread. -/
inductive Stream where
  | compute
  | comm
  | other
deriving DecidableEq, Repr

/-- The operations of a micro-batch thread. -/
inductive Instr where
  /-- The entries of the thread in `_THREAD_ID_TO_CONTEXT` and `_CURRENT_CONTEXTS`. -/
  | register
  | unregister
  /-- `self.ready_barrier.wait()`: the thread arrives, and leaves when all have arrived. -/
  | barrierArrive
  | barrierLeave
  /-- `self.cpu_wait_event.wait()`. -/
  | wait
  /-- `self.cpu_wait_event.clear()`. -/
  | clear
  /-- `self.cpu_signal_event.set()`. -/
  | setSignal
  | restoreContext
  /-- `assert forward_context._forward_context == self.forward_context`. -/
  | assertContext
  /-- `assert current_stream() == self.current_stream`. -/
  | assertStream
  /-- `assert not self.cpu_wait_event.is_set()`. -/
  | assertNotSet
  /-- `assert current_stream() == stream`. -/
  | assertCurrentStream (stream : Stream)
  /-- `assert self.current_stream == stream`. -/
  | assertOwnStream (stream : Stream)
  /-- `self.current_stream = current_stream()`. -/
  | saveStream
  /-- `self.update_stream(stream)`. -/
  | updateStream (stream : Stream)
  /-- `self.update_stream(self.current_stream)`. -/
  | updateToOwn
  /-- A GPU event is recorded, or a stream waits for it. -/
  | gpuEvent
  | maybeRunRecvHook
  /-- Code of the model. -/
  | work
  /-- `results.append((ubatch_metadata.context.id, model_output))`. -/
  | appendResult
deriving DecidableEq, Repr

/-- `__enter__`. -/
def enter : List Instr :=
  [.register, .barrierArrive, .barrierLeave, .wait, .clear, .restoreContext,
    .updateStream .compute]

/-- `__exit__`. -/
def exit : List Instr := [.unregister, .maybeRunRecvHook, .setSignal, .clear]

/-- `_cpu_yield`. -/
def cpuYield : List Instr :=
  [.assertContext, .assertStream, .assertNotSet, .setSignal, .wait, .clear, .restoreContext]

/-- What the model calls. `work` is its own code, which changes streams by these methods only. -/
inductive Method where
  | work
  | yield_
  | yieldAndSwitchFromComputeToComm
  | yieldAndSwitchFromCommToCompute
  | switchToComm
  | switchToCompute
  | switchToCommSync
  | switchToComputeSync
  | maybeRunRecvHook
deriving DecidableEq, Repr

/-- The methods of `UBatchContext`. -/
def Method.code : Method → List Instr
  | work => [.work]
  | yield_ => .saveStream :: cpuYield ++ [.updateToOwn]
  | yieldAndSwitchFromComputeToComm =>
    [.assertCurrentStream .compute, .gpuEvent] ++ cpuYield ++
      [.assertOwnStream .compute, .updateStream .comm, .gpuEvent]
  | yieldAndSwitchFromCommToCompute =>
    [.assertCurrentStream .comm, .gpuEvent] ++ cpuYield ++
      [.assertOwnStream .comm, .updateStream .compute, .gpuEvent]
  | switchToComm => [.updateStream .comm]
  | switchToCompute => [.updateStream .compute]
  | switchToCommSync => [.gpuEvent, .updateStream .comm, .gpuEvent]
  | switchToComputeSync => [.gpuEvent, .updateStream .compute, .gpuEvent]
  | maybeRunRecvHook => [.maybeRunRecvHook]

/-- The methods that call `_cpu_yield`. -/
def Method.yields : Method → Bool
  | yield_ | yieldAndSwitchFromComputeToComm | yieldAndSwitchFromCommToCompute => true
  | _ => false

/-- What `UBatchContext` has besides the streams: the event that it waits on, the one it sets, and
the forward context. -/
structure UBatchContext (φ : Type) where
  id : Fin 2
  forwardContext : φ
  cpuWaitEvent : Fin 2
  cpuSignalEvent : Fin 2

/-- `make_ubatch_contexts`, with two micro-batches. -/
def makeUbatchContexts (forwardContexts : Fin 2 → φ) (i : Fin 2) : UBatchContext φ where
  id := i
  forwardContext := forwardContexts i
  cpuWaitEvent := i
  cpuSignalEvent := i + 1

/-- A micro-batch thread. -/
structure Thread where
  started : Bool
  /-- The rest of the function that runs. -/
  code : List Instr
  /-- What the model still calls. -/
  methods : List Method
  /-- Whether the `with` has been left. -/
  left : Bool
  /-- The thread local that `current_stream()` reads. -/
  stream : Stream
  /-- `self.current_stream`. -/
  ownStream : Stream
  raised : Option PyError
  segment : Nat

/-- The operations of the main thread in `_run_ubatches`. -/
inductive MainInstr where
  /-- `override_forward_context(None)` is entered. -/
  | overrideContext
  | start (i : Fin 2)
  | barrierArrive
  | barrierLeave
  /-- `ubatch_metadata[0].context.cpu_wait_event.set()`. -/
  | setFirst
  | join (i : Fin 2)
  /-- `override_forward_context(None)` is left. -/
  | restoreContext
deriving DecidableEq, Repr

/-- `_run_ubatches`. -/
def runUbatches : List MainInstr :=
  [.overrideContext, .start 0, .start 1, .barrierArrive, .barrierLeave, .setFirst, .join 0,
    .join 1, .restoreContext]

/-- A segment of a thread begins or ends. -/
structure Mark where
  thread : Fin 2
  segment : Nat
  isEnd : Bool
deriving DecidableEq, Repr

structure State (φ : Type) where
  threads : Fin 2 → Thread
  main : List MainInstr
  /-- The flags of `cpu_events`. -/
  events : Fin 2 → Bool
  /-- The global `_forward_context`. -/
  forwardContext : Option φ
  /-- `prev_context` of `override_forward_context`. -/
  prevContext : Option φ
  /-- The threads that have arrived at `ready_barrier`. -/
  arrived : Nat
  /-- Whether the thread has its entry in `_THREAD_ID_TO_CONTEXT`. -/
  registered : Fin 2 → Bool
  results : List (Fin 2)
  log : List Mark

/-- A thread waits, or has nothing more to do. -/
inductive Halt where
  | blocked
  | finished
deriving DecidableEq, Repr

/-- A new thread, whose model will call `methods`. -/
def Thread.new (methods : List Method) : Thread where
  started := false
  code := enter
  methods
  left := false
  stream := .other
  ownStream := .compute
  raised := none
  segment := 0

/-- Before `_run_ubatches`. -/
def State.new (prevContext : Option φ) (methods : Fin 2 → List Method) : State φ where
  threads := fun i => .new (methods i)
  main := runUbatches
  events := fun _ => false
  forwardContext := prevContext
  prevContext := none
  arrived := 0
  registered := fun _ => false
  results := []
  log := []

/-- The parties of `ready_barrier`. -/
def parties : Nat := 3

/-- The thread has ended. -/
def Thread.ended (t : Thread) : Bool := t.left && t.code.isEmpty

/-- An exception inside the `with`. -/
def Thread.raise (t : Thread) (e : PyError) : Thread := { t with
  code := exit
  methods := []
  left := true
  raised := some e }

def State.setThread (s : State φ) (i : Fin 2) (t : Thread) : State φ :=
  { s with threads := Function.update s.threads i t }

/-- `assert cond` of the thread: it goes on with `t`, or raises. -/
def State.assertThread (s : State φ) (i : Fin 2) (t : Thread) (cond : Bool) : State φ :=
  s.setThread i (if cond then t else t.raise (.assertionError ""))

section Step
variable [DecidableEq φ] (ctx : Fin 2 → UBatchContext φ)

/-- One operation of a thread, `t` being the thread after it. -/
def exec (s : State φ) (i : Fin 2) (t : Thread) : Instr → Except Halt (State φ)
  | .register => .ok { s.setThread i t with registered := Function.update s.registered i true }
  | .unregister => .ok { s.setThread i t with registered := Function.update s.registered i false }
  | .barrierArrive => .ok { s.setThread i t with arrived := s.arrived + 1 }
  | .barrierLeave => if s.arrived = parties then .ok (s.setThread i t) else .error .blocked
  | .wait => if s.events (ctx i).cpuWaitEvent then .ok (s.setThread i t) else .error .blocked
  | .clear => .ok { s.setThread i t with
      events := Function.update s.events (ctx i).cpuWaitEvent false }
  | .setSignal => .ok { s.setThread i { t with segment := t.segment + 1 } with
      events := Function.update s.events (ctx i).cpuSignalEvent true
      log := s.log ++ [⟨i, t.segment, true⟩] }
  | .restoreContext => .ok { s.setThread i t with
      forwardContext := some (ctx i).forwardContext
      log := s.log ++ [⟨i, t.segment, false⟩] }
  | .assertContext =>
    .ok (s.assertThread i t (s.forwardContext = some (ctx i).forwardContext))
  | .assertStream => .ok (s.assertThread i t (t.stream = t.ownStream))
  | .assertNotSet => .ok (s.assertThread i t (!s.events (ctx i).cpuWaitEvent))
  | .assertCurrentStream stream => .ok (s.assertThread i t (t.stream = stream))
  | .assertOwnStream stream => .ok (s.assertThread i t (t.ownStream = stream))
  | .saveStream => .ok (s.setThread i { t with ownStream := t.stream })
  | .updateStream stream => .ok (s.setThread i { t with
      stream
      ownStream := stream })
  | .updateToOwn => .ok (s.setThread i { t with stream := t.ownStream })
  | .gpuEvent => .ok (s.setThread i t)
  | .maybeRunRecvHook => .ok (s.setThread i t)
  | .work => .ok (s.setThread i t)
  | .appendResult => .ok { s.setThread i t with results := s.results ++ [i] }

/-- The next operation of a thread, or what it calls next: `_register_ubatch_function` finds the
context of the thread, `__exit__` comes after the model. -/
def threadStep (s : State φ) (i : Fin 2) : Except Halt (State φ) :=
  let t := s.threads i
  if t.started then
    match t.code, t.methods with
    | instr :: code, _ => exec ctx s i { t with code } instr
    | [], .work :: methods => .ok (s.setThread i { t with
        code := Method.work.code
        methods })
    | [], method :: methods =>
      if s.registered i then
        .ok (s.setThread i { t with
          code := method.code
          methods })
      else if s.registered (i + 1) then
        .ok (s.setThread i (t.raise (.keyError "get_ident()")))
      else
        .ok (s.setThread i { t with methods })
    | [], [] =>
      if t.left then .error .finished
      else .ok (s.setThread i { t with
        code := exit ++ [.appendResult]
        left := true })
  else .error .blocked

/-- The next operation of the main thread. -/
def mainStep (s : State φ) : Except Halt (State φ) :=
  match s.main with
  | [] => .error .finished
  | .overrideContext :: main => .ok { s with
      main
      prevContext := s.forwardContext
      forwardContext := none }
  | .start i :: main => .ok { s.setThread i { s.threads i with started := true } with main }
  | .barrierArrive :: main => .ok { s with
      main
      arrived := s.arrived + 1 }
  | .barrierLeave :: main =>
    if s.arrived = parties then .ok { s with main } else .error .blocked
  | .setFirst :: main => .ok { s with
      main
      events := Function.update s.events (ctx 0).cpuWaitEvent true }
  | .join i :: main => if (s.threads i).ended then .ok { s with main } else .error .blocked
  | .restoreContext :: main => .ok { s with
      main
      forwardContext := s.prevContext }

/-- A step of one of the threads, `none` being the main thread. -/
def step (s : State φ) : Option (Fin 2) → Except Halt (State φ)
  | none => mainStep ctx s
  | some i => threadStep ctx s i

end Step

end Vllm.V1.Worker.Ubatching
