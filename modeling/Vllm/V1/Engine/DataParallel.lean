import Mathlib.Data.Fintype.Basic
import Mathlib.Logic.Function.Basic
import Vllm.Lib.PyError

/-!
# `Vllm.V1.Engine.DataParallel`: waves of a data-parallel deployment

The engines of a data-parallel deployment run in waves. A wave starts when a request reaches a
paused engine and ends when an all-reduce finds no unfinished request on any engine. The
coordinator wakes the other engines, and the front-ends tell it about a request that they send
while they believe the engines paused.

* `DPEngineCoreProc`: an engine, `addRequest`, `handleClientRequest` and the busy loop, cut at
  the all-reduce.
* `DPCoordinatorProc`: the two branches of `process_input_socket` that move the wave.
* `DPAsyncMPClient`: what a front-end remembers.
* `DPSystem`, `dpStep`: the parties and the channels between them.

The scheduler of an engine is reduced to its unfinished requests: a step may finish any of
them. The load-balancing counts, the statistics and elastic scaling are left out.
-/

set_option autoImplicit false

namespace Vllm.V1.Engine

/-- `EngineIdentity`: `rank.to_bytes(2, "little")`. -/
def engineIdentity (rank : Nat) : List UInt8 := [rank.toUInt8, (rank / 256).toUInt8]

/-- `exclude_eng_index`. A front-end passes on the identity of an engine, the coordinator the
`engine_index` of an output. -/
inductive ExcludeEngine where
  | none
  | identity (bytes : List UInt8)
  | index (engineIndex : Nat)
deriving DecidableEq, Repr

/-- `exclude_eng_index == self.engine_index`: bytes never equal a number. -/
def ExcludeEngine.excludes : ExcludeEngine → Nat → Bool
  | .index i, engineIndex => i == engineIndex
  | .identity _, _ => false
  | .none, _ => false

/-- The messages in the input queue of an engine. -/
inductive EngineInput where
  | add (requestId : String) (requestWave : Nat)
  | abort (requestIds : List String)
  | startDpWave (newWave : Nat) (exclude : ExcludeEngine)
deriving DecidableEq, Repr

/-- The fields of `EngineCoreOutputs` that an engine sends to the coordinator. -/
inductive EngineOutput where
  | waveComplete (wave : Nat)
  | startWave (wave : Nat)
deriving DecidableEq, Repr

/-- Where an engine is in `run_busy_loop`: at the top, between taking a message and the step
(`announced` when it put a `start_wave` on its output queue since), or in the all-reduce with
the flag it gave. -/
inductive LoopPhase where
  | top
  | handling (announced : Bool)
  | allReduce (localUnfinished : Bool)
deriving DecidableEq, Repr

/-! ### Engines -/

/-- `DPEngineCoreProc`. -/
structure DPEngineCoreProc where
  engineIndex : Nat
  currentWave : Nat := 0
  enginesRunning : Bool := false
  stepCounter : Nat := 0
  /-- The unfinished requests of the scheduler. -/
  unfinished : List String := []
  phase : LoopPhase := .top
deriving DecidableEq, Repr

namespace DPEngineCoreProc

/-- `add_request`. -/
def addRequest (e : DPEngineCoreProc) (requestId : String) (requestWave : Nat) :
    DPEngineCoreProc × List EngineOutput :=
  let (e, outputs) :=
    if requestWave ≠ e.currentWave then
      if e.currentWave < requestWave then ({ e with currentWave := requestWave }, [])
      else if e.enginesRunning = false then (e, [.startWave e.currentWave])
      else (e, [])
    else (e, [])
  ({ e with unfinished := e.unfinished ++ [requestId] }, outputs)

/-- `abort_requests`. -/
def abortRequests (e : DPEngineCoreProc) (requestIds : List String) : DPEngineCoreProc :=
  { e with unfinished := e.unfinished.filter fun id => id ∉ requestIds }

/-- The `START_DP_WAVE` branch of `_handle_client_request`. -/
def startDpWave (e : DPEngineCoreProc) (newWave : Nat) (exclude : ExcludeEngine) :
    DPEngineCoreProc :=
  if exclude.excludes e.engineIndex = false ∧ e.currentWave ≤ newWave then
    { e with currentWave := newWave, enginesRunning := true }
  else e

/-- `_handle_client_request`. -/
def handleClientRequest (e : DPEngineCoreProc) :
    EngineInput → DPEngineCoreProc × List EngineOutput
  | .add requestId requestWave => e.addRequest requestId requestWave
  | .abort requestIds => (e.abortRequests requestIds, [])
  | .startDpWave newWave exclude => (e.startDpWave newWave exclude, [])

/-- `_process_input_queue` takes one message. -/
def processInput (e : DPEngineCoreProc) (input : EngineInput) :
    DPEngineCoreProc × List EngineOutput :=
  let announced := match e.phase with
    | .handling announced => announced
    | _ => false
  let (e, outputs) := e.handleClientRequest input
  ({ e with phase := .handling (announced || !outputs.isEmpty) }, outputs)

/-- The busy loop from the engine step to the end of the pass, or to the all-reduce. The step
finished the requests `finished` and says whether it executed the model. -/
def stepLoop (e : DPEngineCoreProc) (executed : Bool) (finished : List String) :
    DPEngineCoreProc :=
  let e := e.abortRequests finished
  let localUnfinished := !e.unfinished.isEmpty
  if executed = false ∧ localUnfinished = false ∧ e.enginesRunning = false then
    -- All engines are idle.
    { e with phase := .top }
  else
    -- `_has_global_unfinished_reqs`: the all-reduce is made every 32 steps.
    let e := { e with stepCounter := e.stepCounter + 1 }
    if e.stepCounter % 32 ≠ 0 then { e with enginesRunning := true, phase := .top }
    else { e with phase := .allReduce localUnfinished }

/-- The busy loop after the all-reduce. -/
def afterAllReduce (e : DPEngineCoreProc) (globalUnfinished : Bool) :
    DPEngineCoreProc × List EngineOutput :=
  if globalUnfinished then ({ e with enginesRunning := true, phase := .top }, [])
  else
    ({ e with
        enginesRunning := false
        currentWave := e.currentWave + 1
        stepCounter := 0
        phase := .top },
      -- Rank 0 notifies the coordinator.
      if e.engineIndex = 0 then [.waveComplete e.currentWave] else [])

end DPEngineCoreProc

/-! ### The coordinator -/

/-- The local variables of `process_input_socket`. -/
structure DPCoordinatorProc where
  currentWave : Nat := 0
  enginesRunning : Bool := false
deriving DecidableEq, Repr

namespace DPCoordinatorProc

/-- A front-end sent a request while it believed the engines paused. The second component is
the wave that is broadcast, if any. -/
def firstReq (c : DPCoordinatorProc) (engineToExclude : ExcludeEngine) (wave : Nat) :
    DPCoordinatorProc × Option (Nat × ExcludeEngine) :=
  if c.enginesRunning = false then
    let engineToExclude := if wave < c.currentWave then .none else engineToExclude
    ({ c with enginesRunning := true }, some (c.currentWave, engineToExclude))
  else (c, none)

/-- An output of the engine `engIndex`. The last component is `wave_state_changed`. -/
def engineOutput (c : DPCoordinatorProc) (engIndex : Nat) :
    EngineOutput → DPCoordinatorProc × Option (Nat × ExcludeEngine) × Bool
  | .waveComplete wave =>
    if c.currentWave ≤ wave then
      ({ currentWave := wave + 1, enginesRunning := false }, none, true)
    else (c, none, false)
  | .startWave wave =>
    if c.currentWave < wave ∨ (wave = c.currentWave ∧ c.enginesRunning = false) then
      ({ currentWave := wave, enginesRunning := true }, some (wave, .index engIndex), true)
    else (c, none, false)

end DPCoordinatorProc

/-! ### Front-ends -/

/-- `DPAsyncMPClient`. -/
structure DPAsyncMPClient where
  currentWave : Nat := 0
  enginesRunning : Bool := false
deriving DecidableEq, Repr

/-! ### The deployment -/

/-- `n` engines, `m` front-ends, the coordinator, and the channels between them, oldest message
first. -/
structure DPSystem (n m : Nat) where
  engines : Fin n → DPEngineCoreProc
  coordinator : DPCoordinatorProc := {}
  clients : Fin m → DPAsyncMPClient := fun _ => {}
  /-- `ADD` and `ABORT`, from a front-end to an engine. -/
  requests : Fin m → Fin n → List EngineInput := fun _ _ => []
  /-- `START_DP_WAVE`, from the coordinator to an engine. -/
  startWaves : Fin n → List EngineInput := fun _ => []
  /-- From an engine to the coordinator. -/
  outputs : Fin n → List EngineOutput := fun _ => []
  /-- `FIRST_REQ`, in the socket pair of a front-end. -/
  firstReqs : Fin m → List (Fin n) := fun _ => []
  /-- The engine and the wave of a `FIRST_REQ`, from a front-end to the coordinator. -/
  notices : Fin m → List (ExcludeEngine × Nat) := fun _ => []
  /-- The wave and the running flag, from the coordinator to a front-end. -/
  published : Fin m → List (Nat × Bool) := fun _ => []

namespace DPSystem

variable {n m : Nat}

/-- The deployment after start-up. -/
def init (n m : Nat) : DPSystem n m where
  engines e := { engineIndex := e }

/-- `_send_start_wave`: a broadcast to the engines. -/
def sendStartWave (s : DPSystem n m) : Option (Nat × ExcludeEngine) → DPSystem n m
  | none => s
  | some (wave, exclude) =>
    { s with startWaves := fun e => s.startWaves e ++ [.startDpWave wave exclude] }

/-- `publish_front.send`: the state of the coordinator to the front-ends. -/
def publish (s : DPSystem n m) : DPSystem n m :=
  let message := (s.coordinator.currentWave, s.coordinator.enginesRunning)
  { s with published := fun c => s.published c ++ [message] }

/-- An engine has a new state and new outputs for the coordinator. -/
def setEngine (s : DPSystem n m) (e : Fin n) (engine : DPEngineCoreProc)
    (outputs : List EngineOutput) : DPSystem n m :=
  { s with
    engines := Function.update s.engines e engine
    outputs := Function.update s.outputs e (s.outputs e ++ outputs) }

end DPSystem

/-- What the parties can do. -/
inductive DPOp (n m : Nat) where
  /-- `add_request_async` for the chosen engine. -/
  | addRequest (c : Fin m) (e : Fin n) (requestId : String)
  /-- `abort_requests_async`. -/
  | abortRequests (c : Fin m) (e : Fin n) (requestIds : List String)
  /-- The statistics task passes on a `FIRST_REQ`. -/
  | forwardFirstReq (c : Fin m)
  /-- The statistics task reads a message of the coordinator. -/
  | readPublished (c : Fin m)
  /-- The coordinator reads a message of a front-end. -/
  | coordinatorFront (c : Fin m)
  /-- The coordinator reads an output of an engine. -/
  | coordinatorBack (e : Fin n)
  /-- The coordinator publishes its state on a timeout. -/
  | coordinatorTimeout
  /-- An engine takes a message of a front-end, or of the coordinator. -/
  | processInput (e : Fin n) (source : Option (Fin m))
  /-- An engine goes on to its step. -/
  | stepLoop (e : Fin n) (executed : Bool) (finished : List String)
  /-- All engines are in the all-reduce. -/
  | allReduce
deriving DecidableEq

section Step
variable {n m : Nat}

/-- An engine takes the first message of a channel, unless it waits in the all-reduce. -/
def takeInput (s : DPSystem n m) (e : Fin n) (source : Option (Fin m)) :
    Option (EngineInput × DPSystem n m) :=
  match source with
  | some c =>
    match s.requests c e with
    | [] => none
    | input :: rest => some (input, { s with
        requests := Function.update s.requests c (Function.update (s.requests c) e rest) })
  | none =>
    match s.startWaves e with
    | [] => none
    | input :: rest => some (input, { s with
        startWaves := Function.update s.startWaves e rest })

/-- Whether an engine waits in the all-reduce, and with which flag. -/
def LoopPhase.inAllReduce? : LoopPhase → Option Bool
  | .allReduce localUnfinished => some localUnfinished
  | _ => none

/-- `has_unfinished_dp`: some engine gave the flag. -/
def globalUnfinished (s : DPSystem n m) : Bool :=
  decide (∃ e, (s.engines e).phase.inAllReduce? = some true)

/-- One step of one party; the error says that the step is not enabled. -/
def dpStep (s : DPSystem n m) : DPOp n m → Except Unit (DPSystem n m)
  | .addRequest c e requestId =>
    let client := s.clients c
    let channel := s.requests c e ++ [.add requestId client.currentWave]
    let firstReqs :=
      if client.enginesRunning = false then s.firstReqs c ++ [e] else s.firstReqs c
    .ok { s with
      requests := Function.update s.requests c (Function.update (s.requests c) e channel)
      firstReqs := Function.update s.firstReqs c firstReqs }
  | .abortRequests c e requestIds =>
    let channel := s.requests c e ++ [.abort requestIds]
    .ok { s with
      requests := Function.update s.requests c (Function.update (s.requests c) e channel) }
  | .forwardFirstReq c =>
    match s.firstReqs c with
    | [] => .error ()
    | e :: rest =>
      let message := (.identity (engineIdentity e), (s.clients c).currentWave)
      .ok { s with
        firstReqs := Function.update s.firstReqs c rest
        notices := Function.update s.notices c (s.notices c ++ [message])
        clients := Function.update s.clients c
          { s.clients c with enginesRunning := true } }
  | .readPublished c =>
    match s.published c with
    | [] => .error ()
    | (wave, running) :: rest => .ok { s with
        published := Function.update s.published c rest
        clients := Function.update s.clients c
          { currentWave := wave, enginesRunning := running } }
  | .coordinatorFront c =>
    match s.notices c with
    | [] => .error ()
    | (exclude, wave) :: rest =>
      let (coordinator, start) := s.coordinator.firstReq exclude wave
      let s := { s with
        coordinator := coordinator
        notices := Function.update s.notices c rest }
      .ok (if start.isSome then (s.sendStartWave start).publish else s)
  | .coordinatorBack e =>
    match s.outputs e with
    | [] => .error ()
    | output :: rest =>
      let (coordinator, start, changed) :=
        s.coordinator.engineOutput (s.engines e).engineIndex output
      let s := { s with
        coordinator := coordinator
        outputs := Function.update s.outputs e rest }
      .ok (if changed then (s.sendStartWave start).publish else s)
  | .coordinatorTimeout => .ok s.publish
  | .processInput e source =>
    if (s.engines e).phase.inAllReduce?.isSome then .error ()
    else
      match takeInput s e source with
      | none => .error ()
      | some (input, s) =>
        let (engine, outputs) := (s.engines e).processInput input
        .ok (s.setEngine e engine outputs)
  | .stepLoop e executed finished =>
    if (s.engines e).phase.inAllReduce?.isSome then .error ()
    -- the model is executed for the requests of the scheduler only
    else if executed = true ∧ (s.engines e).unfinished = [] then .error ()
    else .ok (s.setEngine e ((s.engines e).stepLoop executed finished) [])
  | .allReduce =>
    if ∀ e, (s.engines e).phase.inAllReduce?.isSome = true then
      let result e := (s.engines e).afterAllReduce (globalUnfinished s)
      .ok { s with
        engines := fun e => (result e).1
        outputs := fun e => s.outputs e ++ (result e).2 }
    else .error ()

end Step

end Vllm.V1.Engine
