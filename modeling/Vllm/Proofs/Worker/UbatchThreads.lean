import Vllm.Lib.Run
import Vllm.V1.Worker.Ubatching

/-!
# `Vllm.Proofs.Worker.UbatchThreads`: where a micro-batch thread is

What a thread still does of the current function is one of finitely many lists (`places`). They
give its `phase`, and what the next operation makes of it (`PhaseStep`): these facts are checked
once, over `places`, and the invariants of `UbatchTurns` only use them.

* `phaseOf`: whether the thread waits for its turn, has it, or is through.
* `waits`: how often it still waits for its event.
* `Streams`: the assertions on the streams that are still to come hold.
-/

set_option autoImplicit false

namespace Vllm.Proofs.Worker.Ubatching

open Vllm.Lib Vllm.V1.Worker.Ubatching

/-! ### Places -/

/-- Before its turn, at the two operations after `wait`, in its segment, or through. -/
inductive Phase where
  | waiting
  | woken
  | restoring
  | running
  | finished
deriving DecidableEq, Repr

def phaseOf (left : Bool) (code : List Instr) : Phase :=
  if .setSignal ∈ code then .running
  else if .wait ∈ code then .waiting
  else if left then .finished
  else if .clear ∈ code then .woken
  else if .restoreContext ∈ code then .restoring
  else .running

/-- It is the turn of the thread. -/
def Phase.holds : Phase → Bool
  | .woken | .restoring | .running => true
  | .waiting | .finished => false

def allMethods : List Method :=
  [.work, .yield_, .yieldAndSwitchFromComputeToComm, .yieldAndSwitchFromCommToCompute,
    .switchToComm, .switchToCompute, .switchToCommSync, .switchToComputeSync, .maybeRunRecvHook]

/-- What a thread can still have to do of a function, before and after it left the `with`. -/
def places : List (Bool × List Instr) :=
  (enter.tails ++ allMethods.flatMap fun m => m.code.tails).map (Prod.mk false) ++
    (exit ++ [Instr.appendResult]).tails.map (Prod.mk true)

/-- How an operation changes the phase. -/
def phaseStep : Instr → Phase → Phase → Bool
  | .wait, .waiting, .woken => true
  | .clear, .woken, .restoring => true
  | .clear, .finished, .finished => true
  | .restoreContext, .restoring, .running => true
  | .setSignal, .running, .waiting => true
  | .setSignal, .running, .finished => true
  | .register, .waiting, .waiting => true
  | .barrierArrive, .waiting, .waiting => true
  | .barrierLeave, .waiting, .waiting => true
  | .appendResult, .finished, .finished => true
  | .wait, _, _ | .clear, _, _ | .restoreContext, _, _ | .setSignal, _, _ | .register, _, _
  | .barrierArrive, _, _ | .barrierLeave, _, _ | .appendResult, _, _ => false
  | _, .running, .running => true
  | _, _, _ => false

/-- Whether the thread has arrived at the barrier. -/
def arrivals (code : List Instr) : Nat := if .barrierArrive ∈ code then 0 else 1

/-- Whether it has given its result. -/
def given (left : Bool) (code : List Instr) : Nat :=
  if left = true ∧ .appendResult ∉ code then 1 else 0

/-- The facts about the next operation at a place. -/
structure PlaceFacts (left : Bool) (instr : Instr) (rest : List Instr) : Prop where
  place : (left, rest) ∈ places
  phase : phaseStep instr (phaseOf left (instr :: rest)) (phaseOf left rest) = true
  arrivals : arrivals rest = arrivals (instr :: rest) + if instr = .barrierArrive then 1 else 0
  given : given left rest = given left (instr :: rest) + if instr = .appendResult then 1 else 0
  register : left = false → .register ∉ rest → instr = .register ∨ .register ∉ instr :: rest
  unregister : instr = .unregister → left = true

instance (left : Bool) (instr : Instr) (rest : List Instr) :
    Decidable (PlaceFacts left instr rest) :=
  decidable_of_iff ((left, rest) ∈ places ∧
    phaseStep instr (phaseOf left (instr :: rest)) (phaseOf left rest) = true ∧
    (arrivals rest = arrivals (instr :: rest) + if instr = .barrierArrive then 1 else 0) ∧
    (given left rest = given left (instr :: rest) + if instr = .appendResult then 1 else 0) ∧
    (left = false → .register ∉ rest → instr = .register ∨ .register ∉ instr :: rest) ∧
    (instr = .unregister → left = true))
    ⟨fun h => ⟨h.1, h.2.1, h.2.2.1, h.2.2.2.1, h.2.2.2.2.1, h.2.2.2.2.2⟩,
      fun h => ⟨h.place, h.phase, h.arrivals, h.given, h.register, h.unregister⟩⟩

def placeCheck : Bool × List Instr → Bool
  | (_, []) => true
  | (left, instr :: rest) => decide (PlaceFacts left instr rest)

theorem placeCheck_places : ∀ p ∈ places, placeCheck p = true := by decide

theorem placeFacts {left : Bool} {instr : Instr} {rest : List Instr}
    (h : (left, instr :: rest) ∈ places) : PlaceFacts left instr rest :=
  of_decide_eq_true (placeCheck_places _ h)

/-! ### What is still to come -/

/-- How often the thread still waits for its event. -/
def waits (t : Thread) : Nat := t.code.count .wait + (t.methods.filter Method.yields).length

theorem count_wait_code (m : Method) : m.code.count .wait = if m.yields then 1 else 0 := by
  cases m <;> rfl

/-- The streams after some operations, `none` when an assertion on them fails. -/
def runStreams : Stream → Stream → List Instr → Option (Stream × Stream)
  | stream, own, [] => some (stream, own)
  | stream, own, .assertStream :: code =>
    if stream = own then runStreams stream own code else none
  | stream, own, .assertCurrentStream x :: code =>
    if stream = x then runStreams stream own code else none
  | stream, own, .assertOwnStream x :: code =>
    if own = x then runStreams stream own code else none
  | stream, _, .saveStream :: code => runStreams stream stream code
  | _, _, .updateStream x :: code => runStreams x x code
  | _, own, .updateToOwn :: code => runStreams own own code
  | stream, own, _ :: code => runStreams stream own code

/-- The methods that say which stream they are called on are called on it. -/
def calledOnStream : Stream → List Method → Bool
  | _, [] => true
  | stream, .yieldAndSwitchFromComputeToComm :: methods =>
    stream = .compute && calledOnStream .comm methods
  | stream, .yieldAndSwitchFromCommToCompute :: methods =>
    stream = .comm && calledOnStream .compute methods
  | _, .switchToComm :: methods | _, .switchToCommSync :: methods => calledOnStream .comm methods
  | _, .switchToCompute :: methods | _, .switchToComputeSync :: methods =>
    calledOnStream .compute methods
  | stream, _ :: methods => calledOnStream stream methods

/-- The assertions on the streams hold, in the function that runs and in those that follow. -/
def Streams (t : Thread) : Prop :=
  ∃ x, runStreams t.stream t.ownStream t.code = some (x, x) ∧ calledOnStream x t.methods = true

/-- A thread that is where the program can be, and has not raised. -/
structure ThreadOk (t : Thread) : Prop where
  place : (t.left, t.code) ∈ places
  methods : t.left = true → t.methods = []
  raised : t.raised = none
  streams : Streams t

/-- The phase of a thread. -/
def phase (t : Thread) : Phase := phaseOf t.left t.code

/-- What an operation does in the thread itself. -/
def afterInstr (t : Thread) : Instr → Thread
  | .setSignal => { t with segment := t.segment + 1 }
  | .saveStream => { t with ownStream := t.stream }
  | .updateStream stream => { t with
      stream
      ownStream := stream }
  | .updateToOwn => { t with stream := t.ownStream }
  | _ => t

section Thread
variable {t : Thread} {instr : Instr} {rest : List Instr}

@[simp] theorem afterInstr_code : (afterInstr t instr).code = t.code := by cases instr <;> rfl
@[simp] theorem afterInstr_methods : (afterInstr t instr).methods = t.methods := by
  cases instr <;> rfl
@[simp] theorem afterInstr_left : (afterInstr t instr).left = t.left := by cases instr <;> rfl
@[simp] theorem afterInstr_started : (afterInstr t instr).started = t.started := by
  cases instr <;> rfl
@[simp] theorem afterInstr_raised : (afterInstr t instr).raised = t.raised := by
  cases instr <;> rfl

/-- A thread that waits has a `wait` to do. -/
theorem waits_pos (h : phase t = .waiting) : 0 < waits t := by
  unfold phase phaseOf at h
  have hmem : .wait ∈ t.code := by
    by_contra hwait
    rw [if_neg hwait] at h
    split at h
    · cases h
    · split at h
      · cases h
      · split at h
        · cases h
        · split at h <;> cases h
  have := List.count_pos_iff.mpr hmem
  unfold waits
  omega

/-- A thread that is through has left the `with`, and waits no more. -/
theorem ThreadOk.of_finished (h : ThreadOk t) (hphase : phase t = .finished) :
    t.left = true ∧ waits t = 0 := by
  have hplaces : ∀ p ∈ places, phaseOf p.1 p.2 = .finished →
      p.1 = true ∧ p.2.count Instr.wait = 0 := by decide
  obtain ⟨hleft, hcount⟩ := hplaces _ h.place hphase
  refine ⟨hleft, ?_⟩
  unfold waits
  rw [hcount, h.methods hleft]
  rfl

theorem ThreadOk.facts (h : ThreadOk t) (hcode : t.code = instr :: rest) :
    PlaceFacts t.left instr rest :=
  placeFacts (hcode ▸ h.place)

theorem waits_instr (hcode : t.code = instr :: rest) :
    waits t = waits (afterInstr { t with code := rest } instr) + if instr = .wait then 1 else 0 := by
  unfold waits
  rw [hcode, List.count_cons, afterInstr_code, afterInstr_methods]
  simp only [beq_iff_eq]
  omega

/-- The assertions of the thread on its streams. -/
def streamAssert (t : Thread) : Instr → Prop
  | .assertStream => t.stream = t.ownStream
  | .assertCurrentStream stream => t.stream = stream
  | .assertOwnStream stream => t.ownStream = stream
  | _ => True

/-- An operation keeps `Streams`, and its assertion holds. -/
theorem streams_instr (h : Streams t) (hcode : t.code = instr :: rest) :
    Streams (afterInstr { t with code := rest } instr) ∧
      streamAssert { t with code := rest } instr := by
  obtain ⟨x, hrun, hcalled⟩ := h
  rw [hcode] at hrun
  cases instr with
  | assertStream =>
    rw [runStreams] at hrun
    split at hrun
    · rename_i heq
      exact ⟨⟨x, hrun, hcalled⟩, heq⟩
    · cases hrun
  | assertCurrentStream stream =>
    rw [runStreams] at hrun
    split at hrun
    · rename_i heq
      exact ⟨⟨x, hrun, hcalled⟩, heq⟩
    · cases hrun
  | assertOwnStream stream =>
    rw [runStreams] at hrun
    split at hrun
    · rename_i heq
      exact ⟨⟨x, hrun, hcalled⟩, heq⟩
    · cases hrun
  | _ => exact ⟨⟨x, hrun, hcalled⟩, trivial⟩

theorem ThreadOk.afterInstr (h : ThreadOk t) (hcode : t.code = instr :: rest) :
    ThreadOk (afterInstr { t with code := rest } instr) where
  place := by
    rw [afterInstr_left, afterInstr_code]
    exact (h.facts hcode).place
  methods := by
    rw [afterInstr_left, afterInstr_methods]
    exact h.methods
  raised := by
    rw [afterInstr_raised]
    exact h.raised
  streams := (streams_instr h.streams hcode).1

theorem mem_allMethods (m : Method) : m ∈ allMethods := by cases m <;> decide

theorem mem_places_of_method (m : Method) : (false, m.code) ∈ places := by
  refine List.mem_append_left _ (List.mem_map_of_mem (List.mem_append_right _ ?_))
  exact List.mem_flatMap.mpr ⟨m, mem_allMethods m, (List.mem_tails _ _).mpr List.suffix_rfl⟩

/-- The streams of a method that is called on the right one. -/
theorem runStreams_method {m : Method} {methods : List Method} {x : Stream}
    (h : calledOnStream x (m :: methods) = true) :
    ∃ y, runStreams x x m.code = some (y, y) ∧ calledOnStream y methods = true := by
  cases m with
  | yieldAndSwitchFromComputeToComm =>
    obtain ⟨hx, hrest⟩ := Bool.and_eq_true_iff.mp h
    obtain rfl := of_decide_eq_true hx
    exact ⟨.comm, rfl, hrest⟩
  | yieldAndSwitchFromCommToCompute =>
    obtain ⟨hx, hrest⟩ := Bool.and_eq_true_iff.mp h
    obtain rfl := of_decide_eq_true hx
    exact ⟨.compute, rfl, hrest⟩
  | yield_ => exact ⟨x, by cases x <;> rfl, h⟩
  | switchToComm => exact ⟨.comm, rfl, h⟩
  | switchToCommSync => exact ⟨.comm, rfl, h⟩
  | switchToCompute => exact ⟨.compute, rfl, h⟩
  | switchToComputeSync => exact ⟨.compute, rfl, h⟩
  | work => exact ⟨x, rfl, h⟩
  | maybeRunRecvHook => exact ⟨x, rfl, h⟩

/-- The next method of the model. -/
theorem ThreadOk.call (h : ThreadOk t) {m : Method} {methods : List Method} (hcode : t.code = [])
    (hmethods : t.methods = m :: methods) : ThreadOk { t with
      code := m.code
      methods } := by
  have hleft : t.left = false := by
    by_contra hl
    rw [h.methods (Bool.not_eq_false _ ▸ hl)] at hmethods
    cases hmethods
  obtain ⟨x, hrun, hcalled⟩ := h.streams
  rw [hcode] at hrun
  obtain ⟨hstream, hown⟩ := Prod.mk.inj (Option.some.inj hrun)
  rw [hmethods] at hcalled
  constructor
  · show (t.left, m.code) ∈ places
    rw [hleft]
    exact mem_places_of_method m
  · intro hl
    exact absurd (hleft.symm.trans hl) (by decide)
  · exact h.raised
  · obtain ⟨y, hy, hrest⟩ := runStreams_method hcalled
    refine ⟨y, ?_, hrest⟩
    show runStreams t.stream t.ownStream m.code = some (y, y)
    rw [hstream, hown]
    exact hy

/-- The model has returned, and `__exit__` follows. -/
theorem ThreadOk.leave (h : ThreadOk t) (hcode : t.code = []) (hmethods : t.methods = []) :
    ThreadOk { t with
      code := exit ++ [.appendResult]
      left := true } where
  __ := h
  place := by
    show (true, exit ++ [Instr.appendResult]) ∈ places
    decide
  methods := fun _ => hmethods
  streams := by
    obtain ⟨x, hrun, hcalled⟩ := h.streams
    rw [hcode] at hrun
    exact ⟨x, hrun, hcalled⟩

end Thread

end Vllm.Proofs.Worker.Ubatching
