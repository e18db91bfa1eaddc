import Mathlib.Init

/-!
# `Vllm.Lib.Run`: runs of a system of fallible operations

A system is a step function: an operation either raises or leads to the next state. A run is
any number of operations, none of which raises, each applied in a state that meets a
condition. The condition is where a development says what it assumes of the callers.

* `Run.invariant`: what every step keeps holds in every state a run reaches.
* `Run.of_runChecked`, `exists_run_of_check`: executing a list of operations, with the
  condition checked before each, is a run.
-/

set_option autoImplicit false

namespace Vllm.Lib

variable {σ ο ε : Type}

/-- `Run step C s₀ s`: the state `s` is reached from `s₀` by operations that do not raise and
that meet the condition `C` in the state they are applied in. -/
inductive Run (step : σ → ο → Except ε σ) (C : σ → ο → Prop) (s₀ : σ) : σ → Prop where
  | start : Run step C s₀ s₀
  | next {s s' : σ} (o : ο) (h : Run step C s₀ s) (hC : C s o) (hs : step s o = .ok s') :
      Run step C s₀ s'

namespace Run

variable {step : σ → ο → Except ε σ} {C : σ → ο → Prop} {s₀ s : σ}

/-- The induction rule of safety: an invariant of the start that every step keeps. -/
theorem invariant (h : Run step C s₀ s) (Inv : σ → Prop) (h0 : Inv s₀)
    (hstep : ∀ s o s', Inv s → C s o → step s o = .ok s' → Inv s') : Inv s := by
  induction h with
  | start => exact h0
  | next o _ hC hs ih => exact hstep _ o _ ih hC hs

theorem trans {s' : σ} (h : Run step C s₀ s) (h' : Run step C s s') : Run step C s₀ s' := by
  induction h' with
  | start => exact h
  | next o _ hC hs ih => exact .next o ih hC hs

/-- A run that meets a stronger condition. -/
theorem mono {C' : σ → ο → Prop} (h : Run step C s₀ s) (hC : ∀ s o, C s o → C' s o) :
    Run step C' s₀ s := by
  induction h with
  | start => exact .start
  | next o _ ho hs ih => exact .next o ih (hC _ o ho) hs

end Run

/-- Executes a list of operations and checks the condition before each of them. -/
def runChecked (step : σ → ο → Except ε σ) (C : σ → ο → Prop) [∀ s o, Decidable (C s o)] :
    σ → List ο → Option σ
  | s, [] => some s
  | s, o :: os =>
    if C s o then
      match step s o with
      | .ok s' => runChecked step C s' os
      | .error _ => none
    else none

section Checked
variable {step : σ → ο → Except ε σ} {C : σ → ο → Prop} [∀ s o, Decidable (C s o)]

/-- A checked execution is a run. -/
theorem Run.of_runChecked {os : List ο} {s₀ s : σ}
    (h : runChecked step C s₀ os = some s) : Run step C s₀ s := by
  induction os generalizing s₀ with
  | nil =>
    cases h
    exact .start
  | cons o os ih =>
    unfold runChecked at h
    split at h
    · rename_i hC
      split at h
      · rename_i s1 hs
        exact (Run.next o .start hC hs).trans (ih h)
      · cases h
    · cases h

/-- A checked execution from a start that was built, to a state with the property `P`. -/
theorem exists_run_of_check (step : σ → ο → Except ε σ) (C : σ → ο → Prop)
    [∀ s o, Decidable (C s o)] (P : σ → Prop) [DecidablePred P] (start : Except ε σ)
    (os : List ο) (h : (match start with
      | .ok s₀ => (runChecked step C s₀ os).any (fun s => decide (P s))
      | .error _ => false) = true) :
    ∃ s₀ s, start = .ok s₀ ∧ Run step C s₀ s ∧ P s := by
  cases start with
  | error e => cases h
  | ok s₀ =>
    dsimp only at h
    cases hs : runChecked step C s₀ os with
    | none =>
      rw [hs] at h
      cases h
    | some s =>
      rw [hs] at h
      exact ⟨s₀, s, rfl, Run.of_runChecked hs, of_decide_eq_true h⟩

end Checked

end Vllm.Lib
