import Vllm.Lib.PyError

/-!
# `Vllm.Lib.Transcript`: what a caller of a fallible object can tell

An object is a state and a step function that answers an operation or raises. Its transcript
is the list of the answers to a list of operations, up to the first exception.

* `Agree`: two computations raise the same exception, or both succeed with related values.
  `Agree.bind` follows a sequence of two computations.
* `transcript_eq`: two states that a relation kept by every operation connects have the same
  transcripts, so no caller can tell them apart.
-/

set_option autoImplicit false

namespace Vllm.Lib

section Agree
variable {ε α β γ δ : Type}

/-- The two computations raise the same exception, or both succeed with related values. -/
def Agree (R : α → β → Prop) : Except ε α → Except ε β → Prop
  | .ok a, .ok b => R a b
  | .error e, .error e' => e = e'
  | .ok _, .error _ => False
  | .error _, .ok _ => False

namespace Agree

variable {R : α → β → Prop} {S : γ → δ → Prop}

theorem bind {x : Except ε α} {y : Except ε β} {f : α → Except ε γ} {g : β → Except ε δ}
    (h : Agree R x y) (hf : ∀ a b, R a b → Agree S (f a) (g b)) :
    Agree S (x >>= f) (y >>= g) := by
  cases x with
  | error e =>
    cases y with
    | error e' => exact h
    | ok b => exact h.elim
  | ok a =>
    cases y with
    | error e' => exact h.elim
    | ok b => exact hf a b h

/-- The same first computation, then two that agree. -/
theorem bind_same (x : Except ε α) {f : α → Except ε γ} {g : α → Except ε δ}
    (hf : ∀ a, Agree S (f a) (g a)) : Agree S (x >>= f) (x >>= g) := by
  cases x with
  | error e => exact rfl
  | ok a => exact hf a

/-- The same branch of a condition. -/
theorem ite {c : Prop} [Decidable c] {x x' : Except ε γ} {y y' : Except ε δ}
    (ht : c → Agree S x y) (he : ¬ c → Agree S x' y') :
    Agree S (if c then x else x') (if c then y else y') := by
  by_cases hc : c
  · rw [if_pos hc, if_pos hc]
    exact ht hc
  · rw [if_neg hc, if_neg hc]
    exact he hc

end Agree

end Agree

section Transcript
variable {ε σ ο α : Type}

/-- The answers to a list of operations, up to the first exception. -/
def transcript (step : σ → ο → Except ε (α × σ)) : σ → List ο → List (Except ε α)
  | _, [] => []
  | s, o :: os =>
    match step s o with
    | .error e => [.error e]
    | .ok (a, s') => .ok a :: transcript step s' os

/-- The answers are equal and the states are related. -/
def SameAnswer (R : σ → σ → Prop) (x y : α × σ) : Prop := x.1 = y.1 ∧ R x.2 y.2

/-- Related states have the same transcripts, when every operation answers alike in related
states and leads to related states again. -/
theorem transcript_eq {step : σ → ο → Except ε (α × σ)} {R : σ → σ → Prop}
    (hstep : ∀ s s' o, R s s' → Agree (SameAnswer R) (step s o) (step s' o))
    {s s' : σ} (h : R s s') (os : List ο) : transcript step s os = transcript step s' os := by
  induction os generalizing s s' with
  | nil => rfl
  | cons o os ih =>
    have ho := hstep s s' o h
    unfold transcript
    cases hs : step s o with
    | error e =>
      cases hs' : step s' o with
      | error e' =>
        rw [hs, hs'] at ho
        cases ho
        rfl
      | ok y =>
        rw [hs, hs'] at ho
        exact ho.elim
    | ok x =>
      cases hs' : step s' o with
      | error e' =>
        rw [hs, hs'] at ho
        exact ho.elim
      | ok y =>
        rw [hs, hs'] at ho
        obtain ⟨hanswer, hR⟩ := ho
        simp only [hanswer, ih hR]

end Transcript

end Vllm.Lib
