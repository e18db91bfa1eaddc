import Mathlib.Algebra.GroupWithZero.Nat
import Mathlib.Algebra.Ring.Int.Defs

/-!
# `Vllm.Lib.PyError`: the exceptions a modelled function can raise

A function of the source that can raise returns `Except PyError`. An exception that leaves a
scheduler or pool method ends the engine process, so the state it was raised in is not
observed again and `Except` does not carry it.
-/

set_option autoImplicit false

namespace Vllm.Lib

/-- The exception classes of the source, with their message. -/
inductive PyError where
  | assertionError (msg : String)
  | valueError (msg : String)
  | runtimeError (msg : String)
  | notImplementedError (msg : String)
  | indexError (msg : String)
  | keyError (msg : String)
  | memoryError (msg : String)
  | overflowError (msg : String)
  | zeroDivisionError (msg : String)
deriving DecidableEq, Repr

/-- `assert cond, msg`. -/
def pyAssert (cond : Bool) (msg : String) : Except PyError Unit :=
  if cond then .ok () else .error (.assertionError msg)

theorem pyAssert_eq_ok_iff {cond : Bool} {msg : String} {u : Unit} :
    pyAssert cond msg = .ok u ↔ cond = true := by
  cases cond <;> simp [pyAssert]

/-- A sequence of two computations succeeds when both do. -/
theorem bind_eq_ok_iff {ε α β : Type} {x : Except ε α} {f : α → Except ε β} {b : β} :
    (x >>= f) = .ok b ↔ ∃ a, x = .ok a ∧ f a = .ok b := by
  cases x with
  | error e => simp [bind, Except.bind]
  | ok a => simp [bind, Except.bind]

theorem bind_ok {ε α β : Type} {x : Except ε α} {f : α → Except ε β} {b : β}
    (h : (x >>= f) = .ok b) : ∃ a, x = .ok a ∧ f a = .ok b :=
  bind_eq_ok_iff.mp h

@[simp] theorem except_ok_bind {ε α β : Type} (a : α) (f : α → Except ε β) :
    ((Except.ok a : Except ε α) >>= f) = f a := rfl

@[simp] theorem except_error_bind {ε α β : Type} (e : ε) (f : α → Except ε β) :
    ((Except.error e : Except ε α) >>= f) = .error e := rfl

/-- Raw bytes, Python's `bytes`. -/
abbrev Bytes := List UInt8

/-! ### Small sizes

A literal of `ℕ+` or `Fin` needs a proof that its bound is not 0. -/

instance neZeroOne : NeZero (1 : Nat) := ⟨Nat.one_ne_zero⟩

instance neZeroTwo : NeZero (2 : Nat) := ⟨by decide⟩

instance neZeroFour : NeZero (4 : Nat) := ⟨by decide⟩

end Vllm.Lib
