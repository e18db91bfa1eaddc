import Vllm.Lib.PyDict
import Vllm.V1.Request

/-!
# `Vllm.Multimodal.Inputs`: equality of nested tensors

(`vllm/multimodal/inputs.py`)

`==` of the tensors stands for `torch.equal`.
-/

set_option autoImplicit false

namespace Vllm.Multimodal

open Vllm.Lib Vllm.V1

/-- `NestedTensors`, with the scalars that the leaves can be too. -/
inductive NestedTensors (τ σ : Type) where
  | tensor (t : τ)
  | scalar (x : σ)
  | list (l : List (NestedTensors τ σ))

variable {τ σ : Type} [BEq τ] [BEq σ]

mutual

/-- `nested_tensors_equal`. -/
def nestedTensorsEqual : NestedTensors τ σ → NestedTensors τ σ → Bool
  | .tensor a, .tensor b => a == b
  | .tensor _, _ => false
  | _, .tensor _ => false
  | .list a, .list b => allEqual a b
  | .list _, _ => false
  | _, .list _ => false
  | .scalar a, .scalar b => a == b

/-- `all(nested_tensors_equal(a_, b_) for a_, b_ in zip(a, b))`. -/
def allEqual : List (NestedTensors τ σ) → List (NestedTensors τ σ) → Bool
  | a :: as, b :: bs => nestedTensorsEqual a b && allEqual as bs
  | _, _ => true

end

/-- `batched_tensors_equal`. -/
def batchedTensorsEqual (a b : PyDict String (NestedTensors τ σ)) : Bool :=
  a.entries.all fun (k, x) => match b.get? k with
    | none => false
    | some y => nestedTensorsEqual x y

/-- `PlaceholderRange.__eq__`. -/
def placeholderRangeEq (a b : PlaceholderRange) : Bool :=
  if ¬(a.offset = b.offset ∧ a.length = b.length) then false
  else match a.isEmbed, b.isEmbed with
    | none, other => other.isNone
    | some _, none => false
    | some mask, some other =>
      nestedTensorsEqual (.tensor mask : NestedTensors (List Bool) Nat) (.tensor other)

end Vllm.Multimodal
