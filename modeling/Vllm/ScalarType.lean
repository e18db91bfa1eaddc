import Mathlib.Data.Int.Bitwise
import Vllm.Lib.Double

/-!
# `Vllm.ScalarType`: scalar types in Python (`vllm/scalar_type.py`)

The fields of the data class are integers of any size; only the convenience constructors check
them. `id` keeps 8 bits of the exponent and the mantissa and 32 of the bias.

`NanRepr` is a plain `Enum`, and a member of a plain `Enum` is never equal to an integer.
`has_nans` and `is_ieee_754` compare `nan_repr` with `NanRepr.X.value`, which is an integer.
-/

set_option autoImplicit false

namespace Vllm

open Vllm.Lib

/-- `NanRepr`. -/
inductive NanRepr where
  | none
  | ieee754
  | extdRangeMaxMin
deriving DecidableEq

/-- `NanRepr.X.value`. -/
def NanRepr.value : NanRepr → Int
  | .none => 0
  | .ieee754 => 1
  | .extdRangeMaxMin => 2

/-- `nan_repr == n` for an integer. -/
def NanRepr.eqInt (_nanRepr : NanRepr) (_n : Int) : Bool := false

/-- A result that is an integer or a float. -/
inductive Number where
  | int (x : Int)
  | float (x : Double)
deriving DecidableEq

/-- `x - n`. -/
def Number.sub : Number → Int → Number
  | .int x, n => .int (x - n)
  | .float x, n => .float (x.subInt n)

/-- The exceptions of the methods. -/
inductive ScalarTypeError where
  | assertionError (msg : String)
  | valueError (msg : String)
  | structError (msg : String)
deriving DecidableEq

/-- `x << n`. -/
def pyShl (x n : Int) : Except ScalarTypeError Int :=
  if n < 0 then .error (.valueError "negative shift count") else .ok (x * 2 ^ n.toNat)

/-- `struct.pack("!Q", x)`. -/
def packQ (x : Int) : Except ScalarTypeError Nat :=
  if 0 ≤ x ∧ x < 2 ^ 64 then .ok x.toNat
  else .error (.structError "int too large to convert")

/-- `int(member) & bit_mask` for a mask of `bitWidth` bits: the remainder, also of a negative
integer. -/
def maskBits (member : Int) (bitWidth : Nat) : Nat := (member % 2 ^ bitWidth).toNat

/-- `ScalarType`. -/
structure ScalarType where
  exponent : Int
  mantissa : Int
  signed : Bool
  bias : Int
  finiteValuesOnly : Bool := false
  nanRepr : NanRepr := .ieee754
deriving DecidableEq

namespace ScalarType

/-- `assert`. -/
def check (cond : Bool) (msg : String) : Except ScalarTypeError Unit :=
  if cond then .ok () else .error (.assertionError msg)

/-- `size_bits`. -/
def sizeBits (t : ScalarType) : Int := t.exponent + t.mantissa + t.signed.toNat

/-- `is_signed`. -/
def isSigned (t : ScalarType) : Bool := t.signed

/-- `is_floating_point`. -/
def isFloatingPoint (t : ScalarType) : Bool := t.exponent ≠ 0

/-- `is_integer`. -/
def isInteger (t : ScalarType) : Bool := t.exponent = 0

/-- `has_bias`. -/
def hasBias (t : ScalarType) : Bool := t.bias ≠ 0

/-- `has_infs`. -/
def hasInfs (t : ScalarType) : Bool := !t.finiteValuesOnly

/-- `has_nans`. -/
def hasNans (t : ScalarType) : Bool := !t.nanRepr.eqInt NanRepr.none.value

/-- `is_ieee_754`. -/
def isIeee754 (t : ScalarType) : Bool :=
  t.nanRepr.eqInt NanRepr.ieee754.value && !t.finiteValuesOnly

/-- `__str__`. -/
def str (t : ScalarType) : String :=
  if t.isFloatingPoint then
    let ret := "float" ++ toString t.sizeBits ++ "_e" ++ toString t.exponent ++ "m"
      ++ toString t.mantissa
    if !t.isIeee754 then
      let ret := if t.finiteValuesOnly then ret ++ "f" else ret
      if t.nanRepr ≠ .none then ret ++ "n" else ret
    else ret
  else
    let ret := (if t.isSigned then "int" else "uint") ++ toString t.sizeBits
    if t.hasBias then ret ++ "b" ++ toString t.bias else ret

/-- `_floating_point_max_int`. -/
def floatingPointMaxInt (t : ScalarType) : Except ScalarTypeError Int := do
  check (t.mantissa ≤ 52 ∧ t.exponent ≤ 11)
    ("Cannot represent max/min as a double for type " ++ t.str)
  let maxMantissa := (← pyShl 1 t.mantissa) - 1
  let maxMantissa := if t.nanRepr = .extdRangeMaxMin then maxMantissa - 1 else maxMantissa
  let maxExponent := (← pyShl 1 t.exponent) - 2
  let maxExponent ←
    (if t.nanRepr = .extdRangeMaxMin ∨ t.nanRepr = .none then do
      check (t.exponent < 11) ("Cannot represent max/min as a double for type " ++ t.str)
      .ok (maxExponent + 1)
    else .ok maxExponent)
  -- The exponent is adjusted to that of a double.
  let exponentBias := (← pyShl 1 (t.exponent - 1)) - 1
  let exponentBiasDouble := (1 : Int) * 2 ^ 10 - 1
  let maxExponentDouble := maxExponent - exponentBias + exponentBiasDouble
  return Int.lor (← pyShl maxMantissa (52 - t.mantissa)) (maxExponentDouble * 2 ^ 52)

/-- `_floating_point_max`. -/
def floatingPointMax (t : ScalarType) : Except ScalarTypeError Double := do
  let doubleRaw ← t.floatingPointMaxInt
  return Double.ofBits (← packQ doubleRaw)

/-- `_raw_max`. -/
def rawMax (t : ScalarType) : Except ScalarTypeError Number :=
  if t.isFloatingPoint then return .float (← t.floatingPointMax)
  else do
    check (t.sizeBits < 64 ∨ t.sizeBits = 64 ∧ t.isSigned) "Cannot represent max as an int"
    return .int ((← pyShl 1 t.mantissa) - 1)

/-- `_raw_min`. -/
def rawMin (t : ScalarType) : Except ScalarTypeError Number :=
  if t.isFloatingPoint then do
    check t.isSigned "We currently assume all floating point types are signed"
    let signBitDouble : Int := 2 ^ 63
    let maxRaw ← t.floatingPointMaxInt
    let minRaw := Int.lor maxRaw signBitDouble
    return .float (Double.ofBits (← packQ minRaw))
  else do
    check (!t.isSigned ∨ t.sizeBits ≤ 64) "Cannot represent min as a int64_t"
    if t.isSigned then return .int (-(← pyShl 1 (t.sizeBits - 1))) else return .int 0

/-- `min`. -/
def min (t : ScalarType) : Except ScalarTypeError Number := return (← t.rawMin).sub t.bias

/-- `max`. -/
def max (t : ScalarType) : Except ScalarTypeError Number := return (← t.rawMax).sub t.bias

/-- The members that `id` packs, with their widths. -/
def members (t : ScalarType) : List (Int × Nat) :=
  [(t.exponent, 8), (t.mantissa, 8), (t.signed.toNat, 1), (t.bias, 32),
    (t.finiteValuesOnly.toNat, 1), (t.nanRepr.value, 8)]

/-- `or_and_advance`, on `val` and `offset`. -/
def orAndAdvance (acc : Nat × Nat) (member : Int × Nat) : Nat × Nat :=
  (acc.1 ||| maskBits member.1 member.2 <<< acc.2, acc.2 + member.2)

/-- `id`. The widths add up to 58, so that its assertion holds. -/
def id (t : ScalarType) : Int := (t.members.foldl orAndAdvance (0, 0)).1

end ScalarType

end Vllm
