import Vllm.ScalarType

/-!
# `Vllm.Csrc.ScalarType`: scalar types in C++ (`csrc/core/scalar_type.hpp`)

The fields have the widths of their types. `NanRepr` has the underlying type `uint8_t`, and
`from_id` casts any byte to it. Unsigned arithmetic wraps; signed arithmetic that leaves
`int64_t` is undefined, which is an error of its own here.
-/

set_option autoImplicit false

namespace Vllm.Csrc

open Vllm.Lib

/-- How a function ends that returns no value. -/
inductive CppError where
  | torchCheck (msg : String)
  | signedOverflow
deriving DecidableEq

/-- `TORCH_CHECK`. -/
def torchCheck (cond : Bool) (msg : String) : Except CppError Unit :=
  if cond then .ok () else .error (.torchCheck msg)

/-- The result of signed arithmetic in `int64_t`. -/
def int64 (x : Int) : Except CppError Int :=
  if -2 ^ 63 ≤ x ∧ x < 2 ^ 63 then .ok x else .error .signedOverflow

/-- `ScalarType`. -/
structure ScalarType where
  exponent : BitVec 8
  mantissa : BitVec 8
  signed : Bool
  bias : BitVec 32
  finiteValuesOnly : Bool
  nanRepr : BitVec 8
deriving DecidableEq

/-- `NAN_NONE`. -/
def nanNone : BitVec 8 := 0

/-- `NAN_IEEE_754`. -/
def nanIeee754 : BitVec 8 := 1

/-- `NAN_EXTD_RANGE_MAX_MIN`. -/
def nanExtdRangeMaxMin : BitVec 8 := 2

namespace ScalarType

/-- `(uint64_t(1) << bits) - 1`. -/
def mask (bits : Nat) : BitVec 64 := 1#64 <<< bits - 1#64

/-- The members in the order of the constructor, as `int64_t(member)`, with the widths of
`member_id_field_width`. -/
def members (t : ScalarType) : List (BitVec 64 × Nat) :=
  [(t.exponent.setWidth 64, 8), (t.mantissa.setWidth 64, 8), (BitVec.ofNat 64 t.signed.toNat, 1),
    (t.bias.signExtend 64, 32), (BitVec.ofNat 64 t.finiteValuesOnly.toNat, 1),
    (t.nanRepr.setWidth 64, 8)]

/-- `or_and_advance`. -/
def orAndAdvance (result : BitVec 64 × Nat) (member : BitVec 64 × Nat) : BitVec 64 × Nat :=
  (result.1 ||| (member.1 &&& mask member.2) <<< result.2, result.2 + member.2)

/-- `id`. -/
def id (t : ScalarType) : BitVec 64 := (t.members.foldl orAndAdvance (0#64, 0)).1

/-- The extracted value of `extract_and_advance`, before it is cast to the type of the
member. -/
def extract (id : BitVec 64) (bitOffset bits : Nat) : BitVec 64 :=
  id.sshiftRight bitOffset &&& mask bits

/-- `from_id`. -/
def fromId (id : BitVec 64) : ScalarType where
  exponent := (extract id 0 8).setWidth 8
  mantissa := (extract id 8 8).setWidth 8
  signed := extract id 16 1 ≠ 0
  bias := (extract id 17 32).setWidth 32
  finiteValuesOnly := extract id 49 1 ≠ 0
  nanRepr := (extract id 50 8).setWidth 8

/-- `is_signed`. -/
def isSigned (t : ScalarType) : Bool := t.signed

/-- `size_bits`. -/
def sizeBits (t : ScalarType) : Int := t.mantissa.toNat + t.exponent.toNat + t.isSigned.toNat

/-- `is_integer`. -/
def isInteger (t : ScalarType) : Bool := t.exponent = 0

/-- `is_floating_point`. -/
def isFloatingPoint (t : ScalarType) : Bool := 0 < t.exponent.toNat

/-- `is_ieee_754`. -/
def isIeee754 (t : ScalarType) : Bool :=
  t.isFloatingPoint && t.finiteValuesOnly = false && t.nanRepr = nanIeee754

/-- `has_nans`. -/
def hasNans (t : ScalarType) : Bool := t.isFloatingPoint && t.nanRepr ≠ nanNone

/-- `has_infs`. -/
def hasInfs (t : ScalarType) : Bool := t.isFloatingPoint && t.finiteValuesOnly = false

/-- `has_bias`. -/
def hasBias (t : ScalarType) : Bool := t.bias ≠ 0

/-- `str`. -/
def str (t : ScalarType) : String :=
  if t.isFloatingPoint then
    let ret := "float" ++ toString t.sizeBits ++ "_e" ++ toString t.exponent.toNat ++ "m"
      ++ toString t.mantissa.toNat
    if !t.isIeee754 then
      let ret := if t.finiteValuesOnly then ret ++ "f" else ret
      if t.nanRepr ≠ nanNone then ret ++ "n" else ret
    else ret
  else
    let ret := (if t.isSigned then "int" else "uint") ++ toString t.sizeBits
    if t.hasBias then ret ++ "b" ++ toString t.bias.toInt else ret

/-- The bits of the result of `_floating_point_max`. -/
def floatingPointMax (t : ScalarType) : Except CppError (BitVec 64) := do
  torchCheck (t.mantissa.toNat ≤ 52 ∧ t.exponent.toNat ≤ 11)
    ("Cannot represent max/min as a double for type " ++ t.str)
  let maxMantissa := 1#64 <<< t.mantissa.toNat - 1#64
  let maxMantissa := if t.nanRepr = nanExtdRangeMaxMin then maxMantissa - 1#64 else maxMantissa
  let maxExponent := 1#64 <<< t.exponent.toNat - 2#64
  let maxExponent ←
    (if t.nanRepr = nanExtdRangeMaxMin ∨ t.nanRepr = nanNone then do
      torchCheck (t.exponent.toNat < 11)
        ("Cannot represent max/min as a double for type " ++ t.str)
      .ok (maxExponent + 1#64)
    else .ok maxExponent)
  let exponentBias := 1#64 <<< (t.exponent.toNat - 1) - 1#64
  let exponentBiasDouble := 1#64 <<< 10 - 1#64
  let maxExponentDouble := maxExponent - exponentBias + exponentBiasDouble
  return maxMantissa <<< (52 - t.mantissa.toNat) ||| maxExponentDouble <<< 52

/-- `_raw_max`. -/
def rawMax (t : ScalarType) : Except CppError Number :=
  if t.isFloatingPoint then return .float (Double.ofBits (← t.floatingPointMax).toNat)
  else do
    torchCheck (t.sizeBits < 64 ∨ t.sizeBits = 64 ∧ t.isSigned)
      "Cannot represent max as a int64_t"
    -- The shift gives the value modulo `2 ^ 64`, of which one is subtracted.
    return .int (← int64 (Int.bmod (2 ^ t.mantissa.toNat) (2 ^ 64) - 1))

/-- `_raw_min`. -/
def rawMin (t : ScalarType) : Except CppError Number :=
  if t.isFloatingPoint then do
    torchCheck t.isSigned "We currently assume all floating point types are signed"
    let signBitDouble := 1#64 <<< 63
    let maxRaw ← t.floatingPointMax
    let minRaw := maxRaw ||| signBitDouble
    return .float (Double.ofBits minRaw.toNat)
  else do
    torchCheck (!t.isSigned ∨ t.sizeBits ≤ 64) "Cannot represent min as a int64_t"
    if t.isSigned then return .int ((-2 ^ 63 : Int) >>> (64 - t.sizeBits).toNat)
    else return .int 0

/-- The lambda of `max` and `min`: `x - bias`. -/
def subBias (t : ScalarType) : Number → Except CppError Number
  | .int x => return .int (← int64 (x - t.bias.toInt))
  | .float x => .ok (.float (x.subInt t.bias.toInt))

/-- `max`. -/
def max (t : ScalarType) : Except CppError Number := do t.subBias (← t.rawMax)

/-- `min`. -/
def min (t : ScalarType) : Except CppError Number := do t.subBias (← t.rawMin)

end ScalarType

end Vllm.Csrc
