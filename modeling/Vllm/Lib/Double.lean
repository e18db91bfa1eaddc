import Vllm.Lib.PyFloat

/-!
# `Vllm.Lib.Double`: binary64 numbers from their bits

`Vllm.Lib.PyFloat` has the finite numbers as rationals. Here a number may also be infinite or
not a number, and it is made from its 64 bits. The sign of a zero is not kept.
-/

set_option autoImplicit false

namespace Vllm.Lib

/-- A binary64 number. -/
inductive Double where
  | finite (x : ℚ)
  | infinite (negative : Bool)
  | nan
deriving DecidableEq

namespace Double

/-- The number with the given bits: the sign, 11 bits of the exponent and 52 of the mantissa. -/
def ofBits (raw : Nat) : Double :=
  let negative := raw / 2 ^ 63 % 2 = 1
  let exponent : Nat := raw / 2 ^ 52 % 2 ^ 11
  let mantissa : Nat := raw % 2 ^ 52
  let sign : ℚ := if negative then -1 else 1
  if exponent = 2 ^ 11 - 1 then
    if mantissa = 0 then .infinite negative else .nan
  else if exponent = 0 then .finite (sign * mantissa * 2 ^ (-1074 : Int))
  else .finite (sign * (2 ^ 52 + mantissa) * 2 ^ ((exponent : Int) - 1075))

/-- The difference to an integer that is a binary64 number itself. -/
def subInt (x : Double) (n : Int) : Double :=
  match x with
  | .finite x => .finite (roundDouble (x - n))
  | x => x

end Double

end Vllm.Lib
