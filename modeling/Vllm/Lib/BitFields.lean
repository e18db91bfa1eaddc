import Mathlib.Data.Nat.Bitwise
import Mathlib.Tactic.Ring

/-!
# `Vllm.Lib.BitFields`: numbers that are packed into bit fields

A list of pairs of a value and a width is packed from the low bits up. A value that does not
fit into its field loses its high bits.

* `orAll_eq_pack`: masking, shifting and or-ing one value after the other packs them.
* `field_of_pack`: a field is read back by a shift and a mask.
-/

set_option autoImplicit false

namespace Vllm.Lib.BitFields

/-- The number of bits of the fields. -/
def width (fields : List (Nat × Nat)) : Nat := (fields.map Prod.snd).sum

/-- The fields one after the other, the first in the low bits. -/
def pack : List (Nat × Nat) → Nat
  | [] => 0
  | (x, bits) :: fields => x % 2 ^ bits + 2 ^ bits * pack fields

/-- One step of packing: the value is masked, shifted to the offset and or-ed to the
accumulator. -/
def orField (acc : Nat × Nat) (field : Nat × Nat) : Nat × Nat :=
  (acc.1 ||| (field.1 % 2 ^ field.2) <<< acc.2, acc.2 + field.2)

@[simp] theorem width_cons (field : Nat × Nat) (fields : List (Nat × Nat)) :
    width (field :: fields) = field.2 + width fields := by
  simp [width]

theorem pack_lt (fields : List (Nat × Nat)) : pack fields < 2 ^ width fields := by
  induction fields with
  | nil => simp [pack, width]
  | cons field fields ih =>
    have hlow : field.1 % 2 ^ field.2 < 2 ^ field.2 := Nat.mod_lt _ (Nat.two_pow_pos _)
    rw [width_cons, Nat.pow_add]
    calc field.1 % 2 ^ field.2 + 2 ^ field.2 * pack fields
        < 2 ^ field.2 * 1 + 2 ^ field.2 * pack fields := by omega
      _ = 2 ^ field.2 * (pack fields + 1) := by rw [Nat.mul_add, Nat.add_comm]
      _ ≤ 2 ^ field.2 * 2 ^ width fields := Nat.mul_le_mul_left _ ih

/-- A value is or-ed to a number that ends below its offset. -/
theorem or_shiftLeft {low offset : Nat} (h : low < 2 ^ offset) (x : Nat) :
    low ||| x <<< offset = low + 2 ^ offset * x := by
  rw [Nat.shiftLeft_eq, Nat.mul_comm x, Nat.or_comm, ← Nat.two_pow_add_eq_or_of_lt h,
    Nat.add_comm]

theorem orField_lt {acc field : Nat × Nat} (h : acc.1 < 2 ^ acc.2) :
    (orField acc field).1 < 2 ^ (orField acc field).2 := by
  have hlow : field.1 % 2 ^ field.2 < 2 ^ field.2 := Nat.mod_lt _ (Nat.two_pow_pos _)
  unfold orField
  dsimp only
  rw [or_shiftLeft h, Nat.pow_add]
  calc acc.1 + 2 ^ acc.2 * (field.1 % 2 ^ field.2)
      < 2 ^ acc.2 * 1 + 2 ^ acc.2 * (field.1 % 2 ^ field.2) := by omega
    _ = 2 ^ acc.2 * (field.1 % 2 ^ field.2 + 1) := by rw [Nat.mul_add, Nat.add_comm]
    _ ≤ 2 ^ acc.2 * 2 ^ field.2 := Nat.mul_le_mul_left _ hlow

theorem orAll_eq_pack (fields : List (Nat × Nat)) {acc : Nat × Nat}
    (h : acc.1 < 2 ^ acc.2) :
    (fields.foldl orField acc).1 = acc.1 + 2 ^ acc.2 * pack fields := by
  induction fields generalizing acc with
  | nil => simp [pack]
  | cons field fields ih =>
    rw [List.foldl_cons, ih (orField_lt h)]
    show (acc.1 ||| (field.1 % 2 ^ field.2) <<< acc.2) + 2 ^ (acc.2 + field.2) * pack fields =
      acc.1 + 2 ^ acc.2 * (field.1 % 2 ^ field.2 + 2 ^ field.2 * pack fields)
    rw [or_shiftLeft h, Nat.pow_add]
    ring

/-- Only the low bits of a value are packed. -/
theorem pack_mod (fields : List (Nat × Nat)) :
    pack (fields.map fun field => (field.1 % 2 ^ field.2, field.2)) = pack fields := by
  induction fields with
  | nil => rfl
  | cons field fields ih =>
    show field.1 % 2 ^ field.2 % 2 ^ field.2 + 2 ^ field.2 * pack (fields.map _) =
      field.1 % 2 ^ field.2 + 2 ^ field.2 * pack fields
    rw [ih, Nat.mod_mod]

theorem pack_append (fields rest : List (Nat × Nat)) :
    pack (fields ++ rest) = pack fields + 2 ^ width fields * pack rest := by
  induction fields with
  | nil => simp [pack, width]
  | cons field fields ih =>
    show field.1 % 2 ^ field.2 + 2 ^ field.2 * pack (fields ++ rest) =
      field.1 % 2 ^ field.2 + 2 ^ field.2 * pack fields + _
    rw [ih, width_cons, Nat.pow_add]
    ring

/-- A field is read back by a shift and a mask. -/
theorem field_of_pack (fields rest : List (Nat × Nat)) (x bits : Nat) :
    pack (fields ++ (x, bits) :: rest) / 2 ^ width fields % 2 ^ bits = x % 2 ^ bits := by
  have hshift : pack (fields ++ (x, bits) :: rest) / 2 ^ width fields =
      pack ((x, bits) :: rest) := by
    rw [pack_append, Nat.add_mul_div_left _ _ (Nat.two_pow_pos _),
      Nat.div_eq_of_lt (pack_lt fields), Nat.zero_add]
  rw [hshift]
  show (x % 2 ^ bits + 2 ^ bits * pack rest) % 2 ^ bits = _
  rw [Nat.add_mul_mod_self_left, Nat.mod_mod]

end Vllm.Lib.BitFields
