import Mathlib.Tactic.IntervalCases
import Vllm.Csrc.ScalarType
import Vllm.Lib.BitFields
import Vllm.Lib.PyError

/-!
# `Vllm.Proofs.Csrc.ScalarType`: the two scalar types

* `ofPython`: the fields in C++ of a type in Python. `fromId_id`, `id_ofPython`: they are what
  `from_id` reads from the id, and they have the same id.
* `floatingPointMax_ofPython`: the bits of the largest float.
* `Agrees`: everything that the two implementations compute is the same.
* `InSync`: the condition, and `agrees_iff` that it is the exact one.
-/

set_option autoImplicit false

namespace Vllm.Proofs.Csrc

open Vllm.Lib Vllm.Lib.BitFields ScalarType List

/-! ### The id -/

/-- The fields of a type in Python, in the widths of C++. -/
def ofPython (t : ScalarType) : Vllm.Csrc.ScalarType where
  exponent := BitVec.ofInt 8 t.exponent
  mantissa := BitVec.ofInt 8 t.mantissa
  signed := t.signed
  bias := BitVec.ofInt 32 t.bias
  finiteValuesOnly := t.finiteValuesOnly
  nanRepr := BitVec.ofInt 8 t.nanRepr.value

/-- The fields in the low bits of naturals. -/
def fieldsOf (t : ScalarType) : List (Nat × Nat) :=
  t.members.map fun m => (maskBits m.1 m.2, m.2)

theorem maskBits_lt (x : Int) (bits : Nat) : maskBits x bits < 2 ^ bits := by
  have hpos : (0 : Int) < 2 ^ bits := Int.pow_pos (by decide)
  have hlt := Int.emod_lt_of_pos x hpos
  have hnonneg := Int.emod_nonneg x hpos.ne'
  unfold maskBits
  have hcast : ((x % 2 ^ bits).toNat : Int) < ((2 ^ bits : Nat) : Int) := by
    rw [Int.toNat_of_nonneg hnonneg]
    push_cast
    exact hlt
  exact_mod_cast hcast

theorem orAndAdvance_eq (acc : Nat × Nat) (m : Int × Nat) :
    orAndAdvance acc m = orField acc (maskBits m.1 m.2, m.2) := by
  unfold orAndAdvance orField
  dsimp only
  rw [Nat.mod_eq_of_lt (maskBits_lt m.1 m.2)]

/-- The id in Python packs the fields. -/
theorem id_eq_pack (t : ScalarType) : t.id = (pack (fieldsOf t) : Nat) := by
  have hfold : t.members.foldl ScalarType.orAndAdvance (0, 0) =
      (fieldsOf t).foldl orField (0, 0) := by
    unfold fieldsOf
    rw [foldl_map]
    exact congrArg (fun f => t.members.foldl f (0, 0))
      (funext fun acc => funext fun m => orAndAdvance_eq acc m)
  unfold ScalarType.id
  rw [hfold, orAll_eq_pack _ (by decide)]
  simp

theorem pack_fieldsOf_lt (t : ScalarType) : pack (fieldsOf t) < 2 ^ 58 := pack_lt (fieldsOf t)

theorem toNat_mask {bits : Nat} (h : bits < 64) :
    (Vllm.Csrc.ScalarType.mask bits).toNat = 2 ^ bits - 1 := by
  have hpow : (2 : Nat) ^ bits < 2 ^ 64 := Nat.pow_lt_pow_right (by decide) h
  have hpos := Nat.two_pow_pos bits
  have hone : (1#64 <<< bits).toNat = 2 ^ bits := by
    rw [BitVec.toNat_shiftLeft, Nat.shiftLeft_eq]
    simpa using hpow
  unfold Vllm.Csrc.ScalarType.mask
  rw [BitVec.toNat_sub, hone]
  simp only [BitVec.toNat_ofNat]
  omega

/-- A masked member. -/
theorem toNat_and_mask {bits : Nat} (h : bits < 64) (x : BitVec 64) :
    (x &&& Vllm.Csrc.ScalarType.mask bits).toNat = x.toNat % 2 ^ bits := by
  rw [BitVec.toNat_and, toNat_mask h, Nat.and_two_pow_sub_one_eq_mod]

/-- What is extracted from an id that is not negative. -/
theorem toNat_extract {id : BitVec 64} {offset bits : Nat} (hid : id.toNat < 2 ^ 58)
    (h : bits < 64) :
    (Vllm.Csrc.ScalarType.extract id offset bits).toNat = id.toNat / 2 ^ offset % 2 ^ bits := by
  have hmsb : id.msb = false := by
    rw [BitVec.msb_eq_decide, decide_eq_false_iff_not]
    omega
  unfold Vllm.Csrc.ScalarType.extract
  rw [toNat_and_mask h, BitVec.sshiftRight_eq_of_msb_false hmsb, BitVec.toNat_ushiftRight,
    Nat.shiftRight_eq_div_pow]

theorem toNat_ofInt_id (t : ScalarType) : (BitVec.ofInt 64 t.id).toNat = pack (fieldsOf t) := by
  have hlt := pack_fieldsOf_lt t
  rw [id_eq_pack, BitVec.toNat_ofInt]
  omega

/-- A field that is extracted from the id in Python. -/
theorem toNat_extract_id (t : ScalarType) (before after : List (Nat × Nat)) (x : Int)
    {bits : Nat} (hfields : fieldsOf t = before ++ (maskBits x bits, bits) :: after)
    (h : bits < 64) :
    (Vllm.Csrc.ScalarType.extract (BitVec.ofInt 64 t.id) (width before) bits).toNat =
      maskBits x bits := by
  have hlt := pack_fieldsOf_lt t
  rw [toNat_extract (by rwa [toNat_ofInt_id]) h, toNat_ofInt_id, hfields, field_of_pack,
    Nat.mod_eq_of_lt (maskBits_lt x bits)]

theorem toNat_ofInt_eq_maskBits (x : Int) (bits : Nat) :
    (BitVec.ofInt bits x).toNat = maskBits x bits := by
  unfold maskBits
  rw [BitVec.toNat_ofInt]
  norm_cast

/-- A field of its own width is read back. -/
theorem setWidth_extract_id (t : ScalarType) (before after : List (Nat × Nat)) (x : Int)
    {bits : Nat} (hfields : fieldsOf t = before ++ (maskBits x bits, bits) :: after)
    (h : bits < 64) :
    (Vllm.Csrc.ScalarType.extract (BitVec.ofInt 64 t.id) (width before) bits).setWidth bits =
      BitVec.ofInt bits x := by
  apply BitVec.eq_of_toNat_eq
  rw [BitVec.toNat_setWidth, toNat_extract_id t before after x hfields h,
    Nat.mod_eq_of_lt (maskBits_lt x bits), toNat_ofInt_eq_maskBits]

/-- A flag is read back. -/
theorem extract_flag (t : ScalarType) (before after : List (Nat × Nat)) (b : Bool)
    (hfields : fieldsOf t = before ++ (maskBits b.toNat 1, 1) :: after) :
    decide (Vllm.Csrc.ScalarType.extract (BitVec.ofInt 64 t.id) (width before) 1 ≠ 0) = b := by
  have hget := toNat_extract_id t before after b.toNat hfields (by decide)
  have hbit : maskBits b.toNat 1 = b.toNat := by cases b <;> rfl
  rw [hbit] at hget
  have hzero : Vllm.Csrc.ScalarType.extract (BitVec.ofInt 64 t.id) (width before) 1 = 0 ↔
      b.toNat = 0 := by
    rw [← hget, ← BitVec.toNat_inj]
    rfl
  cases b with
  | true => simpa using hzero
  | false => simpa using hzero

/-- `from_id` on the id in Python gives the fields, cut to their widths. -/
theorem fromId_id (t : ScalarType) :
    Vllm.Csrc.ScalarType.fromId (BitVec.ofInt 64 t.id) = ofPython t := by
  let field (x : Int) (bits : Nat) : Nat × Nat := (maskBits x bits, bits)
  let e := field t.exponent 8
  let m := field t.mantissa 8
  let sign := field t.signed.toNat 1
  let b := field t.bias 32
  let f := field t.finiteValuesOnly.toNat 1
  let n := field t.nanRepr.value 8
  unfold Vllm.Csrc.ScalarType.fromId ofPython
  rw [Vllm.Csrc.ScalarType.mk.injEq]
  refine ⟨?_, ?_, ?_, ?_, ?_, ?_⟩
  · exact setWidth_extract_id t [] [m, sign, b, f, n] t.exponent rfl (by decide)
  · exact setWidth_extract_id t [e] [sign, b, f, n] t.mantissa rfl (by decide)
  · exact extract_flag t [e, m] [b, f, n] t.signed rfl
  · exact setWidth_extract_id t [e, m, sign] [f, n] t.bias rfl (by decide)
  · exact extract_flag t [e, m, sign, b] [n] t.finiteValuesOnly rfl
  · exact setWidth_extract_id t [e, m, sign, b, f] [] t.nanRepr.value rfl (by decide)

/-- Packing in C++ is packing, as long as there is room in 64 bits. -/
theorem toNat_foldl_orAndAdvance (members : List (BitVec 64 × Nat)) {acc : BitVec 64 × Nat}
    (hacc : acc.1.toNat < 2 ^ acc.2)
    (hroom : acc.2 + width (members.map fun m => (m.1.toNat, m.2)) < 64) :
    (members.foldl Vllm.Csrc.ScalarType.orAndAdvance acc).1.toNat =
      ((members.map fun m => (m.1.toNat, m.2)).foldl orField (acc.1.toNat, acc.2)).1 := by
  induction members generalizing acc with
  | nil => rfl
  | cons m members ih =>
    rw [map_cons, width_cons] at hroom
    dsimp only at hroom
    have hfield : (orField (acc.1.toNat, acc.2) (m.1.toNat, m.2)).1 <
        2 ^ (acc.2 + m.2) := orField_lt hacc
    have hone : (Vllm.Csrc.ScalarType.orAndAdvance acc m).1.toNat =
        (orField (acc.1.toNat, acc.2) (m.1.toNat, m.2)).1 := by
      unfold Vllm.Csrc.ScalarType.orAndAdvance orField
      dsimp only
      rw [BitVec.toNat_or, BitVec.toNat_shiftLeft, toNat_and_mask (by omega)]
      congr 1
      refine Nat.mod_eq_of_lt ?_
      have hmod : m.1.toNat % 2 ^ m.2 < 2 ^ m.2 := Nat.mod_lt _ (Nat.two_pow_pos _)
      rw [Nat.shiftLeft_eq]
      calc m.1.toNat % 2 ^ m.2 * 2 ^ acc.2
          < 2 ^ m.2 * 2 ^ acc.2 := Nat.mul_lt_mul_of_pos_right hmod (Nat.two_pow_pos _)
        _ = 2 ^ (m.2 + acc.2) := (Nat.pow_add ..).symm
        _ ≤ 2 ^ 64 := Nat.pow_le_pow_right (by decide) (by omega)
    rw [foldl_cons, map_cons, foldl_cons, ih ?_ ?_]
    · rw [hone]
      rfl
    · rw [hone]
      exact hfield
    · show acc.2 + m.2 + _ < 64
      omega

theorem setWidth_mod (x : Int) {bits : Nat} (h : bits ≤ 64) :
    ((BitVec.ofInt bits x).setWidth 64).toNat % 2 ^ bits = maskBits x bits := by
  have hlt := maskBits_lt x bits
  have hpow : (2 : Nat) ^ bits ≤ 2 ^ 64 := Nat.pow_le_pow_right (by decide) h
  rw [BitVec.toNat_setWidth, toNat_ofInt_eq_maskBits, Nat.mod_eq_of_lt (hlt.trans_le hpow),
    Nat.mod_eq_of_lt hlt]

/-- The sign extension adds bits above the field. -/
theorem signExtend_mod (x : Int) :
    ((BitVec.ofInt 32 x).signExtend 64).toNat % 2 ^ 32 = maskBits x 32 := by
  have hlow := setWidth_mod x (by decide : 32 ≤ 64)
  rw [BitVec.toNat_signExtend]
  split
  · omega
  · simpa using hlow

theorem flag_mod (b : Bool) : (BitVec.ofNat 64 b.toNat).toNat % 2 ^ 1 = maskBits b.toNat 1 := by
  cases b <;> rfl

/-- The members in C++ have the same low bits. -/
theorem members_ofPython (t : ScalarType) :
    (ofPython t).members.map (fun m => (m.1.toNat % 2 ^ m.2, m.2)) = fieldsOf t := by
  unfold Vllm.Csrc.ScalarType.members fieldsOf members ofPython
  simp only [map_cons, map_nil]
  rw [setWidth_mod t.exponent (by decide), setWidth_mod t.mantissa (by decide), flag_mod,
    signExtend_mod, flag_mod, setWidth_mod t.nanRepr.value (by decide)]

/-- The id in C++ is the one in Python. -/
theorem id_ofPython (t : ScalarType) : (ofPython t).id.toInt = t.id := by
  have hlt := pack_fieldsOf_lt t
  have hnat : (ofPython t).id.toNat = pack (fieldsOf t) := by
    unfold Vllm.Csrc.ScalarType.id
    rw [toNat_foldl_orAndAdvance _ (by decide) (by decide : 0 + 58 < 64), orAll_eq_pack _
      (by decide), ← members_ofPython, ← pack_mod]
    simp [map_map, Function.comp_def]
  rw [BitVec.toInt_eq_toNat_cond, hnat, if_pos (by omega), id_eq_pack]

/-! ### The fields -/

/-- The fields fit into their types in C++. -/
structure Representable (t : ScalarType) : Prop where
  exponent : 0 ≤ t.exponent ∧ t.exponent < 2 ^ 8
  mantissa : 0 ≤ t.mantissa ∧ t.mantissa < 2 ^ 8
  bias : -2 ^ 31 ≤ t.bias ∧ t.bias < 2 ^ 31

/-- The same fields in the two languages. -/
structure SameFields (t : ScalarType) (c : Vllm.Csrc.ScalarType) : Prop where
  exponent : (c.exponent.toNat : Int) = t.exponent
  mantissa : (c.mantissa.toNat : Int) = t.mantissa
  signed : c.signed = t.signed
  bias : c.bias.toInt = t.bias
  finiteValuesOnly : c.finiteValuesOnly = t.finiteValuesOnly
  nanRepr : (c.nanRepr.toNat : Int) = t.nanRepr.value

theorem sameFields_iff (t : ScalarType) : SameFields t (ofPython t) ↔ Representable t := by
  have hbyte : ∀ x : Int, ((BitVec.ofInt 8 x).toNat : Int) = x ↔ 0 ≤ x ∧ x < 2 ^ 8 := by
    intro x
    rw [BitVec.toNat_ofInt]
    omega
  have hbias : (BitVec.ofInt 32 t.bias).toInt = t.bias ↔ -2 ^ 31 ≤ t.bias ∧ t.bias < 2 ^ 31 := by
    rw [BitVec.toInt_ofInt, Int.bmod_def]
    split <;> omega
  constructor
  · intro h
    exact ⟨(hbyte _).mp h.exponent, (hbyte _).mp h.mantissa, hbias.mp h.bias⟩
  · intro h
    refine ⟨(hbyte _).mpr h.exponent, (hbyte _).mpr h.mantissa, rfl, hbias.mpr h.bias, rfl, ?_⟩
    show ((BitVec.ofInt 8 t.nanRepr.value).toNat : Int) = t.nanRepr.value
    cases t.nanRepr <;> rfl

theorem value_injective {n n' : NanRepr} (h : n.value = n'.value) : n = n' := by
  cases n <;> cases n' <;> first | rfl | cases h

/-- Two types in C++ with the fields of the same type in Python. -/
theorem eq_of_sameFields {t t' : ScalarType} {c : Vllm.Csrc.ScalarType}
    (h : SameFields t c) (h' : SameFields t' c) : t = t' := by
  obtain ⟨e, m, s, b, f, n⟩ := t
  obtain ⟨e', m', s', b', f', n'⟩ := t'
  obtain ⟨he, hm, hs, hb, hf, hn⟩ := h
  obtain ⟨he', hm', hs', hb', hf', hn'⟩ := h'
  obtain rfl := he.symm.trans he'
  obtain rfl := hm.symm.trans hm'
  obtain rfl := hs.symm.trans hs'
  obtain rfl := hb.symm.trans hb'
  obtain rfl := hf.symm.trans hf'
  obtain rfl := value_injective (hn.symm.trans hn')
  rfl

/-- No two types whose fields fit share an id. -/
theorem eq_of_id_eq {t t' : ScalarType} (h : Representable t) (h' : Representable t')
    (hid : t.id = t'.id) : t = t' := by
  have hsame : ofPython t = ofPython t' := by
    rw [← fromId_id, ← fromId_id, hid]
  exact eq_of_sameFields ((sameFields_iff t).mpr h) (hsame ▸ (sameFields_iff t').mpr h')

/-! ### The predicates -/

section Same
variable {t : ScalarType} {c : Vllm.Csrc.ScalarType}

theorem nanRepr_eq (h : SameFields t c) (n : NanRepr) :
    c.nanRepr = BitVec.ofInt 8 n.value ↔ t.nanRepr = n := by
  have hn := h.nanRepr
  have hback : c.nanRepr = BitVec.ofInt 8 t.nanRepr.value := by
    apply BitVec.eq_of_toNat_eq
    rw [BitVec.toNat_ofInt, ← hn]
    omega
  constructor
  · intro heq
    refine value_injective ?_
    rw [← hn, heq]
    cases n <;> rfl
  · rintro rfl
    exact hback

theorem sizeBits_eq (h : SameFields t c) : c.sizeBits = t.sizeBits := by
  unfold Vllm.Csrc.ScalarType.sizeBits Vllm.Csrc.ScalarType.isSigned sizeBits
  rw [h.exponent, h.mantissa, h.signed]
  omega

theorem exponent_eq_zero (h : SameFields t c) : c.exponent = 0 ↔ t.exponent = 0 := by
  have he := h.exponent
  rw [← BitVec.toNat_inj]
  show c.exponent.toNat = 0 ↔ _
  omega

theorem isInteger_eq (h : SameFields t c) : c.isInteger = t.isInteger := by
  unfold Vllm.Csrc.ScalarType.isInteger isInteger
  exact decide_eq_decide.mpr (exponent_eq_zero h)

theorem isFloatingPoint_eq (h : SameFields t c) : c.isFloatingPoint = t.isFloatingPoint := by
  have he := h.exponent
  unfold Vllm.Csrc.ScalarType.isFloatingPoint isFloatingPoint
  refine decide_eq_decide.mpr ?_
  omega

/-- The predicate in Python is never true. -/
theorem isIeee754_eq_iff (h : SameFields t c) : c.isIeee754 = t.isIeee754 ↔
    t.exponent = 0 ∨ t.finiteValuesOnly = true ∨ t.nanRepr ≠ .ieee754 := by
  have hnan : c.nanRepr = Vllm.Csrc.nanIeee754 ↔ t.nanRepr = .ieee754 := nanRepr_eq h .ieee754
  unfold Vllm.Csrc.ScalarType.isIeee754
  rw [isFloatingPoint_eq h, h.finiteValuesOnly]
  show _ = false ↔ _
  unfold isFloatingPoint
  simp only [Bool.and_eq_false_iff, decide_eq_false_iff_not, hnan]
  simp [or_assoc]

/-- The predicate in Python is always true. -/
theorem hasNans_eq_iff (h : SameFields t c) : c.hasNans = t.hasNans ↔
    t.exponent ≠ 0 ∧ t.nanRepr ≠ .none := by
  have hnan : c.nanRepr = Vllm.Csrc.nanNone ↔ t.nanRepr = .none := nanRepr_eq h .none
  unfold Vllm.Csrc.ScalarType.hasNans
  rw [isFloatingPoint_eq h]
  show _ = true ↔ _
  unfold isFloatingPoint
  simp only [Bool.and_eq_true, decide_eq_true_iff, ne_eq, hnan]

theorem hasInfs_eq_iff (h : SameFields t c) : c.hasInfs = t.hasInfs ↔
    t.exponent ≠ 0 ∨ t.finiteValuesOnly = true := by
  unfold Vllm.Csrc.ScalarType.hasInfs
  rw [isFloatingPoint_eq h, h.finiteValuesOnly]
  unfold isFloatingPoint hasInfs
  cases t.finiteValuesOnly <;> simp

/-- The name of a float that is not an IEEE 754 type. -/
theorem str_eq (h : SameFields t c) (hfloat : t.exponent ≠ 0)
    (hieee : t.finiteValuesOnly = true ∨ t.nanRepr ≠ .ieee754) : c.str = t.str := by
  have hnan : c.nanRepr = Vllm.Csrc.nanNone ↔ t.nanRepr = .none := nanRepr_eq h .none
  have hsame := (isIeee754_eq_iff h).mpr (.inr hieee)
  have hfp : t.isFloatingPoint = true := decide_eq_true hfloat
  have hexp : toString c.exponent.toNat = toString t.exponent := by
    rw [← h.exponent]
    rfl
  have hman : toString c.mantissa.toNat = toString t.mantissa := by
    rw [← h.mantissa]
    rfl
  unfold Vllm.Csrc.ScalarType.str str
  rw [isFloatingPoint_eq h, hfp, hsame, sizeBits_eq h, hexp, hman, h.finiteValuesOnly]
  simp [hnan]

end Same

/-! ### The limits -/

/-- The mantissa of the largest float. -/
def topMantissa (t : ScalarType) (m : Nat) : Int :=
  if t.nanRepr = .extdRangeMaxMin then 2 ^ m - 1 - 1 else 2 ^ m - 1

/-- The largest exponent is not kept for infinities. -/
def Widened (t : ScalarType) : Prop := t.nanRepr = .extdRangeMaxMin ∨ t.nanRepr = .none

instance (t : ScalarType) : Decidable (Widened t) := inferInstanceAs (Decidable (_ ∨ _))

/-- The exponent of the largest float, as that of a double. -/
def topExponent (t : ScalarType) (e : Nat) : Int :=
  (if Widened t then 2 ^ e - 2 + 1 else 2 ^ e - 2) - (2 ^ (e - 1) - 1) + (1 * 2 ^ 10 - 1)

/-- A double can hold the largest float. -/
def FitsDouble (t : ScalarType) (e m : Nat) : Prop :=
  (m ≤ 52 ∧ e ≤ 11) ∧ (Widened t → e < 11)

instance (t : ScalarType) (e m : Nat) : Decidable (FitsDouble t e m) :=
  inferInstanceAs (Decidable (_ ∧ _))

theorem pyShl_natCast (x : Int) (n : Nat) : pyShl x n = .ok (x * 2 ^ n) := by
  unfold pyShl
  rw [if_neg (by omega), Int.toNat_natCast]

section Limits
variable {t : ScalarType} {c : Vllm.Csrc.ScalarType} {e m : Nat}

/-- The largest float in Python. -/
theorem floatingPointMaxInt_eq (he : t.exponent = (e : Int)) (hm : t.mantissa = (m : Int))
    (hpos : 0 < e) :
    if FitsDouble t e m then
      t.floatingPointMaxInt =
        .ok (Int.lor (topMantissa t m * 2 ^ (52 - m)) (topExponent t e * 2 ^ 52))
    else ∃ error, t.floatingPointMaxInt = .error error := by
  have hpred : (e : Int) - 1 = ((e - 1 : Nat) : Int) := by omega
  unfold floatingPointMaxInt
  rw [he, hm, hpred, pyShl_natCast, pyShl_natCast, pyShl_natCast, Int.one_mul, Int.one_mul,
    Int.one_mul]
  have hpass : ∀ msg, check true msg = .ok () := fun _ => rfl
  have hfail : ∀ msg, check false msg = .error (.assertionError msg) := fun _ => rfl
  by_cases hsmall : m ≤ 52 ∧ e ≤ 11
  · have hshift : (52 : Int) - m = ((52 - m : Nat) : Int) := by omega
    have hcheck : decide ((m : Int) ≤ 52 ∧ (e : Int) ≤ 11) = true :=
      decide_eq_true ⟨by omega, by omega⟩
    by_cases hwide : Widened t
    · have hwide' : t.nanRepr = .extdRangeMaxMin ∨ t.nanRepr = .none := hwide
      by_cases hlt : e < 11
      · have hcheck' : decide ((e : Int) < 11) = true := decide_eq_true (by omega)
        rw [if_pos ⟨hsmall, fun _ => hlt⟩]
        simp only [hcheck, hcheck', hpass, except_ok_bind, hshift, pyShl_natCast, topExponent,
          topMantissa, if_pos hwide', if_pos hwide]
        rfl
      · have hcheck' : decide ((e : Int) < 11) = false := decide_eq_false (by omega)
        rw [if_neg fun h => hlt (h.2 hwide)]
        simp only [hcheck, hcheck', hpass, hfail, except_ok_bind, except_error_bind,
          if_pos hwide']
        exact ⟨_, rfl⟩
    · have hwide' : ¬ (t.nanRepr = .extdRangeMaxMin ∨ t.nanRepr = .none) := hwide
      rw [if_pos ⟨hsmall, fun h => absurd h hwide⟩]
      simp only [hcheck, hpass, except_ok_bind, hshift, pyShl_natCast, topExponent,
        topMantissa, if_neg hwide', if_neg hwide]
      rfl
  · have hcheck : decide ((m : Int) ≤ 52 ∧ (e : Int) ≤ 11) = false := decide_eq_false (by omega)
    rw [if_neg fun h => hsmall h.1]
    simp only [hcheck, hfail, except_error_bind]
    exact ⟨_, rfl⟩

/-- The mantissa of the largest float, in unsigned arithmetic. -/
def topMantissaBits (t : ScalarType) (m : Nat) : BitVec 64 :=
  if t.nanRepr = .extdRangeMaxMin then 1#64 <<< m - 1#64 - 1#64 else 1#64 <<< m - 1#64

/-- The exponent of the largest float, in unsigned arithmetic. -/
def topExponentBits (t : ScalarType) (e : Nat) : BitVec 64 :=
  (if Widened t then 1#64 <<< e - 2#64 + 1#64 else 1#64 <<< e - 2#64)
    - (1#64 <<< (e - 1) - 1#64) + (1#64 <<< 10 - 1#64)

/-- The bits of the largest float. -/
def topBits (t : ScalarType) (e m : Nat) : BitVec 64 :=
  topMantissaBits t m <<< (52 - m) ||| topExponentBits t e <<< 52

/-- The largest float in C++. -/
theorem floatingPointMax_eq (h : SameFields t c) (he : c.exponent.toNat = e)
    (hm : c.mantissa.toNat = m) :
    if FitsDouble t e m then c.floatingPointMax = .ok (topBits t e m)
    else ∃ msg, c.floatingPointMax = .error (.torchCheck msg) := by
  have hpass : ∀ msg, Vllm.Csrc.torchCheck true msg = .ok () := fun _ => rfl
  have hfail : ∀ msg, Vllm.Csrc.torchCheck false msg = .error (.torchCheck msg) := fun _ => rfl
  have hextd : c.nanRepr = Vllm.Csrc.nanExtdRangeMaxMin ↔ t.nanRepr = .extdRangeMaxMin :=
    nanRepr_eq h .extdRangeMaxMin
  have hnone : c.nanRepr = Vllm.Csrc.nanNone ↔ t.nanRepr = .none := nanRepr_eq h .none
  unfold Vllm.Csrc.ScalarType.floatingPointMax
  rw [he, hm]
  by_cases hsmall : m ≤ 52 ∧ e ≤ 11
  · have hcheck : decide (m ≤ 52 ∧ e ≤ 11) = true := decide_eq_true hsmall
    by_cases hwide : Widened t
    · have hwide' : t.nanRepr = .extdRangeMaxMin ∨ t.nanRepr = .none := hwide
      by_cases hlt : e < 11
      · have hcheck' : decide (e < 11) = true := decide_eq_true hlt
        rw [if_pos ⟨hsmall, fun _ => hlt⟩]
        simp only [hcheck, hcheck', hpass, except_ok_bind, hextd, hnone, topBits,
          topExponentBits, topMantissaBits, if_pos hwide', if_pos hwide]
        rfl
      · have hcheck' : decide (e < 11) = false := decide_eq_false hlt
        rw [if_neg fun h => hlt (h.2 hwide)]
        simp only [hcheck, hcheck', hpass, hfail, except_ok_bind, except_error_bind, hextd,
          hnone, if_pos hwide']
        exact ⟨_, rfl⟩
    · have hwide' : ¬ (t.nanRepr = .extdRangeMaxMin ∨ t.nanRepr = .none) := hwide
      rw [if_pos ⟨hsmall, fun h => absurd h hwide⟩]
      simp only [hcheck, hpass, except_ok_bind, hextd, hnone, topBits, topExponentBits,
        topMantissaBits, if_neg hwide', if_neg hwide]
      rfl
  · have hcheck : decide (m ≤ 52 ∧ e ≤ 11) = false := decide_eq_false hsmall
    rw [if_neg fun h => hsmall h.1]
    simp only [hcheck, hfail, except_error_bind]
    exact ⟨_, rfl⟩

theorem toNat_topExponentBits (hpos : 0 < e) (he : e ≤ 11) (hwide : Widened t → e < 11) :
    ((topExponentBits t e).toNat : Int) = topExponent t e ∧
      (topExponentBits t e).toNat < 2 ^ 11 := by
  unfold topExponentBits topExponent
  by_cases h : Widened t
  · have hlt := hwide h
    simp only [if_pos h]
    clear hwide h
    interval_cases e <;> exact ⟨rfl, by decide⟩
  · simp only [if_neg h]
    clear hwide h
    interval_cases e <;> exact ⟨rfl, by decide⟩

/-- Without a mantissa there is none to leave to NaN. -/
theorem toNat_topMantissaBits (hm : m ≤ 52) (hroom : t.nanRepr = .extdRangeMaxMin → 0 < m) :
    ((topMantissaBits t m).toNat : Int) = topMantissa t m ∧
      (topMantissaBits t m).toNat < 2 ^ m := by
  have hmask : (1#64 <<< m - 1#64).toNat = 2 ^ m - 1 := toNat_mask (by omega)
  have hle : (2 : Nat) ^ m ≤ 2 ^ 52 := Nat.pow_le_pow_right (by decide) hm
  have hpos := Nat.two_pow_pos m
  have hcast : ((2 : Int) ^ m) = ((2 ^ m : Nat) : Int) := by push_cast; rfl
  unfold topMantissaBits topMantissa
  rw [hcast]
  split
  · rename_i hextd
    have htwo : 2 ≤ (2 : Nat) ^ m := by
      have hone := hroom hextd
      calc 2 = 2 ^ 1 := rfl
        _ ≤ 2 ^ m := Nat.pow_le_pow_right (by decide) hone
    rw [BitVec.toNat_sub, hmask]
    simp only [BitVec.toNat_ofNat]
    omega
  · rw [hmask]
    omega

/-- Both languages put the same two numbers together. -/
theorem toNat_topBits (hpos : 0 < e) (hfits : FitsDouble t e m)
    (hroom : t.nanRepr = .extdRangeMaxMin → 0 < m) :
    ((topBits t e m).toNat : Int) =
        Int.lor (topMantissa t m * 2 ^ (52 - m)) (topExponent t e * 2 ^ 52) ∧
      (topBits t e m).toNat < 2 ^ 63 := by
  obtain ⟨hE, hElt⟩ := toNat_topExponentBits (t := t) hpos hfits.1.2 hfits.2
  obtain ⟨hM, hMlt⟩ := toNat_topMantissaBits hfits.1.1 hroom
  have hlow : (topMantissaBits t m).toNat * 2 ^ (52 - m) < 2 ^ 52 := by
    calc (topMantissaBits t m).toNat * 2 ^ (52 - m)
        < 2 ^ m * 2 ^ (52 - m) := Nat.mul_lt_mul_of_pos_right hMlt (Nat.two_pow_pos _)
      _ = 2 ^ 52 := by rw [← Nat.pow_add, Nat.add_sub_cancel' hfits.1.1]
  have hbits : (topBits t e m).toNat =
      (topMantissaBits t m).toNat * 2 ^ (52 - m) ||| (topExponentBits t e).toNat * 2 ^ 52 := by
    unfold topBits
    rw [BitVec.toNat_or, BitVec.toNat_shiftLeft, BitVec.toNat_shiftLeft, Nat.shiftLeft_eq,
      Nat.shiftLeft_eq, Nat.mod_eq_of_lt (by omega), Nat.mod_eq_of_lt (by omega)]
  rw [hbits]
  constructor
  · rw [← hM, ← hE]
    rfl
  · exact Nat.or_lt_two_pow (by omega) (by omega)

/-- What the two languages return as the bits of a float. -/
def SameBits : Except ScalarTypeError Int → Except Vllm.Csrc.CppError (BitVec 64) → Prop
  | .ok x, .ok raw => x = raw.toNat ∧ raw.toNat < 2 ^ 63
  | .error _, .error (.torchCheck _) => True
  | _, _ => False

theorem exponent_pos (h : SameFields t c) (hfloat : t.exponent ≠ 0) : 0 < c.exponent.toNat := by
  have he := h.exponent
  omega

theorem sameBits_floatingPointMax (h : SameFields t c) (hfloat : t.exponent ≠ 0)
    (hroom : t.nanRepr = .extdRangeMaxMin → 0 < t.mantissa ∨ 11 ≤ t.exponent) :
    SameBits t.floatingPointMaxInt c.floatingPointMax := by
  have hpos := exponent_pos h hfloat
  have hm := h.mantissa
  have he := h.exponent
  have hpy := floatingPointMaxInt_eq he.symm hm.symm hpos
  have hcpp := floatingPointMax_eq h rfl rfl
  by_cases hfits : FitsDouble t c.exponent.toNat c.mantissa.toNat
  · rw [if_pos hfits] at hpy hcpp
    rw [hpy, hcpp]
    refine (toNat_topBits hpos hfits fun hextd => ?_).imp Eq.symm id
    have hlt := hfits.2 (.inl hextd)
    rcases hroom hextd with hmantissa | hexponent
    · omega
    · omega
  · rw [if_neg hfits] at hpy hcpp
    obtain ⟨error, hpy⟩ := hpy
    obtain ⟨msg, hcpp⟩ := hcpp
    rw [hpy, hcpp]
    trivial

/-- Without a mantissa Python makes a negative integer of it, and C++ wraps. -/
theorem floatingPointMaxInt_neg (h : SameFields t c) (hfloat : t.exponent ≠ 0)
    (hextd : t.nanRepr = .extdRangeMaxMin) (hm : t.mantissa = 0) (he : t.exponent < 11) :
    (∃ x, t.floatingPointMaxInt = .ok x ∧ x < 0) ∧ ∃ raw, c.floatingPointMax = .ok raw := by
  have hpos := exponent_pos h hfloat
  have hmc := h.mantissa
  have hec := h.exponent
  have hfits : FitsDouble t c.exponent.toNat c.mantissa.toNat :=
    ⟨⟨by omega, by omega⟩, fun _ => by omega⟩
  have hpy := floatingPointMaxInt_eq hec.symm hmc.symm hpos
  have hcpp := floatingPointMax_eq h rfl rfl
  rw [if_pos hfits] at hpy hcpp
  refine ⟨⟨_, hpy, ?_⟩, _, hcpp⟩
  obtain ⟨hE, -⟩ := toNat_topExponentBits (t := t) hpos hfits.1.2 hfits.2
  have hzero : c.mantissa.toNat = 0 := by omega
  have hM : topMantissa t 0 = -1 := by
    unfold topMantissa
    rw [if_pos hextd]
    rfl
  rw [hzero, hM, ← hE]
  -- A negative integer keeps its sign.
  exact Int.negSucc_lt_zero _

end Limits

/-- The two languages return the same number, or both raise. -/
def SameNumber : Except ScalarTypeError Number → Except Vllm.Csrc.CppError Number → Prop
  | .ok x, .ok y => x = y
  | .error _, .error (.torchCheck _) => True
  | _, _ => False

section Numbers
variable {t : ScalarType} {c : Vllm.Csrc.ScalarType}

theorem packQ_natCast {n : Nat} (h : n < 2 ^ 64) : packQ n = .ok n := by
  unfold packQ
  rw [if_pos ⟨by omega, by omega⟩, Int.toNat_natCast]

/-- The limits of a float in Python, from the bits of the limit. -/
theorem max_of_float (hfp : t.isFloatingPoint = true) :
    t.max = t.floatingPointMaxInt >>= fun x => packQ x >>= fun raw =>
      .ok (.float ((Double.ofBits raw).subInt t.bias)) := by
  unfold ScalarType.max ScalarType.rawMax ScalarType.floatingPointMax
  rw [if_pos hfp]
  cases t.floatingPointMaxInt with
  | error error => rfl
  | ok x => cases hpack : packQ x <;> simp only [except_ok_bind, hpack] <;> rfl

theorem min_of_float (hfp : t.isFloatingPoint = true) : t.min = if t.signed then
        t.floatingPointMaxInt >>= fun x => packQ (Int.lor x (2 ^ 63)) >>= fun raw =>
          .ok (.float ((Double.ofBits raw).subInt t.bias))
      else .error (.assertionError "We currently assume all floating point types are signed") := by
  unfold ScalarType.min ScalarType.rawMin ScalarType.isSigned
  rw [if_pos hfp]
  cases t.signed with
  | false => rfl
  | true =>
    cases t.floatingPointMaxInt with
    | error error => rfl
    | ok x =>
      rw [if_pos rfl]
      show ((packQ (Int.lor x (2 ^ 63)) >>= fun raw =>
        pure (Number.float (Double.ofBits raw))) >>= fun y => pure (y.sub t.bias)) =
          (packQ (Int.lor x (2 ^ 63)) >>= _)
      cases packQ (Int.lor x (2 ^ 63)) <;> rfl

/-- The limits of a float in C++. -/
theorem cppMax_of_float (hfp : c.isFloatingPoint = true) : c.max = c.floatingPointMax >>= fun raw =>
      .ok (.float ((Double.ofBits raw.toNat).subInt c.bias.toInt)) := by
  unfold Vllm.Csrc.ScalarType.max Vllm.Csrc.ScalarType.rawMax
  rw [if_pos hfp]
  cases c.floatingPointMax with
  | error error => rfl
  | ok raw => rfl

theorem cppMin_of_float (hfp : c.isFloatingPoint = true) : c.min = if c.signed then
        c.floatingPointMax >>= fun raw =>
          .ok (.float ((Double.ofBits (raw ||| 1#64 <<< 63).toNat).subInt c.bias.toInt))
      else .error (.torchCheck "We currently assume all floating point types are signed") := by
  unfold Vllm.Csrc.ScalarType.min Vllm.Csrc.ScalarType.rawMin Vllm.Csrc.ScalarType.isSigned
  rw [if_pos hfp]
  cases c.signed with
  | false => rfl
  | true =>
    cases c.floatingPointMax with
    | error error => rfl
    | ok raw => rfl

/-- The largest float minus the bias. -/
theorem sameNumber_max (h : SameFields t c) (hfloat : t.exponent ≠ 0)
    (hroom : t.nanRepr = .extdRangeMaxMin → 0 < t.mantissa ∨ 11 ≤ t.exponent) :
    SameNumber t.max c.max := by
  have hbits := sameBits_floatingPointMax h hfloat hroom
  have hfp : t.isFloatingPoint = true := decide_eq_true hfloat
  rw [max_of_float hfp, cppMax_of_float ((isFloatingPoint_eq h).trans hfp)]
  cases hpy : t.floatingPointMaxInt with
  | error error =>
    cases hcpp : c.floatingPointMax with
    | ok raw =>
      rw [hpy, hcpp] at hbits
      exact hbits.elim
    | error error' =>
      rw [hpy, hcpp] at hbits
      cases error' with
      | torchCheck msg => exact True.intro
      | signedOverflow => exact hbits.elim
  | ok x =>
    cases hcpp : c.floatingPointMax with
    | error error' =>
      rw [hpy, hcpp] at hbits
      exact hbits.elim
    | ok raw =>
      rw [hpy, hcpp] at hbits
      obtain ⟨rfl, -⟩ := hbits
      rw [except_ok_bind, except_ok_bind, packQ_natCast raw.isLt, except_ok_bind, h.bias]
      rfl

/-- The smallest float minus the bias. -/
theorem sameNumber_min (h : SameFields t c) (hfloat : t.exponent ≠ 0)
    (hroom : t.nanRepr = .extdRangeMaxMin → 0 < t.mantissa ∨ 11 ≤ t.exponent) :
    SameNumber t.min c.min := by
  have hbits := sameBits_floatingPointMax h hfloat hroom
  have hfp : t.isFloatingPoint = true := decide_eq_true hfloat
  rw [min_of_float hfp, cppMin_of_float ((isFloatingPoint_eq h).trans hfp), h.signed]
  split
  · cases hpy : t.floatingPointMaxInt with
    | error error =>
      cases hcpp : c.floatingPointMax with
      | ok raw =>
        rw [hpy, hcpp] at hbits
        exact hbits.elim
      | error error' =>
        rw [hpy, hcpp] at hbits
        cases error' with
        | torchCheck msg => exact True.intro
        | signedOverflow => exact hbits.elim
    | ok x =>
      cases hcpp : c.floatingPointMax with
      | error error' =>
        rw [hpy, hcpp] at hbits
        exact hbits.elim
      | ok raw =>
        rw [hpy, hcpp] at hbits
        obtain ⟨rfl, -⟩ := hbits
        -- The sign bit is or-ed to the bits of the largest float.
        have hsign : Int.lor raw.toNat (2 ^ 63) = ((raw ||| 1#64 <<< 63).toNat : Int) := by
          rw [BitVec.toNat_or]
          rfl
        rw [except_ok_bind, except_ok_bind, hsign, packQ_natCast (BitVec.isLt _),
          except_ok_bind, h.bias]
        rfl
  · exact True.intro

/-- The one kind of float whose limits differ: Python cannot pack the negative integer. -/
theorem not_sameNumber_max (h : SameFields t c) (hfloat : t.exponent ≠ 0)
    (hextd : t.nanRepr = .extdRangeMaxMin) (hm : t.mantissa = 0) (he : t.exponent < 11) :
    ¬ SameNumber t.max c.max := by
  obtain ⟨⟨x, hpy, hneg⟩, raw, hcpp⟩ := floatingPointMaxInt_neg h hfloat hextd hm he
  have hfp : t.isFloatingPoint = true := decide_eq_true hfloat
  have hpack : packQ x = .error (.structError "int too large to convert") := by
    unfold packQ
    rw [if_neg (by omega)]
  rw [max_of_float hfp, cppMax_of_float ((isFloatingPoint_eq h).trans hfp), hpy, hcpp,
    except_ok_bind, except_ok_bind, hpack, except_error_bind]
  exact id

end Numbers

/-! ### Everything together -/

/-- What `from_id` in C++ reads from the id in Python has the same fields and the same id, and
all that the two implementations compute of it is the same. -/
structure Agrees (t : ScalarType) (c : Vllm.Csrc.ScalarType) : Prop where
  fields : SameFields t c
  id : c.id.toInt = t.id
  sizeBits : c.sizeBits = t.sizeBits
  min : SameNumber t.min c.min
  max : SameNumber t.max c.max
  isIeee754 : c.isIeee754 = t.isIeee754
  hasNans : c.hasNans = t.hasNans
  hasInfs : c.hasInfs = t.hasInfs
  isInteger : c.isInteger = t.isInteger
  isFloatingPoint : c.isFloatingPoint = t.isFloatingPoint
  str : c.str = t.str

/-- The condition for all of it: the fields fit, and the type is a float with NaNs that is not
an IEEE 754 type. One whose NaN takes the largest mantissa has a mantissa, or has too large an
exponent for a double. -/
structure InSync (t : ScalarType) : Prop where
  representable : Representable t
  float : t.exponent ≠ 0
  nans : t.nanRepr ≠ .none
  nonIeee : t.finiteValuesOnly = true ∨ t.nanRepr ≠ .ieee754
  mantissa : t.nanRepr = .extdRangeMaxMin → 0 < t.mantissa ∨ 11 ≤ t.exponent

theorem agrees_of_inSync {t : ScalarType} (h : InSync t) : Agrees t (ofPython t) := by
  have hsame := (sameFields_iff t).mpr h.representable
  exact {
    fields := hsame
    id := id_ofPython t
    sizeBits := sizeBits_eq hsame
    min := sameNumber_min hsame h.float h.mantissa
    max := sameNumber_max hsame h.float h.mantissa
    isIeee754 := (isIeee754_eq_iff hsame).mpr (.inr h.nonIeee)
    hasNans := (hasNans_eq_iff hsame).mpr ⟨h.float, h.nans⟩
    hasInfs := (hasInfs_eq_iff hsame).mpr (.inl h.float)
    isInteger := isInteger_eq hsame
    isFloatingPoint := isFloatingPoint_eq hsame
    str := str_eq hsame h.float h.nonIeee }

theorem inSync_of_agrees {t : ScalarType} (h : Agrees t (ofPython t)) : InSync t := by
  obtain ⟨hfloat, hnans⟩ := (hasNans_eq_iff h.fields).mp h.hasNans
  refine ⟨(sameFields_iff t).mp h.fields, hfloat, hnans, ?_, fun hextd => ?_⟩
  · exact ((isIeee754_eq_iff h.fields).mp h.isIeee754).resolve_left hfloat
  · by_contra hnot
    have hm := ((sameFields_iff t).mp h.fields).mantissa
    exact not_sameNumber_max h.fields hfloat hextd (by omega) (by omega) h.max

/-- The two implementations agree on a type exactly when it is in sync. In C++ the type is read
from the id in Python. Two types whose fields fit never share an id. -/
theorem agrees_iff (t : ScalarType) :
    (Agrees t (Vllm.Csrc.ScalarType.fromId (BitVec.ofInt 64 t.id)) ↔ InSync t) ∧
      ∀ t' : ScalarType, Representable t → Representable t' → t.id = t'.id → t = t' := by
  refine ⟨?_, fun t' h h' hid => eq_of_id_eq h h' hid⟩
  rw [fromId_id]
  exact ⟨inSync_of_agrees, agrees_of_inSync⟩

/-- `float8_e4m3fn`. -/
def float8E4m3fn : ScalarType where
  exponent := 4
  mantissa := 3
  signed := true
  bias := 0
  finiteValuesOnly := true
  nanRepr := .extdRangeMaxMin

/-- `float16_e5m10`, made by `float_IEEE754`. -/
def float16E5m10 : ScalarType where
  exponent := 5
  mantissa := 10
  signed := true
  bias := 0

/-- `uint4b8`. -/
def uint4b8 : ScalarType where
  exponent := 0
  mantissa := 4
  signed := false
  bias := 8

/-- `float8_e4m3fn` is in sync, and its id is its own. -/
theorem float8E4m3fn_agrees :
    Agrees float8E4m3fn (Vllm.Csrc.ScalarType.fromId (BitVec.ofInt 64 float8E4m3fn.id)) ∧
      float8E4m3fn = float8E4m3fn := by
  have hrepr : Representable float8E4m3fn := ⟨by decide, by decide, by decide⟩
  refine ⟨(agrees_iff float8E4m3fn).1.mpr ⟨hrepr, by decide, by decide, by decide, ?_⟩,
    (agrees_iff float8E4m3fn).2 _ hrepr hrepr rfl⟩
  exact fun _ => .inl (by decide)

/-- Half precision is not an IEEE 754 type in Python and has another name there, and a 4 bit
integer has NaNs and infinities. -/
theorem float16E5m10_disagrees : (¬ Agrees float16E5m10
        (Vllm.Csrc.ScalarType.fromId (BitVec.ofInt 64 float16E5m10.id)) ∧
      (float16E5m10.isIeee754, float16E5m10.str) = (false, "float16_e5m10n") ∧
      ((ofPython float16E5m10).isIeee754, (ofPython float16E5m10).str) = (true, "float16_e5m10")) ∧
    ¬ Agrees uint4b8 (Vllm.Csrc.ScalarType.fromId (BitVec.ofInt 64 uint4b8.id)) ∧
      (uint4b8.hasNans, uint4b8.hasInfs) = (true, true) ∧
      ((ofPython uint4b8).hasNans, (ofPython uint4b8).hasInfs) = (false, false) := by
  rw [fromId_id, fromId_id]
  refine ⟨⟨fun h => ?_, by decide +kernel, by decide +kernel⟩, fun h => ?_, rfl,
    by decide +kernel⟩
  · exact absurd (inSync_of_agrees h).nonIeee (by decide)
  · exact absurd (inSync_of_agrees h).float (by decide)

end Vllm.Proofs.Csrc
