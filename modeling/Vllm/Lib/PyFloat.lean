import Mathlib.Data.Int.Log
import Mathlib.Data.Rat.Floor

/-!
# `Vllm.Lib.PyFloat`: arithmetic of Python floats

A Python `float` is a binary64 number. The values here are rational and every operation is the
exact one followed by `roundDouble`, the rounding to the nearest representable number, ties to
the even mantissa. Overflow to infinity is not modelled: it needs numbers beyond `10 ^ 308`.
A float that is stored in an array of 32 bit numbers is rounded by `roundSingle`.
-/

set_option autoImplicit false

namespace Vllm.Lib

/-- The nearest integer, ties to the even one. -/
def roundHalfEven (x : ℚ) : Int :=
  let rest := x - ⌊x⌋
  if rest < 1 / 2 then ⌊x⌋
  else if 1 / 2 < rest then ⌊x⌋ + 1
  else if ⌊x⌋ % 2 = 0 then ⌊x⌋ else ⌊x⌋ + 1

/-- The nearest binary64 number. Its mantissa has 53 bits, and its exponent is at least that of
the subnormal numbers. -/
def roundDouble (x : ℚ) : ℚ :=
  let exponent := max (Int.log 2 |x| - 52) (-1074)
  roundHalfEven (x / 2 ^ exponent) * 2 ^ exponent

/-- The nearest binary32 number. -/
def roundSingle (x : ℚ) : ℚ :=
  let exponent := max (Int.log 2 |x| - 23) (-149)
  roundHalfEven (x / 2 ^ exponent) * 2 ^ exponent

/-- `int(x)`, which drops the fraction. -/
def pyInt (x : ℚ) : Int := x.num.tdiv x.den

theorem roundHalfEven_nonneg {x : ℚ} (h : 0 ≤ x) : 0 ≤ roundHalfEven x := by
  have hfloor : 0 ≤ ⌊x⌋ := Int.floor_nonneg.mpr h
  unfold roundHalfEven
  dsimp only
  split_ifs <;> omega

theorem roundDouble_nonneg {x : ℚ} (h : 0 ≤ x) : 0 ≤ roundDouble x := by
  unfold roundDouble
  dsimp only
  have hpow : (0 : ℚ) < 2 ^ max (Int.log 2 |x| - 52) (-1074) := zpow_pos two_pos _
  have hround := roundHalfEven_nonneg (div_nonneg h hpow.le)
  exact mul_nonneg (by exact_mod_cast hround) hpow.le

theorem roundHalfEven_le {x : ℚ} {n : Int} (h : x ≤ n) : roundHalfEven x ≤ n := by
  have hfloor : ⌊x⌋ ≤ n := by
    have : (⌊x⌋ : ℚ) ≤ n := (Int.floor_le x).trans h
    exact_mod_cast this
  rcases hfloor.lt_or_eq with hlt | heq
  · unfold roundHalfEven
    dsimp only
    split_ifs <;> omega
  · -- The number is the integer itself.
    have hx : x = n := le_antisymm h (heq ▸ Int.floor_le x)
    have hround : roundHalfEven x = n := by
      unfold roundHalfEven
      dsimp only
      rw [heq, hx, sub_self, if_pos (by norm_num)]
    exact hround.le

/-- Rounding does not pass an integer of less than 53 bits. -/
theorem roundDouble_le {x : ℚ} {n : Nat} (h : x ≤ n) (hn : n < 2 ^ 53) : roundDouble x ≤ n := by
  unfold roundDouble
  dsimp only
  generalize he : max (Int.log 2 |x| - 52) (-1074) = exponent
  have hpow : (0 : ℚ) < 2 ^ exponent := zpow_pos two_pos _
  rcases lt_or_ge 0 x with hpos | hneg
  · have hlog : Int.log 2 |x| < 53 := by
      rw [abs_of_pos hpos, ← Int.lt_zpow_iff_log_lt (by norm_num) hpos]
      refine h.trans_lt ?_
      exact_mod_cast hn
    have hexp : exponent ≤ 0 := by omega
    obtain ⟨k, hk⟩ := Int.eq_ofNat_of_zero_le (Int.neg_nonneg.mpr hexp)
    have hinv : (2 : ℚ) ^ exponent = ((2 : ℚ) ^ k)⁻¹ := by
      rw [← zpow_natCast, ← zpow_neg]
      congr 1
      omega
    have hscaled : x / 2 ^ exponent ≤ ((n * 2 ^ k : Nat) : Int) := by
      rw [hinv, div_inv_eq_mul]
      push_cast
      exact mul_le_mul_of_nonneg_right h (pow_nonneg two_pos.le k)
    have hround : (roundHalfEven (x / 2 ^ exponent) : ℚ) ≤ n * 2 ^ k := by
      have := roundHalfEven_le hscaled
      exact_mod_cast this
    calc (roundHalfEven (x / 2 ^ exponent) : ℚ) * 2 ^ exponent
        ≤ n * 2 ^ k * 2 ^ exponent := mul_le_mul_of_nonneg_right hround hpow.le
      _ = n := by
        rw [hinv, mul_assoc, mul_inv_cancel₀ (pow_ne_zero k two_ne_zero), mul_one]
  · have hround : (roundHalfEven (x / 2 ^ exponent) : ℚ) ≤ 0 := by
      have := roundHalfEven_le (x := x / 2 ^ exponent) (n := 0)
        (by simpa using div_nonpos_of_nonpos_of_nonneg hneg hpow.le)
      exact_mod_cast this
    exact (mul_nonpos_of_nonpos_of_nonneg hround hpow.le).trans (Nat.cast_nonneg n)

theorem roundHalfEven_intCast (n : Int) : roundHalfEven n = n := by
  unfold roundHalfEven
  dsimp only
  rw [Int.floor_intCast, sub_self, if_pos (by norm_num)]

theorem le_roundHalfEven {x : ℚ} {n : Int} (h : (n : ℚ) ≤ x) : n ≤ roundHalfEven x := by
  have hfloor : n ≤ ⌊x⌋ := Int.le_floor.mpr h
  unfold roundHalfEven
  dsimp only
  split_ifs <;> omega

/-- A number of few bits is not rounded. -/
theorem roundSingle_of_mantissa {x : ℚ} {m e : Int} (hx : x = m * 2 ^ e)
    (he : max (Int.log 2 |x| - 23) (-149) ≤ e) : roundSingle x = x := by
  unfold roundSingle
  dsimp only
  generalize max (Int.log 2 |x| - 23) (-149) = exponent at he
  obtain ⟨k, rfl⟩ := Int.le.dest he
  have hscaled : x / 2 ^ exponent = ((m * 2 ^ k : Int) : ℚ) := by
    rw [hx, zpow_add₀ two_ne_zero, ← mul_assoc, mul_right_comm, mul_div_assoc,
      div_self (zpow_ne_zero _ two_ne_zero), mul_one]
    push_cast
    rw [zpow_natCast]
  rw [hscaled, roundHalfEven_intCast, ← hscaled, div_mul_cancel₀ _ (zpow_ne_zero _ two_ne_zero)]

@[simp] theorem roundSingle_zero : roundSingle 0 = 0 :=
  roundSingle_of_mantissa (m := 0) (e := 0) (by simp) (by simp)

/-- What is stored with 32 bits is stored again as it is. -/
theorem roundSingle_roundSingle (x : ℚ) : roundSingle (roundSingle x) = roundSingle x := by
  have hround : ∃ e : Int, e = max (Int.log 2 |x| - 23) (-149) ∧
      roundSingle x = roundHalfEven (x / 2 ^ e) * 2 ^ e := ⟨_, rfl, rfl⟩
  obtain ⟨e, he, hround⟩ := hround
  generalize hm : roundHalfEven (x / 2 ^ e) = m at hround
  have hpow : (0 : ℚ) < 2 ^ e := zpow_pos two_pos e
  -- The mantissa has at most 24 bits, or is the next power of two.
  have hbound : |x / 2 ^ e| ≤ 2 ^ 24 := by
    rw [abs_div, abs_of_pos hpow, div_le_iff₀ hpow]
    refine (Int.lt_zpow_succ_log_self (b := 2) (by norm_num) |x|).le.trans ?_
    rw [← zpow_natCast, ← zpow_add₀ two_ne_zero]
    push_cast
    exact zpow_le_zpow_right₀ (by norm_num) (by omega)
  obtain ⟨hlow, hhigh⟩ := abs_le.mp hbound
  have hmhigh : m ≤ 2 ^ 24 := hm ▸ roundHalfEven_le (by exact_mod_cast hhigh)
  have hmlow : -2 ^ 24 ≤ m := hm ▸ le_roundHalfEven (by exact_mod_cast hlow)
  have hexp : (-149 : Int) ≤ e := he ▸ le_max_right _ _
  rcases eq_or_ne m 0 with rfl | hmne
  · rw [hround, Int.cast_zero, zero_mul, roundSingle_zero]
  have hlog : ∀ n : Int, |m| < 2 ^ n.toNat → 0 ≤ n → Int.log 2 |(m : ℚ) * 2 ^ e| < n + e := by
    intro n hn hn0
    have hpos : (0 : ℚ) < |(m : ℚ) * 2 ^ e| :=
      abs_pos.mpr (mul_ne_zero (Int.cast_ne_zero.mpr hmne) hpow.ne')
    rw [← Int.lt_zpow_iff_log_lt (by norm_num) hpos, abs_mul, abs_of_pos hpow]
    push_cast
    rw [zpow_add₀ two_ne_zero]
    refine mul_lt_mul_of_pos_right ?_ hpow
    obtain ⟨k, rfl⟩ := Int.eq_ofNat_of_zero_le hn0
    rw [Int.toNat_natCast] at hn
    rw [zpow_natCast]
    exact_mod_cast hn
  rcases lt_or_ge |m| (2 ^ 24) with hlt | hge
  · have hle := hlog 24 (by simpa using hlt) (by norm_num)
    rw [hround]
    exact roundSingle_of_mantissa rfl (max_le (by omega) hexp)
  · -- The mantissa is a power of two, of which the next exponent has the half.
    have hle := hlog 25 ((abs_le.mpr ⟨hmlow, hmhigh⟩).trans_lt (by decide)) (by norm_num)
    have hhalf : ∃ m' : Int, m = m' * 2 := by
      rcases le_abs.mp hge with h | h
      · exact ⟨2 ^ 23, by omega⟩
      · exact ⟨-2 ^ 23, by omega⟩
    obtain ⟨m', rfl⟩ := hhalf
    rw [hround]
    refine roundSingle_of_mantissa (m := m') (e := e + 1) ?_ (max_le (by omega) (by omega))
    rw [zpow_add_one₀ two_ne_zero]
    push_cast
    rw [mul_comm ((2 : ℚ) ^ e) 2, mul_assoc]

end Vllm.Lib
