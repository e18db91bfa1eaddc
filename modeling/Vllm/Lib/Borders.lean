import Mathlib.Data.List.Infix

/-!
# `Vllm.Lib.Borders`: the borders of the prefixes of a list

A border of a prefix is a shorter prefix that the prefix ends with. The search of Knuth, Morris
and Pratt walks through the borders of what it has read, from the longest one down. The facts
it rests on:

* `border_succ_iff`: a border grows by one when the two next elements are equal.
* `Border.trans` and `Border.of_lt`: the borders of a prefix are its longest border and the
  borders of that one.
-/

set_option autoImplicit false

namespace Vllm.Lib

open List

variable {α : Type} {t : List α} {u v i : Nat}

/-- The first `v` elements are a border of the first `i` ones. -/
def Border (t : List α) (v i : Nat) : Prop := v < i ∧ t.take v <:+ t.take i

theorem border_zero (t : List α) (hi : 0 < i) : Border t 0 i :=
  ⟨hi, by rw [take_zero]; exact nil_suffix⟩

theorem Border.trans (huv : Border t u v) (hvi : Border t v i) : Border t u i :=
  ⟨huv.1.trans hvi.1, huv.2.trans hvi.2⟩

/-- Of two borders of one prefix, the shorter one is a border of the longer one. -/
theorem Border.of_lt (hu : Border t u i) (hv : Border t v i) (huv : u < v) : Border t u v := by
  refine ⟨huv, suffix_of_suffix_length_le hu.2 hv.2 ?_⟩
  rw [length_take, length_take]
  omega

/-- A border grows by one when the next elements are equal. -/
theorem border_succ_iff (hi : i < t.length) :
    Border t (v + 1) (i + 1) ↔ Border t v i ∧ t[v]? = t[i]? := by
  unfold Border
  by_cases hv : v < i
  · have hvt : v < t.length := hv.trans hi
    rw [take_succ_eq_append_getElem hvt, take_succ_eq_append_getElem hi,
      getElem?_eq_getElem hvt, getElem?_eq_getElem hi, Option.some.injEq]
    constructor
    · rintro ⟨-, l, hl⟩
      rw [← append_assoc] at hl
      have hboth := append_inj' hl rfl
      exact ⟨⟨hv, l, hboth.1⟩, (List.cons.inj hboth.2).1⟩
    · rintro ⟨⟨-, l, hl⟩, helem⟩
      refine ⟨by omega, l, ?_⟩
      rw [← append_assoc, hl, helem]
  · constructor
    · rintro ⟨hlt, -⟩
      omega
    · rintro ⟨⟨hlt, -⟩, -⟩
      omega

/-- A border of a prefix of the reversed list, read in the list: the last `v` elements occur
`i` elements before the end. -/
theorem border_reverse_iff {l : List α} (hv : v < i) (hi : i ≤ l.length) :
    Border l.reverse v i ↔ (l.drop (l.length - i)).take v = l.drop (l.length - v) := by
  unfold Border
  rw [take_reverse, take_reverse, reverse_suffix, prefix_iff_eq_take,
    length_drop, Nat.sub_sub_self (by omega)]
  exact ⟨fun h => h.2.symm, fun h => ⟨hv, h.symm⟩⟩

/-- The longest border of the first `i` elements. -/
def LongestBorder (t : List α) (v i : Nat) : Prop :=
  Border t v i ∧ ∀ u, Border t u i → u ≤ v

/-- After the longest border comes its own longest border. -/
theorem LongestBorder.next (hlong : LongestBorder t u v) (hv : Border t v i) :
    Border t u i ∧ ∀ w, Border t w i → w < v → w ≤ u :=
  ⟨hlong.1.trans hv, fun w hw hlt => hlong.2 w (hw.of_lt hv hlt)⟩

end Vllm.Lib
