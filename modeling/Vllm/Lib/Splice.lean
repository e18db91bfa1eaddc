import Mathlib.Data.List.Basic
import Mathlib.Data.List.Range

/-!
# `Vllm.Lib.Splice`: edits of a list

An edit puts a content in the place of a part of a list, which may be empty. A program that applies
edits from left to right copies what is between them: `write`. What the result should be does not
depend on how it is computed: `splice` goes through the places of the list, and has for each of them
the contents that go there and the element, unless an edit replaces it.

* `write_eq_splice`: both are the same when no edit starts before the end of the one before it.
-/

set_option autoImplicit false

namespace Vllm.Lib

open List

variable {α : Type}

/-- The content goes in the place of the elements from `start` to `stop`. -/
structure Edit (α : Type) where
  start : Nat
  stop : Nat
  content : List α

/-- What is at a place of the edited list. -/
def spliceAt (xs : List α) (edits : List (Edit α)) (i : Nat) : List α :=
  (edits.filter fun e => e.start = i).flatMap Edit.content ++
    if edits.any fun e => e.start ≤ i ∧ i < e.stop then [] else xs[i]?.toList

/-- The edited list: every content is at the start of its edit, and every element that no edit
replaces is kept. -/
def splice (xs : List α) (edits : List (Edit α)) : List α :=
  (List.range' 0 (xs.length + 1)).flatMap (spliceAt xs edits)

/-- The edits are applied from left to right. -/
def write (xs : List α) : Nat → List (Edit α) → List α
  | pos, [] => xs.drop pos
  | pos, e :: edits => (xs.take e.start).drop pos ++ e.content ++ write xs e.stop edits

/-- No edit starts before the end of the one before it. -/
def InOrder (length : Nat) : Nat → List (Edit α) → Prop
  | pos, [] => pos ≤ length
  | pos, e :: edits => pos ≤ e.start ∧ e.start ≤ e.stop ∧ InOrder length e.stop edits

instance (length : Nat) : (pos : Nat) → (edits : List (Edit α)) →
    Decidable (InOrder length pos edits)
  | pos, [] => inferInstanceAs (Decidable (pos ≤ length))
  | pos, e :: edits =>
    have := instDecidableInOrder length e.stop edits
    inferInstanceAs (Decidable (pos ≤ e.start ∧ e.start ≤ e.stop ∧ InOrder length e.stop edits))

variable {xs : List α} {edits : List (Edit α)} {e : Edit α} {length pos i : Nat}

theorem InOrder.le (h : InOrder length pos edits) : pos ≤ length := by
  induction edits generalizing pos with
  | nil => exact h
  | cons e edits ih => exact h.1.trans (h.2.1.trans (ih h.2.2))

theorem InOrder.le_start (h : InOrder length pos edits) (he : e ∈ edits) : pos ≤ e.start := by
  induction edits generalizing pos with
  | nil => cases he
  | cons e' edits ih =>
    rcases mem_cons.mp he with rfl | he
    · exact h.1
    · exact h.1.trans (h.2.1.trans (ih h.2.2 he))

/-- Before the first edit there is only the list. -/
theorem spliceAt_before (h : InOrder length pos edits) (hi : i < pos) :
    spliceAt xs edits i = xs[i]?.toList := by
  have hstart : ∀ e ∈ edits, i < e.start := fun e he => hi.trans_le (h.le_start he)
  have hnone : edits.filter (fun e => e.start = i) = [] := by
    rw [filter_eq_nil_iff]
    intro e he
    have := hstart e he
    simp only [decide_eq_true_eq]
    omega
  have hkept : edits.any (fun e => e.start ≤ i ∧ i < e.stop) = false := by
    rw [any_eq_false]
    intro e he
    have := hstart e he
    simp only [decide_eq_true_eq]
    omega
  unfold spliceAt
  rw [hnone, hkept]
  simp

/-- The elements of a part of the list. -/
theorem flatMap_getElem? (xs : List α) (n pos : Nat) :
    (List.range' pos n).flatMap (fun i => xs[i]?.toList) = (xs.take (pos + n)).drop pos := by
  induction n generalizing pos with
  | zero => simp
  | succ n ih =>
    rw [range'_succ, flatMap_cons, ih, Nat.add_right_comm, Nat.add_assoc pos n 1]
    by_cases hpos : pos < xs.length
    · have hlt : pos < (xs.take (pos + (n + 1))).length := by
        rw [length_take]
        omega
      rw [drop_eq_getElem_cons hlt, getElem_take, List.getElem?_eq_getElem hpos]
      rfl
    · rw [List.getElem?_eq_none (by omega), drop_eq_nil_of_le, drop_eq_nil_of_le]
      · rfl
      · rw [length_take]
        omega
      · rw [length_take]
        omega

/-- At and after the start of the first edit. -/
theorem spliceAt_cons (h : InOrder length e.stop edits) (hi : e.start ≤ i) : spliceAt xs (e :: edits) i =
      (if e.start = i then e.content else []) ++ if i < e.stop then [] else spliceAt xs edits i := by
  unfold spliceAt
  by_cases hstop : i < e.stop
  · -- The element is replaced, and no other edit starts here.
    have hnone : edits.filter (fun e => e.start = i) = [] := by
      rw [filter_eq_nil_iff]
      intro e' he
      have := h.le_start he
      simp only [decide_eq_true_eq]
      omega
    rw [filter_cons, any_cons, hnone, decide_eq_true (And.intro hi hstop), Bool.true_or,
      if_pos rfl, if_pos hstop]
    by_cases hstart : e.start = i <;> simp [hstart]
  · have hkept : decide (e.start ≤ i ∧ i < e.stop) = false :=
      decide_eq_false fun hboth => hstop hboth.2
    rw [filter_cons, any_cons, hkept, Bool.false_or, if_neg hstop]
    by_cases hstart : e.start = i <;> simp [hstart]

/-- The first edit and what comes after it. -/
theorem flatMap_spliceAt_cons (h : InOrder xs.length e.stop edits) (hle : e.start ≤ e.stop) :
    (List.range' e.start (xs.length + 1 - e.start)).flatMap (spliceAt xs (e :: edits)) =
      e.content ++ (List.range' e.stop (xs.length + 1 - e.stop)).flatMap (spliceAt xs edits) := by
  have hlen := h.le
  obtain ⟨n, hn⟩ : ∃ n, xs.length + 1 - e.start = (e.stop - e.start) + (n + 1) :=
    ⟨xs.length - e.stop, by omega⟩
  have hn' : xs.length + 1 - e.stop = n + 1 := by omega
  rw [hn, hn', ← range'_append_1, flatMap_append, Nat.add_sub_cancel' hle]
  -- After the end of the edit only the other edits are left.
  have hrest : (List.range' (e.stop + 1) n).flatMap (spliceAt xs (e :: edits)) =
      (List.range' (e.stop + 1) n).flatMap (spliceAt xs edits) := by
    refine flatMap_congr fun i hi => ?_
    have hlt := (mem_range'_1.mp hi).1
    rw [spliceAt_cons h (by omega), if_neg (by omega), if_neg (by omega), nil_append]
  rw [range'_succ, flatMap_cons, flatMap_cons, hrest,
    spliceAt_cons h hle, if_neg (lt_irrefl _)]
  rcases Nat.lt_or_eq_of_le hle with hlt | heq
  · -- The replaced elements: the content is at the first of them.
    obtain ⟨d, hd⟩ : ∃ d, e.stop - e.start = d + 1 := ⟨e.stop - e.start - 1, by omega⟩
    have hgone : (List.range' (e.start + 1) d).flatMap (spliceAt xs (e :: edits)) = [] := by
      rw [flatMap_eq_nil_iff]
      intro i hi
      obtain ⟨hlow, hhigh⟩ := mem_range'_1.mp hi
      rw [spliceAt_cons h (by omega), if_neg (by omega), if_pos (by omega), nil_append]
    rw [hd, range'_succ, flatMap_cons, hgone, spliceAt_cons h le_rfl, if_pos rfl,
      if_pos hlt, if_neg (by omega)]
    simp
  · rw [heq, Nat.sub_self, if_pos rfl]
    simp

/-- Edits that are in order are applied from left to right as they should. -/
theorem write_eq_splice (h : InOrder xs.length 0 edits) : write xs 0 edits = splice xs edits := by
  have hfrom : ∀ pos, InOrder xs.length pos edits →
      write xs pos edits = (List.range' pos (xs.length + 1 - pos)).flatMap (spliceAt xs edits) := by
    clear h
    induction edits with
    | nil =>
      intro pos hpos
      have hat : spliceAt xs [] = fun i => xs[i]?.toList := by
        funext i
        simp [spliceAt]
      have hle : pos ≤ xs.length := hpos
      rw [hat, flatMap_getElem?, Nat.add_sub_cancel' (by omega), take_of_length_le (by omega)]
      rfl
    | cons e edits ih =>
      intro pos hpos
      obtain ⟨hstart, hle, hrest⟩ := hpos
      have hlen := hrest.le
      have hkept : (List.range' pos (e.start - pos)).flatMap (spliceAt xs (e :: edits)) =
          (xs.take e.start).drop pos := by
        rw [← Nat.add_sub_cancel' hstart, ← flatMap_getElem?, Nat.add_sub_cancel_left]
        refine flatMap_congr fun i hi => ?_
        have hlt := (mem_range'_1.mp hi).2
        have hedits : InOrder xs.length e.start (e :: edits) := ⟨le_rfl, hle, hrest⟩
        exact spliceAt_before hedits (by omega)
      rw [show xs.length + 1 - pos = (e.start - pos) + (xs.length + 1 - e.start) by omega,
        ← range'_append_1, flatMap_append, Nat.add_sub_cancel' hstart, hkept,
        flatMap_spliceAt_cons hrest hle, ← ih e.stop hrest, ← append_assoc]
      rfl
  exact hfrom 0 h

end Vllm.Lib
