import Mathlib.Data.List.Sort
import Vllm.Lib.MapM
import Vllm.Lib.PyError

/-!
# `Vllm.Lib.PySlice`: items and slices of a Python list

An index below 0 counts from the end. The bounds of a slice do so too, and are moved into the list.

* `pyItem`, `pySlice`: `x[i]` and `x[start:stop:step]`.
* `pySlice_sublist`, `pySlice_reverse_sublist`: a slice goes up or down the list.
* `pySlice_between`, `mapM_pyItem_between`: the slice between two indices, and a loop over it.
-/

set_option autoImplicit false

namespace Vllm.Lib

open List

variable {α β : Type}

/-- The item at an index, which counts from the end if it is negative. -/
def itemAt? (x : List α) (index : Int) : Option α :=
  if 0 ≤ index then x[index.toNat]?
  else if 0 ≤ index + x.length then x[(index + x.length).toNat]? else none

/-- `x[index]`. -/
def pyItem (x : List α) (index : Int) : Except PyError α :=
  (itemAt? x index).elim (.error (.indexError "list index out of range")) .ok

/-- `slice(start, stop, step)`. -/
structure PySlice where
  start : Option Int := none
  stop : Option Int := none
  step : Option Int := none
deriving DecidableEq

namespace PySlice

/-- A bound, moved to between `lo` and `hi`. -/
def clampBound (n : Nat) (lo hi bound : Int) : Int :=
  max lo (min hi (if bound < 0 then bound + n else bound))

/-- The indices that the slice selects of `n` items. -/
def indices (s : PySlice) (n : Nat) : Except PyError (List Nat) :=
  let step := s.step.getD 1
  if step = 0 then .error (.valueError "slice step cannot be zero")
  else if 0 < step then
    let start := (s.start.map (clampBound n 0 n)).getD 0
    let stop := (s.stop.map (clampBound n 0 n)).getD n
    .ok ((List.range n).filter fun i : Nat => start ≤ i ∧ (i : Int) < stop ∧ ((i : Int) - start) % step = 0)
  else
    let start := (s.start.map (clampBound n (-1) (n - 1))).getD (n - 1)
    let stop := (s.stop.map (clampBound n (-1) (n - 1))).getD (-1)
    .ok ((List.range n).filter fun i : Nat =>
      (i : Int) ≤ start ∧ stop < (i : Int) ∧ (start - (i : Int)) % step = 0).reverse

end PySlice

/-- `x[start:stop:step]`. -/
def pySlice (x : List α) (s : PySlice) : Except PyError (List α) :=
  (s.indices x.length).map fun indices => indices.filterMap (x[·]?)

section Items
variable {x : List α} {i : Int}

theorem itemAt?_map (g : α → β) : itemAt? (x.map g) i = (itemAt? x i).map g := by
  unfold itemAt?
  rw [length_map, getElem?_map, getElem?_map]
  split
  · rfl
  · split <;> rfl

theorem pyItem_map (g : α → β) : pyItem (x.map g) i = (pyItem x i).map g := by
  rw [pyItem, itemAt?_map, pyItem]
  cases itemAt? x i <;> rfl

theorem mem_of_pyItem {a : α} (h : pyItem x i = .ok a) : a ∈ x := by
  have hat : itemAt? x i = some a := by
    unfold pyItem at h
    cases hget : itemAt? x i with
    | none =>
      rw [hget] at h
      cases h
    | some a' =>
      rw [hget] at h
      cases h
      rfl
  unfold itemAt? at hat
  split at hat
  · exact mem_of_getElem? hat
  · split at hat
    · exact mem_of_getElem? hat
    · cases hat

theorem pyItem_natCast {k : Nat} {a : α} (h : x[k]? = some a) : pyItem x (k : Int) = .ok a := by
  unfold pyItem itemAt?
  rw [if_pos (Int.natCast_nonneg k), Int.toNat_natCast, h]
  rfl

theorem pyItem_last (h : x ≠ []) : pyItem x (-1) = .ok (x.getLast h) := by
  have hpos := length_pos_iff.mpr h
  have hlast : x[(-1 + (x.length : Int)).toNat]? = some (x.getLast h) := by
    rw [← List.getLast?_eq_some_getLast h, List.getLast?_eq_getElem?]
    congr 1
    omega
  have hin : 0 ≤ -1 + (x.length : Int) := by omega
  unfold pyItem itemAt?
  rw [if_neg (by decide), if_pos hin, hlast]
  rfl

end Items

section Slices
variable {x qs : List α} {s : PySlice}

theorem pySlice_map (g : α → β) : pySlice (x.map g) s = (pySlice x s).map (List.map g) := by
  unfold pySlice
  rw [length_map]
  cases s.indices x.length with
  | error e => rfl
  | ok indices => simp [Except.map, map_filterMap]

theorem filterMap_range (x : List α) (k : Nat) :
    (List.range k).filterMap (x[·]?) = x.take k := by
  induction x generalizing k with
  | nil => simp
  | cons a x ih =>
    cases k with
    | zero => rfl
    | succ k =>
      simpa [range_succ_eq_map, filterMap_map, Function.comp_def] using ih k

/-- With a step upwards the items are in the order of the list. -/
theorem pySlice_sublist (h : pySlice x s = .ok qs) (hstep : 0 < s.step.getD 1) : qs.Sublist x := by
  simp only [pySlice, PySlice.indices, if_neg (Int.ne_of_gt hstep), if_pos hstep, Except.map] at h
  cases h
  exact (filter_sublist.filterMap _).trans (by rw [filterMap_range, take_length])

/-- With a step downwards they are in the other order. -/
theorem pySlice_reverse_sublist (h : pySlice x s = .ok qs) (hstep : ¬ 0 < s.step.getD 1) :
    qs.reverse.Sublist x := by
  by_cases h0 : s.step.getD 1 = 0
  · simp only [pySlice, PySlice.indices, if_pos h0, Except.map] at h
    cases h
  · simp only [pySlice, PySlice.indices, if_neg h0, if_neg hstep, Except.map] at h
    cases h
    rw [← filterMap_reverse, reverse_reverse]
    exact (filter_sublist.filterMap _).trans (by rw [filterMap_range, take_length])

theorem mem_of_mem_pySlice {a : α} (h : pySlice x s = .ok qs) (ha : a ∈ qs) : a ∈ x := by
  by_cases hstep : 0 < s.step.getD 1
  · exact (pySlice_sublist h hstep).subset ha
  · exact (pySlice_reverse_sublist h hstep).subset (mem_reverse.mpr ha)

/-- `x[a:b]`. -/
theorem pySlice_between {a b : Nat} (ha : a ≤ x.length) (hb : b ≤ x.length) :
    pySlice x ⟨some a, some b, none⟩ = .ok ((x.drop a).take (b - a)) := by
  have hclamp : ∀ {k : Nat}, k ≤ x.length → PySlice.clampBound x.length 0 x.length k = k := by
    intro k hk
    unfold PySlice.clampBound
    omega
  have hindices : (List.range x.length).filter (fun i : Nat => (a : Int) ≤ i ∧ (i : Int) < b ∧
      ((i : Int) - a) % 1 = 0) = (List.range x.length).filter fun i => a ≤ i ∧ i < b := by
    refine filter_congr fun i _ => ?_
    simp [Int.emod_one]
  have hrange : (List.range x.length).filter (fun i => a ≤ i ∧ i < b) = List.range' a (b - a) := by
    refine (pairwise_lt_range.filter _).eq_of_mem_iff pairwise_lt_range' fun i => ?_
    simp only [mem_filter, mem_range, decide_eq_true_eq, mem_range'_1]
    omega
  simp only [pySlice, PySlice.indices, Option.getD_none, Option.map_some, Option.getD_some,
    hclamp ha, hclamp hb, Except.map, Int.one_ne_zero, if_false, Int.zero_lt_one, if_true]
  rw [hindices, hrange, range'_eq_map_range, filterMap_map, ← filterMap_range]
  simp

/-- The items of `range(a, b)`. -/
theorem mapM_pyItem_between {a b : Nat} (hb : b ≤ x.length) :
    ((List.range (b - a)).map fun k : Nat => (a : Int) + k).mapM (pyItem x) =
      .ok ((x.drop a).take (b - a)) := by
  refine mapM_eq_ok_iff_getElem?.mpr ⟨by simp; omega, fun k i hi => ?_⟩
  rw [List.getElem?_map] at hi
  obtain ⟨k', hk', rfl⟩ := Option.map_eq_some_iff.mp hi
  obtain ⟨hlt, rfl⟩ := List.getElem?_eq_some_iff.mp hk'
  rw [List.length_range] at hlt
  have hin : a + k < x.length := by omega
  have hget : x[a + k]? = some x[a + k] := List.getElem?_eq_getElem hin
  refine ⟨_, by rw [List.getElem?_take_of_lt hlt, List.getElem?_drop, hget], ?_⟩
  rw [List.getElem_range, ← Nat.cast_add]
  exact pyItem_natCast hget

end Slices

end Vllm.Lib
