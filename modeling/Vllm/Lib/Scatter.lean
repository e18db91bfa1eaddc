import Mathlib.Data.List.GetD
import Mathlib.Data.List.Nodup
import Mathlib.Data.List.Perm.Subperm
import Vllm.Lib.Ragged

/-!
# `Vllm.Lib.Scatter`: reading and writing at lists of indices

`gather` (`Vllm.Lib.Ragged`) reads the elements at a list of indices, `scatter` writes to them. A
permutation of `0, …, n - 1` as a list of indices only changes the order of what is gathered, and
scattering the indices inverts it.

* `gather_eq`, `scatter_spec`: what is read and written when no index is out of bounds.
* `perm_range_of_nodup`: different indices below their number are all of them.
* `gather_perm`, `inverse_spec`: permutations.
* `getElem?_rows`, `flatMap_range'`: rows of the same length, one after the other.
-/

set_option autoImplicit false

namespace Vllm.Lib

open List

variable {β : Type}

/-- `xs.scatter_(index, src)`, if no index is out of bounds. -/
def scatter (xs : List β) (index : List Nat) (src : List β) : Option (List β) :=
  (index.zip src).foldlM (fun xs p => if p.1 < xs.length then some (xs.set p.1 p.2) else none) xs

theorem gather_eq {xs : List β} {index : List Nat} (d : β) (h : ∀ i ∈ index, i < xs.length) :
    gather xs index = some (index.map fun i => xs.getD i d) := by
  unfold gather
  induction index with
  | nil => rfl
  | cons i index ih =>
    have hi := h i mem_cons_self
    rw [mapM_cons, ih fun j hj => h j (mem_cons_of_mem _ hj),
      getElem?_eq_getElem hi, map_cons, getD_eq_getElem _ _ hi]
    rfl

/-- Each index that is written gets its value, and the other elements stay. -/
theorem scatter_spec {xs src : List β} {index : List Nat} (hnodup : index.Nodup)
    (hlen : index.length = src.length) (h : ∀ i ∈ index, i < xs.length) :
    ∃ ys : List β, scatter xs index src = some ys ∧ ys.length = xs.length ∧
      (∀ k i : Nat, index[k]? = some i → ys[i]? = src[k]?) ∧ ∀ i, i ∉ index → ys[i]? = xs[i]? := by
  induction index generalizing xs src with
  | nil =>
    refine ⟨xs, rfl, rfl, fun k i hk => ?_, fun i _ => rfl⟩
    rw [getElem?_nil] at hk
    cases hk
  | cons j index ih =>
    cases src with
    | nil => cases hlen
    | cons v src =>
      rw [nodup_cons] at hnodup
      have hj := h j mem_cons_self
      obtain ⟨ys, hscatter, hys, hwritten, hkept⟩ :=
        @ih (xs.set j v) src hnodup.2 (Nat.succ.inj hlen) (by
          intro i hi
          rw [length_set]
          exact h i (mem_cons_of_mem _ hi))
      refine ⟨ys, ?_, hys.trans length_set, fun k i hk => ?_, fun i hi => ?_⟩
      · unfold scatter at hscatter ⊢
        rw [zip_cons_cons, foldlM_cons, if_pos hj]
        exact hscatter
      · cases k with
        | zero =>
          obtain rfl : j = i := by simpa using hk
          rw [hkept j hnodup.1, getElem?_set_self hj]
          rfl
        | succ k => exact hwritten k i (by simpa using hk)
      · rw [mem_cons, not_or] at hi
        rw [hkept i hi.2, getElem?_set_ne (Ne.symm hi.1)]

/-! ### Permutations of indices -/

/-- Different indices below their number are all of them. -/
theorem perm_range_of_nodup {index : List Nat} (hnodup : index.Nodup)
    (h : ∀ i ∈ index, i < index.length) : index.Perm (List.range index.length) := by
  refine (subperm_of_subset hnodup fun i hi => ?_).perm_of_length_le ?_
  · exact mem_range.mpr (h i hi)
  · rw [length_range]

section Perm
variable {perm : List Nat} {n : Nat}

theorem length_of_perm_range (h : perm.Perm (List.range n)) : perm.length = n := by
  rw [h.length_eq, length_range]

theorem lt_of_perm_range (h : perm.Perm (List.range n)) {i : Nat} (hi : i ∈ perm) : i < n :=
  mem_range.mp (h.mem_iff.mp hi)

/-- The elements of a list by their index. -/
theorem map_getD_range (xs : List β) (d : β) :
    (List.range xs.length).map (fun i => xs.getD i d) = xs := by
  refine ext_getElem (by simp) fun i hi _ => ?_
  simp only [length_map, length_range] at hi
  simp [hi]

/-- What is gathered at a permutation is in another order. -/
theorem gather_perm {xs : List β} (h : perm.Perm (List.range xs.length)) (d : β) :
    gather xs perm = some (perm.map fun i => xs.getD i d) ∧
      (perm.map fun i => xs.getD i d).Perm xs := by
  refine ⟨gather_eq d fun i hi => lt_of_perm_range h hi, ?_⟩
  have hmap := h.map fun i => xs.getD i d
  rwa [map_getD_range] at hmap

/-- Scattering the indices at a permutation inverts it. -/
theorem inverse_spec (h : perm.Perm (List.range n)) :
    ∃ inv, scatter (List.replicate perm.length 0) perm (List.range perm.length) = some inv ∧
      inv.Perm (List.range n) ∧ (∀ i < n, inv.getD (perm.getD i 0) 0 = i) ∧
      ∀ i < n, perm.getD (inv.getD i 0) 0 = i := by
  have hlen := length_of_perm_range h
  have hnodup : perm.Nodup := h.nodup_iff.mpr nodup_range
  obtain ⟨inv, hscatter, hinv, hwritten, -⟩ :=
    @scatter_spec Nat (List.replicate perm.length 0) (List.range perm.length) perm hnodup
      length_range.symm (fun i hi => by
        rw [length_replicate, hlen]
        exact lt_of_perm_range h hi)
  rw [length_replicate, hlen] at hinv
  have hleft : ∀ i < n, inv.getD (perm.getD i 0) 0 = i := by
    intro i hi
    have hget : perm[i]? = some (perm.getD i 0) := by
      rw [getElem?_eq_getElem (by omega), getD_eq_getElem _ _ (by omega)]
    rw [getD_eq_getElem?_getD, hwritten i _ hget, getElem?_range (by omega)]
    rfl
  -- Every index is at some place of the permutation.
  have hplace : ∀ i < n, ∃ k < n, perm.getD k 0 = i := by
    intro i hi
    obtain ⟨k, hk, hget⟩ := getElem_of_mem (h.mem_iff.mpr (mem_range.mpr hi))
    exact ⟨k, by omega, by rw [getD_eq_getElem _ _ hk, hget]⟩
  have hright : ∀ i < n, inv.getD i 0 < n ∧ perm.getD (inv.getD i 0) 0 = i := by
    intro i hi
    obtain ⟨k, hk, rfl⟩ := hplace i hi
    rw [hleft k hk]
    exact ⟨hk, rfl⟩
  refine ⟨inv, hscatter, ?_, hleft, fun i hi => (hright i hi).2⟩
  have hmem : ∀ x ∈ inv, ∃ i < n, inv.getD i 0 = x := by
    intro x hx
    obtain ⟨i, hi, rfl⟩ := getElem_of_mem hx
    exact ⟨i, by omega, getD_eq_getElem _ _ hi⟩
  have hperm : inv.Nodup → (∀ i ∈ inv, i < inv.length) → inv.Perm (List.range n) := by
    intro hinvNodup hlt
    simpa only [hinv] using perm_range_of_nodup hinvNodup hlt
  refine hperm ?_ ?_
  · rw [nodup_iff_injective_get]
    intro a b hab
    have ha := hright a (by omega)
    have hb := hright b (by omega)
    rw [getD_eq_getElem _ _ a.2] at ha
    rw [getD_eq_getElem _ _ b.2] at hb
    have hab' : inv[a.1] = inv[b.1] := hab
    rw [hab'] at ha
    exact Fin.ext (ha.2.symm.trans hb.2)
  · intro x hx
    obtain ⟨i, hi, rfl⟩ := hmem x hx
    rw [hinv]
    exact (hright i hi).1

end Perm

/-! ### Rows of the same length -/

/-- An element of the rows is in the row and at the place that division gives. -/
theorem getElem?_rows {α : Type} {f : α → List β} {size : Nat} {xs : List α}
    (h : ∀ x ∈ xs, (f x).length = size) (hpos : 0 < size) (i : Nat) :
    (xs.flatMap f)[i]? = xs[i / size]?.bind fun x => (f x)[i % size]? := by
  induction xs generalizing i with
  | nil => simp
  | cons x xs ih =>
    have hx := h x mem_cons_self
    rw [flatMap_cons]
    rcases Nat.lt_or_ge i size with hlt | hge
    · rw [getElem?_append_left (by omega), Nat.div_eq_of_lt hlt, Nat.mod_eq_of_lt hlt]
      rfl
    · rw [getElem?_append_right (by omega), hx,
        ih (fun y hy => h y (mem_cons_of_mem _ hy)), Nat.div_eq_sub_div hpos hge,
        Nat.mod_eq_sub_mod hge]
      rfl

theorem flatMap_range' (count size : Nat) :
    ((List.range count).flatMap fun row => List.range' (row * size) size) =
      List.range (count * size) := by
  induction count with
  | zero => simp
  | succ count ih =>
    rw [range_succ, flatMap_append, ih, flatMap_singleton, Nat.succ_mul,
      range_eq_range', range_eq_range', ← range'_append_1, Nat.zero_add]

end Vllm.Lib
