import Mathlib.Data.List.Basic
import Mathlib.Tactic.Ring

/-!
# `Vllm.Lib.Ragged`: lists of different lengths, one after the other in an array

A program that works on many short lists at once often keeps them in one array, and finds them by
their lengths. This file has the array operations that such a program uses, and says what they do to
the lists.

* `cumsum`, `cumsumAndArange`, `repeatEach`, `gather`: the operations.
* `segIndices`: the indices of a part of each list, from where the lists begin.
* `repeatEach_add_arange`: repeated starts and counts from 0 are the indices of the parts.
* `gather_segIndices`: what is gathered with these indices is the parts of the lists.
* `perPlace`: an array with a value for each place of each list.
-/

set_option autoImplicit false

namespace Vllm.Lib

open List

variable {α β ρ : Type}

/-! ### The operations -/

/-- The sums of the first elements, from a start. -/
def cumsumFrom (s : Nat) : List Nat → List Nat
  | [] => []
  | n :: ns => (s + n) :: cumsumFrom (s + n) ns

/-- `np.cumsum`. -/
def cumsum (ns : List Nat) : List Nat := cumsumFrom 0 ns

/-- `np.repeat(xs, counts)`. -/
def repeatEach (xs : List α) (counts : List Nat) : List α :=
  (xs.zip counts).flatMap fun p => List.replicate p.2 p.1

/-- `xs + ys` of two arrays. -/
def addEach (xs ys : List Nat) : List Nat := List.zipWith (· + ·) xs ys

/-- `xs - ys` of two arrays. -/
def subEach (xs ys : List Nat) : List Nat := List.zipWith (· - ·) xs ys

/-- The sums of counts, and for each count the numbers from 0 up to it: the numbers are counted
through, and what they start with is taken away from them. -/
def cumsumAndArange (ns : List Nat) : List Nat × List Nat :=
  let cu := cumsum ns
  (cu, subEach (List.range (cu.getLastD 0)) (repeatEach (subEach cu ns) ns))

/-- `xs[indices]`, if no index is out of bounds. -/
def gather (xs : List α) (indices : List Nat) : Option (List α) := indices.mapM fun i => xs[i]?

/-! ### Sums -/

@[simp] theorem length_cumsumFrom (s : Nat) (ns : List Nat) :
    (cumsumFrom s ns).length = ns.length := by
  induction ns generalizing s with
  | nil => rfl
  | cons n ns ih => simp [cumsumFrom, ih]

@[simp] theorem length_cumsum (ns : List Nat) : (cumsum ns).length = ns.length :=
  length_cumsumFrom 0 ns

theorem getElem?_cumsumFrom (s : Nat) (ns : List Nat) {i : Nat} (h : i < ns.length) :
    (cumsumFrom s ns)[i]? = some (s + (ns.take (i + 1)).sum) := by
  induction ns generalizing s i with
  | nil => simp at h
  | cons n ns ih =>
    cases i with
    | zero => simp [cumsumFrom]
    | succ i =>
      have hi : i < ns.length := by simpa using h
      simp only [cumsumFrom, getElem?_cons_succ, ih (s + n) hi]
      simp [Nat.add_assoc]

theorem getElem?_cumsum {ns : List Nat} {i : Nat} (h : i < ns.length) :
    (cumsum ns)[i]? = some (ns.take (i + 1)).sum := by
  rw [cumsum, getElem?_cumsumFrom 0 ns h, Nat.zero_add]

theorem getLastD_cumsumFrom (s : Nat) (ns : List Nat) :
    (cumsumFrom s ns).getLastD s = s + ns.sum := by
  induction ns generalizing s with
  | nil => rfl
  | cons n ns ih =>
    rw [cumsumFrom, getLastD_cons, ih, sum_cons, Nat.add_assoc]

/-! ### Indices -/

/-- The lists begin at `s`, one after the other. These are the indices of the parts that begin at
`offset` in their list. -/
def segIndices (len offset count : ρ → Nat) (s : Nat) : List ρ → List Nat
  | [] => []
  | r :: rs => (List.range (count r)).map (s + offset r + ·) ++
      segIndices len offset count (s + len r) rs

theorem zipWith_range'_replicate (s n : Nat) :
    List.zipWith (· - ·) (List.range' s n) (List.replicate n s) = List.range n := by
  apply ext_getElem
  · simp
  · intro i _ _
    simp

theorem arange_from (s : Nat) (ns : List Nat) :
    subEach (List.range' s ns.sum) (repeatEach (subEach (cumsumFrom s ns) ns) ns) =
      ns.flatMap List.range := by
  induction ns generalizing s with
  | nil => rfl
  | cons n ns ih =>
    have hrange : List.range' s (n + ns.sum) =
        List.range' s n ++ List.range' (s + n) ns.sum := by
      rw [← range'_append_1]
    have hih := ih (s + n)
    simp only [subEach, repeatEach] at hih ⊢
    simp only [cumsumFrom, zipWith_cons_cons, zip_cons_cons, flatMap_cons,
      sum_cons, Nat.add_sub_cancel]
    rw [hrange, zipWith_append (by simp), zipWith_range'_replicate, hih]

/-- Each count is counted through from 0. -/
theorem cumsumAndArange_eq (ns : List Nat) :
    cumsumAndArange ns = (cumsum ns, ns.flatMap List.range) := by
  have harange := arange_from 0 ns
  have hlast : (cumsumFrom 0 ns).getLastD 0 = ns.sum := by
    rw [getLastD_cumsumFrom, Nat.zero_add]
  rw [← range_eq_range', ← hlast] at harange
  exact congrArg _ harange

/-- Repeated starts, and counts from 0. -/
theorem repeatEach_add_arange (len offset count : ρ → Nat) (s : Nat) (rs : List ρ)
    (starts : List Nat) (hstarts : starts.length = rs.length)
    (hget : ∀ i r, rs[i]? = some r →
      starts[i]? = some (s + ((rs.take i).map len).sum + offset r)) :
    addEach (repeatEach starts (rs.map count)) ((rs.map count).flatMap List.range) =
      segIndices len offset count s rs := by
  induction rs generalizing s starts with
  | nil =>
    obtain rfl : starts = [] := length_eq_zero_iff.mp hstarts
    rfl
  | cons r rs ih =>
    obtain ⟨start, starts, rfl⟩ : ∃ a as, starts = a :: as :=
      exists_cons_of_length_eq_add_one hstarts
    have hstart : start = s + offset r := by simpa using hget 0 r rfl
    have hih := ih (s + len r) starts (by simpa using hstarts) (by
      intro i r' hr'
      have hi := hget (i + 1) r' (by simpa using hr')
      simp only [getElem?_cons_succ, take_succ_cons, map_cons,
        sum_cons] at hi
      rw [hi]
      congr 1
      omega)
    simp only [addEach, repeatEach] at hih ⊢
    simp only [map_cons, zip_cons_cons, flatMap_cons, segIndices]
    rw [zipWith_append (by simp), hih, hstart]
    congr 1
    apply ext_getElem
    · simp
    · intro i _ _
      simp

/-! ### What is gathered -/

theorem gather_append {xs : List α} {is js : List Nat} {ys zs : List α}
    (hi : gather xs is = some ys) (hj : gather xs js = some zs) :
    gather xs (is ++ js) = some (ys ++ zs) := by
  unfold gather at hi hj ⊢
  rw [mapM_append, hi, hj]
  rfl

/-- The indices of a part of a list. -/
theorem gather_range (pre xs post : List α) {offset count : Nat} (h : offset + count ≤ xs.length) :
    gather (pre ++ xs ++ post) ((List.range count).map (pre.length + offset + ·)) =
      some ((xs.drop offset).take count) := by
  induction count with
  | zero => rfl
  | succ count ih =>
    have hlt : offset + count < xs.length := by omega
    rw [range_succ, map_append, take_succ_eq_append_getElem (by simp; omega)]
    apply gather_append (ih (by omega))
    have hget : (pre ++ xs ++ post)[pre.length + offset + count]? = some xs[offset + count] := by
      rw [append_assoc, getElem?_append_right (by omega),
        getElem?_append_left (by omega), getElem?_eq_getElem (by omega)]
      congr 2
      omega
    rw [gather, map_singleton, mapM_cons, hget]
    simp [getElem_drop]

/-- The parts of the lists that are gathered. -/
theorem gather_segIndices (seg : ρ → List α) (len offset count : ρ → Nat) (rs : List ρ)
    (hlen : ∀ r ∈ rs, (seg r).length = len r) (hle : ∀ r ∈ rs, offset r + count r ≤ len r)
    (pre : List α) :
    gather (pre ++ rs.flatMap seg) (segIndices len offset count pre.length rs) =
      some (rs.flatMap fun r => ((seg r).drop (offset r)).take (count r)) := by
  induction rs generalizing pre with
  | nil => rfl
  | cons r rs ih =>
    have hr := hlen r mem_cons_self
    have hihs := ih (fun r' hr' => hlen r' (mem_cons_of_mem r hr'))
      (fun r' hr' => hle r' (mem_cons_of_mem r hr')) (pre ++ seg r)
    rw [length_append, hr] at hihs
    rw [flatMap_cons, flatMap_cons, segIndices, ← append_assoc]
    refine gather_append (gather_range pre (seg r) (rs.flatMap seg) ?_) hihs
    rw [hr]
    exact hle r mem_cons_self

/-! ### One of the lists -/

/-- Where a list is in the array. -/
theorem flatMap_split (seg : ρ → List α) {len : ρ → Nat} {rs : List ρ}
    (hlen : ∀ r ∈ rs, (seg r).length = len r) {i : Nat} {r : ρ} (hr : rs[i]? = some r) :
    ∃ pre post, rs.flatMap seg = pre ++ seg r ++ post ∧
      pre.length = ((rs.take i).map len).sum := by
  obtain ⟨hi, hget⟩ := List.getElem?_eq_some_iff.mp hr
  refine ⟨(rs.take i).flatMap seg, (rs.drop (i + 1)).flatMap seg, ?_, ?_⟩
  · conv_lhs => rw [← take_append_drop i rs, drop_eq_getElem_cons hi, hget]
    rw [flatMap_append, flatMap_cons, append_assoc]
  · rw [length_flatMap]
    congr 1
    exact map_congr_left fun r' hr' => hlen r' (mem_of_mem_take hr')

theorem getElem?_flatMap (seg : ρ → List α) {len : ρ → Nat} {rs : List ρ}
    (hlen : ∀ r ∈ rs, (seg r).length = len r) {i : Nat} {r : ρ} (hr : rs[i]? = some r) {k : Nat}
    (hk : k < len r) :
    (rs.flatMap seg)[((rs.take i).map len).sum + k]? = (seg r)[k]? := by
  obtain ⟨pre, post, heq, hpre⟩ := flatMap_split seg hlen hr
  have hr' := hlen r (mem_of_getElem? hr)
  rw [heq, ← hpre, append_assoc, getElem?_append_right (by omega),
    Nat.add_sub_cancel_left, getElem?_append_left (by omega)]

/-- A row of an array whose rows all have the same length. -/
theorem drop_take_flatMap (seg : ρ → List α) {w : Nat} {rs : List ρ}
    (hlen : ∀ r ∈ rs, (seg r).length = w) {i : Nat} {r : ρ} (hr : rs[i]? = some r) :
    ((rs.flatMap seg).drop (i * w)).take w = seg r := by
  obtain ⟨pre, post, heq, hpre⟩ := flatMap_split seg hlen hr
  obtain ⟨hi, -⟩ := List.getElem?_eq_some_iff.mp hr
  have hpre' : pre.length = i * w := by
    rw [hpre, map_const', sum_replicate_nat, length_take,
      Nat.min_eq_left (Nat.le_of_lt hi)]
  rw [heq, ← hpre', append_assoc, drop_left,
    ← hlen r (mem_of_getElem? hr), take_left]

/-! ### One value for each place -/

/-- A value for each of the places that a part has. -/
def perPlace (count : ρ → Nat) (f : ρ → Nat → β) (rs : List ρ) : List β :=
  rs.flatMap fun r => (List.range (count r)).map (f r)

section PerPlace
variable {count : ρ → Nat} {rs : List ρ}

theorem perPlace_cons (f : ρ → Nat → β) (r : ρ) :
    perPlace count f (r :: rs) = (List.range (count r)).map (f r) ++ perPlace count f rs := rfl

theorem length_perPlace (f : ρ → Nat → β) :
    (perPlace count f rs).length = (rs.map count).sum := by
  unfold perPlace
  rw [length_flatMap]
  simp

theorem perPlace_congr {f g : ρ → Nat → β} (h : ∀ r ∈ rs, ∀ j < count r, f r j = g r j) :
    perPlace count f rs = perPlace count g rs := by
  refine flatMap_congr fun r hr => ?_
  exact map_congr_left fun j hj => h r hr j (mem_range.mp hj)

theorem map_perPlace {γ : Type} (f : ρ → Nat → β) (g : β → γ) :
    (perPlace count f rs).map g = perPlace count (fun r j => g (f r j)) rs := by
  unfold perPlace
  rw [map_flatMap]
  exact flatMap_congr fun r _ => map_map

theorem zipWith_perPlace {γ δ : Type} (h : β → γ → δ) (f : ρ → Nat → β) (g : ρ → Nat → γ) :
    List.zipWith h (perPlace count f rs) (perPlace count g rs) =
      perPlace count (fun r j => h (f r j) (g r j)) rs := by
  induction rs with
  | nil => rfl
  | cons r rs ih =>
    rw [perPlace_cons, perPlace_cons, perPlace_cons, zipWith_append (by simp), ih,
      zipWith_map, zipWith_self]

/-- A repeated value is the same at each place. -/
theorem repeatEach_map (g : ρ → β) :
    repeatEach (rs.map g) (rs.map count) = perPlace count (fun r _ => g r) rs := by
  unfold repeatEach perPlace
  rw [zip_map', flatMap_map]
  exact flatMap_congr fun r _ => by simp

/-- The places are counted through from 0. -/
theorem flatMap_range_eq : (rs.map count).flatMap List.range = perPlace count (fun _ j => j) rs := by
  unfold perPlace
  rw [flatMap_map]
  exact flatMap_congr fun r _ => by simp

/-- Lists at the places are put together part by part. -/
theorem flatten_perPlace (f : ρ → Nat → List β) :
    (perPlace count f rs).flatten = rs.flatMap fun r => (List.range (count r)).flatMap (f r) := by
  induction rs with
  | nil => rfl
  | cons r rs ih =>
    rw [perPlace_cons, flatten_append, ih, flatMap_cons, ← flatMap_def]

end PerPlace

end Vllm.Lib
