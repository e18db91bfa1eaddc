import Vllm.Lib.PyError
import Mathlib.Data.List.Forall2

/-!
# `Vllm.Lib.MapM`: loops over a list

A loop that appends one result for each element is `List.mapM`. It ends when the call on each
element does, and gives their results in order. A loop that keeps the best element is a fold, and
its result is one of the elements.
-/

set_option autoImplicit false

namespace Vllm.Lib

open List

variable {α β ε : Type}

/-- The result of a loop, element by element. -/
theorem mapM_eq_ok_iff {f : α → Except ε β} {xs : List α} {ys : List β} :
    xs.mapM f = .ok ys ↔ List.Forall₂ (fun x y => f x = .ok y) xs ys := by
  induction xs generalizing ys with
  | nil =>
    rw [forall₂_nil_left_iff, mapM_nil]
    exact ⟨fun h => (Except.ok.inj h).symm, fun h => congrArg Except.ok h.symm⟩
  | cons x xs ih =>
    rw [mapM_cons, bind_eq_ok_iff]
    constructor
    · rintro ⟨y, hy, h⟩
      obtain ⟨ys', hys, h⟩ := bind_ok h
      cases h
      exact .cons hy (ih.mp hys)
    · intro h
      cases h with
      | cons hy hys => exact ⟨_, hy, bind_eq_ok_iff.mpr ⟨_, ih.mpr hys, rfl⟩⟩

/-- Each result is the one of an element. -/
theorem exists_of_mem_mapM {f : α → Except ε β} {xs : List α} {ys : List β} {y : β}
    (h : xs.mapM f = .ok ys) (hy : y ∈ ys) : ∃ x ∈ xs, f x = .ok y := by
  obtain ⟨i, hi, hget⟩ := mem_iff_getElem.mp hy
  obtain ⟨hlen, hall⟩ := forall₂_iff_get.mp (mapM_eq_ok_iff.mp h)
  refine ⟨xs[i], getElem_mem _, ?_⟩
  rw [← hget]
  exact hall i (hlen ▸ hi) hi

/-- The result of a loop, index by index. -/
theorem mapM_eq_ok_iff_getElem? {f : α → Except ε β} {xs : List α} {ys : List β} :
    xs.mapM f = .ok ys ↔ ys.length = xs.length ∧
      ∀ (i : Nat) x, xs[i]? = some x → ∃ y, ys[i]? = some y ∧ f x = .ok y := by
  rw [mapM_eq_ok_iff, List.forall₂_iff_get]
  constructor
  · rintro ⟨hlen, h⟩
    refine ⟨hlen.symm, ?_⟩
    intro i x hx
    obtain ⟨hi, rfl⟩ := List.getElem?_eq_some_iff.mp hx
    have hi' : i < ys.length := hlen ▸ hi
    exact ⟨ys[i], List.getElem?_eq_getElem hi', h i hi hi'⟩
  · rintro ⟨hlen, h⟩
    refine ⟨hlen.symm, ?_⟩
    intro i hi hi'
    obtain ⟨y, hy, hf⟩ := h i xs[i] (List.getElem?_eq_getElem hi)
    obtain ⟨_, heq⟩ := List.getElem?_eq_some_iff.mp hy
    rw [← heq] at hf
    exact hf

/-- A loop whose calls all end, ends. -/
theorem mapM_eq_ok_map {f : α → Except ε β} {g : α → β} {xs : List α}
    (h : ∀ x ∈ xs, f x = .ok (g x)) : xs.mapM f = .ok (xs.map g) := by
  refine mapM_eq_ok_iff_getElem?.mpr ⟨length_map g, fun i x hi => ⟨g x, ?_, ?_⟩⟩
  · rw [getElem?_map, hi]
    rfl
  · exact h x (mem_of_getElem? hi)

/-- All calls that fail raise the same. -/
theorem mapM_eq_error {f : α → Except ε β} {e : ε} {xs : List α}
    (h : ∃ x ∈ xs, f x = .error e) (hall : ∀ x ∈ xs, ∀ e', f x = .error e' → e' = e) :
    xs.mapM f = .error e := by
  induction xs with
  | nil =>
    obtain ⟨x, hx, -⟩ := h
    cases hx
  | cons x xs ih =>
    rw [mapM_cons]
    cases hx : f x with
    | error e' =>
      rw [hall x mem_cons_self e' hx]
      rfl
    | ok y =>
      obtain ⟨x', hx', hfail⟩ := h
      rcases mem_cons.mp hx' with rfl | hx'
      · cases hx.symm.trans hfail
      · rw [except_ok_bind, ih ⟨x', hx', hfail⟩ fun z hz => hall z (mem_cons_of_mem x hz)]
        rfl

theorem exists_mapM_eq_ok {f : α → Except ε β} {xs : List α} (h : ∀ x ∈ xs, ∃ y, f x = .ok y) :
    ∃ ys, xs.mapM f = .ok ys := by
  induction xs with
  | nil => exact ⟨[], rfl⟩
  | cons x xs ih =>
    obtain ⟨y, hy⟩ := h x mem_cons_self
    obtain ⟨ys, hys⟩ := ih fun x hx => h x (mem_cons_of_mem _ hx)
    exact ⟨y :: ys, mapM_eq_ok_iff.mpr (.cons hy (mapM_eq_ok_iff.mp hys))⟩

/-- A loop that keeps one of two elements ends with an element of the list. -/
theorem foldl_pick_mem (f : α → α → Bool) (l : List α) (a : α) :
    l.foldl (fun best r => if f best r then r else best) a ∈ a :: l := by
  induction l generalizing a with
  | nil => exact mem_singleton.mpr rfl
  | cons b l ih =>
    rw [foldl_cons]
    rcases mem_cons.mp (ih (if f a b then b else a)) with hb | hb
    · rw [hb]
      split
      · simp
      · simp
    · exact mem_cons_of_mem _ (mem_cons_of_mem _ hb)

end Vllm.Lib
