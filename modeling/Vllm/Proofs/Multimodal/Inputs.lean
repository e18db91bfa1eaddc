import Vllm.Multimodal.Inputs

/-!
# `Vllm.Proofs.Multimodal.Inputs`: when nested tensor equality is structural

`zip` stops at the end of the shorter list, so two lists are told apart only by what they have at the
indices of both. The comparison is right if it finds a difference, or if the lists that it pairs have
equal lengths.

* `nestedTensorsEqual_iff`: the comparison looks at the places that both values have.
* `same_iff`: structural equality looks at the lengths too.
* `nested_tensors_equal_iff`: when the two agree, for values and for dictionaries.
-/

set_option autoImplicit false

namespace Vllm.Proofs.Multimodal

open Vllm.Lib Vllm.V1 Vllm.Multimodal

variable {τ σ : Type} [BEq τ] [BEq σ]

mutual

/-- The same structure, and equal leaves. -/
def Same : NestedTensors τ σ → NestedTensors τ σ → Prop
  | .tensor a, .tensor b => (a == b) = true
  | .scalar a, .scalar b => (a == b) = true
  | .list a, .list b => SameAll a b
  | _, _ => False

/-- As many entries, each with the same structure and equal leaves. -/
def SameAll : List (NestedTensors τ σ) → List (NestedTensors τ σ) → Prop
  | [], [] => True
  | a :: as, b :: bs => Same a b ∧ SameAll as bs
  | _, _ => False

end

omit [BEq τ] [BEq σ] in
/-- The value at the end of a path of indices. -/
def valueAt : NestedTensors τ σ → List Nat → Option (NestedTensors τ σ)
  | x, [] => some x
  | .list l, i :: path => l[i]?.bind fun x => valueAt x path
  | _, _ :: _ => none

/-- Two values of one kind, and equal if they are leaves. -/
inductive SameHead : NestedTensors τ σ → NestedTensors τ σ → Prop
  | tensor {a b} (h : (a == b) = true) : SameHead (.tensor a) (.tensor b)
  | scalar {a b} (h : (a == b) = true) : SameHead (.scalar a) (.scalar b)
  | list (a b) : SameHead (.list a) (.list b)

/-- Some place that both values have is not the same. -/
def Clash (a b : NestedTensors τ σ) : Prop :=
  ∃ path x y, valueAt a path = some x ∧ valueAt b path = some y ∧ ¬SameHead x y

/-- Where both values have a list, the lists have equal lengths. -/
def SameLengths (a b : NestedTensors τ σ) : Prop :=
  ∀ path l l', valueAt a path = some (.list l) → valueAt b path = some (.list l') →
    l.length = l'.length

/-! ### Lists -/

theorem allEqual_iff {a b : List (NestedTensors τ σ)} : allEqual a b = true ↔
    ∀ (i : Nat) x y, a[i]? = some x → b[i]? = some y → nestedTensorsEqual x y = true := by
  induction a generalizing b with
  | nil => simp [allEqual]
  | cons x a ih =>
    cases b with
    | nil => simp [allEqual]
    | cons y b =>
      simp only [allEqual, Bool.and_eq_true, ih]
      constructor
      · rintro ⟨hhead, htail⟩ (_ | i) x' y' hx hy
        · simp at hx hy
          exact hx ▸ hy ▸ hhead
        · exact htail i x' y' hx hy
      · exact fun h => ⟨h 0 x y rfl rfl, fun i x' y' hx hy => h (i + 1) x' y' hx hy⟩

theorem sameAll_iff {a b : List (NestedTensors τ σ)} : SameAll a b ↔ a.length = b.length ∧
    ∀ (i : Nat) x y, a[i]? = some x → b[i]? = some y → Same x y := by
  induction a generalizing b with
  | nil => cases b <;> simp [SameAll]
  | cons x a ih =>
    cases b with
    | nil => simp [SameAll]
    | cons y b =>
      simp only [SameAll, ih, List.length_cons, Nat.add_right_cancel_iff]
      constructor
      · rintro ⟨hhead, hlen, htail⟩
        refine ⟨hlen, ?_⟩
        rintro (_ | i) x' y' hx hy
        · simp at hx hy
          exact hx ▸ hy ▸ hhead
        · exact htail i x' y' hx hy
      · exact fun ⟨hlen, h⟩ =>
          ⟨h 0 x y rfl rfl, hlen, fun i x' y' hx hy => h (i + 1) x' y' hx hy⟩

theorem clash_list_iff {a b : List (NestedTensors τ σ)} :
    Clash (.list a) (.list b) ↔ ∃ (i : Nat) (x y : NestedTensors τ σ),
      a[i]? = some x ∧ b[i]? = some y ∧ Clash x y := by
  constructor
  · rintro ⟨_ | ⟨i, path⟩, x, y, hx, hy, hne⟩
    · cases hx
      cases hy
      exact absurd (.list a b) hne
    · obtain ⟨x', hx', hx⟩ := Option.bind_eq_some_iff.mp hx
      obtain ⟨y', hy', hy⟩ := Option.bind_eq_some_iff.mp hy
      exact ⟨i, x', y', hx', hy', path, x, y, hx, hy, hne⟩
  · rintro ⟨i, x', y', hx', hy', path, x, y, hx, hy, hne⟩
    refine ⟨i :: path, x, y, ?_, ?_, hne⟩
    · simp [valueAt, hx', hx]
    · simp [valueAt, hy', hy]

omit [BEq τ] [BEq σ] in
theorem sameLengths_list_iff {a b : List (NestedTensors τ σ)} :
    SameLengths (.list a) (.list b) ↔ a.length = b.length ∧
      ∀ (i : Nat) x y, a[i]? = some x → b[i]? = some y → SameLengths x y := by
  constructor
  · intro h
    refine ⟨h [] a b rfl rfl, fun i x y hx hy path l l' hl hl' => h (i :: path) l l' ?_ ?_⟩
    · simp [valueAt, hx, hl]
    · simp [valueAt, hy, hl']
  · rintro ⟨hlen, h⟩ (_ | ⟨i, path⟩) l l' hl hl'
    · cases hl
      cases hl'
      exact hlen
    · obtain ⟨x, hx, hl⟩ := Option.bind_eq_some_iff.mp hl
      obtain ⟨y, hy, hl'⟩ := Option.bind_eq_some_iff.mp hl'
      exact h i x y hx hy path l l' hl hl'

/-! ### Values -/

omit [BEq τ] [BEq σ] in
/-- A value that is no list has nothing below it. -/
theorem valueAt_leaf {x y : NestedTensors τ σ} {path : List Nat} (h : valueAt x path = some y)
    (hleaf : ∀ l, x ≠ .list l) : path = [] ∧ y = x := by
  cases path with
  | nil =>
    cases h
    exact ⟨rfl, rfl⟩
  | cons i path =>
    cases x with
    | list l => exact absurd rfl (hleaf l)
    | tensor t => cases h
    | scalar s => cases h

/-- Two values of which one is a leaf clash at once or not at all. -/
theorem clash_leaf_iff {a b : NestedTensors τ σ} (h : (∀ l, a ≠ .list l) ∨ ∀ l, b ≠ .list l) :
    Clash a b ↔ ¬SameHead a b := by
  constructor
  · rintro ⟨path, x, y, hx, hy, hne⟩
    have hnil : path = [] := h.elim (fun ha => (valueAt_leaf hx ha).1) fun hb => (valueAt_leaf hy hb).1
    subst hnil
    cases hx
    cases hy
    exact hne
  · exact fun hne => ⟨[], a, b, rfl, rfl, hne⟩

omit [BEq τ] [BEq σ] in
theorem sizeOf_lt_of_getElem? {l : List (NestedTensors τ σ)} {i : Nat} {x : NestedTensors τ σ}
    (h : l[i]? = some x) : sizeOf x < sizeOf (NestedTensors.list l) := by
  have := List.sizeOf_lt_of_mem (List.mem_of_getElem? h)
  simp only [NestedTensors.list.sizeOf_spec]
  omega

/-- The comparison finds the places that are not the same. -/
theorem nestedTensorsEqual_iff (a b : NestedTensors τ σ) :
    nestedTensorsEqual a b = true ↔ ¬Clash a b := by
  cases a with
  | list l =>
    cases b with
    | list l' =>
      simp only [nestedTensorsEqual, allEqual_iff, clash_list_iff, not_exists, not_and]
      constructor
      · exact fun h i x y hx hy => (nestedTensorsEqual_iff x y).mp (h i x y hx hy)
      · exact fun h i x y hx hy => (nestedTensorsEqual_iff x y).mpr (h i x y hx hy)
    | _ =>
      rw [clash_leaf_iff (.inr (by simp)), not_not]
      simp only [nestedTensorsEqual, Bool.false_eq_true, false_iff]
      exact fun h => by cases h
  | _ =>
    rw [clash_leaf_iff (.inl (by simp)), not_not]
    cases b <;> simp only [nestedTensorsEqual, Bool.false_eq_true, false_iff]
    all_goals first
      | exact ⟨.tensor, fun h => by cases h; assumption⟩
      | exact ⟨.scalar, fun h => by cases h; assumption⟩
      | exact fun h => by cases h
termination_by sizeOf a
decreasing_by all_goals exact sizeOf_lt_of_getElem? hx

omit [BEq τ] [BEq σ] in
theorem sameLengths_leaf {a b : NestedTensors τ σ}
    (h : (∀ l, a ≠ .list l) ∨ ∀ l, b ≠ .list l) : SameLengths a b := by
  intro path l l' hl hl'
  rcases h with h | h
  · exact absurd (valueAt_leaf hl h).2.symm (h l)
  · exact absurd (valueAt_leaf hl' h).2.symm (h l')

/-- Structural equality looks at the lengths as well. -/
theorem same_iff (a b : NestedTensors τ σ) : Same a b ↔ ¬Clash a b ∧ SameLengths a b := by
  cases a with
  | list l =>
    cases b with
    | list l' =>
      simp only [Same, sameAll_iff, clash_list_iff, sameLengths_list_iff, not_exists, not_and]
      constructor
      · rintro ⟨hlen, h⟩
        exact ⟨fun i x y hx hy => ((same_iff x y).mp (h i x y hx hy)).1, hlen,
          fun i x y hx hy => ((same_iff x y).mp (h i x y hx hy)).2⟩
      · rintro ⟨hclash, hlen, hlengths⟩
        exact ⟨hlen, fun i x y hx hy =>
          (same_iff x y).mpr ⟨hclash i x y hx hy, hlengths i x y hx hy⟩⟩
    | _ =>
      rw [clash_leaf_iff (.inr (by simp)), not_not]
      simp only [Same, false_iff, not_and]
      exact fun h => by cases h
  | _ =>
    rw [clash_leaf_iff (.inl (by simp)), not_not, and_iff_left (sameLengths_leaf (.inl (by simp)))]
    cases b <;> simp only [Same, false_iff]
    all_goals first
      | exact ⟨.tensor, fun h => by cases h; assumption⟩
      | exact ⟨.scalar, fun h => by cases h; assumption⟩
      | exact fun h => by cases h
termination_by sizeOf a
decreasing_by all_goals exact sizeOf_lt_of_getElem? hx

/-! ### Dictionaries -/

section Dictionaries
variable {a b : PyDict String (NestedTensors τ σ)}

/-- The same keys, with the same values. -/
def SameItems (a b : PyDict String (NestedTensors τ σ)) : Prop :=
  (∀ k, a.contains k = b.contains k) ∧
    ∀ k x y, a.get? k = some x → b.get? k = some y → Same x y

/-- A key of the first dictionary is missing in the second, or has a value that clashes. -/
def ItemClash (a b : PyDict String (NestedTensors τ σ)) : Prop :=
  ∃ k x, a.get? k = some x ∧ ∀ y, b.get? k = some y → Clash x y

/-- The second dictionary has no other keys, and the lists in the values have equal lengths. -/
def SameSizes (a b : PyDict String (NestedTensors τ σ)) : Prop :=
  (∀ k, b.contains k = true → a.contains k = true) ∧
    ∀ k x y, a.get? k = some x → b.get? k = some y → SameLengths x y

theorem batchedTensorsEqual_iff : batchedTensorsEqual a b = true ↔ ¬ItemClash a b := by
  unfold batchedTensorsEqual ItemClash
  simp only [List.all_eq_true, not_exists, not_and, not_forall]
  constructor
  · intro h k x hx
    have hitem := h (k, x) ((PyDict.mem_entries_iff a k x).mpr hx)
    dsimp only at hitem
    cases hy : b.get? k with
    | none => simp [hy] at hitem
    | some y =>
      rw [hy] at hitem
      exact ⟨y, rfl, (nestedTensorsEqual_iff x y).mp hitem⟩
  · rintro h ⟨k, x⟩ hmem
    obtain ⟨y, hy, hne⟩ := h k x ((PyDict.mem_entries_iff a k x).mp hmem)
    dsimp only
    rw [hy]
    exact (nestedTensorsEqual_iff x y).mpr hne

theorem sameItems_iff : SameItems a b ↔ ¬ItemClash a b ∧ SameSizes a b := by
  unfold SameItems ItemClash SameSizes
  simp only [PyDict.contains, not_exists, not_and, not_forall]
  constructor
  · rintro ⟨hkeys, hsame⟩
    refine ⟨fun k x hx => ?_, fun k hk => hkeys k ▸ hk,
      fun k x y hx hy => ((same_iff x y).mp (hsame k x y hx hy)).2⟩
    obtain ⟨y, hy⟩ := Option.isSome_iff_exists.mp ((hkeys k).symm.trans (by rw [hx]; rfl))
    exact ⟨y, hy, ((same_iff x y).mp (hsame k x y hx hy)).1⟩
  · rintro ⟨hclash, hkeys, hlengths⟩
    refine ⟨fun k => ?_, fun k x y hx hy => ?_⟩
    · rw [Bool.eq_iff_iff]
      refine ⟨fun hk => ?_, hkeys k⟩
      obtain ⟨x, hx⟩ := Option.isSome_iff_exists.mp hk
      obtain ⟨y, hy, -⟩ := hclash k x hx
      rw [hy]
      rfl
    · obtain ⟨y', hy', hne⟩ := hclash k x hx
      cases hy.symm.trans hy'
      exact (same_iff x y).mpr ⟨hne, hlengths k x y hx hy⟩

end Dictionaries

end Vllm.Proofs.Multimodal
