import Mathlib.Init

/-!
# `Vllm.Lib.While`: `while` loops that may raise or never end

The body of the loop changes a state and may raise. `whileLoop` runs at most as many rounds as
it has fuel and is `none` when that was not enough: a loop ends when some fuel is enough, and
what it returns does not depend on how much there is.

* `whileLoop_mono`: more fuel does not change the result.
* `whileLoop_variant`: the rule with an invariant and a variant: the loop ends.
* `whileLoop_stuck`: a round that changes nothing is repeated for ever.
-/

set_option autoImplicit false

namespace Vllm.Lib

variable {σ ε : Type} (cond : σ → Bool) (body : σ → Except ε Unit × σ)

/-- `while cond: body`. -/
def whileLoop : Nat → σ → Option (Except ε Unit × σ)
  | 0, s => if cond s then none else some (.ok (), s)
  | fuel + 1, s =>
    if cond s then
      match body s with
      | (.error e, s) => some (.error e, s)
      | (.ok (), s) => whileLoop fuel s
    else some (.ok (), s)

variable {cond body} {s : σ}

theorem whileLoop_of_not (fuel : Nat) (h : cond s = false) :
    whileLoop cond body fuel s = some (.ok (), s) := by
  cases fuel <;> simp [whileLoop, h]

theorem whileLoop_mono {fuel : Nat} {x : Except ε Unit × σ}
    (h : whileLoop cond body fuel s = some x) (more : Nat) :
    whileLoop cond body (fuel + more) s = some x := by
  induction fuel generalizing s with
  | zero =>
    cases hcond : cond s with
    | true => simp [whileLoop, hcond] at h
    | false =>
      rw [whileLoop_of_not 0 hcond] at h
      rw [whileLoop_of_not _ hcond, h]
  | succ fuel ih =>
    rw [Nat.add_right_comm]
    unfold whileLoop at h ⊢
    split at h
    · rename_i hcond
      rw [if_pos hcond]
      split at h
      · exact h
      · exact ih h
    · rename_i hcond
      rw [if_neg hcond]
      exact h

/-- A loop that ends has one result. -/
theorem whileLoop_unique {fuel fuel' : Nat} {x x' : Except ε Unit × σ}
    (h : whileLoop cond body fuel s = some x) (h' : whileLoop cond body fuel' s = some x') :
    x = x' := by
  have hmore := whileLoop_mono h fuel'
  have hmore' := whileLoop_mono h' fuel
  rw [Nat.add_comm, hmore] at hmore'
  exact Option.some.inj hmore'

/-- A loop whose rounds keep an invariant and decrease a number ends. It leaves the invariant
and a condition that does not hold, or one of its rounds raises. -/
theorem whileLoop_variant (Inv : σ → Prop) (Raised : ε → σ → Prop) (variant : σ → Nat)
    (hround : ∀ s, Inv s → cond s = true →
      (∃ s', body s = (.ok (), s') ∧ Inv s' ∧ variant s' < variant s) ∨
      ∃ e s', body s = (.error e, s') ∧ Raised e s')
    (hs : Inv s) : ∃ fuel,
      (∃ s', whileLoop cond body fuel s = some (.ok (), s') ∧ Inv s' ∧ cond s' = false) ∨
      ∃ e s', whileLoop cond body fuel s = some (.error e, s') ∧ Raised e s' := by
  -- Strong induction on the variant.
  induction hn : variant s using Nat.strongRecOn generalizing s with
  | ind n ih =>
    cases hcond : cond s with
    | false => exact ⟨0, .inl ⟨s, whileLoop_of_not 0 hcond, hs, hcond⟩⟩
    | true =>
      rcases hround s hs hcond with ⟨s1, hbody, hs1, hlt⟩ | ⟨e, s1, hbody, hraised⟩
      · obtain ⟨fuel, hrest⟩ := ih (variant s1) (hn ▸ hlt) hs1 rfl
        have hunfold : whileLoop cond body (fuel + 1) s = whileLoop cond body fuel s1 := by
          simp [whileLoop, hcond, hbody]
        refine ⟨fuel + 1, ?_⟩
        rw [hunfold]
        exact hrest
      · refine ⟨1, .inr ⟨e, s1, ?_, hraised⟩⟩
        simp [whileLoop, hcond, hbody]

/-- A round that changes nothing is repeated for ever. -/
theorem whileLoop_stuck (hcond : cond s = true) (hbody : body s = (.ok (), s)) (fuel : Nat) :
    whileLoop cond body fuel s = none := by
  induction fuel with
  | zero => simp [whileLoop, hcond]
  | succ fuel ih => simp [whileLoop, hcond, hbody, ih]

end Vllm.Lib
