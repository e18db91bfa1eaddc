import Mathlib.Logic.Equiv.Basic
import Mathlib.Data.Finset.Card
import Mathlib.Data.Finset.Range

/-!
# `Vllm.Lib.InPlace`: a permutation is carried out in place, by swaps along its cycles

Every position of an array holds something that belongs at some position. To put the cycle of a
position `src` in order, one swaps `src` with the place where its entry belongs, and goes on with
the entry that has come to `src`.

* `Pending`: each entry is at home where `dest` says.
* `Pending.swap`: after a swap of `src` with `dest src`, that place is in order, and what came to
  `src` belongs where the entry of that place belonged.
* `astray`: the positions that are not in order. A swap leaves fewer of them.
* `Moves`: the destinations are given by two lists.
-/

set_option autoImplicit false

namespace Vllm.Lib

variable {α : Type} {goal content : Nat → α} {dest : Nat → Nat} {n src : Nat}

/-- What position `k` holds belongs at `dest k`. Positions from `n` on are in order. -/
structure Pending (goal content : Nat → α) (n : Nat) (dest : Nat → Nat) : Prop where
  holds : ∀ k, content k = goal (dest k)
  injective : Function.Injective dest
  fixed : ∀ k, n ≤ k → dest k = k

/-- The positions whose entry is not at home. -/
def astray (n : Nat) (dest : Nat → Nat) : Finset Nat := {k ∈ Finset.range n | dest k ≠ k}

theorem mem_astray {k : Nat} : k ∈ astray n dest ↔ k < n ∧ dest k ≠ k := by
  rw [astray, Finset.mem_filter, Finset.mem_range]

/-- The next destinations, when the entry at `src` has gone home. -/
def sendHome (dest : Nat → Nat) (src : Nat) : Nat → Nat :=
  dest ∘ Equiv.swap src (dest src)

theorem sendHome_self : sendHome dest src src = dest (dest src) := by
  rw [sendHome, Function.comp_apply, Equiv.swap_apply_left]

theorem sendHome_dest : sendHome dest src (dest src) = dest src := by
  rw [sendHome, Function.comp_apply, Equiv.swap_apply_right]

theorem sendHome_of_ne {k : Nat} (hsrc : k ≠ src) (hdst : k ≠ dest src) :
    sendHome dest src k = dest k := by
  rw [sendHome, Function.comp_apply, Equiv.swap_apply_of_ne_of_ne hsrc hdst]

namespace Pending

/-- An entry that is not at home belongs below `n`. -/
theorem dest_lt (h : Pending goal content n dest) {k : Nat} (hk : k < n) : dest k < n := by
  by_contra hge
  have hfix := h.fixed (dest k) (Nat.le_of_not_lt hge)
  have := h.injective hfix
  omega

/-- One swap. -/
theorem swap (h : Pending goal content n dest) (hsrc : src < n) {content' : Nat → α}
    (hcontent : ∀ k, content' k = content (Equiv.swap src (dest src) k)) :
    Pending goal content' n (sendHome dest src) where
  holds k := by rw [hcontent, h.holds, sendHome, Function.comp_apply]
  injective := h.injective.comp (Equiv.injective _)
  fixed k hk := by
    have hdst := h.dest_lt hsrc
    rw [sendHome_of_ne (by omega) (by omega)]
    exact h.fixed k hk

/-- A swap leaves fewer positions to put in order: none is new, and the place where the entry
belongs is one of them no more. -/
theorem card_astray_lt (h : Pending goal content n dest) (hsrc : src < n) (hne : dest src ≠ src) :
    (astray n (sendHome dest src)).card < (astray n dest).card := by
  apply Finset.card_lt_card
  refine Finset.ssubset_iff_of_subset ?_ |>.mpr ⟨dest src, ?_, ?_⟩
  · intro k hk
    obtain ⟨hlt, hk⟩ := mem_astray.mp hk
    refine mem_astray.mpr ⟨hlt, ?_⟩
    by_cases hksrc : k = src
    · rw [hksrc]
      exact hne
    · have hkdst : k ≠ dest src := by
        rintro rfl
        exact hk sendHome_dest
      rwa [sendHome_of_ne hksrc hkdst] at hk
  · exact mem_astray.mpr ⟨h.dest_lt hsrc, fun heq => hne (h.injective heq)⟩
  · intro hmem
    exact (mem_astray.mp hmem).2 sendHome_dest

end Pending

/-- Where `srcs` go, in the order of `dests`. -/
structure Moves (srcs dests : List Nat) (dest : Nat → Nat) : Prop where
  perm : srcs.Perm dests
  nodup : dests.Nodup
  moved : ∀ (i : Nat) s d, srcs[i]? = some s → dests[i]? = some d → dest s = d
  others : ∀ k, k ∉ srcs → dest k = k

section Moves
variable {srcs dests : List Nat}

theorem Moves.mem_dests (h : Moves srcs dests dest) {s : Nat} (hs : s ∈ srcs) :
    ∃ i : Nat, srcs[i]? = some s ∧ dests[i]? = some (dest s) := by
  obtain ⟨i, hi⟩ := List.mem_iff_getElem?.mp hs
  obtain ⟨hlt, -⟩ := List.getElem?_eq_some_iff.mp hi
  rw [h.perm.length_eq] at hlt
  have hget := List.getElem?_eq_getElem hlt
  refine ⟨i, hi, ?_⟩
  rw [h.moved i s _ hi hget, hget]

theorem Moves.injective (h : Moves srcs dests dest) : Function.Injective dest := by
  -- What is not moved is not one of the destinations either.
  have hapart : ∀ {a c}, a ∈ srcs → c ∉ srcs → dest a ≠ dest c := by
    intro a c ha hc heq
    obtain ⟨i, -, hi⟩ := h.mem_dests ha
    rw [heq, h.others c hc] at hi
    exact hc (h.perm.mem_iff.mpr (List.mem_of_getElem? hi))
  intro a c heq
  by_cases ha : a ∈ srcs
  · by_cases hc : c ∈ srcs
    · obtain ⟨i, hi, hdi⟩ := h.mem_dests ha
      obtain ⟨j, hj, hdj⟩ := h.mem_dests hc
      rw [← heq, ← hdi] at hdj
      have hlt := (List.getElem?_eq_some_iff.mp hdi).1
      have hij := (List.getElem?_inj hlt h.nodup).mp hdj.symm
      rw [hij] at hi
      exact Option.some.inj (hi.symm.trans hj)
    · exact absurd heq (hapart ha hc)
  · by_cases hc : c ∈ srcs
    · exact absurd heq.symm (hapart hc ha)
    · rwa [h.others a ha, h.others c hc] at heq

theorem Moves.surjective (h : Moves srcs dests dest) : Function.Surjective dest := by
  intro k
  by_cases hk : k ∈ dests
  · obtain ⟨i, hi⟩ := List.mem_iff_getElem?.mp hk
    obtain ⟨hlt, -⟩ := List.getElem?_eq_some_iff.mp hi
    rw [← h.perm.length_eq] at hlt
    exact ⟨_, h.moved i _ k (List.getElem?_eq_getElem hlt) hi⟩
  · exact ⟨k, h.others k fun hs => hk (h.perm.mem_iff.mp hs)⟩

/-- Before the first swap. -/
theorem Moves.pending (h : Moves srcs dests dest) (hlt : ∀ k ∈ srcs, k < n) (content : Nat → α) :
    ∃ goal, Pending goal content n dest := by
  have hinv := Function.leftInverse_invFun h.injective
  refine ⟨content ∘ Function.invFun dest, ?_⟩
  exact {
    holds := fun k => (congrArg content (hinv k)).symm
    injective := h.injective
    fixed := fun k hk => h.others k fun hs => Nat.not_lt.mpr hk (hlt k hs) }

end Moves

theorem card_astray_le (n : Nat) (dest : Nat → Nat) : (astray n dest).card ≤ n := by
  have := Finset.card_filter_le (Finset.range n) fun k => dest k ≠ k
  rwa [Finset.card_range] at this

end Vllm.Lib
