import Vllm.Lib.InPlace
import Vllm.Lib.MapM
import Vllm.Proofs.Worker.BatchRun
import Vllm.V1.Attention.Backends.Utils

/-!
# `Vllm.Proofs.Attention.BatchReorder`: the rows change places along the cycles of a permutation

`reorder_batch_to_split_decodes_and_prefills` writes down in a dict where each row belongs and
swaps along its cycles, with the dict edited in the loops. The invariant is the one of
`Vllm.Lib.InPlace`: each row has a request that belongs in the row `dest` says. The dict agrees with
`dest` on the rows that the loop has yet to begin with; the entry of the row it has begun with is
stale.

* `Reordering`: the batch in the middle of the swaps.
* `Reordering.swap`: one call of `swap_states`.
* `swapCycle_spec`, `swapCycles_spec`: the two loops end, after at most as many rounds as there are
  rows.
-/

set_option autoImplicit false

namespace Vllm.Proofs.Attention

open Vllm.Lib Vllm.V1.Worker Vllm.V1.Attention Vllm.Proofs.Worker List

variable {ε γ : Type} {b b' : InputBatch ε γ} {n src dst fuel : Nat}

/-! ### One swap -/

/-- The request of a row, and how many of its tokens are computed. -/
def rowKey (b : InputBatch ε γ) (k : Nat) : Option String × Nat :=
  (b.reqIds[k]?.getD none, b.numComputedTokensCpu k)

theorem getItem_ok {α : Type} {l : List α} {i : Nat} (h : i < l.length) :
    getItem l i = .ok l[i] := by
  unfold getItem
  rw [getElem?_eq_getElem h]

theorem swapItems_ok {α : Type} {l : List α} {i j : Nat} (hi : i < l.length) (hj : j < l.length) :
    ∃ l', swapItems l i j = .ok l' := by
  unfold swapItems
  rw [getItem_ok hi, except_ok_bind, getItem_ok hj, except_ok_bind]
  exact ⟨_, rfl⟩

/-- Two rows with requests can be swapped. -/
theorem swapStates_ok (hids : IdsOk b) (hfull : FullOk b) {i j : Nat} (hi : i < b.reqIds.length)
    (hj : j < b.reqIds.length) : ∃ b', b.swapStates i j = .ok b' := by
  obtain ⟨id1, hid1⟩ := hfull.live i (hfull.length ▸ hi)
  obtain ⟨id2, hid2⟩ := hfull.live j (hfull.length ▸ hj)
  have houtputs := hids.outputs_length
  have hspec := hids.spec_length
  obtain ⟨reqIds, hreqIds⟩ := swapItems_ok hi hj
  obtain ⟨outputs, houtputs⟩ := swapItems_ok (l := b.reqOutputTokenIds) (i := i) (j := j)
    (by omega) (by omega)
  obtain ⟨spec, hspec⟩ := swapItems_ok (l := b.specTokenIds) (i := i) (j := j)
    (by omega) (by omega)
  unfold InputBatch.swapStates
  rw [getItem_eq_ok_iff.mpr hid1, except_ok_bind, getItem_eq_ok_iff.mpr hid2, except_ok_bind,
    hreqIds, except_ok_bind, houtputs, except_ok_bind, hspec, except_ok_bind]
  dsimp only
  rw [(hids.inverse id1 i).mpr hid1, (hids.inverse id2 j).mpr hid2]
  exact ⟨_, rfl⟩

theorem numComputedTokensCpu_swapStates {i j : Nat} (h : b.swapStates i j = .ok b') :
    b'.numComputedTokensCpu = swapEntries b.numComputedTokensCpu i j := by
  unfold InputBatch.swapStates at h
  obtain ⟨old1, -, h⟩ := bind_ok h
  obtain ⟨old2, -, h⟩ := bind_ok h
  obtain ⟨reqIds, -, h⟩ := bind_ok h
  obtain ⟨outputs, -, h⟩ := bind_ok h
  obtain ⟨spec, -, h⟩ := bind_ok h
  split at h
  · split at h
    · cases h
      split <;> rfl
    · cases h
  · cases h

theorem swapIndex_eq_swap (i j k : Nat) : swapIndex i j k = Equiv.swap i j k := by
  rw [Equiv.swap_apply_def]
  unfold swapIndex
  split <;> split <;> omega

theorem rowKey_swapStates {i j : Nat} (h : b.swapStates i j = .ok b') (k : Nat) :
    rowKey b' k = rowKey b (Equiv.swap i j k) := by
  unfold rowKey
  rw [numComputedTokensCpu_swapStates h, swapEntries_apply, (swapStates_spec h).reqIds,
    swapIndex_eq_swap]

/-- The batch in the middle of the swaps: `goal` is what the rows have in the end. -/
structure Reordering (goal : Nat → Option String × Nat) (n : Nat) (dest : Nat → Nat)
    (b : InputBatch ε γ) : Prop where
  ids : IdsOk b
  full : FullOk b
  length : b.reqIds.length = n
  pending : Pending goal (rowKey b) n dest

variable {goal : Nat → Option String × Nat} {dest : Nat → Nat}

/-- One call of `swap_states`. -/
theorem Reordering.swap (h : Reordering goal n dest b) (hsrc : src < n) :
    ∃ b', b.swapStates src (dest src) = .ok b' ∧ Reordering goal n (sendHome dest src) b' := by
  have hdst := h.pending.dest_lt hsrc
  obtain ⟨b', hswap⟩ := swapStates_ok h.ids h.full (h.length ▸ hsrc) (h.length ▸ hdst)
  have hswapped := swapStates_spec hswap
  refine ⟨b', hswap, ?_⟩
  exact {
    ids := hswapped.idsOk h.ids
    full := hswapped.fullOk h.full
    length := hswapped.length.trans h.length
    pending := h.pending.swap hsrc (rowKey_swapStates hswap) }

/-! ### The loops -/

/-- The swaps are carried out one after the other. -/
def swapAll (swaps : List (Nat × Nat)) (b : InputBatch ε γ) : Except PyError (InputBatch ε γ) :=
  swaps.foldlM (fun b p => b.swapStates p.1 p.2) b

/-- Swaps of two different rows of the batch. -/
def RealSwaps (n : Nat) (swaps : List (Nat × Nat)) : Prop :=
  ∀ p ∈ swaps, p.1 < n ∧ p.2 < n ∧ p.1 ≠ p.2

theorem swapAll_append {swaps swaps' : List (Nat × Nat)} {b1 b2 : InputBatch ε γ}
    (h : swapAll swaps b = .ok b1) (h' : swapAll swaps' b1 = .ok b2) :
    swapAll (swaps ++ swaps') b = .ok b2 := by
  unfold swapAll at *
  rw [foldlM_append, h, except_ok_bind, h']

/-- `src_dest_map.get(k, k)`. -/
def destOf (m : PyDict Nat Nat) (k : Nat) : Nat := (m.get? k).getD k

/-- What the dict says of the rows `srcs`, with which the loop has yet to begin, while it may have
begun with `src`. -/
structure Agrees (m : PyDict Nat Nat) (srcs : List Nat) (src : Nat) (dest : Nat → Nat) : Prop where
  entry : ∀ k ∈ srcs, m.get? k = some (dest k)
  astray : ∀ k, dest k ≠ k → k = src ∨ k ∈ srcs

variable {srcs : List Nat} {m : PyDict Nat Nat}

/-- The entry of the place where the swap has brought a request says that it is at home. -/
theorem Agrees.insert (h : Agrees m srcs src dest) (hnot : src ∉ srcs) :
    Agrees (m.insert (dest src) (dest src)) srcs src (sendHome dest src) where
  entry k hk := by
    have hne : k ≠ src := fun heq => hnot (heq ▸ hk)
    rw [PyDict.get?_insert]
    split
    · rename_i hdst
      rw [hdst, sendHome_dest]
    · rw [sendHome_of_ne hne ‹_›]
      exact h.entry k hk
  astray k hk := by
    by_cases hsrc : k = src
    · exact .inl hsrc
    · have hdst : k ≠ dest src := by
        rintro rfl
        exact hk sendHome_dest
      rw [sendHome_of_ne hsrc hdst] at hk
      exact h.astray k hk

/-- The loop `while src != dst` follows the cycle of `src` until its own request is at home. -/
theorem swapCycle_spec (h : Reordering goal n dest b) (hagrees : Agrees m srcs src dest)
    (hnot : src ∉ srcs) (hsrc : src < n) (hfuel : (astray n dest).card ≤ fuel) :
    ∃ m' b' swaps dest', swapCycle src fuel (dest src) m b = .ok (some (m', b')) ∧
      swapAll swaps b = .ok b' ∧ RealSwaps n swaps ∧ (swaps = [] → dest' = dest) ∧
      m'.keys = m.keys ∧ Reordering goal n dest' b' ∧ Agrees m' srcs src dest' ∧
      dest' src = src := by
  induction fuel generalizing dest m b with
  | zero =>
    have hhome : dest src = src := by
      by_contra hne
      have hmem := mem_astray.mpr ⟨hsrc, hne⟩
      have := Finset.card_pos.mpr ⟨src, hmem⟩
      omega
    refine ⟨m, b, [], dest, ?_, rfl, forall_mem_nil _, fun _ => rfl, rfl, h,
      hagrees, hhome⟩
    unfold swapCycle
    rw [if_pos hhome.symm]
  | succ fuel ih =>
    by_cases hhome : dest src = src
    · refine ⟨m, b, [], dest, ?_, rfl, forall_mem_nil _, fun _ => rfl, rfl, h,
        hagrees, hhome⟩
      unfold swapCycle
      rw [if_pos hhome.symm]
    · -- The place where the request belongs is itself not in order, so the dict has its entry.
      have hdst : dest (dest src) ≠ dest src := fun heq => hhome (h.pending.injective heq)
      have hmem : dest src ∈ srcs := (hagrees.astray _ hdst).resolve_left hhome
      have hget := hagrees.entry _ hmem
      have hkeys : (m.insert (dest src) (dest src)).keys = m.keys := by
        rw [PyDict.keys_insert, if_pos (PyDict.mem_keys_of_get? hget)]
      obtain ⟨b1, hswap, hreordering⟩ := h.swap hsrc
      have hlt := h.pending.card_astray_lt hsrc hhome
      obtain ⟨m', b', swaps, dest', hcycle, hall, hreal, -, hkeys', hrest⟩ :=
        ih hreordering (hagrees.insert hnot) (by omega)
      rw [sendHome_self] at hcycle
      refine ⟨m', b', (src, dest src) :: swaps, dest', ?_, ?_, ?_, fun hnil => absurd hnil (cons_ne_nil _ _),
        hkeys'.trans hkeys, hrest⟩
      · unfold swapCycle
        rw [if_neg (Ne.symm hhome)]
        dsimp only
        rw [hswap, except_ok_bind, hget, Option.getD_some, hcycle]
      · unfold swapAll at hall ⊢
        rw [foldlM_cons, hswap, except_ok_bind, hall]
      · refine forall_mem_cons.mpr ⟨⟨hsrc, ?_, Ne.symm hhome⟩, hreal⟩
        exact h.pending.dest_lt hsrc

/-- The loop over the dict puts every row in order. -/
theorem swapCycles_spec (h : Reordering goal n dest b)
    (hdest : ∀ k ∈ srcs, m.get? k = some (dest k)) (hastray : ∀ k, dest k ≠ k → k ∈ srcs)
    (hnodup : srcs.Nodup) (hlt : ∀ k ∈ srcs, k < n) (hfuel : n ≤ fuel) :
    ∃ b' swaps, swapCycles fuel srcs m b = .ok (some b') ∧ swapAll swaps b = .ok b' ∧
      RealSwaps n swaps ∧ (swaps = [] → dest = id) ∧ Reordering goal n id b' := by
  induction srcs generalizing dest m b with
  | nil =>
    have hid : dest = id := by
      funext k
      by_contra hne
      exact absurd (hastray k hne) not_mem_nil
    subst hid
    exact ⟨b, [], rfl, rfl, forall_mem_nil _, fun _ => rfl, h⟩
  | cons src srcs ih =>
    rw [nodup_cons] at hnodup
    have hget := hdest src mem_cons_self
    have hagrees : Agrees m srcs src dest :=
      { entry := fun k hk => hdest k (mem_cons_of_mem _ hk)
        astray := fun k hk => mem_cons.mp (hastray k hk) }
    obtain ⟨m', b1, swaps, dest', hcycle, hall, hreal, hne, hkeys, hreordering, hagrees', hhome⟩ :=
      swapCycle_spec h hagrees hnodup.1 (hlt src mem_cons_self)
        ((card_astray_le n dest).trans hfuel)
    have hsize : m'.size = m.size := by
      rw [PyDict.size_eq_length_keys, PyDict.size_eq_length_keys, hkeys]
    have hastray' : ∀ k, dest' k ≠ k → k ∈ srcs := by
      intro k hk
      refine (hagrees'.astray k hk).resolve_left ?_
      rintro rfl
      exact hk hhome
    obtain ⟨b', swaps', hrest, hall', hreal', hne', hdone⟩ := ih hreordering hagrees'.entry hastray'
      hnodup.2 (fun k hk => hlt k (mem_cons_of_mem _ hk))
    refine ⟨b', swaps ++ swaps', ?_, swapAll_append hall hall', ?_, ?_, hdone⟩
    · unfold swapCycles
      rw [hget]
      dsimp only
      rw [hcycle, except_ok_bind]
      dsimp only
      rw [if_neg (not_not.mpr hsize), hrest]
    · exact forall_mem_append.mpr ⟨hreal, hreal'⟩
    · intro hnil
      obtain ⟨hnil, hnil'⟩ := append_eq_nil_iff.mp hnil
      rw [← hne hnil, hne' hnil']

end Vllm.Proofs.Attention
