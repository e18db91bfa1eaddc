import Vllm.V1.Core.BlockHashList

/-!
# `Vllm.Proofs.Core.BlockHashList`: when the coarser block hashes act as a list

An index is scaled before it is looked up. A negative one then counts from the end of the fine
hashes, where the hashes of an incomplete tail are, and not from the end of the complete ones.

* `getItem_natCast`, `getItem_neg`: an item, by its index.
* `acts_as_list_iff`: when all indices agree with those of the list of the combinations.
-/

set_option autoImplicit false

namespace Vllm.Proofs.Core

open Vllm.Lib Vllm.V1 Vllm.V1.Core List

/-- The combination of `k` hashes from the index `b` on. -/
def combined (hashes : List BlockHash) (k b : Nat) : BlockHash := ((hashes.drop b).take k).flatten

/-- The list of the combinations, without an incomplete tail. -/
def coarse (hashes : List BlockHash) (k : Nat) : List BlockHash :=
  (List.range (hashes.length / k)).map fun i => combined hashes k (i * k)

/-- Length, iteration, items and slices are those of the list of the combinations. -/
structure ActsAsList (l : BlockHashListWithBlockSize) : Prop where
  len : l.len = (coarse l.blockHashes l.scaleFactor).length
  iter : l.iter = .ok (coarse l.blockHashes l.scaleFactor)
  item : ∀ idx, l.getItem idx = pyItem (coarse l.blockHashes l.scaleFactor) idx
  slice : ∀ s, l.getSlice s = pySlice (coarse l.blockHashes l.scaleFactor) s

/-! ### Items -/

section Items
variable {α : Type} {x : List α} {idx : Int}

theorem pyItem_neg {j : Nat} {a : α} (hneg : idx < 0) (hj : idx + x.length = j)
    (h : x[j]? = some a) : pyItem x idx = .ok a := by
  unfold pyItem itemAt?
  rw [if_neg (by omega), if_pos (by omega), hj, Int.toNat_natCast, h]
  rfl

theorem pyItem_error (h : (x.length : Int) ≤ idx ∨ idx + x.length < 0) :
    pyItem x idx = .error (.indexError "list index out of range") := by
  unfold pyItem itemAt?
  by_cases hpos : 0 ≤ idx
  · rw [if_pos hpos, getElem?_eq_none (by omega)]
    rfl
  · rw [if_neg hpos, if_neg (by omega)]
    rfl

theorem pyItem_error_eq {e : PyError} (h : pyItem x idx = .error e) :
    e = .indexError "list index out of range" := by
  unfold pyItem at h
  cases hget : itemAt? x idx with
  | none =>
    rw [hget] at h
    cases h
    rfl
  | some a =>
    rw [hget] at h
    cases h

end Items

section Combined
variable {hashes : List BlockHash} {k : Nat} {idx : Int}

/-- The hashes that are looked up for an item stand one after another. -/
theorem getItem_of_items {b : Nat} (hb : b + k ≤ hashes.length)
    (hitem : ∀ i < k, ∀ y, hashes[b + i]? = some y → pyItem hashes (idx * k + i) = .ok y) :
    BlockHashListWithBlockSize.getItem ⟨hashes, k⟩ idx = .ok (combined hashes k b) := by
  have hrun : ((List.range k).map fun i : Nat => idx * k + i).mapM (pyItem hashes) =
      .ok ((hashes.drop b).take k) := by
    refine mapM_eq_ok_iff_getElem?.mpr ⟨?_, fun i z hz => ?_⟩
    · simp
      omega
    · rw [List.getElem?_map] at hz
      obtain ⟨i', hi', rfl⟩ := Option.map_eq_some_iff.mp hz
      obtain ⟨hi, rfl⟩ := List.getElem?_eq_some_iff.mp hi'
      rw [List.length_range] at hi
      have hget : hashes[b + i]? = some hashes[b + i] := List.getElem?_eq_getElem (by omega)
      refine ⟨_, by rw [List.getElem?_take_of_lt hi, List.getElem?_drop, hget], ?_⟩
      rw [List.getElem_range]
      exact hitem i hi _ hget
  unfold BlockHashListWithBlockSize.getItem
  dsimp only
  rw [hrun]
  rfl

theorem getItem_natCast {i : Nat} (hi : i < hashes.length / k) :
    BlockHashListWithBlockSize.getItem ⟨hashes, k⟩ i = .ok (combined hashes k (i * k)) := by
  have hfits : (i + 1) * k ≤ hashes.length := Nat.mul_le_of_le_div k (i + 1) _ hi
  rw [Nat.succ_mul] at hfits
  refine getItem_of_items hfits fun j _ y hy => ?_
  rw [← Int.natCast_mul, ← Int.natCast_add]
  exact pyItem_natCast hy

/-- A negative index counts from the end of the incomplete tail. -/
theorem getItem_neg {i : Nat} (hi : i < hashes.length / k) :
    BlockHashListWithBlockSize.getItem ⟨hashes, k⟩ (i - (hashes.length / k : Nat)) =
      .ok (combined hashes k (i * k + hashes.length % k)) := by
  have hfits : (i + 1) * k ≤ hashes.length / k * k := Nat.mul_le_mul_right k hi
  have hdiv := Nat.div_add_mod' hashes.length k
  rw [Nat.succ_mul] at hfits
  have hbase : ((i : Int) - (hashes.length / k : Nat)) * k =
      (i * k : Nat) - (hashes.length / k * k : Nat) := by
    rw [Int.sub_mul, Int.natCast_mul, Int.natCast_mul]
  refine getItem_of_items (by omega) fun j hj y hy => ?_
  rw [hbase]
  exact pyItem_neg (j := i * k + hashes.length % k + j) (by omega) (by omega) hy

theorem getItem_error (hk : 0 < k)
    (h : ((hashes.length / k : Nat) : Int) ≤ idx ∨ idx + (hashes.length / k : Nat) < 0) :
    BlockHashListWithBlockSize.getItem ⟨hashes, k⟩ idx =
      .error (.indexError "list index out of range") := by
  have hdiv := Nat.div_add_mod' hashes.length k
  have hmod := Nat.mod_lt hashes.length hk
  have hfail : ∃ z ∈ (List.range k).map (fun i : Nat => idx * k + i),
      pyItem hashes z = .error (.indexError "list index out of range") := by
    rcases h with h | h
    · -- The last of the hashes is missing.
      refine ⟨idx * k + (k - 1 : Nat), mem_map_of_mem (mem_range.mpr (by omega)),
        pyItem_error (.inl ?_)⟩
      have := Int.mul_le_mul_of_nonneg_right h (Int.natCast_nonneg k)
      rw [← Int.natCast_mul] at this
      omega
    · refine ⟨idx * k + (0 : Nat), mem_map_of_mem (mem_range.mpr hk),
        pyItem_error (.inr ?_)⟩
      have := Int.mul_le_mul_of_nonneg_right (Int.add_one_le_of_lt h) (Int.natCast_nonneg k)
      rw [Int.add_mul, Int.add_mul, ← Int.natCast_mul] at this
      omega
  unfold BlockHashListWithBlockSize.getItem
  dsimp only
  rw [mapM_eq_error hfail fun z _ e he => pyItem_error_eq he]
  rfl

/-! ### The list -/

theorem coarse_getElem? (i : Nat) : (coarse hashes k)[i]? =
    if i < hashes.length / k then some (combined hashes k (i * k)) else none := by
  unfold coarse
  rw [getElem?_map]
  split
  · rename_i hi
    rw [getElem?_range hi]
    rfl
  · rename_i hi
    rw [getElem?_eq_none (by rw [length_range]; omega)]
    rfl

theorem length_coarse : (coarse hashes k).length = hashes.length / k := by
  simp [coarse]

/-- The iteration yields the combinations in their order. -/
theorem iter_eq : BlockHashListWithBlockSize.iter ⟨hashes, k⟩ = .ok (coarse hashes k) :=
  mapM_eq_ok_map fun _ hi => getItem_natCast (mem_range.mp hi)

theorem indices_lt {n : Nat} {s : PySlice} {is : List Nat} (h : s.indices n = .ok is) :
    ∀ i ∈ is, i < n := by
  intro i hi
  unfold PySlice.indices at h
  dsimp only at h
  split at h
  · cases h
  · split at h
    · cases h
      exact mem_range.mp (mem_filter.mp hi).1
    · cases h
      exact mem_range.mp (mem_filter.mp (mem_reverse.mp hi)).1

theorem getSlice_eq (s : PySlice) :
    BlockHashListWithBlockSize.getSlice ⟨hashes, k⟩ s = pySlice (coarse hashes k) s := by
  unfold BlockHashListWithBlockSize.getSlice pySlice
  rw [length_coarse]
  show (s.indices (hashes.length / k) >>= _) = _
  cases hs : s.indices (hashes.length / k) with
  | error e => rfl
  | ok is =>
    rw [except_ok_bind, mapM_eq_ok_map fun i hi => getItem_natCast (indices_lt hs i hi)]
    have hsome : ∀ i ∈ is, (coarse hashes k)[i]? = some (combined hashes k (i * k)) := by
      intro i hi
      rw [coarse_getElem?, if_pos (indices_lt hs i hi)]
    have hmap : is.filterMap ((coarse hashes k)[·]?) = is.map fun i => combined hashes k (i * k) := by
      rw [filterMap_congr hsome]
      exact congrFun filterMap_eq_map' is
    exact congrArg Except.ok hmap.symm

theorem item_iff (hk : 0 < k) : (∀ idx, BlockHashListWithBlockSize.getItem ⟨hashes, k⟩ idx =
      pyItem (coarse hashes k) idx) ↔ ∀ i < hashes.length / k,
    combined hashes k (i * k + hashes.length % k) = combined hashes k (i * k) := by
  have hneg : ∀ i < hashes.length / k, pyItem (coarse hashes k) (i - (hashes.length / k : Nat)) =
      .ok (combined hashes k (i * k)) := by
    intro i hi
    refine pyItem_neg (j := i) (by omega) (by rw [length_coarse]; omega) ?_
    rw [coarse_getElem?, if_pos hi]
  constructor
  · intro h i hi
    have heq := h (i - (hashes.length / k : Nat))
    rw [getItem_neg hi, hneg i hi] at heq
    exact Except.ok.inj heq
  · intro h idx
    by_cases hout : ((hashes.length / k : Nat) : Int) ≤ idx ∨ idx + (hashes.length / k : Nat) < 0
    · rw [getItem_error hk hout, pyItem_error (by rw [length_coarse]; exact hout)]
    by_cases hpos : 0 ≤ idx
    · obtain ⟨i, rfl⟩ := Int.eq_ofNat_of_zero_le hpos
      have hi : i < hashes.length / k := by omega
      rw [getItem_natCast hi, pyItem_natCast (by rw [coarse_getElem?, if_pos hi])]
    · obtain ⟨i, hi⟩ := Int.eq_ofNat_of_zero_le (show 0 ≤ idx + (hashes.length / k : Nat) by omega)
      obtain rfl : idx = i - (hashes.length / k : Nat) := by omega
      have hlt : i < hashes.length / k := by omega
      rw [getItem_neg hlt, hneg i hlt, h i hlt]

/-- Hashes of one length can be read off from their combination. -/
theorem combined_inj {hashes' : List BlockHash} {d b : Nat}
    (hlen : ∀ h ∈ hashes ++ hashes', h.length = d) (hb : b + k ≤ hashes.length)
    (hb' : b + k ≤ hashes'.length) : combined hashes k b = combined hashes' k b ↔
      (hashes.drop b).take k = (hashes'.drop b).take k := by
  refine ⟨fun heq => ?_, fun heq => congrArg List.flatten heq⟩
  have hmem : ∀ {l : List BlockHash}, l ⊆ hashes ++ hashes' → ∀ h ∈ (l.drop b).take k,
      h.length = d :=
    fun hsub h hh => hlen h (hsub (mem_of_mem_drop (mem_of_mem_take hh)))
  refine eq_iff_flatten_eq.mpr ⟨heq, ?_⟩
  rw [map_congr_left (hmem (subset_append_left ..)),
    map_congr_left (hmem (subset_append_right ..)), map_const', map_const']
  congr 1
  simp
  omega

end Combined

/-- The coarser hashes act as a list exactly if the combinations that are shifted by the length of
the incomplete tail are the same. Two requests agree on a combination if they agree on its hashes. -/
theorem acts_as_list_iff {hashes : List BlockHash} {hashBlockSize targetBlockSize : Nat}
    {l : BlockHashListWithBlockSize}
    (h : BlockHashListWithBlockSize.init hashes hashBlockSize targetBlockSize = .ok l)
    (hhash : 0 < hashBlockSize) (htarget : 0 < targetBlockSize) :
    (ActsAsList l ↔ ∀ i < l.len,
      combined hashes l.scaleFactor (i * l.scaleFactor + hashes.length % l.scaleFactor) =
        combined hashes l.scaleFactor (i * l.scaleFactor)) ∧
    ∀ hashes' d, (∀ h ∈ hashes ++ hashes', h.length = d) → ∀ i x y,
      (coarse hashes l.scaleFactor)[i]? = some x → (coarse hashes' l.scaleFactor)[i]? = some y →
      (x = y ↔ (hashes.drop (i * l.scaleFactor)).take l.scaleFactor =
        (hashes'.drop (i * l.scaleFactor)).take l.scaleFactor) := by
  unfold BlockHashListWithBlockSize.init at h
  obtain ⟨_, hassert, h⟩ := bind_ok h
  cases h
  have hk : 0 < targetBlockSize / hashBlockSize := by
    have hdvd := Nat.dvd_of_mod_eq_zero (of_decide_eq_true (pyAssert_eq_ok_iff.mp hassert))
    exact Nat.div_pos (Nat.le_of_dvd htarget hdvd) hhash
  refine ⟨⟨fun hacts => (item_iff hk).mp hacts.item, fun hshift => ?_⟩, ?_⟩
  · exact ⟨length_coarse.symm, iter_eq, (item_iff hk).mpr hshift, getSlice_eq⟩
  · intro hashes' d hlen i x y hx hy
    rw [coarse_getElem?] at hx hy
    split at hx
    · rename_i hi
      split at hy
      · rename_i hi'
        cases hx
        cases hy
        have hfits := Nat.mul_le_of_le_div _ (i + 1) _ hi
        have hfits' := Nat.mul_le_of_le_div _ (i + 1) _ hi'
        rw [Nat.succ_mul] at hfits hfits'
        exact combined_inj hlen hfits hfits'
      · cases hy
    · cases hx

/-- Three hashes at twice the block size: the last combination is that of the first two. -/
theorem last_of_three_hashes : ∃ l, BlockHashListWithBlockSize.init [[1], [2], [3]] 16 32 = .ok l ∧
    l.getItem (-1) = .ok [2, 3] ∧ pyItem (coarse l.blockHashes l.scaleFactor) (-1) = .ok [1, 2] :=
  ⟨_, rfl, rfl, rfl⟩

/-- Four hashes at twice the block size act as a list. -/
theorem four_hashes_act_as_list :
    ActsAsList { blockHashes := [[1], [2], [3], [4]], scaleFactor := 2 } :=
  (@acts_as_list_iff [[1], [2], [3], [4]] 16 32 _ rfl (by decide) (by decide)).1.mpr (by decide)

end Vllm.Proofs.Core
