import Vllm.Proofs.Attention.BatchReorder
import Vllm.Proofs.Attention.Metadata

/-!
# `Vllm.Proofs.Attention.BatchRegions`: the reordered batch is split where its regions meet

* `sorted_regions`: the rows that are out of place, sorted by region, fit in their places.
* `reorder_spec`: the batch is permuted by swaps and is then in the desired order.
* `split_regions`: the split of a batch in that order.
* `reorder_then_split`: both together.
-/

set_option autoImplicit false

namespace Vllm.Proofs.Attention

open Vllm.Lib Vllm.V1.Worker Vllm.V1.Attention Vllm.Proofs.Worker
open List

/-! ### What is out of place is sorted -/

section Sorting
variable {ρ τ : Nat → Nat} {n : Nat}

/-- What is the same on both sides takes no part. -/
theorem perm_map_filter {l : List Nat} (h : (l.map ρ).Perm (l.map τ)) :
    ((l.filter fun i => decide (ρ i ≠ τ i)).map ρ).Perm
      ((l.filter fun i => decide (ρ i ≠ τ i)).map τ) := by
  have hsplit := filter_append_perm (fun i => decide (ρ i ≠ τ i)) l
  have hsame : (l.filter fun i => !decide (ρ i ≠ τ i)).map ρ =
      (l.filter fun i => !decide (ρ i ≠ τ i)).map τ := by
    refine map_congr_left fun i hi => ?_
    simpa using (mem_filter.mp hi).2
  have hρ := hsplit.map ρ
  have hτ := hsplit.map τ
  rw [map_append] at hρ hτ
  rw [hsame] at hρ
  exact (perm_append_right_iff _).mp ((hρ.trans h).trans hτ.symm)

/-- The rows that are out of place, sorted by their own value, have the values of their places. -/
theorem sorted_regions (h : ((List.range n).map ρ).Perm ((List.range n).map τ))
    (hmono : ∀ i j, i ≤ j → j < n → τ i ≤ τ j) :
    (((List.range n).filter fun i => decide (ρ i ≠ τ i)).insertionSort fun i j => ρ i ≤ ρ j).map ρ =
      ((List.range n).filter fun i => decide (ρ i ≠ τ i)).map τ := by
  have hperm := ((perm_insertionSort (fun i j => ρ i ≤ ρ j) _).map ρ).trans (perm_map_filter h)
  refine List.Perm.eq_of_pairwise' (r := (· ≤ ·)) ?_ ?_ hperm
  · rw [pairwise_map]
    exact pairwise_insertionSort (fun i j => ρ i ≤ ρ j) _
  · rw [pairwise_map]
    refine (pairwise_lt_range.imp_of_mem ?_).filter _
    intro i j _ hj hlt
    exact hmono i j (Nat.le_of_lt hlt) (mem_range.mp hj)

end Sorting

/-! ### The desired order -/

section Target
variable {n d e p : Nat}

theorem getElem?_targetRegions {i : Nat} (h : i < n) :
    (targetRegions n d e)[i]? = some (if i < d then 0 else if i < d + e then 1 else 2) := by
  unfold targetRegions
  rw [getElem?_map, getElem?_range h, Option.map_some]

theorem targetRegions_eq : targetRegions (d + e + p) d e =
      List.replicate d 0 ++ List.replicate e 1 ++ List.replicate p 2 := by
  apply ext_getElem
  · simp [targetRegions]
    omega
  · intro i hi _
    simp only [targetRegions, length_map, length_range] at hi
    simp only [targetRegions, getElem_map, getElem_range, getElem_append,
      getElem_replicate, length_append, length_replicate]
    split
    · rw [dif_pos (by omega)]
    · split <;> rfl

variable {regions : List Nat}

theorem perm_replicate (h : ∀ r ∈ regions, r ≤ 2) :
    regions.Perm (List.replicate (regions.count 0) 0 ++ List.replicate (regions.count 1) 1 ++
      List.replicate (regions.count 2) 2) := by
  rw [perm_iff_count]
  intro a
  rw [count_append, count_append, count_replicate, count_replicate,
    count_replicate]
  match a with
  | 0 => simp
  | 1 => simp
  | 2 => simp
  | a + 3 =>
    have hnot : a + 3 ∉ regions := fun hmem => by
      have := h _ hmem
      omega
    simp [count_eq_zero.mpr hnot]

/-- The desired order has the regions of the batch. -/
theorem perm_targetRegions (h : ∀ r ∈ regions, r ≤ 2) :
    regions.Perm (targetRegions regions.length (regions.count 0) (regions.count 1)) := by
  have hperm := perm_replicate h
  have hlen := hperm.length_eq
  simp only [length_append, length_replicate] at hlen
  rw [← targetRegions_eq, ← hlen] at hperm
  exact hperm

theorem targetRegions_mono {i j : Nat} (hij : i ≤ j) (hj : j < n) :
    (targetRegions n d e)[i]?.getD 0 ≤ (targetRegions n d e)[j]?.getD 0 := by
  rw [getElem?_targetRegions (by omega), getElem?_targetRegions hj, Option.getD_some,
    Option.getD_some]
  split_ifs <;> omega

end Target

/-! ### The rows of the batch -/

section Rows
variable {ε γ : Type} {b b' : InputBatch ε γ} {sched : PyDict String Nat}
  {decodeThreshold : Int}

/-- The ids of the rows, with the number of tokens that are computed. -/
def rowKeys (b : InputBatch ε γ) : List (Option String × Nat) :=
  (List.range b.reqIds.length).map (rowKey b)

/-- The query of a row and the tokens before it. -/
def spanOf (sched : PyDict String Nat) (key : Option String × Nat) : Span :=
  { queryLen := (key.1.bind sched.get?).getD 0
    numComputed := key.2 }

/-- The queries of the batch. -/
def batchSpans (sched : PyDict String Nat) (b : InputBatch ε γ) : List Span :=
  (rowKeys b).map (spanOf sched)

/-- The region of a request. -/
def regionOf (decodeThreshold : Int) (s : Span) : Nat :=
  reqRegion decodeThreshold s.queryLen s.numComputed

theorem regionOf_le (s : Span) : regionOf decodeThreshold s ≤ 2 := by
  unfold regionOf reqRegion
  dsimp only
  split
  · exact Nat.le_refl 2
  · split <;> decide

/-- Every request of the batch is scheduled. -/
def AllScheduled (sched : PyDict String Nat) (b : InputBatch ε γ) : Prop :=
  ∀ id, some id ∈ b.reqIds → sched.contains id = true

theorem rowKeys_length : (rowKeys b).length = b.reqIds.length := by
  rw [rowKeys, length_map, length_range]

theorem getElem?_batchSpans {k : Nat} (h : k < b.reqIds.length) :
    (batchSpans sched b)[k]? = some (spanOf sched (rowKey b k)) := by
  unfold batchSpans rowKeys
  rw [getElem?_map, getElem?_map, getElem?_range h, Option.map_some, Option.map_some]

/-- The token counts that the function looks up. -/
theorem scheduled_eq (hfull : FullOk b) (hsched : AllScheduled sched b) :
    b.reqIds.mapM (scheduledOf sched) = .ok ((batchSpans sched b).map Span.queryLen) := by
  rw [mapM_eq_ok_iff_getElem?]
  refine ⟨by simp [batchSpans, rowKeys], ?_⟩
  intro i id hid
  have hlt := (List.getElem?_eq_some_iff.mp hid).1
  obtain ⟨id', hlive⟩ := hfull.live i (hfull.length ▸ hlt)
  cases hid.symm.trans hlive
  obtain ⟨n, hn⟩ := Option.isSome_iff_exists.mp (hsched id' (mem_of_getElem? hid))
  refine ⟨n, ?_, ?_⟩
  · simp [batchSpans, rowKeys, spanOf, rowKey, List.getElem?_range hlt, hid, hn]
  · simp [scheduledOf, hn]

/-- The regions that the function computes. -/
theorem reqRegions_eq : List.zipWith (reqRegion decodeThreshold)
      ((batchSpans sched b).map Span.queryLen)
      ((List.range b.reqIds.length).map b.numComputedTokensCpu) =
    (batchSpans sched b).map (regionOf decodeThreshold) := by
  simp only [batchSpans, rowKeys, map_map, zipWith_map, zipWith_self]
  rfl

/-- The batch is in the desired order. -/
def InOrder (decodeThreshold : Int) (spans : List Span) : Prop :=
  spans.map (regionOf decodeThreshold) = targetRegions spans.length
    ((spans.map (regionOf decodeThreshold)).count 0)
    ((spans.map (regionOf decodeThreshold)).count 1)

/-- What the reordering comes to. -/
structure Reordered (sched : PyDict String Nat) (decodeThreshold : Int) (b : InputBatch ε γ)
    (modified : Bool) (swaps : List (Nat × Nat)) (b' : InputBatch ε γ) : Prop where
  ids : IdsOk b'
  full : FullOk b'
  swapped : swapAll swaps b = .ok b'
  real : RealSwaps b.reqIds.length swaps
  modified_iff : modified = false ↔ swaps = []
  perm : (rowKeys b').Perm (rowKeys b)
  inOrder : InOrder decodeThreshold (batchSpans sched b')

theorem getD_regions {spans : List Span} {i : Nat} {s : Span} (h : spans[i]? = some s) :
    (spans.map (regionOf decodeThreshold))[i]?.getD 0 = regionOf decodeThreshold s := by
  rw [getElem?_map, h]
  rfl

/-- Every row has what its place in the desired order calls for. -/
theorem inOrder_of_rows {spans spans' : List Span} (hperm : spans'.Perm spans)
    (h : ∀ (k : Nat) s, spans'[k]? = some s → regionOf decodeThreshold s =
      (targetRegions spans.length ((spans.map (regionOf decodeThreshold)).count 0)
        ((spans.map (regionOf decodeThreshold)).count 1))[k]?.getD 0) :
    InOrder decodeThreshold spans' := by
  unfold InOrder
  rw [hperm.length_eq, (hperm.map _).count_eq, (hperm.map _).count_eq]
  apply ext_getElem?
  intro k
  rw [getElem?_map]
  by_cases hk : k < spans'.length
  · have hget : spans'[k]? = some spans'[k] := getElem?_eq_getElem hk
    have hk' : k < spans.length := hperm.length_eq ▸ hk
    have hrow := h k _ hget
    rw [getElem?_targetRegions hk', Option.getD_some] at hrow
    rw [hget, getElem?_targetRegions hk', Option.map_some, hrow]
  · rw [getElem?_eq_none (Nat.le_of_not_lt hk), Option.map_none, eq_comm,
      getElem?_eq_none_iff, targetRegions, length_map, length_range]
    have := hperm.length_eq
    omega

/-! ### The reordering -/

section Masks
variable {xs ys : List Nat}

/-- The mask of the rows that are out of place. -/
theorem getD_needsSwap (hlen : xs.length = ys.length) (i : Nat) :
    (List.zipWith (fun x y => decide (x ≠ y)) xs ys)[i]?.getD false =
      decide (xs[i]?.getD 0 ≠ ys[i]?.getD 0) := by
  rw [getElem?_zipWith]
  by_cases hi : i < xs.length
  · rw [getElem?_eq_getElem hi, getElem?_eq_getElem (hlen ▸ hi)]
    rfl
  · rw [getElem?_eq_none (Nat.le_of_not_lt hi), getElem?_eq_none (by omega)]
    rfl

theorem map_getD_range (xs : List Nat) :
    (List.range xs.length).map (fun i => xs[i]?.getD 0) = xs := by
  apply ext_getElem (by simp)
  intro i hi hi'
  simp [getElem?_eq_getElem hi']

/-- No row is out of place when the two lists agree. -/
theorem any_needsSwap_eq_false_iff (hlen : xs.length = ys.length) :
    (List.zipWith (fun x y => decide (x ≠ y)) xs ys).any id = false ↔ xs = ys := by
  induction xs generalizing ys with
  | nil =>
    cases ys with
    | nil => simp
    | cons y ys => cases hlen
  | cons x xs ih =>
    cases ys with
    | nil => cases hlen
    | cons y ys =>
      have htail := ih (Nat.succ.inj hlen)
      simp only [zipWith_cons_cons, any_cons, Bool.or_eq_false_iff, htail, id,
        decide_eq_false_iff_not, not_not, List.cons.injEq]

end Masks

variable {srcs dests : List Nat}

/-- The dict of the function, and what it says of every row. -/
theorem moves_of_zip (hperm : srcs.Perm dests) (hnodup : dests.Nodup) :
    let m := (srcs.zip dests).foldl (fun d e => d.insert e.1 e.2) (PyDict.empty : PyDict Nat Nat)
    m.keys = srcs ∧ Moves srcs dests (destOf m) := by
  intro m
  have hkeys : (srcs.zip dests).map Prod.fst = srcs :=
    map_fst_zip (Nat.le_of_eq hperm.length_eq)
  have hentries : m.entries = srcs.zip dests := by
    have hnodup' : ((srcs.zip dests).map Prod.fst).Nodup := by
      rw [hkeys]
      exact hperm.nodup_iff.mpr hnodup
    have := PyDict.entries_insertAll (d := (PyDict.empty : PyDict Nat Nat)) hnodup' (by simp)
    exact this.trans (nil_append _)
  have hsrcs : m.keys = srcs := by rw [PyDict.keys, hentries, hkeys]
  refine ⟨hsrcs, hperm, hnodup, ?_, ?_⟩
  · intro i s d hs hd
    have hmem : (s, d) ∈ m.entries := by
      rw [hentries]
      refine mem_of_getElem? (i := i) ?_
      rw [getElem?_zip_eq_some]
      exact ⟨hs, hd⟩
    unfold destOf
    rw [(m.mem_entries_iff s d).mp hmem]
    rfl
  · intro k hk
    unfold destOf
    rw [(m.get?_eq_none_iff k).mpr (by rwa [hsrcs])]
    rfl

/-- The rows of the batch before and after, when each row has gone where `dest` says. -/
theorem rowKeys_perm {dest : Nat → Nat} (hlen : b'.reqIds.length = b.reqIds.length)
    (hinj : Function.Injective dest) (hlt : ∀ k < b.reqIds.length, dest k < b.reqIds.length)
    (hrows : ∀ k, rowKey b' (dest k) = rowKey b k) : (rowKeys b').Perm (rowKeys b) := by
  unfold rowKeys
  rw [hlen]
  have hmap : (List.range b.reqIds.length).map (rowKey b) =
      ((List.range b.reqIds.length).map dest).map (rowKey b') := by
    rw [map_map]
    exact map_congr_left fun k _ => (hrows k).symm
  rw [hmap]
  apply List.Perm.map
  -- A list without repetition, inside one that is not longer.
  have hnodup := (nodup_range (n := b.reqIds.length)).map hinj
  have hsub : (List.range b.reqIds.length).map dest ⊆ List.range b.reqIds.length := by
    intro k hk
    obtain ⟨s, hs, rfl⟩ := mem_map.mp hk
    exact mem_range.mpr (hlt s (mem_range.mp hs))
  exact ((hnodup.subperm hsub).perm_of_length_le (by simp)).symm

/-- The regions of the rows that are moved, in the order of the places they go to. -/
theorem regions_sorted {spans : List Span} {n : Nat} {target : List Nat} (hlen : spans.length = n)
    (htarget : targetRegions spans.length ((spans.map (regionOf decodeThreshold)).count 0)
      ((spans.map (regionOf decodeThreshold)).count 1) = target)
    {ρ τ : Nat → Nat} (hρ : ρ = fun i => (spans.map (regionOf decodeThreshold))[i]?.getD 0)
    (hτ : τ = fun i => target[i]?.getD 0)
    (hdests : dests = (List.range n).filter fun i => decide (ρ i ≠ τ i))
    (hsrcs : srcs = dests.insertionSort fun i j => ρ i ≤ ρ j) : srcs.map ρ = dests.map τ := by
  rw [hsrcs, hdests]
  have hle : ∀ r ∈ spans.map (regionOf decodeThreshold), r ≤ 2 := by
    intro r hr
    obtain ⟨s, -, rfl⟩ := mem_map.mp hr
    exact regionOf_le s
  have hperm := perm_targetRegions hle
  rw [length_map, htarget] at hperm
  have hlen' : target.length = n := by rw [← hperm.length_eq, length_map, hlen]
  apply sorted_regions
  · have hρmap := map_getD_range (spans.map (regionOf decodeThreshold))
    have hτmap := map_getD_range target
    rw [length_map, hlen] at hρmap
    rw [hlen'] at hτmap
    rwa [hρ, hτ, hρmap, hτmap]
  · intro i j hij hj
    rw [hτ, ← htarget]
    exact targetRegions_mono hij (hlen ▸ hj)

/-- The loops, when some row is out of place. -/
theorem swapCycles_reordered {fuel : Nat} {target : List Nat} (hids : IdsOk b) (hfull : FullOk b)
    (hfuel : b.reqIds.length ≤ fuel)
    (htarget : targetRegions (batchSpans sched b).length (((batchSpans sched b).map (regionOf
      decodeThreshold)).count 0) (((batchSpans sched b).map (regionOf decodeThreshold)).count 1) =
      target)
    {ρ τ : Nat → Nat}
    (hρ : ρ = fun i => ((batchSpans sched b).map (regionOf decodeThreshold))[i]?.getD 0)
    (hτ : τ = fun i => target[i]?.getD 0)
    (hdests : dests = (List.range b.reqIds.length).filter fun i => decide (ρ i ≠ τ i))
    (hsrcs : srcs = dests.insertionSort fun i j => ρ i ≤ ρ j) (hne : dests ≠ []) :
    let m := (srcs.zip dests).foldl (fun d e => d.insert e.1 e.2) (PyDict.empty : PyDict Nat Nat)
    ∃ b' swaps, swapCycles fuel m.keys m b = .ok (some b') ∧
      Reordered sched decodeThreshold b true swaps b' := by
  intro m
  have hspans : (batchSpans sched b).length = b.reqIds.length := by
    rw [batchSpans, length_map, rowKeys_length]
  have hnodup : dests.Nodup := by
    rw [hdests]
    exact nodup_range.filter _
  have hperm : srcs.Perm dests := by
    rw [hsrcs]
    exact perm_insertionSort _ _
  have hlt : ∀ k ∈ dests, k < b.reqIds.length := by
    rw [hdests]
    intro k hk
    exact mem_range.mp (mem_filter.mp hk).1
  obtain ⟨hkeys, hmoves⟩ : m.keys = srcs ∧ Moves srcs dests (destOf m) := moves_of_zip hperm hnodup
  obtain ⟨goal, hpending⟩ := hmoves.pending (n := b.reqIds.length)
    (fun k hk => hlt k (hperm.mem_iff.mp hk)) (rowKey b)
  have hget : ∀ k ∈ srcs, m.get? k = some (destOf m k) := by
    intro k hk
    rw [← hkeys, PyDict.mem_keys_iff, Option.isSome_iff_exists] at hk
    obtain ⟨d, hd⟩ := hk
    unfold destOf
    rw [hd]
    rfl
  have hastray : ∀ k, destOf m k ≠ k → k ∈ srcs := by
    intro k hk
    by_contra hnot
    exact hk (hmoves.others k hnot)
  obtain ⟨b', swaps, hloop, hall, hreal, hnil, hdone⟩ := swapCycles_spec
    { ids := hids, full := hfull, length := rfl, pending := hpending } hget hastray
    (hperm.nodup_iff.mpr hnodup) (fun k hk => hlt k (hperm.mem_iff.mp hk)) hfuel
  have hrows : ∀ k, rowKey b' (destOf m k) = rowKey b k := by
    intro k
    rw [hdone.pending.holds, hpending.holds, id]
  -- Each row has gone where its region belongs.
  have hregion : ∀ k < b.reqIds.length, ρ k = τ (destOf m k) := by
    intro k hk
    by_cases hmem : k ∈ srcs
    · obtain ⟨i, hi, hdi⟩ := hmoves.mem_dests hmem
      have hsorted := congrArg (·[i]?) (regions_sorted hspans htarget hρ hτ hdests hsrcs)
      simpa [hi, hdi] using hsorted
    · have hnot : k ∉ dests := fun hd => hmem (hperm.mem_iff.mpr hd)
      rw [hmoves.others k hmem]
      by_contra hne
      rw [hdests, mem_filter] at hnot
      exact hnot ⟨mem_range.mpr hk, by simpa using hne⟩
  have hperm' := rowKeys_perm hdone.length hmoves.injective (fun k hk => hpending.dest_lt hk) hrows
  have hspans' : (batchSpans sched b').Perm (batchSpans sched b) := hperm'.map _
  refine ⟨b', swaps, hkeys ▸ hloop, hdone.ids, hdone.full, hall, hreal, ?_, hperm', ?_⟩
  · refine ⟨nofun, fun hswaps => ?_⟩
    obtain ⟨d, hd⟩ := exists_mem_of_ne_nil _ hne
    have heq := hregion d (hlt d hd)
    rw [hnil hswaps, id] at heq
    rw [hdests, mem_filter] at hd
    simp [heq] at hd
  · refine inOrder_of_rows hspans' ?_
    intro k s hs
    obtain ⟨k0, hk0⟩ := hmoves.surjective k
    have hk : k < b'.reqIds.length := by
      have := (List.getElem?_eq_some_iff.mp hs).1
      rwa [batchSpans, length_map, rowKeys_length] at this
    have hk₀lt : k0 < b.reqIds.length := by
      by_contra hge
      have := hpending.fixed k0 (Nat.le_of_not_lt hge)
      rw [hdone.length] at hk
      omega
    have hspan : (batchSpans sched b)[k0]? = some s := by
      rw [← hs, getElem?_batchSpans hk, getElem?_batchSpans hk₀lt, ← hk0, hrows]
    have hval := hregion k0 hk₀lt
    rw [hρ, hτ, hk0] at hval
    dsimp only at hval
    rw [getD_regions hspan] at hval
    rw [htarget]
    exact hval

theorem reorder_spec {fuel : Nat} (hids : IdsOk b) (hfull : FullOk b)
    (hsched : AllScheduled sched b) (hfuel : b.reqIds.length ≤ fuel) :
    ∃ modified b' swaps,
      reorderBatchToSplitDecodesAndPrefills b sched decodeThreshold fuel =
        .ok (some (modified, b')) ∧
      Reordered sched decodeThreshold b modified swaps b' := by
  have hspans : (batchSpans sched b).length = b.reqIds.length := by
    rw [batchSpans, length_map, rowKeys_length]
  unfold reorderBatchToSplitDecodesAndPrefills
  rw [scheduled_eq hfull hsched, except_ok_bind]
  dsimp only
  rw [reqRegions_eq]
  generalize hregions : (batchSpans sched b).map (regionOf decodeThreshold) = regions
  have hlen : regions.length = b.reqIds.length := by rw [← hregions, length_map, hspans]
  have hle : ∀ r ∈ regions, r ≤ 2 := by
    rw [← hregions]
    intro r hr
    obtain ⟨s, -, rfl⟩ := mem_map.mp hr
    exact regionOf_le s
  have hperm := perm_targetRegions hle
  rw [hlen] at hperm
  generalize htarget : targetRegions b.reqIds.length (regions.count 0) (regions.count 1) = target
    at hperm ⊢
  have hlen' : regions.length = target.length := hperm.length_eq
  split
  · rename_i hany
    rw [Bool.not_eq_true', any_needsSwap_eq_false_iff hlen'] at hany
    refine ⟨false, b, [], rfl, hids, hfull, rfl, forall_mem_nil _, by simp, .refl _, ?_⟩
    unfold InOrder
    rw [hregions, hspans, htarget, hany]
  · rename_i hany
    have hdests : ((List.range b.reqIds.length).filter fun i =>
        (List.zipWith (fun r t => decide (r ≠ t)) regions target)[i]?.getD false) =
        (List.range b.reqIds.length).filter fun i =>
          decide (regions[i]?.getD 0 ≠ target[i]?.getD 0) :=
      filter_congr fun i _ => getD_needsSwap hlen' i
    rw [hdests]
    have hne : (List.range b.reqIds.length).filter
        (fun i => decide (regions[i]?.getD 0 ≠ target[i]?.getD 0)) ≠ [] := by
      intro hnil
      apply hany
      rw [Bool.not_eq_true', any_needsSwap_eq_false_iff hlen', ← map_getD_range regions,
        ← map_getD_range target, ← hlen', hlen]
      refine map_congr_left fun i hi => ?_
      have := filter_eq_nil_iff.mp hnil i hi
      simpa using this
    obtain ⟨b', swaps, hloop, hreordered⟩ := swapCycles_reordered hids hfull hfuel
      (by rw [hregions, hspans, htarget]) (by rw [hregions]) rfl rfl rfl hne
    rw [hloop, except_ok_bind]
    exact ⟨true, b', swaps, rfl, hreordered⟩

end Rows

/-! ### The split -/

section Split
variable {decodeThreshold : Int} {spans : List Span} {m : CommonAttentionMetadata}

/-- The requests of a region. -/
def inRegion (decodeThreshold : Int) (r : Nat) (spans : List Span) : List Span :=
  spans.filter fun s => regionOf decodeThreshold s = r

/-- How many requests and tokens each region has. -/
def regionSizes (decodeThreshold : Int) (spans : List Span) : RegionSizes :=
  let size := fun r => ((inRegion decodeThreshold r spans).length : Int)
  let tokens := fun r => (numTokens (inRegion decodeThreshold r spans) : Int)
  ⟨size 0, size 1, size 2, tokens 0, tokens 1, tokens 2⟩

theorem regionOf_cases (s : Span) :
    (regionOf decodeThreshold s = 0 ↔ (s.queryLen : Int) ≤ decodeThreshold) ∧
    (regionOf decodeThreshold s = 1 ↔ decodeThreshold < s.queryLen ∧ 0 < s.numComputed) ∧
    (regionOf decodeThreshold s = 2 ↔ decodeThreshold < s.queryLen ∧ s.numComputed = 0) := by
  unfold regionOf reqRegion
  by_cases hq : (s.queryLen : Int) ≤ decodeThreshold
  · simp [hq]
  · rcases Nat.eq_zero_or_pos s.numComputed with hc | hc
    · simp [hq, hc]
      omega
    · simp [hq, hc, Nat.ne_of_gt hc]
      omega

/-- A batch in the desired order: the decodes, the extends and the prefills. -/
theorem inOrder_split (h : InOrder decodeThreshold spans) :
    spans = inRegion decodeThreshold 0 spans ++ inRegion decodeThreshold 1 spans ++
      inRegion decodeThreshold 2 spans := by
  unfold InOrder at h
  have hle : ∀ r ∈ spans.map (regionOf decodeThreshold), r ≤ 2 := by
    intro r hr
    obtain ⟨s, -, rfl⟩ := mem_map.mp hr
    exact regionOf_le s
  have hlen := (perm_replicate hle).length_eq
  simp only [length_append, length_replicate, length_map] at hlen
  rw [hlen, targetRegions_eq] at h
  obtain ⟨de, p, hspans, hde, hp⟩ := map_eq_append_iff.mp h
  obtain ⟨d, e, rfl, hd, he⟩ := map_eq_append_iff.mp hde
  -- A region that is constant in a part takes all of the part or nothing.
  have hpart : ∀ {l : List Span} {k r : Nat} (r' : Nat),
      l.map (regionOf decodeThreshold) = List.replicate k r →
        inRegion decodeThreshold r' l = if r = r' then l else [] := by
    intro l k r r' hl
    have hall : ∀ s ∈ l, regionOf decodeThreshold s = r := fun s hs =>
      eq_of_mem_replicate (hl ▸ mem_map_of_mem hs)
    unfold inRegion
    split
    · rename_i hr
      exact filter_eq_self.mpr fun s hs => by simp [hall s hs, hr]
    · rename_i hr
      exact filter_eq_nil_iff.mpr fun s hs => by simp [hall s hs, hr]
  have happend : ∀ r (l l' : List Span), inRegion decodeThreshold r (l ++ l') =
      inRegion decodeThreshold r l ++ inRegion decodeThreshold r l' :=
    fun r l l' => filter_append ..
  rw [hspans]
  simp [happend, hpart _ hd, hpart _ he, hpart _ hp]

/-- A mask that is set from an index on. -/
theorem argmax_replicate {a c : Nat} (h : a + c ≠ 0) :
    argmax (List.replicate a false ++ List.replicate c true) = .ok (if c = 0 then 0 else a) := by
  unfold V1.Attention.argmax
  rw [if_neg]
  · congr 1
    cases c with
    | zero => simp
    | succ c => simp [List.findIdx?_append, replicate_succ, List.findIdx?_cons]
  · intro hnil
    have := congrArg List.length hnil
    simp at this
    omega

theorem any_replicate {a c : Nat} :
    (List.replicate a false ++ List.replicate c true).any id = decide (c ≠ 0) := by
  cases c <;> simp [replicate_succ]

theorem maxQueryLen_le_iff (hm : Describes m spans) (hpos : 0 < decodeThreshold) :
    m.maxQueryLen ≤ decodeThreshold ↔ ∀ s ∈ spans, (s.queryLen : Int) ≤ decodeThreshold := by
  rw [hm.maxQueryLen]
  have hfold : ∀ l : List Span, (((l.map Span.queryLen).foldr max 0 : Nat) : Int) ≤ decodeThreshold ↔
      ∀ s ∈ l, (s.queryLen : Int) ≤ decodeThreshold := by
    intro l
    induction l with
    | nil => simp [Int.le_of_lt hpos]
    | cons s l ih =>
      rw [map_cons, foldr_cons, Nat.cast_max, max_le_iff, ih, forall_mem_cons]
  exact hfold spans

/-- A mask that is not set before an index, and set from there on. -/
theorem map_append_replicate {α : Type} {f : α → Bool} {l l' : List α} (h : ∀ x ∈ l, f x = false)
    (h' : ∀ x ∈ l', f x = true) :
    (l ++ l').map f = List.replicate l.length false ++ List.replicate l'.length true := by
  rw [map_append, map_eq_replicate_iff.mpr h, map_eq_replicate_iff.mpr h']

/-- The metadata of the parts of a batch in the desired order. -/
theorem split_parts {d e p : List Span} (hm : Describes m (d ++ e ++ p))
    (hd : ∀ s ∈ d, (s.queryLen : Int) ≤ decodeThreshold)
    (he : ∀ s ∈ e, decodeThreshold < s.queryLen ∧ 0 < s.numComputed)
    (hp : ∀ s ∈ p, decodeThreshold < s.queryLen ∧ s.numComputed = 0) (hpos : 0 < decodeThreshold) :
    splitDecodesPrefillsAndExtends m decodeThreshold =
      .ok ⟨d.length, e.length, p.length, numTokens d, numTokens e, numTokens p⟩ := by
  have hqueries : stepDiffs m.queryStartLocCpu = (d ++ e ++ p).map fun s => (s.queryLen : Int) := by
    rw [hm.queryStartLocCpu, stepDiffs_startLocs]
  -- The two masks.
  have hmask : (stepDiffs m.queryStartLocCpu).map (fun q => decide (decodeThreshold < q)) =
      List.replicate d.length false ++ List.replicate (e ++ p).length true := by
    rw [hqueries, map_map, append_assoc]
    refine map_append_replicate ?_ ?_
    · intro s hs
      exact decide_eq_false (Int.not_lt.mpr (hd s hs))
    · intro s hs
      exact decide_eq_true ((mem_append.mp hs).elim (fun h => (he s h).1) fun h => (hp s h).1)
  have hprefill : List.zipWith (· && ·)
      (List.zipWith (fun s q => decide (s = q)) m.seqLensCpu (stepDiffs m.queryStartLocCpu))
      ((stepDiffs m.queryStartLocCpu).map fun q => decide (decodeThreshold < q)) =
        List.replicate (d ++ e).length false ++ List.replicate p.length true := by
    rw [hqueries, hm.seqLensCpu, zipWith_map, zipWith_self, map_map,
      zipWith_map, zipWith_self]
    refine map_append_replicate ?_ ?_
    · intro s hs
      rcases mem_append.mp hs with hs | hs
      · simp [Int.not_lt.mpr (hd s hs)]
      · have := (he s hs).2
        simp [Span.seqLen]
        omega
    · intro s hs
      obtain ⟨hlong, hnew⟩ := hp s hs
      simp [Span.seqLen, hlong, hnew]
  have hstart : ∀ l l' : List Span, d ++ e ++ p = l ++ l' →
      getItem m.queryStartLocCpu l.length = .ok (numTokens l : Int) := by
    intro l l' hl
    rw [getItem_eq_ok_iff, hm.queryStartLocCpu, hl, getElem?_startLocs (by simp),
      take_left]
  have hlong : ¬ m.maxQueryLen ≤ decodeThreshold ↔ e ++ p ≠ [] := by
    rw [maxQueryLen_le_iff hm hpos, append_assoc]
    constructor
    · intro hnot hnil
      rw [hnil, append_nil] at hnot
      exact hnot hd
    · intro hne hall
      obtain ⟨s, hs⟩ := exists_mem_of_ne_nil _ hne
      have hle := hall s (mem_append_right _ hs)
      have hlt := (mem_append.mp hs).elim (fun h => (he s h).1) fun h => (hp s h).1
      omega
  unfold splitDecodesPrefillsAndExtends
  by_cases hmax : m.maxQueryLen ≤ decodeThreshold
  · -- Only decodes.
    obtain ⟨rfl, rfl⟩ := append_eq_nil_iff.mp (not_not.mp fun h => hlong.mpr h hmax)
    rw [if_pos hmax, hm.numReqs, hm.numActualTokens]
    simp
    rfl
  · have hne := hlong.mp hmax
    have hlen : (e ++ p).length ≠ 0 := fun h => hne (length_eq_zero_iff.mp h)
    rw [if_neg hmax]
    dsimp only
    rw [hprefill, hmask, argmax_replicate (by omega), if_neg hlen, except_ok_bind,
      argmax_replicate (by simp only [length_append] at hlen ⊢; omega), except_ok_bind,
      any_replicate, any_replicate,
      hstart d (e ++ p) (append_assoc ..), except_ok_bind, decide_eq_true hlen]
    by_cases hnone : p = []
    · -- No prefills.
      subst hnone
      simp [hm.numReqs, hm.numActualTokens]
      rfl
    · have hlen' : p.length ≠ 0 := fun h => hnone (length_eq_zero_iff.mp h)
      rw [if_neg hlen', decide_eq_true hlen', hstart (d ++ e) p rfl, except_ok_bind]
      simp only [Bool.not_true, Bool.false_eq_true, if_false, hm.numReqs, hm.numActualTokens]
      show Except.ok _ = Except.ok _
      rw [Except.ok.injEq, RegionSizes.mk.injEq]
      simp only [length_append, numTokens_append, Nat.cast_add]
      exact ⟨trivial, by omega, by omega, trivial, by omega, by omega⟩

/-- The split finds the regions of a batch in the desired order. -/
theorem split_regions (hm : Describes m spans) (horder : InOrder decodeThreshold spans)
    (hpos : 0 < decodeThreshold) :
    splitDecodesPrefillsAndExtends m decodeThreshold = .ok (regionSizes decodeThreshold spans) := by
  rw [inOrder_split horder] at hm
  have hregion : ∀ {r s}, s ∈ inRegion decodeThreshold r spans → regionOf decodeThreshold s = r :=
    fun hs => of_decide_eq_true (mem_filter.mp hs).2
  exact split_parts hm (fun s hs => (regionOf_cases s).1.mp (hregion hs))
    (fun s hs => (regionOf_cases s).2.1.mp (hregion hs))
    (fun s hs => (regionOf_cases s).2.2.mp (hregion hs)) hpos

end Split

/-! ### Both together -/

section Both
variable {ε γ : Type} {b : InputBatch ε γ} {sched : PyDict String Nat} {decodeThreshold : Int}
  {fuel : Nat}

theorem regionSizes_perm {spans spans' : List Span} (h : spans'.Perm spans) :
    regionSizes decodeThreshold spans' = regionSizes decodeThreshold spans := by
  have hregion : ∀ r, (inRegion decodeThreshold r spans').Perm (inRegion decodeThreshold r spans) :=
    fun r => h.filter _
  have htokens : ∀ r, numTokens (inRegion decodeThreshold r spans') =
      numTokens (inRegion decodeThreshold r spans) := fun r => ((hregion r).map _).sum_eq
  unfold regionSizes
  simp only [(hregion _).length_eq, htokens]

/-- A batch in which every row has a request that is scheduled is permuted by swaps, which end. The
rows are then in the order decode, extend, prefill, and the split of the new batch gives the sizes
of the regions. -/
theorem reorder_then_split (hids : IdsOk b) (hfull : FullOk b) (hsched : AllScheduled sched b)
    (hpos : 0 < decodeThreshold) (hfuel : b.reqIds.length ≤ fuel) :
    ∃ modified b' swaps,
      reorderBatchToSplitDecodesAndPrefills b sched decodeThreshold fuel =
        .ok (some (modified, b')) ∧
      Reordered sched decodeThreshold b modified swaps b' ∧
      ∀ m, Describes m (batchSpans sched b') →
        splitDecodesPrefillsAndExtends m decodeThreshold =
          .ok (regionSizes decodeThreshold (batchSpans sched b)) := by
  obtain ⟨modified, b', swaps, hcall, hreordered⟩ := reorder_spec hids hfull hsched hfuel
  refine ⟨modified, b', swaps, hcall, hreordered, ?_⟩
  intro m hm
  have hspans : (batchSpans sched b').Perm (batchSpans sched b) := hreordered.perm.map _
  rw [split_regions hm hreordered.inOrder hpos, regionSizes_perm hspans]

end Both

/-- A prefill before a decode. -/
def prefillFirst : InputBatch Unit Unit :=
  { isPoolingModel := false
    maxNumReqs := 2
    vocabSize := 4
    reqIds := [some "a", some "b"]
    reqIdToIndex := ⟨[("a", 0), ("b", 1)], by decide⟩
    reqOutputTokenIds := [none, none]
    numComputedTokensCpu := fun i => if i = 1 then 10 else 0
    blockTables := [] }

/-- The prefill has a hundred tokens in the step. -/
def prefillScheduled : PyDict String Nat := ⟨[("a", 100), ("b", 1)], by decide⟩

theorem idsOk_prefillFirst : IdsOk prefillFirst where
  inverse id i := by
    show List.lookup id [("a", 0), ("b", 1)] = some i ↔ [some "a", some "b"][i]? = some (some id)
    rw [PyDict.lookup_cons_ite, PyDict.lookup_cons_ite, lookup_nil]
    by_cases ha : id = "a"
    · subst ha
      match i with
      | 0 | 1 | i + 2 => simp
    · by_cases hb : id = "b"
      · subst hb
        match i with
        | 0 | 1 | i + 2 => simp
      · match i with
        | 0 | 1 | i + 2 => simp [ha, hb, Ne.symm ha, Ne.symm hb]
  outputs_length := rfl
  spec_length := Nat.le_refl 2
  spec_clear j l hj hl := by
    rw [getElem?_eq_none (show prefillFirst.specTokenIds.length ≤ j from hj)] at hl
    cases hl
  sorted hflag := by cases hflag

theorem fullOk_prefillFirst : FullOk prefillFirst where
  length := rfl
  live := by
    intro i hi
    match i with
    | 0 => exact ⟨"a", rfl⟩
    | 1 => exact ⟨"b", rfl⟩
    | i + 2 => exact absurd hi (by show ¬ i + 2 < 2; omega)

theorem reorder_then_split_prefillFirst : ∃ modified b' swaps,
    reorderBatchToSplitDecodesAndPrefills prefillFirst prefillScheduled 1 2 =
      .ok (some (modified, b')) ∧
    Reordered prefillScheduled 1 prefillFirst modified swaps b' ∧
    ∀ m, Describes m (batchSpans prefillScheduled b') →
      splitDecodesPrefillsAndExtends m 1 =
        .ok (regionSizes 1 (batchSpans prefillScheduled prefillFirst)) := by
  refine reorder_then_split idsOk_prefillFirst fullOk_prefillFirst ?_ (by decide) (by decide)
  intro id hid
  have hcases : id = "a" ∨ id = "b" := by simpa [prefillFirst] using hid
  rcases hcases with rfl | rfl <;> decide

end Vllm.Proofs.Attention
