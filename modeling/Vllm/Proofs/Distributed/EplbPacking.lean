import Mathlib.Algebra.Group.Action.Defs
import Mathlib.Algebra.Order.BigOperators.Group.List
import Vllm.Distributed.EplbPolicy
import Vllm.Lib.MapM
import Vllm.Lib.Numbering

/-!
# `Vllm.Proofs.Distributed.EplbPacking`: packing and replicating

`balanced_packing` fills packs of the same size. `Packed` says what that makes of the pack and the
rank of each item: `pack * perPack + rank` is a place of its own, and every place is taken.

`replicate_experts` counts the replicas of each expert while it adds them, and a new replica gets
the count so far as its rank. So the replicas are numbered (`Vllm.Lib.Numbering`).

Which pack is lightest and which expert is most loaded plays no role for either.
-/

set_option autoImplicit false

namespace Vllm.Proofs.Distributed

open Vllm.Lib Vllm.Distributed Vllm.Distributed.EplbPolicy List

variable {W : Type} {ops : WeightOps W}

/-! ### `balanced_packing` -/

/-- Every item has a place in a pack of its own, and every place has an item. -/
structure Packed (numPacks perPack : Nat) (packIndex rankInPack : List Nat) : Prop where
  length_pack : packIndex.length = numPacks * perPack
  length_rank : rankInPack.length = numPacks * perPack
  rank_lt : ∀ rank ∈ rankInPack, rank < perPack
  places : (List.zipWith (fun pack rank => pack * perPack + rank) packIndex rankInPack).Perm
    (List.range (numPacks * perPack))

variable {a b size : Nat}

theorem div_add_of_lt (h : b < size) : (a * size + b) / size = a := by
  rw [Nat.add_comm, Nat.add_mul_div_right _ _ (Nat.zero_lt_of_lt h), Nat.div_eq_of_lt h,
    Nat.zero_add]

theorem mod_add_of_lt (h : b < size) : (a * size + b) % size = b := by
  rw [Nat.add_comm, Nat.add_mul_mod_self_right, Nat.mod_eq_of_lt h]

theorem add_lt_of_lt {count : Nat} (ha : a < count) (hb : b < size) :
    a * size + b < count * size := by
  calc a * size + b < a * size + size := Nat.add_lt_add_left hb _
    _ = (a + 1) * size := (Nat.succ_mul a size).symm
    _ ≤ count * size := Nat.mul_le_mul_right size ha

/-- The numbers of the `pack`-th stretch. -/
theorem countP_div {numPacks perPack pack : Nat} (h : pack < numPacks) :
    (List.range (numPacks * perPack)).countP (fun i => i / perPack == pack) = perPack := by
  rcases Nat.eq_zero_or_pos perPack with rfl | hpos
  · simp
  -- What is before, the stretch itself, and what is after.
  obtain ⟨after, rfl⟩ := Nat.exists_eq_add_of_lt h
  have hsplit : (pack + after + 1) * perPack = pack * perPack + (perPack + after * perPack) := by
    ring
  rw [hsplit, range_add, range_add, map_append, countP_append,
    countP_append, countP_map, map_map, countP_map]
  have hbefore : (List.range (pack * perPack)).countP (fun i => i / perPack == pack) = 0 := by
    rw [countP_eq_zero]
    intro i hi
    have := (Nat.div_lt_iff_lt_mul hpos).mpr (mem_range.mp hi)
    simp only [beq_iff_eq]
    omega
  have hself : (List.range perPack).countP
      ((fun i => i / perPack == pack) ∘ fun j => pack * perPack + j) = perPack := by
    have hall : (List.range perPack).countP
        ((fun i => i / perPack == pack) ∘ fun j => pack * perPack + j) =
        (List.range perPack).length := by
      rw [countP_eq_length]
      intro j hj
      simp [div_add_of_lt (mem_range.mp hj)]
    rw [hall, length_range]
  have hafter : (List.range (after * perPack)).countP ((fun i => i / perPack == pack) ∘
      ((fun j => pack * perPack + j) ∘ fun j => perPack + j)) = 0 := by
    rw [countP_eq_zero]
    intro j _
    have hle : (pack + 1) * perPack ≤ pack * perPack + (perPack + j) := by
      rw [Nat.succ_mul]
      omega
    have := (Nat.le_div_iff_mul_le hpos).mpr hle
    simp only [Function.comp_apply, beq_iff_eq]
    omega
  rw [hbefore, hself, hafter]
  omega

variable {numPacks perPack pack : Nat} {packIndex rankInPack : List Nat}

/-- A pack has its number of items. -/
theorem Packed.count_pack (h : Packed numPacks perPack packIndex rankInPack)
    (hpack : pack < numPacks) :
    packIndex.count pack = perPack := by
  have hpacks : (List.zipWith (fun pack rank => pack * perPack + rank) packIndex rankInPack).map
      (· / perPack) = packIndex := by
    refine ext_getElem ?_ fun i hi hi' => ?_
    · simp [h.length_pack, h.length_rank]
    · have hrank : i < rankInPack.length := by
        rw [h.length_rank, ← h.length_pack]
        exact hi'
      simp [div_add_of_lt (h.rank_lt _ (getElem_mem hrank))]
  rw [← hpacks, ((h.places.map _).count_eq pack), List.count, countP_map]
  exact countP_div hpack

/-- Items with different places fill all of them. -/
theorem Packed.of_distinct (hpack : packIndex.length = numPacks * perPack)
    (hrank : rankInPack.length = numPacks * perPack)
    (hlt : ∀ i < numPacks * perPack, packIndex.getD i 0 < numPacks ∧ rankInPack.getD i 0 < perPack)
    (hdistinct : ∀ i < numPacks * perPack, ∀ j < numPacks * perPack, packIndex.getD i 0 =
      packIndex.getD j 0 → rankInPack.getD i 0 = rankInPack.getD j 0 → i = j) :
    Packed numPacks perPack packIndex rankInPack := by
  let places := List.zipWith (fun pack rank => pack * perPack + rank) packIndex rankInPack
  have hlen : places.length = numPacks * perPack := by simp [places, hpack, hrank]
  have hget : ∀ i (hi : i < places.length),
      places[i] = packIndex.getD i 0 * perPack + rankInPack.getD i 0 := by
    intro i hi
    rw [hlen] at hi
    rw [getD_eq_getElem _ _ (hpack ▸ hi), getD_eq_getElem _ _ (hrank ▸ hi)]
    exact getElem_zipWith
  refine ⟨hpack, hrank, fun rank hmem => ?_, ?_⟩
  · obtain ⟨i, hi, rfl⟩ := getElem_of_mem hmem
    rw [← getD_eq_getElem _ 0 hi]
    exact (hlt i (hrank ▸ hi)).2
  · have hnodup : places.Nodup := by
      rw [nodup_iff_injective_get]
      intro i j hij
      have hi := hlt i (hlen ▸ i.2)
      have hj := hlt j (hlen ▸ j.2)
      have heq : places[i.1] = places[j.1] := hij
      rw [hget, hget] at heq
      have hdiv := congrArg (· / perPack) heq
      have hmod := congrArg (· % perPack) heq
      simp only [div_add_of_lt hi.2, div_add_of_lt hj.2] at hdiv
      simp only [mod_add_of_lt hi.2, mod_add_of_lt hj.2] at hmod
      exact Fin.ext (hdistinct i (hlen ▸ i.2) j (hlen ▸ j.2) hdiv hmod)
    have hbound : ∀ place ∈ places, place < places.length := by
      intro place hplace
      obtain ⟨i, hi, rfl⟩ := getElem_of_mem hplace
      have := hlt i (hlen ▸ hi)
      rw [hget, hlen]
      exact add_lt_of_lt this.1 this.2
    have hperm := perm_range_of_nodup hnodup hbound
    rwa [hlen] at hperm

/-- What is known while the items are packed, when the items of `done` are. -/
structure PackInv (numPacks perPack : Nat) (done : List Nat) (s : Packing W) : Prop where
  length_items : s.packItems.length = numPacks
  length_pack : s.packIndex.length = numPacks * perPack
  length_rank : s.rankInPack.length = numPacks * perPack
  items_le : ∀ items ∈ s.packItems, items ≤ perPack
  sum_items : s.packItems.sum = done.length
  placed : ∀ group ∈ done, ∃ pack rank, s.packIndex[group]? = some (some pack) ∧
    s.rankInPack[group]? = some (some rank) ∧ pack < numPacks ∧ rank < s.packItems.getD pack 0
  distinct : ∀ group ∈ done, ∀ other ∈ done, s.packIndex[group]? = s.packIndex[other]? →
    s.rankInPack[group]? = s.rankInPack[other]? → group = other

/-- While there are items left, a pack has capacity. -/
theorem exists_capacity {items : List Nat} (h : items.sum < items.length * perPack) :
    ∃ pack < items.length, items.getD pack 0 < perPack := by
  by_contra hfull
  have hle : ∀ count ∈ items, perPack ≤ count := by
    intro count hcount
    obtain ⟨pack, hpack, rfl⟩ := getElem_of_mem hcount
    refine Nat.le_of_not_lt fun hlt => hfull ⟨pack, hpack, ?_⟩
    rwa [getD_eq_getElem _ _ hpack]
  have hsum := card_nsmul_le_sum items perPack hle
  rw [smul_eq_mul] at hsum
  omega

theorem lightestPack_spec {packItems : List Nat} {perPack : Nat} (packWeights : List W)
    (h : ∃ pack < packItems.length, packItems.getD pack 0 < perPack) :
    ∃ pack, lightestPack ops packWeights packItems perPack = .ok pack ∧
      pack < packItems.length ∧ packItems.getD pack 0 < perPack := by
  obtain ⟨pack, hpack, hcap⟩ := h
  have hmem : pack ∈ (List.range packItems.length).filter fun j => packItems.getD j 0 < perPack :=
    mem_filter.mpr ⟨mem_range.mpr hpack, decide_eq_true hcap⟩
  unfold lightestPack
  split
  · rename_i hnil
    rw [hnil] at hmem
    cases hmem
  · rename_i first rest hcons
    have hbest := foldl_pick_mem (fun best j =>
      ops.lt (packWeights.getD j ops.zero) (packWeights.getD best ops.zero)) rest first
    rw [← hcons, mem_filter] at hbest
    exact ⟨_, rfl, mem_range.mp hbest.1, of_decide_eq_true hbest.2⟩

theorem sum_set_succ {items : List Nat} (h : pack < items.length) :
    (items.set pack (items.getD pack 0 + 1)).sum = items.sum + 1 := by
  induction items generalizing pack with
  | nil => cases h
  | cons count items ih =>
    cases pack with
    | zero => simp; omega
    | succ pack =>
      have := ih (Nat.lt_of_succ_lt_succ h)
      simp only [set_cons_succ, sum_cons, getD_cons_succ, this]
      omega

/-- An item is put in a pack with capacity. -/
theorem PackInv.put {group : Nat} {done : List Nat} {s : Packing W}
    (h : PackInv numPacks perPack done s) (hgroup : group < numPacks * perPack)
    (hnew : group ∉ done) (hpack : pack < s.packItems.length)
    (hcap : s.packItems.getD pack 0 < perPack) (packWeights : List W) :
    PackInv numPacks perPack (done ++ [group]) {
      packWeights := packWeights
      packItems := s.packItems.set pack (s.packItems.getD pack 0 + 1)
      packIndex := s.packIndex.set group (some pack)
      rankInPack := s.rankInPack.set group (some (s.packItems.getD pack 0)) } := by
  have hpackAt : (s.packIndex.set group (some pack))[group]? = some (some pack) :=
    getElem?_set_self (by rw [h.length_pack]; exact hgroup)
  have hrankAt : (s.rankInPack.set group (some (s.packItems.getD pack 0)))[group]? =
      some (some (s.packItems.getD pack 0)) :=
    getElem?_set_self (by rw [h.length_rank]; exact hgroup)
  have hne : ∀ other ∈ done, group ≠ other := fun other hother heq => hnew (heq ▸ hother)
  -- No item of the pack has the rank that it gives out now.
  have hfresh : ∀ other ∈ done, s.packIndex[other]? = some (some pack) →
      s.rankInPack[other]? = some (some (s.packItems.getD pack 0)) → False := by
    intro other hother hpackOther hrankOther
    obtain ⟨pack', rank', hp, hr, _, hlt⟩ := h.placed other hother
    rw [hp] at hpackOther
    rw [hr] at hrankOther
    cases hpackOther
    cases hrankOther
    exact Nat.lt_irrefl _ hlt
  constructor
  · rw [length_set, h.length_items]
  · rw [length_set, h.length_pack]
  · rw [length_set, h.length_rank]
  · intro items hitems
    rcases mem_or_eq_of_mem_set hitems with hold | rfl
    · exact h.items_le items hold
    · exact hcap
  · rw [sum_set_succ hpack, h.sum_items, length_append]
    rfl
  · intro other hother
    rcases mem_append.mp hother with hold | hself
    · obtain ⟨pack', rank', hp, hr, hlt, hrank⟩ := h.placed other hold
      refine ⟨pack', rank', ?_, ?_, hlt, ?_⟩
      · rw [getElem?_set_ne (hne other hold), hp]
      · rw [getElem?_set_ne (hne other hold), hr]
      · dsimp only
        rw [getD_eq_getElem?_getD, getElem?_set]
        rw [getD_eq_getElem?_getD] at hrank
        split
        · rename_i heq
          rw [Option.getD_some, getD_eq_getElem?_getD, heq]
          omega
        · exact hrank
    · obtain rfl := mem_singleton.mp hself
      refine ⟨pack, _, hpackAt, hrankAt, h.length_items ▸ hpack, ?_⟩
      have hself : (s.packItems.set pack (s.packItems.getD pack 0 + 1)).getD pack 0 =
          s.packItems.getD pack 0 + 1 := by
        rw [getD_eq_getElem?_getD, getElem?_set_self hpack]
        rfl
      dsimp only
      rw [hself]
      exact Nat.lt_succ_self _
  · intro a ha b hb hpackEq hrankEq
    dsimp only at hpackEq hrankEq
    rcases mem_append.mp ha with hda | hsa <;> rcases mem_append.mp hb with hdb | hsb
    · rw [getElem?_set_ne (hne a hda), getElem?_set_ne (hne b hdb)] at hpackEq hrankEq
      exact h.distinct a hda b hdb hpackEq hrankEq
    · obtain rfl := mem_singleton.mp hsb
      rw [hpackAt, getElem?_set_ne (hne a hda)] at hpackEq
      rw [hrankAt, getElem?_set_ne (hne a hda)] at hrankEq
      exact (hfresh a hda hpackEq hrankEq).elim
    · obtain rfl := mem_singleton.mp hsa
      rw [hpackAt, getElem?_set_ne (hne b hdb)] at hpackEq
      rw [hrankAt, getElem?_set_ne (hne b hdb)] at hrankEq
      exact (hfresh b hdb hpackEq.symm hrankEq.symm).elim
    · rw [mem_singleton.mp hsa, mem_singleton.mp hsb]

/-- An item is put in the lightest pack with capacity. -/
theorem packGroup_spec {numPacks perPack group : Nat} {weight : List W} {done : List Nat}
    {s : Packing W} (h : PackInv numPacks perPack done s)
    (hweight : weight.length = numPacks * perPack) (hgroup : group < weight.length)
    (hnew : group ∉ done) (hroom : done.length < numPacks * perPack) :
    ∃ s', packGroup ops weight perPack s group = .ok s' ∧
      PackInv numPacks perPack (done ++ [group]) s' := by
  obtain ⟨pack, hlightest, hpack, hcap⟩ := @lightestPack_spec W ops s.packItems perPack
    s.packWeights (exists_capacity (by rw [h.sum_items, h.length_items]; exact hroom))
  unfold packGroup
  rw [hlightest, except_ok_bind]
  dsimp only
  rw [(pyAssert_eq_ok_iff (u := ())).mpr (decide_eq_true hcap), except_ok_bind,
    getElem?_eq_getElem hgroup]
  exact ⟨_, rfl, h.put (hweight ▸ hgroup) hnew hpack hcap _⟩

/-- The loop over the items. -/
theorem packGroups_spec {numPacks perPack : Nat} {weight : List W} {done : List Nat}
    {s : Packing W} (h : PackInv numPacks perPack done s)
    (hweight : weight.length = numPacks * perPack) {order : List Nat}
    (hall : (done ++ order).Perm (List.range weight.length)) :
    ∃ s', order.foldlM (packGroup ops weight perPack) s = .ok s' ∧
      PackInv numPacks perPack (done ++ order) s' := by
  induction order generalizing done s with
  | nil => exact ⟨s, rfl, by rwa [append_nil]⟩
  | cons group order ih =>
    have hnodup : (done ++ group :: order).Nodup := hall.nodup_iff.mpr nodup_range
    have hnew : group ∉ done := fun hmem =>
      (disjoint_of_nodup_append hnodup) hmem mem_cons_self
    have hgroup : group < weight.length := lt_of_perm_range hall (by simp)
    have hroom : done.length < numPacks * perPack := by
      have hlen := length_of_perm_range hall
      rw [length_append, length_cons, hweight] at hlen
      omega
    obtain ⟨s', hs', hinv'⟩ := @packGroup_spec W ops _ _ _ _ _ _ h hweight hgroup hnew hroom
    have happend : done ++ group :: order = done ++ [group] ++ order := by simp
    rw [happend] at hall ⊢
    obtain ⟨s'', hs'', hinv''⟩ := ih hinv' hall
    refine ⟨s'', ?_, hinv''⟩
    rw [foldlM_cons, hs', except_ok_bind, hs'']

/-- A result without entries that are still `-1`. -/
theorem mapM_inBounds {xs : List (Option Nat)} (h : ∀ i < xs.length, ∃ x, xs[i]? = some (some x)) :
    ∃ ys, xs.mapM inBounds = .ok ys ∧ ys.length = xs.length ∧
      ∀ i < xs.length, xs[i]? = some (some (ys.getD i 0)) := by
  obtain ⟨ys, hys⟩ := @exists_mapM_eq_ok _ _ _ inBounds xs (by
    intro x hx
    obtain ⟨i, hi, rfl⟩ := getElem_of_mem hx
    obtain ⟨y, hy⟩ := h i hi
    rw [getElem?_eq_getElem hi] at hy
    exact ⟨y, by rw [Option.some.inj hy]; rfl⟩)
  obtain ⟨hlen, hget⟩ := mapM_eq_ok_iff_getElem?.mp hys
  refine ⟨ys, hys, hlen, fun i hi => ?_⟩
  obtain ⟨x, hx⟩ := h i hi
  obtain ⟨y, hy, hxy⟩ := hget i _ hx
  obtain rfl : x = y := Except.ok.inj hxy
  rw [hx, getD_eq_getElem?_getD, hy, Option.getD_some]

/-- `balanced_packing` packs any weights, if the packs divide the items. -/
theorem balancedPacking_spec {numPacks : Nat} {weight : List W} (hpos : 0 < numPacks)
    (hdvd : numPacks ∣ weight.length) :
    ∃ packIndex rankInPack, balancedPacking ops weight numPacks = .ok (packIndex, rankInPack) ∧
      Packed numPacks (weight.length / numPacks) packIndex rankInPack := by
  have hlen : weight.length = numPacks * (weight.length / numPacks) :=
    (Nat.mul_div_cancel' hdvd).symm
  have hmod : pyMod weight.length numPacks = .ok 0 := by
    rw [pyMod, if_neg (Nat.ne_of_gt hpos), Nat.mod_eq_zero_of_dvd hdvd]
  unfold balancedPacking
  dsimp only
  rw [hmod, except_ok_bind, (pyAssert_eq_ok_iff (u := ())).mpr (decide_eq_true rfl), except_ok_bind]
  split
  · -- Each item is a pack.
    rename_i hone
    refine ⟨_, _, rfl, ?_⟩
    rw [hone]
    rw [hone, Nat.mul_one] at hlen
    constructor
    · rw [length_range, hlen, Nat.mul_one]
    · rw [length_replicate, hlen, Nat.mul_one]
    · intro rank hrank
      rw [eq_of_mem_replicate hrank]
      exact Nat.one_pos
    · have hself : List.zipWith (fun pack rank => pack * 1 + rank) (List.range weight.length)
          (List.replicate weight.length 0) = List.range weight.length := by
        refine ext_getElem (by simp) fun i _ _ => by simp
      rw [hself, Nat.mul_one, ← hlen]
  · have hinit : PackInv numPacks (weight.length / numPacks) [] {
        packWeights := List.replicate numPacks ops.zero
        packItems := List.replicate numPacks 0
        packIndex := List.replicate weight.length none
        rankInPack := List.replicate weight.length none } := by
      constructor
      · exact length_replicate
      · rw [length_replicate, ← hlen]
      · rw [length_replicate, ← hlen]
      · intro items hitems
        rw [eq_of_mem_replicate hitems]
        exact Nat.zero_le _
      · simp
      · intro group hgroup
        cases hgroup
      · intro group hgroup
        cases hgroup
    have horder := ops.argsortDesc_perm weight
    obtain ⟨s, hs, hinv⟩ := @packGroups_spec W ops _ _ weight [] _ hinit hlen _ horder
    rw [nil_append] at hinv
    rw [hs, except_ok_bind]
    have hall : ∀ group < weight.length, group ∈ ops.argsortDesc weight := fun group hgroup =>
      horder.mem_iff.mpr (mem_range.mpr hgroup)
    obtain ⟨packIndex, hpackIndex, hpackLen, hpackAt⟩ := @mapM_inBounds s.packIndex (by
      intro group hgroup
      rw [hinv.length_pack, ← hlen] at hgroup
      obtain ⟨pack, rank, hp, -⟩ := hinv.placed group (hall group hgroup)
      exact ⟨pack, hp⟩)
    obtain ⟨rankInPack, hrankInPack, hrankLen, hrankAt⟩ := @mapM_inBounds s.rankInPack (by
      intro group hgroup
      rw [hinv.length_rank, ← hlen] at hgroup
      obtain ⟨pack, rank, -, hr, -⟩ := hinv.placed group (hall group hgroup)
      exact ⟨rank, hr⟩)
    refine ⟨packIndex, rankInPack, ?_, ?_⟩
    · rw [hpackIndex, except_ok_bind, hrankInPack, except_ok_bind]
      rfl
    have hmem : ∀ group < numPacks * (weight.length / numPacks),
        group ∈ ops.argsortDesc weight := fun group hgroup => hall group (hlen.symm ▸ hgroup)
    refine Packed.of_distinct (hpackLen.trans hinv.length_pack) (hrankLen.trans hinv.length_rank)
      (fun group hgroup => ?_) (fun group hgroup other hother hpackEq hrankEq => ?_)
    · obtain ⟨pack, rank, hp, hr, hlt, hrank⟩ := hinv.placed group (hmem group hgroup)
      rw [hpackAt group (hinv.length_pack ▸ hgroup)] at hp
      rw [hrankAt group (hinv.length_rank ▸ hgroup)] at hr
      cases hp
      cases hr
      have hpackIn : packIndex.getD group 0 < s.packItems.length := hinv.length_items ▸ hlt
      rw [getD_eq_getElem s.packItems _ hpackIn] at hrank
      exact ⟨hlt, Nat.lt_of_lt_of_le hrank (hinv.items_le _ (getElem_mem hpackIn))⟩
    · refine hinv.distinct group (hmem group hgroup) other (hmem other hother) ?_ ?_
      · rw [hpackAt group (hinv.length_pack ▸ hgroup), hpackAt other (hinv.length_pack ▸ hother),
          hpackEq]
      · rw [hrankAt group (hinv.length_rank ▸ hgroup), hrankAt other (hinv.length_rank ▸ hother),
          hrankEq]

/-! ### `replicate_experts` -/

/-- The replicas of `numLog` experts in `numPhy` slots, numbered. -/
structure ReplicasOk (numLog numPhy : Nat) (s : Replicas) : Prop where
  length_phy : s.phy2log.length = numPhy
  length_rank : s.rank.length = numPhy
  length_cnt : s.logcnt.length = numLog
  numbered : Numbered (s.phy2log.zip s.rank) s.logcnt
  pos : ∀ expert < numLog, 1 ≤ s.logcnt.getD expert 0

/-- What is known while replicas are added, before slot `i` gets its own. -/
structure ReplicaInv (numLog numPhy i : Nat) (s : Replicas) : Prop where
  length_phy : s.phy2log.length = numPhy
  length_rank : s.rank.length = numPhy
  length_cnt : s.logcnt.length = numLog
  numbered : Numbered ((s.phy2log.zip s.rank).take i) s.logcnt
  pos : ∀ expert < numLog, 1 ≤ s.logcnt.getD expert 0

theorem ReplicaInv.init {numLog numPhy : Nat} (h : numLog ≤ numPhy) :
    ReplicaInv numLog numPhy numLog {
      phy2log := List.range numPhy
      rank := List.replicate numPhy 0
      logcnt := List.replicate numLog 1 } where
  length_phy := length_range
  length_rank := length_replicate
  length_cnt := length_replicate
  numbered := by
    have htake : ((List.range numPhy).zip (List.replicate numPhy 0)).take numLog =
        (List.range numLog).map fun expert => (expert, 0) := by
      refine ext_getElem (by simp [h]) fun i hi _ => ?_
      simp
    rw [htake]
    exact .once numLog
  pos expert hexpert := by simp [hexpert]

/-- A slot gets a replica of the most loaded expert. -/
theorem addReplica_spec {numLog numPhy i : Nat} {weight : List W} {s : Replicas}
    (h : ReplicaInv numLog numPhy i s) (hweight : weight.length = numLog) (hpos : 0 < numLog)
    (hi : i < numPhy) :
    ∃ s', addReplica ops weight s i = .ok s' ∧ ReplicaInv numLog numPhy (i + 1) s' := by
  let loads := List.zipWith ops.divCount weight s.logcnt
  have hloads : loads.length = numLog := by simp [loads, hweight, h.length_cnt]
  have hne : loads ≠ [] := ne_nil_of_length_pos (hloads ▸ hpos)
  have hexpert : ops.argmax loads < s.logcnt.length := by
    rw [h.length_cnt, ← hloads]
    exact ops.argmax_lt loads hne
  have hcount : s.logcnt[ops.argmax loads]? = some (s.logcnt.getD (ops.argmax loads) 0) := by
    rw [getD_eq_getElem _ _ hexpert, getElem?_eq_getElem hexpert]
  unfold addReplica
  dsimp only
  rw [if_neg (by omega), hcount]
  refine ⟨_, rfl, ?_⟩
  constructor
  · rw [length_set, h.length_phy]
  · rw [length_set, h.length_rank]
  · rw [length_set, h.length_cnt]
  · -- The slots before keep what they have.
    have htake : ((s.phy2log.set i (ops.argmax loads)).zip
        (s.rank.set i (s.logcnt.getD (ops.argmax loads) 0))).take (i + 1) =
        (s.phy2log.zip s.rank).take i ++
          [(ops.argmax loads, s.logcnt.getD (ops.argmax loads) 0)] := by
      have hlen : i < ((s.phy2log.set i (ops.argmax loads)).zip
          (s.rank.set i (s.logcnt.getD (ops.argmax loads) 0))).length := by
        simpa [h.length_phy, h.length_rank] using hi
      rw [take_succ_eq_append_getElem hlen, getElem_zip, getElem_set_self,
        getElem_set_self]
      simp only [zip_eq_zipWith, take_zipWith, take_set_of_le (Nat.le_refl i)]
    rw [htake]
    exact h.numbered.snoc hexpert
  · intro expert hlt
    dsimp only
    by_cases heq : expert = ops.argmax loads
    · rw [heq, getD_eq_getElem?_getD, getElem?_set_self hexpert]
      exact Nat.succ_le_succ (Nat.zero_le _)
    · rw [getD_eq_getElem?_getD, getElem?_set_ne (Ne.symm heq),
        ← getD_eq_getElem?_getD]
      exact h.pos expert hlt

/-- The loop over the redundant slots. -/
theorem addReplicas_spec {numLog numPhy i count : Nat} {weight : List W} {s : Replicas}
    (h : ReplicaInv numLog numPhy i s) (hweight : weight.length = numLog)
    (hpos : 0 < numLog ∨ count = 0) (hi : i + count = numPhy) :
    ∃ s', (List.range' i count).foldlM (addReplica ops weight) s = .ok s' ∧
      ReplicaInv numLog numPhy numPhy s' := by
  induction count generalizing i s with
  | zero =>
    obtain rfl : i = numPhy := hi
    exact ⟨s, rfl, h⟩
  | succ count ih =>
    have hlog : 0 < numLog := by omega
    obtain ⟨s', hs', hinv'⟩ :=
      @addReplica_spec W ops numLog numPhy i weight s h hweight hlog (by omega)
    obtain ⟨s'', hs'', hinv''⟩ := ih hinv' (.inl hlog) (by omega)
    refine ⟨s'', ?_, hinv''⟩
    rw [range'_succ, foldlM_cons, hs', except_ok_bind, hs'']

/-- `replicate_experts` numbers the replicas, if there are slots for all experts. -/
theorem replicateExperts_spec {numPhy : Nat} {weight : List W} (hpos : 0 < weight.length)
    (hle : weight.length ≤ numPhy) :
    ∃ s, replicateExperts ops weight numPhy = .ok s ∧ ReplicasOk weight.length numPhy s := by
  obtain ⟨s, hs, hinv⟩ := @addReplicas_spec W ops weight.length numPhy weight.length
    (numPhy - weight.length) weight _ (.init hle) rfl (.inl hpos) (by omega)
  refine ⟨s, ?_, hinv.length_phy, hinv.length_rank, hinv.length_cnt, ?_, hinv.pos⟩
  · unfold replicateExperts
    dsimp only
    rw [(pyAssert_eq_ok_iff (u := ())).mpr (decide_eq_true hle), except_ok_bind, hs]
  · have hnumbered := hinv.numbered
    rwa [take_of_length_le (by simp [hinv.length_phy])] at hnumbered

end Vllm.Proofs.Distributed
