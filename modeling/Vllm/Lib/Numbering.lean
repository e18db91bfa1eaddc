import Vllm.Lib.Scatter

/-!
# `Vllm.Lib.Numbering`: the occurrences of numbers, numbered

A list of pairs of a number and the rank of its occurrence: the occurrences of `e` have the ranks
`0, …, counts[e] - 1`, each of them once. The order of the list says nothing about the ranks, so
that the list may be permuted.

* `Numbered.once`, `Numbered.snoc`: occurrences that are numbered while they are counted.
* `Numbered.append`, `Numbered.reindex`: lists one after the other, and other names for the numbers.
* `Numbered.mem_iff`: which pairs the list has.
* `Numbered.le_spare`: how often a number can occur when all of them do.
-/

set_option autoImplicit false

namespace Vllm.Lib

open List

/-- The occurrences of each number below `counts.length`, with their ranks. -/
structure Numbered (occs : List (Nat × Nat)) (counts : List Nat) : Prop where
  nodup : occs.Nodup
  number_lt : ∀ o ∈ occs, o.1 < counts.length
  rank_lt : ∀ o ∈ occs, o.2 < counts.getD o.1 0
  count_eq : ∀ e < counts.length, (occs.map Prod.fst).count e = counts.getD e 0

namespace Numbered
variable {occs occs' : List (Nat × Nat)} {counts counts' : List Nat}

theorem perm (h : Numbered occs counts) (hperm : occs.Perm occs') : Numbered occs' counts where
  nodup := hperm.nodup_iff.mp h.nodup
  number_lt o ho := h.number_lt o (hperm.mem_iff.mpr ho)
  rank_lt o ho := h.rank_lt o (hperm.mem_iff.mpr ho)
  count_eq e he := by rw [← (hperm.map Prod.fst).count_eq e, h.count_eq e he]

/-- The ranks of the occurrences of a number are all the ranks below their count. -/
theorem mem_iff (h : Numbered occs counts) {e r : Nat} :
    (e, r) ∈ occs ↔ e < counts.length ∧ r < counts.getD e 0 := by
  constructor
  · intro ho
    exact ⟨h.number_lt _ ho, h.rank_lt _ ho⟩
  · rintro ⟨he, hr⟩
    let ranks := (occs.filter fun o => o.1 == e).map Prod.snd
    have hlen : ranks.length = counts.getD e 0 := by
      rw [← h.count_eq e he, List.count, countP_map, countP_eq_length_filter,
        length_map]
      rfl
    have hnodup : ranks.Nodup := by
      refine (h.nodup.filter _).map_on ?_
      intro a ha b hb hab
      have hae : a.1 = e := by simpa using (mem_filter.mp ha).2
      have hbe : b.1 = e := by simpa using (mem_filter.mp hb).2
      exact Prod.ext (hae.trans hbe.symm) hab
    have hlt : ∀ r ∈ ranks, r < ranks.length := by
      intro r hr
      obtain ⟨o, ho, rfl⟩ := mem_map.mp hr
      obtain ⟨hmem, hoe⟩ := mem_filter.mp ho
      have hoe : o.1 = e := by simpa using hoe
      have := h.rank_lt o hmem
      rwa [hoe, ← hlen] at this
    have hr' : r ∈ ranks := by
      rw [(perm_range_of_nodup hnodup hlt).mem_iff, mem_range, hlen]
      exact hr
    obtain ⟨o, ho, rfl⟩ := mem_map.mp hr'
    obtain ⟨hmem, hoe⟩ := mem_filter.mp ho
    have hoe : o.1 = e := by simpa using hoe
    subst hoe
    exact hmem

/-- Each number once. -/
theorem once (n : Nat) :
    Numbered ((List.range n).map fun e => (e, 0)) (List.replicate n 1) where
  nodup := nodup_range.map_on fun a _ b _ hab => (Prod.mk.inj hab).1
  number_lt o ho := by
    obtain ⟨e, he, rfl⟩ := mem_map.mp ho
    rw [length_replicate]
    exact mem_range.mp he
  rank_lt o ho := by
    obtain ⟨e, he, rfl⟩ := mem_map.mp ho
    simp [mem_range.mp he]
  count_eq e he := by
    rw [length_replicate] at he
    have hnames : ((List.range n).map fun e => (e, 0)).map Prod.fst = List.range n := by
      rw [map_map]
      exact map_id _
    rw [hnames, count_eq_one_of_mem nodup_range (mem_range.mpr he)]
    simp [he]

/-- Another occurrence of a number gets the count so far as its rank. -/
theorem snoc (h : Numbered occs counts) {e : Nat} (he : e < counts.length) :
    Numbered (occs ++ [(e, counts.getD e 0)]) (counts.set e (counts.getD e 0 + 1)) := by
  have hself : (counts.set e (counts.getD e 0 + 1)).getD e 0 = counts.getD e 0 + 1 := by
    rw [getD_eq_getElem?_getD, List.getElem?_set_self he]
    rfl
  have hother : ∀ i, i ≠ e → (counts.set e (counts.getD e 0 + 1)).getD i 0 = counts.getD i 0 := by
    intro i hi
    rw [getD_eq_getElem?_getD, List.getElem?_set_ne (Ne.symm hi), getD_eq_getElem?_getD]
  refine ⟨?_, fun o ho => ?_, fun o ho => ?_, fun i hi => ?_⟩
  · refine h.nodup.append (nodup_singleton _) fun o ho ho' => ?_
    rw [mem_singleton.mp ho'] at ho
    exact Nat.lt_irrefl _ (h.rank_lt _ ho)
  · rw [length_set]
    rcases mem_append.mp ho with ho | ho
    · exact h.number_lt o ho
    · rw [mem_singleton.mp ho]
      exact he
  · rcases mem_append.mp ho with ho | ho
    · have hlt := h.rank_lt o ho
      by_cases heq : o.1 = e
      · rw [heq, hself]
        rw [heq] at hlt
        exact Nat.lt_succ_of_lt hlt
      · rwa [hother _ heq]
    · rw [mem_singleton.mp ho, hself]
      exact Nat.lt_succ_self _
  · rw [length_set] at hi
    rw [map_append, count_append, h.count_eq i hi, map_singleton,
      count_singleton]
    by_cases heq : i = e
    · rw [heq, hself, beq_self_eq_true, if_pos rfl]
    · rw [hother i heq, if_neg (by simpa using Ne.symm heq), Nat.add_zero]

/-- Lists one after the other, with different numbers. -/
theorem append (h : Numbered occs counts) (h' : Numbered occs' counts') :
    Numbered (occs ++ occs'.map fun o => (o.1 + counts.length, o.2)) (counts ++ counts') where
  nodup := by
    refine h.nodup.append (h'.nodup.map_on ?_) ?_
    · intro a _ b _ hab
      obtain ⟨h1, h2⟩ := Prod.mk.inj hab
      exact Prod.ext (by omega) h2
    · intro o ho ho'
      obtain ⟨o', _, rfl⟩ := mem_map.mp ho'
      have := h.number_lt _ ho
      dsimp only at this
      omega
  number_lt o ho := by
    rw [length_append]
    rcases mem_append.mp ho with ho | ho
    · exact Nat.lt_add_right _ (h.number_lt o ho)
    · obtain ⟨o', ho', rfl⟩ := mem_map.mp ho
      have := h'.number_lt o' ho'
      dsimp only
      omega
  rank_lt o ho := by
    rcases mem_append.mp ho with ho | ho
    · rw [getD_append _ _ _ _ (h.number_lt o ho)]
      exact h.rank_lt o ho
    · obtain ⟨o', ho', rfl⟩ := mem_map.mp ho
      rw [getD_append_right _ _ _ _ (by dsimp only; omega)]
      simpa using h'.rank_lt o' ho'
  count_eq e he := by
    rw [map_append, count_append, map_map]
    by_cases hlt : e < counts.length
    · -- No number of the second list is small enough.
      have hzero : (occs'.map (Prod.fst ∘ fun o => (o.1 + counts.length, o.2))).count e = 0 := by
        rw [count_eq_zero]
        intro hmem
        obtain ⟨o, _, ho⟩ := mem_map.mp hmem
        simp only [Function.comp_apply] at ho
        omega
      rw [hzero, h.count_eq e hlt, getD_append _ _ _ _ hlt]
      rfl
    · have hzero : (occs.map Prod.fst).count e = 0 := by
        rw [count_eq_zero]
        intro hmem
        obtain ⟨o, ho, rfl⟩ := mem_map.mp hmem
        exact hlt (h.number_lt o ho)
      have hshift : (occs'.map (Prod.fst ∘ fun o => (o.1 + counts.length, o.2))).count e =
          (occs'.map Prod.fst).count (e - counts.length) := by
        rw [List.count, List.count, countP_map, countP_map]
        refine countP_congr fun o _ => ?_
        simp only [Function.comp_apply, beq_iff_eq]
        omega
      rw [length_append] at he
      rw [hzero, hshift, h'.count_eq _ (by omega),
        getD_append_right _ _ _ _ (Nat.le_of_not_lt hlt)]
      exact Nat.zero_add _

/-- The numbers have other names. -/
theorem reindex (h : Numbered occs counts) {name : List Nat}
    {new : Nat → Nat} (hname : name.Perm (List.range counts.length))
    (hnew : ∀ e < counts.length, new e < counts.length ∧ name.getD (new e) 0 = e)
    (hold : ∀ i < counts.length, new (name.getD i 0) = i) :
    Numbered (occs.map fun o => (new o.1, o.2)) (name.map fun e => counts.getD e 0) where
  nodup := by
    refine h.nodup.map_on ?_
    intro a ha b hb hab
    obtain ⟨h1, h2⟩ := Prod.mk.inj hab
    refine Prod.ext ?_ h2
    rw [← (hnew a.1 (h.number_lt a ha)).2, h1, (hnew b.1 (h.number_lt b hb)).2]
  number_lt o ho := by
    obtain ⟨o', ho', rfl⟩ := mem_map.mp ho
    rw [length_map, length_of_perm_range hname]
    exact (hnew o'.1 (h.number_lt o' ho')).1
  rank_lt o ho := by
    obtain ⟨o', ho', rfl⟩ := mem_map.mp ho
    obtain ⟨hlt, heq⟩ := hnew o'.1 (h.number_lt o' ho')
    have hlen := length_of_perm_range hname
    rw [getD_eq_getElem _ _ (by rw [length_map, hlen]; exact hlt), getElem_map,
      ← getD_eq_getElem _ 0, heq]
    exact h.rank_lt o' ho'
  count_eq i hi := by
    rw [length_map, length_of_perm_range hname] at hi
    have hlen : i < name.length := (length_of_perm_range hname).symm ▸ hi
    have hmem : name.getD i 0 ∈ name := by
      rw [getD_eq_getElem _ _ hlen]
      exact getElem_mem hlen
    have hcounts : (name.map fun e => counts.getD e 0).getD i 0 =
        counts.getD (name.getD i 0) 0 := by
      rw [getD_eq_getElem _ _ (by rwa [length_map]), getElem_map,
        getD_eq_getElem _ _ hlen]
    rw [hcounts, ← h.count_eq _ (lt_of_perm_range hname hmem), map_map, List.count, List.count,
      countP_map, countP_map]
    refine countP_congr fun o ho => ?_
    simp only [Function.comp_apply, beq_iff_eq]
    constructor
    · rintro rfl
      exact (hnew o.1 (h.number_lt o ho)).2.symm
    · intro heq
      rw [heq, hold i hi]

/-- When all numbers occur, each of them leaves a place for every other one. -/
theorem le_spare (h : Numbered occs counts) (hpos : ∀ e < counts.length, 1 ≤ counts.getD e 0)
    {e : Nat} (he : e < counts.length) : counts.getD e 0 + (counts.length - 1) ≤ occs.length := by
  -- The other numbers are among the occurrences that are not of `e`.
  have hothers : ((List.range counts.length).erase e).Subperm
      ((occs.map Prod.fst).filter fun x => !(x == e)) := by
    refine subperm_of_subset (nodup_range.erase e) ?_
    intro x hx
    obtain ⟨hne, hmem⟩ := (nodup_range.mem_erase_iff).mp hx
    have hlt := mem_range.mp hmem
    refine mem_filter.mpr ⟨?_, by simpa using hne⟩
    exact mem_map.mpr ⟨(x, 0), h.mem_iff.mpr ⟨hlt, hpos x hlt⟩, rfl⟩
  have hle := hothers.length_le
  rw [length_erase_of_mem (mem_range.mpr he), length_range,
    ← countP_eq_length_filter] at hle
  have hsplit := length_eq_countP_add_countP (fun x => x == e) (l := occs.map Prod.fst)
  have hcount := h.count_eq e he
  rw [List.count] at hcount
  rw [length_map, hcount] at hsplit
  simp only [Bool.not_eq_true, Bool.decide_eq_false] at hsplit
  omega

end Numbered

end Vllm.Lib
