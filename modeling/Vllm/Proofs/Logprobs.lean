import Vllm.Logprobs

/-!
# `Vllm.Proofs.Logprobs`: when flat logprobs are a list

A position has a range of rows. The ranges are in order and in the rows (`Flat`), so the range of a
slice that goes up begins at its first position and ends at its last one. For a slice that goes down
it ends before it begins, and there is no first position in an empty one.

* `agrees_of_read`: ranges that can be read are the dictionaries.
* `flat_getSlice`: the slices that keep `Flat`.
* `flat_logprobs_acts_as_list`: all that is built, and which of its slices are right.
-/

set_option autoImplicit false

namespace Vllm.Proofs.Logprobs

open Vllm.Lib Vllm.Logprobs FlatLogprobs List

variable {F : Type} {f g : FlatLogprobs F} {l l' : List (LogprobsOnePosition F)}
  {ps qs : List (Nat × Nat)} {s : PySlice}

/-- The flat logprobs have the length and the items of the list. -/
structure Agrees (f : FlatLogprobs F) (l : List (LogprobsOnePosition F)) : Prop where
  len : f.len = l.length
  getItem : ∀ i : Int, f.getItem i = pyItem l i
  iter : f.iter = .ok l

/-- The rows between two offsets. -/
def rowsOf (f : FlatLogprobs F) (p : Nat × Nat) : List (Int × Logprob F) :=
  (f.rows.drop p.1).take (p.2 - p.1)

/-- The positions have the ranges `ps`, in order. -/
structure Flat (f : FlatLogprobs F) (ps : List (Nat × Nat)) (l : List (LogprobsOnePosition F)) :
    Prop where
  starts : f.startIndices = ps.map fun p => (p.1 : Int)
  stops : f.endIndices = ps.map fun p => (p.2 : Int)
  inside : ∀ p ∈ ps, p.1 ≤ p.2 ∧ p.2 ≤ f.rows.length
  ordered : ps.Pairwise fun p q => p.2 ≤ q.1
  dicts : l = ps.map fun p => dictOf (rowsOf f p)

/-! ### Reading -/

/-- If the range of each position can be read, the dictionaries of the ranges are the list. -/
theorem agrees_of_read {β : Type} {qs : List β} {a b : β → Int} {d : β → LogprobsOnePosition F}
    (hstarts : f.startIndices = qs.map a) (hstops : f.endIndices = qs.map b)
    (hread : ∀ q ∈ qs, ∃ rows, f.readRows (a q) (b q) = .ok rows ∧ dictOf rows = d q) :
    Agrees f (qs.map d) := by
  have hitem : ∀ i : Int, f.getItem i = pyItem (qs.map d) i := by
    intro i
    rw [getItem, hstarts, hstops, pyItem_map, pyItem_map, pyItem_map]
    cases hq : pyItem qs i with
    | error e => rfl
    | ok q =>
      obtain ⟨rows, hrows, hd⟩ := hread q (mem_of_pyItem hq)
      simp only [Except.map, except_ok_bind, hrows, hd]
      rfl
  refine ⟨by simp [len, hstarts], hitem, ?_⟩
  refine mapM_eq_ok_iff_getElem?.mpr ⟨by simp [hstarts], fun k i hi => ?_⟩
  obtain ⟨hk, rfl⟩ := List.getElem?_eq_some_iff.mp hi
  have hin : k < (qs.map d).length := by simpa [hstarts] using hk
  rw [getElem_range, hitem]
  exact ⟨_, List.getElem?_eq_getElem hin, pyItem_natCast (List.getElem?_eq_getElem hin)⟩

theorem Flat.agrees (h : Flat f ps l) : Agrees f l := by
  rw [h.dicts]
  refine agrees_of_read h.starts h.stops fun p hp => ?_
  have hlen : ((p.2 : Int) - p.1).toNat = p.2 - p.1 := by omega
  refine ⟨rowsOf f p, ?_, rfl⟩
  rw [readRows, hlen]
  exact mapM_pyItem_between (h.inside p hp).2

/-! ### Positions at the end -/

/-- A dictionary is the one of its entries. -/
theorem dictOf_entries (d : LogprobsOnePosition F) : dictOf d.entries = d := by
  have h : (dictOf d.entries).entries = d.entries :=
    (PyDict.entries_insertAll d.nodup (by simp)).trans (nil_append _)
  generalize dictOf d.entries = d' at h
  cases d
  cases d'
  cases h
  rfl

theorem Flat.appendRows (h : Flat f ps l) (rows : List (Int × Logprob F)) :
    Flat (f.appendRows rows) (ps ++ [(f.rows.length, f.rows.length + rows.length)])
      (l ++ [dictOf rows]) := by
  constructor
  · simp [FlatLogprobs.appendRows, h.starts]
  · simp [FlatLogprobs.appendRows, h.stops]
  · intro p hp
    rcases mem_append.mp hp with hold | hnew
    · have := h.inside p hold
      simp only [FlatLogprobs.appendRows, length_append]
      omega
    · obtain rfl := mem_singleton.mp hnew
      simp [FlatLogprobs.appendRows]
  · refine pairwise_append.mpr ⟨h.ordered, pairwise_singleton .., fun p hp q hq => ?_⟩
    obtain rfl := mem_singleton.mp hq
    exact (h.inside p hp).2
  · rw [map_append, h.dicts]
    congr 1
    · refine map_congr_left fun p hp => ?_
      -- the range ends in the rows that were there
      have hin := h.inside p hp
      rw [rowsOf, rowsOf, FlatLogprobs.appendRows, drop_append_of_le_length (by omega),
        take_append_of_le_length (by rw [length_drop]; omega)]
    · simp [rowsOf, FlatLogprobs.appendRows]

/-- What a position is in a list of dictionaries. -/
def dictOrEmpty (d : Option (LogprobsOnePosition F)) : LogprobsOnePosition F := d.getD .empty

theorem Flat.append (h : Flat f ps l) (d : Option (LogprobsOnePosition F)) :
    ∃ ps', Flat (f.append d) ps' (l ++ [dictOrEmpty d]) := by
  cases d with
  | none => exact ⟨_, h.appendRows []⟩
  | some d =>
    have := h.appendRows d.entries
    rw [dictOf_entries] at this
    exact ⟨_, this⟩

theorem Flat.extend (ds : List (Option (LogprobsOnePosition F))) :
    ∀ {f : FlatLogprobs F} {ps : List (Nat × Nat)} {l : List (LogprobsOnePosition F)},
      Flat f ps l → ∃ ps', Flat (f.extend ds) ps' (l ++ ds.map dictOrEmpty) := by
  induction ds with
  | nil =>
    intro f ps l h
    exact ⟨ps, by simpa [FlatLogprobs.extend] using h⟩
  | cons d ds ih =>
    intro f ps l h
    obtain ⟨ps', h'⟩ := h.append d
    simpa [FlatLogprobs.extend] using ih h'

/-! ### Slices -/

/-- The object that a slice makes of the ranges that it selects. -/
theorem getSlice_eq (h : Flat f ps l) (hs : pySlice ps s = .ok qs) (hne : qs ≠ []) :
    f.getSlice s = .ok {
      startIndices := qs.map fun q => (q.1 : Int) - (qs.head hne).1
      endIndices := qs.map fun q => (q.2 : Int) - (qs.head hne).1
      rows := rowsOf f ((qs.head hne).1, (qs.getLast hne).2) } := by
  have hin : ∀ q ∈ qs, q.1 ≤ q.2 ∧ q.2 ≤ f.rows.length := by
    intro q hq
    exact h.inside q (mem_of_mem_pySlice hs hq)
  have hfirst := hin _ (head_mem hne)
  have hlast := hin _ (getLast_mem hne)
  have hmin : pyItem (qs.map fun q => (q.1 : Int)) 0 = .ok ((qs.head hne).1 : Int) := by
    apply pyItem_natCast (k := 0)
    rw [List.getElem?_map, ← List.head?_eq_getElem?, List.head?_eq_some_head hne, Option.map_some]
  have hmax : pyItem (qs.map fun q => (q.2 : Int)) (-1) = .ok ((qs.getLast hne).2 : Int) := by
    rw [pyItem_map, pyItem_last hne, Except.map]
  have hrows := pySlice_between (x := f.rows) (hfirst.1.trans hfirst.2) hlast.2
  simp only [getSlice, h.starts, h.stops, pySlice_map, hs, Except.map,
    except_ok_bind, hmin, hmax, hrows, map_map]
  rfl

/-- A slice whose ranges are in order is made of them. -/
theorem flat_getSlice (h : Flat f ps l) (hs : pySlice ps s = .ok qs) (hne : qs ≠ [])
    (hordered : qs.Pairwise fun p q => p.2 ≤ q.1) :
    ∃ g ps', f.getSlice s = .ok g ∧ Flat g ps' (qs.map fun p => dictOf (rowsOf f p)) := by
  have hin : ∀ q ∈ qs, q.1 ≤ q.2 ∧ q.2 ≤ f.rows.length := by
    intro q hq
    exact h.inside q (mem_of_mem_pySlice hs hq)
  -- no range begins before the first one or ends after the last one
  have hfirst : ∀ q ∈ qs, (qs.head hne).1 ≤ q.1 := by
    intro q hq
    cases qs with
    | nil => cases hq
    | cons p qs =>
      rcases mem_cons.mp hq with rfl | hq
      · exact Nat.le_refl _
      · exact (hin p mem_cons_self).1.trans ((pairwise_cons.mp hordered).1 q hq)
  have hlast : ∀ q ∈ qs, q.2 ≤ (qs.getLast hne).2 := by
    intro q hq
    rcases mem_append.mp (dropLast_append_getLast hne ▸ hq) with hq' | hq'
    · rw [← dropLast_append_getLast hne] at hordered
      have hle := (pairwise_append.mp hordered).2.2 q hq' _ (mem_singleton_self _)
      exact hle.trans (hin _ (getLast_mem hne)).1
    · rw [mem_singleton.mp hq']
  refine ⟨_, qs.map fun q => (q.1 - (qs.head hne).1, q.2 - (qs.head hne).1),
    getSlice_eq h hs hne, ?_, ?_, ?_, ?_, ?_⟩
  · simp only [map_map]
    refine map_congr_left fun q hq => ?_
    have := hfirst q hq
    simp only [Function.comp_apply]
    omega
  · simp only [map_map]
    refine map_congr_left fun q hq => ?_
    have := hfirst q hq
    have := hin q hq
    simp only [Function.comp_apply]
    omega
  · intro p hp
    obtain ⟨q, hq, rfl⟩ := mem_map.mp hp
    have := hfirst q hq
    have := hlast q hq
    have := hin q hq
    have := hin _ (getLast_mem hne)
    simp only [rowsOf, length_take, length_drop]
    omega
  · refine pairwise_map.mpr (hordered.imp fun hle => ?_)
    omega
  · simp only [map_map]
    refine map_congr_left fun q hq => congrArg dictOf ?_
    have hq1 := hfirst q hq
    have hq2 := hlast q hq
    have := hin q hq
    simp only [rowsOf, drop_take, drop_drop, take_take]
    congr 1
    · omega
    · rw [Nat.add_sub_cancel' hq1]

/-- The slices that the flat logprobs are right for. -/
def Right (s : PySlice) (l' : List (LogprobsOnePosition F)) : Prop :=
  l' ≠ [] ∧ (0 < s.step.getD 1 ∨ l'.length = 1)

theorem Flat.slice (h : Flat f ps l) (hs : pySlice l s = .ok l') (hright : Right s l') :
    ∃ g ps', f.getSlice s = .ok g ∧ Flat g ps' l' := by
  rw [h.dicts, pySlice_map] at hs
  cases hqs : pySlice ps s with
  | error e => rw [hqs] at hs; cases hs
  | ok qs =>
    rw [hqs] at hs
    cases hs
    obtain ⟨hne, hup⟩ := hright
    have hne' : qs ≠ [] := fun h0 => hne (by rw [h0, map_nil])
    refine flat_getSlice h hqs hne' ?_
    rcases hup with hstep | hone
    · exact h.ordered.sublist (pySlice_sublist hqs hstep)
    · rw [length_map] at hone
      obtain ⟨q, rfl⟩ := length_eq_one_iff.mp hone
      exact pairwise_singleton ..

/-- A slice that goes down over more than one position has no rows. -/
theorem rows_of_down (h : Flat f ps l) (hs : pySlice ps s = .ok qs) (hdown : ¬ 0 < s.step.getD 1)
    (hne : qs ≠ []) (hlen : qs.length ≠ 1) :
    rowsOf f ((qs.head hne).1, (qs.getLast hne).2) = [] := by
  have hordered := pairwise_reverse.mp
    (h.ordered.sublist (pySlice_reverse_sublist hs hdown))
  cases qs with
  | nil => exact absurd rfl hne
  | cons p qs =>
    have hqs : qs ≠ [] := by
      intro h0
      rw [h0] at hlen
      exact hlen rfl
    have hle := (pairwise_cons.mp hordered).1 _ (getLast_mem hqs)
    rw [rowsOf, head_cons, getLast_cons hqs, Nat.sub_eq_zero_of_le hle, take_zero]

/-- Without rows only empty ranges are read. -/
theorem le_of_readRows {rows : List (Int × Logprob F)} {a b : Int} (hnone : f.rows = [])
    (h : f.readRows a b = .ok rows) : b ≤ a := by
  by_contra hlt
  have hget : ((List.range (b - a).toNat).map fun k : Nat => a + k)[0]? = some (a + (0 : Nat)) := by
    rw [List.getElem?_map, List.getElem?_range (by omega), Option.map_some]
  obtain ⟨row, -, hrow⟩ := (mapM_eq_ok_iff_getElem?.mp h).2 0 _ hget
  have hmem := mem_of_pyItem hrow
  rw [hnone] at hmem
  cases hmem

theorem rows_of_dictOf_empty {rows : List (Int × Logprob F)} (h : dictOf rows = .empty) :
    rows = [] := by
  cases rows with
  | nil => rfl
  | cons row rows =>
    obtain ⟨v, -, hget⟩ := PyDict.get?_insertAll_of_mem .empty
      (mem_map_of_mem (mem_cons_self (a := row) (l := rows)))
    rw [← dictOf, h, PyDict.get?_empty] at hget
    cases hget

/-- Such a slice is the one of the list if there is nothing in its positions. -/
theorem agrees_down_iff (h : Flat f ps l) (hs : pySlice ps s = .ok qs)
    (hdown : ¬ 0 < s.step.getD 1) (hne : qs ≠ []) (hlen : qs.length ≠ 1) :
    (∃ g, f.getSlice s = .ok g ∧ Agrees g (qs.map fun p => dictOf (rowsOf f p))) ↔
      ∀ d ∈ qs.map fun p => dictOf (rowsOf f p), d = .empty := by
  have hrows := rows_of_down h hs hdown hne hlen
  rw [getSlice_eq h hs hne, hrows]
  constructor
  · rintro ⟨g, hg, hagrees⟩ d hd
    cases hg
    obtain ⟨q, hq, rfl⟩ := mem_map.mp hd
    obtain ⟨k, hk⟩ := mem_iff_getElem?.mp hq
    have hitem := hagrees.getItem k
    simp only [getItem, pyItem_map, pyItem_natCast hk, Except.map,
      except_ok_bind] at hitem
    obtain ⟨rows, hread, -⟩ := bind_ok hitem
    have hle := le_of_readRows rfl hread
    rw [rowsOf, Nat.sub_eq_zero_of_le (by omega), take_zero]
    rfl
  · intro hempty
    refine ⟨_, rfl, agrees_of_read rfl rfl fun q hq => ⟨[], ?_, ?_⟩⟩
    · -- a range without rows begins where it ends
      have hin := h.inside q (mem_of_mem_pySlice hs hq)
      have hnone := congrArg List.length
        (rows_of_dictOf_empty (hempty _ (mem_map_of_mem hq)))
      simp only [rowsOf, length_take, length_drop, length_nil] at hnone
      have hzero : ((q.2 : Int) - (qs.head hne).1 - (q.1 - (qs.head hne).1)).toNat = 0 := by omega
      rw [readRows, hzero]
      rfl
    · exact (hempty _ (mem_map_of_mem hq)).symm

/-! ### All that is built -/

/-- The flat logprobs that calls build, with the list that the same calls on a list build. What is
iterated over by `extend` may itself be such an object. -/
inductive Built : FlatLogprobs F → List (LogprobsOnePosition F) → Prop
  | new : Built {} []
  | append {f : FlatLogprobs F} {l : List (LogprobsOnePosition F)}
      (d : Option (LogprobsOnePosition F)) : Built f l → Built (f.append d) (l ++ [dictOrEmpty d])
  | appendFast {f : FlatLogprobs F} {l : List (LogprobsOnePosition F)} (tokenIds : List Int)
      (logprobs : List F) (ranks : List Int) (decodedTokens : List (Option String)) : Built f l →
      Built (f.appendFast tokenIds logprobs ranks decodedTokens)
        (l ++ [dictOf (zipRows tokenIds logprobs ranks decodedTokens)])
  | extend {f : FlatLogprobs F} {l : List (LogprobsOnePosition F)}
      (ds : List (Option (LogprobsOnePosition F))) : Built f l →
      Built (f.extend ds) (l ++ ds.map dictOrEmpty)
  | slice {f g : FlatLogprobs F} {l l' : List (LogprobsOnePosition F)} {s : PySlice} : Built f l →
      pySlice l s = .ok l' → Right s l' → f.getSlice s = .ok g → Built g l'

theorem Built.flat (h : Built f l) : ∃ ps, Flat f ps l := by
  induction h with
  | new => exact ⟨[], rfl, rfl, by simp, .nil, rfl⟩
  | append d _ ih =>
    obtain ⟨ps, hflat⟩ := ih
    exact hflat.append d
  | appendFast tokenIds logprobs ranks decodedTokens _ ih =>
    obtain ⟨ps, hflat⟩ := ih
    exact ⟨_, hflat.appendRows _⟩
  | extend ds _ ih =>
    obtain ⟨ps, hflat⟩ := ih
    exact Flat.extend ds hflat
  | slice _ hs hright hget ih =>
    obtain ⟨ps, hflat⟩ := ih
    obtain ⟨g, ps', hg, hflat'⟩ := hflat.slice hs hright
    cases hg.symm.trans hget
    exact ⟨ps', hflat'⟩

/-- In every run whose slices select a position, and go up or select only one, the flat logprobs
have the length and the items of the list. A further slice is the one of the list if and only if it
selects a position, and goes up or selects only one or only empty ones. -/
theorem flat_logprobs_acts_as_list (h : Built f l) : Agrees f l ∧ ∀ s l', pySlice l s = .ok l' →
      ((∃ g, f.getSlice s = .ok g ∧ Agrees g l') ↔
        l' ≠ [] ∧ (0 < s.step.getD 1 ∨ l'.length = 1 ∨ ∀ d ∈ l', d = .empty)) := by
  obtain ⟨ps, hflat⟩ := h.flat
  refine ⟨hflat.agrees, fun s l' hs => ?_⟩
  by_cases hright : Right s l'
  · obtain ⟨g, ps', hg, hflat'⟩ := hflat.slice hs hright
    exact ⟨fun _ => ⟨hright.1, hright.2.imp_right .inl⟩, fun _ => ⟨g, hg, hflat'.agrees⟩⟩
  · rw [hflat.dicts, pySlice_map] at hs
    cases hqs : pySlice ps s with
    | error e => rw [hqs] at hs; cases hs
    | ok qs =>
      rw [hqs] at hs
      cases hs
      by_cases hne : qs = []
      · subst hne
        refine ⟨fun ⟨g, hg, _⟩ => ?_, fun hno => absurd rfl hno.1⟩
        simp only [getSlice, hflat.starts, pySlice_map, hqs, Except.map] at hg
        cases hg
      · have hne' : qs.map (fun p => dictOf (rowsOf f p)) ≠ [] := by simpa using hne
        have hnot : ¬ (0 < s.step.getD 1 ∨ qs.length = 1) := fun hor =>
          hright ⟨hne', by rwa [length_map]⟩
        rw [not_or] at hnot
        rw [agrees_down_iff hflat hqs hnot.1 hne hnot.2, length_map]
        exact ⟨fun hall => ⟨hne', .inr (.inr hall)⟩,
          fun hor => (hor.2.resolve_left hnot.1).resolve_left hnot.2⟩

/-- A position with one token, and one for which there are no logprobs. -/
theorem two_positions_agree :
    Agrees ((({} : FlatLogprobs Nat).appendFast [5] [7] [1] [some "a"]).append none)
      ([dictOf (zipRows [5] [7] [1] [some "a"])] ++ [dictOrEmpty none]) :=
  (flat_logprobs_acts_as_list (.append none (.appendFast [5] [7] [1] [some "a"] .new))).1

/-- `x[1:]` of one position raises, where the slice of the list is empty. -/
theorem empty_slice_raises :
    pySlice [dictOrEmpty (none : Option (LogprobsOnePosition Nat))] ⟨some 1, none, none⟩ = .ok [] ∧
      ¬ ∃ g, (({} : FlatLogprobs Nat).append none).getSlice ⟨some 1, none, none⟩ = .ok g ∧
        Agrees g [] := by
  refine ⟨rfl, ?_⟩
  rintro ⟨g, hg, -⟩
  cases hg

end Vllm.Proofs.Logprobs
