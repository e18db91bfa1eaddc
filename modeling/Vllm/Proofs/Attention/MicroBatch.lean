import Mathlib.Data.Int.ConditionallyCompleteOrder
import Vllm.Lib.MapM
import Vllm.Proofs.Attention.Metadata
import Vllm.Proofs.Worker.BatchRows
import Mathlib.Order.Interval.Finset.Basic
import Mathlib.Order.Interval.Finset.Nat
import Mathlib.Data.Int.Interval

/-!
# `Vllm.Proofs.Attention.MicroBatch`: two micro-batches that are the batch

The split point cuts the query of at most one request. `Cut` gives that request, with the requests
before and after it; a split between two requests is a cut before the first token of the second.

The first micro-batch ends with the part of the request before the cut, the second one begins with
the part from the cut on. Everything about the second part says so, except the number of computed
tokens: it is still the one of the whole request. `sameComputation_iff` says that the micro-batches
are the batch exactly when no request is cut.

* `Cut`: where the split point is.
* `makeMetadata_first`, `makeMetadata_second`: the metadata of the micro-batches.
* `SameComputation`: what is asked of the two.
-/

set_option autoImplicit false

namespace Vllm.Proofs.Attention

open Vllm.Lib Vllm.V1.Worker Vllm.V1.Attention Vllm.Proofs.Worker List

/-! ### The starts of parts of the batch -/

section Starts
variable {spans l r : List Span} {s : Span}

theorem startLocs_cons :
    startLocs (s :: r) = 0 :: (startLocs r).map fun n => (s.queryLen : Int) + n := by
  apply ext_getElem?
  intro i
  by_cases hi : i ≤ (s :: r).length
  · rw [getElem?_startLocs hi]
    cases i with
    | zero => rfl
    | succ i =>
      have hi' : i ≤ r.length := Nat.le_of_succ_le_succ hi
      rw [getElem?_cons_succ, getElem?_map, getElem?_startLocs hi', take_succ_cons,
        numTokens_cons]
      simp
  · rw [getElem?_eq_none, getElem?_eq_none]
    · simp at hi ⊢
      omega
    · simp at hi ⊢
      omega

theorem startLocs_concat :
    startLocs (l ++ [s]) = startLocs l ++ [((numTokens l + s.queryLen : Nat) : Int)] := by
  induction l with
  | nil => simp [startLocs, cumsum, cumsumFrom]
  | cons t l ih =>
    rw [cons_append, startLocs_cons, ih, startLocs_cons, map_append, cons_append,
      numTokens_cons]
    simp [Int.add_assoc]

/-- The first part of the first request is left out. -/
theorem subFromRest_startLocs {v : Nat} (h : v ≤ s.queryLen) : subFromRest (startLocs (s :: r)) v =
      startLocs (⟨s.queryLen - v, s.numComputed + v⟩ :: r) := by
  unfold subFromRest
  rw [startLocs_cons, startLocs_cons]
  simp only [take_succ_cons, take_zero, drop_succ_cons, drop_zero,
    map_map, singleton_append]
  congr 1
  refine map_congr_left fun n _ => ?_
  simp only [Function.comp_apply]
  omega

/-- The last part of the last request is left out. -/
theorem subFromLast_startLocs {v : Nat} (h : v ≤ s.queryLen) :
    subFromLast (startLocs (l ++ [s])) v = startLocs (l ++ [⟨s.queryLen - v, s.numComputed⟩]) := by
  unfold subFromLast
  rw [startLocs_concat, startLocs_concat, dropLast_concat, List.getLast?_concat]
  simp only [Option.map_some, Option.toList_some]
  congr 2
  omega

theorem subFromLast_zero (x : List Int) : subFromLast x 0 = x := by
  unfold subFromLast
  rcases eq_nil_or_concat x with rfl | ⟨x, v, rfl⟩
  · rfl
  · simp

theorem subFromRest_zero (x : List Int) : subFromRest x 0 = x := by
  unfold subFromRest
  cases x <;> simp

theorem length_subFromLast (x : List Int) (v : Int) : (subFromLast x v).length = x.length := by
  unfold subFromLast
  rcases eq_nil_or_concat x with rfl | ⟨x, w, rfl⟩
  · rfl
  · simp

theorem length_subFromRest (x : List Int) (v : Int) : (subFromRest x v).length = x.length := by
  unfold subFromRest
  cases x <;> simp

/-- `slice_query_start_locs` gives the starts of the requests in the slice. -/
theorem sliceQueryStartLocs_startLocs {a c : Nat} (hac : a ≤ c) (hc : c ≤ spans.length) :
    sliceQueryStartLocs (startLocs spans) ⟨a, c⟩ = .ok (startLocs (Slice.of ⟨a, c⟩ spans)) := by
  unfold sliceQueryStartLocs
  rw [getItem_eq_ok_iff.mpr (getElem?_startLocs (hac.trans hc)), except_ok_bind]
  refine congrArg Except.ok ?_
  apply ext_getElem?
  intro j
  unfold Slice.of
  dsimp only
  rw [getElem?_map, getElem?_take]
  by_cases hj : j < c + 1 - a
  · have hlen : ((spans.drop a).take (c - a)).length = c - a := by
      rw [length_take, length_drop]
      omega
    rw [if_pos hj, getElem?_drop, getElem?_startLocs (by omega),
      getElem?_startLocs (by omega), take_take, Nat.min_eq_left (by omega), Option.map_some]
    -- What is before the slice is counted on both sides.
    rw [take_add, numTokens_append]
    push_cast
    congr 1
    omega
  · rw [if_neg hj, Option.map_none, eq_comm, getElem?_eq_none_iff, length_startLocs,
      length_take, length_drop]
    omega

end Starts

/-! ### The cut -/

/-- The split point is in the query of `s`, after `off` of its tokens. -/
structure Cut (spans : List Span) (split : Nat) (l : List Span) (s : Span) (r : List Span)
    (off : Nat) : Prop where
  spans_eq : spans = l ++ s :: r
  split_eq : split = numTokens l + off
  off_lt : off < s.queryLen

/-- A split point before the end is in the query of some request. -/
theorem exists_cut {spans : List Span} {split : Nat} (h : split < numTokens spans) :
    ∃ l s r off, Cut spans split l s r off := by
  induction spans generalizing split with
  | nil => exact absurd h (Nat.not_lt_zero _)
  | cons t spans ih =>
    by_cases ht : split < t.queryLen
    · exact ⟨[], t, spans, split, rfl, (Nat.zero_add _).symm, ht⟩
    · rw [numTokens_cons] at h
      have hrest : split - t.queryLen < numTokens spans := by omega
      obtain ⟨l, s, r, off, hspans, hsplit, hoff⟩ := ih hrest
      refine ⟨t :: l, s, r, off, by rw [hspans]; rfl, ?_, hoff⟩
      rw [numTokens_cons]
      omega

/-- A prefix that holds up to an index and no longer. -/
theorem length_takeWhile_eq {α : Type} {p : α → Bool} {xs : List α} {k : Nat}
    (hk : k ≤ xs.length) (hlt : ∀ j < k, ∀ x, xs[j]? = some x → p x = true)
    (hstop : ∀ x, xs[k]? = some x → p x = false) : (xs.takeWhile p).length = k := by
  induction k generalizing xs with
  | zero =>
    cases xs with
    | nil => rfl
    | cons x xs => rw [takeWhile_cons_of_neg (by simp [hstop x rfl]), length_nil]
  | succ k ih =>
    cases xs with
    | nil => exact absurd hk (Nat.not_succ_le_zero k)
    | cons x xs =>
      rw [takeWhile_cons_of_pos (hlt 0 (Nat.succ_pos k) x rfl), length_cons,
        ih (Nat.le_of_succ_le_succ hk) (fun j hj => hlt (j + 1) (Nat.succ_lt_succ hj)) hstop]

namespace Cut
variable {spans l r : List Span} {s : Span} {split off : Nat}

/-- How many requests the first micro-batch has. -/
def firstStop (l : List Span) (off : Nat) : Nat := if off = 0 then l.length else l.length + 1

theorem length_lt (h : Cut spans split l s r off) : l.length < spans.length := by
  rw [h.spans_eq, length_append, length_cons]
  omega

theorem firstStop_le (h : Cut spans split l s r off) : firstStop l off ≤ spans.length := by
  have := h.length_lt
  unfold firstStop
  split <;> omega

theorem numTokens_take_le (h : Cut spans split l s r off) {j : Nat} (hj : j ≤ l.length) :
    numTokens (spans.take j) ≤ numTokens l := by
  have hmono : numTokens (spans.take j) ≤ numTokens (spans.take l.length) := numTokens_take_mono hj
  rwa [h.spans_eq, take_left, ← h.spans_eq] at hmono

theorem numTokens_take_succ (h : Cut spans split l s r off) :
    numTokens (spans.take (l.length + 1)) = numTokens l + s.queryLen := by
  rw [h.spans_eq, take_length_add_append, numTokens_append]
  simp

/-- Before the cut request, fewer tokens. -/
theorem numTokens_take_lt (h : Cut spans split l s r off) (hpos : ∀ t ∈ spans, 0 < t.queryLen)
    {j : Nat} (hj : j < l.length) : numTokens (spans.take j) < numTokens l := by
  have hlt : j < spans.length := hj.trans h.length_lt
  have hget : spans[j]? = some spans[j] := getElem?_eq_getElem hlt
  have hnext := h.numTokens_take_le (Nat.succ_le_of_lt hj)
  rw [Vllm.Proofs.Attention.numTokens_take_succ hget] at hnext
  have := hpos _ (getElem_mem hlt)
  omega

/-- `cu_num_tokens`. -/
theorem getElem?_cu {j : Nat} (hj : j ≤ spans.length) :
    (0 :: cumsum (spans.map Span.queryLen))[j]? = some (numTokens (spans.take j)) := by
  cases j with
  | zero => rfl
  | succ j =>
    have hlt : j < (spans.map Span.queryLen).length := by rwa [length_map]
    rw [getElem?_cons_succ, getElem?_cumsum hlt, numTokens, map_take]

theorem searchsortedLeft_eq (h : Cut spans split l s r off) (hpos : ∀ t ∈ spans, 0 < t.queryLen) :
    searchsortedLeft (0 :: cumsum (spans.map Span.queryLen)) split = firstStop l off := by
  have hstop := h.firstStop_le
  have hle := h.length_lt
  have hsplit := h.split_eq
  apply length_takeWhile_eq
  · simp
    omega
  · intro j hj x hx
    unfold firstStop at hj hstop
    rw [getElem?_cu (by split at hj <;> omega)] at hx
    rw [← Option.some.inj hx, decide_eq_true_eq]
    split at hj
    · have := h.numTokens_take_lt hpos hj
      omega
    · have := h.numTokens_take_le (Nat.le_of_lt_succ hj)
      omega
  · intro x hx
    rw [getElem?_cu hstop] at hx
    rw [← Option.some.inj hx, decide_eq_false_iff_not]
    unfold firstStop
    split
    · rw [h.spans_eq, take_left]
      omega
    · rw [h.numTokens_take_succ]
      have := h.off_lt
      omega

theorem searchsortedRight_eq (h : Cut spans split l s r off) :
    searchsortedRight (0 :: cumsum (spans.map Span.queryLen)) split = l.length + 1 := by
  have hle := h.length_lt
  have hsplit := h.split_eq
  apply length_takeWhile_eq
  · simp
    omega
  · intro j hj x hx
    rw [getElem?_cu (by omega)] at hx
    rw [← Option.some.inj hx, decide_eq_true_eq]
    have := h.numTokens_take_le (Nat.le_of_lt_succ hj)
    omega
  · intro x hx
    rw [getElem?_cu (by omega)] at hx
    rw [← Option.some.inj hx, decide_eq_false_iff_not, h.numTokens_take_succ]
    have := h.off_lt
    omega

end Cut

/-! ### The metadata -/

section Make
variable {m m' : CommonAttentionMetadata} {spans part : List Span} {computed : List Int}
  {u : UBatchSlice}

/-- The metadata of a micro-batch: its spans, and what it says is computed. -/
structure MicroBatch (u : UBatchSlice) (part : List Span) (computed : List Int)
    (m' : CommonAttentionMetadata) : Prop where
  queryStartLoc : m'.queryStartLoc = startLocs part
  queryStartLocCpu : m'.queryStartLocCpu = startLocs part
  seqLens : m'.seqLens = part.map fun s => (s.seqLen : Int)
  seqLensCpu : m'.seqLensCpu = part.map fun s => (s.seqLen : Int)
  numComputedTokensCpu : m'.numComputedTokensCpu = computed
  numReqs : m'.numReqs = part.length
  numActualTokens : m'.numActualTokens = u.numTokens

theorem Slice.of_map {α β : Type} (s : Slice) (f : α → β) (xs : List α) :
    s.of (xs.map f) = (s.of xs).map f := by
  unfold Slice.of
  rw [← map_drop, ← map_take]

/-- What is skipped at the two ends, and what the micro-batch is then. -/
theorem makeMetadata_spec (part : List Span) (first last : Int) (hm : Describes m spans)
    (hempty : u.isEmpty = false)
    (hreq : u.requestSlice.start < u.requestSlice.stop)
    (hstop : u.requestSlice.stop ≤ spans.length)
    (hstart : numTokens (spans.take u.requestSlice.start) ≤ u.tokenSlice.start)
    (hnext : u.tokenSlice.start < numTokens (spans.take (u.requestSlice.start + 1)))
    (hfirst : first = u.tokenSlice.start - numTokens (spans.take u.requestSlice.start))
    (hlast : last = if u.tokenSlice.stop < numTokens (spans.take u.requestSlice.stop)
      then (subFromRest (startLocs (u.requestSlice.of spans)) first).getLastD 0 - u.tokenSlice.stop
      else 0)
    (hstarts : subFromLast (subFromRest (startLocs (u.requestSlice.of spans)) first) last =
      startLocs part)
    (hseqs : subFromLast ((u.requestSlice.of spans).map fun s => (s.seqLen : Int)) last =
      part.map fun s => (s.seqLen : Int))
    (hpart : part ≠ []) :
    ∃ m', makeMetadataWithSlice u m = .ok m' ∧
      MicroBatch u part ((u.requestSlice.of spans).map fun s => (s.numComputed : Int)) m' := by
  have hassert : ∀ {c : Bool} {msg : String}, c = true → pyAssert c msg = .ok () :=
    fun h => pyAssert_eq_ok_iff.mpr h
  have hget : ∀ {i : Nat}, i ≤ spans.length →
      getItem m.queryStartLocCpu i = .ok (numTokens (spans.take i) : Int) := by
    intro i hi
    rw [getItem_eq_ok_iff, hm.queryStartLocCpu, getElem?_startLocs hi]
  have hslice : sliceQueryStartLocs (startLocs spans) u.requestSlice =
      .ok (startLocs (u.requestSlice.of spans)) :=
    sliceQueryStartLocs_startLocs (Nat.le_of_lt hreq) hstop
  have hlen : (u.requestSlice.of spans).length = u.requestSlice.stop - u.requestSlice.start := by
    unfold Slice.of
    rw [length_take, length_drop]
    omega
  -- The two flags say whether anything is skipped.
  have hskip : (if decide ((numTokens (spans.take u.requestSlice.start) : Int) <
      (u.tokenSlice.start : Int)) then (u.tokenSlice.start : Int) -
        numTokens (spans.take u.requestSlice.start) else 0) = first := by
    rw [hfirst]
    split
    · rfl
    · rename_i hnot
      simp only [decide_eq_true_eq, Int.not_lt] at hnot
      omega
  have hskip' : (if decide ((u.tokenSlice.stop : Int) - 1 <
      (numTokens (spans.take u.requestSlice.stop) : Int) - 1) then
        (subFromRest (startLocs (u.requestSlice.of spans)) first).getLastD 0 - u.tokenSlice.stop
      else 0) = last := by
    rw [hlast]
    simp only [decide_eq_true_eq, Int.sub_lt_sub_right_iff, Nat.cast_lt]
  unfold makeMetadataWithSlice
  rw [hassert (by rw [hempty]; rfl), except_ok_bind]
  dsimp only
  rw [hget (by omega), except_ok_bind, hassert (by simpa using hstart), except_ok_bind,
    hget (by omega), except_ok_bind, hassert (by simpa using hnext), except_ok_bind,
    hget hstop, except_ok_bind, hm.queryStartLocCpu, hm.queryStartLoc, hslice, except_ok_bind,
    except_ok_bind, hassert (by simp [hlen]; omega), except_ok_bind, hskip, hskip', hstarts,
    hm.seqLens, hm.seqLensCpu, Slice.of_map, hseqs, hm.numComputedTokensCpu, Slice.of_map]
  obtain ⟨maxSeqLen, hmaxSeq⟩ := maxItem_ok (x := part.map fun s => (s.seqLen : Int))
    (by simpa using hpart)
  obtain ⟨maxQueryLen, hmaxQuery⟩ := maxItem_ok (x := (stepDiffs (startLocs part)).map fun d => |d|)
    (by rw [stepDiffs_startLocs]; simpa using hpart)
  rw [hmaxSeq, except_ok_bind, hmaxQuery, except_ok_bind]
  have hlength : (startLocs part).length = (startLocs (u.requestSlice.of spans)).length := by
    rw [← hstarts, length_subFromLast, length_subFromRest]
  rw [length_startLocs, length_startLocs, hlen] at hlength
  refine ⟨_, rfl, rfl, rfl, rfl, rfl, rfl, ?_, rfl⟩
  show (u.requestSlice.stop : Int) - u.requestSlice.start = part.length
  omega

end Make

/-! ### The two micro-batches -/

section Two
variable {m : CommonAttentionMetadata} {spans l r : List Span} {s : Span} {split off : Nat}

/-- The slices of the micro-batches. -/
def firstSlice (split : Nat) (l : List Span) (off : Nat) : UBatchSlice :=
  { requestSlice := ⟨0, Cut.firstStop l off⟩
    tokenSlice := ⟨0, split⟩ }

def secondSlice (spans : List Span) (split : Nat) (l : List Span) : UBatchSlice :=
  { requestSlice := ⟨l.length, spans.length⟩
    tokenSlice := ⟨split, numTokens spans⟩ }

/-- The requests before the cut, with the part of the cut one that is before it. -/
def firstPart (l : List Span) (s : Span) (off : Nat) : List Span :=
  if off = 0 then l
  else l ++
    [{ queryLen := off
       numComputed := s.numComputed }]

/-- The part of the cut request from the cut on, and the requests after it. -/
def secondPart (s : Span) (r : List Span) (off : Nat) : List Span :=
  { queryLen := s.queryLen - off
    numComputed := s.numComputed + off } :: r

theorem maybeCreateUbatchSlices_spec (numReqsPadded : Nat) (h : Cut spans split l s r off)
    (hpos : ∀ t ∈ spans, 0 < t.queryLen) {numTokensPadded : Nat} {splitPoint : Option Nat} (hsplit : splitPoint.getD (numTokensPadded / 2) = split) :
    ∃ padded, maybeCreateUbatchSlices true (spans.map Span.queryLen) numTokensPadded numReqsPadded
      splitPoint = .ok (some ([firstSlice split l off, secondSlice spans split l], padded)) := by
  have hlast : (0 :: cumsum (spans.map Span.queryLen)).getLastD 0 = numTokens spans := by
    have hget := Cut.getElem?_cu (Nat.le_refl spans.length)
    rw [take_length] at hget
    rw [getLastD_eq_getLast?, List.getLast?_eq_getElem?]
    simp only [length_cons, length_cumsum, length_map, Nat.add_sub_cancel]
    rw [hget]
    rfl
  unfold maybeCreateUbatchSlices
  simp only [Bool.not_true, Bool.false_eq_true, if_false, hsplit, h.searchsortedLeft_eq hpos,
    h.searchsortedRight_eq, hlast, padOutUbatchSlices, except_ok_bind]
  rw [pyAssert_eq_ok_iff (u := ()) |>.mpr, except_ok_bind]
  · refine ⟨_, congrArg (fun u => Except.ok (some ([_, u], _))) ?_⟩
    simp [secondSlice]
  · simp [UBatchSlice.numTokens]

theorem makeMetadata_first (hm : Describes m spans) (h : Cut spans split l s r off)
    (hpos : ∀ t ∈ spans, 0 < t.queryLen) (hsplit_pos : 0 < split) :
    ∃ m', makeMetadataWithSlice (firstSlice split l off) m = .ok m' ∧
      MicroBatch (firstSlice split l off) (firstPart l s off)
        ((firstPart l s off).map fun t => (t.numComputed : Int)) m' := by
  have hsplit := h.split_eq
  have hoff := h.off_lt
  have hstop := h.firstStop_le
  have hslice : (firstSlice split l off).requestSlice.of spans =
      spans.take (Cut.firstStop l off) := rfl
  have hnext : 0 < numTokens (spans.take 1) := by
    have hlt : 0 < spans.length := Nat.lt_of_le_of_lt (Nat.zero_le _) h.length_lt
    have hget : spans[0]? = some spans[0] := getElem?_eq_getElem hlt
    have := hpos _ (getElem_mem hlt)
    rw [Vllm.Proofs.Attention.numTokens_take_succ hget]
    omega
  have hfirst : 0 < Cut.firstStop l off := by
    unfold Cut.firstStop
    split
    · refine length_pos_iff.mpr ?_
      rintro rfl
      rw [numTokens_nil] at hsplit
      omega
    · exact Nat.succ_pos _
  have hempty : (firstSlice split l off).isEmpty = false :=
    Bool.or_eq_false_iff.mpr ⟨decide_eq_false (Nat.ne_of_lt hfirst),
      decide_eq_false (Nat.ne_of_lt hsplit_pos)⟩
  by_cases hzero : off = 0
  · -- The split point is between two requests: nothing is skipped.
    have htake : spans.take (Cut.firstStop l off) = l := by
      rw [Cut.firstStop, if_pos hzero, h.spans_eq, take_left]
    have hpart : firstPart l s off = l := by rw [firstPart, if_pos hzero]
    have hl : l ≠ [] := by
      rw [Cut.firstStop, if_pos hzero] at hfirst
      exact length_pos_iff.mp hfirst
    have hspec := makeMetadata_spec l 0 0 hm hempty hfirst hstop (Nat.zero_le _) hnext (by simp [firstSlice])
      (by
        rw [if_neg]
        show ¬ split < numTokens (spans.take (Cut.firstStop l off))
        rw [htake]
        omega)
      (by rw [subFromLast_zero, subFromRest_zero, hslice, htake])
      (by rw [subFromLast_zero, hslice, htake]) hl
    rw [hslice, htake] at hspec
    rwa [hpart]
  · -- The last request is cut.
    have htake : spans.take (Cut.firstStop l off) = l ++ [s] := by
      rw [Cut.firstStop, if_neg hzero, h.spans_eq, take_length_add_append]
      rfl
    have hpart : firstPart l s off = l ++ [⟨off, s.numComputed⟩] := by rw [firstPart, if_neg hzero]
    have hrest : s.queryLen - (s.queryLen - off) = off := by omega
    have hspec := makeMetadata_spec (l ++ [⟨off, s.numComputed⟩]) 0
      ((s.queryLen - off : Nat) : Int) hm hempty hfirst hstop (Nat.zero_le _) hnext (by simp [firstSlice])
      (by
        rw [hslice, htake, subFromRest_zero, startLocs_concat, getLastD_concat, if_pos]
        · simp only [firstSlice]
          omega
        · show split < numTokens (spans.take (Cut.firstStop l off))
          rw [htake]
          simp
          omega)
      (by rw [subFromRest_zero, hslice, htake, subFromLast_startLocs (Nat.sub_le _ _), hrest])
      (by
        rw [hslice, htake]
        unfold subFromLast
        simp [Span.seqLen]
        omega)
      (by simp)
    rw [hslice, htake] at hspec
    rw [hpart]
    simpa using hspec

theorem makeMetadata_second (hm : Describes m spans) (h : Cut spans split l s r off) :
    ∃ m', makeMetadataWithSlice (secondSlice spans split l) m = .ok m' ∧
      MicroBatch (secondSlice spans split l) (secondPart s r off)
        ((s :: r).map fun t => (t.numComputed : Int)) m' := by
  have hsplit := h.split_eq
  have hoff := h.off_lt
  have hlt := h.length_lt
  have hslice : (secondSlice spans split l).requestSlice.of spans = s :: r := by
    show (spans.drop l.length).take (spans.length - l.length) = s :: r
    rw [take_of_length_le (by simp), h.spans_eq, drop_left]
  have hbefore : numTokens (spans.take l.length) = numTokens l := by
    rw [h.spans_eq, take_left]
  have htotal : numTokens (spans.take spans.length) = numTokens spans := by rw [take_length]
  have hsplit_lt : split < numTokens spans := by
    rw [h.spans_eq, numTokens_append, numTokens_cons]
    omega
  have hspec := makeMetadata_spec (secondPart s r off) (off : Int) 0 hm
    (u := secondSlice spans split l)
    (Bool.or_eq_false_iff.mpr
      ⟨decide_eq_false (Nat.ne_of_lt hlt), decide_eq_false (Nat.ne_of_lt hsplit_lt)⟩)
    hlt (Nat.le_refl _)
    (by show numTokens (spans.take l.length) ≤ split; omega)
    (by show split < numTokens (spans.take (l.length + 1)); rw [h.numTokens_take_succ]; omega)
    (by show (off : Int) = (split : Int) - numTokens (spans.take l.length); omega)
    (by
      rw [if_neg]
      show ¬ numTokens spans < numTokens (spans.take spans.length)
      omega)
    (by rw [subFromLast_zero, hslice, subFromRest_startLocs (Nat.le_of_lt hoff)]; rfl)
    (by
      rw [subFromLast_zero, hslice]
      simp [secondPart, Span.seqLen]
      omega)
    (cons_ne_nil _ _)
  rwa [hslice] at hspec

end Two

/-! ### The same computation -/

/-- The indices of the tokens of a micro-batch. -/
def tokenIndices (u : UBatchSlice) : List Nat :=
  List.range' u.tokenSlice.start (u.tokenSlice.stop - u.tokenSlice.start)

/-- The positions in the request of index `i` that a micro-batch has query tokens for. -/
def positions (u : UBatchSlice) (m : CommonAttentionMetadata) (i : Nat) : Finset Int :=
  if u.requestSlice.start ≤ i ∧ i < u.requestSlice.stop then
    let seqLen := m.seqLensCpu[i - u.requestSlice.start]?.getD 0
    let queryLen := (stepDiffs m.queryStartLocCpu)[i - u.requestSlice.start]?.getD 0
    -- The instances are named, as Mathlib has another order on `Int` that does not compute.
    @Finset.Ico Int instLatticeInt.toSemilatticeInf.toPartialOrder.toPreorder
      Int.instLocallyFiniteOrder (seqLen - queryLen) seqLen
  else ∅

/-- The starts of a micro-batch begin at 0, increase and end at the number of its tokens. -/
structure StartsOk (u : UBatchSlice) (m : CommonAttentionMetadata) : Prop where
  zero : m.queryStartLocCpu.head? = some 0
  increasing : m.queryStartLocCpu.Pairwise (· < ·)
  last : m.queryStartLocCpu.getLast? = some u.numTokens
  device : m.queryStartLoc = m.queryStartLocCpu ∧ m.seqLens = m.seqLensCpu

/-- `seq_len - query_len` is the entry of `num_computed_tokens_cpu`, for each request. -/
def ComputedOk (m : CommonAttentionMetadata) : Prop :=
  List.zipWith (· - ·) m.seqLensCpu (stepDiffs m.queryStartLocCpu) = m.numComputedTokensCpu

instance (m : CommonAttentionMetadata) : Decidable (ComputedOk m) :=
  inferInstanceAs (Decidable (List.zipWith (· - ·) m.seqLensCpu (stepDiffs m.queryStartLocCpu) =
    m.numComputedTokensCpu))

/-- Two micro-batches together are the batch. -/
structure SameComputation (spans : List Span) (u₀ u₁ : UBatchSlice)
    (m₀ m₁ : CommonAttentionMetadata) : Prop where
  tokens : tokenIndices u₀ ++ tokenIndices u₁ = List.range (numTokens spans)
  starts : StartsOk u₀ m₀ ∧ StartsOk u₁ m₁
  computed : ComputedOk m₀ ∧ ComputedOk m₁
  disjoint : ∀ i, Disjoint (positions u₀ m₀ i) (positions u₁ m₁ i)
  union : ∀ (i : Nat) s, spans[i]? = some s →
    positions u₀ m₀ i ∪ positions u₁ m₁ i = Finset.Ico (s.numComputed : Int) s.seqLen

section MicroBatch
variable {u : UBatchSlice} {part : List Span} {computed : List Int} {m' : CommonAttentionMetadata}

theorem MicroBatch.startsOk (h : MicroBatch u part computed m')
    (hpos : ∀ t ∈ part, 0 < t.queryLen) (htokens : u.numTokens = numTokens part) :
    StartsOk u m' where
  zero := by
    rw [h.queryStartLocCpu]
    rfl
  increasing := by
    rw [h.queryStartLocCpu, pairwise_iff_getElem]
    intro i j hi hj hij
    rw [length_startLocs] at hi hj
    have hgeti : (startLocs part)[i]? = some (numTokens (part.take i) : Int) :=
      getElem?_startLocs (Nat.le_of_lt_succ hi)
    have hgetj : (startLocs part)[j]? = some (numTokens (part.take j) : Int) :=
      getElem?_startLocs (Nat.le_of_lt_succ hj)
    rw [(List.getElem?_eq_some_iff.mp hgeti).2, (List.getElem?_eq_some_iff.mp hgetj).2]
    -- The request at `i` is between the two starts.
    have hlt : i < part.length := by omega
    have hstep := numTokens_take_succ (List.getElem?_eq_getElem hlt)
    have hmono : numTokens (part.take (i + 1)) ≤ numTokens (part.take j) := numTokens_take_mono hij
    have := hpos _ (getElem_mem hlt)
    have : numTokens (part.take i) < numTokens (part.take j) := by omega
    exact_mod_cast this
  last := by
    rw [h.queryStartLocCpu, List.getLast?_eq_getElem?, length_startLocs, Nat.add_sub_cancel,
      getElem?_startLocs (Nat.le_refl _), take_length, htokens]
  device := by
    rw [h.queryStartLoc, h.queryStartLocCpu, h.seqLens, h.seqLensCpu]
    exact ⟨rfl, rfl⟩

theorem MicroBatch.computedOk_iff (h : MicroBatch u part computed m') :
    ComputedOk m' ↔ computed = part.map fun t => (t.numComputed : Int) := by
  have hdiff : List.zipWith (· - ·) m'.seqLensCpu (stepDiffs m'.queryStartLocCpu) =
      part.map fun t => (t.numComputed : Int) := by
    rw [h.seqLensCpu, h.queryStartLocCpu, stepDiffs_startLocs, zipWith_map, zipWith_self]
    refine map_congr_left fun t _ => ?_
    unfold Span.seqLen
    omega
  unfold ComputedOk
  rw [hdiff, h.numComputedTokensCpu, eq_comm]

/-- The positions of a request of the micro-batch. -/
theorem MicroBatch.positions_eq (h : MicroBatch u part computed m') {i : Nat} {t : Span}
    (hin : u.requestSlice.start ≤ i ∧ i < u.requestSlice.stop)
    (ht : part[i - u.requestSlice.start]? = some t) :
    positions u m' i = Finset.Ico (t.numComputed : Int) t.seqLen := by
  unfold positions
  rw [if_pos hin, h.seqLensCpu, h.queryStartLocCpu, stepDiffs_startLocs]
  simp only [getElem?_map, ht, Option.map_some, Option.getD_some]
  congr 1
  unfold Span.seqLen
  omega

theorem positions_of_not_mem {i : Nat}
    (hout : ¬ (u.requestSlice.start ≤ i ∧ i < u.requestSlice.stop)) : positions u m' i = ∅ := by
  unfold positions
  rw [if_neg hout]

end MicroBatch

section Main
variable {m m₀ m₁ : CommonAttentionMetadata} {spans l r : List Span} {s : Span} {split off : Nat}
  {computed : List Int}

theorem Cut.boundary_iff (h : Cut spans split l s r off) :
    (∃ i, numTokens (spans.take i) = split) ↔ off = 0 := by
  have hsplit := h.split_eq
  have hoff := h.off_lt
  constructor
  · rintro ⟨i, hi⟩
    rcases Nat.lt_or_ge l.length i with hlt | hle
    · -- From the next request on there are too many tokens.
      have hmono : numTokens (spans.take (l.length + 1)) ≤ numTokens (spans.take i) :=
        numTokens_take_mono hlt
      rw [h.numTokens_take_succ] at hmono
      omega
    · have := h.numTokens_take_le hle
      omega
  · rintro rfl
    exact ⟨l.length, by rw [h.spans_eq, take_left]; omega⟩

theorem numTokens_firstPart (h : Cut spans split l s r off) :
    (firstSlice split l off).numTokens = numTokens (firstPart l s off) := by
  have hsplit := h.split_eq
  unfold firstPart
  show (split : Int) - (0 : Nat) = _
  split
  · omega
  · rw [numTokens_append]
    simp
    omega

theorem numTokens_secondPart (h : Cut spans split l s r off) :
    (secondSlice spans split l).numTokens = numTokens (secondPart s r off) := by
  have hsplit := h.split_eq
  have hoff := h.off_lt
  unfold secondPart
  show (numTokens spans : Int) - split = _
  rw [h.spans_eq, numTokens_append, numTokens_cons, numTokens_cons]
  dsimp only
  omega

theorem firstPart_pos (h : Cut spans split l s r off) (hpos : ∀ t ∈ spans, 0 < t.queryLen) :
    ∀ t ∈ firstPart l s off, 0 < t.queryLen := by
  intro t ht
  have hl : ∀ t ∈ l, 0 < t.queryLen := fun t ht => hpos t (by
    rw [h.spans_eq]
    exact mem_append_left _ ht)
  unfold firstPart at ht
  split at ht
  · exact hl t ht
  · rename_i hoff
    rcases mem_append.mp ht with ht | ht
    · exact hl t ht
    · rw [mem_singleton.mp ht]
      exact Nat.pos_of_ne_zero hoff

theorem secondPart_pos (h : Cut spans split l s r off) (hpos : ∀ t ∈ spans, 0 < t.queryLen) :
    ∀ t ∈ secondPart s r off, 0 < t.queryLen := by
  have hoff := h.off_lt
  refine forall_mem_cons.mpr ⟨by dsimp only; omega, ?_⟩
  intro t ht
  apply hpos
  rw [h.spans_eq]
  exact mem_append_right _ (mem_cons_of_mem _ ht)

/-- The requests before the cut one are in the first micro-batch. -/
theorem positions_first_before
    (h0 : MicroBatch (firstSlice split l off) (firstPart l s off) computed m₀) {i : Nat} {t : Span}
    (ht : l[i]? = some t) :
    positions (firstSlice split l off) m₀ i = Finset.Ico (t.numComputed : Int) t.seqLen := by
  have hi := (List.getElem?_eq_some_iff.mp ht).1
  refine h0.positions_eq ⟨Nat.zero_le i, ?_⟩ ?_
  · show i < Cut.firstStop l off
    unfold Cut.firstStop
    split <;> omega
  · show (firstPart l s off)[i]? = some t
    unfold firstPart
    split
    · exact ht
    · rw [List.getElem?_append_left hi, ht]

/-- Of the cut request, what is before the cut is in the first one. -/
theorem positions_first_cut
    (h0 : MicroBatch (firstSlice split l off) (firstPart l s off) computed m₀) :
    positions (firstSlice split l off) m₀ l.length =
      Finset.Ico (s.numComputed : Int) (s.numComputed + off) := by
  by_cases hoff : off = 0
  · rw [positions_of_not_mem, hoff]
    · simp
    · show ¬ (0 ≤ l.length ∧ l.length < Cut.firstStop l off)
      rw [Cut.firstStop, if_pos hoff]
      omega
  · rw [h0.positions_eq (t := ⟨off, s.numComputed⟩) ⟨Nat.zero_le _, ?_⟩ ?_]
    · simp [Span.seqLen]
    · show l.length < Cut.firstStop l off
      rw [Cut.firstStop, if_neg hoff]
      exact Nat.lt_succ_self _
    · show (firstPart l s off)[l.length]? = _
      rw [firstPart, if_neg hoff, getElem?_concat_length]

theorem positions_first_after {i : Nat} (hi : l.length < i) :
    positions (firstSlice split l off) m₀ i = ∅ := by
  apply positions_of_not_mem
  show ¬ (0 ≤ i ∧ i < Cut.firstStop l off)
  unfold Cut.firstStop
  split <;> omega

theorem positions_second_before {i : Nat} (hi : i < l.length) :
    positions (secondSlice spans split l) m₁ i = ∅ := by
  apply positions_of_not_mem
  show ¬ (l.length ≤ i ∧ i < spans.length)
  omega

/-- Of the cut request, what is from the cut on is in the second one. -/
theorem positions_second_cut (h : Cut spans split l s r off)
    (h1 : MicroBatch (secondSlice spans split l) (secondPart s r off) computed m₁) :
    positions (secondSlice spans split l) m₁ l.length =
      Finset.Ico ((s.numComputed : Int) + off) s.seqLen := by
  have hoff := h.off_lt
  have hget : (secondPart s r off)[l.length - l.length]? =
      some ⟨s.queryLen - off, s.numComputed + off⟩ := by
    rw [Nat.sub_self]
    rfl
  have hpos := h1.positions_eq (i := l.length) ⟨Nat.le_refl _, h.length_lt⟩ hget
  rw [hpos]
  simp only [Span.seqLen]
  congr 1
  omega

/-- The requests after the cut one are in the second micro-batch. -/
theorem positions_second_after (h : Cut spans split l s r off)
    (h1 : MicroBatch (secondSlice spans split l) (secondPart s r off) computed m₁) {i : Nat}
    {t : Span} (hi : l.length < i) (ht : spans[i]? = some t) :
    positions (secondSlice spans split l) m₁ i = Finset.Ico (t.numComputed : Int) t.seqLen := by
  refine h1.positions_eq ⟨Nat.le_of_lt hi, (List.getElem?_eq_some_iff.mp ht).1⟩ ?_
  show (secondPart s r off)[i - l.length]? = some t
  obtain ⟨k, rfl⟩ := Nat.exists_eq_add_of_lt hi
  rw [h.spans_eq, List.getElem?_append_right (by omega)] at ht
  have hk : l.length + k + 1 - l.length = k + 1 := by omega
  rw [hk] at ht ⊢
  exact ht

/-- The micro-batches are the batch when no request is cut. -/
theorem sameComputation_of_parts (h : Cut spans split l s r off)
    (hpos : ∀ t ∈ spans, 0 < t.queryLen)
    (h0 : MicroBatch (firstSlice split l off) (firstPart l s off)
      ((firstPart l s off).map fun t => (t.numComputed : Int)) m₀)
    (h1 : MicroBatch (secondSlice spans split l) (secondPart s r off)
      ((s :: r).map fun t => (t.numComputed : Int)) m₁) :
    SameComputation spans (firstSlice split l off) (secondSlice spans split l) m₀ m₁ ↔ off = 0 := by
  have hsplit := h.split_eq
  have hoff := h.off_lt
  have hcomputed : ComputedOk m₁ ↔ off = 0 := by
    rw [h1.computedOk_iff]
    simp [secondPart]
  constructor
  · exact fun hsame => hcomputed.mp hsame.computed.2
  · intro hzero
    refine ⟨?_, ⟨h0.startsOk (firstPart_pos h hpos) (numTokens_firstPart h),
      h1.startsOk (secondPart_pos h hpos) (numTokens_secondPart h)⟩,
      ⟨h0.computedOk_iff.mpr rfl, hcomputed.mpr hzero⟩, ?_, ?_⟩
    · show List.range' 0 (split - 0) ++ List.range' split (numTokens spans - split) = _
      have hle : split ≤ numTokens spans := by
        rw [h.spans_eq, numTokens_append, numTokens_cons]
        omega
      rw [range_eq_range', Nat.sub_zero]
      have happend := range'_append_1 (s := 0) (m := split) (n := numTokens spans - split)
      rw [Nat.zero_add] at happend
      rw [happend]
      congr 1
      omega
    · intro i
      rcases Nat.lt_trichotomy i l.length with hi | rfl | hi
      · rw [positions_second_before hi]
        exact Finset.disjoint_empty_right _
      · rw [positions_first_cut h0, positions_second_cut h h1]
        exact Finset.Ico_disjoint_Ico_consecutive _ _ _
      · rw [positions_first_after hi]
        exact Finset.disjoint_empty_left _
    · intro i t ht
      rcases Nat.lt_trichotomy i l.length with hi | rfl | hi
      · rw [positions_second_before hi, Finset.union_empty]
        rw [h.spans_eq, getElem?_append_left hi] at ht
        exact positions_first_before h0 ht
      · rw [h.spans_eq, getElem?_append_right (Nat.le_refl _), Nat.sub_self] at ht
        cases ht
        rw [positions_first_cut h0, positions_second_cut h h1]
        apply Finset.Ico_union_Ico_eq_Ico
        · omega
        · unfold Span.seqLen
          omega
      · rw [positions_first_after hi, Finset.empty_union]
        exact positions_second_after h h1 hi ht

/-- For every batch of requests with query tokens and every split point inside it, both functions
end, and the micro-batches are the batch exactly when the split point is between two requests. -/
theorem sameComputation_iff (hm : Describes m spans) (hpos : ∀ t ∈ spans, 0 < t.queryLen)
    {numTokensPadded numReqsPadded : Nat} {splitPoint : Option Nat}
    (hsplit : splitPoint.getD (numTokensPadded / 2) = split) (hfirst : 0 < split)
    (hlast : split < numTokens spans) :
    ∃ u₀ u₁ padded m₀ m₁,
      maybeCreateUbatchSlices true (spans.map Span.queryLen) numTokensPadded numReqsPadded
        splitPoint = .ok (some ([u₀, u₁], padded)) ∧
      splitAttnMetadata [u₀, u₁] m = .ok [m₀, m₁] ∧
      (SameComputation spans u₀ u₁ m₀ m₁ ↔ ∃ i, numTokens (spans.take i) = split) := by
  obtain ⟨l, s, r, off, hcut⟩ := exists_cut hlast
  obtain ⟨padded, hslices⟩ := maybeCreateUbatchSlices_spec numReqsPadded hcut hpos hsplit
  obtain ⟨m₀, hm₀, h₀⟩ := makeMetadata_first hm hcut hpos hfirst
  obtain ⟨m₁, hm₁, h₁⟩ := makeMetadata_second hm hcut
  refine ⟨_, _, padded, m₀, m₁, hslices, ?_, ?_⟩
  · unfold splitAttnMetadata
    rw [mapM_eq_ok_iff]
    exact .cons hm₀ (.cons hm₁ .nil)
  · rw [sameComputation_of_parts hcut hpos h₀ h₁, hcut.boundary_iff]

end Main

/-! ### Two prefills -/

/-- Two requests with eight query tokens each. -/
def twoPrefills : CommonAttentionMetadata :=
  { queryStartLoc := [0, 8, 16]
    queryStartLocCpu := [0, 8, 16]
    seqLens := [32, 40]
    numReqs := 2
    numActualTokens := 16
    maxQueryLen := 8
    maxSeqLen := 40
    blockTableTensor := [[1], [2]]
    slotMapping := [] }

def twoPrefillSpans : List Span := [⟨8, 24⟩, ⟨8, 32⟩]

theorem describes_twoPrefills : Describes twoPrefills twoPrefillSpans where
  queryStartLoc := by decide
  queryStartLocCpu := by decide
  seqLens := by decide
  seqLensCpu? := by intro l hl; cases hl
  numComputedTokensCpu? := by intro l hl; cases hl
  numReqs := rfl
  numActualTokens := by decide
  maxQueryLen := by decide

theorem sameComputation_iff_twoPrefills : ∃ u₀ u₁ padded m₀ m₁,
    maybeCreateUbatchSlices true (twoPrefillSpans.map Span.queryLen) 16 2 none =
      .ok (some ([u₀, u₁], padded)) ∧
    splitAttnMetadata [u₀, u₁] twoPrefills = .ok [m₀, m₁] ∧
    (SameComputation twoPrefillSpans u₀ u₁ m₀ m₁ ↔ ∃ i, numTokens (twoPrefillSpans.take i) = 8) :=
  sameComputation_iff describes_twoPrefills (by decide) rfl (by decide) (by decide)

/-- The split point is in the second request. Its part in the second micro-batch has 36 tokens
before it, and the metadata says 32. -/
theorem cut_request_miscounted : ∃ u₀ u₁ padded m₀ m₁,
    maybeCreateUbatchSlices true (twoPrefillSpans.map Span.queryLen) 16 2 (some 12) =
      .ok (some ([u₀, u₁], padded)) ∧
    splitAttnMetadata [u₀, u₁] twoPrefills = .ok [m₀, m₁] ∧
    ¬ SameComputation twoPrefillSpans u₀ u₁ m₀ m₁ :=
  ⟨_, _, _, _, _, rfl, rfl, fun h => absurd h.computed.2 (by decide)⟩

end Vllm.Proofs.Attention
