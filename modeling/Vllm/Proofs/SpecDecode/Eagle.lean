import Mathlib.Algebra.Order.BigOperators.Group.List
import Vllm.Lib.MapM
import Vllm.Proofs.Attention.BatchReorder
import Vllm.Proofs.Attention.Metadata
import Vllm.V1.SpecDecode.Eagle

/-!
# `Vllm.Proofs.SpecDecode.Eagle`: the inputs of the draft model

The indices are an `arange` over the new tokens, less the new start of each request and plus the old
one. What is counted through in a request begins at its new start, so that the new starts cancel and
the request has its indices from the old start on (`indices_eq`).

* `mem_segIndices_iff`, `pairwise_segIndices`: the tokens that were not rejected, in order.
* `prepare_inputs_drops_rejected`: what is returned for a batch.
-/

set_option autoImplicit false

namespace Vllm.Proofs.SpecDecode

open Vllm.Lib Vllm.V1.Attention Vllm.V1.Worker Vllm.V1.SpecDecode Vllm.Proofs.Attention List

/-- A request of the batch, and how many of its last tokens were rejected. -/
structure DraftReq where
  span : Span
  rejected : Nat

/-- The number of tokens that were not rejected. -/
def DraftReq.kept (r : DraftReq) : Nat := r.span.queryLen - r.rejected

variable {reqs : List DraftReq}

/-- The numbers as integers. -/
def ints (ns : List Nat) : List Int := ns.map fun n : Nat => (n : Int)

theorem scanl_ints (s : Nat) (ns : List Nat) :
    (ints ns).scanl (· + ·) (s : Int) = ints (s :: cumsumFrom s ns) := by
  induction ns generalizing s with
  | nil => rfl
  | cons n ns ih =>
    have hih := ih (s + n)
    rw [Nat.cast_add] at hih
    simp only [ints, map_cons, scanl_cons, cumsumFrom] at hih ⊢
    rw [hih]

/-- The new starts cancel. -/
theorem indices_eq (len count : DraftReq → Nat) (a b : Nat) (reqs : List DraftReq) :
    List.zipWith (· + ·) (List.zipWith (· - ·) (ints (List.range' b (reqs.map count).sum))
        (repeatEach (ints (b :: cumsumFrom b (reqs.map count)).dropLast) (reqs.map count)))
      (repeatEach (ints (a :: cumsumFrom a (reqs.map len)).dropLast) (reqs.map count)) =
    ints (segIndices len (fun _ => 0) count a reqs) := by
  induction reqs generalizing a b with
  | nil => rfl
  | cons r reqs ih =>
    have hself : List.zipWith (· + ·) (List.zipWith (· - ·) (ints (List.range' b (count r)))
        (List.replicate (count r) (b : Int))) (List.replicate (count r) (a : Int)) =
        ints ((List.range (count r)).map (a + 0 + ·)) := by
      refine ext_getElem (by simp [ints]) fun i _ _ => ?_
      simp [ints]
      omega
    have hih := ih (a + len r) (b + count r)
    simp only [ints, repeatEach] at hself hih ⊢
    simp only [map_cons, sum_cons, cumsumFrom, dropLast_cons_cons,
      zip_cons_cons, flatMap_cons, segIndices, map_append]
    rw [← range'_append_1, map_append, zipWith_append (by simp),
      zipWith_append (by simp), hself, hih]

theorem mem_segIndices_iff {len count : DraftReq → Nat} {s p : Nat} :
    p ∈ segIndices len (fun _ => 0) count s reqs ↔ ∃ i r, reqs[i]? = some r ∧
      s + ((reqs.take i).map len).sum ≤ p ∧ p < s + ((reqs.take i).map len).sum + count r := by
  induction reqs generalizing s with
  | nil => simp [segIndices]
  | cons r reqs ih =>
    rw [segIndices, mem_append, ih, mem_map]
    constructor
    · rintro (⟨j, hj, rfl⟩ | ⟨i, r', hr', hle, hlt⟩)
      · have := mem_range.mp hj
        exact ⟨0, r, rfl, by simp, by simp; omega⟩
      · refine ⟨i + 1, r', hr', ?_, ?_⟩
        · simp only [take_succ_cons, map_cons, sum_cons]
          omega
        · simp only [take_succ_cons, map_cons, sum_cons]
          omega
    · rintro ⟨i, r', hr', hle, hlt⟩
      cases i with
      | zero =>
        obtain rfl : r = r' := by simpa using hr'
        simp only [take_zero, map_nil, sum_nil, Nat.add_zero] at hle hlt
        exact .inl ⟨p - s, mem_range.mpr (by omega), by omega⟩
      | succ i =>
        simp only [take_succ_cons, map_cons, sum_cons] at hle hlt
        exact .inr ⟨i, r', hr', by omega, by omega⟩

/-- The indices increase, as no request keeps more than its tokens. -/
theorem pairwise_segIndices {len count : DraftReq → Nat} (s : Nat)
    (h : ∀ r ∈ reqs, count r ≤ len r) :
    (segIndices len (fun _ => 0) count s reqs).Pairwise (· < ·) := by
  induction reqs generalizing s with
  | nil => exact .nil
  | cons r reqs ih =>
    have hr := h r mem_cons_self
    rw [segIndices, pairwise_append]
    refine ⟨?_, ih _ fun r' hr' => h r' (mem_cons_of_mem _ hr'), fun p hp q hq => ?_⟩
    · exact pairwise_lt_range.map _ fun i j hij => by omega
    · obtain ⟨j, hj, rfl⟩ := mem_map.mp hp
      obtain ⟨i, r', -, hle, -⟩ := mem_segIndices_iff.mp hq
      have := mem_range.mp hj
      omega

/-! ### The operations on arrays -/

theorem broadcast_ok (op : Int → Int → Int) {xs ys : List Int} (h : xs.length = ys.length) :
    broadcast op xs ys = .ok (List.zipWith op xs ys) := if_pos h

theorem npRepeat_ints (xs : List Int) (counts : List Nat) :
    npRepeat xs (ints counts) = .ok (repeatEach xs counts) := by
  have hcounts : (ints counts).map Int.toNat = counts := by simp [ints, Function.comp_def]
  rw [npRepeat, if_neg, hcounts]
  simp [ints]

theorem length_repeatEach {xs : List Int} {counts : List Nat} (h : xs.length = counts.length) :
    (repeatEach xs counts).length = counts.sum := by
  rw [repeatEach, length_flatMap]
  simp only [length_replicate]
  congr 1
  exact map_snd_zip (Nat.le_of_eq h.symm)

theorem getLastD_ints (ns : List Nat) :
    (ints (0 :: ns)).getLastD 0 = ((ns.getLastD 0 : Nat) : Int) := by
  rw [ints, map_cons, getLastD_cons, getLastD_eq_getLast?, List.getLast?_map,
    getLastD_eq_getLast?]
  cases ns.getLast? <;> rfl

theorem length_segIndices (len count : DraftReq → Nat) (s : Nat) (reqs : List DraftReq) :
    (segIndices len (fun _ => 0) count s reqs).length = (reqs.map count).sum := by
  induction reqs generalizing s with
  | nil => rfl
  | cons r reqs ih => simp [segIndices, ih]

theorem startLocs_eq (spans : List Span) :
    startLocs spans = ints (0 :: cumsumFrom 0 (spans.map Span.queryLen)) := rfl

/-- The tokens of the batch that were not rejected. -/
def newSpans (reqs : List DraftReq) : List Span :=
  reqs.map fun r => { queryLen := r.kept, numComputed := r.span.numComputed }

/-- `prepare_inputs` drops exactly the rejected tokens. -/
theorem prepare_inputs_drops_rejected {m : CommonAttentionMetadata} {maxNumTokens : Nat}
    {sampledTokenIds : List (List Int)} {numDraftTokens : List Nat} {reqs : List DraftReq}
    (hm : Describes m (reqs.map DraftReq.span)) (hne : reqs ≠ [])
    (hrejected : numRejectedTokens sampledTokenIds numDraftTokens =
      reqs.map fun r => (r.rejected : Int))
    (hlt : ∀ r ∈ reqs, r.rejected < r.span.queryLen)
    (hmax : numTokens (reqs.map DraftReq.span) ≤ maxNumTokens)
    (hslots : numTokens (reqs.map DraftReq.span) ≤ m.slotMapping.length) :
    ∃ (m' : CommonAttentionMetadata) (indices : List Nat),
      prepareInputs maxNumTokens m sampledTokenIds numDraftTokens = .ok (m', ints indices) ∧
      indices.Pairwise (· < ·) ∧
      (∀ p, p ∈ indices ↔ ∃ i r, reqs[i]? = some r ∧
        numTokens ((reqs.take i).map DraftReq.span) ≤ p ∧
        p < numTokens ((reqs.take i).map DraftReq.span) + (r.span.queryLen - r.rejected)) ∧
      m'.queryStartLoc = startLocs (newSpans reqs) ∧
      m'.queryStartLocCpu = startLocs (newSpans reqs) ∧
      m'.seqLens = (newSpans reqs).map (fun s => (s.seqLen : Int)) ∧
      m'.seqLensCpu = m'.seqLens ∧
      m'.numActualTokens = indices.length ∧
      m'.slotMapping.length = indices.length ∧
      ∀ i p : Nat, indices[i]? = some p → m'.slotMapping[i]? = m.slotMapping[p]? := by
  let kepts := reqs.map DraftReq.kept
  let lens := reqs.map fun r => r.span.queryLen
  have hlens : (reqs.map DraftReq.span).map Span.queryLen = lens := map_map
  have hkept : ∀ r ∈ reqs, r.kept ≤ r.span.queryLen := fun r _ => Nat.sub_le _ _
  have hdiffs := @stepDiffs_startLocs (reqs.map DraftReq.span)
  -- The new lengths.
  have hseq : List.zipWith (· - ·) m.seqLensCpu (reqs.map fun r => (r.rejected : Int)) =
      (newSpans reqs).map fun s => (s.seqLen : Int) := by
    rw [hm.seqLensCpu, newSpans, map_map, map_map, zipWith_map, zipWith_self]
    refine map_congr_left fun r hr => ?_
    have := hlt r hr
    simp only [Function.comp_apply, Span.seqLen, DraftReq.kept]
    omega
  have hnum : List.zipWith (· - ·) (stepDiffs m.queryStartLocCpu)
      (reqs.map fun r => (r.rejected : Int)) = ints kepts := by
    rw [hm.queryStartLocCpu, hdiffs, map_map, zipWith_map, zipWith_self, ints,
      map_map]
    refine map_congr_left fun r hr => ?_
    have := hlt r hr
    simp only [Function.comp_apply, DraftReq.kept]
    omega
  -- The starts, and the number of tokens that are left.
  have hscan : (ints kepts).scanl (· + ·) 0 = ints (0 :: cumsumFrom 0 kepts) := scanl_ints 0 kepts
  have htotal : (ints (0 :: cumsumFrom 0 kepts)).getLastD 0 = (kepts.sum : Int) := by
    rw [getLastD_ints, getLastD_cumsumFrom, Nat.zero_add]
  have hsum : kepts.sum ≤ numTokens (reqs.map DraftReq.span) := by
    rw [numTokens, hlens]
    exact sum_le_sum hkept
  have htake : ((List.range maxNumTokens).take (kepts.sum : Int).toNat).map Int.ofNat =
      ints (List.range' 0 kepts.sum) := by
    rw [Int.toNat_natCast, take_range, Nat.min_eq_left (hsum.trans hmax),
      range_eq_range']
    rfl
  have hdropLast (ns : List Nat) :
      (ints (0 :: cumsumFrom 0 ns)).dropLast = ints (0 :: cumsumFrom 0 ns).dropLast :=
    (map_dropLast ..).symm
  have hold : m.queryStartLocCpu =
      ints (0 :: cumsumFrom 0 (reqs.map fun r => r.span.queryLen)) := by
    rw [hm.queryStartLocCpu, startLocs_eq, hlens]
  have hnew : startLocs (newSpans reqs) = ints (0 :: cumsumFrom 0 kepts) := by
    rw [startLocs_eq, newSpans, map_map]
    rfl
  -- The indices, and the slots at them.
  let indices := segIndices (fun r : DraftReq => r.span.queryLen) (fun _ => 0) DraftReq.kept 0 reqs
  have hindices := indices_eq (fun r => r.span.queryLen) DraftReq.kept 0 0 reqs
  have hmem (p : Nat) : p ∈ indices ↔ ∃ i r, reqs[i]? = some r ∧
      numTokens ((reqs.take i).map DraftReq.span) ≤ p ∧
      p < numTokens ((reqs.take i).map DraftReq.span) + (r.span.queryLen - r.rejected) := by
    rw [mem_segIndices_iff]
    simp only [Nat.zero_add, numTokens, map_map]
    rfl
  have hbelow : ∀ p ∈ indices, p < m.slotMapping.length := by
    intro p hp
    obtain ⟨i, r, hr, -, hlt'⟩ := (hmem p).mp hp
    have hsucc := @numTokens_take_succ (reqs.map DraftReq.span) i r.span
      (by rw [List.getElem?_map, hr]; rfl)
    have hall := @numTokens_take_mono (reqs.map DraftReq.span) (i + 1) (reqs.length + (i + 1))
      (by omega)
    rw [take_of_length_le (i := reqs.length + (i + 1)) (by simp)] at hall
    rw [← map_take, ← map_take] at hsucc
    rw [← map_take] at hall
    omega
  obtain ⟨slots, hslots'⟩ : ∃ slots,
      (ints indices).mapM (fun i => getItem m.slotMapping i.toNat) = .ok slots := by
    refine exists_mapM_eq_ok fun i hi => ?_
    obtain ⟨p, hp, rfl⟩ := mem_map.mp hi
    exact ⟨_, getItem_ok (hbelow p hp)⟩
  obtain ⟨hslotsLen, hslotsAt⟩ := mapM_eq_ok_iff_getElem?.mp hslots'
  have hseqNe : (newSpans reqs).map (fun s => (s.seqLen : Int)) ≠ [] := by
    simpa [newSpans] using hne
  have hdiffsNe : stepDiffs m.queryStartLocCpu ≠ [] := by
    rw [hm.queryStartLocCpu, hdiffs]
    simpa using hne
  obtain ⟨maxQuery, hmaxQuery⟩ := maxItem_ok hdiffsNe
  obtain ⟨maxSeq, hmaxSeq⟩ := maxItem_ok hseqNe
  have hlenCpu : m.seqLensCpu.length = (reqs.map fun r => (r.rejected : Int)).length := by
    simp [hm.seqLensCpu]
  have hlenDiffs : (stepDiffs m.queryStartLocCpu).length =
      (reqs.map fun r => (r.rejected : Int)).length := by
    simp [hm.queryStartLocCpu, hdiffs]
  have hcount : indices.length = kepts.sum := length_segIndices ..
  -- Every array of an operation has an entry for each token that is left.
  have hlenStarts (len : DraftReq → Nat) :
      (repeatEach (ints (0 :: cumsumFrom 0 (reqs.map len)).dropLast) kepts).length = kepts.sum :=
    length_repeatEach (by simp [ints, kepts])
  have hlenRange : (ints (List.range' 0 kepts.sum)).length = kepts.sum := by simp [ints]
  have hoffsets := broadcast_ok (· - ·) (hlenRange.trans (hlenStarts DraftReq.kept).symm)
  have hlenOffsets : (List.zipWith (· - ·) (ints (List.range' 0 kepts.sum))
      (repeatEach (ints (0 :: cumsumFrom 0 kepts).dropLast) kepts)).length = kepts.sum := by
    rw [length_zipWith, hlenRange, hlenStarts DraftReq.kept, Nat.min_self]
  have htokens := broadcast_ok (· + ·)
    (hlenOffsets.trans (hlenStarts fun r => r.span.queryLen).symm)
  rw [hindices] at htokens
  have hrun : prepareInputs maxNumTokens m sampledTokenIds numDraftTokens = .ok ({
      queryStartLoc := ints (0 :: cumsumFrom 0 kepts)
      queryStartLocCpu := ints (0 :: cumsumFrom 0 kepts)
      seqLens := (newSpans reqs).map fun s => (s.seqLen : Int)
      seqLensCpu? := some ((newSpans reqs).map fun s => (s.seqLen : Int))
      numComputedTokensCpu? := m.numComputedTokensCpu?
      numReqs := m.numReqs
      numActualTokens := (kepts.sum : Int)
      maxQueryLen := maxQuery
      maxSeqLen := maxSeq
      blockTableTensor := m.blockTableTensor
      slotMapping := slots
      causal := true }, ints indices) := by
    unfold prepareInputs
    dsimp only
    rw [hrejected, broadcast_ok _ hlenCpu, except_ok_bind, hseq, broadcast_ok _ hlenDiffs,
      except_ok_bind, hnum, hscan, htotal, htake, hdropLast, npRepeat_ints, except_ok_bind, hoffsets, except_ok_bind, hmaxQuery, hold, hdropLast,
      npRepeat_ints, except_ok_bind, htokens, except_ok_bind, except_ok_bind, hmaxSeq,
      except_ok_bind, hslots', except_ok_bind]
    rfl
  refine ⟨_, indices, hrun, pairwise_segIndices 0 hkept, hmem, hnew.symm, hnew.symm, rfl, rfl, ?_,
    ?_, ?_⟩
  · exact congrArg _ hcount.symm
  · simpa [ints] using hslotsLen
  · intro i p hp
    obtain ⟨v, hv, hget⟩ := hslotsAt i p (by simp [ints, hp])
    rw [Int.toNat_natCast, getItem_ok (hbelow p (mem_of_getElem? hp))] at hget
    cases hget
    rw [hv, List.getElem?_eq_getElem]

/-- Three requests, of 4, 2 and 3 tokens. -/
def draftBatch : CommonAttentionMetadata where
  queryStartLoc := [0, 4, 6, 9]
  queryStartLocCpu := [0, 4, 6, 9]
  seqLens := [14, 2, 8]
  numReqs := 3
  numActualTokens := 9
  maxQueryLen := 4
  maxSeqLen := 14
  blockTableTensor := [[1], [2], [3]]
  slotMapping := [26, 27, 28, 29, 32, 33, 53, 54, 55]

/-- One, none and two tokens are rejected. -/
theorem prepare_inputs_three_requests : ∃ (m' : CommonAttentionMetadata) (indices : List Nat),
    prepareInputs 16 draftBatch [[7, 8, 9], [4], [5]] [3, 0, 2] = .ok (m', ints indices) ∧
      indices.Pairwise (· < ·) ∧ m'.queryStartLoc = [0, 3, 5, 6] ∧ m'.seqLens = [13, 2, 6] ∧
      m'.numActualTokens = indices.length := by
  obtain ⟨m', indices, hrun, hsorted, -, hstarts, -, hseqLens, -, htokens, -⟩ :=
    @prepare_inputs_drops_rejected draftBatch 16 [[7, 8, 9], [4], [5]] [3, 0, 2]
      [⟨⟨4, 10⟩, 1⟩, ⟨⟨2, 0⟩, 0⟩, ⟨⟨3, 5⟩, 2⟩]
      ⟨by decide, by decide, by decide, nofun, nofun, by decide, by decide, by decide⟩
      (by decide) (by decide) (by decide) (by decide) (by decide)
  exact ⟨m', indices, hrun, hsorted, hstarts, hseqLens, htokens⟩

end Vllm.Proofs.SpecDecode
