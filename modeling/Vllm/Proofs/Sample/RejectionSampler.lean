import Vllm.V1.Sample.RejectionSampler

/-!
# `Vllm.Proofs.Sample.RejectionSampler`: drafts do not change what is generated

A draft that is accepted is the token that the target model would have generated, so the next row is
the one that the model would have given. The first draft that differs is replaced and ends the
output.

* `calcSpecDecodeMetadata_eq`: the indices of the metadata are those of the requests' own parts.
* `checked`: what the loop of the kernel stores for the drafts and the rows of one request.
* `rejectionSample_eq`: each row of the output is what is stored for its own request.
* `emitted_eq_greedyTokens`: this is a first part of the greedy continuation.
* `verifyDrafts_eq`: the output of a step.
-/

set_option autoImplicit false

namespace Vllm.Proofs.Sample

open Vllm.Lib Vllm.V1.Sample SpecRequest List

/-! ### The metadata -/

theorem map_succ_segIndices {ρ : Type} (len offset count : ρ → Nat) (s : Nat) (rs : List ρ) :
    (segIndices len offset count s rs).map (· + 1) =
      segIndices len (fun r => offset r + 1) count s rs := by
  induction rs generalizing s with
  | nil => rfl
  | cons r rs ih =>
    simp only [segIndices, map_append, map_map, ih]
    congr 1
    apply map_congr_left
    intro k _
    simp only [Function.comp_apply]
    omega

/-- The last one of each list. -/
theorem map_pred_cumsumFrom {ρ : Type} (count : ρ → Nat) (s : Nat) (rs : List ρ) :
    (cumsumFrom s (rs.map fun r => count r + 1)).map (· - 1) =
      segIndices (fun r => count r + 1) count (fun _ => 1) s rs := by
  induction rs generalizing s with
  | nil => rfl
  | cons r rs ih =>
    simp only [segIndices, map_cons, cumsumFrom, ih]
    simp

/-- Where the parts of the lists begin that `starts` are computed for. -/
theorem getElem?_subEach_cumsum {ρ : Type} (len count : ρ → Nat) {rs : List ρ} {i : Nat} {r : ρ}
    (hr : rs[i]? = some r) (hle : count r ≤ len r) :
    (subEach (cumsum (rs.map len)) (rs.map count))[i]? =
      some (0 + ((rs.take i).map len).sum + (len r - count r)) := by
  obtain ⟨hi, hget⟩ := List.getElem?_eq_some_iff.mp hr
  have hi' : i < (rs.map len).length := by simpa using hi
  have hcu := getElem?_cumsum hi'
  have hsum : ((rs.map len).take (i + 1)).sum = ((rs.take i).map len).sum + len r := by
    rw [← map_take, take_succ_eq_append_getElem hi, map_append, sum_append,
      hget]
    simp
  rw [hsum] at hcu
  simp only [subEach, List.getElem?_zipWith, hcu, List.getElem?_map, hr, Option.map_some]
  congr 1
  omega

section Metadata
variable (reqs : List SpecRequest)

theorem drafts_lt_input (r : SpecRequest) : r.drafts.length + 1 ≤ r.inputTokens.length := by
  have := length_pos_of_ne_nil r.nonempty
  unfold inputTokens
  rw [length_append]
  omega

theorem length_lastTokens (r : SpecRequest) :
    ((r.inputTokens.drop (r.inputTokens.length - (r.drafts.length + 1))).take
      (r.drafts.length + 1)).length = r.drafts.length + 1 := by
  have := drafts_lt_input r
  simp
  omega

/-- The drafts are the last tokens but the first of them. -/
theorem drop_one_lastTokens (r : SpecRequest) :
    (((r.inputTokens.drop (r.inputTokens.length - (r.drafts.length + 1))).take
      (r.drafts.length + 1)).drop 1).take r.drafts.length = r.drafts := by
  have hle := drafts_lt_input r
  have hlen : r.inputTokens.length = r.scheduled.length + r.drafts.length := length_append
  rw [drop_take, take_take, Nat.min_eq_left (by omega), drop_drop]
  have hdrop : r.inputTokens.length - (r.drafts.length + 1) + 1 = r.scheduled.length := by omega
  rw [hdrop]
  unfold inputTokens
  rw [drop_left, take_length]

/-- The indices of the metadata are those of the requests' own parts. -/
theorem calcSpecDecodeMetadata_eq : calcSpecDecodeMetadata (reqs.flatMap inputTokens)
        (reqs.map fun r => r.drafts.length) (cumsum (reqs.map fun r => r.inputTokens.length)) =
      some {
        draftTokenIds := reqs.flatMap drafts
        numDraftTokens := reqs.map fun r => r.drafts.length
        cuNumDraftTokens := cumsum (reqs.map fun r => r.drafts.length)
        targetLogitsIndices := segIndices (fun r => r.drafts.length + 1) (fun _ => 0)
          (fun r => r.drafts.length) 0 reqs
        bonusLogitsIndices := segIndices (fun r => r.drafts.length + 1)
          (fun r => r.drafts.length) (fun _ => 1) 0 reqs
        logitsIndices := segIndices (fun r => r.inputTokens.length)
          (fun r => r.inputTokens.length - (r.drafts.length + 1))
          (fun r => r.drafts.length + 1) 0 reqs } := by
  have hsampled : (reqs.map fun r => r.drafts.length).map (· + 1) =
      reqs.map fun r => r.drafts.length + 1 := by
    rw [map_map]
    rfl
  have hlogits := repeatEach_add_arange (fun r : SpecRequest => r.inputTokens.length)
    (fun r => r.inputTokens.length - (r.drafts.length + 1)) (fun r => r.drafts.length + 1) 0 reqs
    (subEach (cumsum (reqs.map fun r => r.inputTokens.length))
      (reqs.map fun r => r.drafts.length + 1)) (by simp [subEach])
    fun i r hr => getElem?_subEach_cumsum _ _ hr (drafts_lt_input r)
  have htarget := repeatEach_add_arange (fun r : SpecRequest => r.drafts.length + 1)
    (fun _ => 0) (fun r => r.drafts.length) 0 reqs
    (subEach (cumsum (reqs.map fun r => r.drafts.length + 1))
      (reqs.map fun r => r.drafts.length + 1)) (by simp [subEach]) (by
      intro i r hr
      rw [getElem?_subEach_cumsum _ _ hr (Nat.le_refl _), Nat.sub_self])
  have hbonus : (cumsum (reqs.map fun r => r.drafts.length + 1)).map (· - 1) =
      segIndices (fun r => r.drafts.length + 1) (fun r => r.drafts.length) (fun _ => 1) 0 reqs :=
    map_pred_cumsumFrom (fun r : SpecRequest => r.drafts.length) 0 reqs
  -- The tokens whose rows are sampled are the drafts and the one before them.
  have hids := gather_segIndices inputTokens (fun r => r.inputTokens.length)
    (fun r => r.inputTokens.length - (r.drafts.length + 1)) (fun r => r.drafts.length + 1)
    reqs (fun r _ => rfl) (fun r _ => by have := drafts_lt_input r; omega) []
  have hdrafts := gather_segIndices
    (fun r : SpecRequest =>
      (r.inputTokens.drop (r.inputTokens.length - (r.drafts.length + 1))).take
        (r.drafts.length + 1))
    (fun r => r.drafts.length + 1) (fun _ => 1) (fun r => r.drafts.length) reqs
    (fun r _ => length_lastTokens r) (fun r _ => by omega) []
  simp only [drop_one_lastTokens, nil_append, length_nil] at hids hdrafts
  simp only [calcSpecDecodeMetadata, cumsumAndArange_eq, hsampled, hlogits, htarget,
    map_succ_segIndices, Nat.zero_add, hids, hdrafts, hbonus, Option.bind_eq_bind,
    Option.bind_some]

-- The batch of the comments in the source.
example : (calcSpecDecodeMetadata ((List.range 209).map fun (n : Nat) => (n : Int)) [3, 0, 2, 0, 1]
    [4, 104, 107, 207, 209]).map (fun m => (m.logitsIndices, m.draftTokenIds,
      m.targetLogitsIndices, m.bonusLogitsIndices)) =
    some ([0, 1, 2, 3, 103, 104, 105, 106, 206, 207, 208], [1, 2, 3, 105, 106, 208],
      [0, 1, 2, 5, 6, 9], [3, 4, 7, 8, 10]) := by decide +kernel

end Metadata

/-! ### The rows -/

section Rows
variable {vocabSize : Nat} (target : List Int → Fin vocabSize)

/-- The most likely token after the known tokens and the first drafts. -/
def tokenAfter (r : SpecRequest) (k : Nat) : Int :=
  argmaxToken target (r.knownTokens ++ r.drafts.take k)

/-- The rows that are sampled are those after the known tokens and after each draft. -/
theorem sampledRows_eq (r : SpecRequest) :
    ((r.modelRows target).drop (r.inputTokens.length - (r.drafts.length + 1))).take
        (r.drafts.length + 1) =
      (List.range (r.drafts.length + 1)).map (tokenAfter target r) := by
  have hle := drafts_lt_input r
  have hlen : r.inputTokens.length = r.scheduled.length + r.drafts.length := length_append
  have hpos := length_pos_of_ne_nil r.nonempty
  apply ext_getElem
  · simp [modelRows]
    omega
  · intro k hk _
    have hk' : k < r.drafts.length + 1 := by
      rw [length_take] at hk
      omega
    simp only [modelRows, getElem_take, getElem_drop, getElem_map,
      getElem_range, tokenAfter, knownTokens]
    have hindex : r.inputTokens.length - (r.drafts.length + 1) + k + 1 =
        r.scheduled.length + k := by omega
    rw [hindex, inputTokens, take_length_add_append, append_assoc]

/-- The rows of the drafts. -/
def targetRows (r : SpecRequest) : List Int :=
  (List.range r.drafts.length).map (tokenAfter target r)

theorem length_targetRows (r : SpecRequest) : (targetRows target r).length = r.drafts.length := by
  simp [targetRows]

/-- What the model gives, and what is selected of it. -/
theorem gather_rows (reqs : List SpecRequest) :
    ∃ logits, gather (reqs.flatMap fun r => r.modelRows target)
        (segIndices (fun r => r.inputTokens.length)
          (fun r => r.inputTokens.length - (r.drafts.length + 1))
          (fun r => r.drafts.length + 1) 0 reqs) = some logits ∧
      gather logits (segIndices (fun r => r.drafts.length + 1) (fun r => r.drafts.length)
        (fun _ => 1) 0 reqs) =
        some (reqs.map fun r => tokenAfter target r r.drafts.length) ∧
      gather logits (segIndices (fun r => r.drafts.length + 1) (fun _ => 0)
        (fun r => r.drafts.length) 0 reqs) = some (reqs.flatMap (targetRows target)) := by
  have hlogits := gather_segIndices (fun r : SpecRequest => r.modelRows target)
    (fun r => r.inputTokens.length) (fun r => r.inputTokens.length - (r.drafts.length + 1))
    (fun r => r.drafts.length + 1) reqs (fun r _ => by simp [modelRows])
    (fun r _ => by have := drafts_lt_input r; omega) []
  simp only [sampledRows_eq, nil_append, length_nil] at hlogits
  refine ⟨_, hlogits, ?_, ?_⟩
  · have hbonus := gather_segIndices
      (fun r : SpecRequest => (List.range (r.drafts.length + 1)).map (tokenAfter target r))
      (fun r => r.drafts.length + 1) (fun r => r.drafts.length) (fun _ => 1) reqs
      (fun r _ => by simp) (fun r _ => by omega) []
    simp only [nil_append, length_nil] at hbonus
    rw [hbonus, map_eq_flatMap]
    congr 1
    apply flatMap_congr
    intro r _
    simp [range_succ]
  · have htarget := gather_segIndices
      (fun r : SpecRequest => (List.range (r.drafts.length + 1)).map (tokenAfter target r))
      (fun r => r.drafts.length + 1) (fun _ => 0) (fun r => r.drafts.length) reqs
      (fun r _ => by simp) (fun r _ => by omega) []
    simp only [nil_append, length_nil] at htarget
    rw [htarget]
    congr 1
    apply flatMap_congr
    intro r _
    simp [range_succ, targetRows]

end Rows

/-! ### The kernel -/

/-- What the loop stores for the drafts and the rows of a request, and whether a draft was
rejected. -/
def checked : List Int → List Int → Bool × List Int
  | d :: ds, t :: ts =>
    if d = t then ((checked ds ts).1, t :: (checked ds ts).2) else (true, [t])
  | _, _ => (false, [])

/-- What a program of the kernel stores. -/
def emitted (ds ts : List Int) (bonus : Int) : List Int :=
  if (checked ds ts).1 then (checked ds ts).2 else (checked ds ts).2 ++ [bonus]

theorem length_checked_le (ds ts : List Int) : (checked ds ts).2.length ≤ ds.length := by
  induction ds generalizing ts with
  | nil => simp [checked]
  | cons d ds ih =>
    cases ts with
    | nil => simp [checked]
    | cons t ts =>
      have := ih ts
      unfold checked
      split <;> simp <;> omega

/-- Without a rejected draft all rows are stored. -/
theorem length_checked {ds ts : List Int} (hlen : ts.length = ds.length)
    (h : (checked ds ts).1 = false) : (checked ds ts).2.length = ds.length := by
  induction ds generalizing ts with
  | nil => simp [checked]
  | cons d ds ih =>
    cases ts with
    | nil => simp at hlen
    | cons t ts =>
      unfold checked at h ⊢
      split at h
      · rename_i heq
        rw [if_pos heq]
        simpa using ih (by simpa using hlen) h
      · simp at h

theorem store_append (pre row : List Int) (x y : Int) :
    store (pre ++ y :: row) pre.length x = some (pre ++ x :: row) := by
  unfold store
  rw [if_pos (by simp)]
  simp

section Kernel
variable {draftTokenIds targetArgmax : List Int} {rowStart startIdx : Nat}

/-- After a rejected draft nothing is stored. -/
theorem foldlM_kernelRound_rejected (out : List Int) (l : List Nat) :
    l.foldlM (kernelRound draftTokenIds targetArgmax rowStart startIdx) (true, out) =
      some (true, out) := by
  induction l with
  | nil => rfl
  | cons pos l ih =>
    rw [foldlM_cons]
    simpa [kernelRound] using ih

/-- The loop from a round on, in which no draft has been rejected. What it stores goes to the places
after what it has stored. -/
theorem foldlM_kernelRound (ds ts pre post : List Int) (p : Nat) (hlen : ts.length = ds.length)
    (hdrafts : ∀ k < ds.length, draftTokenIds[startIdx + (p + k)]? = ds[k]?)
    (htargets : ∀ k < ds.length, targetArgmax[startIdx + (p + k)]? = ts[k]?)
    (hpre : pre.length = rowStart + p) (hpost : ds.length ≤ post.length) :
    (List.range' p ds.length).foldlM (kernelRound draftTokenIds targetArgmax rowStart startIdx)
        (false, pre ++ post) =
      some ((checked ds ts).1,
        pre ++ (checked ds ts).2 ++ post.drop (checked ds ts).2.length) := by
  induction ds generalizing ts pre post p with
  | nil => simp [checked]
  | cons d ds ih =>
    cases ts with
    | nil => simp at hlen
    | cons t ts =>
      cases post with
      | nil => simp at hpost
      | cons y post =>
        have hd : draftTokenIds[startIdx + p]? = some d := by
          simpa using hdrafts 0 (by simp)
        have ht : targetArgmax[startIdx + p]? = some t := by
          simpa using htargets 0 (by simp)
        have hround : kernelRound draftTokenIds targetArgmax rowStart startIdx
            (false, pre ++ y :: post) p =
            some (decide (d ≠ t), pre ++ t :: post) := by
          simp [kernelRound, hd, ht, ← hpre, store_append]
        rw [length_cons, range'_succ, foldlM_cons, hround]
        by_cases heq : d = t
        · -- The draft is accepted, and the rest of the loop goes on after it.
          have hih := ih ts (pre ++ [t]) post (p + 1) (by simpa using hlen)
            (fun k hk => by
              have := hdrafts (k + 1) (by simpa using hk)
              rw [List.getElem?_cons_succ] at this
              rw [← this]
              congr 1
              omega)
            (fun k hk => by
              have := htargets (k + 1) (by simpa using hk)
              rw [List.getElem?_cons_succ] at this
              rw [← this]
              congr 1
              omega)
            (by simp; omega) (by simpa using hpost)
          simp only [checked, heq, if_true, ne_eq, not_true_eq_false, decide_false,
            Option.bind_eq_bind, Option.bind_some]
          rw [← append_cons] at hih
          rw [hih]
          simp
        · simp only [checked, heq, if_false, ne_eq, not_false_eq_true, decide_true,
            Option.bind_eq_bind, Option.bind_some]
          rw [foldlM_kernelRound_rejected]
          simp

end Kernel

/-! ### The output -/

section Output
variable {vocabSize : Nat} (target : List Int → Fin vocabSize)

/-- The tokens that are stored for a request. -/
def rowTokens (r : SpecRequest) : List Int :=
  if r.isGreedy then
    emitted r.drafts (targetRows target r) (tokenAfter target r r.drafts.length)
  else []

/-- The row of a request. -/
def outputOf (width : Nat) (r : SpecRequest) : List Int :=
  rowTokens target r ++ List.replicate (width - (rowTokens target r).length) placeholderTokenId

theorem length_emitted_le (ds ts : List Int) (bonus : Int) :
    (emitted ds ts bonus).length ≤ ds.length + 1 := by
  have := length_checked_le ds ts
  unfold emitted
  split
  · omega
  · rw [length_append, length_singleton]
    omega

theorem length_outputOf {width : Nat} {r : SpecRequest} (h : r.drafts.length + 1 ≤ width) :
    (outputOf target width r).length = width := by
  have hle : (rowTokens target r).length ≤ r.drafts.length + 1 := by
    unfold rowTokens
    split
    · exact length_emitted_le ..
    · simp
  unfold outputOf
  rw [length_append, length_replicate]
  omega

/-- What the programs have to find for a request. -/
structure Loads (reqs : List SpecRequest) (isGreedy : Option (List Bool)) (i : Nat)
    (r : SpecRequest) : Prop where
  greedy : loadIsGreedy isGreedy i = some r.isGreedy
  start : loadStartIdx (cumsum (reqs.map fun r => r.drafts.length)) i =
    some ((reqs.take i).map fun r => r.drafts.length).sum
  stop : (cumsum (reqs.map fun r => r.drafts.length))[i]? =
    some (((reqs.take i).map fun r => r.drafts.length).sum + r.drafts.length)
  drafts : ∀ k < r.drafts.length, (reqs.flatMap drafts)[
    ((reqs.take i).map fun r => r.drafts.length).sum + k]? = r.drafts[k]?
  targets : ∀ k < r.drafts.length, (reqs.flatMap (targetRows target))[
    ((reqs.take i).map fun r => r.drafts.length).sum + k]? = (targetRows target r)[k]?
  bonus : (reqs.map fun r => tokenAfter target r r.drafts.length)[i]? =
    some (tokenAfter target r r.drafts.length)

theorem loads_of_getElem? {reqs : List SpecRequest} {i : Nat} {r : SpecRequest}
    (hr : reqs[i]? = some r) :
    Loads target reqs (if reqs.all isGreedy then none
      else some (reqs.map isGreedy)) i r := by
  obtain ⟨hi, hget⟩ := List.getElem?_eq_some_iff.mp hr
  have hmem := mem_of_getElem? hr
  constructor
  case greedy =>
    split
    · rename_i hall
      rw [all_eq_true.mp hall r hmem]
      rfl
    · dsimp only [loadIsGreedy]
      rw [List.getElem?_map, hr]
      rfl
  case start =>
    unfold loadStartIdx
    cases i with
    | zero => rfl
    | succ i =>
      have hi' : i < (reqs.map fun r => r.drafts.length).length := by
        rw [length_map]
        omega
      rw [if_neg (Nat.succ_ne_zero i), Nat.add_sub_cancel, getElem?_cumsum hi', map_take]
  case stop =>
    have hi' : i < (reqs.map fun r => r.drafts.length).length := by
      rw [length_map]
      exact hi
    rw [getElem?_cumsum hi', ← map_take, take_succ_eq_append_getElem hi,
      map_append, sum_append, hget]
    simp
  case drafts =>
    exact fun k hk => getElem?_flatMap drafts (fun _ _ => rfl) hr hk
  case targets =>
    exact fun k hk =>
      getElem?_flatMap (targetRows target) (fun r' _ => length_targetRows target r') hr hk
  case bonus =>
    rw [List.getElem?_map, hr]
    rfl

/-- A program of the kernel fills the row of its request. -/
theorem rejectionGreedySampleKernel_eq {reqs : List SpecRequest} {isGreedy : Option (List Bool)}
    {i maxSpecLen : Nat} {r : SpecRequest} (h : Loads target reqs isGreedy i r)
    (hle : r.drafts.length ≤ maxSpecLen) (pre post : List Int)
    (hpre : pre.length = i * (maxSpecLen + 1)) :
    rejectionGreedySampleKernel (cumsum (reqs.map fun r => r.drafts.length))
        (reqs.flatMap drafts) (reqs.flatMap (targetRows target))
        (reqs.map fun r => tokenAfter target r r.drafts.length) isGreedy maxSpecLen i
        (pre ++ List.replicate (maxSpecLen + 1) placeholderTokenId ++ post) =
      some (pre ++ outputOf target (maxSpecLen + 1) r ++ post) := by
  unfold rejectionGreedySampleKernel
  rw [h.greedy]
  cases hgreedy : r.isGreedy with
  | false => simp [outputOf, rowTokens, hgreedy]
  | true =>
    have hlen : (targetRows target r).length = r.drafts.length := length_targetRows target r
    have hstored := length_checked_le r.drafts (targetRows target r)
    have hloop : (List.range' 0 r.drafts.length).foldlM
        (kernelRound (reqs.flatMap drafts) (reqs.flatMap (targetRows target))
          (i * (maxSpecLen + 1)) ((reqs.take i).map fun r => r.drafts.length).sum)
        (false, pre ++ (List.replicate (maxSpecLen + 1) placeholderTokenId ++ post)) =
        some ((checked r.drafts (targetRows target r)).1,
          pre ++ (checked r.drafts (targetRows target r)).2 ++
            (List.replicate (maxSpecLen + 1) placeholderTokenId ++ post).drop
              (checked r.drafts (targetRows target r)).2.length) :=
      foldlM_kernelRound r.drafts (targetRows target r) pre _ 0 hlen
        (fun k hk => by rw [Nat.zero_add]; exact h.drafts k hk)
        (fun k hk => by rw [Nat.zero_add]; exact h.targets k hk) hpre
        (by rw [length_append, length_replicate]; omega)
    have hdrop : (List.replicate (maxSpecLen + 1) placeholderTokenId ++ post).drop
        (checked r.drafts (targetRows target r)).2.length =
        List.replicate (maxSpecLen + 1 - (checked r.drafts (targetRows target r)).2.length)
          placeholderTokenId ++ post := by
      rw [drop_append_of_le_length (by rw [length_replicate]; omega),
        drop_replicate]
    rw [hdrop, ← range_eq_range', ← append_assoc] at hloop
    simp only [Option.bind_eq_bind, Option.bind_some, if_true, h.start, h.stop,
      Nat.add_sub_cancel_left, hloop]
    cases hrejected : (checked r.drafts (targetRows target r)).1 with
    | true => simp [outputOf, rowTokens, emitted, hgreedy, hrejected]
    | false =>
      -- All drafts are accepted, and the bonus token goes to the place after them.
      have hall := length_checked hlen hrejected
      have hplace : i * (maxSpecLen + 1) + r.drafts.length =
          (pre ++ (checked r.drafts (targetRows target r)).2).length := by
        rw [length_append, hpre, hall]
      have hrest : List.replicate (maxSpecLen + 1 - r.drafts.length) placeholderTokenId =
          placeholderTokenId ::
            List.replicate (maxSpecLen - r.drafts.length) placeholderTokenId := by
        rw [Nat.succ_sub hle, replicate_succ]
      simp only [h.bonus, Option.bind_some, Bool.false_eq_true, if_false]
      rw [hplace, hall, hrest, cons_append, store_append]
      simp [outputOf, rowTokens, emitted, hgreedy, hrejected, hall]

/-- The programs fill the rows of all requests. -/
theorem rejectionSample_eq (reqs : List SpecRequest) {maxSpecLen : Nat}
    (hle : ∀ r ∈ reqs, r.drafts.length ≤ maxSpecLen) :
    rejectionSample (cumsum (reqs.map fun r => r.drafts.length))
        (reqs.flatMap drafts) (reqs.flatMap (targetRows target))
        (reqs.map fun r => tokenAfter target r r.drafts.length)
        (if reqs.all isGreedy then none else some (reqs.map isGreedy))
        reqs.length maxSpecLen =
      some (reqs.flatMap (outputOf target (maxSpecLen + 1))) := by
  -- The rows of the first requests are filled, and the others are empty.
  have hfirst : ∀ n ≤ reqs.length, (List.range n).foldlM
      (fun out reqIdx => rejectionGreedySampleKernel (cumsum (reqs.map fun r => r.drafts.length))
        (reqs.flatMap drafts) (reqs.flatMap (targetRows target))
        (reqs.map fun r => tokenAfter target r r.drafts.length)
        (if reqs.all isGreedy then none else some (reqs.map isGreedy))
        maxSpecLen reqIdx out)
      (List.replicate (reqs.length * (maxSpecLen + 1)) placeholderTokenId) =
      some ((reqs.take n).flatMap (outputOf target (maxSpecLen + 1)) ++
        List.replicate ((reqs.length - n) * (maxSpecLen + 1)) placeholderTokenId) := by
    intro n
    induction n with
    | zero =>
      intro _
      simp
    | succ n ih =>
      intro hn
      have hr : reqs[n]? = some reqs[n] := List.getElem?_eq_getElem hn
      have hlength : ((reqs.take n).flatMap (outputOf target (maxSpecLen + 1))).length =
          n * (maxSpecLen + 1) := by
        rw [length_flatMap, map_congr_left fun r hr' => length_outputOf target
          (Nat.succ_le_succ (hle r (mem_of_mem_take hr'))), map_const',
          sum_replicate_nat, length_take, Nat.min_eq_left (by omega)]
      have hsplit : (reqs.length - n) * (maxSpecLen + 1) =
          (maxSpecLen + 1) + (reqs.length - (n + 1)) * (maxSpecLen + 1) := by
        have : reqs.length - n = (reqs.length - (n + 1)) + 1 := by omega
        rw [this, Nat.succ_mul, Nat.add_comm]
      rw [range_succ, foldlM_append, ih (by omega)]
      simp only [Option.bind_eq_bind, Option.bind_some]
      rw [foldlM_cons, hsplit, replicate_add, ← append_assoc,
        rejectionGreedySampleKernel_eq target (loads_of_getElem? target hr)
          (hle _ (getElem_mem hn)) _ _ hlength]
      rw [take_succ_eq_append_getElem hn, flatMap_append, flatMap_singleton]
      rfl
  have hlast := hfirst reqs.length (Nat.le_refl _)
  rw [take_length, Nat.sub_self, Nat.zero_mul, replicate_zero, append_nil] at hlast
  exact hlast

end Output

/-! ### The greedy continuation -/

section Greedy
variable {vocabSize : Nat} (target : List Int → Fin vocabSize)

/-- The first tokens that greedy decoding generates after a prefix. -/
def greedyTokens : Nat → List Int → List Int
  | 0, _ => []
  | n + 1, tokens =>
    argmaxToken target tokens :: greedyTokens n (tokens ++ [argmaxToken target tokens])

/-- The number of leading drafts that agree with the greedy continuation. -/
def numAgreeing (tokens drafts : List Int) : Nat :=
  ((drafts.zip (greedyTokens target drafts.length tokens)).takeWhile fun p => p.1 == p.2).length

theorem length_greedyTokens (n : Nat) (tokens : List Int) :
    (greedyTokens target n tokens).length = n := by
  induction n generalizing tokens with
  | zero => rfl
  | succ n ih => simp [greedyTokens, ih]

theorem numAgreeing_cons (tokens ds : List Int) (d : Int) : numAgreeing target tokens (d :: ds) =
      if d = argmaxToken target tokens then numAgreeing target (tokens ++ [d]) ds + 1 else 0 := by
  unfold numAgreeing
  rw [length_cons, greedyTokens, zip_cons_cons, takeWhile_cons]
  by_cases heq : d = argmaxToken target tokens
  · simp [← heq]
  · simp [heq]

theorem numAgreeing_le (tokens drafts : List Int) :
    numAgreeing target tokens drafts ≤ drafts.length := by
  have hle := (takeWhile_sublist (fun p : Int × Int => p.1 == p.2)
    (l := drafts.zip (greedyTokens target drafts.length tokens))).length_le
  rw [length_zip, length_greedyTokens, Nat.min_self] at hle
  exact hle

/-- The rows after the drafts of a request are those of its greedy continuation as long as the drafts
agree with it. -/
theorem emitted_eq_greedyTokens (tokens drafts : List Int) : emitted drafts
        ((List.range drafts.length).map fun k => argmaxToken target (tokens ++ drafts.take k))
        (argmaxToken target (tokens ++ drafts)) =
      greedyTokens target (numAgreeing target tokens drafts + 1) tokens := by
  induction drafts generalizing tokens with
  | nil => simp [emitted, checked, numAgreeing, greedyTokens]
  | cons d ds ih =>
    have hih := ih (tokens ++ [d])
    rw [numAgreeing_cons, length_cons, range_succ_eq_map]
    simp only [map_cons, map_map, take_zero, append_nil, emitted, checked,
      Function.comp_def, take_succ_cons] at hih ⊢
    simp only [append_assoc, singleton_append] at hih
    by_cases heq : d = argmaxToken target tokens
    · rw [if_pos heq, if_pos heq, greedyTokens, ← heq, ← hih]
      split <;> simp
    · rw [if_neg heq, if_neg heq]
      simp [greedyTokens]

theorem argmaxToken_valid (tokens : List Int) : argmaxToken target tokens ≠ placeholderTokenId ∧
      argmaxToken target tokens < (vocabSize : Int) := by
  have := (target tokens).isLt
  unfold argmaxToken placeholderTokenId
  omega

theorem greedyTokens_valid (n : Nat) (tokens : List Int) :
    ∀ x ∈ greedyTokens target n tokens, x ≠ placeholderTokenId ∧ x < (vocabSize : Int) := by
  induction n generalizing tokens with
  | zero => simp [greedyTokens]
  | succ n ih =>
    intro x hx
    rcases mem_cons.mp hx with rfl | hx
    · exact argmaxToken_valid target tokens
    · exact ih _ x hx

/-- What is parsed of the row of a greedy request. -/
theorem filter_outputOf {r : SpecRequest} (hgreedy : r.isGreedy = true) (width : Nat) :
    (outputOf target width r).filter (fun x =>
      decide (x ≠ placeholderTokenId) && decide (x < (vocabSize : Int))) =
      greedyTokens target (numAgreeing target r.knownTokens r.drafts + 1) r.knownTokens := by
  have hrow : rowTokens target r =
      greedyTokens target (numAgreeing target r.knownTokens r.drafts + 1) r.knownTokens := by
    rw [← emitted_eq_greedyTokens, rowTokens, if_pos hgreedy]
    simp only [targetRows, tokenAfter, take_length]
    rfl
  unfold outputOf
  rw [filter_append, hrow, filter_eq_self.mpr, filter_eq_nil_iff.mpr,
    append_nil]
  · intro x hx
    rw [eq_of_mem_replicate hx]
    simp
  · intro x hx
    obtain ⟨hne, hlt⟩ := greedyTokens_valid target _ _ x hx
    simp [hne, hlt]

theorem le_foldr_max {l : List Nat} {n : Nat} (h : n ∈ l) : n ≤ l.foldr max 0 := by
  induction l with
  | nil => cases h
  | cons m l ih =>
    rw [foldr_cons]
    rcases mem_cons.mp h with rfl | h
    · exact Nat.le_max_left ..
    · exact Nat.le_trans (ih h) (Nat.le_max_right ..)

/-- The output of a step: for each greedy request the tokens of its own greedy continuation, one more
than the drafts that agree with it. -/
theorem verifyDrafts_eq (reqs : List SpecRequest) (discardReqIndices : List Nat) :
    ∃ outputs, verifyDrafts target reqs discardReqIndices = some outputs ∧
      outputs.length = reqs.length ∧
      ∀ i r, reqs[i]? = some r → r.isGreedy = true → i ∉ discardReqIndices →
        ∃ tokens, outputs[i]? = some tokens ∧
          tokens = greedyTokens target (numAgreeing target r.knownTokens r.drafts + 1)
            r.knownTokens ∧
          1 ≤ tokens.length ∧ tokens.length ≤ r.drafts.length + 1 := by
  obtain ⟨logits, hlogits, hbonus, htarget⟩ := gather_rows target reqs
  have hle : ∀ r ∈ reqs, r.drafts.length ≤ (reqs.map fun r => r.drafts.length).foldr max 0 :=
    fun r hr => le_foldr_max (mem_map_of_mem hr)
  refine ⟨parseOutput reqs.length ((reqs.map fun r => r.drafts.length).foldr max 0 + 1) vocabSize
    discardReqIndices (reqs.flatMap (outputOf target
      ((reqs.map fun r => r.drafts.length).foldr max 0 + 1))), ?_, ?_, ?_⟩
  · unfold verifyDrafts
    dsimp only
    rw [calcSpecDecodeMetadata_eq]
    simp only [Option.bind_eq_bind, Option.bind_some, hlogits, hbonus, htarget,
      SpecDecodeMetadata.maxSpecLen, rejectionSample_eq target reqs hle]
  · simp [parseOutput]
  · intro i r hr hgreedy hdiscard
    obtain ⟨hi, -⟩ := List.getElem?_eq_some_iff.mp hr
    refine ⟨_, ?_, rfl, ?_, ?_⟩
    · have hrow := drop_take_flatMap (outputOf target
        ((reqs.map fun r => r.drafts.length).foldr max 0 + 1))
        (fun r' hr' => length_outputOf target (Nat.succ_le_succ (hle r' hr'))) hr
      simp only [parseOutput, outputRow, List.getElem?_map, List.getElem?_range hi,
        Option.map_some, if_neg hdiscard, hrow, filter_outputOf target hgreedy]
    · rw [length_greedyTokens]
      omega
    · have := numAgreeing_le target r.knownTokens r.drafts
      rw [length_greedyTokens]
      omega

end Greedy

end Vllm.Proofs.Sample
