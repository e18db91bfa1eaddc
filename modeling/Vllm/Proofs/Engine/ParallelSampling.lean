import Vllm.V1.Engine.OutputProcessor
import Vllm.Lib.Run
import Mathlib.Data.List.Perm.Subperm

/-!
# `Vllm.Proofs.Engine.ParallelSampling`: the completions of a parent

The children of a parent end in any order, by an output of the engine or by an abort. The parent
keeps the set of the children that have not ended, and the output that empties it reports the
parent as finished.

* `makeRequestOutput_running`, `makeRequestOutput_ended`: what an output of a child leaves.
* `ChildEnded`: the state after the last output of a child, on either way.
* `ParentOk`: what holds of a parent in every state.
* `aggregated_of_run`: each completion is handed over once and the parent is reported and dropped
  with the last one, when the children are all added before the first one ends, no child without a
  queue is aborted, and the last one is not aborted by its own id.
-/

set_option autoImplicit false

namespace Vllm.Proofs.Engine

open Vllm.Lib Vllm.V1.Engine PyDict OutputProcessor Function RequestState List

variable {δ lp : Type}

/-! ### The output of a child -/

/-- The state of a request keeps what it was added with. -/
structure SameRequest (st st' : RequestState δ lp) : Prop where
  requestId : st'.requestId = st.requestId
  parentReq : st'.parentReq = st.parentReq
  requestIndex : st'.requestIndex = st.requestIndex
  outputKind : st'.outputKind = st.outputKind
  queue : st'.queue = st.queue
  detokenizer : st'.detokenizer.isSome = st.detokenizer.isSome
  logprobsProcessor : st'.logprobsProcessor.isSome = st.logprobsProcessor.isSome

section MakeOutput
variable {st : RequestState δ lp}

theorem SameRequest.refl (st : RequestState δ lp) : SameRequest st st :=
  ⟨rfl, rfl, rfl, rfl, rfl, rfl, rfl⟩

theorem SameRequest.trans {st1 st2 : RequestState δ lp} (h : SameRequest st st1)
    (h' : SameRequest st1 st2) : SameRequest st st2 :=
  ⟨h'.requestId.trans h.requestId, h'.parentReq.trans h.parentReq,
    h'.requestIndex.trans h.requestIndex, h'.outputKind.trans h.outputKind,
    h'.queue.trans h.queue, h'.detokenizer.trans h.detokenizer,
    h'.logprobsProcessor.trans h.logprobsProcessor⟩

/-- A sampling request. -/
def Samples (st : RequestState δ lp) : Prop :=
  st.detokenizer.isSome = true ∧ st.logprobsProcessor.isSome = true

theorem Samples.congr {st' : RequestState δ lp} (h : Samples st) (hsame : SameRequest st st') :
    Samples st' :=
  ⟨hsame.detokenizer.trans h.1, hsame.logprobsProcessor.trans h.2⟩

variable [Detokenizer δ]

theorem streamedTokens_spec (h : Samples st) (newTokenIds : List Int) (finished : Bool) :
    ∃ tokens st', st.streamedTokens newTokenIds finished = .ok (tokens, st') ∧
      SameRequest st st' ∧ (finished = true → tokens.isSome = true) := by
  obtain ⟨hdetok, -⟩ := h
  obtain ⟨d, hd⟩ := Option.isSome_iff_exists.mp hdetok
  unfold streamedTokens
  split
  · exact ⟨_, _, rfl, .refl st, fun _ => rfl⟩
  · rw [hd]
    dsimp only
    split
    · rename_i hheld
      refine ⟨_, _, rfl, .refl st, fun hfin => ?_⟩
      rw [hheld.1] at hfin
      cases hfin
    · split
      · refine ⟨_, _, rfl, ?_, fun _ => rfl⟩
        exact ⟨rfl, rfl, rfl, rfl, rfl, by rw [hd], rfl⟩
      · exact ⟨_, _, rfl, .refl st, fun _ => rfl⟩

theorem newCompletionOutput_spec (h : Samples st) (tokenIds : List Int)
    (finishReason : Option FinishReason) (stopReason : Option String) :
    ∃ output st', st.newCompletionOutput tokenIds finishReason stopReason = .ok (output, st') ∧
      SameRequest st st' ∧ output.index = st.requestIndex ∧
      output.finishReason = finishReason := by
  obtain ⟨hdetok, hlogprobs⟩ := h
  obtain ⟨d, hd⟩ := Option.isSome_iff_exists.mp hdetok
  obtain ⟨l, hl⟩ := Option.isSome_iff_exists.mp hlogprobs
  unfold newCompletionOutput
  rw [hd, hl]
  refine ⟨_, _, rfl, ?_, rfl, rfl⟩
  exact ⟨rfl, rfl, rfl, rfl, rfl, by rw [hd]; rfl, by rw [hl]⟩

omit [Detokenizer δ] in
theorem newRequestOutput_spec (h : Samples st) (requestId : String)
    (outputs : List (Option (CompletionOutput lp))) (finished : Bool) :
    ∃ output st', st.newRequestOutput requestId outputs finished = .ok (output, st') ∧
      SameRequest st st' ∧ output.outputs = outputs ∧ output.finished = finished := by
  obtain ⟨l, hl⟩ := Option.isSome_iff_exists.mp h.2
  unfold newRequestOutput
  rw [hl]
  dsimp only
  split
  · refine ⟨_, _, rfl, ?_, rfl, rfl⟩
    exact ⟨rfl, rfl, rfl, rfl, rfl, rfl, by rw [hl]; rfl⟩
  · exact ⟨_, _, rfl, .refl st, rfl, rfl⟩

/-- The parent after the last output of a child. -/
def endChild (p : ParentRequest lp) (childRequestId : String) (c : CompletionOutput lp) :
    ParentRequest lp :=
  { p with
    childRequests := p.childRequests.erase childRequestId
    outputAggregator := if p.outputKind = .finalOnly then
        p.outputAggregator.set c.index (some c)
      else p.outputAggregator }

/-- The completions that are handed over with the last output of a child. -/
def handedOver (p : ParentRequest lp) (c : CompletionOutput lp) :
    List (Option (CompletionOutput lp)) :=
  if p.outputKind ≠ .finalOnly then [some c]
  else if p.childRequests = [] then p.outputAggregator else []

variable {c : CompletionOutput lp}

theorem getOutputs_running {p : ParentRequest lp} {id : String}
    (hkind : p.outputKind ≠ .finalOnly) (hc : c.finished = false) :
    p.getOutputs id c = .ok ([some c], p.childRequests.isEmpty, p) := by
  unfold ParentRequest.getOutputs
  simp [hc, hkind]

theorem getOutputs_ended {p : ParentRequest lp} {id : String} (hchild : id ∈ p.childRequests)
    (hc : c.finished = true)
    (hidx : p.outputKind = .finalOnly → c.index < p.outputAggregator.length) :
    p.getOutputs id c = .ok (handedOver (endChild p id c) c,
      (endChild p id c).childRequests.isEmpty, endChild p id c) := by
  unfold ParentRequest.getOutputs
  by_cases hkind : p.outputKind = .finalOnly
  · have hlt := hidx hkind
    simp only [hc, if_true, hkind, ne_eq, not_true_eq_false, if_false]
    rw [if_neg (by omega)]
    unfold handedOver endChild
    simp [hkind]
  · unfold handedOver endChild
    simp [hc, hkind, hchild]

variable {parents : ParentRef → ParentRequest lp} {P : ParentRef}

/-- An output of a child that goes on. -/
theorem makeRequestOutput_running (h : Samples st) (hP : st.parentReq = some P)
    (hkind : st.outputKind = (parents P).outputKind)
    (hchild : st.requestId ∈ (parents P).childRequests) (newTokenIds : List Int)
    (stopReason : Option String) :
    ∃ out st', st.makeRequestOutput parents newTokenIds false none stopReason =
        .ok (out, st', parents) ∧ SameRequest st st' ∧
      ∀ o ∈ out, ∃ r c, o = .request r ∧ r.outputs = [some c] ∧ c.finished = false ∧
        r.finished = false := by
  unfold makeRequestOutput
  dsimp only
  split
  · exact ⟨none, st, rfl, .refl st, fun o ho => by cases ho⟩
  · rename_i hfinal
    obtain ⟨tokens, st1, hst1, hsame1, -⟩ := streamedTokens_spec h newTokenIds false
    rw [show (none : Option FinishReason).isSome = false from rfl, hst1, except_ok_bind]
    dsimp only
    cases tokens with
    | none => exact ⟨none, st1, rfl, hsame1, fun o ho => by cases ho⟩
    | some tokens =>
      obtain ⟨c, st2, hst2, hsame2, -, hreason⟩ :=
        newCompletionOutput_spec (h.congr hsame1) tokens none stopReason
      have hsame := hsame1.trans hsame2
      have hc : c.finished = false := by
        unfold CompletionOutput.finished
        rw [hreason]
        rfl
      have hkind' : (parents P).outputKind ≠ .finalOnly := fun heq =>
        hfinal ⟨rfl, hkind.trans heq⟩
      have hne : (parents P).childRequests.isEmpty = false := by
        cases hl : (parents P).childRequests with
        | nil =>
          rw [hl] at hchild
          cases hchild
        | cons a l => rfl
      dsimp only
      rw [if_neg Bool.false_ne_true, hst2, except_ok_bind]
      dsimp only
      rw [hsame.parentReq.trans hP]
      dsimp only
      rw [getOutputs_running hkind' hc, except_ok_bind]
      dsimp only
      rw [if_neg (by simp)]
      obtain ⟨r, st3, hst3, hsame3, houts, hfin⟩ := newRequestOutput_spec (h.congr hsame)
        (parents P).requestId [some c] (parents P).childRequests.isEmpty
      rw [hst3, except_ok_bind, update_eq_self]
      refine ⟨some (.request r), st3, rfl, hsame.trans hsame3, fun o ho => ?_⟩
      cases ho
      exact ⟨r, c, rfl, houts, hc, hfin.trans hne⟩

/-- The last output of a child. -/
theorem makeRequestOutput_ended (h : Samples st) (hP : st.parentReq = some P)
    (hchild : st.requestId ∈ (parents P).childRequests)
    (hidx : (parents P).outputKind = .finalOnly →
      st.requestIndex < (parents P).outputAggregator.length)
    (newTokenIds : List Int) (reason : FinishReason) (stopReason : Option String) :
    ∃ c out st', st.makeRequestOutput parents newTokenIds false (some reason) stopReason =
        .ok (out, st', update parents P (endChild (parents P) st.requestId c)) ∧
      SameRequest st st' ∧ c.index = st.requestIndex ∧ c.finished = true ∧
      (handedOver (endChild (parents P) st.requestId c) c = [] → out = none) ∧
      (handedOver (endChild (parents P) st.requestId c) c ≠ [] → ∃ r, out = some (.request r) ∧
        r.outputs = handedOver (endChild (parents P) st.requestId c) c ∧
        r.finished = (endChild (parents P) st.requestId c).childRequests.isEmpty) := by
  unfold makeRequestOutput
  dsimp only
  rw [if_neg fun hcond => Bool.noConfusion hcond.1]
  obtain ⟨tokens, st1, hst1, hsame1, hsome⟩ := streamedTokens_spec h newTokenIds true
  obtain ⟨tokens, rfl⟩ := Option.isSome_iff_exists.mp (hsome rfl)
  rw [show (some reason).isSome = true from rfl, hst1, except_ok_bind]
  dsimp only
  obtain ⟨c, st2, hst2, hsame2, hindex, hreason⟩ :=
    newCompletionOutput_spec (h.congr hsame1) tokens (some reason) stopReason
  have hsame := hsame1.trans hsame2
  have hci : c.index = st.requestIndex := hindex.trans hsame1.requestIndex
  have hc : c.finished = true := by
    unfold CompletionOutput.finished
    rw [hreason]
    rfl
  rw [if_neg Bool.false_ne_true, hst2, except_ok_bind]
  dsimp only
  rw [hsame.parentReq.trans hP]
  dsimp only
  rw [getOutputs_ended (hsame.requestId ▸ hchild) hc fun hfinal => hci ▸ hidx hfinal,
    except_ok_bind, hsame.requestId]
  dsimp only
  by_cases hnil : handedOver (endChild (parents P) st.requestId c) c = []
  · rw [if_pos hnil]
    exact ⟨c, none, st2, rfl, hsame, hci, hc, fun _ => rfl, fun hne => absurd hnil hne⟩
  · rw [if_neg hnil]
    obtain ⟨r, st3, hst3, hsame3, houts, hfin⟩ := newRequestOutput_spec (h.congr hsame)
      (endChild (parents P) st.requestId c).requestId
      (handedOver (endChild (parents P) st.requestId c) c)
      (endChild (parents P) st.requestId c).childRequests.isEmpty
    rw [hst3, except_ok_bind]
    exact ⟨c, some (.request r), st3, rfl, hsame.trans hsame3, hci, hc, fun h' => absurd h' hnil,
      fun _ => ⟨r, rfl, houts, hfin⟩⟩

end MakeOutput

/-! ### What is handed over for a parent -/

/-- The output of a sampling request. -/
def asRequestOutput : ProcessedOutput lp → Option (RequestOutput lp)
  | .request output => some output
  | .pooling _ _ => none

/-- The outputs that were handed over for a parent, in order. -/
def outputsOf (P : ParentRef) (delivered : List (Delivery lp)) : List (RequestOutput lp) :=
  delivered.filterMap fun d => if d.parentReq = some P then asRequestOutput d.output else none

/-- How many of the completions are finished ones of the child `i`. -/
def finishedOf (i : Nat) (outputs : List (Option (CompletionOutput lp))) : Nat :=
  (outputs.filter fun c => c.any fun c => decide (c.index = i) && c.finished).length

/-- How often a finished completion of the child `i` was handed over. -/
def timesDelivered (i : Nat) (outputs : List (RequestOutput lp)) : Nat :=
  (outputs.map fun o => finishedOf i o.outputs).sum

/-- The completion of the child `i` has to be handed over: it has ended, and with it all children
when only the final output is wanted. -/
def Due (p : ParentRequest lp) (i : Nat) : Prop :=
  i ∈ p.ended ∧ (p.outputKind = .finalOnly → p.ended.length = p.n)

instance (p : ParentRequest lp) (i : Nat) : Decidable (Due p i) :=
  inferInstanceAs (Decidable (i ∈ p.ended ∧ (p.outputKind = .finalOnly → p.ended.length = p.n)))

/-- What has to hold of the outputs of a parent. -/
structure HandedOnce (p : ParentRequest lp) (outputs : List (RequestOutput lp)) : Prop where
  once : ∀ i, timesDelivered i outputs = if Due p i then 1 else 0
  finished : (outputs.filter fun o => o.finished).length = if p.ended.length = p.n then 1 else 0
  last : ∀ o ∈ outputs, o.finished = true →
    ∃ i, p.ended.getLast? = some i ∧ 0 < finishedOf i o.outputs

/-- What holds of a parent and of its outputs in every state. -/
structure ParentOk (p : ParentRequest lp) (outputs : List (RequestOutput lp)) : Prop where
  pos : 0 < p.n
  added_le : p.added ≤ p.n
  nodup : p.childRequests.Nodup
  length : p.childRequests.length + p.ended.length = p.added
  ended_nodup : p.ended.Nodup
  ended_lt : ∀ i ∈ p.ended, i < p.added
  full : p.ended ≠ [] → p.added = p.n
  aggregator : p.outputKind = .finalOnly → p.outputAggregator.length = p.n ∧
    ∀ i ∈ p.ended, ∃ c, p.outputAggregator[i]? = some (some c) ∧ c.index = i ∧ c.finished = true
  handed : HandedOnce p outputs

section Outputs
variable {p : ParentRequest lp} {outputs : List (RequestOutput lp)}

theorem timesDelivered_concat (i : Nat) (r : RequestOutput lp) :
    timesDelivered i (outputs ++ [r]) = timesDelivered i outputs + finishedOf i r.outputs := by
  unfold timesDelivered
  simp

theorem finishedOf_singleton (i : Nat) (c : CompletionOutput lp) :
    finishedOf i [some c] = if c.index = i ∧ c.finished = true then 1 else 0 := by
  unfold finishedOf
  by_cases h : c.index = i ∧ c.finished = true
  · rw [if_pos h]
    simp [h.1, h.2]
  · have hcond : (some c).any (fun c => decide (c.index = i) && c.finished) = false := by
      rw [← Bool.not_eq_true]
      simpa using h
    rw [if_neg h, filter_cons_of_neg (by rw [hcond]; exact Bool.false_ne_true)]
    rfl

/-- A list in which the entry `j` is the finished completion of the child `k + j`. -/
theorem finishedOf_aggregated {l : List (Option (CompletionOutput lp))} {k : Nat}
    (h : ∀ j < l.length, ∃ c, l[j]? = some (some c) ∧ c.index = k + j ∧ c.finished = true)
    (i : Nat) : finishedOf i l = if k ≤ i ∧ i < k + l.length then 1 else 0 := by
  induction l generalizing k with
  | nil =>
    rw [if_neg]
    · rfl
    · simp only [length_nil]
      omega
  | cons a l ih =>
    obtain ⟨c, hc, hindex, hfin⟩ := h 0 (Nat.zero_lt_succ _)
    obtain rfl : a = some c := Option.some.inj hc
    have htail := ih (k := k + 1) fun j hj => by
      obtain ⟨c', hc', hindex', hfin'⟩ := h (j + 1) (Nat.succ_lt_succ hj)
      exact ⟨c', hc', by omega, hfin'⟩
    have hcons : finishedOf i (some c :: l) = finishedOf i [some c] + finishedOf i l := by
      unfold finishedOf
      rw [← length_append, ← filter_append]
      rfl
    rw [hcons, finishedOf_singleton, htail, length_cons]
    simp only [hindex, hfin, Nat.add_zero, and_true]
    split <;> split <;> split <;> omega

/-- A child that has not ended takes one of the places that are left. -/
theorem mem_of_length_eq {l : List Nat} {n : Nat} (hnodup : l.Nodup) (hlt : ∀ i ∈ l, i < n)
    (hlen : l.length = n) (i : Nat) : i ∈ l ↔ i < n := by
  have hsub : l ⊆ List.range n := fun j hj => mem_range.mpr (hlt j hj)
  have hperm : l.Perm (List.range n) := (subperm_of_subset hnodup hsub).perm_of_length_le
      (Nat.le_of_eq (by rw [length_range, hlen]))
  rw [hperm.mem_iff, mem_range]

theorem no_finished (h : HandedOnce p outputs) (hlen : p.ended.length ≠ p.n) :
    ∀ o ∈ outputs, o.finished = false := by
  have hzero := h.finished
  rw [if_neg hlen, length_eq_zero_iff, filter_eq_nil_iff] at hzero
  intro o ho
  exact (Bool.not_eq_true _).mp (hzero o ho)

variable {c : CompletionOutput lp}

/-- An output of a child that goes on changes nothing that counts. -/
theorem ParentOk.running {r : RequestOutput lp} (h : ParentOk p outputs)
    (houts : r.outputs = [some c]) (hc : c.finished = false) (hr : r.finished = false) :
    ParentOk p (outputs ++ [r]) := by
  refine { h with handed := ⟨fun i => ?_, ?_, fun o ho hfin => ?_⟩ }
  · rw [timesDelivered_concat, houts, finishedOf_singleton, if_neg fun hcond => by
      rw [hc] at hcond
      exact Bool.noConfusion hcond.2, h.handed.once, Nat.add_zero]
  · rw [filter_append, filter_singleton, hr]
    simpa using h.handed.finished
  · rcases mem_append.mp ho with ho | ho
    · exact h.handed.last o ho hfin
    · rw [mem_singleton.mp ho, hr] at hfin
      cases hfin

/-- The last output of a child: the parent has it handed over, at once or with the others. -/
theorem ParentOk.ended {id : String} {new : List (RequestOutput lp)} (h : ParentOk p outputs)
    (hchild : id ∈ p.childRequests) (hfull : p.added = p.n) (hlt : c.index < p.added)
    (hnot : c.index ∉ p.ended) (hc : c.finished = true)
    (hnil : handedOver (endChild p id c) c = [] → new = [])
    (hnew : handedOver (endChild p id c) c ≠ [] →
      ∃ r, new = [r] ∧ r.outputs = handedOver (endChild p id c) c ∧
      r.finished = (endChild p id c).childRequests.isEmpty) :
    ParentOk { endChild p id c with ended := p.ended ++ [c.index] } (outputs ++ new) := by
  have hpos := length_pos_of_mem hchild
  have hlength := h.length
  have hlen : (p.childRequests.erase id).length + (p.ended ++ [c.index]).length = p.added := by
    rw [length_erase_of_mem hchild, length_append, length_singleton]
    omega
  have hbefore : p.ended.length ≠ p.n := by omega
  have hnodup : (p.ended ++ [c.index]).Nodup := by
    rw [nodup_append]
    refine ⟨h.ended_nodup, nodup_singleton _, fun i hi j hj heq => hnot ?_⟩
    rw [← mem_singleton.mp hj, ← heq]
    exact hi
  have hall : ∀ i ∈ p.ended ++ [c.index], i < p.added := by
    intro i hi
    rcases mem_append.mp hi with hi | hi
    · exact h.ended_lt i hi
    · rw [mem_singleton.mp hi]
      exact hlt
  have hempty : p.childRequests.erase id = [] ↔ (p.ended ++ [c.index]).length = p.n := by
    rw [← length_eq_zero_iff]
    omega
  have hagg : p.outputKind = .finalOnly →
      (p.outputAggregator.set c.index (some c)).length = p.n ∧ ∀ i ∈ p.ended ++ [c.index], ∃ c',
        (p.outputAggregator.set c.index (some c))[i]? = some (some c') ∧ c'.index = i ∧
          c'.finished = true := by
    intro hfinal
    obtain ⟨hsize, hentries⟩ := h.aggregator hfinal
    refine ⟨by rw [length_set, hsize], fun i hi => ?_⟩
    rcases mem_append.mp hi with hi | hi
    · obtain ⟨c', hget, hindex, hfin⟩ := hentries i hi
      have hne : c.index ≠ i := fun heq => hnot (heq ▸ hi)
      exact ⟨c', by rw [List.getElem?_set_ne hne, hget], hindex, hfin⟩
    · rw [mem_singleton.mp hi]
      exact ⟨c, by rw [List.getElem?_set_self (by omega)], rfl, hc⟩
  -- The number of finished completions in what is handed over.
  have hcount : ∀ i, finishedOf i (handedOver (endChild p id c) c) =
      if p.outputKind = .finalOnly then
        if p.childRequests.erase id = [] ∧ i < p.n then 1 else 0
      else if c.index = i then 1 else 0 := by
    intro i
    unfold handedOver endChild
    by_cases hfinal : p.outputKind = .finalOnly
    · obtain ⟨hsize, hentries⟩ := hagg hfinal
      simp only [hfinal, ne_eq, not_true_eq_false, if_false, if_true]
      split
      · rename_i hnone
        have hmem := mem_of_length_eq hnodup (fun i hi => hfull ▸ hall i hi) (hempty.mp hnone)
        rw [finishedOf_aggregated (k := 0) fun j hj => by
          rw [Nat.zero_add]
          exact hentries j ((hmem j).mpr (hsize ▸ hj)), hsize]
        simp [hnone]
      · rename_i hsome
        simp [hsome, finishedOf]
    · simp only [hfinal, ne_eq, not_false_eq_true, if_true, if_false]
      rw [finishedOf_singleton]
      simp [hc]
  have hnewOnce : ∀ i, timesDelivered i (outputs ++ new) =
      timesDelivered i outputs + finishedOf i (handedOver (endChild p id c) c) := by
    intro i
    by_cases hn : handedOver (endChild p id c) c = []
    · rw [hnil hn, hn, append_nil]
      rfl
    · obtain ⟨r, rfl, houts, -⟩ := hnew hn
      rw [timesDelivered_concat, houts]
  constructor
  case pos => exact h.pos
  case added_le => exact h.added_le
  case nodup => exact h.nodup.erase id
  case length => exact hlen
  case ended_nodup => exact hnodup
  case ended_lt => exact hall
  case full => exact fun _ => hfull
  case aggregator =>
    intro hfinal
    have hfinal' : p.outputKind = .finalOnly := hfinal
    show (if p.outputKind = .finalOnly then _ else _ : List _).length = p.n ∧ _
    simp only [endChild, hfinal', if_true]
    exact hagg hfinal'
  case handed =>
    have hnone := no_finished h.handed hbefore
    have hfilter : outputs.filter (fun o => o.finished) = [] :=
      filter_eq_nil_iff.mpr fun o ho => by
        rw [hnone o ho]
        exact Bool.false_ne_true
    have hlast : p.childRequests.erase id = [] →
        finishedOf c.index (handedOver (endChild p id c) c) = 1 := by
      intro hnone
      rw [hcount]
      simp [hnone, show c.index < p.n by omega]
    refine ⟨fun i => ?_, ?_, fun o ho hfin => ?_⟩
    · rw [hnewOnce, hcount, h.handed.once]
      by_cases hfinal : p.outputKind = .finalOnly
      · have hdue : Due { endChild p id c with ended := p.ended ++ [c.index] } i ↔
            p.childRequests.erase id = [] ∧ i < p.n := by
          constructor
          · rintro ⟨hi, hend⟩
            exact ⟨hempty.mpr (hend hfinal), hfull ▸ hall i hi⟩
          · rintro ⟨hnone, hi⟩
            refine ⟨?_, fun _ => hempty.mp hnone⟩
            exact (mem_of_length_eq hnodup (fun i hi => hfull ▸ hall i hi) (hempty.mp hnone) i).mpr
              hi
        rw [if_neg fun hold : Due p i => hbefore (hold.2 hfinal), if_pos hfinal, Nat.zero_add]
        exact if_congr hdue.symm rfl rfl
      · have hold : Due p i ↔ i ∈ p.ended :=
          ⟨fun hd => hd.1, fun hi => ⟨hi, fun hf => absurd hf hfinal⟩⟩
        have hdue : Due { endChild p id c with ended := p.ended ++ [c.index] } i ↔
            i ∈ p.ended ∨ i = c.index := by
          constructor
          · rintro ⟨hi, -⟩
            exact (mem_append.mp hi).imp_right mem_singleton.mp
          · intro hi
            exact ⟨mem_append.mpr (hi.imp_right mem_singleton.mpr),
              fun hf => absurd hf hfinal⟩
        rw [if_congr hold rfl rfl, if_neg hfinal, if_congr hdue rfl rfl]
        by_cases hi : i ∈ p.ended
        · have hne : c.index ≠ i := fun heq => hnot (heq ▸ hi)
          simp [hi, hne]
        · by_cases heq : c.index = i
          · subst heq
            simp [hi]
          · simp [hi, heq, Ne.symm heq]
    · rw [filter_append, hfilter, nil_append]
      show _ = if (p.ended ++ [c.index]).length = p.n then 1 else 0
      by_cases hn : handedOver (endChild p id c) c = []
      · rw [hnil hn, if_neg fun hend => ?_]
        · rfl
        · have hone := hlast (hempty.mpr hend)
          rw [hn] at hone
          cases hone
      · obtain ⟨r, rfl, -, hfin⟩ := hnew hn
        by_cases hend : p.childRequests.erase id = []
        · have htrue : r.finished = true := by
            rw [hfin]
            exact isEmpty_iff.mpr hend
          rw [if_pos (hempty.mp hend), filter_cons_of_pos htrue]
          rfl
        · have hfalse : ¬ r.finished = true := by
            rw [hfin]
            exact fun he => hend (isEmpty_iff.mp he)
          rw [if_neg fun he => hend (hempty.mpr he), filter_cons_of_neg hfalse]
          rfl
    · rcases mem_append.mp ho with ho | ho
      · rw [hnone o ho] at hfin
        cases hfin
      · by_cases hn : handedOver (endChild p id c) c = []
        · rw [hnil hn] at ho
          cases ho
        · obtain ⟨r, rfl, houts, hrfin⟩ := hnew hn
          obtain rfl := mem_singleton.mp ho
          rw [hrfin] at hfin
          refine ⟨c.index, ?_, ?_⟩
          · show (p.ended ++ [c.index]).getLast? = some c.index
            simp
          · rw [houts, hlast (isEmpty_iff.mp hfin)]
            exact Nat.one_pos

end Outputs

/-! ### The states of the children -/

/-- What a parent knows of a child that has not ended. -/
structure ChildOk (p : ParentRequest lp) (st : RequestState δ lp) : Prop where
  mem : st.requestId ∈ p.childRequests
  lt : st.requestIndex < p.added
  notEnded : st.requestIndex ∉ p.ended
  kind : st.outputKind = p.outputKind
  samples : Samples st

/-- The states of the requests and the parents agree. -/
structure Core (s : OutputProcessor δ lp) : Prop where
  states : ∀ k st, s.requestStates.get? k = some st → st.requestId = k ∧
    ∀ P, st.parentReq = some P → P < s.numParents ∧ ChildOk (s.parents P) st
  distinct : ∀ k k' st st' P, s.requestStates.get? k = some st →
    s.requestStates.get? k' = some st' → st.parentReq = some P → st'.parentReq = some P →
    st.requestIndex = st'.requestIndex → k = k'
  children : ∀ P < s.numParents, ∀ k ∈ (s.parents P).childRequests,
    ∃ st, s.requestStates.get? k = some st ∧ st.parentReq = some P
  parent : ∀ P < s.numParents, ParentOk (s.parents P) (outputsOf P s.delivered)
  fresh : ∀ P, s.numParents ≤ P → outputsOf P s.delivered = []

/-- Some child of the parent has not ended. -/
def Live (p : ParentRequest lp) : Prop := 0 < p.added ∧ p.ended.length < p.n

/-- `parent_requests` has the parents with a child that has not ended. -/
structure Registered (s : OutputProcessor δ lp) : Prop where
  live : ∀ P < s.numParents,
    s.parentRequests.get? (s.parents P).requestId = some P ↔ Live (s.parents P)
  named : ∀ id P, s.parentRequests.get? id = some P →
    P < s.numParents ∧ (s.parents P).requestId = id

section Core
variable {s s' : OutputProcessor δ lp} {k : String} {st : RequestState δ lp} {P : ParentRef}

theorem outputsOf_concat (Q : ParentRef) (delivered : List (Delivery lp)) (d : Delivery lp) :
    outputsOf Q (delivered ++ [d]) = outputsOf Q delivered ++
      if d.parentReq = some Q then (asRequestOutput d.output).toList else [] := by
  unfold outputsOf
  rw [filterMap_append]
  congr 1
  rw [filterMap_cons, filterMap_nil]
  split
  · rename_i hnone
    split
    · rename_i hQ
      rw [if_pos hQ] at hnone
      rw [hnone]
      rfl
    · rfl
  · rename_i o hsome
    split
    · rename_i hQ
      rw [if_pos hQ] at hsome
      rw [hsome]
      rfl
    · rename_i hQ
      rw [if_neg hQ] at hsome
      cases hsome

/-- The states of the requests change only in what the requests do not depend on. -/
theorem Core.of_same (h : Core s) (hparents : s'.parents = s.parents)
    (hnum : s'.numParents = s.numParents)
    (hback : ∀ k st', s'.requestStates.get? k = some st' →
      ∃ st, s.requestStates.get? k = some st ∧ SameRequest st st')
    (hforth : ∀ k st, s.requestStates.get? k = some st →
      ∃ st', s'.requestStates.get? k = some st' ∧ SameRequest st st')
    (houts : ∀ P < s.numParents, ParentOk (s.parents P) (outputsOf P s'.delivered))
    (hfresh : ∀ P, s.numParents ≤ P → outputsOf P s'.delivered = []) : Core s' := by
  constructor
  case states =>
    intro k st' hget
    obtain ⟨st, hst, hsame⟩ := hback k st' hget
    obtain ⟨hid, hchild⟩ := h.states k st hst
    refine ⟨hsame.requestId.trans hid, fun P hP => ?_⟩
    obtain ⟨hlt, hok⟩ := hchild P (hsame.parentReq ▸ hP)
    rw [hparents, hnum]
    refine ⟨hlt, ?_, ?_, ?_, ?_, hok.samples.congr hsame⟩
    · rw [hsame.requestId]
      exact hok.mem
    · rw [hsame.requestIndex]
      exact hok.lt
    · rw [hsame.requestIndex]
      exact hok.notEnded
    · rw [hsame.outputKind]
      exact hok.kind
  case distinct =>
    intro k k' st' st₁' P hget hget' hP hP' hidx
    obtain ⟨st, hst, hsame⟩ := hback k st' hget
    obtain ⟨st1, hst1, hsame1⟩ := hback k' st₁' hget'
    refine h.distinct k k' st st1 P hst hst1 (hsame.parentReq ▸ hP) (hsame1.parentReq ▸ hP') ?_
    rw [← hsame.requestIndex, ← hsame1.requestIndex, hidx]
  case children =>
    intro P hlt k hk
    rw [hnum] at hlt
    rw [hparents] at hk
    obtain ⟨st, hst, hP⟩ := h.children P hlt k hk
    obtain ⟨st', hst', hsame⟩ := hforth k st hst
    exact ⟨st', hst', hsame.parentReq.trans hP⟩
  case parent =>
    intro P hlt
    rw [hnum] at hlt
    rw [hparents]
    exact houts P hlt
  case fresh =>
    intro P hle
    rw [hnum] at hle
    exact hfresh P hle

/-- What is left when the child `k` of `P` has ended. -/
structure ChildGone (s : OutputProcessor δ lp) (k : String) (P : ParentRef) (i : Nat)
    (s' : OutputProcessor δ lp) : Prop where
  core : Core s'
  numParents : s'.numParents = s.numParents
  states : ∀ k', s'.requestStates.get? k' = if k' = k then none else s.requestStates.get? k'
  others : ∀ Q, Q ≠ P → s'.parents Q = s.parents Q
  requestId : (s'.parents P).requestId = (s.parents P).requestId
  n : (s'.parents P).n = (s.parents P).n
  added : (s'.parents P).added = (s.parents P).added
  childRequests : (s'.parents P).childRequests = (s.parents P).childRequests.erase k
  ended : (s'.parents P).ended = (s.parents P).ended ++ [i]

/-- The parent takes the last output of a child, and the state of the child goes. -/
theorem Core.childGone {c : CompletionOutput lp} (h : Core s) (new : List (RequestOutput lp))
    (hget : s.requestStates.get? k = some st) (hP : st.parentReq = some P)
    (hfull : (s.parents P).added = (s.parents P).n) (hindex : c.index = st.requestIndex)
    (hc : c.finished = true)
    (hnil : handedOver (endChild (s.parents P) k c) c = [] → new = [])
    (hnew : handedOver (endChild (s.parents P) k c) c ≠ [] → ∃ r, new = [r] ∧
      r.outputs = handedOver (endChild (s.parents P) k c) c ∧
      r.finished = (endChild (s.parents P) k c).childRequests.isEmpty)
    (hstates : ∀ k', s'.requestStates.get? k' = if k' = k then none else s.requestStates.get? k')
    (hparents : s'.parents = update s.parents P
      { endChild (s.parents P) k c with ended := (s.parents P).ended ++ [st.requestIndex] })
    (hnum : s'.numParents = s.numParents)
    (houts : ∀ Q, outputsOf Q s'.delivered = outputsOf Q s.delivered ++ if Q = P then new else []) :
    ChildGone s k P st.requestIndex s' := by
  obtain ⟨hid, hchild⟩ := h.states k st hget
  obtain ⟨hlt, hok⟩ := hchild P hP
  have hself : s'.parents P =
      { endChild (s.parents P) k c with ended := (s.parents P).ended ++ [st.requestIndex] } := by
    rw [hparents, update_self]
  have hother : ∀ Q, Q ≠ P → s'.parents Q = s.parents Q := fun Q hne => by
    rw [hparents, update_of_ne hne]
  have hback : ∀ k' st', s'.requestStates.get? k' = some st' →
      k' ≠ k ∧ s.requestStates.get? k' = some st' := by
    intro k' st' hget'
    rw [hstates] at hget'
    split at hget'
    · cases hget'
    · exact ⟨‹_›, hget'⟩
  refine ⟨?_, hnum, hstates, hother, by rw [hself]; rfl, by rw [hself]; rfl, by rw [hself]; rfl,
    by rw [hself]; rfl, by rw [hself]⟩
  constructor
  case states =>
    intro k' st' hget'
    obtain ⟨hne, hget'⟩ := hback k' st' hget'
    obtain ⟨hid', hchild'⟩ := h.states k' st' hget'
    refine ⟨hid', fun Q hQ => ?_⟩
    obtain ⟨hlt', hok'⟩ := hchild' Q hQ
    rw [hnum]
    refine ⟨hlt', ?_⟩
    by_cases hQP : Q = P
    · subst hQP
      rw [hself]
      refine ⟨?_, hok'.lt, ?_, hok'.kind, hok'.samples⟩
      · exact (mem_erase_of_ne (by rw [hid']; exact hne)).mpr hok'.mem
      · intro hmem
        rcases mem_append.mp hmem with hmem | hmem
        · exact hok'.notEnded hmem
        · exact hne (h.distinct k' k st' st Q hget' hget hQ hP (mem_singleton.mp hmem))
    · rw [hother Q hQP]
      exact hok'
  case distinct =>
    intro k1 k2 st1 st2 Q h1 h2 hQ1 hQ2 hidx
    exact h.distinct k1 k2 st1 st2 Q (hback k1 st1 h1).2 (hback k2 st2 h2).2 hQ1 hQ2 hidx
  case children =>
    intro Q hQlt k' hk'
    rw [hnum] at hQlt
    by_cases hQP : Q = P
    · subst hQP
      rw [hself] at hk'
      have hmem := ((h.parent Q hQlt).nodup.mem_erase_iff).mp hk'
      obtain ⟨st', hst', hP'⟩ := h.children Q hQlt k' hmem.2
      exact ⟨st', by rw [hstates, if_neg hmem.1, hst'], hP'⟩
    · rw [hother Q hQP] at hk'
      obtain ⟨st', hst', hP'⟩ := h.children Q hQlt k' hk'
      refine ⟨st', ?_, hP'⟩
      rw [hstates, if_neg, hst']
      rintro rfl
      rw [hst'] at hget
      cases hget
      exact hQP (Option.some.inj (hP'.symm.trans hP))
  case parent =>
    intro Q hQlt
    rw [hnum] at hQlt
    rw [houts]
    by_cases hQP : Q = P
    · subst hQP
      rw [if_pos rfl, hself, ← hindex]
      refine (h.parent Q hQlt).ended (hid ▸ hok.mem) hfull ?_ ?_ hc hnil hnew
      · rw [hindex]
        exact hok.lt
      · rw [hindex]
        exact hok.notEnded
    · rw [if_neg hQP, append_nil, hother Q hQP]
      exact h.parent Q hQlt
  case fresh =>
    intro Q hQle
    rw [hnum] at hQle
    have hne : Q ≠ P := fun heq => Nat.not_lt.mpr hQle (heq ▸ hlt)
    rw [houts, h.fresh Q hQle, if_neg hne]
    rfl

/-- The output of a child is among those of its parent. -/
theorem outputsOf_deliver (s : OutputProcessor δ lp) {st : RequestState δ lp}
    (hP : st.parentReq = some P) (out : Option (ProcessedOutput lp)) (Q : ParentRef) :
    outputsOf Q (s.deliver st out).delivered = outputsOf Q s.delivered ++
      if Q = P then (out.bind asRequestOutput).toList else [] := by
  cases out with
  | none =>
    have hnil : (if Q = P then ((none : Option (ProcessedOutput lp)).bind asRequestOutput).toList
        else []) = ([] : List (RequestOutput lp)) := by
      split <;> rfl
    rw [hnil, append_nil]
    rfl
  | some o =>
    show outputsOf Q (s.delivered ++ [_]) = _
    rw [outputsOf_concat, hP]
    congr 1
    by_cases hQ : Q = P
    · rw [if_pos hQ, if_pos (by rw [hQ])]
      rfl
    · rw [if_neg hQ, if_neg fun heq => hQ (Option.some.inj heq).symm]

theorem deliver_frame (s : OutputProcessor δ lp) (st : RequestState δ lp)
    (out : Option (ProcessedOutput lp)) :
    (s.deliver st out).requestStates = s.requestStates ∧ (s.deliver st out).parents = s.parents ∧
      (s.deliver st out).numParents = s.numParents ∧
      (s.deliver st out).parentRequests = s.parentRequests := by
  cases out <;> exact ⟨rfl, rfl, rfl, rfl⟩

/-- Only the state of a request without a parent changes. -/
theorem Core.of_single (h : Core s) (hold : ∀ st, s.requestStates.get? k = some st →
      st.parentReq = none)
    (hnew : ∀ st, s'.requestStates.get? k = some st → st.requestId = k ∧ st.parentReq = none)
    (hsame : ∀ k', k' ≠ k → s'.requestStates.get? k' = s.requestStates.get? k')
    (hparents : s'.parents = s.parents) (hnum : s'.numParents = s.numParents)
    (houts : ∀ P, outputsOf P s'.delivered = outputsOf P s.delivered) : Core s' := by
  have hback : ∀ k' st P, s'.requestStates.get? k' = some st → st.parentReq = some P →
      s.requestStates.get? k' = some st := by
    intro k' st P hget hP
    by_cases hk : k' = k
    · subst hk
      rw [(hnew st hget).2] at hP
      cases hP
    · rw [← hsame k' hk]
      exact hget
  constructor
  case states =>
    intro k' st hget
    by_cases hk : k' = k
    · subst hk
      obtain ⟨hid, hnone⟩ := hnew st hget
      refine ⟨hid, fun P hP => ?_⟩
      rw [hnone] at hP
      cases hP
    · rw [hsame k' hk] at hget
      rw [hparents, hnum]
      exact h.states k' st hget
  case distinct =>
    intro k1 k2 st1 st2 P h1 h2 hP1 hP2 hidx
    exact h.distinct k1 k2 st1 st2 P (hback k1 st1 P h1 hP1) (hback k2 st2 P h2 hP2) hP1 hP2 hidx
  case children =>
    intro P hlt k' hk'
    rw [hnum] at hlt
    rw [hparents] at hk'
    obtain ⟨st, hst, hP⟩ := h.children P hlt k' hk'
    refine ⟨st, ?_, hP⟩
    rw [hsame k', hst]
    rintro rfl
    rw [hold st hst] at hP
    cases hP
  case parent =>
    intro P hlt
    rw [hnum] at hlt
    rw [hparents, houts]
    exact h.parent P hlt
  case fresh =>
    intro P hle
    rw [hnum] at hle
    rw [houts]
    exact h.fresh P hle

theorem Registered.of_eq (h : Registered s) (hparents : s'.parents = s.parents)
    (hnum : s'.numParents = s.numParents) (hreg : s'.parentRequests = s.parentRequests) :
    Registered s' where
  live P hlt := by
    rw [hnum] at hlt
    rw [hparents, hreg]
    exact h.live P hlt
  named id P hget := by
    rw [hreg] at hget
    rw [hparents, hnum]
    exact h.named id P hget

/-- One parent changes, and it is dropped when no child of it is left. -/
theorem Registered.of_parent (h : Registered s)
    (hget : s.parentRequests.get? (s.parents P).requestId = some P)
    (hnum : s'.numParents = s.numParents) (hothers : ∀ Q, Q ≠ P → s'.parents Q = s.parents Q)
    (hid : (s'.parents P).requestId = (s.parents P).requestId)
    (hreg : s'.parentRequests = s.parentRequests ∧ Live (s'.parents P) ∨
      s'.parentRequests = s.parentRequests.erase (s.parents P).requestId ∧
        ¬ Live (s'.parents P)) : Registered s' := by
  have hsame : ∀ Q, (s'.parents Q).requestId = (s.parents Q).requestId := by
    intro Q
    by_cases hQ : Q = P
    · rw [hQ, hid]
    · rw [hothers Q hQ]
  constructor
  case live =>
    intro Q hQlt
    rw [hnum] at hQlt
    rw [hsame]
    by_cases hQ : Q = P
    · subst hQ
      rcases hreg with ⟨hreg, hlive⟩ | ⟨hreg, hdead⟩
      · rw [hreg]
        exact iff_of_true hget hlive
      · rw [hreg, get?_erase_self]
        exact iff_of_false (Option.some_ne_none Q).symm hdead
    · rw [hothers Q hQ, ← h.live Q hQlt]
      rcases hreg with ⟨hreg, -⟩ | ⟨hreg, -⟩
      · rw [hreg]
      · rw [hreg, get?_erase]
        split
        · rename_i heq
          rw [heq, hget]
          exact iff_of_false (Option.some_ne_none Q).symm fun h => hQ (Option.some.inj h).symm
        · rfl
  case named =>
    intro id Q hgetQ
    have hold : s.parentRequests.get? id = some Q := by
      rcases hreg with ⟨hreg, -⟩ | ⟨hreg, -⟩
      · rwa [hreg] at hgetQ
      · rw [hreg, get?_erase] at hgetQ
        split at hgetQ
        · cases hgetQ
        · exact hgetQ
    obtain ⟨hQlt, hQid⟩ := h.named id Q hold
    exact ⟨hnum ▸ hQlt, (hsame Q).trans hQid⟩

/-- `process_outputs` drops the parent with its last child. -/
theorem Registered.childGone {i : Nat} (h : Registered s) (hcore : Core s)
    (hchild : k ∈ (s.parents P).childRequests) (hlt : P < s.numParents)
    (hfull : (s.parents P).added = (s.parents P).n) (hgone : ChildGone s k P i s')
    (hreg : s'.parentRequests = if (s'.parents P).childRequests = [] then
        s.parentRequests.erase (s.parents P).requestId
      else s.parentRequests) : Registered s' := by
  have hok := hcore.parent P hlt
  have hpos := length_pos_of_mem hchild
  have hlength := hok.length
  have hreg0 : s.parentRequests.get? (s.parents P).requestId = some P := by
    rw [h.live P hlt]
    exact ⟨by omega, by omega⟩
  have hlive : Live (s'.parents P) ↔ (s'.parents P).childRequests ≠ [] := by
    have hn := hok.pos
    unfold Live
    rw [hgone.added, hgone.n, hgone.ended, hgone.childRequests, ← length_pos_iff,
      length_erase_of_mem hchild, length_append, length_singleton]
    omega
  refine h.of_parent hreg0 hgone.numParents hgone.others hgone.requestId ?_
  rw [hreg, hlive]
  by_cases hnil : (s'.parents P).childRequests = []
  · rw [if_pos hnil]
    exact .inr ⟨rfl, not_not_intro hnil⟩
  · rw [if_neg hnil]
    exact .inl ⟨rfl, hnil⟩

variable [Detokenizer δ]

/-- A child with a queue is aborted. -/
theorem abortState_childGone (h : Core s) (hget : s.requestStates.get? k = some st)
    (hP : st.parentReq = some P) (hfull : (s.parents P).added = (s.parents P).n)
    (hq : st.queue.isSome = true) :
    ∃ s', s.abortState st = .ok s' ∧ ChildGone s k P st.requestIndex s' ∧
      s'.parentRequests = s.parentRequests := by
  obtain ⟨hid, hchild⟩ := h.states k st hget
  obtain ⟨hlt, hok⟩ := hchild P hP
  obtain ⟨q, hq⟩ := Option.isSome_iff_exists.mp hq
  have hpop : (s.popState st).parents = update s.parents P
      { s.parents P with ended := (s.parents P).ended ++ [st.requestIndex] } := by
    unfold popState
    rw [hP]
  have hpopP : (s.popState st).parents P =
      { s.parents P with ended := (s.parents P).ended ++ [st.requestIndex] } := by
    rw [hpop, update_self]
  have hidx : ((s.popState st).parents P).outputKind = .finalOnly →
      st.requestIndex < ((s.popState st).parents P).outputAggregator.length := by
    rw [hpopP]
    intro hfinal
    have hlen := ((h.parent P hlt).aggregator hfinal).1
    have hlt' := hok.lt
    show st.requestIndex < (s.parents P).outputAggregator.length
    omega
  have hmem : st.requestId ∈ ((s.popState st).parents P).childRequests := by
    rw [hpopP]
    exact hok.mem
  obtain ⟨c, out, st', hmake, hsame, hindex, hc, hnil, hnew⟩ :=
    makeRequestOutput_ended hok.samples hP hmem hidx [] .abort none
  have hdetok : st.detokenizer.isNone = false := by
    rw [Option.isNone_eq_false_iff]
    exact hok.samples.1
  -- Whether the end is noted before or after the parent takes the output makes no difference.
  have hend : endChild ((s.popState st).parents P) st.requestId c =
      { endChild (s.parents P) k c with ended := (s.parents P).ended ++ [st.requestIndex] } := by
    rw [hpopP, hid]
    rfl
  have hhanded : handedOver (endChild ((s.popState st).parents P) st.requestId c) c =
      handedOver (endChild (s.parents P) k c) c := by
    rw [hend]
    rfl
  have hrun : s.abortState st = .ok (({ s.popState st with
      parents := update (s.popState st).parents P
        (endChild ((s.popState st).parents P) st.requestId c) } : OutputProcessor δ lp).deliver
      st' out) := by
    unfold abortState
    rw [hq]
    dsimp only
    rw [hdetok, hmake]
    rfl
  obtain ⟨hf1, hf2, hf3, hf4⟩ := deliver_frame ({ s.popState st with
      parents := update (s.popState st).parents P
        (endChild ((s.popState st).parents P) st.requestId c) } : OutputProcessor δ lp) st' out
  refine ⟨_, hrun, h.childGone (out.bind asRequestOutput).toList hget hP hfull hindex hc
    (fun hn => ?_) (fun hn => ?_) (fun k' => ?_) ?_ hf3 (fun Q => ?_), hf4⟩
  · rw [hnil (hhanded.trans hn)]
    rfl
  · obtain ⟨r, rfl, houts, hfin⟩ := hnew (hhanded.trans_ne hn)
    refine ⟨r, rfl, houts.trans hhanded, hfin.trans ?_⟩
    rw [hend]
  · rw [hf1]
    show (s.requestStates.erase st.requestId).get? k' = _
    rw [get?_erase, hid]
  · rw [hf2]
    show update (s.popState st).parents P _ = _
    rw [hend, hpop, update_idem]
  · rw [outputsOf_deliver _ (hsame.parentReq.trans hP)]
    rfl

/-! ### An output of the engine -/

/-- The output ends the request: the engine says so, or a stop string is found. -/
def endsRequest (st : RequestState δ lp) (output : EngineCoreOutput lp) : Bool :=
  output.finishReason.isSome || (!output.hasPoolingOutput && st.detokenizer.any fun d =>
    (Detokenizer.update d output.newTokenIds (decide (output.finishReason = some .stop))).1.any
      fun stopString => decide (stopString ≠ ""))

variable {output : EngineCoreOutput lp} {reason : Option FinishReason} {stopReason : Option String}
  {st' : RequestState δ lp}

theorem detokenize_spec (hrun : detokenize st output = .ok (reason, stopReason, st')) :
    SameRequest st st' ∧ reason.isSome = endsRequest st output := by
  unfold detokenize at hrun
  unfold endsRequest
  split at hrun
  · rename_i hpool
    cases hrun
    exact ⟨.refl st, by simp [hpool]⟩
  · rename_i hpool
    split at hrun
    · cases hrun
    · cases hrun
    · rename_i d l hd hl
      dsimp only at hrun
      obtain ⟨l', hl', hrun⟩ := bind_ok hrun
      have hsame : SameRequest st { st with
          detokenizer := some (Detokenizer.update d output.newTokenIds
            (decide (output.finishReason = some .stop))).2
          logprobsProcessor := some l' } :=
        ⟨rfl, rfl, rfl, rfl, rfl, by rw [hd]; rfl, by rw [hl]; rfl⟩
      rw [hd]
      cases hstop : (Detokenizer.update d output.newTokenIds
          (decide (output.finishReason = some .stop))).1 with
      | none =>
        rw [hstop] at hrun
        cases hrun
        exact ⟨hsame, by simp [hstop]⟩
      | some stopString =>
        rw [hstop] at hrun
        dsimp only at hrun
        split at hrun
        · rename_i hempty
          cases hrun
          exact ⟨hsame, by simp [hstop, hempty]⟩
        · rename_i hne
          cases hrun
          exact ⟨hsame, by simp [hstop, hne, hpool]⟩

/-- A request without a parent leaves the parents alone. -/
theorem makeRequestOutput_single {parents parents' : ParentRef → ParentRequest lp}
    {newTokenIds : List Int} {pooling : Bool} {out : Option (ProcessedOutput lp)}
    (hnone : st.parentReq = none)
    (hrun : st.makeRequestOutput parents newTokenIds pooling reason stopReason =
      .ok (out, st', parents')) :
    parents' = parents ∧ st'.requestId = st.requestId ∧ st'.parentReq = none := by
  have hstream : ∀ tokens st1, st.streamedTokens newTokenIds reason.isSome = .ok (tokens, st1) →
      st1.requestId = st.requestId ∧ st1.parentReq = st.parentReq := by
    intro tokens st1 h
    unfold streamedTokens at h
    split at h
    · cases h
      exact ⟨rfl, rfl⟩
    · split at h
      · cases h
      · dsimp only at h
        split at h
        · cases h
          exact ⟨rfl, rfl⟩
        · split at h
          · cases h
            exact ⟨rfl, rfl⟩
          · cases h
            exact ⟨rfl, rfl⟩
  unfold makeRequestOutput at hrun
  dsimp only at hrun
  split at hrun
  · cases hrun
    exact ⟨rfl, rfl, hnone⟩
  · obtain ⟨⟨tokens, st1⟩, hst1, hrun⟩ := bind_ok hrun
    obtain ⟨hid1, hparent1⟩ := hstream tokens st1 hst1
    dsimp only at hrun
    cases tokens with
    | none =>
      cases hrun
      exact ⟨rfl, hid1, hparent1.trans hnone⟩
    | some tokens =>
      dsimp only at hrun
      split at hrun
      · cases hrun
        exact ⟨rfl, hid1, hparent1.trans hnone⟩
      · obtain ⟨⟨c, st2⟩, hst2, hrun⟩ := bind_ok hrun
        have hsame2 : st2.requestId = st1.requestId ∧ st2.parentReq = st1.parentReq := by
          unfold newCompletionOutput at hst2
          split at hst2
          · cases hst2
          · cases hst2
          · cases hst2
            exact ⟨rfl, rfl⟩
        have hnone2 : st2.parentReq = none := hsame2.2.trans (hparent1.trans hnone)
        dsimp only at hrun
        rw [hnone2] at hrun
        dsimp only at hrun
        obtain ⟨⟨o, st3⟩, hst3, hrun⟩ := bind_ok hrun
        have hsame3 : st3.requestId = st2.requestId ∧ st3.parentReq = st2.parentReq := by
          unfold newRequestOutput at hst3
          split at hst3
          · cases hst3
          · dsimp only at hst3
            split at hst3
            · cases hst3
              exact ⟨rfl, rfl⟩
            · cases hst3
              exact ⟨rfl, rfl⟩
        cases hrun
        exact ⟨rfl, hsame3.1.trans (hsame2.1.trans hid1), hsame3.2.trans hnone2⟩

variable {abort : Option String}

/-- An output for a request without a parent. -/
theorem processOutput_single (h : Core s) (hreg : Registered s)
    (hget : s.requestStates.get? output.requestId = some st) (hnone : st.parentReq = none)
    (hrun : s.processOutput output = .ok (abort, s')) : Core s' ∧ Registered s' := by
  unfold processOutput at hrun
  rw [hget] at hrun
  dsimp only at hrun
  obtain ⟨⟨reason, stopReason, st1⟩, hdetok, hrun⟩ := bind_ok hrun
  obtain ⟨hsame1, -⟩ := detokenize_spec hdetok
  dsimp only at hrun
  obtain ⟨⟨out, st2, parents⟩, hmake, hrun⟩ := bind_ok hrun
  obtain ⟨rfl, hid2, hnone2⟩ := makeRequestOutput_single (hsame1.parentReq.trans hnone) hmake
  have hid : st2.requestId = output.requestId :=
    hid2.trans (hsame1.requestId.trans (h.states _ st hget).1)
  dsimp only at hrun
  generalize hs1 : ({ s with requestStates := s.requestStates.insert output.requestId st2 } :
    OutputProcessor δ lp).deliver st2 out = s1 at hrun
  obtain ⟨hf1, hf2, hf3, hf4⟩ := deliver_frame
    ({ s with requestStates := s.requestStates.insert output.requestId st2 } :
      OutputProcessor δ lp) st2 out
  rw [hs1] at hf1 hf2 hf3 hf4
  have houts : ∀ P, outputsOf P s1.delivered = outputsOf P s.delivered := by
    intro P
    rw [← hs1]
    cases out with
    | none => rfl
    | some o =>
      show outputsOf P (s.delivered ++ [_]) = _
      rw [outputsOf_concat, hnone2]
      simp
  split at hrun
  · cases hrun
    unfold popState
    simp only [hnone2]
    refine ⟨h.of_single (k := output.requestId) (fun st' hst' => ?_) (fun st' hst' => ?_)
      (fun k' hk' => ?_) hf2 hf3 houts, hreg.of_eq hf2 hf3 hf4⟩
    · rw [hget] at hst'
      cases hst'
      exact hnone
    · rw [hid, hf1] at hst'
      rw [get?_erase_self] at hst'
      cases hst'
    · rw [hid, get?_erase_of_ne _ hk', hf1]
      exact get?_insert_of_ne _ _ hk'
  · cases hrun
    refine ⟨h.of_single (k := output.requestId) (fun st' hst' => ?_) (fun st' hst' => ?_)
      (fun k' hk' => ?_) hf2 hf3 houts, hreg.of_eq hf2 hf3 hf4⟩
    · rw [hget] at hst'
      cases hst'
      exact hnone
    · rw [hf1] at hst'
      change (s.requestStates.insert output.requestId st2).get? output.requestId = some st' at hst'
      rw [get?_insert_self] at hst'
      cases hst'
      exact ⟨hid, hnone2⟩
    · rw [hf1]
      exact get?_insert_of_ne _ _ hk'

/-- An output for a child that goes on. -/
theorem processOutput_running (h : Core s) (hreg : Registered s)
    (hget : s.requestStates.get? output.requestId = some st) (hP : st.parentReq = some P)
    (hpool : output.hasPoolingOutput = false) (hgoes : endsRequest st output = false)
    (hrun : s.processOutput output = .ok (abort, s')) : Core s' ∧ Registered s' := by
  obtain ⟨hid, hchild⟩ := h.states _ st hget
  obtain ⟨hlt, hok⟩ := hchild P hP
  unfold processOutput at hrun
  rw [hget] at hrun
  dsimp only at hrun
  obtain ⟨⟨reason, stopReason, st1⟩, hdetok, hrun⟩ := bind_ok hrun
  obtain ⟨hsame1, hreason⟩ := detokenize_spec hdetok
  obtain rfl : reason = none := by
    rw [hgoes] at hreason
    exact Option.not_isSome_iff_eq_none.mp (by rw [hreason]; exact Bool.false_ne_true)
  obtain ⟨out, st2, hmake, hsame2, hout⟩ := makeRequestOutput_running
    (hok.samples.congr hsame1) (hsame1.parentReq.trans hP) (hsame1.outputKind.trans hok.kind)
    (hsame1.requestId ▸ hok.mem) output.newTokenIds stopReason
  have hsame := hsame1.trans hsame2
  dsimp only at hrun
  rw [hpool, hmake, except_ok_bind] at hrun
  dsimp only at hrun
  rw [if_neg (by exact Bool.false_ne_true)] at hrun
  cases hrun
  obtain ⟨hf1, hf2, hf3, hf4⟩ := deliver_frame
    ({ s with requestStates := s.requestStates.insert output.requestId st2 } :
      OutputProcessor δ lp) st2 out
  have houts := outputsOf_deliver
    ({ s with requestStates := s.requestStates.insert output.requestId st2 } :
      OutputProcessor δ lp) (hsame.parentReq.trans hP) out
  refine ⟨h.of_same hf2 hf3 (fun k' st' hst' => ?_) (fun k' st' hst' => ?_) (fun Q hQ => ?_)
    (fun Q hQ => ?_), hreg.of_eq hf2 hf3 hf4⟩
  · rw [hf1] at hst'
    by_cases hk : k' = output.requestId
    · subst hk
      refine ⟨st, hget, ?_⟩
      rw [show st' = st2 from Option.some.inj (hst'.symm.trans (get?_insert_self _ _ _))]
      exact hsame
    · exact ⟨st', (get?_insert_of_ne _ _ hk).symm.trans hst', .refl st'⟩
  · rw [hf1]
    by_cases hk : k' = output.requestId
    · subst hk
      rw [hget] at hst'
      cases hst'
      exact ⟨st2, get?_insert_self _ _ _, hsame⟩
    · exact ⟨st', (get?_insert_of_ne _ _ hk).trans hst', .refl st'⟩
  · rw [houts]
    have hparent := h.parent Q hQ
    split
    · cases out with
      | none =>
        rw [Option.bind_none, Option.toList_none, append_nil]
        exact hparent
      | some o =>
        obtain ⟨r, c, rfl, hr, hc, hfin⟩ := hout o rfl
        exact hparent.running hr hc hfin
    · rw [append_nil]
      exact hparent
  · have hne : Q ≠ P := fun heq => Nat.not_lt.mpr hQ (heq ▸ hlt)
    rw [houts, if_neg hne, append_nil]
    exact h.fresh Q hQ

/-- The parents that are left when the child of `st` is popped. -/
def parentsLeft (s : OutputProcessor δ lp) (st : RequestState δ lp) : PyDict String ParentRef :=
  match st.parentReq with
  | none => s.parentRequests
  | some p =>
    if (s.parents p).childRequests = [] then s.parentRequests.erase (s.parents p).requestId
    else s.parentRequests

/-- An output that ends a child. -/
theorem processOutput_ended (h : Core s) (hreg : Registered s)
    (hget : s.requestStates.get? output.requestId = some st) (hP : st.parentReq = some P)
    (hpool : output.hasPoolingOutput = false) (hends : endsRequest st output = true)
    (hfull : (s.parents P).added = (s.parents P).n)
    (hrun : s.processOutput output = .ok (abort, s')) : Core s' ∧ Registered s' := by
  obtain ⟨hid, hchild⟩ := h.states _ st hget
  obtain ⟨hlt, hok⟩ := hchild P hP
  unfold processOutput at hrun
  rw [hget] at hrun
  dsimp only at hrun
  obtain ⟨⟨reason, stopReason, st1⟩, hdetok, hrun⟩ := bind_ok hrun
  obtain ⟨hsame1, hreason⟩ := detokenize_spec hdetok
  rw [hends] at hreason
  obtain ⟨reason, rfl⟩ := Option.isSome_iff_exists.mp hreason
  have hid1 : st1.requestId = output.requestId := hsame1.requestId.trans hid
  obtain ⟨c, out, st2, hmake, hsame2, hindex, hc, hnil, hnew⟩ := makeRequestOutput_ended
    (hok.samples.congr hsame1) (hsame1.parentReq.trans hP) (hsame1.requestId ▸ hok.mem)
    (fun hfinal => by
      have hlen := ((h.parent P hlt).aggregator hfinal).1
      have hidx := hok.lt
      rw [hsame1.requestIndex]
      omega) output.newTokenIds reason stopReason
  have hsame := hsame1.trans hsame2
  have hid2 : st2.requestId = output.requestId := hsame.requestId.trans hid
  have hP2 : st2.parentReq = some P := hsame.parentReq.trans hP
  rw [hid1] at hmake hnil hnew
  dsimp only at hrun
  rw [hpool, hmake, except_ok_bind] at hrun
  dsimp only at hrun
  generalize hs0 : ({ s with
    requestStates := s.requestStates.insert output.requestId st2
    parents := update s.parents P (endChild (s.parents P) output.requestId c) } :
      OutputProcessor δ lp) = s0 at hrun
  obtain ⟨hf1, hf2, hf3, hf4⟩ := deliver_frame s0 st2 out
  have houts := outputsOf_deliver s0 hP2 out
  rw [if_pos (by rfl)] at hrun
  generalize hs1 : s0.deliver st2 out = s1 at hrun hf1 hf2 hf3 hf4 houts
  have hpop : (s1.popState st2).parents = update s1.parents P
      { s1.parents P with ended := (s1.parents P).ended ++ [st2.requestIndex] } := by
    unfold popState
    rw [hP2]
  have hparents : (s1.popState st2).parents = update s.parents P
      { endChild (s.parents P) output.requestId c with
        ended := (s.parents P).ended ++ [st.requestIndex] } := by
    rw [hpop, hf2, ← hs0, hsame.requestIndex]
    dsimp only
    rw [update_idem, update_self]
    rfl
  cases hrun
  have hgone : ChildGone s output.requestId P st.requestIndex { s1.popState st2 with
      parentRequests := parentsLeft (s1.popState st2) st2 } := by
    refine h.childGone (out.bind asRequestOutput).toList hget hP hfull
      (hindex.trans hsame1.requestIndex) hc (fun hn => ?_) (fun hn => ?_) (fun k' => ?_) hparents
      ?_ (fun Q => ?_)
    · rw [hnil hn]
      rfl
    · obtain ⟨r, rfl, hr, hfin⟩ := hnew hn
      exact ⟨r, rfl, hr, hfin⟩
    · show (s1.requestStates.erase st2.requestId).get? k' = _
      rw [hid2, get?_erase, hf1, ← hs0]
      split
      · rfl
      · rename_i hne
        exact get?_insert_of_ne _ _ hne
    · show s1.numParents = _
      rw [hf3, ← hs0]
    · show outputsOf Q s1.delivered = _
      rw [houts, ← hs0]
  refine ⟨hgone.core, hreg.childGone h (hid ▸ hok.mem) hlt hfull hgone ?_⟩
  show (match st2.parentReq with
    | none => (s1.popState st2).parentRequests
    | some p =>
      if ((s1.popState st2).parents p).childRequests = [] then
        (s1.popState st2).parentRequests.erase ((s1.popState st2).parents p).requestId
      else (s1.popState st2).parentRequests) =
    if ((s1.popState st2).parents P).childRequests = [] then
      s.parentRequests.erase (s.parents P).requestId
    else s.parentRequests
  have hparentRequests : (s1.popState st2).parentRequests = s.parentRequests := by
    show s1.parentRequests = _
    rw [hf4, ← hs0]
  have hrequestId : ((s1.popState st2).parents P).requestId = (s.parents P).requestId := by
    rw [hparents, update_self]
    rfl
  rw [hP2]
  dsimp only
  rw [hparentRequests, hrequestId]

/-! ### Aborts -/

/-- A request without a parent is aborted. -/
theorem abortState_single (h : Core s) (hreg : Registered s)
    (hget : s.requestStates.get? k = some st) (hnone : st.parentReq = none)
    (hrun : s.abortState st = .ok s') : Core s' ∧ Registered s' := by
  have hid := (h.states k st hget).1
  have hpop : s.popState st = { s with requestStates := s.requestStates.erase k } := by
    unfold popState
    rw [hnone, hid]
  -- The state is gone, and nothing is handed over for a parent.
  have hdone : ∀ s1 : OutputProcessor δ lp, s1.requestStates = s.requestStates.erase k →
      s1.parents = s.parents → s1.numParents = s.numParents →
      s1.parentRequests = s.parentRequests →
      (∀ P, outputsOf P s1.delivered = outputsOf P s.delivered) → Core s1 ∧ Registered s1 := by
    intro s1 hstates hparents hnum hpr houts
    refine ⟨h.of_single (k := k) (fun st' hst' => ?_) (fun st' hst' => ?_) (fun k' hk' => ?_)
      hparents hnum houts, hreg.of_eq hparents hnum hpr⟩
    · rw [hget] at hst'
      cases hst'
      exact hnone
    · rw [hstates, get?_erase_self] at hst'
      cases hst'
    · rw [hstates, get?_erase_of_ne _ hk']
  unfold abortState at hrun
  dsimp only at hrun
  split at hrun
  · cases hrun
    rw [hpop]
    exact hdone _ rfl rfl rfl rfl fun _ => rfl
  · obtain ⟨⟨out, st1, parents⟩, hmake, hrun⟩ := bind_ok hrun
    obtain ⟨rfl, -, hnone1⟩ := makeRequestOutput_single hnone hmake
    cases hrun
    rw [hpop]
    cases out with
    | none => exact hdone _ rfl rfl rfl rfl fun _ => rfl
    | some o =>
      refine hdone _ rfl rfl rfl rfl fun P => ?_
      show outputsOf P (s.delivered ++ [_]) = _
      rw [outputsOf_concat, hnone1]
      simp

/-- What is left when all children of `P` are aborted. -/
structure ChildrenGone (s : OutputProcessor δ lp) (P : ParentRef) (s' : OutputProcessor δ lp) :
    Prop where
  core : Core s'
  numParents : s'.numParents = s.numParents
  parentRequests : s'.parentRequests = s.parentRequests
  others : ∀ Q, Q ≠ P → s'.parents Q = s.parents Q
  requestId : (s'.parents P).requestId = (s.parents P).requestId
  n : (s'.parents P).n = (s.parents P).n
  added : (s'.parents P).added = (s.parents P).added
  childRequests : (s'.parents P).childRequests = []

theorem abortChildren (order : List String → List String) (fuel : Nat) {ks : List String}
    (h : Core s) (hlt : P < s.numParents) (hfull : (s.parents P).added = (s.parents P).n)
    (hperm : ks.Perm (s.parents P).childRequests)
    (hq : ∀ k ∈ ks, ∀ st ∈ s.requestStates.get? k, st.queue.isSome = true)
    (aborted : List String) :
    ∃ aborted' s', ks.foldlM (abortRequest order (fuel + 1)) (aborted, s) =
      .ok (aborted', s') ∧ ChildrenGone s P s' := by
  induction ks generalizing s aborted with
  | nil =>
    exact ⟨aborted, s, rfl, h, rfl, rfl, fun _ _ => rfl, rfl, rfl, rfl, hperm.nil_eq.symm⟩
  | cons k ks ih =>
    have hmem : k ∈ (s.parents P).childRequests := hperm.subset mem_cons_self
    obtain ⟨st, hget, hP⟩ := h.children P hlt k hmem
    obtain ⟨s1, hrun1, hgone, hpr⟩ :=
      abortState_childGone h hget hP hfull (hq k mem_cons_self st hget)
    have hnodup : (k :: ks).Nodup := hperm.nodup_iff.mpr (h.parent P hlt).nodup
    have hperm1 : ks.Perm (s1.parents P).childRequests := by
      rw [hgone.childRequests]
      exact (cons_perm_iff_perm_erase.mp hperm).2
    have hq1 : ∀ k' ∈ ks, ∀ st' ∈ s1.requestStates.get? k', st'.queue.isSome = true := by
      intro k' hk' st' hst'
      have hne : k' ≠ k := fun heq => (nodup_cons.mp hnodup).1 (heq ▸ hk')
      rw [hgone.states, if_neg hne] at hst'
      exact hq k' (mem_cons_of_mem _ hk') st' hst'
    obtain ⟨aborted', s', hrun', hrest⟩ := ih hgone.core (hgone.numParents ▸ hlt)
      (hgone.added.trans (hfull.trans hgone.n.symm)) hperm1 hq1 (aborted ++ [k])
    refine ⟨aborted', s', ?_, hrest.core, hrest.numParents.trans hgone.numParents,
      hrest.parentRequests.trans hpr, fun Q hQ => (hrest.others Q hQ).trans (hgone.others Q hQ),
      hrest.requestId.trans hgone.requestId, hrest.n.trans hgone.n,
      hrest.added.trans hgone.added, hrest.childRequests⟩
    have hstep : abortRequest order (fuel + 1) (aborted, s) k = .ok (aborted ++ [k], s1) := by
      unfold abortRequest
      rw [hget]
      dsimp only
      rw [hrun1]
      rfl
    rw [foldlM_cons, hstep]
    exact hrun'

variable {id : String}

/-- A parent is aborted with all its children. -/
theorem abortParent {order : List String → List String} {fuel : Nat}
    {aborted aborted' : List String} (h : Core s) (hreg : Registered s)
    (hnone : s.requestStates.get? id = none) (hget : s.parentRequests.get? id = some P)
    (hfull : (s.parents P).added = (s.parents P).n)
    (hq : ∀ k ∈ (s.parents P).childRequests, ∀ st ∈ s.requestStates.get? k, st.queue.isSome = true)
    (hrun : abortRequest order (fuel + 2) (aborted, s) id = .ok (aborted', s')) :
    Core s' ∧ Registered s' := by
  obtain ⟨hlt, hid⟩ := hreg.named id P hget
  have hperm : (setOrder order (s.parents P).childRequests).Perm (s.parents P).childRequests := by
    unfold setOrder
    split
    · exact isPerm_iff.mp ‹_›
    · exact List.Perm.refl _
  obtain ⟨aborted₁, s1, hloop, hgone⟩ := abortChildren order fuel h hlt hfull hperm
    (fun k hk => hq k (hperm.subset hk)) aborted
  unfold abortRequest at hrun
  rw [hnone] at hrun
  dsimp only at hrun
  rw [hget] at hrun
  dsimp only at hrun
  rw [hloop, except_ok_bind] at hrun
  cases hrun
  have hok := hgone.core.parent P (hgone.numParents ▸ hlt)
  have hdead : ¬ Live (s1.parents P) := by
    have hlength := hok.length
    rw [hgone.childRequests, hgone.added, hfull, ← hgone.n, length_nil] at hlength
    unfold Live
    omega
  refine ⟨⟨hgone.core.states, hgone.core.distinct, hgone.core.children, hgone.core.parent,
    hgone.core.fresh⟩, ?_⟩
  rw [← hid] at hget
  refine hreg.of_parent hget hgone.numParents hgone.others hgone.requestId (.inr ⟨?_, hdead⟩)
  show s1.parentRequests.erase id = _
  rw [hgone.parentRequests, hid]

/-- A child that is not the last one is aborted by its own id. -/
theorem abortChild (h : Core s) (hreg : Registered s) (hget : s.requestStates.get? k = some st)
    (hP : st.parentReq = some P) (hfull : (s.parents P).added = (s.parents P).n)
    (hq : st.queue.isSome = true) (htwo : 2 ≤ (s.parents P).childRequests.length)
    (hrun : s.abortState st = .ok s') : Core s' ∧ Registered s' := by
  obtain ⟨hid, hchild⟩ := h.states k st hget
  obtain ⟨hlt, hok⟩ := hchild P hP
  have hmem : k ∈ (s.parents P).childRequests := hid ▸ hok.mem
  obtain ⟨s1, hrun1, hgone, hpr⟩ := abortState_childGone h hget hP hfull hq
  rw [hrun] at hrun1
  cases hrun1
  refine ⟨hgone.core, hreg.childGone h hmem hlt hfull hgone ?_⟩
  rw [if_neg, hpr]
  intro hnil
  have hlen := congrArg List.length hnil
  rw [hgone.childRequests, length_erase_of_mem hmem, length_nil] at hlen
  omega

/-! ### New requests -/

omit [Detokenizer δ] in
/-- A new parent has no children and no outputs. -/
theorem ParentOk.init {n : Nat} (hn : 0 < n) (id : String) (kind : RequestOutputKind) :
    ParentOk (ParentRequest.init id n kind : ParentRequest lp) [] where
  pos := hn
  added_le := Nat.zero_le n
  nodup := nodup_nil
  length := rfl
  ended_nodup := nodup_nil
  ended_lt i hi := absurd hi not_mem_nil
  full hne := absurd rfl hne
  aggregator hfinal := by
    have hkind : kind = .finalOnly := hfinal
    refine ⟨?_, fun i hi => absurd hi not_mem_nil⟩
    show (if kind = .finalOnly then List.replicate n none else []).length = n
    rw [if_pos hkind, length_replicate]
  handed := by
    refine ⟨fun i => ?_, ?_, fun o ho => absurd ho not_mem_nil⟩
    · rw [if_neg fun hdue : Due _ i => not_mem_nil hdue.1]
      rfl
    · show 0 = if 0 = n then 1 else 0
      rw [if_neg (Nat.ne_of_lt hn)]

variable {kind : RequestOutputKind} {q : Option QueueRef}

theorem addRequest_single {logprobs : Option (LogprobsProcessor lp)} {d : Option δ} {i : Nat}
    (h : Core s) (hreg : Registered s) (hrun : s.addRequest id kind logprobs d none i q = .ok s') :
    Core s' ∧ Registered s' := by
  unfold addRequest at hrun
  split at hrun
  · cases hrun
  · rename_i hnew
    have hnone : s.requestStates.get? id = none := Option.not_isSome_iff_eq_none.mp hnew
    cases hrun
    refine ⟨h.of_single (k := id) (fun st' hst' => ?_) (fun st' hst' => ?_) (fun k' hk' => ?_)
      rfl rfl (fun _ => rfl), hreg.of_eq rfl rfl rfl⟩
    · rw [hnone] at hst'
      cases hst'
    · rw [get?_insert_self] at hst'
      cases hst'
      exact ⟨rfl, rfl⟩
    · exact get?_insert_of_ne _ _ hk'

theorem step_newParent {n : Nat} (h : Core s) (hreg : Registered s) (hn : 0 < n)
    (hrun : s.step (.newParent id n kind) = .ok s') :
    Core s' ∧ Registered s' := by
  have hself : s'.parents s.numParents = .init id n kind := by
    cases hrun
    exact update_self ..
  have hold : ∀ Q < s.numParents, s'.parents Q = s.parents Q := by
    intro Q hQ
    cases hrun
    exact update_of_ne (Nat.ne_of_lt hQ) ..
  have hnum : s'.numParents = s.numParents + 1 := by
    cases hrun
    rfl
  have hstates : s'.requestStates = s.requestStates := by
    cases hrun
    rfl
  have hdelivered : s'.delivered = s.delivered := by
    cases hrun
    rfl
  have hpr : s'.parentRequests = s.parentRequests := by
    cases hrun
    rfl
  have hcases : ∀ Q, Q < s'.numParents → Q < s.numParents ∨ Q = s.numParents := by
    intro Q hQ
    rw [hnum] at hQ
    exact Nat.lt_succ_iff_lt_or_eq.mp hQ
  have hmono : ∀ Q, Q < s.numParents → Q < s'.numParents := by
    intro Q hQ
    rw [hnum]
    exact Nat.lt_succ_of_lt hQ
  constructor
  · constructor
    case states =>
      intro k st hget
      rw [hstates] at hget
      obtain ⟨hid, hchild⟩ := h.states k st hget
      refine ⟨hid, fun Q hQ => ?_⟩
      obtain ⟨hlt, hok⟩ := hchild Q hQ
      rw [hold Q hlt]
      exact ⟨hmono Q hlt, hok⟩
    case distinct =>
      rw [hstates]
      exact h.distinct
    case children =>
      intro Q hQ k hk
      rw [hstates]
      rcases hcases Q hQ with hlt | rfl
      · rw [hold Q hlt] at hk
        exact h.children Q hlt k hk
      · rw [hself] at hk
        cases hk
    case parent =>
      intro Q hQ
      rw [hdelivered]
      rcases hcases Q hQ with hlt | rfl
      · rw [hold Q hlt]
        exact h.parent Q hlt
      · rw [hself, h.fresh _ (Nat.le_refl _)]
        exact ParentOk.init hn id kind
    case fresh =>
      intro Q hQ
      rw [hdelivered]
      rw [hnum] at hQ
      exact h.fresh Q (Nat.le_of_succ_le hQ)
  · constructor
    case live =>
      intro Q hQ
      rw [hpr]
      rcases hcases Q hQ with hlt | rfl
      · rw [hold Q hlt]
        exact hreg.live Q hlt
      · rw [hself]
        constructor
        · intro hget
          exact absurd (hreg.named _ _ hget).1 (Nat.lt_irrefl _)
        · intro hlive
          exact absurd hlive.1 (Nat.lt_irrefl 0)
    case named =>
      intro id' Q hget
      rw [hpr] at hget
      obtain ⟨hlt, hid⟩ := hreg.named id' Q hget
      rw [hold Q hlt]
      exact ⟨hmono Q hlt, hid⟩

/-- What the next child of `P` changes. -/
structure ChildAdded (s : OutputProcessor δ lp) (P : ParentRef) (st : RequestState δ lp)
    (s' : OutputProcessor δ lp) : Prop where
  new : s.requestStates.get? st.requestId = none
  parentReq : st.parentReq = some P
  requestIndex : st.requestIndex = (s.parents P).added
  outputKind : st.outputKind = (s.parents P).outputKind
  samples : Samples st
  states : s'.requestStates = s.requestStates.insert st.requestId st
  parent : s'.parents P = { s.parents P with
    childRequests := (s.parents P).childRequests.insert st.requestId
    added := (s.parents P).added + 1 }
  others : ∀ Q, Q ≠ P → s'.parents Q = s.parents Q
  numParents : s'.numParents = s.numParents
  parentRequests : s'.parentRequests = s.parentRequests.insert (s.parents P).requestId P
  delivered : s'.delivered = s.delivered

theorem step_addChild_spec {logprobs : LogprobsProcessor lp} {d : δ}
    (hrun : s.step (.addChild P logprobs d q) = .ok s') : ∃ st, ChildAdded s P st s' := by
  unfold step ParentRequest.getChildInfo addRequest at hrun
  dsimp only at hrun
  split at hrun
  · cases hrun
  · rename_i hnew
    cases hrun
    refine ⟨{
      requestId := (s.parents P).childReqId (s.parents P).added
      parentReq := some P
      requestIndex := (s.parents P).added
      outputKind := (s.parents P).outputKind
      logprobsProcessor := some logprobs
      detokenizer := some d
      queue := q
      streamInterval := s.streamInterval },
      Option.not_isSome_iff_eq_none.mp hnew, rfl, rfl, rfl, ⟨rfl, rfl⟩, rfl,
      update_self .., fun Q hQ => update_of_ne hQ .., rfl, ?_, rfl⟩
    dsimp only
    rw [update_self]

/-- The next child of a parent, no child of which has ended. -/
theorem step_addChild (h : Core s) (hreg : Registered s) (hlt : P < s.numParents)
    (hadd : (s.parents P).added < (s.parents P).n)
    (hfirst : (s.parents P).added = 0 → s.parentRequests.get? (s.parents P).requestId = none)
    (hchild : ChildAdded s P st s') : Core s' ∧ Registered s' := by
  have hok := h.parent P hlt
  have hended : (s.parents P).ended = [] := by
    by_contra hne
    exact Nat.ne_of_lt hadd (hok.full hne)
  have hnotMem : st.requestId ∉ (s.parents P).childRequests := by
    intro hmem
    obtain ⟨st', hst', -⟩ := h.children P hlt _ hmem
    rw [hchild.new] at hst'
    cases hst'
  have hinsert : (s'.parents P).childRequests = st.requestId :: (s.parents P).childRequests := by
    rw [hchild.parent]
    exact insert_of_not_mem hnotMem
  have hget : ∀ k' st', s'.requestStates.get? k' = some st' →
      k' = st.requestId ∧ st' = st ∨ k' ≠ st.requestId ∧ s.requestStates.get? k' = some st' := by
    intro k' st' hst'
    rw [hchild.states] at hst'
    by_cases hk : k' = st.requestId
    · rw [hk, get?_insert_self] at hst'
      exact .inl ⟨hk, (Option.some.inj hst').symm⟩
    · rw [get?_insert_of_ne _ _ hk] at hst'
      exact .inr ⟨hk, hst'⟩
  -- The index of the new child is larger than that of every other one.
  have hindex : ∀ k' st', s.requestStates.get? k' = some st' → st'.parentReq = some P →
      st'.requestIndex < st.requestIndex := by
    intro k' st' hst' hP
    rw [hchild.requestIndex]
    exact ((h.states k' st' hst').2 P hP).2.lt
  constructor
  · constructor
    case states =>
      intro k' st' hst'
      rw [hchild.numParents]
      rcases hget k' st' hst' with ⟨rfl, rfl⟩ | ⟨hne, hst'⟩
      · refine ⟨rfl, fun Q hQ => ?_⟩
        rw [hchild.parentReq] at hQ
        cases hQ
        refine ⟨hlt, ?_, ?_, ?_, ?_, hchild.samples⟩
        · rw [hinsert]
          exact mem_cons_self
        · rw [hchild.parent, hchild.requestIndex]
          exact Nat.lt_succ_self _
        · rw [hchild.parent, hended]
          exact not_mem_nil
        · rw [hchild.parent]
          exact hchild.outputKind
      · obtain ⟨hid, hold⟩ := h.states k' st' hst'
        refine ⟨hid, fun Q hQ => ?_⟩
        obtain ⟨hQlt, hQok⟩ := hold Q hQ
        refine ⟨hQlt, ?_⟩
        by_cases hQP : Q = P
        · subst hQP
          refine ⟨?_, ?_, ?_, ?_, hQok.samples⟩
          · rw [hinsert]
            exact mem_cons_of_mem _ hQok.mem
          · rw [hchild.parent]
            exact Nat.lt_succ_of_lt hQok.lt
          · rw [hchild.parent]
            exact hQok.notEnded
          · rw [hchild.parent]
            exact hQok.kind
        · rw [hchild.others Q hQP]
          exact hQok
    case distinct =>
      intro k1 k2 st1 st2 Q h1 h2 hQ1 hQ2 hidx
      rcases hget k1 st1 h1 with ⟨rfl, rfl⟩ | ⟨hne1, h1⟩
      · rcases hget k2 st2 h2 with ⟨rfl, rfl⟩ | ⟨hne2, h2⟩
        · rfl
        · rw [hchild.parentReq] at hQ1
          cases hQ1
          have hlt' := hindex k2 st2 h2 hQ2
          omega
      · rcases hget k2 st2 h2 with ⟨rfl, rfl⟩ | ⟨hne2, h2⟩
        · rw [hchild.parentReq] at hQ2
          cases hQ2
          have hlt' := hindex k1 st1 h1 hQ1
          omega
        · exact h.distinct k1 k2 st1 st2 Q h1 h2 hQ1 hQ2 hidx
    case children =>
      intro Q hQ k' hk'
      rw [hchild.numParents] at hQ
      -- A child that was there before is there still.
      have hkeep : ∀ k'', k'' ∈ (s.parents Q).childRequests →
          ∃ st', s'.requestStates.get? k'' = some st' ∧ st'.parentReq = some Q := by
        intro k'' hk''
        obtain ⟨st', hst', hP'⟩ := h.children Q hQ k'' hk''
        refine ⟨st', ?_, hP'⟩
        rw [hchild.states, get?_insert_of_ne, hst']
        rintro rfl
        rw [hchild.new] at hst'
        cases hst'
      by_cases hQP : Q = P
      · subst hQP
        rw [hinsert] at hk'
        rcases mem_cons.mp hk' with rfl | hk'
        · refine ⟨st, ?_, hchild.parentReq⟩
          rw [hchild.states, get?_insert_self]
        · exact hkeep k' hk'
      · rw [hchild.others Q hQP] at hk'
        exact hkeep k' hk'
    case parent =>
      intro Q hQ
      rw [hchild.numParents] at hQ
      rw [hchild.delivered]
      by_cases hQP : Q = P
      · subst hQP
        have hlength := hok.length
        rw [hchild.parent, insert_of_not_mem hnotMem]
        exact {
          pos := hok.pos
          added_le := hadd
          nodup := nodup_cons.mpr ⟨hnotMem, hok.nodup⟩
          length := by
            simp only [length_cons]
            omega
          ended_nodup := hok.ended_nodup
          ended_lt := fun i hi => Nat.lt_succ_of_lt (hok.ended_lt i hi)
          full := fun hne => absurd hended hne
          aggregator := hok.aggregator
          handed := ⟨hok.handed.once, hok.handed.finished, hok.handed.last⟩ }
      · rw [hchild.others Q hQP]
        exact h.parent Q hQ
    case fresh =>
      intro Q hQ
      rw [hchild.numParents] at hQ
      rw [hchild.delivered]
      exact h.fresh Q hQ
  · have hsame : ∀ Q, (s'.parents Q).requestId = (s.parents Q).requestId := by
      intro Q
      by_cases hQP : Q = P
      · rw [hQP, hchild.parent]
      · rw [hchild.others Q hQP]
    -- Before its first child the parent is not registered, and from then on it is live.
    have hreg0 : ∀ Q, Q ≠ P → s.parentRequests.get? (s.parents P).requestId ≠ some Q := by
      intro Q hQP hsome
      rcases Nat.eq_zero_or_pos (s.parents P).added with hzero | hpos
      · rw [hfirst hzero] at hsome
        cases hsome
      · have hlive : Live (s.parents P) := by
          refine ⟨hpos, ?_⟩
          rw [hended]
          exact hok.pos
        rw [(hreg.live P hlt).mpr hlive] at hsome
        exact hQP (Option.some.inj hsome).symm
    constructor
    case live =>
      intro Q hQ
      rw [hchild.numParents] at hQ
      rw [hsame, hchild.parentRequests]
      by_cases hQP : Q = P
      · subst hQP
        rw [get?_insert_self, hchild.parent]
        refine ⟨fun _ => ⟨Nat.succ_pos _, ?_⟩, fun _ => rfl⟩
        show (s.parents Q).ended.length < (s.parents Q).n
        rw [hended]
        exact hok.pos
      · rw [hchild.others Q hQP, ← hreg.live Q hQ]
        by_cases hid : (s.parents Q).requestId = (s.parents P).requestId
        · rw [hid, get?_insert_self]
          constructor
          · intro hsome
            exact absurd (Option.some.inj hsome).symm hQP
          · intro hsome
            exact absurd hsome (hreg0 Q hQP)
        · rw [get?_insert_of_ne _ _ hid]
    case named =>
      intro id Q hsome
      rw [hchild.parentRequests] at hsome
      rw [hchild.numParents, hsame]
      by_cases hid : id = (s.parents P).requestId
      · rw [hid, get?_insert_self] at hsome
        cases hsome
        exact ⟨hlt, hid.symm⟩
      · rw [get?_insert_of_ne _ _ hid] at hsome
        exact hreg.named id Q hsome

end Core

/-! ### Runs -/

section Runs
variable [Detokenizer δ]

/-- What the engine sees to: a parent has a positive number of children and an id that no other
parent in use has, and a sampling request has no pooling outputs. -/
def Legal (s : OutputProcessor δ lp) : OutputOp δ lp → Prop
  | .addRequest .. => True
  | .newParent _ n _ => 0 < n
  | .addChild P _ _ _ => P < s.numParents ∧ (s.parents P).added < (s.parents P).n ∧
      ((s.parents P).added = 0 → s.parentRequests.get? (s.parents P).requestId = none)
  | .processOutput output => ∀ st ∈ s.requestStates.get? output.requestId,
      ∀ _ ∈ st.parentReq, output.hasPoolingOutput = false
  | .abortRequest .. => True

/-- No child ends before all are added, no child without a queue is aborted, and the last child is
not aborted by its own id. -/
def EndsInOrder (s : OutputProcessor δ lp) : OutputOp δ lp → Prop
  | .addRequest .. => True
  | .newParent .. => True
  | .addChild .. => True
  | .processOutput output => ∀ st ∈ s.requestStates.get? output.requestId, ∀ P ∈ st.parentReq,
      endsRequest st output = true → (s.parents P).added = (s.parents P).n
  | .abortRequest _ id =>
    (∀ st ∈ s.requestStates.get? id, ∀ P ∈ st.parentReq,
      (s.parents P).added = (s.parents P).n ∧ st.queue.isSome = true ∧
        2 ≤ (s.parents P).childRequests.length) ∧
    (s.requestStates.contains id = false → ∀ P ∈ s.parentRequests.get? id,
      (s.parents P).added = (s.parents P).n ∧ ∀ k ∈ (s.parents P).childRequests,
        ∀ st ∈ s.requestStates.get? k, st.queue.isSome = true)

instance (s : OutputProcessor δ lp) (op : OutputOp δ lp) : Decidable (Legal s op) :=
  match op with
  | .addRequest .. => inferInstanceAs (Decidable True)
  | .newParent _ n _ => inferInstanceAs (Decidable (0 < n))
  | .addChild P _ _ _ => inferInstanceAs (Decidable (P < s.numParents ∧
      (s.parents P).added < (s.parents P).n ∧ ((s.parents P).added = 0 →
        s.parentRequests.get? (s.parents P).requestId = none)))
  | .processOutput output => inferInstanceAs (Decidable (
      ∀ st ∈ s.requestStates.get? output.requestId, ∀ _ ∈ st.parentReq,
        output.hasPoolingOutput = false))
  | .abortRequest .. => inferInstanceAs (Decidable True)

instance (s : OutputProcessor δ lp) (op : OutputOp δ lp) : Decidable (EndsInOrder s op) :=
  match op with
  | .addRequest .. => inferInstanceAs (Decidable True)
  | .newParent .. => inferInstanceAs (Decidable True)
  | .addChild .. => inferInstanceAs (Decidable True)
  | .processOutput output => inferInstanceAs (Decidable (
      ∀ st ∈ s.requestStates.get? output.requestId, ∀ P ∈ st.parentReq,
        endsRequest st output = true → (s.parents P).added = (s.parents P).n))
  | .abortRequest _ id => inferInstanceAs (Decidable (
      (∀ st ∈ s.requestStates.get? id, ∀ P ∈ st.parentReq,
        (s.parents P).added = (s.parents P).n ∧ st.queue.isSome = true ∧
          2 ≤ (s.parents P).childRequests.length) ∧
      (s.requestStates.contains id = false → ∀ P ∈ s.parentRequests.get? id,
        (s.parents P).added = (s.parents P).n ∧ ∀ k ∈ (s.parents P).childRequests,
          ∀ st ∈ s.requestStates.get? k, st.queue.isSome = true)))

/-- Each parent has its completions handed over once, is reported as finished with the last of
them, and is in `parent_requests` exactly while some child has not ended. -/
def Aggregated (s : OutputProcessor δ lp) : Prop :=
  ∀ P < s.numParents, HandedOnce (s.parents P) (outputsOf P s.delivered) ∧
    (s.parentRequests.get? (s.parents P).requestId = some P ↔ Live (s.parents P))

variable {s s' : OutputProcessor δ lp}

theorem step_processOutput {output : EngineCoreOutput lp} (h : Core s) (hreg : Registered s)
    (hlegal : Legal s (.processOutput output)) (horder : EndsInOrder s (.processOutput output))
    (hrun : s.step (.processOutput output) = .ok s') : Core s' ∧ Registered s' := by
  obtain ⟨⟨abort, s1⟩, hrun, heq⟩ := bind_ok hrun
  cases heq
  cases hget : s.requestStates.get? output.requestId with
  | none =>
    unfold processOutput at hrun
    rw [hget] at hrun
    cases hrun
    exact ⟨h, hreg⟩
  | some st =>
    cases hP : st.parentReq with
    | none => exact processOutput_single h hreg hget hP hrun
    | some P =>
      have hpool := hlegal st hget P hP
      cases hends : endsRequest st output with
      | false => exact processOutput_running h hreg hget hP hpool hends hrun
      | true =>
        have hfull := horder st hget P hP hends
        exact processOutput_ended h hreg hget hP hpool hends hfull hrun

theorem step_abortRequest {order : List String → List String} {id : String} (h : Core s)
    (hreg : Registered s) (horder : EndsInOrder s (.abortRequest order id))
    (hrun : s.step (.abortRequest order id) = .ok s') : Core s' ∧ Registered s' := by
  obtain ⟨⟨aborted, s1⟩, hrun, heq⟩ := bind_ok hrun
  cases heq
  unfold abortRequests at hrun
  rw [foldlM_cons] at hrun
  obtain ⟨⟨aborted₁, s2⟩, hone, heq⟩ := bind_ok hrun
  cases heq
  cases hget : s.requestStates.get? id with
  | some st =>
    unfold abortRequest at hone
    rw [hget] at hone
    obtain ⟨s3, habort, heq⟩ := bind_ok hone
    cases heq
    cases hP : st.parentReq with
    | none => exact abortState_single h hreg hget hP habort
    | some P =>
      obtain ⟨hfull, hq, htwo⟩ := horder.1 st hget P hP
      exact abortChild h hreg hget hP hfull hq htwo habort
  | none =>
    cases hpr : s.parentRequests.get? id with
    | none =>
      unfold abortRequest at hone
      rw [hget] at hone
      dsimp only at hone
      rw [hpr] at hone
      cases hone
      exact ⟨h, hreg⟩
    | some P =>
      have hnot : s.requestStates.contains id = false := by
        unfold PyDict.contains
        rw [hget]
        rfl
      obtain ⟨hfull, hq⟩ := horder.2 hnot P hpr
      exact abortParent h hreg hget hpr hfull hq hone

/-- One operation keeps the invariant. -/
theorem step_core {op : OutputOp δ lp} (h : Core s) (hreg : Registered s) (hlegal : Legal s op)
    (horder : EndsInOrder s op) (hrun : s.step op = .ok s') : Core s' ∧ Registered s' := by
  cases op with
  | addRequest id kind logprobs d q => exact addRequest_single h hreg hrun
  | newParent id n kind => exact step_newParent h hreg hlegal hrun
  | addChild P logprobs d q =>
    obtain ⟨st, hchild⟩ := step_addChild_spec hrun
    obtain ⟨hlt, hadd, hfirst⟩ := hlegal
    exact step_addChild h hreg hlt hadd hfirst hchild
  | processOutput output => exact step_processOutput h hreg hlegal horder hrun
  | abortRequest order id => exact step_abortRequest h hreg horder hrun

/-- A processor without requests. -/
def idle (streamInterval : Nat) : OutputProcessor δ lp where
  streamInterval
  parents := fun _ => .init "" 1 .cumulative

omit [Detokenizer δ] in
theorem core_idle (streamInterval : Nat) : Core (idle streamInterval : OutputProcessor δ lp) where
  states k st hget := by cases hget
  distinct k k' st st' P hget := by cases hget
  children P hlt := absurd hlt (Nat.not_lt_zero P)
  parent P hlt := absurd hlt (Nat.not_lt_zero P)
  fresh P _ := rfl

omit [Detokenizer δ] in
theorem registered_idle (streamInterval : Nat) :
    Registered (idle streamInterval : OutputProcessor δ lp) where
  live P hlt := absurd hlt (Nat.not_lt_zero P)
  named id P hget := by cases hget

/-- Each completion is handed over once, with its own index; the output with the last one says
that the parent has finished, and the parent is dropped then. -/
theorem aggregated_of_run {streamInterval : Nat}
    (hrun : Run step (fun s op => Legal s op ∧ EndsInOrder s op)
      (idle streamInterval) s) : Aggregated s := by
  have hinv := hrun.invariant (fun s => Core s ∧ Registered s)
    ⟨core_idle streamInterval, registered_idle streamInterval⟩
    fun s op s' h hC hs => step_core h.1 h.2 hC.1 hC.2 hs
  intro P hlt
  exact ⟨(hinv.1.parent P hlt).handed, hinv.2.live P hlt⟩

/-! ### Two completions -/

/-- A completion token by token, in a queue, with the detokenizer that only collects. -/
def addSample (P : ParentRef) : OutputOp IncrementalDetokenizer Unit :=
  .addChild P { } { } (some 0)

/-- Two completions: the first one stops, and the request is aborted then. -/
def stopThenAbort : List (OutputOp IncrementalDetokenizer Unit) :=
  [.newParent "p" 2 .delta, addSample 0, addSample 0,
    .processOutput { requestId := "0_p", newTokenIds := [7], finishReason := some .stop },
    .abortRequest id "p"]

/-- After `stopThenAbort` the parent has two outputs, the second of which is the last one. -/
theorem aggregated_stopThenAbort : ∃ s : OutputProcessor IncrementalDetokenizer Unit,
      Run step (fun s op => Legal s op ∧ EndsInOrder s op) (idle 1) s ∧
      (s.numParents = 1 ∧ (s.parents 0).ended = [0, 1] ∧
        (outputsOf 0 s.delivered).map (fun o => o.finished) = [false, true]) ∧
      Aggregated s := by
  obtain ⟨s₀, s, hstart, hrun, hend⟩ := exists_run_of_check (@step IncrementalDetokenizer Unit _)
    (fun s op => Legal s op ∧ EndsInOrder s op)
    (fun s => s.numParents = 1 ∧ (s.parents 0).ended = [0, 1] ∧
      (outputsOf 0 s.delivered).map (fun o => o.finished) = [false, true])
    (.ok (idle 1)) stopThenAbort (by decide +kernel)
  cases hstart
  exact ⟨s, hrun, hend, aggregated_of_run hrun⟩

/-- The two completions are aborted one by one, by the ids of the children: those are the ids in
`request_states`, all of which are aborted when the generation is paused. -/
def abortEach : List (OutputOp IncrementalDetokenizer Unit) :=
  [.newParent "p" 2 .delta, addSample 0, addSample 0, .abortRequest id "0_p",
    .abortRequest id "1_p"]

/-- After `abortEach` no child is left, but the parent is still in `parent_requests`. -/
theorem parent_stays_without_children : ¬ ∀ s : OutputProcessor IncrementalDetokenizer Unit,
      Run step Legal (idle 1) s → Aggregated s := by
  intro hall
  obtain ⟨s₀, s, hstart, hrun, hnum, hended, hid, hn, hget⟩ := exists_run_of_check
    (@step IncrementalDetokenizer Unit _) Legal
    (fun s => s.numParents = 1 ∧ (s.parents 0).ended = [0, 1] ∧ (s.parents 0).requestId = "p" ∧
      (s.parents 0).n = 2 ∧ s.parentRequests.get? "p" = some 0)
    (.ok (idle 1)) abortEach (by decide +kernel)
  cases hstart
  obtain ⟨-, hlive⟩ := hall s hrun 0 (hnum ▸ Nat.one_pos)
  rw [hid] at hlive
  have hlt := (hlive.mp hget).2
  rw [hended, hn] at hlt
  exact absurd hlt (by decide)

end Runs

end Vllm.Proofs.Engine
