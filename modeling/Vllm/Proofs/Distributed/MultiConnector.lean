import Vllm.Distributed.MultiConnector
import Vllm.Lib.Run
import Mathlib.Data.List.Induction

/-!
# `Vllm.Proofs.Distributed.MultiConnector`: one end of the transfer for several connectors

A connector that saves a request asynchronously reports it once, at or after the step that carries
the id to the worker. The count of the saves beyond one is then in one place: beside the scheduler
until the step leaves, in the step, and in the worker afterwards.

* `Legal`: what the scheduler and the connectors do.
* `finishedLoop_spec`: `get_finished` takes the reports off the counts, and returns an id with
  the last report.
* `SavesCounted`: where the counts are, in every state.
* `completion_of_run`: every id is returned once, with the last report. The blocks of a request go
  to the connector that the latest query has chosen, as long as no query comes back empty for a
  request with a choice from before.
-/

set_option autoImplicit false

namespace Vllm.Proofs.Distributed

open Vllm.Lib Vllm.Distributed Vllm.Distributed.MultiSystem MultiConnector MultiSystem Function List

/-! ### What the connectors and the scheduler do -/

section Legality
variable (s : MultiSystem)

/-- The id waits for the step that carries it to the worker. -/
def InTransit (reqId : String) : Prop :=
  reqId ∈ s.finishedReqIds ∨ ∃ st ∈ s.steps, reqId ∈ st.finishedReqIds

instance (reqId : String) : Decidable (InTransit s reqId) :=
  inferInstanceAs (Decidable (reqId ∈ s.finishedReqIds ∨ ∃ st ∈ s.steps, reqId ∈ st.finishedReqIds))

/-- A report of connector `i`: a set of ids that it saves and has not reported, each at or after
the step that carries it. -/
def LegalReport (reports : List FinishedReport) (i : Nat) : Prop :=
  (sentBy reports i).Nodup ∧ ∀ reqId ∈ sentBy reports i, i ∈ s.saving reqId ∧
    reqId ∉ s.finishedReqIds ∧ ∀ st ∈ s.steps.tail, reqId ∉ st.finishedReqIds

instance (reports : List FinishedReport) (i : Nat) : Decidable (LegalReport s reports i) :=
  inferInstanceAs (Decidable ((sentBy reports i).Nodup ∧ ∀ reqId ∈ sentBy reports i,
    i ∈ s.saving reqId ∧ reqId ∉ s.finishedReqIds ∧ ∀ st ∈ s.steps.tail, reqId ∉ st.finishedReqIds))

/-- Every connector answers. The scheduler skips a request while a connector still looks for it,
and an id is used again only after the transfer of the earlier request has ended. -/
def Legal : MultiOp → Prop
  | .getNumNewMatchedTokens _ answers => answers.length = s.scheduler.numConnectors
  | .updateStateAfterAlloc requestId =>
    ∀ answers ∈ s.lastQuery requestId, answers.all (fun answer => answer.1.isSome) = true
  | .requestFinished requestId answers => answers.length = s.scheduler.numConnectors ∧
      s.saving requestId = [] ∧ ¬ InTransit s requestId
  | .schedule => True
  | .execute reports => s.steps ≠ [] ∧ reports.length = s.worker.numConnectors ∧
      ∀ i < reports.length, LegalReport s reports i

instance : DecidablePred (Legal s)
  | .getNumNewMatchedTokens _ _ => inferInstanceAs (Decidable (_ = _))
  | .updateStateAfterAlloc requestId => inferInstanceAs (Decidable (∀ answers ∈
      s.lastQuery requestId, answers.all (fun answer => answer.1.isSome) = true))
  | .requestFinished requestId answers =>
    inferInstanceAs (Decidable (answers.length = s.scheduler.numConnectors ∧
      s.saving requestId = [] ∧ ¬ InTransit s requestId))
  | .schedule => inferInstanceAs (Decidable True)
  | .execute reports => inferInstanceAs (Decidable (s.steps ≠ [] ∧
      reports.length = s.worker.numConnectors ∧ ∀ i < reports.length, LegalReport s reports i))

end Legality

/-! ### The connector that a query chooses -/

/-- The connector whose tokens a query returns: the first one with tokens, unless a connector
still looks for the request. -/
def returnedBy (answers : List MatchedTokens) : Option Nat :=
  if answers.all (fun answer => answer.1.isSome) then
    answers.findIdx? fun answer => 0 < answer.1.getD 0
  else none

section Query
variable (requestId : String) (answers : List MatchedTokens) (m : MultiConnector)

variable {toReturn : Int × Bool}

/-- A connector is chosen already: the loop only looks whether a later one still looks. -/
theorem matchLoop_chosen (i : Nat) (h : toReturn.1 ≠ 0) :
    (matchLoop requestId i answers toReturn m).2 = m ∧
      (answers.all (fun answer => answer.1.isSome) = true →
        (matchLoop requestId i answers toReturn m).1 = (some toReturn.1, toReturn.2)) := by
  induction answers generalizing i with
  | nil => exact ⟨rfl, fun _ => rfl⟩
  | cons answer answers ih =>
    obtain ⟨toks, loadAsync⟩ := answer
    cases toks with
    | none => exact ⟨rfl, fun hall => by simp at hall⟩
    | some toks =>
      have hstep : matchLoop requestId i ((some toks, loadAsync) :: answers)
          toReturn m = matchLoop requestId (i + 1) answers toReturn m :=
        if_neg fun hcond => h hcond.1
      rw [hstep]
      refine ⟨(ih (i + 1)).1, fun hall => (ih (i + 1)).2 ?_⟩
      simpa using hall

/-- The loop writes only the entry of the request. -/
theorem matchLoop_frame (i : Nat) (toReturn : Int × Bool) :
    ∃ d, (matchLoop requestId i answers toReturn m).2 =
        { m with requestsToConnector := d } ∧
      ∀ r, r ≠ requestId → d.get? r = m.requestsToConnector.get? r := by
  induction answers generalizing i toReturn m with
  | nil => exact ⟨m.requestsToConnector, rfl, fun _ _ => rfl⟩
  | cons answer answers ih =>
    obtain ⟨toks, loadAsync⟩ := answer
    cases toks with
    | none => exact ⟨m.requestsToConnector, rfl, fun _ _ => rfl⟩
    | some toks =>
      unfold matchLoop
      dsimp only
      split
      · obtain ⟨d, hd, hother⟩ := ih
          { m with requestsToConnector := m.requestsToConnector.insert requestId i } (i + 1)
          (toks, loadAsync)
        refine ⟨d, hd, fun r hr => ?_⟩
        rw [hother r hr]
        exact PyDict.get?_insert_of_ne _ _ hr
      · exact ih m (i + 1) toReturn

/-- When every connector knows, the first one with tokens is entered, and its tokens are
returned. -/
theorem matchLoop_choice (i : Nat) (h : toReturn.1 = 0)
    (hall : answers.all (fun answer => answer.1.isSome) = true) :
    (matchLoop requestId i answers toReturn m).2.requestsToConnector.get? requestId =
      ((answers.findIdx? fun answer => 0 < answer.1.getD 0).map (i + ·)).or
        (m.requestsToConnector.get? requestId) ∧
    (matchLoop requestId i answers toReturn m).1 =
      ((answers.findIdx? fun answer => 0 < answer.1.getD 0).bind (answers[·]?)).getD
        (some toReturn.1, toReturn.2) := by
  induction answers generalizing i with
  | nil => exact ⟨rfl, rfl⟩
  | cons answer answers ih =>
    obtain ⟨toks, loadAsync⟩ := answer
    cases toks with
    | none => simp at hall
    | some toks =>
      have hrest : answers.all (fun answer => answer.1.isSome) = true := by simpa using hall
      rw [List.findIdx?_cons]
      by_cases htoks : 0 < toks
      · have hstep : matchLoop requestId i ((some toks, loadAsync) :: answers)
            toReturn m = matchLoop requestId (i + 1) answers (toks, loadAsync)
              { m with requestsToConnector := m.requestsToConnector.insert requestId i } :=
          if_pos ⟨h, htoks⟩
        have hne : ((toks, loadAsync) : Int × Bool).1 ≠ 0 := by
          show toks ≠ 0
          omega
        have hchosen := matchLoop_chosen requestId answers
          { m with requestsToConnector := m.requestsToConnector.insert requestId i } (i + 1) hne
        rw [hstep, hchosen.1, hchosen.2 hrest]
        simp [htoks]
      · have hstep : matchLoop requestId i ((some toks, loadAsync) :: answers)
            toReturn m = matchLoop requestId (i + 1) answers toReturn m :=
          if_neg fun hcond => htoks hcond.2
        obtain ⟨hget, hret⟩ := ih (i + 1) hrest
        rw [hstep, hget, hret]
        simp only [Option.getD_some, htoks, decide_false, Bool.false_eq_true, if_false,
          Option.map_map, Option.bind_map]
        refine ⟨?_, rfl⟩
        congr 2
        funext j
        show i + 1 + j = i + (j + 1)
        omega

end Query

/-! ### The reports of one call -/

/-- The extra saves when the connectors of `l` have not reported. -/
def extraSaves (l : List Nat) : Option Nat := if 1 < l.length then some (l.length - 1) else none

/-- Inside a call: `start` are the connectors that had not reported before it, `left` those that
have not reported yet. -/
structure Draining (start left : String → List Nat) (st : List String × PyDict String Nat) :
    Prop where
  saves : ∀ reqId, st.2.get? reqId = extraSaves (left reqId)
  finished : ∀ reqId, reqId ∈ st.1 ↔ start reqId ≠ [] ∧ left reqId = []
  sublist : ∀ reqId, (left reqId).Sublist (start reqId)
  nodup : ∀ reqId, (start reqId).Nodup

section Reports
variable {start left : String → List Nat} {st : List String × PyDict String Nat} {c : Nat}

/-- What is left after the reports of connector `c` on `ids`. -/
def without (left : String → List Nat) (ids : List String) (c : Nat) : String → List Nat :=
  fun reqId => if reqId ∈ ids then (left reqId).filter fun i => i ≠ c else left reqId

theorem length_filter_ne {l : List Nat} (hnodup : l.Nodup) (hc : c ∈ l) :
    (l.filter fun i => i ≠ c).length + 1 = l.length := by
  have herase : (l.filter fun i => i ≠ c) = l.erase c := by
    rw [hnodup.erase_eq_filter]
    refine filter_congr fun i _ => ?_
    rw [Bool.eq_iff_iff]
    simp
  have hpos := length_pos_of_mem hc
  rw [herase, length_erase_of_mem hc]
  omega

theorem sendingStep_spec {reqId : String} (h : Draining start left st) (hc : c ∈ left reqId) :
    ∃ st', sendingStep st reqId = .ok st' ∧
      Draining start (without left [reqId] c) st' := by
  have hnodup : (left reqId).Nodup := (h.nodup reqId).sublist (h.sublist reqId)
  have hlen := length_filter_ne hnodup hc
  have hself : without left [reqId] c reqId = (left reqId).filter fun i => i ≠ c :=
    if_pos (mem_singleton_self reqId)
  have hother : ∀ r, r ≠ reqId → without left [reqId] c r = left r := fun r hr =>
    if_neg fun hmem => hr (mem_singleton.mp hmem)
  have hstart : start reqId ≠ [] := ne_nil_of_mem ((h.sublist reqId).subset hc)
  have hsub : ∀ r, (without left [reqId] c r).Sublist (start r) := by
    intro r
    by_cases hr : r = reqId
    · subst hr
      rw [hself]
      exact filter_sublist.trans (h.sublist r)
    · rw [hother r hr]
      exact h.sublist r
  have hsaves := h.saves reqId
  unfold sendingStep
  by_cases hone : (left reqId).length = 1
  · -- The last report: no extra save is counted.
    have hnone : extraSaves (left reqId) = none := if_neg (by omega)
    have hempty : (left reqId).filter (fun i => i ≠ c) = [] := length_eq_zero_iff.mp (by omega)
    rw [hsaves, hnone]
    refine ⟨_, rfl, ⟨fun r => ?_, fun r => ?_, hsub, h.nodup⟩⟩
    · by_cases hr : r = reqId
      · subst hr
        show st.2.get? r = _
        rw [hself, hempty, hsaves, hnone]
        rfl
      · rw [hother r hr]
        exact h.saves r
    · show r ∈ st.1.insert reqId ↔ _
      rw [mem_insert_iff, h.finished]
      by_cases hr : r = reqId
      · subst hr
        rw [hself, hempty]
        simp [hstart]
      · rw [hother r hr]
        simp [hr]
  · have hpos := length_pos_of_mem hc
    have hsome : extraSaves (left reqId) = some ((left reqId).length - 1) := if_pos (by omega)
    rw [hsaves, hsome]
    dsimp only
    rw [show pyAssert (decide (0 < (left reqId).length - 1)) "extra_pending > 0" = .ok () from
      pyAssert_eq_ok_iff.mpr (decide_eq_true (by omega)), except_ok_bind]
    have hfinished : ∀ r, r ∈ st.1 ↔ start r ≠ [] ∧ without left [reqId] c r = [] := by
      intro r
      rw [h.finished]
      by_cases hr : r = reqId
      · subst hr
        rw [hself]
        have hne : left r ≠ [] := ne_nil_of_mem hc
        have hne' : (left r).filter (fun i => i ≠ c) ≠ [] := by
          intro hnil
          rw [hnil] at hlen
          exact hone hlen.symm
        simp only [hne, hne', and_false]
      · rw [hother r hr]
    split
    · rename_i htwo
      refine ⟨_, rfl, ⟨fun r => ?_, hfinished, hsub, h.nodup⟩⟩
      by_cases hr : r = reqId
      · subst hr
        show (st.2.erase r).get? r = _
        rw [PyDict.get?_erase_self, hself]
        exact (if_neg (by omega)).symm
      · show (st.2.erase reqId).get? r = _
        rw [PyDict.get?_erase_of_ne _ hr, hother r hr]
        exact h.saves r
    · rename_i hmore
      refine ⟨_, rfl, ⟨fun r => ?_, hfinished, hsub, h.nodup⟩⟩
      by_cases hr : r = reqId
      · subst hr
        show (st.2.insert r _).get? r = _
        rw [PyDict.get?_insert_self, hself]
        unfold extraSaves
        rw [if_pos (by omega)]
        congr 1
        omega
      · show (st.2.insert reqId _).get? r = _
        rw [PyDict.get?_insert_of_ne _ _ hr, hother r hr]
        exact h.saves r

theorem without_cons {ids : List String} {reqId : String} (hnot : reqId ∉ ids) :
    without (without left [reqId] c) ids c = without left (reqId :: ids) c := by
  funext r
  unfold without
  by_cases hr : r = reqId
  · subst hr
    simp [hnot]
  · simp [hr]

theorem sendingLoop_spec {ids : List String} (hnodup : ids.Nodup) (h : Draining start left st)
    (hc : ∀ reqId ∈ ids, c ∈ left reqId) :
    ∃ st', sendingLoop ids st = .ok st' ∧ Draining start (without left ids c) st' := by
  induction ids generalizing left st with
  | nil => exact ⟨st, rfl, h⟩
  | cons reqId ids ih =>
    rw [nodup_cons] at hnodup
    obtain ⟨st1, hst1, h1⟩ := sendingStep_spec h (hc reqId mem_cons_self)
    have hc1 : ∀ r ∈ ids, c ∈ without left [reqId] c r := by
      intro r hr
      have hne : r ≠ reqId := fun heq => hnodup.1 (heq ▸ hr)
      unfold without
      rw [if_neg fun hmem => hne (mem_singleton.mp hmem)]
      exact hc r (mem_cons_of_mem _ hr)
    obtain ⟨st2, hst2, h2⟩ := ih hnodup.2 h1 hc1
    refine ⟨st2, ?_, ?_⟩
    · unfold sendingLoop at hst2 ⊢
      rw [foldlM_cons, hst1, except_ok_bind, hst2]
    · rw [← without_cons hnodup.1]
      exact h2

/-- What is left after the reports of the connectors from `i` on. -/
def drained (left : String → List Nat) (i : Nat) (reports : List FinishedReport) :
    String → List Nat :=
  fun reqId => (left reqId).filter fun c => decide (¬ (i ≤ c ∧ reqId ∈ sentBy reports (c - i)))

theorem drained_cons (i : Nat) (report : FinishedReport) (reports : List FinishedReport) :
    drained (without left (sentBy (report :: reports) 0) i) (i + 1) reports =
      drained left i (report :: reports) := by
  have hsucc : ∀ c, i + 1 ≤ c →
      sentBy (report :: reports) (c - i) = sentBy reports (c - (i + 1)) := by
    intro c hc
    obtain ⟨d, rfl⟩ := Nat.exists_eq_add_of_le hc
    rw [show i + 1 + d - i = d + 1 by omega, Nat.add_sub_cancel_left]
    rfl
  funext reqId
  unfold drained without
  have htail : ∀ c, c ≠ i → (decide (¬ (i + 1 ≤ c ∧ reqId ∈ sentBy reports (c - (i + 1)))) =
      decide (¬ (i ≤ c ∧ reqId ∈ sentBy (report :: reports) (c - i)))) := by
    intro c hc
    by_cases hle : i + 1 ≤ c
    · rw [hsucc c hle]
      simp [hle, show i ≤ c by omega]
    · simp [hle, show ¬ i ≤ c by omega]
  split
  · rename_i hmem
    rw [filter_filter]
    refine filter_congr fun c _ => ?_
    by_cases hc : c = i
    · subst hc
      simp [hmem]
    · rw [htail c hc]
      simp [hc]
  · rename_i hmem
    refine filter_congr fun c _ => ?_
    by_cases hc : c = i
    · subst hc
      simp [hmem]
    · exact htail c hc

theorem finishedLoop_spec (reports : List FinishedReport) (i : Nat) (recving : List String)
    (h : Draining start left st)
    (hreports : ∀ j < reports.length, (sentBy reports j).Nodup ∧
      ∀ reqId ∈ sentBy reports j, i + j ∈ left reqId) :
    ∃ finished recving' saves, finishedLoop reports st.1 recving st.2 =
        .ok (finished, recving', saves) ∧
      Draining start (drained left i reports) (finished, saves) := by
  induction reports generalizing i left st recving with
  | nil =>
    refine ⟨st.1, recving, st.2, rfl, ?_⟩
    have hnone : drained left i [] = left := by
      funext reqId
      exact filter_eq_self.mpr fun c _ => decide_eq_true fun hmem =>
        not_mem_nil hmem.2
    rw [hnone]
    exact h
  | cons report reports ih =>
    obtain ⟨hnodup, hmem⟩ := hreports 0 (Nat.zero_lt_succ _)
    obtain ⟨st1, hst1, h1⟩ := sendingLoop_spec hnodup h hmem
    have hreports1 : ∀ j < reports.length, (sentBy reports j).Nodup ∧
        ∀ reqId ∈ sentBy reports j,
          i + 1 + j ∈ without left (sentBy (report :: reports) 0) i reqId := by
      intro j hj
      obtain ⟨hnodup', hmem'⟩ := hreports (j + 1) (Nat.succ_lt_succ hj)
      refine ⟨hnodup', fun reqId hreq => ?_⟩
      have hin : i + 1 + j ∈ left reqId := by
        rw [show i + 1 + j = i + (j + 1) by omega]
        exact hmem' reqId hreq
      unfold without
      split
      · exact mem_filter.mpr ⟨hin, decide_eq_true (by omega)⟩
      · exact hin
    obtain ⟨finished, recving', saves, hloop, hdrain⟩ :=
      ih (i + 1) (recving.union (report.2.getD [])) h1 hreports1
    rw [drained_cons] at hdrain
    refine ⟨finished, recving', saves, ?_, hdrain⟩
    have hhead : sendingLoop (report.1.getD []) st = .ok st1 := hst1
    obtain ⟨sending, received⟩ := report
    unfold finishedLoop
    dsimp only at hhead hloop ⊢
    rw [hhead, except_ok_bind]
    exact hloop

end Reports

/-! ### Where the counts are -/

/-- The saves that a step carries. -/
def carried (st : ConnectorStep) : PyDict String Nat := st.metadata.extraAsyncSaves.getD .empty

/-- The extra saves of an id are beside the scheduler while the id waits for its step, in the
step that carries it, and in the worker afterwards. -/
structure SavesCounted (n : Nat) (s : MultiSystem) : Prop where
  size : s.scheduler.numConnectors = n ∧ s.worker.numConnectors = n
  scheduler : ∀ reqId, s.scheduler.extraAsyncSaves.get? reqId =
    if reqId ∈ s.finishedReqIds then extraSaves (s.saving reqId) else none
  steps : ∀ st ∈ s.steps, ∀ reqId, (carried st).get? reqId =
    if reqId ∈ st.finishedReqIds then extraSaves (s.saving reqId) else none
  worker : ∀ reqId, s.worker.extraAsyncSaves.get? reqId =
    if InTransit s reqId then none else extraSaves (s.saving reqId)
  apart : ∀ reqId ∈ s.finishedReqIds, ∀ st ∈ s.steps, reqId ∉ st.finishedReqIds
  pairwise : s.steps.Pairwise fun a b => ∀ reqId ∈ a.finishedReqIds, reqId ∉ b.finishedReqIds
  nodup : ∀ reqId, (s.saving reqId).Nodup
  counted : ∀ reqId, s.returned reqId + (if s.saving reqId = [] then 0 else 1) =
    s.savedRequests reqId

/-- The connector that the latest query has chosen is entered, if every connector knew. -/
def ChoiceKept (s : MultiSystem) : Prop :=
  ∀ reqId, match s.lastQuery reqId with
    | none => s.scheduler.requestsToConnector.get? reqId = none
    | some answers => answers.all (fun answer => answer.1.isSome) = true →
        s.scheduler.requestsToConnector.get? reqId = returnedBy answers

section Steps
variable {n : Nat} {s s' : MultiSystem}

theorem savesCounted_init (n : Nat) : SavesCounted n (init n) := by
  refine ⟨⟨rfl, rfl⟩, fun _ => rfl, fun st hst => absurd hst not_mem_nil, fun reqId => ?_,
    fun reqId hreq => absurd hreq not_mem_nil, List.Pairwise.nil, fun _ => nodup_nil,
    fun _ => rfl⟩
  split
  · rfl
  · rfl

theorem length_savers (answers : List (Bool × Option Unit)) :
    (savers answers).length = (answers.filter fun answer => answer.1).length := by
  induction answers using List.reverseRecOn with
  | nil => rfl
  | append_singleton answers answer ih =>
    have hpre : (List.range answers.length).filter
        (fun i => ((answers ++ [answer])[i]?).any fun answer => answer.1) = savers answers := by
      refine filter_congr fun i hi => ?_
      rw [List.getElem?_append_left (mem_range.mp hi)]
    have hlast : ((answers ++ [answer])[answers.length]?).any (fun answer => answer.1) =
        answer.1 := by
      simp
    unfold savers
    rw [length_append, length_singleton, range_succ, filter_append, hpre,
      filter_append, length_append, length_append, ih, filter_cons,
      filter_cons, hlast]
    cases answer.1 <;> rfl

theorem nodup_savers (answers : List (Bool × Option Unit)) : (savers answers).Nodup :=
  nodup_range.filter _

/-- What `request_finished` leaves. -/
structure RequestFinished (s : MultiSystem) (requestId : String)
    (answers : List (Bool × Option Unit)) (s' : MultiSystem) : Prop where
  size : s'.scheduler.numConnectors = s.scheduler.numConnectors
  worker : s'.worker = s.worker
  steps : s'.steps = s.steps
  finishedReqIds : s'.finishedReqIds = s.finishedReqIds.insert requestId
  lastQuery : s'.lastQuery = update s.lastQuery requestId none
  saving : s'.saving = update s.saving requestId (savers answers)
  savedRequests : s'.savedRequests = update s.savedRequests requestId
    (s.savedRequests requestId + if savers answers = [] then 0 else 1)
  returned : s'.returned = s.returned
  choices : s'.scheduler.requestsToConnector = s.scheduler.requestsToConnector.erase requestId
  saves : s'.scheduler.extraAsyncSaves.get? requestId =
    (extraSaves (savers answers)).or (s.scheduler.extraAsyncSaves.get? requestId)
  otherSaves : ∀ r, r ≠ requestId →
    s'.scheduler.extraAsyncSaves.get? r = s.scheduler.extraAsyncSaves.get? r

theorem requestFinished_effect {requestId : String} {answers : List (Bool × Option Unit)}
    (hstep : s.step (.requestFinished requestId answers) = .ok s') :
    RequestFinished s requestId answers s' := by
  unfold step at hstep
  obtain ⟨⟨res, m⟩, hfin, hstep⟩ := bind_ok hstep
  cases hstep
  unfold requestFinished at hfin
  dsimp only at hfin
  obtain ⟨params, -, hfin⟩ := bind_ok hfin
  cases hfin
  refine ⟨rfl, rfl, rfl, rfl, rfl, rfl, rfl, rfl, rfl, ?_, fun r hr => ?_⟩
  · dsimp only
    unfold extraSaves
    rw [length_savers]
    split
    · exact PyDict.get?_insert_self _ _ _
    · rfl
  · dsimp only
    split
    · exact PyDict.get?_insert_of_ne _ _ hr
    · rfl

/-- A request finishes: its extra saves are counted beside the scheduler. -/
theorem savesCounted_requestFinished {requestId : String} {answers : List (Bool × Option Unit)}
    (h : SavesCounted n s) (hsaving : s.saving requestId = []) (hnot : ¬ InTransit s requestId)
    (e : RequestFinished s requestId answers s') : SavesCounted n s' := by
  have hnot1 : requestId ∉ s.finishedReqIds := fun hmem => hnot (.inl hmem)
  have hnot2 : ∀ st ∈ s.steps, requestId ∉ st.finishedReqIds := fun st hst hmem =>
    hnot (.inr ⟨st, hst, hmem⟩)
  have hother : ∀ reqId, reqId ≠ requestId → s'.saving reqId = s.saving reqId := fun reqId hne => by
    rw [e.saving, update_of_ne hne]
  have hself : s'.saving requestId = savers answers := by rw [e.saving, update_self]
  have hmem : ∀ reqId, reqId ∈ s'.finishedReqIds ↔
      reqId = requestId ∨ reqId ∈ s.finishedReqIds := fun reqId => by
    rw [e.finishedReqIds]
    exact mem_insert_iff
  have htransit : ∀ reqId, InTransit s' reqId ↔ reqId = requestId ∨ InTransit s reqId := by
    intro reqId
    unfold InTransit
    rw [hmem, e.steps, or_assoc]
  constructor
  case size => exact ⟨e.size.trans h.size.1, by rw [e.worker]; exact h.size.2⟩
  case scheduler =>
    intro reqId
    by_cases hr : reqId = requestId
    · subst hr
      rw [e.saves, h.scheduler, if_neg hnot1, if_pos ((hmem reqId).mpr (.inl rfl)), hself,
        Option.or_none]
    · rw [e.otherSaves reqId hr, h.scheduler, hother reqId hr]
      exact if_congr (by rw [hmem]; simp [hr]) rfl rfl
  case steps =>
    intro st hst reqId
    rw [e.steps] at hst
    rw [h.steps st hst]
    by_cases hr : reqId = requestId
    · subst hr
      rw [if_neg (hnot2 st hst), if_neg (hnot2 st hst)]
    · rw [hother reqId hr]
  case worker =>
    intro reqId
    rw [e.worker, h.worker]
    by_cases hr : reqId = requestId
    · subst hr
      rw [if_neg hnot, hsaving, if_pos ((htransit reqId).mpr (.inl rfl))]
      rfl
    · rw [hother reqId hr]
      exact if_congr (by rw [htransit]; simp [hr]) rfl rfl
  case apart =>
    intro reqId hreq st hst
    rw [e.steps] at hst
    rcases (hmem reqId).mp hreq with rfl | hreq
    · exact hnot2 st hst
    · exact h.apart reqId hreq st hst
  case pairwise =>
    rw [e.steps]
    exact h.pairwise
  case nodup =>
    intro reqId
    by_cases hr : reqId = requestId
    · rw [hr, hself]
      exact nodup_savers answers
    · rw [hother reqId hr]
      exact h.nodup reqId
  case counted =>
    intro reqId
    have hold := h.counted reqId
    rw [e.returned, e.savedRequests]
    by_cases hr : reqId = requestId
    · subst hr
      rw [hsaving] at hold
      rw [hself, update_self, ← hold]
      simp
    · rw [hother reqId hr, update_of_ne hr]
      exact hold

/-- What `build_connector_meta` leaves, when the step `st` goes out. -/
structure Scheduled (s : MultiSystem) (st : ConnectorStep) (s' : MultiSystem) : Prop where
  finishedReqIds : st.finishedReqIds = s.finishedReqIds ∧ s'.finishedReqIds = []
  steps : s'.steps = s.steps ++ [st]
  carried : ∀ reqId, (carried st).get? reqId = s.scheduler.extraAsyncSaves.get? reqId
  saves : ∀ reqId, s'.scheduler.extraAsyncSaves.get? reqId = none
  size : s'.scheduler.numConnectors = s.scheduler.numConnectors
  worker : s'.worker = s.worker
  saving : s'.saving = s.saving
  savedRequests : s'.savedRequests = s.savedRequests
  returned : s'.returned = s.returned
  choices : s'.scheduler.requestsToConnector = s.scheduler.requestsToConnector
  lastQuery : s'.lastQuery = s.lastQuery

theorem buildConnectorMeta_spec (m : MultiConnector) :
    (∀ reqId, (m.buildConnectorMeta.1.extraAsyncSaves.getD .empty).get? reqId =
      m.extraAsyncSaves.get? reqId) ∧
    (∀ reqId, m.buildConnectorMeta.2.extraAsyncSaves.get? reqId = none) ∧
    m.buildConnectorMeta.2.numConnectors = m.numConnectors ∧
    m.buildConnectorMeta.2.requestsToConnector = m.requestsToConnector := by
  unfold buildConnectorMeta
  split
  · rename_i hempty
    have hnone : ∀ reqId, m.extraAsyncSaves.get? reqId = none := fun reqId => by
      unfold PyDict.get?
      rw [hempty]
      rfl
    exact ⟨fun reqId => (hnone reqId).symm, hnone, rfl, rfl⟩
  · exact ⟨fun _ => rfl, fun _ => rfl, rfl, rfl⟩

theorem schedule_effect (hstep : s.step .schedule = .ok s') : ∃ st, Scheduled s st s' := by
  obtain ⟨hcarried, hsaves, hsize, hchoices⟩ := buildConnectorMeta_spec s.scheduler
  cases hstep
  exact ⟨_, ⟨rfl, rfl⟩, rfl, hcarried, hsaves, hsize, rfl, rfl, rfl, rfl, hchoices, rfl⟩

/-- The next step takes the counts along. -/
theorem savesCounted_schedule {st : ConnectorStep} (h : SavesCounted n s)
    (e : Scheduled s st s') : SavesCounted n s' := by
  obtain ⟨hfin, hids⟩ := e.finishedReqIds
  have htransit : ∀ reqId, InTransit s' reqId ↔ InTransit s reqId := by
    intro reqId
    unfold InTransit
    rw [hids, e.steps]
    simp only [not_mem_nil, mem_append, mem_singleton, false_or]
    rw [← hfin]
    grind
  constructor
  case size =>
    rw [e.size, e.worker]
    exact h.size
  case scheduler =>
    intro reqId
    rw [e.saves, hids, if_neg not_mem_nil]
  case steps =>
    intro st' hst' reqId
    rw [e.steps, mem_append, mem_singleton] at hst'
    rw [e.saving]
    rcases hst' with hst' | rfl
    · exact h.steps st' hst' reqId
    · rw [e.carried, h.scheduler, hfin]
  case worker =>
    intro reqId
    rw [e.worker, h.worker, e.saving]
    exact if_congr (htransit reqId).symm rfl rfl
  case apart =>
    intro reqId hreq
    rw [hids] at hreq
    exact absurd hreq not_mem_nil
  case pairwise =>
    rw [e.steps, pairwise_append]
    refine ⟨h.pairwise, pairwise_singleton _ _, fun a ha b hb reqId hreq hreq' => ?_⟩
    rw [mem_singleton.mp hb, hfin] at hreq'
    exact h.apart reqId hreq' a ha hreq
  case nodup =>
    rw [e.saving]
    exact h.nodup
  case counted =>
    rw [e.returned, e.saving, e.savedRequests]
    exact h.counted

/-- `dict.update`. -/
theorem get?_update (d saves : PyDict String Nat) (reqId : String) :
    (saves.entries.foldl (fun d e => d.insert e.1 e.2) d).get? reqId =
      (saves.get? reqId).or (d.get? reqId) := by
  by_cases hmem : reqId ∈ saves.entries.map Prod.fst
  · obtain ⟨v, hv, hget⟩ := PyDict.get?_insertAll_of_mem d hmem
    rw [hget, (PyDict.mem_entries_iff saves reqId v).mp hv]
    rfl
  · rw [PyDict.get?_insertAll_of_not_mem d hmem, (PyDict.get?_eq_none_iff saves reqId).mpr hmem]
    rfl

theorem bindConnectorMetadata_saves (m : MultiConnector) (st : ConnectorStep) (reqId : String) :
    (m.bindConnectorMetadata st.metadata).extraAsyncSaves.get? reqId =
      ((carried st).get? reqId).or (m.extraAsyncSaves.get? reqId) := by
  unfold bindConnectorMetadata carried
  cases st.metadata.extraAsyncSaves with
  | none => rfl
  | some saves => exact get?_update _ _ _

/-- The connectors whose reports the worker waits for, once the first step has arrived. -/
def due (s : MultiSystem) : String → List Nat :=
  fun reqId => if InTransit { s with steps := s.steps.tail } reqId then [] else s.saving reqId

/-- When the metadata of the first step is bound, the worker counts what is due. -/
theorem draining_of_bind {st : ConnectorStep} {steps : List ConnectorStep} (h : SavesCounted n s)
    (hsteps : s.steps = st :: steps) :
    Draining (due s) (due s)
      ([], (s.worker.bindConnectorMetadata st.metadata).extraAsyncSaves) := by
  have hst : st ∈ s.steps := hsteps ▸ mem_cons_self
  have htransit : ∀ reqId, InTransit s reqId ↔
      reqId ∈ st.finishedReqIds ∨ InTransit { s with steps := s.steps.tail } reqId := by
    intro reqId
    unfold InTransit
    rw [hsteps]
    simp only [mem_cons, tail_cons]
    grind
  -- An id of this step waits for no other one.
  have halone : ∀ reqId ∈ st.finishedReqIds,
      ¬ InTransit { s with steps := s.steps.tail } reqId := by
    rintro reqId hreq (hids | ⟨st', hst', hreq'⟩)
    · exact h.apart reqId hids st hst hreq
    · have hpair := h.pairwise
      rw [hsteps] at hpair hst'
      exact (pairwise_cons.mp hpair).1 st' hst' reqId hreq hreq'
  refine ⟨fun reqId => ?_, fun reqId => ?_, fun reqId => List.Sublist.refl _, fun reqId => ?_⟩
  · show (s.worker.bindConnectorMetadata st.metadata).extraAsyncSaves.get? reqId = _
    rw [bindConnectorMetadata_saves, h.steps st hst, h.worker]
    unfold due
    by_cases hreq : reqId ∈ st.finishedReqIds
    · rw [if_pos hreq, if_neg (halone reqId hreq), if_pos ((htransit reqId).mpr (.inl hreq)),
        Option.or_none]
    · rw [if_neg hreq, Option.none_or]
      by_cases hlater : InTransit { s with steps := s.steps.tail } reqId
      · rw [if_pos ((htransit reqId).mpr (.inr hlater)), if_pos hlater]
        rfl
      · rw [if_neg fun hin => ((htransit reqId).mp hin).elim hreq hlater, if_neg hlater]
  · refine ⟨fun hmem => absurd hmem not_mem_nil, fun hmem => absurd hmem.2 hmem.1⟩
  · unfold due
    split
    · exact nodup_nil
    · exact h.nodup reqId

/-- What the worker leaves after a step. -/
structure Executed (s : MultiSystem) (reports : List FinishedReport) (s' : MultiSystem) : Prop where
  scheduler : s'.scheduler = s.scheduler
  size : s'.worker.numConnectors = s.worker.numConnectors
  steps : s'.steps = s.steps.tail
  finishedReqIds : s'.finishedReqIds = s.finishedReqIds
  lastQuery : s'.lastQuery = s.lastQuery
  savedRequests : s'.savedRequests = s.savedRequests
  saving : ∀ reqId, s'.saving reqId =
    (s.saving reqId).filter fun i => decide (reqId ∉ sentBy reports i)
  saves : ∀ reqId, s'.worker.extraAsyncSaves.get? reqId =
    extraSaves (drained (due s) 0 reports reqId)
  returned : ∀ reqId, s'.returned reqId = s.returned reqId +
    if due s reqId ≠ [] ∧ drained (due s) 0 reports reqId = [] then 1 else 0

variable {reqId : String}

theorem mem_orNone {ids : List String} : reqId ∈ (orNone ids).getD [] ↔ reqId ∈ ids := by
  unfold orNone
  split
  · rename_i hnil
    rw [hnil]
    rfl
  · rfl

theorem numConnectors_bind (m : MultiConnector) (metadata : MultiKVConnectorMetadata) :
    (m.bindConnectorMetadata metadata).numConnectors = m.numConnectors := by
  unfold bindConnectorMetadata
  split <;> rfl

variable {reports : List FinishedReport}

/-- Legal reports do not raise. -/
theorem execute_effect (h : SavesCounted n s) (hlegal : Legal s (.execute reports)) :
    ∃ s', s.step (.execute reports) = .ok s' ∧ Executed s reports s' := by
  obtain ⟨hne, hlen, hreports⟩ := hlegal
  cases hsteps : s.steps with
  | nil => exact absurd hsteps hne
  | cons st steps =>
    have hdue : ∀ j < reports.length, (sentBy reports j).Nodup ∧
        ∀ reqId ∈ sentBy reports j, 0 + j ∈ due s reqId := by
      intro j hj
      obtain ⟨hnodup, hmem⟩ := hreports j hj
      refine ⟨hnodup, fun reqId hreq => ?_⟩
      obtain ⟨hsaving, hids, hlater⟩ := hmem reqId hreq
      unfold due
      rw [if_neg, Nat.zero_add]
      · exact hsaving
      · rintro (hin | ⟨st', hst', hin⟩)
        · exact hids hin
        · exact hlater st' hst' hin
    obtain ⟨finished, recving, saves, hloop, hdrain⟩ :=
      finishedLoop_spec reports 0 [] (draining_of_bind h hsteps) hdue
    have hget : (s.worker.bindConnectorMetadata st.metadata).getFinished reports =
        .ok ((orNone finished, orNone recving),
          { s.worker.bindConnectorMetadata st.metadata with extraAsyncSaves := saves }) := by
      unfold getFinished
      rw [hloop]
      rfl
    have hrun : s.step (.execute reports) = .ok { s with
        worker :=
          { s.worker.bindConnectorMetadata st.metadata with extraAsyncSaves := saves }
        steps := steps
        saving := fun reqId => (s.saving reqId).filter fun i =>
          decide (reqId ∉ sentBy reports i)
        returned := fun reqId => s.returned reqId +
          if reqId ∈ (orNone finished).getD [] then 1 else 0 } := by
      unfold step
      rw [hsteps]
      dsimp only
      rw [hget]
      rfl
    refine ⟨_, hrun, rfl, numConnectors_bind _ _, ?_, rfl, rfl, rfl, fun _ => rfl, hdrain.saves,
      fun reqId => ?_⟩
    · rw [hsteps]
      rfl
    · show _ + (if reqId ∈ (orNone finished).getD [] then 1 else 0) = _
      rw [if_congr (mem_orNone.trans (hdrain.finished reqId)) rfl rfl]

/-- The ids that wait for a later step are not reported. -/
theorem saving_of_inTransit (hlegal : Legal s (.execute reports)) (e : Executed s reports s')
    (htransit : InTransit { s with steps := s.steps.tail } reqId) :
    s'.saving reqId = s.saving reqId := by
  rw [e.saving]
  refine filter_eq_self.mpr fun i _ => decide_eq_true fun hmem => ?_
  have hi : i < reports.length := by
    by_contra hge
    unfold sentBy at hmem
    rw [List.getElem?_eq_none (by omega)] at hmem
    exact not_mem_nil hmem
  obtain ⟨-, hids, hlater⟩ := (hlegal.2.2 i hi).2 reqId hmem
  rcases htransit with hin | ⟨st, hst, hin⟩
  · exact hids hin
  · exact hlater st hst hin

theorem drained_due (e : Executed s reports s')
    (htransit : ¬ InTransit { s with steps := s.steps.tail } reqId) :
    drained (due s) 0 reports reqId = s'.saving reqId := by
  rw [e.saving]
  unfold drained due
  rw [if_neg htransit]
  refine filter_congr fun i _ => ?_
  simp

/-- An id is returned in the call with its last report. -/
theorem returned_iff (hlegal : Legal s (.execute reports)) (e : Executed s reports s')
    (reqId : String) : s'.returned reqId = s.returned reqId +
      if s.saving reqId ≠ [] ∧ s'.saving reqId = [] then 1 else 0 := by
  rw [e.returned]
  congr 1
  by_cases htransit : InTransit { s with steps := s.steps.tail } reqId
  · rw [saving_of_inTransit hlegal e htransit]
    have hnone : due s reqId = [] := if_pos htransit
    rw [if_neg fun h => h.1 hnone, if_neg fun h => h.1 h.2]
  · rw [drained_due e htransit, show due s reqId = s.saving reqId from if_neg htransit]

theorem savesCounted_execute (h : SavesCounted n s) (hlegal : Legal s (.execute reports))
    (e : Executed s reports s') : SavesCounted n s' := by
  have htransit : ∀ reqId, InTransit s' reqId ↔
      InTransit { s with steps := s.steps.tail } reqId := by
    intro reqId
    unfold InTransit
    rw [e.steps, e.finishedReqIds]
  have hmem : ∀ st ∈ s'.steps, st ∈ s.steps := by
    intro st hst
    rw [e.steps] at hst
    exact mem_of_mem_tail hst
  have hkept : ∀ reqId, InTransit s' reqId → s'.saving reqId = s.saving reqId :=
    fun reqId hin => saving_of_inTransit hlegal e ((htransit reqId).mp hin)
  constructor
  case size => exact ⟨by rw [e.scheduler]; exact h.size.1, e.size.trans h.size.2⟩
  case scheduler =>
    intro reqId
    rw [e.scheduler, h.scheduler, e.finishedReqIds]
    split
    · rename_i hin
      rw [hkept reqId (.inl (e.finishedReqIds ▸ hin))]
    · rfl
  case steps =>
    intro st hst reqId
    rw [h.steps st (hmem st hst)]
    split
    · rename_i hin
      rw [hkept reqId (.inr ⟨st, hst, hin⟩)]
    · rfl
  case worker =>
    intro reqId
    rw [e.saves]
    split
    · rename_i hin
      have hnone : due s reqId = [] := if_pos ((htransit reqId).mp hin)
      unfold drained
      rw [hnone]
      rfl
    · rename_i hnot
      rw [drained_due e fun hin => hnot ((htransit reqId).mpr hin)]
  case apart =>
    intro reqId hreq st hst
    exact h.apart reqId (e.finishedReqIds ▸ hreq) st (hmem st hst)
  case pairwise =>
    rw [e.steps]
    exact h.pairwise.tail
  case nodup =>
    intro reqId
    rw [e.saving]
    exact (h.nodup reqId).filter _
  case counted =>
    intro reqId
    have hold := h.counted reqId
    have hgone : s.saving reqId = [] → s'.saving reqId = [] := by
      intro hnil
      rw [e.saving, hnil]
      rfl
    rw [returned_iff hlegal e, e.savedRequests, ← hold]
    by_cases hnil : s.saving reqId = []
    · rw [hgone hnil, hnil]
      simp
    · by_cases hnil' : s'.saving reqId = []
      · rw [if_pos ⟨hnil, hnil'⟩, if_pos hnil', if_neg hnil]
      · rw [if_neg fun hboth => hnil' hboth.2, if_neg hnil', if_neg hnil]

/-- What `get_num_new_matched_tokens` leaves. -/
structure Queried (s : MultiSystem) (requestId : String) (answers : List MatchedTokens)
    (s' : MultiSystem) : Prop where
  frame : s' = { s with
    scheduler := { s.scheduler with requestsToConnector := s'.scheduler.requestsToConnector }
    lastQuery := update s.lastQuery requestId (some answers) }
  other : ∀ r, r ≠ requestId → s'.scheduler.requestsToConnector.get? r =
    s.scheduler.requestsToConnector.get? r
  choice : answers.all (fun answer => answer.1.isSome) = true →
    s'.scheduler.requestsToConnector.get? requestId =
      (returnedBy answers).or (s.scheduler.requestsToConnector.get? requestId)

theorem query_effect {requestId : String} {answers : List MatchedTokens}
    (hstep : s.step (.getNumNewMatchedTokens requestId answers) = .ok s') :
    Queried s requestId answers s' := by
  obtain ⟨d, hd, hother⟩ := matchLoop_frame requestId answers s.scheduler 0 (0, false)
  cases hstep
  refine ⟨?_, fun r hr => ?_, fun hall => ?_⟩
  · dsimp only
    unfold getNumNewMatchedTokens
    rw [hd]
  · dsimp only
    unfold getNumNewMatchedTokens
    rw [hd]
    exact hother r hr
  · dsimp only
    unfold getNumNewMatchedTokens returnedBy
    rw [if_pos hall, (matchLoop_choice requestId answers s.scheduler 0 rfl hall).1]
    simp

theorem Queried.savesCounted {requestId : String} {answers : List MatchedTokens}
    (e : Queried s requestId answers s') (h : SavesCounted n s) : SavesCounted n s' := by
  rw [e.frame]
  exact ⟨h.size, h.scheduler, h.steps, h.worker, h.apart, h.pairwise, h.nodup, h.counted⟩

end Steps

/-! ### Runs -/

/-- A query that finds no tokens is made only for a request without a choice from before. -/
def NoStaleChoice (s : MultiSystem) : MultiOp → Prop
  | .getNumNewMatchedTokens requestId answers =>
    answers.all (fun answer => answer.1.isSome) = true → returnedBy answers = none →
      s.scheduler.requestsToConnector.get? requestId = none
  | _ => True

instance (s : MultiSystem) : DecidablePred (NoStaleChoice s)
  | .getNumNewMatchedTokens requestId answers => inferInstanceAs (Decidable
      (answers.all (fun answer => answer.1.isSome) = true → returnedBy answers = none →
        s.scheduler.requestsToConnector.get? requestId = none))
  | .updateStateAfterAlloc _ => inferInstanceAs (Decidable True)
  | .requestFinished _ _ => inferInstanceAs (Decidable True)
  | .schedule => inferInstanceAs (Decidable True)
  | .execute _ => inferInstanceAs (Decidable True)

/-- The connector whose tokens the latest query of a request has returned. -/
def lastReturned (s : MultiSystem) (requestId : String) : Option Nat :=
  (s.lastQuery requestId).bind returnedBy

/-- What a state and the next call have to give. -/
structure Completion (s : MultiSystem) : Prop where
  /-- Every request with an asynchronous save is returned once, or is still saved. -/
  once : ∀ reqId, s.returned reqId + (if s.saving reqId = [] then 0 else 1) = s.savedRequests reqId
  /-- `get_finished` does not raise, and returns an id with its last report. -/
  last : ∀ reports, Legal s (.execute reports) → ∃ s', s.step (.execute reports) = .ok s' ∧
    ∀ reqId, s'.returned reqId = s.returned reqId +
      if s.saving reqId ≠ [] ∧ s'.saving reqId = [] then 1 else 0
  /-- `update_state_after_alloc` passes the blocks to the connector of the latest query. -/
  blocks : ∀ requestId, Legal s (.updateStateAfterAlloc requestId) →
    ∀ (β : Type) (blocks emptyBlocks : β) (numExternalTokens : Int),
      s.scheduler.updateStateAfterAlloc requestId blocks emptyBlocks numExternalTokens =
        (List.range s.scheduler.numConnectors).map fun i =>
          if lastReturned s requestId = some i then (blocks, numExternalTokens)
          else (emptyBlocks, 0)

section Runs
variable {n : Nat} {s s' : MultiSystem}

theorem savesCounted_step {op : MultiOp} (h : SavesCounted n s) (hlegal : Legal s op)
    (hstep : s.step op = .ok s') : SavesCounted n s' := by
  cases op with
  | getNumNewMatchedTokens requestId answers => exact (query_effect hstep).savesCounted h
  | updateStateAfterAlloc requestId =>
    cases hstep
    exact h
  | requestFinished requestId answers =>
    exact savesCounted_requestFinished h hlegal.2.1 hlegal.2.2 (requestFinished_effect hstep)
  | schedule =>
    obtain ⟨st, e⟩ := schedule_effect hstep
    exact savesCounted_schedule h e
  | execute reports =>
    obtain ⟨s1, hstep1, e⟩ := execute_effect h hlegal
    cases hstep1.symm.trans hstep
    exact savesCounted_execute h hlegal e

theorem choiceKept_step {op : MultiOp} (hsaves : SavesCounted n s) (h : ChoiceKept s)
    (hlegal : Legal s op) (hfresh : NoStaleChoice s op) (hstep : s.step op = .ok s') :
    ChoiceKept s' := by
  -- The other operations keep the choices and the queries of the requests they do not name.
  have hsame : s'.lastQuery = s.lastQuery →
      s'.scheduler.requestsToConnector = s.scheduler.requestsToConnector → ChoiceKept s' := by
    intro hquery hchoices reqId
    rw [hquery, hchoices]
    exact h reqId
  cases op with
  | getNumNewMatchedTokens requestId answers =>
    have e := query_effect hstep
    intro reqId
    have hquery : s'.lastQuery = update s.lastQuery requestId (some answers) := by
      rw [e.frame]
    rw [hquery]
    by_cases hr : reqId = requestId
    · subst hr
      rw [update_self]
      intro hall
      rw [e.choice hall]
      cases hret : returnedBy answers with
      | none => rw [Option.none_or, hfresh hall hret]
      | some i => rfl
    · rw [update_of_ne hr, e.other reqId hr]
      exact h reqId
  | updateStateAfterAlloc requestId =>
    cases hstep
    exact h
  | requestFinished requestId answers =>
    have e := requestFinished_effect hstep
    intro reqId
    rw [e.lastQuery, e.choices]
    by_cases hr : reqId = requestId
    · subst hr
      rw [update_self]
      exact PyDict.get?_erase_self _ _
    · rw [update_of_ne hr, PyDict.get?_erase_of_ne _ hr]
      exact h reqId
  | schedule =>
    obtain ⟨st, e⟩ := schedule_effect hstep
    exact hsame e.lastQuery e.choices
  | execute reports =>
    obtain ⟨s1, hstep1, e⟩ := execute_effect hsaves hlegal
    cases hstep1.symm.trans hstep
    exact hsame e.lastQuery (by rw [e.scheduler])

theorem completion_of_inv (hsaves : SavesCounted n s) (hchoice : ChoiceKept s) : Completion s where
  once := hsaves.counted
  last reports hlegal := by
    obtain ⟨s', hstep, e⟩ := execute_effect hsaves hlegal
    exact ⟨s', hstep, returned_iff hlegal e⟩
  blocks requestId hlegal β blocks emptyBlocks numExternalTokens := by
    have hget : s.scheduler.requestsToConnector.get? requestId = lastReturned s requestId := by
      have hkept := hchoice requestId
      unfold lastReturned
      cases hquery : s.lastQuery requestId with
      | none =>
        rw [hquery] at hkept
        exact hkept
      | some answers =>
        rw [hquery] at hkept
        exact hkept (hlegal answers hquery)
    unfold updateStateAfterAlloc
    rw [hget]

end Runs

/-- In every run, over any list of connectors and with any order of their reports, in which no
query comes back empty for a request with an earlier choice: each id is returned once, with its
last report, and the blocks go to the connector of the latest query. -/
theorem completion_of_run {n : Nat} {s : MultiSystem}
    (hrun : Run step (fun s op => Legal s op ∧ NoStaleChoice s op) (init n) s) : Completion s := by
  have hinv := hrun.invariant (fun s => SavesCounted n s ∧ ChoiceKept s)
    ⟨savesCounted_init n, fun _ => rfl⟩
    fun _ _ _ h hc hstep => ⟨savesCounted_step h.1 hc.1 hstep,
      choiceKept_step h.1 h.2 hc.1 hc.2 hstep⟩
  exact completion_of_inv hinv.1 hinv.2

/-- Three connectors, of which two save the request. It is returned with the second report. -/
theorem completion_two_savers : ∃ s : MultiSystem,
    Run step (fun s op => Legal s op ∧ NoStaleChoice s op) (init 3) s ∧
      (s.saving "a" = [] ∧ s.returned "a" = 1) ∧ Completion s := by
  obtain ⟨s₀, s, hstart, hrun, hdone⟩ := exists_run_of_check step
    (fun s op => Legal s op ∧ NoStaleChoice s op)
    (fun s => s.saving "a" = [] ∧ s.returned "a" = 1) (.ok (init 3))
    [.getNumNewMatchedTokens "a" [(some 0, false), (some 4, true), (some 8, false)],
      .updateStateAfterAlloc "a",
      .requestFinished "a" [(true, none), (false, none), (true, some ())],
      .schedule,
      .execute [(some ["a"], none), (none, none), (none, none)],
      .schedule,
      .execute [(none, none), (none, none), (some ["a"], none)]] (by decide +kernel)
  cases hstart
  exact ⟨s, hrun, hdone, completion_of_run hrun⟩

/-- The first query chooses the connector, the allocation fails, and the second query finds no
tokens. The choice is kept, and the connector is called with the blocks of a load that nobody asked
for. -/
theorem stale_choice_gets_blocks : ∃ s : MultiSystem,
    Run step Legal (init 1) s ∧ lastReturned s "a" = none ∧
      Legal s (.updateStateAfterAlloc "a") ∧
      s.scheduler.updateStateAfterAlloc "a" [1, 2] ([] : List Nat) 0 = [([1, 2], 0)] ∧
      ¬ Completion s := by
  obtain ⟨s₀, s, hstart, hrun, hlast, hlegal, hcall, hsize⟩ := exists_run_of_check step
    Legal (fun s => lastReturned s "a" = none ∧ Legal s (.updateStateAfterAlloc "a") ∧
      s.scheduler.updateStateAfterAlloc "a" [1, 2] ([] : List Nat) 0 = [([1, 2], 0)] ∧
      s.scheduler.numConnectors = 1)
    (.ok (init 1))
    [.getNumNewMatchedTokens "a" [(some 4, true)],
      .getNumNewMatchedTokens "a" [(some 0, false)]] (by decide +kernel)
  cases hstart
  refine ⟨s, hrun, hlast, hlegal, hcall, fun h => ?_⟩
  have hblocks := h.blocks "a" hlegal (List Nat) [1, 2] [] 0
  rw [hcall, hsize, hlast] at hblocks
  exact absurd hblocks (by decide)

end Vllm.Proofs.Distributed
