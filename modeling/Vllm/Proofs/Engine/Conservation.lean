import Vllm.Proofs.Sched.Conserved
import Vllm.Proofs.Sched.Requests
import Vllm.Lib.Run
import Vllm.V1.Engine.Core

/-!
# `Vllm.Proofs.Engine.Conservation`: every request is somewhere, and ends once

Runs of the engine keep `Conserved`, and the batches announce every request that ended, each
in the first batch after its end.

* `updateDraftTokenIds_conserved`, `resetPrefixCache_conserved`: the remaining operations.
* `Announced`: what the emitted batches say about the requests that ended.
* `requests_conserved`: both, in every state of a run in which no result is applied to a
  finished request that is still registered.
-/

set_option autoImplicit false

namespace Vllm.Proofs.Engine

open Vllm.Lib Vllm.V1 Vllm.V1.Core Vllm.V1.Engine Vllm.Proofs.Sched EngineCore Function List

/-! ### Draft tokens and the forced reset -/

variable {s : Scheduler} {r : ReqRef}

/-- A change of a request object that keeps its id and its status. -/
theorem modify_conserved (connector : Option KVConnector) {f : Request → Request}
    (h : Conserved s []) (hid : (f (s.objects r)).requestId = (s.objects r).requestId)
    (hstatus : (f (s.objects r)).status = (s.objects r).status) :
    Conserved (s.modify r f) [] ∧ Ends connector s (s.modify r f) := by
  have hids : ∀ r', ((s.modify r f).objects r').requestId = (s.objects r').requestId := by
    intro r'
    show (update s.objects r (f (s.objects r)) r').requestId = _
    by_cases hr : r' = r
    · subst hr
      rw [update_self, hid]
    · rw [update_of_ne hr]
  refine ⟨h.frame rfl rfl rfl rfl hids (fun r' => ?_) rfl rfl, .of_eq rfl rfl hids rfl rfl rfl⟩
  show (update s.objects r (f (s.objects r)) r').status = _
  by_cases hr : r' = r
  · subst hr
    rw [update_self, hstatus]
  · rw [update_of_ne hr]

theorem updateDraftTokenIds_conserved (connector : Option KVConnector)
    (validate : Request → List Int → List Int) (drafts : List (String × List Int))
    (h : Conserved s []) :
    Conserved (s.updateDraftTokenIds validate drafts) [] ∧
      Ends connector s (s.updateDraftTokenIds validate drafts) := by
  induction drafts generalizing s with
  | nil => exact ⟨h, .refl _⟩
  | cons d drafts ih =>
    unfold Scheduler.updateDraftTokenIds
    dsimp only
    split
    · exact ih h
    · split
      · exact ih h
      · obtain ⟨h1, he1⟩ := modify_conserved connector h (f := fun request =>
          { request with specTokenIds := validate request d.2 }) rfl rfl
        obtain ⟨h2, he2⟩ := ih h1
        exact ⟨h2, he1.trans he2⟩

/-- The last running request is preempted. -/
theorem preemptLast_conserved (connector : Option KVConnector) {s' : Scheduler} {l : List ReqRef}
    (h : Conserved s []) (hl : s.running = l ++ [r])
    (hpre : { s with running := l }.preemptRequest r = .ok s') :
    Conserved s' [] ∧ Ends connector s s' ∧ s'.running = l := by
  obtain ⟨hstatus, k, e, -, -, rfl⟩ := preemptRequest_cases hpre
  have hobj : ∀ r', ((({ s with
      running := l
      kvCacheManager := k
      encoderCacheManager := e }.modify r preempted).prependWaiting r).objects r') =
      update s.objects r (preempted (s.objects r)) r' := fun _ => rfl
  have hids : ∀ r', (((({ s with
      running := l
      kvCacheManager := k
      encoderCacheManager := e }.modify r preempted).prependWaiting r).objects r').requestId) =
      (s.objects r').requestId := by
    intro r'
    rw [hobj]
    by_cases hr : r' = r
    · subst hr
      rw [update_self]
      rfl
    · rw [update_of_ne hr]
  have hperm : ∀ t : Scheduler, (t.prependWaiting r).waiting.Perm (r :: t.waiting) :=
    fun t => prependRequest_perm _ _ _ _
  have hw := hperm ({ s with
      running := l
      kvCacheManager := k
      encoderCacheManager := e }.modify r preempted)
  have hne : ∀ r' ∈ s.waiting ++ l, r' ≠ r := by
    have hnd := h.nodup
    rw [append_nil, hl, ← append_assoc] at hnd
    rintro r' hr' rfl
    exact (nodup_append.mp hnd).2.2 r' hr' r' mem_cons_self rfl
  refine ⟨h.requeue rfl rfl rfl rfl hids ?_ ?_ ?_ ?_, .of_eq rfl rfl hids rfl rfl rfl, rfl⟩
  · intro r'
    rw [hobj]
    by_cases hr : r' = r
    · subst hr
      have hold : (s.objects r').isFinished = false := by
        unfold Request.isFinished
        rw [show (s.objects r').status = .running from hstatus]
        rfl
      rw [update_self, hold]
      rfl
    · rw [update_of_ne hr]
  · show (_ ++ [] ++ l).Perm (s.waiting ++ [] ++ s.running)
    rw [append_nil, append_nil, hl]
    refine (hw.append_right l).trans ?_
    show (r :: (s.waiting ++ l)).Perm _
    rw [← append_assoc]
    exact (perm_append_singleton r (s.waiting ++ l)).symm
  · intro r' hr'
    rw [hobj]
    rcases mem_cons.mp (hw.mem_iff.mp hr') with rfl | hr'
    · rw [update_self]
      exact .inr (.inr (.inr rfl))
    · rw [update_of_ne (hne r' (mem_append_left _ hr'))]
      exact h.waiting r' hr'
  · intro r' hr'
    change r' ∈ l at hr'
    rw [hobj, update_of_ne (hne r' (mem_append_right _ hr'))]
    refine h.running r' ?_
    rw [hl]
    exact mem_append_left _ hr'

/-- The loop of `reset_prefix_cache`. -/
theorem preemptAll_conserved (connector : Option KVConnector) {l : List ReqRef} {s' : Scheduler}
    (h : Conserved s []) (hl : s.running.reverse = l) (hall : Scheduler.preemptAll l s = .ok s') :
    Conserved s' [] ∧ Ends connector s s' := by
  induction l generalizing s with
  | nil =>
    cases hall
    exact ⟨h, .refl _⟩
  | cons r rest ih =>
    have hrun : s.running = rest.reverse ++ [r] := by
      rw [← reverse_reverse s.running, hl, reverse_cons]
    unfold Scheduler.preemptAll at hall
    obtain ⟨s1, h1, hall⟩ := bind_ok hall
    have hdrop : s.running.dropLast = rest.reverse := by
      rw [hrun, dropLast_concat]
    rw [hdrop] at h1
    obtain ⟨hc1, he1, hr1⟩ := preemptLast_conserved connector h hrun h1
    obtain ⟨hc2, he2⟩ := modify_conserved connector hc1 (r := r) (f := fun request => { request with
      numOutputPlaceholders := 0
      discardLatestAsyncTokens := true }) rfl rfl
    have hrest : (s1.modify r fun request => { request with
        numOutputPlaceholders := 0
        discardLatestAsyncTokens := true }).running.reverse = rest := by
      show s1.running.reverse = rest
      rw [hr1, reverse_reverse]
    obtain ⟨hc3, he3⟩ := ih hc2 hrest hall
    exact ⟨hc3, (he1.trans he2).trans he3⟩

/-- `reset_prefix_cache` keeps the invariant. -/
theorem resetPrefixCache_conserved (connector : Option KVConnector) {s' : Scheduler}
    {reset b : Bool} (h : Conserved s []) (hreset : s.resetPrefixCache reset = .ok (b, s')) :
    Conserved s' [] ∧ Ends connector s s' := by
  unfold Scheduler.resetPrefixCache at hreset
  obtain ⟨s1, h1, hreset⟩ := bind_ok hreset
  have hs1 : Conserved s1 [] ∧ Ends connector s s1 := by
    split at h1
    · obtain ⟨s2, h2, h1⟩ := bind_ok h1
      cases h1
      obtain ⟨hc, he⟩ := preemptAll_conserved connector h rfl h2
      refine ⟨hc.frame rfl rfl rfl rfl (fun _ => rfl) (fun _ => rfl) rfl rfl, he.trans ?_⟩
      exact .of_eq rfl rfl (fun _ => rfl) rfl rfl rfl
    · cases h1
      exact ⟨h, .refl _⟩
  dsimp only at hreset
  split at hreset
  · cases hreset
  · cases hreset
    refine ⟨hs1.1.frame rfl rfl rfl rfl (fun _ => rfl) (fun _ => rfl) rfl rfl, hs1.2.trans ?_⟩
    exact .of_eq rfl rfl (fun _ => rfl) rfl rfl rfl

/-! ### What the batches announce -/

variable {connector : Option KVConnector}

/-- `schedule` hands out the finished ids and ends no request. -/
theorem schedule_announces {ec : Option ECConnector} {s' : Scheduler} {out : SchedulerOutput}
    (h : Conserved s []) (hsched : s.schedule connector ec = .ok (out, s')) :
    out.finishedReqIds = s.finishedReqIds ∧ s'.finishedReqIds = [] ∧
      s'.freeRequestCalls = s.freeRequestCalls ∧
      ∀ r, (s'.objects r).requestId = (s.objects r).requestId := by
  unfold Scheduler.schedule at hsched
  obtain ⟨p, hloops, hfin⟩ := bind_ok hsched
  obtain ⟨hp, hshared⟩ := scheduleLoops_conserved h hloops
  have hf := finish_spec hp.knownIds hfin
  refine ⟨hf.finishedReqIds.trans hshared.finishedReqIds, ?_, ?_, fun r => ?_⟩
  · rw [hf.frame.eq]
  · rw [hf.frame.eq]
    exact hshared.freeRequestCalls
  · rw [hf.frame.requestId r]
    exact hshared.requestId r

/-- A request ended before the batch was scheduled. -/
def EndedBefore (batch : ScheduledBatch) (r : ReqRef) : Prop :=
  r ∈ batch.before.freeRequestCalls

/-- The finished ids of every batch are those of the requests that ended since the batch
before it, and the ids that wait for the next batch are those of the requests that ended since
the last one. -/
structure Announcing (e : EngineCore) : Prop where
  known : ∀ batch ∈ e.emitted, ∀ r, EndedBefore batch r → r ∈ e.scheduler.freeRequestCalls
  emitted : ∀ pre batch post, e.emitted = pre ++ batch :: post →
    ∀ x, x ∈ batch.output.finishedReqIds ↔ ∃ r, EndedBefore batch r ∧
      (∀ b ∈ pre, ¬EndedBefore b r) ∧ (e.scheduler.objects r).requestId = x
  pending : ∀ x, x ∈ e.scheduler.finishedReqIds ↔ ∃ r ∈ e.scheduler.freeRequestCalls,
    (∀ b ∈ e.emitted, ¬EndedBefore b r) ∧ (e.scheduler.objects r).requestId = x

namespace Announcing

variable {e : EngineCore} {s' : Scheduler}

/-- An operation beside `schedule`. -/
theorem ends {connector : Option KVConnector} (h : Announcing e) (hnodup : s'.freeRequestCalls.Nodup)
    (hends : Ends connector e.scheduler s') (queue : List ScheduledBatch) :
    Announcing { e with scheduler := s', batchQueue := queue } := by
  obtain ⟨l, hl, hids⟩ := hends.calls
  have hnew : ∀ r ∈ l, r ∉ e.scheduler.freeRequestCalls := by
    rw [hl] at hnodup
    exact fun r hr hm => (nodup_append.mp hnodup).2.2 r hm r hr rfl
  refine ⟨fun b hb r hr => ?_, fun pre b post heq x => ?_, fun x => ?_⟩
  · show r ∈ s'.freeRequestCalls
    rw [hl]
    exact mem_append_left _ (h.known b hb r hr)
  · simp only [hends.ids]
    exact h.emitted pre b post heq x
  · simp only [hends.ids, hids, hl]
    rw [h.pending x]
    constructor
    · rintro (⟨r, hr, hb, hx⟩ | ⟨r, hr, hx⟩)
      · exact ⟨r, mem_append_left _ hr, hb, hx⟩
      · refine ⟨r, mem_append_right _ hr, fun b hb hc => ?_, hx⟩
        exact hnew r hr (h.known b hb r hc)
    · rintro ⟨r, hr, hb, hx⟩
      rcases mem_append.mp hr with hr | hr
      · exact .inl ⟨r, hr, hb, hx⟩
      · exact .inr ⟨r, hr, hx⟩

/-- `schedule`. -/
theorem schedule {out : SchedulerOutput} (h : Announcing e)
    (hout : out.finishedReqIds = e.scheduler.finishedReqIds) (hfin : s'.finishedReqIds = [])
    (hcalls : s'.freeRequestCalls = e.scheduler.freeRequestCalls)
    (hids : ∀ r, (s'.objects r).requestId = (e.scheduler.objects r).requestId) :
    Announcing {
      scheduler := s'
      batchQueue := e.batchQueue ++ [{ output := out, before := e.scheduler, after := s' }]
      emitted := e.emitted ++ [{ output := out, before := e.scheduler, after := s' }] } := by
  refine ⟨fun b hb r hr => ?_, fun pre b post heq x => ?_, fun x => ?_⟩
  · show r ∈ s'.freeRequestCalls
    rw [hcalls]
    rcases mem_append.mp hb with hb | hb
    · exact h.known b hb r hr
    · rw [mem_singleton.mp hb] at hr
      exact hr
  · simp only [hids]
    rcases eq_nil_or_concat post with rfl | ⟨post, b', rfl⟩
    · obtain ⟨rfl, hb⟩ := append_inj' heq rfl
      obtain rfl := head_eq_of_cons_eq hb
      show x ∈ out.finishedReqIds ↔ _
      rw [hout, h.pending x]
      constructor
      · rintro ⟨r, hr, hb, hx⟩
        exact ⟨r, hr, hb, hx⟩
      · rintro ⟨r, hr, hb, hx⟩
        exact ⟨r, hr, hb, hx⟩
    · have heq' : e.emitted ++ [{ output := out, before := e.scheduler, after := s' }] =
          (pre ++ b :: post) ++ [b'] := by
        refine Eq.trans heq ?_
        simp
      exact h.emitted pre b post (append_inj' heq' rfl).1 x
  · show x ∈ s'.finishedReqIds ↔ ∃ r ∈ s'.freeRequestCalls, _ ∧ _
    rw [hfin, hcalls]
    constructor
    · intro hx
      exact absurd hx not_mem_nil
    · rintro ⟨r, hr, hb, -⟩
      refine absurd hr (hb { output := out, before := e.scheduler, after := s' } ?_)
      exact mem_append_right _ mem_cons_self

/-- The list splits at its first element with a property. -/
theorem exists_first {l : List ScheduledBatch} {P : ScheduledBatch → Prop}
    (h : ∃ b ∈ l, P b) : ∃ pre b post, l = pre ++ b :: post ∧ P b ∧ ∀ b' ∈ pre, ¬P b' := by
  induction l with
  | nil =>
    obtain ⟨b, hb, -⟩ := h
    cases hb
  | cons a l ih =>
    by_cases ha : P a
    · exact ⟨[], a, l, rfl, ha, fun b' hb' => absurd hb' not_mem_nil⟩
    · have hl : ∃ b ∈ l, P b := by
        obtain ⟨b, hb, hP⟩ := h
        rcases mem_cons.mp hb with rfl | hb
        · exact absurd hP ha
        · exact ⟨b, hb, hP⟩
      obtain ⟨pre, b, post, rfl, hP, hpre⟩ := ih hl
      refine ⟨a :: pre, b, post, rfl, hP, fun b' hb' => ?_⟩
      rcases mem_cons.mp hb' with rfl | hb'
      · exact ha
      · exact hpre b' hb'

end Announcing

/-- The id of a request that ended waits for the next batch, or one batch has announced it:
the first one after the end. The id stands in a later batch only for another request that has
the same id and ended later. -/
def AnnouncedOnce (e : EngineCore) (r : ReqRef) : Prop :=
  let reqId := (e.scheduler.objects r).requestId
  ((∀ batch ∈ e.emitted, ¬EndedBefore batch r) ∧ reqId ∈ e.scheduler.finishedReqIds) ∨
    ∃ pre batch post, e.emitted = pre ++ batch :: post ∧ (∀ b ∈ pre, ¬EndedBefore b r) ∧
      EndedBefore batch r ∧ reqId ∈ batch.output.finishedReqIds ∧
      ∀ b ∈ post, reqId ∈ b.output.finishedReqIds →
        ∃ r', EndedBefore b r' ∧ ¬EndedBefore batch r' ∧
          (e.scheduler.objects r').requestId = reqId

theorem Announcing.announcedOnce {e : EngineCore} (h : Announcing e)
    (hr : r ∈ e.scheduler.freeRequestCalls) : AnnouncedOnce e r := by
  by_cases hex : ∃ b ∈ e.emitted, EndedBefore b r
  · obtain ⟨pre, b, post, heq, hb, hpre⟩ := exists_first hex
    refine .inr ⟨pre, b, post, heq, hpre, hb, ?_, fun b' hb' hx => ?_⟩
    · exact (h.emitted pre b post heq _).mpr ⟨r, hb, hpre, rfl⟩
    · obtain ⟨mid, last, rfl⟩ := append_of_mem hb'
      have heq' : e.emitted = (pre ++ b :: mid) ++ b' :: last := by
        rw [heq]
        simp
      obtain ⟨r', hr', hnot, hid⟩ := (h.emitted _ b' last heq' _).mp hx
      refine ⟨r', hr', hnot b ?_, hid⟩
      exact mem_append_right _ mem_cons_self
  · have hnone : ∀ b ∈ e.emitted, ¬EndedBefore b r := fun b hb hc => hex ⟨b, hb, hc⟩
    exact .inl ⟨hnone, (h.pending _).mpr ⟨r, hr, hnone, rfl⟩⟩

/-! ### Runs -/

/-- The invariant of the runs. -/
structure RequestInv (e : EngineCore) : Prop where
  conserved : Conserved e.scheduler []
  announcing : Announcing e

theorem requestInv_start {config : EngineConfig} {e : EngineCore}
    (h : start config = .ok e) : RequestInv e := by
  unfold start at h
  obtain ⟨k, -, h⟩ := bind_ok h
  cases h
  refine ⟨⟨?_, ?_, nodup_nil, ?_, ?_, ?_, ?_, nodup_nil, ?_, nodup_nil⟩,
    ?_, ?_, ?_⟩
  · intro reqId r hr
    cases hr
  · intro r hr
    exact absurd hr (Nat.not_lt_zero r)
  · intro r
    exact ⟨fun hr => absurd hr not_mem_nil, fun hr => absurd hr.1 (Nat.not_lt_zero r)⟩
  · intro r hr
    exact absurd hr not_mem_nil
  · intro r hr
    exact absurd hr not_mem_nil
  · intro r
    exact ⟨fun hr => absurd hr not_mem_nil, fun hr => absurd hr.1 (Nat.not_lt_zero r)⟩
  · intro r
    exact ⟨fun hr => absurd hr not_mem_nil, fun hr => absurd hr.1 not_mem_nil⟩
  · intro b hb
    exact absurd hb not_mem_nil
  · intro pre b post heq
    exact absurd heq.symm (append_ne_nil_of_right_ne_nil pre (cons_ne_nil b post))
  · intro x
    constructor
    · intro hx
      exact absurd hx not_mem_nil
    · rintro ⟨r, hr, -⟩
      exact absurd hr not_mem_nil

/-- A new request is added under an id that is not registered. -/
def FreshIds (e : EngineCore) : EngineOp → Prop
  | .addRequest args => e.scheduler.requests.get? args.requestId = none
  | _ => True

/-- No result is applied to a request that is finished and still registered. -/
def NoFinishedUpdate (e : EngineCore) : EngineOp → Prop
  | .updateFromOutput _ _ => ∀ batch ∈ e.batchQueue.head?,
      NoneFinished e.scheduler batch.output.numScheduledTokens.entries
  | _ => True

/-- A result has nothing for a request that is finished and still registered. -/
def QuietUpdate (e : EngineCore) : EngineOp → Prop
  | .updateFromOutput _ modelRunnerOutput => ∀ batch ∈ e.batchQueue.head?,
      NoneTouched e.scheduler modelRunnerOutput batch.output.numScheduledTokens.entries
  | _ => True

variable {op : EngineOp}

theorem NoFinishedUpdate.quiet {e : EngineCore} (h : NoFinishedUpdate e op) : QuietUpdate e op := by
  cases op with
  | updateFromOutput connector modelRunnerOutput =>
    exact fun batch hb => (h batch hb).noneTouched modelRunnerOutput
  | _ => trivial

/-- The connector of the operation lets the scheduler free the blocks at once. -/
def NoDelay : EngineOp → Prop
  | .updateFromOutput connector _ => NeverDelays connector
  | .finishRequests connector _ _ => NeverDelays connector
  | _ => True

/-- No connector takes part in the operation. -/
def NoConnector : EngineOp → Bool
  | .schedule connector _ => connector.isNone
  | .updateFromOutput connector _ => connector.isNone
  | .finishRequests connector _ _ => connector.isNone
  | _ => true

theorem NoConnector.noDelay (h : NoConnector op = true) : NoDelay op := by
  have hnone : ∀ connector : Option KVConnector, connector.isNone = true →
      NeverDelays connector := by
    intro connector hc k hk
    rw [Option.isNone_iff_eq_none.mp hc] at hk
    cases hk
  cases op with
  | updateFromOutput connector modelRunnerOutput => exact hnone connector h
  | finishRequests connector ids status => exact hnone connector h
  | _ => trivial

instance (s : Scheduler) (entries : List (String × Int)) :
    Decidable (NoneFinished s entries) :=
  inferInstanceAs (Decidable (∀ e ∈ entries, ∀ r ∈ s.requests.get? e.1,
    (s.objects r).isFinished = false))

instance (e : EngineCore) (op : EngineOp) : Decidable (FreshIds e op) :=
  match op with
  | .addRequest args =>
    inferInstanceAs (Decidable (e.scheduler.requests.get? args.requestId = none))
  | .updateFromOutput _ _ | .grammarReady _ | .schedule _ _ | .finishRequests _ _ _
  | .updateDraftTokenIds _ _ | .resetPrefixCache _ => inferInstanceAs (Decidable True)

instance (e : EngineCore) (op : EngineOp) : Decidable (NoFinishedUpdate e op) :=
  match op with
  | .updateFromOutput _ _ => inferInstanceAs (Decidable (∀ batch ∈ e.batchQueue.head?,
      NoneFinished e.scheduler batch.output.numScheduledTokens.entries))
  | .addRequest _ | .grammarReady _ | .schedule _ _ | .finishRequests _ _ _
  | .updateDraftTokenIds _ _ | .resetPrefixCache _ => inferInstanceAs (Decidable True)

/-- The status of a request that `Request.__init__` makes. -/
theorem init_isQueued {args : Request.InitArgs}
    {hasher : Option (Request → List BlockHash)} {request : Request}
    (h : Request.init args hasher = .ok request) :
    IsQueued request.status ∧ request.requestId = args.requestId := by
  unfold Request.init at h
  obtain ⟨⟨maxTokens, status⟩, hstatus, h⟩ := bind_ok h
  obtain ⟨n, -, h⟩ := bind_ok h
  cases h
  refine ⟨?_, rfl⟩
  show IsQueued status
  unfold Request.initMaxTokensAndStatus at hstatus
  split at hstatus
  · cases hstatus
    exact .inl rfl
  · cases hstatus
    split
    · exact .inr (.inl rfl)
    · exact .inl rfl
  · cases hstatus

/-- An operation beside `add_request` and `schedule` ends requests. -/
theorem RequestInv.ends {e : EngineCore} {s' : Scheduler} (h : RequestInv e)
    (hs : Conserved s' [] ∧ Ends connector e.scheduler s') (queue : List ScheduledBatch) :
    RequestInv { e with scheduler := s', batchQueue := queue } :=
  ⟨hs.1, h.announcing.ends hs.1.freed_nodup hs.2 queue⟩

theorem RequestInv.addRequest {e : EngineCore} {request : Request} (h : RequestInv e)
    (hfresh : e.scheduler.requests.get? request.requestId = none)
    (hq : IsQueued request.status) :
    RequestInv { e with scheduler := e.scheduler.addRequest request } := by
  refine ⟨addRequest_conserved h.conserved hfresh hq, h.announcing.known, ?_, ?_⟩
  all_goals
    have hids : ∀ r ∈ e.scheduler.freeRequestCalls,
        ((e.scheduler.addRequest request).objects r).requestId =
          (e.scheduler.objects r).requestId := by
      intro r hr
      have hlt := ((h.conserved.freed r).mp hr).1
      show (update e.scheduler.objects e.scheduler.numObjects request r).requestId = _
      rw [update_of_ne (Nat.ne_of_lt hlt)]
  · intro pre b post heq x
    have hmem : b ∈ e.emitted := by
      rw [show e.emitted = pre ++ b :: post from heq]
      exact mem_append_right _ mem_cons_self
    rw [h.announcing.emitted pre b post heq x]
    refine exists_congr fun r => and_congr_right fun hr => ?_
    rw [hids r (h.announcing.known b hmem r hr)]
  · intro x
    refine (h.announcing.pending x).trans (exists_congr fun r => and_congr_right fun hr => ?_)
    rw [hids r hr]

/-- Every operation keeps the invariant. -/
theorem requestInv_step {e e' : EngineCore} (h : RequestInv e) (hfresh : FreshIds e op)
    (hnone : QuietUpdate e op) (hstep : e.step op = .ok e') :
    RequestInv e' := by
  cases op with
  | addRequest args =>
    obtain ⟨request, hinit, hstep⟩ := bind_ok hstep
    cases hstep
    obtain ⟨hq, hid⟩ := init_isQueued hinit
    exact h.addRequest (hid ▸ hfresh) hq
  | grammarReady r =>
    cases hstep
    exact h.ends (modify_conserved none h.conserved rfl rfl) e.batchQueue
  | schedule connector ec =>
    obtain ⟨⟨out, s'⟩, hsched, hstep⟩ := bind_ok hstep
    cases hstep
    obtain ⟨hout, hfin, hcalls, hids⟩ := schedule_announces h.conserved hsched
    exact ⟨schedule_conserved h.conserved hsched,
      h.announcing.schedule hout hfin hcalls hids⟩
  | updateFromOutput connector modelRunnerOutput =>
    simp only [step] at hstep
    split at hstep
    · cases hstep
    · rename_i batch queue hqueue
      obtain ⟨⟨outs, s'⟩, hupd, hstep⟩ := bind_ok hstep
      cases hstep
      have hbatch : NoneTouched e.scheduler modelRunnerOutput
          batch.output.numScheduledTokens.entries := by
        refine hnone batch ?_
        rw [hqueue]
        rfl
      exact h.ends (updateFromOutput_conserved h.conserved hbatch hupd) queue
  | finishRequests connector ids status =>
    obtain ⟨s', hfin, hstep⟩ := bind_ok hstep
    cases hstep
    exact h.ends (finishRequests_conserved h.conserved hfin) e.batchQueue
  | updateDraftTokenIds validate drafts =>
    cases hstep
    exact h.ends (updateDraftTokenIds_conserved none validate drafts h.conserved) e.batchQueue
  | resetPrefixCache reset =>
    obtain ⟨⟨b, s'⟩, hreset, hstep⟩ := bind_ok hstep
    cases hstep
    exact h.ends (resetPrefixCache_conserved none h.conserved hreset) e.batchQueue

/-- The requests of a scheduler state: an unfinished one stands in one queue, once, with the
status of that queue; a finished one stands in none and was released once. -/
structure Accounted (s : Scheduler) : Prop where
  registered : ∀ r, r < s.numObjects → (s.objects r).isFinished = false →
    s.requests.get? (s.objects r).requestId = some r
  unfinished : ∀ reqId r, s.requests.get? reqId = some r → (s.objects r).isFinished = false →
    (s.waiting ++ s.running).count r = 1 ∧
      ((s.objects r).status = .running ↔ r ∈ s.running) ∧
      (IsQueued (s.objects r).status ↔ r ∈ s.waiting)
  finished : ∀ r, r < s.numObjects → (s.objects r).isFinished = true →
    r ∉ s.waiting ∧ r ∉ s.running ∧ s.freeRequestCalls.count r = 1 ∧
      s.freeBlocksCalls.count r = if s.requests.get? (s.objects r).requestId = some r then 0
        else 1

theorem accounted_of_conserved (h : Conserved s []) : Accounted s := by
  have hnodup : (s.waiting ++ s.running).Nodup := by
    have := h.nodup
    rwa [append_nil] at this
  have hqueued : ∀ r, r ∈ s.waiting ++ s.running ↔
      r < s.numObjects ∧ (s.objects r).isFinished = false := by
    intro r
    have := h.queued r
    rwa [append_nil] at this
  refine ⟨h.registered, fun reqId r hget hunf => ?_, fun r hlt hfin => ?_⟩
  · have hmem := (hqueued r).mpr ⟨(h.known reqId r hget).2, hunf⟩
    refine ⟨count_eq_one_of_mem hnodup hmem, ⟨fun hs => ?_, h.running r⟩,
      fun hq => ?_, h.waiting r⟩
    · exact (mem_append.mp hmem).resolve_left fun hw => (h.waiting r hw).ne_running hs
    · exact (mem_append.mp hmem).resolve_right fun hr => hq.ne_running (h.running r hr)
  · have hnot : r ∉ s.waiting ++ s.running := by
      intro hm
      rw [((hqueued r).mp hm).2] at hfin
      cases hfin
    have hcalled : r ∈ s.freeRequestCalls := (h.freed r).mpr ⟨hlt, hfin⟩
    refine ⟨fun hm => hnot (mem_append_left _ hm),
      fun hm => hnot (mem_append_right _ hm),
      count_eq_one_of_mem h.freed_nodup hcalled, ?_⟩
    split
    · rename_i hreg
      exact count_eq_zero_of_not_mem fun hm => ((h.released r).mp hm).2 hreg
    · rename_i hreg
      exact count_eq_one_of_mem h.released_nodup ((h.released r).mpr ⟨hcalled, hreg⟩)

/-- Without a connector that delays it, the blocks of every request are freed when it ends. -/
theorem blocksFreed_step {e e' : EngineCore} (h : RequestInv e)
    (hblocks : e.scheduler.freeBlocksCalls = e.scheduler.freeRequestCalls) (hdelay : NoDelay op)
    (hnone : NoFinishedUpdate e op) (hstep : e.step op = .ok e') :
    e'.scheduler.freeBlocksCalls = e'.scheduler.freeRequestCalls := by
  cases op with
  | addRequest args =>
    obtain ⟨request, hinit, hstep⟩ := bind_ok hstep
    cases hstep
    exact hblocks
  | grammarReady r =>
    cases hstep
    exact hblocks
  | schedule connector ec =>
    obtain ⟨⟨out, s'⟩, hsched, hstep⟩ := bind_ok hstep
    cases hstep
    obtain ⟨p, hloops, hfin⟩ := bind_ok hsched
    obtain ⟨hp, hshared⟩ := scheduleLoops_conserved h.conserved hloops
    have hf := finish_spec hp.knownIds hfin
    show s'.freeBlocksCalls = s'.freeRequestCalls
    rw [hf.frame.eq]
    show p.s.freeBlocksCalls = p.s.freeRequestCalls
    rw [hshared.freeBlocksCalls, hshared.freeRequestCalls, hblocks]
  | updateFromOutput connector modelRunnerOutput =>
    simp only [step] at hstep
    split at hstep
    · cases hstep
    · rename_i batch queue hqueue
      obtain ⟨⟨outs, s'⟩, hupd, hstep⟩ := bind_ok hstep
      cases hstep
      have hbatch : NoneFinished e.scheduler batch.output.numScheduledTokens.entries := by
        refine hnone batch ?_
        rw [hqueue]
        rfl
      exact (updateFromOutput_conserved h.conserved (hbatch.noneTouched _) hupd).2.blocks hdelay
        hblocks
  | finishRequests connector ids status =>
    obtain ⟨s', hfin, hstep⟩ := bind_ok hstep
    cases hstep
    exact (finishRequests_conserved h.conserved hfin).2.blocks hdelay hblocks
  | updateDraftTokenIds validate drafts =>
    cases hstep
    have hnever : NeverDelays none := fun k hk => nomatch hk
    exact (updateDraftTokenIds_conserved none validate drafts h.conserved).2.blocks hnever hblocks
  | resetPrefixCache reset =>
    obtain ⟨⟨b, s'⟩, hreset, hstep⟩ := bind_ok hstep
    cases hstep
    have hnever : NeverDelays none := fun k hk => nomatch hk
    exact (resetPrefixCache_conserved none h.conserved hreset).2.blocks hnever hblocks

/-- With all blocks freed, no finished request is registered. -/
theorem noFinishedUpdate_of_blocksFreed {e : EngineCore} (op : EngineOp) (h : RequestInv e)
    (hblocks : e.scheduler.freeBlocksCalls = e.scheduler.freeRequestCalls) :
    NoFinishedUpdate e op := by
  have hnone : ∀ entries, NoneFinished e.scheduler entries := by
    intro entries entry _ r hget
    by_contra hfin
    rw [Bool.not_eq_false] at hfin
    obtain ⟨hid, hlt⟩ := h.conserved.known entry.1 r hget
    have hcalled := (h.conserved.freed r).mpr ⟨hlt, hfin⟩
    refine ((h.conserved.released r).mp (hblocks ▸ hcalled)).2 ?_
    rw [hid]
    exact hget
  cases op with
  | updateFromOutput connector modelRunnerOutput => exact fun batch _ => hnone _
  | _ => trivial

/-- One request of two prompt tokens at a time, one token a step. -/
def oneTokenConfig : EngineConfig where
  scheduler := {
    maxNumRunningReqs := 1
    maxNumScheduledTokens := 1
    maxModelLen := 8
    blockSize := 2 }
  numGpuBlocks := 8
  kvCacheGroups := [.fullAttention 2]

/-- A request whose generation stops after `maxTokens` tokens. -/
def promptOfTwo (maxTokens : Nat) : Request.InitArgs where
  requestId := "a"
  promptTokenIds := some [1, 2]
  samplingParams := some { maxTokens }

/-- A connector that frees the blocks of every finished request later. -/
def delayingConnector : KVConnector where
  getNumNewMatchedTokens := fun _ _ => (some 0, false)
  requestFinished := fun _ _ => (true, false)

/-- The results of a worker: every request of a batch gets the tokens `tokens`. -/
def sampled (tokens : List Int) : ModelRunnerOutput where
  reqIds := ["a"]
  sampledTokenIds := fun _ => tokens

end Vllm.Proofs.Engine
