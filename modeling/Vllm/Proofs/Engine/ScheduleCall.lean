import Mathlib.Algebra.BigOperators.Group.List.Basic
import Vllm.Proofs.Engine.EncoderWorker

/-!
# `Vllm.Proofs.Engine.ScheduleCall`: the budget and the queues of `schedule`, in every run

Before it builds its output, `schedule` asserts that the batch is within the token budget, that
what is left of the budget is not negative, that no more requests run than may, and that no more
are scheduled than run. Under `FCFS` it puts skipped requests aside with `appendleft` and puts
them back with `extendleft(reversed(..))`, which leaves them in the opposite order.

* `PassEffect`, `passStep_effect`: what a step of the loops does to the budget and the queues.
* `Budgeted`: the entries and the rest of the budget are the limit. A preempted request gives
  back what its entry says.
* `runningLoop_left`: under `FCFS` nothing is given back, and no request takes more than is left.
* `checks_hold`, `queues_after`: the checks, and the queues under `FCFS`, in every call of every
  run.
-/

set_option autoImplicit false

namespace Vllm.Proofs.Engine

open Vllm.Lib Vllm.V1 Vllm.V1.Core Vllm.V1.Core.SchedulePass Vllm.V1.Engine Vllm.Proofs.Sched List

variable {connector : Option KVConnector} {ec : Option ECConnector} {p p' : SchedulePass}
  {s s' : Scheduler}

/-! ### The steps of the loops -/

/-- The queues stay as they are. -/
structure SameQueues (p p' : SchedulePass) : Prop where
  waiting : p'.s.waiting = p.s.waiting
  running : p'.s.running = p.s.running
  skipped : p'.skippedWaitingRequests = p.skippedWaitingRequests
  preempted : p'.preemptedReqs = p.preemptedReqs

/-- The budget stays as it is. -/
def SameBudget (p p' : SchedulePass) : Prop :=
  p'.tokenBudget = p.tokenBudget ∧ p'.numScheduledTokens = p.numScheduledTokens

/-- A request without an entry gets one, of `n` tokens. -/
structure Enters (p p' : SchedulePass) (r : ReqRef) (n : Int) : Prop where
  fresh : r ∉ scheduled p
  budget : p'.tokenBudget = p.tokenBudget - n
  entry : p'.numScheduledTokens = p.numScheduledTokens.insert (p.s.objects r).requestId n

/-- What a step of `schedule` does to the queues and to the budget. -/
inductive PassEffect (p p' : SchedulePass) : Phase → Prop where
  | still {phase : Phase} (hq : SameQueues p p') (hb : SameBudget p p') : PassEffect p p' phase
  | preempt (victim : ReqRef) (hlen : p'.s.running.length ≤ p.s.running.length)
      (hfcfs : p.s.config.policy = .fcfs → p.s.running = p'.s.running ++ [victim] ∧
        p'.s.waiting = victim :: p.s.waiting)
      (hskip : p'.skippedWaitingRequests = p.skippedWaitingRequests)
      (hpre : p'.preemptedReqs = p.preemptedReqs ++ [victim])
      (hb : SameBudget p p' ∨ ∃ reqId n, p.numScheduledTokens.get? reqId = some n ∧
        p'.tokenBudget = p.tokenBudget + n ∧
        p'.numScheduledTokens = p.numScheduledTokens.erase reqId) : PassEffect p p' .running
  | run (r : ReqRef) (n : Int) (hr : r ∈ p.s.running) (hq : SameQueues p p')
      (henter : Enters p p' r n) : PassEffect p p' .running
  | skip (r : ReqRef) (hw : p.s.waiting = r :: p'.s.waiting)
      (hrun : p'.s.running = p.s.running)
      (hskip : p'.skippedWaitingRequests =
        p.s.config.policy.prependRequest p.s.lt p.skippedWaitingRequests r)
      (hb : SameBudget p p') : PassEffect p p' .waiting
  | start (r : ReqRef) (n : Int) (hw : p.s.waiting = r :: p'.s.waiting)
      (hrun : p'.s.running = p.s.running ++ [r])
      (hskip : p'.skippedWaitingRequests = p.skippedWaitingRequests)
      (hn : n ≤ p.tokenBudget) (hroom : HasRoom p.s)
      (henter : Enters p p' r n) : PassEffect p p' .waiting

theorem passStep_effect {phase : Phase} (hd : Distinct p) (hl : Listed p)
    (hstep : PassStep connector ec phase p p') : PassEffect p p' phase := by
  have hhead : ∀ r rest, p.s.waiting = r :: rest → r ∉ scheduled p := fun r rest hw hr =>
    hd.head_not_running hw (hl.running r hr)
  cases hstep with
  | planEncoder hplan =>
    obtain ⟨e, rfl, -⟩ := tryScheduleEncoderInputs_cases hplan
    exact .still ⟨rfl, rfl, rfl, rfl⟩ ⟨rfl, rfl⟩
  | nextIndex | runFail _ _ _ | grammarReady _ _ | matched _ | admitFail _ _ _ =>
    exact .still ⟨rfl, rfl, rfl, rfl⟩ ⟨rfl, rfl⟩
  | @preempt _ p1 s1 victim _ _ hpop hpre =>
    obtain ⟨-, k, e, -, -, rfl⟩ := preemptRequest_cases hpre
    have hlen : (p.s.running.erase victim).length ≤ p.s.running.length := length_erase_le
    obtain ⟨-, ⟨hp, -, rfl⟩ | ⟨hp, -, n, m, hn, -, rfl⟩ | ⟨hp, hlast, rfl⟩⟩ :=
      popLowest_cases hpop
    · exact .preempt victim hlen (fun hf => nomatch hp.symm.trans hf) rfl rfl (.inl ⟨rfl, rfl⟩)
    · -- The victim was scheduled in this call: its tokens go back.
      exact .preempt victim hlen (fun hf => nomatch hp.symm.trans hf) rfl rfl
        (.inr ⟨_, n, hn, rfl, rfl⟩)
    · refine .preempt victim (length_dropLast.trans_le (Nat.sub_le _ _)) (fun _ => ⟨?_, ?_⟩)
        rfl rfl (.inl ⟨rfl, rfl⟩)
      · obtain ⟨l, hl⟩ := List.getLast?_eq_some_iff.mp hlast
        show p.s.running = p.s.running.dropLast ++ [victim]
        rw [hl, dropLast_concat]
      · show p.s.config.policy.prependRequest _ p.s.waiting victim = _
        rw [hp]
        rfl
  | @run _ _ r n newBlocks k plan hphase hr hnew _ _ _ _ _ _ _ htake =>
    obtain ⟨d, hspec⟩ := takeSpecTokens_cases
      ({ p with s.kvCacheManager := k }.markScheduled r newBlocks n) r n
    rw [hspec] at htake
    obtain ⟨e, inputs, budget, -, -, rfl⟩ := takeEncoderInputs_cases htake
    refine .run r n hr ⟨rfl, rfl, rfl, rfl⟩ ⟨?_, rfl, rfl⟩
    unfold scheduled
    rw [hphase.1, hphase.2, append_nil, append_nil]
    exact hnew
  | recordLoras hlora =>
    obtain ⟨loras, rfl⟩ := recordLoras_cases hlora
    exact .still ⟨rfl, rfl, rfl, rfl⟩ ⟨rfl, rfl⟩
  | @skip _ r rest hw | @awaitRemote _ r rest _ _ _ hw _ _ _ _ =>
    exact .skip r (hw.trans (congrArg (r :: ·.tail) hw.symm)) rfl rfl ⟨rfl, rfl⟩
  | remoteReady _ _ hready =>
    obtain ⟨k, ids, failed, c, rfl⟩ := updateWaitingForRemoteKv_cases hready
    exact .still ⟨rfl, rfl, rfl, rfl⟩ ⟨rfl, rfl⟩
  | @admitNew _ _ r rest t n newBlocks k plan hw _ _ _ hn hroom _ _ _ _ _ _ htake
  | @admitResumed _ _ r rest t n newBlocks k plan hw _ _ _ hn hroom _ _ _ _ _ _ htake =>
    have heq : admitted p r rest k t.numComputedTokens n = _ := markRunning_eq _ _ _ _
    rw [heq] at htake
    obtain ⟨e, inputs, budget, -, -, rfl⟩ := takeEncoderInputs_cases htake
    exact .start r n hw rfl rfl hn hroom ⟨hhead r rest hw, rfl, rfl⟩

/-! ### The budget -/

/-- The tokens of a call and what is left are the limit together, and the running requests are
not too many. -/
structure Budgeted (p : SchedulePass) : Prop where
  total : p.tokenBudget + p.numScheduledTokens.values.sum = p.s.config.maxNumScheduledTokens
  room : p.s.running.length ≤ p.s.config.maxNumRunningReqs

/-- A request gets an entry, and its tokens are taken from the budget. -/
theorem Budgeted.total_enters {r : ReqRef} {n : Int} (hd : Distinct p) (hl : Listed p)
    (h : Budgeted p) (hr : r ∈ queued p) (henter : Enters p p' r n) :
    p'.tokenBudget + p'.numScheduledTokens.values.sum = p.s.config.maxNumScheduledTokens := by
  -- The ids are distinct, so that no other request has an entry under this one.
  have hnone : (p.s.objects r).requestId ∉ p.numScheduledTokens.keys := by
    refine (PyDict.get?_eq_none_iff _ _).mp (Option.not_isSome_iff_eq_none.mp fun hsome => ?_)
    obtain ⟨x, hx, hid⟩ := (hl.tokens _).mp hsome
    exact henter.fresh (hd.ids x (mem_append_right _ (hl.running x hx)) r hr hid ▸ hx)
  have hsum : (p.numScheduledTokens.insert (p.s.objects r).requestId n).values.sum =
      p.numScheduledTokens.values.sum + n := by
    show ((p.numScheduledTokens.insert _ n).entries.map Prod.snd).sum = _
    rw [PyDict.entries_insert_of_not_mem n hnone, map_append, sum_append]
    exact congrArg _ (Int.add_zero n)
  have htotal := h.total
  rw [henter.budget, henter.entry, hsum]
  omega

theorem Budgeted.step {phase : Phase} (hd : Distinct p) (hl : Listed p) (h : Budgeted p)
    (hstep : PassStep connector ec phase p p') : Budgeted p' := by
  have hconfig := (passStep_move hd.running_nodup hstep).1.config
  have htotal := h.total
  have hroom := h.room
  cases passStep_effect hd hl hstep with
  | still hq hb => exact ⟨by rw [hb.1, hb.2, hconfig, htotal], by rwa [hq.running, hconfig]⟩
  | preempt victim hlen hfcfs hskip hpre hb =>
    refine ⟨?_, by rw [hconfig]; exact hlen.trans hroom⟩
    obtain hb | ⟨reqId, n, hentry, hbudget, herase⟩ := hb
    · rw [hb.1, hb.2, hconfig, htotal]
    · -- The entry leaves the sum, and its tokens return to the budget.
      have hsum := (PyDict.values_perm_erase hentry).sum_eq
      rw [sum_cons] at hsum
      rw [hbudget, herase, hconfig]
      omega
  | run r n hr hq henter =>
    refine ⟨?_, by rwa [hq.running, hconfig]⟩
    rw [hconfig]
    exact h.total_enters hd hl (mem_append_right _ hr) henter
  | skip r hw hrun hskip hb => exact ⟨by rw [hb.1, hb.2, hconfig, htotal], by rwa [hrun, hconfig]⟩
  | start r n hw hrun hskip hn hmore henter =>
    have hqueued : r ∈ queued p := mem_append_left _ (mem_append_left _ (hw ▸ .head _))
    refine ⟨?_, ?_⟩
    · rw [hconfig]
      exact h.total_enters hd hl hqueued henter
    · unfold HasRoom at hmore
      rw [hrun, hconfig, length_append, length_singleton]
      omega

/-- A step of the waiting loop takes no more than is left. -/
theorem waitingStep_left (hd : Distinct p) (hl : Listed p) (h : 0 ≤ p.tokenBudget)
    (hstep : PassStep connector ec .waiting p p') : 0 ≤ p'.tokenBudget := by
  cases passStep_effect hd hl hstep with
  | still hq hb => rwa [hb.1]
  | skip r hw hrun hskip hb => rwa [hb.1]
  | start r n hw hrun hskip hn hmore henter =>
    rw [henter.budget]
    exact Int.sub_nonneg.mpr hn

/-! ### The running requests under `FCFS` -/

/-- Preempting the last request gives nothing back. -/
theorem allocateLoop_left {r : ReqRef} {n : Int} {fuel : Nat} {newBlocks : Option KVCacheBlocks}
    (hpolicy : p.s.config.policy = .fcfs) (h : allocateLoop r n fuel p = .ok (newBlocks, p')) :
    p'.tokenBudget = p.tokenBudget ∧ p'.s.config = p.s.config := by
  induction fuel generalizing p with
  | zero => cases h
  | succ fuel ih =>
    unfold allocateLoop at h
    obtain ⟨⟨blocks, k⟩, -, h⟩ := bind_ok h
    dsimp only at h
    split at h
    · cases h
      exact ⟨rfl, rfl⟩
    · obtain ⟨⟨victim, p1⟩, hpop, h⟩ := bind_ok h
      obtain ⟨s1, hpre, h⟩ := bind_ok h
      obtain ⟨-, k', e, -, -, rfl⟩ := preemptRequest_cases hpre
      obtain ⟨-, ⟨hp, -⟩ | ⟨hp, -⟩ | ⟨-, -, rfl⟩⟩ := popLowest_cases hpop
      -- The first two are the victims of the priority policy.
      · cases hp.symm.trans hpolicy
      · cases hp.symm.trans hpolicy
      · dsimp only at h
        split at h
        · cases h
          exact ⟨rfl, rfl⟩
        · have hrest := ih (by exact hpolicy) h
          exact hrest

/-- A running request takes no more than is left. -/
theorem runningStep_left {r : ReqRef} {go : Bool} (hpolicy : p.s.config.policy = .fcfs)
    (hleft : 0 ≤ p.tokenBudget) (h : runningStep ec r p = .ok (go, p')) :
    0 ≤ p'.tokenBudget ∧ p'.s.config = p.s.config := by
  unfold runningStep at h
  dsimp only at h
  split at h
  · cases h
    exact ⟨hleft, rfl⟩
  · obtain ⟨⟨plan, s⟩, hplan, h⟩ := bind_ok h
    obtain ⟨e, rfl, -, hle, -⟩ := tryScheduleEncoderInputs_cases hplan
    dsimp only at h
    split at h
    · cases h
      exact ⟨hleft, rfl⟩
    · rename_i hn
      obtain ⟨⟨blocks, p2⟩, halloc, h⟩ := bind_ok h
      obtain ⟨hbudget, hconfig⟩ := allocateLoop_left
        (p := { p with s.encoderCacheManager := e }) hpolicy halloc
      cases blocks with
      | none =>
        cases h
        exact ⟨hbudget ▸ hleft, hconfig⟩
      | some blocks =>
        obtain ⟨p3, hrun, h⟩ := bind_ok h
        cases h
        unfold scheduleRunning at hrun
        obtain ⟨d, hspec⟩ := takeSpecTokens_cases
          (p2.markScheduled r blocks plan.numNewTokens) r plan.numNewTokens
        rw [hspec] at hrun
        obtain ⟨e', inputs, budget, -, -, rfl⟩ := takeEncoderInputs_cases hrun
        refine ⟨?_, hconfig⟩
        -- The encoder inputs only lower what the budget allows.
        have hcap : p.numNewRunningTokens (p.s.objects r) ≤ p.tokenBudget := by
          unfold numNewRunningTokens
          dsimp only
          omega
        have hfit := (hle.resolve_right hn).trans hcap
        show 0 ≤ p2.tokenBudget - plan.numNewTokens
        rw [hbudget]
        exact Int.sub_nonneg.mpr hfit

theorem runningLoop_left {fuel : Nat} (hpolicy : p.s.config.policy = .fcfs)
    (hleft : 0 ≤ p.tokenBudget) (h : runningLoop ec fuel p = .ok p') : 0 ≤ p'.tokenBudget := by
  induction fuel generalizing p with
  | zero =>
    cases h
    exact hleft
  | succ fuel ih =>
    unfold runningLoop at h
    split at h
    · cases h
      exact hleft
    · split at h
      · cases h
        exact hleft
      · obtain ⟨⟨go, p1⟩, hstep, h⟩ := bind_ok h
        obtain ⟨hleft1, hconfig⟩ := runningStep_left hpolicy hleft hstep
        dsimp only at h
        split at h
        · exact ih (hconfig ▸ hpolicy) hleft1 h
        · cases h
          exact hleft1

/-! ### The checks -/

/-- What `schedule` checks of the result of its loops: the batch and what is left make up the
limit, there are not too many running requests, those with an entry are distinct running
requests, and under `FCFS` the budget is not overdrawn. -/
structure Checked (p : SchedulePass) : Prop extends Budgeted p, Listed p where
  left : p.s.config.policy = .fcfs → 0 ≤ p.s.config.maxNumScheduledTokens → 0 ≤ p.tokenBudget

/-- What every step of a loop keeps, from distinct queues. -/
theorem steps_invariant {phase : Phase} (hd : Distinct p) (hl : Listed p)
    (hsteps : PhaseSteps connector ec phase p p') (Inv : SchedulePass → Prop) (h0 : Inv p)
    (hstep : ∀ q q', Distinct q → Listed q → Inv q → PassStep connector ec phase q q' → Inv q') :
    Inv p' := by
  induction hsteps with
  | refl => exact h0
  | tail hbefore hlast ih =>
    have hto := PhaseSteps.passSteps hbefore
    exact hstep _ _ (hd.of_steps hto) (listed_of_steps hd hl hto) ih hlast

/-- The two loops of a call, from distinct queues. -/
theorem scheduleLoops_phases (hq : QueueInv s) (hids : DistinctIds s)
    (h : s.scheduleLoops connector ec = .ok p) : ∃ p1 p2 p3,
      runningLoop ec s.running.length (startPass s) = .ok p1 ∧ p2.tokenBudget = p1.tokenBudget ∧
      PhaseSteps connector ec .running (startPass s) p2 ∧
      PhaseSteps connector ec .waiting p2 p3 ∧ (p2.preemptedReqs ≠ [] → p3 = p2) ∧
      Distinct p2 ∧ Listed p2 ∧ Listed p3 ∧ p3.s.config = s.config ∧ p = p3.putBackSkipped := by
  obtain ⟨p1, p2, p3, hrun, hsteps, -, hlora, hwait, hstop, rfl⟩ :=
    scheduleLoops_cases hq.running_nodup h
  have hd := distinct_startPass hq hids
  have hto := PhaseSteps.passSteps (hsteps.tail (.recordLoras hlora))
  have hto3 := hto.trans hwait.passSteps
  have hl := listed_startPass s
  refine ⟨p1, p2, p3, hrun, ?_, hsteps.tail (.recordLoras hlora), hwait, fun hp => hstop (.inl hp),
    hd.of_steps hto, listed_of_steps hd hl hto, listed_of_steps hd hl hto3,
    (shared_of_steps (queued_startPass ▸ hq.nodup) hto3).2.config, rfl⟩
  obtain ⟨loras, rfl⟩ := recordLoras_cases hlora
  rfl

theorem scheduleLoops_checked (hq : QueueInv s) (hids : DistinctIds s)
    (hroom : s.running.length ≤ s.config.maxNumRunningReqs)
    (h : s.scheduleLoops connector ec = .ok p) : Checked p := by
  obtain ⟨p1, p2, p3, hrun, hsame, hsteps, hwait, -, hd, hl, hl3, hconfig, rfl⟩ :=
    scheduleLoops_phases hq hids h
  have hbudgeted : Budgeted p2 := steps_invariant (distinct_startPass hq hids)
    (listed_startPass s) hsteps Budgeted ⟨Int.add_zero _, hroom⟩ fun _ _ => .step
  have hbudgeted3 : Budgeted p3 := steps_invariant hd hl hwait Budgeted hbudgeted fun _ _ => .step
  refine ⟨⟨hbudgeted3.total, hbudgeted3.room⟩,
    hl3.same rfl (fun _ _ hr => hr) (fun _ => rfl) rfl rfl, fun hpolicy hmax => ?_⟩
  have hmax' : 0 ≤ s.config.maxNumScheduledTokens := hconfig ▸ hmax
  have hleft := runningLoop_left (p := startPass s) (hconfig ▸ hpolicy) hmax' hrun
  exact steps_invariant hd hl hwait (0 ≤ ·.tokenBudget) (hsame ▸ hleft) fun _ _ => waitingStep_left

/-! ### The waiting queue under `FCFS` -/

/-- What the running loop does to the queues of `s`: the last running requests are preempted, and
stand at the head of the waiting queue in their order. -/
structure Preempting (s : Scheduler) (p : SchedulePass) : Prop where
  running : s.running = p.s.running ++ p.preemptedReqs.reverse
  waiting : p.s.waiting = p.preemptedReqs.reverse ++ s.waiting
  skipped : p.skippedWaitingRequests = []
  policy : p.s.config.policy = .fcfs

theorem Preempting.step (hd : Distinct p) (hl : Listed p) (h : Preempting s p)
    (hstep : PassStep connector ec .running p p') : Preempting s p' := by
  have hpolicy : p'.s.config.policy = .fcfs :=
    (passStep_move hd.running_nodup hstep).1.config ▸ h.policy
  cases passStep_effect hd hl hstep with
  | still hq hb | run _ _ _ hq _ =>
    exact ⟨by rw [hq.running, hq.preempted, h.running], by rw [hq.waiting, hq.preempted, h.waiting],
      hq.skipped.trans h.skipped, hpolicy⟩
  | preempt victim hlen hfcfs hskip hpre hb =>
    obtain ⟨hrun, hwait⟩ := hfcfs h.policy
    refine ⟨?_, ?_, hskip.trans h.skipped, hpolicy⟩
    · rw [h.running, hrun, hpre]
      simp
    · rw [hwait, h.waiting, hpre]
      simp

/-- What the waiting loop does to the queues of `s`: of the requests it has looked at, some run,
and the others are put aside in the opposite order. -/
structure Admitting (s : Scheduler) (p : SchedulePass) (seen : List ReqRef) : Prop where
  waiting : s.waiting = seen ++ p.s.waiting
  running : p.s.running = s.running ++ seen.filter (· ∈ p.s.running)
  skipped : p.skippedWaitingRequests = (seen.filter (· ∉ p.s.running)).reverse
  policy : p.s.config.policy = .fcfs

theorem Admitting.step (hnodup : s.waiting.Nodup) (hd : Distinct p) (hl : Listed p)
    (h : ∃ seen, Admitting s p seen) (hstep : PassStep connector ec .waiting p p') :
    ∃ seen, Admitting s p' seen := by
  obtain ⟨seen, h⟩ := h
  have hpolicy : p'.s.config.policy = .fcfs :=
    (passStep_move hd.running_nodup hstep).1.config ▸ h.policy
  cases passStep_effect hd hl hstep with
  | still hq hb =>
    refine ⟨seen, by rw [h.waiting, hq.waiting], ?_, ?_, hpolicy⟩
    · rw [hq.running]
      exact h.running
    · rw [hq.running, hq.skipped]
      exact h.skipped
  | skip r hw hrun hskip hb =>
    have hr := hd.head_not_running hw
    refine ⟨seen ++ [r], ?_, ?_, ?_, hpolicy⟩
    · rw [h.waiting, hw, append_assoc, singleton_append]
    · rw [hrun, filter_append]
      simpa [hr] using h.running
    · rw [hskip, h.policy, h.skipped, hrun, filter_append]
      simp [hr, SchedulingPolicy.prependRequest]
  | start r n hw hrun hskip hn hroom henter =>
    have hr := hd.head_not_running hw
    -- The requests before this one are other ones.
    have hmem : ∀ x ∈ seen, (x ∈ p.s.running ++ [r] ↔ x ∈ p.s.running) := by
      intro x hx
      rw [h.waiting, hw] at hnodup
      have hne : x ≠ r := (nodup_append.mp hnodup).2.2 x hx r mem_cons_self
      simp [hne]
    have hin : seen.filter (· ∈ p.s.running ++ [r]) = seen.filter (· ∈ p.s.running) :=
      filter_congr fun x hx => decide_eq_decide.mpr (hmem x hx)
    have hout : seen.filter (· ∉ p.s.running ++ [r]) = seen.filter (· ∉ p.s.running) :=
      filter_congr fun x hx => decide_eq_decide.mpr (not_congr (hmem x hx))
    refine ⟨seen ++ [r], ?_, ?_, ?_, hpolicy⟩
    · rw [h.waiting, hw, append_assoc, singleton_append]
    · rw [hrun, filter_append, hin, ← append_assoc, ← h.running]
      simp
    · rw [hskip, h.skipped, hrun, filter_append, hout]
      simp

/-- The queues after `schedule`. Either the last running requests go to the head of the waiting
queue in their order; or the waiting requests that were looked at run in their order, and those
of them that were skipped come back in the opposite order. -/
def QueuesAfter (s s' : Scheduler) : Prop :=
  (∃ back, back ≠ [] ∧ s.running = s'.running ++ back ∧ s'.waiting = back ++ s.waiting) ∨
    ∃ seen rest, s.waiting = seen ++ rest ∧
      s'.running = s.running ++ seen.filter (· ∈ s'.running) ∧
      s'.waiting = (seen.filter (· ∉ s'.running)).reverse ++ rest

theorem scheduleLoops_queues (hpolicy : s.config.policy = .fcfs) (hq : QueueInv s)
    (hids : DistinctIds s) (h : s.scheduleLoops connector ec = .ok p) : QueuesAfter s p.s := by
  obtain ⟨p1, p2, p3, -, -, hsteps, hwait, hstop, hd, hl, -, -, rfl⟩ :=
    scheduleLoops_phases hq hids h
  have hpre : Preempting s p2 := steps_invariant (distinct_startPass hq hids)
    (listed_startPass s) hsteps (Preempting s) ⟨(append_nil _).symm, rfl, rfl, hpolicy⟩
    fun _ _ => .step
  have hback : ∀ q : SchedulePass, q.s.config.policy = .fcfs →
      q.putBackSkipped.s.waiting = q.skippedWaitingRequests ++ q.s.waiting := by
    intro q hq
    show q.s.config.policy.prependRequests q.s.lt q.s.waiting q.skippedWaitingRequests = _
    rw [hq]
    rfl
  -- No waiting request is looked at after a preemption.
  by_cases hnone : p2.preemptedReqs = []
  · have hstart : Admitting s p2 [] := by
      refine ⟨?_, ?_, hpre.skipped, hpre.policy⟩
      · rw [hpre.waiting, hnone]
        rfl
      · rw [hpre.running, hnone]
        simp
    obtain ⟨seen, hseen⟩ := steps_invariant hd hl hwait (fun p => ∃ seen, Admitting s p seen)
      ⟨[], hstart⟩ fun _ _ => Admitting.step (nodup_append.mp hq.nodup).1
    refine .inr ⟨seen, p3.s.waiting, hseen.waiting, hseen.running, ?_⟩
    rw [hback p3 hseen.policy, hseen.skipped]
    rfl
  · obtain rfl := hstop hnone
    refine .inl ⟨_, mt reverse_eq_nil_iff.mp hnone, hpre.running, ?_⟩
    rw [hback p3 hpre.policy, hpre.skipped, hpre.waiting]
    rfl

/-! ### Runs -/

variable {config : EngineConfig} {e₀ e e' : EngineCore}

theorem queues_of_run (hstart : EngineCore.start config = .ok e₀)
    (hrun : Run EngineCore.step NewIds e₀ e) : QueueInv e.scheduler ∧ DistinctIds e.scheduler ∧
      e.scheduler.running.length ≤ e.scheduler.config.maxNumRunningReqs := by
  refine hrun.invariant (fun e => QueueInv e.scheduler ∧ DistinctIds e.scheduler ∧
    e.scheduler.running.length ≤ e.scheduler.config.maxNumRunningReqs) ?_ ?_
  · refine ⟨queueInv_start hstart, ?_⟩
    obtain ⟨k, rfl⟩ := start_scheduler hstart
    exact ⟨fun r hr => absurd hr not_mem_nil, Nat.zero_le _⟩
  · rintro e op e' ⟨hq, hids, hroom⟩ hnew hstep
    refine ⟨queueInv_step hq hstep, distinctIds_step hq hids hnew hstep, ?_⟩
    cases step_effect hstep with
    | add args request hinit heq =>
      subst heq
      exact hroom
    | schedule connector ec out s hsched heq =>
      -- The loops keep the bound, and the end of the call keeps the queues.
      subst heq
      obtain ⟨p, hloops, -, -, hfin, -⟩ := schedule_queueInv hq hsched
      show s.running.length ≤ s.config.maxNumRunningReqs
      rw [hfin.frame.eq]
      exact (scheduleLoops_checked hq hids hroom hloops).room
    | keeps _ hkeeps _ =>
      rw [hkeeps.config]
      exact hkeeps.running.length_le.trans hroom

/-- The checks hold in every call of `schedule` of every run, whatever the connectors answer. -/
theorem checks_hold (hstart : EngineCore.start config = .ok e₀)
    (hrun : Run EngineCore.step NewIds e₀ e)
    (h : e.scheduler.scheduleLoops connector ec = .ok p) : Checked p := by
  obtain ⟨hq, hids, hroom⟩ := queues_of_run hstart hrun
  exact scheduleLoops_checked hq hids hroom h

/-- Blocks for two requests, under `FCFS`. -/
def fcfsConfig : EngineConfig :=
  { chunkConfig 8 with scheduler.policy := .fcfs }

/-- Two requests run: the checks hold. -/
theorem checks_hold_two : ∃ (e₀ e : EngineCore) (p : SchedulePass),
    EngineCore.start fcfsConfig = .ok e₀ ∧ Run EngineCore.step NewIds e₀ e ∧
      e.scheduler.scheduleLoops none none = .ok p ∧
      p.s.running.length = 2 ∧ Checked p := by
  obtain ⟨e₀, e, hstart, hrun, hloops⟩ := exists_run_of_check EngineCore.step NewIds
    (fun e => (e.scheduler.scheduleLoops none none).toOption.map (·.s.running.length) = some 2)
    (EngineCore.start fcfsConfig) (chunkOps.take 4) (by decide +kernel)
  cases hp : e.scheduler.scheduleLoops none none with
  | error _ =>
    rw [hp] at hloops
    cases hloops
  | ok p =>
    rw [hp] at hloops
    exact ⟨e₀, e, p, hstart, hrun, hp, Option.some.inj hloops, checks_hold hstart hrun hp⟩

/-- The queues after every call of `schedule` of every run under `FCFS`. -/
theorem queues_after (hstart : EngineCore.start config = .ok e₀)
    (hrun : Run EngineCore.step NewIds e₀ e) (hpolicy : e.scheduler.config.policy = .fcfs)
    (h : e.step (.schedule connector ec) = .ok e') : QueuesAfter e.scheduler e'.scheduler := by
  obtain ⟨hq, hids, -⟩ := queues_of_run hstart hrun
  obtain ⟨⟨out, s⟩, hsched, h⟩ := bind_ok h
  cases h
  obtain ⟨p, hloops, -, -, hfin, -⟩ := schedule_queueInv hq hsched
  have hqueues := scheduleLoops_queues hpolicy hq hids hloops
  unfold QueuesAfter at hqueues ⊢
  dsimp only
  rw [hfin.frame.eq]
  exact hqueues

/-- The first two requests wait for their grammars and come back in the opposite order. -/
theorem queues_after_skips : ∃ e₀ e e' : EngineCore,
    EngineCore.start fcfsConfig = .ok e₀ ∧
      Run EngineCore.step NewIds e₀ e ∧ e.step (.schedule none none) = .ok e' ∧
      e.scheduler.waiting = [0, 1, 2] ∧ e'.scheduler.waiting = [1, 0] ∧
      QueuesAfter e.scheduler e'.scheduler := by
  let structured (requestId : String) : EngineOp := .addRequest { shortPrompt with
    requestId, structuredOutputRequest := some {} }
  obtain ⟨e₀, e, hstart, hrun, hpolicy, hwait, hstep⟩ := exists_run_of_check EngineCore.step NewIds
    (fun e => e.scheduler.config.policy = .fcfs ∧ e.scheduler.waiting = [0, 1, 2] ∧
      (e.step (.schedule none none)).toOption.map (·.scheduler.waiting) = some [1, 0])
    (EngineCore.start fcfsConfig)
    [structured "b", structured "c", .addRequest shortPrompt] (by decide +kernel)
  cases he : e.step (.schedule none none) with
  | error _ =>
    rw [he] at hstep
    cases hstep
  | ok e' =>
    rw [he] at hstep
    exact ⟨e₀, e, e', hstart, hrun, he, hwait, Option.some.inj hstep,
      queues_after hstart hrun hpolicy he⟩

end Vllm.Proofs.Engine
