import Mathlib.Data.List.Perm.Subperm
import Vllm.Proofs.Sched.Requests

/-!
# `Vllm.Proofs.Sched.Queues`: what the methods beside `schedule` leave alone

The methods other than `schedule` and `add_request` start no request. They take requests out of
the queues or move them to the waiting queue, and the encoder cache only loses references.

* `Keeps s s'`: the frame of such a method, whatever the state it starts in.
* `QueueInv`: no request stands in the queues twice. Unlike `Conserved` it needs no condition
  on the operations.
* `schedule_queueInv`: `schedule` keeps it.
-/

set_option autoImplicit false

namespace Vllm.Proofs.Sched

open Vllm.Lib Vllm.V1 Vllm.V1.Core Function

/-- A method that starts no request. -/
structure Keeps (s s' : Scheduler) : Prop where
  config : s'.config = s.config
  numObjects : s'.numObjects = s.numObjects
  inputs : ∀ r, SameInputs (s'.objects r) (s.objects r)
  loras : ∀ r, (s'.objects r).loraRequest = (s.objects r).loraRequest
  requests : ∀ reqId r, s'.requests.get? reqId = some r → s.requests.get? reqId = some r
  queues : (s'.waiting ++ s'.running).Subperm (s.waiting ++ s.running)
  running : s'.running.Sublist s.running
  encoder : FreeSteps s s.encoderCacheManager s'.encoderCacheManager

namespace Keeps

variable {s s' s'' : Scheduler}

theorem refl (s : Scheduler) : Keeps s s :=
  ⟨rfl, rfl, fun _ => ⟨rfl, rfl⟩, fun _ => rfl, fun _ _ h => h, .refl _, .refl _, .refl⟩

theorem trans (h : Keeps s s') (h' : Keeps s' s'') : Keeps s s'' where
  config := h'.config.trans h.config
  numObjects := h'.numObjects.trans h.numObjects
  inputs r := ⟨(h'.inputs r).1.trans (h.inputs r).1, (h'.inputs r).2.trans (h.inputs r).2⟩
  loras r := (h'.loras r).trans (h.loras r)
  requests reqId r hr := h.requests reqId r (h'.requests reqId r hr)
  queues := h'.queues.trans h.queues
  running := h'.running.trans h.running
  encoder := h.encoder.trans (h'.encoder.of_sameInputs h.inputs)

/-- A change of one request object that keeps its inputs, and of the block tables. -/
theorem of_update {r : ReqRef} {q : Request} {k : KVCacheManager}
    (hq : SameInputs q (s.objects r)) (hlora : q.loraRequest = (s.objects r).loraRequest) :
    Keeps s { s with objects := update s.objects r q, kvCacheManager := k } := by
  refine ⟨rfl, rfl, fun r' => ?_, fun r' => ?_, fun _ _ h => h, .refl _, .refl _, .refl⟩
  · show SameInputs (update s.objects r q r') (s.objects r')
    by_cases hr : r' = r
    · rw [hr, update_self]
      exact hq
    · rw [update_of_ne hr]
      exact ⟨rfl, rfl⟩
  · show (update s.objects r q r').loraRequest = _
    by_cases hr : r' = r
    · rw [hr, update_self]
      exact hlora
    · rw [update_of_ne hr]

/-- Requests leave the queues. -/
theorem of_sublist {waiting running : List ReqRef} (hw : waiting.Sublist s.waiting)
    (hr : running.Sublist s.running) :
    Keeps s { s with waiting := waiting, running := running } :=
  ⟨rfl, rfl, fun _ => ⟨rfl, rfl⟩, fun _ => rfl, fun _ _ h => h, (hw.append hr).subperm, hr,
    .refl⟩

end Keeps

variable {r : ReqRef}

theorem freeBlocks_keeps {s s' : Scheduler} (h : s.freeBlocks r = .ok s') : Keeps s s' := by
  obtain ⟨-, -, k, -, rfl⟩ := freeBlocks_cases h
  refine ⟨rfl, rfl, fun _ => ⟨rfl, rfl⟩, fun _ => rfl, fun reqId r' hr' => ?_, .refl _, .refl _,
    .refl⟩
  rw [PyDict.get?_erase] at hr'
  split at hr'
  · cases hr'
  · exact hr'

variable {connector : Option KVConnector}

theorem freeRequest_keeps {s s' : Scheduler} {b : Bool}
    (h : s.freeRequest connector r = .ok (b, s')) : Keeps s s' := by
  obtain ⟨-, e, delay, he, -, h⟩ := freeRequest_cases h
  have hfreeing : Keeps s (freeing s r e) :=
    ⟨rfl, rfl, fun _ => ⟨rfl, rfl⟩, fun _ => rfl, fun _ _ h => h, .refl _, .refl _,
      free_freeSteps he⟩
  split at h
  · cases h
    exact hfreeing
  · exact hfreeing.trans (freeBlocks_keeps h)

variable {status : RequestStatus} {l : List ReqRef}

theorem finishLoop_keeps {s s' : Scheduler}
    (h : Scheduler.finishLoop connector status s l = .ok s') : Keeps s s' := by
  induction l generalizing s with
  | nil =>
    cases h
    exact .refl _
  | cons r rest ih =>
    unfold Scheduler.finishLoop at h
    obtain ⟨⟨b, s1⟩, hfree, h⟩ := bind_ok h
    have hmod : Keeps s (s.modify r fun request => { request with status := status }) :=
      Keeps.of_update (q := { s.objects r with status := status }) ⟨rfl, rfl⟩ rfl
    exact (hmod.trans (freeRequest_keeps hfree)).trans (ih h)

theorem removeAll_sublist (l items : List ReqRef) : (removeAll l items).Sublist l := by
  unfold removeAll
  split
  · exact .refl _
  · exact List.erase_sublist
  · exact List.filter_sublist

theorem finishRequests_keeps {s s' : Scheduler} {ids : List String}
    (h : s.finishRequests connector ids status = .ok s') : Keeps s s' := by
  unfold Scheduler.finishRequests at h
  obtain ⟨u, -, h⟩ := bind_ok h
  have hqueues : Keeps s { s with
      running := removeAll s.running ((s.validRequests ids).filter fun r =>
        (s.objects r).status = .running)
      waiting := SchedulingPolicy.removeRequests s.waiting ((s.validRequests ids).filter fun r =>
        (s.objects r).status ≠ .running) } :=
    Keeps.of_sublist List.filter_sublist (removeAll_sublist _ _)
  exact hqueues.trans (finishLoop_keeps h)

variable {schedulerOutput : SchedulerOutput} {modelRunnerOutput : ModelRunnerOutput}

theorem updateRequest_keeps {reqId : String} {p p' : UpdatePass}
    (h : UpdatePass.updateRequest connector schedulerOutput modelRunnerOutput reqId r p = .ok p') :
    Keeps p.s p'.s := by
  obtain ⟨q, new, stopped, k, hup⟩ := updateRequest_cases h
  obtain ⟨hid, -, -, -, hmm, hlora⟩ := hup.effect.fields
  have hout : Keeps p.s (withOutput p.s r q k) := Keeps.of_update ⟨hid, hmm⟩ hlora
  cases stopped with
  | false =>
    rw [(hup.goesOn rfl).1]
    exact hout
  | true =>
    obtain ⟨⟨b, hfree⟩, -⟩ := hup.stops rfl
    exact hout.trans (freeRequest_keeps hfree)

theorem updateLoop_keeps {failed : List String} {entries : List (String × Int)}
    {p p' : UpdatePass}
    (h : UpdatePass.updateLoop connector schedulerOutput modelRunnerOutput failed entries p =
      .ok p') :
    Keeps p.s p'.s := by
  induction entries generalizing p with
  | nil =>
    cases h
    exact .refl _
  | cons entry rest ih =>
    unfold UpdatePass.updateLoop at h
    obtain ⟨u, -, h⟩ := bind_ok h
    obtain ⟨p1, h1, h⟩ := bind_ok h
    have hstep : Keeps p.s p1.s := by
      split at h1
      · cases h1
        exact .refl _
      · split at h1
        · cases h1
          exact .refl _
        · exact updateRequest_keeps h1
    exact hstep.trans (ih h)

theorem finishSending_keeps {s s' : Scheduler} {ids : List String}
    (h : s.finishSending ids = .ok s') : Keeps s s' := by
  induction ids generalizing s with
  | nil =>
    cases h
    exact .refl _
  | cons reqId rest ih =>
    unfold Scheduler.finishSending at h
    split at h
    · cases h
    · obtain ⟨s1, h1, h⟩ := bind_ok h
      exact (freeBlocks_keeps h1).trans (ih h)

theorem LoadFrame.keeps {s s' : Scheduler} (h : LoadFrame s s') : Keeps s s' := by
  have hid := h.of_core Request.requestId fun _ => rfl
  have hmm := h.of_core Request.mmFeatures fun _ => rfl
  have hlora := h.of_core Request.loraRequest fun _ => rfl
  refine ⟨?_, ?_, fun r => ⟨hid r, hmm r⟩, hlora, ?_, ?_, ?_, ?_⟩
  · rw [h.eq]
  · rw [h.eq]
  · rw [h.eq]
    exact fun _ _ hr => hr
  · rw [h.eq]
  · rw [h.eq]
  · rw [h.eq]

theorem updateFromOutput_keeps {s s' : Scheduler} {outputs : PyDict Nat EngineCoreOutputs}
    (h : s.updateFromOutput connector schedulerOutput modelRunnerOutput = .ok (outputs, s')) :
    Keeps s s' := by
  obtain ⟨failed, s1, p, p', s2, hparts⟩ := updateFromOutput_cases h
  have h1 : Keeps s p.s :=
    hparts.frame.keeps.trans (updateLoop_keeps (p := { s := s1 }) hparts.loop)
  have hstop : Keeps p.s p.removeStopped.s :=
    Keeps.of_sublist List.filter_sublist (removeAll_sublist _ _)
  have h2 : Keeps s p'.s := by
    rcases hparts.ends with rfl | hfail
    · exact h1.trans hstop
    · exact (h1.trans hstop).trans (finishRequests_keeps (failRequests_finish hfail))
  have h3 : Keeps s s2 := by
    rcases hparts.sends with ⟨-, rfl⟩ | ⟨output, -, hxfer⟩
    · exact h2
    · have hrecv : Keeps p'.s { p'.s with finishedRecvingKvReqIds :=
          p'.s.finishedRecvingKvReqIds.union output.finishedRecving } :=
        ⟨rfl, rfl, fun _ => ⟨rfl, rfl⟩, fun _ => rfl, fun _ _ h => h, .refl _, .refl _, .refl⟩
      exact (h2.trans hrecv).trans (finishSending_keeps hxfer)
  have hlast : Keeps s2 { s2 with
      kvCacheManager := s2.kvCacheManager.takeEvents.2
      finishedReqIdsDict := s2.finishedReqIdsDict.map fun _ => PyDict.empty } :=
    ⟨rfl, rfl, fun _ => ⟨rfl, rfl⟩, fun _ => rfl, fun _ _ h => h, .refl _, .refl _, .refl⟩
  rw [hparts.eq]
  exact h3.trans hlast

theorem updateDraftTokenIds_keeps (validate : Request → List Int → List Int)
    (drafts : List (String × List Int)) (s : Scheduler) :
    Keeps s (s.updateDraftTokenIds validate drafts) := by
  induction drafts generalizing s with
  | nil => exact .refl _
  | cons d drafts ih =>
    unfold Scheduler.updateDraftTokenIds
    dsimp only
    split
    · exact ih s
    · rename_i r _
      split
      · exact ih s
      · have hmod : Keeps s (s.modify r fun request =>
            { request with specTokenIds := validate request d.2 }) :=
          Keeps.of_update (q := { s.objects r with
            specTokenIds := validate (s.objects r) d.2 }) ⟨rfl, rfl⟩ rfl
        exact hmod.trans (ih _)

/-- The last running request is preempted. -/
theorem preemptLast_keeps {s s' : Scheduler} (hl : s.running = l ++ [r])
    (hpre : { s with running := l }.preemptRequest r = .ok s') :
    Keeps s s' ∧ s'.running = l := by
  obtain ⟨-, k, e, -, he, rfl⟩ := preemptRequest_cases hpre
  have hobj : Keeps s { s with
      objects := update s.objects r (preempted (s.objects r))
      kvCacheManager := k } := Keeps.of_update ⟨rfl, rfl⟩ rfl
  refine ⟨⟨rfl, rfl, hobj.inputs, hobj.loras, fun _ _ h => h, ?_, ?_, free_freeSteps he⟩, rfl⟩
  · have hw : ∀ t : Scheduler, (t.prependWaiting r).waiting.Perm (r :: t.waiting) :=
      fun t => prependRequest_perm _ _ _ _
    refine List.Perm.subperm ?_
    show (_ ++ l).Perm (s.waiting ++ s.running)
    rw [hl]
    refine ((hw _).append_right l).trans ?_
    show (r :: (s.waiting ++ l)).Perm _
    rw [← List.append_assoc]
    exact (List.perm_append_singleton r (s.waiting ++ l)).symm
  · rw [hl]
    exact List.sublist_append_left l [r]

theorem preemptAll_keeps {s s' : Scheduler} (hl : s.running.reverse = l)
    (hall : Scheduler.preemptAll l s = .ok s') : Keeps s s' := by
  induction l generalizing s with
  | nil =>
    cases hall
    exact .refl _
  | cons r rest ih =>
    have hrun : s.running = rest.reverse ++ [r] := by
      rw [← List.reverse_reverse s.running, hl, List.reverse_cons]
    unfold Scheduler.preemptAll at hall
    obtain ⟨s1, h1, hall⟩ := bind_ok hall
    have hdrop : s.running.dropLast = rest.reverse := by
      rw [hrun, List.dropLast_concat]
    rw [hdrop] at h1
    obtain ⟨hk1, hr1⟩ := preemptLast_keeps hrun h1
    have hmod : Keeps s1 (s1.modify r fun request => { request with
        numOutputPlaceholders := 0
        discardLatestAsyncTokens := true }) :=
      Keeps.of_update (q := { s1.objects r with
        numOutputPlaceholders := 0
        discardLatestAsyncTokens := true }) ⟨rfl, rfl⟩ rfl
    have hrest : (s1.modify r fun request => { request with
        numOutputPlaceholders := 0
        discardLatestAsyncTokens := true }).running.reverse = rest := by
      show s1.running.reverse = rest
      rw [hr1, List.reverse_reverse]
    exact (hk1.trans hmod).trans (ih hrest hall)

theorem resetPrefixCache_keeps {s s' : Scheduler} {reset b : Bool}
    (h : s.resetPrefixCache reset = .ok (b, s')) : Keeps s s' := by
  unfold Scheduler.resetPrefixCache at h
  obtain ⟨s1, h1, h⟩ := bind_ok h
  have hs1 : Keeps s s1 := by
    split at h1
    · obtain ⟨s2, h2, h1⟩ := bind_ok h1
      cases h1
      exact (preemptAll_keeps rfl h2).trans
        ⟨rfl, rfl, fun _ => ⟨rfl, rfl⟩, fun _ => rfl, fun _ _ h => h, .refl _, .refl _, .refl⟩
    · cases h1
      exact .refl _
  dsimp only at h
  split at h
  · cases h
  · cases h
    exact hs1.trans
      ⟨rfl, rfl, fun _ => ⟨rfl, rfl⟩, fun _ => rfl, fun _ _ h => h, .refl _, .refl _, .refl⟩

/-! ### No request stands in the queues twice -/

/-- The requests in the queues are distinct objects that are in use, and a registered request
is found under its own id. -/
structure QueueInv (s : Scheduler) : Prop where
  nodup : (s.waiting ++ s.running).Nodup
  inUse : ∀ r ∈ s.waiting ++ s.running, r < s.numObjects
  known : ∀ reqId r, s.requests.get? reqId = some r →
    (s.objects r).requestId = reqId ∧ r < s.numObjects

namespace QueueInv

variable {s s' : Scheduler}

theorem running_nodup (h : QueueInv s) : s.running.Nodup := (List.nodup_append.mp h.nodup).2.1

theorem knownIds (h : QueueInv s) : Known s := fun reqId r hr => (h.known reqId r hr).1

theorem of_keeps (h : QueueInv s) (hk : Keeps s s') : QueueInv s' := by
  refine ⟨?_, fun r hr => ?_, fun reqId r hr => ?_⟩
  · obtain ⟨l, hl, hsub⟩ := hk.queues
    exact hl.nodup_iff.mp (h.nodup.sublist hsub)
  · rw [hk.numObjects]
    exact h.inUse r (hk.queues.subset hr)
  · rw [(hk.inputs r).1, hk.numObjects]
    exact h.known reqId r (hk.requests reqId r hr)

theorem addRequest {request : Request} (h : QueueInv s) : QueueInv (s.addRequest request) := by
  have hperm : ((s.addRequest request).waiting ++ (s.addRequest request).running).Perm
      (s.numObjects :: (s.waiting ++ s.running)) :=
    (addRequest_perm _ _ _ _).append_right s.running
  refine ⟨?_, fun r hr => ?_, fun reqId r hr => ?_⟩
  · refine hperm.nodup_iff.mpr (List.nodup_cons.mpr ⟨fun hm => ?_, h.nodup⟩)
    exact Nat.lt_irrefl _ (h.inUse _ hm)
  · show r < s.numObjects + 1
    rcases List.mem_cons.mp (hperm.mem_iff.mp hr) with rfl | hr
    · exact Nat.lt_succ_self _
    · exact Nat.lt_succ_of_lt (h.inUse r hr)
  · change (s.requests.insert request.requestId s.numObjects).get? reqId = some r at hr
    show (update s.objects s.numObjects request r).requestId = reqId ∧
      r < s.numObjects + 1
    rw [PyDict.get?_insert] at hr
    split at hr
    · rename_i heq
      cases hr
      rw [update_self, heq]
      exact ⟨rfl, Nat.lt_succ_self _⟩
    · obtain ⟨hid, hlt⟩ := h.known reqId r hr
      rw [update_of_ne (Nat.ne_of_lt hlt)]
      exact ⟨hid, Nat.lt_succ_of_lt hlt⟩

end QueueInv

/-- Two requests in the queues have different ids. -/
def DistinctIds (s : Scheduler) : Prop :=
  ∀ r ∈ s.waiting ++ s.running, ∀ r' ∈ s.waiting ++ s.running,
    (s.objects r).requestId = (s.objects r').requestId → r = r'

/-- The requests in the queues, without those that are put aside in a call of `schedule`. -/
def queued (p : SchedulePass) : List ReqRef :=
  p.s.waiting ++ p.skippedWaitingRequests ++ p.s.running

namespace DistinctIds

variable {s s' : Scheduler}

/-- The queues hold the same requests or fewer, under the same ids. -/
theorem of_subset (h : DistinctIds s) (hq : s'.waiting ++ s'.running ⊆ s.waiting ++ s.running)
    (hid : ∀ r, (s'.objects r).requestId = (s.objects r).requestId) : DistinctIds s' := by
  intro r hr r' hr' heq
  rw [hid, hid] at heq
  exact h r (hq hr) r' (hq hr') heq

theorem of_keeps (h : DistinctIds s) (hk : Keeps s s') : DistinctIds s' :=
  h.of_subset hk.queues.subset fun r => (hk.inputs r).1

theorem addRequest {request : Request} (h : DistinctIds s) (hq : QueueInv s)
    (hnew : ∀ r ∈ s.waiting ++ s.running, (s.objects r).requestId ≠ request.requestId) :
    DistinctIds (s.addRequest request) := by
  have hperm : ((s.addRequest request).waiting ++ (s.addRequest request).running).Perm
      (s.numObjects :: (s.waiting ++ s.running)) :=
    (addRequest_perm _ _ _ _).append_right s.running
  have hobj : ∀ r ∈ s.waiting ++ s.running,
      (s.addRequest request).objects r = s.objects r := fun r hr =>
    update_of_ne (Nat.ne_of_lt (hq.inUse r hr)) _ _
  have hself : (s.addRequest request).objects s.numObjects = request := update_self _ _ _
  intro r hr r' hr' heq
  rcases List.mem_cons.mp (hperm.mem_iff.mp hr) with rfl | hr
  · rcases List.mem_cons.mp (hperm.mem_iff.mp hr') with rfl | hr'
    · rfl
    · rw [hself, hobj r' hr'] at heq
      exact absurd heq.symm (hnew r' hr')
  · rcases List.mem_cons.mp (hperm.mem_iff.mp hr') with rfl | hr'
    · rw [hself, hobj r hr] at heq
      exact absurd heq (hnew r hr)
    · rw [hobj r hr, hobj r' hr'] at heq
      exact h r hr r' hr' heq

end DistinctIds

variable {ec : Option ECConnector}

/-- The steps of a call of `schedule` keep the queues distinct and what is shared. -/
theorem shared_of_steps {p p' : SchedulePass} (hnodup : (queued p).Nodup)
    (hsteps : PassSteps connector ec p p') :
    (queued p').Perm (queued p) ∧ Shared p.s p'.s := by
  induction hsteps with
  | refl => exact ⟨.refl _, .refl _⟩
  | tail _ hstep ih =>
    obtain ⟨phase, hstep⟩ := hstep
    obtain ⟨hperm, hs⟩ := ih
    have hnd := (List.nodup_append.mp (hperm.nodup_iff.mpr hnodup)).2.1
    obtain ⟨hshared, hmove⟩ := passStep_move hnd hstep
    exact ⟨hmove.perm.trans hperm, hs.trans hshared⟩

/-- The running requests stay distinct. -/
theorem running_nodup_of_steps {phase : Phase} {p p' : SchedulePass} (hnodup : (queued p).Nodup)
    (hsteps : PhaseSteps connector ec phase p p') : p'.s.running.Nodup := by
  have hnd := (shared_of_steps hnodup hsteps.passSteps).1.nodup_iff.mpr hnodup
  exact (List.nodup_append.mp hnd).2.1

theorem queued_startPass {s : Scheduler} : queued (startPass s) = s.waiting ++ s.running := by
  show s.waiting ++ [] ++ s.running = _
  rw [List.append_nil]

/-- The requests in the queues of a call are distinct objects under distinct ids. -/
structure Distinct (p : SchedulePass) : Prop where
  nodup : (queued p).Nodup
  ids : ∀ r ∈ queued p, ∀ r' ∈ queued p,
    (p.s.objects r).requestId = (p.s.objects r').requestId → r = r'

namespace Distinct

variable {p p' : SchedulePass}

theorem running_nodup (h : Distinct p) : p.s.running.Nodup := (List.nodup_append.mp h.nodup).2.1

theorem of_steps {connector : Option KVConnector} {ec : Option ECConnector} (h : Distinct p)
    (hsteps : PassSteps connector ec p p') : Distinct p' := by
  obtain ⟨hperm, hshared⟩ := shared_of_steps h.nodup hsteps
  refine ⟨hperm.nodup_iff.mpr h.nodup, fun r hr r' hr' heq => ?_⟩
  rw [hshared.requestId, hshared.requestId] at heq
  exact h.ids r (hperm.mem_iff.mp hr) r' (hperm.mem_iff.mp hr') heq

/-- The head of the waiting queue is not running. -/
theorem head_not_running (h : Distinct p) {r : ReqRef} {rest : List ReqRef}
    (hw : p.s.waiting = r :: rest) : r ∉ p.s.running := by
  intro hr
  have hq : r ∈ p.s.waiting ++ p.skippedWaitingRequests :=
    List.mem_append_left _ (hw ▸ List.mem_cons_self)
  exact (List.nodup_append.mp h.nodup).2.2 r hq r hr rfl

end Distinct

theorem distinct_startPass {s : Scheduler} (h : QueueInv s) (hd : DistinctIds s) :
    Distinct (startPass s) := by
  refine ⟨?_, ?_⟩
  · rw [queued_startPass]
    exact h.nodup
  · rw [queued_startPass]
    exact hd

/-- The loops of `schedule`, from distinct queues. -/
theorem scheduleLoops_queueInv {s : Scheduler} {p : SchedulePass} (h : QueueInv s)
    (hloops : s.scheduleLoops connector ec = .ok p) :
    QueueInv p.s ∧ Shared s p.s ∧
      (p.s.waiting ++ p.s.running).Perm (s.waiting ++ s.running) := by
  obtain ⟨p1, hsteps, rfl⟩ := scheduleLoops_steps h.running_nodup hloops
  have hnodup : (queued (startPass s)).Nodup := queued_startPass ▸ h.nodup
  obtain ⟨hperm, hs⟩ := shared_of_steps hnodup hsteps
  have hshared : Shared s p1.putBackSkipped.s := hs.trans .of_caches
  have hall : (p1.putBackSkipped.s.waiting ++ p1.putBackSkipped.s.running).Perm
      (s.waiting ++ s.running) := by
    have hw : p1.putBackSkipped.s.waiting.Perm (p1.skippedWaitingRequests ++ p1.s.waiting) :=
      prependRequests_perm _ _ _ _
    rw [queued_startPass] at hperm
    exact ((hw.trans List.perm_append_comm).append_right p1.s.running).trans hperm
  refine ⟨⟨hall.nodup_iff.mpr h.nodup, fun r hr => ?_, fun reqId r hr => ?_⟩, hshared, hall⟩
  · rw [hshared.numObjects]
    exact h.inUse r (hall.mem_iff.mp hr)
  · rw [hshared.requests] at hr
    rw [hshared.requestId, hshared.numObjects]
    exact h.known reqId r hr

variable {out : SchedulerOutput}

/-- `schedule` keeps the queues distinct. -/
theorem schedule_queueInv {s s' : Scheduler} (h : QueueInv s)
    (hsched : s.schedule connector ec = .ok (out, s')) :
    ∃ p, s.scheduleLoops connector ec = .ok p ∧ QueueInv p.s ∧ Shared s p.s ∧
      Finished p out s' ∧ QueueInv s' := by
  unfold Scheduler.schedule at hsched
  obtain ⟨p, hloops, hfin⟩ := bind_ok hsched
  obtain ⟨hp, hshared, -⟩ := scheduleLoops_queueInv h hloops
  have hf := finish_spec hp.knownIds hfin
  refine ⟨p, hloops, hp, hshared, hf, ⟨?_, fun r hr => ?_, fun reqId r hr => ?_⟩⟩
  · rw [hf.frame.eq]
    exact hp.nodup
  · rw [hf.frame.eq] at hr ⊢
    exact hp.inUse r hr
  · have hid := hf.frame.requestId r
    rw [hf.frame.requests] at hr
    rw [hid]
    rw [hf.frame.eq]
    exact hp.known reqId r hr

/-- `schedule` keeps the ids in the queues distinct. -/
theorem schedule_distinctIds {s s' : Scheduler} (h : QueueInv s) (hd : DistinctIds s)
    (hsched : s.schedule connector ec = .ok (out, s')) : DistinctIds s' := by
  obtain ⟨p, hloops, -, -, hf, -⟩ := schedule_queueInv h hsched
  obtain ⟨-, hshared, hperm⟩ := scheduleLoops_queueInv h hloops
  refine hd.of_subset (fun r hr => ?_) fun r => ?_
  · rw [hf.frame.eq] at hr
    exact hperm.mem_iff.mp hr
  · exact (hf.frame.requestId r).trans (hshared.requestId r)

end Vllm.Proofs.Sched
