import Vllm.Proofs.Sched.PassSteps

/-!
# `Vllm.Proofs.Sched.Moves`: the steps of `schedule`, seen from the queues

`PassStep` names every call that a step rests on. Most invariants of the scheduler do not look
at the block pool or the encoder cache: they speak of the queues, of the counters of the
requests and of `num_scheduled_tokens`. `Move` is what is left of a step for them.

* `Shared`: what no step of `schedule` changes.
* `passStep_move`: every step is a move that keeps what is shared.
* `finish_spec`: what the end of `schedule` does with the result of the loops.
-/

set_option autoImplicit false

namespace Vllm.Proofs.Sched

open Vllm.Lib Vllm.V1 Vllm.V1.Core Function

/-! ### Queues as permutations -/

theorem heapPush_perm (lt : ReqRef → ReqRef → Bool) (r : ReqRef) (queue : List ReqRef) :
    (heapPush lt r queue).Perm (r :: queue) := by
  induction queue with
  | nil => exact .refl _
  | cons r' queue ih =>
    unfold heapPush
    split
    · exact .refl _
    · exact (ih.cons r').trans (.swap r r' queue)

theorem prependRequest_perm (policy : SchedulingPolicy) (lt : ReqRef → ReqRef → Bool)
    (queue : List ReqRef) (r : ReqRef) :
    (policy.prependRequest lt queue r).Perm (r :: queue) := by
  cases policy with
  | fcfs => exact .refl _
  | priority => exact heapPush_perm lt r queue

theorem addRequest_perm (policy : SchedulingPolicy) (lt : ReqRef → ReqRef → Bool)
    (queue : List ReqRef) (r : ReqRef) :
    (policy.addRequest lt queue r).Perm (r :: queue) := by
  cases policy with
  | fcfs => exact List.perm_append_singleton r queue
  | priority => exact heapPush_perm lt r queue

theorem prependRequests_perm (policy : SchedulingPolicy) (lt : ReqRef → ReqRef → Bool)
    (queue requests : List ReqRef) :
    (policy.prependRequests lt queue requests).Perm (requests ++ queue) := by
  cases policy with
  | fcfs => exact .refl _
  | priority =>
    show (requests.foldl (fun queue r => heapPush lt r queue) queue).Perm _
    induction requests generalizing queue with
    | nil => exact .refl _
    | cons r requests ih =>
      rw [List.foldl_cons]
      refine (ih (heapPush lt r queue)).trans ?_
      refine ((heapPush_perm lt r queue).append_left requests).trans ?_
      exact List.perm_middle

/-! ### What is shared by the steps of a call -/

/-- A request without the attributes that the scheduler changes while it schedules. -/
def core (request : Request) : Request :=
  { request with
    status := .waiting
    numComputedTokens := 0
    specTokenIds := []
    numCachedTokens := 0
    numPreemptions := 0
    numExternalComputedTokens := 0
    numOutputPlaceholders := 0 }

/-- What no step of `schedule` changes. -/
structure Shared (s s' : Scheduler) : Prop where
  config : s'.config = s.config
  numObjects : s'.numObjects = s.numObjects
  requests : s'.requests = s.requests
  finishedReqIds : s'.finishedReqIds = s.finishedReqIds
  freeRequestCalls : s'.freeRequestCalls = s.freeRequestCalls
  freeBlocksCalls : s'.freeBlocksCalls = s.freeBlocksCalls
  prevStepScheduledReqIds : s'.prevStepScheduledReqIds = s.prevStepScheduledReqIds
  core : ∀ r, core (s'.objects r) = core (s.objects r)
  placeholders : ∀ r,
    (s'.objects r).numOutputPlaceholders = (s.objects r).numOutputPlaceholders

namespace Shared

variable {s s' s'' : Scheduler}

theorem refl (s : Scheduler) : Shared s s :=
  ⟨rfl, rfl, rfl, rfl, rfl, rfl, rfl, fun _ => rfl, fun _ => rfl⟩

theorem trans (h : Shared s s') (h' : Shared s' s'') : Shared s s'' where
  config := h'.config.trans h.config
  numObjects := h'.numObjects.trans h.numObjects
  requests := h'.requests.trans h.requests
  finishedReqIds := h'.finishedReqIds.trans h.finishedReqIds
  freeRequestCalls := h'.freeRequestCalls.trans h.freeRequestCalls
  freeBlocksCalls := h'.freeBlocksCalls.trans h.freeBlocksCalls
  prevStepScheduledReqIds := h'.prevStepScheduledReqIds.trans h.prevStepScheduledReqIds
  core r := (h'.core r).trans (h.core r)
  placeholders r := (h'.placeholders r).trans (h.placeholders r)

/-- An attribute that `core` keeps. -/
theorem of_core {α : Type} (h : Shared s s') (f : Request → α)
    (hf : ∀ request, f (Sched.core request) = f request) (r : ReqRef) :
    f (s'.objects r) = f (s.objects r) := by
  rw [← hf (s'.objects r), h.core r, hf]

theorem requestId (h : Shared s s') (r : ReqRef) :
    (s'.objects r).requestId = (s.objects r).requestId :=
  h.of_core Request.requestId (fun _ => rfl) r

theorem mmFeatures (h : Shared s s') (r : ReqRef) :
    (s'.objects r).mmFeatures = (s.objects r).mmFeatures :=
  h.of_core Request.mmFeatures (fun _ => rfl) r

theorem loraRequest (h : Shared s s') (r : ReqRef) :
    (s'.objects r).loraRequest = (s.objects r).loraRequest :=
  h.of_core Request.loraRequest (fun _ => rfl) r

/-- Only the caches differ. -/
theorem of_caches {k : KVCacheManager} {e : EncoderCacheManager} {w l : List ReqRef} :
    Shared s { s with
      kvCacheManager := k
      encoderCacheManager := e
      waiting := w
      running := l } :=
  ⟨rfl, rfl, rfl, rfl, rfl, rfl, rfl, fun _ => rfl, fun _ => rfl⟩

/-- One request object is changed in an attribute that `schedule` may write. -/
theorem of_modify {r : ReqRef} {f : Request → Request}
    (hf : Sched.core (f (s.objects r)) = Sched.core (s.objects r))
    (hp : (f (s.objects r)).numOutputPlaceholders = (s.objects r).numOutputPlaceholders) :
    Shared s (s.modify r f) := by
  refine ⟨rfl, rfl, rfl, rfl, rfl, rfl, rfl, fun r' => ?_, fun r' => ?_⟩
  · show Sched.core (update s.objects r _ r') = _
    by_cases hr : r' = r
    · subst hr
      rw [update_self, hf]
    · rw [update_of_ne hr]
  · show (update s.objects r _ r').numOutputPlaceholders = _
    by_cases hr : r' = r
    · subst hr
      rw [update_self, hp]
    · rw [update_of_ne hr]

end Shared

/-! ### Moves -/

/-- The counters of the requests are the same. -/
def SameCounters (s s' : Scheduler) : Prop :=
  ∀ r, (s'.objects r).status = (s.objects r).status ∧
    (s'.objects r).numComputedTokens = (s.objects r).numComputedTokens ∧
    (s'.objects r).specTokenIds = (s.objects r).specTokenIds

/-- The object behind `r` gets the counters `status`, `c` and `spec`; the others keep theirs. -/
structure Counters (s s' : Scheduler) (r : ReqRef) (status : RequestStatus) (c : Int)
    (spec : List Int) : Prop where
  status : (s'.objects r).status = status
  computed : (s'.objects r).numComputedTokens = c
  spec : (s'.objects r).specTokenIds = spec
  others : ∀ r', r' ≠ r → (s'.objects r').status = (s.objects r').status ∧
    (s'.objects r').numComputedTokens = (s.objects r').numComputedTokens ∧
    (s'.objects r').specTokenIds = (s.objects r').specTokenIds

theorem Counters.of_objects {s s' : Scheduler} {r : ReqRef} (q : Request)
    (h : s'.objects = update s.objects r q) :
    Counters s s' r q.status q.numComputedTokens q.specTokenIds := by
  refine ⟨?_, ?_, ?_, fun r' hr => ?_⟩
  · rw [h, update_self]
  · rw [h, update_self]
  · rw [h, update_self]
  · rw [h, update_of_ne hr]
    exact ⟨rfl, rfl, rfl⟩

/-- What a step of `schedule` is for the queues and the counters. -/
inductive Move (p p' : SchedulePass) : Prop where
  /-- Nothing moves. -/
  | still (hw : p'.s.waiting = p.s.waiting)
      (hskip : p'.skippedWaitingRequests = p.skippedWaitingRequests)
      (hrun : p'.s.running = p.s.running) (hcount : SameCounters p.s p'.s)
      (hn : p'.numScheduledTokens = p.numScheduledTokens)
  /-- A running request is preempted. -/
  | preempt (victim : ReqRef) (hv : victim ∈ p.s.running)
      (hstatus : (p.s.objects victim).status = .running)
      (hw : p'.s.waiting.Perm (victim :: p.s.waiting))
      (hskip : p'.skippedWaitingRequests = p.skippedWaitingRequests)
      (hrun : p'.s.running = p.s.running.erase victim)
      (hcount : Counters p.s p'.s victim .preempted 0 (p.s.objects victim).specTokenIds)
      (hn : p'.numScheduledTokens = p.numScheduledTokens ∨
        p'.numScheduledTokens = p.numScheduledTokens.erase (p.s.objects victim).requestId)
  /-- A running request is scheduled. -/
  | run (r : ReqRef) (n : Int) (hr : r ∈ p.s.running) (hn₀ : n ≠ 0)
      (hneed : n ≤ (p.s.objects r).numTokensWithSpec + (p.s.objects r).numOutputPlaceholders
        - (p.s.objects r).numComputedTokens)
      (hcap : n ≤ p.s.config.maxModelLen - 1 - (p.s.objects r).numComputedTokens)
      (hw : p'.s.waiting = p.s.waiting)
      (hskip : p'.skippedWaitingRequests = p.skippedWaitingRequests)
      (hrun : p'.s.running = p.s.running)
      (hcount : Counters p.s p'.s r (p.s.objects r).status (p.s.objects r).numComputedTokens [])
      (hn : p'.numScheduledTokens = p.numScheduledTokens.insert (p.s.objects r).requestId n)
  /-- A waiting request is put aside. -/
  | skip (r : ReqRef) (hw : p.s.waiting = r :: p'.s.waiting)
      (hskip : p'.skippedWaitingRequests.Perm (r :: p.skippedWaitingRequests))
      (hrun : p'.s.running = p.s.running) (hcount : SameCounters p.s p'.s)
      (hn : p'.numScheduledTokens = p.numScheduledTokens)
  /-- A request need not wait for remote KVs or its grammar any more. -/
  | ready (r : ReqRef) (rest : List ReqRef) (c : Int) (hhead : p.s.waiting = r :: rest)
      (hstatus : (p.s.objects r).status = .waitingForFsm ∨
        (p.s.objects r).status = .waitingForRemoteKvs)
      (hfsm : (p.s.objects r).status = .waitingForFsm →
        c = (p.s.objects r).numComputedTokens)
      (hw : p'.s.waiting = p.s.waiting)
      (hskip : p'.skippedWaitingRequests = p.skippedWaitingRequests)
      (hrun : p'.s.running = p.s.running)
      (hcount : Counters p.s p'.s r .waiting c (p.s.objects r).specTokenIds)
      (hn : p'.numScheduledTokens = p.numScheduledTokens)
  /-- A waiting request starts to load its remote KVs. -/
  | awaitRemote (r : ReqRef) (hw : p.s.waiting = r :: p'.s.waiting)
      (hskip : p'.skippedWaitingRequests.Perm (r :: p.skippedWaitingRequests))
      (hrun : p'.s.running = p.s.running)
      (hzero : (p.s.objects r).numComputedTokens = 0)
      (hcount : Counters p.s p'.s r .waitingForRemoteKvs
        (p.s.objects r).numComputedTokens (p.s.objects r).specTokenIds)
      (hn : p'.numScheduledTokens = p.numScheduledTokens)
  /-- A waiting request is scheduled. -/
  | enter (r : ReqRef) (c n : Int) (hw : p.s.waiting = r :: p'.s.waiting)
      (hstatus : (p.s.objects r).status = .waiting ∨ (p.s.objects r).status = .preempted)
      (hn₀ : 0 < n) (hneed : n ≤ (p.s.objects r).numTokens - c)
      (hskip : p'.skippedWaitingRequests = p.skippedWaitingRequests)
      (hrun : p'.s.running = p.s.running ++ [r])
      (hcount : Counters p.s p'.s r .running c (p.s.objects r).specTokenIds)
      (hn : p'.numScheduledTokens = p.numScheduledTokens.insert (p.s.objects r).requestId n)

/-- A move takes no request out of the queues and puts none into them. -/
theorem Move.perm {p p' : SchedulePass} (h : Move p p') :
    (p'.s.waiting ++ p'.skippedWaitingRequests ++ p'.s.running).Perm
      (p.s.waiting ++ p.skippedWaitingRequests ++ p.s.running) := by
  have hside : ∀ r, p.s.waiting = r :: p'.s.waiting →
      p'.skippedWaitingRequests.Perm (r :: p.skippedWaitingRequests) →
      (p'.s.waiting ++ p'.skippedWaitingRequests).Perm
        (p.s.waiting ++ p.skippedWaitingRequests) := by
    intro r hw hskip
    rw [hw]
    exact (hskip.append_left p'.s.waiting).trans List.perm_middle
  cases h with
  | still hw hskip hrun hcount hn => rw [hw, hskip, hrun]
  | preempt victim hv hstatus hw hskip hrun hcount hn =>
    rw [hskip, hrun]
    calc (p'.s.waiting ++ p.skippedWaitingRequests ++ p.s.running.erase victim).Perm
          (victim :: p.s.waiting ++ p.skippedWaitingRequests ++ p.s.running.erase victim) :=
          (hw.append_right _).append_right _
      _ |>.Perm (p.s.waiting ++ p.skippedWaitingRequests ++
          (victim :: p.s.running.erase victim)) := List.perm_middle.symm
      _ |>.Perm _ := (List.perm_cons_erase hv).symm.append_left _
  | run r n hr hn0 hneed hcap hw hskip hrun hcount hn => rw [hw, hskip, hrun]
  | skip r hw hskip hrun hcount hn =>
    rw [hrun]
    exact (hside r hw hskip).append_right _
  | ready r rest c hhead hstatus hfsm hw hskip hrun hcount hn => rw [hw, hskip, hrun]
  | awaitRemote r hw hskip hrun hzero hcount hn =>
    rw [hrun]
    exact (hside r hw hskip).append_right _
  | enter r c n hw hstatus hn0 hneed hskip hrun hcount hn =>
    rw [hskip, hrun, hw, ← List.append_assoc]
    exact List.perm_append_singleton r _

theorem SameCounters.refl (s : Scheduler) : SameCounters s s := fun _ => ⟨rfl, rfl, rfl⟩

/-- Two changes of one request object. -/
theorem update_update (f : ReqRef → Request) (r : ReqRef) (q : Request) (g : Request → Request) :
    update (update f r q) r (g (update f r q r)) = update f r (g q) := by
  rw [update_self, update_idem]

/-- What the end of the receive of remote KVs does to a request. -/
theorem updateWaitingForRemoteKv_cases {s s' : Scheduler} {r : ReqRef} {b : Bool}
    (h : s.updateWaitingForRemoteKv r = .ok (b, s')) :
    ∃ k ids failed c, s' = { s with
      kvCacheManager := k
      finishedRecvingKvReqIds := ids
      failedRecvingKvReqIds := failed
      objects := update s.objects r
        { s.objects r with numComputedTokens := c } } := by
  have hself : update s.objects r
      { s.objects r with numComputedTokens := (s.objects r).numComputedTokens } = s.objects :=
    update_eq_self r s.objects
  unfold Scheduler.updateWaitingForRemoteKv at h
  dsimp only at h
  split at h
  · cases h
    exact ⟨s.kvCacheManager, s.finishedRecvingKvReqIds, s.failedRecvingKvReqIds,
      (s.objects r).numComputedTokens, by rw [hself]⟩
  · split at h
    · obtain ⟨k, -, h⟩ := bind_ok h
      cases h
      exact ⟨k, _, _, (s.objects r).numComputedTokens, by rw [hself]⟩
    · split at h
      · obtain ⟨k, -, h⟩ := bind_ok h
        cases h
        exact ⟨k, _, s.failedRecvingKvReqIds, _, rfl⟩
      · cases h

/-- Every step of `schedule` is a move, and keeps what is shared. -/
theorem passStep_move {connector : Option KVConnector} {ec : Option ECConnector} {phase : Phase}
    {p p' : SchedulePass} (hnodup : p.s.running.Nodup) (h : PassStep connector ec phase p p') :
    Shared p.s p'.s ∧ Move p p' := by
  cases h with
  | planEncoder h =>
    obtain ⟨e, rfl, -, -, -⟩ := tryScheduleEncoderInputs_cases h
    exact ⟨.of_caches, .still rfl rfl rfl (.refl _) rfl⟩
  | nextIndex => exact ⟨.refl _, .still rfl rfl rfl (.refl _) rfl⟩
  | runFail hr hn h => exact ⟨.of_caches, .still rfl rfl rfl (.refl _) rfl⟩
  | @preempt _ p1 s1 victim hphase hfcfs hpop hpre =>
    have hsched := popLowest_sched hnodup hpop
    obtain ⟨hmem, hcases⟩ := popLowest_cases hpop
    obtain ⟨hstatus, k, e, -, -, rfl⟩ := preemptRequest_cases hpre
    have hobj : p1.s.objects = p.s.objects := by rw [hsched]
    have hwait : p1.s.waiting = p.s.waiting := by rw [hsched]
    have hrun : p1.s.running = p.s.running.erase victim := by rw [hsched]
    have hshared : Shared p.s p1.s := by
      rw [hsched]
      exact .of_caches
    refine ⟨?_, ?_⟩
    · have hmod : Shared { p1.s with kvCacheManager := k, encoderCacheManager := e }
          ({ p1.s with kvCacheManager := k, encoderCacheManager := e }.modify victim
            preempted) := .of_modify rfl rfl
      exact (hshared.trans .of_caches).trans (hmod.trans .of_caches)
    · have hskip : p1.skippedWaitingRequests = p.skippedWaitingRequests := by
        rcases hcases with ⟨-, -, rfl⟩ | ⟨-, -, n, m, -, -, rfl⟩ | ⟨-, -, rfl⟩ <;> rfl
      have hn : p1.numScheduledTokens = p.numScheduledTokens ∨ p1.numScheduledTokens =
          p.numScheduledTokens.erase (p.s.objects victim).requestId := by
        rcases hcases with ⟨-, -, rfl⟩ | ⟨-, -, n, m, -, -, rfl⟩ | ⟨-, -, rfl⟩
        · exact .inl rfl
        · exact .inr rfl
        · exact .inl rfl
      refine .preempt victim hmem (hobj ▸ hstatus) ?_ hskip hrun ?_ hn
      · exact hwait ▸ prependRequest_perm _ _ _ victim
      · have : update p1.s.objects victim (preempted (p1.s.objects victim)) =
            update p.s.objects victim (preempted (p.s.objects victim)) := by
          rw [hobj]
        exact Counters.of_objects (preempted (p.s.objects victim)) this
  | run hphase hr hfresh hn hneed hcap hpos h hplan hplan0 htake =>
    rename_i r n newBlocks k plan
    obtain ⟨d, hd⟩ := takeSpecTokens_cases
      ({ p with s.kvCacheManager := k }.markScheduled r newBlocks n) r n
    rw [hd] at htake
    obtain ⟨e, inputs, budget, -, -, rfl⟩ := takeEncoderInputs_cases htake
    refine ⟨?_, .run r n hr hn hneed hcap rfl rfl rfl ?_ rfl⟩
    · have hmod : Shared { p.s with kvCacheManager := k }
          ({ p.s with kvCacheManager := k }.modify r
            fun request => { request with specTokenIds := [] }) := .of_modify rfl rfl
      exact (Shared.trans .of_caches hmod).trans .of_caches
    · exact Counters.of_objects { p.s.objects r with specTokenIds := [] } rfl
  | recordLoras h =>
    obtain ⟨loras, rfl⟩ := recordLoras_cases h
    exact ⟨.refl _, .still rfl rfl rfl (.refl _) rfl⟩
  | @skip _ r rest hw =>
    refine ⟨.of_caches, .skip r ?_ (prependRequest_perm _ _ _ r) rfl (.refl _) rfl⟩
    show p.s.waiting = r :: p.s.waiting.tail
    rw [hw]
    rfl
  | @remoteReady _ s r rest hw hstatus h =>
    obtain ⟨k, ids, failed, c, rfl⟩ := updateWaitingForRemoteKv_cases h
    refine ⟨?_, ?_⟩
    · have hone : Shared p.s { p.s with
          kvCacheManager := k
          finishedRecvingKvReqIds := ids
          failedRecvingKvReqIds := failed
          objects := update p.s.objects r
            { p.s.objects r with numComputedTokens := c } } := by
        have := Shared.of_modify (s := p.s) (r := r)
          (f := fun request => { request with numComputedTokens := c }) rfl rfl
        exact ⟨rfl, rfl, rfl, rfl, rfl, rfl, rfl, this.core, this.placeholders⟩
      exact hone.trans
        (Shared.of_modify (f := fun request => { request with status := .waiting }) rfl rfl)
    · refine .ready r rest c hw (.inr hstatus) (fun hf => ?_) rfl rfl rfl ?_ rfl
      · rw [hstatus] at hf
        cases hf
      · refine Counters.of_objects { p.s.objects r with
          numComputedTokens := c
          status := .waiting } ?_
        exact update_update p.s.objects r { p.s.objects r with numComputedTokens := c }
          fun request => { request with status := .waiting }
  | @grammarReady _ r rest hw hstatus =>
    refine ⟨Shared.of_modify (f := fun request => { request with status := .waiting }) rfl rfl,
      .ready r rest (p.s.objects r).numComputedTokens hw
      (.inl hstatus) (fun _ => rfl) rfl rfl rfl ?_ rfl⟩
    exact Counters.of_objects { p.s.objects r with status := .waiting } rfl
  | @matched _ r rest n hw =>
    have hshared : Shared p.s (p.s.modify r fun request =>
        { request with numExternalComputedTokens := n }) := Shared.of_modify rfl rfl
    refine ⟨hshared, .still rfl rfl rfl (fun r' => ?_) rfl⟩
    show (update p.s.objects r _ r').status = _ ∧
      (update p.s.objects r _ r').numComputedTokens = _ ∧
      (update p.s.objects r _ r').specTokenIds = _
    by_cases hr : r' = r
    · subst hr
      rw [update_self]
      exact ⟨rfl, rfl, rfl⟩
    · rw [update_of_ne hr]
      exact ⟨rfl, rfl, rfl⟩
  | admitFail hw ht h => exact ⟨.of_caches, .still rfl rfl rfl (.refl _) rfl⟩
  | @awaitRemote _ r rest t newBlocks k hw ht hasync hext h =>
    refine ⟨?_, .awaitRemote r ?_ (prependRequest_perm _ _ _ r) rfl ?_ ?_ rfl⟩
    · have hmod := Shared.of_modify
        (s := ({ p with s.kvCacheManager := k }.skipWaiting r).s) (r := r)
        (f := fun request => { request with status := .waitingForRemoteKvs }) rfl rfl
      exact Shared.trans .of_caches hmod
    · show p.s.waiting = r :: p.s.waiting.tail
      rw [hw]
      rfl
    · by_contra hne
      rw [ht.nonzero hne] at hasync
      cases hasync
    · exact Counters.of_objects { p.s.objects r with status := .waitingForRemoteKvs } rfl
  | admitNew hw ht hasync hn hbudget hroom hneed hstatus hlora h hplan hplan0 htake
  | admitResumed hw ht hasync hn hbudget hroom hneed hstatus hlora h hplan hplan0 htake =>
    rename_i r rest t n newBlocks k plan
    have heq : admitted p r rest k t.numComputedTokens n = _ := markRunning_eq _ _ _ _
    rw [heq] at htake
    obtain ⟨e, inputs, budget, -, -, rfl⟩ := takeEncoderInputs_cases htake
    refine ⟨?_, .enter r t.numComputedTokens n hw (by simp [hstatus]) hn hneed rfl rfl ?_ rfl⟩
    · exact (Shared.trans .of_caches
        (Shared.of_modify (f := started t.numComputedTokens) rfl rfl)).trans .of_caches
    · exact Counters.of_objects (started t.numComputedTokens (p.s.objects r)) rfl

end Vllm.Proofs.Sched
