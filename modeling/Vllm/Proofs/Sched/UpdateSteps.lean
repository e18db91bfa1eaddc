import Vllm.Proofs.Sched.Conserved

/-!
# `Vllm.Proofs.Sched.UpdateSteps`: what the other methods of the scheduler do

One lemma for each method that changes the state outside `schedule`.

* `OutputEffect`: what the output of the model does to one request object.
* `updateRequest_cases`: one pass of the loop of `update_from_output`.
* `freeRequest_cases`, `freeBlocks_cases`: the end of a request.
* `handleInvalidBlocks_frame`: blocks that failed to load change counters only.
-/

set_option autoImplicit false

namespace Vllm.Proofs.Sched

open Vllm.Lib Vllm.V1 Vllm.V1.Core Scheduler Function

/-! ### The end of a request -/

variable {r : ReqRef}

/-- What `_free_blocks` does. -/
theorem freeBlocks_cases {s s' : Scheduler} (h : s.freeBlocks r = .ok s') :
    (s.objects r).isFinished = true ∧
      s.requests.contains (s.objects r).requestId = true ∧
      ∃ k, s.kvCacheManager.free (s.objects r) = .ok k ∧
        s' = { s with
          kvCacheManager := k
          requests := s.requests.erase (s.objects r).requestId
          freeBlocksCalls := s.freeBlocksCalls ++ [r] } := by
  unfold freeBlocks at h
  obtain ⟨u, hfin, h⟩ := bind_ok h
  obtain ⟨k, hk, h⟩ := bind_ok h
  split at h
  · rename_i hc
    cases h
    exact ⟨pyAssert_eq_ok_iff.mp hfin, hc, k, hk, rfl⟩
  · cases h

/-- The state in which `_free_request` decides whether to free the blocks. -/
def freeing (s : Scheduler) (r : ReqRef) (e : EncoderCacheManager) : Scheduler :=
  { s with
    encoderCacheManager := e
    freeRequestCalls := s.freeRequestCalls ++ [r] }.recordFinished (s.objects r)

/-- The connector, if there is one, lets the scheduler free the blocks at once. -/
def NeverDelays (connector : Option KVConnector) : Prop :=
  ∀ k ∈ connector, ∀ request blockIds, (k.requestFinished request blockIds).1 = false

variable {connector : Option KVConnector} {request : Request}

theorem NeverDelays.delay {s : Scheduler} {delay params : Bool} (h : NeverDelays connector)
    (hconn : s.connectorFinished connector request = .ok (delay, params)) : delay = false := by
  unfold connectorFinished at hconn
  cases connector with
  | none =>
    cases hconn
    rfl
  | some k =>
    have hk : ∀ blockIds, k.requestFinished request blockIds = (delay, params) →
        delay = false := by
      intro blockIds heq
      have := h k rfl request blockIds
      rwa [heq] at this
    dsimp only at hconn
    split at hconn
    · exact hk _ (Except.ok.inj hconn)
    · obtain ⟨u, -, hconn⟩ := bind_ok hconn
      exact hk _ (Except.ok.inj hconn)

variable {b : Bool}

/-- What `_free_request` does. -/
theorem freeRequest_cases {s s' : Scheduler} (h : s.freeRequest connector r = .ok (b, s')) :
    (s.objects r).isFinished = true ∧
      ∃ e delay, s.encoderCacheManager.free (s.objects r) = .ok e ∧
        (NeverDelays connector → delay = false) ∧
        (if delay then .ok (freeing s r e) else (freeing s r e).freeBlocks r) = .ok s' := by
  unfold freeRequest at h
  obtain ⟨u, hfin, h⟩ := bind_ok h
  obtain ⟨⟨delay, params⟩, hconn, h⟩ := bind_ok h
  obtain ⟨e, he, h⟩ := bind_ok h
  obtain ⟨s1, h1, h⟩ := bind_ok h
  cases h
  exact ⟨pyAssert_eq_ok_iff.mp hfin, e, delay, he, fun hn => hn.delay hconn, h1⟩

/-! ### The output of the model for one request -/

/-- The correction for rejected draft tokens. -/
def corrected (numDraftTokens numGenerated : Nat) (request : Request) : Request :=
  if numDraftTokens = 0 then request
  else
    { request with
      numComputedTokens := if 0 < request.numComputedTokens then
          request.numComputedTokens - (numDraftTokens - ((numGenerated : Int) - 1))
        else request.numComputedTokens
      numOutputPlaceholders := if 0 < request.numOutputPlaceholders then
          request.numOutputPlaceholders - (numDraftTokens - ((numGenerated : Int) - 1))
        else request.numOutputPlaceholders }

theorem correctRejected_eq (s : Scheduler) (r : ReqRef) (d g : Nat) : s.correctRejected r d g =
      { s with objects := update s.objects r (corrected d g (s.objects r)) } := by
  unfold correctRejected corrected
  split
  · rw [update_eq_self]
  · rfl

/-- A request without what appending a token changes. -/
def tokenCore (request : Request) : Request :=
  { request with
    status := .waiting
    stopReason := none
    outputTokenIds := []
    allTokenIds := []
    blockHashes := [] }

theorem appendOutputTokenIds_spec (hasher : Option (Request → List BlockHash))
    (request : Request) (tokens : List Int) :
    tokenCore (request.appendOutputTokenIds hasher tokens) = tokenCore request ∧
      (request.appendOutputTokenIds hasher tokens).allTokenIds = request.allTokenIds ++ tokens ∧
      (request.appendOutputTokenIds hasher tokens).outputTokenIds =
        request.outputTokenIds ++ tokens ∧
      (request.appendOutputTokenIds hasher tokens).status = request.status := by
  unfold Request.appendOutputTokenIds
  cases hasher with
  | none => exact ⟨rfl, rfl, rfl, rfl⟩
  | some hasher => exact ⟨rfl, rfl, rfl, rfl⟩

variable {request' : Request} {stopped : Bool}

/-- What `check_stop` does: it changes the status and the stop reason of a stopped request. -/
theorem checkStop_spec {m : Nat} (h : checkStop request m = .ok (stopped, request')) :
    tokenCore request' = tokenCore request ∧ request'.allTokenIds = request.allTokenIds ∧
      request'.outputTokenIds = request.outputTokenIds ∧
      (stopped = false → request' = request) ∧
      (stopped = true → request'.isFinished = true) := by
  unfold checkStop at h
  split at h
  · cases h
  · cases h
  · split at h
    · cases h
      exact ⟨rfl, rfl, rfl, fun _ => rfl, (nomatch ·)⟩
    · split at h
      · cases h
      · split at h
        · cases h
          exact ⟨rfl, rfl, rfl, (nomatch ·), fun _ => rfl⟩
        · split at h
          · cases h
            exact ⟨rfl, rfl, rfl, (nomatch ·), fun _ => rfl⟩
          · split at h
            · cases h
              exact ⟨rfl, rfl, rfl, (nomatch ·), fun _ => rfl⟩
            · cases h
              exact ⟨rfl, rfl, rfl, fun _ => rfl, (nomatch ·)⟩

/-- What `_update_request_with_output` of `Scheduler` does to the request. -/
structure Appended (request : Request) (tokens new : List Int) (stopped : Bool)
    (request' : Request) : Prop where
  core : tokenCore request' = tokenCore request
  allTokenIds : request'.allTokenIds = request.allTokenIds ++ new
  outputTokenIds : request'.outputTokenIds = request.outputTokenIds ++ new
  isPrefix : new <+: tokens
  goesOn : stopped = false → request'.status = request.status ∧ new = tokens
  stops : stopped = true → request'.isFinished = true

variable {new : List Int}

theorem appendUntilStop_spec {hasher : Option (Request → List BlockHash)} {m : Nat}
    {tokens : List Int}
    (h : appendUntilStop hasher m request tokens = .ok (new, stopped, request')) :
    Appended request tokens new stopped request' := by
  induction tokens generalizing request new with
  | nil =>
    unfold appendUntilStop at h
    cases h
    exact ⟨rfl, (List.append_nil _).symm, (List.append_nil _).symm, List.nil_prefix,
      fun _ => ⟨rfl, rfl⟩, (nomatch ·)⟩
  | cons token tokens ih =>
    unfold appendUntilStop at h
    obtain ⟨⟨stop, request₁⟩, hcheck, h⟩ := bind_ok h
    obtain ⟨hc, ha, ho, hs⟩ := appendOutputTokenIds_spec hasher request [token]
    obtain ⟨hc1, ha1, ho1, hgo, hstop⟩ := checkStop_spec hcheck
    dsimp only at h
    split at h
    · rename_i hstopped
      cases h
      exact ⟨hc1.trans hc, ha1.trans ha, ho1.trans ho, ⟨tokens, rfl⟩, (nomatch ·),
        fun _ => hstop hstopped⟩
    · rename_i hstopped
      obtain ⟨⟨rest, stop₂, request₂⟩, hrest, h⟩ := bind_ok h
      cases h
      have hfalse : stop = false := by simpa using hstopped
      have hih := ih hrest
      refine ⟨(hih.core.trans hc1).trans hc, ?_, ?_, ?_, fun hf => ?_, hih.stops⟩
      · rw [hih.allTokenIds, ha1, ha, List.append_assoc, List.singleton_append]
      · rw [hih.outputTokenIds, ho1, ho, List.append_assoc, List.singleton_append]
      · exact (List.prefix_cons_inj token).mpr hih.isPrefix
      · obtain ⟨hst, hnew⟩ := hih.goesOn hf
        refine ⟨?_, by rw [hnew]⟩
        rw [hst, hgo hfalse, hs]

/-- What the output of the model does to a request object: the new object, the tokens that
were appended and whether the request stopped. -/
inductive OutputEffect (config : SchedulerConfig) (numDraftTokens : Nat)
    (generated : List Int) (hasPoolerOutput : Bool) (a : Request) :
    Request → List Int → Bool → Prop where
  /-- There is no output. -/
  | nothing (hg : generated = [])
      (hnone : ¬ (a.poolingParams.isSome = true ∧ hasPoolerOutput = true)) :
      OutputEffect config numDraftTokens generated hasPoolerOutput a
        (corrected numDraftTokens generated.length a) [] false
  /-- There is the output of a pooling request. -/
  | pooled (hg : generated = []) (hp : a.poolingParams.isSome = true)
      (ho : hasPoolerOutput = true) :
      OutputEffect config numDraftTokens generated hasPoolerOutput a
        { corrected numDraftTokens generated.length a with status := .finishedStopped } [] true
  /-- Tokens are appended. -/
  | appended {q : Request} {new : List Int} {stopped : Bool} (hg : generated ≠ [])
      (hsync : config.asyncScheduling = false)
      (h : appendUntilStop config.blockHasher config.maxModelLen
        (corrected numDraftTokens generated.length a) generated = .ok (new, stopped, q)) :
      OutputEffect config numDraftTokens generated hasPoolerOutput a q new stopped
  /-- The tokens of a request that was reset are discarded. -/
  | discarded (hg : generated ≠ []) (hasync : config.asyncScheduling = true)
      (hd : a.discardLatestAsyncTokens = true) :
      OutputEffect config numDraftTokens generated hasPoolerOutput a
        { corrected numDraftTokens generated.length a with discardLatestAsyncTokens := false }
        [] false
  /-- Tokens take the place of placeholders. -/
  | appendedAsync {q : Request} {new : List Int} {stopped : Bool} (hg : generated ≠ [])
      (hasync : config.asyncScheduling = true) (hd : a.discardLatestAsyncTokens = false)
      (h : appendUntilStop config.blockHasher config.maxModelLen
        (corrected numDraftTokens generated.length a) generated = .ok (new, stopped, q))
      (hpos : 0 ≤ q.numOutputPlaceholders - new.length) :
      OutputEffect config numDraftTokens generated hasPoolerOutput a
        { q with numOutputPlaceholders := q.numOutputPlaceholders - new.length } new stopped

theorem corrected_fields (d g : Nat) (a : Request) :
    (corrected d g a).status = a.status ∧ (corrected d g a).requestId = a.requestId ∧
      (corrected d g a).allTokenIds = a.allTokenIds ∧
      (corrected d g a).discardLatestAsyncTokens = a.discardLatestAsyncTokens ∧
      (corrected d g a).poolingParams = a.poolingParams ∧
      (corrected d g a).mmFeatures = a.mmFeatures ∧
      (corrected d g a).loraRequest = a.loraRequest := by
  unfold corrected
  split <;> exact ⟨rfl, rfl, rfl, rfl, rfl, rfl, rfl⟩

variable {generated : List Int}

/-- What the output of the model leaves of a request that did not stop, and of any request. -/
theorem OutputEffect.fields {config : SchedulerConfig} {d : Nat} {a q : Request}
    (h : OutputEffect config d generated b a q new stopped) :
    q.requestId = a.requestId ∧ (stopped = false → q.status = a.status) ∧
      (stopped = true → q.isFinished = true) ∧ q.allTokenIds = a.allTokenIds ++ new ∧
      q.mmFeatures = a.mmFeatures ∧ q.loraRequest = a.loraRequest := by
  obtain ⟨hstatus, hid, hall, -, -, hmm, hlora⟩ := corrected_fields d generated.length a
  have happ : ∀ {q : Request}, Appended (corrected d generated.length a) generated new stopped q →
      q.requestId = a.requestId ∧ (stopped = false → q.status = a.status) ∧
      (stopped = true → q.isFinished = true) ∧ q.allTokenIds = a.allTokenIds ++ new ∧
      q.mmFeatures = a.mmFeatures ∧ q.loraRequest = a.loraRequest := by
    intro q hq
    have hcore : ∀ {α : Type} (f : Request → α), (∀ x, f (tokenCore x) = f x) →
        f q = f (corrected d generated.length a) := by
      intro α f hf
      rw [← hf q, hq.core, hf]
    refine ⟨(hcore Request.requestId fun _ => rfl).trans hid,
      fun hs => (hq.goesOn hs).1.trans hstatus, hq.stops, ?_,
      (hcore Request.mmFeatures fun _ => rfl).trans hmm,
      (hcore Request.loraRequest fun _ => rfl).trans hlora⟩
    rw [hq.allTokenIds, hall]
  cases h with
  | nothing hg hnone =>
    exact ⟨hid, fun _ => hstatus, (nomatch ·), by rw [hall, List.append_nil], hmm, hlora⟩
  | pooled hg hp ho =>
    exact ⟨hid, (nomatch ·), fun _ => rfl, by rw [List.append_nil]; exact hall, hmm, hlora⟩
  | appended hg hsync h => exact happ (appendUntilStop_spec h)
  | discarded hg hasync hd =>
    exact ⟨hid, fun _ => hstatus, (nomatch ·), by rw [List.append_nil]; exact hall, hmm,
      hlora⟩
  | appendedAsync hg hasync hd h hpos =>
    obtain ⟨h1, h2, h3, h4, h5, h6⟩ := happ (appendUntilStop_spec h)
    exact ⟨h1, h2, h3, h4, h5, h6⟩

/-- The blocks that are cached with the output of an asynchronous step. -/
def CachedWithOutput (s : Scheduler) (r : ReqRef) (q : Request) (k : KVCacheManager) : Prop :=
  k = s.kvCacheManager ∨ (s.objects r).status = .running ∧ 0 ≤ q.numOutputPlaceholders ∧
    s.kvCacheManager.cacheBlocks q (q.numComputedTokens - q.numOutputPlaceholders) = .ok k

/-- The state after the output of the model has changed the object behind `r`. -/
def withOutput (s : Scheduler) (r : ReqRef) (q : Request) (k : KVCacheManager) : Scheduler :=
  { s with
    objects := update s.objects r q
    kvCacheManager := k }

theorem appendNewTokens_cases {s s' : Scheduler} {tokens : List Int}
    (h : s.appendNewTokens r tokens = .ok (new, stopped, s')) :
    ∃ q, appendUntilStop s.config.blockHasher s.config.maxModelLen (s.objects r) tokens =
        .ok (new, stopped, q) ∧
      s' = { s with objects := update s.objects r q } := by
  unfold appendNewTokens at h
  obtain ⟨⟨new', stopped', q⟩, hq, h⟩ := bind_ok h
  cases h
  exact ⟨q, hq, rfl⟩

/-- The part of a pass that looks at the output. -/
theorem checkOutput_cases {p p' : UpdatePass} {d : Nat} {a : Request}
    (ha : p.s.objects r = corrected d generated.length a)
    (h : p.checkOutput r generated b = .ok (new, stopped, p')) :
    ∃ q k, OutputEffect p.s.config d generated b a q new stopped ∧
      CachedWithOutput p.s r q k ∧ p' = { p with s := withOutput p.s r q k } := by
  obtain ⟨hstatus, -, -, hdisc, hpool, -, -⟩ := corrected_fields d generated.length a
  unfold UpdatePass.checkOutput at h
  split at h
  · rename_i hne
    have hg : generated ≠ [] := by
      rintro rfl
      cases hne
    obtain ⟨⟨new', stopped', s'⟩, hs, h⟩ := bind_ok h
    cases h
    unfold Scheduler.updateRequestWithOutput at hs
    split at hs
    · rename_i hasync
      unfold Scheduler.appendNewTokensAsync at hs
      split at hs
      · rename_i hd
        cases hs
        rw [ha, hdisc] at hd
        refine ⟨_, p.s.kvCacheManager, .discarded hg hasync hd, .inl rfl, ?_⟩
        unfold withOutput Scheduler.modify
        rw [ha]
      · rename_i hd
        rw [ha, hdisc] at hd
        obtain ⟨⟨new1, stopped₁, s1⟩, h1, hs⟩ := bind_ok hs
        obtain ⟨q, hq, rfl⟩ := appendNewTokens_cases h1
        obtain ⟨u, hpos, hs⟩ := bind_ok hs
        obtain ⟨k, hk, hs⟩ := bind_ok hs
        cases hs
        rw [ha] at hq
        have hobj : ∀ f : Request → Request, (Scheduler.modify { p.s with
            objects := update p.s.objects r q } r f).objects r = f q := by
          intro f
          show update (update p.s.objects r q) r _ r = f q
          rw [update_self]
          exact congrArg f (update_self ..)
        have hpos' : 0 ≤ q.numOutputPlaceholders - new.length := by
          have := of_decide_eq_true (pyAssert_eq_ok_iff.mp hpos)
          rw [hobj] at this
          exact this
        refine ⟨_, k, .appendedAsync hg hasync (by simpa using hd) hq hpos', ?_, ?_⟩
        · split at hk
          · rename_i hrun
            right
            rw [hobj] at hk
            exact ⟨hrun, hpos', hk⟩
          · cases hk
            exact .inl rfl
        · unfold withOutput
          refine congrArg (fun o => { p with s := { p.s with
            objects := o
            kvCacheManager := k } }) ?_
          exact update_update p.s.objects r q fun request => { request with
            numOutputPlaceholders := request.numOutputPlaceholders - new.length }
    · rename_i hsync
      obtain ⟨q, hq, rfl⟩ := appendNewTokens_cases hs
      rw [ha] at hq
      exact ⟨q, p.s.kvCacheManager, .appended hg (by simpa using hsync) hq, .inl rfl, rfl⟩
  · rename_i he
    have hg : generated = [] := by simpa using he
    subst hg
    split at h
    · rename_i hpooled
      cases h
      rw [ha, hpool] at hpooled
      refine ⟨_, p.s.kvCacheManager, .pooled rfl hpooled.1 hpooled.2, .inl rfl, ?_⟩
      unfold withOutput Scheduler.modify
      rw [ha]
    · rename_i hnone
      cases h
      rw [ha, hpool] at hnone
      refine ⟨_, p.s.kvCacheManager, .nothing rfl hnone, .inl rfl, ?_⟩
      unfold withOutput
      rw [← ha, update_eq_self]

/-- How a pass of the loop of `update_from_output` ends. -/
structure RequestUpdated (connector : Option KVConnector) (schedulerOutput : SchedulerOutput)
    (modelRunnerOutput : ModelRunnerOutput) (reqId : String) (r : ReqRef)
    (p p' : UpdatePass) (q : Request) (new : List Int) (stopped : Bool)
    (k : KVCacheManager) : Prop where
  effect : OutputEffect p.s.config
    ((schedulerOutput.scheduledSpecDecodeTokens.get? reqId).getD []).length
    (modelRunnerOutput.sampledTokenIds reqId) (modelRunnerOutput.hasPoolerOutput reqId)
    (p.s.objects r) q new stopped
  cached : CachedWithOutput p.s r q k
  goesOn : stopped = false → p'.s = withOutput p.s r q k ∧
    p'.stoppedRunningReqs = p.stoppedRunningReqs ∧
    p'.stoppedPreemptedReqs = p.stoppedPreemptedReqs
  stops : stopped = true →
    (∃ b, (withOutput p.s r q k).freeRequest connector r = .ok (b, p'.s)) ∧
    p'.stoppedRunningReqs = (if (p.s.objects r).status = .running then
      p.stoppedRunningReqs.insert r else p.stoppedRunningReqs) ∧
    p'.stoppedPreemptedReqs = (if (p.s.objects r).status = .running then
      p.stoppedPreemptedReqs else p.stoppedPreemptedReqs.insert r)

/-- One pass of the loop of `update_from_output` for a request that is known. -/
theorem updateRequest_cases {schedulerOutput : SchedulerOutput}
    {modelRunnerOutput : ModelRunnerOutput} {reqId : String} {p p' : UpdatePass}
    (h : UpdatePass.updateRequest connector schedulerOutput modelRunnerOutput reqId r p = .ok p') :
    ∃ q new stopped k, RequestUpdated connector schedulerOutput modelRunnerOutput reqId r p p'
      q new stopped k := by
  unfold UpdatePass.updateRequest at h
  split at h
  · cases h
  · obtain ⟨⟨new, stopped, p1⟩, hcheck, h⟩ := bind_ok h
    obtain ⟨⟨params, p2⟩, hstop, h⟩ := bind_ok h
    -- The output for the client changes nothing else.
    have hp' : p'.s = p2.s ∧ p'.stoppedRunningReqs = p2.stoppedRunningReqs ∧
        p'.stoppedPreemptedReqs = p2.stoppedPreemptedReqs := by
      dsimp only at h
      split at h
      · cases h
        exact ⟨rfl, rfl, rfl⟩
      · cases h
        exact ⟨rfl, rfl, rfl⟩
    rw [correctRejected_eq] at hcheck
    have hobj : ∀ x : Request, (update p.s.objects r x) r = x := fun x => update_self ..
    obtain ⟨q, k, heff, hcached, rfl⟩ := checkOutput_cases (p := { p with s := { p.s with
      objects := update p.s.objects r (corrected
        ((schedulerOutput.scheduledSpecDecodeTokens.get? reqId).getD []).length
        (modelRunnerOutput.sampledTokenIds reqId).length (p.s.objects r)) } }) (hobj _) hcheck
    have hstatus : (corrected
        ((schedulerOutput.scheduledSpecDecodeTokens.get? reqId).getD []).length
        (modelRunnerOutput.sampledTokenIds reqId).length (p.s.objects r)).status =
        (p.s.objects r).status := (corrected_fields _ _ _).1
    have hwith : withOutput { p.s with objects := update p.s.objects r (corrected
        ((schedulerOutput.scheduledSpecDecodeTokens.get? reqId).getD []).length
        (modelRunnerOutput.sampledTokenIds reqId).length (p.s.objects r)) } r q k =
        withOutput p.s r q k := by
      unfold withOutput
      rw [update_idem]
    refine ⟨q, new, stopped, k, heff, ?_, fun hf => ?_, fun ht => ?_⟩
    · rcases hcached with hc | ⟨hrun, hpos, hc⟩
      · exact .inl hc
      · refine .inr ⟨?_, hpos, hc⟩
        rw [← hstatus]
        exact (congrArg Request.status (hobj _)).symm.trans hrun
    · subst hf
      cases hstop
      exact ⟨hp'.1.trans hwith, hp'.2.1, hp'.2.2⟩
    · subst ht
      simp only [if_true] at hstop
      unfold UpdatePass.stopRequest at hstop
      obtain ⟨⟨b, s1⟩, hfree, hstop⟩ := bind_ok hstop
      rw [hwith] at hfree
      rw [correctRejected_eq] at hstop
      dsimp only at hstop
      have hbefore : (update p.s.objects r (corrected
          ((schedulerOutput.scheduledSpecDecodeTokens.get? reqId).getD []).length
          (modelRunnerOutput.sampledTokenIds reqId).length (p.s.objects r)) r).status =
          (p.s.objects r).status := (congrArg Request.status (hobj _)).trans hstatus
      split at hstop
      · rename_i hrun
        cases hstop
        have hrun' := hbefore.symm.trans hrun
        rw [if_pos hrun', if_pos hrun']
        exact ⟨⟨_, by rw [hp'.1]; exact hfree⟩, hp'.2.1, hp'.2.2⟩
      · rename_i hrun
        cases hstop
        have hrun' : (p.s.objects r).status ≠ .running := fun hr => hrun (hbefore.trans hr)
        rw [if_neg hrun', if_neg hrun']
        exact ⟨⟨_, by rw [hp'.1]; exact hfree⟩, hp'.2.1, hp'.2.2⟩

/-! ### Blocks that failed to load -/

/-- A request without its numbers of computed tokens. -/
def loadCore (request : Request) : Request :=
  { request with numComputedTokens := 0, numExternalComputedTokens := 0 }

/-- Only the numbers of computed tokens are different, and the caches. -/
structure LoadFrame (s s' : Scheduler) : Prop where
  eq : s' = { s with
    objects := s'.objects
    kvCacheManager := s'.kvCacheManager
    failedRecvingKvReqIds := s'.failedRecvingKvReqIds }
  objects : ∀ r, loadCore (s'.objects r) = loadCore (s.objects r)

namespace LoadFrame

variable {s s' s'' : Scheduler}

theorem refl (s : Scheduler) : LoadFrame s s := ⟨rfl, fun _ => rfl⟩

theorem trans (h : LoadFrame s s') (h' : LoadFrame s' s'') : LoadFrame s s'' where
  eq := by
    rw [h'.eq, h.eq]
  objects r := (h'.objects r).trans (h.objects r)

theorem of_modify {r : ReqRef} {f : Request → Request}
    (hf : loadCore (f (s.objects r)) = loadCore (s.objects r)) :
    LoadFrame s (s.modify r f) := by
  refine ⟨rfl, fun r' => ?_⟩
  show loadCore (update s.objects r _ r') = _
  by_cases hr : r' = r
  · subst hr
    rw [update_self]
    exact hf
  · rw [update_of_ne hr]

/-- An attribute that `loadCore` keeps. -/
theorem of_core {α : Type} (h : LoadFrame s s') (f : Request → α)
    (hf : ∀ request, f (loadCore request) = f request) (r : ReqRef) :
    f (s'.objects r) = f (s.objects r) := by
  rw [← hf (s'.objects r), h.objects r, hf]

end LoadFrame

theorem invalidBlockLoop_frame (r : ReqRef) (ids : List Int) (evict : Bool) (m : Int)
    (n idx : Nat) (blocks : List Int) (p : Scheduler.InvalidPass) :
    LoadFrame p.s (invalidBlockLoop r ids evict m n idx blocks p).s := by
  induction blocks generalizing n idx p with
  | nil =>
    cases n with
    | zero => exact .refl _
    | succ n => exact .refl _
  | cons blockId blocks ih =>
    cases n with
    | zero => exact .refl _
    | succ n =>
      have next : ∀ q : Scheduler.InvalidPass, LoadFrame p.s q.s → LoadFrame p.s
          (invalidBlockLoop r ids evict m n (idx + 1) blocks q).s :=
        fun q hq => hq.trans (ih n (idx + 1) q)
      unfold invalidBlockLoop
      dsimp only
      split
      · exact next _ (.refl _)
      · split
        · exact next _ (.refl _)
        · split
          · exact next _ (.refl _)
          · have hmod : LoadFrame p.s (p.s.modify r fun request => { request with
                numComputedTokens := (idx * p.s.config.blockSize : Int)
                numExternalComputedTokens := request.numExternalComputedTokens -
                  (m - (idx * p.s.config.blockSize : Int)) }) := LoadFrame.of_modify rfl
            exact next _ hmod

theorem invalidRequestStep_frame {ids : List Int} {evict : Bool} {p p' : Scheduler.InvalidPass}
    (h : invalidRequestStep ids evict p r = .ok p') : LoadFrame p.s p'.s := by
  unfold invalidRequestStep at h
  dsimp only at h
  split at h
  · rename_i blocks _
    generalize (if (p.s.objects r).status = .waitingForRemoteKvs then
        if (p.s.objects r).requestId ∈ p.s.failedRecvingKvReqIds then
          (p.s.objects r).numComputedTokens
        else blocks.length * (p.s.config.blockSize : Int)
      else (p.s.objects r).numCachedTokens) = m at h
    have hframe := invalidBlockLoop_frame r ids evict m
      ((m + p.s.config.blockSize - 1) / p.s.config.blockSize).toNat 0 blocks
      { p with isAffected := false, markedInvalidBlock := false }
    generalize invalidBlockLoop r ids evict m
      ((m + p.s.config.blockSize - 1) / p.s.config.blockSize).toNat 0 blocks
      { p with isAffected := false, markedInvalidBlock := false } = q at h hframe
    split at h
    · cases h
      exact hframe
    · cases h
      dsimp only
      split
      · exact hframe
      · have hmod : LoadFrame q.s (q.s.modify r fun request =>
            { request with numComputedTokens := request.numCachedTokens }) :=
          LoadFrame.of_modify rfl
        exact hframe.trans hmod
  · cases h

theorem updateRequestsWithInvalidBlocks_frame {s : Scheduler} {requests : List ReqRef}
    {ids : List Int} {evict : Bool} {p : Scheduler.InvalidPass}
    (h : s.updateRequestsWithInvalidBlocks requests ids evict = .ok p) : LoadFrame s p.s := by
  have key : ∀ (l : List ReqRef) (q : Scheduler.InvalidPass),
      l.foldlM (invalidRequestStep ids evict) q = .ok p → LoadFrame q.s p.s := by
    intro l
    induction l with
    | nil =>
      intro q hq
      cases hq
      exact .refl _
    | cons r l ih =>
      intro q hq
      rw [List.foldlM_cons] at hq
      obtain ⟨q1, h1, hq⟩ := bind_ok hq
      exact (invalidRequestStep_frame h1).trans (ih q1 hq)
  exact key requests { s := s } h

/-- What `_handle_invalid_blocks` changes. -/
theorem handleInvalidBlocks_frame {s s' : Scheduler} {ids : List Int} {failed : List String}
    (h : s.handleInvalidBlocks ids = .ok (failed, s')) : LoadFrame s s' := by
  unfold handleInvalidBlocks at h
  obtain ⟨p1, h1, h⟩ := bind_ok h
  obtain ⟨p2, h2, h⟩ := bind_ok h
  have hframe := (updateRequestsWithInvalidBlocks_frame h1).trans
    (updateRequestsWithInvalidBlocks_frame h2)
  dsimp only at h
  split at h
  · cases h
    exact hframe
  · obtain ⟨k, -, h⟩ := bind_ok h
    split at h
    · cases h
      exact hframe.trans ⟨rfl, fun _ => rfl⟩
    · cases h
      exact hframe.trans ⟨rfl, fun _ => rfl⟩

section Failed
variable {ids : List Int} {evict : Bool}

theorem invalidBlockLoop_affectedReqIds (r : ReqRef) (ids : List Int) (evict : Bool) (m : Int)
    (n idx : Nat) (blocks : List Int) (p : Scheduler.InvalidPass) :
    (invalidBlockLoop r ids evict m n idx blocks p).affectedReqIds = p.affectedReqIds := by
  induction blocks generalizing n idx p with
  | nil => cases n <;> rfl
  | cons blockId blocks ih =>
    cases n with
    | zero => rfl
    | succ n =>
      unfold invalidBlockLoop
      dsimp only
      split
      · exact ih ..
      · split
        · exact ih ..
        · split
          · exact ih ..
          · exact ih ..

variable {p : Scheduler.InvalidPass}

theorem invalidRequestStep_affectedReqIds {r : ReqRef} {p' : Scheduler.InvalidPass}
    (h : invalidRequestStep ids evict p r = .ok p') :
    ∀ x ∈ p'.affectedReqIds, x ∈ p.affectedReqIds ∨ x = (p.s.objects r).requestId := by
  intro x hx
  unfold invalidRequestStep at h
  dsimp only at h
  split at h
  · rename_i blocks _
    generalize (if (p.s.objects r).status = .waitingForRemoteKvs then
        if (p.s.objects r).requestId ∈ p.s.failedRecvingKvReqIds then
          (p.s.objects r).numComputedTokens
        else blocks.length * (p.s.config.blockSize : Int)
      else (p.s.objects r).numCachedTokens) = m at h
    have hloop := invalidBlockLoop_affectedReqIds r ids evict m
      ((m + p.s.config.blockSize - 1) / p.s.config.blockSize).toNat 0 blocks
      { p with isAffected := false, markedInvalidBlock := false }
    generalize invalidBlockLoop r ids evict m
      ((m + p.s.config.blockSize - 1) / p.s.config.blockSize).toNat 0 blocks
      { p with isAffected := false, markedInvalidBlock := false } = q at h hloop
    split at h
    · cases h
      exact .inl (hloop ▸ hx)
    · cases h
      rcases List.mem_insert_iff.mp hx with rfl | hx
      · exact .inr rfl
      · refine .inl ?_
        rw [apply_ite Scheduler.InvalidPass.affectedReqIds, ite_self] at hx
        exact hloop ▸ hx
  · cases h

theorem updateRequestsWithInvalidBlocks_affectedReqIds {s : Scheduler} {requests : List ReqRef}
    (h : s.updateRequestsWithInvalidBlocks requests ids evict = .ok p) :
    ∀ x ∈ p.affectedReqIds, ∃ r ∈ requests, (s.objects r).requestId = x := by
  have key : ∀ (l : List ReqRef) (q : Scheduler.InvalidPass), LoadFrame s q.s →
      l.foldlM (invalidRequestStep ids evict) q = .ok p →
      ∀ x ∈ p.affectedReqIds, x ∈ q.affectedReqIds ∨ ∃ r ∈ l, (s.objects r).requestId = x := by
    intro l
    induction l with
    | nil =>
      intro q _ hq x hx
      cases hq
      exact .inl hx
    | cons r l ih =>
      intro q hframe hq x hx
      rw [List.foldlM_cons] at hq
      obtain ⟨q1, h1, hq⟩ := bind_ok hq
      rcases ih q1 (hframe.trans (invalidRequestStep_frame h1)) hq x hx with hx | ⟨r', hr', hid⟩
      · rcases invalidRequestStep_affectedReqIds h1 x hx with hx | rfl
        · exact .inl hx
        · exact .inr ⟨r, List.mem_cons_self,
            (hframe.of_core Request.requestId (fun _ => rfl) r).symm⟩
      · exact .inr ⟨r', List.mem_cons_of_mem _ hr', hid⟩
  intro x hx
  exact (key requests { s := s } (.refl s) h x hx).resolve_left List.not_mem_nil

/-- The requests whose loads failed stand in the queues. -/
theorem failed_of_handleInvalidBlocks {s s' : Scheduler} {failed : List String}
    (h : s.handleInvalidBlocks ids = .ok (failed, s')) :
    ∀ x ∈ failed, ∃ r ∈ s.waiting ++ s.running, (s.objects r).requestId = x := by
  unfold handleInvalidBlocks at h
  obtain ⟨p1, h1, h⟩ := bind_ok h
  obtain ⟨p2, h2, h⟩ := bind_ok h
  have hframe := updateRequestsWithInvalidBlocks_frame h1
  have hasync : ∀ x ∈ p1.affectedReqIds, ∃ r ∈ s.waiting ++ s.running,
      (s.objects r).requestId = x := by
    intro x hx
    obtain ⟨r, hr, hid⟩ := updateRequestsWithInvalidBlocks_affectedReqIds h1 x hx
    exact ⟨r, List.mem_append_left _ (List.mem_of_mem_filter hr), hid⟩
  have hsync : ∀ x ∈ p2.affectedReqIds, ∃ r ∈ s.waiting ++ s.running,
      (s.objects r).requestId = x := by
    intro x hx
    obtain ⟨r, hr, hid⟩ := updateRequestsWithInvalidBlocks_affectedReqIds h2 x hx
    have hrunning : p1.s.running = s.running := by rw [hframe.eq]
    rw [hrunning] at hr
    exact ⟨r, List.mem_append_right _ hr,
      (hframe.of_core Request.requestId (fun _ => rfl) r).symm.trans hid⟩
  dsimp only at h
  split at h
  · cases h
    exact fun x hx => absurd hx List.not_mem_nil
  · obtain ⟨k, -, h⟩ := bind_ok h
    split at h
    · cases h
      intro x hx
      exact (List.mem_union_iff.mp hx).elim (hasync x) (hsync x)
    · cases h
      exact hsync

end Failed

end Vllm.Proofs.Sched
