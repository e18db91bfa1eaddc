import Mathlib.Data.List.Nodup
import Mathlib.Logic.Relation
import Vllm.Lib.MapM
import Vllm.V1.Core.Sched.Update

/-!
# `Vllm.Proofs.Sched.PassSteps`: what one call of `schedule` does

The two loops of `schedule` are taken apart once. `PassStep` lists the changes that a pass of
a loop is made of, each with the calls it rests on: a plan for the encoder inputs, a failed
allocation, a preemption, a running request that is scheduled, a waiting request that is put
aside or admitted.

* `runningLoop_steps`, `waitingLoop_steps`: a loop that does not raise is a sequence of steps.
* `scheduleLoops_steps`: both loops, before the skipped requests are put back.
* `PlanFresh`: the encoder inputs of a plan are not in the encoder cache when they are
  allocated, although requests may be preempted between the plan and the allocation.
-/

set_option autoImplicit false

namespace Vllm.Proofs.Sched

open Vllm.Lib Vllm.V1 Vllm.V1.Core SchedulePass Scheduler EncoderCacheManager List

/-- What is known of the cached tokens of a request at the head of the waiting queue. -/
structure CachedFor (connector : Option KVConnector) (s : Scheduler) (r : ReqRef)
    (t : SchedulePass.CachedTokens) : Prop where
  zero : (s.objects r).numComputedTokens = 0 →
    s.kvCacheManager.getComputedBlocks (s.objects r) =
        .ok (t.newComputedBlocks, t.numNewLocalComputedTokens) ∧
      t.numComputedTokens = t.numNewLocalComputedTokens + t.numExternalComputedTokens
  nonzero : (s.objects r).numComputedTokens ≠ 0 →
    t = { newComputedBlocks := s.kvCacheManager.emptyKvCacheBlocks
          numNewLocalComputedTokens := 0
          numExternalComputedTokens := 0
          loadKvAsync := false
          numComputedTokens := (s.objects r).numComputedTokens }
  noConnector : connector = none → t.numExternalComputedTokens = 0 ∧ t.loadKvAsync = false
  external : t.numExternalComputedTokens = 0 ∨ ∃ k request b, connector = some k ∧
    k.getNumNewMatchedTokens request t.numNewLocalComputedTokens =
      (some t.numExternalComputedTokens, b)

/-- The call of `allocate_slots` for a waiting request. -/
def allocateWaiting (s : Scheduler) (r : ReqRef) (t : SchedulePass.CachedTokens)
    (numNewTokens : Int) : Except PyError (Option KVCacheBlocks × KVCacheManager) :=
  s.kvCacheManager.allocateSlots (s.objects r) (numNewTokens + t.numExternalComputedTokens)
    t.numNewLocalComputedTokens (some t.newComputedBlocks)
    (if (s.objects r).numComputedTokens = 0 then 0 else s.config.numLookaheadTokens)
    t.loadKvAsync
    (if s.config.isEncoderDecoder = true ∧ (s.objects r).hasEncoderInputs = true then
      s.config.configMaxNumEncoderInputTokens else 0)

/-- The call of `allocate_slots` for a running request. -/
def allocateRunning (s : Scheduler) (r : ReqRef) (numNewTokens : Int) :
    Except PyError (Option KVCacheBlocks × KVCacheManager) :=
  s.kvCacheManager.allocateSlots (s.objects r) numNewTokens 0 none s.config.numLookaheadTokens
    false 0

/-- The identifiers of encoder inputs of a request. -/
def identifiers (request : Request) (inputs : List Nat) : List String :=
  inputs.filterMap fun i => (request.mmFeatures[i]?).map MultiModalFeatureSpec.identifier

/-- The inputs that a plan allocates are not in the encoder cache, and no two of them have
the same identifier. -/
structure PlanFresh (e : EncoderCacheManager) (request : Request)
    (plan : Scheduler.EncoderPlan) : Prop where
  nodup : (identifiers request
    (plan.encoderInputsToSchedule ++ plan.externalLoadEncoderInput)).Nodup
  notCached : ∀ h ∈ identifiers request
    (plan.encoderInputsToSchedule ++ plan.externalLoadEncoderInput), e.cached.get? h = none

/-- An encoder input of a request object is freed. -/
inductive FreeStep (s : Scheduler) (e e' : EncoderCacheManager) : Prop where
  | free (r : ReqRef) (i : Nat) (h : e.freeEncoderInput (s.objects r) i = .ok e')

/-- Any number of encoder inputs are freed. -/
abbrev FreeSteps (s : Scheduler) : EncoderCacheManager → EncoderCacheManager → Prop :=
  Relation.ReflTransGen (FreeStep s)

/-- What is known of the plan for the encoder inputs of a request when they are allocated: the
call it comes from, with only frees in between, and that its inputs are still fresh. -/
structure PlanOf (ec : Option ECConnector) (s : Scheduler) (r : ReqRef) (c : Int)
    (plan : Scheduler.EncoderPlan) : Prop where
  origin : ∃ (s₀ s₁ : Scheduler) (n budget : Int), s₀.config = s.config ∧
    s₀.encoderCacheManager.isEncoderDecoder = s.encoderCacheManager.isEncoderDecoder ∧
    s₀.tryScheduleEncoderInputs ec (s.objects r) c n budget = .ok (plan, s₁) ∧
    FreeSteps s s₁.encoderCacheManager s.encoderCacheManager
  fresh : s.config.isEncoderDecoder = false → s.encoderCacheManager.isEncoderDecoder = false →
    PlanFresh s.encoderCacheManager (s.objects r) plan

/-- A further LoRA fits. -/
def LoraFits (p : SchedulePass) (request : Request) : Prop :=
  ∀ m lora, p.s.config.maxLoras = some m → request.loraRequest = some lora →
    p.scheduledLoras.length = m → lora.loraIntId ∈ p.scheduledLoras

/-- No waiting request has been scheduled in this call. -/
def RunningPhase (p : SchedulePass) : Prop :=
  p.scheduledNewReqs = [] ∧ p.scheduledResumedReqs = []

/-- The head `r` of the waiting queue, with `rest` behind it, has moved to `self.running`. -/
def admitted (p : SchedulePass) (r : ReqRef) (rest : List ReqRef) (k : KVCacheManager)
    (c n : Int) : SchedulePass :=
  ({ p with s.kvCacheManager := k, s.waiting := rest } : SchedulePass).markRunning r c n

/-- There is room for another running request. -/
def HasRoom (s : Scheduler) : Prop :=
  s.running.length ≠ s.config.maxNumRunningReqs

/-- The two loops of `schedule`. -/
inductive Phase where
  | running
  | waiting

/-- One change in a call of `schedule`, in the loop over the running requests or in the loop
over the waiting ones. -/
inductive PassStep (connector : Option KVConnector) (ec : Option ECConnector) :
    Phase → SchedulePass → SchedulePass → Prop where
  /-- The encoder inputs of a request are planned. -/
  | planEncoder {phase : Phase} {p : SchedulePass} {s : Scheduler} {r : ReqRef} {c n : Int}
      {plan : Scheduler.EncoderPlan}
      (h : p.s.tryScheduleEncoderInputs ec (p.s.objects r) c n p.encoderComputeBudget =
        .ok (plan, s)) :
      PassStep connector ec phase p { p with s := s }
  /-- The loop over the running requests moves on. -/
  | nextIndex {p : SchedulePass} :
      PassStep connector ec .running p { p with reqIndex := p.reqIndex + 1 }
  /-- There are too few blocks for a running request. -/
  | runFail {p : SchedulePass} {r : ReqRef} {n : Int} {k : KVCacheManager}
      (hr : r ∈ p.s.running) (hn : n ≠ 0)
      (h : allocateRunning p.s r n = .ok (none, k)) :
      PassStep connector ec .running p { p with s.kvCacheManager := k }
  /-- The running request with the lowest priority is preempted. -/
  | preempt {p p₁ : SchedulePass} {s₁ : Scheduler} {victim : ReqRef} (hphase : RunningPhase p)
      (hfcfs : p.s.config.policy = .fcfs → victim ∉ p.scheduledRunningReqs)
      (hpop : p.popLowest = .ok (victim, p₁)) (hpre : p₁.s.preemptRequest victim = .ok s₁) :
      PassStep connector ec .running p
        { p₁ with s := s₁, preemptedReqs := p₁.preemptedReqs ++ [victim] }
  /-- A running request is scheduled, with its encoder inputs. -/
  | run {p p' : SchedulePass} {r : ReqRef} {n : Int} {newBlocks : KVCacheBlocks}
      {k : KVCacheManager} {plan : Scheduler.EncoderPlan} (hphase : RunningPhase p)
      (hr : r ∈ p.s.running) (hfresh : r ∉ p.scheduledRunningReqs) (hn : n ≠ 0)
      (hneed : n ≤ (p.s.objects r).numTokensWithSpec + (p.s.objects r).numOutputPlaceholders
        - (p.s.objects r).numComputedTokens)
      (hcap : n ≤ p.s.config.maxModelLen - 1 - (p.s.objects r).numComputedTokens)
      (hpos : (p.s.objects r).numComputedTokens ≤ (p.s.objects r).numTokensWithSpec
        + (p.s.objects r).numOutputPlaceholders →
        (p.s.objects r).numComputedTokens < p.s.config.maxModelLen → 0 < n)
      (h : allocateRunning p.s r n = .ok (some newBlocks, k))
      (hplan : PlanOf ec p.s r (p.s.objects r).numComputedTokens plan)
      (hplan₀ : plan.numNewTokens = n)
      (htake : (({ p with s.kvCacheManager := k }.markScheduled r newBlocks n).takeSpecTokens r
        n).takeEncoderInputs r plan = .ok p') :
      PassStep connector ec .running p p'
  /-- The LoRAs of the scheduled running requests are recorded. -/
  | recordLoras {p p' : SchedulePass} (h : p.recordLoras = .ok p') : PassStep connector ec .running p p'
  /-- The head of the waiting queue is put aside. -/
  | skip {p : SchedulePass} {r : ReqRef} {rest : List ReqRef} (hw : p.s.waiting = r :: rest) :
      PassStep connector ec .waiting p (p.skipWaiting r)
  /-- The remote KVs of the head of the waiting queue have arrived. -/
  | remoteReady {p : SchedulePass} {s : Scheduler} {r : ReqRef} {rest : List ReqRef}
      (hw : p.s.waiting = r :: rest) (hstatus : (p.s.objects r).status = .waitingForRemoteKvs)
      (h : p.s.updateWaitingForRemoteKv r = .ok (true, s)) :
      PassStep connector ec .waiting p
        { p with s := s.modify r fun request => { request with status := .waiting } }
  /-- The grammar of the head of the waiting queue is ready. -/
  | grammarReady {p : SchedulePass} {r : ReqRef} {rest : List ReqRef}
      (hw : p.s.waiting = r :: rest) (hstatus : (p.s.objects r).status = .waitingForFsm) :
      PassStep connector ec .waiting p
        { p with s := p.s.modify r fun request => { request with status := .waiting } }
  /-- The connector has answered for the head of the waiting queue. -/
  | matched {p : SchedulePass} {r : ReqRef} {rest : List ReqRef} {n : Int}
      (hw : p.s.waiting = r :: rest) :
      PassStep connector ec .waiting p { p with s := p.s.modify r fun request =>
        { request with numExternalComputedTokens := n } }
  /-- There are too few blocks for the head of the waiting queue. -/
  | admitFail {p : SchedulePass} {r : ReqRef} {rest : List ReqRef}
      {t : SchedulePass.CachedTokens} {n : Int} {k : KVCacheManager}
      (hw : p.s.waiting = r :: rest) (ht : CachedFor connector p.s r t)
      (h : allocateWaiting p.s r t n = .ok (none, k)) :
      PassStep connector ec .waiting p { p with s.kvCacheManager := k }
  /-- The head of the waiting queue starts to load its remote KVs. -/
  | awaitRemote {p : SchedulePass} {r : ReqRef} {rest : List ReqRef}
      {t : SchedulePass.CachedTokens} {newBlocks : KVCacheBlocks} {k : KVCacheManager}
      (hw : p.s.waiting = r :: rest) (ht : CachedFor connector p.s r t)
      (hasync : t.loadKvAsync = true) (hext : 0 < t.numExternalComputedTokens)
      (h : allocateWaiting p.s r t 0 = .ok (some newBlocks, k)) :
      PassStep connector ec .waiting p
        { { p with s.kvCacheManager := k }.skipWaiting r with
          s := ({ p with s.kvCacheManager := k }.skipWaiting r).s.modify r fun request =>
            { request with status := .waitingForRemoteKvs } }
  /-- The head of the waiting queue is scheduled as a new request. -/
  | admitNew {p p' : SchedulePass} {r : ReqRef} {rest : List ReqRef}
      {t : SchedulePass.CachedTokens} {n : Int} {newBlocks : KVCacheBlocks} {k : KVCacheManager}
      {plan : Scheduler.EncoderPlan}
      (hw : p.s.waiting = r :: rest) (ht : CachedFor connector p.s r t)
      (hasync : t.loadKvAsync = false) (hn : 0 < n) (hbudget : n ≤ p.tokenBudget)
      (hroom : HasRoom p.s)
      (hneed : n ≤ (p.s.objects r).numTokens - t.numComputedTokens)
      (hstatus : (p.s.objects r).status = .waiting) (hlora : LoraFits p (p.s.objects r))
      (h : allocateWaiting p.s r t n = .ok (some newBlocks, k))
      (hplan : PlanOf ec p.s r t.numComputedTokens plan) (hplan₀ : plan.numNewTokens = n)
      (htake : { admitted p r rest k t.numComputedTokens n with
        scheduledNewReqs := (admitted p r rest k t.numComputedTokens n).scheduledNewReqs ++
          [r] }.takeEncoderInputs r plan = .ok p') :
      PassStep connector ec .waiting p p'
  /-- The head of the waiting queue is scheduled as a resumed request. -/
  | admitResumed {p p' : SchedulePass} {r : ReqRef} {rest : List ReqRef}
      {t : SchedulePass.CachedTokens} {n : Int} {newBlocks : KVCacheBlocks} {k : KVCacheManager}
      {plan : Scheduler.EncoderPlan}
      (hw : p.s.waiting = r :: rest) (ht : CachedFor connector p.s r t)
      (hasync : t.loadKvAsync = false) (hn : 0 < n) (hbudget : n ≤ p.tokenBudget)
      (hroom : HasRoom p.s)
      (hneed : n ≤ (p.s.objects r).numTokens - t.numComputedTokens)
      (hstatus : (p.s.objects r).status = .preempted) (hlora : LoraFits p (p.s.objects r))
      (h : allocateWaiting p.s r t n = .ok (some newBlocks, k))
      (hplan : PlanOf ec p.s r t.numComputedTokens plan) (hplan₀ : plan.numNewTokens = n)
      (htake : { admitted p r rest k t.numComputedTokens n with
        scheduledResumedReqs := (admitted p r rest k t.numComputedTokens n).scheduledResumedReqs ++
          [r] }.takeEncoderInputs r plan = .ok p') :
      PassStep connector ec .waiting p p'

/-- Any number of changes in one loop. -/
abbrev PhaseSteps (connector : Option KVConnector) (ec : Option ECConnector) (phase : Phase) :
    SchedulePass → SchedulePass → Prop :=
  Relation.ReflTransGen (PassStep connector ec phase)

/-- Any number of changes in a call of `schedule`. -/
abbrev PassSteps (connector : Option KVConnector) (ec : Option ECConnector) :
    SchedulePass → SchedulePass → Prop :=
  Relation.ReflTransGen fun p p' => ∃ phase, PassStep connector ec phase p p'

variable {p : SchedulePass}

theorem PhaseSteps.passSteps {connector : Option KVConnector} {ec : Option ECConnector}
    {phase : Phase} {p' : SchedulePass} (h : PhaseSteps connector ec phase p p') :
    PassSteps connector ec p p' :=
  Relation.ReflTransGen.mono (fun _ _ hstep => ⟨phase, hstep⟩) _ _ h

/-! ### The encoder cache -/

section Encoder

/-- No hash enters the encoder cache, and those that leave it are reported. -/
structure NoNewHashes (e e' : EncoderCacheManager) : Prop where
  decoder : e'.isEncoderDecoder = e.isEncoderDecoder
  hashes : ∀ h, e.cached.get? h = none → e'.cached.get? h = none
  freed : ∀ h ∈ e'.freed, h ∈ e.freed ∨ e'.cached.get? h = none

theorem NoNewHashes.refl (e : EncoderCacheManager) : NoNewHashes e e :=
  ⟨rfl, fun _ h => h, fun _ h => .inl h⟩

variable {e e' : EncoderCacheManager}

theorem NoNewHashes.trans {e'' : EncoderCacheManager} (h : NoNewHashes e e')
    (h' : NoNewHashes e' e'') : NoNewHashes e e'' :=
  ⟨h'.1.trans h.1, fun k hk => h'.2 k (h.2 k hk), fun k hk => (h'.freed k hk).elim
    (fun hk => (h.freed k hk).imp_right (h'.hashes k)) .inr⟩

/-- A fold of operations that raise or let no hash enter lets no hash enter. -/
theorem noNewHashes_foldlM {α : Type}
    {f : EncoderCacheManager → α → Except PyError EncoderCacheManager}
    (hf : ∀ e a e', f e a = .ok e' → NoNewHashes e e') (l : List α)
    (e e' : EncoderCacheManager) (h : l.foldlM f e = .ok e') : NoNewHashes e e' := by
  induction l generalizing e with
  | nil =>
    obtain rfl := Except.ok.inj h
    exact .refl e
  | cons a l ih =>
    rw [foldlM_cons] at h
    obtain ⟨e1, h1, h⟩ := bind_ok h
    exact (hf e a e1 h1).trans (ih e1 h)

theorem NoNewHashes.of_cached_insert {h : String} {v ids : List String}
    (hd : e'.isEncoderDecoder = e.isEncoderDecoder) (hmem : e.cached.get? h = some v)
    (hc : e'.cached = e.cached.insert h ids) (hfreed : e'.freed = e.freed) : NoNewHashes e e' := by
  refine ⟨hd, fun k hk => ?_, fun k hk => .inl (hfreed ▸ hk)⟩
  rw [hc, PyDict.get?_insert, if_neg]
  · exact hk
  · rintro rfl
    rw [hmem] at hk
    cases hk

variable {request : Request} {i : Nat}

theorem freeEncoderInput_noNewHashes (h : e.freeEncoderInput request i = .ok e') :
    NoNewHashes e e' := by
  unfold freeEncoderInput at h
  split at h
  · obtain ⟨n, -, h⟩ := bind_ok h
    cases h
    exact ⟨rfl, fun _ hk => hk, fun _ hk => .inl hk⟩
  · obtain ⟨feature, -, h⟩ := bind_ok h
    split at h
    · cases h
      exact .refl e
    · rename_i requestIds hids
      split at h
      · cases h
        exact .refl e
      · dsimp only at h
        split at h
        · obtain ⟨n, -, h⟩ := bind_ok h
          cases h
          exact .of_cached_insert rfl hids rfl rfl
        · cases h
          exact .of_cached_insert rfl hids rfl rfl

theorem free_noNewHashes (h : e.free request = .ok e') : NoNewHashes e e' :=
  noNewHashes_foldlM (fun _ _ _ => freeEncoderInput_noNewHashes) _ _ _ h

variable {s : Scheduler}

theorem FreeSteps.noNewHashes (h : FreeSteps s e e') : NoNewHashes e e' := by
  induction h with
  | refl => exact .refl e
  | tail _ hstep ih =>
    obtain ⟨r, i, h⟩ := hstep
    exact ih.trans (freeEncoderInput_noNewHashes h)

/-- Two objects that name the same encoder inputs. -/
def SameInputs (a b : Request) : Prop :=
  a.requestId = b.requestId ∧ a.mmFeatures = b.mmFeatures

theorem freeEncoderInput_congr {a b : Request} (h : SameInputs a b) (e : EncoderCacheManager)
    (i : Nat) : e.freeEncoderInput a i = e.freeEncoderInput b i := by
  unfold freeEncoderInput Request.getNumEncoderEmbeds Request.mmFeature
  rw [h.1, h.2]

/-- The frees of one scheduler state are frees of another one with the same inputs. -/
theorem FreeSteps.of_sameInputs {s' : Scheduler}
    (hs : ∀ r, SameInputs (s.objects r) (s'.objects r)) (h : FreeSteps s e e') :
    FreeSteps s' e e' := by
  induction h with
  | refl => exact .refl
  | tail _ hstep ih =>
    obtain ⟨r, i, h⟩ := hstep
    rw [freeEncoderInput_congr (hs r)] at h
    exact ih.tail ⟨r, i, h⟩

theorem freeSteps_foldlM {f : EncoderCacheManager → Nat → Except PyError EncoderCacheManager}
    (hf : ∀ e i e', f e i = .ok e' → FreeSteps s e e') (l : List Nat) (e e' : EncoderCacheManager)
    (h : l.foldlM f e = .ok e') : FreeSteps s e e' := by
  induction l generalizing e with
  | nil =>
    cases h
    exact .refl
  | cons i l ih =>
    rw [foldlM_cons] at h
    obtain ⟨e1, h1, h⟩ := bind_ok h
    exact (hf e i e1 h1).trans (ih e1 h)

theorem free_freeSteps {r : ReqRef} (h : e.free (s.objects r) = .ok e') : FreeSteps s e e' :=
  freeSteps_foldlM (fun _ i _ h => .single ⟨r, i, h⟩) _ _ _ h

theorem checkAndUpdateCache_noNewHashes {b : Bool}
    (h : e.checkAndUpdateCache request i = .ok (b, e')) :
    NoNewHashes e e' := by
  unfold checkAndUpdateCache at h
  split at h
  · cases h
    exact .refl e
  · obtain ⟨feature, -, h⟩ := bind_ok h
    split at h
    · cases h
      exact .refl e
    · rename_i requestIds hids
      dsimp only at h
      split at h
      · split at h
        · cases h
        · cases h
          exact .of_cached_insert rfl hids rfl rfl
      · cases h
        exact .of_cached_insert rfl hids rfl rfl

variable {feature : MultiModalFeatureSpec}

/-- A hash that `check_and_update_cache` does not find is not cached. -/
theorem checkAndUpdateCache_false (hd : e.isEncoderDecoder = false)
    (hf : request.mmFeatures[i]? = some feature)
    (h : e.checkAndUpdateCache request i = .ok (false, e')) :
    e' = e ∧ e.cached.get? feature.identifier = none := by
  unfold checkAndUpdateCache Request.mmFeature at h
  rw [hd, hf] at h
  simp only [Bool.false_eq_true, if_false, except_ok_bind] at h
  split at h
  · rename_i hnone
    cases h
    exact ⟨rfl, hnone⟩
  · split at h
    · split at h
      · cases h
      · cases h
    · cases h

variable {n : Int}

theorem evictLoop_noNewHashes {fuel : Nat} (h : evictLoop n fuel e = .ok e') :
    NoNewHashes e e' := by
  induction fuel generalizing e with
  | zero => cases h
  | succ fuel ih =>
    unfold evictLoop at h
    split at h
    · split at h
      · cases h
      · split at h
        · refine NoNewHashes.trans ?_ (ih h)
          refine ⟨rfl, fun k hk => ?_, fun k hk => ?_⟩
          · rw [PyDict.get?_erase]
            split
            · rfl
            · exact hk
          · refine (mem_append.mp hk).imp_right fun hk => ?_
            rw [mem_singleton.mp hk]
            exact PyDict.get?_erase_self _ _
        · cases h
    · cases h
      exact .refl _

theorem canAllocate_noNewHashes {budget : Int} {b : Bool}
    (h : e.canAllocate request i budget n = .ok (b, e')) :
    NoNewHashes e e' := by
  unfold canAllocate at h
  obtain ⟨m, -, h⟩ := bind_ok h
  split at h
  · cases h
    exact .refl e
  · dsimp only at h
    split at h
    · cases h
      exact .refl e
    · split at h
      · cases h
        exact .refl e
      · split at h
        · cases h
          exact .refl e
        · obtain ⟨e1, h1, h⟩ := bind_ok h
          cases h
          exact evictLoop_noNewHashes h1

/-! ### The plan for the encoder inputs -/

theorem identifiers_append (request : Request) (a b : List Nat) :
    identifiers request (a ++ b) = identifiers request a ++ identifiers request b :=
  filterMap_append

theorem identifiers_singleton (h : request.mmFeatures[i]? = some feature) :
    identifiers request [i] = [feature.identifier] := by
  simp [identifiers, h]

/-- The inputs that the loop of `_try_schedule_encoder_inputs` has collected. -/
def collected (plan : Scheduler.EncoderPlan) : List Nat :=
  plan.encoderInputsToSchedule ++ plan.externalLoadEncoderInput

/-- The invariant of that loop: the collected inputs are fresh, and the loop remembers their
hashes. -/
structure EncoderPassInv (request : Request) (p : Scheduler.EncoderPass) : Prop where
  fresh : PlanFresh p.encoderCacheManager request p.plan
  seen : ∀ h ∈ identifiers request (collected p.plan), h ∈ p.mmHashesToSchedule

variable {plan : Scheduler.EncoderPlan}

theorem PlanFresh.mono (h : PlanFresh e request plan) (he : NoNewHashes e e') :
    PlanFresh e' request plan :=
  ⟨h.nodup, fun k hk => he.2 k (h.notCached k hk)⟩

variable {p p' : Scheduler.EncoderPass}

/-- A pass that collects nothing. -/
theorem EncoderPassInv.of_noNewHashes (h : EncoderPassInv request p)
    (he : NoNewHashes p.encoderCacheManager p'.encoderCacheManager)
    (hs : p'.plan.encoderInputsToSchedule = p.plan.encoderInputsToSchedule)
    (hx : p'.plan.externalLoadEncoderInput = p.plan.externalLoadEncoderInput)
    (hm : p'.mmHashesToSchedule = p.mmHashesToSchedule) : EncoderPassInv request p' where
  fresh := by
    refine ⟨?_, ?_⟩
    · rw [hs, hx]
      exact h.fresh.nodup
    · rw [hs, hx]
      exact (h.fresh.mono he).notCached
  seen := by
    unfold collected
    rw [hs, hx, hm]
    exact h.seen

/-- A pass that collects one input, which is neither cached nor remembered. -/
theorem EncoderPassInv.of_collect (h : EncoderPassInv request p)
    (hf : request.mmFeatures[i]? = some feature)
    (hnew : feature.identifier ∉ p.mmHashesToSchedule)
    (hcached : p.encoderCacheManager.cached.get? feature.identifier = none)
    (he : p'.encoderCacheManager = p.encoderCacheManager)
    (hm : p'.mmHashesToSchedule = p.mmHashesToSchedule.insert feature.identifier)
    (hc : (collected p'.plan).Perm (i :: collected p.plan)) : EncoderPassInv request p' := by
  have hperm : (identifiers request (collected p'.plan)).Perm
      (feature.identifier :: identifiers request (collected p.plan)) := by
    have := hc.filterMap fun i => (request.mmFeatures[i]?).map MultiModalFeatureSpec.identifier
    simpa [identifiers, hf] using this
  refine ⟨⟨?_, ?_⟩, ?_⟩
  · refine hperm.nodup_iff.mpr (nodup_cons.mpr ⟨fun hmem => ?_, h.fresh.nodup⟩)
    exact hnew (h.seen _ hmem)
  · intro k hk
    rw [he]
    rcases mem_cons.mp (hperm.mem_iff.mp hk) with rfl | hk
    · exact hcached
    · exact h.fresh.notCached k hk
  · intro k hk
    rw [hm, mem_insert_iff]
    rcases mem_cons.mp (hperm.mem_iff.mp hk) with rfl | hk
    · exact .inl rfl
    · exact .inr (h.seen k hk)

variable {config : SchedulerConfig} {remote : Option (List Bool)} {c : Int}

/-- One pass of the loop. The encoder cache gets no new hash; the number of tokens is kept as
long as the loop goes on and does not grow when it ends; in a decoder-only model the collected
inputs stay fresh. -/
theorem encoderInputStep_inv {shift : Int} {go : Bool} (hshift : shift ≤ 1)
    (hf : request.mmFeatures[i]? = some feature)
    (h : encoderInputStep config remote request c shift p i feature = .ok (go, p')) :
    NoNewHashes p.encoderCacheManager p'.encoderCacheManager ∧
      (go = true → p'.plan.numNewTokens = p.plan.numNewTokens) ∧
      (p'.plan.numNewTokens ≤ p.plan.numNewTokens ∨ p'.plan.numNewTokens = 0) ∧
      (0 ≤ p.plan.numNewTokens → 0 ≤ p'.plan.numNewTokens) ∧
      (config.isEncoderDecoder = false → p.encoderCacheManager.isEncoderDecoder = false →
        EncoderPassInv request p → EncoderPassInv request p') := by
  unfold encoderInputStep at h
  obtain ⟨numEmbeds, -, h⟩ := bind_ok h
  dsimp only at h
  have hsame : NoNewHashes p.encoderCacheManager p.encoderCacheManager ∧
      (go = true → p.plan.numNewTokens = p.plan.numNewTokens) ∧
      (p.plan.numNewTokens ≤ p.plan.numNewTokens ∨ p.plan.numNewTokens = 0) ∧
      (0 ≤ p.plan.numNewTokens → 0 ≤ p.plan.numNewTokens) ∧
      (config.isEncoderDecoder = false → p.encoderCacheManager.isEncoderDecoder = false →
        EncoderPassInv request p → EncoderPassInv request p) :=
    ⟨.refl _, fun _ => rfl, .inl le_rfl, id, fun _ _ h => h⟩
  split at h
  · cases h
    exact hsame
  · rename_i hstart
    split at h
    · obtain ⟨u, -, h⟩ := bind_ok h
      cases h
      exact hsame
    · split at h
      · cases h
        exact hsame
      · split at h
        · cases h
          exact hsame
        · rename_i hseen
          obtain ⟨⟨cached, e⟩, hcheck, h⟩ := bind_ok h
          have he : NoNewHashes p.encoderCacheManager e := by
            split at hcheck
            · cases hcheck
              exact .refl _
            · exact checkAndUpdateCache_noNewHashes hcheck
          have hkeep : EncoderPassInv request p →
              EncoderPassInv request { p with encoderCacheManager := e } :=
            fun hp => hp.of_noNewHashes he rfl rfl rfl
          dsimp only at h
          split at h
          · cases h
            exact ⟨he, fun _ => rfl, .inl le_rfl, id, fun _ _ hp => hkeep hp⟩
          · rename_i hcached
            split at h
            · rename_i hroll
              cases h
              refine ⟨he, (nomatch ·), .inl ?_, fun _ => ?_, fun _ _ hp =>
                hp.of_noNewHashes he rfl rfl rfl⟩
              · show (feature.mmPosition.offset : Int) - c ≤ p.plan.numNewTokens
                omega
              · show 0 ≤ (feature.mmPosition.offset : Int) - c
                omega
            · obtain ⟨⟨can, e'⟩, hcan, h⟩ := bind_ok h
              have he' : NoNewHashes p.encoderCacheManager e' :=
                he.trans (canAllocate_noNewHashes hcan)
              dsimp only at h
              split at h
              · cases h
                refine ⟨he', (nomatch ·), ?_, fun _ => ?_, fun _ _ hp =>
                  hp.of_noNewHashes he' rfl rfl rfl⟩
                · dsimp only
                  split
                  · left
                    omega
                  · exact .inr rfl
                · dsimp only
                  split <;> omega
              · obtain ⟨⟨a, b⟩, -, h⟩ := bind_ok h
                dsimp only at h
                split at h
                · cases h
                  exact ⟨he', fun _ => rfl, .inl le_rfl, id, fun _ _ hp =>
                    hp.of_noNewHashes he' rfl rfl rfl⟩
                · -- The input is collected, for the encoder or for the connector.
                  have hnew : config.isEncoderDecoder = false →
                      feature.identifier ∉ p.mmHashesToSchedule :=
                    fun hd hmem => hseen ⟨hd, hmem⟩
                  have hnone : config.isEncoderDecoder = false →
                      p.encoderCacheManager.isEncoderDecoder = false →
                      e'.cached.get? feature.identifier = none := by
                    intro hd hd'
                    rw [hd] at hcheck
                    simp only [Bool.false_eq_true, if_false] at hcheck
                    have hfalse : cached = false := by simpa using hcached
                    rw [hfalse] at hcheck
                    exact he'.2 _ (checkAndUpdateCache_false hd' hf hcheck).2
                  have hinv : EncoderPassInv request p →
                      EncoderPassInv request { p with encoderCacheManager := e' } :=
                    fun hp => hp.of_noNewHashes he' rfl rfl rfl
                  split at h
                  · cases h
                    refine ⟨he', fun _ => rfl, .inl le_rfl, id, fun hd hd' hp => ?_⟩
                    refine (hinv hp).of_collect hf (hnew hd) (hnone hd hd') rfl rfl ?_
                    simp only [collected, ← append_assoc]
                    exact perm_append_singleton _ _
                  · cases h
                    refine ⟨he', fun _ => rfl, .inl le_rfl, id, fun hd hd' hp => ?_⟩
                    refine (hinv hp).of_collect hf (hnew hd) (hnone hd hd') rfl rfl ?_
                    simp only [collected, append_assoc, singleton_append]
                    exact perm_middle

/-- The loop of `_try_schedule_encoder_inputs` over the features from index `i` on. -/
theorem encoderInputLoop_inv {shift : Int} {features : List MultiModalFeatureSpec}
    (hshift : shift ≤ 1) (hf : request.mmFeatures.drop i = features)
    (h : encoderInputLoop config remote request c shift p i features = .ok p') :
    NoNewHashes p.encoderCacheManager p'.encoderCacheManager ∧
      (p'.plan.numNewTokens ≤ p.plan.numNewTokens ∨ p'.plan.numNewTokens = 0) ∧
      (0 ≤ p.plan.numNewTokens → 0 ≤ p'.plan.numNewTokens) ∧
      (config.isEncoderDecoder = false → p.encoderCacheManager.isEncoderDecoder = false →
        EncoderPassInv request p → EncoderPassInv request p') := by
  induction features generalizing p i with
  | nil =>
    unfold encoderInputLoop at h
    cases h
    exact ⟨.refl _, .inl le_rfl, id, fun _ _ h => h⟩
  | cons feature features ih =>
    unfold encoderInputLoop at h
    obtain ⟨⟨go, p₁⟩, hstep, h⟩ := bind_ok h
    have hfi : request.mmFeatures[i]? = some feature := by
      have := congrArg (·[0]?) hf
      simpa using this
    obtain ⟨he, hgo, hle, hpos, hinv⟩ := encoderInputStep_inv hshift hfi hstep
    dsimp only at h
    split at h
    · rename_i hcont
      have hdrop : request.mmFeatures.drop (i + 1) = features := by
        rw [← tail_drop, hf]
        rfl
      obtain ⟨he', hle', hpos', hinv'⟩ := ih hdrop h
      rw [hgo hcont] at hle'
      exact ⟨he.trans he', hle', fun h0 => hpos' (hpos h0), fun hd hd' hp => hinv' hd (he.1.trans hd') (hinv hd hd' hp)⟩
    · cases h
      exact ⟨he, hle, hpos, hinv⟩

/-- What `_try_schedule_encoder_inputs` does. -/
theorem tryScheduleEncoderInputs_cases {s' : Scheduler} {ec : Option ECConnector} {budget : Int}
    (h : s.tryScheduleEncoderInputs ec request c n budget = .ok (plan, s')) :
    ∃ e, s' = { s with encoderCacheManager := e } ∧ NoNewHashes s.encoderCacheManager e ∧
      (plan.numNewTokens ≤ n ∨ plan.numNewTokens = 0) ∧
      (0 ≤ n → 0 ≤ plan.numNewTokens) ∧
      (s.config.isEncoderDecoder = false → s.encoderCacheManager.isEncoderDecoder = false →
        PlanFresh e request plan) := by
  have hempty : ∀ e, PlanFresh e request { numNewTokens := n, encoderComputeBudget := budget } :=
    fun e => ⟨nodup_nil, nofun⟩
  unfold tryScheduleEncoderInputs at h
  dsimp only at h
  split at h
  · cases h
    exact ⟨s.encoderCacheManager, rfl, .refl _, .inl le_rfl, id, fun _ _ => hempty _⟩
  · obtain ⟨p, hloop, h⟩ := bind_ok h
    cases h
    have hshift : (if s.config.useEagle = true then 1 else 0 : Int) ≤ 1 := by
      split <;> decide
    obtain ⟨he, hle, hpos, hinv⟩ := encoderInputLoop_inv hshift (drop_zero) hloop
    refine ⟨p.encoderCacheManager, rfl, he, hle, hpos, fun hd hd' => ?_⟩
    exact (hinv hd hd' ⟨hempty _, nofun⟩).fresh

/-- `recordLoras` changes the counted LoRAs only. -/
theorem recordLoras_cases {p p' : SchedulePass} (h : p.recordLoras = .ok p') :
    ∃ loras, p' = { p with scheduledLoras := loras } := by
  unfold recordLoras at h
  split at h
  · cases h
    exact ⟨_, rfl⟩
  · obtain ⟨u, -, h⟩ := bind_ok h
    cases h
    exact ⟨_, rfl⟩

/-- What allocating the encoder inputs of a request does. -/
theorem takeEncoderInputs_cases {p p' : SchedulePass} {r : ReqRef}
    (h : p.takeEncoderInputs r plan = .ok p') :
    ∃ e inputs budget, (collected plan).foldlM
        (fun e i => e.allocate (p.s.objects r) i) p.s.encoderCacheManager = .ok e ∧
      inputs = (if plan.encoderInputsToSchedule.isEmpty then p.scheduledEncoderInputs
        else p.scheduledEncoderInputs.insert (p.s.objects r).requestId
          plan.encoderInputsToSchedule) ∧
      p' = { p with
        s.encoderCacheManager := e
        scheduledEncoderInputs := inputs
        encoderComputeBudget := budget } := by
  unfold takeEncoderInputs allocateEncoderInputs at h
  obtain ⟨s1, h1, h⟩ := bind_ok h
  obtain ⟨e1, he1, h1⟩ := bind_ok h1
  cases h1
  obtain ⟨s2, h2, h⟩ := bind_ok h
  obtain ⟨e2, he2, h2⟩ := bind_ok h2
  cases h2
  have hfold : (collected plan).foldlM (fun e i => e.allocate (p.s.objects r) i)
      p.s.encoderCacheManager = .ok e2 := by
    rw [collected, foldlM_append]
    exact bind_eq_ok_iff.mpr ⟨e1, he1, he2⟩
  split at h
  · rename_i hempty
    cases h
    exact ⟨e2, _, p.encoderComputeBudget, hfold, by rw [if_pos hempty], rfl⟩
  · rename_i hempty
    cases h
    exact ⟨e2, _, plan.encoderComputeBudget, hfold, by rw [if_neg hempty], rfl⟩

end Encoder

/-! ### The running requests -/

section Running

/-- A request that `_preempt_request` was called with. -/
def preempted (request : Request) : Request :=
  { request with
    status := .preempted
    numComputedTokens := 0
    numPreemptions := request.numPreemptions + 1 }

variable {r : ReqRef}

/-- What `_preempt_request` does. -/
theorem preemptRequest_cases {s s' : Scheduler} (h : s.preemptRequest r = .ok s') :
    (s.objects r).status = .running ∧
      ∃ k e, s.kvCacheManager.free (s.objects r) = .ok k ∧
        s.encoderCacheManager.free (s.objects r) = .ok e ∧
        s' = ({ s with kvCacheManager := k, encoderCacheManager := e }.modify r
          preempted).prependWaiting r := by
  unfold preemptRequest at h
  obtain ⟨u, hstatus, h⟩ := bind_ok h
  obtain ⟨k, hk, h⟩ := bind_ok h
  obtain ⟨e, he, h⟩ := bind_ok h
  cases h
  exact ⟨of_decide_eq_true (pyAssert_eq_ok_iff.mp hstatus), k, e, hk, he, rfl⟩

/-- The tables of a call without a request that was scheduled in it. -/
def withdrawn (p : SchedulePass) (reqId : String) (victim : ReqRef) (numTokens : Int)
    (restored : Nat) : SchedulePass :=
  { p with
    scheduledRunningReqs := p.scheduledRunningReqs.erase victim
    tokenBudget := p.tokenBudget + numTokens
    reqToNewBlocks := p.reqToNewBlocks.erase reqId
    numScheduledTokens := p.numScheduledTokens.erase reqId
    scheduledSpecDecodeTokens := p.scheduledSpecDecodeTokens.erase reqId
    scheduledEncoderInputs := p.scheduledEncoderInputs.erase reqId
    encoderComputeBudget := p.encoderComputeBudget + restored
    reqIndex := p.reqIndex - 1
    withdrawnEncoderInputs := p.withdrawnEncoderInputs ++
      (p.scheduledEncoderInputs.get? reqId).getD [] }

variable {p : SchedulePass} {victim : ReqRef}

theorem withdraw_cases {p' : SchedulePass} (h : p.withdraw victim = .ok p') : ∃ numTokens restored,
      p.numScheduledTokens.get? (p.s.objects victim).requestId = some numTokens ∧
      sumEncoderEmbeds (p.s.objects victim)
        ((p.scheduledEncoderInputs.get? (p.s.objects victim).requestId).getD []) = .ok restored ∧
      p' = withdrawn p (p.s.objects victim).requestId victim numTokens restored := by
  unfold withdraw at h
  dsimp only at h
  split at h
  · rename_i numTokens _ hn _
    obtain ⟨restored, hr, h⟩ := bind_ok h
    cases h
    exact ⟨numTokens, restored, hn, hr, rfl⟩
  · cases h

theorem lowestPriority_mem {s : Scheduler} (h : s.lowestPriority = some r) : r ∈ s.running := by
  unfold lowestPriority at h
  split at h
  · cases h
  · rename_i a rest heq
    rw [heq]
    cases h
    have := foldl_pick_mem (fun best r => decide
      ((s.objects best).priority < (s.objects r).priority ∨
        ((s.objects best).priority = (s.objects r).priority ∧
          (s.objects best).arrivalTime < (s.objects r).arrivalTime))) rest a
    simpa only [decide_eq_true_eq] using this

variable {p₁ : SchedulePass}

/-- Which request leaves `self.running`: under `PRIORITY` any, and when it was scheduled in
this call its entries go; under `FCFS` the last one. -/
theorem popLowest_cases (h : p.popLowest = .ok (victim, p₁)) : victim ∈ p.s.running ∧
      ((p.s.config.policy = .priority ∧ victim ∉ p.scheduledRunningReqs ∧
          p₁ = { p with s.running := p.s.running.erase victim }) ∨
        (p.s.config.policy = .priority ∧ victim ∈ p.scheduledRunningReqs ∧
          ∃ numTokens restored,
            p.numScheduledTokens.get? (p.s.objects victim).requestId = some numTokens ∧
            sumEncoderEmbeds (p.s.objects victim)
              ((p.scheduledEncoderInputs.get? (p.s.objects victim).requestId).getD []) =
                .ok restored ∧
            p₁ = withdrawn { p with s.running := p.s.running.erase victim }
              (p.s.objects victim).requestId victim numTokens restored) ∨
        (p.s.config.policy = .fcfs ∧ p.s.running.getLast? = some victim ∧
          p₁ = { p with s.running := p.s.running.dropLast })) := by
  unfold popLowest at h
  split at h
  · rename_i hpolicy
    split at h
    · cases h
    · rename_i v hv
      obtain ⟨p2, h2, h⟩ := bind_ok h
      dsimp only at h2
      cases h
      refine ⟨lowestPriority_mem hv, ?_⟩
      split at h2
      · rename_i hmem
        exact .inr (.inl ⟨hpolicy, hmem, withdraw_cases h2⟩)
      · rename_i hmem
        cases h2
        exact .inl ⟨hpolicy, hmem, rfl⟩
  · rename_i hpolicy
    split at h
    · cases h
    · rename_i v hv
      cases h
      exact ⟨mem_of_getLast? hv, .inr (.inr ⟨hpolicy, hv, rfl⟩)⟩

/-- What the pop leaves of the scheduler. -/
theorem popLowest_sched (hnodup : p.s.running.Nodup) (h : p.popLowest = .ok (victim, p₁)) :
    p₁.s = { p.s with running := p.s.running.erase victim } := by
  obtain ⟨-, ⟨-, -, rfl⟩ | ⟨-, -, n, m, -, -, rfl⟩ | ⟨-, hlast, rfl⟩⟩ := popLowest_cases h
  · rfl
  · rfl
  · obtain ⟨l, hl⟩ := List.getLast?_eq_some_iff.mp hlast
    have hv : victim ∉ l := by
      rw [hl] at hnodup
      simpa using disjoint_of_nodup_append hnodup
    show ({ p.s with running := p.s.running.dropLast } : Scheduler) = _
    rw [hl, dropLast_concat, erase_append_right _ hv, erase_cons_head,
      append_nil]

theorem mem_take_erase {α : Type} [DecidableEq α] {l : List α} {x v : α} {k : Nat}
    (hx : x ∈ l.take k) (hne : x ≠ v) : x ∈ (l.erase v).take k := by
  induction l generalizing k with
  | nil => simp at hx
  | cons a l ih =>
    cases k with
    | zero => simp at hx
    | succ k =>
      rw [take_succ_cons, mem_cons] at hx
      by_cases ha : a = v
      · subst ha
        rw [erase_cons_head]
        rcases hx with rfl | hx
        · exact absurd rfl hne
        · exact (take_subset_take_left _ (Nat.le_succ k)) hx
      · rw [erase_cons_tail (by simpa using ha), take_succ_cons, mem_cons]
        exact hx.imp_right ih

theorem mem_take_pred_erase {α : Type} [DecidableEq α] {l : List α} {x v : α} {k : Nat}
    (hx : x ∈ l.take k) (hv : v ∈ l.take k) (hne : x ≠ v) :
    x ∈ (l.erase v).take (k - 1) := by
  induction l generalizing k with
  | nil => simp at hx
  | cons a l ih =>
    cases k with
    | zero => simp at hx
    | succ k =>
      rw [take_succ_cons, mem_cons] at hx hv
      rw [Nat.add_sub_cancel]
      by_cases ha : a = v
      · subst ha
        rw [erase_cons_head]
        exact hx.resolve_left hne
      · have hv' : v ∈ l.take k := hv.resolve_left (Ne.symm ha)
        rw [erase_cons_tail (by simpa using ha)]
        cases k with
        | zero => simp at hv'
        | succ k =>
          rw [take_succ_cons, mem_cons]
          exact hx.imp_right fun hx => ih hx hv'

/-- The requests that were scheduled stand before the index of the loop. -/
structure Indexed (p : SchedulePass) : Prop where
  nodup : p.s.running.Nodup
  before : ∀ x ∈ p.scheduledRunningReqs, x ∈ p.s.running.take p.reqIndex
  distinct : p.scheduledRunningReqs.Nodup
  phase : RunningPhase p

/-- The loop over the running requests is at the request `r`. -/
structure At (p : SchedulePass) (r : ReqRef) : Prop extends Indexed p where
  mem : r ∈ p.s.running.take (p.reqIndex + 1)
  fresh : r ∉ p.scheduledRunningReqs
  fcfs : p.s.config.policy = .fcfs → p.s.running[p.reqIndex]? = some r

theorem At.mem_running (h : At p r) : r ∈ p.s.running := mem_of_mem_take h.mem

/-- A request that the loop finds at its index was not scheduled before. -/
theorem Indexed.at_index (h : Indexed p) (hr : p.s.running[p.reqIndex]? = some r) : At p r where
  toIndexed := h
  mem := by
    rw [take_add_one, hr]
    simp
  fresh hmem := by
    obtain ⟨i, hi, hxi⟩ := mem_take_iff_getElem.mp (h.before r hmem)
    obtain ⟨hlt, hget⟩ := List.getElem?_eq_some_iff.mp hr
    have : i = p.reqIndex := h.nodup.getElem_inj_iff.mp (hxi.trans hget.symm)
    omega
  fcfs _ := hr

/-- The last running request was not scheduled before. -/
theorem Indexed.last_not_scheduled (h : Indexed p) (hpolicy : p.s.config.policy = .fcfs)
    (hlt : p.reqIndex < p.s.running.length) (hpop : p.popLowest = .ok (victim, p₁)) :
    victim ∉ p.scheduledRunningReqs := by
  obtain ⟨-, ⟨hp, -, -⟩ | ⟨hp, -, -⟩ | ⟨-, hlast, -⟩⟩ := popLowest_cases hpop
  · exact absurd (hp.symm.trans hpolicy) (by decide)
  · exact absurd (hp.symm.trans hpolicy) (by decide)
  · intro hmem
    obtain ⟨i, hi, hvi⟩ := mem_take_iff_getElem.mp (h.before victim hmem)
    rw [List.getLast?_eq_getElem?] at hlast
    obtain ⟨hlen, hget⟩ := List.getElem?_eq_some_iff.mp hlast
    have : i = p.s.running.length - 1 := h.nodup.getElem_inj_iff.mp (hvi.trans hget.symm)
    omega

/-- A preemption keeps the scheduled requests before the index. -/
theorem Indexed.pop (h : Indexed p)
    (hlt : p.s.config.policy = .fcfs → p.reqIndex < p.s.running.length)
    (hpop : p.popLowest = .ok (victim, p₁)) : Indexed p₁ := by
  have hrun := congrArg running (popLowest_sched h.nodup hpop)
  have hnodup : p₁.s.running.Nodup := by
    rw [hrun]
    exact h.nodup.erase victim
  obtain ⟨-, ⟨-, hv, rfl⟩ | ⟨-, hv, n, m, -, -, rfl⟩ | ⟨hpolicy, hlast, rfl⟩⟩ :=
    popLowest_cases hpop
  · refine ⟨hnodup, fun x hx => ?_, h.distinct, h.phase⟩
    exact mem_take_erase (h.before x hx) fun heq => hv (heq ▸ hx)
  · refine ⟨hnodup, fun x hx => ?_, h.distinct.erase victim, h.phase⟩
    have hx' := h.distinct.mem_erase_iff.mp hx
    exact mem_take_pred_erase (h.before x hx'.2) (h.before victim hv) hx'.1
  · refine ⟨hnodup, fun x hx => ?_, h.distinct, h.phase⟩
    have hle : p.reqIndex ≤ p.s.running.length - 1 := Nat.le_pred_of_lt (hlt hpolicy)
    show x ∈ p.s.running.dropLast.take p.reqIndex
    rw [dropLast_eq_take, take_take, Nat.min_eq_left hle]
    exact h.before x hx

/-- The preemption of another request leaves the loop at `r`. -/
theorem At.pop (h : At p r) (hne : victim ≠ r) (hpop : p.popLowest = .ok (victim, p₁)) :
    At p₁ r := by
  have hlt : p.s.config.policy = .fcfs → p.reqIndex < p.s.running.length := fun hp =>
    (List.getElem?_eq_some_iff.mp (h.fcfs hp)).1
  have hidx := h.toIndexed.pop hlt hpop
  obtain ⟨-, ⟨hpolicy, hv, rfl⟩ | ⟨hpolicy, hv, n, m, -, -, rfl⟩ | ⟨hpolicy, hlast, rfl⟩⟩ :=
    popLowest_cases hpop
  · refine ⟨hidx, mem_take_erase h.mem hne.symm, h.fresh, fun hp => ?_⟩
    exact absurd (hpolicy.symm.trans hp) (by decide)
  · refine ⟨hidx, ?_, fun hmem => h.fresh (mem_of_mem_erase hmem), fun hp => ?_⟩
    · have hvt := h.before victim hv
      have hpos : 0 < p.reqIndex := by
        rcases Nat.eq_zero_or_pos p.reqIndex with h0 | h0
        · rw [h0, take_zero] at hvt
          cases hvt
        · exact h0
      have hvt' : victim ∈ p.s.running.take (p.reqIndex + 1) :=
        (take_subset_take_left _ (Nat.le_succ _)) hvt
      have := mem_take_pred_erase h.mem hvt' hne.symm
      show r ∈ (p.s.running.erase victim).take (p.reqIndex - 1 + 1)
      rwa [Nat.sub_add_cancel hpos]
    · exact absurd (hpolicy.symm.trans hp) (by decide)
  · have hget : p.s.running.dropLast[p.reqIndex]? = some r := by
      obtain ⟨l, hl⟩ := List.getLast?_eq_some_iff.mp hlast
      have hr := h.fcfs hpolicy
      rw [hl] at hr ⊢
      rw [dropLast_concat]
      rcases Nat.lt_or_ge p.reqIndex l.length with hi | hi
      · rwa [List.getElem?_append_left hi] at hr
      · rw [List.getElem?_append_right hi] at hr
        have hin := mem_of_getElem? hr
        exact absurd (mem_singleton.mp hin).symm hne
    exact hidx.at_index hget

section Loops
variable (connector : Option KVConnector) (ec : Option ECConnector)

variable {r : ReqRef}

/-- What the preempted state keeps for the other requests. -/
theorem preemptRequest_frame {s s' : Scheduler} {victim : ReqRef}
    (h : s.preemptRequest victim = .ok s') (hne : r ≠ victim) :
    s'.objects r = s.objects r ∧ s'.running = s.running ∧ s'.config = s.config ∧
      (∀ r', SameInputs (s.objects r') (s'.objects r')) ∧
      FreeSteps s s.encoderCacheManager s'.encoderCacheManager := by
  obtain ⟨-, k, e, -, he, rfl⟩ := preemptRequest_cases h
  refine ⟨Function.update_of_ne hne _ _, rfl, rfl, fun r' => ?_, free_freeSteps he⟩
  show SameInputs (s.objects r') (Function.update s.objects victim _ r')
  by_cases hr : r' = victim
  · rw [hr, Function.update_self]
    exact ⟨rfl, rfl⟩
  · rw [Function.update_of_ne hr]
    exact ⟨rfl, rfl⟩

/-- How the allocation of slots for the running request `r` ends. -/
structure Allocated (connector : Option KVConnector) (ec : Option ECConnector)
    (p : SchedulePass) (r : ReqRef) (n : Int) (newBlocks : KVCacheBlocks)
    (p' : SchedulePass) : Prop where
  intro ::
  exists_before : ∃ p₁ k, PhaseSteps connector ec .running p p₁ ∧ At p₁ r ∧
    allocateRunning p₁.s r n = .ok (some newBlocks, k) ∧
    p' = { p₁ with s.kvCacheManager := k } ∧
    p₁.s.objects r = p.s.objects r ∧ p₁.s.config = p.s.config ∧
    (∀ r', SameInputs (p.s.objects r') (p₁.s.objects r')) ∧
    FreeSteps p₁.s p.s.encoderCacheManager p₁.s.encoderCacheManager

variable {p p' : SchedulePass}

/-- The loop that allocates slots and preempts is a sequence of steps. -/
theorem allocateLoop_steps {n : Int} {fuel : Nat} {newBlocks : Option KVCacheBlocks}
    (hat : At p r) (hn : n ≠ 0) (h : allocateLoop r n fuel p = .ok (newBlocks, p')) :
    (newBlocks = none → PhaseSteps connector ec .running p p' ∧ Indexed p') ∧
      (∀ blocks, newBlocks = some blocks → Allocated connector ec p r n blocks p') := by
  induction fuel generalizing p with
  | zero => cases h
  | succ fuel ih =>
    unfold allocateLoop at h
    obtain ⟨⟨blocks, k⟩, halloc, h⟩ := bind_ok h
    dsimp only at h
    cases blocks with
    | some blocks =>
      cases h
      refine ⟨(nomatch ·), fun b hb => ?_⟩
      cases hb
      exact ⟨⟨p, k, .refl, hat, halloc, rfl, rfl, rfl, fun _ => ⟨rfl, rfl⟩, .refl⟩⟩
    | none =>
      simp only [Option.isSome_none, Bool.false_eq_true, if_false] at h
      obtain ⟨⟨victim, p₁⟩, hpop, h⟩ := bind_ok h
      obtain ⟨s1, hpre, h⟩ := bind_ok h
      dsimp only at h
      have hfail : PhaseSteps connector ec .running p { p with s.kvCacheManager := k } :=
        .single (.runFail hat.mem_running hn halloc)
      have hat1 : At { p with s.kvCacheManager := k } r :=
        ⟨⟨hat.nodup, hat.before, hat.distinct, hat.phase⟩, hat.mem, hat.fresh, hat.fcfs⟩
      have hlt : p.s.config.policy = .fcfs → p.reqIndex < p.s.running.length := fun hp =>
        (List.getElem?_eq_some_iff.mp (hat.fcfs hp)).1
      have hfcfs : p.s.config.policy = .fcfs → victim ∉ p.scheduledRunningReqs :=
        fun hp => hat1.toIndexed.last_not_scheduled hp (hlt hp) hpop
      have hsteps := hfail.tail (.preempt hat1.phase hfcfs hpop hpre)
      have hsched := popLowest_sched hat1.nodup hpop
      have hrun : s1.running = p₁.s.running := by
        obtain ⟨-, _, _, -, -, rfl⟩ := preemptRequest_cases hpre
        rfl
      have hconfig : s1.config = p₁.s.config := by
        obtain ⟨-, _, _, -, -, rfl⟩ := preemptRequest_cases hpre
        rfl
      split at h
      · -- The request itself is preempted.
        cases h
        refine ⟨fun _ => ⟨hsteps, ?_⟩, nofun⟩
        have hidx := hat1.toIndexed.pop hlt hpop
        exact ⟨hrun ▸ hidx.nodup, hrun ▸ hidx.before, hidx.distinct, hidx.phase⟩
      · rename_i hne
        have hp1 := hat1.pop hne hpop
        obtain ⟨hobj, -, -, hsame, he⟩ := preemptRequest_frame hpre (Ne.symm hne)
        have hat2 : At { p₁ with
            s := s1
            preemptedReqs := p₁.preemptedReqs ++ [victim] } r :=
          ⟨⟨hrun ▸ hp1.nodup, hrun ▸ hp1.before, hp1.distinct, hp1.phase⟩, hrun ▸ hp1.mem,
            hp1.fresh,
            fun hp => hrun ▸ hp1.fcfs (hconfig ▸ hp)⟩
        obtain ⟨hnone, hsome⟩ := ih hat2 h
        refine ⟨fun hb => ⟨hsteps.trans (hnone hb).1, (hnone hb).2⟩, fun b hb => ?_⟩
        obtain ⟨p2, k2, hs, hat3, ha, heq, ho, hc, hsame', he'⟩ := (hsome b hb).exists_before
        have hobjs : p₁.s.objects = p.s.objects := by rw [hsched]
        refine ⟨⟨p2, k2, hsteps.trans hs, hat3, ha, heq, ?_, ?_, fun r' => ?_, ?_⟩⟩
        · rw [ho]
          exact hobj.trans (by rw [hsched])
        · rw [hc]
          exact hconfig.trans (by rw [hsched])
        · rw [← hobjs]
          exact ⟨(hsame r').1.trans (hsame' r').1, (hsame r').2.trans (hsame' r').2⟩
        · have henc : p₁.s.encoderCacheManager = p.s.encoderCacheManager := by rw [hsched]
          rw [henc] at he
          have hall : ∀ r', SameInputs (p₁.s.objects r') (p2.s.objects r') := fun r' =>
            ⟨(hsame r').1.trans (hsame' r').1, (hsame r').2.trans (hsame' r').2⟩
          exact (he.of_sameInputs hall).trans he'

/-- The draft tokens of a scheduled request: the request has none afterwards. -/
theorem takeSpecTokens_cases (p : SchedulePass) (r : ReqRef) (n : Int) :
    ∃ d, p.takeSpecTokens r n = { p with
      scheduledSpecDecodeTokens := d
      s := p.s.modify r fun request => { request with specTokenIds := [] } } := by
  unfold takeSpecTokens
  dsimp only
  split
  · rename_i hempty
    refine ⟨p.scheduledSpecDecodeTokens, ?_⟩
    have hobj : ({ p.s.objects r with specTokenIds := [] } : Request) = p.s.objects r := by
      rw [← isEmpty_iff.mp hempty]
    rw [Scheduler.modify, hobj, Function.update_eq_self]
  · split
    · exact ⟨_, rfl⟩
    · exact ⟨_, rfl⟩

/-- A running request whose slots are there is scheduled. -/
theorem scheduleRunning_steps {newBlocks : KVCacheBlocks} {plan : Scheduler.EncoderPlan}
    {k : KVCacheManager} (hat : At p r) (hn : plan.numNewTokens ≠ 0)
    (hneed : plan.numNewTokens ≤ (p.s.objects r).numTokensWithSpec + (p.s.objects
      r).numOutputPlaceholders - (p.s.objects r).numComputedTokens)
    (hcap : plan.numNewTokens ≤ p.s.config.maxModelLen - 1 - (p.s.objects r).numComputedTokens)
    (hpos : (p.s.objects r).numComputedTokens ≤ (p.s.objects r).numTokensWithSpec + (p.s.objects
      r).numOutputPlaceholders → (p.s.objects r).numComputedTokens < p.s.config.maxModelLen →
      0 < plan.numNewTokens)
    (halloc : allocateRunning p.s r plan.numNewTokens = .ok (some newBlocks, k))
    (hplan : PlanOf ec p.s r (p.s.objects r).numComputedTokens plan)
    (h : { p with s.kvCacheManager := k }.scheduleRunning r newBlocks plan.numNewTokens plan =
      .ok p') :
    PhaseSteps connector ec .running p p' ∧ Indexed p' := by
  unfold scheduleRunning at h
  have hrun : PassStep connector ec .running p p' :=
    .run hat.phase hat.mem_running hat.fresh hn hneed hcap hpos halloc hplan rfl h
  refine ⟨.single hrun, ?_⟩
  obtain ⟨d, hd⟩ := takeSpecTokens_cases
    ({ p with s.kvCacheManager := k }.markScheduled r newBlocks plan.numNewTokens) r
    plan.numNewTokens
  rw [hd] at h
  obtain ⟨e, inputs, budget, -, -, rfl⟩ := takeEncoderInputs_cases h
  refine ⟨hat.nodup, fun x hx => ?_, ?_, hat.phase⟩
  · show x ∈ p.s.running.take (p.reqIndex + 1)
    change x ∈ p.scheduledRunningReqs ++ [r] at hx
    rcases mem_append.mp hx with hx | hx
    · exact (take_subset_take_left _ (Nat.le_succ _)) (hat.before x hx)
    · rw [mem_singleton.mp hx]
      exact hat.mem
  · show (p.scheduledRunningReqs ++ [r]).Nodup
    exact nodup_append.mpr ⟨hat.distinct, nodup_singleton r,
      fun a ha b hb => by rintro rfl; exact hat.fresh (mem_singleton.mp hb ▸ ha)⟩

/-- One pass of the loop over the running requests. -/
theorem runningStep_steps {go : Bool} (hat : At p r) (hbudget : 0 < p.tokenBudget)
    (h : runningStep ec r p = .ok (go, p')) :
    PhaseSteps connector ec .running p p' ∧ Indexed p' := by
  have hnext : ∀ q : SchedulePass, Indexed q → Indexed { q with reqIndex := q.reqIndex + 1 } :=
    fun q hq => ⟨hq.nodup, fun x hx =>
      (take_subset_take_left _ (Nat.le_succ _)) (hq.before x hx), hq.distinct, hq.phase⟩
  unfold runningStep at h
  dsimp only at h
  split at h
  · cases h
    exact ⟨.single .nextIndex, hnext p hat.toIndexed⟩
  · obtain ⟨⟨plan, s⟩, hplan, h⟩ := bind_ok h
    obtain ⟨e, rfl, he, hle, hpos, hfresh⟩ := tryScheduleEncoderInputs_cases hplan
    have hstep : PhaseSteps connector ec .running p _ := .single (.planEncoder hplan)
    have hat1 : At { p with s.encoderCacheManager := e } r :=
      ⟨⟨hat.nodup, hat.before, hat.distinct, hat.phase⟩, hat.mem, hat.fresh, hat.fcfs⟩
    dsimp only at h
    split at h
    · cases h
      exact ⟨hstep.tail .nextIndex, hnext _ hat1.toIndexed⟩
    · rename_i hn
      obtain ⟨⟨blocks, p2⟩, halloc, h⟩ := bind_ok h
      obtain ⟨hnone, hsome⟩ := allocateLoop_steps connector ec hat1 hn halloc
      cases blocks with
      | none =>
        cases h
        exact ⟨hstep.trans (hnone rfl).1, (hnone rfl).2⟩
      | some blocks =>
        obtain ⟨p₁, k, hsteps, hat2, ha, rfl, hobj, hconfig, -, he1⟩ :=
          (hsome blocks rfl).exists_before
        obtain ⟨p3, hrun, h⟩ := bind_ok h
        cases h
        have hbound : plan.numNewTokens ≤ p.numNewRunningTokens (p.s.objects r) :=
          hle.resolve_right hn
        have hmins : p.numNewRunningTokens (p.s.objects r) ≤
            (p.s.objects r).numTokensWithSpec + (p.s.objects r).numOutputPlaceholders
              - (p.s.objects r).numComputedTokens ∧
            p.numNewRunningTokens (p.s.objects r) ≤
              p.s.config.maxModelLen - 1 - (p.s.objects r).numComputedTokens := by
          unfold numNewRunningTokens
          dsimp only
          constructor
          · split <;> omega
          · omega
        have hpositive : (p.s.objects r).numComputedTokens ≤
            (p.s.objects r).numTokensWithSpec + (p.s.objects r).numOutputPlaceholders →
            (p.s.objects r).numComputedTokens < p.s.config.maxModelLen →
            0 < plan.numNewTokens := by
          intro hle hlt
          have hnonneg : 0 ≤ p.numNewRunningTokens (p.s.objects r) := by
            unfold numNewRunningTokens
            dsimp only
            split <;> omega
          have := hpos hnonneg
          omega
        have hdec : p.s.encoderCacheManager.isEncoderDecoder =
            p₁.s.encoderCacheManager.isEncoderDecoder :=
          (he1.noNewHashes.1.trans he.1).symm
        have hobj' : p₁.s.objects r = p.s.objects r := hobj
        have hplanOf : PlanOf ec p₁.s r (p₁.s.objects r).numComputedTokens plan := by
          refine ⟨⟨p.s, _, p.numNewRunningTokens (p.s.objects r), p.encoderComputeBudget,
            hconfig.symm, hdec, ?_, he1⟩, fun hc hd => ?_⟩
          · rw [hobj']
            exact hplan
          · rw [hobj']
            exact (hfresh (hconfig ▸ hc) (hdec ▸ hd)).mono he1.noNewHashes
        have hfin := scheduleRunning_steps connector ec hat2 hn
          (by rw [hobj]; exact hbound.trans hmins.1)
          (by rw [hobj, hconfig]; exact hbound.trans hmins.2)
          (by rw [hobj, hconfig]; exact hpositive) ha hplanOf hrun
        exact ⟨(hstep.trans hsteps).trans hfin.1, hfin.2⟩

/-- The loop over the running requests. -/
theorem runningLoop_steps {fuel : Nat} (hidx : Indexed p) (h : runningLoop ec fuel p = .ok p') :
    PhaseSteps connector ec .running p p' ∧ Indexed p' := by
  induction fuel generalizing p with
  | zero =>
    cases h
    exact ⟨.refl, hidx⟩
  | succ fuel ih =>
    unfold runningLoop at h
    split at h
    · cases h
      exact ⟨.refl, hidx⟩
    · rename_i r hr
      split at h
      · cases h
        exact ⟨.refl, hidx⟩
      · rename_i hbudget
        obtain ⟨⟨go, p₁⟩, hstep, h⟩ := bind_ok h
        obtain ⟨hsteps, hidx1⟩ := runningStep_steps connector ec
          (hidx.at_index hr) (Int.not_le.mp hbudget) hstep
        dsimp only at h
        split at h
        · obtain ⟨hrest, hidx'⟩ := ih hidx1 h
          exact ⟨hsteps.trans hrest, hidx'⟩
        · cases h
          exact ⟨hsteps, hidx1⟩

end Loops

end Running

/-! ### The waiting requests -/

section Waiting
variable (connector : Option KVConnector) (ec : Option ECConnector)

variable {r : ReqRef}

theorem updateWaitingForRemoteKv_waiting {s s' : Scheduler} {b : Bool}
    (h : s.updateWaitingForRemoteKv r = .ok (b, s')) :
    s'.waiting = s.waiting ∧ (b = false → s' = s) ∧
      (∀ r', (s'.objects r').status = (s.objects r').status) ∧
      (HasRoom s → HasRoom s') := by
  unfold updateWaitingForRemoteKv at h
  dsimp only at h
  split at h
  · cases h
    exact ⟨rfl, fun _ => rfl, fun _ => rfl, id⟩
  · split at h
    · obtain ⟨k, -, h⟩ := bind_ok h
      cases h
      exact ⟨rfl, (nomatch ·), fun _ => rfl, id⟩
    · split at h
      · obtain ⟨k, -, h⟩ := bind_ok h
        cases h
        refine ⟨rfl, (nomatch ·), fun r' => ?_, id⟩
        show (Function.update s.objects r _ r').status = _
        by_cases hr : r' = r
        · subst hr
          rw [Function.update_self]
        · rw [Function.update_of_ne hr]
      · cases h

variable {p p' : SchedulePass} {rest : List ReqRef}

/-- The checks on the head of the waiting queue. -/
theorem checkReady_steps {b : Bool} (hw : p.s.waiting = r :: rest)
    (h : p.checkReady r = .ok (b, p')) :
    PhaseSteps connector ec .waiting p p' ∧ p'.s.waiting = r :: rest ∧
      (b = true → LoraFits p' (p'.s.objects r)) ∧ (HasRoom p.s → HasRoom p'.s) := by
  unfold checkReady at h
  obtain ⟨⟨kvReady, s⟩, hkv, h⟩ := bind_ok h
  dsimp only at h
  have hremote : kvReady = true → PhaseSteps connector ec .waiting p { p with
      s := if (s.objects r).status = .waitingForRemoteKvs then
          s.modify r fun request => { request with status := .waiting }
        else s } := by
    rintro rfl
    split at hkv
    · rename_i hstatus
      obtain ⟨-, -, hobj, -⟩ := updateWaitingForRemoteKv_waiting hkv
      rw [if_pos ((hobj r).trans hstatus)]
      exact .single (.remoteReady hw hstatus hkv)
    · rename_i hstatus
      cases hkv
      rw [if_neg hstatus]
  have hsw : s.waiting = r :: rest ∧ (HasRoom p.s → HasRoom s) := by
    split at hkv
    · obtain ⟨hws, -, -, hroom⟩ := updateWaitingForRemoteKv_waiting hkv
      exact ⟨hws.trans hw, hroom⟩
    · cases hkv
      exact ⟨hw, id⟩
  cases kvReady with
  | false =>
    cases h
    by_cases hstatus : (p.s.objects r).status = .waitingForRemoteKvs
    · rw [if_pos hstatus] at hkv
      obtain ⟨-, hsame, -, -⟩ := updateWaitingForRemoteKv_waiting hkv
      rw [hsame rfl]
      exact ⟨.refl, hw, (nomatch ·), id⟩
    · rw [if_neg hstatus] at hkv
      cases hkv
  | true =>
    simp only [Bool.true_eq_false, if_false] at h
    have h1 := hremote rfl
    generalize hs1 : (if (s.objects r).status = .waitingForRemoteKvs then
        s.modify r fun request => { request with status := .waiting }
      else s) = s1 at h h1
    have hw1 : s1.waiting = r :: rest ∧ (HasRoom p.s → HasRoom s1) := by
      rw [← hs1]
      split
      · exact hsw
      · exact hsw
    split at h
    · cases h
      exact ⟨h1, hw1.1, (nomatch ·), hw1.2⟩
    · generalize hs2 : (if (s1.objects r).status = .waitingForFsm then
          s1.modify r fun request => { request with status := .waiting }
        else s1) = s2 at h
      cases h
      refine ⟨?_, ?_, fun hfits m lora hm hlora hlen => ?_, ?_⟩
      · rw [← hs2]
        split
        · rename_i hstatus
          exact h1.tail (PassStep.grammarReady (p := { p with s := s1 }) hw1.1 hstatus)
        · exact h1
      · rw [← hs2]
        split
        · exact hw1.1
        · exact hw1.1
      · by_contra hnot
        dsimp only at hm hlora hlen hnot
        rw [hm, hlora] at hfits
        simp [hlen, hnot] at hfits
      · rw [← hs2]
        split
        · exact hw1.2
        · exact hw1.2

/-- The cached tokens of the head of the waiting queue. -/
theorem getCachedTokens_steps {cached : Option SchedulePass.CachedTokens}
    (hw : p.s.waiting = r :: rest) (h : p.getCachedTokens connector r = .ok (cached, p')) :
    PhaseSteps connector ec .waiting p p' ∧ p'.s.waiting = r :: rest ∧
      (LoraFits p (p.s.objects r) → LoraFits p' (p'.s.objects r)) ∧
      (HasRoom p.s → HasRoom p'.s) ∧
      (∀ t, cached = some t → CachedFor connector p'.s r t) := by
  unfold getCachedTokens at h
  dsimp only at h
  split at h
  · rename_i hzero
    obtain ⟨⟨blocks, n⟩, hblocks, h⟩ := bind_ok h
    dsimp only at h
    cases connector with
    | none =>
      cases h
      refine ⟨.refl, hw, id, id, fun t ht => ?_⟩
      cases ht
      exact ⟨fun _ => ⟨hblocks, (add_zero n).symm⟩, fun hne => absurd hzero hne,
        fun _ => ⟨rfl, rfl⟩, .inl rfl⟩
    | some connector =>
      dsimp only at h
      split at h
      · cases h
        exact ⟨.refl, hw, id, id, fun t ht => nomatch ht⟩
      · rename_i ext async heq
        cases h
        have hobj : (p.s.modify r fun request =>
            { request with numExternalComputedTokens := ext }).objects r =
            { p.s.objects r with numExternalComputedTokens := ext } :=
          Function.update_self ..
        have hfits : LoraFits p (p.s.objects r) → LoraFits { p with
            s := p.s.modify r fun request =>
              { request with numExternalComputedTokens := ext } }
            ((p.s.modify r fun request =>
              { request with numExternalComputedTokens := ext }).objects r) := by
          intro hf
          rw [hobj]
          exact hf
        refine ⟨.single (.matched hw), hw, hfits, id, fun t ht => ?_⟩
        cases ht
        refine ⟨fun _ => ⟨?_, rfl⟩, fun hne => ?_, (nomatch ·),
          .inr ⟨connector, p.s.objects r, async, rfl, heq⟩⟩
        · rw [hobj]
          exact hblocks
        · rw [hobj] at hne
          exact absurd hzero hne
  · rename_i hne
    cases h
    refine ⟨.refl, hw, id, id, fun t ht => ?_⟩
    cases ht
    exact ⟨fun hzero => absurd hzero hne, fun _ => rfl, fun _ => ⟨rfl, rfl⟩, .inl rfl⟩

variable {t : SchedulePass.CachedTokens}

/-- The number of tokens of the head of the waiting queue. -/
theorem planWaiting_cases {plan : Option Scheduler.EncoderPlan}
    (h : p.planWaiting ec r t = .ok (plan, p')) :
    PhaseSteps connector ec .waiting p p' ∧ ∃ e, p' = { p with s.encoderCacheManager := e } ∧
      NoNewHashes p.s.encoderCacheManager e ∧ ∀ pl, plan = some pl →
        (t.loadKvAsync = true → pl.numNewTokens = 0 ∧ 0 < t.numExternalComputedTokens) ∧
        (t.loadKvAsync = false → (0 < pl.numNewTokens ∧ pl.numNewTokens ≤ p.tokenBudget) ∧
          pl.numNewTokens ≤ (p.s.objects r).numTokens - t.numComputedTokens ∧
          PlanOf ec p'.s r t.numComputedTokens pl) := by
  unfold planWaiting at h
  dsimp only at h
  split at h
  · rename_i hasync
    obtain ⟨u, hassert, h⟩ := bind_ok h
    cases h
    refine ⟨.refl, p.s.encoderCacheManager, rfl, .refl _, fun pl hpl => ?_⟩
    cases hpl
    refine ⟨fun _ => ⟨rfl, of_decide_eq_true (pyAssert_eq_ok_iff.mp hassert)⟩, fun hf => ?_⟩
    rw [hasync] at hf
    cases hf
  · rename_i hasync
    generalize hm : (if 0 < p.s.config.longPrefillTokenThreshold ∧
        p.s.config.longPrefillTokenThreshold <
          ((p.s.objects r).numTokens : Int) - t.numComputedTokens then
        p.s.config.longPrefillTokenThreshold
      else ((p.s.objects r).numTokens : Int) - t.numComputedTokens) = m at h
    have hmle : m ≤ (p.s.objects r).numTokens - t.numComputedTokens := by
      rw [← hm]
      split <;> omega
    split at h
    · cases h
      exact ⟨.refl, p.s.encoderCacheManager, rfl, .refl _, fun pl hpl => nomatch hpl⟩
    · obtain ⟨u, hassert, h⟩ := bind_ok h
      obtain ⟨⟨pl, s⟩, hplan, h⟩ := bind_ok h
      obtain ⟨e, rfl, he, hle, hpos, hfresh⟩ := tryScheduleEncoderInputs_cases hplan
      have hstep : PhaseSteps connector ec .waiting p _ := .single (.planEncoder hplan)
      dsimp only at h
      split at h
      · cases h
        exact ⟨hstep, e, rfl, he, fun pl hpl => nomatch hpl⟩
      · rename_i hne
        cases h
        refine ⟨hstep, e, rfl, he, fun pl' hpl => ?_⟩
        cases hpl
        have hassert' : 0 < min m p.tokenBudget := of_decide_eq_true (pyAssert_eq_ok_iff.mp hassert)
        have hle' : pl.numNewTokens ≤ min m p.tokenBudget := hle.resolve_right hne
        have hnonneg : 0 ≤ pl.numNewTokens := hpos (le_of_lt hassert')
        refine ⟨fun ht => absurd ht hasync, fun _ => ⟨⟨by omega, by omega⟩, ?_, ?_⟩⟩
        · exact (hle.resolve_right hne).trans ((min_le_left m _).trans hmle)
        · exact ⟨⟨p.s, _, _, _, rfl, he.1.symm, hplan, .refl⟩,
            fun hc hd => hfresh hc (he.1 ▸ hd)⟩

/-- A request that moves to `self.running` with `c` computed tokens. -/
def started (c : Int) (request : Request) : Request :=
  { request with
    status := .running
    numComputedTokens := c
    numCachedTokens := if request.numCachedTokens < 0 then c else request.numCachedTokens }

/-- The LoRAs of a call after a request was admitted. -/
def lorasWith (p : SchedulePass) (r : ReqRef) : List Nat :=
  match p.s.config.maxLoras, (p.s.objects r).loraRequest with
  | some _, some lora => p.scheduledLoras.insert lora.loraIntId
  | _, _ => p.scheduledLoras

theorem markRunning_eq (p : SchedulePass) (r : ReqRef) (c n : Int) : p.markRunning r c n = { p with
      scheduledLoras := lorasWith p r
      reqToNewBlocks := p.reqToNewBlocks.insert (p.s.objects r).requestId
        (p.s.kvCacheManager.getBlocks (p.s.objects r).requestId)
      numScheduledTokens := p.numScheduledTokens.insert (p.s.objects r).requestId n
      tokenBudget := p.tokenBudget - n
      s := { p.s with running := p.s.running ++ [r] }.modify r (started c) } := by
  unfold markRunning lorasWith
  dsimp only
  cases p.s.config.maxLoras with
  | none => rfl
  | some n =>
    cases (p.s.objects r).loraRequest with
    | none => rfl
    | some lora => rfl

variable {plan : Scheduler.EncoderPlan}

/-- A waiting request with slots is scheduled. -/
theorem startRunning_steps {k : KVCacheManager} {newBlocks : KVCacheBlocks}
    (hw : p.s.waiting = r :: rest) (ht : CachedFor connector p.s r t)
    (hasync : t.loadKvAsync = false)
    (hn : 0 < plan.numNewTokens ∧ plan.numNewTokens ≤ p.tokenBudget) (hroom : HasRoom p.s)
    (hneed : plan.numNewTokens ≤ (p.s.objects r).numTokens - t.numComputedTokens)
    (hlora : LoraFits p (p.s.objects r))
    (halloc : allocateWaiting p.s r t plan.numNewTokens = .ok (some newBlocks, k))
    (hplan : PlanOf ec p.s r t.numComputedTokens plan)
    (h : { p with s.kvCacheManager := k, s.waiting := rest }.startRunning r t plan = .ok p') :
    PhaseSteps connector ec .waiting p p' := by
  unfold startRunning at h
  dsimp only at h
  split at h
  · rename_i hstatus
    exact .single (.admitNew hw ht hasync hn.1 hn.2 hroom hneed hstatus hlora halloc hplan rfl h)
  · rename_i hstatus
    exact .single (.admitResumed hw ht hasync hn.1 hn.2 hroom hneed hstatus hlora halloc hplan rfl h)
  · cases h

/-- A waiting request whose tokens are planned. -/
theorem admitWaiting_steps {go : Bool} (hw : p.s.waiting = r :: rest)
    (ht : CachedFor connector p.s r t)
    (hasync : t.loadKvAsync = true → plan.numNewTokens = 0 ∧ 0 < t.numExternalComputedTokens)
    (hroom : HasRoom p.s)
    (hsync : t.loadKvAsync = false → (0 < plan.numNewTokens ∧
      plan.numNewTokens ≤ p.tokenBudget) ∧ plan.numNewTokens ≤ (p.s.objects r).numTokens -
      t.numComputedTokens ∧ PlanOf ec p.s r t.numComputedTokens plan)
    (hlora : LoraFits p (p.s.objects r)) (h : p.admitWaiting r t plan = .ok (go, p')) :
    PhaseSteps connector ec .waiting p p' := by
  unfold admitWaiting at h
  obtain ⟨⟨blocks, k⟩, halloc, h⟩ := bind_ok h
  have halloc' : allocateWaiting p.s r t plan.numNewTokens = .ok (blocks, k) := halloc
  dsimp only at h
  cases blocks with
  | none =>
    cases h
    exact .single (.admitFail hw ht halloc')
  | some blocks =>
    simp only [Option.isNone_some, Bool.false_eq_true, if_false] at h
    split at h
    · rename_i ha
      cases h
      obtain ⟨hzero, hext⟩ := hasync ha
      rw [hzero] at halloc'
      exact .single (.awaitRemote hw ht ha hext halloc')
    · rename_i ha
      obtain ⟨p₁, hstart, h⟩ := bind_ok h
      cases h
      have hfalse : t.loadKvAsync = false := by simpa using ha
      obtain ⟨hn, hneed, hplan⟩ := hsync hfalse
      rw [hw] at hstart
      exact startRunning_steps connector ec hw ht hfalse hn hroom hneed hlora halloc' hplan hstart

/-- One pass of the loop over the waiting requests. -/
theorem waitingStep_steps {go : Bool} (hw : p.s.waiting = r :: rest) (hroom : HasRoom p.s)
    (h : waitingStep connector ec r p = .ok (go, p')) :
    PhaseSteps connector ec .waiting p p' := by
  unfold waitingStep at h
  obtain ⟨⟨ready, p₁⟩, hready, h⟩ := bind_ok h
  obtain ⟨h1, hw1, hlora1, hroom1⟩ := checkReady_steps connector ec hw hready
  dsimp only at h
  split at h
  · cases h
    exact h1.tail (.skip hw1)
  · rename_i hnot
    obtain ⟨⟨cached, p2⟩, hcached, h⟩ := bind_ok h
    obtain ⟨h2, hw2, hlora2, hroom2, ht⟩ := getCachedTokens_steps connector ec hw1 hcached
    have hlora := hlora2 (hlora1 (by simpa using hnot))
    cases cached with
    | none =>
      cases h
      exact (h1.trans h2).tail (.skip hw2)
    | some t =>
      obtain ⟨⟨plan, p3⟩, hplan, h⟩ := bind_ok h
      obtain ⟨h3, e, rfl, he, hfacts⟩ := planWaiting_cases connector ec hplan
      cases plan with
      | none =>
        cases h
        exact (h1.trans h2).trans h3
      | some plan =>
        obtain ⟨ha, hs⟩ := hfacts plan rfl
        have ht' : CachedFor connector { p2.s with encoderCacheManager := e } r t :=
          ⟨(ht t rfl).zero, (ht t rfl).nonzero, (ht t rfl).noConnector, (ht t rfl).external⟩
        have hadmit : PhaseSteps connector ec .waiting { p2 with s.encoderCacheManager := e } p' :=
          admitWaiting_steps connector ec hw2 ht' ha (hroom2 (hroom1 hroom)) hs hlora h
        exact ((h1.trans h2).trans h3).trans hadmit

/-- The loop over the waiting requests. -/
theorem waitingLoop_steps {fuel : Nat} (h : waitingLoop connector ec fuel p = .ok p') :
    PhaseSteps connector ec .waiting p p' := by
  induction fuel generalizing p with
  | zero =>
    cases h
    exact .refl
  | succ fuel ih =>
    unfold waitingLoop at h
    split at h
    · cases h
      exact .refl
    · rename_i r rest hw
      split at h
      · cases h
        exact .refl
      · split at h
        · cases h
          exact .refl
        · rename_i hroom
          obtain ⟨⟨go, p₁⟩, hstep, h⟩ := bind_ok h
          have h1 := waitingStep_steps connector ec hw hroom hstep
          dsimp only at h
          split at h
          · exact h1.trans (ih h)
          · cases h
            exact h1

/-- Without budget or room no waiting request is looked at. -/
theorem waitingLoop_stops {fuel : Nat} (hstop : p.tokenBudget ≤ 0 ∨ ¬ HasRoom p.s)
    (h : waitingLoop connector ec fuel p = .ok p') : p' = p := by
  cases fuel with
  | zero =>
    cases h
    rfl
  | succ fuel =>
    unfold waitingLoop at h
    split at h
    · cases h
      rfl
    · split at h
      · cases h
        rfl
      · rename_i hbudget
        split at h
        · cases h
          rfl
        · rename_i hroom
          exact absurd (hstop.resolve_left hbudget) (not_not_intro hroom)

end Waiting

/-- The local variables at the start of `schedule`. -/
def startPass (s : Scheduler) : SchedulePass :=
  { s
    tokenBudget := s.config.maxNumScheduledTokens
    encoderComputeBudget := s.config.maxNumEncoderInputTokens }

/-- The loops of `schedule` one after the other. -/
theorem scheduleLoops_cases {connector : Option KVConnector} {ec : Option ECConnector}
    {s : Scheduler} (hnodup : s.running.Nodup) (h : s.scheduleLoops connector ec = .ok p) :
    ∃ p₁ p2 p3, runningLoop ec s.running.length (startPass s) = .ok p₁ ∧
      PhaseSteps connector ec .running (startPass s) p₁ ∧ Indexed p₁ ∧
      p₁.recordLoras = .ok p2 ∧ PhaseSteps connector ec .waiting p2 p3 ∧
      (p2.preemptedReqs ≠ [] ∨ p2.tokenBudget ≤ 0 ∨ ¬ HasRoom p2.s → p3 = p2) ∧
      p = p3.putBackSkipped := by
  unfold scheduleLoops at h
  obtain ⟨p₁, hrun, h⟩ := bind_ok h
  obtain ⟨p2, hlora, h⟩ := bind_ok h
  obtain ⟨p3, hwait, h⟩ := bind_ok h
  cases h
  have hidx : Indexed (startPass s) :=
    ⟨hnodup, fun x hx => absurd hx not_mem_nil, nodup_nil, rfl, rfl⟩
  obtain ⟨h1, hidx1⟩ := runningLoop_steps connector ec hidx hrun
  refine ⟨p₁, p2, p3, hrun, h1, hidx1, hlora, ?_, fun hstop => ?_, rfl⟩
  · split at hwait
    · exact waitingLoop_steps connector ec hwait
    · cases hwait
      exact .refl
  · split at hwait
    · rename_i hempty
      have hstop' := hstop.resolve_left (not_not_intro (isEmpty_iff.mp hempty))
      exact waitingLoop_stops connector ec hstop' hwait
    · cases hwait
      rfl

/-- The loops of `schedule` are a sequence of steps, and then the skipped requests go back. -/
theorem scheduleLoops_steps {connector : Option KVConnector} {ec : Option ECConnector}
    {s : Scheduler} (hnodup : s.running.Nodup) (h : s.scheduleLoops connector ec = .ok p) :
    ∃ p₁, PassSteps connector ec (startPass s) p₁ ∧ p = p₁.putBackSkipped := by
  obtain ⟨p₁, p2, p3, -, hrun, -, hlora, hwait, -, rfl⟩ := scheduleLoops_cases hnodup h
  exact ⟨p3, (PhaseSteps.passSteps (hrun.tail (.recordLoras hlora))).trans hwait.passSteps, rfl⟩

end Vllm.Proofs.Sched
