import Vllm.Proofs.Core.EncoderCache
import Vllm.Proofs.Sched.Queues

/-!
# `Vllm.Proofs.Sched.EncoderSteps`: the encoder cache in the methods of the scheduler

The scheduler touches the encoder cache in three places: it plans the encoder inputs of a
request, it allocates the planned ones, and it frees those of a request that is preempted, that
is past them or that ends.

* `EncoderChange`: what one step of `schedule` does to the encoder cache and to the table of
  the scheduled inputs.
* `passStep_encoder`: every step is one of these.
* `Sized`: the hashes of all requests stand for contents.
* `schedule_reached`, `keeps_reached`: what the methods do to the cache is a run of its calls.
-/

set_option autoImplicit false

namespace Vllm.Proofs.Sched

open Vllm.Lib Vllm.V1 Vllm.V1.Core Vllm.Proofs.Core

/-- What one step of `schedule` does to the encoder cache. -/
inductive EncoderChange (ec : Option ECConnector) (p p' : SchedulePass) : Prop where
  | same (hcache : p'.s.encoderCacheManager = p.s.encoderCacheManager)
      (hinputs : p'.scheduledEncoderInputs = p.scheduledEncoderInputs)
      (hwithdrawn : p'.withdrawnEncoderInputs = p.withdrawnEncoderInputs)
      (hrunning : p.s.running ⊆ p'.s.running)
  /-- The encoder inputs of a request are planned. -/
  | planned (r : ReqRef) (c n : Int) (plan : Scheduler.EncoderPlan) (s : Scheduler)
      (hplan : p.s.tryScheduleEncoderInputs ec (p.s.objects r) c n p.encoderComputeBudget =
        .ok (plan, s))
      (hcache : p'.s.encoderCacheManager = s.encoderCacheManager)
      (hinputs : p'.scheduledEncoderInputs = p.scheduledEncoderInputs)
      (hwithdrawn : p'.withdrawnEncoderInputs = p.withdrawnEncoderInputs)
      (hrunning : p.s.running ⊆ p'.s.running)
  /-- A request is preempted that was not scheduled in this call. -/
  | freed (victim : ReqRef) (hmem : victim ∈ p.s.running)
      (hnot : victim ∉ p.scheduledRunningReqs) (hphase : RunningPhase p)
      (hcache : p.s.encoderCacheManager.free (p.s.objects victim) = .ok p'.s.encoderCacheManager)
      (hinputs : p'.scheduledEncoderInputs = p.scheduledEncoderInputs)
      (hwithdrawn : p'.withdrawnEncoderInputs = p.withdrawnEncoderInputs)
      (hrunning : ∀ r ∈ p.s.running, r ≠ victim → r ∈ p'.s.running)
  /-- A request is preempted that was scheduled in this call. -/
  | withdrawn (victim : ReqRef) (hpolicy : p.s.config.policy = .priority)
      (hmem : victim ∈ p.s.running) (hsched : victim ∈ p.scheduledRunningReqs)
      (hphase : RunningPhase p)
      (hcache : p.s.encoderCacheManager.free (p.s.objects victim) = .ok p'.s.encoderCacheManager)
      (hinputs : p'.scheduledEncoderInputs =
        p.scheduledEncoderInputs.erase (p.s.objects victim).requestId)
      (hwithdrawn : p'.withdrawnEncoderInputs = p.withdrawnEncoderInputs ++
        (p.scheduledEncoderInputs.get? (p.s.objects victim).requestId).getD [])
      (hrunning : ∀ r ∈ p.s.running, r ≠ victim → r ∈ p'.s.running)
  /-- The planned encoder inputs of a request are allocated. -/
  | taken (r : ReqRef) (c : Int) (plan : Scheduler.EncoderPlan) (hplan : PlanOf ec p.s r c plan)
      (hnew : (r ∈ p.s.running ∧ r ∉ p.scheduledRunningReqs ∧ RunningPhase p) ∨
        ∃ rest, p.s.waiting = r :: rest)
      (hrun : r ∈ p'.s.running)
      (hcache : (collected plan).foldlM (fun e i => e.allocate (p.s.objects r) i)
        p.s.encoderCacheManager = .ok p'.s.encoderCacheManager)
      (hinputs : p'.scheduledEncoderInputs =
        if plan.encoderInputsToSchedule.isEmpty then p.scheduledEncoderInputs
        else p.scheduledEncoderInputs.insert (p.s.objects r).requestId plan.encoderInputsToSchedule)
      (hwithdrawn : p'.withdrawnEncoderInputs = p.withdrawnEncoderInputs)
      (hrunning : p.s.running ⊆ p'.s.running)

theorem allocate_congr {a b : Request} (h : SameInputs a b) (e : EncoderCacheManager)
    (i : Nat) : e.allocate a i = e.allocate b i := by
  unfold EncoderCacheManager.allocate Request.getNumEncoderEmbeds Request.mmFeature
  rw [h.1, h.2]

theorem sameInputs_update {f : ReqRef → Request} {r : ReqRef} {q : Request}
    (h : SameInputs q (f r)) : SameInputs (Function.update f r q r) (f r) := by
  rw [Function.update_self]
  exact h

/-- The encoder inputs of a request whose object was written to in the same step. -/
theorem takeEncoderInputs_change {p q p' : SchedulePass} {r : ReqRef}
    {plan : Scheduler.EncoderPlan} (h : q.takeEncoderInputs r plan = .ok p')
    (hsame : SameInputs (q.s.objects r) (p.s.objects r))
    (hcache : q.s.encoderCacheManager = p.s.encoderCacheManager)
    (hinputs : q.scheduledEncoderInputs = p.scheduledEncoderInputs) :
    (collected plan).foldlM (fun e i => e.allocate (p.s.objects r) i)
        p.s.encoderCacheManager = .ok p'.s.encoderCacheManager ∧
      p'.scheduledEncoderInputs =
        (if plan.encoderInputsToSchedule.isEmpty then p.scheduledEncoderInputs
        else p.scheduledEncoderInputs.insert (p.s.objects r).requestId
          plan.encoderInputsToSchedule) ∧
      p'.s.running = q.s.running ∧
      p'.withdrawnEncoderInputs = q.withdrawnEncoderInputs := by
  obtain ⟨e, inputs, budget, he, rfl, rfl⟩ := takeEncoderInputs_cases h
  simp only [allocate_congr hsame, hcache] at he
  refine ⟨he, ?_, rfl, rfl⟩
  show (if _ then q.scheduledEncoderInputs else _) = _
  rw [hinputs, hsame.1]

/-- Every step of `schedule` changes the encoder cache in one of these ways. -/
theorem passStep_encoder {connector : Option KVConnector} {ec : Option ECConnector}
    {phase : Phase} {p p' : SchedulePass} (hnodup : p.s.running.Nodup)
    (hstep : PassStep connector ec phase p p') : EncoderChange ec p p' := by
  cases hstep with
  | planEncoder hplan => 
      obtain ⟨e, rfl, -⟩ := tryScheduleEncoderInputs_cases hplan
      exact .planned _ _ _ _ _ hplan rfl rfl rfl fun _ hr => hr
  | nextIndex => exact .same rfl rfl rfl fun _ hr => hr
  | runFail hr hn halloc => exact .same rfl rfl rfl fun _ hr => hr
  | @preempt _ p1 s1 victim hphase hfcfs hpop hpre =>
    have hsched := popLowest_sched hnodup hpop
    obtain ⟨-, k, e, -, he, rfl⟩ := preemptRequest_cases hpre
    have hrun : ∀ x ∈ p.s.running, x ≠ victim → x ∈ p1.s.running := by
      intro x hx hne
      rw [hsched]
      exact (List.mem_erase_of_ne hne).mpr hx
    obtain ⟨hmem, ⟨-, hv, rfl⟩ | ⟨hpolicy, hv, n, m, -, -, rfl⟩ | ⟨hpolicy, -, rfl⟩⟩ :=
      popLowest_cases hpop
    · exact .freed _ hmem hv hphase he rfl rfl hrun
    · exact .withdrawn _ hpolicy hmem hv hphase he rfl rfl hrun
    · exact .freed _ hmem (hfcfs hpolicy) hphase he rfl rfl hrun
  | run hphase hr hfresh hn hneed hcap hpos halloc hplan hplan0 htake =>
    rename_i r n newBlocks k plan
    obtain ⟨d, hspec⟩ := takeSpecTokens_cases
      ({ p with s.kvCacheManager := k }.markScheduled r newBlocks n) r n
    rw [hspec] at htake
    obtain ⟨hcache, hinputs, hrun, hwithdrawn⟩ :=
      takeEncoderInputs_change htake (sameInputs_update ⟨rfl, rfl⟩) rfl rfl
    refine .taken r _ plan hplan (.inl ⟨hr, hfresh, hphase⟩) ?_ hcache hinputs hwithdrawn ?_
    · rw [hrun]
      exact hr
    · rw [hrun]
      exact fun _ hx => hx
  | recordLoras hlora =>
    obtain ⟨loras, rfl⟩ := recordLoras_cases hlora
    exact .same rfl rfl rfl fun _ hr => hr
  | skip hw => exact .same rfl rfl rfl fun _ hr => hr
  | remoteReady hw hstatus hready =>
    obtain ⟨k, ids, failed, c, rfl⟩ := updateWaitingForRemoteKv_cases hready
    exact .same rfl rfl rfl fun _ hr => hr
  | grammarReady hw hstatus => exact .same rfl rfl rfl fun _ hr => hr
  | matched hw => exact .same rfl rfl rfl fun _ hr => hr
  | admitFail hw ht halloc => exact .same rfl rfl rfl fun _ hr => hr
  | awaitRemote hw ht hasync hext halloc => exact .same rfl rfl rfl fun _ hr => hr
  | admitNew hw ht hasync hn hbudget hroom hneed hstatus hlora halloc hplan hplan0 htake
  | admitResumed hw ht hasync hn hbudget hroom hneed hstatus hlora halloc hplan hplan0 htake =>
    rename_i r rest t n newBlocks k plan
    have heq : admitted p r rest k t.numComputedTokens n = _ := markRunning_eq _ _ _ _
    rw [heq] at htake
    obtain ⟨hcache, hinputs, hrun, hwithdrawn⟩ :=
      takeEncoderInputs_change htake (sameInputs_update ⟨rfl, rfl⟩) rfl rfl
    refine .taken r _ plan hplan (.inr ⟨rest, hw⟩) ?_ hcache hinputs hwithdrawn ?_
    · rw [hrun]
      exact List.mem_append_right _ (List.mem_singleton.mpr rfl)
    · rw [hrun]
      exact fun _ hx => List.mem_append_left _ hx

/-! ### Runs of the cache -/

/-- The hashes of the encoder inputs of all requests stand for contents. -/
def Sized (size : String → Nat) (s : Scheduler) : Prop :=
  ∀ r, SizedBy size (s.objects r)

theorem Sized.of_inputs {size : String → Nat} {s s' : Scheduler} (h : Sized size s)
    (hs : ∀ r, (s'.objects r).mmFeatures = (s.objects r).mmFeatures) : Sized size s' := by
  intro r
  unfold SizedBy
  rw [hs r]
  exact h r

section Reached
variable {size : String → Nat} {e e' : EncoderCacheManager} {request : Request}

open EncoderOp (Reached)

variable {config : SchedulerConfig} {remote : Option (List Bool)} {c : Int}
  {p p' : Scheduler.EncoderPass} {i : Nat}

/-- One pass of the loop of `_try_schedule_encoder_inputs` makes at most two calls. -/
theorem encoderInputStep_reached {shift : Int} {feature : MultiModalFeatureSpec} {go : Bool}
    (hs : SizedBy size request)
    (h : Scheduler.encoderInputStep config remote request c shift p i feature = .ok (go, p')) :
    Reached size p.encoderCacheManager p'.encoderCacheManager := by
  unfold Scheduler.encoderInputStep at h
  obtain ⟨numEmbeds, -, h⟩ := bind_ok h
  dsimp only at h
  split at h
  · cases h
    exact .start
  · split at h
    · obtain ⟨u, -, h⟩ := bind_ok h
      cases h
      exact .start
    · split at h
      · cases h
        exact .start
      · split at h
        · cases h
          exact .start
        · obtain ⟨⟨cached, e1⟩, hcheck, h⟩ := bind_ok h
          have h1 : Reached size p.encoderCacheManager e1 := by
            split at hcheck
            · cases hcheck
              exact .start
            · refine .next (.checkAndUpdateCache request i) .start hs ?_
              exact bind_eq_ok_iff.mpr ⟨_, hcheck, rfl⟩
          dsimp only at h
          split at h
          · cases h
            exact h1
          · split at h
            · cases h
              exact h1
            · obtain ⟨⟨can, e2⟩, hcan, h⟩ := bind_ok h
              have h2 : Reached size p.encoderCacheManager e2 := by
                refine .next (.canAllocate request i p.plan.encoderComputeBudget
                  p.numEmbedsToSchedule) h1 hs ?_
                exact bind_eq_ok_iff.mpr ⟨_, hcan, rfl⟩
              dsimp only at h
              split at h
              · cases h
                exact h2
              · obtain ⟨⟨a, b⟩, -, h⟩ := bind_ok h
                dsimp only at h
                split at h
                · cases h
                  exact h2
                · split at h
                  · cases h
                    exact h2
                  · cases h
                    exact h2

theorem encoderInputLoop_reached {shift : Int} {features : List MultiModalFeatureSpec}
    (hs : SizedBy size request)
    (h : Scheduler.encoderInputLoop config remote request c shift p i features = .ok p') :
    Reached size p.encoderCacheManager p'.encoderCacheManager := by
  induction features generalizing p i with
  | nil =>
    cases h
    exact .start
  | cons feature features ih =>
    unfold Scheduler.encoderInputLoop at h
    obtain ⟨⟨go, p1⟩, hstep, h⟩ := bind_ok h
    have h1 := encoderInputStep_reached hs hstep
    dsimp only at h
    split at h
    · exact h1.trans (ih h)
    · cases h
      exact h1

variable {s s' : Scheduler} {ec : Option ECConnector}

theorem tryScheduleEncoderInputs_reached {n budget : Int} {plan : Scheduler.EncoderPlan}
    (hs : SizedBy size request)
    (h : s.tryScheduleEncoderInputs ec request c n budget = .ok (plan, s')) :
    Reached size s.encoderCacheManager s'.encoderCacheManager := by
  unfold Scheduler.tryScheduleEncoderInputs at h
  dsimp only at h
  split at h
  · cases h
    exact .start
  · obtain ⟨p, hloop, h⟩ := bind_ok h
    cases h
    exact encoderInputLoop_reached hs hloop

/-- After `allocate` the hash of the input is the only one that may be new. -/
theorem allocate_get? {mmHash : String} (h : e.allocate request i = .ok e')
    (hne : mmHash ∉ identifiers request [i]) : e'.cached.get? mmHash = e.cached.get? mmHash := by
  unfold EncoderCacheManager.allocate at h
  split at h
  · obtain ⟨n, -, h⟩ := bind_ok h
    obtain ⟨feature, -, h⟩ := bind_ok h
    cases h
    rfl
  · obtain ⟨feature, hf, h⟩ := bind_ok h
    obtain ⟨n, -, h⟩ := bind_ok h
    obtain ⟨u, -, h⟩ := bind_ok h
    obtain ⟨v, -, h⟩ := bind_ok h
    cases h
    rw [identifiers_singleton (mmFeature_eq_ok hf)] at hne
    exact PyDict.get?_insert_of_ne _ _ fun heq => hne (List.mem_singleton.mpr heq)

/-- Inputs whose hashes are distinct and not cached are allocated one after the other. -/
theorem allocate_reached {inputs : List Nat} (hs : SizedBy size request)
    (hnodup : (identifiers request inputs).Nodup)
    (hnone : ∀ mmHash ∈ identifiers request inputs, e.cached.get? mmHash = none)
    (h : inputs.foldlM (fun e i => e.allocate request i) e = .ok e') : Reached size e e' := by
  induction inputs generalizing e with
  | nil =>
    cases h
    exact .start
  | cons i inputs ih =>
    rw [List.foldlM_cons] at h
    obtain ⟨e1, h1, h⟩ := bind_ok h
    have hsplit : identifiers request (i :: inputs) =
        identifiers request [i] ++ identifiers request inputs :=
      identifiers_append request [i] inputs
    rw [hsplit] at hnodup hnone
    obtain ⟨-, hnodup', hdisj⟩ := List.nodup_append.mp hnodup
    have hfirst : ∀ feature, request.mmFeatures[i]? = some feature →
        e.cached.get? feature.identifier = none := fun feature hf =>
      hnone _ (List.mem_append_left _ (identifiers_singleton hf ▸ List.mem_singleton_self _))
    have hrest : ∀ mmHash ∈ identifiers request inputs, e1.cached.get? mmHash = none := by
      intro mmHash hm
      rw [allocate_get? h1 fun hmem => hdisj mmHash hmem mmHash hm rfl]
      exact hnone mmHash (List.mem_append_right _ hm)
    exact (Run.next (.allocate request i) .start ⟨hs, hfirst⟩ h1).trans (ih hnodup' hrest h)

theorem freeSteps_reached (hs : Sized size s) (h : FreeSteps s e e') : Reached size e e' := by
  induction h with
  | refl => exact .start
  | tail _ hstep ih =>
    obtain ⟨r, i, h⟩ := hstep
    exact .next (.freeEncoderInput (s.objects r) i) ih (hs r) h

/-- The encoder cache of a decoder-only model, with its invariant. -/
structure DecoderOnly (size : String → Nat) (s : Scheduler) : Prop where
  config : s.config.isEncoderDecoder = false
  sized : Sized size s
  inv : EncoderInv size s.encoderCacheManager

variable {connector : Option KVConnector}

theorem passStep_reached {phase : Phase} {p p' : SchedulePass} (hp : DecoderOnly size p.s)
    (hnodup : p.s.running.Nodup) (hstep : PassStep connector ec phase p p') :
    Reached size p.s.encoderCacheManager p'.s.encoderCacheManager := by
  cases passStep_encoder hnodup hstep with
  | same hcache _ _ _ =>
    rw [hcache]
    exact .start
  | planned r c n plan s hplan hcache _ _ _ =>
    rw [hcache]
    exact tryScheduleEncoderInputs_reached (hp.sized r) hplan
  | freed victim _ _ _ hcache _ _ _ => exact .next (.free _) .start (hp.sized victim) hcache
  | withdrawn victim _ _ _ _ hcache _ _ _ => exact .next (.free _) .start (hp.sized victim) hcache
  | taken r c plan hplan _ _ hcache _ _ _ =>
    have hfresh := hplan.fresh hp.config hp.inv.decoderOnly
    exact allocate_reached (hp.sized r) hfresh.nodup hfresh.notCached hcache

/-- The loops of `schedule` reach their encoder cache by calls of it. -/
theorem passSteps_reached {p p' : SchedulePass} (hp : DecoderOnly size p.s)
    (hnodup : (queued p).Nodup) (hsteps : PassSteps connector ec p p') :
    Reached size p.s.encoderCacheManager p'.s.encoderCacheManager ∧ DecoderOnly size p'.s := by
  induction hsteps with
  | refl => exact ⟨.start, hp⟩
  | tail hsteps hstep ih =>
    obtain ⟨hreached, hq⟩ := ih
    have hall := hsteps.tail hstep
    obtain ⟨phase, hstep⟩ := hstep
    have hnd := (shared_of_steps hnodup hsteps).1.nodup_iff.mpr hnodup
    have hreached' := hreached.trans (passStep_reached hq (List.nodup_append.mp hnd).2.1 hstep)
    obtain ⟨-, hshared⟩ := shared_of_steps hnodup hall
    refine ⟨hreached', hshared.config ▸ hp.config, hp.sized.of_inputs hshared.mmFeatures, ?_⟩
    exact EncoderOp.Reached.inv hreached' hp.inv

/-- So does `schedule`. -/
theorem schedule_reached {out : SchedulerOutput} (hs : DecoderOnly size s) (hq : QueueInv s)
    (h : s.schedule connector ec = .ok (out, s')) :
    Reached size s.encoderCacheManager s'.encoderCacheManager ∧ DecoderOnly size s' := by
  obtain ⟨p, hloops, -, -, hfin, -⟩ := schedule_queueInv hq h
  obtain ⟨p1, hsteps, rfl⟩ := scheduleLoops_steps hq.running_nodup hloops
  obtain ⟨hreached, hp⟩ := passSteps_reached (p := startPass s) hs
    (queued_startPass ▸ hq.nodup) hsteps
  have hfreed : Reached size s.encoderCacheManager
      { p1.s.encoderCacheManager with freed := [] } :=
    .next .getFreedMmHashes hreached trivial rfl
  have hafter : Reached size { p1.s.encoderCacheManager with freed := [] }
      s'.encoderCacheManager := by
    refine freeSteps_reached ?_ hfin.frame.encoder
    exact hp.sized
  have hreached' := hfreed.trans hafter
  refine ⟨hreached', ?_, ?_, EncoderOp.Reached.inv hreached' hs.inv⟩
  · rw [hfin.frame.config]
    exact hp.config
  · exact hp.sized.of_inputs fun r => (hfin.frame.inputs r).2

/-- And so do the methods that start no request. -/
theorem keeps_reached (hs : DecoderOnly size s) (hk : Keeps s s') :
    Reached size s.encoderCacheManager s'.encoderCacheManager ∧ DecoderOnly size s' := by
  have hreached := freeSteps_reached hs.sized hk.encoder
  refine ⟨hreached, hk.config ▸ hs.config, ?_, EncoderOp.Reached.inv hreached hs.inv⟩
  exact hs.sized.of_inputs fun r => (hk.inputs r).2

end Reached

end Vllm.Proofs.Sched
