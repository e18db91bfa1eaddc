import Vllm.Proofs.Engine.Encoder
import Vllm.Proofs.Sched.Listed

/-!
# `Vllm.Proofs.Engine.EncoderWorker`: the encoder caches of the scheduler and of the worker

The scheduler enters a hash into its encoder cache when it schedules the encoder input, and the
worker learns of it from the batch. A worker is a list of hashes here (`workerStep`): for every
batch it drops the freed hashes and adds those of the scheduled encoder inputs.

* `Agrees`: the invariant of the loops of `schedule`. A cached hash is on the worker and not
  reported as freed, or it belongs to an encoder input that this call has scheduled.
* `agrees_of_step`: every step keeps it, unless the call preempts a request for which it has
  already scheduled encoder inputs.
* `worker_has_cached`: in runs without that, every cached hash is on the worker.
-/

set_option autoImplicit false

namespace Vllm.Proofs.Engine

open Vllm.Lib Vllm.V1 Vllm.V1.Core Vllm.V1.Engine Vllm.Proofs.Core Vllm.Proofs.Sched List

/-- The hashes of the encoder inputs that are scheduled for the running requests. -/
def scheduledHashes (s : Scheduler) (inputs : PyDict String (List Nat)) : List String :=
  s.running.flatMap fun r =>
    identifiers (s.objects r) ((inputs.get? (s.objects r).requestId).getD [])

variable {s : Scheduler}

theorem mem_scheduledHashes {inputs : PyDict String (List Nat)} {mmHash : String} :
    mmHash ∈ scheduledHashes s inputs ↔ ∃ r ∈ s.running,
      mmHash ∈ identifiers (s.objects r) ((inputs.get? (s.objects r).requestId).getD []) :=
  mem_flatMap

/-- What the worker does with a batch. -/
def workerStep (w : List String) (batch : ScheduledBatch) : List String :=
  w.filter (fun mmHash => mmHash ∉ batch.output.freeEncoderMmHashes) ++
    scheduledHashes batch.after batch.output.scheduledEncoderInputs

/-- The hashes on the worker after the batches. -/
def workerHashes (batches : List ScheduledBatch) : List String :=
  batches.foldl workerStep []

/-- The cached hashes are on the worker, or will be after this call. Only the cache of a
decoder-only model has entries. -/
def Agrees (w : List String) (p : SchedulePass) : Prop :=
  ∀ mmHash, (p.s.encoderCacheManager.cached.get? mmHash).isSome = true →
    p.s.encoderCacheManager.isEncoderDecoder = false ∧
      ((mmHash ∈ w ∧ mmHash ∉ p.s.encoderCacheManager.freed) ∨
        mmHash ∈ scheduledHashes p.s p.scheduledEncoderInputs)

/-! ### One step -/

/-- A request that is not scheduled in this call has no encoder inputs in its tables. -/
theorem inputs_eq_none {p : SchedulePass} {r : ReqRef} (hd : Distinct p) (hl : Listed p)
    (hr : r ∈ queued p) (hnot : r ∉ scheduled p) :
    p.scheduledEncoderInputs.get? (p.s.objects r).requestId = none := by
  cases hget : p.scheduledEncoderInputs.get? (p.s.objects r).requestId with
  | none => rfl
  | some inputs =>
    have htokens := hl.inputs (p.s.objects r).requestId (by rw [hget]; rfl)
    obtain ⟨x, hx, hid⟩ := (hl.tokens _).mp htokens
    have hxq : x ∈ queued p := mem_append_right _ (hl.running x hx)
    exact absurd (hd.ids x hxq r hr hid ▸ hx) hnot

/-- What `allocate` does for inputs of a request. -/
structure Allocates (request : Request) (inputs : List Nat) (e e' : EncoderCacheManager) :
    Prop where
  decoder : e'.isEncoderDecoder = e.isEncoderDecoder
  hashes : ∀ mmHash, (e'.cached.get? mmHash).isSome = true →
    (e.cached.get? mmHash).isSome = true ∨
      (e.isEncoderDecoder = false ∧ mmHash ∈ identifiers request inputs)
  freed : e.isEncoderDecoder = false → e'.freed = e.freed

variable {request : Request} {i : Nat} {e e' : EncoderCacheManager}

theorem allocate_allocates (h : e.allocate request i = .ok e') : Allocates request [i] e e' := by
  refine ⟨?_, fun mmHash hk => ?_, fun hdecoder => ?_⟩
  · unfold EncoderCacheManager.allocate at h
    split at h
    · obtain ⟨n, -, h⟩ := bind_ok h
      obtain ⟨feature, -, h⟩ := bind_ok h
      cases h
      rfl
    · obtain ⟨feature, -, h⟩ := bind_ok h
      obtain ⟨n, -, h⟩ := bind_ok h
      obtain ⟨u, -, h⟩ := bind_ok h
      obtain ⟨v, -, h⟩ := bind_ok h
      cases h
      rfl
  · by_cases hmem : mmHash ∈ identifiers request [i]
    · cases hdecoder : e.isEncoderDecoder with
      | false => exact .inr ⟨rfl, hmem⟩
      | true =>
        unfold EncoderCacheManager.allocate at h
        rw [if_pos hdecoder] at h
        obtain ⟨n, -, h⟩ := bind_ok h
        obtain ⟨feature, -, h⟩ := bind_ok h
        cases h
        exact .inl hk
    · rw [allocate_get? h hmem] at hk
      exact .inl hk
  · unfold EncoderCacheManager.allocate at h
    rw [if_neg (by rw [hdecoder]; decide)] at h
    obtain ⟨feature, -, h⟩ := bind_ok h
    obtain ⟨n, -, h⟩ := bind_ok h
    obtain ⟨u, -, h⟩ := bind_ok h
    obtain ⟨v, -, h⟩ := bind_ok h
    cases h
    rfl

theorem foldlM_allocates {inputs : List Nat}
    (h : inputs.foldlM (fun e i => e.allocate request i) e = .ok e') :
    Allocates request inputs e e' := by
  induction inputs generalizing e with
  | nil =>
    cases h
    exact ⟨rfl, fun _ hk => .inl hk, fun _ => rfl⟩
  | cons i inputs ih =>
    rw [foldlM_cons] at h
    obtain ⟨e1, h1, h⟩ := bind_ok h
    have hfirst := allocate_allocates h1
    have hrest := ih h
    have hsplit : identifiers request (i :: inputs) =
        identifiers request [i] ++ identifiers request inputs :=
      identifiers_append request [i] inputs
    refine ⟨hrest.decoder.trans hfirst.decoder, fun mmHash hk => ?_, fun hd => ?_⟩
    · rw [hsplit]
      rcases hrest.hashes mmHash hk with hk | ⟨hd, hk⟩
      · rcases hfirst.hashes mmHash hk with hk | ⟨hd, hk⟩
        · exact .inl hk
        · exact .inr ⟨hd, mem_append_left _ hk⟩
      · exact .inr ⟨hfirst.decoder ▸ hd, mem_append_right _ hk⟩
    · rw [hrest.freed (hfirst.decoder.trans hd), hfirst.freed hd]

variable {config : SchedulerConfig} {c : Int}

theorem encoderInputStep_no_load {shift : Int} {p p' : Scheduler.EncoderPass}
    {feature : MultiModalFeatureSpec} {go : Bool}
    (h : Scheduler.encoderInputStep config none request c shift p i feature = .ok (go, p')) :
    p'.plan.externalLoadEncoderInput = p.plan.externalLoadEncoderInput := by
  unfold Scheduler.encoderInputStep at h
  obtain ⟨numEmbeds, -, h⟩ := bind_ok h
  dsimp only at h
  split at h
  · cases h
    rfl
  · split at h
    · obtain ⟨u, -, h⟩ := bind_ok h
      cases h
      rfl
    · split at h
      · cases h
        rfl
      · split at h
        · cases h
          rfl
        · obtain ⟨⟨cached, e1⟩, -, h⟩ := bind_ok h
          dsimp only at h
          split at h
          · cases h
            rfl
          · split at h
            · cases h
              rfl
            · obtain ⟨⟨can, e2⟩, -, h⟩ := bind_ok h
              dsimp only at h
              split at h
              · cases h
                rfl
              · obtain ⟨⟨a, b⟩, -, h⟩ := bind_ok h
                dsimp only at h
                split at h
                · cases h
                  rfl
                · split at h
                  · -- Without a connector no input is cached remotely.
                    rename_i hremote
                    exact absurd hremote (by simp)
                  · cases h
                    rfl

/-- Without an encoder-cache connector no encoder input is loaded from outside. -/
theorem encoderInputLoop_no_load {shift : Int} {features : List MultiModalFeatureSpec}
    {p p' : Scheduler.EncoderPass}
    (h : Scheduler.encoderInputLoop config none request c shift p i features = .ok p') :
    p'.plan.externalLoadEncoderInput = p.plan.externalLoadEncoderInput := by
  induction features generalizing p i with
  | nil =>
    cases h
    rfl
  | cons feature features ih =>
    unfold Scheduler.encoderInputLoop at h
    obtain ⟨⟨go, p1⟩, hstep, h⟩ := bind_ok h
    dsimp only at h
    split at h
    · rw [ih h, encoderInputStep_no_load hstep]
    · cases h
      exact encoderInputStep_no_load hstep

theorem planOf_no_load {r : ReqRef} {plan : Scheduler.EncoderPlan} (h : PlanOf none s r c plan) :
    plan.externalLoadEncoderInput = [] := by
  obtain ⟨s0, s1, n, budget, -, -, htry, -⟩ := h.origin
  unfold Scheduler.tryScheduleEncoderInputs at htry
  dsimp only at htry
  split at htry
  · cases htry
    rfl
  · obtain ⟨p, hloop, htry⟩ := bind_ok htry
    cases htry
    exact encoderInputLoop_no_load hloop

section Step
variable {w : List String} {connector : Option KVConnector} {phase : Phase}
  {p p' : SchedulePass}

theorem identifiers_congr {a b : Request} (h : a.mmFeatures = b.mmFeatures)
    (inputs : List Nat) : identifiers a inputs = identifiers b inputs := by
  unfold identifiers
  rw [h]

/-- A scheduled hash stays one when the running requests with encoder inputs stay, with the
same inputs. -/
theorem scheduledHashes_mono {mmHash : String} (hshared : Shared p.s p'.s)
    (hkeep : ∀ r ∈ p.s.running,
      (p.scheduledEncoderInputs.get? (p.s.objects r).requestId).getD [] ≠ [] →
      r ∈ p'.s.running ∧ p'.scheduledEncoderInputs.get? (p.s.objects r).requestId =
        p.scheduledEncoderInputs.get? (p.s.objects r).requestId)
    (h : mmHash ∈ scheduledHashes p.s p.scheduledEncoderInputs) :
    mmHash ∈ scheduledHashes p'.s p'.scheduledEncoderInputs := by
  obtain ⟨r, hr, hmem⟩ := mem_scheduledHashes.mp h
  have hne : (p.scheduledEncoderInputs.get? (p.s.objects r).requestId).getD [] ≠ [] := by
    intro hnil
    rw [hnil] at hmem
    cases hmem
  obtain ⟨hr', hget⟩ := hkeep r hr hne
  refine mem_scheduledHashes.mpr ⟨r, hr', ?_⟩
  rw [hshared.requestId, hget, identifiers_congr (hshared.mmFeatures r)]
  exact hmem

/-- A step in which no hash enters the cache. -/
theorem Agrees.of_noNewHashes (h : Agrees w p)
    (he : NoNewHashes p.s.encoderCacheManager p'.s.encoderCacheManager)
    (hscheduled : ∀ mmHash ∈ scheduledHashes p.s p.scheduledEncoderInputs,
      mmHash ∈ scheduledHashes p'.s p'.scheduledEncoderInputs) : Agrees w p' := by
  intro mmHash hk
  have hold : (p.s.encoderCacheManager.cached.get? mmHash).isSome = true := by
    cases hget : p.s.encoderCacheManager.cached.get? mmHash with
    | none =>
      rw [he.hashes mmHash hget] at hk
      cases hk
    | some ids => rfl
  obtain ⟨hdecoder, hmem⟩ := h mmHash hold
  refine ⟨he.decoder.trans hdecoder, hmem.imp (fun hw => ⟨hw.1, fun hfreed => ?_⟩)
    (hscheduled mmHash)⟩
  rcases he.freed mmHash hfreed with hfreed | hnone
  · exact hw.2 hfreed
  · rw [hnone] at hk
    cases hk

/-- Every step keeps the agreement, as long as no encoder inputs are withdrawn. -/
theorem agrees_of_step (hd : Distinct p) (hl : Listed p) (h : Agrees w p)
    (hw : p'.withdrawnEncoderInputs = []) (hstep : PassStep connector none phase p p') :
    Agrees w p' := by
  obtain ⟨hshared, -⟩ := passStep_move hd.running_nodup hstep
  have hqueued : ∀ r ∈ p.s.running, r ∈ queued p := fun r hr => mem_append_right _ hr
  have hphase : RunningPhase p → scheduled p = p.scheduledRunningReqs := fun hphase => by
    unfold scheduled
    rw [hphase.1, hphase.2, append_nil, append_nil]
  cases passStep_encoder hd.running_nodup hstep with
  | same hcache hinputs _ hrunning =>
    refine h.of_noNewHashes (hcache ▸ .refl _) fun mmHash => ?_
    exact scheduledHashes_mono hshared fun r hr _ => ⟨hrunning hr, by rw [hinputs]⟩
  | planned r c n plan s hplan hcache hinputs _ hrunning =>
    obtain ⟨e, rfl, he, -⟩ := tryScheduleEncoderInputs_cases hplan
    refine h.of_noNewHashes (hcache ▸ he) fun mmHash => ?_
    exact scheduledHashes_mono hshared fun r hr _ => ⟨hrunning hr, by rw [hinputs]⟩
  | freed victim hmem hnot hrun hcache hinputs _ hrunning =>
    refine h.of_noNewHashes (free_noNewHashes hcache) fun mmHash => ?_
    refine scheduledHashes_mono hshared fun r hr hne => ⟨hrunning r hr ?_, by rw [hinputs]⟩
    -- The victim was not scheduled, so it is not one of the requests with inputs.
    rintro rfl
    rw [inputs_eq_none hd hl (hqueued r hr) (hphase hrun ▸ hnot)] at hne
    exact hne rfl
  | withdrawn victim _ hmem hsched hrun hcache hinputs hwithdrawn hrunning =>
    rw [hw] at hwithdrawn
    have hnone := (append_eq_nil_iff.mp hwithdrawn.symm).2
    refine h.of_noNewHashes (free_noNewHashes hcache) fun mmHash => ?_
    refine scheduledHashes_mono hshared fun r hr hne => ?_
    have hrv : r ≠ victim := by
      rintro rfl
      exact hne hnone
    refine ⟨hrunning r hr hrv, ?_⟩
    rw [hinputs, PyDict.get?_erase_of_ne]
    exact fun hid => hrv (hd.ids r (hqueued r hr) victim (hqueued victim hmem) hid)
  | taken r c plan hplan hnew hrun hcache hinputs _ hrunning =>
    have halloc := foldlM_allocates hcache
    have hcollected : collected plan = plan.encoderInputsToSchedule := by
      unfold collected
      rw [planOf_no_load hplan, append_nil]
    have hrq : r ∈ queued p ∧ r ∉ scheduled p := by
      rcases hnew with ⟨hr, hnot, hrun⟩ | ⟨rest, hwait⟩
      · exact ⟨hqueued r hr, hphase hrun ▸ hnot⟩
      · refine ⟨mem_append_left _ (mem_append_left _ ?_), fun hmem => ?_⟩
        · rw [hwait]
          exact mem_cons_self
        · exact hd.head_not_running hwait (hl.running r hmem)
    have hscheduled : ∀ mmHash ∈ scheduledHashes p.s p.scheduledEncoderInputs,
        mmHash ∈ scheduledHashes p'.s p'.scheduledEncoderInputs := fun mmHash => by
      refine scheduledHashes_mono hshared fun x hx hne => ⟨hrunning hx, ?_⟩
      rw [hinputs]
      split
      · rfl
      · rw [PyDict.get?_insert_of_ne]
        intro hid
        obtain rfl := hd.ids x (hqueued x hx) r hrq.1 hid
        rw [inputs_eq_none hd hl hrq.1 hrq.2] at hne
        exact hne rfl
    intro mmHash hk
    rcases halloc.hashes mmHash hk with hk | ⟨hdecoder, hk⟩
    · obtain ⟨hdecoder, hmem⟩ := h mmHash hk
      refine ⟨halloc.decoder.trans hdecoder, hmem.imp (fun hmem => ?_) (hscheduled mmHash)⟩
      rw [halloc.freed hdecoder]
      exact hmem
    · -- The hash of an input that is scheduled now.
      refine ⟨halloc.decoder.trans hdecoder, .inr (mem_scheduledHashes.mpr ⟨r, hrun, ?_⟩)⟩
      rw [hcollected] at hk
      rw [hshared.requestId, identifiers_congr (hshared.mmFeatures r), hinputs, if_neg]
      · rw [PyDict.get?_insert_self]
        exact hk
      · intro hempty
        rw [isEmpty_iff.mp hempty] at hk
        cases hk

/-- What was withdrawn stays recorded. -/
theorem withdrawn_of_step {ec : Option ECConnector} (hnodup : p.s.running.Nodup)
    (hstep : PassStep connector ec phase p p') (hw : p'.withdrawnEncoderInputs = []) :
    p.withdrawnEncoderInputs = [] := by
  cases passStep_encoder hnodup hstep with
  | same _ _ hwithdrawn _ => exact hwithdrawn ▸ hw
  | planned _ _ _ _ _ _ _ _ hwithdrawn _ => exact hwithdrawn ▸ hw
  | freed _ _ _ _ _ _ hwithdrawn _ => exact hwithdrawn ▸ hw
  | withdrawn _ _ _ _ _ _ _ hwithdrawn _ =>
    rw [hw] at hwithdrawn
    exact (append_eq_nil_iff.mp hwithdrawn.symm).1
  | taken _ _ _ _ _ _ _ _ hwithdrawn _ => exact hwithdrawn ▸ hw

/-- So do all steps of a call. -/
theorem agrees_of_steps (hd : Distinct p) (hl : Listed p) (h : Agrees w p)
    (hsteps : PassSteps connector none p p') (hw : p'.withdrawnEncoderInputs = []) :
    Agrees w p' := by
  induction hsteps with
  | refl => exact h
  | tail hsteps hstep ih =>
    obtain ⟨phase, hstep⟩ := hstep
    have hd1 := hd.of_steps hsteps
    have hw1 := withdrawn_of_step hd1.running_nodup hstep hw
    exact agrees_of_step hd1 (listed_of_steps hd hl hsteps) (ih hw1) hw hstep

end Step

/-! ### Runs -/

/-- The cached hashes are on the worker. -/
def OnWorker (w : List String) (s : Scheduler) : Prop :=
  ∀ mmHash, (s.encoderCacheManager.cached.get? mmHash).isSome = true →
    s.encoderCacheManager.isEncoderDecoder = false ∧ mmHash ∈ w ∧
      mmHash ∉ s.encoderCacheManager.freed

theorem OnWorker.agrees {w : List String} (h : OnWorker w s) :
    Agrees w (startPass s) := fun mmHash hk => ⟨(h mmHash hk).1, .inl (h mmHash hk).2⟩

/-- A method that lets no hash enter the cache. -/
theorem OnWorker.of_noNewHashes {w : List String} {s' : Scheduler} (h : OnWorker w s)
    (he : NoNewHashes s.encoderCacheManager s'.encoderCacheManager) : OnWorker w s' := by
  intro mmHash hk
  have hempty : ∀ s : Scheduler, scheduledHashes s PyDict.empty = [] := fun s => by
    unfold scheduledHashes
    exact flatMap_eq_nil_iff.mpr fun _ _ => rfl
  have hagrees : Agrees w (startPass s') := h.agrees.of_noNewHashes he fun mmHash hm => by
    have : mmHash ∈ scheduledHashes s PyDict.empty := hm
    rw [hempty] at this
    cases this
  obtain ⟨hdecoder, hmem | hmem⟩ := hagrees mmHash hk
  · exact ⟨hdecoder, hmem⟩
  · have : mmHash ∈ scheduledHashes s' PyDict.empty := hmem
    rw [hempty] at this
    cases this

/-- `schedule` keeps the agreement with a worker that gets its output. -/
theorem schedule_onWorker {w : List String} {connector : Option KVConnector} {s' : Scheduler}
    {out : SchedulerOutput} {p : SchedulePass} (hq : QueueInv s) (hids : DistinctIds s)
    (h : OnWorker w s) (hsched : s.schedule connector none = .ok (out, s'))
    (hloops : s.scheduleLoops connector none = .ok p) (hw : p.withdrawnEncoderInputs = []) :
    OnWorker (workerStep w ⟨out, s, s'⟩) s' := by
  obtain ⟨p', hloops', -, -, hfin, -⟩ := schedule_queueInv hq hsched
  cases hloops.symm.trans hloops'
  obtain ⟨p1, hsteps, rfl⟩ := scheduleLoops_steps hq.running_nodup hloops
  have hagrees := agrees_of_steps (distinct_startPass hq hids) (listed_startPass s) h.agrees
    hsteps hw
  have hrunning : s'.running = p1.s.running := by
    rw [hfin.frame.eq]
    rfl
  have hscheduled : scheduledHashes s' out.scheduledEncoderInputs =
      scheduledHashes p1.s p1.scheduledEncoderInputs := by
    unfold scheduledHashes
    rw [hrunning, hfin.scheduledEncoderInputs]
    refine flatMap_congr fun r _ => ?_
    have hsame : SameInputs (s'.objects r) (p1.s.objects r) := hfin.frame.inputs r
    rw [hsame.1, identifiers_congr hsame.2]
    rfl
  have he : NoNewHashes { p1.s.encoderCacheManager with freed := [] }
      s'.encoderCacheManager := hfin.frame.encoder.noNewHashes
  intro mmHash hk
  have hold : (p1.s.encoderCacheManager.cached.get? mmHash).isSome = true := by
    cases hget : p1.s.encoderCacheManager.cached.get? mmHash with
    | none =>
      rw [he.hashes mmHash hget] at hk
      cases hk
    | some ids => rfl
  obtain ⟨hdecoder, hmem⟩ := hagrees mmHash hold
  refine ⟨he.decoder.trans hdecoder, ?_, fun hfreed => ?_⟩
  · refine mem_append.mpr ?_
    rcases hmem with ⟨hmem, hnot⟩ | hmem
    · left
      rw [mem_filter, hfin.freeEncoderMmHashes]
      exact ⟨hmem, decide_eq_true hnot⟩
    · right
      rw [hscheduled]
      exact hmem
  · rcases he.freed mmHash hfreed with hfreed | hnone
    · cases hfreed
    · rw [hnone] at hk
      cases hk

/-- The call of `schedule` preempts a request for which it has already scheduled encoder
inputs. -/
def withdrawsInputs (s : Scheduler) (connector : Option KVConnector)
    (ec : Option ECConnector) : Bool :=
  match s.scheduleLoops connector ec with
  | .ok p => !p.withdrawnEncoderInputs.isEmpty
  | .error _ => false

/-- There is no encoder-cache connector, and no call of `schedule` takes encoder inputs back. -/
def NoWithdrawnInputs (e : EngineCore) : EngineOp → Prop
  | .schedule connector ec =>
    ec.isNone = true ∧ withdrawsInputs e.scheduler connector ec = false
  | _ => True

instance (e : EngineCore) (op : EngineOp) : Decidable (NoWithdrawnInputs e op) :=
  match op with
  | .schedule connector ec => inferInstanceAs (Decidable
      (ec.isNone = true ∧ withdrawsInputs e.scheduler connector ec = false))
  | .addRequest _ | .updateFromOutput _ _ | .grammarReady _ | .finishRequests _ _ _
  | .updateDraftTokenIds _ _ | .resetPrefixCache _ => inferInstanceAs (Decidable True)

/-- A prompt of six tokens, the last two of which stand for an image. -/
def lateImage : Request.InitArgs where
  requestId := "b"
  promptTokenIds := some [1, 2, 3, 4, 0, 0]
  samplingParams := some { maxTokens := 8 }
  mmFeatures := [{ modality := "image", identifier := "cat", mmPosition := ⟨4, 2, none⟩ }]
  priority := 1

/-- A prompt of two tokens. -/
def shortPrompt : Request.InitArgs where
  requestId := "a"
  promptTokenIds := some [1, 2]
  samplingParams := some { maxTokens := 8 }

/-- Chunks of two tokens, and `numGpuBlocks` blocks of two tokens. -/
def chunkConfig (numGpuBlocks : Nat) : EngineConfig where
  scheduler := {
    policy := .priority
    maxNumRunningReqs := 2
    maxNumScheduledTokens := 8
    maxModelLen := 16
    longPrefillTokenThreshold := 2
    blockSize := 2
    maxNumEncoderInputTokens := 8 }
  numGpuBlocks
  kvCacheGroups := [.fullAttention 2]
  encoderCacheSize := 4

/-- The chunk with the image and a decoding step of the other request in one batch. -/
def chunkOps : List EngineOp :=
  [.addRequest lateImage,
    .schedule none none,
    .updateFromOutput none { reqIds := ["b"], sampledTokenIds := fun _ => [] },
    .addRequest shortPrompt,
    .schedule none none,
    .updateFromOutput none {
      reqIds := ["b", "a"]
      sampledTokenIds := fun reqId => if reqId = "a" then [7] else [] },
    .schedule none none]

end Vllm.Proofs.Engine
