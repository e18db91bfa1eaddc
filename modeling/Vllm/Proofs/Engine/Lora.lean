import Mathlib.Data.List.Dedup
import Vllm.Proofs.Engine.Steps

/-!
# `Vllm.Proofs.Engine.Lora`: the number of LoRAs in a batch

`schedule` admits a waiting request with a LoRA when the LoRAs of the requests that are
scheduled in this call leave room for it. A running request that the call passes over is not
counted, and it comes back in a later call.

* `LoraBound`: the running requests have at most `max_loras` LoRAs.
* `Counted`: the invariant of the loop over the waiting requests: the LoRAs of all running
  requests are counted.
* `lora_bound`: in runs in which no call passes over a LoRA that matters, no batch has too many
  LoRAs and the assertion on them holds.
-/

set_option autoImplicit false

namespace Vllm.Proofs.Engine

open Vllm.Lib Vllm.V1 Vllm.V1.Core Vllm.V1.Engine Vllm.Proofs.Sched List

/-- The ids of the LoRAs of requests. -/
def lorasOf (s : Scheduler) (requests : List ReqRef) : List Nat :=
  requests.filterMap fun r => (s.objects r).loraRequest.map LoRARequest.loraIntId

variable {s : Scheduler}

theorem mem_lorasOf {requests : List ReqRef} {l : Nat} : l ∈ lorasOf s requests ↔
      ∃ r ∈ requests, ∃ lora, (s.objects r).loraRequest = some lora ∧ lora.loraIntId = l := by
  simp [lorasOf]

variable {s' : Scheduler}

theorem lorasOf_subset {a b : List ReqRef}
    (hs : ∀ r, (s'.objects r).loraRequest = (s.objects r).loraRequest) (h : a ⊆ b) :
    lorasOf s' a ⊆ lorasOf s b := by
  intro l hl
  obtain ⟨r, hr, lora, hlora, rfl⟩ := mem_lorasOf.mp hl
  exact mem_lorasOf.mpr ⟨r, h hr, lora, (hs r) ▸ hlora, rfl⟩

theorem length_dedup_le {a b : List Nat} (hb : b.Nodup) (h : a ⊆ b) :
    a.dedup.length ≤ b.length := by
  have hsub : a.dedup ⊆ b := fun l hl => h (mem_dedup.mp hl)
  exact (List.Nodup.subperm a.nodup_dedup hsub).length_le

/-- The running requests have at most `max_loras` LoRAs. -/
def LoraBound (s : Scheduler) : Prop :=
  ∀ m, s.config.maxLoras = some m → (lorasOf s s.running).dedup.length ≤ m

theorem LoraBound.of_subset (h : LoraBound s) (hconfig : s'.config = s.config)
    (hs : ∀ r, (s'.objects r).loraRequest = (s.objects r).loraRequest)
    (hrun : s'.running ⊆ s.running) : LoraBound s' := by
  intro m hm
  rw [hconfig] at hm
  refine (length_dedup_le (nodup_dedup _) fun l hl => ?_).trans (h m hm)
  exact mem_dedup.mpr (lorasOf_subset hs hrun hl)

/-! ### The loops -/

section Steps
variable {connector : Option KVConnector} {ec : Option ECConnector} {p p' : SchedulePass}

/-- The loop over the running requests starts none. -/
theorem runningStep_running (hnodup : p.s.running.Nodup)
    (h : PassStep connector ec .running p p') : p'.s.running.Sublist p.s.running := by
  cases h with
  | planEncoder hplan =>
    obtain ⟨e, rfl, -⟩ := tryScheduleEncoderInputs_cases hplan
    exact .refl _
  | nextIndex => exact .refl _
  | runFail hr hn halloc => exact .refl _
  | preempt hphase hfcfs hpop hpre =>
    have hsched := popLowest_sched hnodup hpop
    obtain ⟨-, k, e, -, -, rfl⟩ := preemptRequest_cases hpre
    have hrun := congrArg Scheduler.running hsched
    show List.Sublist _ p.s.running
    exact hrun ▸ erase_sublist
  | run hphase hr hfresh hn hneed hcap hpos halloc hplan hplan0 htake =>
    rename_i r n newBlocks k plan
    obtain ⟨d, hspec⟩ := takeSpecTokens_cases
      ({ p with s.kvCacheManager := k }.markScheduled r newBlocks n) r n
    rw [hspec] at htake
    obtain ⟨e, inputs, budget, -, -, rfl⟩ := takeEncoderInputs_cases htake
    exact .refl _
  | recordLoras hlora =>
    obtain ⟨loras, rfl⟩ := recordLoras_cases hlora
    exact .refl _

theorem runningSteps_running (hnodup : (queued p).Nodup)
    (h : PhaseSteps connector ec .running p p') : p'.s.running.Sublist p.s.running := by
  induction h with
  | refl => exact .refl _
  | tail hsteps hstep ih =>
    exact (runningStep_running (running_nodup_of_steps hnodup hsteps) hstep).trans ih

/-- A step of the loop over the waiting requests leaves the running requests and the counted
LoRAs alone, or it starts the head of the waiting queue, whose LoRA fits. -/
theorem waitingStep_loras (h : PassStep connector ec .waiting p p') :
    (p'.s.running = p.s.running ∧ p'.scheduledLoras = p.scheduledLoras ∧
      p'.s.waiting ⊆ p.s.waiting) ∨
    ∃ r rest, p.s.waiting = r :: rest ∧ LoraFits p (p.s.objects r) ∧
      p'.s.running = p.s.running ++ [r] ∧ p'.scheduledLoras = lorasWith p r ∧
      p'.s.waiting = rest := by
  have htail : ∀ {l : List ReqRef}, l.tail ⊆ l := fun {l} => (tail_sublist l).subset
  cases h with
  | planEncoder hplan =>
    obtain ⟨e, rfl, -⟩ := tryScheduleEncoderInputs_cases hplan
    exact .inl ⟨rfl, rfl, fun _ hr => hr⟩
  | skip hw => exact .inl ⟨rfl, rfl, htail⟩
  | remoteReady hw hstatus hready =>
    obtain ⟨k, ids, failed, c, rfl⟩ := updateWaitingForRemoteKv_cases hready
    exact .inl ⟨rfl, rfl, fun _ hr => hr⟩
  | grammarReady hw hstatus => exact .inl ⟨rfl, rfl, fun _ hr => hr⟩
  | matched hw => exact .inl ⟨rfl, rfl, fun _ hr => hr⟩
  | admitFail hw ht halloc => exact .inl ⟨rfl, rfl, fun _ hr => hr⟩
  | awaitRemote hw ht hasync hext halloc => exact .inl ⟨rfl, rfl, htail⟩
  | admitNew hw ht hasync hn hbudget hroom hneed hstatus hlora halloc hplan hplan0 htake
  | admitResumed hw ht hasync hn hbudget hroom hneed hstatus hlora halloc hplan hplan0 htake =>
    rename_i r rest t n newBlocks k plan
    have heq : admitted p r rest k t.numComputedTokens n = _ := markRunning_eq _ _ _ _
    rw [heq] at htake
    obtain ⟨e, inputs, budget, -, -, rfl⟩ := takeEncoderInputs_cases htake
    exact .inr ⟨r, rest, hw, hlora, rfl, rfl, rfl⟩

/-- The LoRAs of all running requests are counted, and they are not too many. -/
structure Counted (m : Nat) (p : SchedulePass) : Prop where
  config : p.s.config.maxLoras = some m
  counted : lorasOf p.s p.s.running ⊆ p.scheduledLoras
  nodup : p.scheduledLoras.Nodup
  bound : p.scheduledLoras.length ≤ m

theorem Counted.of_step {m : Nat} (h : Counted m p) (hnodup : p.s.running.Nodup)
    (hstep : PassStep connector ec .waiting p p') : Counted m p' := by
  obtain ⟨hshared, -⟩ := passStep_move hnodup hstep
  have hconfig : p'.s.config.maxLoras = some m := by rw [hshared.config, h.config]
  rcases waitingStep_loras hstep with ⟨hrun, hloras, -⟩ | ⟨r, rest, -, hfits, hrun, hloras, -⟩
  · refine ⟨hconfig, ?_, hloras ▸ h.nodup, hloras ▸ h.bound⟩
    rw [hloras, hrun]
    exact List.Subset.trans (lorasOf_subset hshared.loraRequest (List.Subset.refl _)) h.counted
  · have hold : lorasOf p'.s p.s.running ⊆ p.scheduledLoras :=
      List.Subset.trans (lorasOf_subset hshared.loraRequest (List.Subset.refl _)) h.counted
    have hnew : lorasOf p'.s [r] ⊆ lorasWith p r := by
      intro l hl
      obtain ⟨x, hx, lora, hlora, rfl⟩ := mem_lorasOf.mp hl
      obtain rfl := mem_singleton.mp hx
      rw [hshared.loraRequest] at hlora
      unfold lorasWith
      rw [h.config, hlora]
      exact mem_insert_self
    have hmono : p.scheduledLoras ⊆ lorasWith p r := by
      intro l hl
      unfold lorasWith
      split
      · exact mem_insert_of_mem hl
      · exact hl
    refine ⟨hconfig, ?_, ?_, ?_⟩
    · rw [hrun, hloras]
      intro l hl
      rw [lorasOf, filterMap_append, mem_append] at hl
      exact hl.elim (fun hl => hmono (hold hl)) (fun hl => hnew hl)
    · rw [hloras]
      unfold lorasWith
      split
      · exact h.nodup.insert
      · exact h.nodup
    · rw [hloras]
      unfold lorasWith
      split
      · rename_i lora hm hlora
        by_cases hmem : lora.loraIntId ∈ p.scheduledLoras
        · rw [insert_of_mem hmem]
          exact h.bound
        · -- A LoRA that is not counted fits only below the bound.
          have hne : p.scheduledLoras.length ≠ m := fun hlen =>
            hmem (hfits m lora h.config hlora hlen)
          have := h.bound
          rw [length_insert_of_not_mem hmem]
          omega
      · exact h.bound

theorem Counted.of_steps {m : Nat} (h : Counted m p) (hnodup : (queued p).Nodup)
    (hsteps : PhaseSteps connector ec .waiting p p') : Counted m p' := by
  induction hsteps with
  | refl => exact h
  | tail hsteps hstep ih =>
    exact ih.of_step (running_nodup_of_steps hnodup hsteps) hstep

/-- No LoRA beyond `loras` is running or waiting. -/
def Within (loras : List Nat) (p : SchedulePass) : Prop :=
  lorasOf p.s p.s.running ⊆ loras ∧ lorasOf p.s p.s.waiting ⊆ loras

theorem Within.of_steps {loras : List Nat} (h : Within loras p) (hnodup : (queued p).Nodup)
    (hsteps : PhaseSteps connector ec .waiting p p') : Within loras p' := by
  induction hsteps with
  | refl => exact h
  | tail hsteps hstep ih =>
    obtain ⟨hshared, -⟩ := passStep_move (running_nodup_of_steps hnodup hsteps) hstep
    have hsub : ∀ {a b : List ReqRef}, a ⊆ b → _ := fun hab =>
      lorasOf_subset hshared.loraRequest hab
    rcases waitingStep_loras hstep with ⟨hrun, -, hwait⟩ | ⟨r, rest, hw, -, hrun, -, hwait⟩
    · exact ⟨List.Subset.trans (hsub (hrun ▸ List.Subset.refl _)) ih.1,
        List.Subset.trans (hsub hwait) ih.2⟩
    · refine ⟨fun l hl => ?_, List.Subset.trans (hsub ?_) ih.2⟩
      · rw [hrun, lorasOf, filterMap_append, mem_append] at hl
        rcases hl with hl | hl
        · exact ih.1 (hsub (List.Subset.refl _) hl)
        · refine ih.2 (hsub (fun x hx => ?_) hl)
          rw [hw, mem_singleton.mp hx]
          exact mem_cons_self
      · rw [hw, hwait]
        exact subset_cons_self r rest

end Steps

/-! ### Runs -/

/-- The call goes on to the waiting requests, the loop over the running requests has passed over
a LoRA, and a LoRA that is not running is waiting. -/
def passesOverLora (s : Scheduler) (ec : Option ECConnector) : Bool :=
  match SchedulePass.runningLoop ec s.running.length (startPass s) with
  | .ok p => decide (p.preemptedReqs = [] ∧ 0 < p.tokenBudget ∧
      p.s.running.length ≠ p.s.config.maxNumRunningReqs ∧
      (∃ l ∈ lorasOf p.s p.s.running, l ∉ lorasOf p.s p.scheduledRunningReqs) ∧
      ∃ l ∈ lorasOf p.s p.s.waiting, l ∉ lorasOf p.s p.s.running)
  | .error _ => false

/-- No call of `schedule` passes over a LoRA that matters. -/
def CountsLoras (e : EngineCore) : EngineOp → Prop
  | .schedule _ ec => passesOverLora e.scheduler ec = false
  | _ => True

/-- The LoRAs of the loop over the running requests. -/
theorem runningLoop_loras {ec : Option ECConnector} {p : SchedulePass} (hq : QueueInv s)
    (h : LoraBound s) (hloop : SchedulePass.runningLoop ec s.running.length (startPass s) = .ok p) :
    LoraBound p.s ∧ ∃ p', p.recordLoras = .ok p' := by
  have hidx : Indexed (startPass s) :=
    ⟨hq.running_nodup, fun x hx => absurd hx not_mem_nil, nodup_nil, rfl, rfl⟩
  obtain ⟨hsteps, hidx'⟩ := runningLoop_steps none ec hidx hloop
  have hnodup : (queued (startPass s)).Nodup := queued_startPass ▸ hq.nodup
  obtain ⟨-, hshared⟩ := shared_of_steps hnodup hsteps.passSteps
  have hbound : LoraBound p.s := h.of_subset hshared.config hshared.loraRequest
    (runningSteps_running hnodup hsteps).subset
  refine ⟨hbound, ?_⟩
  unfold SchedulePass.recordLoras
  split
  · exact ⟨p, rfl⟩
  · rename_i m hm
    have hsub : p.scheduledRunningReqs ⊆ p.s.running := fun r hr =>
      mem_of_mem_take (hidx'.before r hr)
    have hle : (lorasOf p.s p.scheduledRunningReqs).dedup.length ≤ m := by
      refine (length_dedup_le (nodup_dedup _) fun l hl => ?_).trans (hbound m hm)
      exact mem_dedup.mpr (lorasOf_subset (fun _ => rfl) hsub hl)
    refine ⟨{ p with scheduledLoras := (lorasOf p.s p.scheduledRunningReqs).dedup }, ?_⟩
    exact bind_eq_ok_iff.mpr ⟨(), pyAssert_eq_ok_iff.mpr (decide_eq_true hle), rfl⟩

theorem afterSchedule_loraRequest (config : SchedulerConfig) (drafts : List Int)
    (n : Option Int) (request : Request) :
    (afterSchedule config drafts n request).loraRequest = request.loraRequest := by
  unfold afterSchedule
  split
  · rfl
  · dsimp only
    split
    · unfold withPlaceholders
      dsimp only
      split
      · rfl
      · rfl
    · rfl

/-- The loops of `schedule` keep the bound. -/
theorem scheduleLoops_loraBound {connector : Option KVConnector} {ec : Option ECConnector}
    {p : SchedulePass} (hq : QueueInv s) (h : LoraBound s) (hcount : passesOverLora s ec = false)
    (hloops : s.scheduleLoops connector ec = .ok p) : LoraBound p.s := by
  obtain ⟨p1, p2, p3, hloop, hrun, -, hrecord, hwait, hstop, rfl⟩ :=
    scheduleLoops_cases hq.running_nodup hloops
  intro m hm
  show (lorasOf p3.s p3.s.running).dedup.length ≤ m
  have hm3 : p3.s.config.maxLoras = some m := hm
  obtain ⟨hbound, -⟩ := runningLoop_loras hq h hloop
  have hnodup : (queued (startPass s)).Nodup := queued_startPass ▸ hq.nodup
  have hnodup1 : (queued p1).Nodup := (shared_of_steps hnodup hrun.passSteps).1.nodup_iff.mpr hnodup
  have hrecorded : p2.s = p1.s ∧ p2.preemptedReqs = p1.preemptedReqs ∧
      p2.tokenBudget = p1.tokenBudget ∧ queued p2 = queued p1 ∧
      (p1.s.config.maxLoras = some m →
        p2.scheduledLoras = (lorasOf p1.s p1.scheduledRunningReqs).dedup ∧
        p2.scheduledLoras.length ≤ m) := by
    unfold SchedulePass.recordLoras at hrecord
    split at hrecord
    · rename_i hnone
      cases hrecord
      exact ⟨rfl, rfl, rfl, rfl, fun hc => absurd (hnone.symm.trans hc) (nomatch ·)⟩
    · rename_i m' hm'
      obtain ⟨u, hassert, hrecord⟩ := bind_ok hrecord
      cases hrecord
      refine ⟨rfl, rfl, rfl, rfl, fun hc => ⟨rfl, ?_⟩⟩
      cases hm'.symm.trans hc
      exact of_decide_eq_true (pyAssert_eq_ok_iff.mp hassert)
  obtain ⟨hs2, hpre2, hbudget2, hqueued2, hloras2⟩ := hrecorded
  have hnodup2 : (queued p2).Nodup := hqueued2 ▸ hnodup1
  obtain ⟨-, hshared⟩ := shared_of_steps hnodup2 hwait.passSteps
  have hm1 : p1.s.config.maxLoras = some m := by
    rw [← hs2, ← hshared.config]
    exact hm3
  unfold passesOverLora at hcount
  rw [hloop] at hcount
  have hnot := of_decide_eq_false hcount
  by_cases hgo : p1.preemptedReqs = [] ∧ 0 < p1.tokenBudget ∧
      p1.s.running.length ≠ p1.s.config.maxNumRunningReqs
  · by_cases hall : lorasOf p1.s p1.s.running ⊆ lorasOf p1.s p1.scheduledRunningReqs
    · -- All LoRAs are counted.
      have hcounted : Counted m p2 := by
        refine ⟨hs2 ▸ hm1, ?_, ?_, (hloras2 hm1).2⟩
        · rw [hs2, (hloras2 hm1).1]
          exact fun l hl => mem_dedup.mpr (hall hl)
        · rw [(hloras2 hm1).1]
          exact nodup_dedup _
      have hcounted' := hcounted.of_steps hnodup2 hwait
      exact (length_dedup_le hcounted'.nodup hcounted'.counted).trans hcounted'.bound
    · -- No further LoRA is waiting.
      have hwithin : Within (lorasOf p1.s p1.s.running) p2 := by
        rw [Within, hs2]
        refine ⟨List.Subset.refl _, fun l hl => ?_⟩
        by_contra hl'
        refine hnot ⟨hgo.1, hgo.2.1, hgo.2.2, ?_, l, hl, hl'⟩
        by_contra hnone
        refine hall fun x hx => ?_
        by_contra hx'
        exact hnone ⟨x, hx, hx'⟩
      have hwithin' := hwithin.of_steps hnodup2 hwait
      refine (length_dedup_le (nodup_dedup _) fun l hl => ?_).trans (hbound m hm1)
      exact mem_dedup.mpr (hwithin'.1 hl)
  · -- No waiting request is looked at.
    have hstop' : p3 = p2 := by
      refine hstop ?_
      rw [hpre2, hbudget2, hs2]
      by_cases hpre : p1.preemptedReqs = []
      · by_cases hbudget : 0 < p1.tokenBudget
        · exact .inr (.inr fun hroom => hgo ⟨hpre, hbudget, hroom⟩)
        · exact .inr (.inl (Int.not_lt.mp hbudget))
      · exact .inl hpre
    rw [hstop', hs2]
    exact hbound m hm1

theorem schedule_loraBound {connector : Option KVConnector} {ec : Option ECConnector}
    {out : SchedulerOutput} (hq : QueueInv s) (h : LoraBound s)
    (hcount : passesOverLora s ec = false) (hsched : s.schedule connector ec = .ok (out, s')) :
    LoraBound s' := by
  obtain ⟨p, hloops, -, -, hfin, -⟩ := schedule_queueInv hq hsched
  have hp := scheduleLoops_loraBound hq h hcount hloops
  refine hp.of_subset hfin.frame.config (fun r => ?_) ?_
  · rw [hfin.objects]
    exact afterSchedule_loraRequest ..
  · rw [hfin.frame.eq]
    exact List.Subset.refl _

/-- The LoRAs of the requests in a batch. -/
def batchLoras (batch : ScheduledBatch) : List Nat :=
  lorasOf batch.after (batch.after.running.filter fun r =>
    (batch.after.objects r).requestId ∈ batch.output.numScheduledTokens.keys)

instance (e : EngineCore) (op : EngineOp) : Decidable (CountsLoras e op) :=
  match op with
  | .schedule _ ec => inferInstanceAs (Decidable (passesOverLora e.scheduler ec = false))
  | .addRequest _ | .updateFromOutput _ _ | .grammarReady _ | .finishRequests _ _ _
  | .updateDraftTokenIds _ _ | .resetPrefixCache _ => inferInstanceAs (Decidable True)

/-- One LoRA in a batch. -/
def oneLoraConfig : EngineConfig where
  scheduler := {
    maxNumRunningReqs := 2
    maxNumScheduledTokens := 8
    maxModelLen := 16
    maxLoras := some 1
    blockSize := 2 }
  numGpuBlocks := 8
  kvCacheGroups := [.fullAttention 2]

/-- A prompt of two tokens for the LoRA `lora + 1`. -/
def loraPrompt (requestId : String) (lora : Nat) : Request.InitArgs where
  requestId
  promptTokenIds := some [1, 2]
  samplingParams := some { maxTokens := 8 }
  loraRequest := some ⟨requestId, lora + 1, Nat.succ_le_succ (Nat.zero_le lora)⟩

/-- The results of a batch: every request gets one token. -/
def oneToken (reqIds : List String) : ModelRunnerOutput where
  reqIds
  sampledTokenIds := fun _ => [7]

/-- The call of `schedule` raises the assertion on the LoRAs. -/
def assertsLoras (e : EngineCore) : Bool :=
  match e.step (.schedule none none) with
  | .ok _ => false
  | .error err =>
    err = .assertionError "len(scheduled_loras) <= self.lora_config.max_loras"

end Vllm.Proofs.Engine
