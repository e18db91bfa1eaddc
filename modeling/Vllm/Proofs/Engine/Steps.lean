import Vllm.Lib.Run
import Vllm.Proofs.Sched.Queues
import Vllm.V1.Engine.Core

/-!
# `Vllm.Proofs.Engine.Steps`: the operations of the engine, by what they do to the scheduler

An operation adds a request, calls `schedule`, or leaves the requests where they are or takes
some out.

* `StepEffect`, `step_effect`: the three cases.
* `queueInv_step`: distinct queues, in every state of every run.
* `distinctIds_step`: distinct ids in the queues, when no request is added under the id of one
  that is there.
-/

set_option autoImplicit false

namespace Vllm.Proofs.Engine

open Vllm.Lib Vllm.V1 Vllm.V1.Core Vllm.V1.Engine Vllm.Proofs.Sched

/-- What one operation does. -/
inductive StepEffect (e e' : EngineCore) : EngineOp → Prop where
  | add (args : Request.InitArgs) (request : Request)
      (hinit : Request.init args e.scheduler.config.blockHasher = .ok request)
      (heq : e' = { e with scheduler := e.scheduler.addRequest request }) :
      StepEffect e e' (.addRequest args)
  | schedule (connector : Option KVConnector) (ec : Option ECConnector)
      (out : SchedulerOutput) (s : Scheduler)
      (hsched : e.scheduler.schedule connector ec = .ok (out, s))
      (heq : e' =
        { scheduler := s
          batchQueue := e.batchQueue ++ [⟨out, e.scheduler, s⟩]
          emitted := e.emitted ++ [⟨out, e.scheduler, s⟩] }) :
      StepEffect e e' (.schedule connector ec)
  | keeps (op : EngineOp) (hkeeps : Keeps e.scheduler e'.scheduler)
      (hemitted : e'.emitted = e.emitted) : StepEffect e e' op

variable {e e' : EngineCore} {op : EngineOp}

theorem step_effect (h : e.step op = .ok e') : StepEffect e e' op := by
  cases op with
  | addRequest args =>
    obtain ⟨request, hinit, h⟩ := bind_ok h
    cases h
    exact .add args request hinit rfl
  | grammarReady r =>
    cases h
    exact .keeps _ (Keeps.of_update ⟨rfl, rfl⟩ rfl) rfl
  | schedule connector ec =>
    obtain ⟨⟨out, s⟩, hsched, h⟩ := bind_ok h
    cases h
    exact .schedule connector ec out s hsched rfl
  | updateFromOutput connector modelRunnerOutput =>
    simp only [EngineCore.step] at h
    split at h
    · cases h
    · obtain ⟨⟨outputs, s⟩, hupdate, h⟩ := bind_ok h
      cases h
      exact .keeps _ (updateFromOutput_keeps hupdate) rfl
  | finishRequests connector requestIds finishedStatus =>
    obtain ⟨s, hfinish, h⟩ := bind_ok h
    cases h
    exact .keeps _ (finishRequests_keeps hfinish) rfl
  | updateDraftTokenIds validate draftTokenIds =>
    cases h
    exact .keeps _ (updateDraftTokenIds_keeps validate draftTokenIds e.scheduler) rfl
  | resetPrefixCache resetRunningRequests =>
    obtain ⟨⟨b, s⟩, hreset, h⟩ := bind_ok h
    cases h
    exact .keeps _ (resetPrefixCache_keeps hreset) rfl

variable {config : EngineConfig}

theorem start_scheduler {e0 : EngineCore} (h : EngineCore.start config = .ok e0) :
    ∃ k, e0 = { scheduler := Scheduler.init config.scheduler k config.encoderCacheSize
                  config.includeFinishedSet } := by
  obtain ⟨k, -, h⟩ := bind_ok h
  cases h
  exact ⟨k, rfl⟩

/-! ### The queues -/

theorem queueInv_start {e0 : EngineCore} (h : EngineCore.start config = .ok e0) :
    QueueInv e0.scheduler := by
  obtain ⟨k, rfl⟩ := start_scheduler h
  exact ⟨List.nodup_nil, fun r hr => absurd hr List.not_mem_nil, fun reqId r hr => by cases hr⟩

theorem queueInv_step (h : QueueInv e.scheduler) (hstep : e.step op = .ok e') :
    QueueInv e'.scheduler := by
  cases step_effect hstep with
  | add args request hinit heq =>
    rw [heq]
    exact h.addRequest
  | schedule connector ec out s hsched heq =>
    obtain ⟨-, -, -, -, -, hq⟩ := schedule_queueInv h hsched
    rw [heq]
    exact hq
  | keeps _ hkeeps _ => exact h.of_keeps hkeeps

/-- No request is added under the id of a request in the queues. -/
def NewIds (e : EngineCore) : EngineOp → Prop
  | .addRequest args => ∀ r ∈ e.scheduler.waiting ++ e.scheduler.running,
      (e.scheduler.objects r).requestId ≠ args.requestId
  | _ => True

instance (e : EngineCore) (op : EngineOp) : Decidable (NewIds e op) :=
  match op with
  | .addRequest args => inferInstanceAs (Decidable (∀ r ∈ e.scheduler.waiting ++
      e.scheduler.running, (e.scheduler.objects r).requestId ≠ args.requestId))
  | .updateFromOutput _ _ | .grammarReady _ | .schedule _ _ | .finishRequests _ _ _
  | .updateDraftTokenIds _ _ | .resetPrefixCache _ => inferInstanceAs (Decidable True)

theorem init_requestId {args : Request.InitArgs} {hasher : Option (Request → List BlockHash)}
    {request : Request} (h : Request.init args hasher = .ok request) :
    request.requestId = args.requestId ∧ request.mmFeatures = args.mmFeatures ∧
      request.loraRequest = args.loraRequest := by
  obtain ⟨⟨maxTokens, status⟩, -, h⟩ := bind_ok h
  obtain ⟨n, -, h⟩ := bind_ok h
  cases h
  exact ⟨rfl, rfl, rfl⟩

theorem distinctIds_step (hq : QueueInv e.scheduler) (h : DistinctIds e.scheduler)
    (hnew : NewIds e op) (hstep : e.step op = .ok e') :
    DistinctIds e'.scheduler := by
  cases step_effect hstep with
  | add args request hinit heq =>
    rw [heq]
    refine h.addRequest hq fun r hr => ?_
    rw [(init_requestId hinit).1]
    exact hnew r hr
  | schedule connector ec out s hsched heq =>
    rw [heq]
    exact schedule_distinctIds hq h hsched
  | keeps _ hkeeps _ => exact h.of_keeps hkeeps

end Vllm.Proofs.Engine
