import Vllm.Proofs.Sched.Queues

/-!
# `Vllm.Proofs.Sched.Objects`: the request objects in the operations beside `schedule`

What the loops of the other operations leave of the request objects. The output of the model
changes the objects it speaks of, each once; an abort changes the status of the requests it ends.

* `updateRequest_objects`, `finishSending_objects`: `update_from_output`.
* `finishLoop_object`: aborts.
-/

set_option autoImplicit false

namespace Vllm.Proofs.Sched

open Vllm.Lib Vllm.V1 Vllm.V1.Core

variable {connector : Option KVConnector} {schedulerOutput : SchedulerOutput}
  {modelRunnerOutput : ModelRunnerOutput} {reqId : String} {r : ReqRef} {p p' : UpdatePass}

/-- One pass of the loop changes one object. -/
theorem updateRequest_objects
    (h : UpdatePass.updateRequest connector schedulerOutput modelRunnerOutput reqId r p = .ok p') :
    ∃ q new stopped, OutputEffect p.s.config
        ((schedulerOutput.scheduledSpecDecodeTokens.get? reqId).getD []).length
        (modelRunnerOutput.sampledTokenIds reqId) (modelRunnerOutput.hasPoolerOutput reqId)
        (p.s.objects r) q new stopped ∧
      p'.s.objects = Function.update p.s.objects r q := by
  obtain ⟨q, new, stopped, k, hup⟩ := updateRequest_cases h
  refine ⟨q, new, stopped, hup.effect, ?_⟩
  cases stopped with
  | false => rw [(hup.goesOn rfl).1]; rfl
  | true =>
    obtain ⟨⟨b, hfree⟩, -⟩ := hup.stops rfl
    obtain ⟨delayed, -, hfreed⟩ := freeRequest_freed hfree
    rw [hfreed.objects]
    rfl

theorem finishSending_objects {s s' : Scheduler} {ids : List String}
    (h : s.finishSending ids = .ok s') : s'.objects = s.objects := by
  induction ids generalizing s with
  | nil =>
    cases h
    rfl
  | cons reqId rest ih =>
    unfold Scheduler.finishSending at h
    split at h
    · cases h
    · obtain ⟨s1, h1, h⟩ := bind_ok h
      rw [ih h]
      obtain ⟨-, -, k, -, rfl⟩ := freeBlocks_cases h1
      rfl

theorem finishLoop_object {status : RequestStatus}
    {l : List ReqRef} {s s' : Scheduler}
    (h : Scheduler.finishLoop connector status s l = .ok s') (r : ReqRef) :
    s'.objects r = if r ∈ l then { s.objects r with status := status } else s.objects r := by
  induction l generalizing s with
  | nil =>
    unfold Scheduler.finishLoop at h
    cases h
    rw [if_neg List.not_mem_nil]
  | cons x rest ih =>
    unfold Scheduler.finishLoop at h
    obtain ⟨⟨b, s1⟩, hfree, h⟩ := bind_ok h
    obtain ⟨delayed, -, hfreed⟩ := freeRequest_freed hfree
    have hobj : s1.objects r = Function.update s.objects x
        { s.objects x with status := status } r := by
      rw [hfreed.objects]
      rfl
    rw [ih h, hobj]
    by_cases hx : r = x
    · subst hx
      rw [Function.update_self, if_pos List.mem_cons_self]
      split <;> rfl
    · rw [Function.update_of_ne hx]
      simp only [List.mem_cons, hx, false_or]

end Vllm.Proofs.Sched
