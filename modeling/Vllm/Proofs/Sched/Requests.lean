import Mathlib.Data.List.Dedup
import Vllm.Proofs.Sched.UpdateSteps

/-!
# `Vllm.Proofs.Sched.Requests`: requests come, run and end

The methods beside `schedule` keep `Conserved`, and what they finish is announced.

* `Freed`: what `_free_request` does to the fields that the invariant speaks of.
* `Ends connector s s'`: the requests that ended between two states, with their ids in
  `finished_req_ids` and their blocks.
* `addRequest_conserved`, `finishRequests_conserved`, `updateFromOutput_conserved`.
-/

set_option autoImplicit false

namespace Vllm.Proofs.Sched

open Vllm.Lib Vllm.V1 Vllm.V1.Core
open List hiding removeAll beq_eq_decide

/-! ### One request ends -/

/-- What `_free_request` does to the fields of the invariant. -/
structure Freed (s s' : Scheduler) (r : ReqRef) (delayed : Bool) : Prop where
  config : s'.config = s.config
  waiting : s'.waiting = s.waiting
  running : s'.running = s.running
  numObjects : s'.numObjects = s.numObjects
  objects : s'.objects = s.objects
  calls : s'.freeRequestCalls = s.freeRequestCalls ++ [r]
  finishedReqIds : s'.finishedReqIds = s.finishedReqIds.insert (s.objects r).requestId
  finished : (s.objects r).isFinished = true
  requests : s'.requests = if delayed then s.requests
    else s.requests.erase (s.objects r).requestId
  blocks : s'.freeBlocksCalls = if delayed then s.freeBlocksCalls
    else s.freeBlocksCalls ++ [r]

variable {r : ReqRef}

theorem freeRequest_freed {s s' : Scheduler} {connector : Option KVConnector} {b : Bool}
    (h : s.freeRequest connector r = .ok (b, s')) :
    ∃ delayed, (NeverDelays connector → delayed = false) ∧ Freed s s' r delayed := by
  obtain ⟨hfin, e, delay, -, hconn, h⟩ := freeRequest_cases h
  refine ⟨delay, hconn, ?_⟩
  cases delay with
  | true =>
    cases h
    exact ⟨rfl, rfl, rfl, rfl, rfl, rfl, rfl, hfin, rfl, rfl⟩
  | false =>
    simp only [Bool.false_eq_true, if_false] at h
    obtain ⟨-, -, k, -, rfl⟩ := freeBlocks_cases h
    exact ⟨rfl, rfl, rfl, rfl, rfl, rfl, rfl, hfin, rfl, rfl⟩

namespace Conserved

variable {s s' : Scheduler} {aside : List ReqRef}

/-- A request that stands aside ends. -/
theorem finishOne {s1 : Scheduler} {r : ReqRef} {delayed : Bool} (h : Conserved s (r :: aside))
    (hf : Freed s1 s' r delayed) (hreq : s1.requests = s.requests) (hnum : s1.numObjects = s.numObjects)
    (hcalls : s1.freeRequestCalls = s.freeRequestCalls)
    (hblocks : s1.freeBlocksCalls = s.freeBlocksCalls)
    (hid : ∀ r', (s1.objects r').requestId = (s.objects r').requestId)
    (hstatus : ∀ r', r' ≠ r → (s1.objects r').status = (s.objects r').status)
    (hw : s1.waiting = s.waiting) (hrun : s1.running = s.running) :
    Conserved s' aside := by
  have hmem : r ∈ s.waiting ++ (r :: aside) ++ s.running :=
    mem_append_left _ (mem_append_right _ mem_cons_self)
  obtain ⟨hlt, hunf⟩ := (h.queued r).mp hmem
  have hreg := h.registered r hlt hunf
  have hperm : (s.waiting ++ (r :: aside) ++ s.running).Perm
      (r :: (s.waiting ++ aside ++ s.running)) := by
    rw [append_assoc, append_assoc]
    exact perm_middle
  have hnd := nodup_cons.mp (hperm.nodup_iff.mp h.nodup)
  have hobj : s'.objects = s1.objects := hf.objects
  have hid' : ∀ r', (s'.objects r').requestId = (s.objects r').requestId := by
    intro r'
    rw [hobj, hid]
  have hfin' : ∀ r', r' ≠ r → (s'.objects r').isFinished = (s.objects r').isFinished := by
    intro r' hne
    unfold Request.isFinished
    rw [hobj, hstatus r' hne]
  have hfinr : (s'.objects r).isFinished = true := hobj ▸ hf.finished
  have hreq' : s'.requests = if delayed then s.requests
      else s.requests.erase (s.objects r).requestId := by
    rw [hf.requests, hreq, hid]
  have hblocks' : s'.freeBlocksCalls = if delayed then s.freeBlocksCalls
      else s.freeBlocksCalls ++ [r] := by
    rw [hf.blocks, hblocks]
  have hnum' : s'.numObjects = s.numObjects := hf.numObjects.trans hnum
  have hcalls' : s'.freeRequestCalls = s.freeRequestCalls ++ [r] := by
    rw [hf.calls, hcalls]
  have hnotcalled : r ∉ s.freeRequestCalls := by
    intro hm
    rw [((h.freed r).mp hm).2] at hunf
    cases hunf
  -- The other requests are registered as before.
  have hget : ∀ r', r' ≠ r → (s'.requests.get? (s.objects r').requestId = some r' ↔
      s.requests.get? (s.objects r').requestId = some r') := by
    intro r' hne
    rw [hreq']
    cases delayed with
    | true => exact Iff.rfl
    | false =>
      simp only [Bool.false_eq_true, if_false, PyDict.get?_erase]
      split
      · rename_i heq
        rw [heq, hreg]
        constructor
        · intro hc
          cases hc
        · intro hc
          exact absurd (Option.some.inj hc).symm hne
      · exact Iff.rfl
  refine ⟨?_, ?_, ?_, ?_, ?_, ?_, ?_, ?_, ?_, ?_⟩
  · intro reqId r' hr'
    rw [hid', hnum']
    refine h.known reqId r' ?_
    rw [hreq'] at hr'
    cases delayed with
    | true => exact hr'
    | false =>
      simp only [Bool.false_eq_true, if_false, PyDict.get?_erase] at hr'
      split at hr'
      · cases hr'
      · exact hr'
  · intro r' hlt' hunf'
    have hne : r' ≠ r := by
      rintro rfl
      rw [hfinr] at hunf'
      cases hunf'
    rw [hid', hget r' hne]
    exact h.registered r' (hnum' ▸ hlt') (hfin' r' hne ▸ hunf')
  · rw [hf.waiting, hf.running, hw, hrun]
    exact hnd.2
  · intro r'
    rw [hf.waiting, hf.running, hw, hrun, hnum']
    by_cases hne : r' = r
    · subst hne
      rw [hfinr]
      exact ⟨fun hm => absurd hm hnd.1, fun hc => by cases hc.2⟩
    · rw [hfin' r' hne, ← h.queued r', hperm.mem_iff, mem_cons]
      exact ⟨.inr, fun hm => hm.resolve_left hne⟩
  · intro r' hr'
    rw [hf.waiting, hw] at hr'
    have hne : r' ≠ r := by
      rintro rfl
      exact hnd.1 (mem_append_left _ (mem_append_left _ hr'))
    rw [hobj, hstatus r' hne]
    exact h.waiting r' hr'
  · intro r' hr'
    rw [hf.running, hrun] at hr'
    have hne : r' ≠ r := by
      rintro rfl
      exact hnd.1 (mem_append_right _ hr')
    rw [hobj, hstatus r' hne]
    exact h.running r' hr'
  · intro r'
    rw [hcalls', hnum', mem_append, mem_singleton]
    by_cases hne : r' = r
    · subst hne
      exact ⟨fun _ => ⟨hlt, hfinr⟩, fun _ => .inr rfl⟩
    · rw [hfin' r' hne, ← h.freed r']
      exact ⟨fun hm => hm.resolve_right hne, .inl⟩
  · rw [hcalls']
    exact nodup_append.mpr ⟨h.freed_nodup, nodup_singleton r,
      fun a ha b hb => by rintro rfl; exact hnotcalled (mem_singleton.mp hb ▸ ha)⟩
  · intro r'
    have hold : r' ≠ r → (r' ∈ s'.freeBlocksCalls ↔ r' ∈ s.freeBlocksCalls) := by
      intro hne
      rw [hblocks']
      cases delayed with
      | true => exact Iff.rfl
      | false =>
        simp only [Bool.false_eq_true, if_false, mem_append, mem_singleton]
        exact ⟨fun hm => hm.resolve_right hne, .inl⟩
    rw [hcalls', hid']
    by_cases hne : r' = r
    · subst hne
      rw [hreq', hblocks']
      cases delayed with
      | true =>
        simp only [if_true]
        refine ⟨fun hm => absurd ((h.released r').mp hm).1 hnotcalled, fun hc => ?_⟩
        exact absurd hreg hc.2
      | false =>
        simp only [Bool.false_eq_true, if_false, mem_append, mem_singleton,
          PyDict.get?_erase, if_true]
        simp
    · rw [hold hne, h.released r', mem_append, mem_singleton]
      constructor
      · rintro ⟨hm, hn⟩
        exact ⟨.inl hm, fun hc => hn ((hget r' hne).mp hc)⟩
      · rintro ⟨hm, hn⟩
        exact ⟨hm.resolve_right hne, fun hc => hn ((hget r' hne).mpr hc)⟩
  · rw [hblocks']
    cases delayed with
    | true => exact h.released_nodup
    | false =>
      refine nodup_append.mpr ⟨h.released_nodup, nodup_singleton r, ?_⟩
      intro a ha b hb
      rintro rfl
      rw [mem_singleton.mp hb] at ha
      exact hnotcalled ((h.released r).mp ha).1

/-- Requests leave the queues and stand aside. -/
theorem moveAside {rs : List ReqRef} (h : Conserved s []) (hnd : rs.Nodup)
    (hrs : ∀ r ∈ rs, r ∈ s.waiting ++ s.running)
    {w l : List ReqRef} (hw : w = s.waiting.filter fun r => r ∉ rs)
    (hl : l = s.running.filter fun r => r ∉ rs) :
    Conserved { s with waiting := w, running := l } rs := by
  have hnodup : (s.waiting ++ s.running).Nodup := by
    have := h.nodup
    rwa [append_nil] at this
  have hperm : (w ++ rs ++ l).Perm (s.waiting ++ [] ++ s.running) := by
    rw [append_nil, hw, hl]
    have hsplit : ((s.waiting ++ s.running).filter fun r => r ∈ rs).Perm rs := by
      refine (perm_ext_iff_of_nodup (hnodup.filter _) hnd).mpr fun r => ?_
      rw [mem_filter, decide_eq_true_eq]
      exact ⟨fun hr => hr.2, fun hr => ⟨hrs r hr, hr⟩⟩
    have hall := filter_append_perm (fun r => decide (r ∈ rs)) (s.waiting ++ s.running)
    refine List.Perm.trans ?_ hall
    have hnot : (s.waiting.filter fun r => decide (r ∉ rs)) ++
        (s.running.filter fun r => decide (r ∉ rs)) =
        (s.waiting ++ s.running).filter fun r => !decide (r ∈ rs) := by
      rw [filter_append]
      simp
    calc (s.waiting.filter (fun r => decide (r ∉ rs)) ++ rs ++
          s.running.filter fun r => decide (r ∉ rs)).Perm
          (rs ++ (s.waiting.filter (fun r => decide (r ∉ rs)) ++
            s.running.filter fun r => decide (r ∉ rs))) := by
          rw [← append_assoc]
          exact perm_append_comm.append_right _
      _ |>.Perm _ := by
          rw [hnot]
          exact hsplit.symm.append_right _
  refine h.requeue rfl rfl rfl rfl (fun _ => rfl) (fun _ => rfl) hperm ?_ ?_
  · intro r hr
    change r ∈ w at hr
    rw [hw] at hr
    exact h.waiting r (mem_filter.mp hr).1
  · intro r hr
    change r ∈ l at hr
    rw [hl] at hr
    exact h.running r (mem_filter.mp hr).1

end Conserved

/-! ### `add_request` -/

/-- A new request with an id that is not registered. -/
theorem addRequest_conserved {s : Scheduler} {request : Request} (h : Conserved s [])
    (hfresh : s.requests.get? request.requestId = none) (hq : IsQueued request.status) :
    Conserved (s.addRequest request) [] := by
  have hobj : ∀ r, r ≠ s.numObjects → (s.addRequest request).objects r = s.objects r :=
    fun r hr => Function.update_of_ne hr _ _
  have hself : (s.addRequest request).objects s.numObjects = request := Function.update_self ..
  have hget : ∀ reqId, (s.addRequest request).requests.get? reqId =
      if reqId = request.requestId then some s.numObjects else s.requests.get? reqId := by
    intro reqId
    show (s.requests.insert request.requestId s.numObjects).get? reqId = _
    rw [PyDict.get?_insert]
  have hperm : (s.addRequest request).waiting.Perm (s.numObjects :: s.waiting) :=
    addRequest_perm _ _ _ _
  have hold : ∀ r ∈ s.waiting ++ [] ++ s.running, r < s.numObjects :=
    fun r hr => ((h.queued r).mp hr).1
  have hne : ∀ {r}, r < s.numObjects → r ≠ s.numObjects := fun hr => Nat.ne_of_lt hr
  have hperm' : ((s.addRequest request).waiting ++ [] ++ (s.addRequest request).running).Perm
      (s.numObjects :: (s.waiting ++ [] ++ s.running)) := by
    show ((s.addRequest request).waiting ++ [] ++ s.running).Perm _
    rw [append_nil, append_nil]
    exact hperm.append_right s.running
  have hnotcall : ∀ r ∈ s.freeRequestCalls, r ≠ s.numObjects :=
    fun r hr => hne ((h.freed r).mp hr).1
  refine ⟨?_, ?_, ?_, ?_, ?_, ?_, ?_, h.freed_nodup, ?_, h.released_nodup⟩
  · intro reqId r hr
    rw [hget] at hr
    split at hr
    · rename_i heq
      cases hr
      exact ⟨by rw [hself, heq], Nat.lt_succ_self _⟩
    · obtain ⟨hid, hlt⟩ := h.known reqId r hr
      exact ⟨by rw [hobj r (hne hlt), hid], Nat.lt_succ_of_lt hlt⟩
  · intro r hlt hunf
    rw [hget]
    rcases Nat.lt_succ_iff_lt_or_eq.mp hlt with hlt | rfl
    · rw [hobj r (hne hlt)] at hunf ⊢
      have hreg := h.registered r hlt hunf
      rw [if_neg]
      · exact hreg
      · intro heq
        rw [heq, hfresh] at hreg
        cases hreg
    · rw [hself, if_pos rfl]
  · refine hperm'.nodup_iff.mpr (nodup_cons.mpr ⟨fun hm => ?_, h.nodup⟩)
    exact Nat.lt_irrefl _ (hold _ hm)
  · intro r
    rw [hperm'.mem_iff, mem_cons, h.queued]
    show _ ↔ r < s.numObjects + 1 ∧ _
    by_cases heq : r = s.numObjects
    · subst heq
      rw [hself]
      exact ⟨fun _ => ⟨Nat.lt_succ_self _, hq.not_finished⟩, fun _ => .inl rfl⟩
    · rw [hobj r heq]
      constructor
      · rintro (hc | ⟨hlt, hunf⟩)
        · exact absurd hc heq
        · exact ⟨Nat.lt_succ_of_lt hlt, hunf⟩
      · rintro ⟨hlt, hunf⟩
        exact .inr ⟨Nat.lt_of_le_of_ne (Nat.le_of_lt_succ hlt) heq, hunf⟩
  · intro r hr
    rcases mem_cons.mp (hperm.mem_iff.mp hr) with rfl | hr
    · rw [hself]
      exact hq
    · rw [hobj r (hne (hold r (mem_append_left _ (mem_append_left _ hr))))]
      exact h.waiting r hr
  · intro r hr
    rw [hobj r (hne (hold r (mem_append_right _ hr)))]
    exact h.running r hr
  · intro r
    show r ∈ s.freeRequestCalls ↔ r < s.numObjects + 1 ∧ _
    by_cases heq : r = s.numObjects
    · subst heq
      rw [hself]
      refine ⟨fun hm => absurd rfl (hnotcall _ hm), fun hc => ?_⟩
      have hfin : request.isFinished = true := hc.2
      rw [Request.isFinished, hq.not_finished] at hfin
      cases hfin
    · rw [hobj r heq, h.freed r]
      exact ⟨fun hc => ⟨Nat.lt_succ_of_lt hc.1, hc.2⟩,
        fun hc => ⟨Nat.lt_of_le_of_ne (Nat.le_of_lt_succ hc.1) heq, hc.2⟩⟩
  · intro r
    show r ∈ s.freeBlocksCalls ↔ r ∈ s.freeRequestCalls ∧ _
    rw [h.released r]
    refine and_congr_right fun hm => not_congr ?_
    have hr := hnotcall r hm
    rw [hobj r hr, hget]
    split
    · rename_i heq
      rw [heq, hfresh]
      constructor
      · intro hc
        cases hc
      · intro hc
        exact absurd (Option.some.inj hc).symm hr
    · exact Iff.rfl

/-! ### `finish_requests` -/

/-- The requests that ended between two states are announced in `finished_req_ids`, and their
blocks are freed at once when the connector never delays that. -/
structure Ends (connector : Option KVConnector) (s s' : Scheduler) : Prop where
  config : s'.config = s.config
  numObjects : s'.numObjects = s.numObjects
  ids : ∀ r, (s'.objects r).requestId = (s.objects r).requestId
  calls : ∃ l, s'.freeRequestCalls = s.freeRequestCalls ++ l ∧
    ∀ x, x ∈ s'.finishedReqIds ↔ x ∈ s.finishedReqIds ∨ ∃ r ∈ l, (s.objects r).requestId = x
  blocks : NeverDelays connector → s.freeBlocksCalls = s.freeRequestCalls →
    s'.freeBlocksCalls = s'.freeRequestCalls

namespace Ends

variable {connector : Option KVConnector} {s s' s'' : Scheduler}

/-- No request ended. -/
theorem of_eq (hconfig : s'.config = s.config) (hnum : s'.numObjects = s.numObjects)
    (hid : ∀ r, (s'.objects r).requestId = (s.objects r).requestId)
    (hcalls : s'.freeRequestCalls = s.freeRequestCalls)
    (hfin : s'.finishedReqIds = s.finishedReqIds)
    (hblocks : s'.freeBlocksCalls = s.freeBlocksCalls) : Ends connector s s' := by
  refine ⟨hconfig, hnum, hid, ⟨[], ?_, fun x => ?_⟩, fun _ h => ?_⟩
  · rw [hcalls, append_nil]
  · rw [hfin]
    simp
  · rw [hblocks, hcalls, h]

theorem refl (s : Scheduler) : Ends connector s s := of_eq rfl rfl (fun _ => rfl) rfl rfl rfl

theorem trans (h : Ends connector s s') (h' : Ends connector s' s'') : Ends connector s s'' := by
  obtain ⟨l, hl, hm⟩ := h.calls
  obtain ⟨l', hl', hm'⟩ := h'.calls
  refine ⟨h'.config.trans h.config, h'.numObjects.trans h.numObjects,
    fun r => (h'.ids r).trans (h.ids r), ⟨l ++ l', ?_, fun x => ?_⟩,
    fun hn ht => h'.blocks hn (h.blocks hn ht)⟩
  · rw [hl', hl, append_assoc]
  · rw [hm', hm]
    simp only [h.ids, mem_append]
    constructor
    · rintro ((hx | ⟨r, hr, hx⟩) | ⟨r, hr, hx⟩)
      · exact .inl hx
      · exact .inr ⟨r, .inl hr, hx⟩
      · exact .inr ⟨r, .inr hr, hx⟩
    · rintro (hx | ⟨r, hr | hr, hx⟩)
      · exact .inl (.inl hx)
      · exact .inl (.inr ⟨r, hr, hx⟩)
      · exact .inr ⟨r, hr, hx⟩

theorem of_freed {r : ReqRef} {delayed : Bool} (h : Freed s s' r delayed)
    (hnever : NeverDelays connector → delayed = false) : Ends connector s s' := by
  refine ⟨h.config, h.numObjects, fun r' => by rw [h.objects], ⟨[r], h.calls, fun x => ?_⟩,
    fun hn ht => ?_⟩
  · rw [h.finishedReqIds, mem_insert_iff]
    simp only [mem_singleton, exists_eq_left]
    constructor
    · rintro (rfl | hx)
      · exact .inr rfl
      · exact .inl hx
    · rintro (hx | rfl)
      · exact .inr hx
      · exact .inl rfl
  · rw [h.blocks, h.calls, hnever hn, ht]
    rfl

end Ends

/-- A change of one object that keeps its id. -/
theorem Ends.of_update {connector : Option KVConnector} {s : Scheduler} {q : Request}
    {k : KVCacheManager} (hid : q.requestId = (s.objects r).requestId) :
    Ends connector s (withOutput s r q k) := by
  refine Ends.of_eq rfl rfl (fun r' => ?_) rfl rfl rfl
  show (Function.update s.objects r q r').requestId = _
  by_cases hr : r' = r
  · subst hr
    rw [Function.update_self, hid]
  · rw [Function.update_of_ne hr]

variable {status : RequestStatus} {l : List ReqRef}

/-- The second pass of `finish_requests`. -/
theorem finishLoop_conserved {connector : Option KVConnector} {s s' : Scheduler}
    (h : Conserved s l) (hloop : Scheduler.finishLoop connector status s l = .ok s') :
    Conserved s' [] ∧ Ends connector s s' := by
  induction l generalizing s with
  | nil =>
    unfold Scheduler.finishLoop at hloop
    cases hloop
    exact ⟨h, .refl _⟩
  | cons r rest ih =>
    unfold Scheduler.finishLoop at hloop
    obtain ⟨⟨b, s1⟩, hfree, hloop⟩ := bind_ok hloop
    obtain ⟨delayed, hnever, hfreed⟩ := freeRequest_freed hfree
    have hid : ∀ r', ((s.modify r fun request =>
        { request with status := status }).objects r').requestId =
        (s.objects r').requestId := by
      intro r'
      show (Function.update s.objects r _ r').requestId = _
      by_cases hr : r' = r
      · subst hr
        rw [Function.update_self]
      · rw [Function.update_of_ne hr]
    have hstatus : ∀ r', r' ≠ r → ((s.modify r fun request =>
        { request with status := status }).objects r').status = (s.objects r').status := by
      intro r' hr
      show (Function.update s.objects r _ r').status = _
      rw [Function.update_of_ne hr]
    have h1 : Conserved s1 rest := h.finishOne hfreed rfl rfl rfl rfl hid hstatus rfl rfl
    obtain ⟨hc, hends⟩ := ih h1 hloop
    have hmod : Ends connector s (s.modify r fun request => { request with status := status }) :=
      .of_eq rfl rfl hid rfl rfl rfl
    exact ⟨hc, (hmod.trans (.of_freed hfreed hnever)).trans hends⟩

variable {items : List ReqRef}

theorem removeAll_eq_filter (h : l.Nodup) : removeAll l items = l.filter fun r => r ∉ items := by
  unfold removeAll
  split
  · simp
  · rw [h.erase_eq_filter]
    refine filter_congr fun r _ => ?_
    simp [bne, beq_eq_decide]
  · rfl

variable {ids : List String}

theorem validRequests_mem {s : Scheduler} (h : Conserved s []) (hr : r ∈ s.validRequests ids) :
    r ∈ s.waiting ++ s.running ∧ (s.objects r).isFinished = false := by
  unfold Scheduler.validRequests at hr
  obtain ⟨reqId, -, hget⟩ := mem_filterMap.mp hr
  obtain ⟨hget, hunf⟩ := Option.filter_eq_some_iff.mp hget
  have hunf' : (s.objects r).isFinished = false := by simpa using hunf
  have hm := (h.queued r).mpr ⟨(h.known reqId r hget).2, hunf'⟩
  rw [append_nil] at hm
  exact ⟨hm, hunf'⟩

theorem validRequests_nodup {s : Scheduler} (h : Conserved s []) : (s.validRequests ids).Nodup := by
  unfold Scheduler.validRequests
  refine (nodup_dedup ids).filterMap fun a a' r hr hr' => ?_
  have h1 := (h.known a r (Option.filter_eq_some_iff.mp (Option.mem_def.mp hr)).1).1
  have h2 := (h.known a' r (Option.filter_eq_some_iff.mp (Option.mem_def.mp hr')).1).1
  exact h1.symm.trans h2

/-- `finish_requests` keeps the invariant. -/
theorem finishRequests_conserved {s s' : Scheduler} {connector : Option KVConnector}
    (h : Conserved s []) (hfin : s.finishRequests connector ids status = .ok s') :
    Conserved s' [] ∧ Ends connector s s' := by
  unfold Scheduler.finishRequests at hfin
  obtain ⟨u, -, hfin⟩ := bind_ok hfin
  dsimp only at hfin
  have hmem : ∀ r ∈ s.validRequests ids, r ∈ s.waiting ++ s.running :=
    fun r hr => (validRequests_mem h hr).1
  have hrun : removeAll s.running ((s.validRequests ids).filter fun r =>
      (s.objects r).status = .running) = s.running.filter fun r => r ∉ s.validRequests ids := by
    rw [removeAll_eq_filter h.running_nodup]
    refine filter_congr fun r hr => ?_
    simp [mem_filter, h.running r hr]
  have hwait : SchedulingPolicy.removeRequests s.waiting ((s.validRequests ids).filter fun r =>
      (s.objects r).status ≠ .running) = s.waiting.filter fun r => r ∉ s.validRequests ids := by
    unfold SchedulingPolicy.removeRequests
    refine filter_congr fun r hr => ?_
    simp [mem_filter, (h.waiting r hr).ne_running]
  rw [hrun, hwait] at hfin
  have hside := h.moveAside (validRequests_nodup h) hmem rfl rfl
  obtain ⟨hc, hends⟩ := finishLoop_conserved hside hfin
  refine ⟨hc, Ends.trans ?_ hends⟩
  exact .of_eq rfl rfl (fun _ => rfl) rfl rfl rfl

/-! ### `update_from_output` -/

/-- The invariant of the loop of `update_from_output`: without the requests that have stopped,
the queues are as they should be. -/
structure UpdateInv (p : UpdatePass) : Prop where
  conserved : Conserved p.removeStopped.s []
  nodup : p.s.running.Nodup

variable {p : UpdatePass}

theorem UpdateInv.queues (h : UpdateInv p) :
    p.removeStopped.s.running = p.s.running.filter (fun r => r ∉ p.stoppedRunningReqs) ∧
      p.removeStopped.s.waiting = p.s.waiting.filter fun r => r ∉ p.stoppedPreemptedReqs :=
  ⟨removeAll_eq_filter h.nodup, rfl⟩

theorem filter_insert : (l.filter fun x => x ∉ items.insert r) =
      (l.filter fun x => x ∉ items).filter fun x => x ∉ [r] := by
  rw [filter_filter]
  refine filter_congr fun x _ => ?_
  simp only [mem_insert_iff, mem_singleton, not_or, Bool.decide_and]

theorem filter_not_mem_self (h : r ∉ l) : l = l.filter fun x => x ∉ [r] := by
  refine (filter_eq_self.mpr fun x hx => ?_).symm
  simp only [mem_singleton, decide_eq_true_eq]
  rintro rfl
  exact h hx

/-- The output of the model has nothing for a request, or its tokens are discarded. -/
def NothingFor (s : Scheduler) (modelRunnerOutput : ModelRunnerOutput) (reqId : String) (r : ReqRef) :
    Prop :=
  (modelRunnerOutput.sampledTokenIds reqId = [] ∨
    s.config.asyncScheduling = true ∧ (s.objects r).discardLatestAsyncTokens = true) ∧
  modelRunnerOutput.hasPoolerOutput reqId = false

variable {modelRunnerOutput : ModelRunnerOutput} {reqId : String}

/-- What the model has for a request leaves what the request has said so far. -/
theorem OutputEffect.of_nothing {s : Scheduler} {d : Nat} {q : Request} {new : List Int}
    {stopped : Bool} (hquiet : NothingFor s modelRunnerOutput reqId r)
    (h : OutputEffect s.config d (modelRunnerOutput.sampledTokenIds reqId)
      (modelRunnerOutput.hasPoolerOutput reqId) (s.objects r) q new stopped) :
    stopped = false ∧ new = [] ∧ q.outputTokenIds = (s.objects r).outputTokenIds := by
  obtain ⟨htokens, hpooler⟩ := hquiet
  have hcorrected : ∀ d g (a : Request), (corrected d g a).outputTokenIds = a.outputTokenIds := by
    intro d g a
    unfold corrected
    split <;> rfl
  -- Tokens that are there are discarded.
  have hdrop : modelRunnerOutput.sampledTokenIds reqId ≠ [] →
      s.config.asyncScheduling = true ∧ (s.objects r).discardLatestAsyncTokens = true :=
    fun hne => htokens.resolve_left hne
  cases h with
  | nothing hg hnone => exact ⟨rfl, rfl, hcorrected ..⟩
  | pooled hg hp ho =>
    rw [hpooler] at ho
    cases ho
  | appended hg hsync h =>
    rw [(hdrop hg).1] at hsync
    cases hsync
  | discarded hg hasync hd => exact ⟨rfl, rfl, hcorrected ..⟩
  | appendedAsync hg hasync hd h hpos =>
    rw [(hdrop hg).2] at hd
    cases hd

variable {schedulerOutput : SchedulerOutput} {p' : UpdatePass}

/-- One pass of the loop, for a registered request that is not finished or for which the output has
nothing. -/
theorem updateRequest_conserved {connector : Option KVConnector} (h : UpdateInv p)
    (hget : p.s.requests.get? reqId = some r)
    (hquiet : (p.s.objects r).isFinished = false ∨ NothingFor p.s modelRunnerOutput reqId r)
    (hupd : UpdatePass.updateRequest connector schedulerOutput modelRunnerOutput reqId r p =
      .ok p') :
    UpdateInv p' ∧ Ends connector p.s p'.s ∧
      (∀ a r', a ≠ reqId → p'.s.requests.get? a = some r' →
        p.s.requests.get? a = some r' ∧ p'.s.objects r' = p.s.objects r') := by
  obtain ⟨q, new, stopped, k, hup⟩ := updateRequest_cases hupd
  obtain ⟨hqid, hgoes, hstops, -, -, -⟩ := hup.effect.fields
  have hother : ∀ r', r' ≠ r → (withOutput p.s r q k).objects r' = p.s.objects r' :=
    fun r' hr => Function.update_of_ne hr _ _
  have hself : (withOutput p.s r q k).objects r = q := Function.update_self ..
  have hids : ∀ r', ((withOutput p.s r q k).objects r').requestId = (p.s.objects r').requestId := by
    intro r'
    by_cases hr : r' = r
    · rw [hr, hself, hqid]
    · rw [hother r' hr]
  have hne : ∀ a r', a ≠ reqId → p.s.requests.get? a = some r' → r' ≠ r := by
    rintro a r' ha hr' rfl
    exact ha ((h.conserved.known a r' hr').1.symm.trans (h.conserved.known reqId r' hget).1)
  cases stopped with
  | false =>
    obtain ⟨hs, hr1, hr2⟩ := hup.goesOn rfl
    have hstatus : ∀ r', ((withOutput p.s r q k).objects r').status = (p.s.objects r').status := by
      intro r'
      by_cases hr : r' = r
      · rw [hr, hself, hgoes rfl]
      · rw [hother r' hr]
    refine ⟨⟨?_, ?_⟩, ?_, ?_⟩
    · refine h.conserved.frame ?_ ?_ ?_ ?_ ?_ ?_ ?_ ?_
      · show p'.s.requests = _
        rw [hs]
        rfl
      · show p'.s.numObjects = _
        rw [hs]
        rfl
      · show p'.s.freeRequestCalls = _
        rw [hs]
        rfl
      · show p'.s.freeBlocksCalls = _
        rw [hs]
        rfl
      · intro r'
        show (p'.s.objects r').requestId = _
        rw [hs]
        exact hids r'
      · intro r'
        show (p'.s.objects r').status = _
        rw [hs]
        exact hstatus r'
      · show SchedulingPolicy.removeRequests p'.s.waiting p'.stoppedPreemptedReqs = _
        rw [hs, hr2]
        rfl
      · show removeAll p'.s.running p'.stoppedRunningReqs = _
        rw [hs, hr1]
        rfl
    · rw [hs]
      exact h.nodup
    · rw [hs]
      exact Ends.of_update hqid
    · intro a r' ha hr'
      rw [hs] at hr' ⊢
      exact ⟨hr', hother r' (hne a r' ha hr')⟩
  | true =>
    obtain ⟨⟨b, hfree⟩, hr1, hr2⟩ := hup.stops rfl
    obtain ⟨delayed, hnever, hfreed⟩ := freeRequest_freed hfree
    obtain ⟨hrunning, hwaiting⟩ := h.queues
    have hunf : (p.s.objects r).isFinished = false := by
      rcases hquiet with hunf | hquiet
      · exact hunf
      · exact absurd (OutputEffect.of_nothing hquiet hup.effect).1 (by decide)
    have hmem : r ∈ p.removeStopped.s.waiting ++ p.removeStopped.s.running := by
      have := (h.conserved.queued r).mpr ⟨(h.conserved.known reqId r hget).2, hunf⟩
      rwa [append_nil] at this
    -- The queues without the stopped requests lose `r`.
    have hqueues : (p.s.running.filter fun x => x ∉ p'.stoppedRunningReqs) =
          p.removeStopped.s.running.filter (fun x => x ∉ [r]) ∧
        (p.s.waiting.filter fun x => x ∉ p'.stoppedPreemptedReqs) =
          p.removeStopped.s.waiting.filter fun x => x ∉ [r] := by
      rw [hr1, hr2]
      by_cases hrun : (p.s.objects r).status = .running
      · rw [if_pos hrun, if_pos hrun, filter_insert, ← hrunning, ← hwaiting]
        refine ⟨rfl, filter_not_mem_self fun hw => ?_⟩
        exact (h.conserved.waiting r hw).ne_running hrun
      · rw [if_neg hrun, if_neg hrun, filter_insert, ← hrunning, ← hwaiting]
        refine ⟨filter_not_mem_self fun hr => ?_, rfl⟩
        exact hrun (h.conserved.running r hr)
    have hside := h.conserved.moveAside (nodup_singleton r)
      (fun x hx => by rw [mem_singleton.mp hx]; exact hmem) rfl rfl
    have hstatus : ∀ r', r' ≠ r → ((withOutput p.s r q k).objects r').status =
        (p.s.objects r').status := fun r' hr => by rw [hother r' hr]
    have hnodup' : p'.s.running.Nodup := by
      rw [hfreed.running]
      exact h.nodup
    have hinv : UpdateInv p' := by
      refine ⟨?_, hnodup'⟩
      have hfreed' : Freed { withOutput p.s r q k with
          waiting := p.removeStopped.s.waiting.filter fun x => x ∉ [r]
          running := p.removeStopped.s.running.filter fun x => x ∉ [r] }
          p'.removeStopped.s r delayed := by
        refine ⟨hfreed.config, ?_, ?_, hfreed.numObjects, hfreed.objects, hfreed.calls,
          hfreed.finishedReqIds, hfreed.finished, hfreed.requests, hfreed.blocks⟩
        · show SchedulingPolicy.removeRequests p'.s.waiting p'.stoppedPreemptedReqs = _
          rw [hfreed.waiting]
          exact hqueues.2
        · show removeAll p'.s.running p'.stoppedRunningReqs = _
          rw [removeAll_eq_filter hnodup', hfreed.running]
          exact hqueues.1
      exact hside.finishOne hfreed' rfl rfl rfl rfl hids hstatus rfl rfl
    refine ⟨hinv, (Ends.of_update hqid).trans (.of_freed hfreed hnever), fun a r' ha hr' => ?_⟩
    have hold : p.s.requests.get? a = some r' := by
      rw [hfreed.requests] at hr'
      cases delayed with
      | true => exact hr'
      | false =>
        simp only [Bool.false_eq_true, if_false, PyDict.get?_erase] at hr'
        split at hr'
        · cases hr'
        · exact hr'
    refine ⟨hold, ?_⟩
    rw [hfreed.objects]
    exact hother r' (hne a r' ha hold)

/-- No request that the output speaks of is finished and still registered. -/
def NoneFinished (s : Scheduler) (entries : List (String × Int)) : Prop :=
  ∀ e ∈ entries, ∀ r, s.requests.get? e.1 = some r → (s.objects r).isFinished = false

/-- The output has nothing for a request that is finished and still registered. -/
def NoneTouched (s : Scheduler) (modelRunnerOutput : ModelRunnerOutput)
    (entries : List (String × Int)) : Prop :=
  ∀ e ∈ entries, ∀ r ∈ s.requests.get? e.1,
    (s.objects r).isFinished = false ∨ NothingFor s modelRunnerOutput e.1 r

variable {entries : List (String × Int)}

theorem NoneFinished.noneTouched {s : Scheduler} (h : NoneFinished s entries)
    (modelRunnerOutput : ModelRunnerOutput) :
    NoneTouched s modelRunnerOutput entries :=
  fun e he r hr => .inl (h e he r hr)

variable {failed : List String}

/-- The loop of `update_from_output`. -/
theorem updateLoop_conserved {connector : Option KVConnector} (h : UpdateInv p)
    (hnodup : (entries.map Prod.fst).Nodup) (hnone : NoneTouched p.s modelRunnerOutput entries)
    (hloop : UpdatePass.updateLoop connector schedulerOutput modelRunnerOutput failed entries p =
      .ok p') :
    UpdateInv p' ∧ Ends connector p.s p'.s := by
  induction entries generalizing p with
  | nil =>
    unfold UpdatePass.updateLoop at hloop
    cases hloop
    exact ⟨h, .refl _⟩
  | cons entry rest ih =>
    obtain ⟨reqId, n⟩ := entry
    unfold UpdatePass.updateLoop at hloop
    obtain ⟨u, -, hloop⟩ := bind_ok hloop
    obtain ⟨p1, h1, hloop⟩ := bind_ok hloop
    obtain ⟨hnotin, hnd⟩ := nodup_cons.mp hnodup
    have hrest : NoneTouched p.s modelRunnerOutput rest :=
      fun e he => hnone e (mem_cons_of_mem _ he)
    have hskip : p1 = p → UpdateInv p' ∧ Ends connector p.s p'.s := by
      intro heq
      rw [heq] at hloop
      exact ih h hnd hrest hloop
    split at h1
    · cases h1
      exact hskip rfl
    · split at h1
      · cases h1
        exact hskip rfl
      · rename_i r hget
        have hunf := hnone (reqId, n) mem_cons_self r hget
        obtain ⟨hinv, hends, hframe⟩ := updateRequest_conserved h hget hunf h1
        have hrest1 : NoneTouched p1.s modelRunnerOutput rest := by
          intro e he r' hr'
          have hne : e.1 ≠ reqId := by
            intro heq
            have hm : e.1 ∈ rest.map Prod.fst := mem_map_of_mem he
            exact hnotin (heq ▸ hm)
          obtain ⟨hold, hobj⟩ := hframe e.1 r' hne hr'
          unfold NothingFor
          rw [hobj, hends.config]
          exact hrest e he r' hold
        obtain ⟨hinv', hends'⟩ := ih hinv hnd hrest1 hloop
        exact ⟨hinv', hends.trans hends'⟩

/-- The blocks of a finished request that is still registered are freed. -/
theorem freeBlocks_conserved {connector : Option KVConnector} {s s' : Scheduler}
    (h : Conserved s []) (hget : s.requests.get? reqId = some r) (hfree : s.freeBlocks r = .ok s') :
    Conserved s' [] ∧ Ends connector s s' := by
  obtain ⟨hfin, -, k, -, rfl⟩ := freeBlocks_cases hfree
  obtain ⟨hid, hlt⟩ := h.known reqId r hget
  have hreg : s.requests.get? (s.objects r).requestId = some r := hid ▸ hget
  have hcalled : r ∈ s.freeRequestCalls := (h.freed r).mpr ⟨hlt, hfin⟩
  have hne : ∀ r', (s.requests.erase (s.objects r).requestId).get? (s.objects r').requestId =
      some r' ↔ r' ≠ r ∧ s.requests.get? (s.objects r').requestId = some r' := by
    intro r'
    rw [PyDict.get?_erase]
    split
    · rename_i heq
      rw [heq, hreg]
      constructor
      · intro hc
        cases hc
      · rintro ⟨hr, hc⟩
        exact absurd (Option.some.inj hc).symm hr
    · rename_i heq
      constructor
      · intro hc
        exact ⟨fun hr => heq (by rw [hr]), hc⟩
      · exact fun hc => hc.2
  -- The connector has delayed the blocks of `r`.
  have hends : Ends connector s { s with
      kvCacheManager := k
      requests := s.requests.erase (s.objects r).requestId
      freeBlocksCalls := s.freeBlocksCalls ++ [r] } := by
    refine ⟨rfl, rfl, fun _ => rfl, ⟨[], (append_nil _).symm, fun x => ?_⟩, fun _ ht => ?_⟩
    · simp
    · exact absurd hreg ((h.released r).mp (ht ▸ hcalled)).2
  refine ⟨⟨?_, ?_, h.nodup, h.queued, h.waiting, h.running, h.freed, h.freed_nodup, ?_, ?_⟩,
    hends⟩
  · intro a r' hr'
    rw [PyDict.get?_erase] at hr'
    split at hr'
    · cases hr'
    · exact h.known a r' hr'
  · intro r' hlt' hunf
    refine (hne r').mpr ⟨?_, h.registered r' hlt' hunf⟩
    rintro rfl
    change (s.objects r').isFinished = false at hunf
    rw [hfin] at hunf
    cases hunf
  · intro r'
    show r' ∈ s.freeBlocksCalls ++ [r] ↔ r' ∈ s.freeRequestCalls ∧
      ¬(s.requests.erase (s.objects r).requestId).get? (s.objects r').requestId = some r'
    rw [mem_append, mem_singleton, h.released r', hne r', not_and_or, not_not]
    constructor
    · rintro (⟨hc, hn⟩ | rfl)
      · exact ⟨hc, .inr hn⟩
      · exact ⟨hcalled, .inl rfl⟩
    · rintro ⟨hc, rfl | hn⟩
      · exact .inr rfl
      · exact .inl ⟨hc, hn⟩
  · refine nodup_append.mpr ⟨h.released_nodup, nodup_singleton r, ?_⟩
    intro a ha b hb
    rintro rfl
    rw [mem_singleton.mp hb] at ha
    exact ((h.released r).mp ha).2 hreg

theorem finishSending_conserved {connector : Option KVConnector} {s s' : Scheduler}
    (h : Conserved s []) (hsend : s.finishSending ids = .ok s') :
    Conserved s' [] ∧ Ends connector s s' := by
  induction ids generalizing s with
  | nil =>
    unfold Scheduler.finishSending at hsend
    cases hsend
    exact ⟨h, .refl _⟩
  | cons reqId rest ih =>
    unfold Scheduler.finishSending at hsend
    split at hsend
    · cases hsend
    · rename_i r hget
      obtain ⟨s1, h1, hsend⟩ := bind_ok hsend
      obtain ⟨hc, hends⟩ := freeBlocks_conserved h hget h1
      obtain ⟨hc', hends'⟩ := ih hc hsend
      exact ⟨hc', hends.trans hends'⟩

theorem foldl_addOutput_s (f : UpdatePass → ReqRef → Nat × EngineCoreOutput) (l : List ReqRef)
    (p : UpdatePass) :
    (l.foldl (fun p r => p.addOutput (f p r).1 (f p r).2) p).s = p.s := by
  induction l generalizing p with
  | nil => rfl
  | cons r l ih =>
    rw [foldl_cons, ih]
    rfl

/-- Ending the failed requests leaves the scheduler as `finish_requests` does. -/
theorem failRequests_finish {connector : Option KVConnector}
    (hfail : p.failRequests connector failed = .ok p') :
    p.s.finishRequests connector failed .finishedError = .ok p'.s := by
  unfold UpdatePass.failRequests at hfail
  obtain ⟨requests, -, hfail⟩ := bind_ok hfail
  obtain ⟨s1, h1, hfail⟩ := bind_ok hfail
  cases hfail
  have hs := foldl_addOutput_s (fun p r => ((p.s.objects r).clientIndex, {
    requestId := (p.s.objects r).requestId
    newTokenIds := []
    finishReason := (p.s.objects r).status.getFinishedReason
    stopReason := none
    numCachedTokens := (p.s.objects r).numCachedTokens })) requests { p with s := s1 }
  exact hs.symm ▸ h1

/-- The parts of `update_from_output`, one after the other: blocks that failed to load, the loop,
requests that end because of such blocks, and the report of the connector. -/
structure UpdateParts (s s' : Scheduler) (connector : Option KVConnector)
    (schedulerOutput : SchedulerOutput) (modelRunnerOutput : ModelRunnerOutput)
    (outputs : PyDict Nat EngineCoreOutputs) (failed : List String) (s₁ : Scheduler)
    (p p' : UpdatePass) (s₂ : Scheduler) : Prop where
  frame : LoadFrame s s₁
  queued : ∀ x ∈ failed, ∃ r ∈ s.waiting ++ s.running, (s.objects r).requestId = x
  loop : UpdatePass.updateLoop connector schedulerOutput modelRunnerOutput failed
    schedulerOutput.numScheduledTokens.entries { s := s₁ } = .ok p
  ends : p' = p.removeStopped ∨ p.removeStopped.failRequests connector failed = .ok p'
  sends : modelRunnerOutput.kvConnectorOutput = none ∧ s₂ = p'.s ∨
    ∃ output, modelRunnerOutput.kvConnectorOutput = some output ∧
      p'.s.updateFromKvXferFinished output = .ok s₂
  outputs : outputs = s₂.engineCoreOutputs p'.outputs
  eq : s' = { s₂ with
    kvCacheManager := s₂.kvCacheManager.takeEvents.2
    finishedReqIdsDict := s₂.finishedReqIdsDict.map fun _ => PyDict.empty }

variable {outputs : PyDict Nat EngineCoreOutputs}

theorem updateFromOutput_cases {s s' : Scheduler} {connector : Option KVConnector}
    (h : s.updateFromOutput connector schedulerOutput modelRunnerOutput = .ok (outputs, s')) :
    ∃ failed s1 p p' s2, UpdateParts s s' connector schedulerOutput modelRunnerOutput outputs
      failed s1 p p' s2 := by
  unfold Scheduler.updateFromOutput at h
  obtain ⟨⟨failed, s1⟩, h1, h⟩ := bind_ok h
  obtain ⟨p, hloop, h⟩ := bind_ok h
  obtain ⟨p', hp', h⟩ := bind_ok h
  obtain ⟨s2, hs2, h⟩ := bind_ok h
  cases h
  have hinvalid : LoadFrame s s1 ∧
      ∀ x ∈ failed, ∃ r ∈ s.waiting ++ s.running, (s.objects r).requestId = x := by
    split at h1
    · cases h1
      exact ⟨.refl _, fun x hx => absurd hx not_mem_nil⟩
    · exact ⟨handleInvalidBlocks_frame h1, failed_of_handleInvalidBlocks h1⟩
  refine ⟨failed, s1, p, p', s2, hinvalid.1, hinvalid.2, hloop, ?_, ?_, rfl, rfl⟩
  · split at hp'
    · exact .inr hp'
    · cases hp'
      exact .inl rfl
  · split at hs2
    · rename_i hnone
      cases hs2
      exact .inl ⟨hnone, rfl⟩
    · rename_i output hsome
      exact .inr ⟨output, hsome, hs2⟩

/-- Blocks that failed to load change no request as far as the invariant goes. -/
theorem LoadFrame.conserved {s s' : Scheduler} (hframe : LoadFrame s s') (h : Conserved s []) :
    Conserved s' [] := by
  have hid := hframe.of_core Request.requestId fun _ => rfl
  have hstatus := hframe.of_core Request.status fun _ => rfl
  refine h.frame ?_ ?_ ?_ ?_ hid hstatus ?_ ?_ <;> rw [hframe.eq]

/-- The loop starts with the invariant. -/
theorem Conserved.updateInv {s : Scheduler} (h : Conserved s []) : UpdateInv { s := s } := by
  refine ⟨?_, h.running_nodup⟩
  refine h.frame rfl rfl rfl rfl (fun _ => rfl) (fun _ => rfl) ?_ rfl
  exact filter_eq_self.mpr fun r _ => by simp

theorem NoneTouched.of_loadFrame {s s' : Scheduler} (h : NoneTouched s modelRunnerOutput entries)
    (hframe : LoadFrame s s') : NoneTouched s' modelRunnerOutput entries := by
  have hstatus := hframe.of_core Request.status fun _ => rfl
  have hdiscard := hframe.of_core Request.discardLatestAsyncTokens fun _ => rfl
  have hreq : s'.requests = s.requests := by rw [hframe.eq]
  have hconfig : s'.config = s.config := by rw [hframe.eq]
  intro e he r hr
  rw [hreq] at hr
  have := h e he r hr
  rw [Request.isFinished, hstatus, NothingFor, hconfig, hdiscard]
  exact this

/-- `update_from_output` keeps the invariant when it has nothing for the requests that are finished
and still registered. -/
theorem updateFromOutput_conserved {s s' : Scheduler} {connector : Option KVConnector}
    (h : Conserved s [])
    (hnone : NoneTouched s modelRunnerOutput schedulerOutput.numScheduledTokens.entries)
    (hupd : s.updateFromOutput connector schedulerOutput modelRunnerOutput = .ok (outputs, s')) :
    Conserved s' [] ∧ Ends connector s s' := by
  obtain ⟨failed, s1, p, p', s2, hparts⟩ := updateFromOutput_cases hupd
  have hframe := hparts.frame
  have hc1 : Conserved s1 [] := hframe.conserved h
  have he1 : Ends connector s s1 := by
    refine .of_eq ?_ ?_ (hframe.of_core Request.requestId fun _ => rfl) ?_ ?_ ?_ <;> rw [hframe.eq]
  obtain ⟨hinv, he⟩ := updateLoop_conserved hc1.updateInv
    schedulerOutput.numScheduledTokens.nodup (hnone.of_loadFrame hframe) hparts.loop
  have hp : Conserved p'.s [] ∧ Ends connector p.s p'.s := by
    rcases hparts.ends with rfl | hfail
    · exact ⟨hinv.conserved, .of_eq rfl rfl (fun _ => rfl) rfl rfl rfl⟩
    · obtain ⟨hc, hends⟩ := finishRequests_conserved hinv.conserved (failRequests_finish hfail)
      have hstop : Ends connector p.s p.removeStopped.s := .of_eq rfl rfl (fun _ => rfl) rfl rfl rfl
      exact ⟨hc, hstop.trans hends⟩
  have hs : Conserved s2 [] ∧ Ends connector p'.s s2 := by
    rcases hparts.sends with ⟨-, rfl⟩ | ⟨output, -, hxfer⟩
    · exact ⟨hp.1, .refl _⟩
    · unfold Scheduler.updateFromKvXferFinished at hxfer
      have hrecv : Conserved { p'.s with finishedRecvingKvReqIds :=
          p'.s.finishedRecvingKvReqIds.union output.finishedRecving } [] :=
        hp.1.frame rfl rfl rfl rfl (fun _ => rfl) (fun _ => rfl) rfl rfl
      obtain ⟨hc, hends⟩ := finishSending_conserved hrecv hxfer
      refine ⟨hc, Ends.trans ?_ hends⟩
      exact .of_eq rfl rfl (fun _ => rfl) rfl rfl rfl
  rw [hparts.eq]
  refine ⟨hs.1.frame rfl rfl rfl rfl (fun _ => rfl) (fun _ => rfl) rfl rfl, ?_⟩
  have hlast : Ends connector s2 { s2 with
      kvCacheManager := s2.kvCacheManager.takeEvents.2
      finishedReqIdsDict := s2.finishedReqIdsDict.map fun _ => PyDict.empty } :=
    .of_eq rfl rfl (fun _ => rfl) rfl rfl rfl
  exact (((he1.trans he).trans hp.2).trans hs.2).trans hlast

end Vllm.Proofs.Sched
