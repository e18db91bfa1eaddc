import Vllm.Proofs.Sched.Queues

/-!
# `Vllm.Proofs.Sched.Listed`: the tables of one call of `schedule`

The lists of scheduled requests and the dicts by request id speak of the same requests, all of
them running and each of them once.

* `Listed`: the invariant of the loops.
* `listed_of_step`, `listed_of_steps`: every step keeps it. A request is entered once: the
  running loop does not come back to it, and a waiting request is not running yet.
-/

set_option autoImplicit false

namespace Vllm.Proofs.Sched

open Vllm.Lib Vllm.V1 Vllm.V1.Core List

/-- The requests that are scheduled in this call. -/
def scheduled (p : SchedulePass) : List ReqRef :=
  p.scheduledRunningReqs ++ (p.scheduledNewReqs ++ p.scheduledResumedReqs)

/-- The tables of a call agree. -/
structure Listed (p : SchedulePass) : Prop where
  nodup : (scheduled p).Nodup
  running : ∀ r ∈ scheduled p, r ∈ p.s.running
  tokens : ∀ reqId, (p.numScheduledTokens.get? reqId).isSome = true ↔
    ∃ r ∈ scheduled p, (p.s.objects r).requestId = reqId
  inputs : ∀ reqId, (p.scheduledEncoderInputs.get? reqId).isSome = true →
    (p.numScheduledTokens.get? reqId).isSome = true

namespace Listed

variable {p p' : SchedulePass}

/-- A step that enters and removes no request. -/
theorem same (h : Listed p) (hs : scheduled p' = scheduled p)
    (hrun : ∀ r ∈ scheduled p, r ∈ p.s.running → r ∈ p'.s.running)
    (hid : ∀ r, (p'.s.objects r).requestId = (p.s.objects r).requestId)
    (htok : p'.numScheduledTokens = p.numScheduledTokens)
    (hin : p'.scheduledEncoderInputs = p.scheduledEncoderInputs) : Listed p' where
  nodup := hs ▸ h.nodup
  running r hr := by
    rw [hs] at hr
    exact hrun r hr (h.running r hr)
  tokens reqId := by
    rw [htok, hs, h.tokens]
    simp only [hid]
  inputs reqId hk := by
    rw [hin] at hk
    rw [htok]
    exact h.inputs reqId hk

/-- A request is entered. -/
theorem add {r : ReqRef} {n : Int} (h : Listed p)
    (hperm : (scheduled p').Perm (r :: scheduled p)) (hfresh : r ∉ scheduled p)
    (hold : ∀ x ∈ p.s.running, x ∈ p'.s.running) (hr : r ∈ p'.s.running)
    (hid : ∀ x, (p'.s.objects x).requestId = (p.s.objects x).requestId)
    (htok : p'.numScheduledTokens = p.numScheduledTokens.insert (p.s.objects r).requestId n)
    (hin : ∀ reqId, reqId ≠ (p.s.objects r).requestId →
      (p'.scheduledEncoderInputs.get? reqId).isSome = true →
      (p.scheduledEncoderInputs.get? reqId).isSome = true) : Listed p' where
  nodup := hperm.nodup_iff.mpr (nodup_cons.mpr ⟨hfresh, h.nodup⟩)
  running x hx := by
    rcases mem_cons.mp (hperm.mem_iff.mp hx) with rfl | hx
    · exact hr
    · exact hold x (h.running x hx)
  tokens reqId := by
    rw [htok, PyDict.get?_insert]
    simp only [hid, hperm.mem_iff, mem_cons, exists_eq_or_imp]
    split
    · rename_i heq
      simp [heq]
    · rename_i hne
      rw [h.tokens]
      exact ⟨.inr, fun hc => hc.resolve_left fun heq => hne heq.symm⟩
  inputs reqId hk := by
    rw [htok, PyDict.get?_insert]
    split
    · rfl
    · rename_i hne
      exact h.inputs reqId (hin reqId hne hk)

/-- A request that was entered is taken out again. -/
theorem remove {r : ReqRef} (h : Listed p) (hr : r ∈ scheduled p)
    (hinj : ∀ x ∈ scheduled p, (p.s.objects x).requestId = (p.s.objects r).requestId → x = r)
    (hperm : (scheduled p).Perm (r :: scheduled p'))
    (hrun : ∀ x ∈ p.s.running, x ≠ r → x ∈ p'.s.running)
    (hid : ∀ x, (p'.s.objects x).requestId = (p.s.objects x).requestId)
    (htok : p'.numScheduledTokens = p.numScheduledTokens.erase (p.s.objects r).requestId)
    (hin : p'.scheduledEncoderInputs =
      p.scheduledEncoderInputs.erase (p.s.objects r).requestId) : Listed p' := by
  obtain ⟨hnot, hnd⟩ := nodup_cons.mp (hperm.nodup_iff.mp h.nodup)
  have hmem : ∀ x, x ∈ scheduled p' ↔ x ∈ scheduled p ∧ x ≠ r := by
    intro x
    rw [hperm.mem_iff, mem_cons]
    constructor
    · intro hx
      refine ⟨.inr hx, ?_⟩
      rintro rfl
      exact hnot hx
    · rintro ⟨hx, hne⟩
      exact hx.resolve_left hne
  refine ⟨hnd, fun x hx => ?_, fun reqId => ?_, fun reqId hk => ?_⟩
  · obtain ⟨hx, hne⟩ := (hmem x).mp hx
    exact hrun x (h.running x hx) hne
  · rw [htok, PyDict.get?_erase]
    simp only [hid]
    split
    · rename_i heq
      simp only [Option.isSome_none, Bool.false_eq_true, false_iff, not_exists, not_and]
      intro x hx hxid
      obtain ⟨hx, hne⟩ := (hmem x).mp hx
      exact hne (hinj x hx (hxid.trans heq))
    · rename_i hne
      rw [h.tokens]
      constructor
      · rintro ⟨x, hx, hxid⟩
        refine ⟨x, (hmem x).mpr ⟨hx, ?_⟩, hxid⟩
        rintro rfl
        exact hne hxid.symm
      · rintro ⟨x, hx, hxid⟩
        exact ⟨x, ((hmem x).mp hx).1, hxid⟩
  · rw [hin, PyDict.get?_erase] at hk
    rw [htok, PyDict.get?_erase]
    split at hk
    · cases hk
    · rename_i hne
      rw [if_neg hne]
      exact h.inputs reqId hk

end Listed

/-- Allocating the encoder inputs of one request enters no other request. -/
theorem takenInputs_of_ne {old new : PyDict String (List Nat)} {key reqId₀ : String}
    {inputs : List Nat} (hkey : key = reqId₀)
    (h : new = if inputs.isEmpty then old else old.insert key inputs) :
    ∀ reqId, reqId ≠ reqId₀ → (new.get? reqId).isSome = true →
      (old.get? reqId).isSome = true := by
  intro reqId hne hk
  rw [h] at hk
  split at hk
  · exact hk
  · rwa [PyDict.get?_insert_of_ne _ _ (hkey ▸ hne)] at hk

/-- Every step of `schedule` keeps the tables in agreement. -/
theorem listed_of_step {connector : Option KVConnector} {ec : Option ECConnector}
    {phase : Phase} {p p' : SchedulePass} (hd : Distinct p) (h : Listed p)
    (hstep : PassStep connector ec phase p p') : Listed p' := by
  obtain ⟨hshared, -⟩ := passStep_move hd.running_nodup hstep
  have hid := hshared.requestId
  -- The head of the waiting queue is not running, so it has not been entered.
  have hwaiting : ∀ r rest, p.s.waiting = r :: rest → r ∉ scheduled p :=
    fun r rest hw hr => hd.head_not_running hw (h.running r hr)
  cases hstep with
  | planEncoder hplan =>
    obtain ⟨e, rfl, -⟩ := tryScheduleEncoderInputs_cases hplan
    exact h.same rfl (fun _ _ hr => hr) hid rfl rfl
  | nextIndex => exact h.same rfl (fun _ _ hr => hr) hid rfl rfl
  | runFail hr hn halloc => exact h.same rfl (fun _ _ hr => hr) hid rfl rfl
  | @preempt _ p1 s1 victim hphase hfcfs hpop hpre =>
    have hsched := popLowest_sched hd.running_nodup hpop
    obtain ⟨-, k, e, -, -, rfl⟩ := preemptRequest_cases hpre
    have hrun : ∀ x ∈ p.s.running, x ≠ victim → x ∈ p1.s.running := by
      intro x hx hne
      rw [hsched]
      exact (mem_erase_of_ne hne).mpr hx
    have hlist : scheduled p = p.scheduledRunningReqs := by
      unfold scheduled
      rw [hphase.1, hphase.2, append_nil, append_nil]
    obtain ⟨hmem, ⟨-, hv, rfl⟩ | ⟨-, hv, n, m, -, -, rfl⟩ | ⟨hpolicy, -, rfl⟩⟩ :=
      popLowest_cases hpop
    · refine h.same rfl (fun x hx hr => hrun x hr ?_) hid rfl rfl
      rintro rfl
      exact hv (hlist ▸ hx)
    · -- The victim was scheduled in this call: its entries go.
      refine h.remove (hlist ▸ hv) (fun x hx heq => ?_) ?_ hrun hid rfl rfl
      · exact hd.ids x (mem_append_right _ (h.running x hx)) victim
          (mem_append_right _ hmem) heq
      · show (scheduled p).Perm (victim :: (p.scheduledRunningReqs.erase victim ++
          (p.scheduledNewReqs ++ p.scheduledResumedReqs)))
        rw [hlist, hphase.1, hphase.2, append_nil, append_nil]
        exact perm_cons_erase hv
    · refine h.same rfl (fun x hx hr => hrun x hr ?_) hid rfl rfl
      rintro rfl
      exact hfcfs hpolicy (hlist ▸ hx)
  | run hphase hr hfresh hn hneed hcap hpos halloc hplan hplan0 htake =>
    rename_i r n newBlocks k plan
    obtain ⟨d, hspec⟩ := takeSpecTokens_cases
      ({ p with s.kvCacheManager := k }.markScheduled r newBlocks n) r n
    rw [hspec] at htake
    obtain ⟨e, inputs, budget, -, hinputs, rfl⟩ := takeEncoderInputs_cases htake
    have hlist : scheduled p = p.scheduledRunningReqs := by
      unfold scheduled
      rw [hphase.1, hphase.2, append_nil, append_nil]
    refine h.add (r := r) (n := n) ?_ (hlist ▸ hfresh) (fun x hx => hx) hr hid rfl ?_
    · show (p.scheduledRunningReqs ++ [r] ++ (p.scheduledNewReqs ++ p.scheduledResumedReqs)).Perm _
      rw [hlist, hphase.1, hphase.2, append_nil, append_nil]
      exact perm_append_singleton r _
    · have hkey : (Function.update p.s.objects r
          { p.s.objects r with specTokenIds := [] } r).requestId =
          (p.s.objects r).requestId := by rw [Function.update_self]
      exact takenInputs_of_ne hkey hinputs
  | recordLoras hlora =>
    obtain ⟨loras, rfl⟩ := recordLoras_cases hlora
    exact h.same rfl (fun _ _ hr => hr) hid rfl rfl
  | skip hw => exact h.same rfl (fun _ _ hr => hr) hid rfl rfl
  | remoteReady hw hstatus hready =>
    obtain ⟨k, ids, failed, c, rfl⟩ := updateWaitingForRemoteKv_cases hready
    exact h.same rfl (fun _ _ hr => hr) hid rfl rfl
  | grammarReady hw hstatus => exact h.same rfl (fun _ _ hr => hr) hid rfl rfl
  | matched hw => exact h.same rfl (fun _ _ hr => hr) hid rfl rfl
  | admitFail hw ht halloc => exact h.same rfl (fun _ _ hr => hr) hid rfl rfl
  | awaitRemote hw ht hasync hext halloc => exact h.same rfl (fun _ _ hr => hr) hid rfl rfl
  | admitNew hw ht hasync hn hbudget hroom hneed hstatus hlora halloc hplan hplan0 htake =>
    rename_i r rest t n newBlocks k plan
    have heq : admitted p r rest k t.numComputedTokens n = _ := markRunning_eq _ _ _ _
    rw [heq] at htake
    obtain ⟨e, inputs, budget, -, hinputs, rfl⟩ := takeEncoderInputs_cases htake
    refine h.add (r := r) (n := n) ?_ (hwaiting r rest hw)
      (fun x hx => mem_append_left _ hx)
      (mem_append_right _ (mem_singleton.mpr rfl)) hid rfl ?_
    · -- The new entry goes to the end of its own list.
      show (p.scheduledRunningReqs ++ (p.scheduledNewReqs ++ [r] ++ p.scheduledResumedReqs)).Perm
        (r :: (p.scheduledRunningReqs ++ (p.scheduledNewReqs ++ p.scheduledResumedReqs)))
      rw [append_assoc, singleton_append, ← append_assoc, ← append_assoc]
      exact perm_middle
    · have hkey : (Function.update p.s.objects r
          (started t.numComputedTokens (p.s.objects r)) r).requestId =
          (p.s.objects r).requestId := by
        rw [Function.update_self]
        rfl
      exact takenInputs_of_ne hkey hinputs
  | admitResumed hw ht hasync hn hbudget hroom hneed hstatus hlora halloc hplan hplan0 htake =>
    rename_i r rest t n newBlocks k plan
    have heq : admitted p r rest k t.numComputedTokens n = _ := markRunning_eq _ _ _ _
    rw [heq] at htake
    obtain ⟨e, inputs, budget, -, hinputs, rfl⟩ := takeEncoderInputs_cases htake
    refine h.add (r := r) (n := n) ?_ (hwaiting r rest hw)
      (fun x hx => mem_append_left _ hx)
      (mem_append_right _ (mem_singleton.mpr rfl)) hid rfl ?_
    · -- The new entry goes to the end of its own list.
      show (p.scheduledRunningReqs ++ (p.scheduledNewReqs ++ (p.scheduledResumedReqs ++ [r]))).Perm
        (r :: (p.scheduledRunningReqs ++ (p.scheduledNewReqs ++ p.scheduledResumedReqs)))
      rw [← append_assoc, ← append_assoc, ← append_assoc]
      exact perm_append_singleton r _
    · have hkey : (Function.update p.s.objects r
          (started t.numComputedTokens (p.s.objects r)) r).requestId =
          (p.s.objects r).requestId := by
        rw [Function.update_self]
        rfl
      exact takenInputs_of_ne hkey hinputs

/-- Any number of steps keep the tables in agreement. -/
theorem listed_of_steps {connector : Option KVConnector} {ec : Option ECConnector}
    {p p' : SchedulePass} (hd : Distinct p) (h : Listed p)
    (hsteps : PassSteps connector ec p p') : Listed p' := by
  induction hsteps with
  | refl => exact h
  | tail hsteps hstep ih =>
    obtain ⟨phase, hstep⟩ := hstep
    exact listed_of_step (hd.of_steps hsteps) ih hstep

theorem listed_startPass (s : Scheduler) : Listed (startPass s) := by
  refine ⟨nodup_nil, fun r hr => absurd hr not_mem_nil, fun reqId => ?_, fun reqId hk => ?_⟩
  · constructor
    · intro hk
      cases hk
    · rintro ⟨r, hr, -⟩
      exact absurd hr not_mem_nil
  · cases hk

end Vllm.Proofs.Sched
