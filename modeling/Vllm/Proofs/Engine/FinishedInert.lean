import Vllm.Lib.MapM
import Vllm.Proofs.Engine.Conservation
import Vllm.Proofs.Sched.Objects

/-!
# `Vllm.Proofs.Engine.FinishedInert`: what a result leaves of a finished request

A connector may keep the blocks of a finished request. The request then stays registered, and
`update_from_output` asks only whether a request is registered.

* `Frees`: the calls of `_free_request` and `_free_blocks` between two states.
* `Spares`: what the loop of `update_from_output` has done so far to finished requests.
* `finished_inert`: nothing at all, when the results have nothing for them.
-/

set_option autoImplicit false

namespace Vllm.Proofs.Engine

open Vllm.Lib Vllm.V1 Vllm.V1.Core Vllm.V1.Engine Vllm.Proofs.Sched Scheduler UpdatePass List

/-! ### The calls between two states -/

/-- Only requests that end, and those in `sent`, have their blocks freed. -/
def Frees (sent : ReqRef → Prop) (s s' : Scheduler) : Prop :=
  ∃ ended released, s'.freeRequestCalls = s.freeRequestCalls ++ ended ∧
    s'.freeBlocksCalls = s.freeBlocksCalls ++ released ∧ ∀ r ∈ released, r ∈ ended ∨ sent r

namespace Frees

variable {sent sent' : ReqRef → Prop} {s s' s'' : Scheduler}

theorem of_eq (hcalls : s'.freeRequestCalls = s.freeRequestCalls)
    (hblocks : s'.freeBlocksCalls = s.freeBlocksCalls) : Frees sent s s' :=
  ⟨[], [], by rw [hcalls, append_nil], by rw [hblocks, append_nil],
    fun r hr => absurd hr not_mem_nil⟩

theorem trans (h : Frees sent s s') (h' : Frees sent s' s'') : Frees sent s s'' := by
  obtain ⟨ended, released, hcalls, hblocks, hsub⟩ := h
  obtain ⟨ended', released', hcalls', hblocks', hsub'⟩ := h'
  refine ⟨ended ++ ended', released ++ released', ?_, ?_, fun r hr => ?_⟩
  · rw [hcalls', hcalls, append_assoc]
  · rw [hblocks', hblocks, append_assoc]
  · rcases mem_append.mp hr with hr | hr
    · exact (hsub r hr).imp (mem_append_left _) id
    · exact (hsub' r hr).imp (mem_append_right _) id

theorem mono (h : Frees sent s s') (hsent : ∀ r, sent r → sent' r) : Frees sent' s s' := by
  obtain ⟨ended, released, hcalls, hblocks, hsub⟩ := h
  exact ⟨ended, released, hcalls, hblocks, fun r hr => (hsub r hr).imp id (hsent r)⟩

theorem of_freed {r : ReqRef} {delayed : Bool} (h : Freed s s' r delayed) : Frees sent s s' := by
  refine ⟨[r], if delayed then [] else [r], h.calls, ?_, fun r' hr' => ?_⟩
  · rw [h.blocks]
    split
    · rw [append_nil]
    · rfl
  · split at hr'
    · exact absurd hr' not_mem_nil
    · exact .inl hr'

/-- A request that had ended before is freed now only if it is in `sent`. -/
theorem released (h : Frees sent s s') (hnodup : s'.freeRequestCalls.Nodup) {r : ReqRef}
    (hcalled : r ∈ s.freeRequestCalls) (hr : r ∈ s'.freeBlocksCalls) :
    r ∈ s.freeBlocksCalls ∨ sent r := by
  obtain ⟨ended, released, hcalls, hblocks, hsub⟩ := h
  rw [hblocks] at hr
  rcases mem_append.mp hr with hr | hr
  · exact .inl hr
  · refine .inr ((hsub r hr).resolve_left fun hended => ?_)
    rw [hcalls] at hnodup
    exact (nodup_append.mp hnodup).2.2 r hcalled r hended rfl

theorem mem_of_mem (h : Frees sent s s') {r : ReqRef} (hr : r ∈ s.freeBlocksCalls) :
    r ∈ s'.freeBlocksCalls := by
  obtain ⟨ended, released, -, hblocks, -⟩ := h
  rw [hblocks]
  exact mem_append_left _ hr

end Frees

variable {status : RequestStatus} {l : List ReqRef}

theorem finishLoop_frees {sent : ReqRef → Prop} {connector : Option KVConnector}
    {s s' : Scheduler} (h : finishLoop connector status s l = .ok s') :
    Frees sent s s' := by
  induction l generalizing s with
  | nil =>
    unfold finishLoop at h
    cases h
    exact .of_eq rfl rfl
  | cons r rest ih =>
    unfold finishLoop at h
    obtain ⟨⟨b, s1⟩, hfree, h⟩ := bind_ok h
    obtain ⟨delayed, -, hfreed⟩ := freeRequest_freed hfree
    have hmodify : Frees sent s
        (s.modify r fun request => { request with status := status }) := .of_eq rfl rfl
    exact (hmodify.trans (.of_freed hfreed)).trans (ih h)

variable {ids : List String}

theorem finishRequests_frees {sent : ReqRef → Prop} {connector : Option KVConnector}
    {s s' : Scheduler} (h : s.finishRequests connector ids status = .ok s') : Frees sent s s' := by
  unfold finishRequests at h
  obtain ⟨u, -, h⟩ := bind_ok h
  dsimp only at h
  have hloop : Frees sent _ s' := finishLoop_frees h
  exact hloop

/-- The connector has sent the blocks of these requests. -/
theorem finishSending_frees {s s' : Scheduler}
    (hknown : ∀ reqId r, s.requests.get? reqId = some r → (s.objects r).requestId = reqId)
    (h : s.finishSending ids = .ok s') :
    Frees (fun r => ∃ reqId ∈ ids, s.requests.get? reqId = some r) s s' ∧
      ∀ reqId ∈ ids, ∀ r, s.requests.get? reqId = some r → r ∈ s'.freeBlocksCalls := by
  induction ids generalizing s with
  | nil =>
    unfold finishSending at h
    cases h
    exact ⟨.of_eq rfl rfl, fun _ hid => absurd hid not_mem_nil⟩
  | cons reqId rest ih =>
    unfold finishSending at h
    split at h
    · cases h
    · rename_i r hget
      obtain ⟨s1, h1, h⟩ := bind_ok h
      obtain ⟨-, -, k, -, hs1⟩ := freeBlocks_cases h1
      have hid := hknown reqId r hget
      have hreq : s1.requests = s.requests.erase reqId := by rw [hs1, hid]
      have hblocks : s1.freeBlocksCalls = s.freeBlocksCalls ++ [r] := by rw [hs1]
      have hcalls : s1.freeRequestCalls = s.freeRequestCalls := by rw [hs1]
      have hobj : s1.objects = s.objects := by rw [hs1]
      have hsub : ∀ a r', s1.requests.get? a = some r' → s.requests.get? a = some r' := by
        intro a r' hr'
        rw [hreq, PyDict.get?_erase] at hr'
        split at hr'
        · cases hr'
        · exact hr'
      have hknown1 : ∀ a r', s1.requests.get? a = some r' →
          (s1.objects r').requestId = a := by
        intro a r' hr'
        rw [hobj]
        exact hknown a r' (hsub a r' hr')
      obtain ⟨hrest, hall⟩ := ih hknown1 h
      have hfirst : Frees (fun r' => ∃ a ∈ reqId :: rest, s.requests.get? a = some r') s s1 := by
        refine ⟨[], [r], by rw [hcalls, append_nil], hblocks, fun r' hr' => .inr ?_⟩
        rw [mem_singleton.mp hr']
        exact ⟨reqId, mem_cons_self, hget⟩
      have hrest' : Frees (fun r' => ∃ a ∈ reqId :: rest, s.requests.get? a = some r') s1 s' := by
        refine hrest.mono fun r' hr' => ?_
        obtain ⟨a, ha, hr'⟩ := hr'
        exact ⟨a, mem_cons_of_mem _ ha, hsub a r' hr'⟩
      refine ⟨hfirst.trans hrest', fun a ha r' hr' => ?_⟩
      by_cases hkey : a = reqId
      · subst hkey
        cases hget.symm.trans hr'
        refine hrest.mem_of_mem ?_
        rw [hblocks]
        exact mem_append_right _ mem_cons_self
      · refine hall a ((mem_cons.mp ha).resolve_left hkey) r' ?_
        rw [hreq, PyDict.get?_erase_of_ne _ hkey]
        exact hr'

/-! ### The results -/

/-- What a client has been told about a request is what it was told before. -/
structure SameAnswer (a q : Request) : Prop where
  status : q.status = a.status
  outputTokenIds : q.outputTokenIds = a.outputTokenIds
  allTokenIds : q.allTokenIds = a.allTokenIds

theorem SameAnswer.refl (a : Request) : SameAnswer a a := ⟨rfl, rfl, rfl⟩

/-- A request under this id is not finished. -/
def Unfinished (s : Scheduler) (reqId : String) : Prop :=
  ∃ r, s.requests.get? reqId = some r ∧ (s.objects r).isFinished = false

/-- All outputs are for such requests. -/
def OutputsFor (s : Scheduler) (outputs : PyDict Nat (List EngineCoreOutput)) : Prop :=
  ∀ outs ∈ outputs.values, ∀ o ∈ outs, Unfinished s o.requestId

theorem OutputsFor.addOutput {s : Scheduler} {p : UpdatePass} {output : EngineCoreOutput}
    (h : OutputsFor s p.outputs) (client : Nat) (ho : Unfinished s output.requestId) :
    OutputsFor s (p.addOutput client output).outputs := by
  intro outs houts o hmem
  rcases PyDict.mem_values_insert houts with rfl | houts
  · rcases mem_append.mp hmem with hmem | hmem
    · cases hget : p.outputs.get? client with
      | none =>
        rw [hget] at hmem
        exact absurd hmem not_mem_nil
      | some old =>
        rw [hget] at hmem
        exact h old ((PyDict.mem_values_iff _ _).mpr ⟨client, hget⟩) o hmem
    · rw [mem_singleton.mp hmem]
      exact ho
  · exact h outs houts o hmem

section Loop
variable {connector : Option KVConnector} {schedulerOutput : SchedulerOutput}
  {modelRunnerOutput : ModelRunnerOutput} {reqId : String} {r : ReqRef} {s : Scheduler}
  {p p' : UpdatePass}

theorem checkOutput_outputs {generated new : List Int} {pooled stopped : Bool}
    (h : p.checkOutput r generated pooled = .ok (new, stopped, p')) : p'.outputs = p.outputs := by
  unfold checkOutput at h
  split at h
  · obtain ⟨⟨new', stopped', s'⟩, -, h⟩ := bind_ok h
    cases h
    rfl
  · split at h
    · cases h
      rfl
    · cases h
      rfl

theorem stopRequest_outputs {status : RequestStatus} {params : Bool}
    (h : p.stopRequest connector status r = .ok (params, p')) : p'.outputs = p.outputs := by
  unfold stopRequest at h
  obtain ⟨⟨params', s'⟩, -, h⟩ := bind_ok h
  dsimp only at h
  split at h
  · cases h
    rfl
  · cases h
    rfl

/-- A pass of the loop has an output for its request only. -/
theorem updateRequest_outputsFor (hout : OutputsFor s p.outputs) (hr : Unfinished s reqId)
    (h : updateRequest connector schedulerOutput modelRunnerOutput reqId r p =
      .ok p') : OutputsFor s p'.outputs := by
  unfold updateRequest at h
  split at h
  · cases h
  · obtain ⟨⟨new, stopped, p1⟩, hcheck, h⟩ := bind_ok h
    obtain ⟨⟨params, p2⟩, hstop, h⟩ := bind_ok h
    have hp2 : p2.outputs = p.outputs := by
      have hp1 := checkOutput_outputs hcheck
      cases stopped with
      | true => exact (stopRequest_outputs hstop).trans hp1
      | false =>
        cases hstop
        exact hp1
    have hout2 : OutputsFor s p2.outputs := hp2 ▸ hout
    dsimp only at h
    split at h
    · cases h
      exact hout2.addOutput _ hr
    · cases h
      exact hout2

/-- There is no output when the model has nothing. -/
theorem updateRequest_quiet (hquiet : NothingFor p.s modelRunnerOutput reqId r)
    (h : updateRequest connector schedulerOutput modelRunnerOutput reqId r p =
      .ok p') : p'.outputs = p.outputs := by
  obtain ⟨htokens, hpooler⟩ := hquiet
  unfold updateRequest at h
  split at h
  · cases h
  · obtain ⟨⟨new, stopped, p1⟩, hcheck, h⟩ := bind_ok h
    obtain ⟨⟨params, p2⟩, hstop, h⟩ := bind_ok h
    have hnothing : new = [] ∧ stopped = false := by
      rw [correctRejected_eq, hpooler] at hcheck
      unfold checkOutput at hcheck
      dsimp only at hcheck
      split at hcheck
      · rename_i hne
        have hne' : modelRunnerOutput.sampledTokenIds reqId ≠ [] := by
          intro hnil
          rw [hnil] at hne
          cases hne
        obtain ⟨hasync, hdiscard⟩ := htokens.resolve_left hne'
        obtain ⟨⟨new', stopped', s'⟩, hupdate, hcheck⟩ := bind_ok hcheck
        cases hcheck
        unfold updateRequestWithOutput appendNewTokensAsync at hupdate
        have hd : (Function.update p.s.objects r (corrected
            ((schedulerOutput.scheduledSpecDecodeTokens.get? reqId).getD []).length
            (modelRunnerOutput.sampledTokenIds reqId).length (p.s.objects r))
            r).discardLatestAsyncTokens = true := by
          rw [Function.update_self, (corrected_fields _ _ _).2.2.2.1, hdiscard]
        rw [if_pos hasync, if_pos hd] at hupdate
        cases hupdate
        exact ⟨rfl, rfl⟩
      · rw [if_neg (by simp)] at hcheck
        cases hcheck
        exact ⟨rfl, rfl⟩
    obtain ⟨rfl, rfl⟩ := hnothing
    cases hstop
    dsimp only at h
    rw [hpooler, if_neg (by simp)] at h
    cases h
    have houtputs := checkOutput_outputs hcheck
    exact houtputs

/-- What has been done so far leaves the finished requests alone. -/
structure Spares (s : Scheduler) (p : UpdatePass) : Prop where
  frees : Frees (fun _ => False) s p.s
  objects : ∀ r, (s.objects r).isFinished = true → SameAnswer (s.objects r) (p.s.objects r)
  outputs : OutputsFor s p.outputs

/-- One pass of the loop. -/
theorem Spares.updateRequest (h : Spares s p) (hget : s.requests.get? reqId = some r)
    (hsame : p.s.objects r = s.objects r)
    (hquiet : (s.objects r).isFinished = false ∨ NothingFor p.s modelRunnerOutput reqId r)
    (hupd : updateRequest connector schedulerOutput modelRunnerOutput reqId r p =
      .ok p') : Spares s p' where
  frees := by
    obtain ⟨q, new, stopped, k, hup⟩ := updateRequest_cases hupd
    refine h.frees.trans ?_
    have hwith : Frees (fun _ => False) p.s (withOutput p.s r q k) := .of_eq rfl rfl
    cases stopped with
    | false =>
      rw [(hup.goesOn rfl).1]
      exact hwith
    | true =>
      obtain ⟨⟨b, hfree⟩, -⟩ := hup.stops rfl
      obtain ⟨delayed, -, hfreed⟩ := freeRequest_freed hfree
      exact hwith.trans (.of_freed hfreed)
  objects r' hfin := by
    obtain ⟨q, new, stopped, heffect, hobj⟩ := updateRequest_objects hupd
    rw [hobj]
    by_cases hr : r' = r
    · subst hr
      have hq : NothingFor p.s modelRunnerOutput reqId r' := by
        refine hquiet.resolve_left fun hunf => ?_
        rw [hfin] at hunf
        cases hunf
      obtain ⟨hstopped, hnew, houtput⟩ := OutputEffect.of_nothing hq heffect
      obtain ⟨-, hstatus, -, hall, -, -⟩ := heffect.fields
      rw [Function.update_self, ← hsame]
      refine ⟨hstatus hstopped, houtput, ?_⟩
      rw [hall, hnew, append_nil]
    · rw [Function.update_of_ne hr]
      exact h.objects r' hfin
  outputs := by
    rcases hquiet with hunf | hq
    · exact updateRequest_outputsFor h.outputs ⟨r, hget, hunf⟩ hupd
    · rw [updateRequest_quiet hq hupd]
      exact h.outputs

/-- The loop of `update_from_output`. -/
theorem Spares.updateLoop {failed : List String} {entries : List (String × Int)}
    (h : Spares s p) (hinv : UpdateInv p) (hconfig : p.s.config = s.config)
    (hnodup : (entries.map Prod.fst).Nodup)
    (hsame : ∀ e ∈ entries, ∀ r, p.s.requests.get? e.1 = some r →
      s.requests.get? e.1 = some r ∧ p.s.objects r = s.objects r)
    (hquiet : NoneTouched s modelRunnerOutput entries)
    (hloop : updateLoop connector schedulerOutput modelRunnerOutput failed entries p =
      .ok p') : Spares s p' := by
  induction entries generalizing p with
  | nil =>
    unfold updateLoop at hloop
    cases hloop
    exact h
  | cons entry rest ih =>
    obtain ⟨reqId, n⟩ := entry
    unfold updateLoop at hloop
    obtain ⟨u, -, hloop⟩ := bind_ok hloop
    obtain ⟨p1, h1, hloop⟩ := bind_ok hloop
    obtain ⟨hnotin, hnd⟩ := nodup_cons.mp hnodup
    have hsame' := fun e he => hsame e (mem_cons_of_mem _ he)
    have hquiet' : NoneTouched s modelRunnerOutput rest :=
      fun e he => hquiet e (mem_cons_of_mem _ he)
    have hskip : p1 = p → Spares s p' := by
      intro heq
      rw [heq] at hloop
      exact ih h hinv hconfig hnd hsame' hquiet' hloop
    split at h1
    · cases h1
      exact hskip rfl
    · split at h1
      · cases h1
        exact hskip rfl
      · rename_i r hget
        obtain ⟨hreg, hobj⟩ := hsame (reqId, n) mem_cons_self r hget
        have hr : (s.objects r).isFinished = false ∨ NothingFor p.s modelRunnerOutput reqId r := by
          unfold NothingFor
          rw [hobj, hconfig]
          exact hquiet (reqId, n) mem_cons_self r hreg
        have hr' : (p.s.objects r).isFinished = false ∨
            NothingFor p.s modelRunnerOutput reqId r := hobj.symm ▸ hr
        obtain ⟨hinv1, hends, hframe⟩ := updateRequest_conserved hinv hget hr' h1
        refine ih (h.updateRequest hreg hobj hr h1) hinv1 (hends.config.trans hconfig) hnd ?_
          hquiet' hloop
        intro e he r' hget'
        have hmem : e.1 ∈ rest.map Prod.fst := mem_map_of_mem he
        have hne : e.1 ≠ reqId := fun heq => hnotin (heq ▸ hmem)
        obtain ⟨hold, hkept⟩ := hframe e.1 r' hne hget'
        obtain ⟨hold', hkept'⟩ := hsame' e he r' hold
        exact ⟨hold', hkept.trans hkept'⟩

end Loop

/-! ### The rest of `update_from_output` -/

theorem foldl_addOutput_outputsFor {s : Scheduler}
    (f : UpdatePass → ReqRef → Nat × EngineCoreOutput) {p : UpdatePass}
    (h : OutputsFor s p.outputs)
    (hf : ∀ q : UpdatePass, q.s = p.s → ∀ r ∈ l, Unfinished s (f q r).2.requestId) :
    OutputsFor s (l.foldl (fun p r => p.addOutput (f p r).1 (f p r).2) p).outputs := by
  induction l generalizing p with
  | nil => exact h
  | cons r l ih =>
    rw [foldl_cons]
    refine ih (h.addOutput _ (hf p rfl r mem_cons_self)) fun q hq r' hr' => ?_
    exact hf q hq r' (mem_cons_of_mem _ hr')

section Rest
variable {connector : Option KVConnector} {s : Scheduler} {p p' : UpdatePass}

/-- Requests that end because their loads failed. -/
theorem Spares.failRequests {failed : List String} (h : Spares s p) (hc : Conserved p.s [])
    (hfailed : ∀ x ∈ failed, Unfinished s x)
    (hfail : p.failRequests connector failed = .ok p') : Spares s p' := by
  have hfinish := failRequests_finish hfail
  constructor
  · exact h.frees.trans (finishRequests_frees hfinish)
  · intro r hfin
    have hold := h.objects r hfin
    have hnot : r ∉ p.s.validRequests failed := by
      intro hm
      have hunf := (validRequests_mem hc hm).2
      rw [Request.isFinished, hold.status] at hunf
      exact absurd (hfin.symm.trans hunf) (by decide)
    have hobj : p'.s.objects r = p.s.objects r := by
      unfold finishRequests at hfinish
      obtain ⟨u, -, hfinish⟩ := bind_ok hfinish
      have hobj := finishLoop_object hfinish r
      rw [if_neg hnot] at hobj
      exact hobj
    rw [hobj]
    exact hold
  · unfold UpdatePass.failRequests at hfail
    obtain ⟨requests, hget, hfail⟩ := bind_ok hfail
    obtain ⟨s1, h1, hfail⟩ := bind_ok hfail
    cases hfail
    have hids := (finishRequests_conserved hc h1).2.ids
    refine foldl_addOutput_outputsFor (fun p r => ((p.s.objects r).clientIndex, {
      requestId := (p.s.objects r).requestId
      newTokenIds := []
      finishReason := (p.s.objects r).status.getFinishedReason
      stopReason := none
      numCachedTokens := (p.s.objects r).numCachedTokens })) h.outputs fun q hq r hr => ?_
    obtain ⟨reqId, hmem, hreg⟩ := exists_of_mem_mapM hget hr
    split at hreg
    · cases hreg
    rename_i hfound
    cases hreg
    dsimp only
    rw [hq, hids, (hc.known reqId r hfound).1]
    exact hfailed reqId hmem

end Rest

/-- The outputs of the clients are those of the loop. -/
theorem engineCoreOutputs_outputsFor {s s' : Scheduler}
    {outputs : PyDict Nat (List EngineCoreOutput)} (h : OutputsFor s outputs) :
    ∀ eco ∈ (s'.engineCoreOutputs outputs).values, ∀ o ∈ eco.outputs, Unfinished s o.requestId := by
  have hfirst : ∀ (l : List (Nat × List EngineCoreOutput)) (d : PyDict Nat EngineCoreOutputs),
      (∀ e ∈ l, ∀ o ∈ e.2, Unfinished s o.requestId) →
      (∀ eco ∈ d.values, ∀ o ∈ eco.outputs, Unfinished s o.requestId) →
      ∀ eco ∈ (l.foldl (fun d e => d.insert e.1 { outputs := e.2 }) d).values,
        ∀ o ∈ eco.outputs, Unfinished s o.requestId := by
    intro l
    induction l with
    | nil => exact fun d _ hd => hd
    | cons e l ih =>
      intro d hl hd
      refine ih _ (fun e' he' => hl e' (mem_cons_of_mem _ he')) fun eco heco => ?_
      rcases PyDict.mem_values_insert heco with rfl | heco
      · exact hl e mem_cons_self
      · exact hd eco heco
  have hsecond : ∀ (l : List (Nat × List String)) (d : PyDict Nat EngineCoreOutputs),
      (∀ eco ∈ d.values, ∀ o ∈ eco.outputs, Unfinished s o.requestId) →
      ∀ eco ∈ (l.foldl (fun d e =>
        d.insert e.1 { ((d.get? e.1).getD {}) with finishedRequests := some e.2 }) d).values,
        ∀ o ∈ eco.outputs, Unfinished s o.requestId := by
    intro l
    induction l with
    | nil => exact fun d hd => hd
    | cons e l ih =>
      intro d hd
      refine ih _ fun eco heco o ho => ?_
      rcases PyDict.mem_values_insert heco with rfl | heco
      · cases hget : d.get? e.1 with
        | none =>
          rw [hget] at ho
          exact absurd ho not_mem_nil
        | some old =>
          rw [hget] at ho
          exact hd old ((PyDict.mem_values_iff _ _).mpr ⟨e.1, hget⟩) o ho
      · exact hd eco heco o ho
  refine hsecond _ _ (hfirst _ _ (fun e he => ?_) fun eco heco => ?_)
  · exact h e.2 (mem_map_of_mem he)
  · exact absurd heco not_mem_nil

/-- The requests whose blocks the connector reports as sent. -/
def Sent (s : Scheduler) (modelRunnerOutput : ModelRunnerOutput) (r : ReqRef) : Prop :=
  (s.objects r).requestId ∈ (modelRunnerOutput.kvConnectorOutput.map
    KVConnectorOutput.finishedSending).getD [] ∧
  s.requests.get? (s.objects r).requestId = some r

/-- What a result leaves of the requests that were finished before. -/
structure LeavesFinished (s s' : Scheduler) (modelRunnerOutput : ModelRunnerOutput)
    (outputs : PyDict Nat EngineCoreOutputs) : Prop where
  answers : ∀ r, (s.objects r).isFinished = true → SameAnswer (s.objects r) (s'.objects r)
  outputs : ∀ eco ∈ outputs.values, ∀ o ∈ eco.outputs, Unfinished s o.requestId
  freed : ∀ r, r < s.numObjects → (s.objects r).isFinished = true →
    (r ∈ s'.freeBlocksCalls ↔ r ∈ s.freeBlocksCalls ∨ Sent s modelRunnerOutput r)

/-- `update_from_output` does nothing to the finished requests, if it has nothing for them. -/
theorem updateFromOutput_leavesFinished {s s' : Scheduler} {connector : Option KVConnector}
    {schedulerOutput : SchedulerOutput} {modelRunnerOutput : ModelRunnerOutput}
    {outputs : PyDict Nat EngineCoreOutputs} (h : Conserved s [])
    (hnone : NoneTouched s modelRunnerOutput schedulerOutput.numScheduledTokens.entries)
    (hupd : s.updateFromOutput connector schedulerOutput modelRunnerOutput =
      .ok (outputs, s')) : LeavesFinished s s' modelRunnerOutput outputs := by
  have hc' := (updateFromOutput_conserved h hnone hupd).1
  obtain ⟨failed, s1, p, p', s2, hparts⟩ := updateFromOutput_cases hupd
  have hframe := hparts.frame
  have hc1 : Conserved s1 [] := hframe.conserved h
  have hnone1 := hnone.of_loadFrame hframe
  obtain ⟨hinv, hends⟩ := updateLoop_conserved hc1.updateInv
    schedulerOutput.numScheduledTokens.nodup hnone1 hparts.loop
  have hstatus := hframe.of_core Request.status fun _ => rfl
  have hid1 := hframe.of_core Request.requestId fun _ => rfl
  have hunf : ∀ x, Unfinished s1 x ↔ Unfinished s x := by
    intro x
    unfold Unfinished Request.isFinished
    simp only [hstatus]
    rw [hframe.eq]
  have hfin1 : ∀ r, (s.objects r).isFinished = true → (s1.objects r).isFinished = true := by
    intro r hfin
    unfold Request.isFinished
    rw [hstatus]
    exact hfin
  -- The loop, and the requests that end because their loads failed.
  have hstart : Spares s1 { s := s1 } :=
    ⟨.of_eq rfl rfl, fun r _ => .refl _, fun outs houts => absurd houts not_mem_nil⟩
  have hloop : Spares s1 p.removeStopped := by
    have hspares := hstart.updateLoop hc1.updateInv rfl schedulerOutput.numScheduledTokens.nodup
      (fun _ _ r hr => ⟨hr, rfl⟩) hnone1 hparts.loop
    exact ⟨hspares.frees, hspares.objects, hspares.outputs⟩
  have hspares : Spares s1 p'  := by
    rcases hparts.ends with rfl | hfail
    · exact hloop
    · refine hloop.failRequests hinv.conserved (fun x hx => ?_) hfail
      obtain ⟨r, hr, hid⟩ := hparts.queued x hx
      obtain ⟨hlt, hopen⟩ := (h.queued r).mp (by rwa [append_nil])
      exact (hunf x).mpr ⟨r, hid ▸ h.registered r hlt hopen, hopen⟩
  have hc2 : Conserved p'.s [] ∧ ∀ r, (p'.s.objects r).requestId = (p.s.objects r).requestId := by
    rcases hparts.ends with rfl | hfail
    · exact ⟨hinv.conserved, fun _ => rfl⟩
    · obtain ⟨hc, hids⟩ := finishRequests_conserved hinv.conserved (failRequests_finish hfail)
      exact ⟨hc, hids.ids⟩
  have hid : ∀ r, (p'.s.objects r).requestId = (s.objects r).requestId :=
    fun r => (hc2.2 r).trans ((hends.ids r).trans (hid1 r))
  have hfrees : Frees (fun _ => False) s p'.s := by
    have hload : Frees (fun _ => False) s s1 := by
      refine .of_eq ?_ ?_ <;> rw [hframe.eq]
    exact hload.trans hspares.frees
  -- Up to here no blocks of a finished request have been freed, so it is still registered.
  have hblocks : ∀ r, r < s.numObjects → (s.objects r).isFinished = true →
      (r ∈ p'.s.freeBlocksCalls ↔ r ∈ s.freeBlocksCalls) := by
    intro r hlt hfin
    have hcalled := (h.freed r).mpr ⟨hlt, hfin⟩
    refine ⟨fun hr => ?_, hfrees.mem_of_mem⟩
    exact (hfrees.released hc2.1.freed_nodup hcalled hr).resolve_right id
  have hregistered : ∀ r, r < s.numObjects → (s.objects r).isFinished = true →
      (p'.s.requests.get? (s.objects r).requestId = some r ↔
        s.requests.get? (s.objects r).requestId = some r) := by
    intro r hlt hfin
    have hcalled := (h.freed r).mpr ⟨hlt, hfin⟩
    obtain ⟨ended, released, hcalls, -, -⟩ := hfrees
    have hcalled' : r ∈ p'.s.freeRequestCalls := hcalls ▸ mem_append_left _ hcalled
    have hold := h.released r
    have hnew := hc2.1.released r
    rw [hblocks r hlt hfin, hid r] at hnew
    constructor
    · intro hreg
      by_contra hnot
      exact (hnew.mp (hold.mpr ⟨hcalled, hnot⟩)).2 hreg
    · intro hreg
      by_contra hnot
      exact (hold.mp (hnew.mpr ⟨hcalled', hnot⟩)).2 hreg
  have hlast : s'.objects = s2.objects ∧ s'.freeBlocksCalls = s2.freeBlocksCalls ∧
      s'.freeRequestCalls = s2.freeRequestCalls := by
    rw [hparts.eq]
    exact ⟨rfl, rfl, rfl⟩
  obtain ⟨hobjects, hreleased, hcalls⟩ := hlast
  have hsends : s2.objects = p'.s.objects ∧ ∀ r, r < s.numObjects →
      (s.objects r).isFinished = true →
      (r ∈ s2.freeBlocksCalls ↔ r ∈ s.freeBlocksCalls ∨ Sent s modelRunnerOutput r) := by
    rcases hparts.sends with ⟨hconn, rfl⟩ | ⟨output, hconn, hxfer⟩
    · refine ⟨rfl, fun r hlt hfin => ?_⟩
      rw [hblocks r hlt hfin]
      refine ⟨.inl, fun hr => hr.resolve_right fun hsent => ?_⟩
      unfold Sent at hsent
      rw [hconn] at hsent
      exact absurd hsent.1 not_mem_nil
    · unfold updateFromKvXferFinished at hxfer
      dsimp only at hxfer
      have hobj2 := finishSending_objects hxfer
      refine ⟨hobj2, fun r hlt hfin => ?_⟩
      have hknown : ∀ a r', p'.s.requests.get? a = some r' → (p'.s.objects r').requestId = a :=
        fun a r' hr' => (hc2.1.known a r' hr').1
      obtain ⟨hfreed, hall⟩ := finishSending_frees (s := { p'.s with
          finishedRecvingKvReqIds :=
            p'.s.finishedRecvingKvReqIds.union output.finishedRecving }) hknown hxfer
      have hcalled : r ∈ p'.s.freeRequestCalls := by
        obtain ⟨ended, released, hcalls, -, -⟩ := hfrees
        exact hcalls ▸ mem_append_left _ ((h.freed r).mpr ⟨hlt, hfin⟩)
      have hnodup : s2.freeRequestCalls.Nodup := hcalls ▸ hc'.freed_nodup
      unfold Sent
      rw [hconn]
      constructor
      · intro hr
        rcases hfreed.released hnodup hcalled hr with hr | ⟨a, ha, hr⟩
        · exact .inl ((hblocks r hlt hfin).mp hr)
        · have ha' : a = (s.objects r).requestId := (hid r ▸ hknown a r hr).symm
          subst ha'
          exact .inr ⟨ha, (hregistered r hlt hfin).mp hr⟩
      · rintro (hr | ⟨ha, hr⟩)
        · exact hfreed.mem_of_mem ((hblocks r hlt hfin).mpr hr)
        · exact hall _ ha r ((hregistered r hlt hfin).mpr hr)
  refine ⟨fun r hfin => ?_, ?_, fun r hlt hfin => ?_⟩
  · have hanswer := hspares.objects r (hfin1 r hfin)
    rw [hobjects, hsends.1]
    exact ⟨hanswer.status.trans (hstatus r),
      hanswer.outputTokenIds.trans (hframe.of_core Request.outputTokenIds (fun _ => rfl) r),
      hanswer.allTokenIds.trans (hframe.of_core Request.allTokenIds (fun _ => rfl) r)⟩
  · intro eco heco o ho
    rw [hparts.outputs] at heco
    exact (hunf _).mp (engineCoreOutputs_outputsFor hspares.outputs eco heco o ho)
  · rw [hreleased]
    exact hsends.2 r hlt hfin

/-! ### Runs -/

/-- What the results do to the requests that are finished in a state of the engine, and when the
blocks of such requests are freed. -/
structure Inert (e : EngineCore) : Prop where
  /-- A result leaves a finished request as it is, and gives the clients nothing about it. -/
  untouched : ∀ connector modelRunnerOutput batch queue outputs s',
    e.batchQueue = batch :: queue →
    QuietUpdate e (.updateFromOutput connector modelRunnerOutput) →
    e.scheduler.updateFromOutput connector batch.output modelRunnerOutput = .ok (outputs, s') →
      LeavesFinished e.scheduler s' modelRunnerOutput outputs
  /-- No other operation frees the blocks of a finished request. -/
  kept : ∀ op e', (∀ connector modelRunnerOutput, op ≠ .updateFromOutput connector
      modelRunnerOutput) → FreshIds e op → e.step op = .ok e' →
    ∀ r, r < e.scheduler.numObjects → (e.scheduler.objects r).isFinished = true →
      (r ∈ e'.scheduler.freeBlocksCalls ↔ r ∈ e.scheduler.freeBlocksCalls)

theorem updateDraftTokenIds_frees {sent : ReqRef → Prop} (validate : Request → List Int → List Int)
    (drafts : List (String × List Int)) (s : Scheduler) :
    Frees sent s (s.updateDraftTokenIds validate drafts) := by
  induction drafts generalizing s with
  | nil => exact .of_eq rfl rfl
  | cons d drafts ih =>
    unfold updateDraftTokenIds
    dsimp only
    split
    · exact ih s
    · split
      · exact ih s
      · exact Frees.trans (.of_eq rfl rfl) (ih _)

theorem preemptAll_frees {sent : ReqRef → Prop} {s s' : Scheduler}
    (h : preemptAll l s = .ok s') : Frees sent s s' := by
  induction l generalizing s with
  | nil =>
    cases h
    exact .of_eq rfl rfl
  | cons r rest ih =>
    unfold preemptAll at h
    obtain ⟨s1, h1, h⟩ := bind_ok h
    obtain ⟨-, k, e, -, -, rfl⟩ := preemptRequest_cases h1
    dsimp only at h
    have hrest : Frees sent _ s' := ih h
    exact Frees.trans (Frees.of_eq rfl rfl) hrest

theorem resetPrefixCache_frees {sent : ReqRef → Prop} {s s' : Scheduler} {reset b : Bool}
    (h : s.resetPrefixCache reset = .ok (b, s')) : Frees sent s s' := by
  unfold resetPrefixCache at h
  obtain ⟨s1, h1, h⟩ := bind_ok h
  have hfirst : Frees sent s s1 := by
    split at h1
    · obtain ⟨s2, h2, h1⟩ := bind_ok h1
      cases h1
      exact (preemptAll_frees h2).trans (.of_eq rfl rfl)
    · cases h1
      exact .of_eq rfl rfl
  dsimp only at h
  split at h
  · cases h
  · cases h
    exact hfirst.trans (.of_eq rfl rfl)

/-- Only a result can free the blocks of requests that had ended before. -/
theorem step_frees {e e' : EngineCore} {op : EngineOp} (h : RequestInv e)
    (hop : ∀ connector modelRunnerOutput, op ≠ .updateFromOutput connector modelRunnerOutput)
    (hstep : e.step op = .ok e') : Frees (fun _ => False) e.scheduler e'.scheduler := by
  cases op with
  | addRequest args =>
    obtain ⟨request, -, hstep⟩ := bind_ok hstep
    cases hstep
    exact .of_eq rfl rfl
  | grammarReady r =>
    cases hstep
    exact .of_eq rfl rfl
  | schedule connector ec =>
    obtain ⟨⟨out, s'⟩, hsched, hstep⟩ := bind_ok hstep
    cases hstep
    obtain ⟨p, hloops, hfin⟩ := bind_ok hsched
    obtain ⟨hp, hshared⟩ := scheduleLoops_conserved h.conserved hloops
    have hf := finish_spec hp.knownIds hfin
    refine .of_eq ?_ ?_
    · show s'.freeRequestCalls = _
      rw [hf.frame.eq]
      exact hshared.freeRequestCalls
    · show s'.freeBlocksCalls = _
      rw [hf.frame.eq]
      exact hshared.freeBlocksCalls
  | updateFromOutput connector modelRunnerOutput => exact absurd rfl (hop _ _)
  | finishRequests connector ids status =>
    obtain ⟨s', hfin, hstep⟩ := bind_ok hstep
    cases hstep
    exact finishRequests_frees hfin
  | updateDraftTokenIds validate drafts =>
    cases hstep
    exact updateDraftTokenIds_frees validate drafts e.scheduler
  | resetPrefixCache reset =>
    obtain ⟨⟨b, s'⟩, hreset, hstep⟩ := bind_ok hstep
    cases hstep
    exact resetPrefixCache_frees hreset

theorem RequestInv.inert {e : EngineCore} (h : RequestInv e) : Inert e where
  untouched connector modelRunnerOutput batch queue outputs s' hqueue hquiet hupd := by
    refine updateFromOutput_leavesFinished h.conserved (hquiet batch ?_) hupd
    rw [hqueue]
    rfl
  kept op e' hop hfresh hstep r hlt hfin := by
    have hquiet : QuietUpdate e op := by
      cases op with
      | updateFromOutput connector modelRunnerOutput => exact absurd rfl (hop _ _)
      | _ => trivial
    have h' := requestInv_step h hfresh hquiet hstep
    have hfrees := step_frees h hop hstep
    have hcalled := (h.conserved.freed r).mpr ⟨hlt, hfin⟩
    refine ⟨fun hr => ?_, hfrees.mem_of_mem⟩
    exact (hfrees.released h'.conserved.freed_nodup hcalled hr).resolve_right id

instance (s : Scheduler) (modelRunnerOutput : ModelRunnerOutput) (reqId : String) (r : ReqRef) :
    Decidable (NothingFor s modelRunnerOutput reqId r) :=
  inferInstanceAs (Decidable ((_ ∨ _) ∧ _))

instance (s : Scheduler) (modelRunnerOutput : ModelRunnerOutput)
    (entries : List (String × Int)) : Decidable (NoneTouched s modelRunnerOutput entries) :=
  inferInstanceAs (Decidable (∀ e ∈ entries, ∀ r ∈ s.requests.get? e.1, _ ∨ _))

instance (e : EngineCore) (op : EngineOp) : Decidable (QuietUpdate e op) :=
  match op with
  | .updateFromOutput _ modelRunnerOutput =>
    inferInstanceAs (Decidable (∀ batch ∈ e.batchQueue.head?,
      NoneTouched e.scheduler modelRunnerOutput batch.output.numScheduledTokens.entries))
  | .addRequest _ | .grammarReady _ | .schedule _ _ | .finishRequests _ _ _
  | .updateDraftTokenIds _ _ | .resetPrefixCache _ => inferInstanceAs (Decidable True)

/-- The output tokens of the first request after the next result, which has the token 3. -/
def nextAnswer (e : EngineCore) : Option (List Int) :=
  match e.batchQueue with
  | [] => none
  | batch :: _ =>
    match e.scheduler.updateFromOutput (some delayingConnector) batch.output (sampled [3]) with
    | .error _ => none
    | .ok (_, s') => some (s'.objects 0).outputTokenIds

end Vllm.Proofs.Engine
