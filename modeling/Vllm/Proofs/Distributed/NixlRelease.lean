import Vllm.Proofs.Distributed.NixlProducer
import Vllm.Lib.Run

/-!
# `Vllm.Proofs.Distributed.NixlRelease`: a producer releases each request once

A request is awaited while it is in the batches of the worker, or will be when the worker has begun
the steps that are in flight (`Awaited`). A request whose free is delayed stays awaited until it is
returned in `done_sending`. Then nothing adds it to the batches again: its last step comes before
the step that carries its deadline.

`Fits` is what the proof needs of the callers. Ids are not used again, times do not go back, and all
consumers of a request agree on how many they are. The last notification of a request comes when
the request has finished, and when no step in flight will add it to the batches. The code checks
none of this. `released_twice` shows what happens when a request is resumed with its last
step in flight: the worker returns it, adds it again with the step in which it was resumed, and
returns it a second time at its deadline.

* `NoReceive`, `Pending`, `Accounted`: the invariant, in three parts.
* `releases_of_run`: what a run promises.
-/

set_option autoImplicit false

namespace Vllm.Proofs.Distributed.NixlProducer

open Vllm.Lib Vllm.V1 Vllm.Distributed.Nixl Vllm.Distributed.Nixl.NixlConnectorWorker List

/-! ### What is on its way -/

/-- The requests to send, from the worker back to the scheduler. -/
def pendingSends (p : Producer) : List (String × Int) :=
  p.worker.reqsToSend.entries ++
    (p.inFlight.flatMap (·.reqsToSend.entries) ++ p.scheduler.reqsNeedSend.entries)

/-- The requests not to process that the worker does not know yet. -/
def pendingNotProcessed (p : Producer) : List String :=
  p.inFlight.flatMap (·.reqsNotProcessed) ++ p.scheduler.reqsNotProcessed

/-- The request is in a batch of the worker or of a step that it has not begun. -/
def Awaited (p : Producer) (x : String) : Prop :=
  x ∈ p.worker.reqsToProcess ∨ ∃ m ∈ p.inFlight, x ∈ m.reqsInBatch

/-- Whether the request got blocks, and remote decode is asked for. -/
def allocated (p : Producer) (x : String) : Bool :=
  p.allocated.any fun r => r.requestId = x && decodes r

/-- The requests that have finished. -/
def finishedIds (p : Producer) : List String := p.finished.map Prod.fst

theorem mem_finishedIds {p : Producer} {x : String} {d : Option Int} (h : (x, d) ∈ p.finished) :
    x ∈ finishedIds p :=
  mem_map.mpr ⟨(x, d), h, rfl⟩

theorem allocated_iff {p : Producer} {x : String} :
    allocated p x = true ↔ ∃ r ∈ p.allocated, r.requestId = x ∧ decodes r = true := by
  unfold allocated
  simp

/-! ### The condition -/

/-- The contract of the callers. -/
def Calls (consumers : String → Nat) (p : Producer) : ProducerOp → Prop
  | .schedule requests => ∀ r ∈ requests, ReadsNothing r ∧ r.requestId ∉ finishedIds p
  | .requestFinished request blockIds now =>
    ReadsNothing request ∧ request.requestId ∉ finishedIds p ∧ p.clock ≤ now ∧
      (delays request blockIds = true → allocated p request.requestId = true)
  | .startLoadKv => p.inFlight ≠ []
  | .getFinished poll => p.clock ≤ poll.now ∧ ∀ n ∈ poll.notifs, n.2 = consumers n.1

/-- The last notification of a request comes when it has finished, and when no step in flight has it
in its batch. -/
def Settled (consumers : String → Nat) (p : Producer) : ProducerOp → Prop
  | .getFinished poll => ∀ x ∈ poll.notifs.map Prod.fst, x ∈ p.worker.reqsToProcess →
      consumers x ≤ counted p.worker x + (poll.notifs.map Prod.fst).count x →
      x ∈ finishedIds p ∧ ∀ m ∈ p.inFlight, x ∉ m.reqsInBatch
  | _ => True

/-- What every operation of the run meets. -/
def Fits (consumers : String → Nat) (p : Producer) (op : ProducerOp) : Prop :=
  Calls consumers p op ∧ Settled consumers p op

/-! ### The invariant -/

/-- Nothing is received, and the batch of the scheduler is empty between two calls. -/
structure NoReceive (p : Producer) : Prop where
  worker : Idle p.worker
  scheduler : p.scheduler.reqsNeedRecv = .empty
  metadata : ∀ m ∈ p.inFlight, m.reqsToRecv = .empty
  batch : p.scheduler.reqsInBatch = []

/-- The requests to send are those whose free is delayed, in the order of their deadlines, and no
batch comes after them. -/
structure Pending (p : Producer) : Prop where
  finished : (finishedIds p).Nodup
  sends : ∀ e ∈ pendingSends p, (e.1, some e.2) ∈ p.finished
  notProcessed : ∀ x ∈ pendingNotProcessed p, (x, none) ∈ p.finished
  keys : ((pendingSends p).map Prod.fst).Nodup
  sorted : (pendingSends p).Pairwise fun a b => a.2 ≤ b.2
  bound : ∀ e ∈ pendingSends p, e.2 ≤ p.clock + p.scheduler.abortRequestTimeout
  worker : ∀ e ∈ p.worker.reqsToSend.entries, ∀ m ∈ p.inFlight, e.1 ∉ m.reqsInBatch
  own : ∀ m ∈ p.inFlight, ∀ e ∈ m.reqsToSend.entries, e.1 ∉ m.reqsInBatch
  later : p.inFlight.Pairwise fun m m' => ∀ e ∈ m.reqsToSend.entries, e.1 ∉ m'.reqsInBatch

/-- A request is awaited or returned. -/
structure Accounted (consumers : String → Nat) (p : Producer) : Prop where
  processNodup : p.worker.reqsToProcess.Nodup
  sendsProcessed : SendsProcessed p.worker
  awaited : ∀ x, Awaited p x → allocated p x = true ∧ x ∉ p.doneSending
  running : ∀ x, allocated p x = true → x ∉ finishedIds p → Awaited p x
  doneFinished : ∀ x ∈ p.doneSending, x ∈ finishedIds p
  doneNodup : p.doneSending.Nodup
  delayed : ∀ x d, (x, some d) ∈ p.finished →
    x ∈ p.doneSending ∨ (x, d) ∈ pendingSends p ∧ Awaited p x
  enough : ∀ x ∈ p.doneSending, consumers x ≤ p.notified.count x ∨
    ∃ d, (x, some d) ∈ p.finished ∧ d ≤ p.clock
  counts : ∀ x, counted p.worker x ≤ p.notified.count x

/-- The invariant. -/
structure ProducerInv (consumers : String → Nat) (p : Producer) : Prop where
  noReceive : NoReceive p
  pending : Pending p
  accounted : Accounted consumers p

section
variable {consumers : String → Nat} {p p' : Producer}

variable {e : String × Int}

theorem worker_send_pending (h : e ∈ p.worker.reqsToSend.entries) : e ∈ pendingSends p :=
  mem_append_left _ h

theorem metadata_send_pending {m : NixlConnectorMetadata} (hm : m ∈ p.inFlight)
    (h : e ∈ m.reqsToSend.entries) : e ∈ pendingSends p :=
  mem_append_right _ (mem_append_left _ (mem_flatMap.mpr ⟨m, hm, h⟩))

theorem scheduler_send_pending (h : e ∈ p.scheduler.reqsNeedSend.entries) : e ∈ pendingSends p :=
  mem_append_right _ (mem_append_right _ h)

variable {x : String}

/-- The finished entry of a request is unique. -/
theorem Pending.finished_unique (h : Pending p) {d d' : Option Int} (hd : (x, d) ∈ p.finished)
    (hd' : (x, d') ∈ p.finished) : d = d' := by
  have := inj_on_of_nodup_map h.finished hd hd' rfl
  exact (Prod.mk.inj this).2

/-! ### `schedule` -/

/-- The producer after `schedule`. -/
def scheduled (p : Producer) (requests : List NixlRequest) (batch : List String) : Producer :=
  { p with
    scheduler := { p.scheduler with
      reqsNeedRecv := .empty
      reqsNeedSend := .empty
      reqsInBatch := []
      reqsNotProcessed := [] }
    inFlight := p.inFlight ++ [{
      reqsToRecv := .empty
      reqsToSend := p.scheduler.reqsNeedSend
      reqsInBatch := batch
      reqsNotProcessed := p.scheduler.reqsNotProcessed }]
    allocated := p.allocated ++ requests }

variable {requests : List NixlRequest}

theorem schedule_spec (h : NoReceive p) (hreads : ∀ r ∈ requests, ReadsNothing r) :
    ∃ batch, p.step (.schedule requests) = .ok (scheduled p requests batch) ∧
      ∀ x, x ∈ batch ↔ ∃ r ∈ requests, r.requestId = x ∧ decodes r = true := by
  obtain ⟨batch, hloop, hmem⟩ := allocLoop_spec requests p.scheduler hreads
  refine ⟨batch, ?_, ?_⟩
  · unfold Producer.step
    dsimp only
    rw [hloop, except_ok_bind]
    unfold NixlConnectorScheduler.buildConnectorMeta
    dsimp only
    rw [h.scheduler]
    rfl
  · intro x
    rw [hmem, h.batch]
    simp

theorem pendingSends_scheduled (requests : List NixlRequest) (batch : List String) :
    pendingSends (scheduled p requests batch) = pendingSends p := by
  unfold pendingSends scheduled
  simp [PyDict.empty]

variable {batch : List String}

theorem awaited_scheduled : Awaited (scheduled p requests batch) x ↔ Awaited p x ∨ x ∈ batch := by
  unfold Awaited scheduled
  simp [or_and_right, exists_or, or_assoc]

theorem allocated_scheduled
    (hmem : ∀ x, x ∈ batch ↔ ∃ r ∈ requests, r.requestId = x ∧ decodes r = true) :
    allocated (scheduled p requests batch) x = true ↔ allocated p x = true ∨ x ∈ batch := by
  rw [allocated_iff, allocated_iff, hmem]
  unfold scheduled
  simp [or_and_right, exists_or]

theorem ProducerInv.schedule (h : ProducerInv consumers p)
    (hmem : ∀ x, x ∈ batch ↔ ∃ r ∈ requests, r.requestId = x ∧ decodes r = true)
    (hcalls : ∀ r ∈ requests, ReadsNothing r ∧ r.requestId ∉ finishedIds p) :
    ProducerInv consumers (scheduled p requests batch) := by
  have hbatch : ∀ x ∈ batch, x ∉ finishedIds p := by
    intro x hx
    obtain ⟨r, hr, rfl, -⟩ := (hmem x).mp hx
    exact (hcalls r hr).2
  -- A request to send has finished, so the new batch does not have it.
  have hsend : ∀ e ∈ pendingSends p, e.1 ∉ batch := fun e he hx =>
    hbatch e.1 hx (mem_finishedIds (h.pending.sends e he))
  refine ⟨?_, ?_, ?_⟩
  · exact {
      worker := h.noReceive.worker
      scheduler := rfl
      metadata := by
        intro m hm
        rcases mem_append.mp hm with hm | hm
        · exact h.noReceive.metadata m hm
        · rw [mem_singleton.mp hm]
      batch := rfl }
  · exact {
      finished := h.pending.finished
      sends := by
        rw [pendingSends_scheduled]
        exact h.pending.sends
      notProcessed := by
        intro x hx
        apply h.pending.notProcessed x
        unfold pendingNotProcessed scheduled at hx
        unfold pendingNotProcessed
        simpa using hx
      keys := by
        rw [pendingSends_scheduled]
        exact h.pending.keys
      sorted := by
        rw [pendingSends_scheduled]
        exact h.pending.sorted
      bound := by
        rw [pendingSends_scheduled]
        exact h.pending.bound
      worker := by
        intro e he m hm
        rcases mem_append.mp hm with hm | hm
        · exact h.pending.worker e he m hm
        · rw [mem_singleton.mp hm]
          exact hsend e (worker_send_pending he)
      own := by
        intro m hm e he
        rcases mem_append.mp hm with hm | hm
        · exact h.pending.own m hm e he
        · rw [mem_singleton.mp hm] at he ⊢
          exact hsend e (scheduler_send_pending he)
      later := by
        refine pairwise_append.mpr ⟨h.pending.later, pairwise_singleton .., ?_⟩
        intro m hm m' hm' e he
        rw [mem_singleton.mp hm']
        exact hsend e (metadata_send_pending hm he) }
  · have hacc := h.accounted
    exact {
      processNodup := hacc.processNodup
      sendsProcessed := hacc.sendsProcessed
      awaited := by
        intro x hx
        rw [allocated_scheduled hmem]
        rcases awaited_scheduled.mp hx with hx | hx
        · exact ⟨.inl (hacc.awaited x hx).1, (hacc.awaited x hx).2⟩
        · exact ⟨.inr hx, fun hdone => hbatch x hx (hacc.doneFinished x hdone)⟩
      running := by
        intro x hx hfinished
        rw [awaited_scheduled]
        exact ((allocated_scheduled hmem).mp hx).imp_left (hacc.running x · hfinished)
      doneFinished := hacc.doneFinished
      doneNodup := hacc.doneNodup
      delayed := by
        intro x d hd
        rw [pendingSends_scheduled, awaited_scheduled]
        exact (hacc.delayed x d hd).imp_right fun hx => ⟨hx.1, .inl hx.2⟩
      enough := hacc.enough
      counts := hacc.counts }

/-! ### `request_finished` -/

/-- The producer after `request_finished`, with what the scheduler is now. -/
def ended (p : Producer) (scheduler : NixlConnectorScheduler) (x : String) (deadline : Option Int)
    (now : Int) : Producer :=
  { p with
    scheduler
    finished := p.finished ++ [(x, deadline)]
    clock := now }

variable {scheduler : NixlConnectorScheduler} {deadline : Option Int} {now : Int}

theorem mem_finished_ended {y : String} {d : Option Int} :
    (y, d) ∈ (ended p scheduler x deadline now).finished ↔
      (y, d) ∈ p.finished ∨ y = x ∧ d = deadline := by
  unfold ended
  simp

theorem finishedIds_ended (scheduler : NixlConnectorScheduler) (x : String)
    (deadline : Option Int) (now : Int) :
    finishedIds (ended p scheduler x deadline now) = finishedIds p ++ [x] := by
  unfold finishedIds ended
  simp

/-- A request that has just finished: what `Pending` needs of the new requests to send. -/
theorem Pending.ended (h : Pending p) (hnew : x ∉ finishedIds p) (hclock : p.clock ≤ now)
    (htimeout : scheduler.abortRequestTimeout = p.scheduler.abortRequestTimeout)
    (hsends : pendingSends (ended p scheduler x deadline now) = pendingSends p ∨
      ∃ d, deadline = some d ∧ d = now + p.scheduler.abortRequestTimeout ∧
      pendingSends (ended p scheduler x deadline now) = pendingSends p ++ [(x, d)])
    (hnot : ∀ y ∈ scheduler.reqsNotProcessed, y ∈ p.scheduler.reqsNotProcessed ∨ y = x ∧
      deadline = none) :
    Pending (ended p scheduler x deadline now) where
  __ := h
  finished := by
    rw [finishedIds_ended]
    refine nodup_append.mpr ⟨h.finished, nodup_singleton x, ?_⟩
    intro y hy z hz hyz
    rw [mem_singleton.mp hz] at hyz
    exact hnew (hyz ▸ hy)
  sends := by
    intro e he
    rw [mem_finished_ended]
    rcases hsends with hsends | ⟨d, rfl, -, hsends⟩ <;> rw [hsends] at he
    · exact .inl (h.sends e he)
    · rcases mem_append.mp he with he | he
      · exact .inl (h.sends e he)
      · rw [mem_singleton.mp he]
        exact .inr ⟨rfl, rfl⟩
  notProcessed := by
    intro y hy
    rw [mem_finished_ended]
    rcases mem_append.mp hy with hy | hy
    · exact .inl (h.notProcessed y (mem_append_left _ hy))
    · rcases hnot y hy with hy | ⟨rfl, hd⟩
      · exact .inl (h.notProcessed y (mem_append_right _ hy))
      · exact .inr ⟨rfl, hd.symm⟩
  keys := by
    rcases hsends with hsends | ⟨d, -, -, hsends⟩ <;> rw [hsends]
    · exact h.keys
    · rw [map_append]
      refine nodup_append.mpr ⟨h.keys, nodup_singleton x, ?_⟩
      intro y hy z hz hyz
      obtain rfl : z = x := mem_singleton.mp hz
      obtain ⟨e, he, rfl⟩ := mem_map.mp hy
      exact hnew (hyz ▸ mem_finishedIds (h.sends e he))
  sorted := by
    rcases hsends with hsends | ⟨d, -, rfl, hsends⟩ <;> rw [hsends]
    · exact h.sorted
    · refine pairwise_append.mpr ⟨h.sorted, pairwise_singleton .., ?_⟩
      intro e he e' he'
      rw [mem_singleton.mp he']
      have := h.bound e he
      show e.2 ≤ now + p.scheduler.abortRequestTimeout
      omega
  bound := by
    intro e he
    show e.2 ≤ now + scheduler.abortRequestTimeout
    rw [htimeout]
    rcases hsends with hsends | ⟨d, -, rfl, hsends⟩ <;> rw [hsends] at he
    · have := h.bound e he
      omega
    · rcases mem_append.mp he with he | he
      · have := h.bound e he
        omega
      · exact Int.le_of_eq (by rw [mem_singleton.mp he])

theorem Accounted.ended (h : Accounted consumers p) (hnew : x ∉ finishedIds p)
    (hclock : p.clock ≤ now)
    (hsends : ∀ e ∈ pendingSends p, e ∈ pendingSends (ended p scheduler x deadline now))
    (hdelayed : ∀ d, deadline = some d → allocated p x = true ∧
      (x, d) ∈ pendingSends (ended p scheduler x deadline now)) :
    Accounted consumers (ended p scheduler x deadline now) where
  __ := h
  running := by
    intro y hy hfinished
    rw [finishedIds_ended, mem_append, not_or] at hfinished
    exact h.running y hy hfinished.1
  doneFinished := by
    intro y hy
    rw [finishedIds_ended]
    exact mem_append_left _ (h.doneFinished y hy)
  delayed := by
    intro y d hd
    rcases mem_finished_ended.mp hd with hold | ⟨rfl, hnow⟩
    · exact (h.delayed y d hold).imp_right fun hy => ⟨hsends _ hy.1, hy.2⟩
    · obtain ⟨halloc, hsend⟩ := hdelayed d hnow.symm
      exact .inr ⟨hsend, h.running y halloc hnew⟩
  enough := by
    intro y hy
    refine (h.enough y hy).imp_right ?_
    rintro ⟨d, hd, hle⟩
    exact ⟨d, mem_finished_ended.mpr (.inl hd), Int.le_trans hle hclock⟩

theorem ProducerInv.requestFinished (h : ProducerInv consumers p) {request : NixlRequest}
    {blockIds : List Nat} (hcalls : Calls consumers p (.requestFinished request blockIds now)) :
    ∃ p', p.step (.requestFinished request blockIds now) = .ok p' ∧ ProducerInv consumers p' := by
  obtain ⟨hreads, hnew, hclock, halloc⟩ := hcalls
  unfold Producer.step
  dsimp only
  rcases requestFinished_cases p.scheduler hreads blockIds now with
    ⟨hdelays, hcall⟩ | ⟨-, s', hs', hcall⟩
  · -- The deadline goes to the end of the requests to send.
    have hkey : request.requestId ∉ p.scheduler.reqsNeedSend.keys := by
      intro hkey
      obtain ⟨e, he, heq⟩ := mem_map.mp hkey
      exact hnew (heq ▸ mem_finishedIds (h.pending.sends e (scheduler_send_pending he)))
    have hsends : pendingSends (ended p { p.scheduler with
        reqsNeedSend := p.scheduler.reqsNeedSend.insert request.requestId
          (now + p.scheduler.abortRequestTimeout) } request.requestId
        (some (now + p.scheduler.abortRequestTimeout)) now) =
        pendingSends p ++ [(request.requestId, now + p.scheduler.abortRequestTimeout)] := by
      unfold pendingSends ended
      dsimp only
      rw [PyDict.entries_insert_of_not_mem _ hkey]
      simp
    rw [hcall]
    refine ⟨ended p _ request.requestId (some (now + p.scheduler.abortRequestTimeout)) now, rfl,
      ⟨h.noReceive.worker, h.noReceive.scheduler, h.noReceive.metadata, h.noReceive.batch⟩, ?_, ?_⟩
    · exact h.pending.ended hnew hclock rfl (.inr ⟨_, rfl, rfl, hsends⟩) fun y hy => .inl hy
    · refine h.accounted.ended hnew hclock ?_ ?_
      · intro e he
        rw [hsends]
        exact mem_append_left _ he
      · intro d hd
        cases hd
        rw [hsends]
        exact ⟨halloc hdelays, mem_append_right _ (mem_singleton_self _)⟩
  · -- Nothing is to be sent.
    rw [hcall]
    have hsame : s'.reqsNeedSend = p.scheduler.reqsNeedSend ∧
        s'.reqsNeedRecv = p.scheduler.reqsNeedRecv ∧ s'.reqsInBatch = p.scheduler.reqsInBatch ∧
        s'.abortRequestTimeout = p.scheduler.abortRequestTimeout ∧
        ∀ y ∈ s'.reqsNotProcessed, y ∈ p.scheduler.reqsNotProcessed ∨
          y = request.requestId ∧ (none : Option Int) = none := by
      rcases hs' with rfl | rfl
      · exact ⟨rfl, rfl, rfl, rfl, fun y hy => .inl hy⟩
      · refine ⟨rfl, rfl, rfl, rfl, fun y hy => ?_⟩
        exact (mem_insert_iff.mp hy).symm.imp_right fun hy => ⟨hy, rfl⟩
    obtain ⟨hsend, hrecv, hbatch, htimeout, hnot⟩ := hsame
    have hsends : pendingSends (ended p s' request.requestId none now) = pendingSends p := by
      unfold pendingSends ended
      rw [hsend]
    refine ⟨ended p s' request.requestId none now, rfl, ⟨h.noReceive.worker,
      hrecv.trans h.noReceive.scheduler, h.noReceive.metadata, hbatch.trans h.noReceive.batch⟩,
      ?_, ?_⟩
    · exact h.pending.ended hnew hclock htimeout (.inl hsends) hnot
    · refine h.accounted.ended hnew hclock ?_ ?_
      · intro e he
        rw [hsends]
        exact he
      · intro d hd
        cases hd

/-! ### The worker -/

/-- What a step of the worker leaves of `Pending`: it only drops requests to send, and steps that it
has begun. -/
theorem Pending.of_sublist (h : Pending p) (hfinished : p'.finished = p.finished)
    (htimeout : p'.scheduler.abortRequestTimeout = p.scheduler.abortRequestTimeout)
    (hclock : p.clock ≤ p'.clock) (hsends : (pendingSends p').Sublist (pendingSends p))
    (hnot : ∀ x ∈ pendingNotProcessed p', x ∈ pendingNotProcessed p)
    (hflight : p'.inFlight.Sublist p.inFlight)
    (hworker : ∀ e ∈ p'.worker.reqsToSend.entries, ∀ m ∈ p'.inFlight, e.1 ∉ m.reqsInBatch) :
    Pending p' where
  finished := by
    unfold finishedIds
    rw [hfinished]
    exact h.finished
  sends e he := by
    rw [hfinished]
    exact h.sends e (hsends.subset he)
  notProcessed x hx := by
    rw [hfinished]
    exact h.notProcessed x (hnot x hx)
  keys := (hsends.map Prod.fst).nodup h.keys
  sorted := h.sorted.sublist hsends
  bound e he := by
    have := h.bound e (hsends.subset he)
    omega
  worker := hworker
  own m hm := h.own m (hflight.subset hm)
  later := h.later.sublist hflight

/-- A request whose free is delayed is not among those not to process. -/
theorem Pending.not_notProcessed (h : Pending p) {d : Int} (hd : (x, some d) ∈ p.finished) :
    x ∉ pendingNotProcessed p := by
  intro hx
  have := h.finished_unique hd (h.notProcessed x hx)
  cases this

theorem mem_pendingNotProcessed {m : NixlConnectorMetadata} (hm : m ∈ p.inFlight)
    (h : x ∈ m.reqsNotProcessed) : x ∈ pendingNotProcessed p :=
  mem_append_left _ (mem_flatMap.mpr ⟨m, hm, h⟩)

/-- The producer after the worker has begun its next step. -/
def begun (p : Producer) (worker : NixlConnectorWorker) (inFlight : List NixlConnectorMetadata) :
    Producer :=
  { p with
    worker
    inFlight }

theorem startLoadKv_ok (h : ProducerInv consumers p) {m : NixlConnectorMetadata}
    {rest : List NixlConnectorMetadata} (hflight : p.inFlight = m :: rest) :
    ∃ w', p.step .startLoadKv = .ok (begun p w' rest) ∧ Loaded m p.worker w' := by
  have hm : m ∈ p.inFlight := by
    rw [hflight]
    exact mem_cons_self
  obtain ⟨w', hload, hspec⟩ := startLoadKv_spec (fun _ => none)
    (h.noReceive.metadata m hm) h.noReceive.worker h.accounted.processNodup (by
      intro x hx
      by_contra hcontains
      rw [Bool.not_eq_false, contains_reqsToSend] at hcontains
      obtain ⟨d, hd⟩ := hcontains
      exact h.pending.not_notProcessed (h.pending.sends _ (worker_send_pending hd))
        (mem_pendingNotProcessed hm hx)) (by
      intro e he hkey
      obtain ⟨e', he', heq⟩ := mem_map.mp hkey
      have hkeys := h.pending.keys
      unfold pendingSends at hkeys
      rw [map_append] at hkeys
      refine (nodup_append.mp hkeys).2.2 e.1 hkey e.1 ?_ rfl
      refine mem_map.mpr ⟨e, mem_append_left _ ?_, rfl⟩
      exact mem_flatMap.mpr ⟨m, hm, he⟩)
  refine ⟨w', ?_, hspec⟩
  unfold Producer.step
  dsimp only
  rw [hflight]
  dsimp only
  rw [hload]
  rfl

section Load
variable {m : NixlConnectorMetadata} {rest : List NixlConnectorMetadata} {w' : NixlConnectorWorker}

theorem pendingSends_begun (hflight : p.inFlight = m :: rest) (hload : Loaded m p.worker w') :
    (pendingSends (begun p w' rest)).Sublist (pendingSends p) := by
  unfold pendingSends begun
  rw [hflight, hload.send, flatMap_cons, append_assoc, append_assoc]
  exact (List.Sublist.refl _).append (filter_sublist.append (List.Sublist.refl _))

variable {x : String}

theorem awaited_of_begun (hflight : p.inFlight = m :: rest) (hload : Loaded m p.worker w')
    (h : Awaited (begun p w' rest) x) : Awaited p x := by
  unfold Awaited
  rw [hflight]
  rcases h with h | ⟨m', hm', h⟩
  · exact ((hload.process x).mp h).1.imp_right fun h => ⟨m, mem_cons_self, h⟩
  · exact .inr ⟨m', mem_cons_of_mem _ hm', h⟩

theorem awaited_begun (hflight : p.inFlight = m :: rest) (hload : Loaded m p.worker w')
    (h : Awaited p x) (hx : x ∉ m.reqsNotProcessed) :
    Awaited (begun p w' rest) x := by
  unfold Awaited at h
  rw [hflight] at h
  rcases h with h | ⟨m', hm', h⟩
  · exact .inl ((hload.process x).mpr ⟨.inl h, hx⟩)
  · rcases mem_cons.mp hm' with rfl | hm'
    · exact .inl ((hload.process x).mpr ⟨.inr h, hx⟩)
    · exact .inr ⟨m', hm', h⟩

/-- A request to send that is awaited is in the batches of the worker when its deadline comes: no
step in flight has it. -/
theorem process_of_send (h : ProducerInv consumers p) (hflight : p.inFlight = m :: rest) {d : Int}
    (hsend : (x, d) ∈ m.reqsToSend.entries) (hawaited : Awaited p x) :
    x ∈ p.worker.reqsToProcess := by
  rcases hawaited with hx | ⟨m', hm', hx⟩
  · exact hx
  · exfalso
    have hlater := h.pending.later
    rw [hflight] at hm' hlater
    rcases mem_cons.mp hm' with rfl | hm'
    · have hm' : m' ∈ p.inFlight := by
        rw [hflight]
        exact mem_cons_self
      exact h.pending.own m' hm' _ hsend hx
    · exact (pairwise_cons.mp hlater).1 m' hm' _ hsend hx

theorem ProducerInv.startLoadKv (h : ProducerInv consumers p) (hflight : p.inFlight = m :: rest)
    (hload : Loaded m p.worker w') : ProducerInv consumers (begun p w' rest) := by
  have hm : m ∈ p.inFlight := by
    rw [hflight]
    exact mem_cons_self
  have hrest : ∀ m' ∈ rest, m' ∈ p.inFlight := by
    intro m' hm'
    rw [hflight]
    exact mem_cons_of_mem _ hm'
  have hsublist := pendingSends_begun hflight hload
  have hkept : ∀ x d, (x, some d) ∈ p.finished → x ∉ m.reqsNotProcessed := fun x d hd hx =>
    h.pending.not_notProcessed hd (mem_pendingNotProcessed hm hx)
  have hsends : ∀ e ∈ w'.reqsToSend.entries, e ∈ p.worker.reqsToSend.entries ∨
      e ∈ m.reqsToSend.entries ∧ e.1 ∈ w'.reqsToProcess := by
    intro e he
    rw [hload.send] at he
    exact (mem_append.mp he).imp_right fun he => by
      simpa using mem_filter.mp he
  refine ⟨?_, ?_, ?_⟩
  · exact ⟨hload.idle, h.noReceive.scheduler, fun m' hm' => h.noReceive.metadata m' (hrest m' hm'),
      h.noReceive.batch⟩
  · refine h.pending.of_sublist rfl rfl (Int.le_refl _) hsublist ?_ ?_ ?_
    · intro x hx
      unfold pendingNotProcessed begun at hx
      unfold pendingNotProcessed
      rw [hflight, flatMap_cons, append_assoc]
      exact mem_append_right _ hx
    · show rest.Sublist p.inFlight
      rw [hflight]
      exact sublist_cons_self ..
    · intro e he m' hm'
      rcases hsends e he with he | ⟨he, -⟩
      · exact h.pending.worker e he m' (hrest m' hm')
      · have hlater := h.pending.later
        rw [hflight] at hlater
        exact (pairwise_cons.mp hlater).1 m' hm' e he
  · have hacc := h.accounted
    exact {
      processNodup := hload.processNodup
      sendsProcessed := by
        intro e he
        rcases hsends e he with he | ⟨-, hprocess⟩
        · refine (hload.process e.1).mpr ⟨.inl (hacc.sendsProcessed e he), ?_⟩
          exact hkept e.1 e.2 (h.pending.sends e (worker_send_pending he))
        · exact hprocess
      awaited := fun x hx => hacc.awaited x (awaited_of_begun hflight hload hx)
      running := by
        intro x hx hfinished
        refine awaited_begun hflight hload (hacc.running x hx hfinished) ?_
        intro hnot
        exact hfinished
          (mem_finishedIds (h.pending.notProcessed x (mem_pendingNotProcessed hm hnot)))
      doneFinished := hacc.doneFinished
      doneNodup := hacc.doneNodup
      delayed := by
        intro x d hd
        refine (hacc.delayed x d hd).imp_right ?_
        rintro ⟨hsend, hawaited⟩
        have hnot := hkept x d hd
        refine ⟨?_, awaited_begun hflight hload hawaited hnot⟩
        unfold pendingSends at hsend
        unfold pendingSends begun
        rw [hflight, flatMap_cons, append_assoc] at hsend
        rw [hload.send, append_assoc]
        rcases mem_append.mp hsend with hsend | hsend
        · exact mem_append_left _ hsend
        · refine mem_append_right _ ?_
          rcases mem_append.mp hsend with hsend | hsend
          · have hprocess := process_of_send h hflight hsend hawaited
            refine mem_append_left _ (mem_filter.mpr ⟨hsend, ?_⟩)
            exact decide_eq_true ((hload.process x).mpr ⟨.inl hprocess, hnot⟩)
          · exact mem_append_right _ hsend
      enough := hacc.enough
      counts := by
        intro x
        show counted w' x ≤ _
        rw [hload.counts]
        exact hacc.counts x }

end Load

/-- The producer after a `get_finished`. -/
def polled (p : Producer) (poll : Poll) (done : List String) (worker : NixlConnectorWorker) :
    Producer :=
  { p with
    worker
    notified := p.notified ++ poll.notifs.map Prod.fst
    doneSending := p.doneSending ++ done
    clock := poll.now }

/-- The requests to send of the worker are a first part of all of them. -/
theorem Pending.worker_sorted (h : Pending p) :
    p.worker.reqsToSend.entries.Pairwise fun a b => a.2 ≤ b.2 :=
  (pairwise_append.mp h.sorted).1

theorem getFinished_ok (h : ProducerInv consumers p) {poll : Poll}
    (hratio : ∀ n ∈ poll.notifs, n.2 = consumers n.1) :
    ∃ notified expired done w', p.step (.getFinished poll) = .ok (polled p poll done w') ∧
      Finished consumers poll notified expired done p.worker w' := by
  obtain ⟨notified, expired, done, w', hcall, hspec⟩ := getFinished_spec h.noReceive.worker
    h.accounted.sendsProcessed h.accounted.processNodup h.pending.worker_sorted hratio
  refine ⟨notified, expired, done, w', ?_, hspec⟩
  unfold Producer.step
  dsimp only
  rw [hcall]
  rfl

section Poll
variable {poll : Poll} {notified expired done : List String} {w' : NixlConnectorWorker}

variable {x : String}

theorem mem_done (hspec : Finished consumers poll notified expired done p.worker w') :
    x ∈ done ↔ x ∈ notified ++ expired := by
  rw [hspec.released.mem_done]
  simp

/-- A request that is returned has finished, and no step in flight has it. -/
theorem settled_of_done (h : ProducerInv consumers p)
    (hsettled : Settled consumers p (.getFinished poll))
    (hspec : Finished consumers poll notified expired done p.worker w') (hx : x ∈ done) :
    x ∈ finishedIds p ∧ ∀ m ∈ p.inFlight, x ∉ m.reqsInBatch := by
  have hprocess : x ∈ p.worker.reqsToProcess :=
    hspec.released.wasProcessed x ((mem_done hspec).mp hx)
  rcases mem_append.mp ((mem_done hspec).mp hx) with hx | hx
  · exact hsettled x (hspec.arrived x hx) hprocess (hspec.enough x hx)
  · obtain ⟨d, hd, -⟩ := hspec.passed x hx
    exact ⟨mem_finishedIds (h.pending.sends _ (worker_send_pending hd)), h.pending.worker _ hd⟩

theorem awaited_polled (h : ProducerInv consumers p)
    (hsettled : Settled consumers p (.getFinished poll))
    (hspec : Finished consumers poll notified expired done p.worker w') :
    Awaited (polled p poll done w') x ↔ Awaited p x ∧ x ∉ done := by
  show x ∈ w'.reqsToProcess ∨ (∃ m ∈ p.inFlight, x ∈ m.reqsInBatch) ↔
    (x ∈ p.worker.reqsToProcess ∨ ∃ m ∈ p.inFlight, x ∈ m.reqsInBatch) ∧ x ∉ done
  rw [hspec.released.removed.process, mem_done hspec]
  constructor
  · rintro (⟨hx, hnot⟩ | ⟨m, hm, hx⟩)
    · exact ⟨.inl hx, hnot⟩
    · refine ⟨.inr ⟨m, hm, hx⟩, fun hdone => ?_⟩
      exact (settled_of_done h hsettled hspec ((mem_done hspec).mpr hdone)).2 m hm hx
  · rintro ⟨hx | hx, hnot⟩
    · exact .inl ⟨hx, hnot⟩
    · exact .inr hx

theorem pendingSends_polled (hspec : Finished consumers poll notified expired done p.worker w') :
    (pendingSends (polled p poll done w')).Sublist (pendingSends p) := by
  unfold pendingSends polled
  dsimp only
  rw [hspec.released.removed.send]
  exact filter_sublist.append (List.Sublist.refl _)

/-- A request that is not returned stays among those to send. -/
theorem mem_pendingSends_polled
    (hspec : Finished consumers poll notified expired done p.worker w') {d : Int}
    (h : (x, d) ∈ pendingSends p) (hx : x ∉ done) :
    (x, d) ∈ pendingSends (polled p poll done w') := by
  rcases mem_append.mp h with h | h
  · refine mem_append_left _ (hspec.released.removed.mem_send.mpr ⟨h, ?_⟩)
    exact fun hnew => hx ((mem_done hspec).mpr hnew)
  · exact mem_append_right _ h

theorem ProducerInv.getFinished (h : ProducerInv consumers p)
    (hclock : p.clock ≤ poll.now) (hsettled : Settled consumers p (.getFinished poll))
    (hspec : Finished consumers poll notified expired done p.worker w') :
    ProducerInv consumers (polled p poll done w') := by
  have hremoved := hspec.released.removed
  have hacc := h.accounted
  refine ⟨?_, ?_, ?_⟩
  · exact ⟨hremoved.idle h.noReceive.worker, h.noReceive.scheduler, h.noReceive.metadata,
      h.noReceive.batch⟩
  · refine h.pending.of_sublist rfl rfl hclock (pendingSends_polled hspec) (fun x hx => hx)
      (List.Sublist.refl _) ?_
    intro e he
    exact h.pending.worker e (hremoved.mem_send.mp he).1
  · exact {
      processNodup := hremoved.processNodup hacc.processNodup
      sendsProcessed := hremoved.sendsProcessed hacc.sendsProcessed
      awaited := by
        intro x hx
        obtain ⟨hx, hnot⟩ := (awaited_polled h hsettled hspec).mp hx
        refine ⟨(hacc.awaited x hx).1, fun hdone => ?_⟩
        rcases mem_append.mp hdone with hold | hnew
        · exact (hacc.awaited x hx).2 hold
        · exact hnot hnew
      running := by
        intro x hx hfinished
        refine (awaited_polled h hsettled hspec).mpr ⟨hacc.running x hx hfinished, fun hdone => ?_⟩
        exact hfinished (settled_of_done h hsettled hspec hdone).1
      doneFinished := by
        intro x hx
        rcases mem_append.mp hx with hx | hx
        · exact hacc.doneFinished x hx
        · exact (settled_of_done h hsettled hspec hx).1
      doneNodup := by
        refine nodup_append.mpr ⟨hacc.doneNodup, hspec.released.nodup nodup_nil, ?_⟩
        -- What is returned was in a batch, so it had not been returned before.
        rintro x hold y hnew rfl
        have hprocess := hspec.released.wasProcessed x ((mem_done hspec).mp hnew)
        exact (hacc.awaited x (.inl hprocess)).2 hold
      delayed := by
        intro x d hd
        rcases hacc.delayed x d hd with hx | ⟨hsend, hawaited⟩
        · exact .inl (mem_append_left _ hx)
        · by_cases hdone : x ∈ done
          · exact .inl (mem_append_right _ hdone)
          · exact .inr ⟨mem_pendingSends_polled hspec hsend hdone,
              (awaited_polled h hsettled hspec).mpr ⟨hawaited, hdone⟩⟩
      enough := by
        intro x hx
        show consumers x ≤ (p.notified ++ poll.notifs.map Prod.fst).count x ∨
          ∃ d, (x, some d) ∈ p.finished ∧ d ≤ poll.now
        rw [count_append]
        rcases mem_append.mp hx with hx | hx
        · rcases hacc.enough x hx with hle | ⟨d, hd, hle⟩
          · exact .inl (Nat.le_trans hle (Nat.le_add_right ..))
          · exact .inr ⟨d, hd, Int.le_trans hle hclock⟩
        · rcases mem_append.mp ((mem_done hspec).mp hx) with hx | hx
          · have := hspec.enough x hx
            have := hacc.counts x
            left
            omega
          · obtain ⟨d, hd, hle⟩ := hspec.passed x hx
            exact .inr ⟨d, h.pending.sends _ (worker_send_pending hd), hle⟩
      counts := by
        intro x
        show counted w' x ≤ (p.notified ++ poll.notifs.map Prod.fst).count x
        rw [count_append]
        have := hspec.counts x
        have := hacc.counts x
        omega }

end Poll

/-! ### Runs -/

/-- No operation that fits raises. -/
theorem step_ok (h : ProducerInv consumers p) {op : ProducerOp} (hfits : Fits consumers p op) :
    ∃ p', p.step op = .ok p' ∧ ProducerInv consumers p' := by
  obtain ⟨hcalls, hsettled⟩ := hfits
  cases op with
  | schedule requests =>
    obtain ⟨batch, hstep, hmem⟩ := schedule_spec h.noReceive fun r hr => (hcalls r hr).1
    exact ⟨_, hstep, h.schedule hmem hcalls⟩
  | requestFinished request blockIds now => exact h.requestFinished hcalls
  | startLoadKv =>
    cases hflight : p.inFlight with
    | nil => exact absurd hflight hcalls
    | cons m rest =>
      obtain ⟨w', hstep, hload⟩ := startLoadKv_ok h hflight
      exact ⟨_, hstep, h.startLoadKv hflight hload⟩
  | getFinished poll =>
    obtain ⟨hclock, hratio⟩ := hcalls
    obtain ⟨notified, expired, done, w', hstep, hspec⟩ := getFinished_ok h hratio
    exact ⟨_, hstep, h.getFinished hclock hsettled hspec⟩

theorem ProducerInv.step (h : ProducerInv consumers p) {op : ProducerOp}
    (hfits : Fits consumers p op) (hstep : p.step op = .ok p') : ProducerInv consumers p' := by
  obtain ⟨p'', hstep', hinv⟩ := step_ok h hfits
  rw [hstep] at hstep'
  cases hstep'
  exact hinv

end

/-- A producer that has not seen a request. -/
def start (useHostBuffer : Bool) (abortRequestTimeout : Int) (blockSize : Nat) : Producer where
  scheduler := {
    useHostBuffer
    abortRequestTimeout }
  worker := { blockSize }

theorem producerInv_start (consumers : String → Nat) (useHostBuffer : Bool)
    (abortRequestTimeout : Int) (blockSize : Nat) :
    ProducerInv consumers (start useHostBuffer abortRequestTimeout blockSize) where
  noReceive := ⟨⟨rfl, rfl, rfl, rfl, rfl⟩, rfl, by simp [start], rfl⟩
  pending := by
    constructor <;> simp [start, finishedIds, pendingSends, pendingNotProcessed, PyDict.empty]
  accounted := by
    constructor <;> simp [start, finishedIds, pendingSends, Awaited, allocated, SendsProcessed,
      counted, PyDict.empty, PyDict.get?]

/-- Whether the producer still waits for the consumers of the request. -/
def tracked (p : Producer) (x : String) : Bool := allocated p x && x ∉ p.doneSending

/-- The worker has begun the step that carries the deadline of the request. -/
def Known (p : Producer) (e : String × Int) : Prop :=
  (∀ m ∈ p.inFlight, e ∉ m.reqsToSend.entries) ∧ e ∉ p.scheduler.reqsNeedSend.entries

/-- What a producer promises about the requests whose free the scheduler delayed.

- `once`: such a request is returned once, or it has not been returned and is still to be sent;
- `notEarly`: it is returned after the notifications of all its consumers, or after its deadline;
- `expires`: a `get_finished` at or after its deadline has returned it;
- `untracked`: notifications for other requests change nothing;
- `passes`: no call raises. -/
structure Releases (consumers : String → Nat) (p : Producer) : Prop where
  once : ∀ x d, (x, some d) ∈ p.finished →
    p.doneSending.count x = 1 ∨ p.doneSending.count x = 0 ∧ (x, d) ∈ pendingSends p
  notEarly : ∀ x d, (x, some d) ∈ p.finished → x ∈ p.doneSending →
    consumers x ≤ p.notified.count x ∨ d ≤ p.clock
  expires : ∀ poll p', Fits consumers p (.getFinished poll) → p.step (.getFinished poll) = .ok p' →
    ∀ x d, (x, some d) ∈ p.finished → Known p (x, d) → d ≤ poll.now → p'.doneSending.count x = 1
  untracked : ∀ poll : Poll, p.worker.getFinished poll =
    p.worker.getFinished { poll with notifs := poll.notifs.filter fun n => tracked p n.1 }
  passes : ∀ op, Fits consumers p op → ∃ p', p.step op = .ok p'

section
variable {consumers : String → Nat} {p : Producer}

/-- What the worker knows and has not returned has a deadline that has not passed. -/
theorem returned_of_expired (h : ProducerInv consumers p) {poll : Poll} {p' : Producer}
    (hfits : Fits consumers p (.getFinished poll)) (hstep : p.step (.getFinished poll) = .ok p')
    {x : String} {d : Int} (hd : (x, some d) ∈ p.finished) (hknown : Known p (x, d))
    (hnow : d ≤ poll.now) : x ∈ p'.doneSending := by
  obtain ⟨notified, expired, done, w', hstep', hspec⟩ := getFinished_ok h hfits.1.2
  rw [hstep] at hstep'
  cases hstep'
  have hinv := h.getFinished hfits.1.1 hfits.2 hspec
  rcases hinv.accounted.delayed x d hd with hx | ⟨hsend, -⟩
  · exact hx
  · exfalso
    rcases mem_append.mp hsend with hsend | hsend
    · have := hspec.left _ hsend
      omega
    · rcases mem_append.mp hsend with hsend | hsend
      · obtain ⟨m, hm, hsend⟩ := mem_flatMap.mp hsend
        exact hknown.1 m hm hsend
      · exact hknown.2 hsend

/-- Notifications for requests that are not tracked can be left out. -/
theorem getFinished_filter (h : ProducerInv consumers p) (poll : Poll) : p.worker.getFinished poll =
      p.worker.getFinished { poll with notifs := poll.notifs.filter fun n => tracked p n.1 } := by
  have htracked : ∀ x ∈ p.worker.reqsToProcess, tracked p x = true := by
    intro x hx
    have hawaited := h.accounted.awaited x (.inl hx)
    unfold tracked
    rw [hawaited.1, Bool.true_and]
    exact decide_eq_true hawaited.2
  unfold getFinished
  rw [getNewNotifs_filter (tracked p) poll.notifs h.accounted.sendsProcessed
    h.accounted.processNodup htracked]

theorem ProducerInv.releases (h : ProducerInv consumers p) : Releases consumers p where
  once x d hd := by
    by_cases hx : x ∈ p.doneSending
    · exact .inl (count_eq_one_of_mem h.accounted.doneNodup hx)
    · refine .inr ⟨count_eq_zero_of_not_mem hx, ?_⟩
      exact ((h.accounted.delayed x d hd).resolve_left hx).1
  notEarly x d hd hx := by
    refine (h.accounted.enough x hx).imp_right ?_
    rintro ⟨d', hd', hle⟩
    have := Option.some.inj (h.pending.finished_unique hd hd')
    omega
  expires poll p' hfits hstep x d hd hknown hnow := by
    refine count_eq_one_of_mem ?_ (returned_of_expired h hfits hstep hd hknown hnow)
    exact (h.step hfits hstep).accounted.doneNodup
  untracked := getFinished_filter h
  passes op hfits := by
    obtain ⟨p', hstep, -⟩ := step_ok h hfits
    exact ⟨p', hstep⟩

end

/-- In every run that fits, each request whose free is delayed is returned once and not too early. -/
theorem releases_of_run {consumers : String → Nat} {useHostBuffer : Bool}
    {abortRequestTimeout : Int} {blockSize : Nat} {p : Producer}
    (hrun : Run Producer.step (Fits consumers)
      (start useHostBuffer abortRequestTimeout blockSize) p) : Releases consumers p := by
  have hinv : ProducerInv consumers p := by
    refine hrun.invariant (ProducerInv consumers)
      (producerInv_start consumers useHostBuffer abortRequestTimeout blockSize) ?_
    intro p op p' h hfits hstep
    exact h.step hfits hstep
  exact hinv.releases

section Checks
variable (consumers : String → Nat) (p : Producer) (op : ProducerOp)

instance : Decidable (Calls consumers p op) := by
  unfold Calls
  cases op <;> infer_instance

instance : Decidable (Settled consumers p op) := by
  unfold Settled
  cases op <;> infer_instance

instance : Decidable (Fits consumers p op) := by
  unfold Fits
  infer_instance

end Checks

/-- The request `r` that a consumer will read. -/
def remoteRequest : NixlRequest where
  requestId := "r"
  status := .finishedLengthCapped
  kvTransferParams := some { doRemoteDecode := true }

/-- Two consumers, and a notification that comes a second time. -/
theorem releases_two_consumers : ∃ p, Run Producer.step (Fits fun _ => 2) (start false 8 16) p ∧
    p.doneSending = ["r"] ∧ Releases (fun _ => 2) p := by
  obtain ⟨p₀, p, hstart, hrun, hdone⟩ := exists_run_of_check Producer.step (Fits fun _ => 2)
    (fun p => p.doneSending = ["r"]) (.ok (start false 8 16))
    [.schedule [remoteRequest], .startLoadKv, .requestFinished remoteRequest [3] 1, .schedule [],
      .getFinished { notifs := [("r", 2)], now := 2 }, .startLoadKv,
      .getFinished { notifs := [("r", 2), ("r", 2)], now := 3 }] (by decide +kernel)
  cases hstart
  exact ⟨p, hrun, hdone, releases_of_run hrun⟩

/-- The request is resumed in a step that the worker has not begun when its last notification
comes. That step adds it to the batches again, so that it is returned a second time at its
deadline. -/
theorem released_twice : ∃ p, Run Producer.step (Calls fun _ => 1) (start false 8 16) p ∧
    ("r", some 9) ∈ p.finished ∧ p.doneSending.count "r" = 2 := by
  obtain ⟨p₀, p, hstart, hrun, hdone⟩ := exists_run_of_check Producer.step (Calls fun _ => 1)
    (fun p => ("r", some 9) ∈ p.finished ∧ p.doneSending.count "r" = 2)
    (.ok (start false 8 16))
    [.schedule [remoteRequest], .startLoadKv, .schedule [], .schedule [remoteRequest],
      .getFinished { now := 0 }, .requestFinished remoteRequest [3] 1, .startLoadKv,
      .getFinished { notifs := [("r", 1)], now := 2 }, .schedule [], .startLoadKv,
      .getFinished { now := 3 }, .startLoadKv, .getFinished { now := 9 }] (by decide +kernel)
  cases hstart
  exact ⟨p, hrun, hdone⟩

end Vllm.Proofs.Distributed.NixlProducer
