import Vllm.Proofs.Sched.Moves

/-!
# `Vllm.Proofs.Sched.Finish`: the end of `schedule`

After the loops `schedule` builds the output and calls `_update_after_schedule`, which adds the
scheduled tokens to the computed ones, frees encoder inputs that are computed, and, in
`AsyncScheduler`, adds placeholders for the tokens to come.

* `afterSchedule`: what becomes of one request object.
* `finish_spec`: the output and the state after a call that does not raise.
-/

set_option autoImplicit false

namespace Vllm.Proofs.Sched

open Vllm.Lib Vllm.V1 Vllm.V1.Core

/-- A registered request is found under its own id. -/
def Known (s : Scheduler) : Prop :=
  ∀ reqId r, s.requests.get? reqId = some r → (s.objects r).requestId = reqId

/-- What `_update_after_schedule` of `AsyncScheduler` does to a scheduled request with `cur`
draft tokens. -/
def withPlaceholders (numSpecTokens cur : Nat) (request : Request) : Request :=
  if request.numComputedTokens = request.numTokens + request.numOutputPlaceholders + cur then
    { request with
      numOutputPlaceholders := request.numOutputPlaceholders + 1 + cur
      specTokenIds := List.replicate numSpecTokens (-1) }
  else request

/-- The number of tokens that are scheduled for the object behind `r`. -/
def scheduledFor (s : Scheduler) (numScheduledTokens : PyDict String Int) (r : ReqRef) :
    Option Int :=
  if s.requests.get? (s.objects r).requestId = some r then
    numScheduledTokens.get? (s.objects r).requestId
  else none

/-- What becomes of a request object in `_update_after_schedule`. -/
def afterSchedule (config : SchedulerConfig) (drafts : List Int) (n : Option Int)
    (request : Request) : Request :=
  match n with
  | none => request
  | some n =>
    let request := { request with numComputedTokens := request.numComputedTokens + n }
    if config.asyncScheduling then
      withPlaceholders config.numSpecTokens drafts.length request
    else request

/-! ### The encoder inputs that are computed -/

variable {s s' : Scheduler}

theorem freeEncoderInputs_cases {r : ReqRef} (h : s.freeEncoderInputs r = .ok s') :
    ∃ e, s' = { s with encoderCacheManager := e } ∧
      FreeSteps s s.encoderCacheManager e := by
  unfold Scheduler.freeEncoderInputs at h
  obtain ⟨e, he, h⟩ := bind_ok h
  cases h
  refine ⟨e, rfl, freeSteps_foldlM (fun e i e' h => ?_) _ _ _ he⟩
  obtain ⟨feature, -, h⟩ := bind_ok h
  split at h
  · exact .single ⟨r, i, h⟩
  · cases h
    exact .refl

/-! ### The loops of `_update_after_schedule` -/

/-- The states of the loops of `_update_after_schedule` differ in request objects and in the
encoder cache. -/
structure AfterFrame (s s' : Scheduler) : Prop where
  eq : s' = { s with
    objects := s'.objects
    encoderCacheManager := s'.encoderCacheManager }
  inputs : ∀ r, SameInputs (s'.objects r) (s.objects r)
  encoder : FreeSteps s s.encoderCacheManager s'.encoderCacheManager

theorem AfterFrame.refl (s : Scheduler) : AfterFrame s s := ⟨rfl, fun _ => ⟨rfl, rfl⟩, .refl⟩

theorem AfterFrame.requestId (h : AfterFrame s s') (r : ReqRef) :
    (s'.objects r).requestId = (s.objects r).requestId :=
  (h.inputs r).1

theorem AfterFrame.trans {s'' : Scheduler} (h : AfterFrame s s') (h' : AfterFrame s' s'') :
    AfterFrame s s'' where
  eq := by
    rw [h'.eq, h.eq]
  inputs r := ⟨(h'.inputs r).1.trans (h.inputs r).1, (h'.inputs r).2.trans (h.inputs r).2⟩
  encoder := h.encoder.trans (h'.encoder.of_sameInputs h.inputs)

theorem AfterFrame.requests (h : AfterFrame s s') : s'.requests = s.requests := by
  rw [h.eq]

theorem AfterFrame.config (h : AfterFrame s s') : s'.config = s.config := by
  rw [h.eq]

theorem AfterFrame.known (h : AfterFrame s s') (hk : Known s) : Known s' := by
  intro reqId r hr
  rw [h.requests] at hr
  exact (h.requestId r).trans (hk reqId r hr)

/-- Changing the counters of one request object. -/
theorem AfterFrame.of_modify {r : ReqRef} {f : Request → Request}
    (hf : ∀ request, SameInputs (f request) request) : AfterFrame s (s.modify r f) := by
  refine ⟨rfl, fun r' => ?_, .refl⟩
  show SameInputs (Function.update s.objects r _ r') (s.objects r')
  by_cases hr : r' = r
  · subst hr
    rw [Function.update_self]
    exact hf _
  · rw [Function.update_of_ne hr]
    exact ⟨rfl, rfl⟩

/-- The tokens that a list of entries schedules for the object behind `r`. -/
def entriesFor (s : Scheduler) (entries : List (String × Int)) (r : ReqRef) : Int :=
  if s.requests.get? (s.objects r).requestId = some r then
    (entries.lookup (s.objects r).requestId).getD 0
  else 0

/-- The scheduled tokens are added to the computed ones. -/
theorem advanceComputed_spec {entries : List (String × Int)} (hk : Known s)
    (hnodup : (entries.map Prod.fst).Nodup) (h : s.advanceComputed entries = .ok s') :
    AfterFrame s s' ∧ ∀ r, s'.objects r = { s.objects r with
      numComputedTokens := (s.objects r).numComputedTokens + entriesFor s entries r } := by
  induction entries generalizing s with
  | nil =>
    unfold Scheduler.advanceComputed at h
    cases h
    refine ⟨.refl _, fun r => ?_⟩
    simp [entriesFor]
  | cons entry rest ih =>
    obtain ⟨reqId, n⟩ := entry
    unfold Scheduler.advanceComputed at h
    split at h
    · cases h
    · rename_i r0 hr0
      obtain ⟨s2, h2, h⟩ := bind_ok h
      have hmod : AfterFrame s (s.modify r0 fun request => { request with
          numComputedTokens := request.numComputedTokens + n }) := .of_modify fun _ => ⟨rfl, rfl⟩
      have hframe : AfterFrame s s2 := by
        split at h2
        · obtain ⟨e, rfl, he⟩ := freeEncoderInputs_cases h2
          exact ⟨rfl, hmod.inputs, he.of_sameInputs hmod.inputs⟩
        · cases h2
          exact hmod
      have hobj : s2.objects = Function.update s.objects r0 { s.objects r0 with
          numComputedTokens := (s.objects r0).numComputedTokens + n } := by
        split at h2
        · obtain ⟨e, rfl, -⟩ := freeEncoderInputs_cases h2
          rfl
        · cases h2
          rfl
      have hnd := List.nodup_cons.mp hnodup
      obtain ⟨hrest, hspec⟩ := ih (hframe.known hk) hnd.2 h
      refine ⟨hframe.trans hrest, fun r => ?_⟩
      rw [hspec r]
      have hid : (s2.objects r).requestId = (s.objects r).requestId := hframe.requestId r
      by_cases hr : r = r0
      · subst hr
        have hlookup : rest.lookup (s.objects r).requestId = none := by
          rw [hk reqId r hr0]
          by_contra hne
          have := (PyDict.lookup_isSome_iff_mem_map_fst reqId rest).mp
            (Option.isSome_iff_ne_none.mpr hne)
          exact hnd.1 this
        have hzero : entriesFor s2 rest r = 0 := by
          unfold entriesFor
          rw [hid, hlookup]
          split <;> rfl
        have hval : entriesFor s ((reqId, n) :: rest) r = n := by
          unfold entriesFor
          rw [hk reqId r hr0, if_pos hr0, List.lookup_cons_self]
          rfl
        rw [hzero, hval, hobj, Function.update_self, add_zero]
      · have hsame : entriesFor s2 rest r = entriesFor s ((reqId, n) :: rest) r := by
          unfold entriesFor
          rw [hid, hframe.requests]
          split
          · rename_i hreg
            have hne : (s.objects r).requestId ≠ reqId := by
              rintro heq
              rw [heq, hr0] at hreg
              exact hr (Option.some.inj hreg).symm
            rw [List.lookup_cons, beq_eq_false_iff_ne.mpr hne]
          · rfl
        rw [hsame, hobj, Function.update_of_ne hr]

theorem addPlaceholders_eq (s : Scheduler) (r : ReqRef) (d : PyDict String (List Int)) :
    (s.addPlaceholders r d).2 = s.modify r (withPlaceholders s.config.numSpecTokens
      ((d.get? (s.objects r).requestId).getD []).length) := by
  unfold Scheduler.addPlaceholders
  dsimp only
  split
  · rename_i hc
    unfold Scheduler.modify
    rw [withPlaceholders, if_pos hc]
  · rename_i hc
    unfold Scheduler.modify
    rw [withPlaceholders, if_neg hc, Function.update_eq_self]

theorem withPlaceholders_inputs (m cur : Nat) (request : Request) :
    SameInputs (withPlaceholders m cur request) request := by
  unfold withPlaceholders
  split
  · exact ⟨rfl, rfl⟩
  · exact ⟨rfl, rfl⟩

variable {d : PyDict String (List Int)}

/-- The placeholders of the scheduled requests. -/
theorem placeholderLoop_spec {keys : List String} {b b' : Bool} (hk : Known s)
    (hnodup : keys.Nodup) (h : Scheduler.placeholderLoop d b s keys = .ok (b', s')) :
    AfterFrame s s' ∧ ∀ r, s'.objects r =
      if (s.objects r).requestId ∈ keys ∧ s.requests.get? (s.objects r).requestId = some r then
        withPlaceholders s.config.numSpecTokens
          ((d.get? (s.objects r).requestId).getD []).length (s.objects r)
      else s.objects r := by
  induction keys generalizing s b with
  | nil =>
    unfold Scheduler.placeholderLoop at h
    cases h
    exact ⟨.refl _, fun r => by simp⟩
  | cons reqId rest ih =>
    unfold Scheduler.placeholderLoop at h
    split at h
    · cases h
    · rename_i r0 hr0
      dsimp only at h
      rw [addPlaceholders_eq] at h
      have hframe : AfterFrame s (s.modify r0 (withPlaceholders s.config.numSpecTokens
          ((d.get? (s.objects r0).requestId).getD []).length)) :=
        .of_modify (withPlaceholders_inputs _ _)
      obtain ⟨hnotin, hnd⟩ := List.nodup_cons.mp hnodup
      obtain ⟨hrest, hspec⟩ := ih (hframe.known hk) hnd h
      refine ⟨hframe.trans hrest, fun r => ?_⟩
      rw [hspec r, hframe.requestId r, hframe.requests, hframe.config]
      by_cases hr : r = r0
      · subst hr
        have hid := hk reqId r hr0
        rw [if_neg (fun hc => hnotin (hid ▸ hc.1)),
          if_pos ⟨by rw [hid]; exact List.mem_cons_self, hid ▸ hr0⟩]
        exact Function.update_self ..
      · have hobj : (s.modify r0 (withPlaceholders s.config.numSpecTokens
            ((d.get? (s.objects r0).requestId).getD []).length)).objects r = s.objects r :=
          Function.update_of_ne hr _ _
        rw [hobj]
        have hiff : ((s.objects r).requestId ∈ rest ∧
            s.requests.get? (s.objects r).requestId = some r) ↔
            ((s.objects r).requestId ∈ reqId :: rest ∧
              s.requests.get? (s.objects r).requestId = some r) := by
          constructor
          · rintro ⟨hm, hreg⟩
            exact ⟨List.mem_cons_of_mem _ hm, hreg⟩
          · rintro ⟨hm, hreg⟩
            refine ⟨(List.mem_cons.mp hm).resolve_left fun heq => ?_, hreg⟩
            rw [heq, hr0] at hreg
            exact hr (Option.some.inj hreg).symm
        simp only [hiff]

/-- What `_update_after_schedule` does. -/
theorem updateAfterSchedule_spec {n : PyDict String Int} {b : Bool} (hk : Known s)
    (h : s.updateAfterSchedule n d = .ok (b, s')) :
    AfterFrame { s with finishedReqIds := [] } s' ∧ ∀ r, s'.objects r =
      afterSchedule s.config ((d.get? (s.objects r).requestId).getD [])
        (scheduledFor s n r) (s.objects r) := by
  unfold Scheduler.updateAfterSchedule at h
  obtain ⟨s1, h1, h⟩ := bind_ok h
  obtain ⟨hframe, hspec⟩ := advanceComputed_spec hk n.nodup h1
  have henc : FreeSteps { s with finishedReqIds := [] } s.encoderCacheManager
      s1.encoderCacheManager :=
    FreeSteps.of_sameInputs (s := s) (fun _ => ⟨rfl, rfl⟩) hframe.encoder
  have hframe' : AfterFrame { s with finishedReqIds := [] } { s1 with finishedReqIds := [] } :=
    ⟨by rw [hframe.eq], hframe.inputs, henc⟩
  have hfor : ∀ r, scheduledFor s n r = none → entriesFor s n.entries r = 0 := by
    intro r hr
    unfold scheduledFor at hr
    unfold entriesFor
    split
    · rename_i hreg
      rw [if_pos hreg] at hr
      show (n.get? (s.objects r).requestId).getD 0 = 0
      rw [hr]
      rfl
    · rfl
  have hfor' : ∀ r m, scheduledFor s n r = some m → entriesFor s n.entries r = m := by
    intro r m hr
    unfold scheduledFor at hr
    split at hr
    · rename_i hreg
      unfold entriesFor
      rw [if_pos hreg]
      show (n.get? (s.objects r).requestId).getD 0 = m
      rw [hr]
      rfl
    · cases hr
  dsimp only at h
  split at h
  · rename_i hasync
    rw [hframe.config] at hasync
    have hk1 : Known { s1 with finishedReqIds := [] } := hframe.known hk
    obtain ⟨hframe2, hspec2⟩ := placeholderLoop_spec hk1 n.nodup h
    refine ⟨hframe'.trans hframe2, fun r => ?_⟩
    rw [hspec2 r]
    show (if (s1.objects r).requestId ∈ n.keys ∧ s1.requests.get? (s1.objects r).requestId = some r
      then withPlaceholders s1.config.numSpecTokens
        ((d.get? (s1.objects r).requestId).getD []).length (s1.objects r) else s1.objects r) = _
    rw [hframe.requestId r, hframe.requests, hframe.config, hspec r]
    cases hm : scheduledFor s n r with
    | none =>
      rw [hfor r hm, if_neg]
      · simp [afterSchedule]
      · rintro ⟨hmem, hreg⟩
        unfold scheduledFor at hm
        rw [if_pos hreg] at hm
        rw [PyDict.mem_keys_iff, hm] at hmem
        cases hmem
    | some m =>
      rw [hfor' r m hm, if_pos]
      · simp [afterSchedule, hasync]
      · unfold scheduledFor at hm
        split at hm
        · rename_i hreg
          exact ⟨PyDict.mem_keys_of_get? hm, hreg⟩
        · cases hm
  · rename_i hasync
    rw [hframe.config] at hasync
    cases h
    refine ⟨hframe', fun r => ?_⟩
    show s1.objects r = _
    rw [hspec r]
    cases hm : scheduledFor s n r with
    | none =>
      rw [hfor r hm]
      simp [afterSchedule]
    | some m =>
      rw [hfor' r m hm]
      simp [afterSchedule, hasync]

/-! ### The output -/

/-- The common prefix blocks that go into the output, and the block tables after. -/
def commonPrefix (s : Scheduler) : List Nat × KVCacheManager :=
  match s.running with
  | [] => (List.replicate s.config.numKvCacheGroups 0, s.kvCacheManager)
  | r :: _ => s.kvCacheManager.getNumCommonPrefixBlocks (s.objects r).requestId

/-- What the end of `schedule` does with the result `p` of the loops. -/
structure Finished (p : SchedulePass) (out : SchedulerOutput) (s' : Scheduler) : Prop where
  numScheduledTokens : out.numScheduledTokens = p.numScheduledTokens
  total : out.totalNumScheduledTokens = p.numScheduledTokens.values.sum
  scheduledSpecDecodeTokens : out.scheduledSpecDecodeTokens = p.scheduledSpecDecodeTokens
  scheduledEncoderInputs : out.scheduledEncoderInputs = p.scheduledEncoderInputs
  finishedReqIds : out.finishedReqIds = p.s.finishedReqIds
  freeEncoderMmHashes : out.freeEncoderMmHashes = p.s.encoderCacheManager.freed
  frame : AfterFrame { p.s with
      kvCacheManager := (commonPrefix p.s).2
      encoderCacheManager := { p.s.encoderCacheManager with freed := [] }
      prevStepScheduledReqIds := p.numScheduledTokens.keys
      finishedReqIds := [] } s'
  objects : ∀ r, s'.objects r = afterSchedule p.s.config
    ((p.scheduledSpecDecodeTokens.get? (p.s.objects r).requestId).getD [])
    (scheduledFor p.s p.numScheduledTokens r) (p.s.objects r)

/-- The end of a call of `schedule` that does not raise. -/
theorem finish_spec {p : SchedulePass} {out : SchedulerOutput} (hk : Known p.s)
    (h : p.finish = .ok (out, s')) : Finished p out s' := by
  unfold SchedulePass.finish at h
  obtain ⟨-, -, h⟩ := bind_ok h
  obtain ⟨-, -, h⟩ := bind_ok h
  obtain ⟨-, -, h⟩ := bind_ok h
  obtain ⟨-, -, h⟩ := bind_ok h
  dsimp only at h
  obtain ⟨newReqsData, -, h⟩ := bind_ok h
  obtain ⟨cachedReqsData, -, h⟩ := bind_ok h
  obtain ⟨⟨pending, s1⟩, hafter, h⟩ := bind_ok h
  cases h
  have hspec := fun hk' => updateAfterSchedule_spec hk' hafter
  obtain ⟨hframe, hobj⟩ := hspec fun reqId r hr => hk reqId r hr
  exact ⟨rfl, rfl, rfl, rfl, rfl, rfl, hframe, hobj⟩

end Vllm.Proofs.Sched
