import Vllm.Proofs.Engine.Steps
import Vllm.Proofs.Sched.EncoderSteps

/-!
# `Vllm.Proofs.Engine.Encoder`: the encoder cache in runs of the engine

* `encoder_accounting`: in a decoder-only model the slots of the encoder cache add up, whatever
  the engine does.
-/

set_option autoImplicit false

namespace Vllm.Proofs.Engine

open Vllm.Lib Vllm.V1 Vllm.V1.Core Vllm.V1.Engine Vllm.Proofs.Core Vllm.Proofs.Sched

/-! ### Decoder-only models -/

/-- The hash of an encoder input of an added request stands for its content: `size` is the
number of embeddings of the item with a hash. -/
def AddsSized (size : String → Nat) (_ : EngineCore) : EngineOp → Prop
  | .addRequest args => ∀ feature ∈ args.mmFeatures,
      feature.mmPosition.getNumEmbeds = .ok (size feature.identifier)
  | _ => True

/-- The accounting of the encoder cache. -/
structure EncoderLaw (size : String → Nat) (m : EncoderCacheManager) : Prop where
  slots : m.numFreeSlots + ((m.cached.keys.map size).sum : Nat) = m.cacheSize
  freeableSlots : m.numFreeableSlots = m.numFreeSlots + ((m.freeable.keys.map size).sum : Nat)
  freeable : ∀ mmHash, mmHash ∈ m.freeable.keys ↔ m.cached.get? mmHash = some []
  numFreeSlots : 0 ≤ m.numFreeSlots ∧ m.numFreeSlots ≤ m.cacheSize
  numFreeableSlots : 0 ≤ m.numFreeableSlots ∧ m.numFreeableSlots ≤ m.cacheSize

theorem encoderLaw_of_inv {size : String → Nat} {m : EncoderCacheManager}
    (h : EncoderInv size m) : EncoderLaw size m where
  __ := h
  freeableSlots := by
    rw [h.freeableSlots, h.values_freeable]
  freeable mmHash := by
    rw [PyDict.mem_keys_iff, Option.isSome_iff_exists]
    constructor
    · rintro ⟨n, hn⟩
      exact ((h.freeable mmHash n).mp hn).1
    · intro hc
      exact ⟨size mmHash, (h.freeable mmHash _).mpr ⟨hc, rfl⟩⟩
  numFreeSlots := ⟨h.nonneg, h.numFreeSlots_le⟩
  numFreeableSlots := h.numFreeableSlots_bounds

theorem sized_addRequest {size : String → Nat} {s : Scheduler} {request : Request}
    (h : Sized size s) (hr : SizedBy size request) : Sized size (s.addRequest request) := by
  intro r
  show SizedBy size (Function.update s.objects s.numObjects request r)
  by_cases heq : r = s.numObjects
  · rw [heq, Function.update_self]
    exact hr
  · rw [Function.update_of_ne heq]
    exact h r

/-- The encoder cache of the engine is reached by calls of its methods. -/
theorem encoderCache_reached {size : String → Nat} {config : EngineConfig} {e0 e : EngineCore}
    (hstart : EngineCore.start config = .ok e0)
    (hdecoder : config.scheduler.isEncoderDecoder = false)
    (hrun : Run EngineCore.step (AddsSized size) e0 e) :
    EncoderOp.Reached size (.init false config.encoderCacheSize) e.scheduler.encoderCacheManager ∧
      DecoderOnly size e.scheduler ∧ QueueInv e.scheduler := by
  refine hrun.invariant (fun e => EncoderOp.Reached size (.init false config.encoderCacheSize)
    e.scheduler.encoderCacheManager ∧ DecoderOnly size e.scheduler ∧ QueueInv e.scheduler)
    ⟨?_, ?_, queueInv_start hstart⟩ ?_
  · obtain ⟨k, rfl⟩ := start_scheduler hstart
    show EncoderOp.Reached size _ (.init config.scheduler.isEncoderDecoder _)
    rw [hdecoder]
    exact .start
  · obtain ⟨k, rfl⟩ := start_scheduler hstart
    refine ⟨hdecoder, fun r feature hf => absurd hf List.not_mem_nil, ?_⟩
    show EncoderInv size (.init config.scheduler.isEncoderDecoder _)
    rw [hdecoder]
    exact encoderInv_init size _
  · rintro e op e' ⟨hreached, honly, hq⟩ hC hstep
    have hq' := queueInv_step hq hstep
    cases step_effect hstep with
    | add args request hinit heq =>
      subst heq
      have hs : SizedBy size request := by
        unfold SizedBy
        rw [(init_requestId hinit).2.1]
        exact hC
      exact ⟨hreached, ⟨honly.config, sized_addRequest honly.sized hs, honly.inv⟩, hq'⟩
    | schedule connector ec out s hsched heq =>
      subst heq
      obtain ⟨h1, h2⟩ := schedule_reached honly hq hsched
      exact ⟨hreached.trans h1, h2, hq'⟩
    | keeps _ hkeeps _ =>
      obtain ⟨h1, h2⟩ := keeps_reached honly hkeeps
      exact ⟨hreached.trans h1, h2, hq'⟩

/-- The encoder cache of an engine with a decoder-only model is reached by calls of its methods
as the scheduler issues them. After any such calls the slots add up, `can_allocate` does not
raise for an encoder input that a request has, and no call evicts an entry with a reference. -/
theorem encoder_accounting {size : String → Nat} {config : EngineConfig} {e₀ e : EngineCore}
    (hstart : EngineCore.start config = .ok e₀)
    (hdecoder : config.scheduler.isEncoderDecoder = false)
    (hrun : Run EngineCore.step (AddsSized size) e₀ e) :
    EncoderOp.Reached size (.init false config.encoderCacheSize) e.scheduler.encoderCacheManager ∧
      ∀ m, EncoderOp.Reached size (.init false config.encoderCacheSize) m →
        EncoderLaw size m ∧
        (∀ request i budget n, SizedBy size request → i < request.mmFeatures.length →
          ∃ b m', m.canAllocate request i budget n = .ok (b, m')) ∧
        (∀ op m', EncoderOp.Issued size m op → EncoderOp.apply m op = .ok m' →
          KeepsReferenced m m') := by
  refine ⟨(encoderCache_reached hstart hdecoder hrun).1, fun m hm => ?_⟩
  have hinv : EncoderInv size m := EncoderOp.Reached.inv hm (encoderInv_init size _)
  refine ⟨encoderLaw_of_inv hinv, fun request i budget n hs hi => ?_, fun op m' hop happly => ?_⟩
  · obtain ⟨b, m', hcan, -, -⟩ := canAllocate_spec budget n hinv hs hi
    exact ⟨b, m', hcan⟩
  · exact (EncoderOp.apply_spec op hinv hop happly).2

instance (size : String → Nat) (e : EngineCore) (op : EngineOp) : Decidable (AddsSized size e op) :=
  match op with
  | .addRequest args => inferInstanceAs (Decidable (∀ feature ∈ args.mmFeatures,
      feature.mmPosition.getNumEmbeds = .ok (size feature.identifier)))
  | .updateFromOutput _ _ | .grammarReady _ | .schedule _ _ | .finishRequests _ _ _
  | .updateDraftTokenIds _ _ | .resetPrefixCache _ => inferInstanceAs (Decidable True)

/-- Two requests at a time, and an encoder cache of `cacheSize` embeddings. -/
def imageConfig (policy : SchedulingPolicy) (cacheSize : Nat) : EngineConfig where
  scheduler := {
    policy
    maxNumRunningReqs := 2
    maxNumScheduledTokens := 8
    maxModelLen := 16
    blockSize := 2
    maxNumEncoderInputTokens := 8 }
  numGpuBlocks := 8
  kvCacheGroups := [.fullAttention 2]
  encoderCacheSize := cacheSize

/-- A prompt of four tokens, the first two of which stand for an image. -/
def imagePrompt (requestId image : String) (priority : Int) : Request.InitArgs where
  requestId
  promptTokenIds := some [0, 0, 1, 2]
  samplingParams := some { maxTokens := 8 }
  mmFeatures := [{ modality := "image", identifier := image, mmPosition := ⟨0, 2, none⟩ }]
  priority

/-- Two requests share an image, which is evicted for the image of a third one after they
ended. -/
theorem encoder_accounting_two_images : ∃ e₀ e : EngineCore,
    EngineCore.start (imageConfig .fcfs 3) = .ok e₀ ∧
      Run EngineCore.step (AddsSized fun _ => 2) e₀ e ∧
      e.scheduler.encoderCacheManager.cached.keys = ["dog"] ∧
      EncoderLaw (fun _ => 2) e.scheduler.encoderCacheManager := by
  obtain ⟨e₀, e, hstart, hrun, hkeys⟩ := exists_run_of_check EngineCore.step (AddsSized fun _ => 2)
    (fun e => e.scheduler.encoderCacheManager.cached.keys = ["dog"])
    (EngineCore.start (imageConfig .fcfs 3))
    [.addRequest (imagePrompt "a" "cat" 0),
      .addRequest (imagePrompt "b" "cat" 0),
      .schedule none none,
      .finishRequests none ["a", "b"] .finishedAborted,
      .addRequest (imagePrompt "c" "dog" 0),
      .schedule none none] (by decide +kernel)
  obtain ⟨hreached, hlaw⟩ := encoder_accounting hstart rfl hrun
  exact ⟨e₀, e, hstart, hrun, hkeys, (hlaw _ hreached).1⟩

end Vllm.Proofs.Engine
