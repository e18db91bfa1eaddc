import Vllm.V1.Worker.DpUtils
import Vllm.Lib.MapM
import Vllm.Proofs.Worker.CudagraphDispatcher

/-!
# `Vllm.Proofs.Worker.DpAgreement`: data-parallel ranks agree on their batches

The ranks agree on the largest of their padded numbers of tokens (`tokensM`). Each of them chooses
again for this number, and knows of the others only whether all of them chose a full graph.

Two kinds of configuration break the agreement. With `cudagraph_mode` `FULL` the capture sizes are
not adjusted to speculative decoding, so the padded size of a uniform decode batch need not be
divisible (`GraphsAligned`). And without specialised LoRA graphs a batch without LoRA finds no key,
although the graphs are meant for it as well (`LoraAgrees`). Then one rank runs without a graph and
asks for its own number of tokens, where another one runs a piecewise graph.

* `redispatch`: on the agreed number, all ranks choose the same mode.
* `agrees_iff`: the ranks agree exactly when the two conditions hold.
-/

set_option autoImplicit false

namespace Vllm.Proofs.Worker

open Vllm.Lib Vllm.V1 Vllm.V1.Worker CudagraphDispatcher List

/-! ### The largest of a list -/

/-- The largest element, or 0. -/
def listMax (xs : List Nat) : Nat := xs.max?.getD 0

theorem le_listMax {xs : List Nat} {x : Nat} (hx : x ∈ xs) : x ≤ listMax xs := by
  unfold listMax
  cases hmax : xs.max? with
  | none =>
    rw [List.max?_eq_none_iff] at hmax
    rw [hmax] at hx
    exact absurd hx not_mem_nil
  | some m => exact (List.max?_eq_some_iff.mp hmax).2 x hx

theorem listMax_mem {xs : List Nat} (hne : xs ≠ []) : listMax xs ∈ xs := by
  unfold listMax
  cases hmax : xs.max? with
  | none => exact absurd (List.max?_eq_none_iff.mp hmax) hne
  | some m => exact (List.max?_eq_some_iff.mp hmax).1

/-! ### Agreement -/

/-- All ranks run the same kind of batch, and know how many tokens each of them runs. -/
structure Agrees (cfg : DpConfig) (batches : List Batch) (es : List Execution) : Prop where
  length : es.length = batches.length
  shouldUbatch : ∀ e ∈ es, ∀ e' ∈ es, e.shouldUbatch = e'.shouldUbatch
  numTokensAcrossDp : ∀ e ∈ es, ∀ e' ∈ es, e.numTokensAcrossDp = e'.numTokensAcrossDp
  cudagraphMode : ∀ e ∈ es, ∀ e' ∈ es, e.cudagraphMode = e'.cudagraphMode
  own : ∀ (r : Nat) b e, batches[r]? = some b → es[r]? = some e →
    b.numTokens ≤ e.batchDescriptor.numTokens
  exchanged : 1 < batches.length → ∀ e ∈ es, ∃ tokens, e.numTokensAcrossDp = some tokens
  entry : ∀ (r : Nat) e tokens, es[r]? = some e → e.numTokensAcrossDp = some tokens →
    tokens.length = batches.length ∧ dpMetadataMake e.batchDescriptor.numTokens tokens r = .ok ()
  equal : ∀ e ∈ es, ∀ tokens, e.numTokensAcrossDp = some tokens →
    (cfg.cudagraphMode ≠ .none ∨ e.shouldUbatch = true) →
      ∀ n ∈ tokens, n = e.batchDescriptor.numTokens

/-- The ranks run, and agree. -/
def RanksAgree (cfg : DpConfig) (forceEager : Bool) (batches : List Batch) : Prop :=
  ∃ es, runRanks cfg forceEager batches = .ok es ∧ Agrees cfg batches es

/-- The largest number of tokens of a rank, before a graph is chosen. -/
def mostTokens (cfg : DpConfig) (batches : List Batch) : Nat :=
  listMax (batches.map (·.spTokens cfg))

/-- With `cudagraph_mode` `FULL`: a rank with a uniform decode batch finds a divisible capture size
for its own tokens, and for those of the largest rank. -/
def GraphsAligned (cfg : DpConfig) (batches : List Batch) : Prop :=
  cfg.cudagraphMode = .full → ∀ b ∈ batches, b.uniformDecode cfg = true →
    ∀ t, t = b.spTokens cfg ∨ t = mostTokens cfg batches →
      t ≤ cfg.vllmConfig.compilationConfig.maxCudagraphCaptureSize →
        ∀ k, cfg.vllmConfig.compilationConfig.padForCudagraph t = .ok k →
          k % cfg.vllmConfig.uniformDecodeQueryLen = 0

/-- With piecewise graphs that are not specialised on LoRA: all ranks run with LoRA, or none does,
unless one of them is too large for a graph. -/
def LoraAgrees (cfg : DpConfig) (batches : List Batch) : Prop :=
  cfg.cudagraphMode.mixedMode = .piecewise → cfg.vllmConfig.lora = true →
    cfg.vllmConfig.compilationConfig.cudagraphSpecializeLora = false →
      0 < mostTokens cfg batches →
        mostTokens cfg batches ≤ cfg.vllmConfig.compilationConfig.maxCudagraphCaptureSize →
          (∀ b ∈ batches, b.hasLora = true) ∨ ∀ b ∈ batches, b.hasLora = false

section
variable {cfg : DpConfig} {batches : List Batch}

/-! ### The first choice -/

/-- What a rank has chosen: no graph for its own tokens, or a graph for the padded ones. -/
inductive Chosen (cfg : DpConfig) (b : Batch) : CUDAGraphMode × BatchDescriptor → Prop where
  | none (desc : BatchDescriptor) (hsize : desc.numTokens = b.spTokens cfg)
      (hnot : Fits cfg.dispatcher (b.spTokens cfg) → ¬HasPiecewise cfg.dispatcher
        (padTo cfg.vllmConfig.compilationConfig (b.spTokens cfg)) b.hasLora) :
      Chosen cfg b (.none, desc)
  | piecewise (desc : BatchDescriptor) (hfits : Fits cfg.dispatcher (b.spTokens cfg))
      (hsize : desc.numTokens = padTo cfg.vllmConfig.compilationConfig (b.spTokens cfg))
      (hkey : HasPiecewise cfg.dispatcher
        (padTo cfg.vllmConfig.compilationConfig (b.spTokens cfg)) b.hasLora) :
      Chosen cfg b (.piecewise, desc)
  | full (desc : BatchDescriptor) (hfits : Fits cfg.dispatcher (b.spTokens cfg))
      (hsize : desc.numTokens = padTo cfg.vllmConfig.compilationConfig (b.spTokens cfg))
      (hfull : HasFull cfg.dispatcher (padTo cfg.vllmConfig.compilationConfig (b.spTokens cfg))
        (b.uniformDecode cfg) b.hasLora) :
      Chosen cfg b (.full, desc)

/-- A rank whose assertion holds chooses. -/
theorem chooseGraph_of_divisible (hd : Initialized cfg.dispatcher) (b : Batch)
    (hdiv : Fits cfg.dispatcher (b.spTokens cfg) → Divisible cfg.dispatcher
      (padTo cfg.vllmConfig.compilationConfig (b.spTokens cfg)) (b.uniformDecode cfg)) :
    ∃ c, b.chooseGraph cfg false = .ok c ∧ Chosen cfg b c := by
  unfold Batch.chooseGraph Batch.dispatchCudagraph
  rw [if_neg Bool.false_ne_true]
  generalize (b.useCascadeAttn || b.hasEncoderOutput cfg) = disableFull
  by_cases hfits : Fits cfg.dispatcher (b.spTokens cfg)
  · by_cases hfull : disableFull = false ∧ HasFull cfg.dispatcher
        (padTo cfg.vllmConfig.compilationConfig (b.spTokens cfg)) (b.uniformDecode cfg) b.hasLora
    · obtain ⟨rfl, hfull⟩ := hfull
      obtain ⟨desc, hcall, hsize⟩ := dispatch_full hd hfits (hdiv hfits) hfull
      exact ⟨_, hcall, .full desc hfits hsize hfull⟩
    · have hnot : disableFull = true ∨ ¬HasFull cfg.dispatcher
          (padTo cfg.vllmConfig.compilationConfig (b.spTokens cfg)) (b.uniformDecode cfg)
          b.hasLora := by
        rw [not_and_or, Bool.not_eq_false] at hfull
        exact hfull
      obtain ⟨hpiecewise, hnone⟩ := dispatch_not_full hd hfits (hdiv hfits) hnot
      by_cases hkey : HasPiecewise cfg.dispatcher
          (padTo cfg.vllmConfig.compilationConfig (b.spTokens cfg)) b.hasLora
      · exact ⟨_, hpiecewise hkey, .piecewise _ hfits rfl hkey⟩
      · exact ⟨_, hnone hkey, .none _ rfl fun _ => hkey⟩
  · exact ⟨_, dispatch_of_not_fits hfits, .none _ rfl fun h => absurd h hfits⟩

/-- The assertion held of a rank that has chosen. -/
theorem divisible_of_chooseGraph {b : Batch} {c : CUDAGraphMode × BatchDescriptor}
    (h : b.chooseGraph cfg false = .ok c) (hfits : Fits cfg.dispatcher (b.spTokens cfg)) :
    Divisible cfg.dispatcher (padTo cfg.vllmConfig.compilationConfig (b.spTokens cfg))
      (b.uniformDecode cfg) :=
  divisible_of_dispatch hfits h

theorem chosen_of_chooseGraph (hd : Initialized cfg.dispatcher) {b : Batch}
    {c : CUDAGraphMode × BatchDescriptor} (h : b.chooseGraph cfg false = .ok c) :
    Chosen cfg b c := by
  obtain ⟨c', h', hchosen⟩ := chooseGraph_of_divisible hd b (divisible_of_chooseGraph h)
  rw [h] at h'
  cases h'
  exact hchosen

namespace Chosen
variable {b : Batch} {c : CUDAGraphMode × BatchDescriptor}

/-- The size that was chosen: the tokens, or the next capture size. -/
theorem size (h : Chosen cfg b c) : c.2.numTokens = b.spTokens cfg ∨
    Fits cfg.dispatcher (b.spTokens cfg) ∧
      c.2.numTokens = padTo cfg.vllmConfig.compilationConfig (b.spTokens cfg) := by
  cases h with
  | none desc hsize _ => exact .inl hsize
  | piecewise desc hfits hsize _ => exact .inr ⟨hfits, hsize⟩
  | full desc hfits hsize _ => exact .inr ⟨hfits, hsize⟩

theorem le_size (h : Chosen cfg b c) : b.spTokens cfg ≤ c.2.numTokens := by
  rcases h.size with hsize | ⟨hfits, hsize⟩
  · exact Nat.le_of_eq hsize.symm
  · rw [hsize]
    exact le_padTo hfits.2

/-- The size that was chosen has the same next capture size. -/
theorem size_le_max (h : Chosen cfg b c)
    (hle : b.spTokens cfg ≤ cfg.vllmConfig.compilationConfig.maxCudagraphCaptureSize) :
    c.2.numTokens ≤ cfg.vllmConfig.compilationConfig.maxCudagraphCaptureSize ∧
      padTo cfg.vllmConfig.compilationConfig c.2.numTokens =
        padTo cfg.vllmConfig.compilationConfig (b.spTokens cfg) := by
  rcases h.size with hsize | ⟨hfits, hsize⟩
  · rw [hsize]
    exact ⟨hle, rfl⟩
  · rw [hsize]
    exact ⟨padTo_le_max hle, padTo_padTo hle⟩

end Chosen

/-! ### The agreed number of tokens -/

/-- What every rank has chosen. -/
def AllChosen (cfg : DpConfig) (batches : List Batch)
    (chosen : List (CUDAGraphMode × BatchDescriptor)) : Prop :=
  List.Forall₂ (Chosen cfg) batches chosen

/-- The largest of the sizes that were chosen. -/
def tokensM (chosen : List (CUDAGraphMode × BatchDescriptor)) : Nat :=
  listMax (chosen.map (·.2.numTokens))

section Tokens
variable {chosen : List (CUDAGraphMode × BatchDescriptor)}

theorem exists_left {b : Batch} (h : AllChosen cfg batches chosen) (hb : b ∈ batches) :
    ∃ c ∈ chosen, Chosen cfg b c := by
  induction h with
  | nil => exact absurd hb not_mem_nil
  | cons hc _ ih =>
    rcases mem_cons.mp hb with rfl | hb
    · exact ⟨_, mem_cons_self, hc⟩
    · obtain ⟨c, hc, h⟩ := ih hb
      exact ⟨c, mem_cons_of_mem _ hc, h⟩

theorem exists_right {c : CUDAGraphMode × BatchDescriptor} (h : AllChosen cfg batches chosen)
    (hc : c ∈ chosen) : ∃ b ∈ batches, Chosen cfg b c := by
  induction h with
  | nil => exact absurd hc not_mem_nil
  | cons hbc _ ih =>
    rcases mem_cons.mp hc with rfl | hc
    · exact ⟨_, mem_cons_self, hbc⟩
    · obtain ⟨b, hb, h⟩ := ih hc
      exact ⟨b, mem_cons_of_mem _ hb, h⟩

theorem le_tokensM {c : CUDAGraphMode × BatchDescriptor} (hc : c ∈ chosen) :
    c.2.numTokens ≤ tokensM chosen :=
  le_listMax (mem_map.mpr ⟨c, hc, rfl⟩)

theorem tokensM_mem (hne : chosen ≠ []) : ∃ c ∈ chosen, tokensM chosen = c.2.numTokens := by
  have hmem : tokensM chosen ∈ chosen.map (·.2.numTokens) := listMax_mem (by simpa using hne)
  obtain ⟨c, hc, heq⟩ := mem_map.mp hmem
  exact ⟨c, hc, heq.symm⟩

theorem le_mostTokens {b : Batch} (hb : b ∈ batches) : b.spTokens cfg ≤ mostTokens cfg batches :=
  le_listMax (mem_map.mpr ⟨b, hb, rfl⟩)

theorem mostTokens_mem (cfg : DpConfig) (hne : batches ≠ []) :
    ∃ b ∈ batches, mostTokens cfg batches = b.spTokens cfg := by
  have hmem : mostTokens cfg batches ∈ batches.map (·.spTokens cfg) :=
    listMax_mem (by simpa using hne)
  obtain ⟨b, hb, heq⟩ := mem_map.mp hmem
  exact ⟨b, hb, heq.symm⟩

theorem mostTokens_le_tokensM (h : AllChosen cfg batches chosen) (hne : batches ≠ []) :
    mostTokens cfg batches ≤ tokensM chosen := by
  obtain ⟨b, hb, heq⟩ := mostTokens_mem cfg hne
  obtain ⟨c, hc, hchosen⟩ := exists_left h hb
  rw [heq]
  exact Nat.le_trans hchosen.le_size (le_tokensM hc)

theorem chosen_ne_nil (h : AllChosen cfg batches chosen) (hne : batches ≠ []) : chosen ≠ [] := by
  rintro rfl
  exact hne (forall₂_nil_right_iff.mp h)

/-- The agreed number fits the largest graph when the tokens of all ranks do, and is then padded as
those of the largest rank. -/
theorem tokensM_spec (h : AllChosen cfg batches chosen) (hne : batches ≠ [])
    (hle : mostTokens cfg batches ≤ cfg.vllmConfig.compilationConfig.maxCudagraphCaptureSize) :
    tokensM chosen ≤ cfg.vllmConfig.compilationConfig.maxCudagraphCaptureSize ∧
      padTo cfg.vllmConfig.compilationConfig (tokensM chosen) =
        padTo cfg.vllmConfig.compilationConfig (mostTokens cfg batches) := by
  obtain ⟨c, hc, heq⟩ := tokensM_mem (chosen_ne_nil h hne)
  obtain ⟨b, hb, hchosen⟩ := exists_right h hc
  obtain ⟨hsize, hpad⟩ := hchosen.size_le_max (Nat.le_trans (le_mostTokens hb) hle)
  rw [← heq] at hsize hpad
  refine ⟨hsize, Nat.le_antisymm ?_ ?_⟩
  · rw [hpad]
    exact padTo_mono (le_mostTokens hb) hle
  · exact padTo_mono (mostTokens_le_tokensM h hne) hsize

end Tokens

/-! ### The second choice -/

/-- No batch has LoRA unless it is configured. -/
def LorasKnown (cfg : DpConfig) (batches : List Batch) : Prop :=
  ∀ b ∈ batches, b.hasLora = true → cfg.vllmConfig.lora = true

section Redispatch
variable {chosen : List (CUDAGraphMode × BatchDescriptor)}

theorem mode_full_of_hasMode {mode : CUDAGraphMode} (h : mode.hasMode .full = true)
    (hseparate : ¬mode.separateRoutine = true) : mode = .full := by
  cases mode <;> first | rfl | exact absurd rfl hseparate | cases h

/-- The agreed number is divisible where a uniform decode batch needs it. -/
theorem divisible_tokensM (hd : Initialized cfg.dispatcher) (h : AllChosen cfg batches chosen)
    (hne : batches ≠ []) (halign : GraphsAligned cfg batches)
    (hle : mostTokens cfg batches ≤ cfg.vllmConfig.compilationConfig.maxCudagraphCaptureSize)
    {b : Batch} (hb : b ∈ batches) : Divisible cfg.dispatcher
      (padTo cfg.vllmConfig.compilationConfig (tokensM chosen)) (b.uniformDecode cfg) := by
  intro huniform hfull
  rw [(tokensM_spec h hne hle).2]
  by_cases hseparate : cfg.dispatcher.cfg.compilationConfig.cudagraphMode.separateRoutine = true
  · rcases padTo_mem hle with hmem | ⟨-, hzero⟩
    · exact hd.aligned hseparate _ hmem
    · rw [hzero, Nat.zero_mod]
  · exact halign (mode_full_of_hasMode hfull hseparate) b hb huniform _ (.inr rfl) hle _
      (padForCudagraph_eq hle)

/-- The LoRA cases of the ranks: graphs for all of them or for none, unless there are no tokens. -/
theorem loraCases_agree (hknown : LorasKnown cfg batches) (hlora : LoraAgrees cfg batches)
    (hmixed : cfg.cudagraphMode.mixedMode = .piecewise)
    (hle : mostTokens cfg batches ≤ cfg.vllmConfig.compilationConfig.maxCudagraphCaptureSize) :
    mostTokens cfg batches = 0 ∨ (∀ b ∈ batches, b.hasLora ∈ cfg.vllmConfig.loraCases) ∨
      ∀ b ∈ batches, b.hasLora ∉ cfg.vllmConfig.loraCases := by
  unfold VllmConfig.loraCases
  cases hconf : cfg.vllmConfig.lora with
  | false =>
    refine .inr (.inl fun b hb => ?_)
    have hno : b.hasLora = false := by
      cases hb' : b.hasLora with
      | false => rfl
      | true =>
        have := hknown b hb hb'
        rw [hconf] at this
        cases this
    rw [hno]
    exact mem_singleton_self _
  | true =>
    cases hspecial : cfg.vllmConfig.compilationConfig.cudagraphSpecializeLora with
    | true =>
      refine .inr (.inl fun b _ => ?_)
      cases b.hasLora <;> simp
    | false =>
      rcases Nat.eq_zero_or_pos (mostTokens cfg batches) with hzero | hpos
      · exact .inl hzero
      · rcases hlora hmixed hconf hspecial hpos hle with hall | hnone
        · refine .inr (.inl fun b hb => ?_)
          rw [hall b hb]
          simp
        · refine .inr (.inr fun b hb => ?_)
          rw [hnone b hb]
          simp

/-- When every rank has a piecewise graph for its size, the agreed number is a capture size, or
there are no tokens. -/
theorem padTo_tokensM (h : AllChosen cfg batches chosen) (hne : batches ≠ [])
    (hmode : cfg.cudagraphMode ≠ .none) (hmixed : cfg.cudagraphMode.mixedMode = .piecewise)
    (hcases : ∀ b ∈ batches, b.hasLora ∈ cfg.vllmConfig.loraCases)
    (hle : mostTokens cfg batches ≤ cfg.vllmConfig.compilationConfig.maxCudagraphCaptureSize) :
    padTo cfg.vllmConfig.compilationConfig (tokensM chosen) = tokensM chosen := by
  obtain ⟨c, hc, heq⟩ := tokensM_mem (chosen_ne_nil h hne)
  obtain ⟨b, hb, hchosen⟩ := exists_right h hc
  have hsp := Nat.le_trans (le_mostTokens hb) hle
  rw [heq]
  cases hchosen with
  | none desc hsize hnot =>
    rcases padTo_mem hsp with hmem | ⟨hzero, -⟩
    · exact absurd ⟨hmixed, hmem, hcases b hb⟩ (hnot ⟨hmode, hsp⟩)
    · show padTo _ desc.numTokens = desc.numTokens
      rw [hsize, hzero, padTo_zero]
  | piecewise desc hfits hsize _ =>
    show padTo _ desc.numTokens = desc.numTokens
    rw [hsize]
    exact padTo_padTo hsp
  | full desc hfits hsize _ =>
    show padTo _ desc.numTokens = desc.numTokens
    rw [hsize]
    exact padTo_padTo hsp

theorem tokensM_eq_zero (h : AllChosen cfg batches chosen) (hne : batches ≠ [])
    (hzero : mostTokens cfg batches = 0) : tokensM chosen = 0 := by
  obtain ⟨c, hc, heq⟩ := tokensM_mem (chosen_ne_nil h hne)
  obtain ⟨b, hb, hchosen⟩ := exists_right h hc
  have hsp : b.spTokens cfg = 0 := Nat.le_zero.mp (hzero ▸ le_mostTokens hb)
  rw [heq]
  rcases hchosen.size with hsize | ⟨-, hsize⟩
  · rw [hsize, hsp]
  · rw [hsize, hsp, padTo_zero]

theorem not_mem_zero {config : CompilationConfig} : 0 ∉ config.cudagraphCaptureSizes := fun h =>
  Nat.lt_irrefl 0 (config.pos 0 h)

/-- With full graphs disabled, the ranks all find a piecewise graph for the agreed number, which is
then its own padded size, or none of them does. -/
theorem piecewise_agree (h : AllChosen cfg batches chosen) (hne : batches ≠ [])
    (hmode : cfg.cudagraphMode ≠ .none) (hknown : LorasKnown cfg batches)
    (hlora : LoraAgrees cfg batches)
    (hle : mostTokens cfg batches ≤ cfg.vllmConfig.compilationConfig.maxCudagraphCaptureSize) :
    (padTo cfg.vllmConfig.compilationConfig (tokensM chosen) = tokensM chosen ∧
      ∀ b ∈ batches, HasPiecewise cfg.dispatcher
        (padTo cfg.vllmConfig.compilationConfig (tokensM chosen)) b.hasLora) ∨
    ∀ b ∈ batches, ¬HasPiecewise cfg.dispatcher
      (padTo cfg.vllmConfig.compilationConfig (tokensM chosen)) b.hasLora := by
  by_cases hmixed : cfg.cudagraphMode.mixedMode = .piecewise
  · rcases loraCases_agree hknown hlora hmixed hle with hzero | hall | hnone
    · right
      intro b _ hpiecewise
      rw [tokensM_eq_zero h hne hzero, padTo_zero] at hpiecewise
      exact not_mem_zero hpiecewise.2.1
    · have hpad := padTo_tokensM h hne hmode hmixed hall hle
      by_cases hmem : padTo cfg.vllmConfig.compilationConfig (tokensM chosen) ∈
          cfg.vllmConfig.compilationConfig.cudagraphCaptureSizes
      · exact .inl ⟨hpad, fun b hb => ⟨hmixed, hmem, hall b hb⟩⟩
      · exact .inr fun b _ hpiecewise => hmem hpiecewise.2.1
    · exact .inr fun b hb hpiecewise => hnone b hb hpiecewise.2.2
  · exact .inr fun b _ hpiecewise => hmixed hpiecewise.1

/-- When every rank has a full graph for its size, every rank has one for the agreed number. -/
theorem full_agree (h : AllChosen cfg batches chosen) (hne : batches ≠ [])
    (hall : ∀ c ∈ chosen, c.1 = .full) :
    padTo cfg.vllmConfig.compilationConfig (tokensM chosen) = tokensM chosen ∧
      ∀ b ∈ batches, HasFull cfg.dispatcher
        (padTo cfg.vllmConfig.compilationConfig (tokensM chosen)) (b.uniformDecode cfg)
        b.hasLora := by
  obtain ⟨c, hc, heq⟩ := tokensM_mem (chosen_ne_nil h hne)
  obtain ⟨b, hb, hchosen⟩ := exists_right h hc
  have hcfull := hall c hc
  cases hchosen with
  | none => cases hcfull
  | piecewise => cases hcfull
  | full desc hfits hsize hfull =>
    have hM : tokensM chosen = padTo cfg.vllmConfig.compilationConfig (b.spTokens cfg) :=
      heq.trans hsize
    have hpad : padTo cfg.vllmConfig.compilationConfig (tokensM chosen) = tokensM chosen := by
      rw [hM]
      exact padTo_padTo hfits.2
    refine ⟨hpad, fun b' hb' => ?_⟩
    obtain ⟨c', hc', hchosen'⟩ := exists_left h hb'
    have hcfull' := hall c' hc'
    rw [hpad, hM]
    cases hchosen' with
    | none => cases hcfull'
    | piecewise => cases hcfull'
    | full desc' hfits' hsize' hfull' =>
      -- The kind of graph is the same on both ranks, and the size is that of the larger one.
      refine ⟨hfull'.1, ?_⟩
      rcases hfull.2 with ⟨hmode, hk⟩ | ⟨hseparate, -, hk⟩
      · exact .inl ⟨hmode, hk⟩
      · rcases hfull'.2 with ⟨hmode', -⟩ | ⟨-, hu, -⟩
        · exact .inl ⟨hmode', mem_of_mem_decodeSizes hk⟩
        · exact .inr ⟨hseparate, hu, hk⟩

/-- On the agreed number, all ranks choose the same mode, for exactly that number. -/
theorem redispatch (hd : Initialized cfg.dispatcher) (h : AllChosen cfg batches chosen)
    (hne : batches ≠ []) (hmode : cfg.cudagraphMode ≠ .none) (hknown : LorasKnown cfg batches)
    (halign : GraphsAligned cfg batches) (hlora : LoraAgrees cfg batches) {disableFull : Bool}
    (hfull : disableFull = false → ∀ c ∈ chosen, c.1 = .full) :
    ∃ mode, ∀ b ∈ batches, ∃ desc,
      b.dispatchCudagraph cfg false (tokensM chosen) disableFull = .ok (mode, desc) ∧
        desc.numTokens = tokensM chosen := by
  unfold Batch.dispatchCudagraph
  by_cases hle : tokensM chosen ≤ cfg.vllmConfig.compilationConfig.maxCudagraphCaptureSize
  · have hfits : Fits cfg.dispatcher (tokensM chosen) := ⟨hmode, hle⟩
    have hmost := Nat.le_trans (mostTokens_le_tokensM h hne) hle
    have hdiv := fun {b} hb => divisible_tokensM hd h hne halign hmost (b := b) hb
    cases disableFull with
    | false =>
      obtain ⟨hpad, hkeys⟩ := full_agree h hne (hfull rfl)
      refine ⟨.full, fun b hb => ?_⟩
      obtain ⟨desc, hcall, hsize⟩ := dispatch_full hd hfits (hdiv hb) (hkeys b hb)
      exact ⟨desc, hcall, hsize.trans hpad⟩
    | true =>
      rcases piecewise_agree h hne hmode hknown hlora hmost with ⟨hpad, hkeys⟩ | hkeys
      · refine ⟨.piecewise, fun b hb => ?_⟩
        exact ⟨_, (dispatch_not_full hd hfits (hdiv hb) (.inl rfl)).1 (hkeys b hb), hpad⟩
      · refine ⟨.none, fun b hb => ?_⟩
        exact ⟨_, (dispatch_not_full hd hfits (hdiv hb) (.inl rfl)).2 (hkeys b hb), rfl⟩
  · refine ⟨.none, fun b _ => ⟨_, dispatch_of_not_fits fun hfits => hle hfits.2, rfl⟩⟩

end Redispatch

/-! ### The exchange -/

/-- The column of a rank that has chosen `c`. -/
def columnOf (cfg : DpConfig) (b : Batch) (c : CUDAGraphMode × BatchDescriptor) : Column where
  origNumTokens := b.numTokens
  paddedNumTokens := c.2.numTokens
  shouldUbatch := b.allowMicrobatching && checkUbatchThresholds cfg b.numTokens (b.uniformDecode cfg)
  shouldDpPad := decide (cfg.cudagraphMode ≠ .none)
  cudagraphMode := c.1.value

/-- The columns of all ranks. -/
def tensorOf (cfg : DpConfig) (batches : List Batch)
    (chosen : List (CUDAGraphMode × BatchDescriptor)) : List Column :=
  (batches.zip chosen).map fun e => columnOf cfg e.1 e.2

/-- Whether all ranks are padded to the agreed number. -/
def padded (cfg : DpConfig) (tensor : List Column) : Bool :=
  decide (cfg.cudagraphMode ≠ .none) || postProcessUbatch tensor

/-- The numbers of tokens of the ranks after the exchange. -/
def acrossDp (cfg : DpConfig) (batches : List Batch)
    (chosen : List (CUDAGraphMode × BatchDescriptor)) : List Nat :=
  if padded cfg (tensorOf cfg batches chosen) = true then
    List.replicate chosen.length (tokensM chosen)
  else chosen.map (·.2.numTokens)

/-- Whether the second choice may not use full graphs. -/
def fullDisabled (cfg : DpConfig) (batches : List Batch)
    (chosen : List (CUDAGraphMode × BatchDescriptor)) : Bool :=
  postProcessCudagraphMode (tensorOf cfg batches chosen) ≤ CUDAGraphMode.piecewise.value

section Exchange
variable {chosen : List (CUDAGraphMode × BatchDescriptor)}

theorem column_eq_ok {b : Batch} {c : CUDAGraphMode × BatchDescriptor}
    (hle : b.numTokens ≤ c.2.numTokens) :
    b.column cfg c.2.numTokens c.1 = .ok (columnOf cfg b c) := by
  unfold Batch.column
  dsimp only
  rw [(pyAssert_eq_ok_iff (u := ())).mpr (decide_eq_true hle)]
  rfl

theorem tensor_eq_ok (hle : ∀ (r : Nat) b c, batches[r]? = some b → chosen[r]? = some c →
      b.numTokens ≤ c.2.numTokens) :
    (batches.zip chosen).mapM (fun e => e.1.column cfg e.2.2.numTokens e.2.1) =
      .ok (tensorOf cfg batches chosen) := by
  rw [mapM_eq_ok_iff_getElem?]
  refine ⟨length_map .., ?_⟩
  intro r e he
  obtain ⟨b, c⟩ := e
  obtain ⟨hb, hc⟩ := List.getElem?_zip_eq_some.mp he
  refine ⟨columnOf cfg b c, ?_, column_eq_ok (hle r b c hb hc)⟩
  unfold tensorOf
  rw [List.getElem?_map, he]
  rfl

theorem map_padded_tensorOf (hlen : chosen.length = batches.length) :
    (tensorOf cfg batches chosen).map (·.paddedNumTokens) = chosen.map (·.2.numTokens) := by
  unfold tensorOf
  rw [map_map]
  show (batches.zip chosen).map ((fun c => c.2.numTokens) ∘ Prod.snd) = _
  rw [← map_map, map_snd_zip (Nat.le_of_eq hlen)]

theorem map_mode_tensorOf (hlen : chosen.length = batches.length) :
    (tensorOf cfg batches chosen).map (·.cudagraphMode) = chosen.map (·.1.value) := by
  unfold tensorOf
  rw [map_map]
  show (batches.zip chosen).map ((fun c => c.1.value) ∘ Prod.snd) = _
  rw [← map_map, map_snd_zip (Nat.le_of_eq hlen)]

theorem synchronizeDpRanks_eq_ok (hlen : chosen.length = batches.length) (hne : batches ≠ []) :
    synchronizeDpRanks cfg (tensorOf cfg batches chosen) =
      .ok (postProcessUbatch (tensorOf cfg batches chosen), acrossDp cfg batches chosen,
        postProcessCudagraphMode (tensorOf cfg batches chosen)) := by
  have hall : (tensorOf cfg batches chosen).all (·.shouldDpPad) =
      decide (cfg.cudagraphMode ≠ .none) := by
    have hzip : (batches.zip chosen) ≠ [] := by
      rw [← length_pos_iff, length_zip, hlen, Nat.min_self]
      exact length_pos_iff.mpr hne
    obtain ⟨e, rest, hcons⟩ := exists_cons_of_ne_nil hzip
    unfold tensorOf columnOf
    rw [hcons]
    cases decide (cfg.cudagraphMode ≠ .none) <;> simp
  unfold synchronizeDpRanks
  dsimp only
  rw [hall, (pyAssert_eq_ok_iff (u := ())).mpr (decide_eq_true rfl), except_ok_bind]
  unfold acrossDp padded postProcessDpPadding
  dsimp only
  rw [map_padded_tensorOf hlen, length_map]
  rfl

theorem length_acrossDp : (acrossDp cfg batches chosen).length = chosen.length := by
  unfold acrossDp
  split
  · exact length_replicate
  · exact length_map ..

/-- When full graphs are not disabled, every rank has chosen one. -/
theorem full_of_not_disabled (h : AllChosen cfg batches chosen)
    (hdisabled : fullDisabled cfg batches chosen = false) : ∀ c ∈ chosen, c.1 = .full := by
  intro c hc
  have hmem : c.1.value ∈ chosen.map (·.1.value) := mem_map.mpr ⟨c, hc, rfl⟩
  have hlt : CUDAGraphMode.piecewise.value < c.1.value := by
    unfold fullDisabled postProcessCudagraphMode at hdisabled
    rw [map_mode_tensorOf h.length_eq.symm, decide_eq_false_iff_not, Nat.not_le] at hdisabled
    cases hmin : (chosen.map (·.1.value)).min? with
    | none =>
      rw [List.min?_eq_none_iff.mp hmin] at hmem
      exact absurd hmem not_mem_nil
    | some m =>
      rw [hmin] at hdisabled
      exact Nat.lt_of_lt_of_le hdisabled ((List.min?_eq_some_iff.mp hmin).2 _ hmem)
  obtain ⟨b, -, hchosen⟩ := exists_right h hc
  cases hchosen with
  | none => exact absurd hlt (Nat.not_lt_zero 1)
  | piecewise => exact absurd hlt (Nat.lt_irrefl 1)
  | full => rfl

/-- A rank without a graph disables full graphs. -/
theorem disabled_of_none (hlen : chosen.length = batches.length)
    {c : CUDAGraphMode × BatchDescriptor} (hc : c ∈ chosen) (hnone : c.1 = .none) :
    fullDisabled cfg batches chosen = true := by
  have hmem : 0 ∈ chosen.map (·.1.value) := by
    refine mem_map.mpr ⟨c, hc, ?_⟩
    rw [hnone]
    rfl
  unfold fullDisabled postProcessCudagraphMode
  rw [map_mode_tensorOf hlen]
  cases hmin : (chosen.map (·.1.value)).min? with
  | none => rfl
  | some m =>
    have := (List.min?_eq_some_iff.mp hmin).2 _ hmem
    rw [Nat.le_zero.mp this]
    rfl

/-- A rank after the exchange. -/
theorem agree_eq_ok_iff {forceEager : Bool} (hlen : chosen.length = batches.length)
    (hne : batches ≠ []) {b : Batch} {r : Nat} {e : Execution} :
    b.agree cfg forceEager (tensorOf cfg batches chosen) r = .ok e ↔
      ∃ n mode desc, (acrossDp cfg batches chosen)[r]? = some n ∧
        b.dispatchCudagraph cfg forceEager n (fullDisabled cfg batches chosen) =
          .ok (mode, desc) ∧ desc.numTokens = n ∧
        e = {
          cudagraphMode := mode
          batchDescriptor := desc
          shouldUbatch := postProcessUbatch (tensorOf cfg batches chosen)
          numTokensAcrossDp := some (acrossDp cfg batches chosen) } := by
  unfold Batch.agree
  rw [synchronizeDpRanks_eq_ok hlen hne, except_ok_bind]
  dsimp only
  cases hn : (acrossDp cfg batches chosen)[r]? with
  | none => simp
  | some n =>
    dsimp only
    constructor
    · intro h
      obtain ⟨⟨mode, desc⟩, hcall, h⟩ := bind_ok h
      obtain ⟨u, hassert, h⟩ := bind_ok h
      refine ⟨n, mode, desc, rfl, hcall, of_decide_eq_true (pyAssert_eq_ok_iff.mp hassert), ?_⟩
      exact (Except.ok.inj h).symm
    · rintro ⟨n', mode, desc, hn', hcall, hsize, rfl⟩
      cases hn'
      refine bind_eq_ok_iff.mpr ⟨(mode, desc), hcall, bind_eq_ok_iff.mpr ⟨(), ?_, rfl⟩⟩
      exact pyAssert_eq_ok_iff.mpr (decide_eq_true hsize)

/-! ### All ranks -/

/-- The rank `r` has run its batch `b` with `n` tokens. -/
structure RanAt (cfg : DpConfig) (batches : List Batch)
    (chosen : List (CUDAGraphMode × BatchDescriptor)) (mode : CUDAGraphMode) (r : Nat) (b : Batch)
    (n : Nat) (e : Execution) : Prop where
  batch : batches[r]? = some b
  tokens : (acrossDp cfg batches chosen)[r]? = some n
  mode : e.cudagraphMode = mode
  size : e.batchDescriptor.numTokens = n
  ubatch : e.shouldUbatch = postProcessUbatch (tensorOf cfg batches chosen)
  across : e.numTokensAcrossDp = some (acrossDp cfg batches chosen)

/-- The ranks agree when the second choice of each is for exactly the agreed number, in one mode. -/
theorem ranksAgree_of_second {forceEager : Bool} (hdp : cfg.dataParallelSize = batches.length)
    (hmany : 1 < batches.length)
    (hchosen : batches.mapM (fun b => b.chooseGraph cfg forceEager) = .ok chosen)
    (hle : ∀ (r : Nat) b c, batches[r]? = some b → chosen[r]? = some c →
      b.numTokens ≤ c.2.numTokens)
    (hsecond : ∃ mode, ∀ (r : Nat) b n, batches[r]? = some b →
      (acrossDp cfg batches chosen)[r]? = some n → ∃ desc,
        b.dispatchCudagraph cfg forceEager n (fullDisabled cfg batches chosen) =
          .ok (mode, desc) ∧ desc.numTokens = n) :
    RanksAgree cfg forceEager batches := by
  obtain ⟨mode, hsecond⟩ := hsecond
  have hlen : chosen.length = batches.length := (mapM_eq_ok_iff_getElem?.mp hchosen).1
  have hne : batches ≠ [] := by
    rintro rfl
    exact absurd hmany (by decide)
  have hacross : (acrossDp cfg batches chosen).length = batches.length := length_acrossDp.trans hlen
  have hrank : ∀ e ∈ batches.zipIdx, ∃ y,
      e.1.agree cfg forceEager (tensorOf cfg batches chosen) e.2 = .ok y := by
    rintro ⟨b, r⟩ hmem
    have hb : batches[r]? = some b := mem_zipIdx_iff_getElem?.mp hmem
    obtain ⟨hr, -⟩ := List.getElem?_eq_some_iff.mp hb
    have hn := List.getElem?_eq_getElem (l := acrossDp cfg batches chosen) (hacross ▸ hr)
    obtain ⟨desc, hcall, hsize⟩ := hsecond r b _ hb hn
    exact ⟨_, (agree_eq_ok_iff hlen hne).mpr ⟨_, mode, desc, hn, hcall, hsize, rfl⟩⟩
  obtain ⟨es, hes⟩ := exists_mapM_eq_ok hrank
  obtain ⟨heslen, hindex⟩ := mapM_eq_ok_iff_getElem?.mp hes
  rw [length_zipIdx] at heslen
  -- What each rank returns.
  have hresult : ∀ (r : Nat) e, es[r]? = some e → ∃ b n, RanAt cfg batches chosen mode r b n e := by
    intro r e he
    obtain ⟨hr, -⟩ := List.getElem?_eq_some_iff.mp he
    have hb := List.getElem?_eq_getElem (l := batches) (heslen ▸ hr)
    obtain ⟨e', he', hagree⟩ := hindex r (batches[r], r) (by
      rw [List.getElem?_zipIdx, hb, Nat.zero_add]
      rfl)
    rw [he] at he'
    cases he'
    obtain ⟨n, mode', desc, hn, hcall, hsize, rfl⟩ := (agree_eq_ok_iff hlen hne).mp hagree
    obtain ⟨desc', hcall', -⟩ := hsecond r _ n hb hn
    rw [hcall] at hcall'
    exact ⟨_, n, hb, hn, (Prod.mk.inj (Except.ok.inj hcall')).1, hsize, rfl, rfl⟩
  have hmem : ∀ e ∈ es, ∃ r b n, RanAt cfg batches chosen mode r b n e := by
    intro e he
    obtain ⟨r, hr⟩ := mem_iff_getElem?.mp he
    obtain ⟨b, n, h⟩ := hresult r e hr
    exact ⟨r, b, n, h⟩
  refine ⟨es, ?_, ?_⟩
  · unfold runRanks
    rw [hchosen, except_ok_bind, if_pos (hdp ▸ hmany), tensor_eq_ok hle, except_ok_bind]
    exact hes
  · exact {
      length := heslen
      shouldUbatch := by
        intro e he e' he'
        obtain ⟨_, _, _, hran⟩ := hmem e he
        obtain ⟨_, _, _, hran'⟩ := hmem e' he'
        rw [hran.ubatch, hran'.ubatch]
      numTokensAcrossDp := by
        intro e he e' he'
        obtain ⟨_, _, _, hran⟩ := hmem e he
        obtain ⟨_, _, _, hran'⟩ := hmem e' he'
        rw [hran.across, hran'.across]
      cudagraphMode := by
        intro e he e' he'
        obtain ⟨_, _, _, hran⟩ := hmem e he
        obtain ⟨_, _, _, hran'⟩ := hmem e' he'
        rw [hran.mode, hran'.mode]
      own := by
        intro r b e hb he
        obtain ⟨b', n, hran⟩ := hresult r e he
        obtain rfl : b = b' := Option.some.inj (hb.symm.trans hran.batch)
        have hn := hran.tokens
        rw [hran.size]
        obtain ⟨hr, -⟩ := List.getElem?_eq_some_iff.mp hb
        have hc := List.getElem?_eq_getElem (l := chosen) (hlen ▸ hr)
        refine Nat.le_trans (hle r b _ hb hc) ?_
        unfold acrossDp at hn
        split at hn
        · rw [List.getElem?_replicate] at hn
          split at hn
          · rw [← Option.some.inj hn]
            exact le_tokensM (mem_of_getElem? hc)
          · cases hn
        · rw [List.getElem?_map, hc] at hn
          exact Nat.le_of_eq (Option.some.inj hn)
      exchanged := by
        intro _ e he
        obtain ⟨_, _, _, hran⟩ := hmem e he
        exact ⟨_, hran.across⟩
      entry := by
        intro r e tokens he htokens
        obtain ⟨b, n, hran⟩ := hresult r e he
        cases hran.across.symm.trans htokens
        refine ⟨hacross, ?_⟩
        unfold dpMetadataMake
        rw [hran.tokens, hran.size]
        exact pyAssert_eq_ok_iff.mpr (decide_eq_true rfl)
      equal := by
        intro e he tokens htokens hpadded n hn
        obtain ⟨r, b, m, hran⟩ := hmem e he
        cases hran.across.symm.trans htokens
        have hpad : padded cfg (tensorOf cfg batches chosen) = true := by
          unfold padded
          rw [Bool.or_eq_true, ← hran.ubatch]
          exact hpadded.imp_left fun h => decide_eq_true h
        have hm := mem_of_getElem? hran.tokens
        unfold acrossDp at hn hm
        rw [if_pos hpad] at hn hm
        rw [hran.size, eq_of_mem_replicate hn, eq_of_mem_replicate hm] }

end Exchange

/-! ### The condition is enough -/

theorem numTokens_le_spTokens (b : Batch) : b.numTokens ≤ b.spTokens cfg := by
  unfold Batch.spTokens DpConfig.padForSequenceParallelism
  split
  · rename_i hsp
    exact CompilationConfig.le_roundUp _ (Nat.lt_trans Nat.one_pos hsp.2)
  · exact Nat.le_refl _

/-- A single rank exchanges nothing. -/
theorem ranksAgree_of_one {forceEager : Bool} (hdp : cfg.dataParallelSize = batches.length)
    (hone : ¬1 < batches.length) {chosen : List (CUDAGraphMode × BatchDescriptor)}
    (hchosen : batches.mapM (fun b => b.chooseGraph cfg forceEager) = .ok chosen)
    (hle : ∀ (r : Nat) b c, batches[r]? = some b → chosen[r]? = some c →
      b.numTokens ≤ c.2.numTokens) : RanksAgree cfg forceEager batches := by
  have hlen : chosen.length = batches.length := (mapM_eq_ok_iff_getElem?.mp hchosen).1
  refine ⟨chosen.map fun c => {
    cudagraphMode := c.1
    batchDescriptor := c.2 }, ?_, ?_⟩
  · unfold runRanks
    rw [hchosen, except_ok_bind, if_neg (hdp ▸ hone)]
    rfl
  · generalize hes : (chosen.map fun c => ({
      cudagraphMode := c.1
      batchDescriptor := c.2 } : Execution)) = es
    have heslen : es.length = batches.length := by
      rw [← hes, length_map, hlen]
    have hsame : ∀ e ∈ es, ∀ e' ∈ es, e = e' := by
      intro e he e' he'
      match es, heslen with
      | [], _ => exact absurd he not_mem_nil
      | [x], _ => rw [mem_singleton.mp he, mem_singleton.mp he']
      | x :: y :: rest, heslen =>
        simp only [length_cons] at heslen
        omega
    have hnone : ∀ e ∈ es, e.numTokensAcrossDp = none := by
      intro e he
      rw [← hes] at he
      obtain ⟨c, -, rfl⟩ := mem_map.mp he
      rfl
    exact {
      length := heslen
      shouldUbatch := fun e he e' he' => by rw [hsame e he e' he']
      numTokensAcrossDp := fun e he e' he' => by rw [hsame e he e' he']
      cudagraphMode := fun e he e' he' => by rw [hsame e he e' he']
      own := by
        intro r b e hb he
        rw [← hes, List.getElem?_map] at he
        obtain ⟨c, hc, rfl⟩ := Option.map_eq_some_iff.mp he
        exact hle r b c hb hc
      exchanged := fun hmany => absurd hmany hone
      entry := by
        intro r e tokens he htokens
        rw [hnone e (mem_of_getElem? he)] at htokens
        cases htokens
      equal := by
        intro e he tokens htokens
        rw [hnone e he] at htokens
        cases htokens }

/-- Without graphs every rank runs as many tokens as it is asked to. -/
theorem ranksAgree_of_eager {forceEager : Bool} (hdp : cfg.dataParallelSize = batches.length)
    (heager : forceEager = true ∨ cfg.cudagraphMode = .none) :
    RanksAgree cfg forceEager batches := by
  have hcall : ∀ (b : Batch) n disableFull,
      b.dispatchCudagraph cfg forceEager n disableFull = .ok (.none, { numTokens := n }) := by
    intro b n disableFull
    unfold Batch.dispatchCudagraph
    rcases heager with rfl | hmode
    · rfl
    · rw [dispatch_of_not_fits fun hfits => hfits.1 hmode, ite_self]
  have hchosen : batches.mapM (fun b => b.chooseGraph cfg forceEager) =
      .ok (batches.map fun b => (.none, { numTokens := b.spTokens cfg })) := by
    rw [mapM_eq_ok_iff_getElem?]
    refine ⟨length_map .., fun r b hb => ⟨_, ?_, hcall b _ _⟩⟩
    rw [List.getElem?_map, hb]
    rfl
  have hle : ∀ (r : Nat) b (c : CUDAGraphMode × BatchDescriptor), batches[r]? = some b →
      (batches.map fun b => ((.none : CUDAGraphMode),
        ({ numTokens := b.spTokens cfg } : BatchDescriptor)))[r]? = some c →
          b.numTokens ≤ c.2.numTokens := by
    intro r b c hb hc
    rw [List.getElem?_map, hb] at hc
    cases hc
    exact numTokens_le_spTokens b
  by_cases hmany : 1 < batches.length
  · exact ranksAgree_of_second hdp hmany hchosen hle ⟨.none, fun r b n _ _ => ⟨_, hcall b n _, rfl⟩⟩
  · exact ranksAgree_of_one hdp hmany hchosen hle

/-- With the condition every rank chooses. -/
theorem allChosen_of_aligned (hd : Initialized cfg.dispatcher) (halign : GraphsAligned cfg batches) :
    ∃ chosen, batches.mapM (fun b => b.chooseGraph cfg false) = .ok chosen ∧
      AllChosen cfg batches chosen := by
  have hall : ∀ b ∈ batches, ∃ c, b.chooseGraph cfg false = .ok c := by
    intro b hb
    obtain ⟨c, hc, -⟩ := chooseGraph_of_divisible hd b (by
      intro hfits huniform hfull
      by_cases hseparate : cfg.dispatcher.cfg.compilationConfig.cudagraphMode.separateRoutine = true
      · rcases padTo_mem hfits.2 with hmem | ⟨-, hzero⟩
        · exact hd.aligned hseparate _ hmem
        · show padTo cfg.dispatcher.cfg.compilationConfig _ % _ = 0
          rw [hzero, Nat.zero_mod]
      · exact halign (mode_full_of_hasMode hfull hseparate) b hb huniform _ (.inl rfl) hfits.2 _
          (padForCudagraph_eq hfits.2))
    exact ⟨c, hc⟩
  obtain ⟨chosen, hchosen⟩ := exists_mapM_eq_ok hall
  refine ⟨chosen, hchosen, ?_⟩
  exact (mapM_eq_ok_iff.mp hchosen).imp fun b c h => chosen_of_chooseGraph hd h

theorem acrossDp_eq (hmode : cfg.cudagraphMode ≠ .none)
    {chosen : List (CUDAGraphMode × BatchDescriptor)} {r n : Nat}
    (hn : (acrossDp cfg batches chosen)[r]? = some n) : n = tokensM chosen := by
  have hpad : padded cfg (tensorOf cfg batches chosen) = true := by
    unfold padded
    rw [decide_eq_true hmode, Bool.true_or]
  have hmem := mem_of_getElem? hn
  unfold acrossDp at hmem
  rw [if_pos hpad] at hmem
  exact eq_of_mem_replicate hmem

theorem ranksAgree_of_aligned (hd : Initialized cfg.dispatcher)
    (hdp : cfg.dataParallelSize = batches.length) (hknown : LorasKnown cfg batches)
    (halign : GraphsAligned cfg batches) (hlora : LoraAgrees cfg batches) :
    RanksAgree cfg false batches := by
  by_cases hmode : cfg.cudagraphMode = .none
  · exact ranksAgree_of_eager hdp (.inr hmode)
  · obtain ⟨chosen, hchosen, hall⟩ := allChosen_of_aligned hd halign
    have hle : ∀ (r : Nat) b c, batches[r]? = some b → chosen[r]? = some c →
        b.numTokens ≤ c.2.numTokens := by
      intro r b c hb hc
      obtain ⟨c', hc', hcall⟩ := (mapM_eq_ok_iff_getElem?.mp hchosen).2 r b hb
      cases hc.symm.trans hc'
      exact Nat.le_trans (numTokens_le_spTokens b) (chosen_of_chooseGraph hd hcall).le_size
    by_cases hmany : 1 < batches.length
    · have hne : batches ≠ [] := by
        rintro rfl
        exact absurd hmany (by decide)
      obtain ⟨mode, hsecond⟩ := redispatch hd hall hne hmode hknown halign hlora
        (full_of_not_disabled hall)
      refine ranksAgree_of_second hdp hmany hchosen hle ⟨mode, fun r b n hb hn => ?_⟩
      rw [acrossDp_eq hmode hn]
      exact hsecond b (mem_of_getElem? hb)
    · exact ranksAgree_of_one hdp hmany hchosen hle

/-! ### The condition is needed -/

variable {es : List Execution}

/-- What each rank has done in a run with an exchange. -/
theorem second_of_run (hd : Initialized cfg.dispatcher)
    (hdp : cfg.dataParallelSize = batches.length) (hmany : 1 < batches.length)
    (hrun : runRanks cfg false batches = .ok es) :
    ∃ chosen, AllChosen cfg batches chosen ∧
      ∀ (r : Nat) b, batches[r]? = some b → ∃ e n desc, es[r]? = some e ∧
        (acrossDp cfg batches chosen)[r]? = some n ∧
        b.dispatchCudagraph cfg false n (fullDisabled cfg batches chosen) =
          .ok (e.cudagraphMode, desc) := by
  unfold runRanks at hrun
  obtain ⟨chosen, hchosen, hrun⟩ := bind_ok hrun
  have hall : AllChosen cfg batches chosen :=
    (mapM_eq_ok_iff.mp hchosen).imp fun b c h => chosen_of_chooseGraph hd h
  have hne : batches ≠ [] := by
    rintro rfl
    exact absurd hmany (by decide)
  rw [if_pos (hdp ▸ hmany)] at hrun
  obtain ⟨tensor, htensor, hrun⟩ := bind_ok hrun
  have hle : ∀ (r : Nat) b c, batches[r]? = some b → chosen[r]? = some c →
      b.numTokens ≤ c.2.numTokens := by
    intro r b c hb hc
    obtain ⟨c', hc', hcall⟩ := (mapM_eq_ok_iff_getElem?.mp hchosen).2 r b hb
    cases hc.symm.trans hc'
    exact Nat.le_trans (numTokens_le_spTokens b) (chosen_of_chooseGraph hd hcall).le_size
  rw [tensor_eq_ok hle] at htensor
  cases htensor
  refine ⟨chosen, hall, fun r b hb => ?_⟩
  obtain ⟨e, he, hagree⟩ := (mapM_eq_ok_iff_getElem?.mp hrun).2 r (b, r) (by
    rw [List.getElem?_zipIdx, hb, Nat.zero_add]
    rfl)
  obtain ⟨n, mode, desc, hn, hcall, -, rfl⟩ := (agree_eq_ok_iff hall.length_eq.symm hne).mp hagree
  exact ⟨_, n, desc, he, hn, hcall⟩

/-- Every rank has chosen in a run. -/
theorem divisible_of_run (hrun : runRanks cfg false batches = .ok es) {b : Batch}
    (hb : b ∈ batches) (hfits : Fits cfg.dispatcher (b.spTokens cfg)) :
    Divisible cfg.dispatcher (padTo cfg.vllmConfig.compilationConfig (b.spTokens cfg))
      (b.uniformDecode cfg) := by
  unfold runRanks at hrun
  obtain ⟨chosen, hchosen, -⟩ := bind_ok hrun
  obtain ⟨r, hr⟩ := mem_iff_getElem?.mp hb
  obtain ⟨c, -, hcall⟩ := (mapM_eq_ok_iff_getElem?.mp hchosen).2 r b hr
  exact divisible_of_chooseGraph hcall hfits

theorem graphsAligned_of_run (hd : Initialized cfg.dispatcher)
    (hdp : cfg.dataParallelSize = batches.length) (hrun : runRanks cfg false batches = .ok es) :
    GraphsAligned cfg batches := by
  intro hmode b hb huniform t ht hle k hk
  have hnone : cfg.cudagraphMode ≠ .none := by
    rw [hmode]
    decide
  have hfull : cfg.dispatcher.cfg.compilationConfig.cudagraphMode.hasMode .full = true := by
    show cfg.cudagraphMode.hasMode .full = true
    rw [hmode]
    rfl
  have hpad := padForCudagraph_eq hle
  rw [hk] at hpad
  rw [Except.ok.inj hpad]
  rcases ht with rfl | rfl
  · exact divisible_of_run hrun hb ⟨hnone, hle⟩ huniform hfull
  · by_cases hmany : 1 < batches.length
    · obtain ⟨chosen, hall, hsecond⟩ := second_of_run hd hdp hmany hrun
      obtain ⟨r, hr⟩ := mem_iff_getElem?.mp hb
      obtain ⟨e, n, desc, -, hn, hcall⟩ := hsecond r b hr
      obtain rfl := acrossDp_eq hnone hn
      obtain ⟨hM, heq⟩ := tokensM_spec hall (ne_nil_of_mem hb) hle
      rw [← heq]
      exact divisible_of_dispatch ⟨hnone, hM⟩ hcall huniform hfull
    · -- A single rank is the largest.
      obtain ⟨b', hb', heq⟩ := mostTokens_mem cfg (ne_nil_of_mem hb)
      have hsame : b' = b := by
        match batches, hmany with
        | [x], _ => rw [mem_singleton.mp hb, mem_singleton.mp hb']
        | x :: y :: rest, hmany =>
          simp only [length_cons] at hmany
          omega
      rw [heq, hsame] at hle ⊢
      exact divisible_of_run hrun hb ⟨hnone, hle⟩ huniform hfull

/-- A rank whose LoRA case has no graphs has chosen none. -/
theorem Chosen.none_of_lora {b : Batch} {c : CUDAGraphMode × BatchDescriptor}
    (h : Chosen cfg b c) (hlora : b.hasLora ∉ cfg.vllmConfig.loraCases) : c.1 = .none := by
  cases h with
  | none => rfl
  | piecewise desc _ _ hkey => exact absurd hkey.2.2 hlora
  | full desc _ _ hfull => exact absurd hfull.1 hlora

/-- A rank with LoRA and one without run in different modes. -/
theorem modes_differ (hd : Initialized cfg.dispatcher)
    (hdp : cfg.dataParallelSize = batches.length) (hrun : runRanks cfg false batches = .ok es)
    (hagree : Agrees cfg batches es) (hmixed : cfg.cudagraphMode.mixedMode = .piecewise)
    (hcases : cfg.vllmConfig.loraCases = [true]) (hpos : 0 < mostTokens cfg batches)
    (hle : mostTokens cfg batches ≤ cfg.vllmConfig.compilationConfig.maxCudagraphCaptureSize)
    {b b' : Batch} (hb : b ∈ batches) (hb' : b' ∈ batches) (hlora : b.hasLora = true)
    (hlora' : b'.hasLora = false) : False := by
  have hmode : cfg.cudagraphMode ≠ .none := by
    intro h
    rw [h] at hmixed
    cases hmixed
  have hmany : 1 < batches.length := by
    match batches, hb, hb' with
    | [x], hb, hb' =>
      rw [mem_singleton.mp hb] at hlora
      rw [mem_singleton.mp hb', hlora] at hlora'
      cases hlora'
    | x :: y :: rest, _, _ => exact Nat.succ_lt_succ (Nat.succ_pos _)
  have hne := ne_nil_of_mem hb
  obtain ⟨chosen, hall, hsecond⟩ := second_of_run hd hdp hmany hrun
  -- The rank without LoRA finds no graph, so full graphs are disabled on all ranks.
  obtain ⟨c, hc, hchosen⟩ := exists_left hall hb'
  have hnone : c.1 = .none := hchosen.none_of_lora (by
    rw [hcases, hlora']
    decide)
  have hdisabled : fullDisabled cfg batches chosen = true :=
    disabled_of_none hall.length_eq.symm hc hnone
  obtain ⟨hM, -⟩ := tokensM_spec hall hne hle
  have hMpos : 0 < tokensM chosen := Nat.lt_of_lt_of_le hpos (mostTokens_le_tokensM hall hne)
  have hmem := (padTo_spec hMpos hM).1
  have hfits : Fits cfg.dispatcher (tokensM chosen) := ⟨hmode, hM⟩
  obtain ⟨r, hr⟩ := mem_iff_getElem?.mp hb
  obtain ⟨r', hr'⟩ := mem_iff_getElem?.mp hb'
  obtain ⟨e, n, desc, he, hn, hcall⟩ := hsecond r b hr
  obtain ⟨e', n', desc', he', hn', hcall'⟩ := hsecond r' b' hr'
  obtain rfl := acrossDp_eq hmode hn
  obtain rfl := acrossDp_eq hmode hn'
  rw [hdisabled] at hcall hcall'
  unfold Batch.dispatchCudagraph at hcall hcall'
  rw [if_neg Bool.false_ne_true] at hcall hcall'
  have hpiecewise : e.cudagraphMode = .piecewise := by
    have hkey : HasPiecewise cfg.dispatcher
        (padTo cfg.vllmConfig.compilationConfig (tokensM chosen)) b.hasLora := by
      refine ⟨hmixed, hmem, ?_⟩
      show b.hasLora ∈ cfg.vllmConfig.loraCases
      rw [hcases, hlora]
      exact mem_singleton_self _
    have hdispatch := (dispatch_not_full hd hfits (divisible_of_dispatch hfits hcall)
      (.inl rfl)).1 hkey
    rw [hdispatch] at hcall
    exact (Prod.mk.inj (Except.ok.inj hcall)).1.symm
  have hnone' : e'.cudagraphMode = .none := by
    have hkey : ¬HasPiecewise cfg.dispatcher
        (padTo cfg.vllmConfig.compilationConfig (tokensM chosen)) b'.hasLora := by
      intro hkey
      have hl : b'.hasLora ∈ cfg.vllmConfig.loraCases := hkey.2.2
      rw [hcases, hlora'] at hl
      exact absurd hl (by decide)
    have hdispatch := (dispatch_not_full hd hfits (divisible_of_dispatch hfits hcall')
      (.inl rfl)).2 hkey
    rw [hdispatch] at hcall'
    exact (Prod.mk.inj (Except.ok.inj hcall')).1.symm
  have hsame := hagree.cudagraphMode e (mem_of_getElem? he) e' (mem_of_getElem? he')
  rw [hpiecewise, hnone'] at hsame
  cases hsame

theorem loraAgrees_of_run (hd : Initialized cfg.dispatcher)
    (hdp : cfg.dataParallelSize = batches.length) (hrun : runRanks cfg false batches = .ok es)
    (hagree : Agrees cfg batches es) :
    LoraAgrees cfg batches := by
  intro hmixed hconf hspecial hpos hle
  have hcases : cfg.vllmConfig.loraCases = [true] := by
    unfold VllmConfig.loraCases
    rw [if_pos hconf, hspecial]
    rfl
  by_cases hall : ∀ b ∈ batches, b.hasLora = true
  · exact .inl hall
  · right
    obtain ⟨b', hb', hlora'⟩ : ∃ b' ∈ batches, b'.hasLora = false := by
      by_contra hnot
      refine hall fun b hb => ?_
      rw [← Bool.not_eq_false]
      exact fun hlora => hnot ⟨b, hb, hlora⟩
    intro b hb
    rw [← Bool.not_eq_true]
    exact fun hlora =>
      modes_differ hd hdp hrun hagree hmixed hcases hpos hle hb hb' hlora hlora'

/-- The ranks agree exactly when the capture sizes are divisible where a full graph is looked up,
and when the ranks agree on LoRA where piecewise graphs are not specialised on it. -/
theorem ranksAgree_iff {vllmConfig : VllmConfig} {forceEager : Bool}
    (hinit : checkAndUpdateCudagraphMode vllmConfig = .ok cfg.dispatcher)
    (hdp : cfg.dataParallelSize = batches.length) (hknown : LorasKnown cfg batches) :
    RanksAgree cfg forceEager batches ↔
      forceEager = true ∨ (GraphsAligned cfg batches ∧ LoraAgrees cfg batches) := by
  have hd := initialized_of_check hinit
  cases forceEager with
  | true => exact ⟨fun _ => .inl rfl, fun _ => ranksAgree_of_eager hdp (.inl rfl)⟩
  | false =>
    constructor
    · rintro ⟨es, hrun, hagree⟩
      exact .inr ⟨graphsAligned_of_run hd hdp hrun, loraAgrees_of_run hd hdp hrun hagree⟩
    · rintro (h | ⟨halign, hlora⟩)
      · cases h
      · exact ranksAgree_of_aligned hd hdp hknown halign hlora

end

/-! ### Two ranks -/

/-- Piecewise graphs of 2, 4 and 8 tokens, with LoRA. -/
def loraConfig (specialize : Bool) : VllmConfig where
  compilationConfig := {
    cudagraphMode := .piecewise
    cudagraphCaptureSizes := [2, 4, 8]
    cudagraphSpecializeLora := specialize
    sorted := by decide
    pos := by decide }
  lora := true
  maxNumSeqs := 8

/-- Full graphs of 2, 4 and 8 tokens, with two speculative tokens. -/
def fullConfig : VllmConfig where
  compilationConfig := {
    cudagraphMode := .full
    cudagraphCaptureSizes := [2, 4, 8]
    sorted := by decide
    pos := by decide }
  numSpeculativeTokens := 2
  maxNumSeqs := 8

/-- Five tokens without LoRA on one rank, three with LoRA on the other. -/
def loraBatches : List Batch := [
  { numTokens := 5, numReqs := 2, maxNumScheduledTokens := 4 },
  { numTokens := 3, numReqs := 2, maxNumScheduledTokens := 2, numLoras := 1 }]

/-- Two uniform decodes on one rank, a prefill of four tokens on the other. -/
def decodeBatches : List Batch := [
  { numTokens := 6, numReqs := 2, maxNumScheduledTokens := 3 },
  { numTokens := 4, numReqs := 1, maxNumScheduledTokens := 4 }]

/-- Two ranks of this configuration. -/
def runTwo (vllmConfig : VllmConfig) (batches : List Batch) : Except PyError (List Execution) := do
  let dispatcher ← checkAndUpdateCudagraphMode vllmConfig
  runRanks { dispatcher, dataParallelSize := 2 } false batches

theorem not_ranksAgree_of_runTwo {vllmConfig : VllmConfig} {batches : List Batch} {e : PyError}
    (hinit : (checkAndUpdateCudagraphMode vllmConfig).isOk = true)
    (hrun : runTwo vllmConfig batches = .error e) :
    ∃ d, checkAndUpdateCudagraphMode vllmConfig = .ok d ∧
      ¬RanksAgree { dispatcher := d, dataParallelSize := 2 } false batches := by
  unfold runTwo at hrun
  cases hd : checkAndUpdateCudagraphMode vllmConfig with
  | error e =>
    rw [hd] at hinit
    cases hinit
  | ok d =>
    rw [hd, except_ok_bind] at hrun
    refine ⟨d, rfl, ?_⟩
    rintro ⟨es, hes, -⟩
    rw [hrun] at hes
    cases hes

/-- Without specialised graphs the rank with LoRA finds a graph of eight tokens where five were
agreed. With full graphs and speculative decoding, a padded size of eight tokens cannot be divided
among decodes of three. -/
theorem ranks_disagree : (∃ d, checkAndUpdateCudagraphMode (loraConfig false) = .ok d ∧
      ¬RanksAgree { dispatcher := d, dataParallelSize := 2 } false loraBatches) ∧
    ∃ d, checkAndUpdateCudagraphMode fullConfig = .ok d ∧
      ¬RanksAgree { dispatcher := d, dataParallelSize := 2 } false decodeBatches := by
  constructor
  · exact not_ranksAgree_of_runTwo (by decide +kernel)
      (e := .assertionError "batch_descriptor.num_tokens == num_tokens_padded") (by decide +kernel)
  · exact not_ranksAgree_of_runTwo (by decide +kernel)
      (e := .assertionError "num_tokens_padded % uniform_decode_query_len == 0") (by decide +kernel)

/-- With specialised graphs the same two ranks agree. -/
theorem ranks_agree_specialized : ∃ d, checkAndUpdateCudagraphMode (loraConfig true) = .ok d ∧
      RanksAgree { dispatcher := d, dataParallelSize := 2 } false loraBatches := by
  have hmode : (match checkAndUpdateCudagraphMode (loraConfig true) with
      | .ok d => decide (d.cfg.compilationConfig.cudagraphMode = .piecewise ∧ d.cfg.lora = true ∧
          d.cfg.compilationConfig.cudagraphSpecializeLora = true)
      | .error _ => false) = true := by
    decide +kernel
  cases hd : checkAndUpdateCudagraphMode (loraConfig true) with
  | error e =>
    rw [hd] at hmode
    cases hmode
  | ok d =>
    rw [hd] at hmode
    obtain ⟨hpiecewise, hconf, hspecial⟩ := of_decide_eq_true hmode
    let cfg : DpConfig := {
      dispatcher := d
      dataParallelSize := 2 }
    have hknown : LorasKnown cfg loraBatches := fun _ _ _ => hconf
    refine ⟨d, rfl, (ranksAgree_iff hd rfl hknown).mpr (.inr ⟨?_, ?_⟩)⟩
    · intro hfull
      exact absurd (hpiecewise.symm.trans hfull) (by decide)
    · intro _ _ hno
      exact absurd (hspecial.symm.trans hno) (by decide)

end Vllm.Proofs.Worker
