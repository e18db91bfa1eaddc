import Vllm.Proofs.Worker.CudagraphDispatcher

/-!
# `Vllm.Proofs.Worker.CudagraphDispatch`: the graph of a batch is the smallest one that fits

A batch looks up two descriptors of its padded size, an exact and a relaxed one. The keys are made
by the same function from the capture sizes, and a capture size is padded to itself; so what is found
has the size, and nothing is found only if there is no key. A uniform decode batch has no exact
descriptor where its padded size is not a multiple of what a decode takes. The sizes are made
multiples in the modes that have graphs of their own for decoding, and not in the mode `FULL`.

* `setCudagraphSizes_spec`: the sizes of a configuration are in order and not 0.
* `mayUse_iff`: the graphs for a capture size, by the keys.
* `dispatch_smallest_graph_iff`: when the choice is the smallest graph.
-/

set_option autoImplicit false

namespace Vllm.Proofs.Worker

open Vllm.Lib Vllm.V1 CompilationConfig

/-! ### The sizes of a configuration -/

theorem sorted_pyRange (start stop : Nat) {step : Nat} (hstep : 0 < step) :
    (pyRange start stop step).Pairwise (· < ·) :=
  List.pairwise_lt_range' step hstep

theorem mem_pyRange {start stop step x : Nat} (hstep : 0 < step)
    (h : x ∈ pyRange start stop step) : start ≤ x ∧ x < stop := by
  obtain ⟨i, hi, rfl⟩ := List.mem_range'.mp h
  have hmul := Nat.mul_le_mul_left step (Nat.succ_le_of_lt hi)
  have hdiv := Nat.mul_div_le (stop - start + step - 1) step
  rw [Nat.mul_succ] at hmul
  omega

theorem defaultSizes_spec (maxSize : Nat) : (defaultSizes maxSize).Pairwise (· < ·) ∧
      ∀ x ∈ defaultSizes maxSize, 0 < x := by
  have hsmall : ∀ x ∈ [1, 2, 4].filter fun x : Nat => x ≤ maxSize, 0 < x ∧ x < 8 := by
    intro x hx
    have hmem := (List.mem_filter.mp hx).1
    simp at hmem
    omega
  have heights : ∀ x ∈ if 8 ≤ maxSize then pyRange 8 (min (maxSize + 1) 256) 8
      else [], 8 ≤ x ∧ x < 256 := by
    intro x hx
    split at hx
    · have := mem_pyRange (by decide) hx
      omega
    · cases hx
  have hlarge : ∀ x ∈ if 256 ≤ maxSize then pyRange 256 (maxSize + 1) 16
      else [], 256 ≤ x := by
    intro x hx
    split at hx
    · exact (mem_pyRange (by decide) hx).1
    · cases hx
  unfold defaultSizes
  constructor
  · refine List.pairwise_append.mpr ⟨List.pairwise_append.mpr ⟨?_, ?_, ?_⟩, ?_, ?_⟩
    · exact List.Pairwise.filter _ (by decide)
    · split
      · exact sorted_pyRange _ _ (by decide)
      · exact .nil
    · intro x hx y hy
      have := hsmall x hx
      have := heights y hy
      omega
    · split
      · exact sorted_pyRange _ _ (by decide)
      · exact .nil
    · intro x hx y hy
      have := hlarge y hy
      rcases List.mem_append.mp hx with hx | hx
      · have := hsmall x hx
        omega
      · have := heights x hx
        omega
  · intro x hx
    rcases List.mem_append.mp hx with hx | hx
    · rcases List.mem_append.mp hx with hx | hx
      · exact (hsmall x hx).1
      · have := heights x hx
        omega
    · have := hlarge x hx
      omega

theorem defaultSizes_le {maxSize x : Nat} (h : x ∈ defaultSizes maxSize) : x ≤ maxSize := by
  unfold defaultSizes at h
  simp only [List.mem_append, List.mem_filter, decide_eq_true_eq] at h
  obtain (⟨-, hx⟩ | hx) | hx := h
  · exact hx
  · split at hx
    · have := (mem_pyRange (by decide) hx).2
      omega
    · cases hx
  · split at hx
    · exact Nat.le_of_lt_succ (mem_pyRange (by decide) hx).2
    · cases hx

/-! ### The smallest graph -/

/-- The least capture size that is not below `n`. -/
def LeastSize (cfg : CompilationConfig) (n k : Nat) : Prop :=
  k ∈ cfg.cudagraphCaptureSizes ∧ n ≤ k ∧ ∀ s ∈ cfg.cudagraphCaptureSizes, n ≤ s → k ≤ s

/-- The exact or the relaxed descriptor of `k` tokens is a key that the batch may use. -/
def MayUse (d : CudagraphDispatcher) (k : Nat) (uniformDecode hasLora disableFull : Bool) : Prop :=
  (disableFull = false ∧ ((∃ desc, d.cfg.createPaddedBatchDescriptor k uniformDecode hasLora =
      .ok desc ∧ desc ∈ d.keys.full) ∨ mixedKey k hasLora ∈ d.keys.full)) ∨
    mixedKey k hasLora ∈ d.keys.piecewise

/-- `dispatch` ends, with a key of the least size, or with none if there is no such key. -/
def RightDispatch (d : CudagraphDispatcher) (n : Nat) (uniformDecode hasLora disableFull : Bool) :
    Prop :=
  ∃ mode desc, d.dispatch n uniformDecode hasLora disableFull = .ok (mode, desc) ∧
    ((mode = .none ∧ desc = { numTokens := n } ∧ ∀ k, LeastSize d.cfg.compilationConfig n k →
        ¬MayUse d k uniformDecode hasLora disableFull) ∨
      (LeastSize d.cfg.compilationConfig n desc.numTokens ∧
        (mode = .full ∧ desc ∈ d.keys.full ∨ mode = .piecewise ∧ desc ∈ d.keys.piecewise)))

section Choice
variable {d : CudagraphDispatcher} {k n : Nat} {uniformDecode hasLora disableFull : Bool}

/-- The graphs for a capture size. -/
theorem mayUse_iff (hd : Initialized d) (hk : k ∈ d.cfg.compilationConfig.cudagraphCaptureSizes)
    (hmode : d.cfg.compilationConfig.cudagraphMode ≠ .none)
    (hdiv : Divisible d k uniformDecode) : MayUse d k uniformDecode hasLora disableFull ↔
      (disableFull = false ∧ HasFull d k uniformDecode hasLora) ∨ HasPiecewise d k hasLora := by
  have hpad : padTo d.cfg.compilationConfig k = k := padTo_of_mem hk
  obtain ⟨desc, hdesc, -, hrelaxed, hiff⟩ :=
    descriptor_spec (n := k) hd ⟨hmode, le_max_of_mem hk⟩ (hpad.symm ▸ hdiv) hasLora
  rw [hpad] at hrelaxed hiff
  unfold MayUse
  rw [mixedKey_mem_piecewise hd, hiff, hrelaxed, hdesc]
  simp

/-- A batch that fits no graph. -/
theorem rightDispatch_of_not_fits (hd : Initialized d) (h : ¬Fits d n) :
    RightDispatch d n uniformDecode hasLora disableFull := by
  refine ⟨_, _, dispatch_of_not_fits h, .inl ⟨rfl, rfl, fun k hk hmay => ?_⟩⟩
  by_cases hmode : d.cfg.compilationConfig.cudagraphMode = .none
  · -- there are no keys
    have hnone : ∀ x, x ∉ d.keys.full ∧ x ∉ d.keys.piecewise := by
      intro x
      rw [hd.full, hd.piecewise, hmode]
      simp [CUDAGraphMode.mixedMode, CUDAGraphMode.separateRoutine]
    rcases hmay with ⟨-, ⟨desc, -, hmem⟩ | hmem⟩ | hmem
    · exact (hnone _).1 hmem
    · exact (hnone _).1 hmem
    · exact (hnone _).2 hmem
  · exact h ⟨hmode, hk.2.1.trans (le_max_of_mem hk.1)⟩

theorem rightDispatch_of_divisible (hd : Initialized d) (hfits : Fits d n) (hpos : 0 < n)
    (hdiv : Divisible d (padTo d.cfg.compilationConfig n) uniformDecode) :
    RightDispatch d n uniformDecode hasLora disableFull := by
  obtain ⟨desc, hdesc, hsize, hrelaxed, hiff⟩ := descriptor_spec hd hfits hdiv hasLora
  have hleast : LeastSize d.cfg.compilationConfig n (padTo d.cfg.compilationConfig n) :=
    padTo_spec hpos hfits.2
  unfold RightDispatch
  rw [dispatch_of_descriptor hfits hdesc]
  by_cases hexact : disableFull = false ∧ desc ∈ d.keys.full
  · exact ⟨_, _, if_pos hexact, .inr ⟨hsize ▸ hleast, .inl ⟨rfl, hexact.2⟩⟩⟩
  rw [if_neg hexact]
  by_cases hmixed : disableFull = false ∧ desc.relaxForMixedBatchCudagraphs ∈ d.keys.full
  · exact ⟨_, _, if_pos hmixed, .inr ⟨hsize ▸ hleast, .inl ⟨rfl, hmixed.2⟩⟩⟩
  rw [if_neg hmixed]
  by_cases hpiecewise : desc.relaxForMixedBatchCudagraphs ∈ d.keys.piecewise
  · exact ⟨_, _, if_pos hpiecewise, .inr ⟨hsize ▸ hleast, .inr ⟨rfl, hpiecewise⟩⟩⟩
  rw [if_neg hpiecewise]
  refine ⟨_, _, rfl, .inl ⟨rfl, rfl, fun k hk hmay => ?_⟩⟩
  obtain rfl : k = padTo d.cfg.compilationConfig n :=
    Nat.le_antisymm (hk.2.2 _ hleast.1 hleast.2.1) (hleast.2.2 _ hk.1 hk.2.1)
  rw [mayUse_iff hd hk.1 hfits.1 hdiv, hiff, ← mixedKey_mem_piecewise hd, ← hrelaxed] at hmay
  rcases hmay with ⟨hfull, hmem | hmem⟩ | hmem
  · exact hexact ⟨hfull, hmem⟩
  · exact hmixed ⟨hfull, hmem⟩
  · exact hpiecewise hmem

/-- No tokens are padded to none, and there is no graph for none. -/
theorem rightDispatch_zero (hd : Initialized d) (hfits : Fits d 0) :
    RightDispatch d 0 uniformDecode hasLora disableFull ↔ ∀ k,
      LeastSize d.cfg.compilationConfig 0 k → ¬MayUse d k uniformDecode hasLora disableFull := by
  have hno : 0 ∉ d.cfg.compilationConfig.cudagraphCaptureSizes := fun hmem =>
    Nat.lt_irrefl 0 (d.cfg.compilationConfig.pos 0 hmem)
  have hdiv : Divisible d (padTo d.cfg.compilationConfig 0) uniformDecode := by
    intro _ _
    rw [padTo_zero, Nat.zero_mod]
  have hfull : ¬HasFull d (padTo d.cfg.compilationConfig 0) uniformDecode hasLora := by
    rintro ⟨-, ⟨-, hmem⟩ | ⟨-, -, hmem⟩⟩
    · exact hno hmem
    · exact hno (mem_of_mem_decodeSizes hmem)
  unfold RightDispatch
  rw [(dispatch_not_full hd hfits hdiv (.inr hfull)).2 fun hpiecewise => hno hpiecewise.2.1]
  constructor
  · rintro ⟨mode, desc, heq, ⟨-, -, hright⟩ | ⟨hleast, -⟩⟩
    · exact hright
    · cases heq
      exact absurd hleast.1 hno
  · exact fun hright => ⟨_, _, rfl, .inl ⟨rfl, rfl, hright⟩⟩

/-- The table has the least capture size for each number of tokens, and `dispatch` picks the graph of
that size if and only if its assertion holds. For no tokens there is no graph. -/
theorem dispatch_smallest_graph_iff {cfg : VllmConfig}
    (h : CudagraphDispatcher.checkAndUpdateCudagraphMode cfg = .ok d) :
    (∀ n ≤ d.cfg.compilationConfig.maxCudagraphCaptureSize, ∃ k,
        d.cfg.compilationConfig.padForCudagraph n = .ok k ∧
        (0 < n → LeastSize d.cfg.compilationConfig n k) ∧ (n = 0 → k = 0)) ∧
      ∀ n uniformDecode hasLora disableFull, RightDispatch d n uniformDecode hasLora disableFull ↔
        ¬Fits d n ∨ (0 < n ∧ Divisible d (padTo d.cfg.compilationConfig n) uniformDecode) ∨
          (n = 0 ∧ ∀ k, LeastSize d.cfg.compilationConfig 0 k →
            ¬MayUse d k uniformDecode hasLora disableFull) := by
  have hd := initialized_of_check h
  refine ⟨fun n hle => ⟨_, padForCudagraph_eq hle, fun hpos => padTo_spec hpos hle, ?_⟩, ?_⟩
  · rintro rfl
    rfl
  · intro n uniformDecode hasLora disableFull
    by_cases hfits : Fits d n
    · rw [iff_false_intro (not_not_intro hfits), false_or]
      rcases Nat.eq_zero_or_pos n with rfl | hpos
      · rw [rightDispatch_zero hd hfits]
        simp
      · constructor
        · rintro ⟨mode, desc, hrun, -⟩
          exact .inl ⟨hpos, divisible_of_dispatch hfits hrun⟩
        · rintro (⟨-, hdiv⟩ | ⟨rfl, -⟩)
          · exact rightDispatch_of_divisible hd hfits hpos hdiv
          · exact absurd hpos (Nat.lt_irrefl 0)
    · exact iff_of_true (rightDispatch_of_not_fits hd hfits) (.inl hfits)

end Choice

/-- Graphs of 1, 2 and 4 tokens in the mode `FULL`, where a decode takes 3 tokens. -/
def fullWithDrafts : VllmConfig where
  compilationConfig := {
    cudagraphMode := .full
    cudagraphCaptureSizes := [1, 2, 4]
    sorted := by decide
    pos := by decide }
  numSpeculativeTokens := 2
  maxNumSeqs := 8

/-- A batch of 2 tokens that is no uniform decode batch gets the graph of 2 tokens. -/
theorem dispatch_two_tokens : ∃ d,
    CudagraphDispatcher.checkAndUpdateCudagraphMode fullWithDrafts = .ok d ∧
      RightDispatch d 2 false false false := by
  refine ⟨_, rfl, ((@dispatch_smallest_graph_iff _ fullWithDrafts rfl).2 ..).mpr ?_⟩
  exact .inr (.inl ⟨by decide, nofun⟩)

/-- One decode of 3 tokens is padded to 4, which the assertion does not allow. -/
theorem dispatch_full_asserts : ∃ d,
    CudagraphDispatcher.checkAndUpdateCudagraphMode fullWithDrafts = .ok d ∧
      ¬RightDispatch d 3 true false false := by
  refine ⟨_, rfl, ?_⟩
  rintro ⟨mode, desc, hrun, -⟩
  have hdiv := divisible_of_dispatch ⟨by decide, by decide⟩ hrun rfl rfl
  revert hdiv
  decide

end Vllm.Proofs.Worker
