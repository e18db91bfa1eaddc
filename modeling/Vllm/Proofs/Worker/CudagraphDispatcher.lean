import Vllm.V1.CudagraphDispatcher

/-!
# `Vllm.Proofs.Worker.CudagraphDispatcher`: what the dispatcher chooses

* `padForCudagraph_eq`: the table of padded sizes has the next capture size (`padTo`).
* `mem_piecewise_iff`, `mem_full_iff`: the keys of a dispatcher that was initialised.
* `dispatch_cases`: the choice, by the keys that there are for the padded size.
-/

set_option autoImplicit false

namespace Vllm.Proofs.Worker

open Vllm.Lib Vllm.V1 CudagraphDispatcher CompilationConfig List

/-! ### Padded sizes -/

theorem getElem?_foldl_set (f : Nat → Nat) (indices table : List Nat) (i : Nat) :
    (indices.foldl (fun t b => t.set b (f b)) table)[i]? =
      if i ∈ indices ∧ i < table.length then some (f i) else table[i]? := by
  induction indices generalizing table with
  | nil => simp
  | cons b indices ih =>
    rw [foldl_cons, ih, length_set, List.getElem?_set]
    by_cases hb : b = i
    · subst hb
      by_cases hlt : b < table.length
      · simp [hlt]
      · simp [hlt]
    · have hb' : i ≠ b := fun h => hb h.symm
      simp [hb, hb']

theorem length_foldl_set (f : Nat → Nat) (indices table : List Nat) :
    (indices.foldl (fun t b => t.set b (f b)) table).length = table.length := by
  induction indices generalizing table with
  | nil => rfl
  | cons b indices ih => rw [foldl_cons, ih, length_set]

theorem getElem?_fillRange (start stop : Nat) (table : List Nat) (i : Nat) :
    (fillRange start stop table)[i]? =
      if (start ≤ i ∧ i < stop) ∧ i < table.length then some (if i = start then start else stop)
      else table[i]? := by
  unfold fillRange
  rw [getElem?_foldl_set]
  have hmem : i ∈ List.range' start (stop - start) ↔ start ≤ i ∧ i < stop := by
    rw [mem_range'_1]
    omega
  simp only [hmem]

theorem length_fillRange (start stop : Nat) (table : List Nat) :
    (fillRange start stop table).length = table.length :=
  length_foldl_set ..

/-- The loop of `compute_bs_to_padded_graph_size` from the capture size `start` on. -/
theorem getElem?_fillSizes {last : Nat} (start : Nat) (sizes table : List Nat)
    (hsorted : sizes.Pairwise (· < ·)) (hstart : ∀ s ∈ sizes, start ≤ s)
    (hlast : sizes.getLast?.getD start = last) (hlength : table.length = last + 1) {i : Nat}
    (hle : i ≤ last) :
    (((sizes ++ [last + 1]).zip (start :: sizes)).foldl
      (fun t e => fillRange e.2 e.1 t) table)[i]? =
      if i < start then table[i]?
      else some (if i = start then start else (sizes.find? fun s => i ≤ s).getD 0) := by
  induction sizes generalizing start table with
  | nil =>
    -- The last range has one entry.
    obtain rfl : start = last := hlast
    rw [nil_append, zip_cons_cons, zip_nil_left, foldl_cons, foldl_nil,
      getElem?_fillRange]
    by_cases hlt : i < start
    · rw [if_neg (by omega), if_pos hlt]
    · rw [if_pos (by omega), if_neg hlt, if_pos (by omega), if_pos (by omega)]
  | cons s sizes ih =>
    rw [pairwise_cons] at hsorted
    have hs : start ≤ s := hstart s mem_cons_self
    have hlast' : sizes.getLast?.getD s = last := by
      rw [List.getLast?_cons] at hlast
      exact hlast
    rw [cons_append, zip_cons_cons, foldl_cons,
      ih s _ hsorted.2 (fun x hx => Nat.le_of_lt (hsorted.1 x hx)) hlast'
        (by rw [length_fillRange, hlength]), getElem?_fillRange, List.find?_cons]
    by_cases hlt : i < s
    · -- The entries of this range are not written again.
      rw [if_pos hlt]
      by_cases hi : i < start
      · rw [if_neg (by omega), if_pos hi]
      · rw [if_pos (by omega), if_neg hi]
        by_cases heq : i = start
        · rw [if_pos heq, if_pos heq]
        · have hfound : decide (i ≤ s) = true := decide_eq_true (Nat.le_of_lt hlt)
          rw [if_neg heq, if_neg heq, hfound]
          rfl
    · have hi : ¬i < start := by omega
      rw [if_neg hlt, if_neg hi]
      by_cases heq : i = s
      · rw [if_pos heq]
        have hfound : decide (i ≤ s) = true := decide_eq_true (Nat.le_of_eq heq)
        rw [hfound]
        by_cases hfirst : i = start
        · rw [if_pos hfirst, ← hfirst, ← heq]
        · rw [if_neg hfirst]
          rfl
      · have hnot : decide (i ≤ s) = false := decide_eq_false (by omega)
        have hfirst : i ≠ start := by omega
        rw [if_neg heq, if_neg hfirst, hnot]

/-- The next capture size, or 0 for no tokens. -/
def padTo (cfg : CompilationConfig) (n : Nat) : Nat :=
  if n = 0 then 0 else (cfg.cudagraphCaptureSizes.find? fun s => n ≤ s).getD 0

section PadTo
variable {cfg : CompilationConfig} {n : Nat}

theorem padForCudagraph_eq (hle : n ≤ cfg.maxCudagraphCaptureSize) :
    cfg.padForCudagraph n = .ok (padTo cfg n) := by
  have htable : cfg.bsToPaddedGraphSize[n]? = some (padTo cfg n) := by
    have hlast : cfg.cudagraphCaptureSizes.getLast?.getD 0 = cfg.maxCudagraphCaptureSize := rfl
    unfold bsToPaddedGraphSize
    rw [getElem?_fillSizes 0 _ _ cfg.sorted (fun s _ => Nat.zero_le s) hlast (by simp) hle,
      if_neg (Nat.not_lt_zero n)]
    rfl
  unfold padForCudagraph
  rw [htable]

theorem le_max_of_mem {s : Nat} (hs : s ∈ cfg.cudagraphCaptureSizes) :
    s ≤ cfg.maxCudagraphCaptureSize := by
  unfold maxCudagraphCaptureSize
  have hsorted := cfg.sorted
  rcases eq_nil_or_concat cfg.cudagraphCaptureSizes with hl | ⟨l, last, hl⟩
  · rw [hl] at hs
    exact absurd hs not_mem_nil
  · rw [hl, concat_eq_append] at hs hsorted ⊢
    rw [List.getLast?_concat, Option.getD_some]
    rcases mem_append.mp hs with hs | hs
    · exact Nat.le_of_lt
        ((pairwise_append.mp hsorted).2.2 s hs last (mem_singleton_self _))
    · exact Nat.le_of_eq (mem_singleton.mp hs)

theorem max_mem (hpos : 0 < cfg.maxCudagraphCaptureSize) :
    cfg.maxCudagraphCaptureSize ∈ cfg.cudagraphCaptureSizes := by
  unfold maxCudagraphCaptureSize at hpos ⊢
  cases hlast : cfg.cudagraphCaptureSizes.getLast? with
  | none =>
    rw [hlast] at hpos
    exact absurd hpos (Nat.lt_irrefl 0)
  | some s => exact mem_of_getLast? hlast

/-- `padTo` is the least capture size that fits. -/
theorem padTo_spec (hpos : 0 < n) (hle : n ≤ cfg.maxCudagraphCaptureSize) :
    padTo cfg n ∈ cfg.cudagraphCaptureSizes ∧ n ≤ padTo cfg n ∧
      ∀ s ∈ cfg.cudagraphCaptureSizes, n ≤ s → padTo cfg n ≤ s := by
  unfold padTo
  rw [if_neg (Nat.ne_of_gt hpos)]
  cases hfind : cfg.cudagraphCaptureSizes.find? fun s => n ≤ s with
  | none =>
    exfalso
    have hmax := List.find?_eq_none.mp hfind _ (max_mem (Nat.lt_of_lt_of_le hpos hle))
    exact hmax (decide_eq_true hle)
  | some k =>
    have hk : n ≤ k := by
      have hfound := List.find?_some hfind
      simpa using hfound
    refine ⟨mem_of_find?_eq_some hfind, hk, ?_⟩
    intro s hs hns
    obtain ⟨-, before, after, hsizes, hbefore⟩ := List.find?_eq_some_iff_append.mp hfind
    have hsorted := cfg.sorted
    rw [hsizes] at hs hsorted
    rcases mem_append.mp hs with hs | hs
    · have := hbefore s hs
      simp [hns] at this
    · rcases mem_cons.mp hs with rfl | hs
      · exact Nat.le_refl _
      · exact Nat.le_of_lt ((pairwise_cons.mp (pairwise_append.mp hsorted).2.1).1 s hs)

@[simp] theorem padTo_zero : padTo cfg 0 = 0 := rfl

theorem le_padTo (hle : n ≤ cfg.maxCudagraphCaptureSize) : n ≤ padTo cfg n := by
  cases n with
  | zero => exact Nat.zero_le _
  | succ n => exact (padTo_spec (Nat.succ_pos n) hle).2.1

theorem padTo_of_mem (hmem : n ∈ cfg.cudagraphCaptureSizes) : padTo cfg n = n := by
  have hle := le_max_of_mem hmem
  exact Nat.le_antisymm ((padTo_spec (cfg.pos n hmem) hle).2.2 n hmem (Nat.le_refl n))
    (le_padTo hle)

/-- A padded size is a capture size, or there are no tokens. -/
theorem padTo_mem (hle : n ≤ cfg.maxCudagraphCaptureSize) :
    padTo cfg n ∈ cfg.cudagraphCaptureSizes ∨ n = 0 ∧ padTo cfg n = 0 := by
  cases n with
  | zero => exact .inr ⟨rfl, rfl⟩
  | succ n => exact .inl (padTo_spec (Nat.succ_pos n) hle).1

theorem padTo_le_max (hle : n ≤ cfg.maxCudagraphCaptureSize) :
    padTo cfg n ≤ cfg.maxCudagraphCaptureSize := by
  rcases padTo_mem hle with hmem | ⟨-, hzero⟩
  · exact le_max_of_mem hmem
  · rw [hzero]
    exact Nat.zero_le _

theorem padTo_padTo (hle : n ≤ cfg.maxCudagraphCaptureSize) :
    padTo cfg (padTo cfg n) = padTo cfg n := by
  rcases padTo_mem hle with hmem | ⟨-, hzero⟩
  · exact padTo_of_mem hmem
  · rw [hzero, padTo_zero]

theorem padTo_mono {n' : Nat} (hnn' : n ≤ n') (hle : n' ≤ cfg.maxCudagraphCaptureSize) :
    padTo cfg n ≤ padTo cfg n' := by
  cases n with
  | zero => exact Nat.zero_le _
  | succ n =>
    have hpos : 0 < n' := Nat.lt_of_lt_of_le (Nat.succ_pos n) hnn'
    obtain ⟨hmem, hge, -⟩ := padTo_spec hpos hle
    exact (padTo_spec (Nat.succ_pos n) (Nat.le_trans hnn' hle)).2.2 _ hmem (Nat.le_trans hnn' hge)

end PadTo

/-! ### Keys -/

/-- The key of a graph that runs any batch of `bs` tokens. -/
def mixedKey (bs : Nat) (hasLora : Bool) : BatchDescriptor where
  numTokens := bs
  hasLora

/-- The key of a graph that only runs uniform decode batches. -/
def decodeKey (cfg : VllmConfig) (bs : Nat) (hasLora : Bool) : BatchDescriptor where
  numTokens := bs
  numReqs := some (bs / cfg.uniformDecodeQueryLen)
  uniform := true
  hasLora

theorem addKeys_spec {mode : CUDAGraphMode} {desc : Nat → Bool → Except PyError BatchDescriptor}
    (es : List (Nat × Bool)) {keys keys' : CudagraphKeys}
    (h : addKeys mode desc es keys = .ok keys') :
    (∀ x, x ∈ keys'.piecewise ↔
      x ∈ keys.piecewise ∨ mode = .piecewise ∧ ∃ e ∈ es, desc e.1 e.2 = .ok x) ∧
    ∀ x, x ∈ keys'.full ↔ x ∈ keys.full ∨ mode = .full ∧ ∃ e ∈ es, desc e.1 e.2 = .ok x := by
  induction es generalizing keys with
  | nil =>
    cases h
    simp
  | cons e es ih =>
    obtain ⟨bs, hasLora⟩ := e
    obtain ⟨x, hx, h⟩ := bind_ok h
    obtain ⟨keys₁, hadd, h⟩ := bind_ok h
    obtain ⟨hpiecewise, hfull⟩ := ih h
    have hnew : ∀ y, desc bs hasLora = .ok y ↔ y = x := by
      intro y
      rw [hx]
      exact ⟨fun h => (Except.ok.inj h).symm, fun h => congrArg Except.ok h.symm⟩
    cases mode with
    | piecewise =>
      cases hadd
      constructor
      · intro y
        rw [hpiecewise]
        simp [hnew, or_assoc, or_left_comm]
      · intro y
        rw [hfull]
        simp
    | full =>
      cases hadd
      constructor
      · intro y
        rw [hpiecewise]
        simp
      · intro y
        rw [hfull]
        simp [hnew, or_assoc, or_left_comm]
    | none | fullDecodeOnly | fullAndPiecewise => cases hadd

section Descriptor
variable {cfg : VllmConfig} {n : Nat} {hasLora : Bool}

/-- A descriptor that any batch of this size relaxes to. -/
theorem createPaddedBatchDescriptor_mixed {uniformDecode : Bool}
    (hle : n ≤ cfg.compilationConfig.maxCudagraphCaptureSize)
    (hmixed : uniformDecode = false ∨ cfg.compilationConfig.cudagraphMode.hasMode .full = false) :
    cfg.createPaddedBatchDescriptor n uniformDecode hasLora = .ok {
      numTokens := padTo cfg.compilationConfig n
      numReqs := some (min (padTo cfg.compilationConfig n) cfg.maxNumSeqs)
      hasLora } := by
  have hcond : (uniformDecode && cfg.compilationConfig.cudagraphMode.hasMode .full) = false := by
    rcases hmixed with rfl | h
    · rfl
    · rw [h, Bool.and_false]
  unfold VllmConfig.createPaddedBatchDescriptor
  rw [padForCudagraph_eq hle, except_ok_bind, hcond]
  rfl

/-- The descriptor of a uniform decode batch, where the padded size has to be divisible. -/
theorem createPaddedBatchDescriptor_decode (hle : n ≤ cfg.compilationConfig.maxCudagraphCaptureSize)
    (hfull : cfg.compilationConfig.cudagraphMode.hasMode .full = true) (x : BatchDescriptor) :
    cfg.createPaddedBatchDescriptor n true hasLora = .ok x ↔
      padTo cfg.compilationConfig n % cfg.uniformDecodeQueryLen = 0 ∧
        x = decodeKey cfg (padTo cfg.compilationConfig n) hasLora := by
  unfold VllmConfig.createPaddedBatchDescriptor
  rw [padForCudagraph_eq hle, except_ok_bind, hfull, Bool.and_self, if_pos rfl, bind_eq_ok_iff]
  constructor
  · rintro ⟨u, hassert, h⟩
    cases h
    exact ⟨of_decide_eq_true (pyAssert_eq_ok_iff.mp hassert), rfl⟩
  · rintro ⟨hmod, rfl⟩
    exact ⟨(), pyAssert_eq_ok_iff.mpr (decide_eq_true hmod), rfl⟩

end Descriptor

/-- A dispatcher that was initialised. -/
structure Initialized (d : CudagraphDispatcher) : Prop where
  piecewise : ∀ x, x ∈ d.keys.piecewise ↔
    d.cfg.compilationConfig.cudagraphMode.mixedMode = .piecewise ∧
      ∃ bs ∈ d.cfg.compilationConfig.cudagraphCaptureSizes, ∃ hasLora ∈ d.cfg.loraCases,
        x = mixedKey bs hasLora
  full : ∀ x, x ∈ d.keys.full ↔ (d.cfg.compilationConfig.cudagraphMode.mixedMode = .full ∧
      ∃ bs ∈ d.cfg.compilationConfig.cudagraphCaptureSizes, ∃ hasLora ∈ d.cfg.loraCases,
        x = mixedKey bs hasLora) ∨
    (d.cfg.compilationConfig.cudagraphMode.separateRoutine = true ∧
      ∃ bs ∈ decodeSizes d.cfg, ∃ hasLora ∈ d.cfg.loraCases,
        x = decodeKey d.cfg bs hasLora)
  aligned : d.cfg.compilationConfig.cudagraphMode.separateRoutine = true →
    ∀ bs ∈ d.cfg.compilationConfig.cudagraphCaptureSizes,
      bs % d.cfg.uniformDecodeQueryLen = 0

section Init
variable {cfg : VllmConfig} {d : CudagraphDispatcher}

theorem mem_product_iff {sizes : List Nat} {cases : List Bool} {P : Nat → Bool → Prop} :
    (∃ e ∈ sizes.product cases, P e.1 e.2) ↔ ∃ bs ∈ sizes, ∃ hasLora ∈ cases, P bs hasLora := by
  constructor
  · rintro ⟨⟨bs, hasLora⟩, he, h⟩
    obtain ⟨hbs, hl⟩ := pair_mem_product.mp he
    exact ⟨bs, hbs, hasLora, hl, h⟩
  · rintro ⟨bs, hbs, hasLora, hl, h⟩
    exact ⟨(bs, hasLora), pair_mem_product.mpr ⟨hbs, hl⟩, h⟩

variable {bs : Nat} {x : BatchDescriptor}

theorem relaxed_eq_ok_iff {hasLora : Bool}
    (hbs : bs ∈ cfg.compilationConfig.cudagraphCaptureSizes) :
    (do
      let desc ← cfg.createPaddedBatchDescriptor bs false hasLora
      return desc.relaxForMixedBatchCudagraphs) = .ok x ↔ x = mixedKey bs hasLora := by
  rw [createPaddedBatchDescriptor_mixed (le_max_of_mem hbs) (.inl rfl), except_ok_bind,
    padTo_of_mem hbs]
  exact ⟨fun h => (Except.ok.inj h).symm, fun h => congrArg Except.ok h.symm⟩

theorem mem_of_mem_decodeSizes (h : bs ∈ decodeSizes cfg) :
    bs ∈ cfg.compilationConfig.cudagraphCaptureSizes :=
  (mem_filter.mp h).1

theorem decodeKey_eq_ok_iff {hasLora : Bool}
    (hfull : cfg.compilationConfig.cudagraphMode.hasMode .full = true)
    (halign : ∀ bs ∈ cfg.compilationConfig.cudagraphCaptureSizes,
      bs % cfg.uniformDecodeQueryLen = 0)
    (hbs : bs ∈ decodeSizes cfg) :
    cfg.createPaddedBatchDescriptor bs true hasLora = .ok x ↔ x = decodeKey cfg bs hasLora := by
  have hmem := mem_of_mem_decodeSizes hbs
  rw [createPaddedBatchDescriptor_decode (le_max_of_mem hmem) hfull, padTo_of_mem hmem]
  exact ⟨fun h => h.2, fun h => ⟨halign bs hmem, h⟩⟩

theorem hasMode_full_of_separate {mode : CUDAGraphMode} (h : mode.separateRoutine = true) :
    mode.decodeMode = .full ∧ mode.hasMode .full = true := by
  cases mode <;> first | exact ⟨rfl, rfl⟩ | cases h

/-- The keys, when the sizes are multiples of what a decode takes. -/
theorem initialized_of_aligned (h : initializeCudagraphKeys cfg = .ok d)
    (halign : cfg.compilationConfig.cudagraphMode.separateRoutine = true →
      ∀ bs ∈ cfg.compilationConfig.cudagraphCaptureSizes, bs % cfg.uniformDecodeQueryLen = 0) :
    d.cfg = cfg ∧ Initialized d := by
  obtain ⟨keys₁, hmixed, h⟩ := bind_ok h
  obtain ⟨keys, hdecode, h⟩ := bind_ok h
  cases h
  -- The keys of the first loop.
  have hfirst : (∀ x, x ∈ keys₁.piecewise ↔
      cfg.compilationConfig.cudagraphMode.mixedMode = .piecewise ∧
        ∃ bs ∈ cfg.compilationConfig.cudagraphCaptureSizes, ∃ hasLora ∈ cfg.loraCases,
          x = mixedKey bs hasLora) ∧ ∀ x, x ∈ keys₁.full ↔
      cfg.compilationConfig.cudagraphMode.mixedMode = .full ∧
        ∃ bs ∈ cfg.compilationConfig.cudagraphCaptureSizes, ∃ hasLora ∈ cfg.loraCases,
          x = mixedKey bs hasLora := by
    split at hmixed
    · obtain ⟨hpiecewise, hfull⟩ := addKeys_spec _ hmixed
      have hkeys : ∀ x, (∃ e ∈ cfg.compilationConfig.cudagraphCaptureSizes.product cfg.loraCases,
          (do
            let desc ← cfg.createPaddedBatchDescriptor e.1 false e.2
            return desc.relaxForMixedBatchCudagraphs) = .ok x) ↔
          ∃ bs ∈ cfg.compilationConfig.cudagraphCaptureSizes, ∃ hasLora ∈ cfg.loraCases,
            x = mixedKey bs hasLora := by
        intro x
        refine (mem_product_iff (P := fun bs hasLora => (do
          let desc ← cfg.createPaddedBatchDescriptor bs false hasLora
          return desc.relaxForMixedBatchCudagraphs) = .ok x)).trans ?_
        refine exists_congr fun bs => and_congr_right fun hbs => ?_
        exact exists_congr fun hasLora => and_congr_right fun _ => relaxed_eq_ok_iff hbs
      constructor
      · intro x
        rw [hpiecewise, hkeys]
        simp
      · intro x
        rw [hfull, hkeys]
        simp
    · rename_i hnone
      rw [not_not] at hnone
      cases hmixed
      simp [hnone]
  refine ⟨rfl, ?_, ?_, halign⟩
  · intro x
    rw [← hfirst.1]
    split at hdecode
    · rw [(addKeys_spec _ hdecode).1]
      simp
    · cases hdecode
      exact Iff.rfl
  · intro x
    rw [← hfirst.2]
    split at hdecode
    · rename_i hcond
      have hfull := (hasMode_full_of_separate hcond.2).2
      rw [(addKeys_spec _ hdecode).2,
        mem_product_iff (P := fun bs hasLora =>
          cfg.createPaddedBatchDescriptor bs true hasLora = .ok x)]
      refine or_congr_right ⟨?_, ?_⟩
      · rintro ⟨-, bs, hbs, hasLora, hl, hx⟩
        exact ⟨hcond.2, bs, hbs, hasLora, hl,
          (decodeKey_eq_ok_iff hfull (halign hcond.2) hbs).mp hx⟩
      · rintro ⟨-, bs, hbs, hasLora, hl, hx⟩
        exact ⟨rfl, bs, hbs, hasLora, hl,
          (decodeKey_eq_ok_iff hfull (halign hcond.2) hbs).mpr hx⟩
    · rename_i hcond
      cases hdecode
      have hseparate : ¬cfg.compilationConfig.cudagraphMode.separateRoutine = true := fun h =>
        hcond ⟨(hasMode_full_of_separate h).1, h⟩
      simp [hseparate]

variable {config config' : CompilationConfig}

theorem rounded_aligned {queryLen m : Nat} (hm : 1 < m) (hdvd : queryLen ∣ m)
    (h : config.roundCaptureSizes m = .ok config') :
    ∀ bs ∈ config'.cudagraphCaptureSizes, bs % queryLen = 0 := by
  intro bs hbs
  unfold roundCaptureSizes at h
  split at h
  · rename_i hempty
    cases h
    have hnil := isEmpty_iff.mp (hempty.resolve_right (Nat.not_le_of_lt hm))
    rw [hnil] at hbs
    exact absurd hbs not_mem_nil
  · split at h
    · cases h
    · cases h
      have hbs : bs ∈ config.roundedSizes m := hbs
      refine Nat.mod_eq_zero_of_dvd (Nat.dvd_trans hdvd ?_)
      unfold roundedSizes at hbs
      dsimp only at hbs
      split at hbs
      · exact mem_singleton.mp hbs ▸ Nat.dvd_refl m
      · unfold sortedSet at hbs
        rw [mem_insertionSort, mem_dedup, mem_filter] at hbs
        obtain ⟨x, -, rfl⟩ := mem_map.mp hbs.1
        exact Nat.dvd_mul_left ..

/-- After `adjust_cudagraph_sizes_for_spec_decode` the sizes are multiples of what a decode takes. -/
theorem adjusted_aligned {queryLen tp : Nat} (hql : 1 < queryLen)
    (h : config.adjustCudagraphSizesForSpecDecode queryLen tp = .ok config') :
    ∀ bs ∈ config'.cudagraphCaptureSizes, bs % queryLen = 0 := by
  unfold adjustCudagraphSizesForSpecDecode at h
  split at h
  · dsimp only at h
    split at h
    · cases h
    · rename_i hdiv
      rw [not_or, not_not] at hdiv
      exact rounded_aligned (Nat.lt_of_lt_of_le hql (Nat.le_max_left ..))
        (Nat.dvd_of_mod_eq_zero hdiv.1) h
  · exact rounded_aligned hql (Nat.dvd_refl _) h

theorem initialized_of_check (h : checkAndUpdateCudagraphMode cfg = .ok d) : Initialized d := by
  obtain ⟨config, hconfig, h⟩ := bind_ok h
  refine (initialized_of_aligned h ?_).2
  intro hseparate bs hbs
  show bs % cfg.uniformDecodeQueryLen = 0
  split at hconfig
  · rename_i hcond
    exact adjusted_aligned hcond.2.2 hconfig bs hbs
  · rename_i hcond
    cases hconfig
    have hone : cfg.uniformDecodeQueryLen = 1 := by
      have hpos : 0 < cfg.uniformDecodeQueryLen := Nat.succ_le_of_lt (Nat.lt_add_right _ Nat.one_pos)
      by_contra hne
      exact hcond ⟨(hasMode_full_of_separate hseparate).1, hseparate, by omega⟩
    rw [hone, Nat.mod_one]

end Init

/-! ### The choice -/

section Dispatch
variable (d : CudagraphDispatcher) (k : Nat) (uniformDecode hasLora : Bool)

/-- There is a piecewise graph for the padded size. -/
def HasPiecewise : Prop :=
  d.cfg.compilationConfig.cudagraphMode.mixedMode = .piecewise ∧
    k ∈ d.cfg.compilationConfig.cudagraphCaptureSizes ∧ hasLora ∈ d.cfg.loraCases

/-- There is a full graph for the padded size. -/
def HasFull : Prop :=
  hasLora ∈ d.cfg.loraCases ∧
    (d.cfg.compilationConfig.cudagraphMode.mixedMode = .full ∧
        k ∈ d.cfg.compilationConfig.cudagraphCaptureSizes ∨
      d.cfg.compilationConfig.cudagraphMode.separateRoutine = true ∧ uniformDecode = true ∧
        k ∈ decodeSizes d.cfg)

/-- The assertion on the padded size of a uniform decode batch. -/
def Divisible : Prop :=
  uniformDecode = true → d.cfg.compilationConfig.cudagraphMode.hasMode .full = true →
    k % d.cfg.uniformDecodeQueryLen = 0

/-- The batch fits a graph. -/
def Fits (n : Nat) : Prop :=
  d.cfg.compilationConfig.cudagraphMode ≠ .none ∧
    n ≤ d.cfg.compilationConfig.maxCudagraphCaptureSize

end Dispatch

section Choice
variable {d : CudagraphDispatcher} {k n : Nat} {uniformDecode hasLora disableFull : Bool}

/-- A batch that fits no graph runs without one. -/
theorem dispatch_of_not_fits (h : ¬Fits d n) :
    d.dispatch n uniformDecode hasLora disableFull = .ok (.none, { numTokens := n }) := by
  unfold dispatch
  rw [if_pos]
  by_contra hnot
  rw [not_or, Nat.not_lt] at hnot
  exact h hnot

theorem mixedKey_mem_full (hd : Initialized d) : mixedKey k hasLora ∈ d.keys.full ↔
    d.cfg.compilationConfig.cudagraphMode.mixedMode = .full ∧
      k ∈ d.cfg.compilationConfig.cudagraphCaptureSizes ∧ hasLora ∈ d.cfg.loraCases := by
  rw [hd.full]
  unfold mixedKey decodeKey
  simp

theorem mixedKey_mem_piecewise (hd : Initialized d) :
    mixedKey k hasLora ∈ d.keys.piecewise ↔ HasPiecewise d k hasLora := by
  rw [hd.piecewise]
  unfold mixedKey HasPiecewise
  simp

theorem decodeKey_mem_full (hd : Initialized d) : decodeKey d.cfg k hasLora ∈ d.keys.full ↔
    d.cfg.compilationConfig.cudagraphMode.separateRoutine = true ∧
      k ∈ decodeSizes d.cfg ∧ hasLora ∈ d.cfg.loraCases := by
  rw [hd.full]
  unfold mixedKey decodeKey
  simp only [BatchDescriptor.mk.injEq, reduceCtorEq, false_and, and_false, exists_const, false_or,
    true_and]
  refine and_congr_right fun _ => ⟨?_, ?_⟩
  · rintro ⟨bs, hbs, l, hl, rfl, -, rfl⟩
    exact ⟨hbs, hl⟩
  · rintro ⟨hk, hl⟩
    exact ⟨k, hk, hasLora, hl, rfl, rfl, rfl⟩

/-- A descriptor that bounds its requests is no key. -/
theorem not_mem_full (hd : Initialized d) (numReqs : Nat) :
    ({ numTokens := k, numReqs := some numReqs, hasLora } : BatchDescriptor) ∉ d.keys.full := by
  rw [hd.full]
  unfold mixedKey decodeKey
  simp

/-- The choice for a batch that fits, given the descriptors that it looks up. -/
theorem dispatch_of_descriptor (hfits : Fits d n) {desc : BatchDescriptor}
    (hdesc : d.cfg.createPaddedBatchDescriptor n uniformDecode hasLora = .ok desc) :
    d.dispatch n uniformDecode hasLora disableFull =
      if disableFull = false ∧ desc ∈ d.keys.full then .ok (.full, desc)
      else if disableFull = false ∧ desc.relaxForMixedBatchCudagraphs ∈ d.keys.full then
        .ok (.full, desc.relaxForMixedBatchCudagraphs)
      else if desc.relaxForMixedBatchCudagraphs ∈ d.keys.piecewise then
        .ok (.piecewise, desc.relaxForMixedBatchCudagraphs)
      else .ok (.none, { numTokens := n }) := by
  have hguard : ¬(d.cfg.compilationConfig.cudagraphMode = .none ∨
      d.cfg.compilationConfig.maxCudagraphCaptureSize < n) := by
    rw [not_or, Nat.not_lt]
    exact hfits
  unfold dispatch
  rw [if_neg hguard, hdesc]
  rfl

/-- The descriptor that is looked up: its size, and the graphs that there are for it. -/
theorem descriptor_spec (hd : Initialized d) (hfits : Fits d n)
    (hdiv : Divisible d (padTo d.cfg.compilationConfig n) uniformDecode) (hasLora : Bool) :
    ∃ desc, d.cfg.createPaddedBatchDescriptor n uniformDecode hasLora = .ok desc ∧
      desc.numTokens = padTo d.cfg.compilationConfig n ∧
      desc.relaxForMixedBatchCudagraphs = mixedKey (padTo d.cfg.compilationConfig n) hasLora ∧
      (HasFull d (padTo d.cfg.compilationConfig n) uniformDecode hasLora ↔
        desc ∈ d.keys.full ∨ desc.relaxForMixedBatchCudagraphs ∈ d.keys.full) := by
  by_cases huniform : uniformDecode = true ∧
      d.cfg.compilationConfig.cudagraphMode.hasMode .full = true
  · obtain ⟨rfl, hfull⟩ := huniform
    refine ⟨decodeKey d.cfg (padTo d.cfg.compilationConfig n) hasLora,
      (createPaddedBatchDescriptor_decode hfits.2 hfull _).mpr ⟨hdiv rfl hfull, rfl⟩, rfl, rfl, ?_⟩
    rw [decodeKey_mem_full hd]
    show _ ↔ _ ∨ mixedKey _ hasLora ∈ d.keys.full
    rw [mixedKey_mem_full hd]
    unfold HasFull
    tauto
  · have hmixed : uniformDecode = false ∨
        d.cfg.compilationConfig.cudagraphMode.hasMode .full = false := by
      rw [not_and_or, Bool.not_eq_true, Bool.not_eq_true] at huniform
      exact huniform
    refine ⟨_, createPaddedBatchDescriptor_mixed hfits.2 hmixed, rfl, rfl, ?_⟩
    show _ ↔ _ ∨ mixedKey _ hasLora ∈ d.keys.full
    rw [mixedKey_mem_full hd, or_iff_right (not_mem_full hd _)]
    constructor
    · rintro ⟨hl, ⟨hmode, hk⟩ | ⟨hseparate, hu, -⟩⟩
      · exact ⟨hmode, hk, hl⟩
      · -- A uniform decode batch has a descriptor of its own in these modes.
        exact absurd ⟨hu, (hasMode_full_of_separate hseparate).2⟩ huniform
    · rintro ⟨hmode, hk, hl⟩
      exact ⟨hl, .inl ⟨hmode, hk⟩⟩

/-- The assertion holds of a batch that is dispatched. -/
theorem divisible_of_dispatch {r : CUDAGraphMode × BatchDescriptor} (hfits : Fits d n)
    (h : d.dispatch n uniformDecode hasLora disableFull = .ok r) :
    Divisible d (padTo d.cfg.compilationConfig n) uniformDecode := by
  rintro rfl hfull
  unfold dispatch at h
  have hguard : ¬(d.cfg.compilationConfig.cudagraphMode = .none ∨
      d.cfg.compilationConfig.maxCudagraphCaptureSize < n) := by
    rw [not_or, Nat.not_lt]
    exact hfits
  rw [if_neg hguard] at h
  obtain ⟨desc, hdesc, -⟩ := bind_ok h
  exact ((createPaddedBatchDescriptor_decode hfits.2 hfull _).mp hdesc).1

theorem dispatch_full (hd : Initialized d) (hfits : Fits d n)
    (hdiv : Divisible d (padTo d.cfg.compilationConfig n) uniformDecode)
    (hfull : HasFull d (padTo d.cfg.compilationConfig n) uniformDecode hasLora) :
    ∃ desc, d.dispatch n uniformDecode hasLora false = .ok (.full, desc) ∧
      desc.numTokens = padTo d.cfg.compilationConfig n := by
  obtain ⟨desc, hdesc, hsize, hrelaxed, hiff⟩ := descriptor_spec hd hfits hdiv hasLora
  rw [dispatch_of_descriptor hfits hdesc]
  by_cases hmem : desc ∈ d.keys.full
  · exact ⟨desc, if_pos ⟨rfl, hmem⟩, hsize⟩
  · have hrelax := (hiff.mp hfull).resolve_left hmem
    refine ⟨desc.relaxForMixedBatchCudagraphs, ?_, hsize⟩
    rw [if_neg fun h => hmem h.2, if_pos ⟨rfl, hrelax⟩]

/-- Without a full graph, or with full graphs disabled. -/
theorem dispatch_not_full (hd : Initialized d) (hfits : Fits d n)
    (hdiv : Divisible d (padTo d.cfg.compilationConfig n) uniformDecode)
    (hnot : disableFull = true ∨
      ¬HasFull d (padTo d.cfg.compilationConfig n) uniformDecode hasLora) :
    (HasPiecewise d (padTo d.cfg.compilationConfig n) hasLora →
      d.dispatch n uniformDecode hasLora disableFull =
        .ok (.piecewise, mixedKey (padTo d.cfg.compilationConfig n) hasLora)) ∧
    (¬HasPiecewise d (padTo d.cfg.compilationConfig n) hasLora →
      d.dispatch n uniformDecode hasLora disableFull = .ok (.none, { numTokens := n })) := by
  obtain ⟨desc, hdesc, hsize, hrelaxed, hiff⟩ := descriptor_spec hd hfits hdiv hasLora
  have hno : ∀ x, x = desc ∨ x = desc.relaxForMixedBatchCudagraphs →
      ¬(disableFull = false ∧ x ∈ d.keys.full) := by
    rintro x hx ⟨rfl, hmem⟩
    refine hnot.elim (fun h => Bool.false_ne_true h) fun h => h (hiff.mpr ?_)
    rcases hx with rfl | rfl
    · exact .inl hmem
    · exact .inr hmem
  rw [dispatch_of_descriptor hfits hdesc, if_neg (hno _ (.inl rfl)), if_neg (hno _ (.inr rfl)),
    hrelaxed, ← mixedKey_mem_piecewise hd]
  exact ⟨fun h => if_pos h, fun h => if_neg h⟩

end Choice

end Vllm.Proofs.Worker
