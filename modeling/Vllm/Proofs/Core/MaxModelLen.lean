import Mathlib
import Vllm.Lib.MapM
import Vllm.Proofs.Core.Slots
import Vllm.V1.KVCacheInterface

/-!
# `Vllm.Proofs.Core.MaxModelLen`: the greatest length that fits

The memory of a layer is a number of pages, which grows with `max_model_len` or stays. So the
lengths that fit are those up to a greatest one, which the binary search finds. The configuration is
left with the length that was tried last.

* `maxMemoryUsageBytes_mono`: the memory as a monotone function of the length.
* `searchLoop_spec`: the search, and the last length that it tries.
* `estimate_max_model_len_iff`: the result, and when the configuration is what it was.
-/

set_option autoImplicit false

namespace Vllm.Proofs.Core

open Vllm.Lib Vllm.V1.KVCacheInterface
open Vllm.V1.Core (cdiv)

/-- The assertions hold for the layer. -/
def Supported (config : VllmConfig) : KVCacheSpec → Prop
  | .slidingWindow _ _ => config.decodeContextParallelSize = 1
  | .mamba spec => ∀ padded ∈ spec.pageSizePadded, (spec.states.map fun s => s.1 * s.2).sum ≤ padded
  | _ => True

def withLen (config : VllmConfig) (len : Int) : VllmConfig := { config with maxModelLen := len }

theorem pages_mono {f : Int → Int} (hf : Monotone f) (B : ℕ+) (size : Nat) :
    Monotone fun len => cdiv (f len) (B : Nat) * size := fun _ _ h =>
  Int.mul_le_mul_of_nonneg_right (cdiv_mono B (hf h)) (Int.natCast_nonneg size)

theorem localTokens_mono (config : VllmConfig) : Monotone fun len => localTokens (withLen config len) := by
  intro a b h
  unfold localTokens withLen
  dsimp only
  split
  · exact cdiv_mono _ h
  · exact h

/-- The memory of a layer grows with the length. -/
theorem KVCacheSpec.usage_mono {config : VllmConfig} {spec : KVCacheSpec} (h : Supported config spec) :
    ∃ need : Int → Int, Monotone need ∧
      ∀ len, spec.maxMemoryUsageBytes (withLen config len) = .ok (need len) := by
  have hmin : ∀ bound : Int, Monotone fun len => min bound len := fun bound _ _ hle =>
    min_le_min_left bound hle
  cases spec with
  | fullAttention spec =>
    exact ⟨_, pages_mono (localTokens_mono config) spec.blockSize spec.pageSizeBytes, fun _ => rfl⟩
  | mlaAttention spec fp8DsMla =>
    exact ⟨_, pages_mono (localTokens_mono config) spec.blockSize (mlaPageSizeBytes spec fp8DsMla),
      fun _ => rfl⟩
  | chunkedLocalAttention spec attentionChunkSize =>
    exact ⟨_, pages_mono (hmin (attentionChunkSize + config.maxNumBatchedTokens)) spec.blockSize
      spec.pageSizeBytes, fun _ => rfl⟩
  | slidingWindow spec window =>
    -- One page more, whatever the length.
    refine ⟨fun len => (cdiv (min (window - 1 + config.maxNumBatchedTokens) len)
      (spec.blockSize : Nat) + 1) * spec.pageSizeBytes, fun a b hle => ?_, fun len => ?_⟩
    · have := cdiv_mono spec.blockSize (hmin (window - 1 + config.maxNumBatchedTokens) hle)
      exact Int.mul_le_mul_of_nonneg_right (Int.add_le_add_right this 1) (Int.natCast_nonneg _)
    · have hdcp : (withLen config len).decodeContextParallelSize = 1 := h
      rw [KVCacheSpec.maxMemoryUsageBytes, hdcp]
      rfl
  | mamba spec =>
    obtain ⟨size, hsize⟩ : ∃ size, spec.pageSizeBytes = .ok size := by
      unfold MambaSpec.pageSizeBytes
      cases hpadded : spec.pageSizePadded with
      | none => exact ⟨_, rfl⟩
      | some padded =>
        refine ⟨padded, ?_⟩
        dsimp only
        rw [(pyAssert_eq_ok_iff (u := ())).mpr (decide_eq_true (h padded hpadded))]
        rfl
    refine ⟨_, pages_mono monotone_id spec.blockSize size, fun len => ?_⟩
    rw [KVCacheSpec.maxMemoryUsageBytes, hsize]
    rfl
  | encoderOnlyAttention spec => exact ⟨fun _ => 0, monotone_const, fun _ => rfl⟩
  | crossAttention spec =>
    exact ⟨fun _ => cdiv config.maxNumEncoderInputTokens (spec.blockSize : Nat) *
      spec.pageSizeBytes, monotone_const, fun _ => rfl⟩

/-- The memory of all layers grows with the length. -/
theorem maxMemoryUsageBytes_mono {config : VllmConfig} {specs : List KVCacheSpec}
    (h : ∀ spec ∈ specs, Supported config spec) :
    ∃ need : Int → Int, Monotone need ∧
      ∀ len, maxMemoryUsageBytes (withLen config len) specs = .ok (need len) := by
  induction specs with
  | nil => exact ⟨fun _ => 0, monotone_const, fun _ => rfl⟩
  | cons spec specs ih =>
    obtain ⟨need, hneed, hok⟩ := KVCacheSpec.usage_mono (h spec List.mem_cons_self)
    obtain ⟨rest, hrest, hoks⟩ := ih fun spec hspec => h spec (List.mem_cons_of_mem _ hspec)
    refine ⟨fun len => need len + rest len, hneed.add hrest, fun len => ?_⟩
    obtain ⟨sizes, hsizes, hsum⟩ := bind_ok (hoks len)
    rw [maxMemoryUsageBytes, List.mapM_cons, hok, except_ok_bind, hsizes, except_ok_bind]
    dsimp only
    rw [← Except.ok.inj hsum]
    rfl

/-! ### The search -/

section Search
variable {config : VllmConfig} {specs : List KVCacheSpec} {availableMemory : Int} {need : Int → Int}

theorem fitsInMemory_eq
    (hneed : ∀ len, maxMemoryUsageBytes (withLen config len) specs = .ok (need len)) (old len : Int) :
    fitsInMemory specs availableMemory (withLen config old) len =
      .ok (decide (need len ≤ availableMemory), withLen config len) := by
  have := hneed len
  unfold fitsInMemory withLen at *
  dsimp only
  rw [this]
  rfl

/-- What is known in the search up to `top`, when `last` was tried last. While the right end is
`top`, every length that was tried has fit; `top` itself is tried only when nothing else is left. -/
structure SearchInv (need : Int → Int) (availableMemory top left right result last : Int) :
    Prop where
  bounds : 1 ≤ left ∧ left ≤ right + 1 ∧ right ≤ top ∧ 1 ≤ result
  result_eq : result = left - 1 ∨ left = 1 ∧ result = 1
  fits : need result ≤ availableMemory
  above : right = top ∨ availableMemory < need (right + 1)
  tried : right = top ∧ (left = 1 ∨ last = left - 1) ∨ right ≤ top - 2 ∧ last < top ∨
    right = top - 1 ∧ left = top ∧ last = top

theorem searchLoop_spec (hmono : Monotone need)
    (hneed : ∀ len, maxMemoryUsageBytes (withLen config len) specs = .ok (need len))
    {top left right result last : Int}
    (h : SearchInv need availableMemory top left right result last) (htop : 1 ≤ top) :
    ∃ len last', searchLoop specs availableMemory left right result (withLen config last) =
        .ok (len, withLen config last') ∧
      IsGreatest {k | 1 ≤ k ∧ k ≤ top ∧ need k ≤ availableMemory} len ∧
      (last' = top ↔ top = 1 ∨ need (top - 1) ≤ availableMemory) := by
  induction hn : (right + 1 - left).toNat using Nat.strong_induction_on
    generalizing left right result last with
  | _ n ih =>
  obtain ⟨⟨hleft, hright, hle, hone⟩, hresult, hfits, habove, htried⟩ := h
  unfold searchLoop
  split
  · rename_i hcond
    have hmid : left ≤ (left + right) / 2 ∧ (left + right) / 2 ≤ right := by omega
    have hmidTop : (left + right) / 2 = top → left = top := by omega
    dsimp only
    rw [fitsInMemory_eq hneed, except_ok_bind]
    dsimp only
    by_cases hmem : need ((left + right) / 2) ≤ availableMemory
    · rw [if_pos (decide_eq_true hmem)]
      refine ih _ (by omega) ⟨by omega, by omega, hmem, habove, ?_⟩ rfl
      omega
    · rw [if_neg (by simpa using hmem)]
      refine ih _ (by omega) ⟨by omega, hresult, hfits, .inr ?_, by omega⟩ rfl
      rw [Int.sub_add_cancel]
      exact Int.lt_of_not_ge hmem
  · rename_i hcond
    have hresultBounds : 1 ≤ result ∧ result ≤ top := by omega
    refine ⟨result, last, rfl, ⟨⟨hresultBounds.1, hresultBounds.2, hfits⟩, ?_⟩, ?_⟩
    · rintro k ⟨hk, hkTop, hkFits⟩
      refine Int.le_of_not_gt fun hlt => ?_
      -- A longer length lies above the right end.
      have hnot : availableMemory < need (right + 1) := by
        rcases habove with heq | hnot
        · omega
        · exact hnot
      have := hmono (show right + 1 ≤ k by omega)
      omega
    · rcases htried with ⟨rfl, hlast⟩ | ⟨hright', hlast⟩ | ⟨-, rfl, hlast⟩
      · -- Every length that was tried has fit, the last one of them `top`.
        have hfits' := hmono (show right - 1 ≤ result by omega)
        exact ⟨fun _ => .inr (by omega), fun _ => by omega⟩
      · have hnot := hmono (show right + 1 ≤ top - 1 by omega)
        constructor
        · intro heq
          omega
        · rintro (heq | hfits')
          · omega
          · rcases habove with heq | hnot'
            · omega
            · omega
      · have hfits' : left = 1 ∨ need (left - 1) ≤ availableMemory := by
          rcases hresult with rfl | ⟨heq, -⟩
          · exact .inr hfits
          · exact .inl heq
        exact ⟨fun _ => hfits', fun _ => hlast⟩

end Search

/-- The memory grows with the length, and the call returns the greatest length that fits, or 0, and
leaves the configuration as it was. -/
def EstimateOk (config : VllmConfig) (specs : List KVCacheSpec) (availableMemory : Int) : Prop :=
  ∃ need : Int → Int, Monotone need ∧
    (∀ len, maxMemoryUsageBytes { config with maxModelLen := len } specs = .ok (need len)) ∧
    ∃ len, estimateMaxModelLen config specs availableMemory = .ok (len, config) ∧
      (IsGreatest {k | 1 ≤ k ∧ k ≤ config.maxModelLen ∧ need k ≤ availableMemory} len ∨
        len = 0 ∧ ∀ k, 1 ≤ k → k ≤ config.maxModelLen → availableMemory < need k)

/-- The result is right, and the configuration is what it was exactly if the length below the
configured one fits. -/
theorem estimate_max_model_len_iff {config : VllmConfig} {specs : List KVCacheSpec}
    (availableMemory : Int) (hspecs : ∀ spec ∈ specs, Supported config spec)
    (hlen : 1 ≤ config.maxModelLen) :
    EstimateOk config specs availableMemory ↔ config.maxModelLen = 1 ∨
      ∃ n, maxMemoryUsageBytes { config with maxModelLen := config.maxModelLen - 1 } specs = .ok n ∧
        n ≤ availableMemory := by
  obtain ⟨need, hmono, hneed⟩ := maxMemoryUsageBytes_mono hspecs
  have hbelow : (∃ n, maxMemoryUsageBytes { config with maxModelLen := config.maxModelLen - 1 }
      specs = .ok n ∧ n ≤ availableMemory) ↔ need (config.maxModelLen - 1) ≤ availableMemory := by
    have hbelow' := hneed (config.maxModelLen - 1)
    rw [withLen] at hbelow'
    rw [hbelow']
    exact ⟨fun ⟨n, hn, hle⟩ => Except.ok.inj hn ▸ hle, fun hle => ⟨_, rfl, hle⟩⟩
  rw [hbelow]
  -- What the call returns, with the length that it tries last.
  obtain ⟨len, last, hrun, hresult, hlast⟩ : ∃ len last,
      estimateMaxModelLen config specs availableMemory = .ok (len, withLen config last) ∧
      (IsGreatest {k | 1 ≤ k ∧ k ≤ config.maxModelLen ∧ need k ≤ availableMemory} len ∨
        len = 0 ∧ ∀ k, 1 ≤ k → k ≤ config.maxModelLen → availableMemory < need k) ∧
      (last = config.maxModelLen ↔
        config.maxModelLen = 1 ∨ need (config.maxModelLen - 1) ≤ availableMemory) := by
    unfold estimateMaxModelLen
    have hfirst := @fitsInMemory_eq config specs availableMemory need hneed config.maxModelLen 1
    rw [show withLen config config.maxModelLen = config from rfl] at hfirst
    dsimp only
    rw [hfirst, except_ok_bind]
    dsimp only
    by_cases hone : need 1 ≤ availableMemory
    · have hsearch := @searchLoop_spec config specs availableMemory need hmono hneed
        config.maxModelLen 1 config.maxModelLen 1 1
        ⟨by omega, .inr ⟨rfl, rfl⟩, hone, .inl rfl, .inl ⟨rfl, .inl rfl⟩⟩ hlen
      obtain ⟨len, last, hsearch, hgreatest, hlast⟩ := hsearch
      rw [decide_eq_true hone]
      exact ⟨len, last, hsearch, .inl hgreatest, hlast⟩
    · rw [decide_eq_false hone]
      refine ⟨0, 1, rfl, .inr ⟨rfl, fun k hk _ => ?_⟩, ?_⟩
      · have := hmono hk
        omega
      · refine ⟨fun heq => .inl heq.symm, fun h => ?_⟩
        rcases h with heq | hfits
        · exact heq.symm
        · refine (Int.le_antisymm hlen (Int.le_of_not_gt fun hgt => ?_))
          have := hmono (show 1 ≤ config.maxModelLen - 1 by omega)
          omega
  have hsame : withLen config last = config ↔ last = config.maxModelLen :=
    ⟨fun h => congrArg VllmConfig.maxModelLen h, fun h => by rw [h]; rfl⟩
  rw [← hlast, ← hsame]
  constructor
  · rintro ⟨_, _, _, len', hrun', -⟩
    rw [hrun] at hrun'
    exact (Prod.mk.inj (Except.ok.inj hrun')).2
  · intro hconfig
    rw [hconfig] at hrun
    exact ⟨need, hmono, hneed, len, hrun, hresult⟩

/-- Two pages fit, and the configured length needs five. -/
theorem estimate_leaves_tried_length :
    ¬ EstimateOk ⟨70, 64, 64, 1, 1⟩ [.fullAttention ⟨16, 1, 1, 1⟩] 64 := by
  rintro ⟨_, _, _, len, hrun, -⟩
  have htried : estimateMaxModelLen ⟨70, 64, 64, 1, 1⟩ [.fullAttention ⟨16, 1, 1, 1⟩] 64 =
      .ok (32, ⟨33, 64, 64, 1, 1⟩) := by decide +kernel
  rw [htried] at hrun
  exact absurd (congrArg VllmConfig.maxModelLen (Prod.mk.inj (Except.ok.inj hrun)).2) (by decide)

/-- The length below the configured one fits. -/
theorem estimate_restores : EstimateOk ⟨33, 64, 64, 1, 1⟩ [.fullAttention ⟨16, 1, 1, 1⟩] 64 :=
  (estimate_max_model_len_iff 64 (by simp [Supported]) (by decide)).mpr
    (.inr ⟨64, by decide +kernel, by decide⟩)

end Vllm.Proofs.Core
