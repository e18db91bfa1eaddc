import Vllm.Lib.Ragged
import Vllm.V1.Attention.Backends.Utils

/-!
# `Vllm.Proofs.Attention.Metadata`: what the attention metadata says of the requests

* `Span`: the query tokens of a request and the tokens before them.
* `startLocs`: where the queries of the requests begin.
* `Describes`: the metadata is the one of a list of spans.
-/

set_option autoImplicit false

namespace Vllm.Proofs.Attention

open Vllm.Lib Vllm.V1.Attention List

/-- The tokens of a request in a step. -/
structure Span where
  queryLen : Nat
  numComputed : Nat
deriving DecidableEq, Repr

/-- The tokens that the request has with this step. -/
def Span.seqLen (s : Span) : Nat := s.numComputed + s.queryLen

/-- The number of query tokens. -/
def numTokens (spans : List Span) : Nat := (spans.map Span.queryLen).sum

@[simp] theorem numTokens_nil : numTokens [] = 0 := rfl

@[simp] theorem numTokens_cons (s : Span) (spans : List Span) :
    numTokens (s :: spans) = s.queryLen + numTokens spans := by
  simp [numTokens]

@[simp] theorem numTokens_append (spans spans' : List Span) :
    numTokens (spans ++ spans') = numTokens spans + numTokens spans' := by
  simp [numTokens]

/-- `query_start_loc`. -/
def startLocs (spans : List Span) : List Int :=
  (0 :: cumsum (spans.map Span.queryLen)).map fun n : Nat => (n : Int)

section StartLocs
variable {spans : List Span} {i : Nat}

@[simp] theorem length_startLocs : (startLocs spans).length = spans.length + 1 := by
  simp [startLocs]

theorem getElem?_startLocs (h : i ≤ spans.length) :
    (startLocs spans)[i]? = some (numTokens (spans.take i) : Int) := by
  cases i with
  | zero => simp [startLocs]
  | succ i =>
    have hlt : i < (spans.map Span.queryLen).length := by rwa [length_map]
    simp [startLocs, getElem?_cumsum hlt, numTokens, map_take]

theorem numTokens_take_succ {s : Span} (h : spans[i]? = some s) :
    numTokens (spans.take (i + 1)) = numTokens (spans.take i) + s.queryLen := by
  rw [take_add_one, h]
  simp

theorem numTokens_take_mono {j : Nat} (h : i ≤ j) :
    numTokens (spans.take i) ≤ numTokens (spans.take j) := by
  obtain ⟨d, rfl⟩ := Nat.exists_eq_add_of_le h
  rw [take_add, numTokens_append]
  exact Nat.le_add_right _ _

/-- The differences of the starts are the query lengths. -/
theorem stepDiffs_startLocs : stepDiffs (startLocs spans) = spans.map fun s => (s.queryLen : Int) := by
  apply ext_getElem?
  intro i
  unfold stepDiffs
  rw [getElem?_zipWith, getElem?_drop, getElem?_dropLast, length_startLocs,
    getElem?_map]
  by_cases hi : i < spans.length
  · have hget : spans[i]? = some spans[i] := getElem?_eq_getElem hi
    rw [if_pos (by omega), getElem?_startLocs (by omega), getElem?_startLocs (by omega),
      Nat.add_comm 1 i, numTokens_take_succ hget, hget]
    simp
  · rw [if_neg (by omega), getElem?_eq_none (Nat.le_of_not_lt hi)]
    cases (startLocs spans)[1 + i]? <;> rfl

end StartLocs

/-- The largest item is there when some item is. -/
theorem maxItem_ok {x : List Int} (h : x ≠ []) : ∃ v, maxItem x = .ok v := by
  cases x with
  | nil => exact absurd rfl h
  | cons v vs => exact ⟨_, rfl⟩

/-- The metadata of a batch whose requests have the given spans. -/
structure Describes (m : CommonAttentionMetadata) (spans : List Span) : Prop where
  queryStartLoc : m.queryStartLoc = startLocs spans
  queryStartLocCpu : m.queryStartLocCpu = startLocs spans
  seqLens : m.seqLens = spans.map fun s => (s.seqLen : Int)
  seqLensCpu? : ∀ l, m.seqLensCpu? = some l → l = m.seqLens
  numComputedTokensCpu? : ∀ l, m.numComputedTokensCpu? = some l →
    l = spans.map fun s => (s.numComputed : Int)
  numReqs : m.numReqs = spans.length
  numActualTokens : m.numActualTokens = numTokens spans
  maxQueryLen : m.maxQueryLen = ((spans.map Span.queryLen).foldr max 0 : Nat)

section Describes
variable {m : CommonAttentionMetadata} {spans : List Span}

theorem Describes.seqLensCpu (h : Describes m spans) :
    m.seqLensCpu = spans.map fun s => (s.seqLen : Int) := by
  unfold CommonAttentionMetadata.seqLensCpu
  cases hcpu : m.seqLensCpu? with
  | none => rw [Option.getD_none, h.seqLens]
  | some l => rw [Option.getD_some, h.seqLensCpu? l hcpu, h.seqLens]

/-- The difference of the lengths, or what the runner gave. -/
theorem Describes.numComputedTokensCpu (h : Describes m spans) :
    m.numComputedTokensCpu = spans.map fun s => (s.numComputed : Int) := by
  unfold CommonAttentionMetadata.numComputedTokensCpu
  cases hcpu : m.numComputedTokensCpu? with
  | none =>
    rw [Option.getD_none, h.seqLensCpu, h.queryStartLocCpu, stepDiffs_startLocs,
      zipWith_map, zipWith_self]
    refine map_congr_left fun s _ => ?_
    unfold Span.seqLen
    omega
  | some l => rw [Option.getD_some, h.numComputedTokensCpu? l hcpu]

end Describes

end Vllm.Proofs.Attention
