import Vllm.Proofs.Attention.Metadata
import Vllm.Proofs.Core.Window

/-!
# `Vllm.Proofs.Attention.LocalChunks`: the chunks of a request

A request with `c` computed tokens and `q` query tokens has its query at the positions from `c` to
`c + q`. The chunks cut these positions: `bound j` is where the part of the `j`-th chunk begins, the
first one in the middle of a chunk perhaps. `make_local_attention_virtual_batches` computes the
lengths of the parts by other formulas, from both ends of the request; the lemmas here say that they
are the differences of the bounds.

* `chunkCount`, `bound`: the number of chunks with query tokens, and where they begin.
* `flatMap_bounds`: the parts, one after the other, are the query.
* `firstTokens_eq`, `localBlocks_eq`, `lastTokens_eq`: the formulas of the program.
-/

set_option autoImplicit false

namespace Vllm.Proofs.Attention

open Vllm.Lib Vllm.V1.Core Vllm.Proofs.Core

section Chunks
variable (C : ℕ+) (s : Span)

/-- The chunk of the first query token. -/
def firstChunk : Nat := s.numComputed / C

/-- The number of chunks with query tokens. -/
def chunkCount : Nat := (s.seqLen - 1) / C - s.numComputed / C + 1

/-- Where the query tokens of the `j`-th of these chunks begin. -/
def bound (j : Nat) : Nat :=
  if j = 0 then s.numComputed else min s.seqLen ((firstChunk C s + j) * C)

end Chunks

section Bounds
variable {C : ℕ+} {s : Span} {j : Nat}

/-- The chunks of the first and of the last query token. -/
structure ChunkFacts (C : ℕ+) (s : Span) (a e : Nat) : Prop where
  first_eq : firstChunk C s = a
  count_eq : chunkCount C s = e - a + 1
  le : a ≤ e
  first_le : a * (C : Nat) ≤ s.numComputed
  lt_first : s.numComputed < a * (C : Nat) + C
  last_lt : e * (C : Nat) < s.seqLen
  le_last : s.seqLen ≤ e * (C : Nat) + C

theorem chunkFacts (hq : 0 < s.queryLen) : ∃ a e, ChunkFacts C s a e := by
  have hseq : s.numComputed ≤ s.seqLen - 1 := by
    unfold Span.seqLen
    omega
  have hpos : 0 < s.seqLen := Nat.add_pos_right _ hq
  have hdiv := Nat.div_mul_le_self (s.seqLen - 1) C
  have hmod := Nat.lt_div_mul_add (a := s.seqLen - 1) C.pos
  refine ⟨s.numComputed / C, (s.seqLen - 1) / C, rfl, rfl, Nat.div_le_div_right hseq,
    Nat.div_mul_le_self _ _, Nat.lt_div_mul_add C.pos, ?_, ?_⟩
  · omega
  · omega

/-- The `j`-th chunk, for `j` up to the last one. -/
theorem ChunkFacts.mul_le {a e : Nat} (h : ChunkFacts C s a e) (hj : j < chunkCount C s) :
    (a + j) * (C : Nat) ≤ e * C := by
  rw [h.count_eq] at hj
  have := h.le
  exact Nat.mul_le_mul_right _ (by omega)

theorem bound_zero : bound C s 0 = s.numComputed := if_pos rfl

theorem bound_succ : bound C s (j + 1) = min s.seqLen ((firstChunk C s + (j + 1)) * C) :=
  if_neg (Nat.succ_ne_zero j)

/-- The last bound is the end of the request. -/
theorem bound_chunkCount (hq : 0 < s.queryLen) : bound C s (chunkCount C s) = s.seqLen := by
  obtain ⟨a, e, h⟩ := chunkFacts (C := C) hq
  have hle := h.le
  have hlast : a + (e - a + 1) = e + 1 := by omega
  rw [h.count_eq, bound_succ, h.first_eq, hlast, Nat.succ_mul]
  exact Nat.min_eq_left h.le_last

/-- A chunk begins no later than its query tokens. -/
theorem chunk_le_bound (hq : 0 < s.queryLen) (hj : j < chunkCount C s) :
    (firstChunk C s + j) * C ≤ bound C s j := by
  obtain ⟨a, e, h⟩ := chunkFacts (C := C) hq
  have hmul := h.mul_le hj
  have hlast := h.last_lt
  rw [h.first_eq]
  cases j with
  | zero =>
    rw [bound_zero]
    exact h.first_le
  | succ j =>
    rw [bound_succ, h.first_eq]
    exact Nat.le_min.mpr ⟨by omega, Nat.le_refl _⟩

/-- Each of the chunks has query tokens. -/
theorem bound_lt_bound_succ (hq : 0 < s.queryLen) (hj : j < chunkCount C s) :
    bound C s j < bound C s (j + 1) := by
  obtain ⟨a, e, h⟩ := chunkFacts (C := C) hq
  have hmul := h.mul_le hj
  have hlast := h.last_lt
  have hC := C.pos
  have hsucc : (a + (j + 1)) * (C : Nat) = (a + j) * C + C := by ring
  rw [bound_succ, h.first_eq, hsucc]
  cases j with
  | zero =>
    have := h.lt_first
    rw [bound_zero, Nat.add_zero]
    refine Nat.lt_min.mpr ⟨?_, this⟩
    unfold Span.seqLen
    omega
  | succ j =>
    rw [bound_succ, h.first_eq]
    refine Nat.lt_of_le_of_lt (Nat.min_le_right _ _) ?_
    exact Nat.lt_min.mpr ⟨by omega, by omega⟩

theorem bound_succ_le : bound C s (j + 1) ≤ (firstChunk C s + j) * C + C := by
  rw [bound_succ]
  refine (Nat.min_le_right _ _).trans (Nat.le_of_eq ?_)
  ring

theorem bound_le_seqLen : bound C s j ≤ s.seqLen := by
  unfold bound
  split
  · exact Nat.le_add_right _ _
  · exact Nat.min_le_left _ _

/-- A position between two bounds is in the chunk. -/
theorem div_of_mem_bounds (hq : 0 < s.queryLen) (hj : j < chunkCount C s) {p : Nat}
    (hle : bound C s j ≤ p) (hlt : p < bound C s (j + 1)) : p / C = firstChunk C s + j := by
  have hchunk := chunk_le_bound hq hj
  have hnext := bound_succ_le (C := C) (s := s) (j := j)
  rw [Nat.div_eq_iff C.pos]
  omega

/-- Ranges between bounds that do not go down, one after the other. -/
theorem flatMap_range'_bounds {B : Nat → Nat} {n : Nat} (h : ∀ j < n, B j ≤ B (j + 1)) :
    (List.range n).flatMap (fun j => List.range' (B j) (B (j + 1) - B j)) =
      List.range' (B 0) (B n - B 0) := by
  induction n with
  | zero => simp
  | succ n ih =>
    have hle : ∀ k ≤ n, B 0 ≤ B k := by
      intro k hk
      induction k with
      | zero => exact Nat.le_refl _
      | succ k ihk => exact (ihk (by omega)).trans (h k (by omega))
    have hn := hle n (Nat.le_refl n)
    have hlast := h n (Nat.lt_succ_self n)
    rw [List.range_succ, List.flatMap_append, ih fun j hj => h j (by omega), List.flatMap_cons,
      List.flatMap_nil, List.append_nil]
    have happend := List.range'_append_1 (s := B 0) (m := B n - B 0) (n := B (n + 1) - B n)
    rw [Nat.add_sub_cancel' hn] at happend
    rw [happend]
    congr 1
    omega

/-- The parts of the chunks are the query. -/
theorem flatMap_bounds (hq : 0 < s.queryLen) : (List.range (chunkCount C s)).flatMap
        (fun j => List.range' (bound C s j) (bound C s (j + 1) - bound C s j)) =
      List.range' s.numComputed s.queryLen := by
  have hlen : s.seqLen - s.numComputed = s.queryLen := Nat.add_sub_cancel_left ..
  have hparts := flatMap_range'_bounds (B := bound C s) (n := chunkCount C s)
    fun j hj => Nat.le_of_lt (bound_lt_bound_succ hq hj)
  rw [hparts, bound_chunkCount hq, bound_zero, hlen]

end Bounds

/-! ### The formulas of the program -/

section Formulas
variable {C : ℕ+} {s : Span} {j : Nat}

/-- `cdiv(a, b)` is the number of chunks of `b` that cover `a`. -/
theorem cdiv_eq {x k : Int} (hle : x ≤ k * (C : Nat)) (hlt : (k - 1) * (C : Nat) < x) :
    cdiv x (C : Nat) = k := by
  have hupper := (cdiv_le_iff C).mpr hle
  have hlower : ¬ cdiv x (C : Nat) ≤ k - 1 := fun h =>
    absurd ((cdiv_le_iff C).mp h) (Int.not_le.mpr hlt)
  omega

/-- `q_tokens_in_first_block`. -/
theorem firstTokens_eq (hq : 0 < s.queryLen) :
    min ((C : Int) - ((s.seqLen : Int) - s.queryLen) % C) s.queryLen =
      ((bound C s 1 - s.numComputed : Nat) : Int) := by
  obtain ⟨a, e, h⟩ := chunkFacts (C := C) hq
  have hle := h.first_le
  have hlt := h.lt_first
  have hone : (a + (0 + 1)) * (C : Nat) = a * C + C := by ring
  have hcomputed : (s.seqLen : Int) - s.queryLen = s.numComputed := by
    unfold Span.seqLen
    omega
  have hmod : (s.numComputed : Int) % ((C : Nat) : Int) = s.numComputed - (a * (C : Nat) : Nat) := by
    have hmod := Nat.mod_add_div s.numComputed C
    have hdiv : s.numComputed / C = a := h.first_eq
    rw [hdiv, Nat.mul_comm] at hmod
    omega
  rw [hcomputed, bound_succ, h.first_eq, hone, hmod]
  unfold Span.seqLen
  omega

/-- The query tokens after the first block. -/
theorem restTokens_eq (hq : 0 < s.queryLen) :
    (s.queryLen : Int) - ((bound C s 1 - s.numComputed : Nat) : Int) =
      ((s.seqLen - bound C s 1 : Nat) : Int) := by
  have hfirst := bound_lt_bound_succ (C := C) hq (Nat.succ_pos _ : 0 < chunkCount C s)
  have hle := bound_le_seqLen (C := C) (s := s) (j := 1)
  rw [bound_zero, Nat.zero_add] at hfirst
  unfold Span.seqLen at hle ⊢
  omega

/-- `local_blocks`. -/
theorem localBlocks_eq (hq : 0 < s.queryLen) :
    (1 + cdiv ((s.seqLen - bound C s 1 : Nat) : Int) C).toNat = chunkCount C s := by
  obtain ⟨a, e, h⟩ := chunkFacts (C := C) hq
  have hae := h.le
  have hlast := h.last_lt
  have hle := h.le_last
  have hone : (a + (0 + 1)) * (C : Nat) = a * C + C := by ring
  have hcount : cdiv ((s.seqLen - bound C s 1 : Nat) : Int) C = ((e - a : Nat) : Int) := by
    have hdiff : (e - a) * (C : Nat) = e * C - a * C := Nat.sub_mul ..
    have hmul : a * (C : Nat) ≤ e * C := Nat.mul_le_mul_right _ hae
    rw [bound_succ, h.first_eq, hone]
    apply cdiv_eq
    · have : s.seqLen - min s.seqLen (a * C + C) ≤ (e - a) * (C : Nat) := by omega
      exact_mod_cast this
    · rw [sub_mul, one_mul]
      have : ((e - a : Nat) : Int) * (C : Nat) = (((e - a) * (C : Nat) : Nat) : Int) := by push_cast; rfl
      rw [this]
      omega
  rw [hcount, h.count_eq]
  omega

/-- `tokens_in_last_block`. -/
theorem lastTokens_eq (hq : 0 < s.queryLen) : (C : Int) + Int.fmod s.seqLen (-(C : Int)) =
      ((s.seqLen - (firstChunk C s + (chunkCount C s - 1)) * C : Nat) : Int) := by
  obtain ⟨a, e, h⟩ := chunkFacts (C := C) hq
  have hlast := h.last_lt
  have hcdiv : cdiv (s.seqLen : Int) C = (e + 1 : Nat) := by
    apply cdiv_eq
    · have hle := h.le_last
      rw [← Nat.succ_mul] at hle
      exact_mod_cast hle
    · push_cast
      rw [Int.add_sub_cancel]
      exact_mod_cast hlast
  have hae := h.le
  have hchunk : a + (e - a + 1 - 1) = e := by omega
  have hdiv : Int.fdiv s.seqLen (-(C : Int)) = -((e + 1 : Nat) : Int) := by
    rw [← hcdiv, cdiv, Int.neg_neg]
  rw [Int.fmod_def, hdiv, h.first_eq, h.count_eq, hchunk, Nat.cast_sub (Nat.le_of_lt hlast)]
  push_cast
  ring

/-- `seqlens_q_local` of the blocks after the first. -/
theorem queryTokens_eq (hq : 0 < s.queryLen) (hj : j + 1 < chunkCount C s) :
    min (((s.seqLen - bound C s 1 : Nat) : Int) - C * (((j + 1 : Nat) : Int) - 1)) C =
      ((bound C s (j + 2) - bound C s (j + 1) : Nat) : Int) := by
  obtain ⟨a, e, h⟩ := chunkFacts (C := C) hq
  have hmul := h.mul_le hj
  have hlast := h.last_lt
  have hone : (a + (0 + 1)) * (C : Nat) = a * C + C := by ring
  have hthis : (a + (j + 1)) * (C : Nat) = a * C + C * j + C := by ring
  have hnext : (a + (j + 1 + 1)) * (C : Nat) = a * C + C * j + C + C := by ring
  have hcast : ((C : Nat) : Int) * (((j + 1 : Nat) : Int) - 1) = ((C * j : Nat) : Int) := by
    push_cast
    ring
  rw [hthis] at hmul
  rw [hcast, bound_succ, bound_succ, bound_succ, h.first_eq, hone, hthis, hnext]
  omega

/-- `seqlens_k_local`. -/
theorem keyTokens_eq (hq : 0 < s.queryLen) (hj : j < chunkCount C s) :
    (if j + 1 = chunkCount C s then
        ((s.seqLen - (firstChunk C s + (chunkCount C s - 1)) * C : Nat) : Int) else C) =
      ((bound C s (j + 1) - (firstChunk C s + j) * C : Nat) : Int) := by
  obtain ⟨a, e, h⟩ := chunkFacts (C := C) hq
  split
  · rename_i heq
    have hend := bound_chunkCount (C := C) hq
    rw [← heq] at hend ⊢
    rw [hend, Nat.add_sub_cancel]
  · rename_i hne
    have hj' : j + 1 < chunkCount C s := by omega
    have hmul := h.mul_le hj'
    have hlast := h.last_lt
    have hnext : (a + (j + 1)) * (C : Nat) = (a + j) * C + C := by ring
    rw [hnext] at hmul
    rw [bound_succ, h.first_eq, hnext]
    omega

/-- `k_seqstarts_absolute`. -/
theorem keyStart_eq (hq : 0 < s.queryLen) :
    (s.seqLen : Int) - (((chunkCount C s : Nat) - (j : Int) - 1) * (C : Int) +
        ((s.seqLen - (firstChunk C s + (chunkCount C s - 1)) * C : Nat) : Int)) =
      (((firstChunk C s + j) * C : Nat) : Int) := by
  obtain ⟨a, e, h⟩ := chunkFacts (C := C) hq
  have hae := h.le
  have hlast := h.last_lt
  have hchunk : a + (e - a + 1 - 1) = e := by omega
  rw [h.first_eq, h.count_eq, hchunk, Nat.cast_sub (Nat.le_of_lt hlast)]
  push_cast [Nat.cast_sub hae]
  ring

end Formulas

end Vllm.Proofs.Attention
