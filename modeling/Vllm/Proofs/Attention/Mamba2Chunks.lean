import Vllm.Proofs.Attention.BatchReorder
import Vllm.Proofs.Attention.LocalChunks
import Vllm.V1.Attention.Backends.Mamba2Attn

/-!
# `Vllm.Proofs.Attention.Mamba2Chunks`: where the chunks of Mamba2 begin and end

The loop appends to its lists only, so what holds of the boundaries that are there goes on to hold
when more come. `CutTo` says how far the loop is: it is through the requests before the `n`-th one and
through `d` of the new tokens of that one. A chunk may be added when it ends in the request, has at
most `chunk_size` tokens and goes over no multiple of `chunk_size` (`CutTo.addChunk`). The first chunk
of a request stops at the next multiple, so that each of the others begins at one.

* `finishChunk_cut`, `chunkLoop_cut`: the first chunk of a request and the ones after it.
* `prefill_chunks_at_multiples`: what `build` makes for a batch.
-/

set_option autoImplicit false

namespace Vllm.Proofs.Attention

open Vllm.Lib Vllm.V1.Core Vllm.V1.Attention Vllm.V1.Worker

/-! ### What is said of the chunks -/

/-- Chunk `k`, between two of the boundaries `b`, is a part of request `r` that fits. -/
def ChunkAt (C : ℕ+) (spans : List Span) (b : List Int) (k r : Nat) : Prop :=
  ∃ lo hi : Nat, r < spans.length ∧ b[k]? = some (lo : Int) ∧ b[k + 1]? = some (hi : Int) ∧
    numTokens (spans.take r) ≤ lo ∧ lo < hi ∧ hi ≤ numTokens (spans.take (r + 1)) ∧ hi ≤ lo + C

/-- The position `p` of request `r` in the flattened tokens. -/
def flatPos (spans : List Span) (r : Nat) (s : Span) (p : Nat) : Nat :=
  numTokens (spans.take r) + (p - s.numComputed)

/-- The last chunk of request `r` by the lists, and that it ends with the request. -/
def LastChunkAt (spans : List Span) (c : PrefillChunks) (b : List Int) (r : Nat) : Prop :=
  ∃ k : Nat, c.lastChunkIndices[r]? = some (k : Int) ∧ c.seqIdx[k]? = some r ∧
    b[k + 1]? = some (numTokens (spans.take (r + 1)) : Int)

/-- The boundaries, with the end of the last chunk. -/
def bounds (c : PrefillChunks) : List Int := c.cuChunkSeqlen ++ [c.seqlenPos]

/-- The loop is through `n` requests and `d` tokens. -/
structure CutTo (C : ℕ+) (spans : List Span) (n d : Nat) (c : PrefillChunks) : Prop where
  length : c.seqIdx.length = c.cuChunkSeqlen.length
  pos : c.seqlenPos = (numTokens (spans.take n) + d : Nat)
  first : (bounds c)[0]? = some 0
  chunk : ∀ k r, c.seqIdx[k]? = some r → ChunkAt C spans (bounds c) k r
  multiple : ∀ r s p, spans[r]? = some s → s.numComputed < p → p < s.seqLen → (C : Nat) ∣ p →
    (r < n ∨ r = n ∧ p ≤ s.numComputed + d) → (flatPos spans r s p : Int) ∈ bounds c
  lastLength : c.lastChunkIndices.length = n
  last : ∀ r < n, LastChunkAt spans c (bounds c) r
  current : 0 < d → c.seqIdx.getLast? = some n

section Step
variable {C : ℕ+} {spans : List Span} {n d : Nat} {c : PrefillChunks} {s : Span}

theorem bounds_addChunk {l : Int} : bounds (c.addChunk n l) = bounds c ++ [c.seqlenPos + l] := rfl

/-- What is at an index stays there. -/
theorem getElem?_append_of_some {α : Type} {l l' : List α} {k : Nat} {a : α} (h : l[k]? = some a) :
    (l ++ l')[k]? = some a := by
  rw [List.getElem?_append_left (List.getElem?_eq_some_iff.mp h).1, h]

/-- The end of the last chunk is the last boundary. -/
theorem CutTo.getElem?_length (h : CutTo C spans n d c) :
    (bounds c)[c.seqIdx.length]? = some ((numTokens (spans.take n) + d : Nat) : Int) := by
  rw [h.length, bounds, List.getElem?_concat_length, h.pos]

/-- One more chunk of `l` tokens. -/
theorem CutTo.addChunk (h : CutTo C spans n d c) (hs : spans[n]? = some s) {l : Nat} (hl : 0 < l)
    (hC : l ≤ C) (hd : d + l ≤ s.queryLen)
    (hno : ∀ p, s.numComputed + d < p → p < s.numComputed + d + l → ¬ (C : Nat) ∣ p) :
    CutTo C spans n (d + l) (c.addChunk n l) := by
  have hn : n < spans.length := (List.getElem?_eq_some_iff.mp hs).1
  have hend : c.seqlenPos + (l : Int) = (numTokens (spans.take n) + (d + l) : Nat) := by
    rw [h.pos]
    push_cast
    ring
  constructor
  · simp [PrefillChunks.addChunk, h.length]
  · exact hend
  · rw [bounds_addChunk]
    exact getElem?_append_of_some h.first
  · intro k r hk
    rw [bounds_addChunk, hend]
    by_cases hlt : k < c.seqIdx.length
    · have hold : c.seqIdx[k]? = some r := by
        rwa [PrefillChunks.addChunk, List.getElem?_append_left hlt] at hk
      obtain ⟨lo, hi, hr, hlo, hhi, hrest⟩ := h.chunk k r hold
      exact ⟨lo, hi, hr, getElem?_append_of_some hlo, getElem?_append_of_some hhi, hrest⟩
    · -- the new chunk begins at the old end
      have hlen : k = c.seqIdx.length := by
        have := (List.getElem?_eq_some_iff.mp hk).1
        simp [PrefillChunks.addChunk] at this
        omega
      have hrn : r = n := by
        rw [hlen, PrefillChunks.addChunk, List.getElem?_concat_length] at hk
        exact (Option.some.inj hk).symm
      have hbounds : (bounds c).length = c.seqIdx.length + 1 := by simp [bounds, h.length]
      have hnew : (bounds c ++ [((numTokens (spans.take n) + (d + l) : Nat) : Int)])[k + 1]? =
          some ((numTokens (spans.take n) + (d + l) : Nat) : Int) := by
        rw [hlen, ← hbounds, List.getElem?_concat_length]
      rw [hrn]
      refine ⟨_, _, hn, getElem?_append_of_some (hlen ▸ h.getElem?_length), hnew, ?_, ?_, ?_, ?_⟩
      · exact Nat.le_add_right _ _
      · omega
      · rw [numTokens_take_succ hs]
        omega
      · omega
  · intro r t p ht hlo hhi hdvd hwhere
    rw [bounds_addChunk, hend]
    by_cases hin : r < n ∨ r = n ∧ p ≤ t.numComputed + d
    · exact List.mem_append_left _ (h.multiple r t p ht hlo hhi hdvd hin)
    · -- a multiple that was not yet reached is the end of the new chunk
      have hrn : r = n := by omega
      subst hrn
      cases ht.symm.trans hs
      have hp : p = s.numComputed + d + l := by
        by_contra hne
        exact hno p (by omega) (by omega) hdvd
      apply List.mem_append_right
      rw [List.mem_singleton, flatPos, hp]
      congr 2
      omega
  · exact h.lastLength
  · intro r hr
    obtain ⟨k, hk, hseq, hb⟩ := h.last r hr
    exact ⟨k, hk, getElem?_append_of_some hseq, getElem?_append_of_some hb⟩
  · intro _
    exact List.getLast?_concat

/-- Less than `C` after a multiple of `C` there is no other one. -/
theorem not_dvd_between {a p : Nat} (ha : (C : Nat) ∣ a) (hlo : a < p) (hhi : p < a + C) :
    ¬ (C : Nat) ∣ p := by
  intro hp
  have hsub : (C : Nat) ∣ p - a := Nat.dvd_sub hp ha
  have := Nat.le_of_dvd (by omega) hsub
  omega

/-- The first chunk: what is left of the new tokens begins at a multiple. -/
theorem finishChunk_cut (h : CutTo C spans n 0 c) (hs : spans[n]? = some s) (hq : 0 < s.queryLen) :
    ∃ d c', finishChunk (C : Nat) n s.numComputed s.queryLen c =
        (((s.queryLen - d : Nat) : Int), c') ∧ CutTo C spans n d c' ∧ d ≤ s.queryLen ∧
        ((C : Nat) ∣ s.numComputed + d ∨ d = s.queryLen) := by
  have hdiv := Nat.div_add_mod s.numComputed C
  have hmod : ((s.numComputed : Int) % ((C : Nat) : Int)) = ((s.numComputed % C : Nat) : Int) :=
    (Int.natCast_mod ..).symm
  by_cases haligned : s.numComputed % C = 0
  · refine ⟨0, c, ?_, h, Nat.zero_le _, .inl (Nat.dvd_of_mod_eq_zero haligned)⟩
    simp [finishChunk, hmod, haligned]
  · have hlt : s.numComputed % C < C := Nat.mod_lt _ C.pos
    have hcdiv : cdiv (s.numComputed : Int) (C : Nat) = ((s.numComputed / C + 1 : Nat) : Int) := by
      apply cdiv_eq
      · have : s.numComputed ≤ (s.numComputed / C + 1) * C := by
          rw [Nat.succ_mul, Nat.mul_comm]
          omega
        exact_mod_cast this
      · have : s.numComputed / C * C < s.numComputed := by
          rw [Nat.mul_comm]
          omega
        rw [Nat.cast_succ, add_sub_cancel_right]
        exact_mod_cast this
    -- what the chunk before is short of
    have hgap : (((s.numComputed / C + 1 : Nat) : Int) * ((C : Nat) : Int) - s.numComputed) =
        ((C - s.numComputed % C : Nat) : Int) := by
      have : (s.numComputed / C + 1) * (C : Nat) = s.numComputed + (C - s.numComputed % C) := by
        rw [Nat.succ_mul, Nat.mul_comm]
        omega
      rw [← Nat.cast_mul, this]
      omega
    have hmin : min (((C - s.numComputed % C : Nat) : Int)) (s.queryLen : Int) =
        ((min (C - s.numComputed % C) s.queryLen : Nat) : Int) := by omega
    have hnext : (C : Nat) ∣ s.numComputed + (C - s.numComputed % C) := by
      refine ⟨s.numComputed / C + 1, ?_⟩
      rw [Nat.mul_succ]
      omega
    have hbase : (C : Nat) ∣ s.numComputed - s.numComputed % C := Nat.dvd_sub_mod _
    refine ⟨min (C - s.numComputed % C) s.queryLen, _, ?_,
      Nat.zero_add (min (C - s.numComputed % C) s.queryLen) ▸ h.addChunk hs (by omega) (by omega)
        (by omega) fun p hlo hhi => not_dvd_between hbase (by omega) (by omega),
      Nat.min_le_right _ _, ?_⟩
    · rw [finishChunk, if_pos (by rw [hmod]; exact_mod_cast haligned), hcdiv, hgap, hmin]
      simp only [Prod.mk.injEq, and_true]
      omega
    · rcases Nat.le_total (C - s.numComputed % C) s.queryLen with hle | hle
      · rw [Nat.min_eq_left hle]
        exact .inl hnext
      · exact .inr (Nat.min_eq_right hle)

/-- The chunks after the first one, by induction on how many there are. -/
theorem chunkLoop_cut (hs : spans[n]? = some s) (k : Nat) :
    ∀ {d : Nat} {c : PrefillChunks}, CutTo C spans n d c → d ≤ s.queryLen →
      ((C : Nat) ∣ s.numComputed + d ∨ d = s.queryLen) → s.queryLen - d ≤ k * C →
      k * C < s.queryLen - d + C →
      ∃ c', chunkLoop (C : Nat) n k (s.queryLen - d : Nat) c = (0, c') ∧
        CutTo C spans n s.queryLen c' := by
  induction k with
  | zero =>
    intro d c h hd _ hle _
    have hall : d = s.queryLen := by omega
    subst hall
    exact ⟨c, by simp [chunkLoop], h⟩
  | succ k ih =>
    intro d c h hd haligned hle hlt
    rw [Nat.succ_mul] at hle hlt
    have hleft : 0 < s.queryLen - d := by omega
    have hmul : (C : Nat) ∣ s.numComputed + d := by
      rcases haligned with hmul | hall
      · exact hmul
      · omega
    have hpos := C.pos
    have hmin : min ((C : Nat) : Int) ((s.queryLen - d : Nat) : Int) =
        ((min (C : Nat) (s.queryLen - d) : Nat) : Int) := by omega
    have hrest : ((s.queryLen - d : Nat) : Int) - ((min (C : Nat) (s.queryLen - d) : Nat) : Int) =
        ((s.queryLen - (d + min (C : Nat) (s.queryLen - d)) : Nat) : Int) := by omega
    have hcut := h.addChunk hs (l := min (C : Nat) (s.queryLen - d)) (by omega) (by omega)
      (by omega) fun p hlo hhi => not_dvd_between hmul hlo (by omega)
    rw [chunkLoop, hmin, hrest]
    refine ih hcut (by omega) ?_ (by omega) (by omega)
    rcases Nat.le_total (C : Nat) (s.queryLen - d) with hfull | hshort
    · rw [Nat.min_eq_left hfull, ← Nat.add_assoc]
      exact .inl (Nat.dvd_add hmul (Nat.dvd_refl _))
    · rw [Nat.min_eq_right hshort]
      exact .inr (by omega)

/-- The next request. -/
theorem addRequestChunks_cut {computed starts : List Int} (h : CutTo C spans n 0 c)
    (hs : spans[n]? = some s) (hq : 0 < s.queryLen)
    (hcomputed : computed[n]? = some (s.numComputed : Int))
    (hstart : starts[n]? = some (numTokens (spans.take n) : Int))
    (hstop : starts[n + 1]? = some (numTokens (spans.take (n + 1)) : Int)) :
    ∃ c', addRequestChunks (C : Nat) computed starts c n = .ok c' ∧ CutTo C spans (n + 1) 0 c' := by
  obtain ⟨d, c1, hfirst, hcut, hd, haligned⟩ := finishChunk_cut h hs hq
  obtain ⟨k, hk⟩ : ∃ k : Nat, (s.queryLen - d) ≤ k * C ∧ k * C < s.queryLen - d + C := by
    refine ⟨(s.queryLen - d + (C - 1)) / C, ?_⟩
    have hdiv := Nat.div_add_mod (s.queryLen - d + (C - 1)) C
    have hmod := Nat.mod_lt (s.queryLen - d + (C - 1)) C.pos
    have hpos := C.pos
    rw [Nat.mul_comm] at hdiv
    omega
  have hcdiv : (cdiv ((s.queryLen - d : Nat) : Int) (C : Nat)).toNat = k := by
    have heq : cdiv ((s.queryLen - d : Nat) : Int) (C : Nat) = (k : Int) := by
      apply cdiv_eq
      · exact_mod_cast hk.1
      · rw [Int.sub_mul, Int.one_mul]
        have := hk.2
        omega
    rw [heq, Int.toNat_natCast]
  obtain ⟨c2, hloop, hdone⟩ := chunkLoop_cut hs k hcut hd haligned hk.1 hk.2
  have hlen : ((numTokens (spans.take (n + 1)) : Nat) : Int) - (numTokens (spans.take n) : Nat) =
      (s.queryLen : Nat) := by
    rw [numTokens_take_succ hs]
    omega
  have hlast := hdone.current hq
  have hne : c2.cuChunkSeqlen.length = (c2.seqIdx.length - 1) + 1 := by
    rw [← hdone.length]
    cases hseq : c2.seqIdx with
    | nil => rw [hseq] at hlast; cases hlast
    | cons r rs => rfl
  refine ⟨{ c2 with lastChunkIndices := c2.lastChunkIndices ++
    [(c2.cuChunkSeqlen.length : Int) - 1] }, ?_, ?_⟩
  · simp only [addRequestChunks, getItem, hcomputed, hstart, hstop, except_ok_bind, hlen, hfirst,
      hcdiv, hloop, pyAssert, beq_self_eq_true, if_true]
    rfl
  · constructor
    · exact hdone.length
    · rw [hdone.pos, numTokens_take_succ hs, Nat.add_zero]
    · exact hdone.first
    · exact hdone.chunk
    · intro r t p ht hlo hhi hdvd hwhere
      refine hdone.multiple r t p ht hlo hhi hdvd ?_
      by_cases hr : r < n
      · exact .inl hr
      · -- a position of the request itself, or none
        have hrn : r = n := by
          rcases hwhere with hlt | ⟨_, hle⟩ <;> omega
        subst hrn
        cases ht.symm.trans hs
        unfold Span.seqLen at hhi
        exact .inr ⟨rfl, by omega⟩
    · simp [hdone.lastLength]
    · intro r hr
      by_cases hrn : r < n
      · obtain ⟨k, hk, hseq, hb⟩ := hdone.last r hrn
        exact ⟨k, getElem?_append_of_some hk, hseq, hb⟩
      · have hrn : r = n := by omega
        subst hrn
        refine ⟨c2.seqIdx.length - 1, ?_, ?_, ?_⟩
        · have := hdone.lastLength
          rw [← this, List.getElem?_concat_length, hne]
          simp
        · rwa [← List.getLast?_eq_getElem?]
        · have := hdone.getElem?_length
          rw [← numTokens_take_succ hs] at this
          rwa [← hne, ← hdone.length]
    · intro h0
      cases h0

end Step

/-! ### The batch -/

/-- The chunks of Mamba2 for a batch of prefill requests behind the decode requests: they cover the
flattened prefill tokens in order, a boundary is at each multiple of the chunk size inside the new
tokens of a request, and the last chunk of a request has its last token. -/
theorem prefill_chunks_at_multiples (C : ℕ+) {decodes prefills : List Span}
    {m : CommonAttentionMetadata} (h : Describes m (decodes ++ prefills))
    (hnew : ∀ s ∈ prefills, 0 < s.queryLen) :
    ∃ c, buildPrefillChunks (C : Nat) m prefills.length (numTokens decodes) = .ok c ∧
      c.cuChunkSeqlen.length = c.seqIdx.length + 1 ∧ c.cuChunkSeqlen[0]? = some 0 ∧
      c.cuChunkSeqlen.getLast? = some (numTokens prefills : Int) ∧
      (∀ k r, c.seqIdx[k]? = some r → ChunkAt C prefills c.cuChunkSeqlen k r) ∧
      (∀ r s p, prefills[r]? = some s → s.numComputed < p → p < s.seqLen → (C : Nat) ∣ p →
        (flatPos prefills r s p : Int) ∈ c.cuChunkSeqlen) ∧
      c.lastChunkIndices.length = prefills.length ∧
      ∀ r < prefills.length, LastChunkAt prefills c c.cuChunkSeqlen r := by
  have hcomputed : ((m.numComputedTokensCpu.take m.numReqs.toNat).drop
      (m.numReqs - (prefills.length : Nat)).toNat) =
      prefills.map fun s => (s.numComputed : Int) := by
    have hlen : ((decodes ++ prefills).length : Int) - prefills.length = (decodes.length : Nat) := by
      simp
    rw [h.numComputedTokensCpu, h.numReqs, hlen, Int.toNat_natCast, Int.toNat_natCast,
      ← List.map_take, ← List.map_drop, List.take_length, List.drop_left]
  have hstarts : ∀ i ≤ prefills.length,
      ((m.queryStartLocCpu.drop (m.queryStartLocCpu.length - (prefills.length + 1))).map
        (· - ((numTokens decodes : Nat) : Int)))[i]? = some (numTokens (prefills.take i) : Int) := by
    intro i hi
    have hskip : (startLocs (decodes ++ prefills)).length - (prefills.length + 1) =
        decodes.length := by
      rw [length_startLocs, List.length_append]
      omega
    rw [h.queryStartLocCpu, hskip, List.getElem?_map, List.getElem?_drop,
      getElem?_startLocs (by rw [List.length_append]; omega), List.take_length_add_append,
      numTokens_append]
    simp
  have hrun : ∀ n ≤ prefills.length, ∃ c, (List.range n).foldlM
      (addRequestChunks (C : Nat) (prefills.map fun s => (s.numComputed : Int))
        ((m.queryStartLocCpu.drop (m.queryStartLocCpu.length - (prefills.length + 1))).map
          (· - ((numTokens decodes : Nat) : Int)))) {} = .ok c ∧ CutTo C prefills n 0 c := by
    intro n
    induction n with
    | zero =>
      intro _
      refine ⟨{}, rfl, rfl, by simp, rfl, by simp, ?_, rfl, by simp, by simp⟩
      intro r s p _ hlo _ _ hwhere
      omega
    | succ n ih =>
      intro hn
      obtain ⟨c, hc, hcut⟩ := ih (by omega)
      have hget : prefills[n]? = some prefills[n] := List.getElem?_eq_getElem (by omega)
      have hat : (prefills.map fun s => (s.numComputed : Int))[n]? =
          some (prefills[n].numComputed : Int) := by
        rw [List.getElem?_map, hget, Option.map_some]
      obtain ⟨c', hc', hcut'⟩ := addRequestChunks_cut hcut hget
        (hnew _ (List.getElem_mem (by omega))) hat (hstarts n (by omega)) (hstarts (n + 1) hn)
      refine ⟨c', ?_, hcut'⟩
      rw [List.range_succ, List.foldlM_append, hc, except_ok_bind]
      simpa using hc'
  obtain ⟨c, hc, hcut⟩ := hrun _ (Nat.le_refl _)
  refine ⟨{ c with cuChunkSeqlen := c.cuChunkSeqlen ++ [c.seqlenPos] }, ?_, ?_, hcut.first, ?_,
    hcut.chunk, ?_, hcut.lastLength, hcut.last⟩
  · rw [buildPrefillChunks, hcomputed, hc]
    rfl
  · simp [hcut.length]
  · rw [List.getLast?_concat, hcut.pos, List.take_length]
    rfl
  · intro r s p hs hlo hhi hdvd
    exact hcut.multiple r s p hs hlo hhi hdvd (.inl (List.getElem?_eq_some_iff.mp hs).1)

/-- A decode request, and prefills of 7 tokens after 6 computed ones and of 3 tokens. -/
def prefillBatch : CommonAttentionMetadata where
  queryStartLoc := [0, 1, 8, 11]
  queryStartLocCpu := [0, 1, 8, 11]
  seqLens := [10, 13, 3]
  numReqs := 3
  numActualTokens := 11
  maxQueryLen := 7
  maxSeqLen := 13
  blockTableTensor := []
  slotMapping := []

/-- In chunks of 4, positions 8 and 12 of the first prefill are boundaries. -/
theorem prefill_chunks_two_requests : ∃ c, buildPrefillChunks (4 : ℕ+) prefillBatch 2 1 = .ok c ∧
    (2 : Int) ∈ c.cuChunkSeqlen ∧ (6 : Int) ∈ c.cuChunkSeqlen := by
  have hdescribes : Describes prefillBatch ([⟨1, 9⟩] ++ [⟨7, 6⟩, ⟨3, 0⟩]) :=
    ⟨by decide, by decide, by decide, nofun, nofun, by decide, by decide, by decide⟩
  obtain ⟨c, hc, -, -, -, -, hmultiple, -⟩ := prefill_chunks_at_multiples 4 hdescribes (by decide)
  exact ⟨c, hc, hmultiple 0 ⟨7, 6⟩ 8 rfl (by decide) (by decide) (by decide),
    hmultiple 0 ⟨7, 6⟩ 12 rfl (by decide) (by decide) (by decide)⟩

end Vllm.Proofs.Attention
