import Vllm.Lib.MapM
import Vllm.Proofs.Attention.LocalChunks
import Vllm.Proofs.Worker.BatchRows
import Mathlib.Algebra.BigOperators.Ring.Finset

/-!
# `Vllm.Proofs.Attention.LocalAttention`: attention in chunks by virtual batches

A virtual batch has the query tokens of a request in one chunk, and the keys of that chunk up to the
last of them. Ordinary causal attention on the virtual batches then is attention in chunks:
`virtualBatches_spec` compares, token by token, the keys that a token sees and where they are.

The arrays of the program have an entry for each chunk of each request. In the proofs they are
`perPlace` over the requests with their indices, and the lemmas of `LocalChunks` give the entries.

* `queryTokens`, `causalKeys`, `chunkKeys`: the tokens of a batch, and what they see.
* `assignWhere_perPlace`, `assignAt_perPlace`: the assignments to the first and the last chunks.
* `LocalBatches`: the metadata of the virtual batches.
-/

set_option autoImplicit false

namespace Vllm.Proofs.Attention

open Vllm.Lib Vllm.V1.Core Vllm.V1.Worker Vllm.V1.Attention Vllm.Proofs.Worker List

/-! ### What a token sees -/

section Keys
variable (C blockSize : Nat) (m : CommonAttentionMetadata)

/-- The query tokens in order: the request of a token, and its position in the request. -/
def queryTokens : List (Nat × Nat) :=
  ((stepDiffs m.queryStartLocCpu).zip m.seqLensCpu).zipIdx.flatMap fun p =>
    (List.range p.1.1.toNat).map fun o => (p.2, (p.1.2 - p.1.1).toNat + o)

/-- The block of the key at a position, and the place in the block. -/
def keyLocation (i : Nat) (k : Nat) : Option Int × Nat :=
  (m.blockTableTensor[i]?.bind (·[k / blockSize]?), k % blockSize)

/-- Under the causal mask a token sees the keys up to its own position. -/
def causalKeys (t : Nat × Nat) : List (Option Int × Nat) :=
  (List.range (t.2 + 1)).map (keyLocation blockSize m t.1)

/-- In chunks it sees those of its own chunk. -/
def chunkKeys (t : Nat × Nat) : List (Option Int × Nat) :=
  ((List.range (t.2 + 1)).filter fun k => decide (k / C = t.2 / C)).map (keyLocation blockSize m t.1)

end Keys

/-! ### Assignments to parts of an array -/

section Assign
variable {ρ : Type} {count : ρ → Nat} {rs : List ρ}

theorem assignWhere_false (x : Int) (xs : List Int) (mask : List Bool) (values : List Int) :
    assignWhere (x :: xs) (false :: mask) values = x :: assignWhere xs mask values := by
  cases values <;> rfl

/-- After the first place of a part, nothing is assigned in it. -/
theorem assignWhere_rest (xs ys : List Int) (mask : List Bool) (values : List Int) :
    assignWhere (xs ++ ys) (List.replicate xs.length false ++ mask) values =
      xs ++ assignWhere ys mask values := by
  induction xs with
  | nil => rfl
  | cons x xs ih =>
    rw [cons_append, length_cons, replicate_succ, cons_append,
      assignWhere_false, ih, cons_append]

/-- The values go to the first place of each part. -/
theorem assignWhere_perPlace (hpos : ∀ r ∈ rs, 0 < count r) (x v : ρ → Int) :
    assignWhere (perPlace count (fun r _ => x r) rs)
        ((perPlace count (fun _ j => j) rs).map fun j => decide (j = 0)) (rs.map v) =
      perPlace count (fun r j => if j = 0 then v r else x r) rs := by
  induction rs with
  | nil => rfl
  | cons r rs ih =>
    obtain ⟨n, hn⟩ := Nat.exists_eq_succ_of_ne_zero (Nat.ne_of_gt (hpos r mem_cons_self))
    have hih := ih fun r' hr' => hpos r' (mem_cons_of_mem r hr')
    -- The part is its first place and the others, which the mask leaves out.
    have hmask : (((List.range n).map Nat.succ).map fun j => decide (j = 0)) =
        List.replicate ((List.range n).map fun _ => x r).length false := by
      rw [map_map, length_map]
      exact map_eq_replicate_iff.mpr fun j _ => decide_eq_false (Nat.succ_ne_zero j)
    have hvalues : ((List.range n).map Nat.succ).map (fun j => if j = 0 then v r else x r) =
        (List.range n).map fun _ => x r := by
      rw [map_map]
      refine map_congr_left fun j _ => ?_
      show (if j + 1 = 0 then v r else x r) = x r
      rw [if_neg (Nat.succ_ne_zero j)]
    have hsame : ((List.range n).map Nat.succ).map (fun _ => x r) =
        (List.range n).map fun _ => x r := by rw [map_map]; rfl
    have hplaces : ((List.range n).map Nat.succ).map (fun j => j) =
        (List.range n).map Nat.succ := map_id' _
    rw [perPlace_cons, perPlace_cons, perPlace_cons, hn, range_succ_eq_map]
    simp only [map_cons, cons_append, map_append, decide_true, if_true]
    rw [hplaces, hmask, hvalues, hsame, assignWhere, assignWhere_rest, hih]

/-- The values go to the last place of each part, `pre` being the parts before. -/
theorem assignAt_from (hpos : ∀ r ∈ rs, 0 < count r) (c : Int) (v : ρ → Int) (pre : List Int) :
    assignAt (pre ++ List.replicate (rs.map count).sum c)
        ((cumsumFrom pre.length (rs.map count)).map (· - 1)) (rs.map v) =
      pre ++ perPlace count (fun r j => if j + 1 = count r then v r else c) rs := by
  induction rs generalizing pre with
  | nil => simp [assignAt, perPlace, cumsumFrom]
  | cons r rs ih =>
    obtain ⟨n, hn⟩ := Nat.exists_eq_succ_of_ne_zero (Nat.ne_of_gt (hpos r mem_cons_self))
    have hpart : (List.range (n + 1)).map (fun j => if j + 1 = n + 1 then v r else c) =
        List.replicate n c ++ [v r] := by
      rw [range_succ, map_append, map_singleton, if_pos rfl]
      congr 1
      rw [map_eq_replicate_iff.mpr, length_range]
      intro j hj
      have := mem_range.mp hj
      exact if_neg (by omega)
    have hih := ih (fun r' hr' => hpos r' (mem_cons_of_mem r hr'))
      (pre ++ (List.replicate n c ++ [v r]))
    have hlen : (pre ++ (List.replicate n c ++ [v r])).length = pre.length + (n + 1) := by simp
    rw [hlen] at hih
    rw [perPlace_cons, hn, hpart]
    simp only [map_cons, sum_cons, cumsumFrom, hn]
    rw [← append_assoc, ← hih]
    unfold assignAt
    rw [zip_cons_cons, foldl_cons]
    congr 1
    -- The place is the last of the part.
    rw [replicate_add, replicate_succ', append_assoc, append_assoc]
    dsimp only
    rw [set_append_right _ _ (by omega), set_append_right _ _ (by simp)]
    have hzero : pre.length + n.succ - 1 - pre.length - (List.replicate n c).length = 0 := by
      simp
    rw [hzero, append_assoc]
    rfl

theorem assignAt_perPlace (hpos : ∀ r ∈ rs, 0 < count r) (c : Int) (v : ρ → Int) :
    assignAt (List.replicate (rs.map count).sum c) ((cumsum (rs.map count)).map (· - 1))
        (rs.map v) =
      perPlace count (fun r j => if j + 1 = count r then v r else c) rs :=
  assignAt_from hpos c v []

end Assign

/-! ### The block table -/

section Table
variable {ρ : Type} {rs : List ρ}

theorem zip_flatMap {α β : Type} (f : ρ → List α) (g : ρ → List β)
    (hlen : ∀ r ∈ rs, (f r).length = (g r).length) :
    (rs.flatMap f).zip (rs.flatMap g) = rs.flatMap fun r => (f r).zip (g r) := by
  induction rs with
  | nil => rfl
  | cons r rs ih =>
    rw [flatMap_cons, flatMap_cons, flatMap_cons,
      zip_append (hlen r mem_cons_self),
      ih fun r' hr' => hlen r' (mem_cons_of_mem r hr')]

theorem zip_replicate_length {α β : Type} (a : α) (l : List β) :
    (List.replicate l.length a).zip l = l.map fun b => (a, b) := by
  induction l with
  | nil => rfl
  | cons b l ih => rw [length_cons, replicate_succ, zip_cons_cons, ih, map_cons]

/-- `view` takes rows of one width apart again. -/
theorem viewRows_flatten {α : Type} {rows : List (List α)} {width : Nat}
    (h : ∀ row ∈ rows, row.length = width) : viewRows rows.flatten rows.length width = rows := by
  unfold viewRows
  apply ext_getElem (by simp)
  intro i hi hi'
  have hrow := drop_take_flatMap (fun row : List α => row) h (getElem?_eq_getElem hi')
  rw [flatMap_id'] at hrow
  rw [getElem_map, getElem_range, hrow]

theorem mapM_eq_map {α β : Type} {f : α → Except PyError β} {g : α → β} {xs : List α}
    (h : ∀ x ∈ xs, f x = .ok (g x)) : xs.mapM f = .ok (xs.map g) := by
  rw [mapM_eq_ok_iff]
  induction xs with
  | nil => exact .nil
  | cons x xs ih =>
    exact .cons (h x mem_cons_self) (ih fun y hy => h y (mem_cons_of_mem x hy))

theorem itemAt_natCast {row : List Int} {i : Nat} (h : i < row.length) :
    itemAt row (i : Int) = .ok (row[i]?.getD 0) := by
  unfold itemAt
  have hneg : ¬ ((i : Int) < 0) := Int.not_lt.mpr (Int.natCast_nonneg i)
  simp only [if_neg hneg, Int.toNat_natCast, getElem?_eq_getElem h, Option.getD_some]

/-- The block table has a row for each request, with a column for each of its blocks. -/
structure TableOk (m : CommonAttentionMetadata) (blockSize : Nat) (spans : List Span)
    (width : Nat) : Prop where
  rows : m.blockTableTensor.length = spans.length
  width_eq : ∀ row ∈ m.blockTableTensor, row.length = width
  covers : ∀ s ∈ spans, s.seqLen ≤ width * blockSize

end Table

/-! ### The virtual batches -/

section Virtual
variable (C : ℕ+) (blockSize width : Nat) (table : List (List Int))

/-- The number of virtual batches of a request. -/
def virtualCount (p : Span × Nat) : Nat := chunkCount C p.1

def queryLocal (p : Span × Nat) (j : Nat) : Int :=
  ((bound C p.1 (j + 1) - bound C p.1 j : Nat) : Int)

def keyLocal (p : Span × Nat) (j : Nat) : Int :=
  ((bound C p.1 (j + 1) - (firstChunk C p.1 + j) * C : Nat) : Int)

/-- The column of a page, not beyond the last one. -/
def pageColumn (p : Span × Nat) (j x : Nat) : Nat :=
  min ((firstChunk C p.1 + j) * (C / blockSize) + x) (width - 1)

/-- The blocks of a virtual batch. -/
def rowLocal (p : Span × Nat) (j : Nat) : List Int :=
  (List.range (C / blockSize)).map fun x =>
    ((table[p.2]?.getD [])[pageColumn C blockSize width p j x]?).getD 0

/-- The metadata of the virtual batches. -/
structure LocalBatches (spans : List Span) (m' : CommonAttentionMetadata) : Prop where
  queryStartLoc : m'.queryStartLoc = m'.queryStartLocCpu
  queryStartLocCpu : m'.queryStartLocCpu =
    (perPlace (virtualCount C) (queryLocal C) spans.zipIdx).scanl (· + ·) 0
  seqLens : m'.seqLens = m'.seqLensCpu
  seqLensCpu : m'.seqLensCpu = perPlace (virtualCount C) (keyLocal C) spans.zipIdx
  blockTableTensor : m'.blockTableTensor =
    perPlace (virtualCount C) (rowLocal C blockSize width table) spans.zipIdx

end Virtual

section Arrays
variable {C : ℕ+} {spans : List Span} {blockSize width : Nat} {table : List (List Int)}

/-- Something of each request, by the requests with their indices. -/
theorem map_eq_zipIdx {β : Type} (f : Span → β) :
    spans.map f = spans.zipIdx.map fun p => f p.1 := by
  conv_lhs => rw [← zipIdx_map_fst 0 spans]
  rw [map_map]
  rfl

theorem queryLen_pos_of_mem (hq : ∀ s ∈ spans, 0 < s.queryLen) {p : Span × Nat}
    (hp : p ∈ spans.zipIdx) : 0 < p.1.queryLen :=
  hq _ (fst_mem_of_mem_zipIdx hp)

theorem localBlocks_spec (hq : ∀ s ∈ spans, 0 < s.queryLen) :
    localBlocks C (spans.map fun s => (s.seqLen : Int)) (spans.map fun s => (s.queryLen : Int)) =
      { qTokensInFirstBlock :=
          spans.zipIdx.map fun p => ((bound C p.1 1 - p.1.numComputed : Nat) : Int)
        tokensInLastBlock := spans.zipIdx.map fun p =>
          ((p.1.seqLen - (firstChunk C p.1 + (chunkCount C p.1 - 1)) * C : Nat) : Int)
        localBlocks := spans.zipIdx.map (virtualCount C) } := by
  have hfirst : List.zipWith (fun s q => min ((C : Int) - (s - q) % C) q)
      (spans.map fun s => (s.seqLen : Int)) (spans.map fun s => (s.queryLen : Int)) =
      spans.zipIdx.map fun p => ((bound C p.1 1 - p.1.numComputed : Nat) : Int) := by
    rw [zipWith_map, zipWith_self, map_eq_zipIdx]
    exact map_congr_left fun p hp => firstTokens_eq (queryLen_pos_of_mem hq hp)
  unfold localBlocks
  rw [hfirst, map_map, map_eq_zipIdx, map_eq_zipIdx fun s => (s.queryLen : Int)]
  dsimp only
  rw [zipWith_map, zipWith_self]
  congr 1
  · exact map_congr_left fun p hp => lastTokens_eq (queryLen_pos_of_mem hq hp)
  · refine map_congr_left fun p hp => ?_
    have hpos := queryLen_pos_of_mem hq hp
    rw [restTokens_eq hpos, localBlocks_eq hpos]
    rfl

theorem virtualCount_pos : ∀ p ∈ spans.zipIdx, 0 < virtualCount C p := fun _ _ => Nat.succ_pos _

theorem seqlensQLocal_spec (hq : ∀ s ∈ spans, 0 < s.queryLen) :
    seqlensQLocal C (spans.map fun s => (s.queryLen : Int))
        (spans.zipIdx.map fun p => ((bound C p.1 1 - p.1.numComputed : Nat) : Int))
        (spans.zipIdx.map (virtualCount C))
        (perPlace (virtualCount C) (fun _ j => j) spans.zipIdx) =
      perPlace (virtualCount C) (queryLocal C) spans.zipIdx := by
  unfold seqlensQLocal
  rw [map_eq_zipIdx, zipWith_map, zipWith_self, repeatEach_map]
  dsimp only
  rw [assignWhere_perPlace virtualCount_pos, zipWith_perPlace]
  refine perPlace_congr fun p hp j hj => ?_
  have hpos := queryLen_pos_of_mem hq hp
  unfold queryLocal
  cases j with
  | zero => rw [if_neg (Nat.lt_irrefl 0), if_pos rfl, bound_zero]
  | succ j =>
    rw [if_pos (Nat.succ_pos j), if_neg (Nat.succ_ne_zero j), restTokens_eq hpos,
      queryTokens_eq hpos hj]

theorem getLastD_cumsum (ns : List Nat) : (cumsum ns).getLastD 0 = ns.sum := by
  rw [cumsum, getLastD_cumsumFrom, Nat.zero_add]

theorem seqlensKLocal_spec (hq : ∀ s ∈ spans, 0 < s.queryLen) :
    seqlensKLocal C (spans.zipIdx.map fun p =>
          ((p.1.seqLen - (firstChunk C p.1 + (chunkCount C p.1 - 1)) * C : Nat) : Int))
        (cumsum (spans.zipIdx.map (virtualCount C))) =
      perPlace (virtualCount C) (keyLocal C) spans.zipIdx := by
  unfold seqlensKLocal
  rw [getLastD_cumsum, assignAt_perPlace virtualCount_pos]
  refine perPlace_congr fun p hp j hj => ?_
  exact keyTokens_eq (queryLen_pos_of_mem hq hp) hj

theorem kSeqstartsAbsolute_spec (hq : ∀ s ∈ spans, 0 < s.queryLen) :
    kSeqstartsAbsolute C (spans.map fun s => (s.seqLen : Int)) (spans.zipIdx.map fun p =>
          ((p.1.seqLen - (firstChunk C p.1 + (chunkCount C p.1 - 1)) * C : Nat) : Int))
        (spans.zipIdx.map (virtualCount C))
        (perPlace (virtualCount C) (fun _ j => j) spans.zipIdx) =
      perPlace (virtualCount C) (fun p j => (((firstChunk C p.1 + j) * C : Nat) : Int))
        spans.zipIdx := by
  unfold kSeqstartsAbsolute
  rw [map_eq_zipIdx, repeatEach_map, repeatEach_map, repeatEach_map, zipWith_perPlace]
  dsimp only
  rw [zipWith_perPlace, zipWith_perPlace]
  refine perPlace_congr fun p hp j _ => ?_
  exact keyStart_eq (queryLen_pos_of_mem hq hp)

/-- The columns of the pages of the virtual batches of a request. -/
theorem blockIndices_spec (hdvd : blockSize ∣ (C : Nat)) (hwidth : 0 < width)
    (htable : (table.headD []).length = width) :
    ((((perPlace (virtualCount C) (fun p j => (((firstChunk C p.1 + j) * C : Nat) : Int))
        spans.zipIdx).map fun k => Int.fdiv k blockSize).flatMap fun start =>
          (List.range (C / blockSize)).map fun i => start + ((i : Nat) : Int)).map fun i =>
            min i (((table.headD []).length : Int) - 1)) =
      spans.zipIdx.flatMap fun p => (List.range (virtualCount C p)).flatMap fun j =>
        (List.range (C / blockSize)).map fun x => (pageColumn C blockSize width p j x : Int) := by
  rw [htable, map_perPlace, map_flatMap]
  unfold perPlace
  rw [flatMap_assoc]
  refine flatMap_congr fun p _ => ?_
  rw [flatMap_map]
  refine flatMap_congr fun j _ => ?_
  rw [map_map]
  refine map_congr_left fun x _ => ?_
  have hdiv : Int.fdiv (((firstChunk C p.1 + j) * C : Nat) : Int) (blockSize : Int) =
      (((firstChunk C p.1 + j) * (C / blockSize) : Nat) : Int) := by
    rw [Int.fdiv_eq_ediv_of_nonneg _ (Int.natCast_nonneg _), ← Int.natCast_ediv,
      Nat.mul_div_assoc _ hdvd]
  show min (Int.fdiv (((firstChunk C p.1 + j) * C : Nat) : Int) (blockSize : Int) + (x : Int))
    ((width : Int) - 1) = _
  rw [hdiv]
  unfold pageColumn
  omega

theorem batchIndices_spec : repeatEach (List.range spans.length)
      ((spans.zipIdx.map (virtualCount C)).map (· * (C / blockSize))) =
    spans.zipIdx.flatMap fun p => List.replicate (virtualCount C p * (C / blockSize)) p.2 := by
  have hrange : List.range spans.length = spans.zipIdx.map Prod.snd := by
    rw [zipIdx_map_snd, range_eq_range']
  rw [hrange, map_map, repeatEach_map]
  unfold perPlace
  refine flatMap_congr fun p _ => ?_
  simp

/-- What `block_table[batch_indices, block_indices]` gives for each request. -/
theorem blockTableLocal_spec {m : CommonAttentionMetadata}
    (hq : ∀ s ∈ spans, 0 < s.queryLen) (hne : spans ≠ [])
    (htable : TableOk m blockSize spans width) (hdvd : blockSize ∣ (C : Nat)) :
    blockTableLocal m.blockTableTensor
        ((perPlace (virtualCount C) (fun p j => (((firstChunk C p.1 + j) * C : Nat) : Int))
          spans.zipIdx).map fun k => Int.fdiv k blockSize)
        (spans.zipIdx.map (virtualCount C)) spans.length (spans.zipIdx.map (virtualCount C)).sum
        (C / blockSize) =
      .ok (perPlace (virtualCount C) (rowLocal C blockSize width m.blockTableTensor)
        spans.zipIdx) := by
  have hwidth : 0 < width := by
    obtain ⟨s, hs⟩ := exists_mem_of_ne_nil _ hne
    have hcover := htable.covers s hs
    have hpos : 0 < s.seqLen := Nat.add_pos_right _ (hq s hs)
    exact Nat.pos_of_mul_pos_right (Nat.lt_of_lt_of_le hpos hcover)
  have hhead : (m.blockTableTensor.headD []).length = width := by
    cases hrows : m.blockTableTensor with
    | nil =>
      have hlen := htable.rows
      rw [hrows] at hlen
      exact absurd (length_eq_zero_iff.mp hlen.symm) hne
    | cons row rows =>
      exact htable.width_eq row (by rw [hrows]; exact mem_cons_self)
  -- The indices of a request are its own and those of its pages.
  have hzip : (spans.zipIdx.flatMap fun p =>
      List.replicate (virtualCount C p * (C / blockSize)) p.2).zip
      (spans.zipIdx.flatMap fun p => (List.range (virtualCount C p)).flatMap fun j =>
        (List.range (C / blockSize)).map fun x => (pageColumn C blockSize width p j x : Int)) =
      spans.zipIdx.flatMap fun p => (List.range (virtualCount C p)).flatMap fun j =>
        (List.range (C / blockSize)).map fun x =>
          (p.2, (pageColumn C blockSize width p j x : Int)) := by
    have hlen : ∀ p : Span × Nat, ((List.range (virtualCount C p)).flatMap fun j =>
        (List.range (C / blockSize)).map fun x =>
          (pageColumn C blockSize width p j x : Int)).length =
        virtualCount C p * (C / blockSize) := by
      intro p
      simp [length_flatMap]
    rw [zip_flatMap]
    · refine flatMap_congr fun p _ => ?_
      rw [← hlen p, zip_replicate_length, map_flatMap]
      refine flatMap_congr fun j _ => ?_
      rw [map_map]
      rfl
    · intro p _
      rw [length_replicate, hlen]
  have hitem : ∀ t ∈ spans.zipIdx.flatMap fun p => (List.range (virtualCount C p)).flatMap fun j =>
      (List.range (C / blockSize)).map fun x => (p.2, (pageColumn C blockSize width p j x : Int)),
      (do itemAt (← getItem m.blockTableTensor t.1) t.2) =
        .ok (((m.blockTableTensor[t.1]?.getD [])[t.2.toNat]?).getD 0) := by
    intro t ht
    obtain ⟨p, hp, ht⟩ := mem_flatMap.mp ht
    obtain ⟨j, -, ht⟩ := mem_flatMap.mp ht
    obtain ⟨x, -, rfl⟩ := mem_map.mp ht
    have hlt : p.2 < m.blockTableTensor.length := by
      rw [htable.rows]
      exact snd_lt_of_mem_zipIdx hp
    have hrow := htable.width_eq _ (getElem_mem hlt)
    have hcolumn : pageColumn C blockSize width p j x < m.blockTableTensor[p.2].length := by
      rw [hrow]
      unfold pageColumn
      omega
    dsimp only
    rw [getItem_eq_ok_iff.mpr (getElem?_eq_getElem hlt), except_ok_bind,
      itemAt_natCast hcolumn, getElem?_eq_getElem hlt, Option.getD_some, Int.toNat_natCast]
  have hrows : ((spans.zipIdx.flatMap fun p => (List.range (virtualCount C p)).flatMap fun j =>
      (List.range (C / blockSize)).map fun x =>
        (p.2, (pageColumn C blockSize width p j x : Int))).map fun t =>
          ((m.blockTableTensor[t.1]?.getD [])[t.2.toNat]?).getD 0) =
      (perPlace (virtualCount C) (rowLocal C blockSize width m.blockTableTensor)
        spans.zipIdx).flatten := by
    rw [flatten_perPlace, map_flatMap]
    refine flatMap_congr fun p _ => ?_
    rw [map_flatMap]
    refine flatMap_congr fun j _ => ?_
    rw [map_map]
    rfl
  unfold blockTableLocal
  dsimp only
  rw [blockIndices_spec hdvd hwidth hhead, batchIndices_spec, hzip, mapM_eq_map hitem,
    except_ok_bind, hrows]
  have hpages : ∀ row ∈ perPlace (virtualCount C)
      (rowLocal C blockSize width m.blockTableTensor) spans.zipIdx,
      row.length = C / blockSize := by
    intro row hrow
    obtain ⟨p, -, hrow⟩ := mem_flatMap.mp hrow
    obtain ⟨j, -, rfl⟩ := mem_map.mp hrow
    unfold rowLocal
    rw [length_map, length_range]
  have hview := viewRows_flatten hpages
  rw [length_perPlace] at hview
  rw [hview]
  rfl

/-- The call ends, and gives the virtual batches. -/
theorem makeLocalAttentionVirtualBatches_ok {m : CommonAttentionMetadata}
    (hm : Describes m spans) (hq : ∀ s ∈ spans, 0 < s.queryLen) (hne : spans ≠ [])
    (htable : TableOk m blockSize spans width) (hbs : 0 < blockSize)
    (hdvd : blockSize ∣ (C : Nat)) :
    ∃ m', makeLocalAttentionVirtualBatches C m blockSize = .ok m' ∧
      LocalBatches C blockSize width m.blockTableTensor spans m' := by
  have hcu : cumsum (spans.zipIdx.map (virtualCount C)) ≠ [] := by
    intro hnil
    have := congrArg List.length hnil
    rw [length_cumsum, length_map, length_zipIdx] at this
    exact hne (length_eq_zero_iff.mp this)
  have hplaces : ∀ f : Span × Nat → Nat → Int,
      perPlace (virtualCount C) f spans.zipIdx ≠ [] := by
    intro f hnil
    obtain ⟨p, hp⟩ := exists_mem_of_ne_nil spans.zipIdx (by simpa using hne)
    have hmem : f p 0 ∈ perPlace (virtualCount C) f spans.zipIdx := mem_flatMap.mpr ⟨p, hp,
        mem_map_of_mem (mem_range.mpr (virtualCount_pos p hp))⟩
    rw [hnil] at hmem
    cases hmem
  unfold makeLocalAttentionVirtualBatches
  rw [hm.seqLensCpu, hm.queryStartLocCpu, stepDiffs_startLocs]
  dsimp only
  rw [localBlocks_spec hq]
  dsimp only
  rw [cumsumAndArange_eq, flatMap_range_eq]
  dsimp only
  rw [if_neg hcu, if_neg (Nat.ne_of_gt hbs), seqlensQLocal_spec hq, seqlensKLocal_spec hq,
    kSeqstartsAbsolute_spec hq, getLastD_cumsum, length_map,
    (pyAssert_eq_ok_iff (u := ())).mpr (by simpa using Nat.mod_eq_zero_of_dvd hdvd),
    except_ok_bind, blockTableLocal_spec hq hne htable hdvd, except_ok_bind]
  obtain ⟨maxSeqLen, hmaxSeq⟩ := maxItem_ok (hplaces (keyLocal C))
  obtain ⟨maxQueryLen, hmaxQuery⟩ := maxItem_ok (hplaces (queryLocal C))
  rw [hmaxSeq, except_ok_bind, hmaxQuery, except_ok_bind]
  exact ⟨_, rfl, rfl, rfl, rfl, rfl, rfl⟩

end Arrays

/-! ### The keys of the virtual batches -/

section Batches
variable {blockSize : Nat}

theorem stepDiffs_scanl : ∀ (xs : List Int) (a : Int),
    stepDiffs (xs.scanl (· + ·) a) = xs := by
  intro xs
  induction xs with
  | nil => intro a; rfl
  | cons x xs ih =>
    intro a
    have hih := ih (a + x)
    unfold stepDiffs at hih ⊢
    rw [scanl_cons]
    cases xs with
    | nil => simp
    | cons y ys =>
      rw [scanl_cons] at hih ⊢
      simpa using hih

/-- What the tokens of one batch see: `q` tokens at the end of `k` keys, in the blocks of `row`. -/
def tokensOf (blockSize : Nat) (q k : Int) (row : Option (List Int)) :
    List (List (Option Int × Nat)) :=
  (List.range q.toNat).map fun o =>
    (List.range ((k - q).toNat + o + 1)).map fun i => (row.bind (·[i / blockSize]?), i % blockSize)

/-- A function of the items and of the rows with the same indices. -/
theorem flatMap_zipIdx_row {α β ρ : Type} {xs : List α} {rows : List ρ}
    (hlen : rows.length = xs.length) (g : α → Option ρ → List β) :
    (xs.zipIdx.flatMap fun p => g p.1 rows[p.2]?) =
      (List.zipWith (fun x row => g x (some row)) xs rows).flatten := by
  rw [flatMap_def]
  congr 1
  apply ext_getElem?
  intro i
  rw [getElem?_map, getElem?_zipIdx, getElem?_zipWith]
  by_cases hi : i < xs.length
  · rw [getElem?_eq_getElem hi, getElem?_eq_getElem (hlen ▸ hi)]
    simp [getElem?_eq_getElem (hlen ▸ hi : i < rows.length)]
  · rw [getElem?_eq_none (Nat.le_of_not_lt hi)]
    rfl

/-- The tokens of a batch see what `tokensOf` says of the lengths and the row of their request. -/
theorem map_causalKeys {m : CommonAttentionMetadata} :
    (queryTokens m).map (causalKeys blockSize m) =
      ((stepDiffs m.queryStartLocCpu).zip m.seqLensCpu).zipIdx.flatMap fun p =>
        tokensOf blockSize p.1.1 p.1.2 m.blockTableTensor[p.2]? := by
  unfold queryTokens
  rw [map_flatMap]
  refine flatMap_congr fun p _ => ?_
  rw [map_map]
  rfl

/-- The keys of a chunk up to a position in it. -/
theorem filter_chunk {C : ℕ+} {c p : Nat} (h : p / C = c) :
    ((List.range (p + 1)).filter fun k => decide (k / C = c)) =
      List.range' (c * C) (p + 1 - c * C) := by
  have hle : c * C ≤ p := h ▸ Nat.div_mul_le_self p C
  have hlt : p < c * C + C := h ▸ Nat.lt_div_mul_add C.pos
  have happend := range'_append_1 (s := 0) (m := c * C) (n := p + 1 - c * C)
  rw [Nat.zero_add, Nat.add_sub_cancel' (Nat.le_succ_of_le hle)] at happend
  -- Before the chunk nothing is kept, in it everything.
  have hbefore : ((List.range' 0 (c * C)).filter fun k => decide (k / C = c)) = [] := by
    rw [filter_eq_nil_iff]
    intro k hk
    have hk := (mem_range'_1.mp hk).2
    have hdiv : k / C < c := Nat.div_lt_of_lt_mul (by rw [Nat.mul_comm]; omega)
    simpa using Nat.ne_of_lt hdiv
  have hin : ((List.range' (c * C) (p + 1 - c * C)).filter fun k => decide (k / C = c)) =
      List.range' (c * C) (p + 1 - c * C) := by
    rw [filter_eq_self]
    intro k hk
    have hk := mem_range'_1.mp hk
    have hdiv : k / C = c := by
      rw [Nat.div_eq_iff C.pos]
      omega
    exact decide_eq_true hdiv
  rw [range_eq_range', ← happend, filter_append, hbefore, hin, nil_append]

section Chunk
variable {C : ℕ+} {spans : List Span} {width : Nat} {m : CommonAttentionMetadata}

/-- A key of a virtual batch is where the block table has the key of the request. -/
theorem rowLocal_getElem? (hbs : 0 < blockSize) (hdvd : blockSize ∣ (C : Nat))
    (htable : TableOk m blockSize spans width) {p : Span × Nat} (hp : p ∈ spans.zipIdx) {j k : Nat}
    (hk : k < C) (hend : (firstChunk C p.1 + j) * C + k < p.1.seqLen) :
    ((rowLocal C blockSize width m.blockTableTensor p j)[k / blockSize]?, k % blockSize) =
      keyLocation blockSize m p.2 ((firstChunk C p.1 + j) * C + k) := by
  obtain ⟨n, hn⟩ := hdvd
  have hpages : (C : Nat) / blockSize = n := by rw [hn, Nat.mul_div_cancel_left _ hbs]
  have hstart : (firstChunk C p.1 + j) * (C : Nat) =
      blockSize * ((firstChunk C p.1 + j) * n) := by rw [hn]; ring
  have hpage : k / blockSize < n := Nat.div_lt_of_lt_mul (hn ▸ hk)
  -- The page of the key is the page in the chunk, counted from the first page of the chunk.
  have hblock : ((firstChunk C p.1 + j) * (C : Nat) + k) / blockSize =
      (firstChunk C p.1 + j) * n + k / blockSize := by
    rw [hstart, Nat.mul_add_div hbs]
  have hplace : ((firstChunk C p.1 + j) * (C : Nat) + k) % blockSize = k % blockSize := by
    rw [hstart, Nat.mul_add_mod]
  have hlt : p.2 < m.blockTableTensor.length := by
    rw [htable.rows]
    exact snd_lt_of_mem_zipIdx hp
  have hrow := htable.width_eq _ (getElem_mem hlt)
  -- The request has that page, so the clip to the last column changes nothing.
  have hcolumn : (firstChunk C p.1 + j) * n + k / blockSize < width := by
    have hcover := htable.covers p.1 (fst_mem_of_mem_zipIdx hp)
    rw [← hblock]
    exact Nat.div_lt_of_lt_mul (by rw [Nat.mul_comm blockSize]; omega)
  have hclip : pageColumn C blockSize width p j (k / blockSize) =
      (firstChunk C p.1 + j) * n + k / blockSize := by
    unfold pageColumn
    rw [hpages]
    omega
  unfold keyLocation rowLocal
  rw [hblock, hplace, getElem?_map, hpages, getElem?_range hpage,
    getElem?_eq_getElem hlt]
  simp only [Option.map_some, Option.bind_some, Option.getD_some, hclip]
  rw [getElem?_eq_getElem (by omega), Option.getD_some]

/-- The tokens of a virtual batch see their keys in the chunk. -/
theorem tokensOf_local (hbs : 0 < blockSize) (hdvd : blockSize ∣ (C : Nat))
    (htable : TableOk m blockSize spans width) {p : Span × Nat} (hp : p ∈ spans.zipIdx)
    (hq : 0 < p.1.queryLen) {j : Nat} (hj : j < chunkCount C p.1) :
    tokensOf blockSize (queryLocal C p j) (keyLocal C p j)
        (some (rowLocal C blockSize width m.blockTableTensor p j)) =
      (List.range' (bound C p.1 j) (bound C p.1 (j + 1) - bound C p.1 j)).map
        fun pos => chunkKeys C blockSize m (p.2, pos) := by
  have hchunk := chunk_le_bound (C := C) hq hj
  have hgrow := bound_lt_bound_succ (C := C) hq hj
  have hnext := bound_succ_le (C := C) (s := p.1) (j := j)
  have hseq := bound_le_seqLen (C := C) (s := p.1) (j := j + 1)
  have hoffset : (keyLocal C p j - queryLocal C p j).toNat =
      bound C p.1 j - (firstChunk C p.1 + j) * C := by
    unfold keyLocal queryLocal
    omega
  unfold tokensOf
  rw [hoffset, range'_eq_map_range, map_map]
  unfold queryLocal
  rw [Int.toNat_natCast]
  refine map_congr_left fun o ho => ?_
  have ho := mem_range.mp ho
  have hdiv := div_of_mem_bounds (p := bound C p.1 j + o) hq hj (by omega) (by omega)
  show _ = chunkKeys C blockSize m (p.2, bound C p.1 j + o)
  unfold chunkKeys
  dsimp only
  rw [hdiv, filter_chunk hdiv, range'_eq_map_range, map_map]
  have hcount : bound C p.1 j + o + 1 - (firstChunk C p.1 + j) * C =
      bound C p.1 j - (firstChunk C p.1 + j) * C + o + 1 := by omega
  rw [hcount]
  refine map_congr_left fun k hk => ?_
  have hk := mem_range.mp hk
  exact rowLocal_getElem? hbs hdvd htable hp (by omega) (by omega)

end Chunk

/-- The tokens of the batch, by request, and the keys of their chunks. -/
theorem map_chunkKeys {C : ℕ+} {spans : List Span} {m : CommonAttentionMetadata}
    (hm : Describes m spans) :
    (queryTokens m).map (chunkKeys C blockSize m) =
      spans.zipIdx.flatMap fun p => (List.range' p.1.numComputed p.1.queryLen).map fun pos =>
        chunkKeys C blockSize m (p.2, pos) := by
  unfold queryTokens
  rw [hm.queryStartLocCpu, stepDiffs_startLocs, hm.seqLensCpu, zip_map', zipIdx_map,
    flatMap_map, map_flatMap]
  refine flatMap_congr fun p _ => ?_
  rw [range'_eq_map_range, map_map, map_map]
  have hstart : ((p.1.seqLen : Int) - p.1.queryLen).toNat = p.1.numComputed := by
    unfold Span.seqLen
    omega
  simp only [Prod.map_fst, Prod.map_snd, Int.toNat_natCast, hstart]
  rfl

section Main
variable {C : ℕ+} {spans : List Span} {width : Nat} {m m' : CommonAttentionMetadata}

/-- The starts of the virtual batches begin with 0, go up, and end with the number of tokens. -/
structure Partition (starts : List Int) (total : Nat) : Prop where
  head : starts.head? = some 0
  last : starts.getLast? = some (total : Int)
  increasing : starts.Pairwise (· < ·)

theorem scanl_pairwise : ∀ (xs : List Int) (a : Int), (∀ x ∈ xs, 0 < x) →
    (xs.scanl (· + ·) a).Pairwise (· < ·) ∧ ∀ y ∈ xs.scanl (· + ·) a, a ≤ y := by
  intro xs
  induction xs with
  | nil => intro a _; simp
  | cons x xs ih =>
    intro a hpos
    obtain ⟨hpair, hle⟩ := ih (a + x) fun y hy => hpos y (mem_cons_of_mem x hy)
    have hx := hpos x mem_cons_self
    rw [scanl_cons]
    refine ⟨pairwise_cons.mpr ⟨?_, hpair⟩, ?_⟩
    · intro y hy
      have := hle y hy
      omega
    · intro y hy
      cases hy with
      | head => exact Int.le_refl a
      | tail _ hy =>
        have := hle y hy
        omega

theorem scanl_getLast? : ∀ (xs : List Int) (a : Int),
    (xs.scanl (· + ·) a).getLast? = some (a + xs.sum) := by
  intro xs
  induction xs with
  | nil => intro a; simp
  | cons x xs ih =>
    intro a
    rw [scanl_cons, List.getLast?_cons, ih, Option.getD_some, sum_cons, add_assoc]

/-- The lengths of the parts of a request add up to its query. -/
theorem sum_queryLocal {p : Span × Nat} (hq : 0 < p.1.queryLen) :
    ((List.range (virtualCount C p)).map (queryLocal C p)).sum = (p.1.queryLen : Int) := by
  have hlen := congrArg List.length (flatMap_bounds (C := C) hq)
  rw [length_flatMap, length_range'] at hlen
  rw [← hlen, Nat.cast_list_sum, map_map]
  congr 1
  refine map_congr_left fun j _ => ?_
  simp [queryLocal]

theorem LocalBatches.partition (h : LocalBatches C blockSize width m.blockTableTensor spans m')
    (hq : ∀ s ∈ spans, 0 < s.queryLen) : Partition m'.queryStartLocCpu (numTokens spans) := by
  have hpos : ∀ x ∈ perPlace (virtualCount C) (queryLocal C) spans.zipIdx, 0 < x := by
    intro x hx
    obtain ⟨p, hp, hx⟩ := mem_flatMap.mp hx
    obtain ⟨j, hj, rfl⟩ := mem_map.mp hx
    have := bound_lt_bound_succ (C := C) (queryLen_pos_of_mem hq hp) (mem_range.mp hj)
    unfold queryLocal
    omega
  have hsum : (perPlace (virtualCount C) (queryLocal C) spans.zipIdx).sum =
      (numTokens spans : Int) := by
    unfold perPlace numTokens
    rw [flatMap_def, sum_flatten, map_map, map_eq_zipIdx Span.queryLen,
      Nat.cast_list_sum, map_map]
    congr 1
    exact map_congr_left fun p hp => sum_queryLocal (queryLen_pos_of_mem hq hp)
  rw [h.queryStartLocCpu]
  refine ⟨?_, ?_, (scanl_pairwise _ _ hpos).1⟩
  · cases perPlace (virtualCount C) (queryLocal C) spans.zipIdx <;> simp
  · rw [scanl_getLast?, hsum, Int.zero_add]

/-- The virtual batches see what the requests see in chunks. -/
theorem LocalBatches.map_causalKeys_eq
    (h : LocalBatches C blockSize width m.blockTableTensor spans m') (hm : Describes m spans)
    (hq : ∀ s ∈ spans, 0 < s.queryLen) (htable : TableOk m blockSize spans width)
    (hbs : 0 < blockSize) (hdvd : blockSize ∣ (C : Nat)) :
    (queryTokens m').map (causalKeys blockSize m') =
      (queryTokens m).map (chunkKeys C blockSize m) := by
  have hlen : m'.blockTableTensor.length =
      ((perPlace (virtualCount C) (queryLocal C) spans.zipIdx).zip
        (perPlace (virtualCount C) (keyLocal C) spans.zipIdx)).length := by
    rw [h.blockTableTensor, length_zip, length_perPlace, length_perPlace, length_perPlace,
      Nat.min_self]
  rw [map_causalKeys, map_chunkKeys hm, h.queryStartLocCpu, stepDiffs_scanl, h.seqLensCpu,
    flatMap_zipIdx_row hlen fun t row => tokensOf blockSize t.1 t.2 row, h.blockTableTensor,
    List.zip, zipWith_perPlace, zipWith_perPlace, flatten_perPlace]
  refine flatMap_congr fun p hp => ?_
  have hpos := queryLen_pos_of_mem hq hp
  -- The parts of the chunks, one after the other, are the query of the request.
  rw [← flatMap_bounds (C := C) hpos, map_flatMap]
  exact flatMap_congr fun j hj =>
    tokensOf_local hbs hdvd htable hp hpos (mem_range.mp hj)

/-- For each query token in order, causal attention on the virtual batches sees the keys of its
chunk up to its own position, in the blocks of the block table. -/
theorem virtualBatches_spec (hm : Describes m spans) (hq : ∀ s ∈ spans, 0 < s.queryLen)
    (hne : spans ≠ []) (htable : TableOk m blockSize spans width) (hbs : 0 < blockSize)
    (hdvd : blockSize ∣ (C : Nat)) :
    ∃ m', makeLocalAttentionVirtualBatches C m blockSize = .ok m' ∧
      Partition m'.queryStartLoc (numTokens spans) ∧
      m'.queryStartLoc = m'.queryStartLocCpu ∧ m'.seqLens = m'.seqLensCpu ∧
      (queryTokens m').map (causalKeys blockSize m') =
        (queryTokens m).map (chunkKeys C blockSize m) := by
  obtain ⟨m', hok, h⟩ := makeLocalAttentionVirtualBatches_ok hm hq hne htable hbs hdvd
  refine ⟨m', hok, ?_, h.queryStartLoc, h.seqLens, h.map_causalKeys_eq hm hq htable hbs hdvd⟩
  rw [h.queryStartLoc]
  exact h.partition hq

end Main

/-! ### Two requests in chunks of four -/

/-- Pages of two tokens, a prefill and a request in the middle of a chunk. -/
def twoChunked : CommonAttentionMetadata :=
  { queryStartLoc := [0, 5, 8]
    queryStartLocCpu := [0, 5, 8]
    seqLens := [5, 6]
    numReqs := 2
    numActualTokens := 8
    maxQueryLen := 5
    maxSeqLen := 6
    blockTableTensor := [[7, 8, 9], [4, 5, 6]]
    slotMapping := [] }

def twoChunkedSpans : List Span := [⟨5, 0⟩, ⟨3, 3⟩]

theorem describes_twoChunked : Describes twoChunked twoChunkedSpans where
  queryStartLoc := by decide
  queryStartLocCpu := by decide
  seqLens := by decide
  seqLensCpu? := by intro l hl; cases hl
  numComputedTokensCpu? := by intro l hl; cases hl
  numReqs := rfl
  numActualTokens := by decide
  maxQueryLen := by decide

theorem tableOk_twoChunked : TableOk twoChunked 2 twoChunkedSpans 3 where
  rows := rfl
  width_eq := by decide
  covers := by decide

theorem virtualBatches_spec_twoChunked : ∃ m',
    makeLocalAttentionVirtualBatches 4 twoChunked 2 = .ok m' ∧
      Partition m'.queryStartLoc (numTokens twoChunkedSpans) ∧
      m'.queryStartLoc = m'.queryStartLocCpu ∧ m'.seqLens = m'.seqLensCpu ∧
      (queryTokens m').map (causalKeys 2 m') =
        (queryTokens twoChunked).map (chunkKeys (4 : ℕ+) 2 twoChunked) :=
  virtualBatches_spec describes_twoChunked (by decide) (by decide) tableOk_twoChunked (by decide)
    (by decide)

end Batches

end Vllm.Proofs.Attention
