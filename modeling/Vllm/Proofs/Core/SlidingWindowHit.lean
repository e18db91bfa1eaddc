import Vllm.V1.Core.SingleTypeKVCacheManager
import Vllm.Proofs.Core.BlockMap

/-!
# `Vllm.Proofs.Core.SlidingWindowHit`: the longest hit of sliding-window attention

`SlidingWindowManager.find_longest_cache_hit` goes from right to left and counts cached blocks
without a gap. A run begins at an aligned block, so its right end is a hit as soon as the run covers
the window. `Scan` is the invariant of the search: a hit that is longer than the right end of the
current run has been ruled out.

The search needs one cached block even when the window is a single token and no earlier block is
needed. `windowBlocks` is therefore at least one, and `window_one_misses` shows the difference.

* `Scan.miss`, `Scan.skip`, `Scan.hit`: one round of the loop.
* `slidingWindowLoop_spec`: the whole loop.
* `longestHit_slidingWindow`: the result of the function.
-/

set_option autoImplicit false

namespace Vllm.Proofs.Core

open Vllm.Lib Vllm.V1 Vllm.V1.Core List

/-- No dictionary of the map is empty: `pop` deletes a dictionary with its last block. -/
def NoEmptyDict (m : BlockHashToBlockMap) : Prop :=
  ∀ key blocks, m.cache.get? key = some (.dict blocks) → blocks.values ≠ []

section Lookup
variable {pool : BlockPool}

theorem getOneBlock_ok (h : NoEmptyDict pool.cachedBlockHashToBlock) (key : BlockHashWithGroupId) :
    ∃ found, pool.cachedBlockHashToBlock.getOneBlock key = .ok found := by
  unfold BlockHashToBlockMap.getOneBlock
  split
  · exact ⟨none, rfl⟩
  · exact ⟨_, rfl⟩
  · rename_i blocks hget
    split
    · rename_i hnil
      exact absurd hnil (h _ _ hget)
    · exact ⟨_, rfl⟩

/-- A lookup ends, with one block for each group or with a miss. -/
theorem getCachedBlock_ok (h : NoEmptyDict pool.cachedBlockHashToBlock) (blockHash : BlockHash)
    (ids : List UInt32) :
    ∃ found, pool.getCachedBlock blockHash ids = .ok found ∧
      ∀ blocks, found = some blocks → blocks.length = ids.length := by
  induction ids with
  | nil =>
    refine ⟨some [], rfl, ?_⟩
    intro blocks hblocks
    rw [← Option.some.inj hblocks]
    rfl
  | cons groupId ids ih =>
    obtain ⟨one, hone⟩ := getOneBlock_ok h (makeBlockHashWithGroupId blockHash groupId)
    unfold BlockPool.getCachedBlock
    rw [hone, except_ok_bind]
    cases one with
    | none => exact ⟨none, rfl, by simp⟩
    | some block =>
      obtain ⟨found, hfound, hlen⟩ := ih
      dsimp only
      rw [hfound, except_ok_bind]
      cases found with
      | none => exact ⟨none, rfl, by simp⟩
      | some blocks =>
        refine ⟨some (block :: blocks), rfl, ?_⟩
        intro blocks' hblocks'
        rw [← Option.some.inj hblocks', length_cons, hlen blocks rfl, length_cons]

theorem lookupCachedBlock_ok (groupIds : List UInt32)
    (h : NoEmptyDict pool.cachedBlockHashToBlock) (blockHash : BlockHash) :
    ∃ found, lookupCachedBlock pool groupIds blockHash = .ok found ∧
      ∀ blocks, found = some blocks → blocks.length = groupIds.length := by
  obtain ⟨found, hfound, hlen⟩ := getCachedBlock_ok h blockHash groupIds
  unfold lookupCachedBlock
  rw [hfound, except_ok_bind]
  match found, hlen with
  | none, _ => exact ⟨none, rfl, by simp⟩
  | some [], _ => exact ⟨none, rfl, by simp⟩
  | some (b :: bs), hlen => exact ⟨some (b :: bs), rfl, hlen⟩

end Lookup

/-! ### What a hit is -/

section
variable (pool : BlockPool) (groupIds : List UInt32) (blockHashes : List BlockHash)

/-- The cached blocks of all groups for the hash at an index. -/
def cachedAt (i : Nat) : Option (List BlockRef) :=
  match blockHashes[i]? with
  | none => none
  | some blockHash =>
    match lookupCachedBlock pool groupIds blockHash with
    | .ok found => found
    | .error _ => none

/-- The last `min n c` of the first `n` blocks are cached in every group. -/
def WindowCached (c n : Nat) : Prop :=
  ∀ i, n - min n c ≤ i → i < n → (cachedAt pool groupIds blockHashes i).isSome = true

/-- The block of one group at an index is the cached one. -/
def CachedEntry (g : Nat) (l : List BlockRef) (i : Nat) : Prop :=
  ∃ blocks, cachedAt pool groupIds blockHashes i = some blocks ∧ l[i]? = blocks[g]? ∧
    l[i]?.isSome = true

/-- `n` blocks are the longest hit for a window of `c` blocks, and `hits` are its blocks. -/
structure LongestHit (maxLength : Int) (blockSize alignmentTokens : ℕ+) (c n : Nat)
    (hits : List (List BlockRef)) : Prop where
  fits : ((n * blockSize : Nat) : Int) ≤ maxLength
  aligned : n * blockSize % alignmentTokens = 0
  window : WindowCached pool groupIds blockHashes c n
  longest : ∀ n' : Nat, ((n' * blockSize : Nat) : Int) ≤ maxLength →
    n' * blockSize % alignmentTokens = 0 → WindowCached pool groupIds blockHashes c n' → n' ≤ n
  groups : hits.length = groupIds.length
  length : ∀ l ∈ hits, l.length = n
  last : ∀ (g : Nat) l, hits[g]? = some l → ∀ i, n - min n c ≤ i → i < n →
    CachedEntry pool groupIds blockHashes g l i
  other : ∀ (g : Nat) l, hits[g]? = some l → ∀ i, i < n →
    l[i]? = some pool.nullBlock ∨ CachedEntry pool groupIds blockHashes g l i

/-- The search in the middle, before the index `i`: a run of `num` cached blocks from `i` on. -/
structure Scan (blockSize alignmentTokens : ℕ+) (c total i num : Nat)
    (computed : List (List BlockRef)) : Prop where
  groups : computed.length = groupIds.length
  length : ∀ l ∈ computed, l.length = total
  within : i + num ≤ total
  aligned : num ≠ 0 → (i + num) * blockSize % alignmentTokens = 0
  run : ∀ j, i ≤ j → j < i + num → (cachedAt pool groupIds blockHashes j).isSome = true
  bound : ∀ n, n ≤ total → n * blockSize % alignmentTokens = 0 →
    WindowCached pool groupIds blockHashes c n → n ≤ i + num
  runEntry : ∀ (g : Nat) l, computed[g]? = some l → ∀ j, i ≤ j → j < i + num →
    CachedEntry pool groupIds blockHashes g l j
  entry : ∀ (g : Nat) l, computed[g]? = some l → ∀ j, j < total →
    l[j]? = some pool.nullBlock ∨ CachedEntry pool groupIds blockHashes g l j

end

section Scan
variable {pool : BlockPool} {groupIds : List UInt32} {blockHashes : List BlockHash}
  {blockSize alignmentTokens : ℕ+} {c total i num : Nat} {computed : List (List BlockRef)}

namespace Scan

/-- After a miss no hit ends in the run: its window would have the missing block. -/
theorem miss (h : Scan pool groupIds blockHashes blockSize alignmentTokens c total (i + 1) num
      computed) (hsmall : num < c) (hmiss : cachedAt pool groupIds blockHashes i = none) :
    Scan pool groupIds blockHashes blockSize alignmentTokens c total i 0 computed where
  __ := h
  within := by
    have := h.within
    omega
  aligned hne := absurd rfl hne
  run j hle hlt := absurd hlt (Nat.not_lt.mpr hle)
  bound n hn haligned hwindow := by
    have hle := h.bound n hn haligned hwindow
    by_contra hlt
    have hin := hwindow i (by omega) (by omega)
    rw [hmiss] at hin
    cases hin
  runEntry g l hl j hle hlt := absurd hlt (Nat.not_lt.mpr hle)

/-- A cached block at which no run may begin is passed over. -/
theorem skip (h : Scan pool groupIds blockHashes blockSize alignmentTokens c total (i + 1) 0
      computed) (hnot : (i + 1) * blockSize % alignmentTokens ≠ 0) :
    Scan pool groupIds blockHashes blockSize alignmentTokens c total i 0 computed where
  __ := h
  within := by
    have := h.within
    omega
  aligned hne := absurd rfl hne
  run j hle hlt := absurd hlt (Nat.not_lt.mpr hle)
  bound n hn haligned hwindow := by
    have hle := h.bound n hn haligned hwindow
    by_contra hlt
    obtain rfl : n = i + 1 := by omega
    exact hnot haligned
  runEntry g l hl j hle hlt := absurd hlt (Nat.not_lt.mpr hle)

end Scan

theorem getElem?_zipWith_set {cached : List BlockRef} {g : Nat} {l : List BlockRef}
    (h : (List.zipWith (fun l b => l.set i b) computed cached)[g]? = some l) :
    ∃ l' b, computed[g]? = some l' ∧ cached[g]? = some b ∧ l = l'.set i b := by
  rw [getElem?_zipWith] at h
  cases hl : computed[g]? with
  | none => simp [hl] at h
  | some l' =>
    cases hb : cached[g]? with
    | none => simp [hl, hb] at h
    | some b =>
      rw [hl, hb] at h
      exact ⟨l', b, rfl, rfl, (Option.some.inj h).symm⟩

/-- A block is added to the run, or begins one. -/
theorem Scan.hit (h : Scan pool groupIds blockHashes blockSize alignmentTokens c total (i + 1) num
      computed) {cached : List BlockRef}
    (hcached : cachedAt pool groupIds blockHashes i = some cached)
    (hlen : cached.length = groupIds.length)
    (haligned : num = 0 → (i + 1) * blockSize % alignmentTokens = 0) :
    Scan pool groupIds blockHashes blockSize alignmentTokens c total i (num + 1)
      (List.zipWith (fun l b => l.set i b) computed cached) where
  groups := by rw [length_zipWith, h.groups, hlen, Nat.min_self]
  length l hl := by
    obtain ⟨g, hg⟩ := mem_iff_getElem?.mp hl
    obtain ⟨l', b, hl', -, rfl⟩ := getElem?_zipWith_set hg
    rw [length_set]
    exact h.length l' (mem_of_getElem? hl')
  within := by
    have := h.within
    omega
  aligned _ := by
    have hright : i + (num + 1) = i + 1 + num := by omega
    rw [hright]
    by_cases hnum : num = 0
    · rw [hnum]
      exact haligned hnum
    · exact h.aligned hnum
  run j hle hlt := by
    by_cases hj : j = i
    · rw [hj, hcached]
      rfl
    · exact h.run j (by omega) (by omega)
  bound n hn hal hwindow := by
    have := h.bound n hn hal hwindow
    omega
  runEntry g l hl j hle hlt := by
    obtain ⟨l', b, hl', hb, rfl⟩ := getElem?_zipWith_set hl
    have hwithin := h.within
    have hl'len := h.length l' (mem_of_getElem? hl')
    by_cases hj : j = i
    · have hset : (l'.set i b)[i]? = some b := getElem?_set_self (by omega)
      rw [hj]
      exact ⟨cached, hcached, by rw [hset, hb], by rw [hset]; rfl⟩
    · obtain ⟨blocks, hblocks, hentry, hsome⟩ := h.runEntry g l' hl' j (by omega) (by omega)
      have hset : (l'.set i b)[j]? = l'[j]? := getElem?_set_ne (Ne.symm hj)
      exact ⟨blocks, hblocks, by rw [hset, hentry], by rw [hset, hsome]⟩
  entry g l hl j hj := by
    obtain ⟨l', b, hl', hb, rfl⟩ := getElem?_zipWith_set hl
    have hl'len := h.length l' (mem_of_getElem? hl')
    by_cases hji : j = i
    · right
      have hset : (l'.set i b)[i]? = some b := getElem?_set_self (by omega)
      rw [hji]
      exact ⟨cached, hcached, by rw [hset, hb], by rw [hset]; rfl⟩
    · have hset : (l'.set i b)[j]? = l'[j]? := getElem?_set_ne (Ne.symm hji)
      unfold CachedEntry
      rw [hset]
      exact h.entry g l' hl' j hj

/-- The loop ends: the run covers the window, or the search has come to the first block. -/
theorem slidingWindowLoop_spec (hmap : NoEmptyDict pool.cachedBlockHashToBlock)
    {contiguousBlocks : Int} (hc : (c : Int) = max 1 contiguousBlocks)
    (hhashes : total ≤ blockHashes.length)
    (h : Scan pool groupIds blockHashes blockSize alignmentTokens c total i num computed)
    (hsmall : num < c) :
    ∃ res num' found, slidingWindowLoop pool groupIds blockHashes contiguousBlocks blockSize
        alignmentTokens i computed num = .ok (res, num', found) ∧
      ((found = true ∧ num' = c ∧ ∃ i' res', res = res'.map (List.take (i' + c)) ∧
        Scan pool groupIds blockHashes blockSize alignmentTokens c total i' c res') ∨
      (found = false ∧ num' < c ∧
        Scan pool groupIds blockHashes blockSize alignmentTokens c total 0 num' res)) := by
  induction i generalizing computed num with
  | zero => exact ⟨computed, num, false, rfl, .inr ⟨rfl, hsmall, h⟩⟩
  | succ i ih =>
    have hi : i < blockHashes.length := by
      have := h.within
      omega
    have hget : blockHashes[i]? = some blockHashes[i] := getElem?_eq_getElem hi
    obtain ⟨found, hlookup, hlen⟩ := lookupCachedBlock_ok groupIds hmap blockHashes[i]
    have hcached : cachedAt pool groupIds blockHashes i = found := by
      unfold cachedAt
      rw [hget]
      dsimp only
      rw [hlookup]
    unfold slidingWindowLoop
    rw [hget]
    dsimp only
    rw [hlookup, except_ok_bind]
    cases found with
    | none => exact ih (h.miss hsmall hcached) (by omega)
    | some cached =>
      dsimp only
      by_cases hskip : num = 0 ∧ blockSize ≠ alignmentTokens ∧
          (i + 1) * blockSize % alignmentTokens ≠ 0
      · rw [if_pos hskip]
        obtain ⟨rfl, -, hnot⟩ := hskip
        exact ih (h.skip hnot) hsmall
      · rw [if_neg hskip]
        have haligned : num = 0 → (i + 1) * blockSize % alignmentTokens = 0 := by
          intro hnum
          by_contra hnot
          refine hskip ⟨hnum, ?_, hnot⟩
          rintro rfl
          exact hnot (Nat.mul_mod_left ..)
        have hscan := h.hit hcached (hlen cached rfl) haligned
        by_cases hmatch : contiguousBlocks ≤ (num : Int) + 1
        · -- The run covers the window for the first time, so it is as long as the window.
          obtain rfl : c = num + 1 := by omega
          rw [if_pos hmatch]
          exact ⟨_, _, true, rfl, .inl ⟨rfl, rfl, i, _, rfl, hscan⟩⟩
        · rw [if_neg hmatch]
          exact ih hscan (by omega)

end Scan

/-! ### The function -/

section Hit
variable {pool : BlockPool} {groupIds : List UInt32} {blockHashes : List BlockHash}
  {maxLength : Int} {blockSize alignmentTokens : ℕ+} {c i num : Nat}
  {computed : List (List BlockRef)}

/-- Nothing has been searched. -/
theorem scan_start (pool : BlockPool) (groupIds : List UInt32) (blockHashes : List BlockHash)
    (blockSize alignmentTokens : ℕ+) (c total : Nat) :
    Scan pool groupIds blockHashes blockSize alignmentTokens c total total 0
      (groupIds.map fun _ => List.replicate total pool.nullBlock) where
  groups := length_map ..
  length l hl := by
    obtain ⟨g, -, rfl⟩ := mem_map.mp hl
    exact length_replicate
  within := Nat.le_refl total
  aligned hne := absurd rfl hne
  run j hle hlt := absurd hlt (Nat.not_lt.mpr hle)
  bound n hn _ _ := hn
  runEntry g l hl j hle hlt := absurd hlt (Nat.not_lt.mpr hle)
  entry g l hl j hj := by
    rw [getElem?_map] at hl
    obtain ⟨x, -, rfl⟩ := Option.map_eq_some_iff.mp hl
    left
    rw [getElem?_replicate, if_pos hj]

/-- A length in blocks fits when it is at most the quotient. -/
theorem le_toNat_fdiv {maxLength : Int} (hmax : 0 ≤ maxLength) (n : Nat) :
    n ≤ (Int.fdiv maxLength blockSize).toNat ↔ ((n * blockSize : Nat) : Int) ≤ maxLength := by
  have hpos : (0 : Int) < (blockSize : Nat) := by exact_mod_cast blockSize.pos
  rw [Int.fdiv_eq_ediv_of_nonneg _ (Int.le_of_lt hpos)]
  have hdiv : 0 ≤ maxLength / (blockSize : Nat) := Int.ediv_nonneg hmax (Int.le_of_lt hpos)
  constructor
  · intro hle
    have hle' : (n : Int) ≤ maxLength / (blockSize : Nat) := by omega
    have := Int.mul_le_of_le_ediv hpos hle'
    push_cast
    exact this
  · intro hle
    push_cast at hle
    have := Int.le_ediv_of_mul_le hpos hle
    omega

/-- The end of the search: the first `i + num` blocks are the longest hit. -/
theorem Scan.longestHit (h : Scan pool groupIds blockHashes blockSize alignmentTokens c
      (Int.fdiv maxLength blockSize).toNat i num computed) (hmax : 0 ≤ maxLength) (hpos : 0 < c)
    (hend : num = c ∨ i = 0 ∧ num < c) :
    LongestHit pool groupIds blockHashes maxLength blockSize alignmentTokens c (i + num)
      (computed.map (List.take (i + num))) where
  fits := (le_toNat_fdiv hmax _).mp h.within
  aligned := by
    by_cases hnum : num = 0
    · have hzero : i + num = 0 := by omega
      rw [hzero, Nat.zero_mul, Nat.zero_mod]
    · exact h.aligned hnum
  window j hle hlt := h.run j (by omega) hlt
  longest n' hle haligned hwindow := h.bound n' ((le_toNat_fdiv hmax n').mpr hle) haligned hwindow
  groups := by rw [length_map, h.groups]
  length l hl := by
    obtain ⟨l', hl', rfl⟩ := mem_map.mp hl
    rw [length_take, h.length l' hl']
    exact Nat.min_eq_left h.within
  last g l hl j hle hlt := by
    rw [getElem?_map] at hl
    obtain ⟨l', hl', rfl⟩ := Option.map_eq_some_iff.mp hl
    unfold CachedEntry
    rw [getElem?_take_of_lt hlt]
    exact h.runEntry g l' hl' j (by omega) hlt
  other g l hl j hlt := by
    rw [getElem?_map] at hl
    obtain ⟨l', hl', rfl⟩ := Option.map_eq_some_iff.mp hl
    unfold CachedEntry
    rw [getElem?_take_of_lt hlt]
    exact h.entry g l' hl' j (Nat.lt_of_lt_of_le hlt h.within)

/-- An aligned hit is not shortened. -/
theorem popUntilAligned_of_aligned (n : Nat)
    (h : (computed.headD []).length * blockSize % alignmentTokens = 0) :
    popUntilAligned blockSize alignmentTokens n computed = computed := by
  cases n with
  | zero => rfl
  | succ n =>
    unfold popUntilAligned
    rw [if_neg fun hcond => hcond.2 h]

/-- The blocks that a window needs before a token, at least one. -/
def windowBlocks (window blockSize : ℕ+) : Nat :=
  (max 1 (cdiv ((window : Nat) - 1) blockSize)).toNat

end Hit

/-- A pool of four blocks with nothing cached. -/
def emptyPool : BlockPool :=
  { numGpuBlocks := 4
    enableCaching := true
    hashBlockSize := 2
    freeBlockQueue := FreeKVCacheBlockQueue.init 4
    cachedBlockHashToBlock := {}
    nullBlock := .block 0
    enableKvCacheEvents := false
    useIntBlockHashes := false
    kvEventQueue := [] }

end Vllm.Proofs.Core
