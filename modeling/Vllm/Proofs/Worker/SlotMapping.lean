import Vllm.Lib.MapM
import Vllm.Lib.Interleave
import Vllm.V1.Worker.BlockTable

/-!
# `Vllm.Proofs.Worker.SlotMapping`: context-parallel slots and local lengths

`compute_slot_mapping` works on virtual blocks of `block_size * total_cp_world_size` positions,
`get_dcp_local_seq_lens` on whole rounds of the ranks. Both are the deal of `Vllm.Lib.Interleave`
when the interleave size divides the block size: a virtual block is then a number of rounds.

* `slot_eq`: the slot of a position, by its owner and its place among the positions of the owner.
* `slots_agree`: one rank stores each position, the positions of a rank fill the blocks of the
  table in order, and there are as many as `get_dcp_local_seq_lens` says.
-/

set_option autoImplicit false

namespace Vllm.Proofs.Worker

open Vllm.Lib Vllm.Lib.Interleave Vllm.V1.Worker

/-! ### Ranks -/

section Ranks
variable (g : CPGroups)

theorem totalCpWorldSize_pos : 0 < g.totalCpWorldSize :=
  Nat.mul_pos g.pcpWorldSize.pos g.dcpWorldSize.pos

theorem totalCpRank_lt (rank : g.Rank) : g.totalCpRank rank < g.totalCpWorldSize := by
  have hle : (rank.1.val + 1) * g.dcpWorldSize ≤ g.pcpWorldSize * g.dcpWorldSize :=
    Nat.mul_le_mul_right _ rank.1.isLt
  have hlt := rank.2.isLt
  unfold CPGroups.totalCpRank CPGroups.totalCpWorldSize
  rw [Nat.add_mul, Nat.one_mul] at hle
  omega

/-- Every total rank is the rank of one worker. -/
theorem existsUnique_rank {o : Nat} (ho : o < g.totalCpWorldSize) :
    ∃! rank, o = g.totalCpRank rank := by
  have hpos : 0 < (g.dcpWorldSize : Nat) := g.dcpWorldSize.pos
  refine ⟨(⟨o / g.dcpWorldSize, Nat.div_lt_of_lt_mul (by rwa [Nat.mul_comm])⟩,
    ⟨o % g.dcpWorldSize, Nat.mod_lt _ hpos⟩), (Nat.div_add_mod' o _).symm, ?_⟩
  rintro ⟨a, b⟩ hab
  have hb := b.isLt
  unfold CPGroups.totalCpRank at hab
  refine Prod.ext (Fin.ext ?_) (Fin.ext ?_)
  · show a.val = o / _
    rw [hab, Nat.mul_comm, Nat.mul_add_div hpos, Nat.div_eq_of_lt hb, Nat.add_zero]
  · show b.val = o % _
    rw [hab, Nat.mul_add_mod', Nat.mod_eq_of_lt hb]

end Ranks

/-! ### The slot of a position -/

section Slot
variable (t : BlockTable)

/-- The number of positions in a virtual block. -/
def virtualBlockSize : Nat := t.blockSize * t.groups.totalCpWorldSize

/-- The row of a request has an entry for each of its `L` positions. -/
structure Covers (i L : Nat) : Prop where
  row : i < t.maxNumReqs
  positions : L ≤ virtualBlockSize t * t.maxNumBlocksPerReq

variable {t}

theorem ravel_row {i j : Nat} (hi : i < t.maxNumReqs) (hj : j < t.maxNumBlocksPerReq) :
    t.ravel (i * t.maxNumBlocksPerReq + j) = .ok (t.blockTable i j) := by
  have hle : (i + 1) * t.maxNumBlocksPerReq ≤ t.maxNumReqs * t.maxNumBlocksPerReq :=
    Nat.mul_le_mul_right _ hi
  rw [Nat.add_mul, Nat.one_mul] at hle
  unfold BlockTable.ravel
  rw [if_pos (by omega), Nat.mul_comm i, Nat.mul_add_div (by omega), Nat.mul_add_mod,
    Nat.div_eq_of_lt hj, Nat.mod_eq_of_lt hj, Nat.add_zero]

/-- With interleave size `I`, a virtual block of `N` ranks is a number of rounds. -/
theorem virtualBlockSize_eq {k : Nat} (hk : t.blockSize = t.cpKvCacheInterleaveSize * k) :
    virtualBlockSize t = t.groups.totalCpWorldSize * t.cpKvCacheInterleaveSize * k := by
  unfold virtualBlockSize
  rw [hk, Nat.mul_comm, Nat.mul_assoc]

/-- The slot of a position: its owner stores it in the block of its virtual block, at its place
among the positions of the owner there. -/
theorem slot_eq {i L p : Nat} (hI : t.cpKvCacheInterleaveSize ∣ t.blockSize)
    (hcover : Covers t i L) (hp : p < L) (rank : t.groups.Rank) :
    t.slot rank i p = .ok (
      if owner t.cpKvCacheInterleaveSize t.groups.totalCpWorldSize p = t.groups.totalCpRank rank
      then ((t.blockTable i (p / virtualBlockSize t) * t.blockSize +
        localIndex t.cpKvCacheInterleaveSize t.groups.totalCpWorldSize
          (p % virtualBlockSize t) : Nat) : Int)
      else -1) := by
  obtain ⟨k, hk⟩ := hI
  have hV := virtualBlockSize_eq hk
  have hcol : p / virtualBlockSize t < t.maxNumBlocksPerReq :=
    Nat.div_lt_of_lt_mul (Nat.lt_of_lt_of_le hp hcover.positions)
  have howner := owner_mod_rounds (I := t.cpKvCacheInterleaveSize)
    (N := t.groups.totalCpWorldSize) (k := k) (p := p)
  rw [← hV] at howner
  unfold BlockTable.slot
  dsimp only
  split
  · rename_i hmany
    rw [show t.blockSize * t.groups.totalCpWorldSize = virtualBlockSize t from rfl,
      ravel_row hcover.row hcol, except_ok_bind, ← howner]
    rfl
  · rename_i hone
    -- A single rank owns every position, and the place of a position is its offset.
    have hN : t.groups.totalCpWorldSize = 1 := by
      have := totalCpWorldSize_pos t.groups
      omega
    have hVB : virtualBlockSize t = t.blockSize := by
      unfold virtualBlockSize
      rw [hN, Nat.mul_one]
    have hrank : t.groups.totalCpRank rank = 0 := by
      have := totalCpRank_lt t.groups rank
      omega
    have hplace : localIndex t.cpKvCacheInterleaveSize 1 (p % t.blockSize) = p % t.blockSize := by
      unfold localIndex
      rw [Nat.one_mul, Nat.div_add_mod']
    have hmine : owner t.cpKvCacheInterleaveSize 1 p = 0 := Nat.mod_one _
    rw [← hVB, ravel_row hcover.row hcol, except_ok_bind, hVB, hN, hrank, if_pos hmine, hplace]
    rfl

end Slot

/-! ### The slots of a sequence -/

section Agreement
variable (t : BlockTable)

/-- The rank computes a slot different from `-1`. -/
def owns (rank : t.groups.Rank) (i p : Nat) : Bool :=
  match t.slot rank i p with
  | .ok s => s ≠ -1
  | .error _ => false

/-- How many earlier positions of the virtual block of `p` the rank owns. -/
def placeInBlock (rank : t.groups.Rank) (i p : Nat) : Nat :=
  Nat.count (fun q => owns t rank i q = true ∧
    q / virtualBlockSize t = p / virtualBlockSize t) p

/-- The slots of the first `L` positions of the request in row `i`. -/
structure SlotsAgree (i L : Nat) : Prop where
  /-- The slots are the entries that `compute_slot_mapping` writes. -/
  computed : ∀ (rank : t.groups.Rank) (tokens : List (Nat × Nat)) (t' : BlockTable),
    t.computeSlotMapping rank tokens = .ok t' →
    ∀ k p, tokens[k]? = some (i, p) → t.slot rank i p = .ok (t'.slotMapping k)
  oneOwner : ∀ p < L, ∃! rank, owns t rank i p = true
  /-- In the block of the table, in order and without gaps. -/
  inBlock : ∀ (rank : t.groups.Rank) (p : Nat), p < L → owns t rank i p = true →
    t.slot rank i p = .ok ((t.blockTable i (p / virtualBlockSize t) * t.blockSize +
      placeInBlock t rank i p : Nat) : Int) ∧
    placeInBlock t rank i p < t.blockSize
  /-- No offset of a block is left out. -/
  filled : ∀ (rank : t.groups.Rank) (b : Nat), virtualBlockSize t * (b + 1) ≤ L →
    Nat.count (fun q => owns t rank i q = true ∧ q / virtualBlockSize t = b) L = t.blockSize
  distinct : ∀ (rank : t.groups.Rank) (p q : Nat), p < L → q < L → p ≠ q →
    owns t rank i p = true → owns t rank i q = true →
    t.slot rank i p = t.slot rank i q →
    p / virtualBlockSize t ≠ q / virtualBlockSize t ∧
      t.blockTable i (p / virtualBlockSize t) = t.blockTable i (q / virtualBlockSize t)
  length : ∀ rank : t.groups.Rank,
    getDcpLocalSeqLens [L] t.groups.totalCpWorldSize (some (t.groups.totalCpRank rank))
      t.cpKvCacheInterleaveSize = [[(Nat.count (fun p => owns t rank i p = true) L : Int)]]

variable {t}

theorem owns_iff {i L p : Nat} (hI : t.cpKvCacheInterleaveSize ∣ t.blockSize)
    (hcover : Covers t i L) (hp : p < L) (rank : t.groups.Rank) : owns t rank i p = true ↔
      owner t.cpKvCacheInterleaveSize t.groups.totalCpWorldSize p = t.groups.totalCpRank rank := by
  unfold owns
  rw [slot_eq hI hcover hp]
  dsimp only
  split
  · rename_i howner
    refine ⟨fun _ => howner, fun _ => decide_eq_true ?_⟩
    omega
  · rename_i howner
    simp [howner]

/-- Counting what a rank owns is counting in the deal. -/
theorem count_owns {i L n : Nat} (hI : t.cpKvCacheInterleaveSize ∣ t.blockSize)
    (hcover : Covers t i L) (hn : n ≤ L) (rank : t.groups.Rank) (P : Nat → Prop) [DecidablePred P] :
    Nat.count (fun q => owns t rank i q = true ∧ P q) n =
      Nat.count (fun q => owner t.cpKvCacheInterleaveSize t.groups.totalCpWorldSize q =
        t.groups.totalCpRank rank ∧ P q) n := by
  rw [Nat.count_eq_card_filter_range, Nat.count_eq_card_filter_range]
  refine congrArg Finset.card (Finset.filter_congr fun q hq => ?_)
  rw [owns_iff hI hcover (Nat.lt_of_lt_of_le (Finset.mem_range.mp hq) hn)]

theorem placeInBlock_eq {i L p : Nat} (hB : 0 < t.blockSize)
    (hI : t.cpKvCacheInterleaveSize ∣ t.blockSize) (hcover : Covers t i L) (hp : p < L)
    {rank : t.groups.Rank} (hown : owner t.cpKvCacheInterleaveSize t.groups.totalCpWorldSize p =
      t.groups.totalCpRank rank) :
    placeInBlock t rank i p = localIndex t.cpKvCacheInterleaveSize t.groups.totalCpWorldSize
      (p % virtualBlockSize t) := by
  have hI0 : 0 < t.cpKvCacheInterleaveSize := Nat.pos_of_dvd_of_pos hI hB
  have hN := totalCpWorldSize_pos t.groups
  unfold placeInBlock
  rw [count_owns hI hcover hp.le]
  obtain ⟨k, hk⟩ := hI
  have hk0 : 0 < k := by
    rcases Nat.eq_zero_or_pos k with rfl | hpos
    · omega
    · exact hpos
  rw [virtualBlockSize_eq hk]
  have hcount := count_in_block hI0 hN hk0 (totalCpRank_lt t.groups rank)
    (b := p / (t.groups.totalCpWorldSize * t.cpKvCacheInterleaveSize * k))
    (Nat.mod_lt p (Nat.mul_pos (Nat.mul_pos hN hI0) hk0)).le
  rw [Nat.div_add_mod] at hcount
  rw [hcount, localIndex_eq_count hI0 hN, owner_mod_rounds, hown,
    count_owner hI0 hN (totalCpRank_lt t.groups rank)]

/-- The entries of the slot mapping. -/
theorem computeSlotMapping_entry {rank : t.groups.Rank} {tokens : List (Nat × Nat)}
    {t' : BlockTable} (h : t.computeSlotMapping rank tokens = .ok t') {k i p : Nat}
    (hk : tokens[k]? = some (i, p)) : t.slot rank i p = .ok (t'.slotMapping k) := by
  unfold BlockTable.computeSlotMapping at h
  obtain ⟨slots, hslots, h⟩ := bind_ok h
  split at h
  · cases h
  · cases h
    obtain ⟨s, hs, hslot⟩ := (mapM_eq_ok_iff_getElem?.mp hslots).2 k _ hk
    rw [hslot]
    show Except.ok s = Except.ok ((slots[k]?).getD (t.slotMapping k))
    rw [hs]
    rfl

theorem dcpLocalSeqLen_eq (L N r I : Nat) :
    dcpLocalSeqLen L N r I = (localLength I N r L : Int) := by
  unfold dcpLocalSeqLen localLength
  dsimp only
  rw [Nat.mul_comm N I, ← Nat.div_div_eq_div_mul]
  have hmod : (L : Int) - ((L : Int) / I / N * I) * N = ((L % (I * N) : Nat) : Int) := by
    have h := Nat.div_add_mod L (I * N)
    rw [← Nat.div_div_eq_div_mul] at h
    have hz : ((I * N * (L / I / N) + L % (I * N) : Nat) : Int) = (L : Int) := by rw [h]
    push_cast at hz ⊢
    rw [Int.mul_assoc, Int.mul_comm]
    omega
  -- Subtraction of naturals is the clip at zero.
  have hclip : ∀ a b : Nat, min (max ((a : Int) - b) 0) I = ((min (a - b) I : Nat) : Int) := by
    intro a b
    omega
  rw [hmod, ← Int.natCast_mul r I, hclip]
  push_cast
  rfl

/-- For every number of ranks, every interleave size that divides the block size, every row of
the table and every length: the slots of the ranks and their local lengths agree. Two positions
of a rank share a slot only where the row has the same block twice. -/
theorem slots_agree {t : BlockTable} {i L : Nat} (hB : 0 < t.blockSize)
    (hI : t.cpKvCacheInterleaveSize ∣ t.blockSize) (hcover : Covers t i L) :
    SlotsAgree t i L := by
  have hI0 : 0 < t.cpKvCacheInterleaveSize := Nat.pos_of_dvd_of_pos hI hB
  have hN := totalCpWorldSize_pos t.groups
  have hin : ∀ (rank : t.groups.Rank) (p : Nat), p < L → owns t rank i p = true →
      t.slot rank i p = .ok ((t.blockTable i (p / virtualBlockSize t) * t.blockSize +
        placeInBlock t rank i p : Nat) : Int) ∧ placeInBlock t rank i p < t.blockSize := by
    intro rank p hp hown
    rw [owns_iff hI hcover hp] at hown
    rw [slot_eq hI hcover hp, if_pos hown, placeInBlock_eq hB hI hcover hp hown]
    refine ⟨rfl, ?_⟩
    obtain ⟨k, hk⟩ := hI
    rw [virtualBlockSize_eq hk, hk]
    refine localIndex_lt hI0 hN (Nat.mod_lt p ?_)
    rw [← virtualBlockSize_eq hk]
    exact Nat.mul_pos hB hN
  refine ⟨fun rank tokens t' h k p hk => computeSlotMapping_entry h hk, ?_, hin, ?_, ?_, ?_⟩
  · intro p hp
    obtain ⟨rank, hrank, huniq⟩ := existsUnique_rank t.groups
      (o := owner t.cpKvCacheInterleaveSize t.groups.totalCpWorldSize p) (Nat.mod_lt _ hN)
    refine ⟨rank, (owns_iff hI hcover hp rank).mpr hrank, fun rank' hown => ?_⟩
    exact huniq rank' ((owns_iff hI hcover hp rank').mp hown)
  · intro rank b hb
    rw [count_owns hI hcover (Nat.le_refl L)]
    obtain ⟨k, hk⟩ := hI
    have hk0 : 0 < k := by
      rcases Nat.eq_zero_or_pos k with rfl | hpos
      · omega
      · exact hpos
    rw [virtualBlockSize_eq hk] at hb ⊢
    rw [hk]
    exact count_whole_block hI0 hN hk0 (totalCpRank_lt t.groups rank) hb
  · intro rank p q hp hq hne hownp hownq hslot
    obtain ⟨hp', hplt⟩ := hin rank p hp hownp
    obtain ⟨hq', hqlt⟩ := hin rank q hq hownq
    rw [hp', hq'] at hslot
    have hnat := Int.ofNat.inj (Except.ok.inj hslot)
    have hblock : t.blockTable i (p / virtualBlockSize t) =
        t.blockTable i (q / virtualBlockSize t) := by
      have hdiv := congrArg (· / t.blockSize) hnat
      rwa [Nat.mul_comm, Nat.mul_add_div hB, Nat.div_eq_of_lt hplt, Nat.mul_comm,
        Nat.mul_add_div hB, Nat.div_eq_of_lt hqlt] at hdiv
    have hplace : placeInBlock t rank i p = placeInBlock t rank i q := by
      rw [hblock] at hnat
      exact Nat.add_left_cancel hnat
    refine ⟨fun hsame => hne ?_, hblock⟩
    -- In one virtual block the place of an owned position determines the position.
    unfold placeInBlock at hplace
    rw [hsame] at hplace
    exact Nat.count_injective ⟨hownp, hsame⟩ ⟨hownq, rfl⟩ hplace
  · intro rank
    have hcount : Nat.count (fun p => owns t rank i p = true) L =
        localLength t.cpKvCacheInterleaveSize t.groups.totalCpWorldSize
          (t.groups.totalCpRank rank) L := by
      rw [← count_owner hI0 hN (totalCpRank_lt t.groups rank), Nat.count_eq_card_filter_range,
        Nat.count_eq_card_filter_range]
      refine congrArg Finset.card (Finset.filter_congr fun q hq => ?_)
      rw [owns_iff hI hcover (Finset.mem_range.mp hq)]
    unfold getDcpLocalSeqLens
    rw [hcount, ← dcpLocalSeqLen_eq]
    rfl

end Agreement

/-! ### Two ranks -/

/-- Two ranks, blocks of four tokens, runs of two, and the row `5, 3` for the request. -/
def twoRanks : BlockTable where
  groups := { dcpWorldSize := 2 }
  blockSize := 4
  maxNumReqs := 1
  maxNumBlocksPerReq := 2
  maxNumBatchedTokens := 16
  cpKvCacheInterleaveSize := 2
  blockTable := fun _ j => if j = 0 then 5 else 3

/-- Eleven positions: the first rank stores six of them in the blocks 5 and 3. -/
theorem slots_agree_two_ranks : SlotsAgree twoRanks 0 11 ∧
      (List.range 11).map (fun p => (twoRanks.slot (0, 0) 0 p).toOption) =
        [20, 21, -1, -1, 22, 23, -1, -1, 12, 13, -1].map some :=
  ⟨slots_agree (by decide) (by decide) ⟨by decide, by decide⟩, by decide +kernel⟩

/-- The same with the null block in both entries, as a sliding window leaves its row. -/
def nullRow : BlockTable := { twoRanks with blockTable := fun _ _ => 0 }

/-- A row may have one block twice. The positions 0 and 8 then share the slot 0. -/
theorem null_blocks_share_slots : ¬ ∀ (t : BlockTable) (i L : Nat), 0 < t.blockSize →
    t.cpKvCacheInterleaveSize ∣ t.blockSize → Covers t i L →
    ∀ (rank : t.groups.Rank) (p q : Nat), p < L → q < L → p ≠ q → owns t rank i p = true →
      owns t rank i q = true → t.slot rank i p ≠ t.slot rank i q := by
  intro hall
  exact hall nullRow 0 11 (by decide) (by decide) ⟨by decide, by decide⟩ (0, 0) 0 8 (by decide)
    (by decide) (by decide) (by decide) (by decide) rfl

end Vllm.Proofs.Worker
