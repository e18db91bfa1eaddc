import Mathlib.Tactic.Linarith
import Mathlib.Tactic.Ring
import Vllm.Distributed.TensorMemoryPool
import Vllm.Lib.Buddy
import Vllm.Lib.Run

/-!
# `Vllm.Proofs.Distributed.TensorMemoryPool`: the blocks tile the memory

Sizes are powers of two and offsets are multiples of sizes, so a block is a tile of the region
(`Vllm.Lib.Buddy`): `blockOf`.

* `Lists`: every entry of the free lists is a tile, under its own size and address. `put_spec`
  and `del_spec` follow an entry that is added or removed.
* `Holding`: the invariant while a block is split or merged. Together with the free and the
  allocated tiles, the tile that is worked on tiles the region. `splitBlock_spec` and
  `mergeBuddies_spec` keep it.
* `PoolInv`: the invariant of the pool, which `allocate_spec` and `free_spec` keep.
* `pool_laws`: what it says about the blocks. `merge_depth_reached`: with more than
  `MAX_MERGE_DEPTH` halvings, buddies can stay free.
-/

set_option autoImplicit false

namespace Vllm.Proofs.Distributed

open Vllm.Lib Vllm.Lib.Buddy Vllm.Distributed Tile PyDict TensorMemoryPool

variable {base : Int} {m K : Nat} {fl : FreeLists} {A : Set Tile} {t u : Tile}

/-! ### Blocks as tiles -/

/-- The address of a tile. -/
def addrOf (base : Int) (t : Tile) : Int := base + t.start

/-- The block of a tile. -/
def blockOf (base : Int) (t : Tile) : MemoryBlock where
  size := 2 ^ t.order
  addr := addrOf base t

theorem addrOf_inj (horder : t.order = u.order) (h : addrOf base t = addrOf base u) : t = u := by
  refine eq_of_has_start horder ?_
  have hstart : t.start = u.start := by
    unfold addrOf at h
    omega
  rw [← hstart]
  exact t.has_start

variable {k j : Nat}

theorem two_pow_inj (h : 2 ^ k = 2 ^ j) : k = j := Nat.pow_right_injective le_rfl h

theorem blockOf_inj (h : blockOf base t = blockOf base u) : t = u :=
  addrOf_inj (two_pow_inj (congrArg MemoryBlock.size h)) (congrArg MemoryBlock.addr h)

/-- The tiles of the free lists. -/
def freeTiles (base : Int) (fl : FreeLists) : Set Tile :=
  {t | ∃ blocks, fl.get? (2 ^ t.order) = some blocks ∧
    blocks.get? (addrOf base t) = some (blockOf base t)}

/-- The tiles of the allocated blocks. -/
def allocatedTiles (base : Int) (allocated : PyDict Int MemoryBlock) : Set Tile :=
  {t | allocated.get? (addrOf base t) = some (blockOf base t)}

/-- There is a list for each power of two between the two sizes, and each of its entries is a
tile. -/
structure Lists (base : Int) (m K : Nat) (fl : FreeLists) : Prop where
  sizes : ∀ s, fl.contains s = true ↔ ∃ k, (m ≤ k ∧ k ≤ K) ∧ s = 2 ^ k
  blocks : ∀ s blocks a b, fl.get? s = some blocks → blocks.get? a = some b →
    ∃ t : Tile, s = 2 ^ t.order ∧ a = addrOf base t ∧ b = blockOf base t

theorem Lists.list (h : Lists base m K fl) (hm : m ≤ k) (hK : k ≤ K) :
    ∃ blocks, fl.get? (2 ^ k) = some blocks ∧ fl.list (2 ^ k) = .ok blocks := by
  obtain ⟨blocks, hget⟩ := Option.isSome_iff_exists.mp ((h.sizes _).mpr ⟨k, ⟨hm, hK⟩, rfl⟩)
  refine ⟨blocks, hget, ?_⟩
  unfold FreeLists.list
  rw [hget]

theorem Lists.order (h : Lists base m K fl) (ht : t ∈ freeTiles base fl) :
    m ≤ t.order ∧ t.order ≤ K := by
  obtain ⟨blocks, hget, -⟩ := ht
  have hcontains : fl.contains (2 ^ t.order) = true := by
    unfold contains
    rw [hget]
    rfl
  obtain ⟨k, hk, hpow⟩ := (h.sizes _).mp hcontains
  rw [two_pow_inj hpow]
  exact hk

/-- An entry of a list, as a tile. -/
theorem Lists.mem_of_get? (h : Lists base m K fl) {blocks : PyDict Int MemoryBlock}
    {b : MemoryBlock} (hlist : fl.get? (2 ^ k) = some blocks) {a : Int}
    (hget : blocks.get? a = some b) :
    ∃ t ∈ freeTiles base fl, t.order = k ∧ a = addrOf base t ∧ b = blockOf base t := by
  obtain ⟨t, hsize, rfl, rfl⟩ := h.blocks _ _ _ _ hlist hget
  obtain rfl := two_pow_inj hsize
  exact ⟨t, ⟨blocks, hlist, hget⟩, rfl, rfl, rfl⟩

section Entries
variable {blocks blocks' : PyDict Int MemoryBlock}

/-- One list is replaced. -/
theorem Lists.insert (h : Lists base m K fl) (hm : m ≤ t.order) (hK : t.order ≤ K)
    (hentries : ∀ a b, blocks'.get? a = some b → ∃ u : Tile, u.order = t.order ∧
      a = addrOf base u ∧ b = blockOf base u) :
    Lists base m K (fl.insert (2 ^ t.order) blocks') := by
  constructor
  · intro s
    rw [contains_insert, Bool.or_eq_true, decide_eq_true_eq, h.sizes]
    constructor
    · rintro (rfl | hs)
      · exact ⟨t.order, ⟨hm, hK⟩, rfl⟩
      · exact hs
    · exact .inr
  · intro s blocks a b hlist hget
    by_cases hs : s = 2 ^ t.order
    · rw [hs, get?_insert_self] at hlist
      cases hlist
      obtain ⟨u, horder, ha, hb⟩ := hentries a b hget
      exact ⟨u, by rw [hs, horder], ha, hb⟩
    · rw [get?_insert_of_ne _ _ hs] at hlist
      exact h.blocks s blocks a b hlist hget

/-- A tile of another order is free as before when a list is replaced. -/
theorem mem_freeTiles_insert_of_ne (h : u.order ≠ t.order) :
    u ∈ freeTiles base (fl.insert (2 ^ t.order) blocks') ↔ u ∈ freeTiles base fl := by
  unfold freeTiles
  rw [Set.mem_ofPred_eq, Set.mem_ofPred_eq, get?_insert_of_ne]
  exact fun hpow => h (two_pow_inj hpow)

theorem mem_freeTiles_insert (h : u.order = t.order) :
    u ∈ freeTiles base (fl.insert (2 ^ t.order) blocks') ↔
      blocks'.get? (addrOf base u) = some (blockOf base u) := by
  unfold freeTiles
  rw [Set.mem_ofPred_eq, h, get?_insert_self]
  simp

theorem mem_freeTiles_iff (hlist : fl.get? (2 ^ t.order) = some blocks) (h : u.order = t.order) :
    u ∈ freeTiles base fl ↔ blocks.get? (addrOf base u) = some (blockOf base u) := by
  unfold freeTiles
  rw [Set.mem_ofPred_eq, h, hlist]
  simp

/-- A tile becomes free. -/
theorem put_spec (h : Lists base m K fl) (hm : m ≤ t.order) (hK : t.order ≤ K) :
    ∃ fl', fl.put (2 ^ t.order) (blockOf base t) = .ok fl' ∧ Lists base m K fl' ∧
      freeTiles base fl' = insert t (freeTiles base fl) := by
  obtain ⟨blocks, hget, hlist⟩ := h.list hm hK
  have hentries : ∀ a b, (blocks.insert (addrOf base t) (blockOf base t)).get? a = some b →
      ∃ u : Tile, u.order = t.order ∧ a = addrOf base u ∧ b = blockOf base u := by
    intro a b hb
    rw [get?_insert] at hb
    split at hb
    · rename_i ha
      exact ⟨t, rfl, ha, (Option.some.inj hb).symm⟩
    · obtain ⟨u, -, horder, hu⟩ := h.mem_of_get? hget hb
      exact ⟨u, horder, hu⟩
  refine ⟨_, ?_, h.insert hm hK hentries, ?_⟩
  · unfold FreeLists.put
    rw [hlist, except_ok_bind]
    rfl
  · ext u
    rw [Set.mem_insert_iff]
    by_cases horder : u.order = t.order
    · rw [mem_freeTiles_insert horder, mem_freeTiles_iff hget horder, get?_insert]
      by_cases hut : u = t
      · subst hut
        simp
      · rw [if_neg fun ha => hut (addrOf_inj horder ha)]
        simp [hut]
    · rw [mem_freeTiles_insert_of_ne horder]
      constructor
      · exact .inr
      · rintro (rfl | hu)
        · exact absurd rfl horder
        · exact hu

/-- A tile is no longer free. -/
theorem del_spec (h : Lists base m K fl) (ht : t ∈ freeTiles base fl) :
    ∃ fl', fl.del (2 ^ t.order) (addrOf base t) = .ok fl' ∧ Lists base m K fl' ∧
      freeTiles base fl' = freeTiles base fl \ {t} := by
  obtain ⟨hm, hK⟩ := h.order ht
  obtain ⟨blocks, hget, hlist⟩ := h.list hm hK
  have hblock := (mem_freeTiles_iff hget rfl).mp ht
  have hentries : ∀ a b, (blocks.erase (addrOf base t)).get? a = some b →
      ∃ u : Tile, u.order = t.order ∧ a = addrOf base u ∧ b = blockOf base u := by
    intro a b hb
    rw [get?_erase] at hb
    split at hb
    · cases hb
    · obtain ⟨u, -, horder, hu⟩ := h.mem_of_get? hget hb
      exact ⟨u, horder, hu⟩
  refine ⟨_, ?_, h.insert hm hK hentries, ?_⟩
  · unfold FreeLists.del
    rw [hlist, except_ok_bind, if_pos]
    · rfl
    · unfold contains
      rw [hblock]
      rfl
  · ext u
    rw [Set.mem_sdiff, Set.mem_singleton_iff]
    by_cases horder : u.order = t.order
    · rw [mem_freeTiles_insert horder, mem_freeTiles_iff hget horder, get?_erase]
      by_cases hut : u = t
      · subst hut
        simp
      · rw [if_neg fun ha => hut (addrOf_inj horder ha)]
        simp [hut]
    · rw [mem_freeTiles_insert_of_ne horder]
      constructor
      · exact fun hu => ⟨hu, fun hut => horder (congrArg order hut)⟩
      · exact And.left

end Entries

/-! ### Splitting and merging -/

/-- While a tile is worked on: it, the free tiles and the other allocated ones tile the
region. -/
structure Holding (base : Int) (m K : Nat) (fl : FreeLists) (A : Set Tile) (t : Tile) : Prop where
  lists : Lists base m K fl
  tiling : Tiling K (insert t (freeTiles base fl ∪ A))
  notFree : t ∉ freeTiles base fl
  notHeld : t ∉ A
  disjoint : ∀ u ∈ freeTiles base fl, u ∉ A
  order : m ≤ t.order

/-- A free tile is taken. -/
theorem Holding.of_del {fl' : FreeLists} (hlists : Lists base m K fl)
    (htiling : Tiling K (freeTiles base fl ∪ A)) (hdisjoint : ∀ u ∈ freeTiles base fl, u ∉ A)
    (ht : t ∈ freeTiles base fl) (hlists' : Lists base m K fl')
    (hfree : freeTiles base fl' = freeTiles base fl \ {t}) : Holding base m K fl' A t := by
  have htA := hdisjoint t ht
  refine ⟨hlists', ?_, ?_, htA, fun u hu => ?_, (hlists.order ht).1⟩
  · have hset : insert t (freeTiles base fl' ∪ A) = freeTiles base fl ∪ A := by
      rw [hfree, ← Set.insert_union, Set.insert_sdiff_singleton, Set.insert_eq_of_mem ht]
    rw [hset]
    exact htiling
  · rw [hfree]
    exact fun hmem => hmem.2 rfl
  · rw [hfree] at hu
    exact hdisjoint u hu.1

/-- A round of `_split_block`: the higher half becomes free. -/
theorem Holding.split {i : Nat} (h : Holding base m K fl A ⟨k + 1, i⟩) (hm : m ≤ k) :
    ∃ fl', fl.put (2 ^ k) (blockOf base (high k i)) = .ok fl' ∧
      Holding base m K fl' A (low k i) ∧
      (NoBuddies (freeTiles base fl) → NoBuddies (freeTiles base fl')) := by
  obtain ⟨hlow, hhigh⟩ := h.tiling.half_not_mem
  have hK : k + 1 ≤ K := (h.tiling.inside _ (.inl rfl)).1
  obtain ⟨fl', hput, hlists, hfree⟩ := put_spec (t := high k i) h.lists hm (Nat.le_of_succ_le hK)
  have hne : low k i ≠ high k i := by
    intro heq
    have := congrArg index heq
    dsimp only [low, high] at this
    omega
  have hsplit := h.tiling.split fun hmem => hmem.elim h.notFree h.notHeld
  refine ⟨fl', hput, ⟨hlists, ?_, ?_, fun hmem => hlow (.inr hmem), fun u hu => ?_, hm⟩,
    fun hno => ?_⟩
  · rw [hfree, Set.insert_union]
    exact hsplit
  · rw [hfree]
    rintro (heq | hmem)
    · exact hne heq
    · exact hlow (.inl hmem)
  · rw [hfree] at hu
    rcases hu with rfl | hu
    · exact fun hmem => hhigh (.inr hmem)
    · exact h.disjoint u hu
  · rw [hfree]
    refine hno.insert fun hmem => hlow (.inl ?_)
    have hsibling : (high k i).sibling = low k i := by
      unfold sibling low high
      dsimp only
      rw [if_neg (by omega), Nat.add_sub_cancel]
    rw [hsibling] at hmem
    exact hmem

variable {fuel : Nat}

/-- `_split_block` leaves a block of the required size at the same address. -/
theorem splitBlock_spec {r : Nat} (h : Holding base m K fl A t) (hmr : m ≤ r) (hr : r ≤ t.order)
    (hfuel : t.order ≤ r + fuel) :
    ∃ fl' t', splitBlock (2 ^ m) (2 ^ r) fuel fl (blockOf base t) = .ok (fl', blockOf base t') ∧
      Holding base m K fl' A t' ∧ t'.order = r ∧
      (NoBuddies (freeTiles base fl) → NoBuddies (freeTiles base fl')) := by
  induction fuel generalizing fl t with
  | zero => exact ⟨fl, t, rfl, h, by omega, id⟩
  | succ fuel ih =>
    rcases Nat.lt_or_eq_of_le hr with hlt | heq
    · -- The block is too large: its lower half is split further.
      obtain ⟨k, i⟩ := t
      cases k with
      | zero => exact absurd hlt (Nat.not_lt_zero r)
      | succ k =>
        obtain ⟨fl1, hput, h1, hno1⟩ := h.split (hmr.trans (Nat.lt_succ_iff.mp hlt))
        obtain ⟨fl', t', hrun, h', horder, hno'⟩ :=
          ih h1 (Nat.lt_succ_iff.mp hlt) (by dsimp only [low] at hfuel ⊢; omega)
        refine ⟨fl', t', ?_, h', horder, hno' ∘ hno1⟩
        have hhalf : 2 ^ (k + 1) / 2 = 2 ^ k := by
          rw [Nat.pow_succ, Nat.mul_div_cancel _ (by omega)]
        have hbuddy : (⟨2 ^ k, (blockOf base ⟨k + 1, i⟩).addr + (2 ^ k : Nat)⟩ : MemoryBlock)
            = blockOf base (high k i) := by
          unfold blockOf addrOf start high
          dsimp only
          congr 1
          push_cast
          ring
        have hblock : (⟨2 ^ k, (blockOf base ⟨k + 1, i⟩).addr⟩ : MemoryBlock)
            = blockOf base (low k i) := by
          unfold blockOf addrOf start low
          dsimp only
          congr 1
          push_cast
          ring
        unfold splitBlock
        rw [if_pos]
        · show (do
            let freeLists ← fl.put (2 ^ (k + 1) / 2)
              ⟨2 ^ (k + 1) / 2, (blockOf base ⟨k + 1, i⟩).addr + (2 ^ (k + 1) / 2 : Nat)⟩
            splitBlock (2 ^ m) (2 ^ r) fuel freeLists
              ⟨2 ^ (k + 1) / 2, (blockOf base ⟨k + 1, i⟩).addr⟩) = _
          rw [hhalf, hbuddy, hblock, hput, except_ok_bind]
          exact hrun
        · show 2 ^ r < 2 ^ (k + 1) ∧ 2 ^ m ≤ 2 ^ (k + 1) / 2
          rw [hhalf]
          exact ⟨Nat.pow_lt_pow_right (by omega) hlt,
            Nat.pow_le_pow_right (by omega) (hmr.trans (Nat.lt_succ_iff.mp hlt))⟩
    · refine ⟨fl, t, ?_, h, heq.symm, id⟩
      unfold splitBlock
      rw [if_neg]
      rintro ⟨hlt, -⟩
      rw [heq] at hlt
      exact absurd hlt (lt_irrefl _)

/-- The tile is the lower half of its parent when its offset is a multiple of twice its size. -/
theorem offset_emod (base : Int) (t : Tile) :
    (addrOf base t - base) % (2 * (2 ^ t.order : Nat) : Int) = 0 ↔ t.index % 2 = 0 := by
  have hoffset : addrOf base t - base = (t.index * 2 ^ t.order : Nat) := by
    unfold addrOf start
    omega
  rw [hoffset]
  have hmod : t.index * 2 ^ t.order % (2 * 2 ^ t.order) = t.index % 2 * 2 ^ t.order :=
    Nat.mul_mod_mul_right _ _ _
  have hpos := Nat.two_pow_pos t.order
  constructor
  · intro h
    have hnat : t.index * 2 ^ t.order % (2 * 2 ^ t.order) = 0 := by exact_mod_cast h
    rw [hmod] at hnat
    exact (Nat.mul_eq_zero.mp hnat).resolve_right (by omega)
  · intro h
    rw [h, Nat.zero_mul] at hmod
    exact_mod_cast hmod

/-- The address of the buddy, as it is computed. -/
theorem addrOf_sibling (base : Int) (t : Tile) : (blockOf base t).addr +
      (if ((blockOf base t).addr - base) % (2 * (blockOf base t).size : Int) = 0 then
        ((blockOf base t).size : Int) else -(blockOf base t).size) = addrOf base t.sibling := by
  show addrOf base t + (if (addrOf base t - base) % (2 * (2 ^ t.order : Nat) : Int) = 0 then
    ((2 ^ t.order : Nat) : Int) else -(2 ^ t.order : Nat)) = addrOf base t.sibling
  by_cases hi : t.index % 2 = 0
  · rw [if_pos ((offset_emod base t).mpr hi)]
    unfold addrOf start sibling
    dsimp only
    rw [if_pos hi]
    push_cast
    ring
  · rw [if_neg (mt (offset_emod base t).mp hi)]
    obtain ⟨j, hj⟩ : ∃ j, t.index = j + 1 := ⟨t.index - 1, by omega⟩
    unfold addrOf start sibling
    dsimp only
    rw [if_neg hi, hj, Nat.add_sub_cancel]
    push_cast
    ring

/-- The block that two buddies are merged to. -/
theorem blockOf_parent (base : Int) (t : Tile) :
    (⟨(blockOf base t).size * 2, min (blockOf base t).addr (blockOf base t.sibling).addr⟩ :
      MemoryBlock) = blockOf base t.parent := by
  have hpos := Nat.two_pow_pos t.order
  have haddr : min (addrOf base t) (addrOf base t.sibling) = addrOf base t.parent := by
    unfold addrOf start sibling parent
    dsimp only
    rw [Nat.pow_succ]
    rcases Nat.even_or_odd' t.index with ⟨j, hj | hj⟩
    · rw [if_pos (by omega), hj, show 2 * j / 2 = j by omega, min_eq_left]
      · push_cast
        ring
      · push_cast
        nlinarith
    · rw [if_neg (by omega), hj, show (2 * j + 1) / 2 = j by omega, Nat.add_sub_cancel,
        min_eq_right]
      · push_cast
        ring
      · push_cast
        nlinarith
  unfold blockOf at haddr ⊢
  dsimp only at haddr ⊢
  rw [haddr]
  rfl

/-- A round of `_merge_buddies` that finds the buddy. -/
theorem Holding.merge (h : Holding base m K fl A t) (hsibling : t.sibling ∈ freeTiles base fl) :
    ∃ fl', fl.del (blockOf base t.sibling).size (blockOf base t.sibling).addr = .ok fl' ∧
      Holding base m K fl' A t.parent ∧ freeTiles base fl' ⊆ freeTiles base fl := by
  obtain ⟨fl', hdel, hlists, hfree⟩ := del_spec h.lists hsibling
  have hsiblingA := h.disjoint _ hsibling
  have hsub : freeTiles base fl' ⊆ freeTiles base fl := by
    rw [hfree]
    exact Set.sdiff_subset
  have hset : insert t.sibling (freeTiles base fl' ∪ A) = freeTiles base fl ∪ A := by
    rw [hfree, ← Set.insert_union, Set.insert_sdiff_singleton, Set.insert_eq_of_mem hsibling]
  have hmerged : Tiling K (insert t.parent (freeTiles base fl' ∪ A)) := by
    refine Tiling.merge_sibling (t := t) ?_ ?_ ?_
    · rw [hset]
      exact h.tiling
    · rintro (hmem | hmem)
      · exact h.notFree (hsub hmem)
      · exact h.notHeld hmem
    · rintro (hmem | hmem)
      · rw [hfree] at hmem
        exact hmem.2 rfl
      · exact hsiblingA hmem
  -- The parent has the points of `t`, so it was not there.
  have hparent : t.parent ∉ freeTiles base fl ∪ A := by
    intro hmem
    have hhas : t.parent.Has t.start := by
      rcases t.halves with ⟨hhalf, -⟩ | ⟨hhalf, -⟩
      · exact (Tile.has_succ _ _ _).mpr (.inl (hhalf ▸ t.has_start))
      · exact (Tile.has_succ _ _ _).mpr (.inr (hhalf ▸ t.has_start))
    have heq := h.tiling.unique t.start t.parent t (.inr hmem) (.inl rfl) hhas t.has_start
    have horder := congrArg Tile.order heq
    unfold Tile.parent at horder
    dsimp only at horder
    omega
  exact ⟨fl', hdel, ⟨hlists, hmerged, fun hmem => hparent (.inl (hsub hmem)),
    fun hmem => hparent (.inr hmem), fun u hu => h.disjoint u (hsub hu),
    h.order.trans (Nat.le_succ _)⟩, hsub⟩

/-- `_merge_buddies` ends with a block whose buddy is not free, or after all its rounds. -/
theorem mergeBuddies_spec {rounds : Nat} (h : Holding base m K fl A t) :
    ∃ fl' t', mergeBuddies base rounds fl (blockOf base t) = .ok (fl', blockOf base t') ∧
      Holding base m K fl' A t' ∧ freeTiles base fl' ⊆ freeTiles base fl ∧
      (t'.sibling ∉ freeTiles base fl' ∨ t'.order = t.order + rounds) := by
  induction rounds generalizing fl t with
  | zero => exact ⟨fl, t, rfl, h, subset_rfl, .inr rfl⟩
  | succ rounds ih =>
    have hK : t.order ≤ K := (h.tiling.inside _ (.inl rfl)).1
    obtain ⟨blocks, hget, hlist⟩ := h.lists.list h.order hK
    by_cases hsibling : t.sibling ∈ freeTiles base fl
    · obtain ⟨fl1, hdel, h1, hsub1⟩ := h.merge hsibling
      obtain ⟨fl', t', hrun, h', hsub, hend⟩ := ih h1
      have hblock := (mem_freeTiles_iff hget (rfl : t.sibling.order = t.order)).mp hsibling
      refine ⟨fl', t', ?_, h', hsub.trans hsub1, hend.imp id fun horder => ?_⟩
      · unfold mergeBuddies
        dsimp only
        rw [show (blockOf base t).size = 2 ^ t.order from rfl, hlist, except_ok_bind,
          show ((2 ^ t.order : Nat) : Int) = ((blockOf base t).size : Int) from rfl,
          addrOf_sibling, hblock]
        dsimp only
        rw [hdel, except_ok_bind,
          show 2 ^ t.order * 2 = (blockOf base t).size * 2 from rfl, blockOf_parent]
        exact hrun
      · rw [horder]
        unfold parent
        dsimp only
        omega
    · have hnone : blocks.get? (addrOf base t.sibling) = none := by
        cases hb : blocks.get? (addrOf base t.sibling) with
        | none => rfl
        | some b =>
          obtain ⟨u, hu, horder, haddr, -⟩ := h.lists.mem_of_get? hget hb
          have hut : u = t.sibling := addrOf_inj horder haddr.symm
          exact absurd (hut ▸ hu) hsibling
      refine ⟨fl, t, ?_, h, subset_rfl, .inl hsibling⟩
      unfold mergeBuddies
      dsimp only
      rw [show (blockOf base t).size = 2 ^ t.order from rfl, hlist, except_ok_bind,
        show ((2 ^ t.order : Nat) : Int) = ((blockOf base t).size : Int) from rfl,
        addrOf_sibling, hnone]

/-! ### The pool -/

/-- The invariant of a pool with sizes from `2 ^ m` to `2 ^ K`. -/
structure PoolInv (m K : Nat) (pool : TensorMemoryPool) : Prop where
  maxSize : pool.maxBlockSize = 2 ^ K
  minSize : pool.minBlockSize = 2 ^ m
  sizes : m ≤ K
  lists : Lists pool.baseAddress m K pool.freeLists
  allocated : ∀ a b, pool.allocatedBlocks.get? a = some b →
    ∃ t : Tile, m ≤ t.order ∧ a = addrOf pool.baseAddress t ∧ b = blockOf pool.baseAddress t
  tiling : Tiling K (freeTiles pool.baseAddress pool.freeLists ∪
    allocatedTiles pool.baseAddress pool.allocatedBlocks)
  disjoint : ∀ t ∈ freeTiles pool.baseAddress pool.freeLists,
    t ∉ allocatedTiles pool.baseAddress pool.allocatedBlocks
  noBuddies : K ≤ m + MAX_MERGE_DEPTH → NoBuddies (freeTiles pool.baseAddress pool.freeLists)

theorem roundToPowerOfTwo_eq (size : Nat) : roundToPowerOfTwo size = 2 ^ (size - 1).size :=
  Nat.one_shiftLeft _

/-- The rounded size is the least power of two that is large enough. -/
theorem size_le_iff {size : Nat} (hpos : 0 < size) : (size - 1).size ≤ k ↔ size ≤ 2 ^ k := by
  rw [Nat.size_le]
  omega

/-- The search for a list ends at a list that is not empty, or all lists from the required size
on are empty. -/
theorem findSize_spec (h : Lists base m K fl) (hj : m ≤ j) (hfuel : K < j + fuel) :
    (∃ k blocks, j ≤ k ∧ fl.get? (2 ^ k) = some blocks ∧ blocks.size ≠ 0 ∧
      findSize fl (2 ^ K) fuel (2 ^ j) = .ok (2 ^ k)) ∨
    (findSize fl (2 ^ K) fuel (2 ^ j) = .error (.valueError "Insufficient memory") ∧
      ∀ k blocks, j ≤ k → fl.get? (2 ^ k) = some blocks → blocks.size = 0) := by
  -- No list is longer than the region.
  have hbound : ∀ k blocks, fl.get? (2 ^ k) = some blocks → k ≤ K := by
    intro k blocks hget
    have hcontains : fl.contains (2 ^ k) = true := by
      unfold contains
      rw [hget]
      rfl
    obtain ⟨k', hk', hpow⟩ := (h.sizes _).mp hcontains
    rw [two_pow_inj hpow]
    exact hk'.2
  induction fuel generalizing j with
  | zero =>
    refine .inr ⟨rfl, fun k blocks hk hget => ?_⟩
    have := hbound k blocks hget
    omega
  | succ fuel ih =>
    by_cases hle : j ≤ K
    · obtain ⟨blocks, hget, hlist⟩ := h.list hj hle
      have hunfold : findSize fl (2 ^ K) (fuel + 1) (2 ^ j) =
          if blocks.size ≠ 0 then .ok (2 ^ j)
          else findSize fl (2 ^ K) fuel (2 ^ (j + 1)) := by
        rw [findSize, if_pos (Nat.pow_le_pow_right (by omega) hle), hlist,
          except_ok_bind, Nat.pow_succ]
        rfl
      rw [hunfold]
      by_cases hempty : blocks.size = 0
      · rw [if_neg (by simpa using hempty)]
        rcases ih (hj.trans (Nat.le_succ j)) (by omega) with
          ⟨k, blocks', hk, hget', hsome, hrun⟩ | ⟨hrun, hnone⟩
        · exact .inl ⟨k, blocks', by omega, hget', hsome, hrun⟩
        · refine .inr ⟨hrun, fun k blocks' hk hget' => ?_⟩
          rcases Nat.lt_or_eq_of_le hk with hlt | rfl
          · exact hnone k blocks' hlt hget'
          · rw [hget] at hget'
            exact Option.some.inj hget' ▸ hempty
      · rw [if_pos hempty]
        exact .inl ⟨j, blocks, le_rfl, hget, hempty, rfl⟩
    · refine .inr ⟨?_, fun k blocks hk hget => ?_⟩
      · rw [findSize, if_neg]
        rw [not_le]
        exact Nat.pow_lt_pow_right (by omega) (by omega)
      · have := hbound k blocks hget
        omega

section Pool
variable {pool : TensorMemoryPool}

/-- The order of the blocks that `allocate` needs. -/
def requiredOrder (pool : TensorMemoryPool) (size : Int) : Nat :=
  ((max size pool.minBlockSize).toNat - 1).size

variable {size : Int}

theorem PoolInv.le_requiredOrder (h : PoolInv m K pool) (hsize : 0 < size) :
    m ≤ requiredOrder pool size := by
  have hle : (max size pool.minBlockSize).toNat ≤ 2 ^ requiredOrder pool size :=
    (size_le_iff (by omega)).mp le_rfl
  have hmin : 2 ^ m ≤ 2 ^ requiredOrder pool size := by
    rw [← h.minSize]
    omega
  exact (Nat.pow_le_pow_iff_right (by omega)).mp hmin

/-- A tile is large enough when it has at least the required order. -/
theorem PoolInv.requiredOrder_le_iff (h : PoolInv m K pool) (hsize : 0 < size) {k : Nat}
    (hm : m ≤ k) : requiredOrder pool size ≤ k ↔ size ≤ (2 ^ k : Nat) := by
  unfold requiredOrder
  rw [size_le_iff (by omega)]
  have hmin : pool.minBlockSize ≤ 2 ^ k := by
    rw [h.minSize]
    exact Nat.pow_le_pow_right (by omega) hm
  omega

/-- `allocate`, in powers of two. -/
theorem PoolInv.allocate_eq (h : PoolInv m K pool) (hsize : 0 < size) : pool.allocate size =
      if 2 ^ K < 2 ^ requiredOrder pool size then
        .error (.valueError "Requested size exceeds maximum block size")
      else do
        let currentSize ← findSize pool.freeLists (2 ^ K) (K + 2) (2 ^ requiredOrder pool size)
        match (← pool.freeLists.list currentSize).entries.getLast? with
        | none => throw (.keyError "popitem(): dictionary is empty")
        | some (addr, block) =>
          let freeLists ← pool.freeLists.del currentSize addr
          let (freeLists, block) ← splitBlock (2 ^ m) (2 ^ requiredOrder pool size)
            block.size.size freeLists block
          return (block.addr, { pool with
            freeLists
            allocatedBlocks := pool.allocatedBlocks.insert block.addr block }) := by
  have hbits : (2 ^ K : Nat).size = K + 1 := Nat.size_pow
  have hround : roundToPowerOfTwo (max size pool.minBlockSize).toNat =
      2 ^ requiredOrder pool size := roundToPowerOfTwo_eq _
  unfold allocate
  rw [if_neg (by omega)]
  show (if pool.maxBlockSize < roundToPowerOfTwo _ then _ else _) = _
  rw [hround, h.maxSize, h.minSize, hbits]
  rfl

/-- The tile of an address that is handed out was not allocated. -/
theorem PoolInv.fresh {fl' : FreeLists} (h : PoolInv m K pool)
    (hhold : Holding pool.baseAddress m K fl'
      (allocatedTiles pool.baseAddress pool.allocatedBlocks) t) :
    pool.allocatedBlocks.contains (addrOf pool.baseAddress t) = false := by
  by_contra hcontains
  obtain ⟨b, hb⟩ := Option.isSome_iff_exists.mp (Bool.not_eq_false _ ▸ hcontains)
  obtain ⟨u, -, haddr, rfl⟩ := h.allocated _ _ hb
  have hu : u ∈ allocatedTiles pool.baseAddress pool.allocatedBlocks := by
    show pool.allocatedBlocks.get? (addrOf pool.baseAddress u) = _
    rw [← haddr]
    exact hb
  have hstart : u.start = t.start := by
    unfold addrOf at haddr
    omega
  have hut := hhold.tiling.eq_of_start (.inr (.inr hu)) (.inl rfl) hstart
  exact hhold.notHeld (hut ▸ hu)

variable {allocated : PyDict Int MemoryBlock}

theorem allocatedTiles_insert (hnew : allocated.contains (addrOf base t) = false) :
    allocatedTiles base (allocated.insert (addrOf base t) (blockOf base t)) =
      insert t (allocatedTiles base allocated) := by
  ext u
  rw [Set.mem_insert_iff]
  show (allocated.insert _ _).get? (addrOf base u) = _ ↔ _
  rw [get?_insert]
  split
  · rename_i haddr
    constructor
    · intro hb
      exact .inl (blockOf_inj (Option.some.inj hb)).symm
    · rintro (rfl | hu)
      · rfl
      · have hu' : allocated.get? (addrOf base u) = some (blockOf base u) := hu
        unfold contains at hnew
        rw [← haddr, hu'] at hnew
        cases hnew
  · rename_i haddr
    constructor
    · exact .inr
    · rintro (rfl | hu)
      · exact absurd rfl haddr
      · exact hu

/-- The pool after the block that is worked on is handed out. -/
theorem PoolInv.handOut {fl' : FreeLists} (h : PoolInv m K pool)
    (hhold : Holding pool.baseAddress m K fl'
      (allocatedTiles pool.baseAddress pool.allocatedBlocks) t)
    (hno : K ≤ m + MAX_MERGE_DEPTH → NoBuddies (freeTiles pool.baseAddress fl')) :
    PoolInv m K { pool with
      freeLists := fl'
      allocatedBlocks := pool.allocatedBlocks.insert (addrOf pool.baseAddress t)
        (blockOf pool.baseAddress t) } := by
  have hallocated := allocatedTiles_insert (h.fresh hhold)
  refine ⟨h.maxSize, h.minSize, h.sizes, hhold.lists, fun a b hb => ?_, ?_, fun u hu => ?_, hno⟩
  · dsimp only at hb
    rw [get?_insert] at hb
    split at hb
    · rename_i ha
      exact ⟨t, hhold.order, ha, (Option.some.inj hb).symm⟩
    · exact h.allocated a b hb
  · dsimp only
    rw [hallocated, Set.union_insert]
    exact hhold.tiling
  · dsimp only at hu ⊢
    rw [hallocated]
    rintro (rfl | hmem)
    · exact hhold.notFree hu
    · exact hhold.disjoint u hu hmem

/-- `allocate` hands out a block that is large enough, or no free block is. -/
theorem allocate_spec (h : PoolInv m K pool) (hsize : 0 < size) :
    (∃ t pool', pool.allocate size = .ok (addrOf pool.baseAddress t, pool') ∧ PoolInv m K pool' ∧
      pool'.allocatedBlocks = pool.allocatedBlocks.insert (addrOf pool.baseAddress t)
        (blockOf pool.baseAddress t) ∧
      pool.allocatedBlocks.contains (addrOf pool.baseAddress t) = false ∧
      size ≤ (2 ^ t.order : Nat)) ∨
    (∃ msg, pool.allocate size = .error (.valueError msg) ∧
      ∀ t ∈ freeTiles pool.baseAddress pool.freeLists, ((2 ^ t.order : Nat) : Int) < size) := by
  have hmr := h.le_requiredOrder hsize
  rw [h.allocate_eq hsize]
  by_cases hfits : K < requiredOrder pool size
  · refine .inr ⟨"Requested size exceeds maximum block size", ?_, fun u hu => ?_⟩
    · rw [if_pos (Nat.pow_lt_pow_right (by omega) hfits)]
    · obtain ⟨hm, hK⟩ := h.lists.order hu
      have hlarge := (h.requiredOrder_le_iff hsize hm).not
      omega
  rw [if_neg (not_lt.mpr (Nat.pow_le_pow_right (by omega) (not_lt.mp hfits)))]
  rcases findSize_spec h.lists hmr (by omega : K < requiredOrder pool size + (K + 2)) with
    ⟨k, blocks, hk, hget, hsome, hrun⟩ | ⟨hrun, hnone⟩
  · -- The newest block of the list is a free tile.
    obtain ⟨⟨a, b⟩, hlast⟩ : ∃ e, blocks.entries.getLast? = some e := by
      refine ⟨blocks.entries.getLast fun hnil => hsome ?_, List.getLast?_eq_some_getLast _⟩
      unfold PyDict.size
      rw [hnil]
      rfl
    have hentry : blocks.get? a = some b :=
      (blocks.mem_entries_iff a b).mp (List.mem_of_getLast? hlast)
    obtain ⟨t, ht, rfl, rfl, rfl⟩ := h.lists.mem_of_get? hget hentry
    obtain ⟨fl1, hdel, hlists1, hfree1⟩ := del_spec h.lists ht
    have hhold := Holding.of_del h.lists h.tiling h.disjoint ht hlists1 hfree1
    have hbits : (2 ^ t.order : Nat).size = t.order + 1 := Nat.size_pow
    obtain ⟨fl2, t', hsplit, hhold2, horder, hno⟩ :=
      splitBlock_spec hhold hmr hk (by omega : t.order ≤ requiredOrder pool size + (t.order + 1))
    have hno2 : K ≤ m + MAX_MERGE_DEPTH → NoBuddies (freeTiles pool.baseAddress fl2) := by
      intro hdepth
      refine hno ((h.noBuddies hdepth).mono ?_)
      rw [hfree1]
      exact Set.sdiff_subset
    refine .inl ⟨t', _, ?_, h.handOut hhold2 hno2, rfl, h.fresh hhold2, ?_⟩
    · rw [hrun, except_ok_bind]
      unfold FreeLists.list
      rw [hget, except_ok_bind, hlast]
      dsimp only
      rw [hdel, except_ok_bind, show (blockOf pool.baseAddress t).size = 2 ^ t.order from rfl,
        hbits, hsplit, except_ok_bind]
      rfl
    · exact (h.requiredOrder_le_iff hsize hhold2.order).mp horder.ge
  · refine .inr ⟨"Insufficient memory", ?_, fun u hu => ?_⟩
    · rw [hrun]
      rfl
    · by_contra hlt
      have hlarge := (h.requiredOrder_le_iff hsize (h.lists.order hu).1).mpr (not_lt.mp hlt)
      obtain ⟨blocks, hget, hentry⟩ := hu
      have hempty := hnone u.order blocks hlarge hget
      have hmem := PyDict.mem_keys_of_get? hentry
      rw [PyDict.size_eq_length_keys, List.length_eq_zero_iff] at hempty
      rw [hempty] at hmem
      exact List.not_mem_nil hmem

theorem allocatedTiles_erase
    (hunique : ∀ u ∈ allocatedTiles base allocated, addrOf base u = addrOf base t → u = t) :
    allocatedTiles base (allocated.erase (addrOf base t)) =
      allocatedTiles base allocated \ {t} := by
  ext u
  rw [Set.mem_sdiff, Set.mem_singleton_iff]
  show (allocated.erase _).get? (addrOf base u) = _ ↔ _
  rw [get?_erase]
  split
  · rename_i haddr
    constructor
    · intro hb
      cases hb
    · rintro ⟨hu, hne⟩
      exact absurd (hunique u hu haddr) hne
  · rename_i haddr
    constructor
    · intro hu
      exact ⟨hu, fun hut => haddr (congrArg (addrOf base) hut)⟩
    · exact And.left

/-- `free` takes back a block that is allocated, and nothing else changes in what is
allocated. -/
theorem free_spec (h : PoolInv m K pool) {addr : Int}
    (haddr : pool.allocatedBlocks.contains addr = true) :
    ∃ pool', pool.free addr = .ok pool' ∧ PoolInv m K pool' ∧
      pool'.allocatedBlocks = pool.allocatedBlocks.erase addr := by
  obtain ⟨b, hb⟩ := Option.isSome_iff_exists.mp haddr
  obtain ⟨t, hm, rfl, rfl⟩ := h.allocated _ _ hb
  have ht : t ∈ allocatedTiles pool.baseAddress pool.allocatedBlocks := hb
  have herase : allocatedTiles pool.baseAddress
      (pool.allocatedBlocks.erase (addrOf pool.baseAddress t)) =
      allocatedTiles pool.baseAddress pool.allocatedBlocks \ {t} := by
    refine allocatedTiles_erase fun u hu heq => h.tiling.eq_of_start (.inr hu) (.inr ht) ?_
    unfold addrOf at heq
    omega
  -- The tile is worked on: it is no longer allocated and not yet free.
  have hhold : Holding pool.baseAddress m K pool.freeLists
      (allocatedTiles pool.baseAddress pool.allocatedBlocks \ {t}) t := by
    refine ⟨h.lists, ?_, fun hmem => h.disjoint t hmem ht, fun hmem => hmem.2 rfl,
      fun u hu hmem => h.disjoint u hu hmem.1, hm⟩
    rw [← Set.union_insert, Set.insert_sdiff_singleton, Set.insert_eq_of_mem ht]
    exact h.tiling
  obtain ⟨fl1, t', hmerge, hhold1, hsub, hend⟩ := @mergeBuddies_spec _ _ _ _ _ _ MAX_MERGE_DEPTH hhold
  have hK : t'.order ≤ K := (hhold1.tiling.inside _ (.inl rfl)).1
  obtain ⟨fl2, hput, hlists2, hfree2⟩ := put_spec hhold1.lists hhold1.order hK
  refine ⟨{ pool with
    freeLists := fl2
    allocatedBlocks := pool.allocatedBlocks.erase (addrOf pool.baseAddress t) }, ?_,
    ⟨h.maxSize, h.minSize, h.sizes, hlists2, fun a b hget => ?_, ?_, fun u hu => ?_,
      fun hdepth => ?_⟩, rfl⟩
  · unfold free
    rw [hb]
    dsimp only
    rw [hmerge, except_ok_bind]
    dsimp only
    rw [show (blockOf pool.baseAddress t').size = 2 ^ t'.order from rfl, hput, except_ok_bind]
    rfl
  · dsimp only at hget
    rw [get?_erase] at hget
    split at hget
    · cases hget
    · exact h.allocated a b hget
  · dsimp only
    rw [herase, hfree2, Set.insert_union]
    exact hhold1.tiling
  · dsimp only at hu ⊢
    rw [herase]
    rw [hfree2] at hu
    rcases hu with rfl | hu
    · exact hhold1.notHeld
    · exact hhold1.disjoint u hu
  · -- Where the rounds were used up, the block is the whole memory.
    dsimp only
    rw [hfree2]
    refine ((h.noBuddies hdepth).mono hsub).insert ?_
    rcases hend with hsibling | horder
    · exact hsibling
    · have hwhole : t'.order = K := by omega
      exact fun hmem => hhold1.tiling.sibling_not_mem (.inl rfl) hwhole (.inr (.inl hmem))

end Pool

/-! ### The constructor -/

/-- The loop adds an empty list for each size down to the smallest one. -/
theorem initializeFreeLists_spec (hfuel : j < fuel) (fl : FreeLists) :
    (∀ k, m ≤ k → k ≤ j → (initializeFreeLists (2 ^ m) fuel (2 ^ j) fl).get? (2 ^ k) = some .empty) ∧
    ∀ s, (∀ k, m ≤ k → k ≤ j → s ≠ 2 ^ k) →
      (initializeFreeLists (2 ^ m) fuel (2 ^ j) fl).get? s = fl.get? s := by
  induction fuel generalizing j fl with
  | zero => exact absurd hfuel (Nat.not_lt_zero j)
  | succ fuel ih =>
    rw [initializeFreeLists]
    by_cases hmj : m ≤ j
    · rw [if_pos (Nat.pow_le_pow_right (by omega) hmj)]
      cases j with
      | zero =>
        -- The size is one, and its half is zero.
        obtain rfl : m = 0 := Nat.le_zero.mp hmj
        have hstop : initializeFreeLists (2 ^ 0) fuel (2 ^ 0 / 2) (fl.insert (2 ^ 0) .empty)
            = fl.insert (2 ^ 0) .empty := by
          cases fuel <;> rfl
        rw [hstop]
        refine ⟨fun k _ hk => ?_, fun s hs => ?_⟩
        · obtain rfl : k = 0 := Nat.le_zero.mp hk
          exact get?_insert_self _ _ _
        · exact get?_insert_of_ne _ _ (hs 0 le_rfl le_rfl)
      | succ j =>
        rw [Nat.pow_succ, Nat.mul_div_cancel _ (by omega), ← Nat.pow_succ]
        obtain ⟨hnew, hold⟩ := ih (by omega : j < fuel) (fl.insert (2 ^ (j + 1)) .empty)
        refine ⟨fun k hm hk => ?_, fun s hs => ?_⟩
        · rcases Nat.lt_or_eq_of_le hk with hlt | rfl
          · exact hnew k hm (by omega)
          · rw [hold _ fun k _ hk heq => by
              have := two_pow_inj heq
              omega]
            exact get?_insert_self _ _ _
        · rw [hold s fun k hm hk => hs k hm (by omega)]
          exact get?_insert_of_ne _ _ (hs (j + 1) hmj le_rfl)
    · rw [if_neg (by rw [not_le]; exact Nat.pow_lt_pow_right (by omega) (by omega))]
      exact ⟨fun k hm hk => by omega, fun s _ => rfl⟩

/-- Before the memory is added, the lists are there and are empty. -/
theorem lists_initialize (base : Int) (m K : Nat) :
    Lists base m K (initializeFreeLists (2 ^ m) (K + 1) (2 ^ K) .empty) ∧
      freeTiles base (initializeFreeLists (2 ^ m) (K + 1) (2 ^ K) .empty) = ∅ := by
  obtain ⟨hnew, hold⟩ := initializeFreeLists_spec (m := m) (j := K) (Nat.lt_succ_self K) empty
  have hlists : Lists base m K (initializeFreeLists (2 ^ m) (K + 1) (2 ^ K) .empty) := by
    refine ⟨fun s => ⟨fun hs => ?_, ?_⟩, fun s blocks a b hget hb => ?_⟩
    · by_contra hnone
      unfold contains at hs
      rw [hold s fun k hm hk heq => hnone ⟨k, ⟨hm, hk⟩, heq⟩] at hs
      cases hs
    · rintro ⟨k, ⟨hm, hk⟩, rfl⟩
      unfold contains
      rw [hnew k hm hk]
      rfl
    · by_cases hs : ∃ k, (m ≤ k ∧ k ≤ K) ∧ s = 2 ^ k
      · obtain ⟨k, ⟨hm, hk⟩, rfl⟩ := hs
        rw [hnew k hm hk] at hget
        cases hget
        cases hb
      · rw [hold s fun k hm hk heq => hs ⟨k, ⟨hm, hk⟩, heq⟩] at hget
        cases hget
  refine ⟨hlists, Set.eq_empty_iff_forall_notMem.mpr fun t ht => ?_⟩
  obtain ⟨hm, hk⟩ := hlists.order ht
  cases (mem_freeTiles_iff (hnew t.order hm hk) rfl).mp ht

/-- A new pool is one free block. -/
theorem new_spec {maxBlockSize minBlockSize : Int} {pool : TensorMemoryPool}
    (h : new maxBlockSize minBlockSize base = .ok pool) :
    ∃ m K, PoolInv m K pool ∧ pool.baseAddress = base := by
  unfold new at h
  by_cases hpos : maxBlockSize ≤ 0 ∨ minBlockSize ≤ 0
  · rw [if_pos hpos] at h
    cases h
  rw [if_neg hpos] at h
  dsimp only at h
  by_cases hlt : maxBlockSize < minBlockSize
  · rw [if_pos hlt] at h
    cases h
  rw [if_neg hlt] at h
  rw [roundToPowerOfTwo_eq, roundToPowerOfTwo_eq] at h
  set m := (minBlockSize.toNat - 1).size with hm
  set K := (maxBlockSize.toNat - 1).size with hK
  have hmK : m ≤ K := Nat.size_le_size (by omega)
  have hbits : (2 ^ K : Nat).size = K + 1 := Nat.size_pow
  rw [hbits] at h
  obtain ⟨hlists, hempty⟩ := lists_initialize base m K
  obtain ⟨fl, hput, hlists', hfree⟩ := put_spec (t := ⟨K, 0⟩) hlists hmK le_rfl
  have hblock : (⟨2 ^ K, base⟩ : MemoryBlock) = blockOf base ⟨K, 0⟩ := by
    unfold blockOf addrOf start
    dsimp only
    rw [Nat.zero_mul, Nat.cast_zero, add_zero]
  rw [hblock, hput, except_ok_bind] at h
  cases h
  have hnone : allocatedTiles base (empty : PyDict Int MemoryBlock) = ∅ :=
    Set.eq_empty_iff_forall_notMem.mpr fun t ht => nomatch ht
  have hsingle : freeTiles base fl = {⟨K, 0⟩} := by
    rw [hfree, hempty, insert_empty_eq]
  refine ⟨m, K, ⟨rfl, rfl, hmK, hlists', ?_, ?_, ?_, fun _ => ?_⟩, rfl⟩
  · intro a b hb
    cases hb
  · dsimp only
    rw [hnone, hsingle, Set.union_empty]
    exact tiling_single K
  · dsimp only
    rw [hnone]
    exact fun _ _ hmem => hmem
  · dsimp only
    rw [hsingle]
    rintro k i ⟨hlow, hhigh⟩
    have := congrArg index (hlow.trans hhigh.symm)
    dsimp only [low, high] at this
    omega

/-! ### The laws -/

/-- A free block. -/
def FreeBlock (pool : TensorMemoryPool) (b : MemoryBlock) : Prop :=
  ∃ s a blocks, pool.freeLists.get? s = some blocks ∧ blocks.get? a = some b

/-- An allocated block. -/
def AllocatedBlock (pool : TensorMemoryPool) (b : MemoryBlock) : Prop :=
  ∃ a, pool.allocatedBlocks.get? a = some b

/-- The address is in the block. -/
def MemoryBlock.Has (b : MemoryBlock) (x : Int) : Prop := b.addr ≤ x ∧ x < b.addr + b.size

/-- The free and the allocated blocks partition the memory. Each is kept under its own size and
address, its size is a power of two between the two sizes of the pool, and its offset is a
multiple of its size. -/
structure Partition (pool : TensorMemoryPool) : Prop where
  freeKeys : ∀ s a blocks b, pool.freeLists.get? s = some blocks → blocks.get? a = some b →
    s = b.size ∧ a = b.addr
  allocatedKeys : ∀ a b, pool.allocatedBlocks.get? a = some b → a = b.addr
  size : ∀ b, FreeBlock pool b ∨ AllocatedBlock pool b →
    (∃ k, b.size = 2 ^ k) ∧ pool.minBlockSize ≤ b.size ∧ b.size ≤ pool.maxBlockSize
  offset : ∀ b, FreeBlock pool b ∨ AllocatedBlock pool b →
    (b.size : Int) ∣ b.addr - pool.baseAddress
  inside : ∀ b, FreeBlock pool b ∨ AllocatedBlock pool b →
    pool.baseAddress ≤ b.addr ∧ b.addr + b.size ≤ pool.baseAddress + pool.maxBlockSize
  cover : ∀ x, pool.baseAddress ≤ x → x < pool.baseAddress + pool.maxBlockSize →
    ∃! b, (FreeBlock pool b ∨ AllocatedBlock pool b) ∧ MemoryBlock.Has b x
  apart : ∀ b, FreeBlock pool b → ¬ AllocatedBlock pool b

/-- Two blocks are the halves of a block of twice their size. -/
def AreBuddies (base : Int) (b c : MemoryBlock) : Prop :=
  b.size = c.size ∧ c.addr = b.addr + b.size ∧ ((2 * b.size : Nat) : Int) ∣ b.addr - base

section Laws
variable {pool : TensorMemoryPool} {b : MemoryBlock}

theorem PoolInv.freeBlock_iff (h : PoolInv m K pool) : FreeBlock pool b ↔
      ∃ t ∈ freeTiles pool.baseAddress pool.freeLists, b = blockOf pool.baseAddress t := by
  constructor
  · rintro ⟨s, a, blocks, hlist, hget⟩
    obtain ⟨t, rfl, rfl, rfl⟩ := h.lists.blocks _ _ _ _ hlist hget
    exact ⟨t, ⟨blocks, hlist, hget⟩, rfl⟩
  · rintro ⟨t, ⟨blocks, hlist, hget⟩, rfl⟩
    exact ⟨_, _, blocks, hlist, hget⟩

theorem PoolInv.allocatedBlock_iff (h : PoolInv m K pool) : AllocatedBlock pool b ↔
      ∃ t ∈ allocatedTiles pool.baseAddress pool.allocatedBlocks,
        m ≤ t.order ∧ b = blockOf pool.baseAddress t := by
  constructor
  · rintro ⟨a, hget⟩
    obtain ⟨t, hm, rfl, rfl⟩ := h.allocated _ _ hget
    exact ⟨t, hget, hm, rfl⟩
  · rintro ⟨t, ht, -, rfl⟩
    exact ⟨_, ht⟩

/-- A block of the pool is a tile of the tiling. -/
theorem PoolInv.block (h : PoolInv m K pool) (hb : FreeBlock pool b ∨ AllocatedBlock pool b) :
    ∃ t ∈ freeTiles pool.baseAddress pool.freeLists ∪
      allocatedTiles pool.baseAddress pool.allocatedBlocks,
      m ≤ t.order ∧ b = blockOf pool.baseAddress t := by
  rcases hb with hb | hb
  · obtain ⟨t, ht, rfl⟩ := h.freeBlock_iff.mp hb
    exact ⟨t, .inl ht, (h.lists.order ht).1, rfl⟩
  · obtain ⟨t, ht, hm, rfl⟩ := h.allocatedBlock_iff.mp hb
    exact ⟨t, .inr ht, hm, rfl⟩

theorem has_blockOf_iff (base : Int) (t : Tile) (p : Nat) :
    MemoryBlock.Has (blockOf base t) (base + p) ↔ t.Has p := by
  unfold MemoryBlock.Has blockOf addrOf Tile.Has start
  dsimp only
  have hpos := Nat.two_pow_pos t.order
  rw [Nat.div_eq_iff hpos]
  omega

theorem PoolInv.partition (h : PoolInv m K pool) : Partition pool := by
  refine ⟨fun s a blocks b hlist hget => ?_, fun a b hget => ?_, fun b hb => ?_, fun b hb => ?_,
    fun b hb => ?_, fun x hlow hhigh => ?_, fun b hfree hallocated => ?_⟩
  · obtain ⟨t, rfl, rfl, rfl⟩ := h.lists.blocks _ _ _ _ hlist hget
    exact ⟨rfl, rfl⟩
  · obtain ⟨t, -, rfl, rfl⟩ := h.allocated _ _ hget
    rfl
  · obtain ⟨t, ht, hm, rfl⟩ := h.block hb
    rw [h.minSize, h.maxSize]
    exact ⟨⟨t.order, rfl⟩, Nat.pow_le_pow_right (by omega) hm,
      Nat.pow_le_pow_right (by omega) (h.tiling.inside t ht).1⟩
  · obtain ⟨t, ht, -, rfl⟩ := h.block hb
    refine ⟨t.index, ?_⟩
    unfold blockOf addrOf start
    push_cast
    ring
  · obtain ⟨t, ht, -, rfl⟩ := h.block hb
    have hstop := h.tiling.stop_le ht
    rw [h.maxSize]
    unfold blockOf addrOf
    dsimp only
    omega
  · rw [h.maxSize] at hhigh
    obtain ⟨p, rfl⟩ : ∃ p : Nat, x = pool.baseAddress + p := ⟨(x - pool.baseAddress).toNat, by omega⟩
    obtain ⟨t, ht, hp⟩ := h.tiling.cover p (by omega)
    refine ⟨blockOf pool.baseAddress t, ⟨?_, (has_blockOf_iff _ t p).mpr hp⟩, ?_⟩
    · rcases ht with ht | ht
      · exact .inl (h.freeBlock_iff.mpr ⟨t, ht, rfl⟩)
      · exact .inr ⟨_, ht⟩
    · rintro c ⟨hc, hcp⟩
      obtain ⟨u, hu, -, rfl⟩ := h.block hc
      rw [h.tiling.unique p u t hu ht ((has_blockOf_iff _ u p).mp hcp) hp]
  · obtain ⟨t, ht, rfl⟩ := h.freeBlock_iff.mp hfree
    obtain ⟨u, hu, -, heq⟩ := h.allocatedBlock_iff.mp hallocated
    exact h.disjoint t ht (blockOf_inj heq ▸ hu)

/-- With few enough sizes, no two free blocks are buddies. -/
theorem PoolInv.no_buddies (h : PoolInv m K pool) (hdepth : K ≤ m + MAX_MERGE_DEPTH)
    {b c : MemoryBlock} (hb : FreeBlock pool b) (hc : FreeBlock pool c) :
    ¬ AreBuddies pool.baseAddress b c := by
  rintro ⟨hsize, haddr, hoffset⟩
  obtain ⟨t, ht, rfl⟩ := h.freeBlock_iff.mp hb
  obtain ⟨u, hu, rfl⟩ := h.freeBlock_iff.mp hc
  have horder : t.order = u.order := two_pow_inj hsize
  have heven : t.index % 2 = 0 := by
    refine (offset_emod pool.baseAddress t).mp (Int.emod_eq_zero_of_dvd ?_)
    exact_mod_cast hoffset
  have hindex : u = t.sibling := by
    refine addrOf_inj horder.symm (haddr.trans ?_)
    rw [← addrOf_sibling, if_pos]
    exact (offset_emod pool.baseAddress t).mpr heven
  rcases t.halves with ⟨hlow, hhigh⟩ | ⟨hhigh, hlow⟩
  · refine h.noBuddies hdepth t.order (t.index / 2) ⟨?_, ?_⟩
    · rw [← hlow]
      exact ht
    · rw [← hhigh, ← hindex]
      exact hu
  · refine h.noBuddies hdepth t.order (t.index / 2) ⟨?_, ?_⟩
    · rw [← hlow, ← hindex]
      exact hu
    · rw [← hhigh]
      exact ht

/-- With few enough sizes, the pool is one free block when nothing is allocated. -/
theorem PoolInv.one_block (h : PoolInv m K pool) (hdepth : K ≤ m + MAX_MERGE_DEPTH)
    (hnone : pool.allocatedBlocks.size = 0) (b : MemoryBlock) :
    FreeBlock pool b ↔ b = ⟨pool.maxBlockSize, pool.baseAddress⟩ := by
  have hempty : allocatedTiles pool.baseAddress pool.allocatedBlocks = ∅ := by
    refine Set.eq_empty_iff_forall_notMem.mpr fun t ht => ?_
    have hmem := mem_keys_of_get? ht
    rw [size_eq_length_keys, List.length_eq_zero_iff] at hnone
    rw [hnone] at hmem
    exact List.not_mem_nil hmem
  have hsingle : freeTiles pool.baseAddress pool.freeLists = {⟨K, 0⟩} := by
    have htiling := h.tiling
    rw [hempty, Set.union_empty] at htiling
    exact htiling.eq_single (h.noBuddies hdepth)
  have hblock : blockOf pool.baseAddress ⟨K, 0⟩ = ⟨pool.maxBlockSize, pool.baseAddress⟩ := by
    rw [h.maxSize]
    unfold blockOf addrOf start
    dsimp only
    rw [Nat.zero_mul, Nat.cast_zero, add_zero]
  rw [h.freeBlock_iff, hsingle, ← hblock]
  constructor
  · rintro ⟨t, rfl, rfl⟩
    rfl
  · rintro rfl
    exact ⟨_, rfl, rfl⟩

end Laws

/-- A call keeps the invariant. -/
theorem poolInv_step {pool pool' : TensorMemoryPool} {op : TensorMemoryPool.Op}
    (h : PoolInv m K pool) (hstep : pool.step op = .ok pool') : PoolInv m K pool' := by
  cases op with
  | allocate size =>
    by_cases hsize : 0 < size
    · rcases allocate_spec h hsize with ⟨t, pool₁, hrun, hpool1, -⟩ | ⟨msg, hrun, -⟩
      · unfold step at hstep
        dsimp only at hstep
        rw [hrun] at hstep
        cases hstep
        exact hpool1
      · unfold step at hstep
        dsimp only at hstep
        rw [hrun] at hstep
        cases hstep
    · unfold step allocate at hstep
      dsimp only at hstep
      rw [if_pos (not_lt.mp hsize)] at hstep
      cases hstep
  | free addr =>
    unfold step at hstep
    dsimp only at hstep
    by_cases haddr : pool.allocatedBlocks.contains addr = true
    · obtain ⟨pool₁, hrun, hpool1, -⟩ := free_spec h haddr
      rw [hrun] at hstep
      cases hstep
      exact hpool1
    · have hnone : pool.allocatedBlocks.get? addr = none := by
        unfold contains at haddr
        rw [Bool.not_eq_true, Option.isSome_eq_false_iff, Option.isNone_iff_eq_none] at haddr
        exact haddr
      unfold free at hstep
      rw [hnone] at hstep
      cases hstep

/-- The laws of the pool in every state that calls reach. Free and allocated blocks partition
the memory. A block that is handed out is large enough and was not allocated, and none is
handed out only when no free block is large enough. Every allocated block can be freed. With at
most `MAX_MERGE_DEPTH` halvings between the two sizes, no two free blocks are buddies, and the
pool is one block when all is freed. -/
theorem pool_laws {maxBlockSize minBlockSize base : Int} {pool₀ pool : TensorMemoryPool}
    (hnew : new maxBlockSize minBlockSize base = .ok pool₀)
    (hrun : Run step (fun _ _ => True) pool₀ pool) :
    Partition pool ∧
    (∀ size : Int, 0 < size →
      (∃ b pool', pool.allocate size = .ok (b.addr, pool') ∧ size ≤ b.size ∧
        pool.allocatedBlocks.contains b.addr = false ∧
        pool'.allocatedBlocks = pool.allocatedBlocks.insert b.addr b) ∨
      (∃ msg, pool.allocate size = .error (.valueError msg) ∧
        ∀ b, FreeBlock pool b → (b.size : Int) < size)) ∧
    (∀ addr, pool.allocatedBlocks.contains addr = true → ∃ pool', pool.free addr = .ok pool' ∧
      pool'.allocatedBlocks = pool.allocatedBlocks.erase addr) ∧
    (pool.maxBlockSize ≤ pool.minBlockSize * 2 ^ MAX_MERGE_DEPTH →
      (∀ b c, FreeBlock pool b → FreeBlock pool c → ¬ AreBuddies pool.baseAddress b c) ∧
      (pool.allocatedBlocks.size = 0 →
        ∀ b, FreeBlock pool b ↔ b = ⟨pool.maxBlockSize, pool.baseAddress⟩)) := by
  obtain ⟨m, K, hstart, -⟩ := new_spec hnew
  have h : PoolInv m K pool := hrun.invariant (PoolInv m K) hstart
    fun _ _ _ hs _ hstep => poolInv_step hs hstep
  refine ⟨h.partition, fun size hsize => ?_, fun addr haddr => ?_, fun hratio => ?_⟩
  · rcases allocate_spec h hsize with ⟨t, pool', hrun, -, hallocated, hfresh, hle⟩ | ⟨msg, hrun, hnone⟩
    · exact .inl ⟨blockOf pool.baseAddress t, pool', hrun, hle, hfresh, hallocated⟩
    · refine .inr ⟨msg, hrun, fun b hb => ?_⟩
      obtain ⟨t, ht, rfl⟩ := h.freeBlock_iff.mp hb
      exact hnone t ht
  · obtain ⟨pool', hrun, -, hallocated⟩ := free_spec h haddr
    exact ⟨pool', hrun, hallocated⟩
  · have hdepth : K ≤ m + MAX_MERGE_DEPTH := by
      rw [h.maxSize, h.minSize, ← Nat.pow_add] at hratio
      exact (Nat.pow_le_pow_iff_right (by omega)).mp hratio
    exact ⟨fun b c => h.no_buddies hdepth, h.one_block hdepth⟩

/-- Four blocks of one unit are split off, and the first two are freed. -/
theorem pool_laws_small : ∃ pool₀ pool, new 8 1 0 = .ok pool₀ ∧
      Run step (fun _ _ => True) pool₀ pool ∧
      (pool.allocatedBlocks.size = 2 ∧ pool.maxBlockSize ≤ pool.minBlockSize * 2 ^ MAX_MERGE_DEPTH) ∧
      Partition pool ∧
      ∀ b c, FreeBlock pool b → FreeBlock pool c → ¬ AreBuddies pool.baseAddress b c := by
  obtain ⟨pool₀, pool, hnew, hrun, hstate⟩ := exists_run_of_check step
    (fun _ _ => True) (fun pool => pool.allocatedBlocks.size = 2 ∧
      pool.maxBlockSize ≤ pool.minBlockSize * 2 ^ MAX_MERGE_DEPTH)
    (new 8 1 0)
    [.allocate 1, .allocate 1, .allocate 1, .allocate 1, .free 0, .free 1] (by decide +kernel)
  have hlaws := pool_laws hnew hrun
  exact ⟨pool₀, pool, hnew, hrun, hstate, hlaws.1, (hlaws.2.2.2 hstate.2).1⟩

/-- In a pool of 1024 GiB with the default smallest size, the first block of 512 bytes is freed
again. The rounds of the merge are used up at half of the memory, and the two halves stay. -/
theorem merge_depth_reached : ∃ pool₀ pool, new (2 ^ 40) 512 0 = .ok pool₀ ∧
      Run step (fun _ _ => True) pool₀ pool ∧
      pool.allocatedBlocks.size = 0 ∧
      ∃ b c, FreeBlock pool b ∧ FreeBlock pool c ∧ AreBuddies pool.baseAddress b c := by
  obtain ⟨pool₀, pool, hnew, hrun, hsize, hlist, hbase⟩ :=
    exists_run_of_check step (fun _ _ => True) (fun pool => pool.allocatedBlocks.size = 0 ∧
        ((pool.freeLists.get? (2 ^ 39)).map entries =
          some [(2 ^ 39, ⟨2 ^ 39, 2 ^ 39⟩), (0, ⟨2 ^ 39, 0⟩)]) ∧ pool.baseAddress = 0)
      (new (2 ^ 40) 512 0) [.allocate 512, .free 0] (by decide +kernel)
  obtain ⟨blocks, hget, hentries⟩ := Option.map_eq_some_iff.mp hlist
  refine ⟨pool₀, pool, hnew, hrun, hsize, ⟨2 ^ 39, 0⟩, ⟨2 ^ 39, 2 ^ 39⟩,
    ⟨2 ^ 39, 0, blocks, hget, ?_⟩, ⟨2 ^ 39, 2 ^ 39, blocks, hget, ?_⟩, ?_⟩
  · rw [← mem_entries_iff, hentries]
    simp
  · rw [← mem_entries_iff, hentries]
    simp
  · rw [hbase]
    exact ⟨rfl, by norm_num, by norm_num⟩

end Vllm.Proofs.Distributed
