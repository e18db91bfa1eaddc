import Mathlib.Data.Set.Insert
import Mathlib.Order.Lattice.Nat
import Mathlib.Tactic.Ring

/-!
# `Vllm.Lib.Buddy`: tilings by halves of halves

A buddy allocator divides a region of `2 ^ size` units into tiles. A tile of order `k` has
`2 ^ k` units and starts at a multiple of its length: the one with index `i` has the points `p`
with `p / 2 ^ k = i`. Two tiles of one order whose indices are `2 * i` and `2 * i + 1` are
buddies, and are the halves of the tile `i` of the next order.

* `Tiling.split`, `Tiling.merge`: a tile is replaced by its halves, and the halves by it.
* `Tiling.eq_single`: a tiling without buddies is one tile.
-/

set_option autoImplicit false

namespace Vllm.Lib.Buddy

/-- The tile with an order and an index. -/
structure Tile where
  order : Nat
  index : Nat
deriving DecidableEq

namespace Tile

/-- The point is in the tile. -/
def Has (t : Tile) (p : Nat) : Prop := p / 2 ^ t.order = t.index

/-- The first point. -/
def start (t : Tile) : Nat := t.index * 2 ^ t.order

/-- The half with the lower points. -/
def low (k i : Nat) : Tile := ⟨k, 2 * i⟩

/-- The half with the higher points. -/
def high (k i : Nat) : Tile := ⟨k, 2 * i + 1⟩

theorem has_start (t : Tile) : t.Has t.start :=
  Nat.mul_div_cancel _ (Nat.two_pow_pos _)

/-- A tile has the points of its halves. -/
theorem has_succ (k i p : Nat) :
    (⟨k + 1, i⟩ : Tile).Has p ↔ (low k i).Has p ∨ (high k i).Has p := by
  unfold Has low high
  dsimp only
  rw [Nat.pow_succ, ← Nat.div_div_eq_div_mul]
  omega

/-- The points of a tile are in the same tile of a higher order. -/
theorem Has.of_le {t u : Tile} {p q : Nat} (hp : t.Has p) (hq : t.Has q)
    (hle : t.order ≤ u.order) (hup : u.Has p) : u.Has q := by
  obtain ⟨d, hd⟩ := Nat.exists_eq_add_of_le hle
  unfold Has at hp hq hup ⊢
  rw [hd, Nat.pow_add, ← Nat.div_div_eq_div_mul] at hup ⊢
  rw [hq, ← hp]
  exact hup

/-- A tile has the start of one other tile of its order: its own. -/
theorem eq_of_has_start {t u : Tile} (horder : t.order = u.order) (h : t.Has u.start) : t = u := by
  obtain ⟨k, i⟩ := t
  obtain ⟨k', j⟩ := u
  obtain rfl : k = k' := horder
  have hj : j * 2 ^ k / 2 ^ k = i := h
  rw [Nat.mul_div_cancel _ (Nat.two_pow_pos _)] at hj
  rw [hj]

/-- The buddy of a tile. -/
def sibling (t : Tile) : Tile := ⟨t.order, if t.index % 2 = 0 then t.index + 1 else t.index - 1⟩

/-- The tile that a tile and its buddy are the halves of. -/
def parent (t : Tile) : Tile := ⟨t.order + 1, t.index / 2⟩

theorem halves (t : Tile) :
    (t = low t.order (t.index / 2) ∧ t.sibling = high t.order (t.index / 2)) ∨
    (t = high t.order (t.index / 2) ∧ t.sibling = low t.order (t.index / 2)) := by
  obtain ⟨k, i⟩ := t
  unfold sibling low high
  dsimp only
  by_cases hi : i % 2 = 0
  · left
    rw [if_pos hi]
    exact ⟨by congr 1; omega, by congr 1; omega⟩
  · right
    rw [if_neg hi]
    exact ⟨by congr 1; omega, by congr 1; omega⟩

end Tile

variable {size : Nat} {T S : Set Tile} {t u : Tile} {k i p : Nat}

/-- The tiles are inside the region, and each of its points is in one of them. -/
structure Tiling (size : Nat) (T : Set Tile) : Prop where
  inside : ∀ t ∈ T, t.order ≤ size ∧ t.index < 2 ^ (size - t.order)
  cover : ∀ p < 2 ^ size, ∃ t ∈ T, t.Has p
  unique : ∀ p t u, t ∈ T → u ∈ T → t.Has p → u.Has p → t = u

/-- No two of the tiles are buddies. -/
def NoBuddies (F : Set Tile) : Prop := ∀ k i, ¬ (Tile.low k i ∈ F ∧ Tile.high k i ∈ F)

theorem NoBuddies.mono {F G : Set Tile} (h : NoBuddies F) (hsub : G ⊆ F) : NoBuddies G :=
  fun k i hboth => h k i ⟨hsub hboth.1, hsub hboth.2⟩

/-- A tile whose buddy is not there adds no buddies. -/
theorem NoBuddies.insert {F : Set Tile} (h : NoBuddies F) (hsibling : t.sibling ∉ F) :
    NoBuddies (insert t F) := by
  rintro k i ⟨hlow | hlow, hhigh | hhigh⟩
  · have := congrArg Tile.index (hlow.trans hhigh.symm)
    dsimp only [Tile.low, Tile.high] at this
    omega
  · refine hsibling ?_
    have hs : t.sibling = Tile.high k i := by
      rw [← hlow]
      unfold Tile.sibling Tile.low Tile.high
      dsimp only
      rw [if_pos (by omega)]
    rw [hs]
    exact hhigh
  · refine hsibling ?_
    have hs : t.sibling = Tile.low k i := by
      rw [← hhigh]
      unfold Tile.sibling Tile.low Tile.high
      dsimp only
      rw [if_neg (by omega), Nat.add_sub_cancel]
    rw [hs]
    exact hlow
  · exact h k i ⟨hlow, hhigh⟩

/-- The whole region as one tile. -/
theorem tiling_single (size : Nat) : Tiling size {⟨size, 0⟩} := by
  refine ⟨?_, fun p hp => ⟨_, rfl, Nat.div_eq_of_lt hp⟩, ?_⟩
  · rintro t rfl
    exact ⟨le_rfl, Nat.two_pow_pos _⟩
  · rintro p t u rfl rfl - -
    rfl

namespace Tiling

/-- The end of a tile of the tiling. -/
theorem stop_le (h : Tiling size T) (ht : t ∈ T) : t.start + 2 ^ t.order ≤ 2 ^ size := by
  obtain ⟨horder, hindex⟩ := h.inside t ht
  unfold Tile.start
  calc t.index * 2 ^ t.order + 2 ^ t.order = (t.index + 1) * 2 ^ t.order := by ring
    _ ≤ 2 ^ (size - t.order) * 2 ^ t.order := Nat.mul_le_mul_right _ hindex
    _ = 2 ^ size := by rw [← Nat.pow_add, Nat.sub_add_cancel horder]

/-- Two tiles with a common point are one. -/
theorem eq_of_start (h : Tiling size T) (ht : t ∈ T) (hu : u ∈ T) (hstart : t.start = u.start) :
    t = u :=
  h.unique t.start t u ht hu t.has_start (hstart ▸ u.has_start)

/-- The halves of a tile take its place. -/
theorem split (h : Tiling size (insert ⟨k + 1, i⟩ S)) (hnot : (⟨k + 1, i⟩ : Tile) ∉ S) :
    Tiling size (insert (Tile.low k i) (insert (Tile.high k i) S)) := by
  obtain ⟨horder, hindex⟩ := h.inside _ (.inl rfl)
  dsimp only at horder hindex
  have hhalf : 2 ^ (size - k) = 2 * 2 ^ (size - (k + 1)) := by
    rw [← Nat.pow_succ']
    congr 1
    omega
  -- The points of the halves are in no other tile.
  have hout : ∀ p u, u ∈ S → u.Has p → (Tile.low k i).Has p ∨ (Tile.high k i).Has p → False := by
    intro p u hu hp hhalf
    have heq := h.unique p u ⟨k + 1, i⟩ (.inr hu) (.inl rfl) hp ((Tile.has_succ k i p).mpr hhalf)
    exact hnot (heq ▸ hu)
  have hhalves : ∀ p, (Tile.low k i).Has p → ¬ (Tile.high k i).Has p := by
    intro p hlow hhigh
    unfold Tile.Has Tile.low Tile.high at *
    dsimp only at hlow hhigh
    omega
  refine ⟨?_, fun p hp => ?_, ?_⟩
  · rintro t (rfl | rfl | ht)
    · exact ⟨by dsimp only [Tile.low]; omega, by dsimp only [Tile.low]; omega⟩
    · exact ⟨by dsimp only [Tile.high]; omega, by dsimp only [Tile.high]; omega⟩
    · exact h.inside t (.inr ht)
  · obtain ⟨t, rfl | ht, hpt⟩ := h.cover p hp
    · rcases (Tile.has_succ k i p).mp hpt with hlow | hhigh
      · exact ⟨_, .inl rfl, hlow⟩
      · exact ⟨_, .inr (.inl rfl), hhigh⟩
    · exact ⟨t, .inr (.inr ht), hpt⟩
  · rintro p t u (rfl | rfl | ht) (rfl | rfl | hu) hpt hpu
    · rfl
    · exact (hhalves p hpt hpu).elim
    · exact (hout p u hu hpu (.inl hpt)).elim
    · exact (hhalves p hpu hpt).elim
    · rfl
    · exact (hout p u hu hpu (.inr hpt)).elim
    · exact (hout p t ht hpt (.inl hpu)).elim
    · exact (hout p t ht hpt (.inr hpu)).elim
    · exact h.unique p t u (.inr ht) (.inr hu) hpt hpu

/-- A tile takes the place of its halves. -/
theorem merge (h : Tiling size (insert (Tile.low k i) (insert (Tile.high k i) S)))
    (hlow : Tile.low k i ∉ S) (hhigh : Tile.high k i ∉ S) :
    Tiling size (insert ⟨k + 1, i⟩ S) := by
  obtain ⟨horder, hindex⟩ := h.inside (Tile.high k i) (.inr (.inl rfl))
  dsimp only [Tile.high] at horder hindex
  -- The higher half is inside, so the order is not that of the whole region.
  have hlt : k < size := by
    by_contra hnot
    rw [show size - k = 0 by omega] at hindex
    omega
  have hhalf : 2 ^ (size - k) = 2 * 2 ^ (size - (k + 1)) := by
    rw [← Nat.pow_succ']
    congr 1
    omega
  have hout : ∀ p u, u ∈ S → u.Has p → (⟨k + 1, i⟩ : Tile).Has p → False := by
    intro p u hu hp hwhole
    rcases (Tile.has_succ k i p).mp hwhole with hl | hr
    · have heq := h.unique p u _ (.inr (.inr hu)) (.inl rfl) hp hl
      exact hlow (heq ▸ hu)
    · have heq := h.unique p u _ (.inr (.inr hu)) (.inr (.inl rfl)) hp hr
      exact hhigh (heq ▸ hu)
  refine ⟨?_, fun p hp => ?_, ?_⟩
  · rintro t (rfl | ht)
    · exact ⟨hlt, by dsimp only; omega⟩
    · exact h.inside t (.inr (.inr ht))
  · obtain ⟨t, rfl | rfl | ht, hpt⟩ := h.cover p hp
    · exact ⟨_, .inl rfl, (Tile.has_succ k i p).mpr (.inl hpt)⟩
    · exact ⟨_, .inl rfl, (Tile.has_succ k i p).mpr (.inr hpt)⟩
    · exact ⟨t, .inr ht, hpt⟩
  · rintro p t u (rfl | ht) (rfl | hu) hpt hpu
    · rfl
    · exact (hout p u hu hpu hpt).elim
    · exact (hout p t ht hpt hpu).elim
    · exact h.unique p t u (.inr (.inr ht)) (.inr (.inr hu)) hpt hpu

/-- The halves of a tile are not in the tiling. -/
theorem half_not_mem (h : Tiling size (insert ⟨k + 1, i⟩ S)) :
    Tile.low k i ∉ S ∧ Tile.high k i ∉ S := by
  have hne : ∀ t : Tile, t.order = k → t ≠ ⟨k + 1, i⟩ := by
    rintro t ht rfl
    dsimp only at ht
    omega
  constructor
  · intro hmem
    refine hne (Tile.low k i) rfl (h.unique (Tile.low k i).start _ _ (.inr hmem) (.inl rfl) ?_ ?_)
    · exact Tile.has_start _
    · exact (Tile.has_succ k i _).mpr (.inl (Tile.has_start _))
  · intro hmem
    refine hne (Tile.high k i) rfl (h.unique (Tile.high k i).start _ _ (.inr hmem) (.inl rfl) ?_ ?_)
    · exact Tile.has_start _
    · exact (Tile.has_succ k i _).mpr (.inr (Tile.has_start _))

/-- A tile and its buddy are merged. -/
theorem merge_sibling (h : Tiling size (insert t (insert t.sibling S))) (ht : t ∉ S)
    (hs : t.sibling ∉ S) : Tiling size (insert t.parent S) := by
  have hmerge := @Tiling.merge size S t.order (t.index / 2)
  rcases t.halves with ⟨hlow, hhigh⟩ | ⟨hhigh, hlow⟩
  · rw [← hhigh, ← hlow] at hmerge
    exact hmerge h ht hs
  · rw [← hlow, ← hhigh, Set.insert_comm] at hmerge
    exact hmerge h hs ht

/-- The buddy of the whole region is outside. -/
theorem sibling_not_mem (h : Tiling size T) (ht : t ∈ T) (horder : t.order = size) :
    t.sibling ∉ T := by
  intro hmem
  have hindex := (h.inside t ht).2
  have hsibling := (h.inside t.sibling hmem).2
  rw [horder, Nat.sub_self, Nat.pow_zero, Nat.lt_one_iff] at hindex
  unfold Tile.sibling at hsibling
  dsimp only at hsibling
  rw [horder, Nat.sub_self, hindex] at hsibling
  simp at hsibling

/-- With a tile of the lowest order, the tiling has both halves of the tile it is a half of. -/
theorem buddies_of_lowest (h : Tiling size T) (ht : t ∈ T) (hmin : ∀ u ∈ T, t.order ≤ u.order)
    (hlt : t.order < size) {b : Tile} (hb : b = Tile.low t.order (t.index / 2) ∨
      b = Tile.high t.order (t.index / 2)) : b ∈ T := by
  obtain ⟨horder, hindex⟩ := h.inside t ht
  have hhalf : 2 ^ (size - t.order) = 2 * 2 ^ (size - (t.order + 1)) := by
    rw [← Nat.pow_succ']
    congr 1
    omega
  have hborder : b.order = t.order := by
    rcases hb with rfl | rfl <;> rfl
  have hbindex : b.index < 2 ^ (size - t.order) := by
    rcases hb with rfl | rfl <;> simp only [Tile.low, Tile.high] <;> omega
  have hstart : b.start < 2 ^ size := by
    unfold Tile.start
    rw [hborder]
    calc b.index * 2 ^ t.order < 2 ^ (size - t.order) * 2 ^ t.order :=
          Nat.mul_lt_mul_of_pos_right hbindex (Nat.two_pow_pos _)
      _ = 2 ^ size := by rw [← Nat.pow_add, Nat.sub_add_cancel horder]
  obtain ⟨u, hu, hup⟩ := h.cover b.start hstart
  rcases Nat.lt_or_eq_of_le (hmin u hu) with hlong | heq
  · -- A longer tile would have the points of both halves, so those of `t`.
    exfalso
    have hwhole : ∀ c, c = Tile.low t.order (t.index / 2) ∨ c = Tile.high t.order (t.index / 2) →
        (⟨t.order + 1, t.index / 2⟩ : Tile).Has c.start := by
      rintro c (rfl | rfl)
      · exact (Tile.has_succ _ _ _).mpr (.inl (Tile.has_start _))
      · exact (Tile.has_succ _ _ _).mpr (.inr (Tile.has_start _))
    have hut : u.Has t.start :=
      (hwhole b hb).of_le (hwhole t (t.halves.imp And.left And.left)) hlong hup
    rw [h.unique t.start u t hu ht hut t.has_start] at hlong
    exact absurd hlong (lt_irrefl _)
  · have hub : u = b := Tile.eq_of_has_start (heq.symm.trans hborder.symm) hup
    exact hub ▸ hu

/-- A tiling without buddies is one tile. -/
theorem eq_single (h : Tiling size T) (hno : NoBuddies T) : T = {⟨size, 0⟩} := by
  obtain ⟨t, ht, hmin⟩ : ∃ t ∈ T, ∀ u ∈ T, t.order ≤ u.order := by
    obtain ⟨t0, ht0, -⟩ := h.cover 0 (Nat.two_pow_pos _)
    have hne : (Tile.order '' T).Nonempty := ⟨_, t0, ht0, rfl⟩
    obtain ⟨t, ht, hinf⟩ := Nat.sInf_mem hne
    exact ⟨t, ht, fun u hu => hinf ▸ Nat.sInf_le ⟨u, hu, rfl⟩⟩
  obtain ⟨horder, hindex⟩ := h.inside t ht
  rcases Nat.lt_or_eq_of_le horder with hlt | hwhole
  · exact absurd ⟨h.buddies_of_lowest ht hmin hlt (.inl rfl),
      h.buddies_of_lowest ht hmin hlt (.inr rfl)⟩ (hno t.order (t.index / 2))
  · rw [hwhole, Nat.sub_self, Nat.pow_zero, Nat.lt_one_iff] at hindex
    obtain rfl : t = ⟨size, 0⟩ := by
      obtain ⟨o, i⟩ := t
      dsimp only at hwhole hindex
      rw [hwhole, hindex]
    refine Set.eq_singleton_iff_unique_mem.mpr ⟨ht, fun u hu => ?_⟩
    have hstop := h.stop_le hu
    have hpos := Nat.two_pow_pos u.order
    have hinside : u.start < 2 ^ size := by omega
    exact h.unique u.start u _ hu ht u.has_start (Nat.div_eq_of_lt hinside)

end Tiling

end Vllm.Lib.Buddy
