import Mathlib.Data.Nat.Count

/-!
# `Vllm.Lib.Interleave`: positions dealt out to parties in runs

The positions `0, 1, 2, …` are cut into runs of `I` and dealt to `N` parties in turn: party 0
gets the first run, party 1 the second, and after party `N - 1` it is the turn of party 0 again.

* `owner`, `localIndex`: the party of a position, and the place of the position among those of
  its party.
* `count_owner`: how many of the first `L` positions a party gets.
* `localIndex_eq_count`: the place of a position is the number of earlier positions of its party,
  so the places of a party are used in order and without gaps.
* `count_in_block`, `count_whole_block`: the same inside each block of a number of rounds.
-/

set_option autoImplicit false

namespace Vllm.Lib.Interleave

/-- The party of a position. -/
def owner (I N p : Nat) : Nat := p / I % N

/-- The place of a position among those of its party. -/
def localIndex (I N p : Nat) : Nat := p / (N * I) * I + p % I

/-- The number of positions below `L` of the party `r`. -/
def localLength (I N r L : Nat) : Nat := L / (N * I) * I + min (L % (N * I) - r * I) I

variable {I N : Nat}

/-! ### A position in its round, its turn and its run -/

section Digits
variable {q s t : Nat}

/-- The position in round `q`, turn `s`, at place `t` of the run. -/
def position (I N q s t : Nat) : Nat := (q * N + s) * I + t

theorem position_digits (hI : 0 < I) (hN : 0 < N) (p : Nat) :
    ∃ q s t, s < N ∧ t < I ∧ p = position I N q s t := by
  refine ⟨p / I / N, p / I % N, p % I, Nat.mod_lt _ hN, Nat.mod_lt _ hI, ?_⟩
  unfold position
  rw [Nat.div_add_mod', Nat.div_add_mod']

theorem owner_position (hs : s < N) (ht : t < I) : owner I N (position I N q s t) = s := by
  unfold owner position
  rw [Nat.mul_comm _ I, Nat.mul_add_div (by omega), Nat.div_eq_of_lt ht, Nat.add_zero,
    Nat.mul_comm q N, Nat.mul_add_mod, Nat.mod_eq_of_lt hs]

theorem turn_lt (hs : s < N) (ht : t < I) : s * I + t < N * I := by
  have hle : (s + 1) * I ≤ N * I := Nat.mul_le_mul_right I hs
  rw [Nat.add_mul, Nat.one_mul] at hle
  omega

theorem position_eq : position I N q s t = N * I * q + (s * I + t) := by
  unfold position
  rw [Nat.add_mul, Nat.mul_assoc, Nat.mul_comm q, Nat.add_assoc]

theorem position_div (hs : s < N) (ht : t < I) : position I N q s t / (N * I) = q := by
  have hlt := turn_lt hs ht
  rw [position_eq, Nat.mul_add_div (by omega), Nat.div_eq_of_lt hlt, Nat.add_zero]

theorem position_mod (hs : s < N) (ht : t < I) :
    position I N q s t % (N * I) = s * I + t := by
  rw [position_eq, Nat.mul_add_mod, Nat.mod_eq_of_lt (turn_lt hs ht)]

theorem localIndex_position (hs : s < N) (ht : t < I) :
    localIndex I N (position I N q s t) = q * I + t := by
  unfold localIndex
  rw [position_div hs ht]
  unfold position
  rw [Nat.mul_add_mod', Nat.mod_eq_of_lt ht]

theorem localLength_position (hs : s < N) (ht : t < I) (r : Nat) :
    localLength I N r (position I N q s t) =
      q * I + if s < r then 0 else if s = r then t else I := by
  unfold localLength
  rw [position_div hs ht, position_mod hs ht]
  congr 1
  split
  · rename_i hlt
    have hle : (s + 1) * I ≤ r * I := Nat.mul_le_mul_right I hlt
    rw [Nat.add_mul, Nat.one_mul] at hle
    omega
  · split
    · rename_i heq
      rw [heq, Nat.add_sub_cancel_left]
      omega
    · rename_i hle hne
      have hlt : (r + 1) * I ≤ s * I := Nat.mul_le_mul_right I (by omega)
      rw [Nat.add_mul, Nat.one_mul] at hlt
      omega

end Digits

/-! ### Counting the positions of a party -/

theorem localLength_succ (hI : 0 < I) (hN : 0 < N) {r : Nat} (hr : r < N) (L : Nat) :
    localLength I N r (L + 1) = localLength I N r L + if owner I N L = r then 1 else 0 := by
  obtain ⟨q, s, t, hs, ht, rfl⟩ := position_digits hI hN L
  rw [owner_position hs ht, localLength_position hs ht]
  -- The next position is in the same run, in the next run, or in the next round.
  by_cases ht' : t + 1 < I
  · rw [show position I N q s t + 1 = position I N q s (t + 1) from rfl,
      localLength_position hs ht']
    grind
  · by_cases hs' : s + 1 < N
    · have hnext : position I N q s t + 1 = position I N q (s + 1) 0 := by
        rw [position_eq, position_eq, Nat.add_mul s 1]
        omega
      rw [hnext, localLength_position hs' hI]
      grind
    · have hnext : position I N q s t + 1 = position I N (q + 1) 0 0 := by
        have hsN : s + 1 = N := by omega
        rw [position_eq, position_eq, Nat.mul_add, ← hsN, Nat.add_mul s 1]
        omega
      rw [hnext, localLength_position hN hI, Nat.add_mul]
      grind

/-- A party gets `localLength` of the first `L` positions. -/
theorem count_owner (hI : 0 < I) (hN : 0 < N) {r : Nat} (hr : r < N) (L : Nat) :
    Nat.count (fun p => owner I N p = r) L = localLength I N r L := by
  induction L with
  | zero => simp [localLength]
  | succ L ih => rw [Nat.count_succ, ih, localLength_succ hI hN hr]

/-- The place of a position is the number of earlier positions of its party. -/
theorem localIndex_eq_count (hI : 0 < I) (hN : 0 < N) (p : Nat) :
    localIndex I N p = Nat.count (fun p' => owner I N p' = owner I N p) p := by
  obtain ⟨q, s, t, hs, ht, rfl⟩ := position_digits hI hN p
  rw [localIndex_position hs ht, owner_position hs ht, count_owner hI hN hs,
    localLength_position hs ht]
  simp

/-! ### A number of whole rounds -/

section Rounds
variable {k p : Nat}

/-- Whole rounds do not change the party. -/
theorem owner_mod_rounds : owner I N (p % (N * I * k)) = owner I N p := by
  unfold owner
  rw [Nat.mul_comm N I, Nat.mul_assoc, Nat.mod_mul_right_div_self, Nat.mod_mul_right_mod]

/-- The places of `k` rounds are those below `I * k`. -/
theorem localIndex_lt (hI : 0 < I) (hN : 0 < N) (hp : p < N * I * k) :
    localIndex I N p < I * k := by
  obtain ⟨q, s, t, hs, ht, rfl⟩ := position_digits hI hN p
  rw [localIndex_position hs ht]
  have hq : q < k := by
    rw [← position_div (q := q) hs ht]
    exact Nat.div_lt_of_lt_mul hp
  have hle : (q + 1) * I ≤ k * I := Nat.mul_le_mul_right I hq
  rw [Nat.add_mul, Nat.one_mul, Nat.mul_comm k] at hle
  omega

/-- Each party gets `I * k` positions in `k` rounds. -/
theorem localLength_rounds (hI : 0 < I) (hN : 0 < N) (r : Nat) :
    localLength I N r (N * I * k) = I * k := by
  unfold localLength
  rw [Nat.mul_div_cancel_left _ (Nat.mul_pos hN hI), Nat.mul_mod_right, Nat.zero_sub,
    Nat.zero_min, Nat.add_zero, Nat.mul_comm]

/-- Among the positions of the `b`-th block of `k` rounds, each party counts from the start. -/
theorem count_in_block (hI : 0 < I) (hN : 0 < N) (hk : 0 < k) {r : Nat} (hr : r < N) {b v : Nat}
    (hv : v ≤ N * I * k) :
    Nat.count (fun q => owner I N q = r ∧ q / (N * I * k) = b) (N * I * k * b + v) =
      localLength I N r v := by
  have hpos : 0 < N * I * k := Nat.mul_pos (Nat.mul_pos hN hI) hk
  have hbefore : Nat.count (fun q => owner I N q = r ∧ q / (N * I * k) = b) (N * I * k * b) = 0 := by
    refine Nat.count_of_forall_not fun q hq hq' => ?_
    have hlt := Nat.div_lt_of_lt_mul hq
    omega
  have hin : ∀ u < v, (owner I N (N * I * k * b + u) = r ∧ (N * I * k * b + u) / (N * I * k) = b) ↔
      owner I N u = r := by
    intro u hu
    rw [← owner_mod_rounds (k := k), Nat.mul_add_mod, owner_mod_rounds, Nat.mul_add_div hpos,
      Nat.div_eq_of_lt (by omega)]
    simp
  rw [Nat.count_add, hbefore, Nat.zero_add, ← count_owner hI hN hr, Nat.count_eq_card_filter_range,
    Nat.count_eq_card_filter_range]
  exact congrArg Finset.card (Finset.filter_congr fun u hu => hin u (Finset.mem_range.mp hu))

/-- A whole block of `k` rounds has `I * k` positions of each party. -/
theorem count_whole_block (hI : 0 < I) (hN : 0 < N) (hk : 0 < k) {r : Nat} (hr : r < N)
    {b L : Nat} (hL : N * I * k * (b + 1) ≤ L) :
    Nat.count (fun q => owner I N q = r ∧ q / (N * I * k) = b) L = I * k := by
  have hpos : 0 < N * I * k := Nat.mul_pos (Nat.mul_pos hN hI) hk
  obtain ⟨d, rfl⟩ := Nat.exists_eq_add_of_le hL
  have hafter : Nat.count (fun j => owner I N (N * I * k * (b + 1) + j) = r ∧
      (N * I * k * (b + 1) + j) / (N * I * k) = b) d = 0 := by
    refine Nat.count_of_forall_not fun j _ hj => ?_
    have hdiv := hj.2
    have hle := Nat.le_add_right (b + 1) (j / (N * I * k))
    rw [← Nat.mul_add_div hpos, hdiv] at hle
    omega
  rw [Nat.count_add, hafter, Nat.add_zero, Nat.mul_add, Nat.mul_one,
    count_in_block hI hN hk hr (Nat.le_refl _), localLength_rounds hI hN]

end Rounds

end Vllm.Lib.Interleave
