import Vllm.Lib.Borders
import Vllm.V1.SpecDecode.NgramProposer

/-!
# `Vllm.Proofs.SpecDecode.NgramProposer`: the n-gram search finds what it looks for

The search runs over the reversed tokens, where the ends of the tokens are the first elements
and an earlier occurrence of an end is a border.

* `Searching`: the invariant of the loop. The table has the longest borders, every longer
  border of what was read does not grow, and `Found` says what the best match is so far.
* `next_spec`: a round raises nothing, keeps the invariant and comes closer to the end.
* `run_spec`: so the loop ends with the longest match, at the last place in the reversed tokens.
* `propose_spec`: the same in the tokens, and the tokens that are drafted.
-/

set_option autoImplicit false

namespace Vllm.Proofs.SpecDecode

open Vllm.Lib Vllm.V1.SpecDecode

variable {α : Type} {t : List α} {maxNgram : Nat}

/-- The best match in what was read: no border up to the maximum is longer, and it is found at
the last place where it is a border. -/
structure Found (t : List α) (maxNgram longest position i : Nat) : Prop where
  maximal : ∀ p v, p < i → v ≤ maxNgram → Border t v (p + 1) → v ≤ longest
  cap : longest ≤ maxNgram
  last : longest = 0 ∨ (position < i ∧ Border t longest (position + 1) ∧
    ∀ p, p < i → position < p → ¬ Border t longest (p + 1))

/-- The invariant of the search. -/
structure Searching (t : List α) (maxNgram : Nat) (s : NgramSearch) : Prop where
  le : s.i ≤ t.length
  cap : s.prevLps < maxNgram
  border : Border t s.prevLps s.i
  skipped : ∀ u < maxNgram, Border t u s.i → s.prevLps < u → t[u]? ≠ t[s.i]?
  size : s.lps.length = maxNgram
  table : ∀ j v, s.lps[j]? = some v → j < s.i → LongestBorder t v (j + 1)
  rest : ∀ j v, s.lps[j]? = some v → s.i ≤ j → v = 0
  found : Found t maxNgram s.longestNgram s.position s.i

section Found
variable {longest position i v : Nat}

/-- A border that is the longest one here replaces the best match if that is not longer. -/
theorem Found.border (h : Found t maxNgram longest position i) (hpos : 0 < v) (hcap : v ≤ maxNgram)
    (hv : Border t v (i + 1)) (hmax : ∀ u ≤ maxNgram, Border t u (i + 1) → u ≤ v) :
    Found t maxNgram (if longest ≤ v then v else longest)
      (if longest ≤ v then i else position) (i + 1) := by
  by_cases hle : longest ≤ v
  · rw [if_pos hle, if_pos hle]
    refine ⟨fun p u hp hu hb => ?_, hcap, .inr ⟨by omega, hv, fun p hp hip => by omega⟩⟩
    rcases Nat.lt_succ_iff_lt_or_eq.mp hp with hp | rfl
    · exact (h.maximal p u hp hu hb).trans hle
    · exact hmax u hu hb
  · rw [if_neg hle, if_neg hle]
    refine ⟨fun p u hp hu hb => ?_, h.cap, ?_⟩
    · rcases Nat.lt_succ_iff_lt_or_eq.mp hp with hp | rfl
      · exact h.maximal p u hp hu hb
      · have := hmax u hu hb
        omega
    · rcases h.last with hzero | ⟨hposition, hb, hlast⟩
      · omega
      refine .inr ⟨by omega, hb, fun p hp hlt hbp => ?_⟩
      rcases Nat.lt_succ_iff_lt_or_eq.mp hp with hp | rfl
      · exact hlast p hp hlt hbp
      · exact hle (hmax longest h.cap hbp)

/-- Where there is no border but the empty one, the best match stays. -/
theorem Found.noBorder (h : Found t maxNgram longest position i)
    (hnone : ∀ u ≤ maxNgram, Border t u (i + 1) → u = 0) :
    Found t maxNgram longest position (i + 1) := by
  refine ⟨fun p u hp hu hb => ?_, h.cap, ?_⟩
  · rcases Nat.lt_succ_iff_lt_or_eq.mp hp with hp | rfl
    · exact h.maximal p u hp hu hb
    · rw [hnone u hu hb]
      exact Nat.zero_le _
  · rcases h.last with hzero | ⟨hposition, hb, hlast⟩
    · exact .inl hzero
    by_cases hzero : longest = 0
    · exact .inl hzero
    refine .inr ⟨by omega, hb, fun p hp hlt hbp => ?_⟩
    rcases Nat.lt_succ_iff_lt_or_eq.mp hp with hp | rfl
    · exact hlast p hp hlt hbp
    · exact hzero (hnone longest h.cap hbp)

end Found

section Round
variable {s : NgramSearch}

theorem arrayGet_of_lt {β : Type} {a : List β} {i : Nat} (h : i < a.length) :
    ∃ x, arrayGet a i = .ok x ∧ a[i]? = some x := by
  refine ⟨a[i], ?_, List.getElem?_eq_getElem h⟩
  unfold arrayGet
  rw [List.getElem?_eq_getElem h]

/-- Every border of what is read next grew out of one that is at most as long as the one the
search is at. -/
theorem Searching.grown (h : Searching t maxNgram s) (hi : s.i < t.length) {u : Nat}
    (hu : u ≤ maxNgram) (hb : Border t u (s.i + 1)) :
    u = 0 ∨ ∃ w, u = w + 1 ∧ w ≤ s.prevLps ∧ t[w]? = t[s.i]? := by
  cases u with
  | zero => exact .inl rfl
  | succ w =>
    obtain ⟨hbw, heq⟩ := (border_succ_iff hi).mp hb
    refine .inr ⟨w, rfl, ?_, heq⟩
    by_contra hlt
    exact h.skipped w (by omega) hbw (by omega) heq

variable [DecidableEq α]

/-- The tokens are equal: the border grows. -/
theorem next_match (h : Searching t maxNgram s) (hi : s.i < t.length)
    (heq : t[s.prevLps]? = t[s.i]?) :
    ∃ s', s.next t maxNgram = .ok s' ∧ Searching t maxNgram s' ∧ s'.i = s.i + 1 ∧
      s'.prevLps ≤ s.prevLps + 1 := by
  have hlt := h.border.1
  obtain ⟨x, hx, hx'⟩ := arrayGet_of_lt (hlt.trans hi)
  obtain ⟨y, hy, hy'⟩ := arrayGet_of_lt hi
  obtain rfl : x = y := Option.some.inj (hx'.symm.trans (heq.trans hy'))
  have hcap := h.cap
  have hgrown : Border t (s.prevLps + 1) (s.i + 1) := (border_succ_iff hi).mpr ⟨h.border, heq⟩
  have hmax : ∀ u ≤ maxNgram, Border t u (s.i + 1) → u ≤ s.prevLps + 1 := by
    intro u hu hb
    rcases h.grown hi hu hb with rfl | ⟨w, rfl, hw, -⟩ <;> omega
  -- The table after this round.
  obtain ⟨lps, hlps, hsize, htable, hrest⟩ : ∃ lps,
      (if s.i < maxNgram then arraySet s.lps s.i (s.prevLps + 1) else pure s.lps) = .ok lps ∧
      lps.length = maxNgram ∧
      (∀ j v, lps[j]? = some v → j < s.i + 1 → LongestBorder t v (j + 1)) ∧
      ∀ j v, lps[j]? = some v → s.i + 1 ≤ j → v = 0 := by
    by_cases hstore : s.i < maxNgram
    · refine ⟨s.lps.set s.i (s.prevLps + 1), ?_, ?_, fun j v hv hj => ?_, fun j v hv hj => ?_⟩
      · rw [if_pos hstore]
        unfold arraySet
        rw [if_pos (h.size ▸ hstore)]
      · rw [List.length_set, h.size]
      · by_cases hji : j = s.i
        · subst hji
          rw [List.getElem?_set_self (h.size ▸ hstore)] at hv
          cases hv
          refine ⟨hgrown, fun u hb => hmax u ?_ hb⟩
          have := hb.1
          omega
        · rw [List.getElem?_set_ne (Ne.symm hji)] at hv
          exact h.table j v hv (by omega)
      · rw [List.getElem?_set_ne (by omega)] at hv
        exact h.rest j v hv (by omega)
    · refine ⟨s.lps, by rw [if_neg hstore]; rfl, h.size, fun j v hv hj => ?_, fun j v hv hj => ?_⟩
      · have hjlt : j < s.lps.length := (List.getElem?_eq_some_iff.mp hv).1
        have hsize := h.size
        exact h.table j v hv (by omega)
      · exact h.rest j v hv (by omega)
  -- The border the next round starts from.
  obtain ⟨nextLps, hnext, hnextCap, hnextBorder, hnextLe, hnextMax⟩ : ∃ nextLps,
      (if s.prevLps + 1 = maxNgram then arrayGet lps (maxNgram - 1) else pure (s.prevLps + 1))
        = .ok nextLps ∧
      nextLps < maxNgram ∧ Border t nextLps (s.i + 1) ∧ nextLps ≤ s.prevLps + 1 ∧
      ∀ u < maxNgram, Border t u (s.i + 1) → u ≤ nextLps := by
    by_cases hfull : s.prevLps + 1 = maxNgram
    · obtain ⟨v, hget, hv⟩ := arrayGet_of_lt (a := lps) (i := maxNgram - 1) (by omega)
      have hlong := htable (maxNgram - 1) v hv (by omega)
      rw [Nat.sub_add_cancel (by omega), ← hfull] at hlong
      have hnext := hlong.next hgrown
      have hvlt := hlong.1.1
      refine ⟨v, by rw [if_pos hfull, hget], by omega, hnext.1, by omega, fun u hu hb => ?_⟩
      exact hnext.2 u hb (by omega)
    · exact ⟨s.prevLps + 1, by rw [if_neg hfull]; rfl, by omega, hgrown, le_rfl,
        fun u hu hb => hmax u (by omega) hb⟩
  refine ⟨{
    lps
    longestNgram := if s.longestNgram ≤ s.prevLps + 1 then s.prevLps + 1 else s.longestNgram
    position := if s.longestNgram ≤ s.prevLps + 1 then s.i else s.position
    prevLps := nextLps
    i := s.i + 1 }, ?_, ⟨hi, hnextCap, hnextBorder, ?_, hsize, htable, hrest, ?_⟩, rfl, hnextLe⟩
  · unfold NgramSearch.next
    rw [hx, except_ok_bind, hy, except_ok_bind, if_pos rfl]
    dsimp only
    rw [hlps, except_ok_bind, hnext, except_ok_bind]
    rfl
  · intro u hu hb hlt
    have hle := hnextMax u hu hb
    dsimp only at hlt
    omega
  · exact h.found.border (by omega) (by omega) hgrown hmax

/-- The tokens differ: the next shorter border is tried. -/
theorem next_shorter (h : Searching t maxNgram s) (hi : s.i < t.length)
    (hne : t[s.prevLps]? ≠ t[s.i]?) (hpos : s.prevLps ≠ 0) :
    ∃ s', s.next t maxNgram = .ok s' ∧ Searching t maxNgram s' ∧ s'.i = s.i ∧
      s'.prevLps < s.prevLps := by
  have hlt := h.border.1
  obtain ⟨x, hx, hx'⟩ := arrayGet_of_lt (hlt.trans hi)
  obtain ⟨y, hy, hy'⟩ := arrayGet_of_lt hi
  have hxy : x ≠ y := by
    rintro rfl
    exact hne (hx'.trans hy'.symm)
  have hsize := h.size
  have hcap := h.cap
  obtain ⟨v, hget, hv⟩ := arrayGet_of_lt (a := s.lps) (i := s.prevLps - 1) (by omega)
  have hlong := h.table (s.prevLps - 1) v hv (by omega)
  rw [Nat.sub_add_cancel (by omega)] at hlong
  have hnext := hlong.next h.border
  have hvlt := hlong.1.1
  refine ⟨{ s with prevLps := v }, ?_,
    ⟨h.le, hvlt.trans hcap, hnext.1, ?_, h.size, h.table, h.rest, h.found⟩, rfl, hvlt⟩
  · unfold NgramSearch.next
    rw [hx, except_ok_bind, hy, except_ok_bind, if_neg hxy, if_pos hpos, hget]
    rfl
  · intro u hu hb hvu
    rcases Nat.lt_trichotomy u s.prevLps with hlt | rfl | hgt
    · -- Between the two borders there is no other one.
      have hle := hnext.2 u hb hlt
      dsimp only at hvu
      omega
    · exact hne
    · exact h.skipped u hu hb hgt

/-- The tokens differ, and there is no shorter border: the search goes on. -/
theorem next_mismatch (h : Searching t maxNgram s) (hi : s.i < t.length)
    (hne : t[s.prevLps]? ≠ t[s.i]?) (hzero : s.prevLps = 0) :
    ∃ s', s.next t maxNgram = .ok s' ∧ Searching t maxNgram s' ∧ s'.i = s.i + 1 ∧
      s'.prevLps = s.prevLps := by
  have hlt := h.border.1
  obtain ⟨x, hx, hx'⟩ := arrayGet_of_lt (hlt.trans hi)
  obtain ⟨y, hy, hy'⟩ := arrayGet_of_lt hi
  have hxy : x ≠ y := by
    rintro rfl
    exact hne (hx'.trans hy'.symm)
  have hnone : ∀ u ≤ maxNgram, Border t u (s.i + 1) → u = 0 := by
    intro u hu hb
    rcases h.grown hi hu hb with hu0 | ⟨w, rfl, hw, heq⟩
    · exact hu0
    · obtain rfl : w = s.prevLps := by omega
      exact absurd heq hne
  refine ⟨{ s with i := s.i + 1 }, ?_, ⟨hi, h.cap, ?_, ?_, h.size, ?_, ?_, h.found.noBorder hnone⟩,
    rfl, rfl⟩
  · unfold NgramSearch.next
    rw [hx, except_ok_bind, hy, except_ok_bind, if_neg hxy, if_neg (by simpa using hzero)]
    rfl
  · rw [hzero]
    exact border_zero t (Nat.succ_pos s.i)
  · intro u hu hb hlt
    have hu0 := hnone u (by omega) hb
    dsimp only at hlt
    omega
  · intro j v hv hj
    rcases Nat.lt_succ_iff_lt_or_eq.mp hj with hj | rfl
    · exact h.table j v hv hj
    · -- The entry is still zero, and there is no border but the empty one.
      obtain rfl := h.rest s.i v hv le_rfl
      have hstore : s.i < s.lps.length := (List.getElem?_eq_some_iff.mp hv).1
      refine ⟨border_zero t (Nat.succ_pos s.i), fun u hb => (hnone u ?_ hb).le⟩
      have hsize := h.size
      have hub := hb.1
      omega
  · intro j v hv hj
    exact h.rest j v hv (by dsimp only at hj; omega)

/-- A round raises nothing, keeps the invariant and comes closer to the end. -/
theorem next_spec (h : Searching t maxNgram s) (hi : s.i < t.length) :
    ∃ s', s.next t maxNgram = .ok s' ∧ Searching t maxNgram s' ∧
      2 * (t.length - s'.i) + s'.prevLps < 2 * (t.length - s.i) + s.prevLps := by
  by_cases heq : t[s.prevLps]? = t[s.i]?
  · obtain ⟨s', hnext, hs', hi', hprev⟩ := next_match h hi heq
    exact ⟨s', hnext, hs', by omega⟩
  by_cases hzero : s.prevLps = 0
  · obtain ⟨s', hnext, hs', hi', hprev⟩ := next_mismatch h hi heq hzero
    exact ⟨s', hnext, hs', by omega⟩
  · obtain ⟨s', hnext, hs', hi', hprev⟩ := next_shorter h hi heq hzero
    exact ⟨s', hnext, hs', by omega⟩

end Round

variable [DecidableEq α]

/-- The search ends, and has found the best match in all tokens. -/
theorem run_spec (hmax : 0 < maxNgram) (ht : 0 < t.length) :
    ∃ fuel s, NgramSearch.run t maxNgram fuel = some (.ok (), s) ∧
      Found t maxNgram s.longestNgram s.position t.length := by
  have hstart : Searching t maxNgram { lps := List.replicate maxNgram 0 } := by
    refine ⟨ht, hmax, border_zero t Nat.one_pos, ?_, List.length_replicate, ?_, ?_, ?_⟩
    · intro u _ hb hpos
      have := hb.1
      dsimp only at hpos this
      omega
    · intro j v hv hj
      obtain rfl : j = 0 := by dsimp only at hj; omega
      obtain rfl := (List.getElem?_replicate_of_lt hmax).symm.trans hv |> Option.some.inj
      exact ⟨border_zero t Nat.one_pos, fun u hb => Nat.lt_succ_iff.mp hb.1⟩
    · intro j v hv _
      have hmem := List.mem_of_getElem? hv
      exact (List.mem_replicate.mp hmem).2
    · refine ⟨fun p v hp _ hb => ?_, Nat.zero_le _, .inl rfl⟩
      have := hb.1
      dsimp only at hp ⊢
      omega
  have hround : ∀ s : NgramSearch, Searching t maxNgram s → decide (s.i < t.length) = true →
      (∃ s', s.body t maxNgram = (.ok (), s') ∧ Searching t maxNgram s' ∧
        2 * (t.length - s'.i) + s'.prevLps < 2 * (t.length - s.i) + s.prevLps) ∨
      ∃ e s', s.body t maxNgram = (.error e, s') ∧ False := by
    intro s hs hi
    obtain ⟨s', hnext, hs', hlt⟩ := next_spec hs (of_decide_eq_true hi)
    refine .inl ⟨s', ?_, hs', hlt⟩
    unfold NgramSearch.body
    rw [hnext]
  obtain ⟨fuel, ⟨s, hrun, hs, hend⟩ | ⟨e, s, hrun, hfalse⟩⟩ :=
    whileLoop_variant (Searching t maxNgram) (fun _ _ => False)
      (fun s : NgramSearch => 2 * (t.length - s.i) + s.prevLps) hround hstart
  · have hi : s.i = t.length := by
      have hle := hs.le
      have := of_decide_eq_false hend
      omega
    exact ⟨fuel, s, hrun, hi ▸ hs.found⟩
  · exact hfalse.elim

/-! ### In the tokens -/

/-- The last `n` tokens also occur earlier, at `start`. -/
def OccursEarlier (tokens : List α) (n start : Nat) : Prop :=
  start + n < tokens.length ∧ (tokens.drop start).take n = tokens.drop (tokens.length - n)

section Occurs
omit [DecidableEq α]
variable {tokens : List α} {n start longest position : Nat}

theorem occursEarlier_iff : OccursEarlier tokens n start ↔
      start < tokens.length ∧ Border tokens.reverse n (tokens.length - start) := by
  unfold OccursEarlier
  constructor
  · rintro ⟨hlt, heq⟩
    refine ⟨by omega, (border_reverse_iff (by omega) (Nat.sub_le _ _)).mpr ?_⟩
    rw [Nat.sub_sub_self (by omega)]
    exact heq
  · rintro ⟨hlt, hb⟩
    have hlen := hb.1
    rw [border_reverse_iff hlen (Nat.sub_le _ _), Nat.sub_sub_self hlt.le] at hb
    exact ⟨by omega, hb⟩

/-- No longer end of the tokens occurs earlier. -/
theorem Found.le_of_occurs (h : Found tokens.reverse maxNgram longest position tokens.length)
    (hn : n ≤ maxNgram) (hocc : OccursEarlier tokens n start) : n ≤ longest := by
  obtain ⟨hstart, hb⟩ := occursEarlier_iff.mp hocc
  refine h.maximal (tokens.length - start - 1) n (by omega) hn ?_
  rw [Nat.sub_add_cancel (by omega)]
  exact hb

/-- The position is that of the first occurrence. -/
theorem Found.first (h : Found tokens.reverse maxNgram longest position tokens.length)
    (hpos : 0 < longest) :
    OccursEarlier tokens longest (tokens.length - 1 - position) ∧
      ∀ start < tokens.length - 1 - position, ¬ OccursEarlier tokens longest start := by
  rcases h.last with hzero | ⟨hlt, hb, hlast⟩
  · omega
  refine ⟨occursEarlier_iff.mpr ⟨by omega, ?_⟩, fun start hstart hocc => ?_⟩
  · have hindex : tokens.length - (tokens.length - 1 - position) = position + 1 := by omega
    rw [hindex]
    exact hb
  · obtain ⟨hlen, hearlier⟩ := occursEarlier_iff.mp hocc
    refine hlast (tokens.length - start - 1) (by omega) (by omega) ?_
    rw [Nat.sub_add_cancel (by omega)]
    exact hearlier

end Occurs

/-- The function ends, raises nothing and reads no index out of range. It drafts nothing exactly when there is no room for a
draft or no end of the tokens with an allowed length occurs earlier. Otherwise it takes the
longest such end and drafts what follows its first occurrence, as far as there is room and as
far as the tokens go. -/
theorem propose_spec (originTokens : List α) {minNgram maxNgram : Nat} (maxModelLen k : Int)
    (hmin : 1 ≤ minNgram) (hmax : minNgram ≤ maxNgram) :
    ∃ fuel drafts,
      findLongestMatchedNgramAndProposeTokens originTokens minNgram maxNgram maxModelLen k fuel
        = some (.ok drafts) ∧
      (drafts = [] ↔ min k (maxModelLen - originTokens.length) ≤ 0 ∨
        ∀ n start, minNgram ≤ n → n ≤ maxNgram → ¬ OccursEarlier originTokens n start) ∧
      (drafts ≠ [] → ∃ n start, (minNgram ≤ n ∧ n ≤ maxNgram) ∧
        OccursEarlier originTokens n start ∧
        (∀ n' start', n < n' → n' ≤ maxNgram → ¬ OccursEarlier originTokens n' start') ∧
        (∀ start' < start, ¬ OccursEarlier originTokens n start') ∧
        drafts = (originTokens.drop (start + n)).take
          (min k (maxModelLen - originTokens.length)).toNat) := by
  -- Nothing is drafted on the early returns.
  by_cases hshort : originTokens.length < minNgram
  · refine ⟨0, [], ?_, ⟨fun _ => .inr ?_, fun _ => rfl⟩, fun h => absurd rfl h⟩
    · unfold findLongestMatchedNgramAndProposeTokens
      rw [if_pos hshort]
    · intro n start hn _ hocc
      have := hocc.1
      omega
  by_cases hroom : min k (maxModelLen - originTokens.length) ≤ 0
  · refine ⟨0, [], ?_, ⟨fun _ => .inl hroom, fun _ => rfl⟩, fun h => absurd rfl h⟩
    unfold findLongestMatchedNgramAndProposeTokens
    rw [if_neg hshort]
    exact if_pos hroom
  have hlen : originTokens.reverse.length = originTokens.length := List.length_reverse
  obtain ⟨fuel, s, hrun, hfound⟩ : ∃ fuel s,
      NgramSearch.run originTokens.reverse maxNgram fuel = some (.ok (), s) ∧
      Found originTokens.reverse maxNgram s.longestNgram s.position originTokens.reverse.length :=
    run_spec (by omega) (by omega)
  rw [hlen] at hfound
  by_cases hfew : s.longestNgram < minNgram
  · refine ⟨fuel, [], ?_, ⟨fun _ => .inr ?_, fun _ => rfl⟩, fun h => absurd rfl h⟩
    · unfold findLongestMatchedNgramAndProposeTokens
      rw [if_neg hshort]
      dsimp only
      rw [if_neg hroom, hrun]
      exact if_pos hfew
    · intro n start hn hn' hocc
      have := hfound.le_of_occurs hn' hocc
      omega
  obtain ⟨hocc, hfirst⟩ := hfound.first (by omega)
  -- The place where the first occurrence ends.
  have hstart : ((originTokens.length : Int) - 1 - s.position + s.longestNgram)
      = (originTokens.length - 1 - s.position + s.longestNgram : Nat) := by
    rcases hfound.last with hzero | ⟨hlt, -, -⟩ <;> omega
  have hbefore := hocc.1
  let room := min k (maxModelLen - originTokens.length)
  refine ⟨fuel, (originTokens.drop (originTokens.length - 1 - s.position + s.longestNgram)).take
    room.toNat, ?_, ?_, fun _ => ⟨s.longestNgram, _, ⟨by omega, hfound.cap⟩, hocc, ?_, hfirst, rfl⟩⟩
  · unfold findLongestMatchedNgramAndProposeTokens
    rw [if_neg hshort]
    dsimp only
    rw [if_neg hroom, hrun]
    dsimp only
    rw [if_neg hfew, hstart, Int.toNat_natCast]
    congr 2
    -- The end of the tokens stops the slice in any case.
    show List.take _ _ = List.take _ _
    rw [List.take_eq_take_iff, List.length_drop]
    omega
  · have hsome : (originTokens.drop (originTokens.length - 1 - s.position + s.longestNgram)).take
        room.toNat ≠ [] := by
      rw [← List.length_pos_iff, List.length_take, List.length_drop]
      omega
    constructor
    · exact fun hnil => absurd hnil hsome
    · rintro (hle | hnone)
      · exact absurd hle hroom
      · exact absurd hocc (hnone _ _ (by omega) hfound.cap)
  · intro n' start' hn' hle' hocc'
    have := hfound.le_of_occurs hle' hocc'
    omega

/-- The end `[1, 2]` occurs first at the start, and `9` follows it there. -/
theorem propose_spec_first : (1 ≤ 1 ∧ 1 ≤ 3) ∧
    findLongestMatchedNgramAndProposeTokens [1, 2, 9, 1, 2, 8, 1, 2] 1 3 100 1 30 = some (.ok [9]) ∧
    ∃ fuel drafts,
      findLongestMatchedNgramAndProposeTokens [1, 2, 9, 1, 2, 8, 1, 2] 1 3 100 1 fuel
        = some (.ok drafts) ∧
      (drafts = [] ↔ min (1 : Int) (100 - 8) ≤ 0 ∨
        ∀ n start, 1 ≤ n → n ≤ 3 → ¬ OccursEarlier [1, 2, 9, 1, 2, 8, 1, 2] n start) := by
  obtain ⟨fuel, drafts, hrun, hempty, -⟩ :=
    propose_spec [1, 2, 9, 1, 2, 8, 1, 2] 100 1 (le_refl 1) (by decide : 1 ≤ 3)
  exact ⟨by decide, by decide +kernel, fuel, drafts, hrun, hempty⟩

end Vllm.Proofs.SpecDecode
