import Vllm.Distributed.RebalanceExecute
import Mathlib.Data.List.Sort
import Mathlib.Data.List.Induction
import Mathlib.Data.List.Nodup

/-!
# `Vllm.Proofs.Distributed.RebalanceExecute`: the exchange of expert weights

Each rank computes its sends and receives from the two index maps alone. A sender gives the expert
to a range of the receivers and to one of those that are left over; a receiver finds its sender by
the same division.

* `mem_recvRanks_iff`: a rank is sent an expert by exactly the rank it takes it from.
* `sentExperts_eq_receivedExperts`: what a rank sends to another is what that one receives, in the
  same order.
* `exchange_experts`: after the exchange each slot has the weights of its new expert.
-/

set_option autoImplicit false

namespace Vllm.Proofs.Distributed

open Vllm.Lib Vllm.Distributed List

/-! ### The ranks of an expert -/

/-- The largest entry of a list in increasing order is the last one. -/
theorem getLast?_of_max {l : List Nat} {x : Nat} (hl : l.Pairwise (· < ·)) (hx : x ∈ l)
    (hmax : ∀ y ∈ l, y ≤ x) : l.getLast? = some x := by
  obtain ⟨init, last, rfl⟩ := eq_nil_or_concat' l |>.resolve_left (ne_nil_of_mem hx)
  rw [List.getLast?_append_of_ne_nil _ (cons_ne_nil _ _)]
  rcases mem_append.mp hx with hinit | hlast
  · have hlt := (pairwise_append.mp hl).2.2 x hinit last (mem_singleton_self last)
    have hle := hmax last (mem_append_right _ (mem_singleton_self last))
    omega
  · rw [mem_singleton.mp hlast]
    rfl

theorem ranksWithExpert_snoc (idx : Int) (n : Nat) (l : List Int) (x : Int) :
    ranksWithExpert idx n (l ++ [x]) =
      if x = idx then
        if ranksWithExpert idx n l = [] ∨
            (ranksWithExpert idx n l).getLast? ≠ some (globalIdxToRank l.length n) then
          ranksWithExpert idx n l ++ [globalIdxToRank l.length n]
        else ranksWithExpert idx n l
      else ranksWithExpert idx n l := by
  unfold ranksWithExpert
  rw [zipIdx_append, foldl_append]
  simp

/-- The ranks come in increasing order, and they are those of the slots with the expert. -/
theorem ranksWithExpert_spec (idx : Int) (n : Nat) (l : List Int) :
    (ranksWithExpert idx n l).Pairwise (· < ·) ∧
      ∀ r, r ∈ ranksWithExpert idx n l ↔ ∃ i : Nat, l[i]? = some idx ∧ i / n = r := by
  induction l using List.reverseRecOn with
  | nil => exact ⟨.nil, fun r => by simp [ranksWithExpert]⟩
  | append_singleton l x ih =>
    obtain ⟨hsorted, hmem⟩ := ih
    have hle : ∀ r ∈ ranksWithExpert idx n l, r ≤ l.length / n := by
      intro r hr
      obtain ⟨i, hi, rfl⟩ := (hmem r).mp hr
      exact Nat.div_le_div_right (List.getElem?_eq_some_iff.mp hi).1.le
    have hnew : ∀ r, (∃ i : Nat, (l ++ [x])[i]? = some idx ∧ i / n = r) ↔
        r ∈ ranksWithExpert idx n l ∨ x = idx ∧ l.length / n = r := by
      intro r
      rw [hmem]
      constructor
      · rintro ⟨i, hi, rfl⟩
        rw [List.getElem?_append] at hi
        split at hi
        · exact .inl ⟨i, hi, rfl⟩
        · obtain ⟨hlt, hx⟩ := List.getElem?_eq_some_iff.mp hi
          rw [length_singleton] at hlt
          have heq : i = l.length := by omega
          subst heq
          exact .inr ⟨by simpa using hx, rfl⟩
      · rintro (⟨i, hi, rfl⟩ | ⟨rfl, rfl⟩)
        · exact ⟨i, List.getElem?_append_left (List.getElem?_eq_some_iff.mp hi).1 ▸ hi, rfl⟩
        · exact ⟨l.length, by simp, rfl⟩
    rw [ranksWithExpert_snoc]
    unfold globalIdxToRank
    by_cases hx : x = idx
    · rw [if_pos hx]
      split
      · rename_i hlast
        -- The rank is not there yet, or it would be the last one.
        have hnot : l.length / n ∉ ranksWithExpert idx n l := by
          intro hin
          rcases hlast with hnil | hlast
          · rw [hnil] at hin
            exact not_mem_nil hin
          · exact hlast (getLast?_of_max hsorted hin hle)
        refine ⟨pairwise_append.mpr ⟨hsorted, pairwise_singleton _ _,
          fun a ha b hb => ?_⟩, fun r => ?_⟩
        · rw [mem_singleton.mp hb]
          exact Nat.lt_of_le_of_ne (hle a ha) fun heq => hnot (heq ▸ ha)
        · rw [hnew, mem_append, mem_singleton]
          exact or_congr_right ⟨fun heq => ⟨hx, heq.symm⟩, fun h => h.2.symm⟩
      · rename_i hlast
        rw [not_or, not_not] at hlast
        refine ⟨hsorted, fun r => ?_⟩
        rw [hnew]
        refine ⟨.inl, fun h => h.elim id ?_⟩
        rintro ⟨-, rfl⟩
        exact mem_of_getLast? hlast.2
    · rw [if_neg hx]
      refine ⟨hsorted, fun r => ?_⟩
      rw [hnew]
      exact ⟨.inl, fun h => h.elim id fun h => absurd h.1 hx⟩

/-- A map of indices, by rank and slot. -/
theorem exists_rank_slot {l : List Int} {p n r : Nat} (hlength : l.length = p * n) (e : Int) :
    (∃ i : Nat, l[i]? = some e ∧ i / n = r) ↔
      r < p ∧ ∃ i < n, l[idxLocalToGlobal i n r]? = some e := by
  unfold idxLocalToGlobal
  constructor
  · rintro ⟨i, hi, rfl⟩
    have hlt := (List.getElem?_eq_some_iff.mp hi).1
    rw [hlength] at hlt
    have hn : 0 < n := Nat.pos_of_ne_zero fun h => by simp [h] at hlt
    refine ⟨(Nat.div_lt_iff_lt_mul hn).mpr hlt, i % n, Nat.mod_lt i hn, ?_⟩
    rw [Nat.div_add_mod']
    exact hi
  · rintro ⟨-, i, hi, he⟩
    refine ⟨_, he, ?_⟩
    rw [Nat.mul_comm, Nat.mul_add_div (by omega), Nat.div_eq_of_lt hi, Nat.add_zero]

section Maps
variable (m : ExpertMaps)

/-- A rank has an expert before the exchange. -/
def Holds (r : Nat) (e : Int) : Prop := ∃ i < m.numLocalExperts, m.old r i = e

/-- A rank has an expert after the exchange. -/
def Wants (r : Nat) (e : Int) : Prop := ∃ i < m.numLocalExperts, m.new r i = e

theorem slot_lt {r i : Nat} (hr : r < m.epSize) (hi : i < m.numLocalExperts) :
    idxLocalToGlobal i m.numLocalExperts r < m.epSize * m.numLocalExperts := by
  unfold idxLocalToGlobal
  calc r * m.numLocalExperts + i < r * m.numLocalExperts + m.numLocalExperts := by omega
    _ = (r + 1) * m.numLocalExperts := by rw [Nat.add_mul, Nat.one_mul]
    _ ≤ m.epSize * m.numLocalExperts := Nat.mul_le_mul_right _ hr

theorem mem_ranksToSend {r : Nat} {e : Int} :
    r ∈ (getEpRanksWithExpert e m).1 ↔ r < m.epSize ∧ Holds m r e := by
  refine ((ranksWithExpert_spec e _ _).2 r).trans ((exists_rank_slot m.oldLength e).trans ?_)
  refine and_congr_right fun hr => exists_congr fun i => and_congr_right fun hi => ?_
  unfold ExpertMaps.old
  have hlt := slot_lt m hr hi
  rw [← m.oldLength] at hlt
  rw [getD_eq_getElem?_getD, getElem?_eq_getElem hlt, Option.getD_some, Option.some.injEq]

theorem mem_ranksToRecv {r : Nat} {e : Int} :
    r ∈ (getEpRanksWithExpert e m).2 ↔ r < m.epSize ∧ Wants m r e ∧ ¬ Holds m r e := by
  have hwants : r ∈ ranksWithExpert e m.numLocalExperts m.newIndices ↔
      r < m.epSize ∧ Wants m r e := by
    refine ((ranksWithExpert_spec e _ _).2 r).trans ((exists_rank_slot m.newLength e).trans ?_)
    refine and_congr_right fun hr => exists_congr fun i => and_congr_right fun hi => ?_
    unfold ExpertMaps.new
    have hlt := slot_lt m hr hi
    rw [← m.newLength] at hlt
    rw [getD_eq_getElem?_getD, getElem?_eq_getElem hlt, Option.getD_some, Option.some.injEq]
  unfold getEpRanksWithExpert
  dsimp only
  have hsend := mem_ranksToSend m (r := r) (e := e)
  unfold getEpRanksWithExpert at hsend
  dsimp only at hsend
  rw [mem_filter, hwants, decide_eq_true_iff, hsend]
  tauto

theorem nodup_ranksToSend (e : Int) : (getEpRanksWithExpert e m).1.Nodup :=
  (ranksWithExpert_spec e _ _).1.imp Nat.ne_of_lt

theorem nodup_ranksToRecv (e : Int) : (getEpRanksWithExpert e m).2.Nodup :=
  ((ranksWithExpert_spec e _ _).1.imp Nat.ne_of_lt).filter _

end Maps

/-! ### Senders and receivers -/

section Division
variable {send recv : List Nat} {s d : Nat}

/-- The place of the sender of the receiver in the place `q`. -/
def senderPos (senders num q : Nat) : Nat :=
  if q < senders * num then q / num else q - senders * num

theorem senderPos_lt {senders q : Nat} (num : Nat)
    (hq : q < senders * num + senders) : senderPos senders num q < senders := by
  unfold senderPos
  split
  · rename_i hlt
    have hnum : 0 < num := Nat.pos_of_ne_zero fun h => by simp [h] at hlt
    exact (Nat.div_lt_iff_lt_mul hnum).mpr hlt
  · omega

/-- The receivers of the sender in the place `p` are a range, and one that is left over. -/
theorem senderPos_eq_iff {senders num p q : Nat} (hp : p < senders) : senderPos senders num q = p ↔
      p * num ≤ q ∧ q < p * num + num ∨ q = senders * num + p := by
  have hrange : p * num + num ≤ senders * num := by
    calc p * num + num = (p + 1) * num := by rw [Nat.add_mul, Nat.one_mul]
      _ ≤ senders * num := Nat.mul_le_mul_right num hp
  unfold senderPos
  split
  · rename_i hlt
    have hnum : 0 < num := Nat.pos_of_ne_zero fun h => by simp [h] at hlt
    rw [Nat.div_eq_iff hnum]
    omega
  · omega

theorem mem_slice_iff {l : List Nat} {a n x : Nat} :
    x ∈ (l.take (a + n)).drop a ↔ ∃ q : Nat, l[q]? = some x ∧ a ≤ q ∧ q < a + n := by
  rw [mem_iff_getElem?]
  constructor
  · rintro ⟨j, hj⟩
    rw [getElem?_drop, getElem?_take] at hj
    split at hj
    · exact ⟨a + j, hj, Nat.le_add_right a j, ‹_›⟩
    · cases hj
  · rintro ⟨q, hq, hle, hlt⟩
    refine ⟨q - a, ?_⟩
    rw [getElem?_drop, Nat.add_sub_cancel' hle, getElem?_take, if_pos hlt, hq]

/-- The place of an entry of a list without repetitions. -/
theorem getElem?_idxOf_iff {l : List Nat} {x q : Nat} (hl : l.Nodup) (hx : x ∈ l) :
    l[q]? = some x ↔ q = l.idxOf x := by
  have hlt := idxOf_lt_length_of_mem hx
  constructor
  · intro hq
    obtain ⟨hlt', hq⟩ := List.getElem?_eq_some_iff.mp hq
    rw [← hq, hl.idxOf_getElem]
  · rintro rfl
    rw [List.getElem?_eq_getElem hlt, getElem_idxOf]

theorem pyIndex_of_mem {l : List Nat} {x : Nat} (hx : x ∈ l) : pyIndex l x = .ok (l.idxOf x) :=
  if_pos hx

theorem numDstPerSender_of_mem (hs : s ∈ send) :
    numDstPerSender send recv = .ok (recv.length / send.length) :=
  if_neg (Nat.ne_of_gt (length_pos_of_mem hs))

/-- A receiver finds a sender. -/
theorem srcRank_of_mem (hs : s ∈ send) (hd : d ∈ recv) :
    ∃ src ∈ send, srcRank send recv d = .ok src ∧
      send[senderPos send.length (recv.length / send.length) (recv.idxOf d)]? = some src := by
  have hlen := length_pos_of_mem hs
  have hq := idxOf_lt_length_of_mem hd
  have hdiv := Nat.div_add_mod recv.length send.length
  have hmod := Nat.mod_lt recv.length hlen
  have hlt : senderPos send.length (recv.length / send.length) (recv.idxOf d) < send.length :=
    senderPos_lt _ (by omega)
  have hget := getElem?_eq_getElem hlt
  refine ⟨_, getElem_mem hlt, ?_, hget⟩
  unfold srcRank
  rw [numDstPerSender_of_mem hs, pyIndex_of_mem hd]
  dsimp only [except_ok_bind]
  unfold senderPos at hget ⊢
  rw [hget]
  rfl

/-- A sender sends to the receivers that take it for their source. -/
theorem recvRanks_spec (hsend : send.Nodup) (hrecv : recv.Nodup) (hs : s ∈ send) :
    ∃ dsts, recvRanks send recv s = .ok dsts ∧ dsts.Nodup ∧
      ∀ d, d ∈ dsts ↔ d ∈ recv ∧ srcRank send recv d = .ok s := by
  have hp := idxOf_lt_length_of_mem hs
  generalize hnum : recv.length / send.length = num
  have hsource : ∀ d ∈ recv, srcRank send recv d = .ok s ↔
      senderPos send.length num (recv.idxOf d) = send.idxOf s := by
    intro d hd
    obtain ⟨src, hsrc, hok, hget⟩ := srcRank_of_mem hs hd
    rw [hnum] at hget
    rw [hok, Except.ok.injEq, ← getElem?_idxOf_iff hsend hs, hget, Option.some.injEq]
  have hslice : ∀ d, d ∈ (recv.take (send.idxOf s * num + num)).drop (send.idxOf s * num) ↔
      d ∈ recv ∧ send.idxOf s * num ≤ recv.idxOf d ∧
        recv.idxOf d < send.idxOf s * num + num := by
    intro d
    rw [mem_slice_iff]
    constructor
    · rintro ⟨q, hq, hle, hlt⟩
      have hd := mem_of_getElem? hq
      rw [getElem?_idxOf_iff hrecv hd] at hq
      exact ⟨hd, hq ▸ hle, hq ▸ hlt⟩
    · rintro ⟨hd, hle, hlt⟩
      exact ⟨_, (getElem?_idxOf_iff hrecv hd).mpr rfl, hle, hlt⟩
  have hrest : ∀ d, recv[send.length * num + send.idxOf s]? = some d ↔
      d ∈ recv ∧ recv.idxOf d = send.length * num + send.idxOf s := by
    intro d
    constructor
    · intro hget
      have hd := mem_of_getElem? hget
      exact ⟨hd, ((getElem?_idxOf_iff hrecv hd).mp hget).symm⟩
    · rintro ⟨hd, heq⟩
      exact (getElem?_idxOf_iff hrecv hd).mpr heq.symm
  have hnodup : ((recv.take (send.idxOf s * num + num)).drop (send.idxOf s * num)).Nodup :=
    (hrecv.sublist (take_sublist _ _)).sublist (drop_sublist _ _)
  unfold recvRanks
  rw [numDstPerSender_of_mem hs, pyIndex_of_mem hs, hnum]
  dsimp only [except_ok_bind]
  cases hget : recv[send.length * num + send.idxOf s]? with
  | none =>
    refine ⟨_, rfl, hnodup, fun d => ?_⟩
    rw [hslice]
    refine and_congr_right fun hd => ?_
    rw [hsource d hd, senderPos_eq_iff hp, or_iff_left]
    intro heq
    have := (hrest d).mpr ⟨hd, heq⟩
    rw [hget] at this
    cases this
  | some last =>
    obtain ⟨hlast, hidx⟩ := (hrest last).mp hget
    refine ⟨_, rfl, ?_, fun d => ?_⟩
    · refine nodup_append.mpr ⟨hnodup, nodup_singleton last, fun a ha b hb => ?_⟩
      rw [mem_singleton.mp hb]
      rintro rfl
      have hrange : send.idxOf s * num + num ≤ send.length * num := by
        calc send.idxOf s * num + num = (send.idxOf s + 1) * num := by
              rw [Nat.add_mul, Nat.one_mul]
          _ ≤ send.length * num := Nat.mul_le_mul_right num hp
      have := ((hslice _).mp ha).2.2
      omega
    · rw [mem_append, hslice, mem_singleton]
      constructor
      · rintro (⟨hd, hrange⟩ | rfl)
        · exact ⟨hd, (hsource d hd).mpr ((senderPos_eq_iff hp).mpr (.inl hrange))⟩
        · exact ⟨hlast, (hsource _ hlast).mpr ((senderPos_eq_iff hp).mpr (.inr hidx))⟩
      · rintro ⟨hd, hok⟩
        rcases (senderPos_eq_iff hp).mp ((hsource d hd).mp hok) with hrange | heq
        · exact .inl ⟨hd, hrange⟩
        · have := (hrest d).mpr ⟨hd, heq⟩
          rw [hget] at this
          exact .inr (Option.some.inj this).symm

end Division

/-! ### The slots of a rank -/

section Locs
variable {experts : Nat → Int} {skip : Nat → Bool} {n : Nat}

/-- The slot of an expert is one that is not skipped, and each expert of such a slot has one. -/
theorem firstLocs_spec (experts : Nat → Int) (skip : Nat → Bool) (n : Nat) :
    (∀ e i, (firstLocs experts skip n).get? e = some i →
      i < n ∧ skip i = false ∧ experts i = e ∧ e ≠ -1) ∧
    ∀ i < n, skip i = false → experts i ≠ -1 →
      (firstLocs experts skip n).contains (experts i) = true := by
  induction n with
  | zero => exact ⟨fun e i h => (by cases h), fun i hi => absurd hi (Nat.not_lt_zero i)⟩
  | succ n ih =>
    obtain ⟨hget, hcontains⟩ := ih
    have hweak : ∀ e i, (firstLocs experts skip n).get? e = some i →
        i < n + 1 ∧ skip i = false ∧ experts i = e ∧ e ≠ -1 := fun e i h =>
      let ⟨hi, hrest⟩ := hget e i h
      ⟨Nat.lt_succ_of_lt hi, hrest⟩
    have hsucc : firstLocs experts skip (n + 1) =
        if skip n then firstLocs experts skip n
        else if experts n = -1 then firstLocs experts skip n
        else if (firstLocs experts skip n).contains (experts n) then firstLocs experts skip n
        else (firstLocs experts skip n).insert (experts n) n := by
      unfold firstLocs
      rw [range_succ, foldl_append, foldl_cons, foldl_nil]
    rw [hsucc]
    split
    · rename_i hskip
      refine ⟨hweak, fun i hi hnot hne => ?_⟩
      rcases Nat.lt_succ_iff_lt_or_eq.mp hi with hi | rfl
      · exact hcontains i hi hnot hne
      · rw [hskip] at hnot
        cases hnot
    · rename_i hskip
      split
      · rename_i hminus
        refine ⟨hweak, fun i hi hnot hne => ?_⟩
        rcases Nat.lt_succ_iff_lt_or_eq.mp hi with hi | rfl
        · exact hcontains i hi hnot hne
        · exact absurd hminus hne
      · rename_i hminus
        split
        · rename_i hin
          refine ⟨hweak, fun i hi hnot hne => ?_⟩
          rcases Nat.lt_succ_iff_lt_or_eq.mp hi with hi | rfl
          · exact hcontains i hi hnot hne
          · exact hin
        · refine ⟨fun e i h => ?_, fun i hi hnot hne => ?_⟩
          · rw [PyDict.get?_insert] at h
            split at h
            · rename_i heq
              cases h
              exact ⟨Nat.lt_succ_self n, by simpa using hskip, heq.symm, heq ▸ hminus⟩
            · exact hweak e i h
          · rw [PyDict.contains_insert]
            rcases Nat.lt_succ_iff_lt_or_eq.mp hi with hi | rfl
            · rw [hcontains i hi hnot hne, Bool.or_true]
            · simp

end Locs

theorem mem_sortedItems {d : PyDict Int Nat} {e : Int} {i : Nat} :
    (e, i) ∈ sortedItems d ↔ d.get? e = some i := by
  unfold sortedItems
  rw [mem_mergeSort, PyDict.mem_entries_iff]

/-- The experts come in increasing order. -/
theorem pairwise_sortedItems (d : PyDict Int Nat) :
    ((sortedItems d).map Prod.fst).Pairwise (· < ·) := by
  have hle : (sortedItems d).Pairwise fun a b => decide (a.1 ≤ b.1) = true :=
    pairwise_mergeSort (fun a b c hab hbc => by simp at *; omega)
      (fun a b => by simp; omega) d.entries
  have hnodup : ((sortedItems d).map Prod.fst).Nodup := by
    unfold sortedItems
    exact ((mergeSort_perm d.entries _).map Prod.fst).nodup_iff.mpr d.nodup
  have hle' : ((sortedItems d).map Prod.fst).Pairwise (· ≤ ·) :=
    pairwise_map.mpr (hle.imp fun h => of_decide_eq_true h)
  exact (hle'.and hnodup).imp fun h => lt_of_le_of_ne h.1 h.2

theorem mem_map_sortedItems {d : PyDict Int Nat} {e : Int} :
    e ∈ (sortedItems d).map Prod.fst ↔ ∃ i, d.get? e = some i := by
  rw [mem_map]
  constructor
  · rintro ⟨⟨e, i⟩, hmem, rfl⟩
    exact ⟨i, mem_sortedItems.mp hmem⟩
  · rintro ⟨i, hi⟩
    exact ⟨(e, i), mem_sortedItems.mpr hi, rfl⟩

section Copies
variable {ω : Type} {m : ExpertMaps} {numWeights r : Nat} {weights : Weights ω}

theorem mem_slotPairs {n src dst : Nat} : (src, dst) ∈ slotPairs n ↔ src < n ∧ dst < n := by
  unfold slotPairs
  simp

/-- What the copies inside a rank do: a slot that is marked stays as it is, one that gets marked
has the rows of a slot with its expert, and for one that is not marked there is none. -/
structure Copied (m : ExpertMaps) (numWeights r : Nat) (weights : Weights ω)
    (pairs : List (Nat × Nat)) (c c' : LocalCopies ω) : Prop where
  keep : ∀ dst, c.isReceivedLocally dst = true → c'.isReceivedLocally dst = true ∧
    ∀ w, c'.buffer w dst = c.buffer w dst
  copied : ∀ dst, c.isReceivedLocally dst = false → c'.isReceivedLocally dst = true →
    ∃ src, (src, dst) ∈ pairs ∧ m.old r src = m.new r dst ∧ m.new r dst ≠ -1 ∧
      ∀ w < numWeights, c'.buffer w dst = weights w src
  missing : ∀ dst, c'.isReceivedLocally dst = false → ∀ src, (src, dst) ∈ pairs →
    m.new r dst ≠ -1 → m.old r src ≠ m.new r dst

theorem copyLocally_spec (c : LocalCopies ω) (pair : Nat × Nat) :
    Copied m numWeights r weights [pair] c (copyLocally m numWeights r weights c pair) := by
  obtain ⟨src, dst⟩ := pair
  unfold copyLocally
  split
  · rename_i hmarked
    refine ⟨fun _ h => ⟨h, fun _ => rfl⟩, fun _ h h' => absurd (h.symm.trans h') (by decide),
      fun dst' h src' hmem => ?_⟩
    rw [mem_singleton, Prod.mk.injEq] at hmem
    rw [hmem.2, hmarked] at h
    cases h
  · rename_i hmarked
    split
    · rename_i hminus
      refine ⟨fun _ h => ⟨h, fun _ => rfl⟩, fun _ h h' => absurd (h.symm.trans h') (by decide),
        fun dst' h src' hmem hne heq => ?_⟩
      rw [mem_singleton, Prod.mk.injEq] at hmem
      rw [hmem.1, hmem.2] at heq
      rw [hmem.2] at hne
      dsimp only at hminus
      omega
    · rename_i hminus
      rw [not_or] at hminus
      split
      · rename_i heq
        dsimp only at hmarked hminus heq
        refine ⟨fun dst' h => ?_, fun dst' h h' => ?_, fun dst' h src' hmem => ?_⟩
        · have hne : dst' ≠ dst := fun h' => hmarked (h' ▸ h)
          exact ⟨(Function.update_of_ne hne ..).trans h,
            fun w => if_neg fun hc => hne hc.2⟩
        · by_cases hdst : dst' = dst
          · subst hdst
            exact ⟨src, mem_singleton_self _, heq, hminus.2,
              fun w hw => if_pos ⟨hw, rfl⟩⟩
          · have := (Function.update_of_ne hdst true c.isReceivedLocally).symm.trans h'
            rw [h] at this
            cases this
        · rw [mem_singleton, Prod.mk.injEq] at hmem
          rw [hmem.2] at h
          have := (Function.update_self dst true c.isReceivedLocally).symm.trans h
          cases this
      · rename_i hne
        refine ⟨fun _ h => ⟨h, fun _ => rfl⟩, fun _ h h' => absurd (h.symm.trans h') (by decide),
          fun dst' h src' hmem _ => ?_⟩
        rw [mem_singleton, Prod.mk.injEq] at hmem
        rw [hmem.1, hmem.2]
        exact hne

theorem Copied.trans {pairs pairs' : List (Nat × Nat)} {c c1 c' : LocalCopies ω}
    (h : Copied m numWeights r weights pairs c c1)
    (h' : Copied m numWeights r weights pairs' c1 c') :
    Copied m numWeights r weights (pairs ++ pairs') c c' := by
  refine ⟨fun dst hmarked => ?_, fun dst hnot hmarked => ?_, fun dst hnot src hmem => ?_⟩
  · obtain ⟨hmarked1, hsame1⟩ := h.keep dst hmarked
    obtain ⟨hmarked', hsame'⟩ := h'.keep dst hmarked1
    exact ⟨hmarked', fun w => (hsame' w).trans (hsame1 w)⟩
  · cases hmarked1 : c1.isReceivedLocally dst with
    | true =>
      obtain ⟨src, hmem, heq, hne, hrows⟩ := h.copied dst hnot hmarked1
      exact ⟨src, mem_append_left _ hmem, heq, hne,
        fun w hw => ((h'.keep dst hmarked1).2 w).trans (hrows w hw)⟩
    | false =>
      obtain ⟨src, hmem, hrest⟩ := h'.copied dst hmarked1 hmarked
      exact ⟨src, mem_append_right _ hmem, hrest⟩
  · rcases mem_append.mp hmem with hmem | hmem
    · refine h.missing dst ?_ src hmem
      cases hmarked1 : c1.isReceivedLocally dst with
      | false => rfl
      | true =>
        rw [(h'.keep dst hmarked1).1] at hnot
        cases hnot
    · exact h'.missing dst hnot src hmem

theorem foldl_copyLocally (pairs : List (Nat × Nat)) (c : LocalCopies ω) :
    Copied m numWeights r weights pairs c (pairs.foldl (copyLocally m numWeights r weights) c) := by
  induction pairs generalizing c with
  | nil =>
    exact ⟨fun _ h => ⟨h, fun _ => rfl⟩, fun _ h h' => absurd (h.symm.trans h') (by decide),
      fun _ _ _ hmem => absurd hmem not_mem_nil⟩
  | cons pair pairs ih => exact (copyLocally_spec c pair).trans (ih _)

end Copies

/-! ### The messages -/

theorem mapM_eq_ok {ε α β : Type} {f : α → Except ε β} {g : α → β} (l : List α)
    (h : ∀ x ∈ l, f x = .ok (g x)) : l.mapM f = .ok (l.map g) := by
  induction l with
  | nil => rfl
  | cons x l ih =>
    rw [mapM_cons, h x mem_cons_self,
      except_ok_bind, ih fun y hy => h y (mem_cons_of_mem x hy), except_ok_bind]
    rfl

/-- The ranks that a rank sends an expert to. -/
def dstsOf (m : ExpertMaps) (s : Nat) (e : Int) : List Nat :=
  match recvRanks (getEpRanksWithExpert e m).1 (getEpRanksWithExpert e m).2 s with
  | .ok dsts => dsts
  | .error _ => []

/-- The rank that a rank gets an expert from. -/
def srcOf (m : ExpertMaps) (d : Nat) (e : Int) : Nat :=
  match srcRank (getEpRanksWithExpert e m).1 (getEpRanksWithExpert e m).2 d with
  | .ok src => src
  | .error _ => 0

section Ranks
variable {m : ExpertMaps} {s d : Nat} {e : Int}

theorem sendOps_eq (numWeights : Nat) (hs : s < m.epSize) {src : Nat} (hheld : Holds m s e) :
    sendOps m numWeights s (e, src) = .ok ((dstsOf m s e).flatMap fun dst =>
      (List.range numWeights).map fun w => .isend w src dst) := by
  obtain ⟨dsts, hdsts, -⟩ := recvRanks_spec (nodup_ranksToSend m e) (nodup_ranksToRecv m e)
    ((mem_ranksToSend m).mpr ⟨hs, hheld⟩)
  unfold sendOps dstsOf
  dsimp only
  rw [hdsts]
  rfl

theorem nodup_dstsOf (hs : s < m.epSize) (hheld : Holds m s e) : (dstsOf m s e).Nodup := by
  obtain ⟨dsts, hdsts, hnodup, -⟩ := recvRanks_spec (nodup_ranksToSend m e)
    (nodup_ranksToRecv m e) ((mem_ranksToSend m).mpr ⟨hs, hheld⟩)
  unfold dstsOf
  rw [hdsts]
  exact hnodup

theorem srcOf_spec (hd : d < m.epSize) (hwants : Wants m d e) (hnot : ¬ Holds m d e)
    (hsource : ∃ s < m.epSize, Holds m s e) :
    srcRank (getEpRanksWithExpert e m).1 (getEpRanksWithExpert e m).2 d = .ok (srcOf m d e) ∧
      srcOf m d e < m.epSize ∧ Holds m (srcOf m d e) e := by
  obtain ⟨s, hs, hheld⟩ := hsource
  obtain ⟨src, hsrc, hok, -⟩ := srcRank_of_mem ((mem_ranksToSend m).mpr ⟨hs, hheld⟩)
    ((mem_ranksToRecv m).mpr ⟨hd, hwants, hnot⟩)
  have heq : srcOf m d e = src := by
    unfold srcOf
    rw [hok]
  rw [heq]
  exact ⟨hok, (mem_ranksToSend m).mp hsrc⟩

/-- A rank is sent an expert by exactly the rank it takes it from. -/
theorem mem_dstsOf_iff (hs : s < m.epSize) (hheld : Holds m s e) :
    d ∈ dstsOf m s e ↔ (d < m.epSize ∧ Wants m d e ∧ ¬ Holds m d e) ∧ srcOf m d e = s := by
  obtain ⟨dsts, hdsts, -, hmem⟩ := recvRanks_spec (nodup_ranksToSend m e)
    (nodup_ranksToRecv m e) ((mem_ranksToSend m).mpr ⟨hs, hheld⟩)
  have heq : dstsOf m s e = dsts := by
    unfold dstsOf
    rw [hdsts]
  rw [heq, hmem, mem_ranksToRecv]
  refine and_congr_right fun ⟨hd, hwants, hnot⟩ => ?_
  rw [(srcOf_spec hd hwants hnot ⟨s, hs, hheld⟩).1, Except.ok.injEq]

end Ranks

/-! #### Lists of messages -/

/-- The rows of some experts, weight by weight. -/
def expertRows (numWeights : Nat) (l : List Int) : List (Int × Nat) :=
  l.flatMap fun e => (List.range numWeights).map fun w => (e, w)

theorem sendsTo_append (d : Nat) (l l' : List P2POp) :
    sendsTo d (l ++ l') = sendsTo d l ++ sendsTo d l' := filterMap_append

theorem recvsFrom_append (s : Nat) (l l' : List P2POp) :
    recvsFrom s (l ++ l') = recvsFrom s l ++ recvsFrom s l' := filterMap_append

/-- The sends of an expert to one of its receivers. -/
theorem sendsTo_dsts (numWeights src d : Nat) {dsts : List Nat} (h : dsts.Nodup) :
    sendsTo d (dsts.flatMap fun dst => (List.range numWeights).map fun w => .isend w src dst) =
      if d ∈ dsts then (List.range numWeights).map fun w => (w, src) else [] := by
  have hone : ∀ dst, sendsTo d ((List.range numWeights).map fun w => .isend w src dst) =
      if dst = d then (List.range numWeights).map fun w => (w, src) else [] := by
    intro dst
    unfold sendsTo
    rw [filterMap_map]
    by_cases hd : dst = d
    · simp [hd, filterMap_eq_map']
    · simp [hd]
  induction dsts with
  | nil => rfl
  | cons dst dsts ih =>
    obtain ⟨hnot, hnodup⟩ := nodup_cons.mp h
    rw [flatMap_cons, sendsTo_append, hone, ih hnodup]
    by_cases hd : dst = d
    · subst hd
      rw [if_pos rfl, if_neg hnot, if_pos mem_cons_self, append_nil]
    · rw [if_neg hd, nil_append]
      simp only [mem_cons, Ne.symm hd, false_or]

/-- The sends of some experts to a peer. -/
theorem sendsTo_items (numWeights d : Nat) (dsts : Int → List Nat) {items : List (Int × Nat)}
    (h : ∀ item ∈ items, (dsts item.1).Nodup) :
    sendsTo d (items.map fun item => (dsts item.1).flatMap fun dst =>
      (List.range numWeights).map fun w => P2POp.isend w item.2 dst).flatten =
      (items.filter fun item => d ∈ dsts item.1).flatMap fun item =>
        (List.range numWeights).map fun w => (w, item.2) := by
  induction items with
  | nil => rfl
  | cons item items ih =>
    rw [map_cons, flatten_cons, sendsTo_append,
      sendsTo_dsts numWeights item.2 d (h item mem_cons_self),
      ih fun item' hmem => h item' (mem_cons_of_mem item hmem), filter_cons]
    by_cases hd : d ∈ dsts item.1
    · rw [if_pos hd, if_pos (decide_eq_true hd), flatMap_cons]
    · rw [if_neg hd, if_neg (by simpa using hd), nil_append]

/-- The receives of some experts from a peer. -/
theorem recvsFrom_items (numWeights s : Nat) (src : Int → Nat) (items : List (Int × Nat)) :
    recvsFrom s (items.map fun item =>
      (List.range numWeights).map fun w => P2POp.irecv w item.2 (src item.1)).flatten =
      (items.filter fun item => src item.1 = s).flatMap fun item =>
        (List.range numWeights).map fun w => (w, item.2) := by
  induction items with
  | nil => rfl
  | cons item items ih =>
    have hone : recvsFrom s ((List.range numWeights).map fun w =>
        P2POp.irecv w item.2 (src item.1)) =
        if src item.1 = s then (List.range numWeights).map fun w => (w, item.2) else [] := by
      unfold recvsFrom
      rw [filterMap_map]
      by_cases hs : src item.1 = s
      · simp [hs, filterMap_eq_map']
      · simp [hs]
    rw [map_cons, flatten_cons, recvsFrom_append, hone, ih, filter_cons]
    by_cases hs : src item.1 = s
    · rw [if_pos hs, if_pos (decide_eq_true hs), flatMap_cons]
    · rw [if_neg hs, if_neg (by simpa using hs), nil_append]

theorem sendsTo_recvs (numWeights d : Nat) (src : Int → Nat) (items : List (Int × Nat)) :
    sendsTo d (items.map fun item =>
      (List.range numWeights).map fun w => P2POp.irecv w item.2 (src item.1)).flatten = [] := by
  unfold sendsTo
  rw [filterMap_eq_nil_iff]
  intro op hop
  obtain ⟨l, hl, hop⟩ := mem_flatten.mp hop
  obtain ⟨item, -, rfl⟩ := mem_map.mp hl
  obtain ⟨w, -, rfl⟩ := mem_map.mp hop
  rfl

theorem recvsFrom_sends (numWeights s : Nat) (dsts : Int → List Nat) (items : List (Int × Nat)) :
    recvsFrom s (items.map fun item => (dsts item.1).flatMap fun dst =>
      (List.range numWeights).map fun w => P2POp.isend w item.2 dst).flatten = [] := by
  unfold recvsFrom
  rw [filterMap_eq_nil_iff]
  intro op hop
  obtain ⟨l, hl, hop⟩ := mem_flatten.mp hop
  obtain ⟨item, -, rfl⟩ := mem_map.mp hl
  obtain ⟨dst, -, hop⟩ := mem_flatMap.mp hop
  obtain ⟨w, -, rfl⟩ := mem_map.mp hop
  rfl

/-- The rows of items, by the experts of their slots. -/
theorem map_items (numWeights : Nat) (expert : Nat → Int) (p : Int → Prop) [DecidablePred p]
    {items : List (Int × Nat)} (h : ∀ item ∈ items, expert item.2 = item.1) :
    ((items.filter fun item => p item.1).flatMap fun item =>
      (List.range numWeights).map fun w => (w, item.2)).map (fun row => (expert row.2, row.1)) =
      expertRows numWeights ((items.map Prod.fst).filter fun e => p e) := by
  unfold expertRows
  induction items with
  | nil => rfl
  | cons item items ih =>
    have hrest := ih fun item' hmem => h item' (mem_cons_of_mem item hmem)
    rw [map_cons, filter_cons, filter_cons]
    by_cases hp : p item.1
    · rw [if_pos (decide_eq_true hp), if_pos (decide_eq_true hp), flatMap_cons,
        flatMap_cons, map_append, hrest, map_map]
      congr 1
      refine map_congr_left fun w _ => ?_
      simp [h item mem_cons_self]
    · rw [if_neg (by simpa using hp), if_neg (by simpa using hp), hrest]

/-! #### The messages of a rank -/

section Result
variable {ω : Type} (m : ExpertMaps) (numWeights : Nat) (r : Nat) (weights buffer : Weights ω)

/-- The copies inside a rank. -/
def localCopies : LocalCopies ω :=
  (slotPairs m.numLocalExperts).foldl (copyLocally m numWeights r weights)
    { isReceivedLocally := isUnchanged m r
      buffer }

/-- `experts_recv_loc` after the copies. -/
def recvLoc : PyDict Int Nat :=
  expertsRecvLoc m r (localCopies m numWeights r weights buffer).isReceivedLocally

/-- What `move_to_buffer` gives when every expert has a sender. -/
def moveResult : MoveResult ω where
  buffer := (localCopies m numWeights r weights buffer).buffer
  p2pOps := ((sortedItems (expertsSendLoc m r)).map fun item =>
      (dstsOf m r item.1).flatMap fun dst =>
        (List.range numWeights).map fun w => P2POp.isend w item.2 dst).flatten ++
    ((sortedItems (recvLoc m numWeights r weights buffer)).map fun item =>
      (List.range numWeights).map fun w => P2POp.irecv w item.2 (srcOf m r item.1)).flatten
  isUnchanged := isUnchanged m r
  isReceivedLocally := (localCopies m numWeights r weights buffer).isReceivedLocally
  expertsRecvLoc := recvLoc m numWeights r weights buffer

theorem copied_localCopies : Copied m numWeights r weights (slotPairs m.numLocalExperts)
    { isReceivedLocally := isUnchanged m r
      buffer } (localCopies m numWeights r weights buffer) := foldl_copyLocally _ _

/-- An expert is sent when the rank has it. -/
theorem get?_expertsSendLoc {e : Int} :
    (∃ i, (expertsSendLoc m r).get? e = some i) ↔ e ≠ -1 ∧ Holds m r e := by
  obtain ⟨hget, hcontains⟩ := firstLocs_spec (m.old r) (fun _ => false) m.numLocalExperts
  constructor
  · rintro ⟨i, hi⟩
    obtain ⟨hlt, -, heq, hne⟩ := hget e i hi
    exact ⟨hne, i, hlt, heq⟩
  · rintro ⟨hne, i, hlt, rfl⟩
    exact Option.isSome_iff_exists.mp (hcontains i hlt rfl hne)

/-- A slot that is not received locally has an expert that the rank does not have yet. -/
theorem not_holds {dst : Nat} (hdst : dst < m.numLocalExperts) (hne : m.new r dst ≠ -1)
    (hnot : (localCopies m numWeights r weights buffer).isReceivedLocally dst = false) :
    ¬ Holds m r (m.new r dst) := by
  rintro ⟨src, hsrc, heq⟩
  exact (copied_localCopies m numWeights r weights buffer).missing dst hnot src
    (mem_slotPairs.mpr ⟨hsrc, hdst⟩) hne heq

/-- An expert is received when the rank wants it and does not have it. -/
theorem get?_recvLoc {e : Int} : (∃ i, (recvLoc m numWeights r weights buffer).get? e = some i) ↔
      e ≠ -1 ∧ Wants m r e ∧ ¬ Holds m r e := by
  obtain ⟨hget, hcontains⟩ := firstLocs_spec (m.new r)
    (localCopies m numWeights r weights buffer).isReceivedLocally m.numLocalExperts
  constructor
  · rintro ⟨i, hi⟩
    obtain ⟨hlt, hnot, rfl, hne⟩ := hget e i hi
    exact ⟨hne, ⟨i, hlt, rfl⟩, not_holds m numWeights r weights buffer hlt hne hnot⟩
  · rintro ⟨hne, ⟨i, hlt, rfl⟩, hnot⟩
    refine Option.isSome_iff_exists.mp (hcontains i hlt ?_ hne)
    by_contra hmarked
    rw [Bool.not_eq_false] at hmarked
    -- Otherwise a slot of the rank has the expert.
    have hcopied := copied_localCopies m numWeights r weights buffer
    cases hunchanged : isUnchanged m r i with
    | true => exact hnot ⟨i, hlt, of_decide_eq_true hunchanged⟩
    | false =>
      obtain ⟨src, hmem, heq, -⟩ := hcopied.copied i hunchanged hmarked
      exact hnot ⟨src, (mem_slotPairs.mp hmem).1, heq⟩

/-- Every expert of the new map has a rank that holds it. -/
def Sourced (m : ExpertMaps) : Prop :=
  ∀ e ≠ -1, (∃ d < m.epSize, Wants m d e) → ∃ s < m.epSize, Holds m s e

variable {m r} in
theorem moveToBuffer_eq (hr : r < m.epSize) (hsourced : Sourced m) :
    moveToBuffer m numWeights r weights buffer =
      .ok (moveResult m numWeights r weights buffer) := by
  have hsends : (sortedItems (expertsSendLoc m r)).mapM (sendOps m numWeights r) =
      .ok ((sortedItems (expertsSendLoc m r)).map fun item =>
        (dstsOf m r item.1).flatMap fun dst =>
          (List.range numWeights).map fun w => P2POp.isend w item.2 dst) := by
    refine mapM_eq_ok _ fun item hitem => ?_
    obtain ⟨-, hheld⟩ := (get?_expertsSendLoc m r).mp ⟨item.2, mem_sortedItems.mp hitem⟩
    exact sendOps_eq numWeights hr hheld
  have hrecvs : (sortedItems (recvLoc m numWeights r weights buffer)).mapM
      (recvOps m numWeights r) =
      .ok ((sortedItems (recvLoc m numWeights r weights buffer)).map fun item =>
        (List.range numWeights).map fun w => P2POp.irecv w item.2 (srcOf m r item.1)) := by
    refine mapM_eq_ok _ fun item hitem => ?_
    obtain ⟨hne, hwants, hnot⟩ :=
      (get?_recvLoc m numWeights r weights buffer).mp ⟨item.2, mem_sortedItems.mp hitem⟩
    unfold recvOps
    dsimp only
    rw [(srcOf_spec hr hwants hnot (hsourced _ hne ⟨r, hr, hwants⟩)).1]
    rfl
  unfold moveToBuffer
  dsimp only
  rw [hsends, except_ok_bind]
  unfold recvLoc localCopies at hrecvs
  rw [hrecvs]
  rfl

/-- The experts of the rows that a rank sends to a peer, with the number of the weight. -/
def sentExperts (m : ExpertMaps) (s d : Nat) (ops : List P2POp) : List (Int × Nat) :=
  (sendsTo d ops).map fun row => (m.old s row.2, row.1)

/-- The experts of the rows that a rank receives from a peer. -/
def receivedExperts (m : ExpertMaps) (d s : Nat) (ops : List P2POp) : List (Int × Nat) :=
  (recvsFrom s ops).map fun row => (m.new d row.2, row.1)

variable {m r} in
theorem sentExperts_moveResult (hr : r < m.epSize) (d : Nat) :
    sentExperts m r d (moveResult m numWeights r weights buffer).p2pOps =
      expertRows numWeights (((sortedItems (expertsSendLoc m r)).map Prod.fst).filter fun e =>
        d ∈ dstsOf m r e) := by
  have hitems := fun item (hitem : item ∈ sortedItems (expertsSendLoc m r)) =>
    (get?_expertsSendLoc m r).mp ⟨item.2, mem_sortedItems.mp hitem⟩
  unfold sentExperts moveResult
  dsimp only
  rw [sendsTo_append, sendsTo_recvs, append_nil, sendsTo_items numWeights d (dstsOf m r)
    fun item hitem => nodup_dstsOf hr (hitems item hitem).2]
  refine map_items numWeights (m.old r) (fun e => d ∈ dstsOf m r e) fun item hitem => ?_
  exact ((firstLocs_spec (m.old r) (fun _ => false) m.numLocalExperts).1 _ _
    (mem_sortedItems.mp hitem)).2.2.1

theorem receivedExperts_moveResult (s : Nat) :
    receivedExperts m r s (moveResult m numWeights r weights buffer).p2pOps = expertRows numWeights
        (((sortedItems (recvLoc m numWeights r weights buffer)).map Prod.fst).filter fun e =>
          srcOf m r e = s) := by
  unfold receivedExperts moveResult
  dsimp only
  rw [recvsFrom_append, recvsFrom_sends, nil_append, recvsFrom_items]
  refine map_items numWeights (m.new r) (fun e => srcOf m r e = s) fun item hitem => ?_
  exact ((firstLocs_spec (m.new r) _ m.numLocalExperts).1 _ _ (mem_sortedItems.mp hitem)).2.2.1

end Result

/-- What a rank sends to another is what that one receives, in the same order. -/
theorem sentExperts_eq_receivedExperts {ω : Type} {m : ExpertMaps} (numWeights : Nat) {s d : Nat}
    (weights buffers : Nat → Weights ω) (hs : s < m.epSize) (hd : d < m.epSize)
    (hsourced : Sourced m) :
    sentExperts m s d (moveResult m numWeights s (weights s) (buffers s)).p2pOps =
      receivedExperts m d s (moveResult m numWeights d (weights d) (buffers d)).p2pOps := by
  rw [sentExperts_moveResult numWeights (weights s) (buffers s) hs d, receivedExperts_moveResult]
  congr 1
  refine List.Pairwise.eq_of_mem_iff ((pairwise_sortedItems _).filter _)
    ((pairwise_sortedItems _).filter _) fun e => ?_
  rw [mem_filter, mem_filter, decide_eq_true_iff, decide_eq_true_iff,
    mem_map_sortedItems, mem_map_sortedItems, get?_expertsSendLoc, get?_recvLoc]
  constructor
  · rintro ⟨⟨hne, hheld⟩, hmem⟩
    obtain ⟨⟨-, hwants, hnot⟩, hsrc⟩ := (mem_dstsOf_iff hs hheld).mp hmem
    exact ⟨⟨hne, hwants, hnot⟩, hsrc⟩
  · rintro ⟨⟨hne, hwants, hnot⟩, hsrc⟩
    obtain ⟨-, -, hheld⟩ := srcOf_spec hd hwants hnot (hsourced e hne ⟨d, hd, hwants⟩)
    rw [hsrc] at hheld
    exact ⟨⟨hne, hheld⟩, (mem_dstsOf_iff hs hheld).mpr ⟨⟨hd, hwants, hnot⟩, hsrc⟩⟩

/-! ### The buffer and the slots -/

section Place
variable {ω : Type}

/-- The rows that a rank receives. -/
def recvRows (ops : List P2POp) : List (Nat × Nat) :=
  ops.filterMap fun
    | .isend .. => none
    | .irecv w slot _ => some (w, slot)

/-- When the messages of each peer are those that are waited for, all receives get theirs. -/
theorem receive_eq_some (f : Nat → Nat → ω) (ops : List P2POp) (messages : Nat → List ω)
    (buffer : Weights ω)
    (h : ∀ peer, (recvsFrom peer ops).map (fun row => f row.1 row.2) <+: messages peer) :
    ∃ buffer', receive ops messages buffer = some buffer' ∧
      ∀ w i, buffer' w i = if (w, i) ∈ recvRows ops then f w i else buffer w i := by
  induction ops generalizing messages buffer with
  | nil => exact ⟨buffer, rfl, fun w i => rfl⟩
  | cons op ops ih =>
    cases op with
    | isend w slot peer => exact ih messages buffer h
    | irecv w slot src =>
      have hsrc : recvsFrom src (.irecv w slot src :: ops) = (w, slot) :: recvsFrom src ops := by
        simp [recvsFrom]
      have hmessages := h src
      rw [hsrc, map_cons] at hmessages
      obtain ⟨rest, hrest⟩ := hmessages
      rw [cons_append] at hrest
      obtain ⟨buffer', hreceive, hrows⟩ := ih (Function.update messages src
          ((recvsFrom src ops).map (fun row => f row.1 row.2) ++ rest))
        (Function.update buffer w (Function.update (buffer w) slot (f w slot))) (by
          intro peer
          rw [Function.update_apply]
          split
          · rename_i heq
            rw [heq]
            exact prefix_append _ _
          · rename_i hne
            have hpeer : recvsFrom peer (.irecv w slot src :: ops) = recvsFrom peer ops := by
              simp [recvsFrom, Ne.symm hne]
            rw [← hpeer]
            exact h peer)
      refine ⟨buffer', ?_, fun w' i => ?_⟩
      · unfold receive
        rw [← hrest]
        exact hreceive
      · rw [hrows]
        have hmem : (w', i) ∈ recvRows (.irecv w slot src :: ops) ↔
            (w', i) = (w, slot) ∨ (w', i) ∈ recvRows ops := by
          simp [recvRows]
        by_cases hin : (w', i) ∈ recvRows ops
        · rw [if_pos hin, if_pos (hmem.mpr (.inr hin))]
        · rw [if_neg hin]
          by_cases heq : (w', i) = (w, slot)
          · rw [if_pos (hmem.mpr (.inl heq))]
            cases heq
            simp
          · rw [if_neg fun hc => (hmem.mp hc).elim heq hin, Function.update_apply]
            split
            · rename_i hw
              subst hw
              exact Function.update_of_ne (fun hi => heq (by rw [hi])) ..
            · rfl

variable (m : ExpertMaps) (numWeights : Nat) (r : Nat) (weights buffer : Weights ω)

theorem mem_recvRows_moveResult {w i : Nat} :
    (w, i) ∈ recvRows (moveResult m numWeights r weights buffer).p2pOps ↔
      w < numWeights ∧ ∃ e, (recvLoc m numWeights r weights buffer).get? e = some i := by
  unfold recvRows moveResult
  simp only [mem_filterMap, mem_append, mem_flatten, mem_map]
  constructor
  · rintro ⟨op, ⟨l, ⟨item, hitem, rfl⟩, hop⟩ | ⟨l, ⟨item, hitem, rfl⟩, hop⟩, hrow⟩
    · obtain ⟨dst, -, hop⟩ := mem_flatMap.mp hop
      obtain ⟨w', -, rfl⟩ := mem_map.mp hop
      cases hrow
    · obtain ⟨w', hw', rfl⟩ := mem_map.mp hop
      cases hrow
      exact ⟨mem_range.mp hw', item.1, mem_sortedItems.mp hitem⟩
  · rintro ⟨hw, e, he⟩
    exact ⟨.irecv w i (srcOf m r e), .inr ⟨_, ⟨(e, i), mem_sortedItems.mpr he, rfl⟩,
      mem_map.mpr ⟨w, mem_range.mpr hw, rfl⟩⟩, rfl⟩

/-- The copies from the buffer, slot by slot. -/
theorem moveFromBuffer_spec {result : MoveResult ω} {value : Int → Nat → ω}
    (hstep : ∀ i < m.numLocalExperts, ∀ current : Weights ω,
      (∀ w, current w i = weights w i) →
      ∃ next, copySlot m numWeights r result buffer current i = .ok next ∧
        (∀ w j, j ≠ i → next w j = current w j) ∧
        (m.new r i ≠ -1 → ∀ w < numWeights, next w i = value (m.new r i) w)) :
    ∃ weights', moveFromBuffer m numWeights r result buffer weights = .ok weights' ∧
      ∀ i < m.numLocalExperts, m.new r i ≠ -1 →
        ∀ w < numWeights, weights' w i = value (m.new r i) w := by
  have hprefix : ∀ k ≤ m.numLocalExperts, ∃ current,
      (List.range k).foldlM (copySlot m numWeights r result buffer) weights = .ok current ∧
        (∀ i < k, m.new r i ≠ -1 → ∀ w < numWeights, current w i = value (m.new r i) w) ∧
        ∀ i ≥ k, ∀ w, current w i = weights w i := by
    intro k
    induction k with
    | zero => exact fun _ => ⟨weights, rfl, fun i hi => absurd hi (Nat.not_lt_zero i),
        fun _ _ _ => rfl⟩
    | succ k ih =>
      intro hk
      obtain ⟨current, hfold, hdone, hrest⟩ := ih (Nat.le_of_succ_le hk)
      obtain ⟨next, hnext, hothers, hslot⟩ := hstep k hk current (hrest k (Nat.le_refl k))
      refine ⟨next, ?_, fun i hi hne w hw => ?_, fun i hi w => ?_⟩
      · rw [range_succ, foldlM_append, hfold, except_ok_bind, foldlM_cons, hnext]
        rfl
      · rcases Nat.lt_succ_iff_lt_or_eq.mp hi with hi | rfl
        · rw [hothers w i (Nat.ne_of_lt hi)]
          exact hdone i hi hne w hw
        · exact hslot hne w hw
      · rw [hothers w i (by omega)]
        exact hrest i (by omega) w
  obtain ⟨weights', hfold, hdone, -⟩ := hprefix m.numLocalExperts (Nat.le_refl _)
  exact ⟨weights', hfold, hdone⟩

variable {m numWeights r weights buffer}

/-- Each slot gets the rows of its new expert. -/
theorem copySlot_spec {value : Int → Nat → ω} {received : Weights ω}
    (hheld : ∀ i < m.numLocalExperts, m.old r i ≠ -1 → ∀ w < numWeights,
      weights w i = value (m.old r i) w)
    (hreceived : ∀ w i, received w i =
      if (w, i) ∈ recvRows (moveResult m numWeights r weights buffer).p2pOps
      then value (m.new r i) w else (moveResult m numWeights r weights buffer).buffer w i)
    {i : Nat} (hi : i < m.numLocalExperts) {current : Weights ω}
    (hcurrent : ∀ w, current w i = weights w i) :
    ∃ next, copySlot m numWeights r (moveResult m numWeights r weights buffer) received current i =
        .ok next ∧ (∀ w j, j ≠ i → next w j = current w j) ∧
      (m.new r i ≠ -1 → ∀ w < numWeights, next w i = value (m.new r i) w) := by
  have hcopy : ∀ src, (∀ w < numWeights, received w src = value (m.new r i) w) →
      (∀ w j, j ≠ i → copyRows numWeights received src current i w j = current w j) ∧
      (m.new r i ≠ -1 → ∀ w < numWeights,
        copyRows numWeights received src current i w i = value (m.new r i) w) :=
    fun src hsrc => ⟨fun w j hj => if_neg fun hc => hj hc.2,
      fun _ w hw => (if_pos ⟨hw, rfl⟩).trans (hsrc w hw)⟩
  obtain ⟨hget, hcontains⟩ := firstLocs_spec (m.new r)
    (localCopies m numWeights r weights buffer).isReceivedLocally m.numLocalExperts
  unfold copySlot
  cases hunchanged : isUnchanged m r i with
  | true =>
    refine ⟨current, if_pos hunchanged, fun _ _ _ => rfl, fun hne w hw => ?_⟩
    have heq : m.old r i = m.new r i := of_decide_eq_true hunchanged
    rw [hcurrent, hheld i hi (heq ▸ hne) w hw, heq]
  | false =>
    rw [if_neg (by rw [show (moveResult m numWeights r weights buffer).isUnchanged i =
      isUnchanged m r i from rfl, hunchanged]; decide)]
    cases hmarked : (localCopies m numWeights r weights buffer).isReceivedLocally i with
    | true =>
      refine ⟨_, if_pos hmarked, hcopy i fun w hw => ?_⟩
      obtain ⟨src, hmem, heq, hne, hrows⟩ :=
        (copied_localCopies m numWeights r weights buffer).copied i hunchanged hmarked
      have hnot : (w, i) ∉ recvRows (moveResult m numWeights r weights buffer).p2pOps := by
        rw [mem_recvRows_moveResult]
        rintro ⟨-, e, he⟩
        have := (hget e i he).2.1
        rw [hmarked] at this
        cases this
      rw [hreceived, if_neg hnot]
      refine (hrows w hw).trans ?_
      rw [hheld src (mem_slotPairs.mp hmem).1 (heq ▸ hne) w hw, heq]
    | false =>
      rw [if_neg (by rw [show (moveResult m numWeights r weights buffer).isReceivedLocally i =
        (localCopies m numWeights r weights buffer).isReceivedLocally i from rfl, hmarked]
                     decide)]
      by_cases hminus : m.new r i = -1
      · exact ⟨current, if_pos hminus, fun _ _ _ => rfl, fun hne => absurd hminus hne⟩
      · obtain ⟨src, hsrc⟩ := Option.isSome_iff_exists.mp (hcontains i hi hmarked hminus)
        have hsrc' : (moveResult m numWeights r weights buffer).expertsRecvLoc.get?
            (m.new r i) = some src := hsrc
        dsimp only
        rw [if_neg hminus, hsrc']
        refine ⟨_, rfl, hcopy src fun w hw => ?_⟩
        rw [hreceived, if_pos ((mem_recvRows_moveResult m numWeights r weights buffer).mpr
          ⟨hw, _, hsrc⟩), (hget _ _ hsrc).2.2.1]

end Place

/-! ### The exchange -/

/-- The peer of a message. -/
def P2POp.peer : P2POp → Nat
  | .isend _ _ peer => peer
  | .irecv _ _ peer => peer

/-- What the ranks do in an exchange, where the weights of an expert are given by `value`. -/
structure ExchangeOk {ω : Type} (m : ExpertMaps) (numWeights : Nat) (value : Int → Nat → ω)
    (weights buffers : Nat → Weights ω) (moves : Nat → MoveResult ω) : Prop where
  issued : ∀ r < m.epSize, moveToBuffer m numWeights r (weights r) (buffers r) = .ok (moves r)
  peers : ∀ r < m.epSize, ∀ op ∈ (moves r).p2pOps, P2POp.peer op < m.epSize
  matched : ∀ s < m.epSize, ∀ d < m.epSize,
    sentExperts m s d (moves s).p2pOps = receivedExperts m d s (moves d).p2pOps
  received : ∀ d < m.epSize, ∀ e ≠ -1, Wants m d e → ¬ Holds m d e →
    ∃ s < m.epSize, Holds m s e ∧ ∀ s' < m.epSize, ∀ w < numWeights,
      (receivedExperts m d s' (moves d).p2pOps).count (e, w) = if s' = s then 1 else 0
  placed : ∀ d < m.epSize, ∃ received weights',
    batchIsendIrecv (fun r => (moves r).p2pOps) weights d (moves d).buffer = some received ∧
      moveFromBuffer m numWeights d (moves d) received (weights d) = .ok weights' ∧
      ∀ i < m.numLocalExperts, m.new d i ≠ -1 →
        ∀ w < numWeights, weights' w i = value (m.new d i) w

theorem nodup_expertRows (numWeights : Nat) {l : List Int} (h : l.Nodup) :
    (expertRows numWeights l).Nodup := by
  have hproduct : expertRows numWeights l = l.product (List.range numWeights) := rfl
  rw [hproduct]
  exact h.product nodup_range

theorem mem_expertRows {numWeights : Nat} {l : List Int} {e : Int} {w : Nat} :
    (e, w) ∈ expertRows numWeights l ↔ e ∈ l ∧ w < numWeights := by
  simp [expertRows]

section Exchange
variable {ω : Type} {m : ExpertMaps} {numWeights : Nat} {value : Int → Nat → ω}
  {weights buffers : Nat → Weights ω}

theorem peer_lt (hsourced : Sourced m) {r : Nat} (hr : r < m.epSize) :
    ∀ op ∈ (moveResult m numWeights r (weights r) (buffers r)).p2pOps,
      P2POp.peer op < m.epSize := by
  intro op hop
  rcases mem_append.mp hop with hop | hop
  · obtain ⟨l, hl, hop⟩ := mem_flatten.mp hop
    obtain ⟨item, hitem, rfl⟩ := mem_map.mp hl
    obtain ⟨dst, hdst, hop⟩ := mem_flatMap.mp hop
    obtain ⟨w, -, rfl⟩ := mem_map.mp hop
    obtain ⟨-, hheld⟩ := (get?_expertsSendLoc m r).mp ⟨_, mem_sortedItems.mp hitem⟩
    exact ((mem_dstsOf_iff hr hheld).mp hdst).1.1
  · obtain ⟨l, hl, hop⟩ := mem_flatten.mp hop
    obtain ⟨item, hitem, rfl⟩ := mem_map.mp hl
    obtain ⟨w, -, rfl⟩ := mem_map.mp hop
    obtain ⟨hne, hwants, hnot⟩ := (get?_recvLoc m numWeights r (weights r) (buffers r)).mp
      ⟨_, mem_sortedItems.mp hitem⟩
    exact (srcOf_spec hr hwants hnot (hsourced _ hne ⟨r, hr, hwants⟩)).2.1

/-- An expert that a rank needs comes from one rank. -/
theorem count_receivedExperts (hsourced : Sourced m) {d : Nat} (hd : d < m.epSize) {e : Int}
    (hne : e ≠ -1) (hwants : Wants m d e) (hnot : ¬ Holds m d e) :
    ∃ s < m.epSize, Holds m s e ∧ ∀ s' < m.epSize, ∀ w < numWeights,
      (receivedExperts m d s'
        (moveResult m numWeights d (weights d) (buffers d)).p2pOps).count (e, w) =
        if s' = s then 1 else 0 := by
  obtain ⟨-, hs, hheld⟩ := srcOf_spec hd hwants hnot (hsourced e hne ⟨d, hd, hwants⟩)
  refine ⟨_, hs, hheld, fun s' _ w hw => ?_⟩
  have hkeys := (pairwise_sortedItems (recvLoc m numWeights d (weights d) (buffers d))).imp
    fun h => ne_of_lt h
  rw [receivedExperts_moveResult, (nodup_expertRows numWeights (List.Nodup.filter _ hkeys)).count]
  have hmem : (e, w) ∈ expertRows numWeights
      (((sortedItems (recvLoc m numWeights d (weights d) (buffers d))).map Prod.fst).filter
        fun e => srcOf m d e = s') ↔ s' = srcOf m d e := by
    rw [mem_expertRows, mem_filter, mem_map_sortedItems, get?_recvLoc, decide_eq_true_iff]
    exact ⟨fun h => h.1.2.symm, fun h => ⟨⟨⟨hne, hwants, hnot⟩, h.symm⟩, hw⟩⟩
  by_cases heq : s' = srcOf m d e
  · rw [if_pos heq, if_pos (hmem.mpr heq)]
  · rw [if_neg heq, if_neg fun hc => heq (hmem.mp hc)]

/-- What a rank sends has the weights of its expert. -/
theorem sends_value (hheld : ∀ r < m.epSize, ∀ i < m.numLocalExperts, m.old r i ≠ -1 →
      ∀ w < numWeights, weights r w i = value (m.old r i) w) {s : Nat} (hs : s < m.epSize)
    (d : Nat) {row : Nat × Nat}
    (hrow : row ∈ sendsTo d (moveResult m numWeights s (weights s) (buffers s)).p2pOps) :
    weights s row.1 row.2 = value (m.old s row.2) row.1 := by
  unfold moveResult at hrow
  dsimp only at hrow
  rw [sendsTo_append, sendsTo_recvs, append_nil, sendsTo_items numWeights d (dstsOf m s)
    fun item hitem => nodup_dstsOf hs
      ((get?_expertsSendLoc m s).mp ⟨item.2, mem_sortedItems.mp hitem⟩).2] at hrow
  obtain ⟨item, hitem, hrow⟩ := mem_flatMap.mp hrow
  obtain ⟨w, hw, rfl⟩ := mem_map.mp hrow
  obtain ⟨hlt, -, heq, hne⟩ := (firstLocs_spec (m.old s) (fun _ => false) m.numLocalExperts).1 _ _
    (mem_sortedItems.mp (mem_filter.mp hitem).1)
  exact hheld s hs item.2 hlt (heq ▸ hne) w (mem_range.mp hw)

/-- The messages of a peer are the rows that the rank waits for. -/
theorem recvsFrom_messages (hsourced : Sourced m)
    (hheld : ∀ r < m.epSize, ∀ i < m.numLocalExperts, m.old r i ≠ -1 →
      ∀ w < numWeights, weights r w i = value (m.old r i) w) {d : Nat} (hd : d < m.epSize)
    (peer : Nat) :
    (recvsFrom peer (moveResult m numWeights d (weights d) (buffers d)).p2pOps).map
        (fun row => value (m.new d row.2) row.1) <+:
      (sendsTo d (moveResult m numWeights peer (weights peer) (buffers peer)).p2pOps).map
        fun row => weights peer row.1 row.2 := by
  by_cases hpeer : peer < m.epSize
  · have hmatched := congrArg (List.map fun row : Int × Nat => value row.1 row.2)
      (sentExperts_eq_receivedExperts numWeights weights buffers hpeer hd hsourced)
    unfold sentExperts receivedExperts at hmatched
    rw [map_map, map_map] at hmatched
    have hsent : (sendsTo d (moveResult m numWeights peer (weights peer) (buffers peer)).p2pOps).map
            (fun row => weights peer row.1 row.2) =
        (sendsTo d (moveResult m numWeights peer (weights peer) (buffers peer)).p2pOps).map
          fun row => value (m.old peer row.2) row.1 :=
      map_congr_left fun row hrow => sends_value hheld hpeer d hrow
    rw [hsent]
    exact hmatched ▸ prefix_refl _
  · have hnil : recvsFrom peer (moveResult m numWeights d (weights d) (buffers d)).p2pOps = [] := by
      unfold recvsFrom
      rw [filterMap_eq_nil_iff]
      intro op hop
      have hlt := peer_lt hsourced hd op hop
      cases op with
      | isend w slot dst => rfl
      | irecv w slot src =>
        have hne : src ≠ peer := by
          rintro rfl
          exact hpeer hlt
        exact if_neg hne
    rw [hnil]
    exact List.nil_prefix

/-- After the exchange each slot has the weights of its new expert, when the old map tells what the
slots have. -/
theorem exchange_experts (hwanted : ∀ e ∈ m.newIndices, e ≠ -1 → e ∈ m.oldIndices)
    (hheld : ∀ r < m.epSize, ∀ i < m.numLocalExperts, m.old r i ≠ -1 →
      ∀ w < numWeights, weights r w i = value (m.old r i) w) :
    ∃ moves, ExchangeOk m numWeights value weights buffers moves := by
  have hsourced : Sourced m := by
    rintro e hne ⟨d, hd, i, hi, heq⟩
    have hlt := slot_lt m hd hi
    rw [← m.newLength] at hlt
    have hnew : m.newIndices[idxLocalToGlobal i m.numLocalExperts d]? = some e := by
      unfold ExpertMaps.new at heq
      rw [getD_eq_getElem?_getD, List.getElem?_eq_getElem hlt, Option.getD_some] at heq
      rw [List.getElem?_eq_getElem hlt, heq]
    obtain ⟨j, hj⟩ := mem_iff_getElem?.mp (hwanted e (mem_of_getElem? hnew) hne)
    have hsend : j / m.numLocalExperts ∈ (getEpRanksWithExpert e m).1 :=
      ((ranksWithExpert_spec e _ _).2 _).mpr ⟨j, hj, rfl⟩
    exact ⟨_, (mem_ranksToSend m).mp hsend⟩
  refine ⟨fun r => moveResult m numWeights r (weights r) (buffers r), ?_⟩
  constructor
  case issued => exact fun r hr => moveToBuffer_eq numWeights (weights r) (buffers r) hr hsourced
  case peers => exact fun r hr => peer_lt hsourced hr
  case matched =>
    exact fun s hs d hd =>
      sentExperts_eq_receivedExperts numWeights weights buffers hs hd hsourced
  case received =>
    exact fun d hd e hne hwants hnot => count_receivedExperts hsourced hd hne hwants hnot
  case placed =>
    intro d hd
    obtain ⟨received, hreceive, hrows⟩ := receive_eq_some (fun w i => value (m.new d i) w)
      (moveResult m numWeights d (weights d) (buffers d)).p2pOps
      (fun src => (sendsTo d (moveResult m numWeights src (weights src) (buffers src)).p2pOps).map
          fun row => weights src row.1 row.2)
      (moveResult m numWeights d (weights d) (buffers d)).buffer
      (recvsFrom_messages hsourced hheld hd)
    obtain ⟨weights', hmove, hvalues⟩ := moveFromBuffer_spec m numWeights d (weights d) received
      fun i hi current hcurrent => copySlot_spec (hheld d hd) hrows hi hcurrent
    exact ⟨received, weights', hreceive, hmove, hvalues⟩

/-- Two ranks of two slots: the second slot of the first rank and the first one of the second rank
change places, and one rank has an expert twice. -/
def twoRanks : ExpertMaps where
  epSize := 2
  numLocalExperts := 2
  oldIndices := [0, 1, 2, 1]
  newIndices := [0, 2, 1, 1]
  oldLength := rfl
  newLength := rfl

theorem exchange_twoRanks : ∃ moves, ExchangeOk twoRanks 1 (fun e w => (e, w))
    (fun r w i => (twoRanks.old r i, w)) (fun _ _ _ => (0, 0)) moves :=
  exchange_experts (by decide) fun _ _ _ _ _ _ _ => rfl

end Exchange

end Vllm.Proofs.Distributed
