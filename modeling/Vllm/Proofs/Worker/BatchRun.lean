import Vllm.Proofs.Worker.BatchRows

/-!
# `Vllm.Proofs.Worker.BatchRun`: each row has what belongs to its request

A step removes requests, adds others, condenses the rows and swaps some of them.

* `Condensing`: the moves of `condense`, one after the other.
* `IdsOk`, `HolesOk`, `RowsOk`: the ids and their rows, the rows that are empty while requests are
  removed and added, and what the rows have.
* `CarriesRow`: the operations that carry along all that a row has.
* `consistent_of_run`: the rows after `condense` and any swaps.
-/

set_option autoImplicit false

namespace Vllm.Proofs.Worker

open Vllm.Lib Vllm.V1.Sample Vllm.V1.Worker Vllm.V1.Worker.InputBatch PyDict Function
open List hiding contains contains_insert

variable {ε γ : Type}

/-! ### The moves of `condense` -/

/-- The loop of `condense` from the row `last` down: it skips removed rows, moves the last request
to the lowest removed row, and stops when there is none below. -/
inductive Condensing : Nat → InputBatch ε γ → InputBatch ε γ → Prop where
  | empty {last : Nat} {b : InputBatch ε γ} (h : b.batchUpdateBuilder.removedIndices = []) :
      Condensing last b b
  | zero {b : InputBatch ε γ} (h : 0 ∈ b.batchUpdateBuilder.removedIndices) : Condensing 0 b b
  | done {last : Nat} {b : InputBatch ε γ}
      (h : ∀ x ∈ b.batchUpdateBuilder.removedIndices, last < x) : Condensing last b b
  | skip {last : Nat} {b b' : InputBatch ε γ}
      (h : last + 1 ∈ b.batchUpdateBuilder.removedIndices) (rest : Condensing last b b') :
      Condensing (last + 1) b b'
  | move {last e : Nat} {b b₁ b' : InputBatch ε γ} {builder : BatchUpdateBuilder}
      (hnot : last + 1 ∉ b.batchUpdateBuilder.removedIndices)
      (hpop : Popped b.batchUpdateBuilder e builder) (hlt : e < last + 1)
      (hmove : Moved ({ b with batchUpdateBuilder := builder } : InputBatch ε γ) (last + 1) e b₁)
      (rest : Condensing last b₁ b') : Condensing (last + 1) b b'

theorem condensing_of_loop {last : Nat} {b b' : InputBatch ε γ}
    (hsorted : SortedOk b.batchUpdateBuilder) (h : condenseLoop last b = .ok b') :
    Condensing last b b' := by
  induction last generalizing b with
  | zero =>
    unfold condenseLoop at h
    split at h
    · cases h
      exact .empty ‹_›
    · rename_i hne
      split at h
      · cases h
        exact .zero ‹_›
      · rename_i hnot
        obtain ⟨e, -, hpeek, hpop⟩ := popRemoved_spec hsorted hne
        rw [hpeek] at h
        dsimp only at h
        rw [if_pos (Nat.zero_le e)] at h
        cases h
        refine .done fun x hx => ?_
        rcases Nat.eq_zero_or_pos x with rfl | hpos
        · exact absurd hx hnot
        · exact hpos
  | succ last ih =>
    unfold condenseLoop at h
    split at h
    · cases h
      exact .empty ‹_›
    · rename_i hne
      split at h
      · exact .skip ‹_› (ih hsorted h)
      · rename_i hnot
        obtain ⟨e, hpopped, hpeek, hpop⟩ := popRemoved_spec hsorted hne
        rw [hpeek] at h
        dsimp only at h
        split at h
        · rename_i hle
          cases h
          refine .done fun x hx => ?_
          have hex := hpop.lowest x hx
          have hxne : x ≠ last + 1 := fun heq => hnot (heq ▸ hx)
          omega
        · rename_i hlt
          obtain ⟨b₁, hmove, h⟩ := bind_ok h
          have hmoved := moveRequest_spec (by omega) hmove
          refine .move hnot hpop (by omega) hmoved (ih ?_ h)
          intro hflag
          rw [hmoved.removed]
          rw [hmoved.sorted] at hflag
          exact hpop.sorted hflag

/-! ### The invariant -/

/-- The ids and their rows. -/
structure IdsOk (b : InputBatch ε γ) : Prop where
  inverse : ∀ id i, b.reqIdToIndex.get? id = some i ↔ b.reqIds[i]? = some (some id)
  outputs_length : b.reqOutputTokenIds.length = b.reqIds.length
  spec_length : b.reqIds.length ≤ b.specTokenIds.length
  spec_clear : ∀ j l, b.reqIds.length ≤ j → b.specTokenIds[j]? = some l → l = []
  sorted : SortedOk b.batchUpdateBuilder

/-- While requests are removed and added, the empty rows are those in the log. -/
structure HolesOk (b : InputBatch ε γ) : Prop where
  mem : ∀ i, b.reqIds[i]? = some none ↔ i ∈ b.batchUpdateBuilder.removedIndices
  nodup : b.batchUpdateBuilder.removedIndices.Nodup
  count : b.numReqs + b.batchUpdateBuilder.removedIndices.length = b.reqIds.length

/-- What the rows have, with what belongs to the requests beside it. -/
structure RowsOk (owned : String → Option (Row ε γ)) (b : InputBatch ε γ) : Prop where
  accepted : b.isPoolingModel = true → ∀ i, b.numAcceptedTokensCpu i = 1
  flags : b.isPoolingModel = false → ∀ i, b.logitsProcessingNeedsTokenIds i = false
  sparse : b.isPoolingModel = false → ∀ i, (∀ id, b.reqIds[i]? ≠ some (some id)) →
    b.generators.get? i = none ∧ b.badWordsTokenIds.get? i = none
  rows : ∀ i id, b.reqIds[i]? = some (some id) → owned id = some (b.rowAt i)

section Move
variable {owned : String → Option (Row ε γ)} {b b' : InputBatch ε γ} {last e : Nat}

/-- The rows after a move. -/
theorem Moved.getElem?_reqIds (h : Moved b last e b') :
    ∃ id, b.reqIds[last]? = some (some id) ∧ ∀ k, b'.reqIds[k]? =
      if k = last then some none else if k = e then some (some id) else b.reqIds[k]? := by
  obtain ⟨id, hlast, -, hreqIds⟩ := h.live
  have hlt := (List.getElem?_eq_some_iff.mp hlast).1
  refine ⟨id, hlast, fun k => ?_⟩
  rw [hreqIds]
  by_cases hk : k = last
  · rw [hk, List.getElem?_set_self (by rw [length_set]; exact hlt), if_pos rfl]
  · rw [List.getElem?_set_ne (Ne.symm hk), if_neg hk]
    by_cases hk' : k = e
    · rw [hk', List.getElem?_set_self h.lt, if_pos rfl]
    · rw [List.getElem?_set_ne (Ne.symm hk'), if_neg hk']

theorem Moved.length_reqIds (h : Moved b last e b') : b'.reqIds.length = b.reqIds.length := by
  obtain ⟨id, -, -, hreqIds⟩ := h.live
  rw [hreqIds, length_set, length_set]

theorem IdsOk.moved (hids : IdsOk b) (h : Moved b last e b') (hne : e ≠ last)
    (hhole : b.reqIds[e]? = some none) : IdsOk b' := by
  obtain ⟨id, hlast, hindex, hreqIds⟩ := h.live
  obtain ⟨id', hlast', hget⟩ := h.getElem?_reqIds
  obtain rfl : id = id' := by
    rw [hlast] at hlast'
    exact Option.some.inj (Option.some.inj hlast')
  have hlt := (List.getElem?_eq_some_iff.mp hlast).1
  constructor
  case inverse =>
    intro id' k
    rw [hindex, hget]
    by_cases hid : id' = id
    · subst hid
      rw [get?_insert_self]
      constructor
      · intro heq
        cases heq
        rw [if_neg hne, if_pos rfl]
      · intro heq
        split at heq
        · cases heq
        · rename_i hk
          split at heq
          · rename_i hk'
            rw [hk']
          · have hold := (hids.inverse _ k).mpr heq
            rw [(hids.inverse _ last).mpr hlast] at hold
            exact absurd (Option.some.inj hold).symm hk
    · rw [get?_insert_of_ne _ _ hid, hids.inverse]
      constructor
      · intro heq
        rw [if_neg, if_neg, heq]
        · rintro rfl
          rw [hhole] at heq
          cases heq
        · rintro rfl
          rw [hlast] at heq
          exact hid (Option.some.inj (Option.some.inj heq)).symm
      · intro heq
        split at heq
        · cases heq
        · split at heq
          · exact absurd (Option.some.inj (Option.some.inj heq)).symm hid
          · exact heq
  case outputs_length => rw [h.outputs_length, h.length_reqIds, hids.outputs_length]
  case spec_length =>
    rw [h.spec_length, h.length_reqIds]
    exact hids.spec_length
  case spec_clear =>
    intro j l hj hl
    rw [h.length_reqIds] at hj
    have hlt' := h.lt
    rw [h.spec_others j (by omega) (by omega)] at hl
    exact hids.spec_clear j l hj hl
  case sorted =>
    intro hflag
    rw [h.removed]
    rw [h.sorted] at hflag
    exact hids.sorted hflag

theorem RowsOk.moved (hrows : RowsOk owned b) (h : Moved b last e b') (hne : e ≠ last)
    (hhole : b.reqIds[e]? = some none)
    (hembeds : (b.reqPromptEmbeds.get? e).isSome → (b.reqPromptEmbeds.get? last).isSome)
    (hflag : b.isPoolingModel = true →
      b.logitsProcessingNeedsTokenIds e = b.logitsProcessingNeedsTokenIds last) :
    RowsOk owned b' := by
  obtain ⟨id, hlast, hget⟩ := h.getElem?_reqIds
  have hnot : ∀ id', b.reqIds[e]? ≠ some (some id') := by
    intro id' heq
    rw [hhole] at heq
    cases heq
  have hsparse : b.isPoolingModel = false →
      b.generators.get? e = none ∧ b.badWordsTokenIds.get? e = none :=
    fun hpool => hrows.sparse hpool e hnot
  have hflags : b.logitsProcessingNeedsTokenIds e = b.logitsProcessingNeedsTokenIds last := by
    cases hpool : b.isPoolingModel with
    | true => exact hflag hpool
    | false => rw [hrows.flags hpool, hrows.flags hpool]
  constructor
  case accepted =>
    intro hpool
    rw [h.pooling] at hpool
    rw [h.accepted hpool]
    exact hrows.accepted hpool
  case flags =>
    intro hpool
    rw [h.pooling] at hpool
    rw [h.flags]
    exact hrows.flags hpool
  case sparse =>
    intro hpool i hi
    rw [h.pooling] at hpool
    obtain ⟨hgen, hbad⟩ := h.sparse hpool
    rw [hgen, hbad, get?_moveDictValue _ hne (hsparse hpool).1,
      get?_moveDictValue _ hne (hsparse hpool).2]
    have hie : i ≠ e := by
      rintro rfl
      refine hi id ?_
      rw [hget, if_neg hne, if_pos rfl]
    rw [if_neg hie, if_neg hie]
    by_cases hil : i = last
    · rw [if_pos hil, if_pos hil]
      exact ⟨rfl, rfl⟩
    · rw [if_neg hil, if_neg hil]
      refine hrows.sparse hpool i fun id' heq => hi id' ?_
      rw [hget, if_neg hil, if_neg hie, heq]
  case rows =>
    intro i id' hi
    rw [hget] at hi
    split at hi
    · cases hi
    · rename_i hil
      split at hi
      · rename_i hie
        cases hi
        rw [hie, h.row hsparse hembeds hflags fun hpool => by
          rw [hrows.accepted hpool, hrows.accepted hpool]]
        exact hrows.rows last id hlast
      · rename_i hie
        rw [h.others i hie hil hsparse]
        exact hrows.rows i id' hi

end Move

/-! ### The loop of `condense` -/

/-- The loop has come down to the row `last`: no row above it has a request, and the empty rows
below are those that are left in the log. -/
structure Low (last : Nat) (b : InputBatch ε γ) : Prop where
  lt : last < b.reqIds.length
  above : ∀ j, last < j → ∀ id, b.reqIds[j]? ≠ some (some id)
  holes : ∀ j, j ≤ last → (b.reqIds[j]? = some none ↔ j ∈ b.batchUpdateBuilder.removedIndices)
  nodup : b.batchUpdateBuilder.removedIndices.Nodup
  count : b.numReqs + b.batchUpdateBuilder.removedIndices.countP (· ≤ last) = last + 1

section Loop
variable {last e : Nat} {b b₁ b' : InputBatch ε γ} {builder : BatchUpdateBuilder}

/-- How many elements of a list without duplicates are at most `n + 1`. -/
theorem countP_le_succ {l : List Nat} (hl : l.Nodup) (n : Nat) :
    l.countP (· ≤ n + 1) = l.countP (· ≤ n) + if n + 1 ∈ l then 1 else 0 := by
  induction l with
  | nil => rfl
  | cons a l ih =>
    obtain ⟨ha, hl⟩ := nodup_cons.mp hl
    rw [countP_cons, countP_cons, ih hl]
    by_cases heq : a = n + 1
    · subst heq
      simp [ha]
    · have hmem : n + 1 ∈ a :: l ↔ n + 1 ∈ l := by
        simp [Ne.symm heq]
      by_cases hle : a ≤ n
      · simp [hmem, hle, Nat.le_succ_of_le hle]
        omega
      · have hgt : ¬ a ≤ n + 1 := by omega
        simp [hmem, hle, hgt]

theorem Low.skip (h : Low (last + 1) b) (hmem : last + 1 ∈ b.batchUpdateBuilder.removedIndices) :
    Low last b := by
  constructor
  case lt => exact Nat.lt_of_succ_lt h.lt
  case above =>
    intro j hj id heq
    rcases Nat.lt_or_ge (last + 1) j with hlt | hge
    · exact h.above j hlt id heq
    · obtain rfl : j = last + 1 := Nat.le_antisymm hge hj
      rw [(h.holes _ (Nat.le_refl _)).mpr hmem] at heq
      cases heq
  case holes => exact fun j hj => h.holes j (Nat.le_succ_of_le hj)
  case nodup => exact h.nodup
  case count =>
    have hcount := h.count
    rw [countP_le_succ h.nodup, if_pos hmem] at hcount
    omega

theorem Moved.numReqs (h : Moved b last e b') (hids : IdsOk b) : b'.numReqs = b.numReqs := by
  obtain ⟨id, hlast, hindex, -⟩ := h.live
  unfold InputBatch.numReqs
  rw [hindex, size_insert, if_pos]
  unfold contains
  rw [(hids.inverse id last).mpr hlast]
  rfl

theorem Low.move (h : Low (last + 1) b) (hids : IdsOk b)
    (hnot : last + 1 ∉ b.batchUpdateBuilder.removedIndices)
    (hpop : Popped b.batchUpdateBuilder e builder) (hlt : e < last + 1)
    (hmove : Moved ({ b with batchUpdateBuilder := builder } : InputBatch ε γ) (last + 1) e b₁) :
    Low last b₁ := by
  have hids' : IdsOk ({ b with batchUpdateBuilder := builder } : InputBatch ε γ) :=
    ⟨hids.inverse, hids.outputs_length, hids.spec_length, hids.spec_clear, hpop.sorted⟩
  obtain ⟨id, hlast, hget⟩ := hmove.getElem?_reqIds
  have hnodup : (e :: builder.removedIndices).Nodup := hpop.perm.nodup_iff.mp h.nodup
  have hremoved : b₁.batchUpdateBuilder.removedIndices = builder.removedIndices := hmove.removed
  constructor
  case lt =>
    rw [hmove.length_reqIds]
    exact Nat.lt_of_succ_lt h.lt
  case above =>
    intro j hj id' heq
    rw [hget] at heq
    split at heq
    · cases heq
    · rename_i hne
      rw [if_neg (by omega)] at heq
      exact h.above j (by omega) id' heq
  case holes =>
    intro j hj
    rw [hget, if_neg (by omega), hremoved]
    have hmem := hpop.perm.mem_iff (a := j)
    by_cases hje : j = e
    · subst hje
      simp [(nodup_cons.mp hnodup).1]
    · rw [if_neg hje]
      rw [mem_cons, or_iff_right hje] at hmem
      rw [← hmem]
      exact h.holes j (Nat.le_succ_of_le hj)
  case nodup =>
    rw [hremoved]
    exact (nodup_cons.mp hnodup).2
  case count =>
    have hcount := h.count
    rw [countP_le_succ h.nodup, if_neg hnot, hpop.perm.countP_eq, countP_cons_of_pos] at hcount
    · rw [hmove.numReqs hids', hremoved]
      show b.numReqs + _ = _
      omega
    · exact decide_eq_true (Nat.le_of_lt_succ hlt)

/-- The rows when the loop stops. -/
theorem Condensing.live (h : Condensing last b b') (hids : IdsOk b) (hlow : Low last b)
    (hpos : 0 < b.numReqs) :
    IdsOk b' ∧ b'.numReqs = b.numReqs ∧ b'.reqIds.length = b.reqIds.length ∧
      ∀ i, (∃ id, b'.reqIds[i]? = some (some id)) ↔ i < b.numReqs := by
  -- At the end every row up to `last` has a request.
  have hend : ∀ (last : Nat) (b : InputBatch ε γ), Low last b →
      (∀ x ∈ b.batchUpdateBuilder.removedIndices, last < x) →
      ∀ i, (∃ id, b.reqIds[i]? = some (some id)) ↔ i < b.numReqs := by
    intro last b hlow habove i
    have hcount := hlow.count
    rw [countP_eq_zero.mpr fun x hx => by simpa using habove x hx] at hcount
    have hlt := hlow.lt
    constructor
    · rintro ⟨id, hid⟩
      by_contra hge
      exact hlow.above i (by omega) id hid
    · intro hi
      have hile : i ≤ last := by omega
      have hilt : i < b.reqIds.length := by omega
      cases hid : b.reqIds[i]? with
      | none =>
        rw [List.getElem?_eq_none_iff] at hid
        omega
      | some entry =>
        cases entry with
        | some id => exact ⟨id, rfl⟩
        | none =>
          have hmem := (hlow.holes i hile).mp hid
          have := habove i hmem
          omega
  induction h with
  | @empty last b hnil =>
    refine ⟨hids, rfl, rfl, hend last b hlow fun x hx => ?_⟩
    rw [hnil] at hx
    cases hx
  | @zero b hmem =>
    have hcount := hlow.count
    have hone : 0 < b.batchUpdateBuilder.removedIndices.countP (· ≤ 0) :=
      countP_pos_iff.mpr ⟨0, hmem, by simp⟩
    omega
  | @done last b habove => exact ⟨hids, rfl, rfl, hend last b hlow habove⟩
  | skip hmem _ ih => exact ih hids (hlow.skip hmem) hpos
  | @move last e b b₁ b' builder hnot hpop hlt hmove _ ih =>
    have hids1 : IdsOk ({ b with batchUpdateBuilder := builder } : InputBatch ε γ) :=
      ⟨hids.inverse, hids.outputs_length, hids.spec_length, hids.spec_clear, hpop.sorted⟩
    have hhole : b.reqIds[e]? = some none := by
      rw [hlow.holes e (Nat.le_of_lt hlt), hpop.perm.mem_iff]
      exact mem_cons_self
    have hnum : b₁.numReqs = b.numReqs := hmove.numReqs hids1
    obtain ⟨hids', hnum', hlen', hlive'⟩ := ih (hids1.moved hmove (Nat.ne_of_lt hlt) hhole)
      (hlow.move hids hnot hpop hlt hmove) (hnum ▸ hpos)
    refine ⟨hids', hnum'.trans hnum, hlen'.trans hmove.length_reqIds, fun i => ?_⟩
    rw [hlive' i, hnum]

/-- The request in the row `l` goes to the empty row `e`: as many empty rows are below `e` as rows
with requests are above `l`. -/
def FillsHole (b : InputBatch ε γ) (e l : Nat) : Prop :=
  l ∉ b.batchUpdateBuilder.removedIndices ∧ e < l ∧
    b.batchUpdateBuilder.removedIndices.countP (· < e) =
      (List.range' (l + 1) (b.reqIds.length - (l + 1))).countP
        (· ∉ b.batchUpdateBuilder.removedIndices)

instance (b : InputBatch ε γ) (e l : Nat) : Decidable (FillsHole b e l) :=
  inferInstanceAs (Decidable (l ∉ b.batchUpdateBuilder.removedIndices ∧ e < l ∧
    b.batchUpdateBuilder.removedIndices.countP (· < e) =
      (List.range' (l + 1) (b.reqIds.length - (l + 1))).countP
        (· ∉ b.batchUpdateBuilder.removedIndices)))

/-- A request that goes to a row with embeddings has some itself, and the flag for token ids is the
same in both rows. -/
def CondenseCarries (b : InputBatch ε γ) : Prop :=
  ∀ e ∈ b.batchUpdateBuilder.removedIndices, ∀ l < b.reqIds.length, FillsHole b e l →
    ((b.reqPromptEmbeds.get? e).isSome = true → (b.reqPromptEmbeds.get? l).isSome = true) ∧
    (b.isPoolingModel = true →
      b.logitsProcessingNeedsTokenIds e = b.logitsProcessingNeedsTokenIds l)

/-- How far the loop has come since the batch was `b₀`: the lowest of its empty rows are filled, one
for each request above `last`. -/
structure Progress (b₀ : InputBatch ε γ) (last : Nat) (b : InputBatch ε γ) : Prop where
  filled : ∃ popped : List Nat, b₀.batchUpdateBuilder.removedIndices.Perm
      (popped ++ b.batchUpdateBuilder.removedIndices) ∧
    (∀ x ∈ popped, ∀ y ∈ b.batchUpdateBuilder.removedIndices, x < y) ∧
    popped.length = (List.range' (last + 1) (b₀.reqIds.length - (last + 1))).countP
      (· ∉ b₀.batchUpdateBuilder.removedIndices)
  flags : b.logitsProcessingNeedsTokenIds = b₀.logitsProcessingNeedsTokenIds
  pooling : b.isPoolingModel = b₀.isPoolingModel
  length : b.reqIds.length = b₀.reqIds.length
  embeds : ∀ j, j ≤ last → (j ∈ b.batchUpdateBuilder.removedIndices ∨
      j ∉ b₀.batchUpdateBuilder.removedIndices) →
    b.reqPromptEmbeds.get? j = b₀.reqPromptEmbeds.get? j

variable {b₀ : InputBatch ε γ}

/-- The rows from `last + 1` on. -/
theorem countP_range'_succ (p : Nat → Bool) {last n : Nat} (h : last + 1 < n) :
    (List.range' (last + 1) (n - (last + 1))).countP p =
      (List.range' (last + 2) (n - (last + 2))).countP p + if p (last + 1) then 1 else 0 := by
  have hn : n - (last + 1) = (n - (last + 2)) + 1 := by omega
  rw [hn, range'_succ, countP_cons]

theorem Progress.skip (h : Progress b₀ (last + 1) b) (hlow : Low (last + 1) b)
    (hmem : last + 1 ∈ b.batchUpdateBuilder.removedIndices) : Progress b₀ last b := by
  obtain ⟨popped, hperm, hlt, hcount⟩ := h.filled
  refine ⟨⟨popped, hperm, hlt, ?_⟩, h.flags, h.pooling, h.length,
    fun j hj => h.embeds j (Nat.le_succ_of_le hj)⟩
  have hmem0 : last + 1 ∈ b₀.batchUpdateBuilder.removedIndices :=
    hperm.mem_iff.mpr (mem_append_right _ hmem)
  rw [countP_range'_succ _ (h.length ▸ hlow.lt), hcount]
  simp [hmem0]

section Fill
variable (h : Progress b₀ (last + 1) b) (hlow : Low (last + 1) b)
  (hnot : last + 1 ∉ b.batchUpdateBuilder.removedIndices)
  (hpop : Popped b.batchUpdateBuilder e builder) (hlt : e < last + 1)
include h hlow hnot hpop hlt

omit hlow in
theorem Progress.fresh : last + 1 ∉ b₀.batchUpdateBuilder.removedIndices := by
  obtain ⟨popped, hperm, hless, -⟩ := h.filled
  intro hmem
  rcases mem_append.mp (hperm.mem_iff.mp hmem) with hmem | hmem
  · -- A row that was filled is below all that are left.
    have hless := hless _ hmem e (hpop.perm.mem_iff.mpr mem_cons_self)
    omega
  · exact hnot hmem

/-- The next request goes to the hole that `FillsHole` says. -/
theorem Progress.fills : e ∈ b₀.batchUpdateBuilder.removedIndices ∧
    last + 1 < b₀.reqIds.length ∧ FillsHole b₀ e (last + 1) := by
  obtain ⟨popped, hperm, hless, hcount⟩ := h.filled
  have he : e ∈ b.batchUpdateBuilder.removedIndices := hpop.perm.mem_iff.mpr mem_cons_self
  refine ⟨hperm.mem_iff.mpr (mem_append_right _ he), h.length ▸ hlow.lt,
    h.fresh hnot hpop hlt, hlt, ?_⟩
  rw [hperm.countP_eq, countP_append, ← hcount]
  have hbelow : popped.countP (· < e) = popped.length :=
    countP_eq_length.mpr fun x hx => decide_eq_true (hless x hx e he)
  have hrest : b.batchUpdateBuilder.removedIndices.countP (· < e) = 0 :=
    countP_eq_zero.mpr fun x hx => by simpa using hpop.lowest x hx
  rw [hbelow, hrest, Nat.add_zero]

theorem Progress.move
    (hmove : Moved ({ b with batchUpdateBuilder := builder } : InputBatch ε γ) (last + 1) e b₁) :
    Progress b₀ last b₁ := by
  obtain ⟨popped, hperm, hless, hcount⟩ := h.filled
  have hfresh := h.fresh hnot hpop hlt
  have hremoved : b₁.batchUpdateBuilder.removedIndices = builder.removedIndices := hmove.removed
  have hnodup : (e :: builder.removedIndices).Nodup := hpop.perm.nodup_iff.mp hlow.nodup
  have he : e ∈ b.batchUpdateBuilder.removedIndices := hpop.perm.mem_iff.mpr mem_cons_self
  refine ⟨⟨popped ++ [e], ?_, ?_, ?_⟩, hmove.flags.trans h.flags, hmove.pooling.trans h.pooling,
    hmove.length_reqIds.trans h.length, ?_⟩
  · rw [hremoved, append_assoc]
    exact hperm.trans (List.Perm.append_left popped hpop.perm)
  · rw [hremoved]
    intro x hx y hy
    have hy' : y ∈ b.batchUpdateBuilder.removedIndices :=
      hpop.perm.mem_iff.mpr (mem_cons_of_mem e hy)
    rcases mem_append.mp hx with hx | hx
    · exact hless x hx y hy'
    · rw [mem_singleton.mp hx]
      have hle := hpop.lowest y hy'
      have hne : e ≠ y := fun heq => (nodup_cons.mp hnodup).1 (heq ▸ hy)
      omega
  · rw [countP_range'_succ _ (h.length ▸ hlow.lt), length_append, hcount]
    simp [hfresh]
  · rw [hremoved]
    intro j hj hor
    have hje : j ≠ e := by
      rintro rfl
      rcases hor with hmem | hmem
      · exact (nodup_cons.mp hnodup).1 hmem
      · exact hmem (hperm.mem_iff.mpr (mem_append_right _ he))
    rw [hmove.embeds j hje (by omega)]
    refine h.embeds j (by omega) (hor.imp_left fun hmem => ?_)
    exact hpop.perm.mem_iff.mpr (mem_cons_of_mem e hmem)

end Fill

/-- The moves carry along what the rows have. -/
theorem Condensing.rows {owned : String → Option (Row ε γ)} (h : Condensing last b b')
    (hcarries : CondenseCarries b₀) (hprogress : Progress b₀ last b) (hids : IdsOk b)
    (hlow : Low last b) (hrows : RowsOk owned b) : RowsOk owned b' := by
  induction h with
  | empty => exact hrows
  | zero => exact hrows
  | done => exact hrows
  | skip hmem _ ih => exact ih (hprogress.skip hlow hmem) hids (hlow.skip hmem) hrows
  | @move last e b b₁ b' builder hnot hpop hlt hmove _ ih =>
    have hids1 : IdsOk ({ b with batchUpdateBuilder := builder } : InputBatch ε γ) :=
      ⟨hids.inverse, hids.outputs_length, hids.spec_length, hids.spec_clear, hpop.sorted⟩
    have hrows1 : RowsOk owned ({ b with batchUpdateBuilder := builder } : InputBatch ε γ) :=
      ⟨hrows.accepted, hrows.flags, hrows.sparse, hrows.rows⟩
    have he : e ∈ b.batchUpdateBuilder.removedIndices := hpop.perm.mem_iff.mpr mem_cons_self
    have hhole : b.reqIds[e]? = some none := (hlow.holes e (Nat.le_of_lt hlt)).mpr he
    obtain ⟨he0, hl0, hfills⟩ := hprogress.fills hlow hnot hpop hlt
    have hfresh := hprogress.fresh hnot hpop hlt
    obtain ⟨hembeds, hflag⟩ := hcarries e he0 (last + 1) hl0 hfills
    rw [← hprogress.embeds e (Nat.le_of_lt hlt) (.inl he),
      ← hprogress.embeds (last + 1) (Nat.le_refl _) (.inr hfresh)] at hembeds
    rw [← hprogress.flags, ← hprogress.pooling] at hflag
    have hne : e ≠ last + 1 := Nat.ne_of_lt hlt
    exact ih (hprogress.move hlow hnot hpop hlt hmove) (hids1.moved hmove hne hhole)
      (hlow.move hids hnot hpop hlt hmove) (hrows1.moved hmove hne hhole hembeds hflag)

end Loop

/-! ### The operations -/

/-- The rows are full. -/
structure FullOk (b : InputBatch ε γ) : Prop where
  length : b.reqIds.length = b.numReqs
  live : ∀ i < b.numReqs, ∃ id, b.reqIds[i]? = some (some id)

section Operations
variable {owned : String → Option (Row ε γ)} {b b' : InputBatch ε γ}

/-- A list of which the first entries are kept. -/
theorem getElem?_take_of_live {l : List (Option String)} {n : Nat}
    (h : ∀ i, (∃ id, l[i]? = some (some id)) → i < n) (i : Nat) (id : String) :
    (l.take n)[i]? = some (some id) ↔ l[i]? = some (some id) := by
  rw [List.getElem?_take]
  split
  · rfl
  · rename_i hge
    exact ⟨nofun, fun hsome => absurd (h i ⟨id, hsome⟩) hge⟩

/-- The batch while the rows are condensed. -/
def sortedBatch (b : InputBatch ε γ) : InputBatch ε γ :=
  { b with batchUpdateBuilder := b.batchUpdateBuilder.ensureRemovedSorted }

theorem IdsOk.sortedBatch (h : IdsOk b) : IdsOk (sortedBatch b) :=
  ⟨h.inverse, h.outputs_length, h.spec_length, h.spec_clear,
    fun _ => (ensureRemovedSorted_spec h.sorted).2.1⟩

theorem HolesOk.sortedBatch (h : HolesOk b) (hids : IdsOk b) : HolesOk (sortedBatch b) := by
  obtain ⟨hperm, -, -, -, -⟩ := ensureRemovedSorted_spec hids.sorted
  refine ⟨fun i => ?_, hperm.nodup_iff.mpr h.nodup, ?_⟩
  · rw [show (Worker.sortedBatch b).batchUpdateBuilder.removedIndices =
      b.batchUpdateBuilder.ensureRemovedSorted.removedIndices from rfl, hperm.mem_iff]
    exact h.mem i
  · rw [show (Worker.sortedBatch b).batchUpdateBuilder.removedIndices =
      b.batchUpdateBuilder.ensureRemovedSorted.removedIndices from rfl, hperm.length_eq]
    exact h.count

/-- The three ways through `condense`. -/
theorem condense_cases (hids : IdsOk b) (h : b.condense = .ok b') :
    (sortedBatch b).batchUpdateBuilder.removedIndices = [] ∧ b' = sortedBatch b ∨
    b.numReqs = 0 ∧ b' = { sortedBatch b with
      reqIds := []
      reqOutputTokenIds := []
      specTokenIds := [] } ∨
    0 < b.numReqs ∧ (sortedBatch b).batchUpdateBuilder.removedIndices ≠ [] ∧
      ∃ b₁, Condensing (b.numReqs + (sortedBatch b).batchUpdateBuilder.removedIndices.length - 1)
        (sortedBatch b) b₁ ∧ b' = { b₁ with
          reqIds := b₁.reqIds.take b.numReqs
          reqOutputTokenIds := b₁.reqOutputTokenIds.take b.numReqs
          specTokenIds := b₁.specTokenIds.take b.numReqs } := by
  unfold InputBatch.condense BatchUpdateBuilder.removed at h
  dsimp only at h
  split at h
  · rename_i hnil
    cases h
    exact .inl ⟨hnil, rfl⟩
  · rename_i hne
    split at h
    · rename_i hzero
      cases h
      exact .inr (.inl ⟨hzero, rfl⟩)
    · rename_i hpos
      obtain ⟨b₁, hloop, h⟩ := bind_ok h
      cases h
      exact .inr (.inr ⟨Nat.pos_of_ne_zero hpos, hne, b₁,
        condensing_of_loop hids.sortedBatch.sorted hloop, rfl⟩)

/-- Before the loop all rows are still to be looked at. -/
theorem low_start (hholes : HolesOk b) (hpos : 0 < b.numReqs) :
    Low (b.numReqs + b.batchUpdateBuilder.removedIndices.length - 1) b := by
  have hcount := hholes.count
  have hlt : ∀ x ∈ b.batchUpdateBuilder.removedIndices, x < b.reqIds.length := fun x hx =>
    (List.getElem?_eq_some_iff.mp ((hholes.mem x).mpr hx)).1
  constructor
  case lt => omega
  case above =>
    intro j hj id heq
    have := (List.getElem?_eq_some_iff.mp heq).1
    omega
  case holes => exact fun j _ => hholes.mem j
  case nodup => exact hholes.nodup
  case count =>
    rw [countP_eq_length.mpr fun x hx => by
      have := hlt x hx
      exact decide_eq_true (by omega)]
    omega

theorem progress_start (hholes : HolesOk b) :
    Progress b (b.numReqs + b.batchUpdateBuilder.removedIndices.length - 1) b := by
  have hcount := hholes.count
  refine ⟨⟨[], .refl _, fun x hx => absurd hx not_mem_nil, ?_⟩, rfl, rfl, rfl,
    fun _ _ _ => rfl⟩
  rw [show b.reqIds.length - (b.numReqs + b.batchUpdateBuilder.removedIndices.length - 1 + 1) = 0
    by omega]
  rfl

/-- The rows after `condense`. -/
theorem condense_full (hids : IdsOk b) (hholes : HolesOk b) (h : b.condense = .ok b') :
    IdsOk b' ∧ FullOk b' ∧ b'.numReqs = b.numReqs := by
  have hids0 := hids.sortedBatch
  have hholes0 := hholes.sortedBatch hids
  obtain ⟨hnil, rfl⟩ | ⟨hzero, rfl⟩ | ⟨hpos, hne, b₁, hloop, rfl⟩ := condense_cases hids h
  · have hcount := hholes0.count
    rw [hnil, length_nil, Nat.add_zero] at hcount
    refine ⟨hids0, ⟨hcount.symm, fun i hi => ?_⟩, rfl⟩
    rw [hcount] at hi
    have hget := List.getElem?_eq_getElem hi
    cases hentry : (sortedBatch b).reqIds[i] with
    | some id => exact ⟨id, by rw [hget, hentry]⟩
    | none =>
      rw [hentry, hholes0.mem, hnil] at hget
      cases hget
  · have hempty : ∀ id, b.reqIdToIndex.get? id = none := by
      intro id
      rw [get?_eq_none_iff]
      have hsize : b.reqIdToIndex.keys.length = 0 := by
        rw [← size_eq_length_keys]
        exact hzero
      rw [length_eq_zero_iff.mp hsize]
      exact not_mem_nil
    refine ⟨⟨fun id i => ?_, rfl, Nat.le_refl 0, fun j l _ hl => ?_, hids0.sorted⟩,
      ⟨hzero.symm, fun i hi => ?_⟩, rfl⟩
    · show b.reqIdToIndex.get? id = some i ↔ _
      rw [hempty]
      simp
    · cases hl
    · change i < b.numReqs at hi
      omega
  · have hlow := low_start hholes0 hpos
    obtain ⟨hids1, hnum, hlen, hlive⟩ := hloop.live hids0 hlow hpos
    have hn : (sortedBatch b).numReqs = b.numReqs := rfl
    rw [hn] at hnum hlive
    have hcount := hholes0.count
    rw [hn] at hcount
    have hle : b.numReqs ≤ b₁.reqIds.length := by
      rw [hlen]
      omega
    have hget := getElem?_take_of_live (n := b.numReqs) fun i => (hlive i).mp
    refine ⟨⟨fun id i => ?_, ?_, ?_, fun j l hj hl => ?_, hids1.sorted⟩, ⟨?_, fun i hi => ?_⟩,
      hnum⟩
    · exact (hids1.inverse id i).trans (hget i id).symm
    · show (b₁.reqOutputTokenIds.take _).length = (b₁.reqIds.take _).length
      rw [length_take, length_take, hids1.outputs_length]
    · show (b₁.reqIds.take _).length ≤ (b₁.specTokenIds.take _).length
      rw [length_take, length_take]
      have := hids1.spec_length
      omega
    · change (b₁.reqIds.take b.numReqs).length ≤ j at hj
      change (b₁.specTokenIds.take b.numReqs)[j]? = some l at hl
      have hlt := (List.getElem?_eq_some_iff.mp hl).1
      rw [length_take] at hj hlt
      omega
    · show (b₁.reqIds.take b.numReqs).length = b₁.numReqs
      rw [length_take, hnum]
      omega
    · change i < b₁.numReqs at hi
      obtain ⟨id, hid⟩ := (hlive i).mpr (hnum ▸ hi)
      exact ⟨id, (hget i id).mpr hid⟩

theorem CondenseCarries.sortedBatch (h : CondenseCarries b) (hids : IdsOk b) :
    CondenseCarries (sortedBatch b) := by
  obtain ⟨hperm, -, -, -, -⟩ := ensureRemovedSorted_spec hids.sorted
  intro e he l hl hfills
  refine h e (hperm.mem_iff.mp he) l hl ⟨fun hmem => hfills.1 (hperm.mem_iff.mpr hmem), hfills.2.1,
    ?_⟩
  have hcount := hfills.2.2
  change List.countP _ b.batchUpdateBuilder.ensureRemovedSorted.removedIndices = _ at hcount
  rw [hperm.countP_eq] at hcount
  rw [hcount]
  refine countP_congr fun x _ => ?_
  rw [decide_eq_true_iff, decide_eq_true_iff]
  exact not_congr hperm.mem_iff

theorem condense_rows (hids : IdsOk b) (hholes : HolesOk b) (hrows : RowsOk owned b)
    (hcarries : CondenseCarries b) (h : b.condense = .ok b') : RowsOk owned b' := by
  have hids0 := hids.sortedBatch
  have hholes0 := hholes.sortedBatch hids
  have hrows0 : RowsOk owned (sortedBatch b) :=
    ⟨hrows.accepted, hrows.flags, hrows.sparse, hrows.rows⟩
  obtain ⟨hnil, rfl⟩ | ⟨hzero, rfl⟩ | ⟨hpos, hne, b₁, hloop, rfl⟩ := condense_cases hids h
  · exact hrows0
  · refine ⟨hrows.accepted, hrows.flags, fun hpool i _ => hrows.sparse hpool i fun id hid => ?_,
      fun i id hid => by cases hid⟩
    have hget := (hids.inverse id i).mpr hid
    have hmem := mem_keys_of_get? hget
    have hsize : b.reqIdToIndex.keys.length = 0 := by
      rw [← size_eq_length_keys]
      exact hzero
    rw [length_eq_zero_iff.mp hsize] at hmem
    cases hmem
  · have hlow := low_start hholes0 hpos
    obtain ⟨-, -, -, hlive⟩ := hloop.live hids0 hlow hpos
    have hrows1 := hloop.rows (hcarries.sortedBatch hids) (progress_start hholes0) hids0 hlow hrows0
    have hget := getElem?_take_of_live (n := b.numReqs) fun i => (hlive i).mp
    refine ⟨hrows1.accepted, hrows1.flags, fun hpool i hi => ?_, fun i id hid => ?_⟩
    · exact hrows1.sparse hpool i fun id hid => hi id ((hget i id).mpr hid)
    · have hid' := (hget i id).mp hid
      have hlt : i < b.numReqs := (hlive i).mp ⟨id, hid'⟩
      rw [hrows1.rows i id hid']
      refine congrArg some (SameRow.rowAt_eq ?_).symm
      exact {
        columns := { SameColumns.refl b₁ i with }
        outputs := by simp [hlt]
        spec := by simp [hlt]
        accepted := rfl
        flag := rfl
        pooling := rfl
        sampling := fun _ => rfl }

/-! #### Removing -/

variable {id : String}

theorem Removed.getElem?_reqIds {i : Nat} (h : Removed b id i b') (k : Nat) :
    b'.reqIds[k]? = if k = i then some none else b.reqIds[k]? := by
  rw [h.reqIds]
  by_cases hk : k = i
  · rw [hk, List.getElem?_set_self h.lt, if_pos rfl]
  · rw [List.getElem?_set_ne (Ne.symm hk), if_neg hk]

theorem removedAppend_eq_ok {builder builder' : BatchUpdateBuilder} {i : Nat}
    (h : builder.removedAppend i = .ok builder') :
    builder.isRemovedSorted = false ∧ builder' = { builder with
      removedIndices := builder.removedIndices ++ [i]
      batchChanged := true } := by
  unfold BatchUpdateBuilder.removedAppend at h
  split at h
  · cases h
  · cases h
    exact ⟨(Bool.not_eq_true _).mp ‹_›, rfl⟩

theorem Removed.idsOk {i : Nat} (h : Removed b id i b') (hids : IdsOk b) : IdsOk b' := by
  have hlive := (hids.inverse id i).mp h.live
  obtain ⟨hflag, hbuilder⟩ := removedAppend_eq_ok h.builder
  constructor
  case inverse =>
    intro id' k
    rw [h.reqIdToIndex, h.getElem?_reqIds, get?_erase]
    by_cases hid : id' = id
    · rw [if_pos hid, hid]
      constructor
      · intro heq
        cases heq
      · intro heq
        split at heq
        · cases heq
        · rename_i hk
          rw [← hids.inverse, h.live] at heq
          exact absurd (Option.some.inj heq).symm hk
    · rw [if_neg hid, hids.inverse]
      by_cases hk : k = i
      · rw [if_pos hk, hk, hlive]
        refine ⟨fun heq => ?_, nofun⟩
        exact absurd (Option.some.inj (Option.some.inj heq)).symm hid
      · rw [if_neg hk]
  case outputs_length =>
    rw [h.outputs, h.reqIds, length_set, length_set, hids.outputs_length]
  case spec_length =>
    rw [h.spec, h.reqIds, length_set, length_set]
    exact hids.spec_length
  case spec_clear =>
    intro j l hj hl
    have hlt := h.lt
    rw [h.reqIds, length_set] at hj
    rw [h.spec, List.getElem?_set_ne (by omega)] at hl
    exact hids.spec_clear j l hj hl
  case sorted =>
    intro hsorted
    rw [hbuilder] at hsorted
    rw [hflag] at hsorted
    cases hsorted

theorem Removed.holesOk {i : Nat} (h : Removed b id i b') (hids : IdsOk b) (hholes : HolesOk b) :
    HolesOk b' := by
  have hlive := (hids.inverse id i).mp h.live
  obtain ⟨-, hbuilder⟩ := removedAppend_eq_ok h.builder
  have hnot : i ∉ b.batchUpdateBuilder.removedIndices := by
    intro hmem
    rw [(hholes.mem i).mpr hmem] at hlive
    cases hlive
  constructor
  case mem =>
    intro k
    rw [h.getElem?_reqIds, hbuilder]
    show _ ↔ k ∈ b.batchUpdateBuilder.removedIndices ++ [i]
    rw [mem_append, mem_singleton, ← hholes.mem]
    by_cases hk : k = i
    · simp [hk]
    · simp [hk]
  case nodup =>
    rw [hbuilder]
    show (b.batchUpdateBuilder.removedIndices ++ [i]).Nodup
    rw [nodup_append]
    refine ⟨hholes.nodup, nodup_singleton i, fun x hx y hy heq => hnot ?_⟩
    rw [← mem_singleton.mp hy, ← heq]
    exact hx
  case count =>
    have hcount := hholes.count
    have hsize : b.reqIdToIndex.contains id = true := by
      unfold contains
      rw [h.live]
      rfl
    have hnum : b'.numReqs + 1 = b.numReqs := by
      unfold InputBatch.numReqs
      rw [h.reqIdToIndex]
      exact size_erase hsize
    rw [h.reqIds, hbuilder, length_set]
    show b'.numReqs + (b.batchUpdateBuilder.removedIndices ++ [i]).length = _
    rw [length_append, length_singleton]
    omega

theorem Removed.rowsOk {i : Nat} (h : Removed b id i b') (hrows : RowsOk owned b) :
    RowsOk owned b' := by
  constructor
  case accepted =>
    rw [h.pooling, h.accepted]
    exact hrows.accepted
  case flags =>
    rw [h.pooling, h.flags]
    exact hrows.flags
  case sparse =>
    intro hpool k hk
    rw [h.pooling] at hpool
    obtain ⟨hgen, hbad⟩ := h.sparse hpool
    rw [hgen, hbad]
    by_cases hki : k = i
    · rw [hki, get?_erase_self, get?_erase_self]
      exact ⟨rfl, rfl⟩
    · rw [get?_erase_of_ne _ hki, get?_erase_of_ne _ hki]
      refine hrows.sparse hpool k fun id' hid' => hk id' ?_
      rw [h.getElem?_reqIds, if_neg hki, hid']
  case rows =>
    intro k id' hk
    rw [h.getElem?_reqIds] at hk
    split at hk
    · cases hk
    · rename_i hki
      rw [h.rows k hki]
      exact hrows.rows k id' hk

/-! #### Adding -/

/-- The row that the next request takes is empty, and the others in the log stay empty. -/
structure NextRow (b : InputBatch ε γ) (i : Nat) (builder : BatchUpdateBuilder) : Prop where
  free : ∀ id, b.reqIds[i]? ≠ some (some id)
  le : i ≤ b.reqIds.length
  sorted : SortedOk builder
  mem : ∀ k, k ∈ builder.removedIndices ↔ k ≠ i ∧ k ∈ b.batchUpdateBuilder.removedIndices
  nodup : builder.removedIndices.Nodup
  count : b.numReqs + 1 + builder.removedIndices.length =
    if i = b.reqIds.length then b.reqIds.length + 1 else b.reqIds.length
  added : builder.added = b.batchUpdateBuilder.added
  moved : builder.moved = b.batchUpdateBuilder.moved

theorem nextRow_spec (hids : IdsOk b) (hholes : HolesOk b) :
    NextRow b (nextRow b) b.batchUpdateBuilder.popRemoved.2 := by
  have hcount := hholes.count
  by_cases hnil : b.batchUpdateBuilder.removedIndices = []
  · have hnext : nextRow b = b.reqIds.length := by
      unfold nextRow
      rw [popRemoved_nil hnil]
      rw [hnil, length_nil] at hcount
      exact hcount
    rw [hnext, popRemoved_nil hnil]
    refine ⟨fun id hid => ?_, Nat.le_refl _, hids.sorted, fun k => ?_, hholes.nodup, ?_, rfl, rfl⟩
    · exact absurd (List.getElem?_eq_some_iff.mp hid).1 (Nat.lt_irrefl _)
    · simp [hnil]
    · rw [if_pos rfl, ← hcount]
      simp [hnil]
  · obtain ⟨e, hpopped, -, hpop⟩ := popRemoved_spec hids.sorted hnil
    have hnext : nextRow b = e := by
      unfold nextRow
      rw [hpopped, Option.getD_some]
    have he : e ∈ b.batchUpdateBuilder.removedIndices := hpop.perm.mem_iff.mpr mem_cons_self
    have hhole := (hholes.mem e).mpr he
    have hlt := (List.getElem?_eq_some_iff.mp hhole).1
    have hnodup := hpop.perm.nodup_iff.mp hholes.nodup
    have hlength := hpop.perm.length_eq
    rw [length_cons] at hlength
    rw [hnext]
    refine ⟨fun id hid => ?_, Nat.le_of_lt hlt, hpop.sorted, fun k => ?_,
      (nodup_cons.mp hnodup).2, ?_, hpop.added, hpop.moved⟩
    · rw [hhole] at hid
      cases hid
    · rw [hpop.perm.mem_iff, mem_cons]
      constructor
      · intro hk
        refine ⟨?_, .inr hk⟩
        rintro rfl
        exact (nodup_cons.mp hnodup).1 hk
      · rintro ⟨hne, heq | hk⟩
        · exact absurd heq hne
        · exact hk
    · rw [if_neg (Nat.ne_of_lt hlt)]
      omega

section Add
variable {outputTokenIds : List Int} {request : CachedRequestState ε γ} {i : Nat}

theorem Added.getElem?_reqIds (h : Added b outputTokenIds request i b') (k : Nat) :
    b'.reqIds[k]? = if k = i then some (some request.reqId) else b.reqIds[k]? := by
  obtain ⟨hi, hreqIds, -⟩ | ⟨hlt, hreqIds, -⟩ := h.ids
  · rw [hreqIds, List.getElem?_append]
    by_cases hk : k = i
    · rw [if_pos hk, hk, hi, if_neg (Nat.lt_irrefl _), Nat.sub_self]
      rfl
    · rw [if_neg hk]
      split
      · rfl
      · rw [List.getElem?_eq_none (by rw [length_singleton]; omega),
          List.getElem?_eq_none (by omega)]
  · rw [hreqIds]
    by_cases hk : k = i
    · rw [hk, List.getElem?_set_self hlt, if_pos rfl]
    · rw [List.getElem?_set_ne (Ne.symm hk), if_neg hk]

theorem Added.idsOk (h : Added b outputTokenIds request i b') (hids : IdsOk b)
    (hholes : HolesOk b) (hnew : b.reqIdToIndex.contains request.reqId = false) : IdsOk b' := by
  have hnext := nextRow_spec hids hholes
  rw [← h.next] at hnext
  have hnone : b.reqIdToIndex.get? request.reqId = none :=
    Option.not_isSome_iff_eq_none.mp (by rw [← Bool.not_eq_true] at hnew; exact hnew)
  constructor
  case inverse =>
    intro id k
    rw [h.reqIdToIndex, h.getElem?_reqIds]
    by_cases hid : id = request.reqId
    · rw [hid, get?_insert_self]
      constructor
      · intro heq
        rw [if_pos (Option.some.inj heq).symm]
      · intro heq
        split at heq
        · rename_i hk
          rw [hk]
        · rw [← hids.inverse, hnone] at heq
          cases heq
    · rw [get?_insert_of_ne _ _ hid, hids.inverse]
      by_cases hk : k = i
      · rw [if_pos hk, hk]
        constructor
        · intro heq
          exact absurd heq (hnext.free id)
        · intro heq
          exact absurd (Option.some.inj (Option.some.inj heq)).symm hid
      · rw [if_neg hk]
  case outputs_length => exact h.outputs_length
  case spec_length =>
    have hlen := hids.spec_length
    obtain ⟨-, hreqIds, hspec⟩ | ⟨-, hreqIds, hspec⟩ := h.ids
    · rw [hreqIds, hspec]
      simpa using hlen
    · rw [hreqIds, hspec]
      simpa using hlen
  case spec_clear =>
    intro j l hj hl
    obtain ⟨hi, hreqIds, hspec⟩ | ⟨hlt, hreqIds, hspec⟩ := h.ids
    · rw [hreqIds, length_append, length_singleton] at hj
      rw [hspec, List.getElem?_append] at hl
      split at hl
      · exact hids.spec_clear j l (by omega) hl
      · exact mem_singleton.mp (mem_of_getElem? hl)
    · rw [hreqIds, length_set] at hj
      rw [hspec, List.getElem?_set_ne (by omega)] at hl
      exact hids.spec_clear j l hj hl
  case sorted =>
    rw [h.builder]
    exact hnext.sorted

theorem Added.holesOk (h : Added b outputTokenIds request i b') (hids : IdsOk b)
    (hholes : HolesOk b) (hnew : b.reqIdToIndex.contains request.reqId = false) : HolesOk b' := by
  have hnext := nextRow_spec hids hholes
  rw [← h.next] at hnext
  have hremoved : b'.batchUpdateBuilder.removedIndices =
      b.batchUpdateBuilder.popRemoved.2.removedIndices := by
    rw [h.builder]
  constructor
  case mem =>
    intro k
    rw [h.getElem?_reqIds, hremoved, hnext.mem, ← hholes.mem]
    by_cases hk : k = i
    · simp [hk]
    · simp [hk]
  case nodup =>
    rw [hremoved]
    exact hnext.nodup
  case count =>
    have hcount := hnext.count
    have hnum : b'.numReqs = b.numReqs + 1 := by
      unfold InputBatch.numReqs
      rw [h.reqIdToIndex, size_insert, if_neg (by rw [hnew]; decide)]
    rw [hremoved, hnum, hcount]
    obtain ⟨hi, hreqIds, -⟩ | ⟨hlt, hreqIds, -⟩ := h.ids
    · rw [if_pos hi, hreqIds, length_append, length_singleton]
    · rw [if_neg (Nat.ne_of_lt hlt), hreqIds, length_set]

/-- The next row has nothing of an earlier request that the new one does not bring itself. -/
def AddCarries (b : InputBatch ε γ) (request : CachedRequestState ε γ) : Prop :=
  (request.promptEmbeds.isNone = true → (b.reqPromptEmbeds.get? (nextRow b)).isNone = true) ∧
  (b.isPoolingModel = false → AllowsAll request → AllAllowed b (nextRow b))

theorem Added.rowsOk (h : Added b outputTokenIds request i b') (hids : IdsOk b)
    (hholes : HolesOk b) (hrows : RowsOk owned b)
    (hnew : b.reqIdToIndex.contains request.reqId = false) (hcarries : AddCarries b request) :
    RowsOk (update owned request.reqId (some (b.rowOf outputTokenIds request))) b' := by
  have hnext := nextRow_spec hids hholes
  rw [← h.next] at hnext
  unfold AddCarries at hcarries
  rw [← h.next] at hcarries
  have hnone : b.reqIdToIndex.get? request.reqId = none :=
    Option.not_isSome_iff_eq_none.mp (by rw [← Bool.not_eq_true] at hnew; exact hnew)
  constructor
  case accepted =>
    intro hpool k
    rw [h.pooling] at hpool
    rw [h.accepted]
    by_cases hk : k = i
    · rw [hk, update_self]
    · rw [update_of_ne hk]
      exact hrows.accepted hpool k
  case flags =>
    intro hpool
    rw [h.pooling] at hpool
    rw [h.flags hpool]
    exact hrows.flags hpool
  case sparse =>
    intro hpool k hk
    rw [h.pooling] at hpool
    have hki : k ≠ i := by
      rintro rfl
      refine hk request.reqId ?_
      rw [h.getElem?_reqIds, if_pos rfl]
    obtain ⟨hgen, hbad⟩ := h.sparse k hki
    rw [hgen, hbad]
    refine hrows.sparse hpool k fun id hid => hk id ?_
    rw [h.getElem?_reqIds, if_neg hki, hid]
  case rows =>
    intro k id hk
    rw [h.getElem?_reqIds] at hk
    split at hk
    · rename_i hki
      cases hk
      rw [update_self, hki, h.row]
      · intro he
        have hempty := hcarries.1 (by rw [he]; rfl)
        exact Option.isNone_iff_eq_none.mp hempty
      · exact hcarries.2
      · intro hpool
        obtain ⟨hgen, hbad⟩ := hrows.sparse hpool i hnext.free
        exact ⟨hgen, hbad, hrows.flags hpool i⟩
      · intro hi
        cases hspec : b.specTokenIds[i]? with
        | none => rfl
        | some l => exact hids.spec_clear i l (Nat.le_of_eq hi.symm) hspec
    · rename_i hki
      have hne : id ≠ request.reqId := by
        rintro rfl
        rw [← hids.inverse, hnone] at hk
        cases hk
      rw [update_of_ne hne, h.others k hki]
      exact hrows.rows k id hk

end Add

/-! #### Swapping -/

section Swap
variable {i j : Nat}

theorem swapIndex_eq_right (i j k : Nat) : swapIndex i j k = j ↔ k = i := by
  unfold swapIndex
  split
  · omega
  · split
    · omega
    · omega

theorem swapIndex_eq_left (i j k : Nat) : swapIndex i j k = i ↔ k = j := by
  unfold swapIndex
  split
  · omega
  · split
    · omega
    · omega

theorem swapIndex_of_ne {k : Nat} (hi : k ≠ i) (hj : k ≠ j) : swapIndex i j k = k := by
  unfold swapIndex
  rw [if_neg hj, if_neg hi]

theorem swapIndex_lt {k n : Nat} (hi : i < n) (hj : j < n) : swapIndex i j k < n ↔ k < n := by
  unfold swapIndex
  split
  · omega
  · split
    · omega
    · rfl

theorem Swapped.idsOk (h : Swapped b i j b') (hids : IdsOk b) : IdsOk b' := by
  obtain ⟨id1, id2, index1, index2, h1, h2, hindex1, hindex2, hindex⟩ := h.live
  obtain rfl : index1 = i := by
    rw [(hids.inverse id1 i).mpr h1] at hindex1
    exact (Option.some.inj hindex1).symm
  obtain rfl : index2 = j := by
    rw [(hids.inverse id2 j).mpr h2] at hindex2
    exact (Option.some.inj hindex2).symm
  have hlt1 := (List.getElem?_eq_some_iff.mp h1).1
  have hlt2 := (List.getElem?_eq_some_iff.mp h2).1
  -- An id is in one row only.
  have hunique : ∀ (id : String) (x y : Nat), b.reqIds[x]? = some (some id) →
      (b.reqIds[y]? = some (some id) ↔ y = x) := by
    intro id x y hx
    constructor
    · intro hy
      rw [← hids.inverse] at hx hy
      rw [hx] at hy
      exact (Option.some.inj hy).symm
    · rintro rfl
      exact hx
  constructor
  case inverse =>
    intro id k
    rw [h.reqIds, hindex, get?_insert, get?_insert]
    by_cases hid2 : id = id2
    · subst hid2
      rw [if_pos rfl, hunique _ _ _ h2, swapIndex_eq_right]
      exact ⟨fun heq => (Option.some.inj heq).symm, fun heq => by rw [heq]⟩
    · rw [if_neg hid2]
      by_cases hid1 : id = id1
      · subst hid1
        rw [if_pos rfl, hunique _ _ _ h1, swapIndex_eq_left]
        exact ⟨fun heq => (Option.some.inj heq).symm, fun heq => by rw [heq]⟩
      · rw [if_neg hid1, hids.inverse]
        by_cases hki : k = index1
        · rw [hki, (swapIndex_eq_right _ _ _).mpr rfl, h1, h2]
          simp [Ne.symm hid1, Ne.symm hid2]
        · by_cases hkj : k = index2
          · rw [hkj, (swapIndex_eq_left _ _ _).mpr rfl, h1, h2]
            simp [Ne.symm hid1, Ne.symm hid2]
          · rw [swapIndex_of_ne hki hkj]
  case outputs_length => rw [h.outputs_length, h.length, hids.outputs_length]
  case spec_length =>
    rw [h.spec_length, h.length]
    exact hids.spec_length
  case spec_clear =>
    intro k l hk hl
    rw [h.length] at hk
    rw [h.spec, swapIndex_of_ne (by omega) (by omega)] at hl
    exact hids.spec_clear k l hk hl
  case sorted =>
    intro hflag
    rw [h.removed]
    rw [h.sorted] at hflag
    exact hids.sorted hflag

theorem Swapped.numReqs (h : Swapped b i j b') : b'.numReqs = b.numReqs := by
  obtain ⟨id1, id2, index1, index2, -, -, hindex1, hindex2, hindex⟩ := h.live
  have hc1 : b.reqIdToIndex.contains id1 = true := by
    unfold contains
    rw [hindex1]
    rfl
  have hc2 : b.reqIdToIndex.contains id2 = true := by
    unfold contains
    rw [hindex2]
    rfl
  unfold InputBatch.numReqs
  rw [hindex, size_insert, contains_insert, hc2, Bool.or_true, if_pos rfl,
    size_insert, if_pos hc1]

theorem Swapped.fullOk (h : Swapped b i j b') (hfull : FullOk b) : FullOk b' := by
  obtain ⟨id1, id2, index1, index2, h1, h2, -, -, -⟩ := h.live
  have hlt1 := (List.getElem?_eq_some_iff.mp h1).1
  have hlt2 := (List.getElem?_eq_some_iff.mp h2).1
  rw [hfull.length] at hlt1 hlt2
  refine ⟨by rw [h.length, h.numReqs, hfull.length], fun k hk => ?_⟩
  rw [h.numReqs] at hk
  rw [h.reqIds]
  exact hfull.live _ ((swapIndex_lt hlt1 hlt2).mpr hk)

/-- Two rows have the same flag for token ids, and the same mask in a model that samples. -/
def SwapCarries (b : InputBatch ε γ) (i j : Nat) : Prop :=
  (b.isPoolingModel = true →
    b.logitsProcessingNeedsTokenIds i = b.logitsProcessingNeedsTokenIds j) ∧
  (b.isPoolingModel = false → b.maskAt i = b.maskAt j)

theorem Swapped.rowsOk (h : Swapped b i j b') (hrows : RowsOk owned b)
    (hcarries : SwapCarries b i j) : RowsOk owned b' := by
  have hflag : b.logitsProcessingNeedsTokenIds i = b.logitsProcessingNeedsTokenIds j := by
    cases hpool : b.isPoolingModel with
    | true => exact hcarries.1 hpool
    | false => rw [hrows.flags hpool, hrows.flags hpool]
  constructor
  case accepted =>
    intro hpool
    rw [h.pooling] at hpool
    rw [h.accepted hpool]
    exact hrows.accepted hpool
  case flags =>
    intro hpool
    rw [h.pooling] at hpool
    rw [h.flags]
    exact hrows.flags hpool
  case sparse =>
    intro hpool k hk
    rw [h.pooling] at hpool
    obtain ⟨hgen, hbad⟩ := h.sparse hpool k
    rw [hgen, hbad]
    refine hrows.sparse hpool _ fun id hid => hk id ?_
    rw [h.reqIds, hid]
  case rows =>
    intro k id hk
    rw [h.reqIds] at hk
    rw [h.rows hflag (fun hpool => by rw [hrows.accepted hpool, hrows.accepted hpool]) hcarries.2 k]
    exact hrows.rows _ id hk

end Swap

/-! #### Writing and refreshing -/

/-- The worker writes to the row `i`. -/
structure Written (b : InputBatch ε γ) (i : Nat) (w : RowWrite) (b' : InputBatch ε γ) : Prop where
  reqIds : b'.reqIds = b.reqIds
  reqIdToIndex : b'.reqIdToIndex = b.reqIdToIndex
  outputs : b'.reqOutputTokenIds = b.reqOutputTokenIds
  spec : b'.specTokenIds = b.specTokenIds.set i w.specTokenIds
  builder : b'.batchUpdateBuilder = b.batchUpdateBuilder
  pooling : b'.isPoolingModel = b.isPoolingModel
  accepted : b'.numAcceptedTokensCpu = update b.numAcceptedTokensCpu i w.numAcceptedTokens
  flags : b'.logitsProcessingNeedsTokenIds = b.logitsProcessingNeedsTokenIds
  sparse : b'.generators = b.generators ∧ b'.badWordsTokenIds = b.badWordsTokenIds
  processors : b'.minP = b.minP ∧ b'.logitBias = b.logitBias ∧ b'.minTokens = b.minTokens
  others : ∀ k, k ≠ i → b'.rowAt k = b.rowAt k

variable {w : RowWrite}

theorem writeRow_spec {i : Nat} (h : b.writeRow i w = .ok b') : Written b i w b' := by
  unfold InputBatch.writeRow at h
  obtain ⟨spec, hspec, h⟩ := bind_ok h
  obtain ⟨tables, htables, h⟩ := bind_ok h
  obtain ⟨-, rfl⟩ := setItem_eq_ok_iff.mp hspec
  have hblocks : ∀ k, k ≠ i → tables.map (fun t => t.blocksAt k) =
      b.blockTables.map fun t => t.blocksAt k := by
    intro k hk
    split at htables
    · cases htables
      rfl
    · exact blocksAt_appendBlockRow htables k hk
  cases h
  refine ⟨rfl, rfl, rfl, rfl, rfl, rfl, rfl, rfl, ⟨rfl, rfl⟩, ⟨rfl, rfl, rfl⟩, fun k hk => ?_⟩
  exact SameRow.rowAt_eq {
    columns := { SameColumns.refl b k with
      tokens := by
        refine tokensAt_congr (update_of_ne hk ..) (fun j _ => ?_) (fun j _ => ?_)
        · exact congrFun (update_of_ne hk ..) j
        · exact congrFun (update_of_ne hk ..) j
      numTokens := update_of_ne hk ..
      numTokensNoSpec := update_of_ne hk ..
      numComputedTokens := update_of_ne hk ..
      blocks := hblocks k hk }
    outputs := rfl
    spec := congrArg (Option.getD · []) (List.getElem?_set_ne (Ne.symm hk))
    accepted := update_of_ne hk ..
    flag := rfl
    pooling := rfl
    sampling := fun _ => rfl }

theorem Written.idsOk {i : Nat} (h : Written b i w b') (hids : IdsOk b)
    (hlive : b.reqIdToIndex.get? id = some i) : IdsOk b' := by
  have hlt := (List.getElem?_eq_some_iff.mp ((hids.inverse id i).mp hlive)).1
  constructor
  case inverse =>
    rw [h.reqIdToIndex, h.reqIds]
    exact hids.inverse
  case outputs_length => rw [h.outputs, h.reqIds, hids.outputs_length]
  case spec_length =>
    rw [h.spec, h.reqIds, length_set]
    exact hids.spec_length
  case spec_clear =>
    intro j l hj hl
    rw [h.reqIds] at hj
    rw [h.spec, List.getElem?_set_ne (by omega)] at hl
    exact hids.spec_clear j l hj hl
  case sorted =>
    rw [h.builder]
    exact hids.sorted

theorem Written.rowsOk {i : Nat} (h : Written b i w b') (hids : IdsOk b) (hrows : RowsOk owned b)
    (hlive : b.reqIdToIndex.get? id = some i)
    (haccepted : b.isPoolingModel = true → w.numAcceptedTokens = 1) :
    RowsOk (update owned id (some (b'.rowAt i))) b' := by
  have hi := (hids.inverse id i).mp hlive
  constructor
  case accepted =>
    intro hpool k
    rw [h.pooling] at hpool
    rw [h.accepted]
    by_cases hk : k = i
    · rw [hk, update_self, haccepted hpool]
    · rw [update_of_ne hk]
      exact hrows.accepted hpool k
  case flags =>
    rw [h.pooling, h.flags]
    exact hrows.flags
  case sparse =>
    rw [h.pooling, h.reqIds, h.sparse.1, h.sparse.2]
    exact hrows.sparse
  case rows =>
    intro k id' hk
    rw [h.reqIds] at hk
    by_cases hki : k = i
    · subst hki
      rw [hi] at hk
      cases hk
      rw [update_self]
    · have hne : id' ≠ id := by
        rintro rfl
        rw [← hids.inverse, hlive] at hk
        exact hki (Option.some.inj hk).symm
      rw [update_of_ne hne, h.others k hki]
      exact hrows.rows k id' hk

/-- The log is empty after `refresh_metadata`, and nothing else that a row has changes. -/
theorem refreshMetadata_spec (b : InputBatch ε γ) (outputs : OutputRef → List Int) :
    ∃ builder minP logitBias minTokens, b.refreshMetadata outputs = { b with
        batchUpdateBuilder := builder
        minP := minP
        logitBias := logitBias
        minTokens := minTokens } ∧ builder.removedIndices = [] ∧ builder.isRemovedSorted = false ∧
      builder.added = [] ∧ builder.moved = [] := by
  unfold InputBatch.refreshMetadata
  split
  · exact ⟨_, _, _, _, rfl, rfl, rfl, rfl, rfl⟩
  · refine ⟨_, _, _, _, rfl, ?_⟩
    unfold BatchUpdateBuilder.getAndReset
    split
    · rename_i hnil
      exact ⟨hnil.1, rfl, hnil.2.2, hnil.2.1⟩
    · exact ⟨rfl, rfl, rfl, rfl⟩

end Operations

/-! ### Runs -/

instance (b : InputBatch ε γ) : Decidable (CondenseCarries b) :=
  inferInstanceAs (Decidable (∀ e ∈ b.batchUpdateBuilder.removedIndices, ∀ l < b.reqIds.length,
    FillsHole b e l →
      ((b.reqPromptEmbeds.get? e).isSome = true → (b.reqPromptEmbeds.get? l).isSome = true) ∧
      (b.isPoolingModel = true →
        b.logitsProcessingNeedsTokenIds e = b.logitsProcessingNeedsTokenIds l)))

instance (b : InputBatch ε γ) (request : CachedRequestState ε γ) :
    Decidable (AddCarries b request) :=
  inferInstanceAs (Decidable ((request.promptEmbeds.isNone = true →
      (b.reqPromptEmbeds.get? (nextRow b)).isNone = true) ∧
    (b.isPoolingModel = false → AllowsAll request → AllAllowed b (nextRow b))))

instance (b : InputBatch ε γ) (i j : Nat) : Decidable (SwapCarries b i j) :=
  inferInstanceAs (Decidable ((b.isPoolingModel = true →
      b.logitsProcessingNeedsTokenIds i = b.logitsProcessingNeedsTokenIds j) ∧
    (b.isPoolingModel = false → b.maskAt i = b.maskAt j)))

/-- What the worker sees to: the order of the operations in a step, a new request has an id that is
not in the batch, and only rows with requests are swapped. -/
def Legal (s : BatchSystem ε γ) : BatchOp ε γ → Prop
  | .removeRequest _ => s.phase = .removing
  | .addRequest request => s.phase ≠ .condensed ∧
      s.batch.reqIdToIndex.contains request.reqId = false ∧ Suits s.batch request
  | .condense => s.phase ≠ .condensed
  | .swapStates i1 i2 => s.phase = .condensed ∧ i1 < s.batch.numReqs ∧ i2 < s.batch.numReqs
  | .refreshMetadata => s.phase = .condensed
  | .writeRow _ w => s.batch.isPoolingModel = true → w.numAcceptedTokens = 1
  | .setOutput .. => True

/-- The operation carries along all that a row has. -/
def CarriesRow (s : BatchSystem ε γ) : BatchOp ε γ → Prop
  | .addRequest request => AddCarries s.batch request
  | .condense => CondenseCarries s.batch
  | .swapStates i1 i2 => SwapCarries s.batch i1 i2
  | _ => True

instance (s : BatchSystem ε γ) (op : BatchOp ε γ) : Decidable (Legal s op) :=
  match op with
  | .removeRequest _ => inferInstanceAs (Decidable (s.phase = .removing))
  | .addRequest request => inferInstanceAs (Decidable (s.phase ≠ .condensed ∧
      s.batch.reqIdToIndex.contains request.reqId = false ∧ Suits s.batch request))
  | .condense => inferInstanceAs (Decidable (s.phase ≠ .condensed))
  | .swapStates i1 i2 => inferInstanceAs (Decidable (s.phase = .condensed ∧
      i1 < s.batch.numReqs ∧ i2 < s.batch.numReqs))
  | .refreshMetadata => inferInstanceAs (Decidable (s.phase = .condensed))
  | .writeRow _ w => inferInstanceAs (Decidable (s.batch.isPoolingModel = true →
      w.numAcceptedTokens = 1))
  | .setOutput .. => inferInstanceAs (Decidable True)

instance (s : BatchSystem ε γ) (op : BatchOp ε γ) : Decidable (CarriesRow s op) :=
  match op with
  | .removeRequest _ => inferInstanceAs (Decidable True)
  | .addRequest request => inferInstanceAs (Decidable (AddCarries s.batch request))
  | .condense => inferInstanceAs (Decidable (CondenseCarries s.batch))
  | .swapStates i1 i2 => inferInstanceAs (Decidable (SwapCarries s.batch i1 i2))
  | .refreshMetadata => inferInstanceAs (Decidable True)
  | .writeRow .. => inferInstanceAs (Decidable True)
  | .setOutput .. => inferInstanceAs (Decidable True)

/-- What holds of the ids in every state. -/
structure ShapeInv (s : BatchSystem ε γ) : Prop where
  ids : IdsOk s.batch
  holes : s.phase ≠ .condensed → HolesOk s.batch
  full : s.phase = .condensed → FullOk s.batch
  /-- Nothing has read the removed rows yet. -/
  unread : s.phase = .removing → s.batch.batchUpdateBuilder.isRemovedSorted = false ∧
    s.batch.batchUpdateBuilder.added = []
  unmoved : s.phase ≠ .condensed → s.batch.batchUpdateBuilder.moved = []

section Steps
variable {s s' : BatchSystem ε γ} {op : BatchOp ε γ}

theorem removeRequest_shape {id : String} (h : ShapeInv s) (hlegal : Legal s (.removeRequest id))
    (hrun : s.step (.removeRequest id) = .ok s') : ShapeInv s' := by
  have hphase : s.phase = .removing := hlegal
  have hholes := h.holes (by rw [hphase]; decide)
  obtain ⟨⟨index, b'⟩, hremove, hrun⟩ := bind_ok hrun
  cases hrun
  obtain ⟨-, rfl⟩ | ⟨i, hremoved⟩ := removeRequest_spec hremove
  · exact ⟨h.ids, fun _ => hholes, nofun, fun _ => h.unread hphase,
      fun _ => h.unmoved (by rw [hphase]; decide)⟩
  · obtain ⟨hflag, hbuilder⟩ := removedAppend_eq_ok hremoved.builder
    refine ⟨hremoved.idsOk h.ids, fun _ => hremoved.holesOk h.ids hholes, nofun,
      fun _ => ?_, fun _ => ?_⟩
    · show b'.batchUpdateBuilder.isRemovedSorted = false ∧ b'.batchUpdateBuilder.added = []
      rw [hbuilder]
      exact h.unread hphase
    · show b'.batchUpdateBuilder.moved = []
      rw [hbuilder]
      exact h.unmoved (by rw [hphase]; decide)

theorem addRequest_shape {request : CachedRequestState ε γ} (h : ShapeInv s)
    (hlegal : Legal s (.addRequest request)) (hrun : s.step (.addRequest request) = .ok s') :
    ShapeInv s' := by
  obtain ⟨hphase, hnew, hsuits⟩ := hlegal
  have hholes := h.holes hphase
  obtain ⟨⟨i, b'⟩, hadd, hrun⟩ := bind_ok hrun
  cases hrun
  have hadded := addRequest_spec h.ids.outputs_length hsuits hadd
  refine ⟨hadded.idsOk h.ids hholes hnew, fun _ => hadded.holesOk h.ids hholes hnew,
    nofun, nofun, fun _ => ?_⟩
  show b'.batchUpdateBuilder.moved = []
  rw [hadded.builder]
  exact (nextRow_spec h.ids hholes).moved.trans (h.unmoved hphase)

theorem condense_shape (h : ShapeInv s) (hlegal : Legal s .condense)
    (hrun : s.step .condense = .ok s') : ShapeInv s' := by
  obtain ⟨b', hcondense, hrun⟩ := bind_ok hrun
  cases hrun
  obtain ⟨hids, hfull, -⟩ := condense_full h.ids (h.holes hlegal) hcondense
  exact ⟨hids, fun hc => absurd rfl hc, fun _ => hfull, nofun,
    fun hc => absurd rfl hc⟩

theorem swapStates_shape {i1 i2 : Nat} (h : ShapeInv s) (hlegal : Legal s (.swapStates i1 i2))
    (hrun : s.step (.swapStates i1 i2) = .ok s') : ShapeInv s' := by
  obtain ⟨hphase, -, -⟩ := hlegal
  obtain ⟨b', hswap, hrun⟩ := bind_ok hrun
  cases hrun
  have hswapped := swapStates_spec hswap
  refine ⟨hswapped.idsOk h.ids, fun hc => absurd hphase hc,
    fun _ => hswapped.fullOk (h.full hphase), fun hc => ?_, fun hc => absurd hphase hc⟩
  rw [show s.phase = .removing from hc] at hphase
  cases hphase

theorem refreshMetadata_shape (h : ShapeInv s) (hlegal : Legal s .refreshMetadata)
    (hrun : s.step .refreshMetadata = .ok s') : ShapeInv s' := by
  have hfull := h.full hlegal
  cases hrun
  obtain ⟨builder, minP, logitBias, minTokens, heq, hremoved, hflag, hadded, hmoved⟩ :=
    refreshMetadata_spec s.batch s.outputs
  refine ⟨?_, fun _ => ?_, nofun, fun _ => ?_, fun _ => ?_⟩
  · show IdsOk (s.batch.refreshMetadata s.outputs)
    rw [heq]
    refine ⟨h.ids.inverse, h.ids.outputs_length, h.ids.spec_length, h.ids.spec_clear, fun hc => ?_⟩
    rw [show builder.isRemovedSorted = true from hc] at hflag
    cases hflag
  · show HolesOk (s.batch.refreshMetadata s.outputs)
    rw [heq]
    refine ⟨fun i => ?_, ?_, ?_⟩
    · show s.batch.reqIds[i]? = some none ↔ i ∈ builder.removedIndices
      rw [hremoved]
      refine ⟨fun hnone => ?_, fun hmem => absurd hmem not_mem_nil⟩
      have hlt := (List.getElem?_eq_some_iff.mp hnone).1
      obtain ⟨id, hid⟩ := hfull.live i (hfull.length ▸ hlt)
      rw [hid] at hnone
      cases hnone
    · show builder.removedIndices.Nodup
      rw [hremoved]
      exact nodup_nil
    · show s.batch.numReqs + builder.removedIndices.length = s.batch.reqIds.length
      rw [hremoved, hfull.length]
      rfl
  · show (s.batch.refreshMetadata s.outputs).batchUpdateBuilder.isRemovedSorted = false ∧ _
    rw [heq]
    exact ⟨hflag, hadded⟩
  · show (s.batch.refreshMetadata s.outputs).batchUpdateBuilder.moved = []
    rw [heq]
    exact hmoved

theorem writeRow_shape {id : String} {w : RowWrite} (h : ShapeInv s)
    (hrun : s.step (.writeRow id w) = .ok s') : ShapeInv s' := by
  unfold BatchSystem.step at hrun
  dsimp only at hrun
  split at hrun
  · cases hrun
  · rename_i i hlive
    obtain ⟨b', hwrite, hrun⟩ := bind_ok hrun
    cases hrun
    have hwritten := writeRow_spec hwrite
    have hnum : b'.numReqs = s.batch.numReqs := by
      unfold InputBatch.numReqs
      rw [hwritten.reqIdToIndex]
    refine ⟨hwritten.idsOk h.ids hlive, fun hc => ?_, fun hc => ?_, fun hc => ?_, fun hc => ?_⟩
    · obtain ⟨hmem, hnodup, hcount⟩ := h.holes hc
      refine ⟨?_, ?_, ?_⟩
      · show ∀ i, b'.reqIds[i]? = some none ↔ i ∈ b'.batchUpdateBuilder.removedIndices
        rw [hwritten.reqIds, hwritten.builder]
        exact hmem
      · show b'.batchUpdateBuilder.removedIndices.Nodup
        rw [hwritten.builder]
        exact hnodup
      · show b'.numReqs + b'.batchUpdateBuilder.removedIndices.length = b'.reqIds.length
        rw [hwritten.reqIds, hwritten.builder, hnum]
        exact hcount
    · obtain ⟨hlength, hfull⟩ := h.full hc
      refine ⟨?_, ?_⟩
      · show b'.reqIds.length = b'.numReqs
        rw [hwritten.reqIds, hnum, hlength]
      · show ∀ i < b'.numReqs, ∃ id, b'.reqIds[i]? = some (some id)
        rw [hwritten.reqIds, hnum]
        exact hfull
    · show b'.batchUpdateBuilder.isRemovedSorted = false ∧ b'.batchUpdateBuilder.added = []
      rw [hwritten.builder]
      exact h.unread hc
    · show b'.batchUpdateBuilder.moved = []
      rw [hwritten.builder]
      exact h.unmoved hc

/-- Every operation keeps the ids in order. -/
theorem step_shape (h : ShapeInv s) (hlegal : Legal s op) (hrun : s.step op = .ok s') :
    ShapeInv s' := by
  cases op with
  | removeRequest id => exact removeRequest_shape h hlegal hrun
  | addRequest request => exact addRequest_shape h hlegal hrun
  | condense => exact condense_shape h hlegal hrun
  | swapStates i1 i2 => exact swapStates_shape h hlegal hrun
  | refreshMetadata => exact refreshMetadata_shape h hlegal hrun
  | writeRow id w => exact writeRow_shape h hrun
  | setOutput ref tokens =>
    cases hrun
    exact ⟨h.ids, h.holes, h.full, h.unread, h.unmoved⟩

/-- Every operation that carries the rows along keeps them with their requests. -/
theorem step_rows (h : ShapeInv s) (hrows : RowsOk s.owned s.batch) (hlegal : Legal s op)
    (hcarries : CarriesRow s op) (hrun : s.step op = .ok s') : RowsOk s'.owned s'.batch := by
  cases op with
  | removeRequest id =>
    obtain ⟨⟨index, b'⟩, hremove, hrun⟩ := bind_ok hrun
    cases hrun
    obtain ⟨-, rfl⟩ | ⟨i, hremoved⟩ := removeRequest_spec hremove
    · exact hrows
    · exact hremoved.rowsOk hrows
  | addRequest request =>
    obtain ⟨hphase, hnew, hsuits⟩ := hlegal
    obtain ⟨⟨i, b'⟩, hadd, hrun⟩ := bind_ok hrun
    cases hrun
    have hadded := addRequest_spec h.ids.outputs_length hsuits hadd
    exact hadded.rowsOk h.ids (h.holes hphase) hrows hnew hcarries
  | condense =>
    obtain ⟨b', hcondense, hrun⟩ := bind_ok hrun
    cases hrun
    exact condense_rows h.ids (h.holes hlegal) hrows hcarries hcondense
  | swapStates i1 i2 =>
    obtain ⟨b', hswap, hrun⟩ := bind_ok hrun
    cases hrun
    exact (swapStates_spec hswap).rowsOk hrows hcarries
  | refreshMetadata =>
    cases hrun
    obtain ⟨builder, minP, logitBias, minTokens, heq, -⟩ := refreshMetadata_spec s.batch s.outputs
    show RowsOk s.owned (s.batch.refreshMetadata s.outputs)
    rw [heq]
    exact ⟨hrows.accepted, hrows.flags, hrows.sparse, hrows.rows⟩
  | writeRow id w =>
    unfold BatchSystem.step at hrun
    dsimp only at hrun
    split at hrun
    · cases hrun
    · rename_i i hlive
      obtain ⟨b', hwrite, hrun⟩ := bind_ok hrun
      cases hrun
      exact (writeRow_spec hwrite).rowsOk h.ids hrows hlive hlegal
  | setOutput ref tokens =>
    cases hrun
    exact hrows

end Steps

/-- A worker that has no requests yet. -/
def freshWorker (isPoolingModel isSpecDecode : Bool) (maxNumReqs vocabSize : Nat)
    (blockTables : List BlockTable) : BatchSystem ε γ where
  batch := .init isPoolingModel isSpecDecode maxNumReqs vocabSize blockTables

section Fresh
variable (isPoolingModel isSpecDecode : Bool) (maxNumReqs vocabSize : Nat)
  (blockTables : List BlockTable)

theorem shapeInv_fresh : ShapeInv
    (freshWorker isPoolingModel isSpecDecode maxNumReqs vocabSize blockTables :
      BatchSystem ε γ) := by
  refine ⟨⟨fun id i => ?_, rfl, Nat.zero_le _, fun j l _ hl => ?_, nofun⟩,
    fun _ => ⟨fun i => ?_, nodup_nil, rfl⟩, nofun, fun _ => ⟨rfl, rfl⟩,
    fun _ => rfl⟩
  · show (empty : PyDict String Nat).get? id = some i ↔ ([] : List (Option String))[i]? = _
    simp
  · have hmem := mem_of_getElem? hl
    exact eq_of_mem_replicate hmem
  · show ([] : List (Option String))[i]? = some none ↔ i ∈ []
    simp

theorem rowsOk_fresh : RowsOk (fun _ => none)
    (freshWorker isPoolingModel isSpecDecode maxNumReqs vocabSize blockTables :
      BatchSystem ε γ).batch :=
  ⟨fun _ _ => rfl, fun _ _ => rfl, fun _ _ _ => ⟨rfl, rfl⟩, fun i id hid => by
    change ([] : List (Option String))[i]? = some (some id) at hid
    simp at hid⟩

end Fresh

/-- The rows are as many as there are requests, the ids and the rows are inverse to each other, and
each row has what belongs to its request. -/
structure Consistent (s : BatchSystem ε γ) : Prop where
  length : s.batch.reqIds.length = s.batch.numReqs
  live : ∀ i < s.batch.numReqs, ∃ id, s.batch.reqIds[i]? = some (some id)
  inverse : ∀ id i, s.batch.reqIdToIndex.get? id = some i ↔ s.batch.reqIds[i]? = some (some id)
  rows : ∀ i id, s.batch.reqIds[i]? = some (some id) → s.owned id = some (s.batch.rowAt i)

/-- After the rows are condensed and swapped, each row has what belongs to its request. -/
theorem consistent_of_run {isPoolingModel isSpecDecode : Bool} {maxNumReqs vocabSize : Nat}
    {blockTables : List BlockTable} {s : BatchSystem ε γ}
    (hrun : Run BatchSystem.step (fun s op => Legal s op ∧ CarriesRow s op)
      (freshWorker isPoolingModel isSpecDecode maxNumReqs vocabSize blockTables) s)
    (hphase : s.phase = .condensed) : Consistent s := by
  have hinv := hrun.invariant (fun s => ShapeInv s ∧ RowsOk s.owned s.batch)
    ⟨shapeInv_fresh .., rowsOk_fresh ..⟩
    fun s op s' h hC hs => ⟨step_shape h.1 hC.1 hs, step_rows h.1 h.2 hC.1 hC.2 hs⟩
  obtain ⟨hlength, hlive⟩ := hinv.1.full hphase
  exact ⟨hlength, hlive, hinv.1.ids.inverse, hinv.2.rows⟩

/-- A request that samples after a prompt of one token. -/
def shortRequest (id : String) (ref : OutputRef) : CachedRequestState Nat Nat where
  reqId := id
  promptTokenIds := some [1]
  samplingParams := some {}
  outputTokenIds := ref

/-- Three requests come, the first leaves, the last fills its row, and the two rows are swapped. -/
theorem consistent_swapped : ∃ s : BatchSystem Nat Nat,
    s.batch.reqIds = [some "b", some "c"] ∧ Consistent s := by
  obtain ⟨s₀, s, hstart, hrun, hphase, hids⟩ := exists_run_of_check
    (@BatchSystem.step Nat Nat) (fun s op => Legal s op ∧ CarriesRow s op)
    (fun s => s.phase = .condensed ∧ s.batch.reqIds = [some "b", some "c"])
    (.ok (freshWorker false false 4 8 []))
    [.addRequest (shortRequest "a" 0), .addRequest (shortRequest "b" 1),
      .addRequest (shortRequest "c" 2), .condense, .refreshMetadata, .removeRequest "a",
      .condense, .swapStates 0 1] (by decide +kernel)
  cases hstart
  exact ⟨s, hids, consistent_of_run hrun hphase⟩

/-- The embeddings of a prompt stay in its row when the request leaves, and the next request in the
row has none of its own. -/
theorem promptEmbeds_stay : ∃ s : BatchSystem Nat Nat,
    Run BatchSystem.step Legal (freshWorker false false 4 8 []) s ∧ s.phase = .condensed ∧
      ¬ Consistent s := by
  obtain ⟨s₀, s, hstart, hrun, hphase, hids, howned, hembeds⟩ := exists_run_of_check
    (@BatchSystem.step Nat Nat) Legal
    (fun s => s.phase = .condensed ∧ s.batch.reqIds = [some "b"] ∧
      (s.owned "b").map Row.promptEmbeds = some none ∧
      s.batch.reqPromptEmbeds.get? 0 = some [7])
    (.ok (freshWorker false false 4 8 []))
    [.addRequest { shortRequest "a" 0 with
        promptTokenIds := none
        promptEmbeds := some [7] }, .condense, .refreshMetadata, .removeRequest "a",
      .addRequest (shortRequest "b" 1), .condense] (by decide +kernel)
  cases hstart
  refine ⟨s, hrun, hphase, fun hconsistent => ?_⟩
  have hrow := hconsistent.rows 0 "b" (by rw [hids]; rfl)
  rw [hrow] at howned
  have hnone : s.batch.reqPromptEmbeds.get? 0 = none := Option.some.inj howned
  rw [hembeds] at hnone
  cases hnone

end Vllm.Proofs.Worker
