import Vllm.V1.Worker.InputBatch
import Vllm.Lib.Run

/-!
# `Vllm.Proofs.Worker.BatchRows`: the rows of the persistent batch

Four operations change the rows of the batch: a request is removed or added, the rows are condensed,
and two rows are swapped. Each of them has to carry along everything that the batch has in a row.

* `Popped`: what the builder gives out is the lowest removed row.
* `rowAt_move`, `rowAt_swap`, `rowAt_add`: what the operations do to a row, as a whole.
* `RowsOk`: the ids and their rows, and what each row has.
* `consistent_of_run`: after the rows are condensed and swapped, each row has what belongs to its
  request.

Four columns are not carried along everywhere, and `CarriesRow` says when this makes no difference.
The embeddings of a prompt stay in the row of a removed request. The mask of the allowed tokens
stays in the row that a request moves away from, and a swap copies one mask over the other. The flag
for token ids of pooling models stays where it is in moves and in swaps.
-/

set_option autoImplicit false

namespace Vllm.Proofs.Worker

open Vllm.Lib Vllm.V1.Sample Vllm.V1.Worker Vllm.V1.Worker.InputBatch InputBatch Function BlockTable
  List

variable {ε γ : Type}

/-! ### Columns -/

section Columns
variable {α ν : Type}

@[simp] theorem swapEntries_left (a : Nat → α) (i j : Nat) : swapEntries a i j i = a j := by
  unfold swapEntries
  by_cases h : i = j
  · subst h
    simp
  · simp [update_of_ne h]

@[simp] theorem swapEntries_right (a : Nat → α) (i j : Nat) : swapEntries a i j j = a i := by
  simp [swapEntries]

variable {i j k : Nat}

theorem swapEntries_of_ne (a : Nat → α) (hi : k ≠ i) (hj : k ≠ j) : swapEntries a i j k = a k := by
  simp [swapEntries, hi, hj]

@[simp] theorem copyEntry_self (a : Nat → α) (last empty : Nat) :
    copyEntry a last empty empty = a last := by
  simp [copyEntry]

variable {last empty : Nat}

theorem copyEntry_of_ne (a : Nat → α) (h : k ≠ empty) : copyEntry a last empty k = a k := by
  simp [copyEntry, h]

@[simp] theorem get?_putOrPop_self (d : PyDict Nat ν) (k : Nat) (v : Option ν) :
    (putOrPop d k v).get? k = v := by
  cases v <;> simp [putOrPop]

theorem get?_putOrPop_of_ne (d : PyDict Nat ν) {k' : Nat} (v : Option ν) (h : k' ≠ k) :
    (putOrPop d k v).get? k' = d.get? k' := by
  cases v <;> simp [putOrPop, h]

@[simp] theorem get?_swapDictValues_left (d : PyDict Nat ν) (i j : Nat) :
    (swapDictValues d i j).get? i = d.get? j := by
  simp [swapDictValues]

@[simp] theorem get?_swapDictValues_right (d : PyDict Nat ν) (i j : Nat) :
    (swapDictValues d i j).get? j = d.get? i := by
  unfold swapDictValues
  dsimp only
  by_cases h : j = i
  · subst h
    simp
  · rw [get?_putOrPop_of_ne _ _ h, get?_putOrPop_self]

theorem get?_swapDictValues_of_ne (d : PyDict Nat ν) (hi : k ≠ i) (hj : k ≠ j) :
    (swapDictValues d i j).get? k = d.get? k := by
  unfold swapDictValues
  dsimp only
  rw [get?_putOrPop_of_ne _ _ hi, get?_putOrPop_of_ne _ _ hj]

/-- A dict moves a row, when the row it goes to has nothing. -/
theorem get?_moveDictValue (d : PyDict Nat ν) (hne : empty ≠ last) (hempty : d.get? empty = none)
    (k : Nat) :
    (moveDictValue d last empty).get? k =
      if k = empty then d.get? last else if k = last then none else d.get? k := by
  unfold moveDictValue
  cases hlast : d.get? last with
  | none =>
    by_cases hk : k = empty
    · simp [hk, hne, hempty]
    · by_cases hk' : k = last <;> simp [hk, hk']
  | some v =>
    by_cases hk : k = empty
    · simp [hk]
    · by_cases hk' : k = last
      · simp [hk', hne.symm]
      · simp [hk, hk']

theorem copyPrefix_self (a : Nat → Nat → α) {n : Nat} (h : j < n) :
    copyPrefix a last empty n empty j = a last j := by
  simp [copyPrefix, h]

theorem copyPrefix_of_ne (a : Nat → Nat → α) {n : Nat} (h : k ≠ empty) :
    copyPrefix a last empty n k = a k := by
  simp [copyPrefix, h]

theorem writeSlice_of_lt (row : Nat → α) {start : Nat} (values : List α) (h : j < start) :
    writeSlice row start values j = row j := by
  unfold writeSlice
  rw [if_neg (Nat.not_le.mpr h)]

variable {v : α}

theorem writeSlice_add (row : Nat → α) (start : Nat) {values : List α} {x : Nat}
    (h : values[x]? = some v) : writeSlice row start values (start + x) = v := by
  unfold writeSlice
  rw [if_pos (Nat.le_add_right start x), Nat.add_sub_cancel_left, h, Option.getD_some]

/-- A function of the entries that were written. -/
theorem map_writeSlice (row : Nat → α) (start : Nat) (values : List α) :
    (List.range values.length).map (writeSlice row start values ∘ fun x => start + x) =
      values := by
  refine ext_getElem? fun x => ?_
  rw [List.getElem?_map]
  by_cases hx : x < values.length
  · have hv := List.getElem?_eq_getElem hx
    rw [List.getElem?_range hx, hv, Option.map_some, comp_apply, writeSlice_add _ _ hv]
  · rw [List.getElem?_eq_none (by simpa using hx), List.getElem?_eq_none (by simpa using hx)]
    rfl

variable {l l' : List α}

theorem setItem_eq_ok_iff : setItem l i v = .ok l' ↔ i < l.length ∧ l' = l.set i v := by
  unfold setItem
  split
  · simp only [Except.ok.injEq]
    exact ⟨fun h => ⟨‹_›, h.symm⟩, fun h => h.2.symm⟩
  · simp only [reduceCtorEq, false_iff]
    exact fun h => absurd h.1 ‹_›

theorem getItem_eq_ok_iff : getItem l i = .ok v ↔ l[i]? = some v := by
  unfold getItem
  split <;> simp_all

theorem swapItems_eq_ok (h : swapItems l i j = .ok l') :
    ∃ v w, l[i]? = some v ∧ l[j]? = some w ∧ l' = (l.set i w).set j v := by
  unfold swapItems at h
  obtain ⟨v, hv, h⟩ := bind_ok h
  obtain ⟨w, hw, h⟩ := bind_ok h
  cases h
  exact ⟨v, w, getItem_eq_ok_iff.mp hv, getItem_eq_ok_iff.mp hw, rfl⟩

/-- The entries of a list after two of them are swapped. -/
theorem getElem?_swapItems (h : swapItems l i j = .ok l') (k : Nat) :
    l'[k]? = if k = j then l[i]? else if k = i then l[j]? else l[k]? := by
  obtain ⟨v, w, hv, hw, rfl⟩ := swapItems_eq_ok h
  have hi : i < l.length := (List.getElem?_eq_some_iff.mp hv).1
  have hj : j < l.length := (List.getElem?_eq_some_iff.mp hw).1
  rw [List.getElem?_set, length_set, List.getElem?_set]
  by_cases hk : k = j
  · simp [hk, hj, hv]
  · rw [if_neg (Ne.symm hk), if_neg hk]
    by_cases hk' : k = i
    · simp [hk', hi, hw]
    · rw [if_neg (Ne.symm hk'), if_neg hk']

theorem length_swapItems (h : swapItems l i j = .ok l') : l'.length = l.length := by
  obtain ⟨v, w, -, -, rfl⟩ := swapItems_eq_ok h
  simp

end Columns

/-! ### Block tables -/

section Blocks

/-- The row of a table that was moved. -/
theorem blocksAt_moveRow (t : BlockTable) (src tgt : Nat) :
    (t.moveRow src tgt).blocksAt tgt = t.blocksAt src := by
  unfold blocksAt moveRow
  simp only [update_self]
  refine map_congr_left fun j hj => ?_
  rw [if_pos (mem_range.mp hj)]

theorem blocksAt_moveRow_of_ne (t : BlockTable) {src tgt k : Nat} (h : k ≠ tgt) :
    (t.moveRow src tgt).blocksAt k = t.blocksAt k := by
  simp [blocksAt, moveRow, h]

theorem swapRow_eq (t : BlockTable) (i j : Nat) : t.swapRow i j = { t with
    numBlocksPerRow := swapEntries t.numBlocksPerRow i j
    blockTable := swapEntries t.blockTable i j } := rfl

theorem blocksAt_swapRow (t : BlockTable) (i j k : Nat) : (t.swapRow i j).blocksAt k =
      if k = j then t.blocksAt i else if k = i then t.blocksAt j else t.blocksAt k := by
  unfold blocksAt
  rw [swapRow_eq]
  by_cases hj : k = j
  · simp [hj]
  · by_cases hi : k = i
    · subst hi
      simp [hj]
    · simp [hi, hj, swapEntries_of_ne _ hi hj]

variable {i : Nat}

/-- What a table has in a row after ids are appended. -/
theorem blocksAt_appendRow {t t' : BlockTable} {ids : List Nat} (h : t.appendRow ids i = .ok t') :
    t'.blocksAt i = t.blocksAt i ++ t.kernelBlockIds ids ∧
      ∀ k, k ≠ i → t'.blocksAt k = t.blocksAt k := by
  unfold appendRow at h
  split at h
  · rename_i hnil
    cases h
    refine ⟨?_, fun k _ => rfl⟩
    rw [hnil]
    unfold kernelBlockIds mapToKernelBlocks
    simp
  · dsimp only at h
    split at h
    · cases h
    · split at h
      · cases h
      · cases h
        refine ⟨?_, fun k hk => ?_⟩
        · unfold blocksAt
          simp only [update_self]
          rw [range_add, map_append, map_map]
          congr 1
          · refine map_congr_left fun j hj => ?_
            exact writeSlice_of_lt _ _ (mem_range.mp hj)
          · exact map_writeSlice (t.blockTable i) (t.numBlocksPerRow i) (t.kernelBlockIds ids)
        · simp [blocksAt, hk]

theorem blocksAt_addRow {t t' : BlockTable} {ids : List Nat} (h : t.addRow ids i = .ok t') :
    t'.blocksAt i = t.kernelBlockIds ids ∧ ∀ k, k ≠ i → t'.blocksAt k = t.blocksAt k := by
  unfold addRow at h
  split at h
  · cases h
  · obtain ⟨hself, hother⟩ := blocksAt_appendRow h
    refine ⟨?_, fun k hk => ?_⟩
    · rw [hself]
      simp [blocksAt, kernelBlockIds]
    · rw [hother k hk]
      simp [blocksAt, hk]

variable {tables tables' : List BlockTable}

theorem blocksAt_addBlockRow {ids : List (List Nat)} (h : addBlockRow tables ids i = .ok tables') :
    tables'.map (fun t => t.blocksAt i) =
        List.zipWith (fun t ids => t.kernelBlockIds ids) tables ids ∧
      ∀ k, k ≠ i → tables'.map (fun t => t.blocksAt k) = tables.map fun t => t.blocksAt k := by
  induction tables generalizing ids tables' with
  | nil =>
    cases h
    exact ⟨rfl, fun _ _ => rfl⟩
  | cons t tables ih =>
    cases ids with
    | nil => cases h
    | cons id ids =>
      obtain ⟨t', ht, h⟩ := bind_ok h
      obtain ⟨rest, hrest, h⟩ := bind_ok h
      cases h
      obtain ⟨hself, hother⟩ := blocksAt_addRow ht
      obtain ⟨hself', hother'⟩ := ih hrest
      refine ⟨?_, fun k hk => ?_⟩
      · rw [map_cons, hself, hself']
        rfl
      · rw [map_cons, hother k hk, hother' k hk]
        rfl

theorem blocksAt_appendBlockRow {ids : List (List Nat)}
    (h : appendBlockRow tables ids i = .ok tables') (k : Nat) (hk : k ≠ i) :
    tables'.map (fun t => t.blocksAt k) = tables.map fun t => t.blocksAt k := by
  induction tables generalizing ids tables' with
  | nil =>
    cases h
    rfl
  | cons t tables ih =>
    cases ids with
    | nil => cases h
    | cons id ids =>
      obtain ⟨t', ht, h⟩ := bind_ok h
      obtain ⟨rest, hrest, h⟩ := bind_ok h
      cases h
      rw [map_cons, (blocksAt_appendRow ht).2 k hk, ih hrest]
      rfl

end Blocks

/-! ### The builder -/

section Builder
variable {b : BatchUpdateBuilder}

/-- A list that was sorted is sorted. -/
def SortedOk (b : BatchUpdateBuilder) : Prop :=
  b.isRemovedSorted = true → b.removedIndices.Pairwise (· ≥ ·)

theorem ensureRemovedSorted_spec (h : SortedOk b) :
    b.ensureRemovedSorted.removedIndices.Perm b.removedIndices ∧
      b.ensureRemovedSorted.removedIndices.Pairwise (· ≥ ·) ∧
      b.ensureRemovedSorted.isRemovedSorted = true ∧
      b.ensureRemovedSorted.added = b.added ∧ b.ensureRemovedSorted.moved = b.moved := by
  unfold BatchUpdateBuilder.ensureRemovedSorted
  split
  · exact ⟨.refl _, h ‹_›, ‹_›, rfl, rfl⟩
  · exact ⟨perm_insertionSort _ _, pairwise_insertionSort _ _, rfl, rfl, rfl⟩

/-- What `pop_removed` gives out. -/
structure Popped (b : BatchUpdateBuilder) (e : Nat) (b' : BatchUpdateBuilder) : Prop where
  perm : b.removedIndices.Perm (e :: b'.removedIndices)
  lowest : ∀ x ∈ b.removedIndices, e ≤ x
  sorted : SortedOk b'
  added : b'.added = b.added
  moved : b'.moved = b.moved

theorem popRemoved_spec (h : SortedOk b) (hne : b.removedIndices ≠ []) :
    ∃ e, b.popRemoved.1 = some e ∧ b.peekRemoved.1 = some e ∧ Popped b e b.popRemoved.2 := by
  obtain ⟨hperm, hsorted, hflag, hadded, hmoved⟩ := ensureRemovedSorted_spec h
  have hne' : b.ensureRemovedSorted.removedIndices ≠ [] := by
    intro hnil
    rw [hnil] at hperm
    exact hne hperm.symm.eq_nil
  have hhas : b.hasRemoved = true := by
    unfold BatchUpdateBuilder.hasRemoved
    simpa using hne
  have hlast := List.getLast?_eq_some_getLast hne'
  have hsplit := dropLast_append_getLast hne'
  have hpop : b.popRemoved = (b.ensureRemovedSorted.removedIndices.getLast?,
      { b.ensureRemovedSorted with
        removedIndices := b.ensureRemovedSorted.removedIndices.dropLast }) := by
    unfold BatchUpdateBuilder.popRemoved
    rw [if_pos hhas]
  have hpeek : b.peekRemoved.1 = b.ensureRemovedSorted.removedIndices.getLast? := by
    unfold BatchUpdateBuilder.peekRemoved
    rw [if_pos hhas]
  rw [hpop, hpeek]
  refine ⟨_, hlast, hlast, ?_, fun x hx => ?_, fun _ => ?_, hadded, hmoved⟩
  · refine hperm.symm.trans ?_
    nth_rewrite 1 [← hsplit]
    exact perm_append_singleton _ _
  · have hx' := hperm.mem_iff.mpr hx
    rw [← hsplit, pairwise_append] at hsorted
    rw [← hsplit] at hx'
    rcases mem_append.mp hx' with hx' | hx'
    · exact hsorted.2.2 x hx' _ (mem_singleton_self _)
    · exact (mem_singleton.mp hx').symm.le
  · exact hsorted.sublist (dropLast_sublist _)

theorem popRemoved_nil (h : b.removedIndices = []) : b.popRemoved = (none, b) := by
  unfold BatchUpdateBuilder.popRemoved BatchUpdateBuilder.hasRemoved
  simp [h]

end Builder

/-! ### What the operations do to a row -/

section Rows
variable {b b' : InputBatch ε γ}

/-- The arrays that all models use: `b'` has in the row `i'` what `b` has in the row `i`. -/
structure SameColumns (b : InputBatch ε γ) (i : Nat) (b' : InputBatch ε γ) (i' : Nat) : Prop where
  tokens : b'.tokensAt i' = b.tokensAt i
  embeds : b'.reqPromptEmbeds.get? i' = b.reqPromptEmbeds.get? i
  numTokens : b'.numTokens i' = b.numTokens i
  numTokensNoSpec : b'.numTokensNoSpec i' = b.numTokensNoSpec i
  numPromptTokens : b'.numPromptTokens i' = b.numPromptTokens i
  numComputedTokens : b'.numComputedTokensCpu i' = b.numComputedTokensCpu i
  blocks : (b'.blockTables.map fun t => t.blocksAt i') = b.blockTables.map fun t => t.blocksAt i
  lora : b'.requestLoraMapping i' = b.requestLoraMapping i

theorem SameColumns.refl (b : InputBatch ε γ) (i : Nat) : SameColumns b i b i :=
  ⟨rfl, rfl, rfl, rfl, rfl, rfl, rfl, rfl⟩

/-- The whole row. -/
structure SameRow (b : InputBatch ε γ) (i : Nat) (b' : InputBatch ε γ) (i' : Nat) : Prop where
  columns : SameColumns b i b' i'
  outputs : (b'.reqOutputTokenIds[i']?).getD none = (b.reqOutputTokenIds[i]?).getD none
  spec : (b'.specTokenIds[i']?).getD [] = (b.specTokenIds[i]?).getD []
  accepted : b'.numAcceptedTokensCpu i' = b.numAcceptedTokensCpu i
  flag : b'.logitsProcessingNeedsTokenIds i' = b.logitsProcessingNeedsTokenIds i
  pooling : b'.isPoolingModel = b.isPoolingModel
  sampling : b.isPoolingModel = false → b'.samplingAt i' = b.samplingAt i

variable {i : Nat}

theorem SameRow.rowAt_eq {i' : Nat} (h : SameRow b i b' i') : b'.rowAt i' = b.rowAt i := by
  obtain ⟨hcolumns, houtputs, hspec, haccepted, hflag, hpooling, hsampling⟩ := h
  unfold rowAt
  rw [houtputs, hspec, hcolumns.tokens, hcolumns.embeds, hcolumns.numTokens,
    hcolumns.numTokensNoSpec, hcolumns.numPromptTokens, hcolumns.numComputedTokens,
    hcolumns.blocks, hcolumns.lora, haccepted, hflag, hpooling]
  cases hpool : b.isPoolingModel with
  | true => rfl
  | false => rw [hsampling hpool]

theorem removeLora_spec {id : String} (h : b.removeLora id i = .ok b') :
    ∃ ids requests mapping, b' = { b with
        loraIdToRequestIds := ids
        loraIdToLoraRequest := requests
        requestLoraMapping := mapping } ∧ ∀ k, k ≠ i → mapping k = b.requestLoraMapping k := by
  unfold removeLora at h
  dsimp only at h
  split at h
  · cases h
    exact ⟨_, _, _, rfl, fun _ _ => rfl⟩
  · split at h
    · cases h
    · cases h
      exact ⟨_, _, _, rfl, fun k hk => update_of_ne hk ..⟩

/-- A request is removed from the row `i`. -/
structure Removed (b : InputBatch ε γ) (id : String) (i : Nat) (b' : InputBatch ε γ) : Prop where
  live : b.reqIdToIndex.get? id = some i
  reqIdToIndex : b'.reqIdToIndex = b.reqIdToIndex.erase id
  lt : i < b.reqIds.length
  reqIds : b'.reqIds = b.reqIds.set i none
  outputs : b'.reqOutputTokenIds = b.reqOutputTokenIds.set i none
  spec : b'.specTokenIds = b.specTokenIds.set i []
  builder : b.batchUpdateBuilder.removedAppend i = .ok b'.batchUpdateBuilder
  pooling : b'.isPoolingModel = b.isPoolingModel
  accepted : b'.numAcceptedTokensCpu = b.numAcceptedTokensCpu
  flags : b'.logitsProcessingNeedsTokenIds = b.logitsProcessingNeedsTokenIds
  sparse : b.isPoolingModel = false → b'.generators = b.generators.erase i ∧
    b'.badWordsTokenIds = b.badWordsTokenIds.erase i
  processors : b'.minP = b.minP ∧ b'.logitBias = b.logitBias ∧ b'.minTokens = b.minTokens
  rows : ∀ k, k ≠ i → b'.rowAt k = b.rowAt k

theorem removeRequest_spec {id : String} {index : Option Nat}
    (h : b.removeRequest id = .ok (index, b')) :
    b.reqIdToIndex.get? id = none ∧ b' = b ∨ ∃ i, Removed b id i b' := by
  unfold removeRequest at h
  split at h
  · rename_i hnone
    cases h
    exact .inl ⟨hnone, rfl⟩
  · rename_i i hlive
    obtain ⟨builder, hbuilder, h⟩ := bind_ok h
    obtain ⟨reqIds, hreqIds, h⟩ := bind_ok h
    obtain ⟨outputs, houtputs, h⟩ := bind_ok h
    obtain ⟨spec, hspec, h⟩ := bind_ok h
    obtain ⟨b1, hlora, h⟩ := bind_ok h
    obtain ⟨hlt, rfl⟩ := setItem_eq_ok_iff.mp hreqIds
    obtain ⟨-, rfl⟩ := setItem_eq_ok_iff.mp houtputs
    obtain ⟨-, rfl⟩ := setItem_eq_ok_iff.mp hspec
    obtain ⟨ids, requests, mapping, rfl, hmapping⟩ := removeLora_spec hlora
    refine .inr ⟨i, ?_⟩
    split at h
    · rename_i hpool
      cases h
      refine ⟨hlive, rfl, hlt, rfl, rfl, rfl, hbuilder, rfl, rfl, rfl, fun hnot => ?_,
        ⟨rfl, rfl, rfl⟩, fun k hk => ?_⟩
      · exact absurd (show b.isPoolingModel = true from hpool) (by rw [hnot]; decide)
      · exact SameRow.rowAt_eq {
          columns := { SameColumns.refl b k with lora := hmapping k hk }
          outputs := by simp [List.getElem?_set_ne (Ne.symm hk)]
          spec := by simp [List.getElem?_set_ne (Ne.symm hk)]
          accepted := rfl
          flag := rfl
          pooling := rfl
          sampling := fun _ => rfl }
    · cases h
      refine ⟨hlive, rfl, hlt, rfl, rfl, rfl, hbuilder, rfl, rfl, rfl, fun _ => ⟨rfl, rfl⟩,
        ⟨rfl, rfl, rfl⟩, fun k hk => ?_⟩
      exact SameRow.rowAt_eq {
        columns := { SameColumns.refl b k with lora := hmapping k hk }
        outputs := by simp [removeSampling, List.getElem?_set_ne (Ne.symm hk)]
        spec := by simp [removeSampling, List.getElem?_set_ne (Ne.symm hk)]
        accepted := rfl
        flag := rfl
        pooling := rfl
        sampling := fun _ => by
          simp only [samplingAt, removeSampling, maskAt, PyDict.get?_erase_of_ne _ hk]
          cases b.allowedTokenIdsMaskCpuTensor <;> simp [hk] }

/-- A request moves from the row `last` to the row `empty`. -/
structure Moved (b : InputBatch ε γ) (last empty : Nat) (b' : InputBatch ε γ) : Prop where
  live : ∃ id, b.reqIds[last]? = some (some id) ∧
    b'.reqIdToIndex = b.reqIdToIndex.insert id empty ∧
    b'.reqIds = (b.reqIds.set empty (some id)).set last none
  lt : empty < b.reqIds.length
  outputs_length : b'.reqOutputTokenIds.length = b.reqOutputTokenIds.length
  spec_length : b'.specTokenIds.length = b.specTokenIds.length
  spec_others : ∀ k, k ≠ empty → k ≠ last → b'.specTokenIds[k]? = b.specTokenIds[k]?
  spec_last : b'.specTokenIds[last]? = some []
  removed : b'.batchUpdateBuilder.removedIndices = b.batchUpdateBuilder.removedIndices
  sorted : b'.batchUpdateBuilder.isRemovedSorted = b.batchUpdateBuilder.isRemovedSorted
  added : b'.batchUpdateBuilder.added = b.batchUpdateBuilder.added
  moved : b'.batchUpdateBuilder.moved = b.batchUpdateBuilder.moved ++
    if b.isPoolingModel then [] else [⟨last, empty, .unidirectional⟩]
  pooling : b'.isPoolingModel = b.isPoolingModel
  accepted : b.isPoolingModel = true → b'.numAcceptedTokensCpu = b.numAcceptedTokensCpu
  flags : b'.logitsProcessingNeedsTokenIds = b.logitsProcessingNeedsTokenIds
  embeds : ∀ k, k ≠ empty → k ≠ last →
    b'.reqPromptEmbeds.get? k = b.reqPromptEmbeds.get? k
  sparse : b.isPoolingModel = false →
    b'.generators = moveDictValue b.generators last empty ∧
    b'.badWordsTokenIds = moveDictValue b.badWordsTokenIds last empty
  processors : b'.minP = b.minP ∧ b'.logitBias = b.logitBias ∧ b'.minTokens = b.minTokens
  others : ∀ k, k ≠ empty → k ≠ last → (b.isPoolingModel = false →
      b.generators.get? empty = none ∧ b.badWordsTokenIds.get? empty = none) →
    b'.rowAt k = b.rowAt k
  row : (b.isPoolingModel = false →
      b.generators.get? empty = none ∧ b.badWordsTokenIds.get? empty = none) →
    ((b.reqPromptEmbeds.get? empty).isSome → (b.reqPromptEmbeds.get? last).isSome) →
    b.logitsProcessingNeedsTokenIds empty = b.logitsProcessingNeedsTokenIds last →
    (b.isPoolingModel = true → b.numAcceptedTokensCpu empty = b.numAcceptedTokensCpu last) →
    b'.rowAt empty = b.rowAt last

/-- The tokens of a row are those up to `num_tokens`. -/
theorem tokensAt_congr {i' : Nat} (hnum : b'.numTokens i' = b.numTokens i)
    (hids : ∀ j < b.numTokens i, b'.tokenIdsCpu i' j = b.tokenIdsCpu i j)
    (his : ∀ j < b.numTokens i, b'.isTokenIds i' j = b.isTokenIds i j) :
    b'.tokensAt i' = b.tokensAt i := by
  unfold tokensAt
  rw [hnum]
  refine map_congr_left fun j hj => ?_
  rw [hids j (mem_range.mp hj), his j (mem_range.mp hj)]

variable {last empty : Nat}

/-- The arrays after a move. The embeddings move only if the request has some. -/
theorem moveColumns_row
    (hembeds : (b.reqPromptEmbeds.get? empty).isSome → (b.reqPromptEmbeds.get? last).isSome) :
    SameColumns b last (b.moveColumns last empty) empty where
  tokens := by
    refine tokensAt_congr (update_self ..) (fun j hj => ?_) (fun j hj => ?_)
    · exact copyPrefix_self _ hj
    · exact copyPrefix_self _ hj
  embeds := by
    unfold moveColumns
    dsimp only
    cases hlast : b.reqPromptEmbeds.get? last with
    | some e => simp
    | none =>
      cases hempty : b.reqPromptEmbeds.get? empty with
      | none => rfl
      | some e =>
        rw [hempty, hlast] at hembeds
        cases hembeds rfl
  numTokens := update_self ..
  numTokensNoSpec := copyEntry_self ..
  numPromptTokens := copyEntry_self ..
  numComputedTokens := copyEntry_self ..
  blocks := by
    unfold moveColumns
    simp [blocksAt_moveRow]
  lora := copyEntry_self ..

variable {k : Nat}

theorem moveColumns_others (hempty : k ≠ empty) (hlast : k ≠ last) :
    SameColumns b k (b.moveColumns last empty) k where
  tokens := by
    refine tokensAt_congr (update_of_ne hempty ..) (fun j _ => ?_) (fun j _ => ?_)
    · exact congrFun (copyPrefix_of_ne _ hempty) j
    · exact congrFun (copyPrefix_of_ne _ hempty) j
  embeds := by
    unfold moveColumns
    dsimp only
    split <;> simp [hempty, hlast]
  numTokens := update_of_ne hempty ..
  numTokensNoSpec := copyEntry_of_ne _ hempty
  numPromptTokens := copyEntry_of_ne _ hempty
  numComputedTokens := copyEntry_of_ne _ hempty
  blocks := by
    unfold moveColumns
    simp [blocksAt_moveRow_of_ne _ hempty]
  lora := copyEntry_of_ne _ hempty

/-- What a row has for sampling after a move to a row without a generator and bad words. -/
theorem samplingAt_moveSampling (hne : empty ≠ last) (hgen : b.generators.get? empty = none)
    (hbad : b.badWordsTokenIds.get? empty = none) (k : Nat) (hk : k ≠ last) :
    (b.moveSampling last empty).samplingAt k = b.samplingAt (if k = empty then last else k) := by
  by_cases h : k = empty
  · subst h
    simp only [samplingAt, moveSampling, maskAt, copyEntry_self, if_pos,
      get?_moveDictValue _ hne hgen, get?_moveDictValue _ hne hbad]
    cases b.allowedTokenIdsMaskCpuTensor <;> simp
  · simp only [samplingAt, moveSampling, maskAt, copyEntry_of_ne _ h, if_neg h, if_neg hk,
      get?_moveDictValue _ hne hgen, get?_moveDictValue _ hne hbad]
    cases b.allowedTokenIdsMaskCpuTensor <;> simp [copyEntry_of_ne _ h]

theorem moveRequest_spec (hne : empty ≠ last) (h : b.moveRequest last empty = .ok b') :
    Moved b last empty b' := by
  unfold moveRequest at h
  obtain ⟨reqId, hreqId, h⟩ := bind_ok h
  obtain ⟨output, houtput, h⟩ := bind_ok h
  replace hreqId := getItem_eq_ok_iff.mp hreqId
  replace houtput := getItem_eq_ok_iff.mp houtput
  cases reqId with
  | none => cases h
  | some id =>
    dsimp only at h
    obtain ⟨reqIds₁, hr1, h⟩ := bind_ok h
    obtain ⟨reqIds₂, hr2, h⟩ := bind_ok h
    obtain ⟨outputs₁, ho1, h⟩ := bind_ok h
    obtain ⟨outputs₂, ho2, h⟩ := bind_ok h
    obtain ⟨spec₁, hs1, h⟩ := bind_ok h
    obtain ⟨spec₂, hs2, h⟩ := bind_ok h
    obtain ⟨hlt, rfl⟩ := setItem_eq_ok_iff.mp hr1
    obtain ⟨-, rfl⟩ := setItem_eq_ok_iff.mp hr2
    obtain ⟨holt, rfl⟩ := setItem_eq_ok_iff.mp ho1
    obtain ⟨-, rfl⟩ := setItem_eq_ok_iff.mp ho2
    obtain ⟨hslt, rfl⟩ := setItem_eq_ok_iff.mp hs2
    have hspec := getElem?_swapItems hs1
    have hspec_length := length_swapItems hs1
    have hspec_others : ∀ k, k ≠ empty → k ≠ last →
        (spec₁.set last [])[k]? = b.specTokenIds[k]? := by
      intro k hk hk'
      rw [List.getElem?_set_ne (Ne.symm hk'), hspec, if_neg hk, if_neg hk']
    have hspec_empty : (spec₁.set last [])[empty]? = b.specTokenIds[last]? := by
      rw [List.getElem?_set_ne (Ne.symm hne), hspec, if_pos rfl]
    have houtputs_others : ∀ k, k ≠ empty → k ≠ last →
        ((b.reqOutputTokenIds.set empty output).set last none)[k]? = b.reqOutputTokenIds[k]? := by
      intro k hk hk'
      rw [List.getElem?_set_ne (Ne.symm hk'), List.getElem?_set_ne (Ne.symm hk)]
    have houtputs_empty : ((b.reqOutputTokenIds.set empty output).set last none)[empty]? =
        b.reqOutputTokenIds[last]? := by
      rw [List.getElem?_set_ne (Ne.symm hne), List.getElem?_set_self holt, houtput]
    have hcolumns : ∀ k, k ≠ empty → k ≠ last → SameColumns b k (b.moveColumns last empty) k :=
      fun k hk hk' => moveColumns_others hk hk'
    split at h
    · rename_i hpool
      have hpool' : b.isPoolingModel = true := hpool
      cases h
      exact {
        live := ⟨id, hreqId, rfl, rfl⟩
        lt := hlt
        outputs_length := by simp
        spec_length := by simp [hspec_length]
        spec_others := hspec_others
        spec_last := List.getElem?_set_self hslt
        removed := rfl
        sorted := rfl
        added := rfl
        moved := by simp [moveColumns, hpool']
        pooling := rfl
        accepted := fun _ => rfl
        flags := rfl
        embeds := fun k hk hk' => (hcolumns k hk hk').embeds
        sparse := fun hnot => absurd hnot (by rw [hpool']; decide)
        processors := ⟨rfl, rfl, rfl⟩
        others := fun k hk hk' _ => SameRow.rowAt_eq {
          columns := { hcolumns k hk hk' with }
          outputs := congrArg (Option.getD · none) (houtputs_others k hk hk')
          spec := congrArg (Option.getD · []) (hspec_others k hk hk')
          accepted := rfl
          flag := rfl
          pooling := rfl
          sampling := fun hnot => absurd hnot (by rw [hpool']; decide) }
        row := fun _ hembeds hflag haccepted => SameRow.rowAt_eq {
          columns := { moveColumns_row hembeds with }
          outputs := congrArg (Option.getD · none) houtputs_empty
          spec := congrArg (Option.getD · []) hspec_empty
          accepted := haccepted hpool'
          flag := hflag
          pooling := rfl
          sampling := fun hnot => absurd hnot (by rw [hpool']; decide) } }
    · rename_i hpool
      have hpool' : b.isPoolingModel = false := (Bool.not_eq_true _).mp hpool
      cases h
      exact {
        live := ⟨id, hreqId, rfl, rfl⟩
        lt := hlt
        outputs_length := by simp [moveSampling]
        spec_length := by simp [moveSampling, hspec_length]
        spec_others := hspec_others
        spec_last := List.getElem?_set_self hslt
        removed := rfl
        sorted := rfl
        added := rfl
        moved := by simp [moveSampling, moveColumns, hpool']
        pooling := rfl
        accepted := fun hyes => absurd hyes (by rw [hpool']; decide)
        flags := rfl
        embeds := fun k hk hk' => (hcolumns k hk hk').embeds
        sparse := fun _ => ⟨rfl, rfl⟩
        processors := ⟨rfl, rfl, rfl⟩
        others := fun k hk hk' hsparse => SameRow.rowAt_eq {
          columns := { hcolumns k hk hk' with }
          outputs := congrArg (Option.getD · none) (houtputs_others k hk hk')
          spec := congrArg (Option.getD · []) (hspec_others k hk hk')
          accepted := copyEntry_of_ne _ hk
          flag := rfl
          pooling := rfl
          sampling := fun _ => by
            have hrow := samplingAt_moveSampling (b := b) hne (hsparse hpool').1
              (hsparse hpool').2 k hk'
            rw [if_neg hk] at hrow
            exact hrow }
        row := fun hsparse hembeds hflag haccepted => SameRow.rowAt_eq {
          columns := { moveColumns_row hembeds with }
          outputs := congrArg (Option.getD · none) houtputs_empty
          spec := congrArg (Option.getD · []) hspec_empty
          accepted := copyEntry_self ..
          flag := hflag
          pooling := rfl
          sampling := fun _ => by
            have hrow := samplingAt_moveSampling (b := b) hne (hsparse hpool').1
              (hsparse hpool').2 empty hne
            rw [if_pos rfl] at hrow
            exact hrow } }

/-- The row that a row comes from in a swap. -/
def swapIndex (i j k : Nat) : Nat := if k = j then i else if k = i then j else k

theorem swapEntries_apply {α : Type} (a : Nat → α) (i j k : Nat) :
    swapEntries a i j k = a (swapIndex i j k) := by
  unfold swapIndex
  split
  · rename_i h
    rw [h, swapEntries_right]
  · split
    · rename_i h
      rw [h, swapEntries_left]
    · exact swapEntries_of_ne a ‹_› ‹_›

theorem get?_swapDictValues {ν : Type} (d : PyDict Nat ν) (i j k : Nat) :
    (swapDictValues d i j).get? k = d.get? (swapIndex i j k) := by
  unfold swapIndex
  split
  · rename_i h
    rw [h, get?_swapDictValues_right]
  · split
    · rename_i h
      rw [h, get?_swapDictValues_left]
    · exact get?_swapDictValues_of_ne d ‹_› ‹_›

variable {j : Nat}

theorem getElem?_swapIndex {α : Type} {l l' : List α} (h : swapItems l i j = .ok l') (k : Nat) :
    l'[k]? = l[swapIndex i j k]? := by
  rw [getElem?_swapItems h]
  unfold swapIndex
  split
  · rfl
  · split <;> rfl

/-- Both rows get the mask of the second one, which makes no difference if they agree. -/
theorem swapTensorRows_apply {mask : Nat → Nat → Bool} {token : Nat}
    (h : mask i token = mask j token) (k : Nat) :
    swapTensorRows mask i j k token = mask (swapIndex i j k) token := by
  unfold swapTensorRows swapIndex
  by_cases hj : k = j
  · simp [hj, h]
  · by_cases hi : k = i
    · subst hi
      simp [hj]
    · simp [hi, hj]

theorem swapColumns_row (i j k : Nat) : SameColumns b (swapIndex i j k) (b.swapColumns i j) k where
  tokens := by
    refine tokensAt_congr (swapEntries_apply ..) (fun x _ => ?_) (fun x _ => ?_)
    · exact congrFun (swapEntries_apply b.tokenIdsCpu i j k) x
    · exact congrFun (swapEntries_apply b.isTokenIds i j k) x
  embeds := get?_swapDictValues ..
  numTokens := swapEntries_apply ..
  numTokensNoSpec := swapEntries_apply ..
  numPromptTokens := swapEntries_apply ..
  numComputedTokens := swapEntries_apply ..
  blocks := by
    unfold swapColumns
    rw [map_map]
    refine map_congr_left fun t _ => ?_
    rw [comp_apply, blocksAt_swapRow]
    unfold swapIndex
    split
    · rfl
    · split <;> rfl
  lora := swapEntries_apply ..

theorem samplingAt_swapSampling (hmask : b.maskAt i = b.maskAt j) (k : Nat) :
    (b.swapSampling i j).samplingAt k = b.samplingAt (swapIndex i j k) := by
  have hmaskAt : (b.swapSampling i j).maskAt k = b.maskAt (swapIndex i j k) := by
    unfold maskAt at hmask ⊢
    refine map_congr_left fun token htoken => ?_
    have heq := map_inj_left.mp hmask token htoken
    unfold swapSampling
    dsimp only
    cases htensor : b.allowedTokenIdsMaskCpuTensor with
    | none => rfl
    | some mask =>
      rw [htensor] at heq
      exact swapTensorRows_apply heq k
  simp only [samplingAt, hmaskAt]
  simp only [swapSampling, swapEntries_apply, get?_swapDictValues]

/-- Two rows change places. -/
structure Swapped (b : InputBatch ε γ) (i j : Nat) (b' : InputBatch ε γ) : Prop where
  live : ∃ id1 id2 index1 index2, b.reqIds[i]? = some (some id1) ∧
    b.reqIds[j]? = some (some id2) ∧ b.reqIdToIndex.get? id1 = some index1 ∧
    b.reqIdToIndex.get? id2 = some index2 ∧
    b'.reqIdToIndex = (b.reqIdToIndex.insert id1 index2).insert id2 index1
  reqIds : ∀ k, b'.reqIds[k]? = b.reqIds[swapIndex i j k]?
  length : b'.reqIds.length = b.reqIds.length
  outputs_length : b'.reqOutputTokenIds.length = b.reqOutputTokenIds.length
  spec_length : b'.specTokenIds.length = b.specTokenIds.length
  spec : ∀ k, b'.specTokenIds[k]? = b.specTokenIds[swapIndex i j k]?
  removed : b'.batchUpdateBuilder.removedIndices = b.batchUpdateBuilder.removedIndices
  sorted : b'.batchUpdateBuilder.isRemovedSorted = b.batchUpdateBuilder.isRemovedSorted
  added : b'.batchUpdateBuilder.added = b.batchUpdateBuilder.added
  moved : b'.batchUpdateBuilder.moved = b.batchUpdateBuilder.moved ++
    if b.isPoolingModel then [] else [⟨i, j, .swap⟩]
  pooling : b'.isPoolingModel = b.isPoolingModel
  accepted : b.isPoolingModel = true → b'.numAcceptedTokensCpu = b.numAcceptedTokensCpu
  flags : b'.logitsProcessingNeedsTokenIds = b.logitsProcessingNeedsTokenIds
  sparse : b.isPoolingModel = false → ∀ k,
    b'.generators.get? k = b.generators.get? (swapIndex i j k) ∧
    b'.badWordsTokenIds.get? k = b.badWordsTokenIds.get? (swapIndex i j k)
  processors : b'.minP = b.minP ∧ b'.logitBias = b.logitBias ∧ b'.minTokens = b.minTokens
  rows : b.logitsProcessingNeedsTokenIds i = b.logitsProcessingNeedsTokenIds j →
    (b.isPoolingModel = true → b.numAcceptedTokensCpu i = b.numAcceptedTokensCpu j) →
    (b.isPoolingModel = false → b.maskAt i = b.maskAt j) →
    ∀ k, b'.rowAt k = b.rowAt (swapIndex i j k)

/-- A column that is not swapped, when its two entries agree. -/
theorem apply_swapIndex {α : Type} {a : Nat → α} (h : a i = a j) (k : Nat) :
    a k = a (swapIndex i j k) := by
  unfold swapIndex
  split
  · rename_i hk
    rw [hk, h]
  · split
    · rename_i hk
      rw [hk, h]
    · rfl

theorem swapStates_spec (h : b.swapStates i j = .ok b') : Swapped b i j b' := by
  unfold swapStates at h
  obtain ⟨old1, hold1, h⟩ := bind_ok h
  obtain ⟨old2, hold2, h⟩ := bind_ok h
  obtain ⟨reqIds, hreqIds, h⟩ := bind_ok h
  obtain ⟨outputs, houtputs, h⟩ := bind_ok h
  obtain ⟨spec, hspec, h⟩ := bind_ok h
  replace hold1 := getItem_eq_ok_iff.mp hold1
  replace hold2 := getItem_eq_ok_iff.mp hold2
  have hcolumns := swapColumns_row (b := b) i j
  cases old1 with
  | none => cases h
  | some id1 =>
    cases old2 with
    | none => cases h
    | some id2 =>
      dsimp only at h
      split at h
      · rename_i index1 index2 hindex1 hindex2
        split at h
        · rename_i hpool
          replace hpool : b.isPoolingModel = true := hpool
          cases h
          exact {
            live := ⟨id1, id2, index1, index2, hold1, hold2, hindex1, hindex2, rfl⟩
            reqIds := getElem?_swapIndex hreqIds
            length := length_swapItems hreqIds
            outputs_length := length_swapItems houtputs
            spec_length := length_swapItems hspec
            spec := getElem?_swapIndex hspec
            removed := rfl
            sorted := rfl
            added := rfl
            moved := by simp [swapColumns, hpool]
            pooling := rfl
            accepted := fun _ => rfl
            flags := rfl
            sparse := fun hnot => absurd hnot (by rw [hpool]; decide)
            processors := ⟨rfl, rfl, rfl⟩
            rows := fun hflag haccepted _ k => SameRow.rowAt_eq {
              columns := { hcolumns k with }
              outputs := congrArg (Option.getD · none) (getElem?_swapIndex houtputs k)
              spec := congrArg (Option.getD · []) (getElem?_swapIndex hspec k)
              accepted := apply_swapIndex (haccepted hpool) k
              flag := apply_swapIndex hflag k
              pooling := rfl
              sampling := fun hnot => absurd hnot (by rw [hpool]; decide) } }
        · rename_i hpool
          replace hpool : b.isPoolingModel = false := (Bool.not_eq_true _).mp hpool
          cases h
          exact {
            live := ⟨id1, id2, index1, index2, hold1, hold2, hindex1, hindex2, rfl⟩
            reqIds := getElem?_swapIndex hreqIds
            length := length_swapItems hreqIds
            outputs_length := length_swapItems houtputs
            spec_length := length_swapItems hspec
            spec := getElem?_swapIndex hspec
            removed := rfl
            sorted := rfl
            added := rfl
            moved := by simp [swapSampling, swapColumns, hpool]
            pooling := rfl
            accepted := fun hyes => absurd hyes (by rw [hpool]; decide)
            flags := rfl
            sparse := fun _ k => ⟨get?_swapDictValues .., get?_swapDictValues ..⟩
            processors := ⟨rfl, rfl, rfl⟩
            rows := fun hflag _ hmask k => SameRow.rowAt_eq {
              columns := { hcolumns k with }
              outputs := congrArg (Option.getD · none) (getElem?_swapIndex houtputs k)
              spec := congrArg (Option.getD · []) (getElem?_swapIndex hspec k)
              accepted := swapEntries_apply ..
              flag := apply_swapIndex hflag k
              pooling := rfl
              sampling := fun _ => samplingAt_swapSampling (b := b) (hmask hpool) k } }
      · cases h

/-- The request suits the model. -/
def Suits (b : InputBatch ε γ) (request : CachedRequestState ε γ) : Prop :=
  if b.isPoolingModel then
    request.samplingParams.isNone = true ∧ request.poolingParams.isSome = true
  else request.samplingParams.isSome = true

instance (b : InputBatch ε γ) (request : CachedRequestState ε γ) : Decidable (Suits b request) :=
  inferInstanceAs (Decidable (if b.isPoolingModel then
    request.samplingParams.isNone = true ∧ request.poolingParams.isSome = true
  else request.samplingParams.isSome = true))

/-- The row that the next request takes. -/
def nextRow (b : InputBatch ε γ) : Nat := b.batchUpdateBuilder.popRemoved.1.getD b.numReqs

/-- The tokens of a request in its row. -/
theorem tokensAt_addTokens (b : InputBatch ε γ) (request : CachedRequestState ε γ)
    (outputTokenIds : List Int) (i : Nat) :
    (b.addTokens request outputTokenIds (promptLength request) i).tokensAt i =
      (match request.promptTokenIds with
        | some tokens => tokens.map some
        | none => List.replicate (promptLength request) none) ++ outputTokenIds.map some := by
  unfold tokensAt addTokens
  simp only [update_self]
  rw [range_add, map_append, map_map]
  congr 1
  · cases hprompt : request.promptTokenIds with
    | none =>
      refine ext_getElem (by simp) fun j hj _ => ?_
      simp only [length_map, length_range] at hj
      have hset : (List.replicate (promptLength request) false)[j]? = some false := by
        rw [List.getElem?_replicate, if_pos hj]
      have hfalse := writeSlice_add (b.isTokenIds i) 0 hset
      rw [Nat.zero_add] at hfalse
      simp [writeSlice_of_lt _ _ hj, hfalse]
    | some tokens =>
      have hlen : promptLength request = tokens.length := by
        simp [promptLength, hprompt]
      refine ext_getElem (by simp [hlen]) fun j hj _ => ?_
      simp only [length_map, length_range] at hj
      have hset : (List.replicate (promptLength request) true)[j]? = some true := by
        rw [List.getElem?_replicate, if_pos hj]
      have htrue := writeSlice_add (b.isTokenIds i) 0 hset
      have htoken := writeSlice_add (b.tokenIdsCpu i) 0
        (List.getElem?_eq_getElem (l := tokens) (hlen ▸ hj))
      rw [Nat.zero_add] at htrue htoken
      simp [writeSlice_of_lt _ _ hj, htrue, htoken]
  · refine ext_getElem (by simp) fun j hj _ => ?_
    simp only [length_map, length_range] at hj
    have hset : (List.replicate outputTokenIds.length true)[j]? = some true := by
      rw [List.getElem?_replicate, if_pos hj]
    simp [writeSlice_add _ _ hset, writeSlice_add _ _ (List.getElem?_eq_getElem hj)]

variable {request : CachedRequestState ε γ}

theorem lengthFromPrompt_spec {n : Nat}
    (h : lengthFromPromptTokenIdsOrEmbeds request.promptTokenIds request.promptEmbeds = .ok n) :
    n = promptLength request := by
  unfold lengthFromPromptTokenIdsOrEmbeds at h
  unfold promptLength
  cases hp : request.promptTokenIds with
  | none =>
    cases he : request.promptEmbeds with
    | none =>
      rw [hp, he] at h
      cases h
    | some embeds =>
      rw [hp, he] at h
      exact (Except.ok.inj h).symm
  | some tokens =>
    cases he : request.promptEmbeds with
    | none =>
      rw [hp, he] at h
      exact (Except.ok.inj h).symm
    | some embeds =>
      rw [hp, he] at h
      dsimp only at h
      split at h
      · cases h
      · exact (Except.ok.inj h).symm

/-- What the log has of a request. -/
def logEntry (i : Nat) (request : CachedRequestState ε γ) : List AddedRequest :=
  match request.samplingParams with
  | none => []
  | some params =>
    [{ index := i
       params
       promptTokIds := request.promptTokenIds
       outputTokIds := request.outputTokenIds }]

/-- The request does not say which tokens are allowed. -/
def AllowsAll (request : CachedRequestState ε γ) : Prop :=
  ∀ params ∈ request.samplingParams,
    params.allowedTokenIds.filter (fun ids => !ids.isEmpty) = none

instance (request : CachedRequestState ε γ) : Decidable (AllowsAll request) :=
  inferInstanceAs (Decidable (∀ params ∈ request.samplingParams,
    params.allowedTokenIds.filter (fun ids => !ids.isEmpty) = none))

/-- The mask of the row allows all tokens. -/
def AllAllowed (b : InputBatch ε γ) (i : Nat) : Prop :=
  b.maskAt i = List.replicate b.vocabSize false

instance (b : InputBatch ε γ) (i : Nat) : Decidable (AllAllowed b i) :=
  inferInstanceAs (Decidable (b.maskAt i = List.replicate b.vocabSize false))

/-- A request is added in the row `i`. -/
structure Added (b : InputBatch ε γ) (outputTokenIds : List Int)
    (request : CachedRequestState ε γ) (i : Nat) (b' : InputBatch ε γ) : Prop where
  next : i = nextRow b
  ids : i = b.reqIds.length ∧ b'.reqIds = b.reqIds ++ [some request.reqId] ∧
      b'.specTokenIds = b.specTokenIds ++ [[]] ∨
    i < b.reqIds.length ∧ b'.reqIds = b.reqIds.set i (some request.reqId) ∧
      b'.specTokenIds = b.specTokenIds.set i []
  outputs_length : b'.reqOutputTokenIds.length = b'.reqIds.length
  reqIdToIndex : b'.reqIdToIndex = b.reqIdToIndex.insert request.reqId i
  builder : b'.batchUpdateBuilder = { b.batchUpdateBuilder.popRemoved.2 with
    batchChanged := true
    added := b.batchUpdateBuilder.popRemoved.2.added ++ logEntry i request }
  pooling : b'.isPoolingModel = b.isPoolingModel
  accepted : b'.numAcceptedTokensCpu = update b.numAcceptedTokensCpu i 1
  flags : b.isPoolingModel = false →
    b'.logitsProcessingNeedsTokenIds = b.logitsProcessingNeedsTokenIds
  sparse : ∀ k, k ≠ i → b'.generators.get? k = b.generators.get? k ∧
    b'.badWordsTokenIds.get? k = b.badWordsTokenIds.get? k
  processors : b'.minP = b.minP ∧ b'.logitBias = b.logitBias ∧ b'.minTokens = b.minTokens
  others : ∀ k, k ≠ i → b'.rowAt k = b.rowAt k
  row : (request.promptEmbeds = none → b.reqPromptEmbeds.get? i = none) →
    (b.isPoolingModel = false → AllowsAll request → AllAllowed b i) →
    (b.isPoolingModel = false → b.generators.get? i = none ∧
      b.badWordsTokenIds.get? i = none ∧ b.logitsProcessingNeedsTokenIds i = false) →
    (i = b.reqIds.length → (b.specTokenIds[i]?).getD [] = []) →
    b'.rowAt i = b.rowOf outputTokenIds request

theorem addLora_eq (b : InputBatch ε γ) (request : CachedRequestState ε γ) (i : Nat) :
    ∃ ids requests, b.addLora request i = { b with
      loraIdToRequestIds := ids
      loraIdToLoraRequest := requests
      requestLoraMapping := update b.requestLoraMapping i
        (match request.loraRequest with
          | some lora => lora.loraIntId
          | none => 0) } := by
  unfold addLora
  cases request.loraRequest with
  | none => exact ⟨_, _, rfl⟩
  | some lora => exact ⟨_, _, rfl⟩

theorem registerAddRequest_spec (h : b.registerAddRequest request = .ok (i, b')) :
    i = nextRow b ∧ b' = { b with
      batchUpdateBuilder := { b.batchUpdateBuilder.popRemoved.2 with
        batchChanged := true
        added := b.batchUpdateBuilder.popRemoved.2.added ++ logEntry i request } } := by
  unfold registerAddRequest at h
  dsimp only at h
  split at h
  · cases h
  · cases h
    refine ⟨rfl, ?_⟩
    unfold logEntry
    cases request.samplingParams with
    | none => simp
    | some params => rfl

/-- The lists by row after the id is in its place. -/
structure Placed (b : InputBatch ε γ) (request : CachedRequestState ε γ) (i : Nat)
    (reqIds : List (Option String)) (outputs : List (Option OutputRef))
    (spec : List (List Int)) : Prop where
  ids : i = b.reqIds.length ∧ reqIds = b.reqIds ++ [some request.reqId] ∧
      spec = b.specTokenIds ++ [[]] ∨
    i < b.reqIds.length ∧ reqIds = b.reqIds.set i (some request.reqId) ∧
      spec = b.specTokenIds.set i []
  outputs_length : outputs.length = reqIds.length
  outputs_self : outputs[i]? = some (some request.outputTokenIds)
  outputs_others : ∀ k, k ≠ i → (outputs[k]?).getD none = (b.reqOutputTokenIds[k]?).getD none
  spec_self : (i = b.reqIds.length → (b.specTokenIds[i]?).getD [] = []) →
    (spec[i]?).getD [] = []
  spec_others : ∀ k, k ≠ i → (spec[k]?).getD [] = (b.specTokenIds[k]?).getD []

theorem addReqId_spec (hlen : b.reqOutputTokenIds.length = b.reqIds.length)
    (h : b.addReqId request i = .ok b') :
    ∃ reqIds outputs spec, Placed b request i reqIds outputs spec ∧ b' = { b with
      reqIds := reqIds
      reqOutputTokenIds := outputs
      specTokenIds := spec
      reqIdToIndex := b.reqIdToIndex.insert request.reqId i } := by
  unfold addReqId at h
  split at h
  · rename_i hi
    cases h
    refine ⟨_, _, _, ?_, rfl⟩
    constructor
    case ids => exact .inl ⟨hi, rfl, rfl⟩
    case outputs_length => simp [hlen]
    case outputs_self => rw [hi, ← hlen, List.getElem?_append_right (Nat.le_refl _)]; simp
    case outputs_others =>
      intro k hk
      rw [List.getElem?_append]
      split
      · rfl
      · rename_i hlt
        rw [List.getElem?_eq_none (by rw [length_singleton]; omega),
          List.getElem?_eq_none (by omega)]
    case spec_self =>
      intro hold
      have hold := hold hi
      rw [List.getElem?_append]
      split
      · exact hold
      · rw [List.getElem?_singleton]
        split <;> rfl
    case spec_others =>
      intro k _
      rw [List.getElem?_append]
      split
      · rfl
      · rw [List.getElem?_singleton, List.getElem?_eq_none (l := b.specTokenIds) (by omega)]
        split <;> rfl
  · obtain ⟨reqIds, hr, h⟩ := bind_ok h
    obtain ⟨outputs, ho, h⟩ := bind_ok h
    obtain ⟨spec, hs, h⟩ := bind_ok h
    obtain ⟨hlt, rfl⟩ := setItem_eq_ok_iff.mp hr
    obtain ⟨holt, rfl⟩ := setItem_eq_ok_iff.mp ho
    obtain ⟨hslt, rfl⟩ := setItem_eq_ok_iff.mp hs
    cases h
    refine ⟨_, _, _, ?_, rfl⟩
    exact {
      ids := .inr ⟨hlt, rfl, rfl⟩
      outputs_length := by simp [hlen]
      outputs_self := List.getElem?_set_self holt
      outputs_others := fun k hk => by rw [List.getElem?_set_ne (Ne.symm hk)]
      spec_self := fun _ => by rw [List.getElem?_set_self hslt]; rfl
      spec_others := fun k hk => by rw [List.getElem?_set_ne (Ne.symm hk)] }

/-- The ids, the log and the processors stay as they are. -/
structure Frame (b b' : InputBatch ε γ) : Prop where
  reqIds : b'.reqIds = b.reqIds
  outputs : b'.reqOutputTokenIds = b.reqOutputTokenIds
  spec : b'.specTokenIds = b.specTokenIds
  reqIdToIndex : b'.reqIdToIndex = b.reqIdToIndex
  builder : b'.batchUpdateBuilder = b.batchUpdateBuilder
  pooling : b'.isPoolingModel = b.isPoolingModel
  vocabSize : b'.vocabSize = b.vocabSize
  processors : b'.minP = b.minP ∧ b'.logitBias = b.logitBias ∧ b'.minTokens = b.minTokens

theorem Frame.trans {b1 : InputBatch ε γ} (h : Frame b b1) (h' : Frame b1 b') : Frame b b' where
  reqIds := h'.reqIds.trans h.reqIds
  outputs := h'.outputs.trans h.outputs
  spec := h'.spec.trans h.spec
  reqIdToIndex := h'.reqIdToIndex.trans h.reqIdToIndex
  builder := h'.builder.trans h.builder
  pooling := h'.pooling.trans h.pooling
  vocabSize := h'.vocabSize.trans h.vocabSize
  processors := ⟨h'.processors.1.trans h.processors.1,
    h'.processors.2.1.trans h.processors.2.1, h'.processors.2.2.trans h.processors.2.2⟩

theorem rowAt_addTokens_of_ne {outputTokenIds : List Int} {n : Nat} (hk : k ≠ i) :
    (b.addTokens request outputTokenIds n i).rowAt k = b.rowAt k :=
  SameRow.rowAt_eq {
    columns := {
      tokens := by
        refine tokensAt_congr (update_of_ne hk ..) (fun j _ => ?_) (fun j _ => ?_)
        · exact congrFun (update_of_ne hk ..) j
        · exact congrFun (update_of_ne hk ..) j
      embeds := by
        unfold addTokens
        cases request.promptEmbeds <;> simp [hk]
      numTokens := update_of_ne hk ..
      numTokensNoSpec := update_of_ne hk ..
      numPromptTokens := update_of_ne hk ..
      numComputedTokens := update_of_ne hk ..
      blocks := rfl
      lora := rfl }
    outputs := rfl
    spec := rfl
    accepted := rfl
    flag := rfl
    pooling := rfl
    sampling := fun _ => rfl }

/-- The row of a request after its tokens are written. -/
theorem rowAt_addTokens (outputTokenIds : List Int)
    (h : request.promptEmbeds = none → b.reqPromptEmbeds.get? i = none) :
    (b.addTokens request outputTokenIds (promptLength request) i).rowAt i = { b.rowAt i with
      tokens := (b.rowOf outputTokenIds request).tokens
      promptEmbeds := request.promptEmbeds
      numTokens := promptLength request + outputTokenIds.length
      numTokensNoSpec := promptLength request + outputTokenIds.length
      numPromptTokens := promptLength request
      numComputedTokens := request.numComputedTokens } := by
  have hembeds : (b.addTokens request outputTokenIds (promptLength request) i).reqPromptEmbeds.get?
      i = request.promptEmbeds := by
    unfold addTokens
    cases he : request.promptEmbeds with
    | none => exact h he
    | some embeds => simp
  exact Row.ext rfl rfl (tokensAt_addTokens b request outputTokenIds i) hembeds
    (update_self ..) (update_self ..) (update_self ..)
    (update_self ..) rfl rfl rfl rfl rfl

variable {params : SamplingParams}

theorem samplingAt_addSampling_of_ne (hk : k ≠ i) :
    (b.addSampling request params i).samplingAt k = b.samplingAt k := by
  have hmask : (b.addSampling request params i).maskAt k = b.maskAt k := by
    unfold maskAt addSampling
    cases params.allowedTokenIds.filter fun ids => !ids.isEmpty with
    | none => rfl
    | some allowed => cases b.allowedTokenIdsMaskCpuTensor <;> simp [hk]
  simp only [samplingAt, hmask]
  unfold addSampling
  simp only [update_of_ne hk]
  cases request.generator <;>
    cases params.badWordsTokenIds.filter (fun words => !words.isEmpty) <;> simp [hk]

theorem samplingAt_addSampling
    (hmask : params.allowedTokenIds.filter (fun ids => !ids.isEmpty) = none →
      b.maskAt i = b.maskOf params)
    (hgen : b.generators.get? i = none) (hbad : b.badWordsTokenIds.get? i = none) :
    (b.addSampling request params i).samplingAt i = b.samplingOf request params := by
  have hmaskAt : (b.addSampling request params i).maskAt i = b.maskOf params := by
    unfold maskAt addSampling maskOf at *
    cases hallowed : params.allowedTokenIds.filter fun ids => !ids.isEmpty with
    | none =>
      rw [hallowed] at hmask
      exact hmask rfl
    | some allowed => cases b.allowedTokenIdsMaskCpuTensor <;> simp
  simp only [samplingAt, samplingOf, hmaskAt]
  unfold addSampling
  simp only [update_self]
  cases request.generator <;>
    cases params.badWordsTokenIds.filter (fun words => !words.isEmpty) <;> simp [hgen, hbad]

theorem addParams_sampling (h : request.samplingParams = some params) (b : InputBatch ε γ)
    (i : Nat) :
    b.addParams request i = .ok (b.addSampling request params i) := by
  unfold addParams
  rw [h]

theorem addParams_none (h : request.samplingParams = none) (h' : request.poolingParams = none)
    (b : InputBatch ε γ) (i : Nat) :
    b.addParams request i = .error (.notImplementedError "Unrecognized request type") := by
  unfold addParams
  rw [h, h']

theorem addParams_pooling {params : PoolingParams} (h : request.samplingParams = none)
    (h' : request.poolingParams = some params) (b : InputBatch ε γ) (i : Nat) :
    b.addParams request i = .ok { b with
      poolingParams := b.poolingParams.insert request.reqId params
      logitsProcessingNeedsTokenIds :=
        update b.logitsProcessingNeedsTokenIds i params.requiresTokenIds } := by
  unfold addParams
  rw [h, h']

/-- The parameters of a request are written. -/
structure ParamsAdded (b : InputBatch ε γ) (request : CachedRequestState ε γ) (i : Nat)
    (b' : InputBatch ε γ) : Prop where
  frame : Frame b b'
  accepted : b'.numAcceptedTokensCpu = b.numAcceptedTokensCpu
  flags : b.isPoolingModel = false →
    b'.logitsProcessingNeedsTokenIds = b.logitsProcessingNeedsTokenIds
  sparse : ∀ k, k ≠ i → b'.generators.get? k = b.generators.get? k ∧
    b'.badWordsTokenIds.get? k = b.badWordsTokenIds.get? k
  others : ∀ k, k ≠ i → b'.rowAt k = b.rowAt k
  row : (b.isPoolingModel = false → AllowsAll request → AllAllowed b i) →
    (b.isPoolingModel = false → b.generators.get? i = none ∧
      b.badWordsTokenIds.get? i = none ∧ b.logitsProcessingNeedsTokenIds i = false) →
    b'.rowAt i = { b.rowAt i with
      logitsProcessingNeedsTokenIds := (b.rowOf [] request).logitsProcessingNeedsTokenIds
      sampling := (b.rowOf [] request).sampling }

theorem addParams_spec (hsuits : Suits b request) (h : b.addParams request i = .ok b') :
    ParamsAdded b request i b' := by
  unfold Suits at hsuits
  cases hsampling : request.samplingParams with
  | none =>
    cases hpooling : request.poolingParams with
    | none =>
      rw [addParams_none hsampling hpooling] at h
      cases h
    | some params =>
      rw [addParams_pooling hsampling hpooling] at h
      cases h
      have hpool : b.isPoolingModel = true := by
        by_contra hnot
        rw [if_neg hnot, hsampling] at hsuits
        cases hsuits
      refine ⟨⟨rfl, rfl, rfl, rfl, rfl, rfl, rfl, rfl, rfl, rfl⟩, rfl, fun hnot => ?_,
        fun k _ => ⟨rfl, rfl⟩, fun k hk => ?_, fun _ _ => ?_⟩
      · exact absurd hnot (by rw [hpool]; decide)
      · exact SameRow.rowAt_eq {
          columns := { SameColumns.refl b k with }
          outputs := rfl
          spec := rfl
          accepted := rfl
          flag := update_of_ne hk ..
          pooling := rfl
          sampling := fun _ => rfl }
      · refine Row.ext rfl rfl rfl rfl rfl rfl rfl rfl rfl rfl rfl ?_ ?_
        · show update b.logitsProcessingNeedsTokenIds i params.requiresTokenIds i =
            (b.rowOf [] request).logitsProcessingNeedsTokenIds
          unfold rowOf
          rw [update_self, hsampling, hpooling]
        · show (if b.isPoolingModel then none else _) = (b.rowOf [] request).sampling
          unfold rowOf
          rw [if_pos hpool, if_pos hpool]
  | some params =>
    rw [addParams_sampling hsampling] at h
    cases h
    have hpool : b.isPoolingModel = false := by
      by_contra hnot
      rw [if_pos ((Bool.not_eq_false _).mp hnot), hsampling] at hsuits
      cases hsuits.1
    have hsame : ∀ k, k ≠ i → (b.addSampling request params i).samplingAt k = b.samplingAt k :=
      fun k hk => samplingAt_addSampling_of_ne hk
    refine ⟨⟨rfl, rfl, rfl, rfl, rfl, rfl, rfl, rfl, rfl, rfl⟩, rfl, fun _ => rfl,
      fun k hk => ?_, fun k hk => ?_, fun hmask hsparse => ?_⟩
    · exact ⟨congrArg SamplingRow.generator (hsame k hk),
        congrArg SamplingRow.badWordsTokenIds (hsame k hk)⟩
    · exact SameRow.rowAt_eq {
        columns := { SameColumns.refl b k with }
        outputs := rfl
        spec := rfl
        accepted := rfl
        flag := rfl
        pooling := rfl
        sampling := fun _ => hsame k hk }
    · obtain ⟨hgen, hbad, hflag⟩ := hsparse hpool
      have hrow : (b.addSampling request params i).samplingAt i = b.samplingOf request params := by
        refine samplingAt_addSampling (fun hnone => ?_) hgen hbad
        have hall : AllowsAll request := by
          intro params' hparams'
          rw [hsampling] at hparams'
          cases hparams'
          exact hnone
        rw [hmask hpool hall]
        unfold maskOf
        rw [hnone]
        simp
      refine Row.ext rfl rfl rfl rfl rfl rfl rfl rfl rfl rfl rfl ?_ ?_
      · show b.logitsProcessingNeedsTokenIds i = (b.rowOf [] request).logitsProcessingNeedsTokenIds
        unfold rowOf
        rw [hflag, hsampling]
      · show (if b.isPoolingModel then none else
          some ((b.addSampling request params i).samplingAt i)) = (b.rowOf [] request).sampling
        unfold rowOf
        rw [if_neg (by rw [hpool]; decide), if_neg (by rw [hpool]; decide), hsampling, hrow]
        rfl

/-- The adapter and the number of accepted tokens are written last. -/
structure LoraAdded (b : InputBatch ε γ) (request : CachedRequestState ε γ) (i : Nat)
    (b' : InputBatch ε γ) : Prop where
  frame : Frame b b'
  accepted : b'.numAcceptedTokensCpu = update b.numAcceptedTokensCpu i 1
  flags : b'.logitsProcessingNeedsTokenIds = b.logitsProcessingNeedsTokenIds
  sparse : b'.generators = b.generators ∧ b'.badWordsTokenIds = b.badWordsTokenIds
  others : ∀ k, k ≠ i → b'.rowAt k = b.rowAt k
  row : b'.rowAt i = { b.rowAt i with
    loraId := (b.rowOf [] request).loraId
    numAcceptedTokens := 1 }

theorem addLora_spec (b : InputBatch ε γ) (request : CachedRequestState ε γ) (i : Nat) :
    LoraAdded b request i (({ b with
      numAcceptedTokensCpu := update b.numAcceptedTokensCpu i 1 } :
        InputBatch ε γ).addLora request i) := by
  obtain ⟨ids, requests, hlora⟩ := addLora_eq ({ b with
    numAcceptedTokensCpu := update b.numAcceptedTokensCpu i 1 } : InputBatch ε γ) request i
  rw [hlora]
  refine ⟨⟨rfl, rfl, rfl, rfl, rfl, rfl, rfl, rfl, rfl, rfl⟩, rfl, rfl, ⟨rfl, rfl⟩,
    fun k hk => ?_, ?_⟩
  · exact SameRow.rowAt_eq {
      columns := { SameColumns.refl b k with lora := update_of_ne hk .. }
      outputs := rfl
      spec := rfl
      accepted := update_of_ne hk ..
      flag := rfl
      pooling := rfl
      sampling := fun _ => rfl }
  · exact Row.ext rfl rfl rfl rfl rfl rfl rfl rfl rfl (update_self ..) (update_self ..) rfl rfl

/-- The row of a request after its id is in its place. -/
theorem Placed.rowAt {reqIds : List (Option String)} {outputs : List (Option OutputRef)}
    {spec : List (List Int)} {index : PyDict String Nat} {builder : BatchUpdateBuilder}
    (h : Placed b request i reqIds outputs spec)
    (hb' : b' = { b with
      reqIds := reqIds
      reqOutputTokenIds := outputs
      specTokenIds := spec
      reqIdToIndex := index
      batchUpdateBuilder := builder }) :
    (∀ k, k ≠ i → b'.rowAt k = b.rowAt k) ∧
      ((i = b.reqIds.length → (b.specTokenIds[i]?).getD [] = []) → b'.rowAt i = { b.rowAt i with
        outputTokenIds := some request.outputTokenIds
        specTokenIds := [] }) := by
  subst hb'
  refine ⟨fun k hk => ?_, fun hspec => ?_⟩
  · exact SameRow.rowAt_eq {
      columns := { SameColumns.refl b k with }
      outputs := h.outputs_others k hk
      spec := h.spec_others k hk
      accepted := rfl
      flag := rfl
      pooling := rfl
      sampling := fun _ => rfl }
  · exact Row.ext (congrArg (Option.getD · none) h.outputs_self) (h.spec_self hspec) rfl rfl rfl rfl
      rfl rfl rfl rfl rfl rfl rfl

/-- The row of a request after its blocks are written. -/
theorem rowAt_addBlockRow {tables : List BlockTable} {ids : List (List Nat)}
    (h : addBlockRow b.blockTables ids i = .ok tables) :
    (∀ k, k ≠ i → ({ b with blockTables := tables } : InputBatch ε γ).rowAt k = b.rowAt k) ∧
      ({ b with blockTables := tables } : InputBatch ε γ).rowAt i = { b.rowAt i with
        blocks := List.zipWith (fun t ids => t.kernelBlockIds ids) b.blockTables ids } := by
  obtain ⟨hself, hother⟩ := blocksAt_addBlockRow h
  refine ⟨fun k hk => ?_, ?_⟩
  · exact SameRow.rowAt_eq {
      columns := { SameColumns.refl b k with blocks := hother k hk }
      outputs := rfl
      spec := rfl
      accepted := rfl
      flag := rfl
      pooling := rfl
      sampling := fun _ => rfl }
  · exact Row.ext rfl rfl rfl rfl rfl rfl rfl rfl hself rfl rfl rfl rfl

theorem addRequest_spec {outputs : OutputRef → List Int}
    (hlen : b.reqOutputTokenIds.length = b.reqIds.length) (hsuits : Suits b request)
    (h : b.addRequest outputs request = .ok (i, b')) :
    Added b (outputs request.outputTokenIds) request i b' := by
  unfold addRequest at h
  obtain ⟨⟨i1, b1⟩, hregister, h⟩ := bind_ok h
  obtain ⟨hnext, hb1⟩ := registerAddRequest_spec hregister
  dsimp only at h
  obtain ⟨b2, hplace, h⟩ := bind_ok h
  have hlen1 : b1.reqOutputTokenIds.length = b1.reqIds.length := by
    rw [hb1]
    exact hlen
  obtain ⟨reqIds, outs, spec, hplaced, hb2⟩ := addReqId_spec hlen1 hplace
  obtain ⟨n, hn, h⟩ := bind_ok h
  obtain rfl := lengthFromPrompt_spec hn
  obtain ⟨tables, htables, h⟩ := bind_ok h
  obtain ⟨b5, hparams, h⟩ := bind_ok h
  generalize hb3 : b2.addTokens request (outputs request.outputTokenIds) (promptLength request) i1
    = b3 at htables hparams
  generalize hb4 : ({ b3 with blockTables := tables } : InputBatch ε γ) = b4 at hparams
  cases h
  have hframe : Frame b2 b4 := by
    rw [← hb4, ← hb3]
    exact ⟨rfl, rfl, rfl, rfl, rfl, rfl, rfl, rfl, rfl, rfl⟩
  have hplaced : Placed b request i reqIds outs spec := by
    rw [hb1] at hplaced
    exact ⟨hplaced.ids, hplaced.outputs_length, hplaced.outputs_self, hplaced.outputs_others,
      hplaced.spec_self, hplaced.spec_others⟩
  have hb2 : b2 = { b with
      reqIds := reqIds
      reqOutputTokenIds := outs
      specTokenIds := spec
      reqIdToIndex := b.reqIdToIndex.insert request.reqId i
      batchUpdateBuilder := { b.batchUpdateBuilder.popRemoved.2 with
        batchChanged := true
        added := b.batchUpdateBuilder.popRemoved.2.added ++ logEntry i request } } := by
    rw [hb2, hb1]
  obtain ⟨hothers2, hrow2⟩ := hplaced.rowAt hb2
  obtain ⟨hothers4, hrow4⟩ := rowAt_addBlockRow htables
  rw [hb4] at hothers4 hrow4
  -- What the arrays are before the parameters are written.
  have hpool : b4.isPoolingModel = b.isPoolingModel := by
    rw [hframe.pooling, hb2]
  have hvocab : b4.vocabSize = b.vocabSize := by
    rw [hframe.vocabSize, hb2]
  have hraw : b4.numAcceptedTokensCpu = b.numAcceptedTokensCpu ∧
      b4.logitsProcessingNeedsTokenIds = b.logitsProcessingNeedsTokenIds ∧
      b4.generators = b.generators ∧ b4.badWordsTokenIds = b.badWordsTokenIds ∧
      b4.maskAt = b.maskAt := by
    rw [← hb4, ← hb3, hb2]
    exact ⟨rfl, rfl, rfl, rfl, rfl⟩
  obtain ⟨haccepted, hflags, hgenerators, hbadWords, hmaskAt⟩ := hraw
  have hsuits4 : Suits b4 request := by
    unfold Suits at hsuits ⊢
    rw [hpool]
    exact hsuits
  have hparams := addParams_spec hsuits4 hparams
  have hlora := addLora_spec b5 request i
  have hframe' := (hframe.trans hparams.frame).trans hlora.frame
  have hothers : ∀ k, k ≠ i → b4.rowAt k = b.rowAt k := by
    intro k hk
    rw [hothers4 k hk, ← hb3, rowAt_addTokens_of_ne hk, hothers2 k hk]
  generalize ({ b5 with
    numAcceptedTokensCpu := update b5.numAcceptedTokensCpu i 1 } :
      InputBatch ε γ).addLora request i = b' at hlora hframe'
  constructor
  case next => exact hnext
  case ids =>
    rw [hframe'.reqIds, hframe'.spec, hb2]
    exact hplaced.ids
  case outputs_length =>
    rw [hframe'.outputs, hframe'.reqIds, hb2]
    exact hplaced.outputs_length
  case reqIdToIndex => rw [hframe'.reqIdToIndex, hb2]
  case builder => rw [hframe'.builder, hb2]
  case pooling => rw [hframe'.pooling, hb2]
  case accepted => rw [hlora.accepted, hparams.accepted, haccepted]
  case flags =>
    intro hnot
    rw [hlora.flags, hparams.flags (hpool.trans hnot), hflags]
  case sparse =>
    intro k hk
    obtain ⟨hgen, hbad⟩ := hparams.sparse k hk
    rw [hlora.sparse.1, hlora.sparse.2, hgen, hbad, hgenerators, hbadWords]
    exact ⟨rfl, rfl⟩
  case processors =>
    rw [hframe'.processors.1, hframe'.processors.2.1, hframe'.processors.2.2, hb2]
    exact ⟨rfl, rfl, rfl⟩
  case others =>
    intro k hk
    rw [hlora.others k hk, hparams.others k hk, hothers k hk]
  case row =>
    intro hembeds hmask hsparse hspec
    have hembeds2 : request.promptEmbeds = none → b2.reqPromptEmbeds.get? i = none := by
      rw [hb2]
      exact hembeds
    have htables2 : b3.blockTables = b.blockTables := by
      rw [← hb3, hb2]
      rfl
    have hmask4 : b4.isPoolingModel = false → AllowsAll request → AllAllowed b4 i := by
      unfold AllAllowed
      rw [hpool, hmaskAt, hvocab]
      exact hmask
    have hsparse4 : b4.isPoolingModel = false → b4.generators.get? i = none ∧
        b4.badWordsTokenIds.get? i = none ∧ b4.logitsProcessingNeedsTokenIds i = false := by
      rw [hpool, hgenerators, hbadWords, hflags]
      exact hsparse
    have hsampling : (b4.rowOf [] request).sampling = (b.rowOf [] request).sampling := by
      unfold rowOf samplingOf storedTopK maskOf
      rw [hpool, hvocab]
    rw [hlora.row, hparams.row hmask4 hsparse4, hsampling, hrow4, htables2, ← hb3,
      rowAt_addTokens _ hembeds2, hrow2 hspec]
    rfl

end Rows

end Vllm.Proofs.Worker
