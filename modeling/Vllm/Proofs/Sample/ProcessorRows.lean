import Vllm.Lib.RowLog
import Vllm.V1.Sample.LogitsProcessor
import Mathlib.Data.Finset.Card

/-!
# `Vllm.Proofs.Sample.ProcessorRows`: the processors replay the log of the batch

The processors for logit biases and minimal numbers of tokens keep a dict by rows, the one for
min-p an array with a count. All three are told the same log.

* `rowLog`: the log of a step as a `RowLog`, with the entry that an added request gets.
* `get?_processDictUpdates`: the dicts replay the log.
* `MinPOk`, `minPRows_updateState`: so does the array, whose count is that of the entries.
-/

set_option autoImplicit false

namespace Vllm.Proofs.Sample

open Vllm.Lib Vllm.V1.Sample Function MinPLogitsProcessor

section Log
variable {τ : Type}

/-- A move of the log. -/
def rowMove (m : MovedRequest) : RowMove :=
  match m.direct with
  | .unidirectional => .move m.adx m.bdx
  | .swap => .swap m.adx m.bdx

/-- The changes of a step, with the entry of each added request. -/
def rowLog (newState : AddedRequest → Option τ) (added : List AddedRequest) (removed : List Nat)
    (moved : List MovedRequest) : RowLog τ where
  added := added.map fun a => (a.index, newState a)
  removed := removed
  moved := moved.map rowMove

/-! ### Dicts -/

theorem get?_addEntry (newState : AddedRequest → Option τ) (acc : Bool × PyDict Nat τ)
    (a : AddedRequest) :
    (addEntry newState acc a).2.get? = Rows.put acc.2.get? (a.index, newState a) := by
  funext i
  unfold addEntry Rows.put
  rw [update_apply]
  cases newState a with
  | none => rw [PyDict.get?_erase]
  | some state => rw [PyDict.get?_insert]

theorem get?_removeEntry (truthy : τ → Bool) (acc : Bool × PyDict Nat τ) (index : Nat) :
    (removeEntry truthy acc index).2.get? = Rows.clear acc.2.get? index := by
  funext i
  unfold removeEntry Rows.clear
  rw [update_apply, PyDict.get?_erase]

theorem get?_moveEntry (acc : Bool × PyDict Nat τ) (m : MovedRequest) :
    (moveEntry acc m).2.get? = (rowMove m).apply acc.2.get? := by
  funext i
  obtain ⟨flag, d⟩ := acc
  obtain ⟨a, b, direct⟩ := m
  unfold moveEntry rowMove
  cases direct with
  | unidirectional =>
    dsimp only
    simp only [RowMove.apply, update_apply]
    cases d.get? a with
    | none =>
      cases (d.erase a).get? b <;> simp only [PyDict.get?_erase, reduceCtorEq, if_false]
    | some v =>
      cases (d.erase a).get? b <;>
        simp only [PyDict.get?_insert, PyDict.get?_erase, reduceCtorEq, if_false] <;>
        split_ifs <;> rfl
  | swap =>
    dsimp only
    simp only [RowMove.apply, update_apply]
    cases ha : d.get? a <;> cases hb : (d.erase a).get? b <;>
      simp only [PyDict.get?_insert, PyDict.get?_erase, if_true] <;>
      rw [PyDict.get?_erase] at hb <;> split_ifs at hb ⊢ <;> simp_all

theorem get?_foldl {α : Type} {f : Bool × PyDict Nat τ → α → Bool × PyDict Nat τ}
    (g : Rows τ → α → Rows τ) (h : ∀ acc x, (f acc x).2.get? = g acc.2.get? x) (l : List α)
    (acc : Bool × PyDict Nat τ) : (l.foldl f acc).2.get? = l.foldl g acc.2.get? :=
  (List.foldl_hom (fun acc : Bool × PyDict Nat τ => acc.2.get?) fun acc x => (h acc x).symm).symm

/-- A dict replays the log. Where it is empty after the additions, there is nothing else to do. -/
theorem get?_processDictUpdates (truthy : τ → Bool) (newState : AddedRequest → Option τ)
    (d : PyDict Nat τ) (update : BatchUpdate) :
    (processDictUpdates truthy newState d (some update)).2.get? =
      (rowLog newState update.added update.removed update.moved).replay d.get? := by
  have hadded : (update.added.foldl (addEntry newState) (false, d)).2.get? =
      (rowLog newState update.added update.removed update.moved).added.foldl Rows.put d.get? := by
    rw [get?_foldl (fun S a => Rows.put S (a.index, newState a)) (get?_addEntry newState)]
    unfold rowLog
    rw [List.foldl_map]
  unfold processDictUpdates
  dsimp only
  generalize update.added.foldl (addEntry newState) (false, d) = acc at hadded
  split
  · rename_i hsize
    have hnone : ∀ i, acc.2.get? i = none := by
      intro i
      rw [PyDict.size_eq_length_keys] at hsize
      rw [PyDict.get?_eq_none_iff, List.length_eq_zero_iff.mp hsize]
      exact List.not_mem_nil
    funext i
    rw [hnone, RowLog.replay_of_added_none fun i => hadded ▸ hnone i]
  · rw [get?_foldl (fun S m => (rowMove m).apply S) get?_moveEntry,
      get?_foldl Rows.clear (get?_removeEntry truthy), hadded]
    unfold RowLog.replay rowLog
    dsimp only
    rw [List.foldl_map, List.foldl_map]

end Log

/-! ### The update of a step -/

section Update
variable (b : BatchUpdateBuilder) (batchSize : Nat)

/-- The update has the log of the step, and there is none for an empty log. -/
theorem getAndReset_cases :
    (b.getAndReset batchSize).1 = none ∧ b.added = [] ∧ b.removedIndices = [] ∧ b.moved = [] ∨
      ∃ update : BatchUpdate, (b.getAndReset batchSize).1 = some update ∧ update.added = b.added ∧
        update.removed = b.removedIndices ∧ update.moved = b.moved := by
  unfold BatchUpdateBuilder.getAndReset
  split
  · rename_i hnil
    exact .inl ⟨rfl, hnil.2.2, hnil.1, hnil.2.1⟩
  · exact .inr ⟨_, rfl, rfl, rfl, rfl⟩

theorem get?_processDictUpdates_getAndReset {τ : Type} (truthy : τ → Bool)
    (newState : AddedRequest → Option τ) (d : PyDict Nat τ) :
    (processDictUpdates truthy newState d (b.getAndReset batchSize).1).2.get? =
      (rowLog newState b.added b.removedIndices b.moved).replay d.get? := by
  obtain ⟨hnone, hadded, hremoved, hmoved⟩ | ⟨update, hsome, hadded, hremoved, hmoved⟩ :=
    getAndReset_cases b batchSize
  · rw [hnone, hadded, hremoved, hmoved]
    rfl
  · rw [hsome, get?_processDictUpdates, hadded, hremoved, hmoved]

end Update

/-! ### Minimal numbers of tokens -/

/-- An entry stays while the request does not have its minimum. -/
def MinTokensEntry.pending (outputs : OutputRef → List Int) (e : MinTokensEntry) : Bool :=
  decide ((outputs e.outputTokIds).length < e.minTokens)

theorem get?_foldl_erase {τ : Type} (l : List Nat) (d : PyDict Nat τ) (i : Nat) :
    (l.foldl PyDict.erase d).get? i = if i ∈ l then none else d.get? i := by
  induction l generalizing d with
  | nil => simp
  | cons j l ih =>
    rw [List.foldl_cons, ih, PyDict.get?_erase]
    by_cases hmem : i ∈ l <;> by_cases hij : i = j <;> simp [hmem, hij]

/-- After the log is replayed, the entries of requests that have their minimum are dropped. -/
theorem get?_minToks_updateState (outputs : OutputRef → List Int) (p : MinTokensLogitsProcessor)
    (update : Option BatchUpdate) (i : Nat) :
    (p.updateState outputs update).minToks.get? i =
      ((processDictUpdates (fun _ => true) (MinTokensLogitsProcessor.addRequest outputs) p.minToks
        update).2.get? i).filter (MinTokensEntry.pending outputs) := by
  unfold MinTokensLogitsProcessor.updateState
  dsimp only
  generalize (processDictUpdates (fun _ => true) (MinTokensLogitsProcessor.addRequest outputs)
    p.minToks update).2 = d
  rw [get?_foldl_erase]
  have hmem : i ∈ MinTokensLogitsProcessor.reached outputs d ↔
      ∃ e, d.get? i = some e ∧ e.minTokens ≤ (outputs e.outputTokIds).length := by
    unfold MinTokensLogitsProcessor.reached
    simp [PyDict.mem_entries_iff]
  simp only [hmem]
  cases d.get? i with
  | none => simp
  | some e => by_cases he : e.minTokens ≤ (outputs e.outputTokIds).length <;>
      simp [MinTokensEntry.pending, he, Option.filter]

/-- The entry of a request, when its list of output tokens has changed. -/
theorem filter_addRequest {outputs last : OutputRef → List Int} {a : AddedRequest}
    (h : a.params.minTokens ≤ (last a.outputTokIds).length →
      a.params.minTokens ≤ (outputs a.outputTokIds).length) :
    (MinTokensLogitsProcessor.addRequest last a).filter (MinTokensEntry.pending outputs) =
      MinTokensLogitsProcessor.addRequest outputs a := by
  unfold MinTokensLogitsProcessor.addRequest
  dsimp only
  by_cases hzero : a.params.minTokens = 0
  · simp [hzero]
  · by_cases hlast : a.params.minTokens ≤ (last a.outputTokIds).length
    · simp [hlast, h hlast]
    · by_cases hnow : a.params.minTokens ≤ (outputs a.outputTokIds).length
      · simp [hzero, hlast, hnow, Option.filter, MinTokensEntry.pending]
      · simp [hzero, hlast, hnow, Option.filter, MinTokensEntry.pending]

/-! ### The array -/

/-- The rows of the array that are not zero. -/
def minPRows (p : MinPLogitsProcessor) : Rows ℚ := fun i =>
  if p.minPCpu i = 0 then none else some (p.minPCpu i)

/-- The entry of an added request. -/
def minPState (a : AddedRequest) : Option ℚ :=
  if roundSingle a.params.minP = 0 then none else some (roundSingle a.params.minP)

/-- With 32 bits the number is still there. -/
def Representable (a : AddedRequest) : Prop := a.params.minP ≠ 0 → roundSingle a.params.minP ≠ 0

/-- The numbers have 32 bits, and the count is that of the rows that are not zero. -/
structure MinPOk (p : MinPLogitsProcessor) : Prop where
  single : ∀ i, roundSingle (p.minPCpu i) = p.minPCpu i
  count : ∃ rows : Finset Nat, (∀ i, i ∈ rows ↔ p.minPCpu i ≠ 0) ∧ p.minPCount = rows.card

theorem minPOk_init : MinPOk {} := ⟨fun _ => roundSingle_zero, ∅, fun i => by simp, rfl⟩

section MinP
variable {p p' : MinPLogitsProcessor} {i : Nat} {v : ℚ}

theorem minPRows_update (h : p'.minPCpu = update p.minPCpu i v) :
    minPRows p' = update (minPRows p) i (if v = 0 then none else some v) := by
  funext k
  unfold minPRows
  rw [h, update_apply, update_apply]
  by_cases hk : k = i
  · simp only [if_pos hk]
  · simp only [if_neg hk]

/-- How the count changes when a row is written. -/
def countAfter (p : MinPLogitsProcessor) (i : Nat) (v : ℚ) : Int :=
  if v ≠ 0 ∧ p.minPCpu i = 0 then p.minPCount + 1
  else if v = 0 ∧ p.minPCpu i ≠ 0 then p.minPCount - 1
  else p.minPCount

theorem MinPOk.update (h : MinPOk p) (hv : roundSingle v = v)
    (hcpu : p'.minPCpu = update p.minPCpu i v) (hcount : p'.minPCount = countAfter p i v) :
    MinPOk p' := by
  obtain ⟨rows, hrows, hcard⟩ := h.count
  refine ⟨fun k => ?_, if v = 0 then rows.erase i else insert i rows, fun k => ?_, ?_⟩
  · rw [hcpu, update_apply]
    split
    · exact hv
    · exact h.single k
  · rw [hcpu, update_apply]
    by_cases hk : k = i <;> by_cases hv0 : v = 0 <;> simp [hk, hv0, hrows]
  · rw [hcount, countAfter, hcard]
    have hmem := hrows i
    by_cases hv0 : v = 0 <;> by_cases hi : p.minPCpu i = 0
    · have hnot : i ∉ rows := fun hi' => hmem.mp hi' hi
      simp [hv0, hi, Finset.erase_eq_of_notMem hnot]
    · have hpos : 0 < rows.card := Finset.card_pos.mpr ⟨i, hmem.mpr hi⟩
      rw [if_neg (by simp [hv0]), if_pos ⟨hv0, hi⟩, if_pos hv0,
        Finset.card_erase_of_mem (hmem.mpr hi)]
      omega
    · have hnot : i ∉ rows := fun hi' => hmem.mp hi' hi
      simp [hv0, hi, Finset.card_insert_of_notMem hnot]
    · simp [hv0, hi, Finset.insert_eq_of_mem (hmem.mpr hi)]

/-- A number that is already there needs no rounding. -/
theorem addRequest_minP (h : MinPOk p) {a : AddedRequest} (ha : Representable a) :
    MinPOk (p.addRequest a) ∧
      minPRows (p.addRequest a) = Rows.put (minPRows p) (a.index, minPState a) := by
  have hzero : roundSingle a.params.minP = 0 ↔ a.params.minP = 0 :=
    ⟨fun hround => by_contra fun hne => ha hne hround, fun heq => heq ▸ roundSingle_zero⟩
  have hcpu : (p.addRequest a).minPCpu = update p.minPCpu a.index (roundSingle a.params.minP) := by
    unfold addRequest
    dsimp only
    split
    · rfl
    · rename_i heq
      rw [← not_not.mp heq, h.single, update_eq_self]
  have hcount : (p.addRequest a).minPCount = countAfter p a.index (roundSingle a.params.minP) := by
    unfold addRequest countAfter
    dsimp only
    simp only [ne_eq, hzero]
    split
    · rfl
    · rename_i heq
      have heq := not_not.mp heq
      rw [if_neg fun hc => hc.1 (heq ▸ hc.2), if_neg fun hc => hc.2 (heq.trans hc.1)]
  exact ⟨h.update (roundSingle_roundSingle _) hcpu hcount, minPRows_update hcpu⟩

theorem removeRow_minP (h : MinPOk p) (i : Nat) :
    MinPOk (p.removeRow i) ∧ minPRows (p.removeRow i) = Rows.clear (minPRows p) i := by
  have hcpu : (p.removeRow i).minPCpu = update p.minPCpu i 0 := by
    unfold removeRow
    split
    · rfl
    · rename_i heq
      rw [← not_not.mp heq, update_eq_self]
  have hcount : (p.removeRow i).minPCount = countAfter p i 0 := by
    unfold removeRow countAfter
    split
    · rename_i hne
      simp [hne]
    · rename_i heq
      simp [not_not.mp heq]
  refine ⟨h.update roundSingle_zero hcpu hcount, ?_⟩
  rw [minPRows_update hcpu, if_pos rfl]
  rfl

/-- Two writes, to the target and then to the source. -/
theorem MinPOk.writes (h : MinPOk p) {a b : Nat} {w : ℚ} (hab : a ≠ b) (hw : roundSingle w = w)
    (hcpu : p'.minPCpu = Function.update (Function.update p.minPCpu b (p.minPCpu a)) a w)
    (hcount : p'.minPCount = countAfter
      { minPCount := countAfter p b (p.minPCpu a)
        minPCpu := Function.update p.minPCpu b (p.minPCpu a) } a w) :
    MinPOk p' ∧ minPRows p' =
      Function.update (Function.update (minPRows p) a (if w = 0 then none else some w)) b
        (minPRows p a) := by
  have hfirst : MinPOk
      { minPCount := countAfter p b (p.minPCpu a)
        minPCpu := Function.update p.minPCpu b (p.minPCpu a) } :=
    h.update (h.single a) rfl rfl
  refine ⟨hfirst.update hw hcpu hcount, ?_⟩
  rw [minPRows_update (p := ⟨countAfter p b (p.minPCpu a),
      Function.update p.minPCpu b (p.minPCpu a)⟩) hcpu, minPRows_update (p := p) rfl, Function.update_comm hab]
  rfl

/-- A move is two writes, and the target of a move loses what it had. -/
theorem moveRow_minP (h : MinPOk p) {m : MovedRequest}
    (hm : m.direct = .unidirectional → m.adx ≠ m.bdx) :
    MinPOk (p.moveRow m) ∧ minPRows (p.moveRow m) = (rowMove m).apply (minPRows p) := by
  obtain ⟨a, b, direct⟩ := m
  by_cases hab : a = b
  · subst hab
    cases direct with
    | unidirectional => exact absurd rfl (hm rfl)
    | swap =>
      have hsame : p.moveRow ⟨a, a, .swap⟩ = p := by simp [moveRow]
      rw [hsame]
      refine ⟨h, ?_⟩
      show _ = Function.update (Function.update (minPRows p) a (minPRows p a)) a (minPRows p a)
      rw [Function.update_eq_self, Function.update_eq_self]
  · have htarget : (if p.minPCpu a ≠ p.minPCpu b then
        Function.update p.minPCpu b (p.minPCpu a) else p.minPCpu) =
          Function.update p.minPCpu b (p.minPCpu a) := by
      split
      · rfl
      · rename_i heq
        rw [not_not.mp heq, Function.update_eq_self]
    have hsource : Function.update p.minPCpu b (p.minPCpu a) a = p.minPCpu a :=
      Function.update_of_ne hab ..
    cases direct with
    | unidirectional =>
      refine (h.writes hab roundSingle_zero ?_ ?_).imp id fun hrows => ?_
      · simp only [moveRow, reduceCtorEq, if_false, if_true, htarget]
        split
        · rfl
        · rename_i hzero
          exact (Function.update_eq_self_iff.mpr ((not_not.mp hzero).symm.trans hsource.symm)).symm
      · simp only [moveRow, if_true, countAfter, hsource]
        by_cases ha : p.minPCpu a = 0 <;> by_cases hb : p.minPCpu b = 0 <;> simp [ha, hb]
      · rw [hrows, if_pos rfl]
        rfl
    | swap =>
      refine (h.writes hab (h.single b) ?_ ?_).imp id fun hrows => ?_
      · simp only [moveRow, reduceCtorEq, if_false, if_true]
        split
        · rfl
        · rename_i heq
          have heq := not_not.mp heq
          rw [Function.update_eq_self_iff.mpr (heq.symm.trans hsource.symm),
            Function.update_eq_self_iff.mpr heq]
      · simp only [moveRow, reduceCtorEq, if_false, countAfter, hsource]
        by_cases ha : p.minPCpu a = 0 <;> by_cases hb : p.minPCpu b = 0 <;> simp [ha, hb]
      · rw [hrows]
        rfl

/-- The log that a processor for min-p can follow: each number is there with 32 bits, and no row
is moved to itself. -/
structure MinPLog (added : List AddedRequest) (moved : List MovedRequest) : Prop where
  representable : ∀ a ∈ added, Representable a
  apart : ∀ m ∈ moved, m.direct = .unidirectional → m.adx ≠ m.bdx

theorem foldl_addRequest_minP (h : MinPOk p) {added : List AddedRequest}
    (hadded : ∀ a ∈ added, Representable a) :
    MinPOk (added.foldl addRequest p) ∧
      minPRows (added.foldl addRequest p) =
        (added.map fun a => (a.index, minPState a)).foldl Rows.put (minPRows p) := by
  induction added generalizing p with
  | nil => exact ⟨h, rfl⟩
  | cons a added ih =>
    obtain ⟨hok, hrows⟩ := addRequest_minP h (hadded a List.mem_cons_self)
    rw [List.foldl_cons, List.map_cons, List.foldl_cons, ← hrows]
    exact ih hok fun a' ha' => hadded a' (List.mem_cons_of_mem a ha')

theorem foldl_removeRow_minP (h : MinPOk p) (removed : List Nat) :
    MinPOk (removed.foldl removeRow p) ∧
      minPRows (removed.foldl removeRow p) = removed.foldl Rows.clear (minPRows p) := by
  induction removed generalizing p with
  | nil => exact ⟨h, rfl⟩
  | cons j removed ih =>
    obtain ⟨hok, hrows⟩ := removeRow_minP h j
    rw [List.foldl_cons, List.foldl_cons, ← hrows]
    exact ih hok

theorem foldl_moveRow_minP (h : MinPOk p) {moved : List MovedRequest}
    (hmoved : ∀ m ∈ moved, m.direct = .unidirectional → m.adx ≠ m.bdx) :
    MinPOk (moved.foldl moveRow p) ∧
      minPRows (moved.foldl moveRow p) =
        (moved.map rowMove).foldl (fun S m => m.apply S) (minPRows p) := by
  induction moved generalizing p with
  | nil => exact ⟨h, rfl⟩
  | cons m moved ih =>
    obtain ⟨hok, hrows⟩ := moveRow_minP h (hmoved m List.mem_cons_self)
    rw [List.foldl_cons, List.map_cons, List.foldl_cons, ← hrows]
    exact ih hok fun m' hm' => hmoved m' (List.mem_cons_of_mem m hm')

/-- The array replays the log. When the count is zero after the additions, so are all rows. -/
theorem updateState_minP (h : MinPOk p) {update : BatchUpdate}
    (hlog : MinPLog update.added update.moved) :
    MinPOk (p.updateState (some update)) ∧ minPRows (p.updateState (some update)) =
      (rowLog minPState update.added update.removed update.moved).replay (minPRows p) := by
  obtain ⟨hok, hrows⟩ := foldl_addRequest_minP h hlog.representable
  unfold updateState
  dsimp only
  generalize update.added.foldl addRequest p = p1 at hok hrows
  split
  · obtain ⟨hok2, hrows2⟩ := foldl_removeRow_minP hok update.removed
    obtain ⟨hok3, hrows3⟩ := foldl_moveRow_minP hok2 hlog.apart
    refine ⟨hok3, ?_⟩
    rw [hrows3, hrows2, hrows]
    rfl
  · rename_i hcount
    refine ⟨hok, ?_⟩
    obtain ⟨rows, hmem, hcard⟩ := hok.count
    rw [not_not.mp hcount] at hcard
    have hempty : rows = ∅ := Finset.card_eq_zero.mp (by omega)
    have hnone : ∀ i, minPRows p1 i = none := by
      intro i
      refine if_pos (by_contra fun hne => ?_)
      have := (hmem i).mpr hne
      rw [hempty] at this
      exact Finset.notMem_empty i this
    funext i
    rw [hnone, RowLog.replay_of_added_none fun i => ?_]
    show (update.added.map fun a => (a.index, minPState a)).foldl Rows.put (minPRows p) i = none
    rw [← hrows, hnone]

theorem getAndReset_minP (h : MinPOk p) {b : BatchUpdateBuilder} (hlog : MinPLog b.added b.moved)
    (batchSize : Nat) :
    MinPOk (p.updateState (b.getAndReset batchSize).1) ∧
      minPRows (p.updateState (b.getAndReset batchSize).1) =
        (rowLog minPState b.added b.removedIndices b.moved).replay (minPRows p) := by
  obtain ⟨hnone, hadded, hremoved, hmoved⟩ | ⟨update, hsome, hadded, hremoved, hmoved⟩ :=
    getAndReset_cases b batchSize
  · rw [hnone, hadded, hremoved, hmoved]
    exact ⟨h, rfl⟩
  · rw [← hadded, ← hmoved] at hlog
    rw [hsome, ← hadded, ← hremoved, ← hmoved]
    exact updateState_minP h hlog

end MinP

end Vllm.Proofs.Sample
