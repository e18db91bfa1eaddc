import Vllm.Proofs.Sample.ProcessorRows
import Vllm.Proofs.Worker.BatchRun

/-!
# `Vllm.Proofs.Worker.LogitsState`: the logits processors follow the batch

The processors hear of a step when it is over: first of the added requests, then of the rows that
are still empty, then of the moves. In the batch the rows were emptied first.

* `Follows`: the log so far, replayed on what a processor has, gives the entry of the request of
  each row.
* `Condensing.moves`: a row that is filled by a move may have any entry when the log is replayed.
* `stateFollows_of_run`: what the processors have after `refresh_metadata`.
-/

set_option autoImplicit false

namespace Vllm.Proofs.Worker

open Vllm.Lib Vllm.V1.Sample Vllm.V1.Worker Vllm.V1.Worker.InputBatch Vllm.Proofs.Sample
  LogitBiasLogitsProcessor
  MinTokensLogitsProcessor

variable {ε γ : Type}

/-- The ids by rows. -/
def idAt (b : InputBatch ε γ) : Rows String := fun i => (b.reqIds[i]?).join

variable {b : InputBatch ε γ}

theorem idAt_eq_some_iff {i : Nat} {id : String} :
    idAt b i = some id ↔ b.reqIds[i]? = some (some id) := by
  unfold idAt
  rw [Option.join_eq_some_iff]

/-! ### The moves of `condense` -/

/-- What the loop of `condense` leaves in the log. Each move fills a row that was removed. -/
structure Moves (b : InputBatch ε γ) (moves : List (Nat × Nat)) (b' : InputBatch ε γ) : Prop where
  moved : b'.batchUpdateBuilder.moved = b.batchUpdateBuilder.moved ++
    if b.isPoolingModel then [] else moves.map fun m => ⟨m.1, m.2, .unidirectional⟩
  added : b'.batchUpdateBuilder.added = b.batchUpdateBuilder.added
  removed : ∀ i, i ∈ b.batchUpdateBuilder.removedIndices ↔
    i ∈ b'.batchUpdateBuilder.removedIndices ∨ ∃ m ∈ moves, i = m.2
  apart : ∀ m ∈ moves, m.1 ≠ m.2
  later : moves.Pairwise fun m m' => m.1 ≠ m'.2
  ids : idAt b' = applyMoves moves (idAt b)
  pooling : b'.isPoolingModel = b.isPoolingModel
  processors : b'.minP = b.minP ∧ b'.logitBias = b.logitBias ∧ b'.minTokens = b.minTokens

theorem Moves.refl (b : InputBatch ε γ) : Moves b [] b where
  moved := by simp
  added := rfl
  removed := by simp
  apart := by simp
  later := .nil
  ids := rfl
  pooling := rfl
  processors := ⟨rfl, rfl, rfl⟩

variable {b' : InputBatch ε γ}

theorem Moved.idAt {last e : Nat} (h : Moved b last e b') (hne : last ≠ e) :
    idAt b' = (RowMove.move last e).apply (idAt b) := by
  obtain ⟨id, hlast, hget⟩ := h.getElem?_reqIds
  funext k
  simp only [Worker.idAt, RowMove.apply, Function.update_apply, hget, hlast]
  by_cases hke : k = e
  · subst hke
    rw [if_neg hne.symm, if_pos rfl, if_pos rfl]
  · by_cases hkl : k = last
    · simp [hkl, hne]
    · simp [hke, hkl]

theorem Condensing.moves {last : Nat} (h : Condensing last b b') : ∃ moves, Moves b moves b' := by
  induction h with
  | @empty last b _ => exact ⟨[], .refl b⟩
  | @zero b _ => exact ⟨[], .refl b⟩
  | @done last b _ => exact ⟨[], .refl b⟩
  | skip _ _ ih => exact ih
  | @move last e b b1 b' builder hnot hpop hlt hmove _ ih =>
    obtain ⟨moves, hrest⟩ := ih
    have hmem := fun i => hpop.perm.mem_iff (a := i)
    have hremoved : b1.batchUpdateBuilder.removedIndices = builder.removedIndices := hmove.removed
    have hpool : b1.isPoolingModel = b.isPoolingModel := hmove.pooling
    refine ⟨(last + 1, e) :: moves, ?_⟩
    constructor
    case moved =>
      rw [hrest.moved, hmove.moved, hpool, hpop.moved]
      split <;> simp
    case added => rw [hrest.added, hmove.added, hpop.added]
    case removed =>
      intro i
      rw [hmem, List.mem_cons, ← hremoved, hrest.removed]
      simp only [List.exists_mem_cons_iff]
      tauto
    case apart =>
      intro m hm
      rcases List.mem_cons.mp hm with rfl | hm
      · exact Nat.ne_of_gt hlt
      · exact hrest.apart m hm
    case later =>
      refine List.pairwise_cons.mpr ⟨fun m hm heq => hnot ?_, hrest.later⟩
      -- The rows that are filled later are still in the log.
      rw [hmem]
      refine List.mem_cons_of_mem e ?_
      rw [← hremoved, hrest.removed]
      exact .inr ⟨m, hm, heq⟩
    case ids =>
      rw [hrest.ids, hmove.idAt (Nat.ne_of_gt hlt)]
      rfl
    case pooling => rw [hrest.pooling, hpool]
    case processors =>
      obtain ⟨hminP, hbias, hmin⟩ := hrest.processors
      exact ⟨hminP.trans hmove.processors.1, hbias.trans hmove.processors.2.1,
        hmin.trans hmove.processors.2.2⟩

/-! ### The log so far -/

section Log
variable {τ : Type}

/-- The log of the step. -/
def logOf (newState : AddedRequest → Option τ) (b : InputBatch ε γ) : RowLog τ :=
  rowLog newState b.batchUpdateBuilder.added b.batchUpdateBuilder.removedIndices
    b.batchUpdateBuilder.moved

/-- The entry of a request that was added in this step, and of one that was added before. -/
def entryOf (s : BatchSystem ε γ) (fresh old : AddedRequest → Option τ) (id : String) : Option τ :=
  (s.requests id).bind fun request =>
    (logEntry 0 request).head?.bind (if id ∈ s.added then fresh else old)

/-- The log replayed on the rows `S` of a processor gives the entries of the requests. -/
def Follows (fresh old : AddedRequest → Option τ) (S : Rows τ) (s : BatchSystem ε γ) : Prop :=
  (logOf fresh s.batch).replay S = fun i => (idAt s.batch i).bind (entryOf s fresh old)

/-- The entry of a request does not depend on its row. -/
def RowFree (newState : AddedRequest → Option τ) : Prop :=
  ∀ a i, newState { a with index := i } = newState a

variable {fresh old : AddedRequest → Option τ} {S : Rows τ} {s s' : BatchSystem ε γ}

/-- The entries that the added requests get. -/
def putAdded (fresh : AddedRequest → Option τ) (b : InputBatch ε γ) (S : Rows τ) : Rows τ :=
  (b.batchUpdateBuilder.added.map fun a => (a.index, fresh a)).foldl Rows.put S

/-- Before the rows are condensed there are no moves in the log. -/
theorem replay_logOf {b : InputBatch ε γ} (hmoved : b.batchUpdateBuilder.moved = []) (S : Rows τ)
    (k : Nat) : (logOf fresh b).replay S k =
      if k ∈ b.batchUpdateBuilder.removedIndices then none else putAdded fresh b S k := by
  have hlog : (logOf fresh b).moved = [] := by
    unfold logOf rowLog
    rw [hmoved]
    rfl
  exact RowLog.replay_of_moved_nil hlog S k

variable {b' : InputBatch ε γ}

/-- A row that is removed is cleared when the log is replayed. -/
theorem Follows.removed {id : String} {i : Nat} (h : Follows fresh old S s)
    (hmoved : s.batch.batchUpdateBuilder.moved = []) (hremoved : Removed s.batch id i b') :
    Follows fresh old S { s with batch := b', phase := .removing } := by
  obtain ⟨-, hbuilder⟩ := removedAppend_eq_ok hremoved.builder
  have hmoved' : b'.batchUpdateBuilder.moved = [] := by rw [hbuilder, hmoved]
  have hput : putAdded fresh b' S = putAdded fresh s.batch S := by
    unfold putAdded
    rw [hbuilder]
  funext k
  have hold := congrFun h k
  have hmem : k ∈ b'.batchUpdateBuilder.removedIndices ↔
      k ∈ s.batch.batchUpdateBuilder.removedIndices ∨ k = i := by
    rw [hbuilder, List.mem_append, List.mem_singleton]
  have hids : idAt b' k = if k = i then none else idAt s.batch k := by
    unfold idAt
    rw [hremoved.getElem?_reqIds]
    split <;> rfl
  show (logOf fresh b').replay S k = (idAt b' k).bind (entryOf s fresh old)
  rw [replay_logOf hmoved] at hold
  rw [replay_logOf hmoved', hids, hput]
  by_cases hk : k = i
  · rw [if_pos (hmem.mpr (.inr hk)), if_pos hk]
    rfl
  · rw [if_neg hk, ← hold]
    by_cases hin : k ∈ s.batch.batchUpdateBuilder.removedIndices
    · rw [if_pos hin, if_pos (hmem.mpr (.inl hin))]
    · rw [if_neg hin, if_neg fun hc => (hmem.mp hc).elim hin hk]

/-- An added request has its entry in the row that it takes. -/
theorem Follows.added {request : CachedRequestState ε γ} {outputTokenIds : List Int} {i : Nat}
    {owned : String → Option (Row ε γ)} (h : Follows fresh old S s) (hshape : ShapeInv s)
    (hphase : s.phase ≠ .condensed) (hfree : RowFree fresh)
    (hnew : s.batch.reqIdToIndex.contains request.reqId = false)
    (hparams : request.samplingParams.isSome = true)
    (hadded : Added s.batch outputTokenIds request i b') :
    Follows fresh old S { s with
      batch := b'
      phase := .adding
      requests := Function.update s.requests request.reqId (some request)
      owned := owned
      added := request.reqId :: s.added } := by
  have hmoved := hshape.unmoved hphase
  have hnext := nextRow_spec hshape.ids (hshape.holes hphase)
  rw [← hadded.next] at hnext
  obtain ⟨params, hparams⟩ := Option.isSome_iff_exists.mp hparams
  have hentry : ∀ j, logEntry j request = [⟨j, params, request.promptTokenIds,
      request.outputTokenIds⟩] := by
    intro j
    unfold logEntry
    rw [hparams]
  have hmoved' : b'.batchUpdateBuilder.moved = [] := by rw [hadded.builder, hnext.moved, hmoved]
  have hput : putAdded fresh b' S = Rows.put (putAdded fresh s.batch S)
      (i, fresh ⟨i, params, request.promptTokenIds, request.outputTokenIds⟩) := by
    unfold putAdded
    rw [hadded.builder, hnext.added, hentry, List.map_append, List.foldl_append]
    rfl
  funext k
  have hold := congrFun h k
  have hmem : k ∈ b'.batchUpdateBuilder.removedIndices ↔
      k ≠ i ∧ k ∈ s.batch.batchUpdateBuilder.removedIndices := by
    rw [hadded.builder, hnext.mem]
  have hids : idAt b' k = if k = i then some request.reqId else idAt s.batch k := by
    unfold idAt
    rw [hadded.getElem?_reqIds]
    split <;> rfl
  show (logOf fresh b').replay S k = (idAt b' k).bind _
  rw [replay_logOf hmoved] at hold
  rw [replay_logOf hmoved', hids, hput]
  unfold Rows.put
  rw [Function.update_apply]
  by_cases hk : k = i
  · subst hk
    rw [if_neg fun hc => (hmem.mp hc).1 rfl, if_pos rfl, if_pos rfl]
    unfold entryOf
    simp only [Function.update_self, Option.bind_some, hentry, List.head?_cons, List.mem_cons_self,
      if_true]
    exact (hfree _ 0).symm
  · have hcond : (if k ∈ b'.batchUpdateBuilder.removedIndices then none
        else if k = i then fresh ⟨i, params, request.promptTokenIds, request.outputTokenIds⟩
          else putAdded fresh s.batch S k) =
        (idAt s.batch k).bind (entryOf s fresh old) := by
      rw [← hold]
      by_cases hin : k ∈ s.batch.batchUpdateBuilder.removedIndices
      · rw [if_pos hin, if_pos (hmem.mpr ⟨hk, hin⟩)]
      · rw [if_neg hin, if_neg fun hc => hin (hmem.mp hc).2, if_neg hk]
    rw [hcond, if_neg hk]
    -- The id is not that of another row.
    cases hid : idAt s.batch k with
    | none => rfl
    | some id =>
      have hne : id ≠ request.reqId := by
        rintro rfl
        have hget := (hshape.ids.inverse _ k).mpr (idAt_eq_some_iff.mp hid)
        rw [PyDict.contains, hget] at hnew
        cases hnew
      simp only [Option.bind_some, entryOf, Function.update_of_ne hne, List.mem_cons, hne,
        false_or]

/-- The moves of the log are those of the rows. -/
theorem Follows.swapped {i j : Nat} (h : Follows fresh old S s)
    (hpool : s.batch.isPoolingModel = false) (hswapped : Swapped s.batch i j b') :
    Follows fresh old S { s with batch := b' } := by
  have hids : idAt b' = (RowMove.swap i j).apply (idAt s.batch) := by
    funext k
    unfold idAt
    rw [hswapped.reqIds]
    simp only [RowMove.apply, Function.update_apply, swapIndex]
    split_ifs <;> rfl
  have hreplay : (logOf fresh b').replay S =
      (RowMove.swap i j).apply ((logOf fresh s.batch).replay S) := by
    refine RowLog.replay_snoc ?_ hswapped.removed ?_ S
    · unfold logOf rowLog
      rw [hswapped.added]
    · unfold logOf rowLog
      dsimp only
      rw [hswapped.moved, hpool, List.map_append]
      rfl
  show (logOf fresh b').replay S = fun k => (idAt b' k).bind (entryOf s fresh old)
  rw [hreplay, hids, h, RowMove.apply_bind]

/-- The rows that `condense` fills are moved when the log is replayed. -/
theorem Follows.moves {moves : List (Nat × Nat)} (h : Follows fresh old S s)
    (hmoved : s.batch.batchUpdateBuilder.moved = []) (hpool : s.batch.isPoolingModel = false)
    (hmoves : Moves s.batch moves b') :
    (logOf fresh b').replay S = fun i => (idAt b' i).bind (entryOf s fresh old) := by
  have hlog : (logOf fresh b').moved = moves.map fun m => .move m.1 m.2 := by
    unfold logOf rowLog
    dsimp only
    rw [hmoves.moved, hmoved, hpool, List.nil_append, if_neg (by decide), List.map_map]
    rfl
  have hput : (logOf fresh b').added.foldl Rows.put S = putAdded fresh s.batch S := by
    unfold logOf rowLog putAdded
    rw [hmoves.added]
  funext i
  rw [hmoves.ids]
  unfold RowLog.replay
  rw [hlog, hput, List.foldl_map]
  refine applyMoves_bind (entryOf s fresh old) hmoves.apart hmoves.later (fun k hk => ?_) i
  have hold := congrFun h k
  rw [replay_logOf hmoved] at hold
  rw [foldl_clear, ← hold]
  show (if k ∈ b'.batchUpdateBuilder.removedIndices then none else _) = _
  have hmem := hmoves.removed k
  by_cases hin : k ∈ b'.batchUpdateBuilder.removedIndices
  · rw [if_pos hin, if_pos (hmem.mpr (.inl hin))]
  · rw [if_neg hin, if_neg fun hc => (hmem.mp hc).elim hin fun ⟨m, hm, heq⟩ => hk m hm heq]

end Log

/-- `condense` is some moves, also when there is nothing to do. -/
theorem condense_moves (hids : IdsOk b) (hholes : HolesOk b) (h : b.condense = .ok b') :
    ∃ moves, Moves b moves b' := by
  obtain ⟨hperm, -, -, hadded, hmoved⟩ := ensureRemovedSorted_spec hids.sorted
  have hsorted : Moves b [] (sortedBatch b) := {
    moved := by simpa [sortedBatch] using hmoved
    added := hadded
    removed := fun i => by simpa [sortedBatch] using hperm.mem_iff.symm
    apart := by simp
    later := .nil
    ids := rfl
    pooling := rfl
    processors := ⟨rfl, rfl, rfl⟩ }
  obtain ⟨-, rfl⟩ | ⟨hzero, rfl⟩ | ⟨hpos, -, b1, hloop, rfl⟩ := condense_cases hids h
  · exact ⟨[], hsorted⟩
  · refine ⟨[], { hsorted with ids := ?_ }⟩
    funext i
    show none = idAt b i
    symm
    rw [Option.eq_none_iff_forall_ne_some]
    intro id hid
    have hmem := PyDict.mem_keys_of_get? ((hids.inverse id i).mpr (idAt_eq_some_iff.mp hid))
    have hsize : b.reqIdToIndex.keys.length = 0 := by
      rw [← PyDict.size_eq_length_keys]
      exact hzero
    rw [List.length_eq_zero_iff.mp hsize] at hmem
    cases hmem
  · obtain ⟨moves, hmoves⟩ := hloop.moves
    have hholes0 := hholes.sortedBatch hids
    obtain ⟨-, -, -, hlive⟩ := hloop.live hids.sortedBatch (low_start hholes0 hpos) hpos
    refine ⟨moves, ?_⟩
    exact { hmoves with
      moved := hmoves.moved.trans (by rw [show (sortedBatch b).batchUpdateBuilder.moved =
        b.batchUpdateBuilder.moved from hmoved]; rfl)
      added := hmoves.added.trans hadded
      removed := fun i => hperm.mem_iff.symm.trans (hmoves.removed i)
      ids := by
        rw [show idAt b = idAt (sortedBatch b) from rfl, ← hmoves.ids]
        funext i
        have hget := getElem?_take_of_live (n := b.numReqs) fun i => (hlive i).mp
        refine Option.ext fun id => ?_
        rw [idAt_eq_some_iff, idAt_eq_some_iff]
        exact hget i id }

/-! ### Runs -/

/-- A number that is not zero is stored as one that is not, and a request that had its minimum of
tokens before the step has it still. -/
def KeepsEntries (s : BatchSystem ε γ) : BatchOp ε γ → Prop
  | .addRequest request => ∀ params ∈ request.samplingParams,
      params.minP ≠ 0 → roundSingle params.minP ≠ 0
  | .refreshMetadata => ∀ id ∈ s.batch.reqIdToIndex.keys, id ∉ s.added →
      ∀ request ∈ s.requests id, ∀ params ∈ request.samplingParams,
        params.minTokens ≤ (s.lastOutputs request.outputTokenIds).length →
          params.minTokens ≤ (s.outputs request.outputTokenIds).length
  | _ => True

instance (s : BatchSystem ε γ) (op : BatchOp ε γ) : Decidable (KeepsEntries s op) :=
  match op with
  | .removeRequest _ => inferInstanceAs (Decidable True)
  | .addRequest request => inferInstanceAs (Decidable (∀ params ∈ request.samplingParams,
      params.minP ≠ 0 → roundSingle params.minP ≠ 0))
  | .condense => inferInstanceAs (Decidable True)
  | .swapStates .. => inferInstanceAs (Decidable True)
  | .refreshMetadata => inferInstanceAs (Decidable (∀ id ∈ s.batch.reqIdToIndex.keys,
      id ∉ s.added → ∀ request ∈ s.requests id, ∀ params ∈ request.samplingParams,
        params.minTokens ≤ (s.lastOutputs request.outputTokenIds).length →
          params.minTokens ≤ (s.outputs request.outputTokenIds).length))
  | .writeRow .. => inferInstanceAs (Decidable True)
  | .setOutput .. => inferInstanceAs (Decidable True)

/-- Each row has a request that was added. -/
def Known (s : BatchSystem ε γ) : Prop := ∀ i id, idAt s.batch i = some id →
  (s.requests id).isSome = true

/-- What an operation between two updates of the processors keeps. -/
structure Advances (s s' : BatchSystem ε γ) : Prop where
  follows : ∀ (τ : Type) (fresh old : AddedRequest → Option τ) (S : Rows τ), RowFree fresh →
    Follows fresh old S s → Follows fresh old S s'
  log : MinPLog s.batch.batchUpdateBuilder.added s.batch.batchUpdateBuilder.moved →
    MinPLog s'.batch.batchUpdateBuilder.added s'.batch.batchUpdateBuilder.moved
  lastOutputs : s'.lastOutputs = s.lastOutputs
  processors : s'.batch.minP = s.batch.minP ∧ s'.batch.logitBias = s.batch.logitBias ∧
    s'.batch.minTokens = s.batch.minTokens

section Steps
variable {s s' : BatchSystem ε γ}

theorem removeRequest_advances {id : String} (h : ShapeInv s) (hlegal : Legal s (.removeRequest id))
    (hrun : s.step (.removeRequest id) = .ok s') : Advances s s' := by
  have hmoved := h.unmoved (by rw [show s.phase = .removing from hlegal]; decide)
  obtain ⟨⟨index, b'⟩, hremove, hrun⟩ := bind_ok hrun
  cases hrun
  obtain ⟨-, rfl⟩ | ⟨i, hremoved⟩ := removeRequest_spec hremove
  · exact ⟨fun _ _ _ _ _ hfollows => hfollows, fun hlog => hlog, rfl, rfl, rfl, rfl⟩
  · refine ⟨fun _ _ _ _ _ hfollows => hfollows.removed hmoved hremoved, fun hlog => ?_, rfl,
      hremoved.processors⟩
    obtain ⟨-, hbuilder⟩ := removedAppend_eq_ok hremoved.builder
    show MinPLog b'.batchUpdateBuilder.added b'.batchUpdateBuilder.moved
    rw [hbuilder]
    exact hlog

theorem addRequest_advances {request : CachedRequestState ε γ} (h : ShapeInv s)
    (hpool : s.batch.isPoolingModel = false) (hlegal : Legal s (.addRequest request))
    (hkeeps : KeepsEntries s (.addRequest request))
    (hrun : s.step (.addRequest request) = .ok s') : Advances s s' := by
  obtain ⟨hphase, hnew, hsuits⟩ := hlegal
  obtain ⟨⟨i, b'⟩, hadd, hrun⟩ := bind_ok hrun
  cases hrun
  have hadded := addRequest_spec h.ids.outputs_length hsuits hadd
  have hnext := nextRow_spec h.ids (h.holes hphase)
  have hparams : request.samplingParams.isSome = true := by
    unfold Suits at hsuits
    rwa [hpool, if_neg (by decide)] at hsuits
  refine ⟨fun _ _ _ _ hfree hfollows => hfollows.added h hphase hfree hnew hparams hadded,
    fun hlog => ⟨?_, ?_⟩, rfl, hadded.processors⟩
  · show ∀ a ∈ b'.batchUpdateBuilder.added, Representable a
    rw [hadded.builder]
    dsimp only
    rw [hnext.added]
    intro a ha
    rcases List.mem_append.mp ha with ha | ha
    · exact hlog.representable a ha
    · unfold logEntry at ha
      cases hsampling : request.samplingParams with
      | none => rw [hsampling] at hparams; cases hparams
      | some params =>
        rw [hsampling] at ha
        rw [List.mem_singleton.mp ha]
        exact hkeeps params (by rw [hsampling]; rfl)
  · show ∀ m ∈ b'.batchUpdateBuilder.moved, _
    rw [hadded.builder, hnext.moved]
    exact hlog.apart

theorem condense_advances (h : ShapeInv s) (hpool : s.batch.isPoolingModel = false)
    (hlegal : Legal s .condense) (hrun : s.step .condense = .ok s') : Advances s s' := by
  have hmoved := h.unmoved hlegal
  obtain ⟨b', hcondense, hrun⟩ := bind_ok hrun
  cases hrun
  obtain ⟨moves, hmoves⟩ := condense_moves h.ids (h.holes hlegal) hcondense
  refine ⟨fun _ _ _ _ _ hfollows => hfollows.moves hmoved hpool hmoves, fun hlog => ⟨?_, ?_⟩, rfl,
    hmoves.processors⟩
  · show ∀ a ∈ b'.batchUpdateBuilder.added, Representable a
    rw [hmoves.added]
    exact hlog.representable
  · show ∀ m ∈ b'.batchUpdateBuilder.moved, _
    rw [hmoves.moved, hmoved, hpool]
    intro m hm _
    obtain ⟨pair, hpair, rfl⟩ := List.mem_map.mp hm
    exact hmoves.apart pair hpair

theorem swapStates_advances {i1 i2 : Nat} (hpool : s.batch.isPoolingModel = false)
    (hrun : s.step (.swapStates i1 i2) = .ok s') : Advances s s' := by
  obtain ⟨b', hswap, hrun⟩ := bind_ok hrun
  cases hrun
  have hswapped := swapStates_spec hswap
  refine ⟨fun _ _ _ _ _ hfollows => hfollows.swapped hpool hswapped, fun hlog => ⟨?_, ?_⟩, rfl,
    hswapped.processors⟩
  · show ∀ a ∈ b'.batchUpdateBuilder.added, Representable a
    rw [hswapped.added]
    exact hlog.representable
  · show ∀ m ∈ b'.batchUpdateBuilder.moved, _
    rw [hswapped.moved, hpool]
    intro m hm hdirect
    rcases List.mem_append.mp hm with hm | hm
    · exact hlog.apart m hm hdirect
    · rw [if_neg (by decide), List.mem_singleton] at hm
      rw [hm] at hdirect
      cases hdirect

theorem writeRow_advances {id : String} {w : RowWrite}
    (hrun : s.step (.writeRow id w) = .ok s') : Advances s s' := by
  unfold BatchSystem.step at hrun
  dsimp only at hrun
  split at hrun
  · cases hrun
  · obtain ⟨b', hwrite, hrun⟩ := bind_ok hrun
    cases hrun
    have hwritten := writeRow_spec hwrite
    refine ⟨fun _ fresh old S _ hfollows => ?_, fun hlog => ?_, rfl, hwritten.processors⟩
    · show (logOf fresh b').replay S = fun i => (idAt b' i).bind (entryOf s fresh old)
      have hlog : logOf fresh b' = logOf fresh s.batch := by
        unfold logOf
        rw [hwritten.builder]
      have hids : idAt b' = idAt s.batch := by
        unfold idAt
        rw [hwritten.reqIds]
      rw [hlog, hids]
      exact hfollows
    · show MinPLog b'.batchUpdateBuilder.added b'.batchUpdateBuilder.moved
      rw [hwritten.builder]
      exact hlog

/-- Every operation but the update of the processors. -/
theorem step_advances {op : BatchOp ε γ} (h : ShapeInv s) (hpool : s.batch.isPoolingModel = false)
    (hlegal : Legal s op) (hkeeps : KeepsEntries s op) (hop : op ≠ .refreshMetadata)
    (hrun : s.step op = .ok s') : Advances s s' := by
  cases op with
  | removeRequest id => exact removeRequest_advances h hlegal hrun
  | addRequest request => exact addRequest_advances h hpool hlegal hkeeps hrun
  | condense => exact condense_advances h hpool hlegal hrun
  | swapStates i1 i2 => exact swapStates_advances hpool hrun
  | refreshMetadata => exact absurd rfl hop
  | writeRow id w => exact writeRow_advances hrun
  | setOutput ref tokens =>
    cases hrun
    exact ⟨fun _ _ _ _ _ hfollows => hfollows, fun hlog => hlog, rfl, rfl, rfl, rfl⟩

/-- The requests of the rows stay known. -/
theorem step_known {op : BatchOp ε γ} (h : ShapeInv s) (hknown : Known s) (hlegal : Legal s op)
    (hrun : s.step op = .ok s') : Known s' := by
  cases op with
  | removeRequest id =>
    obtain ⟨⟨index, b'⟩, hremove, hrun⟩ := bind_ok hrun
    cases hrun
    obtain ⟨-, rfl⟩ | ⟨i, hremoved⟩ := removeRequest_spec hremove
    · exact hknown
    · intro k id' hk
      rw [idAt_eq_some_iff, hremoved.getElem?_reqIds] at hk
      split at hk
      · cases hk
      · exact hknown k id' (idAt_eq_some_iff.mpr hk)
  | addRequest request =>
    obtain ⟨hphase, hnew, hsuits⟩ := hlegal
    obtain ⟨⟨i, b'⟩, hadd, hrun⟩ := bind_ok hrun
    cases hrun
    have hadded := addRequest_spec h.ids.outputs_length hsuits hadd
    intro k id hk
    rw [idAt_eq_some_iff, hadded.getElem?_reqIds] at hk
    show (Function.update s.requests request.reqId (some request) id).isSome = true
    rw [Function.update_apply]
    split
    · rfl
    · split at hk
      · rename_i hne _
        exact absurd (Option.some.inj (Option.some.inj hk)).symm hne
      · exact hknown k id (idAt_eq_some_iff.mpr hk)
  | condense =>
    obtain ⟨b', hcondense, hrun⟩ := bind_ok hrun
    cases hrun
    obtain ⟨moves, hmoves⟩ := condense_moves h.ids (h.holes hlegal) hcondense
    intro k id hk
    change idAt b' k = some id at hk
    rw [hmoves.ids] at hk
    obtain ⟨j, hj⟩ := exists_of_applyMoves hk
    exact hknown j id hj
  | swapStates i1 i2 =>
    obtain ⟨b', hswap, hrun⟩ := bind_ok hrun
    cases hrun
    intro k id hk
    rw [idAt_eq_some_iff, (swapStates_spec hswap).reqIds] at hk
    exact hknown _ id (idAt_eq_some_iff.mpr hk)
  | refreshMetadata =>
    cases hrun
    obtain ⟨builder, minP, logitBias, minTokens, heq, -⟩ := refreshMetadata_spec s.batch s.outputs
    intro k id hk
    rw [idAt_eq_some_iff, heq] at hk
    exact hknown k id (idAt_eq_some_iff.mpr hk)
  | writeRow id w =>
    unfold BatchSystem.step at hrun
    dsimp only at hrun
    split at hrun
    · cases hrun
    · obtain ⟨b', hwrite, hrun⟩ := bind_ok hrun
      cases hrun
      intro k id' hk
      rw [idAt_eq_some_iff, (writeRow_spec hwrite).reqIds] at hk
      exact hknown k id' (idAt_eq_some_iff.mpr hk)
  | setOutput ref tokens =>
    cases hrun
    exact hknown

end Steps

/-! ### The update of the processors -/

/-- What the three processors have agrees with the log so far. -/
structure Tracked (s : BatchSystem ε γ) : Prop where
  bias : Follows newState newState s.batch.logitBias.biases.get? s
  minTokens : ∀ outputs, Follows (addRequest outputs)
    (addRequest s.lastOutputs) s.batch.minTokens.minToks.get? s
  minP : Follows minPState minPState (minPRows s.batch.minP) s
  minPOk : MinPOk s.batch.minP
  log : MinPLog s.batch.batchUpdateBuilder.added s.batch.batchUpdateBuilder.moved

theorem Advances.tracked {s s' : BatchSystem ε γ} (h : Advances s s') (htracked : Tracked s) :
    Tracked s' := by
  obtain ⟨hminP, hbias, hmin⟩ := h.processors
  constructor
  case bias =>
    rw [hbias]
    exact h.follows _ _ _ _ (fun _ _ => rfl) htracked.bias
  case minTokens =>
    intro outputs
    rw [hmin, h.lastOutputs]
    exact h.follows _ _ _ _ (fun _ _ => rfl) (htracked.minTokens outputs)
  case minP =>
    rw [hminP]
    exact h.follows _ _ _ _ (fun _ _ => rfl) htracked.minP
  case minPOk =>
    rw [hminP]
    exact htracked.minPOk
  case log => exact h.log htracked.log

/-- The entry of the request of a row. -/
def entryAt {τ : Type} (newState : AddedRequest → Option τ) (s : BatchSystem ε γ) : Rows τ :=
  fun i => (idAt s.batch i).bind fun id =>
    (s.requests id).bind fun request => (logEntry 0 request).head?.bind newState

theorem bind_entryOf_same {τ : Type} (newState : AddedRequest → Option τ) (s : BatchSystem ε γ) :
    (fun i => (idAt s.batch i).bind (entryOf s newState newState)) = entryAt newState s := by
  unfold entryOf entryAt
  simp only [ite_self]

/-- What the processors have after their update. -/
structure Updated (s : BatchSystem ε γ) : Prop where
  bias : s.batch.logitBias.biases.get? = entryAt newState s
  minTokens : s.batch.minTokens.minToks.get? = entryAt (addRequest s.lastOutputs) s
  minP : minPRows s.batch.minP = entryAt minPState s
  minPOk : MinPOk s.batch.minP

/-- The log of the next step starts with the entries of the last update. -/
theorem Updated.tracked {s : BatchSystem ε γ} (h : Updated s)
    (hadded : s.batch.batchUpdateBuilder.added = [])
    (hremoved : s.batch.batchUpdateBuilder.removedIndices = [])
    (hmoved : s.batch.batchUpdateBuilder.moved = []) (hnew : s.added = []) : Tracked s := by
  have hstart : ∀ (τ : Type) (fresh old : AddedRequest → Option τ) (S : Rows τ),
      S = entryAt old s → Follows fresh old S s := by
    intro τ fresh old S hS
    have hreplay : (logOf fresh s.batch).replay S = S := by
      unfold logOf
      rw [hadded, hremoved, hmoved]
      rfl
    unfold Follows entryOf
    rw [hreplay, hS, hnew]
    simp only [List.not_mem_nil, if_false]
    rfl
  exact ⟨hstart _ _ _ _ h.bias, fun outputs => hstart _ _ _ _ h.minTokens,
    hstart _ _ _ _ h.minP, h.minPOk, by rw [hadded, hmoved]; exact ⟨by simp, by simp⟩⟩

theorem refreshMetadata_updated {s s' : BatchSystem ε γ} (hids : IdsOk s.batch)
    (htracked : Tracked s) (hpool : s.batch.isPoolingModel = false)
    (hkeeps : KeepsEntries s .refreshMetadata) (hrun : s.step .refreshMetadata = .ok s') :
    Updated s' := by
  cases hrun
  have hbatch : s.batch.refreshMetadata s.outputs = { s.batch with
      batchUpdateBuilder := (s.batch.batchUpdateBuilder.getAndReset s.batch.numReqs).2
      minP := s.batch.minP.updateState
        (s.batch.batchUpdateBuilder.getAndReset s.batch.numReqs).1
      logitBias := s.batch.logitBias.updateState
        (s.batch.batchUpdateBuilder.getAndReset s.batch.numReqs).1
      minTokens := s.batch.minTokens.updateState s.outputs
        (s.batch.batchUpdateBuilder.getAndReset s.batch.numReqs).1 } := by
    unfold InputBatch.refreshMetadata
    exact if_neg (by rw [hpool]; decide)
  obtain ⟨hok, hrows⟩ := getAndReset_minP htracked.minPOk htracked.log s.batch.numReqs
  rw [hbatch]
  constructor
  case bias =>
    refine (get?_processDictUpdates_getAndReset s.batch.batchUpdateBuilder s.batch.numReqs
      (fun bias => !bias.isEmpty) newState _).trans ?_
    exact htracked.bias.trans (bind_entryOf_same _ s)
  case minTokens =>
    funext i
    refine (get?_minToks_updateState s.outputs s.batch.minTokens _ i).trans ?_
    rw [get?_processDictUpdates_getAndReset]
    have hold := congrFun (htracked.minTokens s.outputs) i
    unfold logOf at hold
    rw [hold]
    show _ = (idAt s.batch i).bind fun id => (s.requests id).bind fun request =>
      (logEntry 0 request).head?.bind (addRequest s.outputs)
    cases hid : idAt s.batch i with
    | none => rfl
    | some id =>
      have hkey := PyDict.mem_keys_of_get? ((hids.inverse id i).mpr (idAt_eq_some_iff.mp hid))
      rw [Option.bind_some, Option.bind_some, entryOf]
      cases hrequest : s.requests id with
      | none => rfl
      | some request =>
        rw [Option.bind_some, Option.bind_some]
        cases hentry : (logEntry 0 request).head? with
        | none => rfl
        | some a =>
          rw [Option.bind_some, Option.bind_some]
          split
          · exact filter_addRequest fun h => h
          · rename_i hnew
            refine filter_addRequest fun hlast => ?_
            unfold logEntry at hentry
            cases hparams : request.samplingParams with
            | none => rw [hparams] at hentry; cases hentry
            | some params =>
              rw [hparams] at hentry
              cases hentry
              exact hkeeps id hkey hnew request (by rw [hrequest]; rfl) params
                (by rw [hparams]; rfl) hlast
  case minP => exact hrows.trans (htracked.minP.trans (bind_entryOf_same _ s))
  case minPOk => exact hok

/-- A pooling model has no use for the processors. -/
structure Untouched (s : BatchSystem ε γ) : Prop where
  processors : s.batch.minP = {} ∧ s.batch.logitBias = {} ∧ s.batch.minTokens = {}
  requests : ∀ id, ∀ request ∈ s.requests id, request.samplingParams = none

/-- What holds of the processors in every state. -/
structure ProcessorInv (s : BatchSystem ε γ) : Prop where
  shape : ShapeInv s
  known : Known s
  sampling : s.batch.isPoolingModel = false → Tracked s
  pooling : s.batch.isPoolingModel = true → Untouched s

section Invariant
variable {s s' : BatchSystem ε γ} {op : BatchOp ε γ}

theorem step_pooling (h : ShapeInv s) (hlegal : Legal s op) (hrun : s.step op = .ok s') :
    s'.batch.isPoolingModel = s.batch.isPoolingModel := by
  cases op with
  | removeRequest id =>
    obtain ⟨⟨index, b'⟩, hremove, hrun⟩ := bind_ok hrun
    cases hrun
    obtain ⟨-, rfl⟩ | ⟨i, hremoved⟩ := removeRequest_spec hremove
    · rfl
    · exact hremoved.pooling
  | addRequest request =>
    obtain ⟨⟨i, b'⟩, hadd, hrun⟩ := bind_ok hrun
    cases hrun
    exact (addRequest_spec h.ids.outputs_length hlegal.2.2 hadd).pooling
  | condense =>
    obtain ⟨b', hcondense, hrun⟩ := bind_ok hrun
    cases hrun
    obtain ⟨moves, hmoves⟩ := condense_moves h.ids (h.holes hlegal) hcondense
    exact hmoves.pooling
  | swapStates i1 i2 =>
    obtain ⟨b', hswap, hrun⟩ := bind_ok hrun
    cases hrun
    exact (swapStates_spec hswap).pooling
  | refreshMetadata =>
    cases hrun
    obtain ⟨builder, minP, logitBias, minTokens, heq, -⟩ := refreshMetadata_spec s.batch s.outputs
    show (s.batch.refreshMetadata s.outputs).isPoolingModel = _
    rw [heq]
  | writeRow id w =>
    unfold BatchSystem.step at hrun
    dsimp only at hrun
    split at hrun
    · cases hrun
    · obtain ⟨b', hwrite, hrun⟩ := bind_ok hrun
      cases hrun
      exact (writeRow_spec hwrite).pooling
  | setOutput ref tokens =>
    cases hrun
    rfl

theorem step_untouched (h : ShapeInv s) (hpool : s.batch.isPoolingModel = true)
    (huntouched : Untouched s) (hlegal : Legal s op) (hrun : s.step op = .ok s') :
    Untouched s' := by
  have hkeep : ∀ b' : InputBatch ε γ,
      b'.minP = s.batch.minP ∧ b'.logitBias = s.batch.logitBias ∧
        b'.minTokens = s.batch.minTokens →
      b'.minP = {} ∧ b'.logitBias = {} ∧ b'.minTokens = {} :=
    fun b' ⟨hminP, hbias, hmin⟩ => ⟨hminP.trans huntouched.processors.1,
      hbias.trans huntouched.processors.2.1, hmin.trans huntouched.processors.2.2⟩
  cases op with
  | removeRequest id =>
    obtain ⟨⟨index, b'⟩, hremove, hrun⟩ := bind_ok hrun
    cases hrun
    obtain ⟨-, rfl⟩ | ⟨i, hremoved⟩ := removeRequest_spec hremove
    · exact ⟨huntouched.processors, huntouched.requests⟩
    · exact ⟨hkeep _ hremoved.processors, huntouched.requests⟩
  | addRequest request =>
    obtain ⟨-, -, hsuits⟩ := hlegal
    obtain ⟨⟨i, b'⟩, hadd, hrun⟩ := bind_ok hrun
    cases hrun
    have hadded := addRequest_spec h.ids.outputs_length hsuits hadd
    refine ⟨hkeep _ hadded.processors, fun id request' hrequest' => ?_⟩
    change request' ∈ Function.update s.requests request.reqId (some request) id at hrequest'
    rw [Function.update_apply] at hrequest'
    split at hrequest'
    · cases hrequest'
      unfold Suits at hsuits
      rw [hpool, if_pos rfl] at hsuits
      exact Option.isNone_iff_eq_none.mp hsuits.1
    · exact huntouched.requests id request' hrequest'
  | condense =>
    obtain ⟨b', hcondense, hrun⟩ := bind_ok hrun
    cases hrun
    obtain ⟨moves, hmoves⟩ := condense_moves h.ids (h.holes hlegal) hcondense
    exact ⟨hkeep _ hmoves.processors, huntouched.requests⟩
  | swapStates i1 i2 =>
    obtain ⟨b', hswap, hrun⟩ := bind_ok hrun
    cases hrun
    exact ⟨hkeep _ (swapStates_spec hswap).processors, huntouched.requests⟩
  | refreshMetadata =>
    cases hrun
    refine ⟨hkeep _ ?_, huntouched.requests⟩
    unfold InputBatch.refreshMetadata
    rw [hpool, if_pos rfl]
    exact ⟨rfl, rfl, rfl⟩
  | writeRow id w =>
    unfold BatchSystem.step at hrun
    dsimp only at hrun
    split at hrun
    · cases hrun
    · obtain ⟨b', hwrite, hrun⟩ := bind_ok hrun
      cases hrun
      exact ⟨hkeep _ (writeRow_spec hwrite).processors, huntouched.requests⟩
  | setOutput ref tokens =>
    cases hrun
    exact ⟨huntouched.processors, huntouched.requests⟩

theorem step_processors (h : ProcessorInv s) (hlegal : Legal s op) (hkeeps : KeepsEntries s op)
    (hrun : s.step op = .ok s') : ProcessorInv s' := by
  have hpooling := step_pooling h.shape hlegal hrun
  refine ⟨step_shape h.shape hlegal hrun, step_known h.shape h.known hlegal hrun, fun hpool => ?_,
    fun hpool => ?_⟩
  · rw [hpooling] at hpool
    by_cases hop : op = .refreshMetadata
    · subst hop
      have hupdated := refreshMetadata_updated h.shape.ids (h.sampling hpool) hpool hkeeps hrun
      cases hrun
      obtain ⟨builder, minP, logitBias, minTokens, heq, hremoved, -, hadded, hmoved⟩ :=
        refreshMetadata_spec s.batch s.outputs
      refine hupdated.tracked ?_ ?_ ?_ rfl
      · show (s.batch.refreshMetadata s.outputs).batchUpdateBuilder.added = []
        rw [heq]
        exact hadded
      · show (s.batch.refreshMetadata s.outputs).batchUpdateBuilder.removedIndices = []
        rw [heq]
        exact hremoved
      · show (s.batch.refreshMetadata s.outputs).batchUpdateBuilder.moved = []
        rw [heq]
        exact hmoved
    · exact (step_advances h.shape hpool hlegal hkeeps hop hrun).tracked (h.sampling hpool)
  · rw [hpooling] at hpool
    exact step_untouched h.shape hpool (h.pooling hpool) hlegal hrun

end Invariant

/-! ### A request from scratch -/

/-- The update that tells of one request. -/
def sole (i : Nat) (request : CachedRequestState ε γ) : BatchUpdate where
  batchSize := i + 1
  removed := []
  added := logEntry i request
  moved := []

/-- What the processors have after their update is, for each row, what they would have if they had
only been told of the request in it. -/
structure StateFollows (s : BatchSystem ε γ) : Prop where
  rows : ∀ i < s.batch.numReqs, ∃ id request, s.batch.reqIds[i]? = some (some id) ∧
    s.requests id = some request ∧
    s.batch.logitBias.biases.get? i =
      (({} : LogitBiasLogitsProcessor).updateState (some (sole i request))).biases.get? i ∧
    s.batch.minTokens.minToks.get? i = (({} : MinTokensLogitsProcessor).updateState s.outputs
        (some (sole i request))).minToks.get? i ∧
    s.batch.minP.minPCpu i =
      (({} : MinPLogitsProcessor).updateState (some (sole i request))).minPCpu i
  beyond : ∀ i, s.batch.numReqs ≤ i → s.batch.logitBias.biases.get? i = none ∧
    s.batch.minTokens.minToks.get? i = none ∧ s.batch.minP.minPCpu i = 0
  count : s.batch.minP.minPCount =
    ((Finset.range s.batch.numReqs).filter fun i => s.batch.minP.minPCpu i ≠ 0).card

section Scratch
variable (i : Nat) (request : CachedRequestState ε γ)

theorem replay_sole {τ : Type} {newState : AddedRequest → Option τ} (hfree : RowFree newState) :
    (rowLog newState (sole i request).added (sole i request).removed
      (sole i request).moved).replay (fun _ => none) i =
        (logEntry 0 request).head?.bind newState := by
  unfold sole logEntry
  cases request.samplingParams with
  | none => rfl
  | some params =>
    refine (Function.update_self i _ (fun _ => none)).trans ?_
    exact (hfree _ 0).symm

theorem biases_sole :
    (({} : LogitBiasLogitsProcessor).updateState (some (sole i request))).biases.get? i =
      (logEntry 0 request).head?.bind newState := by
  refine Eq.trans (congrFun (get?_processDictUpdates _ _ _ (sole i request)) i) ?_
  exact replay_sole i request fun _ _ => rfl

theorem minToks_sole (outputs : OutputRef → List Int) :
    (({} : MinTokensLogitsProcessor).updateState outputs (some (sole i request))).minToks.get? i =
      (logEntry 0 request).head?.bind (addRequest outputs) := by
  rw [get?_minToks_updateState, get?_processDictUpdates]
  have hfree : RowFree (addRequest outputs) := fun _ _ => rfl
  have hreplay := replay_sole i request hfree
  rw [show ({} : MinTokensLogitsProcessor).minToks.get? = fun _ => none from rfl, hreplay]
  cases (logEntry 0 request).head? with
  | none => rfl
  | some a => exact filter_addRequest fun h => h

theorem minPCpu_sole : (({} : MinPLogitsProcessor).updateState (some (sole i request))).minPCpu i =
      ((logEntry 0 request).head?.bind minPState).getD 0 := by
  unfold sole logEntry MinPLogitsProcessor.updateState
  cases request.samplingParams with
  | none => simp
  | some params =>
    by_cases hzero : params.minP = 0
    · simp [MinPLogitsProcessor.addRequest, minPState, hzero]
    · by_cases hround : roundSingle params.minP = 0
      · simp [MinPLogitsProcessor.addRequest, minPState, hround, Ne.symm hzero, hzero]
      · simp [MinPLogitsProcessor.addRequest, minPState, hround, Ne.symm hzero, hzero]

theorem minPCpu_eq (p : MinPLogitsProcessor) : p.minPCpu i = (minPRows p i).getD 0 := by
  unfold minPRows
  split
  · rename_i hzero
    exact hzero
  · rfl

end Scratch

/-- The rows after an update, for a batch whose rows are full. -/
theorem Updated.stateFollows {s : BatchSystem ε γ} (h : Updated s) (hfull : FullOk s.batch)
    (hknown : Known s) (houtputs : s.lastOutputs = s.outputs) : StateFollows s := by
  have hbeyond : ∀ i, s.batch.numReqs ≤ i → idAt s.batch i = none := by
    intro i hi
    unfold idAt
    rw [List.getElem?_eq_none (by rw [hfull.length]; exact hi)]
    rfl
  have hnone : ∀ (τ : Type) (newState : AddedRequest → Option τ) i, s.batch.numReqs ≤ i →
      entryAt newState s i = none := by
    intro τ newState i hi
    unfold entryAt
    rw [hbeyond i hi]
    rfl
  have hzero : ∀ i, s.batch.numReqs ≤ i → s.batch.minP.minPCpu i = 0 := by
    intro i hi
    rw [minPCpu_eq, h.minP, hnone _ _ i hi]
    rfl
  constructor
  case rows =>
    intro i hi
    obtain ⟨id, hid⟩ := hfull.live i hi
    obtain ⟨request, hrequest⟩ := Option.isSome_iff_exists.mp
      (hknown i id (idAt_eq_some_iff.mpr hid))
    have hentry : ∀ (τ : Type) (newState : AddedRequest → Option τ),
        entryAt newState s i = (logEntry 0 request).head?.bind newState := by
      intro τ newState
      unfold entryAt
      rw [idAt_eq_some_iff.mpr hid, Option.bind_some, hrequest, Option.bind_some]
    refine ⟨id, request, hid, hrequest, ?_, ?_, ?_⟩
    · rw [h.bias, hentry, biases_sole]
    · rw [h.minTokens, hentry, minToks_sole, houtputs]
    · rw [minPCpu_eq, h.minP, hentry, minPCpu_sole]
  case beyond =>
    intro i hi
    exact ⟨by rw [h.bias, hnone _ _ i hi], by rw [h.minTokens, hnone _ _ i hi], hzero i hi⟩
  case count =>
    obtain ⟨rows, hrows, hcard⟩ := h.minPOk.count
    rw [hcard]
    congr 2
    ext i
    rw [hrows, Finset.mem_filter, Finset.mem_range]
    refine ⟨fun hne => ⟨?_, hne⟩, fun h => h.2⟩
    by_contra hge
    exact hne (hzero i (Nat.le_of_not_lt hge))

/-- A pooling model has no entries. -/
theorem Untouched.updated {s : BatchSystem ε γ} (h : Untouched s) : Updated s := by
  have hentry : ∀ (τ : Type) (newState : AddedRequest → Option τ),
      entryAt newState s = fun _ => none := by
    intro τ newState
    funext i
    unfold entryAt
    cases idAt s.batch i with
    | none => rfl
    | some id =>
      rw [Option.bind_some]
      cases hrequest : s.requests id with
      | none => rfl
      | some request =>
        rw [Option.bind_some]
        unfold logEntry
        rw [h.requests id request (by rw [hrequest]; rfl)]
        rfl
  obtain ⟨hminP, hbias, hmin⟩ := h.processors
  refine ⟨?_, ?_, ?_, ?_⟩
  · rw [hbias, hentry]
    rfl
  · rw [hmin, hentry]
    rfl
  · rw [hminP, hentry]
    funext i
    exact if_pos rfl
  · rw [hminP]
    exact minPOk_init

/-- After each update the processors have the entry of each row that its request has from scratch,
and a removed row can be told in every step. -/
theorem stateFollows_of_run {isPoolingModel isSpecDecode : Bool} {maxNumReqs vocabSize : Nat}
    {blockTables : List BlockTable} {s : BatchSystem ε γ}
    (hrun : Run BatchSystem.step (fun s op => Legal s op ∧ KeepsEntries s op)
      (freshWorker isPoolingModel isSpecDecode maxNumReqs vocabSize blockTables) s) :
    (s.phase = .removing → ∀ i, ∃ builder,
      s.batch.batchUpdateBuilder.removedAppend i = .ok builder) ∧
    ∀ s', Legal s .refreshMetadata ∧ KeepsEntries s .refreshMetadata →
      s.step .refreshMetadata = .ok s' → StateFollows s' := by
  have hstart : ProcessorInv (freshWorker isPoolingModel isSpecDecode maxNumReqs vocabSize
      blockTables : BatchSystem ε γ) := by
    have huntouched : Untouched (freshWorker isPoolingModel isSpecDecode maxNumReqs vocabSize
        blockTables : BatchSystem ε γ) := by
      refine ⟨⟨rfl, rfl, rfl⟩, fun id request hrequest => ?_⟩
      cases hrequest
    refine ⟨shapeInv_fresh .., fun i id hid => ?_, fun _ => ?_, fun _ => huntouched⟩
    · cases hid
    · exact huntouched.updated.tracked rfl rfl rfl rfl
  have hinv := hrun.invariant ProcessorInv hstart
    fun s op s' h hC hs => step_processors h hC.1 hC.2 hs
  refine ⟨fun hphase i => ?_, fun s' ⟨hlegal, hkeeps⟩ hs => ?_⟩
  · unfold BatchUpdateBuilder.removedAppend
    rw [(hinv.shape.unread hphase).1]
    exact ⟨_, if_neg (by decide)⟩
  · have hinv' := step_processors hinv hlegal hkeeps hs
    have hfull := hinv.shape.full hlegal
    have hupdated : Updated s' := by
      cases hpool : s.batch.isPoolingModel with
      | false => exact refreshMetadata_updated hinv.shape.ids (hinv.sampling hpool) hpool hkeeps hs
      | true =>
        exact (step_untouched hinv.shape hpool (hinv.pooling hpool) hlegal hs).updated
    refine hupdated.stateFollows ?_ hinv'.known ?_
    · cases hs
      obtain ⟨builder, minP, logitBias, minTokens, heq, -⟩ := refreshMetadata_spec s.batch s.outputs
      show FullOk (s.batch.refreshMetadata s.outputs)
      rw [heq]
      exact ⟨hfull.length, hfull.live⟩
    · cases hs
      rfl

/-- Three requests come, the first leaves and the last fills its row. -/
theorem stateFollows_condensed : ∃ s : BatchSystem Nat Nat,
    s.batch.reqIds = [some "c", some "b"] ∧ StateFollows s := by
  obtain ⟨s₀, s, hstart, hrun, hlegal, hids⟩ := exists_run_of_check
    (@BatchSystem.step Nat Nat) (fun s op => Legal s op ∧ KeepsEntries s op)
    (fun s => (Legal s .refreshMetadata ∧ KeepsEntries s .refreshMetadata) ∧
      s.batch.reqIds = [some "c", some "b"])
    (.ok (freshWorker false false 4 8 []))
    [.addRequest (shortRequest "a" 0), .addRequest (shortRequest "b" 1),
      .addRequest { shortRequest "c" 2 with
        samplingParams := some { logitBias := some [(3, 1)] } },
      .condense, .refreshMetadata, .removeRequest "a", .condense] (by decide +kernel)
  cases hstart
  refine ⟨_, ?_, (stateFollows_of_run hrun).2 _ hlegal rfl⟩
  obtain ⟨builder, minP, logitBias, minTokens, heq, -⟩ := refreshMetadata_spec s.batch s.outputs
  show (s.batch.refreshMetadata s.outputs).reqIds = _
  rw [heq]
  exact hids

/-- A number that is too small for 32 bits is stored as zero and not counted off, so the count is
still one when the last request has left. -/
theorem minPCount_stays : ∃ s s' : BatchSystem Nat Nat,
    Run BatchSystem.step Legal (freshWorker false false 4 8 []) s ∧
      Legal s .refreshMetadata ∧ s.step .refreshMetadata = .ok s' ∧ ¬ StateFollows s' := by
  obtain ⟨s₀, s, hstart, hrun, hlegal, hnum, hcount⟩ := exists_run_of_check
    (@BatchSystem.step Nat Nat) Legal
    (fun s => Legal s .refreshMetadata ∧ s.batch.numReqs = 0 ∧
      (s.batch.refreshMetadata s.outputs).minP.minPCount = 1)
    (.ok (freshWorker false false 4 8 []))
    [.addRequest { shortRequest "a" 0 with samplingParams := some { minP := 1 / 2 } },
      .condense, .refreshMetadata, .removeRequest "a",
      .addRequest { shortRequest "b" 1 with samplingParams := some { minP := 1 / 10 ^ 50 } },
      .condense, .refreshMetadata, .removeRequest "b", .condense] (by decide +kernel)
  cases hstart
  refine ⟨s, _, hrun, hlegal, rfl, fun hfollows => ?_⟩
  obtain ⟨builder, minP, logitBias, minTokens, heq, -⟩ := refreshMetadata_spec s.batch s.outputs
  have hnum' : (s.batch.refreshMetadata s.outputs).numReqs = 0 := by
    rw [heq]
    exact hnum
  have hzero := hfollows.count
  dsimp only at hzero
  rw [hcount, hnum'] at hzero
  cases hzero

end Vllm.Proofs.Worker
