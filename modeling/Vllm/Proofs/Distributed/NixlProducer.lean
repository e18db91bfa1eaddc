import Vllm.Distributed.NixlConnector
import Vllm.Lib.Run
import Mathlib.Data.List.Basic
import Mathlib.Data.List.Nodup
import Mathlib.Data.List.Count

/-!
# `Vllm.Proofs.Distributed.NixlProducer`: the calls of a producer

A producer receives nothing, so its worker only has its requests to look at.

* `Removed`, `Released`: what the notifications and the deadlines take away from a worker.
* `getFinished_spec`: which requests these are.
* `startLoadKv_spec`: what the metadata of a step adds to a worker.
* `allocLoop_spec`, `requestFinished_cases`: what the scheduler puts into that metadata.
-/

set_option autoImplicit false

namespace Vllm.Proofs.Distributed.NixlProducer

open Vllm.Lib Vllm.V1 Vllm.Distributed.Nixl Vllm.Distributed.Nixl.NixlConnectorWorker List

/-! ### What is taken away -/

/-- A worker that receives nothing. -/
structure Idle (w : NixlConnectorWorker) : Prop where
  metadata : w.recvingMetadata = .empty
  transfers : w.recvingTransfers = .empty
  failed : w.failedRecvReqs = []
  ready : w.readyRequests = []
  callbacks : w.callbacks = []

/-- The worker no longer has the requests `ids`. -/
structure Removed (ids : List String) (w w' : NixlConnectorWorker) : Prop where
  process : ∀ x, x ∈ w'.reqsToProcess ↔ x ∈ w.reqsToProcess ∧ x ∉ ids
  processNodup : w.reqsToProcess.Nodup → w'.reqsToProcess.Nodup
  send : w'.reqsToSend.entries = w.reqsToSend.entries.filter fun e => e.1 ∉ ids
  idle : Idle w → Idle w'

namespace Removed

variable {ids ids' : List String} {w w' w'' : NixlConnectorWorker}

theorem refl (w : NixlConnectorWorker) : Removed [] w w where
  process x := by simp
  processNodup := id
  send := by simp
  idle := id

theorem trans (h : Removed ids w w') (h' : Removed ids' w' w'') : Removed (ids ++ ids') w w'' where
  process x := by
    rw [h'.process, h.process, mem_append, not_or, and_assoc]
  processNodup hn := h'.processNodup (h.processNodup hn)
  send := by
    rw [h'.send, h.send, filter_filter]
    apply filter_congr
    intro e _
    simp only [mem_append, not_or, Bool.decide_and]
    exact Bool.and_comm ..
  idle hi := h'.idle (h.idle hi)

theorem mem_send (h : Removed ids w w') {e : String × Int} :
    e ∈ w'.reqsToSend.entries ↔ e ∈ w.reqsToSend.entries ∧ e.1 ∉ ids := by
  rw [h.send, mem_filter, decide_eq_true_eq]

end Removed

/-- One request is taken away, and its count of notifications. -/
theorem removed_erase {w : NixlConnectorWorker} (hnodup : w.reqsToProcess.Nodup) (reqId : String) :
    Removed [reqId] w { w with
      consumerNotificationCounts := w.consumerNotificationCounts.erase reqId
      reqsToProcess := w.reqsToProcess.erase reqId
      reqsToSend := w.reqsToSend.erase reqId } where
  process x := by
    show x ∈ w.reqsToProcess.erase reqId ↔ _
    rw [hnodup.mem_erase_iff, mem_singleton, and_comm]
  processNodup hn := hn.erase reqId
  send := by
    show w.reqsToSend.entries.filter _ = _
    apply filter_congr
    intro e _
    simp
  idle h := ⟨h.metadata, h.transfers, h.failed, h.ready, h.callbacks⟩

/-- The requests to send are among those to process. -/
def SendsProcessed (w : NixlConnectorWorker) : Prop :=
  ∀ e ∈ w.reqsToSend.entries, e.1 ∈ w.reqsToProcess

theorem Removed.sendsProcessed {ids : List String} {w w' : NixlConnectorWorker}
    (h : Removed ids w w') (hw : SendsProcessed w) : SendsProcessed w' := by
  intro e he
  obtain ⟨he, hnot⟩ := h.mem_send.mp he
  exact (h.process e.1).mpr ⟨hw e he, hnot⟩

/-- The requests `new` leave the worker and join those to return. -/
structure Released (new done done' : List String) (w w' : NixlConnectorWorker) : Prop where
  removed : Removed new w w'
  wasProcessed : ∀ x ∈ new, x ∈ w.reqsToProcess
  mem_done : ∀ x, x ∈ done' ↔ x ∈ done ∨ x ∈ new
  nodup : done.Nodup → done'.Nodup

namespace Released

variable {new new' done done' done'' : List String} {w w' w'' : NixlConnectorWorker}

theorem refl (done : List String) (w : NixlConnectorWorker) : Released [] done done w w where
  removed := .refl w
  wasProcessed x hx := absurd hx not_mem_nil
  mem_done x := by simp
  nodup := id

theorem trans (h : Released new done done' w w') (h' : Released new' done' done'' w' w'') :
    Released (new ++ new') done done'' w w'' where
  removed := h.removed.trans h'.removed
  wasProcessed x hx := by
    rcases mem_append.mp hx with hx | hx
    · exact h.wasProcessed x hx
    · exact ((h.removed.process x).mp (h'.wasProcessed x hx)).1
  mem_done x := by rw [h'.mem_done, h.mem_done, mem_append, or_assoc]
  nodup hn := h'.nodup (h.nodup hn)

end Released

/-- One request is returned. -/
theorem released_erase {w : NixlConnectorWorker} (hnodup : w.reqsToProcess.Nodup) {reqId : String}
    (hmem : reqId ∈ w.reqsToProcess) (done : List String) :
    Released [reqId] done (done.insert reqId) w { w with
      consumerNotificationCounts := w.consumerNotificationCounts.erase reqId
      reqsToProcess := w.reqsToProcess.erase reqId
      reqsToSend := w.reqsToSend.erase reqId } where
  removed := removed_erase hnodup reqId
  wasProcessed x hx := by
    rw [mem_singleton.mp hx]
    exact hmem
  mem_done x := by rw [mem_insert_iff, mem_singleton, or_comm]
  nodup hn := hn.insert

/-! ### Notifications -/

/-- The notifications of a request that the worker has counted. -/
def counted (w : NixlConnectorWorker) (x : String) : Nat :=
  (w.consumerNotificationCounts.get? x).getD 0

theorem contains_reqsToSend {w : NixlConnectorWorker} {x : String} :
    w.reqsToSend.contains x = true ↔ ∃ d, (x, d) ∈ w.reqsToSend.entries := by
  rw [PyDict.contains_eq_true_iff]
  unfold PyDict.keys
  simp

/-- A notification for a request that is not in a batch changes nothing. -/
theorem notify_of_not_mem {w : NixlConnectorWorker} (hw : SendsProcessed w) {x : String}
    (hx : x ∉ w.reqsToProcess) (done : List String) (tpRatio : Int) :
    w.notify done x tpRatio = .ok (done, w) := by
  unfold notify
  rw [if_pos]
  refine ⟨?_, hx⟩
  by_contra hcontains
  rw [Bool.not_eq_false, contains_reqsToSend] at hcontains
  obtain ⟨d, hd⟩ := hcontains
  exact hx (hw _ hd)

/-- After the notifications `notifs` the requests `new` are returned, each after as many as its
consumers are. -/
structure Notified (consumers : String → Nat) (ids new done done' : List String)
    (w w' : NixlConnectorWorker) : Prop where
  released : Released new done done' w w'
  arrived : ∀ x ∈ new, x ∈ ids
  enough : ∀ x ∈ new, consumers x ≤ counted w x + ids.count x
  counts : ∀ x, counted w' x ≤ counted w x + ids.count x

/-- One notification: the request is in no batch, or it is counted, or it is returned. -/
theorem notify_cases {w : NixlConnectorWorker} (hw : SendsProcessed w) (done : List String)
    (x : String) (tpRatio : Int) :
    x ∉ w.reqsToProcess ∧ w.notify done x tpRatio = .ok (done, w) ∨
    x ∈ w.reqsToProcess ∧ w.notify done x tpRatio = .ok (done, { w with
      consumerNotificationCounts := w.consumerNotificationCounts.insert x (counted w x + 1) }) ∨
    x ∈ w.reqsToProcess ∧ ((counted w x + 1 : Nat) : Int) = tpRatio ∧
      w.notify done x tpRatio = .ok (done.insert x, { w with
        consumerNotificationCounts := w.consumerNotificationCounts.erase x
        reqsToProcess := w.reqsToProcess.erase x
        reqsToSend := w.reqsToSend.erase x }) := by
  by_cases hx : x ∈ w.reqsToProcess
  · right
    have hknown : ¬(w.reqsToSend.contains x = false ∧ x ∉ w.reqsToProcess) := fun h => h.2 hx
    unfold notify
    simp only [if_neg hknown]
    by_cases hcount : ((counted w x + 1 : Nat) : Int) = tpRatio
    · right
      refine ⟨hx, hcount, ?_⟩
      unfold counted at hcount
      rw [if_pos hcount, if_pos hx]
    · left
      refine ⟨hx, ?_⟩
      unfold counted at hcount ⊢
      rw [if_neg hcount]
  · left
    exact ⟨hx, notify_of_not_mem hw hx done tpRatio⟩

theorem notify_spec (consumers : String → Nat) {w : NixlConnectorWorker} (hw : SendsProcessed w)
    (hnodup : w.reqsToProcess.Nodup) (done : List String) (x : String) :
    ∃ new done' w', w.notify done x (consumers x) = .ok (done', w') ∧
      Notified consumers [x] new done done' w w' := by
  rcases notify_cases hw done x (consumers x) with ⟨-, h⟩ | ⟨-, h⟩ | ⟨hx, hcount, h⟩
  · refine ⟨[], done, w, h, .refl done w, by simp, by simp, ?_⟩
    intro y
    omega
  · refine ⟨[], done, _, h, ⟨?_, by simp, by simp, id⟩, by simp, by simp, ?_⟩
    · exact {
        process := by simp
        processNodup := id
        send := by simp
        idle := fun h => ⟨h.metadata, h.transfers, h.failed, h.ready, h.callbacks⟩ }
    · intro y
      unfold counted
      rw [PyDict.get?_insert]
      by_cases hy : y = x
      · subst hy
        simp
      · rw [if_neg hy]
        omega
  · refine ⟨[x], done.insert x, _, h, released_erase hnodup hx done, fun y hy => hy, ?_, ?_⟩
    · intro y hy
      rw [mem_singleton.mp hy, count_singleton_self]
      omega
    · intro y
      unfold counted
      rw [PyDict.get?_erase]
      split
      · simp
      · omega

theorem getNewNotifs_spec {consumers : String → Nat} (notifs : List (String × Int))
    (hratio : ∀ n ∈ notifs, n.2 = consumers n.1) {w : NixlConnectorWorker} (hw : SendsProcessed w)
    (hnodup : w.reqsToProcess.Nodup) (done : List String) :
    ∃ new done' w', getNewNotifs notifs done w = .ok (done', w') ∧
      Notified consumers (notifs.map Prod.fst) new done done' w w' := by
  induction notifs generalizing done w with
  | nil =>
    refine ⟨[], done, w, rfl, .refl done w, by simp, by simp, ?_⟩
    intro x
    exact Nat.le_add_right ..
  | cons n notifs ih =>
    obtain ⟨x, tpRatio⟩ := n
    obtain rfl : tpRatio = consumers x := hratio (x, tpRatio) mem_cons_self
    obtain ⟨new1, done₁, w1, h1, hspec1⟩ := notify_spec consumers hw hnodup done x
    obtain ⟨new2, done₂, w2, h2, hspec2⟩ := ih (fun n hn => hratio n (mem_cons_of_mem _ hn))
      (hspec1.released.removed.sendsProcessed hw)
      (hspec1.released.removed.processNodup hnodup) done₁
    have hcount : ∀ y, ((x :: notifs.map Prod.fst).count y) =
        [x].count y + (notifs.map Prod.fst).count y := by
      intro y
      show ([x] ++ notifs.map Prod.fst).count y = _
      exact count_append
    refine ⟨new1 ++ new2, done₂, w2, ?_, hspec1.released.trans hspec2.released, ?_, ?_, ?_⟩
    · unfold getNewNotifs
      rw [h1]
      exact h2
    · intro y hy
      rcases mem_append.mp hy with hy | hy
      · rw [mem_singleton.mp (hspec1.arrived y hy)]
        exact mem_cons_self
      · exact mem_cons_of_mem _ (hspec2.arrived y hy)
    · intro y hy
      rw [map_cons, hcount]
      rcases mem_append.mp hy with hy | hy
      · have := hspec1.enough y hy
        omega
      · have := hspec2.enough y hy
        have := hspec1.counts y
        omega
    · intro y
      rw [map_cons, hcount]
      have := hspec1.counts y
      have := hspec2.counts y
      omega

/-- Notifications for requests that are in no batch can be left out. -/
theorem getNewNotifs_filter (tracked : String → Bool) (notifs : List (String × Int))
    {w : NixlConnectorWorker} (hw : SendsProcessed w) (hnodup : w.reqsToProcess.Nodup)
    (htracked : ∀ x ∈ w.reqsToProcess, tracked x = true) (done : List String) :
    getNewNotifs notifs done w = getNewNotifs (notifs.filter fun n => tracked n.1) done w := by
  induction notifs generalizing done w with
  | nil => rfl
  | cons n notifs ih =>
    obtain ⟨x, tpRatio⟩ := n
    rcases notify_cases hw done x tpRatio with ⟨hx, h⟩ | ⟨hx, h⟩ | ⟨hx, -, h⟩
    · have hrest := ih hw hnodup htracked done
      rw [filter_cons]
      split
      · unfold getNewNotifs
        rw [h]
        exact hrest
      · conv_lhs => unfold getNewNotifs
        rw [h]
        exact hrest
    · rw [filter_cons_of_pos (p := fun n : String × Int => tracked n.1) (htracked x hx)]
      unfold getNewNotifs
      rw [h]
      exact ih (w := { w with
        consumerNotificationCounts := w.consumerNotificationCounts.insert x (counted w x + 1) })
        hw hnodup htracked done
    · have hremoved := removed_erase hnodup x
      rw [filter_cons_of_pos (p := fun n : String × Int => tracked n.1) (htracked x hx)]
      unfold getNewNotifs
      rw [h]
      exact ih (hremoved.sendsProcessed hw) (hremoved.processNodup hnodup)
        (fun y hy => htracked y ((hremoved.process y).mp hy).1) (done.insert x)

/-! ### Deadlines -/

/-- The requests whose deadlines have passed are a first part of those to send, because these are
in the order of their deadlines. -/
theorem expireLoop_spec (now : Int) (entries : List (String × Int)) {w : NixlConnectorWorker}
    (hentries : w.reqsToSend.entries = entries) (hw : SendsProcessed w)
    (hnodup : w.reqsToProcess.Nodup) (hsorted : entries.Pairwise fun a b => a.2 ≤ b.2)
    (done : List String) :
    ∃ new done' w', expireLoop now entries done w = .ok (done', w') ∧
      Released new done done' w w' ∧
      (∀ x ∈ new, ∃ d, (x, d) ∈ entries ∧ d ≤ now) ∧
      (∀ e ∈ w'.reqsToSend.entries, now < e.2) ∧
      ∀ x, counted w' x ≤ counted w x := by
  induction entries generalizing done w with
  | nil =>
    refine ⟨[], done, w, rfl, .refl done w, by simp, ?_, fun x => Nat.le_refl _⟩
    rw [hentries]
    simp
  | cons e entries ih =>
    obtain ⟨x, d⟩ := e
    rw [pairwise_cons] at hsorted
    by_cases hnow : now < d
    · -- The first deadline has not passed, so none has.
      refine ⟨[], done, w, if_pos hnow, .refl done w, by simp, ?_, fun x => Nat.le_refl _⟩
      intro e he
      rw [hentries] at he
      rcases mem_cons.mp he with rfl | he
      · exact hnow
      · exact Int.lt_of_lt_of_le hnow (hsorted.1 e he)
    · have hx : x ∈ w.reqsToProcess := by
        apply hw (x, d)
        rw [hentries]
        exact mem_cons_self
      have hreleased := released_erase hnodup hx done
      obtain ⟨new, done', w', h, hspec, hnew, hleft, hcounts⟩ := ih (w := { w with
          consumerNotificationCounts := w.consumerNotificationCounts.erase x
          reqsToProcess := w.reqsToProcess.erase x
          reqsToSend := w.reqsToSend.erase x })
        (PyDict.entries_erase_first hentries) (hreleased.removed.sendsProcessed hw)
        (hreleased.removed.processNodup hnodup) hsorted.2 (done.insert x)
      refine ⟨[x] ++ new, done', w', ?_, hreleased.trans hspec, ?_, hleft, ?_⟩
      · unfold expireLoop
        rw [if_neg hnow, if_pos hx]
        exact h
      · intro y hy
        rcases mem_append.mp hy with hy | hy
        · rw [mem_singleton.mp hy]
          exact ⟨d, mem_cons_self, Int.not_lt.mp hnow⟩
        · obtain ⟨d', hd', hle⟩ := hnew y hy
          exact ⟨d', mem_cons_of_mem _ hd', hle⟩
      · intro y
        refine Nat.le_trans (hcounts y) ?_
        unfold counted
        rw [PyDict.get?_erase]
        split
        · exact Nat.zero_le _
        · exact Nat.le_refl _

/-! ### `get_finished` -/

/-- What a `get_finished` of a producer does: the requests `notified` have all their notifications,
and the deadlines of `expired` have passed. -/
structure Finished (consumers : String → Nat) (poll : Poll) (notified expired done : List String)
    (w w' : NixlConnectorWorker) : Prop where
  released : Released (notified ++ expired) [] done w w'
  arrived : ∀ x ∈ notified, x ∈ poll.notifs.map Prod.fst
  enough : ∀ x ∈ notified,
    consumers x ≤ counted w x + (poll.notifs.map Prod.fst).count x
  passed : ∀ x ∈ expired, ∃ d, (x, d) ∈ w.reqsToSend.entries ∧ d ≤ poll.now
  left : ∀ e ∈ w'.reqsToSend.entries, poll.now < e.2
  counts : ∀ x, counted w' x ≤ counted w x + (poll.notifs.map Prod.fst).count x

/-- A worker that receives nothing has only its requests to send to look at. -/
theorem getFinished_of_idle {w w1 : NixlConnectorWorker} {poll : Poll} {done : List String}
    (hnotifs : getNewNotifs poll.notifs [] w = .ok (done, w1)) (hidle : Idle w1) :
    w.getFinished poll = (do
      let (doneSending, w) ← expireLoop poll.now w1.reqsToSend.entries done w1
      return (doneSending, [], w)) := by
  have hrun : ∀ n, runCallbacks n w1 = w1 := by
    intro n
    cases n with
    | zero => rfl
    | succ n =>
      unfold runCallbacks
      rw [hidle.callbacks]
  have hclear : ({ w1 with failedRecvReqs := [] } : NixlConnectorWorker) = w1 := by
    rw [← hidle.failed]
  unfold getFinished
  rw [hnotifs, except_ok_bind]
  dsimp only
  rw [hidle.transfers]
  dsimp only [popDoneTransfers, PyDict.empty]
  rw [hidle.failed, hrun, hclear]
  rfl

theorem getFinished_spec {consumers : String → Nat} {w : NixlConnectorWorker} {poll : Poll}
    (hidle : Idle w) (hw : SendsProcessed w) (hnodup : w.reqsToProcess.Nodup)
    (hsorted : w.reqsToSend.entries.Pairwise fun a b => a.2 ≤ b.2)
    (hratio : ∀ n ∈ poll.notifs, n.2 = consumers n.1) :
    ∃ notified expired done w', w.getFinished poll = .ok (done, [], w') ∧
      Finished consumers poll notified expired done w w' := by
  obtain ⟨notified, done₁, w1, hnotifs, hspec⟩ := getNewNotifs_spec poll.notifs hratio hw hnodup []
  have hremoved := hspec.released.removed
  have hsorted1 : w1.reqsToSend.entries.Pairwise fun a b => a.2 ≤ b.2 := by
    rw [hremoved.send]
    exact hsorted.filter _
  obtain ⟨expired, done, w', hexpire, hreleased, hpassed, hleft, hcounts⟩ :=
    expireLoop_spec poll.now _ rfl (hremoved.sendsProcessed hw)
      (hremoved.processNodup hnodup) hsorted1 done₁
  refine ⟨notified, expired, done, w', ?_, hspec.released.trans hreleased, hspec.arrived,
    hspec.enough, ?_, hleft, fun x => Nat.le_trans (hcounts x) (hspec.counts x)⟩
  · rw [getFinished_of_idle hnotifs (hremoved.idle hidle), hexpire]
    rfl
  · intro x hx
    obtain ⟨d, hd, hle⟩ := hpassed x hx
    exact ⟨d, (hremoved.mem_send.mp hd).1, hle⟩

/-! ### `start_load_kv` -/

theorem mem_foldl_insert (xs l : List String) (x : String) :
    x ∈ xs.foldl (fun l r => l.insert r) l ↔ x ∈ l ∨ x ∈ xs := by
  induction xs generalizing l with
  | nil => simp
  | cons y xs ih =>
    rw [foldl_cons, ih, mem_insert_iff, mem_cons, or_assoc, or_left_comm,
      ← or_assoc]

theorem nodup_foldl_insert (xs : List String) {l : List String} (h : l.Nodup) :
    (xs.foldl (fun l r => l.insert r) l).Nodup := by
  induction xs generalizing l with
  | nil => exact h
  | cons y xs ih => exact ih h.insert

/-- The loop over the requests not to process passes when none of them is to be sent. -/
theorem notProcessedLoop_spec (xs : List String) {w : NixlConnectorWorker}
    (hsend : ∀ x ∈ xs, w.reqsToSend.contains x = false) (hnodup : w.reqsToProcess.Nodup) :
    ∃ processed, notProcessedLoop xs w = .ok { w with reqsToProcess := processed } ∧
      processed.Nodup ∧ ∀ x, x ∈ processed ↔ x ∈ w.reqsToProcess ∧ x ∉ xs := by
  induction xs generalizing w with
  | nil => exact ⟨w.reqsToProcess, rfl, hnodup, by simp⟩
  | cons y xs ih =>
    obtain ⟨processed, hloop, hn, hmem⟩ := ih
      (w := { w with reqsToProcess := w.reqsToProcess.erase y })
      (fun x hx => hsend x (mem_cons_of_mem _ hx)) (hnodup.erase y)
    refine ⟨processed, ?_, hn, ?_⟩
    · unfold notProcessedLoop
      dsimp only
      rw [hsend y mem_cons_self]
      exact hloop
    · intro x
      rw [hmem, hnodup.mem_erase_iff, mem_cons, not_or]
      exact ⟨fun h => ⟨h.1.2, h.1.1, h.2⟩, fun h => ⟨⟨h.2.1, h.1⟩, h.2.2⟩⟩

/-- The loop over the requests to send appends those that are in a batch. -/
theorem sendLoop_spec (entries : List (String × Int)) {w : NixlConnectorWorker}
    (hnodup : (entries.map Prod.fst).Nodup) (hnew : ∀ e ∈ entries, e.1 ∉ w.reqsToSend.keys) :
    ∃ send : PyDict String Int, sendLoop entries w = { w with reqsToSend := send } ∧
      send.entries = w.reqsToSend.entries ++ entries.filter fun e => e.1 ∈ w.reqsToProcess := by
  induction entries generalizing w with
  | nil => exact ⟨w.reqsToSend, rfl, by simp⟩
  | cons e entries ih =>
    obtain ⟨x, d⟩ := e
    rw [map_cons, nodup_cons] at hnodup
    have hrest : ∀ e ∈ entries, e.1 ∉ w.reqsToSend.keys := fun e he =>
      hnew e (mem_cons_of_mem _ he)
    have hx : x ∉ w.reqsToSend.keys := hnew (x, d) mem_cons_self
    unfold sendLoop
    by_cases hmem : x ∈ w.reqsToProcess
    · rw [if_pos hmem, filter_cons_of_pos (by simpa using hmem)]
      obtain ⟨send, hloop, hsend⟩ := ih
        (w := { w with reqsToSend := w.reqsToSend.insert x d }) hnodup.2 (by
          intro e he hkey
          rw [PyDict.keys_insert, if_neg hx, mem_append, mem_singleton] at hkey
          rcases hkey with hkey | rfl
          · exact hrest e he hkey
          · exact hnodup.1 (mem_map.mpr ⟨e, he, rfl⟩))
      refine ⟨send, hloop, ?_⟩
      rw [hsend]
      show (w.reqsToSend.insert x d).entries ++ _ = _
      rw [PyDict.entries_insert_of_not_mem d hx, append_assoc, singleton_append]
    · rw [if_neg hmem, filter_cons_of_neg (by simpa using hmem)]
      exact ih hnodup.2 hrest

/-- The worker after it has begun the step of `metadata`. -/
structure Loaded (metadata : NixlConnectorMetadata) (w w' : NixlConnectorWorker) : Prop where
  process : ∀ x, x ∈ w'.reqsToProcess ↔
    (x ∈ w.reqsToProcess ∨ x ∈ metadata.reqsInBatch) ∧ x ∉ metadata.reqsNotProcessed
  processNodup : w'.reqsToProcess.Nodup
  send : w'.reqsToSend.entries =
    w.reqsToSend.entries ++ metadata.reqsToSend.entries.filter fun e => e.1 ∈ w'.reqsToProcess
  counts : ∀ x, counted w' x = counted w x
  idle : Idle w'

theorem startLoadKv_spec {metadata : NixlConnectorMetadata} {w : NixlConnectorWorker}
    (handles : String → Option Nat) (hrecv : metadata.reqsToRecv = .empty) (hidle : Idle w)
    (hnodup : w.reqsToProcess.Nodup)
    (hnot : ∀ x ∈ metadata.reqsNotProcessed, w.reqsToSend.contains x = false)
    (hnew : ∀ e ∈ metadata.reqsToSend.entries, e.1 ∉ w.reqsToSend.keys) :
    ∃ w', w.startLoadKv metadata handles = .ok w' ∧ Loaded metadata w w' := by
  obtain ⟨processed, hloop, hn, hmem⟩ := notProcessedLoop_spec metadata.reqsNotProcessed
    (w := { w with
      reqsToProcess := metadata.reqsInBatch.foldl (fun l r => l.insert r) w.reqsToProcess })
    hnot (nodup_foldl_insert metadata.reqsInBatch hnodup)
  obtain ⟨send, hsendLoop, hsend⟩ := sendLoop_spec metadata.reqsToSend.entries
    (w := { w with reqsToProcess := processed }) metadata.reqsToSend.nodup hnew
  refine ⟨{ w with
    reqsToProcess := processed
    reqsToSend := send }, ?_, ?_, hn, hsend, fun x => rfl,
    ⟨hidle.metadata, hidle.transfers, hidle.failed, hidle.ready, hidle.callbacks⟩⟩
  · have hready : readyLoop handles w.readyRequests w = .ok w := by
      rw [hidle.ready]
      rfl
    unfold startLoadKv
    rw [hrecv]
    dsimp only [PyDict.empty, recvLoop]
    rw [except_ok_bind, hready, except_ok_bind, hloop, except_ok_bind]
    dsimp only
    rw [hsendLoop]
    rfl
  · intro x
    show x ∈ processed ↔ _
    rw [hmem, mem_foldl_insert]

/-! ### The scheduler -/

/-- Remote decode is asked for. -/
def decodes (request : NixlRequest) : Bool := request.kvTransferParams.any (·.doRemoteDecode)

/-- The request reads nothing from another instance. -/
def ReadsNothing (request : NixlRequest) : Prop :=
  ∀ params ∈ request.kvTransferParams, params.doRemotePrefill = false

instance (request : NixlRequest) : Decidable (ReadsNothing request) := by
  unfold ReadsNothing
  infer_instance

theorem updateStateAfterAlloc_of_readsNothing {s : NixlConnectorScheduler} {request : NixlRequest}
    (h : ReadsNothing request) : s.updateStateAfterAlloc request [] 0 = .ok (if decodes request then
        { s with reqsInBatch := s.reqsInBatch.insert request.requestId } else s,
        request.kvTransferParams) := by
  unfold NixlConnectorScheduler.updateStateAfterAlloc decodes
  cases hparams : request.kvTransferParams with
  | none => rfl
  | some params =>
    have hprefill : params.doRemotePrefill = false := h params hparams
    dsimp only [Option.any_some]
    rw [if_pos hprefill, ite_self]

/-- The requests that get blocks join the batch when remote decode is asked for. -/
theorem allocLoop_spec (requests : List NixlRequest) (s : NixlConnectorScheduler)
    (h : ∀ r ∈ requests, ReadsNothing r) :
    ∃ batch, Producer.allocLoop requests s = .ok { s with reqsInBatch := batch } ∧
      ∀ x, x ∈ batch ↔ x ∈ s.reqsInBatch ∨ ∃ r ∈ requests, r.requestId = x ∧ decodes r = true := by
  induction requests generalizing s with
  | nil => exact ⟨s.reqsInBatch, rfl, by simp⟩
  | cons request requests ih =>
    have hrest : ∀ r ∈ requests, ReadsNothing r := fun r hr => h r (mem_cons_of_mem _ hr)
    unfold Producer.allocLoop
    rw [updateStateAfterAlloc_of_readsNothing (h request mem_cons_self)]
    by_cases hdecodes : decodes request = true
    · obtain ⟨batch, hloop, hmem⟩ :=
        ih { s with reqsInBatch := s.reqsInBatch.insert request.requestId } hrest
      refine ⟨batch, ?_, ?_⟩
      · rw [if_pos hdecodes]
        exact hloop
      · intro x
        rw [hmem]
        show x ∈ s.reqsInBatch.insert request.requestId ∨ _ ↔ _
        rw [mem_insert_iff]
        simp only [mem_cons, exists_eq_or_imp, hdecodes, and_true]
        rw [or_assoc, or_left_comm, @eq_comm _ x]
    · obtain ⟨batch, hloop, hmem⟩ := ih s hrest
      refine ⟨batch, ?_, ?_⟩
      · rw [if_neg hdecodes]
        exact hloop
      · intro x
        rw [hmem]
        simp [hdecodes]

/-- The free is delayed: a request that remote decode is asked for ends at its length with blocks. -/
def delays (request : NixlRequest) (blockIds : List Nat) : Bool :=
  decodes request && request.status = .finishedLengthCapped && !blockIds.isEmpty

/-- The three results of `request_finished` for a request that reads nothing. -/
theorem requestFinished_cases (s : NixlConnectorScheduler) {request : NixlRequest}
    (h : ReadsNothing request) (blockIds : List Nat) (now : Int) :
    delays request blockIds = true ∧ s.requestFinished request blockIds now = (true, { s with
        reqsNeedSend := s.reqsNeedSend.insert request.requestId (now + s.abortRequestTimeout) },
        request.kvTransferParams) ∨
    delays request blockIds = false ∧ ∃ s', (s' = s ∨ s' = { s with
        reqsNotProcessed := s.reqsNotProcessed.insert request.requestId }) ∧
      s.requestFinished request blockIds now = (false, s', request.kvTransferParams) := by
  unfold NixlConnectorScheduler.requestFinished delays decodes
  cases hparams : request.kvTransferParams with
  | none => exact .inr ⟨rfl, s, .inl rfl, rfl⟩
  | some params =>
    have hprefill : params.doRemotePrefill = false := h params hparams
    dsimp only [Option.any_some]
    rw [hprefill, if_neg Bool.false_ne_true]
    by_cases hdecode : params.doRemoteDecode = false
    · right
      rw [if_pos hdecode, hdecode]
      exact ⟨rfl, s, .inl rfl, rfl⟩
    · rw [if_neg hdecode]
      rw [Bool.not_eq_false] at hdecode
      by_cases hstatus : request.status = .finishedLengthCapped
      · rw [if_neg (not_not.mpr hstatus), hdecode]
        cases hblocks : blockIds.isEmpty with
        | true =>
          right
          refine ⟨by simp, s, .inl rfl, rfl⟩
        | false =>
          left
          refine ⟨by simp [hstatus], rfl⟩
      · right
        rw [if_pos hstatus]
        exact ⟨by simp [hstatus], _, .inr rfl, rfl⟩

end Vllm.Proofs.Distributed.NixlProducer
