import Vllm.Proofs.Sched.Queues
import Vllm.Proofs.Sched.UpdateSteps
import Vllm.Proofs.Engine.Conservation

/-!
# `Vllm.Proofs.Engine.InvalidBlocks`: recovery from blocks that failed to load

`_handle_invalid_blocks` goes through the requests that load KVs, first those that wait for
remote KVs, then the running ones. Of each it looks at the blocks that may hold external tokens:
for a running request the blocks of `num_cached_tokens`, which is set only when the request is
scheduled for the first time.

* `scannedIds`: the blocks that the scan of a request looks at.
* `invalidBlockLoop_spec`, `updateRequests_spec`: what the scan leaves of a request.
* `recovered_iff`: the requests recover if and only if no invalid block lies beyond the scanned
  ones and below the tokens that a request keeps, unless an affected request recomputes it.
-/

set_option autoImplicit false

namespace Vllm.Proofs.Engine

open Vllm.Lib Vllm.V1 Vllm.V1.Core Vllm.V1.Engine Vllm.Proofs.Sched List

/-! ### What the scan looks at -/

section Scan
variable (s : Scheduler) (invalid : List Int)

/-- The block ids of a request, in the first group. -/
def blockIdsOf (r : ReqRef) : List Int :=
  ((s.kvCacheManager.getBlocks (s.objects r).requestId).getBlockIds).headD []

/-- The tokens whose blocks are scanned. -/
def scanTokens (r : ReqRef) : Int :=
  if (s.objects r).status = .waitingForRemoteKvs then
    if (s.objects r).requestId ∈ s.failedRecvingKvReqIds then (s.objects r).numComputedTokens
    else (blockIdsOf s r).length * (s.config.blockSize : Int)
  else (s.objects r).numCachedTokens

/-- The number of scanned blocks. -/
def scanBlocks (r : ReqRef) : Nat :=
  ((scanTokens s r + s.config.blockSize - 1) / s.config.blockSize).toNat

/-- The scanned blocks. -/
def scannedIds (r : ReqRef) : List Int := (blockIdsOf s r).take (scanBlocks s r)

/-- A scanned block is invalid. -/
def Affected (r : ReqRef) : Prop := ∃ b ∈ scannedIds s r, b ∈ invalid

instance (r : ReqRef) : Decidable (Affected s invalid r) :=
  inferInstanceAs (Decidable (∃ b ∈ scannedIds s r, b ∈ invalid))

/-- An invalid block that no request of `before` has scanned. -/
def fresh (before : List ReqRef) (b : Int) : Bool :=
  decide (b ∈ invalid) && before.all fun x => decide (b ∉ scannedIds s x)

/-- The tokens before the block that was found `i` places behind `idx`, or `c`. -/
def countAt (blockSize idx : Nat) (c : Int) : Option Nat → Int
  | some i => ((idx + i : Nat) : Int) * blockSize
  | none => c

theorem countAt_shift (blockSize idx : Nat) (c : Int) (found : Option Nat) :
    countAt blockSize idx c (found.map (· + 1)) = countAt blockSize (idx + 1) c found := by
  cases found with
  | none => rfl
  | some i =>
    simp only [Option.map_some, countAt]
    congr 2
    omega

/-- The number of computed tokens that the scan leaves, after the requests of `before`. -/
def newCount (before : List ReqRef) (r : ReqRef) : Int :=
  if Affected s invalid r then
    countAt s.config.blockSize 0 (s.objects r).numCachedTokens
      ((scannedIds s r).findIdx? (fresh s invalid before))
  else (s.objects r).numComputedTokens

end Scan

/-! ### The loop over the blocks of a request -/

section BlockLoop
variable (r : ReqRef) (invalid : List Int) (evict : Bool) (m : Int)

/-- What the loop over the blocks does: it marks the invalid ones among the first `n`, and
truncates the request at the first of them that is not marked yet. -/
structure BlocksScanned (n idx : Nat) (blocks : List Int) (p p' : Scheduler.InvalidPass) :
    Prop where
  affectedReqIds : p'.affectedReqIds = p.affectedReqIds
  marked : ∀ b, b ∈ p'.markedInvalidBlockIds ↔
    b ∈ p.markedInvalidBlockIds ∨ (b ∈ blocks.take n ∧ b ∈ invalid)
  isAffected : p'.isAffected = true ↔ p.isAffected = true ∨ ∃ b ∈ blocks.take n, b ∈ invalid
  markedInvalidBlock : p'.markedInvalidBlock = true ↔ p.markedInvalidBlock = true ∨
    ∃ b ∈ blocks.take n, b ∈ invalid ∧ b ∉ p.markedInvalidBlockIds
  kvCacheManager : p'.s.kvCacheManager = p.s.kvCacheManager
  failed : p'.s.failedRecvingKvReqIds = p.s.failedRecvingKvReqIds
  other : ∀ x, x ≠ r → p'.s.objects x = p.s.objects x
  count : (p'.s.objects r).numComputedTokens =
    if p.markedInvalidBlock then (p.s.objects r).numComputedTokens
    else countAt p.s.config.blockSize idx (p.s.objects r).numComputedTokens
      ((blocks.take n).findIdx? fun b =>
        decide (b ∈ invalid) && decide (b ∉ p.markedInvalidBlockIds))

variable {r invalid} in
/-- The request is truncated at the first block, and the loop goes on. -/
theorem BlocksScanned.truncate {n idx : Nat} {blockId : Int} {blocks : List Int}
    {p p1 p' : Scheduler.InvalidPass}
    (h : BlocksScanned r invalid n (idx + 1) blocks p1 p') (hinvalid : blockId ∈ invalid)
    (hunmarked : blockId ∉ p.markedInvalidBlockIds) (hflag : p.markedInvalidBlock = false)
    (haff : p1.affectedReqIds = p.affectedReqIds)
    (hmarked : p1.markedInvalidBlockIds = p.markedInvalidBlockIds.insert blockId)
    (hisAffected : p1.isAffected = true) (hflag1 : p1.markedInvalidBlock = true)
    (hkv : p1.s.kvCacheManager = p.s.kvCacheManager)
    (hfailed : p1.s.failedRecvingKvReqIds = p.s.failedRecvingKvReqIds)
    (hother : ∀ x, x ≠ r → p1.s.objects x = p.s.objects x)
    (hcount : (p1.s.objects r).numComputedTokens = (idx : Int) * p.s.config.blockSize) :
    BlocksScanned r invalid (n + 1) idx (blockId :: blocks) p p' := by
  refine ⟨h.affectedReqIds.trans haff, fun b => ?_, ?_, ?_, h.kvCacheManager.trans hkv,
    h.failed.trans hfailed, fun x hx => (h.other x hx).trans (hother x hx), ?_⟩
  · rw [h.marked, hmarked, take_succ_cons, mem_cons, mem_insert_iff]
    grind
  · rw [h.isAffected, hisAffected, take_succ_cons]
    grind
  · rw [h.markedInvalidBlock, hflag1, take_succ_cons]
    grind
  · rw [h.count, if_pos hflag1, hflag, take_succ_cons, List.findIdx?_cons, hcount]
    simp [hinvalid, hunmarked, countAt]

theorem invalidBlockLoop_spec (n idx : Nat) (blocks : List Int) (p : Scheduler.InvalidPass) :
    BlocksScanned r invalid n idx blocks p
      (Scheduler.invalidBlockLoop r invalid evict m n idx blocks p) := by
  induction blocks generalizing n idx p with
  | nil =>
    have hrefl : BlocksScanned r invalid n idx [] p p := by
      constructor <;> simp [countAt]
    cases n with
    | zero => exact hrefl
    | succ n => exact hrefl
  | cons blockId blocks ih =>
    cases n with
    | zero =>
      show BlocksScanned r invalid 0 idx (blockId :: blocks) p p
      constructor <;> simp [countAt]
    | succ n =>
      unfold Scheduler.invalidBlockLoop
      dsimp only
      split
      · rename_i hvalid
        have h := ih n (idx + 1) p
        refine ⟨h.affectedReqIds, fun b => ?_, ?_, ?_, h.kvCacheManager, h.failed, h.other, ?_⟩
        · rw [h.marked, take_succ_cons, mem_cons]
          grind
        · rw [h.isAffected, take_succ_cons]
          grind
        · rw [h.markedInvalidBlock, take_succ_cons]
          grind
        · rw [h.count, take_succ_cons, List.findIdx?_cons]
          simp only [hvalid, decide_false, Bool.false_and, Bool.false_eq_true, if_false]
          rw [countAt_shift]
      · rename_i hinvalid
        rw [Decidable.not_not] at hinvalid
        split
        · rename_i hmarked
          have h := ih n (idx + 1) { p with isAffected := true }
          refine ⟨h.affectedReqIds, fun b => ?_, ?_, ?_, h.kvCacheManager, h.failed,
            h.other, ?_⟩
          · rw [h.marked, take_succ_cons, mem_cons]
            grind
          · rw [h.isAffected, take_succ_cons]
            grind
          · rw [h.markedInvalidBlock, take_succ_cons]
            grind
          · rw [h.count, take_succ_cons, List.findIdx?_cons]
            simp only [hinvalid, hmarked, not_true_eq_false, decide_false, Bool.and_false,
              Bool.false_eq_true, if_false]
            rw [countAt_shift]
        · rename_i hunmarked
          split
          · rename_i hflag
            have h := ih n (idx + 1) { p with
              isAffected := true
              markedInvalidBlockIds := p.markedInvalidBlockIds.insert blockId }
            refine ⟨h.affectedReqIds, fun b => ?_, ?_, ?_, h.kvCacheManager, h.failed,
              h.other, ?_⟩
            · rw [h.marked, take_succ_cons, mem_cons, mem_insert_iff]
              grind
            · rw [h.isAffected, take_succ_cons]
              grind
            · rw [h.markedInvalidBlock, take_succ_cons]
              grind
            · rw [h.count]
              simp only [hflag, if_true]
          · rename_i hflag
            exact (ih n (idx + 1) _).truncate hinvalid hunmarked
              (Bool.eq_false_of_not_eq_true hflag) rfl rfl rfl rfl rfl rfl
              (fun x hx => Function.update_of_ne hx _ _)
              (by simp only [Scheduler.modify, Function.update_self])

end BlockLoop

/-! ### The loop over the requests -/

/-- The requests before `r` in a list. -/
def earlier (l : List ReqRef) (r : ReqRef) : List ReqRef := l.takeWhile fun x => x ≠ r

theorem earlier_concat_self {l : List ReqRef} {r : ReqRef} (h : r ∉ l) :
    earlier (l ++ [r]) r = l := by
  have hall : ∀ x ∈ l, decide (x ≠ r) = true := fun x hx =>
    decide_eq_true fun heq => h (heq ▸ hx)
  unfold earlier
  rw [takeWhile_append_of_pos hall]
  simp

theorem earlier_concat_of_mem {l : List ReqRef} {x : ReqRef} (r : ReqRef) (h : x ∈ l) :
    earlier (l ++ [r]) x = earlier l x := by
  unfold earlier
  induction l with
  | nil => cases h
  | cons a l ih =>
    rw [cons_append, takeWhile_cons, takeWhile_cons]
    split
    · rename_i hne
      rw [ih ((mem_cons.mp h).resolve_left fun heq => of_decide_eq_true hne heq.symm)]
    · rfl

/-- What the scan has left when the requests of `done` are scanned. -/
structure RequestsScanned (s : Scheduler) (invalid : List Int) (done : List ReqRef)
    (q : Scheduler.InvalidPass) : Prop where
  frame : LoadFrame s q.s
  kvCacheManager : q.s.kvCacheManager = s.kvCacheManager
  failed : q.s.failedRecvingKvReqIds = s.failedRecvingKvReqIds
  marked : ∀ b, b ∈ q.markedInvalidBlockIds ↔ b ∈ invalid ∧ ∃ x ∈ done, b ∈ scannedIds s x
  affectedReqIds : ∀ reqId, reqId ∈ q.affectedReqIds ↔
    ∃ x ∈ done, Affected s invalid x ∧ (s.objects x).requestId = reqId
  count : ∀ x ∈ done, (q.s.objects x).numComputedTokens = newCount s invalid (earlier done x) x
  other : ∀ x, x ∉ done → q.s.objects x = s.objects x

section RequestLoop
variable {s : Scheduler} {invalid : List Int} {evict : Bool} {done : List ReqRef} {r : ReqRef}
  {q q' : Scheduler.InvalidPass}

/-- The scan of one request, up to the check whether it is affected. -/
theorem RequestsScanned.scan (h : RequestsScanned s invalid done q) (hr : r ∉ done)
    (hrun : Scheduler.invalidRequestStep invalid evict q r = .ok q') :
    ∃ p : Scheduler.InvalidPass,
      LoadFrame q.s p.s ∧
      BlocksScanned r invalid (scanBlocks s r) 0 (blockIdsOf s r)
        { q with isAffected := false, markedInvalidBlock := false } p ∧
      ((p.isAffected = false ∧ q' = p) ∨
        (p.isAffected = true ∧ p.markedInvalidBlock = true ∧
          q' = { p with affectedReqIds := p.affectedReqIds.insert (s.objects r).requestId }) ∨
        (p.isAffected = true ∧ p.markedInvalidBlock = false ∧ ∃ total, q' = { p with
          totalAffectedTokens := total
          s := p.s.modify r fun request =>
            { request with numComputedTokens := request.numCachedTokens }
          affectedReqIds := p.affectedReqIds.insert (s.objects r).requestId })) := by
  have hobj := h.other r hr
  unfold Scheduler.invalidRequestStep at hrun
  dsimp only at hrun
  split at hrun
  · rename_i reqBlockIds hids
    have hblocks : blockIdsOf s r = reqBlockIds := by
      unfold blockIdsOf
      rw [← h.kvCacheManager, ← hobj, hids]
      rfl
    have hconfig : q.s.config = s.config := by rw [h.frame.eq]
    have htokens : (if (q.s.objects r).status = .waitingForRemoteKvs then
        if (q.s.objects r).requestId ∈ q.s.failedRecvingKvReqIds then
          (q.s.objects r).numComputedTokens
        else reqBlockIds.length * (q.s.config.blockSize : Int)
      else (q.s.objects r).numCachedTokens) = scanTokens s r := by
      unfold scanTokens
      rw [hobj, h.failed, hconfig, hblocks]
    have hnum : ((scanTokens s r + (q.s.config.blockSize : Int) - 1)
        / (q.s.config.blockSize : Int)).toNat = scanBlocks s r := by
      unfold scanBlocks
      rw [hconfig]
    rw [htokens, hnum] at hrun
    have hspec := invalidBlockLoop_spec r invalid evict (scanTokens s r) (scanBlocks s r) 0
      reqBlockIds { q with isAffected := false, markedInvalidBlock := false }
    have hframe := invalidBlockLoop_frame r invalid evict (scanTokens s r) (scanBlocks s r) 0
      reqBlockIds { q with isAffected := false, markedInvalidBlock := false }
    generalize Scheduler.invalidBlockLoop r invalid evict (scanTokens s r) (scanBlocks s r) 0
      reqBlockIds { q with isAffected := false, markedInvalidBlock := false } = p
      at hrun hspec hframe
    refine ⟨p, hframe, hblocks ▸ hspec, ?_⟩
    rw [hobj] at hrun
    by_cases haff : p.isAffected = true
    · rw [if_neg (by simp [haff])] at hrun
      by_cases hflag : p.markedInvalidBlock = true
      · rw [if_pos hflag] at hrun
        exact .inr (.inl ⟨haff, hflag, (Except.ok.inj hrun).symm⟩)
      · rw [if_neg hflag] at hrun
        exact .inr (.inr ⟨haff, Bool.eq_false_of_not_eq_true hflag, _,
          (Except.ok.inj hrun).symm⟩)
    · rw [if_pos (Bool.eq_false_of_not_eq_true haff)] at hrun
      exact .inl ⟨Bool.eq_false_of_not_eq_true haff, (Except.ok.inj hrun).symm⟩
  · cases hrun

/-- A further request is entered with its new count. -/
theorem RequestsScanned.extend (h : RequestsScanned s invalid done q) (hr : r ∉ done)
    (hframe : LoadFrame q.s q'.s) (hkv : q'.s.kvCacheManager = q.s.kvCacheManager)
    (hfailed : q'.s.failedRecvingKvReqIds = q.s.failedRecvingKvReqIds)
    (hmarked : ∀ b, b ∈ q'.markedInvalidBlockIds ↔
      b ∈ invalid ∧ ∃ x ∈ done ++ [r], b ∈ scannedIds s x)
    (haff : ∀ reqId, reqId ∈ q'.affectedReqIds ↔ reqId ∈ q.affectedReqIds ∨
      (Affected s invalid r ∧ (s.objects r).requestId = reqId))
    (hother : ∀ x, x ≠ r → q'.s.objects x = q.s.objects x)
    (hcount : (q'.s.objects r).numComputedTokens = newCount s invalid done r) :
    RequestsScanned s invalid (done ++ [r]) q' where
  frame := h.frame.trans hframe
  kvCacheManager := hkv.trans h.kvCacheManager
  failed := hfailed.trans h.failed
  marked := hmarked
  affectedReqIds reqId := by
    rw [haff, h.affectedReqIds]
    grind
  count x hx := by
    rcases mem_append.mp hx with hx | hx
    · have hne : x ≠ r := fun heq => hr (heq ▸ hx)
      rw [hother x hne, h.count x hx, earlier_concat_of_mem r hx]
    · obtain rfl := mem_singleton.mp hx
      rw [hcount, earlier_concat_self hr]
  other x hx := by
    obtain ⟨hx, hne⟩ := not_or.mp (mt mem_append.mpr hx)
    have hne : x ≠ r := fun heq => hne (mem_singleton.mpr heq)
    rw [hother x hne, h.other x hx]

/-- One more request is scanned. -/
theorem RequestsScanned.step (h : RequestsScanned s invalid done q) (hr : r ∉ done)
    (hrun : Scheduler.invalidRequestStep invalid evict q r = .ok q') :
    RequestsScanned s invalid (done ++ [r]) q' := by
  obtain ⟨p, hframe, hp, hcases⟩ := h.scan hr hrun
  have hobj := h.other r hr
  have hconfig : q.s.config = s.config := by rw [h.frame.eq]
  have hmarked : ∀ b, b ∈ p.markedInvalidBlockIds ↔
      b ∈ invalid ∧ ∃ x ∈ done ++ [r], b ∈ scannedIds s x := by
    intro b
    rw [hp.marked]
    show b ∈ q.markedInvalidBlockIds ∨ (b ∈ scannedIds s r ∧ b ∈ invalid) ↔ _
    rw [h.marked]
    grind
  have haffected : p.isAffected = true ↔ Affected s invalid r := by
    rw [hp.isAffected]
    exact ⟨fun h => h.resolve_left Bool.false_ne_true, .inr⟩
  have hfresh : (fun b => decide (b ∈ invalid) && decide (b ∉ q.markedInvalidBlockIds)) =
      fresh s invalid done := by
    funext b
    unfold fresh
    rw [Bool.eq_iff_iff]
    simp only [Bool.and_eq_true, decide_eq_true_iff, all_eq_true, h.marked]
    grind
  have hcount : (p.s.objects r).numComputedTokens =
      countAt s.config.blockSize 0 (s.objects r).numComputedTokens
        ((scannedIds s r).findIdx? (fresh s invalid done)) := by
    rw [hp.count]
    show (if false = true then _ else countAt q.s.config.blockSize 0
      (q.s.objects r).numComputedTokens ((scannedIds s r).findIdx? fun b =>
        decide (b ∈ invalid) && decide (b ∉ q.markedInvalidBlockIds))) = _
    rw [if_neg Bool.false_ne_true, hfresh, hconfig, hobj]
  have hfound : p.markedInvalidBlock = true ↔
      ((scannedIds s r).findIdx? (fresh s invalid done)).isSome = true := by
    rw [hp.markedInvalidBlock, List.findIdx?_isSome, any_eq_true, ← hfresh]
    simp only [Bool.and_eq_true, decide_eq_true_iff]
    exact ⟨fun h => h.resolve_left Bool.false_ne_true, .inr⟩
  have haff0 : p.affectedReqIds = q.affectedReqIds := hp.affectedReqIds
  rcases hcases with ⟨hno, rfl⟩ | ⟨hyes, hflag, rfl⟩ | ⟨hyes, hflag, total, rfl⟩
  · have hnot : ¬ Affected s invalid r := fun ha => by
      rw [haffected.mpr ha] at hno
      cases hno
    refine h.extend hr hframe hp.kvCacheManager hp.failed hmarked (fun reqId => ?_) hp.other ?_
    · rw [haff0]
      simp [hnot]
    · have hnone : (scannedIds s r).findIdx? (fresh s invalid done) = none := by
        rw [List.findIdx?_eq_none_iff]
        intro b hb
        have hvalid : b ∉ invalid := fun hinv => hnot ⟨b, hb, hinv⟩
        simp [fresh, hvalid]
      rw [hcount, hnone, newCount, if_neg hnot]
      rfl
  · refine h.extend hr hframe hp.kvCacheManager hp.failed hmarked (fun reqId => ?_) hp.other ?_
    · show reqId ∈ p.affectedReqIds.insert _ ↔ _
      rw [mem_insert_iff, haff0]
      have ha := haffected.mp hyes
      grind
    · obtain ⟨i, hi⟩ := Option.isSome_iff_exists.mp (hfound.mp hflag)
      show (p.s.objects r).numComputedTokens = _
      rw [hcount, hi, newCount, if_pos (haffected.mp hyes), hi]
      rfl
  · have hnone : (scannedIds s r).findIdx? (fresh s invalid done) = none := by
      rw [← Option.not_isSome_iff_eq_none]
      exact fun hsome => by
        rw [hfound.mpr hsome] at hflag
        cases hflag
    have hmod : LoadFrame p.s (p.s.modify r fun request =>
        { request with numComputedTokens := request.numCachedTokens }) := LoadFrame.of_modify rfl
    refine h.extend hr (hframe.trans hmod) hp.kvCacheManager hp.failed hmarked
      (fun reqId => ?_) (fun x hx => ?_) ?_
    · show reqId ∈ p.affectedReqIds.insert _ ↔ _
      rw [mem_insert_iff, haff0]
      have ha := haffected.mp hyes
      grind
    · exact (Function.update_of_ne hx _ _).trans (hp.other x hx)
    · show (Function.update p.s.objects r _ r).numComputedTokens = _
      rw [Function.update_self, newCount, if_pos (haffected.mp hyes), hnone]
      have hcached : (p.s.objects r).numCachedTokens = (s.objects r).numCachedTokens := by
        rw [← hobj]
        exact hframe.of_core (fun request => request.numCachedTokens) (fun _ => rfl) r
      exact hcached

/-- The scan of a list of requests. -/
theorem updateRequests_spec {requests : List ReqRef} {p : Scheduler.InvalidPass}
    (hnodup : requests.Nodup)
    (h : s.updateRequestsWithInvalidBlocks requests invalid evict = .ok p) :
    RequestsScanned s invalid requests p := by
  -- The induction is on the requests still to be scanned.
  have key : ∀ (rest done : List ReqRef) (q : Scheduler.InvalidPass), (done ++ rest).Nodup →
      RequestsScanned s invalid done q →
      rest.foldlM (Scheduler.invalidRequestStep invalid evict) q = .ok p →
      RequestsScanned s invalid (done ++ rest) p := by
    intro rest
    induction rest with
    | nil =>
      intro done q _ hq hrun
      cases hrun
      rw [append_nil]
      exact hq
    | cons r rest ih =>
      intro done q hnd hq hrun
      rw [foldlM_cons] at hrun
      obtain ⟨q1, hstep, hrun⟩ := bind_ok hrun
      have hr : r ∉ done := fun hmem =>
        (nodup_append.mp hnd).2.2 r hmem r mem_cons_self rfl
      rw [append_cons] at hnd ⊢
      exact ih (done ++ [r]) q1 hnd (hq.step hr hstep) hrun
  have hstart : RequestsScanned s invalid [] { s := s } :=
    ⟨.refl s, rfl, rfl, by simp, by simp, by simp, fun _ _ => rfl⟩
  exact key requests [] { s := s } hnodup hstart h

end RequestLoop

/-! ### The requests that keep an invalid block -/

section Kept
variable {s : Scheduler} {invalid : List Int} {l : List ReqRef} {r : ReqRef} {b : Int}

/-- Behind its scanned blocks a request keeps its computed tokens if it is not affected, and its
cached tokens if every invalid block was scanned before, with another request. -/
def CountsBeyond (s : Scheduler) (invalid : List Int) (l : List ReqRef) (r : ReqRef) (j : Nat) :
    Prop :=
  (¬ Affected s invalid r ∧
    (j : Int) * s.config.blockSize < (s.objects r).numComputedTokens) ∨
  (Affected s invalid r ∧ (∀ b ∈ scannedIds s r, b ∈ invalid →
      ∃ x ∈ earlier l r, b ∈ scannedIds s x) ∧
    (j : Int) * s.config.blockSize < (s.objects r).numCachedTokens)

theorem fresh_eq_true_iff {before : List ReqRef} : fresh s invalid before b = true ↔
    b ∈ invalid ∧ ∀ x ∈ before, b ∉ scannedIds s x := by
  unfold fresh
  simp

theorem lt_newCount_iff {j : Nat} (hj : scanBlocks s r ≤ j) :
    (j : Int) * s.config.blockSize < newCount s invalid (earlier l r) r ↔
      CountsBeyond s invalid l r j := by
  unfold newCount CountsBeyond
  by_cases haff : Affected s invalid r
  · rw [if_pos haff]
    simp only [haff, not_true_eq_false, false_and, true_and, false_or]
    cases hfind : (scannedIds s r).findIdx? (fresh s invalid (earlier l r)) with
    | none =>
      have hall := List.findIdx?_eq_none_iff.mp hfind
      have hshared : ∀ b ∈ scannedIds s r, b ∈ invalid →
          ∃ x ∈ earlier l r, b ∈ scannedIds s x := by
        intro b hb hinv
        by_contra hnone
        push Not at hnone
        have htrue := fresh_eq_true_iff.mpr ⟨hinv, hnone⟩
        rw [hall b hb] at htrue
        cases htrue
      exact ⟨fun h => ⟨hshared, h⟩, fun h => h.2⟩
    | some i =>
      obtain ⟨hi, hfresh, -⟩ := List.findIdx?_eq_some_iff_getElem.mp hfind
      have hlt : i < scanBlocks s r := by
        unfold scannedIds at hi
        rw [length_take] at hi
        omega
      have hle : (i : Int) * s.config.blockSize ≤ (j : Int) * s.config.blockSize :=
        Int.mul_le_mul_of_nonneg_right (by omega) (by omega)
      constructor
      · intro h
        have hcount : (j : Int) * s.config.blockSize
            < ((0 + i : Nat) : Int) * s.config.blockSize := h
        rw [Nat.zero_add] at hcount
        omega
      · rintro ⟨hshared, -⟩
        obtain ⟨hinv, hnot⟩ := fresh_eq_true_iff.mp hfresh
        obtain ⟨x, hx, hscan⟩ := hshared _ (getElem_mem hi) hinv
        exact absurd hscan (hnot x hx)
  · rw [if_neg haff]
    simp [haff]

/-- The first request that scans a block. -/
theorem exists_first_scanner (hr : r ∈ l) (hb : b ∈ scannedIds s r) :
    ∃ x ∈ l, b ∈ scannedIds s x ∧ ∀ y ∈ earlier l x, b ∉ scannedIds s y := by
  induction l with
  | nil => cases hr
  | cons a l ih =>
    by_cases ha : b ∈ scannedIds s a
    · refine ⟨a, mem_cons_self, ha, ?_⟩
      unfold earlier
      simp
    · have hr' : r ∈ l := (mem_cons.mp hr).resolve_left fun heq => ha (heq ▸ hb)
      obtain ⟨x, hx, hscan, hearlier⟩ := ih hr'
      have hne : a ≠ x := fun heq => ha (heq ▸ hscan)
      refine ⟨x, mem_cons_of_mem a hx, hscan, fun y hy => ?_⟩
      unfold earlier at hy
      rw [takeWhile_cons_of_pos (by simpa using hne)] at hy
      rcases mem_cons.mp hy with rfl | hy
      · exact ha
      · exact hearlier y hy

/-- A scanned invalid block is recomputed: the first request that scans it is truncated at the
block or before. -/
theorem exists_truncated (hr : r ∈ l) (hb : b ∈ scannedIds s r) (hinv : b ∈ invalid) :
    ∃ x ∈ l, Affected s invalid x ∧ ∃ i : Nat, (blockIdsOf s x)[i]? = some b ∧
      newCount s invalid (earlier l x) x ≤ (i : Int) * s.config.blockSize := by
  obtain ⟨x, hx, hscan, hfirst⟩ := exists_first_scanner hr hb
  have haff : Affected s invalid x := ⟨b, hscan, hinv⟩
  have hfresh : fresh s invalid (earlier l x) b = true := fresh_eq_true_iff.mpr ⟨hinv, hfirst⟩
  cases hfind : (scannedIds s x).findIdx? (fresh s invalid (earlier l x)) with
  | none =>
    have hnot := List.findIdx?_eq_none_iff.mp hfind b hscan
    rw [hfresh] at hnot
    cases hnot
  | some i =>
    obtain ⟨k, hk⟩ := mem_iff_getElem?.mp hscan
    obtain ⟨hklt, hkeq⟩ := List.getElem?_eq_some_iff.mp hk
    obtain ⟨hi, -, hmin⟩ := List.findIdx?_eq_some_iff_getElem.mp hfind
    have hle : i ≤ k := by
      by_contra hlt
      have := hmin k (by omega)
      rw [hkeq, hfresh] at this
      simp at this
    refine ⟨x, hx, haff, k, ?_, ?_⟩
    · unfold scannedIds at hk
      rw [List.getElem?_take] at hk
      split at hk
      · exact hk
      · cases hk
    · unfold newCount
      rw [if_pos haff, hfind]
      show ((0 + i : Nat) : Int) * _ ≤ _
      rw [Nat.zero_add]
      exact Int.mul_le_mul_of_nonneg_right (by omega) (by omega)

end Kept

/-! ### The call -/

/-- The requests that wait for remote KVs. -/
def asyncLoads (s : Scheduler) : List ReqRef :=
  s.waiting.filter fun r => (s.objects r).status = .waitingForRemoteKvs

/-- The requests that the two passes go through. -/
def loads (s : Scheduler) : List ReqRef := asyncLoads s ++ s.running

/-- What holds of the queues in every state of the engine in which no two requests have one
id. -/
structure LoadsQueued (s : Scheduler) : Prop where
  nodup : (s.waiting ++ s.running).Nodup
  distinct : DistinctIds s
  running : ∀ r ∈ s.running, (s.objects r).status = .running
  blockSize : 0 < s.config.blockSize

section Congr
variable {s s₁ : Scheduler} {invalid : List Int} {r : ReqRef}

/-- The state of the second pass, for a request that the first did not touch. -/
structure Untouched (s s₁ : Scheduler) (r : ReqRef) : Prop where
  object : s₁.objects r = s.objects r
  kvCacheManager : s₁.kvCacheManager = s.kvCacheManager
  failed : s₁.failedRecvingKvReqIds = s.failedRecvingKvReqIds
  config : s₁.config = s.config

theorem Untouched.scannedIds (h : Untouched s s₁ r) :
    Engine.scannedIds s₁ r = Engine.scannedIds s r := by
  have hids : blockIdsOf s₁ r = blockIdsOf s r := by
    unfold blockIdsOf
    rw [h.object, h.kvCacheManager]
  unfold Engine.scannedIds scanBlocks scanTokens
  rw [hids, h.object, h.failed, h.config]

theorem Untouched.affected (h : Untouched s s₁ r) :
    Affected s₁ invalid r ↔ Affected s invalid r := by
  unfold Affected
  rw [h.scannedIds]

theorem newCount_congr {before : List ReqRef} (h : Untouched s s₁ r)
    (hbefore : ∀ x ∈ before, Untouched s s₁ x) :
    newCount s₁ invalid before r = newCount s invalid before r := by
  have hfresh : fresh s₁ invalid before = fresh s invalid before := by
    funext b
    rw [Bool.eq_iff_iff, fresh_eq_true_iff, fresh_eq_true_iff]
    refine and_congr_right fun _ => forall₂_congr fun x hx => ?_
    rw [(hbefore x hx).scannedIds]
  unfold newCount
  simp only [h.affected, hfresh, h.scannedIds, h.config, h.object]

end Congr

/-- What the two passes leave of the request objects. -/
structure Handled.Counts (s : Scheduler) (invalid : List Int) (s' : Scheduler) : Prop where
  async : ∀ r ∈ asyncLoads s, (s'.objects r).numComputedTokens =
    newCount s invalid (earlier (asyncLoads s) r) r
  sync : ∀ r ∈ s.running, (s'.objects r).numComputedTokens =
    newCount s invalid (earlier s.running r) r
  other : ∀ r, r ∉ asyncLoads s → r ∉ s.running → s'.objects r = s.objects r

/-- What the call leaves of the requests, and which ids it returns. -/
structure Handled (s : Scheduler) (invalid : List Int) (ids : List String) (s' : Scheduler) :
    Prop where
  counts : Handled.Counts s invalid s'
  recompute : s.config.recomputeKvLoadFailures = true →
    (∀ reqId, reqId ∈ ids ↔
      ∃ x ∈ s.running, Affected s invalid x ∧ (s.objects x).requestId = reqId) ∧
    ∀ reqId, reqId ∈ s'.failedRecvingKvReqIds ↔ reqId ∈ s.failedRecvingKvReqIds ∨
      ∃ x ∈ asyncLoads s, Affected s invalid x ∧ (s.objects x).requestId = reqId
  fail : s.config.recomputeKvLoadFailures = false →
    (∀ reqId, reqId ∈ ids ↔ ∃ x ∈ loads s,
      Affected s invalid x ∧ (s.objects x).requestId = reqId) ∧
    s'.failedRecvingKvReqIds = s.failedRecvingKvReqIds

theorem earlier_subset {l : List ReqRef} {r x : ReqRef} (h : x ∈ earlier l r) : x ∈ l :=
  (takeWhile_sublist _).subset h

theorem handleInvalidBlocks_spec {s s' : Scheduler} {invalid : List Int} {ids : List String}
    (hq : LoadsQueued s) (h : s.handleInvalidBlocks invalid = .ok (ids, s')) :
    Handled s invalid ids s' := by
  unfold Scheduler.handleInvalidBlocks at h
  obtain ⟨p1, h1, h⟩ := bind_ok h
  obtain ⟨p2, h2, h⟩ := bind_ok h
  obtain ⟨hwnodup, hrnodup, hdisj⟩ := nodup_append.mp hq.nodup
  have hasync := updateRequests_spec (hwnodup.filter _) h1
  have hrunning : p1.s.running = s.running := by rw [hasync.frame.eq]
  have hconfig : p1.s.config = s.config := by rw [hasync.frame.eq]
  have huntouched : ∀ x ∈ s.running, Untouched s p1.s x := fun x hx =>
    ⟨hasync.other x fun hmem => hdisj x (mem_filter.mp hmem).1 x hx rfl,
      hasync.kvCacheManager, hasync.failed, hconfig⟩
  rw [hrunning] at h2
  have hsync := updateRequests_spec hrnodup h2
  have hnot : ∀ r ∈ asyncLoads s, r ∉ s.running := fun r hr hrun =>
    hdisj r (mem_filter.mp hr).1 r hrun rfl
  have hcounts : Handled.Counts s invalid p2.s := by
    refine ⟨fun r hr => ?_, fun r hr => ?_, fun r hr hr' => ?_⟩
    · rw [hsync.other r (hnot r hr)]
      exact hasync.count r hr
    · rw [hsync.count r hr]
      exact newCount_congr (huntouched r hr) fun x hx => huntouched x (earlier_subset hx)
    · rw [hsync.other r hr', hasync.other r hr]
  have hids : ∀ reqId, reqId ∈ p2.affectedReqIds ↔
      ∃ x ∈ s.running, Affected s invalid x ∧ (s.objects x).requestId = reqId := by
    intro reqId
    rw [hsync.affectedReqIds]
    refine exists_congr fun x => and_congr_right fun hx => ?_
    rw [(huntouched x hx).affected, (huntouched x hx).object]
  have hfailed : p2.s.failedRecvingKvReqIds = s.failedRecvingKvReqIds :=
    hsync.failed.trans hasync.failed
  have hpolicy : p2.s.config.recomputeKvLoadFailures = s.config.recomputeKvLoadFailures := by
    rw [hsync.frame.eq, hconfig]
  dsimp only at h
  split at h
  · rename_i hzero
    cases h
    have hno1 : ¬ ∃ x ∈ asyncLoads s, Affected s invalid x := by
      rintro ⟨x, hx, ha⟩
      have hmem := (hasync.affectedReqIds _).mpr ⟨x, hx, ha, rfl⟩
      have hlen := length_pos_of_mem hmem
      omega
    have hno2 : ¬ ∃ x ∈ s.running, Affected s invalid x := by
      rintro ⟨x, hx, ha⟩
      have hlen := length_pos_of_mem ((hids _).mpr ⟨x, hx, ha, rfl⟩)
      omega
    refine ⟨hcounts, fun _ => ⟨fun reqId => ?_, fun reqId => ?_⟩, fun _ =>
      ⟨fun reqId => ?_, hfailed⟩⟩
    · grind
    · rw [hfailed]
      grind
    · unfold loads
      grind
  · obtain ⟨k, -, h⟩ := bind_ok h
    split at h
    · rename_i hfail
      cases h
      rw [show p2.s.config.recomputeKvLoadFailures = false from hfail] at hpolicy
      refine ⟨⟨hcounts.async, hcounts.sync, hcounts.other⟩, fun hrec => ?_,
        fun _ => ⟨fun reqId => ?_, hfailed⟩⟩
      · rw [hrec] at hpolicy
        cases hpolicy
      · show reqId ∈ p1.affectedReqIds ∪ p2.affectedReqIds ↔ _
        rw [mem_union_iff, hasync.affectedReqIds, hids]
        have hdef : (s.waiting.filter fun r =>
          (s.objects r).status = .waitingForRemoteKvs) = asyncLoads s := rfl
        rw [hdef]
        unfold loads
        grind
    · rename_i hfail
      cases h
      refine ⟨⟨hcounts.async, hcounts.sync, hcounts.other⟩,
        fun _ => ⟨hids, fun reqId => ?_⟩, fun hpol => ?_⟩
      · show reqId ∈ p2.s.failedRecvingKvReqIds ∪ p1.affectedReqIds ↔ _
        rw [mem_union_iff, hasync.affectedReqIds, hfailed]
        rfl
      · exact absurd (hpolicy.trans hpol) hfail

/-! ### The recovery -/

section Recovery
variable (s : Scheduler) (invalid : List Int) (ids : List String) (s' : Scheduler)

/-- The call takes the request for affected: its id is returned, or its remote load is recorded
as failed. -/
def Marked (r : ReqRef) : Prop :=
  (s.objects r).requestId ∈ ids ∨ ((s.objects r).status = .waitingForRemoteKvs ∧
    (s.objects r).requestId ∈ s'.failedRecvingKvReqIds)

/-- The request goes on: the policy is to recompute, or its id is not returned. -/
def Survives (r : ReqRef) : Prop :=
  s.config.recomputeKvLoadFailures = true ∨ (s.objects r).requestId ∉ ids

/-- The block `b` is the `j`-th one of the request. -/
def BlockAt (r : ReqRef) (j : Nat) (b : Int) : Prop := (blockIdsOf s r)[j]? = some b

/-- What the call has to leave, when `loaded r j` says that the request `r` has loaded its `j`-th
block in this step. -/
structure Recovered (loaded : ReqRef → Nat → Prop) : Prop where
  blocks : ∀ r ∈ loads s, Survives s ids r → ∀ (j : Nat) (b : Int), BlockAt s r j b → b ∈ invalid →
    (j : Int) * s.config.blockSize < (s'.objects r).numComputedTokens →
    ∃ x ∈ loads s, Survives s ids x ∧ Marked s ids s' x ∧ ∃ i : Nat, BlockAt s x i b ∧
      (s'.objects x).numComputedTokens ≤ (i : Int) * s.config.blockSize
  loaded : ∀ r ∈ loads s, ∀ (j : Nat) (b : Int), loaded r j → BlockAt s r j b → b ∈ invalid →
    Marked s ids s' r
  unaffected : ∀ r, ¬ Marked s ids s' r →
    (s'.objects r).numComputedTokens = (s.objects r).numComputedTokens

/-- A request that the policy lets go on. -/
def Stays (r : ReqRef) : Prop :=
  s.config.recomputeKvLoadFailures = true ∨ ¬ Affected s invalid r

/-- A request that will be affected, or whose remote load has failed before. -/
def InRecovery (r : ReqRef) : Prop :=
  Affected s invalid r ∨ ((s.objects r).status = .waitingForRemoteKvs ∧
    (s.objects r).requestId ∈ s.failedRecvingKvReqIds)

/-- A request of the pass over `l` counts its `j`-th block as computed though it is invalid and
beyond the scanned ones. -/
def CountsUnscanned (l : List ReqRef) (r : ReqRef) (j : Nat) (b : Int) : Prop :=
  r ∈ l ∧ Stays s invalid r ∧ BlockAt s r j b ∧ b ∈ invalid ∧ scanBlocks s r ≤ j ∧
    CountsBeyond s invalid l r j

/-- A request of the pass over `l` computes the block again: the block is among those it scans,
or it lies behind the tokens that stay counted. -/
def Recomputes (l : List ReqRef) (x : ReqRef) (b : Int) : Prop :=
  x ∈ l ∧ Stays s invalid x ∧ InRecovery s invalid x ∧ ∃ i : Nat, BlockAt s x i b ∧
    (i < scanBlocks s x ∨ ¬ CountsBeyond s invalid l x i)

/-- No invalid block escapes the scan: a request that counts one beyond its scanned blocks shares
it with a request that computes it again, and a running request that has loaded one has an
invalid block among its scanned ones. -/
structure ScanReaches (loaded : ReqRef → Nat → Prop) : Prop where
  shared : ∀ l ∈ [asyncLoads s, s.running], ∀ (r : ReqRef) (j : Nat) (b : Int),
    CountsUnscanned s invalid l r j b →
    ∃ l' ∈ [asyncLoads s, s.running], ∃ x, Recomputes s invalid l' x b
  scanned : ∀ r ∈ s.running, ∀ (j : Nat) (b : Int), loaded r j → BlockAt s r j b → b ∈ invalid →
    ∃ b' ∈ (blockIdsOf s r).take (scanBlocks s r), b' ∈ invalid

end Recovery

theorem loadsQueued_of_conserved {s : Scheduler} (h : Conserved s [])
    (hsize : 0 < s.config.blockSize) : LoadsQueued s where
  __ := h
  nodup := by
    have := h.nodup
    rwa [append_nil] at this
  distinct r hr r' hr' heq := by
    have hmem := fun x (hx : x ∈ s.waiting ++ s.running) =>
      (h.queued x).mp (by rwa [append_nil])
    have hreg := h.registered r (hmem r hr).1 (hmem r hr).2
    rw [heq, h.registered r' (hmem r' hr').1 (hmem r' hr').2] at hreg
    exact (Option.some.inj hreg).symm
  blockSize := hsize

/-- The queues are in this state whenever the engine gets the result of a batch. -/
theorem loadsQueued_of_run {config : EngineConfig} {e0 e : EngineCore}
    (hstart : EngineCore.start config = .ok e0)
    (hrun : Run EngineCore.step (fun e op => FreshIds e op ∧ NoFinishedUpdate e op) e0 e)
    (hsize : 0 < e.scheduler.config.blockSize) : LoadsQueued e.scheduler := by
  have h := hrun.invariant RequestInv (requestInv_start hstart)
    fun _ _ _ h hc hstep => requestInv_step h hc.1 hc.2.quiet hstep
  exact loadsQueued_of_conserved h.conserved hsize

section Meaning
variable {s s' : Scheduler} {invalid : List Int} {ids : List String} {r : ReqRef}

theorem mem_queues_of_mem_loads (h : r ∈ loads s) : r ∈ s.waiting ++ s.running :=
  mem_append.mpr ((mem_append.mp h).imp_left fun hr => (mem_filter.mp hr).1)

/-- Only an affected request has the id of an affected request. -/
theorem affected_of_requestId {l : List ReqRef} (hq : LoadsQueued s) (hr : r ∈ loads s)
    (hl : l ⊆ loads s) :
    (∃ x ∈ l, Affected s invalid x ∧ (s.objects x).requestId = (s.objects r).requestId) ↔
      r ∈ l ∧ Affected s invalid r := by
  constructor
  · rintro ⟨x, hx, haff, hid⟩
    obtain rfl := hq.distinct x (mem_queues_of_mem_loads (hl hx)) r (mem_queues_of_mem_loads hr) hid
    exact ⟨hx, haff⟩
  · rintro ⟨hmem, haff⟩
    exact ⟨r, hmem, haff, rfl⟩

theorem status_of_mem_loads (hq : LoadsQueued s) (hr : r ∈ loads s) :
    (s.objects r).status = .waitingForRemoteKvs ↔ r ∈ asyncLoads s := by
  constructor
  · intro hstatus
    rcases mem_append.mp hr with hasync | hrun
    · exact hasync
    · rw [hq.running r hrun] at hstatus
      cases hstatus
  · intro hasync
    exact of_decide_eq_true (mem_filter.mp hasync).2

theorem marked_iff (hq : LoadsQueued s) (h : Handled s invalid ids s') (hr : r ∈ loads s) :
    Marked s ids s' r ↔ InRecovery s invalid r := by
  have hrun : s.running ⊆ loads s := fun x hx => mem_append_right _ hx
  have hasync : asyncLoads s ⊆ loads s := fun x hx => mem_append_left _ hx
  have hsplit : r ∈ asyncLoads s ∨ r ∈ s.running := mem_append.mp hr
  unfold Marked InRecovery
  rw [status_of_mem_loads hq hr]
  cases hpolicy : s.config.recomputeKvLoadFailures with
  | false =>
    obtain ⟨hids, hfailed⟩ := h.fail hpolicy
    rw [hids, hfailed, affected_of_requestId hq hr (List.Subset.refl _)]
    exact or_congr_left ⟨fun h => h.2, fun h => ⟨hr, h⟩⟩
  | true =>
    obtain ⟨hids, hfailed⟩ := h.recompute hpolicy
    rw [hids, hfailed, affected_of_requestId hq hr hrun, affected_of_requestId hq hr hasync]
    grind

theorem survives_iff (hq : LoadsQueued s) (h : Handled s invalid ids s') (hr : r ∈ loads s) :
    Survives s ids r ↔ Stays s invalid r := by
  unfold Survives Stays
  cases hpolicy : s.config.recomputeKvLoadFailures with
  | false =>
    obtain ⟨hids, -⟩ := h.fail hpolicy
    rw [hids, affected_of_requestId hq hr (List.Subset.refl _)]
    simp [hr]
  | true => simp

/-- The count that the pass over `l` leaves. -/
theorem Handled.count (h : Handled s invalid ids s') : ∀ l ∈ [asyncLoads s, s.running], ∀ r ∈ l,
      (s'.objects r).numComputedTokens = newCount s invalid (earlier l r) r := by
  intro l hl r hr
  rcases mem_cons.mp hl with rfl | hl
  · exact h.counts.async r hr
  · obtain rfl := mem_singleton.mp hl
    exact h.counts.sync r hr

theorem mem_loads_iff : r ∈ loads s ↔ ∃ l ∈ [asyncLoads s, s.running], r ∈ l := by
  unfold loads
  simp

/-- A block within the scanned ones. -/
theorem mem_scannedIds {j : Nat} {b : Int} (hb : BlockAt s r j b) (hj : j < scanBlocks s r) :
    b ∈ scannedIds s r := by
  refine mem_of_getElem? (i := j) ?_
  unfold scannedIds
  rw [List.getElem?_take, if_pos hj]
  exact hb

/-- All blocks of a request whose remote load has not failed before are scanned. -/
theorem lt_scanBlocks_of_async {j : Nat} {b : Int} (hq : LoadsQueued s) (hr : r ∈ asyncLoads s)
    (hnot : (s.objects r).requestId ∉ s.failedRecvingKvReqIds) (hb : BlockAt s r j b) :
    j < scanBlocks s r := by
  have hstatus := (status_of_mem_loads hq (mem_append_left _ hr)).mpr hr
  obtain ⟨hj, -⟩ := List.getElem?_eq_some_iff.mp hb
  have hsize : (0 : Int) < s.config.blockSize := by
    have := hq.blockSize
    omega
  unfold scanBlocks scanTokens
  rw [if_pos hstatus, if_neg hnot, add_sub_assoc,
    Int.add_comm, Int.add_mul_ediv_right _ _ (by omega),
    Int.ediv_eq_zero_of_lt (by omega) (by omega)]
  omega

variable {loaded : ReqRef → Nat → Prop}

theorem blocks_of_scanReaches (hq : LoadsQueued s) (h : Handled s invalid ids s')
    (hreach : ScanReaches s invalid loaded) :
    ∀ r ∈ loads s, Survives s ids r → ∀ (j : Nat) (b : Int), BlockAt s r j b → b ∈ invalid →
      (j : Int) * s.config.blockSize < (s'.objects r).numComputedTokens →
      ∃ x ∈ loads s, Survives s ids x ∧ Marked s ids s' x ∧ ∃ i : Nat, BlockAt s x i b ∧
        (s'.objects x).numComputedTokens ≤ (i : Int) * s.config.blockSize := by
  intro r hr hsurvives j b hb hinv hlt
  -- Whoever scans an invalid block shares it with the first request that does so.
  have hscan : ∀ l ∈ [asyncLoads s, s.running], ∀ x ∈ l, Stays s invalid x →
      b ∈ scannedIds s x → ∃ y ∈ loads s, Survives s ids y ∧ Marked s ids s' y ∧
        ∃ i : Nat, BlockAt s y i b ∧
          (s'.objects y).numComputedTokens ≤ (i : Int) * s.config.blockSize := by
    intro l hl x hx hstays hmem
    have hpolicy : s.config.recomputeKvLoadFailures = true :=
      hstays.resolve_right fun hnot => hnot ⟨b, hmem, hinv⟩
    obtain ⟨y, hy, haff, i, hi, hle⟩ := exists_truncated hx hmem hinv
    have hyl : y ∈ loads s := mem_loads_iff.mpr ⟨l, hl, hy⟩
    refine ⟨y, hyl, .inl hpolicy, (marked_iff hq h hyl).mpr (.inl haff), i, hi, ?_⟩
    rw [h.count l hl y hy]
    exact hle
  obtain ⟨l, hl, hrl⟩ := mem_loads_iff.mp hr
  have hstays := (survives_iff hq h hr).mp hsurvives
  by_cases hj : j < scanBlocks s r
  · exact hscan l hl r hrl hstays (mem_scannedIds hb hj)
  · rw [h.count l hl r hrl, lt_newCount_iff (by omega)] at hlt
    obtain ⟨l', hl', x, hx, hxstays, hrec, i, hi, hcase⟩ :=
      hreach.shared l hl r j b ⟨hrl, hstays, hb, hinv, by omega, hlt⟩
    have hxl : x ∈ loads s := mem_loads_iff.mpr ⟨l', hl', hx⟩
    by_cases hlt' : i < scanBlocks s x
    · exact hscan l' hl' x hx hxstays (mem_scannedIds hi hlt')
    · have hnot := hcase.resolve_left hlt'
      refine ⟨x, hxl, (survives_iff hq h hxl).mpr hxstays, (marked_iff hq h hxl).mpr hrec, i, hi,
        ?_⟩
      rw [h.count l' hl' x hx]
      rw [← lt_newCount_iff (by omega)] at hnot
      omega

theorem shared_of_recovered (hq : LoadsQueued s) (h : Handled s invalid ids s')
    (hrec : Recovered s invalid ids s' loaded) :
    ∀ l ∈ [asyncLoads s, s.running], ∀ (r : ReqRef) (j : Nat) (b : Int),
      CountsUnscanned s invalid l r j b →
      ∃ l' ∈ [asyncLoads s, s.running], ∃ x, Recomputes s invalid l' x b := by
  rintro l hl r j b ⟨hrl, hstays, hb, hinv, hj, hcounts⟩
  have hr : r ∈ loads s := mem_loads_iff.mpr ⟨l, hl, hrl⟩
  have hlt : (j : Int) * s.config.blockSize < (s'.objects r).numComputedTokens := by
    rw [h.count l hl r hrl, lt_newCount_iff hj]
    exact hcounts
  obtain ⟨x, hx, hsurvives, hmarked, i, hi, hle⟩ :=
    hrec.blocks r hr ((survives_iff hq h hr).mpr hstays) j b hb hinv hlt
  obtain ⟨l', hl', hxl⟩ := mem_loads_iff.mp hx
  refine ⟨l', hl', x, hxl, (survives_iff hq h hx).mp hsurvives, (marked_iff hq h hx).mp hmarked, i,
    hi, ?_⟩
  by_cases hlt' : i < scanBlocks s x
  · exact .inl hlt'
  · right
    rw [← lt_newCount_iff (by omega), ← h.count l' hl' x hxl]
    omega

theorem loaded_marked_iff (hq : LoadsQueued s) (h : Handled s invalid ids s') :
    (∀ r ∈ loads s, ∀ (j : Nat) (b : Int), loaded r j → BlockAt s r j b → b ∈ invalid →
      Marked s ids s' r) ↔
    ∀ r ∈ s.running, ∀ (j : Nat) (b : Int), loaded r j → BlockAt s r j b → b ∈ invalid →
      ∃ b' ∈ (blockIdsOf s r).take (scanBlocks s r), b' ∈ invalid := by
  constructor
  · intro hall r hr j b hload hb hinv
    have hrl : r ∈ loads s := mem_append_right _ hr
    rcases (marked_iff hq h hrl).mp (hall r hrl j b hload hb hinv) with haff | ⟨hstatus, -⟩
    · exact haff
    · rw [hq.running r hr] at hstatus
      cases hstatus
  · intro hall r hr j b hload hb hinv
    refine (marked_iff hq h hr).mpr ?_
    rcases mem_append.mp hr with hasync | hrun
    · by_cases hfailed : (s.objects r).requestId ∈ s.failedRecvingKvReqIds
      · exact .inr ⟨(status_of_mem_loads hq hr).mpr hasync, hfailed⟩
      · exact .inl ⟨b, mem_scannedIds hb (lt_scanBlocks_of_async hq hasync hfailed hb), hinv⟩
    · exact .inl (hall r hrun j b hload hb hinv)

/-- A request that is not affected keeps its count. -/
theorem unaffected_kept (hq : LoadsQueued s) (h : Handled s invalid ids s')
    (hr : ¬ Marked s ids s' r) :
    (s'.objects r).numComputedTokens = (s.objects r).numComputedTokens := by
  by_cases hmem : r ∈ loads s
  · obtain ⟨l, hl, hrl⟩ := mem_loads_iff.mp hmem
    rw [marked_iff hq h hmem] at hr
    have hnot : ¬ Affected s invalid r := fun haff => hr (.inl haff)
    rw [h.count l hl r hrl]
    exact if_neg hnot
  · unfold loads at hmem
    rw [mem_append, not_or] at hmem
    rw [h.counts.other r hmem.1 hmem.2]

end Meaning

/-- After `_handle_invalid_blocks` the requests recover if and only if the scan reaches the
invalid blocks. -/
theorem recovered_iff {s s' : Scheduler} {invalid : List Int} {ids : List String}
    {loaded : ReqRef → Nat → Prop} (hq : LoadsQueued s)
    (h : s.handleInvalidBlocks invalid = .ok (ids, s')) :
    Recovered s invalid ids s' loaded ↔ ScanReaches s invalid loaded := by
  have hspec := handleInvalidBlocks_spec hq h
  constructor
  · intro hrec
    exact ⟨shared_of_recovered hq hspec hrec, (loaded_marked_iff hq hspec).mp hrec.loaded⟩
  · intro hreach
    exact ⟨blocks_of_scanReaches hq hspec hreach, (loaded_marked_iff hq hspec).mpr hreach.scanned,
      fun r hr => unaffected_kept hq hspec hr⟩

/-! ### A load that fails, before and after a preemption -/

/-- Blocks of four tokens. -/
def loadConfig : EngineConfig where
  scheduler := {
    maxNumRunningReqs := 2
    maxNumScheduledTokens := 32
    maxModelLen := 64
    blockSize := 4
    recomputeKvLoadFailures := true }
  numGpuBlocks := 8
  kvCacheGroups := [.fullAttention 4]

/-- A prompt of six tokens. -/
def promptOfSix : Request.InitArgs where
  requestId := "a"
  promptTokenIds := some [1, 2, 3, 4, 5, 6]
  samplingParams := some { maxTokens := 8 }

/-- A connector that loads `tokens` tokens of a request in the step in which it is scheduled. -/
def loadsNow (tokens : Int) : KVConnector where
  getNumNewMatchedTokens := fun _ _ => (some tokens, false)
  requestFinished := fun _ _ => (false, false)

/-- The request runs with `counted` tokens, and its first block is the block `b`. -/
def RunsWith (counted cached b : Int) (e : EngineCore) : Prop :=
  e.scheduler.running = [0] ∧ e.scheduler.waiting = [] ∧
    (e.scheduler.objects 0).numComputedTokens = counted ∧
    (e.scheduler.objects 0).numCachedTokens = cached ∧
    (e.scheduler.objects 0).status = .running ∧
    (blockIdsOf e.scheduler 0)[0]? = some b ∧ e.scheduler.config.blockSize = 4 ∧
    (e.scheduler.handleInvalidBlocks [b]).toBool = true

instance (counted cached b : Int) : DecidablePred (RunsWith counted cached b) := fun e =>
  inferInstanceAs (Decidable (e.scheduler.running = [0] ∧ e.scheduler.waiting = [] ∧
    (e.scheduler.objects 0).numComputedTokens = counted ∧
    (e.scheduler.objects 0).numCachedTokens = cached ∧
    (e.scheduler.objects 0).status = .running ∧
    (blockIdsOf e.scheduler 0)[0]? = some b ∧ e.scheduler.config.blockSize = 4 ∧
    (e.scheduler.handleInvalidBlocks [b]).toBool = true))

theorem exists_ok_of_toBool {α : Type} {x : Except PyError α} (h : x.toBool = true) :
    ∃ a, x = .ok a := by
  cases x with
  | error e => cases h
  | ok a => exact ⟨a, rfl⟩

/-- A request loads its first block in its first step, and the load fails: the scan reaches the
block, and the request recovers. -/
theorem recovered_first_step : ∃ (s : Scheduler) (ids : List String) (s' : Scheduler),
    LoadsQueued s ∧ s.handleInvalidBlocks [1] = .ok (ids, s') ∧
      BlockAt s 0 0 1 ∧ (s.objects 0).numComputedTokens = 6 ∧
      Recovered s [1] ids s' (fun _ j => j = 0) := by
  obtain ⟨e₀, e, hstart, hrun, hrunning, hwaiting, hcount, hcached, hstatus, hblock, hsize, hok⟩ :=
    exists_run_of_check EngineCore.step (fun e op => FreshIds e op ∧ NoFinishedUpdate e op)
      (RunsWith 6 4 1) (EngineCore.start loadConfig)
      [.addRequest promptOfSix, .schedule (some (loadsNow 4)) none] (by decide +kernel)
  obtain ⟨⟨ids, s'⟩, hcall⟩ := exists_ok_of_toBool hok
  have hq := loadsQueued_of_run hstart hrun (by omega)
  have hscan : scanBlocks e.scheduler 0 = 1 := by
    unfold scanBlocks scanTokens
    rw [if_neg (by simp [hstatus]), hcached, hsize]
    decide
  refine ⟨e.scheduler, ids, s', hq, hcall, hblock, hcount,
    (recovered_iff hq hcall).mpr ⟨?_, ?_⟩⟩
  · rintro l hl r j b ⟨hr, hstays, hb, hinv, hle, hcounts⟩
    -- The request is truncated at its first block, so it counts none behind it.
    have hmem : (1 : Int) ∈ scannedIds e.scheduler 0 := mem_scannedIds hblock (by omega)
    have hzero : l = [0] ∧ r = 0 := by
      unfold asyncLoads at hl
      rw [hwaiting, hrunning] at hl
      simp only [filter_nil, mem_cons, not_mem_nil, or_false] at hl
      rcases hl with rfl | rfl
      · cases hr
      · exact ⟨rfl, mem_singleton.mp hr⟩
    obtain ⟨rfl, rfl⟩ := hzero
    rcases hcounts with ⟨hnot, -⟩ | ⟨-, hshared, -⟩
    · exact absurd ⟨1, hmem, mem_singleton_self 1⟩ hnot
    · obtain ⟨x, hx, -⟩ := hshared 1 hmem (mem_singleton_self 1)
      exact absurd hx not_mem_nil
  · intro r hr j b hj hb hinv
    rw [hrunning, mem_singleton] at hr
    subst hr hj
    exact ⟨b, mem_scannedIds hb (by omega), hinv⟩

/-- A request that is preempted and resumed loads its first block then. The scan looks only at
the tokens that were cached when the request was scheduled first, so it does not reach the block:
the request goes on with the tokens of a block that no request computes again. -/
theorem resumed_load_missed : ∃ (e₀ e : EngineCore) (ids : List String) (s' : Scheduler),
    EngineCore.start loadConfig = .ok e₀ ∧
      Run EngineCore.step (fun e op => FreshIds e op ∧ NoFinishedUpdate e op) e₀ e ∧
      e.scheduler.handleInvalidBlocks [3] = .ok (ids, s') ∧ BlockAt e.scheduler 0 0 3 ∧
      (e.scheduler.objects 0).numComputedTokens = 7 ∧
      ∀ loaded, ¬ Recovered e.scheduler [3] ids s' loaded := by
  obtain ⟨e₀, e, hstart, hrun, hrunning, hwaiting, hcount, hcached, hstatus, hblock, hsize, hok⟩ :=
    exists_run_of_check EngineCore.step (fun e op => FreshIds e op ∧ NoFinishedUpdate e op)
      (RunsWith 7 0 3) (EngineCore.start loadConfig)
      [.addRequest promptOfSix,
        .schedule (some (loadsNow 0)) none,
        .updateFromOutput (some (loadsNow 0)) (sampled [7]),
        .resetPrefixCache true,
        .schedule (some (loadsNow 4)) none] (by decide +kernel)
  obtain ⟨⟨ids, s'⟩, hcall⟩ := exists_ok_of_toBool hok
  have hq := loadsQueued_of_run hstart hrun (by omega)
  refine ⟨e₀, e, ids, s', hstart, hrun, hcall, hblock, hcount, fun loaded hrec => ?_⟩
  have hscan : scanBlocks e.scheduler 0 = 0 := by
    unfold scanBlocks scanTokens
    rw [if_neg (by simp [hstatus]), hcached, hsize]
    decide
  have hnot : ¬ Affected e.scheduler [3] 0 := by
    rintro ⟨b, hb, -⟩
    unfold scannedIds at hb
    rw [hscan] at hb
    exact absurd hb not_mem_nil
  have hcounts : CountsUnscanned e.scheduler [3] e.scheduler.running 0 0 3 := by
    refine ⟨?_, .inr hnot, hblock, mem_singleton_self 3, ?_, .inl ⟨hnot, ?_⟩⟩
    · rw [hrunning]
      exact mem_singleton_self 0
    · omega
    · rw [hcount, hsize]
      decide
  obtain ⟨l, hl, x, hx, -, hrecovery, -⟩ :=
    ((recovered_iff hq hcall).mp hrec).shared e.scheduler.running (by simp) 0 0 3 hcounts
  have hzero : x = 0 := by
    unfold asyncLoads at hl
    rw [hwaiting, hrunning] at hl
    simp only [filter_nil, mem_cons, not_mem_nil, or_false] at hl
    rcases hl with rfl | rfl
    · cases hx
    · exact mem_singleton.mp hx
  subst hzero
  rcases hrecovery with haff | ⟨hremote, -⟩
  · exact hnot haff
  · rw [hstatus] at hremote
    cases hremote

end Vllm.Proofs.Engine
