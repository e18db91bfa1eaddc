import Mathlib.Data.List.Forall2
import Vllm.Lib.Transcript
import Vllm.Proofs.Core.TableStep
import Vllm.V1.Core.KVCacheManager

/-!
# `Vllm.Proofs.Core.EmptyEntries`: entries that no caller can see

Reading the table of a request that has none leaves an empty table behind. A manager reads its
tables through the same `defaultdict`, so an empty entry answers like no entry, with one
exception: the full attention manager counts the entries in `get_num_common_prefix_blocks`.

* `SameTables`: two managers that differ in empty entries only, and not at all when they are
  full attention managers. Every method keeps the relation and answers alike.
* `ManagerCall`, `managerCall`: the calls that the scheduler makes, and their answers.
* `transcript_of_sameTables`: managers of all groups that are so related give the same answers
  to every sequence of calls.
-/

set_option autoImplicit false

namespace Vllm.Proofs.Core

open Vllm.Lib Vllm.V1 Vllm.V1.Core Agree
open Vllm.V1.Core.KVCacheCoordinator

/-- The two managers have the same tables. Entries with an empty table may differ, except in
a full attention group. -/
def SameTables (m m' : SingleTypeKVCacheManager) : Prop :=
  ∃ d, m' = { m with reqToBlocks := d } ∧
    (∀ requestId, (d.get? requestId).getD [] = m.table requestId) ∧
    (m.kvCacheSpec.isFullAttention = true → d = m.reqToBlocks)

/-- The answers are equal, the managers related and the pools equal. -/
def SameOutcome (x y : SingleTypeKVCacheManager × BlockPool) : Prop :=
  SameTables x.1 y.1 ∧ x.2 = y.2

/-! ### The methods of one manager -/

namespace SameTables

variable {m m' : SingleTypeKVCacheManager} {requestId : String}

theorem refl (m : SingleTypeKVCacheManager) : SameTables m m :=
  ⟨m.reqToBlocks, rfl, fun _ => rfl, fun _ => rfl⟩

theorem spec_eq (h : SameTables m m') : m'.kvCacheSpec = m.kvCacheSpec := by
  obtain ⟨d, rfl, -, -⟩ := h
  rfl

theorem table_eq (h : SameTables m m') (requestId : String) :
    m'.table requestId = m.table requestId := by
  obtain ⟨d, rfl, htable, -⟩ := h
  exact htable requestId

theorem setTable (h : SameTables m m') (requestId : String) (blocks : List BlockRef) :
    SameTables (m.setTable requestId blocks) (m'.setTable requestId blocks) := by
  obtain ⟨d, rfl, htable, hfull⟩ := h
  refine ⟨d.insert requestId blocks, rfl, ?_, fun hspec => ?_⟩
  · intro otherId
    show ((d.insert requestId blocks).get? otherId).getD [] =
      ((m.reqToBlocks.insert requestId blocks).get? otherId).getD []
    rw [PyDict.get?_insert, PyDict.get?_insert]
    split
    · rfl
    · exact htable otherId
  · exact congrArg (fun d => d.insert requestId blocks) (hfull hspec)

theorem reqBlocks (h : SameTables m m') (requestId : String) :
    SameTables (m.reqBlocks requestId).2 (m'.reqBlocks requestId).2 := by
  show SameTables (m.setTable requestId (m.table requestId))
    (m'.setTable requestId (m'.table requestId))
  rw [h.table_eq]
  exact h.setTable requestId (m.table requestId)

/-- An entry that is read for the first time shows in a full attention group only. -/
theorem of_reqBlocks (m : SingleTypeKVCacheManager) (requestId : String)
    (hfull : m.kvCacheSpec.isFullAttention = true → (m.reqBlocks requestId).2 = m) :
    SameTables m (m.reqBlocks requestId).2 :=
  ⟨m.reqToBlocks.insert requestId (m.table requestId), rfl,
    fun otherId => table_reqBlocks m requestId otherId,
    fun hspec => congrArg SingleTypeKVCacheManager.reqToBlocks (hfull hspec)⟩

/-- Writing the counters of cached blocks in both managers. -/
theorem withNumCachedBlock (h : SameTables m m') (counts : PyDict String Nat) :
    SameTables { m with numCachedBlock := counts } { m' with numCachedBlock := counts } := by
  obtain ⟨d, rfl, htable, hfull⟩ := h
  exact ⟨d, rfl, htable, hfull⟩

theorem getNumBlocksToAllocate (h : SameTables m m') (pool : BlockPool) (requestId : String)
    (numTokens : Int) (hit : List BlockRef) :
    (m.getNumBlocksToAllocate pool requestId numTokens hit).1 =
        (m'.getNumBlocksToAllocate pool requestId numTokens hit).1 ∧
      SameTables (m.getNumBlocksToAllocate pool requestId numTokens hit).2
        (m'.getNumBlocksToAllocate pool requestId numTokens hit).2 := by
  refine ⟨?_, h.reqBlocks requestId⟩
  have htable := h.table_eq requestId
  obtain ⟨d, rfl, -, -⟩ := h
  unfold SingleTypeKVCacheManager.getNumBlocksToAllocate SingleTypeKVCacheManager.reqBlocks
  dsimp only
  rw [htable]
  rfl

theorem saveNewComputedBlocks (h : SameTables m m') (requestId : String) (hit : List BlockRef) :
    Agree SameTables (m.saveNewComputedBlocks requestId hit)
      (m'.saveNewComputedBlocks requestId hit) := by
  have hspec := h.spec_eq
  have hcounts : m'.numCachedBlock = m.numCachedBlock := by
    obtain ⟨d, rfl, -, -⟩ := h
    rfl
  unfold SingleTypeKVCacheManager.saveNewComputedBlocks
  rw [hspec, hcounts]
  refine ite (fun _ => bind_same _ fun _ => h) (fun _ => ite (fun _ => ?_)
    (fun _ => bind_same _ fun _ => h))
  -- A new request: its table is read and then written.
  have htable : (m'.reqBlocks requestId).1 = (m.reqBlocks requestId).1 := h.table_eq requestId
  have hset := ((h.reqBlocks requestId).setTable requestId
    ((m.reqBlocks requestId).1 ++ hit)).withNumCachedBlock
      (m.numCachedBlock.insert requestId hit.length)
  show Agree SameTables
    (pyAssert (m.reqBlocks requestId).1.isEmpty "len(req_blocks) == 0" >>= fun _ =>
      .ok { (m.reqBlocks requestId).2.setTable requestId ((m.reqBlocks requestId).1 ++ hit) with
        numCachedBlock := m.numCachedBlock.insert requestId hit.length })
    (pyAssert (m'.reqBlocks requestId).1.isEmpty "len(req_blocks) == 0" >>= fun _ =>
      .ok { (m'.reqBlocks requestId).2.setTable requestId ((m'.reqBlocks requestId).1 ++ hit) with
        numCachedBlock := m'.numCachedBlock.insert requestId hit.length })
  rw [htable, hcounts]
  exact bind_same _ fun _ => hset

theorem allocateNewBlocks (h : SameTables m m') (pool : BlockPool) (requestId : String)
    (numTokens : Int) :
    Agree (fun x y => x.1 = y.1 ∧ SameOutcome x.2 y.2)
      (m.allocateNewBlocks pool requestId numTokens)
      (m'.allocateNewBlocks pool requestId numTokens) := by
  have hreq := h.reqBlocks requestId
  have htable : (m'.reqBlocks requestId).1 = (m.reqBlocks requestId).1 := h.table_eq requestId
  have hrequired : cdiv ((m'.reqBlocks requestId).2.addSpeculativeTokens numTokens)
        (m'.reqBlocks requestId).2.blockSize =
      cdiv ((m.reqBlocks requestId).2.addSpeculativeTokens numTokens)
        (m.reqBlocks requestId).2.blockSize := by
    obtain ⟨d, rfl, -, -⟩ := h
    rfl
  unfold SingleTypeKVCacheManager.allocateNewBlocks
  dsimp only
  rw [hrequired, htable]
  refine ite (fun _ => ⟨rfl, hreq, rfl⟩) (fun _ => ?_)
  refine bind_same _ fun x => ?_
  exact ⟨rfl, hreq.setTable requestId _, rfl⟩

theorem cacheBlocks (h : SameTables m m') (pool : BlockPool) (request : Request) (numTokens : Int) :
    Agree SameOutcome (m.cacheBlocks pool request numTokens)
      (m'.cacheBlocks pool request numTokens) := by
  have hreq := h.reqBlocks request.requestId
  have htable : (m'.reqBlocks request.requestId).1 = (m.reqBlocks request.requestId).1 :=
    h.table_eq request.requestId
  obtain ⟨d, rfl, hget, hfull⟩ := h
  unfold SingleTypeKVCacheManager.cacheBlocks
  dsimp only at htable ⊢
  refine ite (fun _ => rfl) (fun _ => ite (fun _ => ?_) (fun _ => ?_))
  · exact ⟨⟨d, rfl, hget, hfull⟩, rfl⟩
  · rw [htable]
    exact bind_same _ fun pool' => ⟨hreq.withNumCachedBlock _, rfl⟩

theorem free (h : SameTables m m') (pool : BlockPool) (requestId : String) :
    Agree SameOutcome (m.free pool requestId) (m'.free pool requestId) := by
  have htable := h.table_eq requestId
  obtain ⟨d, rfl, hget, hfull⟩ := h
  unfold SingleTypeKVCacheManager.free
  dsimp only
  rw [htable]
  refine bind_same _ fun pool' => ⟨?_, rfl⟩
  refine ⟨d.erase requestId, rfl, fun otherId => ?_, fun hspec =>
    congrArg (fun d => d.erase requestId) (hfull hspec)⟩
  show ((d.erase requestId).get? otherId).getD [] =
    ((m.reqToBlocks.erase requestId).get? otherId).getD []
  rw [PyDict.get?_erase, PyDict.get?_erase]
  split
  · rfl
  · exact hget otherId

theorem removeSkippedBlocks (h : SameTables m m') (pool : BlockPool) (requestId : String)
    (numComputedTokens : Int) :
    Agree SameOutcome (m.removeSkippedBlocks pool requestId numComputedTokens)
      (m'.removeSkippedBlocks pool requestId numComputedTokens) := by
  have hreq := h.reqBlocks requestId
  have htable : (m'.reqBlocks requestId).1 = (m.reqBlocks requestId).1 := h.table_eq requestId
  obtain ⟨d, rfl, hget, hfull⟩ := h
  unfold SingleTypeKVCacheManager.removeSkippedBlocks
  dsimp only at htable ⊢
  refine ite (fun _ => ⟨⟨d, rfl, hget, hfull⟩, rfl⟩) (fun _ => ?_)
  rw [htable]
  refine bind_same _ fun x => bind_same _ fun pool' => ?_
  exact ⟨hreq.setTable requestId x.1, rfl⟩

/-- The one method that counts entries is the one of the full attention managers. -/
theorem getNumCommonPrefixBlocks (h : SameTables m m') (pool : BlockPool)
    (runningRequestId : String) :
    (m.getNumCommonPrefixBlocks pool runningRequestId).1 =
        (m'.getNumCommonPrefixBlocks pool runningRequestId).1 ∧
      SameTables (m.getNumCommonPrefixBlocks pool runningRequestId).2
        (m'.getNumCommonPrefixBlocks pool runningRequestId).2 := by
  by_cases hspec : m.kvCacheSpec.isFullAttention = true
  · obtain ⟨d, rfl, -, hfull⟩ := h
    rw [hfull hspec]
    exact ⟨rfl, refl _⟩
  · unfold SingleTypeKVCacheManager.getNumCommonPrefixBlocks
    rw [h.spec_eq, if_neg hspec, if_neg hspec]
    exact ⟨rfl, h⟩

end SameTables

/-! ### The loops over the managers -/

section Loops
variable {ms ms' : List SingleTypeKVCacheManager}

theorem forManagers_agree
    {f : SingleTypeKVCacheManager → BlockPool →
      Except PyError (SingleTypeKVCacheManager × BlockPool)}
    (hf : ∀ {m m'}, SameTables m m' → ∀ pool, Agree SameOutcome (f m pool) (f m' pool))
    (h : List.Forall₂ SameTables ms ms') (pool : BlockPool) :
    Agree (fun x y => List.Forall₂ SameTables x.1 y.1 ∧ x.2 = y.2)
      (forManagers f ms pool) (forManagers f ms' pool) := by
  induction h generalizing pool with
  | nil => exact ⟨.nil, rfl⟩
  | cons hm _ ih =>
    refine (hf hm pool).bind ?_
    rintro ⟨m, pool₁⟩ ⟨m', pool₁'⟩ ⟨hm', rfl⟩
    refine (ih pool₁).bind ?_
    rintro ⟨ms, pool₂⟩ ⟨ms', pool₂'⟩ ⟨hms', rfl⟩
    exact ⟨.cons hm' hms', rfl⟩

theorem sumBlocksToAllocate_agree (pool : BlockPool) (requestId : String)
    (numTokens numEncoderTokens : Int) (h : List.Forall₂ SameTables ms ms')
    (hits : List (List BlockRef)) :
    Agree (fun x y => x.1 = y.1 ∧ List.Forall₂ SameTables x.2 y.2)
      (sumBlocksToAllocate pool requestId numTokens numEncoderTokens ms hits)
      (sumBlocksToAllocate pool requestId numTokens numEncoderTokens ms' hits) := by
  induction h generalizing hits with
  | nil => exact ⟨rfl, .nil⟩
  | @cons m m' ms ms' hm _ ih =>
    unfold sumBlocksToAllocate
    rw [hm.spec_eq]
    refine bind (R := fun x y => x.1 = y.1 ∧ SameTables x.2 y.2) ?_ ?_
    · refine ite (fun _ => hm.getNumBlocksToAllocate pool requestId _ _) (fun _ => ?_)
      cases hits with
      | nil => exact rfl
      | cons hit _ => exact hm.getNumBlocksToAllocate pool requestId _ _
    · rintro ⟨n, m⟩ ⟨n', m'⟩ ⟨rfl, hm'⟩
      refine (ih hits.tail).bind ?_
      rintro ⟨rest, ms⟩ ⟨rest', ms'⟩ ⟨rfl, hms'⟩
      exact ⟨rfl, .cons hm' hms'⟩

theorem saveAll_agree (requestId : String) (h : List.Forall₂ SameTables ms ms')
    (hits : List (List BlockRef)) :
    Agree (List.Forall₂ SameTables) (saveAll requestId ms hits) (saveAll requestId ms' hits) := by
  induction h generalizing hits with
  | nil => exact .nil
  | cons hm _ ih =>
    cases hits with
    | nil => exact rfl
    | cons hit hits =>
      refine (hm.saveNewComputedBlocks requestId hit).bind fun m m' hm' => ?_
      exact (ih hits).bind fun ms ms' hms' => .cons hm' hms'

theorem allocateAll_agree (requestId : String) (numTokens numEncoderTokens : Int)
    (h : List.Forall₂ SameTables ms ms') (pool : BlockPool) :
    Agree (fun x y => x.1 = y.1 ∧ List.Forall₂ SameTables x.2.1 y.2.1 ∧ x.2.2 = y.2.2)
      (allocateAll requestId numTokens numEncoderTokens ms pool)
      (allocateAll requestId numTokens numEncoderTokens ms' pool) := by
  induction h generalizing pool with
  | nil => exact ⟨rfl, .nil, rfl⟩
  | cons hm _ ih =>
    unfold allocateAll
    rw [hm.spec_eq]
    refine (hm.allocateNewBlocks pool requestId _).bind ?_
    rintro ⟨blocks, m, pool₁⟩ ⟨blocks', m', pool₁'⟩ ⟨hblocks, hm', hpool⟩
    dsimp only at hblocks hpool
    subst hblocks hpool
    refine (ih pool₁).bind ?_
    rintro ⟨rest, ms, pool₂⟩ ⟨rest', ms', pool₂'⟩ ⟨hrest, hms', hpool⟩
    dsimp only at hrest hpool
    subst hrest hpool
    exact ⟨rfl, .cons hm' hms', rfl⟩

theorem commonPrefixAll_agree (pool : BlockPool) (runningRequestId : String)
    (h : List.Forall₂ SameTables ms ms') :
    (commonPrefixAll pool runningRequestId ms).1 = (commonPrefixAll pool runningRequestId ms').1 ∧
      List.Forall₂ SameTables (commonPrefixAll pool runningRequestId ms).2
        (commonPrefixAll pool runningRequestId ms').2 := by
  induction h with
  | nil => exact ⟨rfl, .nil⟩
  | cons hm _ ih =>
    obtain ⟨hn, hm'⟩ := hm.getNumCommonPrefixBlocks pool runningRequestId
    unfold commonPrefixAll
    exact ⟨congrArg₂ List.cons hn ih.1, .cons hm' ih.2⟩

theorem map_table_eq (requestId : String) (h : List.Forall₂ SameTables ms ms') :
    ms'.map (fun m => m.table requestId) = ms.map fun m => m.table requestId := by
  induction h with
  | nil => rfl
  | cons hm _ ih => exact congrArg₂ List.cons (hm.table_eq requestId) ih

end Loops

/-! ### The coordinator -/

/-- Two coordinators whose managers are related and that are otherwise equal. -/
def SameCoordinator (c c' : KVCacheCoordinator) : Prop :=
  ∃ ms, c' = { c with singleTypeManagers := ms } ∧
    List.Forall₂ SameTables c.singleTypeManagers ms

namespace SameCoordinator

variable {c c' : KVCacheCoordinator}

theorem withPool (h : SameCoordinator c c') (pool : BlockPool) :
    SameCoordinator { c with blockPool := pool } { c' with blockPool := pool } := by
  obtain ⟨ms, rfl, hms⟩ := h
  exact ⟨ms, rfl, hms⟩

theorem withManagers (h : SameCoordinator c c')
    {f : SingleTypeKVCacheManager → BlockPool →
      Except PyError (SingleTypeKVCacheManager × BlockPool)}
    (hf : ∀ {m m'}, SameTables m m' → ∀ pool, Agree SameOutcome (f m pool) (f m' pool)) :
    Agree SameCoordinator (c.withManagers f) (c'.withManagers f) := by
  obtain ⟨ms, rfl, hms⟩ := h
  refine (forManagers_agree hf hms c.blockPool).bind ?_
  rintro ⟨ms1, pool⟩ ⟨ms₁', pool'⟩ ⟨hms1, rfl⟩
  exact ⟨ms₁', rfl, hms1⟩

theorem getNumBlocksToAllocate (h : SameCoordinator c c') (requestId : String)
    (numTokens : Int) (hits : List (List BlockRef)) (numEncoderTokens : Int) :
    Agree (SameAnswer SameCoordinator)
      (c.getNumBlocksToAllocate requestId numTokens hits numEncoderTokens)
      (c'.getNumBlocksToAllocate requestId numTokens hits numEncoderTokens) := by
  obtain ⟨ms, rfl, hms⟩ := h
  refine (sumBlocksToAllocate_agree c.blockPool requestId numTokens numEncoderTokens hms
    hits).bind ?_
  rintro ⟨n, ms1⟩ ⟨n', ms₁'⟩ ⟨hn, hms1⟩
  exact ⟨hn, ms₁', rfl, hms1⟩

theorem saveNewComputedBlocks (h : SameCoordinator c c') (requestId : String)
    (hits : List (List BlockRef)) :
    Agree SameCoordinator (c.saveNewComputedBlocks requestId hits)
      (c'.saveNewComputedBlocks requestId hits) := by
  obtain ⟨ms, rfl, hms⟩ := h
  exact (saveAll_agree requestId hms hits).bind fun ms1 ms₁' hms1 => ⟨ms₁', rfl, hms1⟩

theorem allocateNewBlocks (h : SameCoordinator c c') (requestId : String)
    (numTokens numEncoderTokens : Int) :
    Agree (SameAnswer SameCoordinator) (c.allocateNewBlocks requestId numTokens numEncoderTokens)
      (c'.allocateNewBlocks requestId numTokens numEncoderTokens) := by
  obtain ⟨ms, rfl, hms⟩ := h
  refine (allocateAll_agree requestId numTokens numEncoderTokens hms c.blockPool).bind ?_
  rintro ⟨blocks, ms1, pool⟩ ⟨blocks', ms₁', pool'⟩ ⟨hblocks, hms1, hpool⟩
  dsimp only at hpool
  subst hpool
  exact ⟨hblocks, ms₁', rfl, hms1⟩

theorem getNumCommonPrefixBlocks (h : SameCoordinator c c') (runningRequestId : String) :
    SameAnswer SameCoordinator (c.getNumCommonPrefixBlocks runningRequestId)
      (c'.getNumCommonPrefixBlocks runningRequestId) := by
  obtain ⟨ms, rfl, hms⟩ := h
  obtain ⟨hn, hms'⟩ := commonPrefixAll_agree c.blockPool runningRequestId hms
  have hzero : c.singleTypeManagers.map (fun _ => 0) = ms.map fun _ => 0 := by
    rw [List.map_const', List.map_const', hms.length_eq]
  unfold KVCacheCoordinator.getNumCommonPrefixBlocks
  dsimp only
  split
  · exact ⟨hzero, ms, rfl, hms⟩
  · exact ⟨hn, _, rfl, hms'⟩

theorem findLongestCacheHit (h : SameCoordinator c c') (blockHashes : List BlockHash)
    (maxCacheHitLength : Int) :
    c'.findLongestCacheHit blockHashes maxCacheHitLength =
      c.findLongestCacheHit blockHashes maxCacheHitLength := by
  obtain ⟨ms, rfl, hms⟩ := h
  have hnil : ms.map (fun _ => ([] : List BlockRef)) = c.singleTypeManagers.map fun _ => [] := by
    rw [List.map_const', List.map_const', hms.length_eq]
  unfold KVCacheCoordinator.findLongestCacheHit
  dsimp only
  rw [hnil]
  rfl

theorem getBlocks (h : SameCoordinator c c') (requestId : String) :
    c'.getBlocks requestId = c.getBlocks requestId := by
  obtain ⟨ms, rfl, hms⟩ := h
  exact map_table_eq requestId hms

end SameCoordinator

/-! ### The calls of the scheduler -/

/-- Two KV cache managers with related coordinators that are otherwise equal. -/
def SameManager (k k' : KVCacheManager) : Prop :=
  ∃ c, k' = { k with coordinator := c } ∧ SameCoordinator k.coordinator c


/-- The calls of `KVCacheManager`. -/
inductive ManagerCall where
  | getComputedBlocks (request : Request)
  | allocateSlots (request : Request) (numNewTokens numNewComputedTokens : Int)
      (newComputedBlocks : Option KVCacheBlocks) (numLookaheadTokens : Int)
      (delayCacheBlocks : Bool) (numEncoderTokens : Int)
  | free (request : Request)
  | evictBlocks (blockIds : List Nat)
  | resetPrefixCache
  | getNumCommonPrefixBlocks (runningRequestId : String)
  | takeEvents
  | getBlocks (requestId : String)
  | cacheBlocks (request : Request) (numComputedTokens : Int)

/-- What a call returns. -/
inductive ManagerAnswer where
  | done
  | hit (blocks : KVCacheBlocks) (numTokens : Int)
  | slots (blocks : Option KVCacheBlocks)
  | flag (ok : Bool)
  | common (numBlocks : List Nat)
  | events (events : List KVCacheEvent)
  | blocks (blocks : KVCacheBlocks)

/-- Executes a call. -/
def managerCall (k : KVCacheManager) :
    ManagerCall → Except PyError (ManagerAnswer × KVCacheManager)
  | .getComputedBlocks request => do
      let (blocks, numTokens) ← k.getComputedBlocks request
      return (.hit blocks numTokens, k)
  | .allocateSlots request numNewTokens numNewComputedTokens newComputedBlocks
      numLookaheadTokens delayCacheBlocks numEncoderTokens => do
      let (blocks, k) ← k.allocateSlots request numNewTokens numNewComputedTokens
        newComputedBlocks numLookaheadTokens delayCacheBlocks numEncoderTokens
      return (.slots blocks, k)
  | .free request => do
      let k ← k.free request
      return (.done, k)
  | .evictBlocks blockIds => do
      let k ← k.evictBlocks blockIds
      return (.done, k)
  | .resetPrefixCache => .ok (.flag k.resetPrefixCache.1, k.resetPrefixCache.2)
  | .getNumCommonPrefixBlocks runningRequestId =>
    .ok (.common (k.getNumCommonPrefixBlocks runningRequestId).1,
      (k.getNumCommonPrefixBlocks runningRequestId).2)
  | .takeEvents => .ok (.events k.takeEvents.1, k.takeEvents.2)
  | .getBlocks requestId => .ok (.blocks (k.getBlocks requestId), k)
  | .cacheBlocks request numComputedTokens => do
      let k ← k.cacheBlocks request numComputedTokens
      return (.done, k)

namespace SameManager

variable {k k' : KVCacheManager}

theorem emptyKvCacheBlocks_eq (h : SameManager k k') :
    k'.emptyKvCacheBlocks = k.emptyKvCacheBlocks := by
  obtain ⟨_, rfl, ms, rfl, hms⟩ := h
  show ms.map (fun _ => ([] : List BlockRef)) = k.coordinator.singleTypeManagers.map fun _ => []
  rw [List.map_const', List.map_const', hms.length_eq]

theorem getComputedBlocks (h : SameManager k k') (request : Request) :
    k'.getComputedBlocks request = k.getComputedBlocks request := by
  have hempty := h.emptyKvCacheBlocks_eq
  obtain ⟨c, rfl, hc⟩ := h
  unfold KVCacheManager.getComputedBlocks
  rw [hempty]
  dsimp only
  rw [hc.findLongestCacheHit]

theorem takeSlots (k : KVCacheManager) {c c' : KVCacheCoordinator} {k' : KVCacheManager}
    (hk : SameManager k k') (h : SameCoordinator c c') (request : Request)
    (numComputedTokens numNewTokens numTokensNeedSlot : Int) (hits : KVCacheBlocks)
    (delayCacheBlocks : Bool) (numEncoderTokens : Int) :
    Agree (SameAnswer SameManager)
      (k.takeSlots c request numComputedTokens numNewTokens numTokensNeedSlot hits
        delayCacheBlocks numEncoderTokens)
      (k'.takeSlots c' request numComputedTokens numNewTokens numTokensNeedSlot hits
        delayCacheBlocks numEncoderTokens) := by
  obtain ⟨_, rfl, -⟩ := hk
  have hpool : c'.blockPool = c.blockPool := by
    obtain ⟨ms, rfl, -⟩ := h
    rfl
  -- The prefix hit.
  have hcomputed : Agree SameCoordinator (k.takeComputedBlocks c request.requestId hits)
      (k.takeComputedBlocks c' request.requestId hits) := by
    unfold KVCacheManager.takeComputedBlocks
    rw [hpool]
    refine bind_same _ fun pool => ite (fun _ => h.withPool pool) (fun _ => ?_)
    exact (h.withPool pool).saveNewComputedBlocks request.requestId hits
  -- The new blocks.
  have hreserve : Agree (SameAnswer SameCoordinator)
      (k.reserveSlots c request.requestId numTokensNeedSlot hits numEncoderTokens)
      (k.reserveSlots c' request.requestId numTokensNeedSlot hits numEncoderTokens) :=
    hcomputed.bind fun c c' hc =>
      hc.allocateNewBlocks request.requestId numTokensNeedSlot numEncoderTokens
  refine hreserve.bind ?_
  rintro ⟨blocks, c1⟩ ⟨blocks', c₁'⟩ ⟨hblocks, hc1⟩
  dsimp only at hblocks
  subst hblocks
  refine ite (fun _ => ⟨rfl, c₁', rfl, hc1⟩) (fun _ => ?_)
  have hcache := hc1.withManagers (f := fun m pool => m.cacheBlocks pool request
    (min (numComputedTokens + numNewTokens) request.numTokens)) fun hm pool =>
      hm.cacheBlocks pool request _
  exact hcache.bind fun c2 c₂' hc2 => ⟨rfl, c₂', rfl, hc2⟩

theorem allocateSlots (h : SameManager k k') (request : Request)
    (numNewTokens numNewComputedTokens : Int) (newComputedBlocks : Option KVCacheBlocks)
    (numLookaheadTokens : Int) (delayCacheBlocks : Bool) (numEncoderTokens : Int) :
    Agree (SameAnswer SameManager)
      (k.allocateSlots request numNewTokens numNewComputedTokens newComputedBlocks
        numLookaheadTokens delayCacheBlocks numEncoderTokens)
      (k'.allocateSlots request numNewTokens numNewComputedTokens newComputedBlocks
        numLookaheadTokens delayCacheBlocks numEncoderTokens) := by
  have hempty := h.emptyKvCacheBlocks_eq
  obtain ⟨c, rfl, hc⟩ := h
  unfold KVCacheManager.allocateSlots
  rw [hempty]
  refine ite (fun _ => rfl) (fun _ => ?_)
  have hskip := hc.withManagers (f := fun m pool => m.removeSkippedBlocks pool
    request.requestId request.numComputedTokens) fun hm pool =>
      hm.removeSkippedBlocks pool request.requestId request.numComputedTokens
  refine hskip.bind fun c1 c₁' hc1 => ?_
  refine (hc1.getNumBlocksToAllocate request.requestId _ _ numEncoderTokens).bind ?_
  rintro ⟨n, c2⟩ ⟨n', c₂'⟩ ⟨hn, hc2⟩
  dsimp only at hn
  subst hn
  have hpool : c₂'.blockPool = c2.blockPool := by
    obtain ⟨ms, rfl, -⟩ := hc2
    rfl
  dsimp only
  rw [hpool]
  refine ite (fun _ => ⟨rfl, c₂', rfl, hc2⟩) (fun _ => ?_)
  refine (takeSlots k ⟨c, rfl, hc⟩ hc2 request _ numNewTokens _ _ delayCacheBlocks
    numEncoderTokens).bind ?_
  rintro ⟨blocks, k1⟩ ⟨blocks', k₁'⟩ ⟨hblocks, hk1⟩
  exact ⟨congrArg some hblocks, hk1⟩

/-- Every call answers alike and keeps the relation. -/
theorem managerCall (h : SameManager k k') (op : ManagerCall) :
    Agree (SameAnswer SameManager) (managerCall k op) (managerCall k' op) := by
  cases op with
  | getComputedBlocks request =>
    show Agree _ (k.getComputedBlocks request >>= _) (k'.getComputedBlocks request >>= _)
    rw [h.getComputedBlocks]
    exact bind_same _ fun _ => ⟨rfl, h⟩
  | allocateSlots request numNewTokens numNewComputedTokens newComputedBlocks
      numLookaheadTokens delayCacheBlocks numEncoderTokens =>
      refine (h.allocateSlots request numNewTokens numNewComputedTokens newComputedBlocks
        numLookaheadTokens delayCacheBlocks numEncoderTokens).bind ?_
      rintro ⟨blocks, k1⟩ ⟨blocks', k₁'⟩ ⟨hblocks, hk1⟩
      exact ⟨congrArg ManagerAnswer.slots hblocks, hk1⟩
  | free request =>
    obtain ⟨c, rfl, hc⟩ := h
    have hfree := hc.withManagers (f := fun m pool => m.free pool request.requestId)
      fun hm pool => hm.free pool request.requestId
    refine bind (R := SameManager) ?_ fun k1 k₁' hk1 => ⟨rfl, hk1⟩
    exact hfree.bind fun c1 c₁' hc1 => ⟨c₁', rfl, hc1⟩
  | evictBlocks blockIds =>
    obtain ⟨_, rfl, ms, rfl, hms⟩ := h
    refine bind (R := SameManager) ?_ fun k1 k₁' hk1 => ⟨rfl, hk1⟩
    exact bind_same _ fun pool => ⟨_, rfl, ms, rfl, hms⟩
  | resetPrefixCache =>
    obtain ⟨_, rfl, ms, rfl, hms⟩ := h
    exact ⟨rfl, _, rfl, ms, rfl, hms⟩
  | getNumCommonPrefixBlocks runningRequestId =>
    obtain ⟨c, rfl, hc⟩ := h
    obtain ⟨hn, hc'⟩ := hc.getNumCommonPrefixBlocks runningRequestId
    exact ⟨congrArg ManagerAnswer.common hn, _, rfl, hc'⟩
  | takeEvents =>
    obtain ⟨_, rfl, ms, rfl, hms⟩ := h
    exact ⟨rfl, _, rfl, ms, rfl, hms⟩
  | getBlocks requestId =>
    have hblocks : k'.getBlocks requestId = k.getBlocks requestId := by
      obtain ⟨c, rfl, hc⟩ := h
      exact hc.getBlocks requestId
    exact ⟨congrArg ManagerAnswer.blocks hblocks.symm, h⟩
  | cacheBlocks request numComputedTokens =>
    refine bind (R := SameManager) ?_ fun k1 k₁' hk1 => ⟨rfl, hk1⟩
    obtain ⟨c, rfl, hc⟩ := h
    refine ite (fun _ => ?_) (fun _ => ⟨c, rfl, hc⟩)
    have hcache := hc.withManagers (f := fun m pool => m.cacheBlocks pool request
      numComputedTokens) fun hm pool => hm.cacheBlocks pool request numComputedTokens
    exact hcache.bind fun c1 c₁' hc1 => ⟨c₁', rfl, hc1⟩

end SameManager

/-- No sequence of calls tells the two managers apart. -/
theorem transcript_of_sameTables {k : KVCacheManager} {ms : List SingleTypeKVCacheManager}
    (h : List.Forall₂ SameTables k.coordinator.singleTypeManagers ms)
    (calls : List ManagerCall) :
    transcript managerCall k calls = transcript managerCall
        { k with coordinator := { k.coordinator with singleTypeManagers := ms } } calls := by
  have hsame : SameManager k
      { k with coordinator := { k.coordinator with singleTypeManagers := ms } } :=
    ⟨_, rfl, ms, rfl, h⟩
  exact transcript_eq (fun k k' op (hk : SameManager k k') => hk.managerCall op) hsame calls

end Vllm.Proofs.Core
