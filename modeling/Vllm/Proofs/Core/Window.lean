import Vllm.Proofs.Core.PoolRun
import Vllm.Proofs.Core.Slots
import Vllm.Proofs.Core.TableStep

/-!
# `Vllm.Proofs.Core.Window`: freeing the blocks that a window has passed

One request runs through one group with a sliding window or with chunked-local attention.
Around the table of the request the run keeps what the scheduler and the worker know: the
number of computed tokens, the steps whose output is still to come, and a record of the blocks
that entered the table, of those that were handed to `free_blocks` and of the indices that
`remove_skipped_blocks` overwrote.

* `WindowOp`, `windowStep`: the run. A step takes its tokens from `num_computed_tokens` on; an
  output with rejected draft tokens moves that number and the steps in flight back.
* `WindowInv`: the invariant, with `windowInv_init` and `windowInv_step`.
* `windowSafe_of_run`: in every run that allocates only while no draft token is in flight, and
  that never caches the null block, the table keeps its shape, every block leaves it once, and
  no block is dropped that a later token attends to.
* `window_dropped_too_early`: with a draft token in flight, one is.
-/

set_option autoImplicit false

namespace Vllm.Proofs.Core

open Vllm.Lib Vllm.V1 Vllm.V1.Core List
open Vllm.V1.Core.BlockPool

/-! ### The run of a request -/

/-- A scheduled step: its first position, its tokens, how many of them are drafts, and the
indices that were dropped from the table when it was scheduled. -/
structure WindowStep where
  start : Int
  numTokens : Nat
  numDrafts : Nat
  nulled : List Nat
deriving DecidableEq

/-- The state of the run. -/
structure WindowState where
  c : KVCacheCoordinator
  numComputedTokens : Int := 0
  /-- The indices that `remove_skipped_blocks` overwrote since the table was last empty. -/
  nulled : List Nat := []
  /-- The steps whose output is still to come, oldest first. -/
  inFlight : List WindowStep := []
  /-- The blocks that entered the table. -/
  entered : List BlockRef := []
  /-- The blocks of the table that were handed to `free_blocks`. -/
  freed : List BlockRef := []

/-- What happens to the request. `allocate`, `removeSkippedBlocks` and `takeHit` are the parts
of `allocate_slots`; `free` is a preemption or the end of the request. -/
inductive WindowOp where
  | removeSkippedBlocks
  | takeHit (newComputedBlocks : List (List BlockRef)) (numHitTokens : Nat)
  | allocate (numNewTokens numDrafts : Nat) (numTokens : Int)
  | cacheBlocks (request : Request) (numTokens : Int)
  | update (numRejected : Nat)
  | free
  | other (op : KVOp)

/-- Null blocks and then blocks with a hash. -/
def HitShape (pool : BlockPool) (hit : List BlockRef) : Prop :=
  ∃ a X, hit = List.replicate a pool.nullBlock ++ X ∧ ∀ b ∈ X, (hashOf pool b).isSome = true

/-- The shape of a hit, in a form that can be checked. -/
theorem hitShape_iff (pool : BlockPool) (hit : List BlockRef) : HitShape pool hit ↔
      ∀ b ∈ hit.dropWhile fun b => b = pool.nullBlock, (hashOf pool b).isSome = true := by
  constructor
  · rintro ⟨a, X, rfl, hX⟩ b hb
    refine hX b ?_
    rw [dropWhile_append_of_pos (by simp)] at hb
    exact (dropWhile_sublist _).subset hb
  · intro h
    refine ⟨(hit.takeWhile fun b => b = pool.nullBlock).length, _, ?_, h⟩
    have hnull : ∀ b ∈ hit.takeWhile fun b => b = pool.nullBlock, b = pool.nullBlock :=
      fun b hb => of_decide_eq_true (all_eq_true.mp all_takeWhile b hb)
    rw [← eq_replicate_of_mem hnull, takeWhile_append_dropWhile]

section Run
variable (group : Nat) (requestId : String)

/-- The table of the request in the group. -/
def groupTable (c : KVCacheCoordinator) : List BlockRef :=
  match c.singleTypeManagers[group]? with
  | none => []
  | some m => m.table requestId

/-- What `remove_skipped_blocks` hands to `free_blocks`. -/
def removedBlocks (c : KVCacheCoordinator) (numComputedTokens : Int) : List BlockRef :=
  match c.singleTypeManagers[group]? with
  | none => []
  | some m =>
    if m.getNumSkippedTokens numComputedTokens ≤ 0 then []
    else
      match SingleTypeKVCacheManager.removeSkippedBlocksLoop m.nullBlock
          (Int.fdiv (m.getNumSkippedTokens numComputedTokens) m.blockSize).toNat
          (m.table requestId) [] with
      | .ok (_, removed) => removed
      | .error _ => []

/-- The indices at which two tables differ. -/
def replacedIndices (before after : List BlockRef) : List Nat :=
  (List.range before.length).filter fun j => before[j]? ≠ after[j]?

/-- The operation of the managers behind an event, if there is one. -/
def kvOpOf (s : WindowState) : WindowOp → Option KVOp
  | .removeSkippedBlocks => some (.removeSkippedBlocks group requestId s.numComputedTokens)
  | .takeHit newComputedBlocks _ =>
    some (.allocateNewComputedBlocks requestId newComputedBlocks)
  | .allocate _ _ numTokens => some (.allocateNewBlocks group requestId numTokens)
  | .cacheBlocks request numTokens => some (.cacheBlocks group request numTokens)
  | .update _ => none
  | .free => some (.free group requestId)
  | .other op => some op

/-- The records of the run after an event that left the coordinator in the state `c`. -/
def advance (s : WindowState) (c : KVCacheCoordinator) : WindowOp → WindowState
  | .removeSkippedBlocks => { s with
      c := c
      nulled := s.nulled ++
        replacedIndices (groupTable group requestId s.c) (groupTable group requestId c)
      freed := s.freed ++ removedBlocks group requestId s.c s.numComputedTokens }
  | .takeHit newComputedBlocks numHitTokens => { s with
      c := c
      numComputedTokens := numHitTokens
      entered := s.entered ++ (newComputedBlocks[group]?).getD [] }
  | .allocate numNewTokens numDrafts _ => { s with
      c := c
      numComputedTokens := s.numComputedTokens + numNewTokens
      inFlight := s.inFlight ++ [{
        start := s.numComputedTokens
        numTokens := numNewTokens
        numDrafts := numDrafts
        nulled := s.nulled }]
      entered := s.entered ++
        (groupTable group requestId c).drop (groupTable group requestId s.c).length }
  | .cacheBlocks .. => { s with c := c }
  | .update numRejected => { s with
      c := c
      -- the worker computes the later steps from the accepted tokens on
      inFlight := s.inFlight.tail.map fun st => { st with start := st.start - numRejected }
      numComputedTokens := if 0 < s.numComputedTokens then s.numComputedTokens - numRejected
        else s.numComputedTokens }
  | .free => { s with
      c := c
      numComputedTokens := 0
      nulled := []
      freed := s.freed ++
        (groupTable group requestId s.c).reverse.filter fun b => b ≠ s.c.blockPool.nullBlock }
  | .other _ => { s with c := c }

/-- Runs one event. -/
def windowStep (s : WindowState) (op : WindowOp) : Except PyError WindowState := do
  let c ← (match kvOpOf group requestId s op with
    | none => .ok s.c
    | some kvOp => kvStep s.c kvOp)
  return advance group requestId s c op

/-- What the callers promise. A hit is what `find_longest_cache_hit` returns, for a request
without blocks; the slots of a step cover its tokens; an output rejects no more than the
drafts of the oldest step; the other operations are about other tables. -/
def WindowIssued (s : WindowState) : WindowOp → Prop
  | .removeSkippedBlocks => True
  | .takeHit newComputedBlocks numHitTokens =>
    KVOpIssued s.c (.allocateNewComputedBlocks requestId newComputedBlocks) ∧
    groupTable group requestId s.c = [] ∧
    ∃ hit ∈ newComputedBlocks[group]?, HitShape s.c.blockPool hit ∧
      ∃ m ∈ s.c.singleTypeManagers[group]?, numHitTokens ≤ hit.length * (m.blockSize : Nat)
  | .allocate numNewTokens numDrafts numTokens =>
    numDrafts ≤ numNewTokens ∧ s.numComputedTokens + numNewTokens ≤ numTokens
  | .cacheBlocks request _ => request.requestId = requestId
  | .update numRejected => ∃ st ∈ s.inFlight.head?, numRejected ≤ st.numDrafts
  | .free => True
  | .other op => KVOpIssued s.c op ∧ Elsewhere group requestId op

/-- No draft token of the request is in flight when `allocate_slots` is called for it. -/
def NoDraftsInFlight (s : WindowState) : WindowOp → Prop
  | .removeSkippedBlocks | .takeHit .. | .allocate .. => ∀ st ∈ s.inFlight, st.numDrafts = 0
  | _ => True

/-- The operation lists no block twice in a hit and caches no null block. -/
def KVOpClean (s : WindowState) (op : WindowOp) : Prop :=
  ∀ kvOp ∈ kvOpOf group requestId s op, HitDistinct s.c kvOp ∧ CachesNoNull s.c kvOp

instance (pool : BlockPool) (hit : List BlockRef) : Decidable (HitShape pool hit) :=
  decidable_of_iff (∀ b ∈ hit.dropWhile fun b => b = pool.nullBlock, (hashOf pool b).isSome = true)
    (hitShape_iff pool hit).symm

instance (s : WindowState) : (op : WindowOp) → Decidable (WindowIssued group requestId s op)
  | .removeSkippedBlocks => isTrue trivial
  | .takeHit newComputedBlocks numHitTokens =>
    inferInstanceAs (Decidable (
      KVOpIssued s.c (.allocateNewComputedBlocks requestId newComputedBlocks) ∧
      groupTable group requestId s.c = [] ∧
      ∃ hit ∈ newComputedBlocks[group]?, HitShape s.c.blockPool hit ∧
        ∃ m ∈ s.c.singleTypeManagers[group]?,
          numHitTokens ≤ hit.length * (m.blockSize : Nat)))
  | .allocate numNewTokens numDrafts numTokens =>
    inferInstanceAs (Decidable (numDrafts ≤ numNewTokens ∧
      s.numComputedTokens + numNewTokens ≤ numTokens))
  | .cacheBlocks request _ => inferInstanceAs (Decidable (request.requestId = requestId))
  | .update numRejected =>
    inferInstanceAs (Decidable (∃ st ∈ s.inFlight.head?, numRejected ≤ st.numDrafts))
  | .free => isTrue trivial
  | .other op => inferInstanceAs (Decidable (KVOpIssued s.c op ∧ Elsewhere group requestId op))

instance (s : WindowState) : (op : WindowOp) → Decidable (NoDraftsInFlight s op)
  | .removeSkippedBlocks | .takeHit .. | .allocate .. =>
    inferInstanceAs (Decidable (∀ st ∈ s.inFlight, st.numDrafts = 0))
  | .cacheBlocks .. | .update _ | .free | .other _ => isTrue trivial

instance (s : WindowState) (op : WindowOp) : Decidable (KVOpClean group requestId s op) :=
  inferInstanceAs (Decidable (∀ kvOp ∈ kvOpOf group requestId s op,
    HitDistinct s.c kvOp ∧ CachesNoNull s.c kvOp))

end Run

/-! ### The window of a token -/

/-- The first position that the token at position `q` attends to. -/
def windowStart : KVCacheSpec → Int → Int
  | .slidingWindow _ window, q => q - window + 1
  | .chunkedLocalAttention _ attentionChunkSize, q =>
    Int.fdiv q attentionChunkSize * attentionChunkSize
  | _, _ => 0

/-- The token at position `q` attends to position `p`. -/
def InWindow (spec : KVCacheSpec) (q p : Int) : Prop := windowStart spec q ≤ p ∧ p ≤ q

theorem getNumSkippedTokens_eq (m : SingleTypeKVCacheManager) (q : Int) :
    m.getNumSkippedTokens q = windowStart m.kvCacheSpec q := by
  unfold SingleTypeKVCacheManager.getNumSkippedTokens windowStart
  cases m.kvCacheSpec <;> rfl

theorem windowStart_mono (spec : KVCacheSpec) {q q' : Int} (h : q ≤ q') :
    windowStart spec q ≤ windowStart spec q' := by
  cases spec with
  | slidingWindow _ window =>
    show q - window + 1 ≤ q' - window + 1
    omega
  | chunkedLocalAttention _ chunk =>
    have hc : (0 : Int) < (chunk : Nat) := by exact_mod_cast chunk.pos
    show Int.fdiv q chunk * chunk ≤ Int.fdiv q' chunk * chunk
    rw [Int.fdiv_eq_ediv_of_nonneg _ hc.le, Int.fdiv_eq_ediv_of_nonneg _ hc.le]
    exact Int.mul_le_mul_of_nonneg_right (Int.ediv_le_ediv hc h) hc.le
  | fullAttention _ => exact Int.le_refl _
  | mlaAttention _ => exact Int.le_refl _
  | mamba _ _ => exact Int.le_refl _
  | crossAttention _ => exact Int.le_refl _

/-- The blocks with these indices lie before the window of the token at position `q`, and so
before the windows of all later tokens. -/
def Passed (spec : KVCacheSpec) (B : ℕ+) (nulled : List Nat) (q : Int) : Prop :=
  ∀ j ∈ nulled, ((j : Int) + 1) * (B : Nat) ≤ windowStart spec q

theorem Passed.mono {spec : KVCacheSpec} {B : ℕ+} {nulled : List Nat} {q q' : Int}
    (h : Passed spec B nulled q) (hle : q ≤ q') : Passed spec B nulled q' :=
  fun j hj => (h j hj).trans (windowStart_mono spec hle)

/-- The steps in flight, when the ones before them still have to give up `debt` drafts. -/
def StepsPassed (spec : KVCacheSpec) (B : ℕ+) : Int → List WindowStep → Prop
  | _, [] => True
  | debt, st :: rest =>
    Passed spec B st.nulled (st.start - debt) ∧ StepsPassed spec B (debt + st.numDrafts) rest

/-- The draft tokens in flight. -/
def draftsInFlight (steps : List WindowStep) : Int :=
  (steps.map fun st => (st.numDrafts : Int)).sum

section Steps
variable {spec : KVCacheSpec} {B : ℕ+}

variable {steps : List WindowStep}

theorem stepsPassed_concat {debt : Int} {st : WindowStep} (h : StepsPassed spec B debt steps)
    (hst : Passed spec B st.nulled (st.start - (debt + draftsInFlight steps))) :
    StepsPassed spec B debt (steps ++ [st]) := by
  induction steps generalizing debt with
  | nil =>
    refine ⟨?_, trivial⟩
    simpa [draftsInFlight] using hst
  | cons s steps ih =>
    refine ⟨h.1, ih h.2 ?_⟩
    have hsum : draftsInFlight (s :: steps) = s.numDrafts + draftsInFlight steps := by
      simp [draftsInFlight]
    rw [hsum, ← Int.add_assoc] at hst
    exact hst

/-- An output moves the later steps back by no more than the drafts it settles. -/
theorem stepsPassed_shift {debt drafts rejected : Int} (hle : rejected ≤ drafts)
    (h : StepsPassed spec B (debt + drafts) steps) :
    StepsPassed spec B debt (steps.map fun st => { st with start := st.start - rejected }) := by
  induction steps generalizing debt with
  | nil => trivial
  | cons st steps ih =>
    refine ⟨h.1.mono ?_, ih ?_⟩
    · show st.start - (debt + drafts) ≤ st.start - rejected - debt
      omega
    · have hcomm : debt + drafts + st.numDrafts = debt + st.numDrafts + drafts := by omega
      exact hcomm ▸ h.2

theorem draftsInFlight_map_shift (rejected : Int) (steps : List WindowStep) :
    draftsInFlight (steps.map fun st => { st with start := st.start - rejected }) =
      draftsInFlight steps := by
  unfold draftsInFlight
  rw [map_map]
  rfl

theorem draftsInFlight_concat (steps : List WindowStep) (st : WindowStep) :
    draftsInFlight (steps ++ [st]) = draftsInFlight steps + st.numDrafts := by
  simp [draftsInFlight]

theorem draftsInFlight_eq_zero (h : ∀ st ∈ steps, st.numDrafts = 0) : draftsInFlight steps = 0 := by
  unfold draftsInFlight
  rw [map_congr_left (fun st hst => by rw [h st hst])]
  simp

end Steps

/-! ### The shape of the table -/

/-- Null blocks and then other blocks. -/
def NullThenReal (null : BlockRef) (table : List BlockRef) : Prop :=
  ∃ a X, table = List.replicate a null ++ X ∧ null ∉ X

variable {null : BlockRef} {table : List BlockRef}

theorem NullThenReal.append {X : List BlockRef} (h : NullThenReal null table) (hX : null ∉ X) :
    NullThenReal null (table ++ X) := by
  obtain ⟨a, Y, rfl, hY⟩ := h
  refine ⟨a, Y ++ X, by simp, fun hmem => ?_⟩
  rcases mem_append.mp hmem with hmem | hmem
  · exact hY hmem
  · exact hX hmem

/-- A hit has the shape when the null block has no hash. -/
theorem HitShape.nullThenReal {pool : BlockPool} {hit : List BlockRef}
    (h : HitShape pool hit) (hnull : hashOf pool pool.nullBlock = none) :
    NullThenReal pool.nullBlock hit := by
  obtain ⟨a, X, rfl, hX⟩ := h
  refine ⟨a, X, rfl, fun hmem => ?_⟩
  have hsome := hX _ hmem
  rw [hnull] at hsome
  cases hsome

/-- Before a null block there are null blocks only. -/
theorem NullThenReal.eq_null_of_before {l r : List BlockRef} (h : NullThenReal null table)
    (hsplit : table = l ++ null :: r) : ∀ b ∈ l, b = null := by
  obtain ⟨a, X, rfl, hX⟩ := h
  rcases append_eq_append_iff.mp hsplit with ⟨as, -, hrest⟩ | ⟨bs, hrep, -⟩
  · -- The null block would be among the other blocks.
    exact absurd (hrest ▸ by simp) hX
  · intro b hb
    exact eq_of_mem_replicate (hrep ▸ mem_append_left bs hb)

variable {i : Nat} {blocks blocks' P Y Q : List BlockRef}

/-- The backward scan that stops at the first null block keeps the shape. -/
theorem Skipped.nullThenReal (h : Skipped null i blocks blocks' P Y Q)
    (hshape : NullThenReal null blocks) :
    NullThenReal null blocks' := by
  cases Y with
  | nil =>
    have hsame : blocks' = blocks := by
      rw [h.result, h.split]
      simp
    exact hsame ▸ hshape
  | cons y Y =>
    have hP : ∀ b ∈ P, b = null := by
      rcases h.stop with rfl | hlast
      · simp
      · obtain ⟨P₀, rfl⟩ := List.getLast?_eq_some_iff.mp hlast
        have hbefore := hshape.eq_null_of_before (l := P₀) (r := y :: Y ++ Q)
          (by rw [h.split]; simp)
        intro b hb
        rcases mem_append.mp hb with hb | hb
        · exact hbefore b hb
        · exact mem_singleton.mp hb
    refine ⟨P.length + (y :: Y).length, Q, ?_, fun hmem => ?_⟩
    · rw [h.result, eq_replicate_of_mem hP, length_replicate,
        replicate_append_replicate]
    · -- The removed blocks would lie before a null block.
      obtain ⟨Q₁, Q₂, rfl⟩ := append_of_mem hmem
      have hbefore := hshape.eq_null_of_before (l := P ++ y :: Y ++ Q₁) (r := Q₂)
        (by rw [h.split]; simp)
      exact h.ne_null y (by simp) (hbefore y (by simp))

/-- The scan changes the table below the number of skipped blocks only. -/
theorem Skipped.lt_of_ne (h : Skipped null i blocks blocks' P Y Q) {j : Nat}
    (hne : blocks[j]? ≠ blocks'[j]?) :
    j < i := by
  by_contra hge
  apply hne
  rw [h.split, h.result]
  have hlen := h.length_eq
  rw [length_append] at hlen
  rw [List.getElem?_append_right (by simp; omega), List.getElem?_append_right (by simp; omega)]
  simp

theorem Skipped.length_result (h : Skipped null i blocks blocks' P Y Q) :
    blocks'.length = blocks.length := by
  rw [h.split, h.result]
  simp

/-! ### The invariant -/

/-- The invariant of the run, for a group with the spec `spec` and the block size `B`. -/
structure WindowInv (group : Nat) (requestId : String) (spec : KVCacheSpec) (B : ℕ+)
    (s : WindowState) : Prop where
  coord : CoordInv s.c
  nullHash : hashOf s.c.blockPool s.c.blockPool.nullBlock = none
  manager : ∃ m, s.c.singleTypeManagers[group]? = some m ∧ m.kvCacheSpec = spec ∧ m.blockSize = B
  shape : NullThenReal s.c.blockPool.nullBlock (groupTable group requestId s.c)
  covered : s.numComputedTokens ≤ (groupTable group requestId s.c).length * (B : Nat)
  bounded : ∀ j ∈ s.nulled, j < (groupTable group requestId s.c).length
  conserved : (s.entered.filter fun b => b ≠ s.c.blockPool.nullBlock).Perm
    (s.freed ++ (groupTable group requestId s.c).filter fun b => b ≠ s.c.blockPool.nullBlock)
  window : Passed spec B s.nulled (s.numComputedTokens - draftsInFlight s.inFlight)
  steps : StepsPassed spec B 0 s.inFlight

variable {c : KVCacheCoordinator} {m : SingleTypeKVCacheManager}

theorem groupTable_eq {group : Nat} (requestId : String)
    (h : c.singleTypeManagers[group]? = some m) :
    groupTable group requestId c = m.table requestId := by
  unfold groupTable
  rw [h]

theorem cdiv_le_iff {a n : Int} (B : ℕ+) : cdiv a (B : Nat) ≤ n ↔ a ≤ n * (B : Nat) := by
  have hB : (0 : Int) < (B : Nat) := by exact_mod_cast B.pos
  have hdiv : cdiv a (B : Nat) = -((-a) / (B : Nat)) := by
    unfold cdiv
    rw [← Int.neg_fdiv_neg, Int.neg_neg, Int.fdiv_eq_ediv_of_nonneg _ hB.le]
  rw [hdiv]
  constructor
  · intro h
    have hle : -n ≤ (-a) / (B : Nat) := by omega
    have hmul := (Int.le_ediv_iff_mul_le hB).mp hle
    rw [Int.neg_mul] at hmul
    omega
  · intro h
    have hle : -n ≤ (-a) / (B : Nat) := by
      apply (Int.le_ediv_iff_mul_le hB).mpr
      rw [Int.neg_mul]
      omega
    omega

theorem windowInv_init {group : Nat} {requestId : String} {numBlocks : Nat}
    {groups : List KVCacheSpec} {maxModelLen : Nat} {eagle caching events ints : Bool}
    {dcp pcp : ℕ+} {hashBlockSize : Nat}
    (h : KVCacheCoordinator.getKvCacheCoordinator numBlocks groups maxModelLen eagle caching events
      ints dcp pcp hashBlockSize = .ok c)
    (hm : c.singleTypeManagers[group]? = some m) :
    WindowInv group requestId m.kvCacheSpec m.blockSize { c := c } := by
  obtain ⟨hpool, hms, -⟩ := getKvCacheCoordinator_eq_ok h
  obtain ⟨hall, -⟩ := initManagers_spec c.blockPool dcp pcp 0 groups
  rw [← hms] at hall
  have htable : groupTable group requestId c = [] := by
    rw [groupTable_eq requestId hm]
    unfold SingleTypeKVCacheManager.table
    rw [(hall m (mem_of_getElem? hm)).2]
    rfl
  constructor
  case coord => exact tableInv_init h
  case nullHash => exact hashOf_init hpool _
  case manager => exact ⟨m, hm, rfl, rfl⟩
  case shape =>
    rw [htable]
    exact ⟨0, [], rfl, by simp⟩
  case covered => simp [htable]
  case bounded => simp
  case conserved => simp [htable]
  case window => simp [Passed]
  case steps => trivial

section Step
variable {group : Nat} {requestId : String} {spec : KVCacheSpec} {B : ℕ+}
  {s : WindowState} {c' : KVCacheCoordinator}

/-- What every operation of the managers keeps. -/
theorem WindowInv.kvStep (h : WindowInv group requestId spec B s) (op : KVOp)
    (hi : KVOpIssued s.c op) (hclean : HitDistinct s.c op ∧ CachesNoNull s.c op)
    (hstep : kvStep s.c op = .ok c') :
    CoordInv c' ∧ c'.blockPool.nullBlock = s.c.blockPool.nullBlock ∧
      hashOf c'.blockPool c'.blockPool.nullBlock = none := by
  obtain ⟨hcoord, hnull, hkeep⟩ := tableInv_step h.coord hi hclean.1 hstep
  exact ⟨hcoord, hnull, hnull ▸ hkeep hclean.2 h.nullHash⟩

variable {m : SingleTypeKVCacheManager}

/-- An operation that leaves the table and the records alone. -/
theorem WindowInv.of_same_table {op : KVOp} {m' : SingleTypeKVCacheManager}
    (h : WindowInv group requestId spec B s) (hi : KVOpIssued s.c op)
    (hclean : HitDistinct s.c op ∧ CachesNoNull s.c op) (hstep : Core.kvStep s.c op = .ok c')
    (hm : s.c.singleTypeManagers[group]? = some m) (hm' : c'.singleTypeManagers[group]? = some m')
    (hspec : KeepsSpec m m') (htable : m'.table requestId = m.table requestId) :
    WindowInv group requestId spec B { s with c := c' } := by
  obtain ⟨hcoord, hnull, hhash⟩ := h.kvStep op hi hclean hstep
  obtain ⟨m1, hm1, hs, hb⟩ := h.manager
  cases hm1.symm.trans hm
  have hsame : groupTable group requestId c' = groupTable group requestId s.c := by
    rw [groupTable_eq requestId hm', groupTable_eq requestId hm, htable]
  exact { h with
    coord := hcoord
    nullHash := hhash
    manager := ⟨m', hm', hspec.kvCacheSpec.trans hs, hspec.blockSize.trans hb⟩
    shape := by
      show NullThenReal c'.blockPool.nullBlock (groupTable group requestId c')
      rw [hsame, hnull]
      exact h.shape
    covered := by
      show s.numComputedTokens ≤ (groupTable group requestId c').length * (B : Nat)
      rw [hsame]
      exact h.covered
    bounded := by
      show ∀ j ∈ s.nulled, j < (groupTable group requestId c').length
      rw [hsame]
      exact h.bounded
    conserved := by
      show (s.entered.filter fun b => b ≠ c'.blockPool.nullBlock).Perm
        (s.freed ++ (groupTable group requestId c').filter fun b => b ≠ c'.blockPool.nullBlock)
      rw [hsame, hnull]
      exact h.conserved }

/-- `remove_skipped_blocks` in the group: the scan starts below a bound that the window of the
next token has passed. -/
theorem removeSkippedBlocks_group {numComputedTokens : Int}
    (hm : s.c.singleTypeManagers[group]? = some m)
    (hstep : kvStep s.c (.removeSkippedBlocks group requestId numComputedTokens) = .ok c') :
    ∃ m', c'.singleTypeManagers[group]? = some m' ∧ KeepsSpec m m' ∧ ∃ i P Y Q,
      Skipped m.nullBlock i (groupTable group requestId s.c) (groupTable group requestId c') P Y Q ∧
      removedBlocks group requestId s.c numComputedTokens = Y.reverse ∧
      ∀ j < i, ((j : Int) + 1) * (m.blockSize : Nat) ≤
        windowStart m.kvCacheSpec numComputedTokens := by
  unfold kvStep at hstep
  rcases onManager_getElem? hstep hm with ⟨-, m', hf, hm'⟩ | ⟨hne, -⟩
  · obtain ⟨hspec, hcase, -⟩ := removeSkippedBlocks_tables hf
    refine ⟨m', hm', hspec, ?_⟩
    rw [groupTable_eq requestId hm, groupTable_eq requestId hm']
    rcases hcase with ⟨hle, htable⟩ | ⟨hpos, P, Y, Q, hloop, hsk⟩
    · refine ⟨0, [], [], m.table requestId, ?_, ?_, fun j hj => absurd hj (Nat.not_lt_zero j)⟩
      · exact ⟨rfl, rfl, by simp [htable], by simp, .inl rfl⟩
      · unfold removedBlocks
        rw [hm]
        dsimp only
        rw [if_pos hle]
        rfl
    · refine ⟨_, P, Y, Q, hsk, ?_, fun j hj => ?_⟩
      · unfold removedBlocks
        rw [hm]
        dsimp only
        rw [if_neg (Int.not_le.mpr hpos), hloop]
      · have hB : (0 : Int) < (m.blockSize : Nat) := by exact_mod_cast m.blockSize.pos
        rw [← getNumSkippedTokens_eq]
        rw [Int.fdiv_eq_ediv_of_nonneg _ hB.le] at hj
        exact (Int.le_ediv_iff_mul_le hB).mp (by omega)
  · exact absurd rfl hne

/-- `allocate_new_blocks` in the group: the new blocks come from the free list, where the null
block is not, and the table covers the tokens. -/
theorem allocateNewBlocks_group {numTokens : Int} (hcoord : CoordInv s.c)
    (hm : s.c.singleTypeManagers[group]? = some m)
    (hstep : kvStep s.c (.allocateNewBlocks group requestId numTokens) = .ok c') :
    ∃ m', c'.singleTypeManagers[group]? = some m' ∧ KeepsSpec m m' ∧ ∃ X,
      groupTable group requestId c' = groupTable group requestId s.c ++ X ∧
      s.c.blockPool.nullBlock ∉ X ∧
      numTokens ≤ (groupTable group requestId c').length * (m.blockSize : Nat) := by
  obtain ⟨L, hL⟩ := hcoord
  unfold kvStep at hstep
  obtain ⟨A, m1, B, -, hms, hget, -, -⟩ := onManager_eq_ok hstep
  obtain rfl := Option.some.inj (hget.symm.trans hm)
  rw [hms] at hL
  rcases onManager_getElem? hstep hm with ⟨-, m', hf, hm'⟩ | ⟨hne, -⟩
  · obtain ⟨⟨X, m2, pool₂⟩, hrun, hret⟩ := bind_ok hf
    obtain ⟨rfl, -⟩ := Prod.mk.inj (Except.ok.inj hret)
    obtain ⟨hspec, htable, -⟩ := allocateNewBlocks_tables hrun
    obtain ⟨-, hX, -⟩ := tableInv_allocateNewBlocks hL hrun
    refine ⟨m2, hm', hspec, X, ?_, ?_, ?_⟩
    · rw [groupTable_eq requestId hm, groupTable_eq requestId hm', htable]
    · intro hmem
      rw [hX] at hmem
      exact ((hL.free.mem_iff _).mp (mem_of_mem_take hmem)).2.1 rfl
    · rcases allocateNewBlocks_spec hL requestId numTokens with
        ⟨-, X', m3, pool₃, hrun', -, -, -, hcover⟩ | ⟨-, herr⟩
      · obtain ⟨-, hpair⟩ := Prod.mk.inj (Except.ok.inj (hrun'.symm.trans hrun))
        obtain ⟨rfl, -⟩ := Prod.mk.inj hpair
        rw [groupTable_eq requestId hm']
        exact (le_addSpeculativeTokens m1 numTokens).trans ((cdiv_le_iff m1.blockSize).mp hcover)
      · rw [hrun] at herr
        cases herr
  · exact absurd rfl hne

variable {newComputedBlocks : List (List BlockRef)}

/-- A prefix hit in the group. -/
theorem allocateNewComputedBlocks_group (hm : s.c.singleTypeManagers[group]? = some m)
    (hstep : kvStep s.c (.allocateNewComputedBlocks requestId newComputedBlocks) = .ok c') :
    ∃ m', c'.singleTypeManagers[group]? = some m' ∧ KeepsSpec m m' ∧ ∃ hit,
      newComputedBlocks[group]? = some hit ∧
      groupTable group requestId c' = groupTable group requestId s.c ++ hit := by
  obtain ⟨pool, -, hrest⟩ := bind_ok hstep
  obtain ⟨ms, hsave, hret⟩ := bind_ok hrest
  obtain ⟨hit, m', hhit, hm', hone⟩ := saveAll_getElem? hsave hm
  cases hret
  obtain ⟨hspec, htable, -⟩ := saveNewComputedBlocks_tables hone
  refine ⟨m', hm', hspec, hit, hhit, ?_⟩
  rw [groupTable_eq requestId hm, groupTable_eq requestId hm', htable]

/-- `free` in the group. -/
theorem free_group (hm : s.c.singleTypeManagers[group]? = some m)
    (hstep : kvStep s.c (.free group requestId) = .ok c') :
    ∃ m', c'.singleTypeManagers[group]? = some m' ∧ KeepsSpec m m' ∧
      groupTable group requestId c' = [] := by
  unfold kvStep at hstep
  rcases onManager_getElem? hstep hm with ⟨-, m', hf, hm'⟩ | ⟨hne, -⟩
  · obtain ⟨hspec, htable, -⟩ := free_tables hf
    refine ⟨m', hm', hspec, ?_⟩
    rw [groupTable_eq requestId hm', htable]
  · exact absurd rfl hne

/-- The records after `remove_skipped_blocks`. Without drafts in flight the blocks it drops lie
before the window of every token to come. -/
theorem windowInv_removeSkippedBlocks (h : WindowInv group requestId spec B s)
    (hn : NoDraftsInFlight s .removeSkippedBlocks)
    (hstep : kvStep s.c (.removeSkippedBlocks group requestId s.numComputedTokens) = .ok c') :
    WindowInv group requestId spec B (advance group requestId s c' .removeSkippedBlocks) := by
  obtain ⟨hcoord, hnull, hhash⟩ := h.kvStep
    (.removeSkippedBlocks group requestId s.numComputedTokens) trivial ⟨trivial, trivial⟩ hstep
  obtain ⟨m, hm, rfl, rfl⟩ := h.manager
  obtain ⟨m', hm', hspec, i, P, Y, Q, hsk, hremoved, hbound⟩ := removeSkippedBlocks_group hm hstep
  obtain ⟨L, hL⟩ := h.coord
  rw [hL.null m (mem_of_getElem? hm)] at hsk
  constructor
  case coord => exact hcoord
  case nullHash => exact hhash
  case manager => exact ⟨m', hm', hspec.kvCacheSpec, hspec.blockSize⟩
  case shape =>
    show NullThenReal c'.blockPool.nullBlock (groupTable group requestId c')
    rw [hnull]
    exact hsk.nullThenReal h.shape
  case covered =>
    show s.numComputedTokens ≤ (groupTable group requestId c').length * (m.blockSize : Nat)
    rw [hsk.length_result]
    exact h.covered
  case bounded =>
    intro j hj
    show j < (groupTable group requestId c').length
    rw [hsk.length_result]
    rcases mem_append.mp hj with hj | hj
    · exact h.bounded j hj
    · exact mem_range.mp (mem_filter.mp hj).1
  case conserved =>
    show (s.entered.filter fun b => b ≠ c'.blockPool.nullBlock).Perm
      (s.freed ++ removedBlocks group requestId s.c s.numComputedTokens ++
        (groupTable group requestId c').filter fun b => b ≠ c'.blockPool.nullBlock)
    rw [hnull, hremoved, hsk.filter_result]
    refine h.conserved.trans ?_
    rw [hsk.filter_self, append_assoc s.freed]
    refine List.Perm.append_left _ ?_
    rw [← append_assoc]
    refine List.Perm.append_right _ ?_
    exact perm_append_comm.trans (List.Perm.append_right _ Y.reverse_perm.symm)
  case window =>
    show Passed m.kvCacheSpec m.blockSize (s.nulled ++ _)
      (s.numComputedTokens - draftsInFlight s.inFlight)
    intro j hj
    rcases mem_append.mp hj with hj | hj
    · exact h.window j hj
    · rw [draftsInFlight_eq_zero hn, Int.sub_zero]
      have hne := of_decide_eq_true (mem_filter.mp hj).2
      exact hbound j (hsk.lt_of_ne hne)
  case steps => exact h.steps

/-- The records after the slots of a step were allocated. -/
theorem windowInv_allocate {numNewTokens numDrafts : Nat} {numTokens : Int}
    (h : WindowInv group requestId spec B s)
    (hi : WindowIssued group requestId s (.allocate numNewTokens numDrafts numTokens))
    (hstep : kvStep s.c (.allocateNewBlocks group requestId numTokens) = .ok c') :
    WindowInv group requestId spec B
      (advance group requestId s c' (.allocate numNewTokens numDrafts numTokens)) := by
  obtain ⟨hcoord, hnull, hhash⟩ := h.kvStep (.allocateNewBlocks group requestId numTokens)
    trivial ⟨trivial, trivial⟩ hstep
  obtain ⟨m, hm, rfl, rfl⟩ := h.manager
  obtain ⟨m', hm', hspec, X, htable, hX, hcover⟩ := allocateNewBlocks_group h.coord hm hstep
  obtain ⟨hdrafts, hslots⟩ := hi
  constructor
  case coord => exact hcoord
  case nullHash => exact hhash
  case manager => exact ⟨m', hm', hspec.kvCacheSpec, hspec.blockSize⟩
  case shape =>
    show NullThenReal c'.blockPool.nullBlock (groupTable group requestId c')
    rw [hnull, htable]
    exact h.shape.append hX
  case covered => exact hslots.trans hcover
  case bounded =>
    intro j hj
    have hlt := h.bounded j hj
    show j < (groupTable group requestId c').length
    rw [htable, length_append]
    omega
  case conserved =>
    show ((s.entered ++ (groupTable group requestId c').drop
        (groupTable group requestId s.c).length).filter fun b => b ≠ c'.blockPool.nullBlock).Perm
      (s.freed ++ (groupTable group requestId c').filter fun b => b ≠ c'.blockPool.nullBlock)
    rw [hnull, htable, drop_left, filter_append, filter_append,
      ← append_assoc]
    exact h.conserved.append_right _
  case window =>
    show Passed m.kvCacheSpec m.blockSize s.nulled
      (s.numComputedTokens + numNewTokens - draftsInFlight (s.inFlight ++ [_]))
    refine h.window.mono ?_
    rw [draftsInFlight_concat]
    show _ ≤ s.numComputedTokens + numNewTokens - (draftsInFlight s.inFlight + numDrafts)
    omega
  case steps =>
    refine stepsPassed_concat h.steps ?_
    show Passed m.kvCacheSpec m.blockSize s.nulled
      (s.numComputedTokens - (0 + draftsInFlight s.inFlight))
    rw [Int.zero_add]
    exact h.window

/-- The records after a prefix hit. -/
theorem windowInv_takeHit {numHitTokens : Nat} (h : WindowInv group requestId spec B s)
    (hi : WindowIssued group requestId s (.takeHit newComputedBlocks numHitTokens))
    (hclean : HitDistinct s.c (.allocateNewComputedBlocks requestId newComputedBlocks))
    (hstep : kvStep s.c (.allocateNewComputedBlocks requestId newComputedBlocks) = .ok c') :
    WindowInv group requestId spec B
      (advance group requestId s c' (.takeHit newComputedBlocks numHitTokens)) := by
  obtain ⟨hissued, hempty, hit, hhit, hshape, m1, hm1, hcover⟩ := hi
  obtain ⟨hcoord, hnull, hhash⟩ := h.kvStep
    (.allocateNewComputedBlocks requestId newComputedBlocks) hissued ⟨hclean, trivial⟩ hstep
  obtain ⟨m, hm, rfl, rfl⟩ := h.manager
  obtain rfl : m = m1 := Option.some.inj (hm.symm.trans hm1)
  obtain ⟨m', hm', hspec, hit1, hhit1, htable⟩ := allocateNewComputedBlocks_group hm hstep
  obtain rfl : hit1 = hit := Option.some.inj (hhit1.symm.trans hhit)
  -- The table was empty, so it is the hit, and no block of it was dropped yet.
  rw [hempty, nil_append] at htable
  have hnil : s.nulled = [] := by
    refine eq_nil_iff_forall_not_mem.mpr fun j hj => ?_
    have hlt := h.bounded j hj
    rw [hempty] at hlt
    exact Nat.not_lt_zero j hlt
  constructor
  case coord => exact hcoord
  case nullHash => exact hhash
  case manager => exact ⟨m', hm', hspec.kvCacheSpec, hspec.blockSize⟩
  case shape =>
    show NullThenReal c'.blockPool.nullBlock (groupTable group requestId c')
    rw [htable, hnull]
    exact hshape.nullThenReal h.nullHash
  case covered =>
    show (numHitTokens : Int) ≤ (groupTable group requestId c').length * (m.blockSize : Nat)
    rw [htable]
    exact_mod_cast hcover
  case bounded =>
    show ∀ j ∈ s.nulled, j < _
    simp [hnil]
  case conserved =>
    show ((s.entered ++ (newComputedBlocks[group]?).getD []).filter
        fun b => b ≠ c'.blockPool.nullBlock).Perm
      (s.freed ++ (groupTable group requestId c').filter fun b => b ≠ c'.blockPool.nullBlock)
    have hold := h.conserved
    rw [hempty, filter_nil, append_nil] at hold
    rw [htable, hnull, hhit1, filter_append]
    exact hold.append_right _
  case window =>
    show Passed m.kvCacheSpec m.blockSize s.nulled _
    simp [hnil, Passed]
  case steps => exact h.steps

/-- The records after an output. The oldest step settles its drafts, so moving everything back
by the rejected ones stays within what the other drafts leave open. -/
theorem windowInv_update {numRejected : Nat} (h : WindowInv group requestId spec B s)
    (hi : WindowIssued group requestId s (.update numRejected)) :
    WindowInv group requestId spec B (advance group requestId s s.c (.update numRejected)) := by
  obtain ⟨st, hst, hle⟩ := hi
  obtain ⟨rest, hflight⟩ := List.head?_eq_some_iff.mp hst
  have hsteps := h.steps
  have hwindow := h.window
  have hcovered := h.covered
  have hsum : draftsInFlight s.inFlight = st.numDrafts + draftsInFlight rest := by
    simp [hflight, draftsInFlight]
  rw [hflight] at hsteps
  rw [hsum] at hwindow
  exact { h with
    covered := by
      show (if 0 < s.numComputedTokens then s.numComputedTokens - numRejected
        else s.numComputedTokens) ≤ (groupTable group requestId s.c).length * (B : Nat)
      split <;> omega
    window := by
      show Passed spec B s.nulled ((if 0 < s.numComputedTokens then
        s.numComputedTokens - numRejected else s.numComputedTokens) -
          draftsInFlight (s.inFlight.tail.map fun st =>
            { st with start := st.start - numRejected }))
      rw [draftsInFlight_map_shift, hflight, tail_cons]
      refine hwindow.mono ?_
      split <;> omega
    steps := by
      show StepsPassed spec B 0 (s.inFlight.tail.map fun st =>
        { st with start := st.start - numRejected })
      rw [hflight, tail_cons]
      exact stepsPassed_shift (by omega) hsteps.2 }

/-- The records after the table was freed. -/
theorem windowInv_free (h : WindowInv group requestId spec B s)
    (hstep : kvStep s.c (.free group requestId) = .ok c') :
    WindowInv group requestId spec B (advance group requestId s c' .free) := by
  obtain ⟨hcoord, hnull, hhash⟩ := h.kvStep (.free group requestId) trivial ⟨trivial, trivial⟩ hstep
  obtain ⟨m, hm, rfl, rfl⟩ := h.manager
  obtain ⟨m', hm', hspec, htable⟩ := free_group hm hstep
  constructor
  case coord => exact hcoord
  case nullHash => exact hhash
  case manager => exact ⟨m', hm', hspec.kvCacheSpec, hspec.blockSize⟩
  case shape =>
    show NullThenReal c'.blockPool.nullBlock (groupTable group requestId c')
    rw [htable]
    exact ⟨0, [], rfl, by simp⟩
  case covered =>
    show (0 : Int) ≤ (groupTable group requestId c').length * (m.blockSize : Nat)
    simp [htable]
  case bounded => simp [advance]
  case conserved =>
    show (s.entered.filter fun b => b ≠ c'.blockPool.nullBlock).Perm
      (s.freed ++ ((groupTable group requestId s.c).reverse.filter
          fun b => b ≠ s.c.blockPool.nullBlock) ++
        (groupTable group requestId c').filter fun b => b ≠ c'.blockPool.nullBlock)
    rw [htable, hnull, filter_nil, append_nil, filter_reverse]
    exact h.conserved.trans (List.Perm.append_left _ (reverse_perm _).symm)
  case window => simp [advance, Passed]
  case steps => exact h.steps

/-- Every step of the run keeps the invariant, when no draft token is in flight while slots are
allocated. -/
theorem windowInv_step {s' : WindowState} {op : WindowOp}
    (h : WindowInv group requestId spec B s) (hi : WindowIssued group requestId s op)
    (hn : NoDraftsInFlight s op) (hclean : KVOpClean group requestId s op)
    (hstep : windowStep group requestId s op = .ok s') :
    WindowInv group requestId spec B s' := by
  obtain ⟨c', hkv, hret⟩ := bind_ok hstep
  cases hret
  obtain ⟨m, hm, -, -⟩ := h.manager
  cases op with
  | removeSkippedBlocks => exact windowInv_removeSkippedBlocks h hn hkv
  | takeHit lists numHitTokens => exact windowInv_takeHit h hi (hclean _ rfl).1 hkv
  | allocate numNewTokens numDrafts numTokens => exact windowInv_allocate h hi hkv
  | cacheBlocks request numTokens =>
    have helse : Elsewhere group requestId (.cacheBlocks group request numTokens) := trivial
    obtain ⟨m', hm', hspec, htable⟩ := table_of_elsewhere helse hkv hm
    have hissued : KVOpIssued s.c (.cacheBlocks group request numTokens) := trivial
    exact h.of_same_table hissued (hclean _ rfl) hkv hm hm' hspec htable
  | update numRejected =>
    cases hkv
    exact windowInv_update h hi
  | free => exact windowInv_free h hkv
  | other kvOp =>
    obtain ⟨hissued, helse⟩ := hi
    obtain ⟨m', hm', hspec, htable⟩ := table_of_elsewhere helse hkv hm
    exact h.of_same_table hissued (hclean _ rfl) hkv hm hm' hspec htable

end Step

/-! ### Safety of the run -/

/-- What the claim about the window says of one state: `remove_skipped_blocks` does not raise,
null blocks come first in the table, the blocks that entered the table were freed once each or
are still there, and the worker reads no dropped block when it computes the oldest step. -/
structure WindowSafe (group : Nat) (requestId : String) (spec : KVCacheSpec) (B : ℕ+)
    (s : WindowState) : Prop where
  noIndexError : ∃ c', kvStep s.c (.removeSkippedBlocks group requestId s.numComputedTokens)
    = .ok c'
  shape : NullThenReal s.c.blockPool.nullBlock (groupTable group requestId s.c)
  freedOnce : (s.entered.filter fun b => b ≠ s.c.blockPool.nullBlock).Perm
    (s.freed ++ (groupTable group requestId s.c).filter fun b => b ≠ s.c.blockPool.nullBlock)
  window : ∀ st ∈ s.inFlight.head?, ∀ j ∈ st.nulled, ∀ q p : Int,
    st.start ≤ q → q < st.start + st.numTokens →
    (j : Int) * (B : Nat) ≤ p → p < ((j : Int) + 1) * (B : Nat) → ¬ InWindow spec q p

section Safe
variable {group : Nat} {requestId : String} {spec : KVCacheSpec} {B : ℕ+} {s : WindowState}

theorem WindowInv.noIndexError (h : WindowInv group requestId spec B s) :
    ∃ c', Core.kvStep s.c (.removeSkippedBlocks group requestId s.numComputedTokens) = .ok c' := by
  obtain ⟨m, hm, -, rfl⟩ := h.manager
  obtain ⟨L, hL⟩ := h.coord
  have hcovered := h.covered
  rw [groupTable_eq requestId hm] at hcovered
  obtain ⟨A, B, hms⟩ := append_of_mem (mem_of_getElem? hm)
  rw [hms] at hL
  obtain ⟨⟨m', pool'⟩, hrun⟩ := removeSkippedBlocks_ok hL (skippedBlocks_le_length (.inr hcovered))
  refine ⟨{ s.c with
    blockPool := pool', singleTypeManagers := s.c.singleTypeManagers.set group m' }, ?_⟩
  show onManager s.c group (fun m pool => m.removeSkippedBlocks pool requestId _) = _
  unfold onManager
  rw [hm]
  exact bind_eq_ok_iff.mpr ⟨_, hrun, rfl⟩

theorem WindowInv.safe (h : WindowInv group requestId spec B s) :
    WindowSafe group requestId spec B s where
  noIndexError := h.noIndexError
  shape := h.shape
  freedOnce := h.conserved
  window := by
    intro st hst j hj q p hstart _ _ hp hwin
    obtain ⟨rest, hflight⟩ := List.head?_eq_some_iff.mp hst
    have hsteps := h.steps
    rw [hflight] at hsteps
    have hpassed := hsteps.1 j hj
    rw [Int.sub_zero] at hpassed
    have hmono := windowStart_mono spec hstart
    have hlow := hwin.1
    omega

end Safe

/-- In every state of a run that allocates slots for the request only while none of its draft
tokens is in flight, that lists no block twice in a hit and that caches no null block, freeing
the skipped blocks is safe. -/
theorem windowSafe_of_run {numBlocks : Nat} {groups : List KVCacheSpec} {maxModelLen : Nat}
    {eagle caching events ints : Bool} {dcp pcp : ℕ+} {hashBlockSize : Nat}
    {c₀ : KVCacheCoordinator} {group : Nat} {m : SingleTypeKVCacheManager} {requestId : String}
    {s : WindowState}
    (hinit : KVCacheCoordinator.getKvCacheCoordinator numBlocks groups maxModelLen eagle caching
      events ints dcp pcp hashBlockSize = .ok c₀)
    (hm : c₀.singleTypeManagers[group]? = some m)
    (hrun : Run (windowStep group requestId) (fun s op => WindowIssued group requestId s op ∧
      NoDraftsInFlight s op ∧ KVOpClean group requestId s op) { c := c₀ } s) :
    WindowSafe group requestId m.kvCacheSpec m.blockSize s := by
  have hinv : WindowInv group requestId m.kvCacheSpec m.blockSize s := by
    refine hrun.invariant (WindowInv group requestId m.kvCacheSpec m.blockSize)
      (windowInv_init hinit hm) ?_
    rintro s op s' h ⟨hi, hn, hclean⟩ hstep
    exact windowInv_step h hi hn hclean hstep
  exact hinv.safe

/-- The start of the run over a coordinator that was built. -/
theorem map_start_eq_ok {start : Except PyError KVCacheCoordinator} {s0 : WindowState}
    (h : (start.map fun c => ({ c := c } : WindowState)) = .ok s0) :
    ∃ c0, start = .ok c0 ∧ s0 = { c := c0 } := by
  cases start with
  | error e => cases h
  | ok c0 => exact ⟨c0, rfl, (Except.ok.inj h).symm⟩

/-- A sliding window of three tokens over blocks of two. The request drops its first block,
rejects a draft, is preempted, and resumes with a hit on its second block. -/
theorem windowSafe_resumed : ∃ (c₀ : KVCacheCoordinator) (m : SingleTypeKVCacheManager)
    (s : WindowState),
    KVCacheCoordinator.getKvCacheCoordinator 8 [.slidingWindow 2 3] 100 false true false false
      1 1 2 = .ok c₀ ∧
    c₀.singleTypeManagers[0]? = some m ∧
    Run (windowStep 0 "a") (fun s op => WindowIssued 0 "a" s op ∧ NoDraftsInFlight s op ∧
      KVOpClean 0 "a" s op) { c := c₀ } s ∧
    s.freed = [.block 1, .block 4, .block 3, .block 2] ∧
    groupTable 0 "a" s.c = [.block 0, .block 2, .block 5] ∧
    WindowSafe 0 "a" m.kvCacheSpec m.blockSize s := by
  obtain ⟨s₀, s, hstart, hrun, hfreed, htable⟩ := exists_run_of_check (windowStep 0 "a")
    (fun s op => WindowIssued 0 "a" s op ∧ NoDraftsInFlight s op ∧ KVOpClean 0 "a" s op)
    (fun s => s.freed = [.block 1, .block 4, .block 3, .block 2] ∧
      groupTable 0 "a" s.c = [.block 0, .block 2, .block 5])
    ((KVCacheCoordinator.getKvCacheCoordinator 8 [.slidingWindow 2 3] 100 false true false false
      1 1 2).map fun c => { c := c })
    [ -- The prompt of five tokens, in two chunks.
      .allocate 4 0 4, .cacheBlocks { requestId := "a", blockHashes := [[1], [2]] } 4,
      .update 0,
      .removeSkippedBlocks, .allocate 1 0 5, .update 0,
      -- A token and two drafts, one of them rejected.
      .removeSkippedBlocks, .allocate 3 2 8, .update 1,
      .free,
      .takeHit [[.block 0, .block 2]] 4,
      .allocate 2 0 6] (by decide +kernel)
  obtain ⟨c₀, hinit, rfl⟩ := map_start_eq_ok hstart
  obtain ⟨-, hms, -⟩ := getKvCacheCoordinator_eq_ok hinit
  have hm : ∃ m, c₀.singleTypeManagers[0]? = some m := ⟨_, by rw [hms]; rfl⟩
  obtain ⟨m, hm⟩ := hm
  exact ⟨c₀, m, s, hinit, hm, hrun, hfreed, htable, windowSafe_of_run hinit hm hrun⟩

/-- The condition on drafts is needed. A sliding window of two tokens over blocks of one: a
step is scheduled while the draft of the step before it is in flight, and the draft is
rejected. The token at position 3 then attends to the block at index 2, which is gone. -/
theorem window_dropped_too_early : ¬ ∀ (numBlocks : Nat) (groups : List KVCacheSpec)
    (maxModelLen : Nat) (eagle caching events ints : Bool) (dcp pcp : ℕ+) (hashBlockSize : Nat)
    (c₀ : KVCacheCoordinator) (group : Nat) (m : SingleTypeKVCacheManager) (requestId : String)
    (s : WindowState),
    KVCacheCoordinator.getKvCacheCoordinator numBlocks groups maxModelLen eagle caching events
      ints dcp pcp hashBlockSize = .ok c₀ →
    c₀.singleTypeManagers[group]? = some m →
    Run (windowStep group requestId) (fun s op => WindowIssued group requestId s op ∧
      KVOpClean group requestId s op) { c := c₀ } s →
    WindowSafe group requestId m.kvCacheSpec m.blockSize s := by
  intro hall
  obtain ⟨s₀, s, hstart, hrun, st, hst, hstart₀, hnum, hnulled⟩ := exists_run_of_check
    (windowStep 0 "a") (fun s op => WindowIssued 0 "a" s op ∧ KVOpClean 0 "a" s op)
    (fun s => ∃ st ∈ s.inFlight.head?, st.start = 3 ∧ st.numTokens = 2 ∧ 2 ∈ st.nulled)
    ((KVCacheCoordinator.getKvCacheCoordinator 8 [.slidingWindow 1 2] 100 false true false false
      1 1 1).map fun c => { c := c })
    [ .allocate 2 0 2, .update 0,
      .removeSkippedBlocks, .allocate 2 1 4,
      -- Scheduled while the draft at position 3 is in flight.
      .removeSkippedBlocks, .allocate 2 1 6,
      .update 1] (by decide +kernel)
  obtain ⟨c₀, hinit, rfl⟩ := map_start_eq_ok hstart
  obtain ⟨-, hms, -⟩ := getKvCacheCoordinator_eq_ok hinit
  obtain ⟨m, hm, hspec, hB⟩ : ∃ m, c₀.singleTypeManagers[0]? = some m ∧
      m.kvCacheSpec = .slidingWindow 1 2 ∧ (m.blockSize : Nat) = 1 :=
    ⟨_, by rw [hms]; rfl, rfl, rfl⟩
  have hsafe := hall _ _ _ _ _ _ _ _ _ _ c₀ 0 m "a" s hinit hm hrun
  refine hsafe.window st hst 2 hnulled 3 2 (by omega) (by omega) (by omega) (by omega) ?_
  rw [hspec]
  exact ⟨by decide, by decide⟩

end Vllm.Proofs.Core
