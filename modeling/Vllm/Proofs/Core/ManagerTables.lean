import Vllm.Proofs.Core.Slots
import Vllm.Proofs.Core.TableStep

/-!
# `Vllm.Proofs.Core.ManagerTables`: the tables before and after a call of `KVCacheManager`

`TableStep` says what one method of one manager does to one table. This file goes through the
coordinator: for a fixed group, what a whole call of `KVCacheManager` does to the tables of that
group.

* `forManagers_getElem?`, `allocateAll_getElem?`: the loops over the groups.
* `Nulled`: a table in which some blocks were replaced by the null block.
* `allocateSlots_some`, `allocateSlots_none`: `allocate_slots`.
* `free_manager`, `cacheBlocks_manager`: the other calls.
-/

set_option autoImplicit false

namespace Vllm.Proofs.Core

open Vllm.Lib Vllm.V1 Vllm.V1.Core List
open Vllm.V1.Core.KVCacheCoordinator

/-! ### The loops over the groups -/

section Loops
variable {ms ms' : List SingleTypeKVCacheManager} {pool pool' : BlockPool}

variable
  {f : SingleTypeKVCacheManager → BlockPool → Except PyError (SingleTypeKVCacheManager × BlockPool)}

theorem forManagers_length (h : forManagers f ms pool = .ok (ms', pool')) :
    ms'.length = ms.length := by
  induction ms generalizing ms' pool pool' with
  | nil =>
    cases h
    rfl
  | cons m ms ih =>
    obtain ⟨⟨m1, p1⟩, -, h⟩ := bind_ok h
    obtain ⟨⟨ms1, p2⟩, hrest, h⟩ := bind_ok h
    cases h
    simp [ih hrest]

/-- The manager of a group after an operation on all groups. -/
theorem forManagers_getElem? {group : Nat} {m : SingleTypeKVCacheManager}
    (h : forManagers f ms pool = .ok (ms', pool')) (hm : ms[group]? = some m) :
    ∃ m' p p', ms'[group]? = some m' ∧ f m p = .ok (m', p') := by
  induction ms generalizing ms' pool pool' group with
  | nil => cases hm
  | cons x ms ih =>
    obtain ⟨⟨x', p1⟩, hone, h⟩ := bind_ok h
    obtain ⟨⟨xs', p2⟩, hrest, h⟩ := bind_ok h
    cases h
    cases group with
    | zero =>
      cases hm
      exact ⟨x', pool, p1, rfl, hone⟩
    | succ group =>
      obtain ⟨m', p, p', hm', hf⟩ := ih hrest hm
      exact ⟨m', p, p', hm', hf⟩

variable {numTokens numEncoderTokens : Int} {newBlocks : List (List BlockRef)}

/-- The manager of a group after `allocate_new_blocks` on all groups. -/
theorem allocateAll_getElem? {requestId : String} {group : Nat} {m : SingleTypeKVCacheManager}
    (h : allocateAll requestId numTokens numEncoderTokens ms pool = .ok (newBlocks, ms', pool'))
    (hm : ms[group]? = some m) :
    ∃ X m' p p', newBlocks[group]? = some X ∧ ms'[group]? = some m' ∧
      m.allocateNewBlocks p requestId (groupTokens m numTokens numEncoderTokens) =
        .ok (X, m', p') := by
  induction ms generalizing newBlocks ms' pool pool' group with
  | nil => cases hm
  | cons x ms ih =>
    obtain ⟨⟨X, x', p1⟩, hone, h⟩ := bind_ok h
    obtain ⟨⟨Xs, xs', p2⟩, hrest, h⟩ := bind_ok h
    obtain ⟨rfl, hpair⟩ := Prod.mk.inj (Except.ok.inj h)
    cases hpair
    cases group with
    | zero =>
      cases hm
      exact ⟨X, x', pool, p1, rfl, rfl, hone⟩
    | succ group =>
      obtain ⟨X', m', p, p', hX', hm', hf⟩ := ih hrest hm
      exact ⟨X', m', p, p', hX', hm', hf⟩

theorem allocateAll_length {requestId : String}
    (h : allocateAll requestId numTokens numEncoderTokens ms pool = .ok (newBlocks, ms', pool')) :
    newBlocks.length = ms.length ∧ ms'.length = ms.length := by
  induction ms generalizing newBlocks ms' pool pool' with
  | nil =>
    obtain ⟨rfl, hpair⟩ := Prod.mk.inj (Except.ok.inj h)
    cases hpair
    exact ⟨rfl, rfl⟩
  | cons x ms ih =>
    obtain ⟨⟨X, x', p1⟩, -, h⟩ := bind_ok h
    obtain ⟨⟨Xs, xs', p2⟩, hrest, h⟩ := bind_ok h
    obtain ⟨rfl, hpair⟩ := Prod.mk.inj (Except.ok.inj h)
    cases hpair
    obtain ⟨hX, hms⟩ := ih hrest
    exact ⟨by simp [hX], by simp [hms]⟩

variable {lists : List (List BlockRef)}

theorem saveAll_length {requestId : String} (h : saveAll requestId ms lists = .ok ms') :
    ms'.length = ms.length := by
  induction ms generalizing ms' lists with
  | nil =>
    cases h
    rfl
  | cons x ms ih =>
    cases lists with
    | nil => cases h
    | cons hit lists =>
      obtain ⟨x', -, hrest⟩ := bind_ok h
      obtain ⟨xs', hall, hret⟩ := bind_ok hrest
      cases hret
      simp [ih hall]

/-- `get_num_blocks_to_allocate` reads the tables of the request and no more. -/
theorem sumBlocksToAllocate_eq_map {requestId : String} {n : Int}
    (h : sumBlocksToAllocate pool requestId numTokens numEncoderTokens ms lists = .ok (n, ms')) :
    ms' = ms.map fun m => (m.reqBlocks requestId).2 := by
  induction ms generalizing ms' lists n with
  | nil =>
    cases h
    rfl
  | cons m ms ih =>
    obtain ⟨⟨n1, m1⟩, hone, h⟩ := bind_ok h
    obtain ⟨⟨n2, ms1⟩, hrest, h⟩ := bind_ok h
    cases h
    have hm1 : m1 = (m.reqBlocks requestId).2 := by
      split at hone
      · exact ((Prod.mk.inj (Except.ok.inj hone)).2).symm
      · split at hone
        · cases hone
        · exact ((Prod.mk.inj (Except.ok.inj hone)).2).symm
    rw [ih hrest, hm1]
    rfl

end Loops

/-! ### The length of the new blocks -/

variable {n : Nat} {ret : List BlockRef} {q q' : FreeKVCacheBlockQueue}

theorem popleftNLoop_length {curr curr' : Option BlockRef} {ret' : List BlockRef}
    (h : FreeKVCacheBlockQueue.popleftNLoop n curr ret q = .ok (ret', curr', q')) :
    ret'.length = ret.length + n := by
  induction n generalizing curr ret q with
  | zero =>
    cases h
    rfl
  | succ n ih =>
    cases curr with
    | none => cases h
    | some last =>
      rw [ih h, length_append]
      simp only [length_cons, length_nil]
      omega

theorem popleftN_length (h : q.popleftN n = .ok (ret, q')) : ret.length = n := by
  unfold FreeKVCacheBlockQueue.popleftN at h
  split at h
  · rename_i hzero
    cases h
    exact hzero.symm
  · split at h
    · cases h
    · obtain ⟨⟨ret1, curr, q1⟩, hloop, h⟩ := bind_ok h
      have hlen := popleftNLoop_length hloop
      cases curr with
      | none =>
        cases h
        simpa using hlen
      | some curr =>
        cases h
        simpa using hlen

/-- `get_new_blocks` returns as many blocks as it was asked for. -/
theorem getNewBlocks_length {X : List BlockRef} {p p' : BlockPool}
    (h : p.getNewBlocks n = .ok (X, p')) : X.length = n := by
  obtain ⟨q, hpop, -⟩ := getNewBlocks_eq_ok h
  exact popleftN_length hpop

/-- `allocate_new_blocks` returns the blocks that the table lacks. -/
theorem allocateNewBlocks_length {m m' : SingleTypeKVCacheManager} {pool pool' : BlockPool}
    {requestId : String} {numTokens : Int} {X : List BlockRef}
    (h : m.allocateNewBlocks pool requestId numTokens = .ok (X, m', pool')) :
    X.length = (blocksMissing m requestId numTokens).toNat := by
  rcases allocateNewBlocks_eq_ok h with ⟨hle, rfl, -, -⟩ | ⟨-, hnew, -⟩
  · rw [Int.toNat_of_nonpos hle]
    rfl
  · exact getNewBlocks_length hnew

/-! ### The calls -/

/-- `T'` is the table `T` with some blocks replaced by the null block. -/
def Nulled (null : BlockRef) (T T' : List BlockRef) : Prop :=
  List.Forall₂ (fun b b' => b' = b ∨ b' = null) T T'

namespace Nulled

variable {null : BlockRef} {T T' T'' : List BlockRef}

theorem refl (null : BlockRef) (T : List BlockRef) : Nulled null T T :=
  forall₂_same.mpr fun _ _ => .inl rfl

theorem length_eq (h : Nulled null T T') : T'.length = T.length := (List.Forall₂.length_eq h).symm

theorem of_skipped {i : Nat} {P Y Q : List BlockRef} (h : Skipped null i T T' P Y Q) :
    Nulled null T T' := by
  rw [h.split, h.result]
  refine rel_append (rel_append (refl null P) ?_) (refl null Q)
  clear h
  induction Y with
  | nil => exact .nil
  | cons y Y ih => exact .cons (.inr rfl) ih

end Nulled

/-- A call appended `X` to the table of a request and left the other tables alone. -/
structure Appended (requestId : String) (m m' : SingleTypeKVCacheManager)
    (X : List BlockRef) : Prop where
  spec : KeepsSpec m m'
  table : m'.table requestId = m.table requestId ++ X
  other : ∀ otherId, otherId ≠ requestId → m'.table otherId = m.table otherId

/-- The same, after blocks of the table may have become null. -/
structure Extended (requestId : String) (m m' : SingleTypeKVCacheManager)
    (X : List BlockRef) : Prop where
  spec : KeepsSpec m m'
  table : ∃ T, Nulled m.nullBlock (m.table requestId) T ∧ m'.table requestId = T ++ X
  other : ∀ otherId, otherId ≠ requestId → m'.table otherId = m.table otherId

section Changes
variable {requestId : String} {m m' m'' : SingleTypeKVCacheManager} {X Y : List BlockRef}

theorem KeepsSpec.trans (h : KeepsSpec m m') (h' : KeepsSpec m' m'') : KeepsSpec m m'' :=
  ⟨h'.kvCacheSpec.trans h.kvCacheSpec, h'.blockSize.trans h.blockSize,
    h'.nullBlock.trans h.nullBlock⟩

theorem Appended.trans (h : Appended requestId m m' X) (h' : Appended requestId m' m'' Y) :
    Appended requestId m m'' (X ++ Y) where
  spec := h.spec.trans h'.spec
  table := by rw [h'.table, h.table, append_assoc]
  other otherId hne := (h'.other otherId hne).trans (h.other otherId hne)

theorem Appended.of_same (hspec : KeepsSpec m m')
    (h : ∀ otherId, m'.table otherId = m.table otherId) : Appended requestId m m' [] :=
  ⟨hspec, by simp [h], fun otherId _ => h otherId⟩

theorem appended_reqBlocks (requestId : String) (m : SingleTypeKVCacheManager) :
    Appended requestId m (m.reqBlocks requestId).2 [] :=
  .of_same ⟨rfl, rfl, rfl⟩ (table_reqBlocks m requestId)

theorem Extended.append (h : Extended requestId m m' []) (h' : Appended requestId m' m'' X) :
    Extended requestId m m'' X where
  spec := h.spec.trans h'.spec
  table := by
    obtain ⟨T, hT, htable⟩ := h.table
    exact ⟨T, hT, by rw [h'.table, htable, append_nil]⟩
  other otherId hne := (h'.other otherId hne).trans (h.other otherId hne)

end Changes

section Calls
variable {c c' : KVCacheCoordinator} {k k' : KVCacheManager} {requestId : String} {group : Nat}
  {m : SingleTypeKVCacheManager}

variable
  {f : SingleTypeKVCacheManager → BlockPool → Except PyError (SingleTypeKVCacheManager × BlockPool)}

theorem withManagers_getElem? (h : c.withManagers f = .ok c')
    (hm : c.singleTypeManagers[group]? = some m) :
    ∃ m' p p', c'.singleTypeManagers[group]? = some m' ∧ f m p = .ok (m', p') := by
  obtain ⟨⟨ms, pool⟩, hall, hret⟩ := bind_ok h
  cases hret
  exact forManagers_getElem? hall hm

theorem withManagers_length (h : c.withManagers f = .ok c') :
    c'.singleTypeManagers.length = c.singleTypeManagers.length := by
  obtain ⟨⟨ms, pool⟩, hall, hret⟩ := bind_ok h
  cases hret
  exact forManagers_length hall

variable {numComputedTokens : Int}

theorem removeSkippedBlocks_manager (h : c.removeSkippedBlocks requestId numComputedTokens = .ok c')
    (hm : c.singleTypeManagers[group]? = some m) :
    ∃ m', c'.singleTypeManagers[group]? = some m' ∧ Extended requestId m m' [] := by
  obtain ⟨m', p, p', hm', hf⟩ := withManagers_getElem? h hm
  obtain ⟨hspec, htable, hother⟩ := removeSkippedBlocks_tables hf
  refine ⟨m', hm', hspec, ⟨m'.table requestId, ?_, (append_nil _).symm⟩, hother⟩
  rcases htable with ⟨-, hsame⟩ | ⟨-, P, Y, Q, -, hskipped⟩
  · rw [hsame]
    exact Nulled.refl _ _
  · exact Nulled.of_skipped hskipped

variable {numTokens numEncoderTokens n : Int}

theorem getNumBlocksToAllocate_manager {hits : List (List BlockRef)}
    (h : c.getNumBlocksToAllocate requestId numTokens hits numEncoderTokens = .ok (n, c'))
    (hm : c.singleTypeManagers[group]? = some m) :
    c'.singleTypeManagers[group]? = some (m.reqBlocks requestId).2 := by
  obtain ⟨⟨n1, ms⟩, hsum, hret⟩ := bind_ok h
  cases hret
  show ms[group]? = _
  rw [sumBlocksToAllocate_eq_map hsum, getElem?_map, hm]
  rfl

variable {hits : KVCacheBlocks}

/-- Taking a prefix hit appends it to the table. An empty hit is not saved. -/
theorem takeComputedBlocks_manager (h : k.takeComputedBlocks c requestId hits = .ok c')
    (hm : c.singleTypeManagers[group]? = some m) :
    ∃ m', c'.singleTypeManagers[group]? = some m' ∧
      Appended requestId m m' ((hits[group]?).getD []) := by
  obtain ⟨pool, -, h⟩ := bind_ok h
  split at h
  · rename_i hempty
    cases h
    have hnil : (hits[group]?).getD [] = [] := by
      cases hget : hits[group]? with
      | none => rfl
      | some hit =>
        exact isEmpty_iff.mp (all_eq_true.mp hempty hit (mem_of_getElem? hget))
    rw [hnil]
    exact ⟨m, hm, .of_same (KeepsSpec.refl m) fun _ => rfl⟩
  · obtain ⟨ms, hsave, hret⟩ := bind_ok h
    cases hret
    obtain ⟨hit, m', hhit, hm', hone⟩ := saveAll_getElem? hsave hm
    obtain ⟨hspec, htable, hother⟩ := saveNewComputedBlocks_tables hone
    rw [hhit]
    exact ⟨m', hm', hspec, htable, hother⟩

theorem allocateNewBlocks_manager {newBlocks : List (List BlockRef)}
    (h : c.allocateNewBlocks requestId numTokens numEncoderTokens = .ok (newBlocks, c'))
    (hm : c.singleTypeManagers[group]? = some m) :
    ∃ X m', newBlocks[group]? = some X ∧ c'.singleTypeManagers[group]? = some m' ∧
      Appended requestId m m' X ∧
      X.length = (blocksMissing m requestId (groupTokens m numTokens numEncoderTokens)).toNat := by
  obtain ⟨⟨Xs, ms, pool⟩, hall, hret⟩ := bind_ok h
  cases hret
  obtain ⟨X, m', p, p', hX, hm', hf⟩ := allocateAll_getElem? hall hm
  obtain ⟨hspec, htable, hother⟩ := allocateNewBlocks_tables hf
  exact ⟨X, m', hX, hm', ⟨hspec, htable, hother⟩, allocateNewBlocks_length hf⟩

/-- `cache_blocks` changes no table. -/
theorem coordinatorCacheBlocks_manager {request : Request}
    (h : c.cacheBlocks request numComputedTokens = .ok c')
    (hm : c.singleTypeManagers[group]? = some m) :
    ∃ m', c'.singleTypeManagers[group]? = some m' ∧ Appended requestId m m' [] := by
  obtain ⟨m', p, p', hm', hf⟩ := withManagers_getElem? h hm
  obtain ⟨hspec, hother⟩ := cacheBlocks_tables hf
  exact ⟨m', hm', .of_same hspec hother⟩

variable {newBlocks : KVCacheBlocks} {numNewTokens : Int} {delayCacheBlocks : Bool}

/-- The slots that `allocate_slots` takes once there is room: the hit and the new blocks. -/
theorem takeSlots_manager {request : Request}
    (h : k.takeSlots c request n numNewTokens numTokens hits delayCacheBlocks numEncoderTokens =
      .ok (newBlocks, k'))
    (hm : c.singleTypeManagers[group]? = some m) :
    ∃ X m', newBlocks[group]? = some X ∧ k'.coordinator.singleTypeManagers[group]? = some m' ∧
      Appended request.requestId m m' ((hits[group]?).getD [] ++ X) ∧
      X.length = (blocksMissing m request.requestId (groupTokens m numTokens numEncoderTokens)
        - ((hits[group]?).getD []).length).toNat := by
  obtain ⟨⟨Xs, c2⟩, hreserve, h⟩ := bind_ok h
  obtain ⟨c1, htake, hnew⟩ := bind_ok hreserve
  obtain ⟨m1, hm1, happ1⟩ := takeComputedBlocks_manager htake hm
  obtain ⟨X, m2, hX, hm2, happ2, hlen⟩ := allocateNewBlocks_manager hnew hm1
  have hmissing : blocksMissing m1 request.requestId (groupTokens m1 numTokens numEncoderTokens)
      = blocksMissing m request.requestId (groupTokens m numTokens numEncoderTokens)
        - ((hits[group]?).getD []).length := by
    unfold blocksMissing groupTokens SingleTypeKVCacheManager.addSpeculativeTokens
    rw [happ1.table, happ1.spec.kvCacheSpec, happ1.spec.blockSize, length_append]
    omega
  rw [hmissing] at hlen
  dsimp only at h
  split at h
  · cases h
    exact ⟨X, m2, hX, hm2, happ1.trans happ2, hlen⟩
  · obtain ⟨c3, hcache, h⟩ := bind_ok h
    cases h
    obtain ⟨m3, hm3, happ3⟩ := coordinatorCacheBlocks_manager hcache hm2
    refine ⟨X, m3, hX, hm3, ?_, hlen⟩
    simpa using (happ1.trans happ2).trans happ3

variable {numNewComputedTokens numLookaheadTokens : Int} {newComputedBlocks : Option KVCacheBlocks}

/-- `allocate_slots`: after the skipped blocks became null, the table of the request grows by
the prefix hit and by the new blocks, up to the tokens that need a slot. -/
theorem allocateSlots_manager {request : Request} {newBlocks : Option KVCacheBlocks}
    {hit : List BlockRef}
    (h : k.allocateSlots request numNewTokens numNewComputedTokens newComputedBlocks
      numLookaheadTokens delayCacheBlocks numEncoderTokens = .ok (newBlocks, k'))
    (hm : k.coordinator.singleTypeManagers[group]? = some m)
    (hhit : ((newComputedBlocks.getD k.emptyKvCacheBlocks)[group]?).getD [] = hit) :
    ∃ m', k'.coordinator.singleTypeManagers[group]? = some m' ∧
      ((newBlocks = none ∧ Extended request.requestId m m' []) ∨
        ∃ Xs X, newBlocks = some Xs ∧ Xs[group]? = some X ∧
          Extended request.requestId m m' (hit ++ X) ∧
          X.length = (blocksMissing m request.requestId (groupTokens m
            (min (request.numComputedTokens + numNewComputedTokens + numNewTokens
              + numLookaheadTokens) k.maxModelLen) numEncoderTokens)
            - hit.length).toNat) := by
  unfold KVCacheManager.allocateSlots at h
  split at h
  · cases h
  · obtain ⟨c1, hskip, h⟩ := bind_ok h
    obtain ⟨m1, hm1, hext⟩ := removeSkippedBlocks_manager hskip hm
    obtain ⟨⟨n, c2⟩, hnum, h⟩ := bind_ok h
    have hm2 := getNumBlocksToAllocate_manager hnum hm1
    have happ := appended_reqBlocks request.requestId m1
    dsimp only at h
    split at h
    · cases h
      exact ⟨_, hm2, .inl ⟨rfl, hext.append happ⟩⟩
    · obtain ⟨⟨Xs, k1⟩, htake, h⟩ := bind_ok h
      cases h
      obtain ⟨X, m3, hX, hm3, happ3, hlen⟩ := takeSlots_manager htake hm2
      rw [hhit] at happ3 hlen
      refine ⟨m3, hm3, .inr ⟨Xs, X, rfl, hX, hext.append (happ.trans happ3), ?_⟩⟩
      rw [hlen]
      obtain ⟨T, hT, htable⟩ := hext.table
      unfold blocksMissing groupTokens SingleTypeKVCacheManager.addSpeculativeTokens
      rw [happ.table, htable, hT.length_eq.symm]
      simp only [SingleTypeKVCacheManager.reqBlocks, SingleTypeKVCacheManager.setTable,
        hext.spec.kvCacheSpec, hext.spec.blockSize, append_nil]

theorem takeSlots_length {request : Request}
    (h : k.takeSlots c request n numNewTokens numTokens hits delayCacheBlocks numEncoderTokens =
      .ok (newBlocks, k')) :
    newBlocks.length = c.singleTypeManagers.length ∧
      k'.coordinator.singleTypeManagers.length = c.singleTypeManagers.length := by
  obtain ⟨⟨Xs, c2⟩, hreserve, h⟩ := bind_ok h
  obtain ⟨c1, htake, hnew⟩ := bind_ok hreserve
  have hlen1 : c1.singleTypeManagers.length = c.singleTypeManagers.length := by
    obtain ⟨pool, -, htake⟩ := bind_ok htake
    split at htake
    · cases htake
      rfl
    · obtain ⟨ms, hsave, hret⟩ := bind_ok htake
      cases hret
      exact saveAll_length hsave
  obtain ⟨⟨Xs', ms, pool⟩, hall, hret⟩ := bind_ok hnew
  cases hret
  obtain ⟨hX, hms⟩ := allocateAll_length hall
  dsimp only at h
  split at h
  · cases h
    exact ⟨hX.trans hlen1, hms.trans hlen1⟩
  · obtain ⟨c3, hcache, h⟩ := bind_ok h
    cases h
    exact ⟨hX.trans hlen1, (withManagers_length hcache).trans (hms.trans hlen1)⟩

/-- `allocate_slots` keeps the number of groups, and returns one list for each of them. -/
theorem allocateSlots_length {request : Request} {newBlocks : Option KVCacheBlocks}
    (h : k.allocateSlots request numNewTokens numNewComputedTokens newComputedBlocks
      numLookaheadTokens delayCacheBlocks numEncoderTokens = .ok (newBlocks, k')) :
    k'.coordinator.singleTypeManagers.length = k.coordinator.singleTypeManagers.length ∧
      ∀ Xs ∈ newBlocks, Xs.length = k.coordinator.singleTypeManagers.length := by
  unfold KVCacheManager.allocateSlots at h
  split at h
  · cases h
  · obtain ⟨c1, hskip, h⟩ := bind_ok h
    obtain ⟨⟨n, c2⟩, hnum, h⟩ := bind_ok h
    have hlen1 := withManagers_length hskip
    have hlen2 : c2.singleTypeManagers.length = c1.singleTypeManagers.length := by
      obtain ⟨⟨n1, ms⟩, hsum, hret⟩ := bind_ok hnum
      cases hret
      show ms.length = _
      rw [sumBlocksToAllocate_eq_map hsum, length_map]
    dsimp only at h
    split at h
    · cases h
      exact ⟨hlen2.trans hlen1, by simp⟩
    · obtain ⟨⟨Xs, k1⟩, htake, h⟩ := bind_ok h
      cases h
      obtain ⟨hX, hk1⟩ := takeSlots_length htake
      refine ⟨hk1.trans (hlen2.trans hlen1), fun Xs' hXs' => ?_⟩
      obtain rfl := Option.mem_some_iff.mp hXs'
      exact hX.trans (hlen2.trans hlen1)

end Calls

/-! ### What no operation changes -/

section Steps
variable {c c' : KVCacheCoordinator} {op : KVOp}

theorem onManager_kind_length {group : Nat} {f : SingleTypeKVCacheManager → BlockPool →
      Except PyError (SingleTypeKVCacheManager × BlockPool)}
    (h : onManager c group f = .ok c') : c'.kind = c.kind ∧
      c'.singleTypeManagers.length = c.singleTypeManagers.length := by
  unfold onManager at h
  split at h
  · cases h
  · obtain ⟨⟨m', pool⟩, -, hret⟩ := bind_ok h
    cases hret
    exact ⟨rfl, length_set⟩

/-- No operation changes the class of the coordinator or the number of groups. -/
theorem kvStep_kind_length (h : kvStep c op = .ok c') : c'.kind = c.kind ∧
    c'.singleTypeManagers.length = c.singleTypeManagers.length := by
  unfold kvStep at h
  cases op with
  | allocateNewComputedBlocks id lists =>
    obtain ⟨pool, -, hrest⟩ := bind_ok h
    obtain ⟨ms, hsave, hret⟩ := bind_ok hrest
    cases hret
    exact ⟨rfl, saveAll_length hsave⟩
  | allocateNewBlocks => exact onManager_kind_length h
  | cacheBlocks => exact onManager_kind_length h
  | removeSkippedBlocks => exact onManager_kind_length h
  | free => exact onManager_kind_length h
  | evictBlocks ids =>
    obtain ⟨pool, -, hret⟩ := bind_ok h
    cases hret
    exact ⟨rfl, rfl⟩
  | resetPrefixCache =>
    cases h
    exact ⟨rfl, rfl⟩

/-- No operation changes the spec of a manager. -/
theorem kvStep_keepsSpec {group : Nat} {m : SingleTypeKVCacheManager}
    (h : kvStep c op = .ok c') (hm : c.singleTypeManagers[group]? = some m) :
    ∃ m', c'.singleTypeManagers[group]? = some m' ∧ KeepsSpec m m' := by
  have hone : ∀ {g : Nat} {f : SingleTypeKVCacheManager → BlockPool →
      Except PyError (SingleTypeKVCacheManager × BlockPool)}, onManager c g f = .ok c' →
      (∀ m' p', f m c.blockPool = .ok (m', p') → KeepsSpec m m') →
      ∃ m', c'.singleTypeManagers[group]? = some m' ∧ KeepsSpec m m' := by
    intro g f hop hf
    rcases onManager_getElem? hop hm with ⟨-, m', hrun, hm'⟩ | ⟨-, hm'⟩
    · exact ⟨m', hm', hf m' _ hrun⟩
    · exact ⟨m, hm', KeepsSpec.refl m⟩
  unfold kvStep at h
  cases op with
  | allocateNewComputedBlocks id lists =>
    obtain ⟨pool, -, hrest⟩ := bind_ok h
    obtain ⟨ms, hsave, hret⟩ := bind_ok hrest
    cases hret
    obtain ⟨hit, m', -, hm', hsaved⟩ := saveAll_getElem? hsave hm
    exact ⟨m', hm', (saveNewComputedBlocks_tables hsaved).1⟩
  | allocateNewBlocks g id numTokens =>
    refine hone h fun m' p' hrun => ?_
    obtain ⟨⟨X, m1, pool₁⟩, hnew, hret⟩ := bind_ok hrun
    cases hret
    exact (allocateNewBlocks_tables hnew).1
  | cacheBlocks g request numTokens =>
    exact hone h fun m' p' hrun => (cacheBlocks_tables hrun).1
  | removeSkippedBlocks g id numComputedTokens =>
    exact hone h fun m' p' hrun => (removeSkippedBlocks_tables hrun).1
  | free g id => exact hone h fun m' p' hrun => (free_tables hrun).1
  | evictBlocks ids =>
    obtain ⟨pool, -, hret⟩ := bind_ok h
    cases hret
    exact ⟨m, hm, KeepsSpec.refl m⟩
  | resetPrefixCache =>
    cases h
    exact ⟨m, hm, KeepsSpec.refl m⟩

end Steps

/-! ### Hashes -/

section Hashes
variable {p p' : BlockPool} {m m' : SingleTypeKVCacheManager} {request : Request}

/-- A block whose hash the loop of `cache_full_blocks` changes is one of its blocks. -/
theorem cacheFullBlocksLoop_changed {g : UInt32} {X : List BlockRef} {hs : List BlockHash}
    {b : BlockRef} (h : BlockPool.cacheFullBlocksLoop g X hs p = .ok p')
    (hb : hashOf p' b ≠ hashOf p b) : b ∈ X := by
  induction X generalizing p hs with
  | nil =>
    cases h
    exact absurd rfl hb
  | cons x X ih =>
    cases hs with
    | nil => cases h
    | cons bh hs =>
      obtain ⟨u, -, h⟩ := bind_ok h
      obtain ⟨p1, hset, h⟩ := bind_ok h
      obtain ⟨u', -, hmod⟩ := bind_ok hset
      cases hmod
      by_cases hbx : b = x
      · simp [hbx]
      · refine mem_cons_of_mem x (ih h ?_)
        have hhash : hashOf (p.modify x fun b =>
            { b with blockHash := some (makeBlockHashWithGroupId bh g) }) b = hashOf p b := by
          rw [hashOf_modify_hash, Function.update_of_ne hbx]
        exact fun heq => hb (heq.trans hhash)

/-- A block whose hash `cache_blocks` changes is a full block of the table. -/
theorem cacheBlocks_changed {numTokens : Int} {b : BlockRef}
    (h : m.cacheBlocks p request numTokens = .ok (m', p')) (hb : hashOf p' b ≠ hashOf p b) :
    ∃ j : Nat, (m.table request.requestId)[j]? = some b ∧
      ((j : Int) + 1) * (m.blockSize : Nat) ≤ numTokens := by
  rcases cacheBlocks_eq_ok h with ⟨-, rfl⟩ | ⟨hlt, hcache, -⟩
  · exact absurd rfl hb
  · unfold BlockPool.cacheFullBlocks at hcache
    split at hcache
    · cases hcache
      exact absurd rfl hb
    · obtain ⟨u, -, hcache⟩ := bind_ok hcache
      obtain ⟨hashes, -, hcache⟩ := bind_ok hcache
      obtain ⟨p1, hloop, hcache⟩ := bind_ok hcache
      have hb1 : hashOf p1 b ≠ hashOf p b := by
        split at hcache
        · obtain ⟨ev, -, hcache⟩ := bind_ok hcache
          cases hcache
          exact hb
        · cases hcache
          exact hb
      obtain ⟨i, hi⟩ := mem_iff_getElem?.mp (cacheFullBlocksLoop_changed hloop hb1)
      rw [getElem?_drop, getElem?_take] at hi
      split at hi
      · rename_i hfull
        refine ⟨_, hi, ?_⟩
        have hB : (0 : Int) < (m.blockSize : Nat) := by exact_mod_cast m.blockSize.pos
        rw [Int.fdiv_eq_ediv_of_nonneg numTokens hB.le] at hfull
        exact (Int.le_ediv_iff_mul_le hB).mp (by omega)
      · cases hi

end Hashes

end Vllm.Proofs.Core
