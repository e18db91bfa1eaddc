import Vllm.Proofs.Core.ManagerTables
import Vllm.Proofs.Core.Window
import Vllm.V1.Core.Sched.Scheduler

/-!
# `Vllm.Proofs.Sched.RemoteKv`: the tokens of a finished remote load

A request that waits for remote KVs was admitted with a local hit and with a number of external
tokens that the connector reported. `_update_waiting_for_remote_kv` does not read these numbers
again: it counts the blocks of the request. `allocate_slots` rounds the tokens up to whole
blocks, and a mamba group adds its speculative blocks, so the count can be too large.

* `RemoteLoad`: an admission, the operations of the other requests, and the call at the end.
* `countsOnlyLoaded_iff`: the call counts only loaded tokens if and only if the loaded tokens
  fill their blocks, or lack at most the last token of the request.
-/

set_option autoImplicit false

namespace Vllm.Proofs.Sched

open Vllm.Lib Vllm.V1 Vllm.V1.Core Vllm.Proofs.Core

/-! ### One group -/

section OneGroup
variable {c c' : KVCacheCoordinator}

/-- A coordinator with one group has the spec and the block size of that group. -/
def OfGroup (c : KVCacheCoordinator) : Prop :=
  ∀ m, c.singleTypeManagers = [m] →
    c.kind = .noPrefixCache ∨ c.kind = .unitary m.kvCacheSpec m.blockSize

theorem unitaryBlockSize_eq (spec : KVCacheSpec) (dcp pcp : ℕ+) (pool : BlockPool)
    (g : UInt32) : (SingleTypeKVCacheManager.init spec pool g dcp pcp).blockSize =
      KVCacheCoordinator.unitaryBlockSize spec dcp pcp := by
  have hone : ∀ n : ℕ+, ¬ 1 < n → n = 1 := fun n hn => le_antisymm (not_lt.mp hn) n.one_le
  unfold SingleTypeKVCacheManager.init KVCacheCoordinator.unitaryBlockSize
  dsimp only
  by_cases hd : 1 < dcp
  · have hmul : 1 < dcp * pcp := lt_of_lt_of_le hd (le_mul_of_one_le_right' pcp.one_le)
    rw [if_pos hmul, if_pos hd]
    by_cases hp : 1 < pcp
    · rw [if_pos hp, mul_assoc]
    · rw [if_neg hp, hone pcp hp, mul_one]
  · rw [hone dcp hd, one_mul, if_neg (lt_irrefl _)]

theorem ofGroup_init {numBlocks : Nat} {groups : List KVCacheSpec} {maxModelLen : Nat}
    {eagle caching events ints : Bool} {dcp pcp : ℕ+} {hashBlockSize : Nat}
    (h : KVCacheCoordinator.getKvCacheCoordinator numBlocks groups maxModelLen eagle caching
      events ints dcp pcp hashBlockSize = .ok c) : OfGroup c := by
  intro m hm
  obtain ⟨pool, hpool, hrest⟩ := bind_ok h
  split at hrest
  · cases hrest
    exact .inl rfl
  · split at hrest
    · rename_i spec
      obtain ⟨u, -, hret⟩ := bind_ok hrest
      cases hret
      cases hm
      refine .inr ?_
      rw [unitaryBlockSize_eq]
      rfl
    · rename_i hgroups
      obtain ⟨u1, -, hrest⟩ := bind_ok hrest
      obtain ⟨u2, -, hrest⟩ := bind_ok hrest
      obtain ⟨u3, -, hrest⟩ := bind_ok hrest
      obtain ⟨gs, -, hret⟩ := bind_ok hrest
      cases hret
      have hlen := (initManagers_spec pool dcp pcp 0 groups).2
      have hone : groups.length = 1 := by
        rw [← hlen]
        exact congrArg List.length hm
      obtain ⟨spec, hspec⟩ := List.length_eq_one_iff.mp hone
      exact absurd hspec (hgroups spec)

theorem ofGroup_step {op : KVOp} (h : OfGroup c) (hstep : kvStep c op = .ok c') : OfGroup c' := by
  intro m' hm'
  obtain ⟨hkind, hlen⟩ := kvStep_kind_length hstep
  have hone : c.singleTypeManagers.length = 1 := by
    rw [← hlen, hm']
    rfl
  obtain ⟨m, hm⟩ := List.length_eq_one_iff.mp hone
  have hget : c.singleTypeManagers[0]? = some m := by
    rw [hm]
    rfl
  obtain ⟨m1, hm1, hspec⟩ := kvStep_keepsSpec hstep hget
  rw [hm'] at hm1
  cases hm1
  rw [hkind, hspec.blockSize, hspec.kvCacheSpec]
  exact h m hm

/-- The number of hit tokens is the number of hit blocks times the block size, and a
cross-attention group has no hit. -/
theorem getComputedBlocks_tokens {k : KVCacheManager} {request : Request} {hits : KVCacheBlocks}
    {numTokens : Int} {m : SingleTypeKVCacheManager} (hc : OfGroup k.coordinator)
    (hm : k.coordinator.singleTypeManagers = [m])
    (h : k.getComputedBlocks request = .ok (hits, numTokens)) :
    numTokens = ((hits[0]?).getD []).length * (m.blockSize : Nat) ∧
      (m.kvCacheSpec.isCrossAttention = true → (hits[0]?).getD [] = []) := by
  have hempty : ∀ {hits : KVCacheBlocks} {numTokens : Int},
      (k.coordinator.singleTypeManagers.map fun _ => ([] : List BlockRef), (0 : Int)) =
        (hits, numTokens) → numTokens = ((hits[0]?).getD []).length * (m.blockSize : Nat) ∧
          (m.kvCacheSpec.isCrossAttention = true → (hits[0]?).getD [] = []) := by
    rintro _ _ ⟨⟩
    rw [hm]
    simp
  unfold KVCacheManager.getComputedBlocks at h
  split at h
  · exact hempty (Except.ok.inj h)
  · unfold KVCacheCoordinator.findLongestCacheHit at h
    rcases hc m hm with hkind | hkind
    · rw [hkind] at h
      exact hempty (Except.ok.inj h)
    · rw [hkind] at h
      obtain ⟨hit, hfind, hret⟩ := bind_ok h
      cases hret
      refine ⟨by rw [List.headD_eq_head?_getD, List.head?_eq_getElem?], fun hcross => ?_⟩
      cases hspec : m.kvCacheSpec with
      | crossAttention b =>
        rw [hspec] at hfind
        cases hfind
      | fullAttention | mlaAttention | slidingWindow | chunkedLocalAttention | mamba =>
        rw [hspec] at hcross
        cases hcross

end OneGroup

/-! ### The admission and the call -/

/-- The encoder tokens that `schedule` hands to `allocate_slots` for a waiting request. -/
def encoderTokens (s : Scheduler) (request : Request) : Int :=
  if s.config.isEncoderDecoder = true ∧ request.hasEncoderInputs = true then
    s.config.configMaxNumEncoderInputTokens else 0

/-- The blocks that `allocate_slots` gives a request without blocks for `numTokens` tokens. -/
def blocksFor (s : Scheduler) (request : Request) (m : SingleTypeKVCacheManager)
    (numTokens : Int) : Nat :=
  (cdiv (m.addSpeculativeTokens (groupTokens m numTokens (encoderTokens s request)))
    m.blockSize).toNat

/-- A remote load: the request `r` is admitted in the state `p` of `schedule` with the tokens
`t`, operations on other requests follow, and in the state `s` the load is complete. -/
structure RemoteLoad (p : SchedulePass) (r : ReqRef) (t : SchedulePass.CachedTokens)
    (s : Scheduler) : Prop where
  /-- The KV cache manager was built and used. -/
  built : ∃ numBlocks groups maxModelLen hashBlockSize caching eagle events ints dcp pcp k₀,
    KVCacheManager.init numBlocks groups maxModelLen hashBlockSize caching eagle events ints
      dcp pcp = .ok k₀ ∧
    Run kvStep (fun _ _ => True) k₀.coordinator p.s.kvCacheManager.coordinator
  /-- A waiting request without computed tokens has no blocks: it is new, or `free` was called
  when it was preempted. -/
  noBlocks : ∀ m ∈ p.s.kvCacheManager.coordinator.singleTypeManagers,
    m.table (p.s.objects r).requestId = []
  /-- The three parts of `schedule` that admit the request, and the operations that follow. -/
  admitted : ∃ connector ec plan p₁ p₂ p₃,
    p.getCachedTokens (some connector) r = .ok (some t, p₁) ∧
    p₁.planWaiting ec r t = .ok (some plan, p₂) ∧
    p₂.admitWaiting r t plan = .ok (true, p₃) ∧
    Run kvStep (fun _ op => ∀ group, Elsewhere group (p.s.objects r).requestId op)
      p₃.s.kvCacheManager.coordinator s.kvCacheManager.coordinator
  async : t.loadKvAsync = true
  /-- The tokens are tokens of the prompt. -/
  fits : t.numNewLocalComputedTokens + t.numExternalComputedTokens ≤ p.s.kvCacheManager.maxModelLen
  sameRequest : (s.objects r).requestId = (p.s.objects r).requestId

/-- The tokens that are in the KV cache when the load is complete. -/
def loadedTokens (t : SchedulePass.CachedTokens) : Int :=
  t.numNewLocalComputedTokens + t.numExternalComputedTokens

/-- Nothing beyond the first `numTokens` tokens counts as computed, and nothing beyond them is
in the prefix cache. -/
structure CountsOnly (numTokens : Int) (r : ReqRef) (s s' : Scheduler) : Prop where
  computed : (s'.objects r).numComputedTokens ≤ numTokens
  short : (s'.objects r).numComputedTokens < (s'.objects r).numTokens
  hashes : ∀ b, hashOf s'.kvCacheManager.coordinator.blockPool b
      ≠ hashOf s.kvCacheManager.coordinator.blockPool b →
    ∃ m ∈ s.kvCacheManager.coordinator.singleTypeManagers, ∃ j : Nat,
      (m.table (s.objects r).requestId)[j]? = some b ∧
        ((j : Int) + 1) * (m.blockSize : Nat) ≤ numTokens

section Admission
variable {p p₁ p₂ p₃ : SchedulePass} {r : ReqRef} {t : SchedulePass.CachedTokens}
  {connector : KVConnector} {ec : Option ECConnector} {plan : Scheduler.EncoderPlan}

/-- A request that loads its KVs has no computed tokens and takes its local hit. -/
theorem getCachedTokens_async (h : p.getCachedTokens (some connector) r = .ok (some t, p₁))
    (hasync : t.loadKvAsync = true) :
    (p.s.objects r).numComputedTokens = 0 ∧
      p.s.kvCacheManager.getComputedBlocks (p.s.objects r) =
        .ok (t.newComputedBlocks, t.numNewLocalComputedTokens) ∧
      p₁ = { p with s := p.s.modify r fun request =>
        { request with numExternalComputedTokens := t.numExternalComputedTokens } } := by
  unfold SchedulePass.getCachedTokens at h
  dsimp only at h
  split at h
  · rename_i hzero
    obtain ⟨⟨hits, numNewLocal⟩, hhits, h⟩ := bind_ok h
    dsimp only at h
    split at h
    · cases h
    · obtain ⟨ht, rfl⟩ := Prod.mk.inj (Except.ok.inj h)
      cases ht
      exact ⟨hzero, hhits, rfl⟩
  · obtain ⟨ht, -⟩ := Prod.mk.inj (Except.ok.inj h)
    cases ht
    cases hasync

theorem planWaiting_async (h : p₁.planWaiting ec r t = .ok (some plan, p₂))
    (hasync : t.loadKvAsync = true) : p₂ = p₁ ∧ plan.numNewTokens = 0 ∧
    0 < t.numExternalComputedTokens := by
  unfold SchedulePass.planWaiting at h
  dsimp only at h
  rw [if_pos hasync] at h
  obtain ⟨u, hassert, h⟩ := bind_ok h
  obtain ⟨hplan, rfl⟩ := Prod.mk.inj (Except.ok.inj h)
  cases hplan
  exact ⟨rfl, rfl, of_decide_eq_true (pyAssert_eq_ok_iff.mp hassert)⟩

/-- A request that loads its KVs gets slots for the external tokens, and nothing else happens
to the KV cache. -/
theorem admitWaiting_async (h : p₂.admitWaiting r t plan = .ok (true, p₃))
    (hasync : t.loadKvAsync = true) (hzero : (p₂.s.objects r).numComputedTokens = 0) :
    ∃ newBlocks, p₂.s.kvCacheManager.allocateSlots (p₂.s.objects r)
      (plan.numNewTokens + t.numExternalComputedTokens) t.numNewLocalComputedTokens
      (some t.newComputedBlocks) 0 true (encoderTokens p₂.s (p₂.s.objects r)) =
        .ok (some newBlocks, p₃.s.kvCacheManager) := by
  unfold SchedulePass.admitWaiting at h
  obtain ⟨⟨newBlocks, k⟩, halloc, h⟩ := bind_ok h
  rw [if_pos hzero, hasync] at halloc
  cases newBlocks with
  | none =>
    obtain ⟨hfalse, -⟩ := Prod.mk.inj (Except.ok.inj h)
    cases hfalse
  | some Xs =>
    dsimp only at h
    rw [if_neg (show ¬ (some Xs).isNone = true from Bool.false_ne_true), if_pos hasync] at h
    cases h
    exact ⟨Xs, halloc⟩

end Admission

/-- The hit and the blocks on top of it are the blocks that all tokens need. -/
theorem hit_add_missing {m : SingleTypeKVCacheManager} {hit : Nat} {tokens numEncoderTokens : Int}
    (hle : (hit : Int) * (m.blockSize : Nat) ≤ tokens)
    (hcross : m.kvCacheSpec.isCrossAttention = true → hit = 0) :
    hit + (cdiv (m.addSpeculativeTokens (groupTokens m tokens numEncoderTokens)) m.blockSize
        - hit).toNat =
      (cdiv (m.addSpeculativeTokens (groupTokens m tokens numEncoderTokens))
        m.blockSize).toNat := by
  by_cases hc : m.kvCacheSpec.isCrossAttention = true
  · rw [hcross hc]
    simp
  · have htokens : groupTokens m tokens numEncoderTokens = tokens := if_neg hc
    have hB : (0 : Int) < (m.blockSize : Nat) := by exact_mod_cast m.blockSize.pos
    have hspec := le_addSpeculativeTokens m tokens
    have hnot : ¬ cdiv (m.addSpeculativeTokens tokens) (m.blockSize : Nat) ≤ (hit : Int) - 1 := by
      rw [cdiv_le_iff, Int.sub_mul]
      omega
    rw [htokens]
    omega

/-- The table of the request when the load is complete: as many blocks as the loaded tokens
need. -/
theorem remoteLoad_table {p : SchedulePass} {r : ReqRef} {t : SchedulePass.CachedTokens}
    {s : Scheduler} {m' : SingleTypeKVCacheManager} (h : RemoteLoad p r t s)
    (hm' : s.kvCacheManager.coordinator.singleTypeManagers = [m']) :
    ∃ m, p.s.kvCacheManager.coordinator.singleTypeManagers = [m] ∧ KeepsSpec m m' ∧
      (m'.table (s.objects r).requestId).length =
        blocksFor p.s (p.s.objects r) m (loadedTokens t) := by
  obtain ⟨connector, ec, plan, p₁, p₂, p₃, hcached, hplan, hadmit, hrun⟩ := h.admitted
  obtain ⟨hzero, hhits, rfl⟩ := getCachedTokens_async hcached h.async
  obtain ⟨rfl, hnew, hpos⟩ := planWaiting_async hplan h.async
  let request : Request :=
    { p.s.objects r with numExternalComputedTokens := t.numExternalComputedTokens }
  have hobj : (p.s.modify r fun request => { request with
      numExternalComputedTokens := t.numExternalComputedTokens }).objects r = request :=
    Function.update_self ..
  obtain ⟨newBlocks, halloc⟩ := admitWaiting_async hadmit h.async (by
    rw [hobj]
    exact hzero)
  rw [hobj, hnew] at halloc
  obtain ⟨hlen, -⟩ := allocateSlots_length halloc
  -- The operations in between keep the one group.
  have hbetween : p₃.s.kvCacheManager.coordinator.singleTypeManagers.length = 1 := by
    refine Eq.trans (Eq.symm ?_) (congrArg List.length hm')
    exact hrun.invariant (fun c => c.singleTypeManagers.length
      = p₃.s.kvCacheManager.coordinator.singleTypeManagers.length) rfl
      fun c op c' hlen _ hstep => (kvStep_kind_length hstep).2.trans hlen
  obtain ⟨m, hm⟩ := List.length_eq_one_iff.mp (hlen.symm.trans hbetween)
  replace hm : p.s.kvCacheManager.coordinator.singleTypeManagers = [m] := hm
  have hget : p.s.kvCacheManager.coordinator.singleTypeManagers[0]? = some m := by
    rw [hm]
    rfl
  obtain ⟨m1, hm1, hcases⟩ := allocateSlots_manager halloc hget rfl
  rcases hcases with ⟨hnone, -⟩ | ⟨Xs, X, -, -, hext, hX⟩
  · cases hnone
  -- They keep the table too.
  obtain ⟨m2, hm2, hspec2, htable2⟩ := hrun.invariant (fun c => ∃ m2,
      c.singleTypeManagers[0]? = some m2 ∧ KeepsSpec m1 m2 ∧
        m2.table (p.s.objects r).requestId = m1.table (p.s.objects r).requestId)
    ⟨m1, hm1, KeepsSpec.refl m1, rfl⟩ (by
      rintro c op c' ⟨m2, hm2, hspec, htable⟩ hop hstep
      obtain ⟨m3, hm3, hspec3, htable3⟩ := table_of_elsewhere (hop 0) hstep hm2
      exact ⟨m3, hm3, hspec.trans hspec3, htable3.trans htable⟩)
  rw [hm'] at hm2
  cases hm2
  refine ⟨m, hm, hext.spec.trans hspec2, ?_⟩
  obtain ⟨numBlocks, groups, maxModelLen, hashBlockSize, caching, eagle, events, ints, dcp, pcp,
    k0, hinit, hbefore⟩ := h.built
  have hgroup : OfGroup p.s.kvCacheManager.coordinator := by
    obtain ⟨c0, hc0, hret⟩ := bind_ok hinit
    cases hret
    exact hbefore.invariant OfGroup (ofGroup_init hc0) fun c op c' hc _ hstep =>
      ofGroup_step hc hstep
  obtain ⟨hlocal, hcross⟩ := getComputedBlocks_tokens hgroup hm hhits
  obtain ⟨T, hT, htable⟩ := hext.table
  have hnil : m.table (p.s.objects r).requestId = [] := h.noBlocks m (by simp [hm])
  have hT0 : T = [] := List.length_eq_zero_iff.mp (hT.length_eq.trans (congrArg List.length hnil))
  have hsum : min ((p.s.objects r).numComputedTokens + t.numNewLocalComputedTokens
      + (0 + t.numExternalComputedTokens) + 0) (p.s.kvCacheManager.maxModelLen : Int)
      = loadedTokens t := by
    have hfits := h.fits
    unfold loadedTokens
    omega
  have hmissing : blocksMissing m (p.s.objects r).requestId
      (groupTokens m (loadedTokens t) (encoderTokens p.s (p.s.objects r))) =
      cdiv (m.addSpeculativeTokens
        (groupTokens m (loadedTokens t) (encoderTokens p.s (p.s.objects r)))) m.blockSize := by
    unfold blocksMissing
    rw [hnil]
    simp
  have hX' : X.length = (blocksMissing m (p.s.objects r).requestId
      (groupTokens m (loadedTokens t) (encoderTokens p.s (p.s.objects r)))
      - ((t.newComputedBlocks[0]?).getD []).length).toNat := by
    rw [← hsum]
    exact hX
  have htable' : m1.table (p.s.objects r).requestId = (t.newComputedBlocks[0]?).getD [] ++ X := by
    rw [hT0] at htable
    exact htable
  rw [h.sameRequest, htable2, htable', List.length_append, hX', hmissing]
  refine hit_add_missing ?_ fun hc => by rw [hcross hc]; rfl
  unfold loadedTokens
  omega

/-! ### The hashes that the call writes -/

section Hashes
variable {k k' : KVCacheManager} {request : Request} {b : BlockRef}

/-- A hash that an operation on all groups changes was changed in one of them. -/
theorem forManagers_hash {f : SingleTypeKVCacheManager → BlockPool →
      Except PyError (SingleTypeKVCacheManager × BlockPool)} {Q : SingleTypeKVCacheManager → Prop}
    {ms ms' : List SingleTypeKVCacheManager} {p p' : BlockPool}
    (hf : ∀ m p m' p', f m p = .ok (m', p') → hashOf p' b ≠ hashOf p b → Q m)
    (h : KVCacheCoordinator.forManagers f ms p = .ok (ms', p'))
    (hb : hashOf p' b ≠ hashOf p b) : ∃ m ∈ ms, Q m := by
  induction ms generalizing ms' p with
  | nil =>
    obtain ⟨-, rfl⟩ := Prod.mk.inj (Except.ok.inj h)
    exact absurd rfl hb
  | cons m ms ih =>
    obtain ⟨⟨m1, p₁⟩, hone, h⟩ := bind_ok h
    obtain ⟨⟨ms1, p₂⟩, hrest, h⟩ := bind_ok h
    obtain ⟨-, rfl⟩ := Prod.mk.inj (Except.ok.inj h)
    by_cases hlater : hashOf p₂ b = hashOf p₁ b
    · exact ⟨m, by simp, hf m p m1 p₁ hone fun heq => hb (hlater.trans heq)⟩
    · obtain ⟨m', hm', hQ⟩ := ih hrest hlater
      exact ⟨m', by simp [hm'], hQ⟩

/-- `cache_blocks` writes the hashes of full blocks of the request only. -/
theorem managerCacheBlocks_changed {numComputedTokens : Int}
    (h : k.cacheBlocks request numComputedTokens = .ok k')
    (hb : hashOf k'.coordinator.blockPool b ≠ hashOf k.coordinator.blockPool b) :
    ∃ m ∈ k.coordinator.singleTypeManagers, ∃ j : Nat,
      (m.table request.requestId)[j]? = some b ∧
        ((j : Int) + 1) * (m.blockSize : Nat) ≤ numComputedTokens := by
  unfold KVCacheManager.cacheBlocks at h
  split at h
  · obtain ⟨c, hc, hret⟩ := bind_ok h
    cases hret
    obtain ⟨⟨ms, pool⟩, hall, hret⟩ := bind_ok hc
    cases hret
    exact forManagers_hash (fun m p m' p' hrun => cacheBlocks_changed hrun) hall hb
  · cases h
    exact absurd rfl hb

/-- `free` writes no hash. -/
theorem managerFree_hash (h : k.free request = .ok k') :
    hashOf k'.coordinator.blockPool b = hashOf k.coordinator.blockPool b := by
  obtain ⟨c, hc, hret⟩ := bind_ok h
  cases hret
  obtain ⟨⟨ms, pool⟩, hall, hret⟩ := bind_ok hc
  cases hret
  by_contra hb
  obtain ⟨m, -, hfalse⟩ := forManagers_hash (Q := fun _ => False) (fun m p m' p' hrun hne => by
    obtain ⟨p₁, hfree, hret⟩ := bind_ok hrun
    cases hret
    exact hne (congrFun (sameHash_freeBlocks hfree).hash b)) hall hb
  exact hfalse

end Hashes

/-! ### The number of computed tokens -/

/-- The number of computed tokens that `_update_waiting_for_remote_kv` sets. -/
def countedTokens (numBlocks blockSize numTokens : Nat) : Int :=
  if min ((numBlocks : Int) * blockSize) numTokens = numTokens then
    min ((numBlocks : Int) * blockSize) numTokens - 1
  else min ((numBlocks : Int) * blockSize) numTokens

theorem countedTokens_lt (numBlocks blockSize numTokens : Nat) :
    countedTokens numBlocks blockSize numTokens < numTokens := by
  unfold countedTokens
  split <;> omega

theorem countedTokens_le_iff (numBlocks blockSize numTokens : Nat) (tokens : Int) :
    countedTokens numBlocks blockSize numTokens ≤ tokens ↔
      (numTokens : Int) ≤ tokens + 1 ∨ (numBlocks : Int) * blockSize ≤ tokens := by
  unfold countedTokens
  split <;> omega

section Update
variable {s s' : Scheduler} {r : ReqRef}

/-- What a call does that finds the load complete. -/
theorem updateWaitingForRemoteKv_true (h : s.updateWaitingForRemoteKv r = .ok (true, s')) :
    ((s.objects r).requestId ∈ s.failedRecvingKvReqIds ∧ s'.objects = s.objects ∧
      ((s.objects r).numComputedTokens ≠ 0 ∧ s.kvCacheManager.cacheBlocks (s.objects r)
          (s.objects r).numComputedTokens = .ok s'.kvCacheManager ∨
        s.kvCacheManager.free (s.objects r) = .ok s'.kvCacheManager)) ∨
    ((s.objects r).requestId ∉ s.failedRecvingKvReqIds ∧ ∃ m,
      s.kvCacheManager.coordinator.singleTypeManagers = [m] ∧
      s'.objects r = { s.objects r with
        numComputedTokens := countedTokens (m.table (s.objects r).requestId).length
          s.config.blockSize (s.objects r).numTokens } ∧
      s.kvCacheManager.cacheBlocks (s.objects r)
        (countedTokens (m.table (s.objects r).requestId).length s.config.blockSize
          (s.objects r).numTokens) = .ok s'.kvCacheManager) := by
  unfold Scheduler.updateWaitingForRemoteKv at h
  dsimp only at h
  split at h
  · obtain ⟨hfalse, -⟩ := Prod.mk.inj (Except.ok.inj h)
    cases hfalse
  · split at h
    · rename_i hfailed
      obtain ⟨k, hk, h⟩ := bind_ok h
      cases h
      refine .inl ⟨hfailed, rfl, ?_⟩
      split at hk
      · rename_i hne
        exact .inl ⟨hne, hk⟩
      · exact .inr hk
    · rename_i hfailed
      split at h
      · rename_i blockIds hids
        obtain ⟨k, hk, h⟩ := bind_ok h
        cases h
        unfold KVCacheBlocks.getBlockIds KVCacheManager.getBlocks
          KVCacheCoordinator.getBlocks at hids
        rw [List.map_map] at hids
        obtain ⟨m, hm, hlen⟩ := List.map_eq_singleton_iff.mp hids
        have hlen' : blockIds.length = (m.table (s.objects r).requestId).length := by
          rw [← hlen]
          simp
        rw [hlen'] at hk ⊢
        exact .inr ⟨hfailed, m, hm, Function.update_self .., hk⟩
      · cases h

end Update

/-! ### When the count is right -/

/-- The condition on a load. If it failed, the count is the one that
`_update_requests_with_invalid_blocks` has set. If not, all tokens but the last are loaded, or
the loaded tokens fill the blocks that were allocated for them. -/
def LoadEndsAtBlock (p : SchedulePass) (r : ReqRef) (t : SchedulePass.CachedTokens)
    (s : Scheduler) : Prop :=
  if (s.objects r).requestId ∈ s.failedRecvingKvReqIds then
    (s.objects r).numComputedTokens ≤ loadedTokens t ∧
      (s.objects r).numComputedTokens < (s.objects r).numTokens
  else
    ((s.objects r).numTokens : Int) ≤ loadedTokens t + 1 ∨
      ∀ m ∈ p.s.kvCacheManager.coordinator.singleTypeManagers,
        (blocksFor p.s (p.s.objects r) m (loadedTokens t) : Int) * s.config.blockSize
          ≤ loadedTokens t

/-- With the block size of the scheduler, tokens fill their blocks if their number is a multiple
of it and the group has no speculative blocks. -/
theorem blocksFor_mul_le_iff {s : Scheduler} {request : Request} {m : SingleTypeKVCacheManager}
    {tokens : Int} (hpos : 0 ≤ tokens) (hcross : m.kvCacheSpec.isCrossAttention = false) :
    (blocksFor s request m tokens : Int) * (m.blockSize : Nat) ≤ tokens ↔
      ((m.blockSize : Nat) : Int) ∣ tokens ∧ m.addSpeculativeTokens tokens = tokens := by
  have htokens : groupTokens m tokens (encoderTokens s request) = tokens :=
    if_neg (by simp [hcross])
  have hB : (0 : Int) < (m.blockSize : Nat) := by exact_mod_cast m.blockSize.pos
  have hspec := le_addSpeculativeTokens m tokens
  have hcover := (cdiv_le_iff (a := m.addSpeculativeTokens tokens) m.blockSize).mp le_rfl
  have hnonneg : 0 ≤ cdiv (m.addSpeculativeTokens tokens) (m.blockSize : Nat) := by
    by_contra hneg
    have hle := (cdiv_le_iff (a := m.addSpeculativeTokens tokens) (n := -1) m.blockSize).mp
      (by omega)
    omega
  have hblocks : (blocksFor s request m tokens : Int) =
      cdiv (m.addSpeculativeTokens tokens) (m.blockSize : Nat) := by
    unfold blocksFor
    rw [htokens, Int.toNat_of_nonneg hnonneg]
  rw [hblocks]
  constructor
  · intro hle
    have heq : m.addSpeculativeTokens tokens = tokens := le_antisymm (hcover.trans hle) hspec
    refine ⟨⟨cdiv (m.addSpeculativeTokens tokens) (m.blockSize : Nat), ?_⟩, heq⟩
    rw [mul_comm]
    exact le_antisymm (hspec.trans hcover) hle
  · rintro ⟨⟨q, hq⟩, heq⟩
    have hcdiv : cdiv (m.addSpeculativeTokens tokens) (m.blockSize : Nat) ≤ q := by
      rw [heq, cdiv_le_iff, hq, mul_comm]
    calc cdiv (m.addSpeculativeTokens tokens) (m.blockSize : Nat) * (m.blockSize : Nat)
        ≤ q * (m.blockSize : Nat) := Int.mul_le_mul_of_nonneg_right hcdiv hB.le
      _ = tokens := by rw [hq, mul_comm]

section Main
variable {p : SchedulePass} {r : ReqRef} {t : SchedulePass.CachedTokens} {s s' : Scheduler}

/-- A call that keeps to a number of computed tokens writes no hash beyond it. -/
theorem countsOnly_of_cacheBlocks {numTokens numComputedTokens : Int}
    (hcache : s.kvCacheManager.cacheBlocks (s.objects r) numComputedTokens = .ok s'.kvCacheManager)
    (hle : numComputedTokens ≤ numTokens)
    (hcomputed : (s'.objects r).numComputedTokens = numComputedTokens)
    (hshort : numComputedTokens < (s'.objects r).numTokens) : CountsOnly numTokens r s s' where
  computed := hcomputed.le.trans hle
  short := hcomputed.le.trans_lt hshort
  hashes b hb := by
    obtain ⟨m, hm, j, hj, hcovered⟩ := managerCacheBlocks_changed hcache hb
    exact ⟨m, hm, j, hj, hcovered.trans hle⟩

/-- When a remote load is complete, only loaded tokens are counted as computed and only blocks
of loaded tokens enter the prefix cache, if and only if the load ends at the end of a block or
all but the last token of the request are loaded. Ending at a block means, for a group with the
block size of the scheduler, that the block size divides the number of loaded tokens. -/
theorem countsOnlyLoaded_iff (h : RemoteLoad p r t s)
    (hupdate : s.updateWaitingForRemoteKv r = .ok (true, s')) :
    (CountsOnly (loadedTokens t) r s s' ↔ LoadEndsAtBlock p r t s) ∧
      ∀ m ∈ p.s.kvCacheManager.coordinator.singleTypeManagers,
        m.kvCacheSpec.isCrossAttention = false → s.config.blockSize = (m.blockSize : Nat) →
        0 ≤ loadedTokens t →
        ((blocksFor p.s (p.s.objects r) m (loadedTokens t) : Int) * s.config.blockSize
            ≤ loadedTokens t ↔
          ((m.blockSize : Nat) : Int) ∣ loadedTokens t ∧
            m.addSpeculativeTokens (loadedTokens t) = loadedTokens t) := by
  refine ⟨?_, fun m _ hcross hsize hpos => by
    rw [hsize]
    exact blocksFor_mul_le_iff hpos hcross⟩
  unfold LoadEndsAtBlock
  rcases updateWaitingForRemoteKv_true hupdate with ⟨hfailed, hobjects, hcall⟩ |
    ⟨hfailed, m', hm', hobject, hcache⟩
  · rw [if_pos hfailed]
    refine ⟨fun hcounts => ?_, fun ⟨hle, hlt⟩ => ?_⟩
    · have hcomputed := hcounts.computed
      have hshort := hcounts.short
      rw [hobjects] at hcomputed hshort
      exact ⟨hcomputed, hshort⟩
    · rcases hcall with ⟨-, hcache⟩ | hfree
      · exact countsOnly_of_cacheBlocks hcache hle (by rw [hobjects]) (by rw [hobjects]; exact hlt)
      · refine ⟨?_, ?_, fun b hb => absurd (managerFree_hash hfree) hb⟩
        · rw [hobjects]
          exact hle
        · rw [hobjects]
          exact hlt
  · rw [if_neg hfailed]
    obtain ⟨m, hm, -, hlen⟩ := remoteLoad_table h hm'
    rw [hlen] at hobject hcache
    rw [hm]
    simp only [List.mem_singleton, forall_eq]
    rw [← countedTokens_le_iff]
    constructor
    · intro hcounts
      have hcomputed := hcounts.computed
      rw [hobject] at hcomputed
      exact hcomputed
    · intro hle
      refine countsOnly_of_cacheBlocks hcache hle (by rw [hobject]) ?_
      rw [hobject]
      exact countedTokens_lt _ _ _

end Main

/-! ### Two loads -/

/-- A prompt of ten tokens in blocks of four. -/
def remotePrompt : Request :=
  { requestId := "r"
    promptTokenIds := some [0, 1, 2, 3, 4, 5, 6, 7, 8, 9]
    numPromptTokens := 10
    allTokenIds := [0, 1, 2, 3, 4, 5, 6, 7, 8, 9]
    blockHashes := [[1], [2]] }

/-- One group of full attention with prefix caching. -/
def remoteManagerInit : Except PyError KVCacheManager :=
  KVCacheManager.init 8 [.fullAttention 4] 64 4 true false false false 1 1

/-- The manager of that model. -/
def remoteManager : KVCacheManager := remoteManagerInit.toOption.get (by decide +kernel)

/-- The scheduler, with the request as its only one. -/
def remoteScheduler : Scheduler :=
  { config :=
      { maxNumRunningReqs := 2
        maxNumScheduledTokens := 32
        maxModelLen := 64
        blockSize := 4 }
    objects := fun _ => remotePrompt
    numObjects := 1
    requests := PyDict.empty.insert "r" 0
    waiting := [0]
    encoderCacheManager := .init false 0
    kvCacheManager := remoteManager }

/-- `schedule` at the request. -/
def remotePass : SchedulePass :=
  { s := remoteScheduler, tokenBudget := 32, encoderComputeBudget := 0 }

/-- A connector that reports `extTokens` tokens and loads them asynchronously. -/
def loadsTokens (extTokens : Int) : KVConnector :=
  { getNumNewMatchedTokens := fun _ _ => (some extTokens, true)
    requestFinished := fun _ _ => (false, false) }

/-- The admission and, once the receive is reported, the call. -/
def runRemoteLoad (connector : KVConnector) (p : SchedulePass) (r : ReqRef) :
    Option (SchedulePass.CachedTokens × Scheduler × Scheduler) :=
  match p.getCachedTokens (some connector) r with
  | .ok (some t, p₁) =>
    match p₁.planWaiting none r t with
    | .ok (some plan, p₂) =>
      match p₂.admitWaiting r t plan with
      | .ok (true, p₃) =>
        let s := { p₃.s with finishedRecvingKvReqIds := [(p.s.objects r).requestId] }
        match s.updateWaitingForRemoteKv r with
        | .ok (true, s') => some (t, s, s')
        | _ => none
      | _ => none
    | _ => none
  | _ => none

/-- Such a run is a remote load. -/
theorem remoteLoad_of_run {connector : KVConnector} {t : SchedulePass.CachedTokens}
    {s s' : Scheduler} (h : runRemoteLoad connector remotePass 0 = some (t, s, s'))
    (hasync : t.loadKvAsync = true) (hfits : loadedTokens t ≤ 64)
    (hid : (s.objects 0).requestId = "r") :
    RemoteLoad remotePass 0 t s ∧ s.updateWaitingForRemoteKv 0 = .ok (true, s') := by
  unfold runRemoteLoad at h
  split at h
  · rename_i t1 p₁ hcached
    split at h
    · rename_i plan p₂ hplan
      split at h
      · rename_i p₃ hadmit
        dsimp only at h
        split at h
        · rename_i s1 hupdate
          obtain ⟨rfl, hpair⟩ := Prod.mk.inj (Option.some.inj h)
          cases hpair
          exact ⟨{
            built := ⟨8, [.fullAttention 4], 64, 4, true, false, false, false, 1, 1,
              remoteManager, rfl, .start⟩
            noBlocks := by decide +kernel
            admitted := ⟨connector, none, plan, p₁, p₂, p₃, hcached, hplan, hadmit, .start⟩
            async := hasync
            fits := hfits
            sameRequest := hid }, hupdate⟩
        · cases h
      · cases h
    · cases h
  · cases h

/-- Eight of ten tokens fill two blocks: the request continues behind them. -/
theorem countsOnlyLoaded_aligned : ∃ p r t s s', RemoteLoad p r t s ∧
    s.updateWaitingForRemoteKv r = .ok (true, s') ∧ loadedTokens t = 8 ∧
    (s'.objects r).numComputedTokens = 8 ∧ CountsOnly (loadedTokens t) r s s' := by
  have hcheck : (match runRemoteLoad (loadsTokens 8) remotePass 0 with
      | some (t, s, s') => decide (t.loadKvAsync = true ∧ loadedTokens t = 8 ∧
          (s.objects 0).requestId = "r" ∧ (s'.objects 0).numComputedTokens = 8 ∧
          "r" ∉ s.failedRecvingKvReqIds ∧ s.config.blockSize = 4)
      | none => false) = true := by decide +kernel
  split at hcheck
  · rename_i t s s' hrun
    obtain ⟨hasync, htokens, hid, hcomputed, hfailed, hsize⟩ := of_decide_eq_true hcheck
    obtain ⟨hload, hupdate⟩ := remoteLoad_of_run hrun hasync (by omega) hid
    refine ⟨remotePass, 0, t, s, s', hload, hupdate, htokens, hcomputed, ?_⟩
    refine (countsOnlyLoaded_iff hload hupdate).1.mpr ?_
    unfold LoadEndsAtBlock
    rw [hid, if_neg hfailed, htokens, hsize]
    exact .inr (by decide +kernel)
  · cases hcheck

/-- Five of ten tokens need two blocks, and eight tokens are counted as computed: three of them
were never loaded. -/
theorem unloaded_tokens_counted : ¬ ∀ p r t s s', RemoteLoad p r t s →
    s.updateWaitingForRemoteKv r = .ok (true, s') → CountsOnly (loadedTokens t) r s s' := by
  intro hall
  have hcheck : (match runRemoteLoad (loadsTokens 5) remotePass 0 with
      | some (t, s, s') => decide (t.loadKvAsync = true ∧ loadedTokens t = 5 ∧
          (s.objects 0).requestId = "r" ∧ (s'.objects 0).numComputedTokens = 8)
      | none => false) = true := by decide +kernel
  split at hcheck
  · rename_i t s s' hrun
    obtain ⟨hasync, htokens, hid, hcomputed⟩ := of_decide_eq_true hcheck
    obtain ⟨hload, hupdate⟩ := remoteLoad_of_run hrun hasync (by omega) hid
    have hle := (hall remotePass 0 t s s' hload hupdate).computed
    omega
  · cases hcheck

end Vllm.Proofs.Sched
