import Vllm.Proofs.Core.PoolRun
import Mathlib.Data.Finset.Basic

/-!
# `Vllm.Proofs.Core.Events`: the events of the block pool

A reader of the events holds the hashes that were stored and not removed since.

* `Evicts`, `evicts_getNewBlocksLoop`, `evicts_evictBlocks`: an eviction of blocks removes their
  hashes from what the reader holds.
* `EvictsAllCopies`: with a block all other blocks with its hash are evicted.
* `events_replay`: in the runs with this condition the reader holds the hashes of the blocks.
* `removed_hash_still_cached`: else it may lose the hash of a block that is still cached.
-/

set_option autoImplicit false

namespace Vllm.Proofs.Core

open Vllm.Lib Vllm.V1 Vllm.V1.Core List
open Vllm.V1.Core.BlockPool

/-! ### The reader -/

/-- One event on the hashes that the reader holds. -/
def applyEvent (held : Finset ExternalBlockHash) : KVCacheEvent → Finset ExternalBlockHash
  | .blockStored blockHashes .. => held ∪ blockHashes.toFinset
  | .blockRemoved blockHashes _ => held \ blockHashes.toFinset
  | .allBlocksCleared => ∅

/-- The events in order, on an empty set. -/
def replay (events : List KVCacheEvent) : Finset ExternalBlockHash :=
  events.foldl applyEvent ∅

@[simp] theorem replay_concat (events : List KVCacheEvent) (event : KVCacheEvent) :
    replay (events ++ [event]) = applyEvent (replay events) event := by
  simp [replay]

/-- The hashes that an event stores. -/
def storedBy : KVCacheEvent → List ExternalBlockHash
  | .blockStored blockHashes .. => blockHashes
  | _ => []

/-- The parent hash of an event. -/
def parentOf : KVCacheEvent → Option ExternalBlockHash
  | .blockStored _ parentBlockHash .. => parentBlockHash
  | _ => none

/-- A hash was stored by one of the events. -/
def Stored (events : List KVCacheEvent) (h : ExternalBlockHash) : Prop :=
  ∃ event ∈ events, h ∈ storedBy event

/-- Every parent hash was stored by an earlier event. -/
def ParentsStored (events : List KVCacheEvent) : Prop :=
  ∀ before event after, events = before ++ event :: after →
    ∀ h ∈ parentOf event, Stored before h

theorem parentsStored_concat {events : List KVCacheEvent} {event : KVCacheEvent}
    (h : ParentsStored events) (hparent : ∀ k ∈ parentOf event, Stored events k) :
    ParentsStored (events ++ [event]) := by
  intro before e after heq k hk
  rcases eq_nil_or_concat after with rfl | ⟨after, last, rfl⟩
  · obtain ⟨rfl, hlast⟩ := append_inj' heq rfl
    obtain rfl := (List.cons.inj hlast).1
    exact hparent k hk
  · rw [concat_eq_append, ← cons_append, ← append_assoc] at heq
    obtain ⟨hinit, -⟩ := append_inj' heq rfl
    exact h before e after hinit k hk

/-! ### The hashes of the blocks -/

section Blocks

variable {p p' : BlockPool}

/-- The hash of a block as the events give it. -/
def external (p : BlockPool) (r : BlockRef) : Option ExternalBlockHash :=
  (hashOf p r).map fun k => maybeConvertBlockHash p.useIntBlockHashes (getBlockHash k)

@[simp] theorem getBlockHash_make (h : BlockHash) (g : UInt32) :
    getBlockHash (makeBlockHashWithGroupId h g) = h := by
  unfold getBlockHash makeBlockHashWithGroupId groupIdBytes
  simp

/-- The effect of evicting the blocks `X`: they have no hash afterwards, and the reader loses the
hashes they had. -/
structure Evicts (p p' : BlockPool) (X : List BlockRef) : Prop where
  agree : PoolAgree p'
  conf : confOf p' = confOf p
  hash : ∀ r, external p' r = if r ∈ X then none else external p r
  replay : ∀ h, h ∈ replay p'.kvEventQueue ↔
    h ∈ replay p.kvEventQueue ∧ ∀ b ∈ X, external p b ≠ some h
  parents : ParentsStored p.kvEventQueue → ParentsStored p'.kvEventQueue
  stored : ∀ h, Stored p.kvEventQueue h → Stored p'.kvEventQueue h

theorem evicts_nil (h : PoolAgree p) : Evicts p p [] where
  agree := h
  conf := rfl
  hash _ := rfl
  replay _ := ⟨fun hk => ⟨hk, nofun⟩, And.left⟩
  parents := id
  stored _ := id

theorem Evicts.cons {p1 : BlockPool} {x : BlockRef} {X : List BlockRef}
    (h1 : Evicts p p1 [x]) (h : Evicts p1 p' X) : Evicts p p' (x :: X) where
  __ := h
  conf := h.conf.trans h1.conf
  hash r := by
    rw [h.hash, h1.hash]
    by_cases hX : r ∈ X
    · simp [hX]
    · simp [hX]
  replay k := by
    rw [h.replay, h1.replay, and_assoc]
    refine and_congr_right fun _ => ⟨fun ⟨hx, hX⟩ b hb => ?_, fun hall => ⟨fun b hb => ?_,
      fun b hb => ?_⟩⟩
    · rcases mem_cons.mp hb with rfl | hb
      · exact hx b mem_cons_self
      · by_cases hbx : b = x
        · rw [hbx]
          exact hx x mem_cons_self
        · have := hX b hb
          rw [h1.hash, if_neg (by simpa using hbx)] at this
          exact this
    · rw [mem_singleton.mp hb]
      exact hall x mem_cons_self
    · rw [h1.hash]
      split
      · exact nofun
      · exact hall b (mem_cons_of_mem _ hb)
  parents hp := h.parents (h1.parents hp)
  stored k hk := h.stored k (h1.stored k hk)

theorem useInt_of_conf (h : confOf p' = confOf p) : p'.useIntBlockHashes = p.useIntBlockHashes :=
  congrArg (fun c => c.2.2.2.2.2) h

theorem events_of_conf (h : confOf p' = confOf p) :
    p'.enableKvCacheEvents = p.enableKvCacheEvents :=
  congrArg (fun c => c.2.2.2.2.1) h

/-- What neither writes a hash nor emits an event. -/
theorem evicts_of_sameHash (h : PoolAgree p) (hs : SameHash p p')
    (hq : p'.kvEventQueue = p.kvEventQueue) : Evicts p p' [] where
  __ := hs
  agree := hs.poolAgree h
  hash r := by
    unfold external
    rw [hs.hash, useInt_of_conf hs.conf]
    rfl
  replay k := by
    rw [hq]
    exact ⟨fun hk => ⟨hk, nofun⟩, And.left⟩
  parents hp := hq ▸ hp
  stored k hk := hq ▸ hk

/-- `_maybe_evict_cached_block`. -/
theorem evicts_maybeEvictCachedBlock (hev : p.enableKvCacheEvents = true) (h : PoolAgree p)
    (b : BlockRef) : Evicts p (p.maybeEvictCachedBlock b).2 [b] := by
  obtain ⟨hagree, hhash⟩ := maybeEvictCachedBlock_spec b h
  have hconf := (sameQueue_maybeEvictCachedBlock p b).conf
  have hexternal : ∀ r, external (p.maybeEvictCachedBlock b).2 r =
      if r ∈ [b] then none else external p r := by
    intro r
    unfold external
    rw [hhash, useInt_of_conf hconf]
    by_cases hr : r = b
    · simp [hr]
    · simp [hr]
  have hqueue : (p.maybeEvictCachedBlock b).2.kvEventQueue = p.kvEventQueue ++
      (external p b).toList.map fun k => .blockRemoved [k] mediumGpu := by
    unfold maybeEvictCachedBlock external
    cases hb : hashOf p b with
    | none =>
      have hb' : (p.deref b).blockHash = none := hb
      rw [hb']
      simp
    | some k =>
      have hb' : (p.deref b).blockHash = some k := hb
      obtain ⟨m', hpop, -⟩ := MapAgree.pop h (r := b) (k := k) hb
      rw [hb']
      dsimp only
      rw [hpop]
      dsimp only
      have hev' : ({ p with cachedBlockHashToBlock := m' }.modify b
          fun b => { b with blockHash := none }).enableKvCacheEvents = true := hev
      rw [if_pos hev']
      rfl
  cases hb : external p b with
  | none =>
    rw [hb, Option.toList_none, map_nil, append_nil] at hqueue
    refine ⟨hagree, hconf, hexternal, fun k => ?_, fun hp => hqueue ▸ hp, fun k hk => hqueue ▸ hk⟩
    rw [hqueue]
    refine ⟨fun hk => ⟨hk, fun b' hb' => ?_⟩, And.left⟩
    rw [mem_singleton.mp hb', hb]
    exact nofun
  | some k =>
    rw [hb, Option.toList_some, map_singleton] at hqueue
    refine ⟨hagree, hconf, hexternal, fun k' => ?_, fun hp => ?_, fun k' hk' => ?_⟩
    · rw [hqueue, replay_concat]
      simp [applyEvent, hb, eq_comm]
    · rw [hqueue]
      exact parentsStored_concat hp nofun
    · rw [hqueue]
      obtain ⟨e, he, hmem⟩ := hk'
      exact ⟨e, mem_append_left _ he, hmem⟩

/-- The loop of `get_new_blocks`, with caching. -/
theorem evicts_getNewBlocksLoop {X : List BlockRef} (hev : p.enableKvCacheEvents = true)
    (hcaching : p.enableCaching = true) (h : PoolAgree p)
    (hrun : getNewBlocksLoop X p = .ok p') : Evicts p p' X := by
  induction X generalizing p with
  | nil =>
    cases hrun
    exact evicts_nil h
  | cons x X ih =>
    obtain ⟨u, -, hrest⟩ := bind_ok hrun
    rw [if_pos hcaching] at hrest
    have h1 := evicts_maybeEvictCachedBlock hev h x
    have hcount := evicts_of_sameHash h1.agree
      (sameHash_modify_refCnt (p.maybeEvictCachedBlock x).2 x (· + 1)) rfl
    have hround : Evicts p ((p.maybeEvictCachedBlock x).2.modify x
        fun b => { b with refCnt := b.refCnt + 1 }) [x] := h1.cons hcount
    have hev1 := (events_of_conf hround.conf).trans hev
    have hcaching1 : ((p.maybeEvictCachedBlock x).2.modify x
        fun b => { b with refCnt := b.refCnt + 1 }).enableCaching = true :=
      (congrArg (fun c => c.2.1) hround.conf).trans hcaching
    exact hround.cons (ih hev1 hcaching1 hround.agree hrest)

/-- The loop of `get_new_blocks`, without caching. -/
theorem sameHash_getNewBlocksLoop {X : List BlockRef} (hcaching : p.enableCaching = false)
    (hrun : getNewBlocksLoop X p = .ok p') :
    SameHash p p' ∧ p'.kvEventQueue = p.kvEventQueue := by
  induction X generalizing p with
  | nil =>
    obtain rfl := Except.ok.inj hrun
    exact ⟨SameHash.refl p, rfl⟩
  | cons x X ih =>
    obtain ⟨u, -, hrest⟩ := bind_ok hrun
    rw [if_neg (by rw [hcaching]; exact Bool.false_ne_true)] at hrest
    obtain ⟨hs, hq⟩ := ih (p := p.modify x fun b => { b with refCnt := b.refCnt + 1 })
      hcaching hrest
    exact ⟨(sameHash_modify_refCnt p x (· + 1)).trans hs, hq⟩

/-- `evict_blocks`. -/
theorem evicts_evictBlocks {ids : List Nat} (hev : p.enableKvCacheEvents = true) (h : PoolAgree p)
    (hrun : evictBlocks ids p = .ok p') : Evicts p p' (ids.map .block) := by
  induction ids generalizing p with
  | nil =>
    cases hrun
    exact evicts_nil h
  | cons i ids ih =>
    obtain ⟨u, -, hrest⟩ := bind_ok hrun
    have h1 := evicts_maybeEvictCachedBlock hev h (.block i)
    exact h1.cons (ih ((events_of_conf h1.conf).trans hev) h1.agree hrest)

/-- The loop of `cache_full_blocks`: the hashes it gives to the blocks join those in use. -/
theorem carried_cacheFullBlocksLoop {g : UInt32} {X : List BlockRef} {hs : List BlockHash}
    (hrun : cacheFullBlocksLoop g X hs p = .ok p') :
    p'.kvEventQueue = p.kvEventQueue ∧ p'.useIntBlockHashes = p.useIntBlockHashes ∧
      p'.enableKvCacheEvents = p.enableKvCacheEvents ∧
    ∀ h, (∃ r, external p' r = some h) ↔ (∃ r, external p r = some h) ∨
      h ∈ (hs.take X.length).map (maybeConvertBlockHash p.useIntBlockHashes) := by
  induction X generalizing p hs with
  | nil =>
    cases hrun
    refine ⟨rfl, rfl, rfl, fun h => ?_⟩
    simp
  | cons x X ih =>
    cases hs with
    | nil => cases hrun
    | cons bh hs =>
      obtain ⟨u, hassert, hrun⟩ := bind_ok hrun
      obtain ⟨p1, hset, hrun⟩ := bind_ok hrun
      obtain ⟨u', -, hmod⟩ := bind_ok hset
      cases hmod
      have hnone : hashOf p x = none := Option.isNone_iff_eq_none.mp (pyAssert_eq_ok_iff.mp hassert)
      let key := makeBlockHashWithGroupId bh g
      let p2 := p.modify x fun b => { b with blockHash := some key }
      let p3 : BlockPool :=
        { p2 with cachedBlockHashToBlock := p2.cachedBlockHashToBlock.insert key x }
      have hhash : hashOf p3 = Function.update (hashOf p) x (some key) :=
        hashOf_modify_hash p x (some key)
      obtain ⟨hqueue, hint, hev, hcarried⟩ := ih (p := p3) hrun
      refine ⟨hqueue, hint, hev, fun h => ?_⟩
      have hself : external p3 x = some (maybeConvertBlockHash p.useIntBlockHashes bh) := by
        show (hashOf p3 x).map (fun k => maybeConvertBlockHash p.useIntBlockHashes
          (getBlockHash k)) = _
        rw [hhash, Function.update_self, Option.map_some, getBlockHash_make]
      have hother : ∀ r ≠ x, external p3 r = external p r := by
        intro r hr
        show (hashOf p3 r).map _ = _
        rw [hhash, Function.update_of_ne hr]
        rfl
      have hstep : (∃ r, external p3 r = some h) ↔ (∃ r, external p r = some h) ∨
          h = maybeConvertBlockHash p.useIntBlockHashes bh := by
        constructor
        · rintro ⟨r, hr⟩
          by_cases hrx : r = x
          · rw [hrx, hself] at hr
            exact .inr (Option.some.inj hr).symm
          · rw [hother r hrx] at hr
            exact .inl ⟨r, hr⟩
        · rintro (⟨r, hr⟩ | rfl)
          · refine ⟨r, (hother r ?_).trans hr⟩
            rintro rfl
            unfold external at hr
            rw [hnone] at hr
            cases hr
          · exact ⟨x, hself⟩
      rw [hcarried h, hstep, length_cons, take_succ_cons, map_cons,
        mem_cons, or_assoc]
      rfl

/-- The event of `cache_full_blocks`: it stores the new hashes, and its parent hash is that of the
block before them. -/
theorem blockStoredEvent_spec {request : Request} {blocks : List BlockRef} {c f bs : Nat}
    {newHashes : List BlockHash} {event : KVCacheEvent}
    (hrun : p.blockStoredEvent request blocks c f bs newHashes = .ok event) :
    storedBy event = newHashes.map (maybeConvertBlockHash p.useIntBlockHashes) ∧
    (∀ held, applyEvent held event = held ∪ (storedBy event).toFinset) ∧
    ∀ h ∈ parentOf event, c ≠ 0 ∧ ∃ parent, blocks[c - 1]? = some parent ∧
      external p parent = some h := by
  unfold blockStoredEvent at hrun
  dsimp only at hrun
  split at hrun
  · cases hrun
    exact ⟨rfl, fun _ => rfl, fun h hh => (nomatch hh)⟩
  · rename_i hc
    split at hrun
    · cases hrun
    · rename_i parent hget
      split at hrun
      · cases hrun
      · rename_i key hkey
        cases hrun
        refine ⟨rfl, fun _ => rfl, fun h hh => ⟨hc, parent, hget, ?_⟩⟩
        have hkey' : hashOf p parent = some key := hkey
        unfold external
        rw [hkey']
        exact hh

/-- Clearing the cache leaves no hash, and the reader with none. -/
theorem cleared_resetPrefixCache (hev : p.enableKvCacheEvents = true) (h : PoolAgree p) :
    Evicts p p.resetPrefixCache.2 [] ∨ (PoolAgree p.resetPrefixCache.2 ∧
      confOf p.resetPrefixCache.2 = confOf p ∧
      (∀ r, external p.resetPrefixCache.2 r = none) ∧
      p.resetPrefixCache.2.kvEventQueue = p.kvEventQueue ++ [.allBlocksCleared]) := by
  have hspec := resetPrefixCache_spec h
  unfold resetPrefixCache at hspec ⊢
  dsimp only at hspec ⊢
  split at hspec
  · rename_i hused
    rw [if_pos hused]
    exact .inl (evicts_nil h)
  · rename_i hused
    rw [if_neg hused]
    obtain ⟨hq, -, hh⟩ := resetHashes_foldl (p := { p with cachedBlockHashToBlock := {} })
      (List.range p.numGpuBlocks)
    have hev' : ({ p with cachedBlockHashToBlock := {} } : BlockPool).resetHashes.enableKvCacheEvents
        = true := (events_of_conf hq.conf).trans hev
    rw [if_pos hev'] at hspec ⊢
    have hnone : ∀ r, hashOf ({ p with cachedBlockHashToBlock := {} } : BlockPool).resetHashes r =
        none := by
      intro r
      refine (hh r).trans ?_
      split
      · rfl
      · rename_i hr
        cases hk : hashOf p r with
        | none => exact hk
        | some k =>
          obtain ⟨i, hi, rfl⟩ := h.real r k hk
          exact absurd ⟨i, mem_range.mpr hi, rfl⟩ hr
    have hqueue : ∀ (is : List Nat) (p : BlockPool), (is.foldl (fun p i => p.modify (.block i)
        fun b => { b with blockHash := none }) p).kvEventQueue = p.kvEventQueue := by
      intro is
      induction is with
      | nil => exact fun _ => rfl
      | cons i is ih => exact fun p => ih _
    refine .inr ⟨hspec.agree, hspec.queue.conf, fun r => ?_, ?_⟩
    · unfold external
      exact congrArg (Option.map _) (hnone r)
    · show ({ p with cachedBlockHashToBlock := {} } : BlockPool).resetHashes.kvEventQueue ++ _ = _
      have hsame : ({ p with cachedBlockHashToBlock := {} } : BlockPool).resetHashes.kvEventQueue =
          p.kvEventQueue := hqueue _ _
      rw [hsame]

end Blocks

/-! ### Runs -/

section Runs

variable {p p' : BlockPool}

/-- Every block with the hash of one of the given blocks is one of them. -/
def AllCopies (p : BlockPool) (X : List BlockRef) : Prop :=
  ∀ b ∈ X, external p b ≠ none → ∀ i < p.numGpuBlocks,
    external p (.block i) = external p b → .block i ∈ X

/-- The first blocks of the free list. -/
def firstFree (p : BlockPool) (n : Nat) : List BlockRef :=
  match p.freeBlockQueue.popleftN n with
  | .ok (blocks, _) => blocks
  | .error _ => []

/-- With a block all other blocks with its hash are evicted, and the parent of the blocks that are
cached is not one of them. -/
def EvictsAllCopies (p : BlockPool) : PoolOp → Prop
  | .getNewBlocks n => p.enableCaching = true → AllCopies p (firstFree p n)
  | .evictBlocks ids => AllCopies p (ids.map .block)
  | .cacheFullBlocks _ blocks c f _ _ =>
    c ≠ 0 → ∀ parent ∈ blocks[c - 1]?, parent ∉ (blocks.take f).drop c
  | _ => True

/-- The reader holds exactly the hashes of the blocks, and every hash of a block was stored. -/
structure EventsInv (p : BlockPool) : Prop where
  enabled : p.enableKvCacheEvents = true
  agree : PoolAgree p
  held : ∀ h, h ∈ replay p.kvEventQueue ↔ ∃ r, external p r = some h
  stored : ∀ r h, external p r = some h → Stored p.kvEventQueue h
  parents : ParentsStored p.kvEventQueue

/-- An eviction of all copies. -/
theorem EventsInv.evicts (h : EventsInv p) {X : List BlockRef} (he : Evicts p p' X)
    (hcopies : AllCopies p X) : EventsInv p' := by
  refine ⟨(events_of_conf he.conf).trans h.enabled, he.agree, fun k => ?_, fun r k hr => ?_,
    he.parents h.parents⟩
  · rw [he.replay, h.held]
    constructor
    · rintro ⟨⟨r, hr⟩, hnot⟩
      refine ⟨r, ?_⟩
      rw [he.hash, if_neg fun hX => hnot r hX hr]
      exact hr
    · rintro ⟨r, hr⟩
      rw [he.hash] at hr
      split at hr
      · cases hr
      · rename_i hX
        refine ⟨⟨r, hr⟩, fun b hb hbk => hX ?_⟩
        -- Only blocks of the pool have a hash.
        obtain ⟨key, hkey, -⟩ := Option.map_eq_some_iff.mp hr
        obtain ⟨i, hi, rfl⟩ := h.agree.real r key hkey
        exact hcopies b hb (by rw [hbk]; exact nofun) i hi (hr.trans hbk.symm)
  · rw [he.hash] at hr
    split at hr
    · cases hr
    · exact he.stored k (h.stored r k hr)

theorem EventsInv.evicts_nil (h : EventsInv p) (he : Evicts p p' []) : EventsInv p' :=
  h.evicts he nofun

/-- `cache_full_blocks`. -/
theorem eventsInv_cacheFullBlocks (h : EventsInv p) {request : Request} {blocks : List BlockRef}
    {c f bs : Nat} {g : UInt32}
    (hvalid : ∀ r ∈ (blocks.take f).drop c, ∃ i, i < p.numGpuBlocks ∧ r = .block i)
    (hparent : c ≠ 0 → ∀ parent ∈ blocks[c - 1]?, parent ∉ (blocks.take f).drop c)
    (hrun : p.cacheFullBlocks request blocks c f bs g = .ok p') : EventsInv p' := by
  have hspec := cacheFullBlocks_spec h.agree hvalid hrun
  unfold cacheFullBlocks at hrun
  split at hrun
  · cases hrun
    exact h
  · obtain ⟨u, -, hrun⟩ := bind_ok hrun
    obtain ⟨hashes, -, hrun⟩ := bind_ok hrun
    obtain ⟨p1, hloop, hrun⟩ := bind_ok hrun
    obtain ⟨hqueue, hint, hev, hcarried⟩ := carried_cacheFullBlocksLoop hloop
    rw [if_pos (hev.trans h.enabled)] at hrun
    obtain ⟨event, hevent, hrun⟩ := bind_ok hrun
    obtain ⟨hnew, happly, hparentOf⟩ := blockStoredEvent_spec hevent
    cases hrun
    have hheld : ∀ k, (∃ r, external p1 r = some k) ↔
        (∃ r, external p r = some k) ∨ k ∈ storedBy event := by
      intro k
      rw [hcarried k, hnew, hint]
    refine ⟨hev.trans h.enabled, hspec.agree, fun k => ?_, fun r k hr => ?_, ?_⟩
    · show k ∈ replay (p1.kvEventQueue ++ [event]) ↔ ∃ r, external p1 r = some k
      rw [replay_concat, hqueue, happly, Finset.mem_union, mem_toFinset, hheld, h.held]
    · have hr' : external p1 r = some k := hr
      show Stored (p1.kvEventQueue ++ [event]) k
      rw [hqueue]
      rcases (hheld k).mp ⟨r, hr'⟩ with ⟨r', hr'⟩ | hmem
      · obtain ⟨e, he, hk⟩ := h.stored r' k hr'
        exact ⟨e, mem_append_left _ he, hk⟩
      · exact ⟨event, mem_append_right _ mem_cons_self, hmem⟩
    · show ParentsStored (p1.kvEventQueue ++ [event])
      rw [hqueue]
      refine parentsStored_concat h.parents fun k hk => ?_
      obtain ⟨hc, parent, hget, hparent1⟩ := hparentOf k hk
      -- The hash of the parent was there before the loop.
      have hsame : hashOf p1 parent = hashOf p parent :=
        hspec.hash_other parent (hparent hc parent hget)
      refine h.stored parent k ?_
      unfold external at hparent1 ⊢
      rw [← hsame, ← hint]
      exact hparent1

theorem eventsInv_step {op : PoolOp} (h : EventsInv p)
    (hop : PoolOpValid p op ∧ EvictsAllCopies p op) (hstep : poolStep p op = .ok p') :
    EventsInv p' := by
  obtain ⟨hvalid, hcopies⟩ := hop
  cases op with
  | cacheFullBlocks request blocks c f bs g =>
    refine eventsInv_cacheFullBlocks h (fun r hr => inPool_iff.mp (hvalid r ?_)) hcopies hstep
    exact mem_of_mem_take (mem_of_mem_drop hr)
  | getNewBlocks n =>
    obtain ⟨⟨X, p1⟩, hrun, hstep⟩ := bind_ok hstep
    cases hstep
    obtain ⟨q, hpop, hloop⟩ := getNewBlocks_eq_ok hrun
    have hfirst : firstFree p n = X := by
      unfold firstFree
      rw [hpop]
    have hs := sameHash_withQueue p (sameData_popleftN hpop)
    have hpopped := evicts_of_sameHash h.agree hs rfl
    have h1 := h.evicts_nil hpopped
    cases hc : p.enableCaching with
    | true =>
      refine h1.evicts (evicts_getNewBlocksLoop h1.enabled hc h1.agree hloop) ?_
      intro b hb hne i hi heq
      rw [hpopped.hash, hpopped.hash] at heq
      rw [hpopped.hash] at hne
      rw [← hfirst] at hb ⊢
      exact hcopies hc b hb hne i hi heq
    | false =>
      obtain ⟨hs1, hqueue⟩ := sameHash_getNewBlocksLoop
        (p := { p with freeBlockQueue := q }) hc hloop
      exact h1.evicts_nil (evicts_of_sameHash h1.agree hs1 hqueue)
  | touch blocks =>
    have hqueue : ∀ (bs : List BlockRef) (p p' : BlockPool), bs.foldlM touchOne p = .ok p' →
        p'.kvEventQueue = p.kvEventQueue := by
      intro bs
      induction bs with
      | nil =>
        intro p p' hrun
        cases hrun
        rfl
      | cons b bs ih =>
        intro p p' hrun
        rw [foldlM_cons] at hrun
        obtain ⟨p1, h1, hrun⟩ := bind_ok hrun
        obtain ⟨q, -, h1⟩ := bind_ok h1
        cases h1
        exact (ih _ _ hrun).trans rfl
    exact h.evicts_nil (evicts_of_sameHash h.agree (sameHash_foldlM_touchOne hstep)
      (hqueue _ _ _ hstep))
  | freeBlocks blocks =>
    have hqueue : ∀ (bs : List BlockRef) (p : BlockPool),
        (p.decRefCnts bs).kvEventQueue = p.kvEventQueue := by
      intro bs
      induction bs with
      | nil => exact fun _ => rfl
      | cons b bs ih => exact fun p => ih _
    have hs := sameHash_freeBlocks hstep
    obtain ⟨q, -, hstep⟩ := bind_ok hstep
    cases hstep
    exact h.evicts_nil (evicts_of_sameHash h.agree hs (hqueue _ _))
  | evictBlocks ids => exact h.evicts (evicts_evictBlocks h.enabled h.agree hstep) hcopies
  | resetPrefixCache =>
    cases hstep
    rcases cleared_resetPrefixCache h.enabled h.agree with he | ⟨hagree, hconf, hnone, hqueue⟩
    · exact h.evicts_nil he
    · refine ⟨(events_of_conf hconf).trans h.enabled, hagree, fun k => ?_, fun r k hr => ?_, ?_⟩
      · rw [hqueue, replay_concat]
        refine ⟨fun hk => absurd hk (Finset.notMem_empty k), fun ⟨r, hr⟩ => ?_⟩
        rw [hnone] at hr
        cases hr
      · rw [hnone] at hr
        cases hr
      · rw [hqueue]
        exact parentsStored_concat h.parents nofun

theorem eventsInv_init {n : Nat} {caching : Bool} {hashBlockSize : Nat} {ints : Bool}
    {p0 : BlockPool} (hinit : BlockPool.init n caching hashBlockSize true ints = .ok p0) :
    EventsInv p0 := by
  have hagree := poolAgree_init hinit
  have hhash := hashOf_init hinit
  obtain ⟨u, -, hinit⟩ := bind_ok hinit
  obtain ⟨⟨nullBlock, queue⟩, -, hinit⟩ := bind_ok hinit
  cases hinit
  have hnone : ∀ r h, external _ r ≠ some h := fun r h heq => by
    unfold external at heq
    rw [hhash r] at heq
    cases heq
  refine ⟨rfl, hagree, fun k => ⟨fun hk => absurd hk (Finset.notMem_empty k), fun ⟨r, hr⟩ => ?_⟩,
    fun r k hr => absurd hr (hnone r k), fun before event after heq => ?_⟩
  · exact absurd hr (hnone r k)
  · exact absurd heq (append_ne_nil_of_right_ne_nil _ (cons_ne_nil _ _)).symm

/-- In every pool that a run reaches in which the blocks with one hash are evicted together: the
events, replayed in order, give exactly the hashes of the blocks, and the parent hash of every
event was stored by an earlier one. -/
theorem events_replay {n : Nat} {caching : Bool} {hashBlockSize : Nat} {ints : Bool}
    {p₀ p : BlockPool} (hinit : BlockPool.init n caching hashBlockSize true ints = .ok p₀)
    (hrun : Run poolStep (fun p op => PoolOpValid p op ∧ EvictsAllCopies p op) p₀ p) :
    (∀ h, h ∈ replay p.kvEventQueue ↔ ∃ r, external p r = some h) ∧
      ParentsStored p.kvEventQueue := by
  have h := hrun.invariant EventsInv (eventsInv_init hinit)
    fun _ _ _ hinv hop hstep => eventsInv_step hinv hop hstep
  exact ⟨h.held, h.parents⟩

instance (p : BlockPool) (X : List BlockRef) : Decidable (AllCopies p X) :=
  inferInstanceAs (Decidable (∀ b ∈ X, external p b ≠ none → ∀ i < p.numGpuBlocks,
    external p (.block i) = external p b → .block i ∈ X))

instance (p : BlockPool) (op : PoolOp) : Decidable (EvictsAllCopies p op) :=
  match op with
  | .getNewBlocks n => inferInstanceAs (Decidable
      (p.enableCaching = true → AllCopies p (firstFree p n)))
  | .evictBlocks ids => inferInstanceAs (Decidable (AllCopies p (ids.map .block)))
  | .cacheFullBlocks _ blocks c f _ _ => inferInstanceAs (Decidable
      (c ≠ 0 → ∀ parent ∈ blocks[c - 1]?, parent ∉ (blocks.take f).drop c))
  | .touch _ => inferInstanceAs (Decidable True)
  | .freeBlocks _ => inferInstanceAs (Decidable True)
  | .resetPrefixCache => inferInstanceAs (Decidable True)

/-- Two blocks are cached one after the other, and the second one is evicted. -/
theorem events_replay_eviction : ∃ p₀ p : BlockPool,
    BlockPool.init 4 true 2 true false = .ok p₀ ∧
      Run poolStep (fun p op => PoolOpValid p op ∧ EvictsAllCopies p op) p₀ p ∧
      p.kvEventQueue.length = 3 ∧ external p (.block 1) = some (.bytes [7]) ∧
      .bytes [7] ∈ replay p.kvEventQueue ∧ ParentsStored p.kvEventQueue := by
  obtain ⟨p₀, p, hinit, hrun, hlen, hcarried⟩ := exists_run_of_check poolStep
    (fun p op => PoolOpValid p op ∧ EvictsAllCopies p op)
    (fun p : BlockPool => p.kvEventQueue.length = 3 ∧ external p (.block 1) = some (.bytes [7]))
    (BlockPool.init 4 true 2 true false)
    [.getNewBlocks 2, .cacheFullBlocks { requestId := "a", blockHashes := [[7], [8]] }
        [.block 1, .block 2] 0 1 2 0,
      .cacheFullBlocks { requestId := "a", blockHashes := [[7], [8]] } [.block 1, .block 2] 1 2 2 0,
      .evictBlocks [2]] (by decide +kernel)
  obtain ⟨hheld, hparents⟩ := events_replay hinit hrun
  exact ⟨p₀, p, hinit, hrun, hlen, hcarried, (hheld _).mpr ⟨_, hcarried⟩, hparents⟩

/-- Two blocks have the same hash. When one of them is evicted, the reader loses the hash that the
other one still has. -/
theorem removed_hash_still_cached : ∃ p₀ p : BlockPool,
    BlockPool.init 4 true 2 true false = .ok p₀ ∧ Run poolStep PoolOpValid p₀ p ∧
      (external p (.block 2) = some (.bytes [7]) ∧ .bytes [7] ∉ replay p.kvEventQueue) :=
  exists_run_of_check poolStep PoolOpValid _ (BlockPool.init 4 true 2 true false)
    [.getNewBlocks 2, .cacheFullBlocks { requestId := "a", blockHashes := [[7]] } [.block 1] 0 1 2 0,
      .cacheFullBlocks { requestId := "b", blockHashes := [[7]] } [.block 2] 0 1 2 0,
      .evictBlocks [1]] (by decide +kernel)

end Runs

end Vllm.Proofs.Core
