import Vllm.Lib.Run
import Vllm.Proofs.KVOffload.LRU

/-!
# `Vllm.Proofs.KVOffload.LRURun`: runs of the LRU manager

A run keeps, beside the manager, the transfers that are prepared and not complete and the events
that were taken. The count of a block is then determined: `-1` while it is being stored, else the
number of loads that use it.

* `LRUState`, `LRUOp`: the system; `Paired`: a transfer is completed after it was prepared.
* `DistinctAndSmall`: the hashes to store do not repeat and the counts fit into 32 bits.
* `LRUInv`: the invariant; `lruInv_step`: every operation keeps it.
-/

set_option autoImplicit false

namespace Vllm.Proofs.KVOffload

open Vllm.Lib Vllm.V1 Vllm.V1.KVOffload List

/-- The manager, and as history the transfers that are not complete and the taken events. -/
structure LRUState where
  manager : LRUOffloadingManager
  loads : List (List BlockHash) := []
  stores : List (List BlockHash) := []
  taken : List OffloadingEvent := []

/-- The calls of the manager. The completion of a transfer names the hashes it was prepared for
beside those it is called with. -/
inductive LRUOp where
  | lookup (blockHashes : List BlockHash)
  | touch (blockHashes : List BlockHash)
  | prepareLoad (blockHashes : List BlockHash)
  | completeLoad (prepared blockHashes : List BlockHash)
  | prepareStore (blockHashes : List BlockHash)
  | completeStore (prepared blockHashes : List BlockHash) (success : Bool)
  | takeEvents

namespace LRUState

/-- One call. -/
def step (s : LRUState) : LRUOp → Except PyError LRUState
  | .lookup _ => .ok s
  | .touch blockHashes => .ok { s with manager := s.manager.touch blockHashes }
  | .prepareLoad blockHashes => do
      let (_, manager) ← s.manager.prepareLoad blockHashes
      return { s with manager, loads := blockHashes :: s.loads }
  | .completeLoad prepared blockHashes => do
      let manager ← s.manager.completeLoad blockHashes
      return { s with manager, loads := s.loads.erase prepared }
  | .prepareStore blockHashes => do
      let (output, manager) ← s.manager.prepareStore blockHashes
      return { s with
        manager
        stores := (output.map PrepareStoreOutput.blockHashesToStore).toList ++ s.stores }
  | .completeStore prepared blockHashes success => do
      let manager ← s.manager.completeStore blockHashes success
      return { s with manager, stores := s.stores.erase prepared }
  | .takeEvents =>
    let (events, manager) := s.manager.takeEvents
    .ok { s with manager, taken := s.taken ++ events }

/-- The hashes that are being loaded, once for every load. -/
def loading (s : LRUState) : List BlockHash := s.loads.flatten

/-- The hashes that are being stored. -/
def storing (s : LRUState) : List BlockHash := s.stores.flatten

/-- The block of a hash is there and ready. -/
def IsReady (s : LRUState) (h : BlockHash) : Prop :=
  ∃ block, s.manager.blocks.get? h = some block ∧ block.isReady = true

end LRUState

/-- A transfer is completed once, after it was prepared. A store may be completed with the whole
list that `prepare_store` got: the hashes that it filtered out must be stored by then. -/
def Paired (s : LRUState) : LRUOp → Prop
  | .completeLoad prepared blockHashes => prepared ∈ s.loads ∧ blockHashes.Perm prepared
  | .completeStore prepared blockHashes _ => prepared ∈ s.stores ∧
      prepared ⊆ blockHashes ∧ ∀ h ∈ blockHashes, h ∈ prepared ∨ h ∉ s.storing
  | _ => True

/-- The new hashes of a store do not repeat, and a block has less than `2 ^ 31` loads. -/
def DistinctAndSmall (s : LRUState) : LRUOp → Prop
  | .prepareLoad blockHashes => ∀ h ∈ blockHashes,
      s.loading.count h + blockHashes.count h < 2 ^ 31
  | .prepareStore blockHashes =>
    (blockHashes.filter fun h => !s.manager.blocks.contains h).Nodup
  | _ => True

/-- The blocks, their ids and their counts agree with the transfers. -/
structure Counted (s : LRUState) : Prop where
  ledger : Ledger s.manager.backend (ids s.manager.blocks)
  counts : ∀ h block, s.manager.blocks.get? h = some block →
    block.refCnt = if h ∈ s.storing then -1 else (s.loading.count h : Int)
  loads : ∀ h ∈ s.loading, (s.manager.blocks.get? h).isSome = true ∧ h ∉ s.storing
  stores : ∀ h ∈ s.storing, (s.manager.blocks.get? h).isSome = true
  distinct : s.storing.Nodup
  small : ∀ h, s.loading.count h < 2 ^ 31

/-- The invariant of the runs: the counts, and a reader of the events holds the ready hashes. -/
structure LRUInv (s : LRUState) : Prop where
  counted : Counted s
  events : ∀ events, s.manager.events = some events →
    ∀ h, h ∈ replayEvents (s.taken ++ events) ↔ s.IsReady h

section Counted

variable {s : LRUState} {h : BlockHash} {block : CPUBlockStatus}

theorem Counted.isReady_iff (hc : Counted s) (hb : s.manager.blocks.get? h = some block) :
    block.isReady = true ↔ h ∉ s.storing := by
  have hcount := hc.counts h block hb
  unfold CPUBlockStatus.isReady
  rw [decide_eq_true_iff, hcount]
  split
  · rename_i hs
    simp [hs]
  · rename_i hs
    simp [hs]

/-- The ready hashes are those in the dictionary that are not being stored. -/
theorem Counted.ready_iff (hc : Counted s) :
    s.IsReady h ↔ (s.manager.blocks.get? h).isSome = true ∧ h ∉ s.storing := by
  constructor
  · rintro ⟨block, hb, hready⟩
    exact ⟨by rw [hb]; rfl, (hc.isReady_iff hb).mp hready⟩
  · rintro ⟨hsome, hs⟩
    obtain ⟨block, hb⟩ := Option.isSome_iff_exists.mp hsome
    exact ⟨block, hb, (hc.isReady_iff hb).mpr hs⟩

theorem perm_flatten_erase {l : List (List BlockHash)} {a : List BlockHash} (h : a ∈ l) :
    l.flatten.Perm (a ++ (l.erase a).flatten) :=
  (perm_cons_erase h).flatten

end Counted

/-! ### The operations keep the counts -/

section Steps

variable {s : LRUState} {m' : LRUOffloadingManager} {hs : List BlockHash}

theorem counted_touch (hc : Counted s) : Counted { s with manager := s.manager.touch hs } := by
  obtain ⟨hsame, hget⟩ := touch_spec (m := s.manager) hs
  refine ⟨hsame.ledger hc.ledger, fun h block hb => ?_, fun h hh => ?_, fun h hh => ?_,
    hc.distinct, hc.small⟩
  · exact hc.counts h block (hget h ▸ hb)
  · rw [hget h]
    exact hc.loads h hh
  · rw [hget h]
    exact hc.stores h hh

theorem counted_prepareLoad {blocks : List CPUBlockStatus} (hc : Counted s)
    (hsmall : ∀ h ∈ hs, s.loading.count h + hs.count h < 2 ^ 31)
    (hload : s.manager.prepareLoadLoop hs = .ok (blocks, m')) :
    Counted { s with manager := m', loads := hs :: s.loads } ∧
      m'.events = s.manager.events ∧
      ∀ h, (m'.blocks.get? h).isSome = (s.manager.blocks.get? h).isSome := by
  obtain ⟨hsame, hready, hget⟩ := prepareLoadLoop_spec (by
    intro h hh block hb
    have hcount := hc.counts h block hb
    have hlt := hsmall h hh
    split at hcount <;> omega) hload
  have hstoring : ∀ h ∈ hs, h ∉ s.storing := by
    intro h hh
    obtain ⟨block, hb, hr⟩ := hready h hh
    exact (hc.isReady_iff hb).mp hr
  have hsome : ∀ h, (m'.blocks.get? h).isSome = (s.manager.blocks.get? h).isSome := by
    intro h
    rw [hget h, Option.isSome_map]
  have hcount : ∀ h, List.count h (hs ++ s.loading) = hs.count h + s.loading.count h :=
    fun h => count_append
  refine ⟨⟨hsame.ledger hc.ledger, ?_, ?_, ?_, hc.distinct, ?_⟩, hsame.events, hsome⟩
  · intro h block hb
    change m'.blocks.get? h = some block at hb
    rw [hget h] at hb
    obtain ⟨b, hb', rfl⟩ := Option.map_eq_some_iff.mp hb
    have hcb := hc.counts h b hb'
    show b.refCnt + (hs.count h : Int) = if h ∈ s.storing then -1
      else ((hs ++ s.loading).count h : Int)
    rw [hcount h]
    split
    · rename_i hst
      have hnot : hs.count h = 0 := count_eq_zero.mpr fun hh => hstoring h hh hst
      rw [hcb, if_pos hst, hnot]
      rfl
    · rename_i hst
      rw [hcb, if_neg hst]
      omega
  · intro h hh
    show (m'.blocks.get? h).isSome = true ∧ h ∉ s.storing
    rw [hsome h]
    rcases mem_append.mp hh with hh | hh
    · obtain ⟨block, hb, -⟩ := hready h hh
      exact ⟨by rw [hb]; rfl, hstoring h hh⟩
    · exact hc.loads h hh
  · intro h hh
    show (m'.blocks.get? h).isSome = true
    rw [hsome h]
    exact hc.stores h hh
  · intro h
    show (hs ++ s.loading).count h < 2 ^ 31
    rw [hcount h]
    by_cases hh : h ∈ hs
    · have := hsmall h hh
      omega
    · rw [count_eq_zero.mpr hh]
      have := hc.small h
      omega

theorem counted_completeLoad {prepared : List BlockHash} (hc : Counted s)
    (hmem : prepared ∈ s.loads) (hperm : hs.Perm prepared)
    (hload : s.manager.completeLoad hs = .ok m') :
    Counted { s with manager := m', loads := s.loads.erase prepared } ∧
      m'.events = s.manager.events ∧
      ∀ h, (m'.blocks.get? h).isSome = (s.manager.blocks.get? h).isSome := by
  obtain ⟨hsame, hget⟩ := completeLoad_spec (by
    intro h block hb
    have hcount := hc.counts h block hb
    have := hc.small h
    split at hcount <;> omega) hload
  have hflat : s.loading.Perm (hs ++ (s.loads.erase prepared).flatten) :=
    (perm_flatten_erase hmem).trans (hperm.symm.append_right _)
  have hcount : ∀ h, s.loading.count h =
      hs.count h + List.count h (s.loads.erase prepared).flatten := by
    intro h
    rw [hflat.count_eq, count_append]
  have hsome : ∀ h, (m'.blocks.get? h).isSome = (s.manager.blocks.get? h).isSome := by
    intro h
    rw [hget h, Option.isSome_map]
  refine ⟨⟨hsame.ledger hc.ledger, ?_, ?_, ?_, hc.distinct, ?_⟩, hsame.events, hsome⟩
  · intro h block hb
    change m'.blocks.get? h = some block at hb
    rw [hget h] at hb
    obtain ⟨b, hb', rfl⟩ := Option.map_eq_some_iff.mp hb
    have hcb := hc.counts h b hb'
    have hn := hcount h
    show b.refCnt + -1 * (hs.count h : Int) = if h ∈ s.storing then -1
      else (List.count h (s.loads.erase prepared).flatten : Int)
    split
    · rename_i hst
      have hnot : hs.count h = 0 := count_eq_zero.mpr fun hh =>
        (hc.loads h (hflat.mem_iff.mpr (mem_append_left _ hh))).2 hst
      rw [hcb, if_pos hst, hnot]
      rfl
    · rename_i hst
      rw [hcb, if_neg hst]
      omega
  · intro h hh
    show (m'.blocks.get? h).isSome = true ∧ h ∉ s.storing
    rw [hsome h]
    exact hc.loads h (hflat.mem_iff.mpr (mem_append_right _ hh))
  · intro h hh
    show (m'.blocks.get? h).isSome = true
    rw [hsome h]
    exact hc.stores h hh
  · intro h
    show List.count h (s.loads.erase prepared).flatten < 2 ^ 31
    have := hc.small h
    have := hcount h
    omega

/-- The hashes that `prepare_store` picks are neither loaded nor stored. -/
theorem idle_of_toEvict {toStore : List BlockHash} (hc : Counted s)
    (hevict : s.manager.toEvict toStore = some hs) {h : BlockHash} (hh : h ∈ hs) :
    h ∉ s.loading ∧ h ∉ s.storing := by
  obtain ⟨block, hb, hzero⟩ := (toEvict_spec hevict).2.2 h hh
  have hcount := hc.counts h block hb
  rw [hzero] at hcount
  split at hcount
  · cases hcount
  · rename_i hst
    exact ⟨count_eq_zero.mp (by omega), hst⟩

theorem counted_storeBlocks {toStore : List BlockHash} {output : PrepareStoreOutput}
    (hc : Counted s) (hnodup : toStore.Nodup)
    (hnew : ∀ h ∈ toStore, s.manager.blocks.get? h = none)
    (hevict : s.manager.toEvict toStore = some hs)
    (hstore : s.manager.storeBlocks toStore hs = .ok (output, m')) :
    Counted { s with manager := m', stores := toStore :: s.stores } ∧
      output.blockHashesToStore = toStore ∧ output.blockHashesEvicted = hs ∧
      m'.events = appendEvent s.manager.events
        { blockHashes := hs, blockSize := s.manager.backend.blockSize, removed := true } ∧
      ∀ h ∉ toStore, (m'.blocks.get? h).isSome = true ↔
        (s.manager.blocks.get? h).isSome = true ∧ h ∉ hs := by
  obtain ⟨output', m1, hstore', hout, hevicted, hevents, hledger, hother, hstored⟩ :=
    storeBlocks_spec hnodup hnew hevict hc.ledger
  rw [hstore] at hstore'
  cases hstore'
  have hsome : ∀ h ∉ toStore, (m'.blocks.get? h).isSome = true ↔
      (s.manager.blocks.get? h).isSome = true ∧ h ∉ hs := by
    intro h hh
    rw [hother h hh]
    split
    · rename_i hmem
      simp [hmem]
    · rename_i hmem
      simp [hmem]
  have hfresh : ∀ h, (s.manager.blocks.get? h).isSome = true → h ∉ toStore := by
    intro h hs hh
    rw [hnew h hh] at hs
    cases hs
  refine ⟨⟨hledger, ?_, ?_, ?_, ?_, hc.small⟩, hout, hevicted, hevents, hsome⟩
  · intro h block hb
    change m'.blocks.get? h = some block at hb
    show block.refCnt = if h ∈ toStore ++ s.storing then -1 else (s.loading.count h : Int)
    by_cases hh : h ∈ toStore
    · obtain ⟨b, hb', hcount⟩ := hstored h hh
      rw [hb] at hb'
      cases hb'
      rw [if_pos (mem_append_left _ hh), hcount]
    · have hst : h ∈ toStore ++ s.storing ↔ h ∈ s.storing := by
        rw [mem_append]
        exact ⟨fun hor => hor.resolve_left hh, .inr⟩
      rw [if_congr hst rfl rfl]
      rw [hother h hh] at hb
      split at hb
      · cases hb
      · exact hc.counts h block hb
  · intro h hh
    obtain ⟨hin, hst⟩ := hc.loads h hh
    have hne := hfresh h hin
    refine ⟨(hsome h hne).mpr ⟨hin, fun hmem => (idle_of_toEvict hc hevict hmem).1 hh⟩, ?_⟩
    exact fun hmem => (mem_append.mp hmem).elim hne hst
  · intro h hh
    show (m'.blocks.get? h).isSome = true
    rcases mem_append.mp hh with hh | hh
    · obtain ⟨b, hb, -⟩ := hstored h hh
      rw [hb]
      rfl
    · have hin := hc.stores h hh
      exact (hsome h (hfresh h hin)).mpr ⟨hin, fun hmem => (idle_of_toEvict hc hevict hmem).2 hh⟩
  · show (toStore ++ s.storing).Nodup
    refine nodup_append.mpr ⟨hnodup, hc.distinct, ?_⟩
    rintro a ha b hb rfl
    exact hfresh a (hc.stores a hb) ha

section CompleteStore

variable {prepared : List BlockHash}

/-- The hashes that are still being stored when one store is complete. -/
theorem mem_storing_erase (hc : Counted s) (hmem : prepared ∈ s.stores) (h : BlockHash) :
    h ∈ (s.stores.erase prepared).flatten ↔ h ∈ s.storing ∧ h ∉ prepared := by
  have hflat : s.storing.Perm (prepared ++ (s.stores.erase prepared).flatten) :=
    perm_flatten_erase hmem
  have hdisjoint := (nodup_append.mp (hflat.nodup_iff.mp hc.distinct)).2.2
  rw [hflat.mem_iff, mem_append]
  constructor
  · intro hh
    exact ⟨.inr hh, fun hp => hdisjoint h hp h hh rfl⟩
  · rintro ⟨hh, hp⟩
    exact hh.resolve_left hp

theorem distinct_erase (hc : Counted s) (hmem : prepared ∈ s.stores) :
    (s.stores.erase prepared).flatten.Nodup :=
  (nodup_append.mp ((perm_flatten_erase hmem).nodup_iff.mp hc.distinct)).2.1

/-- The hashes of a store that are not ready are those it was prepared for. -/
theorem not_ready_iff (hc : Counted s) (hmem : prepared ∈ s.stores) (hsub : prepared ⊆ hs)
    (hothers : ∀ h ∈ hs, h ∈ prepared ∨ h ∉ s.storing) {h : BlockHash} {block : CPUBlockStatus}
    (hb : s.manager.blocks.get? h = some block) :
    h ∈ hs ∧ block.isReady = false ↔ h ∈ prepared := by
  have hin : h ∈ prepared → h ∈ s.storing := fun hp =>
    (perm_flatten_erase hmem).mem_iff.mpr (mem_append_left _ hp)
  have hready := hc.isReady_iff hb
  constructor
  · rintro ⟨hh, hnot⟩
    refine (hothers h hh).resolve_right fun hst => ?_
    rw [hready.mpr hst] at hnot
    cases hnot
  · intro hp
    refine ⟨hsub hp, ?_⟩
    by_contra hr
    exact hready.mp ((Bool.not_eq_false _).mp hr) (hin hp)

theorem counted_storedLoop {stored : List BlockHash} (hc : Counted s)
    (hmem : prepared ∈ s.stores) (hsub : prepared ⊆ hs)
    (hothers : ∀ h ∈ hs, h ∈ prepared ∨ h ∉ s.storing)
    (hstored : s.manager.storedLoop hs = .ok (stored, m')) :
    Counted { s with manager := m', stores := s.stores.erase prepared } ∧
      m'.events = s.manager.events ∧ (∀ h, h ∈ stored ↔ h ∈ prepared) ∧
      ∀ h, (m'.blocks.get? h).isSome = (s.manager.blocks.get? h).isSome := by
  obtain ⟨hsame, hstoredMem, hget⟩ := storedLoop_spec hstored
  have hnot : ∀ {h block}, s.manager.blocks.get? h = some block →
      (h ∈ hs ∧ block.isReady = false ↔ h ∈ prepared) := not_ready_iff hc hmem hsub hothers
  have hin : ∀ h ∈ prepared, h ∈ s.storing := fun h hp =>
    (perm_flatten_erase hmem).mem_iff.mpr (mem_append_left _ hp)
  have hsome : ∀ h, (m'.blocks.get? h).isSome = (s.manager.blocks.get? h).isSome := by
    intro h
    rw [hget h, Option.isSome_map]
  refine ⟨⟨hsame.ledger hc.ledger, ?_, ?_, ?_, distinct_erase hc hmem, hc.small⟩, hsame.events,
    ?_, hsome⟩
  · intro h block hb
    change m'.blocks.get? h = some block at hb
    rw [hget h] at hb
    obtain ⟨b, hb', rfl⟩ := Option.map_eq_some_iff.mp hb
    show _ = if h ∈ (s.stores.erase prepared).flatten then -1 else (s.loading.count h : Int)
    rw [if_congr (mem_storing_erase hc hmem h) rfl rfl]
    have hcount := hc.counts h b hb'
    by_cases hp : h ∈ prepared
    · rw [if_pos ((hnot hb').mpr hp), if_neg (fun hand => hand.2 hp)]
      have hnone : s.loading.count h = 0 :=
        count_eq_zero.mpr fun hl => (hc.loads h hl).2 (hin h hp)
      rw [hnone]
      rfl
    · rw [if_neg (fun hand => hp ((hnot hb').mp hand)), hcount]
      simp [hp]
  · intro h hh
    show (m'.blocks.get? h).isSome = true ∧ h ∉ (s.stores.erase prepared).flatten
    rw [hsome h, mem_storing_erase hc hmem]
    exact ⟨(hc.loads h hh).1, fun hand => (hc.loads h hh).2 hand.1⟩
  · intro h hh
    show (m'.blocks.get? h).isSome = true
    rw [hsome h]
    exact hc.stores h ((mem_storing_erase hc hmem h).mp hh).1
  · intro h
    rw [hstoredMem h]
    constructor
    · rintro ⟨hh, block, hb, hready⟩
      exact (hnot hb).mp ⟨hh, hready⟩
    · intro hp
      obtain ⟨block, hb⟩ := Option.isSome_iff_exists.mp (hc.stores h (hin h hp))
      obtain ⟨hh, hready⟩ := (hnot hb).mpr hp
      exact ⟨hh, block, hb, hready⟩

theorem counted_failedLoop (hc : Counted s) (hmem : prepared ∈ s.stores) (hsub : prepared ⊆ hs)
    (hothers : ∀ h ∈ hs, h ∈ prepared ∨ h ∉ s.storing)
    (hfailed : s.manager.failedLoop hs = .ok m') :
    Counted { s with manager := m', stores := s.stores.erase prepared } ∧
      m'.events = s.manager.events ∧
      ∀ h, (m'.blocks.get? h).isSome = true ↔
        (s.manager.blocks.get? h).isSome = true ∧ h ∉ prepared := by
  obtain ⟨hledger, hevents, hget⟩ := failedLoop_spec hfailed hc.ledger
  have hget' : ∀ h, m'.blocks.get? h =
      if h ∈ prepared then none else s.manager.blocks.get? h := by
    intro h
    rw [hget h]
    cases hb : s.manager.blocks.get? h with
    | none => simp
    | some block =>
      have hnot := not_ready_iff hc hmem hsub hothers hb
      by_cases hp : h ∈ prepared
      · obtain ⟨hh, hready⟩ := hnot.mpr hp
        simp [hp, hh, hready, Option.filter]
      · by_cases hh : h ∈ hs
        · have hready : block.isReady = true := by
            by_contra hr
            exact hp (hnot.mp ⟨hh, by simpa using hr⟩)
          simp [hp, hh, hready, Option.filter]
        · simp [hp, hh]
  have hsome : ∀ h, (m'.blocks.get? h).isSome = true ↔
      (s.manager.blocks.get? h).isSome = true ∧ h ∉ prepared := by
    intro h
    rw [hget' h]
    split
    · rename_i hp
      simp [hp]
    · rename_i hp
      simp [hp]
  refine ⟨⟨hledger, ?_, ?_, ?_, distinct_erase hc hmem, hc.small⟩, hevents, hsome⟩
  · intro h block hb
    change m'.blocks.get? h = some block at hb
    rw [hget' h] at hb
    split at hb
    · cases hb
    · rename_i hp
      rw [hc.counts h block hb]
      refine if_congr ?_ rfl rfl
      show h ∈ s.storing ↔ h ∈ (s.stores.erase prepared).flatten
      rw [mem_storing_erase hc hmem]
      exact ⟨fun hst => ⟨hst, hp⟩, And.left⟩
  · intro h hh
    show (m'.blocks.get? h).isSome = true ∧ h ∉ (s.stores.erase prepared).flatten
    obtain ⟨hin, hst⟩ := hc.loads h hh
    rw [hsome h, mem_storing_erase hc hmem]
    refine ⟨⟨hin, fun hp => hst ?_⟩, fun hand => hst hand.1⟩
    exact (perm_flatten_erase hmem).mem_iff.mpr (mem_append_left _ hp)
  · intro h hh
    show (m'.blocks.get? h).isSome = true
    obtain ⟨hst, hp⟩ := (mem_storing_erase hc hmem h).mp hh
    exact (hsome h).mpr ⟨hc.stores h hst, hp⟩

end CompleteStore

end Steps

/-! ### Runs -/

theorem mem_replay_appendEvent {taken events events' : List OffloadingEvent}
    {event : OffloadingEvent} (he : appendEvent (some events) event = some events')
    (h : BlockHash) :
    h ∈ replayEvents (taken ++ events') ↔
      if event.removed = true then h ∈ replayEvents (taken ++ events) ∧ h ∉ event.blockHashes
      else h ∈ replayEvents (taken ++ events) ∨ h ∈ event.blockHashes := by
  unfold appendEvent at he
  split at he
  · rename_i hnil
    cases he
    simp [hnil]
  · cases he
    rw [← append_assoc, replayEvents_concat]
    split <;> simp

/-- A step that leaves the events as they are and keeps what is ready. -/
theorem events_of_same {s s' : LRUState} (hinv : LRUInv s) (htaken : s'.taken = s.taken)
    (hevents : s'.manager.events = s.manager.events)
    (hready : ∀ h, s'.IsReady h ↔ s.IsReady h) :
    ∀ events, s'.manager.events = some events →
      ∀ h, h ∈ replayEvents (s'.taken ++ events) ↔ s'.IsReady h := by
  intro events he h
  rw [htaken, hready h]
  exact hinv.events events (hevents ▸ he) h

/-- What `prepare_store` does: nothing when it returns `None`, else it stores the new hashes. -/
theorem prepareStore_cases {m m' : LRUOffloadingManager} {hs : List BlockHash}
    {output : Option PrepareStoreOutput} (h : m.prepareStore hs = .ok (output, m')) :
    (output = none ∧ m' = m) ∨
    ∃ evicted out, output = some out ∧
      m.toEvict (hs.filter fun h => !m.blocks.contains h) = some evicted ∧
      m.storeBlocks (hs.filter fun h => !m.blocks.contains h) evicted = .ok (out, m') := by
  unfold LRUOffloadingManager.prepareStore at h
  dsimp only at h
  split at h
  · cases h
    exact .inl ⟨rfl, rfl⟩
  · rename_i evicted hevict
    obtain ⟨⟨out, m1⟩, hstore, h⟩ := bind_ok h
    cases h
    exact .inr ⟨evicted, out, rfl, hevict, hstore⟩

theorem get?_of_mem_toStore {m : LRUOffloadingManager} {hs : List BlockHash} {h : BlockHash}
    (hh : h ∈ hs.filter fun h => !m.blocks.contains h) : m.blocks.get? h = none := by
  have := (mem_filter.mp hh).2
  simpa [PyDict.contains] using this

/-- Every operation keeps the invariant. -/
theorem lruInv_step {s s' : LRUState} {op : LRUOp} (hinv : LRUInv s) (hpaired : Paired s op)
    (hdistinct : DistinctAndSmall s op) (hstep : s.step op = .ok s') : LRUInv s' := by
  have hc := hinv.counted
  cases op with
  | lookup hs =>
    cases hstep
    exact hinv
  | touch hs =>
    cases hstep
    refine ⟨counted_touch hc, events_of_same hinv rfl (touch_spec hs).1.events fun h => ?_⟩
    show (∃ block, (s.manager.touch hs).blocks.get? h = some block ∧ _) ↔ _
    rw [(touch_spec hs).2 h]
    rfl
  | prepareLoad hs =>
    obtain ⟨⟨spec, m'⟩, hload, hstep⟩ := bind_ok hstep
    cases hstep
    obtain ⟨⟨blocks, m1⟩, hloop, hload⟩ := bind_ok hload
    cases hload
    obtain ⟨hc', hevents, hsome⟩ := counted_prepareLoad hc hdistinct hloop
    refine ⟨hc', events_of_same hinv rfl hevents fun h => ?_⟩
    rw [hc'.ready_iff, hc.ready_iff, hsome h]
    rfl
  | completeLoad prepared hs =>
    obtain ⟨m', hload, hstep⟩ := bind_ok hstep
    cases hstep
    obtain ⟨hc', hevents, hsome⟩ := counted_completeLoad hc hpaired.1 hpaired.2 hload
    refine ⟨hc', events_of_same hinv rfl hevents fun h => ?_⟩
    rw [hc'.ready_iff, hc.ready_iff, hsome h]
    rfl
  | prepareStore hs =>
    obtain ⟨⟨output, m'⟩, hstore, hstep⟩ := bind_ok hstep
    cases hstep
    rcases prepareStore_cases hstore with ⟨rfl, rfl⟩ | ⟨evicted, out, rfl, hevict, hblocks⟩
    · exact hinv
    · obtain ⟨hc', hout, -, hevents, hsome⟩ := counted_storeBlocks hc hdistinct
        (fun h => get?_of_mem_toStore) hevict hblocks
      show LRUInv { s with manager := m', stores := out.blockHashesToStore :: s.stores }
      rw [hout]
      refine ⟨hc', fun events' he h => ?_⟩
      rw [hc'.ready_iff]
      change m'.events = some events' at he
      rw [hevents] at he
      cases hold : s.manager.events with
      | none =>
        rw [hold] at he
        simp [appendEvent] at he
      | some events =>
        rw [hold] at he
        rw [mem_replay_appendEvent he h, if_pos rfl, hinv.events events hold h, hc.ready_iff]
        by_cases hh : h ∈ hs.filter fun h => !s.manager.blocks.contains h
        · refine ⟨fun hand => ?_, fun hand => absurd (mem_append_left _ hh) hand.2⟩
          rw [get?_of_mem_toStore hh] at hand
          cases hand.1.1
        · show _ ↔ (m'.blocks.get? h).isSome = true ∧ h ∉ _ ++ s.storing
          rw [hsome h hh, mem_append, not_or]
          exact ⟨fun hand => ⟨⟨hand.1.1, hand.2⟩, hh, hand.1.2⟩,
            fun hand => ⟨⟨hand.1.1, hand.2.2⟩, hand.1.2⟩⟩
  | completeStore prepared hs success =>
    obtain ⟨hmem, hsub, hothers⟩ := hpaired
    obtain ⟨m', hcomplete, hstep⟩ := bind_ok hstep
    cases hstep
    have hin : ∀ h ∈ prepared, h ∈ s.storing := fun h hp =>
      (perm_flatten_erase hmem).mem_iff.mpr (mem_append_left _ hp)
    cases success with
    | true =>
      obtain ⟨⟨stored, m1⟩, hloop, hcomplete⟩ := bind_ok hcomplete
      cases hcomplete
      obtain ⟨hc', hevents, hstored, hsome⟩ := counted_storedLoop hc hmem hsub hothers hloop
      refine ⟨⟨hc'.ledger, hc'.counts, hc'.loads, hc'.stores, hc'.distinct, hc'.small⟩,
        fun events' he h => ?_⟩
      change appendEvent m1.events _ = some events' at he
      rw [hevents] at he
      cases hold : s.manager.events with
      | none =>
        rw [hold] at he
        simp [appendEvent] at he
      | some events =>
        rw [hold] at he
        have hready := hc'.ready_iff (h := h)
        rw [mem_replay_appendEvent he h, if_neg Bool.false_ne_true,
          hinv.events events hold h, hc.ready_iff, hstored h]
        refine Iff.trans ?_ hready.symm
        show _ ↔ (m1.blocks.get? h).isSome = true ∧
          h ∉ (s.stores.erase prepared).flatten
        rw [hsome h, mem_storing_erase hc hmem]
        constructor
        · rintro (⟨hs, hst⟩ | hp)
          · exact ⟨hs, fun hand => hst hand.1⟩
          · exact ⟨hc.stores h (hin h hp), fun hand => hand.2 hp⟩
        · rintro ⟨hs, hnot⟩
          by_cases hst : h ∈ s.storing
          · exact .inr (by_contra fun hp => hnot ⟨hst, hp⟩)
          · exact .inl ⟨hs, hst⟩
    | false =>
      obtain ⟨hc', hevents, hsome⟩ := counted_failedLoop hc hmem hsub hothers hcomplete
      refine ⟨hc', events_of_same hinv rfl hevents fun h => ?_⟩
      rw [hc'.ready_iff, hc.ready_iff]
      show (m'.blocks.get? h).isSome = true ∧ h ∉ (s.stores.erase prepared).flatten ↔ _
      rw [hsome h, mem_storing_erase hc hmem]
      constructor
      · rintro ⟨⟨hs, hp⟩, hnot⟩
        exact ⟨hs, fun hst => hnot ⟨hst, hp⟩⟩
      · rintro ⟨hs, hst⟩
        exact ⟨⟨hs, fun hp => hst (hin h hp)⟩, fun hand => hst hand.1⟩
  | takeEvents =>
    cases hstep
    refine ⟨⟨hc.ledger, hc.counts, hc.loads, hc.stores, hc.distinct, hc.small⟩,
      fun events' he h => ?_⟩
    change s.manager.events.map (fun _ => []) = some events' at he
    obtain ⟨events, hold, rfl⟩ := Option.map_eq_some_iff.mp he
    show h ∈ replayEvents (s.taken ++ s.manager.events.getD [] ++ []) ↔ s.IsReady h
    rw [hold, append_nil]
    exact hinv.events events hold h

/-- A new manager. -/
def LRUState.start (blockSize numBlocks : Nat) (enableEvents : Bool) : LRUState where
  manager := .init { blockSize, numBlocks } enableEvents

theorem lruInv_start (blockSize numBlocks : Nat) (enableEvents : Bool) :
    LRUInv (LRUState.start blockSize numBlocks enableEvents) := by
  refine ⟨⟨⟨.refl _, Nat.zero_le _⟩, fun h block hb => (nomatch hb), fun h hh => (nomatch hh),
    fun h hh => (nomatch hh), nodup_nil, fun h => ?_⟩, fun events he h => ?_⟩
  · show List.count h [] < 2 ^ 31
    simp
  · have hnil : events = [] := by
      change (if enableEvents then some [] else none) = some events at he
      split at he
      · exact (Option.some.inj he).symm
      · cases he
    subst hnil
    refine ⟨fun hmem => ?_, fun ⟨block, hb, _⟩ => (nomatch hb)⟩
    exact absurd hmem (Finset.notMem_empty h)

/-- `lookup` counts the hashes up to the first one that is not ready. -/
theorem lookup_longest (s : LRUState) (hs : List BlockHash) :
    s.manager.lookup hs ≤ hs.length ∧ (∀ h ∈ hs.take (s.manager.lookup hs), s.IsReady h) ∧
      ∀ k ≤ hs.length, (∀ h ∈ hs.take k, s.IsReady h) → k ≤ s.manager.lookup hs := by
  induction hs with
  | nil => exact ⟨le_rfl, by simp, fun k hk _ => hk⟩
  | cons x rest ih =>
    obtain ⟨hle, hall, hmax⟩ := ih
    by_cases hx : s.IsReady x
    · have hlookup : s.manager.lookup (x :: rest) = s.manager.lookup rest + 1 := by
        obtain ⟨block, hb, hready⟩ := hx
        simp [LRUOffloadingManager.lookup, hb, hready]
      rw [hlookup]
      refine ⟨Nat.succ_le_succ hle, fun h hh => ?_, fun k hk hready => ?_⟩
      · rw [take_succ_cons, mem_cons] at hh
        rcases hh with rfl | hh
        · exact hx
        · exact hall h hh
      · cases k with
        | zero => exact Nat.zero_le _
        | succ k =>
          refine Nat.succ_le_succ (hmax k (Nat.le_of_succ_le_succ hk) fun h hh => ?_)
          exact hready h (by rw [take_succ_cons]; exact mem_cons_of_mem _ hh)
    · have hlookup : s.manager.lookup (x :: rest) = 0 := by
        unfold LRUOffloadingManager.lookup
        cases hb : s.manager.blocks.get? x with
        | none => rfl
        | some block =>
          have hready : block.isReady ≠ true := fun hr => hx ⟨block, hb, hr⟩
          simp [hready]
      rw [hlookup]
      refine ⟨Nat.zero_le _, by simp, fun k hk hready => ?_⟩
      cases k with
      | zero => exact le_rfl
      | succ k => exact absurd (hready x (by simp)) hx

instance (s : LRUState) (op : LRUOp) : Decidable (Paired s op) :=
  match op with
  | .completeLoad prepared blockHashes =>
    inferInstanceAs (Decidable (prepared ∈ s.loads ∧ blockHashes.Perm prepared))
  | .completeStore prepared blockHashes _ =>
    inferInstanceAs (Decidable (prepared ∈ s.stores ∧ (∀ h ∈ prepared, h ∈ blockHashes) ∧
      ∀ h ∈ blockHashes, h ∈ prepared ∨ h ∉ s.storing))
  | .lookup _ | .touch _ | .prepareLoad _ | .prepareStore _ | .takeEvents =>
    inferInstanceAs (Decidable True)

instance (s : LRUState) (op : LRUOp) : Decidable (DistinctAndSmall s op) :=
  match op with
  | .prepareLoad blockHashes => inferInstanceAs (Decidable (∀ h ∈ blockHashes,
      s.loading.count h + blockHashes.count h < 2 ^ 31))
  | .prepareStore blockHashes =>
    inferInstanceAs (Decidable (blockHashes.filter fun h => !s.manager.blocks.contains h).Nodup)
  | .lookup _ | .touch _ | .completeLoad _ _ | .completeStore _ _ _ | .takeEvents =>
    inferInstanceAs (Decidable True)

end Vllm.Proofs.KVOffload
