import Vllm.Proofs.Core.TableRun

/-!
# `Vllm.Proofs.Core.TableStep`: what an operation does to one table

The operations of `TableRun` change the tables of one request at a time. This file says, for a
fixed group and a fixed request, what each of them does to the one table.

* `KeepsSpec`: the fields of a manager that never change.
* `allocateNewBlocks_tables`, `removeSkippedBlocks_tables`, `free_tables`, .. : the operations on
  the request itself.
* `Elsewhere`, `table_of_elsewhere`: the operations that leave the table alone.
-/

set_option autoImplicit false

namespace Vllm.Proofs.Core

open Vllm.Lib Vllm.V1 Vllm.V1.Core SingleTypeKVCacheManager
open Vllm.V1.Core.BlockPool

/-- The fields of a manager that no operation changes. -/
structure KeepsSpec (m m' : SingleTypeKVCacheManager) : Prop where
  kvCacheSpec : m'.kvCacheSpec = m.kvCacheSpec
  blockSize : m'.blockSize = m.blockSize
  nullBlock : m'.nullBlock = m.nullBlock

theorem KeepsSpec.refl (m : SingleTypeKVCacheManager) : KeepsSpec m m := ⟨rfl, rfl, rfl⟩

section Managers
variable {m m' : SingleTypeKVCacheManager} {pool pool' : BlockPool}
  {requestId otherId : String}

theorem table_setTable_of_ne (m : SingleTypeKVCacheManager) (blocks : List BlockRef)
    (hne : otherId ≠ requestId) :
    (m.setTable requestId blocks).table otherId = m.table otherId := by
  unfold table setTable
  rw [PyDict.get?_insert_of_ne _ _ hne]

@[simp] theorem table_reqBlocks (m : SingleTypeKVCacheManager) (requestId otherId : String) :
    (m.reqBlocks requestId).2.table otherId = m.table otherId := by
  unfold reqBlocks
  by_cases hne : otherId = requestId
  · subst hne
    exact table_setTable m otherId _
  · exact table_setTable_of_ne m _ hne

/-- `allocate_new_blocks` appends to the table of its request. -/
theorem allocateNewBlocks_tables {numTokens : Int} {X : List BlockRef}
    (h : m.allocateNewBlocks pool requestId numTokens = .ok (X, m', pool')) :
    KeepsSpec m m' ∧ m'.table requestId = m.table requestId ++ X ∧
      ∀ otherId, otherId ≠ requestId → m'.table otherId = m.table otherId := by
  rcases allocateNewBlocks_eq_ok h with ⟨-, rfl, rfl, -⟩ | ⟨-, -, rfl⟩
  · exact ⟨⟨rfl, rfl, rfl⟩, by simp, fun otherId _ => by simp⟩
  · refine ⟨⟨rfl, rfl, rfl⟩, table_setTable _ _ _, fun otherId hne => ?_⟩
    rw [table_setTable_of_ne _ _ hne, table_reqBlocks]

/-- `cache_blocks` changes no table. -/
theorem cacheBlocks_tables {request : Request} {numTokens : Int}
    (h : m.cacheBlocks pool request numTokens = .ok (m', pool')) :
    KeepsSpec m m' ∧ ∀ otherId, m'.table otherId = m.table otherId := by
  rcases cacheBlocks_eq_ok h with ⟨rfl, -⟩ | ⟨-, -, rfl⟩
  · exact ⟨KeepsSpec.refl _, fun _ => rfl⟩
  · exact ⟨⟨rfl, rfl, rfl⟩, fun otherId => table_reqBlocks m request.requestId otherId⟩

/-- `free` removes the table of its request. -/
theorem free_tables (h : m.free pool requestId = .ok (m', pool')) :
    KeepsSpec m m' ∧ m'.table requestId = [] ∧
      ∀ otherId, otherId ≠ requestId → m'.table otherId = m.table otherId := by
  obtain ⟨p, -, hret⟩ := bind_ok h
  cases hret
  refine ⟨⟨rfl, rfl, rfl⟩, ?_, fun otherId hne => ?_⟩
  · show ((m.reqToBlocks.erase requestId).get? requestId).getD [] = []
    rw [PyDict.get?_erase_self]
    rfl
  · show ((m.reqToBlocks.erase requestId).get? otherId).getD [] = _
    rw [PyDict.get?_erase_of_ne _ hne]
    rfl

/-- `remove_skipped_blocks` writes null into the table of its request. -/
theorem removeSkippedBlocks_tables {numComputedTokens : Int}
    (h : m.removeSkippedBlocks pool requestId numComputedTokens = .ok (m', pool')) :
    KeepsSpec m m' ∧
      ((m.getNumSkippedTokens numComputedTokens ≤ 0 ∧
          m'.table requestId = m.table requestId) ∨
        (0 < m.getNumSkippedTokens numComputedTokens ∧ ∃ P Y Q,
          removeSkippedBlocksLoop m.nullBlock
            (Int.fdiv (m.getNumSkippedTokens numComputedTokens) m.blockSize).toNat
            (m.table requestId) [] = .ok (m'.table requestId, Y.reverse) ∧
          Skipped m.nullBlock (Int.fdiv (m.getNumSkippedTokens numComputedTokens) m.blockSize).toNat
            (m.table requestId) (m'.table requestId) P Y Q)) ∧
      ∀ otherId, otherId ≠ requestId → m'.table otherId = m.table otherId := by
  rcases removeSkippedBlocks_eq_ok h with ⟨hle, rfl, -⟩ |
    ⟨hpos, blocks', P, Y, Q, hloop, hsk, -, rfl⟩
  · exact ⟨KeepsSpec.refl _, .inl ⟨hle, rfl⟩, fun _ _ => rfl⟩
  · refine ⟨⟨rfl, rfl, rfl⟩, .inr ⟨hpos, P, Y, Q, ?_⟩, fun otherId hne => ?_⟩
    · rw [table_setTable]
      exact ⟨hloop, hsk⟩
    · rw [table_setTable_of_ne _ _ hne, table_reqBlocks]

/-- `save_new_computed_blocks` appends the hit to the table of its request. -/
theorem saveNewComputedBlocks_tables {hit : List BlockRef}
    (h : m.saveNewComputedBlocks requestId hit = .ok m') :
    KeepsSpec m m' ∧ m'.table requestId = m.table requestId ++ hit ∧
      ∀ otherId, otherId ≠ requestId → m'.table otherId = m.table otherId := by
  unfold saveNewComputedBlocks at h
  split at h
  · obtain ⟨u, hassert, hret⟩ := bind_ok h
    cases hret
    obtain rfl := List.isEmpty_iff.mp (pyAssert_eq_ok_iff.mp hassert)
    exact ⟨KeepsSpec.refl _, by simp, fun _ _ => rfl⟩
  · split at h
    · obtain ⟨u, -, hret⟩ := bind_ok h
      cases hret
      refine ⟨⟨rfl, rfl, rfl⟩, table_setTable _ _ _, fun otherId hne => ?_⟩
      show ((m.reqBlocks requestId).2.setTable requestId _).table otherId = _
      rw [table_setTable_of_ne _ _ hne, table_reqBlocks]
    · obtain ⟨u, hassert, hret⟩ := bind_ok h
      cases hret
      obtain rfl := List.isEmpty_iff.mp (pyAssert_eq_ok_iff.mp hassert)
      exact ⟨KeepsSpec.refl _, by simp, fun _ _ => rfl⟩

/-- The manager of a group after a hit was saved in all groups. -/
theorem saveAll_getElem? {ms ms' : List SingleTypeKVCacheManager}
    {lists : List (List BlockRef)} {group : Nat}
    (h : KVCacheCoordinator.saveAll requestId ms lists = .ok ms') (hm : ms[group]? = some m) :
    ∃ hit m', lists[group]? = some hit ∧ ms'[group]? = some m' ∧
      m.saveNewComputedBlocks requestId hit = .ok m' := by
  induction ms generalizing ms' lists group with
  | nil => cases hm
  | cons x ms ih =>
    cases lists with
    | nil => cases h
    | cons hit lists =>
      obtain ⟨x', hone, hrest⟩ := bind_ok h
      obtain ⟨xs', hall, hret⟩ := bind_ok hrest
      cases hret
      cases group with
      | zero =>
        cases hm
        exact ⟨hit, x', rfl, rfl, hone⟩
      | succ group =>
        obtain ⟨hit', m', hhit, hm', hone'⟩ := ih hall hm
        exact ⟨hit', m', hhit, hm', hone'⟩

end Managers

/-! ### One group of the coordinator -/

section Groups
variable {c c' : KVCacheCoordinator} {group : Nat} {m : SingleTypeKVCacheManager}

/-- An operation on one manager, seen from the group `group`. -/
theorem onManager_getElem? {g : Nat}
    {f : SingleTypeKVCacheManager → BlockPool →
      Except PyError (SingleTypeKVCacheManager × BlockPool)}
    (h : onManager c g f = .ok c') (hm : c.singleTypeManagers[group]? = some m) :
    (g = group ∧ ∃ m', f m c.blockPool = .ok (m', c'.blockPool) ∧
        c'.singleTypeManagers[group]? = some m') ∨
      (g ≠ group ∧ c'.singleTypeManagers[group]? = some m) := by
  unfold onManager at h
  split at h
  · cases h
  · rename_i m1 hget
    obtain ⟨⟨m', pool⟩, hf, hret⟩ := bind_ok h
    cases hret
    by_cases hg : g = group
    · subst hg
      cases hget.symm.trans hm
      refine .inl ⟨rfl, m', hf, ?_⟩
      obtain ⟨hlt, -⟩ := List.getElem?_eq_some_iff.mp hm
      show (c.singleTypeManagers.set g m')[g]? = some m'
      rw [List.getElem?_set_self hlt]
    · refine .inr ⟨hg, ?_⟩
      show (c.singleTypeManagers.set g m')[group]? = some m
      rw [List.getElem?_set_ne hg, hm]

/-- The operations that do not concern the table of a request in a group. -/
def Elsewhere (group : Nat) (requestId : String) : KVOp → Prop
  | .allocateNewComputedBlocks id _ => id ≠ requestId
  | .allocateNewBlocks g id _ => g ≠ group ∨ id ≠ requestId
  | .removeSkippedBlocks g id _ => g ≠ group ∨ id ≠ requestId
  | .free g id => g ≠ group ∨ id ≠ requestId
  | .cacheBlocks .. => True
  | .evictBlocks _ => True
  | .resetPrefixCache => True

instance (group : Nat) (requestId : String) : (op : KVOp) →
    Decidable (Elsewhere group requestId op)
  | .allocateNewComputedBlocks id _ => inferInstanceAs (Decidable (id ≠ requestId))
  | .allocateNewBlocks g id _ => inferInstanceAs (Decidable (g ≠ group ∨ id ≠ requestId))
  | .removeSkippedBlocks g id _ => inferInstanceAs (Decidable (g ≠ group ∨ id ≠ requestId))
  | .free g id => inferInstanceAs (Decidable (g ≠ group ∨ id ≠ requestId))
  | .cacheBlocks .. => isTrue trivial
  | .evictBlocks _ => isTrue trivial
  | .resetPrefixCache => isTrue trivial

/-- An operation elsewhere leaves the table alone. -/
theorem table_of_elsewhere {requestId : String} {op : KVOp}
    (hop : Elsewhere group requestId op) (hstep : kvStep c op = .ok c')
    (hm : c.singleTypeManagers[group]? = some m) :
    ∃ m', c'.singleTypeManagers[group]? = some m' ∧ KeepsSpec m m' ∧
      m'.table requestId = m.table requestId := by
  unfold kvStep at hstep
  cases op with
  | allocateNewComputedBlocks id lists =>
    obtain ⟨pool, -, hrest⟩ := bind_ok hstep
    obtain ⟨ms, hsave, hret⟩ := bind_ok hrest
    cases hret
    obtain ⟨hit, m', -, hm', hone⟩ := saveAll_getElem? hsave hm
    obtain ⟨hspec, -, hother⟩ := saveNewComputedBlocks_tables hone
    exact ⟨m', hm', hspec, hother requestId (Ne.symm hop)⟩
  | allocateNewBlocks g id numTokens =>
    rcases onManager_getElem? hstep hm with ⟨rfl, m', hf, hm'⟩ | ⟨-, hm'⟩
    · obtain ⟨⟨X, m1, pool₁⟩, hrun, hret⟩ := bind_ok hf
      obtain ⟨rfl, -⟩ := Prod.mk.inj (Except.ok.inj hret)
      obtain ⟨hspec, -, hother⟩ := allocateNewBlocks_tables hrun
      exact ⟨m1, hm', hspec, hother requestId (Ne.symm (hop.resolve_left (fun h => h rfl)))⟩
    · exact ⟨m, hm', KeepsSpec.refl m, rfl⟩
  | cacheBlocks g request numTokens =>
    rcases onManager_getElem? hstep hm with ⟨rfl, m', hf, hm'⟩ | ⟨-, hm'⟩
    · obtain ⟨hspec, hother⟩ := cacheBlocks_tables hf
      exact ⟨m', hm', hspec, hother requestId⟩
    · exact ⟨m, hm', KeepsSpec.refl m, rfl⟩
  | removeSkippedBlocks g id numComputedTokens =>
    rcases onManager_getElem? hstep hm with ⟨rfl, m', hf, hm'⟩ | ⟨-, hm'⟩
    · obtain ⟨hspec, -, hother⟩ := removeSkippedBlocks_tables hf
      exact ⟨m', hm', hspec, hother requestId (Ne.symm (hop.resolve_left (fun h => h rfl)))⟩
    · exact ⟨m, hm', KeepsSpec.refl m, rfl⟩
  | free g id =>
    rcases onManager_getElem? hstep hm with ⟨rfl, m', hf, hm'⟩ | ⟨-, hm'⟩
    · obtain ⟨hspec, -, hother⟩ := free_tables hf
      exact ⟨m', hm', hspec, hother requestId (Ne.symm (hop.resolve_left (fun h => h rfl)))⟩
    · exact ⟨m, hm', KeepsSpec.refl m, rfl⟩
  | evictBlocks ids =>
    obtain ⟨pool, -, hret⟩ := bind_ok hstep
    cases hret
    exact ⟨m, hm, KeepsSpec.refl m, rfl⟩
  | resetPrefixCache =>
    cases hstep
    exact ⟨m, hm, KeepsSpec.refl m, rfl⟩

end Groups

end Vllm.Proofs.Core
