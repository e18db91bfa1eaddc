import Vllm.Lib.Run
import Vllm.Proofs.KVOffload.Backend
import Vllm.V1.KVOffload.ARCManager
import Mathlib.Algebra.Order.Ring.Rat
import Mathlib.Data.List.Basic

/-!
# `Vllm.Proofs.KVOffload.ARC`: runs of the ARC manager

* `places`: in how many of the four dictionaries a hash is.
* `ARCInv`: the invariant: one place at most, the ids of the CPU blocks, the target and the
  bounds of the ghost lists.
* `evictLoop_counts`: how many blocks can be evicted, and from where.
* `arcInv_step`: every call that meets `ARCClean` keeps the invariant and raises no `KeyError`.
-/

set_option autoImplicit false

namespace Vllm.Proofs.KVOffload

open Vllm.Lib Vllm.V1 Vllm.V1.KVOffload ARCOffloadingManager PyDict ARCOffloadingManager

variable {m m' : ARCOffloadingManager} {h : BlockHash} {block : CPUBlockStatus}

/-! ### The invariant -/

/-- In how many of `t1`, `t2`, `b1` and `b2` a hash is. -/
def places (m : ARCOffloadingManager) (h : BlockHash) : Nat :=
  (m.t1.contains h).toNat + (m.t2.contains h).toNat + (m.b1.contains h).toNat
    + (m.b2.contains h).toNat

/-- The ids of the blocks in the cache. -/
def arcIds (m : ARCOffloadingManager) : List Nat := ids m.t1 ++ ids m.t2

/-- The part of the invariant that every call keeps that loses no block. -/
structure ARCBlocks (m : ARCOffloadingManager) : Prop where
  onePlace : ∀ h, places m h ≤ 1
  ledger : Ledger m.backend (arcIds m)
  target : 0 ≤ m.targetT1Size ∧ m.targetT1Size ≤ m.cacheCapacity ∧ m.cacheCapacity < 2 ^ 53

/-- The invariant of the runs. -/
structure ARCInv (m : ARCOffloadingManager) : Prop where
  blocks : ARCBlocks m
  ghosts : m.b1.size ≤ m.cacheCapacity ∧ m.b2.size ≤ m.cacheCapacity

/-- A hash that two dictionaries have only once is not in the second if it is in the first. -/
theorem contains_eq_false {α β : Type} {d : PyDict BlockHash α} {d' : PyDict BlockHash β}
    (hle : (d.contains h).toNat + (d'.contains h).toNat ≤ 1) (hin : d.contains h = true) :
    d'.contains h = false := by
  rw [hin] at hle
  cases hc : d'.contains h with
  | false => rfl
  | true =>
    rw [hc] at hle
    exact absurd hle (by decide)

/-- The four dictionaries have no hash in common. -/
theorem pairwise_disjoint_of_places (hone : ∀ h, places m h ≤ 1) :
    [m.t1.keys, m.t2.keys, m.b1.keys, m.b2.keys].Pairwise List.Disjoint := by
  have hdisjoint : ∀ {α β : Type} {d : PyDict BlockHash α} {d' : PyDict BlockHash β},
      (∀ h, (d.contains h).toNat + (d'.contains h).toNat ≤ 1) → d.keys.Disjoint d'.keys := by
    intro α β d d' hle h hd hd'
    have hout := contains_eq_false (hle h) ((d.contains_eq_true_iff h).mpr hd)
    rw [(d'.contains_eq_true_iff h).mpr hd'] at hout
    cases hout
  simp only [List.pairwise_cons, List.mem_cons, List.not_mem_nil, or_false, forall_eq_or_imp,
    forall_eq, List.Pairwise.nil, and_true, IsEmpty.forall_iff, implies_true]
  refine ⟨⟨?_, ?_, ?_⟩, ⟨?_, ?_⟩, ?_⟩
  all_goals
    refine hdisjoint fun h => ?_
    have := hone h
    unfold places at this
    omega

/-! ### Changes of a block -/

theorem contains_of_get? {d : PyDict BlockHash CPUBlockStatus} (hb : d.get? h = some block) :
    d.contains h = true := by
  rw [contains, hb]
  rfl

theorem getBlock_cases (hb : m.getBlock h = some block) :
    m.t1.get? h = some block ∨ (m.t1.get? h = none ∧ m.t2.get? h = some block) := by
  unfold getBlock at hb
  split at hb
  · rename_i b hb1
    cases hb
    exact .inl hb1
  · rename_i hb1
    exact .inr ⟨hb1, hb⟩

/-- A change after which every hash is where it was. -/
theorem onePlace_congr (hone : ∀ h, places m h ≤ 1)
    (h1 : ∀ h, m'.t1.contains h = m.t1.contains h) (h2 : ∀ h, m'.t2.contains h = m.t2.contains h)
    (h3 : ∀ h, m'.b1.contains h = m.b1.contains h) (h4 : ∀ h, m'.b2.contains h = m.b2.contains h)
    (h : BlockHash) : places m' h ≤ 1 := by
  unfold places
  rw [h1, h2, h3, h4]
  exact hone h

/-- The count of a block changes, nothing else. -/
theorem arcInv_setBlock {w : CPUBlockStatus} (hinv : ARCInv m) (hb : m.getBlock h = some block)
    (hid : w.blockId = block.blockId) : ARCInv (m.setBlock h w) := by
  obtain ⟨⟨hone, hledger, htarget⟩, hghosts⟩ := hinv
  unfold setBlock
  rcases getBlock_cases hb with hb | ⟨hnone, hb⟩
  · have hin := contains_of_get? hb
    rw [if_pos hin]
    refine ⟨⟨onePlace_congr hone (fun h' => contains_insert_of_contains w hin h')
      (fun _ => rfl) (fun _ => rfl) (fun _ => rfl), ?_, htarget⟩, hghosts⟩
    exact hledger.perm ((ids_insert hb hid).append_right _)
  · have hin := contains_of_get? hb
    have hout : m.t1.contains h = false := by
      rw [contains, hnone]
      rfl
    rw [if_neg (by rw [hout]; exact Bool.false_ne_true)]
    refine ⟨⟨onePlace_congr hone (fun _ => rfl)
      (fun h' => contains_insert_of_contains w hin h') (fun _ => rfl) (fun _ => rfl), ?_,
      htarget⟩, hghosts⟩
    exact hledger.perm ((ids_insert hb hid).append_left _)

variable {hs : List BlockHash}

theorem arcInv_prepareLoadLoop {blocks : List CPUBlockStatus} (hinv : ARCInv m)
    (hload : m.prepareLoadLoop hs = .ok (blocks, m')) : ARCInv m' := by
  induction hs generalizing m blocks with
  | nil =>
    cases hload
    exact hinv
  | cons x rest ih =>
    unfold prepareLoadLoop at hload
    split at hload
    · cases hload
    · rename_i block hb
      obtain ⟨_, -, hload⟩ := bind_ok hload
      obtain ⟨⟨blocks', m1⟩, hrec, hload⟩ := bind_ok hload
      cases hload
      exact ih (arcInv_setBlock hinv hb (by rfl)) hrec

theorem arcInv_completeLoad (hinv : ARCInv m) (hload : m.completeLoad hs = .ok m') : ARCInv m' := by
  induction hs generalizing m with
  | nil =>
    cases hload
    exact hinv
  | cons x rest ih =>
    unfold completeLoad at hload
    split at hload
    · cases hload
    · rename_i block hb
      obtain ⟨_, -, hload⟩ := bind_ok hload
      exact ih (arcInv_setBlock hinv hb (by rfl)) hload

theorem arcInv_storedLoop (hs : List BlockHash) (hinv : ARCInv m) : ARCInv (m.storedLoop hs).2 := by
  induction hs generalizing m with
  | nil => exact hinv
  | cons x rest ih =>
    unfold storedLoop
    split
    · exact ih hinv
    · rename_i block hb
      split
      · exact ih hinv
      · exact ih (arcInv_setBlock hinv hb rfl)

/-! ### A failed store -/

/-- The block of a failed store, which is not ready, leaves the cache and is freed. -/
theorem arcInv_failedLoop (hinv : ARCInv m)
    (hnot : ∀ h ∈ hs, ∀ block, m.getBlock h = some block → block.isReady = false) :
    ARCInv (m.failedLoop hs) := by
  induction hs generalizing m with
  | nil => exact hinv
  | cons x rest ih =>
    unfold failedLoop
    split
    · exact ih hinv fun h hh => hnot h (List.mem_cons_of_mem _ hh)
    · rename_i block hb
      rw [hnot x List.mem_cons_self block hb, if_neg Bool.false_ne_true]
      obtain ⟨⟨hone, hledger, htarget⟩, hghosts⟩ := hinv
      have hplaces := hone x
      rcases getBlock_cases hb with hb1 | ⟨hnone, hb2⟩
      · have hin := contains_of_get? hb1
        rw [if_pos hin]
        refine ih ⟨⟨fun h => ?_, ?_, htarget⟩, hghosts⟩ fun h hh b hget => ?_
        · refine le_trans ?_ (hone h)
          unfold places
          dsimp only
          rw [contains_erase]
          by_cases hx : h = x <;> simp [hx]
        · refine hledger.free ?_
          exact (ids_erase hb1).append_right _
        · refine hnot h (List.mem_cons_of_mem _ hh) b ?_
          unfold getBlock at hget ⊢
          dsimp only at hget
          rw [get?_erase] at hget
          by_cases hx : h = x
          · subst hx
            rw [if_pos rfl] at hget
            unfold places at hplaces
            have hout : m.t2.contains h = false := contains_eq_false (by omega) hin
            rw [contains_of_get? hget] at hout
            cases hout
          · rwa [if_neg hx] at hget
      · have hout : m.t1.contains x = false := by
          rw [contains, hnone]
          rfl
        rw [if_neg (by rw [hout]; exact Bool.false_ne_true)]
        refine ih ⟨⟨fun h => ?_, ?_, htarget⟩, hghosts⟩ fun h hh b hget => ?_
        · refine le_trans ?_ (hone h)
          unfold places
          dsimp only
          rw [contains_erase]
          by_cases hx : h = x <;> simp [hx]
        · refine hledger.free ?_
          exact ((ids_erase hb2).append_left _).trans List.perm_middle
        · refine hnot h (List.mem_cons_of_mem _ hh) b ?_
          unfold getBlock at hget ⊢
          dsimp only at hget
          rw [get?_erase] at hget
          by_cases hx : h = x
          · subst hx
            rw [if_pos rfl, hnone] at hget
            cases hget
          · rwa [if_neg hx] at hget

/-! ### `touch` -/

theorem target_increased {target delta : ℚ} {capacity : Nat} (h : 0 ≤ target) (hd : 0 ≤ delta)
    (hcap : capacity < 2 ^ 53) :
    0 ≤ min (roundDouble (target + delta)) (capacity : ℚ) ∧
      min (roundDouble (target + delta)) (capacity : ℚ) ≤ capacity ∧ capacity < 2 ^ 53 :=
  ⟨le_min (roundDouble_nonneg (add_nonneg h hd)) (Nat.cast_nonneg capacity), min_le_right _ _,
    hcap⟩

theorem target_decreased {target delta : ℚ} {capacity : Nat} (h : target ≤ capacity)
    (hd : 0 ≤ delta) (hcap : capacity < 2 ^ 53) :
    0 ≤ max (roundDouble (target - delta)) 0 ∧
      max (roundDouble (target - delta)) 0 ≤ capacity ∧ capacity < 2 ^ 53 := by
  refine ⟨le_max_right _ _, max_le ?_ (Nat.cast_nonneg capacity), hcap⟩
  exact roundDouble_le ((sub_le_self target hd).trans h) hcap

/-- `touch` of a hash that is not a block of `t1` being stored. -/
theorem arcInv_touchBlock (hinv : ARCInv m)
    (hready : ∀ block, m.t1.get? h = some block → block.isReady = true) :
    ∃ m', m.touchBlock h = .ok m' ∧ ARCInv m' ∧
      ∀ h' block, m'.t1.get? h' = some block → m.t1.get? h' = some block := by
  obtain ⟨⟨hone, hledger, htarget⟩, hghosts⟩ := hinv
  have hdelta : ∀ x : ℚ, 0 ≤ max 1 (roundDouble x) := fun x => le_max_of_le_left zero_le_one
  unfold touchBlock
  split
  · rename_i block hb
    have hin := contains_of_get? hb
    have hplaces := hone h
    unfold places at hplaces
    have hout : m.t2.contains h = false := contains_eq_false (by omega) hin
    dsimp only
    rw [hready block hb, if_pos rfl]
    refine ⟨_, rfl, ⟨⟨fun h' => ?_, ?_, htarget⟩, hghosts⟩, fun h' b hget => ?_⟩
    · have hone' := hone h'
      unfold places at hone' ⊢
      dsimp only
      rw [contains_erase, contains_insert]
      by_cases hh : h' = h
      · subst hh
        rw [hin, hout] at hone'
        simpa using hone'
      · simpa [hh] using hone'
    · have hnew : h ∉ m.t2.keys := by
        rw [← contains_eq_true_iff, hout]
        exact Bool.false_ne_true
      refine hledger.perm ?_
      show (ids (m.t1.erase h) ++ ids (m.t2.insert h block)).Perm (ids m.t1 ++ ids m.t2)
      rw [ids_insert_of_not_mem hnew, ← List.append_assoc]
      exact (List.perm_append_singleton _ _).trans ((ids_erase hb).symm.append_right _)
    · change (m.t1.erase h).get? h' = some b at hget
      rw [get?_erase] at hget
      split at hget
      · cases hget
      · exact hget
  · split
    · rename_i t2 ht2
      refine ⟨_, rfl, ⟨⟨?_, ?_, htarget⟩, hghosts⟩, fun _ _ hget => hget⟩
      · exact onePlace_congr hone (fun _ => rfl) (contains_moveToEnd ht2) (fun _ => rfl)
          (fun _ => rfl)
      · exact hledger.perm ((ids_moveToEnd ht2).append_left _)
    · split
      · rename_i b1 hb1
        refine ⟨_, rfl, ⟨⟨?_, hledger, ?_⟩, ?_⟩, fun _ _ hget => hget⟩
        · exact onePlace_congr hone (fun _ => rfl) (fun _ => rfl) (contains_moveToEnd hb1)
            (fun _ => rfl)
        · exact target_increased htarget.1 (hdelta _) htarget.2.2
        · exact ⟨(size_moveToEnd hb1).le.trans hghosts.1, hghosts.2⟩
      · split
        · rename_i b2 hb2
          refine ⟨_, rfl, ⟨⟨?_, hledger, ?_⟩, ?_⟩, fun _ _ hget => hget⟩
          · exact onePlace_congr hone (fun _ => rfl) (fun _ => rfl) (fun _ => rfl)
              (contains_moveToEnd hb2)
          · exact target_decreased htarget.2.1 (hdelta _) htarget.2.2
          · exact ⟨hghosts.1, (size_moveToEnd hb2).le.trans hghosts.2⟩
        · exact ⟨m, rfl, ⟨⟨hone, hledger, htarget⟩, hghosts⟩, fun _ _ hget => hget⟩

theorem arcInv_touch (hinv : ARCInv m)
    (hready : ∀ h ∈ hs, ∀ block, m.t1.get? h = some block → block.isReady = true) :
    ∃ m', m.touch hs = .ok m' ∧ ARCInv m' := by
  have hready' : ∀ h ∈ hs.reverse, ∀ block, m.t1.get? h = some block → block.isReady = true :=
    fun h hh => hready h (List.mem_reverse.mp hh)
  unfold touch
  clear hready
  generalize hs.reverse = l at hready' ⊢
  induction l generalizing m with
  | nil => exact ⟨m, rfl, hinv⟩
  | cons x rest ih =>
    obtain ⟨m1, hstep, hinv1, hback⟩ := arcInv_touchBlock hinv (hready' x List.mem_cons_self)
    obtain ⟨m', hloop, hinv'⟩ := ih hinv1 fun h hh block hb =>
      hready' h (List.mem_cons_of_mem _ hh) block (hback h block hb)
    refine ⟨m', ?_, hinv'⟩
    rw [List.foldlM_cons, hstep]
    exact hloop

/-! ### The eviction -/

/-- The blocks of a dictionary that no transfer uses. -/
def numUnused (t : PyDict BlockHash CPUBlockStatus) : Nat :=
  t.entries.countP fun e => e.2.refCnt = 0

/-- How many blocks the loop can evict from `t1`: it stops there when `t1` is smaller than the
target. -/
def evictableT1 (m : ARCOffloadingManager) : Nat :=
  if pyInt m.targetT1Size ≤ m.t1.size then
    min (numUnused m.t1) ((m.t1.size : Int) + 1 - pyInt m.targetT1Size).toNat
  else 0

variable {t : PyDict BlockHash CPUBlockStatus}

theorem oldestUnused_eq_some (ho : oldestUnused t = some (h, block)) :
    t.get? h = some block ∧ numUnused (t.erase h) + 1 = numUnused t := by
  have hget : t.get? h = some block := (t.mem_entries_iff h block).mp (List.mem_of_find?_eq_some ho)
  refine ⟨hget, ?_⟩
  have hzero := List.find?_some ho
  unfold numUnused
  rw [(entries_perm_erase hget).countP_eq, List.countP_cons, if_pos hzero]

theorem oldestUnused_eq_none (ho : oldestUnused t = none) : numUnused t = 0 := by
  refine List.countP_eq_zero.mpr fun e he => ?_
  exact List.find?_eq_none.mp ho e he

/-- A block that is evicted from `t1`. -/
theorem arcBlocks_evictT1 (hinv : ARCBlocks m) (hb : m.t1.get? h = some block) :
    ARCBlocks (m.evictT1 h block) ∧ (m.evictT1 h block).b1.size = m.b1.size + 1 ∧
      (m.evictT1 h block).t1.size + 1 = m.t1.size := by
  have hin := contains_of_get? hb
  have hplaces := hinv.onePlace h
  unfold places at hplaces
  have hout : m.b1.contains h = false := contains_eq_false (by omega) hin
  refine ⟨⟨fun h' => ?_, ?_, hinv.target⟩, ?_, size_erase hin⟩
  · have hone := hinv.onePlace h'
    unfold evictT1 places at *
    dsimp only
    rw [contains_erase, contains_insert]
    by_cases hh : h' = h
    · subst hh
      rw [hin, hout] at hone
      simp only [Bool.toNat_true, Bool.toNat_false] at hone
      simp only [decide_true, Bool.not_true, Bool.false_and, Bool.toNat_false, Bool.true_or,
        Bool.toNat_true]
      omega
    · simpa [hh] using hone
  · exact hinv.ledger.free ((ids_erase hb).append_right _)
  · show (m.b1.insert h ()).size = _
    rw [size_insert, hout]
    rfl

/-- A block that is evicted from `t2`. -/
theorem arcBlocks_evictT2 (hinv : ARCBlocks m) (hb : m.t2.get? h = some block) :
    ARCBlocks (m.evictT2 h block) ∧ (m.evictT2 h block).b2.size = m.b2.size + 1 := by
  have hin := contains_of_get? hb
  have hplaces := hinv.onePlace h
  unfold places at hplaces
  have hout : m.b2.contains h = false := contains_eq_false (by omega) hin
  refine ⟨⟨fun h' => ?_, ?_, hinv.target⟩, ?_⟩
  · have hone := hinv.onePlace h'
    unfold evictT2 places at *
    dsimp only
    rw [contains_erase, contains_insert]
    by_cases hh : h' = h
    · subst hh
      rw [hin, hout] at hone
      simp only [Bool.toNat_true, Bool.toNat_false] at hone
      simp only [decide_true, Bool.not_true, Bool.false_and, Bool.toNat_false, Bool.true_or,
        Bool.toNat_true]
      omega
    · simpa [hh] using hone
  · exact hinv.ledger.free (((ids_erase hb).append_left _).trans List.perm_middle)
  · show (m.b2.insert h ()).size = _
    rw [size_insert, hout]
    rfl

/-- What the loop that evicts does: it takes `k₁` blocks from `t1` and `k₂` from `t2`, as many as
asked when there are enough, else all that it can take. -/
structure EvictEffect (n : Nat) (m : ARCOffloadingManager) (enough : Bool)
    (m' : ARCOffloadingManager) (k₁ k₂ : Nat) : Prop where
  blocks : ARCBlocks m'
  capacity : m'.cacheCapacity = m.cacheCapacity
  b1 : m'.b1.size = m.b1.size + k₁
  b2 : m'.b2.size = m.b2.size + k₂
  fromT1 : k₁ ≤ evictableT1 m
  fromT2 : k₂ ≤ numUnused m.t2
  numFree : m'.backend.getNumFreeBlocks = m.backend.getNumFreeBlocks + (k₁ + k₂)
  full : enough = true → k₁ + k₂ = n
  short : enough = false → evictableT1 m + numUnused m.t2 < n
  t1 : ∀ h, m'.t1.contains h = true → m.t1.contains h = true
  t2 : ∀ h, m'.t2.contains h = true → m.t2.contains h = true

theorem numFree_free (hl : Ledger m.backend (arcIds m)) :
    (m.backend.free block).getNumFreeBlocks = m.backend.getNumFreeBlocks + 1 := by
  have hroom := hl.room
  unfold CPUBackend.getNumFreeBlocks CPUBackend.free
  dsimp only
  rw [List.length_append, List.length_singleton]
  omega

theorem evictableT1_pos (hu : m.unusedT1 = some (h, block)) :
    m.t1.get? h = some block ∧ evictableT1 m = evictableT1 (m.evictT1 h block) + 1 := by
  unfold unusedT1 at hu
  split at hu
  · rename_i hturn
    obtain ⟨hb, hunused⟩ := oldestUnused_eq_some hu
    refine ⟨hb, ?_⟩
    have hsize := size_erase (contains_of_get? hb)
    show _ = (if pyInt m.targetT1Size ≤ ((m.t1.erase h).size : Int) then
      min (numUnused (m.t1.erase h)) (((m.t1.erase h).size : Int) + 1 - pyInt m.targetT1Size).toNat
      else 0) + 1
    unfold evictableT1
    rw [if_pos hturn]
    split <;> omega
  · cases hu

theorem evictableT1_zero (hu : m.unusedT1 = none) : evictableT1 m = 0 := by
  unfold unusedT1 at hu
  unfold evictableT1
  split at hu
  · rename_i hturn
    rw [if_pos hturn, oldestUnused_eq_none hu, Nat.zero_min]
  · rename_i hturn
    rw [if_neg hturn]

theorem evictLoop_effect (n : Nat) (hinv : ARCBlocks m) :
    ∃ k1 k2, EvictEffect n m (evictLoop n m).1 (evictLoop n m).2.2 k1 k2 := by
  induction n generalizing m with
  | zero =>
    refine ⟨0, 0, hinv, rfl, rfl, rfl, Nat.zero_le _, Nat.zero_le _, rfl, fun _ => rfl,
      nofun, fun _ => id, fun _ => id⟩
  | succ n ih =>
    unfold evictLoop evictBlock
    cases hu : m.unusedT1 with
    | some e =>
      obtain ⟨h, block⟩ := e
      obtain ⟨hb, hcount⟩ := evictableT1_pos hu
      obtain ⟨hinv1, hb1, -⟩ := arcBlocks_evictT1 hinv hb
      obtain ⟨k1, k2, he⟩ := ih hinv1
      refine ⟨k1 + 1, k2, he.blocks, he.capacity, ?_, he.b2, ?_, he.fromT2, ?_, ?_, ?_, ?_,
        he.t2⟩
      · rw [he.b1, hb1]
        omega
      · have := he.fromT1
        omega
      · rw [he.numFree]
        show (m.backend.free block).getNumFreeBlocks + _ = _
        rw [numFree_free hinv.ledger]
        omega
      · intro hen
        have := he.full hen
        omega
      · intro hshort
        have : _ + numUnused m.t2 < n := he.short hshort
        omega
      · intro h' hh'
        have := he.t1 h' hh'
        change (m.t1.erase h).contains h' = true at this
        rw [contains_erase, Bool.and_eq_true] at this
        exact this.2
    | none =>
      have hzero := evictableT1_zero hu
      cases ho : oldestUnused m.t2 with
      | none =>
        have hnone := oldestUnused_eq_none ho
        refine ⟨0, 0, hinv, rfl, rfl, rfl, Nat.zero_le _, Nat.zero_le _, rfl,
          nofun, fun _ => ?_, fun _ => id, fun _ => id⟩
        omega
      | some e =>
        obtain ⟨h, block⟩ := e
        obtain ⟨hb, hcount⟩ := oldestUnused_eq_some ho
        obtain ⟨hinv1, hb2⟩ := arcBlocks_evictT2 hinv hb
        obtain ⟨k1, k2, he⟩ := ih hinv1
        have hfrom2 : k2 ≤ numUnused (m.t2.erase h) := he.fromT2
        refine ⟨k1, k2 + 1, he.blocks, he.capacity, he.b1, ?_, he.fromT1, ?_, ?_, ?_, ?_,
          he.t1, ?_⟩
        · rw [he.b2, hb2]
          omega
        · omega
        · rw [he.numFree]
          show (m.backend.free block).getNumFreeBlocks + _ = _
          rw [numFree_free hinv.ledger]
          omega
        · intro hen
          have := he.full hen
          omega
        · intro hshort
          have : evictableT1 m + numUnused (m.t2.erase h) < n := he.short hshort
          omega
        · intro h' hh'
          have := he.t2 h' hh'
          change (m.t2.erase h).contains h' = true at this
          rw [contains_erase, Bool.and_eq_true] at this
          exact this.2

/-! ### `prepare_store` -/

theorem arcInv_trimGhosts (hinv : ARCBlocks m) : ARCInv m.trimGhosts := by
  refine ⟨⟨fun h => le_trans ?_ (hinv.onePlace h), hinv.ledger, hinv.target⟩, ?_, ?_⟩
  · have hle : ∀ (d : PyDict BlockHash Unit) n, ((d.popFirst n).contains h).toNat ≤
        (d.contains h).toNat := by
      intro d n
      cases hc : (d.popFirst n).contains h with
      | false => exact Nat.zero_le _
      | true => rw [contains_of_popFirst hc]
    have h1 := hle m.b1 (m.b1.size - m.cacheCapacity)
    have h2 := hle m.b2 (m.b2.size - m.cacheCapacity)
    unfold places trimGhosts
    dsimp only
    omega
  · show (m.b1.entries.drop (m.b1.size - m.cacheCapacity)).length ≤ m.cacheCapacity
    rw [List.length_drop]
    unfold size
    omega
  · show (m.b2.entries.drop (m.b2.size - m.cacheCapacity)).length ≤ m.cacheCapacity
    rw [List.length_drop]
    unfold size
    omega

/-- The new blocks enter `t1`; until they do, the ledger has their ids. -/
theorem arcInv_insertBlocks {items : List (BlockHash × CPUBlockStatus)} (hone : ∀ h, places m h ≤ 1)
    (hledger : Ledger m.backend (arcIds m ++ items.map fun e => e.2.blockId))
    (htarget : 0 ≤ m.targetT1Size ∧ m.targetT1Size ≤ m.cacheCapacity ∧
      m.cacheCapacity < 2 ^ 53)
    (hghosts : m.b1.size ≤ m.cacheCapacity ∧ m.b2.size ≤ m.cacheCapacity)
    (hnodup : (items.map Prod.fst).Nodup)
    (hnew : ∀ e ∈ items, m.t1.contains e.1 = false ∧ m.t2.contains e.1 = false) :
    ARCInv (items.foldl insertBlock m) := by
  induction items generalizing m with
  | nil =>
    rw [List.map_nil, List.append_nil] at hledger
    exact ⟨⟨hone, hledger, htarget⟩, hghosts⟩
  | cons e items ih =>
    rw [List.map_cons, List.nodup_cons] at hnodup
    obtain ⟨hnew1, hnew2⟩ := hnew e List.mem_cons_self
    rw [List.foldl_cons]
    refine ih (m := m.insertBlock e) (fun h => ?_) ?_ htarget ⟨?_, ?_⟩ hnodup.2
      fun e' he' => ?_
    · have hplaces := hone h
      unfold insertBlock places at *
      dsimp only
      rw [contains_insert, contains_erase, contains_erase]
      by_cases hh : h = e.1
      · subst hh
        simp [hnew2]
      · simpa [hh] using hplaces
    · have hnot : e.1 ∉ m.t1.keys := by
        rw [← contains_eq_true_iff, hnew1]
        exact Bool.false_ne_true
      refine hledger.perm ?_
      show (ids (m.t1.insert e.1 e.2) ++ ids m.t2 ++ _).Perm _
      rw [ids_insert_of_not_mem hnot, List.map_cons, arcIds, List.append_assoc, List.append_assoc, List.append_assoc,
        List.singleton_append]
      exact List.Perm.append_left _ List.perm_middle.symm
    · exact (size_erase_le _ _).trans hghosts.1
    · exact (size_erase_le _ _).trans hghosts.2
    · obtain ⟨h1, h2⟩ := hnew e' (List.mem_cons_of_mem _ he')
      refine ⟨?_, h2⟩
      show (m.t1.insert e.1 e.2).contains e'.1 = false
      rw [contains_insert, h1, Bool.or_false, decide_eq_false_iff_not]
      rintro heq
      exact hnodup.1 (heq ▸ List.mem_map_of_mem he')

theorem arcInv_storeBlocks {toStore evicted : List BlockHash} (hinv : ARCBlocks m)
    (hfree : toStore.length ≤ m.backend.getNumFreeBlocks) (hnodup : toStore.Nodup)
    (hnew : ∀ h ∈ toStore, m.t1.contains h = false ∧ m.t2.contains h = false) :
    ∃ output m', m.storeBlocks toStore evicted = .ok (output, m') ∧ ARCInv m' := by
  obtain ⟨newIds, backend, halloc, hidslen, hledger, -, -⟩ := hinv.ledger.allocateBlocks_ok hfree
  have hblen : (newIds.map fun blockId => ({ blockId } : CPUBlockStatus)).length =
      toStore.length := by
    rw [List.length_map, hidslen]
  obtain ⟨hfst, hzip⟩ := zip_newBlocks hidslen
  have hsnd : (toStore.zip (newIds.map fun blockId => ({ blockId } : CPUBlockStatus))).map
      (fun e => e.2.blockId) = newIds := by
    have := congrArg (List.map CPUBlockStatus.blockId) hzip
    simpa [Function.comp_def] using this
  obtain ⟨⟨hone, -, htarget⟩, hghosts⟩ := arcInv_trimGhosts hinv
  unfold storeBlocks
  dsimp only
  rw [show m.trimGhosts.backend = m.backend from rfl, halloc, except_ok_bind]
  dsimp only
  rw [(pyAssert_eq_ok_iff (u := ())).mpr (decide_eq_true hblen)]
  have hinv' := arcInv_insertBlocks (m := { m.trimGhosts with
      backend
      events := appendEvent m.trimGhosts.events
        { blockHashes := evicted, blockSize := m.backend.blockSize, removed := true } })
    hone (by rw [hsnd]; exact hledger) htarget hghosts (by rw [hfst]; exact hnodup)
    (fun e he => hnew e.1 (hfst ▸ List.mem_map_of_mem he))
  exact ⟨_, _, rfl, hinv'⟩

theorem mem_hashesToStore (hh : h ∈ m.hashesToStore hs) :
    m.t1.contains h = false ∧ m.t2.contains h = false := by
  have := (List.mem_filter.mp hh).2
  simpa using this

/-- The blocks that `prepare_store` has to evict. -/
def numToEvict (m : ARCOffloadingManager) (hs : List BlockHash) : Nat :=
  (m.hashesToStore hs).length - m.backend.getNumFreeBlocks

/-- `prepare_store` finds the blocks it has to evict, or the ghost lists have room for those
that it evicts before it gives up. -/
def EvictionFits (m : ARCOffloadingManager) (hs : List BlockHash) : Prop :=
  numToEvict m hs ≤ evictableT1 m + numUnused m.t2 ∨
    (m.b1.size + evictableT1 m ≤ m.cacheCapacity ∧
      m.b2.size + numUnused m.t2 ≤ m.cacheCapacity)

theorem arcInv_prepareStore (hinv : ARCInv m) (hnodup : (m.hashesToStore hs).Nodup)
    (hfits : EvictionFits m hs) :
    ∃ output m', m.prepareStore hs = .ok (output, m') ∧ ARCInv m' := by
  unfold prepareStore
  dsimp only
  split
  · exact ⟨_, m, rfl, hinv⟩
  · obtain ⟨k1, k2, he⟩ := evictLoop_effect (numToEvict m hs) hinv.blocks
    rcases hloop : evictLoop (numToEvict m hs) m with ⟨enough, evicted, m1⟩
    rw [hloop] at he
    unfold numToEvict at hloop
    rw [hloop]
    cases enough with
    | false =>
      refine ⟨none, m1, rfl, he.blocks, ?_⟩
      have hshort := he.short rfl
      have hroom := hfits.resolve_left (by omega)
      have h1 := he.fromT1
      have h2 := he.fromT2
      have hb1 : m1.b1.size = m.b1.size + k1 := he.b1
      have hb2 : m1.b2.size = m.b2.size + k2 := he.b2
      have hcap : m1.cacheCapacity = m.cacheCapacity := he.capacity
      omega
    | true =>
      have hfull := he.full rfl
      have hnum : m1.backend.getNumFreeBlocks = _ := he.numFree
      have hfree : (m.hashesToStore hs).length ≤ m1.backend.getNumFreeBlocks := by
        unfold numToEvict at hfull
        omega
      have hnew : ∀ h ∈ m.hashesToStore hs, m1.t1.contains h = false ∧
          m1.t2.contains h = false := by
        intro h hh
        obtain ⟨h1, h2⟩ := mem_hashesToStore hh
        refine ⟨?_, ?_⟩
        · by_contra hc
          exact Bool.false_ne_true (h1.symm.trans (he.t1 h ((Bool.not_eq_false _).mp hc)))
        · by_contra hc
          exact Bool.false_ne_true (h2.symm.trans (he.t2 h ((Bool.not_eq_false _).mp hc)))
      obtain ⟨output, m', hstore, hinv'⟩ : ∃ output m',
          m1.storeBlocks (m.hashesToStore hs) evicted = .ok (output, m') ∧ ARCInv m' :=
        arcInv_storeBlocks he.blocks hfree hnodup hnew
      refine ⟨some output, m', ?_, hinv'⟩
      dsimp only
      rw [hstore]
      rfl

/-! ### Runs -/

/-- The calls of the manager. -/
inductive ARCOp where
  | lookup (blockHashes : List BlockHash)
  | touch (blockHashes : List BlockHash)
  | prepareLoad (blockHashes : List BlockHash)
  | completeLoad (blockHashes : List BlockHash)
  | prepareStore (blockHashes : List BlockHash)
  | completeStore (blockHashes : List BlockHash) (success : Bool)

/-- One call. -/
def arcStep (m : ARCOffloadingManager) : ARCOp → Except PyError ARCOffloadingManager
  | .lookup _ => .ok m
  | .touch blockHashes => m.touch blockHashes
  | .prepareLoad blockHashes => do
      let (_, m) ← m.prepareLoad blockHashes
      return m
  | .completeLoad blockHashes => m.completeLoad blockHashes
  | .prepareStore blockHashes => do
      let (_, m) ← m.prepareStore blockHashes
      return m
  | .completeStore blockHashes success => .ok (m.completeStore blockHashes success)

/-- No block of `t1` that is being stored is touched; the new hashes of a store do not repeat and
its eviction fits; a store that fails has no block that is ready. -/
def ARCClean (m : ARCOffloadingManager) : ARCOp → Prop
  | .touch blockHashes => ∀ h ∈ blockHashes, ∀ block ∈ m.t1.get? h, block.isReady = true
  | .prepareStore blockHashes =>
    (m.hashesToStore blockHashes).Nodup ∧ EvictionFits m blockHashes
  | .completeStore blockHashes success => success = false →
      ∀ h ∈ blockHashes, ∀ block ∈ m.getBlock h, block.isReady = false
  | _ => True

theorem prepareLoadLoop_ne_keyError {msg : String} :
    m.prepareLoadLoop hs ≠ .error (.keyError msg) := by
  induction hs generalizing m with
  | nil => exact (nomatch ·)
  | cons x rest ih =>
    unfold prepareLoadLoop
    split
    · exact (nomatch ·)
    · rename_i block hb
      cases hready : block.isReady with
      | false => exact (nomatch ·)
      | true =>
        intro herr
        have hrec := ih (m := m.setBlock x { block with refCnt := cInt32 (block.refCnt + 1) })
        rw [show pyAssert true "Block is not ready for reading" = .ok () from rfl,
          except_ok_bind] at herr
        dsimp only at herr
        cases hloop : (m.setBlock x
            { block with refCnt := cInt32 (block.refCnt + 1) }).prepareLoadLoop rest with
        | error e =>
          rw [hloop] at herr hrec
          exact hrec herr
        | ok r =>
          rw [hloop] at herr
          cases herr

theorem completeLoad_ne_keyError {msg : String} : m.completeLoad hs ≠ .error (.keyError msg) := by
  induction hs generalizing m with
  | nil => exact (nomatch ·)
  | cons x rest ih =>
    unfold completeLoad
    split
    · exact (nomatch ·)
    · rename_i block hb
      cases hpos : decide (0 < block.refCnt) with
      | false => exact (nomatch ·)
      | true => exact ih

/-- A clean call keeps the invariant and raises no `KeyError`. -/
theorem arcInv_step {op : ARCOp} (hinv : ARCInv m) (hclean : ARCClean m op) :
    (∀ m', arcStep m op = .ok m' → ARCInv m') ∧
      ∀ msg, arcStep m op ≠ .error (.keyError msg) := by
  cases op with
  | lookup hs =>
    refine ⟨fun m' hstep => ?_, fun msg => (nomatch ·)⟩
    cases hstep
    exact hinv
  | touch hs =>
    obtain ⟨m1, htouch, hinv1⟩ := arcInv_touch hinv hclean
    have hok : arcStep m (.touch hs) = .ok m1 := htouch
    rw [hok]
    refine ⟨fun m' hstep => ?_, fun msg => (nomatch ·)⟩
    cases hstep
    exact hinv1
  | prepareLoad hs =>
    refine ⟨fun m' hstep => ?_, fun msg herr => ?_⟩
    · obtain ⟨⟨spec, m1⟩, hload, hstep⟩ := bind_ok hstep
      cases hstep
      obtain ⟨⟨blocks, m2⟩, hloop, hload⟩ := bind_ok hload
      cases hload
      exact arcInv_prepareLoadLoop hinv hloop
    · dsimp only [arcStep, prepareLoad] at herr
      cases hloop : m.prepareLoadLoop hs with
      | error e =>
        rw [hloop] at herr
        cases herr
        exact prepareLoadLoop_ne_keyError hloop
      | ok r =>
        rw [hloop] at herr
        cases herr
  | completeLoad hs =>
    exact ⟨fun m' hstep => arcInv_completeLoad hinv hstep, fun msg => completeLoad_ne_keyError⟩
  | prepareStore hs =>
    obtain ⟨output, m1, hstore, hinv1⟩ := arcInv_prepareStore hinv hclean.1 hclean.2
    have hok : arcStep m (.prepareStore hs) = .ok m1 := by
      dsimp only [arcStep]
      rw [hstore]
      rfl
    rw [hok]
    refine ⟨fun m' hstep => ?_, fun msg => (nomatch ·)⟩
    cases hstep
    exact hinv1
  | completeStore hs success =>
    refine ⟨fun m' hstep => ?_, fun msg => (nomatch ·)⟩
    cases hstep
    unfold completeStore
    cases success with
    | true =>
      obtain ⟨⟨hone, hledger, htarget⟩, hghosts⟩ := arcInv_storedLoop hs hinv
      exact ⟨⟨hone, hledger, htarget⟩, hghosts⟩
    | false => exact arcInv_failedLoop hinv (hclean rfl)

theorem arcInv_init {blockSize numBlocks : Nat} (enableEvents : Bool) (hcap : numBlocks < 2 ^ 53) :
    ARCInv (init { blockSize, numBlocks } enableEvents) := by
  have hfree : CPUBackend.getNumFreeBlocks { blockSize, numBlocks } = numBlocks := by
    simp [CPUBackend.getNumFreeBlocks]
  refine ⟨⟨fun h => Nat.zero_le 1, ⟨.refl _, Nat.zero_le _⟩, le_rfl, ?_, ?_⟩, Nat.zero_le _,
    Nat.zero_le _⟩
  · exact Nat.cast_nonneg _
  · show CPUBackend.getNumFreeBlocks { blockSize, numBlocks } < 2 ^ 53
    rw [hfree]
    exact hcap

/-- An id belongs to one hash. -/
theorem hash_eq_of_blockId_eq (hinv : ARCBlocks m) {h h' : BlockHash} {b b' : CPUBlockStatus}
    (hb : m.getBlock h = some b) (hb' : m.getBlock h' = some b') (hid : b.blockId = b'.blockId) :
    h = h' := by
  obtain ⟨h1, h2, hdisjoint⟩ := List.nodup_append.mp hinv.ledger.nodup
  rcases getBlock_cases hb with hb | ⟨-, hb⟩ <;> rcases getBlock_cases hb' with hb' | ⟨-, hb'⟩
  · exact hash_eq_of_ids_nodup h1 hb hb' hid
  · exact absurd hid (hdisjoint _ ((mem_ids_iff _).mpr ⟨h, b, hb, rfl⟩) _
      ((mem_ids_iff _).mpr ⟨h', b', hb', rfl⟩))
  · exact absurd hid.symm (hdisjoint _ ((mem_ids_iff _).mpr ⟨h', b', hb', rfl⟩) _
      ((mem_ids_iff _).mpr ⟨h, b, hb, rfl⟩))
  · exact hash_eq_of_ids_nodup h2 hb hb' hid

/-- In every state of a run of clean calls with less than `2 ^ 53` blocks: the four dictionaries
are disjoint, the blocks in use are those of `t1` and `t2`, an id belongs to one hash, the target
and the ghost lists are within the capacity, and a clean call raises no `KeyError`. -/
theorem arc_manager_laws {blockSize numBlocks : Nat} {enableEvents : Bool}
    (hcap : numBlocks < 2 ^ 53) {m : ARCOffloadingManager}
    (hrun : Run arcStep ARCClean (init { blockSize, numBlocks } enableEvents) m) :
    [m.t1.keys, m.t2.keys, m.b1.keys, m.b2.keys].Pairwise List.Disjoint ∧
    ((List.range m.backend.numAllocatedBlocks).filter
      fun id => id ∉ m.backend.allocatedBlocksFreeList).length = m.t1.size + m.t2.size ∧
    (∀ h h' b b', m.getBlock h = some b → m.getBlock h' = some b' →
      b.blockId = b'.blockId → h = h') ∧
    (0 ≤ m.targetT1Size ∧ m.targetT1Size ≤ m.cacheCapacity) ∧
    (m.b1.size ≤ m.cacheCapacity ∧ m.b2.size ≤ m.cacheCapacity) ∧
    ∀ op, ARCClean m op → ∀ msg, arcStep m op ≠ .error (.keyError msg) := by
  have hinv := hrun.invariant ARCInv (arcInv_init enableEvents hcap)
    fun m op m' hinv hclean hstep => (arcInv_step hinv hclean).1 m' hstep
  refine ⟨pairwise_disjoint_of_places hinv.blocks.onePlace, ?_, ?_, ?_, hinv.ghosts, ?_⟩
  · rw [hinv.blocks.ledger.numInUse]
    simp [arcIds, ids, values, size]
  · intro h h' b b'
    exact hash_eq_of_blockId_eq hinv.blocks
  · exact ⟨hinv.blocks.target.1, hinv.blocks.target.2.1⟩
  · exact fun op hclean => (arcInv_step hinv hclean).2

instance (m : ARCOffloadingManager) (op : ARCOp) : Decidable (ARCClean m op) :=
  match op with
  | .touch blockHashes => inferInstanceAs (Decidable (∀ h ∈ blockHashes,
      ∀ block ∈ m.t1.get? h, block.isReady = true))
  | .prepareStore blockHashes => inferInstanceAs (Decidable ((m.hashesToStore blockHashes).Nodup ∧
        (numToEvict m blockHashes ≤ evictableT1 m + numUnused m.t2 ∨
          (m.b1.size + evictableT1 m ≤ m.cacheCapacity ∧
            m.b2.size + numUnused m.t2 ≤ m.cacheCapacity))))
  | .completeStore blockHashes success => inferInstanceAs (Decidable (success = false →
      ∀ h ∈ blockHashes, ∀ block ∈ m.getBlock h, block.isReady = false))
  | .lookup _ | .prepareLoad _ | .completeLoad _ => inferInstanceAs (Decidable True)

/-- A run with a promotion, an eviction to each ghost list and a failed store. -/
theorem arc_manager_laws_eviction : ∃ m₀ m : ARCOffloadingManager,
    Except.ok (init { blockSize := 256, numBlocks := 2 } true) =
        (.ok m₀ : Except PyError ARCOffloadingManager) ∧
      Run arcStep ARCClean m₀ m ∧ (m.b1.keys = [[1]] ∧ m.b2.keys = [[2]] ∧ m.t1.keys = [[3]]) ∧
      [m.t1.keys, m.t2.keys, m.b1.keys, m.b2.keys].Pairwise List.Disjoint := by
  obtain ⟨m₀, m, hstart, hrun, hstate⟩ := exists_run_of_check arcStep ARCClean
    (fun m => m.b1.keys = [[1]] ∧ m.b2.keys = [[2]] ∧ m.t1.keys = [[3]])
    (.ok (init { blockSize := 256, numBlocks := 2 } true))
    [.prepareStore [[1], [2]], .completeStore [[1], [2]] true, .touch [[2]],
      .prepareStore [[3]], .completeStore [[3]] true, .prepareLoad [[3]],
      .prepareStore [[4]], .completeStore [[4]] false] (by decide +kernel)
  cases hstart
  exact ⟨_, m, rfl, hrun, hstate, (arc_manager_laws (by decide) hrun).1⟩

/-- The call raises a `KeyError`. -/
def raisesKeyError (m : ARCOffloadingManager) (op : ARCOp) : Bool :=
  match arcStep m op with
  | .error (.keyError _) => true
  | _ => false

/-- The condition is needed. A block of `t1` that is being stored is popped and then looked for
when it is touched, as the connector does right after `prepare_store`. -/
theorem touch_of_stored_block_raises : ∃ m₀ m : ARCOffloadingManager,
    Except.ok (init { blockSize := 256, numBlocks := 2 } true) =
        (.ok m₀ : Except PyError ARCOffloadingManager) ∧
      Run arcStep (fun _ _ => True) m₀ m ∧ raisesKeyError m (.touch [[1]]) = true :=
  exists_run_of_check arcStep (fun _ _ => True) (fun m => raisesKeyError m (.touch [[1]]) = true)
    (.ok (init { blockSize := 256, numBlocks := 2 } true))
    [.prepareStore [[1]]] (by decide +kernel)

end Vllm.Proofs.KVOffload
