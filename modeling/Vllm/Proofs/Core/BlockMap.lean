import Vllm.V1.Core.BlockPool

/-!
# `Vllm.Proofs.Core.BlockMap`: the hash map and the hash of a block say the same

`MapAgree n hash m` relates the map `cached_block_hash_to_block` with the attribute
`block_hash` of the `n` blocks of a pool, whichever of its two representations a value of
the map has. Nothing here looks at the free list or at a reference count.

* `MapAgree.insert`: giving a hash to a block that has none, and inserting it.
* `MapAgree.pop`: popping a block under its own hash finds it, and clears it.
* `MapAgree.getOneBlock`: a lookup returns a block with the key, unless no block has it.
-/

set_option autoImplicit false

namespace Vllm.Proofs.Core

open Vllm.Lib Vllm.V1 Vllm.V1.Core PyDict BlockRef

/-- `r` is one of the first `n` blocks. -/
def InPool (n : Nat) : BlockRef → Bool
  | .block i => decide (i < n)
  | _ => false

theorem inPool_iff {n : Nat} {r : BlockRef} : InPool n r = true ↔ ∃ i, i < n ∧ r = .block i := by
  cases r <;> simp [InPool]

/-- The map holds `r` under `k`, and in a dictionary under the key `r.block_id`. -/
def Holds (m : BlockHashToBlockMap) (k : BlockHashWithGroupId) (r : BlockRef) : Prop :=
  match m.cache.get? k with
  | none => False
  | some (.single b) => b = r
  | some (.dict d) => d.get? r.blockId = some r

/-- A dictionary of the map is not empty and has each block under its own id. -/
def DictOk (d : PyDict Int BlockRef) : Prop :=
  d.entries ≠ [] ∧ ∀ id b, d.get? id = some b → b.blockId = id

/-- The map and the hashes of the `n` blocks of a pool agree. -/
structure MapAgree (n : Nat) (hash : BlockRef → Option BlockHashWithGroupId)
    (m : BlockHashToBlockMap) : Prop where
  holds_iff : ∀ r k, hash r = some k ↔ Holds m k r
  real : ∀ r k, hash r = some k → ∃ i, i < n ∧ r = .block i
  dict_ok : ∀ k d, m.cache.get? k = some (.dict d) → DictOk d

section Holds
variable {m : BlockHashToBlockMap} {k : BlockHashWithGroupId} {r : BlockRef}

theorem holds_of_get?_none (h : m.cache.get? k = none) : ¬ Holds m k r := by
  simp [Holds, h]

theorem holds_single_iff {b : BlockRef} (h : m.cache.get? k = some (.single b)) :
    Holds m k r ↔ b = r := by
  simp [Holds, h]

theorem holds_dict_iff {d : PyDict Int BlockRef} (h : m.cache.get? k = some (.dict d)) :
    Holds m k r ↔ d.get? r.blockId = some r := by
  simp [Holds, h]

/-- What is held under a key depends on the value of that key only. -/
theorem holds_congr {m' : BlockHashToBlockMap} (h : m'.cache.get? k = m.cache.get? k) :
    Holds m' k r ↔ Holds m k r := by
  unfold Holds
  rw [h]

end Holds

/-- Blocks of a pool are told apart by their id. -/
theorem block_eq_of_blockId {i : Nat} {r : BlockRef}
    (h : r.blockId = (block i).blockId) : r = .block i := by
  cases r with
  | block j =>
    have hij : (j : Int) = i := h
    rw [Int.natCast_inj.mp hij]
  | fakeHead =>
    have : (-1 : Int) = i := h
    omega
  | fakeTail =>
    have : (-1 : Int) = i := h
    omega

section Dict
variable {d : PyDict Int BlockRef}

/-- A dictionary with each block under its own id lists no block twice. -/
theorem DictOk.values_nodup (h : DictOk d) : d.values.Nodup := by
  have hmap : d.values.map blockId = d.keys := by
    unfold values PyDict.keys
    rw [List.map_map]
    refine List.map_congr_left ?_
    rintro ⟨id, b⟩ hmem
    exact h.2 id b ((d.mem_entries_iff id b).mp hmem)
  have hnd : (d.values.map blockId).Nodup := by
    rw [hmap]
    exact d.nodup
  exact hnd.of_map

theorem dictOk_insert (h : ∀ id b, d.get? id = some b → b.blockId = id) (r : BlockRef) :
    DictOk (d.insert r.blockId r) := by
  constructor
  · intro hnil
    have hmem := (mem_entries_iff _ r.blockId r).mpr
      (get?_insert_self d r.blockId r)
    rw [hnil] at hmem
    simp at hmem
  · intro id b hget
    rw [get?_insert] at hget
    split at hget
    · rename_i hid
      rw [← Option.some.inj hget, hid]
    · exact h id b hget

theorem DictOk.first_mem (h : DictOk d) :
    ∃ b rest, d.values = b :: rest ∧ d.get? b.blockId = some b := by
  cases hv : d.values with
  | nil =>
    exact absurd (by simpa [values] using hv) h.1
  | cons b rest =>
    have hmem : b ∈ d.values := by simp [hv]
    obtain ⟨id, hid⟩ := (d.mem_values_iff b).mp hmem
    have hbid := h.2 id b hid
    exact ⟨b, rest, rfl, by rw [hbid]; exact hid⟩

end Dict

namespace MapAgree

variable {n : Nat} {hash : BlockRef → Option BlockHashWithGroupId} {m : BlockHashToBlockMap}

/-- The empty map agrees with blocks that have no hash. -/
theorem empty (h : ∀ r, hash r = none) : MapAgree n hash {} where
  holds_iff r k := by
    rw [h r]
    simp [Holds]
  real r k hk := by
    rw [h r] at hk
    cases hk
  dict_ok k d hk := by
    simp at hk

/-- Every key of the map holds some block. -/
theorem exists_holds (h : MapAgree n hash m) {k : BlockHashWithGroupId}
    (hk : k ∈ m.cache.keys) : ∃ r, hash r = some k := by
  rw [mem_keys_iff] at hk
  obtain ⟨v, hv⟩ := Option.isSome_iff_exists.mp hk
  cases v with
  | single b => exact ⟨b, (h.holds_iff b k).mpr ((holds_single_iff hv).mpr rfl)⟩
  | dict d =>
    obtain ⟨b, rest, -, hb⟩ := (h.dict_ok k d hv).first_mem
    exact ⟨b, (h.holds_iff b k).mpr ((holds_dict_iff hv).mpr hb)⟩

/-- `insert` of a block that has no hash, under its new hash. -/
theorem insert (h : MapAgree n hash m) {r : BlockRef} {i : Nat} (hr : r = .block i)
    (hi : i < n) (hnone : hash r = none) (k : BlockHashWithGroupId) :
    MapAgree n (Function.update hash r (some k)) (m.insert k r) := by
  subst hr
  -- What the insertion writes under `k`, for each shape of the old value.
  have hget : ∃ v, (m.insert k (.block i)).cache = m.cache.insert k v ∧
      (∀ d, v = .dict d → DictOk d) ∧
      ∀ r', (∀ m' : BlockHashToBlockMap, m'.cache.get? k = some v →
        (Holds m' k r' ↔ (r' = .block i ∨ Holds m k r'))) := by
    unfold BlockHashToBlockMap.insert
    split
    · rename_i hk
      refine ⟨.single (.block i), rfl, by simp, ?_⟩
      intro r' m' hm'
      rw [holds_single_iff hm']
      simp [holds_of_get?_none hk, eq_comm]
    · rename_i b hk
      have hb : hash b = some k := (h.holds_iff b k).mpr ((holds_single_iff hk).mpr rfl)
      refine ⟨_, rfl, ?_, ?_⟩
      · intro d hd
        cases hd
        exact dictOk_insert (dictOk_insert (by simp) b).2 (.block i)
      · intro r' m' hm'
        rw [holds_dict_iff hm', holds_single_iff hk, get?_insert, get?_insert]
        obtain ⟨j, -, rfl⟩ := h.real b k hb
        by_cases hr' : r' = .block i
        · simp [hr']
        · have hid : r'.blockId ≠ (block i).blockId := fun hid => hr' (block_eq_of_blockId hid)
          rw [if_neg hid]
          by_cases hj : r' = .block j
          · simp [hj]
          · have hid' : r'.blockId ≠ (block j).blockId := fun hid' => hj (block_eq_of_blockId hid')
            simp [hid', hr', Ne.symm hj]
    · rename_i d hk
      refine ⟨_, rfl, ?_, ?_⟩
      · intro d' hd'
        cases hd'
        exact dictOk_insert (h.dict_ok k d hk).2 (.block i)
      · intro r' m' hm'
        rw [holds_dict_iff hm', holds_dict_iff hk, get?_insert]
        by_cases hr' : r' = .block i
        · simp [hr']
        · have hid : r'.blockId ≠ (block i).blockId := fun hid => hr' (block_eq_of_blockId hid)
          simp [hid, hr']
  obtain ⟨v, hcache, hdict, hholds⟩ := hget
  refine ⟨?_, ?_, ?_⟩
  · intro r' k'
    by_cases hk' : k' = k
    · subst hk'
      rw [hholds r' _ (by rw [hcache]; simp), ← h.holds_iff]
      by_cases hr' : r' = .block i
      · simp [hr']
      · simp [hr']
    · rw [holds_congr (m := m) (by rw [hcache, get?_insert_of_ne _ _ hk']),
        ← h.holds_iff]
      by_cases hr' : r' = .block i
      · subst hr'
        simp [hnone, Ne.symm hk']
      · simp [hr']
  · intro r' k' hk'
    by_cases hr' : r' = .block i
    · exact ⟨i, hi, hr'⟩
    · rw [Function.update_of_ne hr'] at hk'
      exact h.real r' k' hk'
  · intro k' d hk'
    rw [hcache, get?_insert] at hk'
    split at hk'
    · exact hdict d (Option.some.inj hk')
    · exact h.dict_ok k' d hk'

/-- What `pop` leaves under the key: everything but the popped block. -/
theorem pop_cache (h : MapAgree n hash m) {r : BlockRef} {k : BlockHashWithGroupId}
    (hr : hash r = some k) :
    ∃ m', m.pop k r.blockId = (some r, m') ∧
      (∀ k', k' ≠ k → m'.cache.get? k' = m.cache.get? k') ∧
      (∀ r', Holds m' k r' ↔ r' ≠ r ∧ Holds m k r') ∧
      ∀ d, m'.cache.get? k = some (.dict d) → DictOk d := by
  have hholds : Holds m k r := (h.holds_iff r k).mp hr
  obtain ⟨i, -, rfl⟩ := h.real r k hr
  unfold BlockHashToBlockMap.pop
  split
  · rename_i hk
    exact absurd hholds (holds_of_get?_none hk)
  · rename_i b hk
    obtain rfl := (holds_single_iff hk).mp hholds
    refine ⟨{ cache := m.cache.erase k }, by simp, ?_, ?_, ?_⟩
    · intro k' hk'
      exact get?_erase_of_ne _ hk'
    · intro r'
      rw [holds_single_iff hk]
      have hnone : ¬ Holds { cache := m.cache.erase k } k r' :=
        holds_of_get?_none (get?_erase_self _ k)
      simp only [hnone, false_iff, not_and, ne_eq]
      intro hne heq
      exact hne heq.symm
    · intro d hd
      simp at hd
  · rename_i d hk
    have hmem : d.get? (block i).blockId = some (.block i) := (holds_dict_iff hk).mp hholds
    have herase : ∀ r' : BlockRef, (d.erase (block i).blockId).get? r'.blockId = some r'
        ↔ r' ≠ .block i ∧ Holds m k r' := by
      intro r'
      rw [holds_dict_iff hk, get?_erase]
      by_cases hr' : r' = .block i
      · simp [hr']
      · have hid : r'.blockId ≠ (block i).blockId := fun hid => hr' (block_eq_of_blockId hid)
        simp [hid, hr']
    by_cases hsize : 0 < (d.erase (block i).blockId).size
    · let m' : BlockHashToBlockMap :=
        { cache := (m.cache.erase k).insert k (.dict (d.erase (block i).blockId)) }
      have hm' : m'.cache.get? k = some (.dict (d.erase (block i).blockId)) :=
        get?_insert_self _ _ _
      refine ⟨m', by simp [hsize, hmem, m'], ?_, ?_, ?_⟩
      · intro k' hk'
        simp [m', hk']
      · intro r'
        rw [holds_dict_iff hm', herase]
      · intro d' hd'
        rw [hm'] at hd'
        obtain rfl := KVCacheBlockOrDict.dict.inj (Option.some.inj hd')
        refine ⟨List.ne_nil_of_length_pos hsize, ?_⟩
        intro id b hb
        rw [get?_erase] at hb
        split at hb
        · cases hb
        · exact (h.dict_ok k d hk).2 id b hb
    · refine ⟨{ cache := m.cache.erase k }, by simp [hsize, hmem], ?_, ?_, ?_⟩
      · intro k' hk'
        exact get?_erase_of_ne _ hk'
      · intro r'
        have hnone : ¬ Holds { cache := m.cache.erase k } k r' :=
          holds_of_get?_none (get?_erase_self _ k)
        -- The dictionary held nothing but the popped block.
        have hnil : (d.erase (block i).blockId).entries = [] :=
          List.eq_nil_of_length_eq_zero (Nat.eq_zero_of_not_pos hsize)
        rw [← herase r']
        simp only [hnone, false_iff]
        intro hget
        have hin := (mem_entries_iff _ _ _).mpr hget
        rw [hnil] at hin
        simp at hin
      · intro d' hd'
        simp at hd'

/-- `pop` of a block under its own hash returns it, and the map then agrees with the block
having no hash. -/
theorem pop (h : MapAgree n hash m) {r : BlockRef} {k : BlockHashWithGroupId}
    (hr : hash r = some k) :
    ∃ m', m.pop k r.blockId = (some r, m') ∧
      MapAgree n (Function.update hash r none) m' := by
  obtain ⟨m', hpop, hother, hk, hdict⟩ := h.pop_cache hr
  refine ⟨m', hpop, ?_, ?_, ?_⟩
  · intro r' k'
    by_cases hk' : k' = k
    · subst hk'
      rw [hk r', ← h.holds_iff]
      by_cases hr' : r' = r
      · simp [hr']
      · simp [hr']
    · rw [holds_congr (m := m) (hother k' hk'), ← h.holds_iff]
      by_cases hr' : r' = r
      · subst hr'
        simp [hr, Ne.symm hk']
      · simp [hr']
  · intro r' k' hk'
    by_cases hr' : r' = r
    · simp [hr'] at hk'
    · rw [Function.update_of_ne hr'] at hk'
      exact h.real r' k' hk'
  · intro k' d hk'
    by_cases hkk : k' = k
    · subst hkk
      exact hdict d hk'
    · rw [hother k' hkk] at hk'
      exact h.dict_ok k' d hk'

/-- `get_one_block` never raises; it returns a block that has the key as its hash, and
`None` only when no block has. -/
theorem getOneBlock (h : MapAgree n hash m) (k : BlockHashWithGroupId) :
    (∃ b, m.getOneBlock k = .ok (some b) ∧ hash b = some k) ∨
      (m.getOneBlock k = .ok none ∧ ∀ b, hash b ≠ some k) := by
  unfold BlockHashToBlockMap.getOneBlock
  split
  · rename_i hk
    exact .inr ⟨rfl, fun b hb => holds_of_get?_none hk ((h.holds_iff b k).mp hb)⟩
  · rename_i b hk
    exact .inl ⟨b, rfl, (h.holds_iff b k).mpr ((holds_single_iff hk).mpr rfl)⟩
  · rename_i d hk
    obtain ⟨b, rest, hv, hb⟩ := (h.dict_ok k d hk).first_mem
    rw [hv]
    exact .inl ⟨b, rfl, (h.holds_iff b k).mpr ((holds_dict_iff hk).mpr hb)⟩

end MapAgree

end Vllm.Proofs.Core
