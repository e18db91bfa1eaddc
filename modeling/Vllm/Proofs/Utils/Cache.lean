import Mathlib.Algebra.BigOperators.Group.List.Basic
import Mathlib.Algebra.Order.BigOperators.Group.List
import Mathlib.Algebra.Order.Ring.NNRat
import Mathlib.Algebra.Order.Ring.Rat
import Mathlib.Tactic.Linarith
import Mathlib.Tactic.Ring
import Vllm.Lib.Run
import Vllm.Utils.Cache

/-!
# `Vllm.Proofs.Utils.Cache`: the order of use has the stored keys

* `Consistent`: the order has exactly the stored keys, and the sizes add up.
* `popitem_spec`: an eviction removes a stored key. So the loops end: `clear_spec`,
  `makeRoom_spec`, `put_spec`.
* `consistent_step`: every call keeps `Consistent`, if `touch` is called for stored keys only.
* `lru_cache_laws`: the laws in every state that is reached so.
-/

set_option autoImplicit false

namespace Vllm.Proofs.Utils

open Vllm.Lib Vllm.Utils Vllm.Utils.Cache Cache

variable {κ ν : Type} [DecidableEq κ] {c c' : Cache κ ν} {key : κ}

/-- The sizes of the stored items. -/
def used (c : Cache κ ν) : ℚ≥0 := (c.data.values.map Prod.snd).sum

/-- The sizes of the stored items that are pinned. -/
def pinnedUsed (c : Cache κ ν) : ℚ≥0 :=
  ((c.data.entries.filter fun e => e.1 ∈ c.pinned).map fun e => e.2.2).sum

/-- The order has exactly the stored keys, the sizes add up, and what is pinned is stored. -/
structure Consistent (c : Cache κ ν) : Prop where
  order : ∀ k, c.order.contains k = c.contains k
  currsize : c.currsize = used c
  pinned : ∀ k ∈ c.pinned, c.contains k = true

/-! ### One item -/

/-- Only the order of use changes. -/
structure Touched (key : κ) (c c' : Cache κ ν) : Prop where
  capacity : c'.capacity = c.capacity
  data : c'.data = c.data
  currsize : c'.currsize = c.currsize
  pinned : c'.pinned = c.pinned
  order : ∀ k, c'.order.contains k = (decide (k = key) || c.order.contains k)

theorem touched_touch (c : Cache κ ν) (key : κ) : Touched key c (c.touch key) := by
  unfold touch
  split
  · rename_i order hmove
    refine ⟨rfl, rfl, rfl, rfl, fun k => ?_⟩
    have hkey : c.order.contains key = true := by
      unfold PyDict.moveToEnd? at hmove
      obtain ⟨u, hget, -⟩ := Option.map_eq_some_iff.mp hmove
      unfold PyDict.contains
      rw [hget]
      rfl
    rw [PyDict.contains_moveToEnd hmove]
    by_cases hk : k = key
    · rw [hk, hkey, Bool.or_true]
    · simp [hk]
  · exact ⟨rfl, rfl, rfl, rfl, fun k => PyDict.contains_insert c.order key k ()⟩

/-- An item is gone. -/
structure Removed (key : κ) (size : ℚ≥0) (c c' : Cache κ ν) : Prop where
  capacity : c'.capacity = c.capacity
  data : c'.data = c.data.erase key
  currsize : c'.currsize = c.currsize - size
  pinned : c'.pinned = c.pinned.filter (· ≠ key)
  order : ∀ k, c'.order.contains k = (decide (k ≠ key) && c.order.contains k)

section Item
variable {value : ν} {size : ℚ≥0}

theorem getItem_of_get? (h : c.data.get? key = some (value, size)) :
    c.getItem key = (.ok value, c.touch key) := by
  unfold getItem
  rw [h]

theorem delItem_spec (h : c.data.get? key = some (value, size)) :
    ∃ c', c.delItem key = (.ok (), c') ∧ Removed key size c c' := by
  have ht := touched_touch c key
  have hget : (c.touch key).data.get? key = some (value, size) := by rw [ht.data, h]
  have horder : (c.touch key).order.contains key = true := by simp [ht.order]
  refine ⟨{ c.touch key with
    data := (c.touch key).data.erase key
    currsize := (c.touch key).currsize - size
    order := (c.touch key).order.erase key
    pinned := (c.touch key).pinned.filter (· ≠ key) }, ?_, ht.capacity, ?_, ?_, ?_, fun k => ?_⟩
  · unfold delItem
    rw [getItem_of_get? h]
    dsimp only
    unfold baseDelItem
    rw [hget]
    dsimp only
    rw [if_pos horder]
  · show (c.touch key).data.erase key = _
    rw [ht.data]
  · show (c.touch key).currsize - size = _
    rw [ht.currsize]
  · show (c.touch key).pinned.filter _ = _
    rw [ht.pinned]
  · show ((c.touch key).order.erase key).contains k = _
    rw [PyDict.contains_erase, ht.order]
    by_cases hk : k = key <;> simp [hk]

theorem pop_spec (h : c.data.get? key = some (value, size)) :
    ∃ c', c.pop key = (.ok (some value), c') ∧ Removed key size c c' := by
  have ht := touched_touch c key
  have hget : (c.touch key).data.get? key = some (value, size) := by rw [ht.data, h]
  have hcontains : c.contains key = true := by
    unfold contains PyDict.contains
    rw [h]
    rfl
  obtain ⟨c', hdel, hr⟩ := delItem_spec hget
  refine ⟨c', ?_, hr.capacity.trans ht.capacity, ?_, ?_, ?_, fun k => ?_⟩
  · unfold pop
    rw [if_neg (by simp [hcontains]), getItem_of_get? h]
    dsimp only
    rw [hdel]
  · rw [hr.data, ht.data]
  · rw [hr.currsize, ht.currsize]
  · rw [hr.pinned, ht.pinned]
  · rw [hr.order, ht.order]
    by_cases hk : k = key <;> simp [hk]

theorem get?_of_contains (h : c.contains key = true) :
    ∃ value size, c.data.get? key = some (value, size) := by
  obtain ⟨⟨value, size⟩, hget⟩ := Option.isSome_iff_exists.mp h
  exact ⟨value, size, hget⟩

theorem used_erase (h : c.data.get? key = some (value, size)) (hdata : c'.data = c.data.erase key) :
    used c = size + used c' := by
  unfold used
  rw [((PyDict.values_perm_erase h).map Prod.snd).sum_eq, hdata]
  simp

theorem Consistent.touched (h : Consistent c) (hkey : c.contains key = true)
    (ht : Touched key c c') : Consistent c' := by
  have hcontains : ∀ k, c'.contains k = c.contains k := by
    intro k
    unfold contains
    rw [ht.data]
  refine ⟨fun k => ?_, ?_, fun k hk => ?_⟩
  · rw [ht.order, h.order, hcontains]
    by_cases hk : k = key
    · rw [hk, hkey, Bool.or_true]
    · simp [hk]
  · rw [ht.currsize, h.currsize]
    unfold used
    rw [ht.data]
  · rw [ht.pinned] at hk
    rw [hcontains]
    exact h.pinned k hk

theorem Consistent.removed (h : Consistent c) (hget : c.data.get? key = some (value, size))
    (hr : Removed key size c c') : Consistent c' := by
  have hcontains : ∀ k, c'.contains k = (decide (k ≠ key) && c.contains k) := by
    intro k
    unfold contains
    rw [hr.data, PyDict.contains_erase, decide_not]
  refine ⟨fun k => ?_, ?_, fun k hk => ?_⟩
  · rw [hr.order, h.order, hcontains]
  · rw [hr.currsize, h.currsize, used_erase hget hr.data]
    push_cast
    ring
  · rw [hr.pinned, List.mem_filter] at hk
    rw [hcontains, h.pinned k hk.1, Bool.and_true]
    exact hk.2

/-- What is pinned uses the same space after an item that is not pinned is removed. -/
theorem pinnedUsed_removed (hkey : key ∉ c.pinned) (hr : Removed key size c c') :
    pinnedUsed c' = pinnedUsed c := by
  have hpinned : c'.pinned = c.pinned := by
    rw [hr.pinned, List.filter_eq_self]
    intro k hk
    simp only [ne_eq, decide_not, Bool.not_eq_eq_eq_not, Bool.not_true, decide_eq_false_iff_not]
    rintro rfl
    exact hkey hk
  unfold pinnedUsed
  rw [hpinned, hr.data]
  show (((c.data.entries.filter fun e => e.1 ≠ key).filter fun e => e.1 ∈ c.pinned).map _).sum = _
  rw [List.filter_filter]
  congr 2
  refine List.filter_congr fun e _ => ?_
  by_cases he : e.1 = key
  · simp [he, hkey]
  · simp [he]

end Item

theorem used_eq (c : Cache κ ν) : used c = (c.data.entries.map fun e => e.2.2).sum := by
  unfold used PyDict.values
  rw [List.map_map]
  rfl

theorem pinnedUsed_le (c : Cache κ ν) : pinnedUsed c ≤ used c := by
  rw [used_eq]
  unfold pinnedUsed
  exact (List.filter_sublist.map _).sum_le_sum fun _ _ => zero_le

/-- All the space is used by pinned items when all items are pinned. -/
theorem pinnedUsed_eq (h : ∀ k, c.contains k = true → k ∈ c.pinned) : pinnedUsed c = used c := by
  rw [used_eq]
  unfold pinnedUsed
  rw [List.filter_eq_self.mpr]
  intro e he
  rw [decide_eq_true_eq]
  refine h e.1 ((c.data.contains_eq_true_iff e.1).mpr ?_)
  exact List.mem_map_of_mem he

/-! ### Eviction -/

section Popitem
variable {removePinned : Bool}

/-- `popitem` chooses a key of the order. -/
theorem mem_of_lruKey (h : c.lruKey removePinned = .ok key) :
    c.order.contains key = true ∧ (removePinned = false → key ∉ c.pinned) := by
  rw [PyDict.contains_eq_true_iff]
  unfold lruKey at h
  split at h
  · rename_i hremove
    split at h
    · rename_i key' hhead
      cases h
      refine ⟨List.mem_of_mem_head? hhead, ?_⟩
      rw [hremove]
      exact fun hfalse => absurd hfalse (by simp)
    · cases h
  · split at h
    · rename_i key' hfind
      cases h
      exact ⟨List.mem_of_find?_eq_some hfind, fun _ => by simpa using List.find?_some hfind⟩
    · cases h

/-- The error when there is nothing but pinned items. -/
def allPinned : Raised :=
  .error (.runtimeError "All items are pinned, cannot remove oldest from the cache.")

theorem lruKey_error {e : Raised} (h : c.lruKey removePinned = .error e) :
    (removePinned = true ∧ e = .stopIteration ∧ c.order.keys = []) ∨
    (removePinned = false ∧ e = allPinned ∧ ∀ k, c.order.contains k = true → k ∈ c.pinned) := by
  unfold lruKey at h
  split at h
  · rename_i hremove
    split at h
    · cases h
    · rename_i hhead
      cases h
      exact .inl ⟨hremove, rfl, List.head?_eq_none_iff.mp hhead⟩
  · rename_i hremove
    split at h
    · cases h
    · rename_i hfind
      cases h
      refine .inr ⟨by simpa using hremove, rfl, fun k hk => ?_⟩
      have hnot := List.find?_eq_none.mp hfind k ((c.order.contains_eq_true_iff k).mp hk)
      simpa using hnot

/-- An eviction removes a stored item. -/
theorem popitem_spec (hc : Consistent c) (h : c.lruKey removePinned = .ok key) :
    ∃ value size c', c.data.get? key = some (value, size) ∧
      c.popitem removePinned = (.ok (key, some value), c') ∧ Removed key size c c' := by
  obtain ⟨value, size, hget⟩ := get?_of_contains ((hc.order key) ▸ (mem_of_lruKey h).1)
  obtain ⟨c', hpop, hr⟩ := pop_spec hget
  refine ⟨value, size, c', hget, ?_, hr⟩
  unfold popitem
  rw [h]
  dsimp only
  rw [hpop]

theorem popitem_error {e : Raised} (h : c.lruKey removePinned = .error e) :
    c.popitem removePinned = (.error e, c) := by
  unfold popitem
  rw [h]

theorem Removed.len {size : ℚ≥0} (hr : Removed key size c c') (hkey : c.contains key = true) :
    c'.len + 1 = c.len := by
  unfold Cache.len
  rw [hr.data]
  exact PyDict.size_erase hkey

/-- What an eviction does: it removes a stored item, or it raises and changes nothing. -/
theorem popitemUnit_spec (hc : Consistent c) (removePinned : Bool) :
    (∃ key size c', c.popitemUnit removePinned = (.ok (), c') ∧
      c.lruKey removePinned = .ok key ∧ c.contains key = true ∧
      Removed key size c c' ∧ Consistent c') ∨
    ∃ e, c.popitemUnit removePinned = (.error e, c) ∧ c.lruKey removePinned = .error e := by
  cases h : c.lruKey removePinned with
  | error e =>
    refine .inr ⟨e, ?_, rfl⟩
    unfold popitemUnit
    rw [popitem_error h]
  | ok key =>
    obtain ⟨value, size, c', hget, hpop, hr⟩ := popitem_spec hc h
    refine .inl ⟨key, size, c', ?_, rfl, ?_, hr, hc.removed hget hr⟩
    · unfold popitemUnit
      rw [hpop]
    · rw [← hc.order]
      exact (mem_of_lruKey h).1

end Popitem

/-! ### The loops -/

/-- A round of `clear`. -/
theorem removeOldest_round (hc : Consistent c) (hpos : 0 < c.len) :
    ∃ c', c.removeOldest true = (.ok (), c') ∧ Consistent c' ∧ c'.len < c.len := by
  have hbody : c.removeOldest true = c.popitemUnit true := by
    unfold removeOldest
    rw [if_neg (by omega)]
  rw [hbody]
  rcases popitemUnit_spec hc true with ⟨key, size, c', hpop, -, hkey, hr, hc'⟩ | ⟨e, -, hlru⟩
  · have hlen := hr.len hkey
    exact ⟨c', hpop, hc', by omega⟩
  · -- Something is stored, so the order is not empty.
    exfalso
    rcases lruKey_error hlru with ⟨-, -, hnil⟩ | ⟨hfalse, -⟩
    · obtain ⟨k, hk⟩ : ∃ k, k ∈ c.data.keys := by
        refine List.exists_mem_of_length_pos ?_
        rw [← PyDict.size_eq_length_keys]
        exact hpos
      have hmem := hc.order k
      unfold contains at hmem
      rw [(c.data.contains_eq_true_iff k).mpr hk, PyDict.contains_eq_true_iff, hnil] at hmem
      exact List.not_mem_nil hmem
    · exact absurd hfalse (by simp)

/-- `clear` ends, and then nothing is stored. -/
theorem clear_spec (hc : Consistent c) :
    ∃ fuel c', clear fuel c = some (.ok (), c') ∧ Consistent c' ∧ c'.len = 0 := by
  have hround : ∀ s : Cache κ ν, Consistent s → decide (0 < s.len) = true →
      (∃ s', s.removeOldest true = (.ok (), s') ∧ Consistent s' ∧ s'.len < s.len) ∨
      ∃ e s', s.removeOldest true = (.error e, s') ∧ False := by
    intro s hs hpos
    exact .inl (removeOldest_round hs (of_decide_eq_true hpos))
  obtain ⟨fuel, ⟨c', hrun, hc', hempty⟩ | ⟨e, c', hrun, hfalse⟩⟩ :=
    whileLoop_variant Consistent (fun _ _ => False) len hround hc
  · refine ⟨fuel, c', hrun, hc', ?_⟩
    simpa using hempty
  · exact hfalse.elim

/-- What the insertion loop keeps. -/
structure MakingRoom (c s : Cache κ ν) : Prop where
  consistent : Consistent s
  capacity : s.capacity = c.capacity
  pinnedUsed : pinnedUsed s = pinnedUsed c

/-- A round of the insertion loop. -/
theorem popitem_round {s : Cache κ ν} {size : ℚ≥0} (hs : MakingRoom c s)
    (hfull : s.capacity < s.currsize + size) :
    (∃ s', s.popitemUnit false = (.ok (), s') ∧ MakingRoom c s' ∧ s'.len < s.len) ∨
    ∃ e s', s.popitemUnit false = (.error e, s') ∧ MakingRoom c s' ∧ e = allPinned ∧
      c.capacity < pinnedUsed c + size := by
  rcases popitemUnit_spec hs.consistent false with
    ⟨key, size', s', hpop, hlru, hkey, hr, hs'⟩ | ⟨e, hpop, hlru⟩
  · have hlen := hr.len hkey
    have hunpinned := (mem_of_lruKey hlru).2 rfl
    exact .inl ⟨s', hpop, ⟨hs', hr.capacity.trans hs.capacity,
      (pinnedUsed_removed hunpinned hr).trans hs.pinnedUsed⟩, by omega⟩
  · rcases lruKey_error hlru with ⟨hfalse, -⟩ | ⟨-, he, hall⟩
    · exact absurd hfalse (by simp)
    · refine .inr ⟨e, s, hpop, hs, he, ?_⟩
      -- All the items that are left are pinned.
      have hused : pinnedUsed s = used s :=
        pinnedUsed_eq fun k hk => hall k ((hs.consistent.order k).trans hk)
      rwa [hs.capacity, hs.consistent.currsize, ← hused, hs.pinnedUsed] at hfull

/-- The insertion loop ends: there is room, or the pinned items leave none. -/
theorem makeRoom_spec (hc : Consistent c) (size : ℚ≥0) : ∃ fuel s, MakingRoom c s ∧
      ((makeRoom size fuel c = some (.ok (), s) ∧ pinnedUsed c + size ≤ c.capacity) ∨
       (makeRoom size fuel c = some (.error allPinned, s) ∧
          c.capacity < pinnedUsed c + size)) := by
  have hround : ∀ s : Cache κ ν, MakingRoom c s → decide (s.capacity < s.currsize + size) = true →
      (∃ s', s.popitemUnit false = (.ok (), s') ∧ MakingRoom c s' ∧ s'.len < s.len) ∨
      ∃ e s', s.popitemUnit false = (.error e, s') ∧ MakingRoom c s' ∧ e = allPinned ∧
        c.capacity < pinnedUsed c + size := by
    intro s hs hfull
    exact popitem_round hs (of_decide_eq_true hfull)
  obtain ⟨fuel, ⟨s, hrun, hs, hroom⟩ | ⟨e, s, hrun, hs, rfl, hfull⟩⟩ :=
    whileLoop_variant (MakingRoom c)
      (fun e s => MakingRoom c s ∧ e = allPinned ∧ c.capacity < pinnedUsed c + size)
      len hround ⟨hc, rfl, rfl⟩
  · refine ⟨fuel, s, hs, .inl ⟨hrun, ?_⟩⟩
    rw [decide_eq_false_iff_not, not_lt, hs.capacity, hs.consistent.currsize] at hroom
    have hle : (pinnedUsed c : ℚ) ≤ used s := by
      rw [← hs.pinnedUsed]
      exact_mod_cast pinnedUsed_le s
    linarith
  · exact ⟨fuel, s, hs, .inr ⟨hrun, hfull⟩⟩

/-! ### An insertion -/

section Put
variable {size : ℚ≥0} {value : ν}

theorem store_data (c : Cache κ ν) (key : κ) (value : ν) (size : ℚ≥0) :
    (c.store key value size).data = c.data.insert key (value, size) :=
  (touched_touch _ key).data

theorem store_order (c : Cache κ ν) (key : κ) (value : ν) (size : ℚ≥0) (k : κ) :
    (c.store key value size).order.contains k = (decide (k = key) || c.order.contains k) :=
  (touched_touch _ key).order k

theorem store_pinned (c : Cache κ ν) (key : κ) (value : ν) (size : ℚ≥0) :
    (c.store key value size).pinned = c.pinned :=
  (touched_touch _ key).pinned

theorem store_currsize (c : Cache κ ν) (key : κ) (value : ν) (size : ℚ≥0) :
    (c.store key value size).currsize = c.currsize + match c.data.get? key with
      | some (_, oldSize) => (size - oldSize : ℚ)
      | none => size :=
  (touched_touch _ key).currsize

/-- The sizes after a value is stored. -/
theorem used_store (c : Cache κ ν) (key : κ) (value : ν) (size : ℚ≥0) :
    (used (c.store key value size) : ℚ) = used c + match c.data.get? key with
      | some (_, oldSize) => (size - oldSize : ℚ)
      | none => size := by
  unfold used
  rw [store_data]
  cases hget : c.data.get? key with
  | none =>
    have hnew : key ∉ c.data.keys := (c.data.get?_eq_none_iff key).mp hget
    unfold PyDict.values
    rw [PyDict.entries_insert_of_not_mem _ hnew]
    simp
  | some old =>
    obtain ⟨oldValue, oldSize⟩ := old
    rw [((PyDict.values_insert_perm (value, size) hget).map Prod.snd).sum_eq,
      ((PyDict.values_perm_erase hget).map Prod.snd).sum_eq]
    simp only [List.map_cons, List.sum_cons]
    push_cast
    ring

theorem Consistent.store (h : Consistent c) (key : κ) (value : ν) (size : ℚ≥0) :
    Consistent (c.store key value size) := by
  have hcontains : ∀ k, (c.store key value size).contains k =
      (decide (k = key) || c.contains k) := by
    intro k
    unfold contains
    rw [store_data]
    exact PyDict.contains_insert _ _ _ _
  refine ⟨fun k => ?_, ?_, fun k hk => ?_⟩
  · rw [store_order, hcontains, h.order]
  · rw [store_currsize, h.currsize, used_store]
  · rw [store_pinned] at hk
    rw [hcontains, h.pinned k hk, Bool.or_true]

/-- An insertion of an item that is not larger than the cache ends: the item is stored, or the
pinned items leave no room for it. -/
theorem put_spec (getsizeof : ν → ℚ≥0) (hc : Consistent c) (key : κ) (value : ν)
    (hsize : getsizeof value ≤ c.capacity) :
    ∃ fuel c', Consistent c' ∧
      ((put getsizeof fuel c key value = some (.ok (), c') ∧
          c'.data.get? key = some (value, getsizeof value) ∧
          (c.grows key (getsizeof value) = true → pinnedUsed c + getsizeof value ≤ c.capacity)) ∨
       (put getsizeof fuel c key value = some (.error allPinned, c') ∧
          c.grows key (getsizeof value) = true ∧ c.capacity < pinnedUsed c + getsizeof value)) := by
  cases hgrows : c.grows key (getsizeof value) with
  | false =>
    refine ⟨0, c.store key value (getsizeof value), hc.store _ _ _, .inl ⟨?_, ?_, by simp⟩⟩
    · unfold put
      rw [if_neg (not_lt.mpr hsize), hgrows]
      rfl
    · rw [store_data, PyDict.get?_insert_self]
  | true =>
    obtain ⟨fuel, s, hs, ⟨hrun, hroom⟩ | ⟨hrun, hfull⟩⟩ := makeRoom_spec hc (getsizeof value)
    · refine ⟨fuel, s.store key value (getsizeof value), hs.consistent.store _ _ _,
        .inl ⟨?_, ?_, fun _ => hroom⟩⟩
      · unfold put
        rw [if_neg (not_lt.mpr hsize), hgrows, if_pos rfl, hrun]
      · rw [store_data, PyDict.get?_insert_self]
    · refine ⟨fuel, s, hs.consistent, .inr ⟨?_, rfl, hfull⟩⟩
      unfold put
      rw [if_neg (not_lt.mpr hsize), hgrows, if_pos rfl, hrun]

end Put

/-! ### Runs -/

section Runs
variable (getsizeof : ν → ℚ≥0)

/-- A call that returns or raises, with enough fuel for its loop. -/
def callStep (c : Cache κ ν) (o : Op κ ν × Nat) : Except Unit (Cache κ ν) :=
  match step getsizeof c o.2 o.1 with
  | some c => .ok c
  | none => .error ()

/-- `touch` is called for a stored key. -/
def TouchStored (c : Cache κ ν) : Op κ ν × Nat → Prop
  | (.touch key, _) => c.contains key = true
  | _ => True

/-- More fuel does not change what an insertion does. -/
theorem put_mono {fuel : Nat} {value : ν} {x : Except Raised Unit × Cache κ ν}
    (h : put getsizeof fuel c key value = some x) (more : Nat) :
    put getsizeof (fuel + more) c key value = some x := by
  unfold put at h ⊢
  dsimp only at h ⊢
  by_cases hsize : c.capacity < getsizeof value
  · rw [if_pos hsize] at h ⊢
    exact h
  rw [if_neg hsize] at h ⊢
  cases hgrows : c.grows key (getsizeof value) with
  | false =>
    rw [hgrows] at h
    exact h
  | true =>
    rw [hgrows, if_pos rfl] at h
    rw [if_pos rfl]
    cases hrun : c.makeRoom (getsizeof value) fuel with
    | none =>
      rw [hrun] at h
      cases h
    | some y =>
      have hmore : c.makeRoom (getsizeof value) (fuel + more) = some y := whileLoop_mono hrun more
      rw [hmore]
      rw [hrun] at h
      exact h

/-- Every call keeps the order and the stored keys together. -/
theorem consistent_step (hc : Consistent c) {o : Op κ ν × Nat} (htouch : TouchStored c o)
    (h : callStep getsizeof c o = .ok c') : Consistent c' := by
  obtain ⟨op, fuel⟩ := o
  unfold callStep at h
  dsimp only at h
  split at h
  swap
  · cases h
  rename_i c1 hstep
  cases h
  have hpop : ∀ removePinned, Consistent (c.popitemUnit removePinned).2 := by
    intro removePinned
    rcases popitemUnit_spec hc removePinned with ⟨_, _, c', hrun, -, -, -, hc'⟩ | ⟨_, hrun, -⟩
    · rw [hrun]
      exact hc'
    · rw [hrun]
      exact hc
  cases op with
  | get key =>
    cases hstep
    unfold Cache.get
    split
    · rename_i hkey
      obtain ⟨value, size, hget⟩ := get?_of_contains hkey
      rw [getItem_of_get? hget]
      exact hc.touched hkey (touched_touch c key)
    · exact hc
  | put key value =>
    obtain ⟨⟨r, c2⟩, hput, rfl⟩ := Option.map_eq_some_iff.mp hstep
    by_cases hsize : c.capacity < getsizeof value
    · -- The value is larger than the cache: nothing changes.
      unfold Cache.put at hput
      rw [if_pos hsize] at hput
      cases hput
      exact hc
    · obtain ⟨fuel', c3, hc3, hspec⟩ := put_spec getsizeof hc key value (not_lt.mp hsize)
      have hmore := put_mono getsizeof hput fuel'
      rcases hspec with ⟨hput', -⟩ | ⟨hput', -⟩
      all_goals
        have hmore' := put_mono getsizeof hput' fuel
        rw [Nat.add_comm, hmore] at hmore'
        cases hmore'
        exact hc3
  | touch key =>
    cases hstep
    exact hc.touched htouch (touched_touch c key)
  | pin key =>
    cases hstep
    unfold Cache.pin
    split
    · exact hc
    · rename_i hkey
      refine ⟨hc.order, hc.currsize, fun k hk => ?_⟩
      have hmem : k ∈ c.pinned ∨ k = key := by
        dsimp only at hk
        split at hk
        · exact .inl hk
        · simpa using hk
      rcases hmem with hk | rfl
      · exact hc.pinned k hk
      · exact Bool.not_eq_false _ ▸ hkey
  | pop key =>
    cases hstep
    by_cases hkey : c.contains key = true
    · obtain ⟨value, size, hget⟩ := get?_of_contains hkey
      obtain ⟨c', hrun, hr⟩ := pop_spec hget
      rw [hrun]
      exact hc.removed hget hr
    · unfold Cache.pop
      rw [if_pos (by simpa using hkey)]
      exact hc
  | removeOldest removePinned =>
    cases hstep
    unfold Cache.removeOldest
    split
    · exact hc
    · exact hpop removePinned
  | clear =>
    obtain ⟨⟨r, c2⟩, hrun, rfl⟩ := Option.map_eq_some_iff.mp hstep
    obtain ⟨fuel', c3, hclear, hc3, -⟩ := clear_spec hc
    cases whileLoop_unique hrun hclear
    exact hc3

theorem consistent_new (capacity : ℚ) : Consistent ({ capacity := capacity } : Cache κ ν) := by
  refine ⟨fun k => rfl, ?_, fun k hk => absurd hk List.not_mem_nil⟩
  simp [used, PyDict.values, PyDict.empty]

/-- The laws of the cache in every state that calls reach which touch stored keys only: the
order has exactly the stored keys, an eviction removes a stored item, `clear` ends, and so does
an insertion of an item that is not larger than the cache. It stores the item, or it raises
because what is pinned leaves no room for a new item or for one that grows. -/
theorem lru_cache_laws (capacity : ℚ)
    (hrun : Run (callStep getsizeof) TouchStored { capacity := capacity } c) :
    (∀ key, c.order.contains key = c.contains key) ∧
    (∀ removePinned, (∃ key value c', c.popitem removePinned = (.ok (key, some value), c') ∧
        c.contains key = true ∧ c'.contains key = false ∧ c'.len + 1 = c.len) ∨
      (c.popitem removePinned = (.error .stopIteration, c) ∧ removePinned = true ∧ c.len = 0) ∨
      (c.popitem removePinned = (.error allPinned, c) ∧ removePinned = false ∧
        ∀ key, c.contains key = true → key ∈ c.pinned)) ∧
    (∃ fuel c', clear fuel c = some (.ok (), c') ∧ c'.len = 0) ∧
    ∀ key value, getsizeof value ≤ c.capacity → ∃ fuel c',
      (put getsizeof fuel c key value = some (.ok (), c') ∧
          c'.data.get? key = some (value, getsizeof value) ∧
          (c.grows key (getsizeof value) = true → pinnedUsed c + getsizeof value ≤ c.capacity)) ∨
      (put getsizeof fuel c key value = some (.error allPinned, c') ∧
          c.grows key (getsizeof value) = true ∧ c.capacity < pinnedUsed c + getsizeof value) := by
  have hc : Consistent c := hrun.invariant Consistent (consistent_new capacity)
    fun _ _ _ hs htouch hstep => consistent_step getsizeof hs htouch hstep
  refine ⟨hc.order, fun removePinned => ?_, ?_, fun key value hsize => ?_⟩
  · cases hlru : c.lruKey removePinned with
    | ok key =>
      obtain ⟨value, size, c', hget, hpop, hr⟩ := popitem_spec hc hlru
      have hkey : c.contains key = true := (hc.order key) ▸ (mem_of_lruKey hlru).1
      refine .inl ⟨key, value, c', hpop, hkey, ?_, hr.len hkey⟩
      unfold contains
      rw [hr.data, PyDict.contains_erase]
      simp
    | error e =>
      rcases lruKey_error hlru with ⟨hremove, rfl, hnil⟩ | ⟨hremove, rfl, hall⟩
      · refine .inr (.inl ⟨popitem_error hlru, hremove, ?_⟩)
        unfold len
        rw [PyDict.size_eq_length_keys, List.length_eq_zero_iff, List.eq_nil_iff_forall_not_mem]
        intro k hk
        have hmem := (hc.order k).trans ((c.data.contains_eq_true_iff k).mpr hk)
        rw [PyDict.contains_eq_true_iff, hnil] at hmem
        exact List.not_mem_nil hmem
      · exact .inr (.inr ⟨popitem_error hlru, hremove, fun k hk => hall k ((hc.order k).trans hk)⟩)
  · obtain ⟨fuel, c', hrun, -, hempty⟩ := clear_spec hc
    exact ⟨fuel, c', hrun, hempty⟩
  · obtain ⟨fuel, c', -, hput⟩ := put_spec getsizeof hc key value hsize
    exact ⟨fuel, c', hput⟩

end Runs

/-- The sizes of the examples. -/
private def unitSize : Nat → ℚ≥0 := fun _ => 1

instance (c : Cache Nat Nat) (o : Op Nat Nat × Nat) : Decidable (TouchStored c o) := by
  unfold TouchStored
  split <;> infer_instance

/-- Two items are stored, the older one is pinned, and the cache is full. -/
theorem lru_cache_laws_pinned :
    ∃ c : Cache Nat Nat, Run (callStep unitSize) TouchStored { capacity := 2 } c ∧
      (c.order.keys = [1, 2] ∧ c.pinned = [1]) ∧
      ((∃ fuel c', clear fuel c = some (.ok (), c') ∧ c'.len = 0) ∧
        ∀ key, c.order.contains key = c.contains key) := by
  obtain ⟨c₀, c, hstart, hrun, hstate⟩ := exists_run_of_check (callStep unitSize) TouchStored
    (fun c => c.order.keys = [1, 2] ∧ c.pinned = [1])
    (.ok { capacity := 2 }) [(.put 1 10, 0), (.pin 1, 0), (.put 2 20, 0)] (by decide +kernel)
  cases hstart
  have hlaws := lru_cache_laws unitSize 2 hrun
  exact ⟨c, hrun, hstate, hlaws.2.2.1, hlaws.1⟩

/-- A key that is in the order and not stored is never removed from it, so the insertion loop
chooses it in every round. -/
theorem makeRoom_phantom {size : ℚ≥0} (hlru : c.lruKey false = .ok key)
    (hkey : c.contains key = false) (hfull : c.capacity < c.currsize + size) (fuel : Nat) :
    makeRoom size fuel c = none := by
  have hpop : c.pop key = (.ok none, c) := by
    unfold pop
    rw [if_pos hkey]
  have hround : c.popitemUnit false = (.ok (), c) := by
    unfold popitemUnit popitem
    rw [hlru]
    dsimp only
    rw [hpop]
  unfold makeRoom
  apply whileLoop_stuck
  · exact decide_eq_true hfull
  · exact hround

/-- When all that is stored is pinned, an insertion raises. And after a key is touched that is
not stored, the order has a key which is not stored, and an insertion never returns. -/
theorem lru_cache_flaws :
    (∃ c : Cache Nat Nat, Run (callStep unitSize) (fun _ _ => True) { capacity := 1 } c ∧
      unitSize 20 ≤ c.capacity ∧ (put unitSize 1 c 2 20).map Prod.fst = some (.error allPinned)) ∧
    ∃ c : Cache Nat Nat, Run (callStep unitSize) (fun _ _ => True) { capacity := 1 } c ∧
      c.order.contains 2 = true ∧ c.contains 2 = false ∧ unitSize 40 ≤ c.capacity ∧
      ∀ fuel, put unitSize fuel c 4 40 = none := by
  constructor
  · obtain ⟨c₀, c, hstart, hrun, hstate⟩ := exists_run_of_check (callStep unitSize)
      (fun _ _ => True) (fun c => unitSize 20 ≤ c.capacity ∧
        (put unitSize 1 c 2 20).map Prod.fst = some (.error allPinned))
      (.ok { capacity := 1 }) [(.put 1 10, 0), (.pin 1, 0)] (by decide +kernel)
    cases hstart
    exact ⟨c, hrun, hstate⟩
  · obtain ⟨c₀, c, hstart, hrun, hphantom, hlru, hfull, hsize, hgrows⟩ :=
      exists_run_of_check (callStep unitSize) (fun _ _ => True)
        (fun c => (c.order.contains 2 = true ∧ c.contains 2 = false) ∧
          c.order.keys.find? (· ∉ c.pinned) = some 2 ∧ c.capacity < c.currsize + unitSize 40 ∧
          unitSize 40 ≤ c.capacity ∧ c.grows 4 (unitSize 40) = true)
        (.ok { capacity := 1 }) [(.put 1 10, 0), (.touch 2, 0), (.put 3 30, 1)]
        (by decide +kernel)
    cases hstart
    refine ⟨c, hrun, hphantom.1, hphantom.2, hsize, fun fuel => ?_⟩
    have hlruKey : c.lruKey false = .ok 2 := by
      unfold lruKey
      rw [if_neg (by simp), hlru]
    unfold put
    dsimp only
    rw [if_neg (not_lt.mpr hsize), if_pos hgrows, makeRoom_phantom hlruKey hphantom.2 hfull]

end Vllm.Proofs.Utils
