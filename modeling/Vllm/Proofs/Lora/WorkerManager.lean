import Vllm.Lib.MapM
import Vllm.Lora.WorkerManager
import Vllm.Lib.Run
import Mathlib.Data.Finset.Card
import Mathlib.Data.List.Count
import Mathlib.Data.List.Infix
import Mathlib.Data.List.Nodup
import Mathlib.Data.Finset.Dedup

/-!
# `Vllm.Proofs.Lora.WorkerManager`: the slots are those that the kernels are told

An adapter that is used becomes the most recent one of both caches. So what has been requested in
this call is dropped last, after everything that is not pinned.

* `dropActive`, `place`: how an adapter leaves its slot, and how it comes to one.
* `LoRAInv`: the slots hold the active adapters, which are registered.
* `addAdapters_recent`: the adapters of a call that returns are the most recent ones.
* `slotsMatch_of_run`: the invariant, and what a call promises.
-/

set_option autoImplicit false

namespace Vllm.Proofs.Lora

open Vllm.Lib Vllm.Lora Vllm.Lora.LoRAState Vllm.Lora.AdapterLRUCache LoRARequest List

/-! ### The caches -/

theorem filter_ne_of_not_mem {l : List Nat} {key : Nat} (h : key ∉ l) : l.filter (· ≠ key) = l := by
  apply filter_eq_self.mpr
  intro a ha
  have hne : a ≠ key := fun heq => h (heq ▸ ha)
  simpa using hne

section Cache
variable {c : AdapterLRUCache} {key k : Nat}

@[simp] theorem mem_order_touch : k ∈ (c.touch key).order ↔ k ∈ c.order ∨ k = key := by
  by_cases h : k = key <;> simp [touch, h]

@[simp] theorem mem_order_delItem : k ∈ (c.delItem key).order ↔ k ∈ c.order ∧ k ≠ key := by
  simp [delItem]

@[simp] theorem mem_pinned_delItem : k ∈ (c.delItem key).pinned ↔ k ∈ c.pinned ∧ k ≠ key := by
  simp [delItem]

@[simp] theorem mem_pinned_addPin : k ∈ (c.addPin key).pinned ↔ k ∈ c.pinned ∨ k = key := by
  unfold addPin
  by_cases h : key ∈ c.pinned
  · simp only [if_pos h]
    constructor
    · exact .inl
    · rintro (hk | rfl)
      · exact hk
      · exact h
  · simp [h]

theorem nodup_touch (h : c.order.Nodup) : (c.touch key).order.Nodup := by
  unfold touch
  rw [nodup_append]
  refine ⟨h.filter _, nodup_singleton _, ?_⟩
  intro a ha b hb
  rw [mem_singleton.mp hb]
  simpa using (mem_filter.mp ha).2

theorem nodup_delItem (h : c.order.Nodup) : (c.delItem key).order.Nodup := h.filter _

theorem touch_touch : (c.touch key).touch key = c.touch key := by
  simp [touch, filter_append]

theorem length_touch_of_mem (hnodup : c.order.Nodup) (h : key ∈ c.order) :
    (c.touch key).order.length = c.order.length := by
  have herase : c.order.filter (· ≠ key) = c.order.erase key := by
    rw [hnodup.erase_eq_filter]
    simp [bne, Bool.beq_eq_decide_eq]
  unfold touch
  rw [length_append, herase, length_erase_of_mem h, length_singleton]
  have := length_pos_of_mem h
  omega

theorem length_touch_of_not_mem (h : key ∉ c.order) :
    (c.touch key).order.length = c.order.length + 1 := by
  unfold touch
  rw [filter_ne_of_not_mem h, length_append, length_singleton]

theorem length_delItem_lt (h : key ∈ c.order) : (c.delItem key).order.length < c.order.length := by
  unfold delItem
  exact length_filter_lt_length_iff_exists.mpr ⟨key, h, by simp⟩

/-- The key that is dropped is in the cache and is not pinned. -/
theorem lruKey_spec (h : c.lruKey = some k) : k ∈ c.order ∧ k ∉ c.pinned := by
  unfold lruKey at h
  exact ⟨mem_of_find?_eq_some h, by simpa using List.find?_some h⟩

variable {recent : List Nat}

/-- What is dropped is not one of the most recent keys, if there is another one that is not
pinned. -/
theorem lruKey_not_mem (hnodup : c.order.Nodup) (hrecent : recent <:+ c.order) {x : Nat}
    (hx : x ∈ c.order) (hpinned : x ∉ c.pinned) (hother : x ∉ recent) :
    ∃ k, c.lruKey = some k ∧ k ∉ recent := by
  obtain ⟨old, hold⟩ := hrecent
  have hxold : x ∈ old := by
    rw [← hold] at hx
    exact (mem_append.mp hx).resolve_right hother
  have hfind : ∃ k, old.find? (fun key => decide (key ∉ c.pinned)) = some k := by
    rw [← Option.isSome_iff_exists, List.find?_isSome]
    exact ⟨x, hxold, by simpa using hpinned⟩
  obtain ⟨k, hk⟩ := hfind
  refine ⟨k, ?_, ?_⟩
  · unfold lruKey
    rw [← hold, List.find?_append, hk]
    rfl
  · rw [← hold] at hnodup
    exact fun hkr => (nodup_append.mp hnodup).2.2 k (mem_of_find?_eq_some hk) k hkr rfl

theorem recent_touch (hrecent : recent <:+ c.order) (h : key ∉ recent) :
    recent ++ [key] <:+ (c.touch key).order := by
  obtain ⟨old, hold⟩ := hrecent
  refine ⟨old.filter (· ≠ key), ?_⟩
  unfold touch
  rw [← hold, filter_append, filter_ne_of_not_mem h, append_assoc]

/-- What is the most recent key already. -/
theorem touch_last (hnodup : c.order.Nodup) (h : recent ++ [key] <:+ c.order) :
    c.touch key = c := by
  obtain ⟨old, hold⟩ := h
  rw [← append_assoc] at hold
  have hkey : key ∉ old ++ recent := by
    rw [← hold] at hnodup
    exact fun hm => (nodup_append.mp hnodup).2.2 key hm key mem_cons_self rfl
  have horder : c.order.filter (· ≠ key) ++ [key] = c.order := by
    rw [← hold, filter_append, filter_ne_of_not_mem hkey]
    simp
  unfold touch
  rw [horder]

theorem recent_delItem (hrecent : recent <:+ c.order) (h : key ∉ recent) :
    recent <:+ (c.delItem key).order := by
  obtain ⟨old, hold⟩ := hrecent
  refine ⟨old.filter (· ≠ key), ?_⟩
  unfold delItem
  rw [← hold, filter_append, filter_ne_of_not_mem h]

/-- With room for the requested and the pinned keys, a full cache has a key that is neither pinned
nor requested before. -/
theorem exists_other {requested : List Nat} {n : Nat} (hnodup : c.order.Nodup)
    (hkey : key ∉ c.order) (hfull : n ≤ c.order.length)
    (hcard : (requested.toFinset ∪ c.pinned.toFinset).card ≤ n)
    (hrecent : ∀ k ∈ recent, k ∈ requested) (hin : key ∈ requested) :
    ∃ x ∈ c.order, x ∉ c.pinned ∧ x ∉ recent := by
  by_contra hnone
  have hsub : (key :: c.order).toFinset ⊆ requested.toFinset ∪ c.pinned.toFinset := by
    intro x hx
    rw [mem_toFinset, mem_cons] at hx
    rw [Finset.mem_union, mem_toFinset, mem_toFinset]
    rcases hx with rfl | hx
    · exact .inl hin
    · by_cases hp : x ∈ c.pinned
      · exact .inr hp
      · by_cases hr : x ∈ recent
        · exact .inl (hrecent x hr)
        · exact absurd ⟨x, hx, hp, hr⟩ hnone
  have hle := Finset.card_le_card hsub
  rw [toFinset_card_of_nodup (nodup_cons.mpr ⟨hkey, hnodup⟩), length_cons] at hle
  omega

end Cache

/-! ### The slots -/

/-- The slots without an adapter. -/
def freeSlot (slots : List (Option Nat)) (loraId : Nat) : List (Option Nat) :=
  slots.map fun x => if x = some loraId then none else x

variable {slots : List (Option Nat)}

theorem freeSlot_of_not_mem {loraId : Nat} (h : some loraId ∉ slots) :
    freeSlot slots loraId = slots := by
  unfold freeSlot
  conv_rhs => rw [← map_id slots]
  apply map_congr_left
  intro x hx
  have hne : x ≠ some loraId := fun heq => h (heq ▸ hx)
  simp [hne]

/-- The first entry of an adapter is the only one. -/
theorem set_idxOf_eq_freeSlot {loraId : Nat} (h : slots.count (some loraId) ≤ 1) :
    slots.set (slots.idxOf (some loraId)) none = freeSlot slots loraId := by
  induction slots with
  | nil => rfl
  | cons x slots ih =>
    by_cases hx : x = some loraId
    · subst hx
      have hnot : some loraId ∉ slots := by
        rw [count_cons_self] at h
        exact count_eq_zero.mp (by omega)
      rw [idxOf_cons_self, set_cons_zero, freeSlot, map_cons, if_pos rfl]
      exact congrArg _ (freeSlot_of_not_mem hnot).symm
    · rw [idxOf_cons_ne _ hx, set_cons_succ, ih (by
        rw [count_cons_of_ne hx] at h
        exact h), freeSlot, freeSlot, map_cons, if_neg hx]

theorem not_mem_freeSlot (slots : List (Option Nat)) (loraId : Nat) :
    some loraId ∉ freeSlot slots loraId := by
  intro h
  obtain ⟨x, -, hx⟩ := mem_map.mp h
  split at hx
  · cases hx
  · rename_i hne
    exact hne hx

theorem count_freeSlot {loraId k : Nat} (h : k ≠ loraId) :
    (freeSlot slots loraId).count (some k) = slots.count (some k) := by
  induction slots with
  | nil => rfl
  | cons x slots ih =>
    simp only [freeSlot, map_cons] at ih ⊢
    by_cases hx : x = some loraId
    · subst hx
      have hnone : none ≠ some k := (Option.some_ne_none k).symm
      have hsome : some loraId ≠ some k := by simpa using Ne.symm h
      rw [if_pos rfl, count_cons_of_ne hnone, ih, count_cons_of_ne hsome]
    · rw [if_neg hx]
      simp [count_cons, ih]

/-- An adapter in the first free slot. -/
theorem count_set_none {loraId k : Nat} (h : none ∈ slots) :
    (slots.set (slots.idxOf none) (some loraId)).count (some k) =
      slots.count (some k) + if k = loraId then 1 else 0 := by
  induction slots with
  | nil => simp at h
  | cons x slots ih =>
    cases x with
    | none =>
      have hnone : none ≠ some k := (Option.some_ne_none k).symm
      rw [idxOf_cons_self, set_cons_zero, count_cons,
        count_cons_of_ne hnone]
      by_cases hk : k = loraId
      · simp [hk]
      · have hne : loraId ≠ k := Ne.symm hk
        simp [hk, hne]
    | some y =>
      have hmem : none ∈ slots := by simpa using h
      have hsome : some y ≠ none := Option.some_ne_none y
      rw [idxOf_cons_ne _ hsome, set_cons_succ, count_cons, count_cons,
        ih hmem]
      omega

/-! ### The invariant -/

/-- Each active adapter has exactly one slot, and the slots have nothing else. -/
structure SlotsOk (s : LoRAState) : Prop where
  slots : ∀ k, s.loraIndexToId.count (some k) = if k ∈ s.activeAdapters.order then 1 else 0
  nodup : s.activeAdapters.order.Nodup
  pinned : ∀ k ∈ s.activeAdapters.pinned, k ∈ s.activeAdapters.order

/-- The slots, the two caches and what the kernels were told. -/
structure LoRAInv (cfg : LoRAConfig) (s : LoRAState) : Prop extends SlotsOk s where
  length : s.loraIndexToId.length = cfg.maxLoras
  registered : ∀ k ∈ s.activeAdapters.order, k ∈ s.registeredAdapters.order
  registeredNodup : s.registeredAdapters.order.Nodup
  registeredLe : s.registeredAdapters.order.length ≤ cfg.maxCpuLoras
  registeredPinned : ∀ k ∈ s.registeredAdapters.pinned, k ∈ s.registeredAdapters.order
  pins : ∀ k ∈ s.activeAdapters.pinned, k ∈ s.registeredAdapters.pinned
  told : s.lastMapping.isSome → s.metadata.isSome

/-- An adapter is no longer active. -/
def dropActive (s : LoRAState) (loraId : Nat) : LoRAState :=
  { s with
    activeAdapters := s.activeAdapters.delItem loraId
    loraIndexToId := freeSlot s.loraIndexToId loraId }

/-- An adapter is no longer registered. -/
def dropRegistered (s : LoRAState) (loraId : Nat) : LoRAState :=
  { dropActive s loraId with registeredAdapters := s.registeredAdapters.delItem loraId }

/-- An adapter comes to the first free slot. -/
def place (s : LoRAState) (loraId : Nat) : LoRAState :=
  { s with
    activeAdapters := s.activeAdapters.touch loraId
    registeredAdapters := s.registeredAdapters.touch loraId
    loraIndexToId := s.loraIndexToId.set (s.loraIndexToId.idxOf none) (some loraId) }

section Slots
variable {cfg : LoRAConfig} {s : LoRAState} {loraId : Nat}

theorem SlotsOk.count_le (h : SlotsOk s) (k : Nat) : s.loraIndexToId.count (some k) ≤ 1 := by
  rw [h.slots]
  split <;> omega

theorem SlotsOk.dropActive_of_not_mem (h : SlotsOk s) (hid : loraId ∉ s.activeAdapters.order) :
    dropActive s loraId = s := by
  have hcount := h.slots loraId
  rw [if_neg hid] at hcount
  have hpinned : loraId ∉ s.activeAdapters.pinned := fun hp => hid (h.pinned loraId hp)
  unfold dropActive delItem
  rw [freeSlot_of_not_mem (count_eq_zero.mp hcount), filter_ne_of_not_mem hid,
    filter_ne_of_not_mem hpinned]

/-- The callback of the cache clears the slot of what the cache drops. -/
theorem SlotsOk.popActive_eq (h : SlotsOk s) : s.popActive loraId = dropActive s loraId := by
  unfold popActive
  split
  · unfold clearSlot dropActive
    rw [set_idxOf_eq_freeSlot (h.count_le loraId)]
  · rename_i hid
    exact (h.dropActive_of_not_mem hid).symm

/-- The slot is cleared twice. -/
theorem SlotsOk.deactivateAdapter_eq (h : SlotsOk s) :
    s.deactivateAdapter loraId = dropActive s loraId := by
  unfold deactivateAdapter
  split
  · rename_i hid
    have hclear : s.clearSlot loraId =
        { s with loraIndexToId := freeSlot s.loraIndexToId loraId } := by
      unfold clearSlot
      rw [set_idxOf_eq_freeSlot (h.count_le loraId)]
    have hnot := not_mem_freeSlot s.loraIndexToId loraId
    rw [hclear]
    unfold popActive
    rw [if_pos hid]
    unfold clearSlot dropActive
    dsimp only
    rw [idxOf_eq_length hnot, set_eq_of_length_le (Nat.le_refl _)]
  · rename_i hid
    exact (h.dropActive_of_not_mem hid).symm

theorem LoRAInv.popRegistered_eq (h : LoRAInv cfg s) :
    s.popRegistered loraId = dropRegistered s loraId := by
  unfold popRegistered
  split
  · have hok : SlotsOk { s with
        registeredAdapters := s.registeredAdapters.delItem loraId } :=
      ⟨h.slots, h.nodup, h.pinned⟩
    rw [hok.deactivateAdapter_eq]
    rfl
  · rename_i hid
    have hpinned : loraId ∉ s.registeredAdapters.pinned :=
      fun hp => hid (h.registeredPinned loraId hp)
    unfold dropRegistered delItem
    rw [h.dropActive_of_not_mem fun hactive => hid (h.registered loraId hactive),
      filter_ne_of_not_mem hid, filter_ne_of_not_mem hpinned]

/-- When there are fewer active adapters than slots, one of them is free. -/
theorem LoRAInv.none_mem (h : LoRAInv cfg s)
    (hlt : s.activeAdapters.order.length < cfg.maxLoras) : none ∈ s.loraIndexToId := by
  by_contra hnone
  have hmap : s.loraIndexToId = (s.loraIndexToId.filterMap id).map some := by
    have hall : ∀ l : List (Option Nat), none ∉ l → l = (l.filterMap id).map some := by
      intro l
      induction l with
      | nil => simp
      | cons x l ih =>
        intro hl
        cases x with
        | none => simp at hl
        | some k => simpa using ih fun hm => hl (mem_cons_of_mem _ hm)
    exact hall _ hnone
  have hperm : (s.loraIndexToId.filterMap id).Perm s.activeAdapters.order := by
    apply perm_iff_count.mpr
    intro k
    have hcount := h.slots k
    rw [hmap, count_map_of_injective _ some (Option.some_injective _)] at hcount
    rw [hcount]
    split
    · rename_i hk
      exact (count_eq_one_of_mem h.nodup hk).symm
    · rename_i hk
      exact (count_eq_zero.mpr hk).symm
  have hlength := hperm.length_eq
  have hslots := congrArg List.length hmap
  rw [length_map, h.length] at hslots
  omega

/-! ### What keeps the invariant -/

theorem LoRAInv.dropActive (h : LoRAInv cfg s) (loraId : Nat) :
    LoRAInv cfg (dropActive s loraId) where
  __ := h
  slots k := by
    change (freeSlot s.loraIndexToId loraId).count (some k) =
      if k ∈ (s.activeAdapters.delItem loraId).order then 1 else 0
    by_cases hk : k = loraId
    · subst hk
      rw [count_eq_zero.mpr (not_mem_freeSlot _ _), if_neg (by simp)]
    · rw [count_freeSlot hk, h.slots]
      simp [hk]
  nodup := nodup_delItem h.nodup
  pinned k hk := by
    obtain ⟨hk, hne⟩ := mem_pinned_delItem.mp hk
    exact mem_order_delItem.mpr ⟨h.pinned k hk, hne⟩
  length := by
    change (freeSlot s.loraIndexToId loraId).length = cfg.maxLoras
    rw [freeSlot, length_map, h.length]
  registered k hk := h.registered k (mem_order_delItem.mp hk).1
  pins k hk := h.pins k (mem_pinned_delItem.mp hk).1

theorem LoRAInv.dropRegistered (h : LoRAInv cfg s) (loraId : Nat) :
    LoRAInv cfg (dropRegistered s loraId) where
  __ := h
  toSlotsOk := ⟨(h.dropActive loraId).slots, (h.dropActive loraId).nodup,
    (h.dropActive loraId).pinned⟩
  length := (h.dropActive loraId).length
  registered k hk := by
    obtain ⟨hk, hne⟩ := mem_order_delItem.mp hk
    exact mem_order_delItem.mpr ⟨h.registered k hk, hne⟩
  registeredNodup := nodup_delItem h.registeredNodup
  registeredLe := (length_filter_le ..).trans h.registeredLe
  registeredPinned k hk := by
    obtain ⟨hk, hne⟩ := mem_pinned_delItem.mp hk
    exact mem_order_delItem.mpr ⟨h.registeredPinned k hk, hne⟩
  pins k hk := by
    obtain ⟨hk, hne⟩ := mem_pinned_delItem.mp hk
    exact mem_pinned_delItem.mpr ⟨h.pins k hk, hne⟩

/-- An adapter is used again. -/
theorem LoRAInv.touchActive (h : LoRAInv cfg s) (hid : loraId ∈ s.activeAdapters.order) :
    LoRAInv cfg { s with activeAdapters := s.activeAdapters.touch loraId } where
  __ := h
  slots k := by
    rw [h.slots]
    by_cases hk : k = loraId
    · simp [hk, hid]
    · simp [hk]
  nodup := nodup_touch h.nodup
  pinned k hk := mem_order_touch.mpr (.inl (h.pinned k hk))
  registered k hk := by
    rcases mem_order_touch.mp hk with hk | rfl
    · exact h.registered k hk
    · exact h.registered k hid

/-- An adapter is registered, or used again. -/
theorem LoRAInv.touchRegistered (h : LoRAInv cfg s)
    (hroom : (s.registeredAdapters.touch loraId).order.length ≤ cfg.maxCpuLoras) :
    LoRAInv cfg { s with registeredAdapters := s.registeredAdapters.touch loraId } where
  __ := h
  toSlotsOk := ⟨h.slots, h.nodup, h.pinned⟩
  registered k hk := mem_order_touch.mpr (.inl (h.registered k hk))
  registeredNodup := nodup_touch h.registeredNodup
  registeredLe := hroom
  registeredPinned k hk := mem_order_touch.mpr (.inl (h.registeredPinned k hk))

theorem LoRAInv.place (h : LoRAInv cfg s) (hid : loraId ∉ s.activeAdapters.order)
    (hregistered : loraId ∈ s.registeredAdapters.order) (hnone : none ∈ s.loraIndexToId) :
    LoRAInv cfg (place s loraId) where
  __ := h
  slots k := by
    change (s.loraIndexToId.set (s.loraIndexToId.idxOf none) (some loraId)).count (some k) =
      if k ∈ (s.activeAdapters.touch loraId).order then 1 else 0
    rw [count_set_none hnone, h.slots]
    by_cases hk : k = loraId
    · simp [hk, hid]
    · simp [hk]
  nodup := nodup_touch h.nodup
  pinned k hk := mem_order_touch.mpr (.inl (h.pinned k hk))
  length := by
    change (s.loraIndexToId.set (s.loraIndexToId.idxOf none) (some loraId)).length = cfg.maxLoras
    rw [length_set, h.length]
  registered k hk := by
    rcases mem_order_touch.mp hk with hk | rfl
    · exact mem_order_touch.mpr (.inl (h.registered k hk))
    · exact mem_order_touch.mpr (.inr rfl)
  registeredNodup := nodup_touch h.registeredNodup
  registeredLe := by
    change (s.registeredAdapters.touch loraId).order.length ≤ cfg.maxCpuLoras
    rw [length_touch_of_mem h.registeredNodup hregistered]
    exact h.registeredLe
  registeredPinned k hk := mem_order_touch.mpr (.inl (h.registeredPinned k hk))

/-- There are not more active adapters than slots. -/
theorem LoRAInv.activeLe (h : LoRAInv cfg s) : s.activeAdapters.order.length ≤ cfg.maxLoras := by
  have hsub : s.activeAdapters.order.map some ⊆ s.loraIndexToId := by
    intro x hx
    obtain ⟨k, hk, rfl⟩ := mem_map.mp hx
    apply count_pos_iff.mp
    rw [h.slots, if_pos hk]
    exact Nat.one_pos
  have hle := (subperm_of_subset (h.nodup.map (Option.some_injective _)) hsub).length_le
  rw [length_map, h.length] at hle
  exact hle

end Slots

/-! ### The calls -/

section Calls
variable {cfg : LoRAConfig} {s : LoRAState} {loraId : Nat}

/-- How an adapter becomes active: it is already, there is a free slot, an adapter that is not pinned
leaves its slot, or there is none of these. -/
inductive Activates (cfg : LoRAConfig) (s : LoRAState) (loraId : Nat) : CallResult → Prop where
  | again (h : loraId ∈ s.activeAdapters.order) : Activates cfg s loraId
      ({ s with activeAdapters := s.activeAdapters.touch loraId }, none)
  | free (h : loraId ∉ s.activeAdapters.order)
      (hlt : s.activeAdapters.order.length < cfg.maxLoras) :
      Activates cfg s loraId (place s loraId, none)
  | evict {k : Nat} (h : loraId ∉ s.activeAdapters.order)
      (hfull : cfg.maxLoras ≤ s.activeAdapters.order.length)
      (hk : s.activeAdapters.lruKey = some k) :
      Activates cfg s loraId (place (dropActive s k) loraId, none)
  | fails (e : PyError) (h : loraId ∉ s.activeAdapters.order)
      (hfull : cfg.maxLoras ≤ s.activeAdapters.order.length)
      (hk : s.activeAdapters.lruKey = none) : Activates cfg s loraId (s, some e)

/-- An adapter in a free slot. -/
theorem activateInSlot_eq (hid : loraId ∉ s.activeAdapters.order)
    (hregistered : loraId ∈ s.registeredAdapters.order) (hnone : none ∈ s.loraIndexToId) :
    s.activateInSlot loraId = (place s loraId, none) := by
  unfold activateInSlot
  rw [if_neg hid, if_pos hnone]
  dsimp only
  rw [if_pos hregistered]
  rfl

theorem place_touch : ({ place s loraId with
    activeAdapters := (place s loraId).activeAdapters.touch loraId } : LoRAState) =
    place s loraId := by
  unfold place
  dsimp only
  rw [touch_touch]

theorem activateAdapter_spec (h : LoRAInv cfg s)
    (hregistered : loraId ∈ s.registeredAdapters.order) :
    Activates cfg s loraId (s.activateAdapter cfg loraId) := by
  unfold activateAdapter
  by_cases hid : loraId ∈ s.activeAdapters.order
  · rw [if_neg fun hn => hn.1 hid]
    unfold activateInSlot
    dsimp only
    rw [if_pos hid]
    exact .again hid
  · by_cases hfull : cfg.maxLoras ≤ s.activeAdapters.order.length
    · rw [if_pos ⟨hid, hfull⟩]
      unfold removeOldestActive
      cases hk : s.activeAdapters.lruKey with
      | none =>
        have hne : s.activeAdapters.order ≠ [] := by
          intro hempty
          rw [hempty] at hfull
          exact absurd (cfg.pos.trans hfull) (by decide)
        rw [if_neg hne]
        exact .fails _ hid hfull hk
      | some k =>
        obtain ⟨hmem, -⟩ := lruKey_spec hk
        rw [if_neg (ne_nil_of_mem hmem)]
        dsimp only
        rw [h.popActive_eq]
        have hinv := h.dropActive k
        have hlt : (dropActive s k).activeAdapters.order.length < cfg.maxLoras :=
          (length_delItem_lt hmem).trans_le h.activeLe
        have hid' : loraId ∉ (dropActive s k).activeAdapters.order :=
          fun hm => hid (mem_order_delItem.mp hm).1
        rw [activateInSlot_eq hid' hregistered (hinv.none_mem hlt)]
        dsimp only
        rw [place_touch]
        exact .evict hid hfull hk
    · rw [if_neg fun hn => hfull hn.2]
      dsimp only
      have hlt : s.activeAdapters.order.length < cfg.maxLoras := Nat.lt_of_not_le hfull
      rw [activateInSlot_eq hid hregistered (h.none_mem hlt)]
      dsimp only
      rw [place_touch]
      exact .free hid hlt

/-- What a call leaves as it is. -/
structure Keeps (s s' : LoRAState) : Prop where
  activePinned : s'.activeAdapters.pinned = s.activeAdapters.pinned
  registeredPinned : s'.registeredAdapters.pinned = s.registeredAdapters.pinned
  lastMapping : s'.lastMapping = s.lastMapping
  metadata : s'.metadata = s.metadata

theorem Keeps.refl (s : LoRAState) : Keeps s s := ⟨rfl, rfl, rfl, rfl⟩

theorem Keeps.trans {s s' s'' : LoRAState} (h : Keeps s s') (h' : Keeps s' s'') : Keeps s s'' :=
  ⟨h'.activePinned.trans h.activePinned, h'.registeredPinned.trans h.registeredPinned,
    h'.lastMapping.trans h.lastMapping, h'.metadata.trans h.metadata⟩

theorem keeps_dropActive (hpinned : loraId ∉ s.activeAdapters.pinned) :
    Keeps s (dropActive s loraId) :=
  ⟨filter_ne_of_not_mem hpinned, rfl, rfl, rfl⟩

theorem keeps_dropRegistered (h : LoRAInv cfg s)
    (hpinned : loraId ∉ s.registeredAdapters.pinned) : Keeps s (dropRegistered s loraId) :=
  ⟨filter_ne_of_not_mem fun hk => hpinned (h.pins loraId hk), filter_ne_of_not_mem hpinned, rfl,
    rfl⟩

theorem Activates.inv {r : CallResult} (h : LoRAInv cfg s)
    (hregistered : loraId ∈ s.registeredAdapters.order) (hr : Activates cfg s loraId r) :
    LoRAInv cfg r.1 ∧ Keeps s r.1 ∧ (r.2 = none → loraId ∈ r.1.activeAdapters.order) := by
  cases hr with
  | again hid => exact ⟨h.touchActive hid, ⟨rfl, rfl, rfl, rfl⟩, fun _ => by simp⟩
  | free hid hlt =>
    exact ⟨h.place hid hregistered (h.none_mem hlt), ⟨rfl, rfl, rfl, rfl⟩,
      fun _ => by simp [place]⟩
  | @evict k hid hfull hk =>
    obtain ⟨hmem, hpinned⟩ := lruKey_spec hk
    have hinv := h.dropActive k
    have hlt := (length_delItem_lt hmem).trans_le h.activeLe
    refine ⟨hinv.place ?_ hregistered (hinv.none_mem hlt),
      (keeps_dropActive hpinned).trans ⟨rfl, rfl, rfl, rfl⟩, fun _ => by simp [place]⟩
    exact fun hm => hid (mem_order_delItem.mp hm).1
  | fails e hid hfull hk => exact ⟨h, Keeps.refl s, nofun⟩

/-- How an adapter comes to memory: it is already there, there is room, or an adapter that is not
pinned leaves. -/
inductive Registers (cfg : LoRAConfig) (s : LoRAState) (loraId : Nat) : LoRAState → Prop where
  | again (h : loraId ∈ s.registeredAdapters.order) : Registers cfg s loraId
      { s with registeredAdapters := s.registeredAdapters.touch loraId }
  | room (h : loraId ∉ s.registeredAdapters.order)
      (hlt : s.registeredAdapters.order.length < cfg.maxCpuLoras) : Registers cfg s loraId
      { s with registeredAdapters := s.registeredAdapters.touch loraId }
  | evict {k : Nat} (h : loraId ∉ s.registeredAdapters.order)
      (hfull : cfg.maxCpuLoras ≤ s.registeredAdapters.order.length)
      (hk : s.registeredAdapters.lruKey = some k) : Registers cfg s loraId
      { dropRegistered s k with
        registeredAdapters := (dropRegistered s k).registeredAdapters.touch loraId }

/-- An adapter is added by registering and activating it, or the state stays as it is. -/
theorem addAdapter_spec (h : LoRAInv cfg s) (r : LoRARequest) :
    (∃ e, s.addAdapter cfg r = (s, some e)) ∨
      ∃ s1, Registers cfg s r.loraIntId s1 ∧
        s.addAdapter cfg r = s1.activateAdapter cfg r.loraIntId := by
  unfold addAdapter
  by_cases hid : r.loraIntId ∈ s.registeredAdapters.order
  · rw [if_neg (not_not_intro hid)]
    exact .inr ⟨_, .again hid, rfl⟩
  · rw [if_pos hid]
    by_cases hloads : r.loads = false
    · rw [if_pos hloads]
      exact .inl ⟨_, rfl⟩
    · rw [if_neg hloads]
      by_cases hfull : cfg.maxCpuLoras < s.registeredAdapters.order.length + 1
      · rw [if_pos hfull]
        have hne : s.registeredAdapters.order ≠ [] := by
          intro hempty
          rw [hempty, length_nil] at hfull
          have := cfg.pos
          have := cfg.le
          omega
        unfold removeOldestAdapter
        rw [if_neg hne]
        cases hk : s.registeredAdapters.lruKey with
        | none => exact .inl ⟨_, rfl⟩
        | some k =>
          dsimp only
          rw [h.popRegistered_eq]
          exact .inr ⟨_, .evict hid (Nat.le_of_lt_succ hfull) hk, rfl⟩
      · rw [if_neg hfull]
        exact .inr ⟨_, .room hid (by omega), rfl⟩

theorem Registers.inv {s1 : LoRAState} (h : LoRAInv cfg s) (hr : Registers cfg s loraId s1) :
    LoRAInv cfg s1 ∧ Keeps s s1 ∧ loraId ∈ s1.registeredAdapters.order := by
  cases hr with
  | again hid =>
    refine ⟨h.touchRegistered ?_, ⟨rfl, rfl, rfl, rfl⟩, by simp⟩
    rw [length_touch_of_mem h.registeredNodup hid]
    exact h.registeredLe
  | room hid hlt =>
    refine ⟨h.touchRegistered ?_, ⟨rfl, rfl, rfl, rfl⟩, by simp⟩
    rw [length_touch_of_not_mem hid]
    exact hlt
  | @evict k hid hfull hk =>
    obtain ⟨hmem, hpinned⟩ := lruKey_spec hk
    refine ⟨(h.dropRegistered k).touchRegistered ?_,
      (keeps_dropRegistered h hpinned).trans ⟨rfl, rfl, rfl, rfl⟩, by simp⟩
    have hnot : loraId ∉ (s.registeredAdapters.delItem k).order :=
      fun hm => hid (mem_order_delItem.mp hm).1
    exact (length_touch_of_not_mem hnot).trans_le ((length_delItem_lt hmem).trans_le h.registeredLe)

/-- What a call that only adds adapters keeps, whether it raises or not. -/
theorem addAdapter_inv (h : LoRAInv cfg s) (r : LoRARequest) :
    LoRAInv cfg (s.addAdapter cfg r).1 ∧ Keeps s (s.addAdapter cfg r).1 := by
  rcases addAdapter_spec h r with ⟨e, heq⟩ | ⟨s1, hr, heq⟩
  · rw [heq]
    exact ⟨h, Keeps.refl s⟩
  · obtain ⟨h1, hkeeps, hregistered⟩ := hr.inv h
    obtain ⟨h2, hkeeps2, -⟩ := (activateAdapter_spec h1 hregistered).inv h1 hregistered
    rw [heq]
    exact ⟨h2, hkeeps.trans hkeeps2⟩

/-! ### The adapters of a call -/

section Recent
variable {ids done : List Nat}

/-- What has been requested before stays in memory, and in its slot. -/
theorem Registers.recent {s1 : LoRAState} (h : LoRAInv cfg s) (hr : Registers cfg s loraId s1)
    (hcard : (ids.toFinset ∪ s.registeredAdapters.pinned.toFinset).card ≤ cfg.maxCpuLoras)
    (hids : ∀ k ∈ done, k ∈ ids) (hin : loraId ∈ ids) (hnew : loraId ∉ done)
    (hactive : done <:+ s.activeAdapters.order) (hregistered : done <:+ s.registeredAdapters.order) :
    done <:+ s1.activeAdapters.order ∧ done ++ [loraId] <:+ s1.registeredAdapters.order := by
  cases hr with
  | again hid => exact ⟨hactive, recent_touch hregistered hnew⟩
  | room hid hlt => exact ⟨hactive, recent_touch hregistered hnew⟩
  | @evict k hid hfull hk =>
    obtain ⟨x, hx, hpinned, hother⟩ := exists_other h.registeredNodup hid hfull hcard hids hin
    obtain ⟨k', hk', hnot⟩ := lruKey_not_mem h.registeredNodup hregistered hx hpinned hother
    rw [hk] at hk'
    cases hk'
    exact ⟨recent_delItem hactive hnot, recent_touch (recent_delItem hregistered hnot) hnew⟩

theorem Activates.recent {r : CallResult} (h : LoRAInv cfg s) (hr : Activates cfg s loraId r)
    (hcard : (ids.toFinset ∪ s.activeAdapters.pinned.toFinset).card ≤ cfg.maxLoras)
    (hids : ∀ k ∈ done, k ∈ ids) (hin : loraId ∈ ids) (hnew : loraId ∉ done)
    (hactive : done <:+ s.activeAdapters.order)
    (hregistered : done ++ [loraId] <:+ s.registeredAdapters.order) (hnone : r.2 = none) :
    done ++ [loraId] <:+ r.1.activeAdapters.order ∧
      done ++ [loraId] <:+ r.1.registeredAdapters.order := by
  have hlast : done ++ [loraId] <:+ (s.registeredAdapters.touch loraId).order := by
    rw [touch_last h.registeredNodup hregistered]
    exact hregistered
  cases hr with
  | again hid => exact ⟨recent_touch hactive hnew, hregistered⟩
  | free hid hlt => exact ⟨recent_touch hactive hnew, hlast⟩
  | @evict k hid hfull hk =>
    obtain ⟨x, hx, hpinned, hother⟩ := exists_other h.nodup hid hfull hcard hids hin
    obtain ⟨k', hk', hnot⟩ := lruKey_not_mem h.nodup hactive hx hpinned hother
    rw [hk] at hk'
    cases hk'
    exact ⟨recent_touch (recent_delItem hactive hnot) hnew, hlast⟩
  | fails e hid hfull hk => cases hnone

end Recent

/-- The loop keeps what one turn keeps. -/
theorem addAdapters_inv (h : LoRAInv cfg s) (loras : List LoRARequest) :
    LoRAInv cfg (addAdapters cfg s loras).1 ∧ Keeps s (addAdapters cfg s loras).1 := by
  induction loras generalizing s with
  | nil => exact ⟨h, Keeps.refl s⟩
  | cons r loras ih =>
    have hturn := addAdapter_inv h r
    unfold addAdapters
    split
    · rename_i s1 e heq
      rw [heq] at hturn
      exact hturn
    · rename_i s1 heq
      rw [heq] at hturn
      obtain ⟨h2, hkeeps⟩ := ih hturn.1
      exact ⟨h2, hturn.2.trans hkeeps⟩

variable {loras : List LoRARequest}

/-- The adapters of a call that does not raise are the most recent ones at its end. -/
theorem addAdapters_recent {done : List Nat} (h : LoRAInv cfg s)
    (hnodup : (done ++ loras.map loraIntId).Nodup)
    (hgpu : ((done ++ loras.map loraIntId).toFinset ∪
      s.activeAdapters.pinned.toFinset).card ≤ cfg.maxLoras)
    (hcpu : ((done ++ loras.map loraIntId).toFinset ∪
      s.registeredAdapters.pinned.toFinset).card ≤ cfg.maxCpuLoras)
    (hactive : done <:+ s.activeAdapters.order)
    (hregistered : done <:+ s.registeredAdapters.order)
    (hnone : (addAdapters cfg s loras).2 = none) :
    done ++ loras.map loraIntId <:+ (addAdapters cfg s loras).1.activeAdapters.order := by
  induction loras generalizing s done with
  | nil =>
    simp only [map_nil, append_nil]
    exact hactive
  | cons r loras ih =>
    have hsplit : done ++ (r :: loras).map loraIntId =
        (done ++ [r.loraIntId]) ++ loras.map loraIntId := by simp
    have hnew : r.loraIntId ∉ done := by
      intro hm
      exact (nodup_append.mp hnodup).2.2 _ hm _ mem_cons_self rfl
    have hids : ∀ k ∈ done, k ∈ done ++ (r :: loras).map loraIntId :=
      fun k hk => mem_append_left _ hk
    have hin : r.loraIntId ∈ done ++ (r :: loras).map loraIntId :=
      mem_append_right _ mem_cons_self
    unfold addAdapters at hnone ⊢
    rcases addAdapter_spec h r with ⟨e, heq⟩ | ⟨s1, hr, heq⟩
    · rw [heq] at hnone
      cases hnone
    · obtain ⟨h1, hkeeps, hreg⟩ := hr.inv h
      obtain ⟨hactive1, hregistered1⟩ := hr.recent h hcpu hids hin hnew hactive hregistered
      have ha := activateAdapter_spec h1 hreg
      rw [heq] at hnone ⊢
      obtain ⟨h2, hkeeps2, -⟩ := ha.inv h1 hreg
      rw [← hkeeps.activePinned] at hgpu
      have hrecent := ha.recent h1 hgpu hids hin hnew hactive1 hregistered1
      cases hres : s1.activateAdapter cfg r.loraIntId with
      | mk s2 error =>
        rw [hres] at hnone hrecent h2 hkeeps2
        cases error with
        | some e => cases hnone
        | none =>
          obtain ⟨hactive2, hregistered2⟩ := hrecent rfl
          rw [hsplit] at hnodup hgpu hcpu ⊢
          rw [← hkeeps2.activePinned] at hgpu
          rw [← hkeeps.registeredPinned, ← hkeeps2.registeredPinned] at hcpu
          exact ih h2 hnodup hgpu hcpu hactive2 hregistered2 hnone

/-- When all adapters of a call are active, no slot changes. -/
theorem addAdapters_again (h : LoRAInv cfg s)
    (hall : ∀ r ∈ loras, r.loraIntId ∈ s.activeAdapters.order) :
    (addAdapters cfg s loras).1.loraIndexToId = s.loraIndexToId := by
  induction loras generalizing s with
  | nil => rfl
  | cons r loras ih =>
    have hid := hall r mem_cons_self
    have hregistered := h.registered _ hid
    have heq : s.addAdapter cfg r = ({ s with
          registeredAdapters := s.registeredAdapters.touch r.loraIntId
          activeAdapters := s.activeAdapters.touch r.loraIntId }, none) := by
      unfold addAdapter activateAdapter activateInSlot
      rw [if_neg (not_not_intro hregistered), if_neg fun hn => hn.1 hid]
      dsimp only
      rw [if_pos hid]
    have hinv := (addAdapter_inv h r).1
    unfold addAdapters
    rw [heq] at hinv ⊢
    dsimp only
    rw [ih hinv fun r' hr' => mem_order_touch.mpr (.inl (hall r' (mem_cons_of_mem _ hr')))]

theorem lorasMap_spec (requests : List LoRARequest) (d : PyDict Nat LoRARequest)
    (hkeyed : ∀ k r, d.get? k = some r → r.loraIntId = k) :
    (∀ k r, (requests.foldl (fun d r => d.insert r.loraIntId r) d).get? k = some r →
      r.loraIntId = k) ∧
    ∀ k, k ∈ (requests.foldl (fun d r => d.insert r.loraIntId r) d).keys ↔
      k ∈ d.keys ∨ k ∈ requests.map loraIntId := by
  induction requests generalizing d with
  | nil => exact ⟨hkeyed, fun k => by simp⟩
  | cons r requests ih =>
    have hins : ∀ k r', (d.insert r.loraIntId r).get? k = some r' → r'.loraIntId = k := by
      intro k r' hget
      rw [PyDict.get?_insert] at hget
      split at hget
      · rename_i hk
        rw [← Option.some.inj hget, hk]
      · exact hkeyed k r' hget
    obtain ⟨hk, hmem⟩ := ih _ hins
    refine ⟨hk, fun k => ?_⟩
    rw [foldl_cons, hmem, PyDict.mem_keys_iff, PyDict.mem_keys_iff, PyDict.get?_insert,
      map_cons, mem_cons]
    by_cases hkr : k = r.loraIntId <;> simp [hkr]

/-- The adapters of the loop are those of the call, each once. -/
theorem map_values_lorasMap (requests : List LoRARequest) :
    (lorasMap requests).values.map loraIntId = (lorasMap requests).keys := by
  have hkeyed := (lorasMap_spec requests .empty (by simp)).1
  unfold PyDict.values PyDict.keys
  rw [map_map]
  apply map_congr_left
  rintro ⟨k, r⟩ he
  exact hkeyed k r (((lorasMap requests).mem_entries_iff k r).mp he)

variable {requests : List LoRARequest}

theorem mem_keys_lorasMap {k : Nat} :
    k ∈ (lorasMap requests).keys ↔ k ∈ requests.map loraIntId := by
  have hmem := (lorasMap_spec requests .empty (by simp)).2 k
  unfold lorasMap
  rw [hmem]
  simp

/-- The adapters of a call. -/
def requested (requests : List LoRARequest) : Finset Nat :=
  (requests.map loraIntId).toFinset

theorem toFinset_lorasMap (requests : List LoRARequest) :
    ((lorasMap requests).values.map loraIntId).toFinset = requested requests := by
  rw [map_values_lorasMap]
  ext k
  rw [requested, mem_toFinset, mem_toFinset, mem_keys_lorasMap]

theorem applyAdapters_inv (h : LoRAInv cfg s) (requests : List LoRARequest) :
    LoRAInv cfg (s.applyAdapters cfg requests).1 ∧ Keeps s (s.applyAdapters cfg requests).1 := by
  unfold applyAdapters
  split
  · exact ⟨h, Keeps.refl s⟩
  · exact addAdapters_inv h _

/-- All requested adapters are active, if they and the pinned ones fit. -/
theorem applyAdapters_active (h : LoRAInv cfg s)
    (hgpu : (requested requests ∪ s.activeAdapters.pinned.toFinset).card ≤ cfg.maxLoras)
    (hcpu : (requested requests ∪ s.registeredAdapters.pinned.toFinset).card ≤ cfg.maxCpuLoras)
    (hnone : (s.applyAdapters cfg requests).2 = none) :
    ∀ k ∈ requested requests, k ∈ (s.applyAdapters cfg requests).1.activeAdapters.order := by
  unfold applyAdapters at hnone ⊢
  split at hnone
  · cases hnone
  · rename_i hlarge
    rw [if_neg hlarge]
    have hnodup : ([] ++ (lorasMap requests).values.map loraIntId).Nodup := by
      rw [nil_append, map_values_lorasMap]
      exact (lorasMap requests).nodup
    rw [← toFinset_lorasMap] at hgpu hcpu
    have hrecent := addAdapters_recent h hnodup hgpu hcpu (nil_suffix ..)
      (nil_suffix ..) hnone
    intro k hk
    rw [← toFinset_lorasMap, mem_toFinset] at hk
    exact hrecent.mem hk

theorem applyAdapters_again (h : LoRAInv cfg s)
    (hall : ∀ k ∈ requested requests, k ∈ s.activeAdapters.order) :
    (s.applyAdapters cfg requests).1.loraIndexToId = s.loraIndexToId := by
  unfold applyAdapters
  split
  · rfl
  · apply addAdapters_again h
    intro r hr
    apply hall
    rw [← toFinset_lorasMap, mem_toFinset]
    exact mem_map_of_mem hr

theorem removeAdapter_inv (h : LoRAInv cfg s) (adapterId : Nat) :
    LoRAInv cfg (s.removeAdapter adapterId) ∧
      s.removeAdapter adapterId = dropRegistered (dropActive s adapterId) adapterId := by
  have hdrop := h.dropActive adapterId
  unfold removeAdapter
  rw [h.deactivateAdapter_eq, hdrop.popRegistered_eq]
  exact ⟨hdrop.dropRegistered adapterId, rfl⟩

/-- A registered adapter is pinned in memory. -/
theorem LoRAInv.addPinRegistered (h : LoRAInv cfg s) (hid : loraId ∈ s.registeredAdapters.order) :
    LoRAInv cfg { s with registeredAdapters := s.registeredAdapters.addPin loraId } where
  __ := h
  toSlotsOk := ⟨h.slots, h.nodup, h.pinned⟩
  registeredPinned k hk := by
    rcases mem_pinned_addPin.mp hk with hk | rfl
    · exact h.registeredPinned k hk
    · exact hid
  pins k hk := mem_pinned_addPin.mpr (.inl (h.pins k hk))

/-- An active adapter is pinned in its slot. -/
theorem LoRAInv.addPinActive (h : LoRAInv cfg s) (hid : loraId ∈ s.activeAdapters.order)
    (hpinned : loraId ∈ s.registeredAdapters.pinned) :
    LoRAInv cfg { s with activeAdapters := s.activeAdapters.addPin loraId } where
  __ := h
  pinned k hk := by
    rcases mem_pinned_addPin.mp hk with hk | rfl
    · exact h.pinned k hk
    · exact hid
  pins k hk := by
    rcases mem_pinned_addPin.mp hk with hk | rfl
    · exact h.pins k hk
    · exact hpinned

/-- Pinning keeps what is pinned. -/
theorem pinAdapter_inv (h : LoRAInv cfg s) (loraId : Nat) :
    LoRAInv cfg (s.pinAdapter cfg loraId).1 ∧
      ∀ k ∈ s.activeAdapters.pinned, k ∈ (s.pinAdapter cfg loraId).1.activeAdapters.pinned := by
  unfold pinAdapter
  by_cases hid : loraId ∈ s.registeredAdapters.order
  · rw [if_pos hid]
    have h1 := h.addPinRegistered hid
    have hpinned : loraId ∈ (s.registeredAdapters.addPin loraId).pinned :=
      mem_pinned_addPin.mpr (.inr rfl)
    dsimp only
    by_cases hactive : loraId ∈ s.activeAdapters.order
    · rw [if_pos hactive]
      exact ⟨h1.addPinActive hactive hpinned, fun k hk => mem_pinned_addPin.mpr (.inl hk)⟩
    · rw [if_neg hactive]
      obtain ⟨h2, hkeeps, hnone⟩ := (activateAdapter_spec h1 hid).inv h1 hid
      cases hres : activateAdapter cfg
          { s with registeredAdapters := s.registeredAdapters.addPin loraId } loraId with
      | mk s2 error =>
        rw [hres] at h2 hkeeps hnone
        have hkept : ∀ k ∈ s.activeAdapters.pinned, k ∈ s2.activeAdapters.pinned := by
          intro k hk
          exact hkeeps.activePinned.symm ▸ hk
        cases error with
        | some e => exact ⟨h2, hkept⟩
        | none =>
          refine ⟨h2.addPinActive (hnone rfl) ?_, fun k hk =>
            mem_pinned_addPin.mpr (.inl (hkept k hk))⟩
          exact hkeeps.registeredPinned.symm ▸ hpinned
  · rw [if_neg hid]
    exact ⟨h, fun k hk => hk⟩

end Calls

/-! ### What the kernels are told -/

/-- A token of an adapter goes to the slot of the adapter, and another one to no slot. -/
def SendsTo (slots : List (Option Nat)) (x : Nat) (index : Int) : Prop :=
  if 0 < x then 0 ≤ index ∧ slots[index.toNat]? = some (some x) else index = -1

instance (slots : List (Option Nat)) (x : Nat) (index : Int) : Decidable (SendsTo slots x index) :=
  inferInstanceAs (Decidable (if 0 < x then _ else _))

/-- All tokens and all prompts of a mapping go to their slots. -/
def Sends (slots : List (Option Nat)) (mapping : LoRAMapping) (metadata : PunicaMetadata) : Prop :=
  List.Forall₂ (SendsTo slots) mapping.indexMapping metadata.tokenLoraIndices ∧
    List.Forall₂ (SendsTo slots) mapping.promptMapping metadata.samplerIndices

instance (slots : List (Option Nat)) (mapping : LoRAMapping) (metadata : PunicaMetadata) :
    Decidable (Sends slots mapping metadata) := inferInstanceAs (Decidable (_ ∧ _))

theorem sendsTo_slotOf {x : Nat} {index : Int} (h : slotOf slots x = .ok index) :
    SendsTo slots x index := by
  unfold slotOf at h
  unfold SendsTo
  by_cases hx : 0 < x
  · rw [if_pos hx] at h ⊢
    split at h
    · rename_i hmem
      cases h
      exact ⟨Int.natCast_nonneg _, by simp [List.getElem?_idxOf hmem]⟩
    · cases h
  · rw [if_neg hx] at h ⊢
    cases h
    rfl

theorem sendsTo_mapM {ids : List Nat} {indices : List Int}
    (h : ids.mapM (slotOf slots) = .ok indices) : List.Forall₂ (SendsTo slots) ids indices :=
  (mapM_eq_ok_iff.mp h).imp fun _ _ => sendsTo_slotOf

theorem sends_convertMapping {mapping : LoRAMapping} {metadata : PunicaMetadata}
    (h : convertMapping mapping slots = .ok metadata) :
    Sends slots mapping metadata := by
  unfold convertMapping at h
  obtain ⟨prompts, hprompts, h⟩ := bind_ok h
  obtain ⟨tokens, htokens, h⟩ := bind_ok h
  cases h
  exact ⟨sendsTo_mapM htokens, sendsTo_mapM hprompts⟩

/-- The kernels have been told where the adapters of a mapping are now. -/
def Told (s : LoRAState) (mapping : LoRAMapping) : Prop :=
  ∃ metadata ∈ s.metadata, Sends s.loraIndexToId mapping metadata

instance (s : LoRAState) (mapping : LoRAMapping) : Decidable (Told s mapping) :=
  inferInstanceAs (Decidable (∃ metadata ∈ s.metadata, _))

section Runs
variable {cfg : LoRAConfig} {s : LoRAState}

/-- The call does not remove a pinned adapter. The adapters it requests fit into the slots and into
memory beside the pinned ones; and when the kernels are not told anything in it, they have been told
the slots, and nothing is activated. -/
def Fits (cfg : LoRAConfig) (s : LoRAState) : LoRAOp → Prop
  | .removeAdapter adapterId => adapterId ∉ s.activeAdapters.pinned
  | .setActiveAdapters requests mapping =>
    (requested requests ∪ s.activeAdapters.pinned.toFinset).card ≤ cfg.maxLoras ∧
      (requested requests ∪ s.registeredAdapters.pinned.toFinset).card ≤ cfg.maxCpuLoras ∧
      (mapping = none ∨ mapping = s.lastMapping → ∀ last ∈ s.lastMapping,
        (∀ k ∈ requested requests, k ∈ s.activeAdapters.order) ∧ Told s last)
  | _ => True

instance (cfg : LoRAConfig) (s : LoRAState) (op : LoRAOp) : Decidable (Fits cfg s op) := by
  cases op <;> unfold Fits <;> infer_instance

/-- Each active adapter has one slot, and each slot in use has an active adapter. -/
structure SlotsMatch (s : LoRAState) : Prop where
  slot : ∀ k ∈ s.activeAdapters.order, s.loraIndexToId.count (some k) = 1
  active : ∀ k, some k ∈ s.loraIndexToId → k ∈ s.activeAdapters.order
  registered : ∀ k ∈ s.activeAdapters.order, k ∈ s.registeredAdapters.order
  pinned : ∀ k ∈ s.activeAdapters.pinned, k ∈ s.activeAdapters.order

/-- What a call promises about the pinned and about the requested adapters. -/
structure CallOk (cfg : LoRAConfig) (s : LoRAState) (op : LoRAOp) : Prop where
  pinned : ∀ k ∈ s.activeAdapters.pinned,
    k ∈ (s.call cfg op).1.activeAdapters.pinned ∧ k ∈ (s.call cfg op).1.activeAdapters.order
  requested : ∀ requests mapping, op = .setActiveAdapters requests mapping →
    (s.call cfg op).2 = none →
      (∀ k ∈ requested requests, k ∈ (s.call cfg op).1.activeAdapters.order) ∧
        ∀ m ∈ mapping.or s.lastMapping, Told (s.call cfg op).1 m

theorem LoRAInv.slotsMatch (h : LoRAInv cfg s) : SlotsMatch s where
  __ := h
  slot k hk := by rw [h.slots, if_pos hk]
  active k hk := by
    by_contra hnot
    have hcount := h.slots k
    rw [if_neg hnot] at hcount
    exact count_eq_zero.mp hcount hk

theorem loraInv_init (cfg : LoRAConfig) : LoRAInv cfg (init cfg) where
  slots k := by simp [init, count_replicate]
  nodup := nodup_nil
  pinned _ hk := absurd hk not_mem_nil
  length := by simp [init]
  registered _ hk := absurd hk not_mem_nil
  registeredNodup := nodup_nil
  registeredLe := Nat.zero_le _
  registeredPinned _ hk := absurd hk not_mem_nil
  pins _ hk := absurd hk not_mem_nil
  told h := by cases h

/-- The caches and the slots do not change, and the kernels are told something new unless it is the
last mapping. -/
theorem setAdapterMapping_spec (h : LoRAInv cfg s) (mapping : LoRAMapping) :
    LoRAInv cfg (s.setAdapterMapping mapping).1 ∧
      (s.setAdapterMapping mapping).1.activeAdapters = s.activeAdapters ∧
      (s.setAdapterMapping mapping).1.loraIndexToId = s.loraIndexToId ∧
      ((s.lastMapping = some mapping → Told s mapping) →
        (s.setAdapterMapping mapping).2 = none → Told (s.setAdapterMapping mapping).1 mapping) := by
  unfold setAdapterMapping
  by_cases hlast : s.lastMapping = some mapping
  · rw [if_pos hlast]
    exact ⟨h, rfl, rfl, fun htold _ => htold hlast⟩
  · rw [if_neg hlast]
    cases hconvert : convertMapping mapping s.loraIndexToId with
    | error e => exact ⟨h, rfl, rfl, nofun⟩
    | ok metadata =>
      refine ⟨?_, rfl, rfl, fun _ _ => ⟨metadata, rfl, sends_convertMapping hconvert⟩⟩
      exact {
        toSlotsOk := ⟨h.slots, h.nodup, h.pinned⟩
        length := h.length
        registered := h.registered
        registeredNodup := h.registeredNodup
        registeredLe := h.registeredLe
        registeredPinned := h.registeredPinned
        pins := h.pins
        told := fun _ => rfl }

theorem setActiveAdapters_inv (h : LoRAInv cfg s) (requests : List LoRARequest)
    (mapping : Option LoRAMapping) :
    LoRAInv cfg (s.setActiveAdapters cfg requests mapping).1 ∧
      (s.setActiveAdapters cfg requests mapping).1.activeAdapters.pinned =
        s.activeAdapters.pinned := by
  obtain ⟨h1, hkeeps⟩ := applyAdapters_inv h requests
  unfold setActiveAdapters
  cases hres : s.applyAdapters cfg requests with
  | mk s1 error =>
    rw [hres] at h1 hkeeps
    cases error with
    | some e => exact ⟨h1, hkeeps.activePinned⟩
    | none =>
      cases mapping with
      | none => exact ⟨h1, hkeeps.activePinned⟩
      | some m =>
        obtain ⟨h2, hactive, -, -⟩ := setAdapterMapping_spec h1 m
        refine ⟨h2, ?_⟩
        dsimp only
        rw [hactive]
        exact hkeeps.activePinned

/-- The kernels stay told while no slot changes. -/
theorem Told.of_eq {s s' : LoRAState} {m : LoRAMapping} (h : Told s m)
    (hmetadata : s'.metadata = s.metadata) (hslots : s'.loraIndexToId = s.loraIndexToId) :
    Told s' m := by
  obtain ⟨metadata, hmem, hsends⟩ := h
  exact ⟨metadata, hmetadata.symm ▸ hmem, hslots.symm ▸ hsends⟩

theorem setActiveAdapters_requested {requests : List LoRARequest} {mapping : Option LoRAMapping}
    (h : LoRAInv cfg s) (hfits : Fits cfg s (.setActiveAdapters requests mapping))
    (hnone : (s.setActiveAdapters cfg requests mapping).2 = none) :
    (∀ k ∈ requested requests,
      k ∈ (s.setActiveAdapters cfg requests mapping).1.activeAdapters.order) ∧
    ∀ m ∈ mapping.or s.lastMapping, Told (s.setActiveAdapters cfg requests mapping).1 m := by
  obtain ⟨hgpu, hcpu, hsame⟩ := hfits
  obtain ⟨h1, hkeeps⟩ := applyAdapters_inv h requests
  have hactive := applyAdapters_active h hgpu hcpu
  have hagain : (∀ k ∈ requested requests, k ∈ s.activeAdapters.order) →
      (s.applyAdapters cfg requests).1.loraIndexToId = s.loraIndexToId := applyAdapters_again h
  unfold setActiveAdapters at hnone ⊢
  cases hres : s.applyAdapters cfg requests with
  | mk s1 error =>
    rw [hres] at h1 hkeeps hactive hagain hnone
    -- What has been told before is still right when nothing was activated.
    have hstill : (mapping = none ∨ mapping = s.lastMapping) → ∀ m ∈ s.lastMapping, Told s1 m := by
      intro hcase m hm
      obtain ⟨hall, htold⟩ := hsame hcase m hm
      exact htold.of_eq hkeeps.metadata (hagain hall)
    cases error with
    | some e => cases hnone
    | none =>
      cases mapping with
      | none => exact ⟨hactive rfl, hstill (.inl rfl)⟩
      | some m =>
        obtain ⟨-, hcache, -, htold⟩ := setAdapterMapping_spec h1 m
        dsimp only at hnone ⊢
        rw [hcache]
        refine ⟨hactive rfl, fun m' hm' => ?_⟩
        cases hm'
        refine htold (fun hlast => ?_) hnone
        rw [hkeeps.lastMapping] at hlast
        exact hstill (.inr hlast.symm) m hlast

theorem LoRAInv.call (h : LoRAInv cfg s) (op : LoRAOp) : LoRAInv cfg (s.call cfg op).1 := by
  cases op with
  | addAdapter loraRequest => exact (addAdapter_inv h loraRequest).1
  | removeAdapter adapterId => exact (removeAdapter_inv h adapterId).1
  | pinAdapter adapterId => exact (pinAdapter_inv h adapterId).1
  | setActiveAdapters requests mapping => exact (setActiveAdapters_inv h requests mapping).1

/-- Only a removal unpins an adapter. -/
theorem pinned_call (h : LoRAInv cfg s) {op : LoRAOp} (hfits : Fits cfg s op) :
    ∀ k ∈ s.activeAdapters.pinned, k ∈ (s.call cfg op).1.activeAdapters.pinned := by
  intro k hk
  cases op with
  | addAdapter loraRequest => exact (addAdapter_inv h loraRequest).2.activePinned.symm ▸ hk
  | removeAdapter adapterId =>
    have hne : k ≠ adapterId := fun hkr => hfits (hkr ▸ hk)
    dsimp only [LoRAState.call]
    rw [(removeAdapter_inv h adapterId).2]
    exact mem_pinned_delItem.mpr ⟨mem_pinned_delItem.mpr ⟨hk, hne⟩, hne⟩
  | pinAdapter adapterId => exact (pinAdapter_inv h adapterId).2 k hk
  | setActiveAdapters requests mapping =>
    exact (setActiveAdapters_inv h requests mapping).2.symm ▸ hk

/-- The slots are those of the active adapters in every run, and the kernels are told them. -/
theorem slotsMatch_of_run (cfg : LoRAConfig) (s : LoRAState)
    (h : Run (step cfg) (fun _ _ => True) (init cfg) s) :
    SlotsMatch s ∧ ∀ op, Fits cfg s op → CallOk cfg s op := by
  have hinv : LoRAInv cfg s := by
    refine h.invariant (LoRAInv cfg) (loraInv_init cfg) ?_
    intro s op s' hs _ hstep
    cases hstep
    exact hs.call op
  refine ⟨hinv.slotsMatch, fun op hfits => ⟨fun k hk => ?_, fun requests mapping hop hnone => ?_⟩⟩
  · have hkept := pinned_call hinv hfits k hk
    exact ⟨hkept, (hinv.call op).pinned k hkept⟩
  · cases hop
    exact setActiveAdapters_requested hinv hfits hnone

/-- Two slots, and room for four adapters in memory. -/
def twoSlots : LoRAConfig where
  maxLoras := 2
  maxCpuLoras := 4
  pos := by decide
  le := by decide

/-- A token of each of two adapters. -/
def oneOfEach : LoRAMapping where
  indexMapping := [1, 2]
  promptMapping := [1, 2]

/-- The call of a step with these tokens. -/
def both : LoRAOp := .setActiveAdapters [⟨1, true⟩, ⟨2, true⟩] (some oneOfEach)

/-- Two requested adapters, one of them pinned afterwards. -/
theorem slotsMatch_pinned : ∃ s, Run (step twoSlots) (fun _ _ => True) (init twoSlots) s ∧
    Fits twoSlots s both ∧ SlotsMatch s ∧ ∀ op, Fits twoSlots s op → CallOk twoSlots s op := by
  obtain ⟨s₀, s, hstart, hrun, hfits⟩ := exists_run_of_check (step twoSlots) (fun _ _ => True)
    (fun s => Fits twoSlots s both) (.ok (init twoSlots)) [both, .pinAdapter 1] (by decide +kernel)
  cases hstart
  exact ⟨s, hrun, hfits, slotsMatch_of_run twoSlots s hrun⟩

/-- A third adapter is added between two steps with one mapping. The two adapters change their slots,
and the kernels are not told. -/
theorem stale_mapping : ¬ ∀ (cfg : LoRAConfig) (s : LoRAState),
    Run (step cfg) (fun _ _ => True) (init cfg) s → ∀ op, CallOk cfg s op := by
  intro hall
  obtain ⟨s₀, s, hstart, hrun, hfails⟩ := exists_run_of_check (step twoSlots) (fun _ _ => True)
    (fun s => (s.call twoSlots both).2 = none ∧ ¬ Told (s.call twoSlots both).1 oneOfEach)
    (.ok (init twoSlots))
    [both, .addAdapter ⟨3, true⟩] (by decide +kernel)
  cases hstart
  exact hfails.2 (((hall twoSlots s hrun _).requested _ _ rfl hfails.1).2 oneOfEach rfl)

end Runs

end Vllm.Proofs.Lora
