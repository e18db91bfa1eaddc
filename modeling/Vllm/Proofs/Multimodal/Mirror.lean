import Vllm.Multimodal.ProcessorCache
import Vllm.Lib.Run
import Mathlib.Data.List.Nodup

/-!
# `Vllm.Proofs.Multimodal.Mirror`: the receiver cache mirrors the sender cache

Two caches mirror each other when they have the same order and the same keys with the same sizes,
whatever the values are. The operations keep this.

* `Mirrors.getAndUpdate`: what one update sends, the other one takes.
* `mirrors_merge`: a request that the sender has processed is received.
-/

set_option autoImplicit false

namespace Vllm.Proofs.Multimodal

open Vllm.Lib Vllm.Utils Vllm.Multimodal LRUCache
open List hiding contains insert erase

/-! ### Two caches -/

section Caches

variable {ν ν' : Type} {f : ν → Nat} {f' : ν' → Nat} {c : LRUCache ν} {c' : LRUCache ν'}

/-- The keys of a cache with the sizes of their values. -/
def sizes (f : ν → Nat) (c : LRUCache ν) : List (String × Nat) :=
  c.data.entries.map fun e => (e.1, f e.2)

/-- The two caches hold the same keys with the same sizes, in the same order. -/
structure Mirrors (f : ν → Nat) (f' : ν' → Nat) (c : LRUCache ν) (c' : LRUCache ν') : Prop where
  capacity : c.capacity = c'.capacity
  order : c.order = c'.order
  sizes : sizes f c = sizes f' c'

theorem lookup_map_snd {α β : Type} (g : α → β) (l : List (String × α)) (key : String) :
    (l.map fun e => (e.1, g e.2)).lookup key = (l.lookup key).map g := by
  induction l with
  | nil => rfl
  | cons e l ih =>
    rw [map_cons, PyDict.lookup_cons_ite, PyDict.lookup_cons_ite, ih]
    by_cases hkey : key = e.1 <;> simp [hkey]

theorem Mirrors.get? (h : Mirrors f f' c c') (key : String) :
    (c.data.get? key).map f = (c'.data.get? key).map f' := by
  unfold PyDict.get?
  rw [← lookup_map_snd f, ← lookup_map_snd f']
  exact congrArg (List.lookup key) h.sizes

theorem Mirrors.contains (h : Mirrors f f' c c') (key : String) :
    c.contains key = c'.contains key := by
  have hget := congrArg Option.isSome (h.get? key)
  rw [Option.isSome_map, Option.isSome_map] at hget
  exact hget

theorem Mirrors.currsize (h : Mirrors f f' c c') : c.currsize f = c'.currsize f' := by
  have hsnd := congrArg (List.map Prod.snd) h.sizes
  unfold Multimodal.sizes at hsnd
  rw [map_map, map_map] at hsnd
  unfold LRUCache.currsize PyDict.values
  rw [map_map, map_map]
  exact congrArg List.sum hsnd

theorem Mirrors.touch (h : Mirrors f f' c c') (key : String) :
    Mirrors f f' (c.touch key) (c'.touch key) := by
  refine ⟨h.capacity, ?_, h.sizes⟩
  show c.order.filter _ ++ [key] = c'.order.filter _ ++ [key]
  rw [h.order]

theorem Mirrors.delItem (h : Mirrors f f' c c') (key : String) :
    Mirrors f f' (c.delItem key) (c'.delItem key) := by
  refine ⟨h.capacity, ?_, ?_⟩
  · show c.order.filter _ = c'.order.filter _
    rw [h.order]
  · have hfilter := congrArg (List.filter fun e : String × Nat => decide (e.1 ≠ key)) h.sizes
    unfold Multimodal.sizes at hfilter ⊢
    rw [filter_map, filter_map] at hfilter
    exact hfilter

/-- Both caches make room, or neither does. -/
theorem Mirrors.makeRoom (lib : Cachetools) (size : Nat) (order : List String)
    (h : Mirrors f f' c c') :
    (c.makeRoom lib f size order).1 = (c'.makeRoom lib f' size order).1 ∧
      Mirrors f f' (c.makeRoom lib f size order).2 (c'.makeRoom lib f' size order).2 := by
  induction order generalizing c c' with
  | nil =>
    unfold makeRoom
    rw [h.capacity, h.currsize]
    split
    · exact ⟨rfl, h⟩
    · exact ⟨rfl, h⟩
  | cons lruKey order ih =>
    unfold makeRoom
    dsimp only
    rw [h.capacity, h.currsize, h.contains lruKey]
    split
    · exact ⟨rfl, h⟩
    · split
      · exact ih (h.delItem lruKey)
      · exact ⟨rfl, h⟩

variable {key : String}

theorem Mirrors.insert (h : Mirrors f f' c c') {value : ν} {value' : ν'}
    (hnew : c.contains key = false) (hsize : f value = f' value') :
    Mirrors f f' { c with data := c.data.insert key value }
      { c' with data := c'.data.insert key value' } := by
  refine ⟨h.capacity, h.order, ?_⟩
  have hnew' := h.contains key ▸ hnew
  have hkey : key ∉ c.data.keys := fun hmem => by
    rw [← PyDict.contains_eq_true_iff] at hmem
    exact Bool.false_ne_true (hnew.symm.trans hmem)
  have hkey' : key ∉ c'.data.keys := fun hmem => by
    rw [← PyDict.contains_eq_true_iff] at hmem
    exact Bool.false_ne_true (hnew'.symm.trans hmem)
  have hsizes := h.sizes
  unfold Multimodal.sizes at hsizes ⊢
  rw [PyDict.entries_insert_of_not_mem _ hkey, PyDict.entries_insert_of_not_mem _ hkey',
    map_append, map_append, hsizes]
  simp only [map_cons, map_nil, hsize]

/-- Making room removes keys. -/
theorem contains_makeRoom (lib : Cachetools) (size : Nat) (order : List String)
    (h : c.contains key = false) : (c.makeRoom lib f size order).2.contains key = false := by
  induction order generalizing c with
  | nil =>
    unfold makeRoom
    split <;> exact h
  | cons lruKey order ih =>
    unfold makeRoom
    split
    · exact h
    · dsimp only
      split
      · refine ih ?_
        show (c.data.erase lruKey).contains key = false
        rw [PyDict.contains_erase]
        have hkey : c.data.contains key = false := h
        rw [hkey, Bool.and_false]
      · exact h

/-- A new key is stored in both caches, or in neither. -/
theorem Mirrors.setItem (lib : Cachetools) (h : Mirrors f f' c c') (value : ν) (value' : ν')
    (hnew : c.contains key = false) (hsize : f value = f' value') :
    (c.setItem lib f key value).1 = (c'.setItem lib f' key value').1 ∧
      Mirrors f f' (c.setItem lib f key value).2 (c'.setItem lib f' key value').2 := by
  unfold LRUCache.setItem
  rw [hsize, h.capacity]
  split
  · exact ⟨rfl, h⟩
  · obtain ⟨hresult, hmirrors⟩ := h.makeRoom lib (f' value') c'.order
    have hroom := contains_makeRoom (f := f) lib (f' value') c'.order hnew
    rw [h.order]
    obtain ⟨r, d, hd⟩ : ∃ r d, c.makeRoom lib f (f' value') c'.order = (r, d) := ⟨_, _, rfl⟩
    obtain ⟨r', d', hd'⟩ : ∃ r' d', c'.makeRoom lib f' (f' value') c'.order = (r', d') :=
      ⟨_, _, rfl⟩
    rw [hd] at hresult hmirrors hroom ⊢
    rw [hd'] at hresult hmirrors ⊢
    dsimp only at hresult hmirrors hroom
    subst hresult
    cases r with
    | error e => exact ⟨rfl, hmirrors⟩
    | ok u => exact ⟨rfl, (hmirrors.insert hroom hsize).touch key⟩

end Caches

/-! ### A request on both sides -/

section Request

variable {ι υ : Type} (lib : Cachetools) {getItemSize : ι → Nat}
variable {s s' : SenderCache υ} {r : ReceiverCache ι}

/-- The receiver cache mirrors the sender cache. -/
def Synced (getItemSize : ι → Nat) (s : SenderCache υ) (r : ReceiverCache ι) : Prop :=
  Mirrors ItemMetadata.itemSize getItemSize s r

/-- An item that the sender has updated is taken by the receiver. -/
theorem Synced.getAndUpdateItem (h : Synced getItemSize s r) {mmItem : Option (ι × υ)}
    {mmHash : String} {data : Option ι} {updates : υ}
    (hsend : s.getAndUpdateItem lib getItemSize mmItem mmHash = (.ok (data, updates), s')) :
    ∃ item r', r.getAndUpdateItem lib getItemSize data mmHash = (.ok item, r') ∧
      Synced getItemSize s' r' := by
  unfold SenderCache.getAndUpdateItem LRUCache.get at hsend
  unfold ReceiverCache.getAndUpdateItem LRUCache.get
  have hget := h.get? mmHash
  cases hs : s.data.get? mmHash with
  | some cachedItem =>
    rw [hs] at hsend hget
    obtain ⟨value, hr, -⟩ := Option.map_eq_some_iff.mp hget.symm
    simp only [Prod.mk.injEq, Except.ok.injEq] at hsend
    obtain ⟨⟨rfl, -⟩, rfl⟩ := hsend
    rw [hr]
    exact ⟨value, _, rfl, h.touch mmHash⟩
  | none =>
    rw [hs] at hsend hget
    have hr : r.data.get? mmHash = none := Option.map_eq_none_iff.mp hget.symm
    rw [hr]
    dsimp only at hsend ⊢
    cases mmItem with
    | none => cases hsend
    | some pair =>
      obtain ⟨item, promptUpdates⟩ := pair
      dsimp only at hsend
      have hnew : s.contains mmHash = false := by
        unfold LRUCache.contains PyDict.contains
        rw [hs]
        rfl
      obtain ⟨hresult, hsynced⟩ := h.setItem lib ⟨getItemSize item, promptUpdates⟩ item hnew rfl
      split at hsend
      · cases hsend
      · rename_i d hd
        simp only [Prod.mk.injEq, Except.ok.injEq] at hsend
        obtain ⟨⟨rfl, -⟩, rfl⟩ := hsend
        rw [hd] at hresult hsynced
        dsimp only
        obtain ⟨result, r', hr'⟩ : ∃ result r',
          r.setItem lib getItemSize mmHash item = (result, r') := ⟨_, _, rfl⟩
        rw [hr'] at hresult hsynced ⊢
        dsimp only at hresult
        subst hresult
        exact ⟨item, r', rfl, hsynced⟩

variable {features : List (Feature ι)}

theorem Synced.updateItems (h : Synced getItemSize s r) {todo : List (String × Option (ι × υ))}
    (hsend : s.updateItems lib getItemSize todo = (.ok features, s')) :
    features.map Feature.identifier = todo.map Prod.fst ∧
    ∃ items r', r.updateFeatures lib getItemSize features = (.ok items, r') ∧
      Synced getItemSize s' r' := by
  induction todo generalizing s r features with
  | nil =>
    obtain ⟨hfeatures, rfl⟩ := Prod.mk.inj hsend
    cases hfeatures
    exact ⟨rfl, [], r, rfl, h⟩
  | cons u todo ih =>
    obtain ⟨mmHash, mmItem⟩ := u
    unfold SenderCache.updateItems at hsend
    split at hsend
    · cases hsend
    · rename_i data updates s1 hitem
      split at hsend
      · cases hsend
      · rename_i rest s2 hrest
        obtain ⟨hfeatures, rfl⟩ := Prod.mk.inj hsend
        cases hfeatures
        obtain ⟨item, r1, hr1, hsynced⟩ := h.getAndUpdateItem lib hitem
        obtain ⟨hids, items, r2, hr2, hsynced'⟩ := ih hsynced hrest
        refine ⟨?_, item :: items, r2, ?_, hsynced'⟩
        · rw [map_cons, map_cons, hids]
        · unfold ReceiverCache.updateFeatures
          dsimp only
          rw [hr1]
          dsimp only
          rw [hr2]

theorem Synced.touchAll (h : Synced getItemSize s r) (keys : List String) :
    Synced getItemSize (keys.foldl touch s) (keys.foldl touch r) := by
  induction keys generalizing s r with
  | nil => exact h
  | cons key keys ih => exact ih (h.touch key)

/-- A request that the sender has processed is received, and the caches mirror each other again. -/
theorem Synced.mergeMmKwargs (h : Synced getItemSize s r) {items : List (MMItem ι υ)}
    (hsend : s.mergeMmKwargs lib getItemSize items = (.ok features, s')) :
    ∃ result r', r.getAndUpdateFeatures lib getItemSize features = (.ok result, r') ∧
      Synced getItemSize s' r' := by
  unfold SenderCache.mergeMmKwargs at hsend
  have hkeys : ∀ c : SenderCache υ, items.foldl (fun c i => c.touch i.mmHash) c =
      (items.map MMItem.mmHash).foldl touch c := fun c => by
    rw [foldl_map]
  rw [hkeys] at hsend
  have htouched := h.touchAll (items.map MMItem.mmHash)
  have hids := (htouched.updateItems lib hsend).1
  obtain ⟨-, result, r', hr', hsynced⟩ := htouched.updateItems lib hsend
  refine ⟨result, r', ?_, hsynced⟩
  have hmissing : (s.missing items).map Prod.fst = items.map MMItem.mmHash := by
    unfold SenderCache.missing
    rw [map_map]
    rfl
  have hfold : features.foldl (fun c f => c.touch f.identifier) r =
      (items.map MMItem.mmHash).foldl touch r := by
    rw [← hmissing, ← hids, foldl_map]
  unfold ReceiverCache.getAndUpdateFeatures
  rw [hfold]
  exact hr'

end Request

/-! ### Room for a request -/

section Room

variable {ν : Type} {f : ν → Nat} {c : LRUCache ν}

/-- The size of those of the given keys that are in the cache. -/
def sizeIn (f : ν → Nat) (keys : List String) (c : LRUCache ν) : Nat :=
  ((c.data.entries.filter fun e => decide (e.1 ∈ keys)).map fun e => f e.2).sum

variable {keys : List String} {key : String}

theorem sizeIn_delItem (h : key ∉ keys) : sizeIn f keys (c.delItem key) = sizeIn f keys c := by
  unfold sizeIn
  show (((c.data.entries.filter _).filter _).map _).sum = _
  rw [filter_filter]
  refine congrArg List.sum (congrArg (List.map _) (filter_congr fun e _ => ?_))
  by_cases he : e.1 = key
  · simp [he, h]
  · simp [he]

theorem sizeIn_insert {value : ν} (hkey : key ∈ keys) (hnew : c.contains key = false) :
    sizeIn f keys { c with data := c.data.insert key value } = sizeIn f keys c + f value := by
  have hmem : key ∉ c.data.keys := fun hmem => by
    rw [← PyDict.contains_eq_true_iff] at hmem
    exact Bool.false_ne_true (hnew.symm.trans hmem)
  unfold sizeIn
  rw [PyDict.entries_insert_of_not_mem _ hmem, filter_append, map_append,
    sum_append]
  simp [hkey]

/-- The whole size, when the cache holds only the given keys. -/
theorem currsize_eq_sizeIn (h : ∀ key, c.contains key = true → key ∈ keys) :
    c.currsize f = sizeIn f keys c := by
  unfold currsize sizeIn PyDict.values
  rw [map_map, filter_eq_self.mpr fun e he => ?_]
  · rfl
  · refine decide_eq_true (h e.1 ?_)
    unfold contains
    rw [PyDict.contains_eq_true_iff]
    exact mem_map_of_mem (f := Prod.fst) he

/-- The keys of the request are the most recently used ones, and all others are in the cache. -/
structure Ordered (c : LRUCache ν) (keys olds recent : List String) : Prop where
  order : c.order = olds ++ recent
  nodup : c.order.Nodup
  olds : ∀ key ∈ olds, key ∉ keys ∧ c.contains key = true
  recent : ∀ key ∈ recent, key ∈ keys
  listed : ∀ key, c.contains key = true → key ∈ c.order

variable {olds recent : List String}

/-- There is room for a value when it fits beside the keys of the request: only others are
removed. -/
theorem makeRoom_spec (lib : Cachetools) {size : Nat} (h : Ordered c keys olds recent)
    (hroom : sizeIn f keys c + size ≤ c.capacity) :
    ∃ c' olds', c.makeRoom lib f size c.order = (.ok (), c') ∧ Ordered c' keys olds' recent ∧
      c'.capacity = c.capacity ∧ sizeIn f keys c' = sizeIn f keys c ∧
      ∀ key ∈ keys, c'.contains key = c.contains key := by
  induction olds generalizing c with
  | nil =>
    have hcurr : c.currsize f = sizeIn f keys c := by
      refine currsize_eq_sizeIn fun key hkey => h.recent key ?_
      have := h.listed key hkey
      rw [h.order] at this
      exact this
    refine ⟨c, [], ?_, h, rfl, rfl, fun _ _ => rfl⟩
    unfold makeRoom
    rw [if_pos (lib.not_full (hcurr ▸ hroom))]
  | cons old olds ih =>
    obtain ⟨hold, hcontains⟩ := h.olds old mem_cons_self
    by_cases hfull : lib.full c.capacity (c.currsize f) size = false
    · refine ⟨c, old :: olds, ?_, h, rfl, rfl, fun _ _ => rfl⟩
      unfold makeRoom
      rw [if_pos hfull]
    · have hnodup := h.nodup
      rw [h.order, cons_append, nodup_cons] at hnodup
      have horder : (c.delItem old).order = olds ++ recent := by
        show c.order.filter _ = _
        rw [h.order, cons_append, filter_cons_of_neg (by simp)]
        refine filter_eq_self.mpr fun key hkey => decide_eq_true ?_
        rintro rfl
        exact hnodup.1 hkey
      have hdel : ∀ key, (c.delItem old).contains key = true ↔
          key ≠ old ∧ c.contains key = true := by
        intro key
        show (c.data.erase old).contains key = true ↔ _
        rw [PyDict.contains_erase]
        simp [contains]
      have hordered : Ordered (c.delItem old) keys olds recent := by
        refine ⟨horder, horder ▸ hnodup.2, fun key hkey => ?_, h.recent, fun key hkey => ?_⟩
        · obtain ⟨hkey', hc⟩ := h.olds key (mem_cons_of_mem _ hkey)
          refine ⟨hkey', (hdel key).mpr ⟨?_, hc⟩⟩
          rintro rfl
          exact hnodup.1 (mem_append_left _ hkey)
        · obtain ⟨hne, hc⟩ := (hdel key).mp hkey
          have hlisted := h.listed key hc
          rw [h.order, cons_append, mem_cons] at hlisted
          rw [horder]
          exact hlisted.resolve_left hne
      obtain ⟨c', olds', hmake, hordered', hcap, hsize, hkeys⟩ :=
        ih hordered (by rw [sizeIn_delItem hold]; exact hroom)
      refine ⟨c', olds', ?_, hordered', hcap, hsize.trans (sizeIn_delItem hold),
        fun key hkey => ?_⟩
      · rw [horder] at hmake
        rw [h.order, cons_append]
        unfold makeRoom
        rw [if_neg hfull]
        dsimp only
        rw [if_pos hcontains]
        exact hmake
      · rw [hkeys key hkey, Bool.eq_iff_iff, hdel key]
        refine ⟨And.right, fun hc => ⟨?_, hc⟩⟩
        rintro rfl
        exact hold hkey

/-- A key that is in the order already is stored. -/
theorem Ordered.insert (h : Ordered c keys olds recent) (hkey : key ∈ c.order) (value : ν) :
    Ordered { c with data := c.data.insert key value } keys olds recent := by
  have hcontains : ∀ k, ({ c with data := c.data.insert key value } : LRUCache ν).contains k =
      true ↔ k = key ∨ c.contains k = true := by
    intro k
    show (c.data.insert key value).contains k = true ↔ _
    rw [PyDict.contains_insert]
    simp [contains]
  refine ⟨h.order, h.nodup, fun k hk => ?_, h.recent, fun k hk => ?_⟩
  · exact ⟨(h.olds k hk).1, (hcontains k).mpr (.inr (h.olds k hk).2)⟩
  · rcases (hcontains k).mp hk with rfl | hk
    · exact hkey
    · exact h.listed k hk

theorem nodup_touch (h : c.order.Nodup) : (c.touch key).order.Nodup := by
  refine nodup_append.mpr ⟨h.filter _, nodup_singleton _, fun a ha b hb => ?_⟩
  obtain rfl := mem_singleton.mp hb
  exact of_decide_eq_true (mem_filter.mp ha).2

/-- A key of the request is used. -/
theorem Ordered.touch (h : Ordered c keys olds recent) (hkey : key ∈ keys) :
    Ordered (c.touch key) keys olds (recent.filter (· ≠ key) ++ [key]) := by
  have holds : olds.filter (· ≠ key) = olds := by
    refine filter_eq_self.mpr fun k hk => decide_eq_true ?_
    rintro rfl
    exact (h.olds k hk).1 hkey
  refine ⟨?_, ?_, h.olds, fun k hk => ?_, fun k hk => ?_⟩
  · show c.order.filter _ ++ [key] = _
    rw [h.order, filter_append, holds, append_assoc]
  · exact nodup_touch h.nodup
  · rcases mem_append.mp hk with hk | hk
    · exact h.recent k (mem_filter.mp hk).1
    · rw [mem_singleton.mp hk]
      exact hkey
  · show k ∈ c.order.filter _ ++ [key]
    by_cases heq : k = key
    · exact mem_append_right _ (mem_singleton.mpr heq)
    · exact mem_append_left _ (mem_filter.mpr ⟨h.listed k hk, decide_eq_true heq⟩)

/-- The order after all keys of a request are touched. -/
theorem order_touchAll (keys : List String) : ∃ recent, (keys.foldl touch c).order =
      c.order.filter (fun k => decide (k ∉ keys)) ++ recent ∧ ∀ k ∈ recent, k ∈ keys := by
  induction keys generalizing c with
  | nil =>
    refine ⟨[], ?_, fun k hk => (nomatch hk)⟩
    rw [append_nil]
    exact (filter_eq_self.mpr fun k _ => decide_eq_true not_mem_nil).symm
  | cons key keys ih =>
    obtain ⟨recent, horder, hrecent⟩ := ih (c := c.touch key)
    have htouch : (c.touch key).order = c.order.filter (fun k => decide (k ≠ key)) ++ [key] := rfl
    refine ⟨[key].filter (fun k => decide (k ∉ keys)) ++ recent, ?_, fun k hk => ?_⟩
    · rw [foldl_cons, horder, htouch, filter_append, filter_filter,
        append_assoc]
      refine congrArg (· ++ _) (filter_congr fun k _ => ?_)
      by_cases hk : k = key
      · simp [hk]
      · simp [hk]
    · rcases mem_append.mp hk with hk | hk
      · rw [mem_singleton.mp (mem_filter.mp hk).1]
        exact mem_cons_self
      · exact mem_cons_of_mem _ (hrecent k hk)

theorem mem_order_touchAll (h : key ∈ keys) : key ∈ (keys.foldl touch c).order := by
  induction keys generalizing c with
  | nil => exact absurd h not_mem_nil
  | cons k keys ih =>
    by_cases hkey : key ∈ keys
    · exact ih hkey
    · obtain rfl := (mem_cons.mp h).resolve_right hkey
      obtain ⟨recent, horder, -⟩ := order_touchAll (c := c.touch key) keys
      rw [foldl_cons, horder]
      refine mem_append_left _ (mem_filter.mpr ⟨?_, decide_eq_true hkey⟩)
      exact mem_append_right _ mem_cons_self

theorem data_touchAll (keys : List String) : (keys.foldl touch c).data = c.data ∧
      (keys.foldl touch c).capacity = c.capacity := by
  induction keys generalizing c with
  | nil => exact ⟨rfl, rfl⟩
  | cons key keys ih => exact ih (c := c.touch key)

theorem nodup_touchAll (keys : List String) (h : c.order.Nodup) :
    (keys.foldl touch c).order.Nodup := by
  induction keys generalizing c with
  | nil => exact h
  | cons key keys ih => exact ih (nodup_touch h)

end Room

end Vllm.Proofs.Multimodal
