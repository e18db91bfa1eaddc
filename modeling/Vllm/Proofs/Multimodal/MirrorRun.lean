import Vllm.Proofs.Multimodal.Mirror

/-!
# `Vllm.Proofs.Multimodal.MirrorRun`: runs of the two caches

* `needed`: the size of a request in the sender cache, each item once.
* `Room`: while a request that fits is processed, only items of other requests are evicted, so
  that the processing returns (`mergeMmKwargs_returns`).
* `Forwarded`: a request with items passes validation and fits into the cache.
* `caches_mirror`: in the runs with this condition every forwarded request is received.
* `rejected_request_breaks_mirror`: a rejected request leaves its items in the sender cache only.
-/

set_option autoImplicit false

namespace Vllm.Proofs.Multimodal

open Vllm.Lib Vllm.Utils Vllm.Multimodal ItemMetadata List

section Request

variable {ι υ : Type} {getItemSize : ι → Nat} {c : SenderCache υ}

/-- The size of the items that are not yet in the cache, each counted once. -/
def newSize (getItemSize : ι → Nat) : (present : String → Bool) →
    List (String × Option (ι × υ)) → Nat
  | _, [] => 0
  | present, (mmHash, mmItem) :: rest =>
    if present mmHash then newSize getItemSize present rest
    else mmItem.elim 0 (fun i => getItemSize i.1) +
      newSize getItemSize (fun key => key == mmHash || present key) rest

/-- The size that the items of a request have together in the cache. -/
def needed (getItemSize : ι → Nat) (c : SenderCache υ) (items : List (MMItem ι υ)) : Nat :=
  sizeIn itemSize (items.map MMItem.mmHash) c + newSize getItemSize c.contains (c.missing items)

variable {todo : List (String × Option (ι × υ))}

theorem newSize_congr {present present' : String → Bool}
    (h : ∀ u ∈ todo, present u.1 = present' u.1) :
    newSize getItemSize present todo = newSize getItemSize present' todo := by
  induction todo generalizing present present' with
  | nil => rfl
  | cons u todo ih =>
    have hadded : newSize getItemSize (fun key => key == u.1 || present key) todo =
        newSize getItemSize (fun key => key == u.1 || present' key) todo :=
      ih fun v hv => by rw [h v (mem_cons_of_mem _ hv)]
    unfold newSize
    rw [h u mem_cons_self, ih fun v hv => h v (mem_cons_of_mem _ hv), hadded]

/-- While the items `todo` of a request are left to update. -/
structure Room (getItemSize : ι → Nat) (c : SenderCache υ) (keys : List String)
    (todo : List (String × Option (ι × υ))) : Prop where
  ordered : ∃ olds recent, Ordered c keys olds recent ∧
    ∀ key ∈ recent, c.contains key = true ∨ key ∈ todo.map Prod.fst
  inKeys : ∀ u ∈ todo, u.1 ∈ keys
  cached : ∀ u ∈ todo, u.2 = none → c.contains u.1 = true
  room : sizeIn itemSize keys c + newSize getItemSize c.contains todo ≤ c.capacity

/-- Between two requests the order is that of the keys in the cache. -/
structure Clean (c : SenderCache υ) : Prop where
  nodup : c.order.Nodup
  listed : ∀ key, key ∈ c.order ↔ c.contains key = true

variable {keys : List String}

theorem Room.clean (h : Room getItemSize c keys []) : Clean c := by
  obtain ⟨olds, recent, hordered, hrecent⟩ := h.ordered
  refine ⟨hordered.nodup, fun key => ⟨fun hkey => ?_, hordered.listed key⟩⟩
  rw [hordered.order] at hkey
  rcases mem_append.mp hkey with hkey | hkey
  · exact (hordered.olds key hkey).2
  · exact (hrecent key hkey).resolve_right not_mem_nil

variable {items : List (MMItem ι υ)}

/-- The touches of a request that fits. -/
theorem Clean.room (h : Clean c) (hfits : needed getItemSize c items ≤ c.capacity) :
    Room getItemSize ((items.map MMItem.mmHash).foldl LRUCache.touch c) (items.map MMItem.mmHash)
      (c.missing items) := by
  obtain ⟨recent, horder, hrecent⟩ := order_touchAll (c := c) (items.map MMItem.mmHash)
  obtain ⟨hdata, hcapacity⟩ := data_touchAll (c := c) (items.map MMItem.mmHash)
  have hcontains : ((items.map MMItem.mmHash).foldl LRUCache.touch c).contains = c.contains := by
    unfold LRUCache.contains
    rw [hdata]
  have hmissing : (c.missing items).map Prod.fst = items.map MMItem.mmHash := by
    unfold SenderCache.missing
    rw [map_map]
    rfl
  have hlisted : ∀ key, c.contains key = true → key ∉ items.map MMItem.mmHash →
      key ∈ ((items.map MMItem.mmHash).foldl LRUCache.touch c).order := by
    intro key hkey hnot
    rw [horder]
    exact mem_append_left _ (mem_filter.mpr
      ⟨(h.listed key).mpr hkey, decide_eq_true hnot⟩)
  refine ⟨⟨c.order.filter (fun k => decide (k ∉ items.map MMItem.mmHash)), recent,
      ⟨horder, nodup_touchAll _ h.nodup, fun key hkey => ?_, hrecent, fun key hkey => ?_⟩,
      fun key hkey => .inr (hmissing ▸ hrecent key hkey)⟩, fun u hu => ?_, fun u hu hnone => ?_, ?_⟩
  · obtain ⟨hmem, hnot⟩ := mem_filter.mp hkey
    rw [hcontains]
    exact ⟨of_decide_eq_true hnot, (h.listed key).mp hmem⟩
  · rw [hcontains] at hkey
    by_cases hmem : key ∈ items.map MMItem.mmHash
    · exact mem_order_touchAll hmem
    · exact hlisted key hkey hmem
  · rw [← hmissing]
    exact mem_map_of_mem (f := Prod.fst) hu
  · obtain ⟨i, -, rfl⟩ := mem_map.mp hu
    rw [hcontains]
    by_contra hnot
    rw [if_neg hnot] at hnone
    cases hnone
  · rw [hcontains, hcapacity]
    have hsize : sizeIn itemSize (items.map MMItem.mmHash)
        ((items.map MMItem.mmHash).foldl LRUCache.touch c) =
        sizeIn itemSize (items.map MMItem.mmHash) c := by
      unfold sizeIn
      rw [hdata]
    rw [hsize]
    exact hfits

/-- An item that is in the cache is used. -/
theorem Room.touch {mmHash : String} {mmItem : Option (ι × υ)}
    (h : Room getItemSize c keys ((mmHash, mmItem) :: todo)) (hc : c.contains mmHash = true) :
    Room getItemSize (c.touch mmHash) keys todo := by
  obtain ⟨olds, recent, hordered, hrecent⟩ := h.ordered
  refine ⟨⟨olds, _, hordered.touch (h.inKeys _ mem_cons_self), fun key hkey => ?_⟩,
    fun u hu => h.inKeys u (mem_cons_of_mem _ hu),
    fun u hu => h.cached u (mem_cons_of_mem _ hu), ?_⟩
  · rcases mem_append.mp hkey with hkey | hkey
    · obtain ⟨hkey, hne⟩ := mem_filter.mp hkey
      rcases hrecent key hkey with hc' | hmem
      · exact .inl hc'
      · exact .inr ((mem_cons.mp hmem).resolve_left (of_decide_eq_true hne))
    · rw [mem_singleton.mp hkey]
      exact .inl hc
  · have hroom := h.room
    unfold newSize at hroom
    rw [if_pos hc] at hroom
    exact hroom

/-- A new item is stored. -/
theorem Room.setItem (lib : Cachetools) {mmHash : String} {item : ι} {promptUpdates : υ}
    (h : Room getItemSize c keys ((mmHash, some (item, promptUpdates)) :: todo))
    (hnew : c.contains mmHash = false) (value : ItemMetadata υ)
    (hvalue : value.itemSize = getItemSize item) :
    ∃ c', c.setItem lib itemSize mmHash value = (.ok (), c') ∧
      Room getItemSize c' keys todo := by
  obtain ⟨olds, recent, hordered, hrecent⟩ := h.ordered
  have hkey : mmHash ∈ keys := h.inKeys _ mem_cons_self
  have hroom := h.room
  unfold newSize at hroom
  rw [if_neg (by rw [hnew]; exact Bool.false_ne_true)] at hroom
  simp only [Option.elim_some, ← hvalue] at hroom
  obtain ⟨c1, olds₁, hmake, hordered1, hcap, hsize, hkeys⟩ := makeRoom_spec lib
    (f := itemSize) hordered (Nat.le_trans (Nat.add_le_add_left
      (Nat.le_add_right value.itemSize _) _) hroom)
  have hnew1 : c1.contains mmHash = false := (hkeys mmHash hkey).trans hnew
  have hcontains : ∀ key, ({ c1 with data := c1.data.insert mmHash value } : SenderCache υ).contains key =
        (key == mmHash || c1.contains key) := by
    intro key
    show (c1.data.insert mmHash _).contains key = _
    rw [PyDict.contains_insert]
    rfl
  have hlisted : mmHash ∈ (c1.touch mmHash).order := mem_append_right _ mem_cons_self
  have hstored := (hordered1.touch hkey).insert hlisted value
  refine ⟨_, ?_, ⟨olds₁, _, hstored, fun key hk => ?_⟩,
    fun u hu => h.inKeys u (mem_cons_of_mem _ hu), fun u hu hnone => ?_, ?_⟩
  · unfold LRUCache.setItem
    rw [lib.not_tooLarge (Nat.le_trans (Nat.le_trans (Nat.le_add_right _ _)
      (Nat.le_add_left _ _)) hroom), if_neg Bool.false_ne_true, hmake]
    rfl
  · rcases mem_append.mp hk with hk | hk
    · obtain ⟨hk, hne⟩ := mem_filter.mp hk
      rcases hrecent key hk with hc | hmem
      · refine .inl ((hcontains key).trans ?_)
        rw [hkeys key (hordered.recent key hk), hc, Bool.or_true]
      · exact .inr ((mem_cons.mp hmem).resolve_left (of_decide_eq_true hne))
    · refine .inl ((hcontains key).trans ?_)
      rw [mem_singleton.mp hk, beq_self_eq_true, Bool.true_or]
  · refine (hcontains u.1).trans ?_
    rw [hkeys u.1 (h.inKeys u (mem_cons_of_mem _ hu)),
      h.cached u (mem_cons_of_mem _ hu) hnone, Bool.or_true]
  · have hin : sizeIn itemSize keys ({ c1 with data := c1.data.insert mmHash value } : SenderCache υ) =
        sizeIn itemSize keys c1 + value.itemSize := sizeIn_insert hkey hnew1
    have hneed : newSize getItemSize ({ c1 with data := c1.data.insert mmHash value } : SenderCache υ).contains todo =
        newSize getItemSize (fun key => key == mmHash || c.contains key) todo := by
      refine newSize_congr fun u hu => ?_
      rw [hcontains, hkeys u.1 (h.inKeys u (mem_cons_of_mem _ hu))]
    show sizeIn itemSize keys ({ c1 with data := c1.data.insert mmHash value } : SenderCache υ) +
      newSize getItemSize ({ c1 with data := c1.data.insert mmHash value } : SenderCache υ).contains todo ≤ c1.capacity
    rw [hin, hneed, hsize, hcap]
    omega

/-- The updates of a request that fits return. -/
theorem Room.updateItems (lib : Cachetools) (h : Room getItemSize c keys todo) :
    ∃ features c', c.updateItems lib getItemSize todo = (.ok features, c') ∧ Clean c' := by
  induction todo generalizing c with
  | nil => exact ⟨[], c, rfl, h.clean⟩
  | cons u todo ih =>
    obtain ⟨mmHash, mmItem⟩ := u
    have hstep : ∃ data updates c1, c.getAndUpdateItem lib getItemSize mmItem mmHash =
        (.ok (data, updates), c1) ∧ Room getItemSize c1 keys todo := by
      unfold SenderCache.getAndUpdateItem LRUCache.get
      cases hget : c.data.get? mmHash with
      | some cachedItem =>
        have hc : c.contains mmHash = true := by
          unfold LRUCache.contains PyDict.contains
          rw [hget]
          rfl
        exact ⟨none, cachedItem.promptUpdates, _, rfl, h.touch hc⟩
      | none =>
        have hc : c.contains mmHash = false := by
          unfold LRUCache.contains PyDict.contains
          rw [hget]
          rfl
        cases mmItem with
        | none =>
          have hcached := h.cached _ mem_cons_self rfl
          exact absurd (hc.symm.trans hcached) Bool.false_ne_true
        | some pair =>
          obtain ⟨item, promptUpdates⟩ := pair
          obtain ⟨c1, hset, hroom⟩ := h.setItem lib hc ⟨getItemSize item, promptUpdates⟩ rfl
          dsimp only
          rw [hset]
          exact ⟨some item, promptUpdates, c1, rfl, hroom⟩
    obtain ⟨data, updates, c1, hitem, hroom⟩ := hstep
    obtain ⟨features, c', hrest, hclean⟩ := ih hroom
    refine ⟨⟨mmHash, data⟩ :: features, c', ?_, hclean⟩
    unfold SenderCache.updateItems
    rw [hitem]
    dsimp only
    rw [hrest]

/-- The processing of a request that fits returns. -/
theorem mergeMmKwargs_returns (lib : Cachetools) (h : Clean c)
    (hfits : needed getItemSize c items ≤ c.capacity) :
    ∃ features c', c.mergeMmKwargs lib getItemSize items = (.ok features, c') ∧ Clean c' := by
  obtain ⟨features, c', hupdate, hclean⟩ := (h.room hfits).updateItems lib
  refine ⟨features, c', ?_, hclean⟩
  unfold SenderCache.mergeMmKwargs
  rw [← hupdate, foldl_map]

end Request

/-! ### Runs -/

section Runs

variable {ι υ : Type} (lib : Cachetools) (getItemSize : ι → Nat)

/-- A request with items passes validation, and its items fit together into the cache. -/
def Forwarded (s : MMCaches ι υ) : MMOp ι υ → Prop
  | .processInputs items valid => items = [] ∨
      (valid = true ∧ needed getItemSize s.sender items ≤ s.sender.capacity)
  | .receive => True

/-- The receiver takes the requests that are on their way, and then mirrors the sender. -/
def Delivers : ReceiverCache ι → List (List (Feature ι)) → SenderCache υ → Prop
  | r, [], s => Synced getItemSize s r
  | r, features :: sent, s => ∃ items r',
      r.getAndUpdateFeatures lib getItemSize features = (.ok items, r') ∧ Delivers r' sent s

variable {lib getItemSize}

theorem Delivers.send {r : ReceiverCache ι} {sent : List (List (Feature ι))} {s s' : SenderCache υ}
    (h : Delivers lib getItemSize r sent s) {items : List (MMItem ι υ)}
    {features : List (Feature ι)}
    (hsend : s.mergeMmKwargs lib getItemSize items = (.ok features, s')) :
    Delivers lib getItemSize r (sent ++ [features]) s' := by
  induction sent generalizing r with
  | nil => exact Synced.mergeMmKwargs lib h hsend
  | cons first sent ih =>
    obtain ⟨taken, r', hr', hrest⟩ := h
    exact ⟨taken, r', hr', ih hrest⟩

/-- The invariant of the runs. -/
structure MirrorInv (lib : Cachetools) (getItemSize : ι → Nat) (s : MMCaches ι υ) : Prop where
  clean : Clean s.sender
  delivers : Delivers lib getItemSize s.receiver s.sent s.sender

theorem mirrorInv_step {s s' : MMCaches ι υ} {op : MMOp ι υ} (h : MirrorInv lib getItemSize s)
    (hop : Forwarded getItemSize s op) (hstep : s.step lib getItemSize op = .ok s') :
    MirrorInv lib getItemSize s' := by
  cases op with
  | processInputs items valid =>
    simp only [MMCaches.step] at hstep
    rcases hop with rfl | ⟨rfl, hfits⟩
    · have hmerge : s.sender.mergeMmKwargs lib getItemSize [] = (.ok [], s.sender) := rfl
      rw [hmerge] at hstep
      cases hstep
      cases valid with
      | true => exact ⟨h.clean, h.delivers.send hmerge⟩
      | false => exact h
    · obtain ⟨features, sender, hmerge, hclean⟩ := mergeMmKwargs_returns lib h.clean hfits
      rw [hmerge] at hstep
      cases hstep
      exact ⟨hclean, h.delivers.send hmerge⟩
  | receive =>
    simp only [MMCaches.step] at hstep
    split at hstep
    · cases hstep
      exact h
    · rename_i features sent hsent
      have hdelivers := h.delivers
      rw [hsent] at hdelivers
      obtain ⟨items, r', hr', hrest⟩ := hdelivers
      rw [hr'] at hstep
      cases hstep
      exact ⟨h.clean, hrest⟩

theorem mirrorInv_start (capacity : Nat) :
    MirrorInv lib getItemSize (MMCaches.start capacity : MMCaches ι υ) := by
  refine ⟨⟨nodup_nil, fun key => ⟨nofun, nofun⟩⟩, ?_⟩
  exact ⟨rfl, rfl, rfl⟩

/-- In every state of a run in which every request with items is forwarded and fits into the cache,
the engine takes the next request: wherever an item is not sent, it is in the receiver cache. -/
theorem caches_mirror {capacity : Nat} {s : MMCaches ι υ}
    (hrun : Run (MMCaches.step lib getItemSize) (Forwarded getItemSize) (MMCaches.start capacity) s)
    {features : List (Feature ι)} {sent : List (List (Feature ι))}
    (hsent : s.sent = features :: sent) :
    ∃ items receiver, s.receiver.getAndUpdateFeatures lib getItemSize features =
      (.ok items, receiver) := by
  have h := hrun.invariant (MirrorInv lib getItemSize) (mirrorInv_start capacity)
    fun _ _ _ hinv hop hstep => mirrorInv_step hinv hop hstep
  have hdelivers := h.delivers
  rw [hsent] at hdelivers
  obtain ⟨items, r', hr', -⟩ := hdelivers
  exact ⟨items, r', hr'⟩

/-- The comparisons as they are made in `cachetools`. -/
def cachetools : Cachetools where
  tooLarge maxsize size := decide (size > maxsize)
  full maxsize currsize size := decide (currsize + size > maxsize)
  not_tooLarge h := decide_eq_false (Nat.not_lt.mpr h)
  not_full h := decide_eq_false (Nat.not_lt.mpr h)

instance (s : MMCaches Nat Unit) (op : MMOp Nat Unit) : Decidable (Forwarded id s op) :=
  match op with
  | .processInputs _ _ => inferInstanceAs (Decidable (_ ∨ (_ ∧ _)))
  | .receive => inferInstanceAs (Decidable True)

/-- The third request evicts the first item, and the fourth one is sent without its item. -/
theorem caches_mirror_eviction : ∃ s₀ s : MMCaches Nat Unit,
    Except.ok (MMCaches.start 10) = (.ok s₀ : Except Stop (MMCaches Nat Unit)) ∧
      Run (MMCaches.step cachetools id) (Forwarded id) s₀ s ∧
      s.sent = [[⟨"y", none⟩]] ∧ s.receiver.contains "x" = false ∧
      ∃ items receiver, s.receiver.getAndUpdateFeatures cachetools id [⟨"y", none⟩] =
        (.ok items, receiver) := by
  obtain ⟨s₀, s, hstart, hrun, hsent, hevicted⟩ := exists_run_of_check
    (MMCaches.step cachetools id) (Forwarded id)
    (fun s => s.sent = [[⟨"y", none⟩]] ∧ s.receiver.contains "x" = false)
    (.ok (MMCaches.start 10))
    [.processInputs [⟨"x", 4, ()⟩] true, .processInputs [⟨"y", 4, ()⟩] true,
      .processInputs [⟨"z", 6, ()⟩, ⟨"z", 6, ()⟩] true, .receive, .receive, .receive,
      .processInputs [⟨"y", 4, ()⟩] true]
    (by decide +kernel)
  cases hstart
  exact ⟨_, s, rfl, hrun, hsent, hevicted, caches_mirror hrun hsent⟩

/-- A request is rejected after its item was put into the sender cache. The next request with the
item is sent without it, and the engine does not have it. -/
theorem rejected_request_breaks_mirror : ∃ s₀ s : MMCaches Nat Unit,
    Except.ok (MMCaches.start 10) = (.ok s₀ : Except Stop (MMCaches Nat Unit)) ∧
      Run (MMCaches.step cachetools id) (fun _ _ => True) s₀ s ∧
      (s.sent = [[⟨"x", none⟩]] ∧ s.receiver.contains "x" = false ∧
        (s.receiver.getAndUpdateFeatures cachetools id [⟨"x", none⟩]).1 =
          .error (.raises (.assertionError "Expected a cached item for mm_hash"))) :=
  exists_run_of_check (MMCaches.step cachetools id) (fun _ _ => True) _ _
    [.processInputs [⟨"x", 4, ()⟩] false, .processInputs [⟨"x", 4, ()⟩] true]
    (by decide +kernel)

end Runs

end Vllm.Proofs.Multimodal
