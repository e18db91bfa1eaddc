import Vllm.Multimodal.ShmObjectStoreCache
import Vllm.Proofs.Distributed.ObjectStorage
import Mathlib.Algebra.Order.BigOperators.Group.List

/-!
# `Vllm.Proofs.Multimodal.ShmCounts`: the counts of the shared-memory cache

The writer counts an access of all readers when it touches or gives out an object. What the
readers still owe are the accesses in their queues and those of the request that is not yet sent.

* `CacheInv`: the count of the readers and what they owe is the count of the writer times the
  number of readers.
* `Counts`: a touch of a reader is counted exactly when the writer has counted it, a request is
  given up only before anything is counted for it, and there are fewer objects than ids.
* `shm_cache_counts`: in the runs with this condition an object stays until all readers have
  accessed it, and is free after that.
-/

set_option autoImplicit false

namespace Vllm.Proofs.Multimodal

open Vllm.Lib Vllm.Distributed Vllm.Multimodal Vllm.Proofs.Distributed ShmCache
  SingleWriterShmObjectStorage List

/-! ### What is owed -/

section Owed

variable {s : SingleWriterShmObjectStorage} {id : Nat}

/-- The item of an access. -/
def item : Access → AddressItem
  | .touch item => item
  | .get item => item

/-- The accesses to the object `id` that the writer has counted with this one. -/
def weight (id : Nat) : Access → Nat
  | .touch item => if item.monotonicId = id ∧ item.cached = true then 1 else 0
  | .get item => if item.monotonicId = id then 1 else 0

/-- What one reader owes. -/
def owedBy (id : Nat) (queue : List Access) : Nat := (queue.map (weight id)).sum

/-- What the readers owe. -/
def owed (id : Nat) (readers : List (List Access)) : Nat := (readers.map (owedBy id)).sum

/-- What each reader will owe for an item of the request that is not yet sent. -/
def itemWeight (id : Nat) (item : AddressItem) : Nat :=
  weight id (.touch item) + weight id (.get item)

/-- An item that was cached has been counted once, for its touch. -/
def touchWeight (s : SingleWriterShmObjectStorage) (id : Nat)
    (update : String × Option SerializedObject) : Nat :=
  if update.2 = none ∧ (s.keyIndex.get? update.1).map Prod.snd = some id then 1 else 0

/-- What each reader will owe for the request that is not yet sent. -/
def mergeOwed (s : SingleWriterShmObjectStorage) (id : Nat) (m : Merge) : Nat :=
  (m.toUpdate.map (touchWeight s id)).sum + (m.features.map (itemWeight id)).sum

/-- What the system still owes for the object. -/
def allOwed (c : ShmCache) (id : Nat) : Nat :=
  owed id c.readers + c.storage.nReaders * (c.merge.map (mergeOwed c.storage id)).getD 0

theorem owedBy_accesses (features : List AddressItem) :
    owedBy id (accesses features) = (features.map (itemWeight id)).sum := by
  unfold owedBy accesses
  rw [map_append, sum_append, map_map, map_map]
  induction features with
  | nil => rfl
  | cons f features ih =>
    simp only [map_cons, sum_cons, Function.comp_apply, itemWeight]
    simp only [Function.comp_def] at ih
    simp only [Function.comp_def]
    omega

theorem owed_send (readers : List (List Access)) (features : List AddressItem) :
    owed id (readers.map (· ++ accesses features)) =
      owed id readers + readers.length * (features.map (itemWeight id)).sum := by
  induction readers with
  | nil => simp [owed]
  | cons q readers ih =>
    have hq : owedBy id (q ++ accesses features) =
        owedBy id q + (features.map (itemWeight id)).sum := by
      rw [← owedBy_accesses]
      unfold owedBy
      rw [map_append, sum_append]
    unfold owed at ih ⊢
    rw [map_cons, map_cons, sum_cons, ih, hq, map_cons, sum_cons,
      length_cons, Nat.succ_mul]
    omega

variable {readers : List (List Access)} {a : Access}

/-- A reader performs its next access. -/
theorem owed_set {i : Nat} {rest : List Access} (h : readers[i]? = some (a :: rest)) :
    owed id (readers.set i rest) + weight id a = owed id readers := by
  induction readers generalizing i with
  | nil => cases h
  | cons q readers ih =>
    cases i with
    | zero =>
      cases h
      unfold owed owedBy
      simp only [set_cons_zero, map_cons, sum_cons]
      omega
    | succ i =>
      have := ih (i := i) h
      unfold owed at this ⊢
      rw [set_cons_succ, map_cons, sum_cons, map_cons, sum_cons]
      omega

/-- Every touch is followed by the get of the item. -/
def Followed : List Access → Prop
  | [] => True
  | a :: rest => (a = .touch (item a) → .get (item a) ∈ rest) ∧ Followed rest

variable {q : List Access}

theorem followed_append {q' : List Access} (h : Followed q) (h' : Followed q') :
    Followed (q ++ q') := by
  induction q with
  | nil => exact h'
  | cons a q ih => exact ⟨fun ha => mem_append_left _ (h.1 ha), ih h.2⟩

theorem followed_gets (features : List AddressItem) : Followed (features.map .get) := by
  induction features with
  | nil => trivial
  | cons f features ih => exact ⟨nofun, ih⟩

theorem followed_accesses (features : List AddressItem) : Followed (accesses features) := by
  have hsub : ∀ l : List AddressItem, l ⊆ features →
      Followed (l.map .touch ++ features.map .get) := by
    intro l
    induction l with
    | nil => exact fun _ => followed_gets features
    | cons f l ih =>
      intro hl
      refine ⟨fun _ => mem_append_right _ ?_, ih fun x hx => hl (mem_cons_of_mem _ hx)⟩
      exact mem_map_of_mem (f := Access.get) (hl mem_cons_self)
  exact hsub features (List.Subset.refl _)

/-- A reader that has an access to the object before it owes something for it. -/
theorem owedBy_pos (h : Followed q) (ha : a ∈ q) : 0 < owedBy (item a).monotonicId q := by
  have hget : ∀ (q : List Access) (f : AddressItem), .get f ∈ q →
      0 < owedBy f.monotonicId q := by
    intro q f hf
    have hle : weight f.monotonicId (.get f) ≤ owedBy f.monotonicId q :=
      le_sum_of_mem (mem_map_of_mem hf)
    have hone : weight f.monotonicId (.get f) = 1 := if_pos rfl
    omega
  induction q with
  | nil => exact absurd ha not_mem_nil
  | cons b q ih =>
    have htail : 0 < owedBy (item a).monotonicId q →
        0 < owedBy (item a).monotonicId (b :: q) := fun hpos => by
      unfold owedBy at hpos ⊢
      rw [map_cons, sum_cons]
      omega
    rcases mem_cons.mp ha with rfl | ha
    · cases a with
      | touch f => exact htail (hget q f (h.1 rfl))
      | get f => exact hget _ f mem_cons_self
    · exact htail (ih h.2 ha)

theorem owed_pos (hq : q ∈ readers) (h : Followed q) (ha : a ∈ q) :
    0 < owed (item a).monotonicId readers :=
  Nat.lt_of_lt_of_le (owedBy_pos h ha)
    (le_sum_of_mem (mem_map_of_mem (f := owedBy (item a).monotonicId) hq))

end Owed

/-! ### The invariant -/

section Inv

variable {c : ShmCache} {id : Nat}

/-- The object of an item is live. -/
def Held (s : SingleWriterShmObjectStorage) (f : AddressItem) : Prop :=
  Live s f.monotonicId f.address

/-- The invariant of the system. What the request that is not yet sent refers to is only held when
there are readers. -/
structure CacheInv (c : ShmCache) : Prop where
  storage : StorageInv c.storage
  length : c.readers.length = c.storage.nReaders
  balance : ∀ id address, Live c.storage id address →
    c.storage.readerCount address + (allOwed c id : Nat) =
      (writerCount c.storage id * c.storage.nReaders : Nat)
  followed : ∀ q ∈ c.readers, Followed q
  queued : ∀ q ∈ c.readers, ∀ a ∈ q, Held c.storage (item a)
  features : 0 < c.storage.nReaders → ∀ m ∈ c.merge, ∀ f ∈ m.features, Held c.storage f
  pinned : 0 < c.storage.nReaders → ∀ m ∈ c.merge, ∀ u ∈ m.toUpdate, u.2 = none →
    ∃ v, c.storage.keyIndex.get? u.1 = some v

variable {s' : SingleWriterShmObjectStorage}

/-- An object for which something is owed is not freed. -/
theorem CacheInv.not_freed (h : CacheInv c) {freed : List Nat} (hkept : Kept c.storage s' freed)
    (howed : 0 < allOwed c id) :
    id ∉ freed := by
  intro hid
  obtain ⟨address, hlive, hcount⟩ := hkept.free id hid
  have := h.balance id address hlive
  omega

theorem CacheInv.owed_of_queued (h : CacheInv c) {q : List Access} {a : Access}
    (hq : q ∈ c.readers) (ha : a ∈ q) : 0 < allOwed c (item a).monotonicId := by
  have := owed_pos hq (h.followed q hq) ha
  unfold allOwed
  omega

theorem CacheInv.owed_of_merge {m : Merge} (hm : c.merge = some m)
    (hn : 0 < c.storage.nReaders) (hpos : 0 < mergeOwed c.storage id m) : 0 < allOwed c id := by
  unfold allOwed
  rw [hm]
  exact Nat.lt_of_lt_of_le (Nat.mul_pos hn hpos) (Nat.le_add_left _ _)

theorem mergeOwed_pos_of_feature {s : SingleWriterShmObjectStorage} {m : Merge} {f : AddressItem}
    (hf : f ∈ m.features) : 0 < mergeOwed s f.monotonicId m := by
  have hle : itemWeight f.monotonicId f ≤ (m.features.map (itemWeight f.monotonicId)).sum :=
    le_sum_of_mem (mem_map_of_mem hf)
  have hone : weight f.monotonicId (.get f) = 1 := if_pos rfl
  have hitem : itemWeight f.monotonicId f =
      weight f.monotonicId (.touch f) + weight f.monotonicId (.get f) := rfl
  unfold mergeOwed
  omega

theorem mergeOwed_pos_of_update {s : SingleWriterShmObjectStorage} {m : Merge}
    {u : String × Option SerializedObject} {v : Int × Nat} (hu : u ∈ m.toUpdate)
    (hnone : u.2 = none) (hv : s.keyIndex.get? u.1 = some v) : 0 < mergeOwed s v.2 m := by
  have hle : touchWeight s v.2 u ≤ (m.toUpdate.map (touchWeight s v.2)).sum :=
    le_sum_of_mem (mem_map_of_mem hu)
  have hone : touchWeight s v.2 u = 1 := by
    unfold touchWeight
    rw [hv]
    exact if_pos ⟨hnone, rfl⟩
  unfold mergeOwed
  omega

/-- What is owed for the request depends on the index only where the keys were counted. -/
theorem mergeOwed_congr {s : SingleWriterShmObjectStorage} {m : Merge}
    (h : ∀ u ∈ m.toUpdate, u.2 = none → s'.keyIndex.get? u.1 = s.keyIndex.get? u.1) :
    mergeOwed s' id m = mergeOwed s id m := by
  unfold mergeOwed
  refine congrArg (· + _) (congrArg List.sum (map_congr_left fun u hu => ?_))
  unfold touchWeight
  by_cases hnone : u.2 = none
  · rw [h u hu hnone]
  · rw [if_neg fun hand => hnone hand.1, if_neg fun hand => hnone hand.1]

/-- Freeing objects keeps the invariant: what is owed pins its object. -/
theorem cacheInv_kept (h : CacheInv c) {freed : List Nat} (hs' : StorageInv s')
    (hkept : Kept c.storage s' freed) :
    CacheInv { c with storage := s' } := by
  have hn : s'.nReaders = c.storage.nReaders := hkept.nReaders
  have hpin : ∀ m ∈ c.merge, 0 < c.storage.nReaders → ∀ u ∈ m.toUpdate, u.2 = none →
      s'.keyIndex.get? u.1 = c.storage.keyIndex.get? u.1 := by
    intro m hm hpos u hu hnone
    obtain ⟨v, hv⟩ := h.pinned hpos m hm u hu hnone
    have hnot := h.not_freed hkept
      (CacheInv.owed_of_merge hm hpos (mergeOwed_pos_of_update hu hnone hv))
    rw [hv]
    exact (hkept.key u.1 v).mpr ⟨hv, hnot⟩
  have howed : ∀ id, allOwed { c with storage := s' } id = allOwed c id := by
    intro id
    unfold allOwed
    dsimp only
    rw [hn]
    rcases Nat.eq_zero_or_pos c.storage.nReaders with hzero | hpos
    · rw [hzero, Nat.zero_mul, Nat.zero_mul]
    · cases hm : c.merge with
      | none => rfl
      | some m =>
        have hsame : mergeOwed s' id m = mergeOwed c.storage id m :=
          mergeOwed_congr (hpin m hm hpos)
        simp only [Option.map_some, Option.getD_some, hsame]
  refine ⟨hs', h.length.trans hn.symm, fun id address hlive => ?_, h.followed,
    fun q hq a ha => ?_, fun hpos m hm f hf => ?_, fun hpos m hm u hu hnone => ?_⟩
  · obtain ⟨hlive', hnot⟩ := (hkept.live id address).mp hlive
    have := h.balance id address hlive'
    rw [howed]
    dsimp only
    rw [hkept.count id address hlive, hkept.flag id hnot, hn]
    exact this
  · exact (hkept.live _ _).mpr ⟨h.queued q hq a ha,
      h.not_freed hkept (h.owed_of_queued hq ha)⟩
  · have hpos' : 0 < c.storage.nReaders := hn ▸ hpos
    exact (hkept.live _ _).mpr ⟨h.features hpos' m hm f hf,
      h.not_freed hkept (CacheInv.owed_of_merge hm hpos' (mergeOwed_pos_of_feature hf))⟩
  · have hpos' : 0 < c.storage.nReaders := hn ▸ hpos
    obtain ⟨v, hv⟩ := h.pinned hpos' m hm u hu hnone
    exact ⟨v, (hpin m hm hpos' u hu hnone).trans hv⟩

/-- The writer counts an access to an object, and the request owes one more for it. -/
theorem cacheInv_count (h : CacheInv c) {v : Int × Nat} {m m' : Merge} (hm : c.merge = some m)
    (hlive : Live c.storage v.2 v.1)
    (howed : ∀ id, mergeOwed c.storage id m' = mergeOwed c.storage id m + if id = v.2 then 1 else 0)
    (hfeatures : ∀ f ∈ m'.features, f ∈ m.features ∨ Held c.storage f)
    (hpinned : ∀ u ∈ m'.toUpdate, u.2 = none → u ∈ m.toUpdate ∨
      ∃ v, c.storage.keyIndex.get? u.1 = some v) :
    CacheInv { c with storage := c.storage.incrementWriterFlag v.2, merge := some m' } := by
  obtain ⟨hinv, hself, hother⟩ := incrementWriterFlag_spec h.storage hlive
  refine ⟨hinv, h.length, fun id address hl => ?_, h.followed, h.queued,
    fun hpos m'' hm'' f hf => ?_, fun hpos m'' hm'' u hu hnone => ?_⟩
  · have hbal := h.balance id address hl
    have hnew : allOwed { c with
        storage := c.storage.incrementWriterFlag v.2, merge := some m' } id =
        owed id c.readers + c.storage.nReaders * mergeOwed c.storage id m' := rfl
    have hold : allOwed c id =
        owed id c.readers + c.storage.nReaders * mergeOwed c.storage id m := by
      unfold allOwed
      rw [hm]
      rfl
    have hcount : (c.storage.incrementWriterFlag v.2).readerCount address =
        c.storage.readerCount address := rfl
    have hn : (c.storage.incrementWriterFlag v.2).nReaders = c.storage.nReaders := rfl
    rw [hnew]
    dsimp only
    rw [hcount, hn, howed]
    rw [hold] at hbal
    by_cases hid : id = v.2
    · rw [if_pos hid, hid, hself, Nat.mul_add, Nat.mul_one, Nat.add_mul, Nat.one_mul]
      rw [hid] at hbal
      omega
    · rw [if_neg hid, hother id hid, Nat.add_zero]
      exact hbal
  · cases hm''
    rcases hfeatures f hf with hf | hheld
    · exact h.features hpos m hm f hf
    · exact hheld
  · cases hm''
    rcases hpinned u hu hnone with hu | hv
    · exact h.pinned hpos m hm u hu hnone
    · exact hv

end Inv

/-! ### The condition and the steps -/

section Steps

variable {c : ShmCache} {m : Merge}

/-- Nothing has been counted for the request. -/
def Uncounted (m : Merge) : Prop :=
  m.features = [] ∧ ∀ u ∈ m.toUpdate, u.2 ≠ none

/-- A new item is stored while there are fewer objects than ids; its size fits into four bytes,
or nothing was counted for the request. -/
def UpdateFits (c : ShmCache) (m : Merge) : Prop :=
  m.toTouch = [] → ∀ u ∈ m.toUpdate.head?, ∀ value ∈ u.2, c.storage.isCached u.1 = true ∨
    (c.storage.ringBuffer.metadata.size + 1 < idMax ∧
      (value.bufferSize + mdSize < 2147483648 ∨ Uncounted m))

/-- A reader counts a touch exactly when the writer has counted it. -/
def TouchAgrees (c : ShmCache) : Access → Prop
  | .touch item =>
    c.storage.readerCount item.address ≥ c.storage.nReaders ↔ item.cached = true
  | .get _ => True

/-- The condition of the runs. -/
def Counts (c : ShmCache) : ShmOp → Prop
  | .update => ∀ m ∈ c.merge, UpdateFits c m
  | .reject => ∀ m ∈ c.merge, m.features = []
  | .access reader => ∀ q ∈ c.readers[reader]?, ∀ a ∈ q.head?, TouchAgrees c a
  | _ => True

/-- A request for which nothing is owed is given up. -/
theorem cacheInv_drop (h : CacheInv c)
    (hzero : ∀ id, c.storage.nReaders * (c.merge.map (mergeOwed c.storage id)).getD 0 = 0) :
    CacheInv { c with merge := none } := by
  refine ⟨h.storage, h.length, fun id address hlive => ?_, h.followed, h.queued,
    fun _ m hm => (nomatch hm), fun _ m hm => (nomatch hm)⟩
  have hbal := h.balance id address hlive
  have hold : allOwed c id = owed id c.readers := by
    unfold allOwed
    rw [hzero, Nat.add_zero]
  have hnew : allOwed { c with merge := none } id = owed id c.readers := by
    show owed id c.readers + c.storage.nReaders * 0 = _
    rw [Nat.mul_zero, Nat.add_zero]
  rw [hnew, ← hold]
  exact hbal

theorem cacheInv_touchNext (h : CacheInv c) (hm : c.merge = some m) : CacheInv (c.touchNext m) := by
  unfold touchNext
  cases htouch : m.toTouch with
  | nil => exact h
  | cons u toTouch =>
    obtain ⟨mmHash, value⟩ := u
    dsimp only
    have hsum : ∀ (mmItem : Option SerializedObject) (id : Nat),
        mergeOwed c.storage id { m with toTouch, toUpdate := m.toUpdate ++ [(mmHash, mmItem)] } =
          mergeOwed c.storage id m + touchWeight c.storage id (mmHash, mmItem) := by
      intro mmItem id
      unfold mergeOwed
      simp only [map_append, sum_append, map_cons, map_nil, sum_cons,
        sum_nil]
      omega
    unfold touchWriter isCached PyDict.contains
    cases hkey : c.storage.keyIndex.get? mmHash with
    | some v =>
      refine cacheInv_count h hm (h.storage.live_of_key hkey) (fun id => ?_)
        (fun f hf => .inl hf) (fun u hu _ => ?_)
      · have hweight : touchWeight c.storage id (mmHash, none) = if id = v.2 then 1 else 0 := by
          unfold touchWeight
          dsimp only
          rw [hkey]
          by_cases hid : id = v.2
          · rw [if_pos hid, hid]
            exact if_pos ⟨rfl, rfl⟩
          · rw [if_neg hid]
            exact if_neg fun hand => hid (Option.some.inj hand.2).symm
        rw [← hweight]
        exact hsum none id
      · rcases mem_append.mp hu with hu | hu
        · exact .inl hu
        · obtain rfl := mem_singleton.mp hu
          exact .inr ⟨v, hkey⟩
    | none =>
      refine ⟨h.storage, h.length, fun id address hlive => ?_, h.followed, h.queued,
        fun hpos m' hm' f hf => ?_, fun hpos m' hm' u hu hnone => ?_⟩
      · have hbal := h.balance id address hlive
        unfold allOwed at hbal ⊢
        rw [hm] at hbal
        simp only [Option.map_some, Option.getD_some, Option.isSome_none, Bool.false_eq_true,
          if_false, hsum] at hbal ⊢
        have hweight : touchWeight c.storage id (mmHash, some value) = 0 :=
          if_neg fun hand => (nomatch hand.1)
        rw [hweight, Nat.add_zero]
        exact hbal
      · cases hm'
        exact h.features hpos m hm f hf
      · cases hm'
        rcases mem_append.mp hu with hu | hu
        · exact h.pinned hpos m hm u hu hnone
        · obtain rfl := mem_singleton.mp hu
          cases hnone

theorem cacheInv_sendNext (h : CacheInv c) (hm : c.merge = some m) : CacheInv (c.sendNext m) := by
  unfold sendNext
  split
  · rename_i htouch hupdate
    refine ⟨h.storage, (length_map _).trans h.length, fun id address hlive => ?_,
      fun q hq => ?_, fun q hq a ha => ?_, fun _ m' hm' => (nomatch hm'),
      fun _ m' hm' => (nomatch hm')⟩
    · have hbal := h.balance id address hlive
      have howed : allOwed { c with
          merge := none, readers := c.readers.map (· ++ accesses m.features) } id =
          allOwed c id := by
        unfold allOwed mergeOwed
        rw [hm]
        simp only [Option.map_some, Option.map_none, Option.getD_some, Option.getD_none, owed_send,
          hupdate, map_nil, sum_nil, h.length, Nat.mul_zero, Nat.add_zero, Nat.zero_add]
      rw [howed]
      exact hbal
    · obtain ⟨q0, hq0, rfl⟩ := mem_map.mp hq
      exact followed_append (h.followed q0 hq0) (followed_accesses m.features)
    · obtain ⟨q0, hq0, rfl⟩ := mem_map.mp hq
      have hpos : 0 < c.storage.nReaders := by
        rw [← h.length]
        exact length_pos_of_mem hq0
      rcases mem_append.mp ha with ha | ha
      · exact h.queued q0 hq0 a ha
      · rcases mem_append.mp ha with ha | ha
        · obtain ⟨f, hf, rfl⟩ := mem_map.mp ha
          exact h.features hpos m hm f hf
        · obtain ⟨f, hf, rfl⟩ := mem_map.mp ha
          exact h.features hpos m hm f hf
  · exact h

/-- The request changes, and what is owed for it does not. -/
theorem cacheInv_merge (h : CacheInv c) (hm : c.merge = some m) {m' : Merge}
    (howed : ∀ id, mergeOwed c.storage id m' = mergeOwed c.storage id m)
    (hfeatures : m'.features ⊆ m.features) (hupdate : m'.toUpdate ⊆ m.toUpdate) :
    CacheInv { c with merge := some m' } := by
  refine ⟨h.storage, h.length, fun id address hlive => ?_, h.followed, h.queued,
    fun hpos m'' hm'' f hf => ?_, fun hpos m'' hm'' u hu hnone => ?_⟩
  · have hbal := h.balance id address hlive
    have hsame : allOwed { c with merge := some m' } id = allOwed c id := by
      unfold allOwed
      rw [hm]
      simp only [Option.map_some, Option.getD_some, howed]
    rw [hsame]
    exact hbal
  · cases hm''
    exact h.features hpos m hm f (hfeatures hf)
  · cases hm''
    exact h.pinned hpos m hm u (hupdate hu) hnone

variable {a : Access}

theorem weight_of_ne {id : Nat} (hne : id ≠ (item a).monotonicId) : weight id a = 0 := by
  cases a with
  | get f => exact if_neg fun heq => hne heq.symm
  | touch f => exact if_neg fun hand => hne hand.1.symm

/-- Nothing is owed for an id that is not in use. -/
theorem CacheInv.owed_eq_zero (h : CacheInv c) {id : Nat}
    (hfresh : ∀ a, ¬ Live c.storage id a) : owed id c.readers = 0 := by
  refine sum_eq_zero fun x hx => ?_
  obtain ⟨q, hq, rfl⟩ := mem_map.mp hx
  refine sum_eq_zero fun y hy => ?_
  obtain ⟨a, ha, rfl⟩ := mem_map.mp hy
  refine weight_of_ne fun heq => hfresh (item a).address ?_
  rw [heq]
  exact h.queued q hq a ha

theorem mergeOwed_eq_zero {s : SingleWriterShmObjectStorage} {id : Nat}
    (hupdate : ∀ u ∈ m.toUpdate, u.2 = none → ∀ v, s.keyIndex.get? u.1 = some v → v.2 ≠ id)
    (hfeatures : ∀ f ∈ m.features, f.monotonicId ≠ id) : mergeOwed s id m = 0 := by
  have hupdate0 : (m.toUpdate.map (touchWeight s id)).sum = 0 := by
    refine sum_eq_zero fun x hx => ?_
    obtain ⟨u, hu, rfl⟩ := mem_map.mp hx
    refine if_neg fun hand => ?_
    obtain ⟨v, hv, hid⟩ := Option.map_eq_some_iff.mp hand.2
    exact hupdate u hu hand.1 v hv hid
  have hfeatures0 : (m.features.map (itemWeight id)).sum = 0 := by
    refine sum_eq_zero fun x hx => ?_
    obtain ⟨f, hf, rfl⟩ := mem_map.mp hx
    have hne : id ≠ f.monotonicId := (hfeatures f hf).symm
    show weight id (.touch f) + weight id (.get f) = 0
    rw [weight_of_ne (a := .touch f) hne, weight_of_ne (a := .get f) hne]
  unfold mergeOwed
  rw [hupdate0, hfeatures0]

/-- A new object is stored, and the request refers to it. -/
theorem cacheInv_stored (h : CacheInv c) (hm : c.merge = some m)
    {s' : SingleWriterShmObjectStorage} {key : String} {id : Nat} {address : Int}
    (hs' : StorageInv s') (hstored : Stored c.storage s' key id address)
    (hkey : c.storage.keyIndex.get? key = none) :
    CacheInv { c with
      storage := s'
      merge := some { m with
        features := m.features ++ [{ address, monotonicId := id, cached := false }] } } := by
  have hpin : 0 < c.storage.nReaders → ∀ u ∈ m.toUpdate, u.2 = none →
      s'.keyIndex.get? u.1 = c.storage.keyIndex.get? u.1 := by
    intro hpos u hu hnone
    obtain ⟨v, hv⟩ := h.pinned hpos m hm u hu hnone
    rw [hstored.key]
    refine PyDict.get?_insert_of_ne _ _ fun heq => ?_
    rw [heq, hkey] at hv
    cases hv
  have hn := hstored.nReaders
  have hmerge : ∀ i, c.storage.nReaders * mergeOwed s' i { m with
      features := m.features ++ [{ address, monotonicId := id, cached := false }] } =
      c.storage.nReaders * (mergeOwed c.storage i m + if i = id then 1 else 0) := by
    intro i
    rcases Nat.eq_zero_or_pos c.storage.nReaders with hzero | hpos
    · rw [hzero, Nat.zero_mul, Nat.zero_mul]
    · have hsame : mergeOwed s' i m = mergeOwed c.storage i m := mergeOwed_congr (hpin hpos)
      rw [← hsame]
      have hweight : itemWeight i { address, monotonicId := id, cached := false } =
          if i = id then 1 else 0 := by
        show (if id = i ∧ false = true then 1 else 0) + (if id = i then 1 else 0) = _
        rw [if_neg fun hand => Bool.false_ne_true hand.2, Nat.zero_add]
        by_cases hi : i = id
        · rw [if_pos hi, if_pos hi.symm]
        · rw [if_neg hi, if_neg fun heq => hi heq.symm]
      unfold mergeOwed
      simp only [map_append, sum_append, map_cons, map_nil, sum_cons,
        sum_nil, hweight, Nat.add_zero, Nat.add_assoc]
  refine ⟨hs', h.length.trans hn.symm, fun i a hlive => ?_, h.followed, fun q hq b hb => ?_,
    fun hpos m' hm' f hf => ?_, fun hpos m' hm' u hu hnone => ?_⟩
  · have hnew : allOwed { c with
        storage := s'
        merge := some { m with
          features := m.features ++ [{ address, monotonicId := id, cached := false }] } } i =
        owed i c.readers + c.storage.nReaders *
          (mergeOwed c.storage i m + if i = id then 1 else 0) := by
      unfold allOwed
      simp only [Option.map_some, Option.getD_some, hn, hmerge]
    rw [hnew]
    dsimp only
    rw [hn]
    rcases (hstored.live i a).mp hlive with hlive | ⟨rfl, rfl⟩
    · have hne : i ≠ id := fun heq => hstored.fresh a (heq ▸ hlive)
      have hbal := h.balance i a hlive
      have hold : allOwed c i =
          owed i c.readers + c.storage.nReaders * mergeOwed c.storage i m := by
        unfold allOwed
        rw [hm]
        rfl
      rw [if_neg hne, Nat.add_zero, hstored.other i a hlive, hstored.flags i hne, ← hold]
      exact hbal
    · have hzero : c.storage.nReaders * mergeOwed c.storage i m = 0 := by
        rcases Nat.eq_zero_or_pos c.storage.nReaders with hzero | hpos
        · rw [hzero, Nat.zero_mul]
        · have hnothing : mergeOwed c.storage i m = 0 := by
            refine mergeOwed_eq_zero (fun u _ _ v hv heq => ?_) fun f hf heq => ?_
            · exact hstored.fresh v.1 (heq ▸ h.storage.live_of_key hv)
            · exact hstored.fresh f.address (heq ▸ h.features hpos m hm f hf)
          rw [hnothing, Nat.mul_zero]
      rw [if_pos rfl, hstored.self, hstored.flag, h.owed_eq_zero hstored.fresh, Nat.mul_add, hzero]
      omega
  · exact (hstored.live _ _).mpr (.inl (h.queued q hq b hb))
  · cases hm'
    rcases mem_append.mp hf with hf | hf
    · exact (hstored.live _ _).mpr (.inl (h.features (hn ▸ hpos) m hm f hf))
    · obtain rfl := mem_singleton.mp hf
      exact (hstored.live _ _).mpr (.inr ⟨rfl, rfl⟩)
  · cases hm'
    obtain ⟨v, hv⟩ := h.pinned (hn ▸ hpos) m hm u hu hnone
    exact ⟨v, (hpin (hn ▸ hpos) u hu hnone).trans hv⟩

variable {toUpdate : List (String × Option SerializedObject)}

/-- The next `get_and_update_item` of an item that is in the cache. -/
theorem cacheInv_updateCached (h : CacheInv c) (hm : c.merge = some m) {mmHash : String}
    {mmItem : Option SerializedObject} {v : Int × Nat}
    (hupdate : m.toUpdate = (mmHash, mmItem) :: toUpdate)
    (hkey : c.storage.keyIndex.get? mmHash = some v) :
    CacheInv { c with
      storage := c.storage.incrementWriterFlag v.2
      merge := some { m with
        toUpdate
        features := m.features ++
          [{ address := v.1, monotonicId := v.2, cached := mmItem.isNone }] } } := by
  have hlive := h.storage.live_of_key hkey
  refine cacheInv_count h hm hlive (fun id => ?_) (fun f hf => ?_) (fun u hu _ => ?_)
  · have htouch : touchWeight c.storage id (mmHash, mmItem) =
        weight id (.touch { address := v.1, monotonicId := v.2, cached := mmItem.isNone }) := by
      unfold touchWeight weight
      dsimp only
      rw [hkey]
      refine if_congr ?_ rfl rfl
      rw [Option.map_some, Option.some.injEq, Option.isNone_iff_eq_none]
      exact and_comm
    have hget : weight id (.get { address := v.1, monotonicId := v.2, cached := mmItem.isNone }) =
        if id = v.2 then 1 else 0 := by
      show (if v.2 = id then 1 else 0) = _
      exact if_congr eq_comm rfl rfl
    unfold mergeOwed
    rw [hupdate]
    simp only [map_append, sum_append, map_cons, map_nil, sum_cons,
      sum_nil, itemWeight, htouch, hget]
    omega
  · rcases mem_append.mp hf with hf | hf
    · exact .inl hf
    · obtain rfl := mem_singleton.mp hf
      exact .inr hlive
  · refine .inl ?_
    rw [hupdate]
    exact mem_cons_of_mem _ hu

/-- The next `get_and_update_item` of an item that is not in the cache. -/
theorem cacheInv_updateNew (h : CacheInv c) (hm : c.merge = some m) {mmHash : String}
    {value : SerializedObject} (hupdate : m.toUpdate = (mmHash, some value) :: toUpdate)
    (hkey : c.storage.keyIndex.get? mmHash = none)
    (hfew : c.storage.ringBuffer.metadata.size + 1 < idMax)
    (hfits : value.bufferSize + mdSize < 2147483648 ∨ Uncounted m) :
    CacheInv (match getAndUpdateItem c.storage (some value) mmHash with
      | (.error _, storage) => { c with storage, merge := none }
      | (.ok feature, storage) =>
        { c with storage, merge := some { m with
            toUpdate, features := m.features ++ feature.toList } }) := by
  have hzero : ∀ s id, touchWeight s id (mmHash, some value) = 0 := fun s id =>
    if_neg fun hand => (nomatch hand.1)
  have hcontains : ¬ c.storage.isCached mmHash = true := by
    unfold isCached PyDict.contains
    rw [hkey]
    exact Bool.false_ne_true
  -- What is left when the item is not stored.
  have hskip : ∀ s', StorageInv s' → ∀ freed, Kept c.storage s' freed →
      CacheInv { c with storage := s', merge := some { m with
        toUpdate, features := m.features ++ (none : Option AddressItem).toList } } := by
    intro s' hs' freed hkept
    refine cacheInv_merge (c := { c with storage := s' }) (cacheInv_kept h hs' hkept) hm
      (fun id => ?_) ?_ ?_
    · unfold mergeOwed
      rw [hupdate]
      simp only [Option.toList_none, append_nil, map_cons, sum_cons, hzero,
        Nat.zero_add]
    · rw [Option.toList_none, append_nil]
      exact List.Subset.refl _
    · rw [hupdate]
      exact subset_cons_self _ _
  unfold getAndUpdateItem
  rw [if_neg hcontains]
  dsimp only
  obtain ⟨hs', ⟨e, freed, herr, hkept, hkind⟩ |
    ⟨address, id, mid, freed, hok, hmid, hkept, hstored⟩⟩ := putResult_put value h.storage hfew hkey
  · split
    · rename_i e' storage heq
      split at heq
      · cases heq
      · cases heq
      · cases heq
      · rename_i e'' s'' hvalue hmemory hput
        obtain ⟨-, rfl⟩ := Prod.mk.inj heq
        rw [hput] at herr hs' hkept
        obtain rfl := Except.error.inj herr
        have huncounted : Uncounted m := by
          rcases hkind with ⟨msg, rfl⟩ | ⟨msg, rfl⟩ | hlarge
          · exact absurd rfl (hvalue msg)
          · exact absurd rfl (hmemory msg)
          · exact hfits.resolve_left (Int.not_lt.mpr hlarge)
        refine cacheInv_drop (c := { c with storage := s'' }) (cacheInv_kept h hs' hkept)
          fun id => ?_
        dsimp only
        rw [hm, Option.map_some, Option.getD_some]
        have hnothing : mergeOwed s'' id m = 0 := by
          unfold mergeOwed
          rw [huncounted.1, map_nil, sum_nil, Nat.add_zero]
          refine sum_eq_zero fun x hx => ?_
          obtain ⟨u, hu, rfl⟩ := mem_map.mp hx
          exact if_neg fun hand => huncounted.2 u hu hand.1
        rw [hnothing, Nat.mul_zero]
    · rename_i feature storage heq
      split at heq
      · rename_i hput
        rw [hput] at herr
        cases herr
      · rename_i hput
        obtain ⟨hfeature, rfl⟩ := Prod.mk.inj heq
        cases hfeature
        rw [hput] at hs' hkept
        exact hskip _ hs' freed hkept
      · rename_i hput
        obtain ⟨hfeature, rfl⟩ := Prod.mk.inj heq
        cases hfeature
        rw [hput] at hs' hkept
        exact hskip _ hs' freed hkept
      · cases heq
  · obtain ⟨result, storage, hput⟩ : ∃ result storage, c.storage.put mmHash value =
        (result, storage) := ⟨_, _, rfl⟩
    rw [hput] at hok hs' hstored ⊢
    dsimp only at hok hs' hstored ⊢
    subst hok
    dsimp only
    have hkey' : mid.keyIndex.get? mmHash = none := by
      rw [Option.eq_none_iff_forall_not_mem]
      intro v hv
      have hv' := ((hkept.key mmHash v).mp hv).1
      rw [hkey] at hv'
      cases hv'
    have hmid' := hskip mid hmid freed hkept
    rw [Option.toList_none, append_nil] at hmid'
    exact cacheInv_stored hmid' rfl hs' hstored hkey'

theorem cacheInv_updateNext (h : CacheInv c) (hm : c.merge = some m) (hfits : UpdateFits c m) :
    CacheInv (c.updateNext m) := by
  unfold updateNext
  split
  · rename_i mmHash mmItem toUpdate htouch hupdate
    have hhead : (mmHash, mmItem) ∈ m.toUpdate.head? := by
      rw [hupdate]
      rfl
    cases hkey : c.storage.keyIndex.get? mmHash with
    | some v =>
      have hcontains : c.storage.isCached mmHash = true := by
        unfold isCached PyDict.contains
        rw [hkey]
        rfl
      have heq : getAndUpdateItem c.storage mmItem mmHash =
          (.ok (some { address := v.1, monotonicId := v.2, cached := mmItem.isNone }),
            c.storage.incrementWriterFlag v.2) := by
        unfold getAndUpdateItem getCached
        rw [if_pos hcontains, hkey]
      rw [heq]
      exact cacheInv_updateCached h hm hupdate hkey
    | none =>
      have hcontains : c.storage.isCached mmHash = false := by
        unfold isCached PyDict.contains
        rw [hkey]
        rfl
      cases mmItem with
      | some value =>
        rcases hfits htouch _ hhead value rfl with hcached | ⟨hfew, hfits⟩
        · rw [hcontains] at hcached
          cases hcached
        · exact cacheInv_updateNew h hm hupdate hkey hfew hfits
      | none =>
        -- The item was counted, so that it is gone only when there are no readers.
        have heq : getAndUpdateItem c.storage none mmHash =
            (.error (.assertionError "Expected a cached item for mm_hash"), c.storage) := by
          unfold getAndUpdateItem
          rw [if_neg (by rw [hcontains]; exact Bool.false_ne_true)]
        rw [heq]
        refine cacheInv_drop h fun id => ?_
        rcases Nat.eq_zero_or_pos c.storage.nReaders with hzero | hpos
        · rw [hzero, Nat.zero_mul]
        · obtain ⟨v, hv⟩ := h.pinned hpos m hm (mmHash, none) (hupdate ▸ mem_cons_self) rfl
          rw [hkey] at hv
          cases hv
  · exact h

variable {storage : SingleWriterShmObjectStorage}

/-- An access is counted by the reader when it was by the writer, and else changes nothing. -/
theorem perform_cases {s : SingleWriterShmObjectStorage} (hs : StorageInv s)
    (hheld : Held s (item a)) (hagrees : TouchAgrees { c with storage := s } a)
    (hstep : perform s a = .ok storage) :
    (weight (item a).monotonicId a = 1 ∧
      ReadCounted s storage (item a).monotonicId (item a).address) ∨
    (weight (item a).monotonicId a = 0 ∧ storage = s) := by
  cases a with
  | get f =>
    obtain ⟨result, hget, hres⟩ := bind_ok hstep
    cases hres
    unfold SingleWriterShmObjectStorage.get at hget
    split at hget
    · cases hget
    · obtain ⟨s', hs', hpair⟩ := bind_ok hget
      cases hpair
      exact .inl ⟨if_pos rfl, incrementReaderFlag_spec hs hheld hs'⟩
  | touch f =>
    have htouch : s.touchReader f.address = .ok storage := hstep
    unfold SingleWriterShmObjectStorage.touchReader at htouch
    split at htouch
    · rename_i hge
      exact .inl ⟨if_pos ⟨rfl, hagrees.mp hge⟩, incrementReaderFlag_spec hs hheld htouch⟩
    · rename_i hlt
      exact .inr ⟨if_neg fun hand => hlt (hagrees.mpr hand.2), (Except.ok.inj htouch).symm⟩

/-- A reader performs its next access. -/
theorem cacheInv_access (h : CacheInv c) {reader : Nat} {rest : List Access}
    (hq : c.readers[reader]? = some (a :: rest)) (hagrees : TouchAgrees c a)
    (hstep : perform c.storage a = .ok storage) :
    CacheInv { c with storage, readers := c.readers.set reader rest } := by
  have hmem : a :: rest ∈ c.readers := mem_of_getElem? hq
  have hheld := h.queued _ hmem a mem_cons_self
  have hsub : ∀ q ∈ c.readers.set reader rest, ∀ b ∈ q, ∃ q' ∈ c.readers, b ∈ q' := by
    intro q hq' b hb
    rcases mem_or_eq_of_mem_set hq' with hq' | rfl
    · exact ⟨q, hq', hb⟩
    · exact ⟨a :: q, hmem, mem_cons_of_mem _ hb⟩
  have hfollowed : ∀ q ∈ c.readers.set reader rest, Followed q := by
    intro q hq'
    rcases mem_or_eq_of_mem_set hq' with hq' | rfl
    · exact h.followed q hq'
    · exact (h.followed _ hmem).2
  have howed : ∀ id, owed id (c.readers.set reader rest) + weight id a = owed id c.readers :=
    fun id => owed_set hq
  rcases perform_cases (c := c) h.storage hheld hagrees hstep with
    ⟨hone, hread⟩ | ⟨hzero, rfl⟩
  · refine ⟨hread.inv, ?_, fun id address hlive => ?_, hfollowed, fun q hq' b hb => ?_,
      fun hpos m hm f hf => ?_, fun hpos m hm u hu hnone => ?_⟩
    · rw [length_set, h.length]
      exact hread.nReaders.symm
    · have hlive' := (hread.live id address).mp hlive
      have hbal := h.balance id address hlive'
      have hmerge : (c.merge.map (mergeOwed storage id)).getD 0 =
          (c.merge.map (mergeOwed c.storage id)).getD 0 := by
        unfold mergeOwed touchWeight
        rw [hread.key]
      have hflag : writerCount storage id = writerCount c.storage id := by
        unfold writerCount
        rw [hread.flag]
      unfold allOwed at hbal ⊢
      dsimp only
      rw [hmerge, hflag, hread.nReaders]
      have hset := howed id
      by_cases hid : id = (item a).monotonicId
      · have haddr : address = (item a).address := by
          rw [hid] at hlive'
          exact Option.some.inj (hlive'.symm.trans hheld)
        rw [← hid] at hone
        rw [haddr, hread.self, ← haddr]
        omega
      · rw [hread.other id address hlive' hid]
        have := weight_of_ne hid
        omega
    · obtain ⟨q', hq'', hb'⟩ := hsub q hq' b hb
      exact (hread.live _ _).mpr (h.queued q' hq'' b hb')
    · exact (hread.live _ _).mpr (h.features (hread.nReaders ▸ hpos) m hm f hf)
    · have := h.pinned (hread.nReaders ▸ hpos) m hm u hu hnone
      dsimp only
      rw [hread.key]
      exact this
  · refine ⟨h.storage, ?_, fun id address hlive => ?_, hfollowed, fun q hq' b hb => ?_,
      h.features, h.pinned⟩
    · rw [length_set]
      exact h.length
    · have hbal := h.balance id address hlive
      have hset := howed id
      have hweight : weight id a = 0 := by
        by_cases hid : id = (item a).monotonicId
        · rw [hid]
          exact hzero
        · exact weight_of_ne hid
      unfold allOwed at hbal ⊢
      dsimp only
      omega
    · obtain ⟨q', hq'', hb'⟩ := hsub q hq' b hb
      exact h.queued q' hq'' b hb'

theorem cacheInv_step {c' : ShmCache} {op : ShmOp} (h : CacheInv c) (hcounts : Counts c op)
    (hstep : c.step op = .ok c') : CacheInv c' := by
  cases op with
  | takeRequest items =>
    simp only [step] at hstep
    split at hstep
    · rename_i hm
      cases hstep
      refine ⟨h.storage, h.length, fun id address hlive => ?_, h.followed, h.queued,
        fun hpos m hm' f hf => ?_, fun hpos m hm' u hu => ?_⟩
      · have hbal := h.balance id address hlive
        unfold allOwed at hbal ⊢
        rw [hm] at hbal
        exact hbal
      · cases hm'
        exact absurd hf not_mem_nil
      · cases hm'
        exact absurd hu not_mem_nil
    · cases hstep
      exact h
  | touch =>
    cases hstep
    cases hm : c.merge with
    | none => exact h
    | some m => exact cacheInv_touchNext h hm
  | update =>
    cases hstep
    cases hm : c.merge with
    | none => exact h
    | some m => exact cacheInv_updateNext h hm (hcounts m hm)
  | send =>
    cases hstep
    cases hm : c.merge with
    | none => exact h
    | some m => exact cacheInv_sendNext h hm
  | reject =>
    simp only [step] at hstep
    split at hstep
    · rename_i features hm
      cases hstep
      have hnil : features = [] := hcounts _ hm
      refine cacheInv_drop h fun id => ?_
      rw [hm, hnil]
      exact Nat.mul_zero _
    · cases hstep
      exact h
  | freeUnused =>
    cases hstep
    obtain ⟨-, hs', freed, hkept⟩ := freeUnused_spec h.storage
    exact cacheInv_kept h hs' hkept
  | access reader =>
    simp only [step] at hstep
    split at hstep
    · rename_i a rest hq
      obtain ⟨storage, hperform, hc'⟩ := bind_ok hstep
      cases hc'
      exact cacheInv_access h hq (hcounts _ hq a rfl) hperform
    · cases hstep
      exact h

theorem cacheInv_start (dataBufferSize : ℕ+) (maxObjectSize nReaders : Nat) :
    CacheInv (start dataBufferSize maxObjectSize nReaders) := by
  have hempty : ∀ id address,
      ¬ Live (start dataBufferSize maxObjectSize nReaders).storage id address :=
    fun id address hlive => (nomatch hlive)
  have hqueue : ∀ q ∈ (start dataBufferSize maxObjectSize nReaders).readers, q = [] :=
    fun q hq => eq_of_mem_replicate hq
  refine ⟨⟨⟨[], ⟨atRest_start dataBufferSize, idMax_pos, fun c hc => (nomatch hc)⟩⟩,
      ⟨fun o ho => (nomatch ho), fun key v hv => (nomatch hv), fun id => ?_⟩⟩,
    length_replicate, fun id address hlive => absurd hlive (hempty id address),
    fun q hq => ?_, fun q hq a ha => ?_, fun _ m hm => (nomatch hm), fun _ m hm => (nomatch hm)⟩
  · exact ⟨nofun, nofun⟩
  · rw [hqueue q hq]
    trivial
  · rw [hqueue q hq] at ha
    exact absurd ha not_mem_nil

end Steps

/-- The request that is not yet sent does not refer to the object. -/
def Unused (c : ShmCache) (id : Nat) : Prop :=
  ∀ m ∈ c.merge, (∀ f ∈ m.features, f.monotonicId ≠ id) ∧
    ∀ u ∈ m.toUpdate, u.2 = none → ∀ v, c.storage.keyIndex.get? u.1 = some v → v.2 ≠ id

/-- In every state of a run in which the readers count the touches that the writer has counted:
the object of an access that a reader has not yet performed is in the buffer under its id and
address, and an object that no reader and no unsent request refers to is free. -/
theorem shm_cache_counts {dataBufferSize : ℕ+} {maxObjectSize nReaders : Nat} {c : ShmCache}
    (hrun : Run step Counts (start dataBufferSize maxObjectSize nReaders) c) :
    (∀ q ∈ c.readers, ∀ a ∈ q,
      c.storage.ringBuffer.metadata.get? (item a).monotonicId = some (item a).address ∧
      (c.storage.ringBuffer.header (item a).address).1 = (item a).monotonicId) ∧
    ∀ id address, c.storage.ringBuffer.metadata.get? id = some address →
      (∀ q ∈ c.readers, ∀ a ∈ q, (item a).monotonicId ≠ id) → Unused c id →
      c.storage.defaultIsFreeCheck id (c.storage.ringBuffer.dataView address) = .ok true := by
  have h := hrun.invariant CacheInv (cacheInv_start dataBufferSize maxObjectSize nReaders)
    fun _ _ _ hinv hcounts hstep => cacheInv_step hinv hcounts hstep
  refine ⟨fun q hq a ha => ?_, fun id address hlive hqueue hunused => ?_⟩
  · have hheld := h.queued q hq a ha
    obtain ⟨chunks, hring⟩ := h.storage.live
    obtain ⟨d, hd, hid, haddr⟩ := (hring.get?_iff _ _).mp hheld
    refine ⟨hheld, ?_⟩
    rw [← haddr, (hring.rest.inv.inMemory d hd).header, hid]
  · have hzero : allOwed c id = 0 := by
      have hreaders : owed id c.readers = 0 := by
        refine sum_eq_zero fun x hx => ?_
        obtain ⟨q, hq, rfl⟩ := mem_map.mp hx
        refine sum_eq_zero fun y hy => ?_
        obtain ⟨a, ha, rfl⟩ := mem_map.mp hy
        exact weight_of_ne fun heq => hqueue q hq a ha heq.symm
      have hmerge : (c.merge.map (mergeOwed c.storage id)).getD 0 = 0 := by
        cases hm : c.merge with
        | none => rfl
        | some m =>
          obtain ⟨hfeatures, hupdate⟩ := hunused m hm
          exact mergeOwed_eq_zero (fun u hu hnone v hv => hupdate u hu hnone v hv) hfeatures
      unfold allOwed
      rw [hreaders, hmerge, Nat.mul_zero]
    have hbal := h.balance id address hlive
    rw [hzero] at hbal
    rw [h.storage.check_live hlive]
    exact congrArg Except.ok (decide_eq_true (by omega))

instance (m : Merge) : Decidable (Uncounted m) :=
  inferInstanceAs (Decidable (_ ∧ ∀ u ∈ m.toUpdate, u.2 ≠ none))

instance (c : ShmCache) (m : Merge) : Decidable (UpdateFits c m) :=
  inferInstanceAs (Decidable (_ → ∀ u ∈ m.toUpdate.head?, ∀ value ∈ u.2, _))

instance (c : ShmCache) (a : Access) : Decidable (TouchAgrees c a) :=
  match a with
  | .touch item => inferInstanceAs (Decidable
      (c.storage.readerCount item.address ≥ c.storage.nReaders ↔ item.cached = true))
  | .get _ => inferInstanceAs (Decidable True)

instance (c : ShmCache) (op : ShmOp) : Decidable (Counts c op) :=
  match op with
  | .update => inferInstanceAs (Decidable (∀ m ∈ c.merge, UpdateFits c m))
  | .reject => inferInstanceAs (Decidable (∀ m ∈ c.merge, m.features = []))
  | .access reader => inferInstanceAs (Decidable
      (∀ q ∈ c.readers[reader]?, ∀ a ∈ q.head?, TouchAgrees c a))
  | .takeRequest _ => inferInstanceAs (Decidable True)
  | .touch => inferInstanceAs (Decidable True)
  | .send => inferInstanceAs (Decidable True)
  | .freeUnused => inferInstanceAs (Decidable True)

/-- The steps of a request with one item of three bytes. -/
def oneItem (mmHash : String) : List ShmOp :=
  [.takeRequest [(mmHash, ⟨[1], [2, 3]⟩)], .touch, .update, .send]

/-- Two readers: the second object is free, the second request for the first one is not yet
performed by the second reader. -/
theorem shm_cache_counts_two_readers : ∃ s₀ c : ShmCache,
    Except.ok (start 100 50 2) = (.ok s₀ : Except PyError ShmCache) ∧
      Run step Counts s₀ c ∧
      c.readers = [[], [.touch ⟨0, 0, true⟩, .get ⟨0, 0, true⟩]] ∧
      c.storage.ringBuffer.metadata.get? 0 = some 0 ∧
      c.storage.ringBuffer.metadata.get? 1 = some 15 ∧
      c.storage.defaultIsFreeCheck 1 (c.storage.ringBuffer.dataView 15) = .ok true := by
  obtain ⟨s₀, c, hstart, hrun, hreaders, hlive, hmerge⟩ := exists_run_of_check step Counts
    (fun c => c.readers = [[], [.touch ⟨0, 0, true⟩, .get ⟨0, 0, true⟩]] ∧
      c.storage.ringBuffer.metadata.get? 1 = some 15 ∧ c.merge = none)
    (.ok (start 100 50 2))
    (oneItem "x" ++ oneItem "y" ++ (List.replicate 4 (.access 0)) ++
      (List.replicate 4 (.access 1)) ++ oneItem "x" ++ [.access 0, .access 0])
    (by decide +kernel)
  cases hstart
  obtain ⟨hheld, hfree⟩ := shm_cache_counts hrun
  refine ⟨_, c, rfl, hrun, hreaders, ?_, hlive, hfree 1 15 hlive ?_ ?_⟩
  · rw [hreaders] at hheld
    exact (hheld _ (mem_cons_of_mem _ mem_cons_self) _ mem_cons_self).1
  · rw [hreaders]
    decide
  · intro m hm
    rw [hmerge] at hm
    cases hm

/-- The second reader performs both requests between the touch and the get of the first: one of
the touches that the writer has counted is lost, and the object is never free again. And with an
item that is twice in a request, the second reader counts touches that the writer has not counted:
the object is freed while this reader has accesses before it. -/
theorem shm_cache_miscounts :
    (∃ s₀ c : ShmCache, Except.ok (start 100 50 2) = (.ok s₀ : Except PyError ShmCache) ∧
      Run step (fun _ _ => True) s₀ c ∧
      (c.readers = [[], []] ∧ c.merge = none ∧ c.storage.ringBuffer.metadata.get? 0 = some 0 ∧
        c.storage.defaultIsFreeCheck 0 (c.storage.ringBuffer.dataView 0) = .ok false)) ∧
    ∃ s₀ c : ShmCache, Except.ok (start 100 50 2) = (.ok s₀ : Except PyError ShmCache) ∧
      Run step (fun _ _ => True) s₀ c ∧
      (c.readers = [[], [.touch ⟨0, 0, true⟩, .get ⟨0, 0, true⟩]] ∧
        c.storage.ringBuffer.metadata.get? 0 = none) :=
  ⟨exists_run_of_check step (fun _ _ => True) _ _
      (oneItem "x" ++ oneItem "x" ++ .access 0 :: (List.replicate 4 (.access 1)) ++
        (List.replicate 3 (.access 0)))
      (by decide +kernel),
    exists_run_of_check step (fun _ _ => True) _ _
      ([.takeRequest [("x", ⟨[1], [2, 3]⟩), ("x", ⟨[1], [2, 3]⟩)], .touch, .touch, .update, .update,
          .send] ++ (List.replicate 4 (.access 0)) ++ (List.replicate 4 (.access 1)) ++
        oneItem "x" ++ [.access 0, .access 0, .freeUnused])
      (by decide +kernel)⟩

end Vllm.Proofs.Multimodal
