import Mathlib.Data.List.Perm.Subperm
import Vllm.Lib.Run
import Vllm.V1.Core.EncoderCacheManager

/-!
# `Vllm.Proofs.Core.EncoderCache`: the slots of the encoder cache

`EncoderCacheManager` counts its slots twice and keeps two dicts. The hash of an item stands for
its content, so it determines the number of embeddings: `size` is that function.

* `EncoderInv`: the counters and the dicts agree.
* `evictLoop_spec`: the eviction loop finds what it needs, in entries without a reference.
* `encoderInv_step`: every operation keeps the invariant, `allocate` on a hash that is not
  cached.
-/

set_option autoImplicit false

namespace Vllm.Proofs.Core

open Vllm.Lib Vllm.V1 Vllm.V1.Core PyDict EncoderCacheManager List

/-- The hash of every encoder input of the request determines its number of embeddings. -/
def SizedBy (size : String → Nat) (request : Request) : Prop :=
  ∀ feature ∈ request.mmFeatures,
    feature.mmPosition.getNumEmbeds = .ok (size feature.identifier)

/-- The counters and the dicts of the encoder cache agree. -/
structure EncoderInv (size : String → Nat) (e : EncoderCacheManager) : Prop where
  decoderOnly : e.isEncoderDecoder = false
  slots : e.numFreeSlots + ((e.cached.keys.map size).sum : Nat) = e.cacheSize
  freeableSlots : e.numFreeableSlots = e.numFreeSlots + (e.freeable.values.sum : Nat)
  freeable : ∀ mmHash n, e.freeable.get? mmHash = some n ↔
    e.cached.get? mmHash = some [] ∧ n = size mmHash
  nonneg : 0 ≤ e.numFreeSlots

theorem encoderInv_init (size : String → Nat) (cacheSize : Nat) :
    EncoderInv size (.init false cacheSize) where
  decoderOnly := rfl
  slots := by
    show (cacheSize : Int) + ((0 : Nat) : Int) = cacheSize
    omega
  freeableSlots := by
    show (cacheSize : Int) = cacheSize + ((0 : Nat) : Int)
    omega
  freeable mmHash n := ⟨nofun, fun h => (by cases h.1)⟩
  nonneg := Int.natCast_nonneg _

theorem sum_le_of_sublist {l l' : List Nat} (h : l.Sublist l') : l.sum ≤ l'.sum := by
  induction h with
  | slnil => exact Nat.le_refl _
  | cons a _ ih =>
    rw [sum_cons]
    omega
  | cons_cons a _ ih =>
    rw [sum_cons, sum_cons]
    omega

namespace EncoderInv

variable {size : String → Nat} {e : EncoderCacheManager}

theorem numFreeSlots_le (h : EncoderInv size e) : e.numFreeSlots ≤ e.cacheSize := by
  have := h.slots
  omega

theorem values_freeable (h : EncoderInv size e) : e.freeable.values = e.freeable.keys.map size := by
  unfold values PyDict.keys
  rw [map_map]
  refine map_congr_left fun entry hentry => ?_
  have hget := (e.freeable.mem_entries_iff entry.1 entry.2).mp hentry
  exact ((h.freeable entry.1 entry.2).mp hget).2

/-- The entries without a reference are some of the cached ones. -/
theorem freeable_sum_le (h : EncoderInv size e) :
    e.freeable.values.sum ≤ (e.cached.keys.map size).sum := by
  have hsub : e.freeable.keys ⊆ e.cached.keys := by
    intro mmHash hm
    obtain ⟨n, hn⟩ := Option.isSome_iff_exists.mp ((e.freeable.mem_keys_iff mmHash).mp hm)
    exact mem_keys_of_get? ((h.freeable mmHash n).mp hn).1
  have hsubperm : e.freeable.keys.Subperm e.cached.keys := List.Nodup.subperm e.freeable.nodup hsub
  obtain ⟨l, hperm, hl⟩ := hsubperm
  rw [h.values_freeable, ← (hperm.map size).sum_nat]
  exact sum_le_of_sublist (hl.map size)

theorem numFreeableSlots_bounds (h : EncoderInv size e) :
    0 ≤ e.numFreeableSlots ∧ e.numFreeableSlots ≤ e.cacheSize := by
  have h1 := h.slots
  have h2 := h.freeableSlots
  have h3 := h.freeable_sum_le
  have h4 := h.nonneg
  omega

end EncoderInv

/-! ### The operations -/

section Operations
variable {size : String → Nat} {e e' : EncoderCacheManager} {request : Request} {i : Nat}

theorem mmFeature_eq_ok {feature : MultiModalFeatureSpec}
    (h : request.mmFeature i = .ok feature) : request.mmFeatures[i]? = some feature := by
  unfold Request.mmFeature at h
  split at h
  · cases h
  · rename_i f hf
    rw [hf]
    exact congrArg some (Except.ok.inj h)

theorem getNumEncoderEmbeds_eq_ok {n : Nat} (hs : SizedBy size request)
    (h : request.getNumEncoderEmbeds i = .ok n) :
    ∃ feature, request.mmFeatures[i]? = some feature ∧ n = size feature.identifier := by
  unfold Request.getNumEncoderEmbeds at h
  obtain ⟨u, -, h⟩ := bind_ok h
  obtain ⟨feature, hf, h⟩ := bind_ok h
  have hget := mmFeature_eq_ok hf
  refine ⟨feature, hget, ?_⟩
  rw [hs feature (mem_of_getElem? hget)] at h
  exact (Except.ok.inj h).symm

variable {mmHash : String} {ids ids' : List String}

/-- The references of a cached entry change, and with them whether it is freeable. -/
theorem EncoderInv.setReferences {freeable : PyDict String Nat} {numFreeableSlots : Int}
    (h : EncoderInv size e) (hids : e.cached.get? mmHash = some ids)
    (hslots : numFreeableSlots = e.numFreeSlots + (freeable.values.sum : Nat))
    (hfreeable : ∀ k n, freeable.get? k = some n ↔ if k = mmHash then ids' = [] ∧
      n = size k else e.freeable.get? k = some n) :
    EncoderInv size { e with
      cached := e.cached.insert mmHash ids'
      freeable := freeable
      numFreeableSlots := numFreeableSlots } := by
  refine ⟨h.decoderOnly, ?_, hslots, fun k n => ?_, h.nonneg⟩
  · show e.numFreeSlots + (((e.cached.insert mmHash ids').keys.map size).sum : Nat) = _
    rw [sum_keys_insert, if_pos (mem_keys_of_get? hids), Nat.add_zero]
    exact h.slots
  · show freeable.get? k = some n ↔ (e.cached.insert mmHash ids').get? k = some [] ∧ n = size k
    rw [hfreeable, get?_insert]
    split
    · simp
    · exact h.freeable k n

/-- An entry with a reference is not freeable. -/
theorem EncoderInv.not_freeable (h : EncoderInv size e) (hids : e.cached.get? mmHash = some ids)
    (hne : ids ≠ []) :
    e.freeable.get? mmHash = none := by
  cases hget : e.freeable.get? mmHash with
  | none => rfl
  | some n =>
    have hnil := ((h.freeable mmHash n).mp hget).1
    rw [hids] at hnil
    exact absurd (Option.some.inj hnil) hne

/-- A reference is added to an entry that has others. -/
theorem EncoderInv.addReference {reqId : String} (h : EncoderInv size e)
    (hids : e.cached.get? mmHash = some ids) (hne : ids ≠ []) :
    EncoderInv size { e with cached := e.cached.insert mmHash (ids.insert reqId) } := by
  refine h.setReferences hids h.freeableSlots fun k n => ?_
  split
  · rename_i hk
    subst hk
    rw [h.not_freeable hids hne]
    have hinsert : List.insert reqId ids ≠ [] := ne_nil_of_mem mem_insert_self
    simp [hinsert]
  · exact Iff.rfl

/-- A reference is added to a freeable entry. -/
theorem EncoderInv.takeFreeable {reqId : String} {n : Nat} (h : EncoderInv size e)
    (hn : e.freeable.get? mmHash = some n) :
    EncoderInv size { e with
      cached := e.cached.insert mmHash (List.insert reqId [])
      freeable := e.freeable.erase mmHash
      numFreeableSlots := e.numFreeableSlots - n } := by
  have hids := ((h.freeable mmHash n).mp hn).1
  refine h.setReferences hids ?_ fun k m => ?_
  · have hsum := sum_values_erase id e.freeable mmHash
    rw [hn] at hsum
    simp only [map_id, Option.map_some, id_eq, Option.getD_some] at hsum
    have hold := h.freeableSlots
    omega
  · rw [get?_erase]
    split
    · simp
    · exact Iff.rfl

variable {b : Bool}

theorem checkAndUpdateCache_inv (h : EncoderInv size e)
    (hcheck : e.checkAndUpdateCache request i = .ok (b, e')) : EncoderInv size e' := by
  unfold checkAndUpdateCache at hcheck
  split at hcheck
  · cases hcheck
    exact h
  · obtain ⟨feature, -, hcheck⟩ := bind_ok hcheck
    split at hcheck
    · cases hcheck
      exact h
    · rename_i ids hids
      dsimp only at hcheck
      split at hcheck
      · rename_i hempty
        obtain rfl := isEmpty_iff.mp hempty
        split at hcheck
        · cases hcheck
        · rename_i n hn
          cases hcheck
          exact h.takeFreeable hn
      · rename_i hempty
        cases hcheck
        exact h.addReference hids fun hnil => hempty (isEmpty_iff.mpr hnil)

/-- The oldest entry without a reference is evicted. -/
theorem EncoderInv.evict {mmHash : String} {n : Nat} {rest : List (String × Nat)}
    (h : EncoderInv size e) (hentries : e.freeable.entries = (mmHash, n) :: rest) :
    e.cached.get? mmHash = some [] ∧ EncoderInv size { e with
      freeable := e.freeable.erase mmHash
      cached := e.cached.erase mmHash
      freed := e.freed ++ [mmHash]
      numFreeSlots := e.numFreeSlots + n } := by
  have hget : e.freeable.get? mmHash = some n := by
    rw [← mem_entries_iff, hentries]
    exact mem_cons_self
  obtain ⟨hcached, rfl⟩ := (h.freeable mmHash n).mp hget
  refine ⟨hcached, h.decoderOnly, ?_, ?_, fun k m => ?_, ?_⟩
  · have hsum := sum_keys_erase size e.cached mmHash
    rw [if_pos (mem_keys_of_get? hcached)] at hsum
    have hold := h.slots
    dsimp only
    omega
  · have hsum := sum_values_erase id e.freeable mmHash
    rw [hget] at hsum
    simp only [map_id, Option.map_some, id_eq, Option.getD_some] at hsum
    have hold := h.freeableSlots
    dsimp only
    omega
  · show (e.freeable.erase mmHash).get? k = some m ↔
      (e.cached.erase mmHash).get? k = some [] ∧ m = size k
    rw [get?_erase, get?_erase]
    split
    · simp
    · exact h.freeable k m
  · have hold := h.nonneg
    dsimp only
    omega

/-- No entry with a reference is evicted. -/
def KeepsReferenced (e e' : EncoderCacheManager) : Prop :=
  ∀ mmHash ids, ids ≠ [] → e.cached.get? mmHash = some ids →
    (e'.cached.get? mmHash).isSome = true

theorem KeepsReferenced.refl (e : EncoderCacheManager) : KeepsReferenced e e := by
  intro mmHash ids _ hids
  rw [hids]
  rfl

/-- The eviction loop finds what it needs, in entries without a reference. -/
theorem evictLoop_spec {needed : Int} {fuel : Nat} {e : EncoderCacheManager}
    (h : EncoderInv size e) (hneed : needed ≤ e.numFreeableSlots)
    (hfuel : e.freeable.size < fuel) :
    ∃ e', evictLoop needed fuel e = .ok e' ∧ EncoderInv size e' ∧
      KeepsReferenced e e' := by
  -- By induction on the number of passes that are left, one freeable entry each.
  induction fuel generalizing e with
  | zero => omega
  | succ fuel ih =>
    unfold evictLoop
    split
    · rename_i hlt
      cases hentries : e.freeable.entries with
      | nil =>
        -- Without freeable entries the two counters agree.
        have hslots := h.freeableSlots
        unfold PyDict.values at hslots
        rw [hentries] at hslots
        simp only [map_nil, sum_nil] at hslots
        omega
      | cons entry rest =>
        obtain ⟨mmHash, n⟩ := entry
        obtain ⟨hcached, hinv⟩ := h.evict hentries
        have hsize : (e.freeable.erase mmHash).size < fuel := by
          have hlen : (e.freeable.erase mmHash).size ≤ rest.length := by
            show ((e.freeable.entries.filter _).length ≤ rest.length)
            rw [hentries, filter_cons_of_neg (by simp)]
            exact length_filter_le _ _
          unfold PyDict.size at hfuel
          rw [hentries, length_cons] at hfuel
          omega
        obtain ⟨e', hloop, hinv', hkeep⟩ := ih hinv hneed hsize
        have hcontains : e.cached.contains mmHash = true := by
          unfold PyDict.contains
          rw [hcached]
          rfl
        dsimp only
        rw [if_pos hcontains]
        refine ⟨e', hloop, hinv', fun k ids hne hk => hkeep k ids hne ?_⟩
        show (e.cached.erase mmHash).get? k = some ids
        rw [PyDict.get?_erase_of_ne]
        · exact hk
        · rintro rfl
          rw [hcached] at hk
          exact hne (Option.some.inj hk).symm
    · exact ⟨e, rfl, h, .refl e⟩

/-- `can_allocate` does not raise for an encoder input that the request has. -/
theorem canAllocate_spec (budget n : Int) (h : EncoderInv size e) (hs : SizedBy size request)
    (hi : i < request.mmFeatures.length) :
    ∃ b e', e.canAllocate request i budget n = .ok (b, e') ∧ EncoderInv size e' ∧
      KeepsReferenced e e' := by
  have hembeds : request.getNumEncoderEmbeds i = .ok (size (request.mmFeatures[i]).identifier) := by
    unfold Request.getNumEncoderEmbeds Request.mmFeature
    rw [getElem?_eq_getElem hi]
    simp only [pyAssert, hi, except_ok_bind]
    exact hs _ (getElem_mem hi)
  unfold canAllocate
  rw [hembeds, except_ok_bind]
  split
  · exact ⟨false, e, rfl, h, .refl e⟩
  · dsimp only
    split
    · exact ⟨_, e, rfl, h, .refl e⟩
    · split
      · exact ⟨true, e, rfl, h, .refl e⟩
      · split
        · exact ⟨false, e, rfl, h, .refl e⟩
        · rename_i hneed
          obtain ⟨e', hloop, hinv, hkeep⟩ :=
            evictLoop_spec h (Int.not_lt.mp hneed) (Nat.lt_succ_self e.freeable.size)
          refine ⟨true, e', ?_, hinv, hkeep⟩
          rw [hloop, except_ok_bind]
          rfl

theorem getNumEncoderEmbeds_lt {m : Nat} (h : request.getNumEncoderEmbeds i = .ok m) :
    i < request.mmFeatures.length := by
  unfold Request.getNumEncoderEmbeds at h
  obtain ⟨u, hassert, -⟩ := bind_ok h
  exact of_decide_eq_true (pyAssert_eq_ok_iff.mp hassert)

theorem canAllocate_inv {budget n : Int} (h : EncoderInv size e) (hs : SizedBy size request)
    (hcan : e.canAllocate request i budget n = .ok (b, e')) :
    EncoderInv size e' ∧ KeepsReferenced e e' := by
  have hi : i < request.mmFeatures.length := by
    unfold canAllocate at hcan
    obtain ⟨m, hm, -⟩ := bind_ok hcan
    exact getNumEncoderEmbeds_lt hm
  obtain ⟨b', e1, hspec, hinv, hkeep⟩ := canAllocate_spec budget n h hs hi
  rw [hspec] at hcan
  cases hcan
  exact ⟨hinv, hkeep⟩

/-- `allocate`, on a hash that is not cached. -/
theorem allocate_inv (h : EncoderInv size e) (hs : SizedBy size request)
    (hfresh : ∀ feature, request.mmFeatures[i]? = some feature →
      e.cached.get? feature.identifier = none)
    (hallocate : e.allocate request i = .ok e') : EncoderInv size e' := by
  unfold allocate at hallocate
  split at hallocate
  · rename_i hdecoder
    rw [h.decoderOnly] at hdecoder
    cases hdecoder
  · obtain ⟨feature, hf, hallocate⟩ := bind_ok hallocate
    obtain ⟨n, hn, hallocate⟩ := bind_ok hallocate
    obtain ⟨u, hfree, hallocate⟩ := bind_ok hallocate
    obtain ⟨v, -, hallocate⟩ := bind_ok hallocate
    have hget := mmFeature_eq_ok hf
    have hnone := hfresh feature hget
    obtain ⟨feature', hget', rfl⟩ := getNumEncoderEmbeds_eq_ok hs hn
    cases hget.symm.trans hget'
    rw [hnone] at hallocate
    cases hallocate
    have hle := of_decide_eq_true (pyAssert_eq_ok_iff.mp hfree)
    refine ⟨h.decoderOnly, ?_, ?_, fun k m => ?_, ?_⟩
    · show e.numFreeSlots - _ + (((e.cached.insert _ _).keys.map size).sum : Nat) = e.cacheSize
      rw [sum_keys_insert, if_neg ((get?_eq_none_iff _ _).mp hnone)]
      have hold := h.slots
      omega
    · have hold := h.freeableSlots
      dsimp only
      omega
    · show e.freeable.get? k = some m ↔
        (e.cached.insert feature.identifier _).get? k = some [] ∧ m = size k
      rw [h.freeable k m, get?_insert]
      split
      · rename_i hk
        subst hk
        rw [hnone]
        simp [List.insert]
      · exact Iff.rfl
    · dsimp only
      omega

/-- The last reference of an entry is removed. -/
theorem EncoderInv.release (h : EncoderInv size e) (hids : e.cached.get? mmHash = some ids)
    (hne : ids ≠ []) :
    EncoderInv size { e with
      cached := e.cached.insert mmHash []
      freeable := e.freeable.insert mmHash (size mmHash)
      numFreeableSlots := e.numFreeableSlots + size mmHash } := by
  refine h.setReferences hids ?_ fun k m => ?_
  · have hsum := sum_values_insert id e.freeable mmHash (size mmHash)
    rw [h.not_freeable hids hne] at hsum
    simp only [map_id, Option.map_none, id_eq, Option.getD_none] at hsum
    have hold := h.freeableSlots
    omega
  · rw [get?_insert]
    split
    · rename_i hk
      subst hk
      simp [eq_comm]
    · exact Iff.rfl

/-- A reference is removed from an entry that keeps others. -/
theorem EncoderInv.removeReference (h : EncoderInv size e)
    (hids : e.cached.get? mmHash = some ids) (hne : ids ≠ []) (hne' : ids' ≠ []) :
    EncoderInv size { e with cached := e.cached.insert mmHash ids' } := by
  refine h.setReferences hids h.freeableSlots fun k n => ?_
  split
  · rename_i hk
    subst hk
    rw [h.not_freeable hids hne]
    simp [hne']
  · exact Iff.rfl

theorem freeEncoderInput_inv (h : EncoderInv size e) (hs : SizedBy size request)
    (hfree : e.freeEncoderInput request i = .ok e') : EncoderInv size e' := by
  unfold freeEncoderInput at hfree
  split at hfree
  · rename_i hdecoder
    rw [h.decoderOnly] at hdecoder
    cases hdecoder
  · obtain ⟨feature, hf, hfree⟩ := bind_ok hfree
    split at hfree
    · cases hfree
      exact h
    · rename_i ids hids
      split at hfree
      · cases hfree
        exact h
      · rename_i hempty
        have hne : ids ≠ [] := fun hnil => hempty (isEmpty_iff.mpr hnil)
        dsimp only at hfree
        split at hfree
        · rename_i hlast
          obtain ⟨n, hn, hfree⟩ := bind_ok hfree
          obtain ⟨feature', hget', rfl⟩ := getNumEncoderEmbeds_eq_ok hs hn
          cases (mmFeature_eq_ok hf).symm.trans hget'
          rw [isEmpty_iff.mp hlast] at hfree
          cases hfree
          exact h.release hids hne
        · rename_i hlast
          cases hfree
          exact h.removeReference hids hne fun hnil => hlast (isEmpty_iff.mpr hnil)

/-- The entries that are cached stay so. -/
def KeepsKeys (e e' : EncoderCacheManager) : Prop :=
  ∀ mmHash, (e.cached.get? mmHash).isSome = true → (e'.cached.get? mmHash).isSome = true

theorem keepsKeys_of_insert (hc : e'.cached = e.cached.insert mmHash ids) : KeepsKeys e e' := by
  intro k hk
  rw [hc, get?_insert]
  split
  · rfl
  · exact hk

theorem freeEncoderInput_keepsKeys (hfree : e.freeEncoderInput request i = .ok e') :
    KeepsKeys e e' := by
  unfold freeEncoderInput at hfree
  split at hfree
  · obtain ⟨n, -, hfree⟩ := bind_ok hfree
    cases hfree
    exact fun _ hk => hk
  · obtain ⟨feature, -, hfree⟩ := bind_ok hfree
    split at hfree
    · cases hfree
      exact fun _ hk => hk
    · split at hfree
      · cases hfree
        exact fun _ hk => hk
      · dsimp only at hfree
        split at hfree
        · obtain ⟨n, -, hfree⟩ := bind_ok hfree
          cases hfree
          exact keepsKeys_of_insert rfl
        · cases hfree
          exact keepsKeys_of_insert rfl

theorem checkAndUpdateCache_keepsKeys (hcheck : e.checkAndUpdateCache request i = .ok (b, e')) :
    KeepsKeys e e' := by
  unfold checkAndUpdateCache at hcheck
  split at hcheck
  · cases hcheck
    exact fun _ hk => hk
  · obtain ⟨feature, -, hcheck⟩ := bind_ok hcheck
    split at hcheck
    · cases hcheck
      exact fun _ hk => hk
    · dsimp only at hcheck
      split at hcheck
      · split at hcheck
        · cases hcheck
        · cases hcheck
          exact keepsKeys_of_insert rfl
      · cases hcheck
        exact keepsKeys_of_insert rfl

theorem allocate_keepsKeys (hallocate : e.allocate request i = .ok e') : KeepsKeys e e' := by
  unfold allocate at hallocate
  split at hallocate
  · obtain ⟨n, -, hallocate⟩ := bind_ok hallocate
    obtain ⟨feature, -, hallocate⟩ := bind_ok hallocate
    cases hallocate
    exact fun _ hk => hk
  · obtain ⟨feature, -, hallocate⟩ := bind_ok hallocate
    obtain ⟨n, -, hallocate⟩ := bind_ok hallocate
    obtain ⟨u, -, hallocate⟩ := bind_ok hallocate
    obtain ⟨v, -, hallocate⟩ := bind_ok hallocate
    cases hallocate
    exact keepsKeys_of_insert rfl

/-- What every encoder input of a request that is freed keeps, `free` keeps. -/
theorem free_invariant (P : EncoderCacheManager → Prop)
    (hstep : ∀ e e' i, P e → e.freeEncoderInput request i = .ok e' → P e') (h : P e)
    (hfree : e.free request = .ok e') : P e' := by
  unfold free at hfree
  generalize e.getCachedInputIds request = inputIds at hfree
  induction inputIds generalizing e with
  | nil =>
    cases hfree
    exact h
  | cons i inputIds ih =>
    rw [foldlM_cons] at hfree
    obtain ⟨e1, h1, hfree⟩ := bind_ok hfree
    exact ih (hstep e e1 i h h1) hfree

end Operations

/-! ### Runs of the cache -/

/-- A call of a method of the encoder cache. -/
inductive EncoderOp where
  | checkAndUpdateCache (request : Request) (inputId : Nat)
  | canAllocate (request : Request) (inputId : Nat) (budget numEmbedsToSchedule : Int)
  | allocate (request : Request) (inputId : Nat)
  | freeEncoderInput (request : Request) (inputId : Nat)
  | free (request : Request)
  | getFreedMmHashes

namespace EncoderOp

/-- What the call does to the cache. -/
def apply (e : EncoderCacheManager) : EncoderOp → Except PyError EncoderCacheManager
  | .checkAndUpdateCache request inputId => do
      let (_, e) ← e.checkAndUpdateCache request inputId
      return e
  | .canAllocate request inputId budget numEmbedsToSchedule => do
      let (_, e) ← e.canAllocate request inputId budget numEmbedsToSchedule
      return e
  | .allocate request inputId => e.allocate request inputId
  | .freeEncoderInput request inputId => e.freeEncoderInput request inputId
  | .free request => e.free request
  | .getFreedMmHashes => .ok e.getFreedMmHashes.2

/-- How the scheduler calls: an input is allocated after `check_and_update_cache` did not find
it, and hashes stand for contents. -/
def Issued (size : String → Nat) (e : EncoderCacheManager) : EncoderOp → Prop
  | .checkAndUpdateCache request _ => SizedBy size request
  | .canAllocate request _ _ _ => SizedBy size request
  | .allocate request inputId => SizedBy size request ∧
      ∀ feature, request.mmFeatures[inputId]? = some feature →
        e.cached.get? feature.identifier = none
  | .freeEncoderInput request _ => SizedBy size request
  | .free request => SizedBy size request
  | .getFreedMmHashes => True

variable {size : String → Nat} {e e' : EncoderCacheManager}

/-- Every call keeps the invariant and every entry with a reference. -/
theorem apply_spec (op : EncoderOp) (h : EncoderInv size e) (hop : Issued size e op)
    (happly : apply e op = .ok e') : EncoderInv size e' ∧ KeepsReferenced e e' := by
  have hkeeps : KeepsKeys e e' → KeepsReferenced e e' := fun hk mmHash ids _ hids =>
    hk mmHash (hids ▸ rfl)
  cases op with
  | checkAndUpdateCache request inputId =>
    obtain ⟨⟨b, e1⟩, hcheck, happly⟩ := bind_ok happly
    cases happly
    exact ⟨checkAndUpdateCache_inv h hcheck, hkeeps (checkAndUpdateCache_keepsKeys hcheck)⟩
  | canAllocate request inputId budget n =>
    obtain ⟨⟨b, e1⟩, hcan, happly⟩ := bind_ok happly
    cases happly
    exact canAllocate_inv h hop hcan
  | allocate request inputId =>
    exact ⟨allocate_inv h hop.1 hop.2 happly, hkeeps (allocate_keepsKeys happly)⟩
  | freeEncoderInput request inputId =>
    exact ⟨freeEncoderInput_inv h hop happly, hkeeps (freeEncoderInput_keepsKeys happly)⟩
  | free request =>
    refine ⟨free_invariant _ (fun _ _ _ h h' => freeEncoderInput_inv h hop h') h happly, ?_⟩
    refine hkeeps (free_invariant (KeepsKeys e) (fun _ _ _ h h' => ?_) (fun _ hk => hk) happly)
    exact fun k hk => freeEncoderInput_keepsKeys h' k (h k hk)
  | getFreedMmHashes =>
    cases happly
    exact ⟨⟨h.decoderOnly, h.slots, h.freeableSlots, h.freeable, h.nonneg⟩, .refl e⟩

/-- Every cache that the scheduler's calls reach. -/
abbrev Reached (size : String → Nat) (e e' : EncoderCacheManager) : Prop :=
  Run apply (Issued size) e e'

theorem Reached.inv (hrun : Reached size e e') (h : EncoderInv size e) : EncoderInv size e' :=
  hrun.invariant (EncoderInv size) h fun _ op _ h hop happly => (apply_spec op h hop happly).1

end EncoderOp

end Vllm.Proofs.Core
