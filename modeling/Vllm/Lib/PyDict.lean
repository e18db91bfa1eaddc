import Mathlib.Algebra.Ring.Int.Defs
import Mathlib.Algebra.GroupWithZero.Nat
import Mathlib.Data.List.Nodup
import Mathlib.Data.List.Lookmap

/-!
# `Vllm.Lib.PyDict`: insertion-ordered dictionaries

A Python `dict` is a finite map that also remembers the order in which its keys were
first inserted. `PyDict κ ν` is the association list of that order, with the fact that no
key repeats as a field, so a value of the type is always a dictionary.

* `get?` is `d.get(k)`, `insert` is `d[k] = v`, `erase` is `d.pop(k, None)`.
* `get?_insert` and `get?_erase` say what a lookup sees after a write.
* `sum_values_insert` and `sum_values_erase` follow a sum over the values through a write,
  `sum_keys_insert` and `sum_keys_erase` a sum over the keys.
* `keys_insert` and `keys_erase` say how a write moves the key order: an assignment to a
  present key keeps its place, an assignment to a new key appends.
-/

set_option autoImplicit false

namespace Vllm.Lib

/-- An insertion-ordered dictionary. -/
structure PyDict (κ ν : Type) where
  /-- The items, in insertion order. -/
  entries : List (κ × ν)
  /-- No key occurs twice. -/
  nodup : (entries.map Prod.fst).Nodup
deriving DecidableEq

namespace PyDict

variable {κ ν : Type}

/-- The empty dictionary. -/
def empty : PyDict κ ν := ⟨[], List.nodup_nil⟩

/-- The keys, in insertion order. -/
def keys (d : PyDict κ ν) : List κ := d.entries.map Prod.fst

@[simp] theorem keys_empty : (empty : PyDict κ ν).keys = [] := rfl

/-- The values, in insertion order. -/
def values (d : PyDict κ ν) : List ν := d.entries.map Prod.snd

/-- `len(d)`. -/
def size (d : PyDict κ ν) : Nat := d.entries.length

variable [DecidableEq κ]

/-- `d.get(k)`. -/
def get? (d : PyDict κ ν) (k : κ) : Option ν := d.entries.lookup k

/-- Replaces the value of `k` where it stands, or appends a new item. -/
def setEntry (k : κ) (v : ν) : List (κ × ν) → List (κ × ν)
  | [] => [(k, v)]
  | (k', v') :: rest => if k = k' then (k, v) :: rest else (k', v') :: setEntry k v rest

theorem map_fst_setEntry (k : κ) (v : ν) (l : List (κ × ν)) :
    (setEntry k v l).map Prod.fst
      = if k ∈ l.map Prod.fst then l.map Prod.fst else l.map Prod.fst ++ [k] := by
  induction l with
  | nil => simp [setEntry]
  | cons e l ih =>
    obtain ⟨k', v'⟩ := e
    by_cases h : k = k'
    · simp [setEntry, h]
    · simp only [setEntry, h, if_false, List.map_cons, ih, List.mem_cons, false_or]
      split <;> simp

/-- `d[k] = v`. -/
def insert (d : PyDict κ ν) (k : κ) (v : ν) : PyDict κ ν where
  entries := setEntry k v d.entries
  nodup := by
    rw [map_fst_setEntry]
    split
    · exact d.nodup
    · rename_i h
      exact List.nodup_append.mpr ⟨d.nodup, List.nodup_singleton k, by
        rintro a ha b hb rfl
        exact h (List.mem_singleton.mp hb ▸ ha)⟩

/-- `d.pop(k, None)`, as far as the dictionary is concerned. -/
def erase (d : PyDict κ ν) (k : κ) : PyDict κ ν where
  entries := d.entries.filter (fun e => e.1 ≠ k)
  nodup := (List.filter_sublist.map Prod.fst).nodup d.nodup

/-- `d.move_to_end(k)` of an `OrderedDict`: `none` stands for the `KeyError`. -/
def moveToEnd? (d : PyDict κ ν) (k : κ) : Option (PyDict κ ν) :=
  (d.get? k).map fun v => (d.erase k).insert k v

/-- `d.popitem(last=False)` of an `OrderedDict`, `n` times. -/
def popFirst (d : PyDict κ ν) (n : Nat) : PyDict κ ν where
  entries := d.entries.drop n
  nodup := ((List.drop_sublist n d.entries).map Prod.fst).nodup d.nodup

/-- `k in d`. -/
def contains (d : PyDict κ ν) (k : κ) : Bool := (d.get? k).isSome

theorem lookup_cons_ite (k a : κ) (b : ν) (l : List (κ × ν)) :
    ((a, b) :: l).lookup k = if k = a then some b else l.lookup k := by
  rw [List.lookup_cons]
  by_cases h : k = a
  · simp [h]
  · rw [if_neg h, beq_eq_false_iff_ne.mpr h]

@[simp] theorem get?_empty (k : κ) : (empty : PyDict κ ν).get? k = none := rfl

theorem lookup_setEntry (k k' : κ) (v : ν) (l : List (κ × ν)) :
    (setEntry k v l).lookup k' = if k' = k then some v else l.lookup k' := by
  induction l with
  | nil =>
    by_cases h : k' = k <;> simp [setEntry, h]
  | cons e l ih =>
    obtain ⟨a, b⟩ := e
    by_cases hk : k = a
    · subst hk
      by_cases h : k' = k <;> simp [setEntry, lookup_cons_ite, h]
    · simp only [setEntry, hk, if_false, lookup_cons_ite, ih]
      by_cases ha : k' = a
      · subst ha
        simp [Ne.symm hk]
      · simp [ha]

/-- A lookup after `d[k] = v`. -/
theorem get?_insert (d : PyDict κ ν) (k k' : κ) (v : ν) :
    (d.insert k v).get? k' = if k' = k then some v else d.get? k' :=
  lookup_setEntry k k' v d.entries

@[simp] theorem get?_insert_self (d : PyDict κ ν) (k : κ) (v : ν) :
    (d.insert k v).get? k = some v := by
  simp [get?_insert]

variable {k : κ}

@[simp] theorem get?_insert_of_ne (d : PyDict κ ν) {k' : κ} (v : ν) (h : k' ≠ k) :
    (d.insert k v).get? k' = d.get? k' := by
  simp [get?_insert, h]

theorem lookup_filter_ne (k k' : κ) (l : List (κ × ν)) :
    (l.filter (fun e => e.1 ≠ k)).lookup k' = if k' = k then none else l.lookup k' := by
  induction l with
  | nil => simp
  | cons e l ih =>
    obtain ⟨a, b⟩ := e
    by_cases hk : a = k
    · subst hk
      rw [List.filter_cons_of_neg (by simp), ih, lookup_cons_ite]
      by_cases h : k' = a <;> simp [h]
    · rw [List.filter_cons_of_pos (by simpa using hk), lookup_cons_ite, lookup_cons_ite, ih]
      by_cases ha : k' = a
      · subst ha
        simp [hk]
      · simp [ha]

/-- A lookup after `d.pop(k, None)`. -/
theorem get?_erase (d : PyDict κ ν) (k k' : κ) :
    (d.erase k).get? k' = if k' = k then none else d.get? k' :=
  lookup_filter_ne k k' d.entries

@[simp] theorem get?_erase_self (d : PyDict κ ν) (k : κ) : (d.erase k).get? k = none := by
  simp [get?_erase]

@[simp] theorem get?_erase_of_ne (d : PyDict κ ν) {k' : κ} (h : k' ≠ k) :
    (d.erase k).get? k' = d.get? k' := by
  simp [get?_erase, h]

theorem lookup_isSome_iff_mem_map_fst (k : κ) (l : List (κ × ν)) :
    (l.lookup k).isSome ↔ k ∈ l.map Prod.fst := by
  induction l with
  | nil => simp
  | cons e l ih =>
    obtain ⟨a, b⟩ := e
    rw [lookup_cons_ite, List.map_cons, List.mem_cons]
    by_cases h : k = a
    · simp [h]
    · rw [if_neg h, ih]
      simp [h]

theorem mem_keys_iff (d : PyDict κ ν) (k : κ) : k ∈ d.keys ↔ (d.get? k).isSome :=
  (lookup_isSome_iff_mem_map_fst k d.entries).symm

variable {d : PyDict κ ν} {v : ν}

theorem mem_keys_of_get? (h : d.get? k = some v) :
    k ∈ d.keys := by
  rw [mem_keys_iff, h]
  rfl

theorem get?_eq_none_iff (d : PyDict κ ν) (k : κ) : d.get? k = none ↔ k ∉ d.keys := by
  rw [mem_keys_iff]
  simp

/-- An assignment keeps the place of a present key and appends a new one. -/
theorem keys_insert (d : PyDict κ ν) (k : κ) (v : ν) :
    (d.insert k v).keys = if k ∈ d.keys then d.keys else d.keys ++ [k] :=
  map_fst_setEntry k v d.entries

theorem keys_erase (d : PyDict κ ν) (k : κ) :
    (d.erase k).keys = d.keys.filter (fun k' => k' ≠ k) := by
  unfold keys erase
  rw [List.filter_map]
  rfl

variable {l : List (κ × ν)}

theorem lookup_eq_some_of_mem (hn : (l.map Prod.fst).Nodup) (h : (k, v) ∈ l) :
    l.lookup k = some v := by
  induction l with
  | nil => simp at h
  | cons e l ih =>
    obtain ⟨a, b⟩ := e
    rw [List.map_cons, List.nodup_cons] at hn
    rcases List.mem_cons.mp h with heq | hmem
    · obtain ⟨rfl, rfl⟩ := Prod.mk.inj heq
      simp
    · have hne : k ≠ a := by
        rintro rfl
        exact hn.1 (List.mem_map.mpr ⟨(k, v), hmem, rfl⟩)
      rw [lookup_cons_ite, if_neg hne, ih hn.2 hmem]

/-- The items are exactly the pairs a lookup finds. -/
theorem mem_entries_iff (d : PyDict κ ν) (k : κ) (v : ν) :
    (k, v) ∈ d.entries ↔ d.get? k = some v := by
  constructor
  · exact lookup_eq_some_of_mem d.nodup
  · intro h
    obtain ⟨l1, l2, hl, -⟩ := List.lookup_eq_some_iff.mp h
    simp [hl]

theorem mem_values_iff (d : PyDict κ ν) (v : ν) :
    v ∈ d.values ↔ ∃ k, d.get? k = some v := by
  simp only [values, List.mem_map, Prod.exists, exists_eq_right]
  exact ⟨fun ⟨k, hk⟩ => ⟨k, (d.mem_entries_iff k v).mp hk⟩,
    fun ⟨k, hk⟩ => ⟨k, (d.mem_entries_iff k v).mpr hk⟩⟩

section Sums
variable (f : ν → Nat)

theorem sum_setEntry (k : κ) (v : ν) (l : List (κ × ν)) :
    ((setEntry k v l).map fun e => f e.2).sum + (((l.lookup k).map f).getD 0)
      = (l.map fun e => f e.2).sum + f v := by
  induction l with
  | nil => simp [setEntry]
  | cons e l ih =>
    obtain ⟨a, b⟩ := e
    by_cases h : k = a
    · subst h
      simp only [setEntry, if_true, List.map_cons, List.sum_cons, lookup_cons_ite,
        Option.map_some, Option.getD_some]
      omega
    · simp only [setEntry, h, if_false, List.map_cons, List.sum_cons, lookup_cons_ite]
      omega

/-- A sum over the values after `d[k] = v`: the old value of `k` is replaced. -/
theorem sum_values_insert (d : PyDict κ ν) (k : κ) (v : ν) :
    ((d.insert k v).values.map f).sum + (((d.get? k).map f).getD 0)
      = (d.values.map f).sum + f v := by
  have h := sum_setEntry f k v d.entries
  unfold values
  rw [List.map_map, List.map_map]
  exact h

theorem sum_filter_ne (k : κ) (l : List (κ × ν)) (hl : (l.map Prod.fst).Nodup) :
    ((l.filter (fun e => e.1 ≠ k)).map fun e => f e.2).sum + (((l.lookup k).map f).getD 0)
      = (l.map fun e => f e.2).sum := by
  induction l with
  | nil => simp
  | cons e l ih =>
    obtain ⟨a, b⟩ := e
    rw [List.map_cons, List.nodup_cons] at hl
    by_cases h : a = k
    · subst h
      have hnone : l.lookup a = none := by
        exact Option.not_isSome_iff_eq_none.mp
          (mt (lookup_isSome_iff_mem_map_fst a l).mp hl.1)
      have hrec := ih hl.2
      rw [hnone] at hrec
      rw [List.filter_cons_of_neg (by simp), lookup_cons_ite, if_pos rfl, List.map_cons,
        List.sum_cons]
      simp only [Option.map_none, Option.getD_none, Option.map_some, Option.getD_some] at hrec ⊢
      omega
    · have hrec := ih hl.2
      rw [List.filter_cons_of_pos (by simpa using h), lookup_cons_ite, if_neg (Ne.symm h),
        List.map_cons, List.map_cons, List.sum_cons, List.sum_cons]
      omega

/-- A sum over the values after `d.pop(k, None)`. -/
theorem sum_values_erase (d : PyDict κ ν) (k : κ) :
    ((d.erase k).values.map f).sum + (((d.get? k).map f).getD 0) = (d.values.map f).sum := by
  have h := sum_filter_ne f k d.entries d.nodup
  unfold values
  rw [List.map_map, List.map_map]
  exact h

end Sums

section KeySums
variable (f : κ → Nat)

/-- A sum over the keys after `d[k] = v`. -/
theorem sum_keys_insert (d : PyDict κ ν) (k : κ) (v : ν) :
    ((d.insert k v).keys.map f).sum =
      (d.keys.map f).sum + if k ∈ d.keys then 0 else f k := by
  rw [keys_insert]
  split
  · rfl
  · rw [List.map_append, List.sum_append, List.map_singleton, List.sum_singleton]

/-- A sum over the keys after `d.pop(k, None)`. -/
theorem sum_keys_erase (d : PyDict κ ν) (k : κ) :
    ((d.erase k).keys.map f).sum + (if k ∈ d.keys then f k else 0) =
      (d.keys.map f).sum := by
  have hnodup : d.keys.Nodup := d.nodup
  rw [keys_erase]
  split
  · rename_i hk
    have hperm : d.keys.Perm (k :: d.keys.filter fun k' => k' ≠ k) := by
      refine (List.perm_cons_erase hk).trans (.cons k ?_)
      rw [hnodup.erase_eq_filter]
      refine .of_eq (List.filter_congr fun k' _ => ?_)
      simp [bne, beq_eq_decide]
    rw [(hperm.map f).sum_nat, List.map_cons, List.sum_cons, Nat.add_comm]
  · rename_i hk
    rw [Nat.add_zero, List.filter_eq_self.mpr]
    intro k' hk'
    simp only [ne_eq, decide_eq_true_eq]
    rintro rfl
    exact hk hk'

end KeySums

theorem contains_eq_true_iff (d : PyDict κ ν) (k : κ) : d.contains k = true ↔ k ∈ d.keys :=
  (d.mem_keys_iff k).symm

@[simp] theorem contains_insert (d : PyDict κ ν) (k k' : κ) (v : ν) :
    (d.insert k v).contains k' = (decide (k' = k) || d.contains k') := by
  unfold contains
  rw [get?_insert]
  by_cases h : k' = k <;> simp [h]

theorem contains_insert_of_contains (v : ν) (h : d.contains k = true) (k' : κ) :
    (d.insert k v).contains k' = d.contains k' := by
  rw [contains_insert]
  by_cases hk : k' = k
  · rw [hk, h, Bool.or_true]
  · simp [hk]

@[simp] theorem contains_erase (d : PyDict κ ν) (k k' : κ) :
    (d.erase k).contains k' = (!decide (k' = k) && d.contains k') := by
  unfold contains
  rw [get?_erase]
  by_cases h : k' = k <;> simp [h]

theorem contains_of_popFirst {n : Nat} (h : (d.popFirst n).contains k = true) :
    d.contains k = true := by
  rw [contains_eq_true_iff] at h ⊢
  exact ((List.drop_sublist n d.entries).map Prod.fst).subset h

theorem size_eq_length_keys (d : PyDict κ ν) : d.size = d.keys.length :=
  (List.length_map Prod.fst).symm

theorem size_insert (d : PyDict κ ν) (k : κ) (v : ν) :
    (d.insert k v).size = if d.contains k then d.size else d.size + 1 := by
  rw [size_eq_length_keys, size_eq_length_keys, keys_insert]
  by_cases h : k ∈ d.keys
  · rw [if_pos h, if_pos ((d.contains_eq_true_iff k).mpr h)]
  · rw [if_neg h, if_neg (mt (d.contains_eq_true_iff k).mp h), List.length_append]
    rfl

theorem setEntry_of_lookup (h : l.lookup k = some v) :
    setEntry k v l = l := by
  induction l with
  | nil => cases h
  | cons e l ih =>
    obtain ⟨a, b⟩ := e
    rw [lookup_cons_ite] at h
    unfold setEntry
    by_cases ha : k = a
    · rw [if_pos ha] at h ⊢
      cases h
      rw [ha]
    · rw [if_neg ha] at h ⊢
      rw [ih h]

/-- Writing the value that is there changes nothing. -/
theorem insert_of_get? (h : d.get? k = some v) :
    d.insert k v = d := by
  obtain ⟨entries, nodup⟩ := d
  unfold insert
  congr 1
  exact setEntry_of_lookup h

theorem size_erase_le (d : PyDict κ ν) (k : κ) : (d.erase k).size ≤ d.size :=
  List.length_filter_le _ _

variable {d' : PyDict κ ν}

theorem get?_moveToEnd (h : d.moveToEnd? k = some d') (k' : κ) :
    d'.get? k' = d.get? k' := by
  obtain ⟨v, hv, rfl⟩ := Option.map_eq_some_iff.mp h
  rw [get?_insert, get?_erase]
  split
  · rename_i hk
    rw [hk, hv]
  · rfl

/-- A new key goes to the end. -/
theorem entries_insert_of_not_mem (v : ν) (h : k ∉ d.keys) :
    (d.insert k v).entries = d.entries ++ [(k, v)] := by
  have happend : ∀ l : List (κ × ν), k ∉ l.map Prod.fst → setEntry k v l = l ++ [(k, v)] := by
    intro l hl
    induction l with
    | nil => rfl
    | cons e l ih =>
      obtain ⟨a, b⟩ := e
      rw [List.map_cons, List.mem_cons, not_or] at hl
      rw [setEntry, if_neg hl.1, ih hl.2, List.cons_append]
  exact happend d.entries h

/-- The item of a key and the others. -/
theorem entries_perm_erase (h : d.get? k = some v) :
    d.entries.Perm ((k, v) :: (d.erase k).entries) := by
  have hmem := (d.mem_entries_iff k v).mpr h
  have hnodup : d.entries.Nodup := List.Nodup.of_map _ d.nodup
  have : DecidableEq (κ × ν) := Classical.decEq _
  refine (List.perm_cons_erase hmem).trans (.cons _ ?_)
  rw [hnodup.erase_eq_filter]
  refine .of_eq (List.filter_congr fun e he => ?_)
  obtain ⟨a, b⟩ := e
  by_cases ha : a = k
  · subst ha
    have hb := (d.mem_entries_iff a b).mp he
    rw [h] at hb
    simp [Option.some.inj hb]
  · simp [ha]

/-- The first item is removed. -/
theorem entries_erase_first (h : d.entries = (k, v) :: l) : (d.erase k).entries = l := by
  have hnodup := d.nodup
  rw [h, List.map_cons, List.nodup_cons] at hnodup
  show d.entries.filter (fun e => e.1 ≠ k) = l
  rw [h, List.filter_cons_of_neg (by simp), List.filter_eq_self]
  intro e he
  simp only [ne_eq, decide_eq_true_eq]
  intro hk
  have hmem : e.1 ∈ l.map Prod.fst := List.mem_map_of_mem he
  rw [hk] at hmem
  exact hnodup.1 hmem

theorem values_perm_erase (h : d.get? k = some v) :
    d.values.Perm (v :: (d.erase k).values) :=
  (entries_perm_erase h).map Prod.snd

/-- Another value for a key, up to the order of the items. -/
theorem values_insert_perm (w : ν) (h : d.get? k = some v) :
    (d.insert k w).values.Perm (w :: (d.erase k).values) := by
  refine (values_perm_erase (d.get?_insert_self k w)).trans (.cons w (.of_eq ?_))
  have hset : ∀ l : List (κ × ν), (l.map Prod.fst).Nodup → k ∈ l.map Prod.fst →
      (setEntry k w l).filter (fun e => e.1 ≠ k) = l.filter (fun e => e.1 ≠ k) := by
    intro l hl hk
    induction l with
    | nil => exact absurd hk List.not_mem_nil
    | cons e l ih =>
      obtain ⟨a, b⟩ := e
      rw [List.map_cons, List.nodup_cons] at hl
      by_cases ha : k = a
      · subst ha
        simp [setEntry]
      · have hk' : k ∈ l.map Prod.fst := (List.mem_cons.mp hk).resolve_left ha
        simp only [setEntry, if_neg ha]
        rw [List.filter_cons, List.filter_cons, ih hl.2 hk']
  exact congrArg (List.map Prod.snd) (hset d.entries d.nodup (mem_keys_of_get? h))

theorem contains_moveToEnd (h : d.moveToEnd? k = some d') (k' : κ) :
    d'.contains k' = d.contains k' := by
  unfold contains
  rw [get?_moveToEnd h]

theorem size_erase (h : d.contains k = true) :
    (d.erase k).size + 1 = d.size := by
  obtain ⟨v, hv⟩ := Option.isSome_iff_exists.mp h
  exact (entries_perm_erase hv).length_eq.symm

theorem values_moveToEnd_perm (h : d.moveToEnd? k = some d') :
    d'.values.Perm d.values := by
  obtain ⟨v, hv, rfl⟩ := Option.map_eq_some_iff.mp h
  have hnot : k ∉ (d.erase k).keys := by
    rw [← get?_eq_none_iff]
    exact d.get?_erase_self k
  unfold values
  rw [entries_insert_of_not_mem v hnot]
  exact ((List.perm_append_singleton _ _).trans (entries_perm_erase hv).symm).map Prod.snd

theorem size_moveToEnd (h : d.moveToEnd? k = some d') :
    d'.size = d.size := by
  have := (values_moveToEnd_perm h).length_eq
  unfold values at this
  rwa [List.length_map, List.length_map] at this

variable {items : List (κ × ν)}

/-- New items, with keys that do not repeat, go to the end. -/
theorem entries_insertAll (hnodup : (items.map Prod.fst).Nodup) (hnew : ∀ e ∈ items, e.1 ∉ d.keys) :
    (items.foldl (fun d e => d.insert e.1 e.2) d).entries = d.entries ++ items := by
  induction items generalizing d with
  | nil => simp
  | cons e items ih =>
    rw [List.map_cons, List.nodup_cons] at hnodup
    rw [List.foldl_cons, ih hnodup.2, entries_insert_of_not_mem _ (hnew e List.mem_cons_self),
      List.append_assoc, List.singleton_append]
    intro e' he'
    rw [keys_insert, if_neg (hnew e List.mem_cons_self), List.mem_append, List.mem_singleton]
    rintro (hk | hk)
    · exact hnew e' (List.mem_cons_of_mem _ he') hk
    · exact hnodup.1 (hk ▸ List.mem_map_of_mem he')

theorem get?_insertAll_of_not_mem (d : PyDict κ ν) (h : k ∉ items.map Prod.fst) :
    (items.foldl (fun d e => d.insert e.1 e.2) d).get? k = d.get? k := by
  induction items generalizing d with
  | nil => rfl
  | cons e items ih =>
    rw [List.map_cons, List.mem_cons, not_or] at h
    rw [List.foldl_cons, ih _ h.2, get?_insert_of_ne _ _ h.1]

theorem get?_insertAll_of_mem (d : PyDict κ ν) (h : k ∈ items.map Prod.fst) :
    ∃ v, (k, v) ∈ items ∧ (items.foldl (fun d e => d.insert e.1 e.2) d).get? k = some v := by
  induction items generalizing d with
  | nil => exact absurd h List.not_mem_nil
  | cons e items ih =>
    by_cases hk : k ∈ items.map Prod.fst
    · obtain ⟨v, hv, hget⟩ := ih (d.insert e.1 e.2) hk
      exact ⟨v, List.mem_cons_of_mem _ hv, hget⟩
    · obtain rfl : k = e.1 := by
        rw [List.map_cons, List.mem_cons] at h
        exact h.resolve_right hk
      refine ⟨e.2, List.mem_cons_self, ?_⟩
      rw [List.foldl_cons, get?_insertAll_of_not_mem _ hk, get?_insert_self]

theorem mem_values_insert {w : ν} (h : w ∈ (d.insert k v).values) :
    w = v ∨ w ∈ d.values := by
  obtain ⟨k', hk'⟩ := (mem_values_iff _ w).mp h
  rw [get?_insert] at hk'
  split at hk'
  · exact .inl (Option.some.inj hk').symm
  · exact .inr ((mem_values_iff d w).mpr ⟨k', hk'⟩)

theorem mem_values_erase {w : ν} (h : w ∈ (d.erase k).values) :
    w ∈ d.values := by
  obtain ⟨k', hk'⟩ := (mem_values_iff _ w).mp h
  rw [get?_erase] at hk'
  split at hk'
  · cases hk'
  · exact (mem_values_iff d w).mpr ⟨k', hk'⟩

end PyDict

end Vllm.Lib
