import Mathlib.Data.List.Chain
import Mathlib.Data.List.Nodup

/-!
# `Vllm.Lib.DList`: doubly linked lists over a heap

A doubly linked list is a sequence of nodes and two link functions: `next` and `prev` send
a node to its neighbour, or to `none` when the link is unset. `DList next prev l` says that
the links of consecutive nodes of `l` agree with the sequence in both directions.

* `DList.congr`: a write that misses the links inside the sequence keeps it.
* `DList.cut`: cutting a middle segment out, once its two neighbours are joined.
* `DList.paste`: joining a new segment in between two neighbours.
* `walk_of_dlist`, `walk_prev_of_dlist`: following `next` from the first node to the last
  visits the sequence, and following `prev` from the last to the first visits its reverse.
-/

set_option autoImplicit false

namespace Vllm.Lib

open List

variable {ν : Type}

/-- `a` and `b` are linked to each other, `a` before `b`. -/
def Linked (next prev : ν → Option ν) (a b : ν) : Prop :=
  next a = some b ∧ prev b = some a

/-- Consecutive nodes of the sequence are linked to each other. -/
def DList (next prev : ν → Option ν) (l : List ν) : Prop :=
  l.IsChain (Linked next prev)

namespace DList

variable {next prev next' prev' : ν → Option ν}

/-- A write that changes no `next` link of a node before the last one and no `prev` link of
a node after the first one keeps the sequence. -/
theorem congr {l : List ν} (h : DList next prev l)
    (hn : ∀ a ∈ l.dropLast, next' a = next a) (hp : ∀ b ∈ l.tail, prev' b = prev b) :
    DList next' prev' l := by
  induction l with
  | nil => exact List.IsChain.nil
  | cons a l ih =>
    cases l with
    | nil => exact List.IsChain.singleton a
    | cons b l =>
      obtain ⟨⟨hab, hba⟩, hl⟩ := isChain_cons_cons.mp h
      refine isChain_cons_cons.mpr ⟨⟨?_, ?_⟩, ?_⟩
      · rw [hn a (by simp), hab]
      · rw [hp b (by simp), hba]
      · refine ih hl (fun x hx => hn x ?_) (fun x hx => hp x ?_)
        · rw [dropLast_cons_cons]
          exact mem_cons_of_mem a hx
        · exact mem_of_mem_tail hx

/-- Two sequences whose ends are linked form one sequence. -/
theorem append {l1 l2 : List ν} (h1 : DList next prev l1) (h2 : DList next prev l2)
    (h : ∀ a ∈ l1.getLast?, ∀ b ∈ l2.head?, Linked next prev a b) :
    DList next prev (l1 ++ l2) :=
  isChain_append.mpr ⟨h1, h2, h⟩

variable {A X B : List ν} {p n : ν}

/-- A write around the segment `X` between the neighbours `p` and `n` changes the links of
the segment, the `next` link of `p` and the `prev` link of `n`. It keeps the sequence that
ends in `p` and the one that starts in `n`. -/
theorem outer (hA : DList next prev (A ++ [p])) (hB : DList next prev (n :: B))
    (hnd : ((A ++ [p]) ++ X ++ n :: B).Nodup) (hn : ∀ a, a ≠ p → a ∉ X → next' a = next a)
    (hp : ∀ a, a ≠ n → a ∉ X → prev' a = prev a) :
    DList next' prev' (A ++ [p]) ∧ DList next' prev' (n :: B) := by
  rw [append_assoc] at hnd
  obtain ⟨hndA, hndXB, hAXB⟩ := nodup_append.mp hnd
  obtain ⟨-, hndB, hXB⟩ := nodup_append.mp hndXB
  refine ⟨hA.congr ?_ ?_, hB.congr ?_ ?_⟩
  · intro a ha
    rw [dropLast_concat] at ha
    refine hn a ?_ (fun hX => hAXB a (by simp [ha]) a (by simp [hX]) rfl)
    rintro rfl
    exact (nodup_append.mp hndA).2.2 a ha a (by simp) rfl
  · intro a ha
    have ha' : a ∈ A ++ [p] := mem_of_mem_tail ha
    refine hp a ?_ (fun hX => hAXB a ha' a (by simp [hX]) rfl)
    rintro rfl
    exact hAXB a ha' a (by simp) rfl
  · intro a ha
    have ha' : a ∈ n :: B := dropLast_subset _ ha
    refine hn a ?_ (fun hX => hXB a hX a ha' rfl)
    rintro rfl
    exact hAXB a (by simp) a (mem_append_right X ha') rfl
  · intro a ha
    have ha' : a ∈ B := ha
    refine hp a ?_ (fun hX => hXB a hX a (by simp [ha']) rfl)
    rintro rfl
    exact (nodup_cons.mp hndB).1 ha'

/-- Cutting the segment `X` out between the neighbours `p` and `n`, which are joined. -/
theorem cut (h : DList next prev ((A ++ [p]) ++ X ++ n :: B))
    (hnd : ((A ++ [p]) ++ X ++ n :: B).Nodup) (hn : ∀ a, a ≠ p → a ∉ X → next' a = next a)
    (hp : ∀ a, a ≠ n → a ∉ X → prev' a = prev a) (hpn : Linked next' prev' p n) :
    DList next' prev' ((A ++ [p]) ++ n :: B) := by
  have hA : DList next prev (A ++ [p]) :=
    List.IsChain.left_of_append (append_assoc (A ++ [p]) X (n :: B) ▸ h)
  have hB : DList next prev (n :: B) := List.IsChain.right_of_append h
  obtain ⟨hA', hB'⟩ := outer hA hB hnd hn hp
  refine hA'.append hB' ?_
  intro a ha b hb
  obtain rfl : p = a := by simpa using ha
  obtain rfl : n = b := by simpa using hb
  exact hpn

/-- Joining the segment `X` in between the neighbours `p` and `n`: `p`, the segment and `n`
are linked one after the other. -/
theorem paste (h : DList next prev ((A ++ [p]) ++ n :: B))
    (hnd : ((A ++ [p]) ++ X ++ n :: B).Nodup) (hn : ∀ a, a ≠ p → a ∉ X → next' a = next a)
    (hp : ∀ a, a ≠ n → a ∉ X → prev' a = prev a) (hX : DList next' prev' (p :: X ++ [n])) :
    DList next' prev' ((A ++ [p]) ++ X ++ n :: B) := by
  obtain ⟨hA', hB'⟩ := outer (List.IsChain.left_of_append h) (List.IsChain.right_of_append h)
    hnd hn hp
  -- Glue the three pieces at their common nodes `p` and `n`.
  have hApX : List.IsChain (Linked next' prev') (A ++ [p] ++ (X ++ [n])) :=
    List.IsChain.append_overlap hA' hX (by simp)
  have hAll : List.IsChain (Linked next' prev') (A ++ [p] ++ X ++ [n] ++ B) := by
    refine List.IsChain.append_overlap ?_ hB' (by simp)
    rw [append_assoc (A ++ [p])]
    exact hApX
  rw [append_assoc (A ++ [p] ++ X)] at hAll
  exact hAll

theorem reverse {l : List ν} (h : DList next prev l) : DList prev next l.reverse := by
  refine isChain_reverse.mpr (List.IsChain.imp ?_ h)
  exact fun a b hab => ⟨hab.2, hab.1⟩

end DList

section Walk
variable [DecidableEq ν]

/-- The nodes met when following `next` from `a` until `t`, at most `fuel` of them. -/
def walk (next : ν → Option ν) (t : ν) : Nat → ν → List ν
  | 0, _ => []
  | fuel + 1, a =>
    match next a with
    | none => []
    | some b => if b = t then [] else b :: walk next t fuel b

/-- Following `next` from the first node of a sequence to its last visits the nodes in
between. -/
theorem walk_of_dlist {next prev : ν → Option ν} {t : ν} {l : List ν} {a : ν} {fuel : Nat}
    (h : DList next prev (a :: l ++ [t])) (ht : t ∉ l) (hf : l.length < fuel) :
    walk next t fuel a = l := by
  induction l generalizing a fuel with
  | nil =>
    cases fuel with
    | zero => exact absurd hf (Nat.not_lt_zero _)
    | succ fuel =>
      have hat : next a = some t := (isChain_cons_cons.mp h).1.1
      simp [walk, hat]
  | cons b l ih =>
    cases fuel with
    | zero => exact absurd hf (Nat.not_lt_zero _)
    | succ fuel =>
      obtain ⟨⟨hab, -⟩, hl⟩ := isChain_cons_cons.mp h
      have hbt : b ≠ t := fun hb => ht (by simp [hb])
      have hrec : walk next t fuel b = l :=
        ih hl (fun hmem => ht (mem_cons_of_mem b hmem)) (Nat.lt_of_succ_lt_succ hf)
      simp [walk, hab, hbt, hrec]

/-- Following `prev` from the last node of a sequence to its first visits the nodes in
between, backwards. -/
theorem walk_prev_of_dlist {next prev : ν → Option ν} {a t : ν} {l : List ν} {fuel : Nat}
    (h : DList next prev (a :: l ++ [t])) (ha : a ∉ l) (hf : l.length < fuel) :
    walk prev a fuel t = l.reverse := by
  have hr : DList prev next (t :: l.reverse ++ [a]) := by
    have := h.reverse
    simpa using this
  exact walk_of_dlist hr (by simpa using ha) (by simpa using hf)

end Walk

end Vllm.Lib
