import Vllm.Lib.DList
import Vllm.V1.Core.KVCacheUtils

/-!
# `Vllm.Proofs.Core.FreeQueue`: the intrusive free list is a queue

`FreeList q L` says that the doubly linked list of the queue `q` holds the blocks `L`, from
the fake head to the fake tail, and that the counter agrees. It is the abstraction every
later proof uses: the five mutators are specified by what they do to `L`, and the pointers
are not looked at again.

* `freeList_init`: the queue of `__init__` holds the blocks `0 .. n - 1`.
* `popleft_spec`, `popleftN_spec`: popping takes blocks off the front.
* `remove_spec`: `remove` takes one block out of the middle.
* `appendN_spec`: appending puts blocks at the end.

Whatever the pointers are, the mutators write only links: `sameData_popleftN`,
`sameData_remove`, `sameData_appendN`.
-/

set_option autoImplicit false

namespace Vllm.Proofs.Core

open Vllm.Lib Vllm.V1 Vllm.V1.Core BlockRef FreeKVCacheBlockQueue
open Vllm.V1.Core.FreeKVCacheBlockQueue

/-- A block without its links. -/
def unlinked (b : KVCacheBlock) : KVCacheBlock :=
  { b with prevFreeBlock := none, nextFreeBlock := none }

/-- The block objects of `q'` and `q` differ in their links only. -/
def SameData (q q' : FreeKVCacheBlockQueue) : Prop :=
  ∀ r, unlinked (q'.heap r) = unlinked (q.heap r)

namespace SameData

theorem refl (q : FreeKVCacheBlockQueue) : SameData q q := fun _ => rfl

theorem trans {q q' q'' : FreeKVCacheBlockQueue} (h : SameData q q') (h' : SameData q' q'') :
    SameData q q'' := fun r => (h' r).trans (h r)

variable {q q' : FreeKVCacheBlockQueue}

theorem refCnt (h : SameData q q') (r : BlockRef) : (q'.heap r).refCnt = (q.heap r).refCnt := by
  have hr := congrArg KVCacheBlock.refCnt (h r)
  exact hr

theorem blockHash (h : SameData q q') (r : BlockRef) :
    (q'.heap r).blockHash = (q.heap r).blockHash := by
  have hr := congrArg KVCacheBlock.blockHash (h r)
  exact hr

theorem isNull (h : SameData q q') (r : BlockRef) : (q'.heap r).isNull = (q.heap r).isNull := by
  have hr := congrArg KVCacheBlock.isNull (h r)
  exact hr

end SameData

section Links
variable (q : FreeKVCacheBlockQueue) (r r' : BlockRef) (v : Option BlockRef)

@[simp] theorem next_setNext : (q.setNext r v).next r' = if r' = r then v else q.next r' := by
  by_cases h : r' = r <;> simp [next, setNext, h]

@[simp] theorem next_setPrev : (q.setPrev r v).next r' = q.next r' := by
  by_cases h : r' = r <;> simp [next, setPrev, h]

@[simp] theorem prev_setPrev : (q.setPrev r v).prev r' = if r' = r then v else q.prev r' := by
  by_cases h : r' = r <;> simp [prev, setPrev, h]

@[simp] theorem prev_setNext : (q.setNext r v).prev r' = q.prev r' := by
  by_cases h : r' = r <;> simp [prev, setNext, h]

@[simp] theorem numFreeBlocks_setNext : (q.setNext r v).numFreeBlocks = q.numFreeBlocks := rfl

@[simp] theorem numFreeBlocks_setPrev : (q.setPrev r v).numFreeBlocks = q.numFreeBlocks := rfl

@[simp] theorem next_withCount (c : Int) : next { q with numFreeBlocks := c } r = q.next r := rfl

@[simp] theorem prev_withCount (c : Int) : prev { q with numFreeBlocks := c } r = q.prev r := rfl

theorem sameData_setNext : SameData q (q.setNext r v) := by
  intro r'
  by_cases h : r' = r <;> simp [setNext, unlinked, h]

theorem sameData_setPrev : SameData q (q.setPrev r v) := by
  intro r'
  by_cases h : r' = r <;> simp [setPrev, unlinked, h]

end Links

section Frames
variable {q q' : FreeKVCacheBlockQueue}

theorem sameData_popleft {x : BlockRef} (h : q.popleft = .ok (x, q')) : SameData q q' := by
  unfold popleft at h
  split at h
  · split at h <;> cases h
  · split at h <;> cases h
  · split at h
    · cases h
    · cases h
      exact ((sameData_setNext _ _ _).trans (sameData_setPrev _ _ _)).trans
        ((sameData_setNext _ _ _).trans (sameData_setPrev _ _ _))

theorem sameData_popleftNLoop {n : Nat} {curr curr' : Option BlockRef}
    {ret ret' : List BlockRef} (h : popleftNLoop n curr ret q = .ok (ret', curr', q')) :
    SameData q q' := by
  induction n generalizing curr ret q with
  | zero =>
    obtain ⟨-, -, rfl⟩ : ret = ret' ∧ curr = curr' ∧ q = q' := by
      simpa [popleftNLoop] using h
    exact SameData.refl q
  | succ n ih =>
    cases curr with
    | none => cases h
    | some last =>
      exact ((sameData_setPrev q last none).trans (sameData_setNext _ last none)).trans (ih h)

theorem sameData_popleftN {n : Nat} {ret : List BlockRef}
    (h : popleftN n q = .ok (ret, q')) : SameData q q' := by
  unfold popleftN at h
  split at h
  · cases h
    exact SameData.refl q
  · split at h
    · cases h
    · obtain ⟨⟨ret1, curr, q1⟩, hloop, h⟩ := bind_ok h
      have hq1 : SameData q q1 := fun r => sameData_popleftNLoop hloop r
      cases curr with
      | none =>
        cases h
        exact hq1
      | some curr =>
        cases h
        exact hq1.trans ((sameData_setNext _ _ _).trans (sameData_setPrev _ _ _))

theorem sameData_remove {x : BlockRef} (h : q.remove x = .ok q') : SameData q q' := by
  unfold remove at h
  split at h
  · cases h
    exact ((sameData_setNext _ _ _).trans (sameData_setPrev _ _ _)).trans
      ((sameData_setNext _ _ _).trans (sameData_setPrev _ _ _))
  · cases h

theorem sameData_appendNLoop (X : List BlockRef) (last : BlockRef) :
    SameData q (appendNLoop X last q).2 := by
  induction X generalizing q last with
  | nil => exact SameData.refl q
  | cons x X ih =>
    exact ((sameData_setPrev q x _).trans (sameData_setNext _ last _)).trans (ih x)

theorem sameData_appendN {X : List BlockRef} (h : q.appendN X = .ok q') : SameData q q' := by
  unfold appendN at h
  split at h
  · cases h
    exact SameData.refl q
  · split at h
    · cases h
    · rename_i last _
      cases h
      exact (sameData_appendNLoop X last).trans
        ((sameData_setNext _ _ _).trans (sameData_setPrev _ _ _))

end Frames

/-- The nodes of a free list with its two fake ends. -/
def nodes (L : List BlockRef) : List BlockRef := .fakeHead :: L ++ [.fakeTail]

/-- The linked list of `q` holds exactly `L`, and the counter is its length. -/
structure FreeList (q : FreeKVCacheBlockQueue) (L : List BlockRef) : Prop where
  chain : DList q.next q.prev (nodes L)
  nodup : (nodes L).Nodup
  count : q.numFreeBlocks = L.length
  stop : q.next .fakeTail = none

namespace FreeList

variable {q : FreeKVCacheBlockQueue} {L : List BlockRef}

theorem fakeHead_notMem (h : FreeList q L) : fakeHead ∉ L := fun hmem =>
  (List.nodup_cons.mp h.nodup).1 (List.mem_append_left _ hmem)

theorem fakeTail_notMem (h : FreeList q L) : fakeTail ∉ L := by
  intro hmem
  have htail : (L ++ [fakeTail]).Nodup := (List.nodup_cons.mp h.nodup).2
  exact (List.nodup_append.mp htail).2.2 _ hmem _ (List.mem_singleton.mpr rfl) rfl

theorem nodup_list (h : FreeList q L) : L.Nodup :=
  (List.nodup_append.mp (List.nodup_cons.mp h.nodup).2).1

/-- Following `next_free_block` from the fake head to the fake tail visits `L`. -/
theorem walk_next (h : FreeList q L) {fuel : Nat} (hf : L.length < fuel) :
    walk q.next .fakeTail fuel .fakeHead = L :=
  walk_of_dlist h.chain h.fakeTail_notMem hf

/-- Following `prev_free_block` from the fake tail to the fake head visits `L` backwards. -/
theorem walk_prev (h : FreeList q L) {fuel : Nat} (hf : L.length < fuel) :
    walk q.prev .fakeHead fuel .fakeTail = L.reverse :=
  walk_prev_of_dlist h.chain h.fakeHead_notMem hf

/-- Writes to the data of the blocks keep the free list. -/
theorem of_links_eq {q' : FreeKVCacheBlockQueue} (h : FreeList q L)
    (hn : q'.next = q.next) (hp : q'.prev = q.prev)
    (hc : q'.numFreeBlocks = q.numFreeBlocks) : FreeList q' L where
  __ := h
  chain := by rw [hn, hp]; exact h.chain
  count := hc.trans h.count
  stop := by rw [hn]; exact h.stop

end FreeList

/-- A sequence of distinct real blocks has distinct nodes. -/
theorem nodup_nodes {L : List BlockRef} (hL : L.Nodup) (hh : fakeHead ∉ L)
    (ht : fakeTail ∉ L) : (nodes L).Nodup := by
  refine List.nodup_cons.mpr ⟨?_, List.nodup_append.mpr ⟨hL, List.nodup_singleton _, ?_⟩⟩
  · simp [hh]
  · rintro a ha b hb rfl
    exact ht (List.mem_singleton.mp hb ▸ ha)

/-- The links of `__init__` connect the fake head with the first `k` blocks, one after the
other. -/
theorem dlist_init_take (n k : Nat) (hk : k ≤ n) : DList (init n).next (init n).prev
      (.fakeHead :: (List.range k).map block) := by
  induction k with
  | zero => exact List.IsChain.singleton _
  | succ k ih =>
    have hkn : k < n := hk
    rw [List.range_succ, List.map_append, ← List.cons_append]
    refine (ih (Nat.le_of_lt hkn)).append (List.IsChain.singleton _) ?_
    intro a ha b hb
    obtain rfl : block k = b := by simpa using hb
    cases k with
    | zero =>
      obtain rfl : fakeHead = a := by simpa using ha
      simp [Linked, next, prev, init, initBlock, hkn]
    | succ k =>
      obtain rfl : block k = a := by
        simpa [List.range_succ, List.getLast?_cons] using ha
      have h1 : k < n - 1 := by omega
      have h2 : k < n := by omega
      simp [Linked, next, prev, init, initBlock, hkn, h1, h2]

/-- The queue of `__init__` holds the blocks in the order of their ids. -/
theorem freeList_init (n : Nat) : FreeList (init n) ((List.range n).map block) where
  chain := by
    refine (dlist_init_take n n le_rfl).append (List.IsChain.singleton _) ?_
    intro a ha b hb
    obtain rfl : fakeTail = b := by simpa using hb
    cases n with
    | zero =>
      obtain rfl : fakeHead = a := by simpa using ha
      exact ⟨rfl, rfl⟩
    | succ n =>
      obtain rfl : block n = a := by
        simpa [List.range_succ, List.getLast?_cons] using ha
      simp [Linked, next, prev, init, initBlock]
  nodup := by
    refine nodup_nodes ?_ (by simp) (by simp)
    exact (List.nodup_range).map (fun a b h => block.inj h)
  count := by simp [init]
  stop := rfl

section Segments
variable {q q' : FreeKVCacheBlockQueue} {A X B : List BlockRef} {p n : BlockRef}

/-- Cutting the segment `X` out of the free list: its neighbours `p` and `n` are joined, no
other link outside the segment changes, and the counter drops by its length. -/
theorem FreeList.cut (h : FreeList q (A ++ X ++ B)) (hp : (fakeHead :: A).getLast? = some p)
    (hn : (B ++ [fakeTail]).head? = some n)
    (hnext : ∀ a, a ≠ p → a ∉ X → q'.next a = q.next a)
    (hprev : ∀ a, a ≠ n → a ∉ X → q'.prev a = q.prev a)
    (hpn : Linked q'.next q'.prev p n)
    (hc : q'.numFreeBlocks = q.numFreeBlocks - X.length) : FreeList q' (A ++ B) := by
  obtain ⟨A', hA⟩ := List.getLast?_eq_some_iff.mp hp
  obtain ⟨B', hB⟩ := List.head?_eq_some_iff.mp hn
  have hnodes : nodes (A ++ X ++ B) = (A' ++ [p]) ++ X ++ n :: B' := by
    rw [← hA, ← hB]
    simp [nodes]
  have hnodes' : nodes (A ++ B) = (A' ++ [p]) ++ n :: B' := by
    rw [← hA, ← hB]
    simp [nodes]
  have hchain : DList q.next q.prev ((A' ++ [p]) ++ X ++ n :: B') := hnodes ▸ h.chain
  have hnd : ((A' ++ [p]) ++ X ++ n :: B').Nodup := hnodes ▸ h.nodup
  have htail : fakeTail ∉ fakeHead :: A := by
    intro hmem
    exact h.fakeTail_notMem (by simpa using Or.inl hmem)
  refine ⟨?_, ?_, ?_, ?_⟩
  · rw [hnodes']
    exact hchain.cut hnd hnext hprev hpn
  · refine h.nodup.sublist ?_
    exact List.Sublist.append (List.Sublist.cons_cons _ (by simp)) (List.Sublist.refl _)
  · rw [hc, h.count]
    simp only [List.length_append]
    omega
  · rw [hnext .fakeTail ?_ ?_, h.stop]
    · rintro rfl
      exact htail (List.mem_of_getLast? hp)
    · intro hX
      exact h.fakeTail_notMem (by simp [hX])

/-- Joining the segment `X` in at the end of the free list, after its last block `p`. -/
theorem FreeList.paste (h : FreeList q A) (hp : (BlockRef.fakeHead :: A).getLast? = some p)
    (hfresh : (nodes (A ++ X)).Nodup)
    (hnext : ∀ a, a ≠ p → a ∉ X → q'.next a = q.next a)
    (hprev : ∀ a, a ≠ .fakeTail → a ∉ X → q'.prev a = q.prev a)
    (hX : DList q'.next q'.prev (p :: X ++ [.fakeTail]))
    (hc : q'.numFreeBlocks = q.numFreeBlocks + X.length) : FreeList q' (A ++ X) := by
  obtain ⟨A', hA⟩ := List.getLast?_eq_some_iff.mp hp
  have hnodes : nodes (A ++ X) = (A' ++ [p]) ++ X ++ [.fakeTail] := by
    rw [← hA]
    simp [nodes]
  have hnodes' : nodes A = (A' ++ [p]) ++ [.fakeTail] := by
    rw [← hA]
    simp [nodes]
  have htail : BlockRef.fakeTail ∉ A ++ X := by
    intro hmem
    have hnd := (List.nodup_cons.mp hfresh).2
    exact (List.nodup_append.mp hnd).2.2 _ hmem _ (List.mem_singleton.mpr rfl) rfl
  refine ⟨?_, hfresh, ?_, ?_⟩
  · have hchain : DList q.next q.prev ((A' ++ [p]) ++ [.fakeTail]) := hnodes' ▸ h.chain
    rw [hnodes]
    exact hchain.paste (hnodes ▸ hfresh) hnext hprev hX
  · rw [hc, h.count]
    simp only [List.length_append]
    omega
  · rw [hnext .fakeTail ?_ (fun hX => htail (List.mem_append_right A hX)), h.stop]
    rintro rfl
    rcases List.mem_cons.mp (List.mem_of_getLast? hp) with heq | hmem
    · exact BlockRef.noConfusion heq
    · exact h.fakeTail_notMem hmem

end Segments

section Mutators
variable {q : FreeKVCacheBlockQueue} {L : List BlockRef}

/-- The first block of the free list, or the fake tail, follows the fake head. -/
theorem FreeList.next_fakeHead (h : FreeList q L) : q.next .fakeHead = (L ++ [fakeTail]).head? := by
  have hchain := h.chain
  cases L with
  | nil => exact (List.isChain_cons_cons.mp hchain).1.1
  | cons x L => exact (List.isChain_cons_cons.mp hchain).1.1

/-- The last block of the free list, or the fake head, precedes the fake tail. -/
theorem FreeList.prev_fakeTail (h : FreeList q L) :
    q.prev .fakeTail = (fakeHead :: L).getLast? := by
  have hrev : DList q.prev q.next (.fakeTail :: (fakeHead :: L).reverse) := by
    have := h.chain.reverse
    simpa [nodes] using this
  rw [← List.head?_reverse]
  cases hr : (fakeHead :: L).reverse with
  | nil => simp at hr
  | cons y ys =>
    rw [hr] at hrev
    exact (List.isChain_cons_cons.mp hrev).1.1

/-- The links of a block inside the free list. -/
theorem FreeList.links_of_mem {A B : List BlockRef} {x : BlockRef} (h : FreeList q (A ++ x :: B)) :
    q.prev x = (fakeHead :: A).getLast? ∧
      q.next x = (B ++ [fakeTail]).head? := by
  obtain ⟨A', p, hA⟩ : ∃ A' p, fakeHead :: A = A' ++ [p] :=
    ⟨_, _, (List.dropLast_append_getLast (List.cons_ne_nil _ _)).symm⟩
  obtain ⟨n, B', hB⟩ : ∃ n B', B ++ [fakeTail] = n :: B' := by
    cases B with
    | nil => exact ⟨_, _, rfl⟩
    | cons b B => exact ⟨b, B ++ [.fakeTail], rfl⟩
  have hchain : DList q.next q.prev (A' ++ (p :: x :: n :: B')) := by
    have hnodes : nodes (A ++ x :: B) = A' ++ (p :: x :: n :: B') := by
      have : nodes (A ++ x :: B) = (fakeHead :: A) ++ x :: (B ++ [.fakeTail]) := by
        simp [nodes]
      rw [this, hA, hB]
      simp
    exact hnodes ▸ h.chain
  obtain ⟨hpx, hrest⟩ := List.isChain_cons_cons.mp (List.IsChain.right_of_append hchain)
  obtain ⟨hxn, -⟩ := List.isChain_cons_cons.mp hrest
  rw [hA, hB]
  simp [hpx.2, hxn.1]

/-- The neighbours of a block inside the free list, as blocks. -/
theorem FreeList.neighbours {A B : List BlockRef} {x : BlockRef} (h : FreeList q (A ++ x :: B)) :
    ∃ p n, (fakeHead :: A).getLast? = some p ∧
      (B ++ [fakeTail]).head? = some n ∧ q.prev x = some p ∧ q.next x = some n ∧
      p ≠ x ∧ n ≠ x := by
  obtain ⟨hprev, hnext⟩ := h.links_of_mem
  obtain ⟨p, hp⟩ : ∃ p, (fakeHead :: A).getLast? = some p :=
    ⟨_, List.getLast?_eq_some_getLast (List.cons_ne_nil _ _)⟩
  obtain ⟨n, hn⟩ : ∃ n, (B ++ [fakeTail]).head? = some n := by
    cases B with
    | nil => exact ⟨_, rfl⟩
    | cons b B => exact ⟨b, rfl⟩
  have hnd : ((fakeHead :: A) ++ x :: (B ++ [fakeTail])).Nodup := by
    have := h.nodup
    simpa [nodes] using this
  obtain ⟨-, hxB, hA⟩ := List.nodup_append.mp hnd
  refine ⟨p, n, hp, hn, hprev.trans hp, hnext.trans hn, ?_, ?_⟩
  · exact hA p (List.mem_of_getLast? hp) x (by simp)
  · rintro rfl
    exact (List.nodup_cons.mp hxB).1 (List.mem_of_head? hn)

/-- `remove` takes a block out of the free list, wherever it stands. -/
theorem remove_spec {A B : List BlockRef} {x : BlockRef} (h : FreeList q (A ++ x :: B)) :
    ∃ q', q.remove x = .ok q' ∧ FreeList q' (A ++ B) := by
  obtain ⟨p, n, hp, hn, hxp, hxn, hpx, hnx⟩ := h.neighbours
  have h' : FreeList q (A ++ [x] ++ B) := by simpa using h
  let q1 := (((q.setNext p (some n)).setPrev n (some p)).setNext x none).setPrev x none
  refine ⟨{ q1 with numFreeBlocks := q1.numFreeBlocks - 1 }, ?_, ?_⟩
  · simp only [remove, hxp, hxn, q1]
  · refine h'.cut hp hn ?_ ?_ ⟨?_, ?_⟩ ?_
    · intro a hap hax
      have hax' : a ≠ x := by simpa using hax
      simp [q1, hap, hax']
    · intro a han hax
      have hax' : a ≠ x := by simpa using hax
      simp [q1, han, hax']
    · simp [q1, hpx]
    · simp [q1, hnx]
    · simp [q1]

/-- `popleft` takes the first block off a free list that has one. -/
theorem popleft_spec {x : BlockRef} {B : List BlockRef} (h : FreeList q (x :: B)) :
    ∃ q', q.popleft = .ok (x, q') ∧ FreeList q' B := by
  have h0 : FreeList q ([] ++ x :: B) := h
  obtain ⟨p, n, hp, hn, hxp, hxn, hpx, hnx⟩ := h0.neighbours
  obtain rfl : fakeHead = p := by simpa using hp
  have hhead : q.next .fakeHead = some x := h.next_fakeHead
  have hxt : x ≠ .fakeTail := fun hx => h.fakeTail_notMem (by simp [hx])
  let q1 := (((q.setNext .fakeHead (some n)).setPrev n (some .fakeHead)).setNext x none).setPrev
    x none
  refine ⟨{ q1 with numFreeBlocks := q1.numFreeBlocks - 1 }, ?_, ?_⟩
  · unfold popleft
    rw [hhead]
    cases x with
    | fakeTail => exact absurd rfl hxt
    | fakeHead => simp only [hxn, q1]
    | block i => simp only [hxn, q1]
  · have h' : FreeList q ([] ++ [x] ++ B) := h
    refine h'.cut hp hn ?_ ?_ ⟨?_, ?_⟩ ?_
    · intro a hap hax
      have hax' : a ≠ x := by simpa using hax
      simp [q1, hap, hax']
    · intro a han hax
      have hax' : a ≠ x := by simpa using hax
      simp [q1, han, hax']
    · simp [q1, hpx]
    · simp [q1, hnx]
    · simp [q1]

/-- The loop of `popleft_n` along a chain of nodes: it returns the first nodes, stands at
the next one, and has cleared the links of what it returned. -/
theorem popleftNLoop_spec {X B : List BlockRef} {n : BlockRef} (ret : List BlockRef)
    (hchain : DList q.next q.prev (X ++ n :: B)) (hnd : (X ++ n :: B).Nodup) :
    ∃ q', popleftNLoop X.length (X ++ n :: B).head? ret q = .ok (ret ++ X, some n, q') ∧
      (∀ a, a ∉ X → q'.next a = q.next a) ∧ (∀ a, a ∉ X → q'.prev a = q.prev a) ∧
      q'.numFreeBlocks = q.numFreeBlocks := by
  induction X generalizing q ret with
  | nil => exact ⟨q, by simp [popleftNLoop], by simp, by simp, rfl⟩
  | cons x X ih =>
    have hnd' : (X ++ n :: B).Nodup := (List.nodup_cons.mp hnd).2
    have hx : x ∉ X ++ n :: B := (List.nodup_cons.mp hnd).1
    have hnext : q.next x = (X ++ n :: B).head? := by
      cases X with
      | nil => exact (List.isChain_cons_cons.mp hchain).1.1
      | cons y X => exact (List.isChain_cons_cons.mp hchain).1.1
    let q1 := (q.setPrev x none).setNext x none
    have hchain1 : DList q1.next q1.prev (X ++ n :: B) := by
      have htail : DList q.next q.prev (X ++ n :: B) := List.IsChain.tail hchain
      refine htail.congr ?_ ?_
      · intro a ha
        have : a ≠ x := fun hax => hx (hax ▸ List.dropLast_subset _ ha)
        simp [q1, this]
      · intro a ha
        have : a ≠ x := fun hax => hx (hax ▸ List.mem_of_mem_tail ha)
        simp [q1, this]
    obtain ⟨q', hrun, hn', hp', hc'⟩ := ih (ret ++ [x]) hchain1 hnd'
    refine ⟨q', ?_, ?_, ?_, hc'⟩
    · simp only [List.length_cons, List.cons_append, List.head?_cons, popleftNLoop, hnext]
      simpa using hrun
    · intro a ha
      obtain ⟨hax, haX⟩ := not_or.mp (mt List.mem_cons.mpr ha)
      rw [hn' a haX]
      simp [q1, hax]
    · intro a ha
      obtain ⟨hax, haX⟩ := not_or.mp (mt List.mem_cons.mpr ha)
      rw [hp' a haX]
      simp [q1, hax]
/-- `popleft_n` takes the first blocks off a free list that has as many. -/
theorem popleftN_spec {X B : List BlockRef} (h : FreeList q (X ++ B)) :
    ∃ q', popleftN X.length q = .ok (X, q') ∧ FreeList q' B := by
  by_cases hX : X = []
  · subst hX
    exact ⟨q, by simp [popleftN], h⟩
  · have hlen : X.length ≠ 0 := fun h0 => hX (List.length_eq_zero_iff.mp h0)
    obtain ⟨n, B', hB⟩ : ∃ n B', B ++ [fakeTail] = n :: B' := by
      cases B with
      | nil => exact ⟨_, _, rfl⟩
      | cons b B => exact ⟨b, B ++ [.fakeTail], rfl⟩
    have hnodes : nodes (X ++ B) = .fakeHead :: (X ++ n :: B') := by
      rw [← hB]
      simp [nodes]
    have hall : DList q.next q.prev (.fakeHead :: (X ++ n :: B')) := hnodes ▸ h.chain
    have hchain : DList q.next q.prev (X ++ n :: B') := List.IsChain.tail hall
    have hnd : (fakeHead :: (X ++ n :: B')).Nodup := hnodes ▸ h.nodup
    have hhead : q.next .fakeHead = (X ++ n :: B').head? := by
      rw [h.next_fakeHead, ← hB, List.append_assoc]
    let q1 : FreeKVCacheBlockQueue := { q with numFreeBlocks := q.numFreeBlocks - X.length }
    obtain ⟨q2, hrun, hn2, hp2, hc2⟩ :=
      popleftNLoop_spec (q := q1) [] hchain (List.nodup_cons.mp hnd).2
    have hheadX : fakeHead ∉ X := fun hm =>
      (List.nodup_cons.mp hnd).1 (List.mem_append_left _ hm)
    have hnX : n ∉ X := fun hm =>
      (List.nodup_append.mp (List.nodup_cons.mp hnd).2).2.2 n hm n (by simp) rfl
    refine ⟨(q2.setNext .fakeHead (some n)).setPrev n (some .fakeHead), ?_, ?_⟩
    · have hcount : ¬ q.numFreeBlocks < X.length := by
        rw [h.count, List.length_append]
        omega
      have hrun' : popleftNLoop X.length (q.next .fakeHead) [] q1 = .ok (X, some n, q2) := by
        rw [hhead]
        simpa using hrun
      simp only [popleftN, hlen, hcount, if_false]
      show (popleftNLoop X.length (q.next .fakeHead) [] q1 >>= _) = _
      rw [hrun']
      rfl
    · have h' : FreeList q ([] ++ X ++ B) := h
      refine h'.cut (p := .fakeHead) (n := n) rfl (by rw [hB]; rfl) ?_ ?_ ⟨?_, ?_⟩ ?_
      · intro a hap haX
        simp [hap, hn2 a haX, q1]
      · intro a han haX
        simp [han, hp2 a haX, q1]
      · simp
      · simp
      · simp [hc2, q1]
/-- Real blocks that are distinct and not in the free list may be put at its end. -/
theorem FreeList.nodup_append {X : List BlockRef} (h : FreeList q L) (hX : X.Nodup)
    (hreal : ∀ x ∈ X, ∃ i, x = .block i) (hfresh : ∀ x ∈ X, x ∉ L) :
    (nodes (L ++ X)).Nodup := by
  refine nodup_nodes (List.nodup_append.mpr ⟨h.nodup_list, hX, ?_⟩) ?_ ?_
  · rintro a ha b hb rfl
    exact hfresh a hb ha
  · intro hmem
    rcases List.mem_append.mp hmem with hL | hX
    · exact h.fakeHead_notMem hL
    · obtain ⟨i, hi⟩ := hreal _ hX
      exact BlockRef.noConfusion hi
  · intro hmem
    rcases List.mem_append.mp hmem with hL | hX
    · exact h.fakeTail_notMem hL
    · obtain ⟨i, hi⟩ := hreal _ hX
      exact BlockRef.noConfusion hi

/-- The loop of `append_n` links the given blocks one after the other behind `last`. -/
theorem appendNLoop_spec (X : List BlockRef) (last : BlockRef) (hnd : (last :: X).Nodup) :
    DList (appendNLoop X last q).2.next (appendNLoop X last q).2.prev (last :: X) ∧
      (last :: X).getLast? = some (appendNLoop X last q).1 ∧
      (∀ a, a ∉ (last :: X).dropLast → (appendNLoop X last q).2.next a = q.next a) ∧
      (∀ a, a ∉ X → (appendNLoop X last q).2.prev a = q.prev a) ∧
      (appendNLoop X last q).2.numFreeBlocks = q.numFreeBlocks := by
  induction X generalizing q last with
  | nil =>
    exact ⟨List.IsChain.singleton _, rfl, by simp [appendNLoop], by simp [appendNLoop], rfl⟩
  | cons x X ih =>
    have hnd' : (x :: X).Nodup := (List.nodup_cons.mp hnd).2
    have hlast : last ∉ x :: X := (List.nodup_cons.mp hnd).1
    have hxX : x ∉ X := (List.nodup_cons.mp hnd').1
    let q1 := (q.setPrev x (some last)).setNext last (some x)
    obtain ⟨hchain, hget, hnext, hprev, hcount⟩ := ih (q := q1) x hnd'
    have hstep : appendNLoop (x :: X) last q = appendNLoop X x q1 := rfl
    rw [hstep]
    refine ⟨List.isChain_cons_cons.mpr ⟨⟨?_, ?_⟩, hchain⟩, ?_, ?_, ?_, hcount⟩
    · rw [hnext last (fun hm => hlast (List.dropLast_subset _ hm))]
      simp [q1]
    · rw [hprev x hxX]
      simp [q1]
    · rw [← hget]
      simp [List.getLast?_cons]
    · intro a ha
      rw [List.dropLast_cons_cons] at ha
      obtain ⟨hal, haX⟩ := not_or.mp (mt List.mem_cons.mpr ha)
      rw [hnext a haX]
      simp [q1, hal]
    · intro a ha
      obtain ⟨hax, haX⟩ := not_or.mp (mt List.mem_cons.mpr ha)
      rw [hprev a haX]
      simp [q1, hax]
/-- `append_n` puts distinct blocks at the end of a free list that holds none of them. -/
theorem appendN_spec {X : List BlockRef} (h : FreeList q L) (hX : X.Nodup)
    (hreal : ∀ x ∈ X, ∃ i, x = .block i) (hfresh : ∀ x ∈ X, x ∉ L) :
    ∃ q', q.appendN X = .ok q' ∧ FreeList q' (L ++ X) := by
  by_cases hX0 : X = []
  · subst hX0
    exact ⟨q, by simp [appendN], by simpa using h⟩
  · have hlen : X.length ≠ 0 := fun h0 => hX0 (List.length_eq_zero_iff.mp h0)
    obtain ⟨p, hp⟩ : ∃ p, (fakeHead :: L).getLast? = some p :=
      ⟨_, List.getLast?_eq_some_getLast (List.cons_ne_nil _ _)⟩
    have htail : q.prev .fakeTail = some p := h.prev_fakeTail.trans hp
    have hnodes : (nodes (L ++ X)).Nodup := h.nodup_append hX hreal hfresh
    obtain ⟨A', hA⟩ := List.getLast?_eq_some_iff.mp hp
    have hnd : (p :: X ++ [fakeTail]).Nodup := by
      have hsplit : nodes (L ++ X) = A' ++ (p :: X ++ [fakeTail]) := by
        have : nodes (L ++ X) = (fakeHead :: L) ++ X ++ [.fakeTail] := by
          simp [nodes]
        rw [this, hA]
        simp
      exact (List.nodup_append.mp (hsplit ▸ hnodes)).2.1
    have hndX : (p :: X).Nodup := (List.nodup_append.mp hnd).1
    have htX : fakeTail ∉ p :: X := fun hm =>
      (List.nodup_append.mp hnd).2.2 _ hm _ (by simp) rfl
    obtain ⟨hchain, hget, hnext, hprev, hcount⟩ := appendNLoop_spec (q := q) X p hndX
    generalize hres : appendNLoop X p q = res at hchain hget hnext hprev hcount
    obtain ⟨last, q1⟩ := res
    simp only at hchain hget hnext hprev hcount
    have hlastX : last ∈ p :: X := List.mem_of_getLast? hget
    have hlast : last ∈ X := by
      cases X with
      | nil => exact absurd rfl hX0
      | cons x X =>
        have hget' : (x :: X).getLast? = some last := by
          rw [← hget]
          simp [List.getLast?_cons]
        exact List.mem_of_getLast? hget'
    let q2 := (q1.setNext last (some .fakeTail)).setPrev .fakeTail (some last)
    refine ⟨{ q2 with numFreeBlocks := q2.numFreeBlocks + X.length }, ?_, ?_⟩
    · simp only [appendN, hlen, if_false, htail, hres, q2]
    · refine h.paste hp hnodes ?_ ?_ ?_ ?_
      · intro a hap haX
        have hal : a ≠ last := fun hal => haX (hal ▸ hlast)
        have hmem : a ∉ (p :: X).dropLast := fun hm => by
          rcases List.mem_cons.mp (List.dropLast_subset _ hm) with hm | hm
          · exact hap hm
          · exact haX hm
        simp [q2, hal, hnext a hmem]
      · intro a hat haX
        simp [q2, hat, hprev a haX]
      · -- The chain behind `p` was built by the loop; only its last link is new.
        have hlink : DList q2.next q2.prev (p :: X) := by
          refine hchain.congr ?_ ?_
          · intro a ha
            have hal : a ≠ last := by
              rintro rfl
              obtain ⟨Y, hY⟩ := List.getLast?_eq_some_iff.mp hget
              rw [hY, List.dropLast_concat] at ha
              rw [hY] at hndX
              exact (List.nodup_append.mp hndX).2.2 a ha a (by simp) rfl
            simp [q2, hal]
          · intro a ha
            have hat : a ≠ .fakeTail := fun hat => htX (hat ▸ List.mem_cons_of_mem p ha)
            simp [q2, hat]
        refine hlink.append (List.IsChain.singleton _) ?_
        intro a ha b hb
        obtain rfl : fakeTail = b := by simpa using hb
        obtain rfl : last = a := Option.some.inj (hget.symm.trans ha)
        exact ⟨by simp [q2], by simp [q2]⟩
      · simp [q2, hcount]
end Mutators

end Vllm.Proofs.Core
