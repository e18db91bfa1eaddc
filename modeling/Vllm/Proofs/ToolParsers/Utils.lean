import Mathlib.Data.List.Infix
import Vllm.ToolParsers.Utils

/-!
# `Vllm.Proofs.ToolParsers.Utils`: what is streamed of the arguments

The arguments grow from `x` to `x ++ d`, and both are closed with the same characters. The common
suffix takes with these also what `x` and `x ++ d` end with in common, `u`, as long as that is not
alphanumeric. What is streamed then is not `d` but `d'`, with `d' ++ u = u ++ d`
(`extractIntermediateDiff_spec`).

* `diffs_reassemble_iff`: the streamed parts make up the arguments exactly if `u` and `d` commute in
  every step.
-/

set_option autoImplicit false

namespace Vllm.Proofs.ToolParsers

open Vllm.V1.Engine Vllm.ToolParsers List

variable {isalnum : Char → Bool}

theorem findCommonPrefix_append (x s : Text) : findCommonPrefix (x ++ s) x = x := by
  induction x with
  | nil => cases s <;> rfl
  | cons c x ih => rw [cons_append, findCommonPrefix, if_pos rfl, ih]

theorem commonRun_append {s : Text} (hs : ∀ c ∈ s, isalnum c = false) (x y : Text) :
    commonRun isalnum (s ++ x) (s ++ y) = s ++ commonRun isalnum x y := by
  induction s with
  | nil => rfl
  | cons c s ih =>
    have hc := hs c mem_cons_self
    rw [cons_append, cons_append, commonRun, if_pos (by simp [hc]),
      ih fun c hc => hs c (mem_cons_of_mem _ hc), cons_append]

theorem commonRun_isPrefix (x y : Text) :
    commonRun isalnum x y <+: x ∧ commonRun isalnum x y <+: y := by
  induction x generalizing y with
  | nil => exact ⟨List.nil_prefix, List.nil_prefix⟩
  | cons c x ih =>
    cases y with
    | nil => exact ⟨List.nil_prefix, List.nil_prefix⟩
    | cons c' y =>
      unfold commonRun
      split
      · rename_i hcond
        obtain ⟨rfl, -⟩ : c = c' ∧ isalnum c = false := by simpa using hcond
        exact ⟨prefix_cons_inj c |>.mpr (ih y).1, prefix_cons_inj c |>.mpr (ih y).2⟩
      · exact ⟨List.nil_prefix, List.nil_prefix⟩

/-- The suffix is what both texts end with, and the closing characters. -/
theorem findCommonSuffix_append {s : Text} (hs : ∀ c ∈ s, isalnum c = false) (x y : Text) :
    findCommonSuffix isalnum (x ++ s) (y ++ s) = findCommonSuffix isalnum x y ++ s := by
  unfold findCommonSuffix
  rw [reverse_append, reverse_append, commonRun_append (by simpa using hs),
    reverse_append, reverse_reverse]

theorem findCommonSuffix_isSuffix (x y : Text) :
    findCommonSuffix isalnum x y <:+ x ∧ findCommonSuffix isalnum x y <:+ y := by
  have h := @commonRun_isPrefix isalnum x.reverse y.reverse
  exact ⟨List.reverse_prefix.mp (by simpa [findCommonSuffix] using h.1),
    List.reverse_prefix.mp (by simpa [findCommonSuffix] using h.2)⟩

/-- What a text begins with is what is removed. -/
theorem removeFirst_append (sub rest : Text) : removeFirst (sub ++ rest) sub = rest := by
  have hfind : pyFind (sub ++ rest) sub 0 = some 0 := by
    simp [pyFind, List.find?_range'_eq_some]
  rw [removeFirst, hfind]
  simp

theorem removeFirst_reverse (x s : Text) : (removeFirst (x ++ s).reverse s.reverse).reverse = x := by
  rw [reverse_append, removeFirst_append, reverse_reverse]

/-- What is streamed for a step. -/
theorem extractIntermediateDiff_spec {s : Text} (hs : ∀ c ∈ s, isalnum c = false) (x d : Text) :
    extractIntermediateDiff isalnum (x ++ d ++ s) (x ++ s) ++ findCommonSuffix isalnum (x ++ d) x =
      findCommonSuffix isalnum (x ++ d) x ++ d := by
  obtain ⟨⟨y', hy⟩, ⟨x', hx⟩⟩ := @findCommonSuffix_isSuffix isalnum (x ++ d) x
  have hsuffix := @findCommonSuffix_append isalnum s hs (x ++ d) x
  generalize findCommonSuffix isalnum (x ++ d) x = u at hx hy hsuffix
  -- What is left of the old text begins what is left of the new one.
  obtain ⟨d', rfl⟩ : ∃ d', y' = x' ++ d' := by
    have hsplit : y' ++ u = x' ++ (u ++ d) := by rw [hy, ← hx, append_assoc]
    have hbegins : x' <+: y' := by
      have hlen := congrArg List.length hsplit
      simp only [length_append] at hlen
      exact prefix_of_prefix_length_le ⟨u ++ d, hsplit.symm⟩ (prefix_append y' u)
        (by omega)
    obtain ⟨d', hd⟩ := hbegins
    exact ⟨d', hd.symm⟩
  have hcommute : d' ++ u = u ++ d := by
    have hsplit : x' ++ (d' ++ u) = x' ++ (u ++ d) := by
      rw [← append_assoc, hy, ← hx, append_assoc]
    exact append_cancel_left hsplit
  have hdiff : extractIntermediateDiff isalnum (x ++ d ++ s) (x ++ s) = d' := by
    have hcurr : x ++ d ++ s = x' ++ d' ++ (u ++ s) := by rw [← hy, append_assoc]
    have hold : x ++ s = x' ++ (u ++ s) := by rw [← hx, append_assoc]
    unfold extractIntermediateDiff
    rw [hsuffix, hcurr, hold]
    dsimp only
    rw [removeFirst_reverse, removeFirst_reverse, append_assoc x' d', findCommonPrefix_append]
    -- An empty suffix or an empty prefix is not removed.
    have hwhole : (if (u ++ s).length ≠ 0 then x' ++ d' else x' ++ (d' ++ (u ++ s))) = x' ++ d' := by
      split
      · rfl
      · rename_i hzero
        rw [length_eq_zero_iff.mp (not_not.mp hzero), append_nil]
    rw [hwhole]
    split
    · exact removeFirst_append x' d'
    · rename_i hzero
      rw [length_eq_zero_iff.mp (not_not.mp hzero), nil_append]
  rw [hdiff, hcommute]

theorem append_eq_append_iff_of_length {a a' b b' : Text} (h : a.length = a'.length) :
    a ++ b = a' ++ b' ↔ a = a' ∧ b = b' :=
  ⟨fun heq => append_inj heq h, fun ⟨ha, hb⟩ => by rw [ha, hb]⟩

/-- The streamed parts make up the arguments exactly if, in every step, what is added commutes with
what the old and the new arguments both end with and is not alphanumeric. -/
theorem diffs_reassemble_iff {s : Text} (hs : ∀ c ∈ s, isalnum c = false) (x : Nat → Text) (n : Nat)
    (hgrow : ∀ k < n, x k <+: x (k + 1)) :
    x 0 ++ ((List.range n).map fun k =>
        extractIntermediateDiff isalnum (x (k + 1) ++ s) (x k ++ s)).flatten = x n ↔
      ∀ k < n, findCommonSuffix isalnum (x (k + 1)) (x k) ++ (x (k + 1)).drop (x k).length =
        (x (k + 1)).drop (x k).length ++ findCommonSuffix isalnum (x (k + 1)) (x k) := by
  -- The parts have the lengths of what is added, so that the steps can be taken one by one.
  have hlen : ∀ m ≤ n, (x 0 ++ ((List.range m).map fun k =>
      extractIntermediateDiff isalnum (x (k + 1) ++ s) (x k ++ s)).flatten).length =
      (x m).length := by
    intro m hm
    induction m with
    | zero => simp
    | succ m ih =>
      obtain ⟨d, hd⟩ := hgrow m hm
      have hspec := congrArg List.length (@extractIntermediateDiff_spec isalnum s hs (x m) d)
      have hadded := congrArg List.length hd
      rw [hd] at hspec
      rw [length_append] at hspec hadded
      rw [range_succ, map_append, flatten_append, ← append_assoc,
        length_append, ih (Nat.le_of_succ_le hm), map_singleton, flatten_singleton]
      rw [length_append] at hspec
      omega
  have hsteps : ∀ m ≤ n, x 0 ++ ((List.range m).map fun k =>
      extractIntermediateDiff isalnum (x (k + 1) ++ s) (x k ++ s)).flatten = x m ↔
      ∀ k < m, findCommonSuffix isalnum (x (k + 1)) (x k) ++ (x (k + 1)).drop (x k).length =
        (x (k + 1)).drop (x k).length ++ findCommonSuffix isalnum (x (k + 1)) (x k) := by
    intro m hm
    induction m with
    | zero => simp
    | succ m ih =>
      obtain ⟨d, hd⟩ := hgrow m hm
      have hspec := @extractIntermediateDiff_spec isalnum s hs (x m) d
      rw [hd] at hspec
      have hpart : extractIntermediateDiff isalnum (x (m + 1) ++ s) (x m ++ s) = d ↔
          findCommonSuffix isalnum (x (m + 1)) (x m) ++ d =
            d ++ findCommonSuffix isalnum (x (m + 1)) (x m) := by
        constructor
        · intro heq
          rw [← hspec, heq]
        · intro heq
          exact append_cancel_right (hspec.trans heq)
      have hdrop : (x (m + 1)).drop (x m).length = d := by rw [← hd, drop_left]
      rw [range_succ, map_append, flatten_append, ← append_assoc]
      simp only [map_singleton, flatten_singleton]
      nth_rewrite 2 [← hd]
      rw [append_eq_append_iff_of_length (hlen m (Nat.le_of_succ_le hm)),
        ih (Nat.le_of_succ_le hm), hpart]
      constructor
      · rintro ⟨hbefore, hself⟩ k hk
        rcases Nat.lt_succ_iff_lt_or_eq.mp hk with hlt | rfl
        · exact hbefore k hlt
        · rwa [hdrop]
      · intro h
        refine ⟨fun k hk => h k (Nat.lt_succ_of_lt hk), ?_⟩
        have hself := h m (Nat.lt_succ_self m)
        rwa [hdrop] at hself
  exact hsteps n (Nat.le_refl n)

/-- The old and the new arguments end with `!`, which is no part of what is added. -/
theorem diff_shifted :
    let x : Nat → Text := fun k => if k = 0 then ['h', 'i', '!'] else ['h', 'i', '!', 'a', '!']
    (∀ k < 1, x k <+: x (k + 1)) ∧
      x 0 ++ ((List.range 1).map fun k => extractIntermediateDiff Char.isAlphanum
        (x (k + 1) ++ ['"']) (x k ++ ['"'])).flatten = ['h', 'i', '!', '!', 'a'] ∧
      x 0 ++ ((List.range 1).map fun k => extractIntermediateDiff Char.isAlphanum
        (x (k + 1) ++ ['"']) (x k ++ ['"'])).flatten ≠ x 1 := by
  refine ⟨fun k hk => ?_, by decide +kernel, by decide +kernel⟩
  obtain rfl : k = 0 := Nat.lt_one_iff.mp hk
  exact ⟨['a', '!'], rfl⟩

/-- The old arguments end with a letter. -/
theorem diff_after_letter :
    let x : Nat → Text := fun k => if k = 0 then ['a', 'p'] else ['a', 'p', 'p', 'l', 'e']
    x 0 ++ ((List.range 1).map fun k => extractIntermediateDiff Char.isAlphanum
      (x (k + 1) ++ ['"', '}']) (x k ++ ['"', '}'])).flatten = x 1 := by
  intro x
  have hs : ∀ c ∈ ['"', '}'], Char.isAlphanum c = false :=
    forall_mem_cons.mpr ⟨rfl, forall_mem_singleton.mpr rfl⟩
  refine (diffs_reassemble_iff hs x 1 fun k hk => ?_).mpr fun k hk => ?_
  · obtain rfl : k = 0 := Nat.lt_one_iff.mp hk
    exact ⟨['p', 'l', 'e'], rfl⟩
  · obtain rfl : k = 0 := Nat.lt_one_iff.mp hk
    decide +kernel

end Vllm.Proofs.ToolParsers
