import Mathlib.Data.List.Basic
import Mathlib.Logic.Function.Basic

/-!
# `Vllm.Lib.RowLog`: a table by rows and the log of its changes

A table has an entry in some of its rows. Someone who keeps a second table beside it is told only
now and then what has changed: which rows were written, which were cleared and what was moved, in
that order and not in the order in which it happened.

* `Rows`: a table, and `RowMove.apply`: one move.
* `RowLog.replay`: the changes of a log, in the order of the replay.
* `applyMoves_bind`: rows that are filled by a later move may have any entry before.
-/

set_option autoImplicit false

namespace Vllm.Lib

open List

/-- The entries of a table by rows. -/
abbrev Rows (τ : Type) := Nat → Option τ

/-- A move between two rows. -/
inductive RowMove where
  | move (a b : Nat)
  | swap (a b : Nat)
deriving DecidableEq

/-- The table after a move. What the target of a move had is lost. -/
def RowMove.apply {τ : Type} : RowMove → Rows τ → Rows τ
  | .move a b, S => Function.update (Function.update S a none) b (S a)
  | .swap a b, S => Function.update (Function.update S a (S b)) b (S a)

/-- The changes of a table. -/
structure RowLog (τ : Type) where
  added : List (Nat × Option τ) := []
  removed : List Nat := []
  moved : List RowMove := []

section Replay
variable {τ ι : Type}

/-- A row is written. -/
def Rows.put (S : Rows τ) (entry : Nat × Option τ) : Rows τ := Function.update S entry.1 entry.2

/-- A row is cleared. -/
def Rows.clear (S : Rows τ) (i : Nat) : Rows τ := Function.update S i none

/-- The table after the changes: first what was written, then what was cleared, then the moves. -/
def RowLog.replay (log : RowLog τ) (S : Rows τ) : Rows τ :=
  log.moved.foldl (fun S m => m.apply S) (log.removed.foldl Rows.clear (log.added.foldl Rows.put S))

theorem foldl_clear (removed : List Nat) (S : Rows τ) (i : Nat) :
    removed.foldl Rows.clear S i = if i ∈ removed then none else S i := by
  induction removed generalizing S with
  | nil => simp
  | cons j removed ih =>
    rw [foldl_cons, ih]
    by_cases hmem : i ∈ removed
    · rw [if_pos hmem, if_pos (mem_cons_of_mem j hmem)]
    · rw [if_neg hmem]
      by_cases hij : i = j
      · subst hij
        rw [if_pos mem_cons_self]
        exact Function.update_self ..
      · rw [if_neg (by simp [hij, hmem])]
        exact Function.update_of_ne hij ..

/-- A log without moves. -/
theorem RowLog.replay_of_moved_nil {log : RowLog τ} (h : log.moved = []) (S : Rows τ) (i : Nat) :
    log.replay S i = if i ∈ log.removed then none else log.added.foldl Rows.put S i := by
  unfold RowLog.replay
  rw [h, foldl_nil, foldl_clear]

/-- A move at the end of the log. -/
theorem RowLog.replay_snoc {log log' : RowLog τ} {m : RowMove} (hadded : log'.added = log.added)
    (hremoved : log'.removed = log.removed) (hmoved : log'.moved = log.moved ++ [m])
    (S : Rows τ) : log'.replay S = m.apply (log.replay S) := by
  unfold RowLog.replay
  rw [hadded, hremoved, hmoved, foldl_append, foldl_cons, foldl_nil]

/-! ### An empty table -/

theorem RowMove.apply_none (m : RowMove) : m.apply (fun _ => none : Rows τ) = fun _ => none := by
  funext i
  cases m with
  | move a b => simp [RowMove.apply, Function.update_apply]
  | swap a b => simp [RowMove.apply, Function.update_apply]

/-- Nothing is to be cleared or moved in an empty table. -/
theorem RowLog.replay_of_added_none {log : RowLog τ} {S : Rows τ}
    (h : ∀ i, log.added.foldl Rows.put S i = none) (i : Nat) : log.replay S i = none := by
  have hclear : log.removed.foldl Rows.clear (log.added.foldl Rows.put S) = fun _ => none := by
    funext i
    rw [foldl_clear, h, ite_self]
  unfold RowLog.replay
  rw [hclear]
  induction log.moved with
  | nil => rfl
  | cons m moved ih => rw [foldl_cons, RowMove.apply_none, ih]

/-! ### Two tables -/

/-- A move commutes with what belongs to the entries. -/
theorem RowMove.apply_bind (want : ι → Option τ) (m : RowMove) (T : Rows ι) :
    m.apply (fun i => (T i).bind want) = fun i => (m.apply T i).bind want := by
  funext i
  cases m with
  | move a b =>
    simp only [RowMove.apply, Function.update_apply]
    split_ifs <;> rfl
  | swap a b =>
    simp only [RowMove.apply, Function.update_apply]
    split_ifs <;> rfl

/-- The moves of pairs of rows. -/
def applyMoves {κ : Type} (moves : List (Nat × Nat)) (S : Rows κ) : Rows κ :=
  moves.foldl (fun S m => (RowMove.move m.1 m.2).apply S) S

/-- Two tables agree after some moves, when they agree before in the rows that are not filled by
them. No row moves that a later move has to fill. -/
theorem applyMoves_bind (want : ι → Option τ) {moves : List (Nat × Nat)} {S : Rows τ} {T : Rows ι}
    (hpending : ∀ m ∈ moves, m.1 ≠ m.2) (hlater : moves.Pairwise fun m m' => m.1 ≠ m'.2)
    (h : ∀ i, (∀ m ∈ moves, i ≠ m.2) → S i = (T i).bind want) (i : Nat) :
    applyMoves moves S i = (applyMoves moves T i).bind want := by
  induction moves generalizing S T with
  | nil => exact h i fun m hm => absurd hm not_mem_nil
  | cons m moves ih =>
    obtain ⟨hfirst, hrest⟩ := pairwise_cons.mp hlater
    refine ih (fun m' hm' => hpending m' (mem_cons_of_mem m hm')) hrest fun j hj => ?_
    -- The row that moves is not one that is still to be filled.
    have hsource : S m.1 = (T m.1).bind want := by
      refine h m.1 fun m' hm' => ?_
      rcases mem_cons.mp hm' with rfl | hm'
      · exact hpending m' mem_cons_self
      · exact hfirst m' hm'
    by_cases hb : j = m.2
    · simp [RowMove.apply, hb, hsource]
    · by_cases ha : j = m.1
      · simp [RowMove.apply, ha, hpending m mem_cons_self]
      · simp only [RowMove.apply, Function.update_of_ne hb, Function.update_of_ne ha]
        refine h j fun m' hm' => ?_
        rcases mem_cons.mp hm' with rfl | hm'
        · exact hb
        · exact hj m' hm'

/-- What is in the table after some moves was in it before. -/
theorem exists_of_applyMoves {moves : List (Nat × Nat)} {T : Rows ι} {i : Nat} {x : ι}
    (h : applyMoves moves T i = some x) : ∃ j, T j = some x := by
  induction moves generalizing T with
  | nil => exact ⟨i, h⟩
  | cons m moves ih =>
    obtain ⟨j, hj⟩ := ih h
    simp only [RowMove.apply, Function.update_apply] at hj
    split at hj
    · exact ⟨m.1, hj⟩
    · split at hj
      · cases hj
      · exact ⟨j, hj⟩

end Replay

end Vllm.Lib
