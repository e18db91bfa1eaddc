import Mathlib.Data.List.Infix
import Vllm.V1.Engine.Detokenizer

/-!
# `Vllm.Proofs.Engine.StopStrings`: where the text is cut

A text ends at the first position where a stop string is complete. `update` looks for stop strings
only where the new characters can complete one, which finds the first occurrence of each
(`pyFind_window`), but it cuts at the first string of the list that it finds, and not at the first
one that is complete. Both cuts keep what was given out before: characters that a stop string may
still take are held back.

* `earliestEnd`, `cutText`: the text as it should end.
* `update_spec`, `serve_spec`: what a step and the steps of a request do.
* `serve_cuts_earliest_iff`: for which steps that is the text as it should end.
-/

set_option autoImplicit false

namespace Vllm.Proofs.Engine

open Vllm.V1.Engine Vllm.V1.Engine.BaseIncrementalDetokenizer List

/-! ### The text as it should end -/

/-- The string ends at `e` in the text. -/
def completeAt (text s : Text) (e : Nat) : Bool :=
  decide (s.length ≤ e) && s.isPrefixOf (text.drop (e - s.length))

/-- The first position where a stop string is complete. -/
def earliestEnd (stop : List Text) (text : Text) : Option Nat :=
  (List.range (text.length + 1)).find? fun e => stop.any fun s => completeAt text s e

/-- Where a text is cut for a stop string that begins at `start`. -/
def cutPoint (incl : Bool) (s : Text) (start : Nat) : Nat :=
  if incl then start + s.length else start

/-- A text up to the first position where a stop string is complete. Of several strings that are
complete there, it is the first one of the list that is cut off. -/
def cutText (stop : List Text) (incl : Bool) (text : Text) : Text :=
  match earliestEnd stop text with
  | none => text
  | some e =>
    match stop.find? fun s => completeAt text s e with
    | none => text
    | some s => text.take (cutPoint incl s (e - s.length))

variable {stop : List Text} {s text more : Text} {e i : Nat}

theorem completeAt_iff : completeAt text s e = true ↔ s.length ≤ e ∧ s <+: text.drop (e - s.length) := by
  simp [completeAt, isPrefixOf_iff_prefix]

theorem add_length_le (hs : s ≠ []) (h : s <+: text.drop i) : i + s.length ≤ text.length := by
  have hlen := h.length_le
  have hpos := length_pos_iff.mpr hs
  rw [length_drop] at hlen
  omega

/-- What is complete in a text is not changed by further text. -/
theorem prefix_drop_append (h : i + s.length ≤ text.length) :
    s <+: (text ++ more).drop i ↔ s <+: text.drop i := by
  have htake : ((text ++ more).drop i).take s.length = (text.drop i).take s.length := by
    rw [drop_append_of_le_length (by omega), take_append_of_le_length (by
      rw [length_drop]
      omega)]
  rw [prefix_iff_eq_take, prefix_iff_eq_take, htake]

theorem completeAt_append (h : e ≤ text.length) :
    completeAt (text ++ more) s e = completeAt text s e := by
  rw [Bool.eq_iff_iff, completeAt_iff, completeAt_iff]
  constructor
  · rintro ⟨hle, hbegins⟩
    exact ⟨hle, (prefix_drop_append (by omega)).mp hbegins⟩
  · rintro ⟨hle, hbegins⟩
    exact ⟨hle, (prefix_drop_append (by omega)).mpr hbegins⟩

theorem completeAt_le (hs : s ≠ []) (h : completeAt text s e = true) : e ≤ text.length := by
  obtain ⟨hle, hbegins⟩ := completeAt_iff.mp h
  have := add_length_le hs hbegins
  omega

theorem earliestEnd_eq_some_iff (hstop : ∀ s ∈ stop, s ≠ []) :
    earliestEnd stop text = some e ↔ (∃ s ∈ stop, completeAt text s e = true) ∧
      ∀ e' < e, ∀ s ∈ stop, completeAt text s e' = false := by
  simp only [earliestEnd, List.find?_range_eq_some, any_eq_true, mem_range,
    Bool.not_eq_true', any_eq_false, Bool.not_eq_true]
  constructor
  · rintro ⟨hfound, -, hfirst⟩
    exact ⟨hfound, hfirst⟩
  · rintro ⟨⟨s, hs, hcomplete⟩, hfirst⟩
    exact ⟨⟨s, hs, hcomplete⟩, Nat.lt_succ_of_le (completeAt_le (hstop s hs) hcomplete), hfirst⟩

theorem earliestEnd_eq_none_iff (hstop : ∀ s ∈ stop, s ≠ []) :
    earliestEnd stop text = none ↔ ∀ s ∈ stop, ∀ i, ¬ s <+: text.drop i := by
  simp only [earliestEnd, List.find?_range_eq_none, Bool.not_eq_true', any_eq_false,
    Bool.not_eq_true]
  constructor
  · intro h s hs i hbegins
    have hlen := add_length_le (hstop s hs) hbegins
    have hnot := h (i + s.length) (by omega) s hs
    rw [← Bool.not_eq_true, completeAt_iff, Nat.add_sub_cancel] at hnot
    exact hnot ⟨Nat.le_add_left _ _, hbegins⟩
  · intro h e _ s hs
    rw [← Bool.not_eq_true, completeAt_iff]
    exact fun hcomplete => h s hs _ hcomplete.2

/-- Further text does not change where a text ends. -/
theorem earliestEnd_append (hstop : ∀ s ∈ stop, s ≠ []) (h : earliestEnd stop text = some e) :
    earliestEnd stop (text ++ more) = some e := by
  obtain ⟨⟨s, hs, hcomplete⟩, hfirst⟩ := (earliestEnd_eq_some_iff hstop).mp h
  have hle := completeAt_le (hstop s hs) hcomplete
  refine (earliestEnd_eq_some_iff hstop).mpr ⟨⟨s, hs, ?_⟩, fun e' he' s' hs' => ?_⟩
  · rwa [completeAt_append hle]
  · rw [completeAt_append (by omega)]
    exact hfirst e' he' s' hs'

/-- The string that the text ends with, and where it begins. -/
theorem cutText_of_some {incl : Bool} (hstop : ∀ s ∈ stop, s ≠ [])
    (h : earliestEnd stop text = some e) :
    ∃ s, stop.find? (fun s => completeAt text s e) = some s ∧ s.length ≤ e ∧ e ≤ text.length ∧
      ∀ more, cutText stop incl (text ++ more) = text.take (cutPoint incl s (e - s.length)) := by
  obtain ⟨⟨s', hs', hcomplete⟩, -⟩ := (earliestEnd_eq_some_iff hstop).mp h
  obtain ⟨s, hfind⟩ : ∃ s, stop.find? (fun s => completeAt text s e) = some s := by
    rw [← Option.isSome_iff_exists, List.find?_isSome]
    exact ⟨s', hs', hcomplete⟩
  have hle := completeAt_le (hstop s' hs') hcomplete
  have hcomplete' : completeAt text s e = true :=
    @List.find?_some _ (fun s => completeAt text s e) _ _ hfind
  have hlen := (completeAt_iff.mp hcomplete').1
  refine ⟨s, hfind, hlen, hle, fun more => ?_⟩
  have hcut : cutPoint incl s (e - s.length) ≤ text.length := by
    unfold cutPoint
    split <;> omega
  simp only [cutText, earliestEnd_append hstop h, completeAt_append hle, hfind]
  rw [take_append_of_le_length hcut]

/-! ### The search -/

/-- The search from the start finds the first occurrence. -/
theorem pyFind_zero_eq_some_iff (hs : s ≠ []) :
    pyFind text s 0 = some i ↔ s <+: text.drop i ∧ ∀ j < i, ¬ s <+: text.drop j := by
  simp only [pyFind, Int.lt_irrefl, if_false, Int.toNat_zero, Nat.sub_zero,
    List.find?_range'_eq_some, isPrefixOf_iff_prefix, mem_range'_1, Bool.not_eq_true',
    ← Bool.not_eq_true]
  constructor
  · rintro ⟨hbegins, -, hfirst⟩
    exact ⟨hbegins, fun j hj => hfirst j (Nat.zero_le j) hj⟩
  · rintro ⟨hbegins, hfirst⟩
    have := add_length_le hs hbegins
    exact ⟨hbegins, by omega, fun j _ hj => hfirst j hj⟩

theorem pyFind_zero_eq_none_iff (hs : s ≠ []) :
    pyFind text s 0 = none ↔ ∀ i, ¬ s <+: text.drop i := by
  simp only [pyFind, Int.lt_irrefl, if_false, Int.toNat_zero, Nat.sub_zero,
    List.find?_range'_eq_none, Bool.not_eq_true', ← Bool.not_eq_true, isPrefixOf_iff_prefix]
  constructor
  · intro h i hbegins
    have := add_length_le hs hbegins
    exact h i (Nat.zero_le i) (by omega) hbegins
  · intro h i _ _
    exact h i

/-- Where only the new characters can complete a string, the search from the window on finds what
the search from the start does. -/
theorem pyFind_window {new : Nat} (hs : s ≠ []) (hnew : 0 < new)
    (hold : ∀ j, s <+: text.drop j → text.length < j + s.length + new) :
    pyFind text s (1 - new - s.length) = pyFind text s 0 := by
  have hpos := length_pos_iff.mpr hs
  have hneg : (1 - new - s.length : Int) < 0 := by omega
  have hstart : (1 - new - s.length + text.length : Int).toNat =
      text.length + 1 - new - s.length := by omega
  apply Option.ext
  intro i
  rw [pyFind_zero_eq_some_iff hs]
  simp only [pyFind, hneg, if_true, hstart, List.find?_range'_eq_some, isPrefixOf_iff_prefix,
    mem_range'_1, Bool.not_eq_true', ← Bool.not_eq_true]
  constructor
  · rintro ⟨hbegins, -, hfirst⟩
    refine ⟨hbegins, fun j hj hj' => ?_⟩
    have := hold j hj'
    exact hfirst j (by omega) hj hj'
  · rintro ⟨hbegins, hfirst⟩
    have := add_length_le hs hbegins
    have := hold i hbegins
    exact ⟨hbegins, by omega, fun j _ hj => hfirst j hj⟩

/-- The first string of the list that occurs in the text, and where it begins. -/
def firstFound (stop : List Text) (text : Text) : Option (Text × Nat) :=
  stop.findSome? fun s => (pyFind text s 0).map fun i => (s, i)

theorem firstFound_eq_none_iff (hstop : ∀ s ∈ stop, s ≠ []) :
    firstFound stop text = none ↔ earliestEnd stop text = none := by
  rw [firstFound, List.findSome?_eq_none_iff, earliestEnd_eq_none_iff hstop]
  refine forall₂_congr fun s hs => ?_
  rw [Option.map_eq_none_iff, pyFind_zero_eq_none_iff (hstop s hs)]

theorem firstFound_eq_some {i : Nat} (hstop : ∀ s ∈ stop, s ≠ [])
    (h : firstFound stop text = some (s, i)) : s ∈ stop ∧ s <+: text.drop i := by
  obtain ⟨s', hs', hmap⟩ := exists_of_findSome?_eq_some h
  obtain ⟨i', hfind, heq⟩ := Option.map_eq_some_iff.mp hmap
  obtain ⟨rfl, rfl⟩ := Prod.mk.inj heq
  exact ⟨hs', ((pyFind_zero_eq_some_iff (hstop s' hs')).mp hfind).1⟩

theorem findSome?_congr {α β : Type} {f g : α → Option β} {l : List α} (h : ∀ a ∈ l, f a = g a) :
    l.findSome? f = l.findSome? g := by
  induction l with
  | nil => rfl
  | cons a l ih =>
    rw [List.findSome?_cons, List.findSome?_cons, h a mem_cons_self,
      ih fun b hb => h b (mem_cons_of_mem _ hb)]

variable {incl : Bool}

/-- `check_stop_strings` cuts at the first string of the list that occurs. -/
theorem checkStopStrings_eq {new : Nat} (hstop : ∀ s ∈ stop, s ≠ [])
    (hold : ∀ s ∈ stop, ∀ j, s <+: text.drop j → text.length < j + s.length + new)
    (hnew : 0 < new) :
    checkStopStrings text new stop incl = (firstFound stop text).map fun p => (p.1,
      if incl = true ∧ text.length ≤ p.2 + p.1.length then none
      else some (cutPoint incl p.1 p.2)) := by
  unfold checkStopStrings firstFound
  by_cases hnil : stop = []
  · simp [hnil]
  rw [if_neg (not_or.mpr ⟨Nat.ne_of_gt hnew, hnil⟩), map_findSome?]
  refine findSome?_congr fun s hs => ?_
  rw [pyFind_window (hstop s hs) hnew (hold s hs)]
  rw [Function.comp_apply]
  cases pyFind text s 0 with
  | none => rfl
  | some i =>
    -- The four cases of the code: included or not, and with text after the string or without.
    by_cases hincl : incl = true
    · by_cases hend : text.length ≤ i + s.length
      · simp [hincl, hend]
      · simp [hincl, hend, cutPoint]
    · simp [hincl, cutPoint]

/-! ### One step -/

/-- The text that a step adds. -/
def newText (incl : Bool) (pieces : List Text) (stopTerminated : Bool) : Text :=
  (if stopTerminated && !incl then pieces.dropLast else pieces).flatten

variable {d : BaseIncrementalDetokenizer}

theorem foldl_decodeNext (hmin : d.minTokens = 0) (offset : Nat) (pieces : List Text) :
    pieces.foldl decodeNext (d, offset) = ({ d with
      numOutputTokenIds := d.numOutputTokenIds + pieces.length
      outputText := d.outputText ++ pieces.flatten }, offset) := by
  induction pieces generalizing d with
  | nil => simp
  | cons piece pieces ih =>
    have hstep : decodeNext (d, offset) piece = ({ d with
        numOutputTokenIds := d.numOutputTokenIds + 1
        outputText := d.outputText ++ piece }, offset) := by
      simp [decodeNext, hmin]
    rw [foldl_cons, hstep]
    refine (@ih { d with
      numOutputTokenIds := d.numOutputTokenIds + 1
      outputText := d.outputText ++ piece } hmin).trans ?_
    simp [Nat.add_comm, Nat.add_left_comm]

/-- The check of the stop strings, when there is new text. -/
theorem checkStop_spec {old new : Text} (hmin : d.minTokens = 0) (hstop : ∀ s ∈ d.stop, s ≠ [])
    (hold : earliestEnd d.stop old = none) (htext : d.outputText = old ++ new)
    (hcount : 0 < d.numOutputTokenIds) :
    (if d.stop ≠ [] ∧ d.minTokens < d.numOutputTokenIds then
      match checkStopStrings d.outputText (d.outputText.length - old.length) d.stop
          d.includeStopStrInOutput with
      | none => (none, d)
      | some (stopString, none) => (some stopString, d)
      | some (stopString, some truncateTo) =>
        (some stopString, { d with outputText := d.outputText.take truncateTo })
    else (none, d)) = ((firstFound d.stop d.outputText).map Prod.fst, { d with
      outputText := match firstFound d.stop d.outputText with
        | none => d.outputText
        | some (s, i) => d.outputText.take (cutPoint d.includeStopStrInOutput s i) }) := by
  have hlen : d.outputText.length - old.length = new.length := by
    rw [htext, length_append, Nat.add_sub_cancel_left]
  by_cases hnil : d.stop = []
  · have hnone : firstFound d.stop d.outputText = none := by rw [hnil, firstFound, List.findSome?_nil]
    rw [if_neg fun h => h.1 hnil, hnone]
    rfl
  rw [if_pos ⟨hnil, hmin ▸ hcount⟩, hlen]
  rcases Nat.eq_zero_or_pos new.length with hzero | hpos
  · -- Without new characters nothing is searched, and nothing can be complete.
    have hnone : firstFound d.stop d.outputText = none := by
      rw [htext, length_eq_zero_iff.mp hzero, append_nil]
      exact (firstFound_eq_none_iff hstop).mpr hold
    rw [checkStopStrings, if_pos (.inl hzero), hnone]
    rfl
  · have hwindow : ∀ s ∈ d.stop, ∀ j, s <+: d.outputText.drop j →
        d.outputText.length < j + s.length + new.length := by
      intro s hs j hbegins
      refine Nat.lt_of_not_le fun hle => ?_
      rw [htext, length_append] at hle
      rw [htext, prefix_drop_append (by omega)] at hbegins
      exact (earliestEnd_eq_none_iff hstop).mp hold s hs j hbegins
    rw [checkStopStrings_eq hstop hwindow hpos]
    cases firstFound d.stop d.outputText with
    | none => rfl
    | some found =>
      obtain ⟨s, i⟩ := found
      by_cases hend : d.includeStopStrInOutput = true ∧ d.outputText.length ≤ i + s.length
      · have htake : d.outputText.take (cutPoint d.includeStopStrInOutput s i) = d.outputText := by
          rw [cutPoint, if_pos hend.1, take_of_length_le hend.2]
        dsimp only [Option.map_some]
        rw [if_pos hend, htake]
      · dsimp only [Option.map_some]
        rw [if_neg hend]

/-- What `update` does without `min_tokens`, when no stop string was complete before. -/
theorem update_spec {d : BaseIncrementalDetokenizer} (hmin : d.minTokens = 0)
    (hstop : ∀ s ∈ d.stop, s ≠ []) (hold : earliestEnd d.stop d.outputText = none)
    (pieces : List Text) (stopTerminated : Bool) :
    ∃ count, d.update pieces stopTerminated = ((firstFound d.stop (d.outputText ++
          newText d.includeStopStrInOutput pieces stopTerminated)).map Prod.fst,
        { d with
          numOutputTokenIds := count
          outputText := match firstFound d.stop (d.outputText ++
              newText d.includeStopStrInOutput pieces stopTerminated) with
            | none => d.outputText ++ newText d.includeStopStrInOutput pieces stopTerminated
            | some (s, i) => (d.outputText ++
                newText d.includeStopStrInOutput pieces stopTerminated).take
                  (cutPoint d.includeStopStrInOutput s i) }) := by
  have hnone := (firstFound_eq_none_iff hstop).mpr hold
  unfold update
  by_cases hpieces : pieces = []
  · have hempty : newText d.includeStopStrInOutput pieces stopTerminated = [] := by
      simp [newText, hpieces]
    rw [hempty, append_nil, hnone, if_pos hpieces]
    exact ⟨d.numOutputTokenIds, rfl⟩
  let kept := if stopTerminated && !d.includeStopStrInOutput then pieces.dropLast else pieces
  have hkept : kept.flatten = newText d.includeStopStrInOutput pieces stopTerminated := rfl
  have hlen : 0 < pieces.length := length_pos_iff.mpr hpieces
  rw [if_neg hpieces]
  dsimp only
  rw [foldl_decodeNext hmin]
  by_cases hskip : (stopTerminated && !d.includeStopStrInOutput) = true
  · refine ⟨d.numOutputTokenIds + kept.length + 1, ?_⟩
    rw [if_pos hskip, ← hkept]
    exact checkStop_spec (d := { d with
      numOutputTokenIds := d.numOutputTokenIds + kept.length + 1
      outputText := d.outputText ++ kept.flatten }) hmin hstop hold rfl (Nat.succ_pos _)
  · refine ⟨d.numOutputTokenIds + kept.length, ?_⟩
    have hpos : 0 < d.numOutputTokenIds + kept.length := by
      simp only [kept, hskip]
      exact Nat.lt_add_left _ hlen
    rw [if_neg hskip, ← hkept]
    exact checkStop_spec (d := { d with
      numOutputTokenIds := d.numOutputTokenIds + kept.length
      outputText := d.outputText ++ kept.flatten }) hmin hstop hold rfl hpos

/-! ### The text that is given out -/

/-- The text of the steps. -/
def textOf (incl : Bool) (calls : List Call) : Text :=
  calls.flatMap fun call => newText incl call.pieces call.stopTerminated

theorem length_le_buffer {incl : Bool} (hs : s ∈ stop) (hincl : incl = false) :
    s.length ≤ bufferLength stop incl + 1 := by
  have hmax : s.length ≤ (stop.map List.length).foldr max 0 := by
    induction stop with
    | nil => cases hs
    | cons s' stop ih =>
      rw [map_cons, foldr_cons]
      rcases mem_cons.mp hs with rfl | hs
      · exact Nat.le_max_left _ _
      · exact Nat.le_trans (ih hs) (Nat.le_max_right _ _)
  rw [bufferLength, if_pos ⟨ne_nil_of_mem hs, hincl⟩]
  omega

/-- A stop string that new text completes leaves what may have been given out. -/
theorem le_cutPoint {incl : Bool} {new : Text} (hstop : ∀ s ∈ stop, s ≠ [])
    (hold : earliestEnd stop text = none) (h : firstFound stop (text ++ new) = some (s, i)) :
    text.length - bufferLength stop incl ≤ cutPoint incl s i ∧
      cutPoint incl s i ≤ (text ++ new).length := by
  obtain ⟨hs, hbegins⟩ := firstFound_eq_some hstop h
  have hlen := add_length_le (hstop s hs) hbegins
  have hlate : text.length < i + s.length := by
    refine Nat.lt_of_not_le fun hle => ?_
    rw [prefix_drop_append hle] at hbegins
    exact (earliestEnd_eq_none_iff hstop).mp hold s hs i hbegins
  unfold cutPoint
  cases hincl : incl with
  | true => exact ⟨by simp only [if_true]; omega, by simpa using hlen⟩
  | false =>
    have := @length_le_buffer stop s incl hs hincl
    rw [hincl] at this
    simp only [Bool.false_eq_true, if_false]
    omega

/-- The detokenizer of a request that goes on, with this text. -/
structure Ready (stop : List Text) (incl : Bool) (text : Text) (d : BaseIncrementalDetokenizer) :
    Prop where
  stop_eq : d.stop = stop
  incl_eq : d.includeStopStrInOutput = incl
  minTokens : d.minTokens = 0
  buffer : d.stopBufferLength = bufferLength stop incl
  text_eq : d.outputText = text
  offset : d.lastOutputTextOffset ≤ text.length - bufferLength stop incl
  none_complete : earliestEnd stop text = none

/-- How the steps of a request end. -/
inductive StepsEnd (stop : List Text) (incl : Bool) (text : Text) (calls : List Call) (o : Outcome) :
    Prop where
  /-- No stop string is complete in the text. -/
  | full (hnone : earliestEnd stop (text ++ textOf incl calls) = none)
      (hstopped : o.stoppedAt = none) (htext : o.outputText = text ++ textOf incl calls)
  /-- A step completes one, and the text is cut at the first one of the list. -/
  | cut (k : Nat) (s : Text) (i : Nat) (hk : k < calls.length)
      (hnone : earliestEnd stop (text ++ textOf incl (calls.take k)) = none)
      (hfound : firstFound stop (text ++ textOf incl (calls.take (k + 1))) = some (s, i))
      (hstopped : o.stoppedAt = some (k + 1))
      (htext : o.outputText = (text ++ textOf incl (calls.take (k + 1))).take (cutPoint incl s i))

theorem textOf_take_succ {incl : Bool} {calls : List Call} {k : Nat} (hk : k < calls.length) :
    ∃ new, textOf incl (calls.take (k + 1)) = textOf incl (calls.take k) ++ new := by
  rw [take_succ_eq_append_getElem hk, textOf, flatMap_append]
  exact ⟨_, rfl⟩

variable {calls : List Call}

/-- What may have been given out before is in the text at the end. -/
theorem StepsEnd.kept {o : Outcome} (hstop : ∀ s ∈ stop, s ≠ [])
    (h : StepsEnd stop incl text calls o) :
    text.take (text.length - bufferLength stop incl) <+: o.outputText := by
  cases h with
  | full _ _ htext =>
    rw [htext]
    exact (List.take_prefix _ _).trans (prefix_append _ _)
  | cut k s i hk hnone hfound _ htext =>
    obtain ⟨new, hnew⟩ := @textOf_take_succ incl calls k hk
    rw [hnew, ← append_assoc] at hfound htext
    have hle := (@le_cutPoint stop s _ i incl new hstop hnone hfound).1
    rw [length_append] at hle
    rw [htext, append_assoc]
    have htake : text.take (text.length - bufferLength stop incl) =
        (text ++ (textOf incl (calls.take k) ++ new)).take
          (text.length - bufferLength stop incl) := by
      rw [take_append_of_le_length (Nat.sub_le _ _)]
    rw [htake]
    exact take_prefix_take_left (by omega)

/-- A step before the steps. -/
theorem StepsEnd.cons {incl : Bool} {call : Call} {calls : List Call} {o o' : Outcome}
    (h : StepsEnd stop incl (text ++ newText incl call.pieces call.stopTerminated) calls o)
    (hstopped : o'.stoppedAt = o.stoppedAt.map (· + 1)) (htext : o'.outputText = o.outputText) :
    StepsEnd stop incl text (call :: calls) o' := by
  have hcons : ∀ calls', textOf incl (call :: calls') =
      newText incl call.pieces call.stopTerminated ++ textOf incl calls' := fun _ => rfl
  cases h with
  | full hnone hstopped' htext' =>
    refine .full ?_ (by rw [hstopped, hstopped']; rfl) ?_
    · rwa [hcons, ← append_assoc]
    · rw [htext, htext', hcons, append_assoc]
  | cut k s i hk hnone hfound hstopped' htext' =>
    refine .cut (k + 1) s i (Nat.succ_lt_succ hk) ?_ ?_ (by rw [hstopped, hstopped']; rfl) ?_
    · rwa [take_succ_cons, hcons, ← append_assoc]
    · rwa [take_succ_cons, hcons, ← append_assoc]
    · rw [htext, htext', take_succ_cons, hcons, append_assoc]

/-- At the end, all of the text that is left is given out. -/
theorem flush_eq (d : BaseIncrementalDetokenizer) :
    (d.getNextOutputText true true).1 = d.outputText.drop d.lastOutputTextOffset := by
  simp only [getNextOutputText, if_true, Nat.sub_zero, take_length]
  split
  · rfl
  · rw [drop_eq_nil_of_le (by omega)]

/-- Before the end, some of it may be given out. -/
theorem poll_spec (h : Ready stop incl text d) (polled : Bool) :
    ∃ offset, (if polled then d.getNextOutputText false true else ([], d)) =
        ((d.outputText.take offset).drop d.lastOutputTextOffset,
          { d with lastOutputTextOffset := offset }) ∧
      d.lastOutputTextOffset ≤ offset ∧ offset ≤ text.length - bufferLength stop incl := by
  have hnothing : (d.outputText.take d.lastOutputTextOffset).drop d.lastOutputTextOffset = [] :=
    drop_eq_nil_of_le (length_take_le _ _)
  have hlen : d.outputText.length - d.stopBufferLength = text.length - bufferLength stop incl := by
    rw [h.text_eq, h.buffer]
  cases polled with
  | false => exact ⟨d.lastOutputTextOffset, by simp [hnothing], Nat.le_refl _, h.offset⟩
  | true =>
    simp only [getNextOutputText, if_true, Bool.false_eq_true, if_false, hlen]
    split
    · rename_i hlt
      exact ⟨_, rfl, Nat.le_of_lt hlt, Nat.le_refl _⟩
    · exact ⟨d.lastOutputTextOffset, by rw [hnothing], Nat.le_refl _, h.offset⟩

/-- What is given out in a step and after it. -/
theorem given_append {final : Text} {n last offset : Nat} (h : text.take n <+: final)
    (hn : n ≤ text.length) (hfrom : last ≤ offset) (hto : offset ≤ n) :
    (text.take offset).drop last ++ final.drop offset = final.drop last := by
  obtain ⟨rest, rfl⟩ := h
  have hlen : offset ≤ (text.take n).length := by rwa [length_take, Nat.min_eq_left hn]
  have htake : (text.take n ++ rest).take offset = text.take offset := by
    rw [take_append_of_le_length hlen, take_take, Nat.min_eq_left hto]
  have hlast : last ≤ ((text.take n ++ rest).take offset).length := by
    rw [length_take, length_append]
    omega
  rw [← htake, ← drop_append_of_le_length hlast, take_append_drop]

/-- The steps of a request, from any text without a stop string. -/
theorem serve_spec (hstop : ∀ s ∈ stop, s ≠ []) (h : Ready stop incl text d) (calls : List Call) :
    StepsEnd stop incl text calls (d.serve calls) ∧
      (d.serve calls).texts.flatten = (d.serve calls).outputText.drop d.lastOutputTextOffset := by
  induction calls generalizing d text with
  | nil =>
    refine ⟨.full (by simpa [textOf] using h.none_complete) rfl (by simp [serve, textOf, h.text_eq]), ?_⟩
    simp [serve, flush_eq]
  | cons call calls ih =>
    obtain ⟨hstopEq, rfl, hmin, hbuffer, rfl, hoffset, hnone⟩ := h
    subst hstopEq
    obtain ⟨count, hupdate⟩ := @update_spec d hmin hstop hnone call.pieces call.stopTerminated
    let new := newText d.includeStopStrInOutput call.pieces call.stopTerminated
    have htextOf : ∀ calls', textOf d.includeStopStrInOutput (call :: calls') =
        new ++ textOf d.includeStopStrInOutput calls' := fun _ => rfl
    cases hfound : firstFound d.stop (d.outputText ++ new) with
    | some found =>
      -- The step completes a stop string.
      obtain ⟨s, i⟩ := found
      rw [hfound] at hupdate
      have hserve : d.serve (call :: calls) = {
          stoppedAt := some 1
          outputText := (d.outputText ++ new).take (cutPoint d.includeStopStrInOutput s i)
          texts := [((d.outputText ++ new).take
            (cutPoint d.includeStopStrInOutput s i)).drop d.lastOutputTextOffset] } := by
        rw [serve, hupdate]
        dsimp only [Option.map_some]
        rw [flush_eq]
      rw [hserve]
      refine ⟨.cut 0 s i (Nat.succ_pos _) (by simpa [textOf] using hnone) ?_ rfl ?_, by simp⟩
      · rw [take_succ_cons, htextOf]
        simpa [textOf] using hfound
      · rw [take_succ_cons, htextOf]
        simp [textOf]
    | none =>
      rw [hfound] at hupdate
      let d' : BaseIncrementalDetokenizer := { d with
        numOutputTokenIds := count
        outputText := d.outputText ++ new }
      have hready : Ready d.stop d.includeStopStrInOutput (d.outputText ++ new) d' := by
        refine ⟨rfl, rfl, hmin, hbuffer, rfl, ?_, (firstFound_eq_none_iff hstop).mp hfound⟩
        dsimp only [d']
        rw [length_append]
        omega
      obtain ⟨offset, hpoll, hfrom, hto⟩ := poll_spec hready call.polled
      obtain ⟨hends, htexts⟩ := @ih (d.outputText ++ new)
        { d' with lastOutputTextOffset := offset }
        ⟨rfl, rfl, hmin, hbuffer, rfl, hto, hready.none_complete⟩
      have hserve : d.serve (call :: calls) =
          let rest := serve { d' with lastOutputTextOffset := offset } calls
          { rest with
            stoppedAt := rest.stoppedAt.map (· + 1)
            texts := ((d'.outputText.take offset).drop d.lastOutputTextOffset) :: rest.texts } := by
        rw [serve, hupdate]
        dsimp only [Option.map_none]
        rw [hpoll]
      rw [hserve]
      refine ⟨hends.cons rfl rfl, ?_⟩
      dsimp only
      rw [flatten_cons, htexts]
      exact given_append (hends.kept hstop) (Nat.sub_le _ _) hfrom hto

/-! ### All steps of a request -/

/-- A request ends as it should: with the step that completes the first stop string, with the text
up to there, and with nothing given out that the text does not have. -/
structure CutsEarliest (stop : List Text) (incl : Bool) (calls : List Call) (o : Outcome) :
    Prop where
  stopped : ∀ k, o.stoppedAt = some k ↔ ∃ j < calls.length, k = j + 1 ∧
    earliestEnd stop (textOf incl (calls.take j)) = none ∧
    earliestEnd stop (textOf incl (calls.take (j + 1))) ≠ none
  text : o.outputText = cutText stop incl (textOf incl calls)
  given : o.texts.flatten = o.outputText ∧ ∀ n, (o.texts.take n).flatten <+: o.outputText

/-- In the text of a step that completes a stop string, the first string of the list that occurs is
cut off where the first string that is complete is. -/
def ListOrder (stop : List Text) (incl : Bool) (calls : List Call) : Prop :=
  ∀ k < calls.length, earliestEnd stop (textOf incl (calls.take k)) = none →
    ∀ s i, firstFound stop (textOf incl (calls.take (k + 1))) = some (s, i) →
      ∀ e s', earliestEnd stop (textOf incl (calls.take (k + 1))) = some e →
        stop.find? (fun s => completeAt (textOf incl (calls.take (k + 1))) s e) = some s' →
        cutPoint incl s i = cutPoint incl s' (e - s'.length)

theorem textOf_take_append (calls : List Call) (k : Nat) :
    textOf incl calls = textOf incl (calls.take k) ++ textOf incl (calls.drop k) := by
  rw [textOf, textOf, textOf, ← flatMap_append, take_append_drop]

/-- Steps before the one that completes a stop string do not. -/
theorem earliestEnd_take_of_le {j k : Nat} (hstop : ∀ s ∈ stop, s ≠ []) (hjk : j ≤ k)
    (h : earliestEnd stop (textOf incl (calls.take k)) = none) :
    earliestEnd stop (textOf incl (calls.take j)) = none := by
  cases hj : earliestEnd stop (textOf incl (calls.take j)) with
  | none => rfl
  | some e =>
    have htake : textOf incl (calls.take k) =
        textOf incl (calls.take j) ++ textOf incl ((calls.take k).drop j) := by
      rw [textOf_take_append (calls.take k) j, take_take, Nat.min_eq_left hjk]
    rw [htake, earliestEnd_append hstop hj] at h
    cases h

/-- Only one step completes the first stop string. -/
theorem step_unique {j k : Nat} (hstop : ∀ s ∈ stop, s ≠ [])
    (hj : earliestEnd stop (textOf incl (calls.take j)) = none)
    (hj' : earliestEnd stop (textOf incl (calls.take (j + 1))) ≠ none)
    (hk : earliestEnd stop (textOf incl (calls.take k)) = none)
    (hk' : earliestEnd stop (textOf incl (calls.take (k + 1))) ≠ none) : j = k := by
  rcases Nat.lt_trichotomy j k with hlt | heq | hgt
  · exact absurd (earliestEnd_take_of_le hstop hlt hk) hj'
  · exact heq
  · exact absurd (earliestEnd_take_of_le hstop hgt hj) hk'

theorem cutPoint_le {start n : Nat} (incl : Bool) (h : start + s.length ≤ n) :
    cutPoint incl s start ≤ n := by
  unfold cutPoint
  split
  · exact h
  · omega

/-- A request ends as it should exactly if the list order of the stop strings makes no difference in
the step that completes one. -/
theorem serve_cuts_earliest_iff {incl : Bool} (hstop : ∀ s ∈ stop, s ≠ []) (calls : List Call) :
    CutsEarliest stop incl calls ((init stop 0 incl).serve calls) ↔ ListOrder stop incl calls := by
  have hempty : earliestEnd stop ([] : Text) = none := by
    refine (earliestEnd_eq_none_iff hstop).mpr fun s hs i hbegins => ?_
    rw [drop_nil] at hbegins
    exact hstop s hs (prefix_nil.mp hbegins)
  have hready : Ready stop incl [] (init stop 0 incl) :=
    ⟨rfl, rfl, rfl, rfl, rfl, Nat.zero_le _, hempty⟩
  obtain ⟨hends, hgiven⟩ := serve_spec hstop hready calls
  generalize (init stop 0 incl).serve calls = o at hends hgiven
  have hgiven' : o.texts.flatten = o.outputText := hgiven.trans drop_zero
  have hpieces : ∀ n, (o.texts.take n).flatten <+: o.outputText := by
    intro n
    refine ⟨(o.texts.drop n).flatten, ?_⟩
    rw [← flatten_append, take_append_drop, hgiven']
  cases hends with
  | full hnone hstopped htext =>
    rw [nil_append] at hnone htext
    have hnever : ∀ k, earliestEnd stop (textOf incl (calls.take k)) = none := by
      intro k
      rcases Nat.le_total k calls.length with hle | hge
      · refine earliestEnd_take_of_le hstop hle ?_
        rwa [take_length]
      · rwa [take_of_length_le hge]
    constructor
    · intro _ k _ _ s i _ e s' he
      rw [hnever] at he
      cases he
    · intro _
      refine ⟨fun k => ⟨fun hk => ?_, fun ⟨j, _, _, _, hj⟩ => absurd (hnever _) hj⟩, ?_,
        hgiven', hpieces⟩
      · rw [hstopped] at hk
        cases hk
      · rw [htext, cutText, hnone]
  | cut k s i hk hnone hfound hstopped htext =>
    rw [nil_append] at hnone hfound htext
    have hsome : earliestEnd stop (textOf incl (calls.take (k + 1))) ≠ none := fun h => by
      rw [(firstFound_eq_none_iff hstop).mpr h] at hfound
      cases hfound
    obtain ⟨e, he⟩ := Option.ne_none_iff_exists'.mp hsome
    obtain ⟨s', hs', hlen', hle', hcut⟩ := @cutText_of_some stop _ e incl hstop he
    have hfull : cutText stop incl (textOf incl calls) =
        (textOf incl (calls.take (k + 1))).take (cutPoint incl s' (e - s'.length)) := by
      rw [textOf_take_append calls (k + 1)]
      exact hcut _
    have hstoppedAt : ∀ k', o.stoppedAt = some k' ↔ ∃ j < calls.length, k' = j + 1 ∧
        earliestEnd stop (textOf incl (calls.take j)) = none ∧
        earliestEnd stop (textOf incl (calls.take (j + 1))) ≠ none := by
      intro k'
      rw [hstopped]
      constructor
      · intro h
        exact ⟨k, hk, (Option.some.inj h).symm, hnone, hsome⟩
      · rintro ⟨j, _, rfl, hj, hj'⟩
        rw [step_unique hstop hnone hsome hj hj']
    constructor
    · intro h j _ hj t n hfound' e' t' he' ht'
      have hj' : earliestEnd stop (textOf incl (calls.take (j + 1))) ≠ none := by
        rw [he']
        exact Option.some_ne_none e'
      obtain rfl := step_unique hstop hj hj' hnone hsome
      cases hfound.symm.trans hfound'
      cases he.symm.trans he'
      cases hs'.symm.trans ht'
      -- Both cuts are within the text, so that equal texts are cut at one place.
      obtain ⟨hs, hbegins⟩ := firstFound_eq_some hstop hfound
      have hcode := cutPoint_le incl (add_length_le (hstop s hs) hbegins)
      have hspec := @cutPoint_le s' (e - s'.length) e incl (by omega)
      have hlen := congrArg List.length (htext.symm.trans (h.text.trans hfull))
      rw [length_take, length_take, Nat.min_eq_left hcode,
        Nat.min_eq_left (Nat.le_trans hspec hle')] at hlen
      exact hlen
    · intro h
      refine ⟨hstoppedAt, ?_, hgiven', hpieces⟩
      rw [htext, hfull, h k hk hnone s i hfound e s' he hs']

/-- One step brings both strings of the list, the second one first. -/
theorem stop_strings_swapped :
    ((init [['Y'], ['X']] 0 false).serve [⟨[['a'], ['X'], ['b'], ['Y']], false, true⟩]).outputText =
        ['a', 'X', 'b'] ∧
      ((init [['Y'], ['X']] 0 false).serve [⟨[['a']], false, true⟩, ⟨[['X']], false, true⟩,
        ⟨[['b']], false, true⟩, ⟨[['Y']], false, true⟩]).outputText = ['a'] ∧
      ¬ CutsEarliest [['Y'], ['X']] false [⟨[['a'], ['X'], ['b'], ['Y']], false, true⟩]
        ((init [['Y'], ['X']] 0 false).serve [⟨[['a'], ['X'], ['b'], ['Y']], false, true⟩]) := by
  refine ⟨by decide +kernel, by decide +kernel, fun h => ?_⟩
  have htext : ['a', 'X', 'b'] = ['a'] := (by decide +kernel : _ = _).trans (h.text.trans
    (by decide +kernel : cutText [['Y'], ['X']] false (textOf false
      [⟨[['a'], ['X'], ['b'], ['Y']], false, true⟩]) = ['a']))
  exact absurd htext (by decide)

/-- One step brings only the first string of the list. -/
theorem stop_strings_in_order : CutsEarliest [['Y'], ['X']] false
    [⟨[['a'], ['Y'], ['b']], false, true⟩]
    ((init [['Y'], ['X']] 0 false).serve [⟨[['a'], ['Y'], ['b']], false, true⟩]) := by
  refine (serve_cuts_earliest_iff (by decide) _).mpr ?_
  intro k hk _ s i hfound e s' he hs'
  obtain rfl : k = 0 := Nat.lt_one_iff.mp hk
  have hfound' : firstFound [['Y'], ['X']] ['a', 'Y', 'b'] = some (['Y'], 1) := by decide +kernel
  have he' : earliestEnd [['Y'], ['X']] ['a', 'Y', 'b'] = some 2 := by decide +kernel
  have hs'' : [['Y'], ['X']].find? (fun s => completeAt ['a', 'Y', 'b'] s 2) = some ['Y'] := by
    decide +kernel
  cases hfound'.symm.trans hfound
  cases he'.symm.trans he
  cases hs''.symm.trans hs'
  rfl

end Vllm.Proofs.Engine
