import Vllm.Lib.Splice
import Vllm.Multimodal.Processing

/-!
# `Vllm.Proofs.Multimodal.Processing`: updates of a prompt are applied once

A match to apply is an edit of the prompt (`Vllm.Lib.Splice`): an insertion goes after its match,
a replacement takes its place.

* `firstMatch`, `foundItems`: what the nested loops of `_find_matches` find, item by item.
* `findMatches_spec`: the matches of a round are for items without a result, are found in the
  prompt and belong to one update each. `findMatches_order`: of two items that look for the same,
  the first one comes first.
* `selectedMatches`: the matches of all rounds. `applyLoop_spec`: the loop ends after them, and
  applies them one after the other.
* `placeholdersOk_find`: what `find_mm_placeholders` finds.
* `apply_token_matches_laws`: the results together. `nested_insertion_repeats`: what happens when a
  match begins before the end of the one before it.
-/

set_option autoImplicit false

namespace Vllm.Proofs.Multimodal

open Vllm.Lib Vllm.Multimodal List

variable {α : Type} [DecidableEq α] {tokenizer : String → List α} {prompt : List α}
  {mmPromptUpdates : MultiModalPromptUpdates α} {prevEndIdx : Nat} {key : ItemKey}

/-! ### What `_find_matches` finds -/

section FirstMatch
variable (tokenizer prompt prevEndIdx)

/-- The first update with the mode of the matches that has a match, from the modes and targets of
the updates. -/
def firstMatch (mode : Option UpdateMode) :
    Nat → List (UpdateMode × UpdateTarget α) → Option (UpdateMode × PromptTargetMatch × Nat)
  | _, [] => none
  | n, (updateMode, target) :: rest =>
    match (target.iterMatches tokenizer prompt prevEndIdx).head? with
    | none => firstMatch mode (n + 1) rest
    | some m =>
      if mode = none ∨ mode = some updateMode then some (updateMode, m, n)
      else firstMatch mode (n + 1) rest

end FirstMatch

/-- What an update looks for. -/
def wanted (update : ResolvedPromptUpdate α) : UpdateMode × UpdateTarget α :=
  (update.mode, update.target)

/-- A state with one more match. -/
def FindState.add (s : FindState) (key : ItemKey) (found : UpdateMode × PromptTargetMatch × Nat) :
    FindState where
  mode := some found.1
  mmMatches := s.mmMatches.insert key found.2

section Try
omit [DecidableEq α]

theorem tryMatches_skip {s : FindState} {mode : UpdateMode} {updateIdx : Nat}
    {update : ResolvedPromptUpdate α} (hmode : s.mode = some mode) (hne : mode ≠ update.mode)
    (ms : List PromptTargetMatch) : tryMatches key updateIdx update ms s = s := by
  induction ms with
  | nil => rfl
  | cons m ms ih =>
    rw [tryMatches, hmode]
    dsimp only
    rw [if_pos hne]
    exact ih

end Try

variable {updates : List (ResolvedPromptUpdate α)}

/-- The loop over the updates of an item stops at the first match. -/
theorem tryUpdates_eq {n : Nat} {s : FindState} (hkey : s.mmMatches.contains key = false) :
    tryUpdates tokenizer prompt prevEndIdx key (updates.zipIdx n) s =
      match firstMatch tokenizer prompt prevEndIdx s.mode n (updates.map wanted) with
      | none => s
      | some found => FindState.add s key found := by
  induction updates generalizing n with
  | nil => rfl
  | cons update updates ih =>
    rw [zipIdx_cons, tryUpdates, hkey, if_neg (by simp), map_cons,
      show wanted update = (update.mode, update.target) from rfl, firstMatch]
    cases hms : update.target.iterMatches tokenizer prompt prevEndIdx with
    | nil => exact ih
    | cons m rest =>
      dsimp only [List.head?_cons]
      -- A match ends the loop over the updates.
      have hadded : ∀ s' : FindState, s'.mmMatches = s.mmMatches.insert key (m, n) →
          tryUpdates tokenizer prompt prevEndIdx key (updates.zipIdx (n + 1)) s' = s' := by
        intro s' hs'
        cases updates with
        | nil => rfl
        | cons update' updates =>
          rw [zipIdx_cons, tryUpdates, hs', PyDict.contains_insert]
          simp
      cases hmode : s.mode with
      | none =>
        rw [tryMatches, hmode]
        dsimp only
        rw [hadded _ rfl, if_pos (.inl rfl)]
        rfl
      | some mode =>
        by_cases heq : mode = update.mode
        · rw [tryMatches, hmode]
          dsimp only
          rw [if_neg (not_not.mpr heq), hadded _ rfl, heq, if_pos (.inr rfl)]
          rfl
        · rw [tryMatches_skip hmode heq, if_neg (by simpa using heq), ih, hmode]

section Found
variable (tokenizer prompt prevEndIdx) (currentResult : AppliedUpdates)

/-- The matches of the items, in the order of the items, and the mode that they share. -/
def foundItems (mode : Option UpdateMode) :
    List (ItemKey × List (ResolvedPromptUpdate α)) → List MatchToApply × Option UpdateMode
  | [] => ([], mode)
  | (key, updates) :: rest =>
    if currentResult.contains key then foundItems mode rest
    else
      match firstMatch tokenizer prompt prevEndIdx mode 0 (updates.map wanted) with
      | none => foundItems mode rest
      | some (updateMode, found) =>
        let more := foundItems (some updateMode) rest
        ((key, found) :: more.1, more.2)

end Found

variable {currentResult : AppliedUpdates} {mode : Option UpdateMode}

/-- The loops of `_find_matches` find these matches. -/
theorem foldl_eq_foundItems {items : List (ItemKey × List (ResolvedPromptUpdate α))}
    (hnodup : (items.map Prod.fst).Nodup) {s : FindState}
    (hnew : ∀ item ∈ items, s.mmMatches.contains item.1 = false) :
    let s' := items.foldl (fun s (key, updates) =>
      if currentResult.contains key then s
      else tryUpdates tokenizer prompt prevEndIdx key updates.zipIdx s) s
    let found := foundItems tokenizer prompt prevEndIdx currentResult s.mode items
    s'.mmMatches.entries = s.mmMatches.entries ++ found.1 ∧ s'.mode = found.2 := by
  induction items generalizing s with
  | nil => simp [foundItems]
  | cons item items ih =>
    obtain ⟨key, updates⟩ := item
    rw [map_cons, nodup_cons] at hnodup
    have hrest : ∀ item ∈ items, s.mmMatches.contains item.1 = false :=
      fun item hitem => hnew item (mem_cons_of_mem _ hitem)
    have hkey : s.mmMatches.contains key = false := hnew _ mem_cons_self
    dsimp only
    rw [foldl_cons, foundItems]
    dsimp only
    by_cases happlied : currentResult.contains key = true
    · rw [if_pos happlied, if_pos happlied]
      exact ih hnodup.2 hrest
    · rw [if_neg happlied, if_neg happlied, tryUpdates_eq hkey]
      cases hfirst : firstMatch tokenizer prompt prevEndIdx s.mode 0 (updates.map wanted) with
      | none => exact ih hnodup.2 hrest
      | some found =>
        obtain ⟨updateMode, found⟩ := found
        dsimp only
        have hadded : ∀ item ∈ items,
            (FindState.add s key (updateMode, found)).mmMatches.contains item.1 = false := by
          intro item hitem
          have hne : item.1 ≠ key := by
            intro heq
            have hmem : item.1 ∈ items.map Prod.fst := mem_map_of_mem hitem
            rw [heq] at hmem
            exact hnodup.1 hmem
          show (s.mmMatches.insert key found).contains item.1 = false
          rw [PyDict.contains_insert, hrest item hitem, decide_eq_false hne]
          rfl
        obtain ⟨hentries, hmode⟩ := ih hnodup.2 hadded
        refine ⟨?_, hmode⟩
        have hnotmem : key ∉ s.mmMatches.keys := by
          rw [← PyDict.contains_eq_true_iff, hkey]
          simp
        rw [hentries]
        show (s.mmMatches.insert key found).entries ++ _ = _
        rw [PyDict.entries_insert_of_not_mem _ hnotmem, append_assoc]
        rfl

section FirstMatchFacts
variable {n : Nat} {us : List (UpdateMode × UpdateTarget α)}
  {found : UpdateMode × PromptTargetMatch × Nat}

/-- What is found is a match of the target that the index stands for. -/
theorem firstMatch_eq_some (h : firstMatch tokenizer prompt prevEndIdx mode n us = some found) :
    (mode = none ∨ mode = some found.1) ∧ ∃ target, n ≤ found.2.2 ∧
      us[found.2.2 - n]? = some (found.1, target) ∧
      found.2.1 ∈ target.iterMatches tokenizer prompt prevEndIdx := by
  induction us generalizing n with
  | nil => cases h
  | cons u us ih =>
    obtain ⟨updateMode, target⟩ := u
    have hlater : firstMatch tokenizer prompt prevEndIdx mode (n + 1) us = some found →
        (mode = none ∨ mode = some found.1) ∧ ∃ target', n ≤ found.2.2 ∧
          ((updateMode, target) :: us)[found.2.2 - n]? = some (found.1, target') ∧
          found.2.1 ∈ target'.iterMatches tokenizer prompt prevEndIdx := by
      intro hfound
      obtain ⟨hmode, target', hn, hget, hmem⟩ := ih hfound
      refine ⟨hmode, target', by omega, ?_, hmem⟩
      rw [show found.2.2 - n = (found.2.2 - (n + 1)) + 1 by omega, List.getElem?_cons_succ]
      exact hget
    rw [firstMatch] at h
    split at h
    · exact hlater h
    · rename_i m hhead
      split at h
      · rename_i hmode
        cases h
        exact ⟨hmode, target, le_rfl, by simp, mem_of_mem_head? hhead⟩
      · exact hlater h

/-- With the mode of its first match, an item finds that match. -/
theorem firstMatch_mode (h : firstMatch tokenizer prompt prevEndIdx none n us = some found) :
    firstMatch tokenizer prompt prevEndIdx (some found.1) n us = some found := by
  induction us generalizing n with
  | nil => cases h
  | cons u us ih =>
    obtain ⟨updateMode, target⟩ := u
    rw [firstMatch] at h ⊢
    cases hhead : (target.iterMatches tokenizer prompt prevEndIdx).head? with
    | none =>
      rw [hhead] at h
      exact ih h
    | some m =>
      rw [hhead] at h
      dsimp only at h ⊢
      rw [if_pos (.inl rfl)] at h
      cases h
      exact if_pos (.inr rfl)

/-- An item that has no match has none with a mode. -/
theorem firstMatch_none (h : firstMatch tokenizer prompt prevEndIdx none n us = none) :
    firstMatch tokenizer prompt prevEndIdx mode n us = none := by
  induction us generalizing n with
  | nil => rfl
  | cons u us ih =>
    obtain ⟨updateMode, target⟩ := u
    rw [firstMatch] at h ⊢
    cases hhead : (target.iterMatches tokenizer prompt prevEndIdx).head? with
    | none =>
      rw [hhead] at h
      exact ih h
    | some m =>
      rw [hhead] at h
      dsimp only at h
      rw [if_pos (.inl rfl)] at h
      cases h

end FirstMatchFacts

section FoundItems
variable {items : List (ItemKey × List (ResolvedPromptUpdate α))} {item : MatchToApply}

/-- Once there is a mode it stays. -/
theorem foundItems_mode {m : UpdateMode} :
    (foundItems tokenizer prompt prevEndIdx currentResult (some m) items).2 = some m := by
  induction items with
  | nil => rfl
  | cons i items ih =>
    obtain ⟨key, updates⟩ := i
    rw [foundItems]
    split
    · exact ih
    · split
      · exact ih
      · rename_i updateMode found hfirst
        have hmode := (firstMatch_eq_some hfirst).1
        rw [Option.some.injEq, or_iff_right (by simp)] at hmode
        subst hmode
        exact ih

/-- The items come in their order. -/
theorem foundItems_sublist :
    ((foundItems tokenizer prompt prevEndIdx currentResult mode items).1.map Prod.fst).Sublist
      (items.map Prod.fst) := by
  induction items generalizing mode with
  | nil => exact .slnil
  | cons i items ih =>
    obtain ⟨key, updates⟩ := i
    rw [foundItems]
    split
    · exact ih.cons _
    · split
      · exact ih.cons _
      · exact ih.cons_cons _

/-- Without a match there is no mode. -/
theorem foundItems_ne_nil (h : (foundItems tokenizer prompt prevEndIdx currentResult none items).2
    ≠ none) : (foundItems tokenizer prompt prevEndIdx currentResult none items).1 ≠ [] := by
  induction items with
  | nil => exact absurd rfl h
  | cons i items ih =>
    obtain ⟨key, updates⟩ := i
    rw [foundItems] at h ⊢
    split
    · rename_i happlied
      rw [if_pos happlied] at h
      exact ih h
    · rename_i happlied
      rw [if_neg happlied] at h
      split
      · rename_i hfirst
        rw [hfirst] at h
        exact ih h
      · exact cons_ne_nil _ _

/-- A match that is found belongs to an item without a result. The item finds it with the mode at
its turn, which is the first mode or, when that is none, may be the one the matches share. -/
theorem mem_foundItems
    (h : item ∈ (foundItems tokenizer prompt prevEndIdx currentResult mode items).1) :
    currentResult.contains item.1 = false ∧ ∃ updates updateMode mode',
      (item.1, updates) ∈ items ∧ (mode = none ∨ mode' = mode) ∧
      firstMatch tokenizer prompt prevEndIdx mode' 0 (updates.map wanted) =
        some (updateMode, item.2) ∧
      (foundItems tokenizer prompt prevEndIdx currentResult mode items).2 = some updateMode := by
  induction items generalizing mode with
  | nil => cases h
  | cons i items ih =>
    obtain ⟨key, updates⟩ := i
    rw [foundItems] at h ⊢
    split at h
    · rename_i happlied
      obtain ⟨hnew, updates', updateMode, mode', hmem, hmode, hfirst, hshared⟩ := ih h
      rw [if_pos happlied]
      exact ⟨hnew, updates', updateMode, mode', mem_cons_of_mem _ hmem, hmode, hfirst, hshared⟩
    · rename_i happlied
      rw [if_neg happlied]
      split at h
      · obtain ⟨hnew, updates', updateMode, mode', hmem, hmode, hfirst, hshared⟩ := ih h
        exact ⟨hnew, updates', updateMode, mode', mem_cons_of_mem _ hmem, hmode, hfirst,
          hshared⟩
      · rename_i m found hfirst'
        dsimp only at h ⊢
        have hm := (firstMatch_eq_some hfirst').1
        rcases mem_cons.mp h with rfl | h
        · exact ⟨by simpa using happlied, updates, m, mode, mem_cons_self, .inr rfl, hfirst',
            foundItems_mode⟩
        · obtain ⟨hnew, updates', updateMode, mode', hmem, hmode, hfirst, hshared⟩ := ih h
          refine ⟨hnew, updates', updateMode, mode', mem_cons_of_mem _ hmem, ?_, hfirst,
            hshared⟩
          rcases hm with hnone | hsome
          · exact .inl hnone
          · rw [or_iff_right (by simp)] at hmode
            exact .inr (hmode.trans hsome.symm)

omit [DecidableEq α] in
theorem eq_of_mem_items (hnodup : (items.map Prod.fst).Nodup)
    {us vs : List (ResolvedPromptUpdate α)} (hus : (key, us) ∈ items) (hvs : (key, vs) ∈ items) :
    us = vs :=
  congrArg Prod.snd (inj_on_of_nodup_map hnodup hus hvs rfl)

/-- Of two items without a result that look for the same, the first one finds what the second one
finds, and comes first. -/
theorem foundItems_order {key1 key2 : ItemKey} {us1 us2 : List (ResolvedPromptUpdate α)}
    {found : PromptTargetMatch × Nat} (hnodup : (items.map Prod.fst).Nodup)
    (hpair : [(key1, us1), (key2, us2)].Sublist items) (hwanted : us1.map wanted = us2.map wanted)
    (hnew : currentResult.contains key1 = false)
    (h : (key2, found) ∈ (foundItems tokenizer prompt prevEndIdx currentResult mode items).1) :
    [(key1, found), (key2, found)].Sublist
      (foundItems tokenizer prompt prevEndIdx currentResult mode items).1 := by
  induction items generalizing mode with
  | nil => cases hpair
  | cons i items ih =>
    rw [map_cons, nodup_cons] at hnodup
    cases hpair with
    | cons _ hrest =>
      obtain ⟨key, updates⟩ := i
      have hkey2 : key2 ≠ key := by
        intro heq
        have hmem : (key2, us2) ∈ items := hrest.subset (by simp)
        have hkeys : key2 ∈ items.map Prod.fst := mem_map_of_mem hmem
        exact hnodup.1 (heq ▸ hkeys)
      rw [foundItems] at h ⊢
      split at h
      · rename_i happlied
        rw [if_pos happlied]
        exact ih hnodup.2 hrest h
      · rename_i happlied
        rw [if_neg happlied]
        split at h
        · exact ih hnodup.2 hrest h
        · rename_i m found' hfirst
          dsimp only at h ⊢
          rcases mem_cons.mp h with heq | h
          · exact absurd (congrArg Prod.fst heq) hkey2
          · exact (ih hnodup.2 hrest h).cons _
    | cons_cons _ hrest =>
      have hmem2 : (key2, us2) ∈ items := hrest.subset mem_cons_self
      have hkey : key2 ≠ key1 := by
        intro heq
        have hkeys : key2 ∈ items.map Prod.fst := mem_map_of_mem hmem2
        exact hnodup.1 (heq ▸ hkeys)
      rw [foundItems, if_neg (by simp [hnew])] at h ⊢
      -- What the second item finds in its turn.
      have hsecond : ∀ mode', (key2, found) ∈
          (foundItems tokenizer prompt prevEndIdx currentResult mode' items).1 →
          ∃ m mode'', (mode' = none ∨ mode'' = mode') ∧
            firstMatch tokenizer prompt prevEndIdx mode'' 0 (us1.map wanted) = some (m, found) := by
        intro mode' hmem
        obtain ⟨-, updates, m, mode'', hupdates, hmode, hfirst, -⟩ := mem_foundItems hmem
        obtain rfl := eq_of_mem_items hnodup.2 hupdates hmem2
        exact ⟨m, mode'', hmode, hwanted ▸ hfirst⟩
      split at h
      · rename_i hnone
        obtain ⟨m, mode'', hmode, hfirst⟩ := hsecond mode h
        rcases hmode with rfl | rfl
        · rw [firstMatch_none hnone] at hfirst
          cases hfirst
        · rw [hnone] at hfirst
          cases hfirst
      · rename_i m1 found₁ hfirst1
        dsimp only at h ⊢
        rcases mem_cons.mp h with heq | h
        · exact absurd (congrArg Prod.fst heq) hkey
        · obtain ⟨m, mode'', hmode, hfirst⟩ := hsecond (some m1) h
          rw [or_iff_right (by simp)] at hmode
          have hsame : firstMatch tokenizer prompt prevEndIdx (some m1) 0 (us1.map wanted) =
              some (m1, found₁) := by
            rcases (firstMatch_eq_some hfirst1).1 with rfl | rfl
            · exact firstMatch_mode hfirst1
            · exact hfirst1
          rw [hmode, hsame] at hfirst
          obtain rfl : found₁ = found := congrArg Prod.snd (Option.some.inj hfirst)
          exact (singleton_sublist.mpr h).cons_cons _

end FoundItems

/-! ### A round -/

section OneNonEmpty
variable {l : List MatchToApply} {b : Bool} {x y : MatchToApply}

theorem oneNonEmpty_sublist : (oneNonEmpty b l).Sublist l := by
  induction l generalizing b with
  | nil => exact .slnil
  | cons item l ih =>
    rw [oneNonEmpty]
    split
    · exact ih.cons_cons _
    · split
      · exact ih.cons_cons _
      · exact ih.cons _

theorem oneNonEmpty_ne_nil (h : l ≠ []) : oneNonEmpty false l ≠ [] := by
  cases l with
  | nil => exact absurd rfl h
  | cons item l =>
    rw [oneNonEmpty]
    split
    · exact cons_ne_nil _ _
    · rw [if_pos rfl]
      exact cons_ne_nil _ _

/-- After a match that is not empty only empty ones are kept. -/
theorem empty_of_mem_oneNonEmpty (h : x ∈ oneNonEmpty true l) : x.2.1.startIdx = x.2.1.endIdx := by
  induction l with
  | nil => cases h
  | cons item l ih =>
    rw [oneNonEmpty] at h
    split at h
    · rename_i hempty
      rcases mem_cons.mp h with rfl | h
      · exact hempty
      · exact ih h
    · rw [if_neg (by simp)] at h
      exact ih h

/-- A match is kept only with the ones before it at the same place. -/
theorem oneNonEmpty_order (hnodup : l.Nodup) (hpair : [x, y].Sublist l) (hsame : x.2.1 = y.2.1)
    (h : y ∈ oneNonEmpty b l) : [x, y].Sublist (oneNonEmpty b l) := by
  induction l generalizing b with
  | nil => cases hpair
  | cons item l ih =>
    rw [nodup_cons] at hnodup
    cases hpair with
    | cons _ hrest =>
      have hy : y ≠ item := by
        rintro rfl
        exact hnodup.1 (hrest.subset (by simp))
      rw [oneNonEmpty] at h ⊢
      split at h
      · rename_i hempty
        rw [if_pos hempty]
        exact (ih hnodup.2 hrest ((mem_cons.mp h).resolve_left hy)).cons _
      · rename_i hempty
        rw [if_neg hempty]
        by_cases hb : b = false
        · rw [if_pos hb] at h ⊢
          exact (ih hnodup.2 hrest ((mem_cons.mp h).resolve_left hy)).cons _
        · rw [if_neg hb] at h ⊢
          exact ih hnodup.2 hrest h
    | cons_cons _ hrest =>
      have hy : y ≠ x := by
        rintro rfl
        exact hnodup.1 (hrest.subset mem_cons_self)
      rw [oneNonEmpty] at h ⊢
      split at h
      · rename_i hempty
        rw [if_pos hempty]
        exact (singleton_sublist.mpr ((mem_cons.mp h).resolve_left hy)).cons_cons _
      · rename_i hempty
        rw [hsame] at hempty
        split at h
        · exact absurd (empty_of_mem_oneNonEmpty ((mem_cons.mp h).resolve_left hy)) hempty
        · rename_i hb
          rw [Bool.not_eq_false] at hb
          rw [hb] at h
          exact absurd (empty_of_mem_oneNonEmpty h) hempty

end OneNonEmpty

omit [DecidableEq α] in
theorem itemsOf_nodup (mmPromptUpdates : MultiModalPromptUpdates α) :
    ((itemsOf mmPromptUpdates).map Prod.fst).Nodup := by
  have hkeys : ∀ e : String × List (List (ResolvedPromptUpdate α)),
      (e.2.zipIdx.map fun p => ((e.1, p.2), p.1)).map Prod.fst =
        (List.range e.2.length).map fun i => (e.1, i) := by
    intro e
    rw [map_map, range_eq_range', ← zipIdx_map_snd 0 e.2, map_map]
    rfl
  unfold itemsOf
  rw [map_flatMap, nodup_flatMap]
  refine ⟨fun e _ => ?_, ?_⟩
  · rw [hkeys]
    exact nodup_range.map fun i j h => congrArg Prod.snd h
  · have hnodup := mmPromptUpdates.nodup
    rw [List.Nodup, pairwise_map] at hnodup
    refine hnodup.imp fun {e e'} hne => ?_
    show List.Disjoint ((e.2.zipIdx.map fun p => ((e.1, p.2), p.1)).map Prod.fst)
      ((e'.2.zipIdx.map fun p => ((e'.1, p.2), p.1)).map Prod.fst)
    rw [hkeys, hkeys]
    intro k hk hk'
    obtain ⟨i, -, rfl⟩ := mem_map.mp hk
    obtain ⟨j, -, hj⟩ := mem_map.mp hk'
    exact hne (congrArg Prod.fst hj).symm

/-- The matches of a round are those that are found, in the order of their places, and only one of
them is not empty when they are replaced. -/
theorem findMatches_eq : findMatches tokenizer prompt mmPromptUpdates prevEndIdx currentResult =
      let found := foundItems tokenizer prompt prevEndIdx currentResult none
        (itemsOf mmPromptUpdates)
      (found.2, if found.2 = some .replace then
          oneNonEmpty false (found.1.insertionSort (earlier · ·))
        else found.1.insertionSort (earlier · ·)) := by
  obtain ⟨hentries, hmode⟩ := @foldl_eq_foundItems _ _ tokenizer prompt prevEndIdx currentResult _
    (itemsOf_nodup mmPromptUpdates) {} (fun _ _ => rfl)
  unfold findMatches
  dsimp only at hentries hmode ⊢
  rw [hentries, hmode]
  rfl

section Round
variable {roundMode : UpdateMode} {ms : List MatchToApply}

/-- The matches of a round are for different items without a result, and each is a match of the
target of one of the updates of its item. -/
theorem findMatches_spec (h : findMatches tokenizer prompt mmPromptUpdates prevEndIdx currentResult =
    (some roundMode, ms)) :
    ms ≠ [] ∧ (ms.map Prod.fst).Nodup ∧ ∀ item ∈ ms, currentResult.contains item.1 = false ∧
      ∃ updates update, (item.1, updates) ∈ itemsOf mmPromptUpdates ∧
        updates[item.2.2]? = some update ∧ update.mode = roundMode ∧
        item.2.1 ∈ update.target.iterMatches tokenizer prompt prevEndIdx := by
  rw [findMatches_eq] at h
  obtain ⟨hmode, hms⟩ := Prod.mk.inj h
  have hsub : ∀ item ∈ ms, item ∈ (foundItems tokenizer prompt prevEndIdx currentResult none
      (itemsOf mmPromptUpdates)).1 := by
    intro item hitem
    rw [← hms] at hitem
    split at hitem
    · exact (mem_insertionSort _).mp (oneNonEmpty_sublist.subset hitem)
    · exact (mem_insertionSort _).mp hitem
  have hsome : (foundItems tokenizer prompt prevEndIdx currentResult none
      (itemsOf mmPromptUpdates)).1.insertionSort (earlier · ·) ≠ [] := by
    intro hnil
    refine foundItems_ne_nil (by rw [hmode]; simp) ?_
    have hperm := perm_insertionSort (earlier · ·) (foundItems tokenizer prompt prevEndIdx
      currentResult none (itemsOf mmPromptUpdates)).1
    rw [hnil] at hperm
    exact hperm.nil_eq.symm
  have hnodup : (((foundItems tokenizer prompt prevEndIdx currentResult none
      (itemsOf mmPromptUpdates)).1.insertionSort (earlier · ·)).map Prod.fst).Nodup := by
    have hperm := (perm_insertionSort (earlier · ·) (foundItems tokenizer prompt prevEndIdx
      currentResult none (itemsOf mmPromptUpdates)).1).map Prod.fst
    exact hperm.nodup_iff.mpr (foundItems_sublist.nodup (itemsOf_nodup mmPromptUpdates))
  refine ⟨?_, ?_, fun item hitem => ?_⟩
  · rw [← hms]
    split
    · exact oneNonEmpty_ne_nil hsome
    · exact hsome
  · rw [← hms]
    split
    · exact (oneNonEmpty_sublist.map Prod.fst).nodup hnodup
    · exact hnodup
  · obtain ⟨hnew, updates, updateMode, mode', hmem, -, hfirst, hshared⟩ :=
      mem_foundItems (hsub item hitem)
    obtain ⟨-, target, -, hget, hmatch⟩ := firstMatch_eq_some hfirst
    rw [Nat.sub_zero, List.getElem?_map] at hget
    obtain ⟨update, hupdate, hwanted⟩ := Option.map_eq_some_iff.mp hget
    cases hwanted
    rw [hmode] at hshared
    exact ⟨hnew, updates, update, hmem, hupdate, (Option.some.inj hshared).symm, hmatch⟩

/-- Of two items without a result that look for the same, the first one is in the round and comes
first when the second one is in it. -/
theorem findMatches_order (h : findMatches tokenizer prompt mmPromptUpdates prevEndIdx currentResult =
    (some roundMode, ms)) {key1 key2 : ItemKey} {us1 us2 : List (ResolvedPromptUpdate α)}
    {found : PromptTargetMatch × Nat}
    (hpair : [(key1, us1), (key2, us2)].Sublist (itemsOf mmPromptUpdates))
    (hwanted : us1.map wanted = us2.map wanted) (hnew : currentResult.contains key1 = false)
    (hmem : (key2, found) ∈ ms) : [(key1, found), (key2, found)].Sublist ms := by
  rw [findMatches_eq] at h
  obtain ⟨-, hms⟩ := Prod.mk.inj h
  have hnodup : ((foundItems tokenizer prompt prevEndIdx currentResult none
      (itemsOf mmPromptUpdates)).1.insertionSort (earlier · ·)).Nodup := by
    refine (perm_insertionSort _ _).nodup_iff.mpr (List.Nodup.of_map Prod.fst ?_)
    exact foundItems_sublist.nodup (itemsOf_nodup mmPromptUpdates)
  have hsorted : (key2, found) ∈ (foundItems tokenizer prompt prevEndIdx currentResult none
      (itemsOf mmPromptUpdates)).1 → [(key1, found), (key2, found)].Sublist
      ((foundItems tokenizer prompt prevEndIdx currentResult none
        (itemsOf mmPromptUpdates)).1.insertionSort (earlier · ·)) := by
    intro hfound
    refine pair_sublist_insertionSort ?_ (foundItems_order (itemsOf_nodup _) hpair hwanted hnew
      hfound)
    simp [earlier]
  rw [← hms] at hmem ⊢
  split at hmem
  · rename_i hreplace
    rw [if_pos hreplace]
    have hfound := (mem_insertionSort _).mp (oneNonEmpty_sublist.subset hmem)
    exact oneNonEmpty_order hnodup (hsorted hfound) rfl hmem
  · rename_i hinsert
    rw [if_neg hinsert]
    exact hsorted ((mem_insertionSort _).mp hmem)

end Round

/-! ### All rounds -/

section Rounds
variable (tokenizer prompt mmPromptUpdates)

/-- A match to apply as an edit of the prompt. -/
def editOf (x : UpdateMode × MatchToApply) : Edit α where
  start := match x.1 with
    | .insert => x.2.2.1.endIdx
    | .replace => x.2.2.1.startIdx
  stop := x.2.2.1.endIdx
  content := match updateAt mmPromptUpdates x.2.1 x.2.2.2 with
    | .ok update => seq2tokens tokenizer update.content.full
    | .error _ => []

/-- The state after a match is applied. -/
def push (s : ApplyState α) (x : UpdateMode × MatchToApply) : ApplyState α where
  outSeqs := s.outSeqs ++ [slice prompt s.prevEndIdx (editOf tokenizer mmPromptUpdates x).start,
    (editOf tokenizer mmPromptUpdates x).content]
  outResult := s.outResult.insert x.2.1 x.2.2.2
  prevEndIdx := x.2.2.1.endIdx

/-- The matches of all rounds, in the order they are applied. -/
def selectedMatches : Nat → ApplyState α → List (UpdateMode × MatchToApply)
  | 0, _ => []
  | fuel + 1, s =>
    match findMatches tokenizer prompt mmPromptUpdates s.prevEndIdx s.outResult with
    | (none, _) => []
    | (some mode, matchesToApply) =>
      let chosen := matchesToApply.map fun item => (mode, item)
      let s := chosen.foldl (push tokenizer prompt mmPromptUpdates) s
      chosen ++ if allItemsFound mmPromptUpdates (foundCount s.outResult) then []
        else selectedMatches fuel s

end Rounds

variable {update : ResolvedPromptUpdate α}

omit [DecidableEq α] in
theorem updateAt_of_mem {updateIdx : Nat} (hmem : (key, updates) ∈ itemsOf mmPromptUpdates)
    (hget : updates[updateIdx]? = some update) :
    updateAt mmPromptUpdates key updateIdx = .ok update := by
  unfold itemsOf at hmem
  obtain ⟨⟨modality, items⟩, hentry, hitem⟩ := mem_flatMap.mp hmem
  obtain ⟨⟨updates', itemIdx⟩, hzip, heq⟩ := mem_map.mp hitem
  cases heq
  have hitems := (mmPromptUpdates.mem_entries_iff modality items).mp hentry
  have hidx := mem_zipIdx_iff_getElem?.mp hzip
  unfold updateAt
  rw [hitems]
  dsimp only at hidx ⊢
  rw [hidx, Option.bind_some, hget]

omit [DecidableEq α] in
theorem applyMatch_eq {roundMode : UpdateMode} {s : ApplyState α} {item : MatchToApply}
    (h : updateAt mmPromptUpdates item.1 item.2.2 = .ok update) :
    applyMatch tokenizer prompt mmPromptUpdates roundMode s item =
      .ok (push tokenizer prompt mmPromptUpdates s (roundMode, item)) := by
  obtain ⟨key, m, updateIdx⟩ := item
  unfold applyMatch push editOf
  dsimp only at h ⊢
  rw [h]
  cases roundMode <;> rfl

omit [DecidableEq α] in
/-- The matches of a round are applied one after the other. -/
theorem foldlM_applyMatch {roundMode : UpdateMode} {ms : List MatchToApply} {s : ApplyState α}
    (h : ∀ item ∈ ms, ∃ update, updateAt mmPromptUpdates item.1 item.2.2 = .ok update) :
    ms.foldlM (applyMatch tokenizer prompt mmPromptUpdates roundMode) s =
      .ok ((ms.map fun item => (roundMode, item)).foldl
        (push tokenizer prompt mmPromptUpdates) s) := by
  induction ms generalizing s with
  | nil => rfl
  | cons item ms ih =>
    obtain ⟨update, hupdate⟩ := h item mem_cons_self
    rw [foldlM_cons, applyMatch_eq hupdate, except_ok_bind,
      ih fun item hitem => h item (mem_cons_of_mem _ hitem)]
    rfl

section Push
omit [DecidableEq α]
variable {s : ApplyState α} {sel : List (UpdateMode × MatchToApply)}

/-- The result after matches for different items. -/
theorem foldl_push_contains (k : ItemKey) :
    (sel.foldl (push tokenizer prompt mmPromptUpdates) s).outResult.contains k =
      (decide (k ∈ sel.map fun x => x.2.1) || s.outResult.contains k) := by
  induction sel generalizing s with
  | nil => simp
  | cons x sel ih =>
    rw [foldl_cons, ih]
    show (_ || (s.outResult.insert x.2.1 x.2.2.2).contains k) = _
    rw [PyDict.contains_insert, map_cons, Bool.eq_iff_iff]
    simp only [Bool.or_eq_true, decide_eq_true_eq, mem_cons]
    rw [or_left_comm, or_assoc]

/-- Each of them adds a result. -/
theorem foldl_push_size (hnodup : (sel.map fun x => x.2.1).Nodup)
    (hnew : ∀ x ∈ sel, s.outResult.contains x.2.1 = false) :
    (sel.foldl (push tokenizer prompt mmPromptUpdates) s).outResult.size =
      s.outResult.size + sel.length := by
  induction sel generalizing s with
  | nil => rfl
  | cons x sel ih =>
    rw [map_cons, nodup_cons] at hnodup
    rw [foldl_cons, ih hnodup.2 fun y hy => ?_]
    · show (s.outResult.insert x.2.1 x.2.2.2).size + _ = _
      rw [PyDict.size_insert, hnew x mem_cons_self, if_neg (by simp), length_cons]
      omega
    · show (s.outResult.insert x.2.1 x.2.2.2).contains y.2.1 = false
      have hne : y.2.1 ≠ x.2.1 := by
        intro heq
        have hmem : y.2.1 ∈ sel.map fun x => x.2.1 := mem_map_of_mem hy
        exact hnodup.1 (heq ▸ hmem)
      rw [PyDict.contains_insert, hnew y (mem_cons_of_mem _ hy), decide_eq_false hne]
      rfl

/-- The pieces that are put out are the edited prompt. -/
theorem foldl_push_out : ((sel.foldl (push tokenizer prompt mmPromptUpdates) s).outSeqs ++
      [slice prompt (sel.foldl (push tokenizer prompt mmPromptUpdates) s).prevEndIdx
        prompt.length]).flatten =
      s.outSeqs.flatten ++
        write prompt s.prevEndIdx (sel.map (editOf tokenizer mmPromptUpdates)) := by
  induction sel generalizing s with
  | nil =>
    rw [foldl_nil, flatten_append, map_nil, write]
    unfold slice
    rw [take_length]
    simp
  | cons x sel ih =>
    rw [foldl_cons, ih, map_cons, write]
    show (s.outSeqs ++ [_, _]).flatten ++ write prompt x.2.2.1.endIdx _ = _
    unfold slice
    simp [editOf]

end Push

section Selected
variable {fuel : Nat} {s : ApplyState α}

/-- The loop ends, after it has applied the selected matches. -/
theorem applyLoop_spec
    (hkeys : ∀ k, s.outResult.contains k = true → k ∈ (itemsOf mmPromptUpdates).map Prod.fst)
    (hfuel : (itemsOf mmPromptUpdates).length - s.outResult.size < fuel) :
    applyLoop tokenizer prompt mmPromptUpdates fuel s =
      some (.ok ((selectedMatches tokenizer prompt mmPromptUpdates fuel s).foldl
        (push tokenizer prompt mmPromptUpdates) s)) := by
  induction fuel generalizing s with
  | zero => exact absurd hfuel (Nat.not_lt_zero _)
  | succ fuel ih =>
    rw [applyLoop, selectedMatches]
    cases hfind : findMatches tokenizer prompt mmPromptUpdates s.prevEndIdx s.outResult with
    | mk found ms =>
    cases found with
    | none => rfl
    | some roundMode =>
      obtain ⟨hsome, hnodup, hms⟩ := findMatches_spec hfind
      dsimp only
      rw [foldlM_applyMatch fun item hitem => by
        obtain ⟨-, updates, update, hmem, hget, -⟩ := hms item hitem
        exact ⟨update, updateAt_of_mem hmem hget⟩]
      dsimp only
      rw [foldl_append]
      split
      · rfl
      · -- The round has added results, and there is at most one for each item.
        set chosen := ms.map fun item => (roundMode, item) with hchosen
        have hchosenKeys : chosen.map (fun x => x.2.1) = ms.map Prod.fst := by
          rw [hchosen, map_map]
          rfl
        have hkeys' : ∀ k, (chosen.foldl (push tokenizer prompt mmPromptUpdates)
            s).outResult.contains k = true → k ∈ (itemsOf mmPromptUpdates).map Prod.fst := by
          intro k hk
          rw [foldl_push_contains, hchosenKeys, Bool.or_eq_true, decide_eq_true_eq] at hk
          rcases hk with hk | hk
          · obtain ⟨item, hitem, rfl⟩ := mem_map.mp hk
            obtain ⟨-, updates, -, hmem, -⟩ := hms item hitem
            exact mem_map_of_mem hmem
          · exact hkeys k hk
        have hnew : ∀ x ∈ chosen, s.outResult.contains x.2.1 = false := by
          intro x hx
          obtain ⟨item, hitem, rfl⟩ := mem_map.mp hx
          exact (hms item hitem).1
        have hsize := @foldl_push_size _ tokenizer prompt mmPromptUpdates s chosen
          (hchosenKeys ▸ hnodup) hnew
        have hle : (chosen.foldl (push tokenizer prompt mmPromptUpdates) s).outResult.size ≤
            (itemsOf mmPromptUpdates).length := by
          rw [PyDict.size_eq_length_keys,
            show (itemsOf mmPromptUpdates).length = ((itemsOf mmPromptUpdates).map Prod.fst).length
              from (length_map _).symm]
          refine (subperm_of_subset (PyDict.nodup _) fun k hk => ?_).length_le
          exact hkeys' k ((PyDict.contains_eq_true_iff _ k).mpr hk)
        have hpos : 0 < chosen.length := by
          rw [hchosen, length_map]
          exact length_pos_iff.mpr hsome
        exact ih hkeys' (by omega)

/-- Each selected match is for another item, one without a result. -/
theorem selectedMatches_keys :
    ((selectedMatches tokenizer prompt mmPromptUpdates fuel s).map fun x => x.2.1).Nodup ∧
      ∀ x ∈ selectedMatches tokenizer prompt mmPromptUpdates fuel s,
        s.outResult.contains x.2.1 = false := by
  induction fuel generalizing s with
  | zero => exact ⟨nodup_nil, fun x hx => absurd hx not_mem_nil⟩
  | succ fuel ih =>
    rw [selectedMatches]
    cases hfind : findMatches tokenizer prompt mmPromptUpdates s.prevEndIdx s.outResult with
    | mk found ms =>
    cases found with
    | none => exact ⟨nodup_nil, fun x hx => absurd hx not_mem_nil⟩
    | some roundMode =>
      obtain ⟨-, hnodup, hms⟩ := findMatches_spec hfind
      dsimp only
      set chosen := ms.map fun item => (roundMode, item) with hchosen
      have hchosenKeys : chosen.map (fun x => x.2.1) = ms.map Prod.fst := by
        rw [hchosen, map_map]
        rfl
      have hnew : ∀ x ∈ chosen, s.outResult.contains x.2.1 = false := by
        intro x hx
        obtain ⟨item, hitem, rfl⟩ := mem_map.mp hx
        exact (hms item hitem).1
      split
      · rw [append_nil, hchosenKeys]
        exact ⟨hnodup, hnew⟩
      · obtain ⟨hnodup', hnew'⟩ := @ih (chosen.foldl (push tokenizer prompt mmPromptUpdates) s)
        -- A later match is for an item without a result, so none of this round.
        have hlater : ∀ x ∈ selectedMatches tokenizer prompt mmPromptUpdates fuel
            (chosen.foldl (push tokenizer prompt mmPromptUpdates) s),
            x.2.1 ∉ chosen.map (fun x => x.2.1) ∧ s.outResult.contains x.2.1 = false := by
          intro x hx
          have hx' := hnew' x hx
          rw [foldl_push_contains, Bool.or_eq_false_iff, decide_eq_false_iff_not] at hx'
          exact hx'
        constructor
        · rw [map_append, nodup_append]
          refine ⟨hchosenKeys ▸ hnodup, hnodup', ?_⟩
          rintro k hk k' hk' rfl
          obtain ⟨x, hx, rfl⟩ := mem_map.mp hk'
          exact (hlater x hx).1 hk
        · intro x hx
          rcases mem_append.mp hx with hx | hx
          · exact hnew x hx
          · exact (hlater x hx).2

/-- Each selected match is a match of the target of an update of its item, with the mode of that
update. -/
theorem mem_selectedMatches {x : UpdateMode × MatchToApply}
    (hx : x ∈ selectedMatches tokenizer prompt mmPromptUpdates fuel s) :
    ∃ updates update startIdx, (x.2.1, updates) ∈ itemsOf mmPromptUpdates ∧
      updates[x.2.2.2]? = some update ∧ update.mode = x.1 ∧
      x.2.2.1 ∈ update.target.iterMatches tokenizer prompt startIdx := by
  induction fuel generalizing s with
  | zero => exact absurd hx not_mem_nil
  | succ fuel ih =>
    rw [selectedMatches] at hx
    cases hfind : findMatches tokenizer prompt mmPromptUpdates s.prevEndIdx s.outResult with
    | mk found ms =>
    rw [hfind] at hx
    cases found with
    | none => exact absurd hx not_mem_nil
    | some roundMode =>
      rcases mem_append.mp hx with hx | hx
      · obtain ⟨item, hitem, rfl⟩ := mem_map.mp hx
        obtain ⟨-, -, hms⟩ := findMatches_spec hfind
        obtain ⟨-, updates, update, hmem, hget, hmode, hmatch⟩ := hms item hitem
        exact ⟨updates, update, s.prevEndIdx, hmem, hget, hmode, hmatch⟩
      · split at hx
        · exact absurd hx not_mem_nil
        · exact ih hx

/-- Of two items that look for the same, the first one is selected first. -/
theorem selectedMatches_order {key1 key2 : ItemKey} {us1 us2 : List (ResolvedPromptUpdate α)}
    (hpair : [(key1, us1), (key2, us2)].Sublist (itemsOf mmPromptUpdates))
    (hwanted : us1.map wanted = us2.map wanted) (hnew : s.outResult.contains key1 = false)
    (hmem : key2 ∈ (selectedMatches tokenizer prompt mmPromptUpdates fuel s).map fun x => x.2.1) :
    [key1, key2].Sublist
      ((selectedMatches tokenizer prompt mmPromptUpdates fuel s).map fun x => x.2.1) := by
  induction fuel generalizing s with
  | zero => exact absurd hmem not_mem_nil
  | succ fuel ih =>
    rw [selectedMatches] at hmem ⊢
    cases hfind : findMatches tokenizer prompt mmPromptUpdates s.prevEndIdx s.outResult with
    | mk found ms =>
    rw [hfind] at hmem
    cases found with
    | none => exact absurd hmem not_mem_nil
    | some roundMode =>
      dsimp only at hmem ⊢
      set chosen := ms.map fun item => (roundMode, item) with hchosen
      have hchosenKeys : chosen.map (fun x => x.2.1) = ms.map Prod.fst := by
        rw [hchosen, map_map]
        rfl
      rw [map_append, hchosenKeys] at hmem ⊢
      rcases mem_append.mp hmem with hmem | hmem
      · obtain ⟨⟨key, found⟩, hitem, rfl⟩ := mem_map.mp hmem
        have hround := (findMatches_order hfind hpair hwanted hnew hitem).map Prod.fst
        exact hround.trans (sublist_append_left _ _)
      · split at hmem
        · exact absurd hmem not_mem_nil
        · rename_i hgo
          rw [if_neg hgo]
          by_cases hfirst : key1 ∈ ms.map Prod.fst
          · exact (singleton_sublist.mpr hfirst).append (singleton_sublist.mpr hmem)
          · refine (ih ?_ hmem).trans (sublist_append_right _ _)
            rw [foldl_push_contains, hchosenKeys, hnew, decide_eq_false hfirst]
            rfl

end Selected

/-! ### The result of `apply_token_matches` -/

/-- The part of the prompt is what the target stands for. -/
def IsMatch (tokenizer : String → List α) (prompt : List α) (target : UpdateTarget α)
    (m : PromptTargetMatch) : Prop :=
  m.startIdx ≤ m.endIdx ∧ m.endIdx ≤ prompt.length ∧
    match target with
    | .seq promptSeq => seq2tokens tokenizer promptSeq ≠ [] ∧
        slice prompt m.startIdx m.endIdx = seq2tokens tokenizer promptSeq
    | .index .start => m = ⟨0, 0⟩
    | .index (.afterPrefix promptSeq) => m.startIdx = m.endIdx ∧
        slice prompt 0 m.endIdx = seq2tokens tokenizer promptSeq
    | .index .atEnd => m = ⟨prompt.length, prompt.length⟩

variable {m : PromptTargetMatch}

theorem iterTokenMatchesFrom_spec {matchIds : List α} {fuel startIdx : Nat}
    (h : m ∈ iterTokenMatchesFrom prompt matchIds fuel startIdx) :
    m.startIdx ≤ m.endIdx ∧ m.endIdx ≤ prompt.length ∧
      slice prompt m.startIdx m.endIdx = matchIds := by
  induction fuel generalizing startIdx with
  | zero => cases h
  | succ fuel ih =>
    rw [iterTokenMatchesFrom] at h
    split at h
    · rename_i hinside
      dsimp only at h
      split at h
      · rename_i heq
        rcases mem_cons.mp h with rfl | h
        · exact ⟨Nat.le_add_right _ _, Nat.lt_succ_iff.mp hinside, heq⟩
        · exact ih h
      · exact ih h
    · cases h

theorem isMatch_of_mem {target : UpdateTarget α} {startIdx : Nat}
    (h : m ∈ target.iterMatches tokenizer prompt startIdx) : IsMatch tokenizer prompt target m := by
  cases target with
  | seq promptSeq =>
    unfold UpdateTarget.iterMatches iterTokenMatches at h
    dsimp only at h
    split at h
    · cases h
    · rename_i hsome
      obtain ⟨hle, hlen, heq⟩ := iterTokenMatchesFrom_spec h
      exact ⟨hle, hlen, length_pos_iff.mp (by omega), heq⟩
  | index promptIndex =>
    unfold UpdateTarget.iterMatches at h
    dsimp only at h
    cases promptIndex with
    | start =>
      obtain rfl := mem_singleton.mp h
      exact ⟨le_rfl, Nat.zero_le _, rfl⟩
    | atEnd =>
      obtain rfl := mem_singleton.mp h
      exact ⟨le_rfl, le_rfl, rfl⟩
    | afterPrefix promptSeq =>
      unfold PromptIndex.getMatchIndex at h
      dsimp only at h
      split at h
      · rename_i matchIdx hindex
        obtain rfl := mem_singleton.mp h
        split at hindex
        · cases hindex
        · split at hindex
          · rename_i heq
            cases hindex
            refine ⟨le_rfl, ?_, rfl, heq⟩
            dsimp only
            rw [← heq]
            unfold slice
            rw [drop_zero, length_take]
            exact Nat.min_le_right _ _
          · cases hindex
      · cases h

/-! ### The result of `find_mm_placeholders` -/

/-- The tokens of the prompt at the placeholder are the content of an update of its item. -/
structure IsPlaceholder (tokenizer : String → List α) (prompt : List α)
    (mmPromptUpdates : MultiModalPromptUpdates α) (p : PlaceholderFeaturesInfo α) : Prop where
  pos : 0 < p.length
  inside : p.startIdx + p.length ≤ prompt.length
  tokens : slice prompt p.startIdx (p.startIdx + p.length) = p.tokens
  content : ∃ items updates update, mmPromptUpdates.get? p.modality = some items ∧
    items[p.itemIdx]? = some updates ∧ update ∈ updates ∧
    p.tokens = seq2tokens tokenizer update.content.full

section Placeholders
variable {startIdx : Nat} {p : PlaceholderFeaturesInfo α}

theorem placeholderOfItem_spec {modality : String} {itemIdx : Nat}
    {updates : List (ResolvedPromptUpdate α)}
    (h : placeholderOfItem tokenizer prompt startIdx modality itemIdx updates = some p) :
    (p.modality = modality ∧ p.itemIdx = itemIdx ∧ p.startIdx = startIdx) ∧ 0 < p.length ∧
      p.startIdx + p.length ≤ prompt.length ∧
      slice prompt p.startIdx (p.startIdx + p.length) = p.tokens ∧
      ∃ update ∈ updates, p.tokens = seq2tokens tokenizer update.content.full := by
  induction updates with
  | nil => cases h
  | cons update updates ih =>
    have hlater : placeholderOfItem tokenizer prompt startIdx modality itemIdx updates = some p →
        (p.modality = modality ∧ p.itemIdx = itemIdx ∧ p.startIdx = startIdx) ∧ 0 < p.length ∧
        p.startIdx + p.length ≤ prompt.length ∧
        slice prompt p.startIdx (p.startIdx + p.length) = p.tokens ∧
        ∃ update' ∈ update :: updates,
          p.tokens = seq2tokens tokenizer update'.content.full := by
      intro hp
      obtain ⟨hkey, hpos, hinside, htokens, update', hmem, hcontent⟩ := ih hp
      exact ⟨hkey, hpos, hinside, htokens, update', mem_cons_of_mem _ hmem, hcontent⟩
    rw [placeholderOfItem] at h
    split at h
    · exact hlater h
    · rename_i hfits
      split at h
      · rename_i heq
        rw [not_or, not_lt] at hfits
        cases h
        exact ⟨⟨rfl, rfl, rfl⟩, Nat.pos_of_ne_zero hfits.1, hfits.2, heq, update,
          mem_cons_self, rfl⟩
      · exact hlater h

theorem placeholderAt_spec {itemIdxByModality : PyDict String Nat}
    (h : placeholderAt tokenizer prompt startIdx itemIdxByModality mmPromptUpdates.entries =
      some p) : IsPlaceholder tokenizer prompt mmPromptUpdates p ∧ p.startIdx = startIdx := by
  have hentries : ∀ entries, (∀ e ∈ entries, e ∈ mmPromptUpdates.entries) →
      placeholderAt tokenizer prompt startIdx itemIdxByModality entries = some p →
      IsPlaceholder tokenizer prompt mmPromptUpdates p ∧ p.startIdx = startIdx := by
    intro entries
    induction entries with
    | nil => exact nofun
    | cons e entries ih =>
      intro hsub h
      obtain ⟨modality, modalityUpdates⟩ := e
      have hrest := fun e he => hsub e (mem_cons_of_mem _ he)
      rw [placeholderAt] at h
      split at h
      · exact ih hrest h
      · rename_i updates hupdates
        split at h
        · rename_i placeholder hplaceholder
          cases h
          obtain ⟨⟨rfl, hidx, hstart⟩, hpos, hinside, htokens, update, hmem, hcontent⟩ :=
            placeholderOfItem_spec hplaceholder
          have hget := (mmPromptUpdates.mem_entries_iff _ _).mp (hsub _ mem_cons_self)
          exact ⟨⟨hpos, hinside, htokens, modalityUpdates, updates, update, hget, hidx ▸ hupdates,
            hmem, hcontent⟩, hstart⟩
        · exact ih hrest h
  exact hentries _ (fun _ he => he) h

theorem iterPlaceholdersFrom_spec {fuel : Nat} {itemIdxByModality : PyDict String Nat} :
    (∀ p ∈ iterPlaceholdersFrom tokenizer prompt mmPromptUpdates fuel startIdx itemIdxByModality,
      IsPlaceholder tokenizer prompt mmPromptUpdates p ∧ startIdx ≤ p.startIdx) ∧
    (iterPlaceholdersFrom tokenizer prompt mmPromptUpdates fuel startIdx
      itemIdxByModality).Pairwise fun p q => p.startIdx + p.length ≤ q.startIdx := by
  induction fuel generalizing startIdx itemIdxByModality with
  | zero => exact ⟨fun p hp => absurd hp not_mem_nil, .nil⟩
  | succ fuel ih =>
    rw [iterPlaceholdersFrom]
    split
    swap
    · exact ⟨fun p hp => absurd hp not_mem_nil, .nil⟩
    split
    · obtain ⟨hall, hpairwise⟩ := @ih (startIdx + 1) itemIdxByModality
      refine ⟨fun p hp => ⟨(hall p hp).1, ?_⟩, hpairwise⟩
      have := (hall p hp).2
      omega
    · rename_i placeholder hplaceholder
      obtain ⟨hp, hstart⟩ := placeholderAt_spec hplaceholder
      dsimp only
      split
      · refine ⟨fun q hq => ?_, pairwise_singleton _ _⟩
        obtain rfl := mem_singleton.mp hq
        exact ⟨hp, hstart.ge⟩
      · -- The search goes on after the placeholder.
        obtain ⟨hall, hpairwise⟩ := @ih (startIdx + placeholder.length)
          (itemIdxByModality.insert placeholder.modality (placeholder.itemIdx + 1))
        refine ⟨fun q hq => ?_, pairwise_cons.mpr ⟨fun q hq => ?_, hpairwise⟩⟩
        · rcases mem_cons.mp hq with rfl | hq
          · exact ⟨hp, hstart.ge⟩
          · have := (hall q hq).2
            exact ⟨(hall q hq).1, by omega⟩
        · rw [hstart]
          exact (hall q hq).2

omit [DecidableEq α] in
/-- A group has the placeholders of its modality, in their order. -/
theorem groupByModality_get? (placeholders : List (PlaceholderFeaturesInfo α)) (modality : String) :
    (groupByModality placeholders).get? modality =
      if placeholders.filter (fun p => p.modality = modality) = [] then none
      else some (placeholders.filter fun p => p.modality = modality) := by
  have hfold : ∀ groups : PyDict String (List (PlaceholderFeaturesInfo α)),
      (placeholders.foldl (fun groups p =>
        groups.insert p.modality ((groups.get? p.modality).getD [] ++ [p])) groups).get? modality =
      if placeholders.filter (fun p => p.modality = modality) = [] then groups.get? modality
      else some ((groups.get? modality).getD [] ++
        placeholders.filter fun p => p.modality = modality) := by
    induction placeholders with
    | nil => exact fun groups => rfl
    | cons p placeholders ih =>
      intro groups
      rw [foldl_cons, ih, PyDict.get?_insert]
      by_cases hp : p.modality = modality
      · rw [if_pos hp.symm, filter_cons_of_pos (by simpa using hp),
          if_neg (cons_ne_nil _ _), hp]
        by_cases hnil : placeholders.filter (fun p => p.modality = modality) = []
        · rw [if_pos hnil, hnil]
        · rw [if_neg hnil, Option.getD_some, append_assoc]
          rfl
      · rw [if_neg (Ne.symm hp), filter_cons_of_neg (by simpa using hp)]
  have hempty := hfold .empty
  rw [PyDict.get?_empty, Option.getD_none, nil_append] at hempty
  exact hempty

/-- The modalities have their parts of one list of placeholders. Their ranges are one after the
other, and the tokens there are the content of the reported item. -/
def PlaceholdersOk (tokenizer : String → List α) (prompt : List α)
    (mmPromptUpdates : MultiModalPromptUpdates α)
    (groups : PyDict String (List (PlaceholderFeaturesInfo α))) : Prop :=
  ∃ placeholders : List (PlaceholderFeaturesInfo α),
    (∀ modality, groups.get? modality =
      if placeholders.filter (fun p => p.modality = modality) = [] then none
      else some (placeholders.filter fun p => p.modality = modality)) ∧
    placeholders.Pairwise (fun p q => p.startIdx + p.length ≤ q.startIdx) ∧
    ∀ p ∈ placeholders, IsPlaceholder tokenizer prompt mmPromptUpdates p

theorem placeholdersOk_find (tokenizer : String → List α) (prompt : List α)
    (mmPromptUpdates : MultiModalPromptUpdates α) :
    PlaceholdersOk tokenizer prompt mmPromptUpdates
      (findMmPlaceholders tokenizer prompt mmPromptUpdates) := by
  refine ⟨iterPlaceholders tokenizer prompt mmPromptUpdates,
    fun modality => groupByModality_get? _ modality, ?_⟩
  unfold iterPlaceholders
  split
  · exact ⟨.nil, fun p hp => absurd hp not_mem_nil⟩
  · obtain ⟨hall, hpairwise⟩ := @iterPlaceholdersFrom_spec _ _ tokenizer prompt mmPromptUpdates 0
      prompt.length .empty
    exact ⟨hpairwise, fun p hp => (hall p hp).1⟩

end Placeholders

/-! ### The laws -/

section Laws
variable (tokenizer prompt mmPromptUpdates)

/-- The matches that `apply_token_matches` applies, in the order in which it does. -/
def selected : List (UpdateMode × MatchToApply) :=
  if allItemsFound mmPromptUpdates (foundCount .empty) then []
  else selectedMatches tokenizer prompt mmPromptUpdates ((itemsOf mmPromptUpdates).length + 1) {}

/-- The edits that they make. -/
def selectedEdits : List (Edit α) :=
  (selected tokenizer prompt mmPromptUpdates).map (editOf tokenizer mmPromptUpdates)

/-- `apply_token_matches` ends and raises nothing. Each match that it applies is a match in the
prompt of the target of an update of its item, no item has two of them, and of two items that look
for the same the first one comes first. When none of them begins before the end of the one before
it, the output is the prompt with the content of each of them once at its place, and every token
outside the replaced parts kept once and in order. On the output `find_mm_placeholders` finds
placeholders one after the other. -/
theorem apply_token_matches_laws :
    ∃ fuel out, applyTokenMatches tokenizer prompt mmPromptUpdates fuel =
      some (.ok (out, resultLists mmPromptUpdates ((selected tokenizer prompt mmPromptUpdates).foldl
        (fun result x => result.insert x.2.1 x.2.2.2) .empty))) ∧
    ((selected tokenizer prompt mmPromptUpdates).map fun x => x.2.1).Nodup ∧
    (∀ x ∈ selected tokenizer prompt mmPromptUpdates, ∃ updates update,
      (x.2.1, updates) ∈ itemsOf mmPromptUpdates ∧ updates[x.2.2.2]? = some update ∧
      update.mode = x.1 ∧ IsMatch tokenizer prompt update.target x.2.2.1) ∧
    (∀ key₁ key₂ us₁ us₂, [(key₁, us₁), (key₂, us₂)].Sublist (itemsOf mmPromptUpdates) →
      us₁.map wanted = us₂.map wanted →
      key₂ ∈ (selected tokenizer prompt mmPromptUpdates).map (fun x => x.2.1) →
      [key₁, key₂].Sublist ((selected tokenizer prompt mmPromptUpdates).map fun x => x.2.1)) ∧
    (InOrder prompt.length 0 (selectedEdits tokenizer prompt mmPromptUpdates) →
      out = splice prompt (selectedEdits tokenizer prompt mmPromptUpdates)) ∧
    PlaceholdersOk tokenizer out mmPromptUpdates
      (findMmPlaceholders tokenizer out mmPromptUpdates) := by
  unfold selectedEdits selected
  by_cases hfound : allItemsFound mmPromptUpdates (foundCount .empty) = true
  · -- There is no item to find.
    rw [if_pos hfound]
    refine ⟨0, prompt, ?_, nodup_nil, fun x hx => absurd hx not_mem_nil,
      fun _ _ _ _ _ _ hmem => absurd hmem not_mem_nil, fun horder => ?_,
      placeholdersOk_find _ _ _⟩
    · unfold applyTokenMatches
      rw [if_pos hfound]
      rfl
    · exact write_eq_splice horder
  rw [if_neg hfound]
  have hloop := @applyLoop_spec _ _ tokenizer prompt mmPromptUpdates
    ((itemsOf mmPromptUpdates).length + 1) {} (fun k hk => nomatch hk) (by omega)
  refine ⟨(itemsOf mmPromptUpdates).length + 1,
    write prompt 0 ((selectedMatches tokenizer prompt mmPromptUpdates
      ((itemsOf mmPromptUpdates).length + 1) {}).map (editOf tokenizer mmPromptUpdates)),
    ?_, selectedMatches_keys.1, fun x hx => ?_, fun key₁ key₂ us₁ us₂ hpair hwanted hmem =>
      selectedMatches_order hpair hwanted rfl hmem, fun horder => ?_, placeholdersOk_find _ _ _⟩
  · unfold applyTokenMatches
    rw [if_neg hfound, hloop]
    dsimp only
    rw [foldl_push_out]
    -- The results of the loop are those of the matches.
    have hresult : ∀ (sel : List (UpdateMode × MatchToApply)) (s : ApplyState α),
        (sel.foldl (push tokenizer prompt mmPromptUpdates) s).outResult =
          sel.foldl (fun result x => result.insert x.2.1 x.2.2.2) s.outResult := by
      intro sel
      induction sel with
      | nil => exact fun s => rfl
      | cons x sel ih => exact fun s => ih _
    rw [hresult]
    rfl
  · obtain ⟨updates, update, startIdx, hmem, hget, hmode, hmatch⟩ := mem_selectedMatches hx
    exact ⟨updates, update, hmem, hget, hmode, isMatch_of_mem hmatch⟩
  · exact write_eq_splice horder

end Laws

/-- An update of the examples. -/
private def updateOf (mode : UpdateMode) (target content : List Nat) :
    List (ResolvedPromptUpdate Nat) :=
  [{ mode
     target := .seq (.tokens target)
     content := { full := .tokens content } }]

/-- Two images take the places of the first two placeholder tokens. -/
theorem apply_token_matches_images :
    let updates : MultiModalPromptUpdates Nat :=
      PyDict.empty.insert "image" [updateOf .replace [9] [100, 100], updateOf .replace [9] [200]]
    InOrder 4 0 (selectedEdits (fun _ => []) [1, 9, 2, 9] updates) ∧
      ∃ fuel out results, applyTokenMatches (fun _ => []) [1, 9, 2, 9] updates fuel =
        some (.ok (out, results)) ∧ out = [1, 100, 100, 2, 200] := by
  intro updates
  obtain ⟨fuel, out, hrun, -, -, -, hout, -⟩ :=
    apply_token_matches_laws (fun _ => []) [1, 9, 2, 9] updates
  have horder : InOrder 4 0 (selectedEdits (fun _ => []) [1, 9, 2, 9] updates) := by decide +kernel
  refine ⟨horder, fuel, out, _, hrun, (hout horder).trans ?_⟩
  decide +kernel

/-- A match inside another one is applied after it. An insertion then repeats a token of the prompt.
And of two items that look for different targets, the one whose match is first comes first. -/
theorem nested_insertion_repeats : (applyTokenMatches (fun _ => []) [1, 2, 3]
        ((PyDict.empty.insert "image" [updateOf .insert [1, 2, 3] [100]]).insert "audio"
          [updateOf .insert [2] [200]]) 3).map (fun r => r.map Prod.fst) =
      some (.ok [1, 2, 3, 100, 200, 3]) ∧
    (applyTokenMatches (fun _ => []) [1, 2]
        (PyDict.empty.insert "image" [updateOf .replace [2] [100], updateOf .replace [1] [200]])
        3).map (fun r => r.map Prod.fst) = some (.ok [200, 100]) := by
  decide +kernel

end Vllm.Proofs.Multimodal
