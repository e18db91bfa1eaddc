import Mathlib.Data.List.Sort
import Vllm.Lib.PyDict
import Vllm.Lib.PyError

/-!
# `Vllm.Multimodal.Processing`: updates of a prompt (`vllm/multimodal/processing.py`)

Where a processor finds the target of an update in the prompt, it inserts the placeholder tokens of
a multi-modal item after it or puts them in its place. The prompt is a list of tokens here. The
tokenizer encodes the targets and contents that are texts.

A loop over the prompt has as much fuel as the prompt has tokens. The loop of `_apply_matches` has
an argument for it, and is `none` when that was not enough.
-/

set_option autoImplicit false

namespace Vllm.Multimodal

open Vllm.Lib

/-- `UpdateMode`. -/
inductive UpdateMode where
  | insert
  | replace
deriving DecidableEq

/-- `PromptSeq`. -/
inductive PromptSeq (α : Type) where
  | text (s : String)
  | tokens (ids : List α)

/-- `PromptIndexTargets`. -/
inductive PromptIndex (α : Type) where
  | start
  | afterPrefix (seq : PromptSeq α)
  | atEnd

/-- `UpdateTarget`. -/
inductive UpdateTarget (α : Type) where
  | seq (promptSeq : PromptSeq α)
  | index (promptIndex : PromptIndex α)

/-- `PromptUpdateDetails`. -/
structure PromptUpdateDetails (α : Type) where
  full : PromptSeq α
  isEmbed : Option (PromptSeq α → List Bool) := none

/-- `ResolvedPromptUpdate`. -/
structure ResolvedPromptUpdate (α : Type) where
  mode : UpdateMode
  target : UpdateTarget α
  content : PromptUpdateDetails α

/-- `MultiModalPromptUpdates`: for each modality and each of its items, the updates of which one is
to be applied. -/
abbrev MultiModalPromptUpdates (α : Type) := PyDict String (List (List (ResolvedPromptUpdate α)))

/-- `PromptTargetMatch`. -/
structure PromptTargetMatch where
  startIdx : Nat
  endIdx : Nat
deriving DecidableEq

/-- A modality and the index of an item. -/
abbrev ItemKey := String × Nat

/-- `_MatchToApply`. -/
abbrev MatchToApply := ItemKey × (PromptTargetMatch × Nat)

variable {α : Type} [DecidableEq α] (tokenizer : String → List α)

/-- `_seq2tokens`. -/
def seq2tokens : PromptSeq α → List α
  | .text s => tokenizer s
  | .tokens ids => ids

/-- `xs[start:stop]`. -/
def slice (xs : List α) (start stop : Nat) : List α := (xs.take stop).drop start

/-- The loop of `iter_token_matches`. -/
def iterTokenMatchesFrom (tokenIds matchIds : List α) : Nat → Nat → List PromptTargetMatch
  | 0, _ => []
  | fuel + 1, startIdx =>
    if startIdx + matchIds.length < tokenIds.length + 1 then
      let endIdx := startIdx + matchIds.length
      if slice tokenIds startIdx endIdx = matchIds then
        ⟨startIdx, endIdx⟩ :: iterTokenMatchesFrom tokenIds matchIds fuel endIdx
      else iterTokenMatchesFrom tokenIds matchIds fuel (startIdx + 1)
    else []

/-- `iter_token_matches`. -/
def iterTokenMatches (tokenIds matchIds : List α) (startIdx : Nat) : List PromptTargetMatch :=
  if matchIds.length = 0 then []
  else iterTokenMatchesFrom tokenIds matchIds (tokenIds.length + 1) startIdx

/-- `get_match_index`. The start is found wherever the search begins. -/
def PromptIndex.getMatchIndex (prompt : List α) (startIdx : Nat) : PromptIndex α → Option Nat
  | .start => some 0
  | .afterPrefix seq =>
    if startIdx ≠ 0 then none
    else
      let ids := seq2tokens tokenizer seq
      if slice prompt 0 ids.length = ids then some ids.length else none
  | .atEnd => some prompt.length

/-- `ResolvedPromptUpdate.iter_token_matches`. -/
def UpdateTarget.iterMatches (prompt : List α) (startIdx : Nat) :
    UpdateTarget α → List PromptTargetMatch
  | .index promptIndex =>
    match promptIndex.getMatchIndex tokenizer prompt startIdx with
    | some matchIdx => [⟨matchIdx, matchIdx⟩]
    | none => []
  | .seq promptSeq => iterTokenMatches prompt (seq2tokens tokenizer promptSeq) startIdx

/-! ### `_find_matches` -/

/-- The mode of the matches, and for each item its match and the index of the update. -/
structure FindState where
  mode : Option UpdateMode := none
  mmMatches : PyDict ItemKey (PromptTargetMatch × Nat) := .empty

/-- The loop over the matches of an update. -/
def tryMatches (key : ItemKey) (updateIdx : Nat) (update : ResolvedPromptUpdate α) :
    List PromptTargetMatch → FindState → FindState
  | [], s => s
  | m :: rest, s =>
    match s.mode with
    | none => { mode := some update.mode, mmMatches := s.mmMatches.insert key (m, updateIdx) }
    | some mode =>
      if mode ≠ update.mode then tryMatches key updateIdx update rest s
      else { s with mmMatches := s.mmMatches.insert key (m, updateIdx) }

/-- The loop over the updates of an item. -/
def tryUpdates (prompt : List α) (prevEndIdx : Nat) (key : ItemKey) :
    List (ResolvedPromptUpdate α × Nat) → FindState → FindState
  | [], s => s
  | (update, updateIdx) :: rest, s =>
    if s.mmMatches.contains key then s
    else tryUpdates prompt prevEndIdx key rest
      (tryMatches key updateIdx update (update.target.iterMatches tokenizer prompt prevEndIdx) s)

/-- The items of all modalities. -/
def itemsOf (mmPromptUpdates : MultiModalPromptUpdates α) :
    List (ItemKey × List (ResolvedPromptUpdate α)) :=
  mmPromptUpdates.entries.flatMap fun (modality, items) =>
    items.zipIdx.map fun (updates, itemIdx) => ((modality, itemIdx), updates)

/-- The order of the matches. -/
def earlier (a b : MatchToApply) : Bool :=
  a.2.1.startIdx < b.2.1.startIdx ||
    (a.2.1.startIdx = b.2.1.startIdx && a.2.1.endIdx ≤ b.2.1.endIdx)

/-- "only replace one non-empty item at a time". -/
def oneNonEmpty : Bool → List MatchToApply → List MatchToApply
  | _, [] => []
  | hasNonEmptyMatches, item :: rest =>
    if item.2.1.startIdx = item.2.1.endIdx then item :: oneNonEmpty hasNonEmptyMatches rest
    else if hasNonEmptyMatches = false then item :: oneNonEmpty true rest
    else oneNonEmpty hasNonEmptyMatches rest

/-- The result so far: the index of the update for each item that is not `None`. -/
abbrev AppliedUpdates := PyDict ItemKey Nat

/-- `_find_matches`. -/
def findMatches (prompt : List α) (mmPromptUpdates : MultiModalPromptUpdates α) (prevEndIdx : Nat)
    (currentResult : AppliedUpdates) : Option UpdateMode × List MatchToApply :=
  let s := (itemsOf mmPromptUpdates).foldl (fun s (key, updates) =>
    if currentResult.contains key then s
    else tryUpdates tokenizer prompt prevEndIdx key updates.zipIdx s) {}
  let matchesToApply := s.mmMatches.entries.insertionSort (earlier · ·)
  (s.mode, if s.mode = some .replace then oneNonEmpty false matchesToApply else matchesToApply)

/-! ### `_apply_matches` -/

/-- The local variables of the loop. -/
structure ApplyState (α : Type) where
  outSeqs : List (List α) := []
  outResult : AppliedUpdates := .empty
  prevEndIdx : Nat := 0

/-- `mm_prompt_updates[modality][item_idx][update_idx]`. -/
def updateAt (mmPromptUpdates : MultiModalPromptUpdates α) (key : ItemKey) (updateIdx : Nat) :
    Except PyError (ResolvedPromptUpdate α) :=
  match mmPromptUpdates.get? key.1 with
  | none => .error (.keyError "modality")
  | some items =>
    match items[key.2]?.bind (·[updateIdx]?) with
    | none => .error (.indexError "list index out of range")
    | some update => .ok update

/-- The body of the loop over the matches to apply. -/
def applyMatch (prompt : List α) (mmPromptUpdates : MultiModalPromptUpdates α) (mode : UpdateMode)
    (s : ApplyState α) (item : MatchToApply) : Except PyError (ApplyState α) := do
  let (key, m, updateIdx) := item
  let matchedUpdate ← updateAt mmPromptUpdates key updateIdx
  let endIdxToInsert := match mode with
    | .insert => m.endIdx
    | .replace => m.startIdx
  return {
    outSeqs := s.outSeqs ++ [slice prompt s.prevEndIdx endIdxToInsert,
      seq2tokens tokenizer matchedUpdate.content.full]
    outResult := s.outResult.insert key updateIdx
    prevEndIdx := m.endIdx }

/-- `_all_items_found`, with the number of items of each modality that are found. -/
def allItemsFound (mmPromptUpdates : MultiModalPromptUpdates α) (found : String → Nat) : Bool :=
  mmPromptUpdates.entries.all fun (modality, items) => items.length ≤ found modality

/-- The number of items that have a result. -/
def foundCount (outResult : AppliedUpdates) (modality : String) : Nat :=
  outResult.keys.countP fun key => key.1 = modality

/-- The loop of `_apply_matches`. -/
def applyLoop (prompt : List α) (mmPromptUpdates : MultiModalPromptUpdates α) :
    Nat → ApplyState α → Option (Except PyError (ApplyState α))
  | 0, _ => none
  | fuel + 1, s =>
    match findMatches tokenizer prompt mmPromptUpdates s.prevEndIdx s.outResult with
    | (none, _) => some (.ok s)
    | (some mode, matchesToApply) =>
      match matchesToApply.foldlM (applyMatch tokenizer prompt mmPromptUpdates mode) s with
      | .error e => some (.error e)
      | .ok s =>
        if allItemsFound mmPromptUpdates (foundCount s.outResult) then some (.ok s)
        else applyLoop prompt mmPromptUpdates fuel s

/-- The result as it is returned: for each modality the index of the update of each item. -/
def resultLists (mmPromptUpdates : MultiModalPromptUpdates α) (outResult : AppliedUpdates) :
    List (String × List (Option Nat)) :=
  mmPromptUpdates.entries.map fun (modality, items) =>
    (modality, (List.range items.length).map fun itemIdx => outResult.get? (modality, itemIdx))

/-- `apply_token_matches`. -/
def applyTokenMatches (prompt : List α) (mmPromptUpdates : MultiModalPromptUpdates α) (fuel : Nat) :
    Option (Except PyError (List α × List (String × List (Option Nat)))) :=
  if allItemsFound mmPromptUpdates (foundCount .empty) then
    some (.ok (prompt, resultLists mmPromptUpdates .empty))
  else
    match applyLoop tokenizer prompt mmPromptUpdates fuel {} with
    | none => none
    | some (.error e) => some (.error e)
    | some (.ok s) =>
      some (.ok ((s.outSeqs ++ [slice prompt s.prevEndIdx prompt.length]).flatten,
        resultLists mmPromptUpdates s.outResult))

/-! ### `find_mm_placeholders` -/

/-- `PlaceholderFeaturesInfo`. -/
structure PlaceholderFeaturesInfo (α : Type) where
  modality : String
  itemIdx : Nat
  startIdx : Nat
  tokens : List α
  isEmbed : Option (List Bool)

/-- `length`. -/
def PlaceholderFeaturesInfo.length (p : PlaceholderFeaturesInfo α) : Nat := p.tokens.length

/-- The loop over the updates of an item. -/
def placeholderOfItem (prompt : List α) (startIdx : Nat) (modality : String) (itemIdx : Nat) :
    List (ResolvedPromptUpdate α) → Option (PlaceholderFeaturesInfo α)
  | [] => none
  | update :: rest =>
    let contentTokensFull := seq2tokens tokenizer update.content.full
    let endIdxFull := startIdx + contentTokensFull.length
    if contentTokensFull.length = 0 ∨ prompt.length < endIdxFull then
      placeholderOfItem prompt startIdx modality itemIdx rest
    else if slice prompt startIdx endIdxFull = contentTokensFull then
      some {
        modality
        itemIdx
        startIdx
        tokens := contentTokensFull
        isEmbed := update.content.isEmbed.map fun isEmbed => isEmbed update.content.full }
    else placeholderOfItem prompt startIdx modality itemIdx rest

/-- The loop over the modalities. -/
def placeholderAt (prompt : List α) (startIdx : Nat) (itemIdxByModality : PyDict String Nat) :
    List (String × List (List (ResolvedPromptUpdate α))) → Option (PlaceholderFeaturesInfo α)
  | [] => none
  | (modality, modalityUpdates) :: rest =>
    let itemIdx := (itemIdxByModality.get? modality).getD 0
    match modalityUpdates[itemIdx]? with
    | none => placeholderAt prompt startIdx itemIdxByModality rest
    | some updates =>
      match placeholderOfItem tokenizer prompt startIdx modality itemIdx updates with
      | some placeholder => some placeholder
      | none => placeholderAt prompt startIdx itemIdxByModality rest

/-- The loop of `_iter_placeholders`. -/
def iterPlaceholdersFrom (prompt : List α) (mmPromptUpdates : MultiModalPromptUpdates α) :
    Nat → Nat → PyDict String Nat → List (PlaceholderFeaturesInfo α)
  | 0, _, _ => []
  | fuel + 1, startIdx, itemIdxByModality =>
    if startIdx < prompt.length then
      match placeholderAt tokenizer prompt startIdx itemIdxByModality mmPromptUpdates.entries with
      | none => iterPlaceholdersFrom prompt mmPromptUpdates fuel (startIdx + 1) itemIdxByModality
      | some placeholder =>
        let itemIdxByModality :=
          itemIdxByModality.insert placeholder.modality (placeholder.itemIdx + 1)
        if allItemsFound mmPromptUpdates fun m => (itemIdxByModality.get? m).getD 0 then
          [placeholder]
        else placeholder :: iterPlaceholdersFrom prompt mmPromptUpdates fuel
          (startIdx + placeholder.length) itemIdxByModality
    else []

/-- `_iter_placeholders`. -/
def iterPlaceholders (prompt : List α) (mmPromptUpdates : MultiModalPromptUpdates α) :
    List (PlaceholderFeaturesInfo α) :=
  if allItemsFound mmPromptUpdates fun _ => 0 then []
  else iterPlaceholdersFrom tokenizer prompt mmPromptUpdates prompt.length 0 .empty

/-- `full_groupby_modality`. -/
def groupByModality (placeholders : List (PlaceholderFeaturesInfo α)) :
    PyDict String (List (PlaceholderFeaturesInfo α)) :=
  placeholders.foldl (fun groups p =>
    groups.insert p.modality ((groups.get? p.modality).getD [] ++ [p])) .empty

/-- `find_mm_placeholders`. -/
def findMmPlaceholders (prompt : List α) (mmPromptUpdates : MultiModalPromptUpdates α) :
    PyDict String (List (PlaceholderFeaturesInfo α)) :=
  groupByModality (iterPlaceholders tokenizer prompt mmPromptUpdates)

end Vllm.Multimodal
