import Vllm.Lib.PyError
import Vllm.Lib.While

/-!
# `Vllm.V1.SpecDecode.NgramProposer`: drafts from an earlier n-gram
(`vllm/v1/spec_decode/ngram_proposer.py`)

`_find_longest_matched_ngram_and_propose_tokens` looks for the longest end of the tokens that
occurs before, and drafts the tokens after that occurrence. The compiled function does not
check an index: here an index out of range is an `indexError`, so that it can be shown not to
happen. The entries of the table stay below its size, so its `int32` are natural numbers.
-/

set_option autoImplicit false

namespace Vllm.V1.SpecDecode

open Vllm.Lib

variable {α : Type} [DecidableEq α]

/-- `a[i]`. -/
def arrayGet {β : Type} (a : List β) (i : Nat) : Except PyError β :=
  match a[i]? with
  | some x => .ok x
  | none => .error (.indexError "index is out of bounds")

/-- `a[i] = x`. -/
def arraySet {β : Type} (a : List β) (i : Nat) (x : β) : Except PyError (List β) :=
  if i < a.length then .ok (a.set i x) else .error (.indexError "index is out of bounds")

/-- The local variables of the search. -/
structure NgramSearch where
  lps : List Nat
  longestNgram : Nat := 0
  position : Nat := 0
  prevLps : Nat := 0
  i : Nat := 1

namespace NgramSearch

/-- A round of the search. -/
def next (tokens : List α) (maxNgram : Nat) (s : NgramSearch) : Except PyError NgramSearch := do
  if (← arrayGet tokens s.prevLps) = (← arrayGet tokens s.i) then
    let prevLps := s.prevLps + 1
    -- An equal length is found further back in the reversed tokens, so earlier in the tokens.
    let longer := s.longestNgram ≤ prevLps
    let lps ← (if s.i < maxNgram then arraySet s.lps s.i prevLps else pure s.lps)
    let nextLps ← (if prevLps = maxNgram then arrayGet lps (maxNgram - 1) else pure prevLps)
    return {
      lps
      longestNgram := if longer then prevLps else s.longestNgram
      position := if longer then s.i else s.position
      prevLps := nextLps
      i := s.i + 1 }
  else if s.prevLps ≠ 0 then
    return { s with prevLps := ← arrayGet s.lps (s.prevLps - 1) }
  else
    return { s with i := s.i + 1 }

/-- The round as the body of the loop. -/
def body (tokens : List α) (maxNgram : Nat) (s : NgramSearch) : Except PyError Unit × NgramSearch :=
  match s.next tokens maxNgram with
  | .ok s' => (.ok (), s')
  | .error e => (.error e, s)

/-- The search, in the reversed tokens. -/
def run (tokens : List α) (maxNgram fuel : Nat) : Option (Except PyError Unit × NgramSearch) :=
  whileLoop (fun s => decide (s.i < tokens.length)) (body tokens maxNgram) fuel
    { lps := List.replicate maxNgram 0 }

end NgramSearch

/-- `_find_longest_matched_ngram_and_propose_tokens`. It is `none` when the fuel is not enough
for the loop. -/
def findLongestMatchedNgramAndProposeTokens (originTokens : List α) (minNgram maxNgram : Nat)
    (maxModelLen k : Int) (fuel : Nat) : Option (Except PyError (List α)) :=
  let totalToken := originTokens.length
  if totalToken < minNgram then some (.ok [])
  else
    let k := min k (maxModelLen - totalToken)
    if k ≤ 0 then some (.ok [])
    else
      match NgramSearch.run originTokens.reverse maxNgram fuel with
      | none => none
      | some (.error e, _) => some (.error e)
      | some (.ok (), s) =>
        if s.longestNgram < minNgram then some (.ok [])
        else
          let startPosition : Int := (totalToken : Int) - 1 - s.position + s.longestNgram
          let k := min k (totalToken - startPosition)
          some (.ok ((originTokens.drop startPosition.toNat).take k.toNat))

end Vllm.V1.SpecDecode
