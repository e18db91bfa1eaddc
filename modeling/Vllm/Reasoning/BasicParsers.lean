import Vllm.V1.Engine.Detokenizer

/-!
# `Vllm.Reasoning.BasicParsers`: reasoning and content (`vllm/reasoning/basic_parsers.py`)

`BaseThinkingReasoningParser` splits the output of a model at the tokens that start and end its
thinking, and `DeepSeekR1ReasoningParser` overrides how a delta is split where there is no start
token. The arguments of the streaming method that it does not read are left out.
-/

set_option autoImplicit false

namespace Vllm.Reasoning

open Vllm.V1.Engine

/-- `DeltaMessage`, with the fields that a reasoning parser sets. -/
structure DeltaMessage where
  reasoning : Option Text := none
  content : Option Text := none
deriving DecidableEq, Repr

/-- `text.find(sub)`. -/
def find (text sub : Text) : Int :=
  match pyFind text sub 0 with
  | some i => i
  | none => -1

/-- `text[:stop]`. -/
def sliceTo (text : Text) (stop : Int) : Text :=
  if stop < 0 then text.take (text.length - (-stop).toNat) else text.take stop.toNat

/-- `text.partition(sep)`. -/
def partition (text sep : Text) : Text × Text × Text :=
  match pyFind text sep 0 with
  | some i => (text.take i, sep, text.drop (i + sep.length))
  | none => (text, [], [])

/-- `content if content else None`. -/
def orNone (content : Text) : Option Text := if content = [] then none else some content

/-- `BaseThinkingReasoningParser`. -/
structure BaseThinkingReasoningParser where
  startToken : Text
  endToken : Text
  startTokenId : Nat
  endTokenId : Nat

namespace BaseThinkingReasoningParser

variable (p : BaseThinkingReasoningParser) (deltaText : Text)
  (previousTokenIds deltaTokenIds : List Nat)

/-- `extract_reasoning_streaming`. -/
def extractReasoningStreaming : Option DeltaMessage :=
  if deltaTokenIds = [p.startTokenId] ∨ deltaTokenIds = [p.endTokenId] then none
  else if p.startTokenId ∈ previousTokenIds then
    if p.endTokenId ∈ deltaTokenIds then
      let endIndex := find deltaText p.endToken
      some {
        reasoning := some (sliceTo deltaText endIndex)
        content := orNone (deltaText.drop (endIndex + p.endToken.length).toNat) }
    else if p.endTokenId ∈ previousTokenIds then some { content := some deltaText }
    else some { reasoning := some deltaText }
  else if p.startTokenId ∈ deltaTokenIds then
    if p.endTokenId ∈ deltaTokenIds then
      let startIndex := find deltaText p.startToken
      let endIndex := find deltaText p.endToken
      some {
        reasoning := some ((sliceTo deltaText endIndex).drop
          (startIndex + p.startToken.length).toNat)
        content := orNone (deltaText.drop (endIndex + p.endToken.length).toNat) }
    -- The start token stays in the text here.
    else some { reasoning := some deltaText }
  else some { content := some deltaText }

/-- `extract_reasoning`. -/
def extractReasoning (modelOutput : Text) : Option Text × Option Text :=
  let parts := partition modelOutput p.startToken
  let modelOutput := if parts.2.1 ≠ [] then parts.2.2 else parts.1
  match pyFind modelOutput p.endToken 0 with
  | none => (some modelOutput, none)
  | some _ =>
    let parts := partition modelOutput p.endToken
    (some parts.1, orNone parts.2.2)

end BaseThinkingReasoningParser

/-- `DeepSeekR1ReasoningParser`, with the ids of its tokens in the vocabulary. -/
def deepSeekR1ReasoningParser (startTokenId endTokenId : Nat) : BaseThinkingReasoningParser where
  startToken := "<think>".toList
  endToken := "</think>".toList
  startTokenId := startTokenId
  endTokenId := endTokenId

/-- `DeepSeekR1ReasoningParser.extract_reasoning_streaming`. -/
def deepSeekR1Streaming (p : BaseThinkingReasoningParser) (deltaText : Text)
    (previousTokenIds deltaTokenIds : List Nat) : Option DeltaMessage :=
  match p.extractReasoningStreaming deltaText previousTokenIds deltaTokenIds with
  | none => none
  | some ret =>
    if p.startTokenId ∉ previousTokenIds ∧ p.startTokenId ∉ deltaTokenIds then
      if p.endTokenId ∈ deltaTokenIds then
        let endIndex := find deltaText p.endToken
        some {
          reasoning := some (sliceTo deltaText endIndex)
          content := orNone (deltaText.drop (endIndex + p.endToken.length).toNat) }
      else if p.endTokenId ∈ previousTokenIds then some { content := some deltaText }
      else some { reasoning := some deltaText }
    else some ret

/-- The messages of the successive chunks of an output, from the ids before them on. -/
def streamFrom (p : BaseThinkingReasoningParser) (decode : Nat → Text) :
    List Nat → List (List Nat) → List (Option DeltaMessage)
  | _, [] => []
  | previousTokenIds, deltaTokenIds :: chunks =>
    deepSeekR1Streaming p (deltaTokenIds.flatMap decode) previousTokenIds deltaTokenIds ::
      streamFrom p decode (previousTokenIds ++ deltaTokenIds) chunks

end Vllm.Reasoning
