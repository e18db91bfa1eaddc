import Mathlib.Data.List.Infix

/-!
# `Vllm.V1.Engine.Detokenizer`: stop strings (`vllm/v1/engine/detokenizer.py`)

`BaseIncrementalDetokenizer` joins the text of the tokens of a request, looks for stop strings in
it, and gives it out with some characters held back. What `decode_next` makes of a token is its
piece of text: a call of `update` has the pieces of its tokens.

`serve` is what `OutputProcessor.process_outputs` does with it for one request: it updates it with
the tokens of each step, may ask it for the new text, and ends with the first stop string.
-/

set_option autoImplicit false

namespace Vllm.V1.Engine

/-- A `str`, as its characters. -/
abbrev Text := List Char

/-- `text.find(sub, start)`. The result `-1` is `none`. -/
def pyFind (text sub : Text) (start : Int) : Option Nat :=
  let start := if start < 0 then (start + text.length).toNat else start.toNat
  (List.range' start (text.length + 1 - start)).find? fun i => sub.isPrefixOf (text.drop i)

/-- `check_stop_strings`. An offset `-1` is `none`. -/
def checkStopStrings (outputText : Text) (newCharCount : Nat) (stop : List Text)
    (includeInOutput : Bool) : Option (Text × Option Nat) :=
  if newCharCount = 0 ∨ stop = [] then none
  else stop.findSome? fun stopStr =>
    match pyFind outputText stopStr (1 - newCharCount - stopStr.length) with
    | none => none
    | some stopIndex =>
      if includeInOutput then
        let stopIndex := stopIndex + stopStr.length
        if outputText.length ≤ stopIndex then some (stopStr, none)
        else some (stopStr, some stopIndex)
      else some (stopStr, some stopIndex)

/-- `BaseIncrementalDetokenizer`. -/
structure BaseIncrementalDetokenizer where
  stop : List Text
  minTokens : Nat
  includeStopStrInOutput : Bool
  stopBufferLength : Nat
  lastOutputTextOffset : Nat := 0
  outputText : Text := []
  /-- `len(self.output_token_ids)`. -/
  numOutputTokenIds : Nat := 0
deriving DecidableEq

namespace BaseIncrementalDetokenizer

/-- The number of characters to hold back. `SamplingParams` has refused empty stop strings. -/
def bufferLength (stop : List Text) (includeStopStrInOutput : Bool) : Nat :=
  if stop ≠ [] ∧ includeStopStrInOutput = false then (stop.map List.length).foldr max 0 - 1 else 0

/-- `BaseIncrementalDetokenizer.__init__`. -/
def init (stop : List Text) (minTokens : Nat) (includeStopStrInOutput : Bool) :
    BaseIncrementalDetokenizer where
  stop := stop
  minTokens := minTokens
  includeStopStrInOutput := includeStopStrInOutput
  stopBufferLength := bufferLength stop includeStopStrInOutput

/-- The body of the loop of `update` over the tokens, with `stop_check_offset`. -/
def decodeNext (s : BaseIncrementalDetokenizer × Nat) (piece : Text) :
    BaseIncrementalDetokenizer × Nat :=
  let d := { s.1 with
    numOutputTokenIds := s.1.numOutputTokenIds + 1
    outputText := s.1.outputText ++ piece }
  (d, if d.minTokens ≠ 0 ∧ d.numOutputTokenIds ≤ d.minTokens then d.outputText.length else s.2)

/-- `update`, for tokens with these pieces. -/
def update (d : BaseIncrementalDetokenizer) (newPieces : List Text) (stopTerminated : Bool) :
    Option Text × BaseIncrementalDetokenizer :=
  if newPieces = [] then (none, d)
  else
    let skipped := stopTerminated && !d.includeStopStrInOutput
    let pieces := if skipped then newPieces.dropLast else newPieces
    let (d, stopCheckOffset) := pieces.foldl decodeNext (d, d.outputText.length)
    let d := if skipped then { d with numOutputTokenIds := d.numOutputTokenIds + 1 } else d
    if d.stop ≠ [] ∧ d.minTokens < d.numOutputTokenIds then
      match checkStopStrings d.outputText (d.outputText.length - stopCheckOffset) d.stop
          d.includeStopStrInOutput with
      | none => (none, d)
      | some (stopString, none) => (some stopString, d)
      | some (stopString, some truncateTo) =>
        (some stopString, { d with outputText := d.outputText.take truncateTo })
    else (none, d)

/-- `get_next_output_text`. -/
def getNextOutputText (d : BaseIncrementalDetokenizer) (finished delta : Bool) :
    Text × BaseIncrementalDetokenizer :=
  let bufferLength := if finished then 0 else d.stopBufferLength
  let length := d.outputText.length - bufferLength
  if delta then
    if d.lastOutputTextOffset < length then
      ((d.outputText.take length).drop d.lastOutputTextOffset,
        { d with lastOutputTextOffset := length })
    else ([], d)
  else (d.outputText.take length, d)

/-- A step of the request: the tokens that it brings, if the last one is a stop token, and if the
new text is asked for after it. -/
structure Call where
  pieces : List Text
  stopTerminated : Bool
  polled : Bool

/-- What comes of the steps: the number of the step with the stop string, the text, and what was
given out of it. -/
structure Outcome where
  stoppedAt : Option Nat
  outputText : Text
  texts : List Text
deriving DecidableEq

/-- The steps of a request whose new text is given out, up to a stop string. -/
def serve (d : BaseIncrementalDetokenizer) : List Call → Outcome
  | [] => { stoppedAt := none, outputText := d.outputText, texts := [(d.getNextOutputText true true).1] }
  | call :: calls =>
    match d.update call.pieces call.stopTerminated with
    | (some _, d) =>
      { stoppedAt := some 1
        outputText := d.outputText
        texts := [(d.getNextOutputText true true).1] }
    | (none, d) =>
      let (text, d) := if call.polled then d.getNextOutputText false true else ([], d)
      let rest := serve d calls
      { rest with stoppedAt := rest.stoppedAt.map (· + 1), texts := text :: rest.texts }

end BaseIncrementalDetokenizer

end Vllm.V1.Engine
