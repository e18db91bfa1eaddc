import Vllm.V1.Engine.Detokenizer

/-!
# `Vllm.ToolParsers.Utils`: differences of partial JSON (`vllm/tool_parsers/utils.py`)

`extract_intermediate_diff` says what to stream when the arguments of a tool call have grown. Which
characters are alphanumeric (`str.isalnum`) is left open.
-/

set_option autoImplicit false

namespace Vllm.ToolParsers

open Vllm.V1.Engine

/-- `find_common_prefix`. -/
def findCommonPrefix : Text → Text → Text
  | c1 :: s1, c2 :: s2 => if c1 = c2 then c1 :: findCommonPrefix s1 s2 else []
  | _, _ => []

variable (isalnum : Char → Bool)

/-- The loop of `find_common_suffix`, which reads the strings from their ends. -/
def commonRun : Text → Text → Text
  | c1 :: s1, c2 :: s2 => if c1 = c2 && !isalnum c1 then c1 :: commonRun s1 s2 else []
  | _, _ => []

/-- `find_common_suffix`. -/
def findCommonSuffix (s1 s2 : Text) : Text := (commonRun isalnum s1.reverse s2.reverse).reverse

/-- `text.replace(sub, "", 1)`. -/
def removeFirst (text sub : Text) : Text :=
  match pyFind text sub 0 with
  | none => text
  | some i => text.take i ++ text.drop (i + sub.length)

/-- `extract_intermediate_diff`. -/
def extractIntermediateDiff (curr old : Text) : Text :=
  let suffix := findCommonSuffix isalnum curr old
  let old := (removeFirst old.reverse suffix.reverse).reverse
  let common := findCommonPrefix curr old
  let diff := if suffix.length ≠ 0 then (removeFirst curr.reverse suffix.reverse).reverse else curr
  if common.length ≠ 0 then removeFirst diff common else diff

end Vllm.ToolParsers
