import Vllm.Lib.PyDict
import Vllm.Lib.PySlice

/-!
# `Vllm.Logprobs`: the logprobs of a request in flat lists (`vllm/logprobs.py`)

The lists `token_ids`, `logprobs`, `ranks` and `decoded_tokens` of `FlatLogprobs` get their items
together and are sliced by the same bounds; they are one list of rows here. `F` is the type of a
logprob. The methods that only raise are left out.
-/

set_option autoImplicit false

namespace Vllm.Logprobs

open Vllm.Lib

variable {F : Type}

/-- `Logprob`. -/
structure Logprob (F : Type) where
  logprob : F
  rank : Option Int
  decodedToken : Option String
deriving DecidableEq

/-- `LogprobsOnePosition`. -/
abbrev LogprobsOnePosition (F : Type) := PyDict Int (Logprob F)

/-- A dictionary of rows. A later row with the same token replaces the value. -/
def dictOf (rows : List (Int × Logprob F)) : LogprobsOnePosition F :=
  rows.foldl (fun d row => d.insert row.1 row.2) .empty

/-- The rows of `zip(token_ids, logprobs, ranks, decoded_tokens)`. -/
def zipRows (tokenIds : List Int) (logprobs : List F) (ranks : List Int)
    (decodedTokens : List (Option String)) : List (Int × Logprob F) :=
  List.zipWith Prod.mk tokenIds (List.zipWith (fun logprob rest => ⟨logprob, some rest.1, rest.2⟩)
    logprobs (ranks.zip decodedTokens))

/-- `FlatLogprobs`. -/
structure FlatLogprobs (F : Type) where
  startIndices : List Int := []
  endIndices : List Int := []
  rows : List (Int × Logprob F) := []
deriving DecidableEq

namespace FlatLogprobs

/-- One more position, with the rows. -/
def appendRows (f : FlatLogprobs F) (rows : List (Int × Logprob F)) : FlatLogprobs F where
  startIndices := f.startIndices ++ [(f.rows.length : Int)]
  rows := f.rows ++ rows
  endIndices := f.endIndices ++ [((f.rows ++ rows).length : Int)]

/-- `append`. -/
def append (f : FlatLogprobs F) (logprobsOnePosition : Option (LogprobsOnePosition F)) :
    FlatLogprobs F :=
  f.appendRows ((logprobsOnePosition.map PyDict.entries).getD [])

/-- `append_fast`. -/
def appendFast (f : FlatLogprobs F) (tokenIds : List Int) (logprobs : List F) (ranks : List Int)
    (decodedTokens : List (Option String)) : FlatLogprobs F :=
  f.appendRows (zipRows tokenIds logprobs ranks decodedTokens)

/-- `extend`. -/
def extend (f : FlatLogprobs F) (positions : List (Option (LogprobsOnePosition F))) :
    FlatLogprobs F :=
  positions.foldl append f

/-- `__len__`. -/
def len (f : FlatLogprobs F) : Nat := f.startIndices.length

/-- The rows of `range(start, end)`. -/
def readRows (f : FlatLogprobs F) (start stop : Int) : Except PyError (List (Int × Logprob F)) :=
  ((List.range (stop - start).toNat).map fun k : Nat => start + k).mapM (pyItem f.rows)

/-- `__getitem__` of an index. -/
def getItem (f : FlatLogprobs F) (index : Int) : Except PyError (LogprobsOnePosition F) := do
  let start ← pyItem f.startIndices index
  let stop ← pyItem f.endIndices index
  return dictOf (← f.readRows start stop)

/-- `__getitem__` of a slice. -/
def getSlice (f : FlatLogprobs F) (s : PySlice) : Except PyError (FlatLogprobs F) := do
  let starts ← pySlice f.startIndices s
  let minIndex ← pyItem starts 0
  let stops ← pySlice f.endIndices s
  let maxIndex ← pyItem stops (-1)
  let rows ← pySlice f.rows ⟨some minIndex, some maxIndex, none⟩
  return {
    startIndices := starts.map (· - minIndex)
    endIndices := stops.map (· - minIndex)
    rows := rows }

/-- `__iter__`. -/
def iter (f : FlatLogprobs F) : Except PyError (List (LogprobsOnePosition F)) :=
  (List.range f.startIndices.length).mapM fun i : Nat => f.getItem i

end FlatLogprobs

/-- `itertools.chain((rank,), range(1, num_logprobs + 1))`. -/
def chainRanks (logprobs : List F) (rank numLogprobs : Int) : List Int :=
  let numLogprobs := if numLogprobs = -1 then (logprobs.length : Int) else numLogprobs
  rank :: (List.range numLogprobs.toNat).map fun k : Nat => (k : Int) + 1

/-- `append_logprobs_for_next_position`, for `FlatLogprobs`. -/
def FlatLogprobs.appendNext (f : FlatLogprobs F) (tokenIds : List Int) (logprobs : List F)
    (decodedTokens : List (Option String)) (rank numLogprobs : Int) : FlatLogprobs F :=
  f.appendFast tokenIds logprobs (chainRanks logprobs rank numLogprobs) decodedTokens

/-- `append_logprobs_for_next_position`, for a list. -/
def appendNext (l : List (LogprobsOnePosition F)) (tokenIds : List Int) (logprobs : List F)
    (decodedTokens : List (Option String)) (rank numLogprobs : Int) :
    List (LogprobsOnePosition F) :=
  l ++ [dictOf (zipRows tokenIds logprobs (chainRanks logprobs rank numLogprobs) decodedTokens)]

end Vllm.Logprobs
