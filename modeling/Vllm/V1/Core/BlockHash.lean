import Vllm.V1.Request
import Mathlib.Data.PNat.Basic

/-!
# `Vllm.V1.Core.BlockHash`: block hashes (`vllm/v1/core/kv_cache_utils.py`)

The block hash of a request is a chain: each block is hashed together with the hash of the
block before it and with the *extra keys* of the block, one flat tuple of the LoRA name, the
identifiers of the multimodal items, the cache salt and the prompt embeddings.

The hash function (`caching_hash_fn`) and the seed `NONE_HASH` are parameters: the source
picks the first by configuration and draws the second at random.

* the values that are hashed: `ExtraKey`, `HashInput`
* the extra keys of one block: `mmScan`, `genMmExtraHashKeys`, `genLoraExtraHashKeys`,
  `genPromptEmbedsExtraHashKeys`, `generateBlockHashExtraKeys`
* the chain: `hashBlockTokens`, `hasherLoop`, `requestBlockHasher`
-/

set_option autoImplicit false

namespace Vllm.V1.Core

open Vllm.Lib Vllm.V1

/-- An entry of the tuple `extra_keys`: a string, or the raw bytes of prompt embeddings. -/
inductive ExtraKey where
  | str (s : String)
  | bytes (b : Bytes)
deriving DecidableEq

/-- The tuple that the hash function is applied to. -/
structure HashInput where
  parentBlockHash : BlockHash
  currBlockTokenIds : List Int
  extraKeys : Option (List ExtraKey)
deriving DecidableEq

/-- The `while` loop of `_gen_mm_extra_hash_keys`, over the items from `curr_mm_idx` on. -/
def mmScan (startTokenIdx endTokenIdx : Nat) :
    List MultiModalFeatureSpec → Nat → List ExtraKey × Nat
  | [], currMmIdx => ([], currMmIdx)
  | f :: rest, currMmIdx =>
    if f.mmPosition.offset < endTokenIdx then
      if f.endPos < startTokenIdx then
        -- this block has passed the current item
        mmScan startTokenIdx endTokenIdx rest (currMmIdx + 1)
      else if f.endPos ≤ endTokenIdx then
        -- the block contains the end of the item and may contain the next one too
        let (keys, idx) := mmScan startTokenIdx endTokenIdx rest (currMmIdx + 1)
        (.str f.identifier :: keys, idx)
      else ([.str f.identifier], currMmIdx)
    else ([], currMmIdx)

/-- `_gen_mm_extra_hash_keys`. A negative index counts from the end of the list; the hasher
passes no negative index but `-1`, so the assertion on it holds. -/
def genMmExtraHashKeys (request : Request) (startTokenIdx endTokenIdx : Nat)
    (startMmIdx : Int) : List ExtraKey × Int :=
  match request.mmFeatures.getLast? with
  | none => ([], startMmIdx)
  | some last =>
    if last.endPos < startTokenIdx then ([], startMmIdx)
    else
      let start : Int :=
        if startMmIdx < 0 then request.mmFeatures.length + startMmIdx else startMmIdx
      let (keys, idx) :=
        mmScan startTokenIdx endTokenIdx (request.mmFeatures.drop start.toNat) start.toNat
      (keys, idx)

/-- `_gen_lora_extra_hash_keys`. -/
def genLoraExtraHashKeys (request : Request) : List ExtraKey :=
  match request.loraRequest with
  | none => []
  | some lora => [.str lora.loraName]

/-- `_gen_prompt_embeds_extra_hash_keys`. -/
def genPromptEmbedsExtraHashKeys (request : Request) (startTokenIdx endTokenIdx : Nat) :
    List ExtraKey :=
  match request.promptEmbeds with
  | none => []
  | some embeds =>
    [.bytes ((embeds.rows.drop startTokenIdx).take (endTokenIdx - startTokenIdx)).flatten]

/-- `cache_salt_keys` of `generate_block_hash_extra_keys`: the salt goes to the first block
only, and an empty salt counts as no salt. -/
def cacheSaltKeys (request : Request) (startTokenIdx : Nat) : List ExtraKey :=
  match request.cacheSalt with
  | none => []
  | some salt => if startTokenIdx = 0 ∧ salt ≠ "" then [.str salt] else []

/-- `generate_block_hash_extra_keys`. -/
def generateBlockHashExtraKeys (request : Request) (startTokenIdx endTokenIdx : Nat)
    (startMmIdx : Int) : Option (List ExtraKey) × Int :=
  let (mmExtraKeys, newStartMmIdx) :=
    genMmExtraHashKeys request startTokenIdx endTokenIdx startMmIdx
  let extraKeys :=
    genLoraExtraHashKeys request ++ mmExtraKeys ++ cacheSaltKeys request startTokenIdx
      ++ genPromptEmbedsExtraHashKeys request startTokenIdx endTokenIdx
  if extraKeys = [] then (none, newStartMmIdx) else (some extraKeys, newStartMmIdx)

section Hasher
variable (noneHash : BlockHash) (hashFunction : HashInput → BlockHash)

/-- `hash_block_tokens`. -/
def hashBlockTokens (parentBlockHash : Option BlockHash) (currBlockTokenIds : List Int)
    (extraKeys : Option (List ExtraKey)) : BlockHash :=
  -- `if not parent_block_hash`: an empty hash counts as no parent
  let parent := match parentBlockHash with
    | none => noneHash
    | some h => if h = [] then noneHash else h
  hashFunction
    { parentBlockHash := parent
      currBlockTokenIds := currBlockTokenIds
      extraKeys := extraKeys }

/-- The `while True` loop of `request_block_hasher`. Every round takes a block of tokens, so
as many rounds as the request has tokens are enough. -/
def hasherLoop (blockSize : ℕ+) (request : Request) :
    Nat → Nat → Int → Option BlockHash → List BlockHash
  | 0, _, _, _ => []
  | fuel + 1, startTokenIdx, currMmIdx, prevBlockHashValue =>
    let endTokenIdx := startTokenIdx + blockSize
    if request.numTokens < endTokenIdx then []
    else
      let (extraKeys, currMmIdx) :=
        generateBlockHashExtraKeys request startTokenIdx endTokenIdx currMmIdx
      let blockTokens := (request.allTokenIds.drop startTokenIdx).take blockSize
      let blockHash :=
        hashBlockTokens noneHash hashFunction prevBlockHashValue blockTokens extraKeys
      blockHash :: hasherLoop blockSize request fuel endTokenIdx currMmIdx (some blockHash)

/-- `request_block_hasher`, the function that `get_request_block_hasher` returns. -/
def requestBlockHasher (blockSize : ℕ+) (request : Request) : List BlockHash :=
  let startTokenIdx := request.blockHashes.length * blockSize
  if request.numTokens < startTokenIdx + blockSize then []
  else
    -- `-1` stands for the last item: the source takes it that a block completed by
    -- generated tokens can only overlap the last one
    let currMmIdx : Int := if 0 < startTokenIdx then -1 else 0
    hasherLoop noneHash hashFunction blockSize request request.numTokens startTokenIdx
      currMmIdx request.blockHashes.getLast?

end Hasher

end Vllm.V1.Core
