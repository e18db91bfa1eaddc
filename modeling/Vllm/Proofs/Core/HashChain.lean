import Vllm.V1.Core.BlockHash
import Mathlib.Data.List.Basic

/-!
# `Vllm.Proofs.Core.HashChain`: the block hashes of a request as a chain

`request_block_hasher` carries two things from block to block: the hash of the block before,
and the index of the multimodal item at which the scan of the next block starts. This file
takes both out of the loop.

* `chain` is the hash of block `i` as a function of the extra keys and the tokens.
* `callItems` are the items that the scan of block `i` starts from, as a function of `i` and
  of the first block that the same call hashes.
* `requestBlockHasher_eq_map_chain` says that a call appends the chain of its own keys.
* `blockHashes_foldl_append` says what the hashes of a request are after any number of
  appends: the keys of block `i` are those of the call that completed it (`callStart`).
-/

set_option autoImplicit false

namespace Vllm.Proofs.Core

open Vllm.Lib Vllm.V1 Vllm.V1.Core List

/-! ### The scan over the multimodal items -/

/-- The first block end at which the scan is done with an item: its end, or one past its
start if its placeholder is empty. -/
def finishPos (f : MultiModalFeatureSpec) : Nat := max (f.mmPosition.offset + 1) f.endPos

/-- The index of `_gen_mm_extra_hash_keys`, applied: the items from it on. -/
def itemsFrom (fs : List MultiModalFeatureSpec) (mmIdx : Int) : List MultiModalFeatureSpec :=
  fs.drop (if mmIdx < 0 then fs.length + mmIdx else mmIdx : Int).toNat

/-- The multimodal keys of the block `[s, e)` when the scan starts with `items`. -/
def blockKeys (fs items : List MultiModalFeatureSpec) (s e : Nat) : List ExtraKey :=
  match fs.getLast? with
  | none => []
  | some last => if last.endPos < s then [] else (mmScan s e items 0).1

theorem mmScan_fst (s e : Nat) (fs : List MultiModalFeatureSpec) (idx : Nat) :
    (mmScan s e fs idx).1 = (mmScan s e fs 0).1 := by
  have hgen : ∀ i j, (mmScan s e fs i).1 = (mmScan s e fs j).1 := by
    induction fs with
    | nil => exact fun _ _ => rfl
    | cons f rest ih =>
      intro i j
      simp only [mmScan]
      by_cases hstart : f.mmPosition.offset < e
      · simp only [if_pos hstart]
        by_cases hpast : f.endPos < s
        · simp only [if_pos hpast]
          exact ih (i + 1) (j + 1)
        · simp only [if_neg hpast]
          split
          · exact congrArg (ExtraKey.str f.identifier :: ·) (ih (i + 1) (j + 1))
          · rfl
      · simp only [if_neg hstart]
  exact hgen idx 0

theorem drop_length_takeWhile {α : Type} (p : α → Bool) (l : List α) :
    l.drop (l.takeWhile p).length = l.dropWhile p := by
  calc l.drop (l.takeWhile p).length
      = (l.takeWhile p ++ l.dropWhile p).drop (l.takeWhile p).length := by
        rw [takeWhile_append_dropWhile]
    _ = l.dropWhile p := drop_left

/-- The scan stops at the first item that reaches past the end of the block. -/
theorem mmScan_snd {s e : Nat} (hse : s ≤ e) (fs : List MultiModalFeatureSpec) (idx : Nat) :
    (mmScan s e fs idx).2 = idx + (fs.takeWhile (finishPos · ≤ e)).length := by
  induction fs generalizing idx with
  | nil => rfl
  | cons f rest ih =>
    simp only [mmScan]
    by_cases hstart : f.mmPosition.offset < e
    · rw [if_pos hstart]
      by_cases hend : f.endPos ≤ e
      · have hfin : finishPos f ≤ e := Nat.max_le.mpr ⟨hstart, hend⟩
        rw [takeWhile_cons_of_pos (by simpa using hfin), length_cons]
        split
        · rw [ih]
          omega
        · show (mmScan s e rest (idx + 1)).2 = _
          rw [ih]
          omega
      · have hfin : ¬ finishPos f ≤ e := fun h => hend (Nat.max_le.mp h).2
        rw [takeWhile_cons_of_neg (by simpa using hfin), if_neg (by omega), if_neg hend]
        rfl
    · have hfin : ¬ finishPos f ≤ e := fun h => hstart (Nat.max_le.mp h).1
      rw [if_neg hstart, takeWhile_cons_of_neg (by simpa using hfin)]
      rfl

/-- The index `mmIdx` stands for `items`, unless all items lie before the position `s`: then
the source leaves the index as it is and never looks at it again. -/
def ScanAt (fs : List MultiModalFeatureSpec) (mmIdx : Int)
    (items : List MultiModalFeatureSpec) (s : Nat) : Prop :=
  ∀ last ∈ fs.getLast?, s ≤ last.endPos → itemsFrom fs mmIdx = items

/-- One block of the scan. -/
theorem genMmExtraHashKeys_spec {r : Request} {mmIdx : Int}
    {items : List MultiModalFeatureSpec} {s e : Nat} (hse : s ≤ e)
    (hscan : ScanAt r.mmFeatures mmIdx items s) :
    (genMmExtraHashKeys r s e mmIdx).1 = blockKeys r.mmFeatures items s e ∧
      ScanAt r.mmFeatures (genMmExtraHashKeys r s e mmIdx).2
        (items.dropWhile (finishPos · ≤ e)) e := by
  unfold genMmExtraHashKeys blockKeys ScanAt
  cases hlast : r.mmFeatures.getLast? with
  | none => exact ⟨rfl, fun last hmem => by cases hmem⟩
  | some last =>
    by_cases hdone : last.endPos < s
    · simp only [if_pos hdone]
      refine ⟨trivial, fun l hmem hle => ?_⟩
      cases hmem
      omega
    · have hitems := hscan last (by simp [hlast]) (by omega)
      simp only [if_neg hdone]
      rw [← hitems]
      refine ⟨mmScan_fst .., fun l _ _ => ?_⟩
      rw [mmScan_snd hse]
      unfold itemsFrom
      rw [if_neg (by omega), Int.toNat_natCast, ← drop_drop]
      exact drop_length_takeWhile ..

/-! ### The keys of a block -/

/-- The extra keys of the block `[s, e)` of a request, given its multimodal keys. -/
def extraKeysWith (r : Request) (mmKeys : List ExtraKey) (s e : Nat) :
    Option (List ExtraKey) :=
  let keys := genLoraExtraHashKeys r ++ mmKeys ++ cacheSaltKeys r s
    ++ genPromptEmbedsExtraHashKeys r s e
  if keys = [] then none else some keys

theorem generateBlockHashExtraKeys_eq (r : Request) (s e : Nat) (mmIdx : Int) :
    generateBlockHashExtraKeys r s e mmIdx =
      (extraKeysWith r (genMmExtraHashKeys r s e mmIdx).1 s e,
        (genMmExtraHashKeys r s e mmIdx).2) := by
  unfold generateBlockHashExtraKeys extraKeysWith
  dsimp only
  split <;> rfl

/-- The items that the scan of block `i` starts from, in a call that hashes the blocks from
`b` on. A call that does not start with block zero looks at the last item only. -/
def callItems (B : ℕ+) (fs : List MultiModalFeatureSpec) (b i : Nat) :
    List MultiModalFeatureSpec :=
  let items := if b = 0 then fs else fs.drop (fs.length - 1)
  if i = b then items else items.dropWhile (finishPos · ≤ i * B)

/-- The extra keys of block `i` in a call that hashes the blocks from `b` on. -/
def callKeys (B : ℕ+) (r : Request) (b i : Nat) : Option (List ExtraKey) :=
  extraKeysWith r (blockKeys r.mmFeatures (callItems B r.mmFeatures b i) (i * B) ((i + 1) * B))
    (i * B) ((i + 1) * B)

theorem dropWhile_dropWhile_of_imp {α : Type} {p q : α → Bool}
    (himp : ∀ a, p a = true → q a = true) (l : List α) :
    (l.dropWhile p).dropWhile q = l.dropWhile q := by
  induction l with
  | nil => rfl
  | cons a l ih =>
    by_cases hp : p a = true
    · rw [dropWhile_cons_of_pos hp, dropWhile_cons_of_pos (himp a hp), ih]
    · rw [dropWhile_cons_of_neg hp]

/-- The items left for the next block of the same call. -/
theorem dropWhile_callItems (B : ℕ+) (fs : List MultiModalFeatureSpec) {b i : Nat} (hbi : b ≤ i) :
    (callItems B fs b i).dropWhile (finishPos · ≤ (i + 1) * B) = callItems B fs b (i + 1) := by
  unfold callItems
  dsimp only
  rw [if_neg (show i + 1 ≠ b by omega)]
  split
  · rfl
  · refine dropWhile_dropWhile_of_imp (fun f hf => ?_) _
    have hle : i * (B : Nat) ≤ (i + 1) * B := Nat.mul_le_mul_right _ (Nat.le_succ i)
    have hf' : finishPos f ≤ i * B := of_decide_eq_true hf
    exact decide_eq_true (hf'.trans hle)

/-! ### The chain -/

/-- The tokens of block `i`. -/
def blockTokens (B : ℕ+) (tokens : List Int) (i : Nat) : List Int :=
  (tokens.drop (i * B)).take B

section Chain
variable (noneHash : BlockHash) (hashFn : HashInput → BlockHash) (B : ℕ+)

/-- The hash of block `i`, from the extra keys of the blocks and the tokens. -/
def chain (keys : Nat → Option (List ExtraKey)) (tokens : List Int) : Nat → BlockHash
  | 0 => hashBlockTokens noneHash hashFn none (blockTokens B tokens 0) (keys 0)
  | i + 1 =>
    hashBlockTokens noneHash hashFn (some (chain keys tokens i))
      (blockTokens B tokens (i + 1)) (keys (i + 1))

/-- The hash that block `i` is chained to. -/
def chainParent (keys : Nat → Option (List ExtraKey)) (tokens : List Int) :
    Nat → Option BlockHash
  | 0 => none
  | i + 1 => some (chain noneHash hashFn B keys tokens i)

variable {noneHash hashFn B}

theorem chain_eq (keys : Nat → Option (List ExtraKey)) (tokens : List Int) (i : Nat) :
    chain noneHash hashFn B keys tokens i =
      hashBlockTokens noneHash hashFn (chainParent noneHash hashFn B keys tokens i)
        (blockTokens B tokens i) (keys i) := by
  cases i <;> rfl

variable {keys : Nat → Option (List ExtraKey)} {tokens : List Int} {i : Nat}

/-- A block hash depends on the keys and the tokens up to its block only. -/
theorem chain_congr {keys' : Nat → Option (List ExtraKey)} {tokens' : List Int}
    (hkeys : ∀ j ≤ i, keys j = keys' j)
    (htokens : ∀ j ≤ i, blockTokens B tokens j = blockTokens B tokens' j) :
    chain noneHash hashFn B keys tokens i = chain noneHash hashFn B keys' tokens' i := by
  induction i with
  | zero => simp only [chain, hkeys 0 (Nat.le_refl 0), htokens 0 (Nat.le_refl 0)]
  | succ i ih =>
    have hprev := ih (fun j hj => hkeys j (by omega)) (fun j hj => htokens j (by omega))
    simp only [chain, hprev, hkeys (i + 1) (Nat.le_refl _), htokens (i + 1) (Nat.le_refl _)]

variable {r : Request}

/-- The loop of the hasher from block `i` on. The fuel is never used up: the number of full
blocks that remain is at most the number of rounds. -/
theorem hasherLoop_eq_map_chain {b : Nat} (fuel i : Nat) (mmIdx : Int) (hbi : b ≤ i)
    (hfuel : r.numTokens / B ≤ i + fuel)
    (hscan : ScanAt r.mmFeatures mmIdx (callItems B r.mmFeatures b i) (i * B))
    (hkeys : ∀ j, i ≤ j → j < r.numTokens / B → keys j = callKeys B r b j) :
    hasherLoop noneHash hashFn B r fuel (i * B) mmIdx
        (chainParent noneHash hashFn B keys r.allTokenIds i) =
      (List.range' i (r.numTokens / B - i)).map (chain noneHash hashFn B keys r.allTokenIds) := by
  induction fuel generalizing i mmIdx with
  | zero =>
    have hnone : r.numTokens / B - i = 0 := by omega
    rw [hnone]
    rfl
  | succ fuel ih =>
    have hend : i * (B : Nat) + B = (i + 1) * B := (Nat.succ_mul i B).symm
    rw [hasherLoop]
    dsimp only
    rw [hend]
    by_cases hfull : r.numTokens < (i + 1) * B
    · have hnone : r.numTokens / B - i = 0 := by
        have := (Nat.div_lt_iff_lt_mul B.pos).mpr hfull
        omega
      rw [if_pos hfull, hnone]
      rfl
    · have hlt : i + 1 ≤ r.numTokens / B := (Nat.le_div_iff_mul_le B.pos).mpr (Nat.not_lt.mp hfull)
      have hle : i * (B : Nat) ≤ (i + 1) * B := Nat.mul_le_mul_right _ (Nat.le_succ i)
      obtain ⟨hmm, hscan'⟩ := genMmExtraHashKeys_spec hle hscan
      rw [dropWhile_callItems B _ hbi] at hscan'
      have hchain : hashBlockTokens noneHash hashFn
          (chainParent noneHash hashFn B keys r.allTokenIds i)
          ((r.allTokenIds.drop (i * B)).take B)
          (extraKeysWith r (genMmExtraHashKeys r (i * B) ((i + 1) * B) mmIdx).1 (i * B)
            ((i + 1) * B)) = chain noneHash hashFn B keys r.allTokenIds i := by
        rw [chain_eq, hkeys i (Nat.le_refl i) hlt, hmm]
        rfl
      rw [if_neg hfull, generateBlockHashExtraKeys_eq]
      dsimp only
      rw [hchain]
      have hrec := ih (i + 1) _ (by omega) (by omega) hscan' (fun j hj => hkeys j (by omega))
      rw [show chainParent noneHash hashFn B keys r.allTokenIds (i + 1) =
        some (chain noneHash hashFn B keys r.allTokenIds i) from rfl] at hrec
      rw [hrec]
      have hsplit : r.numTokens / B - i = (r.numTokens / B - (i + 1)) + 1 := by omega
      rw [hsplit, range'_succ, map_cons]

/-- A call of the hasher appends the chain of its own keys to the chain it finds. -/
theorem requestBlockHasher_eq_map_chain {b : Nat}
    (hhashes : r.blockHashes = (List.range b).map (chain noneHash hashFn B keys r.allTokenIds))
    (hkeys : ∀ j, b ≤ j → j < r.numTokens / B → keys j = callKeys B r b j) :
    requestBlockHasher noneHash hashFn B r = (List.range' b (r.numTokens / B - b)).map
        (chain noneHash hashFn B keys r.allTokenIds) := by
  have hlen : r.blockHashes.length = b := by rw [hhashes, length_map, length_range]
  unfold requestBlockHasher
  dsimp only
  rw [hlen]
  have hend : b * (B : Nat) + B = (b + 1) * B := (Nat.succ_mul b B).symm
  by_cases hfull : r.numTokens < b * B + B
  · have hnone : r.numTokens / B - b = 0 := by
      have := (Nat.div_lt_iff_lt_mul B.pos).mpr (hend ▸ hfull)
      omega
    rw [if_pos hfull, hnone]
    rfl
  · have hparent : r.blockHashes.getLast? = chainParent noneHash hashFn B keys r.allTokenIds b := by
      rw [hhashes]
      cases b with
      | zero => rfl
      | succ b => rw [range_succ, map_append, List.getLast?_append]; rfl
    rw [if_neg hfull, hparent]
    have hfuel : r.numTokens / B ≤ b + r.numTokens :=
      (Nat.div_le_self _ _).trans (Nat.le_add_left _ _)
    refine hasherLoop_eq_map_chain _ b _ (Nat.le_refl b) hfuel ?_ hkeys
    intro last _ _
    unfold itemsFrom callItems
    by_cases hb : b = 0
    · subst hb
      simp
    · have hpos : 0 < b * (B : Nat) := Nat.mul_pos (Nat.pos_of_ne_zero hb) B.pos
      simp only [if_pos hpos, if_neg hb]
      congr 1
      omega

/-! ### Appending output tokens -/

/-- Tokens that are appended do not change a block that is full. -/
theorem blockTokens_append (tokens new : List Int) (hi : i < tokens.length / B) :
    blockTokens B (tokens ++ new) i = blockTokens B tokens i := by
  have hfull : (i + 1) * (B : Nat) ≤ tokens.length :=
    (Nat.mul_le_mul_right _ hi).trans (Nat.div_mul_le_self _ _)
  have hend : i * (B : Nat) + B = (i + 1) * B := (Nat.succ_mul i B).symm
  unfold blockTokens
  rw [drop_append_of_le_length (by omega), take_append_of_le_length]
  rw [length_drop]
  omega

/-- The first block that is hashed by the call that completes block `i`: the request has
`len` tokens, and the calls to come append as many tokens as `ns` says. -/
def callStart (B : ℕ+) : Nat → List Nat → Nat → Nat
  | _, [], _ => 0
  | len, n :: ns, i => if i < (len + n) / B then len / B else callStart B (len + n) ns i

theorem callStart_append_of_lt (len : Nat) (ns ms : List Nat) (hi : i < (len + ns.sum) / B)
    (hlen : len / B ≤ i) :
    callStart B len (ns ++ ms) i = callStart B len ns i := by
  induction ns generalizing len with
  | nil =>
    rw [sum_nil, Nat.add_zero] at hi
    omega
  | cons n ns ih =>
    rw [cons_append, callStart, callStart]
    split
    · rfl
    · refine ih (len + n) ?_ (by omega)
      rwa [sum_cons, ← Nat.add_assoc] at hi

theorem callStart_concat (len n : Nat) (ns : List Nat) (hlo : (len + ns.sum) / B ≤ i)
    (hhi : i < (len + ns.sum + n) / B) :
    callStart B len (ns ++ [n]) i = (len + ns.sum) / B := by
  induction ns generalizing len with
  | nil =>
    rw [sum_nil, Nat.add_zero] at hhi
    rw [nil_append, callStart, if_pos hhi, sum_nil, Nat.add_zero]
  | cons m ns ih =>
    rw [sum_cons, ← Nat.add_assoc] at hlo hhi ⊢
    have hge : (len + m) / B ≤ (len + m + ns.sum) / B := Nat.div_le_div_right (Nat.le_add_right _ _)
    rw [cons_append, callStart, if_neg (by omega)]
    exact ih (len + m) hlo hhi

/-- The tokens `tokens` came in pieces of the lengths `lens`, and the hashes of `r` are the
chain whose keys are those of the call that completed each block. -/
structure ChainOf (noneHash : BlockHash) (hashFn : HashInput → BlockHash) (B : ℕ+)
    (r₀ : Request) (lens : List Nat) (tokens : List Int) (r : Request) : Prop where
  lens_sum : lens.sum = tokens.length
  tokens_eq : r.allTokenIds = tokens
  mmFeatures_eq : r.mmFeatures = r₀.mmFeatures
  loraRequest_eq : r.loraRequest = r₀.loraRequest
  cacheSalt_eq : r.cacheSalt = r₀.cacheSalt
  promptEmbeds_eq : r.promptEmbeds = r₀.promptEmbeds
  hashes_eq : r.blockHashes = (List.range (tokens.length / B)).map
    (chain noneHash hashFn B (fun i => callKeys B r₀ (callStart B 0 lens i) i) tokens)

/-- The keys of a block are a function of the four fields that the hasher reads. -/
theorem callKeys_congr {r' : Request} (hmm : r.mmFeatures = r'.mmFeatures)
    (hlora : r.loraRequest = r'.loraRequest) (hsalt : r.cacheSalt = r'.cacheSalt)
    (hembeds : r.promptEmbeds = r'.promptEmbeds) (b i : Nat) :
    callKeys B r b i = callKeys B r' b i := by
  unfold callKeys extraKeysWith genLoraExtraHashKeys cacheSaltKeys genPromptEmbedsExtraHashKeys
  rw [hmm, hlora, hsalt, hembeds]

variable {r₀ : Request} {lens : List Nat}

/-- A call of the hasher on a request whose tokens have just grown by `new`. -/
theorem ChainOf.hasher {new : List Int} (h : ChainOf noneHash hashFn B r₀ lens tokens r)
    (r1 : Request) (htok : r1.allTokenIds = tokens ++ new)
    (hhash : r1.blockHashes = r.blockHashes) (hmm : r1.mmFeatures = r.mmFeatures)
    (hlora : r1.loraRequest = r.loraRequest) (hsalt : r1.cacheSalt = r.cacheSalt)
    (hembeds : r1.promptEmbeds = r.promptEmbeds) :
    r1.blockHashes ++ requestBlockHasher noneHash hashFn B r1 =
      (List.range ((tokens ++ new).length / B)).map (chain noneHash hashFn B
        (fun i => callKeys B r₀ (callStart B 0 (lens ++ [new.length]) i) i)
        (tokens ++ new)) := by
  -- blocks that were full before: their keys and tokens do not change
  have hold : r1.blockHashes = (List.range (tokens.length / B)).map (chain noneHash hashFn B
      (fun i => callKeys B r₀ (callStart B 0 (lens ++ [new.length]) i) i)
      r1.allTokenIds) := by
    rw [hhash, h.hashes_eq, htok]
    refine map_congr_left (fun i hi => ?_)
    have hi' := mem_range.mp hi
    refine chain_congr (fun j hj => ?_) (fun j hj => ?_)
    · rw [callStart_append_of_lt 0 lens _ (by rw [Nat.zero_add, h.lens_sum]; omega)
        (by rw [Nat.zero_div]; exact Nat.zero_le j)]
    · exact (blockTokens_append tokens new (by omega)).symm
  -- blocks that this call completes
  have hnum : r1.numTokens = tokens.length + new.length := by
    rw [Request.numTokens, htok, length_append]
  have hnew : ∀ j, tokens.length / B ≤ j → j < r1.numTokens / B →
      callKeys B r₀ (callStart B 0 (lens ++ [new.length]) j) j =
        callKeys B r1 (tokens.length / B) j := by
    intro j hlo hhi
    rw [hnum] at hhi
    rw [callStart_concat 0 _ _ (by rw [Nat.zero_add, h.lens_sum]; exact hlo)
      (by rw [Nat.zero_add, h.lens_sum]; exact hhi), Nat.zero_add, h.lens_sum]
    exact callKeys_congr (hmm.trans h.mmFeatures_eq).symm (hlora.trans h.loraRequest_eq).symm
      (hsalt.trans h.cacheSalt_eq).symm (hembeds.trans h.promptEmbeds_eq).symm _ _
  have hle : tokens.length / B ≤ (tokens.length + new.length) / B :=
    Nat.div_le_div_right (Nat.le_add_right _ _)
  rw [requestBlockHasher_eq_map_chain hold hnew, hold, ← map_append, hnum, htok,
    length_append]
  congr 1
  have hsplit := @range'_append_1 0 (tokens.length / B)
    ((tokens.length + new.length) / B - tokens.length / B)
  rw [Nat.zero_add, Nat.add_sub_cancel' hle] at hsplit
  rw [range_eq_range', range_eq_range']
  exact hsplit

/-- One append. -/
theorem ChainOf.append (h : ChainOf noneHash hashFn B r₀ lens tokens r) (new : List Int) :
    ChainOf noneHash hashFn B r₀ (lens ++ [new.length]) (tokens ++ new)
      (r.appendOutputTokenIds (some (requestBlockHasher noneHash hashFn B)) new) := by
  have htok : r.allTokenIds ++ new = tokens ++ new := by rw [h.tokens_eq]
  refine ⟨?_, htok, h.mmFeatures_eq, h.loraRequest_eq, h.cacheSalt_eq, h.promptEmbeds_eq, ?_⟩
  · rw [sum_append, h.lens_sum, length_append]
    rfl
  · exact h.hasher { r with
      outputTokenIds := r.outputTokenIds ++ new
      allTokenIds := r.allTokenIds ++ new } htok rfl rfl rfl rfl rfl

/-- Appends a chunk of tokens with each call. -/
def appendChunks (noneHash : BlockHash) (hashFn : HashInput → BlockHash) (B : ℕ+)
    (r : Request) (chunks : List (List Int)) : Request :=
  chunks.foldl (Request.appendOutputTokenIds (some (requestBlockHasher noneHash hashFn B))) r

/-- Any number of appends. -/
theorem ChainOf.appendChunks (h : ChainOf noneHash hashFn B r₀ lens tokens r)
    (chunks : List (List Int)) :
    ChainOf noneHash hashFn B r₀ (lens ++ chunks.map List.length)
      (tokens ++ chunks.flatten) (appendChunks noneHash hashFn B r chunks) := by
  induction chunks generalizing r lens tokens with
  | nil => simpa [Core.appendChunks] using h
  | cons new chunks ih =>
    have hnext := ih (h.append new)
    simpa [Core.appendChunks] using hnext

variable {args : Request.InitArgs} {hasher : Request → List BlockHash}

/-- `Request.__init__`: the fields that the hasher reads are those of the arguments, and the
hasher is called on a request without hashes. -/
theorem init_eq_ok (hinit : Request.init args (some hasher) = .ok r) :
    ∃ (r1 : Request) (numPromptTokens : Nat),
      r1.allTokenIds = args.promptTokenIds.getD (List.replicate numPromptTokens 0) ∧
      r1.blockHashes = [] ∧ r1.mmFeatures = args.mmFeatures ∧
      r1.loraRequest = args.loraRequest ∧ r1.cacheSalt = args.cacheSalt ∧
      r1.promptEmbeds = args.promptEmbeds ∧
      r = { r1 with
        blockHashes := hasher r1
        skipReadingPrefixCache := r.skipReadingPrefixCache } := by
  unfold Request.init at hinit
  obtain ⟨⟨maxTokens, status⟩, -, hinit⟩ := bind_ok hinit
  obtain ⟨numPromptTokens, -, hinit⟩ := bind_ok hinit
  cases hinit
  exact ⟨Request.beforeHashing args maxTokens status numPromptTokens, numPromptTokens, rfl, rfl,
    rfl, rfl, rfl, rfl, rfl⟩

theorem init_allTokenIds {prompt : List Int} (hprompt : args.promptTokenIds = some prompt)
    (hinit : Request.init args (some hasher) = .ok r) : r.allTokenIds = prompt := by
  obtain ⟨r1, n, htok, -, -, -, -, -, hr⟩ := init_eq_ok hinit
  rw [hr]
  show r1.allTokenIds = prompt
  rw [htok, hprompt]
  rfl

/-- The request that `Request.__init__` builds. -/
theorem ChainOf.init (r₀ : Request)
    (hinit : Request.init args (some (requestBlockHasher noneHash hashFn B)) = .ok r)
    (hmm : args.mmFeatures = r₀.mmFeatures) (hlora : args.loraRequest = r₀.loraRequest)
    (hsalt : args.cacheSalt = r₀.cacheSalt) (hembeds : args.promptEmbeds = r₀.promptEmbeds) :
    ChainOf noneHash hashFn B r₀ [r.numTokens] r.allTokenIds r := by
  obtain ⟨r1, n, -, hhash, hmm1, hlora1, hsalt1, hembeds1, hr⟩ := init_eq_ok hinit
  have hempty : ChainOf noneHash hashFn B r₀ [] [] { r1 with allTokenIds := [] } := by
    refine ⟨rfl, rfl, hmm1.trans hmm, hlora1.trans hlora, hsalt1.trans hsalt,
      hembeds1.trans hembeds, ?_⟩
    show r1.blockHashes = _
    rw [hhash, length_nil, Nat.zero_div]
    rfl
  have hcall := hempty.hasher r1 (nil_append r1.allTokenIds).symm rfl rfl rfl rfl rfl
  rw [hhash] at hcall
  rw [hr]
  exact ⟨sum_singleton, rfl, hmm1.trans hmm, hlora1.trans hlora, hsalt1.trans hsalt,
    hembeds1.trans hembeds, hcall⟩

end Chain

end Vllm.Proofs.Core
