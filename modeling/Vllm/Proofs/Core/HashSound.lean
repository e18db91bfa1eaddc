import Vllm.Proofs.Core.HashPath

/-!
# `Vllm.Proofs.Core.HashSound`: what equal block hashes say about two requests

The hash of a block should stand for everything that its KV values depend on: the tokens up
to the end of the block, the multimodal items, the LoRA adapter, the cache salt and the
prompt embeddings. The source puts the last four into one flat tuple of keys without saying
which key is of which kind, so the tuple can be read in two ways.

* `SameContents` is what equal hashes should give.
* `SameKinds` says that the two requests have the same number of keys of each kind.
* `SameFlatKeys` compares the tokens and the flat tuples.
* `blockHash_sound_iff`: equal hashes give equal contents exactly for the requests with the
  same kinds, and for those that the flat tuples tell apart.
-/

set_option autoImplicit false

namespace Vllm.Proofs.Core

open Vllm.Lib Vllm.V1 Vllm.V1.Core List

/-! ### Contents, kinds and flat keys -/

/-- The identifiers of the items that overlap block `j`. -/
def blockItems (B : ℕ+) (r : Request) (j : Nat) : List String :=
  (r.mmFeatures.filter (Overlaps (j * B) ((j + 1) * B))).map (·.identifier)

/-- The rows of the prompt embeddings that fall into block `j`. -/
def blockEmbeds (B : ℕ+) (r : Request) (j : Nat) : Option (List Bytes) :=
  r.promptEmbeds.map (fun embeds => (embeds.rows.drop (j * B)).take B)

/-- The KV values of the blocks up to `i` depend on the same data. -/
structure SameContents (B : ℕ+) (r r' : Request) (i : Nat) : Prop where
  tokens : r.allTokenIds.take ((i + 1) * B) = r'.allTokenIds.take ((i + 1) * B)
  items : ∀ j ≤ i, blockItems B r j = blockItems B r' j
  loraName : r.loraRequest.map (·.loraName) = r'.loraRequest.map (·.loraName)
  cacheSalt : r.cacheSalt = r'.cacheSalt
  embeds : ∀ j ≤ i, blockEmbeds B r j = blockEmbeds B r' j

/-- The two requests have as many keys of each kind on every block up to `i`. -/
structure SameKinds (B : ℕ+) (r r' : Request) (i : Nat) : Prop where
  items : ∀ j ≤ i, (blockItems B r j).length = (blockItems B r' j).length
  lora : r.loraRequest.isSome = r'.loraRequest.isSome
  salt : r.cacheSalt.isSome = r'.cacheSalt.isSome
  embeds : ∀ j ≤ i, (blockEmbeds B r j).map List.length = (blockEmbeds B r' j).map List.length

/-- The keys of block `j` in the order of the source: LoRA name, items, salt, embeddings. -/
def flatKeys (B : ℕ+) (r : Request) (j : Nat) : List ExtraKey :=
  genLoraExtraHashKeys r ++ (blockItems B r j).map ExtraKey.str ++ cacheSaltKeys r (j * B)
    ++ genPromptEmbedsExtraHashKeys r (j * B) ((j + 1) * B)

/-- The tokens and the flat keys of the blocks up to `i` are the same. -/
def SameFlatKeys (B : ℕ+) (r r' : Request) (i : Nat) : Prop :=
  ∀ j ≤ i, blockTokens B r.allTokenIds j = blockTokens B r'.allTokenIds j ∧
    flatKeys B r j = flatKeys B r' j

variable {r r' : Request} {i : Nat}

/-- Equal contents have equal kinds. -/
theorem SameContents.sameKinds {B : ℕ+} (h : SameContents B r r' i) : SameKinds B r r' i where
  items j hj := by rw [h.items j hj]
  lora := by
    have hname := congrArg Option.isSome h.loraName
    rwa [Option.isSome_map, Option.isSome_map] at hname
  salt := by rw [h.cacheSalt]
  embeds j hj := by rw [h.embeds j hj]

/-! ### Reading the flat tuple -/

/-- Rows of one width are determined by their bytes and their number. -/
theorem flatten_inj_of_width {α : Type} {w : Nat} {rows rows' : List (List α)}
    (hw : ∀ row ∈ rows, row.length = w) (hw' : ∀ row ∈ rows', row.length = w)
    (hlen : rows.length = rows'.length) (hflat : rows.flatten = rows'.flatten) :
    rows = rows' := by
  induction rows generalizing rows' with
  | nil =>
    cases rows' with
    | nil => rfl
    | cons row' rest' => cases hlen
  | cons row rest ih =>
    cases rows' with
    | nil => cases hlen
    | cons row' rest' =>
      have hrow : row.length = row'.length := by
        rw [hw row mem_cons_self, hw' row' mem_cons_self]
      obtain ⟨hhead, htail⟩ := append_inj hflat hrow
      have hrest := ih (fun x hx => hw x (mem_cons_of_mem row hx))
        (fun x hx => hw' x (mem_cons_of_mem row' hx)) (Nat.succ.inj hlen) htail
      rw [hhead, hrest]

theorem length_flatten_of_width {α : Type} {w : Nat} {rows : List (List α)}
    (hw : ∀ row ∈ rows, row.length = w) : rows.flatten.length = rows.length * w := by
  rw [length_flatten, map_congr_left hw, map_const', sum_replicate_nat]

variable {j : Nat}

/-- Two embeddings with the same bytes and the same number of rows on a block. -/
theorem blockEmbeds_eq_of_keys {B : ℕ+}
    (hkeys : genPromptEmbedsExtraHashKeys r (j * B) ((j + 1) * B) =
      genPromptEmbedsExtraHashKeys r' (j * B) ((j + 1) * B))
    (hlen : (blockEmbeds B r j).map List.length = (blockEmbeds B r' j).map List.length) :
    blockEmbeds B r j = blockEmbeds B r' j := by
  have hsub : (j + 1) * (B : Nat) - j * B = B := by
    rw [Nat.succ_mul]
    omega
  unfold genPromptEmbedsExtraHashKeys at hkeys
  unfold blockEmbeds at hlen ⊢
  rw [hsub] at hkeys
  cases hr : r.promptEmbeds with
  | none =>
    cases hr' : r'.promptEmbeds with
    | none => rfl
    | some e' =>
      rw [hr, hr'] at hkeys
      cases hkeys
  | some e =>
    cases hr' : r'.promptEmbeds with
    | none =>
      rw [hr, hr'] at hkeys
      cases hkeys
    | some e' =>
      rw [hr, hr'] at hkeys hlen
      simp only [Option.map_some, Option.some.injEq] at hlen ⊢
      have hflat := ExtraKey.bytes.inj (List.cons.inj hkeys).1
      have hwidth : ∀ row ∈ (e.rows.drop (j * B)).take B, row.length = e.rowBytes :=
        fun row hrow => e.rows_width row (mem_of_mem_drop (mem_of_mem_take hrow))
      have hwidth' : ∀ row ∈ (e'.rows.drop (j * B)).take B, row.length = e'.rowBytes :=
        fun row hrow => e'.rows_width row (mem_of_mem_drop (mem_of_mem_take hrow))
      -- with no row in the block there is nothing to compare; with one, the widths agree
      rcases Nat.eq_zero_or_pos ((e.rows.drop (j * B)).take B).length with hzero | hpos
      · rw [length_eq_zero_iff.mp hzero,
          length_eq_zero_iff.mp (hlen.symm.trans hzero)]
      · have hmul := congrArg List.length hflat
        rw [length_flatten_of_width hwidth, length_flatten_of_width hwidth', ← hlen] at hmul
        have hw : e.rowBytes = e'.rowBytes := Nat.eq_of_mul_eq_mul_left hpos hmul
        exact flatten_inj_of_width (hw ▸ hwidth) hwidth' hlen hflat

/-- A salt is text and embeddings are bytes, so the end of the tuple can be read. -/
theorem saltKeys_embedsKeys_inj {s e : Nat}
    (h : cacheSaltKeys r s ++ genPromptEmbedsExtraHashKeys r s e =
      cacheSaltKeys r' s ++ genPromptEmbedsExtraHashKeys r' s e) :
    cacheSaltKeys r s = cacheSaltKeys r' s ∧
      genPromptEmbedsExtraHashKeys r s e = genPromptEmbedsExtraHashKeys r' s e := by
  have hsalt : ∀ q : Request, cacheSaltKeys q s = [] ∨ ∃ t, cacheSaltKeys q s = [.str t] := by
    intro q
    unfold cacheSaltKeys
    cases q.cacheSalt with
    | none => exact Or.inl rfl
    | some t =>
      dsimp only
      split
      · exact Or.inr ⟨t, rfl⟩
      · exact Or.inl rfl
  have hembeds : ∀ q : Request, genPromptEmbedsExtraHashKeys q s e = [] ∨
      ∃ b, genPromptEmbedsExtraHashKeys q s e = [.bytes b] := by
    intro q
    unfold genPromptEmbedsExtraHashKeys
    cases q.promptEmbeds with
    | none => exact Or.inl rfl
    | some embeds => exact Or.inr ⟨_, rfl⟩
  rcases hsalt r with h1 | ⟨t, h1⟩ <;> rcases hsalt r' with h2 | ⟨t', h2⟩ <;>
    rcases hembeds r with h3 | ⟨b, h3⟩ <;> rcases hembeds r' with h4 | ⟨b', h4⟩ <;>
    rw [h1, h2, h3, h4] at h <;> simp_all

theorem cacheSalt_eq_of_keys (h : cacheSaltKeys r 0 = cacheSaltKeys r' 0)
    (hsome : r.cacheSalt.isSome = r'.cacheSalt.isSome) : r.cacheSalt = r'.cacheSalt := by
  unfold cacheSaltKeys at h
  cases hr : r.cacheSalt with
  | none =>
    rw [hr] at hsome
    exact (Option.not_isSome_iff_eq_none.mp (by simp [← hsome])).symm
  | some t =>
    cases hr' : r'.cacheSalt with
    | none =>
      rw [hr, hr'] at hsome
      cases hsome
    | some t' =>
      rw [hr, hr'] at h
      by_cases ht : t = "" <;> by_cases ht' : t' = "" <;> simp_all

/-- The same kinds and the same flat tuple: the same keys of every kind. -/
theorem keys_eq_of_flatKeys {B : ℕ+} (hlora : r.loraRequest.isSome = r'.loraRequest.isSome)
    (hitems : (blockItems B r j).length = (blockItems B r' j).length)
    (h : flatKeys B r j = flatKeys B r' j) :
    genLoraExtraHashKeys r = genLoraExtraHashKeys r' ∧ blockItems B r j = blockItems B r' j ∧
      cacheSaltKeys r (j * B) = cacheSaltKeys r' (j * B) ∧
      genPromptEmbedsExtraHashKeys r (j * B) ((j + 1) * B) =
        genPromptEmbedsExtraHashKeys r' (j * B) ((j + 1) * B) := by
  have hlen : (genLoraExtraHashKeys r).length = (genLoraExtraHashKeys r').length := by
    unfold genLoraExtraHashKeys
    cases hr : r.loraRequest <;> cases hr' : r'.loraRequest <;> simp_all
  unfold flatKeys at h
  rw [append_assoc, append_assoc, append_assoc, append_assoc] at h
  obtain ⟨hl, h⟩ := append_inj h hlen
  obtain ⟨hi, h⟩ := append_inj h (by rw [length_map, length_map, hitems])
  obtain ⟨hs, he⟩ := saltKeys_embedsKeys_inj h
  exact ⟨hl, map_injective_iff.mpr (fun _ _ => ExtraKey.str.inj) hi, hs, he⟩

/-- The tokens up to the end of a block, from the tokens of the blocks. -/
theorem take_eq_of_blockTokens {B : ℕ+} {tokens tokens' : List Int}
    (h : ∀ j < i, blockTokens B tokens j = blockTokens B tokens' j) :
    tokens.take (i * B) = tokens'.take (i * B) := by
  induction i with
  | zero => simp
  | succ i ih =>
    have hblock := h i (Nat.lt_succ_self i)
    unfold blockTokens at hblock
    rw [Nat.succ_mul, take_add, take_add, ih (fun j hj => h j (by omega)), hblock]

theorem sameContents_of_sameFlatKeys {B : ℕ+} (hkinds : SameKinds B r r' i)
    (hflat : SameFlatKeys B r r' i) :
    SameContents B r r' i := by
  have hkeys := fun j hj =>
    keys_eq_of_flatKeys hkinds.lora (hkinds.items j hj) (hflat j hj).2
  obtain ⟨hlora, -, hsalt, -⟩ := hkeys 0 (Nat.zero_le i)
  rw [Nat.zero_mul] at hsalt
  refine ⟨take_eq_of_blockTokens (fun j hj => (hflat j (by omega)).1),
    fun j hj => (hkeys j hj).2.1, ?_, cacheSalt_eq_of_keys hsalt hkinds.salt,
    fun j hj => blockEmbeds_eq_of_keys (hkeys j hj).2.2.2 (hkinds.embeds j hj)⟩
  unfold genLoraExtraHashKeys at hlora
  cases hr : r.loraRequest <;> cases hr' : r'.loraRequest <;> simp_all

/-! ### From hashes to flat keys -/

/-- The multimodal keys of the blocks up to `i` are those of the items that overlap them: the
placeholders are in order, and no call restarts the scan at a wrong place. -/
def MmKeysInOrder (B : ℕ+) (fs : List MultiModalFeatureSpec) (lens : List Nat) (i : Nat) :
    Prop :=
  WellPlaced fs ∧ ∀ j ≤ i, 0 < callStart B 0 lens j →
    (∀ f ∈ fs.dropLast, ¬ Overlaps (j * B) ((j + 1) * B) f) ∧
      (j = callStart B 0 lens j → ∀ last ∈ fs.getLast?, last.endPos ≠ j * B)

theorem mmKeysAt_of_inOrder {B : ℕ+} {fs : List MultiModalFeatureSpec} {lens : List Nat}
    (h : MmKeysInOrder B fs lens i) (hj : j ≤ i) :
    mmKeysAt B fs (callStart B 0 lens j) j = overlapKeys fs (j * B) ((j + 1) * B) := by
  rcases Nat.eq_zero_or_pos (callStart B 0 lens j) with hzero | hpos
  · rw [hzero]
    exact mmKeysAt_zero_of_wellPlaced B h.1 j
  · have hagrees := (restartAgrees_iff_of_wellPlaced B h.1 hpos).mpr (h.2 j hj hpos)
    exact Eq.trans hagrees (mmKeysAt_zero_of_wellPlaced B h.1 j)

section Sound
variable {noneHash : BlockHash} {hashFn : HashInput → BlockHash} {B : ℕ+}

variable {i : Nat}

/-- Equal hashes of block `i` have equal keys and tokens on all blocks up to `i`. Induction
down the chain: the parents are hashes of blocks with the same index. -/
theorem chain_inj (hinj : Function.Injective hashFn) (hne : ∀ x, hashFn x ≠ [])
    {keys keys' : Nat → Option (List ExtraKey)} {tokens tokens' : List Int}
    (h : chain noneHash hashFn B keys tokens i = chain noneHash hashFn B keys' tokens' i) :
    ∀ j ≤ i, blockTokens B tokens j = blockTokens B tokens' j ∧ keys j = keys' j := by
  induction i with
  | zero =>
    have hinput := HashInput.mk.inj (hinj h)
    intro j hj
    obtain rfl := Nat.le_zero.mp hj
    exact hinput.2
  | succ i ih =>
    have hinput := HashInput.mk.inj (hinj h)
    have hchain : ∀ ks ts, chain noneHash hashFn B ks ts i ≠ [] := by
      intro ks ts
      rw [chain_eq]
      exact hne _
    have hparent := hinput.1
    dsimp only at hparent
    rw [if_neg (hchain _ _), if_neg (hchain _ _)] at hparent
    intro j hj
    rcases Nat.lt_or_ge i j with hlt | hge
    · obtain rfl : j = i + 1 := by omega
      exact hinput.2
    · exact ih hparent j hge

/-- The keys of the chain of a request, in terms of its flat keys. -/
theorem callKeys_eq_flatKeys {r : Request} {lens : List Nat} {j : Nat}
    (h : MmKeysInOrder B r.mmFeatures lens i) (hj : j ≤ i) :
    callKeys B r (callStart B 0 lens j) j =
      if flatKeys B r j = [] then none else some (flatKeys B r j) := by
  have hmm := mmKeysAt_of_inOrder h hj
  unfold mmKeysAt overlapKeys at hmm
  unfold callKeys extraKeysWith flatKeys blockItems
  rw [hmm, map_map]
  rfl

/-- Two requests whose scans are in order have the same hash of block `i` exactly when they
have the same tokens and flat keys up to it. -/
theorem chain_eq_iff_sameFlatKeys (hinj : Function.Injective hashFn) (hne : ∀ x, hashFn x ≠ [])
    {r r' : Request} {lens lens' : List Nat} (h : MmKeysInOrder B r.mmFeatures lens i)
    (h' : MmKeysInOrder B r'.mmFeatures lens' i) :
    chain noneHash hashFn B (fun j => callKeys B r (callStart B 0 lens j) j) r.allTokenIds i =
      chain noneHash hashFn B (fun j => callKeys B r' (callStart B 0 lens' j) j) r'.allTokenIds i ↔
      SameFlatKeys B r r' i := by
  constructor
  · intro heq j hj
    obtain ⟨htok, hkeys⟩ := chain_inj hinj hne heq j hj
    rw [callKeys_eq_flatKeys h hj, callKeys_eq_flatKeys h' hj,
      none_if_nil_inj] at hkeys
    exact ⟨htok, hkeys⟩
  · intro hflat
    refine chain_congr (fun j hj => ?_) (fun j hj => (hflat j hj).1)
    rw [callKeys_eq_flatKeys h hj, callKeys_eq_flatKeys h' hj, (hflat j hj).2]

/-- The hash of block `i` of a request that was built and then extended. -/
theorem blockHashes_getElem? {args : Request.InitArgs} {r0 : Request}
    (hinit : Request.init args (some (requestBlockHasher noneHash hashFn B)) = .ok r0)
    (chunks : List (List Int))
    (hi : i < (appendChunks noneHash hashFn B r0 chunks).blockHashes.length) :
    let r := appendChunks noneHash hashFn B r0 chunks
    r.blockHashes[i]? = some (chain noneHash hashFn B (fun j => callKeys B r
        (callStart B 0 (r0.numTokens :: chunks.map List.length) j) j) r.allTokenIds i) := by
  intro r
  obtain ⟨r1, n, -, -, hmm, hlora, hsalt, hembeds, hr⟩ := init_eq_ok hinit
  have hchain := (ChainOf.init r0 hinit (by rw [hr]; exact hmm.symm) (by rw [hr]; exact hlora.symm)
    (by rw [hr]; exact hsalt.symm) (by rw [hr]; exact hembeds.symm)).appendChunks chunks
  have hhashes := hchain.hashes_eq
  have hi' : i < (r0.allTokenIds ++ chunks.flatten).length / B := by
    rw [hhashes, length_map, length_range] at hi
    exact hi
  show (appendChunks noneHash hashFn B r0 chunks).blockHashes[i]? = _
  rw [hhashes, List.getElem?_map, List.getElem?_range hi', hchain.tokens_eq]
  refine congrArg some (chain_congr (fun j _ => ?_) (fun _ _ => rfl))
  exact callKeys_congr hchain.mmFeatures_eq.symm hchain.loraRequest_eq.symm
    hchain.cacheSalt_eq.symm hchain.promptEmbeds_eq.symm _ _

/-- Equal hashes of block `i` give equal contents exactly when the two requests have the same
kinds of keys up to block `i`, or when their tokens or flat keys differ. -/
theorem blockHash_sound_iff (hinj : Function.Injective hashFn) (hne : ∀ x, hashFn x ≠ [])
    (args args' : Request.InitArgs) (r₀ r₀' : Request)
    (hinit : Request.init args (some (requestBlockHasher noneHash hashFn B)) = .ok r₀)
    (hinit' : Request.init args' (some (requestBlockHasher noneHash hashFn B)) = .ok r₀')
    (chunks chunks' : List (List Int)) (r r' : Request)
    (hr : r = appendChunks noneHash hashFn B r₀ chunks)
    (hr' : r' = appendChunks noneHash hashFn B r₀' chunks') (i : Nat)
    (hi : i < r.blockHashes.length) (hi' : i < r'.blockHashes.length)
    (hmm : MmKeysInOrder B r.mmFeatures (r₀.numTokens :: chunks.map List.length) i)
    (hmm' : MmKeysInOrder B r'.mmFeatures (r₀'.numTokens :: chunks'.map List.length) i) :
    (r.blockHashes[i]? = r'.blockHashes[i]? → SameContents B r r' i) ↔
      SameKinds B r r' i ∨ ¬ SameFlatKeys B r r' i := by
  have hhash : r.blockHashes[i]? = r'.blockHashes[i]? ↔ SameFlatKeys B r r' i := by
    subst hr hr'
    rw [blockHashes_getElem? hinit chunks hi, blockHashes_getElem? hinit' chunks' hi',
      Option.some.injEq]
    exact chain_eq_iff_sameFlatKeys hinj hne hmm hmm'
  rw [hhash]
  constructor
  · intro hsound
    by_cases hflat : SameFlatKeys B r r' i
    · exact Or.inl (hsound hflat).sameKinds
    · exact Or.inr hflat
  · rintro (hkinds | hdiff) hflat
    · exact sameContents_of_sameFlatKeys hkinds hflat
    · exact absurd hflat hdiff

end Sound

/-! ### A salt, and a LoRA adapter of the same name -/

theorem injectiveHash_ne_nil (x : HashInput) : injectiveHash x ≠ [] := cons_ne_nil _ _

/-- A prompt of one block of two tokens, with a cache salt and maybe a LoRA adapter. -/
def saltedArgs (salt : Option String) (lora : Option LoRARequest) : Request.InitArgs :=
  { requestId := "r"
    promptTokenIds := some [1, 2]
    samplingParams := some { maxTokens := 4 }
    loraRequest := lora
    cacheSalt := salt }

/-- The adapter `x`. -/
def adapterX : LoRARequest := { loraName := "x", loraIntId := 1, loraIntId_pos := by decide }

/-- Both requests use the adapter and carry a salt: then equal hashes mean equal salts. -/
theorem blockHash_sound_two_salts : ∃ r r' : Request,
      Request.init (saltedArgs (some "a") (some adapterX))
        (some (requestBlockHasher [] injectiveHash 2)) = .ok r ∧
      Request.init (saltedArgs (some "b") (some adapterX))
        (some (requestBlockHasher [] injectiveHash 2)) = .ok r' ∧
      0 < r.blockHashes.length ∧ 0 < r'.blockHashes.length ∧
      (r.blockHashes[0]? = r'.blockHashes[0]? → SameContents 2 r r' 0) := by
  refine ⟨_, _, rfl, rfl, by decide, by decide, ?_⟩
  refine (blockHash_sound_iff (B := 2) injectiveHash_injective injectiveHash_ne_nil
    (saltedArgs (some "a") (some adapterX)) (saltedArgs (some "b") (some adapterX)) _ _ rfl rfl
    [] [] _ _ rfl rfl 0 (by decide) (by decide) ?_ ?_).mpr (Or.inl ?_)
  · refine ⟨by decide, fun j hj hpos => ?_⟩
    obtain rfl := Nat.le_zero.mp hj
    exact absurd hpos (by decide)
  · refine ⟨by decide, fun j hj hpos => ?_⟩
    obtain rfl := Nat.le_zero.mp hj
    exact absurd hpos (by decide)
  · exact ⟨fun j hj => rfl, rfl, rfl, fun j hj => rfl⟩

/-- The two requests give the hash function the same input, whatever it is. -/
theorem requestBlockHasher_salt_eq_lora (hashFn : HashInput → BlockHash) :
    requestBlockHasher [] hashFn 2
        (Request.beforeHashing (saltedArgs (some "x") none) 4 .waiting 2) =
      requestBlockHasher [] hashFn 2
        (Request.beforeHashing (saltedArgs none (some adapterX)) 4 .waiting 2) := by
  rfl

/-- A request with the salt `x` and a request with the LoRA adapter `x` have the same hash of
their first block, under a hash function without collisions. -/
theorem blockHash_salt_eq_lora : ∃ r r' : Request,
      Function.Injective injectiveHash ∧
      Request.init (saltedArgs (some "x") none)
        (some (requestBlockHasher [] injectiveHash 2)) = .ok r ∧
      Request.init (saltedArgs none (some adapterX))
        (some (requestBlockHasher [] injectiveHash 2)) = .ok r' ∧
      0 < r.blockHashes.length ∧ 0 < r'.blockHashes.length ∧
      r.blockHashes[0]? = r'.blockHashes[0]? ∧ ¬ SameContents 2 r r' 0 := by
  refine ⟨_, _, injectiveHash_injective, rfl, rfl, by decide, by decide, ?_, fun h => ?_⟩
  · exact congrArg (fun hashes => hashes[0]?) (requestBlockHasher_salt_eq_lora injectiveHash)
  · cases h.cacheSalt

end Vllm.Proofs.Core
