import Vllm.Proofs.Core.HashChain
import Mathlib.Logic.Encodable.Basic
import Mathlib.Logic.Equiv.List

/-!
# `Vllm.Proofs.Core.HashPath`: do the block hashes depend on how the tokens came in?

A request hashes the full blocks of its prompt when it is built, and further blocks as output
tokens are appended. The hasher starts every call but the first at the *last* multimodal
item, so the hashes can differ from those of one call over the whole sequence.

* `RestartAgrees` compares, for one block, the keys of a call that restarts with the keys of
  the one call.
* `WellPlaced` says that the placeholders are nonempty, in order and disjoint, and
  `restartAgrees_iff_of_wellPlaced` what the comparison comes to then.
* `blockHashes_append_eq_iff` is the exact condition for the two lists of hashes to be equal.
-/

set_option autoImplicit false

namespace Vllm.Proofs.Core

open Vllm.Lib Vllm.V1 Vllm.V1.Core List

/-! ### Placeholders that are in order -/

/-- The block `[s, e)` contains a position of the item. -/
def Overlaps (s e : Nat) (f : MultiModalFeatureSpec) : Prop :=
  f.mmPosition.offset < e ∧ s < f.endPos

instance (s e : Nat) (f : MultiModalFeatureSpec) : Decidable (Overlaps s e f) :=
  inferInstanceAs (Decidable (_ ∧ _))

/-- The placeholders are nonempty, in order and disjoint. -/
def WellPlaced (fs : List MultiModalFeatureSpec) : Prop :=
  (∀ f ∈ fs, 0 < f.mmPosition.length) ∧
    fs.Pairwise (fun f g => f.endPos ≤ g.mmPosition.offset)

instance (fs : List MultiModalFeatureSpec) : Decidable (WellPlaced fs) :=
  inferInstanceAs (Decidable (_ ∧ _))

/-- The identifiers of the items that overlap a block, as hash keys. -/
def overlapKeys (fs : List MultiModalFeatureSpec) (s e : Nat) : List ExtraKey :=
  (fs.filter (Overlaps s e)).map (fun f => .str f.identifier)

variable {f : MultiModalFeatureSpec} {fs : List MultiModalFeatureSpec}

theorem WellPlaced.tail (h : WellPlaced (f :: fs)) : WellPlaced fs :=
  ⟨fun g hg => h.1 g (mem_cons_of_mem f hg), (pairwise_cons.mp h.2).2⟩

theorem finishPos_eq_endPos (h : 0 < f.mmPosition.length) : finishPos f = f.endPos := by
  unfold finishPos MultiModalFeatureSpec.endPos
  omega

variable {s e : Nat}

/-- No item that starts at the end of the block or later overlaps the block. -/
theorem overlapKeys_eq_nil (h : ∀ f ∈ fs, ¬ Overlaps s e f) : overlapKeys fs s e = [] := by
  unfold overlapKeys
  rw [map_eq_nil_iff, filter_eq_nil_iff]
  intro f hf
  simpa using h f hf

/-- The scan over items none of which ends before the block. -/
theorem mmScan_eq_overlapKeys (hwell : WellPlaced fs) (hopen : ∀ f ∈ fs, s < f.endPos) :
    (mmScan s e fs 0).1 = overlapKeys fs s e := by
  induction fs with
  | nil => rfl
  | cons f rest ih =>
    have hord := (pairwise_cons.mp hwell.2).1
    have hs : s < f.endPos := hopen f mem_cons_self
    have hrest := ih hwell.tail (fun g hg => hopen g (mem_cons_of_mem f hg))
    have hlen : ∀ g ∈ f :: rest, 0 < g.mmPosition.length := hwell.1
    simp only [mmScan]
    by_cases hstart : f.mmPosition.offset < e
    · have hov : Overlaps s e f := ⟨hstart, hs⟩
      have hkeys : overlapKeys (f :: rest) s e = .str f.identifier :: overlapKeys rest s e := by
        unfold overlapKeys
        rw [filter_cons_of_pos (by simpa using hov), map_cons]
      rw [if_pos hstart, if_neg (by omega), hkeys]
      by_cases hend : f.endPos ≤ e
      · rw [if_pos hend]
        show ExtraKey.str f.identifier :: (mmScan s e rest (0 + 1)).1 = _
        rw [mmScan_fst, hrest]
      · -- the items after this one start past the end of the block
        rw [if_neg hend, overlapKeys_eq_nil]
        intro g hg hov'
        have hle := hord g hg
        have hlt := hov'.1
        omega
    · rw [if_neg hstart, overlapKeys_eq_nil]
      intro g hg hov
      have hlt := hov.1
      rcases mem_cons.mp hg with rfl | hg
      · omega
      · have hle := hord g hg
        have hpos := hlen f mem_cons_self
        unfold MultiModalFeatureSpec.endPos at hle
        omega

/-- Dropping the items that end before the block leaves the items that reach into it or
follow it, and loses no overlap. -/
theorem dropWhile_finishPos (hwell : WellPlaced fs) : WellPlaced (fs.dropWhile (finishPos · ≤ s)) ∧
      (∀ f ∈ fs.dropWhile (finishPos · ≤ s), s < f.endPos) ∧
      overlapKeys (fs.dropWhile (finishPos · ≤ s)) s e = overlapKeys fs s e := by
  induction fs with
  | nil => exact ⟨hwell, (fun f hf => by cases hf), rfl⟩
  | cons f rest ih =>
    have hfin := finishPos_eq_endPos (hwell.1 f mem_cons_self)
    by_cases hend : f.endPos ≤ s
    · rw [dropWhile_cons_of_pos (by simpa [hfin] using hend)]
      obtain ⟨hw, hopen, hkeys⟩ := ih hwell.tail
      refine ⟨hw, hopen, hkeys.trans ?_⟩
      have hno : ¬ Overlaps s e f := fun h => absurd h.2 (by omega)
      unfold overlapKeys
      rw [filter_cons_of_neg (by simpa using hno)]
    · rw [dropWhile_cons_of_neg (by simpa [hfin] using hend)]
      refine ⟨hwell, fun g hg => ?_, rfl⟩
      rcases mem_cons.mp hg with rfl | hg
      · omega
      · have hle := (pairwise_cons.mp hwell.2).1 g hg
        have hge : g.mmPosition.offset ≤ g.endPos := Nat.le_add_right _ _
        omega

/-! ### The keys of one call, and of a call that restarts -/

/-- The multimodal keys of block `i` in a call that hashes the blocks from `b` on. -/
def mmKeysAt (B : ℕ+) (fs : List MultiModalFeatureSpec) (b i : Nat) : List ExtraKey :=
  blockKeys fs (callItems B fs b i) (i * B) ((i + 1) * B)

/-- Block `i` gets the same keys from a call that starts with block `b` as from one call
over all blocks. -/
def RestartAgrees (B : ℕ+) (fs : List MultiModalFeatureSpec) (b i : Nat) : Prop :=
  mmKeysAt B fs b i = mmKeysAt B fs 0 i

instance (B : ℕ+) (fs : List MultiModalFeatureSpec) (b i : Nat) :
    Decidable (RestartAgrees B fs b i) := inferInstanceAs (Decidable (_ = _))

variable {init : List MultiModalFeatureSpec} {last : MultiModalFeatureSpec}

theorem endPos_le_of_wellPlaced (hwell : WellPlaced (init ++ [last])) :
    ∀ f ∈ init, f.endPos ≤ last.mmPosition.offset := by
  intro f hf
  exact (pairwise_append.mp hwell.2).2.2 f hf last mem_cons_self

/-- One call gives a block the identifiers of the items that overlap it. -/
theorem mmKeysAt_zero_of_wellPlaced (B : ℕ+) (hwell : WellPlaced fs) (i : Nat) :
    mmKeysAt B fs 0 i = overlapKeys fs (i * B) ((i + 1) * B) := by
  have hitems : WellPlaced (callItems B fs 0 i) ∧
      (∀ f ∈ callItems B fs 0 i, i * B < f.endPos) ∧
      overlapKeys (callItems B fs 0 i) (i * B) ((i + 1) * B) =
        overlapKeys fs (i * B) ((i + 1) * B) := by
    unfold callItems
    by_cases hi : i = 0
    · subst hi
      refine ⟨hwell, fun f hf => ?_, rfl⟩
      have hpos := hwell.1 f hf
      unfold MultiModalFeatureSpec.endPos
      omega
    · simp only [if_true, if_neg hi]
      exact dropWhile_finishPos hwell
  unfold mmKeysAt blockKeys
  rw [← hitems.2.2]
  cases hlast : fs.getLast? with
  | none =>
    obtain rfl := List.getLast?_eq_none_iff.mp hlast
    rw [overlapKeys_eq_nil (fun f hf => ?_)]
    unfold callItems at hf
    split at hf <;> simp at hf
  | some last =>
    obtain ⟨init, rfl⟩ := List.getLast?_eq_some_iff.mp hlast
    dsimp only
    split
    · -- every item ends before the last one does, so none reaches the block
      rename_i hdone
      rw [hitems.2.2, overlapKeys_eq_nil]
      intro f hf hov
      have hend := hov.2
      rcases mem_append.mp hf with hf | hf
      · have hle := endPos_le_of_wellPlaced hwell f hf
        have hge : last.mmPosition.offset ≤ last.endPos := Nat.le_add_right _ _
        omega
      · obtain rfl := mem_singleton.mp hf
        omega
    · exact mmScan_eq_overlapKeys hitems.1 hitems.2.1

/-- The scan over one item takes an item that ends where the block starts for an overlap. -/
theorem mmScan_singleton (s e : Nat) (f : MultiModalFeatureSpec) : (mmScan s e [f] 0).1 =
      if f.mmPosition.offset < e ∧ s ≤ f.endPos then [.str f.identifier] else [] := by
  simp only [mmScan]
  by_cases hstart : f.mmPosition.offset < e
  · by_cases hpast : f.endPos < s
    · rw [if_pos hstart, if_pos hpast, if_neg (by omega)]
    · have hov : f.mmPosition.offset < e ∧ s ≤ f.endPos := ⟨hstart, Nat.not_lt.mp hpast⟩
      rw [if_pos hstart, if_neg hpast, if_pos hov]
      split <;> rfl
  · rw [if_neg hstart, if_neg (fun h => hstart h.1)]

/-- A call that restarts gives a block the identifier of the last item, also when the item
ends exactly where the first block of the call starts. -/
theorem mmKeysAt_restart (B : ℕ+) (hpos : 0 < last.mmPosition.length) {b i : Nat} (hb : 0 < b) :
    mmKeysAt B (init ++ [last]) b i =
      if Overlaps (i * B) ((i + 1) * B) last ∨ (i = b ∧ last.endPos = i * B)
      then [.str last.identifier] else [] := by
  have hB := B.pos
  have hnext : (i + 1) * (B : Nat) = i * B + B := Nat.succ_mul i B
  have hlast : (init ++ [last]).getLast? = some last := by simp
  have hdrop : (init ++ [last]).drop ((init ++ [last]).length - 1) = [last] := by simp
  have hoff : last.mmPosition.offset < last.endPos := Nat.lt_add_of_pos_right hpos
  have hfin := finishPos_eq_endPos hpos
  unfold mmKeysAt blockKeys callItems
  simp only [hlast, if_neg (show b ≠ 0 by omega), hdrop]
  generalize hs : i * (B : Nat) = s at *
  rw [hnext]
  unfold Overlaps
  by_cases hdone : last.endPos < s
  · rw [if_pos hdone, if_neg (by omega)]
  · rw [if_neg hdone]
    by_cases hib : i = b
    · rw [if_pos hib, mmScan_singleton]
      exact if_congr (by omega) rfl rfl
    · rw [if_neg hib]
      by_cases hend : last.endPos ≤ s
      · rw [dropWhile_cons_of_pos (by simpa [hfin] using hend), if_neg (by omega)]
        rfl
      · rw [dropWhile_cons_of_neg (by simpa [hfin] using hend), mmScan_singleton]
        exact if_congr (by omega) rfl rfl

/-- For placeholders in order: the restart is right for block `i` when no item but the last
overlaps the block, and the last item does not end where the first block of the call
starts. -/
theorem restartAgrees_iff_of_wellPlaced (B : ℕ+) (hwell : WellPlaced fs) {b i : Nat} (hb : 0 < b) :
    RestartAgrees B fs b i ↔ (∀ f ∈ fs.dropLast, ¬ Overlaps (i * B) ((i + 1) * B) f) ∧
        (i = b → ∀ last ∈ fs.getLast?, last.endPos ≠ i * B) := by
  unfold RestartAgrees
  rw [mmKeysAt_zero_of_wellPlaced B hwell]
  rcases eq_nil_or_concat' fs with rfl | ⟨init, last, rfl⟩
  · simp [mmKeysAt, blockKeys, overlapKeys]
  · have hpos : 0 < last.mmPosition.length := hwell.1 last (by simp)
    have hend := endPos_le_of_wellPlaced hwell
    have hsplit : overlapKeys (init ++ [last]) (i * B) ((i + 1) * B) =
        overlapKeys init (i * B) ((i + 1) * B) ++
          (if Overlaps (i * B) ((i + 1) * B) last then [.str last.identifier] else []) := by
      unfold overlapKeys
      rw [filter_append, map_append]
      congr 1
      split
      · rename_i hov
        rw [filter_cons_of_pos (by simpa using hov)]
        rfl
      · rename_i hov
        rw [filter_cons_of_neg (by simpa using hov)]
        rfl
    rw [mmKeysAt_restart B hpos hb, hsplit]
    simp only [dropLast_concat, List.getLast?_concat, Option.mem_def,
      Option.some.injEq, forall_eq']
    by_cases hno : ∀ f ∈ init, ¬ Overlaps (i * B) ((i + 1) * B) f
    · rw [overlapKeys_eq_nil hno, nil_append]
      by_cases hbdry : i = b ∧ last.endPos = i * B
      · have hlast : ¬ Overlaps (i * B) ((i + 1) * B) last := fun h => by
          have := h.2
          omega
        rw [if_pos (Or.inr hbdry), if_neg hlast]
        exact ⟨(nofun), fun h => absurd hbdry.2 (h.2 hbdry.1)⟩
      · simp only [hbdry, or_false, true_iff]
        exact ⟨hno, fun hib heq => hbdry ⟨hib, heq⟩⟩
    · -- an earlier item overlaps: its key is missing from the restarted call
      have hkeys : overlapKeys init (i * B) ((i + 1) * B) ≠ [] := by
        intro hnil
        apply hno
        intro f hf hov
        unfold overlapKeys at hnil
        rw [map_eq_nil_iff, filter_eq_nil_iff] at hnil
        exact hnil f hf (by simpa using hov)
      have hbdry : ¬ (i = b ∧ last.endPos = i * B) := by
        rintro ⟨-, heq⟩
        apply hno
        intro f hf hov
        have hle := hend f hf
        have hlt := hov.2
        unfold MultiModalFeatureSpec.endPos at heq
        omega
      simp only [hbdry, or_false]
      constructor
      · intro heq
        have hlen := congrArg List.length heq
        rw [length_append] at hlen
        have hkeys' := length_pos_iff.mpr hkeys
        omega
      · rintro ⟨h, -⟩
        exact absurd h hno

/-! ### Equal hashes -/

/-- The tuple of keys is `None` when it is empty, and this loses nothing. -/
theorem none_if_nil_inj {ks ks' : List ExtraKey} :
    (if ks = [] then none else some ks) = (if ks' = [] then none else some ks') ↔ ks = ks' := by
  by_cases hks : ks = [] <;> by_cases hks' : ks' = [] <;> simp [hks, hks']

theorem extraKeysWith_inj {r : Request} {mm mm' : List ExtraKey} :
    extraKeysWith r mm s e = extraKeysWith r mm' s e ↔ mm = mm' := by
  unfold extraKeysWith
  dsimp only
  rw [none_if_nil_inj, append_left_inj, append_left_inj, append_right_inj]

section Path
variable {noneHash : BlockHash} {hashFn : HashInput → BlockHash} {B : ℕ+}

/-- Two chains over the same tokens are equal when their keys are. -/
theorem map_chain_eq_iff (hinj : Function.Injective hashFn)
    {keys keys' : Nat → Option (List ExtraKey)} {tokens : List Int} (N : Nat) :
    (List.range N).map (chain noneHash hashFn B keys tokens) =
        (List.range N).map (chain noneHash hashFn B keys' tokens) ↔
      ∀ i < N, keys i = keys' i := by
  constructor
  · intro heq i hi
    have hchain := map_inj_left.mp heq i (mem_range.mpr hi)
    rw [chain_eq, chain_eq] at hchain
    exact congrArg HashInput.extraKeys (hinj hchain)
  · intro hkeys
    refine map_congr_left (fun i hi => ?_)
    have hi' := mem_range.mp hi
    exact chain_congr (fun j hj => hkeys j (by omega)) (fun _ _ => rfl)

/-- The hashes after appending the chunks are those of one call over the whole sequence
exactly when the restarts agree, block by block. -/
theorem blockHashes_append_eq_iff_restartAgrees (hinj : Function.Injective hashFn)
    (args : Request.InitArgs) (prompt : List Int) (chunks : List (List Int))
    (r whole : Request)
    (hr : Request.init { args with promptTokenIds := some prompt }
      (some (requestBlockHasher noneHash hashFn B)) = .ok r)
    (hwhole : Request.init { args with promptTokenIds := some (prompt ++ chunks.flatten) }
      (some (requestBlockHasher noneHash hashFn B)) = .ok whole) :
    (appendChunks noneHash hashFn B r chunks).blockHashes = whole.blockHashes ↔
      ∀ i < (prompt ++ chunks.flatten).length / B,
        0 < callStart B 0 (prompt.length :: chunks.map List.length) i →
          RestartAgrees B args.mmFeatures
            (callStart B 0 (prompt.length :: chunks.map List.length) i) i := by
  have hpieces := (ChainOf.init (Request.beforeHashing args 0 .waiting 0) hr
    rfl rfl rfl rfl).appendChunks chunks
  have hone := ChainOf.init (Request.beforeHashing args 0 .waiting 0) hwhole
    rfl rfl rfl rfl
  rw [Request.numTokens, init_allTokenIds rfl hr] at hpieces
  rw [Request.numTokens, init_allTokenIds rfl hwhole] at hone
  rw [hpieces.hashes_eq, hone.hashes_eq, map_chain_eq_iff hinj]
  refine forall_congr' (fun i => imp_congr_right (fun hi => ?_))
  have hstart : callStart B 0 [(prompt ++ chunks.flatten).length] i = 0 := by
    rw [callStart, Nat.zero_add, if_pos hi, Nat.zero_div]
  rw [hstart, singleton_append]
  show extraKeysWith _ _ _ _ = extraKeysWith _ _ _ _ ↔ _
  rw [extraKeysWith_inj]
  constructor
  · exact fun heq _ => heq
  · intro hagrees
    rcases Nat.eq_zero_or_pos
      (callStart B 0 (prompt.length :: chunks.map List.length) i) with hzero | hpos
    · show blockKeys _ (callItems B _
        (callStart B 0 (prompt.length :: chunks.map List.length) i) i) _ _ = _
      rw [hzero]
    · exact hagrees hpos

/-- The hashes after appending the chunks are those of one call over the whole sequence
exactly when the restarts agree on every block that an append completes. For placeholders in
order: when no item but the last overlaps such a block, and the last item does not end where
the first block of an append starts. -/
theorem blockHashes_append_eq_iff (hinj : Function.Injective hashFn)
    (args : Request.InitArgs) (prompt : List Int) (chunks : List (List Int))
    (r whole : Request)
    (hr : Request.init { args with promptTokenIds := some prompt }
      (some (requestBlockHasher noneHash hashFn B)) = .ok r)
    (hwhole : Request.init { args with promptTokenIds := some (prompt ++ chunks.flatten) }
      (some (requestBlockHasher noneHash hashFn B)) = .ok whole) :
    ((appendChunks noneHash hashFn B r chunks).blockHashes = whole.blockHashes ↔
      ∀ i < (prompt ++ chunks.flatten).length / B,
        0 < callStart B 0 (prompt.length :: chunks.map List.length) i →
          RestartAgrees B args.mmFeatures
            (callStart B 0 (prompt.length :: chunks.map List.length) i) i) ∧
    (WellPlaced args.mmFeatures → ∀ b i, 0 < b →
      (RestartAgrees B args.mmFeatures b i ↔
        (∀ f ∈ args.mmFeatures.dropLast, ¬ Overlaps (i * B) ((i + 1) * B) f) ∧
          (i = b → ∀ last ∈ args.mmFeatures.getLast?, last.endPos ≠ i * B))) := by
  exact ⟨blockHashes_append_eq_iff_restartAgrees hinj args prompt chunks r whole hr hwhole,
    fun _ _ _ hb => restartAgrees_iff_of_wellPlaced B ‹_› hb⟩

end Path

/-! ### An injective hash, and two requests -/

/-- A number for an extra key; the two kinds of keys get different numbers. -/
def ExtraKey.code : ExtraKey → List Nat ⊕ List Nat
  | .str s => .inl (s.toList.map Char.toNat)
  | .bytes b => .inr (b.map UInt8.toNat)

/-- A hash function without collisions. -/
def injectiveHash (x : HashInput) : BlockHash :=
  1 :: List.replicate (Encodable.encode (x.parentBlockHash.map UInt8.toNat,
    x.currBlockTokenIds, x.extraKeys.map (List.map ExtraKey.code))) 0

theorem ExtraKey.code_injective : Function.Injective ExtraKey.code := by
  have hchars : Function.Injective (List.map Char.toNat) :=
    map_injective_iff.mpr (fun a b h => Char.toNat_inj.mp h)
  have hbytes : Function.Injective (List.map UInt8.toNat) :=
    map_injective_iff.mpr (fun a b h => UInt8.toNat_inj.mp h)
  intro x y h
  cases x <;> cases y
  · exact congrArg ExtraKey.str (String.toList_inj.mp (hchars (Sum.inl.inj h)))
  · cases h
  · cases h
  · exact congrArg ExtraKey.bytes (hbytes (Sum.inr.inj h))

theorem injectiveHash_injective : Function.Injective injectiveHash := by
  have hbytes : Function.Injective (List.map UInt8.toNat) :=
    map_injective_iff.mpr (fun a b h => UInt8.toNat_inj.mp h)
  have hkeys : Function.Injective (Option.map (List.map ExtraKey.code)) :=
    Option.map_injective (map_injective_iff.mpr ExtraKey.code_injective)
  intro x y h
  have hlen := congrArg List.length h
  simp only [injectiveHash, length_cons, length_replicate] at hlen
  have hcode := Encodable.encode_injective (Nat.succ.inj hlen)
  simp only [Prod.mk.injEq] at hcode
  cases x
  cases y
  simp only [HashInput.mk.injEq]
  exact ⟨hbytes hcode.1, hcode.2.1, hkeys hcode.2.2⟩

/-- A request with two images, at the positions `[4, 5)` and `[5, 6)`. -/
def twoImages : Request.InitArgs :=
  { requestId := "r"
    samplingParams := some { maxTokens := 8 }
    mmFeatures :=
      [ { modality := "image", identifier := "a", mmPosition := { offset := 4, length := 1 } },
        { modality := "image", identifier := "b", mmPosition := { offset := 5, length := 1 } } ] }

/-- Blocks of four tokens. The prompt has eight tokens, so both images lie in blocks that the
construction hashes, and the appends do not change the result. -/
theorem blockHashes_two_images_in_prompt : ∃ r whole : Request,
      Request.init { twoImages with promptTokenIds := some [0, 1, 2, 3, 9, 9, 6, 7] }
        (some (requestBlockHasher [] injectiveHash 4)) = .ok r ∧
      Request.init { twoImages with
          promptTokenIds := some [0, 1, 2, 3, 9, 9, 6, 7, 10, 11, 12, 13] }
        (some (requestBlockHasher [] injectiveHash 4)) = .ok whole ∧
      (appendChunks [] injectiveHash 4 r [[10], [11, 12], [13]]).blockHashes = whole.blockHashes :=
  ⟨_, _, rfl, rfl,
    (blockHashes_append_eq_iff injectiveHash_injective twoImages [0, 1, 2, 3, 9, 9, 6, 7]
      [[10], [11, 12], [13]] _ _ rfl rfl).1.mpr (by decide)⟩

/-- The prompt has seven tokens, so the block with both images is completed by the first
output token: the append hashes it with the second image only. -/
theorem blockHashes_two_images_at_prompt_end : ∃ r whole : Request,
      Request.init { twoImages with promptTokenIds := some [0, 1, 2, 3, 9, 9, 6] }
        (some (requestBlockHasher [] injectiveHash 4)) = .ok r ∧
      Request.init { twoImages with promptTokenIds := some [0, 1, 2, 3, 9, 9, 6, 7] }
        (some (requestBlockHasher [] injectiveHash 4)) = .ok whole ∧
      (appendChunks [] injectiveHash 4 r [[7]]).blockHashes ≠ whole.blockHashes := by
  refine ⟨_, _, rfl, rfl, fun heq => ?_⟩
  have hagrees := (blockHashes_append_eq_iff_restartAgrees injectiveHash_injective twoImages
    [0, 1, 2, 3, 9, 9, 6] [[7]] _ _ rfl rfl).mp heq
  exact absurd hagrees (by decide)

end Vllm.Proofs.Core
