import Mathlib.Tactic.IntervalCases
import Vllm.Proofs.Engine.StopStrings
import Vllm.Reasoning.BasicParsers

/-!
# `Vllm.Proofs.Reasoning.Streaming`: the parts of a stream and of its text

Both methods cut a text at the first `</think>` in it (`cutAt`): the one-shot method the text after
the start token, and the streaming method the text of each chunk that has the end token. A chunk
without it goes to the reasoning before the first chunk that has one and to the content after it. So
the parts agree where one chunk has the end token and no `</think>` is spelled before that chunk
(`stream_eq_cutAt_iff`). Two branches keep a marker in the parts: a first chunk that has the start
token and more but not the end token, and a second chunk with an end token.
-/

set_option autoImplicit false

namespace Vllm.Proofs.Reasoning

open Vllm.V1.Engine Vllm.Reasoning Vllm.Proofs.Engine
open List hiding partition

/-- `<think>`. -/
def startMark : Text := "<think>".toList

/-- `</think>`. -/
def endMark : Text := "</think>".toList

theorem length_startMark : startMark.length = 7 := rfl

theorem length_endMark : endMark.length = 8 := rfl

theorem startMark_ne_nil : startMark ≠ [] := by decide

theorem endMark_ne_nil : endMark ≠ [] := by decide

section Parser
variable (s e : Nat)

@[simp] theorem startToken_eq : (deepSeekR1ReasoningParser s e).startToken = startMark := rfl

@[simp] theorem endToken_eq : (deepSeekR1ReasoningParser s e).endToken = endMark := rfl

@[simp] theorem startTokenId_eq : (deepSeekR1ReasoningParser s e).startTokenId = s := rfl

@[simp] theorem endTokenId_eq : (deepSeekR1ReasoningParser s e).endTokenId = e := rfl

end Parser

variable {text : Text} {i j : Nat}

/-! ### The markers do not overlap -/

theorem getElem?_of_begins {s : Text} {k : Nat} (h : s <+: text.drop i) (hk : k < s.length) :
    text[i + k]? = s[k]? := by
  obtain ⟨rest, hrest⟩ := h
  rw [← List.getElem?_drop, ← hrest, List.getElem?_append_left hk]

/-- A `<` is only at the start of a marker, and what follows it differs. -/
theorem marks_disjoint (hs : startMark <+: text.drop j) (he : endMark <+: text.drop i) :
    i + 8 ≤ j ∨ j + 7 ≤ i := by
  by_contra hover
  have hs0 : text[j]? = some '<' := getElem?_of_begins (k := 0) hs (by decide)
  have he0 : text[i]? = some '<' := getElem?_of_begins (k := 0) he (by decide)
  rcases Nat.lt_trichotomy j i with hlt | rfl | hlt
  · obtain ⟨d, rfl⟩ := Nat.exists_eq_add_of_lt hlt
    have hd := getElem?_of_begins (k := d + 1) hs (by rw [length_startMark]; omega)
    rw [← Nat.add_assoc, he0] at hd
    have : d < 6 := by omega
    interval_cases d <;> exact absurd hd (by decide)
  · have hs1 : text[j + 1]? = some 't' := getElem?_of_begins (k := 1) hs (by decide)
    have he1 : text[j + 1]? = some '/' := getElem?_of_begins (k := 1) he (by decide)
    exact absurd (hs1.symm.trans he1) (by decide)
  · obtain ⟨d, rfl⟩ := Nat.exists_eq_add_of_lt hlt
    have hd := getElem?_of_begins (k := d + 1) he (by rw [length_endMark]; omega)
    rw [← Nat.add_assoc, hs0] at hd
    have : d < 7 := by omega
    interval_cases d <;> exact absurd hd (by decide)

/-! ### A text cut at its first `</think>` -/

/-- What is before the first `</think>`, and what is after it. -/
def cutAt (text : Text) : Text × Text :=
  match pyFind text endMark 0 with
  | some i => (text.take i, text.drop (i + 8))
  | none => (text, [])

theorem cutAt_of_first (h : endMark <+: text.drop i) (hfirst : ∀ j < i, ¬ endMark <+: text.drop j) :
    cutAt text = (text.take i, text.drop (i + 8)) := by
  rw [cutAt, (pyFind_zero_eq_some_iff endMark_ne_nil).mpr ⟨h, hfirst⟩]

theorem cutAt_of_none (h : ∀ i, ¬ endMark <+: text.drop i) : cutAt text = (text, []) := by
  rw [cutAt, (pyFind_zero_eq_none_iff endMark_ne_nil).mpr h]

/-- Where a string occurs, it has a first place. -/
theorem exists_first {s : Text} (hs : s ≠ []) (h : ∃ i, s <+: text.drop i) :
    ∃ i, pyFind text s 0 = some i ∧ s <+: text.drop i ∧ ∀ j < i, ¬ s <+: text.drop j := by
  cases hfind : pyFind text s 0 with
  | none =>
    obtain ⟨i, hi⟩ := h
    exact absurd hi ((pyFind_zero_eq_none_iff hs).mp hfind i)
  | some i => exact ⟨i, rfl, (pyFind_zero_eq_some_iff hs).mp hfind⟩

theorem length_cutAt (h : ∃ i, endMark <+: text.drop i) :
    (cutAt text).1.length + (cutAt text).2.length + 8 = text.length := by
  obtain ⟨i, -, hi, hfirst⟩ := exists_first endMark_ne_nil h
  have hlen : i + 8 ≤ text.length := add_length_le endMark_ne_nil hi
  rw [cutAt_of_first hi hfirst, length_take, length_drop]
  omega

/-! ### The parts of a stream -/

/-- What a message adds to the reasoning and to the content. -/
def partsOf (m : Option DeltaMessage) : Text × Text :=
  ((m.bind DeltaMessage.reasoning).getD [], (m.bind DeltaMessage.content).getD [])

/-- The parts of all messages, put together. -/
def joined (ms : List (Option DeltaMessage)) : Text × Text :=
  (ms.flatMap fun m => (partsOf m).1, ms.flatMap fun m => (partsOf m).2)

/-- What `extract_reasoning` returns, where `None` is an empty text. -/
def oneShot (s e : Nat) (text : Text) : Text × Text :=
  let (reasoning, content) := (deepSeekR1ReasoningParser s e).extractReasoning text
  (reasoning.getD [], content.getD [])

theorem getD_orNone (text : Text) : (orNone text).getD [] = text := by
  unfold orNone
  split
  · next h => rw [h]; rfl
  · rfl

section Stream
variable {decode : Nat → Text} {s e : Nat} {prev c : List Nat} {cs : List (List Nat)}

/-- The parts of a stream from the ids `prev` on. -/
def streamParts (decode : Nat → Text) (s e : Nat) (prev : List Nat) (cs : List (List Nat)) :
    Text × Text :=
  joined (streamFrom (deepSeekR1ReasoningParser s e) decode prev cs)

/-- The text of chunks. -/
def textOf (decode : Nat → Text) (cs : List (List Nat)) : Text := cs.flatten.flatMap decode

@[simp] theorem textOf_nil : textOf decode [] = [] := rfl

@[simp] theorem textOf_cons : textOf decode (c :: cs) = c.flatMap decode ++ textOf decode cs := by
  simp [textOf]

@[simp] theorem textOf_append (xs ys : List (List Nat)) :
    textOf decode (xs ++ ys) = textOf decode xs ++ textOf decode ys := by
  simp [textOf]

theorem occurs_of_mem (hE : decode e = endMark) (h : e ∈ c) :
    ∃ i, endMark <+: (c.flatMap decode).drop i := by
  obtain ⟨xs, ys, rfl⟩ := append_of_mem h
  refine ⟨(xs.flatMap decode).length, ?_⟩
  simp [hE]

/-- A delta is cut at the first marker in it. -/
theorem cut_delta (h : ∃ i, endMark <+: text.drop i) :
    (sliceTo text (find text endMark), text.drop (find text endMark + endMark.length).toNat) =
      cutAt text := by
  obtain ⟨i, hfind, hi, hfirst⟩ := exists_first endMark_ne_nil h
  rw [cutAt_of_first hi hfirst, find, hfind]
  have hnonneg : ¬ ((i : Int) < 0) := by omega
  have hskip : ((i : Int) + endMark.length).toNat = i + 8 := by
    rw [length_endMark]
    omega
  simp only [sliceTo, if_neg hnonneg, Int.toNat_natCast, hskip]

theorem partsOf_step (hE : decode e = endMark) (hfree : s ∉ c) :
    partsOf (deepSeekR1Streaming (deepSeekR1ReasoningParser s e) (c.flatMap decode) prev c) =
      if e ∈ c then cutAt (c.flatMap decode)
      else if e ∈ prev then ([], c.flatMap decode) else (c.flatMap decode, []) := by
  unfold deepSeekR1Streaming BaseThinkingReasoningParser.extractReasoningStreaming
  simp only [startToken_eq, endToken_eq, startTokenId_eq, endTokenId_eq]
  by_cases hend : c = [e]
  · -- The marker is all that the chunk has.
    have hcut : cutAt endMark = ([], []) := by decide
    simp [hend, partsOf, hE, hcut]
  · have hstart : c ≠ [s] := fun h => hfree (h ▸ mem_singleton_self s)
    by_cases he : e ∈ c
    · have hcut := cut_delta (occurs_of_mem hE he)
      by_cases hs : s ∈ prev <;> simp [hend, hstart, he, hs, hfree, partsOf, getD_orNone, ← hcut]
    · by_cases hs : s ∈ prev <;> by_cases he' : e ∈ prev <;>
        simp [hend, hstart, he, hs, he', partsOf, hfree]

theorem streamParts_cons : streamParts decode s e prev (c :: cs) =
    ((partsOf (deepSeekR1Streaming (deepSeekR1ReasoningParser s e) (c.flatMap decode) prev c)).1 ++
        (streamParts decode s e (prev ++ c) cs).1,
      (partsOf (deepSeekR1Streaming (deepSeekR1ReasoningParser s e) (c.flatMap decode) prev c)).2 ++
        (streamParts decode s e (prev ++ c) cs).2) := rfl

theorem streamParts_append (xs ys : List (List Nat)) : streamParts decode s e prev (xs ++ ys) =
    ((streamParts decode s e prev xs).1 ++ (streamParts decode s e (prev ++ xs.flatten) ys).1,
      (streamParts decode s e prev xs).2 ++ (streamParts decode s e (prev ++ xs.flatten) ys).2) := by
  induction xs generalizing prev with
  | nil => simp [streamParts, joined, streamFrom]
  | cons x xs ih =>
    rw [cons_append, streamParts_cons, streamParts_cons, ih, flatten_cons]
    simp only [append_assoc]

/-- One chunk at most has the end token, and no `</think>` is spelled without it or before the chunk
that has it. -/
structure EndsOnce (decode : Nat → Text) (e : Nat) (cs : List (List Nat)) : Prop where
  once : cs.countP (e ∈ ·) ≤ 1
  spelled : (∃ i, endMark <+: (textOf decode cs).drop i) → ∃ c ∈ cs, e ∈ c
  early : ∀ pre c post, cs = pre ++ c :: post → e ∈ c →
    ∀ i, endMark <+: (textOf decode cs).drop i → (textOf decode pre).length ≤ i

variable (hE : decode e = endMark)
include hE

/-- Without an end token all goes to one part. -/
theorem streamParts_noEnd (hfree : ∀ c ∈ cs, s ∉ c) (h : ∀ c ∈ cs, e ∉ c) :
    streamParts decode s e prev cs =
      if e ∈ prev then ([], textOf decode cs) else (textOf decode cs, []) := by
  induction cs generalizing prev with
  | nil => simp [streamParts, joined, streamFrom]
  | cons c cs ih =>
    have hc := h c mem_cons_self
    rw [streamParts_cons, partsOf_step hE (hfree c mem_cons_self), if_neg hc,
      ih (fun c hc => hfree c (mem_cons_of_mem _ hc))
        (fun c hc => h c (mem_cons_of_mem _ hc))]
    by_cases hprev : e ∈ prev <;> simp [hprev, hc]

/-- Where one chunk has the end token, its text is cut. -/
theorem streamParts_once {pre post : List (List Nat)} (hprev : e ∉ prev) (hc : e ∈ c)
    (hfree : ∀ c' ∈ pre ++ c :: post, s ∉ c') (hpre : ∀ c ∈ pre, e ∉ c) (hpost : ∀ c ∈ post, e ∉ c) :
    streamParts decode s e prev (pre ++ c :: post) =
      (textOf decode pre ++ (cutAt (c.flatMap decode)).1,
        (cutAt (c.flatMap decode)).2 ++ textOf decode post) := by
  rw [streamParts_append, streamParts_noEnd hE (fun c' h => hfree c' (by simp [h])) hpre,
    if_neg hprev, streamParts_cons, partsOf_step hE (hfree c (by simp)), if_pos hc,
    streamParts_noEnd hE (fun c' h => hfree c' (by simp [h])) hpost, if_pos (by simp [hc])]
  simp

/-- Every chunk with an end token takes a marker out. -/
theorem length_streamParts (prev : List Nat) (hfree : ∀ c ∈ cs, s ∉ c) :
    (streamParts decode s e prev cs).1.length + (streamParts decode s e prev cs).2.length +
      8 * cs.countP (e ∈ ·) = (textOf decode cs).length := by
  induction cs generalizing prev with
  | nil => simp [streamParts, joined, streamFrom]
  | cons c cs ih =>
    have hih := ih (prev ++ c) fun c hc => hfree c (mem_cons_of_mem _ hc)
    rw [streamParts_cons, partsOf_step hE (hfree c mem_cons_self)]
    simp only [textOf_cons, length_append, countP_cons]
    by_cases hc : e ∈ c
    · have := length_cutAt (occurs_of_mem hE hc)
      simp only [hc, if_pos, decide_true]
      omega
    · by_cases hprev : e ∈ prev <;> simp [hc, hprev] <;> omega

omit hE in
/-- The other chunks do not have the end token. -/
theorem noEnd_of_split {pre post : List (List Nat)} (h : (pre ++ c :: post).countP (e ∈ ·) ≤ 1)
    (hc : e ∈ c) : (∀ c ∈ pre, e ∉ c) ∧ ∀ c ∈ post, e ∉ c := by
  rw [countP_append, countP_cons, if_pos (by simpa using hc)] at h
  constructor
  · simpa using countP_eq_zero.mp (by omega : pre.countP (e ∈ ·) = 0)
  · simpa using countP_eq_zero.mp (by omega : post.countP (e ∈ ·) = 0)

omit hE in
theorem exists_end (h : 0 < cs.countP (e ∈ ·)) : ∃ c ∈ cs, e ∈ c := by
  obtain ⟨c, hmem, hc⟩ := countP_pos_iff.mp h
  exact ⟨c, hmem, of_decide_eq_true hc⟩

/-- The parts of a stream are those of its text just when the condition holds. -/
theorem stream_eq_cutAt_iff (prev : List Nat) (hfree : ∀ c ∈ cs, s ∉ c) (hprev : e ∉ prev) :
    streamParts decode s e prev cs = cutAt (textOf decode cs) ↔ EndsOnce decode e cs := by
  have hlen := length_streamParts hE prev hfree
  constructor
  · intro heq
    rw [heq] at hlen
    by_cases hocc : ∃ i, endMark <+: (textOf decode cs).drop i
    · -- The one-shot side takes one marker out, and the stream one for each chunk with the token.
      have hcut := length_cutAt hocc
      have hone : cs.countP (e ∈ ·) = 1 := by omega
      refine ⟨by omega, fun _ => exists_end (by omega), fun pre c post hsplit hc i hi => ?_⟩
      subst hsplit
      obtain ⟨hpre, hpost⟩ := noEnd_of_split hone.le hc
      obtain ⟨q, -, hq, hfirst⟩ := exists_first endMark_ne_nil hocc
      rw [streamParts_once hE hprev hc hfree hpre hpost, cutAt_of_first hq hfirst] at heq
      have hle := congrArg (fun parts => parts.1.length) heq
      simp only [length_append, length_take] at hle
      have hqi : q ≤ i := Nat.le_of_not_lt fun hlt => hfirst i hlt hi
      omega
    · rw [cutAt_of_none (not_exists.mp hocc)] at hlen
      have hzero : cs.countP (e ∈ ·) = 0 := by
        simp only [length_nil] at hlen
        omega
      refine ⟨by omega, fun h => absurd h hocc, fun _ _ _ _ _ i hi => absurd ⟨i, hi⟩ hocc⟩
  · rintro ⟨honce, hspelled, hearly⟩
    rcases Nat.le_one_iff_eq_zero_or_eq_one.mp honce with hzero | hone
    · have hnone : ∀ c ∈ cs, e ∉ c := by simpa using countP_eq_zero.mp hzero
      have hocc : ¬ ∃ i, endMark <+: (textOf decode cs).drop i := by
        intro h
        obtain ⟨c, hc, he⟩ := hspelled h
        exact hnone c hc he
      rw [streamParts_noEnd hE hfree hnone, if_neg hprev, cutAt_of_none (not_exists.mp hocc)]
    · obtain ⟨c, hmem, hc⟩ := exists_end (by omega : 0 < cs.countP (e ∈ ·))
      obtain ⟨pre, post, rfl⟩ := append_of_mem hmem
      obtain ⟨hpre, hpost⟩ := noEnd_of_split honce hc
      obtain ⟨k, -, hk, hfirst⟩ := exists_first endMark_ne_nil (occurs_of_mem hE hc)
      have hle : k + 8 ≤ (c.flatMap decode).length := add_length_le endMark_ne_nil hk
      have htext : textOf decode (pre ++ c :: post) =
          textOf decode pre ++ (c.flatMap decode ++ textOf decode post) := by simp
      -- In the chunk a marker is at a place just when it is there in the whole text.
      have hshift (j : Nat) (hj : j ≤ k) :
          endMark <+: (textOf decode (pre ++ c :: post)).drop ((textOf decode pre).length + j) ↔
            endMark <+: (c.flatMap decode).drop j := by
        rw [htext, drop_append, drop_of_length_le (by omega), nil_append,
          Nat.add_sub_cancel_left]
        exact prefix_drop_append (by rw [length_endMark]; omega)
      have hfirst' : ∀ j < (textOf decode pre).length + k,
          ¬ endMark <+: (textOf decode (pre ++ c :: post)).drop j := by
        intro j hj hbegins
        obtain ⟨d, rfl⟩ := Nat.exists_eq_add_of_le (hearly pre c post rfl hc j hbegins)
        exact hfirst d (by omega) ((hshift d (by omega)).mp hbegins)
      rw [streamParts_once hE hprev hc hfree hpre hpost,
        cutAt_of_first ((hshift k le_rfl).mpr hk) hfirst', cutAt_of_first hk hfirst, htext,
        take_length_add_append, Nat.add_assoc, drop_length_add_append,
        take_append_of_le_length (by omega), drop_append_of_le_length hle]

omit hE in
/-- The one-shot side cuts what it reads after the start token. -/
theorem oneShot_of_rest {rest : Text} (h : (if (partition text startMark).2.1 ≠ [] then
    (partition text startMark).2.2 else (partition text startMark).1) = rest) :
    oneShot s e text = cutAt rest := by
  unfold oneShot BaseThinkingReasoningParser.extractReasoning
  dsimp only
  rw [startToken_eq, endToken_eq, h]
  unfold cutAt partition
  cases pyFind rest endMark 0 with
  | none => rfl
  | some i => simp [getD_orNone, length_endMark]

omit hE in
theorem oneShot_of_first {a : Nat} (h : startMark <+: text.drop a)
    (hfirst : ∀ j < a, ¬ startMark <+: text.drop j) :
    oneShot s e text = cutAt (text.drop (a + 7)) := by
  refine oneShot_of_rest ?_
  rw [partition, (pyFind_zero_eq_some_iff startMark_ne_nil).mpr ⟨h, hfirst⟩]
  exact if_pos startMark_ne_nil

omit hE in
theorem oneShot_of_none (h : ∀ j, ¬ startMark <+: text.drop j) : oneShot s e text = cutAt text := by
  refine oneShot_of_rest ?_
  rw [partition, (pyFind_zero_eq_none_iff startMark_ne_nil).mpr h]
  exact if_neg (not_not.mpr rfl)

omit hE in
theorem length_cutAt_le : (cutAt text).1.length + (cutAt text).2.length ≤ text.length := by
  by_cases hocc : ∃ i, endMark <+: text.drop i
  · have := length_cutAt hocc
    omega
  · rw [cutAt_of_none (not_exists.mp hocc)]
    simp

/-! ### A start marker that other tokens spell -/

/-- The one-shot side drops what is before the marker, and the stream does not. -/
theorem parts_ne_of_spelled (hfree : ∀ c ∈ cs, s ∉ c) (hprev : e ∉ prev)
    (hstart : ∃ i, startMark <+: (textOf decode cs).drop i) (honce : cs.countP (e ∈ ·) ≤ 1) :
    streamParts decode s e prev cs ≠ oneShot s e (textOf decode cs) := by
  obtain ⟨a, -, ha, hfirst⟩ := exists_first startMark_ne_nil hstart
  have halen : a + 7 ≤ (textOf decode cs).length := add_length_le startMark_ne_nil ha
  rw [oneShot_of_first ha hfirst]
  intro heq
  have hle := @length_cutAt_le ((textOf decode cs).drop (a + 7))
  rw [length_drop] at hle
  have hlen1 := congrArg (fun parts => parts.1.length) heq
  have hlen2 := congrArg (fun parts => parts.2.length) heq
  have htotal := length_streamParts hE prev hfree
  rcases Nat.le_one_iff_eq_zero_or_eq_one.mp honce with hzero | hone
  · omega
  · obtain ⟨c, hmem, hc⟩ := exists_end (by omega : 0 < cs.countP (e ∈ ·))
    obtain ⟨pre, post, rfl⟩ := append_of_mem hmem
    obtain ⟨hpre, hpost⟩ := noEnd_of_split honce hc
    obtain ⟨k, -, hk, hfirst'⟩ := exists_first endMark_ne_nil (occurs_of_mem hE hc)
    have hklen : k + 8 ≤ (c.flatMap decode).length := add_length_le endMark_ne_nil hk
    have hmark : endMark <+:
        (textOf decode (pre ++ c :: post)).drop ((textOf decode pre).length + k) := by
      rw [textOf_append, textOf_cons, drop_length_add_append]
      exact (prefix_drop_append hklen).mpr hk
    rw [streamParts_once hE hprev hc hfree hpre hpost, cutAt_of_first hk hfirst'] at hlen1 hlen2
    have hlen : (textOf decode (pre ++ c :: post)).length =
        (textOf decode pre).length + ((c.flatMap decode).length + (textOf decode post).length) := by
      simp
    simp only [length_append, length_take, length_drop] at hlen1 hlen2
    rcases marks_disjoint ha hmark with hbefore | hafter
    · -- The content of the stream begins before the start marker.
      omega
    · -- The reasoning of the stream ends no earlier, and begins before the start marker.
      obtain ⟨d, hd⟩ := Nat.exists_eq_add_of_le hafter
      have hrest : endMark <+: ((textOf decode (pre ++ c :: post)).drop (a + 7)).drop d := by
        rwa [drop_drop, ← hd]
      obtain ⟨q, -, hq, hqfirst⟩ := exists_first endMark_ne_nil ⟨d, hrest⟩
      have hqd : q ≤ d := Nat.le_of_not_lt fun hlt => hqfirst d hlt hrest
      rw [cutAt_of_first hq hqfirst] at hlen1
      simp only [length_take] at hlen1
      omega

/-! ### A start token -/

omit hE in
/-- After a start marker the end markers are where they are in the rest. -/
theorem endMark_after_start {t : Text} :
    endMark <+: (startMark ++ t).drop i ↔ ∃ j, i = j + 7 ∧ endMark <+: t.drop j := by
  constructor
  · intro h
    have hi : 7 ≤ i := by
      have := marks_disjoint (j := 0) (prefix_append startMark t) h
      omega
    obtain ⟨j, rfl⟩ := Nat.exists_eq_add_of_le' hi
    refine ⟨j, rfl, ?_⟩
    rwa [Nat.add_comm, ← length_startMark, drop_length_add_append] at h
  · rintro ⟨j, rfl, h⟩
    rwa [Nat.add_comm, ← length_startMark, drop_length_add_append]

theorem partsOf_start (hS : decode s = startMark) (hse : s ≠ e) :
    partsOf (deepSeekR1Streaming (deepSeekR1ReasoningParser s e) ((s :: c).flatMap decode) []
      (s :: c)) =
      if c = [] then ([], []) else if e ∈ c then cutAt (c.flatMap decode)
      else (startMark ++ c.flatMap decode, []) := by
  rw [flatMap_cons, hS]
  unfold deepSeekR1Streaming BaseThinkingReasoningParser.extractReasoningStreaming
  by_cases hc : c = []
  · simp [hc, partsOf]
  · by_cases he : e ∈ c
    · obtain ⟨k, -, hk, hfirst⟩ := exists_first endMark_ne_nil (occurs_of_mem hE he)
      have hstart : find (startMark ++ c.flatMap decode) startMark = 0 := by
        rw [find, (pyFind_zero_eq_some_iff (i := 0) startMark_ne_nil).mpr
          ⟨prefix_append .., fun j hj => absurd hj (Nat.not_lt_zero j)⟩]
        rfl
      have hend : find (startMark ++ c.flatMap decode) endMark = (k : Int) + 7 := by
        rw [find, (pyFind_zero_eq_some_iff (i := k + 7) endMark_ne_nil).mpr
          ⟨endMark_after_start.mpr ⟨k, rfl, hk⟩, fun j hj hbegins => ?_⟩]
        · rfl
        · obtain ⟨d, rfl, hd⟩ := endMark_after_start.mp hbegins
          exact hfirst d (by omega) hd
      have hreason : (sliceTo (startMark ++ c.flatMap decode) ((k : Int) + 7)).drop
          startMark.length = (c.flatMap decode).take k := by
        have hstop : ((k : Int) + 7).toNat = startMark.length + k := by
          rw [length_startMark]
          omega
        rw [sliceTo, if_neg (by omega), hstop, take_length_add_append, drop_left]
      have hcontent : (startMark ++ c.flatMap decode).drop
          ((k : Int) + 7 + endMark.length).toNat = (c.flatMap decode).drop (k + 8) := by
        have hskip : ((k : Int) + 7 + endMark.length).toNat = startMark.length + (k + 8) := by
          rw [length_endMark, length_startMark]
          omega
        rw [hskip, drop_length_add_append]
      simp [hc, he, hse.symm, partsOf, hstart, hend, getD_orNone, cutAt_of_first hk hfirst, hreason,
        hcontent]
    · simp [hc, he, hse.symm, partsOf]

omit hE in
/-- The condition for what is after the start token. -/
theorem endsOnce_start_iff (hS : decode s = startMark) (hse : s ≠ e) :
    EndsOnce decode e ((s :: c) :: cs) ↔ EndsOnce decode e (c :: cs) := by
  have htext : textOf decode ((s :: c) :: cs) = startMark ++ textOf decode (c :: cs) := by
    simp [hS]
  have hcount : ((s :: c) :: cs).countP (e ∈ ·) = (c :: cs).countP (e ∈ ·) := by
    simp [countP_cons, hse.symm]
  constructor
  · rintro ⟨honce, hspelled, hearly⟩
    refine ⟨hcount ▸ honce, ?_, ?_⟩
    · rintro ⟨i, hi⟩
      rw [htext] at hspelled
      obtain ⟨c', hc', he⟩ := hspelled ⟨i + 7, endMark_after_start.mpr ⟨i, rfl, hi⟩⟩
      exact exists_end (by rw [← hcount]; exact countP_pos_iff.mpr ⟨c', hc', by simpa using he⟩)
    · intro pre c' post hsplit hc' i hi
      cases pre with
      | nil => exact Nat.zero_le i
      | cons x pre =>
        cases hsplit
        have := hearly ((s :: c) :: pre) c' post rfl hc' (i + 7) (by
          rw [htext]
          exact endMark_after_start.mpr ⟨i, rfl, hi⟩)
        simp only [textOf_cons, flatMap_cons, hS, length_append,
          length_startMark] at this ⊢
        omega
  · rintro ⟨honce, hspelled, hearly⟩
    refine ⟨hcount ▸ honce, ?_, ?_⟩
    · rintro ⟨i, hi⟩
      rw [htext] at hi
      obtain ⟨j, -, hj⟩ := endMark_after_start.mp hi
      obtain ⟨c', hc', he⟩ := hspelled ⟨j, hj⟩
      exact exists_end (by rw [hcount]; exact countP_pos_iff.mpr ⟨c', hc', by simpa using he⟩)
    · intro pre c' post hsplit hc' i hi
      cases pre with
      | nil => exact Nat.zero_le i
      | cons x pre =>
        cases hsplit
        rw [htext] at hi
        obtain ⟨j, rfl, hj⟩ := endMark_after_start.mp hi
        have := hearly (c :: pre) c' post rfl hc' j hj
        simp only [textOf_cons, flatMap_cons, hS, length_append,
          length_startMark] at this ⊢
        omega

/-- When a stream and its text have the same parts. -/
structure Agrees (decode : Nat → Text) (s e : Nat) (chunks : List (List Nat)) : Prop where
  /-- The start token is a chunk, or the end token is in its chunk. -/
  alone : ∀ c rest, chunks = c :: rest → s ∈ c → c = [s] ∨ e ∈ c
  /-- No `<think>` is spelled without the start token. -/
  noStart : s ∉ chunks.flatten → ∀ i, ¬ startMark <+: (textOf decode chunks).drop i
  ends : EndsOnce decode e chunks

/-- The parts of the stream are those of the text just when `Agrees` holds. -/
theorem extract_reasoning_streaming_iff (hS : decode s = startMark) {chunks : List (List Nat)}
    (hne : ∀ c ∈ chunks, c ≠ []) (hfirst : s ∉ chunks.flatten.tail)
    (hspelled : s ∉ chunks.flatten → (∃ i, startMark <+: (textOf decode chunks).drop i) →
      chunks.countP (e ∈ ·) ≤ 1) :
    streamParts decode s e [] chunks = oneShot s e (textOf decode chunks) ↔
      Agrees decode s e chunks := by
  have hse : s ≠ e := by
    rintro rfl
    exact absurd (hS.symm.trans hE) (by decide)
  by_cases hs : s ∈ chunks.flatten
  · -- The start token begins the first chunk.
    obtain ⟨d, rest, rfl, hd, hrest⟩ : ∃ d rest, chunks = (s :: d) :: rest ∧ s ∉ d ∧
        ∀ c ∈ rest, s ∉ c := by
      cases chunks with
      | nil => simp at hs
      | cons c rest =>
        cases c with
        | nil => exact absurd rfl (hne [] mem_cons_self)
        | cons t d =>
          simp only [flatten_cons, cons_append, tail_cons, mem_append,
            mem_flatten, not_or, not_exists, not_and] at hfirst
          obtain rfl : s = t := by
            rcases mem_cons.mp hs with h | h
            · exact h
            · simp only [append_eq, mem_append, mem_flatten] at h
              rcases h with h | ⟨c, hc, h⟩
              · exact absurd h hfirst.1
              · exact absurd h (hfirst.2 c hc)
          exact ⟨d, rest, rfl, hfirst.1, hfirst.2⟩
    have hfree : ∀ c ∈ d :: rest, s ∉ c := by
      simpa [hd] using hrest
    have hshot : oneShot s e (textOf decode ((s :: d) :: rest)) = cutAt (textOf decode (d :: rest)) := by
      rw [oneShot_of_first (a := 0) (by simp [hS]) (fun j hj => absurd hj (Nat.not_lt_zero j))]
      simp [hS, ← length_startMark]
    have hiff := stream_eq_cutAt_iff hE [s] hfree (by simpa using hse.symm)
    rw [hshot]
    by_cases hkeep : d = [] ∨ e ∈ d
    · -- The marker is not kept, so that the chunk is read as if it began after it.
      have hsame : streamParts decode s e [] ((s :: d) :: rest) =
          streamParts decode s e [s] (d :: rest) := by
        rw [streamParts_cons, streamParts_cons, partsOf_start hE hS hse, partsOf_step hE hd]
        rcases hkeep with rfl | he
        · simp [hse.symm]
        · simp [he, ne_nil_of_mem he]
      rw [hsame, hiff, ← endsOnce_start_iff hS hse]
      constructor
      · intro h
        refine ⟨?_, fun hs' => absurd hs hs', h⟩
        rintro c rest' hcons -
        cases hcons
        rcases hkeep with rfl | he
        · exact .inl rfl
        · exact .inr (mem_cons_of_mem _ he)
      · exact Agrees.ends
    · -- The marker is kept: the parts are seven characters too long.
      obtain ⟨hd', he⟩ := not_or.mp hkeep
      constructor
      · intro heq
        have hlen := length_streamParts hE [s] hfree
        rw [streamParts_cons, partsOf_step hE hd] at hlen
        rw [streamParts_cons, partsOf_start hE hS hse, if_neg hd', if_neg he] at heq
        have hlen1 := congrArg (fun parts => parts.1.length) heq
        have hlen2 := congrArg (fun parts => parts.2.length) heq
        simp only [he, if_false, mem_singleton, hse.symm, length_append,
          length_startMark, singleton_append, nil_append] at hlen hlen1 hlen2
        by_cases hocc : ∃ i, endMark <+: (textOf decode (d :: rest)).drop i
        · have := length_cutAt hocc
          omega
        · rw [cutAt_of_none (not_exists.mp hocc)] at hlen1 hlen2
          simp only [length_nil] at hlen1 hlen2
          omega
      · intro h
        rcases h.alone (s :: d) rest rfl mem_cons_self with h | h
        · exact absurd (List.cons.inj h).2 hd'
        · exact absurd h (by simp [hse.symm, he])
  · have hfree : ∀ c ∈ chunks, s ∉ c := fun c hc h => hs (mem_flatten.mpr ⟨c, hc, h⟩)
    by_cases hstart : ∃ i, startMark <+: (textOf decode chunks).drop i
    · constructor
      · intro heq
        exact absurd heq (parts_ne_of_spelled hE hfree not_mem_nil hstart (hspelled hs hstart))
      · intro h
        obtain ⟨i, hi⟩ := hstart
        exact absurd hi (h.noStart hs i)
    · rw [oneShot_of_none (not_exists.mp hstart),
        stream_eq_cutAt_iff hE [] hfree (not_mem_nil)]
      constructor
      · intro h
        refine ⟨fun c rest hcons hc => ?_, fun _ => not_exists.mp hstart, h⟩
        exact absurd hc (hfree c (hcons ▸ mem_cons_self))
      · exact Agrees.ends

end Stream

section Tokens

/-- `<think>`, `</think>` and a letter for each other token. -/
def decodeLetters (id : Nat) : Text :=
  if id = 0 then startMark else if id = 1 then endMark else [Char.ofNat (95 + id)]

/-- The start token is a chunk, and the end token is in a chunk with letters. -/
theorem streaming_start_alone : Agrees decodeLetters 0 1 [[0], [2], [3, 1, 4]] :=
  (extract_reasoning_streaming_iff rfl rfl (by decide) (by decide)
    (fun h => absurd h (by decide))).mp (by decide)

/-- A first chunk that has a letter too: the reasoning begins with the marker. -/
theorem streaming_keeps_marker :
    streamParts decodeLetters 0 1 [] [[0, 2], [1], [3]] = ("<think>a".toList, "b".toList) ∧
      oneShot 0 1 (textOf decodeLetters [[0, 2], [1], [3]]) = ("a".toList, "b".toList) := by
  decide

/-- A second end token: what is before it in its chunk is taken for reasoning. -/
example : streamParts decodeLetters 0 1 [] [[2], [1], [3, 1, 4]] = ("ab".toList, "c".toList) ∧
    oneShot 0 1 (textOf decodeLetters [[2], [1], [3, 1, 4]]) =
      ("a".toList, "b</think>c".toList) := by
  decide

end Tokens

end Vllm.Proofs.Reasoning
