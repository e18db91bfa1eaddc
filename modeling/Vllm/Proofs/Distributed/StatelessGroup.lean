import Vllm.Distributed.Utils
import Vllm.Lib.Run
import Mathlib.Tactic.Linarith

/-!
# `Vllm.Proofs.Distributed.StatelessGroup`: what the ranks get from each other

The key of a message has the destination and the counter of the sender for that destination, and
not the sender. So the store has one place for the `k`-th messages of all ranks to a rank, and it
holds the last of them: `Inv.sends`. A broadcast has its source in the key, and its place is its
own: `Inv.broadcasts`.

`delivered_of_run` is about the runs in which a rank reads the place of its `k`-th message from
another when that other was the last to write it. Then the objects that a rank got from another
are the first ones that the other sent to it. For the broadcasts this is so in every run.

* `objs`: the objects of the exchanges of one kind between two ranks, in order.
* `lastSender`: the rank that made the last of the `k`-th sends to a rank.
* `Effect`, `step_effect`: what one step does, once for all the proofs.
-/

set_option autoImplicit false

namespace Vllm.Proofs.Distributed.ProcessGroup

open Vllm.Lib Vllm.Distributed.ProcessGroup StatelessProcessGroup List

variable {α : Type} {n : Nat}

/-! ### The history -/

section History

/-- The objects of the exchanges of a kind between two ranks, the first one first. -/
def objs (kind : Kind) (rank peer : Nat) : List (Event α) → List (Option α)
  | [] => []
  | e :: log =>
    if e.kind = kind ∧ e.rank = rank ∧ e.peer = peer then objs kind rank peer log ++ [e.obj]
    else objs kind rank peer log

/-- The rank whose `k`-th send to `dst` is the last of the `k`-th sends to `dst`. -/
def lastSender (dst k : Nat) : List (Event α) → Option Nat
  | [] => none
  | e :: log =>
    if e.kind = .send ∧ e.peer = dst ∧ (objs .send e.rank dst log).length = k then some e.rank
    else lastSender dst k log

variable {log : List (Event α)}

theorem objs_cons_self (kind : Kind) (rank peer : Nat) (obj : Option α) :
    objs kind rank peer (⟨kind, rank, peer, obj⟩ :: log) = objs kind rank peer log ++ [obj] :=
  if_pos ⟨rfl, rfl, rfl⟩

theorem objs_cons_of_ne {kind : Kind} {rank peer : Nat} {e : Event α}
    (h : ¬ (e.kind = kind ∧ e.rank = rank ∧ e.peer = peer)) :
    objs kind rank peer (e :: log) = objs kind rank peer log :=
  if_neg h

/-- A new event adds at the end. -/
theorem objs_prefix_cons (kind : Kind) (rank peer : Nat) (e : Event α) :
    objs kind rank peer log <+: objs kind rank peer (e :: log) := by
  rw [objs]
  split
  · exact prefix_append _ _
  · exact prefix_rfl

variable {k : Nat}

/-- What was sent before keeps its number. -/
theorem getElem?_objs_cons {kind : Kind} {rank peer : Nat} (e : Event α)
    (h : k < (objs kind rank peer log).length) :
    (objs kind rank peer (e :: log))[k]? = (objs kind rank peer log)[k]? := by
  obtain ⟨later, hlater⟩ := objs_prefix_cons kind rank peer e
  rw [← hlater, getElem?_append_left h]

theorem lastSender_cons_of_ne {dst : Nat} {e : Event α}
    (h : ¬ (e.kind = .send ∧ e.peer = dst ∧ (objs .send e.rank dst log).length = k)) :
    lastSender dst k (e :: log) = lastSender dst k log :=
  if_neg h

theorem lt_length_of_lastSender {dst s : Nat} (h : lastSender dst k log = some s) :
    k < (objs .send s dst log).length := by
  induction log with
  | nil => cases h
  | cons e log ih =>
    rw [lastSender] at h
    split at h
    · rename_i he
      obtain ⟨hkind, rfl, hlen⟩ := he
      cases h
      rw [objs, if_pos ⟨hkind, rfl, rfl⟩, length_append, hlen]
      exact Nat.lt_succ_self k
    · exact Nat.lt_of_lt_of_le (ih h) (objs_prefix_cons _ _ _ e).length_le

/-- The next object of a list after a first part of it. -/
theorem prefix_concat {β : Type} {xs ys : List β} {y : β} (h : xs <+: ys)
    (hget : ys[xs.length]? = some y) : xs ++ [y] <+: ys := by
  obtain ⟨zs, rfl⟩ := h
  rw [getElem?_append_right (Nat.le_refl _), Nat.sub_self] at hget
  cases zs with
  | nil => cases hget
  | cons z zs =>
    cases hget
    exact ⟨zs, by rw [append_assoc, singleton_append]⟩

end History

/-! ### The keys -/

section Keys

theorem slash_not_mem_repr (k : Nat) : '/' ∉ k.repr.toList := by
  rw [Nat.toList_repr]
  intro h
  exact absurd (Nat.isDigit_of_mem_toDigits (by decide) (Nat.le_refl 10) h) (by decide)

theorem repr_inj {a b : Nat} (h : a.repr.toList = b.repr.toList) : a = b := by
  rw [Nat.toList_repr, Nat.toList_repr] at h
  rw [← Nat.ofDigitChars_ten_toDigits (n := a), h, Nat.ofDigitChars_ten_toDigits]

/-- Numbers with a slash between them can be told apart. -/
theorem slash_inj {a b c d : Nat} (h : a.repr.toList ++ '/' :: b.repr.toList =
    c.repr.toList ++ '/' :: d.repr.toList) : a = c ∧ b = d := by
  have hsplit := (append_eq_append_iff.mp h)
  rcases hsplit with ⟨l, hc, hb⟩ | ⟨l, ha, hd⟩
  · cases l with
    | nil =>
      rw [append_nil] at hc
      exact ⟨(repr_inj hc).symm, repr_inj (List.cons.inj hb).2⟩
    | cons x l =>
      obtain ⟨rfl, -⟩ := List.cons.inj hb
      exact absurd (hc ▸ mem_append_right _ mem_cons_self) (slash_not_mem_repr c)
  · cases l with
    | nil =>
      rw [append_nil] at ha
      exact ⟨repr_inj ha, (repr_inj (List.cons.inj hd).2).symm⟩
    | cons x l =>
      obtain ⟨rfl, -⟩ := List.cons.inj hd
      exact absurd (ha ▸ mem_append_right _ mem_cons_self) (slash_not_mem_repr a)

theorem toList_sendKey (dst k : Nat) :
    (sendKey dst k).toList = "send_to/".toList ++ (dst.repr.toList ++ '/' :: k.repr.toList) := by
  simp [sendKey, toString]

theorem toList_broadcastKey (src k : Nat) : (broadcastKey src k).toList =
    "broadcast_from/".toList ++ (src.repr.toList ++ '/' :: k.repr.toList) := by
  simp [broadcastKey, toString]

@[simp] theorem sendKey_inj {dst k dst' k' : Nat} :
    sendKey dst k = sendKey dst' k' ↔ dst = dst' ∧ k = k' := by
  constructor
  · intro h
    have hlist := congrArg String.toList h
    rw [toList_sendKey, toList_sendKey] at hlist
    exact slash_inj (append_cancel_left hlist)
  · rintro ⟨rfl, rfl⟩
    rfl

@[simp] theorem broadcastKey_inj {src k src' k' : Nat} :
    broadcastKey src k = broadcastKey src' k' ↔ src = src' ∧ k = k' := by
  constructor
  · intro h
    have hlist := congrArg String.toList h
    rw [toList_broadcastKey, toList_broadcastKey] at hlist
    exact slash_inj (append_cancel_left hlist)
  · rintro ⟨rfl, rfl⟩
    rfl

theorem sendKey_ne_broadcastKey (dst k src k' : Nat) : sendKey dst k ≠ broadcastKey src k' := by
  intro h
  have hlist := congrArg String.toList h
  rw [toList_sendKey, toList_broadcastKey] at hlist
  -- The first letters differ.
  exact absurd (List.cons.inj hlist).1 (by decide)

end Keys

/-! ### The calls -/

section Calls
variable {pickle : Pickle α} {g g' : StatelessProcessGroup} {store store' : PyDict String Bytes}
  {now : ℚ} {obj obj' : Option α}

theorem counterOf_eq_ok_iff {counters : PyDict Nat Nat} {i k : Nat} :
    counterOf counters i = .ok k ↔ counters.get? i = some k := by
  unfold counterOf
  cases counters.get? i <;> simp

theorem get?_zeroCounters (worldSize i : Nat) :
    (zeroCounters worldSize).get? i = if i < worldSize then some 0 else none := by
  unfold zeroCounters
  induction worldSize with
  | zero => rfl
  | succ m ih =>
    rw [range_succ, foldl_append, foldl_cons, foldl_nil, PyDict.get?_insert,
      ih]
    by_cases hi : i = m
    · rw [if_pos hi, if_pos (by omega)]
    · rw [if_neg hi]
      by_cases hlt : i < m
      · rw [if_pos hlt, if_pos (by omega)]
      · rw [if_neg hlt, if_neg (by omega)]

/-- No entry of the group is too old. -/
def Fresh (g : StatelessProcessGroup) (now : ℚ) : Prop :=
  ∀ e ∈ g.entries, now - e.2 ≤ g.dataExpirationSeconds

/-- Within the expiration time nothing is deleted. -/
theorem expireData_of_fresh (h : Fresh g now) : g.expireData store now = (g, store) := by
  unfold expireData
  cases hentries : g.entries with
  | nil =>
    rw [expireEntries, ← hentries]
  | cons e entries =>
    have hfirst := h e (hentries ▸ mem_cons_self)
    rw [expireEntries, if_neg (not_lt.mpr hfirst)]
    dsimp only
    rw [← hentries]

theorem sendObj_ok_iff {dst : Nat} (h : Fresh g now) :
    g.sendObj pickle store now obj dst = .ok (g', store') ↔
      ∃ k, g.sendDstCounter.get? dst = some k ∧
        g' = { g with
          sendDstCounter := g.sendDstCounter.insert dst (k + 1)
          entries := g.entries ++ [(sendKey dst k, now)] } ∧
        store' = store.insert (sendKey dst k) (pickle.dumps obj) := by
  unfold sendObj
  rw [expireData_of_fresh h]
  dsimp only
  rw [bind_eq_ok_iff]
  refine exists_congr fun k => ?_
  rw [counterOf_eq_ok_iff]
  refine and_congr_right fun _ => ?_
  constructor
  · intro heq
    cases heq
    exact ⟨rfl, rfl⟩
  · rintro ⟨rfl, rfl⟩
    rfl

theorem loadKey_eq_ok_iff {key : String} : loadKey pickle store key = .ok obj ↔
      ∃ value, store.get? key = some value ∧ pickle.loads value = .ok obj := by
  unfold loadKey storeGet
  cases store.get? key with
  | none => simp
  | some value =>
    cases hload : pickle.loads value <;> simp [hload, Except.mapError]

/-- Where the store has pickled an object, that object is loaded. -/
theorem loadKey_of_dumps {key : String} (h : store.get? key = some (pickle.dumps obj)) :
    loadKey pickle store key = .ok obj' ↔ obj' = obj := by
  rw [loadKey_eq_ok_iff, h]
  constructor
  · rintro ⟨value, hvalue, hload⟩
    cases hvalue
    rw [pickle.loads_dumps] at hload
    exact (Except.ok.inj hload).symm
  · rintro rfl
    exact ⟨_, rfl, pickle.loads_dumps _⟩

variable {src : Nat}

theorem recvObj_ok_iff : g.recvObj pickle store src = .ok (g', obj) ↔
      ∃ k, g.recvSrcCounter.get? src = some k ∧
        loadKey pickle store (sendKey g.rank k) = .ok obj ∧
        g' = { g with recvSrcCounter := g.recvSrcCounter.insert src (k + 1) } := by
  unfold recvObj
  rw [bind_eq_ok_iff]
  refine exists_congr fun k => ?_
  rw [counterOf_eq_ok_iff, bind_eq_ok_iff]
  refine and_congr_right fun _ => ?_
  constructor
  · rintro ⟨_, hload, heq⟩
    cases heq
    exact ⟨hload, rfl⟩
  · rintro ⟨hload, rfl⟩
    exact ⟨_, hload, rfl⟩

/-- The source of a broadcast. -/
theorem broadcastObj_source (h : Fresh g now) (hsrc : g.rank = src) :
    g.broadcastObj pickle store now obj src = .ok ({ g with
          broadcastSendCounter := g.broadcastSendCounter + 1
          entries := g.entries ++ [(broadcastKey src g.broadcastSendCounter, now)] },
        obj, store.insert (broadcastKey src g.broadcastSendCounter) (pickle.dumps obj)) := by
  unfold broadcastObj
  rw [if_pos hsrc, expireData_of_fresh h]
  rfl

/-- The others. -/
theorem broadcastObj_ok_iff (hsrc : g.rank ≠ src) :
    g.broadcastObj pickle store now obj src = .ok (g', obj', store') ↔
      ∃ k, g.broadcastRecvSrcCounter.get? src = some k ∧
        loadKey pickle store (broadcastKey src k) = .ok obj' ∧
        g' = { g with
          broadcastRecvSrcCounter := g.broadcastRecvSrcCounter.insert src (k + 1) } ∧
        store' = store := by
  unfold broadcastObj
  rw [if_neg hsrc, bind_eq_ok_iff]
  refine exists_congr fun k => ?_
  rw [counterOf_eq_ok_iff]
  dsimp only
  rw [bind_eq_ok_iff]
  refine and_congr_right fun _ => ?_
  constructor
  · rintro ⟨_, hload, heq⟩
    obtain ⟨rfl, hrest⟩ := Prod.mk.inj (Except.ok.inj heq)
    cases hrest
    exact ⟨hload, rfl, rfl⟩
  · rintro ⟨hload, rfl, rfl⟩
    exact ⟨_, hload, rfl⟩

end Calls

/-! ### What a step does -/

section Step
variable {pickle : Pickle α} {w w' : World α n} {op : Op α n}

/-- A step makes one exchange, or none. -/
inductive Effect (pickle : Pickle α) (w : World α n) (op : Op α n) (w' : World α n) : Prop where
  | none (hgroups : w'.groups = w.groups) (hstore : w'.store = w.store) (hlog : w'.log = w.log)
  | send (obj : Option α) (dst : Nat) (g : StatelessProcessGroup)
      (hcall : (w.groups op.rank).sendObj pickle w.store op.now obj dst = .ok (g, w'.store))
      (hgroups : w'.groups = Function.update w.groups op.rank g)
      (hlog : w'.log = ⟨.send, op.rank, dst, obj⟩ :: w.log)
  | recv (obj : Option α) (src : Nat) (g : StatelessProcessGroup) (hop : op.call = .recvObj src)
      (hcall : (w.groups op.rank).recvObj pickle w.store src = .ok (g, obj))
      (hgroups : w'.groups = Function.update w.groups op.rank g) (hstore : w'.store = w.store)
      (hlog : w'.log = ⟨.recv, op.rank, src, obj⟩ :: w.log)
  | broadcast (obj out : Option α) (src : Nat) (g : StatelessProcessGroup)
      (hcall : (w.groups op.rank).broadcastObj pickle w.store op.now obj src =
        .ok (g, out, w'.store))
      (hgroups : w'.groups = Function.update w.groups op.rank g)
      (hlog : w'.log = ⟨if (w.groups op.rank).rank = src then .broadcast else .recvBroadcast,
        op.rank, src, out⟩ :: w.log)

theorem Effect.of_broadcastObj {obj out : Option α} {src : Nat} {w1 : World α n}
    (h : w.broadcastObj pickle op.rank op.now obj src = .ok (w1, out))
    (hgroups : w'.groups = w1.groups) (hstore : w'.store = w1.store) (hlog : w'.log = w1.log) :
    Effect pickle w op w' := by
  unfold World.broadcastObj at h
  obtain ⟨⟨g, obj', store⟩, hcall, h⟩ := bind_ok h
  obtain ⟨rfl, rfl⟩ := Prod.mk.inj (Except.ok.inj h)
  exact .broadcast obj obj' src g (by rw [hstore]; exact hcall) hgroups hlog

theorem gatherTurn_effect {t : Gather α}
    (h : w.gatherTurn pickle op.rank op.now t = .ok w') : Effect pickle w op w' := by
  unfold World.gatherTurn at h
  dsimp only at h
  split at h
  · split at h
    · obtain ⟨⟨w1, out⟩, hcall, h⟩ := bind_ok h
      cases h
      exact .of_broadcastObj hcall rfl rfl rfl
    · obtain ⟨⟨w1, out⟩, hcall, h⟩ := bind_ok h
      cases h
      exact .of_broadcastObj hcall rfl rfl rfl
  · cases h
    exact .none rfl rfl rfl

theorem step_effect (h : w.step pickle op = .ok w') : Effect pickle w op w' := by
  unfold World.step at h
  dsimp only at h
  split at h
  · obtain ⟨⟨g, store⟩, hcall, h⟩ := bind_ok h
    cases h
    exact .send _ _ g hcall rfl rfl
  · rename_i src _ hop
    obtain ⟨⟨g, obj⟩, hcall, h⟩ := bind_ok h
    cases h
    exact .recv obj src g hop hcall rfl rfl rfl
  · obtain ⟨⟨w1, out⟩, hcall, h⟩ := bind_ok h
    cases h
    exact .of_broadcastObj hcall rfl rfl rfl
  · cases h
    exact .none rfl rfl rfl
  · exact gatherTurn_effect h
  · cases h

end Step

/-! ### The invariant -/

/-- The calls are within the expiration time of the rank, from `t₀` on. -/
structure Within (t₀ : ℚ) (seconds : Fin n → Nat) (op : Op α n) : Prop where
  after : t₀ ≤ op.now
  within : op.now - t₀ ≤ seconds op.rank

/-- The counters of a rank count its exchanges. -/
structure GroupOk (t₀ : ℚ) (worldSize seconds rank : Nat) (log : List (Event α))
    (g : StatelessProcessGroup) : Prop where
  rank_eq : g.rank = rank
  seconds_eq : g.dataExpirationSeconds = seconds
  sendDst : ∀ dst, g.sendDstCounter.get? dst =
    if dst < worldSize then some (objs .send rank dst log).length else none
  recvSrc : ∀ src, g.recvSrcCounter.get? src =
    if src < worldSize then some (objs .recv rank src log).length else none
  broadcastSend : g.broadcastSendCounter = (objs .broadcast rank rank log).length
  broadcastRecvSrc : ∀ src, g.broadcastRecvSrcCounter.get? src =
    if src < worldSize then some (objs .recvBroadcast rank src log).length else none
  entries : ∀ e ∈ g.entries, t₀ ≤ e.2

section GroupOk
variable {t₀ now : ℚ} {worldSize seconds rank : Nat} {log : List (Event α)}
  {g : StatelessProcessGroup}

theorem GroupOk.fresh (h : GroupOk t₀ worldSize seconds rank log g) (hnow : now - t₀ ≤ seconds) :
    Fresh g now := by
  intro e he
  have := h.entries e he
  rw [h.seconds_eq]
  linarith

/-- The exchanges of the others do not count. -/
theorem GroupOk.other (h : GroupOk t₀ worldSize seconds rank log g) {e : Event α}
    (hne : e.rank ≠ rank) : GroupOk t₀ worldSize seconds rank (e :: log) g := by
  have hobjs : ∀ kind peer, objs kind rank peer (e :: log) = objs kind rank peer log :=
    fun kind peer => objs_cons_of_ne fun he => hne he.2.1
  constructor
  · exact h.rank_eq
  · exact h.seconds_eq
  · intro dst
    rw [hobjs]
    exact h.sendDst dst
  · intro src
    rw [hobjs]
    exact h.recvSrc src
  · rw [hobjs]
    exact h.broadcastSend
  · intro src
    rw [hobjs]
    exact h.broadcastRecvSrc src
  · exact h.entries

variable {counters : PyDict Nat Nat} {k : Nat}

/-- A counter per peer goes up with the exchanges of its kind. -/
theorem counters_insert {kind : Kind} {peer : Nat} {obj : Option α}
    (h : ∀ p, counters.get? p = if p < worldSize then some (objs kind rank p log).length else none)
    (hk : counters.get? peer = some k) (p : Nat) :
    (counters.insert peer (k + 1)).get? p = if p < worldSize then
      some (objs kind rank p (⟨kind, rank, peer, obj⟩ :: log)).length else none := by
  rw [PyDict.get?_insert]
  rw [h] at hk
  split at hk
  · rename_i hpeer
    cases hk
    by_cases hp : p = peer
    · subst hp
      rw [if_pos rfl, if_pos hpeer, objs_cons_self, length_append, length_singleton]
    · rw [if_neg hp, objs_cons_of_ne fun he => hp he.2.2.symm, h]
  · cases hk

/-- Those of the other kinds stay. -/
theorem counters_other {kind kind' : Kind} {peer : Nat} {obj : Option α}
    (h : ∀ p, counters.get? p = if p < worldSize then some (objs kind rank p log).length else none)
    (hne : kind' ≠ kind) (p : Nat) :
    counters.get? p = if p < worldSize then
      some (objs kind rank p (⟨kind', rank, peer, obj⟩ :: log)).length else none := by
  rw [objs_cons_of_ne fun he => hne he.1]
  exact h p

variable (h : GroupOk t₀ worldSize seconds rank log g)
include h

theorem GroupOk.send {dst : Nat} {obj : Option α} (hnow : t₀ ≤ now)
    (hk : g.sendDstCounter.get? dst = some k) :
    GroupOk t₀ worldSize seconds rank (⟨.send, rank, dst, obj⟩ :: log) { g with
      sendDstCounter := g.sendDstCounter.insert dst (k + 1)
      entries := g.entries ++ [(sendKey dst k, now)] } where
  __ := h
  sendDst := counters_insert h.sendDst hk
  recvSrc := counters_other h.recvSrc (by decide)
  broadcastSend := by
    rw [objs_cons_of_ne fun he => by cases he.1]
    exact h.broadcastSend
  broadcastRecvSrc := counters_other h.broadcastRecvSrc (by decide)
  entries := by
    intro e he
    rcases mem_append.mp he with he | he
    · exact h.entries e he
    · rw [mem_singleton.mp he]
      exact hnow

theorem GroupOk.recv {src : Nat} {obj : Option α} (hk : g.recvSrcCounter.get? src = some k) :
    GroupOk t₀ worldSize seconds rank (⟨.recv, rank, src, obj⟩ :: log) { g with
      recvSrcCounter := g.recvSrcCounter.insert src (k + 1) } where
  __ := h
  sendDst := counters_other h.sendDst (by decide)
  recvSrc := counters_insert h.recvSrc hk
  broadcastSend := by
    rw [objs_cons_of_ne fun he => by cases he.1]
    exact h.broadcastSend
  broadcastRecvSrc := counters_other h.broadcastRecvSrc (by decide)

theorem GroupOk.broadcast {obj : Option α} {key : String} (hnow : t₀ ≤ now) :
    GroupOk t₀ worldSize seconds rank (⟨.broadcast, rank, rank, obj⟩ :: log) { g with
      broadcastSendCounter := g.broadcastSendCounter + 1
      entries := g.entries ++ [(key, now)] } where
  __ := h
  sendDst := counters_other h.sendDst (by decide)
  recvSrc := counters_other h.recvSrc (by decide)
  broadcastSend := by
    rw [objs_cons_self, length_append, length_singleton, h.broadcastSend]
  broadcastRecvSrc := counters_other h.broadcastRecvSrc (by decide)
  entries := by
    intro e he
    rcases mem_append.mp he with he | he
    · exact h.entries e he
    · rw [mem_singleton.mp he]
      exact hnow

theorem GroupOk.recvBroadcast {src : Nat} {obj : Option α}
    (hk : g.broadcastRecvSrcCounter.get? src = some k) :
    GroupOk t₀ worldSize seconds rank (⟨.recvBroadcast, rank, src, obj⟩ :: log) { g with
      broadcastRecvSrcCounter := g.broadcastRecvSrcCounter.insert src (k + 1) } where
  __ := h
  sendDst := counters_other h.sendDst (by decide)
  recvSrc := counters_other h.recvSrc (by decide)
  broadcastSend := by
    rw [objs_cons_of_ne fun he => by cases he.1]
    exact h.broadcastSend
  broadcastRecvSrc := counters_insert h.broadcastRecvSrc hk

end GroupOk

/-- The store has the last of the `k`-th messages to a rank, and all broadcasts. -/
structure Inv (pickle : Pickle α) (t₀ : ℚ) (seconds : Fin n → Nat) (w : World α n) : Prop where
  groups : ∀ r : Fin n, GroupOk t₀ n (seconds r) r w.log (w.groups r)
  sends : ∀ dst k, w.store.get? (sendKey dst k) =
    (lastSender dst k w.log).bind fun s => (objs .send s dst w.log)[k]?.map pickle.dumps
  broadcasts : ∀ src k, w.store.get? (broadcastKey src k) =
    (objs .broadcast src src w.log)[k]?.map pickle.dumps
  delivered : ∀ r src, objs .recvBroadcast r src w.log <+: objs .broadcast src src w.log

section Inv
variable {pickle : Pickle α} {t₀ : ℚ} {seconds : Fin n → Nat} {w w' : World α n} {op : Op α n}

theorem Inv.new : Inv pickle t₀ seconds (World.new seconds : World α n) where
  groups := fun r => {
    rank_eq := rfl
    seconds_eq := rfl
    sendDst := get?_zeroCounters n
    recvSrc := get?_zeroCounters n
    broadcastSend := rfl
    broadcastRecvSrc := get?_zeroCounters n
    entries := by intro e he; cases he }
  sends := fun _ _ => rfl
  broadcasts := fun _ _ => rfl
  delivered := fun _ _ => prefix_rfl

variable {e : Event α}

/-- The groups after an exchange of one rank. -/
theorem Inv.groups_update (h : Inv pickle t₀ seconds w) {r : Fin n} {g : StatelessProcessGroup}
    (he : e.rank = r) (hg : GroupOk t₀ n (seconds r) r (e :: w.log) g) (r' : Fin n) :
    GroupOk t₀ n (seconds r') r' (e :: w.log) (Function.update w.groups r g r') := by
  by_cases hr : r' = r
  · subst hr
    rw [Function.update_self]
    exact hg
  · rw [Function.update_of_ne hr]
    refine (h.groups r').other fun heq => hr (Fin.ext ?_)
    rw [← heq, he]

/-- What is in the places of the messages, when the event is not a send. -/
theorem Inv.sends_of_ne (h : Inv pickle t₀ seconds w) (he : e.kind ≠ .send) (dst k : Nat) :
    w.store.get? (sendKey dst k) = (lastSender dst k (e :: w.log)).bind fun s =>
      (objs .send s dst (e :: w.log))[k]?.map pickle.dumps := by
  rw [h.sends, lastSender_cons_of_ne fun hs => he hs.1]
  congr 1
  funext s
  rw [objs_cons_of_ne fun hs => he hs.1]

theorem Inv.broadcasts_of_ne (h : Inv pickle t₀ seconds w) (he : e.kind ≠ .broadcast)
    (src k : Nat) : w.store.get? (broadcastKey src k) =
      (objs .broadcast src src (e :: w.log))[k]?.map pickle.dumps := by
  rw [h.broadcasts, objs_cons_of_ne fun hs => he hs.1]

/-- The received broadcasts, when the event is not one. -/
theorem Inv.delivered_of_ne (h : Inv pickle t₀ seconds w) (he : e.kind ≠ .recvBroadcast)
    (r src : Nat) :
    objs .recvBroadcast r src (e :: w.log) <+: objs .broadcast src src (e :: w.log) := by
  rw [objs_cons_of_ne fun hs => he hs.1]
  exact (h.delivered r src).trans (objs_prefix_cons ..)

/-- A send writes the place of its number, and is the last one there. -/
theorem Inv.send (h : Inv pickle t₀ seconds w) (hop : Within t₀ seconds op) {obj : Option α}
    {dst : Nat} {g : StatelessProcessGroup}
    (hcall : (w.groups op.rank).sendObj pickle w.store op.now obj dst = .ok (g, w'.store))
    (hgroups : w'.groups = Function.update w.groups op.rank g)
    (hlog : w'.log = ⟨.send, op.rank, dst, obj⟩ :: w.log) : Inv pickle t₀ seconds w' := by
  have hg := h.groups op.rank
  obtain ⟨k, hk, rfl, hstore⟩ := (sendObj_ok_iff (hg.fresh hop.within)).mp hcall
  have hlen : k = (objs .send op.rank dst w.log).length := by
    have hcount := hg.sendDst dst
    rw [hk] at hcount
    split at hcount
    · exact Option.some.inj hcount
    · cases hcount
  constructor
  · rw [hgroups, hlog]
    exact h.groups_update rfl (hg.send hop.after hk)
  · intro dst' k'
    rw [hstore, hlog, PyDict.get?_insert]
    by_cases hkey : sendKey dst' k' = sendKey dst k
    · obtain ⟨rfl, rfl⟩ := sendKey_inj.mp hkey
      rw [if_pos rfl, lastSender, if_pos ⟨rfl, rfl, hlen.symm⟩, Option.bind_some,
        objs_cons_self, hlen, getElem?_concat_length]
      rfl
    · rw [if_neg hkey, lastSender_cons_of_ne, h.sends]
      · -- What the last sender sent before is still at its number.
        cases hlast : lastSender dst' k' w.log with
        | none => rfl
        | some s =>
          have hlt := lt_length_of_lastSender hlast
          rw [Option.bind_some, Option.bind_some, getElem?_objs_cons _ hlt]
      · rintro ⟨-, rfl, hcount⟩
        exact hkey (sendKey_inj.mpr ⟨rfl, hcount.symm.trans hlen.symm⟩)
  · intro src k'
    rw [hstore, hlog, PyDict.get?_insert,
      if_neg fun heq => sendKey_ne_broadcastKey _ _ _ _ heq.symm]
    exact h.broadcasts_of_ne (by nofun) src k'
  · intro r src
    rw [hlog]
    exact h.delivered_of_ne (by nofun) r src

/-- A receive reads the place of its number. -/
theorem Inv.recv (h : Inv pickle t₀ seconds w) {obj : Option α} {src : Nat}
    {g : StatelessProcessGroup}
    (hcall : (w.groups op.rank).recvObj pickle w.store src = .ok (g, obj))
    (hgroups : w'.groups = Function.update w.groups op.rank g) (hstore : w'.store = w.store)
    (hlog : w'.log = ⟨.recv, op.rank, src, obj⟩ :: w.log) : Inv pickle t₀ seconds w' := by
  obtain ⟨k, hk, -, rfl⟩ := recvObj_ok_iff.mp hcall
  constructor
  · rw [hgroups, hlog]
    exact h.groups_update rfl ((h.groups op.rank).recv hk)
  · rw [hstore, hlog]
    exact h.sends_of_ne (by nofun)
  · rw [hstore, hlog]
    exact h.broadcasts_of_ne (by nofun)
  · intro r src
    rw [hlog]
    exact h.delivered_of_ne (by nofun) r src

/-- A broadcast of the rank itself. -/
theorem Inv.broadcast (h : Inv pickle t₀ seconds w) (hop : Within t₀ seconds op)
    {obj out : Option α} {g : StatelessProcessGroup}
    (hcall : (w.groups op.rank).broadcastObj pickle w.store op.now obj op.rank =
      .ok (g, out, w'.store))
    (hgroups : w'.groups = Function.update w.groups op.rank g)
    (hlog : w'.log = ⟨.broadcast, op.rank, op.rank, out⟩ :: w.log) :
    Inv pickle t₀ seconds w' := by
  have hg := h.groups op.rank
  rw [broadcastObj_source (hg.fresh hop.within) hg.rank_eq] at hcall
  obtain ⟨rfl, hrest⟩ := Prod.mk.inj (Except.ok.inj hcall)
  obtain ⟨rfl, hstore⟩ := Prod.mk.inj hrest
  have hcount := hg.broadcastSend
  constructor
  · rw [hgroups, hlog]
    exact h.groups_update rfl (hg.broadcast hop.after)
  · intro dst k
    rw [← hstore, hlog, PyDict.get?_insert, if_neg (sendKey_ne_broadcastKey _ _ _ _)]
    exact h.sends_of_ne (by nofun) dst k
  · intro src k
    rw [← hstore, hlog, PyDict.get?_insert]
    by_cases hkey : broadcastKey src k =
        broadcastKey op.rank (w.groups op.rank).broadcastSendCounter
    · obtain ⟨rfl, rfl⟩ := broadcastKey_inj.mp hkey
      rw [if_pos rfl, objs_cons_self, hcount, getElem?_concat_length]
      rfl
    · rw [if_neg hkey, h.broadcasts]
      by_cases hsrc : op.rank = src
      · -- It is another number of the same source, so an earlier one or one that is still to come.
        subst hsrc
        rw [objs_cons_self, getElem?_append]
        split
        · rfl
        · rename_i hlt
          have hne : k ≠ (objs .broadcast op.rank op.rank w.log).length := fun heq =>
            hkey (broadcastKey_inj.mpr ⟨rfl, heq.trans hcount.symm⟩)
          rw [getElem?_eq_none (by omega), getElem?_eq_none (by simp; omega)]
      · rw [objs_cons_of_ne fun he => hsrc he.2.1]
  · intro r src
    rw [hlog]
    exact h.delivered_of_ne (by nofun) r src

/-- A broadcast of another rank: the place has it, if it was made. -/
theorem Inv.recvBroadcast (h : Inv pickle t₀ seconds w) {obj out : Option α} {src : Nat}
    {g : StatelessProcessGroup} (hsrc : (op.rank : Nat) ≠ src)
    (hcall : (w.groups op.rank).broadcastObj pickle w.store op.now obj src = .ok (g, out, w'.store))
    (hgroups : w'.groups = Function.update w.groups op.rank g)
    (hlog : w'.log = ⟨.recvBroadcast, op.rank, src, out⟩ :: w.log) :
    Inv pickle t₀ seconds w' := by
  have hg := h.groups op.rank
  obtain ⟨k, hk, hload, rfl, hstore⟩ :=
    (broadcastObj_ok_iff fun heq => hsrc (hg.rank_eq.symm.trans heq)).mp hcall
  have hlen : k = (objs .recvBroadcast op.rank src w.log).length := by
    have hcount := hg.broadcastRecvSrc src
    rw [hk] at hcount
    split at hcount
    · exact Option.some.inj hcount
    · cases hcount
  obtain ⟨value, hvalue, hvalueLoad⟩ := loadKey_eq_ok_iff.mp hload
  rw [h.broadcasts] at hvalue
  obtain ⟨sent, hsent, rfl⟩ := Option.map_eq_some_iff.mp hvalue
  rw [pickle.loads_dumps] at hvalueLoad
  obtain rfl := Except.ok.inj hvalueLoad
  constructor
  · rw [hgroups, hlog]
    exact h.groups_update rfl (hg.recvBroadcast hk)
  · rw [hstore, hlog]
    exact h.sends_of_ne (by nofun)
  · rw [hstore, hlog]
    exact h.broadcasts_of_ne (by nofun)
  · intro r src'
    have hsent' : objs .broadcast src' src' (⟨.recvBroadcast, op.rank, src, sent⟩ :: w.log) =
        objs .broadcast src' src' w.log := objs_cons_of_ne fun he => by cases he.1
    rw [hlog, hsent']
    by_cases heq : op.rank = r ∧ src = src'
    · obtain ⟨rfl, rfl⟩ := heq
      rw [objs_cons_self]
      exact prefix_concat (h.delivered _ _) (hlen ▸ hsent)
    · rw [objs_cons_of_ne fun he => heq he.2]
      exact h.delivered r src'

theorem Inv.step (h : Inv pickle t₀ seconds w) (hop : Within t₀ seconds op)
    (hstep : w.step pickle op = .ok w') : Inv pickle t₀ seconds w' := by
  have heffect := step_effect hstep
  cases heffect with
  | none hgroups hstore hlog =>
    constructor
    · rw [hgroups, hlog]
      exact h.groups
    · rw [hstore, hlog]
      exact h.sends
    · rw [hstore, hlog]
      exact h.broadcasts
    · rw [hlog]
      exact h.delivered
  | send obj dst g hcall hgroups hlog => exact h.send hop hcall hgroups hlog
  | recv obj src g hcallOp hcall hgroups hstore hlog => exact h.recv hcall hgroups hstore hlog
  | broadcast obj out src g hcall hgroups hlog =>
    rw [(h.groups op.rank).rank_eq] at hlog
    by_cases hsrc : (op.rank : Nat) = src
    · subst hsrc
      rw [if_pos rfl] at hlog
      exact h.broadcast hop hcall hgroups hlog
    · rw [if_neg hsrc] at hlog
      exact h.recvBroadcast hsrc hcall hgroups hlog

end Inv

/-! ### What the ranks get -/

/-- What a rank got from another is the first part of what the other sent to it. -/
structure Delivered (log : List (Event α)) : Prop where
  messages : ∀ r src, objs .recv r src log <+: objs .send src r log
  broadcasts : ∀ r src, objs .recvBroadcast r src log <+: objs .broadcast src src log

/-- A rank receives from the one that was the last to send a message of that number to it. -/
def InTurn (w : World α n) (op : Op α n) : Prop :=
  match op.call with
  | .recvObj src =>
    lastSender op.rank (objs .recv op.rank src w.log).length w.log = some src
  | _ => True

/-- The calls that return in a state, and what they return. -/
structure Returns (pickle : Pickle α) (w : World α n) : Prop where
  messages : ∀ (r src : Fin n) now, w.gathers r = none →
    lastSender r (objs .recv r src w.log).length w.log = some (src : Nat) →
    ∃ w' obj, (objs .send src r w.log)[(objs .recv r src w.log).length]? = some obj ∧
      w.step pickle ⟨r, .recvObj src, now⟩ = .ok w' ∧ w'.log = ⟨.recv, r, src, obj⟩ :: w.log
  broadcasts : ∀ (r src : Fin n) now, w.gathers r = none → r ≠ src →
    ∀ obj, (objs .broadcast src src w.log)[(objs .recvBroadcast r src w.log).length]? = some obj →
    ∃ w', w.step pickle ⟨r, .broadcastObj none src, now⟩ = .ok w' ∧
      w'.log = ⟨.recvBroadcast, r, src, obj⟩ :: w.log

section Main
variable {pickle : Pickle α} {t₀ : ℚ} {seconds : Fin n → Nat} {w w' : World α n} {op : Op α n}

/-- The place of a message has what its last sender sent. -/
theorem Inv.message (h : Inv pickle t₀ seconds w) {dst k s : Nat}
    (hlast : lastSender dst k w.log = some s) : ∃ obj,
      (objs .send s dst w.log)[k]? = some obj ∧
      w.store.get? (sendKey dst k) = some (pickle.dumps obj) := by
  have hlt := lt_length_of_lastSender hlast
  refine ⟨_, getElem?_eq_getElem hlt, ?_⟩
  rw [h.sends, hlast, Option.bind_some, getElem?_eq_getElem hlt, Option.map_some]

/-- A step in turn delivers the next message of the source. -/
theorem messages_step (h : Inv pickle t₀ seconds w) (hturn : InTurn w op)
    (hstep : w.step pickle op = .ok w')
    (hmessages : ∀ r src, objs .recv r src w.log <+: objs .send src r w.log) (r src : Nat) :
    objs .recv r src w'.log <+: objs .send src r w'.log := by
  -- Only a receive adds to the first list.
  have hother : ∀ e : Event α, e.kind ≠ .recv → w'.log = e :: w.log →
      objs .recv r src w'.log <+: objs .send src r w'.log := by
    intro e he hlog
    rw [hlog, objs_cons_of_ne fun hs => he hs.1]
    exact (hmessages r src).trans (objs_prefix_cons ..)
  have heffect := step_effect hstep
  cases heffect with
  | none hgroups hstore hlog =>
    rw [hlog]
    exact hmessages r src
  | send obj dst g hcall hgroups hlog => exact hother _ (by nofun) hlog
  | broadcast obj out src g hcall hgroups hlog =>
    refine hother _ ?_ hlog
    dsimp only
    split
    · nofun
    · nofun
  | recv obj src' g hop hcall hgroups hstore hlog =>
    obtain ⟨k, hk, hload, -⟩ := recvObj_ok_iff.mp hcall
    have hg := h.groups op.rank
    have hlen : k = (objs .recv op.rank src' w.log).length := by
      have hcount := hg.recvSrc src'
      rw [hk] at hcount
      split at hcount
      · exact Option.some.inj hcount
      · cases hcount
    unfold InTurn at hturn
    rw [hop] at hturn
    dsimp only at hturn
    rw [← hlen] at hturn
    obtain ⟨sent, hsent, hstored⟩ := h.message hturn
    rw [hg.rank_eq, loadKey_of_dumps hstored] at hload
    subst hload
    have hsends : objs .send src r (⟨.recv, op.rank, src', obj⟩ :: w.log) =
        objs .send src r w.log := objs_cons_of_ne fun he => by cases he.1
    rw [hlog, hsends]
    by_cases heq : op.rank = r ∧ src' = src
    · obtain ⟨rfl, rfl⟩ := heq
      rw [objs_cons_self]
      exact prefix_concat (hmessages _ _) (hlen ▸ hsent)
    · rw [objs_cons_of_ne fun he => heq he.2]
      exact hmessages r src

theorem step_recvObj {r : Fin n} {src : Nat} {g : StatelessProcessGroup} {obj : Option α} (now : ℚ)
    (hidle : w.gathers r = none)
    (hcall : (w.groups r).recvObj pickle w.store src = .ok (g, obj)) :
    w.step pickle ⟨r, .recvObj src, now⟩ = .ok { w with
      groups := Function.update w.groups r g
      log := ⟨.recv, r, src, obj⟩ :: w.log } := by
  unfold World.step
  simp only [hidle]
  rw [hcall]
  rfl

theorem step_broadcastObj {r : Fin n} {src : Nat} {g : StatelessProcessGroup}
    {obj out : Option α} {store : PyDict String Bytes} {now : ℚ} (hidle : w.gathers r = none)
    (hcall : (w.groups r).broadcastObj pickle w.store now obj src = .ok (g, out, store)) :
    w.step pickle ⟨r, .broadcastObj obj src, now⟩ = .ok { w with
      groups := Function.update w.groups r g
      store
      log := ⟨if (w.groups r).rank = src then .broadcast else .recvBroadcast, r, src, out⟩ ::
        w.log } := by
  unfold World.step
  simp only [hidle]
  unfold World.broadcastObj
  rw [hcall]
  rfl

/-- A message that is there is received. -/
theorem Inv.recv_returns (h : Inv pickle t₀ seconds w) (r src : Fin n) (now : ℚ)
    (hidle : w.gathers r = none)
    (hlast : lastSender r (objs .recv r src w.log).length w.log = some (src : Nat)) :
    ∃ w' obj, (objs .send src r w.log)[(objs .recv r src w.log).length]? = some obj ∧
      w.step pickle ⟨r, .recvObj src, now⟩ = .ok w' ∧
      w'.log = ⟨.recv, r, src, obj⟩ :: w.log := by
  obtain ⟨obj, hsent, hstored⟩ := h.message hlast
  have hcount := (h.groups r).recvSrc src
  rw [if_pos src.isLt] at hcount
  have hload : loadKey pickle w.store
      (sendKey (w.groups r).rank (objs .recv r src w.log).length) = .ok obj := by
    rw [(h.groups r).rank_eq]
    exact (loadKey_of_dumps hstored).mpr rfl
  have hcall := recvObj_ok_iff.mpr ⟨_, hcount, hload, rfl⟩
  exact ⟨_, obj, hsent, step_recvObj now hidle hcall, rfl⟩

/-- And so is a broadcast. -/
theorem Inv.recvBroadcast_returns (h : Inv pickle t₀ seconds w) (r src : Fin n) (now : ℚ)
    (hidle : w.gathers r = none) (hne : r ≠ src) (obj : Option α)
    (hsent : (objs .broadcast src src w.log)[(objs .recvBroadcast r src w.log).length]? =
      some obj) :
    ∃ w', w.step pickle ⟨r, .broadcastObj none src, now⟩ = .ok w' ∧
      w'.log = ⟨.recvBroadcast, r, src, obj⟩ :: w.log := by
  have hstored := h.broadcasts src (objs .recvBroadcast r src w.log).length
  rw [hsent, Option.map_some] at hstored
  have hcount := (h.groups r).broadcastRecvSrc src
  rw [if_pos src.isLt] at hcount
  have hrank : (w.groups r).rank ≠ src := by
    rw [(h.groups r).rank_eq]
    exact fun heq => hne (Fin.ext heq)
  have hcall : (w.groups r).broadcastObj pickle w.store now none src = .ok (_, obj, w.store) :=
    (broadcastObj_ok_iff hrank).mpr ⟨_, hcount, (loadKey_of_dumps hstored).mpr rfl, rfl, rfl⟩
  refine ⟨_, step_broadcastObj hidle hcall, ?_⟩
  rw [if_neg hrank]

theorem Inv.returns (h : Inv pickle t₀ seconds w) : Returns pickle w where
  messages := h.recv_returns
  broadcasts := h.recvBroadcast_returns

/-- In every run the broadcasts are delivered; the messages are where the receives are in turn. -/
theorem delivered_of_run
    (h : Run (World.step pickle) (fun w op => Within t₀ seconds op ∧ InTurn w op)
      (World.new seconds) w) : Delivered w.log ∧ Returns pickle w := by
  have hinv := h.invariant
    (fun w => Inv pickle t₀ seconds w ∧
      ∀ r src, objs .recv r src w.log <+: objs .send src r w.log)
    ⟨.new, fun _ _ => List.prefix_rfl⟩
    fun _ _ _ hs hop hstep => ⟨hs.1.step hop.1 hstep, messages_step hs.1 hop.2 hstep hs.2⟩
  exact ⟨⟨hinv.2, hinv.1.delivered⟩, hinv.1.returns⟩

end Main

/-! ### Three ranks -/

section Three

instance (t₀ : ℚ) (seconds : Fin n → Nat) (op : Op α n) : Decidable (Within t₀ seconds op) :=
  decidable_of_iff (t₀ ≤ op.now ∧ op.now - t₀ ≤ seconds op.rank)
    ⟨fun h => ⟨h.1, h.2⟩, fun h => ⟨h.after, h.within⟩⟩

instance (w : World α n) (op : Op α n) : Decidable (InTurn w op) :=
  match op with
  | ⟨r, .recvObj src, _⟩ => inferInstanceAs (Decidable
      (lastSender r (objs .recv r src w.log).length w.log = some src))
  | ⟨_, .sendObj _ _, _⟩ => .isTrue trivial
  | ⟨_, .broadcastObj _ _, _⟩ => .isTrue trivial
  | ⟨_, .allGatherObj _, _⟩ => .isTrue trivial
  | ⟨_, .nextTurn, _⟩ => .isTrue trivial

/-- The pickles of the numbers of one byte and of `None`. -/
def picklesByte : Pickle UInt8 where
  dumps
    | some b => [0x80, 4, 0x4b, b, 0x2e]
    | none => [0x80, 4, 0x4e, 0x2e]
  loads
    | [0x80, 4, 0x4b, b, 0x2e] => .ok (some b)
    | [0x80, 4, 0x4e, 0x2e] => .ok none
    | _ => .error (.valueError "unpickling stack underflow")
  loads_dumps := by
    intro obj
    cases obj <;> rfl

/-- Both ranks send to rank 0, the second one after the message of the first was received. -/
theorem delivered_of_run_three : ∃ w : World UInt8 3,
    ((objs .recv 0 1 w.log).length = 1 ∧ (objs .recv 0 2 w.log).length = 1) ∧
      Delivered w.log ∧ Returns picklesByte w := by
  obtain ⟨s, w, hs, hrun, hP⟩ := exists_run_of_check (World.step picklesByte)
    (fun w op => Within 0 (fun _ => 3600) op ∧ InTurn w op)
    (fun w => (objs .recv 0 1 w.log).length = 1 ∧ (objs .recv 0 2 w.log).length = 1)
    (.ok (World.new fun _ => 3600) : Except Halt (World UInt8 3))
    [⟨1, .sendObj (some 1) 0, 0⟩, ⟨0, .recvObj 1, 1⟩, ⟨2, .sendObj (some 2) 0, 1⟩,
      ⟨0, .recvObj 2, 2⟩] (by decide +kernel)
  cases hs
  exact ⟨w, hP, delivered_of_run hrun⟩

/-- Both send before rank 0 receives, and it gets the object of rank 2 for the one of rank 1. -/
theorem other_message_received : ∃ w : World UInt8 3,
    Run (World.step picklesByte) (fun _ op => Within 0 (fun _ => 3600) op)
      (World.new fun _ => 3600) w ∧ ¬ Delivered w.log := by
  obtain ⟨s, w, hs, hrun, hP⟩ := exists_run_of_check (World.step picklesByte)
    (fun _ op => Within 0 (fun _ => 3600) op)
    (fun w => ¬ objs .recv 0 1 w.log <+: objs .send 1 0 w.log)
    (.ok (World.new fun _ => 3600) : Except Halt (World UInt8 3))
    [⟨1, .sendObj (some 1) 0, 0⟩, ⟨2, .sendObj (some 2) 0, 0⟩, ⟨0, .recvObj 1, 1⟩]
    (by decide +kernel)
  cases hs
  exact ⟨w, hrun, fun h => hP (h.messages 0 1)⟩

end Three

end Vllm.Proofs.Distributed.ProcessGroup
