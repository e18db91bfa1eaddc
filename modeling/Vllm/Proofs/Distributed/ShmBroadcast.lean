import Vllm.Distributed.ShmBroadcast
import Vllm.Lib.Run
import Mathlib.Data.Nat.ModEq
import Mathlib.Tactic.Ring

/-!
# `Vllm.Proofs.Distributed.ShmBroadcast`: the broadcast queue hands on its messages in order

The writer overwrites a chunk when all readers have set their flag, and a reader takes a chunk when
its own flag is clear and the chunk is marked as written. The writer clears the flags of the readers
before it sets this mark, and a reader looks at its flag first.

* `parseChunk_chunkBytes`: a reader takes out of a chunk what was written to it.
* `ChunksOk`, `WriterOk`, `ReaderOk`: the messages that are still in their chunks, and where the
  writer and the readers are.
* `inOrder_of_run`: each reader has a first part of the messages, and can have the next one.
-/

set_option autoImplicit false

namespace Vllm.Proofs.Distributed.ShmBroadcast

open Vllm.Lib Vllm.Distributed Vllm.Distributed.MessageQueue Function QueueState List

/-! ### The bytes of a chunk -/

theorem length_toBytesBig (value size : Nat) : (toBytesBig value size).length = size := by
  simp [toBytesBig]

theorem toBytesBig_succ (value size : Nat) :
    toBytesBig value (size + 1) = UInt8.ofNat (value / 256 ^ size) :: toBytesBig value size := by
  simp [toBytesBig, range_succ]

/-- The digits of a number are read back, after those of another one. -/
theorem foldl_toBytesBig (value size a : Nat) :
    (toBytesBig value size).foldl (fun n b => 256 * n + b.toNat) a =
      a * 256 ^ size + value % 256 ^ size := by
  induction size generalizing a with
  | zero => simp [toBytesBig, Nat.mod_one]
  | succ size ih =>
    rw [toBytesBig_succ, foldl_cons, ih, Nat.mod_pow_succ]
    have hdigit : (UInt8.ofNat (value / 256 ^ size)).toNat = value / 256 ^ size % 256 := by
      simp
    rw [hdigit, Nat.pow_succ]
    ring

theorem fromBytesBig_toBytesBig {value size : Nat} (h : value < 256 ^ size) :
    fromBytesBig (toBytesBig value size) = value := by
  unfold fromBytesBig
  rw [foldl_toBytesBig, Nat.zero_mul, Nat.zero_add, Nat.mod_eq_of_lt h]

/-- Bytes that come after those that are needed do not matter. -/
theorem parseBuffers_append {n : Nat} {bytes rest : Bytes} {m : Message}
    (h : parseBuffers n bytes = some m) : parseBuffers n (bytes ++ rest) = some m := by
  induction n generalizing bytes m with
  | zero => exact h
  | succ n ih =>
    unfold parseBuffers at h ⊢
    split at h
    · cases h
    · rename_i hfour
      dsimp only at h
      split at h
      · cases h
      · rename_i hlen
        obtain ⟨buffers, hbuffers, rfl⟩ := Option.map_eq_some_iff.mp h
        have hfour' : 4 ≤ bytes.length := Nat.le_of_not_lt hfour
        have htake : (bytes ++ rest).take 4 = bytes.take 4 := take_append_of_le_length hfour'
        have hdrop : (bytes ++ rest).drop 4 = bytes.drop 4 ++ rest :=
          drop_append_of_le_length hfour'
        have hlen' := Nat.le_of_not_lt hlen
        rw [if_neg (by rw [length_append]; omega), htake, hdrop]
        dsimp only
        rw [if_neg (by rw [length_append]; omega),
          drop_append_of_le_length hlen', take_append_of_le_length hlen',
          ih hbuffers]
        rfl

theorem parseChunk_cons (b : UInt8) (bytes : Bytes) : parseChunk (b :: bytes) =
    if b = 1 then some none
    else if bytes.length < 2 then none
    else (parseBuffers (fromBytesBig (bytes.take 2)) (bytes.drop 2)).map some := rfl

theorem parseChunk_append {bytes rest : Bytes} {x : Option Message}
    (h : parseChunk bytes = some x) : parseChunk (bytes ++ rest) = some x := by
  cases bytes with
  | nil => cases h
  | cons b bytes =>
    rw [cons_append, parseChunk_cons]
    rw [parseChunk_cons] at h
    split at h
    · rename_i hb
      rw [if_pos hb]
      exact h
    · rename_i hb
      split at h
      · cases h
      · rename_i htwo
        have htwo' : 2 ≤ bytes.length := Nat.le_of_not_lt htwo
        obtain ⟨m, hm, rfl⟩ := Option.map_eq_some_iff.mp h
        rw [if_neg hb, if_neg (by rw [length_append]; omega),
          take_append_of_le_length htwo', drop_append_of_le_length htwo',
          parseBuffers_append hm]
        rfl

theorem parseBuffers_flatMap (m : Message) (h : ∀ b ∈ m, b.length < 4294967296) :
    parseBuffers m.length (m.flatMap fun b => toBytesBig b.length 4 ++ b) = some m := by
  induction m with
  | nil => rfl
  | cons b m ih =>
    rw [length_cons, flatMap_cons, append_assoc]
    unfold parseBuffers
    have hfour := length_toBytesBig b.length 4
    have htake : ∀ rest, (toBytesBig b.length 4 ++ rest).take 4 = toBytesBig b.length 4 :=
      fun rest => take_left' hfour
    have hdrop : ∀ rest, (toBytesBig b.length 4 ++ rest).drop 4 = rest :=
      fun rest => drop_left' hfour
    have hlen : fromBytesBig (toBytesBig b.length 4) = b.length :=
      fromBytesBig_toBytesBig (h b mem_cons_self)
    rw [if_neg (by rw [length_append, hfour]; omega), htake, hdrop, hlen]
    dsimp only
    rw [if_neg (by rw [length_append]; omega), drop_left, take_left,
      ih fun b' hb' => h b' (mem_cons_of_mem b hb')]
    rfl

/-- A reader takes out of a chunk what was written to it. -/
theorem parseChunk_chunkBytes {q : MessageQueue} {m : Message} (h : q.Sendable m) :
    parseChunk (q.chunkBytes m) = some (if q.overflows m then none else some m) := by
  unfold chunkBytes
  cases hoverflow : q.overflows m with
  | true => rfl
  | false =>
    obtain ⟨hcount, hsizes⟩ := h.2 hoverflow
    have htwo := length_toBytesBig m.length 2
    rw [if_neg (by decide), if_neg (by decide)]
    rw [parseChunk_cons, if_neg (by decide), if_neg (by rw [length_append, htwo]; omega),
      take_left' htwo, drop_left' htwo, fromBytesBig_toBytesBig hcount,
      parseBuffers_flatMap m hsizes]
    rfl

/-! ### The invariant -/

/-- The chunks that a reader has marked as read. -/
def taken (s : QueueState) (r : Nat) : Nat :=
  (s.received r).length + if s.reader r = .recv then 1 else 0

/-- The writer changes its chunk. -/
def Modifying : WriterPc → Prop
  | .write .. => True
  | .clear .. => True
  | _ => False

/-- The writer has a chunk of its own. -/
def HasChunk : WriterPc → Prop
  | .acquired _ => True
  | .write .. => True
  | .clear .. => True
  | _ => False

/-- What the writer has put in a chunk and has not sent yet. -/
def pendingLocal : WriterPc → List Message
  | .sendLocal m => [m]
  | _ => []

section Invariant
variable (q : MessageQueue)

/-- A message is still in its chunk. -/
structure Kept (s : QueueState) (j : Nat) : Prop where
  lt : j < s.log.length
  le : s.log.length ≤ j + q.maxChunks
  free : Modifying s.writer → s.log.length ≠ j + q.maxChunks

/-- The chunks, but for the flags of the readers. -/
structure ChunksOk (s : QueueState) : Prop where
  idx : s.writerIdx = s.log.length % q.maxChunks
  sendable : ∀ m ∈ s.log, q.Sendable m
  kept : ∀ j m, Kept q s j → s.log[j]? = some m → s.written (j % q.maxChunks) = true ∧
    ∀ (i : Nat) b, (q.chunkBytes m)[i]? = some b → s.data (j % q.maxChunks) i = b
  fresh : ∀ c, s.log.length ≤ c → c < q.maxChunks → s.written c = false

/-- What the writer has done so far. -/
def WriterOk (s : QueueState) : Prop :=
  match s.writer with
  | .scan m i readCount => q.Sendable m ∧ i ≤ q.nLocalReader ∧ readCount ≤ i ∧
      (readCount = i → ∀ r < i, s.readFlag s.writerIdx r = true)
  | .acquired m => q.Sendable m
  | .write m offset => q.Sendable m ∧ s.written s.writerIdx = false ∧
      ∀ i < offset, ∀ b, (q.chunkBytes m)[i]? = some b → s.data s.writerIdx i = b
  | .clear m i => q.Sendable m ∧ s.written s.writerIdx = false ∧
      (∀ (j : Nat) b, (q.chunkBytes m)[j]? = some b → s.data s.writerIdx j = b) ∧
      i ≤ q.nLocalReader ∧ ∀ r < i, s.readFlag s.writerIdx r = false
  | _ => True

/-- What a reader has done so far in `dequeue`. -/
def PcOk (s : QueueState) (r : Nat) : ReaderPc → Prop
  | .test readFlag => readFlag = false → taken s r = s.log.length →
      s.readFlag (s.log.length % q.maxChunks) r = false
  | .reading bytes => ∃ m, s.log[taken s r]? = some m ∧
      bytes = (q.chunkBytes m).take bytes.length
  | .recv => ∃ m, s.log[(s.received r).length]? = some m ∧ q.overflows m = true
  | _ => True

/-- A reader, its flags and its socket. -/
structure ReaderOk (s : QueueState) (r : Nat) : Prop where
  idx : s.readerIdx r = taken s r % q.maxChunks
  le : taken s r ≤ s.log.length
  window : s.log.length ≤ taken s r + q.maxChunks
  strict : HasChunk s.writer → s.log.length < taken s r + q.maxChunks
  flag : ∀ j, Kept q s j → s.readFlag (j % q.maxChunks) r = decide (j < taken s r)
  fresh : ∀ c, s.log.length ≤ c → c < q.maxChunks → s.readFlag c r = false
  pc : PcOk q s r (s.reader r)
  received : s.received r = s.log.take (s.received r).length
  socket : s.localSocket r ++ s.localFlight r ++ pendingLocal s.writer =
    (s.log.drop (s.received r).length).filter q.overflows

/-- The ring and the sockets of the local readers. -/
structure QueueInv (s : QueueState) : Prop where
  chunks : ChunksOk q s
  writer : WriterOk q s
  readers : ∀ r < q.nLocalReader, ReaderOk q s r
  others : ∀ r, q.nLocalReader ≤ r → s.reader r = .idle

end Invariant

/-! ### The writer -/

/-- Two messages that are less than a round apart are in different chunks. -/
theorem mod_ne_of_lt {j p n : Nat} (hlt : j < p) (hle : p < j + n) : j % n ≠ p % n := by
  intro heq
  have hzero := Nat.sub_mod_eq_zero_of_mod_eq heq.symm
  rw [Nat.mod_eq_of_lt (by omega)] at hzero
  omega

section Writer
variable {q : MessageQueue} {s s' : QueueState}

theorem Kept.before {j : Nat} (h : Kept q s' j) (hlog : s'.log = s.log)
    (hmod : Modifying s.writer → Modifying s'.writer) : Kept q s j :=
  ⟨hlog ▸ h.lt, hlog ▸ h.le, fun hm => hlog ▸ h.free (hmod hm)⟩

theorem Kept.apart {j : Nat} (h : Kept q s j) (hmod : Modifying s.writer) :
    j % q.maxChunks ≠ s.log.length % q.maxChunks := by
  have := h.free hmod
  have := h.le
  exact mod_ne_of_lt h.lt (by omega)

/-- The readers do not see what the writer does. -/
structure SameReaders (s s' : QueueState) : Prop where
  log : s'.log = s.log
  readFlag : s'.readFlag = s.readFlag
  reader : s'.reader = s.reader
  readerIdx : s'.readerIdx = s.readerIdx
  received : s'.received = s.received
  localSocket : s'.localSocket = s.localSocket
  localFlight : s'.localFlight = s.localFlight

theorem SameReaders.taken (h : SameReaders s s') (r : Nat) : taken s' r = taken s r := by
  unfold ShmBroadcast.taken
  rw [h.reader, h.received]

theorem ReaderOk.same {r : Nat} (hr : ReaderOk q s r) (h : SameReaders s s')
    (hmod : Modifying s.writer → Modifying s'.writer)
    (hstrict : HasChunk s'.writer → s.log.length < ShmBroadcast.taken s r + q.maxChunks)
    (hpending : pendingLocal s'.writer = pendingLocal s.writer) : ReaderOk q s' r := by
  constructor
  case idx => rw [h.readerIdx, h.taken, hr.idx]
  case le => rw [h.taken, h.log]; exact hr.le
  case window => rw [h.taken, h.log]; exact hr.window
  case strict => rw [h.taken, h.log]; exact hstrict
  case flag =>
    intro j hj
    rw [h.readFlag, h.taken]
    exact hr.flag j (hj.before h.log hmod)
  case fresh => rw [h.log, h.readFlag]; exact hr.fresh
  case pc =>
    have hpc := hr.pc
    unfold PcOk at hpc ⊢
    rw [h.reader, h.log, h.readFlag, h.received, h.taken]
    exact hpc
  case received => rw [h.received, h.log]; exact hr.received
  case socket =>
    rw [h.localSocket, h.localFlight, hpending, h.received, h.log]
    exact hr.socket

variable {w : WriterPc}

/-- The chunks stay as they are while the writer does not change one. -/
theorem ChunksOk.same (h : ChunksOk q s) (hmod : Modifying s.writer → Modifying w) :
    ChunksOk q { s with writer := w } :=
  { h with kept := fun j m hj hm => h.kept j m (hj.before rfl hmod) hm }

/-- The writer goes on without changing anything else. -/
theorem QueueInv.goto (h : QueueInv q s) (hok : WriterOk q { s with writer := w })
    (hmod : Modifying s.writer → Modifying w)
    (hstrict : HasChunk w → ∀ r < q.nLocalReader, s.log.length < taken s r + q.maxChunks)
    (hpending : pendingLocal w = pendingLocal s.writer) : QueueInv q { s with writer := w } := by
  refine ⟨h.chunks.same hmod, hok, fun r hr => ?_, h.others⟩
  exact (h.readers r hr).same ⟨rfl, rfl, rfl, rfl, rfl, rfl, rfl⟩ hmod
    (fun hc => hstrict hc r hr) hpending

variable {m : Message}

/-- When the chunk is not written or all readers have read it, none of them is a round behind. -/
theorem strict_of_scan {readCount : Nat} (h : QueueInv q s)
    (hw : s.writer = .scan m q.nLocalReader readCount)
    (hfree : ¬ (s.written s.writerIdx = true ∧ readCount ≠ q.nLocalReader)) :
    ∀ r < q.nLocalReader, s.log.length < taken s r + q.maxChunks := by
  intro r hr
  have hreader := h.readers r hr
  have hwindow := hreader.window
  have hwriter := h.writer
  unfold WriterOk at hwriter
  rw [hw] at hwriter
  obtain ⟨-, -, -, hall⟩ := hwriter
  by_contra hge
  -- The chunk has the message of the last round, which the reader has not read.
  have hround : s.log.length = taken s r + q.maxChunks := by omega
  have hkept : Kept q s (taken s r) := by
    refine ⟨?_, hwindow, fun hm => ?_⟩
    · have := q.pos
      omega
    · rw [hw] at hm
      cases hm
  have hmod : taken s r % q.maxChunks = s.writerIdx := by
    rw [h.chunks.idx, hround, Nat.add_mod_right]
  obtain ⟨message, hmessage⟩ : ∃ m, s.log[taken s r]? = some m :=
    ⟨_, List.getElem?_eq_getElem hkept.lt⟩
  have hwritten := (h.chunks.kept _ message hkept hmessage).1
  have hflag := hreader.flag _ hkept
  rw [hmod] at hwritten hflag
  rw [hwritten] at hfree
  have hcount : readCount = q.nLocalReader := by
    by_contra hne
    exact hfree ⟨rfl, hne⟩
  rw [hall hcount r hr] at hflag
  simp at hflag

/-- The writer marks its chunk as not written. -/
theorem QueueInv.acquire (h : QueueInv q s) (hw : s.writer = .acquired m) : QueueInv q { s with
      written := update s.written s.writerIdx false
      writer := .write m 0 } := by
  have hsendable := h.writer
  unfold WriterOk at hsendable
  rw [hw] at hsendable
  refine { h with
    chunks := { h.chunks with kept := ?kept, fresh := ?fresh }
    writer := ⟨hsendable, update_self .., nofun⟩
    readers := fun r hr => ?readers }
  case kept =>
    intro j m' hj hm'
    have hapart := hj.apart trivial
    dsimp only at hapart ⊢
    rw [update_of_ne (by rw [h.chunks.idx]; exact hapart)]
    exact h.chunks.kept j m' (hj.before rfl fun _ => trivial) hm'
  case fresh =>
    intro c hc hlt
    dsimp only at hc ⊢
    rw [update_apply]
    split
    · rfl
    · exact h.chunks.fresh c hc hlt
  case readers =>
    refine (h.readers r hr).same ⟨rfl, rfl, rfl, rfl, rfl, rfl, rfl⟩
      (fun _ => trivial) (fun _ => (h.readers r hr).strict (by rw [hw]; trivial)) ?_
    rw [hw]
    rfl

/-- The writer writes a byte. -/
theorem QueueInv.writeByte {offset : Nat} {b : UInt8} (h : QueueInv q s)
    (hw : s.writer = .write m offset) (hb : (q.chunkBytes m)[offset]? = some b) :
    QueueInv q { s with
      data := update s.data s.writerIdx
        (update (s.data s.writerIdx) offset b)
      writer := .write m (offset + 1) } := by
  have hmod : Modifying s.writer := by rw [hw]; trivial
  have hwriter := h.writer
  unfold WriterOk at hwriter
  rw [hw] at hwriter
  obtain ⟨hsendable, hwritten, hdata⟩ := hwriter
  refine { h with
    chunks := { h.chunks with kept := ?kept }
    writer := ⟨hsendable, hwritten, ?written⟩
    readers := fun r hr => ?readers }
  case kept =>
    intro j m' hj hm'
    have hkept : Kept q s j := hj.before rfl fun _ => trivial
    dsimp only
    rw [update_of_ne (by rw [h.chunks.idx]; exact hkept.apart hmod)]
    exact h.chunks.kept j m' hkept hm'
  case written =>
    intro i hi b' hb'
    dsimp only
    rw [update_self, update_apply]
    split
    · rename_i heq
      subst heq
      rw [hb] at hb'
      exact Option.some.inj hb'
    · exact hdata i (by omega) b' hb'
  case readers =>
    refine (h.readers r hr).same ⟨rfl, rfl, rfl, rfl, rfl, rfl, rfl⟩
      (fun _ => trivial) (fun _ => (h.readers r hr).strict (by rw [hw]; trivial)) ?_
    rw [hw]
    rfl

/-- The writer clears the flag of a reader. -/
theorem QueueInv.clearFlag {i : Nat} (h : QueueInv q s) (hw : s.writer = .clear m i)
    (hi : i < q.nLocalReader) :
    QueueInv q { s with
      readFlag := update s.readFlag s.writerIdx
        (update (s.readFlag s.writerIdx) i false)
      writer := .clear m (i + 1) } := by
  have hmod : Modifying s.writer := by rw [hw]; trivial
  have hwriter := h.writer
  unfold WriterOk at hwriter
  rw [hw] at hwriter
  obtain ⟨hsendable, hwritten, hdata, -, hflags⟩ := hwriter
  refine { h with
    chunks := { h.chunks with
      kept := fun j m' hj => h.chunks.kept j m' (hj.before rfl fun _ => trivial) }
    writer := ⟨hsendable, hwritten, hdata, hi, ?cleared⟩
    readers := fun r hr => ?readers }
  case cleared =>
    intro r hr
    dsimp only
    rw [update_self, update_apply]
    split
    · rfl
    · exact hflags r (by omega)
  case readers =>
    have hok := h.readers r hr
    -- A flag is cleared or stays.
    have hcleared : ∀ c, s.readFlag c r = false → update s.readFlag s.writerIdx
        (update (s.readFlag s.writerIdx) i false) c r = false := by
      intro c hc
      rw [update_apply]
      split
      · rename_i heq
        rw [update_apply]
        split
        · rfl
        · rw [← heq]
          exact hc
      · exact hc
    have hpc := hok.pc
    refine { hok with
      strict := fun _ => hok.strict (by rw [hw]; trivial)
      flag := fun j hj => ?flag
      fresh := fun c hc hlt => hcleared c (hok.fresh c hc hlt)
      pc := ?pc
      socket := ?socket }
    case flag =>
      have hkept : Kept q s j := hj.before rfl fun _ => trivial
      dsimp only
      rw [update_of_ne (by rw [h.chunks.idx]; exact hkept.apart hmod)]
      exact hok.flag j hkept
    case pc =>
      dsimp only
      cases hreader : s.reader r <;> rw [hreader] at hpc
      case test readFlag => exact fun hfalse htaken => hcleared _ (hpc hfalse htaken)
      all_goals exact hpc
    case socket =>
      have hsocket := hok.socket
      rw [hw] at hsocket
      exact hsocket

/-- The writer marks its chunk as written. -/
theorem QueueInv.publish (h : QueueInv q s) (hw : s.writer = .clear m q.nLocalReader)
    (hok : ∀ s', s'.writer = w → WriterOk q s') (hchunk : ¬ HasChunk w)
    (hpending : pendingLocal w = if q.overflows m then [m] else []) :
    QueueInv q { s with
      written := update s.written s.writerIdx true
      writerIdx := (s.writerIdx + 1) % q.maxChunks
      log := s.log ++ [m]
      writer := w } := by
  have hmod : Modifying s.writer := by rw [hw]; trivial
  have hwriter := h.writer
  unfold WriterOk at hwriter
  rw [hw] at hwriter
  obtain ⟨hsendable, hwritten, hdata, -, hflags⟩ := hwriter
  have hpos := q.pos
  -- The messages of the log are those of before and the new one.
  have hkept : ∀ j, Kept q { s with
      written := update s.written s.writerIdx true
      writerIdx := (s.writerIdx + 1) % q.maxChunks
      log := s.log ++ [m]
      writer := w } j → j = s.log.length ∨ Kept q s j := by
    intro j hj
    have hlt := hj.lt
    have hle := hj.le
    dsimp only at hlt hle
    rw [length_append, length_singleton] at hlt hle
    by_cases hj' : j = s.log.length
    · exact .inl hj'
    · exact .inr ⟨by omega, by omega, fun _ => by omega⟩
  constructor
  case chunks =>
    constructor
    case idx =>
      dsimp only
      rw [length_append, length_singleton, h.chunks.idx, Nat.mod_add_mod]
    case sendable =>
      intro m' hm'
      rcases mem_append.mp hm' with hm' | hm'
      · exact h.chunks.sendable m' hm'
      · rw [mem_singleton.mp hm']
        exact hsendable
    case kept =>
      intro j m' hj hm'
      dsimp only at hm' ⊢
      rcases hkept j hj with rfl | hj'
      · rw [List.getElem?_concat_length] at hm'
        cases hm'
        rw [← h.chunks.idx]
        exact ⟨update_self .., hdata⟩
      · rw [List.getElem?_append_left hj'.lt] at hm'
        rw [update_of_ne (by rw [h.chunks.idx]; exact hj'.apart hmod)]
        exact h.chunks.kept j m' hj' hm'
    case fresh =>
      intro c hc hlt
      dsimp only at hc ⊢
      rw [length_append, length_singleton] at hc
      rw [update_of_ne
        (by rw [h.chunks.idx, Nat.mod_eq_of_lt (by omega : s.log.length < q.maxChunks)]; omega)]
      exact h.chunks.fresh c (by omega) hlt
  case writer => exact hok _ rfl
  case readers =>
    intro r hr
    have hreader := h.readers r hr
    have hle := hreader.le
    have hlen : (s.received r).length ≤ s.log.length := by
      unfold ShmBroadcast.taken at hle
      omega
    constructor
    case idx => exact hreader.idx
    case le =>
      change ShmBroadcast.taken s r ≤ (s.log ++ [m]).length
      rw [length_append]
      omega
    case window =>
      change (s.log ++ [m]).length ≤ ShmBroadcast.taken s r + q.maxChunks
      have := hreader.strict (by rw [hw]; trivial)
      rw [length_append, length_singleton]
      omega
    case strict => exact fun hc => absurd hc hchunk
    case flag =>
      intro j hj
      change s.readFlag (j % q.maxChunks) r = decide (j < ShmBroadcast.taken s r)
      rcases hkept j hj with rfl | hj'
      · rw [← h.chunks.idx, hflags r hr, eq_comm, decide_eq_false_iff_not]
        omega
      · exact hreader.flag j hj'
    case fresh =>
      intro c hc
      dsimp only at hc
      rw [length_append, length_singleton] at hc
      exact hreader.fresh c (by omega)
    case pc =>
      have hpc := hreader.pc
      dsimp only
      cases hr' : s.reader r with
      | test readFlag =>
        intro _ htaken
        change ShmBroadcast.taken s r = (s.log ++ [m]).length at htaken
        rw [length_append, length_singleton] at htaken
        omega
      | reading bytes =>
        rw [hr'] at hpc
        obtain ⟨m', hm', hbytes⟩ := hpc
        obtain ⟨hlt, -⟩ := List.getElem?_eq_some_iff.mp hm'
        exact ⟨m', (List.getElem?_append_left hlt).trans hm', hbytes⟩
      | recv =>
        rw [hr'] at hpc
        obtain ⟨m', hm', hover⟩ := hpc
        obtain ⟨hlt, -⟩ := List.getElem?_eq_some_iff.mp hm'
        exact ⟨m', (List.getElem?_append_left hlt).trans hm', hover⟩
      | idle => trivial
      | start => trivial
    case received =>
      dsimp only
      rw [take_append_of_le_length hlen]
      exact hreader.received
    case socket =>
      have hsocket := hreader.socket
      rw [hw] at hsocket
      dsimp only [pendingLocal] at hsocket
      rw [append_nil] at hsocket
      dsimp only
      rw [hpending, drop_append_of_le_length hlen, filter_append, ← hsocket]
      cases hover : q.overflows m <;> simp [hover]
  case others => exact h.others

/-- The writer sends a message that overflows. -/
theorem QueueInv.sendLocal (h : QueueInv q s) (hw : s.writer = .sendLocal m)
    (hok : ∀ s', s'.writer = w → WriterOk q s') (hchunk : ¬ HasChunk w)
    (hpending : pendingLocal w = []) :
    QueueInv q { s.sendLocal m with writer := w } := by
  have hmod : Modifying s.writer → Modifying w := by
    rw [hw]
    exact False.elim
  refine ⟨{ h.chunks with kept := fun j m' hj => h.chunks.kept j m' (hj.before rfl hmod) },
    hok _ rfl, fun r hr => ?_, h.others⟩
  have hreader := h.readers r hr
  refine { hreader with
    strict := fun hc => absurd hc hchunk
    flag := fun j hj => hreader.flag j (hj.before rfl hmod)
    socket := ?_ }
  have hsocket := hreader.socket
  rw [hw] at hsocket
  dsimp only [pendingLocal] at hsocket
  dsimp only [QueueState.sendLocal]
  rw [hpending, append_nil, ← append_assoc]
  exact hsocket

/-- The writer sends a message to the readers of other nodes. -/
theorem QueueInv.sendRemote (h : QueueInv q s) (hw : s.writer = .sendRemote m) :
    QueueInv q { s.sendRemote m with writer := .idle } := by
  have hmod : Modifying s.writer → Modifying .idle := by
    rw [hw]
    exact id
  refine ⟨{ h.chunks with kept := fun j m' hj => h.chunks.kept j m' (hj.before rfl hmod) },
    trivial, fun r hr => ?_, h.others⟩
  refine (h.readers r hr).same ⟨rfl, rfl, rfl, rfl, rfl, rfl, rfl⟩ hmod (fun hc => hc.elim) ?_
  rw [hw]
  rfl

theorem afterLocal_cases (q : MessageQueue) (m : Message) :
    afterLocal q m = .sendRemote m ∨ afterLocal q m = .idle := by
  unfold afterLocal
  split
  · exact .inl rfl
  · exact .inr rfl

/-- The writer keeps the invariant. -/
theorem QueueInv.writerStep (h : QueueInv q s) (hlocal : 0 < q.nLocalReader)
    (hs : s.writerStep q = .ok s') : QueueInv q s' := by
  have hwriter := h.writer
  unfold WriterOk at hwriter
  unfold QueueState.writerStep at hs
  have hafter : ∀ m, (∀ s' : QueueState, s'.writer = QueueState.afterLocal q m → WriterOk q s') ∧
      ¬ HasChunk (QueueState.afterLocal q m) ∧ pendingLocal (QueueState.afterLocal q m) = [] := by
    intro m
    rcases afterLocal_cases q m with hw | hw <;> rw [hw] <;>
      exact ⟨fun s' hs' => by unfold WriterOk; rw [hs']; trivial, fun hc => hc, rfl⟩
  cases hw : s.writer with
  | idle =>
    rw [hw] at hs
    cases hs
  | scan m i readCount =>
    rw [hw] at hs hwriter
    dsimp only at hs hwriter
    obtain ⟨hsendable, hi, hcount, hall⟩ := hwriter
    have hmod : ∀ w, Modifying s.writer → Modifying w := by
      intro w hmod
      rw [hw] at hmod
      cases hmod
    split at hs
    · rename_i hlt
      cases hs
      refine h.goto ⟨hsendable, hlt, ?_, ?_⟩ (hmod _) (fun hc => hc.elim) (by rw [hw]; rfl)
      · split <;> omega
      · -- The count is full only if all flags so far are set.
        intro hfull r hr
        by_cases hflag : s.readFlag s.writerIdx i = true
        · rw [if_pos hflag] at hfull
          rcases Nat.lt_succ_iff_lt_or_eq.mp hr with hr | rfl
          · exact hall (by omega) r hr
          · exact hflag
        · rw [if_neg hflag] at hfull
          omega
    · rename_i hge
      obtain rfl : i = q.nLocalReader := by omega
      split at hs
      · cases hs
        refine h.goto ⟨hsendable, Nat.zero_le _, Nat.le_refl 0, ?_⟩ (hmod _)
          (fun hc => hc.elim) (by rw [hw]; rfl)
        intro _ r hr
        cases hr
      · rename_i hfree
        cases hs
        exact h.goto hsendable (hmod _) (fun _ => strict_of_scan h hw hfree) (by rw [hw]; rfl)
  | acquired m =>
    rw [hw] at hs
    cases hs
    exact h.acquire hw
  | write m offset =>
    rw [hw] at hs hwriter
    dsimp only at hs hwriter
    obtain ⟨hsendable, hwritten, hdata⟩ := hwriter
    cases hb : (q.chunkBytes m)[offset]? with
    | some b =>
      rw [hb] at hs
      cases hs
      exact h.writeByte hw hb
    | none =>
      rw [hb] at hs
      cases hs
      have hend := List.getElem?_eq_none_iff.mp hb
      refine h.goto ⟨hsendable, hwritten, ?_, Nat.zero_le _, fun r hr => by cases hr⟩
        (fun _ => trivial) (fun _ r hr => (h.readers r hr).strict (by rw [hw]; trivial))
        (by rw [hw]; rfl)
      intro i b hb'
      obtain ⟨hi, -⟩ := List.getElem?_eq_some_iff.mp hb'
      exact hdata i (by omega) b hb'
  | clear m i =>
    rw [hw] at hs hwriter
    dsimp only at hs hwriter
    split at hs
    · rename_i hlt
      cases hs
      exact h.clearFlag hw hlt
    · rename_i hge
      cases hs
      obtain rfl : i = q.nLocalReader := by
        have := hwriter.2.2.2.1
        omega
      cases hover : q.overflows m with
      | true =>
        refine h.publish hw ?_ (fun hc => hc) (by rw [hover]; rfl)
        intro s' hs'
        unfold WriterOk
        rw [hs']
        trivial
      | false =>
        obtain ⟨hok, hchunk, hpending⟩ := hafter m
        exact h.publish hw hok hchunk (by rw [hover]; exact hpending)
  | sendLocal m =>
    rw [hw] at hs
    cases hs
    obtain ⟨hok, hchunk, hpending⟩ := hafter m
    exact h.sendLocal hw hok hchunk hpending
  | sendRemote m =>
    rw [hw] at hs
    dsimp only at hs
    rw [if_pos hlocal] at hs
    cases hs
    exact h.sendRemote hw

end Writer

/-! ### The readers -/

section Reader
variable {q : MessageQueue} {s s' : QueueState} {r : Nat}

/-- A step of a reader: the writer and the other readers do not see it, but for its flags. -/
structure ReaderMoves (s s' : QueueState) (r : Nat) : Prop where
  log : s'.log = s.log
  written : s'.written = s.written
  data : s'.data = s.data
  writer : s'.writer = s.writer
  writerIdx : s'.writerIdx = s.writerIdx
  readFlag : ∀ c r', r' ≠ r → s'.readFlag c r' = s.readFlag c r'
  set : ∀ c, s.readFlag c r = true → s'.readFlag c r = true
  reader : ∀ r', r' ≠ r → s'.reader r' = s.reader r'
  readerIdx : ∀ r', r' ≠ r → s'.readerIdx r' = s.readerIdx r'
  received : ∀ r', r' ≠ r → s'.received r' = s.received r'
  localSocket : ∀ r', r' ≠ r → s'.localSocket r' = s.localSocket r'
  localFlight : ∀ r', r' ≠ r → s'.localFlight r' = s.localFlight r'

theorem ReaderMoves.kept (h : ReaderMoves s s' r) {j : Nat} : Kept q s' j ↔ Kept q s j := by
  constructor
  · intro hj
    exact ⟨h.log ▸ hj.lt, h.log ▸ hj.le, h.log ▸ h.writer ▸ hj.free⟩
  · intro hj
    exact ⟨h.log.symm ▸ hj.lt, h.log.symm ▸ hj.le, h.log.symm ▸ h.writer.symm ▸ hj.free⟩

theorem ReaderMoves.taken (h : ReaderMoves s s' r) {r' : Nat} (hne : r' ≠ r) :
    taken s' r' = taken s r' := by
  unfold ShmBroadcast.taken
  rw [h.reader r' hne, h.received r' hne]

/-- The frame of a step of a reader. -/
theorem QueueInv.reader (h : QueueInv q s) (hm : ReaderMoves s s' r)
    (hok : r < q.nLocalReader → ReaderOk q s' r)
    (hidle : q.nLocalReader ≤ r → s'.reader r = .idle)
    (hclear : Modifying s.writer → s'.readFlag s.writerIdx r = s.readFlag s.writerIdx r) :
    QueueInv q s' := by
  constructor
  case chunks =>
    constructor
    case idx => rw [hm.writerIdx, hm.log]; exact h.chunks.idx
    case sendable => rw [hm.log]; exact h.chunks.sendable
    case kept =>
      rw [hm.log, hm.written, hm.data]
      exact fun j m hj => h.chunks.kept j m (hm.kept.mp hj)
    case fresh => rw [hm.log, hm.written]; exact h.chunks.fresh
  case writer =>
    have hwriter := h.writer
    unfold WriterOk at hwriter ⊢
    rw [hm.writer, hm.writerIdx, hm.written, hm.data]
    cases hw : s.writer with
    | scan m i readCount =>
      rw [hw] at hwriter
      obtain ⟨hsendable, hi, hcount, hall⟩ := hwriter
      refine ⟨hsendable, hi, hcount, fun heq r' hr' => ?_⟩
      by_cases hne : r' = r
      · rw [hne]
        exact hm.set _ (hne ▸ hall heq r' hr')
      · rw [hm.readFlag _ r' hne]
        exact hall heq r' hr'
    | clear m i =>
      rw [hw] at hwriter
      obtain ⟨hsendable, hwritten, hdata, hi, hflags⟩ := hwriter
      refine ⟨hsendable, hwritten, hdata, hi, fun r' hr' => ?_⟩
      by_cases hne : r' = r
      · rw [hne, hclear (by rw [hw]; trivial)]
        exact hne ▸ hflags r' hr'
      · rw [hm.readFlag _ r' hne]
        exact hflags r' hr'
    | acquired m =>
      rw [hw] at hwriter
      exact hwriter
    | write m offset =>
      rw [hw] at hwriter
      exact hwriter
    | idle => trivial
    | sendLocal m => trivial
    | sendRemote m => trivial
  case readers =>
    intro r' hr'
    by_cases hne : r' = r
    · rw [hne]
      exact hok (hne ▸ hr')
    · have hreader := h.readers r' hr'
      constructor
      case idx => rw [hm.readerIdx r' hne, hm.taken hne]; exact hreader.idx
      case le => rw [hm.taken hne, hm.log]; exact hreader.le
      case window => rw [hm.taken hne, hm.log]; exact hreader.window
      case strict => rw [hm.taken hne, hm.log, hm.writer]; exact hreader.strict
      case flag =>
        intro j hj
        rw [hm.readFlag _ r' hne, hm.taken hne]
        exact hreader.flag j (hm.kept.mp hj)
      case fresh =>
        intro c
        rw [hm.readFlag _ r' hne, hm.log]
        exact hreader.fresh c
      case pc =>
        have hpc := hreader.pc
        unfold PcOk at hpc ⊢
        rw [hm.reader r' hne, hm.log, hm.readFlag _ r' hne, hm.taken hne, hm.received r' hne]
        exact hpc
      case received => rw [hm.received r' hne, hm.log]; exact hreader.received
      case socket =>
        rw [hm.localSocket r' hne, hm.localFlight r' hne, hm.writer, hm.received r' hne, hm.log]
        exact hreader.socket
  case others =>
    intro r' hr'
    by_cases hne : r' = r
    · rw [hne]
      exact hidle (hne ▸ hr')
    · rw [hm.reader r' hne]
      exact h.others r' hr'

theorem readerMoves_setReader (s : QueueState) (r : Nat) (pc : ReaderPc) :
    ReaderMoves s (s.setReader r pc) r := by
  constructor
  case reader => exact fun r' hne => update_of_ne hne ..
  all_goals first | rfl | exact fun _ _ _ => rfl | exact fun _ _ => rfl | exact fun _ h => h

/-- A reader that has taken as many messages as before, and left its flags alone. -/
theorem ReaderOk.stays (hok : ReaderOk q s r) (hm : ReaderMoves s s' r)
    (htaken : taken s' r = taken s r) (hidx : s'.readerIdx r = s.readerIdx r)
    (hflags : ∀ c, s'.readFlag c r = s.readFlag c r) (hpc : PcOk q s' r (s'.reader r))
    (hreceived : s'.received r = s.log.take (s'.received r).length)
    (hsocket : s'.localSocket r ++ s'.localFlight r ++ pendingLocal s.writer =
      (s.log.drop (s'.received r).length).filter q.overflows) : ReaderOk q s' r where
  idx := by rw [hidx, htaken, hok.idx]
  le := by rw [htaken, hm.log]; exact hok.le
  window := by rw [htaken, hm.log]; exact hok.window
  strict := by rw [htaken, hm.log, hm.writer]; exact hok.strict
  flag j hj := by rw [hflags, htaken]; exact hok.flag j (hm.kept.mp hj)
  fresh c := by rw [hflags, hm.log]; exact hok.fresh c
  pc := hpc
  received := by rw [hm.log]; exact hreceived
  socket := by rw [hm.log, hm.writer]; exact hsocket

/-- A reader goes on in `dequeue`, and takes nothing. -/
theorem QueueInv.setReader {pc : ReaderPc} (h : QueueInv q s) (hr : r < q.nLocalReader)
    (hrecv : pc = .recv ↔ s.reader r = .recv) (hpc : PcOk q (s.setReader r pc) r pc) :
    QueueInv q (s.setReader r pc) := by
  have hok := h.readers r hr
  have hself : (s.setReader r pc).reader r = pc := update_self ..
  have htaken : taken (s.setReader r pc) r = taken s r := by
    unfold ShmBroadcast.taken
    rw [hself]
    simp only [hrecv]
    rfl
  refine h.reader (readerMoves_setReader s r pc) (fun _ => ?_) (fun hge => by omega) fun _ => rfl
  exact hok.stays (readerMoves_setReader s r pc) htaken rfl (fun _ => rfl) (by rw [hself]; exact hpc)
    hok.received hok.socket

theorem ReaderOk.taken_eq (hpc : s.reader r ≠ .recv) : taken s r = (s.received r).length := by
  unfold ShmBroadcast.taken
  rw [if_neg hpc, Nat.add_zero]

/-- The chunk of a message that a reader has not taken yet. -/
theorem QueueInv.kept_taken (h : QueueInv q s) (hr : r < q.nLocalReader)
    (hlt : taken s r < s.log.length) : Kept q s (taken s r) := by
  have hok := h.readers r hr
  refine ⟨hlt, hok.window, fun hmod => ?_⟩
  have hstrict := hok.strict (by cases hw : s.writer <;> rw [hw] at hmod <;> trivial)
  omega

/-- A chunk that is marked as written, and that a reader has not read, has its next message. -/
theorem QueueInv.taken_lt (h : QueueInv q s) (hr : r < q.nLocalReader)
    (hpc : s.reader r = .test false) (hwritten : s.written (s.readerIdx r) = true) :
    taken s r < s.log.length := by
  have hok := h.readers r hr
  have hle := hok.le
  have hflag := hok.pc
  rw [hpc] at hflag
  by_contra hge
  have htaken : taken s r = s.log.length := by omega
  have hclear := hflag rfl htaken
  have hpos := q.pos
  rw [hok.idx, htaken] at hwritten
  by_cases hmod : Modifying s.writer
  · -- The writer has marked the chunk as not written.
    have hwriter := h.writer
    unfold WriterOk at hwriter
    rw [h.chunks.idx] at hwriter
    cases hw : s.writer with
    | write m offset =>
      rw [hw] at hwriter
      rw [hwriter.2.1] at hwritten
      cases hwritten
    | clear m i =>
      rw [hw] at hwriter
      rw [hwriter.2.1] at hwritten
      cases hwritten
    | idle => rw [hw] at hmod; cases hmod
    | scan m i readCount => rw [hw] at hmod; cases hmod
    | acquired m => rw [hw] at hmod; cases hmod
    | sendLocal m => rw [hw] at hmod; cases hmod
    | sendRemote m => rw [hw] at hmod; cases hmod
  · by_cases hround : s.log.length < q.maxChunks
    · -- No message has been in the chunk.
      rw [Nat.mod_eq_of_lt hround, h.chunks.fresh _ (Nat.le_refl _) hround] at hwritten
      cases hwritten
    · -- The chunk has the message of the last round, which the reader has read.
      have hkept : Kept q s (s.log.length - q.maxChunks) :=
        ⟨by omega, by omega, fun hm => absurd hm hmod⟩
      have hlast := hok.flag _ hkept
      rw [← Nat.mod_eq_sub_mod (Nat.le_of_not_lt hround), hclear, htaken, eq_comm,
        decide_eq_false_iff_not] at hlast
      omega

/-- A reader that is not done with the bytes of a chunk, and what is next. -/
theorem QueueInv.reading (h : QueueInv q s) (hr : r < q.nLocalReader) {bytes : Bytes}
    (hpc : s.reader r = .reading bytes) : ∃ m, s.log[taken s r]? = some m ∧
      (parseChunk bytes = none → bytes.length < (q.chunkBytes m).length ∧
        bytes ++ [s.data (s.readerIdx r) bytes.length] = (q.chunkBytes m).take (bytes.length + 1)) ∧
      ∀ x, parseChunk bytes = some x → x = if q.overflows m then none else some m := by
  have hok := h.readers r hr
  have hreading := hok.pc
  rw [hpc] at hreading
  obtain ⟨m, hm, hbytes⟩ := hreading
  obtain ⟨hlt, hget⟩ := List.getElem?_eq_some_iff.mp hm
  have hsendable : q.Sendable m := h.chunks.sendable m (mem_of_getElem? hm)
  have hparse := parseChunk_chunkBytes hsendable
  refine ⟨m, hm, fun hnone => ?_, fun x hx => ?_⟩
  · have hshort : bytes.length < (q.chunkBytes m).length := by
      by_contra hge
      rw [take_of_length_le (Nat.le_of_not_lt hge)] at hbytes
      rw [hbytes, hparse] at hnone
      cases hnone
    refine ⟨hshort, ?_⟩
    have hdata := (h.chunks.kept _ m (h.kept_taken hr hlt) hm).2 bytes.length _
      (List.getElem?_eq_getElem hshort)
    rw [hok.idx, hdata, take_succ_eq_append_getElem hshort, ← hbytes]
  · have hwhole : bytes ++ (q.chunkBytes m).drop bytes.length = q.chunkBytes m := by
      calc bytes ++ (q.chunkBytes m).drop bytes.length
          = (q.chunkBytes m).take bytes.length ++ (q.chunkBytes m).drop bytes.length := by
            rw [← hbytes]
        _ = q.chunkBytes m := take_append_drop ..
    have hread : parseChunk (bytes ++ (q.chunkBytes m).drop bytes.length) = some x :=
      parseChunk_append hx
    rw [hwhole, hparse] at hread
    exact (Option.some.inj hread).symm

/-- The flags after a reader has read a chunk. -/
theorem markRead_readFlag (q : MessageQueue) (s : QueueState) (r c : Nat) :
    (s.markRead q r).readFlag c r =
      if c = s.readerIdx r then true else s.readFlag c r := by
  unfold markRead
  dsimp only
  rw [update_apply]
  split
  · exact update_self ..
  · rfl

theorem readerMoves_markRead (q : MessageQueue) (s : QueueState) (r : Nat) :
    ReaderMoves s (s.markRead q r) r := by
  constructor
  case readFlag =>
    intro c r' hne
    unfold markRead
    dsimp only
    rw [update_apply]
    split
    · rename_i heq
      rw [heq, update_of_ne hne]
    · rfl
  case set =>
    intro c hc
    rw [markRead_readFlag]
    split
    · rfl
    · exact hc
  case readerIdx => exact fun r' hne => update_of_ne hne ..
  all_goals first | rfl | exact fun _ _ => rfl

theorem ReaderMoves.trans {s'' : QueueState} (h : ReaderMoves s s' r) (h' : ReaderMoves s' s'' r) :
    ReaderMoves s s'' r where
  log := h'.log.trans h.log
  written := h'.written.trans h.written
  data := h'.data.trans h.data
  writer := h'.writer.trans h.writer
  writerIdx := h'.writerIdx.trans h.writerIdx
  readFlag c r' hne := (h'.readFlag c r' hne).trans (h.readFlag c r' hne)
  set c hc := h'.set c (h.set c hc)
  reader r' hne := (h'.reader r' hne).trans (h.reader r' hne)
  readerIdx r' hne := (h'.readerIdx r' hne).trans (h.readerIdx r' hne)
  received r' hne := (h'.received r' hne).trans (h.received r' hne)
  localSocket r' hne := (h'.localSocket r' hne).trans (h.localSocket r' hne)
  localFlight r' hne := (h'.localFlight r' hne).trans (h.localFlight r' hne)

theorem readerMoves_receive (s : QueueState) (r : Nat) (m : Message) :
    ReaderMoves s (s.receive r m) r := by
  constructor
  case reader => exact fun r' hne => update_of_ne hne ..
  case received => exact fun r' hne => update_of_ne hne ..
  all_goals first | rfl | exact fun _ _ _ => rfl | exact fun _ _ => rfl | exact fun _ h => h

/-- A reader marks the chunk of its next message as read. -/
theorem QueueInv.markRead (h : QueueInv q s) (hr : r < q.nLocalReader) {bytes : Bytes}
    (hpc : s.reader r = .reading bytes) (hm : ReaderMoves (s.markRead q r) s' r)
    (hflags : s'.readFlag = (s.markRead q r).readFlag)
    (hidx : s'.readerIdx r = (s.markRead q r).readerIdx r)
    (htaken : taken s' r = taken s r + 1)
    (hpcOk : PcOk q s' r (s'.reader r))
    (hreceived : s'.received r = s.log.take (s'.received r).length)
    (hsocket : s'.localSocket r ++ s'.localFlight r ++ pendingLocal s.writer =
      (s.log.drop (s'.received r).length).filter q.overflows) : QueueInv q s' := by
  have hok := h.readers r hr
  obtain ⟨m, hget, -⟩ := h.reading hr hpc
  obtain ⟨hlt, -⟩ := List.getElem?_eq_some_iff.mp hget
  have hkept := h.kept_taken hr hlt
  have hmoves := (readerMoves_markRead q s r).trans hm
  have hwindow := hok.window
  have hflag : ∀ c, s'.readFlag c r =
      if c = taken s r % q.maxChunks then true else s.readFlag c r := by
    intro c
    rw [hflags, markRead_readFlag, hok.idx]
  refine h.reader hmoves (fun _ => ?_) (fun hge => by omega) fun hmod => ?_
  · constructor
    case idx =>
      rw [hidx, htaken]
      unfold QueueState.markRead
      dsimp only
      rw [update_self, hok.idx, Nat.mod_add_mod]
    case le => rw [htaken, hmoves.log]; exact hlt
    case window => rw [htaken, hmoves.log]; omega
    case strict =>
      rw [htaken, hmoves.log, hmoves.writer]
      intro hc
      have := hok.strict hc
      omega
    case flag =>
      intro j hj
      have hj' : Kept q s j := hmoves.kept.mp hj
      have hltj := hj'.lt
      have hlej := hj'.le
      rw [hflag, htaken]
      -- The chunks of messages that are less than a round apart differ.
      rcases Nat.lt_trichotomy j (taken s r) with hlt' | rfl | hgt
      · rw [if_neg (mod_ne_of_lt hlt' (by omega)), hok.flag j hj', decide_eq_true hlt',
          decide_eq_true (by omega)]
      · rw [if_pos rfl, decide_eq_true (Nat.lt_succ_self _)]
      · rw [if_neg (Ne.symm (mod_ne_of_lt hgt (by omega))), hok.flag j hj',
          decide_eq_false (by omega), decide_eq_false (by omega)]
    case fresh =>
      intro c hc hltc
      rw [hmoves.log] at hc
      rw [hflag, Nat.mod_eq_of_lt (by omega : taken s r < q.maxChunks), if_neg (by omega)]
      exact hok.fresh c hc hltc
    case pc => exact hpcOk
    case received => rw [hmoves.log]; exact hreceived
    case socket => rw [hmoves.log, hmoves.writer]; exact hsocket
  · rw [hflag, if_neg]
    rw [h.chunks.idx]
    exact Ne.symm (hkept.apart hmod)

variable {rest : List Message}

theorem receive_received (s : QueueState) (r : Nat) (m : Message) :
    (s.receive r m).received r = s.received r ++ [m] := update_self ..

theorem receive_reader (s : QueueState) (r : Nat) (m : Message) :
    (s.receive r m).reader r = .idle := update_self ..

/-- A reader takes a message that has overflowed from the socket. -/
theorem QueueInv.recv (h : QueueInv q s) (hr : r < q.nLocalReader) (hpc : s.reader r = .recv)
    {m : Message} (hsocket : s.localSocket r = m :: rest) :
    QueueInv q ({ s with localSocket := update s.localSocket r rest }.receive r m) := by
  have hok := h.readers r hr
  have hrecv := hok.pc
  rw [hpc] at hrecv
  obtain ⟨m', hm', hover⟩ := hrecv
  obtain ⟨hlt, hget⟩ := List.getElem?_eq_some_iff.mp hm'
  -- The message at the head of the socket is the next one.
  have hnext := hok.socket
  rw [hsocket, drop_eq_getElem_cons hlt, hget, filter_cons_of_pos hover,
    cons_append, cons_append] at hnext
  obtain ⟨rfl, hrest⟩ := List.cons.inj hnext
  have hmoves : ReaderMoves s { s with localSocket := update s.localSocket r rest } r := by
    constructor
    case localSocket => exact fun r' hne => update_of_ne hne ..
    all_goals first | rfl | exact fun _ _ _ => rfl | exact fun _ _ => rfl | exact fun _ h => h
  have hmoves' := hmoves.trans (readerMoves_receive _ r m)
  refine h.reader hmoves' (fun _ => hok.stays hmoves' ?_ rfl (fun _ => rfl) ?_ ?_ ?_)
    (fun hge => by omega) fun _ => rfl
  · unfold ShmBroadcast.taken
    rw [receive_received, receive_reader, hpc, length_append]
    rfl
  · rw [receive_reader]
    trivial
  · rw [receive_received, length_append, length_singleton]
    rw [take_succ_eq_append_getElem hlt, hget, ← hok.received]
  · rw [receive_received, length_append, length_singleton]
    change update s.localSocket r rest r ++ s.localFlight r ++ _ = _
    rw [update_self]
    exact hrest

/-- A message arrives at the socket of a reader. -/
theorem QueueInv.deliver (h : QueueInv q s) {m : Message} (hflight : s.localFlight r = m :: rest) :
    QueueInv q { s with
      localFlight := update s.localFlight r rest
      localSocket := update s.localSocket r (s.localSocket r ++ [m]) } := by
  have hmoves : ReaderMoves s { s with
      localFlight := update s.localFlight r rest
      localSocket := update s.localSocket r (s.localSocket r ++ [m]) } r := by
    constructor
    case localFlight => exact fun r' hne => update_of_ne hne ..
    case localSocket => exact fun r' hne => update_of_ne hne ..
    all_goals first | rfl | exact fun _ _ _ => rfl | exact fun _ _ => rfl | exact fun _ h => h
  refine h.reader hmoves (fun hr => ?_) (h.others r) fun _ => rfl
  have hok := h.readers r hr
  refine { hok with flag := fun j hj => hok.flag j (hmoves.kept.mp hj), socket := ?_ }
  have hsocket := hok.socket
  dsimp only
  rw [update_self, update_self, append_assoc (s.localSocket r)]
  rw [hflight] at hsocket
  exact hsocket

theorem setReader_taken (s : QueueState) (r : Nat) {pc : ReaderPc} (hpc : pc ≠ .recv)
    (hold : s.reader r ≠ .recv) : taken (s.setReader r pc) r = taken s r := by
  have hself : (s.setReader r pc).reader r = pc := update_self ..
  rw [ReaderOk.taken_eq hold, ReaderOk.taken_eq (s := s.setReader r pc) (by rw [hself]; exact hpc)]
  rfl

/-- A local reader keeps the invariant. -/
theorem QueueInv.readerStep (h : QueueInv q s) (hs : s.readerStep q r = .ok s') : QueueInv q s' := by
  have hr : r < q.nLocalReader := by
    by_contra hge
    unfold QueueState.readerStep at hs
    rw [h.others r (by omega)] at hs
    cases hs
  have hok := h.readers r hr
  unfold QueueState.readerStep at hs
  -- Where the reader is, it is not at the socket, and does not go there.
  have hset : ∀ {pc}, s.reader r ≠ .recv → pc ≠ .recv → PcOk q (s.setReader r pc) r pc →
      QueueInv q (s.setReader r pc) := fun hold hnew hpcOk =>
    h.setReader hr ⟨fun hc => absurd hc hnew, fun hc => absurd hc hold⟩ hpcOk
  cases hpc : s.reader r with
  | idle =>
    rw [hpc] at hs
    cases hs
  | start =>
    rw [hpc] at hs
    cases hs
    have hold : s.reader r ≠ .recv := by rw [hpc]; exact fun hc => by cases hc
    refine hset hold (fun hc => by cases hc) fun hclear htaken => ?_
    rw [setReader_taken s r (fun hc => by cases hc) hold] at htaken
    change taken s r = s.log.length at htaken
    rw [hok.idx, htaken] at hclear
    exact hclear
  | test readFlag =>
    rw [hpc] at hs
    dsimp only at hs
    have hold : s.reader r ≠ .recv := by rw [hpc]; exact fun hc => by cases hc
    split at hs
    · cases hs
      exact hset hold (fun hc => by cases hc) trivial
    · rename_i htest
      cases hs
      rw [not_or, Bool.not_eq_false, Bool.not_eq_true] at htest
      obtain ⟨hwritten, rfl⟩ := htest
      have hlt := h.taken_lt hr hpc hwritten
      refine hset hold (fun hc => by cases hc) ?_
      unfold PcOk
      rw [setReader_taken s r (fun hc => by cases hc) hold]
      exact ⟨_, List.getElem?_eq_getElem hlt, rfl⟩
  | reading bytes =>
    rw [hpc] at hs
    dsimp only at hs
    have hold : s.reader r ≠ .recv := by rw [hpc]; exact fun hc => by cases hc
    have htaken := ReaderOk.taken_eq hold
    obtain ⟨m, hm, hnext, hdone⟩ := h.reading hr hpc
    obtain ⟨hlt, hget⟩ := List.getElem?_eq_some_iff.mp hm
    cases hparse : parseChunk bytes with
    | none =>
      rw [hparse] at hs
      cases hs
      obtain ⟨-, hbyte⟩ := hnext hparse
      refine hset hold (fun hc => by cases hc) ?_
      unfold PcOk
      rw [setReader_taken s r (fun hc => by cases hc) hold]
      refine ⟨m, hm, ?_⟩
      rw [length_append]
      exact hbyte
    | some x =>
      rw [hparse] at hs
      have hx := hdone x hparse
      cases hover : q.overflows m with
      | true =>
        rw [hover, if_pos rfl] at hx
        subst hx
        cases hs
        have hself : ((s.markRead q r).setReader r .recv).reader r = .recv := update_self ..
        refine h.markRead hr hpc (readerMoves_setReader _ r .recv) rfl rfl ?_ ?_
          hok.received hok.socket
        · unfold ShmBroadcast.taken
          rw [hself, if_pos rfl, if_neg hold]
          rfl
        · rw [hself]
          rw [htaken] at hm
          exact ⟨m, hm, hover⟩
      | false =>
        rw [hover, if_neg (by decide)] at hx
        subst hx
        cases hs
        have hself := receive_reader (s.markRead q r) r m
        have hreceived : _ = s.received r ++ [m] := receive_received (s.markRead q r) r m
        rw [htaken] at hm hlt
        have hget' : s.log[(s.received r).length] = m :=
          Option.some.inj ((List.getElem?_eq_getElem hlt).symm.trans hm)
        refine h.markRead hr hpc (readerMoves_receive _ r m) rfl rfl ?_ ?_ ?_ ?_
        · rw [ReaderOk.taken_eq (by rw [hself]; exact fun hc => by cases hc), htaken,
            hreceived, length_append]
          rfl
        · rw [hself]
          trivial
        · rw [hreceived, length_append, length_singleton,
            take_succ_eq_append_getElem hlt, hget', ← hok.received]
        · have hsocket := hok.socket
          rw [drop_eq_getElem_cons hlt, hget',
            filter_cons_of_neg (by rw [hover]; decide)] at hsocket
          rw [hreceived, length_append]
          exact hsocket
  | recv =>
    rw [hpc] at hs
    dsimp only at hs
    cases hsocket : s.localSocket r with
    | nil =>
      rw [hsocket] at hs
      cases hs
    | cons m rest =>
      rw [hsocket] at hs
      cases hs
      exact h.recv hr hpc hsocket

end Reader

/-! ### Whole runs -/

section Runs
variable {q : MessageQueue} {s s' : QueueState}

/-- No reader gives up where it waits for the socket. -/
def Patient (s : QueueState) (op : QueueOp) : Prop :=
  ∀ r, op = .readerTimeout r → s.reader r ≠ .recv

/-- The readers of other nodes do not change the ring. -/
theorem QueueInv.remote (h : QueueInv q s) (flight socket received : Nat → List Message) :
    QueueInv q { s with
      remoteFlight := flight
      remoteSocket := socket
      remoteReceived := received } := by
  refine ⟨⟨h.chunks.idx, h.chunks.sendable,
    fun j m hj => h.chunks.kept j m ⟨hj.lt, hj.le, hj.free⟩, h.chunks.fresh⟩, h.writer,
    fun r hr => ?_, h.others⟩
  exact (h.readers r hr).same ⟨rfl, rfl, rfl, rfl, rfl, rfl, rfl⟩ id (h.readers r hr).strict rfl

theorem QueueInv.step {op : QueueOp} (h : QueueInv q s) (hlocal : 0 < q.nLocalReader)
    (hC : Patient s op) (hs : QueueState.step q s op = .ok s') : QueueInv q s' := by
  cases op with
  | enqueue m =>
    dsimp only [QueueState.step, QueueState.enqueue] at hs
    cases hw : s.writer with
    | idle =>
      rw [hw] at hs
      dsimp only at hs
      by_cases hsendable : q.Sendable m
      · rw [if_pos hsendable, if_pos hlocal] at hs
        cases hs
        refine h.goto ⟨hsendable, Nat.zero_le _, Nat.le_refl 0, fun _ r hr => by cases hr⟩
          (fun hmod => ?_) (fun hc => hc.elim) (by rw [hw]; rfl)
        rw [hw] at hmod
        cases hmod
      · rw [if_neg hsendable] at hs
        cases hs
    | _ => rw [hw] at hs; cases hs
  | writer => exact h.writerStep hlocal hs
  | writerTimeout =>
    dsimp only [QueueState.step, QueueState.writerTimeout] at hs
    cases hw : s.writer with
    | scan m i readCount =>
      rw [hw] at hs
      dsimp only at hs
      split at hs
      · cases hs
        refine h.goto trivial (fun hmod => ?_) (fun hc => hc.elim) (by rw [hw]; rfl)
        rw [hw] at hmod
        cases hmod
      · cases hs
    | _ => rw [hw] at hs; cases hs
  | dequeue r =>
    dsimp only [QueueState.step] at hs
    cases hpc : s.reader r with
    | idle =>
      rw [hpc] at hs
      dsimp only at hs
      split at hs
      · rename_i hr
        cases hs
        refine h.setReader hr ?_ trivial
        rw [hpc]
        exact ⟨nofun, nofun⟩
      · cases hs
    | _ => rw [hpc] at hs; cases hs
  | reader r => exact h.readerStep hs
  | readerTimeout r =>
    have hpatient := hC r rfl
    dsimp only [QueueState.step, QueueState.readerTimeout] at hs
    cases hpc : s.reader r with
    | test readFlag =>
      rw [hpc] at hs
      dsimp only at hs
      have hr : r < q.nLocalReader := by
        by_contra hge
        rw [h.others r (by omega)] at hpc
        cases hpc
      split at hs
      · cases hs
        refine h.setReader hr ?_ trivial
        rw [hpc]
        exact ⟨nofun, nofun⟩
      · cases hs
    | recv => exact absurd hpc hpatient
    | _ => rw [hpc] at hs; cases hs
  | deliver r =>
    dsimp only [QueueState.step] at hs
    cases hflight : s.localFlight r with
    | nil =>
      rw [hflight] at hs
      cases hs
    | cons m rest =>
      rw [hflight] at hs
      cases hs
      exact h.deliver hflight
  | deliverRemote r =>
    dsimp only [QueueState.step] at hs
    cases hflight : s.remoteFlight r with
    | nil =>
      rw [hflight] at hs
      cases hs
    | cons m rest =>
      rw [hflight] at hs
      cases hs
      exact h.remote _ _ _
  | dequeueRemote r =>
    dsimp only [QueueState.step] at hs
    cases hsocket : s.remoteSocket r with
    | nil =>
      rw [hsocket] at hs
      cases hs
    | cons m rest =>
      rw [hsocket] at hs
      cases hs
      exact h.remote _ _ _

theorem QueueInv.empty (q : MessageQueue) : QueueInv q {} := by
  constructor
  case chunks =>
    refine ⟨(Nat.zero_mod _).symm, fun m hm => (by cases hm), fun j m hj => ?_, fun c _ _ => rfl⟩
    have := hj.lt
    cases this
  case writer => trivial
  case readers =>
    intro r hr
    refine ⟨(Nat.zero_mod _).symm, Nat.le_refl 0, Nat.zero_le _, fun hc => hc.elim,
      fun j hj => ?_, fun c _ _ => rfl, trivial, rfl, rfl⟩
    have := hj.lt
    cases this
  case others => exact fun r hr => rfl

/-! ### The readers of other nodes -/

/-- What the writer has put in the ring and has not sent to the other nodes yet. -/
def pendingRemote (q : MessageQueue) : WriterPc → List Message
  | .sendLocal m => [m]
  | .sendRemote m => if 0 < q.nLocalReader then [m] else []
  | _ => []

/-- The messages that a reader of another node has, or that are on their way to it. -/
structure RemoteOk (q : MessageQueue) (s : QueueState) (r : Nat) : Prop where
  messages : s.remoteReceived r ++ s.remoteSocket r ++ s.remoteFlight r ++
    pendingRemote q s.writer = s.log
  writer : q.nLocalReader = 0 → s.writer = .idle ∨ ∃ m, s.writer = .sendRemote m

variable {r : Nat}

/-- The writer goes on, and neither puts a message in the ring nor sends one. -/
theorem RemoteOk.goto (h : RemoteOk q s r) (hlog : s'.log = s.log)
    (hreceived : s'.remoteReceived = s.remoteReceived) (hsocket : s'.remoteSocket = s.remoteSocket)
    (hflight : s'.remoteFlight = s.remoteFlight)
    (hpending : pendingRemote q s'.writer = pendingRemote q s.writer)
    (hwriter : q.nLocalReader = 0 → s'.writer = .idle ∨ ∃ m, s'.writer = .sendRemote m) :
    RemoteOk q s' r := by
  refine ⟨?_, hwriter⟩
  rw [hreceived, hsocket, hflight, hpending, hlog]
  exact h.messages

theorem pendingRemote_afterLocal (m : Message) (hr : r < q.nRemoteReader)
    (hlocal : 0 < q.nLocalReader) : pendingRemote q (afterLocal q m) = [m] := by
  unfold afterLocal
  rw [if_pos (by omega : 0 < q.nRemoteReader)]
  exact if_pos hlocal

/-- The writer keeps the messages of the other nodes. -/
theorem RemoteOk.writerStep (h : RemoteOk q s r) (hr : r < q.nRemoteReader)
    (hs : s.writerStep q = .ok s') : RemoteOk q s' r := by
  have hmessages := h.messages
  have hwriter := h.writer
  -- Without local readers the writer is at the start or sends.
  have hlocal : (s.writer ≠ .idle ∧ ∀ m, s.writer ≠ .sendRemote m) → 0 < q.nLocalReader := by
    rintro ⟨hidle, hremote⟩
    by_contra hzero
    rcases hwriter (by omega) with hw | ⟨m, hw⟩
    · exact hidle hw
    · exact hremote m hw
  have hnone : ∀ {p : Prop}, 0 < q.nLocalReader → q.nLocalReader = 0 → p :=
    fun hpos hzero => by omega
  unfold QueueState.writerStep at hs
  cases hw : s.writer with
  | idle =>
    rw [hw] at hs
    cases hs
  | sendRemote m =>
    rw [hw] at hs hmessages
    cases hs
    refine ⟨?_, fun _ => .inl rfl⟩
    dsimp only [pendingRemote] at hmessages
    change s.remoteReceived r ++ s.remoteSocket r ++ (s.remoteFlight r ++ [m]) ++ [] =
      if 0 < q.nLocalReader then s.log else s.log ++ [m]
    rw [append_nil, ← append_assoc]
    by_cases hlocal : 0 < q.nLocalReader
    · rw [if_pos hlocal] at hmessages ⊢
      exact hmessages
    · rw [if_neg hlocal] at hmessages ⊢
      rw [append_nil] at hmessages
      rw [hmessages]
  | sendLocal m =>
    rw [hw] at hs hmessages
    cases hs
    have hpending := pendingRemote_afterLocal m hr (hlocal (by rw [hw]; exact ⟨nofun, nofun⟩))
    exact ⟨hpending.symm ▸ hmessages, hnone (hlocal (by rw [hw]; exact ⟨nofun, nofun⟩))⟩
  | scan m i readCount =>
    have hl := hlocal (by rw [hw]; exact ⟨nofun, nofun⟩)
    rw [hw] at hs
    dsimp only at hs
    split at hs
    · cases hs
      exact h.goto rfl rfl rfl rfl (by rw [hw]; rfl) (hnone hl)
    · split at hs
      · cases hs
        exact h.goto rfl rfl rfl rfl (by rw [hw]; rfl) (hnone hl)
      · cases hs
        exact h.goto rfl rfl rfl rfl (by rw [hw]; rfl) (hnone hl)
  | acquired m =>
    rw [hw] at hs
    cases hs
    exact h.goto rfl rfl rfl rfl (by rw [hw]; rfl) (hnone (hlocal (by rw [hw]; exact ⟨nofun, nofun⟩)))
  | write m offset =>
    have hl := hlocal (by rw [hw]; exact ⟨nofun, nofun⟩)
    rw [hw] at hs
    dsimp only at hs
    split at hs
    · cases hs
      exact h.goto rfl rfl rfl rfl (by rw [hw]; rfl) (hnone hl)
    · cases hs
      exact h.goto rfl rfl rfl rfl (by rw [hw]; rfl) (hnone hl)
  | clear m i =>
    have hl := hlocal (by rw [hw]; exact ⟨nofun, nofun⟩)
    rw [hw] at hs hmessages
    dsimp only at hs
    split at hs
    · cases hs
      exact h.goto rfl rfl rfl rfl (by rw [hw]; rfl) (hnone hl)
    · cases hs
      refine ⟨?_, hnone hl⟩
      -- The message is in the ring, and is still to be sent.
      have hpending : pendingRemote q
          (if q.overflows m then .sendLocal m else QueueState.afterLocal q m) = [m] := by
        split
        · rfl
        · exact pendingRemote_afterLocal m hr hl
      dsimp only
      rw [hpending, ← hmessages]
      dsimp only [pendingRemote]
      rw [append_nil]

theorem RemoteOk.step {op : QueueOp} (h : RemoteOk q s r) (hr : r < q.nRemoteReader)
    (hs : QueueState.step q s op = .ok s') : RemoteOk q s' r := by
  have hmessages := h.messages
  cases op with
  | enqueue m =>
    dsimp only [QueueState.step, QueueState.enqueue] at hs
    cases hw : s.writer with
    | idle =>
      rw [hw] at hs hmessages
      dsimp only at hs
      by_cases hsendable : q.Sendable m
      · rw [if_pos hsendable] at hs
        cases hs
        by_cases hlocal : 0 < q.nLocalReader
        · refine h.goto rfl rfl rfl rfl ?_ fun hzero => by omega
          rw [hw]
          dsimp only
          rw [if_pos hlocal]
          rfl
        · refine h.goto rfl rfl rfl rfl ?_ fun _ => .inr ⟨m, if_neg hlocal⟩
          rw [hw]
          dsimp only
          rw [if_neg hlocal]
          exact if_neg hlocal
      · rw [if_neg hsendable] at hs
        cases hs
    | _ => rw [hw] at hs; cases hs
  | writer => exact h.writerStep hr hs
  | writerTimeout =>
    dsimp only [QueueState.step, QueueState.writerTimeout] at hs
    cases hw : s.writer with
    | scan m i readCount =>
      rw [hw] at hs
      dsimp only at hs
      split at hs
      · cases hs
        exact h.goto rfl rfl rfl rfl (by rw [hw]; rfl) fun _ => .inl rfl
      · cases hs
    | _ => rw [hw] at hs; cases hs
  | dequeue r' =>
    dsimp only [QueueState.step] at hs
    split at hs
    · split at hs
      · cases hs
        exact h.goto rfl rfl rfl rfl rfl h.writer
      · cases hs
    · cases hs
  | reader r' =>
    dsimp only [QueueState.step, QueueState.readerStep] at hs
    repeat' split at hs
    all_goals first
      | cases hs; exact h.goto rfl rfl rfl rfl rfl h.writer
      | cases hs
  | readerTimeout r' =>
    dsimp only [QueueState.step, QueueState.readerTimeout] at hs
    repeat' split at hs
    all_goals first
      | cases hs; exact h.goto rfl rfl rfl rfl rfl h.writer
      | cases hs
  | deliver r' =>
    dsimp only [QueueState.step] at hs
    split at hs
    · cases hs
    · cases hs
      exact h.goto rfl rfl rfl rfl rfl h.writer
  | deliverRemote r' =>
    dsimp only [QueueState.step] at hs
    cases hflight : s.remoteFlight r' with
    | nil =>
      rw [hflight] at hs
      cases hs
    | cons m rest =>
      rw [hflight] at hs
      cases hs
      refine ⟨?_, h.writer⟩
      dsimp only
      by_cases hne : r = r'
      · subst hne
        rw [update_self, update_self, ← hmessages, hflight]
        simp only [append_assoc, cons_append, nil_append]
      · rw [update_of_ne hne, update_of_ne hne]
        exact hmessages
  | dequeueRemote r' =>
    dsimp only [QueueState.step] at hs
    cases hsocket : s.remoteSocket r' with
    | nil =>
      rw [hsocket] at hs
      cases hs
    | cons m rest =>
      rw [hsocket] at hs
      cases hs
      refine ⟨?_, h.writer⟩
      dsimp only
      by_cases hne : r = r'
      · subst hne
        rw [update_self, update_self, ← hmessages, hsocket]
        simp only [append_assoc, cons_append, nil_append]
      · rw [update_of_ne hne, update_of_ne hne]
        exact hmessages

/-! ### What a reader can rely on -/

/-- The chunk of a reader that has seen its flag and the mark, and has not set its flag. -/
structure ChunkSame (s s' : QueueState) (r : Nat) : Prop where
  written : s'.written (s.readerIdx r) = s.written (s.readerIdx r)
  data : s'.data (s.readerIdx r) = s.data (s.readerIdx r)
  readFlag : s'.readFlag (s.readerIdx r) = s.readFlag (s.readerIdx r)

variable {bytes : Bytes}

/-- The writer does not change a chunk that is being read. -/
theorem QueueInv.chunkSame (h : QueueInv q s) (hr : r < q.nLocalReader)
    (hpc : s.reader r = .reading bytes) (hs : s.writerStep q = .ok s') : ChunkSame s s' r := by
  have hok := h.readers r hr
  obtain ⟨m, hm, -⟩ := h.reading hr hpc
  obtain ⟨hlt, -⟩ := List.getElem?_eq_some_iff.mp hm
  have hne : HasChunk s.writer → s.readerIdx r ≠ s.writerIdx := by
    intro hchunk
    rw [hok.idx, h.chunks.idx]
    exact mod_ne_of_lt hlt (hok.strict hchunk)
  unfold QueueState.writerStep at hs
  cases hw : s.writer with
  | idle =>
    rw [hw] at hs
    cases hs
  | scan m i readCount =>
    rw [hw] at hs
    dsimp only at hs
    split at hs
    · cases hs
      exact ⟨rfl, rfl, rfl⟩
    · split at hs
      · cases hs
        exact ⟨rfl, rfl, rfl⟩
      · cases hs
        exact ⟨rfl, rfl, rfl⟩
  | acquired m =>
    rw [hw] at hs hne
    cases hs
    exact ⟨update_of_ne (hne trivial) .., rfl, rfl⟩
  | write m offset =>
    rw [hw] at hs hne
    dsimp only at hs
    split at hs
    · cases hs
      exact ⟨rfl, update_of_ne (hne trivial) .., rfl⟩
    · cases hs
      exact ⟨rfl, rfl, rfl⟩
  | clear m i =>
    rw [hw] at hs hne
    dsimp only at hs
    split at hs
    · cases hs
      exact ⟨rfl, rfl, update_of_ne (hne trivial) ..⟩
    · cases hs
      exact ⟨update_of_ne (hne trivial) .., rfl, rfl⟩
  | sendLocal m =>
    rw [hw] at hs
    cases hs
    exact ⟨rfl, rfl, rfl⟩
  | sendRemote m =>
    rw [hw] at hs
    cases hs
    exact ⟨rfl, rfl, rfl⟩

/-- The actions of one reader and of its socket, and a send that the writer has begun. -/
def ReaderGoes (r : Nat) (s : QueueState) (op : QueueOp) : Prop :=
  op = .dequeue r ∨ op = .reader r ∨ op = .deliver r ∨ (op = .writer ∧ pendingLocal s.writer ≠ [])

/-- A reader can receive a message. -/
def CanReceive (q : MessageQueue) (r : Nat) (s : QueueState) (m : Message) : Prop :=
  ∃ s', Run (step q) (ReaderGoes r) s s' ∧ s'.received r = s.received r ++ [m]

variable {m : Message}

theorem CanReceive.of_step (op : QueueOp) (s' : QueueState) (hgoes : ReaderGoes r s op)
    (hs : step q s op = .ok s') (hreceived : s'.received r = s.received r)
    (h : CanReceive q r s' m) : CanReceive q r s m := by
  obtain ⟨s'', hrun, hm⟩ := h
  exact ⟨s'', (Run.next op .start hgoes hs).trans hrun, hm.trans (by rw [hreceived])⟩

/-- From the socket. -/
theorem QueueInv.canReceive_recv (h : QueueInv q s) (hr : r < q.nLocalReader)
    (hpc : s.reader r = .recv) (hm : s.log[(s.received r).length]? = some m) :
    CanReceive q r s m := by
  -- A message that is in the socket is taken.
  have hin : ∀ s : QueueState, ∀ rest, s.reader r = .recv → s.localSocket r = m :: rest →
      CanReceive q r s m := by
    intro s rest hpc hsocket
    refine ⟨{ s with localSocket := update s.localSocket r rest }.receive r m,
      Run.next (.reader r) .start (.inr (.inl rfl)) ?_, ?_⟩
    · dsimp only [QueueState.step, QueueState.readerStep]
      rw [hpc]
      dsimp only
      rw [hsocket]
    · exact update_self ..
  -- A message that is on its way arrives.
  have hflying : ∀ s : QueueState, ∀ rest, s.reader r = .recv → s.localSocket r = [] →
      s.localFlight r = m :: rest → CanReceive q r s m := by
    intro s rest hpc hsocket hflight
    refine CanReceive.of_step (.deliver r) { s with
      localFlight := update s.localFlight r rest
      localSocket := update s.localSocket r (s.localSocket r ++ [m]) }
      (.inr (.inr (.inl rfl))) ?_ rfl (hin _ [] hpc ?_)
    · dsimp only [QueueState.step]
      rw [hflight]
    · dsimp only
      rw [update_self, hsocket, nil_append]
  have hok := h.readers r hr
  have hrecv := hok.pc
  rw [hpc] at hrecv
  obtain ⟨m', hm', hover⟩ := hrecv
  obtain rfl : m' = m := Option.some.inj (hm'.symm.trans hm)
  obtain ⟨hlt, hget⟩ := List.getElem?_eq_some_iff.mp hm
  have hnext := hok.socket
  rw [drop_eq_getElem_cons hlt, hget, filter_cons_of_pos hover] at hnext
  cases hsocket : s.localSocket r with
  | cons m1 rest =>
    rw [hsocket] at hnext
    obtain ⟨rfl, -⟩ := List.cons.inj hnext
    exact hin s rest hpc hsocket
  | nil =>
    rw [hsocket, nil_append] at hnext
    cases hflight : s.localFlight r with
    | cons m1 rest =>
      rw [hflight] at hnext
      obtain ⟨rfl, -⟩ := List.cons.inj hnext
      exact hflying s rest hpc hsocket hflight
    | nil =>
      -- The writer has put the mark in the chunk, and is about to send the message.
      rw [hflight, nil_append] at hnext
      cases hw : s.writer with
      | sendLocal m1 =>
        rw [hw] at hnext
        obtain ⟨rfl, -⟩ := List.cons.inj hnext
        refine CanReceive.of_step .writer
          { s.sendLocal m1 with writer := QueueState.afterLocal q m1 }
          (.inr (.inr (.inr ⟨rfl, ?_⟩))) ?_ rfl (hflying _ [] hpc hsocket ?_)
        · rw [hw]
          exact cons_ne_nil m1 []
        · dsimp only [QueueState.step, QueueState.writerStep]
          rw [hw]
        · dsimp only [QueueState.sendLocal]
          rw [hflight, nil_append]
      | _ => rw [hw] at hnext; cases hnext

/-- From all the bytes of a chunk. -/
theorem QueueInv.canReceive_parsed (h : QueueInv q s) (hr : r < q.nLocalReader)
    (hpc : s.reader r = .reading bytes) {x : Option Message} (hparse : parseChunk bytes = some x)
    (hm : s.log[(s.received r).length]? = some m) :
    CanReceive q r s m := by
  have htaken := ReaderOk.taken_eq (s := s) (r := r) (by rw [hpc]; exact nofun)
  obtain ⟨m', hm', -, hdone⟩ := h.reading hr hpc
  obtain rfl : m' = m := Option.some.inj (hm'.symm.trans (htaken ▸ hm))
  have hx := hdone x hparse
  cases hover : q.overflows m' with
  | true =>
    rw [hover, if_pos rfl] at hx
    subst hx
    have hs : s.readerStep q r = .ok ((s.markRead q r).setReader r .recv) := by
      unfold QueueState.readerStep
      rw [hpc]
      dsimp only
      rw [hparse]
    exact CanReceive.of_step (.reader r) _ (.inr (.inl rfl)) hs rfl
      ((h.readerStep hs).canReceive_recv hr (update_self ..) hm)
  | false =>
    rw [hover, if_neg (by decide)] at hx
    subst hx
    have hs : s.readerStep q r = .ok ((s.markRead q r).receive r m') := by
      unfold QueueState.readerStep
      rw [hpc]
      dsimp only
      rw [hparse]
    exact ⟨_, Run.next (.reader r) .start (.inr (.inl rfl)) hs, update_self ..⟩

/-- From some bytes of a chunk. -/
theorem QueueInv.canReceive_reading (n : Nat) (h : QueueInv q s) (hr : r < q.nLocalReader)
    (hpc : s.reader r = .reading bytes) (hm : s.log[(s.received r).length]? = some m)
    (hn : (q.chunkBytes m).length ≤ bytes.length + n) : CanReceive q r s m := by
  induction n generalizing s bytes with
  | zero =>
    cases hparse : parseChunk bytes with
    | some x => exact h.canReceive_parsed hr hpc hparse hm
    | none =>
      -- All bytes of the chunk have been read.
      have htaken := ReaderOk.taken_eq (s := s) (r := r) (by rw [hpc]; exact nofun)
      obtain ⟨m', hm', hnext, -⟩ := h.reading hr hpc
      obtain rfl : m' = m := Option.some.inj (hm'.symm.trans (htaken ▸ hm))
      have := (hnext hparse).1
      omega
  | succ n ih =>
    cases hparse : parseChunk bytes with
    | some x => exact h.canReceive_parsed hr hpc hparse hm
    | none =>
      have hs : s.readerStep q r = .ok (s.setReader r
          (.reading (bytes ++ [s.data (s.readerIdx r) bytes.length]))) := by
        unfold QueueState.readerStep
        rw [hpc]
        dsimp only
        rw [hparse]
      refine CanReceive.of_step (.reader r) _ (.inr (.inl rfl)) hs rfl
        (ih (h.readerStep hs) (update_self ..) hm ?_)
      rw [length_append, length_singleton]
      omega

/-- From the look at its flag. -/
theorem QueueInv.canReceive_start (h : QueueInv q s) (hr : r < q.nLocalReader)
    (hpc : s.reader r = .start) (hm : s.log[(s.received r).length]? = some m) :
    CanReceive q r s m := by
  have htaken := ReaderOk.taken_eq (s := s) (r := r) (by rw [hpc]; exact nofun)
  have hok := h.readers r hr
  obtain ⟨hlt, -⟩ := List.getElem?_eq_some_iff.mp hm
  have hkept := h.kept_taken hr (htaken ▸ hlt)
  have hflag := hok.flag _ hkept
  rw [← hok.idx, decide_eq_false (Nat.lt_irrefl _)] at hflag
  have hwritten := (h.chunks.kept _ m hkept (htaken ▸ hm)).1
  rw [← hok.idx] at hwritten
  have hs : s.readerStep q r = .ok (s.setReader r (.test false)) := by
    unfold QueueState.readerStep
    rw [hpc, hflag]
  have hs' : (s.setReader r (.test false)).readerStep q r =
      .ok ((s.setReader r (.test false)).setReader r (.reading [])) := by
    have hself : (s.setReader r (.test false)).reader r = .test false := update_self ..
    unfold QueueState.readerStep
    rw [hself]
    refine if_neg ?_
    rintro (hunwritten | hread)
    · exact Bool.false_ne_true (hunwritten.symm.trans hwritten)
    · cases hread
  refine CanReceive.of_step (.reader r) _ (.inr (.inl rfl)) hs rfl
    (CanReceive.of_step (.reader r) _ (.inr (.inl rfl)) hs' rfl ?_)
  exact ((h.readerStep hs).readerStep hs').canReceive_reading (q.chunkBytes m).length hr
    (update_self ..) hm (Nat.le_add_left ..)

/-- Wherever a reader is in `dequeue`, it can receive its next message. -/
theorem QueueInv.canReceive (h : QueueInv q s) (hr : r < q.nLocalReader)
    (hm : s.log[(s.received r).length]? = some m) : CanReceive q r s m := by
  have hlocal : 0 < q.nLocalReader := by omega
  cases hpc : s.reader r with
  | idle =>
    have hs : QueueState.step q s (.dequeue r) = .ok (s.setReader r .start) := by
      dsimp only [QueueState.step]
      rw [hpc]
      exact if_pos hr
    refine CanReceive.of_step (.dequeue r) _ (.inl rfl) hs rfl ?_
    exact (h.step hlocal (fun _ hc => by cases hc) hs).canReceive_start hr (update_self ..) hm
  | start => exact h.canReceive_start hr hpc hm
  | test readFlag =>
    by_cases htest : s.written (s.readerIdx r) = false ∨ readFlag = true
    · -- It goes back and looks at its flag again.
      have hs : s.readerStep q r = .ok (s.setReader r .start) := by
        unfold QueueState.readerStep
        rw [hpc]
        exact if_pos htest
      exact CanReceive.of_step (.reader r) _ (.inr (.inl rfl)) hs rfl
        ((h.readerStep hs).canReceive_start hr (update_self ..) hm)
    · have hs : s.readerStep q r = .ok (s.setReader r (.reading [])) := by
        unfold QueueState.readerStep
        rw [hpc]
        exact if_neg htest
      exact CanReceive.of_step (.reader r) _ (.inr (.inl rfl)) hs rfl
        ((h.readerStep hs).canReceive_reading (q.chunkBytes m).length hr
          (update_self ..) hm (Nat.le_add_left ..))
  | reading bytes =>
    exact h.canReceive_reading (q.chunkBytes m).length hr hpc hm (Nat.le_add_left ..)
  | recv => exact h.canReceive_recv hr hpc hm

/-- The messages come in order: none is lost, repeated or torn. -/
structure InOrder (q : MessageQueue) (s : QueueState) : Prop where
  received : ∀ r < q.nLocalReader, s.received r <+: s.log
  remoteReceived : ∀ r < q.nRemoteReader, s.remoteReceived r <+: s.log
  chunkSame : ∀ r < q.nLocalReader, ∀ bytes, s.reader r = .reading bytes →
    ∀ s', s.writerStep q = .ok s' → ChunkSame s s' r
  next : ∀ r < q.nLocalReader, ∀ m, s.log[(s.received r).length]? = some m → CanReceive q r s m
  nextRemote : ∀ r < q.nRemoteReader, s.remoteReceived r ++ s.remoteSocket r ++ s.remoteFlight r ++
    pendingRemote q s.writer = s.log

/-- While no reader gives up where it waits for the socket, the messages come in order. -/
theorem inOrder_of_run (h : Run (step q) Patient {} s) : InOrder q s := by
  have hring : 0 < q.nLocalReader → QueueInv q s := fun hlocal =>
    h.invariant (QueueInv q) (QueueInv.empty q) fun s op s' hinv hC hs => hinv.step hlocal hC hs
  have hremote : ∀ r < q.nRemoteReader, RemoteOk q s r := fun r hr =>
    h.invariant (RemoteOk q · r) ⟨rfl, fun _ => .inl rfl⟩ fun s op s' hinv _ hs => hinv.step hr hs
  constructor
  case received =>
    intro r hr
    rw [((hring (by omega)).readers r hr).received]
    exact List.take_prefix ..
  case remoteReceived =>
    intro r hr
    rw [← (hremote r hr).messages]
    simp only [append_assoc]
    exact prefix_append ..
  case chunkSame => exact fun r hr bytes hpc s' hs => (hring (by omega)).chunkSame hr hpc hs
  case next => exact fun r hr m hm => (hring (by omega)).canReceive hr hm
  case nextRemote => exact fun r hr => (hremote r hr).messages

instance (s : QueueState) (op : QueueOp) : Decidable (Patient s op) :=
  match op with
  | .readerTimeout r => decidable_of_iff (s.reader r ≠ .recv)
      ⟨fun h _ heq => QueueOp.readerTimeout.inj heq ▸ h, fun h => h r rfl⟩
  | .enqueue _ => isTrue nofun
  | .writer => isTrue nofun
  | .writerTimeout => isTrue nofun
  | .dequeue _ => isTrue nofun
  | .reader _ => isTrue nofun
  | .deliver _ => isTrue nofun
  | .deliverRemote _ => isTrue nofun
  | .dequeueRemote _ => isTrue nofun

/-- One local reader and two chunks: a message of two bytes overflows, an empty one does not. -/
def smallQueue : MessageQueue where
  nLocalReader := 1
  nRemoteReader := 0
  maxChunks := 2
  maxChunkBytes := 8
  pos := by decide

/-- A message that overflows is enqueued, and the reader waits for it. -/
def untilRecv : List QueueOp :=
  [.enqueue [[1, 2]]] ++ List.replicate 7 .writer ++ [.dequeue 0] ++ List.replicate 4 (.reader 0)

theorem inOrder_smallQueue :
    ∃ s : QueueState, s.received 0 = [[[1, 2]]] ∧ InOrder smallQueue s := by
  obtain ⟨s₀, s, hstart, hrun, hreceived⟩ := exists_run_of_check
    (step smallQueue) Patient (fun s => s.received 0 = [[[1, 2]]]) (.ok {})
    (untilRecv ++ [.writer, .deliver 0, .reader 0]) (by decide +kernel)
  cases hstart
  exact ⟨s, hreceived, inOrder_of_run hrun⟩

/-- The chunk was marked as read before the reader gave up. Its message stays in the socket, and it
receives the one after it. -/
theorem message_passedOver : ¬ ∀ (q : MessageQueue) (s : QueueState),
    Run (step q) (fun _ _ => True) {} s → InOrder q s := by
  intro hall
  obtain ⟨s₀, s, hstart, hrun, hreceived, hlog⟩ := exists_run_of_check
    (step smallQueue) (fun _ _ => True)
    (fun s => s.received 0 = [[[]]] ∧ s.log = [[[1, 2]], [[]]]) (.ok {})
    (untilRecv ++ [.readerTimeout 0, .writer, .enqueue [[]]] ++ List.replicate 13 .writer ++
      [.dequeue 0] ++ List.replicate 10 (.reader 0)) (by decide +kernel)
  cases hstart
  have hprefix := (hall smallQueue s hrun).received 0 (by decide)
  rw [hreceived, hlog] at hprefix
  revert hprefix
  decide

end Runs

end Vllm.Proofs.Distributed.ShmBroadcast
