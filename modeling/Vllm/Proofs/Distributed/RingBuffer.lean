import Vllm.Distributed.ShmRingBuffer
import Vllm.Lib.Run
import Mathlib.Algebra.Order.Ring.Int

/-!
# `Vllm.Proofs.Distributed.RingBuffer`: the chunks of the ring buffer

The live chunks are seen as a list in the order of their allocation. Each has a place, which is
its address up to a multiple of the size of the memory, so that the places are ordered and lie
between `data_buffer_start` and `data_buffer_end`.

* `emod_disjoint`: places that are apart by less than one round are apart in the memory.
* `RingInv`: the invariant; `ringInv_allocateBuf`, `ringInv_write`, `ringInv_freeBuf`: the
  operations keep it.
-/

set_option autoImplicit false

namespace Vllm.Proofs.Distributed

open Vllm.Lib Vllm.Distributed SingleWriterShmRingBuffer List

/-! ### Bytes -/

variable {x : Int}

theorem byte2int_int2byte {bytes : List UInt8} (h : int2byte x = .ok bytes) :
    byte2int bytes = x ∧ bytes.length = 4 := by
  unfold int2byte at h
  split at h
  · rename_i hx
    dsimp only at h
    cases h
    refine ⟨?_, rfl⟩
    unfold byte2int
    simp only [foldr_cons, foldr_nil, UInt8.toNat_ofNat']
    split <;> omega
  · cases h

theorem int2byte_eq_ok (h0 : 0 ≤ x) (h : x < 2147483648) : ∃ bytes, int2byte x = .ok bytes := by
  unfold int2byte
  rw [if_pos (.inl (by omega))]
  exact ⟨_, rfl⟩

theorem int2byte_eq_error {e : PyError} (h : int2byte x = .error e) :
    e = .overflowError "int too big to convert" := by
  unfold int2byte at h
  split at h
  · exact (nomatch h)
  · exact (Except.error.inj h).symm

section Memory

variable {rb : SingleWriterShmRingBuffer} {start i : Int} {n : Nat} {data : List UInt8}

/-- A read beside a write. -/
theorem read_write_of_disjoint (h : start + n ≤ i ∨ i + data.length ≤ start) :
    (rb.write i data).read start n = rb.read start n := by
  unfold SingleWriterShmRingBuffer.read
  refine map_congr_left fun k hk => ?_
  have hlt := mem_range.mp hk
  show (if i ≤ start + k ∧ start + k < i + data.length then _ else _) = _
  rw [if_neg (by omega)]

/-- A read of what was written. -/
theorem read_write_self : (rb.write i data).read i data.length = data := by
  unfold SingleWriterShmRingBuffer.read
  refine ext_getElem (by simp) fun k hk hk' => ?_
  rw [getElem_map, getElem_range]
  show (if i ≤ i + (k : Int) ∧ i + (k : Int) < i + data.length then
    data.getD (i + (k : Int) - i).toNat 0 else _) = _
  rw [if_pos ⟨by omega, by omega⟩]
  have hidx : (i + (k : Int) - i).toNat = k := by omega
  rw [hidx]
  simp [List.getD, hk']

end Memory

/-! ### Places in the memory -/

/-- Two places that are less than one round apart, of chunks that do not cross the end of the
memory. -/
theorem emod_disjoint {y s t B : Int} (hB : 0 < B) (hs : 0 < s) (ht : 0 < t) (hxy : x + s ≤ y)
    (hround : y + t ≤ x + B) (hx : x % B + s ≤ B) :
    x % B + s ≤ y % B ∨ y % B + t ≤ x % B := by
  have hdx := Int.emod_add_mul_ediv x B
  have hdy := Int.emod_add_mul_ediv y B
  have hx0 := Int.emod_nonneg x hB.ne'
  have hy0 := Int.emod_nonneg y hB.ne'
  -- The number of the round is the same or the next one.
  have hlow : x / B ≤ y / B := Int.ediv_le_ediv hB (by omega)
  have hhigh : y / B < x / B + 2 := by
    refine Int.lt_of_mul_lt_mul_left (a := B) ?_ hB.le
    rw [Int.mul_add]
    omega
  obtain heq | heq : y / B = x / B ∨ y / B = x / B + 1 := by omega
  · rw [heq] at hdy
    exact .inl (by omega)
  · rw [heq, Int.mul_add] at hdy
    exact .inr (by omega)

theorem emod_reset {B : Int} : ((x / B + 1) * B) % B = 0 := Int.mul_emod_left _ _

/-- Where the next chunk starts: after the data, and it does not cross the end. -/
theorem bufferEndReset_spec {rb : SingleWriterShmRingBuffer} {size : Int}
    (hB : 0 < rb.bufferSize) (hfit : rb.bufferEndReset size + size - rb.dataBufferStart ≤
      rb.bufferSize) (hfull : rb.dataBufferStart ≤ rb.dataBufferEnd) :
    rb.dataBufferEnd ≤ rb.bufferEndReset size ∧
      rb.bufferEndReset size % rb.bufferSize + size ≤ rb.bufferSize ∧
      (rb.dataBufferEnd = 0 → rb.dataBufferStart = 0 → rb.bufferEndReset size = 0) := by
  unfold bufferEndReset at hfit ⊢
  have hdiv := Int.emod_add_mul_ediv rb.dataBufferEnd rb.bufferSize
  have hlt := Int.emod_lt_of_pos rb.dataBufferEnd hB
  have hmul : (rb.dataBufferEnd / rb.bufferSize + 1) * rb.bufferSize =
      rb.bufferSize * (rb.dataBufferEnd / rb.bufferSize) + rb.bufferSize := by
    rw [Int.add_mul, Int.mul_comm, Int.one_mul]
  split
  · rename_i hover
    rw [if_pos hover] at hfit
    refine ⟨by omega, ?_, fun h0 hs0 => ?_⟩
    · rw [emod_reset]
      omega
    · rw [h0] at hover hfit hmul
      simp only [Int.zero_emod, Int.zero_ediv, Int.mul_zero] at hover hmul
      rw [Int.zero_ediv] at hfit
      omega
  · rename_i hover
    exact ⟨le_rfl, by omega, fun h0 _ => h0⟩

/-! ### The invariant -/

/-- A live chunk. Its place is its address up to a multiple of the size of the memory; the size
includes the header. -/
structure Chunk where
  id : Nat
  address : Int
  place : Int
  size : Int

/-- The ids of the chunks count on from `id`, and wrap around. -/
def Numbered : Nat → List Chunk → Prop
  | _, [] => True
  | id, c :: chunks => c.id = id ∧ Numbered ((id + 1) % idMax) chunks

theorem idMax_pos : 0 < idMax := by
  unfold idMax
  omega

variable {id : Nat}

theorem numbered_append {chunks : List Chunk} {c : Chunk} (hid : id < idMax)
    (h : Numbered id chunks) (hc : c.id = (id + chunks.length) % idMax) :
    Numbered id (chunks ++ [c]) := by
  induction chunks generalizing id with
  | nil =>
    refine ⟨?_, trivial⟩
    rw [hc]
    exact Nat.mod_eq_of_lt hid
  | cons d chunks ih =>
    refine ⟨h.1, ih (Nat.mod_lt _ idMax_pos) h.2 ?_⟩
    rw [hc, length_cons, Nat.mod_add_mod]
    congr 1
    omega

/-- The id of a chunk from its position. -/
theorem numbered_mem {chunks : List Chunk} {c : Chunk} (hid : id < idMax) (h : Numbered id chunks)
    (hc : c ∈ chunks) :
    ∃ i < chunks.length, c.id = (id + i) % idMax := by
  induction chunks generalizing id with
  | nil => exact absurd hc not_mem_nil
  | cons d chunks ih =>
    rcases mem_cons.mp hc with rfl | hc
    · refine ⟨0, Nat.succ_pos _, ?_⟩
      rw [h.1]
      exact (Nat.mod_eq_of_lt hid).symm
    · obtain ⟨i, hi, heq⟩ := ih (Nat.mod_lt _ idMax_pos) h.2 hc
      refine ⟨i + 1, Nat.succ_lt_succ hi, ?_⟩
      rw [heq, Nat.mod_add_mod]
      congr 1
      omega

/-- The next id is free while there are fewer chunks than ids. -/
theorem numbered_next_ne {chunks : List Chunk} {c : Chunk} (hid : id < idMax)
    (h : Numbered id chunks) (hfew : chunks.length < idMax) (hc : c ∈ chunks) :
    c.id ≠ (id + chunks.length) % idMax := by
  obtain ⟨i, hi, heq⟩ := numbered_mem hid h hc
  rw [heq]
  unfold idMax at *
  omega

/-- A chunk lies between the start and the end of the data and does not cross the end of the
memory; its header holds its id and its size. -/
structure InMemory (rb : SingleWriterShmRingBuffer) (c : Chunk) : Prop where
  lower : rb.dataBufferStart ≤ c.place
  upper : c.place + c.size ≤ rb.dataBufferEnd
  large : mdSize < c.size
  inside : c.place % rb.bufferSize + c.size ≤ rb.bufferSize
  address : c.address % rb.bufferSize = c.place % rb.bufferSize
  idBytes : int2byte c.id = .ok (rb.read (c.place % rb.bufferSize) 4)
  sizeBytes : int2byte c.size = .ok (rb.read (c.place % rb.bufferSize + 4) 4)

/-- The invariant, also within `free_buf`. -/
structure RingInv (rb : SingleWriterShmRingBuffer) (chunks : List Chunk) : Prop where
  writer : rb.isWriter = true
  start : 0 ≤ rb.dataBufferStart
  ordered : rb.dataBufferStart ≤ rb.dataBufferEnd
  full : rb.dataBufferEnd - rb.dataBufferStart ≤ rb.bufferSize
  secondRound : rb.dataBufferEnd < 2 * rb.bufferSize
  empty : chunks = [] → rb.dataBufferStart = 0 ∧ rb.dataBufferEnd = 0
  first : ∀ c ∈ chunks.head?, c.place = rb.dataBufferStart
  places : chunks.Pairwise fun c d => c.place + c.size ≤ d.place
  inMemory : ∀ c ∈ chunks, InMemory rb c
  metadata : rb.metadata.entries = chunks.map fun c => (c.id, c.address)
  idStart : rb.monotonicIdStart < idMax
  idEnd : rb.monotonicIdEnd = (rb.monotonicIdStart + chunks.length) % idMax
  numbered : Numbered rb.monotonicIdStart chunks

section Inv

variable {rb : SingleWriterShmRingBuffer} {chunks : List Chunk} {c d : Chunk}

theorem bufferSize_pos (rb : SingleWriterShmRingBuffer) : 0 < rb.bufferSize := by
  have := rb.dataBufferSize.pos
  unfold bufferSize
  omega

/-- Two chunks do not overlap in the memory. -/
theorem RingInv.disjoint (h : RingInv rb chunks) (hc : c ∈ chunks) (hd : d ∈ chunks)
    (hplace : c.place + c.size ≤ d.place) :
    c.place % rb.bufferSize + c.size ≤ d.place % rb.bufferSize ∨
      d.place % rb.bufferSize + d.size ≤ c.place % rb.bufferSize := by
  have hc' := h.inMemory c hc
  have hd' := h.inMemory d hd
  have hlc := hc'.large
  have hld := hd'.large
  have hlow := hc'.lower
  have hup := hd'.upper
  have hfull := h.full
  unfold mdSize at hlc hld
  exact emod_disjoint (bufferSize_pos rb) (by omega) (by omega) hplace (by omega) hc'.inside

/-- Of two chunks one is before the other. -/
theorem RingInv.place_cases (h : RingInv rb chunks) (hc : c ∈ chunks) (hd : d ∈ chunks) :
    c = d ∨ c.place + c.size ≤ d.place ∨ d.place + d.size ≤ c.place := by
  by_cases heq : c = d
  · exact .inl heq
  · obtain ⟨i, hi, rfl⟩ := getElem_of_mem hc
    obtain ⟨j, hj, rfl⟩ := getElem_of_mem hd
    rcases Nat.lt_trichotomy i j with hlt | hlt | hlt
    · exact .inr (.inl (pairwise_iff_getElem.mp h.places i j hi hj hlt))
    · subst hlt
      exact absurd rfl heq
    · exact .inr (.inr (pairwise_iff_getElem.mp h.places j i hj hi hlt))

theorem RingInv.exists_chunk {id : Nat} {address : Int} (h : RingInv rb chunks)
    (hget : rb.metadata.get? id = some address) :
    ∃ c ∈ chunks, c.id = id ∧ c.address = address := by
  rw [← PyDict.mem_entries_iff, h.metadata] at hget
  obtain ⟨c, hc, heq⟩ := mem_map.mp hget
  exact ⟨c, hc, congrArg Prod.fst heq, congrArg Prod.snd heq⟩

theorem InMemory.header (h : InMemory rb c) : rb.header c.address = ((c.id : Int), c.size) := by
  unfold SingleWriterShmRingBuffer.header
  dsimp only
  rw [h.address, (byte2int_int2byte h.idBytes).1, (byte2int_int2byte h.sizeBytes).1]

/-- A chunk whose header is not written to, when the end moves forward. -/
theorem InMemory.congr {rb' : SingleWriterShmRingBuffer} (h : InMemory rb c)
    (hsize : rb'.bufferSize = rb.bufferSize) (hstart : rb'.dataBufferStart = rb.dataBufferStart)
    (hend : rb.dataBufferEnd ≤ rb'.dataBufferEnd)
    (hid : rb'.read (c.place % rb.bufferSize) 4 = rb.read (c.place % rb.bufferSize) 4)
    (hsz : rb'.read (c.place % rb.bufferSize + 4) 4 = rb.read (c.place % rb.bufferSize + 4) 4) :
    InMemory rb' c := by
  refine ⟨?_, h.upper.trans hend, h.large, ?_, ?_, ?_, ?_⟩
  · rw [hstart]
    exact h.lower
  · rw [hsize]
    exact h.inside
  · rw [hsize]
    exact h.address
  · rw [hsize, hid]
    exact h.idBytes
  · rw [hsize, hsz]
    exact h.sizeBytes

end Inv

/-! ### `allocate_buf` -/

section Allocate

variable {rb : SingleWriterShmRingBuffer} {chunks : List Chunk} {size : Int}

/-- The next chunk is apart from the live ones in the memory. -/
theorem RingInv.next_disjoint (h : RingInv rb chunks) {c : Chunk} (hc : c ∈ chunks)
    (hsize : 0 < size)
    (hfit : rb.bufferEndReset size + size - rb.dataBufferStart ≤ rb.bufferSize) :
    c.place % rb.bufferSize + c.size ≤ rb.bufferEndReset size % rb.bufferSize ∨
      rb.bufferEndReset size % rb.bufferSize + size ≤ c.place % rb.bufferSize := by
  obtain ⟨hend, -, -⟩ := bufferEndReset_spec (bufferSize_pos rb) hfit h.ordered
  have hc' := h.inMemory c hc
  have hl := hc'.large
  have hlow := hc'.lower
  have hup := hc'.upper
  unfold mdSize at hl
  exact emod_disjoint (bufferSize_pos rb) (by omega) hsize (by omega) (by omega) hc'.inside

/-- Writes within the next chunk leave the live ones as they are. -/
theorem RingInv.inMemory_of_write (h : RingInv rb chunks) (hsize : mdSize < size)
    (hfit : rb.bufferEndReset size + size - rb.dataBufferStart ≤ rb.bufferSize)
    {w : SingleWriterShmRingBuffer} (hB : w.bufferSize = rb.bufferSize)
    (hstart : w.dataBufferStart = rb.dataBufferStart)
    (hend : rb.bufferEndReset size ≤ w.dataBufferEnd)
    (hread : ∀ (i : Int), (i + 4 ≤ rb.bufferEndReset size % rb.bufferSize ∨
        rb.bufferEndReset size % rb.bufferSize + mdSize ≤ i) → w.read i 4 = rb.read i 4)
    {c : Chunk} (hc : c ∈ chunks) : InMemory w c := by
  have hc' := h.inMemory c hc
  have hl := hc'.large
  unfold mdSize at hl hsize hread
  have hapart := h.next_disjoint hc (by omega) hfit
  obtain ⟨hle, -, -⟩ := bufferEndReset_spec (bufferSize_pos rb) hfit h.ordered
  refine hc'.congr hB hstart (hle.trans hend) (hread _ ?_) (hread _ ?_)
  · omega
  · omega

/-- The chunk that `allocate_buf` makes. -/
def newChunk (rb : SingleWriterShmRingBuffer) (size : Int) : Chunk where
  id := rb.monotonicIdEnd
  address := rb.bufferEndReset size
  place := rb.bufferEndReset size
  size := size

variable {idBytes : List UInt8}

theorem writeChunk_cases (size : Int) (hid : int2byte rb.monotonicIdEnd = .ok idBytes) :
    (∃ msg, rb.writeChunk size = (.error (.overflowError msg), rb.idWritten size idBytes)) ∨
    ∃ sizeBytes, int2byte size = .ok sizeBytes ∧
      rb.writeChunk size = (.ok (rb.bufferEndReset size, rb.monotonicIdEnd),
        rb.chunkWritten size idBytes sizeBytes) := by
  unfold writeChunk
  rw [hid]
  rcases hsz : int2byte size with e | sizeBytes
  · obtain rfl := int2byte_eq_error hsz
    exact .inl ⟨_, rfl⟩
  · exact .inr ⟨sizeBytes, rfl, rfl⟩

theorem ringInv_idWritten (h : RingInv rb chunks) (hround : rb.dataBufferStart < rb.bufferSize)
    (hsize : mdSize < size)
    (hfit : rb.bufferEndReset size + size - rb.dataBufferStart ≤ rb.bufferSize)
    (hidlen : idBytes.length = 4) :
    RingInv (rb.idWritten size idBytes) chunks := by
  obtain ⟨hle, hinside, hzero⟩ := bufferEndReset_spec (bufferSize_pos rb) hfit h.ordered
  have hmd := hsize
  unfold mdSize at hmd
  refine ⟨h.writer, h.start, ?_, ?_, ?_, ?_, h.first, h.places, fun c hc => ?_,
    h.metadata, h.idStart, h.idEnd, h.numbered⟩
  · show rb.dataBufferStart ≤ rb.bufferEndReset size
    exact h.ordered.trans hle
  · show rb.bufferEndReset size - rb.dataBufferStart ≤ rb.bufferSize
    omega
  · show rb.bufferEndReset size < 2 * rb.bufferSize
    omega
  · intro hnil
    obtain ⟨hs0, he0⟩ := h.empty hnil
    exact ⟨hs0, hzero he0 hs0⟩
  · refine h.inMemory_of_write (w := rb.idWritten size idBytes) hsize hfit rfl rfl ?_ (fun i hi => ?_) hc
    · show rb.bufferEndReset size ≤ rb.bufferEndReset size
      exact le_rfl
    · unfold mdSize at hi
      exact read_write_of_disjoint (by rw [hidlen]; omega)

theorem ringInv_chunkWritten (h : RingInv rb chunks) (hround : rb.dataBufferStart < rb.bufferSize)
    (hsize : mdSize < size)
    (hfit : rb.bufferEndReset size + size - rb.dataBufferStart ≤ rb.bufferSize)
    (hfew : chunks.length < idMax) {sizeBytes : List UInt8}
    (hid : int2byte rb.monotonicIdEnd = .ok idBytes) (hsz : int2byte size = .ok sizeBytes) :
    RingInv (rb.chunkWritten size idBytes sizeBytes) (chunks ++ [newChunk rb size]) := by
  obtain ⟨hle, hinside, hzero⟩ := bufferEndReset_spec (bufferSize_pos rb) hfit h.ordered
  have hidlen := (byte2int_int2byte hid).2
  have hszlen := (byte2int_int2byte hsz).2
  have hmd := hsize
  unfold mdSize at hmd
  have hidLt : rb.monotonicIdEnd < idMax := by
    rw [h.idEnd]
    exact Nat.mod_lt _ idMax_pos
  have hread : ∀ i : Int, (i + 4 ≤ rb.bufferEndReset size % rb.bufferSize ∨
      rb.bufferEndReset size % rb.bufferSize + mdSize ≤ i) →
      (rb.chunkWritten size idBytes sizeBytes).read i 4 = rb.read i 4 := by
    intro i hi
    unfold mdSize at hi
    have h1 : ((rb.idWritten size idBytes).write
        (rb.bufferEndReset size % rb.bufferSize + 4) sizeBytes).read i 4 =
        (rb.idWritten size idBytes).read i 4 :=
      read_write_of_disjoint (by rw [hszlen]; omega)
    have h2 : (rb.idWritten size idBytes).read i 4 = rb.read i 4 :=
      read_write_of_disjoint (by rw [hidlen]; omega)
    exact h1.trans h2
  refine ⟨h.writer, h.start, ?_, ?_, ?_, fun hnil => ?_, ?_, ?_, fun c hc => ?_, ?_, h.idStart,
    ?_, ?_⟩
  · show rb.dataBufferStart ≤ rb.bufferEndReset size + size
    have := h.ordered
    omega
  · exact hfit
  · show rb.bufferEndReset size + size < 2 * rb.bufferSize
    omega
  · exact absurd hnil (append_ne_nil_of_right_ne_nil _ (cons_ne_nil _ _))
  · intro c hc
    cases hchunks : chunks with
    | nil =>
      rw [hchunks] at hc
      cases hc
      obtain ⟨hs0, he0⟩ := h.empty hchunks
      show rb.bufferEndReset size = rb.dataBufferStart
      rw [hzero he0 hs0, hs0]
    | cons d rest =>
      rw [hchunks] at hc
      refine h.first c ?_
      rw [hchunks]
      exact hc
  · refine pairwise_append.mpr ⟨h.places, pairwise_singleton _ _, ?_⟩
    intro c hc d hd
    obtain rfl := mem_singleton.mp hd
    show c.place + c.size ≤ rb.bufferEndReset size
    exact (h.inMemory c hc).upper.trans hle
  · rcases mem_append.mp hc with hc | hc
    · refine h.inMemory_of_write (w := rb.chunkWritten size idBytes sizeBytes) hsize hfit rfl
        rfl ?_ hread hc
      show rb.bufferEndReset size ≤ rb.bufferEndReset size + size
      omega
    · obtain rfl := mem_singleton.mp hc
      refine ⟨h.ordered.trans hle, le_rfl, hsize, hinside, rfl, ?_, ?_⟩
      · have h1 : ((rb.idWritten size idBytes).write
            (rb.bufferEndReset size % rb.bufferSize + 4) sizeBytes).read
              (rb.bufferEndReset size % rb.bufferSize) 4 =
            (rb.idWritten size idBytes).read (rb.bufferEndReset size % rb.bufferSize) 4 :=
          read_write_of_disjoint (by omega)
        have h2 : (rb.idWritten size idBytes).read (rb.bufferEndReset size % rb.bufferSize)
            idBytes.length = idBytes := read_write_self
        rw [hidlen] at h2
        exact hid.trans (congrArg Except.ok (h1.trans h2).symm)
      · have h1 : ((rb.idWritten size idBytes).write
            (rb.bufferEndReset size % rb.bufferSize + 4) sizeBytes).read
              (rb.bufferEndReset size % rb.bufferSize + 4) sizeBytes.length = sizeBytes :=
          read_write_self
        rw [hszlen] at h1
        exact hsz.trans (congrArg Except.ok h1.symm)
  · have hnew : rb.monotonicIdEnd ∉ rb.metadata.keys := by
      unfold PyDict.keys
      rw [h.metadata, map_map]
      intro hmem
      obtain ⟨c, hc, heq⟩ := mem_map.mp hmem
      exact numbered_next_ne h.idStart h.numbered hfew hc (heq.trans h.idEnd)
    show (rb.metadata.insert (rb.monotonicIdEnd % idMax) (rb.bufferEndReset size)).entries = _
    rw [Nat.mod_eq_of_lt hidLt, PyDict.entries_insert_of_not_mem _ hnew, h.metadata,
      map_append]
    rfl
  · show (rb.monotonicIdEnd + 1) % idMax = (rb.monotonicIdStart + _) % idMax
    rw [h.idEnd, Nat.mod_add_mod, length_append, length_singleton, Nat.add_assoc]
  · exact numbered_append h.idStart h.numbered h.idEnd

/-- A state between two calls: `data_buffer_start` is in the first round. -/
structure AtRest (rb : SingleWriterShmRingBuffer) (chunks : List Chunk) : Prop where
  inv : RingInv rb chunks
  firstRound : rb.dataBufferStart < rb.bufferSize

/-- `allocate_buf`: it changes nothing, it moves the end and raises, or there is a new chunk. -/
theorem atRest_allocateBuf (size : Int) (h : AtRest rb chunks) (hfew : rb.metadata.size < idMax) :
    (∃ e, (rb.allocateBuf size).1 = .error e ∧ AtRest (rb.allocateBuf size).2 chunks) ∨
    ((rb.allocateBuf size).1 = .ok (rb.bufferEndReset (size + mdSize), rb.monotonicIdEnd) ∧
      AtRest (rb.allocateBuf size).2 (chunks ++ [newChunk rb (size + mdSize)])) := by
  unfold allocateBuf
  split
  · exact .inl ⟨_, rfl, h⟩
  · split
    · exact .inl ⟨_, rfl, h⟩
    · rename_i hpos
      split
      · exact .inl ⟨_, rfl, h⟩
      · rename_i hspace
        have hsize : mdSize < size + mdSize := by omega
        have hfit := Int.not_lt.mp hspace
        have hlen : chunks.length < idMax := by
          have : rb.metadata.size = chunks.length := by
            rw [PyDict.size, h.inv.metadata, length_map]
          omega
        have hidLt : rb.monotonicIdEnd < idMax := by
          rw [h.inv.idEnd]
          exact Nat.mod_lt _ idMax_pos
        obtain ⟨idBytes, hid⟩ := int2byte_eq_ok (x := rb.monotonicIdEnd) (by omega)
          (by unfold idMax at hidLt; omega)
        rcases writeChunk_cases (size + mdSize) hid with
          ⟨msg, heq⟩ | ⟨sizeBytes, hsz, heq⟩
        · rw [heq]
          exact .inl ⟨_, rfl, ringInv_idWritten h.inv h.firstRound hsize hfit
            (byte2int_int2byte hid).2, h.firstRound⟩
        · rw [heq]
          exact .inr ⟨rfl, ringInv_chunkWritten h.inv h.firstRound hsize hfit hlen hid hsz,
            h.firstRound⟩

end Allocate

/-! ### Writes into a view -/

section Write

variable {rb : SingleWriterShmRingBuffer} {chunks : List Chunk} {c : Chunk}

/-- A write into the data of a live chunk touches no header. -/
theorem ringInv_write (h : RingInv rb chunks) (hc : c ∈ chunks) {data : List UInt8}
    (hlen : (data.length : Int) ≤ c.size - mdSize) :
    RingInv (rb.write (c.place % rb.bufferSize + mdSize) data) chunks := by
  refine ⟨h.writer, h.start, h.ordered, h.full, h.secondRound, h.empty, h.first, h.places,
    fun d hd => ?_, h.metadata, h.idStart, h.idEnd, h.numbered⟩
  have hd' := h.inMemory d hd
  have hld := hd'.large
  unfold mdSize at hlen hld ⊢
  -- The header of `d` is before the data of `c` or after its chunk.
  have hapart : d.place % rb.bufferSize + 8 ≤ c.place % rb.bufferSize + 8 ∨
      c.place % rb.bufferSize + c.size ≤ d.place % rb.bufferSize := by
    rcases h.place_cases hc hd with rfl | hlt | hlt
    · exact .inl le_rfl
    · have := h.disjoint hc hd hlt
      have hlc := (h.inMemory c hc).large
      unfold mdSize at hlc
      omega
    · have := h.disjoint hd hc hlt
      omega
  refine hd'.congr rfl rfl le_rfl ?_ ?_
  · exact read_write_of_disjoint (by omega)
  · exact read_write_of_disjoint (by omega)

end Write

/-! ### `free_buf` -/

section Free

variable {rb : SingleWriterShmRingBuffer} {chunks : List Chunk} {c : Chunk}

variable {rb' : SingleWriterShmRingBuffer}

theorem InMemory.of_start (h : InMemory rb c) (hsize : rb'.bufferSize = rb.bufferSize)
    (hbuf : rb'.buf = rb.buf) (hend : rb'.dataBufferEnd = rb.dataBufferEnd)
    (hlow : rb'.dataBufferStart ≤ c.place) :
    InMemory rb' c := by
  have hread : ∀ i n, rb'.read i n = rb.read i n := fun i n => by
    unfold SingleWriterShmRingBuffer.read
    rw [hbuf]
  refine ⟨hlow, hend ▸ h.upper, h.large, hsize ▸ h.inside, ?_, ?_, ?_⟩
  · rw [hsize]
    exact h.address
  · rw [hsize, hread]
    exact h.idBytes
  · rw [hsize, hread]
    exact h.sizeBytes

/-- The oldest chunk is freed. -/
theorem ringInv_freeChunk (h : RingInv rb (c :: chunks)) : RingInv rb.freeChunk chunks := by
  have hid : c.id = rb.monotonicIdStart := h.numbered.1
  have hentries : (rb.metadata.erase rb.monotonicIdStart).entries =
      chunks.map fun c => (c.id, c.address) := by
    refine PyDict.entries_erase_first (v := c.address) ?_
    rw [h.metadata, ← hid]
    rfl
  have hnext : (rb.monotonicIdStart + 1) % idMax < idMax := Nat.mod_lt _ idMax_pos
  have hidEnd : rb.monotonicIdEnd =
      ((rb.monotonicIdStart + 1) % idMax + chunks.length) % idMax := by
    rw [h.idEnd, Nat.mod_add_mod, length_cons]
    congr 1
    omega
  obtain ⟨hhead, hplaces⟩ := pairwise_cons.mp h.places
  have hlc := (h.inMemory c mem_cons_self).large
  have hfirst : c.place = rb.dataBufferStart := h.first c rfl
  unfold mdSize at hlc
  unfold freeChunk
  dsimp only
  cases chunks with
  | nil =>
    have hnone : (rb.metadata.erase rb.monotonicIdStart).get?
        ((rb.monotonicIdStart + 1) % idMax) = none := by
      unfold PyDict.get?
      rw [hentries]
      rfl
    rw [hnone]
    have hB := bufferSize_pos rb
    refine ⟨h.writer, le_rfl, le_rfl, ?_, ?_, fun _ => ⟨rfl, rfl⟩, fun d hd => (nomatch hd),
      List.Pairwise.nil, fun d hd => (nomatch hd), hentries, hnext, hidEnd, trivial⟩
    · show (0 : Int) - 0 ≤ rb.bufferSize
      omega
    · show (0 : Int) < 2 * rb.bufferSize
      omega
  | cons d rest =>
    have hd := h.inMemory d (mem_cons_of_mem _ mem_cons_self)
    have hsome : (rb.metadata.erase rb.monotonicIdStart).get?
        ((rb.monotonicIdStart + 1) % idMax) = some d.address := by
      rw [← PyDict.mem_entries_iff, hentries, ← h.numbered.2.1]
      exact mem_cons_self
    rw [hsome]
    have hcd := hhead d mem_cons_self
    have hld := hd.large
    have hupd := hd.upper
    have hfull := h.full
    unfold mdSize at hld
    -- The next chunk is less than one round away.
    have hstart : rb.dataBufferStart + (d.address - rb.dataBufferStart) % rb.bufferSize =
        d.place := by
      rw [Int.sub_emod, hd.address, ← Int.sub_emod, Int.emod_eq_of_lt (by omega) (by omega)]
      omega
    dsimp only
    rw [hstart]
    refine ⟨h.writer, ?_, ?_, ?_, h.secondRound, nofun, fun e he => ?_,
      hplaces, fun e he => ?_, hentries, hnext, hidEnd, h.numbered.2⟩
    · show 0 ≤ d.place
      have := h.start
      omega
    · show d.place ≤ rb.dataBufferEnd
      omega
    · show rb.dataBufferEnd - d.place ≤ rb.bufferSize
      omega
    · cases he
      rfl
    · have he' := h.inMemory e (mem_cons_of_mem _ he)
      refine he'.of_start rfl rfl rfl ?_
      show d.place ≤ e.place
      rcases mem_cons.mp he with rfl | he
      · exact le_rfl
      · have := (pairwise_cons.mp hplaces).1 e he
        omega

/-- Freeing leaves the memory as it is. -/
theorem freeChunk_memory (rb : SingleWriterShmRingBuffer) :
    rb.freeChunk.buf = rb.buf ∧ rb.freeChunk.dataBufferSize = rb.dataBufferSize := by
  unfold freeChunk
  dsimp only
  split <;> exact ⟨rfl, rfl⟩

theorem dataView_congr (hbuf : rb'.buf = rb.buf) (hsize : rb'.dataBufferSize = rb.dataBufferSize)
    (address : Int) :
    rb'.dataView address = rb.dataView address := by
  unfold dataView accessBuf header bufferSize SingleWriterShmRingBuffer.read
  rw [hbuf, hsize]

/-- The loop of `free_buf` frees the oldest chunks, which are free. -/
theorem ringInv_freeLoop (isFreeFn : Nat → List UInt8 → Bool) (nbytes : Int) (fuel : Nat)
    (freedBytes : Int) (h : RingInv rb chunks) :
    ∃ k ≤ chunks.length, RingInv (freeLoop isFreeFn nbytes fuel freedBytes rb) (chunks.drop k) ∧
      (freeLoop isFreeFn nbytes fuel freedBytes rb).buf = rb.buf ∧
      (freeLoop isFreeFn nbytes fuel freedBytes rb).dataBufferSize = rb.dataBufferSize ∧
      (freeLoop isFreeFn nbytes fuel freedBytes rb).monotonicIdStart =
        (rb.monotonicIdStart + k) % idMax ∧
      ∀ c ∈ chunks.take k, isFreeFn c.id (rb.dataView c.address) = true := by
  induction fuel generalizing rb chunks freedBytes with
  | zero => exact ⟨0, Nat.zero_le _, h, rfl, rfl, (Nat.mod_eq_of_lt h.idStart).symm, nofun⟩
  | succ fuel ih =>
    unfold freeLoop
    split
    · exact ⟨0, Nat.zero_le _, h, rfl, rfl, (Nat.mod_eq_of_lt h.idStart).symm, nofun⟩
    · rename_i address hget
      split
      · rename_i hfree
        cases chunks with
        | nil =>
          obtain ⟨c, hc, -⟩ := h.exists_chunk hget
          exact absurd hc not_mem_nil
        | cons c chunks =>
          obtain ⟨k, hk, hinv, hbuf, hsize, hstart, hall⟩ :=
            ih (freedBytes + (rb.header address).2) (ringInv_freeChunk h)
          obtain ⟨hbuf1, hsize1⟩ := freeChunk_memory rb
          have hnext : rb.freeChunk.monotonicIdStart = (rb.monotonicIdStart + 1) % idMax := by
            unfold freeChunk
            dsimp only
            split <;> rfl
          have hid : c.id = rb.monotonicIdStart := h.numbered.1
          have haddr : c.address = address := by
            have hentry : (c.id, c.address) ∈ rb.metadata.entries := by
              rw [h.metadata]
              exact mem_cons_self
            rw [PyDict.mem_entries_iff, hid, hget] at hentry
            exact (Option.some.inj hentry).symm
          refine ⟨k + 1, Nat.succ_le_succ hk, hinv, hbuf.trans hbuf1, hsize.trans hsize1,
            ?_, fun d hd => ?_⟩
          · rw [hstart, hnext, Nat.mod_add_mod]
            congr 1
            omega
          · rcases mem_cons.mp hd with rfl | hd
            · rw [hid, haddr]
              exact hfree.2
            · rw [← dataView_congr hbuf1 hsize1]
              exact hall d hd
      · exact ⟨0, Nat.zero_le _, h, rfl, rfl, (Nat.mod_eq_of_lt h.idStart).symm, nofun⟩

/-- The chunks one round earlier. -/
def Chunk.back (B : Int) (c : Chunk) : Chunk := { c with place := c.place - B }

theorem numbered_back {B : Int} {id : Nat} (h : Numbered id chunks) :
    Numbered id (chunks.map (Chunk.back B)) := by
  induction chunks generalizing id with
  | nil => trivial
  | cons c chunks ih => exact ⟨h.1, ih h.2⟩

theorem atRest_wrapAround (h : RingInv rb chunks) :
    ∃ k : Int, k % rb.bufferSize = 0 ∧ AtRest rb.wrapAround (chunks.map (Chunk.back k)) := by
  unfold wrapAround
  split
  · rename_i hover
    have hB := bufferSize_pos rb
    have hround := h.secondRound
    have hord := h.ordered
    refine ⟨rb.bufferSize, Int.emod_self, ⟨h.writer, ?_, ?_, ?_, ?_, ?_, ?_, ?_, ?_,
      ?_, h.idStart, ?_, numbered_back h.numbered⟩, ?_⟩
    · show 0 ≤ rb.dataBufferStart - rb.bufferSize
      omega
    · show rb.dataBufferStart - rb.bufferSize ≤ rb.dataBufferEnd - rb.bufferSize
      omega
    · show rb.dataBufferEnd - rb.bufferSize - (rb.dataBufferStart - rb.bufferSize) ≤ rb.bufferSize
      have := h.full
      omega
    · show rb.dataBufferEnd - rb.bufferSize < 2 * rb.bufferSize
      omega
    · intro hnil
      have := h.empty (map_eq_nil_iff.mp hnil)
      omega
    · intro c hc
      rw [List.head?_map] at hc
      obtain ⟨d, hd, rfl⟩ := Option.map_eq_some_iff.mp hc
      show d.place - rb.bufferSize = rb.dataBufferStart - rb.bufferSize
      rw [h.first d hd]
    · refine pairwise_map.mpr (h.places.imp fun {c d} hcd => ?_)
      show c.place - rb.bufferSize + c.size ≤ d.place - rb.bufferSize
      omega
    · intro c hc
      obtain ⟨d, hd, rfl⟩ := mem_map.mp hc
      have hd' := h.inMemory d hd
      have hlow := hd'.lower
      have hup := hd'.upper
      have hmod : (d.place - rb.bufferSize) % rb.bufferSize = d.place % rb.bufferSize :=
        Int.sub_emod_right _ _
      refine ⟨?_, ?_, hd'.large, ?_, ?_, ?_, ?_⟩
      · show rb.dataBufferStart - rb.bufferSize ≤ d.place - rb.bufferSize
        omega
      · show d.place - rb.bufferSize + d.size ≤ rb.dataBufferEnd - rb.bufferSize
        omega
      · show (d.place - rb.bufferSize) % rb.bufferSize + d.size ≤ rb.bufferSize
        rw [hmod]
        exact hd'.inside
      · show d.address % rb.bufferSize = (d.place - rb.bufferSize) % rb.bufferSize
        rw [hmod]
        exact hd'.address
      · show int2byte d.id = .ok (rb.read ((d.place - rb.bufferSize) % rb.bufferSize) 4)
        rw [hmod]
        exact hd'.idBytes
      · show int2byte d.size = .ok (rb.read ((d.place - rb.bufferSize) % rb.bufferSize + 4) 4)
        rw [hmod]
        exact hd'.sizeBytes
    · rw [map_map]
      exact h.metadata
    · rw [length_map]
      exact h.idEnd
    · show rb.dataBufferStart - rb.bufferSize < rb.bufferSize
      omega
  · rename_i hover
    have hback : chunks.map (Chunk.back 0) = chunks := by
      refine (map_congr_left fun c _ => ?_).trans (map_id chunks)
      unfold Chunk.back
      rw [Int.sub_zero]
      rfl
    refine ⟨0, Int.zero_emod _, ?_⟩
    rw [hback]
    exact ⟨h, Int.not_le.mp hover⟩

end Free

/-- The ring buffer that the writer creates. -/
theorem atRest_start (dataBufferSize : ℕ+) : AtRest { dataBufferSize, isWriter := true } [] := by
  have hB := bufferSize_pos { dataBufferSize, isWriter := true }
  refine ⟨⟨rfl, le_rfl, le_rfl, ?_, ?_, fun _ => ⟨rfl, rfl⟩, fun c hc => (nomatch hc),
    List.Pairwise.nil, fun c hc => (nomatch hc), rfl, idMax_pos, ?_, trivial⟩, hB⟩
  · show (0 : Int) - 0 ≤ _
    omega
  · show (0 : Int) < _
    omega
  · show 0 = (0 + 0) % idMax
    rw [Nat.zero_add, Nat.zero_mod]

end Vllm.Proofs.Distributed
