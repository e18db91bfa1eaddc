import Vllm.Proofs.Distributed.RingBuffer

/-!
# `Vllm.Proofs.Distributed.RingRun`: runs of the ring buffer

* `RingState`, `RingOp`: the system. A call that raises is a step too: `put` of the object storage
  catches the `MemoryError` and goes on.
* `FewChunks`: there are fewer live chunks than ids when a chunk is allocated.
* `ring_buffer_laws`: the chunks are disjoint, inside the memory, and their headers are intact.
* `wrapped_ids_overlap`: with more chunks than ids they are not.
-/

set_option autoImplicit false

namespace Vllm.Proofs.Distributed

open Vllm.Lib Vllm.Distributed SingleWriterShmRingBuffer Function List

/-- The ring buffer and, as history, the size of the last chunk of every id. -/
structure RingState where
  ring : SingleWriterShmRingBuffer
  written : Nat → Int := fun _ => 0

/-- The calls of the ring buffer. The holder of the view of `access_buf` writes `data` at its
beginning, as far as it fits. -/
inductive RingOp where
  | allocateBuf (size : Int)
  | accessBuf (address : Int) (data : List UInt8)
  | freeBuf (isFreeFn : Nat → List UInt8 → Bool) (nbytes : Option Int)

namespace RingState

/-- The ring buffer that the writer creates. -/
def start (dataBufferSize : ℕ+) : RingState where
  ring := { dataBufferSize, isWriter := true }

/-- One call, also one that raises. -/
def step (s : RingState) : RingOp → Except PyError RingState
  | .allocateBuf size =>
    match (s.ring.allocateBuf size).1 with
    | .ok (_, id) => .ok { ring := (s.ring.allocateBuf size).2
                           written := update s.written id (size + mdSize) }
    | .error _ => .ok { s with ring := (s.ring.allocateBuf size).2 }
  | .accessBuf address data =>
    let view := (s.ring.accessBuf address).1
    .ok { s with ring := s.ring.write view.1 (data.take view.2) }
  | .freeBuf isFreeFn nbytes => .ok { s with ring := (s.ring.freeBuf isFreeFn nbytes).2 }

end RingState

/-- A chunk is allocated while fewer than `ID_MAX` chunks are live, and the views that are written
to are those of live chunks. -/
def FewChunks (s : RingState) : RingOp → Prop
  | .allocateBuf _ => s.ring.metadata.size < idMax
  | .accessBuf address data => data = [] ∨ address ∈ s.ring.metadata.values
  | .freeBuf _ _ => True

/-- The invariant of the runs. -/
def RingRunInv (s : RingState) : Prop :=
  ∃ chunks, AtRest s.ring chunks ∧ ∀ c ∈ chunks, s.written c.id = c.size

theorem ringRunInv_step {s s' : RingState} {op : RingOp} (hinv : RingRunInv s)
    (hfew : FewChunks s op) (hstep : s.step op = .ok s') : RingRunInv s' := by
  obtain ⟨chunks, hrest, hwritten⟩ := hinv
  cases op with
  | allocateBuf size =>
    rcases atRest_allocateBuf size hrest hfew with ⟨e, herr, hrest'⟩ | ⟨hok, hrest'⟩
    · simp only [RingState.step, herr] at hstep
      cases hstep
      exact ⟨chunks, hrest', hwritten⟩
    · simp only [RingState.step, hok] at hstep
      cases hstep
      refine ⟨_, hrest', fun c hc => ?_⟩
      rcases mem_append.mp hc with hc | hc
      · have hne : c.id ≠ s.ring.monotonicIdEnd := by
          have hlen : chunks.length < idMax := by
            have hsize : s.ring.metadata.size = chunks.length := by
              rw [PyDict.size, hrest.inv.metadata, length_map]
            have hlt : s.ring.metadata.size < idMax := hfew
            omega
          rw [hrest.inv.idEnd]
          exact numbered_next_ne hrest.inv.idStart hrest.inv.numbered hlen hc
        show update s.written _ _ c.id = c.size
        rw [update_of_ne hne]
        exact hwritten c hc
      · obtain rfl := mem_singleton.mp hc
        exact update_self ..
  | accessBuf address data =>
    cases hstep
    rcases hfew with rfl | haddr
    · refine ⟨chunks, ?_, hwritten⟩
      have hsame : s.ring.write (s.ring.accessBuf address).1.1
          (List.take (s.ring.accessBuf address).1.2 []) = s.ring := by
        rw [take_nil]
        unfold SingleWriterShmRingBuffer.write
        have hbuf : (fun i => if (s.ring.accessBuf address).1.1 ≤ i ∧
            i < (s.ring.accessBuf address).1.1 + (([] : List UInt8).length : Int) then
              ([] : List UInt8).getD (i - (s.ring.accessBuf address).1.1).toNat 0
            else s.ring.buf i) = s.ring.buf := by
          funext i
          rw [if_neg (by simp only [length_nil]; omega)]
        rw [hbuf]
      rw [hsame]
      exact hrest
    · obtain ⟨id, hid⟩ := (PyDict.mem_values_iff _ _).mp haddr
      obtain ⟨c, hc, -, rfl⟩ := hrest.inv.exists_chunk hid
      have hm := hrest.inv.inMemory c hc
      refine ⟨chunks, ⟨?_, hrest.firstRound⟩, hwritten⟩
      show RingInv (s.ring.write (c.address % s.ring.bufferSize + mdSize)
        (data.take ((s.ring.header c.address).2 - mdSize).toNat)) chunks
      rw [hm.header, hm.address]
      refine ringInv_write hrest.inv hc ?_
      have hlarge := hm.large
      rw [length_take]
      dsimp only
      omega
  | freeBuf isFreeFn nbytes =>
    cases hstep
    have hfree : (s.ring.freeBuf isFreeFn nbytes).2 = (freeLoop isFreeFn
        (nbytes.getD s.ring.bufferSize) s.ring.metadata.size 0 s.ring).wrapAround := by
      unfold freeBuf
      rw [if_neg (by rw [hrest.inv.writer]; exact Bool.true_eq_false_eq_False)]
    obtain ⟨k, -, hloop, -⟩ := ringInv_freeLoop isFreeFn (nbytes.getD s.ring.bufferSize)
      s.ring.metadata.size 0 hrest.inv
    obtain ⟨back, -, hrest'⟩ := atRest_wrapAround hloop
    refine ⟨(chunks.drop k).map (Chunk.back back), ?_, fun c hc => ?_⟩
    · show AtRest (s.ring.freeBuf isFreeFn nbytes).2 _
      rw [hfree]
      exact hrest'
    · obtain ⟨d, hd, rfl⟩ := mem_map.mp hc
      exact hwritten d (mem_of_mem_drop hd)

theorem ringRunInv_start (dataBufferSize : ℕ+) : RingRunInv (RingState.start dataBufferSize) :=
  ⟨[], atRest_start dataBufferSize, nofun⟩

/-- In every state of a run with fewer live chunks than ids: the header of every live chunk holds
its id and the size it was allocated with, the chunk does not cross the end of the memory, two
chunks do not overlap, the data is not larger than the memory, and an `allocate_buf` that raises
`MemoryError` changes nothing. -/
theorem ring_buffer_laws {dataBufferSize : ℕ+} {s : RingState}
    (hrun : Run RingState.step FewChunks (RingState.start dataBufferSize) s) :
    (∀ id address, s.ring.metadata.get? id = some address →
      s.ring.header address = ((id : Int), s.written id) ∧
      mdSize < s.written id ∧ 0 ≤ address % s.ring.bufferSize ∧
      address % s.ring.bufferSize + s.written id ≤ s.ring.bufferSize) ∧
    (∀ id id' address address', s.ring.metadata.get? id = some address →
      s.ring.metadata.get? id' = some address' → id ≠ id' →
      address % s.ring.bufferSize + s.written id ≤ address' % s.ring.bufferSize ∨
        address' % s.ring.bufferSize + s.written id' ≤ address % s.ring.bufferSize) ∧
    s.ring.dataBufferEnd - s.ring.dataBufferStart ≤ s.ring.bufferSize ∧
    ∀ size msg ring', s.ring.allocateBuf size = (.error (.memoryError msg), ring') →
      ring' = s.ring := by
  obtain ⟨chunks, hrest, hwritten⟩ := hrun.invariant RingRunInv
    (ringRunInv_start dataBufferSize) fun _ _ _ hinv hfew hstep => ringRunInv_step hinv hfew hstep
  have h := hrest.inv
  refine ⟨?_, ?_, h.full, ?_⟩
  · intro id address hget
    obtain ⟨c, hc, rfl, rfl⟩ := h.exists_chunk hget
    have hm := h.inMemory c hc
    rw [hwritten c hc, hm.header, hm.address]
    exact ⟨rfl, hm.large, Int.emod_nonneg _ (bufferSize_pos _).ne', hm.inside⟩
  · intro id id' address address' hget hget' hne
    obtain ⟨c, hc, rfl, rfl⟩ := h.exists_chunk hget
    obtain ⟨d, hd, rfl, rfl⟩ := h.exists_chunk hget'
    rw [hwritten c hc, hwritten d hd, (h.inMemory c hc).address, (h.inMemory d hd).address]
    rcases h.place_cases hc hd with rfl | hlt | hlt
    · exact absurd rfl hne
    · exact h.disjoint hc hd hlt
    · exact (h.disjoint hd hc hlt).symm
  · intro size msg ring' halloc
    unfold allocateBuf at halloc
    split at halloc
    · cases halloc
    · split at halloc
      · cases halloc
      · split at halloc
        · exact (congrArg Prod.snd halloc).symm
        · have hfst : (s.ring.writeChunk (size + mdSize)).1 = .error (.memoryError msg) :=
            congrArg Prod.fst halloc
          unfold writeChunk at hfst
          split at hfst
          · rename_i e he
            rw [int2byte_eq_error he] at hfst
            cases hfst
          · split at hfst
            · rename_i e he
              rw [int2byte_eq_error he] at hfst
              cases hfst
            · cases hfst

instance (s : RingState) (op : RingOp) : Decidable (FewChunks s op) :=
  match op with
  | .allocateBuf _ => inferInstanceAs (Decidable (s.ring.metadata.size < idMax))
  | .accessBuf address data =>
    inferInstanceAs (Decidable (data = [] ∨ address ∈ s.ring.metadata.values))
  | .freeBuf _ _ => inferInstanceAs (Decidable True)

/-- The third chunk starts the second round and fills the memory with the second chunk. -/
theorem ring_buffer_laws_second_round : ∃ s₀ s : RingState,
    Except.ok (RingState.start 40) = (.ok s₀ : Except PyError RingState) ∧
      Run RingState.step FewChunks s₀ s ∧
      (s.ring.metadata.get? 1 = some 18 ∧ s.ring.metadata.get? 2 = some 40 ∧
        s.ring.dataBufferEnd - s.ring.dataBufferStart = 40) ∧
      s.ring.dataBufferEnd - s.ring.dataBufferStart ≤ s.ring.bufferSize := by
  obtain ⟨s₀, s, hstart, hrun, hstate⟩ := exists_run_of_check RingState.step FewChunks
    (fun s => s.ring.metadata.get? 1 = some 18 ∧ s.ring.metadata.get? 2 = some 40 ∧
      s.ring.dataBufferEnd - s.ring.dataBufferStart = 40)
    (.ok (RingState.start 40))
    [.allocateBuf 10, .accessBuf 0 [1, 2, 3], .allocateBuf 10, .allocateBuf 10,
      .freeBuf (fun id data => id = 0 ∧ data.take 3 = [1, 2, 3]) none, .allocateBuf 10]
    (by decide +kernel)
  cases hstart
  exact ⟨_, s, rfl, hrun, hstate, (ring_buffer_laws hrun).2.2.1⟩

/-! ### More chunks than ids -/

section Wrapped

/-- A memory for `2 ^ 31 + 2` chunks of one byte. -/
def largeBuffer : ℕ+ := ⟨19327352850, Nat.succ_pos _⟩

theorem allocateBuf_eq_ok {rb : SingleWriterShmRingBuffer} (size : Int)
    (hwriter : rb.isWriter = true) (hpos : 0 < size)
    (hfit : rb.bufferEndReset (size + mdSize) + (size + mdSize) - rb.dataBufferStart ≤
      rb.bufferSize) (hid : rb.monotonicIdEnd < idMax) (hsize : size + mdSize < 2147483648) :
    ∃ idBytes sizeBytes, rb.allocateBuf size =
      (.ok (rb.bufferEndReset (size + mdSize), rb.monotonicIdEnd),
        rb.chunkWritten (size + mdSize) idBytes sizeBytes) := by
  obtain ⟨idBytes, hidBytes⟩ := int2byte_eq_ok (x := rb.monotonicIdEnd) (by omega)
    (by unfold idMax at hid; omega)
  obtain ⟨sizeBytes, hsizeBytes⟩ := int2byte_eq_ok (x := size + mdSize)
    (by unfold mdSize; omega) hsize
  refine ⟨idBytes, sizeBytes, ?_⟩
  unfold allocateBuf writeChunk
  rw [if_neg (by rw [hwriter]; exact Bool.noConfusion), if_neg (not_not_intro hpos),
    if_neg (Int.not_lt.mpr hfit), hidBytes, hsizeBytes]

/-- The state after `k` chunks of one byte: the ids `0` and `1` are used twice. -/
structure Filled (k : Nat) (s : RingState) : Prop where
  size : s.ring.dataBufferSize = largeBuffer
  writer : s.ring.isWriter = true
  idStart : s.ring.monotonicIdStart = 0
  idEnd : s.ring.monotonicIdEnd = k % idMax
  dataStart : s.ring.dataBufferStart = 0
  dataEnd : s.ring.dataBufferEnd = 9 * k
  metadata : ∀ i < idMax, s.ring.metadata.get? i =
    if i + idMax < k then some (9 * ((i : Int) + idMax)) else if i < k then some (9 * (i : Int))
    else none
  written : 3 < k → s.written 3 = 9

theorem exists_filled (k : Nat) (hk : k ≤ idMax + 2) :
    ∃ s, Run RingState.step (fun _ _ => True) (RingState.start largeBuffer) s ∧ Filled k s := by
  induction k with
  | zero =>
    refine ⟨_, .start, rfl, rfl, rfl, ?_, rfl, rfl, fun i _ => ?_, fun h => absurd h (by omega)⟩
    · exact (Nat.zero_mod _).symm
    · rw [if_neg (by omega), if_neg (by omega)]
      rfl
  | succ k ih =>
    obtain ⟨s, hrun, h⟩ := ih (by omega)
    have hB : s.ring.bufferSize = 19327352850 := by
      unfold bufferSize
      rw [h.size]
      rfl
    have hlt : 9 * (k : Int) < 19327352850 := by
      unfold idMax at hk
      omega
    have hreset : s.ring.bufferEndReset (1 + mdSize) = 9 * k := by
      unfold bufferEndReset mdSize
      rw [h.dataEnd, hB, Int.emod_eq_of_lt (by omega) hlt, if_neg]
      unfold idMax at hk
      omega
    obtain ⟨idBytes, sizeBytes, halloc⟩ := allocateBuf_eq_ok 1 h.writer (by omega) (by
        rw [hreset, h.dataStart, hB]
        unfold mdSize
        unfold idMax at hk
        omega)
      (by rw [h.idEnd]; exact Nat.mod_lt _ idMax_pos) (by unfold mdSize; omega)
    have hstep : s.step (.allocateBuf 1) = .ok
        { ring := s.ring.chunkWritten (1 + mdSize) idBytes sizeBytes
          written := update s.written s.ring.monotonicIdEnd (1 + mdSize) } := by
      simp only [RingState.step, halloc]
    refine ⟨_, .next _ hrun trivial hstep, h.size, h.writer, h.idStart, ?_, h.dataStart, ?_,
      fun i hi => ?_, fun h3 => ?_⟩
    · show (s.ring.monotonicIdEnd + 1) % idMax = _
      rw [h.idEnd, Nat.mod_add_mod]
    · show s.ring.bufferEndReset (1 + mdSize) + (1 + mdSize) = _
      rw [hreset]
      unfold mdSize
      omega
    · show (s.ring.metadata.insert (s.ring.monotonicIdEnd % idMax)
        (s.ring.bufferEndReset (1 + mdSize))).get? i = _
      rw [PyDict.get?_insert, h.metadata i hi, hreset, h.idEnd]
      unfold idMax at *
      split_ifs <;> first | omega | (congr 1; omega) | rfl
    · show update s.written s.ring.monotonicIdEnd (1 + mdSize) 3 = 9
      rw [h.idEnd]
      by_cases h4 : 3 = k % idMax
      · rw [← h4, update_self]
        rfl
      · rw [update_of_ne h4]
        refine h.written ?_
        unfold idMax at h4
        omega

/-- The state after the first id is freed: the start of the data jumps to the chunk that took over
the second id, past all the others. -/
theorem exists_freed : ∃ s, Run RingState.step (fun _ _ => True) (RingState.start largeBuffer) s ∧
      s.ring.dataBufferSize = largeBuffer ∧ s.ring.isWriter = true ∧
      s.ring.monotonicIdEnd = 2 ∧ s.ring.dataBufferStart = 9 * (idMax + 1) ∧
      s.ring.dataBufferEnd = 9 * (idMax + 2) ∧ s.ring.metadata.get? 3 = some 27 ∧
      s.written 3 = 9 := by
  obtain ⟨s, hrun, h⟩ := exists_filled (idMax + 2) le_rfl
  have hB : s.ring.bufferSize = 19327352850 := by
    unfold bufferSize
    rw [h.size]
    rfl
  have h0 : s.ring.metadata.get? 0 = some (9 * ((0 : Nat) + idMax : Int)) := by
    rw [h.metadata 0 idMax_pos, if_pos (by omega)]
  have h1 : s.ring.metadata.get? 1 = some (9 * ((1 : Nat) + idMax : Int)) := by
    rw [h.metadata 1 (by unfold idMax; omega), if_pos (by omega)]
  have h3 : s.ring.metadata.get? 3 = some 27 := by
    rw [h.metadata 3 (by unfold idMax; omega), if_neg (by omega), if_pos (by unfold idMax; omega)]
    rfl
  have hnext : (s.ring.monotonicIdStart + 1) % idMax = 1 := by
    rw [h.idStart]
    unfold idMax
    omega
  -- The first chunk is freed, the second is not.
  have hchunk : s.ring.freeChunk = { s.ring with
      metadata := s.ring.metadata.erase 0
      monotonicIdStart := 1
      dataBufferStart := 9 * (idMax + 1) } := by
    unfold freeChunk
    dsimp only
    rw [hnext, h.idStart, PyDict.get?_erase_of_ne _ (by omega), h1]
    dsimp only
    rw [h.dataStart, hB]
    rfl
  let isFreeFn : Nat → List UInt8 → Bool := fun id _ => id == 0
  have hstop : ∀ fuel freedBytes, freeLoop isFreeFn s.ring.bufferSize fuel freedBytes
      s.ring.freeChunk = s.ring.freeChunk := by
    intro fuel freedBytes
    cases fuel with
    | zero => rfl
    | succ fuel =>
      unfold freeLoop
      have hid : s.ring.freeChunk.monotonicIdStart = 1 := by
        rw [hchunk]
      rw [hid]
      split
      · rfl
      · rw [if_neg]
        exact fun hand => absurd hand.2 Bool.noConfusion
  have hloop : freeLoop isFreeFn s.ring.bufferSize s.ring.metadata.size 0 s.ring =
      s.ring.freeChunk := by
    obtain ⟨fuel, hfuel⟩ : ∃ fuel, s.ring.metadata.size = fuel + 1 := by
      refine Nat.exists_eq_succ_of_ne_zero fun hzero => ?_
      have hnil : s.ring.metadata.entries = [] := length_eq_zero_iff.mp hzero
      have := (PyDict.mem_entries_iff _ _ _).mpr h0
      rw [hnil] at this
      exact absurd this not_mem_nil
    rw [hfuel]
    unfold freeLoop
    rw [h.idStart, h0]
    dsimp only
    rw [if_pos ⟨by rw [hB]; omega, rfl⟩]
    exact hstop fuel _
  have hring : (s.ring.freeBuf isFreeFn none).2 = s.ring.freeChunk := by
    unfold freeBuf
    rw [if_neg (by rw [h.writer]; exact Bool.noConfusion)]
    show (freeLoop isFreeFn s.ring.bufferSize s.ring.metadata.size 0 s.ring).wrapAround = _
    rw [hloop]
    unfold wrapAround
    rw [if_neg]
    rw [hchunk]
    show ¬ (9 * ((idMax : Int) + 1) ≥ s.ring.bufferSize)
    rw [hB]
    unfold idMax
    omega
  refine ⟨{ s with ring := s.ring.freeChunk }, .next (.freeBuf isFreeFn none) hrun trivial ?_, ?_⟩
  · show Except.ok { s with ring := (s.ring.freeBuf isFreeFn none).2 } = _
    rw [hring]
  · rw [hchunk]
    refine ⟨h.size, h.writer, ?_, rfl, ?_, ?_, h.written (by unfold idMax; omega)⟩
    · show s.ring.monotonicIdEnd = 2
      rw [h.idEnd]
      unfold idMax
      omega
    · show s.ring.dataBufferEnd = _
      rw [h.dataEnd]
      push_cast
      rfl
    · show (s.ring.metadata.erase 0).get? 3 = some 27
      rw [PyDict.get?_erase_of_ne _ (by omega)]
      exact h3

/-- The condition is needed. With `2 ^ 31 + 2` chunks the ids `0` and `1` are used twice; when the
id `0` is freed, the space of all chunks but one counts as free, and the next chunk overlaps the
live chunk with the id `3`. -/
theorem wrapped_ids_overlap :
    ∃ s, Run RingState.step (fun _ _ => True) (RingState.start largeBuffer) s ∧
      ∃ address address', s.ring.metadata.get? 2 = some address ∧
        s.ring.metadata.get? 3 = some address' ∧
        ¬ (address % s.ring.bufferSize + s.written 2 ≤ address' % s.ring.bufferSize ∨
          address' % s.ring.bufferSize + s.written 3 ≤ address % s.ring.bufferSize) := by
  obtain ⟨s, hrun, hsize, hwriter, hid, hstart, hend, h₃, hwritten⟩ := exists_freed
  have hB : s.ring.bufferSize = 19327352850 := by
    unfold bufferSize
    rw [hsize]
    rfl
  have hend' : s.ring.dataBufferEnd = 19327352850 := by
    rw [hend]
    unfold idMax
    omega
  have hreset : s.ring.bufferEndReset (30 + mdSize) = 19327352850 := by
    unfold bufferEndReset mdSize
    rw [hend', hB, Int.emod_self, if_neg (by omega)]
  obtain ⟨idBytes, sizeBytes, halloc⟩ := allocateBuf_eq_ok 30 hwriter (by omega) (by
      rw [hreset, hstart, hB]
      unfold mdSize idMax
      omega)
    (by rw [hid]; unfold idMax; omega) (by unfold mdSize; omega)
  have hstep : s.step (.allocateBuf 30) = .ok
      { ring := s.ring.chunkWritten (30 + mdSize) idBytes sizeBytes
        written := update s.written s.ring.monotonicIdEnd (30 + mdSize) } := by
    simp only [RingState.step, halloc]
  refine ⟨_, .next _ hrun trivial hstep, 19327352850, 27, ?_, ?_, ?_⟩
  · show (s.ring.metadata.insert (s.ring.monotonicIdEnd % idMax)
      (s.ring.bufferEndReset (30 + mdSize))).get? 2 = some 19327352850
    rw [hid, hreset, Nat.mod_eq_of_lt (by unfold idMax; omega), PyDict.get?_insert_self]
  · show (s.ring.metadata.insert (s.ring.monotonicIdEnd % idMax)
      (s.ring.bufferEndReset (30 + mdSize))).get? 3 = some 27
    rw [hid, Nat.mod_eq_of_lt (by unfold idMax; omega), PyDict.get?_insert_of_ne _ _ (by omega)]
    exact h₃
  · show ¬ (19327352850 % s.ring.bufferSize +
        update s.written s.ring.monotonicIdEnd (30 + mdSize) 2 ≤ 27 % s.ring.bufferSize ∨
      27 % s.ring.bufferSize + update s.written s.ring.monotonicIdEnd (30 + mdSize) 3 ≤
          19327352850 % s.ring.bufferSize)
    rw [hid, hB, update_self, update_of_ne (by omega), hwritten]
    unfold mdSize
    omega

end Wrapped

end Vllm.Proofs.Distributed
