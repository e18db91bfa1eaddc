import Vllm.Distributed.ShmObjectStorage
import Vllm.Proofs.Distributed.RingBuffer
import Mathlib.Data.List.Perm.Subperm

/-!
# `Vllm.Proofs.Distributed.ObjectStorage`: the objects in the shared memory

* `LiveRing`: a ring buffer between two calls whose chunks have room for the count of the readers.
  `allocateBuf_spec`, `write_spec` and `freeBuf_spec` say what the calls do to the records of the
  chunks and to the counts.
* `StorageInv`: the indexes of the writer and its flags are those of the chunks.
-/

set_option autoImplicit false

namespace Vllm.Proofs.Distributed

open Vllm.Lib Vllm.Distributed SingleWriterShmRingBuffer PyDict SingleWriterShmObjectStorage
open List hiding contains contains_insert insert erase

/-! ### Views -/

section Views

variable {rb : SingleWriterShmRingBuffer} {chunks : List Chunk} {c d : Chunk}

/-- The first four bytes of the view at an address. -/
def flagCount (rb : SingleWriterShmRingBuffer) (address : Int) : Int :=
  byte2int ((rb.dataView address).take flagBytes)

/-- The view of a chunk is what follows its header. -/
theorem InMemory.dataView (h : InMemory rb c) : rb.dataView c.address =
      rb.read (c.place % rb.bufferSize + mdSize) (c.size - mdSize).toNat := by
  unfold SingleWriterShmRingBuffer.dataView accessBuf
  dsimp only
  rw [h.header, h.address]

/-- A ring buffer between two calls, with fewer chunks than ids, each with room for the count of
the readers. -/
structure LiveRing (rb : SingleWriterShmRingBuffer) (chunks : List Chunk) : Prop where
  rest : AtRest rb chunks
  few : chunks.length < idMax
  flags : ∀ c ∈ chunks, mdSize + flagBytes ≤ c.size

theorem LiveRing.size_eq (h : LiveRing rb chunks) : rb.metadata.size = chunks.length := by
  rw [size, h.rest.inv.metadata, length_map]

theorem LiveRing.get?_iff (h : LiveRing rb chunks) (id : Nat) (address : Int) :
    rb.metadata.get? id = some address ↔ ∃ c ∈ chunks, c.id = id ∧ c.address = address := by
  constructor
  · exact h.rest.inv.exists_chunk
  · rintro ⟨c, hc, rfl, rfl⟩
    rw [← mem_entries_iff, h.rest.inv.metadata]
    exact mem_map_of_mem (f := fun c : Chunk => (c.id, c.address)) hc

/-- A chunk keeps its view when its bytes are not written to. -/
theorem dataView_of_read {w : SingleWriterShmRingBuffer} (h : InMemory rb c) (h' : InMemory w c)
    (hB : w.bufferSize = rb.bufferSize)
    (hread : ∀ (i : Int) (n : Nat), c.place % rb.bufferSize + mdSize ≤ i →
      i + n ≤ c.place % rb.bufferSize + c.size → w.read i n = rb.read i n) :
    w.dataView c.address = rb.dataView c.address := by
  have hl := h.large
  rw [h.dataView, h'.dataView, hB]
  exact hread _ _ le_rfl (by omega)

end Views

/-! ### `allocate_buf` -/

section Allocate

variable {rb : SingleWriterShmRingBuffer} {chunks : List Chunk} {c : Chunk}

/-- `allocate_buf` writes to no live chunk. -/
theorem read_allocateBuf (size : Int) (h : AtRest rb chunks) (hc : c ∈ chunks) {i : Int} {n : Nat}
    (hlow : c.place % rb.bufferSize ≤ i) (hup : i + n ≤ c.place % rb.bufferSize + c.size) :
    (rb.allocateBuf size).2.read i n = rb.read i n := by
  unfold allocateBuf
  split
  · rfl
  · split
    · rfl
    · rename_i hpos
      split
      · rfl
      · rename_i hspace
        have hsize : 0 < size + mdSize := by
          unfold mdSize
          omega
        have hapart := h.inv.next_disjoint hc hsize (Int.not_lt.mp hspace)
        have hmd : mdSize = 8 := rfl
        have hidWritten : ∀ idBytes : List UInt8, idBytes.length = 4 →
            (rb.idWritten (size + mdSize) idBytes).read i n = rb.read i n := fun idBytes hlen =>
          read_write_of_disjoint (by rw [hlen]; omega)
        unfold writeChunk
        split
        · rfl
        · rename_i idBytes hid
          have hlen := (byte2int_int2byte hid).2
          split
          · exact hidWritten idBytes hlen
          · rename_i sizeBytes hsz
            have hlen' := (byte2int_int2byte hsz).2
            have hsizeWritten : ((rb.idWritten (size + mdSize) idBytes).write
                (rb.bufferEndReset (size + mdSize) % rb.bufferSize + 4) sizeBytes).read i n =
                (rb.idWritten (size + mdSize) idBytes).read i n :=
              read_write_of_disjoint (by rw [hlen']; omega)
            exact hsizeWritten.trans (hidWritten idBytes hlen)

theorem dataBufferSize_allocateBuf (size : Int) :
    (rb.allocateBuf size).2.dataBufferSize = rb.dataBufferSize := by
  unfold allocateBuf
  split
  · rfl
  · split
    · rfl
    · split
      · rfl
      · unfold writeChunk
        split
        · rfl
        · split <;> rfl

/-- `allocate_buf`: it raises, and the chunks and their views are as before, or there is a new
chunk with an id that was not in use. -/
theorem allocateBuf_spec {size : Int} (h : LiveRing rb chunks) (hflag : flagBytes ≤ size)
    (hfew : rb.metadata.size + 1 < idMax) :
    (∀ c ∈ chunks, (rb.allocateBuf size).2.dataView c.address = rb.dataView c.address) ∧
    ((∃ e, (rb.allocateBuf size).1 = .error e ∧ LiveRing (rb.allocateBuf size).2 chunks) ∨
    ∃ d : Chunk, (rb.allocateBuf size).1 = .ok (d.address, d.id) ∧
      LiveRing (rb.allocateBuf size).2 (chunks ++ [d]) ∧ d.size = size + mdSize ∧
      ∀ c ∈ chunks, c.id ≠ d.id) := by
  have hB : (rb.allocateBuf size).2.bufferSize = rb.bufferSize := by
    unfold bufferSize
    rw [dataBufferSize_allocateBuf]
  have hviews : ∀ chunks', LiveRing (rb.allocateBuf size).2 chunks' → chunks ⊆ chunks' →
      ∀ c ∈ chunks, (rb.allocateBuf size).2.dataView c.address = rb.dataView c.address := by
    intro chunks' h' hsub c hc
    refine dataView_of_read (h.rest.inv.inMemory c hc) (h'.rest.inv.inMemory c (hsub hc)) hB
      fun i n hlow hup => read_allocateBuf size h.rest hc ?_ hup
    unfold mdSize at hlow
    omega
  have hlen := h.size_eq
  rcases atRest_allocateBuf size h.rest (by omega) with ⟨e, herr, hrest⟩ | ⟨hok, hrest⟩
  · have hlive : LiveRing (rb.allocateBuf size).2 chunks := ⟨hrest, h.few, h.flags⟩
    exact ⟨hviews chunks hlive (List.Subset.refl _), .inl ⟨e, herr, hlive⟩⟩
  · have hlive : LiveRing (rb.allocateBuf size).2 (chunks ++ [newChunk rb (size + mdSize)]) := by
      refine ⟨hrest, ?_, fun c hc => ?_⟩
      · rw [length_append, length_singleton]
        omega
      · rcases mem_append.mp hc with hc | hc
        · exact h.flags c hc
        · obtain rfl := mem_singleton.mp hc
          show mdSize + flagBytes ≤ size + mdSize
          omega
    refine ⟨hviews _ hlive (subset_append_left _ _),
      .inr ⟨newChunk rb (size + mdSize), hok, hlive, rfl, fun c hc => ?_⟩⟩
    show c.id ≠ rb.monotonicIdEnd
    rw [h.rest.inv.idEnd]
    exact numbered_next_ne h.rest.inv.idStart h.rest.inv.numbered h.few hc

end Allocate

/-! ### Writes into a view -/

section Write

variable {rb : SingleWriterShmRingBuffer} {chunks : List Chunk} {c : Chunk} {data : List UInt8}

/-- A write at the beginning of the view of a chunk: it is read back, and the other views are as
before. -/
theorem write_spec (h : LiveRing rb chunks) (hc : c ∈ chunks)
    (hlen : (data.length : Int) ≤ c.size - mdSize) :
    LiveRing (rb.write (rb.accessBuf c.address).1.1 data) chunks ∧
    (rb.write (rb.accessBuf c.address).1.1 data).read (c.place % rb.bufferSize + mdSize)
      data.length = data ∧
    ∀ d ∈ chunks, d.id ≠ c.id →
      (rb.write (rb.accessBuf c.address).1.1 data).dataView d.address = rb.dataView d.address := by
  have hm := h.rest.inv.inMemory c hc
  have hplace : (rb.accessBuf c.address).1.1 = c.place % rb.bufferSize + mdSize := by
    unfold accessBuf
    dsimp only
    rw [hm.address]
  rw [hplace]
  have hring := ringInv_write h.rest.inv hc hlen
  refine ⟨⟨⟨hring, h.rest.firstRound⟩, h.few, h.flags⟩, read_write_self, fun d hd hne => ?_⟩
  refine dataView_of_read (h.rest.inv.inMemory d hd) (hring.inMemory d hd) rfl
    fun i n hlow hup => read_write_of_disjoint ?_
  have hmd : mdSize = 8 := rfl
  rcases h.rest.inv.place_cases hc hd with rfl | hlt | hlt
  · exact absurd rfl hne
  · have := h.rest.inv.disjoint hc hd hlt
    omega
  · have := h.rest.inv.disjoint hd hc hlt
    omega

/-- The count after a write of at least four bytes. -/
theorem flagCount_write (h : LiveRing rb chunks) (hc : c ∈ chunks)
    (hlen : (data.length : Int) ≤ c.size - mdSize) (hflag : flagBytes ≤ data.length) :
    flagCount (rb.write (rb.accessBuf c.address).1.1 data) c.address =
      byte2int (data.take flagBytes) := by
  obtain ⟨hlive, hread, -⟩ := write_spec h hc hlen
  have hm := hlive.rest.inv.inMemory c hc
  have hB : (rb.write (rb.accessBuf c.address).1.1 data).bufferSize = rb.bufferSize := rfl
  unfold flagCount
  rw [hm.dataView, hB]
  have htake : ∀ n : Nat, flagBytes ≤ n →
      ((rb.write (rb.accessBuf c.address).1.1 data).read (c.place % rb.bufferSize + mdSize)
        n).take flagBytes = (rb.write (rb.accessBuf c.address).1.1 data).read
          (c.place % rb.bufferSize + mdSize) flagBytes := by
    intro n hn
    unfold SingleWriterShmRingBuffer.read
    rw [← map_take, take_range, Nat.min_eq_left hn]
  have hroom : flagBytes ≤ (c.size - mdSize).toNat := by
    have := h.flags c hc
    omega
  rw [htake _ hroom, ← htake _ hflag, hread]

end Write

/-! ### `free_buf` -/

section Free

variable {rb : SingleWriterShmRingBuffer} {chunks : List Chunk}

/-- The ids of the first chunks. -/
theorem numbered_take {id : Nat} (hid : id < idMax) (h : Numbered id chunks) (k : Nat)
    (hk : k ≤ chunks.length) :
    (chunks.take k).map Chunk.id = (List.range k).map fun i => (id + i) % idMax := by
  induction k generalizing id chunks with
  | zero => rfl
  | succ k ih =>
    cases chunks with
    | nil => exact absurd hk (Nat.not_succ_le_zero k)
    | cons c chunks =>
      have htail := ih (Nat.mod_lt _ idMax_pos) h.2 (Nat.le_of_succ_le_succ hk)
      have hzero : (id + 0) % idMax = id := Nat.mod_eq_of_lt hid
      rw [take_succ_cons, map_cons, htail, range_succ_eq_map, map_cons,
        map_map, h.1, hzero]
      refine congrArg _ (map_congr_left fun i _ => ?_)
      show ((id + 1) % idMax + i) % idMax = (id + (i + 1)) % idMax
      rw [Nat.mod_add_mod]
      congr 1
      omega

/-- The ids that `free_buf` returns are counted from the first freed one. -/
theorem idsBetween_eq {id k : Nat} (hid : id < idMax) (hk : k < idMax) :
    idsBetween id ((id + k) % idMax) = (List.range k).map fun i => (id + i) % idMax := by
  unfold idsBetween
  by_cases hwrap : id + k < idMax
  · rw [Nat.mod_eq_of_lt hwrap, if_pos (Nat.le_add_right _ _), Nat.add_sub_cancel_left,
      range'_eq_map_range]
    refine map_congr_left fun i hi => ?_
    have hlt := mem_range.mp hi
    exact (Nat.mod_eq_of_lt (by omega)).symm
  · have hmod : (id + k) % idMax = id + k - idMax := by
      rw [Nat.mod_eq_sub_mod (by omega), Nat.mod_eq_of_lt (by omega)]
    rw [hmod, if_neg (by omega)]
    -- The ids up to `ID_MAX` and those after it.
    have hsplit : k = (idMax - id) + (id + k - idMax) := by omega
    conv_rhs => rw [hsplit, range_add, map_append, map_map]
    rw [range'_eq_map_range]
    refine congrArg₂ _ (map_congr_left fun i hi => ?_) ?_
    · have hlt := mem_range.mp hi
      exact (Nat.mod_eq_of_lt (by omega)).symm
    · refine (map_id _).symm.trans (map_congr_left fun i hi => ?_)
      have hlt := mem_range.mp hi
      show i = (id + (idMax - id + i)) % idMax
      rw [show id + (idMax - id + i) = idMax + i by omega, Nat.add_mod_left,
        Nat.mod_eq_of_lt (by omega)]

/-- `free_buf`: the oldest chunks, which are free, are removed and their ids returned. The memory
is not written to. -/
theorem freeBuf_spec (isFreeFn : Nat → List UInt8 → Bool) (nbytes : Option Int)
    (h : LiveRing rb chunks) :
    ∃ (freed kept : List Chunk) (back : Int), chunks = freed ++ kept ∧
      (rb.freeBuf isFreeFn nbytes).1 = .ok (freed.map Chunk.id) ∧
      LiveRing (rb.freeBuf isFreeFn nbytes).2 (kept.map (Chunk.back back)) ∧
      (∀ address, (rb.freeBuf isFreeFn nbytes).2.dataView address = rb.dataView address) ∧
      ∀ c ∈ freed, isFreeFn c.id (rb.dataView c.address) = true := by
  unfold freeBuf
  rw [if_neg (by rw [h.rest.inv.writer]; exact Bool.true_eq_false_eq_False)]
  dsimp only
  obtain ⟨k, hk, hloop, hbuf, hsize, hstart, hall⟩ :=
    ringInv_freeLoop isFreeFn (nbytes.getD rb.bufferSize) rb.metadata.size 0 h.rest.inv
  obtain ⟨back, -, hrest⟩ := atRest_wrapAround hloop
  have hwrap : ∀ r : SingleWriterShmRingBuffer, r.wrapAround.buf = r.buf ∧
      r.wrapAround.dataBufferSize = r.dataBufferSize ∧
      r.wrapAround.monotonicIdStart = r.monotonicIdStart := by
    intro r
    unfold wrapAround
    split <;> exact ⟨rfl, rfl, rfl⟩
  obtain ⟨hbuf', hsize', hstart'⟩ := hwrap (freeLoop isFreeFn (nbytes.getD rb.bufferSize)
    rb.metadata.size 0 rb)
  refine ⟨chunks.take k, chunks.drop k, back, (take_append_drop k chunks).symm, ?_, ?_,
    dataView_congr (hbuf'.trans hbuf) (hsize'.trans hsize), hall⟩
  · rw [hstart', hstart, idsBetween_eq h.rest.inv.idStart (by have := h.few; omega),
      numbered_take h.rest.inv.idStart h.rest.inv.numbered k hk]
  · refine ⟨hrest, ?_, fun c hc => ?_⟩
    · rw [length_map, length_drop]
      have := h.few
      omega
    · obtain ⟨d, hd, rfl⟩ := mem_map.mp hc
      exact h.flags d (mem_of_mem_drop hd)

end Free

/-! ### The indexes of the writer -/

section Index

variable {s : SingleWriterShmObjectStorage}

/-- The keys, ids and flags are those of the given objects, each an id with its address. -/
structure IndexInv (s : SingleWriterShmObjectStorage) (objects : List (Nat × Int)) : Prop where
  indexed : ∀ o ∈ objects, ∃ key, s.idIndex.get? o.1 = some key ∧
    s.keyIndex.get? key = some (o.2, o.1)
  keyed : ∀ key v, s.keyIndex.get? key = some v → s.idIndex.get? v.2 = some key ∧
    (v.2, v.1) ∈ objects
  flagged : ∀ id, s.writerFlag.contains id = true ↔ id ∈ objects.map Prod.fst

/-- The first object is dropped. -/
theorem IndexInv.drop {o : Nat × Int} {objects : List (Nat × Int)} {key : String}
    (h : IndexInv s (o :: objects)) (hfresh : o.1 ∉ objects.map Prod.fst)
    (hkey : s.idIndex.get? o.1 = some key) :
    IndexInv { s with
      keyIndex := s.keyIndex.erase key
      idIndex := s.idIndex.erase o.1
      writerFlag := s.writerFlag.erase o.1 } objects := by
  have hne : ∀ o' ∈ objects, o'.1 ≠ o.1 := fun o' ho' heq =>
    hfresh (heq ▸ mem_map_of_mem (f := Prod.fst) ho')
  refine ⟨fun o' ho' => ?_, fun key' v hv => ?_, fun id => ?_⟩
  · obtain ⟨key', hid, hkey'⟩ := h.indexed o' (mem_cons_of_mem _ ho')
    have hkne : key' ≠ key := by
      rintro rfl
      obtain ⟨key', hid', hkey''⟩ := h.indexed o mem_cons_self
      cases hid'.symm.trans hkey
      rw [hkey''] at hkey'
      exact hne o' ho' (congrArg Prod.snd (Option.some.inj hkey')).symm
    refine ⟨key', ?_, ?_⟩
    · exact (get?_erase_of_ne _ (hne o' ho')).trans hid
    · exact (get?_erase_of_ne _ hkne).trans hkey'
  · have hv' : (s.keyIndex.erase key).get? key' = some v := hv
    rw [get?_erase] at hv'
    split at hv'
    · cases hv'
    · rename_i hkne
      obtain ⟨hid, hmem⟩ := h.keyed key' v hv'
      have hvne : v.2 ≠ o.1 := by
        intro heq
        rw [heq, hkey] at hid
        exact hkne (Option.some.inj hid).symm
      refine ⟨(get?_erase_of_ne _ hvne).trans hid, ?_⟩
      rcases mem_cons.mp hmem with heq | hmem
      · exact absurd (congrArg Prod.fst heq) hvne
      · exact hmem
  · show (s.writerFlag.erase o.1).contains id = true ↔ _
    have hiff := h.flagged id
    rw [map_cons, mem_cons] at hiff
    rw [contains_erase]
    by_cases hid : id = o.1
    · subst hid
      simp [hfresh]
    · simp [hid, hiff]

/-- The loop of `free_unused` drops the freed objects and raises nothing. -/
theorem dropFreed_spec {freed kept : List (Nat × Int)} (h : IndexInv s (freed ++ kept))
    (hnodup : ((freed ++ kept).map Prod.fst).Nodup) :
    (s.dropFreed (freed.map Prod.fst)).1 = .ok () ∧
    IndexInv (s.dropFreed (freed.map Prod.fst)).2 kept ∧
    (s.dropFreed (freed.map Prod.fst)).2.ringBuffer = s.ringBuffer ∧
    (s.dropFreed (freed.map Prod.fst)).2.nReaders = s.nReaders ∧
    (∀ id ∉ freed.map Prod.fst,
      (s.dropFreed (freed.map Prod.fst)).2.writerFlag.get? id = s.writerFlag.get? id) ∧
    ∀ key v, (s.dropFreed (freed.map Prod.fst)).2.keyIndex.get? key = some v ↔
      s.keyIndex.get? key = some v ∧ v.2 ∉ freed.map Prod.fst := by
  induction freed generalizing s with
  | nil =>
    exact ⟨rfl, h, rfl, rfl, fun _ _ => rfl, fun _ _ => ⟨fun hv => ⟨hv, nofun⟩, And.left⟩⟩
  | cons o freed ih =>
    obtain ⟨hfresh, hnodup⟩ := nodup_cons.mp hnodup
    obtain ⟨key, hid, hkey⟩ := h.indexed o mem_cons_self
    have hcontains : s.keyIndex.contains key = true := by
      rw [contains, hkey]
      rfl
    have hflag : s.writerFlag.contains o.1 = true := (h.flagged o.1).mpr mem_cons_self
    have heq : s.dropFreed ((o :: freed).map Prod.fst) = dropFreed
        { s with
          keyIndex := s.keyIndex.erase key
          idIndex := s.idIndex.erase o.1
          writerFlag := s.writerFlag.erase o.1 } (freed.map Prod.fst) := by
      rw [map_cons, dropFreed]
      simp only [hid, hcontains, hflag, Bool.true_eq_false, if_false]
    obtain ⟨hok, hinv, hring, hn, hflags, hkeys⟩ := ih (h.drop hfresh hid) hnodup
    rw [heq]
    refine ⟨hok, hinv, hring, hn, fun id hnot => ?_, fun key' v => ?_⟩
    · rw [map_cons, mem_cons, not_or] at hnot
      rw [hflags id hnot.2]
      exact get?_erase_of_ne _ hnot.1
    · rw [hkeys key' v]
      show (s.keyIndex.erase key).get? key' = some v ∧ _ ↔ _
      rw [map_cons, mem_cons, not_or, get?_erase]
      split
      · rename_i heqk
        subst heqk
        refine ⟨fun hv => (nomatch hv.1), fun hv => absurd ?_ hv.2.1⟩
        rw [hkey] at hv
        exact (congrArg Prod.snd (Option.some.inj hv.1)).symm
      · rename_i hkne
        refine ⟨fun hv => ⟨hv.1, fun heqv => hkne ?_, hv.2⟩, fun hv => ⟨hv.1, hv.2.2⟩⟩
        have hidv := (h.keyed key' v hv.1).1
        rw [heqv, hid] at hidv
        exact (Option.some.inj hidv).symm

end Index

/-! ### The operations of the storage -/

section Operations

variable {s s' s'' : SingleWriterShmObjectStorage}

/-- The invariant of the storage. -/
structure StorageInv (s : SingleWriterShmObjectStorage) : Prop where
  live : ∃ chunks, LiveRing s.ringBuffer chunks
  index : IndexInv s s.ringBuffer.metadata.entries

/-- The address of a live object. -/
def Live (s : SingleWriterShmObjectStorage) (id : Nat) (address : Int) : Prop :=
  s.ringBuffer.metadata.get? id = some address

/-- `writer_flag[id]`, zero where there is none. -/
def writerCount (s : SingleWriterShmObjectStorage) (id : Nat) : Nat :=
  (s.writerFlag.get? id).getD 0

variable {key : String}

theorem StorageInv.live_of_key (h : StorageInv s) {v : Int × Nat}
    (hkey : s.keyIndex.get? key = some v) : Live s v.2 v.1 :=
  (mem_entries_iff _ _ _).mp (h.index.keyed key v hkey).2

variable {id : Nat} {address : Int}

/-- The check of a live object compares the counts. -/
theorem StorageInv.check_live (h : StorageInv s) (hlive : Live s id address) :
    s.defaultIsFreeCheck id (s.ringBuffer.dataView address) =
      .ok (decide (s.readerCount address ≥ (writerCount s id * s.nReaders : Nat))) := by
  have hmem : id ∈ s.ringBuffer.metadata.entries.map Prod.fst := mem_keys_of_get? hlive
  have hflag := (h.index.flagged id).mpr hmem
  obtain ⟨n, hn⟩ := Option.isSome_iff_exists.mp hflag
  unfold defaultIsFreeCheck writerCount
  rw [hn]
  rfl

/-- What becomes of the objects when some are freed: those were free, and the others are as
before. -/
structure Kept (s s' : SingleWriterShmObjectStorage) (freed : List Nat) : Prop where
  live : ∀ id address, Live s' id address ↔ Live s id address ∧ id ∉ freed
  count : ∀ id address, Live s' id address → s'.readerCount address = s.readerCount address
  flag : ∀ id ∉ freed, writerCount s' id = writerCount s id
  key : ∀ key v, s'.keyIndex.get? key = some v ↔ s.keyIndex.get? key = some v ∧ v.2 ∉ freed
  free : ∀ id ∈ freed, ∃ address, Live s id address ∧
    s.readerCount address ≥ (writerCount s id * s.nReaders : Nat)
  nReaders : s'.nReaders = s.nReaders

theorem Kept.trans {freed freed' : List Nat} (h : Kept s s' freed) (h' : Kept s' s'' freed') :
    Kept s s'' (freed ++ freed') := by
  refine ⟨fun id address => ?_, fun id address hlive => ?_, fun id hid => ?_, fun key v => ?_,
    fun id hid => ?_, h'.nReaders.trans h.nReaders⟩
  · rw [h'.live, h.live, mem_append, not_or, and_assoc]
  · rw [h'.count id address hlive, h.count id address ((h'.live id address).mp hlive).1]
  · rw [mem_append, not_or] at hid
    rw [h'.flag id hid.2, h.flag id hid.1]
  · rw [h'.key, h.key, mem_append, not_or, and_assoc]
  · rcases mem_append.mp hid with hid | hid
    · exact h.free id hid
    · obtain ⟨address, hlive, hcount⟩ := h'.free id hid
      obtain ⟨hlive', hnot⟩ := (h.live id address).mp hlive
      rw [h.count id address hlive, h.flag id hnot, h.nReaders] at hcount
      exact ⟨address, hlive', hcount⟩

variable {ring : SingleWriterShmRingBuffer}

/-- A change of the ring buffer that keeps the chunks and their views. -/
theorem Kept.of_ring (h : StorageInv s) {chunks : List Chunk}
    (hlive : LiveRing s.ringBuffer chunks) (hlive' : LiveRing ring chunks)
    (hview : ∀ c ∈ chunks, ring.dataView c.address = s.ringBuffer.dataView c.address) :
    StorageInv { s with ringBuffer := ring } ∧ Kept s { s with ringBuffer := ring } [] := by
  have hentries : ring.metadata.entries = s.ringBuffer.metadata.entries := by
    rw [hlive.rest.inv.metadata, hlive'.rest.inv.metadata]
  have hget : ∀ id, ring.metadata.get? id = s.ringBuffer.metadata.get? id := fun id => by
    unfold get?
    rw [hentries]
  refine ⟨⟨⟨chunks, hlive'⟩, ?_⟩, fun id address => ?_, fun id address hl => ?_, fun _ _ => rfl,
    fun key v => ⟨fun hv => ⟨hv, nofun⟩, And.left⟩, nofun, rfl⟩
  · show IndexInv { s with ringBuffer := ring } ring.metadata.entries
    rw [hentries]
    exact ⟨h.index.indexed, h.index.keyed, h.index.flagged⟩
  · show ring.metadata.get? id = some address ↔ _
    rw [hget]
    exact ⟨fun hl => ⟨hl, nofun⟩, And.left⟩
  · obtain ⟨c, hc, -, rfl⟩ := (hlive'.get?_iff id address).mp hl
    unfold readerCount
    rw [← hview c hc]

/-- `free_unused` raises nothing and drops objects that are free. -/
theorem freeUnused_spec (h : StorageInv s) :
    s.freeUnused.1 = .ok () ∧ StorageInv s.freeUnused.2 ∧ ∃ freed, Kept s s.freeUnused.2 freed := by
  obtain ⟨chunks, hlive⟩ := h.live
  obtain ⟨freed, kept, back, rfl, hfreed, hring, hview, hall⟩ :=
    freeBuf_spec s.isFree (some (2 * s.maxObjectSize : Nat)) hlive
  obtain ⟨result, ring, hpair⟩ : ∃ result ring,
      s.ringBuffer.freeBuf s.isFree (some (2 * s.maxObjectSize : Nat)) = (result, ring) :=
    ⟨_, _, rfl⟩
  rw [hpair] at hfreed hring hview
  dsimp only at hfreed hring hview
  subst hfreed
  have heq : s.freeUnused = dropFreed
      { s with ringBuffer := ring } (freed.map Chunk.id) := by
    unfold freeUnused
    rw [hpair]
  -- The objects as the indexes see them.
  have hobjects : s.ringBuffer.metadata.entries =
      (freed.map fun c => (c.id, c.address)) ++ kept.map fun c => (c.id, c.address) := by
    rw [hlive.rest.inv.metadata, map_append]
  have hids : (freed.map fun c => (c.id, c.address)).map Prod.fst = freed.map Chunk.id := by
    rw [map_map]
    rfl
  have hindex : IndexInv { s with ringBuffer := ring }
      ((freed.map fun c => (c.id, c.address)) ++ kept.map fun c => (c.id, c.address)) := by
    rw [← hobjects]
    exact ⟨h.index.indexed, h.index.keyed, h.index.flagged⟩
  obtain ⟨hok, hinv, hsame, hn, hflags, hkeys⟩ := dropFreed_spec hindex
    (hobjects ▸ s.ringBuffer.metadata.nodup)
  rw [hids, ← heq] at hok hinv hsame hn hflags hkeys
  have hsame' : s.freeUnused.2.ringBuffer = ring := hsame
  have hentries : ring.metadata.entries = kept.map fun c => (c.id, c.address) := by
    rw [hring.rest.inv.metadata, map_map]
    rfl
  refine ⟨hok, ⟨⟨kept.map (Chunk.back back), hsame' ▸ hring⟩, ?_⟩, freed.map Chunk.id,
    fun id address => ?_, fun id address _ => ?_, fun id hid => ?_, fun key v => ?_,
    fun id hid => ?_, hn⟩
  · rw [hsame', hentries]
    exact hinv
  · unfold Live
    rw [hsame', ← mem_entries_iff, ← mem_entries_iff, hentries, hobjects,
      mem_append, ← hids]
    have hnodup := s.ringBuffer.metadata.nodup
    rw [hobjects, map_append] at hnodup
    have hdisj := (nodup_append.mp hnodup).2.2
    constructor
    · intro hmem
      exact ⟨.inr hmem, fun hin => hdisj _ hin _ (mem_map_of_mem (f := Prod.fst) hmem) rfl⟩
    · rintro ⟨hmem | hmem, hnot⟩
      · exact absurd (mem_map_of_mem (f := Prod.fst) hmem) hnot
      · exact hmem
  · unfold readerCount
    rw [hsame', hview]
  · unfold writerCount
    rw [hflags id hid]
  · exact hkeys key v
  · obtain ⟨c, hc, rfl⟩ := mem_map.mp hid
    have hl : Live s c.id c.address :=
      (hlive.get?_iff _ _).mpr ⟨c, mem_append_left _ hc, rfl, rfl⟩
    have hfree := hall c hc
    unfold isFree at hfree
    rw [h.check_live hl] at hfree
    exact ⟨c.address, hl, of_decide_eq_true hfree⟩

/-- The effect of a read that is counted. -/
structure ReadCounted (s s' : SingleWriterShmObjectStorage) (id : Nat) (address : Int) : Prop where
  inv : StorageInv s'
  live : ∀ i a, Live s' i a ↔ Live s i a
  self : s'.readerCount address = s.readerCount address + 1
  other : ∀ i a, Live s i a → i ≠ id → s'.readerCount a = s.readerCount a
  flag : s'.writerFlag = s.writerFlag
  key : s'.keyIndex = s.keyIndex
  nReaders : s'.nReaders = s.nReaders

theorem incrementReaderFlag_spec (h : StorageInv s) (hlive : Live s id address)
    (hok : s.incrementReaderFlag address = .ok s') :
    ReadCounted s s' id address := by
  obtain ⟨chunks, hring⟩ := h.live
  obtain ⟨c, hc, rfl, rfl⟩ := (hring.get?_iff id address).mp hlive
  obtain ⟨bytes, hbytes, hs'⟩ := bind_ok hok
  obtain ⟨hvalue, hlen⟩ := byte2int_int2byte hbytes
  have hroom : (bytes.length : Int) ≤ c.size - mdSize := by
    have hflag := hring.flags c hc
    have hfour : flagBytes = 4 := rfl
    rw [hlen]
    omega
  obtain ⟨hring', -, hothers⟩ := write_spec hring hc hroom
  have hself := flagCount_write hring hc hroom (by rw [hlen]; exact le_rfl)
  cases hs'
  refine ⟨⟨⟨chunks, hring'⟩, ⟨h.index.indexed, h.index.keyed, h.index.flagged⟩⟩,
    fun _ _ => Iff.rfl, ?_, fun i a hl hne => ?_, rfl, rfl, rfl⟩
  · rw [take_of_length_le (by rw [hlen]; exact le_rfl), hvalue] at hself
    exact hself
  · obtain ⟨d, hd, rfl, rfl⟩ := (hring.get?_iff i a).mp hl
    unfold readerCount
    rw [← hothers d hd hne]

/-- The writer counts an access to a live object. -/
theorem incrementWriterFlag_spec (h : StorageInv s) (hlive : Live s id address) :
    StorageInv (s.incrementWriterFlag id) ∧
    writerCount (s.incrementWriterFlag id) id = writerCount s id + 1 ∧
    ∀ i ≠ id, writerCount (s.incrementWriterFlag id) i = writerCount s i := by
  refine ⟨⟨h.live, h.index.indexed, h.index.keyed, fun i => ?_⟩, ?_, fun i hne => ?_⟩
  · have hmem : id ∈ s.ringBuffer.metadata.entries.map Prod.fst := mem_keys_of_get? hlive
    show (s.writerFlag.insert id _).contains i = true ↔
      i ∈ s.ringBuffer.metadata.entries.map Prod.fst
    rw [contains_insert, ← h.index.flagged i]
    have hflag := (h.index.flagged id).mpr hmem
    by_cases hi : i = id
    · subst hi
      simp [hflag]
    · simp [hi]
  · unfold writerCount incrementWriterFlag
    rw [get?_insert_self]
    rfl
  · unfold writerCount incrementWriterFlag
    rw [get?_insert_of_ne _ _ hne]

/-- The effect of storing an object under a new key. -/
structure Stored (s s' : SingleWriterShmObjectStorage) (key : String) (id : Nat) (address : Int) :
    Prop where
  fresh : ∀ a, ¬ Live s id a
  live : ∀ i a, Live s' i a ↔ Live s i a ∨ (i = id ∧ a = address)
  self : s'.readerCount address = 0
  other : ∀ i a, Live s i a → s'.readerCount a = s.readerCount a
  flag : writerCount s' id = 1
  flags : ∀ i ≠ id, writerCount s' i = writerCount s i
  key : s'.keyIndex = s.keyIndex.insert key (address, id)
  nReaders : s'.nReaders = s.nReaders

theorem storeObject_spec {chunks : List Chunk} {d : Chunk} {value : SerializedObject}
    (h : StorageInv s) (hlive : LiveRing s.ringBuffer chunks)
    (hnew : LiveRing ring (chunks ++ [d]))
    (hview : ∀ c ∈ chunks, ring.dataView c.address = s.ringBuffer.dataView c.address)
    (hsize : d.size = value.bufferSize + mdSize) (hfresh : ∀ c ∈ chunks, c.id ≠ d.id)
    (hkey : s.keyIndex.get? key = none) :
    StorageInv ({ s with ringBuffer := ring }.storeObject key value d.address d.id) ∧
    Stored s ({ s with ringBuffer := ring }.storeObject key value d.address d.id) key d.id
      d.address := by
  have hd : d ∈ chunks ++ [d] := mem_append_right _ mem_cons_self
  have hlen : (([0, 0, 0, 0] ++ value.metadata ++ value.data).length : Int) ≤ d.size - mdSize := by
    rw [hsize]
    unfold SerializedObject.bufferSize flagBytes
    simp only [length_append, length_cons, length_nil]
    omega
  have hflagLen : flagBytes ≤ ([0, 0, 0, 0] ++ value.metadata ++ value.data).length := by
    unfold flagBytes
    simp only [length_append, length_cons, length_nil]
    omega
  obtain ⟨hring', -, hothers⟩ := write_spec hnew hd hlen
  have hself := flagCount_write hnew hd hlen hflagLen
  have hentries : ring.metadata.entries = s.ringBuffer.metadata.entries ++ [(d.id, d.address)] := by
    rw [hnew.rest.inv.metadata, hlive.rest.inv.metadata, map_append]
    rfl
  have hunused : d.id ∉ s.ringBuffer.metadata.entries.map Prod.fst := by
    rw [hlive.rest.inv.metadata, map_map]
    intro hmem
    obtain ⟨c, hc, heq⟩ := mem_map.mp hmem
    exact hfresh c hc heq
  have hunflagged : s.writerFlag.get? d.id = none := by
    rw [← Option.not_isSome_iff_eq_none]
    exact fun hflag => hunused ((h.index.flagged d.id).mp hflag)
  have hlive_iff : ∀ i a, ring.metadata.get? i = some a ↔
      s.ringBuffer.metadata.get? i = some a ∨ (i = d.id ∧ a = d.address) := by
    intro i a
    rw [← mem_entries_iff, ← mem_entries_iff, hentries, mem_append,
      mem_singleton, Prod.mk.injEq]
  refine ⟨⟨⟨chunks ++ [d], hring'⟩, ?_⟩, ?_⟩
  · show IndexInv _ ring.metadata.entries
    rw [hentries]
    refine ⟨fun o ho => ?_, fun key' v hv => ?_, fun id => ?_⟩
    · rcases mem_append.mp ho with ho | ho
      · obtain ⟨key', hid, hkey'⟩ := h.index.indexed o ho
        have hidne : o.1 ≠ d.id := fun heq =>
          hunused (heq ▸ mem_map_of_mem (f := Prod.fst) ho)
        have hkne : key' ≠ key := by
          rintro rfl
          rw [hkey] at hkey'
          cases hkey'
        exact ⟨key', (get?_insert_of_ne _ _ hidne).trans hid,
          (get?_insert_of_ne _ _ hkne).trans hkey'⟩
      · obtain rfl := mem_singleton.mp ho
        exact ⟨key, get?_insert_self _ _ _, get?_insert_self _ _ _⟩
    · have hv' : (s.keyIndex.insert key (d.address, d.id)).get? key' = some v := hv
      rw [get?_insert] at hv'
      split at hv'
      · rename_i heq
        subst heq
        cases hv'
        exact ⟨get?_insert_self _ _ _, mem_append_right _ mem_cons_self⟩
      · obtain ⟨hid, hmem⟩ := h.index.keyed key' v hv'
        have hvne : v.2 ≠ d.id := fun heq =>
          hunused (heq ▸ mem_map_of_mem (f := Prod.fst) hmem)
        exact ⟨(get?_insert_of_ne _ _ hvne).trans hid, mem_append_left _ hmem⟩
    · show (s.writerFlag.insert d.id _).contains id = true ↔ _
      rw [contains_insert, map_append, mem_append, ← h.index.flagged id]
      by_cases hid : id = d.id
      · simp [hid]
      · simp [hid]
  · refine ⟨fun a hl => hunused (mem_keys_of_get? hl), hlive_iff, ?_, fun i a hl => ?_, ?_,
      fun i hne => ?_, rfl, rfl⟩
    · exact hself.trans rfl
    · obtain ⟨c, hc, rfl, rfl⟩ := (hlive.get?_iff i a).mp hl
      have hview' := hothers c (mem_append_left _ hc) (hfresh c hc)
      exact congrArg (fun view : List UInt8 => byte2int (view.take flagBytes))
        (hview'.trans (hview c hc))
    · show ((s.writerFlag.insert d.id ((s.writerFlag.get? d.id).getD 0 + 1)).get? d.id).getD 0 = 1
      rw [get?_insert_self, hunflagged]
      rfl
    · show ((s.writerFlag.insert d.id _).get? i).getD 0 = _
      rw [get?_insert_of_ne _ _ hne]
      rfl

/-- `allocate_buf` raises a `MemoryError`, or the size does not fit into four bytes. -/
theorem allocateBuf_error {rb : SingleWriterShmRingBuffer} {chunks : List Chunk} {size : Int}
    {e : PyError} (h : LiveRing rb chunks) (hpos : 0 < size)
    (herr : (rb.allocateBuf size).1 = .error e) :
    (∃ msg, e = .memoryError msg) ∨ 2147483648 ≤ size + mdSize := by
  unfold allocateBuf at herr
  rw [if_neg (by rw [h.rest.inv.writer]; exact Bool.true_eq_false_eq_False),
    if_neg (not_not_intro hpos)] at herr
  split at herr
  · exact .inl ⟨_, (Except.error.inj herr).symm⟩
  · have hidLt : rb.monotonicIdEnd < idMax := by
      rw [h.rest.inv.idEnd]
      exact Nat.mod_lt _ idMax_pos
    obtain ⟨idBytes, hid⟩ := int2byte_eq_ok (x := rb.monotonicIdEnd) (by omega)
      (by unfold idMax at hidLt; omega)
    by_cases hfit : size + mdSize < 2147483648
    · obtain ⟨sizeBytes, hsz⟩ := int2byte_eq_ok (x := size + mdSize)
        (by unfold mdSize; omega) hfit
      unfold writeChunk at herr
      rw [hid, hsz] at herr
      cases herr
    · exact .inr (Int.not_lt.mp hfit)

/-- How an attempt to store an object ends: some objects that were free may be gone; then it
raises, or the object is stored. -/
def PutResult (s : SingleWriterShmObjectStorage) (key : String) (value : SerializedObject)
    (result : Except PyError (Int × Nat) × SingleWriterShmObjectStorage) : Prop :=
  StorageInv result.2 ∧
  ((∃ e freed, result.1 = .error e ∧ Kept s result.2 freed ∧
      ((∃ msg, e = .valueError msg) ∨ (∃ msg, e = .memoryError msg) ∨
        2147483648 ≤ value.bufferSize + mdSize)) ∨
    ∃ address id mid freed, result.1 = .ok (address, id) ∧ StorageInv mid ∧ Kept s mid freed ∧
      Stored mid result.2 key id address)

theorem Kept.refl (s : SingleWriterShmObjectStorage) : Kept s s [] :=
  ⟨fun _ _ => ⟨fun hl => ⟨hl, nofun⟩, And.left⟩, fun _ _ _ => rfl, fun _ _ => rfl,
    fun _ _ => ⟨fun hv => ⟨hv, nofun⟩, And.left⟩, nofun, rfl⟩

/-- The objects that are left after others were freed are not more. -/
theorem size_le_of_kept {freed : List Nat} (h : Kept s s' freed) :
    s'.ringBuffer.metadata.size ≤ s.ringBuffer.metadata.size := by
  rw [size_eq_length_keys, size_eq_length_keys]
  refine (subperm_of_subset s'.ringBuffer.metadata.nodup fun id hid => ?_).length_le
  obtain ⟨address, hl⟩ := Option.isSome_iff_exists.mp ((mem_keys_iff _ _).mp hid)
  exact mem_keys_of_get? ((h.live id address).mp hl).1

/-- One attempt to allocate a chunk, and the object is stored in it. -/
theorem putResult_allocate (value : SerializedObject) (h : StorageInv s)
    (hfew : s.ringBuffer.metadata.size + 1 < idMax) (hkey : s.keyIndex.get? key = none) :
    (∃ e, (s.ringBuffer.allocateBuf value.bufferSize).1 = .error e ∧
      StorageInv { s with ringBuffer := (s.ringBuffer.allocateBuf value.bufferSize).2 } ∧
      Kept s { s with ringBuffer := (s.ringBuffer.allocateBuf value.bufferSize).2 } [] ∧
      ((∃ msg, e = .memoryError msg) ∨ 2147483648 ≤ value.bufferSize + mdSize)) ∨
    ∃ address id, (s.ringBuffer.allocateBuf value.bufferSize).1 = .ok (address, id) ∧
      StorageInv ({ s with ringBuffer := (s.ringBuffer.allocateBuf value.bufferSize).2
        }.storeObject key value address id) ∧
      Stored s ({ s with ringBuffer := (s.ringBuffer.allocateBuf value.bufferSize).2
        }.storeObject key value address id) key id address := by
  obtain ⟨chunks, hlive⟩ := h.live
  have hflag : (flagBytes : Int) ≤ value.bufferSize := by
    unfold SerializedObject.bufferSize
    omega
  have hfour : flagBytes = 4 := rfl
  obtain ⟨hview, ⟨e, herr, hlive'⟩ | ⟨d, hok, hlive', hsize, hfresh⟩⟩ :=
    allocateBuf_spec hlive hflag hfew
  · obtain ⟨hinv, hkept⟩ := Kept.of_ring h hlive hlive' hview
    exact .inl ⟨e, herr, hinv, hkept, allocateBuf_error hlive (by omega) herr⟩
  · obtain ⟨hinv, hstored⟩ := storeObject_spec h hlive hlive' hview hsize hfresh hkey
    exact .inr ⟨d.address, d.id, hok, hinv, hstored⟩

/-- `put` after a `MemoryError`. -/
theorem putResult_putAgain (value : SerializedObject) (h : StorageInv s)
    (hfew : s.ringBuffer.metadata.size + 1 < idMax) (hkey : s.keyIndex.get? key = none) :
    PutResult s key value (s.putAgain key value) := by
  obtain ⟨hok, hinv, freed, hkept⟩ := freeUnused_spec h
  obtain ⟨result, mid, hpair⟩ : ∃ result mid, s.freeUnused = (result, mid) := ⟨_, _, rfl⟩
  rw [hpair] at hok hinv hkept
  dsimp only at hok hinv hkept
  subst hok
  have hfew' : mid.ringBuffer.metadata.size + 1 < idMax := by
    have := size_le_of_kept hkept
    omega
  have hkey' : mid.keyIndex.get? key = none := by
    rw [Option.eq_none_iff_forall_not_mem]
    intro v hv
    have hv' := ((hkept.key key v).mp hv).1
    rw [hkey] at hv'
    cases hv'
  unfold putAgain
  rw [hpair]
  dsimp only
  obtain ⟨e, herr, hinv', hkept', hkind⟩ | ⟨address, id, halloc, hinv', hstored⟩ :=
    putResult_allocate value hinv hfew' hkey'
  · split
    · rename_i e' ring heq
      rw [heq] at herr hinv' hkept'
      cases herr
      exact ⟨hinv', .inl ⟨_, _, rfl, hkept.trans hkept', .inr hkind⟩⟩
    · rename_i heq
      rw [heq] at herr
      cases herr
  · split
    · rename_i heq
      rw [heq] at halloc
      cases halloc
    · rename_i address' id' ring heq
      rw [heq] at halloc hinv' hstored
      cases halloc
      exact ⟨hinv', .inr ⟨_, _, mid, freed, rfl, hinv, hkept, hstored⟩⟩

/-- `put` of a new key. -/
theorem putResult_put (value : SerializedObject) (h : StorageInv s)
    (hfew : s.ringBuffer.metadata.size + 1 < idMax) (hkey : s.keyIndex.get? key = none) :
    PutResult s key value (s.put key value) := by
  have hcontains : s.keyIndex.contains key = false := by
    rw [contains, hkey]
    rfl
  unfold put
  rw [if_neg (by rw [hcontains]; exact Bool.false_ne_true)]
  split
  · exact ⟨h, .inl ⟨_, [], rfl, Kept.refl s, .inl ⟨_, rfl⟩⟩⟩
  · obtain ⟨e, herr, hinv', hkept', hkind⟩ | ⟨address, id, halloc, hinv', hstored⟩ :=
      putResult_allocate value h hfew hkey
    · split
      · rename_i ring heq
        rw [heq] at hinv' hkept'
        have hfew' : ring.metadata.size + 1 < idMax := by
          have := size_le_of_kept hkept'
          exact Nat.lt_of_le_of_lt (Nat.succ_le_succ this) hfew
        obtain ⟨hinv'', ⟨e', freed, herr', hkept'', hkind'⟩ |
          ⟨address, id, mid, freed, hok, hmid, hkept'', hstored⟩⟩ :=
          putResult_putAgain value hinv' hfew' hkey
        · exact ⟨hinv'', .inl ⟨e', _, herr', hkept'.trans hkept'', hkind'⟩⟩
        · exact ⟨hinv'', .inr ⟨address, id, mid, _, hok, hmid, hkept'.trans hkept'', hstored⟩⟩
      · rename_i e' ring hne heq
        rw [heq] at herr hinv' hkept'
        cases herr
        exact ⟨hinv', .inl ⟨_, _, rfl, hkept', .inr hkind⟩⟩
      · rename_i heq
        rw [heq] at herr
        cases herr
    · split
      · rename_i heq
        rw [heq] at halloc
        cases halloc
      · rename_i heq
        rw [heq] at halloc
        cases halloc
      · rename_i address' id' ring heq
        rw [heq] at halloc hinv' hstored
        cases halloc
        exact ⟨hinv', .inr ⟨_, _, s, [], rfl, h, Kept.refl s, hstored⟩⟩

end Operations

end Vllm.Proofs.Distributed
