import Vllm.Lib.PyDict
import Vllm.Lib.PyError
import Mathlib.Data.PNat.Basic

/-!
# `Vllm.Distributed.ShmRingBuffer`: the ring buffer in shared memory
(`vllm/distributed/device_communicators/shm_object_storage.py`)

`SingleWriterShmRingBuffer` gives out chunks of a shared memory in a ring. Addresses count on
past the end of the memory and are reduced by its size where it is accessed. Chunks are freed in
the order of their allocation.

A call that raises leaves the fields it has written so far, so a call returns the state beside
its result or exception.
-/

set_option autoImplicit false

namespace Vllm.Distributed

open Vllm.Lib

/-- `integer.to_bytes(4, "little", signed=True)`, for integers from `-2 ** 31` to `2 ** 31 - 1`. -/
def int2byte (integer : Int) : Except PyError (List UInt8) :=
  if integer.natAbs < 2147483648 ∨ integer = -2147483648 then
    let n := (integer % 4294967296).toNat
    .ok [UInt8.ofNat n, UInt8.ofNat (n / 256), UInt8.ofNat (n / 65536),
      UInt8.ofNat (n / 16777216)]
  else .error (.overflowError "int too big to convert")

/-- `int.from_bytes(byte_data, "little", signed=True)`, for four bytes. -/
def byte2int (byteData : List UInt8) : Int :=
  let n : Nat := byteData.foldr (fun byte rest => byte.toNat + 256 * rest) 0
  if n < 2147483648 then n else n - 4294967296

/-- `ID_MAX`, which is `2 ** 31`. -/
def idMax : Nat := 2147483648

/-- `MD_SIZE`: four bytes for the id and four for the size. -/
def mdSize : Int := 8

/-- `SingleWriterShmRingBuffer`. -/
structure SingleWriterShmRingBuffer where
  dataBufferSize : ℕ+
  isWriter : Bool
  monotonicIdEnd : Nat := 0
  monotonicIdStart : Nat := 0
  dataBufferStart : Int := 0
  dataBufferEnd : Int := 0
  /-- From the id of a chunk to its address. -/
  metadata : PyDict Nat Int := .empty
  /-- `shared_memory.buf`. -/
  buf : Int → UInt8 := fun _ => 0

namespace SingleWriterShmRingBuffer

/-- `self.data_buffer_size`, as an operand. -/
def bufferSize (rb : SingleWriterShmRingBuffer) : Int := (rb.dataBufferSize : Nat)

/-- `self.shared_memory.buf[start : start + n]`. -/
def read (rb : SingleWriterShmRingBuffer) (start : Int) (n : Nat) : List UInt8 :=
  (List.range n).map fun (i : Nat) => rb.buf (start + i)

/-- `self.shared_memory.buf[start : start + len(data)] = data`. -/
def write (rb : SingleWriterShmRingBuffer) (start : Int) (data : List UInt8) :
    SingleWriterShmRingBuffer :=
  { rb with buf := fun i =>
      if start ≤ i ∧ i < start + data.length then data.getD (i - start).toNat 0 else rb.buf i }

/-- Where a chunk of the given size starts: at the end of the data, or at the beginning of the
memory when it would not fit. -/
def bufferEndReset (rb : SingleWriterShmRingBuffer) (size : Int) : Int :=
  if rb.dataBufferEnd % rb.bufferSize + size > rb.bufferSize then
    (rb.dataBufferEnd / rb.bufferSize + 1) * rb.bufferSize
  else rb.dataBufferEnd

/-- The end of the data moves to the next chunk, whose first four bytes are the id. -/
def idWritten (rb : SingleWriterShmRingBuffer) (size : Int) (idBytes : List UInt8) :
    SingleWriterShmRingBuffer :=
  { rb with dataBufferEnd := rb.bufferEndReset size }.write
    (rb.bufferEndReset size % rb.bufferSize) idBytes

/-- The next four bytes are the size, and the chunk is recorded. -/
def chunkWritten (rb : SingleWriterShmRingBuffer) (size : Int) (idBytes sizeBytes : List UInt8) :
    SingleWriterShmRingBuffer :=
  { (rb.idWritten size idBytes).write (rb.bufferEndReset size % rb.bufferSize + 4) sizeBytes with
    metadata := rb.metadata.insert (rb.monotonicIdEnd % idMax) (rb.bufferEndReset size)
    dataBufferEnd := rb.bufferEndReset size + size
    monotonicIdEnd := (rb.monotonicIdEnd + 1) % idMax }

/-- `allocate_buf`, after the check for space. -/
def writeChunk (rb : SingleWriterShmRingBuffer) (size : Int) :
    Except PyError (Int × Nat) × SingleWriterShmRingBuffer :=
  match int2byte rb.monotonicIdEnd with
  | .error e => (.error e, { rb with dataBufferEnd := rb.bufferEndReset size })
  | .ok idBytes =>
    match int2byte size with
    | .error e => (.error e, rb.idWritten size idBytes)
    | .ok sizeBytes =>
      (.ok (rb.bufferEndReset size, rb.monotonicIdEnd),
        rb.chunkWritten size idBytes sizeBytes)

/-- `allocate_buf`. -/
def allocateBuf (rb : SingleWriterShmRingBuffer) (size : Int) :
    Except PyError (Int × Nat) × SingleWriterShmRingBuffer :=
  if rb.isWriter = false then
    (.error (.assertionError "Only the writer can allocate buffers."), rb)
  else if ¬ 0 < size then
    (.error (.assertionError "Size must be greater than 0"), rb)
  else if rb.bufferEndReset (size + mdSize) + (size + mdSize) - rb.dataBufferStart >
      rb.bufferSize then
    (.error (.memoryError
      "Not enough space in the data buffer, try calling free_buf() to free up space"), rb)
  else rb.writeChunk (size + mdSize)

/-- The id and the size in the header at an address. -/
def header (rb : SingleWriterShmRingBuffer) (address : Int) : Int × Int :=
  let bufIdx := address % rb.bufferSize
  (byte2int (rb.read bufIdx 4), byte2int (rb.read (bufIdx + 4) 4))

/-- `access_buf`: the place and the length of the view of the data, and the header. -/
def accessBuf (rb : SingleWriterShmRingBuffer) (address : Int) : (Int × Nat) × (Int × Int) :=
  let bufIdx := address % rb.bufferSize
  ((bufIdx + mdSize, ((rb.header address).2 - mdSize).toNat), rb.header address)

/-- The view of `access_buf`. -/
def dataView (rb : SingleWriterShmRingBuffer) (address : Int) : List UInt8 :=
  rb.read (rb.accessBuf address).1.1 (rb.accessBuf address).1.2

/-- The oldest chunk, at the address `address`, is freed. -/
def freeChunk (rb : SingleWriterShmRingBuffer) : SingleWriterShmRingBuffer :=
  let metadata := rb.metadata.erase rb.monotonicIdStart
  let monotonicIdStart := (rb.monotonicIdStart + 1) % idMax
  match metadata.get? monotonicIdStart with
  | some next => { rb with
      metadata, monotonicIdStart
      dataBufferStart := rb.dataBufferStart + (next - rb.dataBufferStart) % rb.bufferSize }
  | none => { rb with metadata, monotonicIdStart, dataBufferStart := 0, dataBufferEnd := 0 }

/-- The loop of `free_buf`, with `fuel` entries left in `metadata`. -/
def freeLoop (isFreeFn : Nat → List UInt8 → Bool) (nbytes : Int) :
    Nat → Int → SingleWriterShmRingBuffer → SingleWriterShmRingBuffer
  | 0, _, rb => rb
  | fuel + 1, freedBytes, rb =>
    match rb.metadata.get? rb.monotonicIdStart with
    | none => rb
    | some address =>
      if freedBytes < nbytes ∧
          isFreeFn rb.monotonicIdStart (rb.dataView address) = true then
        freeLoop isFreeFn nbytes fuel (freedBytes + (rb.header address).2) rb.freeChunk
      else rb

/-- The wraparound of the buffer at the end of `free_buf`. -/
def wrapAround (rb : SingleWriterShmRingBuffer) : SingleWriterShmRingBuffer :=
  if rb.dataBufferStart ≥ rb.bufferSize then
    { rb with
      dataBufferStart := rb.dataBufferStart - rb.bufferSize
      dataBufferEnd := rb.dataBufferEnd - rb.bufferSize }
  else rb

/-- The ids from `before` up to `after`, which may have wrapped around. -/
def idsBetween (before after : Nat) : List Nat :=
  if after ≥ before then List.range' before (after - before)
  else List.range' before (idMax - before) ++ List.range after

/-- `free_buf`. -/
def freeBuf (rb : SingleWriterShmRingBuffer) (isFreeFn : Nat → List UInt8 → Bool)
    (nbytes : Option Int) : Except PyError (List Nat) × SingleWriterShmRingBuffer :=
  if rb.isWriter = false then
    (.error (.assertionError "Only the writer can free buffers."), rb)
  else
    let freed := (freeLoop isFreeFn (nbytes.getD rb.bufferSize) rb.metadata.size 0
      rb).wrapAround
    (.ok (idsBetween rb.monotonicIdStart freed.monotonicIdStart), freed)

end SingleWriterShmRingBuffer

end Vllm.Distributed
