import Vllm.Distributed.ShmRingBuffer

/-!
# `Vllm.Distributed.ShmObjectStorage`: objects in the shared memory
(`vllm/distributed/device_communicators/shm_object_storage.py`)

`SingleWriterShmObjectStorage` stores serialized objects in the chunks of the ring buffer. The
writer counts in `writer_flag` how often it has given an object out, the readers count their
accesses together in the first four bytes of the object. A chunk is free when every reader has
made as many accesses as the writer has counted.

The readers have storages of their own over the same memory. Their `get` and `touch` use nothing
else of the storage than the memory and `n_readers`.
-/

set_option autoImplicit false

namespace Vllm.Distributed

open Vllm.Lib

/-- What `ser_de.serialize` returns: the bytes of the metadata and of the data. -/
structure SerializedObject where
  metadata : List UInt8
  data : List UInt8
deriving DecidableEq

/-- `flag_bytes`: the bytes for the count of the readers. -/
def flagBytes : Nat := 4

/-- `buffer_size` of `put`. -/
def SerializedObject.bufferSize (value : SerializedObject) : Nat :=
  flagBytes + value.data.length + value.metadata.length

/-- `SingleWriterShmObjectStorage`. -/
structure SingleWriterShmObjectStorage where
  maxObjectSize : Nat
  nReaders : Nat
  ringBuffer : SingleWriterShmRingBuffer
  /-- From a key to its address and id. -/
  keyIndex : PyDict String (Int × Nat) := .empty
  /-- From an id to its key. -/
  idIndex : PyDict Nat String := .empty
  writerFlag : PyDict Nat Nat := .empty

namespace SingleWriterShmObjectStorage

/-- `increment_writer_flag`. -/
def incrementWriterFlag (s : SingleWriterShmObjectStorage) (id : Nat) :
    SingleWriterShmObjectStorage :=
  { s with writerFlag := s.writerFlag.insert id ((s.writerFlag.get? id).getD 0 + 1) }

/-- The first four bytes of the view of an object. -/
def readerCount (s : SingleWriterShmObjectStorage) (address : Int) : Int :=
  byte2int ((s.ringBuffer.dataView address).take flagBytes)

/-- `increment_reader_flag`, on the view of the object at `address`. -/
def incrementReaderFlag (s : SingleWriterShmObjectStorage) (address : Int) :
    Except PyError SingleWriterShmObjectStorage := do
  let bytes ← int2byte (s.readerCount address + 1)
  return { s with
    ringBuffer := s.ringBuffer.write (s.ringBuffer.accessBuf address).1.1 bytes }

/-- `default_is_free_check`. -/
def defaultIsFreeCheck (s : SingleWriterShmObjectStorage) (id : Nat) (buf : List UInt8) :
    Except PyError Bool :=
  match s.writerFlag.get? id with
  | none => .error (.keyError "id")
  | some writerCount => .ok (byte2int (buf.take 4) ≥ (writerCount * s.nReaders : Nat))

/-- `default_is_free_check` as `free_buf` calls it. The ids of all chunks are in `writer_flag`, so
that the `KeyError` is not raised there (`StorageInv.flagged`). -/
def isFree (s : SingleWriterShmObjectStorage) (id : Nat) (buf : List UInt8) : Bool :=
  match s.defaultIsFreeCheck id buf with
  | .ok free => free
  | .error _ => false

/-- The loop of `free_unused` over the freed ids. -/
def dropFreed (s : SingleWriterShmObjectStorage) :
    List Nat → Except PyError Unit × SingleWriterShmObjectStorage
  | [] => (.ok (), s)
  | freedId :: rest =>
    match s.idIndex.get? freedId with
    | none => (.error (.keyError "freed_id"), s)
    | some keyToFree =>
      if s.keyIndex.contains keyToFree = false then
        (.error (.keyError "key_to_free"), s)
      else if s.writerFlag.contains freedId = false then
        (.error (.keyError "freed_id"), { s with
          keyIndex := s.keyIndex.erase keyToFree
          idIndex := s.idIndex.erase freedId })
      else dropFreed { s with
        keyIndex := s.keyIndex.erase keyToFree
        idIndex := s.idIndex.erase freedId
        writerFlag := s.writerFlag.erase freedId } rest

/-- `free_unused`. -/
def freeUnused (s : SingleWriterShmObjectStorage) :
    Except PyError Unit × SingleWriterShmObjectStorage :=
  match s.ringBuffer.freeBuf s.isFree (some (2 * s.maxObjectSize : Nat)) with
  | (.error e, ringBuffer) => (.error e, { s with ringBuffer })
  | (.ok freedIds, ringBuffer) => { s with ringBuffer }.dropFreed freedIds

/-- `is_cached`. -/
def isCached (s : SingleWriterShmObjectStorage) (key : String) : Bool := s.keyIndex.contains key

/-- `get_cached`. -/
def getCached (s : SingleWriterShmObjectStorage) (key : String) :
    Except PyError (Int × Nat) × SingleWriterShmObjectStorage :=
  match s.keyIndex.get? key with
  | none => (.error (.keyError "key"), s)
  | some (address, monotonicId) =>
    (.ok (address, monotonicId), s.incrementWriterFlag monotonicId)

/-- The end of `put`: the count and the object are written to the new chunk, one after the other,
and the key is recorded. -/
def storeObject (s : SingleWriterShmObjectStorage) (key : String) (value : SerializedObject)
    (address : Int) (monotonicId : Nat) : SingleWriterShmObjectStorage :=
  let written := { s with
    ringBuffer := s.ringBuffer.write (s.ringBuffer.accessBuf address).1.1
      ([0, 0, 0, 0] ++ value.metadata ++ value.data) }
  let flagged := written.incrementWriterFlag monotonicId
  { flagged with
    keyIndex := flagged.keyIndex.insert key (address, monotonicId)
    idIndex := flagged.idIndex.insert monotonicId key }

/-- `put`, after the first attempt to allocate a chunk has raised a `MemoryError`. -/
def putAgain (s : SingleWriterShmObjectStorage) (key : String) (value : SerializedObject) :
    Except PyError (Int × Nat) × SingleWriterShmObjectStorage :=
  match s.freeUnused with
  | (.error e, s) => (.error e, s)
  | (.ok (), s) =>
    match s.ringBuffer.allocateBuf value.bufferSize with
    | (.error e, ringBuffer) => (.error e, { s with ringBuffer })
    | (.ok (address, monotonicId), ringBuffer) =>
      (.ok (address, monotonicId),
        { s with ringBuffer }.storeObject key value address monotonicId)

/-- `put`. -/
def put (s : SingleWriterShmObjectStorage) (key : String) (value : SerializedObject) :
    Except PyError (Int × Nat) × SingleWriterShmObjectStorage :=
  if s.keyIndex.contains key then
    (.error (.valueError "Key already exists in the storage."), s)
  else if value.bufferSize > s.maxObjectSize then
    (.error (.valueError "Serialized object size exceeds max object size"), s)
  else
    match s.ringBuffer.allocateBuf value.bufferSize with
    | (.error (.memoryError _), ringBuffer) => { s with ringBuffer }.putAgain key value
    | (.error e, ringBuffer) => (.error e, { s with ringBuffer })
    | (.ok (address, monotonicId), ringBuffer) =>
      (.ok (address, monotonicId),
        { s with ringBuffer }.storeObject key value address monotonicId)

/-- `get` of a reader. It returns the bytes that are deserialized. -/
def get (s : SingleWriterShmObjectStorage) (address : Int) (monotonicId : Nat) :
    Except PyError (List UInt8 × SingleWriterShmObjectStorage) := do
  if (s.ringBuffer.header address).1 ≠ monotonicId then
    throw (.valueError "Data for address:id has been modified or is invalid.")
  let obj := (s.ringBuffer.dataView address).drop flagBytes
  let s ← s.incrementReaderFlag address
  return (obj, s)

/-- `touch` of the writer. -/
def touchWriter (s : SingleWriterShmObjectStorage) (key : String) :
    SingleWriterShmObjectStorage :=
  match s.keyIndex.get? key with
  | none => s
  | some (_, monotonicId) => s.incrementWriterFlag monotonicId

/-- `touch` of a reader. -/
def touchReader (s : SingleWriterShmObjectStorage) (address : Int) :
    Except PyError SingleWriterShmObjectStorage :=
  if s.readerCount address ≥ s.nReaders then s.incrementReaderFlag address else .ok s

end SingleWriterShmObjectStorage

end Vllm.Distributed
