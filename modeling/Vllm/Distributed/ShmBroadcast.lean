import Vllm.Lib.PyError
import Mathlib.Logic.Function.Basic

/-!
# `Vllm.Distributed.ShmBroadcast`: the broadcast queue in shared memory
(`vllm/distributed/device_communicators/shm_broadcast.py`)

One writer hands messages to some readers. Readers of the same node share a ring of chunks with the
writer: a chunk has a flag that it is written, and a flag for each reader that has read it. A
message that does not fit in a chunk leaves a mark there and goes through a socket. Readers of other
nodes only have a socket.

* `chunkBytes`, `parseChunk`: how a message lies in a chunk, and how a reader takes it out.
* `WriterPc`, `ReaderPc`: where the writer is in `enqueue`, and a reader in `dequeue`.
* `QueueState.step`: one atomic access to the shared memory, or one step of a socket.

A message is the list of the buffers that `pickle` makes of an object, and a reader receives the
bytes that it reads in `dequeue`: what an object made of a large buffer sees of its chunk later on
is not modelled. The bytes of a chunk are written and read one by one. A socket is a queue for each reader; what was sent to it is on its way
until it is delivered. How long a wait takes is not modelled: where a deadline is checked the call
may raise, and go on as well. `RuntimeError("cancelled")` is raised in one of these places.
-/

set_option autoImplicit false

namespace Vllm.Distributed

open Vllm.Lib Function

/-- `all_buffers`: the main buffer and those that are out of band. -/
abbrev Message := List Bytes

/-- `to_bytes_big`. -/
def toBytesBig (value size : Nat) : Bytes :=
  (List.range size).reverse.map fun i => UInt8.ofNat (value / 256 ^ i)

/-- `from_bytes_big`. -/
def fromBytesBig (bytes : Bytes) : Nat := bytes.foldl (fun n b => 256 * n + b.toNat) 0

/-- `MessageQueue`: the numbers it is made with. -/
structure MessageQueue where
  nLocalReader : Nat
  nRemoteReader : Nat
  maxChunks : Nat
  maxChunkBytes : Nat
  pos : 0 < maxChunks

namespace MessageQueue

/-- `total_bytes` of `enqueue`. -/
def totalBytes (m : Message) : Nat := 6 + ((m.drop 1).map fun b => b.length + 4).sum

/-- `total_bytes + len(all_buffers[0]) >= self.buffer.max_chunk_bytes`. -/
def overflows (q : MessageQueue) (m : Message) : Bool :=
  decide (q.maxChunkBytes ≤ totalBytes m + (m.headD []).length)

/-- The number of the buffers and their lengths have the bytes that they need in a chunk. Else
`to_bytes` raises. -/
def Sendable (q : MessageQueue) (m : Message) : Prop :=
  m ≠ [] ∧ (q.overflows m = false → m.length < 65536 ∧ ∀ b ∈ m, b.length < 4294967296)

instance (q : MessageQueue) (m : Message) : Decidable (q.Sendable m) :=
  inferInstanceAs (Decidable (m ≠ [] ∧
    (q.overflows m = false → m.length < 65536 ∧ ∀ b ∈ m, b.length < 4294967296)))

/-- What `enqueue` writes to a chunk. -/
def chunkBytes (q : MessageQueue) (m : Message) : Bytes :=
  if q.overflows m then [1]
  else 0 :: (toBytesBig m.length 2 ++ m.flatMap fun b => toBytesBig b.length 4 ++ b)

/-- The buffers of a chunk, as far as they have been read: none when there are bytes missing. -/
def parseBuffers : Nat → Bytes → Option Message
  | 0, _ => some []
  | n + 1, bytes =>
    if bytes.length < 4 then none
    else
      let bufLen := fromBytesBig (bytes.take 4)
      if (bytes.drop 4).length < bufLen then none
      else (parseBuffers n ((bytes.drop 4).drop bufLen)).map fun buffers =>
        (bytes.drop 4).take bufLen :: buffers

/-- What a reader takes out of a chunk: the mark of an overflow, or the buffers. -/
def parseChunk : Bytes → Option (Option Message)
  | [] => none
  | b :: bytes =>
    if b = 1 then some none
    else if bytes.length < 2 then none
    else (parseBuffers (fromBytesBig (bytes.take 2)) (bytes.drop 2)).map some

/-- `buf[start : start + len(bytes)] = bytes`. A memoryview keeps its length. -/
def setSlice (buf : Bytes) (start : Nat) (bytes : Bytes) : Except PyError Bytes :=
  if (buf.drop start).length < bytes.length then
    .error (.valueError "memoryview assignment: lvalue and rvalue have different structures")
  else .ok (buf.take start ++ bytes ++ buf.drop (start + bytes.length))

/-- A buffer is written at the offset, preceded by its size. -/
def writeBuffer (chunk : Bytes × Nat) (buffer : Bytes) : Except PyError (Bytes × Nat) := do
  let buf ← setSlice chunk.1 chunk.2 (toBytesBig buffer.length 4)
  let buf ← setSlice buf (chunk.2 + 4) buffer
  return (buf, chunk.2 + 4 + buffer.length)

/-- What `enqueue` makes of the bytes of a chunk. -/
def writeChunk (q : MessageQueue) (m : Message) (buf : Bytes) : Except PyError Bytes :=
  if q.overflows m then setSlice buf 0 [1]
  else do
    let buf ← setSlice buf 0 [0]
    let buf ← setSlice buf 1 (toBytesBig m.length 2)
    let chunk ← m.foldlM writeBuffer (buf, 3)
    return chunk.1

end MessageQueue

/-! ### The state -/

/-- Where the writer is in `enqueue`. -/
inductive WriterPc where
  | idle
  /-- It sums the flags of the readers, and then looks at the flag that the chunk is written. -/
  | scan (m : Message) (i readCount : Nat)
  /-- The chunk is free, and is to be marked as not written. -/
  | acquired (m : Message)
  /-- The bytes of the message are written. -/
  | write (m : Message) (offset : Nat)
  /-- The flags of the readers are set to 0, and then the chunk is marked as written. -/
  | clear (m : Message) (i : Nat)
  | sendLocal (m : Message)
  | sendRemote (m : Message)
deriving DecidableEq

/-- Where a local reader is in `dequeue`. -/
inductive ReaderPc where
  | idle
  /-- It looks at its own flag. -/
  | start
  /-- It has its own flag, and looks at the flag that the chunk is written. -/
  | test (readFlag : Bool)
  /-- The bytes of the chunk that it has read. -/
  | reading (bytes : Bytes)
  /-- It waits for the socket. -/
  | recv
deriving DecidableEq

/-- The shared memory, the sockets, the writer and the readers. -/
structure QueueState where
  written : Nat → Bool := fun _ => false
  /-- By chunk and reader. -/
  readFlag : Nat → Nat → Bool := fun _ _ => false
  /-- By chunk and offset. -/
  data : Nat → Nat → UInt8 := fun _ _ => 0
  writer : WriterPc := .idle
  /-- `current_idx` of the writer. -/
  writerIdx : Nat := 0
  reader : Nat → ReaderPc := fun _ => .idle
  /-- `current_idx` of a reader. -/
  readerIdx : Nat → Nat := fun _ => 0
  /-- On the way to the socket of a local reader, and there. -/
  localFlight : Nat → List Message := fun _ => []
  localSocket : Nat → List Message := fun _ => []
  remoteFlight : Nat → List Message := fun _ => []
  remoteSocket : Nat → List Message := fun _ => []
  /-- History: the messages that were enqueued. -/
  log : List Message := []
  /-- History: the messages that `dequeue` returned to a local reader. -/
  received : Nat → List Message := fun _ => []
  remoteReceived : Nat → List Message := fun _ => []

/-- What can happen next. -/
inductive QueueOp where
  | enqueue (m : Message)
  /-- The next action of the writer. -/
  | writer
  /-- `acquire_write` raises `TimeoutError`. -/
  | writerTimeout
  | dequeue (r : Nat)
  /-- The next action of a local reader. -/
  | reader (r : Nat)
  /-- `dequeue` of a local reader raises `TimeoutError`. -/
  | readerTimeout (r : Nat)
  | deliver (r : Nat)
  | deliverRemote (r : Nat)
  /-- `dequeue` of a remote reader returns. One that raises changes nothing. -/
  | dequeueRemote (r : Nat)
deriving DecidableEq

namespace QueueState

/-- An action that cannot be taken. -/
def blocked : PyError := .runtimeError "blocked"

/-- The message is on its way to all local readers: `self.local_socket.send_multipart`. -/
def sendLocal (s : QueueState) (m : Message) : QueueState :=
  { s with localFlight := fun r => s.localFlight r ++ [m] }

/-- `self.remote_socket.send_multipart`. -/
def sendRemote (s : QueueState) (m : Message) : QueueState :=
  { s with remoteFlight := fun r => s.remoteFlight r ++ [m] }

/-- What the writer does after the message is in the chunk and, where it overflows, sent. -/
def afterLocal (q : MessageQueue) (m : Message) : WriterPc :=
  if 0 < q.nRemoteReader then .sendRemote m else .idle

/-- `enqueue` begins. -/
def enqueue (q : MessageQueue) (s : QueueState) (m : Message) : Except PyError QueueState :=
  match s.writer with
  | .idle =>
    if q.Sendable m then
      .ok { s with
        writer := if 0 < q.nLocalReader then .scan m 0 0 else .sendRemote m }
    else .error (.overflowError "int too big to convert")
  | _ => .error blocked

/-- The next action of the writer. -/
def writerStep (q : MessageQueue) (s : QueueState) : Except PyError QueueState :=
  match s.writer with
  | .idle => .error blocked
  | .scan m i readCount =>
    if i < q.nLocalReader then
      .ok { s with
        writer := .scan m (i + 1) (readCount + if s.readFlag s.writerIdx i then 1 else 0) }
    else if s.written s.writerIdx = true ∧ readCount ≠ q.nLocalReader then
      .ok { s with writer := .scan m 0 0 }
    else .ok { s with writer := .acquired m }
  | .acquired m =>
    .ok { s with
      written := update s.written s.writerIdx false
      writer := .write m 0 }
  | .write m offset =>
    match (q.chunkBytes m)[offset]? with
    | some b => .ok { s with
        data := update s.data s.writerIdx
          (update (s.data s.writerIdx) offset b)
        writer := .write m (offset + 1) }
    | none => .ok { s with writer := .clear m 0 }
  | .clear m i =>
    if i < q.nLocalReader then
      .ok { s with
        readFlag := update s.readFlag s.writerIdx
          (update (s.readFlag s.writerIdx) i false)
        writer := .clear m (i + 1) }
    else
      .ok { s with
        written := update s.written s.writerIdx true
        writerIdx := (s.writerIdx + 1) % q.maxChunks
        log := s.log ++ [m]
        writer := if q.overflows m then .sendLocal m else afterLocal q m }
  | .sendLocal m => .ok { s.sendLocal m with writer := afterLocal q m }
  | .sendRemote m =>
    .ok { s.sendRemote m with
      -- Without local readers the message is enqueued only here.
      log := if 0 < q.nLocalReader then s.log else s.log ++ [m]
      writer := .idle }

/-- `acquire_write` raises: the chunk is not free. -/
def writerTimeout (q : MessageQueue) (s : QueueState) : Except PyError QueueState :=
  match s.writer with
  | .scan _ i readCount =>
    if i = q.nLocalReader ∧ s.written s.writerIdx = true ∧ readCount ≠ q.nLocalReader then
      .ok { s with writer := .idle }
    else .error blocked
  | _ => .error blocked

/-- A reader goes on. -/
def setReader (s : QueueState) (r : Nat) (pc : ReaderPc) : QueueState :=
  { s with reader := update s.reader r pc }

/-- `dequeue` returns. -/
def receive (s : QueueState) (r : Nat) (m : Message) : QueueState :=
  { s with
    reader := update s.reader r .idle
    received := update s.received r (s.received r ++ [m]) }

/-- The reader sets its flag and goes on to the next chunk. -/
def markRead (q : MessageQueue) (s : QueueState) (r : Nat) : QueueState :=
  { s with
    readFlag := update s.readFlag (s.readerIdx r)
      (update (s.readFlag (s.readerIdx r)) r true)
    readerIdx := update s.readerIdx r ((s.readerIdx r + 1) % q.maxChunks) }

/-- The next action of a local reader. -/
def readerStep (q : MessageQueue) (s : QueueState) (r : Nat) : Except PyError QueueState :=
  match s.reader r with
  | .idle => .error blocked
  | .start => .ok (s.setReader r (.test (s.readFlag (s.readerIdx r) r)))
  | .test readFlag =>
    if s.written (s.readerIdx r) = false ∨ readFlag = true then .ok (s.setReader r .start)
    else .ok (s.setReader r (.reading []))
  | .reading bytes =>
    match MessageQueue.parseChunk bytes with
    | none => .ok (s.setReader r (.reading (bytes ++ [s.data (s.readerIdx r) bytes.length])))
    | some none => .ok ((s.markRead q r).setReader r .recv)
    | some (some m) => .ok ((s.markRead q r).receive r m)
  | .recv =>
    match s.localSocket r with
    | [] => .error blocked
    | m :: rest =>
      .ok ({ s with localSocket := update s.localSocket r rest }.receive r m)

/-- `dequeue` of a local reader raises: the chunk is not written or is read, or nothing is in the
socket. -/
def readerTimeout (s : QueueState) (r : Nat) : Except PyError QueueState :=
  match s.reader r with
  | .test readFlag =>
    if s.written (s.readerIdx r) = false ∨ readFlag = true then .ok (s.setReader r .idle)
    else .error blocked
  | .recv =>
    match s.localSocket r with
    | [] => .ok (s.setReader r .idle)
    | _ :: _ => .error blocked
  | _ => .error blocked

/-- One step. -/
def step (q : MessageQueue) (s : QueueState) : QueueOp → Except PyError QueueState
  | .enqueue m => s.enqueue q m
  | .writer => s.writerStep q
  | .writerTimeout => s.writerTimeout q
  | .dequeue r =>
    match s.reader r with
    | .idle => if r < q.nLocalReader then .ok (s.setReader r .start) else .error blocked
    | _ => .error blocked
  | .reader r => s.readerStep q r
  | .readerTimeout r => s.readerTimeout r
  | .deliver r =>
    match s.localFlight r with
    | [] => .error blocked
    | m :: rest => .ok { s with
        localFlight := update s.localFlight r rest
        localSocket := update s.localSocket r (s.localSocket r ++ [m]) }
  | .deliverRemote r =>
    match s.remoteFlight r with
    | [] => .error blocked
    | m :: rest => .ok { s with
        remoteFlight := update s.remoteFlight r rest
        remoteSocket := update s.remoteSocket r (s.remoteSocket r ++ [m]) }
  | .dequeueRemote r =>
    match s.remoteSocket r with
    | [] => .error blocked
    | m :: rest => .ok { s with
        remoteSocket := update s.remoteSocket r rest
        remoteReceived := update s.remoteReceived r (s.remoteReceived r ++ [m]) }

end QueueState

end Vllm.Distributed
