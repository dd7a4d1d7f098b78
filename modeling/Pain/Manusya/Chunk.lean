import Pain.Base.Future
import Pain.Lib.IntrusiveSet
import Pain.Manusya.Store

/-!
# Chunks

This file translates `pain::manusya::Chunk`. Each method takes the chunk and
the state of its store and returns both; a section that the chunk's mutex
protects is one function, cut where the source calls the store.

An append at the write frontier goes to the store at once and then drains the
queue of requests that were waiting for it. An append beyond the frontier is
put in the queue and waits on its promise, which the drain loop or the timer
sets. The promises are kept in `calls`, one entry for every call of `append`
made on the chunk, in the order in which the calls entered; the entry of a call
that did not wait records the status that it returned. A queued request names
its call by position.

Byte counts are natural numbers: `_size` counts bytes that a store holds, and
no store holds `2 ^ 64` of them. The offset and the size that a reader asks for
are `UInt64`, since `read` adds them before it compares.
-/

namespace Pain.Manusya

open Lib (IntrusiveSet)

/-- Whether a caller passed a pointer to write a result through, or `nullptr`. -/
inductive OutPointer where
  | null
  | valid
deriving DecidableEq, Repr

/-- `ChunkState`. -/
inductive ChunkState where
  | kInit
  | kOpen
  | kSealed
deriving DecidableEq, Repr

/-- An `AppendRequest` as the queue sees it. `call` is the position in `Chunk.calls` of the
call that waits for it; `operator<` compares offsets. -/
structure AppendRequest where
  call : ℕ
  offset : ℕ
  buf : Bytes
deriving DecidableEq, Repr

/-- The queue of a chunk, ordered by the offset. -/
abbrev AppendRequestQueue := IntrusiveSet AppendRequest AppendRequest.offset

/-- A call of `Chunk::append`: its arguments and its outcome. -/
structure AppendCall where
  offset : ℕ
  buf : Bytes
  promise : FutureState Status
deriving DecidableEq, Repr

/-- `pain::manusya::Chunk`, with the appends that it has been asked for and their promises. -/
@[ext]
structure Chunk (H : Type) where
  uuid : UUID
  size : ℕ
  state : ChunkState
  fh : H
  appendRequestQueue : AppendRequestQueue
  calls : List AppendCall
deriving DecidableEq

namespace Chunk

variable {σ H : Type}

/-- The status of an append whose offset does not fit the size of the chunk. -/
def invalidOffset (offset length size : ℕ) : Status :=
  Status.fail .EINVAL s!"invalid offset at {offset}@{length}, current size:{size}"

/-- Record a call that returns `status` without waiting. -/
def answer (offset : ℕ) (buf : Bytes) (status : Status) (chunk : Chunk H) : Chunk H :=
  { chunk with calls := chunk.calls ++ [⟨offset, buf, .result status⟩] }

/-- Link a new request into the queue and let its call wait. The request stays unlinked when
the queue already holds one at the same offset; its call waits all the same. -/
def enqueue (offset : ℕ) (buf : Bytes) (chunk : Chunk H) : Chunk H :=
  { chunk with
    appendRequestQueue := chunk.appendRequestQueue.insert ⟨chunk.calls.length, offset, buf⟩
    calls := chunk.calls ++ [⟨offset, buf, .future⟩] }

/-- `rq->unlink()`, which does nothing to a request that is not linked. -/
def unlink (call : ℕ) (chunk : Chunk H) : Chunk H :=
  { chunk with
    appendRequestQueue := chunk.appendRequestQueue.unlinkIf (fun rq => rq.call == call) }

/-- Write a new state into the promise of a call. -/
def setPromise (call : ℕ) (promise : FutureState Status) (chunk : Chunk H) : Chunk H :=
  { chunk with calls := chunk.calls.modify call (fun entry => { entry with promise := promise }) }

/-- `if (!rq->promise.is_ready()) rq->promise.set_value(status)`. -/
def settle (call : ℕ) (status : Status) (chunk : Chunk H) : Option (Chunk H) :=
  match chunk.calls[call]? with
  | none => none
  | some entry =>
      (entry.promise.setValueIfNotReady status).map (fun promise => chunk.setPromise call promise)

/-- What one turn of the drain loop does. -/
inductive DrainStep (σ H : Type) where
  | done
  | next (chunk : Chunk H) (state : σ)
  | aborted

/-- One turn of the loop at the end of `Chunk::append`. -/
def drainStep (store : Store σ H) (chunk : Chunk H) (state : σ) : DrainStep σ H :=
  match chunk.appendRequestQueue.begin? with
  | none => .done
  | some rq =>
      if rq.offset < chunk.size then
        match (chunk.unlink rq.call).settle rq.call
            (invalidOffset rq.offset rq.buf.length chunk.size) with
        | none => .aborted
        | some chunk => .next chunk state
      else if rq.offset = chunk.size then
        let (status, state) := store.append chunk.fh rq.offset rq.buf state
        let size := if status = Status.OK then chunk.size + rq.buf.length else chunk.size
        match (({ chunk with size := size }).unlink rq.call).settle rq.call status with
        | none => .aborted
        | some chunk => .next chunk state
      else .done

/-- The loop at the end of `Chunk::append`. Every turn unlinks a request, so as many turns as
the queue has members are enough. -/
def drain (store : Store σ H) : ℕ → Chunk H → σ → Option (Chunk H × σ)
  | 0, chunk, state => some (chunk, state)
  | turns + 1, chunk, state =>
      match drainStep store chunk state with
      | .done => some (chunk, state)
      | .next chunk state => drain store turns chunk state
      | .aborted => none

/-- How far a call of `append` gets before the drain loop: it is answered or waits, or its
bytes are in the file and the loop is next. -/
inductive AppendEntry (σ H : Type) where
  | returned (chunk : Chunk H) (state : σ)
  | draining (chunk : Chunk H) (state : σ)

/-- `Chunk::append` up to the drain loop. -/
def beginAppend (store : Store σ H) (buf : Bytes) (offset : ℕ) (chunk : Chunk H) (state : σ) :
    AppendEntry σ H :=
  if chunk.state = .kSealed then
    .returned (chunk.answer offset buf (Status.fail .EPERM "chunk is sealed")) state
  else if offset < chunk.size then
    .returned (chunk.answer offset buf (invalidOffset offset buf.length chunk.size)) state
  else if offset ≠ chunk.size then
    .returned (chunk.enqueue offset buf) state
  else
    let (status, state) := store.append chunk.fh offset buf state
    if status = Status.OK then
      .draining { chunk with size := chunk.size + buf.length } state
    else
      .returned (chunk.answer offset buf status) state

/-- `Chunk::append`, up to the point where a call that has to wait starts waiting. -/
def append (store : Store σ H) (buf : Bytes) (offset : ℕ) (chunk : Chunk H) (state : σ) :
    Option (Chunk H × σ) :=
  match beginAppend store buf offset chunk state with
  | .returned chunk state => some (chunk, state)
  | .draining chunk state =>
      (drain store chunk.appendRequestQueue.items.length chunk state).map
        (fun (chunk, state) => (chunk.answer offset buf Status.OK, state))

/-- The callback of the timer that `append` starts for a waiting call. -/
def timeout (call : ℕ) (chunk : Chunk H) : Option (Chunk H) :=
  match chunk.calls[call]? with
  | none => some chunk
  | some entry =>
      if entry.promise.available then some chunk
      else
        (entry.promise.setValue
            (invalidOffset entry.offset entry.buf.length chunk.size)).map
          (fun promise => (chunk.unlink call).setPromise call promise)

/-- `Chunk::query_and_seal`. -/
def queryAndSeal (store : Store σ H) (length : OutPointer) (chunk : Chunk H) (state : σ) :
    Except Failure ℕ × Chunk H × σ :=
  if length = .null then (.error ⟨.EINVAL, "length is nullptr"⟩, chunk, state)
  else
    match store.sealFile chunk.fh state with
    | (.error failure, state) => (.error failure, chunk, state)
    | (.ok _, state) =>
        match store.size chunk.fh state with
        | (.error failure, state) => (.error failure, chunk, state)
        | (.ok size, state) => (.ok size, { chunk with state := .kSealed }, state)

/-- The failure of a read beyond the size of the chunk. -/
def readOutOfRange (offset size : UInt64) (current : ℕ) : Failure :=
  ⟨.EINVAL, s!"read out of range, offset:{offset}, size:{size}, current size:{current}"⟩

/-- `Chunk::read`: the bytes that the buffer holds afterwards. The range check adds two 64-bit
numbers. -/
def read (store : Store σ H) (text : UUID.Text) (offset size : UInt64) (buf : Option Bytes)
    (chunk : Chunk H) (state : σ) : Except Failure Bytes × σ :=
  match buf with
  | none => (.error ⟨.EINVAL, "buf is nullptr"⟩, state)
  | some buf =>
      if chunk.size < (offset + size).toNat then
        (.error (readOutOfRange offset size chunk.size), state)
      else store.openAndRead (text.str chunk.uuid) offset.toNat size.toNat buf state

/-- A chunk whose file has just been opened. -/
def opened (uuid : UUID) (fh : H) (size : ℕ) : Chunk H where
  uuid := uuid
  size := size
  state := .kOpen
  fh := fh
  appendRequestQueue := ∅
  calls := []

/-- `Chunk::create(options, store, chunk)`, with the identifier that `UUID::generate` drew. -/
def create (store : Store σ H) (text : UUID.Text) (uuid : UUID) (state : σ) :
    Except Failure (Chunk H) × σ :=
  match store.openFile (text.str uuid) .createExclusive state with
  | (.error failure, state) => (.error failure, state)
  | (.ok fh, state) => (.ok (opened uuid fh 0), state)

/-- `Chunk::create(options, store, uuid, chunk)`. -/
def createFromUuid (store : Store σ H) (text : UUID.Text) (uuid : UUID) (state : σ) :
    Except Failure (Chunk H) × σ :=
  match store.openFile (text.str uuid) .createExclusive state with
  | (.error failure, state) => (.error failure, state)
  | (.ok fh, state) =>
      match store.size fh state with
      | (.error failure, state) => (.error failure, store.close fh state)
      | (.ok size, state) => (.ok (opened uuid fh size), state)

end Chunk

end Pain.Manusya
