import Pain.Lib.Pool
import Pain.Manusya.ListChunk
import Pain.Manusya.Sections

/-!
# The handlers of the chunk service

A method of `ManusyaServiceImpl` runs on a thread of its own for each request.
It finds its chunk in the bank, calls a method of the chunk through the pointer,
and fills in its response. Here a method is cut where other threads can come in
between: after the bank has answered, at the store calls inside a section, while
an append waits for its outcome, and between the accessors of the chunk, which
take no mutex.

A `Server` is the pool of the handlers of all requests that have arrived, which
share the chunk objects. A run is any order in which requests arrive, handlers
proceed and timers fire.
-/

namespace Pain.Manusya

/-- `AppendChunkRequest`, with the attachment it comes with. -/
structure AppendChunkRequest where
  chunkId : UUID
  offset : UInt64
  attachment : Bytes
deriving DecidableEq

/-- `ReadChunkRequest`. -/
structure ReadChunkRequest where
  chunkId : UUID
  offset : UInt64
  length : UInt32
deriving DecidableEq

/-- `CreateChunkResponse`. The header of a response is set only when there is an error. -/
structure CreateChunkResponse where
  header : Option Header := none
  chunkId : Option UUID := none
deriving DecidableEq

/-- `AppendChunkResponse`. -/
structure AppendChunkResponse where
  header : Option Header := none
  offset : ℕ := 0
deriving DecidableEq

/-- `ReadChunkResponse`, with its attachment. -/
structure ReadChunkResponse where
  header : Option Header := none
  attachment : Bytes := []
deriving DecidableEq

/-- `QueryAndSealChunkResponse`. -/
structure QueryAndSealChunkResponse where
  header : Option Header := none
  size : ℕ := 0
deriving DecidableEq

/-- `RemoveChunkResponse`. -/
structure RemoveChunkResponse where
  header : Option Header := none
deriving DecidableEq

/-- `QueryChunkResponse`. -/
structure QueryChunkResponse where
  header : Option Header := none
  size : ℕ := 0
  sealed : Bool := false
deriving DecidableEq

/-- A request of one of the methods of the service. -/
inductive ChunkRequest where
  | createChunk
  | appendChunk (request : AppendChunkRequest)
  | listChunk (request : ListChunkRequest)
  | readChunk (request : ReadChunkRequest)
  | queryAndSealChunk (chunkId : UUID)
  | removeChunk (chunkId : UUID)
  | queryChunk (chunkId : UUID)
deriving DecidableEq

/-- What a method answers: its response, or the error of `Controller::SetFailed`. -/
inductive ChunkReply where
  | createChunk (response : CreateChunkResponse)
  | appendChunk (response : AppendChunkResponse)
  | listChunk (response : ListChunkResponse)
  | readChunk (response : ReadChunkResponse)
  | queryAndSealChunk (response : QueryAndSealChunkResponse)
  | removeChunk (response : RemoveChunkResponse)
  | queryChunk (response : QueryChunkResponse)
  | failed (failure : Failure)
deriving DecidableEq

/-- How far a handler is: it has not asked the bank yet, it has the pointer, it holds the mutex of
the chunk, its append waits or has returned, it has read the size, or it has replied. -/
inductive Phase where
  | received
  | found (pointer : ℕ)
  | inside (pointer : ℕ)
  | awaiting (pointer call : ℕ)
  | returned (pointer : ℕ) (status : Status)
  | sized (pointer size : ℕ)
  | replied (reply : ChunkReply)
deriving DecidableEq

namespace ManusyaServiceImpl

variable {σ H : Type}

/-- `response->mutable_header()->set_status` and `set_message`. -/
def setHeader (failure : Failure) : Option Header :=
  some ⟨UInt32.ofNat failure.code.number, failure.message⟩

@[simp]
theorem setHeader_ne_none (failure : Failure) : setHeader failure ≠ none := by
  simp [setHeader]

/-- What every method reports of an identifier that is not in the bank. -/
def chunkNotFound : Failure := ⟨.ENOENT, "Chunk not found"⟩

/-- `Bank::get_chunk` in a method. -/
def getChunk (uuid : UUID) (missing : ChunkReply) (threads : Threads σ H) : Phase :=
  match threads.world.getChunk uuid with
  | .error _ => .replied missing
  | .ok pointer => .found pointer

/-- Where a handler is when a step of its section has been taken: it still holds the mutex, or it
has returned from the method. -/
def proceed (pointer : ℕ) (returned : Phase) (threads : Threads σ H) : Phase :=
  match threads.sections pointer with
  | .free => returned
  | .draining _ _ | .sizing | .reading _ _ _ _ => .inside pointer

/-- `CreateChunk`, with the identifier that `UUID::generate` draws. -/
def createChunk (store : Store σ H) (text : UUID.Text) (drawn : UUID) (threads : Threads σ H) :
    Phase → Option (Threads σ H × Phase)
  | .received =>
      let (result, world) := threads.world.createChunk store text .valid drawn
      match result with
      | .error failure =>
          some ({ threads with world := world },
            .replied (.createChunk { header := setHeader failure }))
      | .ok pointer =>
          some ({ threads with world := world },
            .replied (.createChunk { chunkId := (world.chunks[pointer]?).map Chunk.uuid }))
  | phase => some (threads, phase)

/-- `AppendChunk`. The new offset is read after `append` has returned. -/
def appendChunk (store : Store σ H) (request : AppendChunkRequest) (threads : Threads σ H) :
    Phase → Option (Threads σ H × Phase)
  | .received =>
      some (threads,
        getChunk request.chunkId (.appendChunk { header := setHeader chunkNotFound }) threads)
  | .found pointer =>
      match threads.available pointer with
      | none => some (threads, .found pointer)
      | some chunk =>
          let next :=
            threads.startAppend store pointer request.attachment request.offset.toNat chunk
          some (next, proceed pointer (.awaiting pointer chunk.calls.length) next)
  | .inside pointer =>
      match threads.world.chunks[pointer]? with
      | none => some (threads, .inside pointer)
      | some chunk =>
          (threads.resume store pointer chunk).map
            (fun next => (next, proceed pointer (.returned pointer Status.OK) next))
  | .awaiting pointer call =>
      match threads.world.chunks[pointer]?.bind (fun chunk => chunk.calls[call]?) with
      | some ⟨_, _, .result status⟩ => some (threads, .returned pointer status)
      | _ => some (threads, .awaiting pointer call)
  | .returned _ (.error failure) =>
      some (threads, .replied (.appendChunk { header := setHeader failure }))
  | .returned pointer (.ok _) =>
      match threads.world.chunks[pointer]? with
      | none => some (threads, .returned pointer Status.OK)
      | some chunk => some (threads, .replied (.appendChunk { offset := chunk.size }))
  | phase => some (threads, phase)

/-- Why `Chunk::read` returns before it reads, if it does. -/
def readFails (store : Store σ H) (text : UUID.Text) (offset size : UInt64) (chunk : Chunk H)
    (state : σ) : Option Failure :=
  if chunk.size < (offset + size).toNat then some (Chunk.readOutOfRange offset size chunk.size)
  else
    match (store.openFile (text.str chunk.uuid) .rdonly state).1 with
    | .error failure => some failure
    | .ok _ => none

/-- `ReadChunk`. -/
def readChunk (store : Store σ H) (text : UUID.Text) (request : ReadChunkRequest)
    (threads : Threads σ H) : Phase → Option (Threads σ H × Phase)
  | .received =>
      some (threads,
        getChunk request.chunkId (.readChunk { header := setHeader chunkNotFound }) threads)
  | .found pointer =>
      match threads.available pointer with
      | none => some (threads, .found pointer)
      | some chunk =>
          let size := request.length.toUInt64
          let next := threads.startRead store text pointer request.offset size (some []) chunk
          match readFails store text request.offset size chunk threads.world.store with
          | some failure => some (next, .replied (.failed failure))
          | none => some (next, .inside pointer)
  | .inside pointer =>
      match threads.world.chunks[pointer]?, threads.sections pointer with
      | some chunk, .reading fh offset size buf =>
          (threads.resume store pointer chunk).map (fun next =>
            match (store.read fh offset size buf threads.world.store).1 with
            | .error failure => (next, .replied (.failed failure))
            | .ok bytes => (next, .replied (.readChunk { attachment := bytes })))
      | _, _ => some (threads, .inside pointer)
  | phase => some (threads, phase)

/-- `QueryAndSealChunk`. -/
def queryAndSealChunk (store : Store σ H) (chunkId : UUID) (threads : Threads σ H) :
    Phase → Option (Threads σ H × Phase)
  | .received => some (threads, getChunk chunkId (.failed chunkNotFound) threads)
  | .found pointer =>
      match threads.available pointer with
      | none => some (threads, .found pointer)
      | some chunk =>
          let next := threads.startQueryAndSeal store pointer .valid chunk
          match (store.sealFile chunk.fh threads.world.store).1 with
          | .error failure =>
              some (next, .replied (.queryAndSealChunk { header := setHeader failure }))
          | .ok _ => some (next, .inside pointer)
  | .inside pointer =>
      match threads.world.chunks[pointer]? with
      | none => some (threads, .inside pointer)
      | some chunk =>
          (threads.resume store pointer chunk).map (fun next =>
            match (store.size chunk.fh threads.world.store).1 with
            | .error failure =>
                (next, .replied (.queryAndSealChunk { header := setHeader failure }))
            | .ok size => (next, .replied (.queryAndSealChunk { size := size })))
  | phase => some (threads, phase)

/-- `RemoveChunk`. -/
def removeChunk (store : Store σ H) (text : UUID.Text) (chunkId : UUID) (threads : Threads σ H) :
    Phase → Option (Threads σ H × Phase)
  | .received =>
      let (status, world) := threads.world.removeChunk store text chunkId
      match status with
      | .error failure =>
          some ({ threads with world := world },
            .replied (.removeChunk { header := setHeader failure }))
      | .ok _ => some ({ threads with world := world }, .replied (.removeChunk {}))
  | phase => some (threads, phase)

/-- `QueryChunk`. It reads the size first and the state after it. -/
def queryChunk (chunkId : UUID) (threads : Threads σ H) : Phase → Option (Threads σ H × Phase)
  | .received =>
      some (threads, getChunk chunkId (.queryChunk { header := setHeader chunkNotFound }) threads)
  | .found pointer =>
      match threads.world.chunks[pointer]? with
      | none => some (threads, .found pointer)
      | some chunk => some (threads, .sized pointer chunk.size)
  | .sized pointer size =>
      match threads.world.chunks[pointer]? with
      | none => some (threads, .sized pointer size)
      | some chunk =>
          some (threads, .replied (.queryChunk
            { size := size, sealed := chunk.state = .kSealed }))
  | phase => some (threads, phase)

/-- The next step of the handler of a request. -/
def handle (store : Store σ H) (text : UUID.Text) (drawn : UUID) (threads : Threads σ H)
    (phase : Phase) : ChunkRequest → Option (Threads σ H × Phase)
  | .createChunk => createChunk store text drawn threads phase
  | .appendChunk request => appendChunk store request threads phase
  | .listChunk request =>
      match phase with
      | .received => some (threads, .replied (.listChunk (listChunk text request threads.world {})))
      | phase => some (threads, phase)
  | .readChunk request => readChunk store text request threads phase
  | .queryAndSealChunk chunkId => queryAndSealChunk store chunkId threads phase
  | .removeChunk chunkId => removeChunk store text chunkId threads phase
  | .queryChunk chunkId => queryChunk chunkId threads phase

end ManusyaServiceImpl

/-- A request that has arrived, and how far its handler is. -/
structure Handler where
  request : ChunkRequest
  phase : Phase
deriving DecidableEq

/-- The chunk objects and the handlers, in the order in which their requests arrived. -/
abbrev Server (σ H : Type) := Lib.Pool (Threads σ H) Handler

namespace Server

variable {σ H : Type}

/-- A server that has just been started on a store. -/
def initial (state : σ) : Server σ H := ⟨.idle (.initial state), []⟩

/-- The steps of handlers, and of the timers of waiting appends, which need no handler. -/
def program (store : Store σ H) (text : UUID.Text) :
    Lib.PoolProgram (Threads σ H) Handler ChunkRequest UUID (ℕ × ℕ) where
  fresh := fun request => ⟨request, .received⟩
  handle := fun drawn threads handler =>
    (ManusyaServiceImpl.handle store text drawn threads handler.phase handler.request).map
      (fun (threads, phase) => (threads, ⟨handler.request, phase⟩))
  outside := fun (pointer, call) threads =>
    threads.step store text (.start (.timeout pointer call))

/-- A request arrives, a handler takes its next step, or a timer fires. A handler that creates a
chunk takes the identifier that is drawn with its step. -/
abbrev Event := Lib.PoolEvent ChunkRequest UUID (ℕ × ℕ)

/-- The server after a sequence of events. -/
abbrev run (store : Store σ H) (text : UUID.Text) (server : Server σ H) (events : List Event) :
    Option (Server σ H) :=
  Lib.exec (Lib.Pool.step (program store text)) server events

/-- The handler of a request has replied. -/
def Answered (server : Server σ H) (index : ℕ) (request : ChunkRequest) (reply : ChunkReply) :
    Prop :=
  server.members[index]? = some ⟨request, .replied reply⟩

instance (server : Server σ H) (index : ℕ) (request : ChunkRequest) (reply : ChunkReply) :
    Decidable (server.Answered index request reply) :=
  inferInstanceAs (Decidable (_ = _))

end Server

end Pain.Manusya
