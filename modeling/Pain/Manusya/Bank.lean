import Pain.Lib.Run
import Pain.Manusya.Chunk

/-!
# The bank and the chunk server as a system

`Bank` maps identifiers to chunks. A `ChunkPtr` keeps its chunk alive after the
bank has dropped it, so the chunk objects are kept apart from the map, and a
`ChunkPtr` is the position of its object.

`World.step` is one section that a mutex protects: a method of the bank, or a
method of some chunk made through a `ChunkPtr`, or the callback of a timer. A
run is any sequence of such steps, so the runs are the interleavings of all
handlers. `none` is a failed assertion.
-/

namespace Pain.Manusya

/-- The store, the chunk objects, and the map `_chunks` of the bank. -/
structure World (σ H : Type) where
  store : σ
  chunks : List (Chunk H)
  bank : Map UUID ℕ

namespace World

variable {σ H : Type}

/-- A bank that has just been constructed on a store. -/
def initial (state : σ) : World σ H where
  store := state
  chunks := []
  bank := ∅

/-- A new chunk object, and the bank's entry for it. -/
def adopt (chunk : Chunk H) (state : σ) (world : World σ H) : World σ H where
  store := state
  chunks := world.chunks ++ [chunk]
  bank := world.bank.insert chunk.uuid world.chunks.length

/-- Replace a chunk object and the state of the store. -/
def put (pointer : ℕ) (chunk : Chunk H) (state : σ) (world : World σ H) : World σ H :=
  { world with store := state, chunks := world.chunks.set pointer chunk }

/-- `Bank::create_chunk`, with the identifier that `UUID::generate` drew. -/
def createChunk (store : Store σ H) (text : UUID.Text) (chunk : OutPointer) (uuid : UUID)
    (world : World σ H) : Except Failure ℕ × World σ H :=
  if chunk = .null then (.error ⟨.EINVAL, "chunk is nullptr"⟩, world)
  else
    match Chunk.create store text uuid world.store with
    | (.error failure, state) => (.error failure, { world with store := state })
    | (.ok chunk, state) => (.ok world.chunks.length, world.adopt chunk state)

/-- `Bank::get_chunk`. -/
def getChunk (uuid : UUID) (world : World σ H) : Except Failure ℕ :=
  match world.bank[uuid]? with
  | none => .error ⟨.ENOENT, "Chunk not found"⟩
  | some pointer => .ok pointer

/-- The keys of `_chunks`, in the order in which the map holds them. -/
def chunkIds (text : UUID.Text) (world : World σ H) : List UUID :=
  text.sort world.bank.keys

/-- `Bank::list_chunk`: the identifiers that the callback is called with. -/
def listChunk (text : UUID.Text) (start : UUID) (limit : UInt32) (world : World σ H) : List UUID :=
  ((world.chunkIds text).dropWhile fun uuid => (text.compare uuid start).isLT).take limit.toNat

/-- `Bank::remove_chunk`: the status of the store's `remove` is not looked at. -/
def removeChunk (store : Store σ H) (text : UUID.Text) (uuid : UUID) (world : World σ H) :
    Status × World σ H :=
  match world.bank[uuid]? with
  | none => (Status.fail .ENOENT "Chunk not found", world)
  | some _ =>
      (Status.OK, { world with
        store := (store.remove (text.str uuid) world.store).2
        bank := world.bank.erase uuid })

/-- The callback of `Bank::load` for one path. On a `MemStore` it runs inside `for_each`, which
holds the mutex that `size` takes; the open that precedes `size` does not take it. -/
def loadPath (store : Store σ H) (text : UUID.Text) (world : World σ H) (path : Bytes) :
    World σ H :=
  match Chunk.createFromUuid store text (text.fromStrOrDie path) world.store with
  | (.error _, state) => { world with store := state }
  | (.ok chunk, state) =>
      let (_, chunk, state) := chunk.queryAndSeal store .valid state
      world.adopt chunk state

/-- `Bank::load`. -/
def load (store : Store σ H) (text : UUID.Text) (world : World σ H) : World σ H :=
  (store.forEach world.store).foldl (loadPath store text) world

/-- The steps of the chunk server. -/
inductive Event where
  | createChunk (chunk : OutPointer) (uuid : UUID)
  | removeChunk (uuid : UUID)
  | append (pointer : ℕ) (buf : Bytes) (offset : ℕ)
  | timeout (pointer : ℕ) (call : ℕ)
  | read (pointer : ℕ) (offset size : UInt64) (buf : Option Bytes)
  | queryAndSeal (pointer : ℕ) (length : OutPointer)
deriving DecidableEq

/-- One step. A step through a pointer that no handler can hold does nothing. -/
def step (store : Store σ H) (text : UUID.Text) (world : World σ H) :
    Event → Option (World σ H)
  | .createChunk chunk uuid => some (world.createChunk store text chunk uuid).2
  | .removeChunk uuid => some (world.removeChunk store text uuid).2
  | .append pointer buf offset =>
      match world.chunks[pointer]? with
      | none => some world
      | some chunk =>
          (chunk.append store buf offset world.store).map
            (fun (chunk, state) => world.put pointer chunk state)
  | .timeout pointer call =>
      match world.chunks[pointer]? with
      | none => some world
      | some chunk =>
          (chunk.timeout call).map (fun chunk => world.put pointer chunk world.store)
  | .read pointer offset size buf =>
      match world.chunks[pointer]? with
      | none => some world
      | some chunk =>
          some { world with store := (chunk.read store text offset size buf world.store).2 }
  | .queryAndSeal pointer length =>
      match world.chunks[pointer]? with
      | none => some world
      | some chunk =>
          let (_, chunk, state) := chunk.queryAndSeal store length world.store
          some (world.put pointer chunk state)

/-- The world after a sequence of steps. -/
abbrev run (store : Store σ H) (text : UUID.Text) (world : World σ H) (events : List Event) :
    Option (World σ H) :=
  Lib.exec (step store text) world events

end World

end Pain.Manusya
