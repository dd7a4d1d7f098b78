import Pain.Base.UuidText
import Pain.Lib.Simulation
import Pain.Manusya.Alike
import Pain.Manusya.SameFiles

/-!
# The two stores under the chunk server

The chunk server runs over a `MemStore` or over a `LocalStore`. This file shows
that a client cannot tell which. `Twins` relates a server on each of them: their
banks and their chunk objects are the same up to the file handles, and a ledger
says which bytes both stores hold for every chunk of the bank. Every operation
that the bank still has the chunk for is answered alike by twins and leaves
twins behind, so two servers that start empty give the same transcripts.

The stores differ in one text: an identifier that the bank has already makes the
creation of the file fail with `EEXIST` on both, with a message of its own on
each. Identifiers are drawn at random; where they are drawn apart, the transcripts
are equal.
-/

namespace Pain.Manusya

namespace World

variable {σ H : Type}

/-- The operations of the bank and of its chunks, and the callbacks of the timers. -/
inductive Operation where
  | event (event : Event)
  | getChunk (uuid : UUID)
  | listChunk (start : UUID) (limit : UInt32)
deriving DecidableEq

/-- What an operation returns. A call of `append` and a timer leave their status in the promise of
a call; `read` and `queried` have none where no handler can hold the pointer. -/
inductive Result where
  | created (result : Except Failure ℕ)
  | removed (status : Status)
  | promised
  | read (result : Option (Except Failure Bytes))
  | queried (result : Option (Except Failure ℕ))
  | found (result : Except Failure ℕ)
  | listed (uuids : List UUID)
deriving DecidableEq

/-- The world after an operation. -/
def operate (store : Store σ H) (text : UUID.Text) (world : World σ H) :
    Operation → Option (World σ H)
  | .event event => world.step store text event
  | .getChunk _ => some world
  | .listChunk _ _ => some world

/-- What an operation returns. -/
def result (store : Store σ H) (text : UUID.Text) (world : World σ H) : Operation → Result
  | .event (.createChunk chunk uuid) => .created (world.createChunk store text chunk uuid).1
  | .event (.removeChunk uuid) => .removed (world.removeChunk store text uuid).1
  | .event (.append _ _ _) => .promised
  | .event (.timeout _ _) => .promised
  | .event (.read pointer offset size buf) =>
      .read ((world.chunks[pointer]?).map
        (fun chunk => (chunk.read store text offset size buf world.store).1))
  | .event (.queryAndSeal pointer length) =>
      .queried ((world.chunks[pointer]?).map
        (fun chunk => (chunk.queryAndSeal store length world.store).1))
  | .getChunk uuid => .found (world.getChunk uuid)
  | .listChunk start limit => .listed (world.listChunk text start limit)

/-- The chunk objects without their handles: their sizes, states, queues and promises. -/
def bare (world : World σ H) : List (Chunk Unit) :=
  world.chunks.map (Chunk.rehandle ())

/-- What a client observes of an operation: what it returns, and the chunk objects behind it. -/
structure Answer where
  result : Result
  chunks : Option (List (Chunk Unit))
deriving DecidableEq

/-- What a client observes of an operation. -/
def answer (store : Store σ H) (text : UUID.Text) (world : World σ H) (operation : Operation) :
    Answer where
  result := world.result store text operation
  chunks := (world.operate store text operation).map bare

/-- The same answers, up to the message of a creation that fails with `EEXIST`. -/
def Answer.Agree (answer other : Answer) : Prop :=
  answer = other ∨ answer.chunks = other.chunks ∧
    ∃ message otherMessage, answer.result = .created (.error ⟨.EEXIST, message⟩) ∧
      other.result = .created (.error ⟨.EEXIST, otherMessage⟩)

/-- The chunk behind the pointer, if there is one, has not been removed from the bank. -/
def InBank (pointer : ℕ) (world : World σ H) : Prop :=
  ∀ chunk, world.chunks[pointer]? = some chunk → world.bank[chunk.uuid]? = some pointer

/-- The chunk of the operation has not been removed, and a read is into an empty buffer and of a
range whose end is a 64-bit number. -/
def Allowed (world : World σ H) : Operation → Prop
  | .event (.append pointer _ _) => world.InBank pointer
  | .event (.read pointer offset size buf) =>
      world.InBank pointer ∧ offset.toNat + size.toNat < 2 ^ 64 ∧ ∀ bytes ∈ buf, bytes = []
  | .event (.queryAndSeal pointer _) => world.InBank pointer
  | _ => True

/-- The identifier that an operation draws. -/
def Operation.drawn : Operation → Option UUID
  | .event (.createChunk .valid uuid) => some uuid
  | _ => none

/-- A chunk of the bank: its objects on both stores, and the file behind them. -/
structure Paired (text : UUID.Text) (ledger : Ledger) (mem : World MemStore Bytes)
    (disk : World Posix ℕ) (uuid : UUID) (pointer : ℕ) (chunk : Chunk Bytes)
    (record : FileRecord) : Prop where
  object : mem.chunks[pointer]? = some chunk
  twin : disk.chunks[pointer]? = some (chunk.rehandle record.fd)
  identifier : chunk.uuid = uuid
  handle : chunk.fh = text.str uuid
  entry : ledger (text.str uuid) = some record
  size : chunk.size = record.data.length

/-- Two servers that differ in their stores and the handles alone, with the same files. -/
structure Twins (text : UUID.Text) (ledger : Ledger) (mem : World MemStore Bytes)
    (disk : World Posix ℕ) : Prop where
  files : SameFiles ledger mem.store disk.store
  bank : disk.bank = mem.bank
  bare : disk.bare = mem.bare
  live : ∀ {uuid : UUID} {pointer : ℕ}, mem.bank[uuid]? = some pointer →
    ∃ chunk record, Paired text ledger mem disk uuid pointer chunk record
  absent : ∀ {uuid : UUID}, mem.bank[uuid]? = none → ledger (text.str uuid) = none

variable {text : UUID.Text} {ledger : Ledger} {mem : World MemStore Bytes} {disk : World Posix ℕ}

/-- Two servers on empty stores are twins. -/
theorem Twins.initial (text : UUID.Text) :
    Twins text (fun _ => none) (initial ∅) (initial Posix.empty) where
  files := .empty
  bank := rfl
  bare := rfl
  live := by
    intro uuid pointer found
    simp [World.initial] at found
  absent := fun _ => rfl

theorem bare_put (world : World σ H) (pointer : ℕ) (chunk : Chunk H) (state : σ) :
    (world.put pointer chunk state).bare = world.bare.set pointer (chunk.rehandle ()) := by
  simp [bare, put, List.map_set]

theorem bare_adopt (world : World σ H) (chunk : Chunk H) (state : σ) :
    (world.adopt chunk state).bare = world.bare ++ [chunk.rehandle ()] := by
  simp [bare, adopt]

theorem Twins.length (twins : Twins text ledger mem disk) :
    disk.chunks.length = mem.chunks.length := by
  have same := congrArg List.length twins.bare
  simpa [World.bare] using same

theorem Twins.twin (twins : Twins text ledger mem disk) (pointer : ℕ) :
    (mem.chunks[pointer]? = none ∧ disk.chunks[pointer]? = none) ∨
      ∃ chunk fd, mem.chunks[pointer]? = some chunk ∧
        disk.chunks[pointer]? = some (chunk.rehandle fd) := by
  have same : (disk.chunks[pointer]?).map (Chunk.rehandle ()) =
      (mem.chunks[pointer]?).map (Chunk.rehandle ()) := by
    have pointwise := congrArg (fun chunks => chunks[pointer]?) twins.bare
    simpa [World.bare] using pointwise
  cases object : mem.chunks[pointer]? with
  | none => exact .inl ⟨rfl, by simpa [object] using same⟩
  | some chunk =>
      simp only [object, Option.map_some, Option.map_eq_some_iff] at same
      rcases same with ⟨twin, present, equal⟩
      refine .inr ⟨chunk, twin.fh, rfl, ?_⟩
      simp only [Chunk.rehandle, Chunk.mk.injEq] at equal
      rcases equal with ⟨sameUuid, sameSize, sameState, -, sameQueue, sameCalls⟩
      simp [present, Chunk.ext_iff, Chunk.rehandle, sameUuid, sameSize, sameState, sameQueue,
        sameCalls]

/-- A live chunk is found again under the pointer of its own identifier. -/
theorem Twins.paired (twins : Twins text ledger mem disk) {pointer : ℕ} {chunk : Chunk Bytes}
    (object : mem.chunks[pointer]? = some chunk) (inBank : mem.InBank pointer) :
    ∃ record, Paired text ledger mem disk chunk.uuid pointer chunk record := by
  rcases twins.live (inBank chunk object) with ⟨found, record, paired⟩
  have same : found = chunk := by simpa [object] using paired.object.symm
  exact ⟨record, same ▸ paired⟩

theorem Paired.pointer_ne {uuid other : UUID} {pointer otherPointer : ℕ} {chunk found : Chunk Bytes}
    {record otherRecord : FileRecord}
    (paired : Paired text ledger mem disk uuid pointer chunk record)
    (otherPaired : Paired text ledger mem disk other otherPointer found otherRecord)
    (different : other ≠ uuid) : pointer ≠ otherPointer := by
  rintro rfl
  have same : found = chunk := by simpa [paired.object] using otherPaired.object.symm
  exact different (otherPaired.identifier.symm.trans (same ▸ paired.identifier))

/-- New contents for the file of a chunk of the bank, and a new state of its objects. -/
theorem Twins.putLive (twins : Twins text ledger mem disk) {uuid : UUID} {pointer : ℕ}
    {chunk : Chunk Bytes} {record : FileRecord} (present : mem.bank[uuid]? = some pointer)
    (paired : Paired text ledger mem disk uuid pointer chunk record) (after : Chunk Bytes)
    (identifier : after.uuid = uuid) (handle : after.fh = text.str uuid) {data : Bytes}
    (size : after.size = data.length) {files : MemStore} {posix : Posix}
    (same : SameFiles (Function.update ledger (text.str uuid) (some ⟨data, record.fd⟩))
      files posix) :
    Twins text (Function.update ledger (text.str uuid) (some ⟨data, record.fd⟩))
      (mem.put pointer after files) (disk.put pointer (after.rehandle record.fd) posix) where
  files := same
  bank := twins.bank
  bare := by
    simp only [bare_put, twins.bare]
    rfl
  live := by
    intro other otherPointer found
    by_cases isChunk : other = uuid
    · subst isChunk
      have samePointer : pointer = otherPointer := by
        have found' : mem.bank[other]? = some otherPointer := found
        simpa [present] using found'
      subst samePointer
      refine ⟨after, ⟨data, record.fd⟩, ?_, ?_, identifier, handle, ?_, size⟩
      · exact getElem?_put_self after files paired.object
      · exact getElem?_put_self (after.rehandle record.fd) posix paired.twin
      · simp
    · rcases twins.live found with ⟨object, otherRecord, otherPaired⟩
      have apart := paired.pointer_ne otherPaired isChunk
      refine ⟨object, otherRecord, ?_, ?_, otherPaired.identifier, otherPaired.handle, ?_,
        otherPaired.size⟩
      · simp [getElem?_put paired.object, apart, otherPaired.object]
      · simp [getElem?_put paired.twin, apart, otherPaired.twin]
      · simp [Function.update_of_ne, isChunk, otherPaired.entry]
  absent := by
    intro other missing
    have isOther : other ≠ uuid := by
      rintro rfl
      have missing' : mem.bank[other]? = none := missing
      simp [present] at missing'
    simpa [Function.update_of_ne, isOther] using twins.absent missing

/-- A new queue or new promises for any chunk object, also one that has been removed. -/
theorem Twins.putCalls (twins : Twins text ledger mem disk) {pointer : ℕ} {chunk : Chunk Bytes}
    {fd : ℕ} (object : mem.chunks[pointer]? = some chunk)
    (twin : disk.chunks[pointer]? = some (chunk.rehandle fd)) {after : Chunk Bytes}
    (identifier : after.uuid = chunk.uuid) (handle : after.fh = chunk.fh)
    (size : after.size = chunk.size) :
    Twins text ledger (mem.put pointer after mem.store)
      (disk.put pointer (after.rehandle fd) disk.store) where
  files := twins.files
  bank := twins.bank
  bare := by
    simp only [bare_put, twins.bare]
    rfl
  live := by
    intro other otherPointer found
    rcases twins.live found with ⟨otherChunk, record, paired⟩
    by_cases samePointer : pointer = otherPointer
    · subst samePointer
      have sameChunk : otherChunk = chunk := by simpa [object] using paired.object.symm
      subst sameChunk
      have sameDescriptor : fd = record.fd := by
        have equal : otherChunk.rehandle fd = otherChunk.rehandle record.fd := by
          simpa [twin] using paired.twin
        simpa [Chunk.rehandle] using equal
      refine ⟨after, record, ?_, ?_, identifier.trans paired.identifier,
        handle.trans paired.handle, paired.entry, size.trans paired.size⟩
      · exact getElem?_put_self after mem.store object
      · simpa [sameDescriptor] using getElem?_put_self (after.rehandle fd) disk.store twin
    · refine ⟨otherChunk, record, ?_, ?_, paired.identifier, paired.handle, paired.entry,
        paired.size⟩
      · simp [getElem?_put object, samePointer, paired.object]
      · simp [getElem?_put twin, samePointer, paired.twin]
  absent := twins.absent

theorem Twins.putStore (twins : Twins text ledger mem disk) {posix : Posix}
    (same : SameFiles ledger mem.store posix) :
    Twins text ledger mem { disk with store := posix } where
  files := same
  bank := twins.bank
  bare := twins.bare
  live := by
    intro uuid pointer found
    rcases twins.live found with ⟨chunk, record, paired⟩
    exact ⟨chunk, record, paired.object, paired.twin, paired.identifier, paired.handle,
      paired.entry, paired.size⟩
  absent := twins.absent

theorem Twins.adopt (twins : Twins text ledger mem disk) {uuid : UUID} {fd : ℕ}
    {files : MemStore} {posix : Posix}
    (same : SameFiles (Function.update ledger (text.str uuid) (some ⟨[], fd⟩)) files posix) :
    Twins text (Function.update ledger (text.str uuid) (some ⟨[], fd⟩))
      (mem.adopt (Chunk.opened uuid (text.str uuid) 0) files)
      (disk.adopt (Chunk.opened uuid fd 0) posix) where
  files := same
  bank := by simp [World.adopt, Chunk.opened, twins.bank, twins.length]
  bare := by
    simp only [bare_adopt, twins.bare]
    rfl
  live := by
    intro other pointer found
    simp only [World.adopt, Chunk.opened, Std.ExtTreeMap.getElem?_insert, Std.compare_eq_iff_eq]
      at found
    split at found
    · rename_i isChunk
      subst isChunk
      simp only [Option.some.injEq] at found
      subst found
      refine ⟨Chunk.opened uuid (text.str uuid) 0, ⟨[], fd⟩, ?_, ?_, rfl, rfl, ?_, rfl⟩
      · simp [World.adopt]
      · simp only [World.adopt, ← twins.length, List.getElem?_concat_length]
        rfl
      · simp
    · rename_i isOther
      rcases twins.live found with ⟨chunk, record, paired⟩
      refine ⟨chunk, record, ?_, ?_, paired.identifier, paired.handle, ?_, paired.size⟩
      · exact getElem?_adopt.mpr (.inl paired.object)
      · exact getElem?_adopt.mpr (.inl paired.twin)
      · simp [Function.update_of_ne, Ne.symm isOther, paired.entry]
  absent := by
    intro other missing
    simp only [World.adopt, Chunk.opened, Std.ExtTreeMap.getElem?_insert, Std.compare_eq_iff_eq]
      at missing
    split at missing
    · simp at missing
    · rename_i isOther
      simpa [Function.update_of_ne, Ne.symm isOther] using twins.absent missing

theorem Twins.removeChunk (twins : Twins text ledger mem disk) {uuid : UUID} {pointer : ℕ}
    (present : mem.bank[uuid]? = some pointer) :
    Twins text (Function.update ledger (text.str uuid) none)
      { mem with
        store := (MemStore.store.remove (text.str uuid) mem.store).2
        bank := mem.bank.erase uuid }
      { disk with
        store := (LocalStore.store.remove (text.str uuid) disk.store).2
        bank := disk.bank.erase uuid } where
  files := by
    rcases twins.live present with ⟨chunk, record, paired⟩
    exact twins.files.remove paired.entry
  bank := by simp [twins.bank]
  bare := twins.bare
  live := by
    intro other otherPointer found
    simp only [Std.ExtTreeMap.getElem?_erase, Std.compare_eq_iff_eq,
      Option.ite_none_left_eq_some] at found
    rcases twins.live found.2 with ⟨chunk, record, paired⟩
    refine ⟨chunk, record, paired.object, paired.twin, paired.identifier, paired.handle, ?_,
      paired.size⟩
    simp [Function.update_of_ne, Ne.symm found.1, paired.entry]
  absent := by
    intro other missing
    by_cases isChunk : other = uuid
    · simp [isChunk]
    · simp only [Std.ExtTreeMap.getElem?_erase, Std.compare_eq_iff_eq, Ne.symm isChunk,
        if_false] at missing
      simpa [Function.update_of_ne, isChunk] using twins.absent missing

/-- The operation draws an identifier that the bank has. -/
def Collides (world : World σ H) (operation : Operation) : Prop :=
  ∃ uuid, operation.drawn = some uuid ∧ uuid ∈ world.bank

/-- The operation does not abort on either store and leaves twins behind. It returns the same on
both, or it draws an identifier that the bank has. -/
def StepsAlike (text : UUID.Text) (mem : World MemStore Bytes) (disk : World Posix ℕ)
    (operation : Operation) : Prop :=
  ∃ ledger next diskNext, mem.operate MemStore.store text operation = some next ∧
    disk.operate LocalStore.store text operation = some diskNext ∧
    Twins text ledger next diskNext ∧
    (mem.result MemStore.store text operation = disk.result LocalStore.store text operation ∨
      mem.Collides operation ∧ ∃ message otherMessage,
        mem.result MemStore.store text operation = .created (.error ⟨.EEXIST, message⟩) ∧
          disk.result LocalStore.store text operation =
            .created (.error ⟨.EEXIST, otherMessage⟩))

/-- `create_chunk` does the same on both stores. -/
theorem Twins.createChunk_alike (twins : Twins text ledger mem disk) (chunk : OutPointer)
    (uuid : UUID) : StepsAlike text mem disk (.event (.createChunk chunk uuid)) := by
  cases chunk with
  | null => exact ⟨ledger, mem, disk, rfl, rfl, twins, .inl rfl⟩
  | valid =>
      cases present : mem.bank[uuid]? with
      | none =>
          rcases twins.files.create (twins.absent present) with
            ⟨fd, files, posix, created, diskCreated, same⟩
          refine ⟨_, _, _, ?_, ?_, twins.adopt same, .inl ?_⟩
          · simp [operate, step, createChunk, Chunk.create, created]
          · simp [operate, step, createChunk, Chunk.create, diskCreated]
          · simp [result, createChunk, Chunk.create, created, diskCreated, twins.length]
      | some pointer =>
          rcases twins.live present with ⟨object, record, paired⟩
          rcases twins.files.create_exists paired.entry with ⟨failed, diskFailed⟩
          refine ⟨ledger, mem, disk, ?_, ?_, twins, .inr ⟨⟨uuid, rfl, ?_⟩,
            "file already exists", "failed to open file", ?_, ?_⟩⟩
          · simp [operate, step, createChunk, Chunk.create, failed]
          · simp [operate, step, createChunk, Chunk.create, diskFailed]
          · simp [← Std.ExtTreeMap.isSome_getElem?_iff_mem, present]
          · simp only [result, createChunk, Chunk.create, failed]
            rfl
          · simp only [result, createChunk, Chunk.create, diskFailed]
            rfl

/-- `remove_chunk` does the same on both stores. -/
theorem Twins.removeChunk_alike (twins : Twins text ledger mem disk) (uuid : UUID) :
    StepsAlike text mem disk (.event (.removeChunk uuid)) := by
  cases present : mem.bank[uuid]? with
  | none =>
      refine ⟨ledger, mem, disk, ?_, ?_, twins, .inl ?_⟩
      · simp [operate, step, World.removeChunk, present]
      · simp [operate, step, World.removeChunk, twins.bank, present]
      · simp [result, World.removeChunk, twins.bank, present]
  | some pointer =>
      refine ⟨_, _, _, ?_, ?_, twins.removeChunk present, .inl ?_⟩
      · simp [operate, step, World.removeChunk, present]
      · simp [operate, step, World.removeChunk, twins.bank, present]
      · simp [result, World.removeChunk, twins.bank, present]

/-- The pairing of the handles of a chunk of the bank. -/
def pairing (ledger : Ledger) (path : Bytes) (fd : ℕ) :
    Chunk.Pairing MemStore.store LocalStore.store where
  fh := path
  twin := fd
  related := fun data files posix =>
    SameFiles (Function.update ledger path (some ⟨data, fd⟩)) files posix
  append := by
    intro data files posix offset buf same
    rcases same.append (Function.update_self path _ ledger) offset buf with
      ⟨next, otherNext, appended, otherAppended, later⟩
    simp only [Function.update_idem] at later
    exact ⟨next, otherNext, appended, otherAppended, later⟩

/-- `append` does the same on both stores. -/
theorem Twins.append_alike (twins : Twins text ledger mem disk) (waiting : mem.Waiting)
    {pointer : ℕ} (inBank : mem.InBank pointer) (buf : Bytes) (offset : ℕ) :
    StepsAlike text mem disk (.event (.append pointer buf offset)) := by
  rcases twins.twin pointer with ⟨missing, diskMissing⟩ | ⟨chunk, fd, object, -⟩
  · refine ⟨ledger, mem, disk, ?_, ?_, twins, .inl rfl⟩
    · simp [operate, step, missing]
    · simp [operate, step, diskMissing]
  · rcases twins.paired object inBank with ⟨record, paired⟩
    have inStep : Chunk.InStep (pairing ledger (text.str chunk.uuid) record.fd) chunk.uuid chunk
        mem.store disk.store := by
      refine ⟨paired.handle, rfl, record.data, paired.size, ?_⟩
      simpa only [pairing, update_of_entry paired.entry] using twins.files
    rcases chunk.append_spec MemStore.store buf offset mem.store (waiting _ _ object) with
      ⟨⟨ended, state⟩, ran, -⟩
    rcases Chunk.append_alike _ buf offset inStep with
      ⟨aborted, -⟩ | ⟨after, next, diskNext, appended, diskAppended, later⟩
    · simp [ran] at aborted
    · rcases later with ⟨handle, identifier, data, size, same⟩
      refine ⟨_, _, _, ?_, ?_,
        twins.putLive (inBank chunk object) paired after identifier handle size same, .inl rfl⟩
      · simp [operate, step, object, appended]
      · simp only [operate, step, paired.twin]
        simp only [pairing] at diskAppended
        simp [diskAppended]

/-- A timer does the same on both stores. -/
theorem Twins.timeout_alike (twins : Twins text ledger mem disk) (pointer call : ℕ) :
    StepsAlike text mem disk (.event (.timeout pointer call)) := by
  rcases twins.twin pointer with ⟨missing, diskMissing⟩ | ⟨chunk, fd, object, twin⟩
  · refine ⟨ledger, mem, disk, ?_, ?_, twins, .inl rfl⟩
    · simp [operate, step, missing]
    · simp [operate, step, diskMissing]
  · have fires : ∃ after, chunk.timeout call = some after ∧ after.uuid = chunk.uuid ∧
        after.fh = chunk.fh ∧ after.size = chunk.size := by
      rcases chunk.timeout_spec call with settled | ⟨offset, buf, -, fired⟩
      · exact ⟨chunk, settled, rfl, rfl, rfl⟩
      · exact ⟨_, fired, rfl, rfl, rfl⟩
    rcases fires with ⟨after, fired, identifier, handle, size⟩
    refine ⟨ledger, _, _, ?_, ?_, twins.putCalls object twin identifier handle size, .inl rfl⟩
    · simp [operate, step, object, fired]
    · simp [operate, step, twin, Chunk.timeout_rehandle, fired]

/-- `read` does the same on both stores. -/
theorem Twins.read_alike (twins : Twins text ledger mem disk) {pointer : ℕ}
    (inBank : mem.InBank pointer) {offset size : UInt64}
    (fits : offset.toNat + size.toNat < 2 ^ 64) {buf : Option Bytes}
    (isEmpty : ∀ bytes ∈ buf, bytes = []) :
    StepsAlike text mem disk (.event (.read pointer offset size buf)) := by
  rcases twins.twin pointer with ⟨missing, diskMissing⟩ | ⟨chunk, fd, object, twin⟩
  · refine ⟨ledger, mem, disk, ?_, ?_, twins, .inl ?_⟩
    · simp [operate, step, missing]
    · simp [operate, step, diskMissing]
    · simp [result, missing, diskMissing]
  · cases buf with
    | none =>
        refine ⟨ledger, mem, disk, ?_, ?_, twins, .inl ?_⟩
        · simp [operate, step, object, Chunk.read]
        · simp [operate, step, twin, Chunk.read]
        · simp [result, object, twin, Chunk.read]
    | some bytes =>
        have noBytes := isEmpty bytes rfl
        subst noBytes
        by_cases beyond : chunk.size < (offset + size).toNat
        · refine ⟨ledger, mem, disk, ?_, ?_, twins, .inl ?_⟩
          · simp [-UInt64.toNat_add, operate, step, object, Chunk.read, beyond]
          · simp [-UInt64.toNat_add, operate, step, twin, Chunk.read, Chunk.rehandle, beyond]
          · simp [-UInt64.toNat_add, result, object, twin, Chunk.read, Chunk.rehandle, beyond]
        · rcases twins.paired object inBank with ⟨record, paired⟩
          have inside : offset.toNat + size.toNat ≤ record.data.length := by
            have sum : (offset + size).toNat = offset.toNat + size.toNat := by
              simp only [UInt64.toNat_add]
              exact Nat.mod_eq_of_lt fits
            have sized := paired.size
            omega
          rcases twins.files.openAndRead paired.entry inside with
            ⟨bytes, posix, read, diskRead, same⟩
          refine ⟨ledger, mem, _, ?_, ?_, twins.putStore same, .inl ?_⟩
          · simp [-UInt64.toNat_add, operate, step, object, Chunk.read, beyond, read]
          · simp [-UInt64.toNat_add, operate, step, twin, Chunk.read, Chunk.rehandle, beyond,
              diskRead]
          · simp [-UInt64.toNat_add, result, object, twin, Chunk.read, Chunk.rehandle, beyond, read,
              diskRead]

/-- `query_and_seal` does the same on both stores. -/
theorem Twins.queryAndSeal_alike (twins : Twins text ledger mem disk) {pointer : ℕ}
    (inBank : mem.InBank pointer) (length : OutPointer) :
    StepsAlike text mem disk (.event (.queryAndSeal pointer length)) := by
  rcases twins.twin pointer with ⟨missing, diskMissing⟩ | ⟨chunk, fd, object, twin⟩
  · refine ⟨ledger, mem, disk, ?_, ?_, twins, .inl ?_⟩
    · simp [operate, step, missing]
    · simp [operate, step, diskMissing]
    · simp [result, missing, diskMissing]
  · cases length with
    | null =>
        refine ⟨ledger, mem, disk, ?_, ?_, twins, .inl ?_⟩
        · simp [operate, step, object, Chunk.queryAndSeal, put_self object]
        · simp [operate, step, twin, Chunk.queryAndSeal, put_self twin]
        · simp [result, object, twin, Chunk.queryAndSeal]
    | valid =>
        rcases twins.paired object inBank with ⟨record, paired⟩
        rcases twins.files.sealFile paired.entry with
          ⟨posix, finished, sized, diskFinished, diskSized, same⟩
        have unchanged : SameFiles (Function.update ledger (text.str chunk.uuid)
            (some ⟨record.data, record.fd⟩)) mem.store posix := by
          simpa only [update_of_entry paired.entry] using same
        refine ⟨_, _, _, ?_, ?_, twins.putLive (inBank chunk object) paired
          { chunk with state := .kSealed } rfl paired.handle paired.size unchanged, .inl ?_⟩
        · simp [operate, step, object, Chunk.queryAndSeal, paired.handle, finished, sized]
        · simp [operate, step, paired.twin, Chunk.queryAndSeal, Chunk.rehandle, diskFinished,
            diskSized]
        · simp [result, object, paired.twin, Chunk.queryAndSeal, Chunk.rehandle, paired.handle,
            finished, sized, diskFinished, diskSized]

/-- One operation on both stores. -/
theorem Twins.alike (twins : Twins text ledger mem disk) (waiting : mem.Waiting)
    {operation : Operation} (allowed : mem.Allowed operation) :
    StepsAlike text mem disk operation := by
  cases operation with
  | getChunk uuid =>
      refine ⟨ledger, mem, disk, rfl, rfl, twins, .inl ?_⟩
      simp [result, getChunk, twins.bank]
  | listChunk start limit =>
      refine ⟨ledger, mem, disk, rfl, rfl, twins, .inl ?_⟩
      simp [result, listChunk, chunkIds, twins.bank]
  | event event =>
      cases event with
      | createChunk chunk uuid => exact twins.createChunk_alike chunk uuid
      | removeChunk uuid => exact twins.removeChunk_alike uuid
      | append pointer buf offset => exact twins.append_alike waiting allowed buf offset
      | timeout pointer call => exact twins.timeout_alike pointer call
      | read pointer offset size buf => exact twins.read_alike allowed.1 allowed.2.1 allowed.2.2
      | queryAndSeal pointer length => exact twins.queryAndSeal_alike allowed length

theorem StepsAlike.chunks_eq {operation : Operation} (alike : StepsAlike text mem disk operation) :
    (mem.answer MemStore.store text operation).chunks =
      (disk.answer LocalStore.store text operation).chunks := by
  rcases alike with ⟨ledger, next, diskNext, operated, diskOperated, twins, -⟩
  simp [answer, operated, diskOperated, twins.bare]

/-- Steps that do the same are answered alike. -/
theorem StepsAlike.answers {operation : Operation} (alike : StepsAlike text mem disk operation) :
    mem.answer MemStore.store text operation = disk.answer LocalStore.store text operation ∨
      mem.Collides operation ∧ (mem.answer MemStore.store text operation).Agree
        (disk.answer LocalStore.store text operation) := by
  have chunks := alike.chunks_eq
  rcases alike with ⟨-, -, -, -, -, -, same | ⟨collides, failures⟩⟩
  · left
    simp only [answer, Answer.mk.injEq] at chunks ⊢
    exact ⟨same, chunks⟩
  · exact .inr ⟨collides, .inr ⟨chunks, failures⟩⟩

theorem waiting_of_operate {store : Store σ H} {world next : World σ H} {operation : Operation}
    (waiting : world.Waiting) (operated : world.operate store text operation = some next) :
    next.Waiting := by
  cases operation with
  | event event =>
      have spec : Stepped store text world event next := stepped_of_step waiting operated
      exact spec.waiting waiting
  | getChunk uuid => exact Option.some.inj operated ▸ waiting
  | listChunk start limit => exact Option.some.inj operated ▸ waiting

/-- An operation puts no identifier into the bank but the one that it draws. -/
theorem mem_bank_of_operate {store : Store σ H} {world next : World σ H} {operation : Operation}
    (waiting : world.Waiting) (operated : world.operate store text operation = some next)
    {uuid : UUID} (present : uuid ∈ next.bank) :
    uuid ∈ world.bank ∨ operation.drawn = some uuid := by
  cases operation with
  | getChunk _ => exact .inl (Option.some.inj operated ▸ present)
  | listChunk _ _ => exact .inl (Option.some.inj operated ▸ present)
  | event event =>
      have spec : Stepped store text world event next := stepped_of_step waiting operated
      cases spec with
      | idle => exact .inl present
      | notCreated => exact .inl present
      | created opens =>
          rename_i chunk drawn fh state
          cases chunk with
          | null =>
              have unchanged : world = world.adopt (Chunk.opened drawn fh 0) state :=
                Option.some.inj operated
              exact .inl (by simpa only [← unchanged] using present)
          | valid =>
              simp only [adopt, Chunk.opened, Std.ExtTreeMap.mem_insert, Std.compare_eq_iff_eq]
                at present
              rcases present with isDrawn | old
              · exact .inr (congrArg some isDrawn)
              · exact .inl old
      | removed found =>
          simp only [Std.ExtTreeMap.mem_erase] at present
          exact .inl present.2
      | appended => exact .inl present
      | timedOut => exact .inl present
      | read => exact .inl present
      | queriedAndSealed => exact .inl present

/-- A chunk stays in the bank, under its pointer, until it is removed. -/
theorem Twins.inBank_of_operate {next : World MemStore Bytes} {operation : Operation}
    (twins : Twins text ledger mem disk) (waiting : mem.Waiting) {pointer : ℕ}
    {chunk : Chunk Bytes} (object : mem.chunks[pointer]? = some chunk)
    (inBank : mem.InBank pointer) (allowed : mem.Allowed operation)
    (operated : mem.operate MemStore.store text operation = some next)
    (kept : operation ≠ .event (.removeChunk chunk.uuid)) :
    next.bank[chunk.uuid]? = some pointer ∧ next.InBank pointer := by
  have present := inBank chunk object
  have stays : next.bank[chunk.uuid]? = some pointer := by
    cases operation with
    | getChunk _ => exact Option.some.inj operated ▸ present
    | listChunk _ _ => exact Option.some.inj operated ▸ present
    | event event =>
        have spec : Stepped MemStore.store text mem event next := stepped_of_step waiting operated
        cases spec with
        | idle => exact present
        | notCreated => exact present
        | created opens =>
            rename_i out drawn fh state
            have different : drawn ≠ chunk.uuid := by
              rintro rfl
              rcases twins.paired object inBank with ⟨record, paired⟩
              simp [(twins.files.create_exists paired.entry).1] at opens
            simp [World.adopt, Chunk.opened, Std.ExtTreeMap.getElem?_insert, different, present]
        | removed found =>
            rename_i uuid removedPointer
            have different : uuid ≠ chunk.uuid := by
              rintro rfl
              exact kept rfl
            simp [Std.ExtTreeMap.getElem?_erase, different, present]
        | appended => exact present
        | timedOut => exact present
        | read => exact present
        | queriedAndSealed => exact present
  refine ⟨stays, ?_⟩
  rcases twins.alike waiting allowed with
    ⟨later, next', diskNext, operated', -, laterTwins, -⟩
  have same : next' = next := by simpa [operated] using operated'.symm
  subst same
  rcases laterTwins.live stays with ⟨found, record, paired⟩
  intro other otherObject
  have sameObject : other = found := by simpa [otherObject] using paired.object
  exact sameObject ▸ paired.identifier.symm ▸ stays

/-- The identifiers that the operations draw are not in the bank, and no two are the same. -/
def DrawsApart (world : World σ H) (operations : List Operation) : Prop :=
  (operations.filterMap Operation.drawn).Nodup ∧
    ∀ uuid ∈ operations.filterMap Operation.drawn, uuid ∉ world.bank

theorem DrawsApart.not_collides {world : World σ H} {operation : Operation}
    {operations : List Operation} (apart : world.DrawsApart (operation :: operations)) :
    ¬ world.Collides operation := by
  rintro ⟨uuid, draws, present⟩
  exact apart.2 uuid (by simp [draws]) present

theorem DrawsApart.tail {store : Store σ H} {world next : World σ H} {operation : Operation}
    {operations : List Operation} (apart : world.DrawsApart (operation :: operations))
    (waiting : world.Waiting) (operated : world.operate store text operation = some next) :
    next.DrawsApart operations := by
  rcases apart with ⟨nodup, missing⟩
  have included : operations.filterMap Operation.drawn ⊆
      (operation :: operations).filterMap Operation.drawn := by
    intro uuid member
    simp only [List.filterMap_cons]
    split
    · exact member
    · exact List.mem_cons_of_mem _ member
  refine ⟨?_, ?_⟩
  · simp only [List.filterMap_cons] at nodup
    split at nodup
    · exact nodup
    · exact (List.nodup_cons.mp nodup).2
  · intro uuid member present
    rcases mem_bank_of_operate waiting operated present with old | draws
    · exact missing uuid (included member) old
    · simp only [List.filterMap_cons, draws, List.nodup_cons] at nodup
      exact nodup.1 member

/-- For every sequence of operations of the bank and its chunks that uses no chunk after its
removal, a server on a `MemStore` and one on a `LocalStore` that both start empty return the same
results and have the same chunk objects at every step; if no identifier is drawn twice, then
without exception, and otherwise up to the message of the creations that fail. -/
theorem backends_answer_alike (text : UUID.Text) (operations : List Operation)
    (allowed : Lib.Guarded (operate MemStore.store text) Allowed (initial ∅) operations) :
    List.Forall₂ Answer.Agree
        (Lib.transcript (operate MemStore.store text) (answer MemStore.store text) (initial ∅)
          operations)
        (Lib.transcript (operate LocalStore.store text) (answer LocalStore.store text)
          (initial Posix.empty) operations) ∧
      ((operations.filterMap Operation.drawn).Nodup →
        Lib.transcript (operate MemStore.store text) (answer MemStore.store text) (initial ∅)
            operations =
          Lib.transcript (operate LocalStore.store text) (answer LocalStore.store text)
            (initial Posix.empty) operations) := by
  constructor
  · refine Lib.transcript_agrees
      (fun mem disk _ => mem.Waiting ∧ ∃ ledger, Twins text ledger mem disk) Answer.Agree ?_
      ⟨initial_waiting _, _, .initial text⟩ allowed
    rintro mem disk operation operations ⟨waiting, ledger, twins⟩ permitted
    have alike := twins.alike waiting permitted
    have agree := alike.answers.elim Or.inl And.right
    rcases alike with ⟨later, next, diskNext, operated, diskOperated, laterTwins, -⟩
    exact ⟨agree, next, diskNext, operated, diskOperated, waiting_of_operate waiting operated,
      later, laterTwins⟩
  · intro nodup
    refine List.forall₂_eq_eq_eq.le _ _ (Lib.transcript_agrees
      (fun mem disk operations => mem.Waiting ∧ mem.DrawsApart operations ∧
        ∃ ledger, Twins text ledger mem disk) Eq ?_
      ⟨initial_waiting _, ⟨nodup, by simp [World.initial]⟩, _, .initial text⟩ allowed)
    rintro mem disk operation operations ⟨waiting, apart, ledger, twins⟩ permitted
    have alike := twins.alike waiting permitted
    have same := alike.answers.resolve_right (fun collided => apart.not_collides collided.1)
    rcases alike with ⟨later, next, diskNext, operated, diskOperated, laterTwins, -⟩
    exact ⟨same, next, diskNext, operated, diskOperated, waiting_of_operate waiting operated,
      apart.tail waiting operated, later, laterTwins⟩

/-- A chunk is created, two appends arrive out of order, and it is read, sealed and removed. -/
theorem backends_answer_alike_two_appends :
    Lib.transcript (operate MemStore.store .canonical) (answer MemStore.store .canonical)
        (initial ∅) [.event (.createChunk .valid ⟨0, 1⟩), .event (.append 0 [3] 2),
          .event (.append 0 [1, 2] 0), .event (.read 0 1 2 (some [])),
          .event (.queryAndSeal 0 .valid), .event (.removeChunk ⟨0, 1⟩)] =
      Lib.transcript (operate LocalStore.store .canonical) (answer LocalStore.store .canonical)
        (initial Posix.empty) [.event (.createChunk .valid ⟨0, 1⟩), .event (.append 0 [3] 2),
          .event (.append 0 [1, 2] 0), .event (.read 0 1 2 (some [])),
          .event (.queryAndSeal 0 .valid), .event (.removeChunk ⟨0, 1⟩)] := by
  refine (backends_answer_alike .canonical _ ?_).2 (by decide)
  refine Lib.guarded_cons trivial rfl (Lib.guarded_cons ?_ rfl (Lib.guarded_cons ?_ rfl
    (Lib.guarded_cons ⟨?_, by decide, by simp⟩ rfl (Lib.guarded_cons ?_ rfl
      (Lib.guarded_cons trivial rfl trivial)))))
  all_goals
    intro chunk found
    cases found
    rfl

end World

end Pain.Manusya
